/-
**The proleptic Gregorian calendar in whole days.**

Days are counted from the first of January 1970. A year is taken from March to February, so that the leap
day is its last.

* `civilFromDays`, `daysFromCivil` — a day as year, month and day of the month, and back.
* `isLeap`, `lastDay`, `weekday`.
-/

import Mathlib.Tactic

namespace Calendar

structure Date where
  year : Int
  month : Nat
  day : Nat
  deriving DecidableEq, Repr

/-- The days of an era of 400 years. -/
def eraDays : Int := 146097

/-- The days from the first of March of the year 0 to the first of January 1970. -/
def epochShift : Int := 719468

def daysFromCivil (date : Date) : Int :=
  let year := if date.month ≤ 2 then date.year - 1 else date.year
  let era := year / 400
  let yearOfEra := year - era * 400
  let march : Int := if 2 < date.month then date.month - 3 else date.month + 9
  let dayOfYear := (153 * march + 2) / 5 + date.day - 1
  let dayOfEra := yearOfEra * 365 + yearOfEra / 4 - yearOfEra / 100 + dayOfYear
  era * eraDays + dayOfEra - epochShift

def civilFromDays (days : Int) : Date :=
  let shifted := days + epochShift
  let era := shifted / eraDays
  let dayOfEra := shifted - era * eraDays
  let yearOfEra := (dayOfEra - dayOfEra / 1460 + dayOfEra / 36524 - dayOfEra / 146096) / 365
  let dayOfYear := dayOfEra - (365 * yearOfEra + yearOfEra / 4 - yearOfEra / 100)
  let march := (5 * dayOfYear + 2) / 153
  let month := if march < 10 then march + 3 else march - 9
  { year := yearOfEra + era * 400 + if month ≤ 2 then 1 else 0
    month := month.toNat
    day := (dayOfYear - (153 * march + 2) / 5 + 1).toNat }

def isLeap (year : Int) : Bool := year % 4 = 0 && (year % 100 ≠ 0 || year % 400 = 0)

def lastDay (year : Int) (month : Nat) : Nat :=
  if month = 2 then if isLeap year then 29 else 28
  else if month = 4 || month = 6 || month = 9 || month = 11 then 30
  else 31

/-- A date that exists. -/
def Date.exists (date : Date) : Bool :=
  1 ≤ date.month && date.month ≤ 12 && 1 ≤ date.day && date.day ≤ lastDay date.year date.month

/-- The day of the week of a day, from Sunday as 0. -/
def weekday (days : Int) : Nat := ((days + 4) % 7).toNat

/-! ### Years that start in March -/

/-- The year, from March, a date is in. -/
def marchYear (date : Date) : Int := if date.month ≤ 2 then date.year - 1 else date.year

/-- The months since March. -/
def marchMonth (date : Date) : Int := if 2 < date.month then date.month - 3 else date.month + 9

/-- The days before a year that starts in March. -/
def yearDays (year : Int) : Int := 365 * year + year / 4 - year / 100 + year / 400

/-- The days since the first of March. -/
def dayOfYear (date : Date) : Int := (153 * marchMonth date + 2) / 5 + date.day - 1

theorem daysFromCivil_eq (date : Date) : daysFromCivil date = yearDays (marchYear date) + dayOfYear date - epochShift := by
  unfold daysFromCivil yearDays dayOfYear marchMonth
  rw [← marchYear]
  dsimp only
  generalize marchYear date = year
  generalize (if 2 < date.month then (date.month : Int) - 3 else date.month + 9) = march
  unfold eraDays
  omega

theorem yearDays_succ (year : Int) : yearDays (year + 1) = yearDays year + 365 + if isLeap (year + 1) then 1 else 0 := by
  unfold yearDays
  split
  case isTrue leap =>
    simp only [isLeap, Bool.and_eq_true, decide_eq_true_eq, Bool.or_eq_true] at leap
    omega
  case isFalse plain =>
    simp only [isLeap, Bool.and_eq_true, decide_eq_true_eq, Bool.or_eq_true, not_and, not_or] at plain
    omega

theorem yearDays_mono {first second : Int} (order : first ≤ second) : yearDays first ≤ yearDays second := by
  unfold yearDays
  omega

/-- What it takes to exist. -/
theorem exists_iff (date : Date) :
    date.exists = true ↔ (1 ≤ date.month ∧ date.month ≤ 12) ∧ 1 ≤ date.day ∧ date.day ≤ lastDay date.year date.month := by
  unfold Date.exists
  simp only [Bool.and_eq_true, decide_eq_true_eq, and_assoc]

/-- A month ends before the next one starts; February, the last month, ends with the year. -/
theorem day_le_of_exists {date : Date} (real : date.exists = true) :
    0 ≤ marchMonth date ∧ marchMonth date ≤ 11 ∧ 1 ≤ date.day
      ∧ (marchMonth date < 11 → (153 * marchMonth date + 2) / 5 + date.day ≤ (153 * (marchMonth date + 1) + 2) / 5)
      ∧ (marchMonth date = 11 → (date.day : Int) ≤ 28 + if isLeap (marchYear date + 1) then 1 else 0) := by
  obtain ⟨⟨low, high⟩, first, last⟩ := (exists_iff date).mp real
  obtain ⟨year, month, day⟩ := date
  unfold lastDay at last
  unfold marchMonth marchYear
  dsimp only at low high first last ⊢
  interval_cases month
  case «2» =>
    simp only [if_true, Nat.le_refl, sub_add_cancel] at last ⊢
    split at last
    · next leap => simp [leap]; omega
    · next plain => simp [plain]; omega
  all_goals
    simp at last ⊢
    omega

theorem dayOfYear_bounds {date : Date} (real : date.exists = true) :
    0 ≤ dayOfYear date ∧ yearDays (marchYear date) + dayOfYear date < yearDays (marchYear date + 1) := by
  obtain ⟨low, high, first, inside, last⟩ := day_le_of_exists real
  rw [yearDays_succ]
  unfold dayOfYear
  by_cases february : marchMonth date = 11
  · have bound := last february
    rw [february]
    split at bound <;> constructor <;> simp_all <;> omega
  · have bound := inside (by omega)
    constructor
    · omega
    · split <;> omega

/-! ### The order of dates -/

/-- Year, month and day, in this order. -/
def Before (date other : Date) : Prop :=
  date.year < other.year
    ∨ date.year = other.year ∧ (date.month < other.month ∨ date.month = other.month ∧ date.day < other.day)

theorem before_trichotomy (date other : Date) : Before date other ∨ date = other ∨ Before other date := by
  obtain ⟨year, month, day⟩ := date
  obtain ⟨year', month', day'⟩ := other
  unfold Before
  rw [Date.mk.injEq]
  dsimp only
  omega

/-- The order is that of the years from March, then of the days in them. -/
theorem march_of_before {date other : Date} (real : date.exists = true) (real' : other.exists = true)
    (before : Before date other) :
    marchYear date < marchYear other ∨ marchYear date = marchYear other ∧ dayOfYear date < dayOfYear other := by
  obtain ⟨low, high, first, inside, -⟩ := day_le_of_exists real
  obtain ⟨low', high', first', -, -⟩ := day_le_of_exists real'
  have later : marchMonth date < marchMonth other → dayOfYear date < dayOfYear other := by
    intro order
    have bound := inside (by omega)
    unfold dayOfYear
    omega
  have same : marchMonth date = marchMonth other → date.day < other.day → dayOfYear date < dayOfYear other := by
    intro month day
    unfold dayOfYear
    rw [month]
    omega
  obtain ⟨⟨low₁, high₁⟩, -⟩ := (exists_iff date).mp real
  obtain ⟨⟨low₂, high₂⟩, -⟩ := (exists_iff other).mp real'
  by_cases years : marchYear date < marchYear other
  · exact .inl years
  · right
    unfold marchMonth at later same
    unfold marchYear at years ⊢
    unfold Before at before
    split at later <;> split at later <;> split at years <;> split at years <;> simp_all <;> omega

theorem daysFromCivil_lt {date other : Date} (real : date.exists = true) (real' : other.exists = true)
    (before : Before date other) : daysFromCivil date < daysFromCivil other := by
  rw [daysFromCivil_eq, daysFromCivil_eq]
  have bounds := dayOfYear_bounds real
  have bounds' := dayOfYear_bounds real'
  rcases march_of_before real real' before with years | ⟨year, days⟩
  · have mono := yearDays_mono (show marchYear date + 1 ≤ marchYear other by omega)
    omega
  · rw [year]
    omega

/-- **Days are in the order of their dates.** -/
theorem daysFromCivil_lt_iff {date other : Date} (real : date.exists = true) (real' : other.exists = true) :
    daysFromCivil date < daysFromCivil other ↔ Before date other := by
  refine ⟨fun order => ?_, daysFromCivil_lt real real'⟩
  rcases before_trichotomy date other with before | same | after
  · exact before
  · rw [same] at order
    exact absurd order (lt_irrefl _)
  · exact absurd (daysFromCivil_lt real' real after) (lt_asymm order)

/-- **No two dates are the same day.** -/
theorem daysFromCivil_injective {date other : Date} (real : date.exists = true) (real' : other.exists = true)
    (same : daysFromCivil date = daysFromCivil other) : date = other := by
  rcases before_trichotomy date other with before | equal | after
  · exact absurd same (daysFromCivil_lt real real' before).ne
  · exact equal
  · exact absurd same (daysFromCivil_lt real' real after).ne'

/-! ### The date of a day -/

/-- The year of a day of an era. -/
def yearOfEra (dayOfEra : Int) : Int := (dayOfEra - dayOfEra / 1460 + dayOfEra / 36524 - dayOfEra / 146096) / 365

/-- The year of a day in a century, a cycle of four years and a day of the cycle. The divisions count the leap days
before it, one too many near the end of a cycle, where it does no harm. -/
theorem yearOfEra_cycle {century cycle day : Int} (low : 0 ≤ century) (high : century ≤ 3) (cycleLow : 0 ≤ cycle)
    (cycleHigh : cycle ≤ 24) (dayLow : 0 ≤ day) (dayHigh : day ≤ 1460) (room : 1461 * cycle + day ≤ 36523) :
    yearOfEra (36524 * century + 1461 * cycle + day) = 100 * century + 4 * cycle + min (day / 365) 3 := by
  have centuries : (36524 * century + 1461 * cycle + day) / 36524 = century := by omega
  have eras : (36524 * century + 1461 * cycle + day) / 146096 = 0 := by omega
  have cycles : (36524 * century + 1461 * cycle + day) / 1460
      = 25 * century + cycle + (24 * century + cycle + day) / 1460 := by omega
  have once : (24 * century + cycle + day) / 1460 = 0 ∨ (24 * century + cycle + day) / 1460 = 1 ∧ 1364 ≤ day := by omega
  unfold yearOfEra
  rw [centuries, eras, cycles, show 36524 * century + 1461 * cycle + day
      - (25 * century + cycle + (24 * century + cycle + day) / 1460) + century - 0
    = (day - (24 * century + cycle + day) / 1460) + (100 * century + 4 * cycle) * 365 by ring,
    Int.add_mul_ediv_right _ _ (by decide)]
  omega

theorem yearDays_cycle {century cycle year : Int} (low : 0 ≤ century) (high : century ≤ 3) (cycleLow : 0 ≤ cycle)
    (cycleHigh : cycle ≤ 24) (yearLow : 0 ≤ year) (yearHigh : year ≤ 3) :
    yearDays (100 * century + 4 * cycle + year) = 36524 * century + 1461 * cycle + 365 * year := by
  have fours : (100 * century + 4 * cycle + year) / 4 = 25 * century + cycle := by omega
  have hundreds : (100 * century + 4 * cycle + year) / 100 = century := by omega
  have eras : (100 * century + 4 * cycle + year) / 400 = 0 := by omega
  unfold yearDays
  omega

/-- **A day of an era lies in the year that is computed for it.** -/
theorem yearOfEra_bounds {day : Int} (low : 0 ≤ day) (high : day < eraDays) :
    0 ≤ yearOfEra day ∧ yearOfEra day ≤ 399 ∧ yearDays (yearOfEra day) ≤ day
      ∧ day < yearDays (yearOfEra day + 1) := by
  unfold eraDays at high
  by_cases last : day = 146096
  · rw [last]
    decide
  · obtain ⟨century, cycle, rest, split, centuryLow, centuryHigh, cycleLow, cycleHigh, restLow, restHigh, room⟩ :
        ∃ century cycle rest, day = 36524 * century + 1461 * cycle + rest ∧ 0 ≤ century ∧ century ≤ 3 ∧ 0 ≤ cycle
          ∧ cycle ≤ 24 ∧ 0 ≤ rest ∧ rest ≤ 1460 ∧ 1461 * cycle + rest ≤ 36523 :=
      ⟨day / 36524, day % 36524 / 1461, day % 36524 % 1461, by omega⟩
    rw [split, yearOfEra_cycle centuryLow centuryHigh cycleLow cycleHigh restLow restHigh room]
    rw [yearDays_cycle centuryLow centuryHigh cycleLow cycleHigh (by omega) (min_le_right _ _)]
    refine ⟨by omega, by omega, by omega, ?_⟩
    by_cases lastYear : rest / 365 < 3
    · have next := yearDays_cycle centuryLow centuryHigh cycleLow cycleHigh
        (show 0 ≤ rest / 365 + 1 by omega) (by omega)
      rw [min_eq_left (by omega), add_assoc (100 * century + 4 * cycle), next]
      omega
    · rw [min_eq_right (by omega)]
      -- the next year starts a cycle, a century or an era
      by_cases lastCycle : cycle < 24
      · have next := yearDays_cycle centuryLow centuryHigh (show 0 ≤ cycle + 1 by omega) (by omega)
          (Int.le_refl 0) (by omega)
        rw [show 100 * century + 4 * cycle + 3 + 1 = 100 * century + 4 * (cycle + 1) + 0 by ring, next]
        omega
      · obtain rfl : cycle = 24 := by omega
        by_cases lastCentury : century < 3
        · have next := yearDays_cycle (show 0 ≤ century + 1 by omega) (by omega) (Int.le_refl 0) (by omega)
            (Int.le_refl 0) (by omega)
          rw [show 100 * century + 4 * 24 + 3 + 1 = 100 * (century + 1) + 4 * 0 + 0 by ring, next]
          omega
        · obtain rfl : century = 3 := by omega
          have next : yearDays 400 = 146097 := by decide
          rw [show (100 * 3 + 4 * 24 + 3 + 1 : Int) = 400 by decide, next]
          omega

/-- The date that many years, months and days after a first of March. -/
def marchDate (year march : Int) (day : Nat) : Date :=
  { year := year + if march < 10 then 0 else 1
    month := (if march < 10 then march + 3 else march - 9).toNat
    day := day }

theorem marchYear_marchDate {year march : Int} (day : Nat) (low : 0 ≤ march) (high : march ≤ 11) :
    marchYear (marchDate year march day) = year := by
  unfold marchYear marchDate
  dsimp only
  split <;> split <;> omega

theorem marchMonth_marchDate {year march : Int} (day : Nat) (low : 0 ≤ march) (high : march ≤ 11) :
    marchMonth (marchDate year march day) = march := by
  unfold marchMonth marchDate
  dsimp only
  split <;> split <;> omega

theorem isLeap_add_era (year era : Int) : isLeap (year + era * 400) = isLeap year := by
  unfold isLeap
  rw [show (year + era * 400) % 4 = year % 4 by omega, show (year + era * 400) % 100 = year % 100 by omega,
    show (year + era * 400) % 400 = year % 400 by omega]

/-- A day of a year from March is a date. -/
theorem marchDate_exists {year march : Int} {day : Nat} (low : 0 ≤ march) (high : march ≤ 11) (first : 1 ≤ day)
    (inside : march < 11 → (153 * march + 2) / 5 + day ≤ (153 * (march + 1) + 2) / 5)
    (last : march = 11 → (day : Int) ≤ 28 + if isLeap (year + 1) then 1 else 0) :
    (marchDate year march day).exists = true := by
  rw [exists_iff]
  unfold marchDate lastDay
  dsimp only
  by_cases february : march = 11
  · have bound := last february
    subst february
    simp only [show ¬ (11 : Int) < 10 by decide, if_false, show (11 - 9 : Int).toNat = 2 by decide, if_true]
    split <;> simp_all
  · have bound := inside (by omega)
    interval_cases march <;> simp at bound february ⊢ <;> omega

/-- The date of a day, in an era, a year and a month from March. -/
theorem civilFromDays_march (days : Int) :
    ∃ (era year march : Int) (day : Nat), civilFromDays days = marchDate (year + era * 400) march day
      ∧ days + epochShift = era * eraDays + yearDays year + (153 * march + 2) / 5 + day - 1
      ∧ 0 ≤ march ∧ march ≤ 11 ∧ 1 ≤ day
      ∧ (march < 11 → (153 * march + 2) / 5 + day ≤ (153 * (march + 1) + 2) / 5)
      ∧ (march = 11 → (day : Int) ≤ 28 + if isLeap (year + 1) then 1 else 0) := by
  obtain ⟨era, dayOfEra, whole, split, low, high⟩ : ∃ era dayOfEra, (days + epochShift) / eraDays = era
      ∧ days + epochShift - era * eraDays = dayOfEra ∧ 0 ≤ dayOfEra ∧ dayOfEra < eraDays := by
    refine ⟨_, _, rfl, rfl, ?_, ?_⟩ <;> unfold eraDays <;> omega
  obtain ⟨yearLow, yearHigh, before, after⟩ := yearOfEra_bounds low high
  obtain ⟨date, shown⟩ : ∃ date, civilFromDays days = date := ⟨_, rfl⟩
  rw [shown]
  unfold civilFromDays at shown
  dsimp only at shown
  rw [whole, split, ← yearOfEra] at shown
  generalize yearOfEra dayOfEra = year at yearLow yearHigh before after shown
  have start : 365 * year + year / 4 - year / 100 = yearDays year := by
    unfold yearDays
    omega
  rw [start] at shown
  obtain ⟨rest, inYear⟩ : ∃ rest, dayOfEra - yearDays year = rest := ⟨_, rfl⟩
  rw [inYear] at shown
  rw [yearDays_succ] at after
  have bound : rest < 365 + if isLeap (year + 1) then 1 else 0 := by omega
  obtain ⟨march, month⟩ : ∃ march, (5 * rest + 2) / 153 = march := ⟨_, rfl⟩
  rw [month] at shown
  have short : rest ≤ 365 := by
    split at bound <;> omega
  refine ⟨era, year, march, (rest - (153 * march + 2) / 5 + 1).toNat, ?_, by omega, by omega, by omega, by omega,
    by omega, fun february => ?_⟩
  · unfold marchDate
    rw [← shown]
    congr 2
    split <;> split <;> omega
  · split at bound
    · next leap => rw [if_pos leap]; omega
    · next plain => rw [if_neg plain]; omega

/-- **The date of a day exists and is that day.** -/
theorem civilFromDays_spec (days : Int) :
    (civilFromDays days).exists = true ∧ daysFromCivil (civilFromDays days) = days := by
  obtain ⟨era, year, march, day, shown, split, low, high, first, inside, last⟩ := civilFromDays_march days
  have leap : isLeap (year + era * 400 + 1) = isLeap (year + 1) := by
    rw [add_right_comm, isLeap_add_era]
  have whole : yearDays (year + era * 400) = yearDays year + era * eraDays := by
    unfold yearDays eraDays
    omega
  rw [shown]
  refine ⟨marchDate_exists low high first inside (by rwa [leap]), ?_⟩
  rw [daysFromCivil_eq, dayOfYear, marchYear_marchDate day low high, marchMonth_marchDate day low high, whole]
  show yearDays year + era * eraDays + ((153 * march + 2) / 5 + day - 1) - epochShift = days
  omega

/-- **A date that exists is the date of its day.** -/
theorem civilFromDays_daysFromCivil {date : Date} (real : date.exists = true) :
    civilFromDays (daysFromCivil date) = date :=
  daysFromCivil_injective (civilFromDays_spec _).1 real (civilFromDays_spec _).2

end Calendar
