/-
**The three date formats, read and written.**

An instant is a date and a second of the day (`instant`, `dateOf`, `clockOf`). A text in one of the formats is put together
from its parts (`imfText`, `asctimeText`, `longText`); the parser cuts it where it was put together.

* `fewDigits_iff`, `parseClock_iff`, `findMonth_iff` — **each part is read exactly where it was written.**
* `parseHttpDate_iff` — what the parser accepts, in terms of the parts.
* `http_date_round_trip` — **formatting and reading the IMF format are inverse to each other.**
* `obsolete_dates` — the two-digit years of the long format, and the asctime format.
-/

import HpServer.Http.StaticRepresentation
import HpServer.Library.Numerals

namespace HpServer.Http

open Calendar Numerals

/-! ### Instants -/

/-- The date of an instant. -/
def dateOf (v : Int) : Date := civilFromDays (v / secondsPerDay)

/-- The second of the day. -/
def clockOf (v : Int) : Nat := (v % secondsPerDay).toNat

def instant (date : Date) (clock : Nat) : Int := daysFromCivil date * secondsPerDay + clock

/-- The instant lies in one of the years 0 to 9999. -/
def Representable (v : Int) : Prop := 0 ≤ (dateOf v).year ∧ (dateOf v).year ≤ 9999

theorem dateOf_exists (v : Int) : (dateOf v).exists = true := (civilFromDays_spec _).1

theorem daysFromCivil_dateOf (v : Int) : daysFromCivil (dateOf v) = v / secondsPerDay := (civilFromDays_spec _).2

theorem clockOf_lt (v : Int) : clockOf v < 86400 := by
  unfold clockOf secondsPerDay
  omega

/-- **An instant is its date and its second.** -/
theorem instant_dateOf (v : Int) : instant (dateOf v) (clockOf v) = v := by
  unfold instant clockOf
  rw [daysFromCivil_dateOf]
  unfold secondsPerDay
  omega

section Instant

variable {date : Date} {clock : Nat} (real : date.exists = true) (short : clock < 86400)

include short

theorem instant_div : instant date clock / secondsPerDay = daysFromCivil date := by
  unfold instant secondsPerDay
  omega

theorem clockOf_instant : clockOf (instant date clock) = clock := by
  unfold clockOf instant secondsPerDay
  omega

include real

theorem dateOf_instant : dateOf (instant date clock) = date := by
  rw [dateOf, instant_div short, civilFromDays_daysFromCivil real]

end Instant

/-- **Dates are read off the years 0 to 9999.** -/
theorem calendarDate_eq_some {v : Int} {date : Date} : calendarDate v = some date ↔ Representable v ∧ date = dateOf v := by
  have real := dateOf_exists v
  obtain ⟨⟨low, high⟩, first, last⟩ := (exists_iff _).mp real
  have early := daysFromCivil_lt_iff real (show Date.exists { year := 0, month := 1, day := 1 } = true by decide)
  have late := daysFromCivil_lt_iff (show Date.exists { year := 9999, month := 12, day := 31 } = true by decide) real
  have short : lastDay (dateOf v).year (dateOf v).month ≤ 31 := by
    unfold lastDay
    split_ifs <;> decide
  rw [daysFromCivil_dateOf] at early late
  unfold Before at early late
  unfold calendarDate Representable
  dsimp only at early late ⊢
  split
  case isTrue outside =>
    rw [Bool.or_eq_true, decide_eq_true_eq, decide_eq_true_eq, early, late] at outside
    exact ⟨nofun, fun ⟨inside, _⟩ => absurd inside (by omega)⟩
  case isFalse inside =>
    rw [Bool.or_eq_true, decide_eq_true_eq, decide_eq_true_eq, early, late] at inside
    rw [Option.some.injEq, eq_comm]
    exact (and_iff_right (by omega)).symm

/-! ### Parts of a text -/

/-- A part, and what is behind it. -/
theorem drop_part (value : Bytes) {start count stop : Nat} (ends : start + count = stop) :
    value.drop start = substr value start count ++ value.drop stop := by
  unfold substr
  rw [← ends, ← List.drop_drop, List.take_append_drop]

theorem drop_byte {value : Bytes} {index : Nat} (inside : index < value.length) :
    value.drop index = byteAt value index :: value.drop (index + 1) := by
  unfold byteAt
  rw [List.drop_eq_getElem_cons inside, List.getD_eq_getElem?_getD, List.getElem?_eq_getElem inside, Option.getD_some]

theorem length_substr {value : Bytes} {start count : Nat} (inside : start + count ≤ value.length) :
    (substr value start count).length = count := by
  unfold substr
  rw [List.length_take, List.length_drop]
  omega

/-- **Digits are read where a number is written in so many places.** -/
theorem fewDigits_iff {digits : Bytes} {n : Nat} (some : digits ≠ []) :
    fewDigits digits = .some n ↔ digits = places 10 digits.length n ∧ n < 10 ^ digits.length := by
  unfold fewDigits
  constructor
  · intro read
    split at read
    case isTrue => cases read
    case isFalse allowed =>
      simp only [Bool.or_eq_true, decide_eq_true_eq, Bool.not_eq_true', not_or, Bool.not_eq_false, List.all_eq_true]
        at allowed
      obtain ⟨same, small⟩ := places_value digits allowed.2
      rw [← Option.some.inj read]
      exact ⟨same.symm, small⟩
  · rintro ⟨written, small⟩
    have decimal : ∀ b ∈ digits, isDigit b = true := by
      rw [written]
      exact isDecimal_places _ _
    rw [if_neg]
    · refine congrArg Option.some ?_
      conv_lhs => rw [written]
      exact value_places small
    · simp only [Bool.or_eq_true, decide_eq_true_eq, Bool.not_eq_true', not_or, Bool.not_eq_false, List.all_eq_true]
      exact ⟨some, decimal⟩

theorem paddedDecimal_eq {width n : Nat} (some : 0 < width) (small : n < 10 ^ width) :
    paddedDecimal n width = places 10 width n := by
  unfold paddedDecimal
  rw [decimalText_eq]
  exact padded_eq (by decide) some small

theorem fewDigits_places {width n : Nat} (some : 0 < width) (small : n < 10 ^ width) :
    fewDigits (places 10 width n) = .some n := by
  have nonempty : places 10 width n ≠ [] := by
    rw [← List.length_pos_iff, length_places]
    exact some
  rw [fewDigits_iff nonempty, length_places]
  exact ⟨rfl, small⟩

/-! ### The clock -/

def clockText (clock : Nat) : Bytes :=
  places 10 2 (clock / 3600) ++ [colon] ++ places 10 2 (clock / 60 % 60) ++ [colon] ++ places 10 2 (clock % 60)

theorem length_clockText (clock : Nat) : (clockText clock).length = 8 := by
  unfold clockText
  simp only [List.length_append, length_places, List.length_singleton]

theorem clock_parts {clock : Bytes} (size : clock.length = 8) :
    clock = substr clock 0 2 ++ [byteAt clock 2] ++ substr clock 3 2 ++ [byteAt clock 5] ++ substr clock 6 2 := by
  have none : clock.drop 8 = [] := List.drop_of_length_le (by omega)
  calc clock = clock.drop 0 := rfl
    _ = substr clock 0 2 ++ byteAt clock 2 :: (substr clock 3 2 ++ byteAt clock 5 :: (substr clock 6 2 ++ [])) := by
      rw [drop_part clock (rfl : 0 + 2 = 2), drop_byte (by omega : 2 < clock.length), drop_part clock (rfl : 3 + 2 = 5),
        drop_byte (by omega : 5 < clock.length), drop_part clock (rfl : 6 + 2 = 8), none]
    _ = _ := by simp only [List.append_assoc, List.cons_append, List.nil_append, List.append_nil]

/-- **The clock is read where a second of the day was written.** -/
theorem parseClock_iff {clock : Bytes} {t : Nat} : parseClock clock = some t ↔ clock = clockText t ∧ t < 86400 := by
  constructor
  · intro read
    unfold parseClock at read
    split at read
    case isTrue => cases read
    case isFalse shaped =>
    simp only [ne_eq, Bool.or_eq_true, decide_eq_true_eq, not_or, not_not] at shaped
    obtain ⟨⟨size, second⟩, fifth⟩ := shaped
    have whole := clock_parts size
    have nonempty : ∀ start, start + 2 ≤ clock.length → substr clock start 2 ≠ [] := by
      intro start inside empty
      have none := length_substr inside
      rw [empty] at none
      exact absurd none (by decide)
    split at read
    case h_2 => cases read
    case h_1 hours minutes seconds hour minute sec =>
    split at read
    case isTrue => cases read
    case isFalse bounded =>
    simp only [Bool.or_eq_true, decide_eq_true_eq, not_or, Nat.not_lt] at bounded
    rw [fewDigits_iff (nonempty _ (by omega)), length_substr (by omega)] at hour minute sec
    have total := Option.some.inj read
    have hours' : t / 3600 = hours := by omega
    have minutes' : t / 60 % 60 = minutes := by omega
    have seconds' : t % 60 = seconds := by omega
    refine ⟨?_, by omega⟩
    unfold clockText
    rw [hours', minutes', seconds', ← hour.1, ← minute.1, ← sec.1]
    rw [second, fifth] at whole
    exact whole
  · rintro ⟨rfl, small⟩
    obtain ⟨a, b, hours⟩ := List.length_eq_two.mp (length_places 10 2 (t / 3600))
    obtain ⟨c, d, minutes⟩ := List.length_eq_two.mp (length_places 10 2 (t / 60 % 60))
    obtain ⟨e, f, seconds⟩ := List.length_eq_two.mp (length_places 10 2 (t % 60))
    have written : clockText t = [a, b, colon, c, d, colon, e, f] := by
      unfold clockText
      rw [hours, minutes, seconds]
      rfl
    have hour := fewDigits_places (n := t / 3600) (Nat.succ_pos 1) (by omega)
    have minute := fewDigits_places (n := t / 60 % 60) (Nat.succ_pos 1) (by omega)
    have second := fewDigits_places (n := t % 60) (Nat.succ_pos 1) (by omega)
    rw [hours] at hour
    rw [minutes] at minute
    rw [seconds] at second
    have first : fewDigits (substr [a, b, colon, c, d, colon, e, f] 0 2) = some (t / 3600) := hour
    have middle : fewDigits (substr [a, b, colon, c, d, colon, e, f] 3 2) = some (t / 60 % 60) := minute
    have last : fewDigits (substr [a, b, colon, c, d, colon, e, f] 6 2) = some (t % 60) := second
    rw [written]
    unfold parseClock
    rw [if_neg (by simp [byteAt]), first, middle, last]
    dsimp only
    rw [if_neg (by simp only [Bool.or_eq_true, decide_eq_true_eq]; omega)]
    exact congrArg some (by omega)

/-! ### Fields -/

/-- What is done with the fields of a date once it is cut. -/
def readFields (fields : DateFields) (nowSeconds : Int) : Option Int :=
  match fields.year, fields.day, kMonths.findIdx? (· = fields.monthName), parseClock fields.clock with
  | some writtenYear, some day, some monthIndex, some clock =>
    if day < 1 then none
    else
      let year : Option Int :=
        if fields.longDay then longYear writtenYear (monthIndex + 1) day clock nowSeconds
        else some writtenYear
      match year with
      | none => none
      | some year =>
        let date : Date := { year := year, month := monthIndex + 1, day := day }
        if !date.exists then none
        else
          let dayStart := daysFromCivil date
          let names := if fields.longDay then kLongDays else kDays
          if fields.dayName ≠ names.getD (weekday dayStart) [] then none
          else some (dayStart * secondsPerDay + clock)
  | _, _, _, _ => none

theorem parseHttpDate_eq (value : Bytes) (now : Int) :
    parseHttpDate value now = (cutDate value).bind fun fields => readFields fields now := by
  unfold parseHttpDate
  cases cutDate value <;> rfl

def monthName (month : Nat) : Bytes := kMonths.getD (month - 1) []

theorem findMonth_iff {name : Bytes} {index : Nat} :
    kMonths.findIdx? (· = name) = some index ↔ index < 12 ∧ name = monthName (index + 1) := by
  -- No month has the name of one before it.
  have apart : ∀ i < 12, kMonths.findIdx? (· = monthName (i + 1)) = some i := by decide
  constructor
  · intro found
    obtain ⟨inside, same, -⟩ := List.findIdx?_eq_some_iff_getElem.mp found
    refine ⟨inside, ?_⟩
    rw [← of_decide_eq_true same]
    rw [monthName, Nat.add_sub_cancel, List.getD_eq_getElem?_getD, List.getElem?_eq_getElem inside, Option.getD_some]
  · rintro ⟨inside, rfl⟩
    exact apart index inside

/-- The year a text with `writtenYear` is taken to mean. -/
def yearMeant (fields : DateFields) (writtenYear month day clock : Nat) (now : Int) : Option Int :=
  if fields.longDay then longYear writtenYear month day clock now else some (writtenYear : Int)

def dayNameOf (long : Bool) (v : Int) : Bytes :=
  (if long then kLongDays else kDays).getD (weekday (v / secondsPerDay)) []

/-- **Fields are read where they are those of an instant.** -/
theorem readFields_iff {fields : DateFields} {now r : Int} :
    readFields fields now = some r ↔
      (∃ writtenYear, fields.year = some writtenYear
        ∧ yearMeant fields writtenYear (dateOf r).month (dateOf r).day (clockOf r) now = some (dateOf r).year)
      ∧ fields.day = some (dateOf r).day
      ∧ fields.monthName = monthName (dateOf r).month
      ∧ fields.clock = clockText (clockOf r)
      ∧ fields.dayName = dayNameOf fields.longDay r := by
  unfold readFields
  constructor
  · intro read
    split at read
    case h_2 => cases read
    case h_1 writtenYear day index clock year' day' month' clock' =>
    split at read
    case isTrue => cases read
    case isFalse =>
    dsimp only at read
    split at read
    case h_1 => cases read
    case h_2 year meant =>
    split at read
    case isTrue => cases read
    case isFalse real =>
    by_cases named : fields.dayName
        = (if fields.longDay then kLongDays else kDays).getD
          (weekday (daysFromCivil { year := year, month := index + 1, day := day })) []
    case neg =>
      rw [if_pos named] at read
      cases read
    rw [if_neg (not_not_intro named)] at read
    rw [Bool.not_eq_true', Bool.not_eq_false] at real
    rw [findMonth_iff] at month'
    rw [parseClock_iff] at clock'
    obtain rfl : instant _ clock = r := Option.some.inj read
    unfold dayNameOf yearMeant
    rw [dateOf_instant real clock'.2, clockOf_instant clock'.2, instant_div clock'.2]
    exact ⟨⟨writtenYear, year', meant⟩, day', month'.2, clock'.1, named⟩
  · rintro ⟨⟨writtenYear, year', meant⟩, day', month', clock', named⟩
    have real := dateOf_exists r
    obtain ⟨⟨low, high⟩, first, -⟩ := (exists_iff _).mp real
    have found : kMonths.findIdx? (· = fields.monthName) = some ((dateOf r).month - 1) := by
      rw [findMonth_iff, Nat.sub_add_cancel low]
      exact ⟨by omega, month'⟩
    have ticked := parseClock_iff.mpr ⟨clock', clockOf_lt r⟩
    unfold yearMeant at meant
    unfold dayNameOf at named
    rw [year', day', found, ticked]
    dsimp only
    rw [if_neg (by omega), Nat.sub_add_cancel low, meant]
    dsimp only
    rw [show ({ year := (dateOf r).year, month := (dateOf r).month, day := (dateOf r).day } : Date) = dateOf r from rfl,
      real, if_neg (by decide), if_neg (by rw [daysFromCivil_dateOf]; exact not_not_intro named)]
    exact congrArg some (instant_dateOf r)

/-! ### The shapes of the three formats -/

def imfShape (dayName day month year clock : Bytes) : Bytes :=
  dayName ++ text ", " ++ day ++ [sp] ++ month ++ [sp] ++ year ++ [sp] ++ clock ++ text " GMT"

def asctimeShape (dayName month day clock year : Bytes) : Bytes :=
  dayName ++ [sp] ++ month ++ [sp] ++ day ++ [sp] ++ clock ++ [sp] ++ year

/-- The parts of a text in the long format, as in `Sunday, 06-Nov-94 08:49:37 GMT`. -/
structure LongDate where
  dayName : Bytes
  day : Bytes
  month : Bytes
  year : Bytes
  clock : Bytes
  named : dayName ≠ []
  unbroken : comma ∉ dayName
  dayPlaces : day.length = 2
  monthPlaces : month.length = 3
  yearPlaces : year.length = 2
  clockPlaces : clock.length = 8

def LongDate.tail (long : LongDate) : Bytes :=
  text ", " ++ long.day ++ [dash] ++ long.month ++ [dash] ++ long.year ++ [sp] ++ long.clock ++ text " GMT"

def LongDate.text (long : LongDate) : Bytes := long.dayName ++ long.tail

def LongDate.fields (long : LongDate) : DateFields :=
  { dayName := long.dayName
    day := fewDigits long.day
    monthName := long.month
    year := fewDigits long.year
    clock := long.clock
    longDay := true }

theorem imf_parts {value : Bytes} (shaped : isImfDate value = true) :
    value.length = 29
      ∧ value = imfShape (substr value 0 3) (substr value 5 2) (substr value 8 3) (substr value 12 4) (substr value 17 8) := by
  unfold isImfDate at shaped
  simp only [Bool.and_eq_true, decide_eq_true_eq] at shaped
  obtain ⟨⟨⟨⟨⟨size, third⟩, seventh⟩, eleventh⟩, sixteenth⟩, zone⟩ := shaped
  refine ⟨size, ?_⟩
  unfold imfShape
  rw [← third, ← zone]
  conv_rhs => simp only [List.append_assoc, List.cons_append, List.nil_append]
  conv_lhs =>
    rw [show value = value.drop 0 from rfl, drop_part value (rfl : 0 + 3 = 3), drop_part value (rfl : 3 + 2 = 5),
      drop_part value (rfl : 5 + 2 = 7), drop_byte (by omega : 7 < value.length), drop_part value (rfl : 8 + 3 = 11),
      drop_byte (by omega : 11 < value.length), drop_part value (rfl : 12 + 4 = 16),
      drop_byte (by omega : 16 < value.length), drop_part value (rfl : 17 + 8 = 25)]
  rw [eleventh, sixteenth, seventh]

theorem asctime_parts {value : Bytes} (shaped : isAsctimeDate value = true) :
    value.length = 24
      ∧ value = asctimeShape (substr value 0 3) (substr value 4 3) (substr value 8 2) (substr value 11 8) (substr value 20 4) := by
  unfold isAsctimeDate at shaped
  simp only [Bool.and_eq_true, decide_eq_true_eq] at shaped
  obtain ⟨⟨⟨⟨size, third⟩, seventh⟩, tenth⟩, last⟩ := shaped
  refine ⟨size, ?_⟩
  have none : value.drop 24 = [] := List.drop_of_length_le (by omega)
  unfold asctimeShape
  conv_rhs => simp only [List.append_assoc, List.cons_append, List.nil_append]
  conv_lhs =>
    rw [show value = value.drop 0 from rfl, drop_part value (rfl : 0 + 3 = 3), drop_byte (by omega : 3 < value.length),
      drop_part value (rfl : 4 + 3 = 7), drop_byte (by omega : 7 < value.length), drop_part value (rfl : 8 + 2 = 10),
      drop_byte (by omega : 10 < value.length), drop_part value (rfl : 11 + 8 = 19),
      drop_byte (by omega : 19 < value.length), drop_part value (rfl : 20 + 4 = 24), none, List.append_nil]
  rw [third, seventh, tenth, last]

theorem long_parts {tail : Bytes} (shaped : isLongDateTail tail = true) :
    tail.length = 24
      ∧ tail = text ", " ++ substr tail 2 2 ++ [dash] ++ substr tail 5 3 ++ [dash] ++ substr tail 9 2 ++ [sp]
          ++ substr tail 12 8 ++ text " GMT" := by
  unfold isLongDateTail at shaped
  simp only [Bool.and_eq_true, decide_eq_true_eq] at shaped
  obtain ⟨⟨⟨⟨⟨size, first⟩, fourth⟩, eighth⟩, eleventh⟩, zone⟩ := shaped
  refine ⟨size, ?_⟩
  rw [← first, ← zone]
  conv_rhs => simp only [List.append_assoc, List.cons_append, List.nil_append]
  conv_lhs =>
    rw [show tail = tail.drop 0 from rfl, drop_part tail (rfl : 0 + 2 = 2), drop_part tail (rfl : 2 + 2 = 4),
      drop_byte (by omega : 4 < tail.length), drop_part tail (rfl : 5 + 3 = 8), drop_byte (by omega : 8 < tail.length),
      drop_part tail (rfl : 9 + 2 = 11), drop_byte (by omega : 11 < tail.length), drop_part tail (rfl : 12 + 8 = 20)]
  rw [fourth, eighth, eleventh]

theorem four_bytes {value : Bytes} (size : value.length = 4) : ∃ a b c d, value = [a, b, c, d] := by
  rcases value with _ | ⟨a, _ | ⟨b, _ | ⟨c, _ | ⟨d, _ | _⟩⟩⟩⟩ <;> cases size
  exact ⟨a, b, c, d, rfl⟩

theorem eight_bytes {value : Bytes} (size : value.length = 8) :
    ∃ a b c d e f g h, value = [a, b, c, d, e, f, g, h] := by
  rcases value with _ | ⟨a, _ | ⟨b, _ | ⟨c, _ | ⟨d, rest⟩⟩⟩⟩
  case cons.cons.cons.cons =>
    have left : rest.length + 4 = 4 + 4 := size
    obtain ⟨e, f, g, h, rfl⟩ := four_bytes (Nat.add_right_cancel left)
    exact ⟨a, b, c, d, e, f, g, h, rfl⟩
  all_goals cases size

theorem cutDate_imfShape {dayName day month year clock : Bytes} (dayNamePlaces : dayName.length = 3)
    (dayPlaces : day.length = 2) (monthPlaces : month.length = 3) (yearPlaces : year.length = 4)
    (clockPlaces : clock.length = 8) :
    cutDate (imfShape dayName day month year clock)
      = some
          { dayName := dayName
            day := fewDigits day
            monthName := month
            year := fewDigits year
            clock := clock } := by
  obtain ⟨a, b, c, rfl⟩ := List.length_eq_three.mp dayNamePlaces
  obtain ⟨d, e, rfl⟩ := List.length_eq_two.mp dayPlaces
  obtain ⟨f, g, h, rfl⟩ := List.length_eq_three.mp monthPlaces
  obtain ⟨i, j, k, l, rfl⟩ := four_bytes yearPlaces
  obtain ⟨m, n, o, p, q, r, s, t, rfl⟩ := eight_bytes clockPlaces
  rfl

/-- The day of the asctime format, where a space may stand for the first digit. -/
def asctimeDay (day : Bytes) : Option Nat := fewDigits (if byteAt day 0 = sp then substr day 1 1 else day)

theorem cutDate_asctimeShape {dayName month day clock year : Bytes} (dayNamePlaces : dayName.length = 3)
    (monthPlaces : month.length = 3) (dayPlaces : day.length = 2) (clockPlaces : clock.length = 8)
    (yearPlaces : year.length = 4) :
    cutDate (asctimeShape dayName month day clock year)
      = some
          { dayName := dayName
            day := asctimeDay day
            monthName := month
            year := fewDigits year
            clock := clock } := by
  obtain ⟨a, b, c, rfl⟩ := List.length_eq_three.mp dayNamePlaces
  obtain ⟨d, e, rfl⟩ := List.length_eq_two.mp dayPlaces
  obtain ⟨f, g, h, rfl⟩ := List.length_eq_three.mp monthPlaces
  obtain ⟨i, j, k, l, rfl⟩ := four_bytes yearPlaces
  obtain ⟨m, n, o, p, q, r, s, t, rfl⟩ := eight_bytes clockPlaces
  rfl

/-- The tail of a long date and the fields it is cut into. -/
theorem tail_cut (long : LongDate) :
    isLongDateTail long.tail = true ∧ substr long.tail 2 2 = long.day ∧ substr long.tail 5 3 = long.month
      ∧ substr long.tail 9 2 = long.year ∧ substr long.tail 12 8 = long.clock := by
  obtain ⟨dayName, day, month, year, clock, -, -, dayPlaces, monthPlaces, yearPlaces, clockPlaces⟩ := long
  obtain ⟨a, b, rfl⟩ := List.length_eq_two.mp dayPlaces
  obtain ⟨c, d, e, rfl⟩ := List.length_eq_three.mp monthPlaces
  obtain ⟨f, g, rfl⟩ := List.length_eq_two.mp yearPlaces
  obtain ⟨m, n, o, p, q, r, s, t, rfl⟩ := eight_bytes clockPlaces
  exact ⟨rfl, rfl, rfl, rfl, rfl⟩

theorem length_tail (long : LongDate) : long.tail.length = 24 := (long_parts (tail_cut long).1).1

/-- **A text in the long format has neither of the other shapes.** -/
theorem long_not_short (long : LongDate) : isImfDate long.text = false ∧ isAsctimeDate long.text = false := by
  have size : long.text.length = long.dayName.length + 24 := by
    unfold LongDate.text
    rw [List.length_append, length_tail]
  have some : 0 < long.dayName.length := List.length_pos_iff.mpr long.named
  constructor
  · by_contra imf
    rw [Bool.not_eq_false] at imf
    obtain ⟨whole, -⟩ := imf_parts imf
    unfold isImfDate at imf
    simp only [Bool.and_eq_true, decide_eq_true_eq] at imf
    obtain ⟨⟨⟨⟨⟨-, third⟩, -⟩, -⟩, -⟩, -⟩ := imf
    -- The comma would stand in the day name.
    have inName : substr long.text 3 2 = substr long.dayName 3 2 := by
      unfold substr LongDate.text
      rw [List.drop_append_of_le_length (by omega), List.take_append_of_le_length (by rw [List.length_drop]; omega)]
    have inside : comma ∈ substr long.dayName 3 2 := by
      rw [← inName, third]
      exact List.mem_cons_self
    exact long.unbroken (List.mem_of_mem_drop (List.mem_of_mem_take inside))
  · by_contra asctime
    rw [Bool.not_eq_false] at asctime
    have whole := (asctime_parts asctime).1
    omega

theorem cutDate_long (long : LongDate) : cutDate long.text = some long.fields := by
  obtain ⟨notImf, notAsctime⟩ := long_not_short long
  obtain ⟨shaped, day, month, year, clock⟩ := tail_cut long
  have broken : long.text = long.dayName ++ comma :: long.tail.drop 1 := rfl
  have present : comma ∈ long.text := by
    rw [broken]
    exact List.mem_append_right _ List.mem_cons_self
  have named : (cutAt comma long.text).1 = long.dayName := by rw [broken, cutAt_append long.unbroken]
  have behind : long.text.drop long.dayName.length = long.tail := List.drop_left
  unfold cutDate
  dsimp only
  rw [notImf, notAsctime, if_neg (by decide), if_neg (by decide), if_neg (not_not_intro present), named, behind, shaped,
    if_neg (by decide), day, month, year, clock]
  rfl

/-- **A text that is cut has one of the three shapes.** -/
theorem cutDate_cases {value : Bytes} {fields : DateFields} (cut : cutDate value = some fields) :
    isImfDate value = true ∨ isAsctimeDate value = true
      ∨ (cutAt comma value).1 = [] ∧ fields.dayName = [] ∧ fields.longDay = true
      ∨ ∃ long : LongDate, value = long.text := by
  unfold cutDate at cut
  split at cut
  case isTrue imf => exact .inl imf
  case isFalse =>
  split at cut
  case isTrue asctime => exact .inr (.inl asctime)
  case isFalse =>
  split at cut
  case isTrue => cases cut
  case isFalse present =>
  dsimp only at cut
  split at cut
  case isTrue => cases cut
  case isFalse shaped =>
  rw [Bool.not_eq_true', Bool.not_eq_false] at shaped
  obtain ⟨unbroken, ⟨whole, -⟩ | whole⟩ := cutAt_cases comma value
  · exact absurd (whole ▸ not_not.mp present) unbroken
  · by_cases named : (cutAt comma value).1 = []
    · rw [← Option.some.inj cut]
      exact .inr (.inr (.inl ⟨named, named, rfl⟩))
    · obtain ⟨size, tail⟩ := long_parts shaped
      have start : (cutAt comma value).1 <+: value := List.takeWhile_prefix _
      have parted : value = (cutAt comma value).1 ++ value.drop (cutAt comma value).1.length := by
        conv_rhs =>
          arg 1
          rw [List.prefix_iff_eq_take.mp start]
        rw [List.take_append_drop]
      exact .inr (.inr (.inr ⟨
        { dayName := (cutAt comma value).1
          day := substr (value.drop (cutAt comma value).1.length) 2 2
          month := substr (value.drop (cutAt comma value).1.length) 5 3
          year := substr (value.drop (cutAt comma value).1.length) 9 2
          clock := substr (value.drop (cutAt comma value).1.length) 12 8
          named := named
          unbroken := unbroken
          dayPlaces := length_substr (by omega)
          monthPlaces := length_substr (by omega)
          yearPlaces := length_substr (by omega)
          clockPlaces := length_substr (by omega) }, by
        unfold LongDate.text LongDate.tail
        rw [← tail]
        exact parted⟩))

/-! ### What is read -/

/-- The day in two places, the first of which may be another sign. -/
def paddedDay (pad : UInt8) (day : Nat) : Bytes := if day < 10 then pad :: places 10 1 day else places 10 2 day

/-- `Sun, 06 Nov 1994 08:49:37 GMT`. -/
def imfText (v : Int) : Bytes :=
  imfShape (dayNameOf false v) (places 10 2 (dateOf v).day) (monthName (dateOf v).month)
    (places 10 4 (dateOf v).year.toNat) (clockText (clockOf v))

/-- `Sun Nov  6 08:49:37 1994`. -/
def asctimeText (pad : UInt8) (v : Int) : Bytes :=
  asctimeShape (dayNameOf false v) (monthName (dateOf v).month) (paddedDay pad (dateOf v).day) (clockText (clockOf v))
    (places 10 4 (dateOf v).year.toNat)

theorem length_dayNameOf (v : Int) : (dayNameOf false v).length = 3 ∧ 6 ≤ (dayNameOf true v).length := by
  have every : ∀ day < 7, (kDays.getD day []).length = 3 ∧ 6 ≤ (kLongDays.getD day []).length := by decide
  refine every (weekday (v / secondsPerDay)) ?_
  unfold weekday
  omega

theorem length_monthName (v : Int) : (monthName (dateOf v).month).length = 3 := by
  have every : ∀ index < 12, (kMonths.getD index []).length = 3 := by decide
  obtain ⟨⟨low, high⟩, -⟩ := (exists_iff _).mp (dateOf_exists v)
  exact every _ (by omega)

theorem day_lt (v : Int) : 1 ≤ (dateOf v).day ∧ (dateOf v).day < 10 ^ 2 := by
  obtain ⟨-, first, last⟩ := (exists_iff _).mp (dateOf_exists v)
  have short : lastDay (dateOf v).year (dateOf v).month ≤ 31 := by
    unfold lastDay
    split_ifs <;> decide
  omega

theorem paddedDay_zero {n : Nat} (small : n < 10 ^ 2) : paddedDay 0x30 n = places 10 2 n := by
  have every : ∀ m < 10 ^ 2, paddedDay 0x30 m = places 10 2 m := by decide
  exact every n small

theorem length_paddedDay (pad : UInt8) (n : Nat) : (paddedDay pad n).length = 2 := by
  unfold paddedDay
  split
  · rw [List.length_cons, length_places]
  · rw [length_places]

theorem places_no_space {width n : Nat} {rest : Bytes} : places 10 width n ≠ sp :: rest := by
  intro spaced
  have decimal := isDecimal_places width n sp (spaced ▸ List.mem_cons_self)
  exact absurd decimal (by decide)

theorem fewDigits_width {digits : Bytes} {width n : Nat} (size : digits.length = width) (some : 0 < width) :
    fewDigits digits = .some n ↔ digits = places 10 width n ∧ n < 10 ^ width := by
  rw [fewDigits_iff (List.length_pos_iff.mp (size ▸ some)), size]

theorem asctimeDay_iff {day : Bytes} (size : day.length = 2) {n : Nat} :
    asctimeDay day = some n ↔ n < 10 ^ 2 ∧ (day = paddedDay sp n ∨ day = paddedDay 0x30 n) := by
  obtain ⟨a, b, rfl⟩ := List.length_eq_two.mp size
  show fewDigits (if a = sp then [b] else [a, b]) = some n ↔ _
  by_cases space : a = sp
  · subst space
    rw [if_pos rfl, fewDigits_width (show [b].length = 1 from rfl) (by decide)]
    constructor
    · rintro ⟨written, small⟩
      refine ⟨by omega, .inl ?_⟩
      rw [paddedDay, if_pos (by omega), written]
    · rintro ⟨small, spaced | zero⟩
      · unfold paddedDay at spaced
        split at spaced
        case isTrue digit => exact ⟨List.tail_eq_of_cons_eq spaced, by omega⟩
        case isFalse => exact absurd spaced.symm places_no_space
      · rw [paddedDay_zero small] at zero
        exact absurd zero.symm places_no_space
  · rw [if_neg space, fewDigits_width (show [a, b].length = 2 from rfl) (by decide)]
    constructor
    · rintro ⟨written, small⟩
      refine ⟨small, .inr ?_⟩
      rw [paddedDay_zero small, written]
    · rintro ⟨small, spaced | zero⟩
      · unfold paddedDay at spaced
        split at spaced
        case isTrue => exact absurd (List.head_eq_of_cons_eq spaced) space
        case isFalse => exact ⟨spaced, small⟩
      · rw [paddedDay_zero small] at zero
        exact ⟨zero, small⟩

/-- The year written in four digits. -/
theorem year_written {r : Int} {digits : Bytes} (size : digits.length = 4) :
    (∃ writtenYear, fewDigits digits = some writtenYear ∧ some (writtenYear : Int) = some (dateOf r).year)
      ↔ Representable r ∧ digits = places 10 4 (dateOf r).year.toNat := by
  unfold Representable
  constructor
  · rintro ⟨year, written, same⟩
    rw [fewDigits_width size (by decide)] at written
    have same := Option.some.inj same
    rw [← same, Int.toNat_natCast]
    exact ⟨⟨by omega, by omega⟩, written.1⟩
  · rintro ⟨⟨low, high⟩, written⟩
    refine ⟨(dateOf r).year.toNat, ?_, congrArg some (by omega)⟩
    rw [fewDigits_width size (by decide)]
    exact ⟨written, by omega⟩

/-- **A text in the IMF shape is read as an instant just where it is that instant's text.** -/
theorem parse_imf {dayName day month year clock : Bytes} (dayNamePlaces : dayName.length = 3)
    (dayPlaces : day.length = 2) (monthPlaces : month.length = 3) (yearPlaces : year.length = 4)
    (clockPlaces : clock.length = 8) (now r : Int) :
    parseHttpDate (imfShape dayName day month year clock) now = some r ↔
      (Representable r ∧ year = places 10 4 (dateOf r).year.toNat)
        ∧ day = places 10 2 (dateOf r).day ∧ month = monthName (dateOf r).month
        ∧ clock = clockText (clockOf r) ∧ dayName = dayNameOf false r := by
  rw [parseHttpDate_eq, cutDate_imfShape dayNamePlaces dayPlaces monthPlaces yearPlaces clockPlaces, Option.bind_some,
    readFields_iff, ← year_written yearPlaces]
  dsimp only
  rw [fewDigits_width dayPlaces (by decide), and_iff_left (day_lt r).2]
  rfl

theorem parse_asctime {dayName month day clock year : Bytes} (dayNamePlaces : dayName.length = 3)
    (monthPlaces : month.length = 3) (dayPlaces : day.length = 2) (clockPlaces : clock.length = 8)
    (yearPlaces : year.length = 4) (now r : Int) :
    parseHttpDate (asctimeShape dayName month day clock year) now = some r ↔
      (Representable r ∧ year = places 10 4 (dateOf r).year.toNat)
        ∧ (day = paddedDay sp (dateOf r).day ∨ day = paddedDay 0x30 (dateOf r).day)
        ∧ month = monthName (dateOf r).month ∧ clock = clockText (clockOf r) ∧ dayName = dayNameOf false r := by
  rw [parseHttpDate_eq, cutDate_asctimeShape dayNamePlaces monthPlaces dayPlaces clockPlaces yearPlaces,
    Option.bind_some, readFields_iff, ← year_written yearPlaces]
  dsimp only
  rw [asctimeDay_iff dayPlaces, and_iff_right (day_lt r).2]
  rfl

theorem parse_long (long : LongDate) (now r : Int) :
    parseHttpDate long.text now = some r ↔
      (∃ shortYear, (long.year = places 10 2 shortYear ∧ shortYear < 10 ^ 2)
        ∧ longYear shortYear (dateOf r).month (dateOf r).day (clockOf r) now = some (dateOf r).year)
      ∧ long.day = places 10 2 (dateOf r).day ∧ long.month = monthName (dateOf r).month
      ∧ long.clock = clockText (clockOf r) ∧ long.dayName = dayNameOf true r := by
  rw [parseHttpDate_eq, cutDate_long, Option.bind_some, readFields_iff]
  dsimp only [LongDate.fields]
  rw [fewDigits_width long.dayPlaces (by decide), and_iff_left (day_lt r).2]
  simp only [fewDigits_width long.yearPlaces (Nat.succ_pos 1)]
  rfl

/-- **A text that is read is that of the instant in one of the two short formats, or in the long one.** -/
theorem parse_cases {value : Bytes} {now r : Int} (read : parseHttpDate value now = some r) :
    Representable r ∧ value = imfText r
      ∨ Representable r ∧ (value = asctimeText sp r ∨ value = asctimeText 0x30 r)
      ∨ ∃ long : LongDate, value = long.text := by
  obtain ⟨fields, cut, taken⟩ : ∃ fields, cutDate value = some fields ∧ readFields fields now = some r := by
    rw [parseHttpDate_eq] at read
    exact Option.bind_eq_some_iff.mp read
  rcases cutDate_cases cut with imf | asctime | ⟨-, unnamed, longDay⟩ | long
  · obtain ⟨size, whole⟩ := imf_parts imf
    rw [whole, parse_imf (length_substr (by omega)) (length_substr (by omega)) (length_substr (by omega))
      (length_substr (by omega)) (length_substr (by omega))] at read
    obtain ⟨⟨inside, year⟩, day, month, clock, named⟩ := read
    refine .inl ⟨inside, whole.trans ?_⟩
    rw [year, day, month, clock, named]
    rfl
  · obtain ⟨size, whole⟩ := asctime_parts asctime
    rw [whole, parse_asctime (length_substr (by omega)) (length_substr (by omega)) (length_substr (by omega))
      (length_substr (by omega)) (length_substr (by omega))] at read
    obtain ⟨⟨inside, year⟩, day, month, clock, named⟩ := read
    refine .inr (.inl ⟨inside, day.imp (fun day => whole.trans ?_) fun day => whole.trans ?_⟩) <;>
      (rw [year, day, month, clock, named]; rfl)
  · -- No long day has an empty name.
    obtain ⟨-, -, -, -, named⟩ := readFields_iff.mp taken
    have long := (length_dayNameOf r).2
    rw [longDay, unnamed] at named
    rw [← named] at long
    exact absurd long (by decide)
  · exact .inr (.inr long)

theorem formatHttpDate_eq (v : Int) : formatHttpDate v = (calendarDate v).map fun _ => imfText v := by
  unfold formatHttpDate
  cases read : calendarDate v with
  | none => rw [Option.map_none, Option.map_none]
  | some date =>
    obtain ⟨⟨low, high⟩, rfl⟩ := calendarDate_eq_some.mp read
    have clock : (v - daysFromCivil (dateOf v) * secondsPerDay).toNat = clockOf v := by
      rw [daysFromCivil_dateOf, clockOf]
      unfold secondsPerDay
      omega
    have short := clockOf_lt v
    simp only [Option.map_some]
    rw [clock, paddedDecimal_eq (by decide) (day_lt v).2, paddedDecimal_eq (by decide) (by omega : (dateOf v).year.toNat < 10 ^ 4),
      paddedDecimal_eq (by decide) (by omega : clockOf v / 3600 < 10 ^ 2),
      paddedDecimal_eq (by decide) (by omega : clockOf v / 60 % 60 < 10 ^ 2),
      paddedDecimal_eq (by decide) (by omega : clockOf v % 60 < 10 ^ 2), daysFromCivil_dateOf]
    unfold imfText imfShape clockText dayNameOf monthName
    rw [if_neg Bool.false_ne_true]
    simp only [List.append_assoc]

theorem formatHttpDate_eq_some {v : Int} {s : Bytes} : formatHttpDate v = some s ↔ Representable v ∧ s = imfText v := by
  rw [formatHttpDate_eq, Option.map_eq_some_iff]
  constructor
  · rintro ⟨date, read, rfl⟩
    exact ⟨(calendarDate_eq_some.mp read).1, rfl⟩
  · rintro ⟨inside, rfl⟩
    exact ⟨dateOf v, calendarDate_eq_some.mpr ⟨inside, rfl⟩, rfl⟩

section Texts

variable (v : Int)

theorem length_imfText : (imfText v).length = 29 := by
  unfold imfText imfShape
  simp only [List.length_append, length_dayNameOf v, length_monthName, length_places, length_clockText]
  rfl

theorem length_asctimeText (pad : UInt8) : (asctimeText pad v).length = 24 := by
  unfold asctimeText asctimeShape
  simp only [List.length_append, length_dayNameOf v, length_monthName, length_places, length_clockText, length_paddedDay]
  rfl

variable {v} (inside : Representable v) (now : Int)

include inside

theorem parse_imfText : parseHttpDate (imfText v) now = some v :=
  (parse_imf (length_dayNameOf v).1 (length_places _ _ _) (length_monthName v) (length_places _ _ _)
    (length_clockText _) now v).mpr ⟨⟨inside, rfl⟩, rfl, rfl, rfl, rfl⟩

theorem parse_asctimeText {pad : UInt8} (padding : pad = sp ∨ pad = 0x30) :
    parseHttpDate (asctimeText pad v) now = some v := by
  refine (parse_asctime (length_dayNameOf v).1 (length_monthName v) (length_paddedDay _ _) (length_clockText _)
    (length_places _ _ _) now v).mpr ⟨⟨inside, rfl⟩, ?_, rfl, rfl, rfl⟩
  rcases padding with rfl | rfl
  · exact .inl rfl
  · exact .inr rfl

end Texts

/-- **A text that is read in the long format is longer than an asctime date and no IMF date.** -/
theorem length_long {long : LongDate} {now r : Int} (read : parseHttpDate long.text now = some r) :
    30 ≤ long.text.length := by
  obtain ⟨-, -, -, -, named⟩ := (parse_long long now r).mp read
  have size := (length_dayNameOf r).2
  rw [← named] at size
  unfold LongDate.text
  rw [List.length_append, length_tail]
  omega

/-- **Formatting a date and reading the IMF format are inverse to each other**: an instant is formatted just
when it lies in the years 0 to 9999, its text is read back at any time, and a text of that length that is read
is the text of what is read. -/
theorem http_date_round_trip :
    (∀ v : Int, (formatHttpDate v).isSome = true ↔ Representable v)
      ∧ (∀ (v : Int) (s : Bytes), formatHttpDate v = some s → ∀ now, parseHttpDate s now = some v)
      ∧ ∀ (s : Bytes) (now v : Int), s.length = 29 → parseHttpDate s now = some v →
          formatHttpDate v = some s ∧ ∀ other, parseHttpDate s other = some v := by
  refine ⟨fun v => ?_, fun v s formatted now => ?_, fun s now v size read => ?_⟩
  · rw [Option.isSome_iff_exists]
    simp only [formatHttpDate_eq_some, exists_and_left, exists_eq, and_true]
  · obtain ⟨inside, rfl⟩ := formatHttpDate_eq_some.mp formatted
    exact parse_imfText inside now
  · rcases parse_cases read with ⟨inside, rfl⟩ | ⟨-, rfl | rfl⟩ | ⟨long, rfl⟩
    · exact ⟨formatHttpDate_eq_some.mpr ⟨inside, rfl⟩, parse_imfText inside⟩
    · exact absurd ((length_asctimeText v _).symm.trans size) (by decide)
    · exact absurd ((length_asctimeText v _).symm.trans size) (by decide)
    · exact absurd (size ▸ length_long read) (by decide)

/-! ### The year of the long format -/

/-- One date and second is later than another. -/
def Later (date : Date) (clock : Nat) (other : Date) (otherClock : Nat) : Prop :=
  Before other date ∨ date = other ∧ otherClock < clock

theorem laterFields_iff {date other : Date} {clock otherClock : Nat} :
    laterFields date clock other otherClock = true ↔ Later date clock other otherClock := by
  obtain ⟨year, month, day⟩ := date
  obtain ⟨year', month', day'⟩ := other
  unfold laterFields Later Before
  simp only [Bool.or_eq_true, Bool.and_eq_true, decide_eq_true_eq, Date.mk.injEq]
  omega

/-- **The later instant is the one whose fields are later.** -/
theorem lt_iff_later (v w : Int) : v < w ↔ Later (dateOf w) (clockOf w) (dateOf v) (clockOf v) := by
  have order := daysFromCivil_lt_iff (dateOf_exists v) (dateOf_exists w)
  have first := instant_dateOf v
  have second := instant_dateOf w
  have short := clockOf_lt v
  have short' := clockOf_lt w
  unfold instant secondsPerDay at first second
  unfold Later
  rw [← order]
  constructor
  · intro less
    by_cases days : daysFromCivil (dateOf v) < daysFromCivil (dateOf w)
    · exact .inl days
    · have same : daysFromCivil (dateOf w) = daysFromCivil (dateOf v) := by omega
      exact .inr ⟨daysFromCivil_injective (dateOf_exists w) (dateOf_exists v) same, by omega⟩
  · rintro (days | ⟨same, seconds⟩)
    · omega
    · rw [same] at second
      omega

/-- The fields of an instant, fifty years on. The day need not exist. -/
def fiftyYearsOn (now : Int) : Date := { dateOf now with year := (dateOf now).year + 50 }

/-- The year with these last digits in the century of an instant. -/
def centuryYear (now : Int) (shortYear : Nat) : Int := (dateOf now).year / 100 * 100 + shortYear

/-- The date with these last digits of the year in the century of `now` is more than fifty years ahead. -/
def FarAhead (now : Int) (shortYear month day clock : Nat) : Prop :=
  Later { year := centuryYear now shortYear, month := month, day := day } clock (fiftyYearsOn now) (clockOf now)

theorem guarded_iff {found year : Int} : (if found < 0 then none else some found) = some year ↔ 0 ≤ year ∧ year = found := by
  split
  case isTrue negative => exact ⟨nofun, fun ⟨low, same⟩ => absurd low (by omega)⟩
  case isFalse => exact ⟨fun same => ⟨by cases same; omega, (Option.some.inj same).symm⟩, fun ⟨_, same⟩ => congrArg some same.symm⟩

theorem longYear_iff {now : Int} (inside : Representable now) {shortYear month day clock : Nat} {year : Int} :
    longYear shortYear month day clock now = some year ↔
      0 ≤ year ∧ (¬ FarAhead now shortYear month day clock ∧ year = centuryYear now shortYear
        ∨ FarAhead now shortYear month day clock ∧ year = centuryYear now shortYear - 100) := by
  have second : now - daysFromCivil (dateOf now) * secondsPerDay = (clockOf now : Int) := by
    rw [daysFromCivil_dateOf, clockOf]
    unfold secondsPerDay
    omega
  unfold longYear
  rw [calendarDate_eq_some.mpr ⟨inside, rfl⟩, Option.bind_some, second]
  show (let year :=
      if laterFields { year := centuryYear now shortYear, month := month, day := day } clock (fiftyYearsOn now)
          (clockOf now) then
        centuryYear now shortYear - 100
      else centuryYear now shortYear
    if year < 0 then none else some year) = some year ↔ _
  dsimp only
  by_cases far : FarAhead now shortYear month day clock
  · rw [if_pos (laterFields_iff.mpr far), guarded_iff]
    simp only [far, not_true_eq_false, false_and, true_and, false_or]
  · rw [if_neg (mt laterFields_iff.mp far), guarded_iff]
    simp only [far, not_false_eq_true, false_and, true_and, or_false]

theorem centuryYear_mod {now : Int} {shortYear : Nat} (short : shortYear < 100) :
    centuryYear now shortYear % 100 = shortYear ∧ (centuryYear now shortYear - 100) % 100 = shortYear := by
  unfold centuryYear
  omega

/-- **Where the century of `now` is too far ahead, no instant since with those fields has passed.** -/
theorem no_later_instant {now r v : Int} {shortYear : Nat}
    (far : FarAhead now shortYear (dateOf r).month (dateOf r).day (clockOf r))
    (year : (dateOf r).year = centuryYear now shortYear - 100) (later : r < v) (past : v ≤ now)
    (month : (dateOf v).month = (dateOf r).month) (day : (dateOf v).day = (dateOf r).day)
    (clock : clockOf v = clockOf r) : (dateOf v).year % 100 ≠ shortYear := by
  intro digits
  -- A later year with the same digits is at least that of the century of `now`, which is ahead.
  have more : (dateOf r).year < (dateOf v).year := by
    have order := (lt_iff_later r v).mp later
    obtain before | ⟨-, seconds⟩ := order
    · unfold Before at before
      omega
    · omega
  have ahead : now < v := by
    rw [lt_iff_later]
    unfold FarAhead Later Before fiftyYearsOn centuryYear at far
    unfold centuryYear at year
    unfold Later Before
    simp only [Date.mk.injEq] at far
    left
    omega
  omega

/-- What is read of a text in the long format. -/
theorem parse_long_year {now r : Int} (inside : Representable now) {long : LongDate} :
    parseHttpDate long.text now = some r ↔
      0 ≤ (dateOf r).year
      ∧ (∃ shortYear < 100, long.year = places 10 2 shortYear
        ∧ (¬ FarAhead now shortYear (dateOf r).month (dateOf r).day (clockOf r)
              ∧ (dateOf r).year = centuryYear now shortYear
            ∨ FarAhead now shortYear (dateOf r).month (dateOf r).day (clockOf r)
              ∧ (dateOf r).year = centuryYear now shortYear - 100))
      ∧ long.day = places 10 2 (dateOf r).day ∧ long.month = monthName (dateOf r).month
      ∧ long.clock = clockText (clockOf r) ∧ long.dayName = dayNameOf true r := by
  rw [parse_long]
  simp only [longYear_iff inside]
  constructor
  · rintro ⟨⟨shortYear, ⟨digits, short⟩, low, year⟩, rest⟩
    exact ⟨low, ⟨shortYear, short, digits, year⟩, rest⟩
  · rintro ⟨low, ⟨shortYear, short, digits, year⟩, rest⟩
    exact ⟨⟨shortYear, ⟨digits, short⟩, low, year⟩, rest⟩

/-- **The obsolete formats.** In the long one, two digits of the year stand for the year of the current century,
or for the one a century before where that would be more than fifty years ahead; in the asctime format the day is
padded with a space or a zero. -/
theorem obsolete_dates :
    (∀ now : Int, Representable now → ∀ long : LongDate,
      (∀ r, parseHttpDate long.text now = some r →
        ∃ shortYear < 100, long.year = places 10 2 shortYear ∧ (dateOf r).year % 100 = shortYear
          ∧ long.day = places 10 2 (dateOf r).day ∧ long.month = monthName (dateOf r).month
          ∧ long.clock = clockText (clockOf r) ∧ long.dayName = dayNameOf true r
          ∧ ¬ Later (dateOf r) (clockOf r) (fiftyYearsOn now) (clockOf now)
          ∧ (¬ FarAhead now shortYear (dateOf r).month (dateOf r).day (clockOf r) →
              (dateOf r).year = centuryYear now shortYear)
          ∧ (FarAhead now shortYear (dateOf r).month (dateOf r).day (clockOf r) →
              (dateOf r).year = centuryYear now shortYear - 100
                ∧ ∀ v, r < v → v ≤ now → (dateOf v).month = (dateOf r).month → (dateOf v).day = (dateOf r).day →
                    clockOf v = clockOf r → (dateOf v).year % 100 ≠ shortYear))
      ∧ ∀ (shortYear : Nat) (date : Date) (clock : Nat), shortYear < 100 → clock < 86400 →
          (¬ FarAhead now shortYear date.month date.day clock ∧ date.year = centuryYear now shortYear
            ∨ FarAhead now shortYear date.month date.day clock ∧ date.year = centuryYear now shortYear - 100) →
          date.exists = true → 0 ≤ date.year →
          long.year = places 10 2 shortYear → long.day = places 10 2 date.day → long.month = monthName date.month →
          long.clock = clockText clock → long.dayName = kLongDays.getD (weekday (daysFromCivil date)) [] →
          parseHttpDate long.text now = some (instant date clock))
      ∧ (∀ (s : Bytes) (now r : Int), parseHttpDate s now = some r →
          s.length ≠ 29 → s.length ≠ 24 → ∃ long : LongDate, s = long.text)
      ∧ (∀ v, Representable v → ∀ pad, pad = sp ∨ pad = 0x30 → ∀ now, parseHttpDate (asctimeText pad v) now = some v)
      ∧ ∀ (s : Bytes) (now v : Int), s.length = 24 → parseHttpDate s now = some v →
          Representable v ∧ ∃ pad, (pad = sp ∨ pad = 0x30) ∧ s = asctimeText pad v := by
  refine ⟨fun now inside long => ⟨fun r read => ?_, ?_⟩, fun s now r read notImf notAsctime => ?_,
    fun v inside pad padding now => parse_asctimeText inside now padding, fun s now v size read => ?_⟩
  · obtain ⟨-, ⟨shortYear, short, digits, year⟩, day, month, clock, named⟩ := (parse_long_year inside).mp read
    have last : (dateOf r).year % 100 = shortYear := by
      rcases year with ⟨-, year⟩ | ⟨-, year⟩
      · rw [year, (centuryYear_mod short).1]
      · rw [year, (centuryYear_mod short).2]
    refine ⟨shortYear, short, digits, last, day, month, clock, named, ?_, fun near => ?_, fun far => ?_⟩
    · rcases year with ⟨near, year⟩ | ⟨-, year⟩
      · unfold FarAhead at near
        rw [← year] at near
        exact near
      · unfold Later Before fiftyYearsOn
        unfold centuryYear at year
        rintro (before | ⟨same, -⟩)
        · dsimp only at before
          omega
        · have sameYear := congrArg Date.year same
          dsimp only at sameYear
          omega
    · rcases year with ⟨-, year⟩ | ⟨far, -⟩
      · exact year
      · exact absurd far near
    · rcases year with ⟨near, -⟩ | ⟨-, year⟩
      · exact absurd far near
      · exact ⟨year, fun v later past month day clock => no_later_instant far year later past month day clock⟩
  · intro shortYear date clock short second year real low digits day month ticked named
    rw [parse_long_year inside, dateOf_instant real second, clockOf_instant second]
    refine ⟨low, ⟨shortYear, short, digits, year⟩, day, month, ticked, ?_⟩
    unfold dayNameOf
    rw [instant_div second]
    exact named
  · rcases parse_cases read with ⟨-, rfl⟩ | ⟨-, rfl | rfl⟩ | long
    · exact absurd (length_imfText r) notImf
    · exact absurd (length_asctimeText r _) notAsctime
    · exact absurd (length_asctimeText r _) notAsctime
    · exact long
  · rcases parse_cases read with ⟨-, rfl⟩ | ⟨inside, spaced | zero⟩ | ⟨long, rfl⟩
    · exact absurd ((length_imfText v).symm.trans size) (by decide)
    · exact ⟨inside, sp, .inl rfl, spaced⟩
    · exact ⟨inside, 0x30, .inr rfl, zero⟩
    · exact absurd (size ▸ length_long read) (by decide)

end HpServer.Http
