/-
**Numbers written in digits.**

A number is written in ASCII digits, in base ten or up to sixteen; a text of decimal digits has a value.

* `numeral` — a number without leading zeros; `numeral_injective`.
* `places` — a number in a fixed number of places; `padded_eq` — a numeral filled up with zeros.
* `value` — what decimal digits say. **Digits and values determine each other** (`value_places`, `places_value`), and
  so do numerals and values (`value_numeral`, `numeral_value`).
-/

import Mathlib.Tactic

namespace Numerals

/-- The byte of a digit. -/
def digitByte (digit : Nat) : UInt8 := digit.digitChar.toNat.toUInt8

def numeral (base n : Nat) : List UInt8 := (Nat.toDigits base n).map fun c => c.toNat.toUInt8

/-- The last digits of a number, so many. -/
def places (base : Nat) : Nat → Nat → List UInt8
  | 0, _ => []
  | width + 1, n => places base width (n / base) ++ [digitByte (n % base)]

def isDecimal (b : UInt8) : Bool := 0x30 ≤ b && b ≤ 0x39

/-- The value of a digit. -/
def digitValue (b : UInt8) : Nat := (b - 0x30).toNat

/-- The value of decimal digits. -/
def value (digits : List UInt8) : Nat := digits.foldl (fun total b => total * 10 + digitValue b) 0

section Numeral

variable {base n : Nat}

theorem numeral_of_lt (small : n < base) : numeral base n = [digitByte n] := by
  rw [numeral, Nat.toDigits_of_lt_base small]
  rfl

theorem numeral_of_le (large : 1 < base) (more : base ≤ n) :
    numeral base n = numeral base (n / base) ++ [digitByte (n % base)] := by
  rw [numeral, Nat.toDigits_of_base_le large more, List.map_append]
  rfl

theorem numeral_ne_nil : numeral base n ≠ [] := fun empty => Nat.toDigits_ne_nil (List.map_eq_nil_iff.mp empty)

theorem digitByte_injective : ∀ a < 16, ∀ b < 16, digitByte a = digitByte b → a = b := by decide

/-- **Different numbers are written differently.** -/
theorem numeral_injective (large : 1 < base) (small : base ≤ 16) {m : Nat} (same : numeral base n = numeral base m) :
    n = m := by
  induction n using Nat.strong_induction_on generalizing m with
  | _ n ih =>
  have last : ∀ k, k % base < 16 := fun k => (Nat.mod_lt k (by omega)).trans_le small
  by_cases less : n < base
  · by_cases less' : m < base
    · rw [numeral_of_lt less, numeral_of_lt less'] at same
      exact digitByte_injective n (by omega) m (by omega) (List.singleton_inj.mp same)
    · rw [numeral_of_lt less, numeral_of_le large (by omega)] at same
      have sizes := congrArg List.length same
      have some : 0 < (numeral base (m / base)).length := List.length_pos_iff.mpr numeral_ne_nil
      simp only [List.length_append, List.length_singleton] at sizes
      omega
  · by_cases less' : m < base
    · rw [numeral_of_lt less', numeral_of_le large (by omega)] at same
      have sizes := congrArg List.length same
      have some : 0 < (numeral base (n / base)).length := List.length_pos_iff.mpr numeral_ne_nil
      simp only [List.length_append, List.length_singleton] at sizes
      omega
    · rw [numeral_of_le large (by omega), numeral_of_le large (by omega : base ≤ m)] at same
      obtain ⟨front, back⟩ := List.append_inj' same rfl
      have quotient := ih (n / base) (Nat.div_lt_self (by omega) large) front
      have remainder := digitByte_injective _ (last n) _ (last m) (List.singleton_inj.mp back)
      rw [← Nat.div_add_mod n base, ← Nat.div_add_mod m base, quotient, remainder]

/-- A byte of a numeral is the byte of a digit. -/
theorem mem_numeral (large : 1 < base) {b : UInt8} (inside : b ∈ numeral base n) : ∃ digit < base, b = digitByte digit := by
  induction n using Nat.strong_induction_on with
  | _ n ih =>
  by_cases less : n < base
  · rw [numeral_of_lt less] at inside
    exact ⟨n, less, List.mem_singleton.mp inside⟩
  · rw [numeral_of_le large (by omega)] at inside
    rcases List.mem_append.mp inside with front | back
    · exact ih (n / base) (Nat.div_lt_self (by omega) large) front
    · exact ⟨n % base, Nat.mod_lt n (by omega), List.mem_singleton.mp back⟩

end Numeral

/-! ### A fixed number of places -/

@[simp] theorem length_places (base width n : Nat) : (places base width n).length = width := by
  induction width generalizing n with
  | zero => rfl
  | succ width ih => rw [places, List.length_append, ih, List.length_singleton]

theorem places_zero (base width : Nat) : places base width 0 = List.replicate width 0x30 := by
  induction width with
  | zero => rfl
  | succ width ih =>
    rw [places, Nat.zero_div, Nat.zero_mod, ih, List.replicate_succ']
    rfl

/-- **A numeral filled up with zeros.** -/
theorem padded_eq {base : Nat} (large : 1 < base) {width n : Nat} (some : 0 < width) (small : n < base ^ width) :
    List.replicate (width - (numeral base n).length) 0x30 ++ numeral base n = places base width n := by
  induction width generalizing n with
  | zero => exact absurd some (Nat.lt_irrefl 0)
  | succ width ih =>
    by_cases less : n < base
    · rw [numeral_of_lt less, places, Nat.div_eq_of_lt less, Nat.mod_eq_of_lt less, places_zero]
      rfl
    · have next : 0 < width := by
        refine Nat.pos_of_ne_zero fun none => less ?_
        simpa [none] using small
      have quotient : n / base < base ^ width := Nat.div_lt_of_lt_mul (by rwa [Nat.pow_succ'] at small)
      rw [numeral_of_le large (by omega), places, ← ih next quotient, List.length_append, List.length_singleton,
        Nat.add_sub_add_right, List.append_assoc]

/-! ### Values -/

theorem value_append (digits : List UInt8) (b : UInt8) : value (digits ++ [b]) = value digits * 10 + digitValue b := by
  rw [value, List.foldl_append]
  rfl

theorem digitValue_digitByte : ∀ digit < 10, digitValue (digitByte digit) = digit := by decide

theorem isDecimal_digitByte : ∀ digit < 10, isDecimal (digitByte digit) = true := by decide

theorem digitByte_digitValue {b : UInt8} (decimal : isDecimal b = true) :
    digitValue b < 10 ∧ digitByte (digitValue b) = b := by
  have each : ∀ n : Fin 256, isDecimal (UInt8.ofFin n) = true →
      digitValue (UInt8.ofFin n) < 10 ∧ digitByte (digitValue (UInt8.ofFin n)) = UInt8.ofFin n := by decide +kernel
  exact each b.toFin decimal

theorem isDecimal_places (width n : Nat) : ∀ b ∈ places 10 width n, isDecimal b = true := by
  induction width generalizing n with
  | zero => exact fun b none => nomatch none
  | succ width ih =>
    intro b inside
    rcases List.mem_append.mp inside with front | back
    · exact ih _ b front
    · rw [List.mem_singleton.mp back]
      exact isDecimal_digitByte _ (Nat.mod_lt n (by decide))

/-- **The digits of a number have its value.** -/
theorem value_places {width n : Nat} (small : n < 10 ^ width) : value (places 10 width n) = n := by
  induction width generalizing n with
  | zero =>
    rw [Nat.pow_zero] at small
    rw [Nat.lt_one_iff.mp small]
    rfl
  | succ width ih =>
    rw [places, value_append, ih (Nat.div_lt_of_lt_mul (by rwa [Nat.pow_succ'] at small)),
      digitValue_digitByte _ (Nat.mod_lt n (by decide))]
    omega

/-- **Decimal digits are the digits of their value.** -/
theorem places_value (digits : List UInt8) (decimal : ∀ b ∈ digits, isDecimal b = true) :
    places 10 digits.length (value digits) = digits ∧ value digits < 10 ^ digits.length := by
  induction digits using List.reverseRecOn with
  | nil => exact ⟨rfl, Nat.one_pos⟩
  | append_singleton digits b ih =>
    obtain ⟨same, small⟩ := ih fun c inside => decimal c (List.mem_append_left _ inside)
    obtain ⟨less, back⟩ := digitByte_digitValue (decimal b (by simp))
    rw [value_append, List.length_append, List.length_singleton, places,
      show (value digits * 10 + digitValue b) / 10 = value digits by omega,
      show (value digits * 10 + digitValue b) % 10 = digitValue b by omega, same, back, Nat.pow_succ]
    exact ⟨rfl, by omega⟩

theorem value_numeral (n : Nat) : value (numeral 10 n) = n := by
  induction n using Nat.strong_induction_on with
  | _ n ih =>
  by_cases less : n < 10
  · rw [numeral_of_lt less]
    exact (Nat.zero_add _).trans (digitValue_digitByte n less)
  · rw [numeral_of_le (by decide) (by omega), value_append, ih (n / 10) (by omega),
      digitValue_digitByte _ (Nat.mod_lt n (by decide))]
    omega

theorem numeral_leading {n : Nat} (positive : 0 < n) : (numeral 10 n).head? ≠ some 0x30 := by
  induction n using Nat.strong_induction_on with
  | _ n ih =>
  by_cases less : n < 10
  · rw [numeral_of_lt less]
    intro zero
    have digit := digitValue_digitByte n less
    rw [Option.some.inj zero] at digit
    exact absurd digit.symm (Nat.ne_of_gt positive)
  · rw [numeral_of_le (by decide) (by omega), List.head?_append_of_ne_nil _ numeral_ne_nil]
    exact ih (n / 10) (by omega) (by omega)

/-- **Digits without a leading zero are the numeral of their value.** -/
theorem numeral_value (digits : List UInt8) (some : digits ≠ []) (decimal : ∀ b ∈ digits, isDecimal b = true)
    (leading : digits.head? ≠ Option.some 0x30) : numeral 10 (value digits) = digits ∧ 0 < value digits := by
  induction digits using List.reverseRecOn with
  | nil => exact absurd rfl some
  | append_singleton digits b ih =>
    obtain ⟨less, back⟩ := digitByte_digitValue (decimal b (by simp))
    rw [value_append]
    by_cases empty : digits = []
    · subst empty
      have value : value [] * 10 + digitValue b = digitValue b := Nat.zero_add _
      rw [value, numeral_of_lt less, back]
      refine ⟨rfl, Nat.pos_of_ne_zero fun zero => leading ?_⟩
      rw [← back, zero]
      rfl
    · rw [List.head?_append_of_ne_nil _ empty] at leading
      obtain ⟨same, positive⟩ := ih empty (fun c inside => decimal c (List.mem_append_left _ inside)) leading
      rw [numeral_of_le (by decide) (by omega), show (value digits * 10 + digitValue b) / 10 = value digits by omega,
        show (value digits * 10 + digitValue b) % 10 = digitValue b by omega, same, back]
      exact ⟨rfl, by omega⟩

end Numerals
