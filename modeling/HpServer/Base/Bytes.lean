/-
**Bytes, counted scans and slices.**

The vocabulary the HTTP modules share. A `std::string`, a `std::string_view` and a
`std::span<const std::byte>` are byte lists; `text` writes an ASCII literal.

* `Counted` — a value with the number of bytes visited on the way to it. `value` of a composed
  computation is the composed value (`bind_value`), whatever was counted.
* `scanAll`, `scanEqual` — loops that stop at the first byte that fails and count what they visit.
* `slice` — the bytes `[start, start + count)` of an array that is written one cell at a time
  (`slice_update_last`, `slice_update_of_le`).
-/

import Mathlib.Data.List.DropRight
import Mathlib.Data.List.Infix
import Mathlib.Logic.Function.Basic
import Mathlib.Tactic

namespace HpServer

abbrev Bytes := List UInt8

/-- An ASCII literal as bytes. -/
def text (literal : String) : Bytes := literal.toList.map fun c => c.toNat.toUInt8

abbrev nul : UInt8 := 0x00
abbrev htab : UInt8 := 0x09
abbrev lf : UInt8 := 0x0a
abbrev cr : UInt8 := 0x0d
abbrev sp : UInt8 := 0x20
abbrev quote : UInt8 := 0x22
abbrev hash : UInt8 := 0x23
abbrev comma : UInt8 := 0x2c
abbrev slash : UInt8 := 0x2f
abbrev colon : UInt8 := 0x3a
abbrev semicolon : UInt8 := 0x3b
abbrev equals : UInt8 := 0x3d
abbrev backslash : UInt8 := 0x5c
abbrev del : UInt8 := 0x7f

abbrev crlf : Bytes := [cr, lf]

/-- Space or horizontal tab. -/
def isOws (c : UInt8) : Bool := c = sp || c = htab

def isDigit (c : UInt8) : Bool := 0x30 ≤ c && c ≤ 0x39

/-- A view without the spaces and tabs at its ends. -/
def trimOws (value : Bytes) : Bytes := (value.dropWhile isOws).rdropWhile isOws

/-- A text up to the first separator, and what is behind the separator. -/
def cutAt (separator : UInt8) (value : Bytes) : Bytes × Bytes :=
  (value.takeWhile (· ≠ separator), (value.dropWhile (· ≠ separator)).drop 1)

/-- A text is cut at its first separator, or has none. -/
theorem cutAt_cases (separator : UInt8) (value : Bytes) :
    separator ∉ (cutAt separator value).1
      ∧ (value = (cutAt separator value).1 ∧ (cutAt separator value).2 = []
        ∨ value = (cutAt separator value).1 ++ separator :: (cutAt separator value).2) := by
  refine ⟨fun inside => by simpa using List.mem_takeWhile_imp inside, ?_⟩
  have whole : (cutAt separator value).1 ++ value.dropWhile (· ≠ separator) = value := List.takeWhile_append_dropWhile
  cases rest : value.dropWhile (· ≠ separator) with
  | nil =>
    rw [rest, List.append_nil] at whole
    exact .inl ⟨whole.symm, by rw [cutAt, rest, List.drop_nil]⟩
  | cons b tail =>
    have found : b = separator := by
      have stops := List.head?_dropWhile_not (fun c => decide (c ≠ separator)) value
      rw [rest] at stops
      simpa using stops
    refine .inr ?_
    rw [rest, found] at whole
    rw [cutAt, rest, List.drop_one, List.tail_cons]
    exact whole.symm

theorem cutAt_append {separator : UInt8} {first rest : Bytes} (absent : separator ∉ first) :
    cutAt separator (first ++ separator :: rest) = (first, rest) := by
  have passes : ∀ b ∈ first, decide (b ≠ separator) = true := by
    intro b inside
    exact decide_eq_true fun same => absent (same ▸ inside)
  unfold cutAt
  rw [List.takeWhile_append_of_pos passes, List.dropWhile_append_of_pos passes]
  simp

theorem cutAt_absent {separator : UInt8} {value : Bytes} (absent : separator ∉ value) :
    cutAt separator value = (value, []) := by
  obtain ⟨-, ⟨whole, rest⟩ | whole⟩ := cutAt_cases separator value
  · exact Prod.ext whole.symm rest
  · exact absurd (whole ▸ List.mem_append_right _ List.mem_cons_self) absent

/-- A check of every byte value. -/
theorem forall_uint8 {P : UInt8 → Prop} (each : ∀ n : Fin 256, P (UInt8.ofFin n))
    (c : UInt8) : P c := by
  have value := each c.toFin
  simpa using value

theorem mem_intercalate {s b : UInt8} {pieces : List Bytes} (inside : b ∈ [s].intercalate pieces) :
    b = s ∨ ∃ piece ∈ pieces, b ∈ piece := by
  induction pieces with
  | nil => cases inside
  | cons piece pieces ih =>
    cases pieces with
    | nil =>
      rw [List.intercalate_singleton] at inside
      exact .inr ⟨piece, List.mem_cons_self, inside⟩
    | cons next pieces =>
      rw [List.intercalate_cons_cons, List.append_assoc, List.singleton_append] at inside
      rcases List.mem_append.mp inside with here | inside
      · exact .inr ⟨piece, List.mem_cons_self, here⟩
      · rcases List.mem_cons.mp inside with same | inside
        · exact .inl same
        · refine (ih inside).imp_right ?_
          rintro ⟨found, member, there⟩
          exact ⟨found, List.mem_cons_of_mem _ member, there⟩

/-- `std::to_string`. -/
def decimalText (n : Nat) : Bytes := text (toString n)

theorem decimalText_eq (n : Nat) : decimalText n = (Nat.toDigits 10 n).map fun c => c.toNat.toUInt8 := by
  rw [decimalText, text, Nat.toString_eq_ofList_toDigits, String.toList_ofList]

/-- A number is written in digits. -/
theorem decimalText_digit {n : Nat} {b : UInt8} (member : b ∈ decimalText n) : 0x30 ≤ b ∧ b ≤ 0x39 := by
  rw [decimalText_eq] at member
  obtain ⟨c, inside, rfl⟩ := List.mem_map.mp member
  have digit := Nat.isDigit_of_mem_toDigits (by decide) (by decide) inside
  obtain ⟨above, below⟩ : 48 ≤ c.toNat ∧ c.toNat ≤ 57 := Char.isDigit_iff_toNat.mp digit
  rw [UInt8.le_iff_toNat_le, UInt8.le_iff_toNat_le, Nat.toUInt8, UInt8.toNat_ofNat']
  show 48 ≤ _ ∧ _ ≤ 57
  omega

theorem decimalText_length {n digits : Nat} (some : 0 < digits) (small : n < 10 ^ digits) :
    (decimalText n).length ≤ digits := by
  rw [decimalText_eq, List.length_map]
  exact (Nat.length_toDigits_le_iff (by decide) some).mpr small

/-! ### Counted computations -/

/-- A value, and the number of bytes visited on the way to it. -/
structure Counted (α : Type) where
  value : α
  steps : Nat

namespace Counted

variable {α β : Type}

instance : Monad Counted where
  pure value := ⟨value, 0⟩
  bind first next := ⟨(next first.value).value, first.steps + (next first.value).steps⟩

/-- Count some bytes. -/
def tick (steps : Nat) : Counted Unit := ⟨(), steps⟩

@[simp] theorem pure_value (value : α) : (pure value : Counted α).value = value := rfl

@[simp] theorem bind_value (first : Counted α) (next : α → Counted β) :
    (first >>= next).value = (next first.value).value := rfl

@[simp] theorem ite_value (condition : Prop) [Decidable condition] (yes no : Counted α) :
    (if condition then yes else no).value = if condition then yes.value else no.value := by
  split <;> rfl

/-- A computation of at most `n` steps. -/
def AtMost (x : Counted α) (n : Nat) : Prop := x.steps ≤ n

theorem atMost_pure (value : α) (n : Nat) : AtMost (pure value) n := Nat.zero_le n

theorem atMost_tick (n : Nat) : AtMost (tick n) n := Nat.le_refl n

theorem AtMost.mono {x : Counted α} {m n : Nat} (short : x.AtMost m) (le : m ≤ n) : x.AtMost n := Nat.le_trans short le

theorem AtMost.bind {first : Counted α} {next : α → Counted β} {m n : Nat} (short : first.AtMost m)
    (later : (next first.value).AtMost n) : (first >>= next).AtMost (m + n) :=
  Nat.add_le_add short later

theorem AtMost.ite {condition : Prop} [Decidable condition] {yes no : Counted α} {n : Nat} (first : yes.AtMost n)
    (second : no.AtMost n) : (if condition then yes else no).AtMost n := by
  split
  · exact first
  · exact second

end Counted

/-- A loop that stops at the first byte that fails the test. -/
def scanAll (test : UInt8 → Bool) : Bytes → Counted Bool
  | [] => pure true
  | c :: rest => do
    Counted.tick 1
    if test c then scanAll test rest else pure false

/-- A loop over two byte strings of one length that stops at the first difference. The left byte
goes through `fold` first. -/
def scanEqual (fold : UInt8 → UInt8) : Bytes → Bytes → Counted Bool
  | c :: value, e :: expected => do
    Counted.tick 1
    if fold c = e then scanEqual fold value expected else pure false
  | _, _ => pure true

@[simp] theorem scanAll_value (test : UInt8 → Bool) (bytes : Bytes) :
    (scanAll test bytes).value = bytes.all test := by
  induction bytes with
  | nil => rfl
  | cons c rest ih =>
    by_cases passes : test c = true
    · simp [scanAll, passes, ih]
    · simp [scanAll, passes]

theorem scanEqual_value (fold : UInt8 → UInt8) (value expected : Bytes)
    (sameLength : value.length = expected.length) :
    (scanEqual fold value expected).value = decide (value.map fold = expected) := by
  induction value generalizing expected with
  | nil =>
    cases expected with
    | nil => rfl
    | cons e rest => cases sameLength
  | cons c value ih =>
    cases expected with
    | nil => cases sameLength
    | cons e expected =>
      have tail := ih expected (by simpa using sameLength)
      by_cases same : fold c = e
      · simp [scanEqual, same, tail]
      · simp [scanEqual, same]

/-- A loop looks at each byte once at most. -/
theorem scanAll_atMost (test : UInt8 → Bool) (bytes : Bytes) : (scanAll test bytes).AtMost bytes.length := by
  induction bytes with
  | nil => exact Counted.atMost_pure _ _
  | cons c rest ih =>
    rw [List.length_cons, Nat.add_comm]
    exact (Counted.atMost_tick 1).bind (.ite ih (Counted.atMost_pure _ _))

theorem scanEqual_atMost (fold : UInt8 → UInt8) (value : Bytes) :
    ∀ expected, (scanEqual fold value expected).AtMost value.length := by
  induction value with
  | nil => exact fun _ => Counted.atMost_pure _ _
  | cons c value ih =>
    intro expected
    cases expected with
    | nil => exact Counted.atMost_pure _ _
    | cons e expected =>
      rw [List.length_cons, Nat.add_comm]
      exact (Counted.atMost_tick 1).bind (.ite (ih expected) (Counted.atMost_pure _ _))

/-! ### Slices of an array -/

/-- The bytes `[start, start + count)` of an array. -/
def slice (storage : Nat → UInt8) (start count : Nat) : Bytes :=
  (List.range count).map fun i => storage (start + i)

@[simp] theorem slice_length (storage : Nat → UInt8) (start count : Nat) :
    (slice storage start count).length = count := by
  simp [slice]

@[simp] theorem slice_zero (storage : Nat → UInt8) (start : Nat) : slice storage start 0 = [] := rfl

/-- Two arrays that agree on a range have the same slice of it. -/
theorem slice_congr {storage other : Nat → UInt8} {start count : Nat}
    (agree : ∀ i, start ≤ i → i < start + count → storage i = other i) :
    slice storage start count = slice other start count := by
  refine List.map_congr_left fun i member => ?_
  have below := List.mem_range.mp member
  exact agree (start + i) (by omega) (by omega)

/-- A part of a slice. -/
theorem slice_part (storage : Nat → UInt8) (size : Nat) {start count : Nat} (inside : start + count ≤ size) :
    slice storage start count = ((slice storage 0 size).drop start).take count := by
  refine List.ext_getElem (by simp; omega) fun i below _ => ?_
  simp [slice]

/-- **Writing the next cell appends one byte to the slice.** -/
theorem slice_update_last (storage : Nat → UInt8) (start count : Nat) (c : UInt8) :
    slice (Function.update storage (start + count) c) start (count + 1)
      = slice storage start count ++ [c] := by
  have old : slice (Function.update storage (start + count) c) start count
      = slice storage start count :=
    slice_congr fun i _ below => Function.update_of_ne (by omega) _ _
  rw [slice, List.range_succ, List.map_append, ← slice, old]
  simp

/-- Writing at or past the end of a slice leaves it unchanged. -/
theorem slice_update_of_le {storage : Nat → UInt8} {start count position : Nat} (c : UInt8)
    (past : start + count ≤ position) :
    slice (Function.update storage position c) start count = slice storage start count :=
  slice_congr fun i _ below => Function.update_of_ne (by omega) _ _

end HpServer
