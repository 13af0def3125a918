/-
**Reading an object that was written.**

* `Names`, `Spells` — a text that is scanned as a name, and one that is scanned as a scalar in front of what can follow a
  member; `names_of_carries`, `spells_numeral` — quoted texts and decimals.
* `Carries` — a piece of a quoted text and what it stands for.
* `events_object` — **an object of names and scalars is read as it was written.**
* `latin` — a text of code points below 256, one byte for each; `latin_encode` — **it gives back the bytes encoded.**
-/

import HpServer.Library.Json
import HpServer.Library.Numerals

namespace Json

/-! ### Tokens -/

theorem scan_cons {b : UInt8} (text : isSpace b = false) (rest : Octets) : scan (b :: rest) = scanAt b rest := by
  unfold scan
  rw [List.dropWhile_cons, text]
  rfl

/-- A text that is scanned as a string. -/
def Names (name key : Octets) : Prop := ∀ rest, scan (name ++ rest) = (.scalar (.string key), rest)

/-- What may follow a member. -/
def Ends (rest : Octets) : Prop := rest.head? = some (ascii ',') ∨ rest.head? = some 0x7d

/-- A text that is scanned as a scalar in front of another member or the end. -/
def Spells (text : Octets) (event : Event) : Prop := ∀ rest, Ends rest → scan (text ++ rest) = (.scalar event, rest)

theorem Names.spells {name key : Octets} (names : Names name key) : Spells name (.string key) := fun rest _ => names rest

theorem spells_true : Spells (literal "true") (.boolean true) := by
  rintro rest -
  rw [show literal "true" ++ rest = ascii 't' :: (literal "rue" ++ rest) from rfl, scan_cons (by decide)]
  show scanLiteral (literal "rue") (.boolean true) (literal "rue" ++ rest) = _
  unfold scanLiteral
  rw [if_pos (List.isPrefixOf_iff_prefix.mpr (List.prefix_append _ _)), List.drop_left]

theorem spells_false : Spells (literal "false") (.boolean false) := by
  rintro rest -
  rw [show literal "false" ++ rest = ascii 'f' :: (literal "alse" ++ rest) from rfl, scan_cons (by decide)]
  show scanLiteral (literal "alse") (.boolean false) (literal "alse" ++ rest) = _
  unfold scanLiteral
  rw [if_pos (List.isPrefixOf_iff_prefix.mpr (List.prefix_append _ _)), List.drop_left]

/-! ### Strings -/

/-- **A piece of a quoted text that stands for some bytes.** -/
def Carries (piece decoded : Octets) : Prop :=
  ∀ before tail, scanString (.plain []) before (piece ++ tail) = scanString (.plain []) (before ++ decoded) tail

theorem carries_flatMap {α : Type} {write : α → Octets} {read : α → Octets} (each : ∀ a, Carries (write a) (read a))
    (pieces : List α) : Carries (pieces.flatMap write) (pieces.flatMap read) := by
  induction pieces with
  | nil =>
    intro before tail
    rw [List.flatMap_nil, List.flatMap_nil, List.append_nil, List.nil_append]
  | cons a pieces ih =>
    intro before tail
    rw [List.flatMap_cons, List.flatMap_cons, List.append_assoc, each a, ih, List.append_assoc]

theorem scanString_step {mode next : StringMode} {b : UInt8} {added : Octets} (inside : mode ≠ .plain [] ∨ b ≠ quote)
    (taken : mode.step b = some (next, added)) (before tail : Octets) :
    scanString mode before (b :: tail) = scanString next (before ++ added) tail := by
  rw [scanString, if_neg fun closed => inside.elim (fun other => other closed.1) fun other => other closed.2, taken]

theorem carries_plain {b : UInt8} (text : 0x20 ≤ b) (ascii : b < 0x80) (noQuote : b ≠ quote) (noEscape : b ≠ backslash) :
    Carries [b] [b] := by
  intro before tail
  have printable : ¬ b < 0x20 := UInt8.not_lt.mpr text
  refine scanString_step (.inr noQuote) ?_ before tail
  simp only [StringMode.step, noEscape, printable, Utf8.lead, ascii, if_true, if_false, Option.map_some]

theorem carries_escaped {b c : UInt8} (noUnit : b ≠ ascii 'u') (read : escaped b = some c) :
    Carries [backslash, b] [c] := by
  intro before tail
  have second : StringMode.escape.step b = some (.plain [], [c]) := by
    simp only [StringMode.step, noUnit, read, if_false, Option.map_some]
  rw [List.cons_append, scanString_step (.inr (by decide)) rfl, List.singleton_append,
    scanString_step (.inl (by decide)) second, List.append_nil]

/-- A code unit below 256 in two digits. -/
theorem carries_unit {high low : UInt8} {a b : Nat} (first : hexValue high = some a) (second : hexValue low = some b)
    (small : a * 16 + b < 256) : Carries (backslash :: (literal "u00" ++ [high, low])) (Utf8.encode (a * 16 + b)) := by
  intro before tail
  have zeros : (StringMode.unit none 0 0).step (ascii '0') = some (.unit none 1 0, [])
      ∧ (StringMode.unit none 1 0).step (ascii '0') = some (.unit none 2 0, []) := by decide
  have third : (StringMode.unit none 2 0).step high = some (.unit none 3 a, []) := by
    simp [StringMode.step, first]
  have fourth : (StringMode.unit none 3 a).step low = some (.plain [], Utf8.encode (a * 16 + b)) := by
    simp only [StringMode.step, second, StringMode.finish]
    rw [if_neg (by decide), if_neg (by omega), if_neg (by omega)]
  show scanString (.plain []) before (backslash :: ascii 'u' :: ascii '0' :: ascii '0' :: high :: low :: tail) = _
  rw [scanString_step (.inr (by decide)) rfl, scanString_step (.inl (by decide)) rfl,
    scanString_step (.inl (by decide)) zeros.1, scanString_step (.inl (by decide)) zeros.2,
    scanString_step (.inl (by simp)) third, scanString_step (.inl (by simp)) fourth]
  simp only [List.append_nil]

/-- **A quoted text.** -/
theorem names_of_carries {raw key : Octets} (carries : Carries raw key) : Names (quote :: raw ++ [quote]) key := by
  intro rest
  rw [List.cons_append, List.cons_append, scan_cons (by decide)]
  show stringToken (raw ++ [quote] ++ rest) = _
  unfold stringToken
  rw [List.append_assoc, carries, List.nil_append, List.singleton_append, scanString, if_pos ⟨rfl, rfl⟩]

/-! ### Decimals -/

theorem Ends.stops {rest : Octets} (ends : Ends rest) {state : NumberState} (accepts : state.accepts = true)
    (lexeme : Octets) : scanNumber state lexeme rest = some (lexeme, rest) := by
  cases rest with
  | nil => rcases ends with other | other <;> cases other
  | cons b rest =>
    have stop : state.next b = none := by
      rcases ends with same | same <;> cases same <;> cases state <;> rfl
    rw [scanNumber]
    simp only [stop, accepts, if_true]

theorem scanNumber_digits {digits rest : Octets} (decimal : ∀ b ∈ digits, isDigit b = true) (ends : Ends rest) :
    ∀ lexeme, scanNumber .whole lexeme (digits ++ rest) = some (lexeme ++ digits, rest) := by
  induction digits with
  | nil =>
    intro lexeme
    rw [List.nil_append, List.append_nil]
    exact ends.stops rfl lexeme
  | cons b digits ih =>
    intro lexeme
    obtain ⟨digit, others⟩ := List.forall_mem_cons.mp decimal
    have next : NumberState.whole.next b = some .whole := if_pos digit
    rw [List.cons_append, scanNumber]
    simp only [next]
    rw [ih others, List.append_cons lexeme b digits]

open Numerals

theorem isDigit_digitByte : ∀ digit < 10, isDigit (digitByte digit) = true := by decide

theorem isDigit_numeral (n : Nat) : ∀ b ∈ numeral 10 n, isDigit b = true := by
  intro b inside
  obtain ⟨digit, small, rfl⟩ := mem_numeral (by decide) inside
  exact isDigit_digitByte digit small

/-- A numeral is `0`, or starts with another digit. -/
theorem numeral_cases (n : Nat) : numeral 10 n = [ascii '0'] ∨ ∃ digit digits, 0 < digit ∧ digit < 10
    ∧ numeral 10 n = digitByte digit :: digits ∧ ∀ b ∈ digits, isDigit b = true := by
  rcases Nat.eq_zero_or_pos n with rfl | positive
  · exact .inl rfl
  · have leading := numeral_leading positive
    have decimal := isDigit_numeral n
    cases shape : numeral 10 n with
    | nil => exact absurd shape numeral_ne_nil
    | cons b digits =>
      rw [shape] at leading decimal
      obtain ⟨digit, small, rfl⟩ := mem_numeral (by decide) (shape ▸ List.mem_cons_self : b ∈ numeral 10 n)
      refine .inr ⟨digit, digits, Nat.pos_of_ne_zero fun zero => leading ?_, small, rfl,
        fun c inside => decimal c (List.mem_cons_of_mem _ inside)⟩
      rw [zero]
      rfl

theorem scanAt_digit (rest : Octets) : ∀ digit < 10, 0 < digit →
    isSpace (digitByte digit) = false ∧ scanAt (digitByte digit) rest = numberToken .whole (digitByte digit) rest := by
  intro digit small positive
  interval_cases digit <;> exact ⟨by decide, rfl⟩

theorem spells_numeral (n : Nat) : Spells (numeral 10 n) (.number (numeral 10 n)) := by
  intro rest ends
  rcases numeral_cases n with zero | ⟨digit, digits, positive, small, shape, decimal⟩
  · rw [zero, List.singleton_append, scan_cons (by decide)]
    show numberToken .zero (ascii '0') rest = _
    unfold numberToken
    rw [ends.stops rfl]
  · obtain ⟨text, whole⟩ := scanAt_digit (digits ++ rest) digit small positive
    rw [shape, List.cons_append, scan_cons text, whole]
    unfold numberToken
    rw [scanNumber_digits decimal ends]
    rfl

theorem spells_negative (n : Nat) : Spells (ascii '-' :: numeral 10 n) (.number (ascii '-' :: numeral 10 n)) := by
  intro rest ends
  rw [List.cons_append, scan_cons (by decide)]
  show numberToken .minus (ascii '-') (numeral 10 n ++ rest) = _
  unfold numberToken
  rcases numeral_cases n with zero | ⟨digit, digits, positive, small, shape, decimal⟩
  · rw [zero, List.singleton_append, scanNumber]
    have next : NumberState.minus.next (ascii '0') = some .zero := by decide
    simp only [next]
    rw [ends.stops rfl]
    rfl
  · have next : NumberState.minus.next (digitByte digit) = some .whole := by interval_cases digit <;> rfl
    rw [shape, List.cons_append, scanNumber]
    simp only [next]
    rw [scanNumber_digits decimal ends]
    rfl

/-! ### Objects -/

/-- A member as it is written and as it is reported. -/
structure Member where
  name : Octets
  key : Octets
  text : Octets
  event : Event

namespace Member

def write (m : Member) : Octets := m.name ++ ascii ':' :: m.text

structure Sound (m : Member) : Prop where
  names : Names m.name m.key
  spells : Spells m.text m.event

def events (m : Member) : List Event := [.key m.key, m.event]

end Member

/-- The members behind the first. -/
def followers (members : List Member) : Octets := members.flatMap fun m => ascii ',' :: m.write

theorem object_cons (m : Member) (members : List Member) :
    object ((m :: members).map fun m => (m.name, m.text)) = 0x7b :: (m.write ++ followers members ++ [0x7d]) := by
  have joined : ∀ (first : Member) (others : List Member),
      [ascii ','].intercalate ((first :: others).map Member.write) = first.write ++ followers others := by
    intro first others
    induction others generalizing first with
    | nil => simp [followers]
    | cons next others ih =>
      rw [List.map_cons, List.map_cons, List.intercalate_cons_cons, ← List.map_cons, ih]
      simp [followers]
  unfold object
  rw [List.map_map, show (fun m : Octets × Octets => m.1 ++ ascii ':' :: m.2) ∘ (fun m : Member => (m.name, m.text))
    = Member.write from rfl, joined]
  rfl

theorem ends_followers (members : List Member) : Ends (followers members ++ [0x7d]) := by
  cases members with
  | nil => exact .inr rfl
  | cons m members => exact .inl rfl

/-- A member whose name comes next. -/
theorem keyed_member {m : Member} (sound : m.Sound) {rest : Octets} (ends : Ends rest) (fuel : Nat) :
    keyed (fun token rest => read (fuel + 1) [false] (.value token) rest) (scan (m.write ++ rest))
      = m.events ++ read fuel [false] .evaluate rest := by
  have colon : scan (ascii ':' :: (m.text ++ rest)) = (.colon, m.text ++ rest) := scan_cons (by decide) _
  rw [Member.write, List.append_assoc, List.cons_append, sound.names]
  unfold keyed
  simp only [colon, sound.spells rest ends]
  rfl

theorem read_followers {members : List Member} (sound : ∀ m ∈ members, m.Sound) :
    ∀ fuel, 2 * members.length + 2 ≤ fuel →
      read fuel [false] .evaluate (followers members ++ [0x7d]) = members.flatMap Member.events ++ [.endObject] := by
  induction members with
  | nil =>
    intro fuel enough
    obtain ⟨rest, rfl⟩ : ∃ rest, fuel = rest + 2 := ⟨fuel - 2, by simp at enough; omega⟩
    rfl
  | cons m members ih =>
    intro fuel enough
    obtain ⟨here, others⟩ := List.forall_mem_cons.mp sound
    obtain ⟨rest, rfl⟩ : ∃ rest, fuel = rest + 2 := ⟨fuel - 2, by simp at enough; omega⟩
    have comma : scan (followers (m :: members) ++ [0x7d]) = (.comma, m.write ++ (followers members ++ [0x7d])) := by
      rw [followers, List.flatMap_cons, List.append_assoc, List.cons_append, scan_cons (by decide)]
      rfl
    unfold read
    simp only [comma]
    rw [keyed_member here (ends_followers members), ih others rest (by simp at enough; omega), List.flatMap_cons,
      List.append_assoc]

theorem read_object {fuel : Nat} {states : List Bool} {input after : Octets} {e : Event}
    (first : scan input = (.scalar e, after)) :
    read (fuel + 1) states (.value .beginObject) input
      = .startObject :: keyed (fun token rest => read fuel (false :: states) (.value token) rest) (.scalar e, after) := by
  rw [read]
  simp only [first]

/-- **An object of names and scalars is read as it was written.** -/
theorem events_object {members : List Member} (some : members ≠ []) (sound : ∀ m ∈ members, m.Sound) :
    events (object (members.map fun m => (m.name, m.text)))
      = .startObject :: members.flatMap Member.events ++ [.endObject] := by
  cases members with
  | nil => exact absurd rfl some
  | cons m members =>
    obtain ⟨here, others⟩ := List.forall_mem_cons.mp sound
    let rest := followers members ++ [0x7d]
    have first : scan (m.write ++ rest) = (.scalar (.string m.key), ascii ':' :: (m.text ++ rest)) := by
      rw [Member.write, List.append_assoc, List.cons_append, here.names]
    have size : 2 * members.length ≤ (followers members).length := by
      clear some sound here others first rest
      induction members with
      | nil => exact Nat.zero_le _
      | cons m members ih =>
        simp only [followers, List.flatMap_cons, List.length_append, List.length_cons, Member.write] at ih ⊢
        omega
    have opened : scan (0x7b :: (m.write ++ rest)) = (.beginObject, m.write ++ rest) := scan_cons (by decide) _
    obtain ⟨fuel, enough, turns⟩ : ∃ fuel, 2 * members.length + 2 ≤ fuel
        ∧ (0x7b :: (m.write ++ rest)).length + 2 = fuel + 2 := by
      refine ⟨_, ?_, rfl⟩
      simp only [rest, List.length_cons, List.length_append, Member.write]
      omega
    rw [object_cons, List.append_assoc]
    have start : events (0x7b :: (m.write ++ rest)) = read ((0x7b :: (m.write ++ rest)).length + 2) []
        (.value (scan (0x7b :: (m.write ++ rest))).1) (scan (0x7b :: (m.write ++ rest))).2 := rfl
    rw [start, opened, turns, read_object first, ← first, keyed_member here (ends_followers members), read_followers others fuel enough,
      List.flatMap_cons, List.cons_append, List.append_assoc]

/-! ### Code points below 256 -/

/-- A text of code points below 256, one byte for each. -/
def latin : Octets → Octets
  | [] => []
  | [b] => [b]
  | b :: c :: rest => if b < 0x80 then b :: latin (c :: rest) else ((b - 0xc0) * 64 + (c - 0x80)) :: latin rest

theorem encode_latin (b : UInt8) : Utf8.encode b.toNat = [b] ∧ b < 0x80
    ∨ ∃ high low, Utf8.encode b.toNat = [high, low] ∧ ¬ high < 0x80 ∧ (high - 0xc0) * 64 + (low - 0x80) = b := by
  have each : ∀ n : Fin 256, Utf8.encode (UInt8.ofFin n).toNat = [UInt8.ofFin n] ∧ UInt8.ofFin n < 0x80
      ∨ Utf8.encode (UInt8.ofFin n).toNat = [(0xc0 + n / 64 : Nat).toUInt8, (0x80 + n % 64 : Nat).toUInt8]
        ∧ ¬ (0xc0 + n / 64 : Nat).toUInt8 < 0x80
        ∧ ((0xc0 + n / 64 : Nat).toUInt8 - 0xc0) * 64 + ((0x80 + n % 64 : Nat).toUInt8 - 0x80) = UInt8.ofFin n := by
    decide +kernel
  exact (each b.toFin).imp id fun found => ⟨_, _, found⟩

/-- **The bytes that were encoded.** -/
theorem latin_encode (bytes : Octets) : latin (bytes.flatMap fun b => Utf8.encode b.toNat) = bytes := by
  induction bytes with
  | nil => rfl
  | cons b bytes ih =>
    rw [List.flatMap_cons]
    rcases encode_latin b with ⟨same, small⟩ | ⟨high, low, same, large, value⟩
    · rw [same, List.singleton_append]
      cases later : bytes.flatMap fun b => Utf8.encode b.toNat with
      | nil =>
        rw [later] at ih
        rw [← ih]
        rfl
      | cons c rest =>
        rw [later] at ih
        rw [latin, if_pos small, ih]
    · rw [same]
      show latin (high :: low :: bytes.flatMap fun b => Utf8.encode b.toNat) = b :: bytes
      rw [latin, if_neg large, ih, value]

end Json
