/-
**Escaped texts.**

One symbol announces an escape: it and the two symbols behind it stand for one symbol, which `value` gives. No
announcing symbol is part of an escape, so a text can be read in one way only.

* `Proper` — **every announcing symbol is followed by two that have a value**; `Codes` — a symbol some escape of the
  text stands for. Both speak of places of the text, not of a reader.
* `decode` — the text with its escapes replaced.
* `Proper.induct` — a proper text is made of plain symbols and escapes.
* `Apart` — a symbol no escape has. **A text is proper, and is decoded, piece by piece between such symbols**
  (`proper_intercalate`, `codes_intercalate`, `decode_intercalate`).
-/

import Mathlib.Data.List.Basic
import Mathlib.Tactic

namespace Escapes

/-- The announcing symbol and what two symbols behind it stand for. -/
structure Coding (α : Type) where
  escape : α
  value : α → α → Option α
  clear : ∀ {high low b : α}, value high low = some b → high ≠ escape ∧ low ≠ escape

variable {α : Type} (c : Coding α)

/-- **Every announcing symbol starts an escape.** -/
def Proper (raw : List α) : Prop :=
  ∀ before rest, raw = before ++ c.escape :: rest →
    ∃ high low tail b, rest = high :: low :: tail ∧ c.value high low = some b

/-- Some escape of the text stands for `b`. -/
def Codes (raw : List α) (b : α) : Prop :=
  ∃ before high low after, raw = before ++ c.escape :: high :: low :: after ∧ c.value high low = some b

/-- A symbol that is in no escape. -/
structure Apart (s : α) : Prop where
  plain : s ≠ c.escape
  first : ∀ a, c.value s a = none
  second : ∀ a, c.value a s = none

variable {c} {raw rest tail : List α} {a b s high low : α}

/-! ### One symbol or one escape in front -/

theorem proper_nil : Proper c [] := by
  intro before rest same
  exact absurd same (by simp)

theorem proper_plain (plain : a ≠ c.escape) : Proper c (a :: rest) ↔ Proper c rest := by
  refine ⟨fun proper before after same => proper (a :: before) after (by rw [same]; rfl), ?_⟩
  intro proper before after same
  cases before with
  | nil => exact absurd (List.cons.inj same).1 plain
  | cons _ before => exact proper before after (List.cons.inj same).2

theorem proper_coded (coded : c.value high low = some b) :
    Proper c (c.escape :: high :: low :: tail) ↔ Proper c tail := by
  obtain ⟨first, second⟩ := c.clear coded
  have plain : Proper c (high :: low :: tail) ↔ Proper c tail := (proper_plain first).trans (proper_plain second)
  rw [← plain]
  refine ⟨fun proper before after same => proper (c.escape :: before) after (by rw [same]; rfl), ?_⟩
  intro proper before after same
  cases before with
  | nil => exact ⟨high, low, tail, b, (List.cons.inj same).2.symm, coded⟩
  | cons _ before => exact proper before after (List.cons.inj same).2

theorem not_codes_nil : ¬ Codes c [] b := by
  rintro ⟨before, high, low, after, same, -⟩
  exact absurd same (by simp)

theorem codes_plain (plain : a ≠ c.escape) : Codes c (a :: rest) b ↔ Codes c rest b := by
  constructor
  · rintro ⟨before, high, low, after, same, coded⟩
    cases before with
    | nil => exact absurd (List.cons.inj same).1 plain
    | cons _ before => exact ⟨before, high, low, after, (List.cons.inj same).2, coded⟩
  · rintro ⟨before, high, low, after, same, coded⟩
    exact ⟨a :: before, high, low, after, by rw [same]; rfl, coded⟩

theorem codes_coded {d : α} (coded : c.value high low = some b) :
    Codes c (c.escape :: high :: low :: tail) d ↔ d = b ∨ Codes c tail d := by
  obtain ⟨first, second⟩ := c.clear coded
  have plain : Codes c (high :: low :: tail) d ↔ Codes c tail d := (codes_plain first).trans (codes_plain second)
  rw [← plain]
  constructor
  · rintro ⟨before, high', low', after, same, coded'⟩
    cases before with
    | nil =>
      cases same
      exact .inl (Option.some.inj (coded'.symm.trans coded))
    | cons _ before => exact .inr ⟨before, high', low', after, (List.cons.inj same).2, coded'⟩
  · rintro (rfl | ⟨before, high', low', after, same, coded'⟩)
    · exact ⟨[], high, low, tail, rfl, coded⟩
    · exact ⟨c.escape :: before, high', low', after, by rw [same]; rfl, coded'⟩

/-- **A proper text is made of plain symbols and escapes.** -/
theorem Proper.induct {motive : (raw : List α) → Proper c raw → Prop} (nil : motive [] proper_nil)
    (plain : ∀ a rest (plain : a ≠ c.escape) (proper : Proper c rest), motive rest proper →
      motive (a :: rest) ((proper_plain plain).mpr proper))
    (coded : ∀ high low b tail (coded : c.value high low = some b) (proper : Proper c tail), motive tail proper →
      motive (c.escape :: high :: low :: tail) ((proper_coded coded).mpr proper)) :
    ∀ (raw : List α) (proper : Proper c raw), motive raw proper := by
  classical
  -- an escape takes three symbols at once, so the induction is on the length
  intro raw
  induction size : raw.length using Nat.strong_induction_on generalizing raw with
  | _ size ih =>
  intro proper
  cases raw with
  | nil => exact nil
  | cons a rest =>
    rw [List.length_cons] at size
    by_cases escapes : a = c.escape
    · obtain ⟨high, low, tail, b, rfl, value⟩ := proper [] rest (by rw [escapes]; rfl)
      subst escapes
      simp only [List.length_cons] at size
      exact coded high low b tail value _ (ih tail.length (by omega) tail rfl ((proper_coded value).mp proper))
    · exact plain a rest escapes _ (ih rest.length (by omega) rest rfl ((proper_plain escapes).mp proper))

/-! ### Decoding -/

section Decode

variable [DecidableEq α]

/-- The text with its escapes replaced; an announcing symbol that starts no escape is kept. -/
def decode (c : Coding α) : List α → List α
  | [] => []
  | a :: rest =>
    if a = c.escape then
      match rest with
      | high :: low :: tail =>
        match c.value high low with
        | some b => b :: decode c tail
        | none => a :: decode c (high :: low :: tail)
      | rest => a :: decode c rest
    else a :: decode c rest

@[simp] theorem decode_nil : decode c [] = [] := rfl

theorem decode_plain (plain : a ≠ c.escape) : decode c (a :: rest) = a :: decode c rest := by
  conv_lhs => unfold decode
  rw [if_neg plain]

theorem decode_coded (coded : c.value high low = some b) :
    decode c (c.escape :: high :: low :: tail) = b :: decode c tail := by
  rw [decode, if_pos rfl]
  simp only [coded]

theorem Proper.length_decode (proper : Proper c raw) : (decode c raw).length ≤ raw.length := by
  induction raw, proper using Proper.induct with
  | nil => exact Nat.le_refl 0
  | plain a rest plain _ ih =>
    rw [decode_plain plain, List.length_cons, List.length_cons]
    exact Nat.succ_le_succ ih
  | coded high low b tail coded _ ih =>
    rw [decode_coded coded]
    simp only [List.length_cons]
    omega

/-- What is decoded was coded or stood in the text. -/
theorem Proper.mem_decode (proper : Proper c raw) : b ∈ decode c raw → Codes c raw b ∨ b ∈ raw := by
  induction raw, proper using Proper.induct with
  | nil => exact .inr
  | plain a rest plain _ ih =>
    rw [decode_plain plain, codes_plain plain, List.mem_cons, List.mem_cons]
    rintro (same | inside)
    · exact .inr (.inl same)
    · exact (ih inside).imp_right .inr
  | coded high low d tail coded _ ih =>
    rw [decode_coded coded, codes_coded coded, List.mem_cons]
    rintro (same | inside)
    · exact .inl (.inl same)
    · exact (ih inside).imp .inr fun found => by simp [found]

theorem Proper.codes_decode (proper : Proper c raw) : Codes c raw b → b ∈ decode c raw := by
  induction raw, proper using Proper.induct with
  | nil => exact fun none => absurd none not_codes_nil
  | plain a rest plain _ ih =>
    rw [decode_plain plain, codes_plain plain, List.mem_cons]
    exact fun found => .inr (ih found)
  | coded high low d tail coded _ ih =>
    rw [decode_coded coded, codes_coded coded, List.mem_cons]
    exact Or.imp_right ih

/-- A symbol that escapes do not have ends what stands before it. -/
theorem Proper.decode_append (proper : Proper c raw) (apart : Apart c s) :
    decode c (raw ++ s :: rest) = decode c raw ++ s :: decode c rest := by
  induction raw, proper using Proper.induct with
  | nil => exact decode_plain apart.plain
  | plain a before plain _ ih =>
    rw [List.cons_append, decode_plain plain, decode_plain plain, ih]
    rfl
  | coded high low b tail coded _ ih =>
    simp only [List.cons_append]
    rw [decode_coded coded, decode_coded coded, ih]
    rfl

end Decode

/-! ### Pieces between symbols that are in no escape -/

theorem proper_append (apart : Apart c s) : Proper c (raw ++ s :: rest) ↔ Proper c raw ∧ Proper c rest := by
  constructor
  · refine fun proper => ⟨fun before after same => ?_, fun before after same => ?_⟩
    · obtain ⟨high, low, tail, b, shape, coded⟩ := proper before (after ++ s :: rest) (by rw [same]; simp)
      -- the escape ends before the symbol that is in none
      match after, shape with
      | [], shape =>
        rw [← (List.cons.inj shape).1, apart.first] at coded
        cases coded
      | [_], shape =>
        rw [← (List.cons.inj (List.cons.inj shape).2).1, apart.second] at coded
        cases coded
      | first :: second :: after, shape =>
        cases shape
        exact ⟨_, _, after, b, rfl, coded⟩
    · exact proper (raw ++ s :: before) after (by rw [same]; simp)
  · rintro ⟨first, second⟩ before after same
    rcases List.append_eq_append_iff.mp same with ⟨middle, rfl, split⟩ | ⟨middle, rfl, split⟩
    · cases middle with
      | nil => exact absurd (List.cons.inj split).1 apart.plain
      | cons _ middle => exact second middle after (List.cons.inj split).2
    · cases middle with
      | nil => exact absurd (List.cons.inj split).1.symm apart.plain
      | cons _ middle =>
        obtain ⟨rfl, rfl⟩ := List.cons.inj split
        obtain ⟨high, low, tail, b, rfl, coded⟩ := first before middle rfl
        exact ⟨high, low, tail ++ s :: rest, b, rfl, coded⟩

theorem codes_append (apart : Apart c s) (proper : Proper c raw) :
    Codes c (raw ++ s :: rest) b ↔ Codes c raw b ∨ Codes c rest b := by
  induction raw, proper using Proper.induct with
  | nil =>
    rw [List.nil_append, codes_plain apart.plain]
    exact ⟨.inr, fun found => found.resolve_left not_codes_nil⟩
  | plain a before plain _ ih => rw [List.cons_append, codes_plain plain, codes_plain plain, ih]
  | coded high low d tail coded _ ih =>
    simp only [List.cons_append]
    rw [codes_coded coded, codes_coded coded, ih, or_assoc]

theorem proper_intercalate (apart : Apart c s) (pieces : List (List α)) :
    Proper c ([s].intercalate pieces) ↔ ∀ piece ∈ pieces, Proper c piece := by
  induction pieces with
  | nil => simpa using proper_nil
  | cons piece pieces ih =>
    cases pieces with
    | nil => simp
    | cons next pieces =>
      rw [List.intercalate_cons_cons, List.append_assoc, List.singleton_append, proper_append apart, ih]
      exact List.forall_mem_cons.symm

theorem codes_intercalate (apart : Apart c s) {pieces : List (List α)}
    (proper : ∀ piece ∈ pieces, Proper c piece) :
    Codes c ([s].intercalate pieces) b ↔ ∃ piece ∈ pieces, Codes c piece b := by
  induction pieces with
  | nil => simpa using not_codes_nil
  | cons piece pieces ih =>
    obtain ⟨first, others⟩ := List.forall_mem_cons.mp proper
    cases pieces with
    | nil => simp
    | cons next pieces =>
      rw [List.intercalate_cons_cons, List.append_assoc, List.singleton_append, codes_append apart first, ih others]
      simp only [List.mem_cons, exists_eq_or_imp]

theorem decode_intercalate [DecidableEq α] (apart : Apart c s) {pieces : List (List α)}
    (proper : ∀ piece ∈ pieces, Proper c piece) :
    decode c ([s].intercalate pieces) = [s].intercalate (pieces.map (decode c)) := by
  induction pieces with
  | nil => rfl
  | cons piece pieces ih =>
    obtain ⟨first, others⟩ := List.forall_mem_cons.mp proper
    cases pieces with
    | nil => simp
    | cons next pieces =>
      rw [List.map_cons, List.map_cons, List.intercalate_cons_cons, List.intercalate_cons_cons, List.append_assoc,
        List.singleton_append, first.decode_append apart, ih others, List.map_cons, List.append_assoc,
        List.singleton_append]

end Escapes
