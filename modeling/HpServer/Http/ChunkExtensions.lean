/-
**The extensions of a chunk-size line.**

* `ExtensionItem` — one extension: a name, and a value that is a token or a quoted string, with the blanks
  that may stand around the separators.
* `scanQuoted_iff` — the loop over a quoted string stops behind its closing quote.
* `scanExtensions_turn`, `scanExtensions_next` — **one turn of the loop takes one item**. Blanks behind a name
  belong to the next item; `scanExtensions_blank` says that skipping them twice is harmless.
* `validateChunkExtensionsAt` — the loops of the source by positions, where a read outside the line has no
  result; `extensionsAt_eq` relates a position to the rest of the line.
* `validateChunkExtensions_recognises` — **the test ends, reads inside the line and accepts the grammar.**
-/

import HpServer.Http.HeaderLines
import HpServer.Library.Trimming

namespace HpServer.Http

open Trimming

/-! ### The grammar -/

/-- One character of a quoted string, written as it is or behind a backslash. -/
inductive QuotedPiece where
  | text (c : UInt8)
  | pair (c : UInt8)

namespace QuotedPiece

def bytes : QuotedPiece → Bytes
  | text c => [c]
  | pair c => [backslash, c]

def WellFormed : QuotedPiece → Prop
  | text c => c = htab ∨ c = sp ∨ c = 0x21 ∨ (0x23 ≤ c ∧ c ≠ backslash ∧ c ≠ del)
  | pair c => c = htab ∨ (0x20 ≤ c ∧ c ≠ del)

end QuotedPiece

def IsToken (word : Bytes) : Prop := word ≠ [] ∧ ∀ c ∈ word, isTokenCharacter c = true

inductive ExtensionValue where
  | token (word : Bytes)
  | quoted (pieces : List QuotedPiece)

namespace ExtensionValue

def bytes : ExtensionValue → Bytes
  | token word => word
  | quoted pieces => quote :: pieces.flatMap QuotedPiece.bytes ++ [quote]

def WellFormed : ExtensionValue → Prop
  | token word => IsToken word
  | quoted pieces => ∀ piece ∈ pieces, piece.WellFormed

end ExtensionValue

/-- The part of an item behind its name: `BWS "=" BWS value`. -/
structure Assignment where
  before : Bytes
  after : Bytes
  value : ExtensionValue

namespace Assignment

def bytes (a : Assignment) : Bytes := a.before ++ equals :: (a.after ++ a.value.bytes)

structure WellFormed (a : Assignment) : Prop where
  before : Blank isOws a.before
  after : Blank isOws a.after
  value : a.value.WellFormed

end Assignment

/-- One extension: `BWS ";" BWS token`, and perhaps a value. -/
structure ExtensionItem where
  before : Bytes
  after : Bytes
  name : Bytes
  assigned : Option Assignment

namespace ExtensionItem

def assignment (i : ExtensionItem) : Bytes := (i.assigned.map Assignment.bytes).getD []

def bytes (i : ExtensionItem) : Bytes := i.before ++ semicolon :: (i.after ++ (i.name ++ i.assignment))

structure WellFormed (i : ExtensionItem) : Prop where
  before : Blank isOws i.before
  after : Blank isOws i.after
  name : IsToken i.name
  assigned : ∀ a ∈ i.assigned, a.WellFormed

end ExtensionItem

/-! ### Where the loops stop -/

/-- A rest at which no loop over blanks goes on. -/
def Unblank (rest : Bytes) : Prop := ∀ c ∈ rest.head?, isOws c = false

/-- A rest at which no loop over a token goes on. -/
def Stops (rest : Bytes) : Prop := ∀ c ∈ rest.head?, isTokenCharacter c = false

theorem dropWhile_stopped {test : UInt8 → Bool} {word rest : Bytes} (all : ∀ c ∈ word, test c = true)
    (stops : ∀ c ∈ rest.head?, test c = false) : (word ++ rest).dropWhile test = rest := by
  rw [List.dropWhile_append_of_pos all]
  cases rest with
  | nil => rfl
  | cons c rest => exact List.dropWhile_cons_of_neg (by rw [stops c rfl]; decide)

/-- What a loop over bytes leaves, with the bytes it took. -/
theorem exists_dropWhile (test : UInt8 → Bool) (rest : Bytes) :
    ∃ taken, (∀ c ∈ taken, test c = true) ∧ rest = taken ++ rest.dropWhile test :=
  ⟨rest.takeWhile test, fun _ member => List.mem_takeWhile_imp member, List.takeWhile_append_dropWhile.symm⟩

theorem ows_not_token (c : UInt8) : isOws c = true → isTokenCharacter c = false :=
  forall_uint8 (P := fun c => isOws c = true → isTokenCharacter c = false) (by decide +kernel) c

theorem token_not_ows (c : UInt8) : isTokenCharacter c = true → isOws c = false :=
  forall_uint8 (P := fun c => isTokenCharacter c = true → isOws c = false) (by decide +kernel) c

theorem IsToken.head {word : Bytes} (token : IsToken word) (rest : Bytes) :
    ∃ c others, word ++ rest = c :: others ∧ isTokenCharacter c = true := by
  obtain ⟨some, all⟩ := token
  cases word with
  | nil => exact absurd rfl some
  | cons c word => exact ⟨c, word ++ rest, rfl, all c List.mem_cons_self⟩

theorem IsToken.unblank {word : Bytes} (token : IsToken word) (rest : Bytes) : Unblank (word ++ rest) := by
  obtain ⟨c, others, whole, isToken⟩ := token.head rest
  rw [whole]
  rintro d ⟨⟩
  exact token_not_ows c isToken

/-! ### Quoted strings -/

theorem scanQuoted_pieces {pieces : List QuotedPiece} (rest : Bytes) (wellFormed : ∀ piece ∈ pieces, piece.WellFormed) :
    scanQuoted (pieces.flatMap QuotedPiece.bytes ++ quote :: rest) = some rest := by
  induction pieces with
  | nil =>
    unfold scanQuoted
    exact if_pos rfl
  | cons piece pieces ih =>
    have later := ih fun p member => wellFormed p (List.mem_cons_of_mem _ member)
    have here := wellFormed piece List.mem_cons_self
    rw [List.flatMap_cons, List.append_assoc]
    cases piece with
    | text c =>
      have plain : c ≠ quote ∧ c ≠ backslash ∧ (c = htab || c = sp || c = 0x21 || (0x23 ≤ c && c ≠ del)) = true := by
        revert here
        exact forall_uint8 (P := fun c => (QuotedPiece.text c).WellFormed → c ≠ quote ∧ c ≠ backslash
          ∧ (c = htab || c = sp || c = 0x21 || (0x23 ≤ c && c ≠ del)) = true)
          (by unfold QuotedPiece.WellFormed; decide +kernel) c
      show scanQuoted (c :: (pieces.flatMap QuotedPiece.bytes ++ quote :: rest)) = _
      unfold scanQuoted
      rw [if_neg plain.1, if_neg plain.2.1, if_pos plain.2.2]
      exact later
    | pair c =>
      have allowed : (c = htab || (0x20 ≤ c && c ≠ del)) = true := by simpa [QuotedPiece.WellFormed] using here
      show scanQuoted (backslash :: c :: (pieces.flatMap QuotedPiece.bytes ++ quote :: rest)) = _
      unfold scanQuoted
      rw [if_neg (by decide), if_pos rfl]
      exact (if_pos allowed).trans later

/-- **A quoted string is read to its closing quote**, and only if it is well formed. -/
theorem scanQuoted_iff {word rest : Bytes} :
    scanQuoted word = some rest ↔ ∃ pieces : List QuotedPiece, (∀ piece ∈ pieces, piece.WellFormed)
      ∧ word = pieces.flatMap QuotedPiece.bytes ++ quote :: rest := by
  refine ⟨fun found => ?_, fun ⟨pieces, wellFormed, whole⟩ => whole ▸ scanQuoted_pieces rest wellFormed⟩
  fun_induction scanQuoted word with
  | case1 => cases found
  | case2 others =>
    cases found
    exact ⟨[], fun piece none => absurd none List.not_mem_nil, rfl⟩
  | case3 => cases found
  | case4 escaped others allowed _ ih =>
    obtain ⟨pieces, wellFormed, rfl⟩ := ih found
    refine ⟨.pair escaped :: pieces, List.forall_mem_cons.mpr ⟨?_, wellFormed⟩, rfl⟩
    simpa [QuotedPiece.WellFormed] using allowed
  | case5 => cases found
  | case6 c others _ notEscape allowed ih =>
    obtain ⟨pieces, wellFormed, rfl⟩ := ih found
    refine ⟨.text c :: pieces, List.forall_mem_cons.mpr ⟨?_, wellFormed⟩, rfl⟩
    simp only [Bool.or_eq_true, decide_eq_true_eq, Bool.and_eq_true] at allowed
    rcases allowed with ((isTab | isSp) | isMark) | ⟨above, notDel⟩
    · exact .inl isTab
    · exact .inr (.inl isSp)
    · exact .inr (.inr (.inl isMark))
    · exact .inr (.inr (.inr ⟨above, notEscape, notDel⟩))
  | case7 => cases found

/-! ### One turn of the loop -/

/-- The next turn skips the blanks it finds, so it does not matter who skips them. -/
theorem scanExtensions_blank {fuel : Nat} {blanks rest : Bytes} (blank : Blank isOws blanks) (some : rest ≠ []) :
    scanExtensions fuel (blanks ++ rest) = scanExtensions fuel rest := by
  cases blanks with
  | nil => rfl
  | cons b blanks =>
    obtain ⟨c, others, rfl⟩ := List.exists_cons_of_ne_nil some
    cases fuel with
    | zero => rfl
    | succ fuel =>
      have skipped : (b :: (blanks ++ c :: others)).dropWhile isOws = (c :: others).dropWhile isOws :=
        List.dropWhile_append_of_pos blank
      rw [List.cons_append]
      unfold scanExtensions
      rw [skipped]

/-- What may stand behind an item: nothing, or the separator of the next one. -/
def Separated (rest : Bytes) : Prop :=
  rest = [] ∨ ∃ blanks others, Blank isOws blanks ∧ rest = blanks ++ semicolon :: others

/-- The turn behind the name. -/
def scanBehindName (fuel : Nat) (rest : Bytes) : Bool :=
  match rest.dropWhile isOws with
  | [] => rest.isEmpty
  | c :: others =>
    if c ≠ equals then scanExtensions fuel (c :: others)
    else
      match others.dropWhile isOws with
      | [] => false
      | c :: others =>
        if c = quote then
          match scanQuoted others with
          | none => false
          | some rest => scanExtensions fuel rest
        else
          let afterValue := (c :: others).dropWhile isTokenCharacter
          if afterValue.length = (c :: others).length then false
          else scanExtensions fuel afterValue

/-- The turn up to the name. -/
theorem scanExtensions_named {i : ExtensionItem} (wellFormed : i.WellFormed) {fuel : Nat} {rest : Bytes}
    (stops : Stops rest) :
    scanExtensions (fuel + 1) (i.before ++ semicolon :: (i.after ++ (i.name ++ rest))) = scanBehindName fuel rest := by
  rw [scanExtensions_blank wellFormed.before (List.cons_ne_nil _ _)]
  have named : (i.after ++ (i.name ++ rest)).dropWhile isOws = i.name ++ rest :=
    dropWhile_stopped wellFormed.after (wellFormed.name.unblank rest)
  have behind : (i.name ++ rest).dropWhile isTokenCharacter = rest :=
    dropWhile_stopped wellFormed.name.2 stops
  have longer : ¬rest.length = (i.name ++ rest).length := by
    have := List.length_pos_iff.mpr wellFormed.name.1
    rw [List.length_append]
    omega
  conv_lhs => unfold scanExtensions
  rw [List.dropWhile_cons_of_neg (by decide)]
  dsimp only
  rw [if_neg (not_not.mpr rfl), named, behind, if_neg longer]
  rfl

theorem Blank.stops {blanks : Bytes} (blank : Blank isOws blanks) {c : UInt8} (notToken : isTokenCharacter c = false)
    (rest : Bytes) : Stops (blanks ++ c :: rest) := by
  cases blanks with
  | nil =>
    rintro d ⟨⟩
    exact notToken
  | cons b blanks =>
    rintro d ⟨⟩
    exact ows_not_token b (blank b List.mem_cons_self)

theorem Separated.stops {rest : Bytes} (separated : Separated rest) : Stops rest := by
  rcases separated with rfl | ⟨blanks, others, blank, rfl⟩
  · exact fun c none => by cases none
  · exact Blank.stops blank (by decide) others

/-- A value is taken whole. -/
theorem scanBehindName_assigned {a : Assignment} (wellFormed : a.WellFormed) {fuel : Nat} {rest : Bytes}
    (stops : Stops rest) : scanBehindName fuel (a.bytes ++ rest) = scanExtensions fuel rest := by
  have shape : a.bytes ++ rest = a.before ++ equals :: (a.after ++ (a.value.bytes ++ rest)) := by
    simp [Assignment.bytes]
  have equal : Unblank (equals :: (a.after ++ (a.value.bytes ++ rest))) := by
    rintro c ⟨⟩
    decide
  unfold scanBehindName
  rw [shape, dropWhile_stopped wellFormed.before equal]
  dsimp only
  rw [if_neg (not_not.mpr rfl)]
  have value := wellFormed.value
  cases kind : a.value with
  | token word =>
    rw [kind] at value
    have token : IsToken word := value
    have behind : (word ++ rest).dropWhile isTokenCharacter = rest := dropWhile_stopped token.2 stops
    have longer : ¬rest.length = (word ++ rest).length := by
      have := List.length_pos_iff.mpr token.1
      rw [List.length_append]
      omega
    obtain ⟨c, others, whole, isToken⟩ := token.head rest
    rw [ExtensionValue.bytes, dropWhile_stopped wellFormed.after (token.unblank rest)]
    rw [whole] at behind longer ⊢
    dsimp only
    rw [if_neg (by rintro rfl; revert isToken; decide), behind, if_neg longer]
  | quoted pieces =>
    rw [kind] at value
    have start : (ExtensionValue.quoted pieces).bytes ++ rest
        = quote :: (pieces.flatMap QuotedPiece.bytes ++ quote :: rest) := by
      simp [ExtensionValue.bytes]
    have unblank : Unblank (quote :: (pieces.flatMap QuotedPiece.bytes ++ quote :: rest)) := by
      rintro c ⟨⟩
      decide
    rw [start, dropWhile_stopped wellFormed.after unblank]
    dsimp only
    rw [if_pos rfl, scanQuoted_pieces rest value]

/-- **One turn takes one item.** -/
theorem scanExtensions_turn {i : ExtensionItem} (wellFormed : i.WellFormed) {fuel : Nat} {rest : Bytes}
    (separated : Separated rest) : scanExtensions (fuel + 1) (i.bytes ++ rest) = scanExtensions fuel rest := by
  have shape : i.bytes ++ rest = i.before ++ semicolon :: (i.after ++ (i.name ++ (i.assignment ++ rest))) := by
    simp [ExtensionItem.bytes]
  rw [shape]
  cases assigned : i.assigned with
  | none =>
    have behind : i.assignment ++ rest = rest := by simp [ExtensionItem.assignment, assigned]
    rw [behind, scanExtensions_named wellFormed separated.stops]
    unfold scanBehindName
    rcases separated with rfl | ⟨blanks, others, blank, rfl⟩
    · unfold scanExtensions
      rfl
    · have unblank : Unblank (semicolon :: others) := by
        rintro c ⟨⟩
        decide
      rw [dropWhile_stopped blank unblank, scanExtensions_blank blank (List.cons_ne_nil _ _)]
      exact if_pos (by decide)
  | some a =>
    have assignment := wellFormed.assigned a assigned
    have behind : i.assignment ++ rest = a.bytes ++ rest := by simp [ExtensionItem.assignment, assigned]
    have stops : Stops (a.bytes ++ rest) := by
      rw [Assignment.bytes, List.append_assoc]
      exact Blank.stops assignment.before (by decide) _
    rw [behind, scanExtensions_named wellFormed stops, scanBehindName_assigned assignment separated.stops]

/-- What a turn that goes on has taken behind the name. -/
theorem scanBehindName_next {fuel : Nat} {rest : Bytes} (accepted : scanBehindName fuel rest = true) :
    ∃ (assigned : Option Assignment) (tail : Bytes), (∀ a ∈ assigned, a.WellFormed)
      ∧ rest = (assigned.map Assignment.bytes).getD [] ++ tail ∧ scanExtensions fuel tail = true := by
  have unassigned : ∀ a ∈ (none : Option Assignment), a.WellFormed := fun a none => by cases none
  obtain ⟨before, blank, whole⟩ := exists_dropWhile isOws rest
  unfold scanBehindName at accepted
  split at accepted
  · have empty : rest = [] := by simpa using accepted
    exact ⟨none, [], unassigned, empty, by unfold scanExtensions; rfl⟩
  next c others found =>
  rw [found] at whole
  split at accepted
  · refine ⟨none, rest, unassigned, rfl, ?_⟩
    rw [whole, scanExtensions_blank blank (List.cons_ne_nil _ _)]
    exact accepted
  next isEquals =>
  obtain rfl := not_not.mp isEquals
  obtain ⟨after, blankAfter, valued⟩ := exists_dropWhile isOws others
  have assigned : ∀ (value : ExtensionValue) {tail : Bytes}, value.WellFormed →
      others.dropWhile isOws = value.bytes ++ tail → scanExtensions fuel tail = true →
      ∃ (assigned : Option Assignment) (tail : Bytes), (∀ a ∈ assigned, a.WellFormed)
        ∧ rest = (assigned.map Assignment.bytes).getD [] ++ tail ∧ scanExtensions fuel tail = true := by
    intro value tail wellFormed written accepted
    refine ⟨some ⟨before, after, value⟩, tail, ?_, ?_, accepted⟩
    · rintro a ⟨⟩
      exact ⟨blank, blankAfter, wellFormed⟩
    · rw [whole, valued, written]
      simp [Assignment.bytes]
  split at accepted
  · cases accepted
  next d others' started =>
  split at accepted
  · next isQuote =>
    subst isQuote
    split at accepted
    · cases accepted
    · next tail quoted =>
      obtain ⟨pieces, wellFormed, rfl⟩ := scanQuoted_iff.mp quoted
      exact assigned (.quoted pieces) wellFormed (by rw [started]; simp [ExtensionValue.bytes]) accepted
  · dsimp only at accepted
    split at accepted
    · cases accepted
    · next shorter =>
      obtain ⟨word, token, split⟩ := exists_dropWhile isTokenCharacter (d :: others')
      refine assigned (.token word) ⟨?_, token⟩ (started.trans split) accepted
      rintro rfl
      exact shorter (congrArg List.length split.symm)

/-- **A turn that goes on has taken one item.** -/
theorem scanExtensions_next {fuel : Nat} {word : Bytes} (some : word ≠ [])
    (accepted : scanExtensions (fuel + 1) word = true) :
    ∃ (i : ExtensionItem) (tail : Bytes), i.WellFormed ∧ word = i.bytes ++ tail ∧ scanExtensions fuel tail = true := by
  obtain ⟨first, others, rfl⟩ := List.exists_cons_of_ne_nil some
  obtain ⟨before, blank, whole⟩ := exists_dropWhile isOws (first :: others)
  unfold scanExtensions at accepted
  split at accepted
  · cases accepted
  next c rest found =>
  split at accepted
  · cases accepted
  next isSemicolon =>
  obtain rfl := not_not.mp isSemicolon
  obtain ⟨after, blankAfter, named⟩ := exists_dropWhile isOws rest
  obtain ⟨name, token, behind⟩ := exists_dropWhile isTokenCharacter (rest.dropWhile isOws)
  dsimp only at accepted
  split at accepted
  · cases accepted
  next shorter =>
  obtain ⟨assigned, tail, wellFormed, written, later⟩ := scanBehindName_next accepted
  refine ⟨⟨before, after, name, assigned⟩, tail, ⟨blank, blankAfter, ⟨?_, token⟩, wellFormed⟩, ?_, later⟩
  · rintro rfl
    exact shorter (congrArg List.length behind.symm)
  · rw [whole, found, named, behind, written]
    simp [ExtensionItem.bytes, ExtensionItem.assignment]

/-! ### Whole extensions -/

/-- Extensions of a line: one item behind the other. -/
def extensionBytes (items : List ExtensionItem) : Bytes := items.flatMap ExtensionItem.bytes

theorem extensionBytes_separated {items : List ExtensionItem} (wellFormed : ∀ i ∈ items, i.WellFormed) :
    Separated (extensionBytes items) := by
  cases items with
  | nil => exact .inl rfl
  | cons i items =>
    refine .inr ⟨i.before, i.after ++ (i.name ++ i.assignment) ++ extensionBytes items,
      (wellFormed i List.mem_cons_self).before, ?_⟩
    simp [extensionBytes, ExtensionItem.bytes]

theorem length_lt_item (i : ExtensionItem) (rest : Bytes) : rest.length < (i.bytes ++ rest).length := by
  simp only [ExtensionItem.bytes, List.length_append, List.length_cons]
  omega

/-- **The loop accepts what the grammar writes and nothing else.** -/
theorem scanExtensions_iff (fuel : Nat) : ∀ word : Bytes, word.length ≤ fuel →
    (scanExtensions fuel word = true
      ↔ ∃ items : List ExtensionItem, (∀ i ∈ items, i.WellFormed) ∧ word = extensionBytes items) := by
  have none : ∀ i ∈ ([] : List ExtensionItem), i.WellFormed := fun i none => absurd none List.not_mem_nil
  induction fuel with
  | zero =>
    intro word short
    obtain rfl := List.length_eq_zero_iff.mp (Nat.le_zero.mp short)
    exact iff_of_true (by unfold scanExtensions; rfl) ⟨[], none, rfl⟩
  | succ fuel ih =>
    intro word short
    constructor
    · intro accepted
      by_cases empty : word = []
      · exact ⟨[], none, empty⟩
      obtain ⟨i, tail, wellFormed, rfl, later⟩ := scanExtensions_next empty accepted
      have shorter := length_lt_item i tail
      obtain ⟨items, all, rfl⟩ := (ih tail (by omega)).mp later
      exact ⟨i :: items, List.forall_mem_cons.mpr ⟨wellFormed, all⟩, rfl⟩
    · rintro ⟨items, wellFormed, rfl⟩
      cases items with
      | nil => unfold scanExtensions; rfl
      | cons i items =>
        obtain ⟨here, later⟩ := List.forall_mem_cons.mp wellFormed
        have shorter := length_lt_item i (extensionBytes items)
        refine (scanExtensions_turn here (extensionBytes_separated later)).trans ((ih _ ?_).mpr ⟨items, later, rfl⟩)
        have whole : extensionBytes (i :: items) = i.bytes ++ extensionBytes items := rfl
        rw [whole] at short
        omega

/-! ### The loops by positions -/

/-- `text[position]`, which outside the text is not a byte. -/
def lineByte (text : Bytes) (position : Nat) : Option UInt8 := text[position]?

/-- `while (position < line.size() && test(line[position])) ++position`. -/
def skipAt (test : UInt8 → Bool) (line : Bytes) : Nat → Nat → Option Nat
  | 0, _ => none
  | fuel + 1, position =>
    if position < line.length then
      (lineByte line position).bind fun c => if test c then skipAt test line fuel (position + 1) else some position
    else some position

/-- The loop over a quoted string, from behind the opening quote: the position behind the closing one, or none in
it where the source returns `false`. -/
def quotedAt (line : Bytes) : Nat → Nat → Option (Option Nat)
  | 0, _ => none
  | fuel + 1, position =>
    if position < line.length then
      (lineByte line position).bind fun c =>
        if c = quote then some (some (position + 1))
        else if c = backslash then
          if position + 1 = line.length then some none
          else
            (lineByte line (position + 1)).bind fun escaped =>
              if escaped = htab || (0x20 ≤ escaped && escaped ≠ del) then quotedAt line fuel (position + 2)
              else some none
        else if c = htab || c = sp || c = 0x21 || (0x23 ≤ c && c ≠ del) then quotedAt line fuel (position + 1)
        else some none
    else some none

/-- `validateChunkExtensions` as the source has it. The inner loops get fuel for a whole line. -/
def validateChunkExtensionsAt (line : Bytes) : Nat → Nat → Option Bool
  | 0, _ => none
  | fuel + 1, position =>
    if position < line.length then
      (skipAt isOws line (line.length + 1) position).bind fun position =>
      if position = line.length then some false
      else
        (lineByte line position).bind fun c =>
        if c ≠ semicolon then some false
        else
          (skipAt isOws line (line.length + 1) (position + 1)).bind fun nameStart =>
          (skipAt isTokenCharacter line (line.length + 1) nameStart).bind fun afterName =>
          if afterName = nameStart then some false
          else
            (skipAt isOws line (line.length + 1) afterName).bind fun position =>
            if position = line.length then some (decide (position = afterName))
            else
              (lineByte line position).bind fun c =>
              if c ≠ equals then validateChunkExtensionsAt line fuel position
              else
                (skipAt isOws line (line.length + 1) (position + 1)).bind fun position =>
                if position = line.length then some false
                else
                  (lineByte line position).bind fun c =>
                  if c = quote then
                    (quotedAt line (line.length + 1) (position + 1)).bind fun closed =>
                      closed.elim (some false) (validateChunkExtensionsAt line fuel)
                  else
                    (skipAt isTokenCharacter line (line.length + 1) position).bind fun behind =>
                    if behind = position then some false else validateChunkExtensionsAt line fuel behind
    else some true

section Positions

variable {line : Bytes} {position : Nat}

/-- A position stands for the bytes from it on. -/
theorem read_of_drop {c : UInt8} {rest : Bytes} (from1 : line.drop position = c :: rest) :
    position < line.length ∧ lineByte line position = some c ∧ line.drop (position + 1) = rest := by
  have inside : position < line.length := by
    by_contra outside
    rw [List.drop_eq_nil_of_le (Nat.le_of_not_lt outside)] at from1
    cases from1
  have cons := List.drop_eq_getElem_cons inside
  rw [from1] at cons
  obtain ⟨rfl, rfl⟩ := List.cons.inj cons
  exact ⟨inside, List.getElem?_eq_getElem inside, rfl⟩

theorem end_of_drop (inside : position ≤ line.length) (from1 : line.drop position = []) : position = line.length :=
  Nat.le_antisymm inside (List.drop_eq_nil_iff.mp from1)

theorem skipAt_eq (test : UInt8 → Bool) (fuel : Nat) : ∀ position, position ≤ line.length →
    line.length < position + fuel → ∃ stop, skipAt test line fuel position = some stop ∧ position ≤ stop
      ∧ stop ≤ line.length ∧ line.drop stop = (line.drop position).dropWhile test := by
  induction fuel with
  | zero => exact fun position inside enough => by omega
  | succ fuel ih =>
    intro position inside enough
    unfold skipAt
    cases from1 : line.drop position with
    | nil =>
      obtain rfl := end_of_drop inside from1
      rw [if_neg (Nat.lt_irrefl _)]
      exact ⟨_, rfl, Nat.le_refl _, Nat.le_refl _, from1⟩
    | cons c rest =>
      obtain ⟨below, read, next⟩ := read_of_drop from1
      rw [if_pos below, read, Option.bind_some]
      by_cases takes : test c = true
      · obtain ⟨stop, found, grown, bound, left⟩ := ih (position + 1) below (by omega)
        rw [if_pos takes, List.dropWhile_cons_of_pos takes, ← next]
        exact ⟨stop, found, by omega, bound, left⟩
      · rw [if_neg takes, List.dropWhile_cons_of_neg takes]
        exact ⟨position, rfl, Nat.le_refl _, inside, from1⟩

theorem quotedAt_eq (fuel : Nat) : ∀ position, position ≤ line.length → line.length < position + fuel →
    ∃ closed, quotedAt line fuel position = some closed ∧ closed.map line.drop = scanQuoted (line.drop position)
      ∧ ∀ stop ∈ closed, position < stop ∧ stop ≤ line.length := by
  induction fuel with
  | zero => exact fun position inside enough => by omega
  | succ fuel ih =>
    intro position inside enough
    have open1 : ∀ stop ∈ (none : Option Nat), position < stop ∧ stop ≤ line.length := fun stop none => by cases none
    -- a later turn closes behind this one
    have later : ∀ n, 0 < n → position + n ≤ line.length → ∃ closed, quotedAt line fuel (position + n) = some closed
        ∧ closed.map line.drop = scanQuoted (line.drop (position + n))
        ∧ ∀ stop ∈ closed, position < stop ∧ stop ≤ line.length := by
      intro n some fits
      obtain ⟨closed, found, left, within⟩ := ih (position + n) fits (by omega)
      exact ⟨closed, found, left, fun stop member => ⟨by have := (within stop member).1; omega, (within stop member).2⟩⟩
    unfold quotedAt scanQuoted
    cases from1 : line.drop position with
    | nil =>
      rw [if_neg (by rw [end_of_drop inside from1]; exact Nat.lt_irrefl _)]
      exact ⟨none, rfl, rfl, open1⟩
    | cons c rest =>
      obtain ⟨below, read, next⟩ := read_of_drop from1
      rw [if_pos below, read, Option.bind_some]
      dsimp only
      split
      · refine ⟨some (position + 1), rfl, congrArg some next, ?_⟩
        rintro stop ⟨⟩
        exact ⟨Nat.lt_succ_self _, below⟩
      split
      · cases rest with
        | nil =>
          rw [if_pos (end_of_drop below next)]
          exact ⟨none, rfl, rfl, open1⟩
        | cons escaped rest =>
          obtain ⟨below', read', next'⟩ := read_of_drop next
          rw [if_neg (Nat.ne_of_lt below'), read', Option.bind_some]
          dsimp only
          split
          · obtain ⟨closed, found, left, within⟩ := later 2 (by decide) below'
            exact ⟨closed, found, left.trans (congrArg scanQuoted next'), within⟩
          · exact ⟨none, rfl, rfl, open1⟩
      split
      · obtain ⟨closed, found, left, within⟩ := later 1 (by decide) below
        exact ⟨closed, found, left.trans (congrArg scanQuoted next), within⟩
      · exact ⟨none, rfl, rfl, open1⟩

/-- A loop over a token that starts and ends at one position has read none. -/
theorem stopped_iff {start stop : Nat} (before : start ≤ stop) (inside : stop ≤ line.length) {left : Bytes}
    (behind : line.drop stop = left) : stop = start ↔ left.length = (line.drop start).length := by
  rw [← behind, List.length_drop, List.length_drop]
  omega

/-- **The loops over positions end, read inside the line and do what the loops over the rest of it do.** -/
theorem extensionsAt_eq (fuel : Nat) : ∀ (enough position : Nat), position ≤ line.length →
    line.length < position + fuel → (line.drop position).length ≤ enough →
    validateChunkExtensionsAt line fuel position = some (scanExtensions enough (line.drop position)) := by
  have skip : ∀ (test : UInt8 → Bool) (position : Nat), position ≤ line.length →
      ∃ stop, skipAt test line (line.length + 1) position = some stop ∧ position ≤ stop ∧ stop ≤ line.length
        ∧ line.drop stop = (line.drop position).dropWhile test :=
    fun test position inside => skipAt_eq test (line.length + 1) position inside (by omega)
  induction fuel with
  | zero => exact fun enough position inside more => by omega
  | succ fuel ih =>
    intro enough position inside more sized
    unfold validateChunkExtensionsAt
    cases from1 : line.drop position with
    | nil =>
      rw [if_neg (by rw [end_of_drop inside from1]; exact Nat.lt_irrefl _)]
      unfold scanExtensions
      rfl
    | cons first others =>
      obtain ⟨below, -, -⟩ := read_of_drop from1
      obtain ⟨enough, rfl⟩ : ∃ n, enough = n + 1 := ⟨enough - 1, by rw [from1, List.length_cons] at sized; omega⟩
      -- a later turn starts behind this position and has fuel for the rest
      have again : ∀ later, position < later → later ≤ line.length →
          validateChunkExtensionsAt line fuel later = some (scanExtensions enough (line.drop later)) := by
        intro later behind fits
        refine ih enough later fits (by omega) ?_
        rw [List.length_drop] at sized ⊢
        omega
      obtain ⟨start, skipped, grown, bound, left⟩ := skip isOws position inside
      rw [from1] at left
      rw [if_pos below, skipped, Option.bind_some]
      unfold scanExtensions
      rw [← left]
      cases here : line.drop start with
      | nil => exact if_pos (end_of_drop bound here)
      | cons c rest =>
        obtain ⟨below1, read, next⟩ := read_of_drop here
        rw [if_neg (Nat.ne_of_lt below1), read, Option.bind_some]
        dsimp only
        by_cases notSemicolon : c ≠ semicolon
        · rw [if_pos notSemicolon, if_pos notSemicolon]
        rw [if_neg notSemicolon, if_neg notSemicolon]
        obtain ⟨nameStart, skipped1, grown1, bound1, left1⟩ := skip isOws (start + 1) below1
        obtain ⟨afterName, skipped2, grown2, bound2, left2⟩ := skip isTokenCharacter nameStart bound1
        rw [skipped1, Option.bind_some, skipped2, Option.bind_some]
        rw [next] at left1
        rw [← left1]
        by_cases unnamed : afterName = nameStart
        · rw [if_pos unnamed, if_pos ((stopped_iff grown2 bound2 left2).mp unnamed)]
        rw [if_neg unnamed, if_neg fun same => unnamed ((stopped_iff grown2 bound2 left2).mpr same), ← left2]
        obtain ⟨stop, skipped3, grown3, bound3, left3⟩ := skip isOws afterName bound2
        rw [skipped3, Option.bind_some, ← left3]
        cases behind : line.drop stop with
        | nil =>
          have finished := end_of_drop bound3 behind
          rw [if_pos finished]
          have same : decide (stop = afterName) = (line.drop afterName).isEmpty := by
            rw [Bool.eq_iff_iff, decide_eq_true_iff, List.isEmpty_iff, List.drop_eq_nil_iff]
            omega
          rw [same]
        | cons c rest =>
          obtain ⟨below4, read4, next4⟩ := read_of_drop behind
          rw [if_neg (Nat.ne_of_lt below4), read4, Option.bind_some]
          dsimp only
          by_cases notEquals : c ≠ equals
          · rw [if_pos notEquals, if_pos notEquals, again stop (by omega) bound3, behind]
          rw [if_neg notEquals, if_neg notEquals]
          obtain ⟨valueStart, skipped5, grown5, bound5, left5⟩ := skip isOws (stop + 1) below4
          rw [next4] at left5
          rw [skipped5, Option.bind_some, ← left5]
          cases value : line.drop valueStart with
          | nil => exact if_pos (end_of_drop bound5 value)
          | cons c rest =>
            obtain ⟨below6, read6, next6⟩ := read_of_drop value
            rw [if_neg (Nat.ne_of_lt below6), read6, Option.bind_some]
            dsimp only
            by_cases isQuote : c = quote
            · rw [if_pos isQuote, if_pos isQuote]
              obtain ⟨closed, found, scanned, within⟩ :=
                quotedAt_eq (line.length + 1) (valueStart + 1) below6 (by omega)
              rw [next6] at scanned
              rw [found, Option.bind_some, ← scanned]
              cases closed with
              | none => rfl
              | some behind =>
                obtain ⟨passed, fits⟩ := within behind rfl
                exact again behind (by omega) fits
            · rw [if_neg isQuote, if_neg isQuote]
              obtain ⟨behind, skipped7, grown7, bound7, left7⟩ := skip isTokenCharacter valueStart bound5
              rw [skipped7, Option.bind_some, ← value]
              by_cases blank : behind = valueStart
              · rw [if_pos blank, if_pos ((stopped_iff grown7 bound7 left7).mp blank)]
              · rw [if_neg blank, if_neg fun same => blank ((stopped_iff grown7 bound7 left7).mpr same), ← left7]
                exact again behind (by omega) bound7

end Positions

/-- **The test of the extensions.** From every position it comes to an end without a read outside the line, and it
accepts exactly a sequence of items with nothing behind the last. -/
theorem validateChunkExtensions_recognises (line : Bytes) (position : Nat) (inside : position ≤ line.length) :
    (∀ fuel, line.length < fuel →
      validateChunkExtensionsAt line fuel position = some (validateChunkExtensions line position))
    ∧ (validateChunkExtensions line position = true ↔ ∃ items : List ExtensionItem,
        (∀ i ∈ items, i.WellFormed) ∧ line.drop position = items.flatMap ExtensionItem.bytes) :=
  ⟨fun fuel enough => extensionsAt_eq fuel _ position inside (by omega) (Nat.le_refl _),
    scanExtensions_iff _ _ (Nat.le_refl _)⟩

/-- The name `a` behind the size of a line. -/
theorem validateChunkExtensions_recognises_name :
    validateChunkExtensionsAt [0x35, semicolon, 0x61] 4 1 = some true :=
  ((validateChunkExtensions_recognises [0x35, semicolon, 0x61] 1 (by decide)).1 4 (by decide)).trans (by decide)

end HpServer.Http
