/-
**What one line of a chunked body may be, and how the view reads it.**

* `scanHex_eq` — the size digits are read as far as they go, with an exact test for 64 bits.
* `SizeLine` — a size line by its digits and its extension; `endSize_wellFormed`, `endSize_sound` — the
  end of a size line is the membership test of `SizeLine.WellFormed`.
* `ExtensionItem.WellFormed.plain`, `ExtensionItem.WellFormed.head` — an extension holds no line end and does not
  continue the digits.
* `run_word`, `run_word_sound` — a size line or a trailer line is read to its CRLF exactly as far as the
  counters allow.
-/

import HpServer.Http.HeaderGrammar
import HpServer.Http.ChunkView
import HpServer.Http.ChunkExtensions

namespace HpServer.Http

open Trimming

/-! ### Size lines -/

def isHex (c : UInt8) : Bool := (hexDigit c).isSome

/-- The hexadecimal digits read on from a number. -/
def hexadecimalFrom (total : Nat) (digits : Bytes) : Nat :=
  digits.foldl (fun total c => total * 16 + (hexDigit c).getD 0) total

def hexadecimal (digits : Bytes) : Nat := hexadecimalFrom 0 digits

theorem le_hexadecimalFrom (digits : Bytes) : ∀ total, total ≤ hexadecimalFrom total digits := by
  induction digits with
  | nil => exact fun total => le_rfl
  | cons c digits ih =>
    intro total
    refine le_trans ?_ (ih (total * 16 + (hexDigit c).getD 0))
    omega

theorem hexDigit_le {c : UInt8} {digit : Nat} (found : hexDigit c = some digit) : digit ≤ 15 := by
  have bound := forall_uint8 (P := fun c => ((hexDigit c).getD 0) ≤ 15) (by decide +kernel) c
  rw [found] at bound
  exact bound

/-- **The size is the value of the leading digits**, and the overflow test is exact. -/
theorem scanHex_eq (line : Bytes) : ∀ total position, total ≤ uint64Max →
    scanHex line total position =
      if hexadecimalFrom total (line.takeWhile isHex) ≤ uint64Max then
        some (hexadecimalFrom total (line.takeWhile isHex), position + (line.takeWhile isHex).length)
      else none := by
  induction line with
  | nil => exact fun total position fits => (if_pos fits).symm
  | cons c line ih =>
    intro total position fits
    unfold scanHex
    cases found : hexDigit c with
    | none =>
      rw [List.takeWhile_cons_of_neg (by simp [isHex, found])]
      exact (if_pos fits).symm
    | some digit =>
      have small := hexDigit_le found
      have exact1 : total > (uint64Max - digit) / 16 ↔ ¬total * 16 + digit ≤ uint64Max := by
        unfold uint64Max at *
        omega
      have value : hexadecimalFrom total (c :: line.takeWhile isHex)
          = hexadecimalFrom (total * 16 + digit) (line.takeWhile isHex) := by
        simp [hexadecimalFrom, found]
      rw [List.takeWhile_cons_of_pos (by simp [isHex, found]), value]
      dsimp only
      by_cases next : total * 16 + digit ≤ uint64Max
      · rw [if_neg fun h => exact1.mp h next, ih _ _ next, List.length_cons, Nat.add_assoc,
          Nat.add_comm 1]
      · have grow := le_hexadecimalFrom (line.takeWhile isHex) (total * 16 + digit)
        rw [if_pos (exact1.mpr next), if_neg fun h => next (grow.trans h)]

/-- A size line: the digits of the size, and everything after them. -/
structure SizeLine where
  digits : Bytes
  extension : Bytes

namespace SizeLine

def bytes (l : SizeLine) : Bytes := l.digits ++ l.extension

/-- The size the line announces. -/
def value (l : SizeLine) : Nat := hexadecimal l.digits

structure WellFormed (l : SizeLine) : Prop where
  digits : l.digits ≠ []
  hex : l.digits.all isHex = true
  fits : l.value ≤ uint64Max
  extension : validateChunkExtensions l.bytes l.digits.length = true
  size : l.bytes.length + 2 ≤ kMaxChunkLineBytes

end SizeLine

/-! ### The bytes of an extension -/

theorem blank_plain {blanks : Bytes} (blank : Blank isOws blanks) : blanks.all isPlain = true :=
  all_plain (forall_uint8 (P := fun c => isOws c = true → isPlain c = true) (by decide +kernel))
    (List.all_eq_true.mpr blank)

theorem IsToken.plain {word : Bytes} (token : IsToken word) : word.all isPlain = true :=
  all_plain token_plain (List.all_eq_true.mpr token.2)

theorem QuotedPiece.WellFormed.plain {piece : QuotedPiece} (wellFormed : piece.WellFormed) :
    piece.bytes.all isPlain = true := by
  cases piece with
  | text c =>
    exact forall_uint8 (P := fun c => (QuotedPiece.text c).WellFormed → (QuotedPiece.text c).bytes.all isPlain = true)
      (by unfold QuotedPiece.WellFormed; decide +kernel) c wellFormed
  | pair c =>
    exact forall_uint8 (P := fun c => (QuotedPiece.pair c).WellFormed → (QuotedPiece.pair c).bytes.all isPlain = true)
      (by unfold QuotedPiece.WellFormed; decide +kernel) c wellFormed

theorem Assignment.WellFormed.plain {a : Assignment} (wellFormed : a.WellFormed) : a.bytes.all isPlain = true := by
  have value : a.value.bytes.all isPlain = true := by
    have value := wellFormed.value
    cases kind : a.value with
    | token word =>
      rw [kind] at value
      exact IsToken.plain value
    | quoted pieces =>
      rw [kind] at value
      have inside : (pieces.flatMap QuotedPiece.bytes).all isPlain = true := by
        rw [List.all_flatMap, List.all_eq_true]
        exact fun piece member => (value piece member).plain
      rw [ExtensionValue.bytes, List.all_append, List.all_cons, inside]
      decide
  rw [Assignment.bytes, List.all_append, List.all_cons, List.all_append, blank_plain wellFormed.before,
    blank_plain wellFormed.after, value]
  decide

/-- **An extension has no line end in it.** -/
theorem ExtensionItem.WellFormed.plain {i : ExtensionItem} (wellFormed : i.WellFormed) : i.bytes.all isPlain = true := by
  have assignment : i.assignment.all isPlain = true := by
    unfold ExtensionItem.assignment
    cases assigned : i.assigned with
    | none => rfl
    | some a => exact (wellFormed.assigned a assigned).plain
  rw [ExtensionItem.bytes, List.all_append, List.all_cons, List.all_append, List.all_append,
    blank_plain wellFormed.before, blank_plain wellFormed.after, wellFormed.name.plain, assignment]
  decide

/-- **An extension does not begin with a digit of the size.** -/
theorem ExtensionItem.WellFormed.head {i : ExtensionItem} (wellFormed : i.WellFormed) :
    ∃ c rest, i.bytes = c :: rest ∧ isHex c = false := by
  have blank := wellFormed.before
  unfold ExtensionItem.bytes
  cases before : i.before with
  | nil => exact ⟨semicolon, _, rfl, by decide⟩
  | cons b blanks =>
    rw [before] at blank
    exact ⟨b, _, rfl, forall_uint8 (P := fun c => isOws c = true → isHex c = false) (by decide +kernel) b
      (blank b List.mem_cons_self)⟩

theorem SizeLine.WellFormed.items {l : SizeLine} (wellFormed : l.WellFormed) :
    ∃ items : List ExtensionItem, (∀ i ∈ items, i.WellFormed) ∧ l.extension = extensionBytes items := by
  have accepted := wellFormed.extension
  unfold validateChunkExtensions SizeLine.bytes at accepted
  rw [List.drop_left] at accepted
  exact (scanExtensions_iff _ _ (Nat.le_refl _)).mp accepted

theorem hex_plain (c : UInt8) : isHex c = true → isPlain c = true :=
  forall_uint8 (P := fun c => isHex c = true → isPlain c = true) (by decide +kernel) c

theorem SizeLine.WellFormed.plain {l : SizeLine} (wellFormed : l.WellFormed) :
    l.bytes.all isPlain = true := by
  obtain ⟨items, all, written⟩ := wellFormed.items
  have extension : (extensionBytes items).all isPlain = true := by
    rw [extensionBytes, List.all_flatMap, List.all_eq_true]
    exact fun i member => (all i member).plain
  unfold SizeLine.bytes
  rw [List.all_append, all_plain hex_plain wellFormed.hex, written, extension]
  rfl

/-- The digits of a well-formed size line are its leading digits. -/
theorem SizeLine.WellFormed.takeWhile {l : SizeLine} (wellFormed : l.WellFormed) :
    l.bytes.takeWhile isHex = l.digits := by
  unfold SizeLine.bytes
  rw [List.takeWhile_append_of_pos (List.all_eq_true.mp wellFormed.hex)]
  obtain ⟨items, all, written⟩ := wellFormed.items
  rw [written]
  cases items with
  | nil => exact List.append_nil _
  | cons i items =>
    obtain ⟨c, rest, bytes, notHex⟩ := (all i List.mem_cons_self).head
    rw [extensionBytes, List.flatMap_cons, bytes, List.cons_append,
      List.takeWhile_cons_of_neg (by rw [notHex]; decide), List.append_nil]

/-- **The end of a well-formed size line**: too much data, or the state its size leads to. -/
theorem endSize_wellFormed {r : ChunkReading} {l : SizeLine} (wellFormed : l.WellFormed)
    (line : r.line = l.bytes) :
    r.endSize =
      if l.value > kMaxBodyBytes - r.body.length then .tooLarge
      else
        .reading
          { r with
            state := if l.value = 0 then .trailers else .chunkData
            remaining := l.value
            lineBytes := 0
            line := []
            pendingCr := false } := by
  have scanned : scanHex r.line 0 0 = some (l.value, l.digits.length) := by
    rw [line, scanHex_eq _ _ _ (Nat.zero_le _), wellFormed.takeWhile, Nat.zero_add]
    exact if_pos wellFormed.fits
  have open1 : ¬(l.digits.length = 0 ∨ validateChunkExtensions r.line l.digits.length = false) := by
    rw [line, wellFormed.extension, List.length_eq_zero_iff]
    simp [wellFormed.digits]
  unfold ChunkReading.endSize
  rw [scanned]
  exact if_neg open1

/-- **Any other size line is refused.** -/
theorem endSize_sound {r : ChunkReading} (size : r.line.length + 2 ≤ kMaxChunkLineBytes)
    (open1 : r.endSize ≠ .refused) : ∃ l : SizeLine, l.WellFormed ∧ r.line = l.bytes := by
  unfold ChunkReading.endSize at open1
  rw [scanHex_eq _ _ _ (Nat.zero_le _), Nat.zero_add] at open1
  by_cases fits : hexadecimalFrom 0 (r.line.takeWhile isHex) ≤ uint64Max
  swap
  · rw [if_neg fits] at open1
    exact absurd rfl open1
  rw [if_pos fits] at open1
  dsimp only at open1
  split at open1
  · exact absurd rfl open1
  next accepted =>
  obtain ⟨some, extension⟩ := not_or.mp accepted
  have whole : r.line.takeWhile isHex ++ r.line.dropWhile isHex = r.line :=
    List.takeWhile_append_dropWhile
  refine ⟨⟨r.line.takeWhile isHex, r.line.dropWhile isHex⟩, ⟨?_, ?_, fits, ?_, ?_⟩, whole.symm⟩
  · exact fun empty => some (by rw [show r.line.takeWhile isHex = [] from empty]; rfl)
  · exact List.all_eq_true.mpr fun c member => List.mem_takeWhile_imp member
  · unfold SizeLine.bytes
    rw [whole]
    simpa using extension
  · unfold SizeLine.bytes
    rw [whole]
    exact size

/-! ### One line of the view -/

namespace ChunkReading

/-- The counters after bytes that are not chunk data. -/
def grown (r : ChunkReading) (n : Nat) : ChunkReading :=
  { r with
    metadata := r.metadata + n
    trailer := if r.state = .trailers then r.trailer + n else r.trailer
    lineBytes := if r.state = .chunkSize then r.lineBytes + n else r.lineBytes }

theorem grown_overflow {r : ChunkReading} {m n : Nat} (le : m ≤ n) (fits : ¬(r.grown n).Overflow) :
    ¬(r.grown m).Overflow := by
  unfold Overflow grown at *
  dsimp only at *
  split_ifs at * <;> omega

/-- A line with its CR, all of it counted. -/
def lined (r : ChunkReading) (word : Bytes) : ChunkReading :=
  { r.grown (word.length + 2) with line := r.line ++ word, pendingCr := true }

def endLine (r : ChunkReading) : ChunkView :=
  if r.state = .chunkSize then r.endSize else r.endTrailer

theorem lined_cons (r : ChunkReading) (c : UInt8) (word : Bytes) :
    lined { r.counted with line := r.line ++ [c] } word = r.lined (c :: word) := by
  have line : (r.line ++ [c]) ++ word = r.line ++ c :: word := by simp
  unfold lined grown counted
  rw [line, List.length_cons, mk.injEq]
  refine ⟨rfl, rfl, rfl, rfl, rfl, rfl, ?_, ?_, ?_⟩
  · dsimp only
    omega
  · dsimp only
    split_ifs
    · omega
    · rfl
  · dsimp only
    split_ifs
    · omega
    · rfl

/-- A byte of a line, where the counters allow it. -/
theorem step_line {r : ChunkReading} (c : UInt8) (kind : r.state = .chunkSize ∨ r.state = .trailers) :
    r.step c = if (r.grown 1).Overflow then .refused else r.counted.take c := by
  unfold step
  rw [if_neg (by rcases kind with h | h <;> rw [h] <;> decide)]
  show (if (r.grown 1).Overflow then _ else _) = _
  rw [if_neg (show ¬r.state = .chunkDataCrlf by rcases kind with h | h <;> rw [h] <;> decide)]

theorem take_plain {r : ChunkReading} {c : UInt8} (settled : r.pendingCr = false)
    (plain : isPlain c = true) : r.take c = .reading { r with line := r.line ++ [c] } := by
  simp only [isPlain, Bool.and_eq_true, decide_eq_true_eq] at plain
  obtain ⟨⟨notCr, notLf⟩, notNul⟩ := plain
  unfold take
  rw [if_neg (by rw [settled]; exact Bool.false_ne_true), if_neg notCr, if_neg (by simp [notLf, notNul])]

theorem take_cr {r : ChunkReading} (settled : r.pendingCr = false) :
    r.take cr = .reading { r with pendingCr := true } := by
  unfold take
  rw [if_neg (by rw [settled]; exact Bool.false_ne_true), if_pos rfl]

/-- After a CR only an LF may come, and ends the line. -/
theorem take_pending {r : ChunkReading} (c : UInt8) (pending : r.pendingCr = true) :
    r.take c = if c = lf then r.endLine else .refused := by
  unfold take endLine
  rw [if_pos pending]

/-- The byte after a CR. -/
theorem step_pending_line {r : ChunkReading} (c : UInt8)
    (kind : r.state = .chunkSize ∨ r.state = .trailers) :
    step { r.counted with pendingCr := true } c =
      if (r.grown 2).Overflow then .refused else if c = lf then (r.lined []).endLine else .refused := by
  have two : counted { r.counted with pendingCr := true } = r.lined [] := by
    unfold lined grown counted
    rw [List.append_nil, mk.injEq]
    refine ⟨rfl, rfl, rfl, rfl, rfl, rfl, rfl, ?_, ?_⟩
    · dsimp only
      split_ifs <;> rfl
    · dsimp only
      split_ifs <;> rfl
  rw [step_line (r := { r.counted with pendingCr := true }) c kind, two, take_pending c rfl]
  show (if (counted { r.counted with pendingCr := true }).Overflow then _ else _) = _
  rw [two]
  rfl

end ChunkReading

open ChunkReading

/-- A view that has come to an end other than `400`. -/
def ChunkView.Ends : ChunkView → Prop
  | .reading _ => False
  | .refused => False
  | .tooLarge => True
  | .done _ => True

theorem ChunkView.Ends.not_refused {view : ChunkView} (ends : view.Ends) (bytes rest : Bytes) :
    ChunkView.run .refused bytes ≠ (view, rest) := by
  intro ran
  rw [chunk_run_refused] at ran
  obtain ⟨rfl, -⟩ := Prod.mk.inj ran
  exact ends

theorem ChunkView.Ends.not_reading {view : ChunkView} (ends : view.Ends) (r : ChunkReading)
    (rest : Bytes) : ChunkView.run (.reading r) [] ≠ (view, rest) := by
  intro ran
  obtain ⟨rfl, -⟩ := Prod.mk.inj ran
  exact ends

/-- **A line that fits is read to its end.** -/
theorem run_word (word rest : Bytes) : ∀ r : ChunkReading, r.pendingCr = false →
    (r.state = .chunkSize ∨ r.state = .trailers) → word.all isPlain = true →
    ¬(r.grown (word.length + 2)).Overflow →
    ChunkView.run (.reading r) (word ++ cr :: lf :: rest) = ChunkView.run (r.lined word).endLine rest := by
  induction word with
  | nil =>
    intro r settled kind _ fits
    show ChunkView.run (r.step cr) (lf :: rest) = _
    rw [step_line cr kind, if_neg (grown_overflow (by simp) fits), take_cr (r := r.counted) settled]
    show ChunkView.run (ChunkReading.step _ lf) rest = _
    rw [step_pending_line lf kind, if_neg (show ¬(r.grown 2).Overflow from fits), if_pos rfl]
  | cons c word ih =>
    intro r settled kind plain fits
    rw [List.all_cons, Bool.and_eq_true] at plain
    have later := ih { r.counted with line := r.line ++ [c] } settled kind plain.2
      (show ¬(lined { r.counted with line := r.line ++ [c] } word).Overflow by
        rw [lined_cons]
        exact fits)
    show ChunkView.run (r.step c) (word ++ cr :: lf :: rest) = _
    rw [step_line c kind, if_neg (grown_overflow (by simp) fits), take_plain (r := r.counted) settled plain.1,
      ← lined_cons]
    exact later

/-- **A view that ends begins with a line that fits.** -/
theorem run_word_sound {view : ChunkView} {rest : Bytes} (ends : view.Ends) (input : Bytes) :
    ∀ r : ChunkReading, r.pendingCr = false → (r.state = .chunkSize ∨ r.state = .trailers) →
    ChunkView.run (.reading r) input = (view, rest) →
    ∃ word more, input = word ++ cr :: lf :: more ∧ word.all isPlain = true ∧
      ¬(r.grown (word.length + 2)).Overflow ∧
      ChunkView.run (r.lined word).endLine more = (view, rest) := by
  induction input with
  | nil => exact fun r _ _ ran => absurd ran (ends.not_reading r _)
  | cons c input ih =>
    intro r settled kind ran
    change ChunkView.run (r.step c) input = _ at ran
    rw [step_line c kind] at ran
    split at ran
    · exact absurd ran (ends.not_refused _ _)
    by_cases isCr : c = cr
    · subst isCr
      rw [take_cr (r := r.counted) settled] at ran
      cases input with
      | nil => exact absurd ran (ends.not_reading _ _)
      | cons d input =>
        change ChunkView.run (ChunkReading.step _ d) input = _ at ran
        rw [step_pending_line d kind] at ran
        split at ran
        · exact absurd ran (ends.not_refused _ _)
        next fits =>
        split at ran
        · next isLf =>
          subst isLf
          exact ⟨[], input, rfl, rfl, fits, ran⟩
        · exact absurd ran (ends.not_refused _ _)
    by_cases plain : isPlain c = true
    swap
    · have bare : c = lf ∨ c = nul := by
        by_contra other
        obtain ⟨notLf, notNul⟩ := not_or.mp other
        exact plain (by simp [isPlain, isCr, notLf, notNul])
      have refused : r.counted.take c = .refused := by
        unfold ChunkReading.take
        rw [if_neg (show ¬r.counted.pendingCr = true by
          rw [show r.counted.pendingCr = false from settled]; exact Bool.false_ne_true),
          if_neg isCr, if_pos bare]
      rw [refused] at ran
      exact absurd ran (ends.not_refused _ _)
    rw [take_plain (r := r.counted) settled plain] at ran
    obtain ⟨word, more, rfl, plainWord, fits, finish⟩ :=
      ih { r.counted with line := r.line ++ [c] } settled kind ran
    have same := lined_cons r c word
    refine ⟨c :: word, more, rfl, by rw [List.all_cons, plain, plainWord]; rfl, ?_, ?_⟩
    · have fits1 : ¬(lined { r.counted with line := r.line ++ [c] } word).Overflow := fits
      rw [same] at fits1
      exact fits1
    · rw [← same]
      exact finish

end HpServer.Http
