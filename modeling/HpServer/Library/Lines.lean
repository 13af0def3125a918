/-
**Texts of lines, and the empty line that ends them.**

A line ends in the two marks `r`, `n`. A block of lines ends in an empty line; what is behind it is read as
it is.

* `findBlank` — the text before the first empty line and the text behind it; `splitLines` — the lines of a
  text.
* `cutBlock_render` — **a block of lines is read back as it was written**; `cutBlock_text` — and whatever is read so
  was written so.
-/

import Mathlib.Tactic

namespace Lines

variable {α : Type}

/-- The lines, each with its end, and an empty line. -/
def render (r n : α) : List (List α) → List α
  | [] => [r, n]
  | line :: lines => line ++ r :: n :: render r n lines

/-- A line that is not empty and has no mark. -/
structure IsLine (r n : α) (line : List α) : Prop where
  nonempty : line ≠ []
  noReturn : r ∉ line
  noFeed : n ∉ line

section

variable {r n : α}

theorem render_append (lines more : List (List α)) :
    render r n (lines ++ more) = (lines.map (· ++ [r, n])).flatten ++ render r n more := by
  induction lines with
  | nil => rfl
  | cons line lines ih => simp [render, ih]

/-- **A line put before the empty line of a block.** -/
theorem render_insert (lines : List (List α)) (line : List α) :
    (render r n lines).take ((render r n lines).length - 2) ++ (line ++ [r, n])
        ++ (render r n lines).drop ((render r n lines).length - 2)
      = render r n (lines ++ [line]) := by
  have split := render_append (r := r) (n := n) lines []
  have more := render_append (r := r) (n := n) lines [line]
  rw [List.append_nil] at split
  rw [split, more, List.length_append]
  show List.take (_ + 2 - 2) _ ++ _ ++ List.drop (_ + 2 - 2) _ = _
  rw [Nat.add_sub_cancel, List.take_left, List.drop_left]
  simp [render]

end

variable [DecidableEq α]

/-- The text up to the first `r n r n`, and what is behind it. -/
def findBlank (r n : α) : List α → Option (List α × List α)
  | [] => none
  | a :: rest =>
    if [r, n, r, n].isPrefixOf (a :: rest) then some ([], rest.drop 3)
    else (findBlank r n rest).map fun cut => (a :: cut.1, cut.2)

/-- A letter put before the first line. -/
def consFirst (a : α) : List (List α) → List (List α)
  | [] => [[a]]
  | line :: lines => (a :: line) :: lines

/-- A text cut at every `r n`. -/
def splitLines (r n : α) : List α → List (List α)
  | [] => [[]]
  | [a] => [[a]]
  | a :: b :: rest =>
    if a = r ∧ b = n then [] :: splitLines r n rest else consFirst a (splitLines r n (b :: rest))

/-- The lines before the first empty line, and what is behind it. -/
def cutBlock (r n : α) (value : List α) : Option (List (List α) × List α) :=
  (findBlank r n value).map fun cut => (splitLines r n cut.1, cut.2)

variable {r n : α}

/-! ### The empty line -/

theorem findBlank_cons {a : α} {rest : List α} (other : ¬ [r, n, r, n].isPrefixOf (a :: rest)) :
    findBlank r n (a :: rest) = (findBlank r n rest).map fun cut => (a :: cut.1, cut.2) :=
  if_neg other

/-- No empty line begins inside a line. -/
theorem findBlank_line {line : List α} (noReturn : r ∉ line) (rest : List α) :
    findBlank r n (line ++ rest) = (findBlank r n rest).map fun cut => (line ++ cut.1, cut.2) := by
  induction line with
  | nil => simp
  | cons a line ih =>
    have first : r ≠ a := fun same => noReturn (same ▸ List.mem_cons_self)
    rw [List.cons_append, findBlank_cons (by simp [first]), ih fun member => noReturn (List.mem_cons_of_mem _ member),
      Option.map_map]
    rfl

/-- A line end before a line is no empty line. -/
theorem findBlank_end (distinct : r ≠ n) {a : α} {rest : List α} (more : r ≠ a) :
    findBlank r n (r :: n :: a :: rest)
      = (findBlank r n (a :: rest)).map fun cut => (r :: n :: cut.1, cut.2) := by
  rw [findBlank_cons (by simp [more]), findBlank_cons (by simp [distinct]), Option.map_map]
  rfl

theorem findBlank_render (distinct : r ≠ n) {line : List α} {lines : List (List α)}
    (good : ∀ l ∈ line :: lines, IsLine r n l) (payload : List α) :
    findBlank r n (render r n (line :: lines) ++ payload)
      = some ([r, n].intercalate (line :: lines), payload) := by
  induction lines generalizing line with
  | nil =>
    have first := good line List.mem_cons_self
    show findBlank r n ((line ++ [r, n, r, n]) ++ payload) = _
    rw [List.append_assoc, findBlank_line first.noReturn]
    simp [findBlank, List.intercalate]
  | cons next lines ih =>
    have first := good line List.mem_cons_self
    obtain ⟨a, next, rfl⟩ := List.exists_cons_of_ne_nil (good next (by simp)).nonempty
    have more : r ≠ a := fun same => (good (a :: next) (by simp)).noReturn (by simp [same])
    have rest := ih fun l member => good l (List.mem_cons_of_mem _ member)
    show findBlank r n ((line ++ r :: n :: render r n ((a :: next) :: lines)) ++ payload) = _
    rw [List.append_assoc, findBlank_line first.noReturn]
    show Option.map _ (findBlank r n (r :: n :: a :: (next ++ r :: n :: render r n lines ++ payload))) = _
    change findBlank r n (a :: (next ++ r :: n :: render r n lines ++ payload)) = _ at rest
    rw [findBlank_end distinct more, rest]
    simp [List.intercalate, List.intersperse]

/-! ### The lines of a text -/

theorem splitLines_line {line : List α} (noReturn : r ∉ line) : splitLines r n line = [line] := by
  induction line with
  | nil => rfl
  | cons a line ih =>
    have rest := ih fun member => noReturn (List.mem_cons_of_mem _ member)
    cases line with
    | nil => rfl
    | cons b line =>
      have first : a ≠ r := fun same => noReturn (same ▸ List.mem_cons_self)
      rw [splitLines, if_neg (fun both => first both.1), rest]
      rfl

theorem splitLines_end {line rest : List α} (noReturn : r ∉ line) :
    splitLines r n (line ++ r :: n :: rest) = line :: splitLines r n rest := by
  induction line with
  | nil => exact if_pos ⟨rfl, rfl⟩
  | cons a line ih =>
    have first : a ≠ r := fun same => noReturn (same ▸ List.mem_cons_self)
    have tail := ih fun member => noReturn (List.mem_cons_of_mem _ member)
    have step : ∀ {value : List α}, value ≠ [] → splitLines r n (a :: value)
        = consFirst a (splitLines r n value) := by
      intro value nonempty
      obtain ⟨b, value, rfl⟩ := List.exists_cons_of_ne_nil nonempty
      exact if_neg fun both => first both.1
    rw [List.cons_append, step (by simp), tail]
    rfl

theorem splitLines_intercalate {line : List α} {lines : List (List α)}
    (good : ∀ l ∈ line :: lines, IsLine r n l) :
    splitLines r n ([r, n].intercalate (line :: lines)) = line :: lines := by
  induction lines generalizing line with
  | nil => simpa [List.intercalate] using splitLines_line (good line List.mem_cons_self).noReturn
  | cons next lines ih =>
    have rest := ih fun l member => good l (List.mem_cons_of_mem _ member)
    have joined : [r, n].intercalate (line :: next :: lines)
        = line ++ r :: n :: [r, n].intercalate (next :: lines) := by
      simp [List.intercalate, List.intersperse]
    rw [joined, splitLines_end (good line List.mem_cons_self).noReturn, rest]

/-- **A block of lines is read back as it was written**, with what follows it. -/
theorem cutBlock_render (distinct : r ≠ n) {line : List α} {lines : List (List α)}
    (good : ∀ l ∈ line :: lines, IsLine r n l) (payload : List α) :
    cutBlock r n (render r n (line :: lines) ++ payload) = some (line :: lines, payload) := by
  rw [cutBlock, findBlank_render distinct good]
  simp only [Option.map_some, splitLines_intercalate good]

/-! ### What was cut -/

theorem findBlank_text {value : List α} : ∀ {before behind : List α}, findBlank r n value = some (before, behind) →
    value = before ++ r :: n :: r :: n :: behind := by
  induction value with
  | nil => exact fun found => nomatch found
  | cons a rest ih =>
    intro before behind found
    unfold findBlank at found
    split at found
    case isTrue starts =>
      cases found
      obtain ⟨behind, same⟩ := List.isPrefixOf_iff_prefix.mp starts
      obtain ⟨rfl, rfl⟩ := List.cons.inj same
      rfl
    case isFalse =>
      obtain ⟨⟨earlier, later⟩, inner, same⟩ := Option.map_eq_some_iff.mp found
      cases same
      rw [ih inner]
      rfl

theorem splitLines_cons (r n : α) (value : List α) : ∃ line lines, splitLines r n value = line :: lines := by
  induction value using splitLines.induct r n with
  | case1 => exact ⟨[], [], rfl⟩
  | case2 a => exact ⟨[a], [], rfl⟩
  | case3 a b rest marks ih => exact ⟨[], _, if_pos marks⟩
  | case4 a b rest marks ih =>
    obtain ⟨line, lines, same⟩ := ih
    refine ⟨a :: line, lines, ?_⟩
    rw [splitLines, if_neg marks, same]
    rfl

theorem splitLines_join (r n : α) (value : List α) : [r, n].intercalate (splitLines r n value) = value := by
  induction value using splitLines.induct r n with
  | case1 => rfl
  | case2 a => simp [splitLines, List.intercalate]
  | case3 a b rest marks ih =>
    obtain ⟨rfl, rfl⟩ := marks
    obtain ⟨line, lines, same⟩ := splitLines_cons a b rest
    rw [same] at ih
    rw [splitLines, if_pos ⟨rfl, rfl⟩, same]
    conv_rhs => rw [← ih]
    simp [List.intercalate, List.intersperse]
  | case4 a b rest marks ih =>
    obtain ⟨line, lines, same⟩ := splitLines_cons r n (b :: rest)
    rw [same] at ih
    rw [splitLines, if_neg marks, same]
    conv_rhs => rw [← ih]
    cases lines with
    | nil => simp [consFirst, List.intercalate]
    | cons next lines => simp [consFirst, List.intercalate, List.intersperse]

/-- **What is cut into lines and a rest is these lines and this rest.** -/
theorem cutBlock_text {value : List α} {lines : List (List α)} {rest : List α}
    (cut : cutBlock r n value = some (lines, rest)) :
    value = [r, n].intercalate lines ++ r :: n :: r :: n :: rest := by
  obtain ⟨⟨before, behind⟩, found, same⟩ := Option.map_eq_some_iff.mp cut
  cases same
  rw [splitLines_join]
  exact findBlank_text found

end Lines
