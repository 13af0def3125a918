/-
**Lists without their blank ends.**

* `Blank`, `Trimmed` — all of a list, or neither of its ends, satisfies a predicate.
* `trim_eq_iff` — **trimming finds the one part with no blank end that has only blanks around it.**
-/

import Mathlib.Data.List.DropRight
import Mathlib.Tactic

namespace Trimming

variable {α : Type*} (p : α → Bool)

def Blank (l : List α) : Prop := ∀ a ∈ l, p a = true

/-- Neither end is blank. -/
structure Trimmed (l : List α) : Prop where
  first : ∀ a ∈ l.head?, p a = false
  last : ∀ a ∈ l.getLast?, p a = false

def trim (l : List α) : List α := (l.dropWhile p).rdropWhile p

variable {p} {l before behind : List α}

theorem blank_nil : Blank p [] := fun _ none => absurd none List.not_mem_nil

theorem Blank.append (first : Blank p before) (second : Blank p behind) : Blank p (before ++ behind) :=
  fun a inside => (List.mem_append.mp inside).elim (first a) (second a)

theorem trimmed_nil : Trimmed p [] where
  first := by simp
  last := by simp

/-- **A list whose last element is no blank has no blanks at its end.** -/
theorem Trimmed.eq_nil (whole : Trimmed p (l ++ behind)) (blank : Blank p behind) : behind = [] := by
  rcases List.eq_nil_or_concat behind with rfl | ⟨front, last, rfl⟩
  · rfl
  · have clear := whole.last last (by simp)
    rw [blank last (by simp)] at clear
    cases clear

theorem trim_padded (first : Blank p before) (trimmed : Trimmed p l) (second : Blank p behind) :
    trim p (before ++ l ++ behind) = l := by
  unfold trim
  rw [List.append_assoc, List.dropWhile_append_of_pos first]
  cases l with
  | nil =>
    rw [List.nil_append, List.dropWhile_eq_nil_iff.mpr second]
    rfl
  | cons a rest =>
    have start : p a = false := trimmed.first a rfl
    rw [List.cons_append, List.dropWhile_cons_of_neg (by rw [start]; decide), ← List.cons_append]
    unfold List.rdropWhile
    rw [List.reverse_append, List.dropWhile_append_of_pos fun b inside => second b (List.mem_reverse.mp inside)]
    obtain ⟨front, last, whole⟩ := (List.eq_nil_or_concat (a :: rest)).resolve_left (List.cons_ne_nil _ _)
    rw [whole] at trimmed ⊢
    have stop : p last = false := trimmed.last last (by simp)
    rw [List.concat_eq_append, List.reverse_concat, List.dropWhile_cons_of_neg (by rw [stop]; decide),
      List.reverse_cons, List.reverse_reverse]

theorem trim_spec (p : α → Bool) (l : List α) :
    ∃ before behind, Blank p before ∧ Blank p behind ∧ l = before ++ trim p l ++ behind ∧ Trimmed p (trim p l) := by
  have whole : l.takeWhile p ++ (trim p l ++ (l.dropWhile p).rtakeWhile p) = l := by
    unfold trim
    rw [List.rdropWhile_append_rtakeWhile, List.takeWhile_append_dropWhile]
  refine ⟨l.takeWhile p, (l.dropWhile p).rtakeWhile p, fun a inside => List.mem_takeWhile_imp inside,
    fun a inside => List.mem_rtakeWhile_imp inside, ?_, ?_, ?_⟩
  · rw [List.append_assoc, whole]
  · -- What is left after both ends begins as after the first.
    intro a first
    obtain ⟨rest, same⟩ : trim p l <+: l.dropWhile p := List.rdropWhile_prefix p _
    have start : (l.dropWhile p).head? = some a := by
      rw [← same, List.head?_append_of_ne_nil _ (List.ne_nil_of_mem (List.mem_of_mem_head? first))]
      exact first
    have clear := List.head?_dropWhile_not p l
    rw [start] at clear
    exact clear
  · intro a last
    have some : trim p l ≠ [] := List.ne_nil_of_mem (List.mem_of_getLast? last)
    have clear : ¬ p ((trim p l).getLast some) = true := List.rdropWhile_last_not p _ some
    rw [List.getLast_of_mem_getLast? last] at clear
    exact Bool.not_eq_true _ ▸ clear

theorem trim_eq_iff {m : List α} :
    trim p l = m ↔ Trimmed p m ∧ ∃ before behind, Blank p before ∧ Blank p behind ∧ l = before ++ m ++ behind := by
  constructor
  · rintro rfl
    obtain ⟨before, behind, first, second, whole, trimmed⟩ := trim_spec p l
    exact ⟨trimmed, before, behind, first, second, whole⟩
  · rintro ⟨trimmed, before, behind, first, second, rfl⟩
    exact trim_padded first trimmed second

end Trimming
