/-
**Numbers that are given out once.**

A counter gives out its value and moves on; behind its last value it stands at zero and gives out nothing more.

* `allocate` — the next number; `Given` — what was given out is positive, increasing and below the counter.
* `Given.allocate` — **a number that is given out is new**.
-/

import Mathlib.Data.List.Pairwise
import Mathlib.Tactic

namespace Numbering

/-- The next number, and the counter behind it. -/
def allocate (last next : Nat) : Option (Nat × Nat) :=
  if next = 0 then none else some (next, if next = last then 0 else next + 1)

structure Given (next : Nat) (issued : List Nat) : Prop where
  increasing : issued.Pairwise (· < ·)
  positive : ∀ number ∈ issued, 0 < number
  below : ∀ number ∈ issued, next = 0 ∨ number < next

theorem given_nil (next : Nat) : Given next [] :=
  ⟨.nil, fun _ member => absurd member List.not_mem_nil, fun _ member => absurd member List.not_mem_nil⟩

variable {last next number later : Nat} {issued : List Nat}

theorem Given.nodup (given : Given next issued) : issued.Nodup := given.increasing.imp Nat.ne_of_lt

/-- **A number that is given out is new.** -/
theorem Given.allocate (given : Given next issued) (allocated : allocate last next = some (number, later)) :
    Given later (issued ++ [number]) ∧ 0 < number ∧ number ∉ issued := by
  unfold Numbering.allocate at allocated
  split at allocated
  case isTrue => cases allocated
  case isFalse left =>
    obtain ⟨rfl, rfl⟩ : next = number ∧ (if next = last then 0 else next + 1) = later := by
      simpa using allocated
    have before : ∀ used ∈ issued, used < next := fun used member => (given.below used member).resolve_left left
    refine ⟨⟨?_, ?_, ?_⟩, Nat.pos_of_ne_zero left, fun member => Nat.lt_irrefl _ (before _ member)⟩
    · refine List.pairwise_append.mpr ⟨given.increasing, List.pairwise_singleton _ _, ?_⟩
      intro used member new same
      rw [List.mem_singleton.mp same]
      exact before used member
    · intro used member
      rcases List.mem_append.mp member with old | new
      · exact given.positive used old
      · rw [List.mem_singleton.mp new]
        exact Nat.pos_of_ne_zero left
    · intro used member
      split
      · exact .inl rfl
      · rcases List.mem_append.mp member with old | new
        · exact .inr (Nat.lt_succ_of_lt (before used old))
        · rw [List.mem_singleton.mp new]
          exact .inr (Nat.lt_succ_self _)

/-- No more numbers are given out than there are. -/
theorem Given.length_le (given : Given next issued) (bounded : ∀ number ∈ issued, number ≤ last) :
    issued.length ≤ last := by
  have inside : issued.toFinset ⊆ Finset.Icc 1 last := by
    intro number member
    have issued := List.mem_toFinset.mp member
    exact Finset.mem_Icc.mpr ⟨given.positive number issued, bounded number issued⟩
  have few := Finset.card_le_card inside
  rwa [List.toFinset_card_of_nodup given.nodup, Nat.card_Icc, Nat.add_sub_cancel] at few

/-- What is given out later is above what was given out before. -/
theorem Given.above {earlier : List Nat} (given : Given next (earlier ++ issued)) {first second : Nat}
    (before : first ∈ earlier) (after : second ∈ issued) : first < second :=
  (List.pairwise_append.mp given.increasing).2.2 first before second after

end Numbering
