/-
**Tables: lists whose entries are changed in place.**

* `set_same`, `set_other`, `set_eq_some` — what a change does to the entries; `append_eq_some` — what a
  new entry does.
* `insert_erase` — a key that is entered in a map and taken out again leaves it as it was; `countP_erase`,
  `countP_insert` — the number of its entries with a property.
* `countP_set_add`, `countP_append_one` — what they do to the number of entries with a property;
  `sum_set_add` — to the sum of some amount of the entries.
-/

import Mathlib.Data.List.AList
import Mathlib.Data.List.Basic
import Mathlib.Tactic

namespace Tables

variable {α : Type*} {table : List α} {i j : Nat} {old new : α}

theorem lt_of_entry (entry : table[i]? = some old) : i < table.length :=
  (List.getElem?_eq_some_iff.mp entry).1

theorem set_same (entry : table[i]? = some old) (new : α) : (table.set i new)[i]? = some new :=
  List.getElem?_set_self (lt_of_entry entry)

theorem set_other (other : i ≠ j) (new : α) : (table.set i new)[j]? = table[j]? :=
  List.getElem?_set_ne other

theorem set_entry (entry : table[i]? = some old) : table.set i old = table := by
  obtain ⟨inside, rfl⟩ := List.getElem?_eq_some_iff.mp entry
  exact List.set_getElem_self inside

theorem replicate_eq_some {n : Nat} {entry : α} (found : (List.replicate n old)[i]? = some entry) :
    entry = old := by
  rw [List.getElem?_replicate] at found
  split at found
  · exact (Option.some.inj found).symm
  · cases found

/-- An entry of a changed table is the new one or an old one. -/
theorem set_eq_some {entry : α} :
    (table.set i new)[j]? = some entry ↔
      (i = j ∧ j < table.length ∧ entry = new) ∨ (i ≠ j ∧ table[j]? = some entry) := by
  by_cases same : i = j
  · subst same
    rw [List.getElem?_set]
    by_cases inside : i < table.length
    · simp [inside, eq_comm]
    · simp [inside]
  · rw [set_other same]
    simp [same]

/-- **The count after a change**: without the old entry, with the new one. -/
theorem countP_set_add (p : α → Bool) (entry : table[i]? = some old) (new : α) :
    (table.set i new).countP p + (if p old then 1 else 0)
      = table.countP p + (if p new then 1 else 0) := by
  obtain ⟨inside, rfl⟩ := List.getElem?_eq_some_iff.mp entry
  have some : (if p table[i] then 1 else 0) ≤ table.countP p := by
    split
    · next holds => exact List.countP_pos_iff.mpr ⟨_, List.getElem_mem inside, holds⟩
    · exact Nat.zero_le _
  rw [List.countP_set inside]
  omega

/-- **The sum after a change**, likewise. -/
theorem sum_set_add (f : α → Nat) (new : α) : ∀ {table : List α} {i : Nat}, table[i]? = some old →
    ((table.set i new).map f).sum + f old = (table.map f).sum + f new := by
  intro table
  induction table with
  | nil =>
    intro i entry
    cases entry
  | cons first rest ih =>
    intro i entry
    cases i with
    | zero =>
      cases entry
      simp only [List.set_cons_zero, List.map_cons, List.sum_cons]
      omega
    | succ i =>
      have tail := ih (i := i) entry
      simp only [List.set_cons_succ, List.map_cons, List.sum_cons]
      omega

theorem countP_append_one (p : α → Bool) (table : List α) (new : α) :
    (table ++ [new]).countP p = table.countP p + (if p new then 1 else 0) := by
  rw [List.countP_append, List.countP_singleton]

/-- An entry of a table with one entry more. -/
theorem append_eq_some {entry : α} :
    (table ++ [new])[j]? = some entry ↔
      table[j]? = some entry ∨ (j = table.length ∧ entry = new) := by
  rcases Nat.lt_trichotomy j table.length with below | rfl | above
  · rw [List.getElem?_append_left below]
    refine ⟨.inl, ?_⟩
    rintro (found | ⟨rfl, -⟩)
    · exact found
    · exact absurd below (Nat.lt_irrefl _)
  · simp [eq_comm]
  · rw [List.getElem?_eq_none (by rw [List.length_append, List.length_singleton]; omega),
      List.getElem?_eq_none (Nat.le_of_lt above)]
    refine ⟨.inl, ?_⟩
    rintro (found | ⟨rfl, -⟩)
    · cases found
    · exact absurd above (Nat.lt_irrefl _)

/-- **The entry at a place exists and has a property.** -/
def Entry (table : List α) (i : Nat) (P : α → Prop) : Prop := ∃ entry, table[i]? = some entry ∧ P entry

theorem entry_iff (found : table[i]? = some old) (P : α → Prop) : Entry table i P ↔ P old := by
  refine ⟨?_, fun holds => ⟨old, found, holds⟩⟩
  rintro ⟨entry, same, holds⟩
  rw [found] at same
  rwa [Option.some.inj same]

theorem Entry.imp {P Q : α → Prop} (entry : Entry table i P) (weaken : ∀ a, P a → Q a) :
    Entry table i Q := by
  obtain ⟨a, found, holds⟩ := entry
  exact ⟨a, found, weaken a holds⟩

/-- The entries after a change. -/
theorem entry_set (found : table[i]? = some old) (new : α) (j : Nat) (P : α → Prop) :
    Entry (table.set i new) j P ↔ if j = i then P new else Entry table j P := by
  unfold Entry
  by_cases same : j = i
  · subst same
    rw [if_pos rfl, set_same found]
    simp
  · rw [if_neg same, set_other (Ne.symm same)]

/-- The entries with one entry more. -/
theorem entry_append (table : List α) (new : α) (j : Nat) (P : α → Prop) :
    Entry (table ++ [new]) j P ↔ if j = table.length then P new else Entry table j P := by
  unfold Entry
  by_cases same : j = table.length
  · subst same
    rw [if_pos rfl]
    simp
  · rw [if_neg same]
    refine exists_congr fun entry => and_congr_left fun _ => ?_
    rw [append_eq_some]
    simp [same]

/-- A property no entry has is counted zero times. -/
theorem countP_zero {p : α → Bool} (free : ∀ (i : Nat), ¬Entry table i fun entry => p entry = true) :
    table.countP p = 0 := by
  refine List.countP_eq_zero.mpr fun entry member holds => ?_
  obtain ⟨i, found⟩ := List.mem_iff_getElem?.mp member
  exact free i ⟨entry, found, holds⟩

/-- A key that is entered and taken out again leaves the map as it was. -/
theorem insert_erase {κ ν : Type*} [DecidableEq κ] {map : AList fun _ : κ => ν} {key : κ} {value : ν}
    (fresh : map.lookup key = none) : (map.insert key value).erase key = map := by
  apply AList.ext
  show List.kerase key (map.insert key value).entries = map.entries
  rw [AList.entries_insert_of_notMem (AList.lookup_eq_none.mp fresh)]
  exact List.kerase_cons_eq rfl

theorem erase_absent {κ ν : Type*} [DecidableEq κ] {map : AList fun _ : κ => ν} {key : κ}
    (absent : map.lookup key = none) : map.erase key = map := by
  apply AList.ext
  exact List.kerase_of_notMem_keys (AList.lookup_eq_none.mp absent)

section Maps

variable {κ ν : Type*} [DecidableEq κ] {map : AList fun _ : κ => ν} {key : κ} {value : ν}

/-- **The count after an entry is taken out of a map.** -/
theorem countP_erase (p : (_ : κ) × ν → Bool) (found : map.lookup key = some value) :
    (map.erase key).entries.countP p + (if p ⟨key, value⟩ then 1 else 0) = map.entries.countP p := by
  have member : key ∈ map.entries.keys := AList.lookup_isSome.mp (by rw [found]; rfl)
  obtain ⟨other, before, behind, -, split, erased⟩ := List.exists_of_kerase member
  have same : other = value := by
    have entry : Sigma.mk key other ∈ map.entries := by
      rw [split]
      exact List.mem_append_right _ List.mem_cons_self
    exact Option.some.inj ((AList.mem_lookup_iff.mpr entry).symm.trans found)
  subst same
  show (List.kerase key map.entries).countP p + _ = _
  rw [erased, split, List.countP_append, List.countP_append, List.countP_cons]
  omega

theorem countP_insert (p : (_ : κ) × ν → Bool) (map : AList fun _ : κ => ν) (key : κ) (value : ν) :
    (map.insert key value).entries.countP p
      = (map.erase key).entries.countP p + (if p ⟨key, value⟩ then 1 else 0) := by
  rw [AList.entries_insert, List.countP_cons]
  rfl

end Maps

end Tables
