/-
**Lists threaded through the objects they list.**

An object holds a pointer to the next one, and a list is a pointer to its first object. `links` gives the pointer
held by an object, and nothing for a pointer to no object.

* `Chain links start keys` — from `start` one comes to `keys`, in this order, and to the end.
* `Chain.nodup` — **a list that ends never comes to an object twice**.
* `Chain.push`, `Chain.pop` — what the two operations on its head make of a list; `Chain.congr` — objects that are
  not in the list do not matter.
-/

import Mathlib.Data.List.Nodup
import Mathlib.Logic.Function.Basic

namespace Intrusive

variable {κ : Type*}

inductive Chain (links : κ → Option (Option κ)) : Option κ → List κ → Prop
  | nil : Chain links none []
  | cons {key : κ} {next : Option κ} {keys : List κ} (found : links key = some next) (later : Chain links next keys) :
      Chain links (some key) (key :: keys)

variable {links : κ → Option (Option κ)} {start : Option κ} {keys : List κ}

/-- A pointer leads to one list only. -/
theorem Chain.unique (chain : Chain links start keys) {other : List κ} (second : Chain links start other) :
    keys = other := by
  induction chain generalizing other with
  | nil =>
    cases second
    rfl
  | @cons key next keys found later ih =>
    cases second with
    | cons found' later' =>
      obtain rfl : next = _ := Option.some.inj (found.symm.trans found')
      rw [ih later']

/-- From each of its objects on, a list is a list. -/
theorem Chain.suffix (chain : Chain links start keys) :
    ∀ key ∈ keys, ∃ rest, Chain links (some key) (key :: rest) ∧ rest.length < keys.length := by
  induction chain with
  | nil => exact fun _ member => absurd member List.not_mem_nil
  | @cons key next keys found later ih =>
    intro other member
    rcases List.mem_cons.mp member with rfl | after
    · exact ⟨keys, .cons found later, Nat.lt_succ_self _⟩
    · obtain ⟨rest, suffix, shorter⟩ := ih other after
      exact ⟨rest, suffix, Nat.lt_succ_of_lt shorter⟩

/-- **A list that ends never comes to an object twice.** -/
theorem Chain.nodup (chain : Chain links start keys) : keys.Nodup := by
  induction chain with
  | nil => exact List.nodup_nil
  | @cons key next keys found later ih =>
    refine List.nodup_cons.mpr ⟨fun member => ?_, ih⟩
    -- the list from the second place on would be the whole list
    obtain ⟨rest, suffix, shorter⟩ := later.suffix key member
    have same := (Chain.cons found later).unique suffix
    rw [(List.cons.inj same).2] at shorter
    exact Nat.lt_irrefl _ shorter

/-- A list depends only on the objects in it. -/
theorem Chain.congr {other : κ → Option (Option κ)} (chain : Chain links start keys)
    (same : ∀ key ∈ keys, other key = links key) : Chain other start keys := by
  induction chain with
  | nil => exact .nil
  | @cons key next keys found later ih =>
    exact .cons ((same key List.mem_cons_self).trans found)
      (ih fun key member => same key (List.mem_cons_of_mem _ member))

variable [DecidableEq κ]

/-- An object of no list is put before the others. -/
theorem Chain.push (chain : Chain links start keys) {key : κ} (fresh : key ∉ keys) :
    Chain (Function.update links key (some start)) (some key) (key :: keys) := by
  refine .cons (Function.update_self _ _ _) (chain.congr fun other member => ?_)
  exact Function.update_of_ne (ne_of_mem_of_not_mem member fresh) _ _

/-- **The first object is taken off the list**, whatever becomes of it. -/
theorem Chain.pop {key : κ} (chain : Chain links (some key) keys) :
    ∃ next rest, keys = key :: rest ∧ links key = some next ∧ key ∉ rest
      ∧ ∀ held, Chain (Function.update links key held) next rest := by
  have once := chain.nodup
  cases chain with
  | @cons _ next rest found later =>
    have fresh := (List.nodup_cons.mp once).1
    refine ⟨next, rest, rfl, found, fresh, fun held => later.congr fun other member => ?_⟩
    exact Function.update_of_ne (ne_of_mem_of_not_mem member fresh) _ _

end Intrusive
