/-
**Computations on 64-bit words that remember their arithmetic.**

Additions and subtractions are those of an unsigned machine word, so they wrap. A computation carries the
list of the operations it made, so "nothing wraps" is a statement about that list and not a second version
of the computation.

* `addSize`, `subSize` — the two operations; `addSize_value`, `subSize_value` — **without a wrap they are
  those of the natural numbers**.
* `Sized.Exact` — no operation of the computation wraps; `exact_bind` composes it.
* `Sized.Yields` — the value of a computation that does not wrap, with a rule for each operation.
-/

import Mathlib.Logic.Basic
import Mathlib.Tactic

namespace Words

/-- The number of words. -/
def modulus : Nat := 2 ^ 64

/-- An addition or subtraction, with its operands. -/
inductive SizeOp where
  | add (a b : Nat)
  | sub (a b : Nat)
  deriving DecidableEq, Repr

/-- The operation does not wrap. -/
def SizeOp.Exact : SizeOp → Prop
  | .add a b => a + b < modulus
  | .sub a b => b ≤ a

/-- A value, and the operations made on the way to it. -/
structure Sized (α : Type) where
  value : α
  ops : List SizeOp := []

namespace Sized

variable {α β : Type}

instance : Monad Sized where
  pure value := ⟨value, []⟩
  bind first next := ⟨(next first.value).value, first.ops ++ (next first.value).ops⟩

/-- No operation of the computation wraps. -/
def Exact (x : Sized α) : Prop := ∀ op ∈ x.ops, op.Exact

@[simp] theorem value_pure (value : α) : (pure value : Sized α).value = value := rfl

@[simp] theorem value_bind (x : Sized α) (f : α → Sized β) :
    (x >>= f).value = (f x.value).value := rfl

@[simp] theorem value_ite (condition : Prop) [Decidable condition] (yes no : Sized α) :
    (if condition then yes else no).value = if condition then yes.value else no.value := by
  split <;> rfl

@[simp] theorem exact_pure (value : α) : (pure value : Sized α).Exact :=
  fun _ member => absurd member List.not_mem_nil

@[simp] theorem exact_bind (x : Sized α) (f : α → Sized β) :
    (x >>= f).Exact ↔ x.Exact ∧ (f x.value).Exact := by
  show (∀ op ∈ x.ops ++ (f x.value).ops, op.Exact) ↔ _
  simp only [List.mem_append, or_imp, forall_and]
  exact Iff.rfl

theorem exact_ite (condition : Prop) [Decidable condition] (yes no : Sized α) :
    (if condition then yes else no).Exact
      ↔ (condition → yes.Exact) ∧ (¬ condition → no.Exact) := by
  by_cases holds : condition
  · simp [holds]
  · simp [holds]

end Sized

def addSize (a b : Nat) : Sized Nat := ⟨(a + b) % modulus, [.add a b]⟩

def subSize (a b : Nat) : Sized Nat := ⟨(a + (modulus - b)) % modulus, [.sub a b]⟩

@[simp] theorem exact_addSize (a b : Nat) : (addSize a b).Exact ↔ a + b < modulus := by
  simp [Sized.Exact, addSize, SizeOp.Exact]

@[simp] theorem exact_subSize (a b : Nat) : (subSize a b).Exact ↔ b ≤ a := by
  simp [Sized.Exact, subSize, SizeOp.Exact]

theorem addSize_value {a b : Nat} (fits : a + b < modulus) : (addSize a b).value = a + b :=
  Nat.mod_eq_of_lt fits

theorem subSize_value {a b : Nat} (word : a < modulus) (le : b ≤ a) : (subSize a b).value = a - b := by
  show (a + (modulus - b)) % modulus = a - b
  have split : a + (modulus - b) = (a - b) + modulus := by omega
  rw [split, Nat.add_mod_right, Nat.mod_eq_of_lt (by omega)]

/-! ### Computations without a wrap -/

namespace Sized

variable {α β : Type}

/-- **The computation gives the value and does not wrap.** -/
def Yields (x : Sized α) (value : α) : Prop := x.Exact ∧ x.value = value

theorem yields_pure (value : α) : Yields (pure value) value := ⟨exact_pure value, rfl⟩

theorem Yields.bind {x : Sized α} {f : α → Sized β} {value : α} {result : β} (first : x.Yields value)
    (next : (f value).Yields result) : (x >>= f).Yields result := by
  obtain ⟨exact, rfl⟩ := first
  exact ⟨(exact_bind x f).mpr ⟨exact, next.1⟩, next.2⟩

section Conditional

variable {condition : Prop} [Decidable condition] {yes no : Sized α} {value : α}

theorem Yields.pos (first : yes.Yields value) (holds : condition) : (if condition then yes else no).Yields value := by
  rwa [if_pos holds]

theorem Yields.neg (second : no.Yields value) (fails : ¬ condition) : (if condition then yes else no).Yields value := by
  rwa [if_neg fails]

end Conditional

theorem yields_add {a b : Nat} (fits : a + b < modulus) : Yields (addSize a b) (a + b) :=
  ⟨(exact_addSize a b).mpr fits, addSize_value fits⟩

theorem yields_sub {a b : Nat} (word : a < modulus) (le : b ≤ a) : Yields (subSize a b) (a - b) :=
  ⟨(exact_subSize a b).mpr le, subSize_value word le⟩

end Sized

end Words
