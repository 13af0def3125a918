/-
**Machines that report what they do.**

A machine takes one action at a time and reports events. Any interleaving of concurrent operations on a
shared state is a list of actions.

* `Machine.run` — the state after a list of actions and everything reported on the way.
* `Machine.run_history` — **what one step preserves of state and history holds along every run**;
  `Machine.run_invariant` is the case without a history.
* `Machine.run_pairwise` — a relation between the states before and after one step, closed under
  composition, relates any two states of a run.
-/

import Mathlib.Logic.Basic
import Mathlib.Data.List.Basic

namespace Machines

structure Machine (State Action Event : Type*) where
  step : State → Action → State × List Event

namespace Machine

variable {State Action Event : Type*} (m : Machine State Action Event)

/-- The state after a list of actions, and the events in their order. -/
def run : State → List Action → State × List Event
  | s, [] => (s, [])
  | s, a :: rest =>
    let next := m.step s a
    let later := run next.1 rest
    (later.1, next.2 ++ later.2)

@[simp] theorem run_nil (s : State) : m.run s [] = (s, []) := rfl

theorem run_cons (s : State) (a : Action) (rest : List Action) :
    m.run s (a :: rest)
      = ((m.run (m.step s a).1 rest).1, (m.step s a).2 ++ (m.run (m.step s a).1 rest).2) := rfl

theorem run_append (first second : List Action) : ∀ s : State,
    m.run s (first ++ second)
      = ((m.run (m.run s first).1 second).1, (m.run s first).2 ++ (m.run (m.run s first).1 second).2) := by
  induction first with
  | nil => exact fun s => rfl
  | cons a first ih =>
    intro s
    rw [List.cons_append, run_cons, run_cons, ih]
    simp only [List.append_assoc]

variable {m}

/-- **A property of state and history that every step preserves holds along every run.** -/
theorem run_history {P : State → List Event → Prop}
    (keeps : ∀ s log a, P s log → P (m.step s a).1 (log ++ (m.step s a).2))
    (actions : List Action) : ∀ s log, P s log → P (m.run s actions).1 (log ++ (m.run s actions).2) := by
  induction actions with
  | nil =>
    intro s log holds
    rw [run_nil, List.append_nil]
    exact holds
  | cons a rest ih =>
    intro s log holds
    rw [run_cons, ← List.append_assoc]
    exact ih _ _ (keeps s log a holds)

/-- **What every step preserves holds along every run.** -/
theorem run_invariant {P : State → Prop} (keeps : ∀ s a, P s → P (m.step s a).1)
    (actions : List Action) {s : State} (holds : P s) : P (m.run s actions).1 :=
  run_history (P := fun s _ => P s) (fun s _ a => keeps s a) actions s [] holds

/-- **What every step relates, every run relates**, for a relation that composes. -/
theorem run_pairwise {P : State → Prop} {R : State → State → Prop}
    (keeps : ∀ s a, P s → P (m.step s a).1) (refl : ∀ s, R s s)
    (trans : ∀ {s t u}, R s t → R t u → R s u) (related : ∀ s a, P s → R s (m.step s a).1)
    (actions : List Action) : ∀ s, P s → R s (m.run s actions).1 := by
  induction actions with
  | nil => exact fun s _ => refl s
  | cons a rest ih => exact fun s holds => trans (related s a holds) (ih _ (keeps s a holds))

end Machine

end Machines
