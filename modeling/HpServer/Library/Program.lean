/-
**Programs that may fail half-way.**

A program reads and changes a state and ends with a value or with a failure; what it changed before the
failure stays changed. That is `EStateM` without backtracking, which is what a member function that may
throw is.

* `wp` — what must hold before a program for one thing to hold after a normal end and another after a
  failure. It is computed: `wp_bind`, `wp_tryCatch`, `wp_get`, … are equations, and together they are the
  simp set that runs a program symbolically.
* `wp_mono`, `wp_and` — a specification proved once is used at any weaker one.
* `Moves` — **what a program may change**: a reflexive and transitive relation between the states before and
  after, with a rule for every way of building a program.
-/

import Mathlib.Order.Defs.Unbundled

namespace Programs

variable {ε σ α β : Type}

/-- What is bound to a result that was made was made. -/
theorem bind_ok_iff {x : Except ε α} {f : α → Except ε β} {result : β} :
    x >>= f = .ok result ↔ ∃ value, x = .ok value ∧ f value = .ok result := by
  cases x with
  | ok value =>
    refine ⟨fun made => ⟨value, rfl, made⟩, ?_⟩
    rintro ⟨_, same, made⟩
    cases same
    exact made
  | error e => exact ⟨nofun, nofun⟩

/-- A step that is skipped unless the condition holds. -/
def whenever (condition : Bool) (x : EStateM ε σ Unit) : EStateM ε σ Unit :=
  if condition then x else pure ()

/-- What must hold before `x` so that `normal` holds when it returns and `failure` when it throws. -/
def wp (x : EStateM ε σ α) (normal : α → σ → Prop) (failure : ε → σ → Prop) (s : σ) : Prop :=
  match x s with
  | .ok value t => normal value t
  | .error e t => failure e t

section Rules

variable {x : EStateM ε σ α} {normal : α → σ → Prop} {failure : ε → σ → Prop} {s : σ}

@[simp] theorem wp_pure (value : α) : wp (pure value) normal failure s = normal value s := rfl

@[simp] theorem wp_throw (e : ε) :
    wp (throw e : EStateM ε σ α) normal failure s = failure e s := rfl

@[simp] theorem wp_get {normal : σ → σ → Prop} :
    wp (get : EStateM ε σ σ) normal failure s = normal s s := rfl

@[simp] theorem wp_set {normal : PUnit → σ → Prop} (t : σ) :
    wp (set t : EStateM ε σ PUnit) normal failure s = normal () t := rfl

@[simp] theorem wp_modify {normal : PUnit → σ → Prop} (f : σ → σ) :
    wp (modify f : EStateM ε σ PUnit) normal failure s = normal () (f s) := rfl

@[simp] theorem wp_bind {normal : β → σ → Prop} (f : α → EStateM ε σ β) :
    wp (x >>= f) normal failure s = wp x (fun value => wp (f value) normal failure) failure s := by
  show (match EStateM.bind x f s with
    | .ok value t => normal value t
    | .error e t => failure e t) = _
  unfold EStateM.bind wp
  cases x s <;> rfl

@[simp] theorem wp_tryCatch (handler : ε → EStateM ε σ α) :
    wp (tryCatch x handler) normal failure s
      = wp x normal (fun e => wp (handler e) normal failure) s := by
  show (match EStateM.tryCatch x handler s with
    | .ok value t => normal value t
    | .error e t => failure e t) = _
  unfold EStateM.tryCatch wp
  cases x s <;> rfl

theorem wp_ite (condition : Prop) [Decidable condition] (yes no : EStateM ε σ α) :
    wp (if condition then yes else no) normal failure s
      ↔ (condition → wp yes normal failure s) ∧ (¬ condition → wp no normal failure s) := by
  by_cases holds : condition
  · simp [holds]
  · simp [holds]

theorem wp_whenever {normal : Unit → σ → Prop} (condition : Bool) (step : EStateM ε σ Unit) :
    wp (whenever condition step) normal failure s
      ↔ (condition = true → wp step normal failure s) ∧ (condition = false → normal () s) := by
  cases condition with
  | false => simp [whenever]
  | true => simp [whenever]

/-- **A specification gives every weaker one.** -/
theorem wp_mono {normal' : α → σ → Prop} {failure' : ε → σ → Prop}
    (spec : wp x normal failure s) (value : ∀ a t, normal a t → normal' a t)
    (thrown : ∀ e t, failure e t → failure' e t) : wp x normal' failure' s := by
  unfold wp at spec ⊢
  cases result : x s with
  | ok a t =>
    rw [result] at spec
    exact value a t spec
  | error e t =>
    rw [result] at spec
    exact thrown e t spec

theorem wp_and {normal' : α → σ → Prop} {failure' : ε → σ → Prop}
    (first : wp x normal failure s) (second : wp x normal' failure' s) :
    wp x (fun a t => normal a t ∧ normal' a t) (fun e t => failure e t ∧ failure' e t) s := by
  unfold wp at first second ⊢
  cases result : x s with
  | ok a t =>
    rw [result] at first second
    exact ⟨first, second⟩
  | error e t =>
    rw [result] at first second
    exact ⟨first, second⟩

end Rules

/-! ### Changes -/

/-- **The state afterwards is one the relation allows**, however the program ends. -/
def Moves (R : σ → σ → Prop) (x : EStateM ε σ α) : Prop := ∀ s, wp x (fun _ => R s) (fun _ => R s) s

section Moves

variable {R : σ → σ → Prop} {x : EStateM ε σ α}

theorem moves_pure [Std.Refl R] (value : α) : Moves R (pure value : EStateM ε σ α) := fun s => refl_of R s

theorem moves_throw [Std.Refl R] (e : ε) : Moves R (throw e : EStateM ε σ α) := fun s => refl_of R s

theorem moves_get [Std.Refl R] : Moves R (get : EStateM ε σ σ) := fun s => refl_of R s

theorem moves_modify {f : σ → σ} (moves : ∀ s, R s (f s)) : Moves R (modify f : EStateM ε σ PUnit) := moves

theorem moves_bind [IsTrans σ R] {f : α → EStateM ε σ β} (first : Moves R x) (next : ∀ value, Moves R (f value)) :
    Moves R (x >>= f) := by
  intro s
  rw [wp_bind]
  refine wp_mono (first s) (fun value t moved => ?_) fun _ _ => id
  exact wp_mono (next value t) (fun _ _ later => trans_of R moved later) fun _ _ later => trans_of R moved later

/-- What follows may use the state that was read. -/
theorem moves_get_bind {f : σ → EStateM ε σ α} (next : ∀ s, wp (f s) (fun _ => R s) (fun _ => R s) s) :
    Moves R (get >>= f) := by
  intro s
  rw [wp_bind]
  exact next s

theorem moves_tryCatch [IsTrans σ R] {handler : ε → EStateM ε σ α} (first : Moves R x)
    (next : ∀ e, Moves R (handler e)) : Moves R (tryCatch x handler) := by
  intro s
  rw [wp_tryCatch]
  refine wp_mono (first s) (fun _ _ => id) fun e t moved => ?_
  exact wp_mono (next e t) (fun _ _ later => trans_of R moved later) fun _ _ later => trans_of R moved later

theorem moves_ite {condition : Prop} [Decidable condition] {yes no : EStateM ε σ α} (first : Moves R yes)
    (second : Moves R no) : Moves R (if condition then yes else no) := by
  split
  · exact first
  · exact second

theorem moves_whenever [Std.Refl R] {condition : Bool} {step : EStateM ε σ Unit} (moves : Moves R step) :
    Moves R (whenever condition step) :=
  moves_ite moves (moves_pure ())

end Moves

/-- The state a program leaves, however it ends. -/
def after (x : EStateM ε σ α) (s : σ) : σ :=
  match x s with
  | .ok _ t => t
  | .error _ t => t

theorem after_of_wp {x : EStateM ε σ α} {P : σ → Prop} {s : σ}
    (spec : wp x (fun _ => P) (fun _ => P) s) : P (after x s) := by
  unfold wp at spec
  unfold after
  cases result : x s with
  | ok a t =>
    rw [result] at spec
    exact spec
  | error e t =>
    rw [result] at spec
    exact spec

theorem Moves.after {R : σ → σ → Prop} {x : EStateM ε σ α} (moves : Moves R x) (s : σ) : R s (after x s) :=
  after_of_wp (moves s)

end Programs
