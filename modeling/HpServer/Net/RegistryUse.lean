/-
**What a connection does to its registry.**

Whatever runs on a connection, it enters the closing list at most once, before those that are there, and only with
its mark `queuedForRecovery_`; it is closed for good, and a connection that is closed has entered.

* `Uses` — this, as a relation between the cells before and after; `Called` — this, with the application left alone.
* `called_requestClose`, …, `called_consumeInputBytes` — **every function that the application calls is one of these.**
* `handleConnectionEvent_moves`, `deliverContinuation_moves` — a relation that allows for calls holds of every event and
  every continuation, if it holds of the callbacks.
-/

import HpServer.Net.TcpConnection

namespace HpServer.Net

open Base Programs

variable {A : Type}

/-! ### The simp set -/

section Rules

variable {normal : Unit → Cell A → Prop} {failure : Failure → Cell A → Prop} {c : Cell A}

@[simp] theorem wp_onConnection (change : TcpConnection → TcpConnection) :
    wp (onConnection change) normal failure c = normal () { c with conn := change c.conn } := rfl

@[simp] theorem wp_readClock {normal : Nat → Cell A → Prop} :
    wp readClock normal failure c = normal c.ticked.host.now c.ticked := rfl

/-- A call of the `ConnectionIo` is a program on the port. -/
theorem wp_onIo {α : Type} {normal : α → Cell A → Prop} (call : EStateM Failure Port α) :
    wp (onIo call) normal failure c
      = wp call (fun value p => normal value { c with io := p.io, host := p.host })
          (fun e p => failure e { c with io := p.io, host := p.host }) ⟨c.io, c.host⟩ := by
  unfold wp onIo
  cases call ⟨c.io, c.host⟩ <;> rfl

end Rules

/-! ### The registry -/

structure Uses (c t : Cell A) : Prop where
  identity : t.conn.identity = c.conn.identity
  registry : t.registry = { c.registry with closing := t.registry.closing }
  queue : (t.registry.closing = c.registry.closing ∧ t.conn.queuedForRecovery = c.conn.queuedForRecovery)
    ∨ (c.conn.queuedForRecovery = false ∧ t.conn.queuedForRecovery = true
      ∧ t.registry.closing = c.conn.identity :: c.registry.closing)
  closed : c.conn.state = .closing → t.conn.state = .closing
  marks : t.conn.queuedForRecovery = true →
    c.conn.queuedForRecovery = true ∨ (c.conn.state ≠ .closing ∧ t.conn.state = .closing)
  noted : t.conn.state = .closing → c.conn.state = .closing ∨ t.conn.queuedForRecovery = true

section Relation

variable {c t u : Cell A}

/-- A connection that enters the list keeps its mark. -/
theorem Uses.marked (uses : Uses c t) (before : c.conn.queuedForRecovery = true) :
    t.registry.closing = c.registry.closing ∧ t.conn.queuedForRecovery = true := by
  rcases uses.queue with ⟨closing, same⟩ | ⟨unmarked, -⟩
  · exact ⟨closing, same.trans before⟩
  · cases before.symm.trans unmarked

theorem Uses.trans (first : Uses c t) (second : Uses t u) : Uses c u where
  identity := second.identity.trans first.identity
  registry := by
    rw [second.registry, first.registry]
  queue := by
    rcases first.queue with ⟨closing, same⟩ | ⟨unmarked, marked, closing⟩
    · rcases second.queue with ⟨closing', same'⟩ | ⟨unmarked', marked', closing'⟩
      · exact .inl ⟨closing'.trans closing, same'.trans same⟩
      · refine .inr ⟨same.symm.trans unmarked', marked', ?_⟩
        rw [closing', first.identity, closing]
    · obtain ⟨closing', marked'⟩ := second.marked marked
      exact .inr ⟨unmarked, marked', closing'.trans closing⟩
  closed closing := second.closed (first.closed closing)
  marks marked := by
    rcases second.marks marked with before | ⟨opened, closing⟩
    · rcases first.marks before with start | ⟨opened, closing⟩
      · exact .inl start
      · exact .inr ⟨opened, second.closed closing⟩
    · exact .inr ⟨fun start => opened (first.closed start), closing⟩
  noted closing := by
    rcases second.noted closing with before | marked
    · rcases first.noted before with start | marked
      · exact .inl start
      · exact .inr (second.marked marked).2
    · exact .inr marked

/-- Changes that concern neither the closing of a connection nor its registry. -/
theorem uses_of_same (identity : t.conn.identity = c.conn.identity) (state : t.conn.state = c.conn.state)
    (queued : t.conn.queuedForRecovery = c.conn.queuedForRecovery) (registry : t.registry = c.registry) : Uses c t where
  identity := identity
  registry := by
    rw [registry]
  queue := .inl ⟨by rw [registry], queued⟩
  closed closing := state.trans closing
  marks marked := .inl (queued.symm.trans marked)
  noted closing := .inl (state.symm.trans closing)

instance : Std.Refl (Uses (A := A)) := ⟨fun _ => uses_of_same rfl rfl rfl rfl⟩

instance : IsTrans (Cell A) Uses := ⟨fun _ _ _ => Uses.trans⟩

theorem requestClose_uses (c : Cell A) : Uses c c.requestClose := by
  unfold Cell.requestClose
  split
  case isTrue => exact uses_of_same rfl rfl rfl rfl
  case isFalse opened =>
    unfold Cell.onClose
    split
    case isTrue marked =>
      exact ⟨rfl, rfl, .inl ⟨rfl, rfl⟩, fun closing => absurd closing opened, fun _ => .inl marked,
        fun _ => .inr marked⟩
    case isFalse unmarked =>
      have before : c.conn.queuedForRecovery = false := Bool.eq_false_iff.mpr unmarked
      exact ⟨rfl, rfl, .inr ⟨before, rfl, rfl⟩, fun closing => absurd closing opened,
        fun _ => .inr ⟨opened, rfl⟩, fun _ => .inr rfl⟩

end Relation

/-! ### What the application calls -/

/-- **A call of the application**: it uses the registry so, and what is above the connection is as it was. -/
structure Called (c t : Cell A) : Prop extends Uses c t where
  app : t.app = c.app

instance : Std.Refl (Called (A := A)) := ⟨fun _ => ⟨uses_of_same rfl rfl rfl rfl, rfl⟩⟩

instance : IsTrans (Cell A) Called :=
  ⟨fun _ _ _ first second => ⟨first.toUses.trans second.toUses, second.app.trans first.app⟩⟩

/-- A change of a connection that does not concern its closing. -/
theorem called_onConnection {change : TcpConnection → TcpConnection}
    (same : ∀ conn, (change conn).identity = conn.identity ∧ (change conn).state = conn.state
      ∧ (change conn).queuedForRecovery = conn.queuedForRecovery) :
    Moves Called (onConnection change : Run A Unit) :=
  moves_modify fun c => ⟨uses_of_same (same c.conn).1 (same c.conn).2.1 (same c.conn).2.2 rfl, rfl⟩

theorem called_onIo {α : Type} (call : EStateM Failure Port α) : Moves Called (onIo call : Run A α) := by
  intro c
  unfold wp onIo
  cases call ⟨c.io, c.host⟩ <;> exact ⟨uses_of_same rfl rfl rfl rfl, rfl⟩

theorem called_readClock : Moves Called (readClock : Run A Nat) := fun _ => ⟨uses_of_same rfl rfl rfl rfl, rfl⟩

theorem called_timersAllowed : Moves Called (timersAllowed : Run A Bool) := fun _ => ⟨uses_of_same rfl rfl rfl rfl, rfl⟩

theorem called_requestClose : Moves Called (requestClose : Run A Unit) := by
  refine moves_modify fun c => ⟨requestClose_uses c, ?_⟩
  unfold Cell.requestClose Cell.onClose
  split
  · rfl
  · split <;> rfl

theorem called_cancelTimeout : Moves Called (cancelTimeout : Run A Unit) := called_onConnection fun _ => ⟨rfl, rfl, rfl⟩

theorem called_onTimeoutActivity (progress : Bool) : Moves Called (onTimeoutActivity progress : Run A Unit) := by
  refine moves_bind moves_get fun c => moves_ite called_cancelTimeout ?_
  refine moves_bind called_readClock fun now => moves_bind (called_onConnection fun _ => ⟨rfl, rfl, rfl⟩) fun _ => ?_
  refine moves_bind moves_get fun d => ?_
  cases timeoutDeadline d.registry.timeouts d.conn with
  | none => exact called_cancelTimeout
  | some deadline =>
    refine moves_bind moves_get fun e => moves_bind called_timersAllowed fun allowed => ?_
    refine moves_ite (called_onConnection fun _ => ⟨rfl, rfl, rfl⟩) (moves_ite called_requestClose ?_)
    exact moves_bind called_requestClose fun _ => moves_throw _

theorem called_onContinuationActivity : Moves Called (onContinuationActivity : Run A Unit) := by
  refine moves_bind (called_onConnection fun _ => ⟨rfl, rfl, rfl⟩) fun _ => moves_bind moves_get fun c => ?_
  split
  · refine moves_ite (moves_pure ()) (moves_bind called_timersAllowed fun allowed => ?_)
    exact moves_ite (called_onConnection fun _ => ⟨rfl, rfl, rfl⟩) (moves_throw _)
  · exact moves_pure ()

theorem called_scheduleContinuation (deadline continuation : Nat) :
    Moves Called (scheduleContinuation deadline continuation : Run A Unit) := by
  refine moves_bind moves_get fun c => moves_ite (moves_throw _) ?_
  exact moves_bind (called_onConnection fun _ => ⟨rfl, rfl, rfl⟩) fun _ => called_onContinuationActivity

theorem called_cancelContinuation : Moves Called (cancelContinuation : Run A Unit) :=
  moves_bind (called_onConnection fun _ => ⟨rfl, rfl, rfl⟩) fun _ => called_onContinuationActivity

theorem called_updateInterest : Moves Called (updateInterest : Run A Unit) :=
  fun _ => ⟨uses_of_same rfl rfl rfl rfl, rfl⟩

theorem called_updateOutsideEvent : Moves Called (updateOutsideEvent : Run A Unit) :=
  moves_bind moves_get fun _ => moves_whenever called_updateInterest

theorem called_pauseReading : Moves Called (pauseReading : Run A Unit) :=
  moves_bind (called_onConnection fun _ => ⟨rfl, rfl, rfl⟩) fun _ => called_updateOutsideEvent

theorem called_resumeReading : Moves Called (resumeReading : Run A Unit) :=
  moves_bind (called_onConnection fun _ => ⟨rfl, rfl, rfl⟩) fun _ => called_updateOutsideEvent

theorem called_setIdleWait (waiting : Bool) : Moves Called (setIdleWait waiting : Run A Unit) := by
  refine moves_bind moves_get fun c => moves_ite (moves_pure ()) ?_
  exact moves_bind (called_onConnection fun _ => ⟨rfl, rfl, rfl⟩) fun _ => called_onTimeoutActivity false

theorem called_setReadDeadline (deadline : Option Nat) : Moves Called (setReadDeadline deadline : Run A Unit) := by
  refine moves_bind moves_get fun c => moves_ite (moves_pure ()) (moves_ite (moves_pure ()) ?_)
  exact moves_bind (called_onConnection fun _ => ⟨rfl, rfl, rfl⟩) fun _ => called_onTimeoutActivity false

theorem called_closeAfterFlush : Moves Called (closeAfterFlush : Run A Unit) := by
  refine moves_bind (called_onConnection fun _ => ⟨rfl, rfl, rfl⟩) fun _ => moves_bind moves_get fun c => ?_
  exact moves_ite called_requestClose called_updateOutsideEvent

theorem called_beginConnectionDrain : Moves Called (beginConnectionDrain : Run A Unit) := by
  refine moves_bind moves_get fun c => moves_ite (moves_pure ()) ?_
  refine moves_bind (called_onConnection fun _ => ⟨rfl, rfl, rfl⟩) fun _ => ?_
  refine moves_bind called_cancelContinuation fun _ => moves_bind (called_onConnection fun _ => ⟨rfl, rfl, rfl⟩) fun _ => ?_
  refine moves_bind (called_onTimeoutActivity false) fun _ => moves_bind moves_get fun d => ?_
  exact moves_ite called_requestClose called_updateInterest

theorem called_send (call : EStateM Failure Port Unit) : Moves Called (send call : Run A Unit) := by
  refine moves_bind moves_get fun c => moves_ite (moves_throw _) (moves_tryCatch ?_ fun failure => ?_)
  · exact moves_bind (called_onIo call) fun _ => called_updateOutsideEvent
  · exact moves_bind called_requestClose fun _ => moves_throw failure

theorem called_consumeInputBytes (count : Nat) : Moves Called (consumeInputBytes count : Run A Unit) := by
  refine moves_get_bind fun c => ?_
  cases c.io.input.consumeReadableBytes count <;> exact ⟨uses_of_same rfl rfl rfl rfl, rfl⟩

theorem called_expireConnection : Moves Called (expireConnection : Run A Unit) := by
  refine moves_bind moves_get fun c => moves_ite (moves_pure ()) ?_
  exact moves_bind (called_onConnection fun _ => ⟨rfl, rfl, rfl⟩) fun _ => called_requestClose

/-! ### Events -/

/-- A relation that allows for calls holds of one. -/
theorem moves_of_called {R : Cell A → Cell A → Prop} (calls : ∀ {c t : Cell A}, Called c t → R c t) {α : Type}
    {program : Run A α} (moves : Moves Called program) : Moves R program :=
  fun c => wp_mono (moves c) (fun _ _ => calls) fun _ _ => calls

section Events

variable {R : Cell A → Cell A → Prop} [Std.Refl R] [IsTrans (Cell A) R] {callbacks : Callbacks A}

theorem readLoop_moves (calls : ∀ {c t : Cell A}, Called c t → R c t) (onMessage : Moves R callbacks.onMessage)
    (fuel : Nat) : Moves R (readLoop callbacks fuel) := by
  have mark : ∀ {change : TcpConnection → TcpConnection}, (∀ conn, (change conn).identity = conn.identity
      ∧ (change conn).state = conn.state ∧ (change conn).queuedForRecovery = conn.queuedForRecovery) →
      Moves R (onConnection change) := fun same => moves_of_called calls (called_onConnection same)
  induction fuel with
  | zero => exact moves_pure ()
  | succ fuel ih =>
    refine moves_bind moves_get fun c => moves_ite ?_ (moves_pure ())
    refine moves_bind (moves_of_called calls (called_onIo readOnce)) fun read => moves_bind ?_ fun _ => ?_
    · refine moves_bind (moves_whenever (moves_bind (mark fun _ => ⟨rfl, rfl, rfl⟩) fun _ => ?_)) fun _ => ?_
      · exact moves_of_called calls (called_onTimeoutActivity true)
      refine moves_bind moves_get fun d => moves_bind (moves_whenever ?_) fun _ => moves_bind moves_get fun e => ?_
      · exact moves_bind (mark fun _ => ⟨rfl, rfl, rfl⟩) fun _ => onMessage
      refine moves_bind (moves_whenever (mark fun _ => ⟨rfl, rfl, rfl⟩)) fun _ => ?_
      exact moves_whenever (mark fun _ => ⟨rfl, rfl, rfl⟩)
    · exact moves_ite (moves_pure ()) ih

theorem flushLoop_moves (calls : ∀ {c t : Cell A}, Called c t → R c t)
    (onWriteComplete : Moves R callbacks.onWriteComplete) (fuel : Nat) : Moves R (flushLoop callbacks fuel) := by
  induction fuel with
  | zero => exact moves_pure ()
  | succ fuel ih =>
    refine moves_bind moves_get fun c => moves_ite ?_ (moves_pure ())
    refine moves_bind (moves_of_called calls (called_onIo writeAvailable)) fun written => moves_bind ?_ fun more => ?_
    · refine moves_bind (moves_whenever (moves_of_called calls (called_onTimeoutActivity true))) fun _ => ?_
      refine moves_ite (moves_bind ?_ fun _ => moves_pure _) (moves_ite (moves_pure _) ?_)
      · exact moves_of_called calls (called_onConnection fun _ => ⟨rfl, rfl, rfl⟩)
      · refine moves_bind moves_get fun d => moves_ite ?_ (moves_pure _)
        exact moves_bind onWriteComplete fun _ => moves_pure _
    · exact moves_ite ih (moves_pure ())

/-- **What holds of the calls and of the callbacks holds of an event.** -/
theorem handleConnectionEvent_moves (calls : ∀ {c t : Cell A}, Called c t → R c t)
    (onMessage : Moves R callbacks.onMessage) (onWriteComplete : Moves R callbacks.onWriteComplete) (mask : EventMask) :
    Moves R (handleConnectionEvent callbacks mask) := by
  have mark : ∀ {change : TcpConnection → TcpConnection}, (∀ conn, (change conn).identity = conn.identity
      ∧ (change conn).state = conn.state ∧ (change conn).queuedForRecovery = conn.queuedForRecovery) →
      Moves R (onConnection change) := fun same => moves_of_called calls (called_onConnection same)
  have closes : Moves R requestClose := moves_of_called calls called_requestClose
  have flush : Moves R (flushOutput callbacks) := by
    refine moves_bind moves_get fun c => moves_bind (flushLoop_moves calls onWriteComplete _) fun _ => ?_
    refine moves_bind moves_get fun d => moves_bind (moves_whenever (mark fun _ => ⟨rfl, rfl, rfl⟩)) fun _ => ?_
    exact moves_bind moves_get fun e => moves_whenever closes
  have body : Moves R (runEvent callbacks mask) := by
    refine moves_bind (moves_whenever (mark fun _ => ⟨rfl, rfl, rfl⟩)) fun _ => moves_bind (moves_whenever ?_) fun _ => ?_
    · exact moves_bind moves_get fun c => readLoop_moves calls onMessage _
    refine moves_bind moves_get fun c => moves_bind (moves_whenever flush) fun _ => ?_
    refine moves_bind (moves_whenever (mark fun _ => ⟨rfl, rfl, rfl⟩)) fun _ => moves_bind moves_get fun d => ?_
    exact moves_whenever (moves_ite closes (moves_of_called calls called_updateInterest))
  refine moves_bind moves_get fun c => moves_ite (moves_pure ()) ?_
  refine moves_bind (mark fun _ => ⟨rfl, rfl, rfl⟩) fun _ => moves_bind ?_ fun _ => mark fun _ => ⟨rfl, rfl, rfl⟩
  exact moves_tryCatch body fun _ => closes

/-- **What holds of the calls and of the application's part holds of a continuation.** -/
theorem deliverContinuation_moves (calls : ∀ {c t : Cell A}, Called c t → R c t) {onContinuation : Nat → Run A Unit}
    (moves : ∀ continuation, Moves R (onContinuation continuation)) : Moves R (deliverContinuation onContinuation) := by
  refine moves_bind moves_get fun c => moves_bind ?_ fun _ => moves_ite (moves_pure ()) ?_
  · exact moves_of_called calls (called_onConnection fun _ => ⟨rfl, rfl, rfl⟩)
  · cases c.conn.continuation with
    | none => exact moves_pure ()
    | some continuation => exact moves continuation

end Events

end HpServer.Net
