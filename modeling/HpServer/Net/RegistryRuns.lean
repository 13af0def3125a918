/-
**What every connection of a registry keeps.**

The registry runs the programs of its application on one connection at a time, and otherwise makes connections and
destroys them. A property of a connection's own state that these programs keep holds of every connection, whatever else
happens.

* `RegistryAction.Own` — what the registry does by itself.
* `Registry.All` — a property of the own state of every connection; `All.act` — **what is kept.**
-/

import HpServer.Net.ClosingList

namespace HpServer.Net

open Base Programs

/-- A step of the registry, and not some other use of a connection. -/
def RegistryAction.Own {A S : Type} : RegistryAction A S → Prop
  | .call .. => False
  | _ => True

/-! ### The connections -/

section All

variable {A L S : Type} {P : L → Prop} {r : Registry L S}

/-- **A property of the own state of every connection.** -/
def Registry.All (P : L → Prop) (r : Registry L S) : Prop :=
  ∀ (fd : Nat) (o : ConnectionObject L), r.connections.lookup fd = some o → P o.app

/-- An entry is made or replaced. -/
theorem Registry.All.insert (all : r.All P) {t : Registry L S} {fd : Nat} {o : ConnectionObject L}
    (connections : t.connections = r.connections.insert fd o) (good : P o.app) : t.All P := by
  intro other found held
  rw [connections] at held
  by_cases here : other = fd
  · subst here
    rw [AList.lookup_insert] at held
    cases held
    exact good
  · rw [AList.lookup_insert_ne here] at held
    exact all other found held

theorem Registry.All.same (all : r.All P) {t : Registry L S} (connections : t.connections = r.connections) :
    t.All P := by
  intro fd o held
  rw [connections] at held
  exact all fd o held

theorem Registry.All.erase (all : r.All P) {t : Registry L S} {fd : Nat}
    (connections : t.connections = r.connections.erase fd) : t.All P := by
  intro other o held
  rw [connections] at held
  exact all other o (lookup_of_erase held).2

section Cleanup

variable (app : Application A L S)

theorem Registry.All.destroy (all : r.All P) (o : ConnectionObject L) : (r.destroy app o).All P := all.erase rfl

theorem Registry.All.recover (fuel : Nat) : ∀ {r : Registry L S}, r.All P → (recoverLoop app fuel r).All P := by
  induction fuel with
  | zero => exact fun all => all
  | succ fuel ih =>
    intro r all
    unfold recoverLoop
    split
    · exact all
    · split
      · exact all.same rfl
      · dsimp only
        split
        · exact ih (all.same rfl)
        · refine ih (Registry.All.destroy app (all.same ?_) _)
          unfold Registry.uncount
          split <;> rfl

theorem Registry.All.onCleanup (all : r.All P) : (r.onCleanup app).All P := by
  refine (Registry.All.recover app (r.connections.entries.length + 1) all).same ?_
  unfold Registry.onCleanup Registry.notifyStop
  split <;> rfl

theorem Registry.All.abandon (all : r.All P) (fd : Nat) : (r.abandon app fd).All P := by
  have shut : ∀ {o : ConnectionObject L}, r.connections.lookup fd = some o → ∀ {t : Registry L S},
      t.connections = r.connections.insert fd { o with conn := o.conn.deactivate } → t.All P :=
    fun {o} held _ same => all.insert same (all fd o held)
  unfold Registry.abandon
  dsimp only
  split
  · refine Registry.All.same (Registry.All.onCleanup app ?_) rfl
    split
    · exact all
    · exact shut ‹_› rfl
  · refine Registry.All.same (Registry.All.destroy app (Registry.All.onCleanup app ?_) _) rfl
    split
    · exact all
    · exact shut ‹_› rfl

end Cleanup

variable {app : Application A L S} (split : ∀ own shared, app.ofConnection (app.join own shared) = own)

include split

/-- A program that keeps the property runs on one connection. -/
theorem Registry.All.on (all : r.All P) (fd : Nat) {program : Run A Unit}
    (moves : Moves (fun c t => P (app.ofConnection c.app) → P (app.ofConnection t.app)) program) :
    (r.on app fd program).All P := by
  unfold Registry.on
  split
  · exact all
  case h_2 o held =>
    refine all.insert rfl (moves.after (r.cell app o) ?_)
    show P (app.ofConnection (app.join o.app r.shared))
    rw [split]
    exact all fd o held

theorem Registry.All.onAccepted (fresh : P app.fresh) (all : r.All P) (fd : Nat) (lease : ResourceLease)
    (fault : Option AcceptFault) : (r.onAccepted app fd lease fault).1.All P := by
  unfold Registry.onAccepted
  split
  · exact all.same rfl
  split
  · exact all.same rfl
  dsimp only
  split
  · exact all.same rfl
  split
  · exact all.same rfl
  -- the state of a new connection is the fresh one, and starting it leaves that alone
  have started : ∀ {r' : Registry L S} {o : ConnectionObject L} {c : Cell A}, o.app = app.fresh →
      after (startConnection (decide (fault = some .activating))) (r'.cell app o) = c →
      P (app.ofConnection c.app) := by
    intro r' o c own ended
    have same : Called (r'.cell app o) c := ended ▸ (called_startConnection _).after _
    rw [same.app]
    show P (app.ofConnection (app.join o.app r'.shared))
    rw [split, own]
    exact fresh
  split
  case h_1 failure c ended =>
    have good := started rfl (by unfold after; rw [ended])
    exact Registry.All.abandon app (Registry.All.insert (Registry.All.insert all rfl fresh) rfl good) fd
  case h_2 c ended =>
    have good := started rfl (by unfold after; rw [ended])
    exact Registry.All.insert (Registry.All.insert all rfl fresh) rfl good

/-- **What the programs of the application keep holds of every connection.** -/
theorem Registry.All.act (fresh : P app.fresh)
    (onMessage : Moves (fun c t => P (app.ofConnection c.app) → P (app.ofConnection t.app)) app.callbacks.onMessage)
    (onWriteComplete : Moves (fun c t => P (app.ofConnection c.app) → P (app.ofConnection t.app))
      app.callbacks.onWriteComplete)
    (onContinuation : ∀ continuation, Moves (fun c t => P (app.ofConnection c.app) → P (app.ofConnection t.app))
      (app.onContinuation continuation))
    (all : r.All P) {action : RegistryAction A S} (own : action.Own) : (r.act app action).All P := by
  have called : ∀ {c t : Cell A}, Called c t → P (app.ofConnection c.app) → P (app.ofConnection t.app) := by
    intro c t same
    rw [same.app]
    exact id
  have : Std.Refl fun c t : Cell A => P (app.ofConnection c.app) → P (app.ofConnection t.app) := ⟨fun _ => id⟩
  have : IsTrans (Cell A) fun c t => P (app.ofConnection c.app) → P (app.ofConnection t.app) :=
    ⟨fun _ _ _ first second good => second (first good)⟩
  cases action with
  | onAccepted fd lease fault => exact all.onAccepted split fresh fd lease fault
  | event fd mask => exact all.on split fd (handleConnectionEvent_moves called onMessage onWriteComplete mask)
  | call => exact own.elim
  | expireConnection fd identity =>
    show (r.expireConnection app fd identity).All P
    unfold Registry.expireConnection
    split
    · exact all
    · split
      · exact all
      · exact all.on split fd (moves_of_called called called_expireConnection)
  | deliverContinuation fd identity =>
    show (r.deliverContinuation app fd identity).All P
    unfold Registry.deliverContinuation
    split
    · exact all
    · exact all.on split fd (deliverContinuation_moves called onContinuation)
  | onClose fd identity =>
    show (r.onClose fd identity).All P
    unfold Registry.onClose
    split
    · exact all
    case h_2 o found =>
      dsimp only
      split
      · exact all.same rfl
      · exact all.insert rfl (all fd o (Option.filter_eq_some_iff.mp found).1)
  | onCleanup => exact all.onCleanup app
  | beginConnectionsDrain force =>
    refine Registry.All.onCleanup app ?_
    have drained : ∀ (fds : List Nat) {t : Registry L S}, t.All P →
        (fds.foldl (fun (r : Registry L S) fd => r.on app fd (drainConnection force)) t).All P := by
      intro fds
      induction fds with
      | nil => exact fun all => all
      | cons fd fds ih =>
        exact fun all => ih (all.on split fd (moves_of_called called (called_drainConnection force)))
    exact drained _ (all.same rfl)
  | environment host shared => exact all.same rfl

end All

end HpServer.Net
