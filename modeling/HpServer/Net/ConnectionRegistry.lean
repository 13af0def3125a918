/-
**`net/ConnectionRegistry`: the connections of one loop.**

The registry owns its connections by descriptor. A connection that closes is put on a list threaded through the
objects, and destroyed by the next cleanup. A pointer to an object is the identity of that object; `dangling` is
set where a pointer to a destroyed one is followed. `log` is written and never read.

* `Application` — what runs above a connection: its own state, the state all connections share, and programs that
  use the registry as `Uses` says.
* `Registry.on` — a program runs on one connection.
* `onAccepted`, `onClose`, `onCleanup`, `beginConnectionsDrain`, `expireConnection`, `deliverContinuation`.
* `connectionRegistry` — the machine; between two calls the world may change as it likes.
-/

import HpServer.Library.Intrusive
import HpServer.Library.Machine
import HpServer.Library.Numbering
import HpServer.Library.Table
import HpServer.Metrics.ServerMetrics
import HpServer.Net.RegistryUse

namespace HpServer.Net

open Base Machines Metrics Programs

/-! ### What is registered -/

/-- What the connections are for. `join` is the state one connection sees: its own and the shared. -/
structure Application (A L S : Type) where
  join : L → S → A
  ofConnection : A → L
  ofAll : A → S
  fresh : L
  callbacks : Callbacks A
  onContinuation : Nat → Run A Unit
  /-- The destructor of what its callbacks hold. -/
  destroy : Run A Unit
  onMessage_uses : Moves Uses callbacks.onMessage
  onWriteComplete_uses : Moves Uses callbacks.onWriteComplete
  onContinuation_uses : ∀ continuation, Moves Uses (onContinuation continuation)
  destroy_uses : Moves Uses destroy

/-- A `TcpConnection` with its descriptor, the lease of its place and the pointer `nextClosing_`. -/
structure ConnectionObject (L : Type) where
  fd : Nat
  io : ConnectionIo
  conn : TcpConnection
  lease : ResourceLease
  app : L
  nextClosing : Option Nat := none

inductive RegistryEvent where
  | numbered (identity : Nat)
  | registered (identity : Nat)
  | requested (identity : Nat)
  | destroyed (identity : Nat)
  | stopped
  deriving DecidableEq, Repr

structure Registry (L S : Type) where
  timeouts : ConnectionTimeouts := {}
  maxInputBytes : Nat := 0
  draining : Bool := false
  notified : Bool := false
  connections : AList (fun _ : Nat => ConnectionObject L) := ∅
  closingHead : Option Nat := none
  nextIdentity : Nat := 1
  registeringIdentity : Nat := 0
  metrics : ServerMetrics := {}
  host : Host := {}
  shared : S
  dangling : Bool := false
  log : List RegistryEvent := []

/-- The largest `Identity`. -/
def kLastIdentity : Nat := 2 ^ 64 - 1

/-- The object a pointer points to. -/
def objectAt {L : Type} (connections : AList fun _ : Nat => ConnectionObject L) (pointer : Nat) :
    Option (ConnectionObject L) :=
  (connections.entries.map Sigma.snd).find? fun o => o.conn.identity = pointer

/-- The lease of something that is destroyed. -/
def Host.release (host : Host) (lease : ResourceLease) : Host :=
  { host with budget := host.budget.map fun budget => (budget.reset lease).value.1 }

/-! ### Starting and draining a connection -/

section Programs

variable {A : Type}

/-- `fails` is whether `epoll_ctl` does. -/
def activateConnection (fails : Bool) : Run A Unit := do
  let c ← get
  if c.conn.state = .closing then throw (.error "cannot restart closed connection")
  else if c.conn.state = .active then pure ()
  else if fails then throw (.error "epoll_ctl")
  else onConnection fun conn => { conn with interest := { input := true }, state := .active }

/-- The `try` block of `onAccepted`. -/
def startConnection (fails : Bool) : Run A Unit := do
  activateConnection fails
  let now ← readClock
  onConnection fun conn => { conn with lastProgress := now }
  onTimeoutActivity false

/-- A turn of the loop of `beginConnectionsDrain`. -/
def drainConnection (force : Bool) : Run A Unit := do
  cancelTimeout
  if force then requestClose else beginConnectionDrain

theorem called_activateConnection (fails : Bool) : Moves Called (activateConnection fails : Run A Unit) := by
  refine moves_get_bind fun c => ?_
  simp only [wp_ite, wp_throw, wp_pure]
  refine ⟨fun _ => Std.Refl.refl _, fun opened => ⟨fun _ => Std.Refl.refl _, fun _ => ⟨fun _ => Std.Refl.refl _, fun _ => ?_⟩⟩⟩
  exact ⟨⟨rfl, rfl, .inl ⟨rfl, rfl⟩, fun closing => absurd closing opened, .inl, fun active => nomatch active⟩, rfl⟩

theorem called_startConnection (fails : Bool) : Moves Called (startConnection fails : Run A Unit) := by
  refine moves_bind (called_activateConnection fails) fun _ => moves_bind called_readClock fun now => ?_
  exact moves_bind (called_onConnection fun _ => ⟨rfl, rfl, rfl⟩) fun _ => called_onTimeoutActivity false

theorem called_drainConnection (force : Bool) : Moves Called (drainConnection force : Run A Unit) :=
  moves_bind called_cancelTimeout fun _ => moves_ite called_requestClose called_beginConnectionDrain

end Programs

namespace Registry

variable {A L S : Type} (app : Application A L S) (r : Registry L S)

/-! ### Running on one connection -/

/-- A connection as its functions see it. -/
def cell (o : ConnectionObject L) : Cell A :=
  { io := o.io
    host := r.host
    conn := o.conn
    registry := { timeouts := r.timeouts, draining := r.draining }
    app := app.join o.app r.shared }

/-- What a program has done. A connection that entered the closing list is linked before the others. -/
def store (fd : Nat) (o : ConnectionObject L) (c : Cell A) : Registry L S :=
  { r with
    connections := r.connections.insert fd
      { o with
        io := c.io
        conn := c.conn
        app := app.ofConnection c.app
        nextClosing := if c.registry.closing = [] then o.nextClosing else r.closingHead }
    closingHead := if c.registry.closing = [] then r.closingHead else some o.conn.identity
    host := c.host
    shared := app.ofAll c.app
    log := r.log ++ (if o.conn.state ≠ .closing ∧ c.conn.state = .closing then [.requested o.conn.identity] else []) }

def on (fd : Nat) (program : Run A Unit) : Registry L S :=
  match r.connections.lookup fd with
  | none => r
  | some o => r.store app fd o (after program (r.cell app o))

/-- The registered connection with a descriptor and an identity. -/
def find (fd identity : Nat) : Option (ConnectionObject L) :=
  (r.connections.lookup fd).filter fun o => o.conn.identity = identity

def event (fd : Nat) (mask : EventMask) : Registry L S := r.on app fd (handleConnectionEvent app.callbacks mask)

def expireConnection (fd identity : Nat) : Registry L S :=
  if r.draining then r
  else
    match r.find fd identity with
    | none => r
    | some _ => r.on app fd Net.expireConnection

def deliverContinuation (fd identity : Nat) : Registry L S :=
  match r.find fd identity with
  | none => r
  | some _ => r.on app fd (Net.deliverContinuation app.onContinuation)

/-! ### Closing -/

def onClose (fd identity : Nat) : Registry L S :=
  match r.find fd identity with
  | none => r
  | some o =>
    let noted := { r with log := r.log ++ [.requested identity] }
    if o.conn.queuedForRecovery then noted
    else
      { noted with
        connections := r.connections.insert fd
          { o with conn := { o.conn with queuedForRecovery := true }, nextClosing := r.closingHead }
        closingHead := some o.conn.identity }

/-- A connection is erased, and with it what it holds. -/
def destroy (o : ConnectionObject L) : Registry L S :=
  let c := after app.destroy { r.cell app o with conn := o.conn.deactivate }
  { r with
    connections := r.connections.erase o.fd
    host := (c.host.release c.io.outputLease).release o.lease
    shared := app.ofAll c.app
    log := r.log ++ [.destroyed o.conn.identity] }

/-- `removeConnection`, except for a connection that is being registered. -/
def uncount (identity : Nat) : Registry L S :=
  if identity ≠ r.registeringIdentity then { r with metrics := r.metrics.removeConnection } else r

end Registry

section Cleanup

variable {A L S : Type} (app : Application A L S)

/-- The loop of `onCleanup`. Every turn but the last destroys a connection. -/
def recoverLoop : Nat → Registry L S → Registry L S
  | 0, r => r
  | fuel + 1, r =>
    match r.closingHead with
    | none => r
    | some pointer =>
      match objectAt r.connections pointer with
      | none => { r with dangling := true }
      | some o =>
        let next : Registry L S := { r with closingHead := o.nextClosing }
        match r.find o.fd o.conn.identity with
        | none => recoverLoop fuel next
        | some found => recoverLoop fuel ((next.uncount found.conn.identity).destroy app found)

/-- The stop callback is called once, with the last connection gone. -/
def Registry.notifyStop (r : Registry L S) : Registry L S :=
  if r.draining && r.connections.entries.isEmpty && !r.notified then
    { r with notified := true, log := r.log ++ [.stopped] }
  else r

def Registry.onCleanup (r : Registry L S) : Registry L S :=
  (recoverLoop app (r.connections.entries.length + 1) r).notifyStop

def Registry.beginConnectionsDrain (r : Registry L S) (force : Bool) : Registry L S :=
  let drained := r.connections.keys.foldl (fun (r : Registry L S) fd => r.on app fd (drainConnection force))
    { r with draining := true }
  drained.onCleanup app

/-! ### Accepting -/

/-- Where `onAccepted` may throw without a reason of its own: memory for the object or its entry, `epoll_ctl`. -/
inductive AcceptFault where
  | making | emplacing | activating
  deriving DecidableEq, Repr

/-- The `catch` block of `onAccepted`. -/
def Registry.abandon (r : Registry L S) (fd : Nat) : Registry L S :=
  let shut : Registry L S :=
    match r.connections.lookup fd with
    | none => r
    | some o => { r with connections := r.connections.insert fd { o with conn := o.conn.deactivate } }
  let cleaned := shut.onCleanup app
  let erased : Registry L S :=
    match cleaned.connections.lookup fd with
    | none => cleaned
    | some o => cleaned.destroy app o
  { erased with registeringIdentity := 0 }

/-- An accepted socket that is not taken, with its lease. -/
def Registry.refuse (r : Registry L S) (lease : ResourceLease) : Registry L S := { r with host := r.host.release lease }

/-- The registry afterwards, and what is thrown. -/
def Registry.onAccepted (r : Registry L S) (fd : Nat) (lease : ResourceLease) (fault : Option AcceptFault) :
    Registry L S × Option Failure :=
  if r.draining then (r.refuse lease, none)
  else
    match Numbering.allocate kLastIdentity r.nextIdentity with
    | none => (r.refuse lease, some (.error "connection identity exhausted"))
    | some (identity, next) =>
      let r : Registry L S := { r with nextIdentity := next, log := r.log ++ [.numbered identity] }
      if fault = some .making || fault = some .emplacing then (r.refuse lease, some (.error "bad_alloc"))
      else if (r.connections.lookup fd).isSome then (r.refuse lease, some (.error "duplicate connection fd"))
      else
        let o : ConnectionObject L :=
          { fd := fd
            io := makeConnectionIo r.maxInputBytes
            conn := { identity := identity }
            lease := lease
            app := app.fresh }
        let r : Registry L S := { r with connections := r.connections.insert fd o, registeringIdentity := identity }
        match startConnection (decide (fault = some .activating)) (r.cell app o) with
        | .error failure c => ((r.store app fd o c).abandon app fd, some failure)
        | .ok _ c =>
          let stored := r.store app fd o c
          ({ stored with
              registeringIdentity := 0
              metrics := stored.metrics.registerConnection
              log := stored.log ++ [.registered identity] }, none)

end Cleanup

/-! ### The machine -/

/-- What happens to a registry. `call` is any other use of one of its connections. -/
inductive RegistryAction (A S : Type) where
  | onAccepted (fd : Nat) (lease : ResourceLease) (fault : Option AcceptFault)
  | event (fd : Nat) (mask : EventMask)
  | call (fd : Nat) (program : Run A Unit) (uses : Moves Uses program)
  | expireConnection (fd identity : Nat)
  | deliverContinuation (fd identity : Nat)
  | onClose (fd identity : Nat)
  | onCleanup
  | beginConnectionsDrain (force : Bool)
  | environment (host : Host) (shared : S)

variable {A L S : Type}

def Registry.act (app : Application A L S) (r : Registry L S) : RegistryAction A S → Registry L S
  | .onAccepted fd lease fault => (r.onAccepted app fd lease fault).1
  | .event fd mask => r.event app fd mask
  | .call fd program _ => r.on app fd program
  | .expireConnection fd identity => r.expireConnection app fd identity
  | .deliverContinuation fd identity => r.deliverContinuation app fd identity
  | .onClose fd identity => r.onClose fd identity
  | .onCleanup => r.onCleanup app
  | .beginConnectionsDrain force => r.beginConnectionsDrain app force
  | .environment host shared => { r with host := host, shared := shared }

def connectionRegistry (app : Application A L S) : Machine (Registry L S) (RegistryAction A S) Empty :=
  ⟨fun r action => (r.act app action, [])⟩

end HpServer.Net
