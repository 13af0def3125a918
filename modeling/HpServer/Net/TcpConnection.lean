/-
**`net/TcpConnection`: one registered connection, with what `net/ConnectionRegistry` does for it.**

A `Cell` is a connection with its `ConnectionIo`, what it meets outside, its registry and the state of the
application above it. The application is three callbacks. Member functions are programs on the cell: they
may throw half-way, and what they changed before stays changed.

* `requestClose`, `updateInterest`, `pauseReading`, `resumeReading`, `closeAfterFlush`, `sendBytes`,
  `sendFile`, `beginConnectionDrain`, `scheduleContinuation` — what the application calls.
* `onTimeoutActivity`, `onContinuationActivity`, `deliverContinuation`, `expireConnection` — the registry's
  part. A timer is its deadline.
* `readMessages`, `flushOutput`, `handleConnectionEvent` — the two loops and the event that runs them.
-/

import HpServer.Net.ConnectionIo

namespace HpServer.Net

open Base Programs

/-! ### Connections and their surroundings -/

inductive ConnectionState where
  | unregistered | active | closing
  deriving DecidableEq, Repr

/-- What a channel is registered for: `EPOLLIN | EPOLLRDHUP`, `EPOLLOUT`. -/
structure Interest where
  input : Bool := false
  output : Bool := false
  deriving DecidableEq, Repr

/-- The events of one dispatch. -/
structure EventMask where
  input : Bool := false
  peerHangup : Bool := false
  output : Bool := false
  error : Bool := false
  hangup : Bool := false
  deriving DecidableEq, Repr

/-- In units of the clock; zero for none. -/
structure ConnectionTimeouts where
  idle : Nat := 0
  keepAlive : Nat := 0
  deriving DecidableEq, Repr

/-- `closeRequested` is that of `lastResult_`, whose other members are only logged. The continuation is the
number it was made with, and `timeoutTimer`, `continuationTimer` are the deadlines of the armed timers. -/
structure TcpConnection where
  identity : Nat
  state : ConnectionState := .unregistered
  interest : Interest := {}
  idleWaiting : Bool := false
  lastProgress : Nat := 0
  waitSince : Option Nat := none
  timeoutTimer : Option Nat := none
  readDeadline : Option Nat := none
  continuation : Option Nat := none
  continuationDeadline : Option Nat := none
  continuationTimer : Option Nat := none
  inputStopped : Bool := false
  draining : Bool := false
  readPaused : Bool := false
  handlingEvent : Bool := false
  eofNotified : Bool := false
  closeRequested : Bool := false
  queuedForRecovery : Bool := false
  deriving DecidableEq, Repr

/-- The members of the registry that a connection reads and writes; `closing` is the list from
`closingHead_`, by identity. -/
structure ConnectionRegistry where
  timeouts : ConnectionTimeouts := {}
  draining : Bool := false
  closing : List Nat := []
  deriving DecidableEq, Repr

/-- A connection, with the application state `app`. -/
structure Cell (A : Type) where
  io : ConnectionIo
  host : Host
  conn : TcpConnection
  registry : ConnectionRegistry
  app : A

abbrev Run (A : Type) := EStateM Failure (Cell A)

/-- The application: what it does with a message and when its output has been taken, and whether it has set
`writeCompleteCallback_` yet. -/
structure Callbacks (A : Type) where
  onMessage : Run A Unit
  onWriteComplete : Run A Unit
  writeComplete : A → Bool

variable {A : Type}

def onConnection (change : TcpConnection → TcpConnection) : Run A Unit :=
  modify fun c => { c with conn := change c.conn }

/-- A call of the connection's `ConnectionIo`. -/
def onIo {α : Type} (call : EStateM Failure Port α) : Run A α := fun c =>
  match call ⟨c.io, c.host⟩ with
  | .ok value p => .ok value { c with io := p.io, host := p.host }
  | .error e p => .error e { c with io := p.io, host := p.host }

/-- The clock moves when it is read. -/
def Cell.ticked (c : Cell A) : Cell A :=
  { c with host := { c.host with now := c.host.now + c.host.ticks.headD 0, ticks := c.host.ticks.tail } }

/-- `Clock::now`. -/
def readClock : Run A Nat := do
  modify Cell.ticked
  let c ← get
  pure c.host.now

/-- The loop is asked for a timer. -/
def Cell.asked (c : Cell A) : Cell A := { c with host := { c.host with timers := c.host.timers.tail } }

/-- `EventLoop::timersAllowed`. -/
def timersAllowed : Run A Bool := do
  let c ← get
  set c.asked
  pure (c.host.timers.headD true)

/-! ### Closing -/

/-- `deactivateConnection`. The registry's answer to a closing connection is to cancel both timers. -/
def TcpConnection.deactivate (conn : TcpConnection) : TcpConnection :=
  { conn with
    continuation := none
    continuationDeadline := none
    continuationTimer := none
    state := .closing
    readDeadline := none
    interest := {}
    timeoutTimer := none }

/-- `ConnectionRegistry::onClose`, for a connection of the registry. -/
def Cell.onClose (c : Cell A) : Cell A :=
  if c.conn.queuedForRecovery then c
  else
    { c with
      conn := { c.conn with queuedForRecovery := true }
      registry := { c.registry with closing := c.conn.identity :: c.registry.closing } }

def Cell.requestClose (c : Cell A) : Cell A :=
  if c.conn.state = .closing then c else { c with conn := c.conn.deactivate }.onClose

def requestClose : Run A Unit := modify Cell.requestClose

/-! ### Timers -/

def cancelTimeout : Run A Unit := onConnection fun conn => { conn with timeoutTimer := none }

/-- When the connection times out, if it does: the earliest of its three deadlines. -/
def timeoutDeadline (timeouts : ConnectionTimeouts) (conn : TcpConnection) : Option Nat :=
  let idle := if timeouts.idle = 0 then none else some (conn.lastProgress + timeouts.idle)
  let kept :=
    match conn.waitSince with
    | none => idle
    | some since =>
      if timeouts.keepAlive = 0 then idle
      else
        match idle with
        | none => some (since + timeouts.keepAlive)
        | some deadline => some (if since + timeouts.keepAlive < deadline then since + timeouts.keepAlive else deadline)
  match conn.readDeadline with
  | none => kept
  | some read =>
    match kept with
    | none => some read
    | some deadline => some (if read < deadline then read else deadline)

/-- What `onTimeoutActivity` notes at a time. -/
def TcpConnection.progressAt (conn : TcpConnection) (progress : Bool) (now : Nat) : TcpConnection :=
  { conn with
    lastProgress := if progress then now else conn.lastProgress
    waitSince := if conn.idleWaiting then some (conn.waitSince.getD now) else none }

/-- The timer of a connection is moved or added. -/
def armTimeout (deadline : Nat) : Run A Unit := do
  let c ← get
  let allowed ← timersAllowed
  if allowed then onConnection fun conn => { conn with timeoutTimer := some deadline }
  else if c.conn.timeoutTimer.isSome then requestClose
  else do
    requestClose
    throw (.error "timer on stopping EventLoop")

def onTimeoutActivity (progress : Bool) : Run A Unit := do
  let c ← get
  if c.registry.draining || c.conn.draining || c.conn.state = .closing then cancelTimeout
  else do
    let now ← readClock
    onConnection (·.progressAt progress now)
    let c ← get
    match timeoutDeadline c.registry.timeouts c.conn with
    | none => cancelTimeout
    | some deadline => armTimeout deadline

def onContinuationActivity : Run A Unit := do
  onConnection fun conn => { conn with continuationTimer := none }
  let c ← get
  match c.conn.continuation, c.conn.continuationDeadline with
  | some _, some deadline =>
    if c.registry.draining || c.conn.draining || c.conn.state ≠ .active then pure ()
    else do
      let allowed ← timersAllowed
      if allowed then onConnection fun conn => { conn with continuationTimer := some deadline }
      else throw (.error "timer on stopping EventLoop")
  | _, _ => pure ()

def scheduleContinuation (deadline : Nat) (continuation : Nat) : Run A Unit := do
  let c ← get
  if c.conn.state ≠ .active || c.conn.draining then
    throw (.error "continuation requires active registered connection")
  else do
    onConnection fun conn =>
      { conn with continuation := some continuation, continuationDeadline := some deadline }
    onContinuationActivity

def cancelContinuation : Run A Unit := do
  onConnection fun conn => { conn with continuation := none, continuationDeadline := none }
  onContinuationActivity

/-! ### What the application calls -/

/-- The interest that fits a connection. -/
def Cell.wanted (c : Cell A) : Interest :=
  { input := !c.conn.inputStopped && !c.conn.readPaused && c.io.acceptsInput
    output := c.io.hasPendingOutput }

def updateInterest : Run A Unit := modify fun c => { c with conn := { c.conn with interest := c.wanted } }

/-- The interest is left to the end of an event. -/
def updateOutsideEvent : Run A Unit := do
  let c ← get
  whenever (!c.conn.handlingEvent && c.conn.state = .active) updateInterest

def pauseReading : Run A Unit := do
  onConnection fun conn => { conn with readPaused := true }
  updateOutsideEvent

def resumeReading : Run A Unit := do
  onConnection fun conn => { conn with readPaused := false }
  updateOutsideEvent

def setIdleWait (waiting : Bool) : Run A Unit := do
  let c ← get
  if c.conn.idleWaiting = waiting then pure ()
  else do
    onConnection fun conn => { conn with idleWaiting := waiting }
    onTimeoutActivity false

def setReadDeadline (deadline : Option Nat) : Run A Unit := do
  let c ← get
  if c.conn.state = .closing || c.conn.draining then pure ()
  else if c.conn.readDeadline = deadline then pure ()
  else do
    onConnection fun conn => { conn with readDeadline := deadline }
    onTimeoutActivity false

def closeAfterFlush : Run A Unit := do
  onConnection fun conn => { conn with inputStopped := true }
  let c ← get
  if !c.io.hasPendingOutput then requestClose else updateOutsideEvent

def beginConnectionDrain : Run A Unit := do
  let c ← get
  if c.conn.state = .closing || c.conn.draining then pure ()
  else do
    onConnection fun conn => { conn with draining := true }
    cancelContinuation
    onConnection fun conn =>
      { conn with readDeadline := none, inputStopped := true, readPaused := true, idleWaiting := false }
    onTimeoutActivity false
    let c ← get
    if !c.io.hasPendingOutput then requestClose else updateInterest

/-- `sendBytes` and `sendFile`: what is queued is flushed by the next event. Without a write callback the
source flushes here; the application sends nothing before it has set that callback. -/
def send (call : EStateM Failure Port Unit) : Run A Unit := do
  let c ← get
  if c.conn.state = .closing || c.conn.draining then
    throw (.error "send on closed or draining connection")
  else
    tryCatch
      (do
        onIo call
        updateOutsideEvent)
      fun failure => do
        requestClose
        throw failure

def sendBytes (bytes : Bytes) : Run A Unit := send (queueOutput bytes)

def sendFile (header : Bytes) (file : FileRegion) : Run A Unit := send (queueFile header file)

def consumeInputBytes (count : Nat) : Run A Unit := do
  let c ← get
  match c.io.input.consumeReadableBytes count with
  | none => throw (.error "buffer consume exceeds readable bytes")
  | some input => set { c with io := { c.io with input := input } }

/-! ### Events -/

section Events

variable (callbacks : Callbacks A)

def requestCloseAfterEvent : Run A Unit := onConnection fun conn => { conn with closeRequested := true }

/-- A turn of the loop of `readMessages`, behind `readOnce`. -/
def handleRead (read : ReadResult) : Run A Unit := do
  whenever (read.bytesRead ≠ 0) do
    onConnection fun conn => { conn with idleWaiting := false }
    onTimeoutActivity true
  let c ← get
  whenever (read.bytesRead ≠ 0 || (read.peerClosed && !c.conn.eofNotified)) do
    onConnection fun conn => { conn with eofNotified := conn.eofNotified || read.peerClosed }
    callbacks.onMessage
  let c ← get
  whenever (read.peerClosed && !callbacks.writeComplete c.app)
    (onConnection fun conn => { conn with inputStopped := true })
  whenever read.errorNumber.isSome requestCloseAfterEvent

/-- Every turn but the last uses up a result of `recv`, so one turn more than there are results is enough
fuel. -/
def readLoop : Nat → Run A Unit
  | 0 => pure ()
  | fuel + 1 => do
    let c ← get
    if c.conn.state = .active && !c.conn.inputStopped && !c.conn.readPaused then do
      let read ← onIo readOnce
      handleRead callbacks read
      if read.bytesRead = 0 then pure () else readLoop fuel
    else pure ()

def readMessages : Run A Unit := do
  let c ← get
  readLoop callbacks (c.host.recvs.length + 1)

/-- A turn of the loop of `flushOutput`, behind `writeAvailable`: whether another follows. -/
def handleWritten (written : WriteResult) : Run A Bool := do
  whenever (written.bytesWritten ≠ 0) (onTimeoutActivity true)
  if written.errorNumber.isSome then do
    requestCloseAfterEvent
    pure false
  else if written.wouldBlock then pure false
  else do
    let c ← get
    if !c.io.hasPendingOutput && written.bytesWritten ≠ 0 && callbacks.writeComplete c.app
        && (!c.conn.inputStopped || c.conn.draining) then do
      -- what the callback sends is queued, and sent by the next turn
      callbacks.onWriteComplete
      pure (!written.fileTransfer)
    else pure false

/-- Likewise with the results of `send` and `sendfile`. -/
def flushLoop : Nat → Run A Unit
  | 0 => pure ()
  | fuel + 1 => do
    let c ← get
    if c.conn.state = .active && c.io.hasPendingOutput then do
      let written ← onIo writeAvailable
      let more ← handleWritten callbacks written
      if more then flushLoop fuel else pure ()
    else pure ()

def flushOutput : Run A Unit := do
  let c ← get
  flushLoop callbacks (c.host.sends.length + 1)
  let c ← get
  whenever (c.conn.inputStopped && !c.io.hasPendingOutput) requestCloseAfterEvent
  let c ← get
  whenever (!c.conn.handlingEvent && c.conn.closeRequested) requestClose

/-- The `try` block of `handleConnectionEvent`. -/
def runEvent (mask : EventMask) : Run A Unit := do
  whenever mask.error requestCloseAfterEvent
  whenever (mask.input || mask.peerHangup) (readMessages callbacks)
  let c ← get
  whenever (c.conn.state = .active) (flushOutput callbacks)
  whenever mask.hangup requestCloseAfterEvent
  let c ← get
  whenever (c.conn.state = .active) (if c.conn.closeRequested then requestClose else updateInterest)

def handleConnectionEvent (mask : EventMask) : Run A Unit := do
  let c ← get
  if c.conn.state ≠ .active then pure ()
  else do
    onConnection fun conn => { conn with closeRequested := false, handlingEvent := true }
    tryCatch (runEvent callbacks mask) fun _ => requestClose
    onConnection fun conn => { conn with handlingEvent := false }

end Events

/-- `ConnectionRegistry::deliverContinuation`, for a connection of the registry. -/
def deliverContinuation (onContinuation : Nat → Run A Unit) : Run A Unit := do
  let c ← get
  onConnection fun conn =>
    { conn with continuationTimer := none, continuationDeadline := none, continuation := none }
  if c.registry.draining || c.conn.draining || c.conn.state ≠ .active then pure ()
  else
    match c.conn.continuation with
    | none => pure ()
    | some continuation => onContinuation continuation

/-- `ConnectionRegistry::expireConnection`, likewise. -/
def expireConnection : Run A Unit := do
  let c ← get
  if c.registry.draining then pure ()
  else do
    onConnection fun conn => { conn with timeoutTimer := none }
    requestClose

end HpServer.Net
