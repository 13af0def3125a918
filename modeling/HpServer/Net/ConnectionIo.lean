/-
**`net/ConnectionIo`: the buffers of one connection and the system calls on its socket.**

The kernel is the list of results its calls will return. `recv` returns bytes of the client, the end of
its stream or an error; `send` and `sendfile` take a positive number of the bytes offered, or none, or
fail. When the list is used up a call returns `EAGAIN`. A `Port` is a `ConnectionIo` with the kernel, the
clock and the ledger it uses; `Socket` is what has passed through the socket.

* `readOnce`, `writeAvailable`, `queueOutput`, `queueFile`.
* `pendingOutput` — the bytes not taken by the kernel yet, the memory before the file.
-/

import HpServer.Base.Buffer
import HpServer.Base.ResourceBudget
import HpServer.Library.Program

namespace HpServer.Net

open Base Programs

/-! ### The kernel -/

inductive Errno where
  | interrupted | wouldBlock | other (number : Nat)
  deriving DecidableEq, Repr

/-- What `recv` returns: a positive number of bytes, 0, or an error. -/
inductive RecvResult where
  | data (first : UInt8) (rest : Bytes)
  | eof
  | failed (error : Errno)
  deriving DecidableEq, Repr

/-- What `send` or `sendfile` returns: `more + 1` bytes, or all that was offered if that is less; 0; or an
error. `sendFileWithoutSigpipe` may report that it could not restore the signal mask after sending. -/
inductive WriteCall where
  | accepted (more : Nat) (unrestored : Option Nat)
  | zero
  | failed (error : Errno)
  deriving DecidableEq, Repr

/-- The results of `send` and `sendfile` that end a connection. -/
def WriteCall.Fatal : WriteCall → Prop
  | .accepted _ unrestored => unrestored ≠ none
  | .zero => True
  | .failed error => ∃ number, error = .other number

/-- What a connection meets outside itself: the clock and how far each reading of it will move it, the
results of the calls to come, whether memory is granted when its buffers ask for it, whether its loop
takes a timer when it is asked to, and the shared ledger. -/
structure Host where
  now : Nat := 0
  ticks : List Nat := []
  recvs : List RecvResult := []
  sends : List WriteCall := []
  allocations : List Bool := []
  timers : List Bool := []
  budget : Option ResourceBudget := none
  deriving DecidableEq, Repr

/-- Whether the next request for memory is granted. -/
def Host.allocates (host : Host) : Bool := host.allocations.headD true

/-- The requests for memory after that one. -/
def Host.allocated (host : Host) : Host := { host with allocations := host.allocations.tail }

/-- What has passed through the socket, whether a write failed, and whether a read was tried with the
input window full. -/
structure Socket where
  received : Bytes := []
  accepted : Bytes := []
  failed : Bool := false
  overflowed : Bool := false
  deriving DecidableEq, Repr

def EPIPE : Nat := 32
def EIO : Nat := 5
def EMSGSIZE : Nat := 90

/-! ### The buffers -/

structure ReadResult where
  bytesRead : Nat := 0
  wouldBlock : Bool := false
  peerClosed : Bool := false
  errorNumber : Option Nat := none
  deriving DecidableEq, Repr

structure WriteResult where
  bytesWritten : Nat := 0
  fileTransfer : Bool := false
  wouldBlock : Bool := false
  errorNumber : Option Nat := none
  deriving DecidableEq, Repr

def kOutputLimit : Nat := 9 * 1024 * 1024
def kFileWriteBudget : Nat := 256 * 1024
def kFileCallBudget : Nat := 16
def kRetainedOutput : Nat := 64 * 1024

structure ConnectionIo where
  outputLease : ResourceLease := {}
  maxInputBytes : Nat := 0
  input : Buffer
  output : Buffer := { limit := kOutputLimit }
  file : Option FileRegion := none
  peerHalfClosed : Bool := false
  socket : Socket := {}

/-- The constructor. -/
def makeConnectionIo (maxInputBytes : Nat) : ConnectionIo :=
  { maxInputBytes := maxInputBytes
    input := emptyBuffer (if maxInputBytes = 0 then sizeMax else maxInputBytes)
    output := emptyBuffer kOutputLimit }

/-- A `ConnectionIo` and what it meets. -/
structure Port where
  io : ConnectionIo
  host : Host

/-- What the source throws: the one exception that is caught by its type, or another. -/
inductive Failure where
  | resourceLimit
  | error (what : String)
  deriving DecidableEq, Repr

namespace ConnectionIo

variable (io : ConnectionIo)

def acceptsInput : Bool := !io.peerHalfClosed

def fileRemaining : Nat := (io.file.map FileRegion.remaining).getD 0

def hasPendingOutput : Bool := io.output.readableBytes ≠ 0 || io.fileRemaining ≠ 0

def pendingBytes : Nat := io.output.readableBytes + io.fileRemaining

/-- The bytes still to be taken by the kernel. -/
def pendingOutput : Bytes := io.output.readableView ++ (io.file.map FileRegion.view).getD []

end ConnectionIo

def outputFits (pending incoming : Nat) : Bool := pending ≤ kOutputLimit && incoming ≤ kOutputLimit - pending

theorem outputFits_iff (pending incoming : Nat) :
    outputFits pending incoming = true ↔ pending + incoming ≤ kOutputLimit := by
  simp only [outputFits, Bool.and_eq_true, decide_eq_true_eq]
  omega

/-! ### Reading -/

/-- The `recv` loop: `EINTR` is tried again. -/
def nextRecv : List RecvResult → RecvResult × List RecvResult
  | [] => (.failed .wouldBlock, [])
  | .failed .interrupted :: rest => nextRecv rest
  | result :: rest => (result, rest)

/-- How many bytes the next `recv` asks for. -/
def ConnectionIo.readSize (io : ConnectionIo) : Nat :=
  let budget :=
    if io.maxInputBytes = 0 then 16 * 1024
    else min (16 * 1024) (io.maxInputBytes - io.input.readableBytes)
  min budget (if io.input.writableBytes = 0 then 4096 else io.input.writableBytes)

/-- What the kernel's answer does to a connection whose buffer has a prepared tail of `size` bytes. -/
def ConnectionIo.received (io : ConnectionIo) (size : Nat) : RecvResult → ConnectionIo × ReadResult
  | .data first rest =>
    let bytes := (first :: rest).take size
    match (io.input.fill bytes).commitWrittenBytes bytes.length with
    | none => (io, {})
    | some input =>
      if bytes = [] then ({ io with peerHalfClosed := true }, { peerClosed := true })
      else
        ({ io with
            input := input
            socket := { io.socket with received := io.socket.received ++ bytes } },
          { bytesRead := bytes.length })
  | .eof => ({ io with peerHalfClosed := true }, { peerClosed := true })
  | .failed (.other number) => (io, { errorNumber := some number })
  | .failed .interrupted => (io, {})
  | .failed .wouldBlock => (io, { wouldBlock := true })

def readOnce : EStateM Failure Port ReadResult := do
  let p ← get
  if p.io.peerHalfClosed then pure { peerClosed := true }
  else if p.io.maxInputBytes ≠ 0 && p.io.maxInputBytes ≤ p.io.input.readableBytes then
    set { p with io := { p.io with socket := { p.io.socket with overflowed := true } } }
    pure { errorNumber := some EMSGSIZE }
  else
    set { p with host := p.host.allocated }
    match p.io.input.prepareWritableBytes p.io.readSize p.host.allocates with
    | none => throw (.error "buffer limit exceeded")
    | some input =>
      let answer := nextRecv p.host.recvs
      let next := { p.io with input := input }.received p.io.readSize answer.1
      set { p with io := next.1, host := { p.host.allocated with recvs := answer.2 } : Port }
      pure next.2

/-! ### Writing -/

/-- The state of `writeAvailable`: what it has done, and how many calls and file bytes it has used. -/
structure Writing where
  io : ConnectionIo
  budget : Option ResourceBudget
  sends : List WriteCall
  result : WriteResult := {}
  calls : Nat := 0
  progress : Nat := 0

namespace Writing

/-- `outputLease_.releaseOutput`, where there is a ledger. -/
def release (w : Writing) (bytes : Nat) : Writing :=
  match w.budget with
  | none => w
  | some budget =>
    let result := (budget.releaseOutput w.io.outputLease bytes).value
    { w with budget := some result.1, io := { w.io with outputLease := result.2 } }

/-- Bytes the kernel has taken. -/
def accept (w : Writing) (bytes : Bytes) : Writing :=
  { w with
    io := { w.io with socket := { w.io.socket with accepted := w.io.socket.accepted ++ bytes } }
    result := { w.result with bytesWritten := w.result.bytesWritten + bytes.length } }

/-- `count` bytes from memory. -/
def acceptOutput (w : Writing) (count : Nat) : Writing :=
  match w.io.output.consumeReadableBytes count with
  | none => w
  | some output =>
    let bytes := w.io.output.readableView.take count
    ({ w with io := { w.io with output := output } }.release count).accept bytes

/-- `count` bytes from the file. -/
def acceptFile (w : Writing) (file : FileRegion) (count : Nat) : Writing :=
  match file.advanceFileOffset count with
  | none => w
  | some next =>
    let bytes := file.view.take count
    let w := { w with io := { w.io with file := some next }, progress := w.progress + count }
    (w.release count).accept bytes

def block (w : Writing) : Writing := { w with result := { w.result with wouldBlock := true } }

def fail (w : Writing) (number : Nat) : Writing :=
  { w with
    io := { w.io with socket := { w.io.socket with failed := true } }
    result := { w.result with errorNumber := some number } }

/-- A call is made, with the results after it. The source counts calls only while a file is pending, where
alone the count is read. -/
def call (w : Writing) (rest : List WriteCall) : Writing := { w with sends := rest, calls := w.calls + 1 }

/-- The memory loop of `writeAvailable`: where it ends, and whether the file loop follows. -/
def sendOutput : List WriteCall → Writing → Writing × Bool
  | sends, w =>
    if w.io.output.readableBytes = 0 then (w, true)
    else if w.result.fileTransfer && w.calls = kFileCallBudget then (w, false)
    else
      match sends with
      | [] => (w.block, false)
      | .accepted more _ :: rest =>
        sendOutput rest ((w.call rest).acceptOutput (min (more + 1) w.io.output.readableBytes))
      | .zero :: rest => ((w.call rest).fail EPIPE, false)
      | .failed .interrupted :: rest => sendOutput rest (w.call rest)
      | .failed .wouldBlock :: rest => ((w.call rest).block, false)
      | .failed (.other number) :: rest => ((w.call rest).fail number, false)

/-- The file loop, likewise. -/
def sendFile : List WriteCall → Writing → Writing × Bool
  | sends, w =>
    match w.io.file with
    | none => (w, true)
    | some file =>
      if file.remaining = 0 then (w, true)
      else if kFileCallBudget ≤ w.calls || w.progress = kFileWriteBudget then (w, false)
      else
        let count := min file.remaining (kFileWriteBudget - w.progress)
        match sends with
        | [] => (w.block, false)
        | .accepted more none :: rest =>
          sendFile rest ((w.call rest).acceptFile file (min (more + 1) count))
        | .accepted more (some number) :: rest =>
          (((w.call rest).acceptFile file (min (more + 1) count)).fail number, false)
        | .zero :: rest => ((w.call rest).fail EIO, false)
        | .failed .interrupted :: rest => sendFile rest (w.call rest)
        | .failed .wouldBlock :: rest => ((w.call rest).block, false)
        | .failed (.other number) :: rest => ((w.call rest).fail number, false)

/-- The end of `writeAvailable`, with nothing pending. -/
def settle (w : Writing) : Writing :=
  { w with io := { w.io with file := none, output := w.io.output.releaseEmpty kRetainedOutput } }

def run (w : Writing) : Writing :=
  let first := sendOutput w.sends w
  if first.2 then
    let second := sendFile first.1.sends first.1
    if second.2 then second.1.settle else second.1
  else first.1

end Writing

def writeAvailable : EStateM Failure Port WriteResult := do
  let p ← get
  let w : Writing :=
    { io := p.io
      budget := p.host.budget
      sends := p.host.sends
      result := { fileTransfer := p.io.file.isSome } }
  set { io := w.run.io, host := { p.host with budget := w.run.budget, sends := w.run.sends } : Port }
  pure w.run.result

/-! ### Queueing -/

/-- `tryAcquireOutput`, where there is a ledger: the lease. -/
def acquireOutput (bytes : Nat) : EStateM Failure Port ResourceLease := do
  let p ← get
  match p.host.budget with
  | none => pure {}
  | some budget =>
    let result := (budget.tryAcquireOutput bytes).value
    set { p with host := { p.host with budget := some result.1 } }
    if result.2.rejection = .none then pure result.2.lease else throw .resourceLimit

/-- The lease of what was acquired is destroyed by the exception. -/
def abandonOutput (lease : ResourceLease) (failure : Failure) : EStateM Failure Port Unit := do
  modify fun p =>
    { p with
      host := { p.host with budget := p.host.budget.map fun budget => (budget.reset lease).value.1 } }
  throw failure

def queueOutput (bytes : Bytes) : EStateM Failure Port Unit := do
  let p ← get
  if p.io.file.isSome then throw (.error "append while file output is pending")
  else if !outputFits p.io.pendingBytes bytes.length then
    throw (.error "connection output limit exceeded")
  else
    let lease ← acquireOutput bytes.length
    modify fun q => { q with host := q.host.allocated }
    match p.io.output.appendBytes bytes p.host.allocates with
    | none => abandonOutput lease (.error "buffer limit exceeded")
    | some output =>
      modify fun q =>
        { q with
          io := { q.io with output := output, outputLease := (q.io.outputLease.absorb lease).value.1 } }

def queueFile (header : Bytes) (file : FileRegion) : EStateM Failure Port Unit := do
  let p ← get
  if !file.isOpen then throw (.error "submission of moved file region")
  else if p.io.hasPendingOutput || p.io.file.isSome then
    throw (.error "file submission while output is pending")
  else if !outputFits header.length file.remaining then
    throw (.error "connection output limit exceeded")
  else
    let lease ← acquireOutput (header.length + file.remaining)
    modify fun q => { q with host := q.host.allocated }
    match p.io.output.appendBytes header p.host.allocates with
    | none => abandonOutput lease (.error "buffer limit exceeded")
    | some output =>
      modify fun q =>
        { q with
          io :=
            { q.io with
              output := output
              file := if file.remaining = 0 then none else some file
              outputLease := (q.io.outputLease.absorb lease).value.1 } }

end HpServer.Net
