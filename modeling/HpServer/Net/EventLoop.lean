/-
**`net/EventLoop`: tasks and control requests of one loop.**

Other threads enter through the locked functions; the owner goes through `pollOnce` one locked section at a time,
with user code between them: control callbacks, channel callbacks, the tasks themselves, timers and the
destructors of what a task holds. `LoopAt` is where the owner is. A task is a value of any type.

* `EventLoop` — what the mutex protects; `enqueueLoopTask`, `requestLoopStop`, `requestLoopDrain`,
  `requestLoopForceClose`, `notifyControl` — what other threads call.
* `LoopRun.proceed` — the owner goes on to its next section; user code may throw on the way.
* `eventLoop` — the machine, reporting what is accepted, executed and destroyed.
-/

import HpServer.Library.Machine

namespace HpServer.Net

open Machines

/-! ### What the mutex protects -/

inductive LoopStatus where
  | ready | running | stopping | stopped | failed
  deriving DecidableEq, Repr

inductive Control where
  | none | drain | force
  deriving DecidableEq, Repr

/-- `EventLoop::kTaskCapacity`. -/
def kTaskCapacity : Nat := 1024

/-- `failure` is whether `failure_` is set. -/
structure EventLoop (T : Type) where
  state : LoopStatus := .ready
  failure : Bool := false
  failureObserved : Bool := false
  tasks : List T := []
  outstanding : Nat := 0
  control : Control := .none
  controlDeadline : Int := 0
  controlPending : Bool := false
  deriving DecidableEq, Repr

namespace EventLoop

variable {T : Type} (l : EventLoop T)

/-- A write to the wake descriptor that fails is noted for the owner. -/
def wakeLocked (fails : Bool) : EventLoop T := if fails then { l with failure := true, state := .failed } else l

/-- The loop takes no more tasks. -/
def closed : Bool := l.state = .stopping || l.state = .stopped || l.state = .failed

/-- The state and whether the task was taken; without memory the call throws. -/
def enqueueLoopTask (task : T) (allocated wakeFails : Bool) : EventLoop T × Bool :=
  if l.closed || l.outstanding = kTaskCapacity || !allocated then (l, false)
  else (({ l with tasks := l.tasks ++ [task], outstanding := l.outstanding + 1 } : EventLoop T).wakeLocked wakeFails, true)

def ended : Bool := l.state = .stopped || l.state = .failed

def requestLoopDrain (deadline : Int) (wakeFails : Bool) : EventLoop T :=
  if l.ended || l.control = .force then l
  else
    ({ l with
      controlDeadline := if l.control = .none || deadline < l.controlDeadline then deadline else l.controlDeadline
      control := .drain
      controlPending := true } : EventLoop T).wakeLocked wakeFails

def requestLoopForceClose (wakeFails : Bool) : EventLoop T :=
  if l.ended then l
  else ({ l with control := .force, controlPending := true } : EventLoop T).wakeLocked wakeFails

def notifyControl (wakeFails : Bool) : EventLoop T :=
  if l.ended then l else ({ l with controlPending := true } : EventLoop T).wakeLocked wakeFails

/-- The locked section of `dispatchControl` at a time: what the callback is called with. -/
def dispatchControl (now : Int) : EventLoop T × Option (Control × Int) :=
  let l : EventLoop T :=
    if l.control = .drain && l.controlDeadline ≤ now then { l with control := .force, controlPending := true } else l
  if l.controlPending then ({ l with controlPending := false }, some (l.control, l.controlDeadline)) else (l, none)

def requestLoopStop (wakeFails : Bool) : EventLoop T :=
  if l.closed then l else ({ l with state := .stopping } : EventLoop T).wakeLocked wakeFails

/-- The locked section of `failEventLoop`, and the tasks it takes out. -/
def failEventLoop : EventLoop T × List T :=
  ({ l with failure := true, state := .failed, failureObserved := true, tasks := [] }, l.tasks)

/-- The end of `releaseTask`. -/
def releaseTask : EventLoop T := { l with outstanding := l.outstanding - 1 }

end EventLoop

/-! ### The owner -/

/-- Where the owner is: outside `pollOnce`; before its first check; dispatching events; before the next task of its
batch; in a task; destroying it; behind the batch; with an exception; destroying what it will not execute. -/
inductive LoopAt (T : Type) where
  | outside
  | entered
  | dispatching
  | next (batch : List T)
  | executing (task : T) (rest : List T)
  | releasing (task : T) (rest : List T)
  | finishing
  | catching (executing : Option T) (batch : List T)
  | cancelling (doomed : List T)
  deriving DecidableEq, Repr

/-- The task whose captures the owner is destroying. -/
def LoopAt.doomedTask {T : Type} : LoopAt T → Option T
  | .releasing task _ => some task
  | .cancelling (task :: _) => some task
  | _ => none

structure LoopRun (T : Type) where
  loop : EventLoop T := {}
  place : LoopAt T := .outside
  deriving DecidableEq, Repr

inductive LoopAction (T : Type) where
  | enqueueLoopTask (task : T) (allocated wakeFails : Bool)
  | requestLoopStop (wakeFails : Bool)
  | requestLoopDrain (deadline : Int) (wakeFails : Bool)
  | requestLoopForceClose (wakeFails : Bool)
  | notifyControl (wakeFails : Bool)
  | dispatchControl (now : Int)
  | runEventLoop
  | pollOnce
  | observeFailure
  | proceed (throws : Bool)

inductive LoopEvent (T : Type) where
  | accepted (task : T)
  | executed (task : T)
  | released (task : T)
  deriving DecidableEq, Repr

namespace LoopRun

variable {T : Type} (r : LoopRun T)

/-- The first lines of `runEventLoop`. -/
def runEventLoop : LoopRun T :=
  if r.loop.state = .ready then { r with loop := { r.loop with state := .running } } else r

/-- The first lines of `pollOnce`; a call inside another throws. -/
def pollOnce : LoopRun T :=
  match r.place with
  | .outside =>
    if r.loop.state = .stopped || (r.loop.state = .failed && r.loop.failureObserved) then r else { r with place := .entered }
  | _ => r

/-- `runEventLoop` looks for a failure behind each poll. -/
def observeFailure : LoopRun T :=
  match r.place with
  | .outside => if r.loop.state ≠ .stopped && r.loop.failure then { r with place := .catching none [] } else r
  | _ => r

/-- The owner goes on; `throws` is whether user code does on the way. -/
def proceed (throws : Bool) : LoopRun T × List (LoopEvent T) :=
  match r.place with
  | .outside => (r, [])
  | .entered =>
    if throws || r.loop.failure || r.loop.state = .stopped then ({ r with place := .catching none [] }, [])
    else ({ r with place := .dispatching }, [])
  | .dispatching =>
    if throws || r.loop.failure then ({ r with place := .catching none [] }, [])
    else ({ loop := { r.loop with tasks := [] }, place := .next r.loop.tasks }, [])
  | .next [] => ({ r with place := .finishing }, [])
  | .next (task :: rest) =>
    if throws || r.loop.failure then ({ r with place := .catching none (task :: rest) }, [])
    else ({ r with place := .executing task rest }, [.executed task])
  | .executing task rest =>
    if throws then ({ r with place := .catching (some task) rest }, []) else ({ r with place := .releasing task rest }, [])
  | .releasing task rest => ({ loop := r.loop.releaseTask, place := .next rest }, [.released task])
  | .finishing =>
    if throws then ({ r with place := .catching none [] }, [])
    else if r.loop.state = .stopping && r.loop.tasks.isEmpty then
      ({ loop := { r.loop with state := .stopped }, place := .outside }, [])
    else ({ r with place := .outside }, [])
  | .catching executing batch =>
    let failed := r.loop.failEventLoop
    ({ loop := failed.1, place := .cancelling (failed.2 ++ (executing.toList ++ batch)) }, [])
  | .cancelling [] => ({ r with place := .outside }, [])
  | .cancelling (task :: rest) => ({ loop := r.loop.releaseTask, place := .cancelling rest }, [.released task])

def onLoop (change : EventLoop T → EventLoop T) : LoopRun T := { r with loop := change r.loop }

def act : LoopAction T → LoopRun T × List (LoopEvent T)
  | .enqueueLoopTask task allocated wakeFails =>
    let result := r.loop.enqueueLoopTask task allocated wakeFails
    ({ r with loop := result.1 }, if result.2 then [.accepted task] else [])
  | .requestLoopStop wakeFails => (r.onLoop (·.requestLoopStop wakeFails), [])
  | .requestLoopDrain deadline wakeFails => (r.onLoop (·.requestLoopDrain deadline wakeFails), [])
  | .requestLoopForceClose wakeFails => (r.onLoop (·.requestLoopForceClose wakeFails), [])
  | .notifyControl wakeFails => (r.onLoop (·.notifyControl wakeFails), [])
  | .dispatchControl now => (r.onLoop fun l => (l.dispatchControl now).1, [])
  | .runEventLoop => (r.runEventLoop, [])
  | .pollOnce => (r.pollOnce, [])
  | .observeFailure => (r.observeFailure, [])
  | .proceed throws => r.proceed throws

end LoopRun

def eventLoop (T : Type) : Machine (LoopRun T) (LoopAction T) (LoopEvent T) := ⟨LoopRun.act⟩

end HpServer.Net
