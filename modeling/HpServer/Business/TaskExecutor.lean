/-
**The bounded task executor.**

`BoundedTaskExecutor` keeps every admitted job three times: in the FIFO `queue_` while it waits, in one of
34 `slots_` until it is released, and in the counters of its snapshot. Clients submit, cancel and collect,
one or two workers take and finish; every one of these holds the mutex, so any interleaving of threads is
a list of actions.

* `TaskJob`, `Executor` — a job behind its handle, and the executor.
* `submitTask`, `retireJob`, `cancelLocked`, `cancelTask`, `collectTask`, `stopAcceptingAndCancel` — the
  clients' side; `takeTask`, `executeTask`, `finishTask` — the two locked sections of `runWorkerTasks` and
  what is between them.
* `executor` — the executor as a machine that reports what it does to each job.

A handle is the number of the job: a `shared_ptr` keeps its job alive, so an address is not used again
while a handle to it exists. Notifications only decide when a waiting worker looks again; a worker that
looks too early goes on waiting.
-/

import HpServer.Library.Machine
import HpServer.Library.Table

namespace HpServer.Business

open Machines

inductive TaskAdmission where
  | accepted | overloaded | stopping
  deriving DecidableEq, Repr

inductive TaskJobState where
  | queued | running | ready | retired
  deriving DecidableEq, Repr

structure TaskExecutorOptions where
  threads : Nat := 2
  queueCapacity : Nat := 32
  timeout : Nat := 1000
  deriving DecidableEq, Repr

structure TaskExecutorSnapshot where
  queued : Nat := 0
  running : Nat := 0
  ready : Nat := 0
  outstanding : Nat := 0
  admitted : Nat := 0
  released : Nat := 0
  deriving DecidableEq, Repr

/-- The handle of a job: how many were admitted before it. -/
abbrev JobId := Nat

/-- A job on a work object of any type. -/
structure TaskJob (W : Type) where
  state : TaskJobState := .queued
  cancelled : Bool := false
  deadline : Nat
  slot : Nat
  work : Option W
  deriving DecidableEq, Repr

structure TaskSubmission where
  admission : TaskAdmission
  job : Option JobId := none
  deriving DecidableEq, Repr

structure TaskCollection (W : Type) where
  state : TaskJobState
  work : Option W := none
  deriving DecidableEq, Repr

/-- Where a worker is: before its first locked section, between the two, with the work not yet or
already looked at, or gone. -/
inductive Worker (W : Type) where
  | waiting
  | holding (job : JobId) (work : Option W)
  | finishing (job : JobId)
  | returned
  deriving DecidableEq, Repr

/-- `slots_.size()`. -/
def slotCount : Nat := 34

structure Executor (W : Type) where
  options : TaskExecutorOptions
  stopping : Bool := false
  queue : List JobId := []
  slots : List (Option JobId) := List.replicate slotCount none
  jobs : List (TaskJob W) := []
  workers : List (Worker W)
  counts : TaskExecutorSnapshot := {}
  deriving DecidableEq, Repr

variable {W : Type}

def TaskExecutorOptions.Admitted (o : TaskExecutorOptions) : Prop :=
  0 < o.threads ∧ o.threads ≤ 2 ∧ 0 < o.queueCapacity ∧ o.queueCapacity ≤ 32 ∧ 0 < o.timeout

instance (o : TaskExecutorOptions) : Decidable o.Admitted := by
  unfold TaskExecutorOptions.Admitted
  infer_instance

/-- The constructor, with its workers at their first section. -/
def makeExecutor (o : TaskExecutorOptions) : Except String (Executor W) :=
  if o.Admitted then .ok { options := o, workers := List.replicate o.threads .waiting }
  else .error "invalid task executor limits"

/-! ### Clients -/

namespace Executor

def ownsJob (e : Executor W) (handle : Option JobId) : Bool :=
  match handle with
  | none => false
  | some id =>
    match e.jobs[id]? with
    | none => false
    | some job => job.slot < e.slots.length && e.slots[job.slot]? == some (some id)

/-- `submitTask` at a time of the clock. -/
def submitTask (e : Executor W) (work : Option W) (now : Nat) :
    Except String (Executor W × TaskSubmission) :=
  match work with
  | none => .error "task work is required"
  | some work =>
    if e.stopping then .ok (e, { admission := .stopping })
    else if e.queue.length = e.options.queueCapacity
        || e.counts.outstanding = e.options.threads + e.options.queueCapacity then
      .ok (e, { admission := .overloaded })
    else
      let id := e.jobs.length
      let slot := e.slots.findIdx Option.isNone
      let job : TaskJob W := { deadline := now + e.options.timeout, slot := slot, work := some work }
      .ok
        ({ e with
            jobs := e.jobs ++ [job]
            queue := e.queue ++ [id]
            slots := e.slots.set slot (some id)
            counts :=
              { e.counts with
                queued := e.counts.queued + 1
                outstanding := e.counts.outstanding + 1
                admitted := e.counts.admitted + 1 } },
          { admission := .accepted, job := some id })

/-- `retireJob`: the slot and the counters are given back, the work is moved out. -/
def retireJob (e : Executor W) (id : JobId) (job : TaskJob W) : Executor W × Option W :=
  ({ e with
      jobs := e.jobs.set id { job with state := .retired, work := none }
      slots := e.slots.set job.slot none
      counts :=
        { e.counts with
          queued := if job.state = .queued then e.counts.queued - 1 else e.counts.queued
          running := if job.state = .running then e.counts.running - 1 else e.counts.running
          ready := if job.state = .ready then e.counts.ready - 1 else e.counts.ready
          outstanding := e.counts.outstanding - 1
          released := e.counts.released + 1 } },
    job.work)

/-- `cancelLocked` on an owned job. -/
def cancelOwned (e : Executor W) (id : JobId) (job : TaskJob W) : Executor W × Option W :=
  let job := { job with cancelled := true }
  if job.state = .running then ({ e with jobs := e.jobs.set id job }, none)
  else if job.state = .queued then
    retireJob { e with jobs := e.jobs.set id job, queue := e.queue.erase id } id job
  else retireJob { e with jobs := e.jobs.set id job } id job

def cancelLocked (e : Executor W) (handle : Option JobId) : Executor W × Option W :=
  if e.ownsJob handle then
    match handle with
    | none => (e, none)
    | some id =>
      match e.jobs[id]? with
      | none => (e, none)
      | some job => e.cancelOwned id job
  else (e, none)

def cancelTask (e : Executor W) (handle : Option JobId) : Executor W := (e.cancelLocked handle).1

def collectTask (e : Executor W) (handle : Option JobId) : Executor W × TaskCollection W :=
  if e.ownsJob handle then
    match handle with
    | none => (e, { state := .retired })
    | some id =>
      match e.jobs[id]? with
      | none => (e, { state := .retired })
      | some job =>
        if job.state ≠ .ready then (e, { state := job.state })
        else ((e.retireJob id job).1, { state := .ready, work := (e.retireJob id job).2 })
  else (e, { state := .retired })

/-- One turn of the loop in `stopAcceptingAndCancel`. -/
def cancelSlot (e : Executor W) (i : Nat) : Executor W :=
  match e.slots[i]? with
  | some (some id) => (e.cancelLocked (some id)).1
  | _ => e

@[irreducible] def stopAcceptingAndCancel (e : Executor W) : Executor W :=
  (List.range slotCount).foldl cancelSlot { e with stopping := true }

/-! ### Workers -/

/-- The first locked section of `runWorkerTasks`. -/
def takeTask (e : Executor W) (w : Nat) : Executor W :=
  match e.workers[w]? with
  | some .waiting =>
    if e.stopping then { e with workers := e.workers.set w .returned }
    else
      match e.queue with
      | [] => e
      | id :: queue =>
        match e.jobs[id]? with
        | none => e
        | some job =>
          { e with
            queue := queue
            jobs := e.jobs.set id { job with state := .running }
            workers := e.workers.set w (.holding id job.work)
            counts :=
              { e.counts with
                queued := e.counts.queued - 1
                running := e.counts.running + 1 } }
  | _ => e

/-- Between the sections: the work runs unless `stopRequested()`; what is run. -/
def executeTask (e : Executor W) (w : Nat) (now : Nat) : Executor W × Option (JobId × Option W) :=
  match e.workers[w]? with
  | some (.holding id work) =>
    let next := { e with workers := e.workers.set w (.finishing id) }
    match e.jobs[id]? with
    | none => (next, none)
    | some job =>
      if job.cancelled || job.deadline ≤ now then (next, none) else (next, some (id, work))
  | _ => (e, none)

/-- The second locked section. -/
def finishTask (e : Executor W) (w : Nat) : Executor W :=
  match e.workers[w]? with
  | some (.finishing id) =>
    let next := { e with workers := e.workers.set w .waiting }
    match e.jobs[id]? with
    | none => next
    | some job =>
      if job.cancelled then (next.retireJob id job).1
      else
        { next with
          jobs := e.jobs.set id { job with state := .ready }
          counts :=
            { e.counts with
              running := e.counts.running - 1
              ready := e.counts.ready + 1 } }
  | _ => e

end Executor

/-! ### The machine -/

/-- What a thread may do next. -/
inductive TaskAction (W : Type) where
  | submit (work : Option W) (now : Nat)
  | cancel (handle : Option JobId)
  | collect (handle : Option JobId)
  | stop
  | take (worker : Nat)
  | execute (worker : Nat) (now : Nat)
  | finish (worker : Nat)
  deriving DecidableEq, Repr

/-- What is reported of it. -/
inductive TaskEvent (W : Type) where
  | submitted (job : JobId) (work : Option W)
  | withdrawn (job : JobId)
  | taken (job : JobId)
  | executed (job : JobId) (work : Option W)
  | collected (handle : Option JobId) (result : TaskCollection W)
  deriving DecidableEq, Repr

/-- The jobs that have left the queue. -/
def leftQueue (before after : Executor W) : List JobId :=
  before.queue.filter fun id => id ∉ after.queue

/-- One operation. A job that leaves the queue in `cancel` or `stop` is withdrawn, one that leaves it in
`take` is taken. -/
def Executor.act (e : Executor W) : TaskAction W → Executor W × List (TaskEvent W)
  | .submit work now =>
    match e.submitTask work now with
    | .error _ => (e, [])
    | .ok (next, result) => (next, result.job.toList.map fun id => .submitted id work)
  | .cancel handle =>
    (e.cancelTask handle, (leftQueue e (e.cancelTask handle)).map .withdrawn)
  | .collect handle =>
    ((e.collectTask handle).1, [.collected handle (e.collectTask handle).2])
  | .stop =>
    (e.stopAcceptingAndCancel, (leftQueue e e.stopAcceptingAndCancel).map .withdrawn)
  | .take w => (e.takeTask w, (leftQueue e (e.takeTask w)).map .taken)
  | .execute w now =>
    ((e.executeTask w now).1, (e.executeTask w now).2.toList.map fun run => .executed run.1 run.2)
  | .finish w => (e.finishTask w, [])

def executor (W : Type) : Machine (Executor W) (TaskAction W) (TaskEvent W) := ⟨Executor.act⟩

end HpServer.Business
