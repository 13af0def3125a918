/-
**`app/AsyncTaskHandler`: task requests as jobs of the executor.**

A request for the task API becomes a `ResponseTaskWork` that a worker runs on the store; its answer is
collected from the executor. The work objects are kept in one list, and a `shared_ptr` to one is its place
there. `TaskBackend` is everything that is shared: the handler's store, the executor, the objects, and the
bodies the workers are running.

* `submitRequest`, `collectResponse`, `cancelRequest`, `timeoutResponse`, `failureResponse`.
* `TaskBackend.work` — what the worker threads do. Between the two locked sections a worker first asks
  whether to run the work; `ResponseTaskWork::executeTask` asks again (`enterBody`), and then answers with
  one call of the store (`runBody`), which other threads may delay as long as they like.
-/

import HpServer.Business.ExecutorHistory
import HpServer.Http.RequestRouter

namespace HpServer.App

open Business Http

/-- The place of a work object. -/
abbrev WorkId := Nat

structure ResponseTaskWork where
  route : TaskRoute
  request : HttpRequest
  policy : ConnectionPolicy
  response : Option ResponseResult := none

inductive AsyncDispatch where
  | synchronous | immediate | pending
  deriving DecidableEq, Repr

structure AsyncTaskSubmission where
  dispatch : AsyncDispatch
  response : Option ResponseResult := none
  job : Option JobId := none

/-- A call of `ResponseTaskWork::executeTask`, before and behind its `stopRequested`. -/
structure Body where
  job : JobId
  work : WorkId
  checked : Bool := false
  deriving DecidableEq, Repr

structure TaskBackend where
  executor : Executor WorkId
  works : List ResponseTaskWork := []
  /-- What each worker is running. -/
  bodies : Nat → Option Body := fun _ => none
  store : TaskService := {}

def overloadResponse : ResponseResult :=
  makeTaskJsonResponse .serviceUnavailable (text "\x7b\"error\":\"task_overloaded\"\x7d") .close false []

def timeoutResponse : ResponseResult :=
  makeTaskJsonResponse .serviceUnavailable (text "\x7b\"error\":\"task_timeout\"\x7d") .close false []

def failureResponse : ResponseResult :=
  makeTaskJsonResponse .internalServerError
    (text "\x7b\"error\":\x7b\"code\":\"internal_error\",\"message\":\"Internal error\"\x7d\x7d") .close false []

namespace TaskBackend

variable (b : TaskBackend)

def submitRequest (request : HttpRequest) (policy : ConnectionPolicy) (now : Nat) :
    TaskBackend × AsyncTaskSubmission :=
  match (parseRequestTarget request.target).target with
  | none => (b, { dispatch := .synchronous })
  | some target =>
    let route := classifyTaskRoute target
    if route.kind = .other then (b, { dispatch := .synchronous })
    else
      match prevalidateTask route request policy with
      | .error _ => (b, { dispatch := .immediate, response := some failureResponse })
      | .ok (some rejected) => (b, { dispatch := .immediate, response := some rejected })
      | .ok none =>
        let work : ResponseTaskWork := { route := route, request := request, policy := policy }
        match b.executor.submitTask (some b.works.length) now with
        | .error _ => (b, { dispatch := .immediate, response := some failureResponse })
        | .ok (executor, admitted) =>
          if admitted.admission ≠ .accepted then
            ({ b with executor := executor }, { dispatch := .immediate, response := some overloadResponse })
          else
            ({ b with executor := executor, works := b.works ++ [work] },
              { dispatch := .pending, job := admitted.job })

def collectResponse (job : Option JobId) : TaskBackend × Option ResponseResult :=
  let result := b.executor.collectTask job
  let next := { b with executor := result.1 }
  if result.2.state = .queued || result.2.state = .running then (next, none)
  else
    match result.2.work with
    | none => (next, some failureResponse)
    | some work => (next, some (((b.works[work]?).bind ResponseTaskWork.response).getD failureResponse))

def cancelRequest (job : Option JobId) : TaskBackend := { b with executor := b.executor.cancelTask job }

/-- `pendingJob->deadline()`. -/
def deadline (job : JobId) : Nat := ((b.executor.jobs[job]?).map TaskJob.deadline).getD 0

/-- `TaskCancellation::stopRequested`. -/
def stopRequested (job : JobId) (now : Nat) : Bool :=
  match b.executor.jobs[job]? with
  | none => true
  | some job => job.cancelled || job.deadline ≤ now

end TaskBackend

/-- What the worker threads do, and the thread that stops them. -/
inductive WorkerAction where
  | take (worker : Nat)
  | execute (worker now : Nat)
  | enter (worker now : Nat)
  | run (worker : Nat)
  | finish (worker : Nat)
  | stop
  deriving DecidableEq, Repr

/-- A work that was run, with its answer. -/
structure Execution where
  job : JobId
  request : HttpRequest
  policy : ConnectionPolicy
  answer : ResponseResult

namespace TaskBackend

/-- `executeTask` returns at once where `stopRequested`. -/
def enterBody (b : TaskBackend) (worker now : Nat) : TaskBackend :=
  match b.bodies worker with
  | some { job := job, work := work, checked := false } =>
    { b with
      bodies := Function.update b.bodies worker
        (if b.stopRequested job now then none else some { job := job, work := work, checked := true }) }
  | _ => b

/-- The answer of the default callback. `onTaskResponse` throws nothing, so the `catch` is not reached. -/
def runBody (b : TaskBackend) (worker : Nat) : TaskBackend × List Execution :=
  match b.bodies worker with
  | some { job := job, work := id, checked := true } =>
    let idle := { b with bodies := Function.update b.bodies worker none }
    match b.works[id]? with
    | none => (idle, [])
    | some work =>
      let answer := onTaskResponse work.route work.request work.policy b.store
      ({ idle with works := b.works.set id { work with response := some answer.1 }, store := answer.2 },
        [{ job := job, request := work.request, policy := work.policy, answer := answer.1 }])
  | _ => (b, [])

def work (b : TaskBackend) : WorkerAction → TaskBackend × List Execution
  | .take worker => ({ b with executor := b.executor.takeTask worker }, [])
  | .execute worker now =>
    let result := b.executor.executeTask worker now
    let next := { b with executor := result.1 }
    match result.2 with
    | some (job, some id) =>
      ({ next with bodies := Function.update b.bodies worker (some { job := job, work := id }) }, [])
    | _ => (next, [])
  | .enter worker now => (b.enterBody worker now, [])
  | .run worker => b.runBody worker
  | .finish worker =>
    -- the second section follows the body
    if (b.bodies worker).isSome then (b, []) else ({ b with executor := b.executor.finishTask worker }, [])
  | .stop => ({ b with executor := b.executor.stopAcceptingAndCancel }, [])

end TaskBackend

end HpServer.App
