/-
**A session step by step.**

Between two calls of its connection a session changes its state in one of a few ways, and which of them it may take
depends on where it is in its program. Whatever a connection does is then a path from `resting` to `resting`.

* `Place` — where a session is; `SessionStep` — **what it may do there**; `Path` — any number of steps.
* `Runs` — a program follows a path, and uses the registry as `Uses` says; `runs_bind`, … — one rule for each way of
  building a program.
* `handleMessage_runs`, `onWriteComplete_runs`, `onTaskContinuation_runs`, `destroySession_runs` — the callbacks.
-/

import HpServer.App.HttpConnectionHandler
import HpServer.Net.RegistryUse
import Mathlib.Logic.Relation

namespace HpServer.App

open Base Business Http Metrics Net Programs

/-! ### The steps -/

/-- **Where a session is.** `omits` is whether the request is a `HEAD` request, `collected` what a job has given. -/
inductive Place where
  | resting
  | reading
  | started
  | fed (parsed : FeedResult)
  | asking (head : RequestHead)
  | accepted
  | continuing
  | deciding (parsed : FeedResult)
  | due (omits : Bool) (parsed : FeedResult)
  | failing (omits : Bool)
  | owing (omits : Bool) (cause : Cause) (result : ResponseResult)
  | sending (omits : Bool) (cause : Cause) (result : ResponseResult)
  | waiting (omits : Bool) (job : JobId) (collected : Option ResponseResult)
  | settling (omits : Bool) (job : JobId) (response : ResponseResult)
  | interim
  | wrote (close : Bool)
  | gone

/-- The places at which no job is pending. -/
def Place.isFree : Place → Bool
  | .resting | .waiting _ _ _ | .settling _ _ _ | .gone => false
  | _ => true

/-- The places at which a failure is answered. -/
def Place.answersFor : Place → Option Bool
  | .due omits _ | .owing omits _ _ | .sending omits _ _ => some omits
  | _ => none

def policyOf (close : Bool) : ConnectionPolicy := if close then .close else .keepAlive

/-- Whether the connection is to be closed behind the answer, and the policy that says so. -/
def closesBehind (parsed : FeedResult) : Bool := parsed.status ≠ .complete || parsed.request.closeRequested

def policyFor (parsed : FeedResult) : ConnectionPolicy := policyOf (closesBehind parsed)

/-- The status of the answer to a request the parser did not complete. -/
def refusal : ParseStatus → Option Status
  | .needMore | .badRequest => some .badRequest
  | .payloadTooLarge => some .contentTooLarge
  | .expectationFailed => some .expectationFailed
  | .notImplemented => some .notImplemented
  | _ => none

/-- The session whose record has the method and path of a request, where there is an access log. -/
def Session.copied (config : HttpConfig) (s : Session) (method target : Bytes) : Session :=
  { s with accessRecord := if config.accessLogEnabled then s.accessRecord.copyRequest method target else s.accessRecord }

/-- What a submission does to a session: it waits for the job it was given. -/
def Session.submitted (s : Session) : Option JobId → Session
  | none => s
  | some job => { s with pendingJob := some job, taskGeneration := s.taskGeneration + 1, phase := .awaitingTask }

/-- Where a session is when its request has been submitted. -/
def dispatched (omits : Bool) (parsed : FeedResult) (submission : AsyncTaskSubmission) : Place :=
  match submission.job, submission.response with
  | some job, _ => .waiting omits job none
  | none, some response => .owing omits (.task parsed.request (policyFor parsed)) response
  | none, none => .due omits parsed

def HttpState.change (s : HttpState) (change : Session → Session) : HttpState := { s with session := change s.session }

def HttpState.say (s : HttpState) (event : SessionEvent) : HttpState := { s with log := s.log ++ [event] }

/-- **A step of a session.** -/
inductive SessionStep (config : HttpConfig) : Place × HttpState → Place × HttpState → Prop
  -- what happens wherever it is
  | counted {p s} (metrics : ServerMetrics) : SessionStep config (p, s) (p, { s with metrics := metrics })
  | interfered {p s} : SessionStep config (p, s) (p, s.interfered)
  | leased {p s} (lease : ResourceLease) : SessionStep config (p, s) (p, s.change ({ · with requestLease := lease }))
  | dated {p s} (deadline : Option Nat) : SessionStep config (p, s) (p, s.change ({ · with readDeadline := deadline }))
  | finished {p s} (aborted : Bool) (now : Nat) (taken : Bool) (pending : s.session.requestPending = true) :
      SessionStep config (p, s)
        (p, HttpState.say
          { s with
            session := { s.session with
              requestPending := false
              accessRecord := s.session.finalRecord aborted now }
            metrics := s.metrics.finishRequest aborted (s.session.finalRecord aborted now).status
              (s.session.finalRecord aborted now).durationUs }
          (.finished (s.session.finalRecord aborted now) taken))
  -- a failure that nobody catches, a deadline, a budget, a drain
  | left {p s} (free : p.isFree = true) : SessionStep config (p, s) (.resting, s)
  | fell {p s omits} (answers : p.answersFor = some omits) : SessionStep config (p, s) (.failing omits, s)
  | closed {p s} (free : p.isFree = true) :
      SessionStep config (p, s) (.resting, s.change ({ · with phase := .closing }))
  | rejected {p s} (free : p.isFree = true) :
      SessionStep config (p, s) (p, s.change fun x => { x with
        phase := .closing
        completed := false
        accessRecord := { x.accessRecord with status := 0, contentBytes := 0 } })
  -- reading
  | created {s} : SessionStep config (.resting, s) (.resting, { s with created := true })
  | entered {s} (phase : s.session.phase = .reading) : SessionStep config (.resting, s) (.reading, s)
  | began {s} (now : Nat) (idle : s.session.requestPending = false) :
      SessionStep config (.reading, s)
        (.reading, HttpState.say
          { s with
            session := { s.session with requestPending := true, requestStarted := now, accessRecord := {} }
            metrics := s.metrics.beginRequest }
          .began)
  | ready {s} : SessionStep config (.reading, s) (.started, s)
  | fed {s} (input : Bytes) (eof : Bool) {parser : RequestParser} {parsed : FeedResult}
      (answer : feedRequestBytes s.session.parser input = (parser, parsed)) :
      SessionStep config (.started, s)
        (.fed parsed, (s.change fun x =>
          Session.copied config { x with parser := parser } parsed.request.method parsed.request.target).say
            (.fed (input.take parsed.acceptedBytes) eof parsed))
  -- heads
  | shown {s parsed head} (status : parsed.status = .headersComplete) (reported : parsed.head = some head) :
      SessionStep config (.fed parsed, s)
        (.asking head, s.change fun x => x.copied config head.method head.target)
  | asked {s head} : SessionStep config (.asking head, s) (.asking head, s.say (.asked head (policyOf head.closeRequested)))
  | accepted {s head} : SessionStep config (.asking head, s) (.accepted, s)
  | refused {s head callback rejected} (given : config.handler.onRequestHeaders = some callback)
      (verdict : callback head (policyOf head.closeRequested) = some (some rejected))
      (terminal : rejected.effectivePolicy = .close) :
      SessionStep config (.asking head, s) (.owing s.session.parser.headRequest
        (.rejectedHead head (policyOf head.closeRequested)) rejected, s)
  | overruled {s head callback rejected} (given : config.handler.onRequestHeaders = some callback)
      (verdict : callback head (policyOf head.closeRequested) = some (some rejected))
      (relaxed : rejected.effectivePolicy ≠ .close) :
      SessionStep config (.asking head, s) (.asking head, s.say .relaxed)
  | unasked {s head} : SessionStep config (.asking head, s) (.failing s.session.parser.headRequest, s)
  | continues {s} : SessionStep config (.accepted, s) (.continuing, s.change ({ · with phase := .interimWriting }))
  | continued {s} : SessionStep config (.continuing, s) (.resting, s.say .continued)
  -- requests
  | decided {s parsed} :
      SessionStep config (.fed parsed, s) (.deciding parsed, s.change ({ · with close := closesBehind parsed }))
  | turned {s parsed} :
      SessionStep config (.deciding parsed, s) (.deciding parsed, s.change ({ · with phase := .writing }))
  | weighed {s parsed} : SessionStep config (.deciding parsed, s) (.due s.session.parser.headRequest parsed, s)
  | faulted {s omits parsed status result} (refused : refusal parsed.status = some status)
      (answer : errorAnswer status (policyFor parsed) omits (text "GET") = some result) :
      SessionStep config (.due omits parsed, s) (.owing omits (.parseError status omits) result, s)
  | submitted {s omits parsed} (now : Nat) (complete : parsed.status = .complete)
      {result : TaskBackend × AsyncTaskSubmission}
      (outcome : SubmitOutcome s.backend parsed.request (policyFor parsed) now result) :
      SessionStep config (.due omits parsed, s)
        (dispatched omits parsed result.2, HttpState.say
          { s with session := s.session.submitted result.2.job, backend := result.1 }
          (.submitted parsed.request (policyFor parsed) result.2.job))
  | provided {s omits parsed result store} (complete : parsed.status = .complete)
      (response : config.handler.onResponse parsed.request (policyFor parsed) s.backend.store = (some result, store))
      (kept : (s.session.close && result.effectivePolicy ≠ .close) = false) :
      SessionStep config (.due omits parsed, s)
        (.owing omits (.provided parsed.request (policyFor parsed)) result,
          HttpState.say { s with backend := { s.backend with store := store } }
            (.provided parsed.request (policyFor parsed)))
  | relaxed {s omits parsed result store} (complete : parsed.status = .complete)
      (response : config.handler.onResponse parsed.request (policyFor parsed) s.backend.store = (some result, store))
      (relaxed : (s.session.close && result.effectivePolicy ≠ .close) = true) :
      SessionStep config (.due omits parsed, s)
        (.failing omits, HttpState.say (HttpState.say { s with backend := { s.backend with store := store } }
          (.provided parsed.request (policyFor parsed))) .relaxed)
  | threw {s omits parsed store} (complete : parsed.status = .complete)
      (response : config.handler.onResponse parsed.request (policyFor parsed) s.backend.store = (none, store)) :
      SessionStep config (.due omits parsed, s)
        (.failing omits, HttpState.say { s with backend := { s.backend with store := store } }
          (.provided parsed.request (policyFor parsed)))
  | failed {s omits result} (answer : errorAnswer .internalServerError .close omits (text "GET") = some result) :
      SessionStep config (.failing omits, s) (.owing omits (.providerFailed omits) result, s)
  | hardened {s omits cause result} :
      SessionStep config (.owing omits cause result, s)
        (.owing omits cause result, s.change ({ · with close := true }))
  -- answers
  | answers {s omits cause result} :
      SessionStep config (.owing omits cause result, s) (.sending omits cause result, s.change (·.answer result))
  | answered {s omits cause result} :
      SessionStep config (.sending omits cause result, s) (.resting, s.say (.answered cause result))
  -- jobs
  | waited {s omits job} : SessionStep config (.waiting omits job none, s) (.resting, s)
  | polled {s job} (phase : s.session.phase = .awaitingTask) (pending : s.session.pendingJob = some job) :
      SessionStep config (.resting, s) (.waiting s.session.parser.headRequest job none, s)
  | collected {s omits job} {backend : TaskBackend} {response : Option ResponseResult}
      (answer : s.backend.collectResponse (some job) = (backend, response)) :
      SessionStep config (.waiting omits job none, s) (.waiting omits job response, { s with backend := backend })
  | resolved {s omits job collected response}
      (origin : response = failureResponse ∨ response = timeoutResponse ∨ collected = some response) :
      SessionStep config (.waiting omits job collected, s) (.settling omits job response, s)
  | settled {s omits job response} :
      SessionStep config (.settling omits job response, s)
        (.owing omits (.job job) response,
          { s with
            session := { s.session with pendingJob := none }
            backend := s.backend.cancelRequest s.session.pendingJob })
  -- what was written
  | interrupted {s} (phase : s.session.phase = .interimWriting) : SessionStep config (.resting, s) (.interim, s)
  | resumed {s} : SessionStep config (.interim, s) (.resting, (s.change ({ · with phase := .reading })).say .resumed)
  | flushed {s} (phase : s.session.phase = .writing) : SessionStep config (.resting, s) (.wrote s.session.close, s)
  | reset {s} :
      SessionStep config (.wrote false, s)
        (.resting, (s.change fun x => { x with parser := resetRequestParser x.parser, phase := .reading }).say .reset)
  -- the destructor
  | destroyed {s} : SessionStep config (.resting, s) (.gone, s)
  | abandoned {s} :
      SessionStep config (.gone, s) (.gone, { s with backend := s.backend.cancelRequest s.session.pendingJob })

/-- Any number of them. -/
abbrev Path (config : HttpConfig) : Place × HttpState → Place × HttpState → Prop :=
  Relation.ReflTransGen (SessionStep config)

/-! ### Programs -/

section Runs

variable {config : HttpConfig} {α β : Type} {p p' r r' : Place} {x : HttpRun α} {q : α → Place} {c d : HttpCell}

/-- Where a program leads from a cell. -/
def RunsAt (config : HttpConfig) (p : Place) (x : HttpRun α) (q : α → Place) (r : Place) (c : HttpCell) : Prop :=
  wp x (fun a t => Uses c t ∧ Path config (p, c.app) (q a, t.app))
    (fun _ t => Uses c t ∧ Path config (p, c.app) (r, t.app)) c

/-- **A program that leads from one place to another**, or to a third when it fails. -/
def Runs (config : HttpConfig) (p : Place) (x : HttpRun α) (q : α → Place) (r : Place) : Prop :=
  ∀ c, RunsAt config p x q r c

/-- A session may be taken to be elsewhere. -/
def Falls (config : HttpConfig) (p r : Place) : Prop := ∀ s, Path config (p, s) (r, s)

theorem falls_refl (p : Place) : Falls config p p := fun _ => .refl

theorem falls_free (free : p.isFree = true) : Falls config p .resting := fun _ => .single (.left free)

theorem falls_failing {omits : Bool} (answers : p.answersFor = some omits) : Falls config p (.failing omits) :=
  fun _ => .single (.fell answers)

/-- What follows a part of a program. -/
theorem runs_onward (uses : Uses c d) (path : Path config (p, c.app) (p', d.app)) (rest : RunsAt config p' x q r d) :
    wp x (fun a t => Uses c t ∧ Path config (p, c.app) (q a, t.app))
      (fun _ t => Uses c t ∧ Path config (p, c.app) (r, t.app)) d :=
  wp_mono rest (fun _ _ done => ⟨uses.trans done.1, path.trans done.2⟩)
    fun _ _ done => ⟨uses.trans done.1, path.trans done.2⟩

theorem runs_changed {app : HttpState} (path : Path config (p, c.app) (p', app)) (rest : Runs config p' x q r) :
    wp x (fun a t => Uses c t ∧ Path config (p, c.app) (q a, t.app))
      (fun _ t => Uses c t ∧ Path config (p, c.app) (r, t.app)) { c with app := app } :=
  runs_onward (uses_of_same rfl rfl rfl rfl) path (rest _)

theorem runs_enter (path : Path config (p, c.app) (p', c.app)) (rest : Runs config p' x q r) : RunsAt config p x q r c :=
  runs_changed path rest

theorem runs_pure (a : α) (falls : Falls config p (q a)) : Runs config p (pure a) q r :=
  fun c => ⟨uses_of_same rfl rfl rfl rfl, falls c.app⟩

theorem runs_stay (a : α) : Runs config p (pure a) (fun _ => p) r := runs_pure a (falls_refl p)

theorem runs_throw (e : Failure) (falls : Falls config p r) : Runs config p (throw e) q r :=
  fun c => ⟨uses_of_same rfl rfl rfl rfl, falls c.app⟩

theorem runsAt_bind {f : α → HttpRun β} {q' : β → Place} (first : RunsAt config p x q r c)
    (next : ∀ a, Runs config (q a) (f a) q' r) : RunsAt config p (x >>= f) q' r c := by
  unfold RunsAt
  rw [wp_bind]
  exact wp_mono first (fun a _ done => runs_onward done.1 done.2 (next a _)) fun _ _ => id

theorem runs_bind {f : α → HttpRun β} {q' : β → Place} (first : Runs config p x q r)
    (next : ∀ a, Runs config (q a) (f a) q' r) : Runs config p (x >>= f) q' r :=
  fun c => runsAt_bind (first c) next

theorem runs_tryCatch {handler : Failure → HttpRun α} (first : Runs config p x q r)
    (next : ∀ e, Runs config r (handler e) q r') : Runs config p (tryCatch x handler) q r' := by
  intro c
  unfold RunsAt
  rw [wp_tryCatch]
  exact wp_mono (first c) (fun _ _ => id) fun e _ done => runs_onward done.1 done.2 (next e _)

/-- What follows may use the cell that was read. -/
theorem runs_get {f : HttpCell → HttpRun α} (next : ∀ c, RunsAt config p (f c) q r c) :
    Runs config p (get >>= f) q r := by
  intro c
  unfold RunsAt
  rw [wp_bind]
  exact next c

theorem runs_ite {condition : Prop} [Decidable condition] {yes no : HttpRun α} (first : Runs config p yes q r)
    (second : Runs config p no q r) : Runs config p (if condition then yes else no) q r := by
  split
  · exact first
  · exact second

/-- What follows may use the outcome of a test. -/
theorem runsAt_ite {condition : Prop} [Decidable condition] {yes no : HttpRun α}
    (first : condition → RunsAt config p yes q r c) (second : ¬ condition → RunsAt config p no q r c) :
    RunsAt config p (if condition then yes else no) q r c := by
  split
  · exact first ‹_›
  · exact second ‹_›

theorem runs_whenever {condition : Bool} {x : HttpRun Unit} (runs : Runs config p x (fun _ => p) r) :
    Runs config p (whenever condition x) (fun _ => p) r :=
  runs_ite runs (runs_stay ())

/-- A call of the connection. -/
theorem runs_call (moves : Moves Called x) (ends : ∀ a, Falls config p (q a)) (fails : Falls config p r) :
    Runs config p x q r := by
  intro c
  refine wp_mono (moves c) (fun a t called => ?_) fun _ t called => ?_
  · exact ⟨called.toUses, called.app ▸ ends a c.app⟩
  · exact ⟨called.toUses, called.app ▸ fails c.app⟩

/-- A call where a failure is not caught. -/
theorem runs_called (moves : Moves Called x) (fails : Falls config p r) : Runs config p x (fun _ => p) r :=
  runs_call moves (fun _ => falls_refl p) fails

/-- The last call of a callback. -/
theorem runs_last (moves : Moves Called x) (falls : Falls config p .resting) :
    Runs config p x (fun _ => .resting) .resting :=
  runs_call moves (fun _ => falls) falls

theorem runs_change {change : HttpState → HttpState} (step : ∀ s, SessionStep config (p, s) (p', change s)) :
    Runs config p (onApp change) (fun _ => p') r :=
  fun c => ⟨uses_of_same rfl rfl rfl rfl, .single (step c.app)⟩

theorem Runs.uses (runs : Runs config p x q r) : Moves Uses x :=
  fun c => wp_mono (runs c) (fun _ _ done => done.1) fun _ _ done => done.1

theorem Runs.path (runs : Runs config p x (fun _ => r) r) :
    Moves (fun c t => Path config (p, c.app) (r, t.app)) x :=
  fun c => wp_mono (runs c) (fun _ _ done => done.2) fun _ _ done => done.2

end Runs

/-! ### Ending a request -/

section Ending

variable {config : HttpConfig} {p r : Place}

theorem resetRequestLease_runs : Runs config p resetRequestLease (fun _ => p) r := by
  refine runs_get fun c => ?_
  cases c.host.budget with
  | none => exact runs_stay () c
  | some budget => exact ⟨uses_of_same rfl rfl rfl rfl, .single (.leased _)⟩

theorem finishPendingRequest_runs (aborted : Bool) : Runs config p (finishPendingRequest aborted) (fun _ => p) r := by
  refine runs_bind resetRequestLease_runs fun _ => runs_get fun c => ?_
  cases pending : c.app.session.requestPending with
  | false => exact runs_stay () c
  | true =>
    exact ⟨uses_of_same rfl rfl rfl rfl, .single (.finished aborted c.ticked.host.now (delivered c) pending)⟩

theorem clearReadDeadline_runs (falls : Falls config p r) : Runs config p clearReadDeadline (fun _ => p) r :=
  runs_bind (runs_change fun _ => .dated none) fun _ => runs_called (called_setReadDeadline none) falls

theorem closeResourceRejected_runs (free : p.isFree = true) (falls : Falls config p r) :
    Runs config p closeResourceRejected (fun _ => .resting) r := by
  refine runs_bind (runs_change fun _ => .rejected free) fun _ => runs_bind (clearReadDeadline_runs falls) fun _ => ?_
  refine runs_bind (finishPendingRequest_runs true) fun _ => ?_
  exact runs_call called_requestClose (fun _ => falls_free free) falls

/-- **Everything else waits for the deadline of the request.** -/
theorem unlessExpired_runs (free : p.isFree = true) {x : HttpRun Unit}
    (rest : Runs config p x (fun _ => .resting) .resting) :
    Runs config p (do
      let expired ← closeExpiredRequest
      if expired then pure () else x) (fun _ => .resting) .resting := by
  refine runs_bind (q := fun expired => cond expired .resting p) (runs_get fun c => ?_) fun expired => ?_
  · cases c.app.session.readDeadline with
    | none => exact runs_pure false (falls_refl p) c
    | some deadline =>
      refine runs_bind (runs_called called_readClock (falls_free free)) (fun now => runs_ite ?_ ?_) c
      · exact runs_pure false (falls_refl p)
      · refine runs_bind (runs_change fun _ => .closed free) fun _ => ?_
        refine runs_bind (clearReadDeadline_runs (falls_refl _)) fun _ => ?_
        exact runs_bind (runs_called called_requestClose (falls_refl _)) fun _ => runs_pure true (falls_refl _)
  · cases expired with
    | true => exact runs_stay ()
    | false => exact rest

theorem orReject_runs (free : p.isFree = true) (falls : Falls config p r) {x : HttpRun Unit}
    (runs : Runs config p x (fun _ => .resting) p) : Runs config p (orReject x) (fun _ => .resting) r :=
  runs_tryCatch runs fun e => runs_ite (closeResourceRejected_runs free falls) (runs_throw e falls)

end Ending

/-! ### Answering -/

section Answering

variable {config : HttpConfig} {omits : Bool} {r : Place}

theorem called_sendResult (result : ResponseResult) : Moves Called (sendResult result) := by
  unfold sendResult
  cases result.file with
  | some file => exact called_send _
  | none => exact called_send _

theorem sendFinalResponse_runs {cause : Cause} {result : ResponseResult}
    (falls : Falls config (.sending omits cause result) r) :
    Runs config (.owing omits cause result) (sendFinalResponse cause result) (fun _ => .resting) r := by
  refine runs_bind (runs_change fun _ => .answers) fun _ => orReject_runs rfl falls ?_
  exact runs_bind (runs_called (called_sendResult result) (falls_refl _)) fun _ => runs_change fun _ => .answered

/-- A job is polled again, or has failed. -/
theorem armTaskContinuation_runs (job : JobId) :
    Runs config (.waiting omits job none) (armTaskContinuation job) (fun _ => .resting)
      (.settling omits job failureResponse) :=
  runs_call (moves_bind called_readClock fun _ => moves_bind moves_get fun _ => called_scheduleContinuation _ _)
    (fun _ _ => .single .waited) fun _ => .single (.resolved (.inl rfl))

/-- A job is given up for an answer. -/
theorem settle_runs {job : JobId} {response : ResponseResult}
    (falls : ∀ cause result, Falls config (.owing omits cause result) r ∧ Falls config (.sending omits cause result) r) :
    Runs config (.settling omits job response) (do
      cancelPending
      onSession fun s => { s with pendingJob := none }
      cancelContinuation
      sendFinalResponse (.job job) response) (fun _ => .resting) r := by
  intro c
  have given : Path config (.settling omits job response, c.app) _ :=
    (Relation.ReflTransGen.single .interfered).tail .settled
  have rest : Runs config (.owing omits (.job job) response) (do
      cancelContinuation
      sendFinalResponse (.job job) response) (fun _ => .resting) r :=
    runs_bind (runs_called called_cancelContinuation (falls _ _).1) fun _ => sendFinalResponse_runs (falls _ _).2
  have whole := runs_changed given rest
  exact whole

theorem falls_both (cause : Cause) (result : ResponseResult) : Falls config (.owing omits cause result) (.failing omits)
    ∧ Falls config (.sending omits cause result) (.failing omits) :=
  ⟨falls_failing rfl, falls_failing rfl⟩

theorem wp_submitTask {normal : AsyncTaskSubmission → HttpCell → Prop} {failure : Failure → HttpCell → Prop}
    {c d : HttpCell} (request : HttpRequest) (policy : ConnectionPolicy)
    (ready : d = ({ c with app := c.app.interfered } : HttpCell).ticked) :
    wp (submitTask request policy) normal failure c
      = normal (d.app.backend.submitRequest request policy d.host.now).2 { d with
          app := HttpState.say { d.app with backend := (d.app.backend.submitRequest request policy d.host.now).1 }
            (.submitted request policy (d.app.backend.submitRequest request policy d.host.now).2.job) } := by
  subst ready
  rfl

theorem dispatchTask_runs {parsed : FeedResult} (complete : parsed.status = .complete) :
    Runs config (.due omits parsed) (dispatchTask parsed.request (policyFor parsed))
      (fun handled => cond handled .resting (.due omits parsed)) (.failing omits) := by
  intro c
  unfold RunsAt dispatchTask
  rw [wp_bind]
  -- the workers, the clock, and then the submission
  generalize ready : ({ c with app := c.app.interfered } : HttpCell).ticked = d
  have uses : Uses c d := ready ▸ uses_of_same rfl rfl rfl rfl
  have before : Path config (.due omits parsed, c.app) (.due omits parsed, d.app) := ready ▸ .single .interfered
  have outcome := submitRequest_outcome d.app.backend parsed.request (policyFor parsed) d.host.now
  have submitted := before.tail (.submitted d.host.now complete outcome)
  rw [wp_submitTask _ _ ready.symm]
  generalize d.app.backend.submitRequest parsed.request (policyFor parsed) d.host.now = result at outcome submitted ⊢
  have later : ∀ {app : HttpState}, Uses c { d with app := app } := uses.trans (uses_of_same rfl rfl rfl rfl)
  have answer : ∀ response, Runs config (.owing omits (.task parsed.request (policyFor parsed)) response) (do
      sendFinalResponse (.task parsed.request (policyFor parsed)) response
      pure true) (fun handled => cond handled .resting (.due omits parsed)) (.failing omits) := fun response =>
    runs_bind (sendFinalResponse_runs (falls_failing rfl)) fun _ => runs_pure true (falls_refl _)
  cases outcome with
  | synchronous => exact ⟨later, submitted⟩
  | rejected => exact runs_onward later submitted (answer _ _)
  | overloaded => exact runs_onward later submitted (answer _ _)
  | pending =>
    have armed : Runs config (.waiting omits d.app.backend.executor.jobs.length none) (do
        tryCatch (armTaskContinuation d.app.backend.executor.jobs.length) fun _ => do
          cancelPending
          onSession fun s => { s with pendingJob := none }
          cancelContinuation
          sendFinalResponse (.job d.app.backend.executor.jobs.length) failureResponse
        pure true) (fun handled => cond handled .resting (.due omits parsed)) (.failing omits) := by
      refine runs_bind (runs_tryCatch (armTaskContinuation_runs _) fun _ => settle_runs falls_both) fun _ => ?_
      exact runs_pure true (falls_refl _)
    have whole := runs_onward later submitted (armed _)
    exact whole

theorem failureOf_runs {p : Place} {status : Status} {policy : ConnectionPolicy} {place : ResponseResult → Place}
    (step : ∀ {s result}, errorAnswer status policy omits (text "GET") = some result →
      Path config (p, s) (place result, s)) (falls : Falls config p r) :
    Runs config p (failureOf status policy omits) place r := by
  unfold failureOf
  cases made : errorAnswer status policy omits (text "GET") with
  | none => exact runs_throw _ falls
  | some result => exact runs_pure result fun _ => step made

/-- What was chosen is owed; nothing is left of a request that has been dealt with. -/
def chosenPlace (omits : Bool) : Option (Cause × ResponseResult) → Place
  | none => .resting
  | some (cause, result) => .owing omits cause result

theorem refuseRequest_runs {parsed : FeedResult} {status : Status} (refused : refusal parsed.status = some status) :
    Runs config (.due omits parsed) (refuseRequest status (policyFor parsed) omits) (chosenPlace omits)
      (.failing omits) := by
  refine runs_get fun c => runs_bind (runs_whenever (runs_change fun _ => .counted _)) (fun _ => ?_) c
  refine runs_bind (failureOf_runs (fun made => .single (.faulted refused made)) (falls_failing rfl)) fun result => ?_
  exact runs_pure _ (falls_refl _)

theorem provideResponse_runs {parsed : FeedResult} (complete : parsed.status = .complete) :
    Runs config (.due omits parsed) (provideResponse config parsed.request (policyFor parsed)) (chosenPlace omits)
      (.failing omits) := by
  refine runs_get fun c => ?_
  unfold RunsAt
  generalize response : config.handler.onResponse parsed.request (policyFor parsed) c.app.backend.store = answer
  obtain ⟨_ | result, store⟩ := answer
  · exact ⟨uses_of_same rfl rfl rfl rfl, .single (.threw complete response)⟩
  · dsimp only
    cases relaxed : c.app.session.close && decide (result.effectivePolicy ≠ .close) with
    | true => exact ⟨uses_of_same rfl rfl rfl rfl, .single (.relaxed complete response relaxed)⟩
    | false => exact ⟨uses_of_same rfl rfl rfl rfl, .single (.provided complete response relaxed)⟩

theorem chooseResponse_runs (parsed : FeedResult) :
    Runs config (.due omits parsed) (chooseResponse config parsed (policyFor parsed) omits) (chosenPlace omits)
      (.failing omits) := by
  have refuse : ∀ {status}, refusal parsed.status = some status →
      Runs config (.due omits parsed) (refuseRequest status (policyFor parsed) omits) (chosenPlace omits)
        (.failing omits) := refuseRequest_runs
  unfold chooseResponse
  split
  case h_6 => exact runs_throw _ (falls_failing rfl)
  case h_7 => exact runs_throw _ (falls_failing rfl)
  case h_8 complete =>
    have rest : ∀ handled : Bool, Runs config (cond handled .resting (.due omits parsed))
        (if handled then pure none else provideResponse config parsed.request (policyFor parsed)) (chosenPlace omits)
        (.failing omits)
      | true => runs_pure none (falls_refl _)
      | false => provideResponse_runs complete
    dsimp only
    split
    · exact runs_bind (dispatchTask_runs complete) rest
    · exact rest false
  all_goals
    refine refuse ?_
    simp only [*]
    rfl

/-- A response that could not be made is replaced. -/
theorem providerFailure_runs :
    Runs config (.failing omits) (providerFailure omits) (fun failure => .owing omits failure.1 failure.2) .resting := by
  refine runs_bind (runs_change fun _ => .counted _) fun _ => ?_
  have made : Runs config (.failing omits) (failureOf .internalServerError .close omits)
      (.owing omits (.providerFailed omits)) .resting :=
    failureOf_runs (fun answer => .single (.failed answer)) (falls_free rfl)
  exact runs_bind made fun _ => runs_pure _ (falls_refl _)

end Answering

/-! ### The callbacks -/

section Callbacks

variable {config : HttpConfig}

theorem sendChosen_runs {omits : Bool} (chosen : Option (Cause × ResponseResult)) :
    Runs config (chosenPlace omits chosen) (match chosen with
      | none => pure ()
      | some (cause, result) => sendFinalResponse cause result) (fun _ => .resting) .resting := by
  match chosen with
  | none => exact runs_stay ()
  | some (cause, result) => exact sendFinalResponse_runs (falls_free rfl)

theorem respond_runs (parsed : FeedResult) :
    Runs config (.fed parsed) (respond config parsed) (fun _ => .resting) .resting := by
  refine runs_bind (clearReadDeadline_runs (falls_free rfl)) fun _ => runs_bind (runs_change fun _ => .decided) fun _ => ?_
  refine runs_bind (runs_called (called_setIdleWait false) (falls_free rfl)) fun _ => ?_
  refine runs_bind (runs_change fun _ => .turned) fun _ => ?_
  refine runs_bind (runs_called called_pauseReading (falls_free rfl)) fun _ => runs_get fun c => ?_
  refine runs_enter (.single .weighed) (runs_bind (runs_tryCatch (chooseResponse_runs parsed) fun _ => ?_) sendChosen_runs)
  refine runs_bind providerFailure_runs fun failure => runs_bind ?_ fun _ => runs_pure (some failure) (falls_refl _)
  exact runs_change fun _ => .hardened

/-- Where a verdict on a head leads. -/
def verdictPlace (omits : Bool) : Option (Cause × ResponseResult) → Place
  | none => .accepted
  | some (cause, result) => .owing omits cause result

theorem verdictPlace_free {omits : Bool} (rejected : Option (Cause × ResponseResult)) :
    (verdictPlace omits rejected).isFree = true := by
  cases rejected <;> rfl

theorem answerHead_runs {omits : Bool} (rejected : Option (Cause × ResponseResult)) :
    Runs config (verdictPlace omits rejected) (answerHead rejected) (fun _ => .resting) .resting := by
  match rejected with
  | none =>
    refine runs_bind (runs_change fun _ => .continues) fun _ => orReject_runs rfl (falls_free rfl) ?_
    exact runs_bind (runs_called (called_send _) (falls_refl _)) fun _ => runs_change fun _ => .continued
  | some (cause, result) =>
    exact runs_bind (clearReadDeadline_runs (falls_free rfl)) fun _ => sendFinalResponse_runs (falls_free rfl)

theorem wp_onApp {normal : Unit → HttpCell → Prop} {failure : Failure → HttpCell → Prop} {c : HttpCell}
    (change : HttpState → HttpState) :
    wp (onApp change) normal failure c = normal () { c with app := change c.app } :=
  rfl

theorem wp_copyToRecord {normal : Unit → HttpCell → Prop} {failure : Failure → HttpCell → Prop} {c : HttpCell}
    (method target : Bytes) :
    wp (copyToRecord config method target) normal failure c
      = normal () { c with app := c.app.change fun x => x.copied config method target } := by
  unfold copyToRecord whenever Session.copied
  cases config.accessLogEnabled <;> rfl

/-- **The verdict of the header callback.** -/
theorem askHeaders_runs (head : RequestHead) (c : HttpCell) :
    RunsAt config (.asking head) (tryCatch (askHeaders config head) fun _ => do
      let d ← get
      let failure ← providerFailure d.app.session.parser.headRequest
      pure (some failure)) (verdictPlace c.app.session.parser.headRequest) .resting c := by
  have asked : Path config (.asking head, c.app) _ := .single .asked
  have replace : ∀ {omits : Bool}, Runs config (.failing omits) (do
      let failure ← providerFailure omits
      pure (some failure)) (verdictPlace omits) .resting := fun {omits} =>
    runs_bind providerFailure_runs fun failure => runs_pure (some failure) (falls_refl _)
  unfold RunsAt askHeaders
  dsimp only
  rw [wp_tryCatch]
  split
  case h_1 => exact ⟨uses_of_same rfl rfl rfl rfl, .single .accepted⟩
  case h_2 callback given =>
    rw [wp_bind]
    unfold emit
    rw [wp_onApp]
    split
    case h_1 => exact runs_changed (asked.tail .unasked) replace
    case h_2 => exact ⟨uses_of_same rfl rfl rfl rfl, asked.tail .accepted⟩
    case h_3 rejected verdict =>
      rw [wp_ite]
      refine ⟨fun relaxed => ?_, fun terminal => ⟨uses_of_same rfl rfl rfl rfl, asked.tail ?_⟩⟩
      · exact runs_changed ((asked.tail (.overruled given verdict relaxed)).tail .unasked) replace
      · exact .refused given verdict (not_not.mp terminal)

theorem onRequestHeaders_runs {parsed : FeedResult} {head : RequestHead}
    (status : parsed.status = .headersComplete) (reported : parsed.head = some head) :
    Runs config (.fed parsed) (onRequestHeaders config head) (fun _ => .resting) .resting := by
  intro c
  have shown : Path config (.fed parsed, c.app) _ := .single (.shown status reported)
  unfold RunsAt onRequestHeaders
  rw [wp_bind, wp_copyToRecord]
  refine runs_onward (uses_of_same rfl rfl rfl rfl) shown (runsAt_bind (askHeaders_runs head _) fun rejected => ?_)
  have free : Falls config (verdictPlace c.app.session.parser.headRequest rejected) .resting :=
    falls_free (verdictPlace_free rejected)
  refine unlessExpired_runs (verdictPlace_free rejected) (runs_bind (runs_called (called_setIdleWait false) free) fun _ => ?_)
  exact runs_bind (runs_called called_pauseReading free) fun _ => answerHead_runs rejected

theorem acquireRequestLease_runs {p r : Place} : Runs config p acquireRequestLease (fun _ => p) r := by
  refine runs_get fun c => ?_
  cases c.host.budget with
  | none => exact runs_stay true c
  | some budget =>
    refine runs_onward (d := { c with host := { c.host with
      budget := some (budget.tryAcquireInput kRequestInputBytes).value.1 } }) (uses_of_same rfl rfl rfl rfl) .refl
        (runs_ite (runs_stay false) (runs_bind resetRequestLease_runs fun _ => ?_) _)
    exact runs_bind (runs_change fun _ => .leased _) fun _ => runs_stay true

theorem startRequest_runs :
    Runs config .reading (startRequest config) (fun admitted => cond admitted .started .resting) .resting := by
  have ready : Falls config .reading .started := fun _ => .single .ready
  refine runs_get fun c => runsAt_ite (fun _ => runs_pure true ready c) fun idle => ?_
  have unbegun : c.app.session.requestPending = false := by
    simp only [Bool.or_eq_true, not_or, Bool.not_eq_true] at idle
    exact idle.1
  have rest : Runs config .reading (do
      let admitted ← acquireRequestLease
      if !admitted then do
        closeResourceRejected
        pure false
      else do
        whenever (config.requestReadTimeout ≠ 0) do
          onSession fun s => { s with readDeadline := some (c.ticked.host.now + config.requestReadTimeout) }
          setReadDeadline (some (c.ticked.host.now + config.requestReadTimeout))
        pure true) (fun admitted => cond admitted .started .resting) .resting := by
    refine runs_bind acquireRequestLease_runs fun admitted => runs_ite ?_ ?_
    · exact runs_bind (closeResourceRejected_runs rfl (falls_free rfl)) fun _ => runs_pure false (falls_refl _)
    · refine runs_bind (runs_whenever (runs_bind (runs_change fun _ => .dated _) fun _ => ?_)) fun _ => runs_pure true ready
      exact runs_called (called_setReadDeadline _) (falls_free rfl)
  have whole := runs_onward (c := c) (d := { c.ticked with app := _ }) (uses_of_same rfl rfl rfl rfl)
    (.single (.began c.ticked.host.now unbegun)) (rest _)
  exact whole

theorem feedInput_runs : Runs config .started (feedInput config) .fed .resting := by
  refine runs_get fun c => ?_
  dsimp only
  generalize answer : feedRequestBytes c.app.session.parser c.io.input.readableView = result
  have rest : Runs config (.fed result.2) (do
      consumeInputBytes result.2.acceptedBytes
      pure result.2) .fed .resting :=
    runs_bind (runs_called (called_consumeInputBytes _) (falls_free rfl)) fun _ => runs_pure result.2 (falls_refl _)
  have whole := runs_changed (c := c) (.single (.fed c.io.input.readableView c.io.peerHalfClosed answer)) rest
  unfold RunsAt onSession emit
  simp only [wp_bind, wp_onApp, wp_copyToRecord] at whole ⊢
  exact whole

theorem handleParsed_runs (parsed : FeedResult) (eof : Bool) :
    Runs config (.fed parsed) (handleParsed config parsed eof) (fun _ => .resting) .resting := by
  refine runs_get fun c => runs_ite ?_ (runs_ite ?_ (unlessExpired_runs rfl ?_)) c
  · refine runs_bind (runs_called (called_setIdleWait _) (falls_free rfl)) fun _ => ?_
    exact runs_last called_resumeReading (falls_free rfl)
  · exact runs_bind (runs_change fun _ => .closed rfl) fun _ => runs_last called_closeAfterFlush (falls_refl _)
  · split
    case h_1 head status reported => exact onRequestHeaders_runs status reported
    case h_2 => exact respond_runs parsed

theorem onMessage_runs (config : HttpConfig) : Runs config .resting (onMessage config) (fun _ => .resting) .resting := by
  refine runs_get fun c => runsAt_ite (fun _ => runs_stay () c) fun reading => ?_
  have phase : c.app.session.phase = .reading := by
    simp only [Bool.or_eq_true, decide_eq_true_eq, not_or, not_not] at reading
    exact reading.1
  refine runs_enter (.single (.entered phase)) (unlessExpired_runs rfl (runs_bind startRequest_runs fun admitted => ?_))
  cases admitted with
  | false => exact runs_stay ()
  | true => exact runs_bind feedInput_runs fun parsed => handleParsed_runs parsed _

/-- **The message callback.** -/
theorem handleMessage_runs (config : HttpConfig) : Runs config .resting (handleMessage config) (fun _ => .resting) .resting :=
  runs_bind (runs_change fun _ => .created) fun _ => onMessage_runs config

/-- **The write callback.** -/
theorem onWriteComplete_runs (config : HttpConfig) : Runs config .resting (onWriteComplete config) (fun _ => .resting) .resting := by
  refine runs_get fun c => ?_
  split
  case h_1 phase =>
    refine runs_enter (.single (.interrupted phase)) (runs_ite ?_ (unlessExpired_runs rfl ?_))
    · refine runs_bind (runs_change fun _ => .closed rfl) fun _ => ?_
      refine runs_bind (clearReadDeadline_runs (falls_refl _)) fun _ => ?_
      exact runs_bind (finishPendingRequest_runs true) fun _ => runs_last called_closeAfterFlush (falls_refl _)
    · intro d
      have whole := runs_changed (c := d) (.single .resumed) (onMessage_runs config)
      exact whole
  case h_2 phase =>
    refine runs_enter (.single (.flushed phase)) (runs_bind (finishPendingRequest_runs false) fun _ => ?_)
    cases close : c.app.session.close with
    | true => exact runs_bind (runs_change fun _ => .closed rfl) fun _ => runs_last called_closeAfterFlush (falls_refl _)
    | false =>
      refine runs_ite ?_ fun d => ?_
      · exact runs_bind (runs_change fun _ => .closed rfl) fun _ => runs_last called_closeAfterFlush (falls_refl _)
      · have whole := runs_changed (c := d) (.single .reset) (onMessage_runs config)
        exact whole
  case h_3 => exact runs_stay () c

/-- Where the poll of a job leads. -/
def pollPlace (omits : Bool) (job : JobId) : Option ResponseResult → Place
  | none => .resting
  | some response => .settling omits job response

theorem settlePoll_runs (config : HttpConfig) (omits : Bool) (job : JobId) (deadline : Nat) (collected : Option ResponseResult) :
    Runs config (.waiting omits job collected) (settlePoll job deadline collected) (pollPlace omits job)
      (.settling omits job failureResponse) := by
  refine runs_bind (runs_called called_readClock fun _ => .single (.resolved (.inl rfl))) fun later => ?_
  by_cases late : deadline ≤ later
  · rw [if_pos late]
    exact runs_pure _ fun _ => .single (.resolved (.inr (.inl rfl)))
  · rw [if_neg late]
    cases collected with
    | none => exact runs_bind (armTaskContinuation_runs job) fun _ => runs_pure none (falls_refl _)
    | some response => exact runs_pure _ fun _ => .single (.resolved (.inr (.inr rfl)))

theorem pollJob_runs {omits : Bool} (job : JobId) :
    Runs config (.waiting omits job none) (pollJob job) (pollPlace omits job) (.settling omits job failureResponse) := by
  have failed : Falls config (.waiting omits job none) (.settling omits job failureResponse) :=
    fun _ => .single (.resolved (.inl rfl))
  refine runs_bind (runs_called called_readClock failed) fun now => runs_get fun c => ?_
  dsimp only
  split
  · refine runs_bind (runs_change fun _ => .interfered) (fun _ => runs_get fun d => ?_) c
    have whole := runs_changed (c := d) (.single (.collected rfl))
      (settlePoll_runs config omits job (c.app.backend.deadline job) (d.app.backend.collectResponse (some job)).2)
    exact whole
  · exact settlePoll_runs config omits job _ none c

/-- **The continuation of a task.** -/
theorem onTaskContinuation_runs (config : HttpConfig) (generation : Nat) :
    Runs config .resting (onTaskContinuation generation) (fun _ => .resting) .resting := by
  refine runs_get fun c => runsAt_ite (fun _ => runs_stay () c) fun awaiting => ?_
  have phase : c.app.session.phase = .awaitingTask := by
    simp only [Bool.or_eq_true, decide_eq_true_eq, not_or, not_not] at awaiting
    exact awaiting.1.1
  split
  case h_1 => exact runs_stay () c
  case h_2 job pending =>
    refine runs_enter (.single (.polled phase pending)) (runs_bind (runs_tryCatch (pollJob_runs job) fun _ => ?_) ?_)
    · exact runs_pure (some failureResponse) (falls_refl _)
    · rintro (_ | response)
      · exact runs_stay ()
      · exact settle_runs fun _ _ => ⟨falls_free rfl, falls_free rfl⟩

/-- **The destructor.** -/
theorem destroySession_runs (config : HttpConfig) : Runs config .resting destroySession (fun _ => .gone) .gone := by
  have gone : Falls config .resting .gone := fun _ => .single .destroyed
  refine runs_get fun c => ?_
  unfold whenever
  refine runs_ite (fun d => ?_) (runs_pure () gone) c
  refine runs_enter (gone d.app) (runs_bind (runs_ite (fun e => ?_) (runs_stay ())) fun _ => finishPendingRequest_runs true)
  exact ⟨uses_of_same rfl rfl rfl rfl, (Relation.ReflTransGen.single .interfered).tail .abandoned⟩

end Callbacks

end HpServer.App
