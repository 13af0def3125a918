/-
**`app/HttpConnectionHandler`: the HTTP session of a connection.**

`Session` feeds its parser with what the connection has read, answers one request at a time, and goes on with
the next when the answer has been taken. Everything it tells the world is also written to `log`, which nothing
reads. The clock counts microseconds.

* `onMessage`, `onRequestHeaders`, `onWriteComplete`, `onTaskContinuation`, `destroySession` — the callbacks
  of a session and its destructor.
* `Handler` — the response and header callbacks; a call that throws has no answer. `routerHandler` is that of
  `HttpMessageFactory`.
* `interfere` — before each call of the executor the worker threads do as much as they like.
-/

import HpServer.App.TaskBackend
import HpServer.Metrics.ServerMetrics
import HpServer.Net.TcpConnection

namespace HpServer.App

open Base Business Http Metrics Net Programs

/-! ### Sessions -/

/-- The arrays of the source hold what is read of them here. -/
structure AccessRecord where
  method : Bytes := []
  path : Bytes := []
  status : Nat := 0
  contentBytes : Nat := 0
  durationUs : Nat := 0
  aborted : Bool := false
  pathTruncated : Bool := false
  deriving DecidableEq, Repr

def kMethodLimit : Nat := 16
def kPathLimit : Nat := 96

def AccessRecord.copyRequest (record : AccessRecord) (requestMethod target : Bytes) : AccessRecord :=
  let pathOnly := target.takeWhile fun b => b ≠ question && b ≠ hash
  { record with
    method := requestMethod.take kMethodLimit
    path := pathOnly.take kPathLimit
    pathTruncated := kPathLimit < pathOnly.length }

inductive Phase where
  | reading | interimWriting | awaitingTask | writing | closing
  deriving DecidableEq, Repr

structure Session where
  parser : RequestParser := {}
  phase : Phase := .reading
  completed : Bool := false
  close : Bool := false
  requestPending : Bool := false
  accessRecord : AccessRecord := {}
  requestStarted : Nat := 0
  readDeadline : Option Nat := none
  pendingJob : Option JobId := none
  taskGeneration : Nat := 0
  requestLease : ResourceLease := {}

structure Handler where
  onResponse : HttpRequest → ConnectionPolicy → TaskService → Option ResponseResult × TaskService
  onRequestHeaders : Option (RequestHead → ConnectionPolicy → Option (Option ResponseResult))

def routerHandler (service : StaticFileService) (now : Int) : Handler where
  onResponse request policy tasks := RequestRouter.onResponse service request policy now tasks
  onRequestHeaders := some RequestRouter.onRequestHeaders

/-- `async` is whether there is an `asyncHandler`. -/
structure HttpConfig where
  handler : Handler
  accessLogEnabled : Bool
  requestReadTimeout : Nat
  async : Bool

/-- Where a final response comes from. -/
inductive Cause where
  | parseError (status : Status) (omitBody : Bool)
  | rejectedHead (head : RequestHead) (policy : ConnectionPolicy)
  | provided (request : HttpRequest) (policy : ConnectionPolicy)
  | providerFailed (omitBody : Bool)
  | task (request : HttpRequest) (policy : ConnectionPolicy)
  | job (id : JobId)
  deriving DecidableEq, Repr

/-- What a session does, in its order. `delivered` is whether nothing is pending and no write has failed. -/
inductive SessionEvent where
  | began
  | fed (bytes : Bytes) (eof : Bool) (result : FeedResult)
  | asked (head : RequestHead) (policy : ConnectionPolicy)
  | provided (request : HttpRequest) (policy : ConnectionPolicy)
  | submitted (request : HttpRequest) (policy : ConnectionPolicy) (job : Option JobId)
  | relaxed
  | continued
  | answered (cause : Cause) (result : ResponseResult)
  | finished (record : AccessRecord) (delivered : Bool)
  | resumed
  | reset

/-- The session of a connection, the objects it shares with others, and its history. -/
structure HttpState where
  session : Session := {}
  created : Bool := false
  metrics : ServerMetrics := {}
  backend : TaskBackend
  executions : List Execution := []
  interference : List (List WorkerAction) := []
  log : List SessionEvent := []

abbrev HttpCell := Cell HttpState

abbrev HttpRun := Run HttpState

def onApp (change : HttpState → HttpState) : HttpRun Unit := modify fun c => { c with app := change c.app }

def onSession (change : Session → Session) : HttpRun Unit :=
  onApp fun app => { app with session := change app.session }

def onMetrics (change : ServerMetrics → ServerMetrics) : HttpRun Unit :=
  onApp fun app => { app with metrics := change app.metrics }

def emit (event : SessionEvent) : HttpRun Unit := onApp fun app => { app with log := app.log ++ [event] }

/-! ### The executor -/

/-- What the workers do one after another, and the works they run. -/
def TaskBackend.workAll (b : TaskBackend) : List WorkerAction → TaskBackend × List Execution
  | [] => (b, [])
  | action :: rest =>
    let next := b.work action
    let later := next.1.workAll rest
    (later.1, next.2 ++ later.2)

def HttpState.interfered (app : HttpState) : HttpState :=
  let result := app.backend.workAll (app.interference.headD [])
  { app with
    backend := result.1
    executions := app.executions ++ result.2
    interference := app.interference.tail }

def interfere : HttpRun Unit := onApp HttpState.interfered

def onBackend (change : TaskBackend → TaskBackend) : HttpRun Unit :=
  onApp fun app => { app with backend := change app.backend }

/-- `asyncHandler->cancelRequest(pendingJob)`. -/
def cancelPending : HttpRun Unit := do
  interfere
  let c ← get
  onBackend (·.cancelRequest c.app.session.pendingJob)

/-! ### Ending a request -/

/-- `requestLease.reset()`. -/
def resetRequestLease : HttpRun Unit := do
  let c ← get
  match c.host.budget with
  | none => pure ()
  | some budget =>
    let result := (budget.reset c.app.session.requestLease).value
    modify fun c => { c with host := { c.host with budget := some result.1 } }
    onSession fun s => { s with requestLease := result.2 }

/-- The record of a request that ends now. -/
def Session.finalRecord (s : Session) (aborted : Bool) (now : Nat) : AccessRecord :=
  { s.accessRecord with aborted := aborted, durationUs := now - s.requestStarted }

/-- Nothing is left to send, and nothing was lost. -/
def delivered (c : HttpCell) : Bool := !c.io.hasPendingOutput && !c.io.socket.failed

def finishPendingRequest (aborted : Bool) : HttpRun Unit := do
  resetRequestLease
  let c ← get
  if !c.app.session.requestPending then pure ()
  else do
    let now ← readClock
    let record := c.app.session.finalRecord aborted now
    onSession fun s => { s with requestPending := false, accessRecord := record }
    onMetrics (·.finishRequest aborted record.status record.durationUs)
    emit (.finished record (delivered c))

def clearReadDeadline : HttpRun Unit := do
  onSession fun s => { s with readDeadline := none }
  setReadDeadline none

def closeResourceRejected : HttpRun Unit := do
  onSession fun s =>
    { s with
      phase := .closing
      completed := false
      accessRecord := { s.accessRecord with status := 0, contentBytes := 0 } }
  clearReadDeadline
  finishPendingRequest true
  requestClose

def closeExpiredRequest : HttpRun Bool := do
  let c ← get
  match c.app.session.readDeadline with
  | none => pure false
  | some deadline => do
    let now ← readClock
    if now < deadline then pure false
    else do
      onSession fun s => { s with phase := .closing }
      clearReadDeadline
      requestClose
      pure true

/-! ### Answering -/

/-- What a session has written down when it sends a final response. -/
def Session.answer (s : Session) (result : ResponseResult) : Session :=
  { s with
    phase := .writing
    close := result.effectivePolicy = .close
    accessRecord := { s.accessRecord with status := result.status.code, contentBytes := result.contentBytes }
    completed := true }

/-- The bytes of a response go out, with its file if it has one. -/
def sendResult (result : ResponseResult) : HttpRun Unit :=
  match result.file with
  | some file => sendFile result.bytes file
  | none => sendBytes result.bytes

/-- `catch (const base::ResourceLimitError&)`. -/
def orReject (program : HttpRun Unit) : HttpRun Unit :=
  tryCatch program fun failure =>
    if failure = .resourceLimit then closeResourceRejected else throw failure

def sendFinalResponse (cause : Cause) (result : ResponseResult) : HttpRun Unit := do
  onSession (·.answer result)
  orReject do
    sendResult result
    emit (.answered cause result)

/-- Five milliseconds. -/
def kTaskPollInterval : Nat := 5000

def armTaskContinuation (job : JobId) : HttpRun Unit := do
  let now ← readClock
  let c ← get
  scheduleContinuation (min (now + kTaskPollInterval) (c.app.backend.deadline job)) c.app.session.taskGeneration

def failureOf (status : Status) (policy : ConnectionPolicy) (omitBody : Bool) : HttpRun ResponseResult :=
  match errorAnswer status policy omitBody (text "GET") with
  | some result => pure result
  | none => throw (.error "unsupported error status")

section Callbacks

variable (config : HttpConfig)

/-- A request the parser refused. What the source writes to the access record here, `sendFinalResponse` writes
again. -/
def refuseRequest (status : Status) (policy : ConnectionPolicy) (omitBody : Bool) :
    HttpRun (Option (Cause × ResponseResult)) := do
  let c ← get
  whenever c.app.session.requestPending (onMetrics ServerMetrics.recordParseError)
  let result ← failureOf status policy omitBody
  pure (some (.parseError status omitBody, result))

/-- `asyncHandler->submitRequest`. -/
def submitTask (request : HttpRequest) (policy : ConnectionPolicy) : HttpRun AsyncTaskSubmission := do
  interfere
  let now ← readClock
  let c ← get
  let result := c.app.backend.submitRequest request policy now
  onBackend fun _ => result.1
  emit (.submitted request policy result.2.job)
  pure result.2

/-- The part of `case kComplete` for the task handler: whether it has dealt with the request. -/
def dispatchTask (request : HttpRequest) (policy : ConnectionPolicy) : HttpRun Bool := do
  let submission ← submitTask request policy
  match submission.dispatch, submission.job with
  | .pending, some job => do
    onSession fun s =>
      { s with
        pendingJob := some job
        taskGeneration := s.taskGeneration + 1
        phase := .awaitingTask }
    tryCatch (armTaskContinuation job) fun _ => do
      cancelPending
      onSession fun s => { s with pendingJob := none }
      cancelContinuation
      sendFinalResponse (.job job) failureResponse
    pure true
  | _, _ =>
    match submission.response with
    | some response => do
      sendFinalResponse (.task request policy) response
      pure true
    | none => pure false

/-- The response callback. -/
def provideResponse (request : HttpRequest) (policy : ConnectionPolicy) :
    HttpRun (Option (Cause × ResponseResult)) := do
  let c ← get
  let answer := config.handler.onResponse request policy c.app.backend.store
  onBackend fun b => { b with store := answer.2 }
  emit (.provided request policy)
  match answer.1 with
  | none => throw (.error "provider")
  | some result =>
    if c.app.session.close && result.effectivePolicy ≠ .close then do
      emit .relaxed
      throw (.error "provider relaxed terminal connection policy")
    else pure (some (.provided request policy, result))

/-- The `try` block of `onMessage`: the response, unless it has been dealt with. -/
def chooseResponse (parsed : FeedResult) (policy : ConnectionPolicy) (omitBody : Bool) :
    HttpRun (Option (Cause × ResponseResult)) :=
  match parsed.status with
  | .needMore => refuseRequest .badRequest policy omitBody
  | .badRequest => refuseRequest .badRequest policy omitBody
  | .payloadTooLarge => refuseRequest .contentTooLarge policy omitBody
  | .expectationFailed => refuseRequest .expectationFailed policy omitBody
  | .notImplemented => refuseRequest .notImplemented policy omitBody
  | .headersComplete => throw (.error "parser returned obsolete method status")
  | .methodNotAllowed => throw (.error "parser returned obsolete method status")
  | .complete => do
    let handled ← if config.async then dispatchTask parsed.request policy else pure false
    if handled then pure none else provideResponse config parsed.request policy

/-- `catch (...)`. -/
def providerFailure (omitBody : Bool) : HttpRun (Cause × ResponseResult) := do
  onMetrics ServerMetrics.recordProviderError
  let result ← failureOf .internalServerError .close omitBody
  pure (.providerFailed omitBody, result)

/-- `onMessage` from a decided request on. -/
def respond (parsed : FeedResult) : HttpRun Unit := do
  clearReadDeadline
  let close := parsed.status ≠ .complete || parsed.request.closeRequested
  onSession fun s => { s with close := close }
  setIdleWait false
  onSession fun s => { s with phase := .writing }
  pauseReading
  let c ← get
  let omitBody := c.app.session.parser.headRequest
  let policy := if close then ConnectionPolicy.close else .keepAlive
  let chosen ← tryCatch (chooseResponse config parsed policy omitBody) fun _ => do
    let failure ← providerFailure omitBody
    onSession fun s => { s with close := true }
    pure (some failure)
  match chosen with
  | none => pure ()
  | some (cause, result) => sendFinalResponse cause result

/-- The `try` block of `onRequestHeaders`. -/
def askHeaders (head : RequestHead) : HttpRun (Option (Cause × ResponseResult)) := do
  let policy := if head.closeRequested then ConnectionPolicy.close else .keepAlive
  match config.handler.onRequestHeaders with
  | none => pure none
  | some callback => do
    emit (.asked head policy)
    match callback head policy with
    | none => throw (.error "header callback")
    | some none => pure none
    | some (some rejected) =>
      if rejected.effectivePolicy ≠ .close then do
        emit .relaxed
        throw (.error "header rejection relaxed terminal connection policy")
      else pure (some (.rejectedHead head policy, rejected))

def copyToRecord (method target : Bytes) : HttpRun Unit :=
  whenever config.accessLogEnabled
    (onSession fun s => { s with accessRecord := s.accessRecord.copyRequest method target })

/-- What follows a verdict on a head. -/
def answerHead (rejected : Option (Cause × ResponseResult)) : HttpRun Unit :=
  match rejected with
  | none => do
    onSession fun s => { s with phase := .interimWriting }
    orReject do
      sendBytes makeContinueResponse
      emit .continued
  | some (cause, result) => do
    clearReadDeadline
    sendFinalResponse cause result

def onRequestHeaders (head : RequestHead) : HttpRun Unit := do
  copyToRecord config head.method head.target
  let rejected ← tryCatch (askHeaders config head) fun _ => do
    let c ← get
    let failure ← providerFailure c.app.session.parser.headRequest
    pure (some failure)
  let expired ← closeExpiredRequest
  if expired then pure ()
  else do
    setIdleWait false
    pauseReading
    answerHead rejected

/-! ### Messages -/

/-- `tryAcquireInput`: whether the request may be read. The lease before is released by the assignment. -/
def acquireRequestLease : HttpRun Bool := do
  let c ← get
  match c.host.budget with
  | none => pure true
  | some budget =>
    let acquired := (budget.tryAcquireInput kRequestInputBytes).value
    modify fun c => { c with host := { c.host with budget := some acquired.1 } }
    if acquired.2.rejection ≠ .none then pure false
    else do
      resetRequestLease
      onSession fun s => { s with requestLease := acquired.2.lease }
      pure true

/-- A request starts with its first byte: whether `onMessage` goes on. -/
def startRequest : HttpRun Bool := do
  let c ← get
  if c.app.session.requestPending || c.io.input.readableView = [] then pure true
  else do
    let now ← readClock
    onSession fun s => { s with requestPending := true, requestStarted := now, accessRecord := {} }
    onMetrics ServerMetrics.beginRequest
    emit .began
    let admitted ← acquireRequestLease
    if !admitted then do
      closeResourceRejected
      pure false
    else do
      whenever (config.requestReadTimeout ≠ 0) do
        onSession fun s => { s with readDeadline := some (now + config.requestReadTimeout) }
        setReadDeadline (some (now + config.requestReadTimeout))
      pure true

/-- The parser is fed, and what it accepted is consumed. -/
def feedInput : HttpRun FeedResult := do
  let c ← get
  let input := c.io.input.readableView
  let parsed := feedRequestBytes c.app.session.parser input
  onSession fun s => { s with parser := parsed.1 }
  emit (.fed (input.take parsed.2.acceptedBytes) c.io.peerHalfClosed parsed.2)
  copyToRecord config parsed.2.request.method parsed.2.request.target
  consumeInputBytes parsed.2.acceptedBytes
  pure parsed.2

/-- `onMessage` behind the parser. -/
def handleParsed (parsed : FeedResult) (eof : Bool) : HttpRun Unit := do
  let c ← get
  if parsed.status = .needMore && !eof then do
    setIdleWait (c.app.session.completed && parsed.requestBytes = 0 && c.io.pendingBytes = 0)
    resumeReading
  else if parsed.status = .needMore && c.app.session.completed && parsed.requestBytes = 0 then do
    onSession fun s => { s with phase := .closing }
    closeAfterFlush
  else do
    let expired ← closeExpiredRequest
    if expired then pure ()
    else
      match parsed.status, parsed.head with
      | .headersComplete, some head => onRequestHeaders config head
      | _, _ => respond config parsed

def onMessage : HttpRun Unit := do
  let c ← get
  if c.app.session.phase ≠ .reading || c.conn.draining then pure ()
  else do
    let expired ← closeExpiredRequest
    if expired then pure ()
    else do
      let admitted ← startRequest config
      if !admitted then pure ()
      else do
        let parsed ← feedInput config
        handleParsed config parsed c.io.peerHalfClosed

def onWriteComplete : HttpRun Unit := do
  let c ← get
  match c.app.session.phase with
  | .interimWriting =>
    if c.conn.draining then do
      onSession fun s => { s with phase := .closing }
      clearReadDeadline
      finishPendingRequest true
      closeAfterFlush
    else do
      let expired ← closeExpiredRequest
      if expired then pure ()
      else do
        onSession fun s => { s with phase := .reading }
        emit .resumed
        onMessage config
  | .writing => do
    finishPendingRequest false
    if c.app.session.close || c.conn.draining then do
      onSession fun s => { s with phase := .closing }
      closeAfterFlush
    else do
      onSession fun s => { s with parser := resetRequestParser s.parser, phase := .reading }
      emit .reset
      onMessage config
  | _ => pure ()

/-- `HttpMessageHandler::onMessage`: the session is created with the first message. -/
def handleMessage : HttpRun Unit := do
  onApp fun app => { app with created := true }
  onMessage config

def callbacks : Callbacks HttpState where
  onMessage := handleMessage config
  onWriteComplete := onWriteComplete config
  writeComplete app := app.created

end Callbacks

/-! ### Tasks -/

/-- The `try` block of `onTaskContinuation`: the response, unless the job is polled again. -/
def pollJob (job : JobId) : HttpRun (Option ResponseResult) := do
  let now ← readClock
  let c ← get
  let deadline := c.app.backend.deadline job
  let collected ←
    if now < deadline then do
      interfere
      let c ← get
      let result := c.app.backend.collectResponse (some job)
      onBackend fun _ => result.1
      pure result.2
    else pure none
  let later ← readClock
  match (if deadline ≤ later then some timeoutResponse else collected) with
  | none => do
    armTaskContinuation job
    pure none
  | some result => pure (some result)

/-- The end of `pollJob`: **the deadline decides before what was collected**. -/
def settlePoll (job : JobId) (deadline : Nat) (collected : Option ResponseResult) :
    HttpRun (Option ResponseResult) := do
  let later ← readClock
  match (if deadline ≤ later then some timeoutResponse else collected) with
  | none => do
    armTaskContinuation job
    pure none
  | some result => pure (some result)

def onTaskContinuation (generation : Nat) : HttpRun Unit := do
  let c ← get
  if c.app.session.phase ≠ .awaitingTask || generation ≠ c.app.session.taskGeneration || c.conn.draining then
    pure ()
  else
    match c.app.session.pendingJob with
    | none => pure ()
    | some job => do
      let result ← tryCatch (pollJob job) fun _ => pure (some failureResponse)
      match result with
      | none => pure ()
      | some response => do
        cancelPending
        onSession fun s => { s with pendingJob := none }
        cancelContinuation
        sendFinalResponse (.job job) response

/-- `Session::~Session`, where there is a session. -/
def destroySession : HttpRun Unit := do
  let c ← get
  whenever c.app.created do
    whenever c.app.session.pendingJob.isSome cancelPending
    finishPendingRequest true

end HpServer.App
