/-
**`HEAD` mirrors `GET`.**

The router answers `HEAD` with the header of what it would answer to `GET` without a range. A session knows from its
parser that a request is a `HEAD` request, and whoever answers it is told so; that is followed through every run of a
server here.

* `router_mirror` — the answers of the router on the routes that are no task routes.
* `HeadSound` — what holds of a session at each of its places; `HeadSound.step` — every step keeps it.
* `head_mirrors_get` — **what a `HEAD` request is answered with ends with its header.**
-/

import HpServer.App.HttpApplication
import HpServer.App.ResponseFraming
import HpServer.Http.RequestMethod

namespace HpServer.App

open Base Business Http Metrics Net Programs

/-! ### Answers without a body -/

/-- **An answer that ends with its header.** -/
def NoBody (result : ResponseResult) : Prop :=
  (∃ lines, cutHeader result.bytes = some (lines, [])) ∧ result.file = none

theorem HeadOf.noBody {result full : ResponseResult} (head : HeadOf result full) : NoBody result := by
  obtain ⟨fields, payload, -, framed, noFile, -⟩ := head
  exact ⟨⟨_, framed.cut⟩, noFile⟩

theorem FramedFor.noBody {method : Bytes} {result : ResponseResult} {others : Bytes → Option ResponseResult}
    (framed : FramedFor method result others) (isHead : method = text "HEAD") : NoBody result := by
  obtain ⟨other, full, -, -, head⟩ := framed.2 isHead
  exact head.noBody

theorem errorAnswer_noBody {status : Status} {policy : ConnectionPolicy} {result : ResponseResult}
    (made : errorAnswer status policy true (text "GET") = some result) : NoBody result := by
  cases written : errorBody status with
  | none =>
    unfold errorAnswer makeErrorResponse at made
    rw [written] at made
    cases made
  | some body =>
    obtain ⟨answer, full, same, -, head⟩ :=
      errorAnswer_headOf written policy (.inr (show text "GET" ∈ methodLists by decide))
    cases made.symm.trans same
    exact head.noBody

/-! ### The router -/

/-- A target that the task API does not answer. -/
def NoTaskRoute (raw : Bytes) : Prop :=
  ∀ target, (parseRequestTarget raw).target = some target → (classifyTaskRoute target).kind = .other

/-- **The same header, and nothing behind it.** -/
structure Mirrors (head full : ResponseResult) : Prop where
  status : head.status = full.status
  policy : head.effectivePolicy = full.effectivePolicy
  header : ∃ lines payload, cutHeader head.bytes = some (lines, []) ∧ cutHeader full.bytes = some (lines, payload)
    ∧ full.bytes = head.bytes ++ payload
  file : head.file = none
  contentBytes : head.contentBytes = 0

theorem policyText_injective : Function.Injective policyText := by
  intro first second same
  cases first <;> cases second
  · rfl
  · exact absurd same (by decide)
  · exact absurd same (by decide)
  · rfl

theorem HeadOf.mirrors {head full : ResponseResult} (same : HeadOf head full) : Mirrors head full := by
  obtain ⟨fields, payload, whole, announced, noFile, status⟩ := same
  have first := announced.cut
  rw [status] at first
  refine ⟨status, ?_, ⟨_, payload, first, whole.cut, ?_⟩, noFile, ?_⟩
  · have connections := announced.connection.symm.trans whole.connection
    exact policyText_injective (Prod.mk.inj (List.cons.inj connections).1).2
  · have one := Lines.cutBlock_text first
    have two := Lines.cutBlock_text whole.cut
    rw [one, two]
    simp
  · have counted := announced.counted
    rw [fileRemaining, noFile] at counted
    exact counted

section Router

variable (service : StaticFileService) (request : HttpRequest) (policy : ConnectionPolicy) (now : Int)
  (tasks : TaskService)

/-- The same request as a `HEAD` request. -/
def asHead : HttpRequest := { request with method := text "HEAD" }

theorem asHead_parsed {request : HttpRequest} {target : Option RequestTarget}
    (parsed : (parseRequestTarget request.target).target = target) :
    (parseRequestTarget (asHead request).target).target = target :=
  parsed

/-- **What the router answers to `HEAD` and to `GET`.** -/
theorem router_mirror (route : NoTaskRoute request.target) :
    ∃ head full, (RequestRouter.onResponse service (asHead request) policy now tasks).1 = some head
      ∧ answerTo service request policy now tasks (text "GET") = some full ∧ HeadOf head full := by
  have apart : text "GET" ≠ text "HEAD" := by decide
  cases parsed : (parseRequestTarget request.target).target with
  | none =>
    obtain ⟨head, full, withoutBody, withBody, same⟩ := rejectRequest_headOf (parseRequestTarget_known parsed) (.inl rfl)
    refine ⟨head, full, ?_, ?_, same⟩
    · rw [RequestRouter.onResponse_unparsed service policy now tasks (asHead_parsed parsed)]
      exact withoutBody
    · unfold answerTo
      rw [RequestRouter.onResponse_unparsed service policy now tasks (withoutRange_parsed parsed _)]
      exact withBody
  | some target =>
    have other := route target parsed
    rw [RequestRouter.onResponse_other service policy now tasks (asHead_parsed parsed) other]
    rw [show (asHead request).method = text "HEAD" from rfl]
    by_cases echo : target.path = RequestRouter.echoPath
    · obtain ⟨head, full, withoutBody, withBody, same⟩ :=
        rejectRequest_headOf (.inr (.inr rfl)) (.inr (show text "POST" ∈ methodLists by decide))
      have refused : ∀ {method}, method ≠ text "POST" → RequestRouter.admitTarget target method
          = some <$> rejectRequest .methodNotAllowed (decide (method = text "HEAD")) (text "POST") :=
        fun post => (if_pos echo).trans (if_neg post)
      refine ⟨head, full, ?_, ?_, same⟩
      · rw [refused (by decide), decide_eq_true rfl, withoutBody]
        rfl
      · unfold answerTo
        rw [RequestRouter.onResponse_other service policy now tasks (withoutRange_parsed parsed _) other]
        rw [show (withoutRange request (text "GET")).method = text "GET" from rfl]
        rw [refused (by decide), decide_eq_false apart, withBody]
        rfl
    · have admitted : RequestRouter.admitTarget target (text "HEAD") = some none :=
        (if_neg echo).trans (if_pos (by decide))
      rw [router_get service request policy now tasks parsed other echo, admitted]
      dsimp only
      rw [if_neg (by decide), decide_eq_true rfl]
      rcases service.onValidatedTarget_cases target with ⟨status, failed, same⟩ | ⟨file, -, same⟩
      · obtain ⟨body, written⟩ : ∃ body, errorBody status = some body := by
          rcases failed with rfl | rfl | rfl <;> exact ⟨_, rfl⟩
        obtain ⟨head, full, withoutBody, withBody, headOf⟩ := errorAnswer_headOf written
          (if status = .badRequest || status = .methodNotAllowed then .close else policy)
          (.inr (show text "GET" ∈ methodLists by decide))
        exact ⟨head, full, (same _ _ _ _).trans withoutBody, (same _ _ _ _).trans withBody, headOf⟩
      · exact ⟨_, _, same _ _ _ _, same _ _ _ _, answerFile_headOf _ _ _ _ now policy⟩

end Router

theorem prevalidateTask_noBody {route : TaskRoute} {request : HttpRequest} {policy : ConnectionPolicy}
    {response : ResponseResult} (made : prevalidateTask route request policy = .ok (some response))
    (isHead : request.method = text "HEAD") : NoBody response := by
  rcases validateTaskRequest_cases route request.method policy with ⟨-, served⟩ | ⟨⟨_, refused, -⟩, -⟩
  · exact absurd isHead served.not_head
  · rcases validateTaskRequest_framing route request.method policy with valid | ⟨rejected, same, framed⟩
    · cases valid.symm.trans refused
    · unfold prevalidateTask at made
      rw [same] at made
      cases made
      exact framed.noBody isHead

/-! ### The callbacks of a server -/

/-- **The callbacks of a router**, whatever its files and the clock are when it is called. Each may throw. -/
structure Routes (handler : Handler) : Prop where
  response : ∀ request policy tasks, (handler.onResponse request policy tasks).1 = none
    ∨ ∃ service now, handler.onResponse request policy tasks = RequestRouter.onResponse service request policy now tasks
  headers : ∀ callback, handler.onRequestHeaders = some callback → ∀ head policy,
    callback head policy = none ∨ callback head policy = RequestRouter.onRequestHeaders head policy

theorem routes_routerHandler (service : StaticFileService) (now : Int) : Routes (routerHandler service now) where
  response _ _ _ := .inr ⟨service, now, rfl⟩
  headers callback same head policy := by
    cases same
    exact .inr rfl

theorem Routes.response_noBody {handler : Handler} (routes : Routes handler) {request : HttpRequest}
    {policy : ConnectionPolicy} {tasks : TaskService} {result : ResponseResult}
    (answered : (handler.onResponse request policy tasks).1 = some result) (isHead : request.method = text "HEAD") :
    NoBody result := by
  rcases routes.response request policy tasks with none | ⟨service, now, same⟩
  · cases none.symm.trans answered
  · obtain ⟨answer, given, framed⟩ := router_framing service request policy now tasks
    rw [same] at answered
    cases answered.symm.trans given
    exact framed.noBody isHead

theorem Routes.headers_noBody {handler : Handler} (routes : Routes handler)
    {callback : RequestHead → ConnectionPolicy → Option (Option ResponseResult)} {head : RequestHead}
    {policy : ConnectionPolicy} {result : ResponseResult} (given : handler.onRequestHeaders = some callback)
    (refused : callback head policy = some (some result)) (isHead : head.method = text "HEAD") : NoBody result := by
  rcases routes.headers callback given head policy with none | same
  · cases none.symm.trans refused
  · exact (headers_framing head policy (same.symm.trans refused)).noBody isHead

/-! ### Sessions -/

/-- The bytes of the message that is being read or answered. -/
def messageBytes (log : List SessionEvent) : Bytes :=
  log.foldl (fun message event =>
    match event with
    | .fed bytes _ _ => message ++ bytes
    | .reset => []
    | _ => message) []

/-- Every answer to a `HEAD` request ends with its header. -/
def HeadsAnswered (log : List SessionEvent) : Prop :=
  ∀ before cause result behind, log = before ++ .answered cause result :: behind → IsHead (messageBytes before) →
    NoBody result

theorem messageBytes_say (log : List SessionEvent) (event : SessionEvent) :
    messageBytes (log ++ [event]) = match event with
      | .fed bytes _ _ => messageBytes log ++ bytes
      | .reset => []
      | _ => messageBytes log :=
  List.foldl_append

/-- One event more: an answer to a `HEAD` request has no body. -/
theorem HeadsAnswered.say {log : List SessionEvent} (answered : HeadsAnswered log) {event : SessionEvent}
    (fair : ∀ cause result, event = .answered cause result → IsHead (messageBytes log) → NoBody result) :
    HeadsAnswered (log ++ [event]) := by
  intro before cause result behind same isHead
  rcases List.append_eq_append_iff.mp same with ⟨new, rfl, rest⟩ | ⟨old, rfl, rest⟩
  · cases new with
    | nil =>
      rw [List.append_nil] at isHead
      exact fair cause result (List.cons.inj rest).1 isHead
    | cons first new => exact absurd (List.cons.inj rest).2 (by simp)
  · cases old with
    | nil =>
      rw [List.append_nil] at fair
      exact fair cause result (List.cons.inj rest).1.symm isHead
    | cons first old =>
      obtain ⟨rfl, -⟩ := List.cons.inj rest
      exact answered before cause result old rfl isHead

/-- **What is known at a place** of the request that is read or answered there. -/
def Place.HeadKnown (parser : RequestParser) (job : Option JobId) (phase : Phase) : Place → Prop
  | .resting => job = none ∨ phase = .awaitingTask ∧ parser.headRequest = false
  | .fed parsed => job = none ∧ ∃ accepted, parsed = buildFeedResult parser accepted
  | .asking head => job = none ∧ (parser.headRequest = true → head.method = text "HEAD")
  | .deciding parsed => job = none ∧
      (parsed.status = .complete → parser.headRequest = true → parsed.request.method = text "HEAD")
  | .due omits parsed => job = none ∧ parser.headRequest = omits ∧
      (parsed.status = .complete → omits = true → parsed.request.method = text "HEAD")
  | .failing omits => job = none ∧ parser.headRequest = omits
  | .owing omits _ result | .sending omits _ result =>
      job = none ∧ parser.headRequest = omits ∧ (omits = true → NoBody result)
  | .waiting omits _ _ | .settling omits _ _ =>
      phase = .awaitingTask ∧ parser.headRequest = omits ∧ omits = false
  | .gone => True
  | _ => job = none

/-- **A session somewhere in its program.** -/
structure HeadSound (p : Place) (s : SessionState) : Prop where
  fit : Coherent s.session.parser.toParserFields
  begun : Begun s.session.parser (messageBytes s.log)
  answered : HeadsAnswered s.log
  known : p.HeadKnown s.session.parser s.session.pendingJob s.session.phase

theorem headSound_fresh : HeadSound .resting {} where
  fit := coherent_initial
  begun := .line rfl rfl rfl List.not_mem_nil rfl
  answered before cause result behind same := absurd same (by simp)
  known := .inl rfl

section Known

variable {p : Place} {parser : RequestParser} {job : Option JobId} {phase : Phase}

theorem HeadKnown.jobless (free : p.isFree = true) (known : p.HeadKnown parser job phase) : job = none := by
  cases p <;> first | exact known | exact known.1 | cases free

theorem HeadKnown.rephase (free : p.isFree = true) (known : p.HeadKnown parser job phase) (next : Phase) :
    p.HeadKnown parser job next := by
  cases p <;> first | exact known | cases free

theorem HeadKnown.omits {omits : Bool} (answers : p.answersFor = some omits) (known : p.HeadKnown parser job phase) :
    job = none ∧ parser.headRequest = omits := by
  cases p <;> first | (cases answers; exact ⟨known.1, known.2.1⟩) | cases answers

end Known

section Steps

variable {config : HttpConfig} {p q : Place} {s t : HttpState}

/-- Events that neither read nor answer. -/
def SessionEvent.isPlain : SessionEvent → Bool
  | .fed _ _ _ | .answered _ _ | .reset => false
  | _ => true

theorem HeadSound.say (sound : HeadSound p s.own) {event : SessionEvent} (plain : event.isPlain = true)
    (parser : t.session.parser = s.session.parser) (log : t.log = s.log ++ [event])
    (known : q.HeadKnown t.session.parser t.session.pendingJob t.session.phase) : HeadSound q t.own where
  fit := by
    show Coherent t.session.parser.toParserFields
    rw [parser]
    exact sound.fit
  begun := by
    show Begun t.session.parser (messageBytes t.log)
    have message : messageBytes (s.log ++ [event]) = messageBytes s.log := by
      rw [messageBytes_say]
      cases event <;> first | rfl | cases plain
    rw [parser, log, message]
    exact sound.begun
  answered := by
    show HeadsAnswered t.log
    rw [log]
    refine sound.answered.say fun cause result same => ?_
    subst same
    cases plain
  known := known

/-- A submission: a job is not for a `HEAD` request, and what refuses one has no body. -/
theorem HeadSound.submitted {omits : Bool} {parsed : FeedResult} {now : Nat} {result : TaskBackend × AsyncTaskSubmission}
    (sound : HeadSound (.due omits parsed) s.own) (complete : parsed.status = .complete)
    (outcome : SubmitOutcome s.backend parsed.request (policyFor parsed) now result) :
    HeadSound (dispatched omits parsed result.2) (HttpState.say
      { s with session := s.session.submitted result.2.job, backend := result.1 }
      (.submitted parsed.request (policyFor parsed) result.2.job)).own := by
  obtain ⟨jobless, same, method⟩ := sound.known
  have served : ∀ {route : TaskRoute}, Admitted route parsed.request → omits = false := by
    intro route admitted
    by_contra isHead
    have served : IsServed route parsed.request.method := ⟨admitted.kind, admitted.method⟩
    exact served.not_head (method complete (by simpa using isHead))
  cases outcome with
  | synchronous => exact sound.say rfl rfl rfl ⟨jobless, same, method⟩
  | rejected found refused =>
    exact sound.say rfl rfl rfl ⟨jobless, same, fun isHead => prevalidateTask_noBody refused (method complete isHead)⟩
  | overloaded found admitted =>
    refine sound.say rfl rfl rfl ⟨jobless, same, fun isHead => ?_⟩
    cases isHead.symm.trans (served admitted)
  | pending found admitted => exact sound.say rfl rfl rfl ⟨rfl, same, served admitted⟩

theorem HeadSound.fed (sound : HeadSound .started s.own) (input : Bytes) (eof : Bool) {parser : RequestParser}
    {parsed : FeedResult} (answer : feedRequestBytes s.session.parser input = (parser, parsed)) :
    HeadSound (.fed parsed) ((s.change fun x =>
      Session.copied config { x with parser := parser } parsed.request.method parsed.request.target).say
        (.fed (input.take parsed.acceptedBytes) eof parsed)).own := by
  have coherent : Coherent s.session.parser.toParserFields := sound.fit
  obtain ⟨rfl, rfl⟩ := Prod.mk.inj answer
  refine ⟨feedRequestBytes_coherent input coherent, ?_, ?_, sound.known, _, rfl⟩
  · show Begun (feedRequestBytes s.session.parser input).1 (messageBytes (s.log ++ [_]))
    rw [messageBytes_say]
    exact feedRequestBytes_begun input coherent sound.begun
  · exact sound.answered.say fun _ _ other => nomatch other

/-- **Every step of a session.** -/
theorem HeadSound.step (routes : Routes config.handler) (step : SessionStep config (p, s) (q, t))
    (sound : HeadSound p s.own) : HeadSound q t.own := by
  obtain ⟨fit, begun, answered, known⟩ := id sound
  cases step with
  | counted | interfered | leased | dated | created | abandoned => exact ⟨fit, begun, answered, known⟩
  | finished => exact sound.say rfl rfl rfl known
  | left free => exact ⟨fit, begun, answered, .inl (HeadKnown.jobless free known)⟩
  | fell answers => exact ⟨fit, begun, answered, HeadKnown.omits answers known⟩
  | closed free => exact ⟨fit, begun, answered, .inl (HeadKnown.jobless free known)⟩
  | rejected free => exact ⟨fit, begun, answered, HeadKnown.rephase free known _⟩
  | entered phase =>
    refine ⟨fit, begun, answered, known.resolve_right fun waiting => ?_⟩
    cases phase.symm.trans waiting.1
  | began => exact sound.say rfl rfl rfl known
  | ready => exact ⟨fit, begun, answered, known⟩
  | fed input eof answer => exact sound.fed input eof answer
  | shown status reported =>
    obtain ⟨jobless, accepted, rfl⟩ := known
    exact ⟨fit, begun, answered, jobless, Begun.head_method fit begun accepted reported⟩
  | asked => exact sound.say rfl rfl rfl known
  | accepted => exact ⟨fit, begun, answered, known.1⟩
  | refused given verdict =>
    exact ⟨fit, begun, answered, known.1, rfl, fun isHead => routes.headers_noBody given verdict (known.2 isHead)⟩
  | overruled => exact sound.say rfl rfl rfl known
  | unasked => exact ⟨fit, begun, answered, known.1, rfl⟩
  | continues => exact ⟨fit, begun, answered, known⟩
  | continued => exact sound.say rfl rfl rfl (.inl known)
  | decided =>
    obtain ⟨jobless, accepted, rfl⟩ := known
    exact ⟨fit, begun, answered, jobless, Begun.request_method fit begun accepted⟩
  | turned => exact ⟨fit, begun, answered, known⟩
  | weighed => exact ⟨fit, begun, answered, known.1, rfl, known.2⟩
  | faulted refused answer =>
    refine ⟨fit, begun, answered, known.1, known.2.1, fun omitted => ?_⟩
    rw [omitted] at answer
    exact errorAnswer_noBody answer
  | submitted now complete outcome => exact sound.submitted complete outcome
  | provided complete response =>
    refine sound.say rfl rfl rfl ⟨known.1, known.2.1, fun isHead => ?_⟩
    exact routes.response_noBody (by rw [response]) (known.2.2 complete isHead)
  | @relaxed _ omits parsed _ store =>
    have provided : HeadSound (.failing omits) (HttpState.say { s with backend := { s.backend with store := store } }
      (.provided parsed.request (policyFor parsed))).own := sound.say rfl rfl rfl ⟨known.1, known.2.1⟩
    exact provided.say rfl rfl rfl provided.known
  | threw => exact sound.say rfl rfl rfl ⟨known.1, known.2.1⟩
  | failed answer =>
    refine ⟨fit, begun, answered, known.1, known.2, fun omitted => ?_⟩
    rw [omitted] at answer
    exact errorAnswer_noBody answer
  | hardened => exact ⟨fit, begun, answered, known⟩
  | answers => exact ⟨fit, begun, answered, known⟩
  | answered =>
    refine ⟨fit, ?_, answered.say fun cause result same isHead => ?_, .inl known.1⟩
    · rw [HttpState.own, HttpState.say, messageBytes_say]
      exact begun
    · cases same
      exact known.2.2 (known.2.1 ▸ begun.headRequest_iff.mpr isHead)
  | waited => exact ⟨fit, begun, answered, .inr ⟨known.1, known.2.1.trans known.2.2⟩⟩
  | polled phase pending =>
    refine ⟨fit, begun, answered, phase, rfl, ?_⟩
    rcases known with none | ⟨-, other⟩
    · cases pending.symm.trans none
    · exact other
  | collected | resolved => exact ⟨fit, begun, answered, known⟩
  | settled =>
    refine ⟨fit, begun, answered, rfl, known.2.1, fun omitted => ?_⟩
    cases omitted.symm.trans known.2.2
  | interrupted phase | flushed phase =>
    refine ⟨fit, begun, answered, known.resolve_right fun waiting => ?_⟩
    cases phase.symm.trans waiting.1
  | resumed => exact sound.say rfl rfl rfl (.inl known)
  | reset =>
    refine ⟨coherent_initial, ?_, answered.say (fun _ _ other => nomatch other), .inl known⟩
    rw [HttpState.own, HttpState.say, messageBytes_say]
    exact begun_reset _
  | destroyed => exact ⟨fit, begun, answered, trivial⟩

theorem headSound_path (routes : Routes config.handler) {x y : Place × HttpState} (path : Path config x y)
    (sound : HeadSound x.1 x.2.own) : HeadSound y.1 y.2.own := by
  induction path with
  | refl => exact sound
  | tail _ step ih => exact HeadSound.step routes step ih

end Steps

/-- **`HEAD` mirrors `GET`.** On every target that is no task route, the router answers `HEAD` with the status, policy
and header bytes of its answer to `GET` without a range, and with nothing behind them. In every run of a server, whatever
its connections read and whoever answers, an answer to a message that begins with a valid `HEAD` request line ends with
its header. -/
theorem head_mirrors_get :
    (∀ (service : StaticFileService) (request : HttpRequest) (policy : ConnectionPolicy) (now : Int)
      (tasks : TaskService), NoTaskRoute request.target → ∃ head full,
        (RequestRouter.onResponse service (asHead request) policy now tasks).1 = some head
          ∧ answerTo service request policy now tasks (text "GET") = some full ∧ Mirrors head full)
    ∧ ∀ (r : Registry SessionState SharedState) (steps : List (HttpConfig × RegistryAction HttpState SharedState)),
      r.connections = ∅ → (∀ step ∈ steps, Routes step.1.handler ∧ step.2.Own) →
      ∀ fd o, (serverRun r steps).connections.lookup fd = some o → HeadsAnswered o.app.log := by
  refine ⟨fun service request policy now tasks route => ?_, fun r steps none good fd o held => ?_⟩
  · obtain ⟨head, full, first, second, same⟩ := router_mirror service request policy now tasks route
    exact ⟨head, full, first, second, same.mirrors⟩
  · refine (serverRun_all (P := HeadSound .resting) (fun config => Routes config.handler) headSound_fresh
      (fun routes path sound => headSound_path routes path sound) steps good (fun fd o held => ?_) fd o held).answered
    rw [none] at held
    cases held

end HpServer.App
