/-
**The head of a request is refused exactly as the whole request would be.**

`onRequestHeaders` decides before the body is read; `onResponse` decides again on the complete request.

* `SameAnswer` — the same status, payload and header lines, up to the `Connection` line.
* `Handled` — the request is answered by the echo handler, by the static files or by the task API behind
  its route and method check.
* `header_admission_predicts` — **a refused head is refused in the same way by every complete request, and no
  task changes; a head that is let through is handled, and never answered with 405.**
-/

import HpServer.Http.RequestRouter
import HpServer.Http.ResponseHeader

namespace HpServer.Http

open Base Business FileTree

def isConnectionLine (line : Bytes) : Bool := (text "Connection: ").isPrefixOf line

/-- Header lines without the one that announces the policy. -/
def withoutConnection (lines : List Bytes) : List Bytes := lines.filter fun line => !isConnectionLine line

/-- Two answers that differ in the announced policy at most. -/
structure SameAnswer (a b : ResponseResult) : Prop where
  status : a.status = b.status
  bytes : ∃ aLines bLines payload, cutHeader a.bytes = some (aLines, payload)
    ∧ cutHeader b.bytes = some (bLines, payload) ∧ withoutConnection aLines = withoutConnection bLines
  file : a.file = none ∧ b.file = none

theorem SameAnswer.refl {a : ResponseResult} {lines : List Bytes} {payload : Bytes}
    (cut : cutHeader a.bytes = some (lines, payload)) (plain : a.file = none) : SameAnswer a a :=
  ⟨rfl, ⟨lines, lines, payload, cut, cut, rfl⟩, plain, plain⟩

/-! ### Refusals -/

theorem withoutConnection_status (status : Status) (lines : List Bytes) :
    withoutConnection (statusText status :: lines) = statusText status :: withoutConnection lines :=
  List.filter_cons_of_pos rfl

theorem withoutConnection_responseFields (status : Status) (contentLength : Nat)
    (contentType allowedMethods : Bytes) (policy : ConnectionPolicy) :
    withoutConnection ((responseFields status contentLength contentType allowedMethods policy).map fieldLine)
      = withoutConnection ((responseFields status contentLength contentType allowedMethods .close).map
        fieldLine) := by
  have announces : ∀ policy, isConnectionLine (fieldLine (text "Connection", policyText policy)) = true :=
    fun policy => by cases policy <;> rfl
  unfold responseFields withoutConnection
  simp only [List.map_append, List.map_cons, List.filter_append, List.filter_cons, announces, Bool.not_true,
    Bool.false_eq_true, if_false]

/-- **The policy of a JSON answer is read in its `Connection` line only.** -/
theorem sameAnswer_taskJson (status : Status) (body : Bytes) (first second : ConnectionPolicy) (omitBody : Bool)
    {allowedMethods : Bytes} (clean : isClean allowedMethods) :
    SameAnswer (makeTaskJsonResponse status body first omitBody allowedMethods)
      (makeTaskJsonResponse status body second omitBody allowedMethods) where
  status := rfl
  file := ⟨rfl, rfl⟩
  bytes := by
    rw [makeTaskJsonResponse_bytes, makeTaskJsonResponse_bytes]
    refine ⟨_, _, _, cutHeader_headerOf status (taskFields_clean status _ first clean) _,
      cutHeader_headerOf status (taskFields_clean status _ second clean) _, ?_⟩
    have lines : ∀ policy, withoutConnection ((taskFields status body.length allowedMethods policy).map fieldLine)
        = withoutConnection ((responseFields status body.length (text "application/json") allowedMethods
            .close).map fieldLine)
          ++ withoutConnection [fieldLine (text "Cache-Control", text "no-store")] := by
      intro policy
      rw [← withoutConnection_responseFields _ _ _ _ policy]
      unfold taskFields withoutConnection
      rw [List.map_append, List.filter_append]
      rfl
    rw [withoutConnection_status, withoutConnection_status, lines, lines]

theorem IsRefusal.clean {status : Status} {allow : Bytes} (refusal : IsRefusal status allow) :
    isClean allow := by
  rcases refusal.allow with rfl | rfl | rfl <;> decide

/-- The statuses the router refuses with. -/
theorem rejectRequest_some {status : Status} (omitBody : Bool) {allowedMethods : Bytes}
    (clean : isClean allowedMethods)
    (known : status = .badRequest ∨ status = .forbidden ∨ status = .methodNotAllowed) :
    ∃ rejected, rejectRequest status omitBody allowedMethods = some rejected
      ∧ rejected.effectivePolicy = .close ∧ SameAnswer rejected rejected := by
  obtain ⟨body, written⟩ : ∃ body, errorBody status = some body := by
    rcases known with rfl | rfl | rfl <;> exact ⟨_, rfl⟩
  have cut := cutHeader_headerOf status
    (responseFields_clean status body.length .close (show isClean (text "text/plain; charset=utf-8") by decide) clean)
    (if omitBody then [] else body)
  rw [← makeResponseHeader_eq] at cut
  exact ⟨_, errorAnswer_eq written .close omitBody allowedMethods, rfl, .refl cut rfl⟩

namespace RequestRouter

/-- `admitTarget` lets a request through or refuses it with 405. -/
theorem admitTarget_cases (target : RequestTarget) (method : Bytes) :
    admitTarget target method = some none ∧ (method = text "POST" ∧ target.path = echoPath
        ∨ method ≠ text "POST" ∧ target.path ≠ echoPath)
      ∨ ∃ rejected, admitTarget target method = some (some rejected) ∧ rejected.effectivePolicy = .close
        ∧ SameAnswer rejected rejected := by
  have refuses : ∀ {omitBody : Bool} {allowedMethods : Bytes}, isClean allowedMethods →
      ∃ rejected, some <$> rejectRequest .methodNotAllowed omitBody allowedMethods = some (some rejected)
        ∧ rejected.effectivePolicy = .close ∧ SameAnswer rejected rejected := by
    intro omitBody allowedMethods clean
    obtain ⟨rejected, made, facts⟩ := rejectRequest_some omitBody clean (.inr (.inr rfl))
    exact ⟨rejected, by rw [made]; rfl, facts⟩
  unfold admitTarget
  dsimp only
  split
  case isTrue echo =>
    split
    case isTrue post => exact .inl ⟨rfl, .inl ⟨post, echo⟩⟩
    case isFalse => exact .inr (refuses (by decide))
  case isFalse other =>
    split
    case isTrue read =>
      refine .inl ⟨rfl, .inr ⟨?_, other⟩⟩
      rintro rfl
      exact absurd read (by decide)
    case isFalse => exact .inr (refuses (by decide))

/-! ### The two decisions -/

/-- Who answers a request that is let through. -/
inductive Handled (service : StaticFileService) (target : RequestTarget) (request : HttpRequest)
    (policy : ConnectionPolicy) (now : Int) (tasks : TaskService) : Prop
  | echo (method : request.method = text "POST") (path : target.path = echoPath)
      (answer : onResponse service request policy now tasks = (some (echoResponse request policy), tasks))
  | files (answer : onResponse service request policy now tasks
      = (service.onValidatedTarget target (request.method = text "HEAD") policy request.staticFields now, tasks))
  | tasks (valid : validateTaskRequest (classifyTaskRoute target) request.method policy = none)
      (answer : onResponse service request policy now tasks
        = (some (onTaskResponse (classifyTaskRoute target) request policy tasks).1,
          (onTaskResponse (classifyTaskRoute target) request policy tasks).2))

section

variable (service : StaticFileService) {request : HttpRequest} (policy : ConnectionPolicy) (now : Int)
  (tasks : TaskService) {target : RequestTarget}

theorem onResponse_unparsed (refused : (parseRequestTarget request.target).target = none) :
    onResponse service request policy now tasks
      = (rejectRequest (parseRequestTarget request.target).status (request.method = text "HEAD") [], tasks) := by
  unfold onResponse
  dsimp only
  rw [refused]

theorem onResponse_task (parsed : (parseRequestTarget request.target).target = some target)
    (route : (classifyTaskRoute target).kind ≠ .other) :
    onResponse service request policy now tasks
      = (some (onTaskResponse (classifyTaskRoute target) request policy tasks).1,
        (onTaskResponse (classifyTaskRoute target) request policy tasks).2) := by
  unfold onResponse
  dsimp only
  rw [parsed]
  exact if_pos route

theorem onResponse_other (parsed : (parseRequestTarget request.target).target = some target)
    (route : (classifyTaskRoute target).kind = .other) :
    onResponse service request policy now tasks
      = match admitTarget target request.method with
        | none => (none, tasks)
        | some (some rejected) => (some rejected, tasks)
        | some none =>
          if request.method = text "POST" then (some (echoResponse request policy), tasks)
          else
            (service.onValidatedTarget target (request.method = text "HEAD") policy request.staticFields now,
              tasks) := by
  unfold onResponse
  dsimp only
  rw [parsed]
  exact if_neg (not_not.mpr route)

variable {service policy now tasks}

/-- No handler answers 405. -/
theorem Handled.status (handled : Handled service target request policy now tasks) {result : ResponseResult}
    (answered : (onResponse service request policy now tasks).1 = some result) :
    result.status ≠ .methodNotAllowed := by
  cases handled with
  | echo method path answer =>
    rw [answer] at answered
    cases answered
    exact fun other => nomatch other
  | files answer =>
    rw [answer] at answered
    rcases service.onValidatedTarget_cases target with ⟨status, failed, same⟩ | ⟨file, isFile, same⟩
    · rw [errorResponse_status ((same _ _ _ _).symm.trans answered)]
      rcases failed with rfl | rfl | rfl <;> exact fun other => nomatch other
    · obtain rfl := Option.some.inj ((same _ _ _ _).symm.trans answered)
      rw [answerFile_status]
      exact (selectedStatus_isFile _).not_methodNotAllowed
  | tasks valid answer =>
    rw [answer] at answered
    obtain ⟨status, body, effective, known, -, same⟩ := onTaskResponse_shape valid tasks
    cases answered
    rw [same]
    rintro rfl
    cases known

end

end RequestRouter

/-- **Header admission predicts the final answer.** The head callback never fails. A head it refuses, always
with `close`, is refused in the same way by every complete request with its method and target, and no task
changes. A head it lets through is handled by one of the three handlers, and so not answered with 405. -/
theorem header_admission_predicts (head : RequestHead) (policy : ConnectionPolicy) :
    ∃ admission, RequestRouter.onRequestHeaders head policy = some admission
      ∧ (∀ rejected, admission = some rejected → rejected.effectivePolicy = .close
        ∧ ∀ (service : StaticFileService) (request : HttpRequest) (policy : ConnectionPolicy) (now : Int)
          (tasks : TaskService), request.method = head.method → request.target = head.target →
          ∃ result, RequestRouter.onResponse service request policy now tasks = (some result, tasks)
            ∧ SameAnswer rejected result)
      ∧ (admission = none → ∃ target, (parseRequestTarget head.target).target = some target
        ∧ ∀ (service : StaticFileService) (request : HttpRequest) (policy : ConnectionPolicy) (now : Int)
          (tasks : TaskService), request.method = head.method → request.target = head.target →
          RequestRouter.Handled service target request policy now tasks
            ∧ ∀ result, (RequestRouter.onResponse service request policy now tasks).1 = some result →
              result.status ≠ .methodNotAllowed) := by
  unfold RequestRouter.onRequestHeaders
  dsimp only
  cases parsed : (parseRequestTarget head.target).target with
  | none =>
    have known : (parseRequestTarget head.target).status = .badRequest
        ∨ (parseRequestTarget head.target).status = .forbidden
        ∨ (parseRequestTarget head.target).status = .methodNotAllowed :=
      (parseRequestTarget_refused parsed).imp_right .inl
    obtain ⟨rejected, made, close, same⟩ :=
      rejectRequest_some (head.method = text "HEAD") (show isClean [] from rfl) known
    refine ⟨some rejected, by dsimp only; rw [made]; rfl, ?_, fun none => nomatch none⟩
    rintro _ ⟨⟩
    refine ⟨close, fun service request policy now tasks method target => ⟨rejected, ?_, same⟩⟩
    rw [RequestRouter.onResponse_unparsed service policy now tasks (target ▸ parsed), method, target, made]
  | some target =>
    dsimp only
    by_cases route : (classifyTaskRoute target).kind = .other
    case pos =>
      rw [if_neg (not_not.mpr route)]
      rcases RequestRouter.admitTarget_cases target head.method with
        ⟨admitted, who⟩ | ⟨rejected, refused, close, same⟩
      · refine ⟨none, admitted, fun _ none => (nomatch none), fun _ => ⟨target, rfl, ?_⟩⟩
        intro service request policy now tasks method sameTarget
        have answer := RequestRouter.onResponse_other service policy now tasks (sameTarget ▸ parsed) route
        rw [method, admitted] at answer
        have handled : RequestRouter.Handled service target request policy now tasks := by
          rcases who with ⟨post, echo⟩ | ⟨notPost, -⟩
          · rw [if_pos post] at answer
            exact .echo (method.trans post) echo answer
          · rw [if_neg notPost, ← method] at answer
            exact .files answer
        exact ⟨handled, fun result answered => handled.status answered⟩
      · refine ⟨some rejected, refused, ?_, fun none => nomatch none⟩
        rintro _ ⟨⟩
        refine ⟨close, fun service request policy now tasks method sameTarget => ⟨rejected, ?_, same⟩⟩
        rw [RequestRouter.onResponse_other service policy now tasks (sameTarget ▸ parsed) route, method, refused]
    case neg =>
      rw [if_pos route]
      refine ⟨_, rfl, ?_⟩
      obtain ⟨status, body, allow, refusal, served, refused⟩ := validateTaskRequest_spec (classifyTaskRoute target)
      unfold onTaskHeaders
      by_cases serves : IsServed (classifyTaskRoute target) head.method
      · rw [served _ _ serves]
        refine ⟨fun _ none => (nomatch none), fun _ => ⟨target, rfl, ?_⟩⟩
        intro service request policy now tasks method sameTarget
        have handled : RequestRouter.Handled service target request policy now tasks :=
          .tasks (served _ _ (method ▸ serves))
            (RequestRouter.onResponse_task service policy now tasks (sameTarget ▸ parsed) route)
        exact ⟨handled, fun result answered => handled.status answered⟩
      · rw [refused _ _ serves]
        have strict : taskErrorPolicy status .close = .close := by
          rcases taskErrorPolicy_strict status .close with same | same <;> exact same
        refine ⟨fun rejected same => ?_, fun none => nomatch none⟩
        rw [← Option.some.inj same]
        refine ⟨strict, fun service request policy now tasks method sameTarget => ⟨_, ?_,
          sameAnswer_taskJson status body _ (taskErrorPolicy status policy) _ refusal.clean⟩⟩
        have answer := refused request.method policy (method ▸ serves)
        rw [RequestRouter.onResponse_task service policy now tasks (sameTarget ▸ parsed) route,
          onTaskResponse_refused answer, method]

end HpServer.Http
