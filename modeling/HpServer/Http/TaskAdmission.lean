/-
**Which task requests are refused before the store is asked, and with what.**

* `taskError_ok` — the text of an error does not depend on the policy, the method and the allowed methods.
* `validateTaskRequest_spec` — **a route refuses every method it does not serve with one answer.**
* `prevalidateTask_cases` — a request is `Admitted` or refused with an error.
* `onTaskResponse_refused`, `onTaskResponse_shape` — **a refused request changes nothing; the answer of any
  other is a JSON text that is not a 405**, whatever the store.
-/

import HpServer.Http.TaskInput
import HpServer.Library.Program

namespace HpServer.Http

open Business Json Programs

theorem dumpString_ok {value : Bytes} (utf8 : Utf8.valid value) (printable : ∀ b ∈ value, 0x20 ≤ b) :
    ∃ written, dumpString value = .ok written ∧ written.length ≤ 2 * value.length + 2 := by
  have done := quoted_of_valid utf8
  refine ⟨_, ?_, quoted_length printable done⟩
  unfold dumpString
  rw [done]
  rfl

/-! ### Error answers -/

/-- A short text without control bytes. -/
def isPlainText (value : Bytes) : Bool :=
  Utf8.valid value && value.all (fun b => 0x20 ≤ b) && value.length ≤ 64

theorem dumpString_plain {value : Bytes} (plain : isPlainText value) :
    ∃ written, dumpString value = .ok written ∧ written.length ≤ 130 := by
  simp only [isPlainText, Bool.and_eq_true, List.all_eq_true, decide_eq_true_eq] at plain
  obtain ⟨⟨utf8, printable⟩, short⟩ := plain
  obtain ⟨written, done, bound⟩ := dumpString_ok utf8 printable
  exact ⟨written, done, by omega⟩

/-- **An error answer is the same text whatever the policy, the method and the allowed methods.** -/
theorem taskError_ok {code message : Bytes} (codePlain : isPlainText code) (messagePlain : isPlainText message) :
    ∃ body, ∀ status policy omitBody allow, taskError status code message policy omitBody allow
      = .ok (makeTaskJsonResponse status body (taskErrorPolicy status policy) omitBody allow) := by
  obtain ⟨c, codeDone, codeBound⟩ := dumpString_plain codePlain
  obtain ⟨m, messageDone, messageBound⟩ := dumpString_plain messagePlain
  refine ⟨object [(text "\"error\"", object [(text "\"code\"", c), (text "\"message\"", m)])],
    fun status policy omitBody allow => ?_⟩
  have inner := object_length [(text "\"code\"", c), (text "\"message\"", m)]
  have outer := object_length [(text "\"error\"", object [(text "\"code\"", c), (text "\"message\"", m)])]
  have names : (text "\"error\"").length = 7 ∧ (text "\"code\"").length = 6
      ∧ (text "\"message\"").length = 9 := by decide
  simp only [List.map_cons, List.map_nil, List.sum_cons, List.sum_nil] at inner outer
  unfold taskError
  rw [codeDone, messageDone]
  refine if_neg ?_
  unfold kMaxTaskResponseBytes
  omega

theorem taskError_status (code message : Bytes) (status : Status) (policy : ConnectionPolicy)
    (omitBody : Bool) (allow : Bytes) (codePlain : isPlainText code) (messagePlain : isPlainText message) :
    ∃ result, taskError status code message policy omitBody allow = .ok result ∧ result.status = status := by
  obtain ⟨body, done⟩ := taskError_ok codePlain messagePlain
  exact ⟨_, done status policy omitBody allow, rfl⟩

/-! ### Admission -/

/-- A request that reaches the store. -/
structure Admitted (route : TaskRoute) (request : HttpRequest) : Prop where
  kind : route.kind = .collection ∨ route.kind = .item
  method : isTaskMethod route.kind request.method
  small : request.body.length ≤ kMaxTaskInputBytes
  body : request.method = text "GET" ∨ request.method = text "DELETE" → request.body = []
  mediaType : request.method ≠ text "GET" → request.method ≠ text "DELETE" →
    isTaskMediaType request.contentType

/-- The routes and methods that are let through. -/
def IsServed (route : TaskRoute) (method : Bytes) : Prop :=
  (route.kind = .collection ∨ route.kind = .item) ∧ isTaskMethod route.kind method

/-- The status and the allowed methods of a request that is refused by its route or its method. -/
structure IsRefusal (status : Status) (allow : Bytes) : Prop where
  status : status = .badRequest ∨ status = .notFound ∨ status = .methodNotAllowed
  allow : allow = [] ∨ allow = text "GET, POST" ∨ allow = text "GET, PUT, DELETE"

theorem IsRefusal.high {status : Status} {allow : Bytes} (refusal : IsRefusal status allow) :
    400 ≤ status.code := by
  rcases refusal.status with rfl | rfl | rfl <;> decide

/-- **A route refuses every method it does not serve with one answer**, whatever the policy. -/
theorem validateTaskRequest_spec (route : TaskRoute) :
    ∃ status body allow, IsRefusal status allow
      ∧ (∀ method policy, IsServed route method → validateTaskRequest route method policy = none)
      ∧ ∀ method policy, ¬ IsServed route method → validateTaskRequest route method policy
        = some (makeTaskJsonResponse status body (taskErrorPolicy status policy) (method = text "HEAD")
          allow) := by
  unfold IsServed validateTaskRequest
  cases kind : route.kind with
  | invalidId =>
    obtain ⟨body, done⟩ := taskError_ok (show isPlainText (text "invalid_id") by decide)
      (show isPlainText (text "Invalid task identifier") by decide)
    exact ⟨.badRequest, body, [], ⟨.inl rfl, .inl rfl⟩, by simp, by simp [done, orInternalError]⟩
  | notFound =>
    obtain ⟨body, done⟩ := taskError_ok (show isPlainText (text "route_not_found") by decide)
      (show isPlainText (text "Route not found") by decide)
    exact ⟨.notFound, body, [], ⟨.inr (.inl rfl), .inl rfl⟩, by simp, by simp [done, orInternalError]⟩
  | other =>
    obtain ⟨body, done⟩ := taskError_ok (show isPlainText (text "route_not_found") by decide)
      (show isPlainText (text "Route not found") by decide)
    exact ⟨.notFound, body, [], ⟨.inr (.inl rfl), .inl rfl⟩, by simp, by simp [done, orInternalError]⟩
  | unsupportedQuery =>
    obtain ⟨body, done⟩ := taskError_ok (show isPlainText (text "unsupported_query") by decide)
      (show isPlainText (text "Query parameters are not supported") by decide)
    exact ⟨.badRequest, body, [], ⟨.inl rfl, .inl rfl⟩, by simp, by simp [done, orInternalError]⟩
  | collection =>
    obtain ⟨body, done⟩ := taskError_ok (show isPlainText (text "method_not_allowed") by decide)
      (show isPlainText (text "Method not allowed") by decide)
    refine ⟨.methodNotAllowed, body, text "GET, POST", ⟨.inr (.inr rfl), .inr (.inl rfl)⟩,
      fun method policy served => by simp [served.2], fun method policy refused => ?_⟩
    have other : isTaskMethod .collection method = false := by simpa using refused
    simp [other, done, orInternalError, allowedTaskMethods]
  | item =>
    obtain ⟨body, done⟩ := taskError_ok (show isPlainText (text "method_not_allowed") by decide)
      (show isPlainText (text "Method not allowed") by decide)
    refine ⟨.methodNotAllowed, body, text "GET, PUT, DELETE", ⟨.inr (.inr rfl), .inr (.inr rfl)⟩,
      fun method policy served => by simp [served.2], fun method policy refused => ?_⟩
    have other : isTaskMethod .item method = false := by simpa using refused
    simp [other, done, orInternalError, allowedTaskMethods]

/-- A request is refused by its route or its method, and then with an error. -/
theorem validateTaskRequest_cases (route : TaskRoute) (method : Bytes) (policy : ConnectionPolicy) :
    validateTaskRequest route method policy = none ∧ IsServed route method
      ∨ (∃ rejected, validateTaskRequest route method policy = some rejected
        ∧ 400 ≤ rejected.status.code) ∧ ¬ IsServed route method := by
  obtain ⟨status, body, allow, refusal, served, refused⟩ := validateTaskRequest_spec route
  by_cases serves : IsServed route method
  · exact .inl ⟨served method policy serves, serves⟩
  · exact .inr ⟨⟨_, refused method policy serves, refusal.high⟩, serves⟩

/-- **Admission is decided before the store is asked**: a request is admitted, or refused with an error. -/
theorem prevalidateTask_cases (route : TaskRoute) (request : HttpRequest) (policy : ConnectionPolicy) :
    prevalidateTask route request policy = .ok none ∧ Admitted route request
      ∨ (∃ rejected, prevalidateTask route request policy = .ok (some rejected)
        ∧ 400 ≤ rejected.status.code) ∧ ¬ Admitted route request := by
  rcases validateTaskRequest_cases route request.method policy with
    ⟨valid, kind, method⟩ | ⟨⟨rejected, invalid, high⟩, refused⟩
  · have errors : ∀ {code message : Bytes} (status : Status), 400 ≤ status.code → isPlainText code →
        isPlainText message → ∃ rejected, some <$> taskError status code message policy false []
          = (.ok (some rejected) : Except TaskException _) ∧ 400 ≤ rejected.status.code := by
      intro code message status high codePlain messagePlain
      obtain ⟨result, done, same⟩ := taskError_status code message status policy false [] codePlain messagePlain
      exact ⟨result, by rw [done]; rfl, same ▸ high⟩
    unfold prevalidateTask
    rw [valid]
    dsimp only
    split
    case isTrue large =>
      refine .inr ⟨errors _ (by decide) (by decide) (by decide), fun admitted => ?_⟩
      exact absurd admitted.small (Nat.not_le_of_lt large)
    case isFalse small =>
      have small := Nat.le_of_not_lt small
      split
      case isTrue bodiless =>
        simp only [Bool.or_eq_true, decide_eq_true_eq] at bodiless
        split
        case isTrue body =>
          exact .inr ⟨errors _ (by decide) (by decide) (by decide), fun admitted => body (admitted.body bodiless)⟩
        case isFalse empty =>
          rw [not_not] at empty
          exact .inl ⟨rfl, kind, method, small, fun _ => empty,
            fun notGet notDelete => absurd bodiless (not_or.mpr ⟨notGet, notDelete⟩)⟩
      case isFalse bodied =>
        simp only [Bool.or_eq_true, decide_eq_true_eq, not_or] at bodied
        split
        case isTrue untyped =>
          refine .inr ⟨errors _ (by decide) (by decide) (by decide), fun admitted => ?_⟩
          have typed := admitted.mediaType bodied.1 bodied.2
          simp [typed] at untyped
        case isFalse typed =>
          exact .inl ⟨rfl, kind, method, small, fun other => absurd other (not_or.mpr bodied),
            fun _ _ => by simpa using typed⟩
  · refine .inr ⟨⟨rejected, ?_, high⟩, fun admitted => refused ⟨admitted.kind, admitted.method⟩⟩
    unfold prevalidateTask
    rw [invalid]
    rfl

/-! ### The shape of an answer -/

theorem wp_serve {α : Type} (call : TaskService → α × TaskService) {normal : α → TaskService → Prop}
    {failure : TaskException → TaskService → Prop} {s : TaskService} :
    wp (serve call) normal failure s = normal (call s).1 (call s).2 := rfl

theorem wp_ofExcept {α : Type} {x : Except TaskException α} {value : α} (done : x = .ok value)
    {normal : α → TaskService → Prop} {failure : TaskException → TaskService → Prop} {s : TaskService} :
    wp (MonadExcept.ofExcept x : EStateM TaskException TaskService α) normal failure s = normal value s := by
  rw [done]
  rfl

theorem wp_ofExcept_of {α : Type} {x : Except TaskException α} {normal : α → TaskService → Prop}
    {s : TaskService} (made : ∀ value, x = .ok value → normal value s) :
    wp (MonadExcept.ofExcept x : EStateM TaskException TaskService α) normal (fun _ _ => True) s := by
  cases x with
  | ok value => exact made value rfl
  | error e => trivial

/-- The statuses of a request that its route serves. -/
def isAnswerStatus (status : Status) : Bool :=
  status ∈ ([.ok, .created, .badRequest, .notFound, .contentTooLarge, .unsupportedMediaType, .serviceUnavailable,
    .internalServerError] : List Status)

/-- An answer of the task API to a request that its route serves. -/
def IsTaskAnswer (policy : ConnectionPolicy) (response : ResponseResult) : Prop :=
  ∃ status body effective, isAnswerStatus status ∧ (effective = policy ∨ effective = .close)
    ∧ response = makeTaskJsonResponse status body effective false []

/-- Such an answer within the response budget. -/
def IsBudgetedAnswer (policy : ConnectionPolicy) (response : ResponseResult) : Prop :=
  ∃ status body effective, isAnswerStatus status ∧ (effective = policy ∨ effective = .close)
    ∧ body.length ≤ kMaxTaskResponseBytes ∧ response = makeTaskJsonResponse status body effective false []

theorem IsBudgetedAnswer.answer {policy : ConnectionPolicy} {response : ResponseResult}
    (budgeted : IsBudgetedAnswer policy response) : IsTaskAnswer policy response := by
  obtain ⟨status, body, effective, known, strict, -, same⟩ := budgeted
  exact ⟨status, body, effective, known, strict, same⟩

section Shape

variable {policy : ConnectionPolicy} {response : ResponseResult}

theorem taskResponse_answer {status : Status} {body : Bytes} {effective : ConnectionPolicy}
    (known : isAnswerStatus status) (strict : effective = policy ∨ effective = .close)
    (made : taskResponse status body effective false [] = .ok response) : IsBudgetedAnswer policy response := by
  unfold taskResponse at made
  split at made
  case isTrue => cases made
  case isFalse short =>
    exact ⟨status, body, effective, known, strict, Nat.le_of_not_lt short, (Except.ok.inj made).symm⟩

theorem taskErrorPolicy_strict (status : Status) (policy : ConnectionPolicy) :
    taskErrorPolicy status policy = policy ∨ taskErrorPolicy status policy = .close := by
  unfold taskErrorPolicy
  split
  · exact .inr rfl
  · exact .inl rfl

theorem taskError_answer {status : Status} {code message : Bytes} (known : isAnswerStatus status)
    (made : taskError status code message policy false [] = .ok response) : IsBudgetedAnswer policy response := by
  obtain ⟨c, -, made⟩ := bind_ok_iff.mp made
  obtain ⟨m, -, made⟩ := bind_ok_iff.mp made
  exact taskResponse_answer known (taskErrorPolicy_strict status policy) made

theorem serviceResponse_answer {result : TaskResult} {success : Status} (known : isAnswerStatus success)
    (made : serviceResponse result success policy = .ok response) : IsBudgetedAnswer policy response := by
  unfold serviceResponse at made
  split at made
  case h_1 => exact taskError_answer rfl made
  case h_2 => exact taskError_answer rfl made
  case h_3 => exact taskError_answer rfl made
  case h_4 =>
    split at made
    case h_1 task _ =>
      obtain ⟨body, -, made⟩ := bind_ok_iff.mp made
      exact taskResponse_answer known (.inl rfl) made
    case h_2 =>
      exact ⟨.internalServerError, internalErrorBody, .close, rfl, .inr rfl, by decide, (Except.ok.inj made).symm⟩

variable {route : TaskRoute} {request : HttpRequest}

theorem executeTask_answer (s : TaskService) :
    wp (executeTask route request policy) (fun response _ => IsBudgetedAnswer policy response) (fun _ _ => True) s := by
  unfold executeTask
  split
  case isTrue =>
    simp only [wp_bind, wp_serve]
    split
    · exact wp_ofExcept_of fun _ made => serviceResponse_answer rfl made
    · simp only [wp_bind]
      exact wp_ofExcept_of fun body _ =>
        wp_ofExcept_of fun _ made => taskResponse_answer rfl (.inl rfl) made
  case isFalse =>
    split
    case isTrue =>
      split
      · simp only [wp_bind, wp_get]
        exact wp_ofExcept_of fun body _ =>
          wp_ofExcept_of fun _ made => taskResponse_answer rfl (.inl rfl) made
      · simp only [wp_bind, wp_get]
        exact wp_ofExcept_of fun _ made => serviceResponse_answer rfl made
    case isFalse =>
      split
      · exact wp_ofExcept_of fun _ made => taskError_answer rfl made
      · split
        · simp only [wp_bind, wp_serve]
          exact wp_ofExcept_of fun _ made => serviceResponse_answer rfl made
        · simp only [wp_bind, wp_serve]
          exact wp_ofExcept_of fun _ made => serviceResponse_answer rfl made

theorem prevalidateTask_answer (valid : validateTaskRequest route request.method policy = none)
    (made : prevalidateTask route request policy = .ok (some response)) : IsBudgetedAnswer policy response := by
  have error : ∀ {status : Status} {code message : Bytes}, isAnswerStatus status →
      some <$> taskError status code message policy false [] = .ok (some response) →
      IsBudgetedAnswer policy response := by
    intro status code message known made
    cases thrown : taskError status code message policy false [] with
    | error e =>
      rw [thrown] at made
      cases made
    | ok result =>
      rw [thrown] at made
      cases made
      exact taskError_answer known thrown
  unfold prevalidateTask at made
  rw [valid] at made
  dsimp only at made
  split at made
  case isTrue => exact error rfl made
  case isFalse =>
    split at made
    case isTrue =>
      split at made
      case isTrue => exact error rfl made
      case isFalse => cases made
    case isFalse =>
      split at made
      case isTrue => exact error rfl made
      case isFalse => cases made

/-- A request that is refused before the store is asked changes nothing. -/
theorem onTaskResponse_refused (refused : validateTaskRequest route request.method policy = some response)
    (s : TaskService) : onTaskResponse route request policy s = (response, s) := by
  have made : prevalidateTask route request policy = .ok (some response) := by
    unfold prevalidateTask
    rw [refused]
    rfl
  unfold onTaskResponse tryTaskResponse
  rw [made]
  rfl

/-- `HEAD` is served by no route. -/
theorem IsServed.not_head {method : Bytes} (served : IsServed route method) : method ≠ text "HEAD" := by
  rintro rfl
  rcases served with ⟨kind | kind, method⟩ <;> rw [kind] at method <;> revert method <;> decide

/-- **The answer to a request that its route serves is a JSON text within the budget**, whatever the store. -/
theorem onTaskResponse_budgeted (valid : validateTaskRequest route request.method policy = none)
    (s : TaskService) : IsBudgetedAnswer policy (onTaskResponse route request policy s).1 := by
  have spec : wp (tryTaskResponse route request policy) (fun response _ => IsBudgetedAnswer policy response)
      (fun _ _ => True) s := by
    unfold tryTaskResponse
    simp only [wp_bind]
    refine wp_ofExcept_of fun admission made => ?_
    cases admission with
    | none => exact executeTask_answer s
    | some rejected => exact prevalidateTask_answer valid made
  have served : IsServed route request.method := by
    rcases validateTaskRequest_cases route request.method policy with ⟨-, served⟩ | ⟨⟨_, refused, -⟩, -⟩
    · exact served
    · cases valid.symm.trans refused
  unfold onTaskResponse
  unfold wp at spec
  split at spec
  case h_1 done =>
    rw [done]
    exact spec
  case h_2 thrown =>
    rw [thrown]
    refine ⟨.internalServerError, internalErrorBody, .close, rfl, .inr rfl, by decide, ?_⟩
    dsimp only
    rw [decide_eq_false served.not_head]
    rfl

theorem onTaskResponse_shape (valid : validateTaskRequest route request.method policy = none)
    (s : TaskService) : IsTaskAnswer policy (onTaskResponse route request policy s).1 :=
  (onTaskResponse_budgeted valid s).answer

end Shape

end HpServer.Http
