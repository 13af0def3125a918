/-
**`http/RequestRouter`: which handler answers a request.**

A router has a static service and a task store. What the source would let through as an exception is a
missing answer.

* `onResponse`, `onRequestHeaders`, `admitTarget`, `echoResponse`.
* `static_within_root` — **a file that is answered is the regular file at the decoded components below the
  root, and nothing on the way is a link.**
-/

import HpServer.Http.StaticFileService
import HpServer.Http.TaskApiStore

namespace HpServer.Http

open Base Business FileTree

def rejectRequest (status : Status) (omitBody : Bool) (allowedMethods : Bytes) : Option ResponseResult :=
  errorAnswer status .close omitBody allowedMethods

namespace RequestRouter

def echoPath : Bytes := text "/api/echo"

/-- The answer that refuses a target, where it is refused. -/
def admitTarget (target : RequestTarget) (method : Bytes) : Option (Option ResponseResult) :=
  let omitBody : Bool := method = text "HEAD"
  if target.path = echoPath then
    if method = text "POST" then some none
    else some <$> rejectRequest .methodNotAllowed omitBody (text "POST")
  else if method = text "GET" || omitBody then some none
  else some <$> rejectRequest .methodNotAllowed false (text "GET, HEAD")

def echoResponse (request : HttpRequest) (policy : ConnectionPolicy) : ResponseResult :=
  { bytes := makeResponse .ok request.body (text "application/octet-stream") [] policy
    effectivePolicy := policy
    status := .ok
    contentBytes := request.body.length }

/-- The answer of a router with static files and tasks, and the tasks after it. -/
def onResponse (service : StaticFileService) (request : HttpRequest) (policy : ConnectionPolicy) (now : Int)
    (tasks : TaskService) : Option ResponseResult × TaskService :=
  let parsed := parseRequestTarget request.target
  match parsed.target with
  | none => (rejectRequest parsed.status (request.method = text "HEAD") [], tasks)
  | some target =>
    let taskRoute := classifyTaskRoute target
    if taskRoute.kind ≠ .other then
      let answer := onTaskResponse taskRoute request policy tasks
      (some answer.1, answer.2)
    else
      match admitTarget target request.method with
      | none => (none, tasks)
      | some (some rejected) => (some rejected, tasks)
      | some none =>
        if request.method = text "POST" then (some (echoResponse request policy), tasks)
        else
          (service.onValidatedTarget target (request.method = text "HEAD") policy request.staticFields now, tasks)

/-- The answer that refuses a head; the outer one is missing where the source throws. -/
def onRequestHeaders (head : RequestHead) (policy : ConnectionPolicy) : Option (Option ResponseResult) :=
  let parsed := parseRequestTarget head.target
  match parsed.target with
  | none => some <$> rejectRequest parsed.status (head.method = text "HEAD") []
  | some target =>
    let taskRoute := classifyTaskRoute target
    if taskRoute.kind ≠ .other then some (onTaskHeaders taskRoute head.method policy)
    else admitTarget target head.method

end RequestRouter

/-! ### Static answers stay below the root -/

/-- The path of a target is its path part, decoded once. -/
theorem parseRequestTarget_decoded {raw : Bytes} {target : RequestTarget}
    (parsed : (parseRequestTarget raw).target = some target) :
    decodeComponent true kMaxRawTargetBytes [] (cutAt question raw).1 = some target.path := by
  unfold parseRequestTarget at parsed
  split at parsed
  case isFalse => cases parsed
  case isTrue =>
    split at parsed
    case isTrue => cases parsed
    case isFalse =>
      split at parsed
      case h_2 => cases parsed
      case h_1 path query decoded _ =>
        split at parsed
        case h_1 => cases parsed
        case h_2 components _ =>
          cases parsed
          exact decoded

theorem errorResponse_status {status : Status} {policy : ConnectionPolicy} {omitBody : Bool}
    {result : ResponseResult} (made : errorResponse status policy omitBody = some result) :
    result.status = status :=
  (errorAnswer_status made).1

theorem rejectRequest_status {status : Status} {omitBody : Bool} {allowedMethods : Bytes}
    {result : ResponseResult} (made : rejectRequest status omitBody allowedMethods = some result) :
    result.status = status :=
  (errorAnswer_status made).1

/-- The statuses of an answer about a file. -/
def IsFileStatus (status : Status) : Prop :=
  status = .ok ∨ status = .partialContent ∨ status = .notModified ∨ status = .rangeNotSatisfiable

theorem selectedStatus_isFile (selection : StaticSelection) : IsFileStatus (selectedStatus selection) := by
  cases selection <;> simp [IsFileStatus, selectedStatus]

theorem IsFileStatus.not_methodNotAllowed {status : Status} (known : IsFileStatus status) :
    status ≠ .methodNotAllowed := by
  rintro rfl
  simp [IsFileStatus] at known

theorem StaticFileService.IsFailure.not_file {status : Status} (failure : IsFailure status) :
    ¬ IsFileStatus status := by
  unfold IsFileStatus
  rcases failure with status | status | status <;> simp [status]

/-- An answer about a file is an answer about the file of the target. -/
theorem StaticFileService.onValidatedTarget_file {service : StaticFileService} {target : RequestTarget}
    {omitBody : Bool} {policy : ConnectionPolicy} {fields : StaticRequestFields} {now : Int}
    {result : ResponseResult} (answered : service.onValidatedTarget target omitBody policy fields now = some result)
    (status : IsFileStatus result.status) :
    ∃ file, service.IsFile target file
      ∧ ∀ region, result.file = some region → region.contents = fun i => file.contents.getD i 0 := by
  rcases service.onValidatedTarget_cases target with ⟨failed, failure, same⟩ | ⟨file, isFile, same⟩
  · rw [same] at answered
    rw [errorResponse_status answered] at status
    exact absurd status failure.not_file
  · cases answered.symm.trans (same omitBody policy fields now)
    refine ⟨file, isFile, fun region sent => ?_⟩
    unfold answerFile at sent
    dsimp only at sent
    repeat' split at sent
    all_goals cases sent
    rfl

/-- The file of a static answer is reached by the components of the target and nothing else. -/
structure ServesBelowRoot (service : StaticFileService) (raw : Bytes) (result : ResponseResult)
    (target : RequestTarget) (file : RegularFile) : Prop where
  parsed : (parseRequestTarget raw).target = some target
  opened : service.openTarget target = .ok (service.root ++ target.components)
  regular : service.fs.root.lookup (service.root ++ target.components) = some (.regular file)
  small : file.contents.length ≤ kMaxFileBytes
  directories : ∀ n < target.components.length,
    IsDirectoryAt service.fs (service.root ++ target.components.take n)
  sent : ∀ region, result.file = some region → region.contents = fun i => file.contents.getD i 0

theorem serves_of_validated {service : StaticFileService} {raw : Bytes} {target : RequestTarget}
    {omitBody : Bool} {policy : ConnectionPolicy} {fields : StaticRequestFields} {now : Int}
    {result : ResponseResult} (parsed : (parseRequestTarget raw).target = some target)
    (answered : service.onValidatedTarget target omitBody policy fields now = some result)
    (status : IsFileStatus result.status) : ∃ target file, ServesBelowRoot service raw result target file := by
  obtain ⟨file, isFile, sent⟩ := StaticFileService.onValidatedTarget_file answered status
  obtain ⟨-, directories, -⟩ := StaticFileService.openTarget_within isFile.opened
  exact ⟨target, file, parsed, isFile.opened, isFile.regular, isFile.small, directories, sent⟩

theorem not_file_of_refused {raw : Bytes} (refused : (parseRequestTarget raw).target = none) :
    ¬ IsFileStatus (parseRequestTarget raw).status := by
  unfold IsFileStatus
  rcases parseRequestTarget_refused refused with status | status <;> simp [status]

/-- The static service's own entry. -/
theorem StaticFileService.onResponse_serves {service : StaticFileService} {request : HttpRequest}
    {policy : ConnectionPolicy} {now : Int} {result : ResponseResult}
    (answered : service.onResponse request policy now = some result) (status : IsFileStatus result.status) :
    ∃ target file, ServesBelowRoot service request.target result target file := by
  unfold StaticFileService.onResponse at answered
  dsimp only at answered
  have tried : ∀ {answer : Option ResponseResult} {omitBody : Bool},
      (answer <|> errorResponse .internalServerError policy omitBody) = some result → answer = some result := by
    intro answer omitBody made
    cases answer with
    | some found => exact made
    | none =>
      have failed : errorResponse .internalServerError policy omitBody = some result := made
      rw [errorResponse_status failed] at status
      simp [IsFileStatus] at status
  cases parsed : (parseRequestTarget request.target).target with
  | none =>
    rw [parsed] at answered
    rw [errorResponse_status (tried answered)] at status
    exact absurd status (not_file_of_refused parsed)
  | some target =>
    rw [parsed] at answered
    exact serves_of_validated parsed (tried answered) status

/-- A target that neither the task API nor the echo handler answers. -/
def IsStaticRoute (raw : Bytes) : Prop :=
  ∀ target, (parseRequestTarget raw).target = some target →
    (classifyTaskRoute target).kind = .other ∧ target.path ≠ RequestRouter.echoPath

theorem RequestRouter.admitTarget_status {target : RequestTarget} {method : Bytes} {rejected : ResponseResult}
    (refused : RequestRouter.admitTarget target method = some (some rejected)) :
    rejected.status = .methodNotAllowed := by
  unfold RequestRouter.admitTarget at refused
  dsimp only at refused
  have mapped : ∀ {answer : Option ResponseResult}, some <$> answer = some (some rejected) →
      answer = some rejected := by
    intro answer same
    obtain ⟨made, found, equal⟩ := Option.map_eq_some_iff.mp same
    exact found.trans equal
  split at refused
  · split at refused
    · cases refused
    · exact rejectRequest_status (mapped refused)
  · split at refused
    · cases refused
    · exact rejectRequest_status (mapped refused)

/-- The router's entry, on a static route. -/
theorem RequestRouter.onResponse_serves {service : StaticFileService} {request : HttpRequest}
    {policy : ConnectionPolicy} {now : Int} {tasks : TaskService} {result : ResponseResult}
    (route : IsStaticRoute request.target)
    (answered : (RequestRouter.onResponse service request policy now tasks).1 = some result)
    (status : IsFileStatus result.status) :
    ∃ target file, ServesBelowRoot service request.target result target file := by
  unfold RequestRouter.onResponse at answered
  dsimp only at answered
  cases parsed : (parseRequestTarget request.target).target with
  | none =>
    rw [parsed] at answered
    rw [rejectRequest_status answered] at status
    exact absurd status (not_file_of_refused parsed)
  | some target =>
    obtain ⟨other, notEcho⟩ := route target parsed
    rw [parsed] at answered
    dsimp only at answered
    rw [if_neg (not_not.mpr other)] at answered
    cases admitted : RequestRouter.admitTarget target request.method with
    | none =>
      rw [admitted] at answered
      cases answered
    | some refusal =>
      rw [admitted] at answered
      cases refusal with
      | some rejected =>
        cases answered
        rw [RequestRouter.admitTarget_status admitted] at status
        simp [IsFileStatus] at status
      | none =>
        dsimp only at answered
        split at answered
        case isTrue post =>
          -- `POST` is admitted on the echo path only
          unfold RequestRouter.admitTarget at admitted
          rw [if_neg notEcho, post] at admitted
          cases admitted
        case isFalse => exact serves_of_validated parsed answered status

/-- **Static requests never leave the root.** Every component of an accepted target names an entry and
nothing else, and the components are the path part of the target decoded once. Whoever answers 200, 206, 304
or 416 on a static route has opened the regular file, of at most 8 MiB, at these components below the root;
every node before it is a directory, so that no link was followed. -/
theorem static_within_root :
    (∀ raw target, (parseRequestTarget raw).target = some target →
      decodeComponent true kMaxRawTargetBytes [] (cutAt question raw).1 = some target.path
        ∧ (target.path = [slash] ∧ target.components = [indexComponent]
          ∨ target.path = slash :: [slash].intercalate target.components)
        ∧ ∀ c ∈ target.components, SafeComponent c ∧ cString c = c)
      ∧ ∀ (service : StaticFileService) (request : HttpRequest) (policy : ConnectionPolicy) (now : Int)
        (tasks : TaskService) (result : ResponseResult),
        service.onResponse request policy now = some result
            ∨ IsStaticRoute request.target
              ∧ (RequestRouter.onResponse service request policy now tasks).1 = some result →
        IsFileStatus result.status →
        ∃ target file, ServesBelowRoot service request.target result target file := by
  refine ⟨fun raw target parsed => ⟨parseRequestTarget_decoded parsed, target.joined, fun c member => ?_⟩, ?_⟩
  · exact ⟨target.safe c member, cString_plain (target.safe c member).plain⟩
  · rintro service request policy now tasks result (answered | ⟨route, answered⟩) status
    · exact StaticFileService.onResponse_serves answered status
    · exact RequestRouter.onResponse_serves route answered status

/-- One file below a root that also has a link. -/
def sampleService : StaticFileService where
  fs :=
    { root := .directory
        [(text "www", .directory
          [(text "a.txt", .regular
            { device := 1
              inode := 2
              contents := text "hello"
              modifiedSeconds := 0
              modifiedNanoseconds := 0
              changedSeconds := 0
              changedNanoseconds := 0 }),
            (text "out", .symlink (text "/etc"))])] }
  root := [text "www"]
  opened := ⟨_, rfl, rfl⟩

def sampleRequest : HttpRequest := { method := text "GET", target := text "/a.txt" }

theorem sample_isSome : (sampleService.onResponse sampleRequest .close 0).isSome := by decide +kernel

theorem static_within_root_sample :
    ∃ target file, ServesBelowRoot sampleService sampleRequest.target
      ((sampleService.onResponse sampleRequest .close 0).get sample_isSome) target file :=
  static_within_root.2 sampleService sampleRequest .close 0 {} _ (.inl (Option.some_get _).symm)
    (.inl (by decide +kernel))

end HpServer.Http
