/-
**`http/TaskApiHandler`: the task API over a task store.**

What the source throws is a `TaskException`; the store keeps what was done to it before. The JSON library
is the one of `Library/Json`: it reports events, and its objects are ordered by their keys.

* `classifyTaskRoute`, `isTaskMediaType`, `parseTaskInput`.
* `validateTaskRequest`, `onTaskHeaders`, `prevalidateTask`, `executeTask`, `onTaskResponse`.
-/

import HpServer.Business.TaskService
import HpServer.Http.RequestTarget
import HpServer.Http.StaticRepresentation
import HpServer.Library.Json
import HpServer.Library.Program

namespace HpServer.Http

open Business Json Programs

def kMaxTaskInputBytes : Nat := 8192
def kMaxTaskResponseBytes : Nat := 262144

inductive TaskRouteKind where
  | other | collection | item | invalidId | notFound | unsupportedQuery
  deriving DecidableEq, Repr

structure TaskRoute where
  kind : TaskRouteKind := .other
  id : Nat := 0
  deriving DecidableEq, Repr

/-- The store's answer is too long, or a text is not UTF-8. -/
inductive TaskException where
  | lengthError | typeError
  deriving DecidableEq, Repr

/-! ### The request -/

def classifyTaskRoute (target : RequestTarget) : TaskRoute :=
  if target.path ≠ text "/api/tasks" && !(text "/api/tasks/").isPrefixOf target.path then {}
  else if 3 < target.components.length then { kind := .notFound }
  else
    let route : Option TaskRoute :=
      if target.components.length = 3 then
        let digits := target.components.getLastD []
        if digits.head? = none || digits.head? = some 0x30 then none
        else (scanUnsigned digits 0).map fun id => { kind := .item, id := id }
      else some { kind := .collection }
    match route with
    | none => { kind := .invalidId }
    | some route => if target.query ≠ [] then { kind := .unsupportedQuery } else route

def equalAscii (value expected : Bytes) : Bool :=
  value.length = expected.length && value.map lowerAscii = expected

/-- A text without the quotes around it. -/
def unquote (value : Bytes) : Bytes :=
  if 2 ≤ value.length && value.head? = some quote && value.getLast? = some quote then
    (value.drop 1).take (value.length - 2)
  else value

def isTaskMediaType (field : ContentTypeField) : Bool :=
  if !field.present || field.duplicate then false
  else
    let value := trimOws field.value
    if !equalAscii (trimOws (cutAt semicolon value).1) (text "application/json") then false
    else if semicolon ∉ value then true
    else
      let parameter := trimOws (cutAt semicolon value).2
      if equals ∉ parameter || !equalAscii (trimOws (cutAt equals parameter).1) (text "charset") then false
      else equalAscii (unquote (trimOws (cutAt equals parameter).2)) (text "utf-8")

/-! ### The body -/

inductive TaskField where
  | none | title | completed
  deriving DecidableEq, Repr

structure TaskInputSax where
  input : TaskInput := { title := [] }
  pending : TaskField := .none
  started : Bool := false
  ended : Bool := false
  titleSeen : Bool := false
  completedSeen : Bool := false
  deriving DecidableEq, Repr

namespace TaskInputSax

/-- Its members, one for each event; nothing where they return `false`. -/
def handle (s : TaskInputSax) : Event → Option TaskInputSax
  | .boolean value =>
    if s.pending ≠ .completed || s.ended then none
    else some { s with input := { s.input with completed := value }, pending := .none }
  | .string value =>
    if s.pending ≠ .title || s.ended || value = [] || 256 < value.length then none
    else if value.any isControl then none
    else some { s with input := { s.input with title := value }, pending := .none }
  | .startObject => if s.started then none else some { s with started := true }
  | .key value =>
    if !s.started || s.ended || s.pending ≠ .none then none
    else if value = text "title" && !s.titleSeen then some { s with titleSeen := true, pending := .title }
    else if value = text "completed" && !s.completedSeen then
      some { s with completedSeen := true, pending := .completed }
    else none
  | .endObject =>
    if !s.started || s.ended || s.pending ≠ .none || !s.titleSeen || !s.completedSeen then none
    else some { s with ended := true }
  | .null | .number _ | .startArray | .endArray | .error => none

end TaskInputSax

def parseTaskInput (body : Bytes) : Option TaskInput :=
  if kMaxTaskInputBytes < body.length || nul ∈ body || [0xef, 0xbb, 0xbf].isPrefixOf body then none
  else
    match sax TaskInputSax.handle {} body with
    | some parser => if parser.ended then some parser.input else none
    | none => none

/-! ### The answer -/

/-- `Json::dump` of a string. -/
def dumpString (value : Bytes) : Except TaskException Bytes :=
  match quoted value with
  | some written => pure written
  | none => throw .typeError

def dumpBoolean (value : Bool) : Bytes := if value then text "true" else text "false"

def serializeTaskResult (task : Task) : Except TaskException Bytes := do
  let id ← dumpString (decimalText task.id)
  let title ← dumpString task.input.title
  pure (object [(text "\"completed\"", dumpBoolean task.input.completed), (text "\"id\"", id),
    (text "\"title\"", title)])

def serializeTasks (tasks : List Task) : Except TaskException Bytes := do
  let items ← tasks.mapM serializeTaskResult
  pure (object [(text "\"tasks\"", array items)])

def taskResponse (status : Status) (body : Bytes) (policy : ConnectionPolicy) (omitBody : Bool)
    (allow : Bytes) : Except TaskException ResponseResult :=
  if kMaxTaskResponseBytes < body.length then throw .lengthError
  else pure (makeTaskJsonResponse status body policy omitBody allow)

/-- The policy of an error answer. -/
def taskErrorPolicy (status : Status) (policy : ConnectionPolicy) : ConnectionPolicy :=
  if status = .methodNotAllowed || status = .contentTooLarge || status = .internalServerError then .close
  else policy

def taskError (status : Status) (code message : Bytes) (policy : ConnectionPolicy) (omitBody : Bool)
    (allow : Bytes) : Except TaskException ResponseResult := do
  let code ← dumpString code
  let message ← dumpString message
  let body := object [(text "\"error\"", object [(text "\"code\"", code), (text "\"message\"", message)])]
  taskResponse status body (taskErrorPolicy status policy) omitBody allow

def internalErrorBody : Bytes :=
  text "\x7b\"error\":\x7b\"code\":\"internal_error\",\"message\":\"Internal error\"\x7d\x7d"

def internalError (omitBody : Bool) : ResponseResult :=
  makeTaskJsonResponse .internalServerError internalErrorBody .close omitBody []

def serviceResponse (result : TaskResult) (success : Status) (policy : ConnectionPolicy) :
    Except TaskException ResponseResult :=
  match result.status with
  | .notFound => taskError .notFound (text "task_not_found") (text "Task not found") policy false []
  | .capacity =>
    taskError .serviceUnavailable (text "capacity_exhausted") (text "Task capacity exhausted") policy false []
  | .idExhausted =>
    taskError .serviceUnavailable (text "id_exhausted") (text "Task identifiers exhausted") policy false []
  | .success =>
    match result.task with
    | some task => do taskResponse success (← serializeTaskResult task) policy false []
    | none => pure (internalError false)

/-! ### The handler -/

/-- What is left when `answer` has been thrown or made. -/
def orInternalError (answer : Except TaskException ResponseResult) (omitBody : Bool) : ResponseResult :=
  match answer with
  | .ok result => result
  | .error _ => internalError omitBody

def allowedTaskMethods (kind : TaskRouteKind) : Bytes :=
  if kind = .collection then text "GET, POST" else text "GET, PUT, DELETE"

def isTaskMethod (kind : TaskRouteKind) (method : Bytes) : Bool :=
  method = text "GET"
    || if kind = .collection then method = text "POST" else method = text "PUT" || method = text "DELETE"

def validateTaskRequest (route : TaskRoute) (method : Bytes) (policy : ConnectionPolicy) :
    Option ResponseResult :=
  let head : Bool := method = text "HEAD"
  if route.kind = .invalidId then
    some (orInternalError
      (taskError .badRequest (text "invalid_id") (text "Invalid task identifier") policy head []) head)
  else if route.kind = .notFound || route.kind = .other then
    some (orInternalError
      (taskError .notFound (text "route_not_found") (text "Route not found") policy head []) head)
  else if route.kind = .unsupportedQuery then
    some (orInternalError
      (taskError .badRequest (text "unsupported_query") (text "Query parameters are not supported") policy
        head []) head)
  else if !isTaskMethod route.kind method then
    some (orInternalError
      (taskError .methodNotAllowed (text "method_not_allowed") (text "Method not allowed") policy head
        (allowedTaskMethods route.kind)) head)
  else none

def onTaskHeaders (route : TaskRoute) (method : Bytes) (_ : ConnectionPolicy) : Option ResponseResult :=
  validateTaskRequest route method .close

def prevalidateTask (route : TaskRoute) (request : HttpRequest) (policy : ConnectionPolicy) :
    Except TaskException (Option ResponseResult) :=
  match validateTaskRequest route request.method policy with
  | some rejected => pure (some rejected)
  | none =>
    if kMaxTaskInputBytes < request.body.length then
      some <$> taskError .contentTooLarge (text "body_too_large") (text "Task body exceeds 8192 bytes") policy
        false []
    else if request.method = text "GET" || request.method = text "DELETE" then
      if request.body ≠ [] then
        some <$> taskError .badRequest (text "unexpected_body") (text "Request body is not allowed") policy
          false []
      else pure none
    else if !isTaskMediaType request.contentType then
      some <$> taskError .unsupportedMediaType (text "unsupported_media_type")
        (text "Content-Type must be application/json") policy false []
    else pure none

/-- `Json{{"id", …}, {"deleted", true}}.dump()`. -/
def serializeDeleted (id : Nat) : Except TaskException Bytes := do
  let id ← dumpString (decimalText id)
  pure (object [(text "\"deleted\"", dumpBoolean true), (text "\"id\"", id)])

/-- The store's answer, and the store after it. -/
def serve {α : Type} (call : TaskService → α × TaskService) : EStateM TaskException TaskService α := do
  let s ← get
  set (call s).2
  pure (call s).1

def executeTask (route : TaskRoute) (request : HttpRequest) (policy : ConnectionPolicy) :
    EStateM TaskException TaskService ResponseResult := do
  if request.method = text "DELETE" then
    let deleted ← serve fun s => s.deleteTask route.id
    if deleted.status ≠ .success then MonadExcept.ofExcept (serviceResponse deleted .ok policy)
    else
      let body ← MonadExcept.ofExcept (serializeDeleted route.id)
      MonadExcept.ofExcept (taskResponse .ok body policy false [])
  else if request.method = text "GET" then
    if route.kind = .collection then
      let body ← MonadExcept.ofExcept (serializeTasks (← get).listTasks)
      MonadExcept.ofExcept (taskResponse .ok body policy false [])
    else MonadExcept.ofExcept (serviceResponse ((← get).getTask route.id) .ok policy)
  else
    match parseTaskInput request.body with
    | none =>
      MonadExcept.ofExcept
        (taskError .badRequest (text "invalid_json") (text "Invalid task JSON") policy false [])
    | some input =>
      if request.method = text "POST" then
        let created ← serve fun s => s.createTask input
        MonadExcept.ofExcept (serviceResponse created .created policy)
      else
        let replaced ← serve fun s => s.replaceTask route.id input
        MonadExcept.ofExcept (serviceResponse replaced .ok policy)

/-- The body of the `try` of `onTaskResponse`. -/
def tryTaskResponse (route : TaskRoute) (request : HttpRequest) (policy : ConnectionPolicy) :
    EStateM TaskException TaskService ResponseResult := do
  match ← MonadExcept.ofExcept (prevalidateTask route request policy) with
  | some rejected => pure rejected
  | none => executeTask route request policy

def onTaskResponse (route : TaskRoute) (request : HttpRequest) (policy : ConnectionPolicy)
    (s : TaskService) : ResponseResult × TaskService :=
  match tryTaskResponse route request policy s with
  | .ok result next => (result, next)
  | .error _ next => (internalError (request.method = text "HEAD"), next)

end HpServer.Http
