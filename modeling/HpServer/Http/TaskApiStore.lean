/-
**The task API is a bounded map with fresh identifiers, changed atomically.**

A `TaskTable` is what the API is for: a finite map and the number of identifiers issued. Replaying the
requests that succeeded gives the table of a run.

* `onTaskResponse_outcome` — **everything a request can do** (`TaskOutcome`): what it answers, what it
  changes, and when.
* `task_api_map` — **the store is the table of the run; what each request answers and changes is what the
  table says.**

The answers need texts of the stored titles and room for them: every stored title is one `parseTaskInput`
accepted (`Stored`), so neither exception of the source is thrown (`serializeTaskResult_ok`,
`serializeTasks_ok`).
-/

import HpServer.Http.TaskAdmission
import HpServer.Library.Machine

namespace HpServer.Http

open Business Json Machines Programs

/-! ### Texts -/

/-- Every title in the store is one the API accepted. -/
def Stored (s : TaskService) : Prop := ∀ (id : Nat) (task : Task), s.tasks[id]? = some task → Titled task.input.title

theorem Titled.printable {title : Bytes} (titled : Titled title) : ∀ b ∈ title, 0x20 ≤ b := by
  intro b member
  have clean := titled.clean b member
  simp only [isControl, Bool.or_eq_false_iff, decide_eq_false_iff_not] at clean
  exact UInt8.not_lt.mp clean.1

theorem dumpString_decimal {n : Nat} (word : n ≤ maxTaskId) :
    ∃ written, dumpString (decimalText n) = .ok written ∧ written.length ≤ 42 := by
  have small : n < 10 ^ 20 := Nat.lt_of_le_of_lt word (by decide)
  have ascii : ∀ b ∈ decimalText n, b < 0x80 := fun b member =>
    UInt8.lt_of_le_of_lt (decimalText_digit member).2 (by decide)
  have printable : ∀ b ∈ decimalText n, 0x20 ≤ b := fun b member =>
    UInt8.le_trans (by decide) (decimalText_digit member).1
  obtain ⟨written, done, bound⟩ := dumpString_ok (Utf8.valid_of_ascii ascii) printable
  have digits := decimalText_length (by decide) small
  exact ⟨written, done, by omega⟩

/-- **A stored task has a text, of at most 700 bytes.** -/
theorem serializeTaskResult_ok (task : Task) (titled : Titled task.input.title) (word : task.id ≤ maxTaskId) :
    ∃ body, serializeTaskResult task = .ok body ∧ body.length ≤ 700 := by
  obtain ⟨id, idDone, idBound⟩ := dumpString_decimal word
  obtain ⟨title, titleDone, titleBound⟩ := dumpString_ok titled.utf8 titled.printable
  have done : serializeTaskResult task = .ok (object
      [(text "\"completed\"", dumpBoolean task.input.completed), (text "\"id\"", id),
        (text "\"title\"", title)]) := by
    unfold serializeTaskResult
    rw [idDone, titleDone]
    rfl
  refine ⟨_, done, Nat.le_trans (object_length _) ?_⟩
  have short := titled.short
  have flag : (dumpBoolean task.input.completed).length ≤ 5 := by
    cases task.input.completed <;> decide
  have names : (text "\"completed\"").length = 11 ∧ (text "\"id\"").length = 4
      ∧ (text "\"title\"").length = 7 := by decide
  simp only [List.map_cons, List.map_nil, List.sum_cons, List.sum_nil]
  omega

theorem serializeDeleted_ok {id : Nat} (word : id ≤ maxTaskId) :
    ∃ body, serializeDeleted id = .ok body ∧ body.length ≤ 700 := by
  obtain ⟨written, done, bound⟩ := dumpString_decimal word
  refine ⟨object [(text "\"deleted\"", dumpBoolean true), (text "\"id\"", written)], ?_,
    Nat.le_trans (object_length _) ?_⟩
  · unfold serializeDeleted
    rw [done]
    rfl
  · have names : (text "\"deleted\"").length = 9 ∧ (text "\"id\"").length = 4
        ∧ (dumpBoolean true).length = 4 := by decide
    simp only [List.map_cons, List.map_nil, List.sum_cons, List.sum_nil]
    omega

theorem mapM_serialize_ok {tasks : List Task}
    (titled : ∀ task ∈ tasks, Titled task.input.title ∧ task.id ≤ maxTaskId) :
    ∃ items, tasks.mapM serializeTaskResult = .ok items ∧ items.length = tasks.length
      ∧ ∀ item ∈ items, item.length ≤ 700 := by
  induction tasks with
  | nil => exact ⟨[], rfl, rfl, fun _ none => nomatch none⟩
  | cons task tasks ih =>
    obtain ⟨first, word⟩ := titled task List.mem_cons_self
    obtain ⟨body, done, bound⟩ := serializeTaskResult_ok task first word
    obtain ⟨items, rest, count, bounds⟩ := ih fun other member => titled other (List.mem_cons_of_mem _ member)
    refine ⟨body :: items, ?_, congrArg (· + 1) count, List.forall_mem_cons.mpr ⟨bound, bounds⟩⟩
    rw [List.mapM_cons, done, rest]
    rfl

/-- **The full list has a text, within the response budget.** -/
theorem serializeTasks_ok {tasks : List Task} (few : tasks.length ≤ kMaxTasks)
    (titled : ∀ task ∈ tasks, Titled task.input.title ∧ task.id ≤ maxTaskId) :
    ∃ body, serializeTasks tasks = .ok body ∧ body.length ≤ kMaxTaskResponseBytes := by
  obtain ⟨items, done, count, bounds⟩ := mapM_serialize_ok titled
  have inside := array_length bounds
  have name : (text "\"tasks\"").length = 7 := by decide
  refine ⟨object [(text "\"tasks\"", array items)], ?_, Nat.le_trans (object_length _) ?_⟩
  · unfold serializeTasks
    rw [done]
    rfl
  · simp only [List.map_cons, List.map_nil, List.sum_cons, List.sum_nil]
    rw [count] at inside
    unfold kMaxTasks at few
    unfold kMaxTaskResponseBytes
    omega

/-! ### Everything a request can do -/

/-- A request, its answer and the store after it. -/
inductive TaskOutcome (route : TaskRoute) (request : HttpRequest) (policy : ConnectionPolicy)
    (s : TaskService) : ResponseResult → TaskService → Prop
  | refused (response : ResponseResult) (reason : ¬ Admitted route request)
      (high : 400 ≤ response.status.code) : TaskOutcome route request policy s response s
  | malformed (response : ResponseResult) (method : request.method ≠ text "GET" ∧ request.method ≠ text "DELETE")
      (body : parseTaskInput request.body = none) (high : 400 ≤ response.status.code) :
      TaskOutcome route request policy s response s
  | created (input : TaskInput) (body : Bytes) (admitted : Admitted route request)
      (method : request.method = text "POST") (parsed : parseTaskInput request.body = some input)
      (room : s.tasks.size ≠ kMaxTasks) (more : s.exhausted = false)
      (written : serializeTaskResult { id := s.nextId, input := input } = .ok body) :
      TaskOutcome route request policy s (makeTaskJsonResponse .created body policy false [])
        (s.emplaceTask input room more)
  | exhausted (response : ResponseResult) (method : request.method = text "POST")
      (reason : s.tasks.size = kMaxTasks ∨ s.exhausted = true) (high : 400 ≤ response.status.code) :
      TaskOutcome route request policy s response s
  | replaced (input : TaskInput) (body : Bytes) (task : Task) (admitted : Admitted route request)
      (kind : route.kind = .item) (method : request.method = text "PUT")
      (parsed : parseTaskInput request.body = some input) (found : s.tasks[route.id]? = some task)
      (written : serializeTaskResult { id := route.id, input := input } = .ok body) :
      TaskOutcome route request policy s (makeTaskJsonResponse .ok body policy false [])
        (s.swapInput route.id task found input)
  | deleted (body : Bytes) (kind : route.kind = .item) (method : request.method = text "DELETE")
      (present : route.id ∈ s.tasks) (written : serializeDeleted route.id = .ok body) :
      TaskOutcome route request policy s (makeTaskJsonResponse .ok body policy false [])
        (s.eraseTask route.id)
  | missing (response : ResponseResult) (kind : route.kind = .item) (absent : s.tasks[route.id]? = none)
      (status : response.status = .notFound) : TaskOutcome route request policy s response s
  | found (task : Task) (body : Bytes) (kind : route.kind = .item) (method : request.method = text "GET")
      (found : s.tasks[route.id]? = some task) (written : serializeTaskResult task = .ok body) :
      TaskOutcome route request policy s (makeTaskJsonResponse .ok body policy false []) s
  | listed (body : Bytes) (kind : route.kind = .collection) (method : request.method = text "GET")
      (written : serializeTasks s.listTasks = .ok body) :
      TaskOutcome route request policy s (makeTaskJsonResponse .ok body policy false []) s

theorem taskResponse_ok {status : Status} {body : Bytes} {policy : ConnectionPolicy} {omitBody : Bool}
    {allow : Bytes} (short : body.length ≤ kMaxTaskResponseBytes) :
    taskResponse status body policy omitBody allow
      = .ok (makeTaskJsonResponse status body policy omitBody allow) :=
  if_neg (Nat.not_lt.mpr short)

theorem serviceResponse_task {success : Status} {policy : ConnectionPolicy} {task : Task} {body : Bytes}
    (written : serializeTaskResult task = .ok body) (short : body.length ≤ kMaxTaskResponseBytes) :
    serviceResponse { status := .success, task := some task } success policy
      = .ok (makeTaskJsonResponse success body policy false []) := by
  show (serializeTaskResult task >>= fun body => taskResponse success body policy false []) = _
  rw [written]
  exact taskResponse_ok short

/-- The store's own refusals are errors. -/
theorem serviceResponse_refused {status : TaskStatus} (failed : status ≠ .success) (success : Status)
    (policy : ConnectionPolicy) :
    ∃ result, serviceResponse { status := status } success policy = .ok result
      ∧ 400 ≤ result.status.code ∧ (status = .notFound → result.status = .notFound) := by
  cases status with
  | success => exact absurd rfl failed
  | notFound =>
    obtain ⟨result, done, same⟩ := taskError_status (text "task_not_found") (text "Task not found")
      .notFound policy false [] (by decide) (by decide)
    exact ⟨result, done, same ▸ by decide, fun _ => same⟩
  | capacity =>
    obtain ⟨result, done, same⟩ := taskError_status (text "capacity_exhausted") (text "Task capacity exhausted")
      .serviceUnavailable policy false [] (by decide) (by decide)
    exact ⟨result, done, same ▸ by decide, fun other => nomatch other⟩
  | idExhausted =>
    obtain ⟨result, done, same⟩ := taskError_status (text "id_exhausted") (text "Task identifiers exhausted")
      .serviceUnavailable policy false [] (by decide) (by decide)
    exact ⟨result, done, same ▸ by decide, fun other => nomatch other⟩

/-- What is stored has a text. -/
theorem Stored.serialize {s : TaskService} (stored : Stored s) {id : Nat} {task : Task}
    (found : s.tasks[id]? = some task) :
    ∃ body, serializeTaskResult task = .ok body ∧ body.length ≤ kMaxTaskResponseBytes := by
  obtain ⟨body, done, bound⟩ := serializeTaskResult_ok task (stored id task found)
    (s.keyed id task found ▸ s.id_word (Std.TreeMap.mem_iff_isSome_getElem?.mpr (by simp [found])))
  exact ⟨body, done, Nat.le_trans bound (by decide)⟩

theorem Stored.serializeAll {s : TaskService} (stored : Stored s) :
    ∃ body, serializeTasks s.listTasks = .ok body ∧ body.length ≤ kMaxTaskResponseBytes := by
  refine serializeTasks_ok ?_ fun task member => ?_
  · unfold TaskService.listTasks
    rw [List.length_map, Std.TreeMap.length_toList]
    exact s.few
  · obtain ⟨⟨id, same⟩, entry, rfl⟩ := List.mem_map.mp member
    have found := Std.TreeMap.mem_toList_iff_getElem?_eq_some.mp entry
    refine ⟨stored id same found, ?_⟩
    rw [s.keyed id same found]
    exact s.id_word (Std.TreeMap.mem_iff_isSome_getElem?.mpr (by simp [found]))

section Outcome

variable {route : TaskRoute} {request : HttpRequest} (policy : ConnectionPolicy) {s : TaskService}

theorem deleteTask_outcome (kind : route.kind = .item) (method : request.method = text "DELETE") :
    wp (executeTask route request policy) (TaskOutcome route request policy s) (fun _ _ => False) s := by
  unfold executeTask
  rw [if_pos method]
  simp only [wp_bind, wp_serve]
  unfold TaskService.deleteTask
  split
  case isTrue present =>
    obtain ⟨body, done, bound⟩ := serializeDeleted_ok (s.id_word present)
    rw [if_neg (fun other => other rfl)]
    simp only [wp_bind]
    rw [wp_ofExcept done, wp_ofExcept (taskResponse_ok (Nat.le_trans bound (by decide)))]
    exact .deleted body kind method present done
  case isFalse absent =>
    obtain ⟨result, done, -, status⟩ :=
      serviceResponse_refused (show TaskStatus.notFound ≠ .success by decide) .ok policy
    rw [if_pos (fun success => nomatch success), wp_ofExcept done]
    exact .missing result kind (by simpa using absent) (status rfl)

theorem getTask_outcome (stored : Stored s) (admitted : Admitted route request)
    (method : request.method = text "GET") :
    wp (executeTask route request policy) (TaskOutcome route request policy s) (fun _ _ => False) s := by
  unfold executeTask
  rw [if_neg (by rw [method]; decide), if_pos method]
  split
  case isTrue kind =>
    obtain ⟨body, done, bound⟩ := stored.serializeAll
    simp only [wp_bind, wp_get]
    rw [wp_ofExcept done, wp_ofExcept (taskResponse_ok bound)]
    exact .listed body kind method done
  case isFalse other =>
    have kind := admitted.kind.resolve_left other
    simp only [wp_bind, wp_get]
    unfold TaskService.getTask
    split
    case h_1 absent =>
      obtain ⟨result, done, -, status⟩ :=
        serviceResponse_refused (show TaskStatus.notFound ≠ .success by decide) .ok policy
      rw [wp_ofExcept done]
      exact .missing result kind absent (status rfl)
    case h_2 task found =>
      obtain ⟨body, done, bound⟩ := stored.serialize found
      rw [wp_ofExcept (serviceResponse_task done bound)]
      exact .found task body kind method found done

theorem createTask_outcome (admitted : Admitted route request) (method : request.method = text "POST")
    {input : TaskInput} (parsed : parseTaskInput request.body = some input) :
    wp (executeTask route request policy) (TaskOutcome route request policy s) (fun _ _ => False) s := by
  unfold executeTask
  rw [if_neg (by rw [method]; decide), if_neg (by rw [method]; decide), parsed]
  dsimp only
  rw [if_pos method]
  simp only [wp_bind, wp_serve]
  unfold TaskService.createTask
  split
  case isTrue full =>
    obtain ⟨result, done, high, -⟩ :=
      serviceResponse_refused (show TaskStatus.capacity ≠ .success by decide) .created policy
    rw [wp_ofExcept done]
    exact .exhausted result method (.inl full) high
  case isFalse room =>
    split
    case isTrue more =>
      obtain ⟨body, done, bound⟩ :=
        serializeTaskResult_ok { id := s.nextId, input := input } (parseTaskInput_titled parsed)
          s.word.2
      rw [wp_ofExcept (serviceResponse_task done (Nat.le_trans bound (by decide)))]
      exact .created input body admitted method parsed room more done
    case isFalse last =>
      obtain ⟨result, done, high, -⟩ :=
        serviceResponse_refused (show TaskStatus.idExhausted ≠ .success by decide) .created policy
      rw [wp_ofExcept done]
      exact .exhausted result method (.inr (by simpa using last)) high

theorem replaceTask_outcome (admitted : Admitted route request) (kind : route.kind = .item)
    (method : request.method = text "PUT") {input : TaskInput}
    (parsed : parseTaskInput request.body = some input) :
    wp (executeTask route request policy) (TaskOutcome route request policy s) (fun _ _ => False) s := by
  unfold executeTask
  rw [if_neg (by rw [method]; decide), if_neg (by rw [method]; decide), parsed]
  dsimp only
  rw [if_neg (by rw [method]; decide)]
  simp only [wp_bind, wp_serve]
  unfold TaskService.replaceTask
  split
  case h_1 absent =>
    obtain ⟨result, done, -, status⟩ :=
      serviceResponse_refused (show TaskStatus.notFound ≠ .success by decide) .ok policy
    rw [wp_ofExcept done]
    exact .missing result kind absent (status rfl)
  case h_2 task found =>
    have present : route.id ∈ s.tasks := Std.TreeMap.mem_iff_isSome_getElem?.mpr (by simp [found])
    obtain ⟨body, done, bound⟩ :=
      serializeTaskResult_ok { id := route.id, input := input } (parseTaskInput_titled parsed)
        (s.id_word present)
    rw [wp_ofExcept (serviceResponse_task done (Nat.le_trans bound (by decide)))]
    exact .replaced input body task admitted kind method parsed found done

/-- The methods of an admitted request. -/
theorem Admitted.methods (admitted : Admitted route request) :
    request.method = text "GET" ∨ request.method = text "POST" ∧ route.kind = .collection
      ∨ (request.method = text "PUT" ∨ request.method = text "DELETE") ∧ route.kind = .item := by
  have method := admitted.method
  simp only [isTaskMethod, Bool.or_eq_true, decide_eq_true_eq] at method
  rcases method with get | other
  · exact .inl get
  rcases admitted.kind with kind | kind
  · rw [kind] at other
    exact .inr (.inl ⟨by simpa using other, kind⟩)
  · rw [kind] at other
    exact .inr (.inr ⟨by simpa using other, kind⟩)

/-- **What an admitted request does.** -/
theorem executeTask_outcome (admitted : Admitted route request) (stored : Stored s) :
    wp (executeTask route request policy) (TaskOutcome route request policy s) (fun _ _ => False) s := by
  have malformed : parseTaskInput request.body = none → request.method ≠ text "GET" →
      request.method ≠ text "DELETE" →
      wp (executeTask route request policy) (TaskOutcome route request policy s) (fun _ _ => False) s := by
    intro body notGet notDelete
    unfold executeTask
    rw [if_neg notDelete, if_neg notGet, body]
    obtain ⟨result, done, same⟩ := taskError_status (text "invalid_json") (text "Invalid task JSON")
      .badRequest policy false [] (by decide) (by decide)
    dsimp only
    rw [wp_ofExcept done]
    exact .malformed result ⟨notGet, notDelete⟩ body (same ▸ by decide)
  rcases admitted.methods with method | ⟨method, -⟩ | ⟨method | method, kind⟩
  · exact getTask_outcome policy stored admitted method
  · cases parsed : parseTaskInput request.body with
    | none => exact malformed parsed (by rw [method]; decide) (by rw [method]; decide)
    | some input => exact createTask_outcome policy admitted method parsed
  · cases parsed : parseTaskInput request.body with
    | none => exact malformed parsed (by rw [method]; decide) (by rw [method]; decide)
    | some input => exact replaceTask_outcome policy admitted kind method parsed
  · exact deleteTask_outcome policy kind method

/-- **Everything a request can do.** No exception is thrown on the way. -/
theorem onTaskResponse_outcome (stored : Stored s) :
    TaskOutcome route request policy s (onTaskResponse route request policy s).1
      (onTaskResponse route request policy s).2 := by
  have spec : wp (tryTaskResponse route request policy) (TaskOutcome route request policy s)
      (fun _ _ => False) s := by
    unfold tryTaskResponse
    simp only [wp_bind]
    rcases prevalidateTask_cases route request policy with ⟨done, admitted⟩ | ⟨⟨rejected, done, high⟩, reason⟩
    · rw [wp_ofExcept done]
      exact executeTask_outcome policy admitted stored
    · rw [wp_ofExcept done]
      exact .refused rejected reason high
  unfold onTaskResponse
  unfold wp at spec
  split at spec
  case h_1 done =>
    rw [done]
    exact spec
  case h_2 => exact spec.elim

end Outcome

/-! ### The table of a run -/

structure TaskCall where
  route : TaskRoute
  request : HttpRequest
  policy : ConnectionPolicy

structure TaskExchange extends TaskCall where
  response : ResponseResult

/-- The task API on one store; it reports what it answers. -/
def taskApi : Machine TaskService TaskCall TaskExchange where
  step s call :=
    let answer := onTaskResponse call.route call.request call.policy s
    (answer.2, [{ toTaskCall := call, response := answer.1 }])

/-- What the API is for: a map, and how many identifiers were issued. -/
structure TaskTable where
  entries : Nat → Option TaskInput := fun _ => none
  issued : Nat := 0

def TaskExchange.succeeded (x : TaskExchange) : Bool := x.response.status.code < 400

/-- A successful `POST`, `PUT` or `DELETE` replayed; nothing else changes a table. -/
def TaskTable.replay (t : TaskTable) (x : TaskExchange) : TaskTable :=
  if x.succeeded then
    if x.request.method = text "POST" then
      match parseTaskInput x.request.body with
      | some input => { entries := Function.update t.entries (t.issued + 1) (some input), issued := t.issued + 1 }
      | none => t
    else if x.request.method = text "PUT" then
      match parseTaskInput x.request.body with
      | some input => { t with entries := Function.update t.entries x.route.id (some input) }
      | none => t
    else if x.request.method = text "DELETE" then
      { t with entries := Function.update t.entries x.route.id none }
    else t
  else t

def TaskTable.of (log : List TaskExchange) : TaskTable := log.foldl TaskTable.replay {}

/-- The exchanges that issue an identifier. -/
def TaskExchange.isCreation (x : TaskExchange) : Bool := x.succeeded && x.request.method = text "POST"

/-- The answer that announces `id`. -/
def TaskExchange.Announces (x : TaskExchange) (id : Nat) : Prop :=
  ∃ input body, parseTaskInput x.request.body = some input
    ∧ serializeTaskResult { id := id, input := input } = .ok body
    ∧ x.response = makeTaskJsonResponse .created body x.policy false []

/-- **The store is the table of the exchanges.** The identifiers announced are those issued, in order. -/
structure Replayed (s : TaskService) (log : List TaskExchange) : Prop where
  stored : Stored s
  entries : ∀ id, (s.tasks[id]?).map Task.input = (TaskTable.of log).entries id
  issued : s.lastIssued = (TaskTable.of log).issued
  announced : List.Forall₂ TaskExchange.Announces (log.filter TaskExchange.isCreation)
    (List.range' 1 s.lastIssued)

theorem TaskTable.of_append (log : List TaskExchange) (x : TaskExchange) :
    TaskTable.of (log ++ [x]) = (TaskTable.of log).replay x := by
  unfold TaskTable.of
  rw [List.foldl_append]
  rfl

theorem TaskExchange.not_succeeded {x : TaskExchange} (high : 400 ≤ x.response.status.code) :
    x.succeeded = false :=
  decide_eq_false (Nat.not_lt.mpr high)

section Step

variable {s : TaskService} {log : List TaskExchange} {x : TaskExchange}

/-- A failed request and a `GET` change neither the store nor the table. -/
theorem Replayed.unchanged (replayed : Replayed s log)
    (idle : x.succeeded = false ∨ x.request.method = text "GET") : Replayed s (log ++ [x]) := by
  have table : (TaskTable.of log).replay x = TaskTable.of log := by
    unfold TaskTable.replay
    rcases idle with failed | get
    · rw [failed]
      rfl
    · rw [get, if_neg (show text "GET" ≠ text "POST" by decide), if_neg (show text "GET" ≠ text "PUT" by decide),
        if_neg (show text "GET" ≠ text "DELETE" by decide), ite_self]
  have creation : x.isCreation = false := by
    unfold TaskExchange.isCreation
    rcases idle with failed | get
    · rw [failed]
      rfl
    · rw [get, decide_eq_false (show text "GET" ≠ text "POST" by decide), Bool.and_false]
  refine ⟨replayed.stored, fun id => ?_, ?_, ?_⟩
  · rw [TaskTable.of_append, table]
    exact replayed.entries id
  · rw [TaskTable.of_append, table]
    exact replayed.issued
  · rw [List.filter_append, List.filter_singleton, creation, cond_false, List.append_nil]
    exact replayed.announced

theorem Replayed.created (replayed : Replayed s log) {input : TaskInput} {body : Bytes}
    (room : s.tasks.size ≠ kMaxTasks) (more : s.exhausted = false)
    (method : x.request.method = text "POST") (parsed : parseTaskInput x.request.body = some input)
    (written : serializeTaskResult { id := s.nextId, input := input } = .ok body)
    (response : x.response = makeTaskJsonResponse .created body x.policy false []) :
    Replayed (s.emplaceTask input room more) (log ++ [x]) := by
  have succeeded : x.succeeded = true := by
    unfold TaskExchange.succeeded
    rw [response]
    rfl
  have next : (TaskTable.of log).issued + 1 = s.nextId := by
    have word := s.word
    rw [← replayed.issued, s.lastIssued_of_more more]
    omega
  have table : (TaskTable.of log).replay x
      = { entries := Function.update (TaskTable.of log).entries s.nextId (some input), issued := s.nextId } := by
    unfold TaskTable.replay
    rw [if_pos succeeded, if_pos method, parsed, next]
  have last : (s.emplaceTask input room more).lastIssued = s.nextId := s.lastIssued_emplace input room more
  refine ⟨fun id task found => ?_, fun id => ?_, ?_, ?_⟩
  · rw [s.getElem?_emplace] at found
    split at found
    case isTrue =>
      cases found
      exact parseTaskInput_titled parsed
    case isFalse => exact replayed.stored id task found
  · rw [TaskTable.of_append, table, s.getElem?_emplace]
    dsimp only
    rw [Function.update_apply]
    split
    case isTrue => rfl
    case isFalse => exact replayed.entries id
  · rw [TaskTable.of_append, table, last]
  · have creation : x.isCreation = true := by
      unfold TaskExchange.isCreation
      rw [succeeded, method]
      rfl
    rw [List.filter_append, List.filter_singleton, creation, cond_true, last]
    have word := s.word
    obtain ⟨before, same⟩ : ∃ before, s.nextId = before + 1 := ⟨s.nextId - 1, by omega⟩
    have old : s.lastIssued = before := by
      rw [s.lastIssued_of_more more]
      omega
    have announces : x.Announces (1 + before) :=
      ⟨input, body, parsed, by rw [Nat.add_comm, ← same]; exact written, response⟩
    rw [same, List.range'_1_concat, ← old]
    exact List.rel_append replayed.announced (.cons (old ▸ announces) .nil)

/-- A change of one entry, on both sides. -/
theorem Replayed.changed (replayed : Replayed s log) {next : TaskService} {id : Nat} {entry : Option Task}
    (succeeded : x.succeeded = true) (method : x.request.method ≠ text "POST")
    (tasks : ∀ other, next.tasks[other]? = if other = id then entry else s.tasks[other]?)
    (titled : ∀ task, entry = some task → Titled task.input.title)
    (last : next.lastIssued = s.lastIssued)
    (table : (TaskTable.of log).replay x
      = { TaskTable.of log with entries := Function.update (TaskTable.of log).entries id (entry.map Task.input) }) :
    Replayed next (log ++ [x]) := by
  refine ⟨fun other task found => ?_, fun other => ?_, ?_, ?_⟩
  · rw [tasks] at found
    split at found
    case isTrue => exact titled task found
    case isFalse => exact replayed.stored other task found
  · rw [TaskTable.of_append, table, tasks]
    dsimp only
    rw [Function.update_apply]
    split
    case isTrue => rfl
    case isFalse => exact replayed.entries other
  · rw [TaskTable.of_append, table, last]
    exact replayed.issued
  · have creation : x.isCreation = false := by
      unfold TaskExchange.isCreation
      rw [succeeded, decide_eq_false method]
      rfl
    rw [List.filter_append, List.filter_singleton, creation, cond_false, List.append_nil, last]
    exact replayed.announced

/-- **Every request keeps the store the table of the run.** -/
theorem Replayed.step {next : TaskService} (replayed : Replayed s log)
    (outcome : TaskOutcome x.route x.request x.policy s x.response next) : Replayed next (log ++ [x]) := by
  generalize answer : x.response = response at outcome
  cases outcome with
  | refused _ reason high => exact replayed.unchanged (.inl (x.not_succeeded (answer ▸ high)))
  | malformed _ method body high => exact replayed.unchanged (.inl (x.not_succeeded (answer ▸ high)))
  | created input body admitted method parsed room more written =>
    exact replayed.created room more method parsed written answer
  | exhausted _ method reason high => exact replayed.unchanged (.inl (x.not_succeeded (answer ▸ high)))
  | replaced input body task admitted kind method parsed found written =>
    have succeeded : x.succeeded = true := by
      unfold TaskExchange.succeeded
      rw [answer]
      rfl
    refine replayed.changed succeeded (by rw [method]; decide) (s.getElem?_swap found input) ?_ rfl ?_
    · rintro _ ⟨⟩
      exact parseTaskInput_titled parsed
    · unfold TaskTable.replay
      rw [if_pos succeeded, if_neg (by rw [method]; decide), if_pos method, parsed]
      rfl
  | deleted body kind method present =>
    have succeeded : x.succeeded = true := by
      unfold TaskExchange.succeeded
      rw [answer]
      rfl
    refine replayed.changed succeeded (by rw [method]; decide) (s.getElem?_erase x.route.id) ?_ rfl ?_
    · exact fun _ none => nomatch none
    · unfold TaskTable.replay
      rw [if_pos succeeded, if_neg (by rw [method]; decide), if_neg (by rw [method]; decide), if_pos method]
      rfl
  | missing _ kind absent status =>
    exact replayed.unchanged (.inl (x.not_succeeded (by rw [answer, status]; decide)))
  | found task body kind method found written => exact replayed.unchanged (.inr method)
  | listed body kind method written => exact replayed.unchanged (.inr method)

end Step

/-! ### What the next request answers -/

section Next

variable {route : TaskRoute} {request : HttpRequest} {policy : ConnectionPolicy} {s next : TaskService}
  {response : ResponseResult}

/-- **A failed request and a `GET` leave the store.** -/
theorem TaskOutcome.untouched (outcome : TaskOutcome route request policy s response next)
    (idle : ¬ response.status.code < 400 ∨ request.method = text "GET") : next = s := by
  have created : ∀ {method : Bytes} {body : Bytes} {status : Status}, request.method = method →
      method ≠ text "GET" → status.code < 400 →
      (¬ (makeTaskJsonResponse status body policy false []).status.code < 400
        ∨ request.method = text "GET") → False := by
    intro method body status same other low idle
    rcases idle with high | get
    · exact high low
    · exact other (same.symm.trans get)
  cases outcome with
  | created input body admitted method => exact (created method (by decide) (by decide) idle).elim
  | replaced input body task admitted kind method => exact (created method (by decide) (by decide) idle).elim
  | deleted body kind method => exact (created method (by decide) (by decide) idle).elim
  | refused | malformed | exhausted | missing | found | listed => rfl

theorem admitted_of_parsed (kind : route.kind = .collection ∧ request.method = text "POST"
      ∨ route.kind = .item ∧ request.method = text "PUT")
    (mediaType : isTaskMediaType request.contentType) {input : TaskInput}
    (parsed : parseTaskInput request.body = some input) : Admitted route request := by
  have small := (parseTaskInput_iff.mp parsed).1.1
  rcases kind with ⟨kind, method⟩ | ⟨kind, method⟩
  · refine ⟨.inl kind, ?_, small, fun other => ?_, fun _ _ => mediaType⟩
    · rw [kind, method]
      decide
    · rw [method] at other
      exact absurd other (by decide)
  · refine ⟨.inr kind, ?_, small, fun other => ?_, fun _ _ => mediaType⟩
    · rw [kind, method]
      decide
    · rw [method] at other
      exact absurd other (by decide)

theorem admitted_of_empty (kind : route.kind = .collection ∧ request.method = text "GET"
      ∨ route.kind = .item ∧ (request.method = text "GET" ∨ request.method = text "DELETE"))
    (empty : request.body = []) : Admitted route request := by
  have bodiless : request.method = text "GET" ∨ request.method = text "DELETE" := by
    rcases kind with ⟨-, method⟩ | ⟨-, method⟩
    · exact .inl method
    · exact method
  refine ⟨?_, ?_, by rw [empty]; exact Nat.zero_le _, fun _ => empty,
    fun notGet notDelete => absurd bodiless (not_or.mpr ⟨notGet, notDelete⟩)⟩
  · exact kind.imp And.left And.left
  · rcases kind with ⟨kind, method⟩ | ⟨kind, method | method⟩ <;> rw [kind, method] <;> decide

/-- **`POST` succeeds on a valid request while there is room and an identifier.** -/
theorem TaskOutcome.post (outcome : TaskOutcome route request policy s response next)
    (method : request.method = text "POST") (kind : route.kind = .collection) :
    response.status.code < 400 ↔ isTaskMediaType request.contentType
      ∧ (parseTaskInput request.body).isSome ∧ s.tasks.size < kMaxTasks ∧ s.lastIssued < maxTaskId := by
  have notGet : request.method ≠ text "GET" := by rw [method]; decide
  have notDelete : request.method ≠ text "DELETE" := by rw [method]; decide
  cases outcome with
  | refused _ reason high =>
    refine ⟨fun low => absurd low (Nat.not_lt.mpr high), fun ⟨mediaType, parses, _⟩ => ?_⟩
    obtain ⟨input, parsed⟩ := Option.isSome_iff_exists.mp parses
    exact absurd (admitted_of_parsed (.inl ⟨kind, method⟩) mediaType parsed) reason
  | malformed _ _ body high =>
    refine ⟨fun low => absurd low (Nat.not_lt.mpr high), fun ⟨_, parses, _⟩ => ?_⟩
    rw [body] at parses
    cases parses
  | created input body admitted _ parsed room more =>
    refine ⟨fun _ => ⟨admitted.mediaType notGet notDelete, by rw [parsed]; rfl,
      Nat.lt_of_le_of_ne s.few room, ?_⟩, fun _ => show 201 < 400 by decide⟩
    have word := s.word
    rw [s.lastIssued_of_more more]
    omega
  | exhausted _ _ reason high =>
    refine ⟨fun low => absurd low (Nat.not_lt.mpr high), fun ⟨_, _, room, more⟩ => ?_⟩
    rcases reason with full | last
    · exact absurd full (Nat.ne_of_lt room)
    · rw [TaskService.lastIssued, lastIssuedOf, last, s.last last] at more
      exact absurd more (Nat.lt_irrefl _)
  | replaced _ _ _ _ item => simp [kind] at item
  | deleted _ item => simp [kind] at item
  | missing _ item => simp [kind] at item
  | found _ _ item => simp [kind] at item
  | listed _ _ get => exact absurd get notGet

/-- **`PUT` and `DELETE` succeed on an item that is there.** -/
theorem TaskOutcome.change (outcome : TaskOutcome route request policy s response next)
    (admitted : Admitted route request)
    (method : request.method = text "PUT" ∧ (parseTaskInput request.body).isSome
      ∨ request.method = text "DELETE") :
    response.status.code < 400 ↔ (s.tasks[route.id]?).isSome := by
  cases outcome with
  | refused _ reason => exact absurd admitted reason
  | malformed _ other body =>
    rcases method with ⟨-, parses⟩ | method
    · rw [body] at parses
      cases parses
    · exact absurd method other.2
  | created _ _ _ post =>
    rcases method with ⟨method, -⟩ | method <;> exact absurd (post.symm.trans method) (by decide)
  | exhausted _ post =>
    rcases method with ⟨method, -⟩ | method <;> exact absurd (post.symm.trans method) (by decide)
  | replaced _ _ _ _ _ _ _ found => exact ⟨fun _ => by rw [found]; rfl, fun _ => show 200 < 400 by decide⟩
  | deleted _ _ _ present =>
    exact ⟨fun _ => Std.TreeMap.mem_iff_isSome_getElem?.mp present, fun _ => show 200 < 400 by decide⟩
  | missing _ _ absent status =>
    rw [status, absent]
    exact ⟨fun low => absurd low (by decide), fun none => nomatch none⟩
  | found _ _ _ get =>
    rcases method with ⟨method, -⟩ | method <;> exact absurd (get.symm.trans method) (by decide)
  | listed _ _ get =>
    rcases method with ⟨method, -⟩ | method <;> exact absurd (get.symm.trans method) (by decide)

/-- **`GET` of an item answers the task that is there.** -/
theorem TaskOutcome.get (outcome : TaskOutcome route request policy s response next)
    (admitted : Admitted route request) (kind : route.kind = .item)
    (method : request.method = text "GET") :
    (∃ task body, s.tasks[route.id]? = some task ∧ serializeTaskResult task = .ok body
        ∧ response = makeTaskJsonResponse .ok body policy false [])
      ∨ s.tasks[route.id]? = none ∧ response.status = .notFound := by
  cases outcome with
  | refused _ reason => exact absurd admitted reason
  | malformed _ other => exact absurd method other.1
  | created _ _ _ post => exact absurd (post.symm.trans method) (by decide)
  | exhausted _ post => exact absurd (post.symm.trans method) (by decide)
  | replaced _ _ _ _ _ put => exact absurd (put.symm.trans method) (by decide)
  | deleted _ _ delete => exact absurd (delete.symm.trans method) (by decide)
  | missing _ _ absent status => exact .inr ⟨absent, status⟩
  | found task body _ _ found written => exact .inl ⟨task, body, found, written, rfl⟩
  | listed _ collection => simp [kind] at collection

theorem TaskOutcome.list (outcome : TaskOutcome route request policy s response next)
    (admitted : Admitted route request) (kind : route.kind = .collection)
    (method : request.method = text "GET") :
    ∃ body, serializeTasks s.listTasks = .ok body
      ∧ response = makeTaskJsonResponse .ok body policy false [] := by
  cases outcome with
  | refused _ reason => exact absurd admitted reason
  | malformed _ other => exact absurd method other.1
  | created _ _ _ post => exact absurd (post.symm.trans method) (by decide)
  | exhausted _ post => exact absurd (post.symm.trans method) (by decide)
  | replaced _ _ _ _ item => simp [kind] at item
  | deleted _ item => simp [kind] at item
  | missing _ item => simp [kind] at item
  | found _ _ item => simp [kind] at item
  | listed body _ _ written => exact ⟨body, written, rfl⟩

end Next

/-- The list is in the order of the identifiers. -/
theorem listTasks_ordered (s : TaskService) : s.listTasks.Pairwise fun a b => a.id < b.id := by
  unfold TaskService.listTasks
  rw [List.pairwise_map]
  refine Std.TreeMap.ordered_keys_toList.imp_of_mem fun {a b} first second less => ?_
  rw [s.keyed a.1 a.2 (Std.TreeMap.mem_toList_iff_getElem?_eq_some.mp first),
    s.keyed b.1 b.2 (Std.TreeMap.mem_toList_iff_getElem?_eq_some.mp second)]
  exact Nat.compare_eq_lt.mp less

/-- The list is the tasks of the map. -/
theorem mem_listTasks {s : TaskService} {task : Task} :
    task ∈ s.listTasks ↔ (s.tasks[task.id]?).map Task.input = some task.input := by
  unfold TaskService.listTasks
  rw [List.mem_map]
  refine ⟨?_, fun held => ?_⟩
  · rintro ⟨⟨id, entry⟩, member, rfl⟩
    have found := Std.TreeMap.mem_toList_iff_getElem?_eq_some.mp member
    rw [s.keyed id entry found, found]
    rfl
  · obtain ⟨entry, found, same⟩ := Option.map_eq_some_iff.mp held
    have id := s.keyed task.id entry found
    have equal : entry = task := by
      cases entry
      cases task
      cases id
      cases same
      rfl
    exact ⟨(task.id, task), Std.TreeMap.mem_toList_iff_getElem?_eq_some.mpr (equal ▸ found), rfl⟩

/-- **The store of a run is the table of its exchanges.** -/
theorem taskApi_replayed (calls : List TaskCall) : Replayed (taskApi.run {} calls).1 (taskApi.run {} calls).2 := by
  have start : Replayed {} [] :=
    ⟨fun id task found => by simp at found, fun id => by simp; rfl, rfl, .nil⟩
  exact Machine.run_history (P := Replayed) (m := taskApi)
    (fun s log call replayed => replayed.step (onTaskResponse_outcome call.policy replayed.stored)) calls {} [] start

theorem taskApi_stored (calls : List TaskCall) : Stored (taskApi.run {} calls).1 := (taskApi_replayed calls).stored

/-- **The task API is a bounded map with fresh identifiers, changed atomically.** After any requests the
store is the table got by replaying those that succeeded, and the identifiers announced are 1, 2, 3 and so
on. Of the next request: a failure and a `GET` change nothing; `POST` succeeds just when it is valid and
there are room and an identifier; valid `PUT` and `DELETE` succeed just on what is there; `GET` answers the
value last written and the present tasks in the order of their identifiers. -/
theorem task_api_map (calls : List TaskCall) :
    let run := taskApi.run {} calls
    let s := run.1
    let table := TaskTable.of run.2
    (∀ id, (s.tasks[id]?).map Task.input = table.entries id)
      ∧ List.Forall₂ TaskExchange.Announces (run.2.filter TaskExchange.isCreation)
          (List.range' 1 table.issued)
      ∧ ∀ (route : TaskRoute) (request : HttpRequest) (policy : ConnectionPolicy),
        let answer := onTaskResponse route request policy s
        let succeeds := answer.1.status.code < 400
        (¬ succeeds ∨ request.method = text "GET" → answer.2 = s)
          ∧ (request.method = text "POST" → route.kind = .collection →
              (succeeds ↔ isTaskMediaType request.contentType ∧ (parseTaskInput request.body).isSome
                ∧ s.listTasks.length < kMaxTasks ∧ table.issued < maxTaskId))
          ∧ (request.method = text "PUT" → route.kind = .item → isTaskMediaType request.contentType →
              (parseTaskInput request.body).isSome → (succeeds ↔ (table.entries route.id).isSome))
          ∧ (request.method = text "DELETE" → route.kind = .item → request.body = [] →
              (succeeds ↔ (table.entries route.id).isSome))
          ∧ (request.method = text "GET" → route.kind = .item → request.body = [] →
              (∃ input body, table.entries route.id = some input
                  ∧ serializeTaskResult { id := route.id, input := input } = .ok body
                  ∧ answer.1 = makeTaskJsonResponse .ok body policy false [])
                ∨ table.entries route.id = none ∧ answer.1.status = .notFound)
          ∧ (request.method = text "GET" → route.kind = .collection → request.body = [] →
              ∃ tasks body, tasks.Pairwise (fun a b => a.id < b.id)
                ∧ (∀ task : Task, task ∈ tasks ↔ table.entries task.id = some task.input)
                ∧ serializeTasks tasks = .ok body
                ∧ answer.1 = makeTaskJsonResponse .ok body policy false []) := by
  intro run s table
  have replayed : Replayed s run.2 := taskApi_replayed calls
  refine ⟨replayed.entries, replayed.issued ▸ replayed.announced, fun route request policy => ?_⟩
  intro answer succeeds
  have outcome : TaskOutcome route request policy s answer.1 answer.2 :=
    onTaskResponse_outcome policy replayed.stored
  have present : ∀ id, (s.tasks[id]?).isSome = (table.entries id).isSome := fun id => by
    rw [← replayed.entries id, Option.isSome_map]
  refine ⟨outcome.untouched, fun method kind => ?_, fun method kind mediaType parses => ?_,
    fun method kind empty => ?_, fun method kind empty => ?_, fun method kind empty => ?_⟩
  · have size : s.listTasks.length = s.tasks.size := by
      unfold TaskService.listTasks
      rw [List.length_map, Std.TreeMap.length_toList]
    rw [size, ← replayed.issued]
    exact outcome.post method kind
  · obtain ⟨input, parsed⟩ := Option.isSome_iff_exists.mp parses
    rw [← present]
    exact outcome.change (admitted_of_parsed (.inr ⟨kind, method⟩) mediaType parsed) (.inl ⟨method, parses⟩)
  · rw [← present]
    exact outcome.change (admitted_of_empty (.inr ⟨kind, .inr method⟩) empty) (.inr method)
  · have admitted := admitted_of_empty (.inr ⟨kind, .inl method⟩) empty
    rcases outcome.get admitted kind method with ⟨task, body, found, written, same⟩ | ⟨absent, status⟩
    · refine .inl ⟨task.input, body, ?_, ?_, same⟩
      · rw [← replayed.entries, found]
        rfl
      · rw [← s.keyed _ _ found]
        exact written
    · refine .inr ⟨?_, status⟩
      rw [← replayed.entries, absent]
      rfl
  · obtain ⟨body, written, same⟩ := outcome.list (admitted_of_empty (.inl ⟨kind, method⟩) empty) kind method
    refine ⟨s.listTasks, body, listTasks_ordered s, fun task => ?_, written, same⟩
    rw [mem_listTasks, replayed.entries]

end HpServer.Http
