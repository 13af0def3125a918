/-
**The targets of the tasks.**

A task is addressed by `/api/tasks/` and its identifier in decimal digits; an answer names tasks by the same digits.

* `TaskPath` — the path of an identifier; `classifyTaskRoute_item` — **a target is that of an item just when its path is
  such a path and it has no query.**
* `NamesTasks` — the identifiers in an answer; `taskApi_names` — every one that is ever answered is a positive word.
* `task_routes` — **identifiers and targets, both ways**, with what is no target of the API.
-/

import HpServer.Http.ByteRanges
import HpServer.Http.TargetEncoding
import HpServer.Http.TaskApiStore
import HpServer.Library.Numerals

namespace HpServer.Http

open Business Machines Numerals

/-! ### Identifiers -/

/-- **The path of an identifier**: its decimal digits behind `/api/tasks/`. -/
structure TaskPath (path : Bytes) (n : Nat) : Prop where
  positive : 1 ≤ n
  word : n ≤ uint64Max
  path : path = text "/api/tasks/" ++ decimalText n

theorem decimalText_numeral (n : Nat) : decimalText n = numeral 10 n := decimalText_eq n

/-- The last component as an identifier. -/
def identifier (digits : Bytes) : Option Nat :=
  if digits.head? = none || digits.head? = some 0x30 then none else scanUnsigned digits 0

/-- **What is read as an identifier**: the digits of a positive word, without a leading zero. -/
theorem identifier_iff {digits : Bytes} {n : Nat} :
    identifier digits = some n ↔ 1 ≤ n ∧ n ≤ uint64Max ∧ digits = decimalText n := by
  unfold identifier
  rw [decimalText_numeral]
  constructor
  · intro read
    split at read
    case isTrue => cases read
    case isFalse allowed =>
      simp only [Bool.or_eq_true, decide_eq_true_eq, not_or, List.head?_eq_none_iff] at allowed
      obtain ⟨numeric, rfl, fits⟩ := (scanUnsigned_iff (Nat.zero_le _)).mp read
      obtain ⟨same, positive⟩ := numeral_value digits allowed.1 numeric allowed.2
      exact ⟨positive, fits, same.symm⟩
  · rintro ⟨positive, fits, rfl⟩
    rw [if_neg (by simpa using ⟨numeral_ne_nil, numeral_leading positive⟩), scanUnsigned_iff (Nat.zero_le _)]
    refine ⟨fun b inside => ?_, value_numeral n, fits⟩
    obtain ⟨digit, small, rfl⟩ := mem_numeral (by decide) inside
    exact isDecimal_digitByte digit small

/-! ### Classification -/

section Target

variable (target : RequestTarget)

theorem classifyTaskRoute_outside (other : target.path ≠ text "/api/tasks")
    (outside : ¬ text "/api/tasks/" <+: target.path) : classifyTaskRoute target = {} := by
  rw [← List.isPrefixOf_iff_prefix, Bool.not_eq_true] at outside
  exact if_pos (by simp [other, outside])

theorem classifyTaskRoute_collection (path : target.path = text "/api/tasks") :
    classifyTaskRoute target = if target.query ≠ [] then { kind := .unsupportedQuery } else { kind := .collection } := by
  have components : target.components = [text "api", text "tasks"] := by
    obtain ⟨-, ⟨root, -⟩ | ⟨-, components, -⟩⟩ := target.split_cases
    · rw [path] at root
      exact absurd root (by decide)
    · rw [components, path]
      decide
  unfold classifyTaskRoute
  rw [if_neg (by simp [path]), components]
  rfl

/-- The components of a path below `/api/tasks/`. -/
theorem taskComponents {rest : Bytes} (path : target.path = text "/api/tasks/" ++ rest) :
    target.components = text "api" :: text "tasks" :: rest.splitOn slash := by
  obtain ⟨-, ⟨root, -⟩ | ⟨-, components, -⟩⟩ := target.split_cases
  · rw [path] at root
    cases root
  · have shape : target.path.drop 1 = text "api" ++ slash :: (text "tasks" ++ slash :: rest) := by
      rw [path]
      rfl
    rw [components, shape]
    have plain (part : Bytes) (none : part.all (· ≠ slash) = true) : ∀ b ∈ part, (b == slash) = false := by
      intro b inside
      simpa using List.all_eq_true.mp none b inside
    unfold List.splitOn
    rw [List.splitOnP_append_cons_of_forall_mem (plain (text "api") (by decide)) slash (by decide),
      List.splitOnP_append_cons_of_forall_mem (plain (text "tasks") (by decide)) slash (by decide)]

/-- **Below `/api/tasks/` there is one component, and it is an identifier.** -/
theorem classifyTaskRoute_below {rest : Bytes} (path : target.path = text "/api/tasks/" ++ rest) :
    classifyTaskRoute target =
      if slash ∈ rest then { kind := .notFound }
      else (identifier rest).elim { kind := .invalidId } fun id =>
        if target.query ≠ [] then { kind := .unsupportedQuery } else { kind := .item, id := id } := by
  have components := taskComponents target path
  have inside : ¬ (decide (target.path ≠ text "/api/tasks") && !(text "/api/tasks/").isPrefixOf target.path) = true := by
    have below : (text "/api/tasks/").isPrefixOf target.path = true := by
      rw [path]
      exact List.isPrefixOf_iff_prefix.mpr (List.prefix_append _ _)
    simp [below]
  unfold classifyTaskRoute
  rw [if_neg inside, components]
  by_cases more : slash ∈ rest
  · obtain ⟨first, others, rfl⟩ := List.append_of_mem more
    have pieces : (first ++ slash :: others).splitOn slash = first.splitOn slash ++ others.splitOn slash :=
      List.splitOnP_append_cons _ _ (by decide)
    have one := List.length_pos_iff.mpr (List.splitOn_ne_nil slash first)
    have two := List.length_pos_iff.mpr (List.splitOn_ne_nil slash others)
    rw [if_pos more, if_pos (by rw [pieces]; simp only [List.length_cons, List.length_append]; omega)]
  · have piece : rest.splitOn slash = [rest] := by
      have alone : ∀ part ∈ [rest], slash ∉ part := by simpa using more
      have split := List.splitOn_intercalate slash alone (by simp)
      rwa [List.intercalate_singleton] at split
    rw [piece, if_neg more, if_neg (by simp)]
    have last : [text "api", text "tasks", rest].getLastD [] = rest := rfl
    unfold identifier
    by_cases leading : (decide (rest.head? = none) || decide (rest.head? = some 0x30)) = true
    · simp only [List.length_cons, List.length_nil, last, leading, if_true, Option.elim_none]
    · cases read : scanUnsigned rest 0 with
      | none => simp only [List.length_cons, List.length_nil, last, leading, if_true, read]; rfl
      | some id => simp only [List.length_cons, List.length_nil, last, leading, if_true, read]; rfl

/-- The three kinds of paths. -/
theorem taskPath_cases : target.path = text "/api/tasks" ∨ (∃ rest, target.path = text "/api/tasks/" ++ rest)
    ∨ target.path ≠ text "/api/tasks" ∧ ¬ text "/api/tasks/" <+: target.path := by
  by_cases collection : target.path = text "/api/tasks"
  · exact .inl collection
  · by_cases below : text "/api/tasks/" <+: target.path
    · obtain ⟨rest, path⟩ := below
      exact .inr (.inl ⟨rest, path.symm⟩)
    · exact .inr (.inr ⟨collection, below⟩)

theorem not_collection_of_below {rest : Bytes} : text "/api/tasks" ≠ text "/api/tasks/" ++ rest := by
  intro same
  have lengths := congrArg List.length same
  rw [List.length_append] at lengths
  have short : (text "/api/tasks").length = 10 := by decide
  have long : (text "/api/tasks/").length = 11 := by decide
  omega

/-- **A target is that of an item just when its path is that of its identifier and there is no query.** -/
theorem classifyTaskRoute_item {n : Nat} :
    classifyTaskRoute target = { kind := .item, id := n } ↔ TaskPath target.path n ∧ target.query = [] := by
  obtain path | ⟨rest, path⟩ | ⟨other, outside⟩ := taskPath_cases target
  · rw [classifyTaskRoute_collection target path]
    refine iff_of_false (fun item => ?_) fun ⟨named, _⟩ => not_collection_of_below (path.symm.trans named.path)
    split at item <;> cases item
  · rw [classifyTaskRoute_below target path, path]
    constructor
    · intro item
      split at item
      case isTrue => cases item
      case isFalse =>
        cases read : identifier rest with
        | none => rw [read] at item; cases item
        | some id =>
          rw [read, Option.elim_some] at item
          split at item
          case isTrue => cases item
          case isFalse plain =>
            cases item
            obtain ⟨positive, word, rfl⟩ := identifier_iff.mp read
            exact ⟨⟨positive, word, rfl⟩, not_not.mp plain⟩
    · rintro ⟨⟨positive, word, same⟩, plain⟩
      obtain rfl := List.append_cancel_left same
      have noSlash : slash ∉ decimalText n := fun inside => absurd (decimalText_digit inside).1 (by decide)
      rw [if_neg noSlash, identifier_iff.mpr ⟨positive, word, rfl⟩, Option.elim_some, if_neg (not_not.mpr plain)]
  · rw [classifyTaskRoute_outside target other outside]
    refine iff_of_false (fun item => by cases item) fun ⟨named, _⟩ => outside ?_
    rw [named.path]
    exact List.prefix_append _ _

/-- **What is no target of the API.** -/
theorem classifyTaskRoute_other :
    (classifyTaskRoute target).kind = .other
      ↔ target.path ≠ text "/api/tasks" ∧ ¬ text "/api/tasks/" <+: target.path := by
  obtain path | ⟨rest, path⟩ | outside := taskPath_cases target
  · rw [classifyTaskRoute_collection target path]
    refine iff_of_false (fun other => ?_) fun outside => outside.1 path
    split at other <;> cases other
  · rw [classifyTaskRoute_below target path]
    refine iff_of_false (fun other => ?_) fun outside => outside.2 (path ▸ List.prefix_append _ _)
    split at other
    · cases other
    · cases read : identifier rest with
      | none => rw [read] at other; cases other
      | some id =>
        rw [read, Option.elim_some] at other
        split at other <;> cases other
  · rw [classifyTaskRoute_outside target outside.1 outside.2]
    exact iff_of_true rfl outside

end Target

/-! ### The identifiers of the answers -/

/-- **The identifiers an answer names**: a task's, those of a list, or that of the task deleted. -/
inductive NamesTasks (response : ResponseResult) : List Nat → Prop
  | task (task : Task) (status : Status) (policy : ConnectionPolicy) (body : Bytes)
      (written : serializeTaskResult task = .ok body)
      (answer : response = makeTaskJsonResponse status body policy false []) : NamesTasks response [task.id]
  | tasks (tasks : List Task) (policy : ConnectionPolicy) (body : Bytes) (written : serializeTasks tasks = .ok body)
      (answer : response = makeTaskJsonResponse .ok body policy false []) : NamesTasks response (tasks.map Task.id)
  | deletion (id : Nat) (policy : ConnectionPolicy) (body : Bytes) (written : serializeDeleted id = .ok body)
      (answer : response = makeTaskJsonResponse .ok body policy false []) : NamesTasks response [id]

def Positive (s : TaskService) : Prop := ∀ id ∈ s.tasks, 1 ≤ id

/-- An answer that succeeds names identifiers of tasks. -/
def TaskExchange.Valid (x : TaskExchange) : Prop :=
  x.succeeded = true → ∃ ids, NamesTasks x.response ids ∧ ∀ id ∈ ids, 1 ≤ id ∧ id ≤ maxTaskId

section Outcome

variable {s next : TaskService} {x : TaskExchange}

theorem mem_of_found {id : Nat} {task : Task} (found : s.tasks[id]? = some task) : id ∈ s.tasks :=
  Std.TreeMap.mem_iff_isSome_getElem?.mpr (by rw [found]; rfl)

/-- **One request**: its answer names positive words, and the store keeps such. -/
theorem TaskOutcome.names (outcome : TaskOutcome x.route x.request x.policy s x.response next)
    (positive : Positive s) : x.Valid ∧ Positive next := by
  generalize answer : x.response = response at outcome
  have failed : 400 ≤ response.status.code → x.Valid := fun high succeeded =>
    absurd succeeded (by rw [x.not_succeeded (answer ▸ high)]; decide)
  have one : ∀ {id}, id ∈ s.tasks → ∀ other ∈ [id], 1 ≤ other ∧ other ≤ maxTaskId := fun present =>
    List.forall_mem_singleton.mpr ⟨positive _ present, s.id_word present⟩
  cases outcome with
  | refused _ reason high => exact ⟨failed high, positive⟩
  | malformed _ method body high => exact ⟨failed high, positive⟩
  | exhausted _ method reason high => exact ⟨failed high, positive⟩
  | missing _ kind absent status => exact ⟨failed (by rw [status]; decide), positive⟩
  | created input body admitted method parsed room more written =>
    refine ⟨fun _ => ⟨_, .task _ _ _ body written answer, List.forall_mem_singleton.mpr s.word⟩, fun id present => ?_⟩
    rcases Std.TreeMap.mem_insertIfNew.mp present with new | old
    · rw [← Nat.compare_eq_eq.mp new]
      exact s.word.1
    · exact positive id old
  | replaced input body task admitted kind method parsed found written =>
    refine ⟨fun _ => ⟨_, .task _ _ _ body written answer, one (mem_of_found found)⟩, fun id present => ?_⟩
    rcases Std.TreeMap.mem_insert.mp present with same | old
    · rw [← Nat.compare_eq_eq.mp same]
      exact positive _ (mem_of_found found)
    · exact positive id old
  | deleted body kind method present written =>
    exact ⟨fun _ => ⟨_, .deletion _ _ body written answer, one present⟩,
      fun id held => positive id (Std.TreeMap.mem_erase.mp held).2⟩
  | found task body kind method found written =>
    refine ⟨fun _ => ⟨_, .task task _ _ body written answer, ?_⟩, positive⟩
    rw [s.keyed _ _ found]
    exact one (mem_of_found found)
  | listed body kind method written =>
    refine ⟨fun _ => ⟨_, .tasks _ _ body written answer, fun id named => ?_⟩, positive⟩
    obtain ⟨task, member, rfl⟩ := List.mem_map.mp named
    obtain ⟨entry, found, -⟩ := Option.map_eq_some_iff.mp (mem_listTasks.mp member)
    exact one (mem_of_found found) _ (List.mem_singleton.mpr rfl)

end Outcome

/-- **Every identifier that is ever answered is a positive word.** -/
theorem taskApi_names (calls : List TaskCall) : ∀ x ∈ (taskApi.run {} calls).2, x.Valid := by
  have start : Replayed {} [] ∧ Positive {} ∧ ∀ x ∈ ([] : List TaskExchange), x.Valid :=
    ⟨taskApi_replayed [], fun id present => by simp at present, fun x none => by cases none⟩
  refine (Machine.run_history (m := taskApi)
    (P := fun s log => Replayed s log ∧ Positive s ∧ ∀ x ∈ log, x.Valid) ?_ calls {} [] start).2.2
  rintro s log call ⟨replayed, positive, valid⟩
  let x : TaskExchange :=
    { toTaskCall := call, response := (onTaskResponse call.route call.request call.policy s).1 }
  have outcome : TaskOutcome x.route x.request x.policy s x.response
      (onTaskResponse call.route call.request call.policy s).2 := onTaskResponse_outcome call.policy replayed.stored
  obtain ⟨here, kept⟩ := outcome.names positive
  refine ⟨replayed.step outcome, kept, fun other member => ?_⟩
  rcases List.mem_append.mp member with old | new
  · exact valid other old
  · rw [List.mem_singleton.mp new]
    exact here

/-! ### Both ways -/

/-- A target without parameters has no query. -/
theorem query_eq_nil {raw : Bytes} {target : RequestTarget} (accepted : (parseRequestTarget raw).target = some target) :
    target.query = [] ↔ (cutAt question raw).2 = [] := by
  have formed : ¬ Malformed raw := fun malformed => by
    rw [parseRequestTarget_malformed malformed] at accepted
    cases accepted
  rcases parseRequestTarget_formed formed with ⟨-, refused⟩ | ⟨other, parsed, -, query⟩
  · rw [refused] at accepted
    cases accepted
  · rw [parsed] at accepted
    obtain rfl := Option.some.inj accepted
    rw [query, List.map_eq_nil_iff, queryPairs]
    split
    case isTrue none => exact iff_of_true rfl none
    case isFalse some => exact iff_of_false (List.splitOn_ne_nil _ _) some

/-- **Identifiers and targets.** An accepted target is that of the item `n` just when its decoded path is the path of `n`
and its query is empty. Every identifier the API ever answers has such a path; a target written in any way with that path
and without parameters is accepted and is that of the identifier, and of no identifier but it. The targets outside the API
are those whose path is neither `/api/tasks` nor below it. -/
theorem task_routes :
    (∀ (raw : Bytes) (target : RequestTarget), (parseRequestTarget raw).target = some target →
      (∀ n, classifyTaskRoute target = { kind := .item, id := n }
        ↔ TaskPath target.path n ∧ (cutAt question raw).2 = [])
      ∧ ((classifyTaskRoute target).kind = .other
        ↔ target.path ≠ text "/api/tasks" ∧ ¬ text "/api/tasks/" <+: target.path))
    ∧ (∀ (calls : List TaskCall), ∀ x ∈ (taskApi.run {} calls).2, x.succeeded = true →
      ∃ ids, NamesTasks x.response ids ∧ ∀ id ∈ ids, TaskPath (text "/api/tasks/" ++ decimalText id) id
        ∧ ∀ w : Writing, w.names = [text "api", text "tasks", decimalText id] → w.parameters = [] →
          ∃ target, (parseRequestTarget w.text).target = some target
            ∧ classifyTaskRoute target = { kind := .item, id := id })
    ∧ ∀ (first second : RequestTarget) (n : Nat), classifyTaskRoute first = { kind := .item, id := n } →
      classifyTaskRoute second = { kind := .item, id := n } → first.path = second.path := by
  refine ⟨fun raw target accepted => ⟨fun n => ?_, classifyTaskRoute_other target⟩, fun calls x member succeeded => ?_,
    fun first second n one two => ?_⟩
  · rw [classifyTaskRoute_item, query_eq_nil accepted]
  · obtain ⟨ids, named, words⟩ := taskApi_names calls x member succeeded
    refine ⟨ids, named, fun id inside => ?_⟩
    have path : TaskPath (text "/api/tasks/" ++ decimalText id) id := ⟨(words id inside).1, (words id inside).2, rfl⟩
    refine ⟨path, fun w names plain => ?_⟩
    obtain ⟨target, accepted, decoded, -, query⟩ := w.parsed
    refine ⟨target, by rw [accepted], (classifyTaskRoute_item target).mpr ⟨?_, query.trans plain⟩⟩
    rw [decoded, names, List.intercalate_cons_cons, List.intercalate_cons_cons, List.intercalate_singleton]
    exact path
  · rw [((classifyTaskRoute_item first).mp one).1.path, ((classifyTaskRoute_item second).mp two).1.path]

end HpServer.Http
