/-
**What the task backend keeps.**

A work object is made with the job it is for, so the two have the same number (`Backed.own`). A job is
answered at most once, by the worker that took it, while it is running.

* `submitRequest_outcome`, `collectResponse_outcome` — **everything a submission and a collection can do.**
* `Backed` — jobs, workers, bodies and objects belong together; it holds after every operation
  (`Backed.enqueue`, `Backed.collect`, `Backed.cancel`, `Backed.work`).
* `work_cases` — a worker's step answers nothing, or runs one body on the store.
-/

import HpServer.App.AsyncTaskHandler

namespace HpServer.App

open Business Http Tables

/-! ### Submission and collection -/

/-- The target of a request that `RequestRouter::onResponse` hands to the task API. -/
def IsTaskTarget (raw : Bytes) (target : RequestTarget) : Prop :=
  (parseRequestTarget raw).target = some target ∧ (classifyTaskRoute target).kind ≠ .other

/-- The backend with one job and its work object more. -/
def TaskBackend.enqueue (b : TaskBackend) (route : TaskRoute) (request : HttpRequest) (policy : ConnectionPolicy)
    (now : Nat) : TaskBackend :=
  { b with
    executor := b.executor.enqueue b.works.length now
    works := b.works ++ [{ route := route, request := request, policy := policy }] }

/-- **What a submission does.** -/
inductive SubmitOutcome (b : TaskBackend) (request : HttpRequest) (policy : ConnectionPolicy) (now : Nat) :
    TaskBackend × AsyncTaskSubmission → Prop
  | synchronous (other : ∀ target, ¬ IsTaskTarget request.target target) :
      SubmitOutcome b request policy now (b, { dispatch := .synchronous })
  | rejected {target : RequestTarget} (found : IsTaskTarget request.target target) {response : ResponseResult}
      (refused : prevalidateTask (classifyTaskRoute target) request policy = .ok (some response)) :
      SubmitOutcome b request policy now (b, { dispatch := .immediate, response := some response })
  | overloaded {target : RequestTarget} (found : IsTaskTarget request.target target)
      (admitted : Admitted (classifyTaskRoute target) request) :
      SubmitOutcome b request policy now (b, { dispatch := .immediate, response := some overloadResponse })
  | pending {target : RequestTarget} (found : IsTaskTarget request.target target)
      (admitted : Admitted (classifyTaskRoute target) request)
      (step : b.executor.act (.submit (some b.works.length) now)
        = (b.executor.enqueue b.works.length now, [.submitted b.executor.jobs.length (some b.works.length)])) :
      SubmitOutcome b request policy now
        (b.enqueue (classifyTaskRoute target) request policy now,
          { dispatch := .pending, job := some b.executor.jobs.length })

theorem submitRequest_outcome (b : TaskBackend) (request : HttpRequest) (policy : ConnectionPolicy) (now : Nat) :
    SubmitOutcome b request policy now (b.submitRequest request policy now) := by
  unfold TaskBackend.submitRequest
  split
  case h_1 refused => exact .synchronous fun target found => nomatch refused.symm.trans found.1
  case h_2 target parsed =>
    dsimp only
    split
    case isTrue other =>
      refine .synchronous fun target' found => found.2 ?_
      cases parsed.symm.trans found.1
      exact other
    case isFalse route =>
      have found : IsTaskTarget request.target target := ⟨parsed, route⟩
      rcases prevalidateTask_cases (classifyTaskRoute target) request policy with
        ⟨valid, admitted⟩ | ⟨⟨response, refused, -⟩, -⟩
      · rw [valid]
        dsimp only
        have submitted := submitTask_submitted b.executor (some b.works.length) now
        generalize same : b.executor.submitTask (some b.works.length) now = result at submitted
        cases submitted with
        | stopping => exact .overloaded found admitted
        | overloaded => exact .overloaded found admitted
        | accepted open1 short below =>
          refine .pending found admitted ?_
          unfold Executor.act
          dsimp only
          rw [same]
          rfl
      · rw [refused]
        exact .rejected found refused

/-- **What a collection does.** -/
inductive CollectOutcome (b : TaskBackend) (id : JobId) : TaskBackend × Option ResponseResult → Prop
  | early {job : TaskJob WorkId} (found : b.executor.jobs[id]? = some job)
      (state : job.state = .queued ∨ job.state = .running) : CollectOutcome b id (b, none)
  | lost (retired : ∀ job, b.executor.jobs[id]? = some job → job.state = .retired) :
      CollectOutcome b id (b, some failureResponse)
  | ready {job : TaskJob WorkId} (found : b.executor.jobs[id]? = some job) (state : job.state = .ready)
      (retired : Entry (b.executor.act (.collect (some id))).1.jobs id fun job => job.state = .retired) :
      CollectOutcome b id
        ({ b with executor := (b.executor.act (.collect (some id))).1 },
          some ((((job.work).bind fun w => b.works[w]?).bind ResponseTaskWork.response).getD failureResponse))

theorem collectResponse_outcome {b : TaskBackend} (sound : Sound b.executor) (id : JobId) :
    CollectOutcome b id (b.collectResponse (some id)) := by
  have collected := collectTask_collected sound.linked (some id)
  unfold TaskBackend.collectResponse
  have act : (b.executor.act (.collect (some id))).1 = (b.executor.collectTask (some id)).1 := rfl
  generalize b.executor.collectTask (some id) = result at collected act
  cases collected with
  | unowned lost =>
    refine .lost fun job found => ?_
    by_contra live
    rw [(ownsJob_iff sound.linked (some id)).mpr ⟨id, job, rfl, found, live⟩] at lost
    cases lost
  | @early _ job found state =>
    dsimp only
    rw [if_pos (by simpa using state)]
    exact .early found state
  | @ready _ job found state =>
    have retired : Entry (b.executor.act (.collect (some id))).1.jobs id fun job => job.state = .retired := by
      rw [act]
      exact ⟨_, set_same found _, rfl⟩
    have outcome := CollectOutcome.ready (b := b) found state retired
    rw [act] at outcome
    dsimp only at outcome ⊢
    rw [if_neg (show ¬ (decide (TaskJobState.ready = .queued) || decide (TaskJobState.ready = .running)) = true
      from Bool.false_ne_true)]
    cases work : job.work with
    | none => simpa [work] using outcome
    | some w => simpa [work] using outcome

/-! ### Jobs, workers, bodies and objects -/

/-- **What every operation keeps**, with the jobs that were answered. -/
structure Backed (b : TaskBackend) (ran : List JobId) : Prop where
  sound : Sound b.executor
  objects : b.works.length = b.executor.jobs.length
  own : ∀ (j : JobId) (job : TaskJob WorkId), b.executor.jobs[j]? = some job → job.state ≠ .retired →
    job.work = some j
  queued : ∀ (j : JobId) (job : TaskJob WorkId), b.executor.jobs[j]? = some job → job.state = .queued →
    j ∉ ran
  held : ∀ (w : Nat) (j : JobId) (work : Option WorkId), b.executor.workers[w]? = some (.holding j work) →
    work = some j ∧ j ∉ ran
  running : ∀ (w : Nat) (body : Body), b.bodies w = some body → body.work = body.job
    ∧ b.executor.workers[w]? = some (.finishing body.job) ∧ body.job ∉ ran
  fresh : ∀ j ∈ ran, j < b.executor.jobs.length
  once : ran.Nodup

theorem backed_initial {o : TaskExecutorOptions} {e : Executor WorkId} (made : makeExecutor o = .ok e)
    (store : TaskService) : Backed { executor := e, store := store } [] := by
  have told := told_initial made
  have sound := told.sound
  unfold makeExecutor at made
  split at made
  swap
  · cases made
  obtain rfl := Except.ok.inj made
  refine ⟨sound, rfl, fun j job found => ?_, fun j job found => ?_, fun w j work holding => ?_,
    fun w body none => (nomatch none), fun j none => absurd none List.not_mem_nil, List.nodup_nil⟩
  · exact absurd (lt_of_entry found) (Nat.not_lt_zero j)
  · exact absurd (lt_of_entry found) (Nat.not_lt_zero j)
  · cases replicate_eq_some holding

/-! ### What becomes of a job -/

/-- A job that no worker runs any more. -/
def Retired (b : TaskBackend) (job : JobId) : Prop := Entry b.executor.jobs job fun entry => entry.state = .retired

/-- A job that was cancelled. -/
def Marked (b : TaskBackend) (job : JobId) : Prop := Entry b.executor.jobs job fun entry => entry.cancelled = true

/-- A job whose work was collected. -/
def GivenAway (b : TaskBackend) (job : JobId) : Prop :=
  Entry b.executor.jobs job fun entry => entry.state = .retired ∧ entry.cancelled = false

/-- What any operation does to the jobs, and what only the collection of `collected` may do. -/
structure Later (collected : Option JobId) (b next : TaskBackend) : Prop where
  retired : ∀ job, Retired b job → Retired next job
  marked : ∀ job, Marked b job → Marked next job
  given : ∀ job, collected ≠ some job → GivenAway next job → GivenAway b job

theorem Later.refl (collected : Option JobId) (b : TaskBackend) : Later collected b b :=
  ⟨fun _ h => h, fun _ h => h, fun _ _ h => h⟩

theorem Later.trans {collected : Option JobId} {a b c : TaskBackend} (first : Later collected a b)
    (second : Later collected b c) : Later collected a c :=
  ⟨fun job h => second.retired job (first.retired job h), fun job h => second.marked job (first.marked job h),
    fun job other h => first.given job other (second.given job other h)⟩

theorem Later.weaken {b next : TaskBackend} (later : Later none b next) (collected : Option JobId) :
    Later collected b next :=
  ⟨later.retired, later.marked, fun job _ h => later.given job (fun none => nomatch none) h⟩

/-- The job a collection is for. -/
def collectedBy : TaskAction WorkId → Option JobId
  | .collect handle => handle
  | _ => none

/-- **Only a collection takes the work of a job that was not cancelled.** -/
theorem later_act {b : TaskBackend} (sound : Sound b.executor) (a : TaskAction WorkId) (next : TaskBackend)
    (same : next.executor = (b.executor.act a).1) : Later (collectedBy a) b next := by
  refine ⟨fun job gone => ?_, fun job marked => ?_, fun job other given => ?_⟩
  · show Entry next.executor.jobs job _
    rw [same]
    exact act_retired sound a job gone
  · obtain ⟨entry, found, mark⟩ := marked
    obtain ⟨after, there, move⟩ := act_moves sound a found
    refine ⟨after, by rw [same]; exact there, ?_⟩
    cases move <;> first | exact mark | rfl
  · obtain ⟨after, there, retired, unmarked⟩ := given
    rw [same] at there
    rcases act_origin sound a there with ⟨old, before, move⟩ | ⟨-, w, now, -, admitted⟩
    · cases move with
      | same => exact ⟨after, before, retired, unmarked⟩
      | start => cases retired
      | ready => cases retired
      | collect => exact absurd rfl other
      | retire _ _ _ mark => exact absurd (unmarked.symm.trans mark) Bool.false_ne_true
      | mark => cases unmarked
      | release => cases unmarked
    · rw [admitted] at there
      rcases append_eq_some.mp there with before | ⟨-, rfl⟩
      · exact ⟨after, before, retired, unmarked⟩
      · cases retired

section Steps

variable {b : TaskBackend} {ran : List JobId}

/-- A queued job was queued. -/
theorem queued_of_move {e : Executor WorkId} {id : JobId} {old new : TaskJob WorkId} {a : TaskAction WorkId}
    (move : Move e id old a new) (state : new.state = .queued) : old.state = .queued := by
  have rank := move.rank
  rw [state] at rank
  cases before : old.state with
  | queued => rfl
  | running => rw [before] at rank; exact absurd rank (by decide)
  | ready => rw [before] at rank; exact absurd rank (by decide)
  | retired => rw [before] at rank; exact absurd rank (by decide)

/-- An operation of the executor that admits nothing, with what it does to workers and bodies. -/
theorem Backed.act (backed : Backed b ran) (a : TaskAction WorkId) (bodies : Nat → Option Body)
    (older : (b.executor.act a).1.jobs.length = b.executor.jobs.length)
    (held : ∀ (w : Nat) (j : JobId) (work : Option WorkId),
      (b.executor.act a).1.workers[w]? = some (.holding j work) → work = some j ∧ j ∉ ran)
    (running : ∀ (w : Nat) (body : Body), bodies w = some body → body.work = body.job
      ∧ (b.executor.act a).1.workers[w]? = some (.finishing body.job) ∧ body.job ∉ ran) :
    Backed { b with executor := (b.executor.act a).1, bodies := bodies } ran := by
  have moved : ∀ (j : JobId) (job : TaskJob WorkId), (b.executor.act a).1.jobs[j]? = some job →
      ∃ old, b.executor.jobs[j]? = some old ∧ Move b.executor j old a job := by
    intro j job found
    rcases act_origin backed.sound a found with old | ⟨last, -⟩
    · exact old
    · exact absurd (lt_of_entry found) (by rw [older, last]; exact Nat.lt_irrefl _)
  exact
    { sound := act_sound backed.sound a
      objects := backed.objects.trans older.symm
      own := fun j job found live => by
        obtain ⟨old, before, move⟩ := moved j job found
        obtain ⟨alive, same⟩ := move.live live
        exact same.trans (backed.own j old before alive)
      queued := fun j job found state => by
        obtain ⟨old, before, move⟩ := moved j job found
        exact backed.queued j old before (queued_of_move move state)
      held := held
      running := running
      fresh := fun j member => older ▸ backed.fresh j member
      once := backed.once }

/-- An operation of a client that admits nothing. -/
theorem Backed.client (backed : Backed b ran) (a : TaskAction WorkId)
    (older : (b.executor.act a).1.jobs.length = b.executor.jobs.length)
    (workers : (b.executor.act a).1.workers = b.executor.workers) :
    Backed { b with executor := (b.executor.act a).1 } ran := by
  refine backed.act a b.bodies older ?_ ?_
  · rw [workers]
    exact backed.held
  · rw [workers]
    exact backed.running

theorem Backed.cancel (backed : Backed b ran) (job : Option JobId) : Backed (b.cancelRequest job) ran :=
  backed.client (.cancel job) (cancelLocked_length b.executor job).1 (cancelLocked_length b.executor job).2

theorem collect_workers {e : Executor WorkId} (linked : Linked e) (handle : Option JobId) :
    (e.act (.collect handle)).1.jobs.length = e.jobs.length
      ∧ (e.act (.collect handle)).1.workers = e.workers := by
  have collected := collectTask_collected linked handle
  show (e.collectTask handle).1.jobs.length = _ ∧ (e.collectTask handle).1.workers = _
  generalize e.collectTask handle = result at collected
  cases collected with
  | unowned => exact ⟨rfl, rfl⟩
  | early => exact ⟨rfl, rfl⟩
  | ready => exact ⟨List.length_set, rfl⟩

theorem Backed.collect (backed : Backed b ran) (id : JobId) :
    Backed (b.collectResponse (some id)).1 ran := by
  have outcome := collectResponse_outcome backed.sound id
  have client := backed.client (.collect (some id)) (collect_workers backed.sound.linked (some id)).1
    (collect_workers backed.sound.linked (some id)).2
  generalize b.collectResponse (some id) = result at outcome
  cases outcome with
  | early => exact backed
  | lost => exact backed
  | ready => exact client

theorem Backed.enqueue (backed : Backed b ran) (route : TaskRoute) (request : HttpRequest)
    (policy : ConnectionPolicy) (now : Nat)
    (step : b.executor.act (.submit (some b.works.length) now)
      = (b.executor.enqueue b.works.length now, [.submitted b.executor.jobs.length (some b.works.length)])) :
    Backed (b.enqueue route request policy now) ran := by
  have sound : Sound (b.executor.enqueue b.works.length now) := by
    have next := act_sound backed.sound (.submit (some b.works.length) now)
    rwa [step] at next
  refine
    { sound := sound
      objects := ?_
      own := fun j job found live => ?_
      queued := fun j job found state => ?_
      held := backed.held
      running := backed.running
      fresh := fun j member => ?_
      once := backed.once }
  · show (b.works ++ [_]).length = (b.executor.jobs ++ [_]).length
    rw [List.length_append, List.length_append, backed.objects]
    rfl
  · rcases append_eq_some.mp found with before | ⟨rfl, rfl⟩
    · exact backed.own j job before live
    · exact congrArg some backed.objects
  · rcases append_eq_some.mp found with before | ⟨rfl, rfl⟩
    · exact backed.queued j job before state
    · exact fun member => Nat.lt_irrefl _ (backed.fresh _ member)
  · show j < (b.executor.jobs ++ [_]).length
    rw [List.length_append]
    exact Nat.lt_add_right _ (backed.fresh j member)

/-! ### Workers -/

/-- A body runs in its worker only. -/
theorem Backed.body_of_worker (backed : Backed b ran) {w : Nat} {worker : Worker WorkId}
    (found : b.executor.workers[w]? = some worker) (other : ∀ j, worker ≠ .finishing j) : b.bodies w = none := by
  cases running : b.bodies w with
  | none => rfl
  | some body =>
    have finishing := (backed.running w body running).2.1
    exact absurd (Option.some.inj (found.symm.trans finishing)) (other _)

theorem Backed.held_set (backed : Backed b ran) {w : Nat} {new : Worker WorkId}
    (idle : ∀ j work, new ≠ .holding j work) (w' : Nat) (j : JobId) (work : Option WorkId)
    (holding : (b.executor.workers.set w new)[w']? = some (.holding j work)) : work = some j ∧ j ∉ ran :=
  backed.held w' j work (holding_set idle w' j work holding)

/-- Where another worker changes, a body stays in its worker. -/
theorem Backed.running_set (backed : Backed b ran) {w : Nat} {new : Worker WorkId} (none : b.bodies w = none)
    (w' : Nat) (body : Body) (running : b.bodies w' = some body) :
    body.work = body.job ∧ (b.executor.workers.set w new)[w']? = some (.finishing body.job)
      ∧ body.job ∉ ran := by
  obtain ⟨same, finishing, new'⟩ := backed.running w' body running
  have apart : w ≠ w' := by
    rintro rfl
    cases none.symm.trans running
  exact ⟨same, (set_other apart new).trans finishing, new'⟩

theorem Backed.older (backed : Backed b ran) (a : TaskAction WorkId) (other : ∀ w now, a ≠ .submit w now) :
    (b.executor.act a).1.jobs.length = b.executor.jobs.length := by
  rcases act_length backed.sound.linked a with same | ⟨w, now, submit, -⟩
  · exact same
  · exact absurd submit (other _ _)

theorem Backed.take (backed : Backed b ran) (w : Nat) :
    Backed { b with executor := b.executor.takeTask w } ran := by
  have took := takeTask_took backed.sound.linked w
  have step := backed.act (.take w) b.bodies (backed.older _ fun _ _ h => by cases h)
  have same : (b.executor.act (.take w)).1 = b.executor.takeTask w := rfl
  rw [same] at step
  generalize b.executor.takeTask w = next at took step
  cases took with
  | away => exact backed
  | idle => exact backed
  | returned waiting =>
    have none := backed.body_of_worker waiting fun j h => by cases h
    exact step (backed.held_set fun j work h => by cases h) (backed.running_set none)
  | @took id queue job waiting _ front found state =>
    have none := backed.body_of_worker waiting fun j h => by cases h
    refine step (fun w' j work holding => ?_) (backed.running_set none)
    rcases set_eq_some.mp holding with ⟨-, -, mine⟩ | ⟨-, before⟩
    · obtain ⟨rfl, rfl⟩ := Worker.holding.inj mine
      exact ⟨backed.own j job found (by rw [state]; decide), backed.queued j job found state⟩
    · exact backed.held w' j work before

/-- A worker enters the body of the work it holds, or goes past it. -/
theorem Backed.execute (backed : Backed b ran) (w now : Nat) : Backed (b.work (.execute w now)).1 ran := by
  have executed := executeTask_executed backed.sound.linked w now
  have step := fun bodies => backed.act (.execute w now) bodies (backed.older _ fun _ _ h => by cases h)
  have same : (b.executor.act (.execute w now)).1 = (b.executor.executeTask w now).1 := rfl
  rw [same] at step
  unfold TaskBackend.work
  dsimp only
  generalize b.executor.executeTask w now = result at executed step
  cases executed with
  | away => exact backed
  | skipped holding =>
    have none := backed.body_of_worker holding fun j h => by cases h
    exact step b.bodies (backed.held_set fun j work h => by cases h) (backed.running_set none)
  | @ran id work job holding found state runs =>
    have none := backed.body_of_worker holding fun j h => by cases h
    obtain ⟨rfl, new⟩ := backed.held w id work holding
    refine step _ (backed.held_set fun j work h => by cases h) fun w' body running => ?_
    by_cases mine : w' = w
    · subst mine
      rw [Function.update_self] at running
      cases running
      exact ⟨rfl, set_same holding _, new⟩
    · rw [Function.update_of_ne mine] at running
      exact backed.running_set none w' body running

theorem Backed.enter (backed : Backed b ran) (w now : Nat) : Backed (b.enterBody w now) ran := by
  unfold TaskBackend.enterBody
  split
  case h_2 => exact backed
  case h_1 job work running =>
    refine { backed with running := fun w' body running' => ?_ }
    dsimp only at running' ⊢
    by_cases mine : w' = w
    · subst mine
      rw [Function.update_self] at running'
      split at running'
      · cases running'
      · cases running'
        exact backed.running w' { job := job, work := work } running
    · rw [Function.update_of_ne mine] at running'
      exact backed.running w' body running'

theorem Backed.finish (backed : Backed b ran) (w : Nat) (idle : b.bodies w = none) :
    Backed { b with executor := b.executor.finishTask w } ran := by
  have finished := finishTask_finished backed.sound.linked w
  have step := backed.act (.finish w) b.bodies (backed.older _ fun _ _ h => by cases h)
  have same : (b.executor.act (.finish w)).1 = b.executor.finishTask w := rfl
  rw [same] at step
  generalize b.executor.finishTask w = next at finished step
  cases finished with
  | away => exact backed
  | retired => exact step (backed.held_set fun j work h => by cases h) (backed.running_set idle)
  | ready => exact step (backed.held_set fun j work h => by cases h) (backed.running_set idle)

theorem Backed.stop (backed : Backed b ran) :
    Backed { b with executor := b.executor.stopAcceptingAndCancel } ran := by
  have step := backed.client .stop (backed.older _ fun _ _ h => by cases h)
  rw [act_stop] at step
  exact step (stop_length b.executor).2

/-- The backend after a body has answered. -/
def TaskBackend.answered (b : TaskBackend) (w : Nat) (id : JobId) (work : ResponseTaskWork) : TaskBackend :=
  { b with
    bodies := Function.update b.bodies w none
    works := b.works.set id
      { work with response := some (onTaskResponse work.route work.request work.policy b.store).1 }
    store := (onTaskResponse work.route work.request work.policy b.store).2 }

/-- The execution that a body reports. -/
def TaskBackend.execution (b : TaskBackend) (id : JobId) (work : ResponseTaskWork) : Execution :=
  { job := id
    request := work.request
    policy := work.policy
    answer := (onTaskResponse work.route work.request work.policy b.store).1 }

/-- **What a worker's step does to objects, store and clients**: nothing, or it runs one body. -/
inductive WorkOutcome (b : TaskBackend) (ran : List JobId) : TaskBackend × List Execution → Prop
  | quiet {next : TaskBackend} (works : next.works = b.works) (store : next.store = b.store)
      (later : Later none b next) (backed : Backed next ran) : WorkOutcome b ran (next, [])
  | ran {w : Nat} {id : JobId} {work : ResponseTaskWork} (found : b.works[id]? = some work) (new : id ∉ ran)
      (state : Entry b.executor.jobs id fun job => job.state = .running)
      (backed : Backed (b.answered w id work) (ran ++ [id])) :
      WorkOutcome b ran (b.answered w id work, [b.execution id work])

theorem Backed.run (backed : Backed b ran) (w : Nat) : WorkOutcome b ran (b.runBody w) := by
  unfold TaskBackend.runBody
  split
  case h_2 => exact .quiet rfl rfl (.refl none b) backed
  case h_1 job id running =>
    obtain ⟨same, finishing, new⟩ := backed.running w _ running
    dsimp only at same finishing new ⊢
    obtain rfl : job = id := same.symm
    have state := (backed.sound.linked.held job).mpr ⟨w, _, finishing, rfl⟩
    obtain ⟨entry, present, -⟩ := state
    have inside : job < b.works.length := backed.objects ▸ lt_of_entry present
    rw [List.getElem?_eq_getElem inside]
    refine .ran (List.getElem?_eq_getElem inside) new ((backed.sound.linked.held job).mpr ⟨w, _, finishing, rfl⟩) ?_
    -- the job is running in this worker alone, so it is neither queued nor held
    have alone : ∀ w' worker, b.executor.workers[w']? = some worker → worker.job = some job → w' = w :=
      fun w' worker there mine => backed.sound.linked.alone w' w job ⟨worker, there, mine⟩ ⟨_, finishing, rfl⟩
    exact
      { sound := backed.sound
        objects := (List.length_set).trans backed.objects
        own := backed.own
        queued := fun j other there waiting => by
          rw [List.mem_append, List.mem_singleton, not_or]
          refine ⟨backed.queued j other there waiting, ?_⟩
          rintro rfl
          have running' := (backed.sound.linked.held j).mpr ⟨w, _, finishing, rfl⟩
          have there : b.executor.jobs[j]? = some other := there
          rw [entry_iff there, waiting] at running'
          cases running'
        held := fun w' j work holding => by
          obtain ⟨same, new'⟩ := backed.held w' j work holding
          refine ⟨same, ?_⟩
          rw [List.mem_append, List.mem_singleton, not_or]
          refine ⟨new', ?_⟩
          rintro rfl
          obtain rfl := alone w' _ holding rfl
          cases holding.symm.trans finishing
        running := fun w' body running' => by
          by_cases mine : w' = w
          · subst mine
            rw [show (b.answered w' job _).bodies = Function.update b.bodies w' none from rfl,
              Function.update_self] at running'
            cases running'
          · rw [show (b.answered w job _).bodies = Function.update b.bodies w none from rfl,
              Function.update_of_ne mine] at running'
            obtain ⟨same, there, new'⟩ := backed.running w' body running'
            refine ⟨same, there, ?_⟩
            rw [List.mem_append, List.mem_singleton, not_or]
            exact ⟨new', fun equal => mine (alone w' _ there (congrArg some equal))⟩
        fresh := fun j member => by
          rcases List.mem_append.mp member with before | last
          · exact backed.fresh j before
          · rw [List.mem_singleton.mp last]
            exact lt_of_entry present
        once := by
          refine List.nodup_append.mpr ⟨backed.once, List.nodup_singleton _, fun a before c last => ?_⟩
          rintro rfl
          rw [List.mem_singleton.mp last] at before
          exact new before }

/-- **Every worker's step.** -/
theorem work_cases (backed : Backed b ran) (a : WorkerAction) : WorkOutcome b ran (b.work a) := by
  have later := later_act backed.sound
  cases a with
  | take w => exact .quiet rfl rfl (later (.take w) _ rfl) (backed.take w)
  | execute w now =>
    have next := backed.execute w now
    have step := later (.execute w now)
    have same : (b.executor.act (.execute w now)).1 = (b.executor.executeTask w now).1 := rfl
    rw [same] at step
    unfold TaskBackend.work at next ⊢
    dsimp only at next ⊢
    generalize b.executor.executeTask w now = result at next step ⊢
    obtain ⟨e, run⟩ := result
    rcases run with _ | ⟨job, _ | id⟩
    · exact .quiet rfl rfl (step _ rfl) next
    · exact .quiet rfl rfl (step _ rfl) next
    · exact .quiet rfl rfl (step _ rfl) next
  | enter w now =>
    have next := backed.enter w now
    unfold TaskBackend.work
    dsimp only
    unfold TaskBackend.enterBody at next ⊢
    split
    case h_1 running =>
      rw [running] at next
      exact .quiet rfl rfl ⟨fun _ h => h, fun _ h => h, fun _ _ h => h⟩ next
    case h_2 => exact .quiet rfl rfl (.refl none b) backed
  | run w => exact backed.run w
  | finish w =>
    unfold TaskBackend.work
    dsimp only
    split
    case isTrue => exact .quiet rfl rfl (.refl none b) backed
    case isFalse idle =>
      have none : b.bodies w = none := by simpa using idle
      exact .quiet rfl rfl (later (.finish w) _ rfl) (backed.finish w none)
  | stop =>
    refine .quiet rfl rfl (later .stop _ ?_) backed.stop
    rw [act_stop]

end Steps

end HpServer.App
