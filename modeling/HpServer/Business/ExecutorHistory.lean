/-
**Jobs run in order, at most once, and never after they were withdrawn.**

* `submittedJobs`, `takenJobs`, `withdrawnJobs`, `executedJobs`, `readyJobs` — what a history says of the
  jobs.
* `Told` — what the executor and its history have to do with each other.
* `act_told` — **every operation tells its part**.
* `executor_history` — the order of the jobs, the single execution, and whose work is collected, along
  any interleaving.
-/

import HpServer.Business.ExecutorConservation

namespace HpServer.Business

open Machines Tables

variable {W : Type}

/-! ### Histories -/

def submittedJobs (log : List (TaskEvent W)) : List JobId :=
  log.filterMap fun event => match event with
    | .submitted id _ => some id
    | _ => none

/-- The jobs cancelled or stopped while they were queued. -/
def withdrawnJobs (log : List (TaskEvent W)) : List JobId :=
  log.filterMap fun event => match event with
    | .withdrawn id => some id
    | _ => none

def takenJobs (log : List (TaskEvent W)) : List JobId :=
  log.filterMap fun event => match event with
    | .taken id => some id
    | _ => none

def executedJobs (log : List (TaskEvent W)) : List JobId :=
  log.filterMap fun event => match event with
    | .executed id _ => some id
    | _ => none

/-- The jobs whose collection was answered with `kReady`. -/
def readyJobs (log : List (TaskEvent W)) : List JobId :=
  log.filterMap fun event => match event with
    | .collected (some id) result => if result.state = .ready then some id else none
    | _ => none

section Append

variable (log more : List (TaskEvent W))

@[simp] theorem submittedJobs_append :
    submittedJobs (log ++ more) = submittedJobs log ++ submittedJobs more := List.filterMap_append

@[simp] theorem withdrawnJobs_append :
    withdrawnJobs (log ++ more) = withdrawnJobs log ++ withdrawnJobs more := List.filterMap_append

@[simp] theorem takenJobs_append : takenJobs (log ++ more) = takenJobs log ++ takenJobs more :=
  List.filterMap_append

@[simp] theorem executedJobs_append :
    executedJobs (log ++ more) = executedJobs log ++ executedJobs more := List.filterMap_append

@[simp] theorem readyJobs_append : readyJobs (log ++ more) = readyJobs log ++ readyJobs more :=
  List.filterMap_append

end Append

/-- What is said of jobs that leave the queue. -/
theorem jobs_of_withdrawn (ids : List JobId) :
    withdrawnJobs (ids.map (TaskEvent.withdrawn (W := W))) = ids ∧
      submittedJobs (ids.map (TaskEvent.withdrawn (W := W))) = [] ∧
      takenJobs (ids.map (TaskEvent.withdrawn (W := W))) = [] ∧
      executedJobs (ids.map (TaskEvent.withdrawn (W := W))) = [] ∧
      readyJobs (ids.map (TaskEvent.withdrawn (W := W))) = [] := by
  unfold withdrawnJobs submittedJobs takenJobs executedJobs readyJobs
  simp [List.filterMap_map]

theorem jobs_of_taken (ids : List JobId) :
    takenJobs (ids.map (TaskEvent.taken (W := W))) = ids ∧
      submittedJobs (ids.map (TaskEvent.taken (W := W))) = [] ∧
      withdrawnJobs (ids.map (TaskEvent.taken (W := W))) = [] ∧
      executedJobs (ids.map (TaskEvent.taken (W := W))) = [] ∧
      readyJobs (ids.map (TaskEvent.taken (W := W))) = [] := by
  unfold withdrawnJobs submittedJobs takenJobs executedJobs readyJobs
  simp [List.filterMap_map]

/-! ### Jobs before and after -/

theorem Move.live {e : Executor W} {id : JobId} {old new : TaskJob W} {a : TaskAction W}
    (move : Move e id old a new) (live : new.state ≠ .retired) :
    old.state ≠ .retired ∧ new.work = old.work := by
  cases move with
  | same => exact ⟨live, rfl⟩
  | start w state => exact ⟨by rw [state]; decide, rfl⟩
  | ready w _ state => exact ⟨by rw [state]; decide, rfl⟩
  | collect => exact absurd rfl live
  | retire => exact absurd rfl live
  | mark => exact ⟨live, rfl⟩
  | release => exact absurd rfl live

/-- A retired job stays retired. -/
theorem act_retired {e : Executor W} (sound : Sound e) (a : TaskAction W) (id : JobId)
    (retired : Entry e.jobs id fun job => job.state = .retired) :
    Entry (e.act a).1.jobs id fun job => job.state = .retired := by
  obtain ⟨job, found, state⟩ := retired
  obtain ⟨next, at1, move⟩ := act_moves sound a found
  refine ⟨next, at1, ?_⟩
  by_contra live
  exact (move.live live).1 state

theorem cancelLocked_length (e : Executor W) (handle : Option JobId) :
    (e.cancelLocked handle).1.jobs.length = e.jobs.length ∧
      (e.cancelLocked handle).1.workers = e.workers := by
  unfold Executor.cancelLocked Executor.cancelOwned Executor.retireJob
  dsimp only
  split
  · split
    · exact ⟨rfl, rfl⟩
    · split
      · exact ⟨rfl, rfl⟩
      · split
        · exact ⟨List.length_set, rfl⟩
        · split <;> simp only [List.length_set, and_self]
  · exact ⟨rfl, rfl⟩

theorem stop_length (e : Executor W) :
    e.stopAcceptingAndCancel.jobs.length = e.jobs.length ∧
      e.stopAcceptingAndCancel.workers = e.workers := by
  have turn : ∀ (e : Executor W) (i : Nat),
      (e.cancelSlot i).jobs.length = e.jobs.length ∧ (e.cancelSlot i).workers = e.workers := by
    intro e i
    unfold Executor.cancelSlot
    split
    · exact cancelLocked_length e _
    · exact ⟨rfl, rfl⟩
  have loop : ∀ (turns : List Nat) (e : Executor W),
      (turns.foldl Executor.cancelSlot e).jobs.length = e.jobs.length ∧
        (turns.foldl Executor.cancelSlot e).workers = e.workers := by
    intro turns
    induction turns with
    | nil => exact fun e => ⟨rfl, rfl⟩
    | cons i turns ih => exact fun e => ⟨(ih _).1.trans (turn e i).1, (ih _).2.trans (turn e i).2⟩
  unfold Executor.stopAcceptingAndCancel
  exact loop (List.range slotCount) { e with stopping := true }

/-- Only an admission adds a job. -/
theorem act_length {e : Executor W} (linked : Linked e) (a : TaskAction W) :
    (e.act a).1.jobs.length = e.jobs.length ∨
      ∃ w now, a = .submit (some w) now ∧ e.counts.outstanding ≠ e.options.threads + e.options.queueCapacity ∧
        e.act a = (e.enqueue w now, [.submitted e.jobs.length (some w)]) := by
  cases a with
  | submit work now =>
    rcases act_submit e work now with same | ⟨w, rfl, -, -, below, same⟩
    · exact .inl (by rw [same])
    · exact .inr ⟨w, now, rfl, below, same⟩
  | cancel handle => exact .inl (cancelLocked_length e handle).1
  | collect handle =>
    have collected := collectTask_collected linked handle
    show (e.collectTask handle).1.jobs.length = _ ∨ _
    generalize e.collectTask handle = result at collected
    cases collected with
    | unowned => exact .inl rfl
    | early => exact .inl rfl
    | ready => exact .inl List.length_set
  | stop =>
    rw [act_stop]
    exact .inl (stop_length e).1
  | take w =>
    have took := takeTask_took linked w
    show (e.takeTask w).jobs.length = _ ∨ _
    generalize e.takeTask w = result at took
    cases took with
    | away => exact .inl rfl
    | idle => exact .inl rfl
    | returned => exact .inl rfl
    | took => exact .inl List.length_set
  | execute w now =>
    have executed := executeTask_executed linked w now
    show (e.executeTask w now).1.jobs.length = _ ∨ _
    generalize e.executeTask w now = result at executed
    cases executed <;> exact .inl rfl
  | finish w =>
    have finished := finishTask_finished linked w
    show (e.finishTask w).jobs.length = _ ∨ _
    generalize e.finishTask w = result at finished
    cases finished with
    | away => exact .inl rfl
    | retired => exact .inl List.length_set
    | ready => exact .inl List.length_set

/-- Every job is new, or comes from a job by an allowed move. -/
theorem act_origin {e : Executor W} (sound : Sound e) (a : TaskAction W) {id : JobId} {job : TaskJob W}
    (found : (e.act a).1.jobs[id]? = some job) :
    (∃ old, e.jobs[id]? = some old ∧ Move e id old a job) ∨
      (id = e.jobs.length ∧ ∃ w now, job.work = some w ∧
        e.act a = (e.enqueue w now, [.submitted e.jobs.length (some w)])) := by
  by_cases below : id < e.jobs.length
  · obtain ⟨next, at1, move⟩ := act_moves sound a (List.getElem?_eq_getElem below)
    rw [found] at at1
    exact .inl ⟨_, List.getElem?_eq_getElem below, Option.some.inj at1 ▸ move⟩
  · rcases act_length sound.linked a with same | ⟨w, now, -, -, same⟩
    · exact absurd (same ▸ lt_of_entry found) below
    · rw [same] at found
      rcases append_eq_some.mp found with old | ⟨last, rfl⟩
      · exact absurd (lt_of_entry old) below
      · exact .inr ⟨last, w, now, rfl, same⟩

/-! ### The order -/

/-- **Jobs are taken as they were submitted**, but for those withdrawn from the queue. -/
structure Ordered (e : Executor W) (log : List (TaskEvent W)) : Prop where
  submitted : submittedJobs log = List.range e.jobs.length
  order : takenJobs log ++ e.queue = (submittedJobs log).filter fun id => id ∉ withdrawnJobs log
  withdrawn : ∀ id ∈ withdrawnJobs log, Entry e.jobs id fun job => job.state = .retired

theorem Ordered.nodup {e : Executor W} {log : List (TaskEvent W)} (ordered : Ordered e log) :
    (takenJobs log ++ e.queue).Nodup := by
  rw [ordered.order, ordered.submitted]
  exact List.nodup_range.filter _

/-- What leaves the queue is taken out of the order. -/
theorem Ordered.left {e next : Executor W} {log : List (TaskEvent W)} (ordered : Ordered e log)
    (rest : next.queue = e.queue.filter fun id => id ∈ next.queue) :
    takenJobs log ++ next.queue = (submittedJobs log).filter fun id =>
      id ∉ withdrawnJobs log ++ leftQueue e next := by
  have taken : ∀ id ∈ takenJobs log, id ∉ leftQueue e next := by
    intro id member left
    exact (List.nodup_append.mp ordered.nodup).2.2 id member id (List.mem_filter.mp left).1 rfl
  have split : (submittedJobs log).filter (fun id => id ∉ withdrawnJobs log ++ leftQueue e next)
      = ((submittedJobs log).filter fun id => id ∉ withdrawnJobs log).filter
        fun id => id ∉ leftQueue e next := by
    rw [List.filter_filter]
    refine List.filter_congr fun id _ => ?_
    simp [List.mem_append, not_or, and_comm]
  rw [split, ← ordered.order, List.filter_append,
    List.filter_eq_self.mpr fun id member => decide_eq_true (taken id member)]
  congr 1
  rw [rest]
  refine List.filter_congr fun id member => ?_
  simp [leftQueue, member]

theorem leftQueue_same {e next : Executor W} (same : next.queue = e.queue) : leftQueue e next = [] := by
  unfold leftQueue
  rw [same]
  exact List.filter_eq_nil_iff.mpr fun id member => by simpa using member

/-- A withdrawal from the queue keeps the order and retires what it takes. -/
theorem Ordered.withdraw {e next : Executor W} {log : List (TaskEvent W)} (ordered : Ordered e log)
    (size : next.jobs.length = e.jobs.length)
    (rest : next.queue = e.queue.filter fun id => id ∈ next.queue)
    (kept : ∀ id, (Entry e.jobs id fun job => job.state = .retired) →
      Entry next.jobs id fun job => job.state = .retired)
    (gone : ∀ id ∈ leftQueue e next, Entry next.jobs id fun job => job.state = .retired) :
    Ordered next (log ++ (leftQueue e next).map .withdrawn) := by
  obtain ⟨withdrawn, submitted, taken, -, -⟩ := jobs_of_withdrawn (W := W) (leftQueue e next)
  refine ⟨?_, ?_, ?_⟩
  · rw [submittedJobs_append, submitted, List.append_nil, ordered.submitted, size]
  · rw [takenJobs_append, taken, List.append_nil, submittedJobs_append, submitted, List.append_nil,
      withdrawnJobs_append, withdrawn]
    exact ordered.left rest
  · rw [withdrawnJobs_append, withdrawn]
    intro id member
    rcases List.mem_append.mp member with before | now
    · exact kept id (ordered.withdrawn id before)
    · exact gone id now

/-- Where the queue and the order are not spoken of, they stay. -/
theorem Ordered.quiet {e next : Executor W} {log more : List (TaskEvent W)} (ordered : Ordered e log)
    (size : next.jobs.length = e.jobs.length) (queue : next.queue = e.queue)
    (kept : ∀ id, (Entry e.jobs id fun job => job.state = .retired) →
      Entry next.jobs id fun job => job.state = .retired)
    (submitted : submittedJobs more = []) (taken : takenJobs more = [])
    (withdrawn : withdrawnJobs more = []) : Ordered next (log ++ more) := by
  refine ⟨?_, ?_, ?_⟩
  · rw [submittedJobs_append, submitted, List.append_nil, ordered.submitted, size]
  · rw [takenJobs_append, taken, submittedJobs_append, submitted, withdrawnJobs_append, withdrawn, queue]
    simp only [List.append_nil]
    exact ordered.order
  · rw [withdrawnJobs_append, withdrawn, List.append_nil]
    exact fun id member => kept id (ordered.withdrawn id member)

theorem Cancelled.queue {e next : Executor W} {handle : Option JobId} (linked : Linked e)
    (cancelled : Cancelled e handle next) :
    next.queue = e.queue.filter (fun id => id ∈ next.queue) ∧
      ∀ id ∈ leftQueue e next, Entry next.jobs id fun job => job.state = .retired := by
  have same : ∀ {next : Executor W}, next.queue = e.queue →
      next.queue = e.queue.filter (fun id => id ∈ next.queue) ∧
        ∀ id ∈ leftQueue e next, Entry next.jobs id fun job => job.state = .retired := by
    intro next queue
    rw [leftQueue_same queue, queue]
    exact ⟨(List.filter_eq_self.mpr fun id member => decide_eq_true member).symm,
      fun id member => absurd member List.not_mem_nil⟩
  cases cancelled with
  | unowned => exact same rfl
  | marked => exact same rfl
  | dropped => exact same rfl
  | @withdrawn id job found state =>
    refine ⟨?_, fun j left => ?_⟩
    · show e.queue.erase id = e.queue.filter fun j => j ∈ e.queue.erase id
      rw [linked.nodup.erase_eq_filter]
      refine List.filter_congr fun j member => ?_
      simp [List.mem_filter, member, bne, beq_eq_decide]
    · obtain ⟨member, gone⟩ := List.mem_filter.mp left
      have gone : j ∉ e.queue.erase id := of_decide_eq_true gone
      have mine : j = id := by
        by_contra other
        exact gone ((linked.nodup.mem_erase_iff).mpr ⟨other, member⟩)
      rw [mine, Executor.replace, entry_set found, if_pos rfl]
      rfl

theorem stop_queue {e : Executor W} (linked : Linked e) (counted : Counted e) :
    e.stopAcceptingAndCancel.queue = [] := by
  obtain ⟨linked', -, halted⟩ := stop_halts linked counted
  have stopping := (stop_stopping linked counted).stopping
  refine List.eq_nil_iff_forall_not_mem.mpr fun id member => ?_
  refine halted stopping id (((linked'.queue id).mp member).imp fun job state => ?_)
  unfold Unsettled
  rw [state]
  exact ⟨by decide, fun running => by cases running.1⟩

theorem act_ordered {e : Executor W} {log : List (TaskEvent W)} (sound : Sound e)
    (ordered : Ordered e log) (a : TaskAction W) : Ordered (e.act a).1 (log ++ (e.act a).2) := by
  have kept := act_retired sound a
  have linked := sound.linked
  cases a with
  | submit work now =>
    rcases act_submit e work now with same | ⟨w, -, -, -, below, same⟩
    · rw [same, List.append_nil]
      exact ordered
    · rw [same] at kept ⊢
      have fresh : e.jobs.length ∉ withdrawnJobs log := by
        intro member
        obtain ⟨job, found, -⟩ := ordered.withdrawn _ member
        exact absurd (lt_of_entry found) (Nat.lt_irrefl _)
      refine ⟨?_, ?_, ?_⟩
      · rw [submittedJobs_append, ordered.submitted]
        show List.range e.jobs.length ++ [e.jobs.length] = List.range (e.jobs ++ [_]).length
        rw [List.length_append, List.length_singleton, List.range_succ]
      · rw [takenJobs_append, submittedJobs_append, withdrawnJobs_append]
        show takenJobs log ++ [] ++ (e.queue ++ [e.jobs.length]) = (submittedJobs log
          ++ [e.jobs.length]).filter fun id => id ∉ withdrawnJobs log ++ []
        rw [List.append_nil, List.append_nil, ← List.append_assoc, ordered.order, List.filter_append,
          List.filter_singleton, decide_eq_true fresh]
        rfl
      · rw [withdrawnJobs_append]
        show ∀ id ∈ withdrawnJobs log ++ [], _
        rw [List.append_nil]
        exact fun id member => kept id (ordered.withdrawn id member)
  | cancel handle =>
    have cancelled := cancelLocked_cancelled linked handle
    obtain ⟨rest, gone⟩ := cancelled.queue linked
    exact ordered.withdraw (cancelLocked_length e handle).1 rest kept gone
  | collect handle =>
    refine ordered.quiet ?_ ?_ kept rfl rfl rfl
    · rcases act_length linked (.collect handle) with same | ⟨w, now, other, -⟩
      · exact same
      · cases other
    · have collected := collectTask_collected linked handle
      show (e.collectTask handle).1.queue = e.queue
      generalize e.collectTask handle = result at collected
      cases collected <;> rfl
  | stop =>
    have empty := stop_queue linked sound.counted
    rw [act_stop] at kept ⊢
    refine ordered.withdraw (stop_length e).1 ?_ kept fun id left => ?_
    · rw [empty]
      simp
    · obtain ⟨job, found, queued⟩ := (linked.queue id).mp (List.mem_filter.mp left).1
      obtain ⟨after, at1, settles⟩ := stop_settles linked sound.counted found
      refine ⟨after, at1, ?_⟩
      cases settles with
      | release => rfl
      | mark running => rw [queued] at running; cases running
      | same =>
        have none := ((stop_halts linked sound.counted).1.queue id).mpr ⟨job, at1, queued⟩
        rw [empty] at none
        exact absurd none List.not_mem_nil
  | take w =>
    have took := takeTask_took linked w
    show Ordered (e.takeTask w) (log ++ (leftQueue e (e.takeTask w)).map .taken)
    have kept : ∀ id, (Entry e.jobs id fun job => job.state = .retired) →
        Entry (e.takeTask w).jobs id fun job => job.state = .retired := kept
    generalize e.takeTask w = next at took kept
    have idle : next.jobs.length = e.jobs.length → next.queue = e.queue →
        Ordered next (log ++ (leftQueue e next).map .taken) := by
      intro size same
      rw [leftQueue_same same]
      exact ordered.quiet size same kept rfl rfl rfl
    cases took with
    | away => exact idle rfl rfl
    | idle => exact idle rfl rfl
    | returned => exact idle rfl rfl
    | @took id queue job _ _ front found state =>
      have nodup := linked.nodup
      rw [front, List.nodup_cons] at nodup
      have first : leftQueue e (e.replace id { job with state := .running } queue
          (e.workers.set w (.holding id job.work))
          { e.counts with queued := e.counts.queued - 1, running := e.counts.running + 1 }) = [id] := by
        show e.queue.filter (fun j => j ∉ queue) = [id]
        rw [front, List.filter_cons_of_pos (by simpa using nodup.1)]
        congr 1
        exact List.filter_eq_nil_iff.mpr fun j member => by simpa using member
      rw [first]
      refine ⟨?_, ?_, ?_⟩
      · rw [submittedJobs_append, ordered.submitted]
        show List.range e.jobs.length ++ [] = List.range (e.jobs.set id _).length
        rw [List.append_nil, List.length_set]
      · rw [takenJobs_append, submittedJobs_append, withdrawnJobs_append]
        show takenJobs log ++ [id] ++ queue = (submittedJobs log ++ []).filter
          fun id => id ∉ withdrawnJobs log ++ []
        rw [List.append_nil, List.append_nil, ← ordered.order, front, List.append_assoc]
        rfl
      · rw [withdrawnJobs_append]
        show ∀ id ∈ withdrawnJobs log ++ [], _
        rw [List.append_nil]
        exact fun id member => kept id (ordered.withdrawn id member)
  | execute w now =>
    have executed := executeTask_executed linked w now
    have kept : ∀ id, (Entry e.jobs id fun job => job.state = .retired) →
        Entry (e.executeTask w now).1.jobs id fun job => job.state = .retired := kept
    show Ordered (e.executeTask w now).1
      (log ++ (e.executeTask w now).2.toList.map fun run => .executed run.1 run.2)
    generalize e.executeTask w now = result at executed kept
    cases executed <;> exact ordered.quiet rfl rfl kept rfl rfl rfl
  | finish w =>
    have finished := finishTask_finished linked w
    have kept : ∀ id, (Entry e.jobs id fun job => job.state = .retired) →
        Entry (e.finishTask w).jobs id fun job => job.state = .retired := kept
    show Ordered (e.finishTask w) (log ++ [])
    generalize e.finishTask w = next at finished kept
    cases finished with
    | away => exact ordered.quiet rfl rfl kept rfl rfl rfl
    | retired => exact ordered.quiet List.length_set rfl kept rfl rfl rfl
    | ready => exact ordered.quiet List.length_set rfl kept rfl rfl rfl

/-! ### The work of a job -/

/-- **A live job has the work it was submitted with.** -/
def Worked (e : Executor W) (log : List (TaskEvent W)) : Prop :=
  ∀ (id : JobId) (job : TaskJob W), e.jobs[id]? = some job → job.state ≠ .retired →
    ∃ work, job.work = some work ∧ .submitted id (some work) ∈ log

theorem act_worked {e : Executor W} {log : List (TaskEvent W)} (sound : Sound e) (worked : Worked e log)
    (a : TaskAction W) : Worked (e.act a).1 (log ++ (e.act a).2) := by
  intro id job found live
  rcases act_origin sound a found with ⟨old, before, move⟩ | ⟨rfl, w, now, work, same⟩
  · obtain ⟨alive, kept⟩ := move.live live
    obtain ⟨work, mine, told⟩ := worked id old before alive
    exact ⟨work, kept.trans mine, List.mem_append_left _ told⟩
  · refine ⟨w, work, List.mem_append_right _ ?_⟩
    rw [same]
    exact List.mem_singleton.mpr rfl

/-! ### Execution -/

/-- **A job is executed at most once, after it was taken, on its own work.** -/
structure Ran (e : Executor W) (log : List (TaskEvent W)) : Prop where
  once : (executedJobs log).Nodup
  executed : ∀ id ∈ executedJobs log, id ∈ takenJobs log
  holding : ∀ (w : Nat) (id : JobId) (work : Option W), e.workers[w]? = some (.holding id work) →
    id ∉ executedJobs log ∧ Entry e.jobs id fun job => job.work = work
  ran : ∀ id work, .executed id work ∈ log → .submitted id work ∈ log

/-- Where nothing is executed and no job is taken, nothing changes. -/
theorem Ran.quiet {e next : Executor W} {log more : List (TaskEvent W)} (ran : Ran e log)
    (linked : Linked next)
    (kept : ∀ (id : JobId) (job : TaskJob W), e.jobs[id]? = some job → ∃ after,
      next.jobs[id]? = some after ∧ (after.state ≠ .retired → after.work = job.work))
    (holding : ∀ (w : Nat) (id : JobId) (work : Option W), next.workers[w]? = some (.holding id work) →
      e.workers[w]? = some (.holding id work))
    (silent : executedJobs more = []) : Ran next (log ++ more) := by
  have none : ∀ id work, TaskEvent.executed id work ∉ more := by
    intro id work member
    have named : id ∈ executedJobs more := List.mem_filterMap.mpr ⟨_, member, rfl⟩
    rw [silent] at named
    exact absurd named List.not_mem_nil
  refine ⟨?_, ?_, fun w id work held => ?_, fun id work member => ?_⟩
  · rw [executedJobs_append, silent, List.append_nil]
    exact ran.once
  · rw [executedJobs_append, silent, List.append_nil, takenJobs_append]
    exact fun id member => List.mem_append_left _ (ran.executed id member)
  · obtain ⟨fresh, job, found, work⟩ := ran.holding w id work (holding w id work held)
    obtain ⟨after, at1, same⟩ := kept id job found
    refine ⟨by rwa [executedJobs_append, silent, List.append_nil], after, at1, ?_⟩
    have running := (linked.held id).mpr ⟨w, _, held, rfl⟩
    rw [entry_iff at1] at running
    exact (same (by rw [running]; decide)).trans work
  · rcases List.mem_append.mp member with before | now
    · exact List.mem_append_left _ (ran.ran id work before)
    · exact absurd now (none id work)

theorem holding_set {workers : List (Worker W)} {w : Nat} {new : Worker W}
    (idle : ∀ id work, new ≠ .holding id work) (w' : Nat) (id : JobId) (work : Option W)
    (held : (workers.set w new)[w']? = some (.holding id work)) :
    workers[w']? = some (.holding id work) := by
  rcases set_eq_some.mp held with ⟨-, -, same⟩ | ⟨-, before⟩
  · exact absurd same.symm (idle id work)
  · exact before

/-- A running job has been taken. -/
theorem Ordered.running_taken {e : Executor W} {log : List (TaskEvent W)} (ordered : Ordered e log)
    (linked : Linked e) {id : JobId} {job : TaskJob W} (found : e.jobs[id]? = some job)
    (running : job.state = .running) : id ∈ takenJobs log := by
  have member : id ∈ takenJobs log ++ e.queue := by
    rw [ordered.order, List.mem_filter, ordered.submitted, List.mem_range]
    refine ⟨lt_of_entry found, decide_eq_true fun withdrawn => ?_⟩
    have retired := ordered.withdrawn id withdrawn
    rw [entry_iff found, running] at retired
    cases retired
  refine (List.mem_append.mp member).resolve_right fun queued => ?_
  rw [linked.mem_queue found, running] at queued
  cases queued

theorem act_ran {e : Executor W} {log : List (TaskEvent W)} (sound : Sound e) (ordered : Ordered e log)
    (worked : Worked e log) (ran : Ran e log) (a : TaskAction W) :
    Ran (e.act a).1 (log ++ (e.act a).2) := by
  have linked := sound.linked
  have next := (act_sound sound a).linked
  have kept : ∀ (id : JobId) (job : TaskJob W), e.jobs[id]? = some job → ∃ after,
      (e.act a).1.jobs[id]? = some after ∧ (after.state ≠ .retired → after.work = job.work) := by
    intro id job found
    obtain ⟨after, at1, move⟩ := act_moves sound a found
    exact ⟨after, at1, fun live => (move.live live).2⟩
  cases a with
  | submit work now =>
    rcases act_submit e work now with same | ⟨w, -, -, -, -, same⟩
    · rw [same, List.append_nil]
      exact ran
    · rw [same] at kept next ⊢
      exact ran.quiet next kept (fun w id work held => held) rfl
  | cancel handle =>
    refine ran.quiet next kept (fun w id work held => ?_) (jobs_of_withdrawn _).2.2.2.1
    rw [← (cancelLocked_length e handle).2]
    exact held
  | collect handle =>
    refine ran.quiet next kept (fun w id work held => ?_) rfl
    have collected := collectTask_collected linked handle
    have held : (e.collectTask handle).1.workers[w]? = some (.holding id work) := held
    generalize e.collectTask handle = result at collected held
    cases collected <;> exact held
  | stop =>
    rw [act_stop] at kept next ⊢
    refine ran.quiet next kept (fun w id work held => ?_) (jobs_of_withdrawn _).2.2.2.1
    rw [← (stop_length e).2]
    exact held
  | take w =>
    have took := takeTask_took linked w
    show Ran (e.takeTask w) (log ++ (leftQueue e (e.takeTask w)).map .taken)
    have silent := (jobs_of_taken (W := W) (leftQueue e (e.takeTask w))).2.2.2.1
    have kept : ∀ (id : JobId) (job : TaskJob W), e.jobs[id]? = some job → ∃ after,
      (e.takeTask w).jobs[id]? = some after ∧ (after.state ≠ .retired → after.work = job.work) := kept
    have next : Linked (e.takeTask w) := next
    generalize (leftQueue e (e.takeTask w)).map TaskEvent.taken = more at silent
    generalize e.takeTask w = after at took kept next
    cases took with
    | away => exact ran.quiet next kept (fun w id work held => held) silent
    | idle => exact ran.quiet next kept (fun w id work held => held) silent
    | returned => exact ran.quiet next kept (holding_set fun id work h => by cases h) silent
    | @took id queue job waiting open1 front found state =>
      -- the rule for the other workers applies before this one takes its job
      have before : Ran e (log ++ more) := ran.quiet linked
        (fun id job found => ⟨job, found, fun _ => rfl⟩) (fun w id work held => held) silent
      refine ⟨before.once, before.executed, fun w' id' work' held => ?_, before.ran⟩
      rcases set_eq_some.mp held with ⟨-, -, same⟩ | ⟨-, other⟩
      · obtain ⟨rfl, rfl⟩ := Worker.holding.inj same
        refine ⟨fun executed => ?_, ?_⟩
        · rw [executedJobs_append, silent, List.append_nil] at executed
          refine (List.nodup_append.mp ordered.nodup).2.2 id' (ran.executed id' executed) id' ?_ rfl
          rw [front]
          exact List.mem_cons_self
        · rw [Executor.replace, entry_set found, if_pos rfl]
      · obtain ⟨fresh, job', at1, work⟩ := before.holding w' id' work' other
        obtain ⟨after, at2, same⟩ := kept id' job' at1
        have running := (next.held id').mpr ⟨w', _, held, rfl⟩
        rw [entry_iff at2] at running
        exact ⟨fresh, after, at2, (same (by rw [running]; decide)).trans work⟩
  | execute w now =>
    have executed := executeTask_executed linked w now
    have next : Linked (e.executeTask w now).1 := next
    show Ran (e.executeTask w now).1
      (log ++ (e.executeTask w now).2.toList.map fun run => .executed run.1 run.2)
    generalize e.executeTask w now = result at executed next
    cases executed with
    | away =>
      exact ran.quiet next (fun id job found => ⟨job, found, fun _ => rfl⟩) (fun w id work held => held) rfl
    | skipped =>
      exact ran.quiet next (fun id job found => ⟨job, found, fun _ => rfl⟩)
        (holding_set fun id work h => by cases h) rfl
    | @ran id work job held found running runs =>
      obtain ⟨fresh, mine⟩ := ran.holding w id work held
      rw [entry_iff found] at mine
      obtain ⟨own, isWork, told⟩ := worked id job found (by rw [running]; decide)
      have taken := ordered.running_taken linked found running
      have silent : takenJobs ([.executed id work] : List (TaskEvent W)) = [] := rfl
      have named : executedJobs ([.executed id work] : List (TaskEvent W)) = [id] := rfl
      show Ran _ (log ++ [.executed id work])
      refine ⟨?_, ?_, fun w' id' work' other => ?_, fun id' work' member => ?_⟩
      · rw [executedJobs_append, named]
        refine List.nodup_append.mpr ⟨ran.once, List.nodup_singleton _, fun a before b last => ?_⟩
        rintro rfl
        rw [List.mem_singleton.mp last] at before
        exact fresh before
      · rw [executedJobs_append, named, takenJobs_append, silent, List.append_nil]
        intro id' member
        rcases List.mem_append.mp member with before | last
        · exact ran.executed id' before
        · rw [List.mem_singleton.mp last]
          exact taken
      · rcases set_eq_some.mp other with ⟨-, -, same⟩ | ⟨apart, before⟩
        · cases same
        · obtain ⟨fresh', entry⟩ := ran.holding w' id' work' before
          refine ⟨?_, entry⟩
          rw [executedJobs_append, named, List.mem_append, List.mem_singleton]
          rintro (member | rfl)
          · exact fresh' member
          · exact apart (linked.alone w w' id' ⟨_, held, rfl⟩ ⟨_, before, rfl⟩)
      · rcases List.mem_append.mp member with before | last
        · exact List.mem_append_left _ (ran.ran id' work' before)
        · obtain ⟨rfl, rfl⟩ := TaskEvent.executed.inj (List.mem_singleton.mp last)
          rw [← mine, isWork]
          exact List.mem_append_left _ told
  | finish w =>
    have finished := finishTask_finished linked w
    have next : Linked (e.finishTask w) := next
    have kept : ∀ (id : JobId) (job : TaskJob W), e.jobs[id]? = some job → ∃ after,
      (e.finishTask w).jobs[id]? = some after ∧ (after.state ≠ .retired → after.work = job.work) := kept
    show Ran (e.finishTask w) (log ++ [])
    generalize e.finishTask w = after at finished next kept
    refine ran.quiet next kept ?_ rfl
    cases finished with
    | away => exact fun w id work held => held
    | retired => exact holding_set fun id work h => by cases h
    | ready => exact holding_set fun id work h => by cases h

/-! ### Delivery -/

/-- **At most one collection of a job is answered with `kReady`, and with the work of that job.** -/
structure Delivered (e : Executor W) (log : List (TaskEvent W)) : Prop where
  single : (readyJobs log).Nodup
  collected : ∀ id ∈ readyJobs log, Entry e.jobs id fun job => job.state = .retired
  result : ∀ (handle : Option JobId) (result : TaskCollection W), .collected handle result ∈ log →
    (result.state = .ready ∧ ∃ id work, handle = some id ∧ result.work = some work ∧
      .submitted id (some work) ∈ log) ∨ (result.state ≠ .ready ∧ result.work = none)

/-- Where nothing is collected, nothing changes. -/
theorem Delivered.quiet {e next : Executor W} {log more : List (TaskEvent W)}
    (delivered : Delivered e log)
    (kept : ∀ id, (Entry e.jobs id fun job => job.state = .retired) →
      Entry next.jobs id fun job => job.state = .retired)
    (silent : ∀ handle result, TaskEvent.collected handle result ∉ more) :
    Delivered next (log ++ more) := by
  have none : readyJobs more = [] := by
    refine List.filterMap_eq_nil_iff.mpr fun event member => ?_
    cases event with
    | collected handle result => exact absurd member (silent handle result)
    | _ => rfl
  refine ⟨?_, ?_, fun handle result member => ?_⟩
  · rw [readyJobs_append, none, List.append_nil]
    exact delivered.single
  · rw [readyJobs_append, none, List.append_nil]
    exact fun id member => kept id (delivered.collected id member)
  · rcases List.mem_append.mp member with before | now
    · refine (delivered.result handle result before).imp_left ?_
      rintro ⟨ready, id, work, mine, own, told⟩
      exact ⟨ready, id, work, mine, own, List.mem_append_left _ told⟩
    · exact absurd now (silent handle result)

theorem act_delivered {e : Executor W} {log : List (TaskEvent W)} (sound : Sound e)
    (worked : Worked e log) (delivered : Delivered e log) (a : TaskAction W) :
    Delivered (e.act a).1 (log ++ (e.act a).2) := by
  have linked := sound.linked
  have kept := act_retired sound a
  cases a with
  | submit work now =>
    rcases act_submit e work now with same | ⟨w, -, -, -, -, same⟩
    · rw [same] at kept ⊢
      exact delivered.quiet kept fun handle result member => absurd member List.not_mem_nil
    · rw [same] at kept ⊢
      exact delivered.quiet kept fun handle result member => by
        cases List.mem_singleton.mp member
  | cancel handle =>
    refine delivered.quiet kept fun handle result member => ?_
    obtain ⟨id, -, same⟩ := List.mem_map.mp member
    cases same
  | stop =>
    rw [act_stop] at kept ⊢
    refine delivered.quiet kept fun handle result member => ?_
    obtain ⟨id, -, same⟩ := List.mem_map.mp member
    cases same
  | take w =>
    refine delivered.quiet kept fun handle result member => ?_
    obtain ⟨id, -, same⟩ := List.mem_map.mp member
    cases same
  | execute w now =>
    refine delivered.quiet kept fun handle result member => ?_
    obtain ⟨run, -, same⟩ := List.mem_map.mp member
    cases same
  | finish w => exact delivered.quiet kept fun handle result member => absurd member List.not_mem_nil
  | collect handle =>
    have collected := collectTask_collected linked handle
    have kept : ∀ id, (Entry e.jobs id fun job => job.state = .retired) →
        Entry (e.collectTask handle).1.jobs id fun job => job.state = .retired := kept
    show Delivered (e.collectTask handle).1 (log ++ [.collected handle (e.collectTask handle).2])
    -- the answers that deliver nothing
    have empty : ∀ {next : Executor W} {state : TaskJobState}, state ≠ .ready →
        (∀ id, (Entry e.jobs id fun job => job.state = .retired) →
          Entry next.jobs id fun job => job.state = .retired) →
        Delivered next (log ++ [.collected handle { state := state }]) := by
      intro next state other kept
      have none : readyJobs ([.collected handle { state := state }] : List (TaskEvent W)) = [] := by
        unfold readyJobs
        cases handle <;> simp [other]
      refine ⟨?_, ?_, fun handle' result member => ?_⟩
      · rw [readyJobs_append, none, List.append_nil]
        exact delivered.single
      · rw [readyJobs_append, none, List.append_nil]
        exact fun id member => kept id (delivered.collected id member)
      · rcases List.mem_append.mp member with before | last
        · refine (delivered.result handle' result before).imp_left ?_
          rintro ⟨ready, id, work, mine, own, told⟩
          exact ⟨ready, id, work, mine, own, List.mem_append_left _ told⟩
        · obtain ⟨-, rfl⟩ := TaskEvent.collected.inj (List.mem_singleton.mp last)
          exact .inr ⟨other, rfl⟩
    generalize e.collectTask handle = answer at collected kept
    cases collected with
    | unowned => exact empty (by decide) kept
    | early _ state => exact empty (by rcases state with h | h <;> rw [h] <;> decide) kept
    | @ready id job found state =>
      obtain ⟨work, own, told⟩ := worked id job found (by rw [state]; decide)
      have named : readyJobs ([.collected (some id) { state := .ready, work := job.work }] :
          List (TaskEvent W)) = [id] := rfl
      refine ⟨?_, ?_, fun handle' result member => ?_⟩
      · rw [readyJobs_append, named]
        refine List.nodup_append.mpr ⟨delivered.single, List.nodup_singleton _, fun a before b last => ?_⟩
        rintro rfl
        rw [List.mem_singleton.mp last] at before
        have retired := delivered.collected id before
        rw [entry_iff found, state] at retired
        cases retired
      · rw [readyJobs_append, named]
        intro id' member
        rcases List.mem_append.mp member with before | last
        · exact kept id' (delivered.collected id' before)
        · rw [List.mem_singleton.mp last, Executor.replace, entry_set found, if_pos rfl]
          rfl
      · rcases List.mem_append.mp member with before | last
        · refine (delivered.result handle' result before).imp_left ?_
          rintro ⟨ready, id, work, mine, own, told⟩
          exact ⟨ready, id, work, mine, own, List.mem_append_left _ told⟩
        · obtain ⟨rfl, rfl⟩ := TaskEvent.collected.inj (List.mem_singleton.mp last)
          exact .inl ⟨rfl, id, work, rfl, own, List.mem_append_left _ told⟩

/-! ### Any interleaving -/

/-- **The executor and its history.** -/
structure Told (e : Executor W) (log : List (TaskEvent W)) : Prop where
  sound : Sound e
  ordered : Ordered e log
  worked : Worked e log
  ran : Ran e log
  delivered : Delivered e log

theorem told_initial {o : TaskExecutorOptions} {e : Executor W} (made : makeExecutor o = .ok e) :
    Told e [] := by
  have sound := sound_initial made
  unfold makeExecutor at made
  split at made
  swap
  · cases made
  obtain rfl := Except.ok.inj made
  refine ⟨sound, ⟨rfl, rfl, fun id member => absurd member List.not_mem_nil⟩,
    fun id job found => absurd (lt_of_entry found) (Nat.not_lt_zero id),
    ⟨List.nodup_nil, fun id member => absurd member List.not_mem_nil, fun w id work held => ?_,
      fun id work member => absurd member List.not_mem_nil⟩,
    ⟨List.nodup_nil, fun id member => absurd member List.not_mem_nil,
      fun handle result member => absurd member List.not_mem_nil⟩⟩
  cases replicate_eq_some held

/-- **Every operation tells its part.** -/
theorem act_told {e : Executor W} {log : List (TaskEvent W)} (a : TaskAction W) (told : Told e log) :
    Told (e.act a).1 (log ++ (e.act a).2) where
  sound := act_sound told.sound a
  ordered := act_ordered told.sound told.ordered a
  worked := act_worked told.sound told.worked a
  ran := act_ran told.sound told.ordered told.worked told.ran a
  delivered := act_delivered told.sound told.worked told.delivered a

/-- **Jobs run in order, at most once, and never after a queued cancel.** Along any interleaving: the jobs
taken and those still queued are the submitted ones in their order, without those cancelled or stopped
while queued. No job is executed twice, none that was withdrawn, and each on its own work. A collection
answered with `kReady` returns the work its job was submitted with, at most one per job; any other answer
and any answer for a retired handle returns nothing. -/
theorem executor_history (o : TaskExecutorOptions) (e₀ : Executor W) (made : makeExecutor o = .ok e₀)
    (actions : List (TaskAction W)) :
    let e := ((executor W).run e₀ actions).1
    let log := ((executor W).run e₀ actions).2
    submittedJobs log = List.range e.jobs.length ∧
    takenJobs log ++ e.queue = (submittedJobs log).filter (fun id => id ∉ withdrawnJobs log) ∧
    (executedJobs log).Nodup ∧
    (∀ id ∈ withdrawnJobs log, id ∉ executedJobs log) ∧
    (∀ id work, .executed id work ∈ log → .submitted id work ∈ log) ∧
    (readyJobs log).Nodup ∧
    (∀ handle result, .collected handle result ∈ log →
      (result.state = .ready ∧ ∃ id work, handle = some id ∧ result.work = some work ∧
        .submitted id (some work) ∈ log) ∨ (result.state ≠ .ready ∧ result.work = none)) ∧
    (∀ (id : JobId) (job : TaskJob W), e.jobs[id]? = some job → job.state = .retired →
      e.collectTask (some id) = (e, { state := .retired })) := by
  intro e log
  have told : Told e log := Machine.run_history (P := Told) (fun e log a => act_told a) actions e₀ []
    (told_initial made)
  refine ⟨told.ordered.submitted, told.ordered.order, told.ran.once, fun id withdrawn executed => ?_,
    told.ran.ran, told.delivered.single, told.delivered.result, fun id job found retired => ?_⟩
  · have taken := List.mem_append_left e.queue (told.ran.executed id executed)
    rw [told.ordered.order, List.mem_filter] at taken
    exact of_decide_eq_true taken.2 withdrawn
  · have collected := collectTask_collected told.sound.linked (some id)
    generalize e.collectTask (some id) = answer at collected
    cases collected with
    | unowned => rfl
    | early at1 state =>
      rw [found] at at1
      rw [← Option.some.inj at1, retired] at state
      rcases state with h | h <;> cases h
    | ready at1 state =>
      rw [found] at at1
      rw [← Option.some.inj at1, retired] at state
      cases state

/-- The second job takes the slot of the first, which was cancelled while queued: the first handle gets
nothing, the second its own work. -/
theorem executor_history_reuse :
    let o : TaskExecutorOptions := { threads := 1, queueCapacity := 2, timeout := 10 }
    let e₀ : Executor Nat := { options := o, workers := [.waiting] }
    let actions : List (TaskAction Nat) :=
      [.submit (some 7) 0, .cancel (some 0), .submit (some 8) 1, .take 0, .execute 0 3, .finish 0,
        .collect (some 0), .collect (some 1), .collect (some 1)]
    makeExecutor o = .ok e₀ ∧ (executedJobs ((executor Nat).run e₀ actions).2).Nodup ∧
      withdrawnJobs ((executor Nat).run e₀ actions).2 = [0] ∧
      executedJobs ((executor Nat).run e₀ actions).2 = [1] ∧
      readyJobs ((executor Nat).run e₀ actions).2 = [1] := by
  intro o e₀ actions
  have made : makeExecutor o = .ok e₀ := rfl
  obtain ⟨-, -, once, -⟩ := executor_history o e₀ made actions
  exact ⟨made, once, by decide +kernel, by decide +kernel, by decide +kernel⟩

end HpServer.Business
