/-
**Where the jobs of the executor are.**

The queue, the slot table, the counters and the workers each tell a part of where the jobs are.

* `Linked` — they tell the same: the queue holds the queued jobs, the slots the live ones, the workers
  the running ones.
* `Counted` — the counters count them.
* `Cancelled`, `Collected`, `Submitted`, `Took`, `Executed`, `Finished` — **what each operation can do**;
  every fact about the operations is read off these.
* `Linked.replace`, `Counted.replace` — a change of one job, in all the places it is kept; from them
  both are preserved by every operation.
-/

import HpServer.Business.TaskExecutor
import Mathlib.Data.List.Nodup

namespace HpServer.Business

open Machines Tables

variable {W : Type}

/-! ### Where the jobs are -/

/-- The job a worker has taken. -/
def Worker.job : Worker W → Option JobId
  | .waiting => none
  | .holding id _ => some id
  | .finishing id => some id
  | .returned => none

namespace Executor

def inState (e : Executor W) (state : TaskJobState) : Nat := e.jobs.countP fun job => job.state = state

def occupied (e : Executor W) : Nat := e.slots.countP Option.isSome

def busy (e : Executor W) : Nat := e.workers.countP fun worker => worker.job.isSome

end Executor

/-- **Queue, slots and workers hold the jobs in the states they are for.** -/
structure Linked (e : Executor W) : Prop where
  options : e.options.Admitted
  slots : e.slots.length = slotCount
  workers : e.workers.length = e.options.threads
  nodup : e.queue.Nodup
  queue : ∀ id, id ∈ e.queue ↔ Entry e.jobs id fun job => job.state = .queued
  owned : ∀ i id, e.slots[i]? = some (some id) ↔
    Entry e.jobs id fun job => job.state ≠ .retired ∧ job.slot = i
  held : ∀ id, (Entry e.jobs id fun job => job.state = .running) ↔
    ∃ w, Entry e.workers w fun worker => worker.job = some id
  alone : ∀ w w' id, (Entry e.workers w fun worker => worker.job = some id) →
    (Entry e.workers w' fun worker => worker.job = some id) → w = w'

theorem linked_initial {o : TaskExecutorOptions} {e : Executor W} (made : makeExecutor o = .ok e) :
    Linked e := by
  unfold makeExecutor at made
  split at made
  swap
  · cases made
  next admitted =>
  obtain rfl := Except.ok.inj made
  have none : ∀ id (P : TaskJob W → Prop), ¬Entry ([] : List (TaskJob W)) id P := by
    rintro id P ⟨job, found, -⟩
    cases found
  have idle : ∀ w id, ¬Entry (List.replicate o.threads (Worker.waiting : Worker W)) w
      fun worker => worker.job = some id := by
    rintro w id ⟨worker, found, job⟩
    obtain rfl := replicate_eq_some found
    cases job
  exact
    { options := admitted
      slots := List.length_replicate
      workers := List.length_replicate
      nodup := List.nodup_nil
      queue := fun id => iff_of_false List.not_mem_nil (none id _)
      owned := fun i id => iff_of_false
        (fun found => Option.some_ne_none _ (replicate_eq_some found)) (none id _)
      held := fun id => iff_of_false (none id _) fun ⟨w, worker⟩ => idle w id worker
      alone := fun w _ id worker => absurd worker (idle w id) }

/-- A handle is owned exactly where its job is live. -/
theorem ownsJob_iff {e : Executor W} (linked : Linked e) (handle : Option JobId) :
    e.ownsJob handle = true ↔
      ∃ id job, handle = some id ∧ e.jobs[id]? = some job ∧ job.state ≠ .retired := by
  unfold Executor.ownsJob
  cases handle with
  | none => simp
  | some id =>
    cases found : e.jobs[id]? with
    | none => simp [found]
    | some job =>
      have owned := linked.owned job.slot id
      rw [entry_iff found] at owned
      simp only [Bool.and_eq_true, decide_eq_true_eq, beq_iff_eq, owned, and_true,
        Option.some.injEq, exists_and_left, exists_eq_left', found]
      refine ⟨fun h => h.2, fun live => ⟨?_, live⟩⟩
      exact lt_of_entry (owned.mpr ⟨live, rfl⟩)

/-! ### One job changes -/

/-- What a worker list holds. -/
def Holds (workers : List (Worker W)) (id : JobId) : Prop :=
  ∃ w, Entry workers w fun worker => worker.job = some id

/-- An executor in which one job, the queue, the workers and the counters are replaced; the slot of a
retired job is free. -/
def Executor.replace (e : Executor W) (id : JobId) (job : TaskJob W) (queue : List JobId)
    (workers : List (Worker W)) (counts : TaskExecutorSnapshot) : Executor W :=
  { e with
    jobs := e.jobs.set id job
    slots := if job.state = .retired then e.slots.set job.slot none else e.slots
    queue := queue
    workers := workers
    counts := counts }

/-- **A live job that changes in one place changes in all of them.** -/
theorem Linked.replace {e : Executor W} (linked : Linked e) {id : JobId} {old new : TaskJob W}
    {queue : List JobId} {workers : List (Worker W)} (counts : TaskExecutorSnapshot)
    (found : e.jobs[id]? = some old) (live : old.state ≠ .retired) (slot : new.slot = old.slot)
    (nodup : queue.Nodup)
    (queued : ∀ j, j ∈ queue ↔ if j = id then new.state = .queued else j ∈ e.queue)
    (size : workers.length = e.workers.length)
    (held : ∀ j, Holds workers j ↔ if j = id then new.state = .running else Holds e.workers j)
    (alone : ∀ w w' j, (Entry workers w fun worker => worker.job = some j) →
      (Entry workers w' fun worker => worker.job = some j) → w = w') :
    Linked (e.replace id new queue workers counts) where
  options := linked.options
  slots := by
    show (if new.state = TaskJobState.retired then e.slots.set new.slot none else e.slots).length = _
    split
    · rw [List.length_set, linked.slots]
    · exact linked.slots
  workers := size.trans linked.workers
  nodup := nodup
  queue j := by
    show j ∈ queue ↔ Entry (e.jobs.set id new) j _
    rw [entry_set found, queued, linked.queue]
  owned i j := by
    show (if new.state = TaskJobState.retired then e.slots.set new.slot none else e.slots)[i]?
      = some (some j) ↔ Entry (e.jobs.set id new) j _
    have mine : e.slots[old.slot]? = some (some id) :=
      (linked.owned old.slot id).mpr ⟨old, found, live, rfl⟩
    rw [entry_set found, slot]
    split
    · next retired =>
      rw [set_eq_some, linked.owned]
      by_cases same : j = id
      · -- the job itself: its slot is free now
        rw [if_pos same, same, entry_iff found]
        refine iff_of_false ?_ fun kept => kept.1 retired
        rintro (⟨-, -, other⟩ | ⟨other, -, taken⟩)
        · cases other
        · exact other taken
      · rw [if_neg same]
        refine ⟨?_, fun kept => .inr ⟨?_, kept⟩⟩
        · rintro (⟨-, -, other⟩ | ⟨-, kept⟩)
          · cases other
          · exact kept
        · rintro rfl
          have taken := (linked.owned old.slot j).mpr kept
          rw [mine] at taken
          exact same (Option.some.inj (Option.some.inj taken)).symm
    · next open1 =>
      rw [linked.owned]
      by_cases same : j = id
      · rw [if_pos same, same, entry_iff found]
        simp [open1, live]
      · rw [if_neg same]
  held j := by
    show Entry (e.jobs.set id new) j _ ↔ Holds workers j
    rw [entry_set found, held]
    by_cases same : j = id
    · rw [if_pos same, if_pos same]
    · rw [if_neg same, if_neg same]
      exact linked.held j
  alone := alone

/-! ### The counters -/

/-- **The counters count the jobs**, each in every way it is kept. -/
structure Counted (e : Executor W) : Prop where
  queue : e.counts.queued = e.queue.length
  queued : e.counts.queued = e.inState .queued
  running : e.counts.running = e.inState .running
  busy : e.counts.running = e.busy
  ready : e.counts.ready = e.inState .ready
  outstanding : e.counts.outstanding = e.occupied
  admitted : e.counts.admitted = e.jobs.length
  released : e.counts.released = e.inState .retired
  balance : e.counts.admitted = e.counts.released + e.counts.outstanding
  bound : e.counts.outstanding ≤ e.options.threads + e.options.queueCapacity

theorem counted_initial {o : TaskExecutorOptions} {e : Executor W} (made : makeExecutor o = .ok e) :
    Counted e := by
  unfold makeExecutor at made
  split at made
  swap
  · cases made
  obtain rfl := Except.ok.inj made
  exact
    { queue := rfl
      queued := rfl
      running := rfl
      busy := by
        show 0 = (List.replicate o.threads Worker.waiting).countP _
        rw [List.countP_replicate]
        rfl
      ready := rfl
      outstanding := rfl
      admitted := rfl
      released := rfl
      balance := rfl
      bound := Nat.zero_le _ }

/-- One for a job in a state, to write the changes of a counter. -/
def one (state counter : TaskJobState) : Nat := if state = counter then 1 else 0

theorem inState_replace {e : Executor W} {id : JobId} {old : TaskJob W} (found : e.jobs[id]? = some old)
    (new : TaskJob W) (queue : List JobId) (workers : List (Worker W)) (counts : TaskExecutorSnapshot)
    (counter : TaskJobState) :
    (e.replace id new queue workers counts).inState counter + one old.state counter
      = e.inState counter + one new.state counter := by
  have count := countP_set_add (fun job : TaskJob W => decide (job.state = counter)) found new
  simp only [decide_eq_true_eq] at count
  exact count

theorem inState_pos {e : Executor W} {id : JobId} {job : TaskJob W} (found : e.jobs[id]? = some job) :
    0 < e.inState job.state :=
  List.countP_pos_iff.mpr ⟨job, List.mem_of_getElem? found, decide_eq_true rfl⟩

/-- The four states are all there are. -/
theorem inState_total (e : Executor W) :
    e.inState .queued + e.inState .running + e.inState .ready + e.inState .retired = e.jobs.length := by
  unfold Executor.inState
  induction e.jobs with
  | nil => rfl
  | cons job jobs ih =>
    simp only [List.countP_cons, List.length_cons]
    cases job.state <;> simp <;> omega

/-- **The counters follow a job that changes.** -/
theorem Counted.replace {e : Executor W} (counted : Counted e) (linked : Linked e) {id : JobId}
    {old new : TaskJob W} {queue : List JobId} {workers : List (Worker W)}
    {counts : TaskExecutorSnapshot} (found : e.jobs[id]? = some old) (live : old.state ≠ .retired)
    (slot : new.slot = old.slot)
    (length : queue.length + one old.state .queued = e.queue.length + one new.state .queued)
    (busy : (workers.countP fun worker => worker.job.isSome) + one old.state .running
      = e.busy + one new.state .running)
    (queued : counts.queued + one old.state .queued = e.counts.queued + one new.state .queued)
    (running : counts.running + one old.state .running = e.counts.running + one new.state .running)
    (ready : counts.ready + one old.state .ready = e.counts.ready + one new.state .ready)
    (outstanding : counts.outstanding + one new.state .retired = e.counts.outstanding)
    (released : counts.released = e.counts.released + one new.state .retired)
    (admitted : counts.admitted = e.counts.admitted) :
    Counted (e.replace id new queue workers counts) := by
  have count := inState_replace found new queue workers counts
  have alive : one old.state .retired = 0 := if_neg live
  have slots : (e.replace id new queue workers counts).occupied + one new.state .retired = e.occupied := by
    have mine : e.slots[old.slot]? = some (some id) :=
      (linked.owned old.slot id).mpr ⟨old, found, live, rfl⟩
    show (if new.state = TaskJobState.retired then e.slots.set new.slot none else e.slots).countP
      Option.isSome + one new.state .retired = _
    unfold one
    split
    · have freed := countP_set_add Option.isSome mine none
      rw [slot]
      exact freed
    · rfl
  have fewer : (e.replace id new queue workers counts).jobs.length = e.jobs.length :=
    List.length_set
  exact
    { queue := by
        have old := counted.queue
        show counts.queued = queue.length
        omega
      queued := by
        have := counted.queued
        have := count .queued
        show counts.queued = _
        omega
      running := by
        have := counted.running
        have := count .running
        show counts.running = _
        omega
      busy := by
        have := counted.busy
        show counts.running = workers.countP _
        omega
      ready := by
        have := counted.ready
        have := count .ready
        show counts.ready = _
        omega
      outstanding := by
        have := counted.outstanding
        show counts.outstanding = _
        omega
      admitted := by
        have := counted.admitted
        show counts.admitted = _
        omega
      released := by
        have := counted.released
        have := count .retired
        show counts.released = _
        omega
      balance := by
        have := counted.balance
        show counts.admitted = counts.released + counts.outstanding
        omega
      bound := by
        have := counted.bound
        show counts.outstanding ≤ e.options.threads + e.options.queueCapacity
        omega }

/-! ### What the operations do -/

/-- The counters after a release. -/
def TaskExecutorSnapshot.release (c : TaskExecutorSnapshot) (state : TaskJobState) :
    TaskExecutorSnapshot :=
  { c with
    queued := if state = .queued then c.queued - 1 else c.queued
    running := if state = .running then c.running - 1 else c.running
    ready := if state = .ready then c.ready - 1 else c.ready
    outstanding := c.outstanding - 1
    released := c.released + 1 }

def TaskJob.retire (job : TaskJob W) : TaskJob W := { job with state := .retired, work := none }

def TaskJob.cancel (job : TaskJob W) : TaskJob W := { job with cancelled := true }

theorem retireJob_eq (e : Executor W) (id : JobId) (job : TaskJob W) :
    e.retireJob id job
      = (e.replace id job.retire e.queue e.workers (e.counts.release job.state), job.work) := rfl

/-- **What a cancellation does**: nothing to a job that is not live; a mark on a running job; a queued or
ready one is retired. -/
inductive Cancelled (e : Executor W) : Option JobId → Executor W → Prop
  | unowned {handle : Option JobId} : e.ownsJob handle = false → Cancelled e handle e
  | marked {id : JobId} {job : TaskJob W} : e.jobs[id]? = some job → job.state = .running →
      Cancelled e (some id) (e.replace id job.cancel e.queue e.workers e.counts)
  | withdrawn {id : JobId} {job : TaskJob W} : e.jobs[id]? = some job → job.state = .queued →
      Cancelled e (some id)
        (e.replace id job.cancel.retire (e.queue.erase id) e.workers (e.counts.release .queued))
  | dropped {id : JobId} {job : TaskJob W} : e.jobs[id]? = some job → job.state = .ready →
      Cancelled e (some id)
        (e.replace id job.cancel.retire e.queue e.workers (e.counts.release .ready))

theorem cancelLocked_cancelled {e : Executor W} (linked : Linked e) (handle : Option JobId) :
    Cancelled e handle (e.cancelLocked handle).1 := by
  unfold Executor.cancelLocked
  by_cases owns : e.ownsJob handle = true
  swap
  · rw [if_neg owns]
    exact .unowned (by simpa using owns)
  rw [if_pos owns]
  obtain ⟨id, job, rfl, found, live⟩ := (ownsJob_iff linked handle).mp owns
  simp only [found]
  unfold Executor.cancelOwned
  cases state : job.state with
  | running =>
    have done := Cancelled.marked found state
    simpa [Executor.replace, TaskJob.cancel, state] using done
  | queued =>
    have done := Cancelled.withdrawn found state
    simpa [retireJob_eq, Executor.replace, TaskJob.cancel, TaskJob.retire, state] using done
  | ready =>
    have done := Cancelled.dropped found state
    simpa [retireJob_eq, Executor.replace, TaskJob.cancel, TaskJob.retire, state] using done
  | retired => exact absurd state live

/-- **What a collection does**: only a ready job gives its work, and is retired. -/
inductive Collected (e : Executor W) : Option JobId → Executor W × TaskCollection W → Prop
  | unowned {handle : Option JobId} : e.ownsJob handle = false →
      Collected e handle (e, { state := .retired })
  | early {id : JobId} {job : TaskJob W} : e.jobs[id]? = some job →
      (job.state = .queued ∨ job.state = .running) → Collected e (some id) (e, { state := job.state })
  | ready {id : JobId} {job : TaskJob W} : e.jobs[id]? = some job → job.state = .ready →
      Collected e (some id)
        (e.replace id job.retire e.queue e.workers (e.counts.release .ready),
          { state := .ready, work := job.work })

theorem collectTask_collected {e : Executor W} (linked : Linked e) (handle : Option JobId) :
    Collected e handle (e.collectTask handle) := by
  unfold Executor.collectTask
  by_cases owns : e.ownsJob handle = true
  swap
  · rw [if_neg owns]
    exact .unowned (by simpa using owns)
  rw [if_pos owns]
  obtain ⟨id, job, rfl, found, live⟩ := (ownsJob_iff linked handle).mp owns
  simp only [found]
  by_cases isReady : job.state = .ready
  · rw [if_neg (not_not.mpr isReady), retireJob_eq, isReady]
    exact .ready found isReady
  · rw [if_pos isReady]
    refine .early found ?_
    cases state : job.state with
    | queued => exact .inl rfl
    | running => exact .inr rfl
    | ready => exact absurd state isReady
    | retired => exact absurd state live

/-- The executor with one job more. -/
def Executor.enqueue (e : Executor W) (work : W) (now : Nat) : Executor W :=
  let slot := e.slots.findIdx Option.isNone
  { e with
    jobs := e.jobs ++ [{ deadline := now + e.options.timeout, slot := slot, work := some work }]
    queue := e.queue ++ [e.jobs.length]
    slots := e.slots.set slot (some e.jobs.length)
    counts :=
      { e.counts with
        queued := e.counts.queued + 1
        outstanding := e.counts.outstanding + 1
        admitted := e.counts.admitted + 1 } }

/-- **What a submission does.** -/
inductive Submitted (e : Executor W) (now : Nat) :
    Option W → Except String (Executor W × TaskSubmission) → Prop
  | missing : Submitted e now none (.error "task work is required")
  | stopping {work : W} : e.stopping = true →
      Submitted e now (some work) (.ok (e, { admission := .stopping }))
  | overloaded {work : W} : e.stopping = false →
      (e.queue.length = e.options.queueCapacity ∨
        e.counts.outstanding = e.options.threads + e.options.queueCapacity) →
      Submitted e now (some work) (.ok (e, { admission := .overloaded }))
  | accepted {work : W} : e.stopping = false → e.queue.length ≠ e.options.queueCapacity →
      e.counts.outstanding ≠ e.options.threads + e.options.queueCapacity →
      Submitted e now (some work)
        (.ok (e.enqueue work now, { admission := .accepted, job := some e.jobs.length }))

theorem submitTask_submitted (e : Executor W) (work : Option W) (now : Nat) :
    Submitted e now work (e.submitTask work now) := by
  unfold Executor.submitTask
  cases work with
  | none => exact .missing
  | some work =>
    dsimp only
    by_cases stopping : e.stopping = true
    · rw [if_pos stopping]
      exact .stopping stopping
    rw [if_neg stopping]
    have open1 : e.stopping = false := by simpa using stopping
    by_cases full : e.queue.length = e.options.queueCapacity ∨
        e.counts.outstanding = e.options.threads + e.options.queueCapacity
    · rw [if_pos (by simpa using full)]
      exact .overloaded open1 full
    · rw [if_neg (by simpa using full)]
      obtain ⟨short, below⟩ := not_or.mp full
      exact .accepted open1 short below

/-- **What a worker does in its first section.** -/
inductive Took (e : Executor W) (w : Nat) : Executor W → Prop
  | away : (¬e.workers[w]? = some .waiting) → Took e w e
  | idle : e.workers[w]? = some .waiting → e.stopping = false → e.queue = [] → Took e w e
  | returned : e.workers[w]? = some .waiting → e.stopping = true →
      Took e w { e with workers := e.workers.set w .returned }
  | took {id : JobId} {queue : List JobId} {job : TaskJob W} : e.workers[w]? = some .waiting →
      e.stopping = false → e.queue = id :: queue → e.jobs[id]? = some job → job.state = .queued →
      Took e w
        (e.replace id { job with state := .running } queue (e.workers.set w (.holding id job.work))
          { e.counts with queued := e.counts.queued - 1, running := e.counts.running + 1 })

theorem takeTask_took {e : Executor W} (linked : Linked e) (w : Nat) : Took e w (e.takeTask w) := by
  unfold Executor.takeTask
  split
  swap
  · next other => exact .away other
  next waiting =>
  by_cases stopping : e.stopping = true
  · rw [if_pos stopping]
    exact .returned waiting stopping
  rw [if_neg stopping]
  have open1 : e.stopping = false := by simpa using stopping
  cases queue : e.queue with
  | nil => exact .idle waiting open1 queue
  | cons id rest =>
    obtain ⟨job, found, state⟩ := (linked.queue id).mp (by rw [queue]; exact List.mem_cons_self)
    simp only [found]
    exact .took waiting open1 queue found state

/-- The work a worker may run between its sections. -/
def Runs (job : TaskJob W) (now : Nat) : Prop := job.cancelled = false ∧ now < job.deadline

/-- **What a worker does between its sections.** -/
inductive Executed (e : Executor W) (w now : Nat) :
    Executor W × Option (JobId × Option W) → Prop
  | away : (∀ id work, e.workers[w]? ≠ some (.holding id work)) → Executed e w now (e, none)
  | skipped {id : JobId} {work : Option W} {job : TaskJob W} :
      e.workers[w]? = some (.holding id work) → e.jobs[id]? = some job → job.state = .running →
      ¬Runs job now → Executed e w now ({ e with workers := e.workers.set w (.finishing id) }, none)
  | ran {id : JobId} {work : Option W} {job : TaskJob W} :
      e.workers[w]? = some (.holding id work) → e.jobs[id]? = some job → job.state = .running →
      Runs job now →
      Executed e w now ({ e with workers := e.workers.set w (.finishing id) }, some (id, work))

theorem executeTask_executed {e : Executor W} (linked : Linked e) (w now : Nat) :
    Executed e w now (e.executeTask w now) := by
  unfold Executor.executeTask
  split
  swap
  · next other => exact .away other
  next id work holding =>
  obtain ⟨job, found, running⟩ := (linked.held id).mpr ⟨w, _, holding, rfl⟩
  simp only [found]
  by_cases runs : Runs job now
  · rw [if_neg (by simpa [Runs] using runs)]
    exact .ran holding found running runs
  · rw [if_pos (by
      by_contra open1
      exact runs (by simpa [Runs] using open1))]
    exact .skipped holding found running runs

/-- **What a worker does in its second section.** -/
inductive Finished (e : Executor W) (w : Nat) : Executor W → Prop
  | away : (∀ id, e.workers[w]? ≠ some (.finishing id)) → Finished e w e
  | retired {id : JobId} {job : TaskJob W} : e.workers[w]? = some (.finishing id) →
      e.jobs[id]? = some job → job.state = .running → job.cancelled = true →
      Finished e w
        (e.replace id job.retire e.queue (e.workers.set w .waiting) (e.counts.release .running))
  | ready {id : JobId} {job : TaskJob W} : e.workers[w]? = some (.finishing id) →
      e.jobs[id]? = some job → job.state = .running → job.cancelled = false →
      Finished e w
        (e.replace id { job with state := .ready } e.queue (e.workers.set w .waiting)
          { e.counts with running := e.counts.running - 1, ready := e.counts.ready + 1 })

theorem finishTask_finished {e : Executor W} (linked : Linked e) (w : Nat) :
    Finished e w (e.finishTask w) := by
  unfold Executor.finishTask
  split
  swap
  · next other => exact .away other
  next id finishing =>
  obtain ⟨job, found, running⟩ := (linked.held id).mpr ⟨w, _, finishing, rfl⟩
  simp only [found]
  by_cases cancelled : job.cancelled = true
  · rw [if_pos cancelled, retireJob_eq, running]
    exact .retired finishing found running cancelled
  · rw [if_neg cancelled]
    exact .ready finishing found running (by simpa using cancelled)

/-! ### Links -/

theorem holds_set {workers : List (Worker W)} {w : Nat} {old : Worker W} (found : workers[w]? = some old)
    (alone : ∀ w w' j, (Entry workers w fun worker => worker.job = some j) →
      (Entry workers w' fun worker => worker.job = some j) → w = w')
    (new : Worker W) (j : JobId) :
    Holds (workers.set w new) j ↔ new.job = some j ∨ (old.job ≠ some j ∧ Holds workers j) := by
  unfold Holds
  simp only [entry_set found]
  refine ⟨?_, ?_⟩
  · rintro ⟨w', entry⟩
    split at entry
    · exact .inl entry
    · next other =>
      exact .inr ⟨fun mine => other (alone w' w j entry ⟨old, found, mine⟩), w', entry⟩
  · rintro (mine | ⟨other, w', entry⟩)
    · exact ⟨w, by rw [if_pos rfl]; exact mine⟩
    · refine ⟨w', ?_⟩
      rw [if_neg]
      · exact entry
      · rintro rfl
        exact other ((entry_iff found _).mp entry)

/-- A worker that takes a job no other has leaves every job to one worker. -/
theorem alone_set {workers : List (Worker W)} {w : Nat} {old : Worker W} (found : workers[w]? = some old)
    (alone : ∀ w w' j, (Entry workers w fun worker => worker.job = some j) →
      (Entry workers w' fun worker => worker.job = some j) → w = w')
    (new : Worker W) (free : ∀ j, new.job = some j → old.job = some j ∨ ¬Holds workers j) (a b : Nat)
    (j : JobId) (first : Entry (workers.set w new) a fun worker => worker.job = some j)
    (second : Entry (workers.set w new) b fun worker => worker.job = some j) : a = b := by
  -- a worker other than `w` that has the job of `w` had it before
  have mine : ∀ other, other ≠ w → new.job = some j →
      ¬Entry workers other fun worker => worker.job = some j := by
    intro other apart job entry
    rcases free j job with kept | none
    · exact apart (alone other w j entry ⟨old, found, kept⟩)
    · exact none ⟨other, entry⟩
  rw [entry_set found] at first second
  split at first <;> split at second
  · next h h' => rw [h, h']
  · next h => exact absurd second (mine b h first)
  · next h _ => exact absurd first (mine a h second)
  · exact alone a b j first second

section Linked

variable {e : Executor W} (linked : Linked e) {id : JobId} {old : TaskJob W}
  (found : e.jobs[id]? = some old)
include linked found

theorem Linked.mem_queue : id ∈ e.queue ↔ old.state = .queued := by
  rw [linked.queue, entry_iff found]

theorem Linked.holds : Holds e.workers id ↔ old.state = .running :=
  (linked.held id).symm.trans (entry_iff found _)

theorem Linked.queue_same {new : TaskJob W} (same : new.state = .queued ↔ old.state = .queued) (j : JobId) :
    j ∈ e.queue ↔ if j = id then new.state = .queued else j ∈ e.queue := by
  split
  · next h => rw [h, linked.mem_queue found, same]
  · rfl

theorem Linked.holds_same {new : TaskJob W} (same : new.state = .running ↔ old.state = .running)
    (j : JobId) :
    Holds e.workers j ↔ if j = id then new.state = .running else Holds e.workers j := by
  split
  · next h => rw [h, linked.holds found, same]
  · rfl

end Linked

theorem Linked.cancelled {e next : Executor W} {handle : Option JobId} (linked : Linked e)
    (cancelled : Cancelled e handle next) : Linked next := by
  cases cancelled with
  | unowned => exact linked
  | @marked id job found state =>
    exact linked.replace _ found (by rw [state]; decide) rfl linked.nodup
      (linked.queue_same found Iff.rfl) rfl (linked.holds_same found Iff.rfl) linked.alone
  | @withdrawn id job found state =>
    refine linked.replace _ found (by rw [state]; decide) rfl (linked.nodup.erase id) (fun j => ?_) rfl
      (linked.holds_same found ?_) linked.alone
    · rw [linked.nodup.mem_erase_iff]
      split
      · next h => exact iff_of_false (fun kept => kept.1 h) (by simp [TaskJob.retire])
      · next h => exact and_iff_right h
    · rw [state]
      exact iff_of_false (by simp [TaskJob.retire]) (by decide)
  | @dropped id job found state =>
    refine linked.replace _ found (by rw [state]; decide) rfl linked.nodup (linked.queue_same found ?_) rfl
      (linked.holds_same found ?_) linked.alone <;>
    · rw [state]
      exact iff_of_false (by simp [TaskJob.retire]) (by decide)

theorem Linked.collected {e : Executor W} {handle : Option JobId} {result : Executor W × TaskCollection W}
    (linked : Linked e) (collected : Collected e handle result) : Linked result.1 := by
  cases collected with
  | unowned => exact linked
  | early => exact linked
  | @ready id job found state =>
    refine linked.replace _ found (by rw [state]; decide) rfl linked.nodup (linked.queue_same found ?_) rfl
      (linked.holds_same found ?_) linked.alone <;>
    · rw [state]
      exact iff_of_false (by simp [TaskJob.retire]) (by decide)

/-- Where a worker only goes on, the links stay. -/
theorem Linked.worker {e : Executor W} (linked : Linked e) {w : Nat} {old new : Worker W}
    (found : e.workers[w]? = some old) (same : new.job = old.job) :
    Linked { e with workers := e.workers.set w new } where
  options := linked.options
  slots := linked.slots
  workers := List.length_set.trans linked.workers
  nodup := linked.nodup
  queue := linked.queue
  owned := linked.owned
  held id := by
    rw [linked.held]
    show Holds e.workers id ↔ Holds (e.workers.set w new) id
    rw [holds_set found linked.alone, same]
    by_cases mine : old.job = some id
    · exact iff_of_true ⟨w, old, found, mine⟩ (.inl mine)
    · simp [mine]
  alone := alone_set found linked.alone new fun j job => .inl (same ▸ job)

theorem Linked.took {e next : Executor W} {w : Nat} (linked : Linked e) (took : Took e w next) :
    Linked next := by
  cases took with
  | away => exact linked
  | idle => exact linked
  | returned waiting => exact linked.worker waiting rfl
  | @took id queue job waiting open1 front found state =>
    have nodup := linked.nodup
    rw [front] at nodup
    obtain ⟨fresh, rest⟩ := List.nodup_cons.mp nodup
    have free : ¬Holds e.workers id := fun held => by
      rw [linked.holds found, state] at held
      cases held
    refine linked.replace _ found (by rw [state]; decide) rfl rest (fun j => ?_) List.length_set
      (fun j => ?_) (alone_set waiting linked.alone _ fun j job => .inr ?_)
    · rw [front, List.mem_cons]
      split
      · next h => exact iff_of_false (h ▸ fresh) (by simp)
      · next h => simp [h]
    · rw [holds_set waiting linked.alone]
      split
      · next h => simp [Worker.job, h]
      · next h => simp [Worker.job, Ne.symm h]
    · obtain rfl := Option.some.inj job
      exact free

theorem Linked.executed {e : Executor W} {w now : Nat} {result : Executor W × Option (JobId × Option W)}
    (linked : Linked e) (executed : Executed e w now result) : Linked result.1 := by
  cases executed with
  | away => exact linked
  | skipped holding => exact linked.worker holding rfl
  | ran holding => exact linked.worker holding rfl

theorem Linked.finished {e next : Executor W} {w : Nat} (linked : Linked e)
    (finished : Finished e w next) : Linked next := by
  -- the worker gives its job back, and no other worker has it
  have released : ∀ {id : JobId}, e.workers[w]? = some (.finishing id) → ∀ {new : TaskJob W},
      new.state ≠ .running → ∀ j, Holds (e.workers.set w .waiting) j ↔
        if j = id then new.state = .running else Holds e.workers j := by
    intro id finishing new other j
    rw [holds_set finishing linked.alone]
    split
    · next h => simp [Worker.job, h, other]
    · next h => simp [Worker.job, Ne.symm h]
  cases finished with
  | away => exact linked
  | @retired id job finishing found state =>
    refine linked.replace _ found (by rw [state]; decide) rfl linked.nodup (linked.queue_same found ?_)
      List.length_set (released finishing (by simp [TaskJob.retire]))
      (alone_set finishing linked.alone _ fun j job => by cases job)
    rw [state]
    exact iff_of_false (by simp [TaskJob.retire]) (by decide)
  | @ready id job finishing found state =>
    refine linked.replace _ found (by rw [state]; decide) rfl linked.nodup (linked.queue_same found ?_)
      List.length_set (released finishing (by simp))
      (alone_set finishing linked.alone _ fun j job => by cases job)
    rw [state]
    exact iff_of_false (by simp) (by decide)

/-! ### Admission -/

/-- **An admitted job finds a free slot.** -/
theorem free_slot {e : Executor W} (linked : Linked e) (counted : Counted e)
    (below : e.counts.outstanding ≠ e.options.threads + e.options.queueCapacity) :
    e.slots.findIdx Option.isNone < e.slots.length ∧
      e.slots[e.slots.findIdx Option.isNone]? = some none := by
  have few : e.occupied < e.slots.length := by
    have bound := counted.bound
    have count := counted.outstanding
    obtain ⟨-, threads, -, capacity, -⟩ := linked.options
    rw [linked.slots, slotCount]
    omega
  have some : e.slots.findIdx Option.isNone < e.slots.length := by
    rw [List.findIdx_lt_length]
    by_contra full
    push Not at full
    have all : e.occupied = e.slots.length := by
      refine List.countP_eq_length.mpr fun slot member => ?_
      exact Option.isSome_iff_ne_none.mpr (by simpa using full slot member)
    omega
  refine ⟨some, ?_⟩
  rw [List.getElem?_eq_getElem some]
  exact congrArg Option.some (Option.isNone_iff_eq_none.mp (List.findIdx_getElem (w := some)))

theorem Linked.enqueue {e : Executor W} (linked : Linked e) (counted : Counted e) (work : W) (now : Nat)
    (below : e.counts.outstanding ≠ e.options.threads + e.options.queueCapacity) :
    Linked (e.enqueue work now) := by
  obtain ⟨inside, free⟩ := free_slot linked counted below
  have fresh : ∀ P : TaskJob W → Prop, ¬Entry e.jobs e.jobs.length P := by
    rintro P ⟨job, found, -⟩
    exact absurd (lt_of_entry found) (Nat.lt_irrefl _)
  exact
    { options := linked.options
      slots := List.length_set.trans linked.slots
      workers := linked.workers
      nodup := by
        refine List.nodup_append.mpr ⟨linked.nodup, List.nodup_singleton _, fun a queued b last => ?_⟩
        rintro rfl
        rw [List.mem_singleton.mp last, linked.queue] at queued
        exact fresh _ queued
      queue := fun j => by
        show j ∈ e.queue ++ [e.jobs.length] ↔ Entry (e.jobs ++ [_]) j _
        rw [entry_append, List.mem_append, List.mem_singleton, linked.queue]
        split
        · next h => exact iff_of_true (.inr h) rfl
        · next h => simp [h]
      owned := fun i j => by
        show (e.slots.set _ (some e.jobs.length))[i]? = some (some j) ↔ Entry (e.jobs ++ [_]) j _
        rw [set_eq_some, entry_append]
        split
        · next h =>
          subst h
          refine ⟨?_, fun taken => .inl ⟨taken.2, taken.2 ▸ inside, rfl⟩⟩
          rintro (⟨here, -, -⟩ | ⟨-, other⟩)
          · exact ⟨by simp, here⟩
          · exact absurd ((linked.owned i _).mp other) (fresh _)
        · next h =>
          rw [← linked.owned]
          refine ⟨?_, fun kept => .inr ⟨?_, kept⟩⟩
          · rintro (⟨-, -, mine⟩ | ⟨-, kept⟩)
            · exact absurd (Option.some.inj mine) h
            · exact kept
          · rintro rfl
            rw [free] at kept
            cases kept
      held := fun j => by
        show Entry (e.jobs ++ [_]) j _ ↔ _
        rw [entry_append]
        split
        · next h =>
          refine iff_of_false (by simp) fun held => ?_
          rw [h] at held
          exact fresh _ ((linked.held _).mpr held)
        · exact linked.held j
      alone := linked.alone }

theorem Counted.enqueue {e : Executor W} (linked : Linked e) (counted : Counted e) (work : W) (now : Nat)
    (below : e.counts.outstanding ≠ e.options.threads + e.options.queueCapacity) :
    Counted (e.enqueue work now) := by
  obtain ⟨inside, free⟩ := free_slot linked counted below
  have count : ∀ state, (e.enqueue work now).inState state = e.inState state + one .queued state := by
    intro state
    unfold Executor.inState Executor.enqueue one
    dsimp only
    rw [countP_append_one]
    simp
  have slots : (e.enqueue work now).occupied = e.occupied + 1 :=
    countP_set_add Option.isSome free (some e.jobs.length)
  have bound := counted.bound
  exact
    { queue := by
        show e.counts.queued + 1 = (e.queue ++ [e.jobs.length]).length
        rw [List.length_append, counted.queue]
        rfl
      queued := (congrArg (· + 1) counted.queued).trans (count .queued).symm
      running := counted.running.trans (count .running).symm
      busy := counted.busy
      ready := counted.ready.trans (count .ready).symm
      outstanding := (congrArg (· + 1) counted.outstanding).trans slots.symm
      admitted := by
        show e.counts.admitted + 1 = (e.jobs ++ [_]).length
        rw [List.length_append, counted.admitted]
        rfl
      released := counted.released.trans (count .retired).symm
      balance := congrArg (· + 1) counted.balance
      bound := by
        show e.counts.outstanding + 1 ≤ e.options.threads + e.options.queueCapacity
        omega }

/-! ### The counters along the operations -/

theorem busy_set {e : Executor W} {w : Nat} {old : Worker W} (found : e.workers[w]? = some old)
    (new : Worker W) :
    ((e.workers.set w new).countP fun worker => worker.job.isSome) + (if old.job.isSome then 1 else 0)
      = e.busy + (if new.job.isSome then 1 else 0) :=
  countP_set_add (fun worker : Worker W => worker.job.isSome) found new

theorem Counted.worker {e : Executor W} (counted : Counted e) {w : Nat} {old new : Worker W}
    (found : e.workers[w]? = some old) (same : new.job = old.job) :
    Counted { e with workers := e.workers.set w new } := by
  refine { counted with busy := ?_ }
  have count := busy_set found new
  rw [same] at count
  exact counted.busy.trans (Nat.add_right_cancel count).symm

/-- The counters of a live job are positive. -/
theorem Counted.positive {e : Executor W} (counted : Counted e) (linked : Linked e) {id : JobId}
    {job : TaskJob W} (found : e.jobs[id]? = some job) (live : job.state ≠ .retired) :
    one job.state .queued ≤ e.counts.queued ∧ one job.state .running ≤ e.counts.running ∧
      one job.state .ready ≤ e.counts.ready ∧ 1 ≤ e.counts.outstanding := by
  have count := inState_pos found
  have mine : e.slots[job.slot]? = some (some id) :=
    (linked.owned job.slot id).mpr ⟨job, found, live, rfl⟩
  have slot : 1 ≤ e.occupied :=
    List.countP_pos_iff.mpr ⟨_, List.mem_of_getElem? mine, rfl⟩
  rw [counted.queued, counted.running, counted.ready, counted.outstanding]
  unfold one
  cases state : job.state with
  | retired => exact absurd state live
  | queued => rw [state] at count; exact ⟨count, Nat.zero_le _, Nat.zero_le _, slot⟩
  | running => rw [state] at count; exact ⟨Nat.zero_le _, count, Nat.zero_le _, slot⟩
  | ready => rw [state] at count; exact ⟨Nat.zero_le _, Nat.zero_le _, count, slot⟩

/-- **The counters follow a release.** -/
theorem Counted.release {e : Executor W} (counted : Counted e) (linked : Linked e) {id : JobId}
    {old new : TaskJob W} {queue : List JobId} {workers : List (Worker W)}
    (found : e.jobs[id]? = some old) (live : old.state ≠ .retired) (slot : new.slot = old.slot)
    (retired : new.state = .retired)
    (length : queue.length + one old.state .queued = e.queue.length)
    (busy : (workers.countP fun worker => worker.job.isSome) + one old.state .running = e.busy) :
    Counted (e.replace id new queue workers (e.counts.release old.state)) := by
  obtain ⟨queued, running, ready, outstanding⟩ := counted.positive linked found live
  unfold one at queued running ready
  refine counted.replace linked found live slot ?_ ?_ ?_ ?_ ?_ ?_ ?_ rfl <;> rw [retired]
  · exact length
  · exact busy
  all_goals
    simp only [TaskExecutorSnapshot.release, one, reduceCtorEq, if_false, if_true, Nat.add_zero]
  · split at queued <;> simp_all
  · split at running <;> simp_all
  · split at ready <;> simp_all
  · omega

theorem Counted.cancelled {e next : Executor W} {handle : Option JobId} (counted : Counted e)
    (linked : Linked e) (cancelled : Cancelled e handle next) : Counted next := by
  cases cancelled with
  | unowned => exact counted
  | @marked id job found state =>
    have none : one job.cancel.state .retired = 0 := if_neg (by rw [show job.cancel.state = _ from state]; decide)
    exact counted.replace linked found (by rw [state]; decide) rfl rfl rfl rfl rfl rfl
      (by rw [none]; rfl) (by rw [none]; rfl) rfl
  | @withdrawn id job found state =>
    rw [← state]
    refine counted.release linked found (by rw [state]; decide) rfl rfl ?_ (by rw [state]; rfl)
    have member : id ∈ e.queue := (linked.mem_queue found).mpr state
    have some := List.length_pos_of_mem member
    rw [List.length_erase_of_mem member, state]
    show e.queue.length - 1 + 1 = _
    omega
  | @dropped id job found state =>
    rw [← state]
    exact counted.release linked found (by rw [state]; decide) rfl rfl (by rw [state]; rfl)
      (by rw [state]; rfl)

theorem Counted.collected {e : Executor W} {handle : Option JobId}
    {result : Executor W × TaskCollection W} (counted : Counted e) (linked : Linked e)
    (collected : Collected e handle result) : Counted result.1 := by
  cases collected with
  | unowned => exact counted
  | early => exact counted
  | @ready id job found state =>
    rw [← state]
    exact counted.release linked found (by rw [state]; decide) rfl rfl (by rw [state]; rfl)
      (by rw [state]; rfl)

theorem Counted.took {e next : Executor W} {w : Nat} (counted : Counted e) (linked : Linked e)
    (took : Took e w next) : Counted next := by
  cases took with
  | away => exact counted
  | idle => exact counted
  | returned waiting => exact counted.worker waiting rfl
  | @took id queue job waiting open1 front found state =>
    have live : job.state ≠ .retired := by rw [state]; decide
    have positive := (counted.positive linked found live).1
    have busy := busy_set waiting (.holding id job.work)
    rw [state] at positive
    refine counted.replace linked found live rfl ?_ ?_ ?_ ?_ ?_ rfl rfl rfl
    · rw [state, front]
      rfl
    · rw [state]
      exact busy
    · rw [state]
      exact Nat.sub_add_cancel positive
    · rw [state]
      rfl
    · rw [state]
      rfl

theorem Counted.executed {e : Executor W} {w now : Nat}
    {result : Executor W × Option (JobId × Option W)} (counted : Counted e)
    (executed : Executed e w now result) : Counted result.1 := by
  cases executed with
  | away => exact counted
  | skipped holding => exact counted.worker holding rfl
  | ran holding => exact counted.worker holding rfl

theorem Counted.finished {e next : Executor W} {w : Nat} (counted : Counted e) (linked : Linked e)
    (finished : Finished e w next) : Counted next := by
  cases finished with
  | away => exact counted
  | @retired id job finishing found state =>
    rw [← state]
    refine counted.release linked found (by rw [state]; decide) rfl rfl (by rw [state]; rfl) ?_
    rw [state]
    exact busy_set finishing .waiting
  | @ready id job finishing found state =>
    have live : job.state ≠ .retired := by rw [state]; decide
    have positive := (counted.positive linked found live).2.1
    rw [state] at positive
    refine counted.replace linked found live rfl ?_ ?_ ?_ ?_ ?_ rfl rfl rfl
    · rw [state]
      rfl
    · rw [state]
      exact busy_set finishing .waiting
    · rw [state]
      rfl
    · rw [state]
      exact Nat.sub_add_cancel positive
    · rw [state]
      rfl

end HpServer.Business
