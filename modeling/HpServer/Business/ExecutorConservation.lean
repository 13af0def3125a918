/-
**The bounded executor loses no job and no slot.**

* `stop_halts` — a stop leaves only running jobs, all of them marked.
* `act_sound` — **every operation preserves the links, the counters and the effect of a stop.**
* `Move`, `act_moves` — the ways a job goes through its states, and by which operations.
* `executor_conservation` — the counters, the queue and the slots agree along any interleaving, and
  nothing is outstanding after a stop when the workers have returned.
-/

import HpServer.Business.ExecutorInvariant

namespace HpServer.Business

open Machines Tables

variable {W : Type}

/-! ### Stopping -/

/-- A live job that is not running under a mark. -/
def Unsettled (job : TaskJob W) : Prop :=
  job.state ≠ .retired ∧ ¬(job.state = .running ∧ job.cancelled = true)

/-- After a stop every job is retired, or running under a mark. -/
def Halted (e : Executor W) : Prop := e.stopping = true → ∀ id, ¬Entry e.jobs id Unsettled

theorem Cancelled.keeps {e next : Executor W} {handle : Option JobId}
    (cancelled : Cancelled e handle next) : next.stopping = e.stopping ∧ next.options = e.options := by
  cases cancelled <;> exact ⟨rfl, rfl⟩

/-- A cancellation settles its job and leaves every other as it is. -/
theorem Cancelled.settles {e next : Executor W} {id : JobId} (linked : Linked e)
    (cancelled : Cancelled e (some id) next) {P : TaskJob W → Prop} {j : JobId}
    (unsettled : Entry next.jobs j fun job => Unsettled job ∧ P job) :
    j ≠ id ∧ Entry e.jobs j fun job => Unsettled job ∧ P job := by
  cases cancelled with
  | unowned unowned =>
    refine ⟨?_, unsettled⟩
    rintro rfl
    obtain ⟨job, found, ⟨live, -⟩, -⟩ := unsettled
    rw [(ownsJob_iff linked (some j)).mpr ⟨j, job, rfl, found, live⟩] at unowned
    cases unowned
  | @marked _ job found state =>
    rw [Executor.replace, entry_set found] at unsettled
    split at unsettled
    · exact absurd ⟨state, rfl⟩ unsettled.1.2
    · next other => exact ⟨other, unsettled⟩
  | withdrawn found =>
    rw [Executor.replace, entry_set found] at unsettled
    split at unsettled
    · exact absurd rfl unsettled.1.1
    · next other => exact ⟨other, unsettled⟩
  | dropped found =>
    rw [Executor.replace, entry_set found] at unsettled
    split at unsettled
    · exact absurd rfl unsettled.1.1
    · next other => exact ⟨other, unsettled⟩

/-- What holds between two turns of the loop of a stop. -/
structure Stopping (e : Executor W) (n : Nat) : Prop where
  linked : Linked e
  counted : Counted e
  stopping : e.stopping = true
  passed : ∀ id, ¬Entry e.jobs id fun job => Unsettled job ∧ job.slot < n

theorem Stopping.next {e : Executor W} {n : Nat} (stop : Stopping e n) :
    Stopping (e.cancelSlot n) (n + 1) := by
  -- a job of slot `n` that is unsettled is the one in the slot
  have here : ∀ j, (Entry e.jobs j fun job => Unsettled job ∧ job.slot < n + 1) →
      e.slots[n]? = some (some j) := by
    rintro j ⟨job, found, unsettled, low⟩
    have same : job.slot = n := by
      by_contra other
      exact stop.passed j ⟨job, found, unsettled, by omega⟩
    exact (stop.linked.owned n j).mpr ⟨job, found, unsettled.1, same⟩
  unfold Executor.cancelSlot
  split
  · next id taken =>
    have cancelled := cancelLocked_cancelled stop.linked (some id)
    refine ⟨stop.linked.cancelled cancelled, stop.counted.cancelled stop.linked cancelled,
      cancelled.keeps.1.trans stop.stopping, fun j unsettled => ?_⟩
    obtain ⟨other, before⟩ := cancelled.settles stop.linked unsettled
    have mine := here j before
    rw [taken] at mine
    exact other (Option.some.inj (Option.some.inj mine)).symm
  · next free => exact ⟨stop.linked, stop.counted, stop.stopping, fun j before => free j (here j before)⟩

theorem cancelSlots_stopping {e : Executor W} (start : Stopping e 0) (n : Nat) :
    Stopping ((List.range n).foldl Executor.cancelSlot e) n := by
  induction n with
  | zero => exact start
  | succ n ih =>
    rw [List.range_succ, List.foldl_append, List.foldl_cons, List.foldl_nil]
    exact ih.next

theorem stopping_start {e : Executor W} (linked : Linked e) (counted : Counted e) :
    Stopping { e with stopping := true } 0 :=
  ⟨{ linked with }, { counted with }, rfl, fun _ ⟨_, _, _, low⟩ => absurd low (Nat.not_lt_zero _)⟩

theorem stop_stopping {e : Executor W} (linked : Linked e) (counted : Counted e) :
    Stopping e.stopAcceptingAndCancel slotCount := by
  unfold Executor.stopAcceptingAndCancel
  exact cancelSlots_stopping (stopping_start linked counted) slotCount

/-- **A stop settles every job.** -/
theorem stop_halts {e : Executor W} (linked : Linked e) (counted : Counted e) :
    Linked e.stopAcceptingAndCancel ∧ Counted e.stopAcceptingAndCancel ∧
      Halted e.stopAcceptingAndCancel := by
  have done := stop_stopping linked counted
  refine ⟨done.linked, done.counted, fun _ id ⟨job, found, unsettled⟩ => ?_⟩
  have taken := (done.linked.owned job.slot id).mpr ⟨job, found, unsettled.1, rfl⟩
  exact done.passed id ⟨job, found, unsettled, done.linked.slots ▸ lt_of_entry taken⟩

/-! ### Any interleaving -/

/-- **What every operation preserves.** -/
structure Sound (e : Executor W) : Prop where
  linked : Linked e
  counted : Counted e
  halted : Halted e

theorem sound_initial {o : TaskExecutorOptions} {e : Executor W} (made : makeExecutor o = .ok e) :
    Sound e := by
  refine ⟨linked_initial made, counted_initial made, ?_⟩
  unfold makeExecutor at made
  split at made
  · obtain rfl := Except.ok.inj made
    exact fun stopping => by cases stopping
  · cases made

theorem Halted.cancelled {e next : Executor W} {handle : Option JobId} (halted : Halted e)
    (linked : Linked e) (cancelled : Cancelled e handle next) : Halted next := by
  intro stopping id unsettled
  rw [cancelled.keeps.1] at stopping
  cases handle with
  | none => cases cancelled; exact halted stopping id unsettled
  | some j =>
    obtain ⟨-, before⟩ := cancelled.settles (P := fun _ => True) linked
      (unsettled.imp fun job h => ⟨h, trivial⟩)
    exact halted stopping id (before.imp fun job h => h.1)

/-- A job that is replaced by a settled one leaves nothing new to settle. -/
theorem Halted.replace {e : Executor W} (halted : Halted e) {id : JobId} {old new : TaskJob W}
    {queue : List JobId} {workers : List (Worker W)} {counts : TaskExecutorSnapshot}
    (found : e.jobs[id]? = some old) (settled : e.stopping = true → ¬Unsettled new) :
    Halted (e.replace id new queue workers counts) := by
  intro stopping j unsettled
  rw [Executor.replace, entry_set found] at unsettled
  split at unsettled
  · exact settled stopping unsettled
  · exact halted stopping j unsettled

theorem act_submit (e : Executor W) (work : Option W) (now : Nat) :
    e.act (.submit work now) = (e, []) ∨
      ∃ w, work = some w ∧ e.stopping = false ∧ e.queue.length ≠ e.options.queueCapacity ∧
        e.counts.outstanding ≠ e.options.threads + e.options.queueCapacity ∧
        e.act (.submit work now) = (e.enqueue w now, [.submitted e.jobs.length (some w)]) := by
  have submitted := submitTask_submitted e work now
  unfold Executor.act
  dsimp only
  generalize e.submitTask work now = result at submitted ⊢
  cases submitted with
  | missing => exact .inl rfl
  | stopping => exact .inl rfl
  | overloaded => exact .inl rfl
  | @accepted w open1 short below => exact .inr ⟨w, rfl, open1, short, below, rfl⟩

theorem act_stop (e : Executor W) :
    e.act .stop
      = (e.stopAcceptingAndCancel, (leftQueue e e.stopAcceptingAndCancel).map .withdrawn) := by
  rw [Executor.act]

theorem act_sound {e : Executor W} (sound : Sound e) (a : TaskAction W) : Sound (e.act a).1 := by
  obtain ⟨linked, counted, halted⟩ := sound
  cases a with
  | submit work now =>
    rcases act_submit e work now with same | ⟨w, -, open1, -, below, same⟩
    · rw [same]
      exact ⟨linked, counted, halted⟩
    · rw [same]
      refine ⟨linked.enqueue counted w now below, counted.enqueue linked w now below, fun stopping => ?_⟩
      rw [show (e.enqueue w now).stopping = e.stopping from rfl, open1] at stopping
      cases stopping
  | cancel handle =>
    have cancelled := cancelLocked_cancelled linked handle
    exact ⟨linked.cancelled cancelled, counted.cancelled linked cancelled,
      halted.cancelled linked cancelled⟩
  | collect handle =>
    have collected := collectTask_collected linked handle
    refine ⟨linked.collected collected, counted.collected linked collected, ?_⟩
    show Halted (e.collectTask handle).1
    generalize e.collectTask handle = result at collected
    cases collected with
    | unowned => exact halted
    | early => exact halted
    | ready found => exact halted.replace found fun _ unsettled => unsettled.1 rfl
  | stop =>
    obtain ⟨linked, counted, halted⟩ := stop_halts linked counted
    rw [act_stop]
    dsimp only
    exact ⟨linked, counted, halted⟩
  | take w =>
    have took := takeTask_took linked w
    refine ⟨linked.took took, counted.took linked took, ?_⟩
    show Halted (e.takeTask w)
    generalize e.takeTask w = result at took
    cases took with
    | away => exact halted
    | idle => exact halted
    | returned => exact halted
    | took _ open1 _ found =>
      refine halted.replace found fun stopping => ?_
      rw [open1] at stopping
      cases stopping
  | execute w now =>
    have executed := executeTask_executed linked w now
    refine ⟨linked.executed executed, counted.executed executed, ?_⟩
    show Halted (e.executeTask w now).1
    generalize e.executeTask w now = result at executed
    cases executed <;> exact halted
  | finish w =>
    have finished := finishTask_finished linked w
    refine ⟨linked.finished finished, counted.finished linked finished, ?_⟩
    show Halted (e.finishTask w)
    generalize e.finishTask w = result at finished
    cases finished with
    | away => exact halted
    | retired _ found => exact halted.replace found fun _ unsettled => unsettled.1 rfl
    | @ready id job _ found state unmarked =>
      -- a running job without a mark is unsettled, so there was no stop
      refine halted.replace found fun stopping _ => halted stopping id ⟨job, found, ?_, ?_⟩
      · rw [state]
        decide
      · rintro ⟨-, marked⟩
        rw [unmarked] at marked
        cases marked

/-! ### The way of a job -/

/-- **One step of one job**, with the operation that makes it. A running job is retired only under a mark,
and only cancellation and stop set marks. -/
inductive Move (e : Executor W) (id : JobId) (old : TaskJob W) : TaskAction W → TaskJob W → Prop
  | same (a : TaskAction W) : Move e id old a old
  | start (w : Nat) : old.state = .queued → Move e id old (.take w) { old with state := .running }
  | ready (w : Nat) : e.workers[w]? = some (.finishing id) → old.state = .running →
      old.cancelled = false → Move e id old (.finish w) { old with state := .ready }
  | collect : old.state = .ready → Move e id old (.collect (some id)) old.retire
  | retire (w : Nat) : e.workers[w]? = some (.finishing id) → old.state = .running →
      old.cancelled = true → Move e id old (.finish w) old.retire
  | mark {a : TaskAction W} : (a = .cancel (some id) ∨ a = .stop) → old.state = .running →
      Move e id old a old.cancel
  | release {a : TaskAction W} : (a = .cancel (some id) ∨ a = .stop) →
      (old.state = .queued ∨ old.state = .ready) → Move e id old a old.cancel.retire

/-- What a cancellation makes of a job. -/
inductive Settles (old : TaskJob W) : TaskJob W → Prop
  | same : Settles old old
  | mark : old.state = .running → Settles old old.cancel
  | release : old.state = .queued ∨ old.state = .ready → Settles old old.cancel.retire

theorem Settles.trans {a b c : TaskJob W} (first : Settles a b) (second : Settles b c) : Settles a c := by
  cases first with
  | same => exact second
  | mark state =>
    cases second with
    | same => exact .mark state
    | mark => exact .mark state
    | release other =>
      rw [show a.cancel.state = a.state from rfl, state] at other
      rcases other with h | h <;> cases h
  | release state =>
    cases second with
    | same => exact .release state
    | mark other => cases other
    | release other => rcases other with h | h <;> cases h

/-- A job after the change of one job. -/
theorem replace_get {e : Executor W} {id j : JobId} {old job : TaskJob W} (new : TaskJob W)
    (queue : List JobId) (workers : List (Worker W)) (counts : TaskExecutorSnapshot)
    (found : e.jobs[id]? = some old) (at1 : e.jobs[j]? = some job) :
    (e.replace id new queue workers counts).jobs[j]? = some (if j = id then new else job) ∧
      (j = id → job = old) := by
  refine ⟨?_, ?_⟩
  · show (e.jobs.set id new)[j]? = _
    split
    · next h =>
      rw [h]
      exact set_same found new
    · next h => rw [set_other (Ne.symm h), at1]
  · rintro rfl
    rw [found] at at1
    exact (Option.some.inj at1).symm

theorem Cancelled.moves {e next : Executor W} {handle : Option JobId} (cancelled : Cancelled e handle next)
    {j : JobId} {job : TaskJob W} (at1 : e.jobs[j]? = some job) :
    ∃ after, next.jobs[j]? = some after ∧ Settles job after ∧ (handle ≠ some j → after = job) := by
  -- the job of the handle changes as given, every other stays
  have change : ∀ {id : JobId} {old new : TaskJob W} (queue : List JobId)
      (counts : TaskExecutorSnapshot), e.jobs[id]? = some old → Settles old new → ∃ after,
      (e.replace id new queue e.workers counts).jobs[j]? = some after ∧ Settles job after ∧
        (some id ≠ some j → after = job) := by
    intro id old new queue counts found settles
    obtain ⟨after, same⟩ := replace_get new queue e.workers counts found at1
    refine ⟨_, after, ?_, ?_⟩
    · split
      · next h =>
        rw [same h]
        exact settles
      · exact .same
    · intro other
      rw [if_neg fun h => other (by rw [h])]
  cases cancelled with
  | unowned => exact ⟨job, at1, .same, fun _ => rfl⟩
  | marked found state => exact change _ _ found (.mark state)
  | withdrawn found state => exact change _ _ found (.release (.inl state))
  | dropped found state => exact change _ _ found (.release (.inr state))

/-- What a stop makes of each job. -/
theorem cancelSlots_settles {e : Executor W} (start : Stopping e 0) (n : Nat) {j : JobId}
    {job : TaskJob W} (at1 : e.jobs[j]? = some job) :
    ∃ after, ((List.range n).foldl Executor.cancelSlot e).jobs[j]? = some after ∧ Settles job after := by
  induction n with
  | zero => exact ⟨job, at1, .same⟩
  | succ n ih =>
    obtain ⟨mid, at2, settled⟩ := ih
    have stop := cancelSlots_stopping start n
    rw [List.range_succ, List.foldl_append, List.foldl_cons, List.foldl_nil]
    unfold Executor.cancelSlot
    split
    · next id _ =>
      obtain ⟨after, at3, next, -⟩ := (cancelLocked_cancelled stop.linked (some id)).moves at2
      exact ⟨after, at3, settled.trans next⟩
    · exact ⟨mid, at2, settled⟩

theorem stop_settles {e : Executor W} (linked : Linked e) (counted : Counted e) {j : JobId}
    {job : TaskJob W} (at1 : e.jobs[j]? = some job) :
    ∃ after, e.stopAcceptingAndCancel.jobs[j]? = some after ∧ Settles job after := by
  unfold Executor.stopAcceptingAndCancel
  exact cancelSlots_settles (stopping_start linked counted) slotCount at1

/-- **Every operation moves every job as allowed.** -/
theorem act_moves {e : Executor W} (sound : Sound e) (a : TaskAction W) {j : JobId} {job : TaskJob W}
    (at1 : e.jobs[j]? = some job) : ∃ after, (e.act a).1.jobs[j]? = some after ∧ Move e j job a after := by
  obtain ⟨linked, counted, halted⟩ := sound
  -- one job changes, as its move says
  have change : ∀ {a : TaskAction W} {id : JobId} {old new : TaskJob W} (queue : List JobId)
      (workers : List (Worker W)) (counts : TaskExecutorSnapshot), e.jobs[id]? = some old →
      Move e id old a new → ∃ after,
      (e.replace id new queue workers counts).jobs[j]? = some after ∧ Move e j job a after := by
    intro a id old new queue workers counts found move
    obtain ⟨after, same⟩ := replace_get new queue workers counts found at1
    refine ⟨_, after, ?_⟩
    split
    · next h =>
      rw [same h, h]
      exact move
    · exact .same a
  cases a with
  | submit work now =>
    rcases act_submit e work now with same | ⟨w, -, -, -, -, same⟩
    · rw [same]
      exact ⟨job, at1, .same _⟩
    · rw [same]
      exact ⟨job, append_eq_some.mpr (.inl at1), .same _⟩
  | cancel handle =>
    obtain ⟨after, at2, settles, others⟩ := (cancelLocked_cancelled linked handle).moves at1
    refine ⟨after, at2, ?_⟩
    by_cases mine : handle = some j
    · subst mine
      cases settles with
      | same => exact .same _
      | mark state => exact .mark (.inl rfl) state
      | release state => exact .release (.inl rfl) state
    · rw [others mine]
      exact .same _
  | collect handle =>
    have collected := collectTask_collected linked handle
    show ∃ after, (e.collectTask handle).1.jobs[j]? = some after ∧ _
    generalize e.collectTask handle = result at collected
    cases collected with
    | unowned => exact ⟨job, at1, .same _⟩
    | early => exact ⟨job, at1, .same _⟩
    | ready found state => exact change _ _ _ found (.collect state)
  | stop =>
    obtain ⟨after, at2, settles⟩ := stop_settles linked counted at1
    rw [act_stop]
    refine ⟨after, at2, ?_⟩
    cases settles with
    | same => exact .same _
    | mark state => exact .mark (.inr rfl) state
    | release state => exact .release (.inr rfl) state
  | take w =>
    have took := takeTask_took linked w
    show ∃ after, (e.takeTask w).jobs[j]? = some after ∧ _
    generalize e.takeTask w = result at took
    cases took with
    | away => exact ⟨job, at1, .same _⟩
    | idle => exact ⟨job, at1, .same _⟩
    | returned => exact ⟨job, at1, .same _⟩
    | took _ _ _ found state => exact change _ _ _ found (.start w state)
  | execute w now =>
    have executed := executeTask_executed linked w now
    show ∃ after, (e.executeTask w now).1.jobs[j]? = some after ∧ _
    generalize e.executeTask w now = result at executed
    cases executed <;> exact ⟨job, at1, .same _⟩
  | finish w =>
    have finished := finishTask_finished linked w
    show ∃ after, (e.finishTask w).jobs[j]? = some after ∧ _
    generalize e.finishTask w = result at finished
    cases finished with
    | away => exact ⟨job, at1, .same _⟩
    | retired finishing found state marked => exact change _ _ _ found (.retire w finishing state marked)
    | ready finishing found state unmarked => exact change _ _ _ found (.ready w finishing state unmarked)

/-- How far a job has come. -/
def TaskJobState.rank : TaskJobState → Nat
  | .queued => 0
  | .running => 1
  | .ready => 2
  | .retired => 3

theorem TaskJobState.rank_le (state : TaskJobState) : state.rank ≤ TaskJobState.retired.rank := by
  cases state <;> decide

theorem Move.rank {e : Executor W} {id : JobId} {old new : TaskJob W} {a : TaskAction W}
    (move : Move e id old a new) : old.state.rank ≤ new.state.rank := by
  cases move with
  | same => exact Nat.le_refl _
  | start w state => rw [state]; exact Nat.zero_le _
  | ready w _ state => rw [state]; exact Nat.le_succ _
  | collect => exact old.state.rank_le
  | retire => exact old.state.rank_le
  | mark => exact Nat.le_refl _
  | release => exact old.state.rank_le

/-- No job of one executor is lost or has gone back in another. -/
def Onward (e next : Executor W) : Prop :=
  ∀ (id : JobId) (job : TaskJob W), e.jobs[id]? = some job →
    Entry next.jobs id fun later => job.state.rank ≤ later.state.rank

theorem run_onward {e : Executor W} (sound : Sound e) (actions : List (TaskAction W)) :
    Onward e ((executor W).run e actions).1 := by
  refine Machine.run_pairwise (R := Onward) (fun e a => act_sound (a := a))
    (fun e id job at1 => ⟨job, at1, Nat.le_refl _⟩) (fun first second id job at1 => ?_)
    (fun e a sound id job at1 => ?_) actions e sound
  · obtain ⟨mid, at2, low⟩ := first id job at1
    exact (second id mid at2).imp fun later high => Nat.le_trans low high
  · obtain ⟨after, at2, move⟩ := act_moves sound a at1
    exact ⟨after, at2, move.rank⟩

theorem act_stopping {e : Executor W} (sound : Sound e) (a : TaskAction W)
    (stopping : e.stopping = true) : (e.act a).1.stopping = true := by
  obtain ⟨linked, counted, -⟩ := sound
  cases a with
  | submit work now =>
    rcases act_submit e work now with same | ⟨w, -, open1, -⟩
    · rw [same]
      exact stopping
    · rw [open1] at stopping
      cases stopping
  | cancel handle => exact (cancelLocked_cancelled linked handle).keeps.1.trans stopping
  | collect handle =>
    have collected := collectTask_collected linked handle
    show (e.collectTask handle).1.stopping = true
    generalize e.collectTask handle = result at collected
    cases collected <;> exact stopping
  | stop =>
    rw [act_stop]
    exact (stop_stopping linked counted).stopping
  | take w =>
    have took := takeTask_took linked w
    show (e.takeTask w).stopping = true
    generalize e.takeTask w = result at took
    cases took <;> exact stopping
  | execute w now =>
    have executed := executeTask_executed linked w now
    show (e.executeTask w now).1.stopping = true
    generalize e.executeTask w now = result at executed
    cases executed <;> exact stopping
  | finish w =>
    have finished := finishTask_finished linked w
    show (e.finishTask w).stopping = true
    generalize e.finishTask w = result at finished
    cases finished <;> exact stopping

/-- After a stop the executor is stopping for good. -/
theorem run_stopping (actions : List (TaskAction W)) : ∀ e : Executor W, Sound e →
    (e.stopping = true ∨ .stop ∈ actions) → ((executor W).run e actions).1.stopping = true := by
  induction actions with
  | nil =>
    intro e _ stopping
    exact stopping.resolve_right List.not_mem_nil
  | cons a rest ih =>
    intro e sound stopping
    refine ih _ (act_sound sound a) ?_
    rcases stopping with before | member
    · exact .inl (act_stopping sound a before)
    · rcases List.mem_cons.mp member with rfl | later
      · refine .inl ?_
        show (e.act .stop).1.stopping = true
        rw [act_stop]
        exact (stop_stopping sound.linked sound.counted).stopping
      · exact .inr later

/-- **Counters, queue and slots agree.** -/
structure Conserved (e : Executor W) : Prop where
  queued : e.counts.queued = e.queue.length ∧ e.queue.length = e.inState .queued
  running : e.counts.running = e.inState .running ∧ e.inState .running ≤ e.options.threads
  ready : e.counts.ready = e.inState .ready
  outstanding : e.counts.outstanding = e.counts.queued + e.counts.running + e.counts.ready ∧
    e.counts.outstanding = e.occupied
  bound : e.counts.outstanding ≤ e.options.threads + e.options.queueCapacity ∧
    e.options.threads + e.options.queueCapacity ≤ slotCount
  balance : e.counts.admitted = e.counts.released + e.counts.outstanding
  released : e.counts.released = e.inState .retired
  slots : ∀ (id id' : JobId) (job job' : TaskJob W), e.jobs[id]? = some job → e.jobs[id']? = some job' →
    job.state ≠ .retired → job'.state ≠ .retired → job.slot = job'.slot → id = id'
  kept : ∀ (id : JobId) (job : TaskJob W), e.jobs[id]? = some job → job.state ≠ .retired →
    e.slots[job.slot]? = some (some id)

theorem Sound.conserved {e : Executor W} (sound : Sound e) : Conserved e := by
  obtain ⟨linked, counted, -⟩ := sound
  have total := inState_total e
  have mine : ∀ (id : JobId) (job : TaskJob W), e.jobs[id]? = some job → job.state ≠ .retired →
      e.slots[job.slot]? = some (some id) := fun id job at1 live =>
    (linked.owned job.slot id).mpr ⟨job, at1, live, rfl⟩
  exact
    { queued := ⟨counted.queue, counted.queue.symm.trans counted.queued⟩
      running := ⟨counted.running, by
        rw [← counted.running, counted.busy, ← linked.workers]
        exact List.countP_le_length⟩
      ready := counted.ready
      outstanding := ⟨by
        have balance := counted.balance
        rw [counted.admitted, counted.released] at balance
        rw [counted.queued, counted.running, counted.ready]
        omega, counted.outstanding⟩
      bound := ⟨counted.bound, by
        obtain ⟨-, threads, -, capacity, -⟩ := linked.options
        unfold slotCount
        omega⟩
      balance := counted.balance
      released := counted.released
      slots := fun id id' job job' at1 at2 live live' same => by
        have first := mine id job at1 live
        rw [same, mine id' job' at2 live'] at first
        exact (Option.some.inj (Option.some.inj first)).symm
      kept := mine }

/-- When the workers have returned after a stop, nothing is outstanding. -/
theorem Sound.drained {e : Executor W} (sound : Sound e) (stopping : e.stopping = true)
    (returned : ∀ worker ∈ e.workers, worker = .returned) : e.counts.outstanding = 0 := by
  have none : ∀ id (P : TaskJob W → Prop), (∀ job, P job → job.state ≠ .retired) →
      ¬Entry e.jobs id P := by
    rintro id P alive ⟨job, found, holds⟩
    by_cases settled : Unsettled job
    · exact sound.halted stopping id ⟨job, found, settled⟩
    · have running : job.state = .running := by
        by_contra other
        exact settled ⟨alive job holds, fun marked => other marked.1⟩
      obtain ⟨w, worker, at1, mine⟩ := (sound.linked.held id).mp ⟨job, found, running⟩
      rw [returned worker (List.mem_of_getElem? at1)] at mine
      cases mine
  have empty : ∀ state, state ≠ .retired → e.inState state = 0 := by
    intro state live
    refine countP_zero fun id entry => none id _ (fun job same => ?_) entry
    rw [of_decide_eq_true same]
    exact live
  have conserved := sound.conserved
  rw [conserved.outstanding.1, conserved.queued.1, conserved.queued.2, conserved.running.1,
    conserved.ready, empty .queued (by decide), empty .running (by decide), empty .ready (by decide)]

/-- **Bounded executor conservation.** For any admitted options and any interleaving of the operations:
the counters, the queue and the slots agree within their bounds; every job moves only as `Move` says, so
it is released at most once and no job goes back; an admission finds a free slot; and after a stop, when
the workers have returned, nothing is outstanding. -/
theorem executor_conservation (o : TaskExecutorOptions) (e₀ : Executor W)
    (made : makeExecutor o = .ok e₀) (actions : List (TaskAction W)) :
    let e := ((executor W).run e₀ actions).1
    Conserved e ∧
    (∀ (a : TaskAction W) (id : JobId) (job : TaskJob W), e.jobs[id]? = some job →
      ∃ next, (e.act a).1.jobs[id]? = some next ∧ Move e id job a next) ∧
    (∀ later, Onward e ((executor W).run e later).1) ∧
    (∀ (work : W) (now : Nat) (next : Executor W) (id : JobId),
      e.submitTask (some work) now = .ok (next, { admission := .accepted, job := some id }) →
        ∃ slot < slotCount, e.slots[slot]? = some none ∧ next.slots[slot]? = some (some id)) ∧
    (.stop ∈ actions → (∀ worker ∈ e.workers, worker = .returned) →
      e.counts.outstanding = 0 ∧ e.counts.admitted = e.counts.released) := by
  intro e
  have sound : Sound e :=
    Machine.run_invariant (P := Sound) (fun e a sound => act_sound sound a) actions (sound_initial made)
  refine ⟨sound.conserved, fun a id job at1 => act_moves sound a at1, run_onward sound,
    fun work now next id accepted => ?_, fun stopped returned => ?_⟩
  · have submitted := submitTask_submitted e (some work) now
    rw [accepted] at submitted
    cases submitted with
    | accepted _ _ below =>
      obtain ⟨inside, free⟩ := free_slot sound.linked sound.counted below
      exact ⟨_, sound.linked.slots ▸ inside, free, set_same free _⟩
  · have stopping := run_stopping actions e₀ (sound_initial made) (.inr stopped)
    have empty := sound.drained stopping returned
    refine ⟨empty, ?_⟩
    rw [sound.conserved.balance, empty, Nat.add_zero]

/-- A job cancelled by a stop while it runs: its slot is given back when its worker finishes. -/
theorem executor_conservation_stop :
    let o : TaskExecutorOptions := { threads := 1, queueCapacity := 1, timeout := 10 }
    let e₀ : Executor Nat := { options := o, workers := [.waiting] }
    let actions : List (TaskAction Nat) :=
      [.submit (some 7) 0, .take 0, .execute 0 3, .stop, .finish 0, .take 0]
    makeExecutor o = .ok e₀ ∧ Conserved ((executor Nat).run e₀ actions).1 ∧
      ((executor Nat).run e₀ actions).1.counts.outstanding = 0 ∧
      ((executor Nat).run e₀ actions).1.counts.released = 1 := by
  intro o e₀ actions
  have made : makeExecutor o = .ok e₀ := rfl
  obtain ⟨conserved, -, -, -, drained⟩ := executor_conservation o e₀ made actions
  have drained := drained (by decide +kernel) (by decide +kernel)
  exact ⟨made, conserved, drained.1, by decide +kernel⟩

end HpServer.Business
