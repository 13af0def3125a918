/-
**The task queue of an event loop.**

* `LoopSound` — before a failure is observed, **what was accepted is what was executed, then the rest of the batch,
  then the queue**; what is held and not destroyed is what is outstanding.
* `loop_tasks` — order, capacity, the end states and what becomes of the tasks of a loop that fails, in every
  reachable state.
-/

import HpServer.Net.EventLoop
import Mathlib.Data.List.Perm.Basic
import Mathlib.Tactic

namespace HpServer.Net

open Machines

variable {T : Type}

/-! ### What became of the tasks -/

def acceptedTasks (log : List (LoopEvent T)) : List T :=
  log.filterMap fun
    | .accepted task => some task
    | _ => none

def executedTasks (log : List (LoopEvent T)) : List T :=
  log.filterMap fun
    | .executed task => some task
    | _ => none

def releasedTasks (log : List (LoopEvent T)) : List T :=
  log.filterMap fun
    | .released task => some task
    | _ => none

/-- The tasks of the batch that have not been started. -/
def LoopAt.unstarted : LoopAt T → List T
  | .next batch => batch
  | .executing _ rest => rest
  | .releasing _ rest => rest
  | .catching _ batch => batch
  | _ => []

/-- The tasks outside the queue that have not been destroyed. -/
def LoopAt.held : LoopAt T → List T
  | .next batch => batch
  | .executing task rest => task :: rest
  | .releasing task rest => task :: rest
  | .catching current batch => current.toList ++ batch
  | .cancelling doomed => doomed
  | _ => []

/-- The owner goes on. -/
def LoopAction.isProceed : LoopAction T → Bool
  | .proceed _ => true
  | _ => false

/-- A task is offered. -/
def LoopAction.isEnqueue : LoopAction T → Bool
  | .enqueueLoopTask .. => true
  | _ => false

/-- Inside a poll, with no exception caught. -/
def LoopAt.polling : LoopAt T → Bool
  | .outside | .catching .. | .cancelling _ => false
  | _ => true

/-- **The state of a loop and what became of its tasks.** -/
structure LoopSound (r : LoopRun T) (log : List (LoopEvent T)) : Prop where
  order : r.loop.failureObserved = false → acceptedTasks log = executedTasks log ++ r.place.unstarted ++ r.loop.tasks
  started : executedTasks log <+: acceptedTasks log
  held : (acceptedTasks log).Perm (releasedTasks log ++ r.place.held ++ r.loop.tasks)
  outstanding : r.loop.outstanding = (r.place.held ++ r.loop.tasks).length
  capacity : r.loop.outstanding ≤ kTaskCapacity
  failure : r.loop.failure = true ↔ r.loop.state = .failed
  observed : r.loop.failureObserved = true → r.loop.state = .failed ∧ r.loop.tasks = []
    ∧ (r.place = .outside ∨ r.place = .catching none [] ∨ ∃ doomed, r.place = .cancelling doomed)
  cancelling : ∀ doomed, r.place = .cancelling doomed → r.loop.failureObserved = true
  stopped : r.loop.state = .stopped → r.place = .outside ∧ r.loop.tasks = []

section Steps

variable {r : LoopRun T} {log : List (LoopEvent T)} {l : EventLoop T}

/-- What the locked functions of other threads do besides taking a task. -/
structure Requested (l m : EventLoop T) : Prop where
  tasks : m.tasks = l.tasks
  outstanding : m.outstanding = l.outstanding
  observed : m.failureObserved = l.failureObserved
  failure : (l.failure = true ↔ l.state = .failed) → (m.failure = true ↔ m.state = .failed)
  failed : l.state = .failed → m.state = .failed
  stopped : m.state = .stopped ↔ l.state = .stopped
  closed : l.closed = true → m.closed = true

theorem Requested.refl (l : EventLoop T) : Requested l l := ⟨rfl, rfl, rfl, id, id, Iff.rfl, id⟩

theorem Requested.wake {m : EventLoop T} (requested : Requested l m) (opened : l.ended = false) (fails : Bool) :
    Requested l (m.wakeLocked fails) := by
  unfold EventLoop.wakeLocked
  split
  · have neither : l.state ≠ .stopped ∧ l.state ≠ .failed := by simpa [EventLoop.ended] using opened
    exact ⟨requested.tasks, requested.outstanding, requested.observed, fun _ => iff_of_true rfl rfl, fun _ => rfl,
      iff_of_false (fun no => nomatch no) neither.1, fun _ => rfl⟩
  · exact requested

/-- A change of the control words before a wake-up. -/
theorem Requested.control (opened : l.ended = false) (control : Control) (deadline : Int) (fails : Bool) :
    Requested l
      (({ l with control := control, controlDeadline := deadline, controlPending := true } : EventLoop T).wakeLocked
        fails) :=
  Requested.wake (l := l) (m := { l with control := control, controlDeadline := deadline, controlPending := true })
    ⟨rfl, rfl, rfl, id, id, Iff.rfl, id⟩ opened fails

theorem requestLoopDrain_requested (l : EventLoop T) (deadline : Int) (fails : Bool) :
    Requested l (l.requestLoopDrain deadline fails) := by
  unfold EventLoop.requestLoopDrain
  split
  · exact .refl l
  case isFalse opened =>
    have live : l.ended = false := by
      cases ended : l.ended with
      | false => rfl
      | true => simp [ended] at opened
    exact .control live _ _ fails

theorem requestLoopForceClose_requested (l : EventLoop T) (fails : Bool) :
    Requested l (l.requestLoopForceClose fails) := by
  unfold EventLoop.requestLoopForceClose
  split
  · exact .refl l
  case isFalse opened => exact .control (by simpa using opened) _ _ fails

theorem notifyControl_requested (l : EventLoop T) (fails : Bool) : Requested l (l.notifyControl fails) := by
  unfold EventLoop.notifyControl
  split
  · exact .refl l
  case isFalse opened => exact .control (by simpa using opened) _ _ fails

theorem dispatchControl_requested (l : EventLoop T) (now : Int) : Requested l (l.dispatchControl now).1 := by
  unfold EventLoop.dispatchControl
  dsimp only
  split
  · split <;> exact ⟨rfl, rfl, rfl, id, id, Iff.rfl, id⟩
  · split <;> exact ⟨rfl, rfl, rfl, id, id, Iff.rfl, id⟩

theorem requestLoopStop_requested (l : EventLoop T) (fails : Bool) : Requested l (l.requestLoopStop fails) := by
  unfold EventLoop.requestLoopStop
  split
  · exact .refl l
  case isFalse opened =>
    have live : l.state ≠ .stopping ∧ l.state ≠ .stopped ∧ l.state ≠ .failed := by
      simpa [EventLoop.closed, and_assoc] using opened
    refine Requested.wake (l := l) (m := { l with state := .stopping })
      ⟨rfl, rfl, rfl, fun same => ?_, fun failed => absurd failed live.2.2, ?_, fun _ => rfl⟩ ?_ fails
    · exact iff_of_false (fun set => live.2.2 (same.mp set)) fun no => nomatch no
    · exact iff_of_false (fun no => nomatch no) live.2.1
    · simp [EventLoop.ended, live]

/-- **The requests of other threads leave the tasks alone.** -/
theorem LoopSound.requested {m : EventLoop T} (sound : LoopSound r log) (requested : Requested r.loop m) :
    LoopSound { r with loop := m } log where
  order fresh := by
    rw [requested.observed] at fresh
    rw [requested.tasks]
    exact sound.order fresh
  started := sound.started
  held := by
    rw [requested.tasks]
    exact sound.held
  outstanding := by
    rw [requested.outstanding, requested.tasks]
    exact sound.outstanding
  capacity := by
    rw [requested.outstanding]
    exact sound.capacity
  failure := requested.failure sound.failure
  observed seen := by
    rw [requested.observed] at seen
    obtain ⟨failed, none, place⟩ := sound.observed seen
    exact ⟨requested.failed failed, requested.tasks.trans none, place⟩
  cancelling doomed place := by
    rw [requested.observed]
    exact sound.cancelling doomed place
  stopped ended := by
    obtain ⟨place, none⟩ := sound.stopped (requested.stopped.mp ended)
    exact ⟨place, requested.tasks.trans none⟩

/-! ### Accepting -/

theorem acceptedTasks_append (log more : List (LoopEvent T)) :
    acceptedTasks (log ++ more) = acceptedTasks log ++ acceptedTasks more := List.filterMap_append

theorem executedTasks_append (log more : List (LoopEvent T)) :
    executedTasks (log ++ more) = executedTasks log ++ executedTasks more := List.filterMap_append

theorem releasedTasks_append (log more : List (LoopEvent T)) :
    releasedTasks (log ++ more) = releasedTasks log ++ releasedTasks more := List.filterMap_append

/-- **A task is taken only by a loop that is ready or running and below its capacity.** -/
theorem enqueueLoopTask_spec (l : EventLoop T) (task : T) (allocated fails : Bool) :
    l.enqueueLoopTask task allocated fails = (l, false)
    ∨ l.closed = false ∧ l.outstanding ≠ kTaskCapacity ∧
      l.enqueueLoopTask task allocated fails
        = (({ l with tasks := l.tasks ++ [task], outstanding := l.outstanding + 1 } : EventLoop T).wakeLocked fails,
            true) := by
  unfold EventLoop.enqueueLoopTask
  split
  · exact .inl rfl
  case isFalse taken =>
    simp only [Bool.or_eq_true, decide_eq_true_eq, Bool.not_eq_true', not_or] at taken
    exact .inr ⟨by simpa using taken.1.1, taken.1.2, rfl⟩

theorem closed_false_iff (l : EventLoop T) :
    l.closed = false ↔ l.state ≠ .stopping ∧ l.state ≠ .stopped ∧ l.state ≠ .failed := by
  simp [EventLoop.closed, and_assoc]

theorem LoopSound.enqueue (sound : LoopSound r log) (task : T) (opened : r.loop.closed = false)
    (space : r.loop.outstanding ≠ kTaskCapacity) :
    LoopSound
      { r with loop := { r.loop with tasks := r.loop.tasks ++ [task], outstanding := r.loop.outstanding + 1 } }
      (log ++ [.accepted task]) := by
  obtain ⟨-, unstopped, unfailed⟩ := (closed_false_iff _).mp opened
  have executed : executedTasks (log ++ [.accepted task]) = executedTasks log := by
    rw [executedTasks_append]
    exact List.append_nil _
  have released : releasedTasks (log ++ [.accepted task]) = releasedTasks log := by
    rw [releasedTasks_append]
    exact List.append_nil _
  have accepted : acceptedTasks (log ++ [.accepted task]) = acceptedTasks log ++ [task] := acceptedTasks_append _ _
  exact {
    order := fun fresh => by
      rw [accepted, executed, sound.order fresh]
      exact List.append_assoc _ _ _
    started := by
      rw [accepted, executed]
      exact sound.started.trans (List.prefix_append _ _)
    held := by
      rw [accepted, released, ← List.append_assoc]
      exact sound.held.append_right _
    outstanding := by
      show r.loop.outstanding + 1 = (r.place.held ++ (r.loop.tasks ++ [task])).length
      rw [sound.outstanding, List.length_append, List.length_append, List.length_append]
      exact Nat.add_assoc _ _ _
    capacity := Nat.lt_of_le_of_ne sound.capacity space
    failure := sound.failure
    observed := fun seen => absurd (sound.observed seen).1 unfailed
    cancelling := sound.cancelling
    stopped := fun ended => absurd ended unstopped }

/-! ### The owner's sections -/

/-- The owner has observed no failure while it goes through a poll. -/
theorem LoopSound.unobserved (sound : LoopSound r log) (polling : r.place.polling = true) :
    r.loop.failureObserved = false := by
  by_contra seen
  rcases (sound.observed (by simpa using seen)).2.2 with out | caught | ⟨doomed, cancels⟩
  · rw [out] at polling
    cases polling
  · rw [caught] at polling
    cases polling
  · rw [cancels] at polling
    cases polling

theorem LoopSound.inside (sound : LoopSound r log) (polling : r.place.polling = true) : r.loop.state ≠ .stopped := by
  intro ended
  rw [(sound.stopped ended).1] at polling
  cases polling

/-- The owner goes from one place to another with the same tasks. -/
theorem LoopSound.move (sound : LoopSound r log) {place : LoopAt T} (unstarted : place.unstarted = r.place.unstarted)
    (held : place.held = r.place.held) (live : r.loop.state ≠ .stopped ∨ place = .outside)
    (seen : r.loop.failureObserved = false ∨ place = .outside ∨ place = .catching none [])
    (busy : ∀ doomed, place ≠ .cancelling doomed) : LoopSound { r with place := place } log where
  order fresh := by
    rw [unstarted]
    exact sound.order fresh
  started := sound.started
  held := by
    rw [held]
    exact sound.held
  outstanding := by
    rw [held]
    exact sound.outstanding
  capacity := sound.capacity
  failure := sound.failure
  observed noted := by
    refine ⟨(sound.observed noted).1, (sound.observed noted).2.1, ?_⟩
    rcases seen with unseen | out | caught
    · rw [unseen] at noted
      cases noted
    · exact .inl out
    · exact .inr (.inl caught)
  cancelling doomed same := absurd same (busy doomed)
  stopped ended := by
    rcases live with alive | out
    · exact absurd ended alive
    · exact ⟨out, (sound.stopped ended).2⟩

/-- **A task is destroyed and counted out.** -/
theorem LoopSound.release (sound : LoopSound r log) {place : LoopAt T} {task : T}
    (doomed : r.place.doomedTask = some task) (unstarted : place.unstarted = r.place.unstarted)
    (held : r.place.held = task :: place.held) (busy : (∃ doomed, place = .cancelling doomed) ↔ ∃ doomed, r.place = .cancelling doomed) :
    LoopSound { loop := r.loop.releaseTask, place := place } (log ++ [.released task]) := by
  have executed : executedTasks (log ++ [.released task]) = executedTasks log := by
    rw [executedTasks_append]
    exact List.append_nil _
  have accepted : acceptedTasks (log ++ [.released task]) = acceptedTasks log := by
    rw [acceptedTasks_append]
    exact List.append_nil _
  have released : releasedTasks (log ++ [.released task]) = releasedTasks log ++ [task] := releasedTasks_append _ _
  exact {
    order := fun fresh => by
      rw [accepted, executed, unstarted]
      exact sound.order fresh
    started := by
      rw [accepted, executed]
      exact sound.started
    held := by
      rw [accepted, released, List.append_assoc (releasedTasks log)]
      show (acceptedTasks log).Perm (releasedTasks log ++ (task :: place.held) ++ r.loop.tasks)
      rw [← held]
      exact sound.held
    outstanding := by
      show r.loop.outstanding - 1 = _
      rw [sound.outstanding, held]
      rfl
    capacity := (Nat.sub_le _ _).trans sound.capacity
    failure := sound.failure
    observed := fun seen => by
      refine ⟨(sound.observed seen).1, (sound.observed seen).2.1, .inr (.inr (busy.mpr ?_))⟩
      rcases (sound.observed seen).2.2 with out | caught | cancels
      · rw [out] at doomed
        cases doomed
      · rw [caught] at doomed
        cases doomed
      · exact cancels
    cancelling := fun tasks same => by
      obtain ⟨tasks, cancels⟩ := busy.mp ⟨tasks, same⟩
      exact sound.cancelling tasks cancels
    stopped := fun ended => by
      rw [(sound.stopped ended).1] at doomed
      cases doomed }

/-- The owner takes the queue as its batch. -/
theorem LoopSound.swap (sound : LoopSound r log) (place : r.place = .dispatching) :
    LoopSound { loop := { r.loop with tasks := [] }, place := .next r.loop.tasks } log := by
  have polling : r.place.polling = true := by
    rw [place]
    rfl
  have fresh : r.loop.failureObserved = false := sound.unobserved polling
  have order := sound.order fresh
  have held := sound.held
  have outstanding := sound.outstanding
  rw [place] at order held outstanding
  exact {
    order := fun _ => by
      rw [order]
      simp [LoopAt.unstarted]
    started := sound.started
    held := by simpa [LoopAt.held] using held
    outstanding := by simpa [LoopAt.held] using outstanding
    capacity := sound.capacity
    failure := sound.failure
    observed := fun seen => by
      rw [fresh] at seen
      cases seen
    cancelling := fun _ no => nomatch no
    stopped := fun ended => absurd ended (sound.inside polling) }

/-- **The next task of the batch is executed.** -/
theorem LoopSound.execute (sound : LoopSound r log) {task : T} {rest : List T} (place : r.place = .next (task :: rest)) :
    LoopSound { r with place := .executing task rest } (log ++ [.executed task]) := by
  have polling : r.place.polling = true := by
    rw [place]
    rfl
  have fresh : r.loop.failureObserved = false := sound.unobserved polling
  have order := sound.order fresh
  have held := sound.held
  have outstanding := sound.outstanding
  rw [place] at order held outstanding
  have executed : executedTasks (log ++ [.executed task]) = executedTasks log ++ [task] := executedTasks_append _ _
  have accepted : acceptedTasks (log ++ [.executed task]) = acceptedTasks log := by
    rw [acceptedTasks_append]
    exact List.append_nil _
  have released : releasedTasks (log ++ [.executed task]) = releasedTasks log := by
    rw [releasedTasks_append]
    exact List.append_nil _
  have after : acceptedTasks log = (executedTasks log ++ [task]) ++ (rest ++ r.loop.tasks) := by
    rw [order]
    simp [LoopAt.unstarted]
  exact {
    order := fun _ => by
      rw [accepted, executed, after]
      exact (List.append_assoc _ _ _).symm
    started := by
      rw [accepted, executed, after]
      exact List.prefix_append _ _
    held := by
      rw [accepted, released]
      exact held
    outstanding := outstanding
    capacity := sound.capacity
    failure := sound.failure
    observed := fun seen => by
      rw [fresh] at seen
      cases seen
    cancelling := fun _ no => nomatch no
    stopped := fun ended => absurd ended (sound.inside polling) }

/-- **A failure is observed**: what is left in the queue and in the batch is to be destroyed. -/
theorem LoopSound.fail (sound : LoopSound r log) {current : Option T} {batch : List T}
    (place : r.place = .catching current batch) :
    LoopSound
      { loop := r.loop.failEventLoop.1, place := .cancelling (r.loop.failEventLoop.2 ++ (current.toList ++ batch)) }
      log := by
  have held := sound.held
  have outstanding := sound.outstanding
  rw [place] at held outstanding
  exact {
    order := fun fresh => nomatch fresh
    started := sound.started
    held := by
      refine held.trans ?_
      simp only [LoopAt.held, EventLoop.failEventLoop, List.append_nil, List.append_assoc]
      refine List.Perm.append_left _ ?_
      rw [← List.append_assoc]
      exact List.perm_append_comm
    outstanding := by
      show r.loop.outstanding = _
      rw [outstanding]
      simp only [LoopAt.held, EventLoop.failEventLoop, List.append_nil, List.length_append]
      exact Nat.add_comm _ _
    capacity := sound.capacity
    failure := iff_of_true rfl rfl
    observed := fun _ => ⟨rfl, rfl, .inr (.inr ⟨_, rfl⟩)⟩
    cancelling := fun _ _ => rfl
    stopped := fun ended => nomatch ended }

/-- The loop stops behind its last task. -/
theorem LoopSound.finish (sound : LoopSound r log) (place : r.place = .finishing) (state : r.loop.state = .stopping)
    (empty : r.loop.tasks = []) :
    LoopSound { loop := { r.loop with state := .stopped }, place := .outside } log := by
  have held := sound.held
  have outstanding := sound.outstanding
  have order := sound.order
  rw [place] at order held outstanding
  have unfailed : r.loop.state ≠ .failed := by
    rw [state]
    exact fun no => nomatch no
  exact {
    order := order
    started := sound.started
    held := held
    outstanding := outstanding
    capacity := sound.capacity
    failure := iff_of_false (fun set => unfailed (sound.failure.mp set)) fun no => nomatch no
    observed := fun seen => absurd (sound.observed seen).1 unfailed
    cancelling := fun _ no => nomatch no
    stopped := fun _ => ⟨rfl, empty⟩ }

/-- **What the owner's next section does.** -/
inductive Section (r : LoopRun T) : LoopRun T × List (LoopEvent T) → Prop where
  | idle (place : r.place = .outside) : Section r (r, [])
  | pass {before after : LoopAt T} (place : r.place = before) (polling : before.polling = true)
      (unstarted : after.unstarted = before.unstarted) (held : after.held = before.held)
      (busy : ∀ doomed, after ≠ .cancelling doomed) (calm : before.doomedTask = none) :
      Section r ({ r with place := after }, [])
  | swap (place : r.place = .dispatching) :
      Section r ({ loop := { r.loop with tasks := [] }, place := .next r.loop.tasks }, [])
  | execute {task : T} {rest : List T} (place : r.place = .next (task :: rest)) :
      Section r ({ r with place := .executing task rest }, [.executed task])
  | release {after : LoopAt T} {task : T} (doomed : r.place.doomedTask = some task)
      (unstarted : after.unstarted = r.place.unstarted) (held : r.place.held = task :: after.held)
      (busy : (∃ doomed, after = .cancelling doomed) ↔ ∃ doomed, r.place = .cancelling doomed) :
      Section r ({ loop := r.loop.releaseTask, place := after }, [.released task])
  | finish (place : r.place = .finishing) (state : r.loop.state = .stopping) (empty : r.loop.tasks = []) :
      Section r ({ loop := { r.loop with state := .stopped }, place := .outside }, [])
  | fail {current : Option T} {batch : List T} (place : r.place = .catching current batch) :
      Section r
        ({ loop := r.loop.failEventLoop.1, place := .cancelling (r.loop.failEventLoop.2 ++ (current.toList ++ batch)) },
          [])
  | cancelled (place : r.place = .cancelling []) : Section r ({ r with place := .outside }, [])

theorem proceed_section (r : LoopRun T) (throws : Bool) : Section r (r.proceed throws) := by
  unfold LoopRun.proceed
  split
  case h_1 place => exact .idle place
  case h_2 place =>
    split
    · exact .pass place rfl rfl rfl (fun _ no => nomatch no) rfl
    · exact .pass place rfl rfl rfl (fun _ no => nomatch no) rfl
  case h_3 place =>
    split
    · exact .pass place rfl rfl rfl (fun _ no => nomatch no) rfl
    · exact .swap place
  case h_4 place => exact .pass place rfl rfl rfl (fun _ no => nomatch no) rfl
  case h_5 task rest place =>
    split
    · exact .pass place rfl rfl rfl (fun _ no => nomatch no) rfl
    · exact .execute place
  case h_6 task rest place =>
    split
    · exact .pass place rfl rfl rfl (fun _ no => nomatch no) rfl
    · exact .pass place rfl rfl rfl (fun _ no => nomatch no) rfl
  case h_7 task rest place =>
    refine .release (by rw [place]; rfl) (by rw [place]; rfl) (by rw [place]; rfl) (iff_of_false ?_ ?_)
    · rintro ⟨doomed, no⟩
      cases no
    · rw [place]
      rintro ⟨doomed, no⟩
      cases no
  case h_8 place =>
    split
    · exact .pass place rfl rfl rfl (fun _ no => nomatch no) rfl
    · split
      case isTrue done =>
        obtain ⟨state, empty⟩ : r.loop.state = .stopping ∧ r.loop.tasks = [] := by simpa using done
        exact .finish place state empty
      case isFalse => exact .pass place rfl rfl rfl (fun _ no => nomatch no) rfl
  case h_9 place => exact .fail place
  case h_10 place => exact .cancelled place
  case h_11 task rest place =>
    exact .release (by rw [place]; rfl) (by rw [place]; rfl) (by rw [place]; rfl) (iff_of_true ⟨rest, rfl⟩ ⟨_, place⟩)

/-- **The owner's next section keeps a loop sound.** -/
theorem LoopSound.section {result : LoopRun T × List (LoopEvent T)} (sound : LoopSound r log)
    (next : Section r result) : LoopSound result.1 (log ++ result.2) := by
  have silent : log ++ ([] : List (LoopEvent T)) = log := List.append_nil log
  cases next with
  | idle => rwa [silent]
  | pass place polling unstarted held busy =>
    rw [silent]
    subst place
    exact sound.move unstarted held (.inl (sound.inside polling)) (.inl (sound.unobserved polling)) busy
  | swap place =>
    rw [silent]
    exact sound.swap place
  | execute place => exact sound.execute place
  | release doomed unstarted held busy => exact sound.release doomed unstarted held busy
  | finish place state empty =>
    rw [silent]
    exact sound.finish place state empty
  | fail place =>
    rw [silent]
    exact sound.fail place
  | cancelled place =>
    rw [silent]
    exact sound.move (by rw [place]; rfl) (by rw [place]; rfl) (.inr rfl) (.inr (.inl rfl)) fun _ no => nomatch no

/-- **What one action does.** -/
inductive Acts (r : LoopRun T) : LoopAction T → LoopRun T × List (LoopEvent T) → Prop where
  | refused (task : T) (allocated fails : Bool) : Acts r (.enqueueLoopTask task allocated fails) (r, [])
  | taken (task : T) (allocated fails : Bool) (opened : r.loop.closed = false)
      (space : r.loop.outstanding ≠ kTaskCapacity) :
      Acts r (.enqueueLoopTask task allocated fails)
        ({ r with
          loop := ({ r.loop with tasks := r.loop.tasks ++ [task], outstanding := r.loop.outstanding + 1 } :
            EventLoop T).wakeLocked fails },
          [.accepted task])
  | requested (action : LoopAction T) {m : EventLoop T} (requested : Requested r.loop m)
      (other : action.isProceed = false) (empty : action.isEnqueue = false) : Acts r action ({ r with loop := m }, [])
  | entered (place : r.place = .outside) (live : r.loop.state ≠ .stopped)
      (unseen : r.loop.state = .failed → r.loop.failureObserved = false) :
      Acts r .pollOnce ({ r with place := .entered }, [])
  | caught (place : r.place = .outside) (live : r.loop.state ≠ .stopped) :
      Acts r .observeFailure ({ r with place := .catching none [] }, [])
  | proceed {throws : Bool} {result : LoopRun T × List (LoopEvent T)} (next : Section r result) :
      Acts r (.proceed throws) result

theorem runEventLoop_requested (r : LoopRun T) :
    ∃ m, Requested r.loop m ∧ r.runEventLoop = { r with loop := m } := by
  unfold LoopRun.runEventLoop
  split
  case isFalse => exact ⟨r.loop, .refl _, rfl⟩
  case isTrue ready =>
    refine ⟨{ r.loop with state := .running }, ⟨rfl, rfl, rfl, fun same => ?_, ?_, ?_, ?_⟩, rfl⟩
    · refine iff_of_false (fun set => ?_) fun no => nomatch no
      rw [same.mp set] at ready
      cases ready
    · intro failed
      rw [failed] at ready
      cases ready
    · rw [ready]
      exact iff_of_false (fun no => nomatch no) fun no => nomatch no
    · intro closed
      simp [EventLoop.closed, ready] at closed

theorem acts (r : LoopRun T) (action : LoopAction T) : Acts r action (r.act action) := by
  cases action with
  | enqueueLoopTask task allocated fails =>
    unfold LoopRun.act
    dsimp only
    rcases enqueueLoopTask_spec r.loop task allocated fails with refused | ⟨opened, space, taken⟩
    · rw [refused]
      exact .refused task allocated fails
    · rw [taken]
      exact .taken task allocated fails opened space
  | requestLoopStop fails => exact .requested _ (requestLoopStop_requested _ fails) rfl rfl
  | requestLoopDrain deadline fails => exact .requested _ (requestLoopDrain_requested _ deadline fails) rfl rfl
  | requestLoopForceClose fails => exact .requested _ (requestLoopForceClose_requested _ fails) rfl rfl
  | notifyControl fails => exact .requested _ (notifyControl_requested _ fails) rfl rfl
  | dispatchControl now => exact .requested _ (dispatchControl_requested _ now) rfl rfl
  | runEventLoop =>
    obtain ⟨m, requested, same⟩ := runEventLoop_requested r
    show Acts r _ (r.runEventLoop, [])
    rw [same]
    exact .requested _ requested rfl rfl
  | pollOnce =>
    show Acts r _ (r.pollOnce, [])
    unfold LoopRun.pollOnce
    split
    case h_2 => exact .requested _ (.refl _) rfl rfl
    case h_1 place =>
      split
      case isTrue => exact .requested _ (.refl _) rfl rfl
      case isFalse enters =>
        obtain ⟨live, unseen⟩ : r.loop.state ≠ .stopped ∧ (r.loop.state = .failed → r.loop.failureObserved = false) := by
          simpa using enters
        exact .entered place live unseen
  | observeFailure =>
    show Acts r _ (r.observeFailure, [])
    unfold LoopRun.observeFailure
    split
    case h_2 => exact .requested _ (.refl _) rfl rfl
    case h_1 place =>
      split
      case isFalse => exact .requested _ (.refl _) rfl rfl
      case isTrue noted =>
        obtain ⟨live, -⟩ : r.loop.state ≠ .stopped ∧ r.loop.failure = true := by simpa using noted
        exact .caught place live
  | proceed throws => exact .proceed (proceed_section r throws)

/-- **Every action keeps a loop sound.** -/
theorem LoopSound.act (sound : LoopSound r log) (action : LoopAction T) :
    LoopSound (r.act action).1 (log ++ (r.act action).2) := by
  have silent : log ++ ([] : List (LoopEvent T)) = log := List.append_nil log
  have step := acts r action
  generalize r.act action = result at step
  cases step with
  | refused => rwa [silent]
  | taken task allocated fails opened space =>
    refine (sound.enqueue task opened space).requested (Requested.wake (.refl _) ?_ fails)
    obtain ⟨-, unstopped, unfailed⟩ := (closed_false_iff _).mp opened
    simp [EventLoop.ended, unstopped, unfailed]
  | requested _ requested =>
    rw [silent]
    exact sound.requested requested
  | entered place live unseen =>
    rw [silent]
    refine sound.move (by rw [place]; rfl) (by rw [place]; rfl) (.inl live) (.inl ?_) fun _ no => nomatch no
    by_contra seen
    have noted : r.loop.failureObserved = true := by simpa using seen
    exact seen (unseen (sound.observed noted).1)
  | caught place live =>
    rw [silent]
    exact sound.move (by rw [place]; rfl) (by rw [place]; rfl) (.inl live) (.inr (.inr rfl)) fun _ no => nomatch no
  | proceed next => exact sound.section next

/-! ### A failed loop -/

/-- What a loop does whose failure its owner has observed. -/
structure Doomed (r s : LoopRun T) (events : List (LoopEvent T)) (proceeds : Nat) : Prop where
  observed : s.loop.failureObserved = true
  accepted : acceptedTasks events = []
  executed : executedTasks events = []
  fewer : s.loop.outstanding ≤ r.loop.outstanding - proceeds

theorem LoopSound.idle (sound : LoopSound r log) (empty : r.loop.tasks = []) (free : r.place.held = []) :
    r.loop.outstanding = 0 := by
  rw [sound.outstanding, empty, free]
  rfl

/-- **An observed failure lets nothing start, and the owner destroys one task at a time.** -/
theorem LoopSound.doomed (sound : LoopSound r log) (seen : r.loop.failureObserved = true) (action : LoopAction T) :
    Doomed r (r.act action).1 (r.act action).2 (if action.isProceed then 1 else 0) := by
  obtain ⟨failed, empty, place⟩ := sound.observed seen
  have step := acts r action
  generalize r.act action = result at step
  cases step with
  | refused => exact ⟨seen, rfl, rfl, Nat.le_refl _⟩
  | taken _ _ _ opened => exact absurd failed ((closed_false_iff _).mp opened).2.2
  | requested _ requested other =>
    rw [other]
    exact ⟨requested.observed.trans seen, rfl, rfl, requested.outstanding.le⟩
  | entered => exact ⟨seen, rfl, rfl, Nat.le_refl _⟩
  | caught => exact ⟨seen, rfl, rfl, Nat.le_refl _⟩
  | proceed next =>
    have stuck : r.place.polling = false := by
      by_contra polling
      rw [sound.unobserved (by simpa using polling)] at seen
      cases seen
    have least : r.place.held = [] → r.loop.outstanding ≤ r.loop.outstanding - 1 := fun free => by
      rw [sound.idle empty free]
    cases next with
    | idle out => exact ⟨seen, rfl, rfl, least (by rw [out]; rfl)⟩
    | pass same polling =>
      subst same
      rw [stuck] at polling
      cases polling
    | swap same =>
      rw [same] at stuck
      cases stuck
    | execute same =>
      rw [same] at stuck
      cases stuck
    | release => exact ⟨seen, rfl, rfl, Nat.le_refl _⟩
    | finish same =>
      rw [same] at stuck
      cases stuck
    | fail same =>
      refine ⟨rfl, rfl, rfl, least ?_⟩
      rcases place with out | caught | ⟨doomed, cancels⟩
      · rw [out]
        rfl
      · rw [caught]
        rfl
      · rw [cancels] at same
        cases same
    | cancelled same => exact ⟨seen, rfl, rfl, least (by rw [same]; rfl)⟩

/-- The same along a run. -/
theorem LoopSound.doomed_run (actions : List (LoopAction T)) : ∀ (r : LoopRun T) (log : List (LoopEvent T)),
    LoopSound r log → r.loop.failureObserved = true →
    Doomed r ((eventLoop T).run r actions).1 ((eventLoop T).run r actions).2 (actions.countP LoopAction.isProceed) := by
  induction actions with
  | nil => exact fun r log sound seen => ⟨seen, rfl, rfl, Nat.le_refl _⟩
  | cons action rest ih =>
    intro r log sound seen
    have first := sound.doomed seen action
    have later := ih _ _ (sound.act action) first.observed
    refine ⟨later.observed, ?_, ?_, ?_⟩
    · rw [Machine.run_cons, acceptedTasks_append]
      exact List.append_eq_nil_iff.mpr ⟨first.accepted, later.accepted⟩
    · rw [Machine.run_cons, executedTasks_append]
      exact List.append_eq_nil_iff.mpr ⟨first.executed, later.executed⟩
    · rw [List.countP_cons, Nat.add_comm, ← Nat.sub_sub]
      exact later.fewer.trans (Nat.sub_le_sub_right first.fewer _)

/-- What the state of a loop never leaves. -/
structure Final (l m : EventLoop T) : Prop where
  stopped : l.state = .stopped → m.state = .stopped
  failed : l.state = .failed → m.state = .failed
  closed : l.closed = true → m.closed = true

theorem Final.refl (l : EventLoop T) : Final l l := ⟨id, id, id⟩

/-- **A stopped or failed loop stays so**, and one that is to stop takes no tasks again. -/
theorem LoopSound.final (sound : LoopSound r log) (action : LoopAction T) : Final r.loop (r.act action).1.loop := by
  have step := acts r action
  generalize r.act action = result at step
  cases step with
  | refused => exact .refl _
  | taken _ _ _ opened =>
    obtain ⟨-, unstopped, unfailed⟩ := (closed_false_iff _).mp opened
    refine ⟨fun ended => absurd ended unstopped, fun ended => absurd ended unfailed, fun closed => ?_⟩
    rw [opened] at closed
    cases closed
  | requested _ requested => exact ⟨requested.stopped.mpr, requested.failed, requested.closed⟩
  | entered => exact .refl _
  | caught => exact .refl _
  | proceed next =>
    cases next with
    | idle => exact .refl _
    | pass => exact .refl _
    | swap => exact ⟨id, id, id⟩
    | execute => exact .refl _
    | release => exact ⟨id, id, id⟩
    | finish _ state =>
      refine ⟨fun _ => rfl, fun failed => ?_, fun _ => rfl⟩
      rw [state] at failed
      cases failed
    | fail place =>
      refine ⟨fun ended => ?_, fun _ => rfl, fun _ => rfl⟩
      rw [(sound.stopped ended).1] at place
      cases place
    | cancelled => exact .refl _

end Steps

theorem loopSound_start : LoopSound ({} : LoopRun T) [] where
  order _ := rfl
  started := List.nil_prefix
  held := .refl _
  outstanding := rfl
  capacity := Nat.zero_le _
  failure := iff_of_false (fun no => nomatch no) fun no => nomatch no
  observed seen := nomatch seen
  cancelling _ no := nomatch no
  stopped ended := nomatch ended

theorem loopSound_run (actions : List (LoopAction T)) :
    LoopSound ((eventLoop T).run {} actions).1 ((eventLoop T).run {} actions).2 :=
  Machine.run_history (P := LoopSound) (fun _ _ action sound => sound.act action) actions {} [] loopSound_start

theorem final_run (actions : List (LoopAction T)) : ∀ (r : LoopRun T) (log : List (LoopEvent T)), LoopSound r log →
    Final r.loop ((eventLoop T).run r actions).1.loop := by
  induction actions with
  | nil => exact fun r log sound => .refl _
  | cons action rest ih =>
    intro r log sound
    have first := sound.final action
    have later := ih _ _ (sound.act action)
    exact ⟨fun ended => later.stopped (first.stopped ended), fun failed => later.failed (first.failed failed),
      fun closed => later.closed (first.closed closed)⟩

/-- **The task queue of an event loop.** In every state that any interleaving of calls and polls reaches:

* what was executed is a beginning of what was accepted;
* what was accepted is what was destroyed and what is outstanding, at most the capacity;
* a loop that stops, has stopped or has failed takes nothing, and stays stopped or failed;
* a stopped loop has executed all it accepted;
* behind an observed failure nothing starts, the owner destroys a task with every step it takes until none is
  outstanding, and then all that was accepted is destroyed. -/
theorem loop_tasks (actions : List (LoopAction T)) :
    let r : LoopRun T := ((eventLoop T).run {} actions).1
    let log : List (LoopEvent T) := ((eventLoop T).run {} actions).2
    executedTasks log <+: acceptedTasks log
    ∧ (∃ alive : List T, (acceptedTasks log).Perm (releasedTasks log ++ alive) ∧ r.loop.outstanding = alive.length)
    ∧ r.loop.outstanding ≤ 1024
    ∧ (r.loop.state = .stopping ∨ r.loop.state = .stopped ∨ r.loop.state = .failed →
      ∀ task allocated wakeFails, r.act (.enqueueLoopTask task allocated wakeFails) = (r, []))
    ∧ (∀ later : List (LoopAction T),
      (r.loop.state = .stopped → ((eventLoop T).run r later).1.loop.state = .stopped)
      ∧ (r.loop.state = .failed → ((eventLoop T).run r later).1.loop.state = .failed))
    ∧ (r.loop.state = .stopped → executedTasks log = acceptedTasks log)
    ∧ (r.loop.failureObserved = true → ∀ later : List (LoopAction T),
      let s : LoopRun T := ((eventLoop T).run r later).1
      let events : List (LoopEvent T) := ((eventLoop T).run r later).2
      executedTasks events = [] ∧ acceptedTasks events = []
      ∧ s.loop.outstanding ≤ r.loop.outstanding - later.countP LoopAction.isProceed
      ∧ (s.loop.outstanding = 0 → (acceptedTasks log).Perm (releasedTasks (log ++ events)))) := by
  intro r log
  have sound : LoopSound r log := loopSound_run actions
  refine ⟨sound.started, ⟨r.place.held ++ r.loop.tasks, ?_, sound.outstanding⟩, sound.capacity, ?_, ?_, ?_, ?_⟩
  · rw [← List.append_assoc]
    exact sound.held
  · intro closed task allocated fails
    unfold LoopRun.act
    dsimp only
    rcases enqueueLoopTask_spec r.loop task allocated fails with refused | ⟨opened, -, -⟩
    · rw [refused]
      rfl
    · obtain ⟨going, unstopped, unfailed⟩ := (closed_false_iff _).mp opened
      rcases closed with stopping | stopped | failed
      · exact absurd stopping going
      · exact absurd stopped unstopped
      · exact absurd failed unfailed
  · exact fun later => ⟨(final_run later r log sound).stopped, (final_run later r log sound).failed⟩
  · intro stopped
    obtain ⟨place, empty⟩ := sound.stopped stopped
    have unseen : r.loop.failureObserved = false := by
      by_contra seen
      have failed := (sound.observed (by simpa using seen)).1
      rw [stopped] at failed
      cases failed
    have order := sound.order unseen
    rw [place, empty] at order
    rw [order]
    simp [LoopAt.unstarted]
  · intro seen later s events
    have doomed := LoopSound.doomed_run later r log sound seen
    refine ⟨doomed.executed, doomed.accepted, doomed.fewer, fun none => ?_⟩
    have after : LoopSound s (log ++ events) :=
      Machine.run_history (P := LoopSound) (fun _ _ action sound => sound.act action) later r log sound
    have accepted : acceptedTasks (log ++ events) = acceptedTasks log := by
      rw [acceptedTasks_append, show acceptedTasks events = [] from doomed.accepted, List.append_nil]
    have free : s.place.held ++ s.loop.tasks = [] := List.length_eq_zero_iff.mp (after.outstanding.symm.trans none)
    have held := after.held
    rw [List.append_assoc, free, List.append_nil, accepted] at held
    exact held

end HpServer.Net
