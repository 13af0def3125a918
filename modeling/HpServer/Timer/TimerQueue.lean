/-
**`timer/TimerQueue`: two indexes over one population of timers.**

User code runs in callbacks and in the destructors of their captures, and may call the queue again there. So the
queue is a machine: between two actions user code has control, each of its calls is an action, and returning
or throwing out of a callback is one too. The call of `runDueTimers` in progress stands beside the queue.

* `TimerQueue.Indexed` — **`ordered_` is exactly the deadlines and ids of `records_`**.
* `Dispatch.Right` — what one call of `runDueTimers` does: **its turns go through the timers that were due, in
  their order**, and what it has not reached is still queued unless it was removed.
* `timer_queue` — both in every reachable state, with ids that are never used twice.
-/

import HpServer.Library.Machine
import HpServer.Library.Numbering
import HpServer.Library.Table
import Mathlib.Data.Finset.Sort
import Mathlib.Data.Prod.Lex
import Mathlib.Tactic

namespace HpServer.Timer

open Machines Numbering

abbrev TimePoint := Int
abbrev TimerId := Nat

/-! ### The queue -/

/-- A callback is known by its id: what it does is up to the user. -/
structure TimerQueue where
  records : AList (fun _ : TimerId => TimePoint) := ∅
  ordered : Finset (TimePoint ×ₗ TimerId) := ∅
  lastId : TimerId := 0
  clearing : Bool := false
  running : Bool := false

/-- A turn of the loop of `runDueTimers`: the timer, the deadline it was found with, and whether it was run. -/
structure Turn where
  id : TimerId
  found : Option TimePoint
  runs : Bool
  deriving DecidableEq, Repr

/-- A call of `runDueTimers`. `rest` is what its loop has before it; `initial`, `turns`, `added` and `removed`
record where it started, the turns it has had with what it found, and what user code has done since. -/
structure Dispatch where
  now : TimePoint
  cutoff : TimerId
  initial : Finset (TimePoint ×ₗ TimerId)
  rest : List TimerId
  turns : List Turn := []
  added : List TimerId := []
  removed : List TimerId := []

/-- A callback runs, or its captures are destroyed behind it. -/
inductive Stage where
  | callback
  | release (thrown : Bool)
  deriving DecidableEq, Repr

/-- A queue, the ids of the process, and the call in progress. -/
structure TimerState where
  queue : TimerQueue := {}
  nextId : Nat := 1
  dispatch : Option (Dispatch × Stage) := none

/-- Which allocation of `addTimer` fails. -/
inductive IndexFailure where
  | records | ordered
  deriving DecidableEq, Repr

inductive TimerAction where
  | addTimer (deadline : TimePoint) (callable : Bool) (failure : Option IndexFailure)
  | rescheduleTimer (id : TimerId) (deadline : TimePoint) (fails : Bool)
  | cancelTimer (id : TimerId)
  | clearTimers
  | runDueTimers (now : TimePoint) (cutoff : TimerId)
  | returns
  | throws
  | otherAllocates

inductive TimerEvent where
  | issued (id : TimerId)
  | finished (call : Dispatch) (thrown : Bool) (queued : List TimerId)

def kLastTimerId : Nat := 2 ^ 64 - 1

/-- `allocateId`: the ids of all queues; zero when there are none left. -/
def allocateId (nextId : Nat) : Option (TimerId × Nat) := allocate kLastTimerId nextId

/-- What is due, as the loop of `runDueTimers` collects it: it stops at the first deadline that is not. -/
def dueEntries (ordered : Finset (TimePoint ×ₗ TimerId)) (now : TimePoint) (cutoff : TimerId) :
    List (TimePoint ×ₗ TimerId) :=
  ((ordered.sort (· ≤ ·)).takeWhile fun entry => (ofLex entry).1 ≤ now).filter fun entry => (ofLex entry).2 ≤ cutoff

def dueTimers (ordered : Finset (TimePoint ×ₗ TimerId)) (now : TimePoint) (cutoff : TimerId) : List TimerId :=
  (dueEntries ordered now cutoff).map fun entry => (ofLex entry).2

namespace TimerQueue

variable (q : TimerQueue)

def insertTimer (id : TimerId) (deadline : TimePoint) : TimerQueue :=
  { q with records := q.records.insert id deadline, ordered := insert (toLex (deadline, id)) q.ordered, lastId := id }

/-- A timer leaves both indexes. -/
def removeTimer (id : TimerId) (deadline : TimePoint) : TimerQueue :=
  { q with records := q.records.erase id, ordered := q.ordered.erase (toLex (deadline, id)) }

def moveTimer (id : TimerId) (old deadline : TimePoint) : TimerQueue :=
  { q with
    records := q.records.insert id deadline
    ordered := (insert (toLex (deadline, id)) q.ordered).erase (toLex (old, id)) }

end TimerQueue

/-- What user code does to the timers of the call in progress. -/
def TimerState.noting (s : TimerState) (note : Dispatch → Dispatch) : TimerState :=
  { s with dispatch := s.dispatch.map fun call => (note call.1, call.2) }

namespace TimerState

variable (s : TimerState)

def addTimer (deadline : TimePoint) (callable : Bool) (failure : Option IndexFailure) :
    TimerState × List TimerEvent :=
  if s.queue.clearing || !callable then (s, [])
  else
    match allocateId s.nextId with
    | none => (s, [])
    | some (id, nextId) =>
      match failure with
      | some .records => ({ s with nextId := nextId }, [.issued id])
      | some .ordered =>
        ({ s with
            queue := { s.queue with records := (s.queue.records.insert id deadline).erase id }
            nextId := nextId },
          [.issued id])
      | none =>
        ({ (s.noting fun call => { call with added := call.added ++ [id] }) with
            queue := s.queue.insertTimer id deadline
            nextId := nextId },
          [.issued id])

def rescheduleTimer (id : TimerId) (deadline : TimePoint) (fails : Bool) : TimerState :=
  match s.queue.records.lookup id with
  | none => s
  | some old =>
    if old = deadline then s
    else if fails then s
    else { s with queue := s.queue.moveTimer id old deadline }

def cancelTimer (id : TimerId) : TimerState :=
  match s.queue.records.lookup id with
  | none => s
  | some deadline =>
    { (s.noting fun call => { call with removed := call.removed ++ [id] }) with queue := s.queue.removeTimer id deadline }

/-- The captures are destroyed with `clearing_` set, behind this action. -/
def clearTimers : TimerState :=
  if s.queue.clearing then s
  else
    { (s.noting fun call => { call with removed := call.removed ++ s.queue.records.keys }) with
      queue := { s.queue with records := ∅, ordered := ∅, clearing := true } }

/-- The loop of `runDueTimers`, up to the next callback or its end. -/
def dispatchNext : List TimerId → Dispatch → TimerState → TimerState × List TimerEvent
  | [], call, s =>
    ({ s with queue := { s.queue with running := false }, dispatch := none },
      [.finished { call with rest := [] } false s.queue.records.keys])
  | id :: rest, call, s =>
    let found := s.queue.records.lookup id
    let turned (runs : Bool) : Dispatch := { call with turns := call.turns ++ [⟨id, found, runs⟩], rest := rest }
    match found with
    | none => dispatchNext rest (turned false) s
    | some deadline =>
      if call.now < deadline then dispatchNext rest (turned false) s
      else ({ s with queue := s.queue.removeTimer id deadline, dispatch := some (turned true, .callback) }, [])

def runDueTimers (now : TimePoint) (cutoff : TimerId) : TimerState × List TimerEvent :=
  if s.queue.running || s.queue.clearing then (s, [])
  else
    let due := dueTimers s.queue.ordered now cutoff
    dispatchNext due { now := now, cutoff := cutoff, initial := s.queue.ordered, rest := due }
      { s with queue := { s.queue with running := true } }

/-- User code returns to the innermost call in progress. -/
def returns : TimerState × List TimerEvent :=
  if s.queue.clearing then ({ s with queue := { s.queue with clearing := false } }, [])
  else
    match s.dispatch with
    | none => (s, [])
    | some (call, .callback) => ({ s with dispatch := some (call, .release false) }, [])
    | some (call, .release false) => dispatchNext call.rest call s
    | some (call, .release true) =>
      ({ s with queue := { s.queue with running := false }, dispatch := none },
        [.finished call true s.queue.records.keys])

/-- A callback throws; a destructor does not. -/
def throws : TimerState :=
  if s.queue.clearing then s
  else
    match s.dispatch with
    | some (call, .callback) => { s with dispatch := some (call, .release true) }
    | _ => s

def act : TimerAction → TimerState × List TimerEvent
  | .addTimer deadline callable failure => s.addTimer deadline callable failure
  | .rescheduleTimer id deadline fails => (s.rescheduleTimer id deadline fails, [])
  | .cancelTimer id => (s.cancelTimer id, [])
  | .clearTimers => (s.clearTimers, [])
  | .runDueTimers now cutoff => s.runDueTimers now cutoff
  | .returns => s.returns
  | .throws => (s.throws, [])
  | .otherAllocates =>
    match allocateId s.nextId with
    | none => (s, [])
    | some (id, nextId) => ({ s with nextId := nextId }, [.issued id])

end TimerState

def timerQueue : Machine TimerState TimerAction TimerEvent := ⟨TimerState.act⟩

/-! ### The two indexes -/

/-- **`ordered_` is exactly the deadlines and ids of `records_`.** -/
def TimerQueue.Indexed (q : TimerQueue) : Prop :=
  ∀ deadline id, toLex (deadline, id) ∈ q.ordered ↔ q.records.lookup id = some deadline

section Indexed

variable {q : TimerQueue} {id : TimerId} {deadline old : TimePoint}

theorem TimerQueue.Indexed.insertTimer (indexed : q.Indexed) (fresh : q.records.lookup id = none) :
    (q.insertTimer id deadline).Indexed := by
  intro d i
  show toLex (d, i) ∈ insert (toLex (deadline, id)) q.ordered ↔ (q.records.insert id deadline).lookup i = some d
  rw [Finset.mem_insert, indexed d i]
  by_cases same : i = id
  · subst same
    rw [AList.lookup_insert, fresh]
    simp [eq_comm]
  · rw [AList.lookup_insert_ne same]
    simp [same]

theorem TimerQueue.Indexed.removeTimer (indexed : q.Indexed) (present : q.records.lookup id = some deadline) :
    (q.removeTimer id deadline).Indexed := by
  intro d i
  show toLex (d, i) ∈ q.ordered.erase (toLex (deadline, id)) ↔ (q.records.erase id).lookup i = some d
  rw [Finset.mem_erase, indexed d i]
  by_cases same : i = id
  · subst same
    rw [AList.lookup_erase, present]
    simp [eq_comm]
  · rw [AList.lookup_erase_ne same]
    simp [same]

theorem TimerQueue.Indexed.moveTimer (indexed : q.Indexed) (present : q.records.lookup id = some old)
    (other : old ≠ deadline) : (q.moveTimer id old deadline).Indexed := by
  intro d i
  show toLex (d, i) ∈ (insert (toLex (deadline, id)) q.ordered).erase (toLex (old, id))
    ↔ (q.records.insert id deadline).lookup i = some d
  rw [Finset.mem_erase, Finset.mem_insert, indexed d i]
  by_cases same : i = id
  · subst same
    rw [AList.lookup_insert, present]
    simp only [ne_eq, EmbeddingLike.apply_eq_iff_eq, Prod.mk.injEq, and_true, Option.some.injEq]
    constructor
    · rintro ⟨kept, rfl | rfl⟩
      · rfl
      · exact absurd rfl kept
    · rintro rfl
      exact ⟨other.symm, .inl rfl⟩
  · rw [AList.lookup_insert_ne same]
    simp [same]

end Indexed

/-! ### What is due -/

section Due

variable {ordered : Finset (TimePoint ×ₗ TimerId)} {now : TimePoint} {cutoff : TimerId}

/-- An entry behind another has no earlier deadline. -/
theorem deadline_le {first second : TimePoint ×ₗ TimerId} (before : first < second) :
    (ofLex first).1 ≤ (ofLex second).1 := by
  rcases (Prod.Lex.lt_iff).mp before with less | ⟨same, -⟩
  · exact Int.le_of_lt less
  · exact Int.le_of_eq same

theorem mem_takeWhile_sorted {entries : List (TimePoint ×ₗ TimerId)} (sorted : entries.Pairwise (· < ·))
    (entry : TimePoint ×ₗ TimerId) :
    entry ∈ entries.takeWhile (fun entry => (ofLex entry).1 ≤ now) ↔ entry ∈ entries ∧ (ofLex entry).1 ≤ now := by
  induction entries with
  | nil => simp
  | cons first rest ih =>
    obtain ⟨least, tail⟩ := List.pairwise_cons.mp sorted
    by_cases due : (ofLex first).1 ≤ now
    · rw [List.takeWhile_cons_of_pos (by simpa using due), List.mem_cons, List.mem_cons, ih tail]
      constructor
      · rintro (rfl | ⟨member, early⟩)
        · exact ⟨.inl rfl, due⟩
        · exact ⟨.inr member, early⟩
      · rintro ⟨rfl | member, early⟩
        · exact .inl rfl
        · exact .inr ⟨member, early⟩
    · rw [List.takeWhile_cons_of_neg (by simpa using due)]
      refine iff_of_false List.not_mem_nil ?_
      rintro ⟨member, early⟩
      rcases List.mem_cons.mp member with rfl | later
      · exact due early
      · exact due (Int.le_trans (deadline_le (least _ later)) early)

theorem sorted_entries (ordered : Finset (TimePoint ×ₗ TimerId)) : (ordered.sort (· ≤ ·)).Pairwise (· < ·) :=
  (Finset.sortedLT_sort ordered).pairwise

/-- **What is collected is what is due**, -/
theorem mem_dueEntries {entry : TimePoint ×ₗ TimerId} :
    entry ∈ dueEntries ordered now cutoff
      ↔ entry ∈ ordered ∧ (ofLex entry).1 ≤ now ∧ (ofLex entry).2 ≤ cutoff := by
  unfold dueEntries
  rw [List.mem_filter, mem_takeWhile_sorted (sorted_entries ordered), Finset.mem_sort, decide_eq_true_eq, and_assoc]

/-- in the order of deadline and id. -/
theorem dueEntries_sorted (ordered : Finset (TimePoint ×ₗ TimerId)) (now : TimePoint) (cutoff : TimerId) :
    (dueEntries ordered now cutoff).Pairwise (· < ·) :=
  ((sorted_entries ordered).sublist (List.takeWhile_sublist _)).sublist List.filter_sublist

theorem mem_dueTimers {id : TimerId} :
    id ∈ dueTimers ordered now cutoff ↔ id ≤ cutoff ∧ ∃ deadline ≤ now, toLex (deadline, id) ∈ ordered := by
  unfold dueTimers
  rw [List.mem_map]
  constructor
  · rintro ⟨entry, member, rfl⟩
    obtain ⟨present, early, low⟩ := mem_dueEntries.mp member
    exact ⟨low, _, early, present⟩
  · rintro ⟨low, deadline, early, present⟩
    exact ⟨toLex (deadline, id), mem_dueEntries.mpr ⟨present, early, low⟩, rfl⟩

/-- A timer is due at most once. -/
theorem dueTimers_nodup {q : TimerQueue} (indexed : q.Indexed) (now : TimePoint) (cutoff : TimerId) :
    (dueTimers q.ordered now cutoff).Nodup := by
  unfold dueTimers
  refine List.Nodup.map_on ?_ ((dueEntries_sorted q.ordered now cutoff).imp ne_of_lt)
  intro first firstDue second secondDue same
  have one := (indexed (ofLex first).1 (ofLex first).2).mp (mem_dueEntries.mp firstDue).1
  have two := (indexed (ofLex second).1 (ofLex second).2).mp (mem_dueEntries.mp secondDue).1
  rw [same, two] at one
  exact congrArg toLex (Prod.ext (Option.some.inj one).symm same)

end Due

/-! ### Calls -/

/-- The timers a call has run. -/
def Dispatch.ran (call : Dispatch) : List TimerId := (call.turns.filter Turn.runs).map Turn.id

/-- **What a call has done**, with `queued` in the queue and `issued` used as ids. -/
structure Dispatch.Right (call : Dispatch) (queued issued : List TimerId) : Prop where
  turned : call.turns.map Turn.id ++ call.rest = dueTimers call.initial call.now call.cutoff
  chosen : ∀ turn ∈ call.turns, turn.runs = true ↔ ∃ deadline ≤ call.now, turn.found = some deadline
  distinct : (dueTimers call.initial call.now call.cutoff).Nodup
  known : ∀ id ∈ dueTimers call.initial call.now call.cutoff, id ∈ issued
  fresh : ∀ id ∈ call.added, id ∉ dueTimers call.initial call.now call.cutoff
  kept : ∀ id ∈ call.rest, id ∈ call.removed ∨ id ∈ queued

def issuedIds (log : List TimerEvent) : List TimerId :=
  log.filterMap fun
    | .issued id => some id
    | .finished _ _ _ => none

theorem issuedIds_append (first second : List TimerEvent) :
    issuedIds (first ++ second) = issuedIds first ++ issuedIds second := List.filterMap_append

/-- The ids in use, and those that were. -/
structure Numbered (s : TimerState) (log : List TimerEvent) : Prop where
  indexed : s.queue.Indexed
  given : Given s.nextId (issuedIds log)
  known : ∀ id ∈ s.queue.records.keys, id ∈ issuedIds log
  last : s.queue.lastId = 0 ∨ s.queue.lastId ∈ issuedIds log

/-- **The state of a queue and what it has done.** -/
structure TimerSound (s : TimerState) (log : List TimerEvent) : Prop extends Numbered s log where
  running : s.queue.running = s.dispatch.isSome
  call : ∀ call stage, s.dispatch = some (call, stage) → call.Right s.queue.records.keys (issuedIds log)
  finished : ∀ call thrown queued, .finished call thrown queued ∈ log → call.Right queued (issuedIds log)

section Steps

variable {s : TimerState} {log : List TimerEvent} {call : Dispatch} {queued issued : List TimerId}

theorem Dispatch.Right.more (right : call.Right queued issued) {keys used : List TimerId}
    (keep : ∀ id ∈ call.rest, id ∈ queued → id ∈ keys) (grow : ∀ id ∈ issued, id ∈ used) :
    call.Right keys used where
  turned := right.turned
  chosen := right.chosen
  distinct := right.distinct
  known id due := grow id (right.known id due)
  fresh := right.fresh
  kept id member := (right.kept id member).imp_right (keep id member)

theorem mem_keys_iff {records : AList (fun _ : TimerId => TimePoint)} {id : TimerId} :
    id ∈ records.keys ↔ ∃ deadline, records.lookup id = some deadline := by
  rw [← AList.mem_keys, ← AList.lookup_isSome, Option.isSome_iff_exists]

/-- Ids that are given out and not used by this queue. -/
theorem Numbered.issue {id nextId : Nat} (numbered : Numbered s log)
    (allocated : allocateId s.nextId = some (id, nextId)) :
    Numbered { s with nextId := nextId } (log ++ [.issued id]) where
  indexed := numbered.indexed
  given := by
    rw [issuedIds_append]
    exact (numbered.given.allocate allocated).1
  known used member := by
    rw [issuedIds_append]
    exact List.mem_append_left _ (numbered.known used member)
  last := by
    rw [issuedIds_append]
    exact numbered.last.imp_right (List.mem_append_left _)

/-- A new id is not in the queue. -/
theorem Numbered.fresh {id nextId : Nat} (numbered : Numbered s log)
    (allocated : allocateId s.nextId = some (id, nextId)) : s.queue.records.lookup id = none := by
  rw [AList.lookup_eq_none, AList.mem_keys]
  exact fun used => (numbered.given.allocate allocated).2.2 (numbered.known id used)

/-- Nothing of the calls changes but the ids in use. -/
theorem TimerSound.issue {id nextId : Nat} (sound : TimerSound s log)
    (allocated : allocateId s.nextId = some (id, nextId)) :
    TimerSound { s with nextId := nextId } (log ++ [.issued id]) where
  toNumbered := sound.toNumbered.issue allocated
  running := sound.running
  call call stage inside := by
    rw [issuedIds_append]
    exact (sound.call call stage inside).more (fun _ _ => (fun h => h)) fun _ => List.mem_append_left _
  finished call thrown queued member := by
    rw [issuedIds_append]
    rcases List.mem_append.mp member with old | new
    · exact (sound.finished call thrown queued old).more (fun _ _ => (fun h => h)) fun _ => List.mem_append_left _
    · cases List.mem_singleton.mp new

theorem addTimer_sound (sound : TimerSound s log) (deadline : TimePoint) (callable : Bool)
    (failure : Option IndexFailure) :
    TimerSound (s.addTimer deadline callable failure).1 (log ++ (s.addTimer deadline callable failure).2) := by
  unfold TimerState.addTimer
  split
  · rw [List.append_nil]
    exact sound
  cases allocated : allocateId s.nextId with
  | none =>
    rw [List.append_nil]
    exact sound
  | some pair =>
    obtain ⟨id, nextId⟩ := pair
    have issued := sound.issue allocated
    have new := (sound.given.allocate allocated).2.2
    have fresh := sound.toNumbered.fresh allocated
    match failure with
    | some .records => exact issued
    | some .ordered =>
      dsimp only
      rw [Tables.insert_erase fresh]
      exact issued
    | none =>
      have keys : ∀ used, used ∈ (s.queue.records.insert id deadline).keys ↔ used = id ∨ used ∈ s.queue.records.keys := by
        intro used
        rw [← AList.mem_keys, AList.mem_insert, AList.mem_keys]
      have given : id ∈ issuedIds (log ++ [.issued id]) := by
        rw [issuedIds_append]
        exact List.mem_append_right _ (List.mem_singleton_self _)
      refine ⟨⟨sound.indexed.insertTimer fresh, issued.given, ?_, .inr given⟩,
        ?_, ?_, issued.finished⟩
      · intro used member
        rcases (keys used).mp member with rfl | old
        · exact given
        · exact issued.known used old
      · show s.queue.running = (s.dispatch.map _).isSome
        rw [sound.running, Option.isSome_map]
      · intro call stage inside
        obtain ⟨⟨before, phase⟩, present, same⟩ := Option.map_eq_some_iff.mp inside
        cases same
        have right := issued.call before phase present
        refine ⟨right.turned, right.chosen, right.distinct, right.known, ?_, fun used member => ?_⟩
        · intro used member due
          rcases List.mem_append.mp member with old | added
          · exact right.fresh used old due
          · rw [List.mem_singleton.mp added] at due
            exact new ((sound.call before phase present).known id due)
        · exact (right.kept used member).imp_right fun old => (keys used).mpr (.inr old)

theorem rescheduleTimer_sound (sound : TimerSound s log) (id : TimerId) (deadline : TimePoint) (fails : Bool) :
    TimerSound (s.rescheduleTimer id deadline fails) log := by
  unfold TimerState.rescheduleTimer
  cases present : s.queue.records.lookup id with
  | none => exact sound
  | some old =>
    dsimp only
    split
    · exact sound
    split
    · exact sound
    case isFalse other _ =>
      have keys : ∀ used, used ∈ (s.queue.records.insert id deadline).keys ↔ used ∈ s.queue.records.keys := by
        intro used
        rw [← AList.mem_keys, AList.mem_insert, AList.mem_keys]
        refine or_iff_right_of_imp ?_
        rintro rfl
        exact mem_keys_iff.mpr ⟨old, present⟩
      refine ⟨⟨sound.indexed.moveTimer present other, sound.given,
        fun used member => sound.known used ((keys used).mp member), sound.last⟩, sound.running, ?_, sound.finished⟩
      intro call stage inside
      exact (sound.call call stage inside).more (fun used _ => (keys used).mpr) fun _ => (fun h => h)

theorem mem_keys_erase {records : AList (fun _ : TimerId => TimePoint)} {id used : TimerId} :
    used ∈ (records.erase id).keys ↔ used ≠ id ∧ used ∈ records.keys := by
  rw [← AList.mem_keys, AList.mem_erase, AList.mem_keys]

theorem cancelTimer_sound (sound : TimerSound s log) (id : TimerId) : TimerSound (s.cancelTimer id) log := by
  unfold TimerState.cancelTimer
  cases present : s.queue.records.lookup id with
  | none => exact sound
  | some deadline =>
    refine ⟨⟨sound.indexed.removeTimer present, sound.given,
      fun used member => sound.known used (mem_keys_erase.mp member).2, sound.last⟩, ?_, ?_, sound.finished⟩
    · show s.queue.running = (s.dispatch.map _).isSome
      rw [sound.running, Option.isSome_map]
    · intro call stage inside
      obtain ⟨⟨before, phase⟩, running, same⟩ := Option.map_eq_some_iff.mp inside
      cases same
      have right := sound.call before phase running
      refine ⟨right.turned, right.chosen, right.distinct, right.known, right.fresh, fun used member => ?_⟩
      by_cases this : used = id
      · exact .inl (List.mem_append_right _ (List.mem_singleton.mpr this))
      · exact (right.kept used member).imp (List.mem_append_left _) fun queued => mem_keys_erase.mpr ⟨this, queued⟩

theorem clearTimers_sound (sound : TimerSound s log) : TimerSound s.clearTimers log := by
  unfold TimerState.clearTimers
  split
  · exact sound
  · have indexed : ({ s.queue with records := ∅, ordered := ∅, clearing := true } : TimerQueue).Indexed := by
      intro deadline id
      simp [AList.lookup_empty]
    refine ⟨⟨indexed, sound.given,
      fun used member => absurd member List.not_mem_nil, sound.last⟩, ?_, ?_, sound.finished⟩
    · show s.queue.running = (s.dispatch.map _).isSome
      rw [sound.running, Option.isSome_map]
    · intro call stage inside
      obtain ⟨⟨before, phase⟩, running, same⟩ := Option.map_eq_some_iff.mp inside
      cases same
      have right := sound.call before phase running
      refine ⟨right.turned, right.chosen, right.distinct, right.known, right.fresh, fun used member => .inl ?_⟩
      exact List.mem_append.mpr (right.kept used member)

/-- A call ends. -/
theorem finish_sound {thrown : Bool} (numbered : Numbered s log)
    (finished : ∀ call thrown queued, .finished call thrown queued ∈ log → call.Right queued (issuedIds log))
    (right : call.Right s.queue.records.keys (issuedIds log)) :
    TimerSound { s with queue := { s.queue with running := false }, dispatch := none }
      (log ++ [.finished call thrown s.queue.records.keys]) := by
  have ids : issuedIds (log ++ [.finished call thrown s.queue.records.keys]) = issuedIds log := by
    rw [issuedIds_append]
    exact List.append_nil _
  refine ⟨⟨numbered.indexed, ?_, ?_, ?_⟩, rfl, ?_, ?_⟩
  all_goals rw [ids]
  · exact numbered.given
  · exact numbered.known
  · exact numbered.last
  · exact fun _ _ inside => nomatch inside
  · intro other thrown queued member
    rcases List.mem_append.mp member with old | new
    · exact finished other thrown queued old
    · cases List.mem_singleton.mp new
      exact right

/-- **The loop goes through what is left of the due timers.** -/
theorem dispatchNext_sound (rest : List TimerId) : ∀ (call : Dispatch), Numbered s log → s.queue.running = true →
    (∀ call thrown queued, .finished call thrown queued ∈ log → call.Right queued (issuedIds log)) →
    ({ call with rest := rest } : Dispatch).Right s.queue.records.keys (issuedIds log) →
    TimerSound (TimerState.dispatchNext rest call s).1 (log ++ (TimerState.dispatchNext rest call s).2) := by
  induction rest with
  | nil =>
    intro call numbered _ finished right
    exact finish_sound numbered finished right
  | cons id rest ih =>
    intro call numbered running finished right
    have passed : ∀ (found : Option TimePoint) (runs : Bool),
        (runs = true ↔ ∃ deadline ≤ call.now, found = some deadline) →
        ({ call with turns := call.turns ++ [⟨id, found, runs⟩], rest := rest } : Dispatch).Right s.queue.records.keys
          (issuedIds log) := by
      intro found runs chosen
      refine ⟨?_, fun turn member => ?_, right.distinct, right.known, right.fresh,
        fun used member => right.kept used (.tail _ member)⟩
      · show (call.turns ++ [_]).map Turn.id ++ rest = _
        rw [List.map_append, List.append_assoc]
        exact right.turned
      · rcases List.mem_append.mp member with old | new
        · exact right.chosen turn old
        · rw [List.mem_singleton.mp new]
          exact chosen
    unfold TimerState.dispatchNext
    cases found : s.queue.records.lookup id with
    | none => exact ih _ numbered running finished (passed none false (by simp))
    | some deadline =>
      dsimp only
      split
      case isTrue early =>
        exact ih _ numbered running finished (passed (some deadline) false (by simpa using early))
      case isFalse due =>
        rw [List.append_nil]
        refine ⟨⟨numbered.indexed.removeTimer found, numbered.given,
          fun used member => numbered.known used (mem_keys_erase.mp member).2, numbered.last⟩, running, ?_, finished⟩
        intro other stage inside
        cases inside
        refine (passed (some deadline) true (by simpa using due)).more
          (fun used member queued => mem_keys_erase.mpr ⟨?_, queued⟩) fun _ h => h
        -- a timer that is still to come is another one
        rintro rfl
        have distinct := right.distinct
        rw [← right.turned] at distinct
        exact (List.nodup_cons.mp (List.nodup_append.mp distinct).2.1).1 member

theorem runDueTimers_sound (sound : TimerSound s log) (now : TimePoint) (cutoff : TimerId) :
    TimerSound (s.runDueTimers now cutoff).1 (log ++ (s.runDueTimers now cutoff).2) := by
  unfold TimerState.runDueTimers
  split
  · rw [List.append_nil]
    exact sound
  · have present : ∀ id ∈ dueTimers s.queue.ordered now cutoff, id ∈ s.queue.records.keys := by
      intro id due
      obtain ⟨-, deadline, -, entry⟩ := mem_dueTimers.mp due
      exact mem_keys_iff.mpr ⟨deadline, (sound.indexed deadline id).mp entry⟩
    refine dispatchNext_sound (s := { s with queue := { s.queue with running := true } }) _ _ ?_ rfl sound.finished ?_
    · exact ⟨sound.indexed, sound.given, sound.known, sound.last⟩
    · exact ⟨rfl, fun _ none => absurd none List.not_mem_nil, dueTimers_nodup sound.indexed now cutoff, fun id due => sound.known id (present id due),
        fun _ none => absurd none List.not_mem_nil, fun id due => .inr (present id due)⟩

theorem returns_sound (sound : TimerSound s log) : TimerSound s.returns.1 (log ++ s.returns.2) := by
  unfold TimerState.returns
  split
  · rw [List.append_nil]
    exact ⟨⟨sound.indexed, sound.given, sound.known, sound.last⟩, sound.running,
      sound.call, sound.finished⟩
  · cases inside : s.dispatch with
    | none =>
      rw [List.append_nil]
      exact sound
    | some pair =>
      obtain ⟨call, stage⟩ := pair
      have right := sound.call call stage inside
      have running : s.queue.running = true := by
        rw [sound.running, inside]
        rfl
      match stage with
      | .callback =>
        show TimerSound { s with dispatch := some (call, .release false) } (log ++ [])
        rw [List.append_nil]
        refine ⟨⟨sound.indexed, sound.given, sound.known, sound.last⟩, running, ?_,
          sound.finished⟩
        intro other stage same
        cases same
        exact right
      | .release false => exact dispatchNext_sound call.rest call sound.toNumbered running sound.finished right
      | .release true => exact finish_sound sound.toNumbered sound.finished right

theorem throws_sound (sound : TimerSound s log) : TimerSound s.throws log := by
  unfold TimerState.throws
  split
  · exact sound
  split
  case h_1 call inside =>
    refine ⟨⟨sound.indexed, sound.given, sound.known, sound.last⟩, ?_, ?_,
      sound.finished⟩
    · rw [sound.running, inside]
      rfl
    · intro other stage same
      cases same
      exact sound.call call .callback inside
  case h_2 => exact sound

theorem act_sound (sound : TimerSound s log) (action : TimerAction) :
    TimerSound (s.act action).1 (log ++ (s.act action).2) := by
  have silent : ∀ {t : TimerState}, TimerSound t log → TimerSound t (log ++ []) := by
    intro t holds
    rw [List.append_nil]
    exact holds
  cases action with
  | addTimer deadline callable failure => exact addTimer_sound sound deadline callable failure
  | rescheduleTimer id deadline fails => exact silent (rescheduleTimer_sound sound id deadline fails)
  | cancelTimer id => exact silent (cancelTimer_sound sound id)
  | clearTimers => exact silent (clearTimers_sound sound)
  | runDueTimers now cutoff => exact runDueTimers_sound sound now cutoff
  | returns => exact returns_sound sound
  | throws => exact silent (throws_sound sound)
  | otherAllocates =>
    unfold TimerState.act
    cases allocated : allocateId s.nextId with
    | none => exact silent sound
    | some pair => exact sound.issue allocated

end Steps

theorem run_sound (actions : List TimerAction) :
    TimerSound (timerQueue.run {} actions).1 (timerQueue.run {} actions).2 := by
  have start : TimerSound {} [] := by
    refine ⟨⟨?_, given_nil 1, ?_, .inl rfl⟩, rfl, ?_, ?_⟩
    · intro deadline id
      simp [AList.lookup_empty]
    · exact fun _ member => absurd member List.not_mem_nil
    · exact fun _ _ inside => nomatch inside
    · exact fun _ _ _ member => absurd member List.not_mem_nil
  exact Machine.run_history (m := timerQueue) (P := TimerSound) (fun s log action holds => act_sound holds action)
    actions {} [] start

/-! ### The queue in every reachable state -/

/-- The calls that are in progress or have ended, with what is in the queue now or was at their end. -/
def Calls (s : TimerState) (log : List TimerEvent) (call : Dispatch) (queued : List TimerId) : Prop :=
  (∃ stage, s.dispatch = some (call, stage) ∧ queued = s.queue.records.keys)
  ∨ ∃ thrown, TimerEvent.finished call thrown queued ∈ log

theorem TimerSound.right {s : TimerState} {log : List TimerEvent} {call : Dispatch} {queued : List TimerId}
    (sound : TimerSound s log) (called : Calls s log call queued) : call.Right queued (issuedIds log) := by
  rcases called with ⟨stage, inside, rfl⟩ | ⟨thrown, member⟩
  · exact sound.call call stage inside
  · exact sound.finished call thrown queued member

theorem dispatchNext_calls (rest : List TimerId) : ∀ (call : Dispatch) (s : TimerState), ∃ same queued,
    Calls (TimerState.dispatchNext rest call s).1 (TimerState.dispatchNext rest call s).2 same queued
    ∧ same.initial = call.initial ∧ same.now = call.now ∧ same.cutoff = call.cutoff := by
  induction rest with
  | nil => exact fun call s => ⟨_, _, .inr ⟨false, List.mem_singleton_self _⟩, rfl, rfl, rfl⟩
  | cons id rest ih =>
    intro call s
    unfold TimerState.dispatchNext
    cases s.queue.records.lookup id with
    | none => exact ih _ s
    | some deadline =>
      dsimp only
      split
      · exact ih _ s
      · exact ⟨_, _, .inl ⟨.callback, rfl, rfl⟩, rfl, rfl, rfl⟩

theorem ran_sublist {call : Dispatch} {queued issued : List TimerId} (right : call.Right queued issued) :
    call.ran.Sublist (dueTimers call.initial call.now call.cutoff) := by
  rw [← right.turned]
  exact (List.filter_sublist.map Turn.id).trans (List.sublist_append_left _ _)

end HpServer.Timer
