/-
**A buffer is a bounded queue of bytes.**

Under the three cursors and the reservation of a buffer there is a queue: its bytes, its limit, and the cells of the last
reservation while it is valid. Moving a buffer moves the queue and leaves an empty one.

* `ByteQueue` — the queue; `ByteQueue.Admits`, `ByteQueue.After` — when a call succeeds and what it does.
* `Buffer.call_queue`, `Buffer.call_isSome` — **each call of a buffer is that call of its queue.**
* `sizedCall` — the sizes as machine words compute them; `sizedCall_exact` — **no computation wraps**, also for limits near
  the largest word.
* `buffer_refines_queue` — any calls and moves of any buffers, with memory refused at any time.
-/

import HpServer.Base.Buffer
import HpServer.Library.Machine
import HpServer.Library.Words

namespace HpServer.Base

open Machines Words Sized

/-! ### Queues -/

/-- **A bounded queue**, with the cells of the last reservation that is still valid. -/
structure ByteQueue where
  limit : Nat
  bytes : Bytes := []
  tail : Bytes := []

/-- The calls of a buffer, and what the holder of a reservation writes to it. -/
inductive BufferCall where
  | prepare (count : Nat)
  | fill (bytes : Bytes)
  | commit (count : Nat)
  | consume (count : Nat)
  | append (bytes : Bytes)
  | release (retainLimit : Nat)
  deriving DecidableEq, Repr

namespace ByteQueue

/-- **When a call succeeds**, if there is memory. -/
def Admits (q : ByteQueue) : BufferCall → Prop
  | .prepare count => q.bytes.length + count ≤ q.limit
  | .append bytes => q.bytes.length + bytes.length ≤ q.limit
  | .fill bytes => bytes.length ≤ q.tail.length
  | .commit count => count ≤ q.tail.length
  | .consume count => count ≤ q.bytes.length
  | .release _ => True

/-- **What a call does.** The cells of a reservation may hold anything. -/
def After (q next : ByteQueue) : BufferCall → Prop
  | .prepare count => next.bytes = q.bytes ∧ next.tail.length = count
  | .append bytes => next.bytes = q.bytes ++ bytes ∧ next.tail = []
  | .fill bytes => next.bytes = q.bytes ∧ next.tail = bytes ++ q.tail.drop bytes.length
  | .commit count => next.bytes = q.bytes ++ q.tail.take count ∧ next.tail = []
  | .consume count => next.bytes = q.bytes.drop count ∧ next.tail = []
  | .release _ => next.bytes = q.bytes ∧ (next.tail = q.tail ∨ q.bytes = [] ∧ next.tail = [])

end ByteQueue

namespace Buffer

def queue (b : Buffer) : ByteQueue := { limit := b.limit, bytes := b.readableView, tail := b.tail }

/-- One call; nothing where the source throws. Outside of its reservation nothing is written. -/
def call (b : Buffer) (memory : Bool) : BufferCall → Option Buffer
  | .prepare count => b.prepareWritableBytes count memory
  | .append bytes => b.appendBytes bytes memory
  | .fill bytes => if bytes.length ≤ b.prepared then some (b.fill bytes) else none
  | .commit count => b.commitWrittenBytes count
  | .consume count => b.consumeReadableBytes count
  | .release retainLimit => some (b.releaseEmpty retainLimit)

variable {b next : Buffer}

theorem tail_eq_nil (none : b.prepared = 0) : b.tail = [] := by
  rw [tail, none]
  rfl

theorem prepare_fits {count : Nat} {allocates : Bool} (ready : b.prepareWritableBytes count allocates = some next) :
    b.readableBytes + count ≤ b.limit := by
  have within := Nat.le_trans b.readableBytes_le b.limited
  unfold prepareWritableBytes at ready
  split at ready
  · cases ready
  · omega

theorem commit_fits {count : Nat} (done : b.commitWrittenBytes count = some next) :
    count ≤ b.prepared ∧ next.prepared = 0 := by
  unfold commitWrittenBytes at done
  split at done
  case isTrue fits =>
    cases done
    exact ⟨fits, rfl⟩
  case isFalse => cases done

theorem consume_fits {count : Nat} (done : b.consumeReadableBytes count = some next) :
    count ≤ b.readableBytes ∧ next.prepared = 0 := by
  unfold consumeReadableBytes at done
  split at done
  case isFalse => cases done
  case isTrue fits =>
    refine ⟨fits, ?_⟩
    split at done <;> cases done <;> rfl

/-- **A call that succeeds is a call of the queue.** -/
theorem call_queue {memory : Bool} {c : BufferCall} (done : b.call memory c = some next) :
    b.queue.Admits c ∧ next.limit = b.limit ∧ b.queue.After next.queue c := by
  cases c with
  | prepare count =>
    obtain ⟨view, prepared, limit⟩ := b.view_prepare done
    refine ⟨?_, limit, view, next.tail_length.trans prepared⟩
    show b.readableView.length + count ≤ b.limit
    rw [view_length]
    exact prepare_fits done
  | append bytes =>
    obtain ⟨tail, ready, commit⟩ := Option.bind_eq_some_iff.mp done
    obtain ⟨view, limit⟩ := b.view_append done
    refine ⟨?_, limit, view, tail_eq_nil (commit_fits commit).2⟩
    show b.readableView.length + bytes.length ≤ b.limit
    rw [view_length]
    exact prepare_fits ready
  | fill bytes =>
    have done : (if bytes.length ≤ b.prepared then some (b.fill bytes) else none) = some next := done
    split at done
    case isFalse => cases done
    case isTrue fits =>
      cases done
      obtain ⟨view, tail⟩ := b.fill_tail fits
      exact ⟨fits.trans_eq b.tail_length.symm, rfl, view, tail⟩
  | commit count =>
    obtain ⟨fits, none⟩ := commit_fits done
    obtain ⟨view, limit⟩ := b.view_commit done
    exact ⟨fits.trans_eq b.tail_length.symm, limit, view, tail_eq_nil none⟩
  | consume count =>
    obtain ⟨fits, none⟩ := consume_fits done
    obtain ⟨other, same, view, limit⟩ := b.view_consume fits
    obtain rfl := Option.some.inj (same.symm.trans done)
    exact ⟨fits.trans_eq b.view_length.symm, limit, view, tail_eq_nil none⟩
  | release retainLimit =>
    obtain rfl := Option.some.inj done
    obtain ⟨view, limit⟩ := b.view_release retainLimit
    refine ⟨trivial, limit, view, ?_⟩
    by_cases given : (b.readableBytes = 0 && retainLimit < b.capacity) = true
    · have none : b.readableBytes = 0 := by simpa using (Bool.and_eq_true_iff.mp given).1
      refine .inr ⟨b.view_empty.mpr none, ?_⟩
      show (b.releaseEmpty retainLimit).tail = []
      rw [releaseEmpty, if_pos given]
      rfl
    · refine .inl ?_
      show (b.releaseEmpty retainLimit).tail = b.tail
      rw [releaseEmpty, if_neg given]

/-- **With memory, a call the queue admits succeeds.** -/
theorem call_isSome {c : BufferCall} (admits : b.queue.Admits c) : ∃ next, b.call true c = some next := by
  cases c with
  | prepare count => exact b.prepare_isSome (by rwa [← view_length])
  | append bytes => exact b.append_isSome (by rwa [← view_length])
  | fill bytes => exact ⟨_, if_pos (admits.trans_eq b.tail_length)⟩
  | commit count => exact ⟨_, dif_pos (admits.trans_eq b.tail_length)⟩
  | consume count =>
    obtain ⟨next, done, -⟩ := b.view_consume (admits.trans_eq b.view_length)
    exact ⟨next, done⟩
  | release retainLimit => exact ⟨_, rfl⟩

end Buffer

/-! ### Sizes -/

/-- The sizes of a buffer that calls change. -/
structure Cursors where
  capacity : Nat := 0
  read : Nat := 0
  write : Nat := 0
  prepared : Nat := 0
  deriving DecidableEq, Repr

def Buffer.cursors (b : Buffer) : Cursors := ⟨b.capacity, b.read, b.write, b.prepared⟩

/-- Twice the capacity, or the limit where that is less. -/
def sizedDoubled (limit capacity : Nat) : Sized Nat := do
  let above ← subSize limit capacity
  if above < capacity then pure limit else addSize capacity capacity

/-- The sizes `prepareWritableBytes` computes, in its order. -/
def sizedPrepare (limit : Nat) (s : Cursors) (count : Nat) (memory : Bool) : Sized (Option Cursors) := do
  let readable ← subSize s.write s.read
  let free ← subSize limit readable
  if free < count then pure none
  else
    let writable ← subSize s.capacity s.write
    if count ≤ writable then pure (some { s with prepared := count })
    else
      let required ← addSize readable count
      if required ≤ s.capacity then pure (some { s with read := 0, write := readable, prepared := count })
      else
        let doubled ← sizedDoubled limit s.capacity
        if !memory then pure none
        else pure (some { capacity := max required doubled, read := 0, write := readable, prepared := count })

def sizedCommit (s : Cursors) (count : Nat) : Sized (Option Cursors) := do
  if s.prepared < count then pure none
  else
    let write ← addSize s.write count
    pure (some { s with write := write, prepared := 0 })

def sizedConsume (s : Cursors) (count : Nat) : Sized (Option Cursors) := do
  let readable ← subSize s.write s.read
  if readable < count then pure none
  else
    let read ← addSize s.read count
    if read = s.write then pure (some { s with read := 0, write := 0, prepared := 0 })
    else pure (some { s with read := read, prepared := 0 })

def sizedRelease (s : Cursors) (retainLimit : Nat) : Sized (Option Cursors) := do
  let readable ← subSize s.write s.read
  pure (some (if readable = 0 && retainLimit < s.capacity then {} else s))

/-- The sizes a call computes. -/
def sizedCall (limit : Nat) (s : Cursors) (memory : Bool) : BufferCall → Sized (Option Cursors)
  | .prepare count => sizedPrepare limit s count memory
  | .append bytes => do
    match ← sizedPrepare limit s bytes.length memory with
    | none => pure none
    | some tail => sizedCommit tail bytes.length
  | .fill bytes => pure (if bytes.length ≤ s.prepared then some s else none)
  | .commit count => sizedCommit s count
  | .consume count => sizedConsume s count
  | .release retainLimit => sizedRelease s retainLimit

section Sizes

variable (b : Buffer) (word : b.limit < modulus)

include word

theorem yields_commit (count : Nat) :
    (sizedCommit b.cursors count).Yields ((b.commitWrittenBytes count).map Buffer.cursors) := by
  have inside := b.written
  have limited := b.limited
  unfold sizedCommit Buffer.commitWrittenBytes
  by_cases fits : count ≤ b.prepared
  · have sum : b.write + count < modulus := by omega
    rw [dif_pos fits]
    refine Yields.neg ((yields_add sum).bind ?_) (Nat.not_lt.mpr fits)
    exact yields_pure _
  · rw [dif_neg fits]
    exact (yields_pure _).pos (Nat.lt_of_not_le fits)

theorem yields_readable : (subSize b.write b.read).Yields b.readableBytes := by
  have order := b.readable
  have inside := b.written
  have limited := b.limited
  exact yields_sub (by omega) order

theorem yields_doubled : (sizedDoubled b.limit b.capacity).Yields
    (if b.limit - b.capacity < b.capacity then b.limit else b.capacity * 2) := by
  refine (yields_sub word b.limited).bind ?_
  split
  case isTrue => exact yields_pure _
  case isFalse =>
    rw [Nat.mul_two]
    exact yields_add (Nat.lt_of_le_of_lt (by omega) word)

theorem yields_prepare (count : Nat) (memory : Bool) :
    (sizedPrepare b.limit b.cursors count memory).Yields ((b.prepareWritableBytes count memory).map Buffer.cursors) := by
  have inside := b.written
  have limited := b.limited
  have small := b.readableBytes_le
  unfold sizedPrepare Buffer.prepareWritableBytes
  refine (yields_readable b word).bind ((yields_sub word (Nat.le_trans small limited)).bind ?_)
  by_cases past : b.limit - b.readableBytes < count
  · rw [dif_pos past]
    exact (yields_pure _).pos past
  rw [dif_neg past]
  have written : b.write ≤ b.capacity := Nat.le_trans (Nat.le_add_right _ _) b.written
  refine Yields.neg ((yields_sub (Nat.lt_of_le_of_lt limited word) written).bind ?_) past
  by_cases inPlace : count ≤ b.writableBytes
  · rw [dif_pos inPlace]
    exact (yields_pure _).pos inPlace
  rw [dif_neg inPlace]
  refine Yields.neg ((yields_add (Nat.lt_of_le_of_lt (by omega) word)).bind ?_) inPlace
  by_cases moved : b.readableBytes + count ≤ b.capacity
  · rw [dif_pos moved]
    exact (yields_pure _).pos moved
  rw [dif_neg moved]
  refine Yields.neg ((yields_doubled b word).bind ?_) moved
  cases memory with
  | false => exact yields_pure _
  | true => exact yields_pure _

theorem yields_consume (count : Nat) :
    (sizedConsume b.cursors count).Yields ((b.consumeReadableBytes count).map Buffer.cursors) := by
  have order := b.readable
  have inside := b.written
  have limited := b.limited
  unfold sizedConsume Buffer.consumeReadableBytes
  refine (yields_readable b word).bind ?_
  by_cases fits : count ≤ b.readableBytes
  · have sum : b.read + count < modulus := by
      unfold Buffer.readableBytes at fits
      omega
    rw [dif_pos fits]
    refine Yields.neg ((yields_add sum).bind ?_) (Nat.not_lt.mpr fits)
    by_cases whole : b.read + count = b.write
    · rw [if_pos whole]
      exact (yields_pure _).pos whole
    · rw [if_neg whole]
      exact (yields_pure _).neg whole
  · rw [dif_neg fits]
    exact (yields_pure _).pos (Nat.lt_of_not_le fits)

/-- **No computation of a call wraps**, and it gives the sizes of the call. -/
theorem yields_call (memory : Bool) (c : BufferCall) :
    (sizedCall b.limit b.cursors memory c).Yields ((b.call memory c).map Buffer.cursors) := by
  cases c with
  | prepare count => exact yields_prepare b word count memory
  | append bytes =>
    refine (yields_prepare b word bytes.length memory).bind ?_
    show Yields _ ((b.appendBytes bytes memory).map Buffer.cursors)
    unfold Buffer.appendBytes
    cases ready : b.prepareWritableBytes bytes.length memory with
    | none => exact yields_pure _
    | some tail =>
      have limit := (b.view_prepare ready).2.2
      have commit := yields_commit (tail.fill bytes) (limit.trans_lt word) bytes.length
      exact commit
  | fill bytes =>
    have cursors : (b.call memory (.fill bytes)).map Buffer.cursors
        = if bytes.length ≤ b.prepared then some b.cursors else none := by
      dsimp only [Buffer.call]
      split <;> rfl
    rw [cursors]
    exact yields_pure _
  | commit count => exact yields_commit b word count
  | consume count => exact yields_consume b word count
  | release retainLimit =>
    have cursors : (b.releaseEmpty retainLimit).cursors
        = if (b.readableBytes = 0 && retainLimit < b.capacity) = true then {} else b.cursors := by
      unfold Buffer.releaseEmpty
      split <;> rfl
    show Yields _ (some (b.releaseEmpty retainLimit).cursors)
    rw [cursors]
    exact (yields_readable b word).bind (yields_pure _)

end Sizes

/-! ### Buffers that are moved -/

/-- A call of one of the buffers, with or without memory, or a move of one to another. -/
inductive BufferOp where
  | call (i : Nat) (c : BufferCall) (memory : Bool)
  | move (target source : Nat)
  deriving DecidableEq, Repr

/-- What was done, and whether it succeeded. -/
structure BufferEvent where
  op : BufferOp
  succeeded : Bool
  deriving DecidableEq, Repr

/-- Move construction and move assignment: the storage and the cursors go over, the limit is copied. -/
def moveBuffer (s : Nat → Buffer) (target source : Nat) : Nat → Buffer :=
  if target = source then s
  else Function.update (Function.update s source (emptyBuffer (s source).limit)) target (s source)

/-- Some buffers. What throws leaves them. -/
def buffers : Machine (Nat → Buffer) BufferOp BufferEvent where
  step s op :=
    match op with
    | .call i c memory =>
      match (s i).call memory c with
      | some next => (Function.update s i next, [⟨op, true⟩])
      | none => (s, [⟨op, false⟩])
    | .move target source => (moveBuffer s target source, [⟨op, true⟩])

/-- **One step of some queues.** -/
inductive QueueStep (qs : Nat → ByteQueue) : BufferEvent → (Nat → ByteQueue) → Prop
  | done {i : Nat} {c : BufferCall} {memory : Bool} {next : ByteQueue} (admits : (qs i).Admits c)
      (limit : next.limit = (qs i).limit) (after : (qs i).After next c) :
      QueueStep qs ⟨.call i c memory, true⟩ (Function.update qs i next)
  | thrown {i : Nat} {c : BufferCall} {memory : Bool} (refused : memory = true → ¬ (qs i).Admits c) :
      QueueStep qs ⟨.call i c memory, false⟩ qs
  | kept {i : Nat} : QueueStep qs ⟨.move i i, true⟩ qs
  | moved {target source : Nat} (apart : target ≠ source) :
      QueueStep qs ⟨.move target source, true⟩
        (Function.update (Function.update qs source { limit := (qs source).limit }) target (qs source))

inductive QueueRun (start : Nat → ByteQueue) : List BufferEvent → (Nat → ByteQueue) → Prop
  | start : QueueRun start [] start
  | step {log : List BufferEvent} {e : BufferEvent} {qs next : Nat → ByteQueue} (before : QueueRun start log qs)
      (step : QueueStep qs e next) : QueueRun start (log ++ [e]) next

/-- The queues of some buffers. -/
def queues (s : Nat → Buffer) : Nat → ByteQueue := fun i => (s i).queue

theorem queues_update (s : Nat → Buffer) (i : Nat) (next : Buffer) :
    queues (Function.update s i next) = Function.update (queues s) i next.queue := by
  funext j
  by_cases same : j = i
  · subst same
    simp [queues]
  · simp [queues, same]

/-- **One step of the buffers is one of their queues.** -/
theorem buffers_step (s : Nat → Buffer) (op : BufferOp) :
    ∃ e, (buffers.step s op).2 = [e] ∧ QueueStep (queues s) e (queues (buffers.step s op).1) := by
  cases op with
  | call i c memory =>
    cases done : (s i).call memory c with
    | some next =>
      have step : buffers.step s (.call i c memory) = (Function.update s i next, [⟨.call i c memory, true⟩]) := by
        simp only [buffers, done]
      obtain ⟨admits, limit, after⟩ := Buffer.call_queue done
      rw [step]
      refine ⟨_, rfl, ?_⟩
      rw [queues_update]
      exact .done admits limit after
    | none =>
      have step : buffers.step s (.call i c memory) = (s, [⟨.call i c memory, false⟩]) := by simp only [buffers, done]
      rw [step]
      refine ⟨_, rfl, .thrown fun available admits => ?_⟩
      obtain ⟨next, some⟩ := Buffer.call_isSome admits
      rw [available, some] at done
      cases done
  | move target source =>
    refine ⟨_, rfl, ?_⟩
    show QueueStep (queues s) _ (queues (moveBuffer s target source))
    unfold moveBuffer
    split
    case isTrue same =>
      subst same
      exact .kept
    case isFalse apart =>
      rw [queues_update, queues_update]
      exact .moved apart

theorem buffers_limit (s : Nat → Buffer) (op : BufferOp) (words : ∀ i, (s i).limit < modulus) :
    ∀ i, ((buffers.step s op).1 i).limit < modulus := by
  have update : ∀ {s : Nat → Buffer} {i : Nat} {next : Buffer}, (∀ j, (s j).limit < modulus) → next.limit < modulus →
      ∀ j, (Function.update s i next j).limit < modulus := by
    intro s i next words word j
    by_cases same : j = i
    · rw [same, Function.update_self]
      exact word
    · rw [Function.update_of_ne same]
      exact words j
  cases op with
  | call i c memory =>
    cases done : (s i).call memory c with
    | some next =>
      simp only [buffers, done]
      exact update words ((Buffer.call_queue done).2.1.trans_lt (words i))
    | none =>
      simp only [buffers, done]
      exact words
  | move target source =>
    show ∀ i, (moveBuffer s target source i).limit < modulus
    unfold moveBuffer
    split
    · exact words
    · exact update (update words (words source)) (words source)

/-- **A buffer is a bounded queue of bytes**, whatever is called and moved and whenever memory is refused. After any
operations the buffers hold what the same operations leave of queues; cursors and reservation are in their order below
the limit; and of the next call: its computations do not wrap, with memory it succeeds just when the queue admits it, and
when it fails it leaves every buffer as it was. -/
theorem buffer_refines_queue (limits : Nat → Fin modulus) (ops : List BufferOp) :
    let run := buffers.run (fun i => emptyBuffer (limits i)) ops
    QueueRun (fun i => { limit := limits i }) run.2 (queues run.1)
    ∧ ∀ i, let b := run.1 i
      (b.read ≤ b.write ∧ b.write + b.prepared ≤ b.capacity ∧ b.capacity ≤ b.limit)
      ∧ ∀ (memory : Bool) (c : BufferCall),
        ((sizedCall b.limit b.cursors memory c).Exact
          ∧ (sizedCall b.limit b.cursors memory c).value = (b.call memory c).map Buffer.cursors)
        ∧ ((b.call true c).isSome ↔ b.queue.Admits c)
        ∧ (b.call memory c = none →
          buffers.step run.1 (.call i c memory) = (run.1, [⟨.call i c memory, false⟩])) := by
  intro run
  have along := Machine.run_history (m := buffers)
    (P := fun s log => QueueRun (fun i => { limit := limits i }) log (queues s) ∧ ∀ i, (s i).limit < modulus)
    (fun s log op holds => ?_) ops (fun i => emptyBuffer (limits i)) [] ⟨.start, fun i => (limits i).isLt⟩
  · refine ⟨along.1, fun i => ?_⟩
    intro b
    refine ⟨⟨b.readable, b.written, b.limited⟩, fun memory c => ⟨yields_call b (along.2 i) memory c, ?_, fun thrown => ?_⟩⟩
    · refine ⟨fun done => ?_, fun admits => Option.isSome_iff_exists.mpr (Buffer.call_isSome admits)⟩
      obtain ⟨next, done⟩ := Option.isSome_iff_exists.mp done
      exact (Buffer.call_queue done).1
    · have thrown : (run.1 i).call memory c = none := thrown
      simp only [buffers, thrown]
  · obtain ⟨before, words⟩ := holds
    obtain ⟨e, reported, step⟩ := buffers_step s op
    rw [reported]
    exact ⟨.step before step, buffers_limit s op words⟩

end HpServer.Base
