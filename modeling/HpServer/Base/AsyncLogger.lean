/-
**`base/AsyncLogger`: records through a ring to one consumer.**

Producers write into the ring under the mutex, the consumer copies a batch out of it under the mutex, writes it
with the mutex free and counts it under the mutex again. Any interleaving of these sections is a list of
actions. The counters are 64-bit words.

* `asyncLogger` — the machine, reporting what is accepted and what is handed to the sink.
* `assembleBatch_eq` — **a batch fits its array**, and is its records' lines one after another.
* `logger_accounts` — **the counters balance, and the sink gets the accepted records in their order, once
  each**, in every reachable state.
-/

import HpServer.Base.Bytes
import HpServer.Library.Machine
import HpServer.Library.Ring

namespace HpServer.Base

open Machines Rings

/-! ### Records -/

inductive LogLevel where
  | info | warn | error
  deriving DecidableEq, Repr

def kLoggerCapacity : Nat := 1024
def kMessageLimit : Nat := 1024
def kBatchRecords : Nat := 64
def kOutputRecordLimit : Nat := kMessageLimit + 9

def kTruncationMarker : Bytes := text "...[truncated]"

/-- `memcpy` into an array. -/
def overwrite (array : Bytes) (start : Nat) (bytes : Bytes) : Bytes :=
  array.take start ++ bytes ++ array.drop (start + bytes.length)

theorem overwrite_length {array bytes : Bytes} {start : Nat} (inside : start + bytes.length ≤ array.length) :
    (overwrite array start bytes).length = array.length := by
  simp only [overwrite, List.length_append, List.length_take, List.length_drop]
  omega

/-- The array of a record keeps what was written to it before. -/
structure LogRecord where
  level : LogLevel
  length : Nat
  message : Bytes
  whole : message.length = kMessageLimit
  fits : length ≤ kMessageLimit

/-- The record of a new slot. -/
def blankRecord : LogRecord :=
  ⟨.info, 0, List.replicate kMessageLimit 0, List.length_replicate, Nat.zero_le _⟩

/-- What is read of a record. -/
def LogRecord.content (record : LogRecord) : Bytes := record.message.take record.length

def LogRecord.entry (record : LogRecord) : LogLevel × Bytes := (record.level, record.content)

/-- A message, as far as it is kept. -/
def shown (message : Bytes) : Bytes :=
  if kMessageLimit < message.length then
    message.take (kMessageLimit - kTruncationMarker.length) ++ kTruncationMarker
  else message

/-- The array after a message has been copied to it. -/
def copyMessage (array message : Bytes) : Bytes :=
  let copied := overwrite array 0 (message.take (min message.length kMessageLimit))
  if kMessageLimit < message.length then
    overwrite copied (kMessageLimit - kTruncationMarker.length) kTruncationMarker
  else copied

theorem copyMessage_length {array : Bytes} (whole : array.length = kMessageLimit) (message : Bytes) :
    (copyMessage array message).length = kMessageLimit := by
  have first : (overwrite array 0 (message.take (min message.length kMessageLimit))).length = kMessageLimit := by
    rw [overwrite_length, whole]
    rw [List.length_take, whole]
    omega
  unfold copyMessage
  dsimp only
  split
  · rw [overwrite_length, first]
    rw [first]
    decide
  · exact first

/-- A record is written over another. -/
def LogRecord.write (level : LogLevel) (message : Bytes) (old : LogRecord) : LogRecord where
  level := level
  length := min message.length kMessageLimit
  message := copyMessage old.message message
  whole := copyMessage_length old.whole message
  fits := Nat.min_le_right _ _

/-- **A record reads as its message, cut and marked if it was longer.** -/
theorem write_content (level : LogLevel) (message : Bytes) (old : LogRecord) :
    (old.write level message).content = shown message := by
  show (copyMessage old.message message).take (min message.length kMessageLimit) = shown message
  have whole := old.whole
  unfold copyMessage shown
  dsimp only
  split
  case isTrue long =>
    have marker : kTruncationMarker.length = 14 := by decide
    have limit : kMessageLimit = 1024 := rfl
    rw [Nat.min_eq_right (Nat.le_of_lt long)]
    simp only [overwrite, List.take_zero, List.nil_append, Nat.zero_add]
    rw [List.take_left', List.take_append_of_le_length, List.take_take, Nat.min_eq_left (by omega)]
    · rw [List.length_take]
      omega
    · simp only [List.length_append, List.length_take, List.length_drop]
      omega
  case isFalse short =>
    have fits : message.length ≤ kMessageLimit := Nat.le_of_not_lt short
    rw [Nat.min_eq_left fits, List.take_of_length_le (Nat.le_refl message.length)]
    simp only [overwrite, List.take_zero, List.nil_append]
    exact List.take_left

/-! ### Batches -/

def levelText : LogLevel → Bytes
  | .info => text "[INFO] "
  | .warn => text "[WARN] "
  | .error => text "[ERROR] "

/-- Bytes behind those of `outputBatch`; none where they would leave the array. -/
def appendOutput (output bytes : Bytes) : Option Bytes :=
  if output.length + bytes.length ≤ kBatchRecords * kOutputRecordLimit then some (output ++ bytes) else none

def appendRecord (output : Bytes) (record : LogRecord) : Option Bytes := do
  let levelled ← appendOutput output (levelText record.level)
  let written ← appendOutput levelled record.content
  appendOutput written [lf]

/-- What `writeRecordBatch` assembles. -/
def assembleBatch (records : List LogRecord) : Option Bytes := records.foldlM appendRecord []

def LogRecord.line (record : LogRecord) : Bytes := levelText record.level ++ record.content ++ [lf]

theorem line_length (record : LogRecord) : record.line.length ≤ kOutputRecordLimit := by
  have level : (levelText record.level).length ≤ 8 := by cases record.level <;> decide
  have content : record.content.length ≤ kMessageLimit := by
    unfold LogRecord.content
    rw [List.length_take]
    exact Nat.le_trans (Nat.min_le_left _ _) record.fits
  simp only [LogRecord.line, List.length_append, List.length_singleton, kOutputRecordLimit]
  omega

theorem lines_length (records : List LogRecord) :
    (records.flatMap LogRecord.line).length ≤ records.length * kOutputRecordLimit := by
  induction records with
  | nil => exact Nat.zero_le _
  | cons record rest ih =>
    have line := line_length record
    rw [List.flatMap_cons, List.length_append, List.length_cons, Nat.add_mul, Nat.one_mul]
    omega

theorem appendRecord_eq {output : Bytes} {record : LogRecord}
    (room : output.length + record.line.length ≤ kBatchRecords * kOutputRecordLimit) :
    appendRecord output record = some (output ++ record.line) := by
  have parts : record.line.length = (levelText record.level).length + record.content.length + 1 := by
    simp only [LogRecord.line, List.length_append, List.length_singleton]
  unfold appendRecord appendOutput
  rw [if_pos (by omega)]
  dsimp only [Option.bind_eq_bind, Option.bind_some]
  rw [if_pos (by rw [List.length_append]; omega)]
  dsimp only [Option.bind_some]
  rw [if_pos (by simp only [List.length_append, List.length_singleton]; omega)]
  simp only [LogRecord.line, List.append_assoc]

/-- **A batch fits its array**: it is assembled line by line. -/
theorem assembleBatch_eq {records : List LogRecord} (few : records.length ≤ kBatchRecords) :
    assembleBatch records = some (records.flatMap LogRecord.line) := by
  have loop : ∀ (rest : List LogRecord) (output : Bytes) (done : Nat), output.length ≤ done * kOutputRecordLimit →
      done + rest.length ≤ kBatchRecords →
      rest.foldlM appendRecord output = some (output ++ rest.flatMap LogRecord.line) := by
    intro rest
    induction rest with
    | nil =>
      intro output done _ _
      simp
    | cons record rest ih =>
      intro output done fits few
      have line := line_length record
      have more : output.length + record.line.length ≤ (done + 1) * kOutputRecordLimit := by
        rw [Nat.add_mul, Nat.one_mul]
        omega
      have inside : (done + 1) * kOutputRecordLimit ≤ kBatchRecords * kOutputRecordLimit :=
        Nat.mul_le_mul_right _ (by rw [List.length_cons] at few; omega)
      rw [List.foldlM_cons, appendRecord_eq (Nat.le_trans more inside)]
      dsimp only [Option.bind_eq_bind, Option.bind_some]
      rw [ih (output ++ record.line) (done + 1) (by rw [List.length_append]; exact more)
        (by rw [List.length_cons] at few; omega), List.flatMap_cons, List.append_assoc]
  have all := loop records [] 0 (Nat.zero_le _) (by rw [Nat.zero_add]; exact few)
  rw [List.nil_append] at all
  exact all

/-! ### The logger -/

structure LogStats where
  submitted : UInt64 := 0
  accepted : UInt64 := 0
  droppedFull : UInt64 := 0
  rejectedStopped : UInt64 := 0
  truncated : UInt64 := 0
  written : UInt64 := 0
  failed : UInt64 := 0
  pending : UInt64 := 0
  deriving DecidableEq, Repr

/-- Where the consumer is: before its first section, behind it with a batch, behind the write, or gone. -/
inductive LogConsumer where
  | waiting
  | writing (batch : List LogRecord)
  | counting (batchCount : Nat) (written : Bool)
  | returned

structure AsyncLogger where
  ring : RingQueue LogRecord
  accepting : Bool := true
  stats : LogStats := {}
  consumer : LogConsumer := .waiting

/-- The constructor. -/
def makeAsyncLogger (slots : Nat) : Except String AsyncLogger :=
  if valid : 0 < slots ∧ slots ≤ kLoggerCapacity then
    .ok { ring := .empty (List.replicate slots blankRecord) (by rw [List.length_replicate]; exact valid.1) }
  else .error "invalid logger capacity"

inductive LogAction where
  | submitLogRecord (level : LogLevel) (message : Bytes)
  | takeBatch
  | writeRecordBatch (succeeds : Bool)
  | countBatch
  | stopAsyncLogging

inductive LogEvent where
  | accepted (level : LogLevel) (message : Bytes)
  | handed (records : List LogRecord) (output : Option Bytes)

namespace AsyncLogger

variable (a : AsyncLogger)

def submitLogRecord (level : LogLevel) (message : Bytes) : AsyncLogger × List LogEvent :=
  let stats := { a.stats with submitted := a.stats.submitted + 1 }
  if !a.accepting then ({ a with stats := { stats with rejectedStopped := stats.rejectedStopped + 1 } }, [])
  else if room : a.ring.size < a.ring.slots.length then
    ({ a with
        ring := a.ring.push (LogRecord.write level message) room
        stats :=
          { stats with
            truncated := if kMessageLimit < message.length then stats.truncated + 1 else stats.truncated
            accepted := stats.accepted + 1
            pending := stats.pending + 1 } },
      [.accepted level message])
  else ({ a with stats := { stats with droppedFull := stats.droppedFull + 1 } }, [])

/-- The first locked section of `consumeRecords`. -/
def takeBatch : AsyncLogger :=
  match a.consumer with
  | .waiting =>
    if a.ring.size = 0 then if a.accepting then a else { a with consumer := .returned }
    else
      let taken := a.ring.take (min a.ring.size kBatchRecords)
      { a with ring := taken.2, consumer := .writing taken.1 }
  | _ => a

/-- The sink is given the batch; it may fail, also by an exception. -/
def writeRecordBatch (succeeds : Bool) : AsyncLogger × List LogEvent :=
  match a.consumer with
  | .writing batch =>
    ({ a with consumer := .counting batch.length succeeds }, [.handed batch (assembleBatch batch)])
  | _ => (a, [])

/-- The second locked section. -/
def countBatch : AsyncLogger :=
  match a.consumer with
  | .counting batchCount written =>
    { a with
      consumer := .waiting
      stats :=
        { a.stats with
          written := if written then a.stats.written + UInt64.ofNat batchCount else a.stats.written
          failed := if written then a.stats.failed else a.stats.failed + UInt64.ofNat batchCount
          pending := a.stats.pending - UInt64.ofNat batchCount } }
  | _ => a

/-- The locked section of `stopAsyncLogging`; the join changes nothing. -/
def stopAsyncLogging : AsyncLogger := { a with accepting := false }

def act : LogAction → AsyncLogger × List LogEvent
  | .submitLogRecord level message => a.submitLogRecord level message
  | .takeBatch => (a.takeBatch, [])
  | .writeRecordBatch succeeds => a.writeRecordBatch succeeds
  | .countBatch => (a.countBatch, [])
  | .stopAsyncLogging => (a.stopAsyncLogging, [])

/-- The records that are in the consumer's hands and not yet given to the sink. -/
def unwritten : List LogRecord :=
  match a.consumer with
  | .writing batch => batch
  | _ => []

/-- The size of the consumer's current batch. -/
def current : Nat :=
  match a.consumer with
  | .writing batch => batch.length
  | .counting batchCount _ => batchCount
  | _ => 0

end AsyncLogger

def asyncLogger : Machine AsyncLogger LogAction LogEvent := ⟨AsyncLogger.act⟩

/-! ### Accounting and order -/

/-- What was accepted, in its order and as far as it is kept. -/
def acceptedEntries : List LogEvent → List (LogLevel × Bytes)
  | [] => []
  | .accepted level message :: rest => (level, shown message) :: acceptedEntries rest
  | .handed _ _ :: rest => acceptedEntries rest

/-- The records handed to the sink, in their order. -/
def handedRecords : List LogEvent → List LogRecord
  | [] => []
  | .accepted _ _ :: rest => handedRecords rest
  | .handed records _ :: rest => records ++ handedRecords rest

theorem acceptedEntries_append (first second : List LogEvent) :
    acceptedEntries (first ++ second) = acceptedEntries first ++ acceptedEntries second := by
  induction first with
  | nil => rfl
  | cons event first ih => cases event <;> simp [acceptedEntries, ih]

theorem handedRecords_append (first second : List LogEvent) :
    handedRecords (first ++ second) = handedRecords first ++ handedRecords second := by
  induction first with
  | nil => rfl
  | cons event first ih => cases event <;> simp [handedRecords, ih]

/-- **The accounts of a logger and what it has done.** -/
structure LogAccounts (slots : Nat) (a : AsyncLogger) (log : List LogEvent) : Prop where
  slots : a.ring.slots.length = slots
  submitted : a.stats.submitted = a.stats.accepted + a.stats.droppedFull + a.stats.rejectedStopped
  accepted : a.stats.accepted = a.stats.written + a.stats.failed + a.stats.pending
  pending : a.stats.pending = UInt64.ofNat (a.ring.size + a.current)
  batch : a.current ≤ kBatchRecords
  order : acceptedEntries log = (handedRecords log ++ a.unwritten ++ a.ring.view).map LogRecord.entry
  assembled : ∀ records output, .handed records output ∈ log →
    records.length ≤ kBatchRecords ∧ output = some (records.flatMap LogRecord.line)
  ended : a.consumer = .returned → a.accepting = false ∧ a.ring.size = 0

section Steps

variable {slots : Nat} {a : AsyncLogger} {log : List LogEvent}

theorem submitLogRecord_accounts (accounts : LogAccounts slots a log) (level : LogLevel) (message : Bytes) :
    LogAccounts slots (a.submitLogRecord level message).1 (log ++ (a.submitLogRecord level message).2) := by
  obtain ⟨slots, submitted, accepted, pending, batch, order, assembled, ended⟩ := accounts
  unfold AsyncLogger.submitLogRecord
  dsimp only
  split
  · rw [List.append_nil]
    exact ⟨slots, by grind, accepted, pending, batch, order, assembled, ended⟩
  split
  case isTrue going room =>
    refine ⟨?_, by grind, by grind, ?_, batch, ?_, ?_, ?_⟩
    · show (a.ring.slots.set _ _).length = _
      rw [List.length_set]
      exact slots
    · show a.stats.pending + 1 = UInt64.ofNat (a.ring.size + 1 + a.current)
      rw [pending, show a.ring.size + 1 + a.current = a.ring.size + a.current + 1 by omega, UInt64.ofNat_add (_ + _) 1]
      rfl
    · show _ = (handedRecords (log ++ [.accepted level message]) ++ a.unwritten
        ++ (a.ring.push (LogRecord.write level message) room).view).map LogRecord.entry
      rw [acceptedEntries_append, handedRecords_append, order, RingQueue.push_view]
      simp only [handedRecords, List.append_nil, List.map_append, List.append_assoc, List.map_cons, List.map_nil,
        acceptedEntries, LogRecord.entry, write_content]
      rfl
    · intro records output member
      rcases List.mem_append.mp member with before | new
      · exact assembled records output before
      · cases List.mem_singleton.mp new
    · intro returned
      have stopped := (ended returned).1
      simp [stopped] at going
  case isFalse =>
    rw [List.append_nil]
    exact ⟨slots, by grind, accepted, pending, batch, order, assembled, ended⟩

theorem takeBatch_accounts (accounts : LogAccounts slots a log) : LogAccounts slots a.takeBatch log := by
  unfold AsyncLogger.takeBatch
  split
  case h_2 => exact accounts
  case h_1 waiting =>
    obtain ⟨slots, submitted, accepted, pending, batch, order, assembled, ended⟩ := accounts
    have idle : a.current = 0 ∧ a.unwritten = [] := by
      unfold AsyncLogger.current AsyncLogger.unwritten
      rw [waiting]
      exact ⟨rfl, rfl⟩
    split
    case isTrue none =>
      split
      · exact ⟨slots, submitted, accepted, pending, batch, order, assembled, ended⟩
      case isFalse stopped =>
        refine ⟨slots, submitted, accepted, ?_, Nat.zero_le _, ?_, assembled, fun _ => ⟨by simpa using stopped, none⟩⟩
        · show a.stats.pending = UInt64.ofNat (a.ring.size + 0)
          rw [pending, idle.1]
        · rw [order, idle.2]
          rfl
    case isFalse =>
      have some : min a.ring.size kBatchRecords ≤ a.ring.size := Nat.min_le_left _ _
      have taken := a.ring.take_eq some
      have count : (a.ring.take (min a.ring.size kBatchRecords)).1.length = min a.ring.size kBatchRecords := by
        rw [taken, List.length_take, RingQueue.view_length, Nat.min_eq_left some]
      refine ⟨(a.ring.take_slots _ ▸ slots :), submitted, accepted, ?_, ?_, ?_, assembled, fun other => nomatch other⟩
      · show a.stats.pending = UInt64.ofNat ((a.ring.take _).2.size + (a.ring.take _).1.length)
        rw [pending, idle.1, RingQueue.take_size, count]
        congr 1
        omega
      · show (a.ring.take _).1.length ≤ kBatchRecords
        rw [count]
        exact Nat.min_le_right _ _
      · show _ = (handedRecords log ++ (a.ring.take _).1 ++ (a.ring.take _).2.view).map LogRecord.entry
        rw [taken, RingQueue.take_view, List.append_assoc, List.take_append_drop, order, idle.2, List.append_nil]

theorem writeRecordBatch_accounts (accounts : LogAccounts slots a log) (succeeds : Bool) :
    LogAccounts slots (a.writeRecordBatch succeeds).1 (log ++ (a.writeRecordBatch succeeds).2) := by
  unfold AsyncLogger.writeRecordBatch
  split
  case h_2 =>
    rw [List.append_nil]
    exact accounts
  case h_1 batch writing =>
    obtain ⟨slots, submitted, accepted, pending, few, order, assembled, ended⟩ := accounts
    have held : a.current = batch.length ∧ a.unwritten = batch := by
      unfold AsyncLogger.current AsyncLogger.unwritten
      rw [writing]
      exact ⟨rfl, rfl⟩
    rw [held.1] at pending few
    refine ⟨slots, submitted, accepted, pending, few, ?_, ?_, fun other => nomatch other⟩
    · show _ = (handedRecords (log ++ [LogEvent.handed batch _]) ++ [] ++ a.ring.view).map LogRecord.entry
      rw [acceptedEntries_append, handedRecords_append, order, held.2]
      simp [acceptedEntries, handedRecords]
    · intro records output member
      rcases List.mem_append.mp member with before | new
      · exact assembled records output before
      · cases List.mem_singleton.mp new
        exact ⟨few, assembleBatch_eq few⟩

theorem countBatch_accounts (accounts : LogAccounts slots a log) : LogAccounts slots a.countBatch log := by
  unfold AsyncLogger.countBatch
  split
  case h_2 => exact accounts
  case h_1 batchCount written counting =>
    obtain ⟨slots, submitted, accepted, pending, few, order, assembled, ended⟩ := accounts
    have held : a.current = batchCount ∧ a.unwritten = [] := by
      unfold AsyncLogger.current AsyncLogger.unwritten
      rw [counting]
      exact ⟨rfl, rfl⟩
    refine ⟨slots, submitted, ?_, ?_, Nat.zero_le _, ?_, assembled, fun other => nomatch other⟩
    · dsimp only
      cases written <;> simp only [if_true, if_false, Bool.false_eq_true] <;> grind
    · show a.stats.pending - UInt64.ofNat batchCount = UInt64.ofNat (a.ring.size + 0)
      rw [pending, held.1, UInt64.ofNat_add]
      grind
    · rw [order, held.2]
      rfl

theorem act_accounts (accounts : LogAccounts slots a log) (action : LogAction) :
    LogAccounts slots (a.act action).1 (log ++ (a.act action).2) := by
  cases action with
  | submitLogRecord level message => exact submitLogRecord_accounts accounts level message
  | takeBatch =>
    show LogAccounts slots a.takeBatch (log ++ [])
    rw [List.append_nil]
    exact takeBatch_accounts accounts
  | writeRecordBatch succeeds => exact writeRecordBatch_accounts accounts succeeds
  | countBatch =>
    show LogAccounts slots a.countBatch (log ++ [])
    rw [List.append_nil]
    exact countBatch_accounts accounts
  | stopAsyncLogging =>
    show LogAccounts slots a.stopAsyncLogging (log ++ [])
    rw [List.append_nil]
    obtain ⟨slots, submitted, accepted, pending, few, order, assembled, ended⟩ := accounts
    exact ⟨slots, submitted, accepted, pending, few, order, assembled, fun returned => ⟨rfl, (ended returned).2⟩⟩

end Steps

theorem made_accounts {slots : Nat} {logger : AsyncLogger} (made : makeAsyncLogger slots = .ok logger) :
    slots ≤ kLoggerCapacity ∧ LogAccounts slots logger [] := by
  unfold makeAsyncLogger at made
  split at made
  case isFalse => cases made
  case isTrue valid =>
    cases made
    refine ⟨valid.2, List.length_replicate, rfl, rfl, rfl, Nat.zero_le _, rfl, ?_, fun other => nomatch other⟩
    exact fun _ _ member => absurd member List.not_mem_nil

/-- **Every logger's counters balance, and its sink gets the accepted records in their order, once each**, under
any interleaving of producers, consumer and stop. -/
theorem logger_accounts {slots : Nat} {logger : AsyncLogger} (made : makeAsyncLogger slots = .ok logger)
    (actions : List LogAction) (a : AsyncLogger) (log : List LogEvent)
    (reached : asyncLogger.run logger actions = (a, log)) :
    a.stats.submitted = a.stats.accepted + a.stats.droppedFull + a.stats.rejectedStopped
    ∧ a.stats.accepted = a.stats.written + a.stats.failed + a.stats.pending
    ∧ a.stats.pending.toNat = a.ring.view.length + a.current
    ∧ a.stats.pending.toNat ≤ slots + kBatchRecords
    ∧ acceptedEntries log = (handedRecords log ++ a.unwritten ++ a.ring.view).map LogRecord.entry
    ∧ (∀ records output, LogEvent.handed records output ∈ log → output = some (records.flatMap LogRecord.line)
      ∧ (records.flatMap LogRecord.line).length ≤ kBatchRecords * kOutputRecordLimit)
    ∧ (a.consumer = .returned → a.accepting = false ∧ a.stats.pending = 0
      ∧ acceptedEntries log = (handedRecords log).map LogRecord.entry) := by
  obtain ⟨capacity, start⟩ := made_accounts made
  have accounts := Machine.run_history (m := asyncLogger) (P := LogAccounts slots)
    (fun s log action holds => act_accounts holds action) actions logger [] start
  rw [reached, List.nil_append] at accounts
  dsimp only at accounts
  have size : a.ring.size ≤ slots := accounts.slots ▸ a.ring.fits
  have small : a.ring.size + a.current ≤ slots + kBatchRecords := Nat.add_le_add size accounts.batch
  have pending : a.stats.pending.toNat = a.ring.size + a.current := by
    rw [accounts.pending, UInt64.toNat_ofNat']
    apply Nat.mod_eq_of_lt
    have limit : kLoggerCapacity + kBatchRecords < 2 ^ 64 := by decide
    omega
  refine ⟨accounts.submitted, accounts.accepted, ?_, pending ▸ small, accounts.order, ?_, ?_⟩
  · rw [RingQueue.view_length]
    exact pending
  · intro records output member
    obtain ⟨few, assembled⟩ := accounts.assembled records output member
    exact ⟨assembled, Nat.le_trans (lines_length records) (Nat.mul_le_mul_right _ few)⟩
  · intro returned
    obtain ⟨stopped, none⟩ := accounts.ended returned
    have gone : a.current = 0 ∧ a.unwritten = [] := by
      unfold AsyncLogger.current AsyncLogger.unwritten
      rw [returned]
      exact ⟨rfl, rfl⟩
    refine ⟨stopped, ?_, ?_⟩
    · rw [accounts.pending, none, gone.1]
      rfl
    · rw [accounts.order, gone.2, List.eq_nil_of_length_eq_zero (a.ring.view_length.trans none)]
      simp only [List.append_nil]

/-- What happens to a logger with one slot whose consumer writes one record and is stopped. -/
def singleSlotRun : List LogAction :=
  [.submitLogRecord .warn (text "a"), .submitLogRecord .info (text "b"), .takeBatch, .writeRecordBatch true,
    .stopAsyncLogging, .countBatch, .takeBatch]

theorem logger_accounts_single : ∃ logger a log, makeAsyncLogger 1 = .ok logger
    ∧ asyncLogger.run logger singleSlotRun = (a, log)
    ∧ a.consumer = .returned ∧ a.stats.pending = 0 ∧ a.stats.accepted = 1 ∧ a.stats.droppedFull = 1 := by
  have made : makeAsyncLogger 1 = .ok ⟨.empty (List.replicate 1 blankRecord) (by decide), true, {}, .waiting⟩ := rfl
  refine ⟨_, _, _, made, rfl, rfl, ?_, rfl, rfl⟩
  exact ((logger_accounts made singleSlotRun _ _ rfl).2.2.2.2.2.2 rfl).2.1

end HpServer.Base
