/-
**The output transport: what is queued is sent once, in order, and leased while it is pending.**

One specification for each function of `ConnectionIo`, and the machine of a `ConnectionIo` whose ledger has
other holders.

* `writeAvailable_wrote` — **the kernel takes a prefix of what is pending, as much as the result says, and
  the lease follows** (`Written`).
* `queueOutput_spec`, `queueFile_spec` — queueing appends (`Queued`) or changes nothing pending and no
  amount on the ledger (`Refused`).
* `transport_exact` — **over every sequence of calls, what the kernel has taken and what is pending are what
  was queued, and the lease is what is pending.**
-/

import HpServer.Net.ConnectionIo

namespace HpServer.Net

open Base Machines Programs

/-! ### What reading and writing do -/

/-- The parts of a `ConnectionIo` that writing leaves alone. -/
structure ConnectionIo.SameInput (io next : ConnectionIo) : Prop where
  input : next.input = io.input
  window : next.maxInputBytes = io.maxInputBytes
  half : next.peerHalfClosed = io.peerHalfClosed
  received : next.socket.received = io.socket.received
  overflowed : next.socket.overflowed = io.socket.overflowed
  limit : next.output.limit = io.output.limit

theorem ConnectionIo.SameInput.refl (io : ConnectionIo) : io.SameInput io := ⟨rfl, rfl, rfl, rfl, rfl, rfl⟩

theorem ConnectionIo.SameInput.trans {io next last : ConnectionIo} (first : io.SameInput next)
    (second : next.SameInput last) : io.SameInput last where
  input := second.input.trans first.input
  window := second.window.trans first.window
  half := second.half.trans first.half
  received := second.received.trans first.received
  overflowed := second.overflowed.trans first.overflowed
  limit := second.limit.trans first.limit

theorem ConnectionIo.pendingOutput_length (io : ConnectionIo) :
    io.pendingOutput.length = io.pendingBytes := by
  unfold pendingOutput pendingBytes fileRemaining
  cases io.file <;> simp

theorem ConnectionIo.hasPendingOutput_iff (io : ConnectionIo) :
    io.hasPendingOutput = true ↔ io.pendingOutput ≠ [] := by
  rw [← List.length_pos_iff, pendingOutput_length]
  unfold hasPendingOutput pendingBytes
  simp
  omega

/-- The output lease on a ledger is what is pending, and the ledger has it. -/
structure ConnectionIo.Covered (io : ConnectionIo) (b : ResourceBudget) : Prop where
  ordered : b.Ordered
  plain : io.outputLease.Plain
  connections : io.outputLease.connections = 0
  input : io.outputLease.inputBytes = 0
  output : io.outputLease.outputBytes = io.pendingBytes
  held : io.pendingBytes ≤ b.outputBytes.current

/-- Where there is a ledger, the output lease on it is what is pending. -/
def ConnectionIo.Leased (io : ConnectionIo) (budget : Option ResourceBudget) : Prop :=
  ∀ b, budget = some b → io.Covered b

theorem ConnectionIo.Leased.same {io next : ConnectionIo} {budget : Option ResourceBudget}
    (leased : io.Leased budget) (lease : next.outputLease = io.outputLease)
    (pending : next.pendingBytes = io.pendingBytes) : next.Leased budget := by
  intro b same
  obtain ⟨ordered, plain, connections, input, output, held⟩ := leased b same
  exact ⟨ordered, lease ▸ plain, lease ▸ connections, lease ▸ input, by rw [lease, pending, output],
    pending ▸ held⟩

namespace Writing

/-- **The kernel has taken `taken` from the front of what was pending**, and the lease has followed. -/
structure Wrote (w next : Writing) (taken : Bytes) : Prop where
  pending : w.io.pendingOutput = taken ++ next.io.pendingOutput
  accepted : next.io.socket.accepted = w.io.socket.accepted ++ taken
  count : next.result.bytesWritten = w.result.bytesWritten + taken.length
  transfer : next.result.fileTransfer = w.result.fileTransfer
  same : w.io.SameInput next.io
  rest : next.sends <:+ w.sends
  used : taken ≠ [] → next.sends.length < w.sends.length
  leased : w.io.Leased w.budget → next.io.Leased next.budget

theorem Wrote.refl (w : Writing) : w.Wrote w [] :=
  ⟨rfl, by simp, rfl, rfl, .refl _, List.suffix_refl _, fun taken => absurd rfl taken, id⟩

theorem Wrote.trans {w next last : Writing} {taken more : Bytes} (first : w.Wrote next taken)
    (second : next.Wrote last more) : w.Wrote last (taken ++ more) where
  pending := by rw [first.pending, second.pending, List.append_assoc]
  accepted := by rw [second.accepted, first.accepted, List.append_assoc]
  count := by rw [second.count, first.count, List.length_append, Nat.add_assoc]
  transfer := second.transfer.trans first.transfer
  same := first.same.trans second.same
  rest := second.rest.trans first.rest
  used some := by
    by_cases none : taken = []
    · have late : more ≠ [] := by
        intro empty
        exact some (by rw [none, empty, List.append_nil])
      exact Nat.lt_of_lt_of_le (second.used late) first.rest.length_le
    · exact Nat.lt_of_le_of_lt second.rest.length_le (first.used none)
  leased := second.leased ∘ first.leased

/-- How the flags stand after some calls. -/
inductive Flagged (w next : Writing) : Prop
  | quiet (blocked : next.result.wouldBlock = w.result.wouldBlock)
      (error : next.result.errorNumber = w.result.errorNumber)
      (failed : next.io.socket.failed = w.io.socket.failed)
  | blocked (blocked : next.result.wouldBlock = true)
      (error : next.result.errorNumber = w.result.errorNumber)
      (failed : next.io.socket.failed = w.io.socket.failed) (left : next.io.pendingOutput ≠ [])
  | failed (error : next.result.errorNumber.isSome) (failed : next.io.socket.failed = true)
      (blocked : next.result.wouldBlock = w.result.wouldBlock) (fatal : ∃ c ∈ w.sends, c.Fatal)

theorem Flagged.after {w next last : Writing} (rest : next.sends <:+ w.sends)
    (blocked : next.result.wouldBlock = w.result.wouldBlock)
    (error : next.result.errorNumber = w.result.errorNumber)
    (failed : next.io.socket.failed = w.io.socket.failed) (later : next.Flagged last) :
    w.Flagged last := by
  cases later with
  | quiet b e f => exact .quiet (b.trans blocked) (e.trans error) (f.trans failed)
  | blocked b e f left => exact .blocked b (e.trans error) (f.trans failed) left
  | failed e f b fatal =>
    obtain ⟨c, member, ends⟩ := fatal
    exact .failed e f (b.trans blocked) ⟨c, rest.subset member, ends⟩

theorem release_eq (w : Writing) (bytes : Nat) :
    ∃ lease budget, w.release bytes = { w with io := { w.io with outputLease := lease }, budget := budget } := by
  unfold release
  split
  · exact ⟨w.io.outputLease, w.budget, rfl⟩
  · exact ⟨_, _, rfl⟩

/-- Releasing what the kernel has taken keeps the lease at what is pending. -/
theorem release_leased {w : Writing} {before : ConnectionIo} {count : Nat}
    (leased : before.Leased w.budget) (lease : w.io.outputLease = before.outputLease)
    (pending : w.io.pendingBytes + count = before.pendingBytes) :
    (w.release count).io.Leased (w.release count).budget := by
  unfold release
  split
  case h_1 none =>
    intro b same
    rw [none] at same
    cases same
  case h_2 budget some =>
    obtain ⟨ordered, plain, connections, input, output, held⟩ := leased budget some
    obtain ⟨-, value⟩ :=
      releaseOutput_spec ordered (show count ≤ w.io.outputLease.outputBytes by rw [lease, output]; omega)
        (by rw [lease, output]; exact held)
    rintro b ⟨⟩
    simp only [value]
    have usage := ResourceBudget.usage_shrink budget { outputBytes := count }
    refine ⟨⟨fun r => ?_, fun r => ?_, ordered.word⟩, fun loose => ?_, lease ▸ connections, lease ▸ input, ?_, ?_⟩
    · rw [usage]
      exact Nat.le_trans (Nat.sub_le _ _) (ordered.peak r)
    · rw [usage]
      exact ordered.limit r
    · have empty := plain (lease ▸ loose)
      rw [lease, empty]
      simp
    · show w.io.outputLease.outputBytes - count = w.io.pendingBytes
      rw [lease, output]
      omega
    · show w.io.pendingBytes ≤ budget.outputBytes.current - count
      omega

/-- One accepted call on the memory. -/
theorem acceptOutput_wrote {w : Writing} {c : WriteCall} {rest : List WriteCall} {count : Nat}
    (sends : w.sends = c :: rest) (fits : count ≤ w.io.output.readableBytes) :
    w.Wrote ((w.call rest).acceptOutput count) (w.io.output.readableView.take count)
      ∧ ((w.call rest).acceptOutput count).sends = rest
      ∧ ((w.call rest).acceptOutput count).result.wouldBlock = w.result.wouldBlock
      ∧ ((w.call rest).acceptOutput count).result.errorNumber = w.result.errorNumber
      ∧ ((w.call rest).acceptOutput count).io.socket.failed = w.io.socket.failed
      ∧ ((w.call rest).acceptOutput count).io.file = w.io.file := by
  obtain ⟨output, consumed, view, limit⟩ := w.io.output.view_consume fits
  unfold acceptOutput
  rw [show (w.call rest).io.output.consumeReadableBytes count = .some output from consumed]
  dsimp only
  have size : output.readableBytes + count = w.io.output.readableBytes := by
    rw [← output.view_length, ← w.io.output.view_length, view, List.length_drop, w.io.output.view_length]
    omega
  have leased : w.io.Leased w.budget →
      (({ w.call rest with io := { (w.call rest).io with output := output } } : Writing).release count).io.Leased
        (({ w.call rest with io := { (w.call rest).io with output := output } } : Writing).release count).budget := by
    intro leased
    refine release_leased leased rfl ?_
    show output.readableBytes + w.io.fileRemaining + count = w.io.output.readableBytes + w.io.fileRemaining
    omega
  obtain ⟨lease, budget, same⟩ :=
    release_eq { w.call rest with io := { (w.call rest).io with output := output } } count
  rw [same] at leased ⊢
  refine ⟨⟨?_, rfl, rfl, rfl, ⟨rfl, rfl, rfl, rfl, rfl, limit⟩, ?_, fun _ => ?_,
    fun before => (leased before).same rfl rfl⟩, rfl, rfl, rfl, rfl, rfl⟩
  · show w.io.output.readableView ++ _ = _ ++ (output.readableView ++ _)
    rw [view, ← List.append_assoc, List.take_append_drop]
    rfl
  · exact sends ▸ List.suffix_cons _ _
  · rw [sends]
    exact Nat.lt_succ_self _

/-- One accepted call on the file, with the memory empty. -/
theorem acceptFile_wrote {w : Writing} {file : FileRegion} {c : WriteCall} {rest : List WriteCall}
    {count : Nat} (sends : w.sends = c :: rest) (pending : w.io.file = .some file)
    (empty : w.io.output.readableBytes = 0) (fits : count ≤ file.remaining) :
    w.Wrote ((w.call rest).acceptFile file count) (file.view.take count)
      ∧ ((w.call rest).acceptFile file count).sends = rest
      ∧ ((w.call rest).acceptFile file count).result.wouldBlock = w.result.wouldBlock
      ∧ ((w.call rest).acceptFile file count).result.errorNumber = w.result.errorNumber
      ∧ ((w.call rest).acceptFile file count).io.socket.failed = w.io.socket.failed
      ∧ ((w.call rest).acceptFile file count).io.output = w.io.output := by
  obtain ⟨next, advanced, view, left⟩ := FileRegion.view_advance fits
  have none : w.io.output.readableView = [] := w.io.output.view_empty.mpr empty
  unfold acceptFile
  rw [advanced]
  dsimp only
  have leased : w.io.Leased w.budget →
      (({ w.call rest with
          io := { (w.call rest).io with file := .some next }
          progress := (w.call rest).progress + count } : Writing).release count).io.Leased
        (({ w.call rest with
            io := { (w.call rest).io with file := .some next }
            progress := (w.call rest).progress + count } : Writing).release count).budget := by
    intro leased
    refine release_leased leased rfl ?_
    show w.io.output.readableBytes + next.remaining + count = w.io.output.readableBytes + w.io.fileRemaining
    rw [ConnectionIo.fileRemaining, pending, left]
    show _ + (file.remaining - count) + count = _ + file.remaining
    omega
  obtain ⟨lease, budget, same⟩ :=
    release_eq
      { w.call rest with
        io := { (w.call rest).io with file := .some next }
        progress := (w.call rest).progress + count }
      count
  rw [same] at leased ⊢
  refine ⟨⟨?_, rfl, rfl, rfl, ⟨rfl, rfl, rfl, rfl, rfl, rfl⟩, ?_, fun _ => ?_,
    fun before => (leased before).same rfl rfl⟩, rfl, rfl, rfl, rfl, rfl⟩
  · show w.io.output.readableView ++ (w.io.file.map FileRegion.view).getD []
      = file.view.take count ++ (w.io.output.readableView ++ next.view)
    rw [pending, none, view]
    exact (List.take_append_drop _ _).symm
  · exact sends ▸ List.suffix_cons _ _
  · rw [sends]
    exact Nat.lt_succ_self _

theorem call_wrote {w : Writing} {c : WriteCall} {rest : List WriteCall} (sends : w.sends = c :: rest) :
    w.Wrote (w.call rest) [] :=
  ⟨rfl, (List.append_nil _).symm, rfl, rfl, .refl _, sends ▸ List.suffix_cons _ _,
    fun some => absurd rfl some, id⟩

theorem block_wrote (w : Writing) : w.Wrote w.block [] :=
  ⟨rfl, (List.append_nil _).symm, rfl, rfl, .refl _, List.suffix_refl _, fun some => absurd rfl some,
    id⟩

theorem fail_wrote (w : Writing) (number : Nat) : w.Wrote (w.fail number) [] :=
  ⟨rfl, (List.append_nil _).symm, rfl, rfl, ⟨rfl, rfl, rfl, rfl, rfl, rfl⟩, List.suffix_refl _,
    fun some => absurd rfl some, fun leased => leased.same rfl rfl⟩

theorem output_pending {w : Writing} (some : w.io.output.readableBytes ≠ 0) : w.io.pendingOutput ≠ [] := by
  refine (ConnectionIo.hasPendingOutput_iff _).mp ?_
  simp [ConnectionIo.hasPendingOutput, some]

/-- How one of the two loops ends: with its source empty and the flags as they were, or with something
pending or failed. -/
structure Looped (w next : Writing) (done : Bool) : Prop where
  wrote : ∃ taken, w.Wrote next taken
  flagged : w.Flagged next
  empty : done = true → next.result.wouldBlock = w.result.wouldBlock
    ∧ next.result.errorNumber = w.result.errorNumber ∧ next.io.socket.failed = w.io.socket.failed
  left : done = false → next.io.pendingOutput ≠ [] ∨ next.result.errorNumber.isSome

theorem Looped.after {w next last : Writing} {taken : Bytes} {done : Bool} (first : w.Wrote next taken)
    (blocked : next.result.wouldBlock = w.result.wouldBlock)
    (error : next.result.errorNumber = w.result.errorNumber)
    (failed : next.io.socket.failed = w.io.socket.failed) (later : next.Looped last done) :
    w.Looped last done where
  wrote := by
    obtain ⟨more, second⟩ := later.wrote
    exact ⟨_, first.trans second⟩
  flagged := later.flagged.after first.rest blocked error failed
  empty done := by
    obtain ⟨b, e, f⟩ := later.empty done
    exact ⟨b.trans blocked, e.trans error, f.trans failed⟩
  left := later.left

theorem looped_refl (w : Writing) : w.Looped w true :=
  ⟨⟨[], .refl w⟩, .quiet rfl rfl rfl, fun _ => ⟨rfl, rfl, rfl⟩, fun done => absurd done (by decide)⟩

theorem looped_stop {w : Writing} (left : w.io.pendingOutput ≠ []) : w.Looped w false :=
  ⟨⟨[], .refl w⟩, .quiet rfl rfl rfl, fun done => absurd done (by decide), fun _ => .inl left⟩

theorem looped_block {w : Writing} (left : w.io.pendingOutput ≠ []) : w.Looped w.block false :=
  ⟨⟨[], w.block_wrote⟩, .blocked rfl rfl rfl left, fun done => absurd done (by decide), fun _ => .inl left⟩

/-- A call with a fatal result, after what it has written itself. -/
theorem looped_fail {w next : Writing} {taken : Bytes} {c : WriteCall} {rest : List WriteCall}
    (sends : w.sends = c :: rest) (fatal : c.Fatal) (wrote : w.Wrote next taken)
    (blocked : next.result.wouldBlock = w.result.wouldBlock) (number : Nat) :
    w.Looped (next.fail number) false :=
  ⟨⟨_, wrote.trans (next.fail_wrote number)⟩,
    .failed rfl rfl blocked ⟨c, sends ▸ List.mem_cons_self, fatal⟩,
    fun done => absurd done (by decide), fun _ => .inr rfl⟩

/-- The memory loop takes from the memory and leaves the file. -/
theorem sendOutput_looped (sends : List WriteCall) : ∀ w : Writing, w.sends = sends →
    w.Looped (sendOutput sends w).1 (sendOutput sends w).2
      ∧ ((sendOutput sends w).2 = true → (sendOutput sends w).1.io.output.readableBytes = 0) := by
  induction sends with
  | nil =>
    intro w same
    unfold sendOutput
    split
    case isTrue empty => exact ⟨looped_refl w, fun _ => empty⟩
    case isFalse some =>
      split
      · exact ⟨looped_stop (output_pending some), fun done => absurd done Bool.false_ne_true⟩
      · exact ⟨looped_block (output_pending some), fun done => absurd done Bool.false_ne_true⟩
  | cons c rest ih =>
    intro w same
    unfold sendOutput
    split
    case isTrue empty => exact ⟨looped_refl w, fun _ => empty⟩
    case isFalse some =>
      split
      · exact ⟨looped_stop (output_pending some), fun done => absurd done Bool.false_ne_true⟩
      · have called := call_wrote same
        cases c with
        | accepted more unrestored =>
          obtain ⟨wrote, sends, blocked, error, failed, -⟩ :=
            acceptOutput_wrote same (Nat.min_le_right (more + 1) w.io.output.readableBytes)
          obtain ⟨later, empty⟩ := ih _ sends
          exact ⟨.after wrote blocked error failed later, empty⟩
        | zero => exact ⟨looped_fail same trivial called rfl _, fun done => absurd done Bool.false_ne_true⟩
        | failed e =>
          cases e with
          | interrupted =>
            obtain ⟨later, empty⟩ := ih (w.call rest) rfl
            exact ⟨.after called rfl rfl rfl later, empty⟩
          | wouldBlock =>
            exact ⟨.after called rfl rfl rfl (looped_block (output_pending some)),
              fun done => absurd done Bool.false_ne_true⟩
          | other number =>
            exact ⟨looped_fail same ⟨number, rfl⟩ called rfl _, fun done => absurd done Bool.false_ne_true⟩

theorem file_pending {w : Writing} {file : FileRegion} (pending : w.io.file = some file)
    (left : file.remaining ≠ 0) : w.io.pendingOutput ≠ [] := by
  refine (ConnectionIo.hasPendingOutput_iff _).mp ?_
  simp [ConnectionIo.hasPendingOutput, ConnectionIo.fileRemaining, pending, left]

/-- The file loop takes from the file, once the memory is empty. -/
theorem sendFile_looped (sends : List WriteCall) : ∀ w : Writing, w.sends = sends →
    w.io.output.readableBytes = 0 →
    w.Looped (sendFile sends w).1 (sendFile sends w).2
      ∧ (sendFile sends w).1.io.output.readableBytes = 0
      ∧ ((sendFile sends w).2 = true → (sendFile sends w).1.io.fileRemaining = 0) := by
  induction sends with
  | nil =>
    intro w same empty
    unfold sendFile
    split
    case h_1 none =>
      exact ⟨looped_refl w, empty, fun _ => by simp [ConnectionIo.fileRemaining, none]⟩
    case h_2 file pending =>
      split
      case isTrue sent =>
        exact ⟨looped_refl w, empty, fun _ => by simp [ConnectionIo.fileRemaining, pending, sent]⟩
      case isFalse left =>
        have some := file_pending pending left
        split
        · exact ⟨looped_stop some, empty, fun done => absurd done Bool.false_ne_true⟩
        · exact ⟨looped_block some, empty, fun done => absurd done Bool.false_ne_true⟩
  | cons c rest ih =>
    intro w same empty
    unfold sendFile
    split
    case h_1 none =>
      exact ⟨looped_refl w, empty, fun _ => by simp [ConnectionIo.fileRemaining, none]⟩
    case h_2 file pending =>
      split
      case isTrue sent =>
        exact ⟨looped_refl w, empty, fun _ => by simp [ConnectionIo.fileRemaining, pending, sent]⟩
      case isFalse left =>
        have some := file_pending pending left
        split
        · exact ⟨looped_stop some, empty, fun done => absurd done Bool.false_ne_true⟩
        · have called := call_wrote same
          cases c with
          | accepted more unrestored =>
            obtain ⟨wrote, sends, blocked, error, failed, output⟩ :=
              acceptFile_wrote same pending empty
                (show min (more + 1) (min file.remaining (kFileWriteBudget - w.progress)) ≤ _ by omega)
            have still := (congrArg Buffer.readableBytes output).trans empty
            cases unrestored with
            | none =>
              obtain ⟨later, rest⟩ := ih _ sends still
              exact ⟨.after wrote blocked error failed later, rest⟩
            | some number =>
              exact ⟨looped_fail same (Option.some_ne_none _) wrote blocked _, still,
                fun done => absurd done Bool.false_ne_true⟩
          | zero =>
            exact ⟨looped_fail same trivial called rfl _, empty,
              fun done => absurd done Bool.false_ne_true⟩
          | failed e =>
            cases e with
            | interrupted =>
              obtain ⟨later, rest⟩ := ih (w.call rest) rfl empty
              exact ⟨.after called rfl rfl rfl later, rest⟩
            | wouldBlock =>
              exact ⟨.after called rfl rfl rfl (looped_block some), empty,
                fun done => absurd done Bool.false_ne_true⟩
            | other number =>
              exact ⟨looped_fail same ⟨number, rfl⟩ called rfl _, empty,
                fun done => absurd done Bool.false_ne_true⟩

/-- Nothing is pending at the end of `writeAvailable`. -/
theorem settle_wrote {w : Writing} (memory : w.io.output.readableBytes = 0) (file : w.io.fileRemaining = 0) :
    w.Wrote w.settle [] ∧ w.io.pendingOutput = [] ∧ w.settle.io.pendingOutput = [] := by
  have none : w.io.pendingOutput = [] := by
    rw [← List.length_eq_zero_iff, ConnectionIo.pendingOutput_length, ConnectionIo.pendingBytes, memory, file]
  obtain ⟨view, limit⟩ := w.io.output.view_release kRetainedOutput
  have after : w.settle.io.pendingOutput = [] := by
    show (w.io.output.releaseEmpty kRetainedOutput).readableView ++ [] = []
    rw [view, List.append_nil]
    exact w.io.output.view_empty.mpr memory
  refine ⟨⟨?_, (List.append_nil _).symm, rfl, rfl, ⟨rfl, rfl, rfl, rfl, rfl, limit⟩, List.suffix_refl _,
    fun some => absurd rfl some, fun leased => leased.same rfl ?_⟩, none, after⟩
  · rw [none, after]
    rfl
  · rw [← ConnectionIo.pendingOutput_length, ← ConnectionIo.pendingOutput_length, none, after]

/-- **`writeAvailable` stops with everything taken and no error, or with something pending or failed.** -/
theorem run_looped (w : Writing) :
    (∃ done, w.Looped w.run done) ∧
      (w.run.io.pendingOutput = [] → w.run.result.errorNumber = none → w.run.io.file = none) := by
  obtain ⟨first, memory⟩ := sendOutput_looped w.sends w rfl
  unfold run
  dsimp only
  split
  case isTrue more =>
    obtain ⟨second, still, file⟩ :=
      sendFile_looped (sendOutput w.sends w).1.sends (sendOutput w.sends w).1 rfl (memory more)
    obtain ⟨taken, wrote⟩ := first.wrote
    obtain ⟨blocked, error, failed⟩ := first.empty more
    have whole := second.after wrote blocked error failed
    split
    case isTrue all =>
      obtain ⟨settled, -, -⟩ := settle_wrote still (file all)
      obtain ⟨bytes, took⟩ := whole.wrote
      refine ⟨⟨true, ⟨_, took.trans settled⟩, ?_, fun _ => whole.empty all, fun done => absurd done (by decide)⟩,
        fun _ _ => rfl⟩
      obtain ⟨b, e, f⟩ := whole.empty all
      exact .quiet b e f
    case isFalse part =>
      have stopped : (sendFile (sendOutput w.sends w).1.sends (sendOutput w.sends w).1).2 = false :=
        Bool.not_eq_true _ ▸ part
      refine ⟨⟨_, whole⟩, fun none ok => ?_⟩
      rcases whole.left stopped with some | bad
      · exact absurd none some
      · rw [ok] at bad
        exact absurd bad (by decide)
  case isFalse part =>
    have stopped : (sendOutput w.sends w).2 = false := Bool.not_eq_true _ ▸ part
    refine ⟨⟨_, first⟩, fun none ok => ?_⟩
    rcases first.left stopped with some | bad
    · exact absurd none some
    · rw [ok] at bad
      exact absurd bad (by decide)

theorem sendOutput_empty {w : Writing} (empty : w.io.output.readableBytes = 0) (sends : List WriteCall) :
    sendOutput sends w = (w, true) := by
  unfold sendOutput
  rw [if_pos empty]

theorem sendOutput_accepted {w : Writing} {more : Nat} (some : w.io.output.readableBytes ≠ 0) (fresh : w.calls = 0)
    (rest : List WriteCall) :
    sendOutput (.accepted more none :: rest) w
      = sendOutput rest ((w.call rest).acceptOutput (min (more + 1) w.io.output.readableBytes)) := by
  have calls : ¬ ((w.result.fileTransfer && decide (w.calls = kFileCallBudget)) = true) := by
    rw [fresh]
    simp [kFileCallBudget]
  conv_lhs =>
    unfold sendOutput
    rw [if_neg some, if_neg calls]

theorem sendFile_accepted {w : Writing} {file : FileRegion} {more : Nat} (pending : w.io.file = .some file)
    (some : file.remaining ≠ 0) (fresh : w.calls = 0 ∧ w.progress = 0) (rest : List WriteCall) :
    sendFile (.accepted more none :: rest) w
      = sendFile rest ((w.call rest).acceptFile file (min (more + 1) (min file.remaining kFileWriteBudget))) := by
  have calls : ¬ ((decide (kFileCallBudget ≤ w.calls) || decide (w.progress = kFileWriteBudget)) = true) := by
    rw [fresh.1, fresh.2]
    decide
  conv_lhs =>
    unfold sendFile
    rw [pending]
    dsimp only
    rw [if_neg some, if_neg calls, fresh.2, Nat.sub_zero]

/-- A first call that takes something, and the rest of `writeAvailable`. -/
theorem run_accepted {w : Writing} {more : Nat} {rest : List WriteCall} (fresh : w.calls = 0 ∧ w.progress = 0)
    (sends : w.sends = .accepted more none :: rest) (some : w.io.pendingOutput ≠ []) :
    ∃ next taken, w.Wrote next taken ∧ taken ≠ [] ∧ w.run = next.run := by
  by_cases empty : w.io.output.readableBytes = 0
  · -- the memory is empty, so the file is not
    have memory : w.io.output.readableView = [] := w.io.output.view_empty.mpr empty
    cases pending : w.io.file with
    | none =>
      refine absurd ?_ some
      unfold ConnectionIo.pendingOutput
      rw [memory, pending]
      rfl
    | some file =>
      have left : file.remaining ≠ 0 := by
        intro sent
        refine some ?_
        unfold ConnectionIo.pendingOutput
        rw [memory, pending]
        exact List.length_eq_zero_iff.mp (file.view_length.trans sent)
      have budget : 0 < kFileWriteBudget := by decide
      have count : min (more + 1) (min file.remaining kFileWriteBudget) ≤ file.remaining := by omega
      obtain ⟨wrote, later, -, -, -, output⟩ := acceptFile_wrote sends pending empty count
      refine ⟨_, _, wrote, fun none => ?_, ?_⟩
      · have size := congrArg List.length none
        rw [List.length_take, file.view_length, List.length_nil] at size
        omega
      · unfold run
        dsimp only
        rw [sendOutput_empty empty, sendOutput_empty (by rw [output]; exact empty)]
        rw [if_pos rfl, if_pos rfl, later, sends, sendFile_accepted pending left fresh]
  · obtain ⟨wrote, later, -⟩ := acceptOutput_wrote sends (Nat.min_le_right (more + 1) _)
    refine ⟨_, _, wrote, fun none => ?_, ?_⟩
    · have size := congrArg List.length none
      rw [List.length_take, w.io.output.view_length, List.length_nil] at size
      omega
    · unfold run
      dsimp only
      rw [later, sends, sendOutput_accepted empty fresh.1]

end Writing

/-- What `writeAvailable` has done when the kernel took `taken`. -/
structure Written (p : Port) (result : WriteResult) (q : Port) (taken : Bytes) : Prop where
  pending : p.io.pendingOutput = taken ++ q.io.pendingOutput
  accepted : q.io.socket.accepted = p.io.socket.accepted ++ taken
  count : result.bytesWritten = taken.length
  transfer : result.fileTransfer = p.io.file.isSome
  same : p.io.SameInput q.io
  rest : q.host.sends <:+ p.host.sends
  used : taken ≠ [] → q.host.sends.length < p.host.sends.length
  blocked : result.wouldBlock = true → q.io.pendingOutput ≠ [] ∧ result.errorNumber = none
  failed : q.io.socket.failed = (p.io.socket.failed || result.errorNumber.isSome)
  fatal : result.errorNumber.isSome → ∃ c ∈ p.host.sends, c.Fatal
  settled : q.io.pendingOutput = [] → result.errorNumber = none → q.io.file = none
  leased : p.io.Leased p.host.budget → q.io.Leased q.host.budget
  host : q.host = { p.host with budget := q.host.budget, sends := q.host.sends }

theorem writeAvailable_wrote (p : Port) :
    wp writeAvailable (fun result q => ∃ taken, Written p result q taken) (fun _ _ => False) p := by
  unfold writeAvailable
  simp only [wp_bind, wp_get, wp_set, wp_pure]
  obtain ⟨⟨done, loop⟩, settled⟩ :=
    Writing.run_looped
      { io := p.io
        budget := p.host.budget
        sends := p.host.sends
        result := { fileTransfer := p.io.file.isSome } }
  obtain ⟨taken, wrote⟩ := loop.wrote
  refine ⟨taken, wrote.pending, wrote.accepted, wrote.count.trans (Nat.zero_add _), wrote.transfer,
    wrote.same, wrote.rest, wrote.used, ?_, ?_, ?_, settled, wrote.leased, rfl⟩
  · intro blocked
    cases loop.flagged with
    | quiet b e f => exact absurd (b.symm.trans blocked) Bool.false_ne_true
    | blocked b e f left => exact ⟨left, e⟩
    | failed e f b fatal => exact absurd (b.symm.trans blocked) Bool.false_ne_true
  · cases loop.flagged with
    | quiet b e f => rw [show _ = none from e, f, Option.isSome_none, Bool.or_false]
    | blocked b e f left => rw [show _ = none from e, f, Option.isSome_none, Bool.or_false]
    | failed e f b fatal => rw [show _ = true from e, f, Bool.or_true]
  · intro error
    cases loop.flagged with
    | quiet b e f => simp [show _ = none from e] at error
    | blocked b e f left => simp [show _ = none from e] at error
    | failed e f b fatal => exact fatal

/-- **A call whose first result takes something makes progress.** -/
theorem writeAvailable_takes {p : Port} {more : Nat} {rest : List WriteCall}
    (sends : p.host.sends = .accepted more none :: rest) (some : p.io.pendingOutput ≠ []) :
    wp writeAvailable (fun _ q => q.io.pendingOutput.length < p.io.pendingOutput.length) (fun _ _ => False) p := by
  unfold writeAvailable
  simp only [wp_bind, wp_get, wp_set, wp_pure]
  obtain ⟨next, taken, first, positive, same⟩ := Writing.run_accepted (w :=
    { io := p.io
      budget := p.host.budget
      sends := p.host.sends
      result := { fileTransfer := p.io.file.isSome } }) ⟨rfl, rfl⟩ sends some
  obtain ⟨⟨done, loop⟩, -⟩ := Writing.run_looped next
  obtain ⟨later, second⟩ := loop.wrote
  have length := congrArg List.length (first.trans second).pending
  have few := List.length_pos_iff.mpr positive
  rw [List.length_append, List.length_append] at length
  rw [same]
  show next.run.io.pendingOutput.length < p.io.pendingOutput.length
  have whole : p.io.pendingOutput.length = taken.length + later.length + next.run.io.pendingOutput.length := length
  omega

/-! ### What queueing does -/

/-- How a ledger, if there is one, gives a lease of output. -/
inductive Acquired (bytes : Nat) (lease : ResourceLease) : Option ResourceBudget → Option ResourceBudget → Prop
  | free (empty : lease = {}) : Acquired bytes lease none none
  | leased (b : ResourceBudget) (accepted : (b.tryAcquireOutput bytes).value.2.rejection = .none)
      (same : lease = (b.tryAcquireOutput bytes).value.2.lease) :
      Acquired bytes lease (some b) (some (b.tryAcquireOutput bytes).value.1)

/-- The ledger's amounts are what they were. -/
structure SameCurrent (before after : Option ResourceBudget) : Prop where
  absent : before = none → after = none
  present : ∀ b, before = some b → b.Ordered →
    ∃ next, after = some next ∧ next.Ordered ∧ ∀ r, (next.usage r).current = (b.usage r).current

theorem SameCurrent.refl (budget : Option ResourceBudget) : SameCurrent budget budget :=
  ⟨id, fun b same ordered => ⟨b, same, ordered, fun _ => rfl⟩⟩

/-- A rejected request leaves the amounts. -/
theorem rejected_current {b : ResourceBudget} {bytes : Nat}
    (rejected : (b.tryAcquireOutput bytes).value.2.rejection ≠ .none) :
    SameCurrent (some b) (some (b.tryAcquireOutput bytes).value.1) := by
  refine ⟨(fun absent => nomatch absent), fun b' same ordered => ?_⟩
  cases same
  refine ⟨_, rfl, ?_⟩
  obtain ⟨-, value⟩ := tryAcquire_spec ordered 0 0 bytes
  unfold ResourceBudget.tryAcquireOutput at rejected ⊢
  rw [value] at rejected ⊢
  cases misfit : b.firstMisfit (request 0 0 bytes) with
  | none => simp [misfit] at rejected
  | some r =>
    have usage := Ledger.usage_rejectFor b r
    refine ⟨⟨fun s => ?_, fun s => ?_, fun s => ?_⟩, fun s => (usage s).1⟩
    · rw [(usage s).1, (usage s).2]
      exact ordered.peak s
    · rw [(usage s).2]
      cases r <;> exact ordered.limit s
    · cases r <;> exact ordered.word s

/-- An accepted request is on the ledger. -/
theorem Acquired.grown {b : ResourceBudget} {bytes : Nat} {lease : ResourceLease} {after : Option ResourceBudget}
    (ordered : b.Ordered) (acquired : Acquired bytes lease (some b) after) :
    lease = request 0 0 bytes ∧ after = some (b.grow (request 0 0 bytes))
      ∧ b.outputBytes.current + bytes ≤ b.limits.outputBytes := by
  cases acquired with
  | leased _ accepted same =>
    obtain ⟨-, value⟩ := tryAcquire_spec ordered 0 0 bytes
    unfold ResourceBudget.tryAcquireOutput at accepted same ⊢
    rw [value] at accepted same ⊢
    cases misfit : b.firstMisfit (request 0 0 bytes) with
    | some r =>
      rw [misfit] at accepted
      cases r <;> cases accepted
    | none =>
      rw [misfit] at same
      refine ⟨same, rfl, ?_⟩
      exact Nat.le_of_not_lt fun past =>
        List.find?_eq_none.mp misfit .outputBytes (by decide) (decide_eq_true past)

theorem grow_ordered {b : ResourceBudget} (ordered : b.Ordered) {bytes : Nat}
    (fits : b.outputBytes.current + bytes ≤ b.limits.outputBytes) : (b.grow (request 0 0 bytes)).Ordered := by
  refine ⟨fun r => ?_, fun r => ?_, ordered.word⟩
  · rw [ResourceBudget.usage_grow]
    exact Nat.le_max_right _ _
  · rw [ResourceBudget.usage_grow]
    refine Nat.max_le.mpr ⟨ordered.limit r, ?_⟩
    cases r with
    | connections => exact ordered.current_le .connections
    | inputBytes => exact ordered.current_le .inputBytes
    | outputBytes => exact fits

theorem acquireOutput_spec (bytes : Nat) (p : Port) :
    wp (acquireOutput bytes)
      (fun lease q => q = { p with host := { p.host with budget := q.host.budget } }
        ∧ Acquired bytes lease p.host.budget q.host.budget)
      (fun e q => e = .resourceLimit ∧ p.host.budget ≠ none
        ∧ q = { p with host := { p.host with budget := q.host.budget } }
        ∧ SameCurrent p.host.budget q.host.budget) p := by
  unfold acquireOutput
  simp only [wp_bind, wp_get]
  cases ledger : p.host.budget with
  | none =>
    simp only [wp_pure, ledger]
    exact ⟨by rw [← ledger], .free rfl⟩
  | some budget =>
    simp only [wp_bind, wp_set]
    split
    case isTrue accepted => exact ⟨rfl, .leased budget accepted rfl⟩
    case isFalse rejected => exact ⟨rfl, by simp, rfl, rejected_current rejected⟩

/-- Giving an acquired lease back leaves the amounts as they were. -/
theorem Acquired.abandoned {bytes : Nat} {lease : ResourceLease} {before after : Option ResourceBudget}
    (acquired : Acquired bytes lease before after) :
    SameCurrent before (after.map fun budget => (budget.reset lease).value.1) := by
  refine ⟨?_, ?_⟩
  · rintro rfl
    cases acquired
    rfl
  rintro b rfl ordered
  obtain ⟨rfl, rfl, fits⟩ := acquired.grown ordered
  have grown := grow_ordered ordered fits
  have plain : (request 0 0 bytes).Plain := fun loose => by cases loose
  have held : ∀ r, (request 0 0 bytes).amount r ≤ ((b.grow (request 0 0 bytes)).usage r).current := by
    intro r
    rw [ResourceBudget.usage_grow]
    exact Nat.le_add_left _ _
  obtain ⟨-, value⟩ := reset_spec grown plain held
  rw [Option.map_some, value]
  have usage := fun r => ResourceBudget.usage_shrink (b.grow (request 0 0 bytes)) (request 0 0 bytes) r
  refine ⟨_, rfl, ⟨fun r => ?_, fun r => ?_, ordered.word⟩, fun r => ?_⟩
  · rw [usage]
    exact Nat.le_trans (Nat.sub_le _ _) (grown.peak r)
  · rw [usage]
    exact grown.limit r
  · rw [usage, ResourceBudget.usage_grow]
    exact Nat.add_sub_cancel _ _

/-- A failed `queueOutput` or `queueFile`: nothing but the ledger's counters is changed. -/
structure Refused (p : Port) (e : Failure) (q : Port) : Prop where
  limit : e = .resourceLimit → p.host.budget ≠ none
  io : q.io = p.io
  host : q.host = { p.host with budget := q.host.budget, allocations := q.host.allocations }
  current : SameCurrent p.host.budget q.host.budget

/-- What was queued is behind what was pending, and on the lease. -/
structure Queued (p : Port) (bytes : Bytes) (q : Port) : Prop where
  pending : q.io.pendingOutput = p.io.pendingOutput ++ bytes
  same : p.io.SameInput q.io
  socket : q.io.socket = p.io.socket
  host : q.host = { p.host with budget := q.host.budget, allocations := q.host.allocations }
  leased : p.io.pendingBytes + bytes.length ≤ kOutputLimit → p.io.Leased p.host.budget →
    q.io.Leased q.host.budget

theorem Refused.refl {p : Port} {what : String} : Refused p (.error what) p :=
  ⟨fun limit => Failure.noConfusion limit, rfl, rfl, .refl _⟩

/-- The lease after queueing `bytes` more bytes. -/
theorem Acquired.leased_absorb {p : Port} {io : ConnectionIo} {bytes : Nat} {lease : ResourceLease}
    {after : Option ResourceBudget} (acquired : Acquired bytes lease p.host.budget after)
    (pending : io.pendingBytes = p.io.pendingBytes + bytes) (bound : io.pendingBytes ≤ kOutputLimit)
    (absorbed : io.outputLease = (p.io.outputLease.absorb lease).value.1)
    (leased : p.io.Leased p.host.budget) : io.Leased after := by
  cases ledger : p.host.budget with
  | none =>
    rw [ledger] at acquired
    cases acquired
    intro b same
    cases same
  | some budget =>
    obtain ⟨ordered, plain, connections, input, output, held⟩ := leased budget ledger
    rw [ledger] at acquired
    obtain ⟨rfl, rfl, room⟩ := acquired.grown ordered
    have small : kOutputLimit < Words.modulus := by decide
    have loose : (request 0 0 bytes).Plain := fun loose => by cases loose
    have fits : ∀ r, p.io.outputLease.amount r + (request 0 0 bytes).amount r < Words.modulus := by
      intro r
      cases r with
      | connections =>
        show p.io.outputLease.connections + 0 < _
        omega
      | inputBytes =>
        show p.io.outputLease.inputBytes + 0 < _
        omega
      | outputBytes =>
        show p.io.outputLease.outputBytes + bytes < _
        omega
    obtain ⟨-, value⟩ := absorb_spec loose fits
    rw [value] at absorbed
    rintro b ⟨⟩
    refine ⟨grow_ordered ordered room, ?_, ?_, ?_, ?_, ?_⟩
    · rw [absorbed]
      intro loose
      simp [ResourceLease.join, request] at loose
    · rw [absorbed]
      exact connections
    · rw [absorbed]
      exact input
    · rw [absorbed, pending, ← output]
      rfl
    · show io.pendingBytes ≤ budget.outputBytes.current + bytes
      omega

/-- **`queueOutput` appends or leaves what is pending.** Without a file pending, with memory and within the
limits it can only be refused by the ledger. -/
theorem queueOutput_spec (bytes : Bytes) (p : Port) (limit : p.io.output.limit = kOutputLimit) :
    wp (queueOutput bytes)
      (fun _ q => q.io.file = none ∧ Queued p bytes q ∧ p.io.pendingBytes + bytes.length ≤ kOutputLimit)
      (fun e q => Refused p e q ∧ (p.io.file = none → p.host.allocates = true → e = .resourceLimit
        ∨ ¬ outputFits p.io.pendingBytes bytes.length)) p := by
  unfold queueOutput
  simp only [wp_bind, wp_get]
  split
  case isTrue file => exact ⟨.refl, fun none => by simp [none] at file⟩
  case isFalse file =>
    have none : p.io.file = none := by simpa using file
    split
    case isTrue past => exact ⟨.refl, fun _ _ => .inr (by simpa using past)⟩
    case isFalse fits =>
      rw [Bool.not_eq_true, Bool.not_eq_false', outputFits_iff] at fits
      have room : p.io.output.readableBytes + bytes.length ≤ p.io.output.limit := by
        unfold ConnectionIo.pendingBytes at fits
        omega
      simp only [wp_bind]
      refine wp_mono (acquireOutput_spec bytes.length p) ?_ ?_
      · rintro lease q ⟨same, acquired⟩
        simp only [wp_bind, wp_modify]
        cases appended : p.io.output.appendBytes bytes p.host.allocates with
        | none =>
          simp only [abandonOutput, wp_bind, wp_modify, wp_throw]
          rw [same]
          refine ⟨⟨fun limit => Failure.noConfusion limit, rfl, rfl, acquired.abandoned⟩, fun _ granted => ?_⟩
          obtain ⟨next, some⟩ := p.io.output.append_isSome room
          rw [granted, some] at appended
          cases appended
        | some output =>
          obtain ⟨view, kept⟩ := p.io.output.view_append appended
          simp only [wp_modify]
          rw [same]
          have pending : output.readableView ++ (p.io.file.map FileRegion.view).getD []
              = p.io.pendingOutput ++ bytes := by
            unfold ConnectionIo.pendingOutput
            rw [view, none]
            simp
          refine ⟨none, ⟨pending, ⟨rfl, rfl, rfl, rfl, rfl, kept⟩, rfl, rfl, fun bound leased => ?_⟩, fits⟩
          have size : ConnectionIo.pendingBytes
              { p.io with
                output := output
                outputLease := (p.io.outputLease.absorb lease).value.1 }
              = p.io.pendingBytes + bytes.length := by
            rw [← ConnectionIo.pendingOutput_length, ← ConnectionIo.pendingOutput_length, ← List.length_append]
            exact congrArg List.length pending
          exact acquired.leased_absorb size (size ▸ bound) rfl leased
      · rintro e q ⟨rejected, ledger, same, current⟩
        rw [same]
        exact ⟨⟨fun _ => ledger, rfl, rfl, current⟩, fun _ _ => .inl rejected⟩

theorem queueFile_spec (header : Bytes) (file : FileRegion) (p : Port)
    (limit : p.io.output.limit = kOutputLimit) :
    wp (queueFile header file)
      (fun _ q => Queued p (header ++ file.view) q ∧ (q.io.pendingOutput = [] → q.io.file = none)
        ∧ p.io.pendingBytes + (header ++ file.view).length ≤ kOutputLimit)
      (fun e q => Refused p e q
        ∧ (p.io.pendingOutput = [] → p.io.file = none → file.isOpen = true → p.host.allocates = true →
          e = .resourceLimit ∨ ¬ outputFits header.length file.remaining)) p := by
  unfold queueFile
  simp only [wp_bind, wp_get]
  split
  case isTrue closed => exact ⟨.refl, fun _ _ opened => by simp [opened] at closed⟩
  case isFalse opened =>
    split
    case isTrue busy =>
      refine ⟨.refl, fun empty none => ?_⟩
      rw [none, Option.isSome_none, Bool.or_false, ConnectionIo.hasPendingOutput_iff] at busy
      exact absurd empty busy
    case isFalse idle =>
      have none : p.io.file = none := by
        simp only [Bool.or_eq_true, not_or] at idle
        simpa using idle.2
      have empty : p.io.pendingOutput = [] := by
        simp only [Bool.or_eq_true, not_or, ConnectionIo.hasPendingOutput_iff] at idle
        simpa using idle.1
      split
      case isTrue past => exact ⟨.refl, fun _ _ _ _ => .inr (by simpa using past)⟩
      case isFalse fits =>
        rw [Bool.not_eq_true, Bool.not_eq_false', outputFits_iff] at fits
        have unread : p.io.output.readableView = [] := (List.append_eq_nil_iff.mp empty).1
        have zero : p.io.pendingBytes = 0 := by rw [← ConnectionIo.pendingOutput_length, empty]; rfl
        have room : p.io.output.readableBytes + header.length ≤ p.io.output.limit := by
          have := p.io.output.view_empty.mp unread
          omega
        simp only [wp_bind]
        refine wp_mono (acquireOutput_spec (header.length + file.remaining) p) ?_ ?_
        · rintro lease q ⟨same, acquired⟩
          simp only [wp_bind, wp_modify]
          cases appended : p.io.output.appendBytes header p.host.allocates with
          | none =>
            simp only [abandonOutput, wp_bind, wp_modify, wp_throw]
            rw [same]
            refine ⟨⟨fun limit => Failure.noConfusion limit, rfl, rfl, acquired.abandoned⟩,
              fun _ _ _ granted => ?_⟩
            obtain ⟨next, some⟩ := p.io.output.append_isSome room
            rw [granted, some] at appended
            cases appended
          | some output =>
            obtain ⟨view, kept⟩ := p.io.output.view_append appended
            simp only [wp_modify]
            rw [same]
            have queued : output.readableView
                ++ ((if file.remaining = 0 then Option.none else some file).map FileRegion.view).getD []
                = header ++ file.view := by
              rw [view, unread, List.nil_append]
              split
              case isTrue sent =>
                rw [show file.view = [] from List.length_eq_zero_iff.mp (by rw [FileRegion.view_length, sent])]
                rfl
              case isFalse => rfl
            refine ⟨⟨by rw [empty]; exact queued, ⟨rfl, rfl, rfl, rfl, rfl, kept⟩, rfl, rfl,
              fun bound leased => ?_⟩, fun all => ?_, ?_⟩
            · have size : ConnectionIo.pendingBytes
                  { p.io with
                    output := output
                    file := if file.remaining = 0 then Option.none else some file
                    outputLease := (p.io.outputLease.absorb lease).value.1 }
                  = p.io.pendingBytes + (header.length + file.remaining) := by
                rw [← ConnectionIo.pendingOutput_length, zero, Nat.zero_add]
                refine (congrArg List.length queued).trans ?_
                rw [List.length_append, FileRegion.view_length]
              exact acquired.leased_absorb size (size ▸ by omega) rfl leased
            · have done : header ++ file.view = [] := queued.symm.trans all
              refine if_pos ?_
              rw [← FileRegion.view_length, (List.append_eq_nil_iff.mp done).2]
              rfl
            · rw [List.length_append, FileRegion.view_length]
              omega
        · rintro e q ⟨rejected, ledger, same, current⟩
          rw [same]
          exact ⟨⟨fun _ => ledger, rfl, rfl, current⟩, fun _ _ _ _ => .inl rejected⟩

/-! ### Any sequence of calls -/

/-- What may happen to a `ConnectionIo`: a call, with what memory and the kernel answer, or something the
other holders of the ledger do. -/
inductive TransportAction where
  | queueOutput (bytes : Bytes) (allocates : Bool)
  | queueFile (header : Bytes) (file : FileRegion) (allocates : Bool)
  | writeAvailable (sends : List WriteCall)
  | elsewhere (budget : ResourceBudget)

instance (b : ResourceBudget) : Decidable b.Ordered :=
  decidable_of_iff
    ((b.connections.current ≤ b.connections.peak ∧ b.inputBytes.current ≤ b.inputBytes.peak
        ∧ b.outputBytes.current ≤ b.outputBytes.peak)
      ∧ (b.connections.peak ≤ b.limits.connections ∧ b.inputBytes.peak ≤ b.limits.inputBytes
        ∧ b.outputBytes.peak ≤ b.limits.outputBytes)
      ∧ (b.limits.connections < Words.modulus ∧ b.limits.inputBytes < Words.modulus
        ∧ b.limits.outputBytes < Words.modulus))
    ⟨fun ⟨⟨p1, p2, p3⟩, ⟨l1, l2, l3⟩, w1, w2, w3⟩ =>
      ⟨fun r => by cases r <;> assumption, fun r => by cases r <;> assumption,
        fun r => by cases r <;> assumption⟩,
      fun ⟨peak, limit, word⟩ =>
        ⟨⟨peak .connections, peak .inputBytes, peak .outputBytes⟩,
          ⟨limit .connections, limit .inputBytes, limit .outputBytes⟩,
          word .connections, word .inputBytes, word .outputBytes⟩⟩

namespace Port

/-- What a call leaves, and the bytes it has queued. -/
def queued (call : EStateM Failure Port Unit) (bytes : Bytes) (p : Port) : Port × List Bytes :=
  match call p with
  | .ok _ q => (q, [bytes])
  | .error _ q => (q, [])

def allocating (p : Port) (allocates : Bool) : Port := { p with host := { p.host with allocations := [allocates] } }

def sending (p : Port) (sends : List WriteCall) : Port := { p with host := { p.host with sends := sends } }

/-- One action. The other holders leave the ledger in order and this lease on it. -/
def act (p : Port) : TransportAction → Port × List Bytes
  | .queueOutput bytes allocates => queued (queueOutput bytes) bytes (p.allocating allocates)
  | .queueFile header file allocates =>
    queued (Net.queueFile header file) (header ++ file.view) (p.allocating allocates)
  | .writeAvailable sends => (after Net.writeAvailable (p.sending sends), [])
  | .elsewhere budget =>
    if p.host.budget.isSome ∧ budget.Ordered ∧ p.io.outputLease.outputBytes ≤ budget.outputBytes.current then
      ({ p with host := { p.host with budget := some budget } }, [])
    else (p, [])

end Port

/-- The machine of one `ConnectionIo`; it reports what is queued. -/
def transport : Machine Port TransportAction Bytes := ⟨Port.act⟩

/-- **Nothing is lost, doubled or moved, and the lease is what is pending.** -/
structure Port.Exact (p : Port) (log : List Bytes) : Prop where
  limit : p.io.output.limit = kOutputLimit
  bytes : p.io.socket.accepted ++ p.io.pendingOutput = log.flatten
  bound : p.io.pendingBytes ≤ kOutputLimit
  leased : p.io.Leased p.host.budget

namespace Port

variable {p q : Port} {log : List Bytes}

theorem Exact.allocating (exact : p.Exact log) (allocates : Bool) : (p.allocating allocates).Exact log :=
  ⟨exact.limit, exact.bytes, exact.bound, exact.leased⟩

theorem Exact.sending (exact : p.Exact log) (sends : List WriteCall) : (p.sending sends).Exact log :=
  ⟨exact.limit, exact.bytes, exact.bound, exact.leased⟩

theorem Exact.queued (exact : p.Exact log) {bytes : Bytes} (done : Queued p bytes q)
    (fits : p.io.pendingBytes + bytes.length ≤ kOutputLimit) : q.Exact (log ++ [bytes]) where
  limit := done.same.limit.trans exact.limit
  bytes := by
    rw [done.socket, done.pending, ← List.append_assoc, exact.bytes]
    simp
  bound := by
    rw [← ConnectionIo.pendingOutput_length, done.pending, List.length_append,
      ConnectionIo.pendingOutput_length]
    exact fits
  leased := done.leased fits exact.leased

theorem Exact.refused (exact : p.Exact log) {e : Failure} (done : Refused p e q) : q.Exact log where
  limit := done.io ▸ exact.limit
  bytes := done.io ▸ exact.bytes
  bound := done.io ▸ exact.bound
  leased := by
    rw [done.io]
    intro after same
    cases ledger : p.host.budget with
    | none => exact absurd (same.symm.trans (done.current.absent ledger)) (fun absent => nomatch absent)
    | some b =>
      obtain ⟨ordered, plain, connections, input, output, held⟩ := exact.leased b ledger
      obtain ⟨next, found, kept, current⟩ := done.current.present b ledger ordered
      rw [found] at same
      cases same
      exact ⟨kept, plain, connections, input, output, (current .outputBytes).symm ▸ held⟩

theorem Exact.written (exact : p.Exact log) {result : WriteResult} {taken : Bytes}
    (done : Written p result q taken) : q.Exact log where
  limit := done.same.limit.trans exact.limit
  bytes := by rw [done.accepted, List.append_assoc, ← done.pending, exact.bytes]
  bound := by
    have shorter := congrArg List.length done.pending
    rw [List.length_append, ConnectionIo.pendingOutput_length, ConnectionIo.pendingOutput_length] at shorter
    have bound := exact.bound
    omega
  leased := done.leased exact.leased

/-- A call that queues `bytes` or is refused keeps the account. -/
theorem Exact.call (exact : p.Exact log) {call : EStateM Failure Port Unit} {bytes : Bytes}
    (spec : wp call (fun _ q => Queued p bytes q ∧ p.io.pendingBytes + bytes.length ≤ kOutputLimit)
      (fun e q => Refused p e q) p) :
    (Port.queued call bytes p).1.Exact (log ++ (Port.queued call bytes p).2) := by
  unfold Port.queued
  unfold wp at spec
  split at spec
  case h_1 done =>
    rw [done]
    exact exact.queued spec.1 spec.2
  case h_2 done =>
    rw [done, List.append_nil]
    exact exact.refused spec

/-- **Every action keeps the account.** -/
theorem Exact.act (exact : p.Exact log) (action : TransportAction) :
    (p.act action).1.Exact (log ++ (p.act action).2) := by
  cases action with
  | queueOutput bytes allocates =>
    exact (exact.allocating allocates).call
      (wp_mono (queueOutput_spec bytes _ exact.limit) (fun _ _ done => done.2) fun _ _ done => done.1)
  | queueFile header file allocates =>
    exact (exact.allocating allocates).call
      (wp_mono (queueFile_spec header file _ exact.limit) (fun _ _ done => ⟨done.1, done.2.2⟩)
        fun _ _ done => done.1)
  | writeAvailable sends =>
    show (after Net.writeAvailable (p.sending sends)).Exact (log ++ [])
    rw [List.append_nil]
    refine after_of_wp (P := fun q => q.Exact log)
      (wp_mono (writeAvailable_wrote (p.sending sends)) ?_ fun _ _ no => no.elim)
    rintro result q ⟨taken, done⟩
    exact (exact.sending sends).written done
  | elsewhere budget =>
    dsimp only [Port.act]
    split
    case isTrue allowed =>
      obtain ⟨present, ordered, held⟩ := allowed
      obtain ⟨b, ledger⟩ := Option.isSome_iff_exists.mp present
      obtain ⟨-, plain, connections, input, output, -⟩ := exact.leased b ledger
      rw [List.append_nil]
      refine ⟨exact.limit, exact.bytes, exact.bound, ?_⟩
      rintro after ⟨⟩
      exact ⟨ordered, plain, connections, input, output, output ▸ held⟩
    case isFalse refused => simpa using exact

/-- Nothing queued yet. -/
theorem Exact.start (maxInputBytes : Nat) {budget : Option ResourceBudget}
    (ordered : ∀ b, budget = some b → b.Ordered) :
    Exact { io := makeConnectionIo maxInputBytes, host := { budget := budget } } [] where
  limit := rfl
  bytes := rfl
  bound := Nat.zero_le _
  leased := fun b same => ⟨ordered b same, fun _ => rfl, rfl, rfl, rfl, Nat.zero_le _⟩

end Port

/-- What a failed call leaves as it was: what is pending, the lease and the amounts on the ledger. -/
structure Port.Untouched (p q : Port) : Prop where
  pending : q.io.pendingOutput = p.io.pendingOutput
  lease : q.io.outputLease = p.io.outputLease
  current : ∀ r, q.host.budget.map (fun b => (b.usage r).current) = p.host.budget.map fun b => (b.usage r).current

theorem Refused.untouched {p q : Port} {e : Failure} (done : Refused p e q)
    (leased : p.io.Leased p.host.budget) : p.Untouched q where
  pending := by rw [done.io]
  lease := by rw [done.io]
  current := by
    intro r
    cases ledger : p.host.budget with
    | none => rw [done.current.absent ledger]
    | some b =>
      obtain ⟨next, found, -, current⟩ := done.current.present b ledger (leased b ledger).ordered
      rw [found]
      exact congrArg some (current r)

/-- **The output transport is exact.** After any sequence of calls on a `ConnectionIo`, whatever memory,
the kernel and the other holders of the ledger did, what the kernel has taken and what is pending are what
was queued; no more than `kOutputLimit` bytes are pending, and the lease on a ledger is just these. A write
takes from what is pending as many bytes as it reports; a call that fails leaves all of it as it was. -/
theorem transport_exact (maxInputBytes : Nat) (budget : Option ResourceBudget)
    (ordered : ∀ b, budget = some b → b.Ordered) (actions : List TransportAction) :
    let run := transport.run { io := makeConnectionIo maxInputBytes, host := { budget := budget } } actions
    let p := run.1
    p.io.socket.accepted ++ p.io.pendingOutput = run.2.flatten
      ∧ p.io.pendingBytes ≤ kOutputLimit
      ∧ (p.host.budget.isSome → p.io.outputLease.outputBytes = p.io.pendingBytes)
      ∧ (∀ sends, wp writeAvailable
          (fun result q => q.io.pendingBytes + result.bytesWritten = p.io.pendingBytes)
          (fun _ _ => False) (p.sending sends))
      ∧ (∀ bytes allocates, wp (queueOutput bytes) (fun _ _ => True) (fun _ q => p.Untouched q)
          (p.allocating allocates))
      ∧ ∀ header file allocates, wp (queueFile header file) (fun _ _ => True) (fun _ q => p.Untouched q)
          (p.allocating allocates) := by
  intro run p
  have exact : p.Exact run.2 :=
    Machine.run_history (P := Port.Exact) (m := transport) (fun _ _ action exact => exact.act action) actions
      _ [] (.start maxInputBytes ordered)
  refine ⟨exact.bytes, exact.bound, fun present => ?_, fun sends => ?_, fun bytes allocates => ?_,
    fun header file allocates => ?_⟩
  · obtain ⟨b, ledger⟩ := Option.isSome_iff_exists.mp present
    exact (exact.leased b ledger).output
  · refine wp_mono (writeAvailable_wrote (p.sending sends)) ?_ fun _ _ no => no
    rintro result q ⟨taken, done⟩
    have shorter := congrArg List.length done.pending
    rw [List.length_append, ConnectionIo.pendingOutput_length, ConnectionIo.pendingOutput_length,
      ← done.count] at shorter
    rw [Nat.add_comm]
    exact shorter.symm
  · refine wp_mono (queueOutput_spec bytes (p.allocating allocates) exact.limit) (fun _ _ _ => trivial) ?_
    rintro e q ⟨done, -⟩
    obtain ⟨pending, lease, current⟩ := done.untouched exact.leased
    exact ⟨pending, lease, current⟩
  · refine wp_mono (queueFile_spec header file (p.allocating allocates) exact.limit)
      (fun _ _ _ => trivial) ?_
    rintro e q ⟨done, -⟩
    obtain ⟨pending, lease, current⟩ := done.untouched exact.leased
    exact ⟨pending, lease, current⟩

/-- An interrupted send and one that takes three of five bytes, on a ledger another connection uses too. -/
theorem transport_exact_shared :
    ResourceBudget.Ordered {}
      ∧ let run := transport.run { io := makeConnectionIo 16384, host := { budget := some {} } }
          [.queueOutput [1, 2, 3, 4, 5] true, .elsewhere { outputBytes := { current := 9, peak := 9 } },
            .writeAvailable [.failed .interrupted, .accepted 2 none]]
        run.1.io.socket.accepted ++ run.1.io.pendingOutput = run.2.flatten
          ∧ run.1.io.pendingBytes ≤ kOutputLimit :=
  have ordered : ResourceBudget.Ordered {} := by decide
  have exact := transport_exact 16384 (some {}) (fun _ same => Option.some.inj same ▸ ordered) _
  ⟨ordered, exact.1, exact.2.1⟩

end HpServer.Net
