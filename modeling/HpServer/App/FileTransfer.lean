/-
**A file read into memory and a file that is streamed.**

`handleResponse` reads the file behind an answer into one vector, however short the reads are; a connection sends the
header from memory and the file from its descriptor, however short the sends are. The two give the same bytes.

* `preadLoop_view`, `preadLoop_stopped` — how the reads end.
* `stream` — rounds of `writeAvailable`; `stream_account` — what was taken and what is pending; `stream_complete` —
  rounds that take something end with nothing pending.
* `materialised_streamed` — **both give the header and the part of the file.**
-/

import HpServer.App.ResponseFraming
import HpServer.Http.ResponseSizes
import HpServer.Net.OutputTransport

namespace HpServer.App

open Base Business Http Net Programs

/-! ### Reading -/

/-- A read that takes something or is interrupted. -/
def IsShort : PreadResult → Prop
  | .read _ => True
  | .interrupted => True
  | _ => False

/-- The bytes a read takes, if that many are asked for. -/
def readBytes : PreadResult → Nat
  | .read more => more + 1
  | _ => 0

/-- A vector of which the first `count` bytes of the part are read. -/
structure ReadSoFar (file : FileRegion) (header : Bytes) (count : Nat) (bytes : Bytes) : Prop where
  within : count ≤ file.remaining
  start : bytes.take (header.length + count) = header ++ file.view.take count
  length : bytes.length = header.length + file.remaining

theorem readSoFar_start (file : FileRegion) (header : Bytes) :
    ReadSoFar file header 0 (header ++ List.replicate file.remaining 0) where
  within := Nat.zero_le _
  start := by rw [Nat.add_zero, List.take_left, List.take_zero, List.append_nil]
  length := by rw [List.length_append, List.length_replicate]

section Reading

variable {file : FileRegion} {header bytes : Bytes} {count : Nat}

/-- The next bytes of the part. -/
theorem take_view_add (file : FileRegion) {count more : Nat} (within : count + more ≤ file.remaining) :
    file.view.take (count + more) = file.view.take count ++ slice file.contents (file.offset + count) more := by
  have next : slice file.contents (file.offset + count) more = (file.view.drop count).take more := by
    unfold FileRegion.view slice
    refine List.ext_getElem (by simp; omega) fun i _ _ => ?_
    simp [Nat.add_assoc]
  rw [next, List.take_add]

theorem ReadSoFar.overwrite (so : ReadSoFar file header count bytes) {more : Nat}
    (within : count + more ≤ file.remaining) :
    ReadSoFar file header (count + more)
      (Http.overwrite bytes (header.length + count) (slice file.contents (file.offset + count) more)) := by
  have size : (bytes.take (header.length + count)).length = header.length + count := by
    rw [List.length_take, so.length]
    have := so.within
    omega
  unfold Http.overwrite
  refine ⟨within, ?_, ?_⟩
  · have front : (bytes.take (header.length + count) ++ slice file.contents (file.offset + count) more).length
        = header.length + (count + more) := by
      rw [List.length_append, size, slice_length, Nat.add_assoc]
    rw [← front, List.take_left, so.start, take_view_add file within, List.append_assoc]
  · rw [List.length_append, List.length_append, size, slice_length, List.length_drop, so.length]
    omega

theorem ReadSoFar.whole (so : ReadSoFar file header file.remaining bytes) : bytes = header ++ file.view := by
  have start := so.start
  rw [List.take_of_length_le (by rw [so.length]), List.take_of_length_le (by rw [FileRegion.view_length])] at start
  exact start

/-- **Reads that take something or are interrupted give the whole part.** -/
theorem preadLoop_view (reads : List PreadResult) : ∀ {bytes : Bytes} {count : Nat},
    ReadSoFar file header count bytes → (∀ result ∈ reads, IsShort result) →
    preadLoop file header.length reads (header.length + count) bytes = some (header ++ file.view) := by
  induction reads with
  | nil =>
    intro bytes count so _
    unfold preadLoop
    rw [so.length]
    split
    case isTrue all =>
      have done : count = file.remaining := by
        have := so.within
        omega
      subst done
      exact congrArg some so.whole
    case isFalse left =>
      have position : file.offset + (header.length + count - header.length) = file.offset + count := by omega
      have asked : header.length + file.remaining - (header.length + count) = file.remaining - count := by omega
      rw [position, asked]
      have last := so.overwrite (show count + (file.remaining - count) ≤ file.remaining by have := so.within; omega)
      rw [show count + (file.remaining - count) = file.remaining by have := so.within; omega] at last
      exact congrArg some last.whole
  | cons result rest ih =>
    intro bytes count so short
    have later : ∀ other ∈ rest, IsShort other := fun other member => short other (List.mem_cons_of_mem _ member)
    unfold preadLoop
    rw [so.length]
    split
    case isTrue all =>
      have done : count = file.remaining := by
        have := so.within
        omega
      subst done
      exact congrArg some so.whole
    case isFalse left =>
      have position : file.offset + (header.length + count - header.length) = file.offset + count := by omega
      cases result with
      | read more =>
        dsimp only
        rw [position, Nat.add_assoc]
        exact ih (so.overwrite (by omega)) later
      | interrupted => exact ih so later
      | endOfFile => exact (short _ List.mem_cons_self).elim
      | failed => exact (short _ List.mem_cons_self).elim

/-- **A read that fails before the part is complete ends the loop.** -/
theorem preadLoop_stopped (before : List PreadResult) {stop : PreadResult} (rest : List PreadResult)
    (bad : ¬ IsShort stop) : ∀ {bytes : Bytes} {count : Nat}, ReadSoFar file header count bytes →
    (∀ result ∈ before, IsShort result) → count + (before.map readBytes).sum < file.remaining →
    preadLoop file header.length (before ++ stop :: rest) (header.length + count) bytes = none := by
  induction before with
  | nil =>
    intro bytes count so _ few
    rw [List.nil_append]
    unfold preadLoop
    rw [so.length, if_neg (by simp at few; omega)]
    cases stop with
    | read more => exact absurd trivial bad
    | interrupted => exact absurd trivial bad
    | endOfFile => rfl
    | failed => rfl
  | cons result before ih =>
    intro bytes count so short few
    have later : ∀ other ∈ before, IsShort other := fun other member => short other (List.mem_cons_of_mem _ member)
    rw [List.map_cons, List.sum_cons] at few
    rw [List.cons_append]
    unfold preadLoop
    rw [so.length, if_neg (by omega)]
    have position : file.offset + (header.length + count - header.length) = file.offset + count := by omega
    cases result with
    | read more =>
      dsimp only [readBytes] at few ⊢
      rw [position, show min (more + 1) (header.length + file.remaining - (header.length + count)) = more + 1 by omega,
        Nat.add_assoc]
      exact ih (so.overwrite (by omega)) later (by omega)
    | interrupted => exact ih so later (by simpa [readBytes] using few)
    | endOfFile => exact (short _ List.mem_cons_self).elim
    | failed => exact (short _ List.mem_cons_self).elim

end Reading

/-! ### Streaming -/

/-- Rounds of `writeAvailable`, each with the results of its calls. -/
def stream (p : Port) (rounds : List (List WriteCall)) : Port :=
  rounds.foldl (fun p sends => after writeAvailable (p.sending sends)) p

/-- A round that begins with a call that takes something. -/
def Takes (sends : List WriteCall) : Prop := ∃ more rest, sends = .accepted more none :: rest

theorem written_round (p : Port) (sends : List WriteCall) :
    ∃ result taken, Written (p.sending sends) result (after writeAvailable (p.sending sends)) taken := by
  have spec := writeAvailable_wrote (p.sending sends)
  unfold wp at spec
  unfold after
  cases ended : writeAvailable (p.sending sends) with
  | ok result q =>
    rw [ended] at spec
    obtain ⟨taken, written⟩ := spec
    exact ⟨result, taken, written⟩
  | error e q =>
    rw [ended] at spec
    exact spec.elim

/-- **Nothing is lost or doubled**, whatever the kernel does. -/
theorem stream_account (rounds : List (List WriteCall)) : ∀ p : Port,
    (stream p rounds).io.socket.accepted ++ (stream p rounds).io.pendingOutput
      = p.io.socket.accepted ++ p.io.pendingOutput := by
  induction rounds with
  | nil => exact fun _ => rfl
  | cons sends rounds ih =>
    intro p
    obtain ⟨result, taken, written⟩ := written_round p sends
    refine (ih _).trans ?_
    rw [written.accepted, List.append_assoc, ← written.pending]
    rfl

/-- A round that takes something leaves less. -/
theorem round_less (p : Port) {sends : List WriteCall} (takes : Takes sends) (some : p.io.pendingOutput ≠ []) :
    (after writeAvailable (p.sending sends)).io.pendingOutput.length < p.io.pendingOutput.length := by
  obtain ⟨more, rest, rfl⟩ := takes
  have spec := writeAvailable_takes (show (p.sending _).host.sends = .accepted more none :: rest from rfl) some
  unfold wp at spec
  unfold after
  cases ended : writeAvailable (p.sending (.accepted more none :: rest)) with
  | ok result q =>
    rw [ended] at spec
    exact spec
  | error e q =>
    rw [ended] at spec
    exact spec.elim

/-- **Rounds that take something end with nothing pending**: as many as there are bytes are enough. -/
theorem stream_complete (rounds : List (List WriteCall)) : ∀ p : Port, (∀ sends ∈ rounds, Takes sends) →
    p.io.pendingOutput.length ≤ rounds.length → (stream p rounds).io.pendingOutput = [] := by
  induction rounds with
  | nil => exact fun p _ few => List.length_eq_zero_iff.mp (Nat.le_zero.mp few)
  | cons sends rounds ih =>
    intro p takes few
    have later : ∀ other ∈ rounds, Takes other := fun other member => takes other (List.mem_cons_of_mem _ member)
    refine ih _ later ?_
    rw [List.length_cons] at few
    by_cases some : p.io.pendingOutput = []
    · -- nothing is pending, and a round adds nothing
      obtain ⟨result, taken, written⟩ := written_round p sends
      have pending : [] = taken ++ (after writeAvailable (p.sending sends)).io.pendingOutput :=
        some.symm.trans written.pending
      rw [(List.append_eq_nil_iff.mp pending.symm).2]
      exact Nat.zero_le _
    · have less := round_less p (takes _ List.mem_cons_self) some
      show (after writeAvailable (p.sending sends)).io.pendingOutput.length ≤ rounds.length
      omega

/-- What `queueFile` leaves on an idle connection. -/
theorem queueFile_pending {header : Bytes} {file : FileRegion} {p q : Port}
    (limit : p.io.output.limit = kOutputLimit) (queued : queueFile header file p = .ok () q) :
    q.io.pendingOutput = header ++ file.view ∧ q.io.socket = p.io.socket := by
  have spec := queueFile_spec header file p limit
  unfold wp at spec
  rw [queued] at spec
  obtain ⟨done, -⟩ := spec
  refine ⟨?_, done.socket⟩
  have idle : p.io.pendingOutput = [] := by
    unfold queueFile at queued
    by_contra busy
    have pending : p.io.hasPendingOutput = true := (ConnectionIo.hasPendingOutput_iff _).mpr busy
    have refused : wp (queueFile header file) (fun _ _ => False) (fun _ _ => True) p := by
      unfold queueFile
      simp only [wp_bind, wp_get]
      split
      · trivial
      · rw [pending, Bool.true_or, if_pos rfl]
        trivial
    unfold wp at refused
    unfold queueFile at refused
    rw [queued] at refused
    exact refused
  rw [done.pending, idle, List.nil_append]

/-- An idle connection without a budget takes a file whose header and part fit. -/
theorem queueFile_taken {header : Bytes} {file : FileRegion} {p : Port} (limit : p.io.output.limit = kOutputLimit)
    (idle : p.io.pendingOutput = []) (noFile : p.io.file = none) (opened : file.isOpen = true)
    (memory : p.host.allocates = true) (free : p.host.budget = none)
    (fits : header.length + file.remaining ≤ kOutputLimit) : ∃ q, queueFile header file p = .ok () q := by
  have spec := queueFile_spec header file p limit
  unfold wp at spec
  cases ended : queueFile header file p with
  | ok value q => exact ⟨q, rfl⟩
  | error e q =>
    rw [ended] at spec
    obtain ⟨refused, why⟩ := spec
    rcases why idle noFile opened memory with budget | large
    · exact absurd free (refused.limit budget)
    · exact absurd ((outputFits_iff _ _).mpr fits) large

/-! ### The answers of the static files -/

section Static

variable (service : StaticFileService) (request : HttpRequest) (policy : ConnectionPolicy) (now : Int)

/-- A file is behind an answer with a body only, it is open, and the answer is that of its target. -/
theorem answerFile_region {contents path : Bytes} {evaluated : StaticEvaluation} {omitBody : Bool}
    {region : FileRegion} (present : (answerFile contents path evaluated policy omitBody).file = some region) :
    omitBody = false ∧ region.isOpen = true := by
  unfold answerFile at present
  dsimp only at present
  split at present
  · cases present
  · dsimp only at present
    split at present
    case isTrue => cases present
    case isFalse bodied =>
      cases present
      rw [Bool.or_eq_true, not_or] at bodied
      exact ⟨Bool.not_eq_true _ ▸ bodied.1, rfl⟩

theorem errorResponse_plain {status : Status} {body : Bytes} (written : errorBody status = some body)
    (omitBody : Bool) : ∃ result, errorResponse status policy omitBody = some result ∧ result.file = none :=
  ⟨_, errorAnswer_eq written _ omitBody _, rfl⟩

theorem IsFailure.errorBody {status : Status} (failed : StaticFileService.IsFailure status) :
    ∃ body, Http.errorBody status = some body := by
  rcases failed with rfl | rfl | rfl <;> exact ⟨_, rfl⟩

/-- **There always is an answer**; one with a file is to another method than `HEAD` and fits into the buffers. -/
theorem static_onResponse : ∃ result, service.onResponse request policy now = some result
    ∧ ∀ region, result.file = some region →
      request.method ≠ text "HEAD" ∧ region.isOpen = true
        ∧ (FilesInWords service → result.bytes.length + region.remaining ≤ kOutputLimit) := by
  unfold StaticFileService.onResponse
  dsimp only
  cases parsed : (parseRequestTarget request.target).target with
  | none =>
    obtain ⟨body, written⟩ : ∃ body, errorBody (parseRequestTarget request.target).status = some body := by
      rcases parseRequestTarget_known parsed with status | status | status <;> rw [status] <;> exact ⟨_, rfl⟩
    obtain ⟨result, made, plain⟩ := errorResponse_plain .close written (decide (request.method = text "HEAD"))
    refine ⟨result, ?_, fun region present => ?_⟩
    · dsimp only
      rw [made]
      rfl
    · rw [plain] at present
      cases present
  | some target =>
    dsimp only
    rcases service.onValidatedTarget_cases target with ⟨status, failed, same⟩ | ⟨file, isFile, same⟩
    · obtain ⟨body, written⟩ := IsFailure.errorBody failed
      obtain ⟨result, made, plain⟩ := errorResponse_plain policy written (decide (request.method = text "HEAD"))
      refine ⟨result, ?_, fun region present => ?_⟩
      · rw [same, made]
        rfl
      · rw [plain] at present
        cases present
    · have answered := same (decide (request.method = text "HEAD")) policy request.staticFields now
      refine ⟨_, by rw [answered]; rfl, fun region present => ?_⟩
      obtain ⟨bodied, opened⟩ := answerFile_region policy present
      refine ⟨of_decide_eq_false bodied, opened, fun words => ?_⟩
      have size := StaticFileService.onValidatedTarget_size words answered
      unfold ResponseResult.size at size
      rw [present, Option.map_some, Option.getD_some] at size
      have limit : kMaxFileBytes + 2000 ≤ kOutputLimit := by decide
      exact Nat.le_trans size limit

theorem handleResponse_plain {result : ResponseResult} (answered : service.onResponse request policy now = some result)
    (plain : result.file = none) (allocates : Bool) (reads : List PreadResult) :
    service.handleResponse request policy now allocates reads = some result := by
  unfold StaticFileService.handleResponse
  rw [answered]
  dsimp only
  rw [plain]

/-- What `handleResponse` makes of a file, once its reads have ended. -/
theorem handleResponse_file {result : ResponseResult} (answered : service.onResponse request policy now = some result)
    {region : FileRegion} (present : result.file = some region) (bodied : request.method ≠ text "HEAD")
    (reads : List PreadResult) :
    service.handleResponse request policy now true reads
      = match preadLoop region result.bytes.length reads result.bytes.length
          (result.bytes ++ List.replicate region.remaining 0) with
        | none => errorResponse .internalServerError policy false
        | some bytes => some { result with bytes := bytes, file := none } := by
  unfold StaticFileService.handleResponse
  rw [answered, decide_eq_false bodied]
  dsimp only
  rw [present]
  rfl

/-- **Both give the header and the part of the file.** A file is read in any number of calls, or sent in any number of
rounds; a read that fails before the part is complete is answered with 500. -/
theorem materialised_streamed :
    ∃ result, service.onResponse request policy now = some result
      ∧ (∀ reads, (∀ read ∈ reads, IsShort read) →
        service.handleResponse request policy now true reads
          = some { result with bytes := result.bytes ++ (result.file.map FileRegion.view).getD [], file := none })
      ∧ ∀ region, result.file = some region →
        -- the same bytes are sent by a connection, none twice or out of order
        (∀ p q, p.io.output.limit = kOutputLimit → queueFile result.bytes region p = .ok () q → ∀ rounds,
          let sent := stream q rounds
          sent.io.socket.accepted ++ sent.io.pendingOutput
              = p.io.socket.accepted ++ (result.bytes ++ region.view)
            ∧ ((∀ sends ∈ rounds, Takes sends) → result.bytes.length + region.remaining ≤ rounds.length →
              sent.io.socket.accepted = p.io.socket.accepted ++ (result.bytes ++ region.view)))
        -- an idle connection takes it
        ∧ (FilesInWords service → ∀ p, p.io.output.limit = kOutputLimit → p.io.pendingOutput = [] →
          p.io.file = none → p.host.allocates = true → p.host.budget = none →
          ∃ q, queueFile result.bytes region p = .ok () q)
        -- a read that fails
        ∧ ∃ failure, errorResponse .internalServerError policy false = some failure
          ∧ failure.status = .internalServerError ∧ failure.effectivePolicy = policy ∧ failure.file = none
          ∧ Framed failure
          ∧ ∀ before stop rest, (∀ read ∈ before, IsShort read) → ¬ IsShort stop →
            (before.map readBytes).sum < region.remaining →
            service.handleResponse request policy now true (before ++ stop :: rest) = some failure := by
  obtain ⟨result, answered, filed⟩ := static_onResponse service request policy now
  refine ⟨result, answered, fun reads short => ?_, fun region present => ?_⟩
  · cases present : result.file with
    | none =>
      rw [handleResponse_plain service request policy now answered present]
      refine congrArg some ?_
      obtain ⟨bytes, effective, file, status, counted⟩ := result
      cases present
      show _ = ResponseResult.mk (bytes ++ []) _ _ _ _
      rw [List.append_nil]
    | some region =>
      obtain ⟨bodied, -⟩ := filed region present
      rw [handleResponse_file service request policy now answered present bodied]
      have read := preadLoop_view reads (readSoFar_start region result.bytes) short
      rw [Nat.add_zero] at read
      rw [read]
      rfl
  obtain ⟨bodied, opened, fits⟩ := filed region present
  refine ⟨fun p q limit queued rounds => ?_, fun words p limit idle noFile memory free => ?_, ?_⟩
  · obtain ⟨pending, socket⟩ := queueFile_pending limit queued
    have account := stream_account rounds q
    rw [pending, socket] at account
    refine ⟨account, fun takes enough => ?_⟩
    have ended := stream_complete rounds q takes (by
      rw [pending, List.length_append, FileRegion.view_length]
      exact enough)
    rwa [ended, List.append_nil] at account
  · exact queueFile_taken limit idle noFile opened memory free (fits words)
  · obtain ⟨head, failure, -, made, framed⟩ := errorAnswer_headOf (show errorBody .internalServerError = some _ from rfl)
      policy (.inr (show text "GET" ∈ methodLists by decide))
    have failed : errorResponse .internalServerError policy false = some failure := made
    refine ⟨failure, failed, ?_, ?_, ?_, framed.framed, fun before stop rest short bad few => ?_⟩
    · cases made
      rfl
    · cases made
      rfl
    · cases made
      rfl
    · rw [handleResponse_file service request policy now answered present bodied]
      have stopped := preadLoop_stopped before rest bad (readSoFar_start region result.bytes) short (by
        rw [Nat.zero_add]
        exact few)
      rw [Nat.add_zero] at stopped
      rw [stopped]
      exact failed

end Static

end HpServer.App
