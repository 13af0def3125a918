/-
**The limits of the server fit together.**

Five limits are set in five places: the number of tasks and the length of a title, the budget of a task answer, the
largest body, the largest file and the output of a connection.

* `queueOutput_fits`, `queueFile_fits` — on a connection with nothing pending, what is no longer than `kOutputLimit`
  is not refused for its size.
* `answers_within_limits` — **no answer of the router is refused by a size limit**, nor is one of the task API.
-/

import HpServer.App.HttpConnectionHandler
import HpServer.Http.ResponseSizes
import HpServer.Net.OutputTransport
import HpServer.Net.RegistryUse

namespace HpServer.App

open Base Business Http Machines Net Programs

/-- The exceptions of a size limit. A buffer throws the second one without memory too. -/
def isSizeError (granted : Bool) (e : Failure) : Bool :=
  e = .error "connection output limit exceeded" || (granted && e = .error "buffer limit exceeded")

section Queue

variable {p : Port}

/-- What an empty buffer is asked to hold it holds. -/
theorem appendBytes_fits {bytes : Bytes} (limit : p.io.output.limit = kOutputLimit) (quiet : p.io.pendingBytes = 0)
    (fits : bytes.length ≤ kOutputLimit) (full : p.io.output.appendBytes bytes p.host.allocates = none) :
    p.host.allocates = false := by
  by_contra granted
  rw [Bool.not_eq_false] at granted
  have room : p.io.output.readableBytes + bytes.length ≤ p.io.output.limit := by
    unfold ConnectionIo.pendingBytes at quiet
    omega
  obtain ⟨next, appended⟩ := p.io.output.append_isSome room
  rw [granted, appended] at full
  cases full

/-- The end of both calls: the lease, and the bytes that go into the buffer. -/
theorem acquired_fits {bytes : Bytes} {count : Nat} (limit : p.io.output.limit = kOutputLimit)
    (quiet : p.io.pendingBytes = 0) (fits : bytes.length ≤ kOutputLimit)
    (next : Buffer → ResourceLease → EStateM Failure Port Unit)
    (fine : ∀ output lease q, wp (next output lease) (fun _ _ => True)
      (fun e _ => isSizeError p.host.allocates e = false) q) :
    wp (do
        let lease ← acquireOutput count
        modify fun q => { q with host := q.host.allocated }
        match p.io.output.appendBytes bytes p.host.allocates with
        | none => abandonOutput lease (.error "buffer limit exceeded")
        | some output => next output lease)
      (fun _ _ => True) (fun e _ => isSizeError p.host.allocates e = false) p := by
  simp only [wp_bind]
  refine wp_mono (acquireOutput_spec count p) (fun lease q _ => ?_) ?_
  · cases appended : p.io.output.appendBytes bytes p.host.allocates with
    | none =>
      simp only [abandonOutput, wp_bind, wp_modify, wp_throw]
      rw [appendBytes_fits limit quiet fits appended]
      decide
    | some output => exact fine output lease _
  · rintro e q ⟨rejected, -⟩
    rw [rejected]
    unfold isSizeError
    simp

/-- **Within the limit nothing is refused for its size**: bytes. -/
theorem queueOutput_fits {bytes : Bytes} (limit : p.io.output.limit = kOutputLimit) (quiet : p.io.pendingBytes = 0)
    (fits : bytes.length ≤ kOutputLimit) :
    wp (queueOutput bytes) (fun _ _ => True) (fun e _ => isSizeError p.host.allocates e = false) p := by
  have within : outputFits p.io.pendingBytes bytes.length = true := by
    rw [outputFits_iff, quiet, Nat.zero_add]
    exact fits
  unfold queueOutput
  simp only [wp_bind, wp_get]
  split
  · show isSizeError _ _ = false
    unfold isSizeError
    simp
  · rw [within]
    simp only [Bool.not_true, Bool.false_eq_true, if_false]
    exact acquired_fits limit quiet fits _ fun output lease q => trivial

/-- A header and a file. -/
theorem queueFile_fits {header : Bytes} {file : FileRegion} (limit : p.io.output.limit = kOutputLimit)
    (quiet : p.io.pendingBytes = 0) (fits : header.length + file.remaining ≤ kOutputLimit) :
    wp (queueFile header file) (fun _ _ => True) (fun e _ => isSizeError p.host.allocates e = false) p := by
  have within : outputFits header.length file.remaining = true := (outputFits_iff _ _).mpr fits
  unfold queueFile
  simp only [wp_bind, wp_get]
  split
  · show isSizeError _ _ = false
    unfold isSizeError
    simp
  split
  · show isSizeError _ _ = false
    unfold isSizeError
    simp
  · rw [within]
    simp only [Bool.not_true, Bool.false_eq_true, if_false]
    exact acquired_fits limit quiet (Nat.le_trans (Nat.le_add_right _ _) fits) _ fun output lease q => trivial

end Queue

/-- `sendBytes` and `sendFile` throw what the call on the buffers throws, or that the connection is closed. -/
theorem send_fits {A : Type} {call : EStateM Failure Port Unit} {c : Cell A}
    (fits : wp call (fun _ _ => True) (fun e _ => isSizeError c.host.allocates e = false) ⟨c.io, c.host⟩) :
    wp (send call) (fun _ _ => True) (fun e _ => isSizeError c.host.allocates e = false) c := by
  unfold send
  simp only [wp_bind, wp_get]
  split
  · show isSizeError _ _ = false
    unfold isSizeError
    simp
  · simp only [wp_tryCatch, wp_bind]
    rw [wp_onIo]
    refine wp_mono fits (fun _ q _ => ?_) fun e q fine => ?_
    · unfold updateOutsideEvent
      simp only [wp_bind, wp_get, wp_whenever]
      exact ⟨fun _ => trivial, fun _ => trivial⟩
    · exact fine

theorem sendResult_fits {result : ResponseResult} {c : HttpCell} (limit : c.io.output.limit = kOutputLimit)
    (quiet : c.io.pendingBytes = 0) (fits : result.size ≤ kOutputLimit) :
    wp (sendResult result) (fun _ _ => True) (fun e _ => isSizeError c.host.allocates e = false) c := by
  unfold ResponseResult.size at fits
  unfold sendResult
  split
  case h_1 file present =>
    rw [present, Option.map_some, Option.getD_some] at fits
    exact send_fits (queueFile_fits (p := ⟨c.io, c.host⟩) limit quiet fits)
  case h_2 => exact send_fits (queueOutput_fits (p := ⟨c.io, c.host⟩) limit quiet (Nat.le_trans (Nat.le_add_right _ _) fits))

/-- A cell whose output is that of a transport. -/
def HttpCell.withOutput (c : HttpCell) (io : ConnectionIo) : HttpCell :=
  { c with io := { c.io with output := io.output, file := io.file, outputLease := io.outputLease } }

/-- **No legitimate answer is refused by a size limit.** Over every store that requests have filled, every task
request is answered within 262144 bytes, without an exception and not with a 500. For every request or head that a
parser reports, whatever was fed to it before, the router's answer with its file is at most `kOutputLimit` bytes; so
where nothing is pending on a connection, whatever was sent on it before, sending the answer throws no error of a
size limit. -/
theorem answers_within_limits :
    (∀ (calls : List TaskCall) (route : TaskRoute) (request : HttpRequest) (policy : ConnectionPolicy),
      ∃ (response : ResponseResult) (next : TaskService),
        tryTaskResponse route request policy (taskApi.run {} calls).1 = .ok response next
          ∧ onTaskResponse route request policy (taskApi.run {} calls).1 = (response, next)
          ∧ response.contentBytes ≤ kMaxTaskResponseBytes
          ∧ response.status ≠ .internalServerError)
      ∧ ∀ (service : StaticFileService), FilesInWords service →
        ∀ (calls : List ParserCall) (result : FeedResult) (fields : ParserFields),
        (result, fields) ∈ parserAnswers {} calls →
        ∀ (policy : ConnectionPolicy) (now : Int) (tasks : TaskService) (answer : ResponseResult),
        ((RequestRouter.onResponse service result.request policy now tasks).1 = some answer
          ∨ ∃ head, result.head = some head ∧ RequestRouter.onRequestHeaders head policy = some (some answer)) →
        answer.size ≤ kOutputLimit
          ∧ ∀ (maxInputBytes : Nat) (budget : Option ResourceBudget), (∀ b, budget = some b → b.Ordered) →
            ∀ (actions : List TransportAction) (c : HttpCell),
            let io : ConnectionIo :=
              (transport.run { io := makeConnectionIo maxInputBytes, host := { budget := budget } } actions).1.io
            io.hasPendingOutput = false →
            wp (sendResult answer) (fun _ _ => True) (fun e _ => isSizeError c.host.allocates e = false)
              (HttpCell.withOutput c io) := by
  refine ⟨fun calls route request policy => ?_, fun service words calls result fields reported policy now tasks
    answer answered => ?_⟩
  · obtain ⟨response, next, done, fine⟩ :=
      @tryTaskResponse_fine route request policy _ (taskApi_stored calls)
    have answer : onTaskResponse route request policy (taskApi.run {} calls).1 = (response, next) := by
      unfold onTaskResponse
      rw [done]
    have sized := (onTaskResponse_sized route request policy (taskApi.run {} calls).1).size.1
    rw [answer] at sized
    exact ⟨response, next, done, answer, sized, fine⟩
  · have size : answer.size ≤ kOutputLimit := by
      rcases answered with answered | ⟨head, -, refused⟩
      · exact Nat.le_trans (RequestRouter.onResponse_size words (parserAnswers_retained calls reported).2 answered)
          (by decide)
      · exact Nat.le_trans (RequestRouter.onRequestHeaders_size refused) (by decide)
    refine ⟨size, fun maxInputBytes budget ordered actions c => ?_⟩
    intro io quiet
    have exact : Port.Exact (transport.run _ actions).1 _ :=
      Machine.run_history (P := Port.Exact) (m := transport) (fun _ _ action exact => exact.act action) actions
        _ [] (.start maxInputBytes ordered)
    have none : io.pendingBytes = 0 := by
      have empty := (io.hasPendingOutput_iff.not.mp (by rw [quiet]; decide))
      rw [not_not] at empty
      rw [← ConnectionIo.pendingOutput_length, empty]
      rfl
    exact sendResult_fits (c := HttpCell.withOutput c io) exact.limit none size

/-- A root without files. -/
def emptyService : StaticFileService where
  fs := { root := .directory [] }
  root := []
  opened := ⟨_, rfl, rfl⟩

theorem emptyService_words : FilesInWords emptyService := by
  intro path file found
  cases path with
  | nil => cases found
  | cons name rest => cases found

def sampleStream : Bytes := text "GET /missing HTTP/1.1\r\nHost: a\r\n\r\n"

theorem sampleStream_answered :
    (RequestRouter.onResponse emptyService (feedRequestBytes {} sampleStream).2.request .keepAlive 0 {}).1.isSome := by
  decide +kernel

theorem answers_within_limits_missing :
    ((RequestRouter.onResponse emptyService (feedRequestBytes {} sampleStream).2.request .keepAlive 0 {}).1.get
      sampleStream_answered).size ≤ kOutputLimit :=
  (answers_within_limits.2 emptyService emptyService_words [.feed sampleStream] _ _ List.mem_cons_self .keepAlive 0 {} _
    (.inl (Option.some_get _).symm)).1

end HpServer.App
