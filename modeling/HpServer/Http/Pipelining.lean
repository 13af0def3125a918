/-
**One parser for many messages.**

A connection keeps one parser. It feeds the parser what it has received, resets it after every
complete message and offers the rest again (`feedPipelined`).

* `pipelineRun` — the same input byte by byte; `pipelineRun_eq` — one message of it is a `byteRun`.
* `feedPipelined_run` — **any cut of a pipelined input is the pipeline run of the whole input**.
* `pipelineRun_messages` — complete messages one after another are answered one after another as new
  parsers answer them.
* `feedPipelined_no_leak` — the same for any cut and any tail, and the tail is read as by a new parser.
-/

import HpServer.Http.ParserReset

namespace HpServer.Http

/-! ### The caller -/

/-- What the caller sees: a header section reported at an offset of its message, or a message. -/
inductive ParserEvent where
  | headers (offset : Nat) (head : RequestHead)
  | message (request : HttpRequest) (requestBytes : Nat) (headRequest : Bool)
  deriving DecidableEq

/-- A finished pipelined input: the parser, what it reported, and the input never accepted. -/
structure Pipeline where
  parser : RequestParser
  events : List ParserEvent := []
  rest : Bytes := []

/-- The pipeline with events before it. -/
def Pipeline.after (later : Pipeline) (events : List ParserEvent) : Pipeline :=
  { later with events := events ++ later.events }

/-- The message a complete parser answers with. -/
def completed (p : RequestParser) : ParserEvent :=
  .message (buildFeedResult p 0).request p.requestBytes p.headRequest

def reportedEvent (report : Nat × RequestHead) : ParserEvent := .headers report.1 report.2

/-- Offer the segments in order: the rest of a segment again after `kHeadersComplete`, and again
after `kComplete` to the parser as it was reset; nothing more after an error. -/
def feedPipelined : Nat → RequestParser → List Bytes → Pipeline
  | _, p, [] => { parser := p }
  | 0, p, segments => { parser := p, rest := segments.flatten }
  | fuel + 1, p, segment :: segments =>
    let fed := feedRequestBytes p segment
    let left := segment.drop fed.2.acceptedBytes
    match fed.2.status with
    | .needMore => feedPipelined fuel fed.1 segments
    | .headersComplete =>
      (feedPipelined fuel fed.1 (left :: segments)).after
        (fed.2.head.toList.map (.headers fed.2.requestBytes))
    | .complete =>
      (feedPipelined fuel (resetRequestParser fed.1) (left :: segments)).after
        [.message fed.2.request fed.2.requestBytes fed.1.headRequest]
    | _ => { parser := fed.1, rest := left ++ segments.flatten }

/-- The segments offered to a new parser. -/
def pipelineAll (segments : List Bytes) : Pipeline := feedPipelined (callBound segments) {} segments

/-! ### The pipeline run -/

/-- Every byte of a pipelined input in turn. -/
def pipelineRun : RequestParser → Bytes → Pipeline
  | p, [] => { parser := p }
  | p, c :: rest =>
    if p.state.isFinal then { parser := p, rest := c :: rest }
    else if (feedByte p c).status = .headersComplete then
      (pipelineRun ((feedByte p c).onFields clearHeadersComplete) rest).after
        [reportedEvent (reportedHead (feedByte p c))]
    else if (feedByte p c).state = .complete then
      (pipelineRun (resetRequestParser (feedByte p c)) rest).after [completed (feedByte p c)]
    else pipelineRun (feedByte p c) rest

@[simp] theorem Pipeline.after_after (later : Pipeline) (first second : List ParserEvent) :
    (later.after second).after first = later.after (first ++ second) := by
  simp [Pipeline.after]

/-- **One message of a pipeline run is a byte run.** -/
theorem pipelineRun_eq (bytes : Bytes) : ∀ p : RequestParser, Coherent p.toParserFields →
    p.state ≠ .complete → p.status ≠ .headersComplete →
    pipelineRun p bytes =
      (if (byteRun p bytes).1.state = .complete then
          (pipelineRun (resetRequestParser (byteRun p bytes).1) (byteRun p bytes).2.2).after
            [completed (byteRun p bytes).1]
        else { parser := (byteRun p bytes).1, rest := (byteRun p bytes).2.2 }).after
        ((byteRun p bytes).2.1.map reportedEvent) := by
  induction bytes with
  | nil =>
    intro p _ open1 _
    exact (if_neg open1).symm
  | cons c rest ih =>
    intro p coherent open1 cleared
    by_cases final : p.state.isFinal = true
    · rw [byteRun_final _ final, pipelineRun, if_pos final]
      exact (if_neg open1).symm
    have next := feedByte_coherent c coherent cleared
    rw [byteRun_cons c rest (by simpa using final), pipelineRun, if_neg final]
    by_cases reported : (feedByte p c).status = .headersComplete
    · rw [if_pos reported, if_pos reported]
      have still : ((feedByte p c).onFields clearHeadersComplete).state ≠ .complete := by
        obtain ⟨_, shape⟩ := clearHeadersComplete_shape (feedByte p c).toParserFields
        rw [onFields_toParserFields, shape]
        intro done
        rcases next.reported reported with h | h <;> exact absurd (h.symm.trans done) (by decide)
      rw [ih _ (clearHeadersComplete_coherent next) still (clearHeadersComplete_cleared _),
        Pipeline.after_after]
      rfl
    · rw [if_neg reported, if_neg reported]
      by_cases done : (feedByte p c).state = .complete
      · rw [if_pos done, byteRun_final rest (by rw [done]; rfl)]
        simp only [if_pos done]
        rfl
      · rw [if_neg done]
        exact ih _ next done reported

/-- Byte runs that end alike make pipeline runs that end alike. -/
theorem pipelineRun_congr {p q : RequestParser} {bytes other : Bytes}
    (report : List (Nat × RequestHead))
    (pCoherent : Coherent p.toParserFields) (pOpen : p.state ≠ .complete)
    (pCleared : p.status ≠ .headersComplete)
    (qCoherent : Coherent q.toParserFields) (qOpen : q.state ≠ .complete)
    (qCleared : q.status ≠ .headersComplete)
    (same : byteRun p bytes
      = ((byteRun q other).1, report ++ (byteRun q other).2.1, (byteRun q other).2.2)) :
    pipelineRun p bytes = (pipelineRun q other).after (report.map reportedEvent) := by
  rw [pipelineRun_eq bytes p pCoherent pOpen pCleared, pipelineRun_eq other q qCoherent qOpen qCleared,
    same, Pipeline.after_after, List.map_append]

theorem clear_open {f : ParserFields} (open1 : f.state ≠ .complete) :
    (clearHeadersComplete f).state ≠ .complete := by
  obtain ⟨_, shape⟩ := clearHeadersComplete_shape f
  rw [shape]
  exact open1

/-- **Any cut of a pipelined input is the pipeline run of the whole input.** -/
theorem feedPipelined_run (fuel : Nat) : ∀ (p : RequestParser) (segments : List Bytes),
    Coherent p.toParserFields → p.state ≠ .complete →
    (segments = [] → p.status ≠ .headersComplete) → callBound segments ≤ fuel →
    feedPipelined fuel p segments
      = pipelineRun (p.onFields clearHeadersComplete) segments.flatten := by
  have nothing : ∀ (fuel : Nat) (p : RequestParser), p.status ≠ .headersComplete →
      feedPipelined fuel p [] = pipelineRun (p.onFields clearHeadersComplete) ([] : Bytes) := by
    intro fuel p cleared
    rw [onFields_clearHeadersComplete cleared]
    unfold feedPipelined
    rfl
  induction fuel with
  | zero =>
    intro p segments _ _ cleared enough
    have none : segments = [] := List.eq_nil_of_length_eq_zero (by unfold callBound at enough; omega)
    subst none
    exact nothing 0 p (cleared rfl)
  | succ fuel ih =>
    intro p segments coherent open1 cleared enough
    cases segments with
    | nil => exact nothing _ p (cleared rfl)
    | cons segment segments =>
      have next := feedRequestBytes_coherent segment coherent
      have pCoherent := clearHeadersComplete_coherent coherent
      have pCleared := clearHeadersComplete_cleared p.toParserFields
      simp only [callBound, List.length_cons, List.flatten_cons, List.length_append] at enough
      rw [List.flatten_cons, feedPipelined]
      cases callOutcome segment coherent with
      | needMore status accepted stillOpen headless run =>
        have live : (feedRequestBytes p segment).1.state ≠ .complete := fun done =>
          absurd ((next.complete done).symm.trans status) (by decide)
        simp only [status]
        rw [ih _ segments next live (fun _ => stillOpen) (by unfold callBound; omega),
          onFields_clearHeadersComplete stillOpen]
        exact (pipelineRun_congr [] pCoherent (clear_open open1) pCleared next live stillOpen
          (run _)).symm
      | reported status shorter head run =>
        have live : (feedRequestBytes p segment).1.state ≠ .complete := fun done =>
          absurd ((next.complete done).symm.trans status) (by decide)
        obtain ⟨report, some, same⟩ := Option.map_eq_some_iff.mp head
        have event : (feedRequestBytes p segment).2.head.toList.map
            (.headers (feedRequestBytes p segment).2.requestBytes)
            = [reportedHead (feedRequestBytes p segment).1].map reportedEvent := by
          rw [some, ← same]
          rfl
        simp only [status]
        rw [event, ih _ (_ :: segments) next live (fun empty => by cases empty)
          (by simp only [callBound, List.length_cons, List.flatten_cons, List.length_append]; omega)]
        exact (pipelineRun_congr _ pCoherent (clear_open open1) pCleared
          (clearHeadersComplete_coherent next) (clear_open live) (clearHeadersComplete_cleared _)
          (run _)).symm
      | final final shorter status headless run =>
        rw [pipelineRun_eq _ _ pCoherent (clear_open open1) pCleared, run]
        by_cases done : (feedRequestBytes p segment).1.state = .complete
        · have complete : (feedRequestBytes p segment).2.status = .complete := next.complete done
          have live : p.state.isFinal = false := by
            by_contra final
            rw [feedRequestBytes_final segment coherent (by simpa using final)] at done
            exact open1 done
          have fewer := shorter live
          simp only [complete, if_pos done]
          rw [ih (resetRequestParser (feedRequestBytes p segment).1) (_ :: segments) coherent_initial
            (show ParserState.requestLine ≠ .complete by decide) (fun empty => by cases empty)
            (by simp only [callBound, List.length_cons, List.flatten_cons, List.length_append]; omega),
            List.flatten_cons]
          rfl
        · have isError : (feedRequestBytes p segment).1.state = .error := by
            cases state : (feedRequestBytes p segment).1.state <;> rw [state] at final done <;>
              first | rfl | exact absurd rfl done | cases final
          have refused : (feedRequestBytes p segment).2.status.isError = true := next.error isError
          simp only [if_neg done]
          cases kind : (feedRequestBytes p segment).2.status <;> rw [kind] at refused <;>
            first | rfl | cases refused

/-- **A pipelined input in any cut is the pipeline run of the input.** -/
theorem pipelineAll_run (segments : List Bytes) :
    pipelineAll segments = pipelineRun {} segments.flatten :=
  feedPipelined_run _ {} segments coherent_initial (by decide) (fun _ => by decide) le_rfl

/-! ### Messages one after another -/

/-- A finished byte run does not look at what follows. -/
theorem byteRun_final_append (bytes more : Bytes) : ∀ p : RequestParser,
    (byteRun p bytes).1.state.isFinal = true →
    byteRun p (bytes ++ more) = ((byteRun p bytes).1, (byteRun p bytes).2.1,
      (byteRun p bytes).2.2 ++ more) := by
  induction bytes with
  | nil => exact fun p final => byteRun_final more final
  | cons c rest ih =>
    intro p done
    by_cases final : p.state.isFinal = true
    · rw [byteRun_final _ final, byteRun_final _ final]
    · have live : p.state.isFinal = false := by simpa using final
      rw [byteRun_cons c rest live] at done ⊢
      rw [List.cons_append, byteRun_cons c _ live]
      split at done
      · next reported =>
        rw [if_pos reported, if_pos reported, ih _ done]
      · next open1 =>
        rw [if_neg open1, if_neg open1, ih _ done]

theorem reportedHead_agree {p q : RequestParser} (agree : Agree p q) (framed : Framed p.toParserFields) :
    reportedHead p = reportedHead q := by
  have method : slice p.storage 0 p.methodSize = slice q.storage 0 p.methodSize :=
    slice_congr fun i _ below => agree.storage i (by have := framed.method; omega)
  have target : slice p.storage p.targetStart p.targetSize
      = slice q.storage p.targetStart p.targetSize :=
    slice_congr fun i _ below => agree.storage i (by have := framed.target; omega)
  unfold reportedHead
  rw [← agree.fields, method, target]

theorem completed_agree {p q : RequestParser} (agree : Agree p q) (framed : Framed p.toParserFields) :
    completed p = completed q := by
  unfold completed
  rw [buildFeedResult_agree 0 agree framed, agree.fields]

theorem reset_agree (p q : RequestParser) : Agree (resetRequestParser p) (resetRequestParser q) where
  fields := rfl
  storage i below := absurd below (Nat.not_lt_zero i)

/-- **Parsers that agree read a pipelined input alike.** -/
theorem pipelineRun_agree (bytes : Bytes) : ∀ p q : RequestParser, Agree p q →
    Framed p.toParserFields → Coherent p.toParserFields → p.status ≠ .headersComplete →
    (pipelineRun p bytes).events = (pipelineRun q bytes).events ∧
      (pipelineRun p bytes).rest = (pipelineRun q bytes).rest ∧
      Agree (pipelineRun p bytes).parser (pipelineRun q bytes).parser ∧
      Framed (pipelineRun p bytes).parser.toParserFields ∧
      Coherent (pipelineRun p bytes).parser.toParserFields := by
  induction bytes with
  | nil => exact fun p q agree framed coherent _ => ⟨rfl, rfl, agree, framed, coherent⟩
  | cons c rest ih =>
    intro p q agree framed coherent cleared
    rw [pipelineRun, pipelineRun, ← agree.fields]
    have next := feedByte_agree c agree framed
    have nextFramed := feedByte_framed c framed
    have nextCoherent := feedByte_coherent c coherent cleared
    split
    · exact ⟨rfl, rfl, agree, framed, coherent⟩
    rw [← next.fields]
    split
    · obtain ⟨events, same⟩ := ih _ _ (clear_agree next) (clear_framed nextFramed)
        (clearHeadersComplete_coherent nextCoherent) (clearHeadersComplete_cleared _)
      refine ⟨?_, same⟩
      show [_] ++ _ = [_] ++ _
      rw [events, reportedHead_agree next nextFramed]
    · split
      · obtain ⟨events, same⟩ := ih _ _ (reset_agree (feedByte p c) (feedByte q c)) framed_initial
          coherent_initial (show ParseStatus.needMore ≠ .headersComplete by decide)
        refine ⟨?_, same⟩
        show [_] ++ _ = [_] ++ _
        rw [events, completed_agree next nextFramed]
      · next open1 _ => exact ih _ _ next nextFramed nextCoherent open1

/-- What a new parser reports of one message. -/
def freshEvents (message : Bytes) : List ParserEvent :=
  (feedAll [message]).heads.map reportedEvent ++
    [.message (feedAll [message]).last.request (feedAll [message]).last.requestBytes
      (feedAll [message]).parser.headRequest]

/-- A message that a new parser completes with its last byte. -/
def CompleteMessage (message : Bytes) : Prop :=
  (feedAll [message]).last.status = .complete ∧ (feedAll [message]).accepted = message.length

instance (message : Bytes) : Decidable (CompleteMessage message) := by
  unfold CompleteMessage
  infer_instance

theorem byteRun_message {message : Bytes} (complete : CompleteMessage message) :
    byteRun {} message = ((feedAll [message]).parser, (feedAll [message]).heads, []) ∧
      (feedAll [message]).parser.state = .complete := by
  obtain ⟨status, all⟩ := complete
  have run := feedAll_run [message]
  obtain ⟨_, left⟩ := (feedAll_fed [message]).rest coherent_initial
  have coherent := (feedAll_fed [message]).coherent coherent_initial
  obtain ⟨_, last⟩ := feedAll_last [message]
  rw [List.flatten_singleton] at run left
  rw [left, all, List.drop_length] at run
  refine ⟨run, ?_⟩
  have done : (feedAll [message]).parser.status = .complete := by
    rw [last] at status
    exact status
  have final := coherent.isFinal_iff.mpr (.inl done)
  cases state : (feedAll [message]).parser.state with
  | complete => rfl
  | error =>
    have refused := coherent.error state
    rw [done] at refused
    cases refused
  | _ => rw [state] at final; cases final

/-- **A complete message in front is answered as a new parser answers it**, and the rest is read as by
a new parser. -/
theorem pipelineRun_message {message : Bytes} (more : Bytes) (complete : CompleteMessage message) :
    (pipelineRun {} (message ++ more)).events = freshEvents message ++ (pipelineRun {} more).events ∧
      (pipelineRun {} (message ++ more)).rest = (pipelineRun {} more).rest ∧
      Agree (pipelineRun {} (message ++ more)).parser (pipelineRun {} more).parser := by
  obtain ⟨run, done⟩ := byteRun_message complete
  obtain ⟨_, last⟩ := feedAll_last [message]
  have whole := byteRun_final_append message more {} (by rw [run, done]; rfl)
  rw [run, List.nil_append] at whole
  obtain ⟨events, rest, agree, -, -⟩ := pipelineRun_agree more _ _
    (resetRequestParser_agree (feedAll [message]).parser) framed_initial coherent_initial
    (show ParseStatus.needMore ≠ .headersComplete by decide)
  rw [pipelineRun_eq _ {} coherent_initial (by decide) (by decide), whole]
  simp only [if_pos done]
  refine ⟨?_, rest, agree⟩
  unfold freshEvents
  rw [last, List.append_assoc, ← events]
  rfl

/-- Complete messages one after another, and a tail. -/
theorem pipelineRun_messages (messages : List Bytes) (tail : Bytes)
    (complete : ∀ message ∈ messages, CompleteMessage message) :
    (pipelineRun {} (messages.flatten ++ tail)).events
        = messages.flatMap freshEvents ++ (pipelineRun {} tail).events ∧
      (pipelineRun {} (messages.flatten ++ tail)).rest = (pipelineRun {} tail).rest ∧
      Agree (pipelineRun {} (messages.flatten ++ tail)).parser (pipelineRun {} tail).parser := by
  induction messages with
  | nil => exact ⟨rfl, rfl, .refl _⟩
  | cons message messages ih =>
    obtain ⟨events, rest, agree⟩ := ih fun m member => complete m (List.mem_cons_of_mem _ member)
    obtain ⟨first, left, same⟩ := pipelineRun_message (messages.flatten ++ tail)
      (complete message List.mem_cons_self)
    rw [List.flatten_cons, List.append_assoc]
    refine ⟨?_, left.trans rest, same.trans agree⟩
    rw [first, events, List.flatMap_cons, List.append_assoc]

/-- **No state leaks between pipelined requests.** However complete messages and a tail are cut, one
parser, reset after every message, reports exactly what new parsers report of the messages and then
what a new parser reports of the tail; the parser it ends with gives the same answers to all further
calls. And after a reset, from any state, every call is answered as by a new parser. -/
theorem pipelineAll_no_leak :
    (∀ (messages : List Bytes) (tail : Bytes) (segments : List Bytes),
      (∀ message ∈ messages, CompleteMessage message) →
      segments.flatten = messages.flatten ++ tail →
      (pipelineAll segments).events
          = messages.flatMap freshEvents ++ (pipelineAll [tail]).events ∧
        (pipelineAll segments).rest = (pipelineAll [tail]).rest ∧
        (pipelineAll segments).parser.toParserFields
          = (pipelineAll [tail]).parser.toParserFields ∧
        ∀ calls, parserAnswers (pipelineAll segments).parser calls
          = parserAnswers (pipelineAll [tail]).parser calls) ∧
    ∀ (p : RequestParser) (calls : List ParserCall),
      parserAnswers (resetRequestParser p) calls = parserAnswers {} calls := by
  refine ⟨fun messages tail segments complete cut => ?_, parserAnswers_reset⟩
  rw [pipelineAll_run, pipelineAll_run, cut, List.flatten_singleton]
  obtain ⟨events, rest, agree⟩ := pipelineRun_messages messages tail complete
  obtain ⟨-, -, -, framed, coherent⟩ := pipelineRun_agree (messages.flatten ++ tail) {} {} (.refl {})
    framed_initial coherent_initial (by decide)
  exact ⟨events, rest, agree.fields,
    fun calls => parserAnswers_agree calls _ _ agree framed coherent⟩

/-- Two requests and the start of a third, cut inside the second. -/
theorem pipelineAll_no_leak_get :
    let message := text "GET / HTTP/1.1\r\nHost:x\r\n\r\n"
    let tail := text "GET"
    CompleteMessage message ∧
      (pipelineAll [message ++ message.take 7, message.drop 7 ++ tail]).events
        = [message, message].flatMap freshEvents ++ (pipelineAll [tail]).events := by
  have complete : CompleteMessage (text "GET / HTTP/1.1\r\nHost:x\r\n\r\n") := by decide +kernel
  refine ⟨complete, (pipelineAll_no_leak.1 _ _ _ ?_ ?_).1⟩
  · exact fun message member => by
      rcases List.mem_cons.mp member with rfl | member
      · exact complete
      · rwa [List.mem_singleton.mp member]
  · decide +kernel

end HpServer.Http
