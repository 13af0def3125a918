/-
**How the input is cut does not matter to the parser.**

A caller of `feedRequestBytes` offers the pieces of its input as they arrive, offers the rest of a
piece again after `kHeadersComplete`, and stops at `kComplete` or an error (`feedSegments`, started
on a new parser by `feedAll`).

* `byteRun` — the same input byte by byte, with every reported header section noted and passed over.
* `feedSegments_run` — **any cut of the input is the byte run of the whole input**, call by call.
* `byteRun_heads` — a message reports its header section at most once.
* `feedAll_segmentation` — any cut against the input in one piece: the same status, request, reported
  head and offset, accepted bytes and unconsumed rest.
* `parseRequest_eq_feedAll` — `parseRequest` is the whole input offered in one piece.
-/

import HpServer.Http.ParserSteps

namespace HpServer.Http

/-! ### The caller -/

/-- One call of `feedRequestBytes`. -/
structure FeedCall where
  offered : Bytes
  result : FeedResult

/-- A finished feeding: the parser, the calls in their order, and the input never accepted. -/
structure Feeding where
  parser : RequestParser
  calls : List FeedCall := []
  rest : Bytes := []

namespace Feeding

/-- The result of the last call. A parser that was never called waits for more. -/
def last (feeding : Feeding) : FeedResult :=
  match feeding.calls.getLast? with
  | none => {}
  | some call => call.result

/-- The bytes accepted by all calls. -/
def accepted (feeding : Feeding) : Nat := (feeding.calls.map (·.result.acceptedBytes)).sum

/-- The reported header sections, each with the byte offset of its report. -/
def heads (feeding : Feeding) : List (Nat × RequestHead) :=
  feeding.calls.filterMap fun call => call.result.head.map (Prod.mk call.result.requestBytes)

/-- The feeding with one call before it. -/
def called (later : Feeding) (call : FeedCall) : Feeding :=
  { later with calls := call :: later.calls }

end Feeding

/-- Offer the segments in order: the rest of a segment again after `kHeadersComplete`, nothing more
after `kComplete` or an error. A call ends its segment or accepts a byte of it, which bounds the
number of calls. -/
def feedSegments : Nat → RequestParser → List Bytes → Feeding
  | _, p, [] => { parser := p }
  | 0, p, segments => { parser := p, rest := segments.flatten }
  | fuel + 1, p, segment :: segments =>
    let fed := feedRequestBytes p segment
    let left := segment.drop fed.2.acceptedBytes
    let later :=
      match fed.2.status with
      | .needMore => feedSegments fuel fed.1 segments
      | .headersComplete => feedSegments fuel fed.1 (left :: segments)
      | _ => { parser := fed.1, rest := left ++ segments.flatten }
    later.called ⟨segment, fed.2⟩

/-- Enough calls for these segments. -/
def callBound (segments : List Bytes) : Nat := segments.length + segments.flatten.length

/-- The segments offered to a new parser. -/
def feedAll (segments : List Bytes) : Feeding := feedSegments (callBound segments) {} segments

/-! ### The byte run -/

/-- The report a parser makes of its header section. -/
def reportedHead (p : RequestParser) : Nat × RequestHead :=
  (p.requestBytes,
    { method := slice p.storage 0 p.methodSize
      target := slice p.storage p.targetStart p.targetSize
      closeRequested := p.closeRequested })

/-- Every byte of the input in turn: the parser, the reported header sections and the rest. -/
def byteRun : RequestParser → Bytes → RequestParser × List (Nat × RequestHead) × Bytes
  | p, [] => (p, [], [])
  | p, c :: rest =>
    if p.state.isFinal then (p, [], c :: rest)
    else if (feedByte p c).status = .headersComplete then
      let later := byteRun ((feedByte p c).onFields clearHeadersComplete) rest
      (later.1, reportedHead (feedByte p c) :: later.2.1, later.2.2)
    else byteRun (feedByte p c) rest

theorem byteRun_final {p : RequestParser} (bytes : Bytes) (final : p.state.isFinal = true) :
    byteRun p bytes = (p, [], bytes) := by
  cases bytes with
  | nil => rfl
  | cons c rest => rw [byteRun, if_pos final]

theorem byteRun_cons {p : RequestParser} (c : UInt8) (rest : Bytes) (live : p.state.isFinal = false) :
    byteRun p (c :: rest) =
      if (feedByte p c).status = .headersComplete then
        ((byteRun ((feedByte p c).onFields clearHeadersComplete) rest).1,
          reportedHead (feedByte p c) ::
            (byteRun ((feedByte p c).onFields clearHeadersComplete) rest).2.1,
          (byteRun ((feedByte p c).onFields clearHeadersComplete) rest).2.2)
      else byteRun (feedByte p c) rest := by
  rw [byteRun, live, if_neg (by decide)]

/-- **A byte run over a segment is the byte loop over it**, continued after its stop. -/
theorem byteRun_append (segment more : Bytes) : ∀ p : RequestParser, p.status ≠ .headersComplete →
    byteRun p (segment ++ more) =
      if (byteLoop p segment).1.status = .headersComplete then
        let later := byteRun ((byteLoop p segment).1.onFields clearHeadersComplete)
          ((byteLoop p segment).2 ++ more)
        (later.1, reportedHead (byteLoop p segment).1 :: later.2.1, later.2.2)
      else if (byteLoop p segment).1.state.isFinal then
        ((byteLoop p segment).1, [], (byteLoop p segment).2 ++ more)
      else byteRun (byteLoop p segment).1 more := by
  induction segment with
  | nil =>
    intro p cleared
    show byteRun p more = if p.status = .headersComplete then _ else
      if p.state.isFinal = true then (p, [], more) else byteRun p more
    rw [if_neg cleared]
    split
    · next final => exact byteRun_final _ final
    · rfl
  | cons c rest ih =>
    intro p cleared
    by_cases final : p.state.isFinal = true
    · rw [byteLoop_final _ final, byteRun_final _ final]
      exact ((if_neg cleared).trans (if_pos final)).symm
    · have live : p.state.isFinal = false := by simpa using final
      rw [List.cons_append, byteRun_cons c _ live, byteLoop_cons c _ live]
      by_cases reported : (feedByte p c).status = .headersComplete
      · simp only [if_pos reported]
      · simp only [if_neg reported]
        exact ih _ reported

/-! ### One call -/

theorem clearHeadersComplete_cleared (f : ParserFields) :
    (clearHeadersComplete f).status ≠ .headersComplete := by
  unfold clearHeadersComplete
  split
  · exact fun reported => by cases reported
  · next cleared => exact cleared

theorem clearHeadersComplete_of_cleared {f : ParserFields} (cleared : f.status ≠ .headersComplete) :
    clearHeadersComplete f = f := by
  unfold clearHeadersComplete
  rw [if_neg cleared]

/-- Clearing a report changes the status only. -/
theorem clearHeadersComplete_shape (f : ParserFields) :
    ∃ status, clearHeadersComplete f = { f with status := status } := by
  unfold clearHeadersComplete
  split <;> exact ⟨_, rfl⟩

/-- A header section is reported where a body follows. -/
theorem Coherent.reported {f : ParserFields} (coherent : Coherent f)
    (reported : f.status = .headersComplete) : f.state = .body ∨ f.state = .chunkSize := by
  have live : f.state.isFinal = false := by
    cases state : f.state with
    | complete => have := coherent.complete state; rw [reported] at this; cases this
    | error => have := coherent.error state; rw [reported] at this; cases this
    | _ => rfl
  rcases coherent.live live with h | h
  · rw [reported] at h; cases h
  · exact h.2

theorem clearHeadersComplete_coherent {f : ParserFields} (coherent : Coherent f) :
    Coherent (clearHeadersComplete f) := by
  by_cases reported : f.status = .headersComplete
  · have place := coherent.reported reported
    unfold clearHeadersComplete
    rw [if_pos reported]
    refine ⟨fun _ => .inl rfl, fun isComplete => ?_, fun isError => ?_, coherent.header,
      coherent.body, coherent.chunkData⟩
    · rcases place with h | h <;> rw [h] at isComplete <;> cases isComplete
    · rcases place with h | h <;> rw [h] at isError <;> cases isError
  · rw [clearHeadersComplete_of_cleared reported]
    exact coherent

/-- **One call is the byte loop** on the parser with its last report cleared. -/
theorem feedRequestBytes_eq {p : RequestParser} (bytes : Bytes) (coherent : Coherent p.toParserFields) :
    feedRequestBytes p bytes =
      ((byteLoop (p.onFields clearHeadersComplete) bytes).1,
        buildFeedResult (byteLoop (p.onFields clearHeadersComplete) bytes).1
          (bytes.length - (byteLoop (p.onFields clearHeadersComplete) bytes).2.length)) := by
  unfold feedRequestBytes
  rw [feedLoop_eq_byteLoop bytes.length (p.onFields clearHeadersComplete) bytes
    (clearHeadersComplete_coherent coherent) (clearHeadersComplete_cleared _) le_rfl]

theorem feedRequestBytes_coherent {p : RequestParser} (bytes : Bytes)
    (coherent : Coherent p.toParserFields) :
    Coherent (feedRequestBytes p bytes).1.toParserFields := by
  rw [feedRequestBytes_eq bytes coherent]
  exact byteLoop_coherent bytes _ (clearHeadersComplete_coherent coherent)
    (clearHeadersComplete_cleared _)

/-- The rest a caller offers again is the rest the byte loop left. -/
theorem drop_accepted {p : RequestParser} (bytes : Bytes) (coherent : Coherent p.toParserFields) :
    bytes.drop (feedRequestBytes p bytes).2.acceptedBytes
      = (byteLoop (p.onFields clearHeadersComplete) bytes).2 := by
  rw [feedRequestBytes_eq bytes coherent]
  exact (List.suffix_iff_eq_drop.mp (byteLoop_suffix bytes _)).symm

/-- A coherent parser in a final state has a final status, and no other. -/
theorem Coherent.isFinal_iff {f : ParserFields} (coherent : Coherent f) :
    f.state.isFinal = true ↔ f.status = .complete ∨ f.status.isError = true := by
  constructor
  · intro final
    cases state : f.state with
    | complete => exact .inl (coherent.complete state)
    | error => exact .inr (coherent.error state)
    | _ => rw [state] at final; cases final
  · intro status
    by_contra live
    rcases coherent.live (by simpa using live) with h | ⟨h, _⟩ <;> rw [h] at status <;>
      rcases status with h | h <;> cases h

theorem Coherent.state_of_complete {f : ParserFields} (coherent : Coherent f) (complete : f.status = .complete) :
    f.state = .complete := by
  have final := coherent.isFinal_iff.mpr (.inl complete)
  cases state : f.state with
  | complete => rfl
  | error =>
    have refused := coherent.error state
    rw [complete] at refused
    cases refused
  | _ => rw [state] at final; cases final

/-- **A call that asks for more has accepted everything it was offered.** -/
theorem feedRequestBytes_needMore {p : RequestParser} (bytes : Bytes)
    (coherent : Coherent p.toParserFields)
    (needMore : (feedRequestBytes p bytes).2.status = .needMore) :
    (feedRequestBytes p bytes).2.acceptedBytes = bytes.length ∧
      (byteLoop (p.onFields clearHeadersComplete) bytes).2 = [] := by
  have next := feedRequestBytes_coherent bytes coherent
  rw [feedRequestBytes_eq bytes coherent] at needMore next ⊢
  have nothing : (byteLoop (p.onFields clearHeadersComplete) bytes).2 = [] := by
    refine (byteLoop_rest bytes _).resolve_right fun stopped => ?_
    change (byteLoop (p.onFields clearHeadersComplete) bytes).1.status = .needMore at needMore
    rcases stopped with final | reported
    · rcases next.isFinal_iff.mp final with h | h <;> rw [needMore] at h <;> cases h
    · rw [needMore] at reported; cases reported
  exact ⟨by rw [nothing]; rfl, nothing⟩

/-- The bytes a call accepts are the bytes the parser counts. -/
theorem feedRequestBytes_requestBytes {p : RequestParser} (bytes : Bytes)
    (coherent : Coherent p.toParserFields) :
    (feedRequestBytes p bytes).1.requestBytes
      = p.requestBytes + (feedRequestBytes p bytes).2.acceptedBytes := by
  have counted := byteLoop_requestBytes bytes (p.onFields clearHeadersComplete)
    (clearHeadersComplete_coherent coherent) (clearHeadersComplete_cleared _)
  have short := (byteLoop_suffix bytes (p.onFields clearHeadersComplete)).length_le
  obtain ⟨status, shape⟩ := clearHeadersComplete_shape p.toParserFields
  rw [feedRequestBytes_eq bytes coherent]
  rw [onFields_toParserFields, shape] at counted
  show (byteLoop (p.onFields clearHeadersComplete) bytes).1.requestBytes
    = p.requestBytes + (bytes.length - (byteLoop (p.onFields clearHeadersComplete) bytes).2.length)
  simp only at counted
  omega

/-- **A finished parser accepts nothing more** and repeats its answer. -/
theorem feedRequestBytes_final {p : RequestParser} (bytes : Bytes)
    (coherent : Coherent p.toParserFields) (final : p.state.isFinal = true) :
    feedRequestBytes p bytes = (p, buildFeedResult p 0) := by
  have cleared : p.status ≠ .headersComplete := by
    intro reported
    rcases coherent.isFinal_iff.mp final with h | h <;> rw [reported] at h <;> cases h
  have same : p.onFields clearHeadersComplete = p := by
    show { p with toParserFields := clearHeadersComplete p.toParserFields } = p
    rw [clearHeadersComplete_of_cleared cleared]
  rw [feedRequestBytes_eq bytes coherent, same, byteLoop_final _ final]
  simp

/-! ### Any cut is the byte run -/

/-- A loop that comes to its stop takes the byte that stops it. -/
theorem byteLoop_stopped_shorter (bytes : Bytes) : ∀ p : RequestParser,
    ¬Stopped p → Stopped (byteLoop p bytes).1 → (byteLoop p bytes).2.length < bytes.length := by
  induction bytes with
  | nil => exact fun p open1 stopped => absurd stopped open1
  | cons c rest ih =>
    intro p open1 stopped
    have live : p.state.isFinal = false := by simpa using fun final => open1 (.inl final)
    rw [byteLoop_cons c rest live] at stopped ⊢
    split at stopped
    · next now => simp [now]
    · next next1 =>
      rw [if_neg next1]
      by_cases final : (feedByte p c).state.isFinal = true
      · rw [byteLoop_final _ final]
        exact Nat.lt_succ_self _
      · exact (ih _ (fun h => h.elim final next1) stopped).trans (Nat.lt_succ_self _)

theorem onFields_clearHeadersComplete {p : RequestParser} (cleared : p.status ≠ .headersComplete) :
    p.onFields clearHeadersComplete = p := by
  show { p with toParserFields := clearHeadersComplete p.toParserFields } = p
  rw [clearHeadersComplete_of_cleared cleared]

/-- **What one call can do**, against the byte run: ask for more after taking the whole segment,
report a header section and leave a shorter rest, or finish. -/
inductive CallOutcome (p : RequestParser) (segment : Bytes) : Prop
  | needMore : (feedRequestBytes p segment).2.status = .needMore →
      (feedRequestBytes p segment).2.acceptedBytes = segment.length →
      (feedRequestBytes p segment).1.status ≠ .headersComplete →
      (feedRequestBytes p segment).2.head = none →
      (∀ more, byteRun (p.onFields clearHeadersComplete) (segment ++ more)
        = byteRun (feedRequestBytes p segment).1 more) →
      CallOutcome p segment
  | reported : (feedRequestBytes p segment).2.status = .headersComplete →
      (segment.drop (feedRequestBytes p segment).2.acceptedBytes).length < segment.length →
      (feedRequestBytes p segment).2.head.map (Prod.mk (feedRequestBytes p segment).2.requestBytes)
        = some (reportedHead (feedRequestBytes p segment).1) →
      (∀ more, byteRun (p.onFields clearHeadersComplete) (segment ++ more) =
        let later := byteRun ((feedRequestBytes p segment).1.onFields clearHeadersComplete)
          (segment.drop (feedRequestBytes p segment).2.acceptedBytes ++ more)
        (later.1, reportedHead (feedRequestBytes p segment).1 :: later.2.1, later.2.2)) →
      CallOutcome p segment
  | final : (feedRequestBytes p segment).1.state.isFinal = true →
      (p.state.isFinal = false →
        (segment.drop (feedRequestBytes p segment).2.acceptedBytes).length < segment.length) →
      (feedRequestBytes p segment).2.status = .complete ∨
        (feedRequestBytes p segment).2.status.isError = true →
      (feedRequestBytes p segment).2.head = none →
      (∀ more, byteRun (p.onFields clearHeadersComplete) (segment ++ more) =
        ((feedRequestBytes p segment).1, [],
          segment.drop (feedRequestBytes p segment).2.acceptedBytes ++ more)) →
      CallOutcome p segment

theorem buildFeedResult_head_none {p : RequestParser} (accepted : Nat)
    (cleared : p.status ≠ .headersComplete) : (buildFeedResult p accepted).head = none := by
  unfold buildFeedResult
  exact if_neg cleared

theorem callOutcome {p : RequestParser} (segment : Bytes) (coherent : Coherent p.toParserFields) :
    CallOutcome p segment := by
  have next := feedRequestBytes_coherent segment coherent
  have leftover := drop_accepted segment coherent
  have run := fun more => byteRun_append segment more (p.onFields clearHeadersComplete)
    (clearHeadersComplete_cleared _)
  have loop := feedRequestBytes_eq segment coherent
  have state := congrArg Prod.fst loop
  have result := congrArg Prod.snd loop
  simp only at state result
  rw [← state] at result
  rw [← state, ← leftover] at run
  have shorter : Stopped (feedRequestBytes p segment).1 → p.state.isFinal = false →
      (segment.drop (feedRequestBytes p segment).2.acceptedBytes).length < segment.length := by
    intro stopped live
    rw [leftover]
    refine byteLoop_stopped_shorter segment _ ?_ (by rw [← state]; exact stopped)
    obtain ⟨_, shape⟩ := clearHeadersComplete_shape p.toParserFields
    rintro (final | reported)
    · rw [onFields_toParserFields, shape] at final
      rw [live] at final
      cases final
    · exact clearHeadersComplete_cleared _ reported
  by_cases reported : (feedRequestBytes p segment).1.status = .headersComplete
  · refine .reported (by rw [result]; exact reported) (shorter (.inr reported) ?_) ?_ fun more => ?_
    · by_contra final
      rw [feedRequestBytes_final segment coherent (by simpa using final)] at reported
      rcases coherent.isFinal_iff.mp (by simpa using final) with h | h <;>
        rw [show p.status = .headersComplete from reported] at h <;> cases h
    · rw [result]
      unfold buildFeedResult
      simp only [if_pos reported]
      rfl
    · rw [run more, if_pos reported]
  · have headless : (feedRequestBytes p segment).2.head = none := by
      rw [result]
      exact buildFeedResult_head_none _ reported
    by_cases final : (feedRequestBytes p segment).1.state.isFinal = true
    · refine .final final (shorter (.inl final)) ?_ headless fun more => ?_
      · rw [result]
        exact next.isFinal_iff.mp final
      · rw [run more, if_neg reported, if_pos final]
    · have waiting : (feedRequestBytes p segment).2.status = .needMore := by
        rw [result]
        exact next.needMore (by simpa using final) reported
      refine .needMore waiting (feedRequestBytes_needMore segment coherent waiting).1 reported headless
        fun more => ?_
      rw [run more, if_neg reported, if_neg final]

/-- **The calls of a caller as a relation**, one rule for each answer. -/
inductive Fed : RequestParser → List Bytes → Feeding → Prop
  | nil (p : RequestParser) : Fed p [] { parser := p }
  | needMore {p : RequestParser} {segment : Bytes} {segments : List Bytes} {later : Feeding} :
      (feedRequestBytes p segment).2.status = .needMore →
      Fed (feedRequestBytes p segment).1 segments later →
      Fed p (segment :: segments) (later.called ⟨segment, (feedRequestBytes p segment).2⟩)
  | reported {p : RequestParser} {segment : Bytes} {segments : List Bytes} {later : Feeding} :
      (feedRequestBytes p segment).2.status = .headersComplete →
      Fed (feedRequestBytes p segment).1
        (segment.drop (feedRequestBytes p segment).2.acceptedBytes :: segments) later →
      Fed p (segment :: segments) (later.called ⟨segment, (feedRequestBytes p segment).2⟩)
  | final {p : RequestParser} {segment : Bytes} {segments : List Bytes} :
      (feedRequestBytes p segment).2.status = .complete ∨
        (feedRequestBytes p segment).2.status.isError = true →
      Fed p (segment :: segments)
        (Feeding.called
          { parser := (feedRequestBytes p segment).1
            rest := segment.drop (feedRequestBytes p segment).2.acceptedBytes ++ segments.flatten }
          ⟨segment, (feedRequestBytes p segment).2⟩)

/-- **The bound on the calls is enough**: the caller never stops on its fuel. -/
theorem feedSegments_fed (fuel : Nat) : ∀ (p : RequestParser) (segments : List Bytes),
    Coherent p.toParserFields → callBound segments ≤ fuel →
    Fed p segments (feedSegments fuel p segments) := by
  induction fuel with
  | zero =>
    intro p segments _ enough
    have none : segments = [] := List.eq_nil_of_length_eq_zero (by unfold callBound at enough; omega)
    subst none
    exact .nil p
  | succ fuel ih =>
    intro p segments coherent enough
    cases segments with
    | nil => exact .nil p
    | cons segment segments =>
      have next := feedRequestBytes_coherent segment coherent
      simp only [callBound, List.length_cons, List.flatten_cons, List.length_append] at enough
      rw [feedSegments]
      cases callOutcome segment coherent with
      | needMore status _ _ _ _ =>
        simp only [status]
        exact .needMore status (ih _ segments next (by unfold callBound; omega))
      | reported status shorter _ _ =>
        simp only [status]
        refine .reported status (ih _ _ next ?_)
        simp only [callBound, List.length_cons, List.flatten_cons, List.length_append]
        omega
      | final _ _ status _ _ =>
        have fed := @Fed.final p segment segments status
        rcases status with h | h
        · simp only [h]
          exact fed
        · cases kind : (feedRequestBytes p segment).2.status <;> rw [kind] at h <;>
            first | exact fed | cases h

/-- **Any cut of the input is the byte run of the whole input**: the same parser in the end, the same
reports and the same rest. -/
theorem Fed.run {p : RequestParser} {segments : List Bytes} {feeding : Feeding}
    (fed : Fed p segments feeding) (coherent : Coherent p.toParserFields)
    (cleared : segments = [] → p.status ≠ .headersComplete) :
    byteRun (p.onFields clearHeadersComplete) segments.flatten =
      (feeding.parser, feeding.heads, feeding.rest) := by
  induction fed with
  | nil p =>
    rw [onFields_clearHeadersComplete (cleared rfl)]
    rfl
  | @needMore p segment segments later status fed ih =>
    cases callOutcome segment coherent with
    | needMore _ _ open1 headless run =>
      have rest := ih (feedRequestBytes_coherent segment coherent) fun _ => open1
      rw [onFields_clearHeadersComplete open1] at rest
      rw [List.flatten_cons, run, rest]
      simp [Feeding.heads, Feeding.called, headless]
    | reported other _ _ _ => rw [status] at other; cases other
    | final _ _ other _ _ => rw [status] at other; rcases other with h | h <;> cases h
  | @reported p segment segments later status fed ih =>
    cases callOutcome segment coherent with
    | needMore other _ _ _ _ => rw [status] at other; cases other
    | reported _ _ head run =>
      have rest := ih (feedRequestBytes_coherent segment coherent) fun empty => by cases empty
      rw [List.flatten_cons] at rest
      rw [List.flatten_cons, run, rest]
      simp [Feeding.heads, Feeding.called, head]
    | final _ _ other _ _ => rw [status] at other; rcases other with h | h <;> cases h
  | @final p segment segments status =>
    cases callOutcome segment coherent with
    | needMore other _ _ _ _ => rw [other] at status; rcases status with h | h <;> cases h
    | reported other _ _ _ => rw [other] at status; rcases status with h | h <;> cases h
    | final _ _ _ headless run =>
      rw [List.flatten_cons, run]
      simp [Feeding.heads, Feeding.called, headless]

/-! ### What the byte run leaves -/

/-- **A message reports its header section at most once.** -/
theorem byteRun_heads (bytes : Bytes) : ∀ p : RequestParser, Coherent p.toParserFields →
    p.status ≠ .headersComplete → (byteRun p bytes).2.1.length ≤ 1 ∧
      (p.state.isHeader = false → (byteRun p bytes).2.1 = []) := by
  induction bytes with
  | nil => exact fun p _ _ => ⟨Nat.zero_le 1, fun _ => rfl⟩
  | cons c rest ih =>
    intro p coherent cleared
    by_cases final : p.state.isFinal = true
    · rw [byteRun_final _ final]
      exact ⟨Nat.zero_le 1, fun _ => rfl⟩
    have next := feedByte_coherent c coherent cleared
    rw [byteRun_cons c rest (by simpa using final)]
    by_cases reported : (feedByte p c).status = .headersComplete
    · rw [if_pos reported]
      -- the report leaves the parser past its header section
      have place : (feedByte p c).state.isHeader = false := by
        rcases (next.reported reported) with h | h <;> rw [h] <;> rfl
      obtain ⟨state, shape⟩ := clearHeadersComplete_shape (feedByte p c).toParserFields
      have quiet := (ih ((feedByte p c).onFields clearHeadersComplete)
        (clearHeadersComplete_coherent next) (clearHeadersComplete_cleared _)).2
        (by rw [onFields_toParserFields, shape]; exact place)
      refine ⟨by simp [quiet], fun past => ?_⟩
      exact absurd reported (feedByte_past c ⟨past, cleared⟩).status
    · rw [if_neg reported]
      refine ⟨(ih _ next reported).1, fun past => (ih _ next reported).2 ?_⟩
      exact (feedByte_past c ⟨past, cleared⟩).state

theorem byteRun_cleared (bytes : Bytes) : ∀ p : RequestParser, p.status ≠ .headersComplete →
    (byteRun p bytes).1.status ≠ .headersComplete := by
  induction bytes with
  | nil => exact fun p cleared => cleared
  | cons c rest ih =>
    intro p cleared
    by_cases final : p.state.isFinal = true
    · rw [byteRun_final _ final]
      exact cleared
    · rw [byteRun_cons c rest (by simpa using final)]
      split
      · exact ih _ (clearHeadersComplete_cleared _)
      · next open1 => exact ih _ open1

/-- **A byte run leaves input only where the parser is finished.** -/
theorem byteRun_rest (bytes : Bytes) : ∀ p : RequestParser,
    (byteRun p bytes).2.2 = [] ∨ (byteRun p bytes).1.state.isFinal = true := by
  induction bytes with
  | nil => exact fun p => .inl rfl
  | cons c rest ih =>
    intro p
    by_cases final : p.state.isFinal = true
    · rw [byteRun_final _ final]
      exact .inr final
    · rw [byteRun_cons c rest (by simpa using final)]
      split
      · exact ih _
      · exact ih _

/-! ### What the calls say -/

theorem Fed.coherent {p : RequestParser} {segments : List Bytes} {feeding : Feeding}
    (fed : Fed p segments feeding) (coherent : Coherent p.toParserFields) :
    Coherent feeding.parser.toParserFields := by
  induction fed with
  | nil p => exact coherent
  | needMore _ _ ih => exact ih (feedRequestBytes_coherent _ coherent)
  | reported _ _ ih => exact ih (feedRequestBytes_coherent _ coherent)
  | final _ => exact feedRequestBytes_coherent _ coherent

/-- A head is reported with the status `kHeadersComplete` and with no other. -/
theorem feedRequestBytes_head {p : RequestParser} (bytes : Bytes) :
    (feedRequestBytes p bytes).2.status = .headersComplete ↔
      (feedRequestBytes p bytes).2.head ≠ none := by
  show ParserFields.status _ = .headersComplete ↔ (if _ then _ else none) ≠ none
  split
  · next reported => exact ⟨fun _ empty => Option.some_ne_none _ empty, fun _ => reported⟩
  · next cleared => exact ⟨fun reported => absurd reported cleared, fun some => absurd rfl some⟩

/-- What holds of every call: one that asks for more has taken all of its segment, and the head comes
with `kHeadersComplete`. -/
def FeedCall.Sound (call : FeedCall) : Prop :=
  (call.result.status = .needMore → call.result.acceptedBytes = call.offered.length) ∧
    (call.result.status = .headersComplete ↔ call.result.head ≠ none)

theorem feedRequestBytes_sound {p : RequestParser} (segment : Bytes)
    (coherent : Coherent p.toParserFields) :
    FeedCall.Sound ⟨segment, (feedRequestBytes p segment).2⟩ :=
  ⟨fun status => (feedRequestBytes_needMore segment coherent status).1, feedRequestBytes_head segment⟩

theorem Fed.sound {p : RequestParser} {segments : List Bytes} {feeding : Feeding}
    (fed : Fed p segments feeding) (coherent : Coherent p.toParserFields) :
    ∀ call ∈ feeding.calls, call.Sound := by
  induction fed with
  | nil p => exact fun call member => absurd member (List.not_mem_nil)
  | needMore _ _ ih =>
    exact List.forall_mem_cons.mpr
      ⟨feedRequestBytes_sound _ coherent, ih (feedRequestBytes_coherent _ coherent)⟩
  | reported _ _ ih =>
    exact List.forall_mem_cons.mpr
      ⟨feedRequestBytes_sound _ coherent, ih (feedRequestBytes_coherent _ coherent)⟩
  | final _ => exact List.forall_mem_singleton.mpr (feedRequestBytes_sound _ coherent)

/-- **The bytes the parser counts are the bytes all calls accepted**, at every call. -/
theorem Fed.requestBytes {p : RequestParser} {segments : List Bytes} {feeding : Feeding}
    (fed : Fed p segments feeding) (coherent : Coherent p.toParserFields) :
    feeding.parser.requestBytes = p.requestBytes + feeding.accepted ∧
      ∀ before call after, feeding.calls = before ++ call :: after →
        call.result.requestBytes = p.requestBytes
          + (before.map (·.result.acceptedBytes)).sum + call.result.acceptedBytes := by
  have step : ∀ {p : RequestParser} {segment : Bytes} {later : Feeding},
      Coherent p.toParserFields →
      (later.parser.requestBytes = (feedRequestBytes p segment).1.requestBytes + later.accepted ∧
        ∀ before call after, later.calls = before ++ call :: after →
          call.result.requestBytes = (feedRequestBytes p segment).1.requestBytes
            + (before.map (·.result.acceptedBytes)).sum + call.result.acceptedBytes) →
      (later.called ⟨segment, (feedRequestBytes p segment).2⟩).parser.requestBytes
          = p.requestBytes + (later.called ⟨segment, (feedRequestBytes p segment).2⟩).accepted ∧
        ∀ before call after,
          (later.called ⟨segment, (feedRequestBytes p segment).2⟩).calls = before ++ call :: after →
          call.result.requestBytes = p.requestBytes
            + (before.map (·.result.acceptedBytes)).sum + call.result.acceptedBytes := by
    rintro p segment later coherent ⟨total, each⟩
    have counted := feedRequestBytes_requestBytes segment coherent
    refine ⟨?_, fun before call after split => ?_⟩
    · show later.parser.requestBytes = _
      rw [total, counted]
      simp only [Feeding.accepted, Feeding.called, List.map_cons, List.sum_cons]
      omega
    · cases before with
      | nil =>
        obtain ⟨rfl, -⟩ := List.cons.inj split
        exact counted
      | cons first before =>
        obtain ⟨rfl, rest⟩ := List.cons.inj split
        rw [each before call after rest, counted]
        simp only [List.map_cons, List.sum_cons]
        omega
  induction fed with
  | nil p =>
    refine ⟨rfl, fun before call after split => ?_⟩
    exact absurd split.symm (by simp)
  | needMore _ _ ih => exact step coherent (ih (feedRequestBytes_coherent _ coherent))
  | reported _ _ ih => exact step coherent (ih (feedRequestBytes_coherent _ coherent))
  | final _ =>
    refine step coherent ⟨rfl, fun before call after split => ?_⟩
    exact absurd split.symm (by simp)

theorem feedRequestBytes_accepted {p : RequestParser} (segment : Bytes)
    (coherent : Coherent p.toParserFields) :
    (feedRequestBytes p segment).2.acceptedBytes ≤ segment.length := by
  rw [feedRequestBytes_eq segment coherent]
  exact Nat.sub_le _ _

/-- **What is left is the input after the accepted bytes.** -/
theorem Fed.rest {p : RequestParser} {segments : List Bytes} {feeding : Feeding}
    (fed : Fed p segments feeding) (coherent : Coherent p.toParserFields) :
    feeding.accepted ≤ segments.flatten.length ∧
      feeding.rest = segments.flatten.drop feeding.accepted := by
  induction fed with
  | nil p => exact ⟨le_rfl, rfl⟩
  | @needMore p segment segments later status _ ih =>
    obtain ⟨short, left⟩ := ih (feedRequestBytes_coherent _ coherent)
    have all := (feedRequestBytes_needMore segment coherent status).1
    refine ⟨?_, ?_⟩
    · simpa [Feeding.accepted, Feeding.called, all] using short
    · show later.rest = _
      rw [left]
      simp [Feeding.accepted, Feeding.called, all]
  | @reported p segment segments later status _ ih =>
    obtain ⟨short, left⟩ := ih (feedRequestBytes_coherent _ coherent)
    have bound := feedRequestBytes_accepted segment coherent
    rw [List.flatten_cons, ← List.drop_append_of_le_length bound] at short left
    refine ⟨?_, ?_⟩
    · simp only [Feeding.accepted, Feeding.called, List.length_drop, List.length_append,
        List.map_cons, List.sum_cons, List.flatten_cons] at short ⊢
      omega
    · show later.rest = _
      rw [left, List.drop_drop]
      rfl
  | @final p segment segments status =>
    have bound := feedRequestBytes_accepted segment coherent
    refine ⟨?_, ?_⟩
    · simp only [Feeding.accepted, Feeding.called, List.length_append, List.map_cons, List.sum_cons,
        List.flatten_cons, List.map_nil, List.sum_nil]
      omega
    · show segment.drop _ ++ segments.flatten = _
      rw [List.flatten_cons, ← List.drop_append_of_le_length bound]
      rfl

/-- The last answer is that of the parser as it is left. -/
theorem Fed.last {p : RequestParser} {segments : List Bytes} {feeding : Feeding}
    (fed : Fed p segments feeding) (some : segments ≠ []) :
    ∃ accepted, feeding.last = buildFeedResult feeding.parser accepted := by
  have later : ∀ {call : FeedCall} {feeding : Feeding}, feeding.calls ≠ [] →
      (feeding.called call).last = feeding.last := by
    intro call feeding some
    unfold Feeding.last Feeding.called
    cases calls : feeding.calls with
    | nil => exact absurd calls some
    | cons first rest => rfl
  have called : ∀ {p : RequestParser} {segments : List Bytes} {feeding : Feeding},
      Fed p segments feeding → segments ≠ [] → feeding.calls ≠ [] := by
    intro p segments feeding fed some
    cases fed with
    | nil => exact absurd rfl some
    | needMore => exact List.cons_ne_nil _ _
    | reported => exact List.cons_ne_nil _ _
    | final => exact List.cons_ne_nil _ _
  induction fed with
  | nil p => exact absurd rfl some
  | @needMore p segment segments feeding _ fed ih =>
    cases segments with
    | nil =>
      cases fed
      exact ⟨_, rfl⟩
    | cons next segments =>
      rw [later (called fed (List.cons_ne_nil _ _))]
      exact ih (List.cons_ne_nil _ _)
  | reported _ fed ih =>
    rw [later (called fed (List.cons_ne_nil _ _))]
    exact ih (List.cons_ne_nil _ _)
  | final _ => exact ⟨_, rfl⟩

/-! ### A new parser -/

theorem feedAll_fed (segments : List Bytes) : Fed {} segments (feedAll segments) :=
  feedSegments_fed _ _ _ coherent_initial le_rfl

/-- **A new parser fed in any cut is the byte run of the input.** -/
theorem feedAll_run (segments : List Bytes) :
    byteRun {} segments.flatten
      = ((feedAll segments).parser, (feedAll segments).heads, (feedAll segments).rest) :=
  (feedAll_fed segments).run coherent_initial fun _ reported => by cases reported

theorem feedAll_cleared (segments : List Bytes) :
    (feedAll segments).parser.status ≠ .headersComplete := by
  have run := byteRun_cleared segments.flatten {} fun reported => by cases reported
  rw [feedAll_run] at run
  exact run

/-- The last answer of a feeding is that of its parser, also where nothing was offered. -/
theorem feedAll_last (segments : List Bytes) :
    ∃ accepted, (feedAll segments).last = buildFeedResult (feedAll segments).parser accepted := by
  cases segments with
  | nil => exact ⟨0, rfl⟩
  | cons segment segments => exact (feedAll_fed _).last (List.cons_ne_nil _ _)

theorem feedAll_status (segments : List Bytes) :
    (feedAll segments).last.status = .needMore ∨ (feedAll segments).last.status = .complete ∨
      (feedAll segments).last.status.isError = true := by
  obtain ⟨accepted, last⟩ := feedAll_last segments
  have coherent := (feedAll_fed segments).coherent coherent_initial
  rw [last]
  by_cases final : (feedAll segments).parser.state.isFinal = true
  · exact .inr (coherent.isFinal_iff.mp final)
  · exact .inl (coherent.needMore (by simpa using final) (feedAll_cleared segments))

/-- **Segmentation independence.** For any cut of the input and for the input in one piece the
parser ends in the same state, with the same status and request, the same head at the same offset,
the same number of accepted bytes, which is `requestBytes_` at every call, and the same rest. A call
that asks for more has taken all it was offered, and a finished parser repeats its answer and takes
nothing. -/
theorem feedAll_segmentation (segments : List Bytes) :
    let cut := feedAll segments
    let whole := feedAll [segments.flatten]
    cut.parser = whole.parser ∧
    cut.last.status = whole.last.status ∧
    cut.last.request = whole.last.request ∧
    (cut.last.status = .needMore ∨ cut.last.status = .complete ∨ cut.last.status.isError = true) ∧
    cut.heads = whole.heads ∧ cut.heads.length ≤ 1 ∧
    cut.accepted = whole.accepted ∧ cut.accepted = cut.last.requestBytes ∧
    cut.rest = whole.rest ∧ cut.rest = segments.flatten.drop cut.accepted ∧
    (cut.last.status = .needMore → cut.accepted = segments.flatten.length) ∧
    (∀ before call after, cut.calls = before ++ call :: after →
      call.result.requestBytes = ((before ++ [call]).map (·.result.acceptedBytes)).sum) ∧
    (∀ call ∈ cut.calls, call.result.status = .headersComplete ↔ call.result.head ≠ none) ∧
    (∀ call ∈ cut.calls, call.result.status = .needMore →
      call.result.acceptedBytes = call.offered.length) ∧
    (cut.last.status = .complete ∨ cut.last.status.isError = true → ∀ bytes,
      feedRequestBytes cut.parser bytes = (cut.parser, { cut.last with acceptedBytes := 0 })) := by
  have one : [segments.flatten].flatten = segments.flatten := by simp
  have run := feedAll_run segments
  have same := feedAll_run [segments.flatten]
  rw [one, run] at same
  obtain ⟨parser, heads, rest⟩ := (by simpa only [Prod.mk.injEq] using same :
    (feedAll segments).parser = _ ∧ (feedAll segments).heads = _ ∧ (feedAll segments).rest = _)
  obtain ⟨_, last⟩ := feedAll_last segments
  obtain ⟨_, lastWhole⟩ := feedAll_last [segments.flatten]
  obtain ⟨total, each⟩ := (feedAll_fed segments).requestBytes coherent_initial
  obtain ⟨totalWhole, _⟩ := (feedAll_fed [segments.flatten]).requestBytes coherent_initial
  have coherent := (feedAll_fed segments).coherent coherent_initial
  have sound := (feedAll_fed segments).sound coherent_initial
  obtain ⟨short, left⟩ := (feedAll_fed segments).rest coherent_initial
  have once := (byteRun_heads segments.flatten {} coherent_initial fun reported => by cases reported).1
  rw [run] at once
  refine ⟨parser, ?_, ?_, feedAll_status segments, heads, once, ?_, ?_, rest, left, ?_, ?_, ?_, ?_, ?_⟩
  · rw [last, lastWhole, parser]
    rfl
  · rw [last, lastWhole, parser]
    rfl
  · rw [parser, totalWhole] at total
    simpa using total.symm
  · rw [last]
    show _ = (feedAll segments).parser.requestBytes
    simpa using total.symm
  · intro waiting
    refine le_antisymm short (List.drop_eq_nil_iff.mp ?_)
    rw [← left]
    have stop := byteRun_rest segments.flatten {}
    rw [run] at stop
    refine stop.resolve_right fun final => ?_
    rw [last] at waiting
    rcases coherent.isFinal_iff.mp final with h | h <;>
      rw [show (feedAll segments).parser.status = .needMore from waiting] at h <;> cases h
  · intro before call after split
    rw [each before call after split]
    simp
  · exact fun call member => (sound call member).2
  · exact fun call member => (sound call member).1
  · intro final bytes
    rw [last] at final ⊢
    rw [feedRequestBytes_final bytes coherent (coherent.isFinal_iff.mpr final)]
    rfl

/-- A feeding in one piece ends with the first call, or with the second where the first reports. -/
theorem Fed.last_one {p : RequestParser} {bytes : Bytes} {feeding : Feeding}
    (fed : Fed p [bytes] feeding) (once : feeding.heads.length ≤ 1) :
    feeding.last =
      if (feedRequestBytes p bytes).2.status = .headersComplete then
        (feedRequestBytes (feedRequestBytes p bytes).1
          (bytes.drop (feedRequestBytes p bytes).2.acceptedBytes)).2
      else (feedRequestBytes p bytes).2 := by
  cases fed with
  | needMore status fed =>
    cases fed
    rw [status, if_neg (by decide)]
    rfl
  | reported status fed =>
    rw [if_pos status]
    cases fed with
    | needMore _ fed =>
      cases fed
      rfl
    | reported again _ =>
      obtain ⟨first, one⟩ := Option.ne_none_iff_exists'.mp ((feedRequestBytes_head _).mp status)
      obtain ⟨second, two⟩ := Option.ne_none_iff_exists'.mp ((feedRequestBytes_head _).mp again)
      simp [Feeding.heads, Feeding.called, one, two] at once
    | final _ => rfl
  | final status =>
    rw [if_neg fun reported => by rw [reported] at status; rcases status with h | h <;> cases h]
    rfl

/-- **`parseRequest` is the whole input offered in one piece.** -/
theorem parseRequest_eq_feedAll (bytes : Bytes) :
    parseRequest bytes =
      { status := (feedAll [bytes]).last.status
        request := (feedAll [bytes]).last.request
        consumedBytes :=
          if (feedAll [bytes]).last.status = .complete then (feedAll [bytes]).last.requestBytes
          else 0 } := by
  have once := (byteRun_heads bytes {} coherent_initial fun reported => by cases reported).1
  have run := feedAll_run [bytes]
  rw [List.flatten_singleton] at run
  rw [run] at once
  rw [(feedAll_fed [bytes]).last_one once]
  rfl

end HpServer.Http
