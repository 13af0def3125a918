/-
**The parser one byte at a time.**

`feedRequestBytes` mixes bytewise turns with bulk copies of body bytes. `feedByte` is the same
parser with every copy cut down to one byte, and `byteLoop` is its loop.

* `ByteStep` — **what one byte can do**: a turn on a line (`Turn`), or a byte of the body.
  `feedByte_of_turn` is the rule by which an invariant is shown for every byte.
* `Coherent` — what every reachable parser satisfies: the status agrees with the state, and a state
  that copies body bytes has a byte to copy. Kept by every byte (`feedByte_coherent`).
* `feedLoop_eq_byteLoop` — **on a coherent parser the loop of the source is the byte loop**, so a
  turn that takes no byte never happens and the loop ends by its own exit conditions.
-/

import HpServer.Http.HttpRequest

namespace HpServer.Http

/-- An error status. -/
def ParseStatus.isError : ParseStatus → Bool
  | .badRequest | .payloadTooLarge | .expectationFailed | .notImplemented => true
  | _ => false

/-- `kComplete` and `kError`, where the loop of `feedRequestBytes` stops. -/
def ParserState.isFinal : ParserState → Bool
  | .complete | .error => true
  | _ => false

/-- The states of the header section. -/
def ParserState.isHeader : ParserState → Bool
  | .requestLine | .headers => true
  | _ => false

/-- **The status agrees with the state, and copying states have something to copy.** -/
structure Coherent (f : ParserFields) : Prop where
  live : f.state.isFinal = false → f.status = .needMore ∨
    (f.status = .headersComplete ∧ (f.state = .body ∨ f.state = .chunkSize))
  complete : f.state = .complete → f.status = .complete
  error : f.state = .error → f.status.isError = true
  header : f.state.isHeader = true → f.body = []
  body : f.state = .body → f.body.length < f.contentLength
  chunkData : f.state = .chunkData → 0 < f.chunkRemaining

theorem coherent_initial : Coherent {} where
  live _ := .inl rfl
  complete isComplete := by cases isComplete
  error isError := by cases isError
  header _ := rfl
  body isBody := by cases isBody
  chunkData isData := by cases isData

@[simp] theorem onFields_toParserFields (p : RequestParser) (change : ParserFields → ParserFields) :
    (p.onFields change).toParserFields = change p.toParserFields := rfl

@[simp] theorem onFields_storage (p : RequestParser) (change : ParserFields → ParserFields) :
    (p.onFields change).storage = p.storage := rfl

/-- One byte of input. -/
def feedByte (p : RequestParser) (c : UInt8) : RequestParser :=
  match p.state with
  | .complete | .error => p
  | .body => (appendBody p [c]).1
  | .chunkData => (appendChunk p [c]).1
  | .chunkSize | .chunkDataCrlf | .trailers => feedMetadataByte p c
  | .requestLine | .headers => feedHeaderByte p c

/-- The loop of `feedRequestBytes` byte by byte. -/
def byteLoop : RequestParser → Bytes → RequestParser × Bytes
  | p, [] => (p, [])
  | p, c :: rest =>
    if p.state.isFinal then (p, c :: rest)
    else if (feedByte p c).status = .headersComplete then (feedByte p c, rest)
    else byteLoop (feedByte p c) rest

/-- The framing rules `finishHeaders` checks first. -/
def HeaderFields.framed (h : HeaderFields) : Bool :=
  h.hostSeen && !(h.transferEncodingSeen && h.contentLengthSeen)
    && !(h.trailerDeclarationSeen && !h.transferEncodingSeen)

/-- The refusals of a well-framed header section, in the order of the source. -/
def HeaderFields.refusal (h : HeaderFields) : Option ParseStatus :=
  if h.contentLength > kMaxBodyBytes then some .payloadTooLarge
  else if h.unsupportedCoding then some .notImplemented
  else if h.expectSeen && !h.expectContinue then some .expectationFailed
  else none

/-- The state a body of the collected framing starts in. -/
def HeaderFields.bodyState (h : HeaderFields) : ParserState :=
  if h.transferEncodingSeen then .chunkSize
  else if h.contentLength ≠ 0 then .body
  else .complete

/-- The status with which the parser gets past the blank line. -/
def HeaderFields.bodyStatus (h : HeaderFields) : ParseStatus :=
  if h.bodyState = .complete then .complete
  else if h.expectContinue then .headersComplete
  else .needMore

theorem refusal_isError {h : HeaderFields} {status : ParseStatus} (refused : h.refusal = some status) :
    status.isError = true := by
  unfold HeaderFields.refusal at refused
  split_ifs at refused <;> cases refused <;> rfl

/-- **What the blank line does**: bad framing, a refusal, or the state of the body. -/
theorem finishHeaders_eq {f : ParserFields} (needMore : f.status = .needMore) :
    finishHeaders f =
      if !f.toHeaderFields.framed then { f with state := .error }
      else match f.toHeaderFields.refusal with
        | some status => { f with state := .error, status := status }
        | none =>
          { f with
            state := f.toHeaderFields.bodyState, status := f.toHeaderFields.bodyStatus } := by
  have framed : (!f.hostSeen || (f.transferEncodingSeen && f.contentLengthSeen)
      || (f.trailerDeclarationSeen && !f.transferEncodingSeen)) = !f.toHeaderFields.framed := by
    simp [HeaderFields.framed, Bool.or_assoc]
  unfold finishHeaders
  rw [framed]
  by_cases bad : f.toHeaderFields.framed = true
  · simp only [bad, Bool.not_true, Bool.false_eq_true, if_false]
    unfold HeaderFields.refusal
    by_cases large : f.contentLength > kMaxBodyBytes
    · simp [large]
    by_cases coding : f.unsupportedCoding = true
    · simp [large, coding]
    by_cases expectation : (f.expectSeen && !f.expectContinue) = true
    · simp [large, coding, expectation]
    simp only [large, coding, expectation, if_false, needMore, ne_eq]
    unfold HeaderFields.bodyStatus HeaderFields.bodyState finishRequest
    by_cases chunked : f.transferEncodingSeen = true
    · simp [chunked]
    by_cases length : f.contentLength = 0
    · simp [chunked, length]
    · simp [chunked, length]
  · simp [bad]

/-- The blank line changes the state and the status only. -/
theorem finishHeaders_shape (f : ParserFields) :
    ∃ state status, finishHeaders f = { f with state := state, status := status } := by
  unfold finishHeaders finishRequest
  dsimp only
  split_ifs <;> exact ⟨_, _, rfl⟩

/-- A size line changes the state, the status, the size left and the step count only. -/
theorem validateChunkSize_shape (line : Bytes) (f : ParserFields) :
    ∃ state status chunkRemaining, validateChunkSize line f =
      { f with
        state := state
        status := status
        chunkRemaining := chunkRemaining
        scanSteps := f.scanSteps + line.length } := by
  unfold validateChunkSize
  dsimp only
  split
  · exact ⟨_, _, _, rfl⟩
  · split_ifs <;> exact ⟨_, _, _, rfl⟩

/-- **A trailer line is checked and not kept.** -/
theorem validateHeader_trailers (line : Bytes) (h : HeaderFields) :
    (validateHeader line true h).value.2 = h := by
  unfold validateHeader
  simp only [Counted.bind_value, Counted.ite_value, Counted.pure_value, if_true]
  split_ifs <;> rfl

/-! ### What one byte can do -/

/-- The states of the bytes around chunk data. -/
def ParserState.isMetadata : ParserState → Bool
  | .chunkSize | .chunkDataCrlf | .trailers => true
  | _ => false

theorem isMetadata_past_live {state : ParserState} (isMetadata : state.isMetadata = true) :
    state.isHeader = false ∧ state.isFinal = false := by
  cases state <;> first | exact ⟨rfl, rfl⟩ | cases isMetadata

theorem isHeader_live {state : ParserState} (isHeader : state.isHeader = true) :
    state.isFinal = false := by
  cases state <;> first | rfl | cases isHeader

/-- The counters of one byte that is not copied. -/
def ParserFields.counted (f : ParserFields) : ParserFields :=
  { f with
    requestBytes := f.requestBytes + 1
    scanSteps := f.scanSteps + 1
    headerBytes := if f.state.isHeader then f.headerBytes + 1 else f.headerBytes
    metadataBytes := if f.state.isHeader then f.metadataBytes else f.metadataBytes + 1
    trailerBytes := if f.state = .trailers then f.trailerBytes + 1 else f.trailerBytes
    chunkLineBytes := if f.state = .chunkSize then f.chunkLineBytes + 1 else f.chunkLineBytes }

/-- What the check of a line adds to the work counter. -/
inductive Checked (p : RequestParser) : Nat → Prop
  | none : Checked p 0
  | requestLine : Checked p (validateRequestLine (slice p.storage 0 p.lineSize)).steps
  | field (trailers : Bool) (h : HeaderFields) : Checked p (validateHeader p.line trailers h).steps
  | size : Checked p p.line.length

/-- **One turn on a line**, from the parser with its counters moved to the parser before the limit on the header
section is looked at and before a new `kError` has its status. -/
inductive Turn (p : RequestParser) (c : UInt8) : RequestParser → Prop
  | refused {h : HeaderFields} {n size chunkLineBytes : Nat} {pendingCr : Bool} {status : ParseStatus}
      (kept : h = p.toHeaderFields
        ∨ p.state = .headers ∧ h = (validateHeader p.line false p.toHeaderFields).value.2)
      (work : Checked p n) (shorter : size ≤ p.lineSize) (smaller : chunkLineBytes ≤ p.chunkLineBytes)
      (known : status = p.status ∨ status.isError = true) :
      Turn p c (p.onFields fun f => { f with
        toHeaderFields := h
        scanSteps := f.scanSteps + n
        lineSize := size
        chunkLineBytes := chunkLineBytes
        pendingCr := pendingCr
        state := .error
        status := status })
  | cr (notCrlf : p.state ≠ .chunkDataCrlf) : Turn p c (p.onFields fun f => { f with pendingCr := true })
  | stored (peak : Nat) (notCrlf : p.state ≠ .chunkDataCrlf) (plain : c ≠ HpServer.cr ∧ c ≠ lf ∧ c ≠ nul)
      (short : p.state = .requestLine → p.lineSize ≠ kMaxRequestLineBytes)
      (room : p.state.isHeader = true ∨ p.lineStart + p.lineSize ≠ kMaxHeaderBytes) :
      Turn p c ((p.store c).onFields fun f => { f with peakBuffered := peak })
  | requestLine {cut : RequestLineCut} (isLine : p.state = .requestLine)
      (valid : (validateRequestLine (slice p.storage 0 p.lineSize)).value = some cut) :
      Turn p c (p.onFields fun f => { f with
        scanSteps := f.scanSteps + (validateRequestLine (slice p.storage 0 p.lineSize)).steps
        methodSize := cut.methodSize
        targetStart := cut.targetStart
        targetSize := cut.targetSize
        headRequest := cut.headRequest
        lineStart := f.lineSize
        state := .headers
        lineSize := 0
        pendingCr := false })
  | field (kind : p.state = .headers ∨ p.state = .trailers) :
      Turn p c (p.onFields fun f => { f with
        toHeaderFields := (validateHeader p.line (p.state = .trailers) p.toHeaderFields).value.2
        scanSteps := f.scanSteps + (validateHeader p.line (p.state = .trailers) p.toHeaderFields).steps
        lineSize := 0
        pendingCr := false })
  | headersEnd (isHeaders : p.state = .headers) (needMore : p.status = .needMore)
      (framed : p.toHeaderFields.framed = true) (admitted : p.toHeaderFields.refusal = .none) :
      Turn p c (p.onFields fun f => { f with
        state := f.toHeaderFields.bodyState
        status := f.toHeaderFields.bodyStatus
        lineSize := 0
        pendingCr := false })
  | size {size : Nat} (isSize : p.state = .chunkSize) (fits : size ≤ kMaxBodyBytes - p.body.length) :
      Turn p c (p.onFields fun f => { f with
        scanSteps := f.scanSteps + p.line.length
        chunkRemaining := size
        state := if size = 0 then .trailers else .chunkData
        chunkLineBytes := 0
        lineSize := 0
        pendingCr := false })
  | trailersEnd (isTrailers : p.state = .trailers) :
      Turn p c (p.onFields fun f => { f with
        state := .complete
        status := .complete
        lineSize := 0
        pendingCr := false })
  | dataCr (isCrlf : p.state = .chunkDataCrlf) (first : p.dataCrlfBytes ≠ 1) :
      Turn p c (p.onFields fun f => { f with dataCrlfBytes := f.dataCrlfBytes + 1 })
  | dataLf (isCrlf : p.state = .chunkDataCrlf) :
      Turn p c (p.onFields fun f => { f with dataCrlfBytes := 0, chunkLineBytes := 0, state := .chunkSize })

/-- The end of the header section: an error, or the state of the body. -/
theorem finishHeaders_cases (f : ParserFields) :
    (∃ status, finishHeaders f = { f with state := .error, status := status }
      ∧ (status = f.status ∨ status.isError = true))
    ∨ f.status = .needMore ∧ f.toHeaderFields.framed = true ∧ f.toHeaderFields.refusal = none
      ∧ finishHeaders f
        = { f with state := f.toHeaderFields.bodyState, status := f.toHeaderFields.bodyStatus } := by
  by_cases needMore : f.status = .needMore
  · rw [finishHeaders_eq needMore]
    by_cases framed : f.toHeaderFields.framed = true
    · cases refusal : f.toHeaderFields.refusal with
      | none => exact .inr ⟨needMore, framed, rfl, by simp [framed]⟩
      | some status => exact .inl ⟨status, by simp [framed], .inr (refusal_isError refusal)⟩
    · exact .inl ⟨f.status, by simp [framed], .inl rfl⟩
  · refine .inl ?_
    unfold finishHeaders
    dsimp only
    split
    · exact ⟨f.status, rfl, .inl rfl⟩
    · have late : (if f.contentLength > kMaxBodyBytes then ParseStatus.payloadTooLarge
          else if f.unsupportedCoding = true then .notImplemented
          else if (f.expectSeen && !f.expectContinue) = true then .expectationFailed else f.status) ≠ .needMore := by
        split_ifs <;> first | decide | exact needMore
      rw [if_pos late]
      refine ⟨_, rfl, ?_⟩
      split_ifs <;> first | exact .inr rfl | exact .inl rfl

/-- The end of a field line, in the header section or among the trailers. -/
theorem acceptHeader_turn {p : RequestParser} (c : UInt8) (kind : p.state = .headers ∨ p.state = .trailers) :
    Turn p c (p.onFields fun f => { acceptHeader p.line { f with pendingCr := false } with lineSize := 0 }) := by
  have whole : p.onFields (fun f => { acceptHeader p.line { f with pendingCr := false } with lineSize := 0 })
      = p.onFields fun f => { f with
        toHeaderFields := (validateHeader p.line (p.state = .trailers) p.toHeaderFields).value.2
        scanSteps := f.scanSteps + (validateHeader p.line (p.state = .trailers) p.toHeaderFields).steps
        lineSize := 0
        pendingCr := false
        state := if (validateHeader p.line (p.state = .trailers) p.toHeaderFields).value.1 then p.state else .error } :=
    rfl
  rw [whole]
  by_cases ok : (validateHeader p.line (p.state = .trailers) p.toHeaderFields).value.1 = true
  · rw [if_pos ok]
    exact .field kind
  · rw [if_neg ok]
    refine .refused ?_ (.field _ _) (Nat.zero_le _) le_rfl (.inl rfl)
    rcases kind with isHeaders | isTrailers
    · exact .inr ⟨isHeaders, by rw [isHeaders]; rfl⟩
    · rw [isTrailers]
      exact .inl (validateHeader_trailers _ _)

theorem takeHeaderByte_turn {p : RequestParser} (c : UInt8) (isHeader : p.state.isHeader = true) :
    Turn p c (takeHeaderByte p c) := by
  have notCrlf : p.state ≠ .chunkDataCrlf := fun same => by rw [same] at isHeader; cases isHeader
  have refused : ∀ pendingCr, Turn p c (p.onFields fun f => { f with pendingCr := pendingCr, state := .error }) :=
    fun pendingCr => .refused (.inl rfl) .none le_rfl le_rfl (.inl rfl)
  unfold takeHeaderByte
  dsimp only
  split
  · split
    · exact refused false
    · unfold finishLine finishLineFields
      by_cases isLine : p.state = .requestLine
      · show Turn p c (p.onFields fun f => if p.state = .requestLine then _ else _)
        rw [if_pos isLine]
        unfold acceptRequestLine
        cases valid : (validateRequestLine (slice p.storage 0 p.lineSize)).value with
        | none =>
          refine .refused (.inl rfl) .requestLine le_rfl le_rfl (.inl rfl)
        | some cut => exact .requestLine isLine valid
      · have isHeaders : p.state = .headers := by
          cases state : p.state <;> rw [state] at isHeader isLine <;>
            first | rfl | exact absurd rfl isLine | cases isHeader
        show Turn p c (p.onFields fun f => if p.state = .requestLine then _ else if p.lineSize = 0 then _ else _)
        rw [if_neg isLine]
        by_cases blank : p.lineSize = 0
        · rw [if_pos blank]
          obtain ⟨status, shape, known⟩ | ⟨needMore, framed, admitted, shape⟩ :=
            finishHeaders_cases { p.toParserFields with pendingCr := false }
          · show Turn p c (p.onFields fun f => { finishHeaders { p.toParserFields with pendingCr := false } with
              lineSize := 0 })
            rw [shape]
            exact .refused (.inl rfl) .none (Nat.zero_le _) le_rfl known
          · show Turn p c (p.onFields fun f => { finishHeaders { p.toParserFields with pendingCr := false } with
              lineSize := 0 })
            rw [shape]
            exact .headersEnd isHeaders needMore framed admitted
        · rw [if_neg blank]
          exact acceptHeader_turn c (.inl isHeaders)
  · split
    · exact .cr notCrlf
    · split
      · exact refused _
      · next notEnd =>
        split
        · exact refused _
        · next short =>
          simp only [Bool.or_eq_true, Bool.and_eq_true, decide_eq_true_eq, not_or, not_and] at notEnd short
          exact .stored _ notCrlf ⟨‹_›, notEnd⟩ short (.inl isHeader)

theorem feedDataCrlf_turn {p : RequestParser} (c : UInt8) (isCrlf : p.state = .chunkDataCrlf) :
    Turn p c (p.onFields (feedDataCrlf c)) := by
  show Turn p c { p with toParserFields := feedDataCrlf c p.toParserFields }
  unfold feedDataCrlf
  split
  · exact .refused (.inl rfl) .none le_rfl le_rfl (.inl rfl)
  · split
    · exact .dataLf isCrlf
    · next first => exact .dataCr isCrlf fun one => first (by rw [one])

/-- The end of a size line or of a trailer line. -/
theorem finishMetadataLine_turn {p : RequestParser} (c : UInt8) (kind : p.state = .chunkSize ∨ p.state = .trailers) :
    Turn p c (p.onFields fun f => finishMetadataLine p.line { f with pendingCr := false }) := by
  show Turn p c { p with toParserFields := finishMetadataLine p.line { p.toParserFields with pendingCr := false } }
  unfold finishMetadataLine
  split
  · next isSize =>
    unfold validateChunkSize
    dsimp only
    split
    · exact .refused (.inl rfl) .size (Nat.zero_le _) (Nat.zero_le _) (.inl rfl)
    · split
      · exact .refused (.inl rfl) .size (Nat.zero_le _) (Nat.zero_le _) (.inl rfl)
      · split
        · exact .refused (.inl rfl) .size (Nat.zero_le _) (Nat.zero_le _) (.inr rfl)
        · next fits => exact .size isSize (Nat.le_of_not_lt fits)
  · next notSize =>
    have isTrailers := kind.resolve_left notSize
    split
    · exact .trailersEnd isTrailers
    · exact acceptHeader_turn c (.inr isTrailers)

theorem feedChunkMetadata_turn (p : RequestParser) (c : UInt8) (isMetadata : p.state.isMetadata = true) :
    Turn (p.onFields countMetadata) c (feedChunkMetadata p c)
      ∧ ((feedChunkMetadata p c).state = .error ∨ metadataOverflow (countMetadata p.toParserFields) = false) := by
  have same : (p.onFields countMetadata).state.isMetadata = true := isMetadata
  have overflow : metadataOverflow (countMetadata p.toParserFields)
      = metadataOverflow (p.onFields countMetadata).toParserFields := rfl
  unfold feedChunkMetadata
  rw [overflow]
  generalize p.onFields countMetadata = r at same ⊢
  have refused : ∀ pendingCr, Turn r c (r.onFields fun f => { f with pendingCr := pendingCr, state := .error }) :=
    fun pendingCr => .refused (.inl rfl) .none le_rfl le_rfl (.inl rfl)
  dsimp only
  split
  · exact ⟨refused _, .inl rfl⟩
  next within =>
  refine ⟨?_, .inr (by simpa using within)⟩
  split
  · next isCrlf => exact feedDataCrlf_turn c isCrlf
  next notCrlf =>
  have kind : r.state = .chunkSize ∨ r.state = .trailers := by
    cases state : r.state <;> rw [state] at same notCrlf <;>
      first | exact .inl rfl | exact .inr rfl | exact absurd rfl notCrlf | cases same
  split
  · split
    · exact refused _
    · exact finishMetadataLine_turn c kind
  split
  · exact .cr notCrlf
  split
  · exact refused _
  next notCr notEnd =>
  simp only [Bool.or_eq_true, decide_eq_true_eq, not_or] at notEnd
  refine .stored r.peakBuffered notCrlf ⟨notCr, notEnd.1⟩ (fun isLine => ?_) (.inr notEnd.2)
  rcases kind with h | h <;> rw [h] at isLine <;> cases isLine

/-- The end of a turn: an error gets its status, and a header section may be over its limit. -/
inductive Settled (q : RequestParser) : RequestParser → Prop
  | kept (live : q.state ≠ .error) : Settled q q
  | failed {status : ParseStatus} (stops : q.state = .error ∨ q.state.isHeader = true)
      (known : q.status = .needMore ∨ q.status.isError = true → status.isError = true)
      (silent : q.status ≠ .headersComplete → status ≠ .headersComplete) :
      Settled q (q.onFields fun f => { f with state := .error, status := status })

theorem Settled.of_error {q : RequestParser} (isError : q.state = .error) {status : ParseStatus}
    (known : q.status = .needMore ∨ q.status.isError = true → status.isError = true)
    (silent : q.status ≠ .headersComplete → status ≠ .headersComplete) :
    Settled q (q.onFields fun f => { f with status := status }) := by
  have same : (q.onFields fun f => { f with status := status })
      = q.onFields fun f => { f with state := .error, status := status } := by
    unfold RequestParser.onFields
    rw [← isError]
  rw [same]
  exact .failed (.inl isError) known silent

/-- The checks behind a header byte. -/
theorem checkHeaderLimit_settled (q : RequestParser) :
    Settled q (q.onFields checkHeaderLimit)
      ∧ ((checkHeaderLimit q.toParserFields).state.isHeader = true → q.headerBytes ≠ kMaxHeaderBytes) := by
  show Settled q { q with toParserFields := checkHeaderLimit q.toParserFields } ∧ _
  have known : q.status = .needMore ∨ q.status.isError = true →
      (if q.status = .needMore || q.status = .headersComplete then ParseStatus.badRequest else q.status).isError := by
    rintro (needMore | isError)
    · rw [needMore]
      rfl
    · split
      · rfl
      · exact isError
  have silent : q.status ≠ .headersComplete →
      (if q.status = .needMore || q.status = .headersComplete then ParseStatus.badRequest else q.status)
        ≠ .headersComplete := by
    intro silent
    split
    · decide
    · exact silent
  unfold checkHeaderLimit
  dsimp only
  by_cases full : (q.headerBytes = kMaxHeaderBytes && (q.state = .requestLine || q.state = .headers)) = true
  · simp only [full, if_true, decide_true, Bool.true_and]
    refine ⟨.failed (.inr ?_) known silent, fun isHeader => by cases isHeader⟩
    simp only [Bool.and_eq_true, Bool.or_eq_true, decide_eq_true_eq] at full
    rcases full.2 with isLine | isHeaders
    · rw [isLine]
      rfl
    · rw [isHeaders]
      rfl
  simp only [full, Bool.false_eq_true, if_false]
  by_cases isError : q.state = .error
  · simp only [isError, decide_true, Bool.true_and]
    exact ⟨.failed (.inl isError) known silent, fun isHeader => by cases isHeader⟩
  · simp only [isError, decide_false, Bool.false_and, Bool.false_eq_true, if_false]
    refine ⟨.kept isError, fun isHeader filled => full ?_⟩
    rw [filled]
    cases state : q.state <;> rw [state] at isHeader <;> first | rfl | cases isHeader

/-- **What one byte can do to a parser that reads.** -/
inductive ByteStep (p : RequestParser) (c : UInt8) : RequestParser → Prop
  | line {q r : RequestParser} (turn : Turn (p.onFields ParserFields.counted) c q) (settled : Settled q r)
      (within : p.state.isHeader = true ∧ (r.state.isHeader = true → r.headerBytes ≠ kMaxHeaderBytes)
        ∨ p.state.isMetadata = true ∧ (r.state = .error ∨ metadataOverflow p.toParserFields.counted = false)) :
      ByteStep p c r
  | body (isBody : p.state = .body) : ByteStep p c (appendBody p [c]).1
  | chunkData (isData : p.state = .chunkData) : ByteStep p c (appendChunk p [c]).1

theorem counted_header {f : ParserFields} (isHeader : f.state.isHeader = true) :
    f.counted = { f with
      headerBytes := f.headerBytes + 1
      requestBytes := f.requestBytes + 1
      scanSteps := f.scanSteps + 1 } := by
  unfold ParserFields.counted
  rw [if_pos isHeader, if_pos isHeader]
  cases state : f.state <;> rw [state] at isHeader <;> first | rfl | cases isHeader

theorem counted_metadata {f : ParserFields} (isMetadata : f.state.isMetadata = true) :
    f.counted = countMetadata { f with requestBytes := f.requestBytes + 1, scanSteps := f.scanSteps + 1 } := by
  have past := (isMetadata_past_live isMetadata).1
  unfold ParserFields.counted
  rw [past]
  rfl

theorem feedHeaderByte_step {p : RequestParser} (c : UInt8) (isHeader : p.state.isHeader = true) :
    ByteStep p c (feedHeaderByte p c) := by
  have turn := takeHeaderByte_turn (p := p.onFields ParserFields.counted) c isHeader
  obtain ⟨settled, within⟩ := checkHeaderLimit_settled (takeHeaderByte (p.onFields ParserFields.counted) c)
  have same : feedHeaderByte p c
      = (takeHeaderByte (p.onFields ParserFields.counted) c).onFields checkHeaderLimit := by
    unfold RequestParser.onFields
    rw [counted_header isHeader]
    rfl
  rw [same]
  exact .line turn settled (.inl ⟨isHeader, within⟩)

theorem feedMetadataByte_step {p : RequestParser} (c : UInt8) (isMetadata : p.state.isMetadata = true) :
    ByteStep p c (feedMetadataByte p c) := by
  have same : p.onFields ParserFields.counted = ({ p with
      requestBytes := p.requestBytes + 1, scanSteps := p.scanSteps + 1 } : RequestParser).onFields countMetadata := by
    unfold RequestParser.onFields
    rw [counted_metadata isMetadata]
  obtain ⟨turn, within⟩ := feedChunkMetadata_turn { p with
    requestBytes := p.requestBytes + 1, scanSteps := p.scanSteps + 1 } c isMetadata
  rw [← same] at turn
  have overflow : metadataOverflow p.toParserFields.counted = metadataOverflow (countMetadata _) :=
    congrArg metadataOverflow (counted_metadata isMetadata)
  rw [← overflow] at within
  unfold feedMetadataByte
  dsimp only
  generalize feedChunkMetadata _ c = q at turn within ⊢
  split
  · next failed =>
    simp only [Bool.and_eq_true, decide_eq_true_eq] at failed
    exact .line turn (.of_error failed.1 (fun _ => rfl) fun _ => by decide) (.inr ⟨isMetadata, within⟩)
  · next known =>
    by_cases isError : q.state = .error
    · refine .line turn (.of_error isError (fun status => status.resolve_left fun needMore => known ?_) id)
        (.inr ⟨isMetadata, within⟩)
      rw [isError, needMore]
      rfl
    · exact .line turn (.kept isError) (.inr ⟨isMetadata, within⟩)

/-- **Every byte is one of these steps.** -/
theorem feedByte_step {p : RequestParser} (c : UInt8) (live : p.state.isFinal = false) : ByteStep p c (feedByte p c) := by
  unfold feedByte
  cases state : p.state with
  | requestLine => exact feedHeaderByte_step c (by rw [state]; rfl)
  | headers => exact feedHeaderByte_step c (by rw [state]; rfl)
  | body => exact .body state
  | chunkData => exact .chunkData state
  | chunkSize => exact feedMetadataByte_step c (by rw [state]; rfl)
  | chunkDataCrlf => exact feedMetadataByte_step c (by rw [state]; rfl)
  | trailers => exact feedMetadataByte_step c (by rw [state]; rfl)
  | complete => rw [state] at live; cases live
  | error => rw [state] at live; cases live

/-! ### Coherence -/

theorem appendBody_coherent {p : RequestParser} (bytes : Bytes) (isBody : p.state = .body)
    (needMore : p.status = .needMore) (room : p.body.length < p.contentLength) :
    Coherent (appendBody p bytes).1.toParserFields := by
  unfold appendBody finishRequest
  dsimp only
  split
  · constructor <;> simp [ParserState.isFinal, ParserState.isHeader]
  · next short =>
    constructor <;> simp [isBody, needMore, ParserState.isHeader] at short ⊢
    omega

theorem appendChunk_coherent {p : RequestParser} (bytes : Bytes) (isData : p.state = .chunkData)
    (needMore : p.status = .needMore) : Coherent (appendChunk p bytes).1.toParserFields := by
  unfold appendChunk
  dsimp only
  split
  · constructor <;> simp [needMore, ParserState.isHeader]
  · next left =>
    constructor <;> simp [isData, needMore, ParserState.isHeader] at left ⊢
    omega

theorem Coherent.of_error {f : ParserFields} (isError : f.state = .error) (status : f.status.isError = true) :
    Coherent f := by
  constructor <;> simp [isError, status, ParserState.isHeader, ParserState.isFinal]

theorem bodyState_past (h : HeaderFields) : h.bodyState ≠ .error ∧ h.bodyState.isHeader = false := by
  unfold HeaderFields.bodyState
  split_ifs <;> exact ⟨by decide, rfl⟩

/-- A turn that goes wrong has an open status, or the status of its error. -/
theorem Turn.status {p q : RequestParser} {c : UInt8} (turn : Turn p c q)
    (stops : q.state = .error ∨ q.state.isHeader = true) : q.status = p.status ∨ q.status.isError = true := by
  cases turn with
  | refused kept work shorter smaller known => exact known
  | headersEnd =>
    obtain ⟨live, body⟩ := bodyState_past p.toHeaderFields
    rcases stops with isError | isHeader
    · exact absurd isError live
    · cases body.symm.trans isHeader
  | trailersEnd => rcases stops with stops | stops <;> cases stops
  | _ => exact .inl rfl

theorem feedByte_final {p : RequestParser} (c : UInt8) (final : p.state.isFinal = true) : feedByte p c = p := by
  unfold feedByte
  cases state : p.state <;> rw [state] at final <;> first | rfl | cases final

/-- The parser behind an accepted header section. -/
theorem headersEnd_coherent (f : ParserFields) (empty : f.body = []) :
    Coherent { f with
      state := f.toHeaderFields.bodyState
      status := f.toHeaderFields.bodyStatus
      lineSize := 0
      pendingCr := false } := by
  unfold HeaderFields.bodyStatus HeaderFields.bodyState
  by_cases chunked : f.transferEncodingSeen = true
  · by_cases expects : f.expectContinue = true
    · constructor <;> simp [chunked, expects, ParserState.isHeader]
    · constructor <;> simp [chunked, expects, ParserState.isHeader]
  by_cases length : f.contentLength = 0
  · constructor <;> simp [chunked, length, ParserState.isHeader, ParserState.isFinal]
  by_cases expects : f.expectContinue = true
  · constructor <;> simp [chunked, length, expects, empty, ParserState.isHeader]
    omega
  · constructor <;> simp [chunked, length, expects, empty, ParserState.isHeader]
    omega

/-- **Every byte keeps the parser coherent**, once a reported `kHeadersComplete` is cleared. -/
theorem feedByte_coherent {p : RequestParser} (c : UInt8) (coherent : Coherent p.toParserFields)
    (cleared : p.status ≠ .headersComplete) : Coherent (feedByte p c).toParserFields := by
  by_cases final : p.state.isFinal = true
  · rw [feedByte_final c final]
    exact coherent
  have live : p.state.isFinal = false := by simpa using final
  have needMore : p.status = .needMore := (coherent.live live).resolve_right fun h => cleared h.1
  have step := feedByte_step c live
  generalize feedByte p c = r at step ⊢
  cases step with
  | body isBody => exact appendBody_coherent [c] isBody needMore (coherent.body isBody)
  | chunkData isData => exact appendChunk_coherent [c] isData needMore
  | line turn settled within =>
    cases settled with
    | failed stops known => exact .of_error rfl (known (by rw [← needMore]; exact turn.status stops))
    | kept notError =>
      cases turn with
      | refused => exact absurd rfl notError
      | cr =>
        exact ⟨coherent.live, coherent.complete, coherent.error, coherent.header, coherent.body, coherent.chunkData⟩
      | stored =>
        exact ⟨coherent.live, coherent.complete, coherent.error, coherent.header, coherent.body, coherent.chunkData⟩
      | requestLine isLine =>
        have empty : p.body = [] := coherent.header (by rw [show p.state = .requestLine from isLine]; rfl)
        constructor <;> simp [needMore, empty, ParserFields.counted]
      | field kind =>
        refine ⟨coherent.live, coherent.complete, coherent.error, coherent.header, fun isBody => ?_, coherent.chunkData⟩
        rcases kind with other | other <;> cases isBody.symm.trans other
      | headersEnd isHeaders =>
        have empty : p.body = [] := coherent.header (by rw [show p.state = .headers from isHeaders]; rfl)
        exact headersEnd_coherent p.counted empty
      | @size size isSize fits =>
        by_cases zero : size = 0
        · constructor <;> simp [needMore, zero, ParserFields.counted, ParserState.isHeader]
        · constructor <;> simp [needMore, zero, ParserFields.counted, ParserState.isHeader]
          omega
      | trailersEnd => constructor <;> simp [ParserState.isFinal, ParserState.isHeader]
      | dataCr =>
        exact ⟨coherent.live, coherent.complete, coherent.error, coherent.header, coherent.body, coherent.chunkData⟩
      | dataLf => constructor <;> simp [needMore, ParserFields.counted, ParserState.isHeader]

/-- A rule for what a turn keeps whatever becomes of the state: the body bytes apart, one case for each turn. -/
theorem feedByte_of_turn {P : RequestParser → Prop} {p : RequestParser} (c : UInt8) (before : P p)
    (body : p.state = .body → P (appendBody p [c]).1) (chunkData : p.state = .chunkData → P (appendChunk p [c]).1)
    (turn : ∀ q, Turn (p.onFields ParserFields.counted) c q →
      (p.state.isHeader = true ∨ p.state.isMetadata = true) → P q)
    (failed : ∀ (q : RequestParser) (status : ParseStatus), P q →
      (q.status ≠ .headersComplete → status ≠ .headersComplete) →
      P (q.onFields fun f => { f with state := .error, status := status })) : P (feedByte p c) := by
  by_cases final : p.state.isFinal = true
  · rw [feedByte_final c final]
    exact before
  have step := feedByte_step c (by simpa using final)
  generalize feedByte p c = r at step ⊢
  cases step with
  | body isBody => exact body isBody
  | chunkData isData => exact chunkData isData
  | line taken settled within =>
    have next := turn _ taken (within.imp And.left And.left)
    cases settled with
    | kept live => exact next
    | failed stops known silent => exact failed _ _ next silent

/-! ### Past the header section -/

/-- Past the header section, with no report to make. -/
structure Past (f : ParserFields) : Prop where
  state : f.state.isHeader = false
  status : f.status ≠ .headersComplete

theorem Past.state_ne {f : ParserFields} (past : Past f) : f.state ≠ .requestLine ∧ f.state ≠ .headers := by
  constructor <;> intro same <;> cases (congrArg ParserState.isHeader same).symm.trans past.state

theorem Turn.past {p q : RequestParser} {c : UInt8} (turn : Turn p c q) (past : Past p.toParserFields) :
    Past q.toParserFields := by
  cases turn with
  | refused kept work shorter smaller known =>
    refine ⟨rfl, ?_⟩
    rcases known with same | isError
    · rw [same]
      exact past.status
    · intro reported
      cases (congrArg ParseStatus.isError reported).symm.trans isError
  | requestLine isLine => exact absurd isLine past.state_ne.1
  | headersEnd isHeaders => exact absurd isHeaders past.state_ne.2
  | size =>
    refine ⟨?_, past.status⟩
    rw [onFields_toParserFields]
    dsimp only
    split <;> rfl
  | trailersEnd => exact ⟨rfl, by simp⟩
  | dataLf => exact ⟨rfl, past.status⟩
  | _ => exact ⟨past.state, past.status⟩

theorem appendBody_past {p : RequestParser} (bytes : Bytes) (past : Past p.toParserFields) :
    Past (appendBody p bytes).1.toParserFields := by
  unfold appendBody
  dsimp only
  split
  · exact ⟨rfl, fun reported => by cases reported⟩
  · exact ⟨past.state, past.status⟩

theorem appendChunk_past {p : RequestParser} (bytes : Bytes) (past : Past p.toParserFields) :
    Past (appendChunk p bytes).1.toParserFields := by
  unfold appendChunk
  dsimp only
  split
  · exact ⟨rfl, past.status⟩
  · exact ⟨past.state, past.status⟩

/-- **The header section is never entered again, and only it reports `kHeadersComplete`.** -/
theorem feedByte_past {p : RequestParser} (c : UInt8) (past : Past p.toParserFields) :
    Past (feedByte p c).toParserFields :=
  feedByte_of_turn (P := fun q => Past q.toParserFields) c past (fun _ => appendBody_past [c] past)
    (fun _ => appendChunk_past [c] past) (fun _ turn _ => turn.past ⟨past.state, past.status⟩)
    fun _ _ kept silent => ⟨rfl, silent kept.status⟩

/-- The members only the header section writes. -/
def ParserFields.fixed (f : ParserFields) : HeaderFields × Bool × Nat × Nat × Nat × Nat × Nat :=
  (f.toHeaderFields, f.headRequest, f.methodSize, f.targetStart, f.targetSize, f.lineStart,
    f.headerBytes)

theorem counted_fixed {f : ParserFields} (past : f.state.isHeader = false) : f.counted.fixed = f.fixed := by
  unfold ParserFields.counted
  rw [past]
  rfl

/-- **The bytes of a body change nothing of the header section, and are stored behind the request line.** -/
theorem Turn.fixed {p q : RequestParser} {c : UInt8} (turn : Turn p c q) (past : Past p.toParserFields) :
    q.fixed = p.fixed ∧ ∀ i < p.lineStart, q.storage i = p.storage i := by
  have frame : ∀ {f : ParserFields}, f.fixed = p.fixed →
      f.fixed = p.fixed ∧ ∀ i < p.lineStart, p.storage i = p.storage i := fun same => ⟨same, fun _ _ => rfl⟩
  cases turn with
  | refused kept =>
    refine frame ?_
    obtain rfl := kept.resolve_right fun contrary => past.state_ne.2 contrary.1
    rfl
  | stored => exact ⟨rfl, fun i before => Function.update_of_ne (by omega) _ _⟩
  | requestLine isLine => exact absurd isLine past.state_ne.1
  | headersEnd isHeaders => exact absurd isHeaders past.state_ne.2
  | field kind =>
    refine frame ?_
    rw [kind.resolve_left past.state_ne.2]
    exact congrArg (fun h : HeaderFields => (h, p.headRequest, _)) (validateHeader_trailers p.line p.toHeaderFields)
  | _ => exact frame rfl

theorem feedByte_frame {p : RequestParser} (c : UInt8) (past : Past p.toParserFields) :
    (feedByte p c).fixed = p.fixed ∧ ∀ i < p.lineStart, (feedByte p c).storage i = p.storage i := by
  refine feedByte_of_turn (P := fun q => q.fixed = p.fixed ∧ ∀ i < p.lineStart, q.storage i = p.storage i) c
    ⟨rfl, fun _ _ => rfl⟩ (fun _ => ?_) (fun _ => ?_) (fun q turn _ => ?_) fun _ _ kept _ => kept
  · unfold appendBody
    dsimp only
    split <;> exact ⟨rfl, fun _ _ => rfl⟩
  · unfold appendChunk
    dsimp only
    split <;> exact ⟨rfl, fun _ _ => rfl⟩
  · obtain ⟨same, stored⟩ := turn.fixed ⟨past.state, past.status⟩
    exact ⟨same.trans (counted_fixed past.state), stored⟩

/-! ### Every byte is counted -/

theorem appendBody_requestBytes (p : RequestParser) (bytes : Bytes) :
    (appendBody p bytes).1.requestBytes = p.requestBytes + (appendBody p bytes).2 := by
  unfold appendBody
  dsimp only
  split <;> rfl

theorem appendChunk_requestBytes (p : RequestParser) (bytes : Bytes) :
    (appendChunk p bytes).1.requestBytes = p.requestBytes + (appendChunk p bytes).2 := by
  unfold appendChunk
  dsimp only
  split <;> rfl

/-- **A live parser counts every byte.** -/
theorem feedByte_requestBytes {p : RequestParser} (c : UInt8) (coherent : Coherent p.toParserFields)
    (live : p.state.isFinal = false) : (feedByte p c).requestBytes = p.requestBytes + 1 := by
  have step := feedByte_step c live
  generalize feedByte p c = r at step ⊢
  cases step with
  | line turn settled within =>
    rename_i q
    have counted : q.requestBytes = p.requestBytes + 1 := by cases turn <;> rfl
    cases settled with
    | kept => exact counted
    | failed => exact counted
  | body isBody =>
    have one : min 1 (p.contentLength - p.body.length) = 1 := by
      have room := coherent.body isBody
      omega
    rw [appendBody_requestBytes]
    exact congrArg _ one
  | chunkData isData =>
    have one : min p.chunkRemaining 1 = 1 := by
      have room := coherent.chunkData isData
      omega
    rw [appendChunk_requestBytes]
    exact congrArg _ one

/-! ### The two loops agree -/

theorem feedByte_body {p : RequestParser} (c : UInt8) (isBody : p.state = .body) :
    feedByte p c = (appendBody p [c]).1 := by
  unfold feedByte
  rw [isBody]

theorem feedByte_chunkData {p : RequestParser} (c : UInt8) (isData : p.state = .chunkData) :
    feedByte p c = (appendChunk p [c]).1 := by
  unfold feedByte
  rw [isData]

theorem feedByte_metadata {p : RequestParser} (c : UInt8) (isMetadata : p.state.isMetadata = true) :
    feedByte p c = feedMetadataByte p c := by
  unfold feedByte
  cases state : p.state <;> rw [state] at isMetadata <;> first | rfl | cases isMetadata

theorem feedByte_header {p : RequestParser} (c : UInt8) (isHeader : p.state.isHeader = true) :
    feedByte p c = feedHeaderByte p c := by
  unfold feedByte
  cases state : p.state <;> rw [state] at isHeader <;> first | rfl | cases isHeader

/-- A copy that finishes the body stops after its first byte; any other goes on with the rest. -/
theorem appendBody_cons (p : RequestParser) (c : UInt8) (rest : Bytes)
    (room : p.body.length < p.contentLength) :
    appendBody p (c :: rest) =
      if p.body.length + 1 = p.contentLength then ((appendBody p [c]).1, 1)
      else ((appendBody (appendBody p [c]).1 rest).1, (appendBody (appendBody p [c]).1 rest).2 + 1) := by
  obtain ⟨left, count⟩ : ∃ left, p.contentLength - p.body.length = left + 1 :=
    ⟨p.contentLength - p.body.length - 1, by omega⟩
  by_cases last : p.body.length + 1 = p.contentLength
  · have none : left = 0 := by omega
    simp [appendBody, last, count, none]
  · have more : p.contentLength - (p.body.length + 1) = left := by omega
    simp [appendBody, last, count, more, Nat.add_min_add_right, Nat.add_assoc,
      Nat.add_comm 1]

theorem appendChunk_cons (p : RequestParser) (c : UInt8) (rest : Bytes)
    (room : 0 < p.chunkRemaining) :
    appendChunk p (c :: rest) =
      if p.chunkRemaining = 1 then ((appendChunk p [c]).1, 1)
      else
        ((appendChunk (appendChunk p [c]).1 rest).1,
          (appendChunk (appendChunk p [c]).1 rest).2 + 1) := by
  obtain ⟨left, count⟩ : ∃ left, p.chunkRemaining = left + 1 := ⟨p.chunkRemaining - 1, by omega⟩
  by_cases last : p.chunkRemaining = 1
  · simp [appendChunk, last]
  · have more : left ≠ 0 := by omega
    simp [appendChunk, count, more, Nat.add_min_add_right, Nat.add_assoc, Nat.add_comm 1]

theorem appendBody_nil {p : RequestParser} (room : p.body.length < p.contentLength) :
    appendBody p [] = (p, 0) := by
  have short : p.body.length ≠ p.contentLength := by omega
  simp [appendBody, short]

theorem appendChunk_nil {p : RequestParser} (room : 0 < p.chunkRemaining) :
    appendChunk p [] = (p, 0) := by
  have left : p.chunkRemaining ≠ 0 := by omega
  simp [appendChunk, left]

/-- What one body byte does to the state. -/
theorem appendBody_one_state {p : RequestParser} (c : UInt8) (isBody : p.state = .body)
    (room : p.body.length < p.contentLength) :
    (appendBody p [c]).1.state = if p.body.length + 1 = p.contentLength then .complete else .body := by
  have one : min 1 (p.contentLength - p.body.length) = 1 := by omega
  by_cases last : p.body.length + 1 = p.contentLength
  · simp [appendBody, finishRequest, one, last]
  · simp [appendBody, one, last, isBody]

theorem appendChunk_one_state {p : RequestParser} (c : UInt8) (isData : p.state = .chunkData)
    (room : 0 < p.chunkRemaining) :
    (appendChunk p [c]).1.state = if p.chunkRemaining = 1 then .chunkDataCrlf else .chunkData := by
  have one : min p.chunkRemaining 1 = 1 := by omega
  by_cases last : p.chunkRemaining = 1
  · simp [appendChunk, last]
  · have more : p.chunkRemaining - 1 ≠ 0 := by omega
    simp [appendChunk, one, last, more, isData]

/-- A live parser whose `kHeadersComplete` is cleared waits for more. -/
theorem Coherent.needMore {f : ParserFields} (coherent : Coherent f) (live : f.state.isFinal = false)
    (cleared : f.status ≠ .headersComplete) : f.status = .needMore :=
  (coherent.live live).resolve_right fun reported => cleared reported.1

/-- One turn of the byte loop. -/
theorem byteLoop_cons {p : RequestParser} (c : UInt8) (rest : Bytes) (live : p.state.isFinal = false) :
    byteLoop p (c :: rest) =
      if (feedByte p c).status = .headersComplete then (feedByte p c, rest)
      else byteLoop (feedByte p c) rest := by
  rw [byteLoop, live, if_neg (by decide)]

theorem byteLoop_cons_live {p : RequestParser} {c : UInt8} (rest : Bytes)
    (live : p.state.isFinal = false) (cleared : (feedByte p c).status ≠ .headersComplete) :
    byteLoop p (c :: rest) = byteLoop (feedByte p c) rest := by
  rw [byteLoop_cons c rest live, if_neg cleared]

/-- **A bulk copy of body bytes is a run of the byte loop.** -/
theorem byteLoop_appendBody (bytes : Bytes) : ∀ p : RequestParser, Coherent p.toParserFields →
    p.status ≠ .headersComplete → p.state = .body →
    byteLoop p bytes = byteLoop (appendBody p bytes).1 (bytes.drop (appendBody p bytes).2) := by
  induction bytes with
  | nil =>
    intro p coherent _ isBody
    rw [appendBody_nil (coherent.body isBody)]
    rfl
  | cons c rest ih =>
    intro p coherent cleared isBody
    have room := coherent.body isBody
    have turn : byteLoop p (c :: rest) = byteLoop (appendBody p [c]).1 rest := by
      rw [byteLoop_cons_live rest (by rw [isBody]; rfl)
        (feedByte_past c ⟨by rw [isBody]; rfl, cleared⟩).status, feedByte_body c isBody]
    rw [turn, appendBody_cons p c rest room]
    split
    · rfl
    · next more =>
      have next := feedByte_coherent c coherent cleared
      have nextCleared := (feedByte_past c ⟨by rw [isBody]; rfl, cleared⟩).status
      rw [feedByte_body c isBody] at next nextCleared
      have nextBody := appendBody_one_state c isBody room
      rw [if_neg more] at nextBody
      rw [ih _ next nextCleared nextBody, List.drop_succ_cons]

/-- **A bulk copy of chunk data is a run of the byte loop.** -/
theorem byteLoop_appendChunk (bytes : Bytes) : ∀ p : RequestParser, Coherent p.toParserFields →
    p.status ≠ .headersComplete → p.state = .chunkData →
    byteLoop p bytes = byteLoop (appendChunk p bytes).1 (bytes.drop (appendChunk p bytes).2) := by
  induction bytes with
  | nil =>
    intro p coherent _ isData
    rw [appendChunk_nil (coherent.chunkData isData)]
    rfl
  | cons c rest ih =>
    intro p coherent cleared isData
    have room := coherent.chunkData isData
    have turn : byteLoop p (c :: rest) = byteLoop (appendChunk p [c]).1 rest := by
      rw [byteLoop_cons_live rest (by rw [isData]; rfl)
        (feedByte_past c ⟨by rw [isData]; rfl, cleared⟩).status, feedByte_chunkData c isData]
    rw [turn, appendChunk_cons p c rest room]
    split
    · rfl
    · next more =>
      have next := feedByte_coherent c coherent cleared
      have nextCleared := (feedByte_past c ⟨by rw [isData]; rfl, cleared⟩).status
      rw [feedByte_chunkData c isData] at next nextCleared
      have nextData := appendChunk_one_state c isData room
      rw [if_neg more] at nextData
      rw [ih _ next nextCleared nextData, List.drop_succ_cons]

theorem byteLoop_final {p : RequestParser} (bytes : Bytes) (final : p.state.isFinal = true) :
    byteLoop p bytes = (p, bytes) := by
  cases bytes with
  | nil => rfl
  | cons c rest => rw [byteLoop, if_pos final]

/-- **The loop of the source is the byte loop.** Each turn takes a byte, so the fuel never runs out. -/
theorem feedLoop_eq_byteLoop (fuel : Nat) : ∀ (p : RequestParser) (bytes : Bytes),
    Coherent p.toParserFields → p.status ≠ .headersComplete → bytes.length ≤ fuel →
    feedLoop fuel p bytes = byteLoop p bytes := by
  induction fuel with
  | zero =>
    intro p bytes _ _ enough
    rw [List.eq_nil_of_length_eq_zero (Nat.le_zero.mp enough)]
    rfl
  | succ fuel ih =>
    intro p bytes coherent cleared enough
    cases bytes with
    | nil => rfl
    | cons c rest =>
      have short : rest.length ≤ fuel := by simpa using enough
      have metadata : p.state.isMetadata = true →
          feedLoop fuel (feedMetadataByte p c) rest = byteLoop p (c :: rest) := by
        intro isMetadata
        obtain ⟨past, live⟩ := isMetadata_past_live isMetadata
        have nextCleared := (feedByte_past c ⟨past, cleared⟩).status
        have next := feedByte_coherent c coherent cleared
        rw [byteLoop_cons_live rest live nextCleared, feedByte_metadata c isMetadata]
        rw [feedByte_metadata c isMetadata] at next nextCleared
        exact ih _ _ next nextCleared short
      have header : p.state.isHeader = true →
          (if (feedHeaderByte p c).status = .headersComplete then (feedHeaderByte p c, rest)
            else feedLoop fuel (feedHeaderByte p c) rest) = byteLoop p (c :: rest) := by
        intro isHeader
        have next := feedByte_coherent c coherent cleared
        rw [byteLoop_cons c rest (isHeader_live isHeader), feedByte_header c isHeader]
        rw [feedByte_header c isHeader] at next
        by_cases reported : (feedHeaderByte p c).status = .headersComplete
        · rw [if_pos reported, if_pos reported]
        · rw [if_neg reported, if_neg reported]
          exact ih _ _ next reported short
      unfold feedLoop
      cases state : p.state with
      | requestLine => exact header (by rw [state]; rfl)
      | headers => exact header (by rw [state]; rfl)
      | chunkSize => exact metadata (by rw [state]; rfl)
      | chunkDataCrlf => exact metadata (by rw [state]; rfl)
      | trailers => exact metadata (by rw [state]; rfl)
      | complete => exact (byteLoop_final _ (by rw [state]; rfl)).symm
      | error => exact (byteLoop_final _ (by rw [state]; rfl)).symm
      | body =>
        have room := coherent.body state
        have taken : 1 ≤ (appendBody p (c :: rest)).2 := by
          show 1 ≤ min (rest.length + 1) (p.contentLength - p.body.length)
          omega
        rw [byteLoop_appendBody (c :: rest) p coherent cleared state]
        refine ih _ _ (appendBody_coherent _ state (coherent.needMore (by rw [state]; rfl) cleared)
          room) (appendBody_past _ ⟨by rw [state]; rfl, cleared⟩).status ?_
        rw [List.length_drop]
        omega
      | chunkData =>
        have room := coherent.chunkData state
        have taken : 1 ≤ (appendChunk p (c :: rest)).2 := by
          show 1 ≤ min p.chunkRemaining (rest.length + 1)
          omega
        rw [byteLoop_appendChunk (c :: rest) p coherent cleared state]
        refine ih _ _ (appendChunk_coherent _ state (coherent.needMore (by rw [state]; rfl) cleared))
          (appendChunk_past _ ⟨by rw [state]; rfl, cleared⟩).status ?_
        rw [List.length_drop]
        omega

/-- **A whole body changes nothing of the header section.** -/
theorem byteLoop_fixed (bytes : Bytes) : ∀ p : RequestParser, Past p.toParserFields →
    (byteLoop p bytes).1.fixed = p.fixed ∧
      ∀ i < p.lineStart, (byteLoop p bytes).1.storage i = p.storage i := by
  induction bytes with
  | nil => exact fun p _ => ⟨rfl, fun i _ => rfl⟩
  | cons c rest ih =>
    intro p past
    by_cases final : p.state.isFinal = true
    · rw [byteLoop_final _ final]
      exact ⟨rfl, fun i _ => rfl⟩
    have next := feedByte_past c past
    obtain ⟨fixed, kept⟩ := feedByte_frame c past
    have start : (feedByte p c).lineStart = p.lineStart :=
      congrArg (fun kept => kept.2.2.2.2.2.1) fixed
    rw [byteLoop_cons c rest (by simpa using final), if_neg next.status]
    obtain ⟨same, stored⟩ := ih _ next
    refine ⟨same.trans fixed, fun i before => ?_⟩
    rw [stored i (by rw [start]; exact before), kept i before]

/-! ### Runs of the byte loop -/

/-- Where the byte loop stops before the end of its input: a final state or a reported header
section. -/
def Stopped (p : RequestParser) : Prop := p.state.isFinal = true ∨ p.status = .headersComplete

instance (p : RequestParser) : Decidable (Stopped p) := by
  unfold Stopped
  infer_instance

theorem byteLoop_coherent (bytes : Bytes) : ∀ p : RequestParser, Coherent p.toParserFields →
    p.status ≠ .headersComplete → Coherent (byteLoop p bytes).1.toParserFields := by
  induction bytes with
  | nil => exact fun p coherent _ => coherent
  | cons c rest ih =>
    intro p coherent cleared
    by_cases final : p.state.isFinal = true
    · rw [byteLoop_final _ final]
      exact coherent
    · rw [byteLoop_cons c rest (by simpa using final)]
      have next := feedByte_coherent c coherent cleared
      split
      · exact next
      · next more => exact ih _ next more

/-- **The byte loop leaves input only where it stopped.** -/
theorem byteLoop_rest (bytes : Bytes) : ∀ p : RequestParser,
    (byteLoop p bytes).2 = [] ∨ Stopped (byteLoop p bytes).1 := by
  induction bytes with
  | nil => exact fun p => .inl rfl
  | cons c rest ih =>
    intro p
    by_cases final : p.state.isFinal = true
    · rw [byteLoop_final _ final]
      exact .inr (.inl final)
    · rw [byteLoop_cons c rest (by simpa using final)]
      split
      · next reported => exact .inr (.inr reported)
      · exact ih _

theorem byteLoop_suffix (bytes : Bytes) : ∀ p : RequestParser, (byteLoop p bytes).2 <:+ bytes := by
  induction bytes with
  | nil => exact fun p => List.suffix_refl _
  | cons c rest ih =>
    intro p
    by_cases final : p.state.isFinal = true
    · rw [byteLoop_final _ final]
    · rw [byteLoop_cons c rest (by simpa using final)]
      split
      · exact List.suffix_cons c rest
      · exact (ih _).trans (List.suffix_cons c rest)

/-- **The bytes the loop takes are the bytes the parser counts.** -/
theorem byteLoop_requestBytes (bytes : Bytes) : ∀ p : RequestParser, Coherent p.toParserFields →
    p.status ≠ .headersComplete →
    (byteLoop p bytes).1.requestBytes + (byteLoop p bytes).2.length
      = p.requestBytes + bytes.length := by
  induction bytes with
  | nil => exact fun p _ _ => rfl
  | cons c rest ih =>
    intro p coherent cleared
    by_cases final : p.state.isFinal = true
    · rw [byteLoop_final _ final]
    · have live : p.state.isFinal = false := by simpa using final
      have counted := feedByte_requestBytes c coherent live
      rw [byteLoop_cons c rest live, List.length_cons]
      split
      · show (feedByte p c).requestBytes + rest.length = _
        omega
      · next more =>
        rw [ih _ (feedByte_coherent c coherent cleared) more, counted]
        omega

/-- **What every byte keeps of the parser and the bytes it has accepted, a run keeps.** -/
theorem byteLoop_accepts {P : RequestParser → Bytes → Prop}
    (step : ∀ p message c, p.state.isFinal = false → p.status ≠ .headersComplete → P p message →
      P (feedByte p c) (message ++ [c])) (bytes : Bytes) :
    ∀ (p : RequestParser) (message : Bytes), p.status ≠ .headersComplete → P p message →
      P (byteLoop p bytes).1 (message ++ bytes.take (bytes.length - (byteLoop p bytes).2.length)) := by
  induction bytes with
  | nil =>
    intro p message _ before
    simpa [byteLoop] using before
  | cons c rest ih =>
    intro p message cleared before
    by_cases final : p.state.isFinal = true
    · rw [byteLoop_final _ final, Nat.sub_self, List.take_zero, List.append_nil]
      exact before
    have live : p.state.isFinal = false := by simpa using final
    have next := step p message c live cleared before
    rw [byteLoop_cons c rest live]
    split
    · have one : (c :: rest).length - rest.length = 1 := by simp
      show P (feedByte p c) (message ++ (c :: rest).take ((c :: rest).length - rest.length))
      rw [one]
      exact next
    · next more =>
      have whole := ih _ _ more next
      have fewer : (byteLoop (feedByte p c) rest).2.length ≤ rest.length :=
        (byteLoop_suffix rest (feedByte p c)).length_le
      rw [show (c :: rest).length - (byteLoop (feedByte p c) rest).2.length
          = rest.length - (byteLoop (feedByte p c) rest).2.length + 1 by
        rw [List.length_cons]
        omega]
      rw [List.take_succ_cons]
      rw [List.append_assoc] at whole
      exact whole

end HpServer.Http
