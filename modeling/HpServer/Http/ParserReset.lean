/-
**Nothing of one request is left in the parser for the next.**

`resetRequestParser` sets every member back except the array `storage_`, which keeps the bytes of the
last request.

* `Agree` — two parsers that differ only in array cells past the bytes they hold; `Framed` — the parts
  of the array that are read lie below these bytes.
* `feedRequestBytes_agree` — **such parsers give the same answer to every call**, and agree again.
* `parserAnswers_reset` — after `resetRequestParser`, from any state, every later call answers as on a
  new parser.
-/

import HpServer.Http.Segmentation

namespace HpServer.Http

/-! ### Parsers that agree on the bytes they hold -/

/-- The same members, and the same array up to the end of the line being assembled. -/
structure Agree (p q : RequestParser) : Prop where
  fields : p.toParserFields = q.toParserFields
  storage : ∀ i < p.lineStart + p.lineSize, p.storage i = q.storage i

/-- The method and the target are read below the line being assembled. -/
structure Framed (f : ParserFields) : Prop where
  method : f.methodSize ≤ f.lineStart
  target : f.targetStart + f.targetSize ≤ f.lineStart
  requestLine : f.state = .requestLine → f.lineStart = 0

theorem framed_initial : Framed {} where
  method := le_rfl
  target := le_rfl
  requestLine _ := rfl

theorem Agree.refl (p : RequestParser) : Agree p p := ⟨rfl, fun _ _ => rfl⟩

/-- The end of the line is a member, so agreement carries over. -/
theorem Agree.trans {p q r : RequestParser} (first : Agree p q) (second : Agree q r) : Agree p r where
  fields := first.fields.trans second.fields
  storage i below :=
    (first.storage i below).trans (second.storage i (by rw [← first.fields]; exact below))

theorem Agree.line {p q : RequestParser} (agree : Agree p q) : p.line = q.line := by
  unfold RequestParser.line
  rw [← agree.fields]
  exact slice_congr fun i _ below => agree.storage i below

/-- A change of the members that does not move the end of the line. -/
theorem Agree.onFields {p q : RequestParser} {f : ParserFields → ParserFields}
    (agree : Agree p q) (short : (f p.toParserFields).lineStart
      + (f p.toParserFields).lineSize ≤ p.lineStart + p.lineSize) :
    Agree (p.onFields f) (q.onFields f) where
  fields := congrArg f agree.fields
  storage i below := agree.storage i (lt_of_lt_of_le below short)

theorem Agree.store {p q : RequestParser} (agree : Agree p q) (c : UInt8) :
    Agree (p.store c) (q.store c) where
  fields := by
    show { p.toParserFields with lineSize := p.lineSize + 1 }
      = { q.toParserFields with lineSize := q.lineSize + 1 }
    rw [agree.fields]
  storage i below := by
    show Function.update p.storage (p.lineStart + p.lineSize) c i
      = Function.update q.storage (q.lineStart + q.lineSize) c i
    rw [← agree.fields]
    by_cases last : i = p.lineStart + p.lineSize
    · rw [last, Function.update_self, Function.update_self]
    · rw [Function.update_of_ne last, Function.update_of_ne last]
      have bound : i < p.lineStart + (p.lineSize + 1) := below
      exact agree.storage i (by omega)

/-! ### One byte -/

/-- The cut of a valid request line lies inside the line. -/
theorem validateRequestLine_bounds {line : Bytes} {cut : RequestLineCut}
    (valid : (validateRequestLine line).value = some cut) :
    cut.methodSize ≤ line.length ∧ cut.targetStart + cut.targetSize ≤ line.length := by
  unfold validateRequestLine at valid
  simp only [Counted.bind_value] at valid
  split at valid
  · cases valid
  · next first second _ =>
    simp only [Counted.ite_value, Counted.bind_value, Counted.pure_value] at valid
    split_ifs at valid with order _ _ _ version _
    obtain rfl := Option.some.inj valid
    have eight : httpVersion.length = 8 := by decide
    simp only
    omega

theorem finishLineFields_extent (requestLine line : Bytes) {f : ParserFields} (framed : Framed f) :
    (finishLineFields requestLine line f).lineStart + (finishLineFields requestLine line f).lineSize
      ≤ f.lineStart + f.lineSize := by
  unfold finishLineFields
  split
  · next isLine =>
    unfold acceptRequestLine
    split
    · exact le_rfl
    · rw [framed.requestLine isLine]
      show f.lineSize + 0 ≤ 0 + f.lineSize
      omega
  · split
    · obtain ⟨state, status, shape⟩ := finishHeaders_shape f
      rw [shape]
      exact Nat.add_le_add_left (Nat.zero_le _) _
    · exact Nat.add_le_add_left (Nat.zero_le _) _

/-- The start of the array is read in the state `kRequestLine` only. -/
theorem finishLineFields_congr {requestLine other : Bytes} (line : Bytes) {f : ParserFields}
    (same : f.state = .requestLine → requestLine = other) :
    finishLineFields requestLine line f = finishLineFields other line f := by
  unfold finishLineFields
  split
  · next isLine => rw [same isLine]
  · rfl

theorem finishLine_agree {p q : RequestParser} (agree : Agree p q) (framed : Framed p.toParserFields) :
    Agree (finishLine p) (finishLine q) := by
  have requestLine : p.state = .requestLine →
      slice p.storage 0 p.lineSize = slice q.storage 0 p.lineSize := by
    intro isLine
    refine slice_congr fun i _ below => agree.storage i ?_
    rw [framed.requestLine isLine]
    exact below
  have same : finishLine q
      = q.onFields (finishLineFields (slice p.storage 0 p.lineSize) p.line) := by
    unfold finishLine RequestParser.onFields
    rw [← agree.fields, ← agree.line, finishLineFields_congr p.line requestLine]
  rw [same]
  exact agree.onFields (finishLineFields_extent _ _ framed)

theorem Agree.ite {p q r s : RequestParser} {test : Prop} [Decidable test]
    (yes : test → Agree p q) (no : ¬test → Agree r s) :
    Agree (if test then p else r) (if test then q else s) := by
  split
  · next holds => exact yes holds
  · next fails => exact no fails

theorem Agree.setState {p q : RequestParser} (agree : Agree p q) (state : ParserState) :
    Agree { p with state := state } { q with state := state } :=
  agree.onFields (f := fun f => { f with state := state }) le_rfl

theorem Agree.setPendingCr {p q : RequestParser} (agree : Agree p q) (pendingCr : Bool) :
    Agree { p with pendingCr := pendingCr } { q with pendingCr := pendingCr } :=
  agree.onFields (f := fun f => { f with pendingCr := pendingCr }) le_rfl

theorem takeHeaderByte_agree {p q : RequestParser} (c : UInt8) (agree : Agree p q)
    (framed : Framed p.toParserFields) : Agree (takeHeaderByte p c) (takeHeaderByte q c) := by
  obtain ⟨f, storage⟩ := p
  obtain ⟨g, other⟩ := q
  obtain rfl : f = g := agree.fields
  unfold takeHeaderByte
  refine .ite (fun _ => .ite (fun _ => ?_) fun _ => ?_) fun _ => .ite (fun _ => ?_) fun _ =>
    .ite (fun _ => ?_) fun _ => .ite (fun _ => ?_) fun _ => ?_
  · exact (agree.setPendingCr false).setState .error
  · exact finishLine_agree (agree.setPendingCr false)
      ⟨framed.method, framed.target, framed.requestLine⟩
  · exact agree.setPendingCr true
  · exact agree.setState .error
  · exact agree.setState .error
  · exact (agree.store c).onFields
      (f := fun f => { f with peakBuffered := max f.peakBuffered f.bufferedBytes }) le_rfl

theorem feedHeaderByte_agree {p q : RequestParser} (c : UInt8) (agree : Agree p q)
    (framed : Framed p.toParserFields) : Agree (feedHeaderByte p c) (feedHeaderByte q c) := by
  have counted := agree.onFields (f := fun f =>
    { f with
      headerBytes := f.headerBytes + 1
      requestBytes := f.requestBytes + 1
      scanSteps := f.scanSteps + 1 }) le_rfl
  exact (takeHeaderByte_agree c counted
    ⟨framed.method, framed.target, framed.requestLine⟩).onFields le_rfl

theorem finishMetadataLine_extent (line : Bytes) (f : ParserFields) :
    (finishMetadataLine line f).lineStart + (finishMetadataLine line f).lineSize
      ≤ f.lineStart + f.lineSize := by
  unfold finishMetadataLine
  split
  · obtain ⟨state, status, chunkRemaining, shape⟩ := validateChunkSize_shape line f
    rw [shape]
    exact Nat.add_le_add_left (Nat.zero_le _) _
  · split
    · exact Nat.add_le_add_left (Nat.zero_le _) _
    · exact Nat.add_le_add_left (Nat.zero_le _) _

theorem feedDataCrlf_extent (byte : UInt8) (f : ParserFields) :
    (feedDataCrlf byte f).lineStart + (feedDataCrlf byte f).lineSize = f.lineStart + f.lineSize := by
  unfold feedDataCrlf
  split_ifs <;> rfl

theorem feedChunkMetadata_agree {p q : RequestParser} (byte : UInt8) (agree : Agree p q) :
    Agree (feedChunkMetadata p byte) (feedChunkMetadata q byte) := by
  obtain ⟨f, storage⟩ := p
  obtain ⟨g, other⟩ := q
  obtain rfl : f = g := agree.fields
  have counted : Agree (RequestParser.onFields ⟨f, storage⟩ countMetadata)
      (RequestParser.onFields ⟨f, other⟩ countMetadata) := agree.onFields le_rfl
  unfold feedChunkMetadata
  refine .ite (fun _ => ?_) fun _ => .ite (fun _ => ?_) fun _ =>
    .ite (fun _ => .ite (fun _ => ?_) fun _ => ?_) fun _ => .ite (fun _ => ?_) fun _ =>
    .ite (fun _ => ?_) fun _ => ?_
  · exact counted.setState .error
  · exact counted.onFields (feedDataCrlf_extent byte _).le
  · exact (counted.setPendingCr false).setState .error
  · rw [← (counted.setPendingCr false).line]
    exact (counted.setPendingCr false).onFields (finishMetadataLine_extent _ _)
  · exact counted.setPendingCr true
  · exact counted.setState .error
  · exact counted.store byte

/-- A new `kError` gets its status. -/
theorem Agree.settle {p q : RequestParser} (agree : Agree p q) :
    Agree (if p.state = .error && p.status = .needMore then { p with status := .badRequest } else p)
      (if q.state = .error && q.status = .needMore then { q with status := .badRequest } else q) := by
  obtain ⟨f, storage⟩ := p
  obtain ⟨g, other⟩ := q
  obtain rfl : f = g := agree.fields
  refine .ite (fun _ => ?_) fun _ => agree
  exact agree.onFields (f := fun f => { f with status := .badRequest }) le_rfl

theorem feedMetadataByte_agree {p q : RequestParser} (byte : UInt8) (agree : Agree p q) :
    Agree (feedMetadataByte p byte) (feedMetadataByte q byte) :=
  (feedChunkMetadata_agree byte (agree.onFields (f := fun f =>
    { f with requestBytes := f.requestBytes + 1, scanSteps := f.scanSteps + 1 }) le_rfl)).settle

theorem appendBody_agree {p q : RequestParser} (bytes : Bytes) (agree : Agree p q) :
    Agree (appendBody p bytes).1 (appendBody q bytes).1 := by
  obtain ⟨f, storage⟩ := p
  obtain ⟨g, other⟩ := q
  obtain rfl : f = g := agree.fields
  have copied := agree.onFields (f := fun f =>
    { f with
      body := f.body ++ bytes.take (min bytes.length (f.contentLength - f.body.length))
      requestBytes := f.requestBytes + min bytes.length (f.contentLength - f.body.length)
      scanSteps := f.scanSteps + min bytes.length (f.contentLength - f.body.length) }) le_rfl
  exact .ite (fun _ => copied.onFields le_rfl) fun _ => copied

theorem appendChunk_agree {p q : RequestParser} (bytes : Bytes) (agree : Agree p q) :
    Agree (appendChunk p bytes).1 (appendChunk q bytes).1 := by
  obtain ⟨f, storage⟩ := p
  obtain ⟨g, other⟩ := q
  obtain rfl : f = g := agree.fields
  have copied := agree.onFields (f := fun f =>
    { f with
      body := f.body ++ bytes.take (min f.chunkRemaining bytes.length)
      chunkRemaining := f.chunkRemaining - min f.chunkRemaining bytes.length
      requestBytes := f.requestBytes + min f.chunkRemaining bytes.length
      scanSteps := f.scanSteps + min f.chunkRemaining bytes.length }) le_rfl
  exact .ite (fun _ => copied.setState .chunkDataCrlf) fun _ => copied

/-- **One byte does not tell parsers that agree apart.** -/
theorem feedByte_agree {p q : RequestParser} (c : UInt8) (agree : Agree p q)
    (framed : Framed p.toParserFields) : Agree (feedByte p c) (feedByte q c) := by
  unfold feedByte
  rw [← agree.fields]
  cases p.state with
  | requestLine => exact feedHeaderByte_agree c agree framed
  | headers => exact feedHeaderByte_agree c agree framed
  | body => exact appendBody_agree [c] agree
  | chunkData => exact appendChunk_agree [c] agree
  | chunkSize => exact feedMetadataByte_agree c agree
  | chunkDataCrlf => exact feedMetadataByte_agree c agree
  | trailers => exact feedMetadataByte_agree c agree
  | complete => exact agree
  | error => exact agree

/-! ### Where the parts of the request lie -/

theorem Framed.keep {f g : ParserFields} (framed : Framed f) (method : g.methodSize = f.methodSize)
    (start : g.targetStart = f.targetStart) (size : g.targetSize = f.targetSize)
    (line : g.lineStart = f.lineStart) (state : g.state = .requestLine → f.state = .requestLine) :
    Framed g := by
  refine ⟨?_, ?_, fun isLine => ?_⟩
  · rw [method, line]
    exact framed.method
  · rw [start, size, line]
    exact framed.target
  · rw [line]
    exact framed.requestLine (state isLine)

theorem Turn.framed {p q : RequestParser} {c : UInt8} (turn : Turn p c q) (framed : Framed p.toParserFields) :
    Framed q.toParserFields := by
  cases turn with
  | requestLine isLine valid =>
    obtain ⟨method, target⟩ := validateRequestLine_bounds valid
    rw [slice_length] at method target
    exact ⟨method, target, fun isLine => by cases isLine⟩
  | headersEnd =>
    refine framed.keep rfl rfl rfl rfl fun isLine => ?_
    cases (congrArg ParserState.isHeader isLine).symm.trans (bodyState_past p.toHeaderFields).2
  | @size size =>
    refine framed.keep rfl rfl rfl rfl fun isLine => ?_
    by_cases zero : size = 0
    · cases (if_pos zero).symm.trans isLine
    · cases (if_neg zero).symm.trans isLine
  | cr => exact framed.keep rfl rfl rfl rfl id
  | stored => exact framed.keep rfl rfl rfl rfl id
  | field => exact framed.keep rfl rfl rfl rfl id
  | dataCr => exact framed.keep rfl rfl rfl rfl id
  | _ => exact framed.keep rfl rfl rfl rfl fun isLine => by cases isLine

theorem feedByte_framed {p : RequestParser} (c : UInt8) (framed : Framed p.toParserFields) :
    Framed (feedByte p c).toParserFields := by
  refine feedByte_of_turn (P := fun q => Framed q.toParserFields) c framed (fun _ => ?_) (fun _ => ?_)
    (fun _ turn _ => turn.framed (framed.keep rfl rfl rfl rfl id)) fun _ _ kept _ =>
      kept.keep rfl rfl rfl rfl fun isLine => by cases isLine
  · unfold appendBody finishRequest
    dsimp only
    split
    · exact framed.keep rfl rfl rfl rfl fun isLine => by cases isLine
    · exact framed.keep rfl rfl rfl rfl id
  · unfold appendChunk
    dsimp only
    split
    · exact framed.keep rfl rfl rfl rfl fun isLine => by cases isLine
    · exact framed.keep rfl rfl rfl rfl id

/-! ### Calls -/

theorem clear_agree {p q : RequestParser} (agree : Agree p q) :
    Agree (p.onFields clearHeadersComplete) (q.onFields clearHeadersComplete) := by
  refine agree.onFields ?_
  obtain ⟨_, shape⟩ := clearHeadersComplete_shape p.toParserFields
  rw [shape]

theorem clear_framed {f : ParserFields} (framed : Framed f) : Framed (clearHeadersComplete f) := by
  obtain ⟨_, shape⟩ := clearHeadersComplete_shape f
  rw [shape]
  exact framed.keep rfl rfl rfl rfl id

theorem byteLoop_agree (bytes : Bytes) : ∀ p q : RequestParser, Agree p q → Framed p.toParserFields →
    p.status ≠ .headersComplete →
    Agree (byteLoop p bytes).1 (byteLoop q bytes).1 ∧ (byteLoop p bytes).2 = (byteLoop q bytes).2 ∧
      Framed (byteLoop p bytes).1.toParserFields := by
  induction bytes with
  | nil => exact fun p q agree framed _ => ⟨agree, rfl, framed⟩
  | cons c rest ih =>
    intro p q agree framed cleared
    by_cases final : p.state.isFinal = true
    · rw [byteLoop_final _ final, byteLoop_final _ (agree.fields ▸ final)]
      exact ⟨agree, rfl, framed⟩
    · have live : p.state.isFinal = false := by simpa using final
      have next := feedByte_agree c agree framed
      rw [byteLoop_cons c rest live, byteLoop_cons c rest (agree.fields ▸ live), ← next.fields]
      split
      · exact ⟨next, rfl, feedByte_framed c framed⟩
      · next open1 => exact ih _ _ next (feedByte_framed c framed) open1

/-- Parsers that agree answer alike. -/
theorem buildFeedResult_agree {p q : RequestParser} (accepted : Nat) (agree : Agree p q)
    (framed : Framed p.toParserFields) : buildFeedResult p accepted = buildFeedResult q accepted := by
  have method : slice p.storage 0 p.methodSize = slice q.storage 0 p.methodSize :=
    slice_congr fun i _ below => agree.storage i (by have := framed.method; omega)
  have target : slice p.storage p.targetStart p.targetSize
      = slice q.storage p.targetStart p.targetSize :=
    slice_congr fun i _ below => agree.storage i (by have := framed.target; omega)
  unfold buildFeedResult
  rw [← agree.fields, method, target]

/-- **Parsers that agree give the same answer to a call**, and agree again. -/
theorem feedRequestBytes_agree {p q : RequestParser} (bytes : Bytes) (agree : Agree p q)
    (framed : Framed p.toParserFields) (coherent : Coherent p.toParserFields) :
    (feedRequestBytes p bytes).2 = (feedRequestBytes q bytes).2 ∧
      Agree (feedRequestBytes p bytes).1 (feedRequestBytes q bytes).1 ∧
      Framed (feedRequestBytes p bytes).1.toParserFields := by
  obtain ⟨next, rest, nextFramed⟩ := byteLoop_agree bytes _ _ (clear_agree agree)
    (clear_framed framed) (clearHeadersComplete_cleared _)
  rw [feedRequestBytes_eq bytes coherent, feedRequestBytes_eq bytes (agree.fields ▸ coherent)]
  refine ⟨?_, next, nextFramed⟩
  show buildFeedResult _ _ = buildFeedResult _ _
  rw [rest]
  exact buildFeedResult_agree _ next nextFramed

/-! ### After a reset -/

/-- A reset parser agrees with a new one: only the array is left, and none of it is held. -/
theorem resetRequestParser_agree (p : RequestParser) : Agree (resetRequestParser p) {} where
  fields := rfl
  storage i below := absurd below (Nat.not_lt_zero i)

/-- The calls a user of the parser makes. -/
inductive ParserCall where
  | feed (bytes : Bytes)
  | reset

/-- The answers to a list of calls, each with the members left after it (`isHeadRequest`,
`bufferedBytes`, `scanSteps` and `peakBufferedBytes` read them). -/
def parserAnswers : RequestParser → List ParserCall → List (FeedResult × ParserFields)
  | _, [] => []
  | p, .feed bytes :: calls =>
    ((feedRequestBytes p bytes).2, (feedRequestBytes p bytes).1.toParserFields) ::
      parserAnswers (feedRequestBytes p bytes).1 calls
  | p, .reset :: calls => parserAnswers (resetRequestParser p) calls

theorem parserAnswers_agree (calls : List ParserCall) : ∀ p q : RequestParser, Agree p q →
    Framed p.toParserFields → Coherent p.toParserFields →
    parserAnswers p calls = parserAnswers q calls := by
  induction calls with
  | nil => exact fun p q _ _ _ => rfl
  | cons call calls ih =>
    intro p q agree framed coherent
    cases call with
    | feed bytes =>
      obtain ⟨same, next, nextFramed⟩ := feedRequestBytes_agree bytes agree framed coherent
      rw [parserAnswers, parserAnswers, same, next.fields,
        ih _ _ next nextFramed (feedRequestBytes_coherent bytes coherent)]
    | reset =>
      rw [parserAnswers, parserAnswers]
      refine ih _ _ ⟨rfl, fun i below => absurd below (Nat.not_lt_zero i)⟩ framed_initial
        coherent_initial

/-- **After a reset every call answers as on a new parser**, whatever the parser was. -/
theorem parserAnswers_reset (p : RequestParser) (calls : List ParserCall) :
    parserAnswers (resetRequestParser p) calls = parserAnswers {} calls :=
  parserAnswers_agree calls _ _ (resetRequestParser_agree p) framed_initial coherent_initial

end HpServer.Http
