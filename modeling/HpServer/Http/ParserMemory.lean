/-
**What a parser keeps of a request is bounded.**

A parser keeps header bytes in its array and the decoded body. Every limit of the source is one clause of
`Retained`, which every byte keeps.

* `feedByte_retained` — **one byte.** A header byte moves `bufferedBytes` by one and is counted; the count stops
  at `kMaxHeaderBytes` (`Turn.bounded`, `Turn.headed`). A declared body and a chunk are checked against
  `kMaxBodyBytes` before they are read (`Turn.due`).
* `parserAnswers_retained` — **any sequence of calls on a new parser**, resets included.
-/

import HpServer.Http.ParserReset

namespace HpServer.Http

/-- The limits on what a parser keeps. -/
structure Retained (f : ParserFields) : Prop where
  buffered : f.bufferedBytes ≤ kMaxHeaderBytes
  header : f.state.isHeader = true → f.bufferedBytes ≤ f.headerBytes ∧ f.headerBytes < kMaxHeaderBytes
  body : f.body.length ≤ kMaxBodyBytes
  declared : f.state = .body → f.contentLength ≤ kMaxBodyBytes
  chunk : f.state = .chunkData → f.body.length + f.chunkRemaining ≤ kMaxBodyBytes

theorem retained_initial : Retained {} where
  buffered := Nat.zero_le _
  header _ := ⟨Nat.le_refl _, by decide⟩
  body := Nat.zero_le _
  declared isBody := nomatch isBody
  chunk isData := nomatch isData

/-! ### Lines -/

/-- A header section that is accepted has room for the body it declares. -/
theorem refusal_declared {h : HeaderFields} (admitted : h.refusal = none) : h.contentLength ≤ kMaxBodyBytes := by
  unfold HeaderFields.refusal at admitted
  by_contra large
  rw [if_pos (Nat.lt_of_not_le large)] at admitted
  cases admitted

section Lines

variable {p q : RequestParser} {c : UInt8} (turn : Turn (p.onFields ParserFields.counted) c q)
  (retained : Retained p.toParserFields)

include turn retained

/-- **A byte is stored inside the array.** A header byte has been counted before, and the count stops at the size of
the array; behind the header section the place is looked at. -/
theorem Turn.bounded : q.bufferedBytes ≤ kMaxHeaderBytes ∧ q.body.length ≤ kMaxBodyBytes := by
  have buffered : p.lineStart + p.lineSize ≤ kMaxHeaderBytes := retained.buffered
  have closed : p.lineStart + 0 ≤ kMaxHeaderBytes := by omega
  cases turn with
  | refused kept work shorter =>
    have shorter : _ ≤ p.lineSize := shorter
    exact ⟨Nat.le_trans (Nat.add_le_add_left shorter _) buffered, retained.body⟩
  | cr => exact ⟨buffered, retained.body⟩
  | stored peak notCrlf plain short room =>
    refine ⟨?_, retained.body⟩
    show p.lineStart + (p.lineSize + 1) ≤ kMaxHeaderBytes
    rcases room with isHeader | below
    · have header : p.lineStart + p.lineSize ≤ p.headerBytes ∧ p.headerBytes < kMaxHeaderBytes :=
        retained.header isHeader
      omega
    · have below : p.lineStart + p.lineSize ≠ kMaxHeaderBytes := below
      omega
  | requestLine =>
    refine ⟨?_, retained.body⟩
    show p.lineSize + 0 ≤ kMaxHeaderBytes
    omega
  | dataCr => exact ⟨buffered, retained.body⟩
  | dataLf => exact ⟨buffered, retained.body⟩
  | _ => exact ⟨closed, retained.body⟩

/-- A header byte leaves the line it belongs to among the counted bytes. -/
theorem Turn.headed (isHeader : p.state.isHeader = true) (still : q.state.isHeader = true)
    (open1 : q.headerBytes ≠ kMaxHeaderBytes) :
    q.bufferedBytes ≤ q.headerBytes ∧ q.headerBytes < kMaxHeaderBytes := by
  have header : p.lineStart + p.lineSize ≤ p.headerBytes ∧ p.headerBytes < kMaxHeaderBytes := retained.header isHeader
  have bytes : q.headerBytes = p.headerBytes + 1 := by
    have counted : p.counted.headerBytes = p.headerBytes + 1 := if_pos isHeader
    cases turn <;> exact counted
  have line : q.lineStart + q.lineSize ≤ p.lineStart + p.lineSize + 1 := by
    cases turn with
    | refused kept work shorter => exact Nat.le_succ_of_le (Nat.add_le_add_left shorter _)
    | cr => exact Nat.le_succ _
    | stored => exact Nat.le_refl _
    | requestLine =>
      show p.lineSize + 0 ≤ p.lineStart + p.lineSize + 1
      omega
    | dataCr => exact Nat.le_succ _
    | dataLf => exact Nat.le_succ _
    | _ =>
      show p.lineStart + 0 ≤ p.lineStart + p.lineSize + 1
      omega
  show q.lineStart + q.lineSize ≤ _ ∧ _
  omega

/-- What a turn leaves to be read fits: a declared body, and the data of a chunk. -/
theorem Turn.due (line : p.state ≠ .body ∧ p.state ≠ .chunkData) :
    (q.state = .body → q.contentLength ≤ kMaxBodyBytes)
      ∧ (q.state = .chunkData → q.body.length + q.chunkRemaining ≤ kMaxBodyBytes) := by
  have neither : ∀ {state : ParserState} {declared fits : Prop}, state ≠ .body ∧ state ≠ .chunkData →
      (state = .body → declared) ∧ (state = .chunkData → fits) :=
    fun apart => ⟨fun isBody => absurd isBody apart.1, fun isData => absurd isData apart.2⟩
  cases turn with
  | refused => exact neither (by simp)
  | requestLine => exact neither (by simp)
  | headersEnd isHeaders needMore framed admitted =>
    refine ⟨fun _ => refusal_declared admitted, fun isData => ?_⟩
    have isData : p.toHeaderFields.bodyState = .chunkData := isData
    unfold HeaderFields.bodyState at isData
    split_ifs at isData
  | @size size isSize fits =>
    have fits : size ≤ kMaxBodyBytes - p.body.length := fits
    have body := retained.body
    by_cases zero : size = 0
    · exact neither (by simp [zero])
    · refine ⟨by simp [zero], fun _ => ?_⟩
      show p.body.length + size ≤ kMaxBodyBytes
      omega
  | trailersEnd => exact neither (by simp)
  | dataLf => exact neither (by simp)
  | _ => exact neither line

end Lines

/-! ### Body bytes -/

theorem appendBody_retained {p : RequestParser} (bytes : Bytes) (isBody : p.state = .body)
    (retained : Retained p.toParserFields) : Retained (appendBody p bytes).1.toParserFields := by
  have declared := retained.declared isBody
  have body := retained.body
  have longer : (p.body ++ bytes.take (min bytes.length (p.contentLength - p.body.length))).length
      ≤ kMaxBodyBytes := by
    rw [List.length_append, List.length_take]
    omega
  unfold appendBody
  dsimp only
  split
  · exact ⟨retained.buffered, nofun, longer, nofun, nofun⟩
  · refine ⟨retained.buffered, fun isHeader => ?_, longer, fun _ => declared, fun isData => ?_⟩
    · exact absurd (isBody ▸ isHeader : ParserState.body.isHeader = true) (by decide)
    · exact absurd (isBody.symm.trans isData) (by decide)

theorem appendChunk_retained {p : RequestParser} (bytes : Bytes) (isData : p.state = .chunkData)
    (retained : Retained p.toParserFields) : Retained (appendChunk p bytes).1.toParserFields := by
  have fits := retained.chunk isData
  have longer : (p.body ++ bytes.take (min p.chunkRemaining bytes.length)).length
      + (p.chunkRemaining - min p.chunkRemaining bytes.length) ≤ kMaxBodyBytes := by
    rw [List.length_append, List.length_take]
    omega
  unfold appendChunk
  dsimp only
  split
  · exact ⟨retained.buffered, nofun, Nat.le_trans (Nat.le_add_right _ _) longer, nofun, nofun⟩
  · refine ⟨retained.buffered, fun isHeader => ?_, Nat.le_trans (Nat.le_add_right _ _) longer,
      fun isBody => ?_, fun _ => longer⟩
    · exact absurd (isData ▸ isHeader : ParserState.chunkData.isHeader = true) (by decide)
    · exact absurd (isData.symm.trans isBody) (by decide)

/-! ### Runs -/

/-- **Every byte keeps the limits.** -/
theorem feedByte_retained {p : RequestParser} (c : UInt8) (cleared : p.status ≠ .headersComplete)
    (retained : Retained p.toParserFields) : Retained (feedByte p c).toParserFields := by
  by_cases final : p.state.isFinal = true
  · rw [feedByte_final c final]
    exact retained
  have step := feedByte_step c (by simpa using final)
  generalize feedByte p c = r at step ⊢
  cases step with
  | body isBody => exact appendBody_retained [c] isBody retained
  | chunkData isData => exact appendChunk_retained [c] isData retained
  | line turn settled within =>
    obtain ⟨buffered, body⟩ := turn.bounded retained
    cases settled with
    | failed => exact ⟨buffered, fun isHeader => (by cases isHeader), body, (by simp), (by simp)⟩
    | kept =>
      have apart : p.state ≠ .body ∧ p.state ≠ .chunkData := by
        constructor <;> intro same <;> rw [same] at within <;> rcases within with ⟨h, -⟩ | ⟨h, -⟩ <;> cases h
      obtain ⟨declared, chunk⟩ := turn.due retained apart
      refine ⟨buffered, fun still => ?_, body, declared, chunk⟩
      rcases within with ⟨isHeader, inside⟩ | ⟨isMetadata, -⟩
      · exact turn.headed retained isHeader still (inside still)
      · cases (turn.past ⟨(isMetadata_past_live isMetadata).1, cleared⟩).state.symm.trans still

/-! ### Any calls -/

section Keeps

variable {P : ParserFields → Prop}
  (step : ∀ (p : RequestParser) (c : UInt8), p.status ≠ .headersComplete → P p.toParserFields →
    P (feedByte p c).toParserFields)

include step

theorem byteLoop_keeps (bytes : Bytes) : ∀ p : RequestParser, p.status ≠ .headersComplete →
    P p.toParserFields → P (byteLoop p bytes).1.toParserFields := by
  induction bytes with
  | nil => exact fun p _ kept => kept
  | cons c rest ih =>
    intro p cleared kept
    by_cases final : p.state.isFinal = true
    · rw [byteLoop_final _ final]
      exact kept
    · rw [byteLoop_cons c rest (by simpa using final)]
      have next := step p c cleared kept
      split
      · exact next
      · next more => exact ih _ more next

variable (status : ∀ (f : ParserFields) (status : ParseStatus), P f → P { f with status := status })

include status

theorem feedRequestBytes_keeps {p : RequestParser} (bytes : Bytes) (coherent : Coherent p.toParserFields)
    (kept : P p.toParserFields) : P (feedRequestBytes p bytes).1.toParserFields := by
  rw [feedRequestBytes_eq bytes coherent]
  refine byteLoop_keeps step bytes _ (clearHeadersComplete_cleared _) ?_
  obtain ⟨left, shape⟩ := clearHeadersComplete_shape p.toParserFields
  rw [onFields_toParserFields, shape]
  exact status _ left kept

/-- **What every byte keeps holds after any calls on a new parser**, resets included, and what a call gives is the
answer of such a parser. -/
theorem parserAnswers_keeps (initial : P {}) (calls : List ParserCall) {result : FeedResult} {fields : ParserFields}
    (answered : (result, fields) ∈ parserAnswers {} calls) :
    P fields ∧ ∃ p : RequestParser, ∃ bytes, Coherent p.toParserFields ∧ P p.toParserFields
      ∧ result = (feedRequestBytes p bytes).2 := by
  have run : ∀ (calls : List ParserCall) (p : RequestParser), Coherent p.toParserFields → P p.toParserFields →
      (result, fields) ∈ parserAnswers p calls → P fields ∧ ∃ p : RequestParser, ∃ bytes, Coherent p.toParserFields
        ∧ P p.toParserFields ∧ result = (feedRequestBytes p bytes).2 := by
    intro calls
    induction calls with
    | nil => exact fun p _ _ none => nomatch none
    | cons call calls ih =>
      intro p coherent kept answered
      cases call with
      | feed bytes =>
        have next := feedRequestBytes_keeps step status bytes coherent kept
        rcases List.mem_cons.mp answered with same | later
        · cases same
          exact ⟨next, p, bytes, coherent, kept, rfl⟩
        · exact ih _ (feedRequestBytes_coherent bytes coherent) next later
      | reset => exact ih _ coherent_initial initial answered
  exact run calls {} coherent_initial initial answered

end Keeps

theorem Retained.withStatus {f : ParserFields} (status : ParseStatus) (retained : Retained f) :
    Retained { f with status := status } :=
  ⟨retained.buffered, retained.header, retained.body, retained.declared, retained.chunk⟩

theorem feedRequestBytes_retained {p : RequestParser} (bytes : Bytes) (coherent : Coherent p.toParserFields)
    (retained : Retained p.toParserFields) : Retained (feedRequestBytes p bytes).1.toParserFields :=
  feedRequestBytes_keeps (P := Retained) (fun _ c => feedByte_retained c) (fun _ status => .withStatus status) bytes
    coherent retained

/-- A request that is reported has a body the parser keeps. -/
theorem feedRequestBytes_body {p : RequestParser} (bytes : Bytes) (coherent : Coherent p.toParserFields)
    (retained : Retained p.toParserFields) : (feedRequestBytes p bytes).2.request.body.length ≤ kMaxBodyBytes := by
  have next := (feedRequestBytes_retained bytes coherent retained).body
  rw [feedRequestBytes_eq bytes coherent] at next ⊢
  show (buildFeedResult _ _).request.body.length ≤ _
  unfold buildFeedResult
  dsimp only
  split
  · exact next
  · exact Nat.zero_le _

/-- **After any calls on a new parser** it keeps no more than a header section and a body, and so does every
request it reports. -/
theorem parserAnswers_retained (calls : List ParserCall) {result : FeedResult} {fields : ParserFields}
    (answered : (result, fields) ∈ parserAnswers {} calls) :
    Retained fields ∧ result.request.body.length ≤ kMaxBodyBytes := by
  obtain ⟨retained, p, bytes, coherent, before, rfl⟩ := parserAnswers_keeps (P := Retained)
    (fun _ c => feedByte_retained c) (fun _ status => .withStatus status) retained_initial calls answered
  exact ⟨retained, feedRequestBytes_body bytes coherent before⟩

end HpServer.Http
