/-
**The array and the counters of the parser stay in their bounds.**

Only the length of the request line is looked at where a header byte is stored. That the array is large enough follows
from the counters: the header bytes counted so far hold the line being assembled, and behind the header section the
limits on size lines and trailers leave the rest of the array unused.

* `Slots` — where the line being assembled can be in each state, and what the counters of the chunks can be.
* `Tallied`, `Declared`, `Measured` — the byte counts, the numbers read from the field lines, and the size of the body.
* `parser_bounds` — **all of it after any input, however it is cut**, and what the next byte can write.
-/

import HpServer.Http.CapturedFields
import HpServer.Http.RequestMethod
import HpServer.Http.ParserWork

namespace HpServer.Http

/-! ### Lines -/

/-- What bounds the line being assembled in each state. -/
def InSlot (state : ParserState) (lineSize chunkLineBytes trailerBytes : Nat) : Prop :=
  match state with
  | .requestLine => lineSize ≤ kMaxRequestLineBytes
  | .chunkSize => lineSize ≤ chunkLineBytes
  | .trailers => lineSize ≤ trailerBytes
  | .body | .chunkData | .chunkDataCrlf => lineSize = 0
  | .headers | .complete | .error => True

theorem inSlot_zero (state : ParserState) (chunkLineBytes trailerBytes : Nat) :
    InSlot state 0 chunkLineBytes trailerBytes := by
  cases state <;> simp [InSlot]

def ParserFields.WithinLimits (f : ParserFields) : Prop :=
  f.metadataBytes ≤ kMaxChunkMetadataBytes ∧ f.trailerBytes ≤ kMaxTrailerBytes ∧ f.chunkLineBytes ≤ kMaxChunkLineBytes

theorem withinLimits_iff {f : ParserFields} : f.WithinLimits ↔ metadataOverflow f = false := by
  simp [metadataOverflow, ParserFields.WithinLimits, and_assoc]

/-- **Where the line being assembled is**, and how far the counters of the chunks have come. -/
structure Slots (f : ParserFields) : Prop where
  start : f.lineStart ≤ kMaxRequestLineBytes
  line : InSlot f.state f.lineSize f.chunkLineBytes f.trailerBytes
  within : f.state ≠ .error → f.WithinLimits
  limits : f.metadataBytes ≤ kMaxChunkMetadataBytes + 1 ∧ f.trailerBytes ≤ kMaxTrailerBytes + 1
    ∧ f.chunkLineBytes ≤ kMaxChunkLineBytes + 1 ∧ f.dataCrlfBytes ≤ 1

theorem slots_initial : Slots {} where
  start := Nat.zero_le _
  line := Nat.zero_le _
  within _ := ⟨Nat.zero_le _, Nat.zero_le _, Nat.zero_le _⟩
  limits := ⟨Nat.zero_le _, Nat.zero_le _, Nat.zero_le _, Nat.zero_le _⟩

/-- **Behind the header section the array is never full.** -/
theorem Slots.room {f : ParserFields} (slots : Slots f) (kind : f.state = .chunkSize ∨ f.state = .trailers) :
    f.lineStart + f.lineSize < kMaxHeaderBytes := by
  have start := slots.start
  have line := slots.line
  obtain ⟨-, trailer, chunkLine⟩ := slots.within (by rcases kind with state | state <;> rw [state] <;> decide)
  unfold kMaxRequestLineBytes at start
  unfold kMaxTrailerBytes at trailer
  unfold kMaxChunkLineBytes at chunkLine
  unfold kMaxHeaderBytes
  rcases kind with state | state <;> rw [state] at line
  · have line : f.lineSize ≤ f.chunkLineBytes := line
    omega
  · have line : f.lineSize ≤ f.trailerBytes := line
    omega

theorem counted_limits {f : ParserFields} (within : f.WithinLimits) :
    f.counted.metadataBytes ≤ kMaxChunkMetadataBytes + 1 ∧ f.counted.trailerBytes ≤ kMaxTrailerBytes + 1
      ∧ f.counted.chunkLineBytes ≤ kMaxChunkLineBytes + 1 := by
  obtain ⟨metadata, trailer, chunkLine⟩ := within
  unfold ParserFields.counted
  dsimp only
  refine ⟨?_, ?_, ?_⟩ <;> split <;> omega

/-- A line that gets one more byte has been counted. -/
theorem Slots.stored {f : ParserFields} (slots : Slots f) (line : f.state.isHeader = true ∨ f.state.isMetadata = true)
    (notCrlf : f.state ≠ .chunkDataCrlf) (short : f.state = .requestLine → f.lineSize ≠ kMaxRequestLineBytes) :
    InSlot f.state (f.lineSize + 1) f.counted.chunkLineBytes f.counted.trailerBytes := by
  have before := slots.line
  unfold ParserFields.counted
  cases state : f.state with
  | requestLine =>
    rw [state] at before
    exact Nat.lt_of_le_of_ne before (short state)
  | chunkSize =>
    rw [state] at before
    exact Nat.succ_le_succ before
  | trailers =>
    rw [state] at before
    exact Nat.succ_le_succ before
  | chunkDataCrlf => exact absurd state notCrlf
  | body => rw [state] at line; rcases line with h | h <;> cases h
  | chunkData => rw [state] at line; rcases line with h | h <;> cases h
  | _ => exact trivial

/-- The counters only grow. -/
theorem Slots.kept {f : ParserFields} (slots : Slots f) :
    InSlot f.state f.lineSize f.counted.chunkLineBytes f.counted.trailerBytes := by
  have before := slots.line
  unfold ParserFields.counted
  cases state : f.state with
  | chunkSize =>
    rw [state] at before
    exact Nat.le_succ_of_le before
  | trailers =>
    rw [state] at before
    exact Nat.le_succ_of_le before
  | _ =>
    rw [state] at before
    exact before

section Turn

variable {p q : RequestParser} {c : UInt8} (turn : Turn (p.onFields ParserFields.counted) c q)
  (live : p.state ≠ .error) (before : Slots p.toParserFields)

include turn live before

/-- The counters move by one, and the request line is kept. -/
theorem Turn.slots_limits : q.lineStart ≤ kMaxRequestLineBytes
    ∧ q.metadataBytes ≤ kMaxChunkMetadataBytes + 1 ∧ q.trailerBytes ≤ kMaxTrailerBytes + 1
    ∧ q.chunkLineBytes ≤ kMaxChunkLineBytes + 1 ∧ q.dataCrlfBytes ≤ 1 := by
  obtain ⟨metadata, trailer, chunkLine⟩ := counted_limits (before.within live)
  have crlf := before.limits.2.2.2
  cases turn with
  | refused kept work shorter smaller => exact ⟨before.start, metadata, trailer, smaller.trans chunkLine, crlf⟩
  | requestLine isLine =>
    have line := before.line
    rw [show p.state = .requestLine from isLine] at line
    exact ⟨line, metadata, trailer, chunkLine, crlf⟩
  | size => exact ⟨before.start, metadata, trailer, Nat.zero_le _, crlf⟩
  | dataCr isCrlf first =>
    have first : p.dataCrlfBytes ≠ 1 := first
    refine ⟨before.start, metadata, trailer, chunkLine, ?_⟩
    show p.dataCrlfBytes + 1 ≤ 1
    omega
  | dataLf => exact ⟨before.start, metadata, trailer, Nat.zero_le _, Nat.zero_le _⟩
  | _ => exact ⟨before.start, metadata, trailer, chunkLine, crlf⟩

theorem Turn.slots (open1 : q.state ≠ .error) (line : p.state.isHeader = true ∨ p.state.isMetadata = true)
    (inside : p.counted.WithinLimits) : Slots q.toParserFields := by
  obtain ⟨start, limits⟩ := turn.slots_limits live before
  cases turn with
  | refused => exact absurd rfl open1
  | cr => exact ⟨start, before.kept, fun _ => inside, limits⟩
  | stored peak notCrlf plain short => exact ⟨start, before.stored line notCrlf short, fun _ => inside, limits⟩
  | size => exact ⟨start, inSlot_zero _ _ _, fun _ => ⟨inside.1, inside.2.1, Nat.zero_le _⟩, limits⟩
  | dataCr => exact ⟨start, before.kept, fun _ => inside, limits⟩
  | dataLf isCrlf =>
    have blank := before.line
    rw [show p.state = .chunkDataCrlf from isCrlf] at blank
    have blank : p.lineSize = 0 := blank
    refine ⟨start, ?_, fun _ => ⟨inside.1, inside.2.1, Nat.zero_le _⟩, limits⟩
    show p.lineSize ≤ 0
    omega
  | _ => exact ⟨start, inSlot_zero _ _ _, fun _ => inside, limits⟩

end Turn

theorem feedByte_slots (p : RequestParser) (c : UInt8) (before : Slots p.toParserFields) :
    Slots (feedByte p c).toParserFields := by
  by_cases final : p.state.isFinal = true
  · rw [feedByte_final c final]
    exact before
  have live : p.state ≠ .error := fun isError => final (by rw [isError]; rfl)
  have step := feedByte_step c (by simpa using final)
  generalize feedByte p c = r at step ⊢
  cases step with
  | line turn settled within =>
    cases settled with
    | failed =>
      obtain ⟨start, limits⟩ := turn.slots_limits live before
      exact ⟨start, trivial, fun open1 => absurd rfl open1, limits⟩
    | kept open1 =>
      rcases within with ⟨isHeader, -⟩ | ⟨isMetadata, inside⟩
      · refine turn.slots live before open1 (.inl isHeader) ?_
        rw [counted_header isHeader]
        exact before.within live
      · exact turn.slots live before open1 (.inr isMetadata) (withinLimits_iff.mpr (inside.resolve_left open1))
  | body isBody =>
    have line := before.line
    rw [isBody] at line
    unfold appendBody finishRequest
    dsimp only
    split
    · exact ⟨before.start, trivial, fun _ => before.within live, before.limits⟩
    · exact ⟨before.start, by rw [isBody]; exact line, fun _ => before.within live, before.limits⟩
  | chunkData isData =>
    have line := before.line
    rw [isData] at line
    unfold appendChunk
    dsimp only
    split
    · exact ⟨before.start, line, fun _ => before.within live, before.limits⟩
    · exact ⟨before.start, by rw [isData]; exact line, fun _ => before.within live, before.limits⟩

/-! ### Counts -/

/-- **Every accepted byte is a header byte, a byte around the chunks or a body byte**, and the header bytes fit the
array. -/
structure Tallied (f : ParserFields) : Prop where
  bytes : f.requestBytes = f.headerBytes + f.metadataBytes + f.body.length
  header : f.headerBytes ≤ kMaxHeaderBytes

theorem Turn.tallied {p q : RequestParser} {c : UInt8} (turn : Turn (p.onFields ParserFields.counted) c q)
    (retained : Retained p.toParserFields) (before : Tallied p.toParserFields) : Tallied q.toParserFields := by
  have bytes := before.bytes
  have header := before.header
  have counted : Tallied p.counted := by
    unfold ParserFields.counted
    by_cases isHeader : p.state.isHeader = true
    · have below := (retained.header isHeader).2
      refine ⟨?_, ?_⟩ <;> simp only [isHeader, if_true] <;> omega
    · refine ⟨?_, ?_⟩ <;> simp only [isHeader] <;> simp only [Bool.false_eq_true, if_false] <;> omega
  cases turn <;> exact ⟨counted.bytes, counted.header⟩

theorem feedByte_tallied (p : RequestParser) (c : UInt8) (coherent : Coherent p.toParserFields)
    (retained : Retained p.toParserFields) (before : Tallied p.toParserFields) :
    Tallied (feedByte p c).toParserFields := by
  have bytes := before.bytes
  refine feedByte_of_turn (P := fun q => Tallied q.toParserFields) c before (fun isBody => ?_) (fun isData => ?_)
    (fun _ turn _ => turn.tallied retained before) fun _ _ kept _ => ⟨kept.bytes, kept.header⟩
  · have room := coherent.body isBody
    have one : min [c].length (p.contentLength - p.body.length) = 1 := by
      rw [List.length_singleton]
      omega
    have next : p.requestBytes + 1 = p.headerBytes + p.metadataBytes + (p.body ++ [c]).length := by
      rw [List.length_append, List.length_singleton]
      omega
    unfold appendBody finishRequest
    rw [one]
    dsimp only
    split <;> exact ⟨next, before.header⟩
  · have room := coherent.chunkData isData
    have one : min p.chunkRemaining [c].length = 1 := by
      rw [List.length_singleton]
      omega
    have next : p.requestBytes + 1 = p.headerBytes + p.metadataBytes + (p.body ++ [c]).length := by
      rw [List.length_append, List.length_singleton]
      omega
    unfold appendChunk
    rw [one]
    dsimp only
    split <;> exact ⟨next, before.header⟩

/-! ### Numbers of the field lines -/

theorem scanContentLength_le (value : Bytes) : ∀ total, total ≤ uint64Max →
    (scanContentLength value total).value.2 ≤ uint64Max := by
  induction value with
  | nil => exact fun total fits => fits
  | cons c rest ih =>
    intro total fits
    unfold scanContentLength
    simp only [Counted.bind_value, Counted.ite_value]
    split
    · exact fits
    · split
      · exact fits
      · next short =>
        refine ih _ ?_
        have digit : (c - 0x30).toNat ≤ uint64Max := Nat.le_trans (Nat.le_of_lt (UInt8.toNat_lt _)) (by decide)
        omega

theorem applyHeader_contentLength (name : Option HeaderName) (value : Bytes) (nonemptyValue : Bool) {h : HeaderFields}
    (fits : h.contentLength ≤ uint64Max) :
    (applyHeader name value nonemptyValue h).value.2.contentLength ≤ uint64Max := by
  have stored : ∀ (field : StaticField) (merge : Bool) (store : StaticField → StaticRequestFields),
      (storeStaticField h field value merge store).2.contentLength ≤ uint64Max := by
    intro field merge store
    unfold storeStaticField
    split <;> exact fits
  unfold applyHeader
  split
  case h_3 => exact stored ..
  case h_4 => exact stored ..
  case h_5 => exact stored ..
  case h_6 => exact stored ..
  case h_8 =>
    rw [Counted.ite_value]
    split
    · exact fits
    · exact scanContentLength_le value _ fits
  all_goals
    simp only [validateTokenList, Counted.ite_value, Counted.bind_value, Counted.pure_value]
    first
    | exact fits
    | split_ifs <;> exact fits

theorem validateHeader_contentLength (line : Bytes) (trailers : Bool) {h : HeaderFields}
    (fits : h.contentLength ≤ uint64Max) : (validateHeader line trailers h).value.2.contentLength ≤ uint64Max := by
  unfold validateHeader
  simp only [Counted.ite_value, Counted.bind_value, Counted.pure_value]
  split_ifs <;> first | exact fits | exact applyHeader_contentLength _ _ _ fits

/-- **The kept values are among the header bytes, and the declared length is a word.** -/
structure Declared (f : ParserFields) : Prop where
  kept : f.staticFieldBytes ≤ f.headerBytes
  length : f.contentLength ≤ uint64Max

theorem Turn.declared {p q : RequestParser} {c : UInt8} (turn : Turn (p.onFields ParserFields.counted) c q)
    (fitted : Fitted p.toParserFields) (before : Declared p.toParserFields) : Declared q.toParserFields := by
  have counted : p.headerBytes ≤ p.counted.headerBytes := by
    unfold ParserFields.counted
    dsimp only
    split <;> omega
  have same : p.staticFieldBytes ≤ p.counted.headerBytes := before.kept.trans counted
  -- a field line adds no more than its own bytes
  have line : p.state = .headers →
      (validateHeader p.line false p.toHeaderFields).value.2.staticFieldBytes ≤ p.counted.headerBytes := by
    intro isHeaders
    have total := validateHeader_total p.line p.toHeaderFields
    rw [RequestParser.line, slice_length] at total
    have fits := fitted (by rw [isHeaders]; rfl)
    exact total.trans (fits.trans counted)
  cases turn with
  | refused kept =>
    rcases kept with rfl | ⟨isHeaders, rfl⟩
    · exact ⟨same, before.length⟩
    · exact ⟨line isHeaders, validateHeader_contentLength _ _ before.length⟩
  | field kind =>
    refine ⟨?_, validateHeader_contentLength _ _ before.length⟩
    show (validateHeader p.line (p.state = .trailers) p.toHeaderFields).value.2.staticFieldBytes ≤ p.counted.headerBytes
    rcases kind with isHeaders | isTrailers
    · rw [show p.state = .headers from isHeaders]
      exact line isHeaders
    · rw [show p.state = .trailers from isTrailers]
      exact (congrArg HeaderFields.staticFieldBytes (validateHeader_trailers p.line p.toHeaderFields)).trans_le same
  | _ => exact ⟨same, before.length⟩

theorem feedByte_declared (p : RequestParser) (c : UInt8) (fitted : Fitted p.toParserFields)
    (before : Declared p.toParserFields) : Declared (feedByte p c).toParserFields := by
  refine feedByte_of_turn (P := fun q => Declared q.toParserFields) c before (fun _ => ?_) (fun _ => ?_)
    (fun _ turn _ => turn.declared fitted before) fun _ _ kept _ => ⟨kept.kept, kept.length⟩
  · unfold appendBody finishRequest
    dsimp only
    split <;> exact ⟨before.kept, before.length⟩
  · unfold appendChunk
    dsimp only
    split <;> exact ⟨before.kept, before.length⟩

/-! ### The body -/

/-- **How the size of a body is known in each state.** -/
structure Measured (f : ParserFields) : Prop where
  idle : f.state ≠ .chunkData → f.state ≠ .error → f.chunkRemaining = 0
  room : f.body.length + f.chunkRemaining ≤ kMaxBodyBytes
  coded : f.state.isMetadata = true ∨ f.state = .chunkData → f.transferEncodingSeen = true
  plain : f.state = .body → f.transferEncodingSeen = false
  filled : f.state = .complete → f.transferEncodingSeen = false → f.body.length = f.contentLength

theorem measured_initial : Measured {} where
  idle _ _ := rfl
  room := Nat.zero_le _
  coded := by simp [ParserState.isMetadata]
  plain := by simp
  filled := by simp

/-- The end of the header section: nothing of the body is there yet. -/
theorem measured_headersEnd {f : ParserFields} {status : ParseStatus} {pendingCr : Bool} (empty : f.body = [])
    (zero : f.chunkRemaining = 0) :
    Measured { f with state := f.toHeaderFields.bodyState, status := status, lineSize := 0, pendingCr := pendingCr } := by
  have room : f.body.length + f.chunkRemaining ≤ kMaxBodyBytes := by rw [empty, zero]; exact Nat.zero_le _
  unfold HeaderFields.bodyState
  by_cases chunked : f.transferEncodingSeen = true
  · exact ⟨fun _ _ => zero, room, fun _ => chunked, by simp [chunked], by simp [chunked]⟩
  · by_cases none : f.contentLength = 0
    · exact ⟨fun _ _ => zero, room, by simp [chunked, none, ParserState.isMetadata], by simp [chunked, none],
        fun _ _ => by rw [empty, none]; rfl⟩
    · exact ⟨fun _ _ => zero, room, by simp [chunked, none, ParserState.isMetadata], by simp [chunked],
        by simp [chunked, none]⟩

theorem Turn.measured {p q : RequestParser} {c : UInt8} (turn : Turn (p.onFields ParserFields.counted) c q)
    (line : p.state.isHeader = true ∨ p.state.isMetadata = true) (coherent : Coherent p.toParserFields)
    (before : Measured p.toParserFields) : Measured q.toParserFields := by
  have zero : p.chunkRemaining = 0 := by
    refine before.idle (fun isData => ?_) fun isError => ?_
    · rw [isData] at line
      rcases line with h | h <;> cases h
    · rw [isError] at line
      rcases line with h | h <;> cases h
  have room := before.room
  cases turn with
  | refused => exact ⟨fun _ _ => zero, room, by simp [ParserState.isMetadata], by simp, by simp⟩
  | cr => exact ⟨before.idle, room, before.coded, before.plain, before.filled⟩
  | stored => exact ⟨before.idle, room, before.coded, before.plain, before.filled⟩
  | requestLine => exact ⟨fun _ _ => zero, room, by simp [ParserState.isMetadata], by simp, by simp⟩
  | field kind =>
    refine ⟨before.idle, room, fun coded => ?_, fun isBody => ?_, fun isComplete => ?_⟩
    · have coded : p.state.isMetadata = true ∨ p.state = .chunkData := coded
      rcases kind with isHeaders | isTrailers
      · rw [show p.state = .headers from isHeaders] at coded
        rcases coded with h | h <;> cases h
      · show (validateHeader p.line (p.state = .trailers) p.toHeaderFields).value.2.transferEncodingSeen = true
        rw [show p.state = .trailers from isTrailers]
        exact (congrArg HeaderFields.transferEncodingSeen (validateHeader_trailers p.line p.toHeaderFields)).trans
          (before.coded coded)
    · rcases kind with h | h <;> cases h.symm.trans isBody
    · rcases kind with h | h <;> cases h.symm.trans isComplete
  | headersEnd isHeaders =>
    have empty := coherent.header (by rw [show p.state = .headers from isHeaders]; rfl)
    exact measured_headersEnd (f := p.counted) empty zero
  | @size size isSize fits =>
    have coded := before.coded (.inl (by rw [show p.state = .chunkSize from isSize]; rfl))
    have fits : size ≤ kMaxBodyBytes - p.body.length := fits
    have total : p.body.length + size ≤ kMaxBodyBytes := by omega
    by_cases last : size = 0
    · exact ⟨fun _ _ => last, total, fun _ => coded, by simp [last], by simp [last]⟩
    · exact ⟨fun idle => absurd (by simp [last]) idle, total, fun _ => coded, by simp [last], by simp [last]⟩
  | trailersEnd isTrailers =>
    have coded := before.coded (.inl (by rw [show p.state = .trailers from isTrailers]; rfl))
    exact ⟨fun _ _ => zero, room, by simp [ParserState.isMetadata], by simp,
      fun _ plain => absurd (coded.symm.trans plain) (by simp)⟩
  | dataCr => exact ⟨before.idle, room, before.coded, before.plain, before.filled⟩
  | dataLf isCrlf =>
    have coded := before.coded (.inl (by rw [show p.state = .chunkDataCrlf from isCrlf]; rfl))
    exact ⟨fun _ _ => zero, room, fun _ => coded, by simp, by simp⟩

theorem feedByte_measured (p : RequestParser) (c : UInt8) (coherent : Coherent p.toParserFields)
    (retained : Retained p.toParserFields) (before : Measured p.toParserFields) :
    Measured (feedByte p c).toParserFields := by
  have room := before.room
  refine feedByte_of_turn (P := fun q => Measured q.toParserFields) c before (fun isBody => ?_) (fun isData => ?_)
    (fun _ turn line => turn.measured line coherent before)
    fun _ _ kept _ => ⟨by simp, kept.room, by simp [ParserState.isMetadata], by simp, by simp⟩
  · have below := coherent.body isBody
    have most := retained.declared isBody
    have zero := before.idle (by rw [isBody]; decide) (by rw [isBody]; decide)
    have one : min [c].length (p.contentLength - p.body.length) = 1 := by
      rw [List.length_singleton]
      omega
    have total : (p.body ++ [c]).length + p.chunkRemaining ≤ kMaxBodyBytes := by
      rw [List.length_append, List.length_singleton]
      omega
    unfold appendBody finishRequest
    rw [one]
    dsimp only
    split
    · next full => exact ⟨fun _ _ => zero, total, by simp [ParserState.isMetadata], by simp, fun _ _ => full⟩
    · refine ⟨fun _ _ => zero, total, before.coded, before.plain, fun isComplete => ?_⟩
      cases isBody.symm.trans isComplete
  · have coded := before.coded (.inr isData)
    have some := coherent.chunkData isData
    have one : min p.chunkRemaining [c].length = 1 := by
      rw [List.length_singleton]
      omega
    have total : (p.body ++ [c]).length + (p.chunkRemaining - 1) ≤ kMaxBodyBytes := by
      rw [List.length_append, List.length_singleton]
      omega
    unfold appendChunk
    rw [one]
    dsimp only
    split
    · next last => exact ⟨fun _ _ => last, total, fun _ => coded, by simp, by simp⟩
    · refine ⟨fun idle => absurd isData idle, total, fun _ => coded, fun isBody => ?_, fun isComplete => ?_⟩
      · cases isData.symm.trans isBody
      · cases isData.symm.trans isComplete

/-! ### The array -/

/-- **A byte is stored at the end of the line being assembled, inside the array, or the array is left alone.** -/
theorem feedByte_writes (p : RequestParser) (c : UInt8) (retained : Retained p.toParserFields) :
    (feedByte p c).storage = p.storage
      ∨ p.lineStart + p.lineSize < kMaxHeaderBytes
        ∧ (feedByte p c).storage = Function.update p.storage (p.lineStart + p.lineSize) c := by
  refine feedByte_of_turn (P := fun q => q.storage = p.storage ∨ p.lineStart + p.lineSize < kMaxHeaderBytes
    ∧ q.storage = Function.update p.storage (p.lineStart + p.lineSize) c) c (.inl rfl) (fun _ => .inl ?_)
    (fun _ => .inl ?_) (fun q turn line => ?_) fun _ _ kept _ => kept
  · unfold appendBody finishRequest
    dsimp only
    split <;> rfl
  · unfold appendChunk
    dsimp only
    split <;> rfl
  · cases turn with
    | stored peak notCrlf plain short room =>
      refine .inr ⟨?_, rfl⟩
      have buffered : p.lineStart + p.lineSize ≤ kMaxHeaderBytes := retained.buffered
      rcases room with isHeader | room
      · obtain ⟨inside, below⟩ := retained.header isHeader
        have inside : p.lineStart + p.lineSize ≤ p.headerBytes := inside
        omega
      · have room : p.lineStart + p.lineSize ≠ kMaxHeaderBytes := room
        omega
    | _ => exact .inl rfl

/-- The parser after some accepted bytes. -/
structure Bounded (p : RequestParser) (message : Bytes) : Prop where
  coherent : Coherent p.toParserFields
  framed : Framed p.toParserFields
  retained : Retained p.toParserFields
  slots : Slots p.toParserFields
  tallied : Tallied p.toParserFields
  fitted : Fitted p.toParserFields
  declared : Declared p.toParserFields
  measured : Measured p.toParserFields
  paid : Paid p.toParserFields
  begun : Begun p message

theorem bounded_reset (p : RequestParser) : Bounded (resetRequestParser p) [] where
  coherent := coherent_initial
  framed := framed_initial
  retained := retained_initial
  slots := slots_initial
  tallied := ⟨rfl, Nat.zero_le _⟩
  fitted _ := Nat.le_refl _
  declared := ⟨Nat.le_refl _, Nat.zero_le _⟩
  measured := measured_initial
  paid := paid_initial
  begun := begun_reset p

theorem Bounded.feedByte {p : RequestParser} {message : Bytes} (c : UInt8) (live : p.state.isFinal = false)
    (cleared : p.status ≠ .headersComplete) (before : Bounded p message) :
    Bounded (feedByte p c) (message ++ [c]) where
  coherent := feedByte_coherent c before.coherent cleared
  framed := feedByte_framed c before.framed
  retained := feedByte_retained c cleared before.retained
  slots := feedByte_slots p c before.slots
  tallied := feedByte_tallied p c before.coherent before.retained before.tallied
  fitted := feedByte_fitted p c cleared before.fitted
  declared := feedByte_declared p c before.fitted before.declared
  measured := feedByte_measured p c before.coherent before.retained before.measured
  paid := feedByte_paid p c cleared before.paid
  begun := feedByte_begun c live before.begun

theorem onFields_clearHeadersComplete_shape (p : RequestParser) :
    ∃ status, p.onFields clearHeadersComplete = p.onFields fun f => { f with status := status } := by
  obtain ⟨status, shape⟩ := clearHeadersComplete_shape p.toParserFields
  exact ⟨status, congrArg (fun f => { p with toParserFields := f }) shape⟩

theorem Bounded.call {p : RequestParser} {message : Bytes} (before : Bounded p message) :
    Bounded (p.onFields clearHeadersComplete) message := by
  have coherent : Coherent (p.onFields clearHeadersComplete).toParserFields :=
    clearHeadersComplete_coherent before.coherent
  obtain ⟨status, same⟩ := onFields_clearHeadersComplete_shape p
  rw [same] at coherent
  obtain ⟨-, framed, retained, slots, tallied, fitted, declared, measured, paid, begun⟩ := before
  rw [same]
  exact
    { coherent
      framed := framed.keep rfl rfl rfl rfl id
      retained := ⟨retained.buffered, retained.header, retained.body, retained.declared, retained.chunk⟩
      slots := ⟨slots.start, slots.line, slots.within, slots.limits⟩
      tallied := ⟨tallied.bytes, tallied.header⟩
      fitted := fitted
      declared := ⟨declared.kept, declared.length⟩
      measured := ⟨measured.idle, measured.room, measured.coded, measured.plain, measured.filled⟩
      paid := ⟨paid.steps, paid.line⟩
      begun := begun.same rfl ⟨rfl, rfl, rfl, rfl, rfl, rfl, rfl⟩ rfl }

theorem offered_bounded (p : RequestParser) (segments : List Bytes) :
    Bounded (offered (resetRequestParser p) segments).1 (offered (resetRequestParser p) segments).2 :=
  offered_accepts (P := Bounded) (fun _ _ c live cleared => Bounded.feedByte c live cleared)
    (fun _ _ => Bounded.call) segments _ [] (coherent_reset p) (bounded_reset p)

section Bounded

variable {p : RequestParser} {message : Bytes} (bounded : Bounded p message)

include bounded

/-- A call with one byte feeds it, or leaves it. -/
theorem Bounded.writes (c : UInt8) :
    (feedRequestBytes p [c]).1.storage = p.storage
      ∨ p.lineStart + p.lineSize < kMaxHeaderBytes
        ∧ (feedRequestBytes p [c]).1.storage = Function.update p.storage (p.lineStart + p.lineSize) c := by
  have called := bounded.call
  have one := feedByte_writes _ c called.retained
  obtain ⟨status, same⟩ := onFields_clearHeadersComplete_shape p
  rw [feedRequestBytes_eq [c] bounded.coherent]
  by_cases final : (p.onFields clearHeadersComplete).state.isFinal = true
  · rw [byteLoop_final _ final]
    exact .inl rfl
  · rw [byteLoop_cons c [] (by simpa using final)]
    rw [same] at one ⊢
    split
    · exact one
    · exact one

/-- **Later bytes leave the request line in the array.** -/
theorem Bounded.kept (past : p.state ≠ .requestLine) (segments : List Bytes) :
    Behind p (offered p segments).1 := by
  refine offered_accepts (P := fun q _ => Behind p q) (fun _ _ c _ _ => feedByte_behind c) (fun q _ before => ?_)
    segments p [] bounded.coherent ⟨past, rfl, rfl, ⟨rfl, rfl⟩, rfl, fun _ _ => rfl⟩
  obtain ⟨status, same⟩ := onFields_clearHeadersComplete_shape q
  rw [same]
  exact ⟨before.state, before.start, before.method, before.target, before.head, before.storage⟩

/-- **The request reported at completion has the method and the target of the request line.** -/
theorem Bounded.reported (complete : p.state = .complete) (accepted : Nat) :
    ∃ l : RequestLine, l.WellFormed ∧ l.bytes ++ [cr, lf] <+: message
      ∧ (buildFeedResult p accepted).request.method = l.method
      ∧ (buildFeedResult p accepted).request.target = l.target := by
  cases bounded.begun with
  | line other => cases other.symm.trans complete
  | refused other => cases other.symm.trans complete
  | behind past stored starts =>
    obtain ⟨l, wellFormed, rfl, -⟩ := (validateRequestLine_iff _ _).mp stored.2.2
    obtain ⟨-, -, -, method, target⟩ := stored.parts wellFormed
    refine ⟨l, wellFormed, starts, ?_, ?_⟩
    · rw [buildFeedResult, if_pos complete]
      exact method
    · rw [buildFeedResult, if_pos complete]
      exact target

/-- **The sizes of the parser's numbers.** -/
theorem Bounded.counters : p.requestBytes < 2 ^ 32 ∧ p.scanSteps < 2 ^ 32 ∧ p.headerBytes < 2 ^ 32
    ∧ p.metadataBytes < 2 ^ 32 ∧ p.trailerBytes < 2 ^ 32 ∧ p.chunkLineBytes < 2 ^ 32 ∧ p.dataCrlfBytes < 2 ^ 32
    ∧ p.contentLength < 2 ^ 64 := by
  obtain ⟨metadata, trailer, chunkLine, crlf⟩ := bounded.slots.limits
  have total := bounded.tallied.bytes
  have header := bounded.tallied.header
  have body := bounded.retained.body
  have steps := bounded.paid.steps
  have length := bounded.declared.length
  unfold kMaxHeaderBytes at header
  unfold kMaxBodyBytes at body
  unfold kMaxChunkMetadataBytes at metadata
  unfold kMaxTrailerBytes at trailer
  unfold kMaxChunkLineBytes at chunkLine
  unfold uint64Max at length
  refine ⟨?_, ?_, ?_, ?_, ?_, ?_, ?_, ?_⟩ <;> omega

end Bounded

/-- **The parser's array and numbers after any input, however it is cut.** The line being assembled is inside the array
and the next byte is stored behind it; the request line is never written over and is what a complete request reports;
the body has the declared length and fits its limit with the open chunk; no subtraction is negative and no counter
leaves its word. -/
theorem parser_bounds (start : RequestParser) (segments : List Bytes) :
    let p := (offered (resetRequestParser start) segments).1
    let message := (offered (resetRequestParser start) segments).2
    (p.lineStart + p.lineSize ≤ kMaxHeaderBytes
      ∧ (∀ c, (feedRequestBytes p [c]).1.storage = p.storage
        ∨ p.lineStart + p.lineSize < kMaxHeaderBytes
          ∧ (feedRequestBytes p [c]).1.storage = Function.update p.storage (p.lineStart + p.lineSize) c)
      ∧ (p.state = .chunkSize ∨ p.state = .trailers → p.lineStart + p.lineSize ≠ kMaxHeaderBytes))
    ∧ (p.methodSize ≤ p.lineStart ∧ p.targetStart + p.targetSize ≤ p.lineStart
      ∧ (p.state ≠ .requestLine → ∀ more, (offered p more).1.lineStart = p.lineStart
        ∧ ∀ i < p.lineStart, (offered p more).1.storage i = p.storage i)
      ∧ (p.state = .complete → ∀ accepted, ∃ l : RequestLine, l.WellFormed ∧ l.bytes ++ [cr, lf] <+: message
        ∧ (buildFeedResult p accepted).request.method = l.method
        ∧ (buildFeedResult p accepted).request.target = l.target))
    ∧ (p.body.length ≤ kMaxBodyBytes ∧ p.chunkRemaining + p.body.length ≤ kMaxBodyBytes
      ∧ (p.state = .body → p.body.length < p.contentLength)
      ∧ (p.state = .complete → p.transferEncodingSeen = false → p.body.length = p.contentLength))
    ∧ (p.staticFieldBytes ≤ kMaxHeaderBytes
      ∧ ∀ separator ≤ kMaxHeaderBytes - p.staticFieldBytes, p.staticFieldBytes + separator ≤ kMaxHeaderBytes)
    ∧ p.requestBytes < 2 ^ 32 ∧ p.scanSteps < 2 ^ 32 ∧ p.headerBytes < 2 ^ 32 ∧ p.metadataBytes < 2 ^ 32
    ∧ p.trailerBytes < 2 ^ 32 ∧ p.chunkLineBytes < 2 ^ 32 ∧ p.dataCrlfBytes < 2 ^ 32 ∧ p.contentLength < 2 ^ 64 := by
  intro p message
  have bounded : Bounded p message := offered_bounded start segments
  have kept : p.staticFieldBytes ≤ kMaxHeaderBytes := bounded.declared.kept.trans bounded.tallied.header
  refine ⟨⟨bounded.retained.buffered, bounded.writes, fun kind => Nat.ne_of_lt (bounded.slots.room kind)⟩,
    ⟨bounded.framed.method, bounded.framed.target, fun past more => ?_, bounded.reported⟩,
    ⟨bounded.retained.body, ?_, bounded.coherent.body, bounded.measured.filled⟩,
    ⟨kept, fun separator small => ?_⟩, bounded.counters⟩
  · obtain ⟨-, start, -, -, -, storage⟩ := bounded.kept past more
    exact ⟨start, storage⟩
  · rw [Nat.add_comm]
    exact bounded.measured.room
  · omega

end HpServer.Http
