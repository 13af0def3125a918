/-
**A chunked body line by line.**

`ChunkView` is a chunked body as far as it has been read, over lists: the data so far, the line being
assembled and the byte counters.

* `ChunkReading.step` — one byte of a chunked body; `ChunkView.run` — the bytes up to its end.
* `Chunks` — a parser holds what a view says; `chunks_step` — **one byte keeps the parser and the view
  together**. The branch of the source for a full array is never taken: a request line, a size line and
  the trailers fit into the array.
* `byteLoop_chunks` — a parser in a chunked body over any input: the view's run.
-/

import HpServer.Http.HeaderView

namespace HpServer.Http

/-! ### The view -/

/-- A chunked body that is still being read. -/
structure ChunkReading where
  state : ParserState := .chunkSize
  body : Bytes := []
  line : Bytes := []
  pendingCr : Bool := false
  remaining : Nat := 0
  dataCrlf : Nat := 0
  metadata : Nat := 0
  trailer : Nat := 0
  lineBytes : Nat := 0

/-- A chunked body: still being read, refused with `400` or `413`, or complete. -/
inductive ChunkView where
  | reading (r : ChunkReading)
  | refused
  | tooLarge
  | done (body : Bytes)

namespace ChunkReading

/-- The counters after a byte that is not chunk data. -/
def counted (r : ChunkReading) : ChunkReading :=
  { r with
    metadata := r.metadata + 1
    trailer := if r.state = .trailers then r.trailer + 1 else r.trailer
    lineBytes := if r.state = .chunkSize then r.lineBytes + 1 else r.lineBytes }

def Overflow (r : ChunkReading) : Prop :=
  r.metadata > kMaxChunkMetadataBytes ∨ r.trailer > kMaxTrailerBytes
    ∨ r.lineBytes > kMaxChunkLineBytes

instance (r : ChunkReading) : Decidable r.Overflow := by
  unfold Overflow
  infer_instance

/-- A size line is complete. -/
def endSize (r : ChunkReading) : ChunkView :=
  match scanHex r.line 0 0 with
  | none => .refused
  | some (size, position) =>
    if position = 0 ∨ validateChunkExtensions r.line position = false then .refused
    else if size > kMaxBodyBytes - r.body.length then .tooLarge
    else
      .reading
        { r with
          state := if size = 0 then .trailers else .chunkData
          remaining := size
          lineBytes := 0
          line := []
          pendingCr := false }

/-- A trailer line is complete. -/
def endTrailer (r : ChunkReading) : ChunkView :=
  if r.line = [] then .done r.body
  else if (validateHeader r.line true {}).value.1 then .reading { r with line := [], pendingCr := false }
  else .refused

/-- A byte of a size line or a trailer line that has been counted. -/
def take (r : ChunkReading) (c : UInt8) : ChunkView :=
  if r.pendingCr then
    if c = lf then if r.state = .chunkSize then r.endSize else r.endTrailer
    else .refused
  else if c = cr then .reading { r with pendingCr := true }
  else if c = lf ∨ c = nul then .refused
  else .reading { r with line := r.line ++ [c] }

/-- A byte of the two after chunk data. -/
def takeCrlf (r : ChunkReading) (c : UInt8) : ChunkView :=
  if c ≠ (if r.dataCrlf = 0 then cr else lf) then .refused
  else if r.dataCrlf + 1 = 2 then .reading { r with dataCrlf := 0, lineBytes := 0, state := .chunkSize }
  else .reading { r with dataCrlf := r.dataCrlf + 1 }

def step (r : ChunkReading) (c : UInt8) : ChunkView :=
  if r.state = .chunkData then
    .reading
      { r with
        body := r.body ++ [c]
        remaining := r.remaining - 1
        state := if r.remaining - 1 = 0 then .chunkDataCrlf else .chunkData }
  else if r.counted.Overflow then .refused
  else if r.state = .chunkDataCrlf then r.counted.takeCrlf c
  else r.counted.take c

end ChunkReading

/-- The bytes of a chunked body up to its end: the view, and what follows the body. -/
def ChunkView.run : ChunkView → Bytes → ChunkView × Bytes
  | view, [] => (view, [])
  | .reading r, c :: rest => ChunkView.run (r.step c) rest
  | .refused, c :: rest => (.refused, c :: rest)
  | .tooLarge, c :: rest => (.tooLarge, c :: rest)
  | .done body, c :: rest => (.done body, c :: rest)

theorem chunk_run_refused (bytes : Bytes) : ChunkView.run .refused bytes = (.refused, bytes) := by
  cases bytes <;> rfl

theorem chunk_run_tooLarge (bytes : Bytes) : ChunkView.run .tooLarge bytes = (.tooLarge, bytes) := by
  cases bytes <;> rfl

theorem chunk_run_done (body bytes : Bytes) : ChunkView.run (.done body) bytes = (.done body, bytes) := by
  cases bytes <;> rfl

/-! ### The parser and its view -/

/-- The parser holds a chunked body that is still being read, behind a header section it keeps. -/
structure HoldsChunks (p : RequestParser) (r : ChunkReading) : Prop where
  state : p.state = r.state
  kind : r.state = .chunkSize ∨ r.state = .chunkData ∨ r.state = .chunkDataCrlf ∨ r.state = .trailers
  status : p.status = .needMore
  pendingCr : p.pendingCr = r.pendingCr
  body : p.body = r.body
  size : p.lineSize = r.line.length
  line : p.line = r.line
  remaining : p.chunkRemaining = r.remaining
  dataCrlf : p.dataCrlfBytes = r.dataCrlf
  metadata : p.metadataBytes = r.metadata
  trailer : p.trailerBytes = r.trailer
  lineBytes : p.chunkLineBytes = r.lineBytes
  start : p.lineStart ≤ kMaxRequestLineBytes
  room : r.line.length ≤ r.trailer + r.lineBytes
  trailers : r.trailer ≤ kMaxTrailerBytes
  lines : r.lineBytes ≤ kMaxChunkLineBytes
  pending : r.state = .chunkData → 0 < r.remaining
  idle : r.state = .chunkData ∨ r.state = .chunkDataCrlf → r.line = []

def Chunks (p : RequestParser) : ChunkView → Prop
  | .reading r => HoldsChunks p r
  | .refused => p.state = .error ∧ p.status = .badRequest
  | .tooLarge => p.state = .error ∧ p.status = .payloadTooLarge
  | .done body => p.state = .complete ∧ p.status = .complete ∧ p.body = body

/-- The view of a parser whose new `kError` has no status yet. -/
def NearsChunks (p : RequestParser) : ChunkView → Prop
  | .reading r => HoldsChunks p r
  | .refused => p.state = .error ∧ p.status = .needMore
  | .tooLarge => p.state = .error ∧ p.status = .payloadTooLarge
  | .done body => p.state = .complete ∧ p.status = .complete ∧ p.body = body

theorem settle_chunks {p : RequestParser} {view : ChunkView} (nears : NearsChunks p view) :
    Chunks (if p.state = .error && p.status = .needMore then { p with status := .badRequest } else p)
      view := by
  cases view with
  | reading r =>
    have live : p.state ≠ .error := by
      rw [nears.state]
      rcases nears.kind with h | h | h | h <;> rw [h] <;> decide
    rw [if_neg (by simp [live])]
    exact nears
  | refused =>
    obtain ⟨state, status⟩ := nears
    rw [if_pos (by simp [state, status])]
    exact ⟨state, rfl⟩
  | tooLarge =>
    obtain ⟨state, status⟩ := nears
    rw [if_neg (by simp [status])]
    exact ⟨state, status⟩
  | done body =>
    obtain ⟨state, status, same⟩ := nears
    rw [if_neg (by simp [state])]
    exact ⟨state, status, same⟩

/-! ### One byte -/

/-- **The verdict on a trailer line does not look at what was collected.** -/
theorem validateHeader_trailer_verdict (line : Bytes) (h other : HeaderFields) :
    (validateHeader line true h).value.1 = (validateHeader line true other).value.1 := by
  unfold validateHeader
  simp only [Counted.bind_value, Counted.ite_value, Counted.pure_value, if_true]
  split_ifs <;> rfl

theorem endSize_nears {p : RequestParser} {r : ChunkReading} (holds : HoldsChunks p r)
    (isSize : r.state = .chunkSize) :
    NearsChunks (RequestParser.onFields { p with pendingCr := false } (finishMetadataLine p.line))
      r.endSize := by
  have state : p.state = .chunkSize := holds.state.trans isSize
  have shape : RequestParser.onFields { p with pendingCr := false } (finishMetadataLine p.line) =
      ⟨{ validateChunkSize r.line { p.toParserFields with pendingCr := false } with
          chunkLineBytes := 0, lineSize := 0 }, p.storage⟩ := by
    unfold RequestParser.onFields finishMetadataLine
    simp only [state, if_true, holds.line]
  rw [shape]
  unfold validateChunkSize ChunkReading.endSize
  dsimp only
  cases scanHex r.line 0 0 with
  | none => exact ⟨rfl, holds.status⟩
  | some scanned =>
    obtain ⟨size, position⟩ := scanned
    dsimp only
    by_cases bad : position = 0 ∨ validateChunkExtensions r.line position = false
    · rw [if_pos bad, if_pos (by simpa using bad)]
      exact ⟨rfl, holds.status⟩
    rw [if_neg bad, if_neg (by simpa using bad), holds.body]
    by_cases large : size > kMaxBodyBytes - r.body.length
    · rw [if_pos large, if_pos large]
      exact ⟨rfl, rfl⟩
    rw [if_neg large, if_neg large]
    exact
      { state := rfl
        kind := by dsimp only; split <;> simp
        status := holds.status
        pendingCr := rfl
        body := rfl
        size := rfl
        line := rfl
        remaining := rfl
        dataCrlf := holds.dataCrlf
        metadata := holds.metadata
        trailer := holds.trailer
        lineBytes := rfl
        start := holds.start
        room := Nat.zero_le _
        trailers := holds.trailers
        lines := Nat.zero_le _
        pending := by
          dsimp only
          split
          · exact fun h => by cases h
          · exact fun _ => by omega
        idle := fun _ => rfl }

theorem endTrailer_nears {p : RequestParser} {r : ChunkReading} (holds : HoldsChunks p r)
    (isTrailer : r.state = .trailers) :
    NearsChunks (RequestParser.onFields { p with pendingCr := false } (finishMetadataLine p.line))
      r.endTrailer := by
  have state : p.state = .trailers := holds.state.trans isTrailer
  unfold ChunkReading.endTrailer
  by_cases blank : r.line = []
  · have size : p.lineSize = 0 := by rw [holds.size, blank]; rfl
    have shape : RequestParser.onFields { p with pendingCr := false } (finishMetadataLine p.line) =
        ⟨{ finishRequest { p.toParserFields with pendingCr := false } with lineSize := 0 },
          p.storage⟩ := by
      unfold RequestParser.onFields finishMetadataLine
      simp only [state, size, if_true, reduceCtorEq, if_false]
    rw [if_pos blank, shape]
    exact ⟨rfl, rfl, holds.body⟩
  · have size : p.lineSize ≠ 0 := by
      rw [holds.size]
      exact fun empty => blank (List.length_eq_zero_iff.mp empty)
    have shape : RequestParser.onFields { p with pendingCr := false } (finishMetadataLine p.line) =
        ⟨{ acceptHeader r.line { p.toParserFields with pendingCr := false } with lineSize := 0 },
          p.storage⟩ := by
      unfold RequestParser.onFields finishMetadataLine
      simp only [state, size, reduceCtorEq, if_false, holds.line]
    rw [if_neg blank, shape]
    unfold acceptHeader
    dsimp only
    rw [decide_eq_true state, validateHeader_trailer_verdict r.line p.toHeaderFields {}]
    by_cases accepted : (validateHeader r.line true {}).value.1 = true
    · rw [if_pos accepted, if_pos accepted]
      exact
        { state := holds.state
          kind := holds.kind
          status := holds.status
          pendingCr := rfl
          body := holds.body
          size := rfl
          line := rfl
          remaining := holds.remaining
          dataCrlf := holds.dataCrlf
          metadata := holds.metadata
          trailer := holds.trailer
          lineBytes := holds.lineBytes
          start := holds.start
          room := Nat.zero_le _
          trailers := holds.trailers
          lines := holds.lines
          pending := holds.pending
          idle := fun _ => rfl }
    · rw [if_neg accepted, if_neg accepted]
      exact ⟨rfl, holds.status⟩

/-- A plain byte is stored behind the line. -/
theorem HoldsChunks.store {p : RequestParser} {r : ChunkReading} (holds : HoldsChunks p r) (c : UInt8)
    (room : r.line.length + 1 ≤ r.trailer + r.lineBytes)
    (open1 : r.state = .chunkSize ∨ r.state = .trailers) :
    HoldsChunks (p.store c) { r with line := r.line ++ [c] } where
  state := holds.state
  kind := holds.kind
  status := holds.status
  pendingCr := holds.pendingCr
  body := holds.body
  size := by
    show p.lineSize + 1 = _
    rw [holds.size, List.length_append]
    rfl
  line := by
    show slice (Function.update p.storage (p.lineStart + p.lineSize) c) p.lineStart (p.lineSize + 1) = _
    rw [slice_update_last, ← holds.line]
    rfl
  remaining := holds.remaining
  dataCrlf := holds.dataCrlf
  metadata := holds.metadata
  trailer := holds.trailer
  lineBytes := holds.lineBytes
  start := holds.start
  room := by
    simp only [List.length_append, List.length_singleton]
    exact room
  trailers := holds.trailers
  lines := holds.lines
  pending := holds.pending
  idle other := by
    rcases open1 with h | h <;> rcases other with k | k <;> exact absurd (h.symm.trans k) (by decide)

/-- The members a byte may change besides the line. -/
theorem HoldsChunks.setPendingCr {p : RequestParser} {r : ChunkReading} (holds : HoldsChunks p r)
    (pendingCr : Bool) :
    HoldsChunks { p with pendingCr := pendingCr } { r with pendingCr := pendingCr } :=
  ⟨holds.state, holds.kind, holds.status, rfl, holds.body, holds.size, holds.line, holds.remaining,
    holds.dataCrlf, holds.metadata, holds.trailer, holds.lineBytes, holds.start, holds.room,
    holds.trailers, holds.lines, holds.pending, holds.idle⟩

/-- What `feedChunkMetadata` does after it has counted the byte, in a line. -/
theorem takeLine_nears {p : RequestParser} {r : ChunkReading} (c : UInt8) (holds : HoldsChunks p r)
    (room : r.line.length + 1 ≤ r.trailer + r.lineBytes)
    (open1 : r.state = .chunkSize ∨ r.state = .trailers) :
    NearsChunks
      (if p.pendingCr then
        if c ≠ lf then { p with pendingCr := false, state := .error }
        else RequestParser.onFields { p with pendingCr := false } (finishMetadataLine p.line)
      else if c = cr then { p with pendingCr := true }
      else if c = lf || c = nul || p.lineStart + p.lineSize = kMaxHeaderBytes then
        { p with state := .error }
      else p.store c) (r.take c) := by
  unfold ChunkReading.take
  rw [holds.pendingCr]
  by_cases pending : r.pendingCr = true
  · rw [if_pos pending, if_pos pending]
    by_cases isLf : c = lf
    · rw [if_neg (not_not.mpr isLf), if_pos isLf]
      rcases open1 with isSize | isTrailer
      · rw [if_pos isSize]
        exact endSize_nears holds isSize
      · rw [if_neg (by rw [isTrailer]; decide)]
        exact endTrailer_nears holds isTrailer
    · rw [if_pos isLf, if_neg isLf]
      exact ⟨rfl, holds.status⟩
  · rw [if_neg pending, if_neg pending]
    by_cases isCr : c = cr
    · rw [if_pos isCr, if_pos isCr]
      exact holds.setPendingCr true
    rw [if_neg isCr, if_neg isCr]
    -- the array cannot be full
    have fits : p.lineStart + p.lineSize ≠ kMaxHeaderBytes := by
      have start := holds.start
      have trailers := holds.trailers
      have lines := holds.lines
      rw [holds.size]
      unfold kMaxRequestLineBytes at start
      unfold kMaxTrailerBytes at trailers
      unfold kMaxChunkLineBytes at lines
      unfold kMaxHeaderBytes
      omega
    by_cases bare : c = lf ∨ c = nul
    · rw [if_pos bare, if_pos (by simpa [fits] using bare)]
      exact ⟨rfl, holds.status⟩
    · rw [if_neg bare, if_neg (by simpa [fits] using bare)]
      exact holds.store c room open1

theorem takeCrlf_nears {p : RequestParser} {r : ChunkReading} (c : UInt8) (holds : HoldsChunks p r)
    (isCrlf : r.state = .chunkDataCrlf) :
    NearsChunks (p.onFields (feedDataCrlf c)) (r.takeCrlf c) := by
  have empty := holds.idle (.inr isCrlf)
  have expected : expectedCrlfByte p.toParserFields = if r.dataCrlf = 0 then cr else lf := by
    unfold expectedCrlfByte
    rw [holds.dataCrlf]
  unfold ChunkReading.takeCrlf feedDataCrlf RequestParser.onFields
  dsimp only
  rw [expected, holds.dataCrlf]
  by_cases other : c ≠ (if r.dataCrlf = 0 then cr else lf)
  · rw [if_pos other, if_pos other]
    exact ⟨rfl, holds.status⟩
  rw [if_neg other, if_neg other]
  by_cases last : r.dataCrlf + 1 = 2
  · rw [if_pos last, if_pos last]
    exact
      { state := rfl
        kind := .inl rfl
        status := holds.status
        pendingCr := holds.pendingCr
        body := holds.body
        size := holds.size
        line := holds.line
        remaining := holds.remaining
        dataCrlf := rfl
        metadata := holds.metadata
        trailer := holds.trailer
        lineBytes := rfl
        start := holds.start
        room := by rw [empty]; exact Nat.zero_le _
        trailers := holds.trailers
        lines := Nat.zero_le _
        pending := fun h => by cases h
        idle := fun _ => empty }
  · rw [if_neg last, if_neg last]
    exact ⟨holds.state, holds.kind, holds.status, holds.pendingCr, holds.body, holds.size, holds.line,
      holds.remaining, rfl, holds.metadata, holds.trailer, holds.lineBytes, holds.start,
      holds.room, holds.trailers, holds.lines, holds.pending, holds.idle⟩

theorem feedChunkMetadata_nears {p : RequestParser} {r : ChunkReading} (c : UInt8)
    (holds : HoldsChunks p r) (notData : r.state ≠ .chunkData) :
    NearsChunks (feedChunkMetadata p c)
      (if r.counted.Overflow then .refused
        else if r.state = .chunkDataCrlf then r.counted.takeCrlf c
        else r.counted.take c) := by
  have overflow : metadataOverflow (p.onFields countMetadata).toParserFields = true ↔
      r.counted.Overflow := by
    show metadataOverflow (countMetadata p.toParserFields) = true ↔ _
    unfold metadataOverflow countMetadata ChunkReading.Overflow ChunkReading.counted
    simp only [Bool.or_eq_true, decide_eq_true_eq, holds.metadata, holds.trailer, holds.lineBytes,
      holds.state, or_assoc]
  unfold feedChunkMetadata
  dsimp only
  by_cases full : r.counted.Overflow
  · rw [if_pos full, if_pos (overflow.mpr full)]
    exact ⟨rfl, holds.status⟩
  rw [if_neg full, if_neg fun h => full (overflow.mp h)]
  unfold ChunkReading.Overflow at full
  obtain ⟨-, trailers, lines⟩ : _ ∧ ¬r.counted.trailer > _ ∧ ¬r.counted.lineBytes > _ := by
    simpa [not_or] using full
  have grow : r.line.length ≤ r.counted.trailer + r.counted.lineBytes := by
    have room := holds.room
    unfold ChunkReading.counted
    dsimp only
    split <;> split <;> omega
  have counted : HoldsChunks (p.onFields countMetadata) r.counted :=
    { state := holds.state
      kind := holds.kind
      status := holds.status
      pendingCr := holds.pendingCr
      body := holds.body
      size := holds.size
      line := holds.line
      remaining := holds.remaining
      dataCrlf := holds.dataCrlf
      metadata := congrArg Nat.succ holds.metadata
      trailer := by
        show (if p.state = .trailers then p.trailerBytes + 1 else p.trailerBytes) = _
        rw [holds.state, holds.trailer]
        rfl
      lineBytes := by
        show (if p.state = .chunkSize then p.chunkLineBytes + 1 else p.chunkLineBytes) = _
        rw [holds.state, holds.lineBytes]
        rfl
      start := holds.start
      room := grow
      trailers := not_lt.mp trailers
      lines := not_lt.mp lines
      pending := holds.pending
      idle := holds.idle }
  by_cases isCrlf : r.state = .chunkDataCrlf
  · rw [if_pos isCrlf, if_pos (counted.state.trans isCrlf)]
    exact takeCrlf_nears c counted isCrlf
  · rw [if_neg isCrlf, if_neg fun h => isCrlf (counted.state.symm.trans h)]
    have open1 : r.state = .chunkSize ∨ r.state = .trailers := by
      rcases holds.kind with h | h | h | h
      · exact .inl h
      · exact absurd h notData
      · exact absurd h isCrlf
      · exact .inr h
    refine takeLine_nears c counted ?_ open1
    have room := holds.room
    unfold ChunkReading.counted
    dsimp only
    rcases open1 with h | h
    · rw [if_pos h, if_neg (by rw [h]; decide)]
      omega
    · rw [if_pos h, if_neg (by rw [h]; decide)]
      omega

theorem data_chunks {p : RequestParser} {r : ChunkReading} (c : UInt8) (holds : HoldsChunks p r)
    (isData : r.state = .chunkData) : Chunks (feedByte p c) (r.step c) := by
  have left := holds.pending isData
  have empty := holds.idle (.inl isData)
  have one : min p.chunkRemaining [c].length = 1 := by
    rw [holds.remaining, List.length_singleton]
    omega
  have left1 : p.chunkRemaining - 1 = r.remaining - 1 := by rw [holds.remaining]
  rw [feedByte_chunkData c (holds.state.trans isData), ChunkReading.step, if_pos isData]
  unfold appendChunk
  simp only [one, left1, List.take_succ_cons, List.take_zero]
  by_cases last : r.remaining - 1 = 0
  · rw [if_pos last, if_pos last]
    exact
      { state := rfl
        kind := .inr (.inr (.inl rfl))
        status := holds.status
        pendingCr := holds.pendingCr
        body := by show p.body ++ [c] = _; rw [holds.body]
        size := holds.size
        line := holds.line
        remaining := rfl
        dataCrlf := holds.dataCrlf
        metadata := holds.metadata
        trailer := holds.trailer
        lineBytes := holds.lineBytes
        start := holds.start
        room := holds.room
        trailers := holds.trailers
        lines := holds.lines
        pending := fun h => by cases h
        idle := fun _ => empty }
  · rw [if_neg last, if_neg last]
    exact
      { state := holds.state.trans isData
        kind := .inr (.inl rfl)
        status := holds.status
        pendingCr := holds.pendingCr
        body := by show p.body ++ [c] = _; rw [holds.body]
        size := holds.size
        line := holds.line
        remaining := rfl
        dataCrlf := holds.dataCrlf
        metadata := holds.metadata
        trailer := holds.trailer
        lineBytes := holds.lineBytes
        start := holds.start
        room := holds.room
        trailers := holds.trailers
        lines := holds.lines
        pending := fun _ => Nat.pos_of_ne_zero last
        idle := fun _ => empty }

/-- **One byte keeps the parser and the view together.** -/
theorem chunks_step {p : RequestParser} {r : ChunkReading} (c : UInt8) (holds : HoldsChunks p r) :
    Chunks (feedByte p c) (r.step c) := by
  by_cases isData : r.state = .chunkData
  · exact data_chunks c holds isData
  have isMetadata : p.state.isMetadata = true := by
    rw [holds.state]
    rcases holds.kind with h | h | h | h
    · rw [h]; rfl
    · exact absurd h isData
    · rw [h]; rfl
    · rw [h]; rfl
  have counted : HoldsChunks (p.onFields fun f =>
      { f with requestBytes := f.requestBytes + 1, scanSteps := f.scanSteps + 1 }) r :=
    ⟨holds.state, holds.kind, holds.status, holds.pendingCr, holds.body, holds.size, holds.line,
      holds.remaining, holds.dataCrlf, holds.metadata, holds.trailer, holds.lineBytes, holds.start,
      holds.room, holds.trailers, holds.lines, holds.pending, holds.idle⟩
  rw [feedByte_metadata c isMetadata, ChunkReading.step, if_neg isData]
  exact settle_chunks (feedChunkMetadata_nears c counted isData)

/-! ### A whole body -/

/-- **A chunked body over any input is the run of its view.** -/
theorem byteLoop_chunks (bytes : Bytes) : ∀ (p : RequestParser) (r : ChunkReading), HoldsChunks p r →
    Chunks (byteLoop p bytes).1 (ChunkView.run (.reading r) bytes).1 ∧
      (byteLoop p bytes).2 = (ChunkView.run (.reading r) bytes).2 := by
  induction bytes with
  | nil => exact fun p r holds => ⟨holds, rfl⟩
  | cons c rest ih =>
    intro p r holds
    have live : p.state.isFinal = false ∧ p.state.isHeader = false := by
      rw [holds.state]
      rcases holds.kind with h | h | h | h <;> rw [h] <;> exact ⟨rfl, rfl⟩
    have next := chunks_step c holds
    have cleared : (feedByte p c).status ≠ .headersComplete :=
      (feedByte_past c ⟨live.2, by rw [holds.status]; decide⟩).status
    rw [byteLoop_cons c rest live.1, if_neg cleared]
    show Chunks _ (ChunkView.run (r.step c) rest).1 ∧ _ = (ChunkView.run (r.step c) rest).2
    cases stepped : r.step c with
    | reading later =>
      rw [stepped] at next
      exact ih _ later next
    | refused =>
      rw [stepped] at next
      rw [chunk_run_refused, byteLoop_final rest (show (feedByte p c).state.isFinal = true by
        rw [next.1]; rfl)]
      exact ⟨next, rfl⟩
    | tooLarge =>
      rw [stepped] at next
      rw [chunk_run_tooLarge, byteLoop_final rest (show (feedByte p c).state.isFinal = true by
        rw [next.1]; rfl)]
      exact ⟨next, rfl⟩
    | done body =>
      rw [stepped] at next
      rw [chunk_run_done, byteLoop_final rest (show (feedByte p c).state.isFinal = true by
        rw [next.1]; rfl)]
      exact ⟨next, rfl⟩

end HpServer.Http
