/-
**Chunked bodies decode exactly.**

* `Chunk`, `ChunkedBody` — a chunked body by its parts; `ChunkedBody.WellFormed` — the grammar with its
  limits; `Oversized` — the beginning of one that announces too much data.
* `run_body`, `run_oversized`, `run_body_sound` — **the view is complete exactly on well-formed bodies**.
* `chunked_body_grammar` — the parser completes exactly on well-formed bodies, delivers the data of
  their chunks and keeps every other part of the request; it answers `413` exactly on the announcement
  of too much data, and every other error is `400`.
-/

import HpServer.Http.ChunkLines

namespace HpServer.Http

open ChunkReading

/-! ### One chunk of the view -/

/-- The view before a size line. -/
def ready (body : Bytes) (metadata : Nat) : ChunkReading := { body := body, metadata := metadata }

/-- The view before chunk data. -/
def filling (body : Bytes) (metadata size : Nat) : ChunkReading :=
  { state := .chunkData, body := body, metadata := metadata, remaining := size }

/-- The view after chunk data. -/
def closing (body : Bytes) (metadata : Nat) : ChunkReading :=
  { state := .chunkDataCrlf, body := body, metadata := metadata }

/-- The view before a trailer line. -/
def trailing (body : Bytes) (metadata trailer : Nat) : ChunkReading :=
  { state := .trailers, body := body, metadata := metadata, trailer := trailer }

/-- The view after a size line. -/
def afterSize (body : Bytes) (metadata : Nat) (l : SizeLine) : ChunkView :=
  if l.value > kMaxBodyBytes - body.length then .tooLarge
  else if l.value = 0 then .reading (trailing body metadata 0)
  else .reading (filling body metadata l.value)

theorem ready_fits (body : Bytes) (metadata n : Nat) :
    ¬((ready body metadata).grown n).Overflow ↔
      metadata + n ≤ kMaxChunkMetadataBytes ∧ n ≤ kMaxChunkLineBytes := by
  unfold Overflow ready grown kMaxTrailerBytes
  simp

theorem trailing_fits (body : Bytes) (metadata trailer n : Nat) :
    ¬((trailing body metadata trailer).grown n).Overflow ↔
      metadata + n ≤ kMaxChunkMetadataBytes ∧ trailer + n ≤ kMaxTrailerBytes := by
  unfold Overflow trailing grown kMaxChunkLineBytes
  simp

theorem ready_endLine {body : Bytes} {metadata : Nat} {l : SizeLine} (wellFormed : l.WellFormed) :
    ((ready body metadata).lined l.bytes).endLine
      = afterSize body (metadata + l.bytes.length + 2) l := by
  show ((ready body metadata).lined l.bytes).endSize = _
  rw [endSize_wellFormed wellFormed rfl]
  unfold afterSize
  show (if l.value > kMaxBodyBytes - body.length then _ else _) = _
  split
  · rfl
  · split
    · next zero =>
      rw [zero]
      rfl
    · rfl

theorem run_size {body rest : Bytes} {metadata : Nat} {l : SizeLine} (wellFormed : l.WellFormed)
    (fits : metadata + l.bytes.length + 2 ≤ kMaxChunkMetadataBytes) :
    ChunkView.run (.reading (ready body metadata)) (l.bytes ++ cr :: lf :: rest) =
      ChunkView.run (afterSize body (metadata + l.bytes.length + 2) l) rest := by
  rw [run_word l.bytes rest _ rfl (.inl rfl) wellFormed.plain
    ((ready_fits _ _ _).mpr ⟨fits, wellFormed.size⟩), ready_endLine wellFormed]

theorem run_size_sound {body input rest : Bytes} {metadata : Nat} {view : ChunkView}
    (ends : view.Ends) (ran : ChunkView.run (.reading (ready body metadata)) input = (view, rest)) :
    ∃ (l : SizeLine) (more : Bytes), l.WellFormed ∧ input = l.bytes ++ cr :: lf :: more ∧
      metadata + l.bytes.length + 2 ≤ kMaxChunkMetadataBytes ∧
      ChunkView.run (afterSize body (metadata + l.bytes.length + 2) l) more = (view, rest) := by
  obtain ⟨word, more, rfl, -, fits, finish⟩ := run_word_sound ends input _ rfl (.inl rfl) ran
  obtain ⟨room, short⟩ := (ready_fits _ _ _).mp fits
  have open1 : ((ready body metadata).lined word).endSize ≠ .refused := by
    intro refused
    rw [show ((ready body metadata).lined word).endLine = .refused from refused] at finish
    exact ends.not_refused _ _ finish
  obtain ⟨l, wellFormed, same⟩ := endSize_sound (r := (ready body metadata).lined word) short open1
  have same : word = l.bytes := same
  subst same
  rw [ready_endLine wellFormed] at finish
  exact ⟨l, more, wellFormed, rfl, room, finish⟩

theorem filling_step (body : Bytes) (metadata n : Nat) (c : UInt8) :
    (filling body metadata (n + 1)).step c =
      .reading (if n = 0 then closing (body ++ [c]) metadata else filling (body ++ [c]) metadata n) := by
  cases n <;> rfl

/-- **The data of a chunk goes into the body.** -/
theorem run_data (metadata : Nat) (data rest : Bytes) : ∀ body : Bytes, data ≠ [] →
    ChunkView.run (.reading (filling body metadata data.length)) (data ++ rest) =
      ChunkView.run (.reading (closing (body ++ data) metadata)) rest := by
  induction data with
  | nil => exact fun body some => absurd rfl some
  | cons c data ih =>
    intro body _
    show ChunkView.run ((filling body metadata (data.length + 1)).step c) (data ++ rest) = _
    rw [filling_step]
    cases data with
    | nil => rfl
    | cons d data =>
      rw [if_neg (by simp), ih _ (List.cons_ne_nil _ _), List.append_assoc]
      rfl

theorem run_data_sound {metadata : Nat} {view : ChunkView} {rest : Bytes} (ends : view.Ends) (n : Nat) :
    ∀ body input : Bytes,
    ChunkView.run (.reading (filling body metadata (n + 1))) input = (view, rest) →
    ∃ data more, input = data ++ more ∧ data.length = n + 1 ∧
      ChunkView.run (.reading (closing (body ++ data) metadata)) more = (view, rest) := by
  induction n with
  | zero =>
    intro body input ran
    cases input with
    | nil => exact absurd ran (ends.not_reading _ _)
    | cons c input =>
      change ChunkView.run ((filling body metadata 1).step c) input = _ at ran
      rw [filling_step, if_pos rfl] at ran
      exact ⟨[c], input, rfl, rfl, ran⟩
  | succ n ih =>
    intro body input ran
    cases input with
    | nil => exact absurd ran (ends.not_reading _ _)
    | cons c input =>
      change ChunkView.run ((filling body metadata (n + 1 + 1)).step c) input = _ at ran
      rw [filling_step, if_neg (Nat.succ_ne_zero n)] at ran
      obtain ⟨data, more, rfl, size, later⟩ := ih _ _ ran
      refine ⟨c :: data, more, rfl, by rw [List.length_cons, size], ?_⟩
      rwa [List.append_assoc] at later

theorem closing_step (body : Bytes) (metadata : Nat) (c : UInt8) :
    (closing body metadata).step c =
      if metadata + 1 > kMaxChunkMetadataBytes then .refused
      else if c ≠ cr then .refused
      else .reading { closing body (metadata + 1) with dataCrlf := 1 } := by
  have full : (closing body metadata).counted.Overflow ↔ metadata + 1 > kMaxChunkMetadataBytes := by
    unfold Overflow closing counted kMaxTrailerBytes kMaxChunkLineBytes
    simp
  show (if (closing body metadata).counted.Overflow then _ else _) = _
  simp only [full]
  rfl

theorem closed_step (body : Bytes) (metadata : Nat) (c : UInt8) :
    ChunkReading.step { closing body metadata with dataCrlf := 1 } c =
      if metadata + 1 > kMaxChunkMetadataBytes then .refused
      else if c ≠ lf then .refused
      else .reading (ready body (metadata + 1)) := by
  have full : (counted { closing body metadata with dataCrlf := 1 }).Overflow ↔
      metadata + 1 > kMaxChunkMetadataBytes := by
    unfold Overflow closing counted kMaxTrailerBytes kMaxChunkLineBytes
    simp
  show (if (counted { closing body metadata with dataCrlf := 1 }).Overflow then _ else _) = _
  simp only [full]
  rfl

theorem run_crlf {body rest : Bytes} {metadata : Nat} (fits : metadata + 2 ≤ kMaxChunkMetadataBytes) :
    ChunkView.run (.reading (closing body metadata)) (cr :: lf :: rest) =
      ChunkView.run (.reading (ready body (metadata + 2))) rest := by
  show ChunkView.run ((closing body metadata).step cr) (lf :: rest) = _
  rw [closing_step, if_neg (by omega), if_neg (not_not.mpr rfl)]
  show ChunkView.run (ChunkReading.step _ lf) rest = _
  rw [closed_step, if_neg (by omega), if_neg (not_not.mpr rfl)]

theorem run_crlf_sound {body input rest : Bytes} {metadata : Nat} {view : ChunkView} (ends : view.Ends)
    (ran : ChunkView.run (.reading (closing body metadata)) input = (view, rest)) :
    ∃ more, input = cr :: lf :: more ∧ metadata + 2 ≤ kMaxChunkMetadataBytes ∧
      ChunkView.run (.reading (ready body (metadata + 2))) more = (view, rest) := by
  cases input with
  | nil => exact absurd ran (ends.not_reading _ _)
  | cons c input =>
    change ChunkView.run ((closing body metadata).step c) input = _ at ran
    rw [closing_step] at ran
    split at ran
    · exact absurd ran (ends.not_refused _ _)
    split at ran
    · exact absurd ran (ends.not_refused _ _)
    next isCr =>
    cases input with
    | nil => exact absurd ran (ends.not_reading _ _)
    | cons d input =>
      change ChunkView.run (ChunkReading.step _ d) input = _ at ran
      rw [closed_step] at ran
      split at ran
      · exact absurd ran (ends.not_refused _ _)
      next fits =>
      split at ran
      · exact absurd ran (ends.not_refused _ _)
      next isLf =>
      rw [not_not.mp isCr, not_not.mp isLf]
      exact ⟨input, rfl, by omega, ran⟩

/-! ### Chunks -/

/-- A chunk: its size line and its data. -/
structure Chunk where
  line : SizeLine
  data : Bytes

namespace Chunk

def bytes (c : Chunk) : Bytes := c.line.bytes ++ crlf ++ c.data ++ crlf

structure WellFormed (c : Chunk) : Prop where
  line : c.line.WellFormed
  size : c.line.value = c.data.length
  data : c.data ≠ []

end Chunk

/-- Chunks one after another. -/
def chunkBytes (chunks : List Chunk) : Bytes := chunks.flatMap Chunk.bytes

/-- Their data. -/
def chunkData (chunks : List Chunk) : Bytes := chunks.flatMap Chunk.data

/-- Their bytes that are not data. -/
def overhead (chunks : List Chunk) : Nat := (chunks.map fun c => c.line.bytes.length + 4).sum

theorem chunkBytes_length (chunks : List Chunk) :
    (chunkBytes chunks).length = overhead chunks + (chunkData chunks).length := by
  induction chunks with
  | nil => rfl
  | cons c chunks ih =>
    unfold chunkBytes chunkData overhead Chunk.bytes at *
    simp only [List.flatMap_cons, List.length_append, List.map_cons, List.sum_cons, List.length_cons,
      List.length_nil] at *
    omega

theorem run_chunk {c : Chunk} (wellFormed : c.WellFormed) {body rest : Bytes} {metadata : Nat}
    (room : body.length + c.data.length ≤ kMaxBodyBytes)
    (fits : metadata + (c.line.bytes.length + 4) ≤ kMaxChunkMetadataBytes) :
    ChunkView.run (.reading (ready body metadata)) (c.bytes ++ rest) =
      ChunkView.run (.reading (ready (body ++ c.data) (metadata + (c.line.bytes.length + 4)))) rest := by
  have bytes : c.bytes ++ rest = c.line.bytes ++ cr :: lf :: (c.data ++ cr :: lf :: rest) := by
    unfold Chunk.bytes
    simp
  have some := List.length_pos_iff.mpr wellFormed.data
  have after : ∀ m, afterSize body m c.line = .reading (filling body m c.data.length) := by
    intro m
    unfold afterSize
    rw [wellFormed.size, if_neg (by omega), if_neg (by omega)]
  rw [bytes, run_size wellFormed.line (by omega), after, run_data _ _ _ _ wellFormed.data,
    run_crlf (by omega)]
  rfl

/-- **Well-formed chunks are read to their end.** -/
theorem run_chunks (chunks : List Chunk) (rest : Bytes) : ∀ (body : Bytes) (metadata : Nat),
    (∀ c ∈ chunks, c.WellFormed) → body.length + (chunkData chunks).length ≤ kMaxBodyBytes →
    metadata + overhead chunks ≤ kMaxChunkMetadataBytes →
    ChunkView.run (.reading (ready body metadata)) (chunkBytes chunks ++ rest) =
      ChunkView.run (.reading (ready (body ++ chunkData chunks) (metadata + overhead chunks))) rest := by
  induction chunks with
  | nil =>
    intro body metadata _ _ _
    show _ = ChunkView.run (.reading (ready (body ++ []) metadata)) rest
    rw [List.append_nil]
    rfl
  | cons c chunks ih =>
    intro body metadata wellFormed room fits
    obtain ⟨first, others⟩ := List.forall_mem_cons.mp wellFormed
    have data : chunkData (c :: chunks) = c.data ++ chunkData chunks := rfl
    have count : overhead (c :: chunks) = c.line.bytes.length + 4 + overhead chunks := rfl
    rw [data, List.length_append] at room
    rw [count] at fits
    rw [data, count, ← List.append_assoc, ← Nat.add_assoc metadata,
      ← ih _ _ others (by rw [List.length_append]; omega) (by omega),
      ← run_chunk first (by omega) (by omega), ← List.append_assoc]
    rfl

/-- **A view that ends has read well-formed chunks**, and then a size line that is zero or too large. -/
theorem run_chunks_sound {view : ChunkView} {rest : Bytes} (ends : view.Ends) (bound : Nat) :
    ∀ (input body : Bytes) (metadata : Nat), input.length ≤ bound → body.length ≤ kMaxBodyBytes →
    ChunkView.run (.reading (ready body metadata)) input = (view, rest) →
    ∃ (chunks : List Chunk) (l : SizeLine) (more : Bytes),
      input = chunkBytes chunks ++ (l.bytes ++ cr :: lf :: more) ∧ (∀ c ∈ chunks, c.WellFormed) ∧
      l.WellFormed ∧ body.length + (chunkData chunks).length ≤ kMaxBodyBytes ∧
      metadata + overhead chunks + l.bytes.length + 2 ≤ kMaxChunkMetadataBytes ∧
      (l.value = 0 ∨ l.value > kMaxBodyBytes - (body ++ chunkData chunks).length) ∧
      ChunkView.run (afterSize (body ++ chunkData chunks)
        (metadata + overhead chunks + l.bytes.length + 2) l) more = (view, rest) := by
  induction bound with
  | zero =>
    intro input body metadata short _ ran
    obtain rfl := List.length_eq_zero_iff.mp (Nat.le_zero.mp short)
    exact absurd ran (ends.not_reading _ _)
  | succ bound ih =>
    intro input body metadata short room ran
    obtain ⟨l, more, wellFormed, rfl, fits, later⟩ := run_size_sound ends ran
    by_cases last : l.value = 0 ∨ l.value > kMaxBodyBytes - body.length
    · refine ⟨[], l, more, rfl, fun c member => absurd member List.not_mem_nil, wellFormed, room,
        fits, ?_, ?_⟩
      · show l.value = 0 ∨ l.value > kMaxBodyBytes - (body ++ []).length
        rw [List.append_nil]
        exact last
      · show ChunkView.run (afterSize (body ++ []) (metadata + l.bytes.length + 2) l) more = _
        rw [List.append_nil]
        exact later
    -- a chunk with data: the data, its CRLF, and the induction hypothesis on what follows
    obtain ⟨notZero, notLarge⟩ := not_or.mp last
    obtain ⟨n, size⟩ := Nat.exists_eq_succ_of_ne_zero notZero
    unfold afterSize at later
    rw [if_neg notLarge, if_neg notZero, size] at later
    obtain ⟨data, more, rfl, length, later⟩ := run_data_sound ends n _ _ later
    obtain ⟨more, rfl, fits, later⟩ := run_crlf_sound ends later
    simp only [List.length_append, List.length_cons] at short
    obtain ⟨chunks, l', more, rfl, chunksWell, lineWell, total, count, kind, finish⟩ :=
      ih more (body ++ data) _ (by omega) (by rw [List.length_append]; omega) later
    have first : Chunk.WellFormed ⟨l, data⟩ :=
      ⟨wellFormed, by rw [size, length], List.ne_nil_of_length_eq_add_one length⟩
    have counted : metadata + overhead (⟨l, data⟩ :: chunks)
        = metadata + l.bytes.length + 2 + 2 + overhead chunks := by
      show metadata + (l.bytes.length + 4 + overhead chunks) = _
      omega
    have together : chunkData (⟨l, data⟩ :: chunks) = data ++ chunkData chunks := rfl
    rw [List.append_assoc] at kind finish
    refine ⟨⟨l, data⟩ :: chunks, l', more, ?_, List.forall_mem_cons.mpr ⟨first, chunksWell⟩, lineWell,
      ?_, ?_, ?_, ?_⟩
    · show _ = (l.bytes ++ crlf ++ data ++ crlf ++ chunkBytes chunks) ++ _
      simp
    · rw [together, List.length_append]
      rw [List.length_append] at total
      omega
    · rw [counted]
      exact count
    · rw [together]
      exact kind
    · rw [together, counted]
      exact finish

/-! ### Trailers -/

theorem trailing_endLine (body : Bytes) (metadata trailer : Nat) (word : Bytes) :
    ((trailing body metadata trailer).lined word).endLine =
      if word = [] then .done body
      else if (validateHeader word true {}).value.1 then
        .reading (trailing body (metadata + word.length + 2) (trailer + word.length + 2))
      else .refused := rfl

/-- **Accepted trailer lines and a blank line complete the body.** -/
theorem run_trailers (body rest : Bytes) (trailers : List FieldLine) : ∀ metadata trailer : Nat,
    (∀ l ∈ trailers, l.WellFormed ∧ l.IsTrailer) →
    metadata + (linesBytes (trailers.map FieldLine.bytes)).length + 2 ≤ kMaxChunkMetadataBytes →
    trailer + (linesBytes (trailers.map FieldLine.bytes)).length + 2 ≤ kMaxTrailerBytes →
    ChunkView.run (.reading (trailing body metadata trailer))
      (linesBytes (trailers.map FieldLine.bytes) ++ crlf ++ rest) = (.done body, rest) := by
  induction trailers with
  | nil =>
    intro metadata trailer _ room fits
    show ChunkView.run _ ([] ++ cr :: lf :: rest) = _
    rw [run_word [] rest _ rfl (.inr rfl) rfl ((trailing_fits body metadata trailer 2).mpr ⟨room, fits⟩),
      trailing_endLine, if_pos rfl, chunk_run_done]
  | cons l trailers ih =>
    intro metadata trailer wellFormed room fits
    obtain ⟨⟨lineWell, named⟩, others⟩ := List.forall_mem_cons.mp wellFormed
    have size : (linesBytes ((l :: trailers).map FieldLine.bytes)).length
        = l.bytes.length + 2 + (linesBytes (trailers.map FieldLine.bytes)).length := by
      show (l.bytes ++ crlf ++ linesBytes (trailers.map FieldLine.bytes)).length = _
      rw [List.length_append, List.length_append]
      rfl
    have bytes : linesBytes ((l :: trailers).map FieldLine.bytes) ++ crlf ++ rest
        = l.bytes ++ cr :: lf :: (linesBytes (trailers.map FieldLine.bytes) ++ crlf ++ rest) := by
      show (l.bytes ++ crlf ++ linesBytes (trailers.map FieldLine.bytes)) ++ crlf ++ rest = _
      simp
    have accepted : (validateHeader l.bytes true {}).value.1 = true := by
      rw [validateHeader_bytes lineWell, if_pos rfl]
      exact decide_eq_true named
    rw [size] at room fits
    rw [bytes, run_word l.bytes _ _ rfl (.inr rfl) lineWell.plain.2
        ((trailing_fits _ _ _ _).mpr ⟨by omega, by omega⟩),
      trailing_endLine, if_neg lineWell.plain.1, if_pos accepted]
    exact ih _ _ others (by omega) (by omega)

/-- **Only accepted trailer lines and a blank line end the body.** -/
theorem run_trailers_sound {view : ChunkView} {body rest : Bytes} (ends : view.Ends) (bound : Nat) :
    ∀ (input : Bytes) (metadata trailer : Nat), input.length ≤ bound →
    ChunkView.run (.reading (trailing body metadata trailer)) input = (view, rest) →
    view = .done body ∧ ∃ trailers : List FieldLine,
      input = linesBytes (trailers.map FieldLine.bytes) ++ crlf ++ rest ∧
      (∀ l ∈ trailers, l.WellFormed ∧ l.IsTrailer) ∧
      metadata + (linesBytes (trailers.map FieldLine.bytes)).length + 2 ≤ kMaxChunkMetadataBytes ∧
      trailer + (linesBytes (trailers.map FieldLine.bytes)).length + 2 ≤ kMaxTrailerBytes := by
  induction bound with
  | zero =>
    intro input metadata trailer short ran
    obtain rfl := List.length_eq_zero_iff.mp (Nat.le_zero.mp short)
    exact absurd ran (ends.not_reading _ _)
  | succ bound ih =>
    intro input metadata trailer short ran
    obtain ⟨word, more, rfl, -, fits, finish⟩ := run_word_sound ends input _ rfl (.inr rfl) ran
    obtain ⟨room, small⟩ := (trailing_fits _ _ _ _).mp fits
    rw [trailing_endLine] at finish
    split at finish
    · next blank =>
      rw [chunk_run_done] at finish
      obtain ⟨rfl, rfl⟩ := Prod.mk.inj finish
      rw [blank] at room small
      refine ⟨rfl, [], ?_, fun l member => absurd member List.not_mem_nil, room, small⟩
      rw [blank]
      rfl
    split at finish
    · next some accepted =>
      obtain ⟨l, lineWell, rfl⟩ := validateHeader_accepts accepted
      rw [validateHeader_bytes lineWell, if_pos rfl] at accepted
      simp only [List.length_append, List.length_cons] at short
      obtain ⟨done, trailers, rfl, wellFormed, later, count⟩ := ih _ _ _ (by omega) finish
      have size : (linesBytes ((l :: trailers).map FieldLine.bytes)).length
          = l.bytes.length + 2 + (linesBytes (trailers.map FieldLine.bytes)).length := by
        show (l.bytes ++ crlf ++ linesBytes (trailers.map FieldLine.bytes)).length = _
        rw [List.length_append, List.length_append]
        rfl
      refine ⟨done, l :: trailers, ?_, List.forall_mem_cons.mpr
        ⟨⟨lineWell, of_decide_eq_true accepted⟩, wellFormed⟩, ?_, ?_⟩
      · show _ = (l.bytes ++ crlf ++ linesBytes (trailers.map FieldLine.bytes)) ++ crlf ++ rest
        simp
      · rw [size]
        omega
      · rw [size]
        omega
    · exact absurd finish (ends.not_refused _ _)

/-! ### Bodies -/

/-- A chunked body: chunks with data, a last size line, trailer fields. -/
structure ChunkedBody where
  chunks : List Chunk
  last : SizeLine
  trailers : List FieldLine

namespace ChunkedBody

/-- The trailer part with the blank line that ends the body. -/
def trailerPart (b : ChunkedBody) : Bytes := (b.trailers.flatMap fun l => l.bytes ++ crlf) ++ crlf

def bytes (b : ChunkedBody) : Bytes := chunkBytes b.chunks ++ b.last.bytes ++ crlf ++ b.trailerPart

def data (b : ChunkedBody) : Bytes := chunkData b.chunks

structure WellFormed (b : ChunkedBody) : Prop where
  chunks : ∀ c ∈ b.chunks, c.WellFormed
  last : b.last.WellFormed
  zero : b.last.value = 0
  trailers : ∀ l ∈ b.trailers, l.WellFormed ∧ l.IsTrailer
  size : b.data.length ≤ kMaxBodyBytes
  trailerSize : b.trailerPart.length ≤ kMaxTrailerBytes
  metadata : b.bytes.length - b.data.length ≤ kMaxChunkMetadataBytes

theorem trailerPart_eq (b : ChunkedBody) :
    b.trailerPart = linesBytes (b.trailers.map FieldLine.bytes) ++ crlf := by
  unfold trailerPart linesBytes
  rw [List.flatMap_map]

theorem metadata_eq (b : ChunkedBody) :
    b.bytes.length - b.data.length = overhead b.chunks + b.last.bytes.length + 2
      + (linesBytes (b.trailers.map FieldLine.bytes)).length + 2 := by
  unfold bytes data
  rw [trailerPart_eq]
  simp only [List.length_append, chunkBytes_length, List.length_cons, List.length_nil]
  omega

end ChunkedBody

/-- The beginning of a chunked body that announces too much data. -/
structure Oversized where
  chunks : List Chunk
  line : SizeLine

namespace Oversized

def bytes (o : Oversized) : Bytes := chunkBytes o.chunks ++ o.line.bytes ++ crlf

def data (o : Oversized) : Bytes := chunkData o.chunks

structure WellFormed (o : Oversized) : Prop where
  chunks : ∀ c ∈ o.chunks, c.WellFormed
  line : o.line.WellFormed
  size : o.data.length ≤ kMaxBodyBytes
  large : o.data.length + o.line.value > kMaxBodyBytes
  metadata : o.bytes.length - o.data.length ≤ kMaxChunkMetadataBytes

theorem metadata_eq (o : Oversized) :
    o.bytes.length - o.data.length = overhead o.chunks + o.line.bytes.length + 2 := by
  unfold bytes data
  simp only [List.length_append, chunkBytes_length, List.length_cons, List.length_nil]
  omega

end Oversized

/-- **The view of a well-formed body is complete with its last byte.** -/
theorem run_body {b : ChunkedBody} (wellFormed : b.WellFormed) (rest : Bytes) :
    ChunkView.run (.reading {}) (b.bytes ++ rest) = (.done b.data, rest) := by
  have count := wellFormed.metadata
  have trailer := wellFormed.trailerSize
  rw [b.metadata_eq] at count
  rw [b.trailerPart_eq, List.length_append, show crlf.length = 2 from rfl] at trailer
  have bytes : b.bytes ++ rest = chunkBytes b.chunks ++ (b.last.bytes ++ cr :: lf ::
      (linesBytes (b.trailers.map FieldLine.bytes) ++ crlf ++ rest)) := by
    unfold ChunkedBody.bytes
    rw [b.trailerPart_eq]
    simp
  have after : ∀ m, afterSize ([] ++ chunkData b.chunks) m b.last
      = .reading (trailing ([] ++ chunkData b.chunks) m 0) := by
    intro m
    unfold afterSize
    rw [wellFormed.zero, if_neg (Nat.not_lt_zero _), if_pos rfl]
  have size := wellFormed.size
  rw [bytes, show ({} : ChunkReading) = ready [] 0 from rfl,
    run_chunks _ _ [] 0 wellFormed.chunks (by simpa [ChunkedBody.data] using size) (by omega),
    run_size wellFormed.last (by omega), after,
    run_trailers _ _ _ _ _ wellFormed.trailers (by omega) (by omega)]
  rfl

/-- **An announcement of too much data is refused with its last byte.** -/
theorem run_oversized {o : Oversized} (wellFormed : o.WellFormed) (rest : Bytes) :
    ChunkView.run (.reading {}) (o.bytes ++ rest) = (.tooLarge, rest) := by
  have count := wellFormed.metadata
  rw [o.metadata_eq] at count
  have size := wellFormed.size
  have large := wellFormed.large
  have bytes : o.bytes ++ rest = chunkBytes o.chunks ++ (o.line.bytes ++ cr :: lf :: rest) := by
    unfold Oversized.bytes
    simp
  rw [bytes, show ({} : ChunkReading) = ready [] 0 from rfl,
    run_chunks _ _ [] 0 wellFormed.chunks (by simpa [Oversized.data] using size) (by omega),
    run_size wellFormed.line (by omega)]
  unfold afterSize
  rw [if_pos (by
    show o.line.value > kMaxBodyBytes - o.data.length
    omega), chunk_run_tooLarge]

/-- **The view ends on these inputs only.** -/
theorem run_body_sound {view : ChunkView} {input rest : Bytes} (ends : view.Ends)
    (ran : ChunkView.run (.reading {}) input = (view, rest)) :
    (∃ b : ChunkedBody, b.WellFormed ∧ view = .done b.data ∧ input = b.bytes ++ rest) ∨
      ∃ o : Oversized, o.WellFormed ∧ view = .tooLarge ∧ input = o.bytes ++ rest := by
  obtain ⟨chunks, l, more, rfl, chunksWell, lineWell, room, fits, kind, finish⟩ :=
    run_chunks_sound ends input.length input [] 0 le_rfl (Nat.zero_le _) ran
  rw [List.nil_append] at kind finish
  rw [List.length_nil, Nat.zero_add] at room
  by_cases large : l.value > kMaxBodyBytes - (chunkData chunks).length
  · right
    unfold afterSize at finish
    rw [if_pos large, chunk_run_tooLarge] at finish
    obtain ⟨rfl, rfl⟩ := Prod.mk.inj finish
    refine ⟨⟨chunks, l⟩, ⟨chunksWell, lineWell, room, ?_, ?_⟩, rfl, ?_⟩
    · show (chunkData chunks).length + l.value > _
      omega
    · rw [Oversized.metadata_eq]
      show overhead chunks + l.bytes.length + 2 ≤ _
      omega
    · show _ = chunkBytes chunks ++ l.bytes ++ crlf ++ _
      simp
  · left
    have zero := kind.resolve_right large
    unfold afterSize at finish
    rw [if_neg large, if_pos zero] at finish
    obtain ⟨done, trailers, rfl, trailersWell, count, small⟩ :=
      run_trailers_sound ends more.length more _ _ le_rfl finish
    refine ⟨⟨chunks, l, trailers⟩, ⟨chunksWell, lineWell, zero, trailersWell, room, ?_, ?_⟩, done, ?_⟩
    · rw [ChunkedBody.trailerPart_eq, List.length_append]
      show (linesBytes (trailers.map FieldLine.bytes)).length + 2 ≤ _
      omega
    · rw [ChunkedBody.metadata_eq]
      show overhead chunks + l.bytes.length + 2 + (linesBytes (trailers.map FieldLine.bytes)).length + 2
        ≤ _
      omega
    · unfold ChunkedBody.bytes
      rw [ChunkedBody.trailerPart_eq]
      simp

theorem run_done_iff {input body rest : Bytes} :
    ChunkView.run (.reading {}) input = (.done body, rest) ↔
      ∃ b : ChunkedBody, b.WellFormed ∧ body = b.data ∧ input = b.bytes ++ rest := by
  refine ⟨fun ran => ?_, ?_⟩
  · have ends : (ChunkView.done body).Ends := trivial
    rcases run_body_sound ends ran with ⟨b, wellFormed, same, bytes⟩ | ⟨o, wellFormed, other, bytes⟩
    · exact ⟨b, wellFormed, ChunkView.done.inj same, bytes⟩
    · cases other
  · rintro ⟨b, wellFormed, rfl, rfl⟩
    exact run_body wellFormed rest

theorem run_tooLarge_iff {input rest : Bytes} :
    ChunkView.run (.reading {}) input = (.tooLarge, rest) ↔
      ∃ o : Oversized, o.WellFormed ∧ input = o.bytes ++ rest := by
  refine ⟨fun ran => ?_, ?_⟩
  · have ends : ChunkView.tooLarge.Ends := trivial
    rcases run_body_sound ends ran with ⟨b, wellFormed, other, bytes⟩ | ⟨o, wellFormed, -, bytes⟩
    · cases other
    · exact ⟨o, wellFormed, bytes⟩
  · rintro ⟨o, wellFormed, rfl⟩
    exact run_oversized wellFormed rest

/-! ### The parser -/

theorem take_of_rest {word rest : Bytes} {n : Nat} (size : n + rest.length = (word ++ rest).length) :
    (word ++ rest).take n = word := by
  rw [List.length_append] at size
  exact List.take_left' (by omega)

/-- Past its header section a parser reports nothing, so its byte run is its byte loop. -/
theorem byteRun_past (bytes : Bytes) : ∀ p : RequestParser, Past p.toParserFields →
    byteRun p bytes = ((byteLoop p bytes).1, [], (byteLoop p bytes).2) := by
  induction bytes with
  | nil => exact fun p _ => rfl
  | cons c rest ih =>
    intro p past
    by_cases final : p.state.isFinal = true
    · rw [byteRun_final _ final, byteLoop_final _ final]
    · have next := feedByte_past c past
      have live : p.state.isFinal = false := by simpa using final
      rw [byteRun_cons c rest live, byteLoop_cons c rest live, if_neg next.status, if_neg next.status]
      exact ih _ next

/-- At the end of a header section with a coded body the chunks begin. -/
theorem Ended.chunks {q : RequestParser} {line : Bytes} {h : HeaderFields} {n : Nat}
    (ended : Ended q line h n) (state : q.state = .chunkSize)
    (open1 : q.status = .headersComplete ∨ q.status = .needMore)
    (short : line.length ≤ kMaxRequestLineBytes) :
    HoldsChunks (q.onFields clearHeadersComplete) {} := by
  obtain ⟨left, shape⟩ := clearHeadersComplete_shape q.toParserFields
  have cleared : (clearHeadersComplete q.toParserFields).status = .needMore := by
    unfold clearHeadersComplete
    split
    · rfl
    · next other => exact open1.resolve_left other
  have part := ended.body
  simp only [ParserFields.bodyPart, Prod.mk.injEq] at part
  obtain ⟨body, remaining, metadata, trailer, lineBytes, dataCrlf⟩ := part
  obtain ⟨start, -, -⟩ := ended.stored
  rw [shape] at cleared
  have whole : q.onFields clearHeadersComplete = { q with status := left } := by
    show (⟨clearHeadersComplete q.toParserFields, q.storage⟩ : RequestParser) = _
    rw [shape]
  rw [whole]
  exact
    { state := state
      kind := .inl rfl
      status := cleared
      pendingCr := ended.pendingCr
      body := body
      size := ended.size
      line := by
        show slice q.storage q.lineStart q.lineSize = []
        rw [ended.size, slice_zero]
      remaining := remaining
      dataCrlf := dataCrlf
      metadata := metadata
      trailer := trailer
      lineBytes := lineBytes
      start := by
        show q.lineStart ≤ _
        rw [start]
        exact short
      room := Nat.zero_le _
      trailers := Nat.zero_le _
      lines := Nat.zero_le _
      pending := fun h => by cases h
      idle := fun _ => rfl }

/-- **What follows a well-formed section is left to the loop of the body**, in any cut of the input; the request a
message ends with is the one its section describes. -/
theorem feedAll_section {s : HeaderSection} (wellFormed : s.WellFormed) {b : Bytes} {segments : List Bytes}
    (input : segments.flatten = s.bytes ++ b) :
    let fed := feedAll segments
    ∃ q h, Ended q s.line.bytes h s.bytes.length ∧ Collected s.fields h ∧ q.state = s.state ∧ q.status = s.status ∧
      Coherent (q.onFields clearHeadersComplete).toParserFields ∧
      Past (q.onFields clearHeadersComplete).toParserFields ∧
      fed.parser = (byteLoop (q.onFields clearHeadersComplete) b).1 ∧
      fed.accepted + (byteLoop (q.onFields clearHeadersComplete) b).2.length = s.bytes.length + b.length ∧
      fed.last.status = fed.parser.status ∧
      (fed.parser.state = .complete → fed.last.request = s.request fed.parser.body) := by
  obtain ⟨q, h, ended, collected, state, status, loop⟩ := byteLoop_section wellFormed []
  have read : byteLoop {} s.bytes = (q, []) := by
    rw [List.append_nil] at loop
    rw [loop]
    split <;> rfl
  have coherent : Coherent q.toParserFields := by
    have kept := byteLoop_coherent s.bytes {} coherent_initial (by decide)
    rwa [read] at kept
  obtain ⟨left, shape⟩ := clearHeadersComplete_shape q.toParserFields
  have past : Past (q.onFields clearHeadersComplete).toParserFields := by
    refine ⟨?_, clearHeadersComplete_cleared _⟩
    rw [onFields_toParserFields, shape]
    exact ended.past
  obtain ⟨fixed, stored⟩ := byteLoop_fixed b _ past
  have start := byteRun_append s.bytes b {} (by decide)
  rw [read] at start
  have run : (byteRun {} (s.bytes ++ b)).1 = (byteLoop (q.onFields clearHeadersComplete) b).1 ∧
      (byteRun {} (s.bytes ++ b)).2.2 = (byteLoop (q.onFields clearHeadersComplete) b).2 := by
    rw [start]
    by_cases reported : q.status = .headersComplete
    · rw [if_pos reported, List.nil_append, byteRun_past b _ past]
      exact ⟨rfl, rfl⟩
    · have same := onFields_clearHeadersComplete reported
      rw [same] at past
      rw [if_neg reported, same]
      split
      · next final =>
        rw [byteLoop_final b final]
        exact ⟨rfl, rfl⟩
      · rw [byteRun_past b _ past]
        exact ⟨rfl, rfl⟩
  rw [← input, feedAll_run] at run
  obtain ⟨parser, rest⟩ := run
  dsimp only at parser rest
  obtain ⟨accepted, last⟩ := feedAll_last segments
  obtain ⟨bound, dropped⟩ := (feedAll_fed segments).rest coherent_initial
  refine ⟨q, h, ended, collected, state, status, clearHeadersComplete_coherent coherent, past, parser, ?_,
    by rw [last]; rfl, fun complete => ?_⟩
  · have length := congrArg List.length dropped
    rw [rest, List.length_drop, input, List.length_append] at length
    rw [input, List.length_append] at bound
    omega
  · rw [last]
    refine ended.request collected wellFormed.line ?_ (fun i before => ?_) complete
    · rw [parser, fixed, onFields_toParserFields, shape]
      rfl
    · rw [parser, stored i (by rw [onFields_toParserFields, shape]; exact before)]
      rfl

/-- **A message with a coded body is the view of what follows its header section.** -/
theorem feedAll_chunked {s : HeaderSection} (wellFormed : s.WellFormed) (admitted : s.refusal = none)
    (coded : s.values .transferEncoding ≠ []) {b : Bytes} {segments : List Bytes}
    (input : segments.flatten = s.bytes ++ b) :
    let fed := feedAll segments
    Chunks fed.parser (ChunkView.run (.reading {}) b).1 ∧
      fed.accepted + (ChunkView.run (.reading {}) b).2.length = s.bytes.length + b.length ∧
      fed.last.status = fed.parser.status ∧
      (fed.parser.state = .complete → fed.last.request = s.request fed.parser.body) := by
  obtain ⟨q, h, ended, -, state, status, -, -, parser, accepted, answer, request⟩ := feedAll_section wellFormed input
  have isChunks : s.state = .chunkSize := by
    unfold HeaderSection.state
    rw [if_neg (by simp [admitted]), if_pos coded]
  have open1 : q.status = .headersComplete ∨ q.status = .needMore := by
    rw [status, HeaderSection.status, admitted, Option.getD_none, isChunks, if_neg (by decide)]
    split
    · exact .inl rfl
    · exact .inr rfl
  obtain ⟨views, rest⟩ :=
    byteLoop_chunks b _ _ (ended.chunks (state.trans isChunks) open1 wellFormed.lineSize)
  rw [rest] at accepted
  exact ⟨by rw [parser]; exact views, accepted, answer, request⟩

/-- **Chunked bodies decode exactly.** After a well-formed header section that asks for `chunked` and
is not refused, in any cut of the input: the parser completes after `n` bytes of what follows exactly
where these are a well-formed chunked body. The body delivered is then the data of its chunks, and
every other part of the request is that of the header section. It answers `413` after `n` bytes exactly
where these are well-formed chunks and a size line that announces too much data. Every other error is
`400`. -/
theorem chunked_body_grammar (s : HeaderSection) (wellFormed : s.WellFormed)
    (admitted : s.refusal = none) (coded : s.values .transferEncoding ≠ []) (b : Bytes)
    (segments : List Bytes) (input : segments.flatten = s.bytes ++ b) :
    let fed := feedAll segments
    (∀ n, fed.last.status = .complete ∧ fed.accepted = s.bytes.length + n ↔
      n ≤ b.length ∧ ∃ c : ChunkedBody, c.WellFormed ∧ b.take n = c.bytes) ∧
    (∀ c : ChunkedBody, c.WellFormed → c.bytes <+: b → fed.last.request = s.request c.data) ∧
    (∀ n, fed.last.status = .payloadTooLarge ∧ fed.accepted = s.bytes.length + n ↔
      n ≤ b.length ∧ ∃ o : Oversized, o.WellFormed ∧ b.take n = o.bytes) ∧
    (fed.last.status = .needMore ∨ fed.last.status = .complete ∨
      fed.last.status = .payloadTooLarge ∨ fed.last.status = .badRequest) := by
  obtain ⟨views, count, status, request⟩ := feedAll_chunked wellFormed admitted coded input
  generalize feedAll segments = fed at views count status request
  dsimp only
  refine ⟨fun n => ⟨?_, ?_⟩, fun c cWell begins => ?_, fun n => ⟨?_, ?_⟩, ?_⟩
  · rintro ⟨complete, accepted⟩
    rw [complete] at status
    cases ran : ChunkView.run (.reading {}) b with
    | mk view rest =>
    rw [ran] at views count
    dsimp only at count
    cases view with
    | reading r => exact absurd (status.trans (HoldsChunks.status views)) (by decide)
    | refused => exact absurd (status.trans views.2) (by decide)
    | tooLarge => exact absurd (status.trans views.2) (by decide)
    | done body =>
      obtain ⟨c, cWell, -, rfl⟩ := run_done_iff.mp ran
      exact ⟨by omega, c, cWell, take_of_rest (by omega)⟩
  · rintro ⟨bound, c, cWell, bytes⟩
    have ran := run_body cWell (b.drop n)
    rw [← bytes, List.take_append_drop] at ran
    rw [ran, List.length_drop] at count
    rw [ran] at views
    exact ⟨status.trans views.2.1, by omega⟩
  · obtain ⟨rest, rfl⟩ := begins
    rw [run_body cWell rest] at views
    rw [request views.1, views.2.2]
  · rintro ⟨tooLarge, accepted⟩
    rw [tooLarge] at status
    cases ran : ChunkView.run (.reading {}) b with
    | mk view rest =>
    rw [ran] at views count
    dsimp only at count
    cases view with
    | reading r => exact absurd (status.trans (HoldsChunks.status views)) (by decide)
    | refused => exact absurd (status.trans views.2) (by decide)
    | done body => exact absurd (status.trans views.2.1) (by decide)
    | tooLarge =>
      obtain ⟨o, oWell, rfl⟩ := run_tooLarge_iff.mp ran
      exact ⟨by omega, o, oWell, take_of_rest (by omega)⟩
  · rintro ⟨bound, o, oWell, bytes⟩
    have ran := run_oversized oWell (b.drop n)
    rw [← bytes, List.take_append_drop] at ran
    rw [ran, List.length_drop] at count
    rw [ran] at views
    exact ⟨status.trans views.2, by omega⟩
  · rw [status]
    revert views
    generalize (ChunkView.run (.reading {}) b).1 = view
    cases view with
    | reading r => exact fun views => .inl (HoldsChunks.status views)
    | refused => exact fun views => .inr (.inr (.inr views.2))
    | tooLarge => exact fun views => .inr (.inr (.inl views.2))
    | done body => exact fun views => .inr (.inl views.2.1)

/-- Two chunks, one with an extension, and a trailer field, cut in the middle of a size line. -/
theorem chunked_body_grammar_post :
    let s : HeaderSection :=
      ⟨⟨text "POST", text "/a"⟩,
        [⟨text "Host", text "x"⟩, ⟨text "Transfer-Encoding", text " chunked"⟩]⟩
    let b := text "3\r\nabc\r\n02;q=\"1\"\r\nde\r\n0\r\nX-Trace-Id: 7\r\n\r\nGET"
    let c : ChunkedBody :=
      ⟨[⟨⟨text "3", []⟩, text "abc"⟩, ⟨⟨text "02", text ";q=\"1\""⟩, text "de"⟩], ⟨text "0", []⟩,
        [⟨text "X-Trace-Id", text " 7"⟩]⟩
    let fed := feedAll [s.bytes ++ text "3\r", b.drop 2]
    fed.last.status = .complete ∧ fed.accepted = s.bytes.length + c.bytes.length ∧
      fed.last.request = s.request (text "abcde") := by
  intro s b c fed
  have wellFormed : s.WellFormed := by
    refine ⟨by decide +kernel, by decide +kernel, ⟨by decide, by decide, by decide, by decide⟩,
      List.forall_mem_cons.mpr ⟨⟨by decide, by decide, by decide⟩, List.forall_mem_singleton.mpr
        ⟨by decide, by decide, by decide⟩⟩,
      fun name => ?_, by decide +kernel, .inl (by decide +kernel), .inl (by decide +kernel)⟩
    cases name with
    | host =>
      rw [show s.values .host = [] ++ [text "x"] by decide +kernel]
      exact single_append.mpr ⟨rfl, by decide⟩
    | contentLength =>
      rw [show s.values .contentLength = [] by decide +kernel]
      exact single_nil _
    | transferEncoding =>
      rw [show s.values .transferEncoding = [] ++ [text "chunked"] by decide +kernel]
      exact single_append.mpr ⟨rfl, by decide +kernel, [], text "chunked", by decide +kernel,
        by decide +kernel, fun v member => absurd member List.not_mem_nil⟩
    | expect =>
      rw [show s.values .expect = [] by decide +kernel]
      exact single_nil _
    | trailer =>
      rw [show s.values .trailer = [] by decide +kernel]
      exact single_nil _
    | connection =>
      rw [show s.values .connection = [] by decide +kernel]
      exact fun v member => absurd member List.not_mem_nil
    | _ => trivial
  have line : ∀ l : SizeLine, l ∈ [⟨text "3", []⟩, ⟨text "02", text ";q=\"1\""⟩, ⟨text "0", []⟩] →
      l.WellFormed := by
    refine List.forall_mem_cons.mpr ⟨?_, List.forall_mem_cons.mpr ⟨?_, List.forall_mem_singleton.mpr ?_⟩⟩
      <;> exact ⟨by decide, by decide, by decide, by decide +kernel, by decide⟩
  have cWell : c.WellFormed :=
    { chunks := List.forall_mem_cons.mpr ⟨⟨line _ (by simp), rfl, by decide⟩,
        List.forall_mem_singleton.mpr ⟨line _ (by simp), rfl, by decide⟩⟩
      last := line ⟨text "0", []⟩ (by simp)
      zero := rfl
      trailers := List.forall_mem_singleton.mpr
        ⟨⟨by decide, by decide, by decide⟩, .inr (by decide +kernel)⟩
      size := by decide
      trailerSize := by decide +kernel
      metadata := by decide +kernel }
  have begins : b.take c.bytes.length = c.bytes := by decide +kernel
  obtain ⟨complete, request, -⟩ := chunked_body_grammar s wellFormed (by decide +kernel)
    (by decide +kernel) b [s.bytes ++ text "3\r", b.drop 2] (by decide +kernel)
  obtain ⟨status, accepted⟩ := (complete c.bytes.length).mpr ⟨by decide +kernel, c, cWell, begins⟩
  exact ⟨status, accepted, request c cWell (begins ▸ List.take_prefix _ _)⟩

end HpServer.Http
