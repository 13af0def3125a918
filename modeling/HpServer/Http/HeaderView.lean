/-
**The header section line by line.**

What the parser does with a header section does not depend on where it keeps the bytes. `HeaderView`
is the section as far as it has been read, over lists: the request line, the fields collected, the
line being assembled, and whether its CR has come.

* `HeaderView.step` — one byte of a header section; `HeaderView.run` — the bytes up to its end.
* `Views` — a parser holds what a view says; `views_step` — **one byte keeps the parser and the view
  together**.
* `byteLoop_views` — a new parser over any input: the view's run, and the body loop after its end.
-/

import HpServer.Http.ParserReset

namespace HpServer.Http

/-! ### The view -/

/-- A header section that is still being read. -/
structure Reading where
  requestLine : Option Bytes := none
  fields : HeaderFields := {}
  count : Nat := 0
  line : Bytes := []
  pendingCr : Bool := false

/-- A header section: still being read, refused with `400`, or ended by its blank line. -/
inductive HeaderView where
  | reading (r : Reading)
  | refused
  | ended (requestLine : Bytes) (fields : HeaderFields) (count : Nat)

/-- The line is complete. -/
def Reading.endLine (r : Reading) : HeaderView :=
  match r.requestLine with
  | none =>
    if (validateRequestLine r.line).value = none then .refused
    else .reading { r with requestLine := some r.line, line := [], pendingCr := false }
  | some requestLine =>
    if r.line = [] then
      if r.fields.framed then .ended requestLine r.fields r.count else .refused
    else if (validateHeader r.line false r.fields).value.1 then
      .reading
        { r with fields := (validateHeader r.line false r.fields).value.2, line := [], pendingCr := false }
    else .refused

/-- A byte that has been counted. -/
def Reading.take (r : Reading) (c : UInt8) : HeaderView :=
  if r.pendingCr then
    if c = lf then r.endLine else .refused
  else if c = cr then .reading { r with pendingCr := true }
  else if c = lf ∨ c = nul then .refused
  else if r.requestLine = none ∧ r.line.length = kMaxRequestLineBytes then .refused
  else .reading { r with line := r.line ++ [c] }

/-- A section that is still being read has a byte left. -/
def HeaderView.limit : HeaderView → HeaderView
  | .reading r => if r.count = kMaxHeaderBytes then .refused else .reading r
  | view => view

def Reading.step (r : Reading) (c : UInt8) : HeaderView :=
  (Reading.take { r with count := r.count + 1 } c).limit

/-- The bytes of a section up to its end: the view, and what follows the section. -/
def HeaderView.run : HeaderView → Bytes → HeaderView × Bytes
  | view, [] => (view, [])
  | .reading r, c :: rest => HeaderView.run (r.step c) rest
  | .refused, c :: rest => (.refused, c :: rest)
  | .ended requestLine fields count, c :: rest => (.ended requestLine fields count, c :: rest)

/-! ### The parser and its view -/

/-- The members of the body, which a header section leaves alone. -/
def ParserFields.bodyPart (f : ParserFields) : Bytes × Nat × Nat × Nat × Nat × Nat :=
  (f.body, f.chunkRemaining, f.metadataBytes, f.trailerBytes, f.chunkLineBytes, f.dataCrlfBytes)

/-- The request line is at the start of the array, with its parts noted; before its end, nothing
is. -/
def StoredLine (p : RequestParser) : Option Bytes → Prop
  | none => p.lineStart = 0
  | some requestLine =>
    p.lineStart = requestLine.length ∧ slice p.storage 0 requestLine.length = requestLine ∧
      (validateRequestLine requestLine).value
        = some ⟨p.methodSize, p.targetStart, p.targetSize, p.headRequest⟩

/-- The parser holds a section that is still being read. -/
structure Holds (p : RequestParser) (r : Reading) : Prop where
  state : p.state = if r.requestLine = none then .requestLine else .headers
  status : p.status = .needMore
  pendingCr : p.pendingCr = r.pendingCr
  fields : p.toHeaderFields = r.fields
  count : p.headerBytes = r.count
  size : p.lineSize = r.line.length
  line : p.line = r.line
  stored : StoredLine p r.requestLine
  body : p.bodyPart = ([], 0, 0, 0, 0, 0)

/-- The parser holds a section that has ended, refused or admitted as its fields say. -/
structure Ended (p : RequestParser) (requestLine : Bytes) (fields : HeaderFields) (count : Nat) :
    Prop where
  framed : fields.framed = true
  state : p.state = if fields.refusal = none then fields.bodyState else .error
  status : p.status = fields.refusal.getD fields.bodyStatus
  pendingCr : p.pendingCr = false
  fields : p.toHeaderFields = fields
  count : p.headerBytes = count
  size : p.lineSize = 0
  stored : StoredLine p (some requestLine)
  body : p.bodyPart = ([], 0, 0, 0, 0, 0)

def Views (p : RequestParser) : HeaderView → Prop
  | .reading r => Holds p r
  | .refused => p.state = .error ∧ p.status = .badRequest
  | .ended requestLine fields count => Ended p requestLine fields count

theorem views_initial : Views {} (.reading {}) where
  state := rfl
  status := rfl
  pendingCr := rfl
  fields := rfl
  count := rfl
  size := rfl
  line := rfl
  stored := rfl
  body := rfl

/-! ### One byte -/

/-- The view of a parser whose new `kError` has no status yet. -/
def Nears (p : RequestParser) : HeaderView → Prop
  | .reading r => Holds p r
  | .refused => p.state = .error ∧ p.status = .needMore
  | .ended requestLine fields count => Ended p requestLine fields count

theorem finishLine_requestLine {p : RequestParser} {r : Reading} (holds : Holds p r)
    (first : r.requestLine = none) (settled : r.pendingCr = false) : Nears (finishLine p) r.endLine := by
  have isLine : p.state = .requestLine := by rw [holds.state, if_pos first]
  have start : p.lineStart = 0 := by
    have stored := holds.stored
    rw [first] at stored
    exact stored
  have line : slice p.storage 0 p.lineSize = r.line := by
    rw [← holds.line, RequestParser.line, start]
  unfold finishLine finishLineFields Reading.endLine
  rw [first, line]
  show Nears (p.onFields fun f => if f.state = .requestLine then _ else _) _
  simp only [RequestParser.onFields, if_pos isLine]
  unfold acceptRequestLine
  cases valid : (validateRequestLine r.line).value with
  | none => exact ⟨rfl, holds.status⟩
  | some cut =>
    exact
      { state := rfl
        status := holds.status
        pendingCr := holds.pendingCr.trans settled
        fields := holds.fields
        count := holds.count
        size := rfl
        line := rfl
        stored := ⟨holds.size, by rw [← holds.size]; exact line, valid⟩
        body := holds.body }

theorem finishLine_blank {p : RequestParser} {r : Reading} {requestLine : Bytes} (holds : Holds p r)
    (later : r.requestLine = some requestLine) (settled : r.pendingCr = false) (blank : r.line = []) :
    Nears (finishLine p) r.endLine := by
  have isHeaders : p.state = .headers := by rw [holds.state, later]; rfl
  have size : p.lineSize = 0 := by rw [holds.size, blank]; rfl
  have shape : finishLine p
      = ⟨{ finishHeaders p.toParserFields with lineSize := 0 }, p.storage⟩ := by
    unfold finishLine finishLineFields
    simp only [RequestParser.onFields, isHeaders, size, if_true, reduceCtorEq, if_false]
  have stored : StoredLine p (some requestLine) := later ▸ holds.stored
  rw [shape, finishHeaders_eq holds.status, holds.fields]
  unfold Reading.endLine
  rw [later]
  dsimp only
  rw [if_pos blank]
  by_cases framed : r.fields.framed = true
  · rw [framed, if_pos rfl]
    simp only [Bool.not_true, Bool.false_eq_true, if_false]
    cases refused : r.fields.refusal with
    | some status =>
      exact
        { framed := framed
          state := by rw [refused]; rfl
          status := by rw [refused]; rfl
          pendingCr := holds.pendingCr.trans settled
          fields := rfl
          count := holds.count
          size := rfl
          stored := stored
          body := holds.body }
    | none =>
      exact
        { framed := framed
          state := by rw [refused]; rfl
          status := by rw [refused]; rfl
          pendingCr := holds.pendingCr.trans settled
          fields := rfl
          count := holds.count
          size := rfl
          stored := stored
          body := holds.body }
  · simp only [framed, Bool.not_false, if_true, Bool.false_eq_true, if_false]
    exact ⟨rfl, holds.status⟩

theorem finishLine_field {p : RequestParser} {r : Reading} {requestLine : Bytes} (holds : Holds p r)
    (later : r.requestLine = some requestLine) (settled : r.pendingCr = false) (some : r.line ≠ []) :
    Nears (finishLine p) r.endLine := by
  have isHeaders : p.state = .headers := by rw [holds.state, later]; rfl
  have size : p.lineSize ≠ 0 := by
    rw [holds.size]
    exact fun empty => some (List.length_eq_zero_iff.mp empty)
  have shape : finishLine p
      = ⟨{ acceptHeader r.line p.toParserFields with lineSize := 0 }, p.storage⟩ := by
    unfold finishLine finishLineFields
    simp only [RequestParser.onFields, isHeaders, size, reduceCtorEq, if_false, holds.line]
  have notTrailers : decide (p.state = .trailers) = false := by rw [isHeaders]; rfl
  have stored : StoredLine p (.some requestLine) := later ▸ holds.stored
  rw [shape]
  unfold Reading.endLine acceptHeader
  rw [later]
  dsimp only
  rw [if_neg some, notTrailers, holds.fields]
  by_cases valid : (validateHeader r.line false r.fields).value.1 = true
  · rw [if_pos valid, if_pos valid]
    exact
      { state := isHeaders
        status := holds.status
        pendingCr := holds.pendingCr.trans settled
        fields := rfl
        count := holds.count
        size := rfl
        line := rfl
        stored := stored
        body := holds.body }
  · rw [if_neg valid, if_neg valid]
    exact ⟨rfl, holds.status⟩

/-- **The end of a line.** -/
theorem finishLine_nears {p : RequestParser} {r : Reading} (holds : Holds p r)
    (settled : r.pendingCr = false) : Nears (finishLine p) r.endLine := by
  cases line : r.requestLine with
  | none => exact finishLine_requestLine holds line settled
  | some requestLine =>
    by_cases blank : r.line = []
    · exact finishLine_blank holds line settled blank
    · exact finishLine_field holds line settled blank

/-- A plain byte is stored behind the line, and the request line stays as it is. -/
theorem Holds.store {p : RequestParser} {r : Reading} (holds : Holds p r) (c : UInt8) :
    Holds (p.store c) { r with line := r.line ++ [c] } where
  state := holds.state
  status := holds.status
  pendingCr := holds.pendingCr
  fields := holds.fields
  count := holds.count
  size := by
    show p.lineSize + 1 = _
    rw [holds.size, List.length_append]
    rfl
  line := by
    show slice (Function.update p.storage (p.lineStart + p.lineSize) c) p.lineStart (p.lineSize + 1) = _
    rw [slice_update_last, ← holds.line]
    rfl
  stored := by
    have stored := holds.stored
    cases line : r.requestLine with
    | none =>
      rw [line] at stored
      exact stored
    | some requestLine =>
      rw [line] at stored
      refine ⟨stored.1, ?_, stored.2.2⟩
      show slice (Function.update p.storage (p.lineStart + p.lineSize) c) 0 requestLine.length = _
      rw [slice_update_of_le c (by have := stored.1; omega)]
      exact stored.2.1
  body := holds.body

theorem takeHeaderByte_nears {p : RequestParser} {r : Reading} (c : UInt8) (holds : Holds p r) :
    Nears (takeHeaderByte p c) (r.take c) := by
  have first : (p.state = .requestLine ∧ p.lineSize = kMaxRequestLineBytes) ↔
      (r.requestLine = none ∧ r.line.length = kMaxRequestLineBytes) := by
    rw [holds.state, holds.size]
    by_cases none : r.requestLine = none
    · simp [none]
    · simp [none]
  unfold takeHeaderByte Reading.take
  rw [holds.pendingCr]
  by_cases pending : r.pendingCr = true
  · rw [if_pos pending, if_pos pending]
    by_cases isLf : c = lf
    · have cleared : Holds { p with pendingCr := false } { r with pendingCr := false } :=
        ⟨holds.state, holds.status, rfl, holds.fields, holds.count, holds.size, holds.line,
          holds.stored, holds.body⟩
      have same : r.endLine = Reading.endLine { r with pendingCr := false } := rfl
      simp only [isLf, ne_eq, not_true, if_false, if_true]
      rw [same]
      exact finishLine_nears cleared rfl
    · simp only [isLf, ne_eq, not_false_eq_true, if_true, if_false]
      exact ⟨rfl, holds.status⟩
  · rw [if_neg pending, if_neg pending]
    by_cases isCr : c = cr
    · rw [if_pos isCr, if_pos isCr]
      exact ⟨holds.state, holds.status, rfl, holds.fields, holds.count, holds.size, holds.line,
        holds.stored, holds.body⟩
    rw [if_neg isCr, if_neg isCr]
    by_cases bare : c = lf ∨ c = nul
    · rw [if_pos bare, if_pos (by simpa using bare)]
      exact ⟨rfl, holds.status⟩
    rw [if_neg bare, if_neg (by simpa using bare)]
    by_cases full : r.requestLine = none ∧ r.line.length = kMaxRequestLineBytes
    · rw [if_pos full, if_pos (by simpa using first.mpr full)]
      exact ⟨rfl, holds.status⟩
    · rw [if_neg full, if_neg (by simpa using fun a b => full (first.mp ⟨a, b⟩))]
      have stored := holds.store c
      exact ⟨stored.state, stored.status, stored.pendingCr, stored.fields, stored.count, stored.size,
        stored.line, stored.stored, stored.body⟩

/-- The checks after a byte: the size limit of a section that goes on, and the status of a new
`kError`. -/
theorem checkHeaderLimit_views {p : RequestParser} {view : HeaderView} (nears : Nears p view) :
    Views (p.onFields checkHeaderLimit) view.limit := by
  cases view with
  | reading r =>
    have isHeader : p.state = .requestLine ∨ p.state = .headers := by
      rw [nears.state]
      split <;> simp
    show Views _ (if r.count = kMaxHeaderBytes then .refused else .reading r)
    by_cases full : r.count = kMaxHeaderBytes
    · rw [if_pos full]
      have count : p.headerBytes = kMaxHeaderBytes := nears.count.trans full
      show ParserFields.state (checkHeaderLimit _) = _ ∧ ParserFields.status (checkHeaderLimit _) = _
      unfold checkHeaderLimit
      simp [count, isHeader, nears.status]
    · rw [if_neg full]
      have count : p.headerBytes ≠ kMaxHeaderBytes := by rw [nears.count]; exact full
      have live : p.state ≠ .error := by rcases isHeader with h | h <;> rw [h] <;> decide
      have same : checkHeaderLimit p.toParserFields = p.toParserFields := by
        unfold checkHeaderLimit
        simp [count, live]
      show Holds { p with toParserFields := checkHeaderLimit p.toParserFields } r
      rw [same]
      exact nears
  | refused =>
    obtain ⟨state, status⟩ := nears
    show ParserFields.state (checkHeaderLimit _) = _ ∧ ParserFields.status (checkHeaderLimit _) = _
    unfold checkHeaderLimit
    simp [state, status]
  | ended requestLine fields count =>
    have past : p.state ≠ .requestLine ∧ p.state ≠ .headers := by
      rw [nears.state]
      unfold HeaderFields.bodyState
      split_ifs <;> decide
    have settled : p.state = .error → p.status ≠ .needMore ∧ p.status ≠ .headersComplete := by
      intro isError
      rw [nears.state] at isError
      rw [nears.status]
      cases refused : fields.refusal with
      | none =>
        rw [refused, if_pos rfl] at isError
        unfold HeaderFields.bodyState at isError
        split_ifs at isError
      | some status =>
        have refusedStatus := refusal_isError refused
        refine ⟨fun h => ?_, fun h => ?_⟩ <;> rw [show status = _ from h] at refusedStatus <;>
          cases refusedStatus
    have same : checkHeaderLimit p.toParserFields = p.toParserFields := by
      unfold checkHeaderLimit
      rw [if_neg (by simp [past])]
      dsimp only
      rw [if_neg (by simpa using settled)]
    show Ended { p with toParserFields := checkHeaderLimit p.toParserFields } requestLine fields count
    rw [same]
    exact nears

/-- **One byte keeps the parser and the view together.** -/
theorem views_step {p : RequestParser} {r : Reading} (c : UInt8) (holds : Holds p r) :
    Views (feedByte p c) (r.step c) := by
  have isHeader : p.state.isHeader = true := by
    rw [holds.state]
    split <;> rfl
  have counted : Holds (p.onFields fun f =>
      { f with
        headerBytes := f.headerBytes + 1
        requestBytes := f.requestBytes + 1
        scanSteps := f.scanSteps + 1 }) { r with count := r.count + 1 } :=
    ⟨holds.state, holds.status, holds.pendingCr, holds.fields, congrArg Nat.succ holds.count,
      holds.size, holds.line, holds.stored, holds.body⟩
  rw [feedByte_header c isHeader]
  exact checkHeaderLimit_views (takeHeaderByte_nears c counted)

/-! ### A whole section -/

theorem Ended.past {p : RequestParser} {requestLine : Bytes} {fields : HeaderFields} {count : Nat}
    (ended : Ended p requestLine fields count) : p.state.isHeader = false := by
  rw [ended.state]
  unfold HeaderFields.bodyState
  split_ifs <;> rfl

theorem run_refused (bytes : Bytes) : HeaderView.run .refused bytes = (.refused, bytes) := by
  cases bytes <;> rfl

theorem run_ended (requestLine : Bytes) (fields : HeaderFields) (count : Nat) (bytes : Bytes) :
    HeaderView.run (.ended requestLine fields count) bytes
      = (.ended requestLine fields count, bytes) := by
  cases bytes <;> rfl

/-- What a header section means to the loop over its bytes and what follows them: one that is not
over is held, a refused one stops the parser, one that has ended leaves the rest to the body. -/
def SectionOutcome (p : RequestParser) (bytes : Bytes) : HeaderView × Bytes → Prop
  | (.reading later, rest) => rest = [] ∧ Holds (byteLoop p bytes).1 later
  | (.refused, rest) =>
    (byteLoop p bytes).1.state = .error ∧ (byteLoop p bytes).1.status = .badRequest ∧
      (byteLoop p bytes).2 = rest
  | (.ended requestLine fields count, rest) =>
    ∃ q, Ended q requestLine fields count ∧
      byteLoop p bytes = if q.status = .headersComplete then (q, rest) else byteLoop q rest

/-- **The header section of any input** is the run of its view. -/
theorem byteLoop_views (bytes : Bytes) : ∀ (p : RequestParser) (r : Reading), Holds p r →
    SectionOutcome p bytes (HeaderView.run (.reading r) bytes) := by
  induction bytes with
  | nil => exact fun p r holds => ⟨rfl, holds⟩
  | cons c rest ih =>
    intro p r holds
    have live : p.state.isFinal = false := by
      rw [holds.state]
      split <;> rfl
    have next := views_step c holds
    have loop := byteLoop_cons c rest live
    show SectionOutcome p (c :: rest) (HeaderView.run (r.step c) rest)
    cases stepped : r.step c with
    | reading later =>
      rw [stepped] at next
      have open1 : (feedByte p c).status ≠ .headersComplete := by
        rw [Holds.status next]
        decide
      have same : byteLoop p (c :: rest) = byteLoop (feedByte p c) rest := loop.trans (if_neg open1)
      have outcome := ih _ later next
      cases ran : HeaderView.run (.reading later) rest with
      | mk view left =>
        rw [ran] at outcome
        cases view <;> simpa only [SectionOutcome, same] using outcome
    | refused =>
      rw [stepped] at next
      obtain ⟨state, status⟩ := next
      rw [run_refused]
      rw [if_neg (by rw [status]; decide),
        byteLoop_final rest (show (feedByte p c).state.isFinal = true by rw [state]; rfl)] at loop
      show (byteLoop p (c :: rest)).1.state = _ ∧ (byteLoop p (c :: rest)).1.status = _ ∧
        (byteLoop p (c :: rest)).2 = _
      rw [loop]
      exact ⟨state, status, rfl⟩
    | ended requestLine fields count =>
      rw [stepped] at next
      rw [run_ended]
      exact ⟨_, next, loop⟩

end HpServer.Http
