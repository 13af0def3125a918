/-
**What a request keeps of its header lines.**

Of the field lines a request keeps whether the connection is to be closed, the entity tags, three more conditional
fields and the content type. Each is told by the lines of one name alone.

* `Captures` — the kept fields in terms of the lines; nothing else of the message is named in it.
* `Delivers`, `feedAll_delivers` — **which bytes behind a section make its body**, whatever the order of its lines.
* `Reordered` — the same lines in another order, in which the lines of one name keep theirs.
* `Fitted` — the bytes of the kept values are among the header bytes counted so far, so that the limit on them, which is
  the limit on the section, is never met.
-/

import HpServer.Http.ChunkedGrammar
import HpServer.Http.ParserMemory
import HpServer.Http.Pipelining

namespace HpServer.Http

/-! ### The kept fields -/

/-- The first value of a name, and how often the name occurs. -/
structure CapturesFirst (values : List Bytes) (value : Bytes) (present duplicate : Bool) : Prop where
  value : value = values.headD []
  present : present = true ↔ 1 ≤ values.length
  duplicate : duplicate = true ↔ 2 ≤ values.length

/-- **What a request keeps of its field lines.** -/
structure Captures (fields : List FieldLine) (r : HttpRequest) : Prop where
  close : r.closeRequested = true
    ↔ ∃ l ∈ fields, l.Named (text "connection") ∧ ∃ token ∈ elements l.trimmed, Spelled token (text "close")
  entityTags : r.staticFields.ifNoneMatch.value = [comma].intercalate (valuesOf fields .ifNoneMatch)
  tagged : r.staticFields.ifNoneMatch.present = true ↔ 1 ≤ (valuesOf fields .ifNoneMatch).length
  tagLines : r.staticFields.ifNoneMatch.duplicate = true ↔ 2 ≤ (valuesOf fields .ifNoneMatch).length
  modifiedSince : CapturesFirst (valuesOf fields .ifModifiedSince) r.staticFields.ifModifiedSince.value
    r.staticFields.ifModifiedSince.present r.staticFields.ifModifiedSince.duplicate
  range : CapturesFirst (valuesOf fields .range) r.staticFields.range.value
    r.staticFields.range.present r.staticFields.range.duplicate
  ifRange : CapturesFirst (valuesOf fields .ifRange) r.staticFields.ifRange.value
    r.staticFields.ifRange.present r.staticFields.ifRange.duplicate
  contentType : CapturesFirst (valuesOf fields .contentType) r.contentType.value
    r.contentType.present r.contentType.duplicate

theorem present_iff (values : List Bytes) : (!values.isEmpty) = true ↔ 1 ≤ values.length := by
  rw [Bool.not_eq_true', List.isEmpty_eq_false_iff, Nat.one_le_iff_ne_zero, ne_eq, ne_eq, List.length_eq_zero_iff]

theorem capturesFirst_of (values : List Bytes) :
    CapturesFirst values (values.headD []) (!values.isEmpty) (decide (2 ≤ values.length)) :=
  ⟨rfl, present_iff values, decide_eq_true_iff⟩

/-- **The request of a section keeps exactly this of its lines.** -/
theorem captures_request (s : HeaderSection) (body : Bytes) : Captures s.fields (s.request body) where
  close := by
    show ((valuesOf s.fields .connection).any fun v => (elements v).any fun e => Spelled e (text "close")) = true ↔ _
    simp only [valuesOf, List.any_map, List.any_eq_true, List.mem_filter, decide_eq_true_eq, Function.comp_apply,
      and_assoc]
    rfl
  entityTags := rfl
  tagged := present_iff _
  tagLines := decide_eq_true_iff
  modifiedSince := capturesFirst_of _
  range := capturesFirst_of _
  ifRange := capturesFirst_of _
  contentType := capturesFirst_of _

/-! ### The body behind a section -/

/-- The first `n` bytes behind a section are its body. -/
inductive Delivers (s : HeaderSection) (rest : Bytes) (n : Nat) (body : Bytes) : Prop
  | chunked (c : ChunkedBody) : s.values .transferEncoding ≠ [] → n ≤ rest.length → c.WellFormed →
      rest.take n = c.bytes → body = c.data → Delivers s rest n body
  | sized : s.values .transferEncoding = [] → n ≤ rest.length → n = s.contentLength → body = rest.take n →
      Delivers s rest n body

/-- A declared body is complete with its last byte. -/
theorem byteLoop_body {p : RequestParser} (coherent : Coherent p.toParserFields) (past : Past p.toParserFields)
    (isBody : p.state = .body) (empty : p.body = []) (b : Bytes) :
    (byteLoop p b).1.state = (if p.contentLength ≤ b.length then .complete else .body)
      ∧ (p.contentLength ≤ b.length → (byteLoop p b).1.status = .complete
        ∧ (byteLoop p b).1.body = b.take p.contentLength ∧ (byteLoop p b).2 = b.drop p.contentLength) := by
  rw [byteLoop_appendBody b p coherent past.status isBody]
  have positive : 0 < p.contentLength := by
    have room := coherent.body isBody
    omega
  by_cases enough : p.contentLength ≤ b.length
  · have count : min b.length (p.contentLength - p.body.length) = p.contentLength := by
      rw [empty, List.length_nil]
      omega
    have filled : (p.body ++ b.take p.contentLength).length = p.contentLength := by
      rw [empty, List.nil_append, List.length_take]
      omega
    unfold appendBody
    dsimp only
    rw [count, if_pos filled, byteLoop_final _ rfl, if_pos enough]
    refine ⟨rfl, fun _ => ⟨rfl, ?_, rfl⟩⟩
    show p.body ++ b.take p.contentLength = _
    rw [empty, List.nil_append]
  · have count : min b.length (p.contentLength - p.body.length) = b.length := by
      rw [empty, List.length_nil]
      omega
    have short : ¬ (p.body ++ b.take b.length).length = p.contentLength := by
      rw [empty, List.nil_append, List.length_take]
      omega
    unfold appendBody
    dsimp only
    rw [count, if_neg short, List.drop_length, if_neg enough]
    exact ⟨isBody, fun contrary => absurd contrary enough⟩

section Delivered

variable {s : HeaderSection} (wellFormed : s.WellFormed) {rest : Bytes} {segments : List Bytes}
  (input : segments.flatten = s.bytes ++ rest)

include wellFormed input

/-- A message is complete only behind a section that is not refused. -/
theorem feedAll_admitted (complete : (feedAll segments).last.status = .complete) : s.refusal = none := by
  obtain ⟨q, h, -, -, state, -, coherent, -, parser, -, answer, -⟩ := feedAll_section wellFormed input
  by_contra refused
  have isError : (q.onFields clearHeadersComplete).state = .error := by
    obtain ⟨left, shape⟩ := clearHeadersComplete_shape q.toParserFields
    rw [onFields_toParserFields, shape]
    exact state.trans (if_pos refused)
  rw [byteLoop_final rest (by rw [isError]; rfl)] at parser
  rw [answer, parser] at complete
  have done := coherent.state_of_complete complete
  rw [isError] at done
  cases done

/-- **A section without a transfer coding** is followed by as many bytes as it declares. -/
theorem feedAll_sized (admitted : s.refusal = none) (uncoded : s.values .transferEncoding = []) :
    (feedAll segments).parser.state
        = (if s.contentLength ≤ rest.length then .complete
          else .body)
      ∧ (s.contentLength ≤ rest.length → (feedAll segments).last.status = .complete
        ∧ (feedAll segments).parser.body = rest.take s.contentLength
        ∧ (feedAll segments).accepted = s.bytes.length + s.contentLength) := by
  obtain ⟨q, h, ended, collected, state, status, coherent, past, parser, accepted, answer, -⟩ :=
    feedAll_section wellFormed input
  obtain ⟨left, shape⟩ := clearHeadersComplete_shape q.toParserFields
  have fields : (q.onFields clearHeadersComplete).toHeaderFields = h := by
    rw [onFields_toParserFields, shape]
    exact ended.fields
  have declared : (q.onFields clearHeadersComplete).contentLength = s.contentLength := by
    rw [fields]
    obtain ⟨bytes, rfl, -⟩ := collected
    rfl
  have empty : (q.onFields clearHeadersComplete).body = [] := by
    have part := ended.body
    simp only [ParserFields.bodyPart, Prod.mk.injEq] at part
    rw [onFields_toParserFields, shape]
    exact part.1
  have place : (q.onFields clearHeadersComplete).state = if s.contentLength ≠ 0 then .body else .complete := by
    rw [onFields_toParserFields, shape]
    refine state.trans ?_
    unfold HeaderSection.state
    rw [if_neg (by simp [admitted]), if_neg (by simp [uncoded])]
  by_cases some : s.contentLength ≠ 0
  · rw [if_pos some] at place
    obtain ⟨ends, filled⟩ := byteLoop_body coherent past place empty rest
    rw [declared] at ends filled
    rw [parser, answer, parser]
    refine ⟨ends, fun enough => ?_⟩
    obtain ⟨complete, body, dropped⟩ := filled enough
    rw [dropped, List.length_drop] at accepted
    exact ⟨complete, body, by omega⟩
  · rw [if_neg some] at place
    have none : s.contentLength = 0 := not_not.mp some
    rw [byteLoop_final rest (by rw [place]; rfl)] at parser accepted
    dsimp only at accepted
    rw [parser, answer, parser, none, if_pos (Nat.zero_le _)]
    exact ⟨place, fun _ => ⟨coherent.complete place, empty, by omega⟩⟩

/-- **A message is complete exactly where its body has been delivered.** -/
theorem feedAll_delivers (admitted : s.refusal = none) (n : Nat) (body : Bytes) :
    (feedAll segments).last.status = .complete ∧ (feedAll segments).accepted = s.bytes.length + n
        ∧ (feedAll segments).last.request = s.request body
      ↔ Delivers s rest n body := by
  have same : ∀ {other}, s.request body = s.request other → body = other := congrArg HttpRequest.body
  by_cases coded : s.values .transferEncoding ≠ []
  · obtain ⟨views, count, status, request⟩ := feedAll_chunked wellFormed admitted coded input
    constructor
    · rintro ⟨complete, accepted, delivered⟩
      rw [status] at complete
      cases ran : ChunkView.run (.reading {}) rest with
      | mk view left =>
      rw [ran] at views count
      dsimp only at count
      cases view with
      | reading r => exact absurd (complete.symm.trans (HoldsChunks.status views)) (by decide)
      | refused => exact absurd (complete.symm.trans views.2) (by decide)
      | tooLarge => exact absurd (complete.symm.trans views.2) (by decide)
      | done data =>
        obtain ⟨c, cWell, read, rfl⟩ := run_done_iff.mp ran
        refine .chunked c coded (by omega) cWell (take_of_rest (by omega)) ?_
        rw [request views.1, views.2.2] at delivered
        exact (same delivered.symm).trans read
    · rintro (⟨c, -, bound, cWell, bytes, rfl⟩ | ⟨uncoded, -⟩)
      · have ran := run_body cWell (rest.drop n)
        rw [← bytes, List.take_append_drop] at ran
        rw [ran, List.length_drop] at count
        rw [ran] at views
        exact ⟨status.trans views.2.1, by omega, by rw [request views.1, views.2.2]⟩
      · exact absurd uncoded coded
  · rw [not_not] at coded
    obtain ⟨q, h, -, -, -, -, -, -, -, -, answer, request⟩ := feedAll_section wellFormed input
    obtain ⟨ends, filled⟩ := feedAll_sized wellFormed input admitted coded
    have coherent := (feedAll_fed segments).coherent coherent_initial
    constructor
    · rintro ⟨complete, accepted, delivered⟩
      have done := coherent.state_of_complete (answer.symm.trans complete)
      have enough : s.contentLength ≤ rest.length := by
        by_contra short
        rw [if_neg short] at ends
        rw [ends] at done
        cases done
      obtain ⟨-, read, taken⟩ := filled enough
      have size : n = s.contentLength := by omega
      rw [request done, read] at delivered
      exact .sized coded (by omega) size (size ▸ same delivered.symm)
    · rintro (⟨c, contrary, -⟩ | ⟨-, bound, rfl, rfl⟩)
      · exact absurd coded contrary
      · obtain ⟨complete, read, taken⟩ := filled bound
        rw [if_pos bound] at ends
        exact ⟨complete, taken, by rw [request ends, read]⟩

end Delivered

/-- **Every complete message starts with a well-formed section**, and its request is that of the section. -/
theorem feedAll_complete {segments : List Bytes} (complete : (feedAll segments).last.status = .complete) :
    ∃ s : HeaderSection, s.WellFormed ∧ s.bytes <+: segments.flatten
      ∧ (feedAll segments).last.request = s.request (feedAll segments).parser.body := by
  have outcome := byteLoop_views segments.flatten {} {} views_initial
  have run := feedAll_run segments
  have start := byteRun_append segments.flatten [] {} (by decide)
  rw [List.append_nil, run] at start
  obtain ⟨accepted, last⟩ := feedAll_last segments
  have coherent := (feedAll_fed segments).coherent coherent_initial
  have done := coherent.state_of_complete (by rw [last] at complete; exact complete)
  cases ran : HeaderView.run (.reading {}) segments.flatten with
  | mk view rest =>
  rw [ran] at outcome
  -- a section that has not ended leaves no complete parser
  have same : (byteLoop {} segments.flatten).1.status ≠ .headersComplete →
      (feedAll segments).parser = (byteLoop {} segments.flatten).1 := by
    intro open1
    rw [if_neg open1] at start
    split at start
    · exact congrArg Prod.fst start
    · exact (congrArg Prod.fst start).trans rfl
  cases view with
  | reading r =>
    obtain ⟨-, holds⟩ := outcome
    rw [same (by rw [Holds.status holds]; decide), Holds.state holds] at done
    split at done <;> cases done
  | refused =>
    obtain ⟨state, status, -⟩ := outcome
    rw [same (by rw [status]; decide), state] at done
    cases done
  | ended line h n =>
    obtain ⟨s, wellFormed, -, input⟩ := run_sound ran
    obtain ⟨q, h, -, -, -, -, -, -, -, -, -, request⟩ := feedAll_section wellFormed input
    exact ⟨s, wellFormed, input ▸ List.prefix_append _ _, request done⟩

/-! ### Another order of the lines -/

/-- **The same lines, where lines of one name keep their order.** Names are compared as the parser does. -/
structure Reordered (fields other : List FieldLine) : Prop where
  perm : fields.Perm other
  order : ∀ name : Bytes, fields.filter (fun l => l.Named name) = other.filter fun l => l.Named name

section Reordered

variable {s t : HeaderSection} (line : t.line = s.line) (reordered : Reordered s.fields t.fields)

include reordered

theorem Reordered.values (name : HeaderName) : t.values name = s.values name := by
  unfold HeaderSection.values valuesOf
  rw [reordered.order name.text]

theorem Reordered.summary : summary t.fields = summary s.fields :=
  congrArg summarize (funext reordered.values)

include line

theorem Reordered.size : t.bytes.length = s.bytes.length := by
  have lines : (t.fields.flatMap fun l => l.bytes ++ crlf).length = (s.fields.flatMap fun l => l.bytes ++ crlf).length :=
    (reordered.perm.symm.flatMap_right _).length_eq
  unfold HeaderSection.bytes
  simp only [List.length_append, lines, line]

theorem Reordered.wellFormed (wellFormed : s.WellFormed) : t.WellFormed where
  size := (reordered.size line).trans_le wellFormed.size
  lineSize := by
    rw [line]
    exact wellFormed.lineSize
  line := by
    rw [line]
    exact wellFormed.line
  fields l member := wellFormed.fields l (reordered.perm.mem_iff.mpr member)
  rules name := by
    rw [reordered.values]
    exact wellFormed.rules name
  host := by
    rw [reordered.values]
    exact wellFormed.host
  framing := by
    rw [reordered.values, reordered.values]
    exact wellFormed.framing
  trailer := by
    rw [reordered.values, reordered.values]
    exact wellFormed.trailer

/-- **A message in another order of its header lines is the same request.** -/
theorem Reordered.sameRequest (wellFormed : s.WellFormed) {rest : Bytes} {segments others : List Bytes}
    (input : segments.flatten = s.bytes ++ rest) (other : others.flatten = t.bytes ++ rest)
    (complete : (feedAll segments).last.status = .complete) :
    (feedAll others).last.status = .complete ∧ (feedAll others).last.request = (feedAll segments).last.request
      ∧ (feedAll others).accepted = (feedAll segments).accepted := by
  have admitted := feedAll_admitted wellFormed input complete
  have sameLength : t.contentLength = s.contentLength := by
    unfold HeaderSection.contentLength
    rw [reordered.values]
  have sameRefusal : t.refusal = s.refusal := by
    unfold HeaderSection.refusal HeaderSection.unsupported HeaderSection.expectsContinue
    rw [sameLength, reordered.values, reordered.values]
  have sameRequest : ∀ body, t.request body = s.request body := by
    intro body
    unfold HeaderSection.request
    rw [reordered.summary, line]
  obtain ⟨q, h, -, -, -, -, -, -, -, accepted, answer, request⟩ := feedAll_section wellFormed input
  have coherent := (feedAll_fed segments).coherent coherent_initial
  have done := coherent.state_of_complete (answer.symm.trans complete)
  have short := (byteLoop_suffix rest (q.onFields clearHeadersComplete)).length_le
  have delivers := (feedAll_delivers wellFormed input admitted ((feedAll segments).accepted - s.bytes.length)
    (feedAll segments).parser.body).mp ⟨complete, by omega, request done⟩
  -- the body is told by the values, which are the same
  have moved : Delivers t rest ((feedAll segments).accepted - s.bytes.length) (feedAll segments).parser.body := by
    cases delivers with
    | chunked c coded bound cWell bytes data => exact .chunked c (by rw [reordered.values]; exact coded) bound cWell bytes data
    | sized uncoded bound size data =>
      exact .sized (by rw [reordered.values]; exact uncoded) bound (size.trans sameLength.symm) data
  obtain ⟨status, taken, delivered⟩ := (feedAll_delivers (reordered.wellFormed line wellFormed) other
    (sameRefusal.trans admitted) _ _).mpr moved
  refine ⟨status, ?_, ?_⟩
  · rw [delivered, sameRequest, request done]
  · rw [taken, reordered.size line]
    omega

end Reordered

/-! ### The limit on the kept values -/

/-- **The kept values and the line being assembled are among the header bytes.** -/
def Fitted (f : ParserFields) : Prop :=
  f.state.isHeader = true → f.staticFieldBytes + f.lineSize ≤ f.headerBytes

theorem collectStaticField_total {staticFieldBytes total : Nat} {field next : StaticField} {value : Bytes} {merge : Bool}
    (collected : collectStaticField staticFieldBytes field value merge = some (next, total)) :
    total ≤ staticFieldBytes + value.length + 1 := by
  unfold collectStaticField at collected
  dsimp only at collected
  by_cases separated : (merge && field.present) = true
  · simp only [separated, if_true] at collected
    split at collected
    · cases collected
    · have sum := (Prod.mk.inj (Option.some.inj collected)).2
      omega
  · simp only [separated, Bool.false_eq_true, if_false] at collected
    split at collected
    · cases collected
    · have sum := (Prod.mk.inj (Option.some.inj collected)).2
      omega

theorem storeStaticField_total (h : HeaderFields) (field : StaticField) (value : Bytes) (merge : Bool)
    (store : StaticField → StaticRequestFields) :
    (storeStaticField h field value merge store).2.staticFieldBytes ≤ h.staticFieldBytes + value.length + 1 := by
  unfold storeStaticField
  split
  · show h.staticFieldBytes ≤ _
    omega
  · next collected => exact collectStaticField_total collected

/-- A field adds its value and a separator at most. -/
theorem applyHeader_total (name : Option HeaderName) (value : Bytes) (nonemptyValue : Bool) (h : HeaderFields) :
    (applyHeader name value nonemptyValue h).value.2.staticFieldBytes ≤ h.staticFieldBytes + value.length + 1 := by
  have same : ∀ {g : HeaderFields}, g.staticFieldBytes = h.staticFieldBytes →
      g.staticFieldBytes ≤ h.staticFieldBytes + value.length + 1 := fun same => by omega
  unfold applyHeader
  split
  case h_3 => exact storeStaticField_total ..
  case h_4 => exact storeStaticField_total ..
  case h_5 => exact storeStaticField_total ..
  case h_6 => exact storeStaticField_total ..
  all_goals
    simp only [validateTokenList, Counted.ite_value, Counted.bind_value, Counted.pure_value]
    first
    | exact same rfl
    | split_ifs <;> exact same rfl

/-- A line adds no more than its own bytes: the colon pays for the separator. -/
theorem validateHeader_total (line : Bytes) (h : HeaderFields) :
    (validateHeader line false h).value.2.staticFieldBytes ≤ h.staticFieldBytes + line.length := by
  unfold validateHeader
  simp only [Counted.ite_value, Counted.bind_value, Counted.pure_value, Bool.false_eq_true, if_false]
  split_ifs with indented unnamed
  · exact Nat.le_add_right _ _
  · exact Nat.le_add_right _ _
  · exact Nat.le_add_right _ _
  · exact Nat.le_add_right _ _
  · refine (applyHeader_total _ _ _ _).trans ?_
    simp only [Bool.or_eq_true, decide_eq_true_eq, not_or] at unnamed
    have before : line.findIdx (· = colon) ≤ line.length := List.findIdx_le_length
    have short : (trimOws (line.drop (line.findIdx (· = colon) + 1))).length ≤ _ := trimOws_length_le _
    rw [List.length_drop] at short
    show h.staticFieldBytes + (trimOws (line.drop (line.findIdx (· = colon) + 1))).length + 1 ≤ _
    omega

theorem Turn.fitted {p q : RequestParser} {c : UInt8} (turn : Turn (p.onFields ParserFields.counted) c q)
    (isHeader : p.state.isHeader = true) (fitted : Fitted p.toParserFields) : Fitted q.toParserFields := by
  have bytes : p.counted.headerBytes = p.headerBytes + 1 := if_pos isHeader
  have fits : p.staticFieldBytes + p.lineSize ≤ p.headerBytes := fitted isHeader
  intro still
  cases turn with
  | refused => cases still
  | cr =>
    show p.staticFieldBytes + p.lineSize ≤ p.counted.headerBytes
    omega
  | stored =>
    show p.staticFieldBytes + (p.lineSize + 1) ≤ p.counted.headerBytes
    omega
  | field kind =>
    have isHeaders : p.state = .headers := kind.resolve_right fun isTrailers => by
      rw [show p.state = .trailers from isTrailers] at isHeader
      cases isHeader
    have total := validateHeader_total p.line p.toHeaderFields
    rw [RequestParser.line, slice_length] at total
    show (validateHeader p.line (p.state = .trailers) p.toHeaderFields).value.2.staticFieldBytes + 0
      ≤ p.counted.headerBytes
    rw [isHeaders]
    exact Nat.le_trans total (by omega)
  | size isSize =>
    rw [show p.state = .chunkSize from isSize] at isHeader
    cases isHeader
  | dataCr isCrlf =>
    rw [show p.state = .chunkDataCrlf from isCrlf] at isHeader
    cases isHeader
  | dataLf => cases still
  | _ =>
    show p.staticFieldBytes + 0 ≤ p.counted.headerBytes
    omega

/-- **One byte.** -/
theorem feedByte_fitted (p : RequestParser) (c : UInt8) (cleared : p.status ≠ .headersComplete)
    (fitted : Fitted p.toParserFields) : Fitted (feedByte p c).toParserFields := by
  by_cases isHeader : p.state.isHeader = true
  · refine feedByte_of_turn (P := fun q => Fitted q.toParserFields) c fitted (fun isBody => ?_) (fun isData => ?_)
      (fun _ turn _ => turn.fitted isHeader fitted) fun _ _ _ _ still => by cases still
    · rw [isBody] at isHeader
      cases isHeader
    · rw [isData] at isHeader
      cases isHeader
  · intro still
    have past := (feedByte_past c ⟨by simpa using isHeader, cleared⟩).state
    rw [past] at still
    cases still

/-- **The limit on the kept values is never met**, whatever a parser is fed. -/
theorem collectStaticField_accepts (calls : List ParserCall) {result : FeedResult} {f : ParserFields}
    (answered : (result, f) ∈ parserAnswers {} calls) (isHeader : f.state.isHeader = true) {line : Bytes}
    (size : line.length = f.lineSize) {colonAt : Nat} (inside : colonAt < line.length) (field : StaticField) (merge : Bool) :
    collectStaticField f.staticFieldBytes field (trimOws (line.drop (colonAt + 1))) merge ≠ none := by
  obtain ⟨fitted, -⟩ := parserAnswers_keeps (P := Fitted) feedByte_fitted (fun _ _ fitted => fitted)
    (fun _ => Nat.le_refl 0) calls answered
  have below := ((parserAnswers_retained calls answered).1.header isHeader).2
  have short := trimOws_length_le (line.drop (colonAt + 1))
  rw [List.length_drop] at short
  have fits := fitted isHeader
  have room : f.staticFieldBytes + (trimOws (line.drop (colonAt + 1))).length + 1 ≤ kMaxHeaderBytes := by omega
  obtain ⟨total, -, collected⟩ := collectStaticField_fits field merge room
  rw [collected]
  exact Option.some_ne_none _

/-! ### Every accepted request -/

/-- What follows the first message of an input is shorter than the input. -/
theorem rest_lt_of_complete {bytes : Bytes} (complete : (feedAll [bytes]).last.status = .complete) :
    (feedAll [bytes]).rest.length < bytes.length := by
  obtain ⟨s, wellFormed, ⟨rest, input⟩, -⟩ := feedAll_complete complete
  obtain ⟨q, h, -, -, -, -, -, -, -, accepted, -, -⟩ := feedAll_section wellFormed input.symm
  obtain ⟨-, dropped⟩ := (feedAll_fed [bytes]).rest coherent_initial
  have short := (byteLoop_suffix rest (q.onFields clearHeadersComplete)).length_le
  have size := congrArg List.length input
  have some : 0 < s.bytes.length := by
    unfold HeaderSection.bytes
    simp
  rw [List.flatten_singleton, List.length_append] at size
  rw [dropped, List.length_drop, List.flatten_singleton]
  omega

/-- **A request of a pipelined input is the request of the message it was read from.** -/
theorem pipelineRun_message_fed (bytes : Bytes) : ∀ {r : HttpRequest} {n : Nat} {head : Bool},
    .message r n head ∈ (pipelineRun {} bytes).events →
    ∃ before message, bytes = before ++ message ∧ (feedAll [message]).last.status = .complete
      ∧ (feedAll [message]).last.request = r := by
  -- the rest of the input is read after each message
  induction size : bytes.length using Nat.strong_induction_on generalizing bytes with
  | _ size ih =>
  intro r n head member
  have run := feedAll_run [bytes]
  rw [List.flatten_singleton] at run
  obtain ⟨accepted, last⟩ := feedAll_last [bytes]
  rw [pipelineRun_eq bytes {} coherent_initial (by decide) (by decide), run] at member
  dsimp only at member
  have none : ∀ reports : List (Nat × RequestHead), .message r n head ∉ reports.map reportedEvent := by
    intro reports inside
    obtain ⟨report, -, same⟩ := List.mem_map.mp inside
    cases same
  split at member
  case isFalse =>
    rcases List.mem_append.mp member with reported | later
    · exact absurd reported (none _)
    · cases later
  case isTrue done =>
    have coherent := (feedAll_fed [bytes]).coherent coherent_initial
    have complete : (feedAll [bytes]).last.status = .complete := by
      rw [last]
      exact coherent.complete done
    obtain ⟨-, dropped⟩ := (feedAll_fed [bytes]).rest coherent_initial
    rw [List.flatten_singleton] at dropped
    rcases List.mem_append.mp member with reported | here
    · exact absurd reported (none _)
    · rcases List.mem_cons.mp here with same | later
      · refine ⟨[], bytes, rfl, complete, ?_⟩
        rw [last, (ParserEvent.message.inj same).1]
        rfl
      · have agree := (pipelineRun_agree (feedAll [bytes]).rest _ _ (resetRequestParser_agree (feedAll [bytes]).parser)
          framed_initial coherent_initial (show ParseStatus.needMore ≠ .headersComplete by decide)).1
        rw [show (pipelineRun (resetRequestParser (feedAll [bytes]).parser) (feedAll [bytes]).rest).events
          = (pipelineRun {} (feedAll [bytes]).rest).events from agree] at later
        obtain ⟨before, message, split, found⟩ :=
          ih _ (size ▸ rest_lt_of_complete complete) (feedAll [bytes]).rest rfl later
        refine ⟨bytes.take (feedAll [bytes]).accepted ++ before, message, ?_, found⟩
        rw [List.append_assoc, ← split, dropped, List.take_append_drop]

/-- **The request that a section begins is that of the section.** -/
theorem feedAll_request {s : HeaderSection} {rest : Bytes} {segments : List Bytes} (wellFormed : s.WellFormed)
    (input : segments.flatten = s.bytes ++ rest) (complete : (feedAll segments).last.status = .complete) :
    (feedAll segments).last.request = s.request (feedAll segments).parser.body := by
  obtain ⟨q, h, -, -, -, -, -, -, -, -, answer, request⟩ := feedAll_section wellFormed input
  have coherent := (feedAll_fed segments).coherent coherent_initial
  exact request (coherent.state_of_complete (answer.symm.trans complete))

/-- **The header fields a request keeps.** Every request of a pipelined input, in any cut, keeps exactly what the lines
of its header section say; equal lines under the six names make equal fields, whatever else the message holds; another
order of the lines makes the same request; and the limit on the kept values refuses no line. -/
theorem captured_header_fields :
    (∀ (segments : List Bytes) (r : HttpRequest) (n : Nat) (head : Bool),
      .message r n head ∈ (pipelineAll segments).events →
      ∃ (before : Bytes) (s : HeaderSection) (rest : Bytes), segments.flatten = before ++ s.bytes ++ rest ∧ s.WellFormed
        ∧ Captures s.fields r)
    ∧ (∀ (s : HeaderSection) (rest : Bytes) (segments : List Bytes), s.WellFormed →
      segments.flatten = s.bytes ++ rest → (feedAll segments).last.status = .complete →
      Captures s.fields (feedAll segments).last.request)
    ∧ (∀ (s t : HeaderSection) (rest tail : Bytes) (segments others : List Bytes), s.WellFormed → t.WellFormed →
      (∀ name ∈ [.connection, .ifNoneMatch, .ifModifiedSince, .range, .ifRange, .contentType],
        s.values name = t.values name) →
      segments.flatten = s.bytes ++ rest → others.flatten = t.bytes ++ tail →
      (feedAll segments).last.status = .complete → (feedAll others).last.status = .complete →
      let r := (feedAll segments).last.request
      let q := (feedAll others).last.request
      r.closeRequested = q.closeRequested ∧ r.staticFields = q.staticFields ∧ r.contentType = q.contentType)
    ∧ (∀ (s t : HeaderSection) (rest : Bytes) (segments others : List Bytes), s.WellFormed → t.line = s.line →
      Reordered s.fields t.fields → segments.flatten = s.bytes ++ rest → others.flatten = t.bytes ++ rest →
      (feedAll segments).last.status = .complete →
      (feedAll others).last.status = .complete
        ∧ (feedAll others).last.request = (feedAll segments).last.request)
    ∧ ∀ (calls : List ParserCall) (result : FeedResult) (f : ParserFields), (result, f) ∈ parserAnswers {} calls →
      f.state.isHeader = true → ∀ (line : Bytes) (colonAt : Nat) (field : StaticField) (merge : Bool),
      line.length = f.lineSize → colonAt < line.length →
      collectStaticField f.staticFieldBytes field (trimOws (line.drop (colonAt + 1))) merge ≠ none := by
  refine ⟨?_, ?_, ?_, ?_, ?_⟩
  · intro segments r n head member
    rw [pipelineAll_run] at member
    obtain ⟨before, message, split, complete, rfl⟩ := pipelineRun_message_fed _ member
    obtain ⟨s, wellFormed, ⟨rest, input⟩, made⟩ := feedAll_complete complete
    rw [List.flatten_singleton] at input
    refine ⟨before, s, rest, ?_, wellFormed, ?_⟩
    · rw [split, ← input, List.append_assoc]
    · rw [made]
      exact captures_request s _
  · intro s rest segments wellFormed input complete
    rw [feedAll_request wellFormed input complete]
    exact captures_request s _
  · intro s t rest tail segments others sWell tWell same sInput tInput sComplete tComplete
    have values : ∀ name ∈ [.connection, .ifNoneMatch, .ifModifiedSince, .range, .ifRange, .contentType],
        valuesOf s.fields name = valuesOf t.fields name := same
    rw [feedAll_request sWell sInput sComplete, feedAll_request tWell tInput tComplete]
    unfold HeaderSection.request summary summarize
    dsimp only
    rw [values .connection (by decide), values .ifNoneMatch (by decide), values .ifModifiedSince (by decide),
      values .range (by decide), values .ifRange (by decide), values .contentType (by decide)]
    exact ⟨rfl, rfl, rfl⟩
  · intro s t rest segments others wellFormed line reordered input other complete
    obtain ⟨status, made, -⟩ := reordered.sameRequest line wellFormed input other complete
    exact ⟨status, made⟩
  · intro calls result f answered isHeader line colonAt field merge size inside
    exact collectStaticField_accepts calls answered isHeader size inside field merge

end HpServer.Http
