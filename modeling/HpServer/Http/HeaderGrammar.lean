/-
**The header section is accepted exactly on its grammar.**

* `HeaderSection` — a request line and field lines; `HeaderSection.bytes` — how it is written;
  `HeaderSection.WellFormed` — the grammar with its limits.
* `HeaderSection.status` — what the blank line of a well-formed section is answered with: `413` before
  `501` before `417`, or the way into the body.
* `run_section`, `run_sound` — **the view ends exactly on well-formed sections**.
* `header_section_grammar` — the parser gets past the blank line exactly on well-formed sections that
  are not refused; every well-formed section is answered with its status; an input that starts with
  no well-formed section is answered with `400` or waits for more.
-/

import HpServer.Http.HeaderView
import HpServer.Http.HeaderCollect

namespace HpServer.Http

/-! ### The grammar -/

structure HeaderSection where
  line : RequestLine
  fields : List FieldLine

namespace HeaderSection

/-- Every line with its CRLF, and the blank line. -/
def bytes (s : HeaderSection) : Bytes :=
  s.line.bytes ++ crlf ++ (s.fields.flatMap fun l => l.bytes ++ crlf) ++ crlf

/-- The trimmed values of one field name. -/
def values (s : HeaderSection) (name : HeaderName) : List Bytes := valuesOf s.fields name

structure WellFormed (s : HeaderSection) : Prop where
  size : s.bytes.length ≤ kMaxHeaderBytes
  lineSize : s.line.bytes.length ≤ kMaxRequestLineBytes
  line : s.line.WellFormed
  fields : ∀ l ∈ s.fields, l.WellFormed
  rules : ∀ name, valueRule name (s.values name)
  host : s.values .host ≠ []
  framing : s.values .contentLength = [] ∨ s.values .transferEncoding = []
  trailer : s.values .trailer = [] ∨ s.values .transferEncoding ≠ []

/-- The declared length of the body, zero where none is declared. -/
def contentLength (s : HeaderSection) : Nat := ((s.values .contentLength).map decimal).sum

/-- A coding other than `chunked` is asked for. -/
def unsupported (s : HeaderSection) : Bool :=
  (s.values .transferEncoding).any fun v => (elements v).any fun e => !isChunked e

def expectsContinue (s : HeaderSection) : Bool :=
  (s.values .expect).any fun v => Spelled v (text "100-continue")

/-- The refusal of a well-formed section, in the order of the source. -/
def refusal (s : HeaderSection) : Option ParseStatus :=
  if s.contentLength > kMaxBodyBytes then some .payloadTooLarge
  else if s.unsupported then some .notImplemented
  else if s.values .expect ≠ [] ∧ ¬s.expectsContinue then some .expectationFailed
  else none

/-- The state the parser goes to. -/
def state (s : HeaderSection) : ParserState :=
  if s.refusal ≠ none then .error
  else if s.values .transferEncoding ≠ [] then .chunkSize
  else if s.contentLength ≠ 0 then .body
  else .complete

/-- The status of the call that reads the last byte of the section. -/
def status (s : HeaderSection) : ParseStatus :=
  s.refusal.getD
    (if s.state = .complete then .complete
      else if s.expectsContinue then .headersComplete
      else .needMore)

/-- The request of a message with this section and a body. -/
def request (s : HeaderSection) (body : Bytes) : HttpRequest where
  method := s.line.method
  target := s.line.target
  closeRequested := (summary s.fields).closeRequested
  body := body
  staticFields := (summary s.fields).staticFields
  contentType := (summary s.fields).contentType

end HeaderSection

/-! ### One line of the view -/

/-- A byte that is neither a line end nor NUL. -/
def isPlain (c : UInt8) : Bool := c ≠ cr && c ≠ lf && c ≠ nul

/-- A plain byte goes into the line, as far as the two limits allow. -/
theorem step_plain {r : Reading} {c : UInt8} (settled : r.pendingCr = false)
    (plain : isPlain c = true) :
    r.step c =
      if (r.requestLine = none ∧ r.line.length = kMaxRequestLineBytes)
          ∨ r.count + 1 = kMaxHeaderBytes then .refused
      else .reading { r with line := r.line ++ [c], count := r.count + 1 } := by
  simp only [isPlain, Bool.and_eq_true, decide_eq_true_eq] at plain
  obtain ⟨⟨notCr, notLf⟩, notNul⟩ := plain
  unfold Reading.step Reading.take
  rw [if_neg (by rw [settled]; exact Bool.false_ne_true), if_neg notCr, if_neg (by simp [notLf, notNul])]
  dsimp only
  by_cases full : r.requestLine = none ∧ r.line.length = kMaxRequestLineBytes
  · rw [if_pos full, if_pos (.inl full)]
    rfl
  · rw [if_neg full]
    by_cases last : r.count + 1 = kMaxHeaderBytes
    · rw [if_pos (.inr last)]
      exact if_pos last
    · rw [if_neg (not_or.mpr ⟨full, last⟩)]
      exact if_neg last

/-- A CR is remembered. -/
theorem step_cr {r : Reading} (settled : r.pendingCr = false) :
    r.step cr =
      if r.count + 1 = kMaxHeaderBytes then .refused
      else .reading { r with pendingCr := true, count := r.count + 1 } := by
  unfold Reading.step Reading.take
  rw [if_neg (by rw [settled]; exact Bool.false_ne_true), if_pos rfl]
  rfl

/-- After a CR only an LF may come, and ends the line. -/
theorem step_pending {r : Reading} (c : UInt8) (pending : r.pendingCr = true) :
    r.step c = if c = lf then (Reading.endLine { r with count := r.count + 1 }).limit else .refused := by
  unfold Reading.step Reading.take
  rw [if_pos pending]
  split
  · rfl
  · rfl

/-- The view after a complete line. -/
def Reading.finish (r : Reading) (word : Bytes) : HeaderView :=
  (Reading.endLine
    { r with line := r.line ++ word, count := r.count + word.length + 2, pendingCr := true }).limit

/-- **A line that fits is read to its end.** -/
theorem run_line (word rest : Bytes) : ∀ r : Reading, r.pendingCr = false →
    word.all isPlain = true →
    (r.requestLine = none → r.line.length + word.length ≤ kMaxRequestLineBytes) →
    r.count + word.length + 1 < kMaxHeaderBytes →
    HeaderView.run (.reading r) (word ++ cr :: lf :: rest) = HeaderView.run (r.finish word) rest := by
  induction word with
  | nil =>
    intro r settled _ _ room
    show HeaderView.run (r.step cr) (lf :: rest) = _
    rw [step_cr settled, if_neg (by simpa using room.ne)]
    show HeaderView.run (Reading.step _ lf) rest = _
    rw [step_pending lf rfl, if_pos rfl]
    simp [Reading.finish]
  | cons c word ih =>
    intro r settled plain fits room
    rw [List.all_cons, Bool.and_eq_true] at plain
    rw [List.length_cons] at fits room
    have open1 : ¬((r.requestLine = none ∧ r.line.length = kMaxRequestLineBytes)
        ∨ r.count + 1 = kMaxHeaderBytes) := by
      rintro (⟨none, full⟩ | full)
      · have bound := fits none
        omega
      · omega
    have later := ih { r with line := r.line ++ [c], count := r.count + 1 } settled plain.2
      (fun none => by
        have bound := fits none
        simp only [List.length_append, List.length_singleton]
        omega) (by simp only; omega)
    show HeaderView.run (r.step c) (word ++ cr :: lf :: rest) = _
    rw [step_plain settled plain.1, if_neg open1, later]
    simp only [Reading.finish, List.append_assoc, List.singleton_append, List.length_cons]
    congr 4
    omega

/-- **A section that ends begins with a line that fits.** -/
theorem run_line_sound {requestLine : Bytes} {h : HeaderFields} {n : Nat} {rest : Bytes}
    (input : Bytes) : ∀ r : Reading, r.pendingCr = false →
    (r.requestLine = none → r.line.length ≤ kMaxRequestLineBytes) → r.count < kMaxHeaderBytes →
    HeaderView.run (.reading r) input = (.ended requestLine h n, rest) →
    ∃ word more, input = word ++ cr :: lf :: more ∧ word.all isPlain = true ∧
      (r.requestLine = none → r.line.length + word.length ≤ kMaxRequestLineBytes) ∧
      r.count + word.length + 1 < kMaxHeaderBytes ∧
      HeaderView.run (r.finish word) more = (.ended requestLine h n, rest) := by
  induction input with
  | nil =>
    intro r _ _ _ ended
    cases ended
  | cons c input ih =>
    intro r settled short room ended
    change HeaderView.run (r.step c) input = _ at ended
    by_cases isCr : c = cr
    · subst isCr
      rw [step_cr settled] at ended
      split at ended
      · rw [run_refused] at ended
        cases ended
      next open1 =>
      cases input with
      | nil => cases ended
      | cons d input =>
        change HeaderView.run (Reading.step _ d) input = _ at ended
        rw [step_pending d rfl] at ended
        split at ended
        · next isLf =>
          subst isLf
          refine ⟨[], input, rfl, rfl, short, ?_, ?_⟩
          · rw [List.length_nil]
            omega
          · simpa [Reading.finish] using ended
        · rw [run_refused] at ended
          cases ended
    by_cases bare : c = lf ∨ c = nul
    · have refused : r.step c = .refused := by
        unfold Reading.step Reading.take
        rw [if_neg (by rw [settled]; exact Bool.false_ne_true), if_neg isCr, if_pos bare]
        rfl
      rw [refused, run_refused] at ended
      cases ended
    have plain : isPlain c = true := by
      simp only [isPlain, Bool.and_eq_true, decide_eq_true_eq]
      exact ⟨⟨isCr, fun h => bare (.inl h)⟩, fun h => bare (.inr h)⟩
    rw [step_plain settled plain] at ended
    split at ended
    · rw [run_refused] at ended
      cases ended
    next open1 =>
    obtain ⟨notFull, notLast⟩ := not_or.mp open1
    obtain ⟨word, more, rfl, plainWord, fits, enough, finish⟩ :=
      ih { r with line := r.line ++ [c], count := r.count + 1 } settled
        (fun none => by
          have bound := short none
          have other : r.line.length ≠ kMaxRequestLineBytes := fun h => notFull ⟨none, h⟩
          simp only [List.length_append, List.length_singleton]
          omega)
        (by simp only; omega) ended
    simp only [List.length_append, List.length_singleton] at fits enough
    refine ⟨c :: word, more, rfl, by simp [plain, plainWord], fun none => ?_, ?_, ?_⟩
    · have bound := fits none
      rw [List.length_cons]
      omega
    · rw [List.length_cons]
      omega
    · rw [← finish]
      simp only [Reading.finish, List.append_assoc, List.singleton_append, List.length_cons]
      congr 4
      omega

/-! ### The field lines and the blank line -/

/-- The view between two lines of the field section. -/
def between (requestLine : Bytes) (h : HeaderFields) (count : Nat) : Reading where
  requestLine := some requestLine
  fields := h
  count := count

theorem finish_field {requestLine : Bytes} {h : HeaderFields} {count : Nat} {word : Bytes}
    (some : word ≠ []) :
    (between requestLine h count).finish word =
      if (validateHeader word false h).value.1 = true ∧ count + word.length + 2 ≠ kMaxHeaderBytes then
        .reading (between requestLine (validateHeader word false h).value.2 (count + word.length + 2))
      else .refused := by
  show (if ([] ++ word) = [] then _ else if (validateHeader ([] ++ word) false h).value.1 = true
    then HeaderView.reading _ else .refused : HeaderView).limit = _
  rw [List.nil_append, if_neg some]
  by_cases accepted : (validateHeader word false h).value.1 = true
  · rw [if_pos accepted]
    by_cases full : count + word.length + 2 = kMaxHeaderBytes
    · rw [if_neg fun h => h.2 full]
      exact if_pos full
    · rw [if_pos ⟨accepted, full⟩]
      exact if_neg full
  · rw [if_neg accepted, if_neg fun h => accepted h.1]
    rfl

theorem finish_blank (requestLine : Bytes) (h : HeaderFields) (count : Nat) :
    (between requestLine h count).finish [] =
      if h.framed then .ended requestLine h (count + 2) else .refused := by
  unfold Reading.finish Reading.endLine between
  simp only [List.append_nil, if_true, List.length_nil, Nat.add_zero]
  split <;> rfl

theorem finish_requestLine (word : Bytes) :
    Reading.finish {} word =
      if (validateRequestLine word).value = none ∨ word.length + 2 = kMaxHeaderBytes then .refused
      else .reading (between word {} (word.length + 2)) := by
  unfold Reading.finish Reading.endLine
  simp only [List.nil_append, Nat.zero_add]
  by_cases bad : (validateRequestLine word).value = none
  · rw [if_pos bad, if_pos (.inl bad)]
    rfl
  · rw [if_neg bad]
    by_cases full : word.length + 2 = kMaxHeaderBytes
    · rw [if_pos (.inr full)]
      exact if_pos full
    · rw [if_neg (not_or.mpr ⟨bad, full⟩)]
      exact if_neg full

/-- The bytes of lines with their CRLF. -/
def linesBytes (lines : List Bytes) : Bytes := lines.flatMap fun word => word ++ crlf

theorem linesBytes_length (lines : List Bytes) :
    (linesBytes lines).length = (lines.map List.length).sum + 2 * lines.length := by
  induction lines with
  | nil => rfl
  | cons word lines ih =>
    rw [linesBytes, List.flatMap_cons, ← linesBytes, List.length_append, ih]
    simp only [List.length_append, List.map_cons, List.sum_cons, List.length_cons, List.length_nil]
    omega

/-- **Accepted field lines and a blank line end the section.** -/
theorem run_fields (lines : List Bytes) (requestLine rest : Bytes) : ∀ (h h' : HeaderFields) (count : Nat),
    (∀ word ∈ lines, word ≠ [] ∧ word.all isPlain = true) → collectLines lines h = some h' →
    h'.framed = true → count + (linesBytes lines).length + 2 ≤ kMaxHeaderBytes →
    HeaderView.run (.reading (between requestLine h count)) (linesBytes lines ++ crlf ++ rest) =
      (.ended requestLine h' (count + (linesBytes lines).length + 2), rest) := by
  induction lines with
  | nil =>
    intro h h' count _ found framed room
    obtain rfl := Option.some.inj found
    have line := run_line [] rest (between requestLine h count) rfl rfl (fun none => by cases none)
      (show count + 0 + 1 < _ by simp only [linesBytes, List.flatMap_nil, List.length_nil] at room; omega)
    show HeaderView.run _ ([] ++ cr :: lf :: rest) = _
    rw [line, finish_blank, if_pos framed, run_ended]
    rfl
  | cons word lines ih =>
    intro h h' count words found framed room
    obtain ⟨some, plain⟩ := words word List.mem_cons_self
    have split : linesBytes (word :: lines) = word ++ crlf ++ linesBytes lines := rfl
    have size : (linesBytes (word :: lines)).length = word.length + 2 + (linesBytes lines).length := by
      rw [split, List.length_append, List.length_append]
      rfl
    rw [collectLines] at found
    split at found
    · next accepted =>
      have line := run_line word (linesBytes lines ++ crlf ++ rest) (between requestLine h count) rfl
        plain (fun none => by cases none) (by show count + word.length + 1 < _; omega)
      have bytes : linesBytes (word :: lines) ++ crlf ++ rest
          = word ++ cr :: lf :: (linesBytes lines ++ crlf ++ rest) := by
        rw [split]
        simp
      rw [bytes, line, finish_field some, if_pos ⟨accepted, by omega⟩,
        ih _ h' _ (fun w member => words w (List.mem_cons_of_mem _ member)) found framed (by omega), size]
      congr 2
      omega
    · cases found

/-- **Only accepted field lines and a blank line end the section.** -/
theorem run_fields_sound (bound : Nat) : ∀ (input requestLine rest : Bytes) (h h' : HeaderFields)
    (count n : Nat) (line : Bytes), input.length ≤ bound → count < kMaxHeaderBytes →
    HeaderView.run (.reading (between requestLine h count)) input = (.ended line h' n, rest) →
    ∃ lines : List Bytes, input = linesBytes lines ++ crlf ++ rest ∧
      (∀ word ∈ lines, word ≠ [] ∧ word.all isPlain = true) ∧ collectLines lines h = some h' ∧
      h'.framed = true ∧ count + (linesBytes lines).length + 2 ≤ kMaxHeaderBytes ∧ line = requestLine := by
  induction bound with
  | zero =>
    intro input requestLine rest h h' count n line small room ended
    obtain rfl := List.length_eq_zero_iff.mp (Nat.le_zero.mp small)
    cases ended
  | succ bound ih =>
    intro input requestLine rest h h' count n line small room ended
    obtain ⟨word, more, rfl, plain, -, enough, finish⟩ := run_line_sound input _ rfl
      (fun none => by cases none) room ended
    by_cases blank : word = []
    · subst blank
      rw [finish_blank] at finish
      split at finish
      · next framed =>
        rw [run_ended] at finish
        obtain ⟨view, rfl⟩ := Prod.mk.inj finish
        obtain ⟨rfl, rfl, -⟩ := HeaderView.ended.inj view
        refine ⟨[], rfl, fun w member => absurd member List.not_mem_nil, rfl, framed, ?_, rfl⟩
        have room2 : count + 0 + 1 < kMaxHeaderBytes := enough
        simp only [linesBytes, List.flatMap_nil, List.length_nil]
        omega
      · rw [run_refused] at finish
        cases finish
    · rw [finish_field blank] at finish
      have room2 : count + word.length + 1 < kMaxHeaderBytes := enough
      split at finish
      · next accepted =>
        obtain ⟨lines, rfl, words, found, framed, fits, same⟩ := ih more requestLine rest _ h'
          (count + word.length + 2) n line
          (by simp only [List.length_append, List.length_cons] at small; omega)
          (by have := accepted.2; omega) finish
        refine ⟨word :: lines, ?_, ?_, ?_, framed, ?_, same⟩
        · show _ = word ++ crlf ++ linesBytes lines ++ crlf ++ rest
          simp
        · exact List.forall_mem_cons.mpr ⟨⟨blank, plain⟩, words⟩
        · rw [collectLines, if_pos accepted.1]
          exact found
        · show count + (word ++ crlf ++ linesBytes lines).length + 2 ≤ _
          simp only [List.length_append, List.length_cons, List.length_nil]
          omega
      · rw [run_refused] at finish
        cases finish

/-! ### Sections -/

theorem token_plain (c : UInt8) : isTokenCharacter c = true → isPlain c = true :=
  forall_uint8 (P := fun c => isTokenCharacter c = true → isPlain c = true) (by decide +kernel) c

theorem target_plain (c : UInt8) : isTargetByte c = true → isPlain c = true :=
  forall_uint8 (P := fun c => isTargetByte c = true → isPlain c = true) (by decide +kernel) c

theorem value_plain (c : UInt8) : isValueByte c = true → isPlain c = true :=
  forall_uint8 (P := fun c => isValueByte c = true → isPlain c = true) (by decide +kernel) c

theorem all_plain {word : Bytes} {test : UInt8 → Bool} (plain : ∀ c, test c = true → isPlain c = true)
    (all : word.all test = true) : word.all isPlain = true :=
  List.all_eq_true.mpr fun c member => plain c (List.all_eq_true.mp all c member)

theorem RequestLine.WellFormed.plain {l : RequestLine} (wellFormed : l.WellFormed) :
    l.bytes.all isPlain = true := by
  unfold RequestLine.bytes
  rw [List.all_append, List.all_cons, List.all_append, List.all_cons,
    all_plain token_plain wellFormed.token, all_plain target_plain wellFormed.target]
  decide

theorem FieldLine.WellFormed.plain {l : FieldLine} (wellFormed : l.WellFormed) :
    l.bytes ≠ [] ∧ l.bytes.all isPlain = true := by
  unfold FieldLine.bytes
  refine ⟨by simp, ?_⟩
  rw [List.all_append, List.all_cons, all_plain token_plain wellFormed.token,
    all_plain value_plain wellFormed.value]
  decide

theorem section_bytes (s : HeaderSection) :
    s.bytes = s.line.bytes ++ crlf ++ linesBytes (s.fields.map FieldLine.bytes) ++ crlf := by
  unfold HeaderSection.bytes linesBytes
  rw [List.flatMap_map]

/-- The framing rules on the summary of the fields. -/
theorem framed_iff {fields : List FieldLine} {h : HeaderFields} (collected : Collected fields h) :
    h.framed = true ↔ valuesOf fields .host ≠ [] ∧
      (valuesOf fields .contentLength = [] ∨ valuesOf fields .transferEncoding = []) ∧
      (valuesOf fields .trailer = [] ∨ valuesOf fields .transferEncoding ≠ []) := by
  obtain ⟨bytes, rfl, -⟩ := collected
  simp only [HeaderFields.framed, summary, summarize]
  cases valuesOf fields .host <;> cases valuesOf fields .contentLength <;>
    cases valuesOf fields .transferEncoding <;> cases valuesOf fields .trailer <;> simp

/-- What a well-formed section is, in terms of its lines. -/
theorem wellFormed_iff (s : HeaderSection) :
    s.WellFormed ↔ s.bytes.length ≤ kMaxHeaderBytes ∧ s.line.bytes.length ≤ kMaxRequestLineBytes ∧
      s.line.WellFormed ∧ Consistent s.fields ∧ s.values .host ≠ [] ∧
      (s.values .trailer = [] ∨ s.values .transferEncoding ≠ []) :=
  ⟨fun w => ⟨w.size, w.lineSize, w.line, ⟨w.fields, w.rules, w.framing⟩, w.host, w.trailer⟩,
    fun ⟨size, lineSize, line, consistent, host, trailer⟩ =>
      ⟨size, lineSize, line, consistent.lines, consistent.values, host, consistent.framing, trailer⟩⟩

theorem fieldBytes_le (fields : List FieldLine) :
    fieldBytes fields ≤ (linesBytes (fields.map FieldLine.bytes)).length := by
  rw [linesBytes_length, List.map_map]
  exact Nat.le_add_right _ _

/-- **The view of a well-formed section ends with its last byte.** -/
theorem run_section {s : HeaderSection} (wellFormed : s.WellFormed) (rest : Bytes) :
    ∃ h, Collected s.fields h ∧ h.framed = true ∧
      HeaderView.run (.reading {}) (s.bytes ++ rest) = (.ended s.line.bytes h s.bytes.length, rest) := by
  obtain ⟨size, lineSize, line, consistent, host, trailer⟩ := (wellFormed_iff s).mp wellFormed
  have length : s.bytes.length = s.line.bytes.length + 2
      + (linesBytes (s.fields.map FieldLine.bytes)).length + 2 := by
    rw [section_bytes]
    simp only [List.length_append, List.length_cons, List.length_nil]
  have small := fieldBytes_le s.fields
  obtain ⟨h, found, collected⟩ := collectLines_complete s.fields [] {} collected_nil consistent
    (by rw [List.nil_append]; omega)
  rw [List.nil_append] at collected
  have framed := (framed_iff collected).mpr ⟨host, consistent.framing, trailer⟩
  have valid := (validateRequestLine_iff s.line.bytes s.line.cut).mpr ⟨s.line, line, rfl, rfl⟩
  refine ⟨h, collected, framed, ?_⟩
  have bytes : s.bytes ++ rest = s.line.bytes ++ cr :: lf ::
      (linesBytes (s.fields.map FieldLine.bytes) ++ crlf ++ rest) := by
    rw [section_bytes]
    simp
  rw [bytes, run_line _ _ {} rfl line.plain (fun _ => by simpa using lineSize)
      (by show 0 + s.line.bytes.length + 1 < _; omega),
    finish_requestLine, if_neg (by rw [valid]; simp; omega),
    run_fields _ _ rest {} h _ (fun word member => ?_) found framed (by omega), length]
  obtain ⟨l, listed, rfl⟩ := List.mem_map.mp member
  exact (consistent.lines l listed).plain

/-- **Only well-formed sections end.** -/
theorem run_sound {input rest line : Bytes} {h : HeaderFields} {n : Nat}
    (ended : HeaderView.run (.reading {}) input = (.ended line h n, rest)) :
    ∃ s : HeaderSection, s.WellFormed ∧ Collected s.fields h ∧ input = s.bytes ++ rest := by
  obtain ⟨word, more, rfl, -, fits, enough, finish⟩ := run_line_sound input {} rfl
    (fun _ => Nat.zero_le _) (by decide) ended
  rw [finish_requestLine] at finish
  split at finish
  · rw [run_refused] at finish
    cases finish
  next open1 =>
  obtain ⟨valid, notFull⟩ := not_or.mp open1
  obtain ⟨cut, accepted⟩ := Option.ne_none_iff_exists'.mp valid
  obtain ⟨requestLine, wellLine, rfl, -⟩ := (validateRequestLine_iff _ cut).mp accepted
  simp only [Nat.zero_add] at enough
  obtain ⟨lines, rfl, words, found, framed, room, -⟩ := run_fields_sound more.length more _ rest {} h
    _ n line le_rfl (by omega) finish
  have total := linesBytes_length lines
  obtain ⟨fields, rfl, consistent, collected⟩ := collectLines_sound lines [] {} h collected_nil
    consistent_nil (by rw [show fieldBytes [] = 0 from rfl]; omega) found
  rw [List.nil_append] at consistent collected
  obtain ⟨host, -, trailer⟩ := (framed_iff collected).mp framed
  refine ⟨⟨requestLine, fields⟩, (wellFormed_iff _).mpr ⟨?_, ?_, wellLine, consistent, host, trailer⟩,
    collected, ?_⟩
  · rw [section_bytes]
    simp only [List.length_append, List.length_cons, List.length_nil]
    omega
  · simpa using fits rfl
  · rw [section_bytes]
    simp

/-! ### The answers -/

theorem refusal_eq {s : HeaderSection} {h : HeaderFields} (collected : Collected s.fields h) :
    h.refusal = s.refusal := by
  obtain ⟨bytes, rfl, -⟩ := collected
  unfold HeaderFields.refusal HeaderSection.refusal
  have expects : ((!(s.values .expect).isEmpty && !s.expectsContinue) = true) ↔
      s.values .expect ≠ [] ∧ ¬s.expectsContinue = true := by simp
  show (if s.contentLength > kMaxBodyBytes then _ else if s.unsupported = true then _
    else if (!(s.values .expect).isEmpty && !s.expectsContinue) = true then _ else _) = _
  simp only [expects]

theorem bodyState_eq {s : HeaderSection} {h : HeaderFields} (collected : Collected s.fields h)
    (admitted : s.refusal = none) : h.bodyState = s.state := by
  obtain ⟨bytes, rfl, -⟩ := collected
  have coded : ((!(s.values .transferEncoding).isEmpty) = true) ↔ s.values .transferEncoding ≠ [] := by
    simp
  have state : s.state = if s.values .transferEncoding ≠ [] then .chunkSize
      else if s.contentLength ≠ 0 then .body else .complete :=
    if_neg (by rw [admitted]; simp)
  rw [state]
  show (if (!(s.values .transferEncoding).isEmpty) = true then ParserState.chunkSize
    else if s.contentLength ≠ 0 then .body else .complete) = _
  simp only [coded]

/-- The parser at the end of a section has the state and the status of the section. -/
theorem ended_answer {q : RequestParser} {s : HeaderSection} {h : HeaderFields} {line : Bytes} {n : Nat}
    (ended : Ended q line h n) (collected : Collected s.fields h) :
    q.state = s.state ∧ q.status = s.status := by
  have same := refusal_eq collected
  have continues : h.expectContinue = s.expectsContinue := by
    obtain ⟨bytes, rfl, -⟩ := collected
    rfl
  rw [ended.state, ended.status, same]
  unfold HeaderSection.status HeaderFields.bodyStatus
  cases refused : s.refusal with
  | some status => exact ⟨by simp [HeaderSection.state, refused], rfl⟩
  | none =>
    rw [bodyState_eq collected refused, continues]
    exact ⟨if_pos rfl, rfl⟩

/-- **The end of a well-formed section**: the parser is as the section says, and the rest is left to
the loop of the body. -/
theorem byteLoop_section {s : HeaderSection} (wellFormed : s.WellFormed) (rest : Bytes) :
    ∃ q h, Ended q s.line.bytes h s.bytes.length ∧ Collected s.fields h ∧ q.state = s.state ∧
      q.status = s.status ∧ byteLoop {} (s.bytes ++ rest) =
        if q.status = .headersComplete then (q, rest) else byteLoop q rest := by
  obtain ⟨h, collected, -, ran⟩ := run_section wellFormed rest
  have outcome := byteLoop_views (s.bytes ++ rest) {} {} views_initial
  rw [ran] at outcome
  obtain ⟨q, ended, loop⟩ := outcome
  obtain ⟨state, status⟩ := ended_answer ended collected
  exact ⟨q, h, ended, collected, state, status, loop⟩

/-- The method and the target are read back from the array. -/
theorem StoredLine.parts {q : RequestParser} {l : RequestLine} (kept : StoredLine q (some l.bytes))
    (wellFormed : l.WellFormed) :
    q.lineStart = l.bytes.length ∧ q.methodSize ≤ q.lineStart ∧
      q.targetStart + q.targetSize ≤ q.lineStart ∧ slice q.storage 0 q.methodSize = l.method ∧
      slice q.storage q.targetStart q.targetSize = l.target := by
  obtain ⟨start, stored, noted⟩ := kept
  have cut := (validateRequestLine_iff l.bytes l.cut).mpr ⟨l, wellFormed, rfl, rfl⟩
  rw [cut] at noted
  have size : l.bytes.length = l.method.length + 1 + l.target.length + 1 + httpVersion.length := by
    simp only [RequestLine.bytes, List.length_append, List.length_cons]
    omega
  obtain ⟨method, targetStart, targetSize, -⟩ := RequestLineCut.mk.inj (Option.some.inj noted)
  rw [← method, ← targetStart, ← targetSize, start]
  refine ⟨rfl, by omega, by omega, ?_, ?_⟩
  · rw [slice_part q.storage l.bytes.length (by omega), stored]
    exact List.take_left
  · rw [slice_part q.storage l.bytes.length (by omega), stored]
    unfold RequestLine.bytes
    rw [← List.drop_drop, List.drop_left]
    exact List.take_left

/-- **A message is delivered with the request its section describes**, whatever its body did. -/
theorem Ended.request {q p : RequestParser} {s : HeaderSection} {h : HeaderFields} {n accepted : Nat}
    (ended : Ended q s.line.bytes h n) (collected : Collected s.fields h)
    (wellFormed : s.line.WellFormed) (fixed : p.fixed = q.fixed)
    (stored : ∀ i < q.lineStart, p.storage i = q.storage i) (complete : p.state = .complete) :
    (buildFeedResult p accepted).request = s.request p.body := by
  obtain ⟨-, methodIn, targetIn, method, target⟩ := StoredLine.parts ended.stored wellFormed
  obtain ⟨bytes, summarized, -⟩ := collected
  simp only [ParserFields.fixed, Prod.mk.injEq] at fixed
  obtain ⟨fields, -, methodSize, targetStart, targetSize, -, -⟩ := fixed
  have sameMethod : slice p.storage 0 p.methodSize = s.line.method := by
    rw [methodSize, ← method]
    exact slice_congr fun i _ below => stored i (by omega)
  have sameTarget : slice p.storage p.targetStart p.targetSize = s.line.target := by
    rw [targetStart, targetSize, ← target]
    exact slice_congr fun i _ below => stored i (by omega)
  have all : p.toHeaderFields = { summary s.fields with staticFieldBytes := bytes } :=
    fields.trans (ended.fields.trans summarized)
  unfold buildFeedResult HeaderSection.request
  rw [sameMethod, sameTarget]
  dsimp only
  rw [if_pos complete, all]

theorem feed_new (bytes : Bytes) :
    feedRequestBytes {} bytes = ((byteLoop {} bytes).1,
      buildFeedResult (byteLoop {} bytes).1 (bytes.length - (byteLoop {} bytes).2.length)) :=
  feedRequestBytes_eq bytes coherent_initial

/-- The states past the blank line. -/
def isAdmitted (state : ParserState) : Prop := state = .complete ∨ state = .body ∨ state = .chunkSize

theorem admitted_iff (s : HeaderSection) : isAdmitted s.state ↔ s.refusal = none := by
  unfold isAdmitted HeaderSection.state
  cases s.refusal with
  | some status => simp
  | none =>
    refine ⟨fun _ => rfl, fun _ => ?_⟩
    rw [if_neg (by simp)]
    split_ifs <;> simp

/-- **A parser past the blank line has read a well-formed section that is not refused.** -/
theorem admitted_sound {input : Bytes} (past : isAdmitted (byteLoop {} input).1.state) :
    ∃ s : HeaderSection, s.WellFormed ∧ s.refusal = none ∧ s.bytes <+: input := by
  have outcome := byteLoop_views input {} {} views_initial
  cases ran : HeaderView.run (.reading {}) input with
  | mk view rest =>
    rw [ran] at outcome
    cases view with
    | reading r =>
      obtain ⟨-, holds⟩ := outcome
      have state := Holds.state holds
      unfold isAdmitted at past
      rw [state] at past
      split at past <;> simp at past
    | refused =>
      obtain ⟨state, -⟩ := outcome
      unfold isAdmitted at past
      rw [state] at past
      simp at past
    | ended line h n =>
      obtain ⟨s, wellFormed, collected, rfl⟩ := run_sound ran
      obtain ⟨q, ended, loop⟩ := outcome
      refine ⟨s, wellFormed, ?_, List.prefix_append _ _⟩
      obtain ⟨state, status⟩ := ended_answer ended collected
      cases refused : s.refusal with
      | none => rfl
      | some answer =>
        -- a refused section leaves the parser in `kError`, where it stays
        have isError : q.state = .error := by
          rw [state]
          exact if_pos (by rw [refused]; simp)
        have known : q.status.isError = true := by
          rw [status, HeaderSection.status, refused]
          exact refusal_isError ((refusal_eq collected).trans refused)
        have open1 : q.status ≠ .headersComplete := fun h => by rw [h] at known; cases known
        rw [if_neg open1, byteLoop_final rest (by rw [isError]; rfl)] at loop
        rw [loop, isError] at past
        unfold isAdmitted at past
        simp at past

/-- The call that reads a well-formed section. -/
theorem feed_section {s : HeaderSection} (wellFormed : s.WellFormed) :
    (feedRequestBytes {} s.bytes).1.state = s.state ∧
      (feedRequestBytes {} s.bytes).2.status = s.status ∧
      (feedRequestBytes {} s.bytes).2.acceptedBytes = s.bytes.length := by
  obtain ⟨q, h, -, -, state, status, loop⟩ := byteLoop_section wellFormed []
  have read : byteLoop {} s.bytes = (q, []) := by
    rw [List.append_nil] at loop
    rw [loop]
    split <;> rfl
  rw [feed_new, read]
  exact ⟨state, status, rfl⟩

/-- A refused section is answered at its blank line, whatever follows. -/
theorem feed_refused {s : HeaderSection} {answer : ParseStatus} (wellFormed : s.WellFormed)
    (refused : s.refusal = some answer) (rest : Bytes) :
    answer.isError = true ∧ (feedRequestBytes {} (s.bytes ++ rest)).2.status = answer ∧
      (feedRequestBytes {} (s.bytes ++ rest)).2.acceptedBytes = s.bytes.length := by
  obtain ⟨q, h, -, collected, state, status, loop⟩ := byteLoop_section wellFormed rest
  have known : answer.isError = true := refusal_isError ((refusal_eq collected).trans refused)
  have answered : q.status = answer := by
    rw [status, HeaderSection.status, refused]
    rfl
  have isError : q.state = .error := by
    rw [state]
    exact if_pos (by rw [refused]; simp)
  have open1 : q.status ≠ .headersComplete := fun h => by
    rw [answered] at h
    rw [h] at known
    cases known
  rw [if_neg open1, byteLoop_final rest (by rw [isError]; rfl)] at loop
  rw [feed_new, loop]
  refine ⟨known, answered, ?_⟩
  show (s.bytes ++ rest).length - rest.length = _
  rw [List.length_append]
  omega

/-- Where the first call ends with an error, it is the only call. -/
theorem feedAll_error {input : Bytes} (known : (feedRequestBytes {} input).2.status.isError = true) :
    (feedAll [input]).last = (feedRequestBytes {} input).2 ∧
      (feedAll [input]).accepted = (feedRequestBytes {} input).2.acceptedBytes := by
  have fed := feedAll_fed [input]
  generalize feedAll [input] = feeding at fed ⊢
  cases fed with
  | needMore status _ => rw [status] at known; cases known
  | reported status _ => rw [status] at known; cases known
  | final _ => exact ⟨rfl, by simp [Feeding.accepted, Feeding.called]⟩

/-- An input that starts with no well-formed section. -/
theorem feed_free {input : Bytes} (free : ¬∃ s : HeaderSection, s.WellFormed ∧ s.bytes <+: input) :
    (feedRequestBytes {} input).2.status = .needMore ∨
      (feedRequestBytes {} input).2.status = .badRequest := by
  have outcome := byteLoop_views input {} {} views_initial
  rw [feed_new]
  cases ran : HeaderView.run (.reading {}) input with
  | mk view rest =>
    rw [ran] at outcome
    cases view with
    | reading r =>
      obtain ⟨-, holds⟩ := outcome
      exact .inl (Holds.status holds)
    | refused =>
      obtain ⟨-, status, -⟩ := outcome
      exact .inr status
    | ended line h n =>
      obtain ⟨s, wellFormed, -, rfl⟩ := run_sound ran
      exact absurd ⟨s, wellFormed, List.prefix_append _ _⟩ free

/-- **The header section is accepted exactly on its grammar, with the documented priority of the
answers.** The parser gets past the blank line exactly where the bytes up to it are a well-formed
section that is not refused. A well-formed section is read to its last byte and answered with `413`,
`501` or `417`, in this order, or with the way into its body; a refusal does not depend on what
follows. Any other input is answered with `400`, or it waits for more bytes. -/
theorem header_section_grammar :
    (∀ input : Bytes, (∃ h, h <+: input ∧ isAdmitted (feedRequestBytes {} h).1.state) ↔
      ∃ s : HeaderSection, s.WellFormed ∧ s.refusal = none ∧ s.bytes <+: input) ∧
    (∀ s : HeaderSection, s.WellFormed →
      (feedRequestBytes {} s.bytes).1.state = s.state ∧
      (feedRequestBytes {} s.bytes).2.status = s.status ∧
      (feedRequestBytes {} s.bytes).2.acceptedBytes = s.bytes.length ∧
      ∀ (answer : ParseStatus) (rest : Bytes), s.refusal = some answer →
        (feedAll [s.bytes ++ rest]).last.status = answer ∧
          (feedAll [s.bytes ++ rest]).accepted = s.bytes.length) ∧
    (∀ input : Bytes, (¬∃ s : HeaderSection, s.WellFormed ∧ s.bytes <+: input) →
      (feedAll [input]).last.status = .needMore ∨ (feedAll [input]).last.status = .badRequest) := by
  refine ⟨fun input => ⟨?_, ?_⟩, fun s wellFormed => ?_, fun input free => ?_⟩
  · rintro ⟨h, begins, past⟩
    rw [feed_new] at past
    obtain ⟨s, wellFormed, admitted, starts⟩ := admitted_sound past
    exact ⟨s, wellFormed, admitted, starts.trans begins⟩
  · rintro ⟨s, wellFormed, admitted, starts⟩
    refine ⟨s.bytes, starts, ?_⟩
    rw [(feed_section wellFormed).1]
    exact (admitted_iff s).mpr admitted
  · obtain ⟨state, status, accepted⟩ := feed_section wellFormed
    refine ⟨state, status, accepted, fun answer rest refused => ?_⟩
    obtain ⟨known, answered, taken⟩ := feed_refused wellFormed refused rest
    obtain ⟨last, all⟩ := feedAll_error (by rw [answered]; exact known)
    rw [last, all]
    exact ⟨answered, taken⟩
  · rcases feed_free free with waiting | refused
    · have fed := feedAll_fed [input]
      generalize feedAll [input] = feeding at fed ⊢
      cases fed with
      | needMore _ fed =>
        cases fed
        exact .inl waiting
      | reported status _ => rw [waiting] at status; cases status
      | final status => rw [waiting] at status; rcases status with h | h <;> cases h
    · obtain ⟨last, -⟩ := feedAll_error (by rw [refused]; rfl)
      rw [last]
      exact .inr refused

/-- A well-formed section that declares more than the body limit is refused with `413` even where it
goes on; an empty input waits. -/
theorem header_section_grammar_post :
    let large : HeaderSection :=
      ⟨⟨text "POST", text "/"⟩, [⟨text "Host", text " x"⟩, ⟨text "Content-Length", text " 1048577"⟩]⟩
    large.WellFormed ∧ (feedRequestBytes {} large.bytes).2.status = .payloadTooLarge ∧
      (feedAll [large.bytes ++ text "abc"]).last.status = .payloadTooLarge ∧
      ((feedAll [[]]).last.status = .needMore ∨ (feedAll [[]]).last.status = .badRequest) := by
  intro large
  have wellFormed : large.WellFormed := by
    refine ⟨by decide +kernel, by decide +kernel, ⟨by decide, by decide, by decide, by decide⟩,
      List.forall_mem_cons.mpr ⟨⟨by decide, by decide, by decide⟩, List.forall_mem_singleton.mpr
        ⟨by decide, by decide, by decide⟩⟩,
      fun name => ?_, by decide +kernel, .inr (by decide +kernel), .inl (by decide +kernel)⟩
    cases name with
    | host =>
      rw [show large.values .host = [] ++ [text "x"] by decide +kernel]
      exact single_append.mpr ⟨rfl, by decide⟩
    | contentLength =>
      rw [show large.values .contentLength = [] ++ [text "1048577"] by decide +kernel]
      exact single_append.mpr ⟨rfl, by decide, by decide, by decide +kernel⟩
    | transferEncoding =>
      rw [show large.values .transferEncoding = [] by decide +kernel]
      exact single_nil _
    | expect =>
      rw [show large.values .expect = [] by decide +kernel]
      exact single_nil _
    | trailer =>
      rw [show large.values .trailer = [] by decide +kernel]
      exact single_nil _
    | connection =>
      rw [show large.values .connection = [] by decide +kernel]
      exact fun v member => absurd member List.not_mem_nil
    | _ => trivial
  obtain ⟨-, status, -, refused⟩ := header_section_grammar.2.1 large wellFormed
  refine ⟨wellFormed, status.trans (by decide +kernel),
    (refused .payloadTooLarge (text "abc") (by decide +kernel)).1, header_section_grammar.2.2 [] ?_⟩
  rintro ⟨s, -, starts⟩
  have empty := List.prefix_nil.mp starts
  rw [section_bytes] at empty
  simp at empty

end HpServer.Http
