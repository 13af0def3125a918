/-
**The method of a request, from the bytes of its message.**

A parser that has been fed a message knows whether it is a `HEAD` request as soon as the request line is over, and from
then on whatever becomes of the message.

* `StartsWith`, `IsHead` — what the bytes of a message say of its method.
* `Begun` — a parser that has accepted the bytes of a message: it is in the request line, behind it, or has refused it.
* `feedRequestBytes_begun` — **a call keeps it**; `Begun.headRequest_iff` — `isHeadRequest` tells whether the bytes
  are those of a `HEAD` request; `Begun.request_method`, `Begun.head_method` — and so do what is reported.
-/

import HpServer.Http.HeaderGrammar

namespace HpServer.Http

/-! ### Messages -/

/-- A message with a complete first line. -/
def StartsWith (line message : Bytes) : Prop := line ++ [cr, lf] <+: message

/-- **The bytes of a `HEAD` request**, as far as they have come. -/
def IsHead (message : Bytes) : Prop :=
  ∃ l : RequestLine, l.WellFormed ∧ l.method = text "HEAD" ∧ StartsWith l.bytes message

theorem StartsWith.append {line message : Bytes} (starts : StartsWith line message) (more : Bytes) :
    StartsWith line (message ++ more) :=
  starts.trans (List.prefix_append message more)

/-- The first line of a message is what stands before its first CR. -/
theorem StartsWith.line_eq {line first rest : Bytes} (starts : StartsWith line (first ++ cr :: rest))
    (free : cr ∉ line) (plain : cr ∉ first) : line = first ∧ rest.head? = some lf := by
  obtain ⟨behind, same⟩ := starts
  rw [List.append_assoc] at same
  have cut := (cutAt_append free).symm.trans ((congrArg (cutAt cr) same).trans (cutAt_append plain))
  obtain ⟨rfl, rfl⟩ := Prod.mk.inj cut
  exact ⟨rfl, rfl⟩

/-- A message without a CR has no complete line. -/
theorem not_startsWith_of_plain {line message : Bytes} (plain : cr ∉ message) : ¬ StartsWith line message := by
  rintro ⟨behind, rfl⟩
  exact plain (by simp)

theorem RequestLine.WellFormed.free {l : RequestLine} (wellFormed : l.WellFormed) : cr ∉ l.bytes :=
  free_of_all wellFormed.plain (by decide)

theorem valid_free {line : Bytes} {cut : RequestLineCut} (valid : (validateRequestLine line).value = some cut) :
    cr ∉ line := by
  obtain ⟨l, wellFormed, rfl, -⟩ := (validateRequestLine_iff line cut).mp valid
  exact wellFormed.free

/-! ### The parser of a message -/

/-- No complete line of the message is a request line. -/
def Unlined (message : Bytes) : Prop :=
  ∀ line cut, (validateRequestLine line).value = some cut → ¬ StartsWith line message

/-- **A parser that has accepted the bytes of a message.** -/
inductive Begun (p : RequestParser) (message : Bytes) : Prop
  | line (state : p.state = .requestLine) (start : p.lineStart = 0) (unread : p.headRequest = false)
      (plain : cr ∉ p.line) (bytes : message = p.line ++ if p.pendingCr then [cr] else [])
  | behind {line : Bytes} (state : p.state ≠ .requestLine) (stored : StoredLine p (some line))
      (bytes : StartsWith line message)
  | refused (state : p.state = .error) (unread : p.headRequest = false) (unlined : Unlined message)

theorem begun_reset (p : RequestParser) : Begun (resetRequestParser p) [] :=
  .line rfl rfl rfl List.not_mem_nil rfl

theorem unlined_of_plain {message : Bytes} (plain : cr ∉ message) : Unlined message :=
  fun _ _ _ => not_startsWith_of_plain plain

/-- A first line that is refused, or that is not over. -/
theorem unlined_of_first {first rest : Bytes} (plain : cr ∉ first)
    (refused : rest.head? = some lf → (validateRequestLine first).value = none) : Unlined (first ++ cr :: rest) := by
  intro line cut valid starts
  obtain ⟨rfl, ended⟩ := starts.line_eq (valid_free valid) plain
  cases (refused ended).symm.trans valid

/-- A line that is not over. -/
theorem unlined_of_open {first message : Bytes} {pending : Bool} (plain : cr ∉ first)
    (bytes : message = first ++ if pending then [cr] else []) : Unlined message := by
  rw [bytes]
  split
  · exact unlined_of_first plain fun none => nomatch none
  · rw [List.append_nil]
    exact unlined_of_plain plain

/-- What the parser keeps of a request line. -/
theorem StoredLine.keep {p q : RequestParser} {line : Bytes} (stored : StoredLine p (some line))
    (start : q.lineStart = p.lineStart) (method : q.methodSize = p.methodSize)
    (target : q.targetStart = p.targetStart ∧ q.targetSize = p.targetSize) (head : q.headRequest = p.headRequest)
    (storage : ∀ i < p.lineStart, q.storage i = p.storage i) : StoredLine q (some line) := by
  obtain ⟨length, bytes, valid⟩ := stored
  refine ⟨start.trans length, ?_, ?_⟩
  · refine (slice_congr fun i _ below => storage i ?_).trans bytes
    omega
  · rw [method, target.1, target.2, head]
    exact valid

/-- A parser that differs from one that has begun in nothing that matters here. -/
theorem Begun.same {p q : RequestParser} {message : Bytes} (begun : Begun p message) (state : q.state = p.state)
    (fields : q.pendingCr = p.pendingCr ∧ q.headRequest = p.headRequest ∧ q.lineStart = p.lineStart
      ∧ q.lineSize = p.lineSize ∧ q.methodSize = p.methodSize ∧ q.targetStart = p.targetStart
      ∧ q.targetSize = p.targetSize) (storage : q.storage = p.storage) : Begun q message := by
  obtain ⟨pending, head, start, size, method, targetStart, targetSize⟩ := fields
  have line : q.line = p.line := by
    unfold RequestParser.line
    rw [start, size, storage]
  cases begun with
  | line isLine zero unread plain bytes =>
    refine .line (state.trans isLine) (start.trans zero) (head.trans unread) ?_ ?_
    · rw [line]
      exact plain
    · rw [line, pending]
      exact bytes
  | behind past stored bytes =>
    refine .behind ?_ (stored.keep start method ⟨targetStart, targetSize⟩ head fun i _ => congrFun storage i) bytes
    rw [state]
    exact past
  | refused isError unread unlined => exact .refused (state.trans isError) (head.trans unread) unlined

/-- A parser may stop at any byte. -/
theorem Begun.stop {p : RequestParser} {message : Bytes} (begun : Begun p message) :
    Begun { p with state := .error } message := by
  cases begun with
  | line state start unread plain bytes => exact .refused rfl unread (unlined_of_open plain bytes)
  | behind state stored bytes => exact .behind (fun other => nomatch other) stored bytes
  | refused state unread unlined => exact .refused rfl unread unlined

/-! ### One byte -/

/-- The end of the request line. -/
theorem finishLine_begun {p : RequestParser} (state : p.state = .requestLine) (start : p.lineStart = 0)
    (unread : p.headRequest = false) (plain : cr ∉ p.line) : Begun (finishLine p) (p.line ++ [cr, lf]) := by
  have whole : slice p.storage 0 p.lineSize = p.line := by
    unfold RequestParser.line
    rw [start]
  have shape : finishLine p = p.onFields (acceptRequestLine p.line) := by
    unfold finishLine finishLineFields
    rw [whole]
    show ({ p with toParserFields := if p.state = .requestLine then _ else _ } : RequestParser) = _
    rw [if_pos state]
    rfl
  rw [shape]
  unfold acceptRequestLine RequestParser.onFields
  cases valid : (validateRequestLine p.line).value with
  | none => exact .refused rfl unread (unlined_of_first plain fun _ => valid)
  | some cut =>
    have length : p.lineSize = p.line.length := (slice_length _ _ _).symm
    refine .behind (fun other => nomatch other) ⟨length, ?_, valid⟩ (List.prefix_refl _)
    show slice p.storage 0 p.line.length = p.line
    rw [← length]
    exact whole

/-- A byte of the request line. -/
theorem takeHeaderByte_line {p : RequestParser} {message : Bytes} (c : UInt8) (state : p.state = .requestLine)
    (start : p.lineStart = 0) (unread : p.headRequest = false) (plain : cr ∉ p.line)
    (bytes : message = p.line ++ if p.pendingCr then [cr] else []) :
    Begun (takeHeaderByte p c) (message ++ [c]) := by
  unfold takeHeaderByte
  dsimp only
  by_cases pending : p.pendingCr = true
  · rw [if_pos pending] at bytes ⊢
    have message : message ++ [c] = p.line ++ [cr, c] := by
      rw [bytes, List.append_assoc]
      rfl
    rw [message]
    by_cases ended : c = lf
    · rw [if_neg (not_not.mpr ended), ended]
      exact finishLine_begun (p := { p with pendingCr := false }) state start unread plain
    · rw [if_pos ended]
      refine .refused rfl unread (unlined_of_first plain fun first => ?_)
      exact absurd (Option.some.inj first) ended
  · rw [if_neg pending, List.append_nil] at bytes
    rw [if_neg pending, bytes]
    have silent : p.pendingCr = false := by simpa using pending
    by_cases isCr : c = cr
    · rw [if_pos isCr, isCr]
      exact .line state start unread plain rfl
    rw [if_neg isCr]
    have extended : cr ∉ p.line ++ [c] := by
      simp only [List.mem_append, List.mem_singleton, not_or]
      exact ⟨plain, fun same => isCr same.symm⟩
    by_cases bare : (c = lf || c = nul) = true
    · rw [if_pos bare]
      exact .refused rfl unread (unlined_of_plain extended)
    rw [if_neg bare]
    by_cases full : (p.state = .requestLine && p.lineSize = kMaxRequestLineBytes) = true
    · rw [if_pos full]
      exact .refused rfl unread (unlined_of_plain extended)
    · rw [if_neg full]
      have line : (p.store c).line = p.line ++ [c] := slice_update_last _ _ _ c
      refine .line state start unread ?_ ?_
      · show cr ∉ (p.store c).line
        rw [line]
        exact extended
      · show p.line ++ [c] = (p.store c).line ++ if p.pendingCr then [cr] else []
        rw [line, if_neg pending, List.append_nil]

/-- A parser behind the request line of another keeps what that one has of the line. -/
structure Behind (p q : RequestParser) : Prop where
  state : q.state ≠ .requestLine
  start : q.lineStart = p.lineStart
  method : q.methodSize = p.methodSize
  target : q.targetStart = p.targetStart ∧ q.targetSize = p.targetSize
  head : q.headRequest = p.headRequest
  storage : ∀ i < p.lineStart, q.storage i = p.storage i

/-- **Later lines are stored behind the request line.** -/
theorem Turn.behind {p q r : RequestParser} {c : UInt8} (turn : Turn q c r) (before : Behind p q) : Behind p r := by
  have kept : ∀ {f : ParserFields}, f.state ≠ .requestLine → f.lineStart = q.lineStart → f.methodSize = q.methodSize →
      f.targetStart = q.targetStart ∧ f.targetSize = q.targetSize → f.headRequest = q.headRequest →
      Behind p { q with toParserFields := f } :=
    fun state start method target head => ⟨state, start.trans before.start, method.trans before.method,
      ⟨target.1.trans before.target.1, target.2.trans before.target.2⟩, head.trans before.head, before.storage⟩
  cases turn with
  | requestLine isLine => exact absurd isLine before.state
  | stored =>
    refine ⟨before.state, before.start, before.method, before.target, before.head, fun i below => ?_⟩
    have start := before.start
    exact (Function.update_of_ne (by omega) _ _).trans (before.storage i below)
  | headersEnd =>
    refine kept (fun isLine => ?_) rfl rfl ⟨rfl, rfl⟩ rfl
    cases (congrArg ParserState.isHeader isLine).symm.trans (bodyState_past q.toHeaderFields).2
  | @size size =>
    refine kept ?_ rfl rfl ⟨rfl, rfl⟩ rfl
    by_cases zero : size = 0 <;> simp [zero]
  | cr => exact kept before.state rfl rfl ⟨rfl, rfl⟩ rfl
  | field => exact kept before.state rfl rfl ⟨rfl, rfl⟩ rfl
  | dataCr => exact kept before.state rfl rfl ⟨rfl, rfl⟩ rfl
  | _ => exact kept (by simp) rfl rfl ⟨rfl, rfl⟩ rfl

theorem feedByte_behind {p q : RequestParser} (c : UInt8) (before : Behind p q) : Behind p (feedByte q c) := by
  obtain ⟨state, start, method, target, head, storage⟩ := before
  refine feedByte_of_turn (P := Behind p) c ⟨state, start, method, target, head, storage⟩ (fun _ => ?_) (fun _ => ?_)
    (fun _ turn _ => turn.behind ⟨state, start, method, target, head, storage⟩)
    fun q status kept _ => ⟨by simp, kept.start, kept.method, kept.target, kept.head, kept.storage⟩
  · unfold appendBody finishRequest
    dsimp only
    split
    · exact ⟨by simp, start, method, target, head, storage⟩
    · exact ⟨state, start, method, target, head, storage⟩
  · unfold appendChunk
    dsimp only
    split
    · exact ⟨by simp, start, method, target, head, storage⟩
    · exact ⟨state, start, method, target, head, storage⟩

/-- The checks after a byte change nothing but the state and the status. -/
theorem Begun.limit {p : RequestParser} {message : Bytes} (begun : Begun p message) :
    Begun (p.onFields checkHeaderLimit) message := by
  by_cases full : (p.headerBytes = kMaxHeaderBytes && (p.state = .requestLine || p.state = .headers)) = true
  · exact begun.stop.same (if_pos full) ⟨rfl, rfl, rfl, rfl, rfl, rfl, rfl⟩ rfl
  · exact begun.same (if_neg full) ⟨rfl, rfl, rfl, rfl, rfl, rfl, rfl⟩ rfl

/-- **One byte.** -/
theorem feedByte_begun {p : RequestParser} {message : Bytes} (c : UInt8) (live : p.state.isFinal = false)
    (begun : Begun p message) : Begun (feedByte p c) (message ++ [c]) := by
  cases begun with
  | line state start unread plain bytes =>
    rw [feedByte_header c (by rw [state]; rfl)]
    exact (takeHeaderByte_line (p := { p with
      headerBytes := p.headerBytes + 1
      requestBytes := p.requestBytes + 1
      scanSteps := p.scanSteps + 1 }) c state start unread plain bytes).limit
  | refused state =>
    rw [state] at live
    cases live
  | behind past stored bytes =>
    obtain ⟨still, start, method, target, head, storage⟩ :=
      feedByte_behind c ⟨past, rfl, rfl, ⟨rfl, rfl⟩, rfl, fun _ _ => rfl⟩
    exact .behind still (stored.keep start method target head storage) (bytes.append [c])

/-! ### Calls -/

/-- **What a call accepts is added to the message.** -/
theorem feedRequestBytes_begun {p : RequestParser} {message : Bytes} (bytes : Bytes)
    (coherent : Coherent p.toParserFields) (begun : Begun p message) :
    Begun (feedRequestBytes p bytes).1 (message ++ bytes.take (feedRequestBytes p bytes).2.acceptedBytes) := by
  rw [feedRequestBytes_eq bytes coherent]
  refine byteLoop_accepts (fun _ _ c live _ => feedByte_begun c live) bytes _ message (clearHeadersComplete_cleared _) ?_
  obtain ⟨left, shape⟩ := clearHeadersComplete_shape p.toParserFields
  refine begun.same ?_ ?_ rfl
  · rw [onFields_toParserFields, shape]
  · rw [onFields_toParserFields, shape]
    exact ⟨rfl, rfl, rfl, rfl, rfl, rfl, rfl⟩

/-! ### The method -/

section Method

variable {p : RequestParser} {message : Bytes}

/-- **The parser knows a `HEAD` request by its bytes.** -/
theorem Begun.headRequest_iff (begun : Begun p message) : p.headRequest = true ↔ IsHead message := by
  have none : p.headRequest = false → Unlined message → (p.headRequest = true ↔ IsHead message) := by
    intro unread unlined
    rw [unread]
    refine ⟨fun other => (nomatch other), fun ⟨l, wellFormed, _, starts⟩ => ?_⟩
    exact absurd starts (unlined _ l.cut ((validateRequestLine_iff _ _).mpr ⟨l, wellFormed, rfl, rfl⟩))
  cases begun with
  | line state start unread plain bytes => exact none unread (unlined_of_open plain bytes)
  | behind state stored bytes =>
    obtain ⟨-, -, valid⟩ := stored
    obtain ⟨l, wellFormed, rfl, cut⟩ := (validateRequestLine_iff _ _).mp valid
    have head : p.headRequest = decide (l.method = text "HEAD") := congrArg RequestLineCut.headRequest cut
    rw [head, decide_eq_true_iff]
    refine ⟨fun isHead => ⟨l, wellFormed, isHead, bytes⟩, fun ⟨other, formed, isHead, starts⟩ => ?_⟩
    -- the message has one first line, and that is cut in one way
    obtain ⟨rest, rfl⟩ := bytes
    rw [List.append_assoc] at starts
    obtain ⟨same, -⟩ := starts.line_eq formed.free wellFormed.free
    have again := (validateRequestLine_iff other.bytes other.cut).mpr ⟨other, formed, rfl, rfl⟩
    rw [same] at again
    have heads := congrArg RequestLineCut.headRequest ((Option.some.inj (again.symm.trans valid)).trans cut)
    exact of_decide_eq_true (heads.symm.trans (decide_eq_true isHead))
  | refused state unread unlined => exact none unread unlined

/-- The method a parser behind the request line has read. -/
theorem Begun.method (begun : Begun p message) (state : p.state ≠ .requestLine ∧ p.state ≠ .error)
    (head : p.headRequest = true) : slice p.storage 0 p.methodSize = text "HEAD" := by
  cases begun with
  | line other => exact absurd other state.1
  | refused other => exact absurd other state.2
  | behind past stored bytes =>
    obtain ⟨l, wellFormed, rfl, cut⟩ := (validateRequestLine_iff _ _).mp stored.2.2
    obtain ⟨-, -, -, method, -⟩ := stored.parts wellFormed
    rw [method]
    exact of_decide_eq_true ((congrArg RequestLineCut.headRequest cut).symm.trans head)

variable (coherent : Coherent p.toParserFields) (begun : Begun p message) (accepted : Nat)

include coherent begun

/-- **A request that is reported has the method of its message.** -/
theorem Begun.request_method (complete : (buildFeedResult p accepted).status = .complete)
    (head : p.headRequest = true) : (buildFeedResult p accepted).request.method = text "HEAD" := by
  have status : p.status = .complete := complete
  have state : p.state = .complete := coherent.state_of_complete status
  unfold buildFeedResult
  dsimp only
  rw [if_pos state]
  refine begun.method ⟨?_, ?_⟩ head
  all_goals
    rw [state]
    decide

/-- So has a head. -/
theorem Begun.head_method {reported : RequestHead} (found : (buildFeedResult p accepted).head = some reported)
    (head : p.headRequest = true) : reported.method = text "HEAD" := by
  unfold buildFeedResult at found
  dsimp only at found
  split at found
  case isFalse => cases found
  case isTrue status =>
    cases found
    have open1 := coherent.reported status
    refine begun.method ⟨?_, ?_⟩ head
    all_goals
      rcases open1 with state | state <;> rw [state] <;> decide

end Method

end HpServer.Http
