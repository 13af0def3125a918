/-
**The work of the parser is linear in the bytes it accepts.**

`scanSteps_` counts every byte a check looks at. A finished line is looked at by several checks, and each byte of
it pays for them when it is stored.

* `validateHeader_atMost`, `validateRequestLine_atMost` — **the checks of a line of `n` bytes cost at most `5 * n`**:
  at most two of the names the parser knows are as long as the name of a field, and the elements of a list are
  parts of its value.
* `Paid` — the potential: five steps for each byte of the line being assembled are still to come.
* `feedByte_paid` — **one byte pays six steps.**
* `offered_traces` — the accepted bytes alone tell the parser, however they were cut.
-/

import HpServer.Http.ParserMemory
import HpServer.Http.HeaderCollect

namespace HpServer.Http

open Counted

/-! ### The request line -/

theorem scanSpaces_atMost (size : Nat) (rest : Bytes) :
    ∀ i first second, (scanSpaces size rest i first second).AtMost rest.length := by
  induction rest with
  | nil => exact fun _ _ _ => atMost_pure _ _
  | cons c rest ih =>
    intro i first second
    rw [List.length_cons, Nat.add_comm]
    exact (atMost_tick 1).bind (.ite (ih ..) (.ite (ih ..) (.ite (ih ..) (atMost_pure _ _))))

/-- The request line is looked at as a whole once, and each part once more. -/
theorem validateRequestLine_atMost (line : Bytes) : (validateRequestLine line).AtMost (5 * line.length) := by
  have part : ∀ (test : UInt8 → Bool) (m n : Nat), (scanAll test ((line.drop m).take n)).AtMost line.length :=
    fun test m n => (scanAll_atMost test _).mono (by rw [List.length_take, List.length_drop]; omega)
  have method : ∀ n, (scanAll isTokenCharacter (line.take n)).AtMost line.length := fun n => part _ 0 n
  have version : ∀ n, (scanEqual id (line.drop n) httpVersion).AtMost line.length :=
    fun n => (scanEqual_atMost id _ _).mono (by rw [List.length_drop]; omega)
  unfold validateRequestLine
  refine ((scanSpaces_atMost ..).bind (n := 4 * line.length) ?_).mono (by omega)
  generalize (scanSpaces line.length line 0 line.length line.length).value = found
  cases found with
  | none => exact atMost_pure _ _
  | some cut =>
    refine .ite (atMost_pure _ _) (((method _).bind (n := 3 * line.length) ?_).mono (by omega))
    refine .ite (atMost_pure _ _) (.ite (atMost_pure _ _) (((part _ _ _).bind (n := 2 * line.length) ?_).mono (by omega)))
    refine .ite (atMost_pure _ _) (.ite (atMost_pure _ _) (((version _).bind (n := 0) ?_).mono (by omega)))
    exact .ite (atMost_pure _ _) (atMost_pure _ _)

/-! ### Field lines -/

/-- Only texts of one length are compared byte by byte. -/
theorem equalsAsciiCaseInsensitive_atMost (value expected : Bytes) :
    (equalsAsciiCaseInsensitive value expected).AtMost (if value.length = expected.length then value.length else 0) := by
  unfold equalsAsciiCaseInsensitive
  by_cases same : value.length = expected.length
  · rw [if_neg (not_not.mpr same), if_pos same]
    exact scanEqual_atMost _ _ _
  · rw [if_pos same]
    exact atMost_pure _ _

theorem equals_atMost (value expected : Bytes) : (equalsAsciiCaseInsensitive value expected).AtMost value.length :=
  (equalsAsciiCaseInsensitive_atMost value expected).mono (by split <;> omega)

/-- A name is compared with the known names of its length. -/
theorem matchName_atMost (name : Bytes) (names : List HeaderName) :
    (matchName name names).AtMost ((names.map fun n => n.text.length).count name.length * name.length) := by
  induction names with
  | nil => exact atMost_pure _ _
  | cons candidate rest ih =>
    have here := equalsAsciiCaseInsensitive_atMost name candidate.text
    rw [List.map_cons, List.count_cons]
    refine (here.bind (.ite (atMost_pure _ _) ih)).mono ?_
    by_cases same : name.length = candidate.text.length
    · rw [if_pos same, if_pos (by simp [same]), Nat.add_mul]
      omega
    · rw [if_neg same, if_neg (by simpa using fun other => same other.symm), Nat.add_zero]
      omega

/-- **At most two of the known names have one length.** -/
theorem headerNames_count (n : Nat) : (headerNames.map fun name => name.text.length).count n ≤ 2 := by
  have lengths : (headerNames.map fun name => name.text.length) = [12, 13, 17, 5, 8, 4, 14, 17, 6, 7, 10] := by decide
  rw [lengths]
  by_cases small : n < 18
  · have each : ∀ n : Fin 18, [12, 13, 17, 5, 8, 4, 14, 17, 6, 7, 10].count n.val ≤ 2 := by decide
    exact each ⟨n, small⟩
  · rw [List.count_eq_zero.mpr (by simp; omega)]
    omega

theorem trimHeaderWhitespace_atMost (value : Bytes) :
    (trimHeaderWhitespace value).AtMost (value.length - (trimOws value).length) := Nat.le_refl _

theorem scanContentLength_atMost (value : Bytes) : ∀ total, (scanContentLength value total).AtMost value.length := by
  induction value with
  | nil => exact fun _ => atMost_pure _ _
  | cons c rest ih =>
    intro total
    rw [List.length_cons, Nat.add_comm]
    exact (atMost_tick 1).bind (.ite (atMost_pure _ _) (.ite (atMost_pure _ _) (ih _)))

theorem classifyToken_atMost (trailerDeclaration : Bool) (flags : TokenFlags) (token : Bytes) :
    (classifyToken trailerDeclaration flags token).AtMost (2 * token.length) := by
  unfold classifyToken
  refine .ite (((equals_atMost _ _).bind (n := token.length) ?_).mono (by omega)) (.ite (atMost_pure _ _)
    (((equals_atMost _ _).bind (n := 0) (.ite (atMost_pure _ _) (atMost_pure _ _))).mono (by omega)))
  exact .ite (atMost_pure _ _) ((equals_atMost _ _).bind (n := 0) (.ite (atMost_pure _ _) (atMost_pure _ _)))

/-- The bytes of the elements of a list, with one more for each. -/
def listWork (elements : List Bytes) : Nat := (elements.map fun element => 4 * element.length + 1).sum

theorem scanTokenList_atMost (trailerDeclaration : Bool) (elements : List Bytes) :
    ∀ flags, (scanTokenList trailerDeclaration elements flags).AtMost (listWork elements) := by
  induction elements with
  | nil => exact fun _ => atMost_pure _ _
  | cons element rest ih =>
    intro flags
    have short := trimOws_length_le element
    have work : listWork (element :: rest) = 4 * element.length + 1 + listWork rest := rfl
    refine ((atMost_tick _).bind ((trimHeaderWhitespace_atMost element).bind
      (n := 3 * (trimOws element).length + listWork rest) ?_)).mono (by omega)
    refine .ite (atMost_pure _ _) (((scanAll_atMost _ _).bind
      (n := 2 * (trimOws element).length + listWork rest) ?_).mono (by show (trimOws element).length + _ ≤ _; omega))
    exact .ite (atMost_pure _ _) ((classifyToken_atMost _ _ _).bind (.ite (atMost_pure _ _) (ih _)))

theorem scanConnection_atMost (elements : List Bytes) :
    ∀ close, (scanConnection elements close).AtMost (listWork elements) := by
  induction elements with
  | nil => exact fun _ => atMost_pure _ _
  | cons element rest ih =>
    intro close
    have short := trimOws_length_le element
    have work : listWork (element :: rest) = 4 * element.length + 1 + listWork rest := rfl
    refine ((atMost_tick _).bind ((trimHeaderWhitespace_atMost element).bind
      (n := 2 * (trimOws element).length + listWork rest) ?_)).mono (by omega)
    refine ((scanAll_atMost _ _).bind (n := (trimOws element).length + listWork rest) ?_).mono
      (by show (trimOws element).length + _ ≤ _; omega)
    exact .ite (atMost_pure _ _) ((equals_atMost _ _).bind (.ite (ih _) (ih _)))

/-- The elements of a list are parts of its value. -/
theorem listWork_splitOn (value : Bytes) : listWork (value.splitOn comma) ≤ 4 * value.length + 1 := by
  have parts : ∀ pieces : List Bytes, pieces ≠ [] → listWork pieces ≤ 4 * ([comma].intercalate pieces).length + 1 := by
    intro pieces
    induction pieces with
    | nil => exact fun none => absurd rfl none
    | cons piece pieces ih =>
      intro _
      cases pieces with
      | nil => simp [listWork]
      | cons next pieces =>
        have later := ih (List.cons_ne_nil _ _)
        have work : listWork (piece :: next :: pieces) = 4 * piece.length + 1 + listWork (next :: pieces) := rfl
        rw [List.intercalate_cons_cons, List.length_append, List.length_append, List.length_singleton]
        omega
  have whole := parts (value.splitOn comma) (List.splitOn_ne_nil _ _)
  rwa [List.intercalate_splitOn] at whole

theorem applyHeader_atMost (name : Option HeaderName) (value : Bytes) (nonemptyValue : Bool) (h : HeaderFields) :
    (applyHeader name value nonemptyValue h).AtMost (4 * value.length + 1) := by
  have elements := listWork_splitOn value
  have tokens : ∀ (trailers : Bool) (h : HeaderFields), (validateTokenList value trailers h).AtMost (4 * value.length + 1) :=
    fun trailers h => ((scanTokenList_atMost _ _ _).bind (n := 0) (atMost_pure _ _)).mono elements
  unfold applyHeader
  split
  case h_8 => exact .ite (atMost_pure _ _) (((scanContentLength_atMost _ _).bind (n := 0) (atMost_pure _ _)).mono (by omega))
  case h_9 => exact .ite (atMost_pure _ _) (tokens _ _)
  case h_10 => exact .ite (atMost_pure _ _) (((equals_atMost _ _).bind (n := 0) (atMost_pure _ _)).mono (by omega))
  case h_11 => exact .ite (atMost_pure _ _) (tokens _ _)
  case h_12 => exact ((scanConnection_atMost _ _).bind (n := 0) (atMost_pure _ _)).mono elements
  case h_7 => exact .ite (atMost_pure _ _) (atMost_pure _ _)
  all_goals exact atMost_pure _ _

/-- **The checks of a field line.** -/
theorem validateHeader_atMost (line : Bytes) (trailers : Bool) (h : HeaderFields) :
    (validateHeader line trailers h).AtMost (5 * line.length) := by
  unfold validateHeader
  refine .ite (atMost_pure _ _) ?_
  have before : line.findIdx (· = colon) ≤ line.length := List.findIdx_le_length
  generalize line.findIdx (· = colon) = colonAt at before ⊢
  dsimp only
  by_cases unnamed : (colonAt = 0 || colonAt = line.length) = true
  · rw [if_pos unnamed]
    exact ((atMost_tick _).bind (n := 0) (atMost_pure _ _)).mono (by omega)
  rw [if_neg unnamed]
  simp only [Bool.or_eq_true, decide_eq_true_eq, not_or] at unnamed
  have name : (line.take colonAt).length = colonAt := by rw [List.length_take]; omega
  have rest : (line.drop (colonAt + 1)).length = line.length - (colonAt + 1) := List.length_drop
  have short := trimOws_length_le (line.drop (colonAt + 1))
  have names := headerNames_count (line.take colonAt).length
  generalize line.take colonAt = field at name names ⊢
  generalize line.drop (colonAt + 1) = value at rest short ⊢
  have known : (matchName field headerNames).AtMost (2 * field.length) :=
    (matchName_atMost field headerNames).mono (Nat.mul_le_mul_right _ names)
  refine ((atMost_tick _).bind ((scanAll_atMost _ _).bind (n := value.length + (value.length - (trimOws value).length)
    + (2 * field.length + (4 * (trimOws value).length + 1))) ?_)).mono (by omega)
  refine .ite (atMost_pure _ _) (((scanAll_atMost _ _).bind (.ite (atMost_pure _ _)
    ((trimHeaderWhitespace_atMost _).bind (n := 2 * field.length + (4 * (trimOws value).length + 1)) ?_))).mono
      (by omega))
  refine .ite ?_ (known.bind (applyHeader_atMost _ _ _ _))
  refine ((equals_atMost _ _).bind (n := field.length) (.ite (atMost_pure _ _) ?_)).mono (by omega)
  exact (equals_atMost _ _).bind (n := 0) (atMost_pure _ _)

/-! ### The potential -/

theorem Checked.atMost {p : RequestParser} {n : Nat} (work : Checked p n) : n ≤ 5 * p.lineSize := by
  have line : p.line.length = p.lineSize := slice_length _ _ _
  cases work with
  | none => exact Nat.zero_le _
  | requestLine =>
    have atMost := validateRequestLine_atMost (slice p.storage 0 p.lineSize)
    rwa [slice_length] at atMost
  | field trailers h => exact line ▸ validateHeader_atMost p.line trailers h
  | size => omega

/-- **The steps so far, with those still due for the line being assembled**, are paid by the accepted bytes. -/
structure Paid (f : ParserFields) : Prop where
  steps : f.scanSteps ≤ 6 * f.requestBytes
  line : f.state ≠ .error → f.scanSteps + 5 * f.lineSize ≤ 6 * f.requestBytes

theorem paid_initial : Paid {} := ⟨Nat.le_refl 0, fun _ => Nat.le_refl 0⟩

theorem Turn.paid {p q : RequestParser} {c : UInt8} (turn : Turn (p.onFields ParserFields.counted) c q)
    (paid : p.scanSteps + 5 * p.lineSize ≤ 6 * p.requestBytes) : Paid q.toParserFields := by
  have settled : ∀ {f : ParserFields}, f.requestBytes = p.requestBytes + 1 →
      f.scanSteps + 5 * f.lineSize ≤ p.scanSteps + 5 * p.lineSize + 6 → Paid f :=
    fun bytes steps => ⟨by omega, fun _ => by omega⟩
  -- the check of a finished line is paid by its bytes
  have finished : ∀ {f : ParserFields} {n : Nat}, Checked (p.onFields ParserFields.counted) n →
      f.requestBytes = p.requestBytes + 1 → f.scanSteps = p.scanSteps + 1 + n → f.lineSize = 0 → Paid f := by
    intro f n work bytes steps closed
    have atMost : n ≤ 5 * p.lineSize := work.atMost
    exact settled bytes (by omega)
  cases turn with
  | @refused h n size chunkLineBytes pendingCr status kept work =>
    have atMost : n ≤ 5 * p.lineSize := work.atMost
    refine ⟨?_, fun live => absurd rfl live⟩
    show p.scanSteps + 1 + n ≤ 6 * (p.requestBytes + 1)
    omega
  | stored =>
    refine settled rfl ?_
    show p.scanSteps + 1 + 5 * (p.lineSize + 1) ≤ _
    omega
  | requestLine => exact finished .requestLine rfl rfl rfl
  | field => exact finished (.field _ _) rfl rfl rfl
  | headersEnd => exact finished .none rfl rfl rfl
  | size => exact finished .size rfl rfl rfl
  | trailersEnd => exact finished .none rfl rfl rfl
  | _ =>
    refine settled rfl ?_
    show p.scanSteps + 1 + 5 * p.lineSize ≤ _
    omega

/-- **Every byte pays six steps.** -/
theorem feedByte_paid (p : RequestParser) (c : UInt8) (_ : p.status ≠ .headersComplete)
    (paid : Paid p.toParserFields) : Paid (feedByte p c).toParserFields := by
  by_cases final : p.state.isFinal = true
  · rw [feedByte_final c final]
    exact paid
  have live : p.state ≠ .error := fun isError => final (by rw [isError]; rfl)
  have line := paid.line live
  have copied : ∀ {f : ParserFields} (n : Nat), f.requestBytes = p.requestBytes + n → f.scanSteps = p.scanSteps + n →
      f.lineSize = p.lineSize → Paid f := fun n bytes steps size => ⟨by omega, fun _ => by omega⟩
  refine feedByte_of_turn (P := fun q => Paid q.toParserFields) c paid (fun _ => ?_) (fun _ => ?_)
    (fun _ turn _ => turn.paid line) fun _ _ kept _ => ⟨kept.steps, fun live => absurd rfl live⟩
  · unfold appendBody finishRequest
    dsimp only
    split <;> exact copied _ rfl rfl rfl
  · unfold appendChunk
    dsimp only
    split <;> exact copied _ rfl rfl rfl

/-! ### The accepted bytes -/

/-- One more byte of a byte run that has taken all its input. -/
theorem byteRun_snoc (message : Bytes) (c : UInt8) : ∀ p : RequestParser, (byteRun p message).2.2 = [] →
    (byteRun p message).1.state.isFinal = false →
    (byteRun p (message ++ [c])).1 = (feedByte (byteRun p message).1 c).onFields clearHeadersComplete
      ∧ (byteRun p (message ++ [c])).2.2 = [] := by
  induction message with
  | nil =>
    intro p _ live
    have live : p.state.isFinal = false := live
    rw [List.nil_append, byteRun_cons c [] live]
    split
    · exact ⟨rfl, rfl⟩
    · next silent => exact ⟨(onFields_clearHeadersComplete silent).symm, rfl⟩
  | cons d rest ih =>
    intro p taken live
    by_cases final : p.state.isFinal = true
    · rw [byteRun_final _ final] at taken
      cases taken
    rw [List.cons_append, byteRun_cons d (rest ++ [c]) (by simpa using final)]
    rw [byteRun_cons d rest (by simpa using final)] at taken live ⊢
    by_cases reported : (feedByte p d).status = .headersComplete
    · simp only [if_pos reported] at taken live ⊢
      exact ih _ taken live
    · simp only [if_neg reported] at taken live ⊢
      exact ih _ taken live

/-- A parser that has accepted the bytes of a message, and nothing else of its input. -/
structure Traces (p : RequestParser) (message : Bytes) : Prop where
  taken : (byteRun {} message).2.2 = []
  agree : Agree (p.onFields clearHeadersComplete) (byteRun {} message).1
  framed : Framed p.toParserFields

theorem Traces.feedByte {p : RequestParser} {message : Bytes} (c : UInt8) (live : p.state.isFinal = false)
    (cleared : p.status ≠ .headersComplete) (traces : Traces p message) : Traces (feedByte p c) (message ++ [c]) := by
  have agree := traces.agree
  rw [onFields_clearHeadersComplete cleared] at agree
  obtain ⟨next, taken⟩ := byteRun_snoc message c {} traces.taken (agree.fields ▸ live)
  refine ⟨taken, ?_, feedByte_framed c traces.framed⟩
  rw [next]
  exact clear_agree (feedByte_agree c agree traces.framed)

/-- The parser after some segments have been offered to it, and the bytes it has accepted of them. -/
def offered : RequestParser → List Bytes → RequestParser × Bytes
  | p, [] => (p, [])
  | p, segment :: rest =>
    let (next, result) := feedRequestBytes p segment
    let later := offered next rest
    (later.1, segment.take result.acceptedBytes ++ later.2)

/-- **What every byte and the start of a call keep of the parser and its accepted bytes**, any calls keep. -/
theorem offered_accepts {P : RequestParser → Bytes → Prop}
    (step : ∀ p message c, p.state.isFinal = false → p.status ≠ .headersComplete → P p message →
      P (feedByte p c) (message ++ [c]))
    (call : ∀ p message, P p message → P (p.onFields clearHeadersComplete) message) (segments : List Bytes) :
    ∀ (p : RequestParser) (message : Bytes), Coherent p.toParserFields → P p message →
      P (offered p segments).1 (message ++ (offered p segments).2) := by
  induction segments with
  | nil =>
    intro p message _ before
    rw [offered, List.append_nil]
    exact before
  | cons segment rest ih =>
    intro p message coherent before
    have next : P (feedRequestBytes p segment).1
        (message ++ segment.take (feedRequestBytes p segment).2.acceptedBytes) := by
      rw [feedRequestBytes_eq segment coherent]
      exact byteLoop_accepts step segment _ message (clearHeadersComplete_cleared _) (call p message before)
    rw [offered, ← List.append_assoc]
    exact ih _ _ (feedRequestBytes_coherent segment coherent) next

/-- **However the input is cut, the accepted bytes alone tell the parser.** -/
theorem offered_traces (segments : List Bytes) {p : RequestParser} {message : Bytes}
    (coherent : Coherent p.toParserFields) (traces : Traces p message) :
    Traces (offered p segments).1 (message ++ (offered p segments).2) := by
  refine offered_accepts (P := Traces) (fun _ _ c => Traces.feedByte c) (fun p message traces => ?_) segments p message
    coherent traces
  refine ⟨traces.taken, ?_, clear_framed traces.framed⟩
  rw [onFields_clearHeadersComplete (clearHeadersComplete_cleared _)]
  exact traces.agree

theorem traces_reset (p : RequestParser) : Traces (resetRequestParser p) [] :=
  ⟨rfl, resetRequestParser_agree p, framed_initial⟩

theorem coherent_reset (p : RequestParser) : Coherent (resetRequestParser p).toParserFields := coherent_initial

theorem offered_scanSteps (p : RequestParser) (segments : List Bytes) :
    (offered (resetRequestParser p) segments).1.scanSteps
      = (byteRun {} (offered (resetRequestParser p) segments).2).1.scanSteps := by
  have traces := offered_traces segments (coherent_reset p) (traces_reset p)
  rw [List.nil_append] at traces
  obtain ⟨status, shape⟩ := clearHeadersComplete_shape (offered (resetRequestParser p) segments).1.toParserFields
  have fields := traces.agree.fields
  rw [onFields_toParserFields, shape] at fields
  have steps := congrArg ParserFields.scanSteps fields
  exact steps

/-- **The work counter.** After any calls on a parser, resets included, it is below ten times the bytes of the request
accepted so far; and the accepted bytes of a request tell it, however they were cut and whatever was read before. -/
theorem parser_work_linear :
    (∀ (calls : List ParserCall) (result : FeedResult) (f : ParserFields), (result, f) ∈ parserAnswers {} calls →
      0 < f.requestBytes → f.scanSteps < 10 * f.requestBytes)
    ∧ ∀ (p q : RequestParser) (first second : List Bytes),
      (offered (resetRequestParser p) first).2 = (offered (resetRequestParser q) second).2 →
      (offered (resetRequestParser p) first).1.scanSteps = (offered (resetRequestParser q) second).1.scanSteps := by
  constructor
  · intro calls result f answered some
    obtain ⟨paid, -⟩ := parserAnswers_keeps (P := Paid) feedByte_paid (fun _ _ paid => ⟨paid.steps, paid.line⟩)
      paid_initial calls answered
    have steps := paid.steps
    omega
  · intro p q first second same
    rw [offered_scanSteps, offered_scanSteps, same]

end HpServer.Http
