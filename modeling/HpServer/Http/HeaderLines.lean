/-
**What one line of a header section may be.**

The checks of a finished line are loops with early exits over positions. Each of them is the membership
test of a small grammar.

* `validateRequestLine_iff` — the request line is `method SP target SP HTTP/1.1`, and what is noted of
  it are the sizes of these parts.
* `FieldLine` — a field line by its name and the bytes after the colon; `validateHeader_bytes` — a
  well-formed one is judged by its name and its trimmed value; `validateHeader_accepts` — no other line
  is accepted.
* `scanContentLength_value`, `validateTokenList_codings`, `validateTokenList_trailers`,
  `scanConnection_value` — the four kinds of value with a syntax of their own.
-/

import HpServer.Http.HttpRequest

namespace HpServer.Http

/-! ### Bytes -/

/-- A letter has the class of its lower case. -/
theorem token_of_lowerAscii (c : UInt8) :
    isTokenCharacter (lowerAscii c) = true → isTokenCharacter c = true := by
  refine forall_uint8 (P := fun c =>
    isTokenCharacter (lowerAscii c) = true → isTokenCharacter c = true) ?_ c
  decide +kernel

/-! ### The request line -/

/-- `method SP target SP HTTP/1.1`. -/
structure RequestLine where
  method : Bytes
  target : Bytes

namespace RequestLine

def bytes (l : RequestLine) : Bytes := l.method ++ sp :: (l.target ++ sp :: httpVersion)

structure WellFormed (l : RequestLine) : Prop where
  method : l.method ≠ []
  token : l.method.all isTokenCharacter = true
  slash : l.target.head? = some slash
  target : l.target.all isTargetByte = true

/-- What the parser notes of a request line. -/
def cut (l : RequestLine) : RequestLineCut where
  methodSize := l.method.length
  targetStart := l.method.length + 1
  targetSize := l.target.length
  headRequest := l.method = text "HEAD"

end RequestLine

/-- Bytes that are not a space move the position only. -/
theorem scanSpaces_append (size : Nat) (word rest : Bytes) (first second : Nat) (free : sp ∉ word) :
    ∀ i, (scanSpaces size (word ++ rest) i first second).value
      = (scanSpaces size rest (i + word.length) first second).value := by
  induction word with
  | nil => exact fun i => rfl
  | cons c word ih =>
    intro i
    obtain ⟨other, free⟩ := not_or.mp (List.mem_cons.not.mp free)
    rw [List.cons_append, scanSpaces]
    simp only [Counted.bind_value, Counted.ite_value]
    rw [if_pos (Ne.symm other), ih free, List.length_cons, Nat.add_assoc, Nat.add_comm 1]

theorem scanSpaces_free (size : Nat) {word : Bytes} (i first second : Nat) (free : sp ∉ word) :
    (scanSpaces size word i first second).value = some (first, second) := by
  have whole := scanSpaces_append size word [] first second free i
  rw [List.append_nil] at whole
  rw [whole]
  rfl

/-- A space takes the first place that is still unset; there are two. -/
theorem scanSpaces_space (size : Nat) (rest : Bytes) (i first second : Nat) :
    (scanSpaces size (sp :: rest) i first second).value =
      if first = size then (scanSpaces size rest (i + 1) i second).value
      else if second = size then (scanSpaces size rest (i + 1) first i).value
      else none := by
  rw [scanSpaces]
  simp only [Counted.bind_value, Counted.ite_value, ne_eq, not_true_eq_false, if_false]
  rfl

/-- The two spaces of a line of three words. -/
theorem scanSpaces_three {first second third : Bytes} (freeFirst : sp ∉ first)
    (freeSecond : sp ∉ second) (freeThird : sp ∉ third) {size : Nat}
    (length : size = first.length + 1 + second.length + 1 + third.length) :
    (scanSpaces size (first ++ sp :: (second ++ sp :: third)) 0 size size).value
      = some (first.length, first.length + 1 + second.length) := by
  rw [scanSpaces_append size first _ size size freeFirst, Nat.zero_add, scanSpaces_space, if_pos rfl,
    scanSpaces_append size second _ _ size freeSecond, scanSpaces_space, if_neg (by omega), if_pos rfl,
    scanSpaces_free size _ _ _ freeThird]

/-- **Two spaces are found in lines of three words only.** -/
theorem scanSpaces_found {line : Bytes} {size first second : Nat} (whole : size = line.length)
    (found : (scanSpaces size line 0 size size).value = some (first, second)) (set : second ≠ size) :
    ∃ method target version, line = method ++ sp :: (target ++ sp :: version) ∧
      sp ∉ method ∧ sp ∉ target ∧ sp ∉ version := by
  by_cases one : sp ∈ line
  · obtain ⟨method, rest, rfl, freeMethod⟩ := List.eq_append_cons_of_mem one
    rw [List.length_append, List.length_cons] at whole
    rw [scanSpaces_append _ method _ _ _ freeMethod, Nat.zero_add, scanSpaces_space,
      if_pos rfl] at found
    by_cases two : sp ∈ rest
    · obtain ⟨target, version, rfl, freeTarget⟩ := List.eq_append_cons_of_mem two
      rw [List.length_append, List.length_cons] at whole
      refine ⟨method, target, version, rfl, freeMethod, freeTarget, fun three => ?_⟩
      -- a third space ends the loop with nothing
      obtain ⟨before, after, rfl, freeBefore⟩ := List.eq_append_cons_of_mem three
      rw [scanSpaces_append _ target _ _ _ freeTarget, scanSpaces_space, if_neg (by omega), if_pos rfl,
        scanSpaces_append _ before _ _ _ freeBefore, scanSpaces_space, if_neg (by omega),
        if_neg (by omega)] at found
      cases found
    · rw [scanSpaces_free _ _ _ _ two] at found
      simp only [Option.some.injEq, Prod.mk.injEq] at found
      exact absurd found.2.symm set
  · rw [scanSpaces_free _ _ _ _ one] at found
    simp only [Option.some.injEq, Prod.mk.injEq] at found
    exact absurd found.2.symm set

/-- The checks of a line of three words, on the words. -/
theorem validateRequestLine_three {method target version : Bytes} (freeMethod : sp ∉ method)
    (freeTarget : sp ∉ target) (freeVersion : sp ∉ version) :
    (validateRequestLine (method ++ sp :: (target ++ sp :: version))).value =
      if method ≠ [] ∧ method.all isTokenCharacter = true ∧ target.head? = some slash ∧
          target.all isTargetByte = true ∧ version = httpVersion then
        some (RequestLine.cut ⟨method, target⟩)
      else none := by
  have length : (method ++ sp :: (target ++ sp :: version)).length
      = method.length + 1 + target.length + 1 + version.length := by
    simp only [List.length_append, List.length_cons]
    omega
  have word : (method ++ sp :: (target ++ sp :: version)).take method.length = method :=
    List.take_left
  have tail : (method ++ sp :: (target ++ sp :: version)).drop (method.length + 1)
      = target ++ sp :: version := by
    rw [← List.drop_drop, List.drop_left]
    rfl
  have last : (method ++ sp :: (target ++ sp :: version)).drop (method.length + 1 + target.length + 1)
      = version := by
    rw [Nat.add_assoc _ target.length, ← List.drop_drop, tail, ← List.drop_drop, List.drop_left]
    rfl
  have middle : (target ++ sp :: version).take (method.length + 1 + target.length - method.length - 1)
      = target := by
    rw [show method.length + 1 + target.length - method.length - 1 = target.length by omega]
    exact List.take_left
  have head : (method ++ sp :: (target ++ sp :: version)).getD (method.length + 1) nul
      = ((target ++ sp :: version).head?).getD nul := by
    rw [List.getD_eq_getElem?_getD, ← List.head?_drop, tail]
  have size : method.length + 1 + target.length + 1 + version.length
      - (method.length + 1 + target.length) - 1 = version.length := by omega
  unfold validateRequestLine
  simp only [Counted.bind_value, length]
  rw [scanSpaces_three freeMethod freeTarget freeVersion rfl]
  simp only [Counted.ite_value, Counted.bind_value, Counted.pure_value, scanAll_value, word,
    tail, last, middle, head, size]
  by_cases noMethod : method = []
  · rw [if_pos (.inl (by rw [noMethod]; rfl)), if_neg fun h => h.1 noMethod]
  cases target with
  | nil => rw [if_pos (.inr (.inr (by simp))), if_neg fun h => by cases h.2.2.1]
  | cons c target =>
    rw [if_neg (by
      have := List.length_pos_iff.mpr noMethod
      simp only [List.length_cons]
      omega)]
    simp only [List.cons_append, List.head?_cons, Option.getD_some, Option.some.injEq]
    by_cases token : method.all isTokenCharacter = true
    swap
    · simp [token]
    by_cases isSlash : c = slash
    swap
    · simp [isSlash]
    subst isSlash
    by_cases bytes : (slash :: target).all isTargetByte = true
    swap
    · simp only [bytes]
      simp
    by_cases version8 : version.length = httpVersion.length
    swap
    · have other : version ≠ httpVersion := fun h => version8 (congrArg List.length h)
      simp [version8, other]
    rw [scanEqual_value id version httpVersion version8, List.map_id]
    by_cases same : version = httpVersion
    · simp only [token, bytes, same]
      simp [RequestLine.cut, noMethod]
      omega
    · simp [same]

theorem free_of_all {word : Bytes} {test : UInt8 → Bool} {c : UInt8} (all : word.all test = true)
    (other : test c = false) : c ∉ word := by
  intro member
  rw [List.all_eq_true.mp all c member] at other
  cases other

/-- **The request line is `method SP target SP HTTP/1.1`.** -/
theorem validateRequestLine_iff (line : Bytes) (cut : RequestLineCut) :
    (validateRequestLine line).value = some cut ↔
      ∃ l : RequestLine, l.WellFormed ∧ line = l.bytes ∧ cut = l.cut := by
  have version : sp ∉ httpVersion := by decide
  refine ⟨fun valid => ?_, ?_⟩
  · have words : ∃ method target version, line = method ++ sp :: (target ++ sp :: version) ∧
        sp ∉ method ∧ sp ∉ target ∧ sp ∉ version := by
      unfold validateRequestLine at valid
      simp only [Counted.bind_value] at valid
      cases found : (scanSpaces line.length line 0 line.length line.length).value with
      | none => rw [found] at valid; cases valid
      | some spaces =>
        refine scanSpaces_found rfl found fun unset => ?_
        rw [found] at valid
        simp only [unset, true_or, or_true, if_true] at valid
        cases valid
    obtain ⟨method, target, version, rfl, freeMethod, freeTarget, freeVersion⟩ := words
    rw [validateRequestLine_three freeMethod freeTarget freeVersion] at valid
    split at valid
    · next checks =>
      obtain ⟨some, token, slash, bytes, rfl⟩ := checks
      exact ⟨⟨method, target⟩, ⟨some, token, slash, bytes⟩, rfl, (Option.some.inj valid).symm⟩
    · cases valid
  · rintro ⟨l, wellFormed, rfl, rfl⟩
    have freeMethod : sp ∉ l.method := free_of_all wellFormed.token (by decide)
    have freeTarget : sp ∉ l.target := free_of_all wellFormed.target (by decide)
    unfold RequestLine.bytes
    rw [validateRequestLine_three freeMethod freeTarget version]
    exact if_pos ⟨wellFormed.method, wellFormed.token, wellFormed.slash, wellFormed.target, rfl⟩

/-! ### Field lines -/

/-- A field line: the name, and everything after the first colon. -/
structure FieldLine where
  name : Bytes
  value : Bytes

namespace FieldLine

def bytes (l : FieldLine) : Bytes := l.name ++ colon :: l.value

structure WellFormed (l : FieldLine) : Prop where
  name : l.name ≠ []
  token : l.name.all isTokenCharacter = true
  value : l.value.all isValueByte = true

/-- The value without the whitespace around it. -/
def trimmed (l : FieldLine) : Bytes := trimOws l.value

/-- The field is named so, in any case. -/
def Named (l : FieldLine) (name : Bytes) : Prop := l.name.map lowerAscii = name

instance (l : FieldLine) (name : Bytes) : Decidable (l.Named name) := by
  unfold Named
  infer_instance

/-- The field name as one of the names the parser knows. -/
def known (l : FieldLine) : Option HeaderName := headerNames.find? fun name => l.Named name.text

end FieldLine

theorem equalsAsciiCaseInsensitive_value (value expected : Bytes) :
    (equalsAsciiCaseInsensitive value expected).value = decide (value.map lowerAscii = expected) := by
  unfold equalsAsciiCaseInsensitive
  rw [Counted.ite_value]
  by_cases same : value.length = expected.length
  · rw [if_neg (by simpa using same), scanEqual_value lowerAscii value expected same]
  · have other : value.map lowerAscii ≠ expected := fun h => same (by rw [← h, List.length_map])
    simp [same, other]

theorem matchName_value (name : Bytes) (names : List HeaderName) :
    (matchName name names).value = names.find? fun known => name.map lowerAscii = known.text := by
  induction names with
  | nil => rfl
  | cons candidate rest ih =>
    rw [matchName]
    simp only [Counted.bind_value, Counted.ite_value, Counted.pure_value,
      equalsAsciiCaseInsensitive_value, ih]
    by_cases same : name.map lowerAscii = candidate.text
    · simp [same]
    · simp [same]

theorem headerName_text_injective : Function.Injective HeaderName.text := by
  intro a b same
  cases a <;> cases b <;> first | rfl | exact absurd same (by decide)

/-- **The parser finds the name the field has.** -/
theorem FieldLine.known_eq_some (l : FieldLine) (name : HeaderName) :
    l.known = some name ↔ l.Named name.text := by
  refine ⟨fun found => ?_, fun named => ?_⟩
  · simpa using List.find?_some found
  · have member : name ∈ headerNames := by cases name <;> decide
    cases found : l.known with
    | none => exact absurd named (by simpa using List.find?_eq_none.mp found name member)
    | some other =>
      have otherNamed : l.Named other.text := by simpa using List.find?_some found
      rw [headerName_text_injective (otherNamed.symm.trans named)]

/-- The position of the first colon. -/
theorem findIdx_colon {name : Bytes} (value : Bytes) (free : colon ∉ name) :
    (name ++ colon :: value).findIdx (fun c => decide (c = colon)) = name.length := by
  induction name with
  | nil => simp [List.findIdx_cons]
  | cons c name ih =>
    obtain ⟨other, free⟩ := not_or.mp (List.mem_cons.not.mp free)
    rw [List.cons_append, List.findIdx_cons, ih free]
    simp [Ne.symm other]

/-- The names a trailer field may have. -/
def FieldLine.IsTrailer (l : FieldLine) : Prop :=
  l.Named (text "x-checksum") ∨ l.Named (text "x-trace-id")

instance (l : FieldLine) : Decidable l.IsTrailer := by
  unfold FieldLine.IsTrailer
  infer_instance

/-- **A well-formed field line is judged by its name and its trimmed value.** -/
theorem validateHeader_bytes {l : FieldLine} (wellFormed : l.WellFormed) (trailers : Bool)
    (h : HeaderFields) :
    (validateHeader l.bytes trailers h).value =
      if trailers then (decide l.IsTrailer, h)
      else (applyHeader l.known l.trimmed (l.value.any fun c => !isOws c) h).value := by
  have freeColon : colon ∉ l.name := free_of_all wellFormed.token (by decide)
  have position : l.bytes.findIdx (fun c => decide (c = colon)) = l.name.length :=
    findIdx_colon l.value freeColon
  have name : l.bytes.take l.name.length = l.name := List.take_left
  have value : l.bytes.drop (l.name.length + 1) = l.value := by
    unfold FieldLine.bytes
    rw [← List.drop_drop, List.drop_left]
    rfl
  have head : (decide (l.bytes.head? = some sp) || decide (l.bytes.head? = some htab)) = false := by
    obtain ⟨c, rest, first⟩ := List.exists_cons_of_ne_nil wellFormed.name
    have token : isTokenCharacter c = true :=
      List.all_eq_true.mp wellFormed.token c (by rw [first]; exact List.mem_cons_self)
    unfold FieldLine.bytes
    rw [first]
    simp only [List.cons_append, List.head?_cons, Option.some.injEq, Bool.or_eq_false_iff,
      decide_eq_false_iff_not]
    refine ⟨fun h => ?_, fun h => ?_⟩ <;> rw [h] at token <;> revert token <;> decide
  have inside : (decide (l.name.length = 0) || decide (l.name.length = l.bytes.length)) = false := by
    have some := List.length_pos_iff.mpr wellFormed.name
    unfold FieldLine.bytes
    simp only [List.length_append, List.length_cons, Bool.or_eq_false_iff, decide_eq_false_iff_not]
    omega
  unfold validateHeader
  simp only [Counted.ite_value, Counted.bind_value, Counted.pure_value, scanAll_value, head, position,
    inside, name, value, wellFormed.token, wellFormed.value, Bool.not_true, Bool.false_eq_true,
    if_false, equalsAsciiCaseInsensitive_value, matchName_value]
  cases trailers with
  | false => rfl
  | true =>
    simp only [if_true, FieldLine.IsTrailer, FieldLine.Named]
    by_cases checksum : l.name.map lowerAscii = text "x-checksum"
    · simp [checksum]
    · simp [checksum]

/-- **No other line is accepted.** -/
theorem validateHeader_accepts {line : Bytes} {trailers : Bool} {h : HeaderFields}
    (accepted : (validateHeader line trailers h).value.1 = true) :
    ∃ l : FieldLine, l.WellFormed ∧ line = l.bytes := by
  unfold validateHeader at accepted
  simp only [Counted.ite_value, Counted.bind_value, Counted.pure_value, scanAll_value] at accepted
  split at accepted
  · cases accepted
  split at accepted
  · cases accepted
  next inside =>
  simp only [Bool.or_eq_true, decide_eq_true_eq, not_or] at inside
  have member : colon ∈ line := by
    have bound := List.findIdx_lt_length.mp (lt_of_le_of_ne List.findIdx_le_length inside.2)
    simpa using bound
  obtain ⟨name, value, rfl, free⟩ := List.eq_append_cons_of_mem member
  have rest : (name ++ colon :: value).drop (name.length + 1) = value := by
    rw [← List.drop_drop, List.drop_left]
    rfl
  rw [findIdx_colon value free] at inside accepted
  rw [List.take_left, rest] at accepted
  split at accepted
  · cases accepted
  next token =>
  split at accepted
  · cases accepted
  next bytes =>
  simp only [Bool.not_eq_true', Bool.not_eq_false] at token bytes
  exact ⟨⟨name, value⟩, ⟨fun empty => inside.1 (by rw [show name = [] from empty]; rfl), token, bytes⟩,
    rfl⟩

/-! ### Numbers -/

/-- The decimal digits read on from a number. -/
def decimalFrom (total : Nat) (digits : Bytes) : Nat :=
  digits.foldl (fun total c => total * 10 + (c - 0x30).toNat) total

def decimal (digits : Bytes) : Nat := decimalFrom 0 digits

theorem le_decimalFrom (digits : Bytes) : ∀ total, total ≤ decimalFrom total digits := by
  induction digits with
  | nil => exact fun total => le_rfl
  | cons c digits ih =>
    intro total
    refine le_trans ?_ (ih (total * 10 + (c - 0x30).toNat))
    omega

theorem digit_le_nine {c : UInt8} : isDigit c = true → (c - 0x30).toNat ≤ 9 := by
  refine forall_uint8 (P := fun c => isDigit c = true → (c - 0x30).toNat ≤ 9) ?_ c
  decide +kernel

/-- **The overflow test is exact**: digits are accepted as far as the value fits 64 bits. -/
theorem scanContentLength_value (digits : Bytes) : ∀ total, total ≤ uint64Max →
    ((scanContentLength digits total).value.1 = true ↔
        digits.all isDigit = true ∧ decimalFrom total digits ≤ uint64Max) ∧
      ((scanContentLength digits total).value.1 = true →
        (scanContentLength digits total).value.2 = decimalFrom total digits) := by
  induction digits with
  | nil => exact fun total fits => ⟨⟨fun _ => ⟨rfl, fits⟩, fun _ => rfl⟩, fun _ => rfl⟩
  | cons c digits ih =>
    intro total fits
    have digit : (c < 0x30 || 0x39 < c) = !isDigit c :=
      forall_uint8 (P := fun c => (c < 0x30 || 0x39 < c) = !isDigit c) (by decide +kernel) c
    rw [scanContentLength]
    simp only [Counted.bind_value, Counted.ite_value, Counted.pure_value, digit]
    by_cases isDigit1 : isDigit c = true
    swap
    · simp [isDigit1]
    have nine := digit_le_nine isDigit1
    have exact1 : total > (uint64Max - (c - 0x30).toNat) / 10 ↔
        ¬total * 10 + (c - 0x30).toNat ≤ uint64Max := by
      unfold uint64Max at *
      omega
    have grow : total * 10 + (c - 0x30).toNat ≤ decimalFrom total (c :: digits) :=
      le_decimalFrom digits _
    simp only [isDigit1, Bool.not_true, Bool.false_eq_true, if_false, exact1]
    by_cases next : total * 10 + (c - 0x30).toNat ≤ uint64Max
    · rw [if_neg (not_not.mpr next)]
      obtain ⟨accepts, value⟩ := ih _ next
      refine ⟨?_, value⟩
      rw [accepts, List.all_cons, isDigit1, Bool.true_and]
      rfl
    · rw [if_pos next]
      exact ⟨⟨fun h => Bool.noConfusion h, fun h => absurd (grow.trans h.2) next⟩,
        fun h => Bool.noConfusion h⟩

/-! ### Lists -/

/-- The elements of a comma list, without the whitespace around them. -/
def elements (value : Bytes) : List Bytes := (value.splitOn comma).map trimOws

/-- An element, in any case. -/
def Spelled (element word : Bytes) : Prop := element.map lowerAscii = word

instance (element word : Bytes) : Decidable (Spelled element word) := by
  unfold Spelled
  infer_instance

def isChunked (element : Bytes) : Bool := Spelled element (text "chunked")

/-- A non-empty token. -/
def isToken (element : Bytes) : Bool := !element.isEmpty && element.all isTokenCharacter

/-- Non-empty tokens of which the last, and only the last, is `chunked`. -/
def CodingList (value : Bytes) : Prop :=
  (elements value).all isToken = true ∧ ∃ others last, elements value = others ++ [last] ∧
    isChunked last = true ∧ ∀ other ∈ others, isChunked other = false

theorem classifyToken_coding (flags : TokenFlags) (token : Bytes) :
    (classifyToken false flags token).value =
      if flags.chunked then (false, flags)
      else if isChunked token then (true, { flags with chunked := true })
      else (true, { flags with unsupported := true }) := by
  unfold classifyToken isChunked Spelled
  simp only [Bool.false_eq_true, if_false, Counted.ite_value, Counted.bind_value, Counted.pure_value,
    equalsAsciiCaseInsensitive_value]

theorem scanTokenList_cons (trailerDeclaration : Bool) (element : Bytes) (rest : List Bytes)
    (flags : TokenFlags) :
    (scanTokenList trailerDeclaration (element :: rest) flags).value =
      if isToken (trimOws element) then
        if (classifyToken trailerDeclaration flags (trimOws element)).value.1 then
          (scanTokenList trailerDeclaration rest
            (classifyToken trailerDeclaration flags (trimOws element)).value.2).value
        else (false, (classifyToken trailerDeclaration flags (trimOws element)).value.2)
      else (false, flags) := by
  rw [scanTokenList]
  unfold isToken trimHeaderWhitespace
  simp only [Counted.bind_value, Counted.ite_value, Counted.pure_value, scanAll_value]
  by_cases empty : (trimOws element).isEmpty = true
  · simp [empty]
  by_cases token : (trimOws element).all isTokenCharacter = true
  · simp only [empty, token]
    by_cases ok : (classifyToken trailerDeclaration flags (trimOws element)).value.1 = true
    · simp [ok]
    · simp [ok]
  · simp [empty, token]

/-- After `chunked` nothing may follow. -/
theorem scanTokenList_after_chunked (flags : TokenFlags) (elements : List Bytes)
    (chunked : flags.chunked = true) :
    (scanTokenList false elements flags).value.1 = true ↔ elements = [] := by
  cases elements with
  | nil => exact ⟨fun _ => rfl, fun _ => rfl⟩
  | cons element rest =>
    rw [scanTokenList_cons, classifyToken_coding, if_pos chunked]
    split <;> simp

/-- The loop over the codings: the verdict together with `chunked`, and the flag of the codings that
are not supported. -/
theorem scanTokenList_codings (raw : List Bytes) : ∀ flags : TokenFlags, flags.chunked = false →
    let scanned := (scanTokenList false raw flags).value
    (scanned.1 = true ∧ scanned.2.chunked = true ↔
      (raw.map trimOws).all isToken = true ∧ ∃ others last, raw.map trimOws = others ++ [last] ∧
        isChunked last = true ∧ ∀ other ∈ others, isChunked other = false) ∧
    (scanned.1 = true → scanned.2.unsupported
      = (flags.unsupported || (raw.map trimOws).any fun element => !isChunked element)) := by
  induction raw with
  | nil =>
    intro flags open1
    refine ⟨⟨fun h => absurd h.2 (by simp [scanTokenList, open1]), ?_⟩, fun _ => ?_⟩
    · rintro ⟨-, others, last, empty, -⟩
      exact absurd empty.symm (List.append_ne_nil_of_right_ne_nil _ (List.cons_ne_nil _ _))
    · simp [scanTokenList]
  | cons element rest ih =>
    intro flags open1
    have coding := (classifyToken_coding flags (trimOws element)).trans
      (if_neg (by rw [open1]; exact Bool.false_ne_true))
    dsimp only
    rw [scanTokenList_cons, coding]
    by_cases token : isToken (trimOws element) = true
    swap
    · rw [if_neg token]
      refine ⟨⟨fun h => Bool.noConfusion h.1, fun h => ?_⟩, fun h => Bool.noConfusion h⟩
      rw [List.map_cons, List.all_cons, Bool.and_eq_true] at h
      exact absurd h.1.1 token
    rw [if_pos token]
    by_cases chunked : isChunked (trimOws element) = true
    · rw [if_pos chunked]
      have after := scanTokenList_after_chunked { flags with chunked := true } rest rfl
      simp only [if_true]
      refine ⟨⟨fun h => ?_, fun h => ?_⟩, fun h => ?_⟩
      · obtain rfl := after.mp h.1
        exact ⟨by simp [token], [], _, rfl, chunked, fun other member => by cases member⟩
      · obtain ⟨-, others, last, split, -, alone⟩ := h
        cases others with
        | nil =>
          obtain ⟨-, empty⟩ := List.cons.inj split
          rw [List.map_eq_nil_iff.mp empty]
          exact ⟨rfl, rfl⟩
        | cons other others =>
          obtain ⟨same, -⟩ := List.cons.inj split
          have := alone other List.mem_cons_self
          rw [← same, chunked] at this
          cases this
      · obtain rfl := after.mp h
        simp [scanTokenList, chunked]
    · rw [if_neg chunked]
      obtain ⟨accepts, unsupported⟩ := ih { flags with unsupported := true } open1
      simp only [if_true]
      refine ⟨accepts.trans ⟨?_, ?_⟩, fun h => ?_⟩
      · rintro ⟨tokens, others, last, split, isLast, alone⟩
        refine ⟨by simp [token, tokens], trimOws element :: others, last, by simp [split], isLast, ?_⟩
        exact List.forall_mem_cons.mpr ⟨by simpa using chunked, alone⟩
      · rintro ⟨tokens, others, last, split, isLast, alone⟩
        rw [List.map_cons, List.all_cons, Bool.and_eq_true] at tokens
        cases others with
        | nil =>
          obtain ⟨same, -⟩ := List.cons.inj split
          exact absurd (same ▸ isLast) chunked
        | cons other others =>
          obtain ⟨-, rest⟩ := List.cons.inj split
          exact ⟨tokens.2, others, last, rest, isLast,
            fun o member => alone o (List.mem_cons_of_mem _ member)⟩
      · rw [unsupported h]
        simp [chunked]

/-- **`Transfer-Encoding` values.** -/
theorem validateTokenList_codings (value : Bytes) (h : HeaderFields) :
    ((validateTokenList value false h).value.1 = true ↔ CodingList value) ∧
      ((validateTokenList value false h).value.1 = true → (validateTokenList value false h).value.2
        = { h with unsupportedCoding :=
              h.unsupportedCoding || (elements value).any fun element => !isChunked element }) := by
  obtain ⟨accepts, unsupported⟩ := scanTokenList_codings (value.splitOn comma) {} rfl
  unfold validateTokenList
  simp only [Counted.bind_value, Counted.pure_value, Bool.false_or, Bool.and_eq_true]
  refine ⟨accepts, fun ok => ?_⟩
  rw [unsupported ok.1]
  rfl

/-- The two fields a `Trailer` field may declare, each once. -/
def TrailerList (value : Bytes) : Prop :=
  (∀ element ∈ elements value, Spelled element (text "x-checksum") ∨
      Spelled element (text "x-trace-id")) ∧
    ((elements value).map (·.map lowerAscii)).Nodup

theorem classifyToken_trailer (flags : TokenFlags) (token : Bytes) :
    (classifyToken true flags token).value =
      if Spelled token (text "x-checksum") then (!flags.checksum, { flags with checksum := true })
      else if Spelled token (text "x-trace-id") then (!flags.trace, { flags with trace := true })
      else (false, flags) := by
  unfold classifyToken Spelled
  simp only [if_true, Counted.ite_value, Counted.bind_value, Counted.pure_value,
    equalsAsciiCaseInsensitive_value, decide_eq_true_eq]

theorem isToken_of_spelled {element word : Bytes} (spelled : Spelled element word)
    (token : isToken word = true) : isToken element = true := by
  subst spelled
  unfold isToken at token ⊢
  rw [List.isEmpty_map, Bool.and_eq_true, List.all_map] at token
  rw [Bool.and_eq_true]
  refine ⟨token.1, List.all_eq_true.mpr fun c member => ?_⟩
  exact token_of_lowerAscii c (List.all_eq_true.mp token.2 c member)

/-- The loop over the declared trailers. -/
theorem scanTokenList_trailers (raw : List Bytes) : ∀ flags : TokenFlags,
    let scanned := (scanTokenList true raw flags).value
    let words := (raw.map trimOws).map (·.map lowerAscii)
    (scanned.1 = true ↔ (∀ element ∈ raw.map trimOws,
        Spelled element (text "x-checksum") ∨ Spelled element (text "x-trace-id")) ∧ words.Nodup ∧
      (flags.checksum = true → text "x-checksum" ∉ words) ∧
      (flags.trace = true → text "x-trace-id" ∉ words)) ∧
    scanned.2.unsupported = flags.unsupported := by
  have distinct : text "x-trace-id" ≠ text "x-checksum" := by decide
  induction raw with
  | nil => exact fun flags => ⟨by simp [scanTokenList], rfl⟩
  | cons element rest ih =>
    intro flags
    dsimp only at ih ⊢
    rw [scanTokenList_cons, classifyToken_trailer, List.map_cons, List.forall_mem_cons, List.map_cons,
      List.nodup_cons, List.mem_cons, List.mem_cons]
    by_cases checksum : Spelled (trimOws element) (text "x-checksum")
    · have word : (trimOws element).map lowerAscii = text "x-checksum" := checksum
      rw [if_pos (isToken_of_spelled checksum (by decide)), if_pos checksum, word]
      obtain ⟨accepts, unsupported⟩ := ih { flags with checksum := true }
      by_cases again : flags.checksum = true
      · simp [again]
      · simp only [again, Bool.not_false, if_true]
        refine ⟨accepts.trans ⟨?_, ?_⟩, unsupported⟩
        · rintro ⟨all, nodup, fresh, old⟩
          exact ⟨⟨.inl checksum, all⟩, ⟨fresh rfl, nodup⟩, fun seen => Bool.noConfusion seen,
            fun seen member => member.elim distinct (old seen)⟩
        · rintro ⟨⟨-, all⟩, ⟨fresh, nodup⟩, -, old⟩
          exact ⟨all, nodup, fun _ => fresh, fun seen member => old seen (.inr member)⟩
    by_cases trace : Spelled (trimOws element) (text "x-trace-id")
    · have word : (trimOws element).map lowerAscii = text "x-trace-id" := trace
      rw [if_pos (isToken_of_spelled trace (by decide)), if_neg checksum, if_pos trace, word]
      obtain ⟨accepts, unsupported⟩ := ih { flags with trace := true }
      by_cases again : flags.trace = true
      · simp [again]
      · simp only [again, Bool.not_false, if_true]
        refine ⟨accepts.trans ⟨?_, ?_⟩, unsupported⟩
        · rintro ⟨all, nodup, old, fresh⟩
          exact ⟨⟨.inr trace, all⟩, ⟨fresh rfl, nodup⟩,
            fun seen member => member.elim distinct.symm (old seen), fun seen => Bool.noConfusion seen⟩
        · rintro ⟨⟨-, all⟩, ⟨fresh, nodup⟩, old, -⟩
          exact ⟨all, nodup, fun seen member => old seen (.inr member), fun _ => fresh⟩
    · rw [if_neg checksum, if_neg trace]
      simp only [checksum, trace]
      split <;> simp

/-- **`Trailer` values.** -/
theorem validateTokenList_trailers (value : Bytes) (h : HeaderFields) :
    ((validateTokenList value true h).value.1 = true ↔ TrailerList value) ∧
      (validateTokenList value true h).value.2 = h := by
  obtain ⟨accepts, unsupported⟩ := scanTokenList_trailers (value.splitOn comma) {}
  unfold validateTokenList
  simp only [Counted.bind_value, Counted.pure_value, Bool.true_or, Bool.and_true, unsupported,
    Bool.or_false]
  refine ⟨accepts.trans ?_, trivial⟩
  unfold TrailerList elements
  simp

/-- **`Connection` values**: elements may be empty, and `close` is remembered. -/
theorem scanConnection_value (raw : List Bytes) : ∀ closeRequested : Bool,
    ((scanConnection raw closeRequested).value.1 = true ↔
        ∀ element ∈ raw.map trimOws, element.all isTokenCharacter = true) ∧
      ((scanConnection raw closeRequested).value.1 = true →
        (scanConnection raw closeRequested).value.2 =
          (closeRequested || (raw.map trimOws).any fun element => Spelled element (text "close"))) := by
  induction raw with
  | nil => exact fun closeRequested => by simp [scanConnection]
  | cons element rest ih =>
    intro closeRequested
    have trimmed : (trimHeaderWhitespace element).value = trimOws element := rfl
    rw [scanConnection, List.map_cons, List.forall_mem_cons, List.any_cons]
    simp only [Counted.bind_value, Counted.ite_value, Counted.pure_value, scanAll_value, trimmed,
      equalsAsciiCaseInsensitive_value, decide_eq_true_eq]
    by_cases token : (trimOws element).all isTokenCharacter = true
    swap
    · simp [token]
    simp only [token, Bool.not_true, Bool.false_eq_true, if_false, true_and]
    by_cases close : (trimOws element).map lowerAscii = text "close"
    · rw [if_pos close]
      obtain ⟨accepts, value⟩ := ih true
      exact ⟨accepts, fun ok => by rw [value ok]; simp [Spelled, close]⟩
    · rw [if_neg close]
      obtain ⟨accepts, value⟩ := ih closeRequested
      exact ⟨accepts, fun ok => by rw [value ok]; simp [Spelled, close]⟩

end HpServer.Http
