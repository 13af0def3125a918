/-
**Ranges of a file, read and sent.**

* `ByteRange` — a range as it is asked for; `WrittenRange`, `RangeField` — as it is written.
* `ByteRange.select` — which bytes of a file of some size it selects, if any.
* `parseUnsigned_iff` — **the decimals that are read are those of 64 bits.**
* `selectByteRange_eq` — the source's function reads a range and selects.
* `byte_range_selection` — with the text of `Content-Range` and the bytes of the file that are sent.
-/

import HpServer.Http.HeaderLines
import HpServer.Http.StaticFileService

namespace HpServer.Http

/-! ### Decimals of 64 bits -/

/-- A decimal of 64 bits. -/
structure Decimal64 (digits : Bytes) (n : Nat) : Prop where
  present : digits ≠ []
  numeric : ∀ b ∈ digits, isDigit b = true
  value : decimal digits = n
  fits : n ≤ uint64Max

theorem scanUnsigned_iff {digits : Bytes} {total n : Nat} (fits : total ≤ uint64Max) :
    scanUnsigned digits total = some n
      ↔ (∀ b ∈ digits, isDigit b = true) ∧ decimalFrom total digits = n ∧ n ≤ uint64Max := by
  induction digits generalizing total with
  | nil =>
    simp only [scanUnsigned, Option.some.injEq, List.not_mem_nil, false_implies, implies_true, true_and]
    exact ⟨fun same => ⟨same, same ▸ fits⟩, fun same => same.1⟩
  | cons c digits ih =>
    rw [scanUnsigned, List.forall_mem_cons]
    by_cases digit : isDigit c = true
    case neg => simp [digit]
    have nine := digit_le_nine digit
    have grows : total * 10 + (c - 0x30).toNat ≤ decimalFrom total (c :: digits) := le_decimalFrom digits _
    rw [digit, if_neg (by decide)]
    dsimp only
    split
    case isTrue large =>
      have past : uint64Max < total * 10 + (c - 0x30).toNat := by
        unfold uint64Max at *
        omega
      refine ⟨nofun, ?_⟩
      rintro ⟨-, rfl, small⟩
      omega
    case isFalse small =>
      rw [ih (by unfold uint64Max at *; omega)]
      simp only [true_and]
      rfl

/-- **The decimals that are read are those of 64 bits.** -/
theorem parseUnsigned_iff {digits : Bytes} {n : Nat} : parseUnsigned digits = some n ↔ Decimal64 digits n := by
  unfold parseUnsigned
  split
  case isTrue none => exact ⟨nofun, fun decimal => absurd none decimal.present⟩
  case isFalse present =>
    rw [scanUnsigned_iff (Nat.zero_le _)]
    exact ⟨fun ⟨digits, value, fits⟩ => ⟨present, digits, value, fits⟩,
      fun decimal => ⟨decimal.numeric, decimal.value, decimal.fits⟩⟩

theorem Decimal64.noDash {digits : Bytes} {n : Nat} (decimal : Decimal64 digits n) : dash ∉ digits := fun inside =>
  absurd (decimal.numeric dash inside) (by decide)

/-! ### A range -/

inductive ByteRange where
  | between (first last : Nat)
  | openEnded (first : Nat)
  | suffix (count : Nat)
  deriving DecidableEq, Repr

/-- The range behind the unit. -/
@[mk_iff]
inductive WrittenRange : ByteRange → Bytes → Prop
  | between {first last : Nat} {before behind : Bytes} : Decimal64 before first → Decimal64 behind last →
      first ≤ last → WrittenRange (.between first last) (before ++ dash :: behind)
  | openEnded {first : Nat} {before : Bytes} : Decimal64 before first → WrittenRange (.openEnded first) (before ++ [dash])
  | suffix {count : Nat} {behind : Bytes} : Decimal64 behind count → WrittenRange (.suffix count) (dash :: behind)

/-- A value of the field `Range` with a single range of bytes. -/
def RangeField (range : ByteRange) (value : Bytes) : Prop :=
  ∃ unit rest, unit.map lowerAscii = text "bytes=" ∧ value = unit ++ rest ∧ WrittenRange range rest

/-- Where the selected bytes begin and how many they are. -/
def ByteRange.select (size : Nat) : ByteRange → Option (Nat × Nat)
  | .between first last => if first < size then some (first, min last (size - 1) - first + 1) else none
  | .openEnded first => if first < size then some (first, size - first) else none
  | .suffix count => if 0 < count ∧ 0 < size then some (size - min count size, min count size) else none

/-! ### The source's function -/

/-- The range of a value, as the source reads it. -/
def readRange (value : Bytes) : Option ByteRange :=
  if value.length < 6 || (value.take 6).map lowerAscii ≠ text "bytes=" then none
  else
    let range := value.drop 6
    if dash ∉ range then none
    else
      let firstText := (cutAt dash range).1
      let lastText := (cutAt dash range).2
      if firstText = [] then (parseUnsigned lastText).map .suffix
      else
        (parseUnsigned firstText).bind fun first =>
          if lastText = [] then some (.openEnded first)
          else (parseUnsigned lastText).bind fun last => if last < first then none else some (.between first last)

def selectionOf (size : Nat) : Option ByteRange → ByteRangeSelection
  | none => { length := size }
  | some range =>
    match range.select size with
    | none => { selection := .unsatisfiable }
    | some (offset, length) => { selection := .partialContent, offset := offset, length := length }

theorem selectFrom_between (first last size : Nat) :
    selectFrom first (some last) size = selectionOf size (some (.between first last)) := by
  unfold selectFrom selectionOf ByteRange.select
  by_cases inside : first < size
  · rw [if_neg (by simp only [Bool.or_eq_true, decide_eq_true_eq]; omega)]
    simp only [if_pos inside]
  · rw [if_pos (by simp only [Bool.or_eq_true, decide_eq_true_eq]; omega)]
    simp only [if_neg inside]

theorem selectFrom_openEnded (first size : Nat) :
    selectFrom first none size = selectionOf size (some (.openEnded first)) := by
  unfold selectFrom selectionOf ByteRange.select
  by_cases inside : first < size
  · rw [if_neg (by simp only [Bool.or_eq_true, decide_eq_true_eq]; omega)]
    simp only [if_pos inside, ByteRangeSelection.mk.injEq, true_and]
    omega
  · rw [if_pos (by simp only [Bool.or_eq_true, decide_eq_true_eq]; omega)]
    simp only [if_neg inside]

theorem selectSuffix_eq (count size : Nat) : selectSuffix count size = selectionOf size (some (.suffix count)) := by
  unfold selectSuffix selectionOf ByteRange.select
  by_cases inside : 0 < count ∧ 0 < size
  · rw [if_neg (by simp only [Bool.or_eq_true, decide_eq_true_eq]; omega)]
    simp only [if_pos inside]
  · rw [if_pos (by simp only [Bool.or_eq_true, decide_eq_true_eq]; omega)]
    simp only [if_neg inside]

/-- **The source reads a range and selects by it.** -/
theorem selectByteRange_eq (value : Bytes) (size : Nat) :
    selectByteRange value size = selectionOf size (readRange (trimOws value)) := by
  unfold selectByteRange readRange
  dsimp only
  split
  case isTrue => rfl
  case isFalse =>
  split
  case isTrue => rfl
  case isFalse =>
  split
  case isTrue =>
    cases parseUnsigned (cutAt dash ((trimOws value).drop 6)).2 with
    | none => rfl
    | some count => exact selectSuffix_eq count size
  case isFalse =>
  cases parseUnsigned (cutAt dash ((trimOws value).drop 6)).1 with
  | none => rfl
  | some first =>
    rw [Option.bind_some]
    dsimp only
    split
    case isTrue => exact selectFrom_openEnded first size
    case isFalse =>
    cases parseUnsigned (cutAt dash ((trimOws value).drop 6)).2 with
    | none => rfl
    | some last =>
      rw [Option.bind_some]
      dsimp only
      split
      case isTrue => rfl
      case isFalse => exact selectFrom_between first last size

/-- **A range is read where one is written.** -/
theorem readRange_iff {value : Bytes} {range : ByteRange} : readRange value = some range ↔ RangeField range value := by
  constructor
  · intro read
    unfold readRange at read
    dsimp only at read
    split at read
    case isTrue => cases read
    case isFalse named =>
    simp only [Bool.or_eq_true, decide_eq_true_eq, not_or, ne_eq, not_not] at named
    refine ⟨value.take 6, value.drop 6, named.2, (List.take_append_drop 6 value).symm, ?_⟩
    split at read
    case isTrue => cases read
    case isFalse present =>
    obtain ⟨absent, ⟨whole, -⟩ | whole⟩ := cutAt_cases dash (value.drop 6)
    · exact absurd (whole ▸ not_not.mp present) absent
    rw [whole]
    split at read
    case isTrue none =>
      obtain ⟨count, decimal, rfl⟩ := Option.map_eq_some_iff.mp read
      rw [none]
      exact .suffix (parseUnsigned_iff.mp decimal)
    case isFalse =>
    obtain ⟨first, decimal, read⟩ := Option.bind_eq_some_iff.mp read
    split at read
    case isTrue none =>
      rw [none, ← Option.some.inj read]
      exact .openEnded (parseUnsigned_iff.mp decimal)
    case isFalse =>
    obtain ⟨last, decimal', read⟩ := Option.bind_eq_some_iff.mp read
    split at read
    case isTrue => cases read
    case isFalse order =>
      rw [← Option.some.inj read]
      exact .between (parseUnsigned_iff.mp decimal) (parseUnsigned_iff.mp decimal') (Nat.le_of_not_lt order)
  · rintro ⟨unit, rest, named, rfl, written⟩
    have size : unit.length = 6 := by rw [← List.length_map (f := lowerAscii), named]; rfl
    have start : (unit ++ rest).take 6 = unit := List.take_left' size
    have behind : (unit ++ rest).drop 6 = rest := List.drop_left' size
    have present : dash ∈ rest := by cases written <;> simp
    unfold readRange
    dsimp only
    rw [start, behind, if_neg (by simp [named, size]), if_neg (not_not_intro present)]
    cases written with
    | between first last order =>
      rw [cutAt_append first.noDash, if_neg first.present, parseUnsigned_iff.mpr first, Option.bind_some,
        if_neg last.present, parseUnsigned_iff.mpr last, Option.bind_some, if_neg (Nat.not_lt.mpr order)]
    | openEnded first =>
      rw [cutAt_append first.noDash, if_neg first.present, parseUnsigned_iff.mpr first, Option.bind_some, if_pos rfl]
    | suffix count =>
      rw [← List.nil_append (dash :: _), cutAt_append List.not_mem_nil, if_pos rfl, parseUnsigned_iff.mpr count]
      rfl

/-! ### What is sent -/

/-- The selection of `length` bytes from `offset` on. -/
def partialSelection (offset length : Nat) : ByteRangeSelection :=
  { selection := .partialContent
    offset := offset
    length := length }

section Selection

variable {size : Nat} {read : Option ByteRange}

theorem selectionOf_partial {offset length : Nat} :
    selectionOf size read = partialSelection offset length
      ↔ ∃ range, read = some range ∧ range.select size = some (offset, length) := by
  cases read with
  | none => simp [selectionOf, partialSelection]
  | some range => cases chosen : range.select size <;> simp [selectionOf, chosen, partialSelection, Prod.ext_iff]

theorem selectionOf_unsatisfiable :
    (selectionOf size read).selection = .unsatisfiable ↔ ∃ range, read = some range ∧ range.select size = none := by
  cases read with
  | none => simp [selectionOf]
  | some range => cases chosen : range.select size <;> simp [selectionOf, chosen]

theorem selectionOf_full :
    selectionOf size read = { selection := .full, offset := 0, length := size } ↔ ¬ ∃ range, read = some range := by
  cases read with
  | none => simp [selectionOf]
  | some range => cases chosen : range.select size <;> simp [selectionOf, chosen]

end Selection

/-- The bytes of a list, read as an array. -/
theorem slice_getD {contents : Bytes} {start count : Nat} (inside : start + count ≤ contents.length) :
    slice (fun i => contents.getD i 0) start count = (contents.drop start).take count := by
  have all : slice (fun i => contents.getD i 0) 0 contents.length = contents := by
    refine List.ext_getElem (slice_length _ _ _) fun i below inside => ?_
    simp [slice, inside]
  rw [slice_part _ contents.length inside, all]

/-- **The answer with a part of a file** sends that part and says which it is. -/
theorem answerFile_part {contents path : Bytes} {evaluated : StaticEvaluation} {offset length : Nat}
    (selected : evaluated.range = partialSelection offset length) (inside : offset + length ≤ contents.length)
    (policy : ConnectionPolicy) :
    ∃ region, (answerFile contents path evaluated policy false).file = some region
      ∧ region.view = (contents.drop offset).take length
      ∧ (answerFile contents path evaluated policy false).status = .partialContent
      ∧ (answerFile contents path evaluated policy false).bytes
        = makeStaticResponseHeader .partialContent length (contentTypeForPath path) policy evaluated.metadata := by
  unfold answerFile
  rw [selected]
  exact ⟨_, rfl, slice_getD inside, rfl, rfl⟩

/-- **The selection of a range**, in all its parts. -/
theorem byte_range_selection :
    (∀ (value : Bytes) (size : Nat), size ≤ uint64Max →
      (∀ offset length, selectByteRange value size = partialSelection offset length ↔
        ∃ range, RangeField range (trimOws value) ∧ range.select size = some (offset, length))
      ∧ ((selectByteRange value size).selection = .unsatisfiable ↔
        ∃ range, RangeField range (trimOws value) ∧ range.select size = none)
      ∧ (selectByteRange value size = { selection := .full, offset := 0, length := size } ↔
        ¬ ∃ range, RangeField range (trimOws value))
      ∧ ∀ offset length, selectByteRange value size = partialSelection offset length →
          1 ≤ length ∧ offset + length ≤ size ∧ offset + length ≤ uint64Max)
    ∧ (∀ (fields : StaticRequestFields) (file : StaticFileMetadata) (now : Int) (omitBody : Bool) (offset length : Nat),
        (evaluateStaticConditions fields file now omitBody).range = partialSelection offset length →
        (evaluateStaticConditions fields file now omitBody).metadata.contentRange
          = some (text "bytes " ++ decimalText offset ++ text "-" ++ decimalText (offset + length - 1) ++ text "/"
            ++ decimalText file.size))
    ∧ ∀ (service : StaticFileService) (target : RequestTarget) (file : RegularFile) (policy : ConnectionPolicy)
        (fields : StaticRequestFields) (now : Int) (offset length : Nat), service.IsFile target file →
        (evaluateStaticConditions fields (describeFile (fileStat (.regular file))) now false).range
          = partialSelection offset length →
        ∃ result region, service.onValidatedTarget target false policy fields now = some result
          ∧ result.status = .partialContent ∧ result.file = some region
          ∧ region.view = (file.contents.drop offset).take length
          ∧ text "Content-Range: bytes " ++ decimalText offset ++ text "-" ++ decimalText (offset + length - 1)
              ++ text "/" ++ decimalText file.contents.length ++ crlf <:+: result.bytes := by
  refine ⟨fun value size fits => ?_, fun fields file now omitBody offset length selected => ?_, ?_⟩
  · have bounds : ∀ offset length, selectByteRange value size = partialSelection offset length →
        1 ≤ length ∧ offset + length ≤ size ∧ offset + length ≤ uint64Max := by
      intro offset length selected
      have cases := selectByteRange_cases value size
      rw [selected] at cases
      rcases cases with ⟨full, -⟩ | ⟨-, some, inside⟩ | none
      · cases full
      · exact ⟨some, inside, Nat.le_trans inside fits⟩
      · cases none
    refine ⟨fun offset length => ?_, ?_, ?_, bounds⟩
    · simp only [selectByteRange_eq, ← readRange_iff, selectionOf_partial]
    · simp only [selectByteRange_eq, ← readRange_iff, selectionOf_unsatisfiable]
    · simp only [selectByteRange_eq, ← readRange_iff, selectionOf_full]
  · show contentRangeOf (evaluateStaticConditions fields file now omitBody).range file.size = _
    rw [selected]
    rfl
  · intro service target file policy fields now offset length isFile selected
    have evaluated := evaluateStaticConditions_cases fields (describeFile (fileStat (.regular file))) now false
    have inside : offset + length ≤ file.contents.length := by
      obtain ⟨chosen, -, -⟩ := evaluated
      rw [selected] at chosen
      rcases chosen with none | ⟨full, -⟩ | ⟨-, -, inside⟩ | none
      · cases none
      · cases full
      · exact inside
      · cases none
    obtain ⟨region, sent, view, status, bytes⟩ := answerFile_part selected inside policy
    refine ⟨_, region, isFile.answered false policy fields now, status, sent, view, ?_⟩
    have named : (evaluateStaticConditions fields (describeFile (fileStat (.regular file))) now
          false).metadata.contentRange
        = some (text "bytes " ++ decimalText offset ++ [dash] ++ decimalText (offset + length - 1) ++ [slash]
          ++ decimalText file.contents.length) := by
      rw [evaluated.2.2, selected]
      rfl
    have written : text "Content-Range: bytes " ++ decimalText offset ++ text "-" ++ decimalText (offset + length - 1)
          ++ text "/" ++ decimalText file.contents.length ++ crlf
        = optionalLine (text "Content-Range: ") (some (text "bytes " ++ decimalText offset ++ [dash]
          ++ decimalText (offset + length - 1) ++ [slash] ++ decimalText file.contents.length)) := by
      unfold optionalLine
      simp only [← List.append_assoc]
      rfl
    rw [bytes, written, ← named]
    exact ⟨_, text "\r\n", rfl⟩

end HpServer.Http
