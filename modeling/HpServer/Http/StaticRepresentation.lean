/-
**`http/StaticRepresentation`: validators, conditions and ranges of a file.**

`int64_t` seconds are integers, `uint64_t` values natural numbers below 2⁶⁴; `std::chrono`'s calendar is
`Library/Calendar`.

* `formatHttpDate`, `parseHttpDate` — the three date formats.
* `makeEntityTag`, `matchesEntityTag`, `selectByteRange`.
* `evaluateStaticConditions` — **what a request selects of a file, and the fields that describe it.**
* `selectByteRange_cases` — a range that is selected is not empty and lies in the file.
-/

import HpServer.Http.HttpRequest
import HpServer.Library.Calendar

namespace HpServer.Http

open Calendar

structure StaticFileMetadata where
  device : Nat
  inode : Nat
  size : Nat
  modifiedSeconds : Int
  modifiedNanoseconds : Int
  changedSeconds : Int
  changedNanoseconds : Int
  deriving DecidableEq, Repr

structure StaticResponseMetadata where
  date : Bytes
  entityTag : Bytes
  lastModified : Option Bytes := none
  contentRange : Option Bytes := none
  deriving DecidableEq, Repr

inductive StaticSelection where
  | full | notModified | partialContent | unsatisfiable
  deriving DecidableEq, Repr

structure ByteRangeSelection where
  selection : StaticSelection := .full
  offset : Nat := 0
  length : Nat := 0
  deriving DecidableEq, Repr

structure StaticEvaluation where
  range : ByteRangeSelection
  metadata : StaticResponseMetadata
  deriving DecidableEq, Repr

/-! ### Dates -/

def kDays : List Bytes :=
  [text "Sun", text "Mon", text "Tue", text "Wed", text "Thu", text "Fri", text "Sat"]

def kLongDays : List Bytes :=
  [text "Sunday", text "Monday", text "Tuesday", text "Wednesday", text "Thursday", text "Friday",
    text "Saturday"]

def kMonths : List Bytes :=
  [text "Jan", text "Feb", text "Mar", text "Apr", text "May", text "Jun", text "Jul", text "Aug",
    text "Sep", text "Oct", text "Nov", text "Dec"]

/-- `substr(start, count)`. -/
def substr (value : Bytes) (start count : Nat) : Bytes := (value.drop start).take count

/-- `value[index]`, where it is in range. -/
def byteAt (value : Bytes) (index : Nat) : UInt8 := value.getD index 0

/-- The number of a few digits; nothing where the source returns -1. -/
def fewDigits (value : Bytes) : Option Nat :=
  if value = [] || !value.all isDigit then none
  else some (value.foldl (fun result b => result * 10 + (b - 0x30).toNat) 0)

def secondsPerDay : Int := 86400

def calendarDate (value : Int) : Option Date :=
  let days := value / secondsPerDay
  if days < daysFromCivil { year := 0, month := 1, day := 1 }
      || daysFromCivil { year := 9999, month := 12, day := 31 } < days then none
  else some (civilFromDays days)

def paddedDecimal (value width : Nat) : Bytes :=
  List.replicate (width - (decimalText value).length) 0x30 ++ decimalText value

def formatHttpDate (value : Int) : Option Bytes :=
  (calendarDate value).map fun date =>
    let dayStart := daysFromCivil date
    let clock := (value - dayStart * secondsPerDay).toNat
    kDays.getD (weekday dayStart) [] ++ text ", " ++ paddedDecimal date.day 2 ++ [sp]
      ++ kMonths.getD (date.month - 1) [] ++ [sp] ++ paddedDecimal date.year.toNat 4 ++ [sp]
      ++ paddedDecimal (clock / 3600) 2 ++ [colon] ++ paddedDecimal (clock / 60 % 60) 2 ++ [colon]
      ++ paddedDecimal (clock % 60) 2 ++ text " GMT"

/-- What the three formats are cut into. The year is that of the text; in the long format it has two
digits. -/
structure DateFields where
  dayName : Bytes
  day : Option Nat
  monthName : Bytes
  year : Option Nat
  clock : Bytes
  longDay : Bool := false

abbrev dash : UInt8 := 0x2d

def isImfDate (value : Bytes) : Bool :=
  value.length = 29 && substr value 3 2 = text ", " && byteAt value 7 = sp && byteAt value 11 = sp
    && byteAt value 16 = sp && value.drop 25 = text " GMT"

def isAsctimeDate (value : Bytes) : Bool :=
  value.length = 24 && byteAt value 3 = sp && byteAt value 7 = sp && byteAt value 10 = sp
    && byteAt value 19 = sp

/-- The long format behind its day name. -/
def isLongDateTail (tail : Bytes) : Bool :=
  tail.length = 24 && substr tail 0 2 = text ", " && byteAt tail 4 = dash && byteAt tail 8 = dash
    && byteAt tail 11 = sp && tail.drop 20 = text " GMT"

def cutDate (value : Bytes) : Option DateFields :=
  if isImfDate value then
    some
      { dayName := substr value 0 3
        day := fewDigits (substr value 5 2)
        monthName := substr value 8 3
        year := fewDigits (substr value 12 4)
        clock := substr value 17 8 }
  else if isAsctimeDate value then
    some
      { dayName := substr value 0 3
        day := fewDigits (if byteAt value 8 = sp then substr value 9 1 else substr value 8 2)
        monthName := substr value 4 3
        year := fewDigits (substr value 20 4)
        clock := substr value 11 8 }
  else if comma ∉ value then none
  else
    let dayName := (cutAt comma value).1
    let tail := value.drop dayName.length
    if !isLongDateTail tail then none
    else
      some
        { dayName := dayName
          day := fewDigits (substr tail 2 2)
          monthName := substr tail 5 3
          year := fewDigits (substr tail 9 2)
          clock := substr tail 12 8
          longDay := true }

/-- Hours, minutes and seconds, in seconds. -/
def parseClock (clock : Bytes) : Option Nat :=
  if clock.length ≠ 8 || byteAt clock 2 ≠ colon || byteAt clock 5 ≠ colon then none
  else
    match fewDigits (substr clock 0 2), fewDigits (substr clock 3 2), fewDigits (substr clock 6 2) with
    | some hour, some minute, some second =>
      if 23 < hour || 59 < minute || 59 < second then none
      else some (hour * 3600 + minute * 60 + second)
    | _, _, _ => none

/-- The tuples `(year, month, day, second)` in their order. -/
def laterFields (date : Date) (clock : Int) (other : Date) (otherClock : Int) : Bool :=
  other.year < date.year
    || (date.year = other.year
      && (other.month < date.month
        || (date.month = other.month
          && (other.day < date.day || (date.day = other.day && otherClock < clock)))))

/-- The year of a date in the long format: within fifty years from now. -/
def longYear (shortYear month day clock : Nat) (nowSeconds : Int) : Option Int :=
  (calendarDate nowSeconds).bind fun current =>
    let year := current.year / 100 * 100 + shortYear
    let sinceMidnight := nowSeconds - daysFromCivil current * secondsPerDay
    let threshold : Date := { current with year := current.year + 50 }
    let year :=
      if laterFields { year := year, month := month, day := day } clock threshold sinceMidnight then year - 100
      else year
    if year < 0 then none else some year

def parseHttpDate (value : Bytes) (nowSeconds : Int) : Option Int :=
  match cutDate value with
  | none => none
  | some fields =>
    match fields.year, fields.day, kMonths.findIdx? (· = fields.monthName), parseClock fields.clock with
    | some writtenYear, some day, some monthIndex, some clock =>
      if day < 1 then none
      else
        let year : Option Int :=
          if fields.longDay then longYear writtenYear (monthIndex + 1) day clock nowSeconds
          else some writtenYear
        match year with
        | none => none
        | some year =>
          let date : Date := { year := year, month := monthIndex + 1, day := day }
          if !date.exists then none
          else
            let dayStart := daysFromCivil date
            let names := if fields.longDay then kLongDays else kDays
            if fields.dayName ≠ names.getD (weekday dayStart) [] then none
            else some (dayStart * secondsPerDay + clock)
    | _, _, _, _ => none

/-! ### Validators -/

/-- A `uint64_t` in hexadecimal. -/
def hexadecimalText (value : Nat) : Bytes := (Nat.toDigits 16 value).map fun c => c.toNat.toUInt8

/-- `static_cast<uint64_t>` of an `int64_t`. -/
def asUnsigned (value : Int) : Nat := (value % 2 ^ 64).toNat

def makeEntityTag (file : StaticFileMetadata) : Bytes :=
  text "W/\"" ++ hexadecimalText file.device ++ [dash] ++ hexadecimalText file.inode ++ [dash]
    ++ hexadecimalText file.size ++ [dash] ++ hexadecimalText (asUnsigned file.modifiedSeconds) ++ [dash]
    ++ hexadecimalText (asUnsigned file.modifiedNanoseconds) ++ [dash]
    ++ hexadecimalText (asUnsigned file.changedSeconds) ++ [dash]
    ++ hexadecimalText (asUnsigned file.changedNanoseconds) ++ [quote]

/-- A text without the mark of a weak tag. -/
def withoutWeak (value : Bytes) : Bytes :=
  if (text "W/").isPrefixOf value then value.drop 2 else value

/-- The loop of `matchesEntityTag`, with the number of tags it may still read. -/
def matchTags (tag : Bytes) : Nat → Bool → Bytes → Bool
  | 0, _, _ => false
  | left + 1, matched, value =>
    match withoutWeak value with
    | [] => false
    | first :: rest =>
      let inner := rest.takeWhile (· ≠ quote)
      if first ≠ quote || inner.any (fun b => b < 0x21 || b = del) || inner.length = rest.length then false
      else
        let matched := matched || quote :: inner ++ [quote] = tag
        let value := trimOws (rest.drop (inner.length + 1))
        if value = [] then matched
        else if value.head? ≠ some comma then false
        else
          let value := trimOws (value.drop 1)
          if value = [] then false else matchTags tag left matched value

def matchesEntityTag (value tag : Bytes) : Bool :=
  let value := trimOws value
  if value = text "*" then true else matchTags (withoutWeak tag) 128 false value

/-! ### Ranges -/

/-- The digits of a 64-bit number behind those read; nothing where it is none. -/
def scanUnsigned : Bytes → Nat → Option Nat
  | [], number => some number
  | b :: rest, number =>
    if !isDigit b then none
    else
      let digit := (b - 0x30).toNat
      if (uint64Max - digit) / 10 < number then none else scanUnsigned rest (number * 10 + digit)

def parseUnsigned (value : Bytes) : Option Nat := if value = [] then none else scanUnsigned value 0

/-- The range `first-last` or `first-`. -/
def selectFrom (first : Nat) (last : Option Nat) (size : Nat) : ByteRangeSelection :=
  if size = 0 || size ≤ first then { selection := .unsatisfiable }
  else
    let last := match last with
      | none => size - 1
      | some last => min last (size - 1)
    { selection := .partialContent, offset := first, length := last - first + 1 }

/-- The range `-last`. -/
def selectSuffix (last size : Nat) : ByteRangeSelection :=
  if size = 0 || last = 0 then { selection := .unsatisfiable }
  else { selection := .partialContent, offset := size - min last size, length := min last size }

def selectByteRange (value : Bytes) (size : Nat) : ByteRangeSelection :=
  let full : ByteRangeSelection := { length := size }
  let value := trimOws value
  if value.length < 6 || (value.take 6).map lowerAscii ≠ text "bytes=" then full
  else
    let range := value.drop 6
    if dash ∉ range then full
    else
      let firstText := (cutAt dash range).1
      let lastText := (cutAt dash range).2
      if firstText = [] then
        match parseUnsigned lastText with
        | none => full
        | some last => selectSuffix last size
      else
        match parseUnsigned firstText with
        | none => full
        | some first =>
          if lastText = [] then selectFrom first none size
          else
            match parseUnsigned lastText with
            | none => full
            | some last => if last < first then full else selectFrom first (some last) size

/-- A selection of a file of `size` bytes: all of it, a part that is not empty, or none. -/
def IsSelection (range : ByteRangeSelection) (size : Nat) : Prop :=
  range.selection = .full ∧ range.length = size
    ∨ range.selection = .partialContent ∧ 0 < range.length ∧ range.offset + range.length ≤ size
    ∨ range.selection = .unsatisfiable

theorem selectFrom_cases {first size : Nat} {last : Option Nat} (ordered : ∀ l, last = some l → first ≤ l) :
    IsSelection (selectFrom first last size) size := by
  unfold selectFrom
  split
  case isTrue => exact .inr (.inr rfl)
  case isFalse inside =>
    simp only [Bool.or_eq_true, decide_eq_true_eq, not_or, Nat.not_le] at inside
    refine .inr (.inl ⟨rfl, Nat.succ_pos _, ?_⟩)
    cases last with
    | none =>
      dsimp only
      omega
    | some last =>
      have order := ordered last rfl
      dsimp only
      omega

theorem selectSuffix_cases (last size : Nat) : IsSelection (selectSuffix last size) size := by
  unfold selectSuffix
  split
  case isTrue => exact .inr (.inr rfl)
  case isFalse inside =>
    simp only [Bool.or_eq_true, decide_eq_true_eq, not_or] at inside
    refine .inr (.inl ⟨rfl, ?_, ?_⟩) <;> dsimp only <;> omega

/-- **A range that is selected is not empty and lies in the file.** -/
theorem selectByteRange_cases (value : Bytes) (size : Nat) : IsSelection (selectByteRange value size) size := by
  have full : IsSelection { length := size } size := .inl ⟨rfl, rfl⟩
  unfold selectByteRange
  dsimp only
  split
  · exact full
  split
  · exact full
  split
  · split
    · exact full
    · exact selectSuffix_cases _ size
  split
  · exact full
  split
  · exact selectFrom_cases fun l none => nomatch none
  split
  · exact full
  split
  · exact full
  next order =>
    refine selectFrom_cases fun l same => ?_
    cases same
    exact Nat.le_of_not_lt order

/-! ### The evaluation -/

/-- `Content-Range`, where there is one. -/
def contentRangeOf (range : ByteRangeSelection) (size : Nat) : Option Bytes :=
  match range.selection with
  | .partialContent =>
    some (text "bytes " ++ decimalText range.offset ++ [dash] ++ decimalText (range.offset + range.length - 1) ++ [slash]
      ++ decimalText size)
  | .unsatisfiable => some (text "bytes */" ++ decimalText size)
  | .full | .notModified => none

def evaluateStaticConditions (fields : StaticRequestFields) (file : StaticFileMetadata) (nowSeconds : Int)
    (omitBody : Bool) : StaticEvaluation :=
  let entityTag := makeEntityTag file
  let modified := min file.modifiedSeconds nowSeconds
  let lastModified := formatHttpDate modified
  let notModified : Bool :=
    if fields.ifNoneMatch.present then matchesEntityTag fields.ifNoneMatch.value entityTag
    else if fields.ifModifiedSince.present && !fields.ifModifiedSince.duplicate && lastModified.isSome then
      match parseHttpDate fields.ifModifiedSince.value nowSeconds with
      | some since => modified ≤ since
      | none => false
    else false
  let range : ByteRangeSelection :=
    if notModified then { selection := .notModified }
    else if !omitBody && fields.range.present && !fields.range.duplicate && !fields.ifRange.present then
      selectByteRange fields.range.value file.size
    else { length := file.size }
  { range := range
    metadata :=
      { date := (formatHttpDate nowSeconds).getD []
        entityTag := entityTag
        lastModified := lastModified
        contentRange := contentRangeOf range file.size } }

/-- **What an evaluation selects**, and that its fields say so. -/
theorem evaluateStaticConditions_cases (fields : StaticRequestFields) (file : StaticFileMetadata)
    (nowSeconds : Int) (omitBody : Bool) :
    let evaluated := evaluateStaticConditions fields file nowSeconds omitBody
    (evaluated.range.selection = .notModified ∨ IsSelection evaluated.range file.size)
      ∧ (omitBody = true → evaluated.range.selection = .notModified
        ∨ evaluated.range.selection = .full ∧ evaluated.range.length = file.size)
      ∧ evaluated.metadata.contentRange = contentRangeOf evaluated.range file.size := by
  have pick : ∀ notModified asked : Bool,
      let range : ByteRangeSelection :=
        if notModified then { selection := .notModified }
        else if asked then selectByteRange fields.range.value file.size
        else { length := file.size }
      (range.selection = .notModified ∨ IsSelection range file.size)
        ∧ (asked = false → range.selection = .notModified ∨ range.selection = .full ∧ range.length = file.size) := by
    intro notModified asked
    cases notModified with
    | true => exact ⟨.inl rfl, fun _ => .inl rfl⟩
    | false =>
      cases asked with
      | true => exact ⟨.inr (selectByteRange_cases _ _), fun other => nomatch other⟩
      | false => exact ⟨.inr (.inl ⟨rfl, rfl⟩), fun _ => .inr ⟨rfl, rfl⟩⟩
  intro evaluated
  refine ⟨(pick _ _).1, ?_, rfl⟩
  rintro rfl
  exact (pick _ (!true && fields.range.present && !fields.range.duplicate && !fields.ifRange.present)).2 (by simp)

/-- Without a body there is no range: the evaluation is that of the request that has none. -/
theorem evaluateStaticConditions_head (fields : StaticRequestFields) (file : StaticFileMetadata)
    (nowSeconds : Int) :
    evaluateStaticConditions { fields with range := {} } file nowSeconds false
      = evaluateStaticConditions fields file nowSeconds true := by
  unfold evaluateStaticConditions
  simp

end HpServer.Http
