/-
**`app/AccessLog`: a finished request as one line of JSON.**

The record has the members of the source with the ranges of their types: the arrays hold what is read of them, `status` is
an `int` and may be negative.

* `appendJsonString`, `serializeAccessRecord`.
* `AccessFields.ofDocument` — the record a JSON document says, each code point of a text one byte.
* `access_log_line` — **a record is one printable line within the limit of the logger, and the record it says is that
  record**; so two records never have the same line.
-/

import HpServer.App.HttpConnectionHandler
import HpServer.Base.AsyncLogger
import HpServer.Library.JsonObjects

namespace HpServer.App

open Base Http Json Numerals

/-! ### The line -/

structure AccessFields where
  method : Bytes := []
  path : Bytes := []
  status : Int := 0
  contentBytes : Nat := 0
  durationUs : Nat := 0
  aborted : Bool := false
  pathTruncated : Bool := false
  deriving DecidableEq, Repr

/-- A record as it is kept. -/
structure StoredRecord extends AccessFields where
  methodFits : method.length ≤ kMethodLimit
  pathFits : path.length ≤ kPathLimit
  statusWord : -2 ^ 31 ≤ status ∧ status < 2 ^ 31
  contentWord : contentBytes < 2 ^ 64
  durationWord : durationUs < 2 ^ 64

/-- `kHex[digit]`. -/
def kHex (digit : UInt8) : UInt8 := if digit < 10 then 0x30 + digit else 0x57 + digit

/-- The turn of the loop of `appendJsonString`. -/
def escapeLogged (b : UInt8) : Bytes :=
  if b = quote || b = backslash then [backslash, b]
  else if b < 0x20 || 0x7f ≤ b then text "\\u00" ++ [kHex (b >>> 4), kHex (b &&& 15)]
  else [b]

/-- What `appendJsonString` appends. -/
def jsonString (input : Bytes) : Bytes := quote :: input.flatMap escapeLogged ++ [quote]

def appendJsonString (output input : Bytes) : Bytes := output ++ jsonString input

/-- `std::to_string` of an `int`. -/
def integerText (n : Int) : Bytes := text (toString n)

/-- The line; nothing where the source throws. -/
def serializeAccessRecord (record : StoredRecord) : Option Bytes :=
  let output := text "\x7b\"event\":\"http_access\",\"method\":"
  let output := appendJsonString output record.method
  let output := output ++ text ",\"path\":"
  let output := appendJsonString output record.path
  let output := output ++ (text ",\"status\":" ++ integerText record.status)
  let output := output ++ (text ",\"content_bytes\":" ++ decimalText record.contentBytes)
  let output := output ++ (text ",\"duration_us\":" ++ decimalText record.durationUs)
  let output := output ++ if record.aborted then text ",\"outcome\":\"aborted\"" else text ",\"outcome\":\"completed\""
  let output :=
    output ++ if record.pathTruncated then text ",\"path_truncated\":true\x7d" else text ",\"path_truncated\":false\x7d"
  if kMessageLimit < output.length then none else some output

/-! ### What a line says -/

/-- The value of the first member of a name. -/
def member (document : Value) (key : Bytes) : Option Value :=
  match document with
  | .object members => members.lookup key
  | _ => none

/-- The value of an integer. -/
def integerOf : Bytes → Int
  | 0x2d :: digits => -(value digits : Int)
  | digits => value digits

/-- **The record a document says**, with each code point of a text read as a byte. -/
def AccessFields.ofDocument (document : Value) : Option AccessFields :=
  match member document (text "method"), member document (text "path"), member document (text "status"),
    member document (text "content_bytes"), member document (text "duration_us"), member document (text "outcome"),
    member document (text "path_truncated") with
  | some (.string method), some (.string path), some (.number status), some (.number contentBytes),
    some (.number durationUs), some (.string outcome), some (.boolean pathTruncated) =>
    some
      { method := latin method
        path := latin path
        status := integerOf status
        contentBytes := value contentBytes
        durationUs := value durationUs
        aborted := outcome = text "aborted"
        pathTruncated := pathTruncated }
  | _, _, _, _, _, _, _ => none

/-- The code points of some bytes. -/
def points (bytes : Bytes) : Bytes := bytes.flatMap fun b => Utf8.encode b.toNat

def outcomeText (aborted : Bool) : Bytes := if aborted then text "aborted" else text "completed"

def AccessFields.document (r : AccessFields) : Value :=
  .object
    [(text "event", .string (text "http_access")), (text "method", .string (points r.method)),
      (text "path", .string (points r.path)), (text "status", .number (integerText r.status)),
      (text "content_bytes", .number (decimalText r.contentBytes)),
      (text "duration_us", .number (decimalText r.durationUs)), (text "outcome", .string (outcomeText r.aborted)),
      (text "path_truncated", .boolean r.pathTruncated)]

theorem integerText_eq (n : Int) :
    integerText n = if n < 0 then dash :: numeral 10 n.natAbs else numeral 10 n.natAbs := by
  cases n with
  | ofNat n =>
    rw [if_neg (by simp)]
    exact decimalText_eq n
  | negSucc n =>
    rw [if_pos (Int.negSucc_lt_zero n)]
    have written : toString (Int.negSucc n) = "-" ++ toString (n + 1) := rfl
    rw [integerText, text, written, String.toList_append, List.map_append]
    exact congrArg (List.cons dash) (decimalText_eq (n + 1))

theorem integerOf_integerText (n : Int) : integerOf (integerText n) = n := by
  rw [integerText_eq]
  split
  case isTrue negative =>
    show -(value (numeral 10 n.natAbs) : Int) = n
    rw [value_numeral]
    omega
  case isFalse positive =>
    have plain : integerOf (numeral 10 n.natAbs) = value (numeral 10 n.natAbs) := by
      cases shape : numeral 10 n.natAbs with
      | nil => rfl
      | cons b digits =>
        have digit := isDigit_numeral n.natAbs b (shape ▸ List.mem_cons_self)
        have noDash : b ≠ 0x2d := by
          rintro rfl
          cases digit
        unfold integerOf
        split
        case h_1 same => exact absurd (List.cons.inj same).1 noDash
        case h_2 => rfl
    rw [plain, value_numeral]
    omega

/-- **A document says the record it was made of.** -/
theorem ofDocument_document (r : AccessFields) : AccessFields.ofDocument r.document = some r := by
  have outcome : decide (outcomeText r.aborted = text "aborted") = r.aborted := by cases r.aborted <;> decide
  have number : ∀ n, value (decimalText n) = n := fun n => (congrArg value (decimalText_eq n)).trans (value_numeral n)
  have said : AccessFields.ofDocument r.document = some ⟨latin (points r.method), latin (points r.path),
      integerOf (integerText r.status), value (decimalText r.contentBytes), value (decimalText r.durationUs),
      decide (outcomeText r.aborted = text "aborted"), r.pathTruncated⟩ := rfl
  rw [said, outcome, integerOf_integerText, number, number, points, points, latin_encode, latin_encode]

/-! ### The line is read -/

/-- The two digits of a byte. -/
theorem kHex_value (b : UInt8) :
    hexValue (kHex (b >>> 4)) = some (b.toNat / 16) ∧ hexValue (kHex (b &&& 15)) = some (b.toNat % 16) := by
  refine forall_uint8 (P := fun b => hexValue (kHex (b >>> 4)) = some (b.toNat / 16)
    ∧ hexValue (kHex (b &&& 15)) = some (b.toNat % 16)) ?_ b
  decide +kernel

/-- **One byte of a text.** -/
theorem carries_escapeLogged (b : UInt8) : Carries (escapeLogged b) (Utf8.encode b.toNat) := by
  unfold escapeLogged
  split
  case isTrue marked =>
    rcases (by simpa using marked : b = quote ∨ b = backslash) with rfl | rfl
    · exact carries_escaped (by decide) (by decide)
    · exact carries_escaped (by decide) (by decide)
  case isFalse plain =>
    have plain : b ≠ quote ∧ b ≠ backslash := by simpa using plain
    split
    case isTrue control =>
      have small := b.toNat_lt
      have unit := carries_unit (kHex_value b).1 (kHex_value b).2 (by omega)
      rw [show b.toNat / 16 * 16 + b.toNat % 16 = b.toNat by omega] at unit
      exact unit
    case isFalse printable =>
      have printable : 0x20 ≤ b ∧ b < 0x7f := by simpa using printable
      have ascii : b < 0x80 := UInt8.lt_trans printable.2 (by decide)
      have code : Utf8.encode b.toNat = [b] := by
        have below : b.toNat < 0x80 := UInt8.lt_iff_toNat_lt.mp ascii
        unfold Utf8.encode
        rw [if_pos below]
        simp
      rw [code]
      exact carries_plain printable.1 ascii plain.1 plain.2

theorem names_jsonString (input : Bytes) : Names (jsonString input) (points input) :=
  names_of_carries (carries_flatMap carries_escapeLogged input)

theorem spells_integerText (n : Int) : Spells (integerText n) (.number (integerText n)) := by
  rw [integerText_eq]
  split
  · exact spells_negative _
  · exact spells_numeral _

theorem spells_decimalText (n : Nat) : Spells (decimalText n) (.number (decimalText n)) := by
  rw [decimalText_eq]
  exact spells_numeral n

/-- The members of a line. -/
def AccessFields.members (r : AccessFields) : List Member :=
  [⟨text "\"event\"", text "event", text "\"http_access\"", .string (text "http_access")⟩,
    ⟨text "\"method\"", text "method", jsonString r.method, .string (points r.method)⟩,
    ⟨text "\"path\"", text "path", jsonString r.path, .string (points r.path)⟩,
    ⟨text "\"status\"", text "status", integerText r.status, .number (integerText r.status)⟩,
    ⟨text "\"content_bytes\"", text "content_bytes", decimalText r.contentBytes,
      .number (decimalText r.contentBytes)⟩,
    ⟨text "\"duration_us\"", text "duration_us", decimalText r.durationUs, .number (decimalText r.durationUs)⟩,
    ⟨text "\"outcome\"", text "outcome", quote :: outcomeText r.aborted ++ [quote], .string (outcomeText r.aborted)⟩,
    ⟨text "\"path_truncated\"", text "path_truncated",
      if r.pathTruncated then text "true" else text "false", .boolean r.pathTruncated⟩]

theorem members_sound (r : AccessFields) : ∀ m ∈ r.members, m.Sound := by
  have outcome : Names (quote :: outcomeText r.aborted ++ [quote]) (outcomeText r.aborted) := by
    cases r.aborted <;> exact fun rest => rfl
  have truncated : Spells (if r.pathTruncated then text "true" else text "false") (.boolean r.pathTruncated) := by
    cases r.pathTruncated
    · exact spells_false
    · exact spells_true
  have event : Names (text "\"http_access\"") (text "http_access") := fun rest => rfl
  unfold AccessFields.members
  simp only [List.forall_mem_cons, List.not_mem_nil, false_implies, implies_true, and_true]
  exact ⟨⟨fun rest => rfl, event.spells⟩, ⟨fun rest => rfl, (names_jsonString _).spells⟩,
    ⟨fun rest => rfl, (names_jsonString _).spells⟩, ⟨fun rest => rfl, spells_integerText _⟩,
    ⟨fun rest => rfl, spells_decimalText _⟩, ⟨fun rest => rfl, spells_decimalText _⟩, ⟨fun rest => rfl, outcome.spells⟩,
    ⟨fun rest => rfl, truncated⟩⟩

/-- The line without the test of its length. -/
def AccessFields.line (r : AccessFields) : Bytes := object (r.members.map fun m => (m.name, m.text))

/-- The line piece by piece, as the source appends it. -/
theorem line_eq (r : AccessFields) :
    r.line = text "\x7b\"event\":\"http_access\",\"method\":" ++ (jsonString r.method
      ++ (text ",\"path\":" ++ (jsonString r.path ++ (text ",\"status\":" ++ (integerText r.status
      ++ (text ",\"content_bytes\":" ++ (decimalText r.contentBytes ++ (text ",\"duration_us\":"
      ++ (decimalText r.durationUs
      ++ ((if r.aborted then text ",\"outcome\":\"aborted\"" else text ",\"outcome\":\"completed\"")
      ++ (if r.pathTruncated then text ",\"path_truncated\":true\x7d"
        else text ",\"path_truncated\":false\x7d"))))))))))) := by
  unfold AccessFields.line AccessFields.members object outcomeText
  simp only [List.map_cons, List.map_nil, List.intercalate_cons_cons, List.intercalate_singleton, List.append_assoc,
    List.cons_append]
  cases r.aborted <;> cases r.pathTruncated <;> rfl

theorem events_line (r : AccessFields) : events r.line = r.document.events :=
  events_object (by simp [AccessFields.members]) (members_sound r)

/-! ### The size and the bytes of the line -/

theorem jsonString_length (input : Bytes) : (jsonString input).length ≤ 6 * input.length + 2 := by
  have each : ∀ b, (escapeLogged b).length ≤ 6 := fun b =>
    forall_uint8 (P := fun b => (escapeLogged b).length ≤ 6) (by decide +kernel) b
  have inside : (input.flatMap escapeLogged).length ≤ 6 * input.length := by
    induction input with
    | nil => exact Nat.zero_le _
    | cons b input ih =>
      have one := each b
      rw [List.flatMap_cons, List.length_append, List.length_cons]
      omega
  simp only [jsonString, List.cons_append, List.length_cons, List.length_append, List.length_nil]
  omega

theorem integerText_length {n : Int} (word : -2 ^ 31 ≤ n ∧ n < 2 ^ 31) : (integerText n).length ≤ 11 := by
  have digits : (numeral 10 n.natAbs).length ≤ 10 := by
    have short : (decimalText n.natAbs).length ≤ 10 := decimalText_length (by decide) (by omega)
    rwa [decimalText_eq] at short
  rw [integerText_eq]
  split
  · rw [List.length_cons]
    omega
  · omega

theorem line_length (record : StoredRecord) : record.line.length ≤ kMessageLimit := by
  have method := jsonString_length record.method
  have path := jsonString_length record.path
  have status := integerText_length record.statusWord
  have content : (decimalText record.contentBytes).length ≤ 20 :=
    decimalText_length (by decide) (record.contentWord.trans (by decide))
  have duration : (decimalText record.durationUs).length ≤ 20 :=
    decimalText_length (by decide) (record.durationWord.trans (by decide))
  have methodFits := record.methodFits
  have pathFits := record.pathFits
  have outcome : (if record.aborted then text ",\"outcome\":\"aborted\"" else text ",\"outcome\":\"completed\"").length
      ≤ 22 := by split <;> decide
  have truncated : (if record.pathTruncated then text ",\"path_truncated\":true\x7d"
      else text ",\"path_truncated\":false\x7d").length ≤ 24 := by split <;> decide
  have fixed : (text "\x7b\"event\":\"http_access\",\"method\":").length + (text ",\"path\":").length
      + (text ",\"status\":").length + (text ",\"content_bytes\":").length + (text ",\"duration_us\":").length ≤ 90 := by
    decide
  rw [line_eq]
  simp only [List.length_append]
  unfold kMethodLimit at methodFits
  unfold kPathLimit at pathFits
  unfold kMessageLimit
  omega

/-- Printable ASCII. -/
def Printable (line : Bytes) : Prop := ∀ b ∈ line, 0x20 ≤ b ∧ b < 0x7f

theorem printable_of_all {line : Bytes} (all : line.all (fun b => 0x20 ≤ b && b < 0x7f) = true) : Printable line := by
  intro b inside
  simpa using List.all_eq_true.mp all b inside

theorem printable_numeral (n : Nat) : Printable (numeral 10 n) := by
  intro b inside
  obtain ⟨digit, small, rfl⟩ := mem_numeral (by decide) inside
  interval_cases digit <;> decide

theorem printable_jsonString (input : Bytes) : Printable (jsonString input) := by
  have each : ∀ b, Printable (escapeLogged b) := fun b => printable_of_all
    (forall_uint8 (P := fun b => (escapeLogged b).all (fun c => 0x20 ≤ c && c < 0x7f) = true) (by decide +kernel) b)
  intro c inside
  rcases List.mem_append.mp inside with front | last
  · rcases List.mem_cons.mp front with rfl | inside
    · decide
    · obtain ⟨b, -, here⟩ := List.mem_flatMap.mp inside
      exact each b c here
  · rw [List.mem_singleton.mp last]
    decide

theorem line_printable (r : AccessFields) : Printable r.line := by
  have status : Printable (integerText r.status) := by
    rw [integerText_eq]
    split
    · exact List.forall_mem_cons.mpr ⟨by decide, printable_numeral _⟩
    · exact printable_numeral _
  have decimal : ∀ n, Printable (decimalText n) := fun n => by
    rw [decimalText_eq]
    exact printable_numeral n
  rw [line_eq]
  simp only [Printable, List.forall_mem_append]
  refine ⟨printable_of_all (by decide), printable_jsonString _, printable_of_all (by decide), printable_jsonString _,
    printable_of_all (by decide), status, printable_of_all (by decide), decimal _, printable_of_all (by decide), decimal _,
    ?_, ?_⟩
  · split <;> exact printable_of_all (by decide)
  · split <;> exact printable_of_all (by decide)

/-- **The test of the length never fails.** -/
theorem serialize_eq (record : StoredRecord) : serializeAccessRecord record = some record.line := by
  have written : serializeAccessRecord record
      = if kMessageLimit < record.line.length then none else some record.line := by
    rw [line_eq]
    simp only [serializeAccessRecord, appendJsonString, List.append_assoc]
  rw [written, if_neg (Nat.not_lt.mpr (line_length record))]

/-- **Lines cannot be forged.** A record is written as one line of printable ASCII within the limit of the logger; the line
is a JSON object, and it says the record it was written for and no other. -/
theorem access_log_line :
    (∀ record : StoredRecord, ∃ line, serializeAccessRecord record = some line ∧ line.length ≤ kMessageLimit
      ∧ Printable line
      ∧ ∃ members : List (Octets × Value), events line = (Value.object members).events
        ∧ AccessFields.ofDocument (.object members) = some record.toAccessFields)
    ∧ ∀ first second : StoredRecord, serializeAccessRecord first = serializeAccessRecord second →
      first.toAccessFields = second.toAccessFields := by
  constructor
  · intro record
    exact ⟨record.line, serialize_eq record, line_length record, line_printable _, _, events_line _,
      ofDocument_document _⟩
  · intro first second same
    rw [serialize_eq, serialize_eq] at same
    have documents := events_injective ((events_line _).symm.trans
      ((congrArg events (Option.some.inj same)).trans (events_line _)))
    have fields := ofDocument_document first.toAccessFields
    rw [documents, ofDocument_document] at fields
    exact (Option.some.inj fields).symm

end HpServer.App
