/-
**Every final response is correctly framed.**

Five builders write headers, one of them behind the back of another, and a part of a file may follow the
bytes. Here one rule is proved for what they all make.

* `OwnField` — the fields the server writes. Their values are its own words, numbers, dates and tags: nothing
  of a request is copied into a header.
* `FramedAs` — the lines of the header, its length, policy and range, and the bytes that are counted.
* `response_framing` — **what the router, the head callback, the task handler and the session answer is
  framed; the answer to `HEAD` has the header of the answer with its body.**
-/

import HpServer.App.TaskRefinement

namespace HpServer.App

open Base Business Http FileTree

/-! ### The rule -/

/-- The content types of the server. -/
def contentTypes : List Bytes :=
  [text "application/octet-stream", text "text/html; charset=utf-8", text "text/css; charset=utf-8",
    text "application/javascript", text "text/plain; charset=utf-8", text "application/json", text "image/png",
    text "image/jpeg", text "image/gif", text "image/svg+xml"]

/-- The method lists of the server. -/
def methodLists : List Bytes :=
  [text "GET", text "POST", text "GET, HEAD", text "GET, POST", text "GET, PUT, DELETE"]

def rangeText (first last size : Nat) : Bytes :=
  text "bytes " ++ decimalText first ++ [dash] ++ decimalText last ++ [slash] ++ decimalText size

def unsatisfiedText (size : Nat) : Bytes := text "bytes */" ++ decimalText size

/-- **A field the server writes.** -/
inductive OwnField : Field → Prop
  | contentLength (n : Nat) : OwnField (text "Content-Length", decimalText n)
  | contentType {type : Bytes} (own : type ∈ contentTypes) : OwnField (text "Content-Type", type)
  | connection (policy : ConnectionPolicy) : OwnField (text "Connection", policyText policy)
  | allow {methods : Bytes} (own : methods ∈ methodLists) : OwnField (text "Allow", methods)
  | cacheControl : OwnField (text "Cache-Control", text "no-store")
  | date {value : Bytes} (own : value = [] ∨ ∃ seconds, formatHttpDate seconds = some value) :
      OwnField (text "Date", value)
  | lastModified {value : Bytes} (own : ∃ seconds, formatHttpDate seconds = some value) :
      OwnField (text "Last-Modified", value)
  | entityTag (file : StaticFileMetadata) : OwnField (text "ETag", makeEntityTag file)
  | acceptRanges : OwnField (text "Accept-Ranges", text "bytes")
  | contentRange (first last size : Nat) : OwnField (text "Content-Range", rangeText first last size)
  | unsatisfied (size : Nat) : OwnField (text "Content-Range", unsatisfiedText size)

def fieldsNamed (name : Bytes) (fields : List Field) : List Field := fields.filter fun field => field.1 = name

/-- The bytes of the file behind a response. -/
def fileRemaining (result : ResponseResult) : Nat := (result.file.map FileRegion.remaining).getD 0

/-- What `Content-Range` says of a response of `length` bytes. -/
def IsRange (status : Status) (length : Nat) (value : Bytes) : Prop :=
  status = .partialContent
      ∧ (∃ first last size, first ≤ last ∧ last < size ∧ last - first + 1 = length
        ∧ value = rangeText first last size)
    ∨ status = .rangeNotSatisfiable ∧ ∃ size, value = unsatisfiedText size

/-- **A response with its fields and its payload.** Up to the first empty line stand the status line and the
fields, each in a line of its own. `length` is what `Content-Length` announces. -/
structure FramedAs (result : ResponseResult) (length : Nat) (fields : List Field) (payload : Bytes) : Prop where
  cut : cutHeader result.bytes = some (statusText result.status :: fields.map fieldLine, payload)
  own : ∀ field ∈ fields, OwnField field
  clean : ∀ line ∈ statusText result.status :: fields.map fieldLine, isClean line
  contentLength : fieldsNamed (text "Content-Length") fields
    = if result.status = .notModified then [] else [(text "Content-Length", decimalText length)]
  connection : fieldsNamed (text "Connection") fields = [(text "Connection", policyText result.effectivePolicy)]
  ranged : result.status = .partialContent → fieldsNamed (text "Content-Range") fields ≠ []
  range : ∀ field ∈ fieldsNamed (text "Content-Range") fields, IsRange result.status length field.2
  counted : result.contentBytes = payload.length + fileRemaining result

/-- A response with its body. -/
def Framed (result : ResponseResult) : Prop :=
  ∃ fields payload, FramedAs result (payload.length + fileRemaining result) fields payload

/-- **An answer to `HEAD`**: the header of the answer `full`, and neither payload nor file. -/
def HeadOf (result full : ResponseResult) : Prop :=
  ∃ fields payload, FramedAs full (payload.length + fileRemaining full) fields payload
    ∧ FramedAs result (payload.length + fileRemaining full) fields [] ∧ result.file = none
    ∧ result.status = full.status

/-! ### The server's own values stay in their lines -/

theorem isClean_hexadecimalText (value : Nat) : isClean (hexadecimalText value) := by
  have digits : ∀ d < 16, isClean [(Nat.digitChar d).toNat.toUInt8] := by decide
  induction value using Nat.strongRecOn with
  | ind value ih =>
    unfold hexadecimalText at ih ⊢
    rw [Nat.toDigits_eq_if (by decide)]
    split
    case isTrue small => exact digits value small
    case isFalse large =>
      have higher := ih (value / 16) (Nat.div_lt_self (by omega) (by decide))
      have last := digits (value % 16) (Nat.mod_lt _ (by decide))
      rw [List.map_append, isClean_append, higher]
      exact last

theorem isClean_entityTag (file : StaticFileMetadata) : isClean (makeEntityTag file) := by
  have ends : isClean (text "W/\"") ∧ isClean [dash] ∧ isClean [quote] := by decide
  obtain ⟨first, between, last⟩ := ends
  simp only [makeEntityTag, isClean_append, isClean_hexadecimalText, first, between, last, Bool.and_self]

theorem isClean_paddedDecimal (value width : Nat) : isClean (paddedDecimal value width) := by
  have zeros : isClean (List.replicate (width - (decimalText value).length) 0x30) := by
    refine isClean_of_mem fun b member => ?_
    rw [List.eq_of_mem_replicate member]
    decide
  rw [paddedDecimal, isClean_append, zeros, isClean_decimalText]
  rfl

theorem isClean_getD {names : List Bytes} (clean : ∀ name ∈ names, isClean name) (i : Nat) :
    isClean (names.getD i []) := by
  rw [List.getD_eq_getElem?_getD]
  cases found : names[i]? with
  | none => rfl
  | some name => exact clean name (List.mem_of_getElem? found)

theorem isClean_httpDate {seconds : Int} {value : Bytes} (written : formatHttpDate seconds = some value) :
    isClean value := by
  obtain ⟨date, -, rfl⟩ := Option.map_eq_some_iff.mp written
  have ends : isClean (text ", ") ∧ isClean [sp] ∧ isClean [colon] ∧ isClean (text " GMT") := by decide
  have days := isClean_getD (show ∀ name ∈ kDays, isClean name by decide)
  have months := isClean_getD (show ∀ name ∈ kMonths, isClean name by decide)
  obtain ⟨comma, space, mark, zone⟩ := ends
  simp only [isClean_append, isClean_paddedDecimal, days, months, comma, space, mark, zone, Bool.and_self]

theorem isClean_rangeText (first last size : Nat) : isClean (rangeText first last size) := by
  have ends : isClean (text "bytes ") ∧ isClean [dash] ∧ isClean [slash] := by decide
  simp only [rangeText, isClean_append, isClean_decimalText, ends.1, ends.2.1, ends.2.2, Bool.and_self]

theorem isClean_unsatisfiedText (size : Nat) : isClean (unsatisfiedText size) := by
  have start : isClean (text "bytes */") := by decide
  simp only [unsatisfiedText, isClean_append, isClean_decimalText, start, Bool.and_self]

/-- **No field leaves its line.** -/
theorem OwnField.clean {field : Field} (own : OwnField field) : isClean field.1 ∧ isClean field.2 := by
  cases own with
  | contentLength n => exact ⟨rfl, isClean_decimalText n⟩
  | contentType own => exact ⟨rfl, (show ∀ type ∈ contentTypes, isClean type by decide) _ own⟩
  | connection policy => exact ⟨rfl, isClean_policyText policy⟩
  | allow own => exact ⟨rfl, (show ∀ methods ∈ methodLists, isClean methods by decide) _ own⟩
  | cacheControl => exact ⟨rfl, rfl⟩
  | date own =>
    rcases own with rfl | ⟨seconds, written⟩
    · exact ⟨rfl, rfl⟩
    · exact ⟨rfl, isClean_httpDate written⟩
  | lastModified own =>
    obtain ⟨seconds, written⟩ := own
    exact ⟨rfl, isClean_httpDate written⟩
  | entityTag file => exact ⟨rfl, isClean_entityTag file⟩
  | acceptRanges => exact ⟨rfl, rfl⟩
  | contentRange first last size => exact ⟨rfl, isClean_rangeText first last size⟩
  | unsatisfied size => exact ⟨rfl, isClean_unsatisfiedText size⟩

/-! ### The builders -/

/-- What is written as the header of some of the server's fields is read so. -/
theorem cut_of_own {result : ResponseResult} {fields : List Field} {payload : Bytes}
    (own : ∀ field ∈ fields, OwnField field) (bytes : result.bytes = headerOf result.status fields ++ payload) :
    cutHeader result.bytes = some (statusText result.status :: fields.map fieldLine, payload) := by
  rw [bytes]
  exact cutHeader_headerOf result.status (fun field member => (own field member).clean) payload

/-- The field the task API adds, or none. -/
def IsExtra (more : List Field) : Prop := more = [] ∨ more = [(text "Cache-Control", text "no-store")]

theorem responseFields_own (status : Status) (length : Nat) {type allowed : Bytes} (policy : ConnectionPolicy)
    {more : List Field} (typed : type ∈ contentTypes) (methods : allowed = [] ∨ allowed ∈ methodLists)
    (extra : IsExtra more) :
    ∀ field ∈ responseFields status length type allowed policy ++ more, OwnField field := by
  intro field member
  rcases List.mem_append.mp member with first | last
  · rcases List.mem_append.mp first with fixed | allow
    · simp only [List.mem_cons, List.not_mem_nil, or_false] at fixed
      rcases fixed with rfl | rfl | rfl
      · exact .contentLength length
      · exact .contentType typed
      · exact .connection policy
    · split at allow
      case isTrue present =>
        obtain rfl := List.mem_singleton.mp allow
        refine .allow (methods.resolve_left ?_)
        rintro rfl
        simp at present
      case isFalse => exact absurd allow List.not_mem_nil
  · rcases extra with rfl | rfl
    · exact absurd last List.not_mem_nil
    · obtain rfl := List.mem_singleton.mp last
      exact .cacheControl

theorem responseFields_named (status : Status) (length : Nat) (type allowed : Bytes) (policy : ConnectionPolicy)
    {more : List Field} (extra : IsExtra more) :
    fieldsNamed (text "Content-Length") (responseFields status length type allowed policy ++ more)
        = [(text "Content-Length", decimalText length)]
      ∧ fieldsNamed (text "Connection") (responseFields status length type allowed policy ++ more)
        = [(text "Connection", policyText policy)]
      ∧ fieldsNamed (text "Content-Range") (responseFields status length type allowed policy ++ more) = [] := by
  unfold responseFields
  rcases extra with rfl | rfl
  · split <;> exact ⟨rfl, rfl, rfl⟩
  · split <;> exact ⟨rfl, rfl, rfl⟩

theorem lines_clean (status : Status) {fields : List Field} (own : ∀ field ∈ fields, OwnField field) :
    ∀ line ∈ statusText status :: fields.map fieldLine, isClean line := by
  refine List.forall_mem_cons.mpr ⟨by cases status <;> decide, fun line member => ?_⟩
  obtain ⟨field, among, rfl⟩ := List.mem_map.mp member
  exact isClean_fieldLine (own field among).clean

/-- **A response of `makeResponseHeader`**, with the payload that is sent and the length that is announced. -/
theorem framedAs_response {result : ResponseResult} {length : Nat} {type allowed payload : Bytes}
    {more : List Field}
    (bytes : result.bytes = headerOf result.status
      (responseFields result.status length type allowed result.effectivePolicy ++ more) ++ payload)
    (typed : type ∈ contentTypes) (methods : allowed = [] ∨ allowed ∈ methodLists) (extra : IsExtra more)
    (whole : result.status ≠ .notModified ∧ result.status ≠ .partialContent) (noFile : result.file = none)
    (counted : result.contentBytes = payload.length) :
    FramedAs result length (responseFields result.status length type allowed result.effectivePolicy ++ more)
      payload := by
  have own := responseFields_own result.status length result.effectivePolicy typed methods extra
  obtain ⟨lengths, connections, ranges⟩ :=
    responseFields_named result.status length type allowed result.effectivePolicy extra
  refine
    { cut := cut_of_own own bytes
      own := own
      clean := lines_clean result.status own
      contentLength := ?_
      connection := connections
      ranged := fun other => absurd other whole.2
      range := ?_
      counted := ?_ }
  · rw [lengths, if_neg whole.1]
  · rw [ranges]
    exact fun field none => absurd none List.not_mem_nil
  · rw [counted, fileRemaining, noFile]
    rfl

/-- **A JSON answer and the same without its body.** -/
theorem taskJson_headOf {status : Status} (body : Bytes) (policy : ConnectionPolicy) {allowed : Bytes}
    (methods : allowed = [] ∨ allowed ∈ methodLists) (whole : status ≠ .notModified ∧ status ≠ .partialContent) :
    HeadOf (makeTaskJsonResponse status body policy true allowed)
      (makeTaskJsonResponse status body policy false allowed) := by
  have typed : text "application/json" ∈ contentTypes := by decide
  refine ⟨_, body, framedAs_response ?_ typed methods (.inr rfl) whole rfl rfl,
    framedAs_response ?_ typed methods (.inr rfl) whole rfl rfl, rfl, rfl⟩
  · exact makeTaskJsonResponse_bytes status body policy false allowed
  · exact makeTaskJsonResponse_bytes status body policy true allowed

theorem HeadOf.framed {result full : ResponseResult} (head : HeadOf result full) : Framed full := by
  obtain ⟨fields, payload, framed, -⟩ := head
  exact ⟨fields, payload, framed⟩

/-- **An error answer and the same without its body.** -/
theorem errorAnswer_headOf {status : Status} {body : Bytes} (written : errorBody status = some body)
    (policy : ConnectionPolicy) {allowed : Bytes} (methods : allowed = [] ∨ allowed ∈ methodLists) :
    ∃ result full, errorAnswer status policy true allowed = some result
      ∧ errorAnswer status policy false allowed = some full ∧ HeadOf result full := by
  have typed : text "text/plain; charset=utf-8" ∈ contentTypes := by decide
  have whole : status ≠ .notModified ∧ status ≠ .partialContent := by
    constructor <;> rintro rfl <;> cases written
  refine ⟨_, _, errorAnswer_eq written policy true allowed, errorAnswer_eq written policy false allowed, _, body,
    framedAs_response ?_ typed methods (.inl rfl) whole rfl rfl,
    framedAs_response ?_ typed methods (.inl rfl) whole rfl rfl, rfl, rfl⟩
  all_goals
    show makeResponseHeader status body.length _ allowed policy ++ _
      = headerOf status (responseFields status body.length _ allowed policy ++ []) ++ _
    rw [makeResponseHeader_eq, List.append_nil (responseFields _ _ _ _ _)]
    rfl

theorem echoResponse_framed (request : HttpRequest) (policy : ConnectionPolicy) :
    Framed (RequestRouter.echoResponse request policy) := by
  have typed : text "application/octet-stream" ∈ contentTypes := by decide
  refine ⟨_, request.body, framedAs_response ?_ typed (.inl rfl) (.inl rfl)
    ⟨(fun other => nomatch other), fun other => nomatch other⟩ rfl rfl⟩
  unfold RequestRouter.echoResponse makeResponse
  dsimp only
  rw [makeResponseHeader_eq, List.append_nil]
  rfl

/-! ### Files -/

theorem contentTypeForPath_own (path : Bytes) : contentTypeForPath path ∈ contentTypes := by
  unfold contentTypeForPath
  split
  · decide
  · repeat' first | split | decide

/-- The range a file answer announces. -/
theorem contentRangeOf_own {range : ByteRangeSelection} {size : Nat} {value : Bytes}
    (selected : range.selection = .notModified ∨ IsSelection range size)
    (written : contentRangeOf range size = some value) :
    OwnField (text "Content-Range", value) ∧ IsRange (selectedStatus range.selection) range.length value := by
  unfold contentRangeOf at written
  cases selection : range.selection with
  | full =>
    rw [selection] at written
    cases written
  | notModified =>
    rw [selection] at written
    cases written
  | partialContent =>
    rw [selection] at written
    cases written
    refine ⟨.contentRange range.offset (range.offset + range.length - 1) size, .inl ⟨rfl, ?_⟩⟩
    rcases selected with other | ⟨other, -⟩ | ⟨-, some, inside⟩ | other
    · cases selection.symm.trans other
    · cases selection.symm.trans other
    · exact ⟨range.offset, range.offset + range.length - 1, size, by omega, by omega, by omega, rfl⟩
    · cases selection.symm.trans other
  | unsatisfiable =>
    rw [selection] at written
    cases written
    exact ⟨.unsatisfied size, .inr ⟨rfl, size, rfl⟩⟩

/-- The fields of a file answer. -/
structure OwnMetadata (metadata : StaticResponseMetadata) : Prop where
  date : metadata.date = [] ∨ ∃ seconds, formatHttpDate seconds = some metadata.date
  entityTag : ∃ file, metadata.entityTag = makeEntityTag file
  lastModified : ∀ value, metadata.lastModified = some value → ∃ seconds, formatHttpDate seconds = some value
  contentRange : ∀ value, metadata.contentRange = some value → OwnField (text "Content-Range", value)

theorem staticResponseFields_own (status : Status) (length : Nat) {type : Bytes} (policy : ConnectionPolicy)
    {metadata : StaticResponseMetadata} (typed : type ∈ contentTypes) (own : OwnMetadata metadata) :
    ∀ field ∈ staticResponseFields status length type policy metadata, OwnField field := by
  have optional : ∀ {name : Bytes} {value : Option Bytes} {field : Field}, field ∈ optionalField name value →
      ∃ v, value = some v ∧ (name, v) = field := by
    intro name value field member
    simpa [optionalField] using member
  obtain ⟨file, tag⟩ := own.entityTag
  intro field member
  unfold staticResponseFields at member
  simp only [List.mem_append, List.mem_cons, List.not_mem_nil, or_false] at member
  rcases member with (((first | middle) | modified) | ranges) | range
  · split at first
    · exact absurd first List.not_mem_nil
    · simp only [List.mem_cons, List.not_mem_nil, or_false] at first
      rcases first with rfl | rfl
      · exact .contentLength length
      · exact .contentType typed
  · rcases middle with rfl | rfl | rfl
    · exact .connection policy
    · exact .date own.date
    · rw [tag]
      exact .entityTag file
  · obtain ⟨value, written, rfl⟩ := optional modified
    exact .lastModified (own.lastModified value written)
  · rw [ranges]
    exact .acceptRanges
  · obtain ⟨value, written, rfl⟩ := optional range
    exact own.contentRange value written

theorem staticResponseFields_named (status : Status) (length : Nat) (type : Bytes) (policy : ConnectionPolicy)
    (metadata : StaticResponseMetadata) :
    fieldsNamed (text "Content-Length") (staticResponseFields status length type policy metadata)
        = (if status = .notModified then [] else [(text "Content-Length", decimalText length)])
      ∧ fieldsNamed (text "Connection") (staticResponseFields status length type policy metadata)
        = [(text "Connection", policyText policy)]
      ∧ fieldsNamed (text "Content-Range") (staticResponseFields status length type policy metadata)
        = optionalField (text "Content-Range") metadata.contentRange := by
  unfold staticResponseFields optionalField
  cases metadata.lastModified <;> cases metadata.contentRange <;> split <;> exact ⟨rfl, rfl, rfl⟩

theorem selectedStatus_partialContent {selection : StaticSelection}
    (isPartial : selectedStatus selection = .partialContent) : selection = .partialContent := by
  cases selection with
  | partialContent => rfl
  | full => cases isPartial
  | notModified => cases isPartial
  | unsatisfiable => cases isPartial

/-- **A response of `makeStaticResponseHeader`.** -/
theorem framedAs_static {result : ResponseResult} {length : Nat} {type payload : Bytes}
    {metadata : StaticResponseMetadata} {range : ByteRangeSelection} {size : Nat}
    (bytes : result.bytes
      = makeStaticResponseHeader result.status length type result.effectivePolicy metadata ++ payload)
    (typed : type ∈ contentTypes) (own : OwnMetadata metadata)
    (selected : range.selection = .notModified ∨ IsSelection range size)
    (status : result.status = selectedStatus range.selection)
    (ranged : metadata.contentRange = contentRangeOf range size)
    (announced : range.selection = .partialContent → length = range.length)
    (counted : result.contentBytes = payload.length + fileRemaining result) :
    FramedAs result length (staticResponseFields result.status length type result.effectivePolicy metadata)
      payload := by
  have fields := staticResponseFields_own result.status length result.effectivePolicy typed own
  obtain ⟨lengths, connections, ranges⟩ :=
    staticResponseFields_named result.status length type result.effectivePolicy metadata
  rw [makeStaticResponseHeader_eq] at bytes
  refine
    { cut := cut_of_own fields bytes
      own := fields
      clean := lines_clean result.status fields
      contentLength := lengths
      connection := connections
      ranged := fun isPartial => ?_
      range := fun field member => ?_
      counted := counted }
  · rw [ranges, ranged]
    have selection := selectedStatus_partialContent (status.symm.trans isPartial)
    unfold contentRangeOf optionalField
    rw [selection]
    exact List.cons_ne_nil _ _
  · rw [ranges, ranged] at member
    obtain ⟨value, written, rfl⟩ : ∃ v, contentRangeOf range size = some v
        ∧ (text "Content-Range", v) = field := by simpa [optionalField] using member
    obtain ⟨-, isRange⟩ := contentRangeOf_own selected written
    rw [status]
    rcases isRange with ⟨isPartial, facts⟩ | unsatisfied
    · rw [announced (selectedStatus_partialContent isPartial)]
      exact .inl ⟨isPartial, facts⟩
    · exact .inr unsatisfied

theorem evaluated_own (fields : StaticRequestFields) (file : StaticFileMetadata) (now : Int) (omitBody : Bool) :
    OwnMetadata (evaluateStaticConditions fields file now omitBody).metadata := by
  obtain ⟨selected, -, -⟩ := evaluateStaticConditions_cases fields file now omitBody
  refine ⟨?_, ⟨file, rfl⟩, fun value written => ⟨_, written⟩, fun value written => ?_⟩
  · show (formatHttpDate now).getD [] = [] ∨ ∃ seconds, formatHttpDate seconds = some ((formatHttpDate now).getD [])
    cases written : formatHttpDate now with
    | none => exact .inl rfl
    | some value => exact .inr ⟨now, written⟩
  · exact (contentRangeOf_own selected written).1

/-- A 304 announces no length. -/
theorem FramedAs.notModified {result : ResponseResult} {length : Nat} {fields : List Field} {payload : Bytes}
    (framed : FramedAs result length fields payload) (status : result.status = .notModified) (other : Nat) :
    FramedAs result other fields payload := by
  have lengths := framed.contentLength
  rw [if_pos status] at lengths
  refine { framed with contentLength := ?_, range := fun field member => ?_ }
  · rw [if_pos status]
    exact lengths
  · rcases framed.range field member with ⟨isPartial, -⟩ | ⟨unsatisfied, -⟩
    · cases status.symm.trans isPartial
    · cases status.symm.trans unsatisfied

section File

variable (contents path : Bytes) (evaluated : StaticEvaluation) (policy : ConnectionPolicy) (omitBody : Bool)

/-- The answer about a range that cannot be satisfied. -/
theorem answerFile_unsatisfiable (unsatisfied : evaluated.range.selection = .unsatisfiable) :
    answerFile contents path evaluated policy omitBody
      = { bytes :=
            makeStaticResponseHeader .rangeNotSatisfiable unsatisfiableBody.length
              (text "text/plain; charset=utf-8") policy evaluated.metadata ++ unsatisfiableBody
          effectivePolicy := policy
          status := .rangeNotSatisfiable
          contentBytes := unsatisfiableBody.length } := by
  unfold answerFile
  rw [unsatisfied]
  exact if_pos rfl

/-- The answer with the file or a part of it, or that says that it is not modified. -/
structure IsFileAnswer (result : ResponseResult) : Prop where
  bytes : result.bytes
    = makeStaticResponseHeader result.status evaluated.range.length (contentTypeForPath path)
      result.effectivePolicy evaluated.metadata
  status : result.status = selectedStatus evaluated.range.selection
  policy : result.effectivePolicy = policy
  empty : omitBody = true ∨ evaluated.range.selection = .notModified → result.file = none
  remaining : omitBody = false → evaluated.range.selection ≠ .notModified →
    fileRemaining result = evaluated.range.length
  counted : result.contentBytes = fileRemaining result

theorem answerFile_isFileAnswer (satisfied : evaluated.range.selection ≠ .unsatisfiable) :
    IsFileAnswer path evaluated policy omitBody (answerFile contents path evaluated policy omitBody) := by
  unfold answerFile
  dsimp only
  have other : selectedStatus evaluated.range.selection ≠ .rangeNotSatisfiable := by
    cases selection : evaluated.range.selection with
    | unsatisfiable => exact absurd selection satisfied
    | full => exact fun other => nomatch other
    | notModified => exact fun other => nomatch other
    | partialContent => exact fun other => nomatch other
  have unmodified : selectedStatus evaluated.range.selection = .notModified
      ↔ evaluated.range.selection = .notModified := by
    cases evaluated.range.selection <;> simp [selectedStatus]
  rw [if_neg other]
  refine ⟨rfl, rfl, rfl, fun none => ?_, fun body modified => ?_, ?_⟩
  · rcases none with rfl | same
    · rfl
    · simp [unmodified.mpr same]
  · simp [body, unmodified, modified, fileRemaining]
  · unfold fileRemaining
    dsimp only
    split <;> rfl

end File

section Answers

variable {path : Bytes} {evaluated : StaticEvaluation} {policy : ConnectionPolicy} {omitBody : Bool}
  {result : ResponseResult} {size : Nat}

theorem IsFileAnswer.framedAs (answer : IsFileAnswer path evaluated policy omitBody result)
    (own : OwnMetadata evaluated.metadata)
    (selected : evaluated.range.selection = .notModified ∨ IsSelection evaluated.range size)
    (ranged : evaluated.metadata.contentRange = contentRangeOf evaluated.range size) :
    FramedAs result evaluated.range.length
      (staticResponseFields result.status evaluated.range.length (contentTypeForPath path) result.effectivePolicy
        evaluated.metadata) [] := by
  refine framedAs_static ?_ (contentTypeForPath_own path) own selected answer.status ranged (fun _ => rfl) ?_
  · rw [List.append_nil]
    exact answer.bytes
  · rw [answer.counted]
    exact (Nat.zero_add _).symm

/-- The length of an answer with its body is that of the part it sends. -/
theorem IsFileAnswer.whole (answer : IsFileAnswer path evaluated policy false result) {fields : List Field}
    (framed : FramedAs result evaluated.range.length fields []) :
    FramedAs result (([] : Bytes).length + fileRemaining result) fields [] := by
  by_cases unmodified : evaluated.range.selection = .notModified
  · refine framed.notModified ?_ _
    rw [answer.status, unmodified]
    rfl
  · rw [answer.remaining rfl unmodified]
    exact (Nat.zero_add evaluated.range.length).symm ▸ framed

end Answers

/-- **A file answer with its body.** -/
theorem answerFile_framed (contents path : Bytes) (fields : StaticRequestFields) (file : StaticFileMetadata)
    (now : Int) (policy : ConnectionPolicy) :
    Framed (answerFile contents path (evaluateStaticConditions fields file now false) policy false) := by
  have own := evaluated_own fields file now false
  obtain ⟨selected, -, ranged⟩ := evaluateStaticConditions_cases fields file now false
  generalize evaluateStaticConditions fields file now false = evaluated at own selected ranged
  by_cases unsatisfied : evaluated.range.selection = .unsatisfiable
  · rw [answerFile_unsatisfiable contents path evaluated policy false unsatisfied]
    have typed : text "text/plain; charset=utf-8" ∈ contentTypes := by decide
    refine ⟨_, unsatisfiableBody, framedAs_static rfl typed own selected ?_ ranged (fun other => ?_) rfl⟩
    · rw [unsatisfied]
      rfl
    · cases unsatisfied.symm.trans other
  · have answer := answerFile_isFileAnswer contents path evaluated policy false unsatisfied
    exact ⟨_, [], answer.whole (answer.framedAs own selected ranged)⟩

/-- **A file answer to `HEAD`** has the header of the answer to a request without a range. -/
theorem answerFile_headOf (contents path : Bytes) (fields : StaticRequestFields) (file : StaticFileMetadata)
    (now : Int) (policy : ConnectionPolicy) :
    HeadOf (answerFile contents path (evaluateStaticConditions fields file now true) policy true)
      (answerFile contents path (evaluateStaticConditions { fields with range := {} } file now false) policy
        false) := by
  rw [evaluateStaticConditions_head]
  have own := evaluated_own fields file now true
  obtain ⟨selected, whole, ranged⟩ := evaluateStaticConditions_cases fields file now true
  have satisfied := whole rfl
  generalize evaluateStaticConditions fields file now true = evaluated at own selected ranged satisfied
  have open1 : evaluated.range.selection ≠ .unsatisfiable := by
    intro other
    rcases satisfied with same | ⟨same, -⟩ <;> cases other.symm.trans same
  have head := answerFile_isFileAnswer contents path evaluated policy true open1
  have full := answerFile_isFileAnswer contents path evaluated policy false open1
  generalize answerFile contents path evaluated policy true = result at head
  generalize answerFile contents path evaluated policy false = complete at full
  have framed := full.whole (full.framedAs own selected ranged)
  have announced := head.framedAs own selected ranged
  have status : result.status = complete.status := head.status.trans full.status.symm
  rw [status, head.policy.trans full.policy.symm] at announced
  refine ⟨_, [], framed, ?_, head.empty (.inl rfl), status⟩
  by_cases unmodified : evaluated.range.selection = .notModified
  · refine announced.notModified ?_ _
    rw [head.status, unmodified]
    rfl
  · rw [full.remaining rfl unmodified]
    exact (Nat.zero_add evaluated.range.length).symm ▸ announced

/-! ### Refusals -/

/-- **An answer to a method**: framed, or for `HEAD` the head of what another method gets. -/
def FramedFor (method : Bytes) (result : ResponseResult) (others : Bytes → Option ResponseResult) : Prop :=
  (method ≠ text "HEAD" → Framed result)
    ∧ (method = text "HEAD" → ∃ other full, other ≠ text "HEAD" ∧ others other = some full ∧ HeadOf result full)

theorem FramedFor.of_body {method : Bytes} {result : ResponseResult} {others : Bytes → Option ResponseResult}
    (other : method ≠ text "HEAD") (framed : Framed result) : FramedFor method result others :=
  ⟨fun _ => framed, fun head => absurd head other⟩

/-- What is refused with or without its body, as the method asks. -/
theorem framedFor_of_headOf (make : Bool → Option ResponseResult) (others : Bytes → Option ResponseResult)
    {result full : ResponseResult} (withoutBody : make true = some result) (withBody : make false = some full)
    (head : HeadOf result full) (method : Bytes) {other : Bytes} (apart : other ≠ text "HEAD")
    (same : others other = make false) :
    ∃ answer, make (decide (method = text "HEAD")) = some answer ∧ FramedFor method answer others := by
  by_cases isHead : method = text "HEAD"
  · refine ⟨result, by rw [decide_eq_true isHead]; exact withoutBody, fun no => absurd isHead no, fun _ => ?_⟩
    exact ⟨other, full, apart, same.trans withBody, head⟩
  · exact ⟨full, by rw [decide_eq_false isHead]; exact withBody, .of_body isHead head.framed⟩

theorem rejectRequest_headOf {status : Status} {allowed : Bytes}
    (known : status = .badRequest ∨ status = .forbidden ∨ status = .methodNotAllowed)
    (methods : allowed = [] ∨ allowed ∈ methodLists) :
    ∃ result full, rejectRequest status true allowed = some result ∧ rejectRequest status false allowed = some full
      ∧ HeadOf result full := by
  obtain ⟨body, written⟩ : ∃ body, errorBody status = some body := by
    rcases known with rfl | rfl | rfl <;> exact ⟨_, rfl⟩
  exact errorAnswer_headOf written .close methods

theorem parseRequestTarget_known {raw : Bytes} (refused : (parseRequestTarget raw).target = none) :
    (parseRequestTarget raw).status = .badRequest ∨ (parseRequestTarget raw).status = .forbidden
      ∨ (parseRequestTarget raw).status = .methodNotAllowed :=
  (parseRequestTarget_refused refused).imp_right .inl

theorem admitTarget_framing (target : RequestTarget) (method : Bytes) :
    RequestRouter.admitTarget target method = some none
      ∨ ∃ rejected, RequestRouter.admitTarget target method = some (some rejected)
        ∧ FramedFor method rejected fun other => (RequestRouter.admitTarget target other).join := by
  have mapped : ∀ {make : Option ResponseResult} {answer : ResponseResult}, make = some answer →
      some <$> make = some (some answer) := fun made => by rw [made]; rfl
  by_cases echo : target.path = RequestRouter.echoPath
  · obtain ⟨result, full, withoutBody, withBody, head⟩ :=
      rejectRequest_headOf (.inr (.inr rfl)) (.inr (show text "POST" ∈ methodLists by decide))
    have refused : ∀ {method}, method ≠ text "POST" → RequestRouter.admitTarget target method
        = some <$> rejectRequest .methodNotAllowed (decide (method = text "HEAD")) (text "POST") :=
      fun other => (if_pos echo).trans (if_neg other)
    by_cases post : method = text "POST"
    · exact .inl ((if_pos echo).trans (if_pos post))
    · obtain ⟨answer, made, framed⟩ := framedFor_of_headOf
        (fun omitBody => rejectRequest .methodNotAllowed omitBody (text "POST"))
        (fun other => (RequestRouter.admitTarget target other).join) withoutBody withBody head method
        (show text "GET" ≠ text "HEAD" by decide) (by
          show (RequestRouter.admitTarget target (text "GET")).join = _
          rw [refused (by decide), decide_eq_false (show text "GET" ≠ text "HEAD" by decide), withBody]
          rfl)
      exact .inr ⟨answer, (refused post).trans (mapped made), framed⟩
  · by_cases read : (decide (method = text "GET") || decide (method = text "HEAD")) = true
    · exact .inl ((if_neg echo).trans (if_pos read))
    · obtain ⟨result, full, -, withBody, head⟩ :=
        rejectRequest_headOf (.inr (.inr rfl)) (.inr (show text "GET, HEAD" ∈ methodLists by decide))
      refine .inr ⟨full, (if_neg echo).trans ((if_neg read).trans (mapped withBody)), .of_body ?_ head.framed⟩
      rintro rfl
      exact read (by decide)

theorem IsRefusal.own {status : Status} {allow : Bytes} (refusal : IsRefusal status allow) :
    (allow = [] ∨ allow ∈ methodLists) ∧ status ≠ .notModified ∧ status ≠ .partialContent := by
  refine ⟨?_, ?_, ?_⟩
  · rcases refusal.allow with rfl | rfl | rfl
    · exact .inl rfl
    · exact .inr (by decide)
    · exact .inr (by decide)
  · rintro rfl
    rcases refusal.status with other | other | other <;> cases other
  · rintro rfl
    rcases refusal.status with other | other | other <;> cases other

theorem validateTaskRequest_framing (route : TaskRoute) (method : Bytes) (policy : ConnectionPolicy) :
    validateTaskRequest route method policy = none
      ∨ ∃ rejected, validateTaskRequest route method policy = some rejected
        ∧ FramedFor method rejected fun other => validateTaskRequest route other policy := by
  obtain ⟨status, body, allow, refusal, served, refused⟩ := validateTaskRequest_spec route
  obtain ⟨methods, whole⟩ := IsRefusal.own refusal
  by_cases serves : IsServed route method
  · exact .inl (served method policy serves)
  have unserved : ¬ IsServed route (text "OPTIONS") := by
    rintro ⟨kind | kind, method⟩ <;> rw [kind] at method <;> revert method <;> decide
  obtain ⟨answer, made, framed⟩ := framedFor_of_headOf
    (fun omitBody => some (makeTaskJsonResponse status body (taskErrorPolicy status policy) omitBody allow))
    (fun other => validateTaskRequest route other policy) rfl rfl
    (taskJson_headOf body (taskErrorPolicy status policy) methods whole) method
    (show text "OPTIONS" ≠ text "HEAD" by decide) (by
      show validateTaskRequest route (text "OPTIONS") policy = _
      rw [refused _ policy unserved, decide_eq_false (show text "OPTIONS" ≠ text "HEAD" by decide)])
  exact .inr ⟨answer, (refused method policy serves).trans made, framed⟩

/-! ### Every answer -/

/-- The same request under another method, without a range. -/
def withoutRange (request : HttpRequest) (method : Bytes) : HttpRequest :=
  { request with method := method, staticFields := { request.staticFields with range := {} } }

section Router

variable (service : StaticFileService) (request : HttpRequest) (policy : ConnectionPolicy) (now : Int)
  (tasks : TaskService)

/-- What the router answers to another method, without a range. -/
def answerTo (method : Bytes) : Option ResponseResult :=
  (RequestRouter.onResponse service (withoutRange request method) policy now tasks).1

theorem withoutRange_parsed {request : HttpRequest} {target : Option RequestTarget}
    (parsed : (parseRequestTarget request.target).target = target) (method : Bytes) :
    (parseRequestTarget (withoutRange request method).target).target = target :=
  parsed

/-- A file is asked for with `GET`, without a range. -/
theorem router_get {target : RequestTarget} (parsed : (parseRequestTarget request.target).target = some target)
    (route : (classifyTaskRoute target).kind = .other) (path : target.path ≠ RequestRouter.echoPath) :
    answerTo service request policy now tasks (text "GET")
      = service.onValidatedTarget target false policy { request.staticFields with range := {} } now := by
  unfold answerTo
  rw [RequestRouter.onResponse_other service policy now tasks (withoutRange_parsed parsed _) route]
  have admitted : RequestRouter.admitTarget target (text "GET") = some none :=
    (if_neg path).trans (if_pos (by decide))
  rw [show (withoutRange request (text "GET")).method = text "GET" from rfl, admitted]
  dsimp only
  rw [if_neg (by decide), decide_eq_false (show text "GET" ≠ text "HEAD" by decide)]
  rfl

theorem router_files {target : RequestTarget} (parsed : (parseRequestTarget request.target).target = some target)
    (route : (classifyTaskRoute target).kind = .other) (path : target.path ≠ RequestRouter.echoPath)
    (method : request.method = text "GET" ∨ request.method = text "HEAD") :
    ∃ result, service.onValidatedTarget target (request.method = text "HEAD") policy request.staticFields now
        = some result ∧ FramedFor request.method result (answerTo service request policy now tasks) := by
  have twin := router_get service request policy now tasks parsed route path
  have apart : text "GET" ≠ text "HEAD" := by decide
  rcases service.onValidatedTarget_cases target with ⟨status, failed, same⟩ | ⟨file, -, same⟩
  · obtain ⟨body, written⟩ : ∃ body, errorBody status = some body := by
      rcases failed with rfl | rfl | rfl <;> exact ⟨_, rfl⟩
    obtain ⟨result, full, withoutBody, withBody, head⟩ := errorAnswer_headOf written
      (if status = .badRequest || status = .methodNotAllowed then .close else policy)
      (.inr (show text "GET" ∈ methodLists by decide))
    obtain ⟨answer, made, framed⟩ := framedFor_of_headOf (fun omitBody => errorResponse status policy omitBody)
      (answerTo service request policy now tasks) withoutBody withBody head request.method apart
      (twin.trans (same _ _ _ _))
    exact ⟨answer, (same _ _ _ _).trans made, framed⟩
  · refine ⟨_, same _ _ _ _, ?_⟩
    rcases method with get | isHead
    · rw [get, decide_eq_false apart]
      exact .of_body apart (answerFile_framed _ _ _ _ now policy)
    · rw [isHead, decide_eq_true rfl]
      exact ⟨fun no => absurd rfl no, fun _ => ⟨text "GET", _, apart, twin.trans (same _ _ _ _),
        answerFile_headOf _ _ _ _ now policy⟩⟩

theorem IsTaskAnswer.framed {response : ResponseResult} (answer : IsTaskAnswer policy response) :
    Framed response := by
  obtain ⟨status, body, effective, known, -, rfl⟩ := answer
  refine (taskJson_headOf body effective (.inl rfl) ⟨?_, ?_⟩).framed
  · rintro rfl
    cases known
  · rintro rfl
    cases known

/-- **The router's answers are framed.** -/
theorem router_framing :
    ∃ result, (RequestRouter.onResponse service request policy now tasks).1 = some result
      ∧ FramedFor request.method result (answerTo service request policy now tasks) := by
  cases parsed : (parseRequestTarget request.target).target with
  | none =>
    obtain ⟨result, full, withoutBody, withBody, head⟩ :=
      rejectRequest_headOf (parseRequestTarget_known parsed) (.inl rfl)
    rw [RequestRouter.onResponse_unparsed service policy now tasks parsed]
    refine framedFor_of_headOf (fun omitBody => rejectRequest _ omitBody []) _ withoutBody withBody head
      request.method (show text "GET" ≠ text "HEAD" by decide) ?_
    unfold answerTo
    rw [RequestRouter.onResponse_unparsed service policy now tasks (withoutRange_parsed parsed _)]
    rfl
  | some target =>
    by_cases route : (classifyTaskRoute target).kind = .other
    · rw [RequestRouter.onResponse_other service policy now tasks parsed route]
      have others : ∀ method, (RequestRouter.admitTarget target method).join.isSome →
          answerTo service request policy now tasks method = (RequestRouter.admitTarget target method).join := by
        intro method some
        unfold answerTo
        rw [RequestRouter.onResponse_other service policy now tasks (withoutRange_parsed parsed _) route]
        rw [show (withoutRange request method).method = method from rfl]
        rcases admitted : RequestRouter.admitTarget target method with _ | _ | rejected
        · rw [admitted] at some
          cases some
        · rw [admitted] at some
          cases some
        · rfl
      rcases admitTarget_framing target request.method with admitted | ⟨rejected, refused, framed, head⟩
      · rw [admitted]
        dsimp only
        have known := RequestRouter.admitTarget_cases target request.method
        rcases known with ⟨-, ⟨post, -⟩ | ⟨other, path⟩⟩ | ⟨_, refused, -⟩
        · rw [if_pos post]
          exact ⟨_, rfl, .of_body (by rw [post]; decide) (echoResponse_framed request policy)⟩
        · rw [if_neg other]
          refine router_files service request policy now tasks parsed route path ?_
          unfold RequestRouter.admitTarget at admitted
          rw [if_neg path] at admitted
          by_contra neither
          rw [if_neg (by simpa using neither)] at admitted
          obtain ⟨answer, -, same⟩ := Option.map_eq_some_iff.mp admitted
          cases same
        · cases admitted.symm.trans refused
      · rw [refused]
        refine ⟨rejected, rfl, framed, fun isHead => ?_⟩
        obtain ⟨other, full, apart, same, headOf⟩ := head isHead
        exact ⟨other, full, apart, (others other (Option.isSome_of_eq_some same)).trans same, headOf⟩
    · rw [RequestRouter.onResponse_task service policy now tasks parsed route]
      rcases validateTaskRequest_framing (classifyTaskRoute target) request.method policy with
        valid | ⟨rejected, refused, framed, head⟩
      · have served : request.method ≠ text "HEAD" := by
          rcases validateTaskRequest_cases (classifyTaskRoute target) request.method policy with
            ⟨-, served⟩ | ⟨⟨_, refused, -⟩, -⟩
          · exact served.not_head
          · cases valid.symm.trans refused
        exact ⟨_, rfl, .of_body served (IsTaskAnswer.framed policy (onTaskResponse_shape valid tasks))⟩
      · rw [onTaskResponse_refused refused]
        refine ⟨rejected, rfl, framed, fun isHead => ?_⟩
        obtain ⟨other, full, apart, same, headOf⟩ := head isHead
        refine ⟨other, full, apart, ?_, headOf⟩
        unfold answerTo
        rw [RequestRouter.onResponse_task service policy now tasks (withoutRange_parsed parsed _) route]
        have again : validateTaskRequest (classifyTaskRoute target) (withoutRange request other).method policy
            = some full := same
        rw [onTaskResponse_refused again]

end Router

/-- **The head callback's refusals are framed.** -/
theorem headers_framing (head : RequestHead) (policy : ConnectionPolicy) {rejected : ResponseResult}
    (refused : RequestRouter.onRequestHeaders head policy = some (some rejected)) :
    FramedFor head.method rejected
      fun method => (RequestRouter.onRequestHeaders { head with method := method } policy).join := by
  unfold RequestRouter.onRequestHeaders at refused ⊢
  dsimp only at refused ⊢
  cases parsed : (parseRequestTarget head.target).target with
  | none =>
    rw [parsed] at refused
    obtain ⟨result, full, withoutBody, withBody, headOf⟩ :=
      rejectRequest_headOf (parseRequestTarget_known parsed) (.inl rfl)
    obtain ⟨answer, made, framed⟩ := framedFor_of_headOf (fun omitBody => rejectRequest _ omitBody []) (fun method =>
        (some <$> rejectRequest (parseRequestTarget head.target).status (decide (method = text "HEAD")) []).join)
      withoutBody withBody headOf head.method (show text "GET" ≠ text "HEAD" by decide) (by
        rw [decide_eq_false (show text "GET" ≠ text "HEAD" by decide)]
        cases rejectRequest (parseRequestTarget head.target).status false [] <;> rfl)
    dsimp only at refused made
    rw [made] at refused
    cases refused
    exact framed
  | some target =>
    rw [parsed] at refused
    dsimp only at refused ⊢
    split at refused
    case isTrue route =>
      simp only [if_pos route]
      unfold onTaskHeaders at refused ⊢
      rcases validateTaskRequest_framing (classifyTaskRoute target) head.method .close with
        valid | ⟨answer, made, framed⟩
      · cases (Option.some.inj refused).symm.trans valid
      · obtain rfl := Option.some.inj ((Option.some.inj refused).symm.trans made)
        exact framed
    case isFalse route =>
      simp only [if_neg route]
      rcases admitTarget_framing target head.method with admitted | ⟨answer, made, framed⟩
      · cases refused.symm.trans admitted
      · obtain rfl := Option.some.inj (Option.some.inj (refused.symm.trans made))
        exact framed

/-- The statuses of the error answers of `Session::onMessage` and `Session::onRequestHeaders`. -/
def sessionStatuses : List Status :=
  [.badRequest, .contentTooLarge, .expectationFailed, .notImplemented, .internalServerError]

/-- An error answer of the session: always `close`, and the default of the allowed methods. -/
def sessionError (status : Status) (omitBody : Bool) : Option ResponseResult :=
  errorAnswer status .close omitBody (text "GET")

/-- **Every final response is correctly framed**: what the router answers, which it always does; what the head
callback refuses with; the overload, timeout and failure answers of the task handler; and the session's error
answers. An answer to `HEAD` has the header that the same target is answered with under another method,
without a range, and nothing behind it. -/
theorem response_framing :
    (∀ (service : StaticFileService) (request : HttpRequest) (policy : ConnectionPolicy) (now : Int)
      (tasks : TaskService),
      ∃ result, (RequestRouter.onResponse service request policy now tasks).1 = some result
        ∧ FramedFor request.method result (answerTo service request policy now tasks))
    ∧ (∀ (head : RequestHead) (policy : ConnectionPolicy) (rejected : ResponseResult),
      RequestRouter.onRequestHeaders head policy = some (some rejected) →
      FramedFor head.method rejected
        fun method => (RequestRouter.onRequestHeaders { head with method := method } policy).join)
    ∧ (Framed overloadResponse ∧ Framed timeoutResponse ∧ Framed failureResponse)
    ∧ ∀ status ∈ sessionStatuses, ∃ result full, sessionError status true = some result
      ∧ sessionError status false = some full ∧ HeadOf result full := by
  refine ⟨router_framing, fun head policy rejected refused => headers_framing head policy refused, ?_, ?_⟩
  · have whole : ∀ {status : Status}, status = .serviceUnavailable ∨ status = .internalServerError →
        status ≠ .notModified ∧ status ≠ .partialContent := by
      rintro status (rfl | rfl) <;> exact ⟨(fun other => nomatch other), fun other => nomatch other⟩
    exact ⟨(taskJson_headOf _ .close (.inl rfl) (whole (.inl rfl))).framed,
      (taskJson_headOf _ .close (.inl rfl) (whole (.inl rfl))).framed,
      (taskJson_headOf _ .close (.inl rfl) (whole (.inr rfl))).framed⟩
  · intro status member
    obtain ⟨body, written⟩ : ∃ body, errorBody status = some body := by
      simp only [sessionStatuses, List.mem_cons, List.not_mem_nil, or_false] at member
      rcases member with rfl | rfl | rfl | rfl | rfl <;> exact ⟨_, rfl⟩
    exact errorAnswer_headOf written .close (.inr (show text "GET" ∈ methodLists by decide))

end HpServer.App
