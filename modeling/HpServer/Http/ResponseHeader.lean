/-
**The header of a response as a status line and fields.**

The source writes a header as one text. Here it is read back: the lines up to the first empty line, and the
payload behind it.

* `cutHeader` — the lines of a response and its payload.
* `makeResponseHeader_eq`, `makeStaticResponseHeader_eq`, `makeTaskJsonResponse_bytes` — **what each builder
  writes is the header of a status and a list of fields.**
* `cutHeader_headerOf` — **where every field is clean, the lines are the status line and the fields.**
-/

import HpServer.Http.HttpResponse
import HpServer.Library.Lines

namespace HpServer.Http

open Lines

/-- The lines of a response up to the first empty line, and what is behind it. -/
def cutHeader (bytes : Bytes) : Option (List Bytes × Bytes) := cutBlock cr lf bytes

def policyText : ConnectionPolicy → Bytes
  | .close => text "close"
  | .keepAlive => text "keep-alive"

def statusText (status : Status) : Bytes :=
  text "HTTP/1.1 " ++ decimalText status.code ++ text " " ++ reasonPhrase status

/-- A field with its name and its value. -/
abbrev Field := Bytes × Bytes

def fieldLine (field : Field) : Bytes := field.1 ++ text ": " ++ field.2

/-- The header of a status and some fields. -/
def headerOf (status : Status) (fields : List Field) : Bytes :=
  render cr lf (statusText status :: fields.map fieldLine)

/-- The fields of `makeResponseHeader`. -/
def responseFields (status : Status) (contentLength : Nat) (contentType allowedMethods : Bytes)
    (policy : ConnectionPolicy) : List Field :=
  [(text "Content-Length", decimalText contentLength), (text "Content-Type", contentType),
    (text "Connection", policyText policy)]
    ++ if status = .methodNotAllowed && !allowedMethods.isEmpty then [(text "Allow", allowedMethods)] else []

/-- A field that is there or not. -/
def optionalField (name : Bytes) (value : Option Bytes) : List Field := (value.map fun v => (name, v)).toList

/-- The fields of `makeStaticResponseHeader`. -/
def staticResponseFields (status : Status) (contentLength : Nat) (contentType : Bytes)
    (policy : ConnectionPolicy) (metadata : StaticResponseMetadata) : List Field :=
  (if status = .notModified then []
    else [(text "Content-Length", decimalText contentLength), (text "Content-Type", contentType)])
    ++ [(text "Connection", policyText policy), (text "Date", metadata.date), (text "ETag", metadata.entityTag)]
    ++ optionalField (text "Last-Modified") metadata.lastModified
    ++ [(text "Accept-Ranges", text "bytes")]
    ++ optionalField (text "Content-Range") metadata.contentRange

/-! ### The builders -/

theorem headerOf_eq (status : Status) (fields : List Field) :
    headerOf status fields
      = statusLine status ++ (fields.map fun field => fieldLine field ++ crlf).flatten ++ crlf := by
  have all := render_append (r := cr) (n := lf) (fields.map fieldLine) []
  rw [List.append_nil, List.map_map] at all
  unfold headerOf
  rw [render, all]
  unfold statusLine statusText
  have last : text "\r\n" = crlf := rfl
  simp [last, render, Function.comp_def]

theorem connectionLine_eq (policy : ConnectionPolicy) :
    connectionLine policy = text "Connection" ++ text ": " ++ policyText policy ++ crlf := by
  cases policy <;> rfl

theorem optionalLine_eq (name : Bytes) (value : Option Bytes) :
    optionalLine (name ++ text ": ") value
      = ((optionalField name value).map fun field => fieldLine field ++ crlf).flatten := by
  have last : text "\r\n" = crlf := rfl
  cases value <;> simp [optionalLine, optionalField, fieldLine, last]

theorem makeResponseHeader_eq (status : Status) (contentLength : Nat) (contentType allowedMethods : Bytes)
    (policy : ConnectionPolicy) :
    makeResponseHeader status contentLength contentType allowedMethods policy
      = headerOf status (responseFields status contentLength contentType allowedMethods policy) := by
  have last : text "\r\n" = crlf := rfl
  have names : text "Content-Length: " = text "Content-Length" ++ text ": "
      ∧ text "Content-Type: " = text "Content-Type" ++ text ": "
      ∧ text "Allow: " = text "Allow" ++ text ": " := ⟨rfl, rfl, rfl⟩
  rw [headerOf_eq]
  unfold makeResponseHeader responseFields
  rw [names.1, names.2.1, names.2.2, last, connectionLine_eq]
  split <;> simp [fieldLine]

theorem makeStaticResponseHeader_eq (status : Status) (contentLength : Nat) (contentType : Bytes)
    (policy : ConnectionPolicy) (metadata : StaticResponseMetadata) :
    makeStaticResponseHeader status contentLength contentType policy metadata
      = headerOf status (staticResponseFields status contentLength contentType policy metadata) := by
  have last : text "\r\n" = crlf := rfl
  have names : text "Content-Length: " = text "Content-Length" ++ text ": "
      ∧ text "Content-Type: " = text "Content-Type" ++ text ": "
      ∧ text "Date: " = text "Date" ++ text ": "
      ∧ text "\r\nETag: " = crlf ++ text "ETag" ++ text ": "
      ∧ text "Last-Modified: " = text "Last-Modified" ++ text ": "
      ∧ text "Accept-Ranges: bytes\r\n" = text "Accept-Ranges" ++ text ": " ++ text "bytes" ++ crlf
      ∧ text "Content-Range: " = text "Content-Range" ++ text ": " := ⟨rfl, rfl, rfl, rfl, rfl, rfl, rfl⟩
  obtain ⟨length, type, date, tag, modified, ranges, range⟩ := names
  rw [headerOf_eq]
  unfold makeStaticResponseHeader staticResponseFields
  rw [length, type, date, tag, modified, ranges, range, last, connectionLine_eq, optionalLine_eq,
    optionalLine_eq]
  split <;> simp [fieldLine]

/-- The task API's answers have one field more. -/
def taskFields (status : Status) (contentLength : Nat) (allowedMethods : Bytes) (policy : ConnectionPolicy) :
    List Field :=
  responseFields status contentLength (text "application/json") allowedMethods policy
    ++ [(text "Cache-Control", text "no-store")]

theorem makeTaskJsonResponse_bytes (status : Status) (body : Bytes) (policy : ConnectionPolicy)
    (omitBody : Bool) (allowedMethods : Bytes) :
    (makeTaskJsonResponse status body policy omitBody allowedMethods).bytes
      = headerOf status (taskFields status body.length allowedMethods policy)
        ++ (if omitBody then [] else body) := by
  unfold makeTaskJsonResponse
  dsimp only
  rw [makeResponseHeader_eq]
  refine congrArg (· ++ _) ?_
  have inserted := render_insert (r := cr) (n := lf)
    (statusText status :: (responseFields status body.length (text "application/json") allowedMethods policy).map
      fieldLine) (fieldLine (text "Cache-Control", text "no-store"))
  unfold headerOf taskFields insertLine
  rw [List.map_append, ← List.cons_append]
  exact inserted

/-! ### Reading a header -/

/-- A text without the bytes that end a line or a string. -/
def isClean (value : Bytes) : Bool := value.all fun b => b ≠ cr && b ≠ lf && b ≠ nul

theorem isClean_append {first second : Bytes} :
    isClean (first ++ second) = (isClean first && isClean second) := List.all_append

theorem isClean_of_mem {value : Bytes} (clean : ∀ b ∈ value, 0x20 ≤ b) : isClean value := by
  refine List.all_eq_true.mpr fun b member => ?_
  have printable := clean b member
  simp only [Bool.and_eq_true, decide_eq_true_eq]
  refine ⟨⟨?_, ?_⟩, ?_⟩ <;> rintro rfl <;> revert printable <;> decide

theorem isClean_decimalText (n : Nat) : isClean (decimalText n) :=
  isClean_of_mem fun _ member => UInt8.le_trans (by decide) (decimalText_digit member).1

theorem isLine_of_clean {value : Bytes} (clean : isClean value) (nonempty : value ≠ []) :
    IsLine cr lf value := by
  have each : ∀ b ∈ value, (b ≠ cr ∧ b ≠ lf) ∧ b ≠ nul := by simpa [isClean] using clean
  exact ⟨nonempty, fun member => (each cr member).1.1 rfl, fun member => (each lf member).1.2 rfl⟩

theorem isClean_reasonPhrase (status : Status) : isClean (reasonPhrase status) := by
  cases status <;> decide

theorem isClean_statusText (status : Status) : isClean (statusText status) := by
  have ends : isClean (text "HTTP/1.1 ") ∧ isClean (text " ") := by decide
  simp only [statusText, isClean_append, ends.1, ends.2, isClean_decimalText, isClean_reasonPhrase, Bool.and_self]

/-- Fields whose names and values stay in their lines. -/
def CleanFields (fields : List Field) : Prop := ∀ field ∈ fields, isClean field.1 ∧ isClean field.2

theorem isClean_fieldLine {field : Field} (clean : isClean field.1 ∧ isClean field.2) :
    isClean (fieldLine field) := by
  have between : isClean (text ": ") := by decide
  simp only [fieldLine, isClean_append, clean.1, clean.2, between, Bool.and_self]

/-- **A header is read back as its status line and its fields**, with the payload behind it. -/
theorem cutHeader_headerOf (status : Status) {fields : List Field} (clean : CleanFields fields)
    (payload : Bytes) :
    cutHeader (headerOf status fields ++ payload) = some (statusText status :: fields.map fieldLine, payload) := by
  have mark : ∀ {first second third : Bytes}, second ≠ [] → first ++ second ++ third ≠ [] := by
    intro first second third nonempty
    exact List.append_ne_nil_of_left_ne_nil (List.append_ne_nil_of_right_ne_nil _ nonempty) _
  refine cutBlock_render (by decide) (List.forall_mem_cons.mpr ⟨?_, fun line member => ?_⟩) payload
  · exact isLine_of_clean (isClean_statusText status) (mark (by decide))
  · obtain ⟨field, inside, rfl⟩ := List.mem_map.mp member
    exact isLine_of_clean (isClean_fieldLine (clean field inside)) (mark (by decide))

theorem isClean_policyText (policy : ConnectionPolicy) : isClean (policyText policy) := by
  cases policy <;> decide

/-- A header field list whose name is a literal. -/
theorem CleanFields.append {first second : List Field} (one : CleanFields first) (two : CleanFields second) :
    CleanFields (first ++ second) :=
  fun field member => (List.mem_append.mp member).elim (one field) (two field)

theorem responseFields_clean (status : Status) (contentLength : Nat) {contentType allowedMethods : Bytes}
    (policy : ConnectionPolicy) (type : isClean contentType) (allowed : isClean allowedMethods) :
    CleanFields (responseFields status contentLength contentType allowedMethods policy) := by
  refine CleanFields.append ?_ ?_
  · simp only [CleanFields, List.forall_mem_cons, List.not_mem_nil, false_implies, implies_true, and_true]
    exact ⟨⟨by decide, isClean_decimalText _⟩, ⟨by decide, type⟩, by decide, isClean_policyText policy⟩
  · split
    · simp only [CleanFields, List.mem_singleton, forall_eq]
      exact ⟨by decide, allowed⟩
    · exact fun _ none => absurd none List.not_mem_nil

theorem taskFields_clean (status : Status) (contentLength : Nat) {allowedMethods : Bytes}
    (policy : ConnectionPolicy) (allowed : isClean allowedMethods) :
    CleanFields (taskFields status contentLength allowedMethods policy) := by
  refine (responseFields_clean status contentLength policy (by decide) allowed).append ?_
  simp only [CleanFields, List.mem_singleton, forall_eq]
  exact ⟨by decide, by decide⟩

end HpServer.Http
