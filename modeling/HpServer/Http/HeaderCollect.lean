/-
**What the field lines of a header section add up to.**

The parser judges a field line by what it has collected so far. Over a whole list of lines these
judgements are conditions on the values of each name, whatever the order of the lines.

* `valuesOf` — the trimmed values of one field name, in their order; `Consistent` — the conditions.
* `summary` — what is collected of a list of field lines.
* `applyHeader_step` — **one more line is accepted exactly where the list stays consistent**, and then
  the summary of the longer list has been collected.
* `collectLines_sound`, `collectLines_complete` — a list of lines is accepted exactly where it is a
  consistent list of field lines.
-/

import HpServer.Http.HeaderLines

namespace HpServer.Http

/-! ### Values by name -/

/-- The trimmed values of the fields of one name. -/
def valuesOf (fields : List FieldLine) (name : HeaderName) : List Bytes :=
  (fields.filter fun l => l.Named name.text).map FieldLine.trimmed

@[simp] theorem valuesOf_nil (name : HeaderName) : valuesOf [] name = [] := rfl

theorem valuesOf_append (fields : List FieldLine) (l : FieldLine) (name : HeaderName) :
    valuesOf (fields ++ [l]) name =
      if l.known = some name then valuesOf fields name ++ [l.trimmed] else valuesOf fields name := by
  have known := l.known_eq_some name
  unfold valuesOf
  rw [List.filter_append, List.map_append]
  by_cases named : l.Named name.text
  · simp [named, known]
  · simp [named, known]

/-- A line of a known name adds its value to that name. -/
theorem valuesOf_known {fields : List FieldLine} {l : FieldLine} {name : HeaderName}
    (known : l.known = some name) :
    valuesOf (fields ++ [l])
      = Function.update (valuesOf fields) name (valuesOf fields name ++ [l.trimmed]) := by
  funext other
  rw [valuesOf_append, known]
  by_cases same : other = name
  · rw [if_pos (by rw [same]), same, Function.update_self]
  · rw [if_neg fun h => same (Option.some.inj h).symm, Function.update_of_ne same]

theorem valuesOf_unknown {fields : List FieldLine} {l : FieldLine} (known : l.known = none) :
    valuesOf (fields ++ [l]) = valuesOf fields := by
  funext name
  rw [valuesOf_append, known, if_neg (by simp)]

/-- At most one value, of the given kind. -/
def Single (values : List Bytes) (P : Bytes → Prop) : Prop := values.length ≤ 1 ∧ ∀ v ∈ values, P v

theorem single_nil (P : Bytes → Prop) : Single [] P := ⟨Nat.zero_le 1, fun _ member => by cases member⟩

theorem single_append {values : List Bytes} {value : Bytes} {P : Bytes → Prop} :
    Single (values ++ [value]) P ↔ values = [] ∧ P value := by
  refine ⟨fun ⟨one, each⟩ => ?_, ?_⟩
  · have none : values = [] := by
      rw [List.length_append, List.length_singleton] at one
      exact List.eq_nil_of_length_eq_zero (by omega)
    exact ⟨none, each value (by simp)⟩
  · rintro ⟨rfl, holds⟩
    exact ⟨le_rfl, fun v member => by rwa [List.mem_singleton.mp member]⟩

/-- The digits of a length that fits 64 bits. -/
def LengthValue (value : Bytes) : Prop :=
  value ≠ [] ∧ value.all isDigit = true ∧ decimal value ≤ uint64Max

/-- Elements made of token characters; an element may be empty. -/
def ConnectionList (value : Bytes) : Prop :=
  ∀ element ∈ elements value, element.all isTokenCharacter = true

/-- What the values of a name must satisfy together. -/
def valueRule : HeaderName → List Bytes → Prop
  | .host, values => Single values (· ≠ [])
  | .contentLength, values => Single values LengthValue
  | .transferEncoding, values => Single values CodingList
  | .expect, values => Single values (· ≠ [])
  | .trailer, values => Single values TrailerList
  | .connection, values => ∀ v ∈ values, ConnectionList v
  | _, _ => True

/-- The conditions the parser puts on field lines as they come. -/
structure Consistent (fields : List FieldLine) : Prop where
  lines : ∀ l ∈ fields, l.WellFormed
  values : ∀ name, valueRule name (valuesOf fields name)
  framing : valuesOf fields .contentLength = [] ∨ valuesOf fields .transferEncoding = []

theorem consistent_nil : Consistent [] where
  lines l member := by cases member
  values name := by
    rw [valuesOf_nil]
    cases name <;> first | exact single_nil _ | exact fun v member => by cases member | trivial
  framing := .inl rfl

/-! ### The summary -/

/-- The first value of a name, and whether there are more. -/
def firstField (values : List Bytes) : StaticField where
  value := values.headD []
  present := !values.isEmpty
  duplicate := decide (2 ≤ values.length)

/-- All values of a name in one list. -/
def joinedField (values : List Bytes) : StaticField where
  value := [comma].intercalate values
  present := !values.isEmpty
  duplicate := decide (2 ≤ values.length)

/-- What is collected of the values of each name, apart from the byte count of the static fields. -/
def summarize (values : HeaderName → List Bytes) : HeaderFields where
  hostSeen := !(values .host).isEmpty
  contentLengthSeen := !(values .contentLength).isEmpty
  closeRequested := (values .connection).any fun v => (elements v).any fun e => Spelled e (text "close")
  contentLength := ((values .contentLength).map decimal).sum
  staticFields :=
    { ifNoneMatch := joinedField (values .ifNoneMatch)
      ifModifiedSince := firstField (values .ifModifiedSince)
      range := firstField (values .range)
      ifRange := firstField (values .ifRange) }
  contentType :=
    { value := (values .contentType).headD []
      present := !(values .contentType).isEmpty
      duplicate := decide (2 ≤ (values .contentType).length) }
  transferEncodingSeen := !(values .transferEncoding).isEmpty
  unsupportedCoding := (values .transferEncoding).any fun v => (elements v).any fun e => !isChunked e
  expectSeen := !(values .expect).isEmpty
  expectContinue := (values .expect).any fun v => Spelled v (text "100-continue")
  trailerDeclarationSeen := !(values .trailer).isEmpty

def summary (fields : List FieldLine) : HeaderFields := summarize (valuesOf fields)

/-- The bytes of the field lines, without their line ends. -/
def fieldBytes (fields : List FieldLine) : Nat := (fields.map (·.bytes.length)).sum

theorem fieldBytes_append (fields : List FieldLine) (l : FieldLine) :
    fieldBytes (fields ++ [l]) = fieldBytes fields + l.bytes.length := by
  simp [fieldBytes]

/-- **The parser has collected these field lines.** -/
def Collected (fields : List FieldLine) (h : HeaderFields) : Prop :=
  ∃ bytes, h = { summary fields with staticFieldBytes := bytes } ∧ bytes ≤ fieldBytes fields

theorem collected_nil : Collected [] {} := ⟨0, rfl, le_rfl⟩

/-! ### One more line -/

/-- What a line must satisfy after the lines before it. -/
structure Allowed (fields : List FieldLine) (l : FieldLine) : Prop where
  value : ∀ name, l.known = some name → valueRule name (valuesOf fields name ++ [l.trimmed])
  contentLength : l.known = some .contentLength → valuesOf fields .transferEncoding = []
  transferEncoding : l.known = some .transferEncoding → valuesOf fields .contentLength = []

theorem consistent_append {fields : List FieldLine} {l : FieldLine} (consistent : Consistent fields) :
    Consistent (fields ++ [l]) ↔ l.WellFormed ∧ Allowed fields l := by
  have values := valuesOf_append fields l
  refine ⟨fun next => ⟨next.lines l (by simp), fun name known => ?_, fun known => ?_, fun known => ?_⟩,
    fun ⟨wellFormed, allowed⟩ => ⟨fun m member => ?_, fun name => ?_, ?_⟩⟩
  · have rule := next.values name
    rwa [values, if_pos known] at rule
  · have framing := next.framing
    rw [values, values, if_pos known, if_neg (by rw [known]; decide)] at framing
    exact framing.resolve_left (by simp)
  · have framing := next.framing
    rw [values, values, if_neg (by rw [known]; decide), if_pos known] at framing
    exact framing.resolve_right (by simp)
  · rcases List.mem_append.mp member with h | h
    · exact consistent.lines m h
    · rwa [List.mem_singleton.mp h]
  · rw [values]
    split
    · next known => exact allowed.value name known
    · exact consistent.values name
  · rw [values, values]
    split
    · next known =>
      rw [if_neg (by rw [known]; decide)]
      exact .inr (allowed.contentLength known)
    · split
      · next known => exact .inl (allowed.transferEncoding known)
      · exact consistent.framing

theorem allowed_iff {fields : List FieldLine} {l : FieldLine} {name : HeaderName}
    (known : l.known = some name) (framing : name ≠ .contentLength ∧ name ≠ .transferEncoding) :
    Allowed fields l ↔ valueRule name (valuesOf fields name ++ [l.trimmed]) := by
  refine ⟨fun allowed => allowed.value name known, fun rule => ⟨fun other h => ?_, fun h => ?_, fun h => ?_⟩⟩
  · obtain rfl := Option.some.inj (known.symm.trans h)
    exact rule
  · exact absurd (Option.some.inj (known.symm.trans h)) framing.1
  · exact absurd (Option.some.inj (known.symm.trans h)) framing.2

/-! ### Static fields -/

theorem intercalate_append (values : List Bytes) (value : Bytes) :
    [comma].intercalate (values ++ [value]) =
      if values = [] then value else [comma].intercalate values ++ [comma] ++ value := by
  induction values with
  | nil => simp [List.intercalate]
  | cons first values ih =>
    cases values with
    | nil => simp [List.intercalate]
    | cons second values =>
      rw [if_neg (List.cons_ne_nil _ _)] at ih ⊢
      simp only [List.intercalate, List.cons_append, List.intersperse_cons_cons, List.flatten_cons] at ih ⊢
      rw [ih]
      simp

/-- The size check lets every field of a section of the allowed size through. -/
theorem collectStaticField_fits {staticFieldBytes : Nat} (field : StaticField) {value : Bytes}
    (merge : Bool) (room : staticFieldBytes + value.length + 1 ≤ kMaxHeaderBytes) :
    ∃ total, total ≤ staticFieldBytes + value.length + 1 ∧
      collectStaticField staticFieldBytes field value merge =
        some
          ({ value :=
              if merge || !field.present then
                (if merge && field.present then field.value ++ [comma] else field.value) ++ value
              else if merge && field.present then field.value ++ [comma] else field.value
             present := true
             duplicate := field.present }, total) := by
  unfold collectStaticField
  dsimp only
  by_cases separated : (merge && field.present) = true
  · simp only [separated, if_true]
    rw [if_neg (by
      simp only [gt_iff_lt, Bool.or_eq_true, decide_eq_true_eq]
      omega)]
    exact ⟨_, by omega, rfl⟩
  · simp only [separated, Bool.false_eq_true, if_false]
    rw [if_neg (by
      simp only [gt_iff_lt, Bool.or_eq_true, decide_eq_true_eq]
      omega)]
    exact ⟨_, by omega, rfl⟩

/-- A field of which the first value is kept. -/
theorem storeStaticField_first {h : HeaderFields} (values : List Bytes) {value : Bytes}
    (store : StaticField → StaticRequestFields)
    (room : h.staticFieldBytes + value.length + 1 ≤ kMaxHeaderBytes) :
    ∃ total, total ≤ h.staticFieldBytes + value.length + 1 ∧
      storeStaticField h (firstField values) value false store =
        (true,
          { h with staticFields := store (firstField (values ++ [value])), staticFieldBytes := total }) := by
  obtain ⟨total, bound, collected⟩ := collectStaticField_fits (firstField values) false room
  refine ⟨total, bound, ?_⟩
  unfold storeStaticField
  rw [collected]
  cases values with
  | nil => rfl
  | cons first values =>
    cases values <;> rfl

/-- A field of which all values are kept. -/
theorem storeStaticField_joined {h : HeaderFields} (values : List Bytes) {value : Bytes}
    (store : StaticField → StaticRequestFields)
    (room : h.staticFieldBytes + value.length + 1 ≤ kMaxHeaderBytes) :
    ∃ total, total ≤ h.staticFieldBytes + value.length + 1 ∧
      storeStaticField h (joinedField values) value true store =
        (true,
          { h with staticFields := store (joinedField (values ++ [value])), staticFieldBytes := total }) := by
  obtain ⟨total, bound, collected⟩ := collectStaticField_fits (joinedField values) true room
  refine ⟨total, bound, ?_⟩
  unfold storeStaticField
  rw [collected]
  have joined := intercalate_append values value
  cases values with
  | nil =>
    unfold joinedField
    rw [joined]
    rfl
  | cons first values =>
    rw [if_neg (List.cons_ne_nil _ _)] at joined
    unfold joinedField
    rw [joined]
    cases values <;> rfl

theorem trimOws_length_le (value : Bytes) : (trimOws value).length ≤ value.length := by
  unfold trimOws
  exact (List.rdropWhile_prefix _ _).length_le.trans (List.length_dropWhile_le _ _)

/-- A value is blank where trimming leaves nothing. -/
theorem trimOws_eq_nil (value : Bytes) : trimOws value = [] ↔ (value.any fun c => !isOws c) = false := by
  have all : (value.any fun c => !isOws c) = false ↔ ∀ c ∈ value, isOws c = true := by simp
  unfold trimOws
  rw [List.rdropWhile_eq_nil_iff, all]
  refine ⟨fun blank => ?_, fun blank c member => ?_⟩
  · refine List.dropWhile_eq_nil_iff.mp ?_
    cases rest : value.dropWhile isOws with
    | nil => rfl
    | cons c others =>
      have stop := List.head?_dropWhile_not isOws value
      rw [rest] at stop blank
      exact absurd (blank c List.mem_cons_self) (by simpa using stop)
  · exact blank c ((List.dropWhile_sublist _).mem member)

theorem trimmed_length_lt (l : FieldLine) : l.trimmed.length + 1 ≤ l.bytes.length := by
  have short := trimOws_length_le l.value
  unfold FieldLine.trimmed FieldLine.bytes
  rw [List.length_append, List.length_cons]
  omega

/-! ### The step -/

/-- The verdict on one more line, and what is collected then. -/
def Extends (fields : List FieldLine) (l : FieldLine) (outcome : Bool × HeaderFields) : Prop :=
  (outcome.1 = true ↔ Allowed fields l) ∧ (outcome.1 = true → Collected (fields ++ [l]) outcome.2)

section Step

variable {fields : List FieldLine} {l : FieldLine} {h : HeaderFields}

/-- What the summary of a longer list is, for a line of a known name. -/
theorem summary_append {name : HeaderName} (known : l.known = some name) :
    summary (fields ++ [l])
      = summarize (Function.update (valuesOf fields) name (valuesOf fields name ++ [l.trimmed])) := by
  rw [summary, valuesOf_known known]

theorem Collected.of_known {name : HeaderName} (bytes : Nat) (known : l.known = some name)
    (same : h = { summarize (Function.update (valuesOf fields) name
      (valuesOf fields name ++ [l.trimmed])) with staticFieldBytes := bytes })
    (bound : bytes ≤ fieldBytes fields + l.bytes.length) : Collected (fields ++ [l]) h :=
  ⟨bytes, by rw [summary_append known]; exact same, by rw [fieldBytes_append]; exact bound⟩

/-- A line of a name that is not looked at. -/
theorem extends_unknown (collected : Collected fields h) (known : l.known = none) :
    Extends fields l (true, h) := by
  obtain ⟨bytes, rfl, bound⟩ := collected
  refine ⟨⟨fun _ => ⟨fun name h => ?_, fun h => ?_, fun h => ?_⟩, fun _ => rfl⟩, fun _ =>
    ⟨bytes, ?_, ?_⟩⟩
  · rw [known] at h; cases h
  · rw [known] at h; cases h
  · rw [known] at h; cases h
  · rw [summary, summary, valuesOf_unknown known]
  · rw [fieldBytes_append]
    omega

/-- A line of a name whose values are always allowed: what is collected decides. -/
theorem Extends.of_free {next : HeaderFields} {name : HeaderName} (known : l.known = some name)
    (free : ∀ values, valueRule name values)
    (framing : name ≠ .contentLength ∧ name ≠ .transferEncoding)
    (collected : Collected (fields ++ [l]) next) : Extends fields l (true, next) :=
  ⟨⟨fun _ => (allowed_iff known framing).mpr (free _), fun _ => rfl⟩, fun _ => collected⟩

variable {bytes : Nat} {nonemptyValue : Bool}

theorem extends_contentType (bound : bytes ≤ fieldBytes fields)
    (known : l.known = some .contentType) :
    Extends fields l (applyHeader (some .contentType) l.trimmed nonemptyValue
      { summary fields with staticFieldBytes := bytes }).value := by
  have first : ∀ values : List Bytes,
      (⟨if (!values.isEmpty) = true then values.headD [] else l.trimmed, true, !values.isEmpty⟩
          : ContentTypeField)
        = ⟨(values ++ [l.trimmed]).headD [], !(values ++ [l.trimmed]).isEmpty,
            decide (2 ≤ (values ++ [l.trimmed]).length)⟩ := by
    intro values
    cases values with
    | nil => rfl
    | cons first values => cases values <;> rfl
  refine .of_free known (fun _ => trivial) (by decide) (.of_known bytes known ?_ (by omega))
  exact congrArg (fun field => { summary fields with contentType := field, staticFieldBytes := bytes })
    (first _)

/-- The room a static field finds in a section of the allowed size. -/
theorem static_room (bound : bytes ≤ fieldBytes fields)
    (room : fieldBytes (fields ++ [l]) ≤ kMaxHeaderBytes) :
    bytes + l.trimmed.length + 1 ≤ kMaxHeaderBytes ∧
      ∀ total, total ≤ bytes + l.trimmed.length + 1 → total ≤ fieldBytes fields + l.bytes.length := by
  have short := trimmed_length_lt l
  rw [fieldBytes_append] at room
  exact ⟨by omega, fun total small => by omega⟩

theorem extends_ifNoneMatch (bound : bytes ≤ fieldBytes fields)
    (room : fieldBytes (fields ++ [l]) ≤ kMaxHeaderBytes) (known : l.known = some .ifNoneMatch) :
    Extends fields l (applyHeader (some .ifNoneMatch) l.trimmed nonemptyValue
      { summary fields with staticFieldBytes := bytes }).value := by
  obtain ⟨fits, grow⟩ := static_room (l := l) bound room
  obtain ⟨total, small, stored⟩ := storeStaticField_joined
    (h := { summary fields with staticFieldBytes := bytes }) (valuesOf fields .ifNoneMatch)
    (fun field => { (summary fields).staticFields with ifNoneMatch := field }) fits
  show Extends fields l (storeStaticField _ (joinedField _) _ true _)
  rw [stored]
  exact .of_free known (fun _ => trivial) (by decide) (.of_known total known rfl (grow total small))

/-- The fields of which the first value is kept. -/
theorem extends_first {name : HeaderName} (store : StaticField → StaticRequestFields)
    (bound : bytes ≤ fieldBytes fields) (room : fieldBytes (fields ++ [l]) ≤ kMaxHeaderBytes)
    (known : l.known = some name) (free : ∀ values, valueRule name values)
    (framing : name ≠ .contentLength ∧ name ≠ .transferEncoding)
    (same : ∀ total, { summary fields with
        staticFields := store (firstField (valuesOf fields name ++ [l.trimmed]))
        staticFieldBytes := total }
      = { summarize (Function.update (valuesOf fields) name (valuesOf fields name ++ [l.trimmed])) with
          staticFieldBytes := total }) :
    Extends fields l (storeStaticField { summary fields with staticFieldBytes := bytes }
      (firstField (valuesOf fields name)) l.trimmed false store) := by
  obtain ⟨fits, grow⟩ := static_room (l := l) bound room
  obtain ⟨total, small, stored⟩ := storeStaticField_first
    (h := { summary fields with staticFieldBytes := bytes }) (valuesOf fields name) store fits
  rw [stored]
  exact .of_free known free framing (.of_known total known (same total) (grow total small))

/-- A name that may have one value: the verdict and what is collected. -/
theorem Extends.of_single {outcome : Bool × HeaderFields} {name : HeaderName} {P : Bytes → Prop}
    (known : l.known = some name) (rule : ∀ values, valueRule name values = Single values P)
    (framing : name ≠ .contentLength ∧ name ≠ .transferEncoding)
    (accepts : outcome.1 = true ↔ valuesOf fields name = [] ∧ P l.trimmed)
    (collected : outcome.1 = true → Collected (fields ++ [l]) outcome.2) : Extends fields l outcome := by
  refine ⟨accepts.trans ?_, collected⟩
  rw [allowed_iff known framing, rule, single_append]

theorem extends_host (bound : bytes ≤ fieldBytes fields) (known : l.known = some .host) :
    Extends fields l (applyHeader (some .host) l.trimmed (l.value.any fun c => !isOws c)
      { summary fields with staticFieldBytes := bytes }).value := by
  have blank := trimOws_eq_nil l.value
  have seen : (summary fields).hostSeen = !(valuesOf fields .host).isEmpty := rfl
  refine .of_single known (fun _ => rfl) (by decide) ?_ fun ok => .of_known bytes known ?_ (by omega)
  · simp only [applyHeader, Counted.ite_value, Counted.pure_value, seen]
    by_cases none : valuesOf fields .host = []
    · by_cases some : (l.value.any fun c => !isOws c) = true
      · have full : l.trimmed ≠ [] := fun h => by rw [blank.mp h] at some; cases some
        simp [none, some, full]
      · have empty : l.trimmed = [] := blank.mpr (by simpa using some)
        simp [none, some, empty]
    · simp [none]
  · simp only [applyHeader, Counted.ite_value, Counted.pure_value, seen] at ok ⊢
    split at ok
    · cases ok
    · next accepted =>
      rw [if_neg accepted]
      simp [summarize, summary]

theorem extends_expect (bound : bytes ≤ fieldBytes fields) (known : l.known = some .expect) :
    Extends fields l (applyHeader (some .expect) l.trimmed nonemptyValue
      { summary fields with staticFieldBytes := bytes }).value := by
  have seen : (summary fields).expectSeen = !(valuesOf fields .expect).isEmpty := rfl
  refine .of_single known (fun _ => rfl) (by decide) ?_ fun ok => .of_known bytes known ?_ (by omega)
  · simp only [applyHeader, Counted.ite_value, Counted.bind_value, Counted.pure_value, seen]
    by_cases none : valuesOf fields .expect = []
    · by_cases empty : l.trimmed = []
      · simp [none, empty]
      · simp [none, empty]
    · simp [none]
  · simp only [applyHeader, Counted.ite_value, Counted.bind_value, Counted.pure_value, seen,
      equalsAsciiCaseInsensitive_value] at ok ⊢
    split at ok
    · cases ok
    · next accepted =>
      have none : valuesOf fields .expect = [] := by
        by_contra some
        exact accepted (by simp [some])
      rw [if_neg accepted]
      simp [summarize, summary, none, Spelled]

theorem extends_trailer (bound : bytes ≤ fieldBytes fields) (known : l.known = some .trailer) :
    Extends fields l (applyHeader (some .trailer) l.trimmed nonemptyValue
      { summary fields with staticFieldBytes := bytes }).value := by
  have seen : (summary fields).trailerDeclarationSeen = !(valuesOf fields .trailer).isEmpty := rfl
  obtain ⟨accepts, kept⟩ := validateTokenList_trailers l.trimmed
    { summary fields with staticFieldBytes := bytes, trailerDeclarationSeen := true }
  refine .of_single known (fun _ => rfl) (by decide) ?_ fun ok => .of_known bytes known ?_ (by omega)
  · simp only [applyHeader, Counted.ite_value, Counted.pure_value, seen]
    by_cases none : valuesOf fields .trailer = []
    · simp [none, accepts]
    · simp [none]
  · simp only [applyHeader, Counted.ite_value, Counted.pure_value, seen] at ok ⊢
    split at ok
    · cases ok
    · next accepted =>
      rw [if_neg accepted, kept]
      simp [summarize, summary]

theorem extends_connection (bound : bytes ≤ fieldBytes fields) (consistent : Consistent fields)
    (known : l.known = some .connection) :
    Extends fields l (applyHeader (some .connection) l.trimmed nonemptyValue
      { summary fields with staticFieldBytes := bytes }).value := by
  obtain ⟨accepts, value⟩ := scanConnection_value (l.trimmed.splitOn comma)
    (summary fields).closeRequested
  have rule : valueRule .connection (valuesOf fields .connection ++ [l.trimmed])
      ↔ ConnectionList l.trimmed := by
    have before : ∀ v ∈ valuesOf fields .connection, ConnectionList v := consistent.values .connection
    refine ⟨fun each => each _ (by simp), fun last v member => ?_⟩
    rcases List.mem_append.mp member with h | h
    · exact before v h
    · rwa [List.mem_singleton.mp h]
  refine ⟨?_, fun ok => .of_known bytes known ?_ (by omega)⟩
  · rw [allowed_iff known (by decide), rule]
    exact accepts
  · simp only [applyHeader, Counted.bind_value, Counted.pure_value] at ok ⊢
    rw [value ok]
    simp [summarize, summary, elements]

theorem extends_contentLength (bound : bytes ≤ fieldBytes fields)
    (known : l.known = some .contentLength) :
    Extends fields l (applyHeader (some .contentLength) l.trimmed nonemptyValue
      { summary fields with staticFieldBytes := bytes }).value := by
  have seen : (summary fields).contentLengthSeen = !(valuesOf fields .contentLength).isEmpty := rfl
  have coded : (summary fields).transferEncodingSeen
      = !(valuesOf fields .transferEncoding).isEmpty := rfl
  have length : (summary fields).contentLength
      = ((valuesOf fields .contentLength).map decimal).sum := rfl
  obtain ⟨accepts, value⟩ := scanContentLength_value l.trimmed 0 (Nat.zero_le _)
  have rule : Allowed fields l ↔ valuesOf fields .contentLength = [] ∧
      valuesOf fields .transferEncoding = [] ∧ LengthValue l.trimmed := by
    refine ⟨fun allowed => ?_, fun ⟨fresh, free, length⟩ => ⟨fun name h => ?_, fun _ => free, fun h => ?_⟩⟩
    · obtain ⟨none, length⟩ := single_append.mp (allowed.value _ known)
      exact ⟨none, allowed.contentLength known, length⟩
    · obtain rfl := Option.some.inj (known.symm.trans h)
      exact single_append.mpr ⟨fresh, length⟩
    · exact absurd (known.symm.trans h) (by decide)
  refine ⟨?_, fun ok => .of_known bytes known ?_ (by omega)⟩
  · rw [rule]
    simp only [applyHeader, Counted.ite_value, Counted.bind_value, Counted.pure_value, seen, coded,
      length]
    by_cases none : valuesOf fields .contentLength = []
    · by_cases free : valuesOf fields .transferEncoding = []
      · by_cases empty : l.trimmed = []
        · simp [none, free, empty, LengthValue]
        · simp only [none, free, LengthValue, decimal]
          simpa [empty] using accepts
      · simp [none, free]
    · simp [none]
  · simp only [applyHeader, Counted.ite_value, Counted.bind_value, Counted.pure_value, seen, coded,
      length] at ok ⊢
    split at ok
    · cases ok
    · next accepted =>
      have none : valuesOf fields .contentLength = [] := by
        by_contra some
        exact accepted (by simp [some])
      rw [if_neg accepted]
      rw [none] at ok ⊢
      rw [show ([].map decimal).sum = 0 from rfl] at ok ⊢
      rw [value ok]
      simp [summarize, summary, decimal]

theorem extends_transferEncoding (bound : bytes ≤ fieldBytes fields)
    (known : l.known = some .transferEncoding) :
    Extends fields l (applyHeader (some .transferEncoding) l.trimmed nonemptyValue
      { summary fields with staticFieldBytes := bytes }).value := by
  have guard : ((summary fields).transferEncodingSeen || (summary fields).contentLengthSeen) = true ↔
      ¬(valuesOf fields .transferEncoding = [] ∧ valuesOf fields .contentLength = []) := by
    show (!(valuesOf fields .transferEncoding).isEmpty || !(valuesOf fields .contentLength).isEmpty)
      = true ↔ _
    simp [Classical.or_iff_not_imp_left]
  obtain ⟨accepts, kept⟩ := validateTokenList_codings l.trimmed
    { summary fields with staticFieldBytes := bytes, transferEncodingSeen := true }
  have rule : Allowed fields l ↔ valuesOf fields .transferEncoding = [] ∧
      valuesOf fields .contentLength = [] ∧ CodingList l.trimmed := by
    refine ⟨fun allowed => ?_, fun ⟨fresh, free, codings⟩ => ⟨fun name h => ?_, fun h => ?_, fun _ => free⟩⟩
    · obtain ⟨none, codings⟩ := single_append.mp (allowed.value _ known)
      exact ⟨none, allowed.transferEncoding known, codings⟩
    · obtain rfl := Option.some.inj (known.symm.trans h)
      exact single_append.mpr ⟨fresh, codings⟩
    · exact absurd (known.symm.trans h) (by decide)
  have judged : (applyHeader (some .transferEncoding) l.trimmed nonemptyValue
      { summary fields with staticFieldBytes := bytes }).value =
      if ((summary fields).transferEncodingSeen || (summary fields).contentLengthSeen) = true then
        (false, { summary fields with staticFieldBytes := bytes })
      else
        (validateTokenList l.trimmed false
          { summary fields with staticFieldBytes := bytes, transferEncodingSeen := true }).value :=
    Counted.ite_value _ _ _
  rw [judged]
  by_cases open1 : valuesOf fields .transferEncoding = [] ∧ valuesOf fields .contentLength = []
  · rw [if_neg fun h => guard.mp h open1]
    refine ⟨?_, fun ok => .of_known bytes known ?_ (by omega)⟩
    · rw [rule, accepts]
      simp [open1]
    · rw [kept ok]
      simp [summarize, summary]
  · rw [if_pos (guard.mpr open1)]
    refine ⟨⟨fun h => Bool.noConfusion h, fun allowed => ?_⟩, fun h => Bool.noConfusion h⟩
    exact absurd ⟨(rule.mp allowed).1, (rule.mp allowed).2.1⟩ open1

/-- **One more line is accepted exactly where the list stays consistent.** -/
theorem applyHeader_step (collected : Collected fields h) (consistent : Consistent fields)
    (room : fieldBytes (fields ++ [l]) ≤ kMaxHeaderBytes) :
    Extends fields l (applyHeader l.known l.trimmed (l.value.any fun c => !isOws c) h).value := by
  obtain ⟨bytes, rfl, bound⟩ := collected
  cases known : l.known with
  | none => exact extends_unknown ⟨bytes, rfl, bound⟩ known
  | some name =>
    cases name with
    | contentType => exact extends_contentType bound known
    | ifNoneMatch => exact extends_ifNoneMatch bound room known
    | ifModifiedSince =>
      exact extends_first (fun field => { (summary fields).staticFields with ifModifiedSince := field })
        bound room known (fun _ => trivial) (by decide) fun _ => rfl
    | range =>
      exact extends_first (fun field => { (summary fields).staticFields with range := field })
        bound room known (fun _ => trivial) (by decide) fun _ => rfl
    | ifRange =>
      exact extends_first (fun field => { (summary fields).staticFields with ifRange := field })
        bound room known (fun _ => trivial) (by decide) fun _ => rfl
    | host => exact extends_host bound known
    | contentLength => exact extends_contentLength bound known
    | transferEncoding => exact extends_transferEncoding bound known
    | expect => exact extends_expect bound known
    | trailer => exact extends_trailer bound known
    | connection => exact extends_connection bound consistent known

end Step

/-! ### A list of lines -/

/-- The field lines of a section in turn, `none` where one is refused. -/
def collectLines : List Bytes → HeaderFields → Option HeaderFields
  | [], h => some h
  | line :: lines, h =>
    if (validateHeader line false h).value.1 then
      collectLines lines (validateHeader line false h).value.2
    else none

theorem valuesOf_both (first second : List FieldLine) (name : HeaderName) :
    valuesOf (first ++ second) name = valuesOf first name ++ valuesOf second name := by
  simp [valuesOf]

theorem single_left {first second : List Bytes} {P : Bytes → Prop} (both : Single (first ++ second) P) :
    Single first P :=
  ⟨le_trans (by simp) both.1, fun v member => both.2 v (List.mem_append_left _ member)⟩

/-- Consistent lines are consistent from the start. -/
theorem Consistent.left {first second : List FieldLine} (both : Consistent (first ++ second)) :
    Consistent first where
  lines l member := both.lines l (List.mem_append_left _ member)
  values name := by
    have rule := both.values name
    rw [valuesOf_both] at rule
    cases name <;>
      first
      | exact single_left rule
      | exact fun v member => rule v (List.mem_append_left _ member)
      | trivial
  framing := by
    have framing := both.framing
    rw [valuesOf_both, valuesOf_both] at framing
    exact framing.imp (fun h => (List.append_eq_nil_iff.mp h).1) fun h =>
      (List.append_eq_nil_iff.mp h).1

theorem validateHeader_step {fields : List FieldLine} {l : FieldLine} {h : HeaderFields}
    (collected : Collected fields h) (consistent : Consistent fields) (wellFormed : l.WellFormed)
    (room : fieldBytes (fields ++ [l]) ≤ kMaxHeaderBytes) :
    ((validateHeader l.bytes false h).value.1 = true ↔ Consistent (fields ++ [l])) ∧
      ((validateHeader l.bytes false h).value.1 = true →
        Collected (fields ++ [l]) (validateHeader l.bytes false h).value.2) := by
  obtain ⟨accepts, next⟩ := applyHeader_step collected consistent room
  rw [validateHeader_bytes wellFormed, if_neg Bool.false_ne_true, consistent_append consistent]
  exact ⟨accepts.trans ⟨fun allowed => ⟨wellFormed, allowed⟩, And.right⟩, next⟩

/-- **Accepted lines are consistent field lines.** -/
theorem collectLines_sound (lines : List Bytes) : ∀ (before : List FieldLine) (h h' : HeaderFields),
    Collected before h → Consistent before →
    fieldBytes before + (lines.map List.length).sum ≤ kMaxHeaderBytes →
    collectLines lines h = some h' →
    ∃ fields : List FieldLine, lines = fields.map FieldLine.bytes ∧ Consistent (before ++ fields) ∧
      Collected (before ++ fields) h' := by
  induction lines with
  | nil =>
    intro before h h' collected consistent _ found
    obtain rfl := Option.some.inj found
    exact ⟨[], rfl, by rwa [List.append_nil], by rwa [List.append_nil]⟩
  | cons line lines ih =>
    intro before h h' collected consistent room found
    rw [collectLines] at found
    split at found
    · next accepted =>
      obtain ⟨l, wellFormed, rfl⟩ := validateHeader_accepts accepted
      rw [List.map_cons, List.sum_cons] at room
      have bytes := fieldBytes_append before l
      obtain ⟨accepts, next⟩ := validateHeader_step collected consistent wellFormed (by omega)
      obtain ⟨fields, rfl, consistent, collected⟩ := ih (before ++ [l]) _ h' (next accepted)
        (accepts.mp accepted) (by omega) found
      rw [List.append_assoc] at consistent collected
      exact ⟨l :: fields, rfl, consistent, collected⟩
    · cases found

/-- **Consistent field lines are accepted.** -/
theorem collectLines_complete (fields : List FieldLine) : ∀ (before : List FieldLine) (h : HeaderFields),
    Collected before h → Consistent (before ++ fields) →
    fieldBytes (before ++ fields) ≤ kMaxHeaderBytes →
    ∃ h', collectLines (fields.map FieldLine.bytes) h = some h' ∧ Collected (before ++ fields) h' := by
  induction fields with
  | nil =>
    intro before h collected _ _
    exact ⟨h, rfl, by rwa [List.append_nil]⟩
  | cons l fields ih =>
    intro before h collected consistent room
    rw [List.append_cons] at consistent room ⊢
    have small : fieldBytes (before ++ [l]) ≤ kMaxHeaderBytes := by
      have sum : fieldBytes (before ++ [l] ++ fields)
          = fieldBytes (before ++ [l]) + fieldBytes fields := by simp [fieldBytes, Nat.add_assoc]
      omega
    obtain ⟨accepts, next⟩ := validateHeader_step collected consistent.left.left
      (consistent.lines l (by simp)) small
    have accepted := accepts.mpr consistent.left
    obtain ⟨h', found, done⟩ := ih (before ++ [l]) _ (next accepted) consistent room
    exact ⟨h', by rw [List.map_cons, collectLines, if_pos accepted]; exact found, done⟩

end HpServer.Http
