/-
**The body of a task, exactly.**

The handler of the JSON reader has five flags. On the events it takes they only ever say how much of one of two documents
has come.

* `TaskDocument` — an object with a title and a flag, in either order, and nothing else.
* `TaskReading` — **the states the handler can be in**, each with the events that lead to it; `TaskReading.handle` — one event.
* `handle_iff` — **of all sequences of events it takes just those of such a document to the end.**
* `task_input_exact` — the same of bodies; `parseTaskInput_titled` — the titles that are accepted.
-/

import HpServer.Http.TaskApiHandler

namespace HpServer.Http

open Business Json

/-! ### Documents -/

/-- A title that may be given: 1 to 256 bytes, none of them a control byte. -/
structure AllowedTitle (title : Bytes) : Prop where
  nonempty : 1 ≤ title.length
  short : title.length ≤ 256
  clean : ∀ b ∈ title, ¬ (b < 0x20 ∨ b = 0x7f)

abbrev titleMember (title : Bytes) : Octets × Value := (text "title", .string title)

abbrev completedMember (completed : Bool) : Octets × Value := (text "completed", .boolean completed)

/-- **The documents of an input.** -/
inductive TaskDocument (input : TaskInput) : Value → Prop
  | titleFirst (allowed : AllowedTitle input.title) :
      TaskDocument input (.object [titleMember input.title, completedMember input.completed])
  | completedFirst (allowed : AllowedTitle input.title) :
      TaskDocument input (.object [completedMember input.completed, titleMember input.title])

theorem allowedTitle_iff {title : Bytes} :
    AllowedTitle title ↔ title ≠ [] ∧ title.length ≤ 256 ∧ title.any isControl = false := by
  have clean : title.any isControl = false ↔ ∀ b ∈ title, ¬ (b < 0x20 ∨ b = 0x7f) := by
    simp [List.any_eq_false, isControl]
  rw [clean, ← List.length_pos_iff]
  exact ⟨fun ⟨nonempty, short, clean⟩ => ⟨nonempty, short, clean⟩, fun ⟨nonempty, short, clean⟩ => ⟨nonempty, short, clean⟩⟩

/-! ### Events -/

/-- **The events so far, and the handler behind them.** -/
inductive TaskReading : List Event → TaskInputSax → Prop
  | start : TaskReading [] {}
  | opened : TaskReading [.startObject] { started := true }
  | title : TaskReading [.startObject, .key (text "title")] { started := true, titleSeen := true, pending := .title }
  | titled {title : Bytes} (allowed : AllowedTitle title) :
      TaskReading [.startObject, .key (text "title"), .string title]
        { input := { title := title }, started := true, titleSeen := true }
  | thenCompleted {title : Bytes} (allowed : AllowedTitle title) :
      TaskReading [.startObject, .key (text "title"), .string title, .key (text "completed")]
        { input := { title := title }, started := true, titleSeen := true, completedSeen := true, pending := .completed }
  | completed :
      TaskReading [.startObject, .key (text "completed")] { started := true, completedSeen := true, pending := .completed }
  | flagged (flag : Bool) :
      TaskReading [.startObject, .key (text "completed"), .boolean flag]
        { input := { title := [], completed := flag }, started := true, completedSeen := true }
  | thenTitle (flag : Bool) :
      TaskReading [.startObject, .key (text "completed"), .boolean flag, .key (text "title")]
        { input := { title := [], completed := flag }, started := true, titleSeen := true, completedSeen := true,
          pending := .title }
  | full {members : List (Octets × Value)} {input : TaskInput} (document : TaskDocument input (.object members)) :
      TaskReading (.startObject :: (memberEvents members).dropLast)
        { input := input, started := true, titleSeen := true, completedSeen := true }
  | ended {v : Value} {input : TaskInput} (document : TaskDocument input v) :
      TaskReading v.events { input := input, started := true, titleSeen := true, completedSeen := true, ended := true }

section Handler

variable {s t : TaskInputSax} {value : Bytes}

theorem handle_string : s.handle (.string value) = some t ↔ s.pending = .title ∧ s.ended = false ∧ AllowedTitle value
    ∧ { s with input := { s.input with title := value }, pending := .none } = t := by
  rw [allowedTitle_iff]
  dsimp only [TaskInputSax.handle]
  constructor
  · intro taken
    split at taken
    case isTrue => cases taken
    case isFalse accepted =>
      split at taken
      case isTrue => cases taken
      case isFalse clean =>
        simp only [Bool.or_eq_true, decide_eq_true_eq, not_or, Bool.not_eq_true, ne_eq, not_not, not_lt] at accepted clean
        exact ⟨accepted.1.1.1, accepted.1.1.2, ⟨accepted.1.2, accepted.2, clean⟩, Option.some.inj taken⟩
  · rintro ⟨pending, ended, ⟨nonempty, short, clean⟩, rfl⟩
    simp [pending, ended, nonempty, clean, Nat.not_lt.mpr short]

theorem handle_key : s.handle (.key value) = some t ↔ (s.started = true ∧ s.ended = false ∧ s.pending = .none)
    ∧ (value = text "title" ∧ s.titleSeen = false ∧ { s with titleSeen := true, pending := .title } = t
      ∨ value = text "completed" ∧ s.completedSeen = false
        ∧ { s with completedSeen := true, pending := .completed } = t) := by
  dsimp only [TaskInputSax.handle]
  constructor
  · intro taken
    split at taken
    case isTrue => cases taken
    case isFalse ready =>
      simp only [Bool.or_eq_true, Bool.not_eq_true', decide_eq_true_eq, not_or, Bool.not_eq_false, Bool.not_eq_true,
        ne_eq, not_not] at ready
      refine ⟨⟨ready.1.1, ready.1.2, ready.2⟩, ?_⟩
      split at taken
      case isTrue found =>
        obtain ⟨same, unseen⟩ : value = text "title" ∧ s.titleSeen = false := by simpa using found
        exact .inl ⟨same, unseen, Option.some.inj taken⟩
      case isFalse =>
        split at taken
        case isTrue found =>
          obtain ⟨same, unseen⟩ : value = text "completed" ∧ s.completedSeen = false := by simpa using found
          exact .inr ⟨same, unseen, Option.some.inj taken⟩
        case isFalse => cases taken
  · rintro ⟨⟨started, ended, idle⟩, ⟨rfl, unseen, rfl⟩ | ⟨rfl, unseen, rfl⟩⟩
    · simp [started, ended, idle, unseen]
    · simp [started, ended, idle, unseen, show text "completed" ≠ text "title" by decide]

/-- **One event.** -/
theorem TaskReading.handle {log : List Event} {e : Event} (reading : TaskReading log s) (taken : s.handle e = some t) :
    TaskReading (log ++ [e]) t := by
  cases reading with
  | start =>
    cases e <;> simp [TaskInputSax.handle] at taken
    cases taken
    exact .opened
  | opened =>
    cases e with
    | key value =>
      obtain ⟨-, ⟨rfl, -, rfl⟩ | ⟨rfl, -, rfl⟩⟩ := handle_key.mp taken
      · exact .title
      · exact .completed
    | _ => simp [TaskInputSax.handle] at taken
  | title =>
    cases e with
    | string value =>
      obtain ⟨-, -, allowed, rfl⟩ := handle_string.mp taken
      exact .titled allowed
    | _ => simp [TaskInputSax.handle] at taken
  | titled allowed =>
    cases e with
    | key value =>
      obtain ⟨-, ⟨rfl, seen, rfl⟩ | ⟨rfl, -, rfl⟩⟩ := handle_key.mp taken
      · cases seen
      · exact .thenCompleted allowed
    | _ => simp [TaskInputSax.handle] at taken
  | @thenCompleted title allowed =>
    cases e with
    | boolean flag =>
      obtain rfl : _ = t := by simpa [TaskInputSax.handle] using taken
      have document : TaskDocument { title := title, completed := flag }
          (.object [titleMember title, completedMember flag]) := .titleFirst allowed
      exact .full document
    | _ => simp [TaskInputSax.handle] at taken
  | completed =>
    cases e with
    | boolean flag =>
      obtain rfl : _ = t := by simpa [TaskInputSax.handle] using taken
      exact .flagged flag
    | _ => simp [TaskInputSax.handle] at taken
  | flagged flag =>
    cases e with
    | key value =>
      obtain ⟨-, ⟨rfl, -, rfl⟩ | ⟨rfl, seen, rfl⟩⟩ := handle_key.mp taken
      · exact .thenTitle flag
      · cases seen
    | _ => simp [TaskInputSax.handle] at taken
  | thenTitle flag =>
    cases e with
    | string value =>
      obtain ⟨-, -, allowed, rfl⟩ := handle_string.mp taken
      have document : TaskDocument { title := value, completed := flag }
          (.object [completedMember flag, titleMember value]) := .completedFirst allowed
      exact .full document
    | _ => simp [TaskInputSax.handle] at taken
  | full document =>
    cases e with
    | endObject =>
      obtain rfl : _ = t := by simpa [TaskInputSax.handle] using taken
      cases document with
      | titleFirst allowed => exact .ended (.titleFirst allowed)
      | completedFirst allowed => exact .ended (.completedFirst allowed)
    | _ => simp [TaskInputSax.handle] at taken
  | ended document => cases e <;> simp [TaskInputSax.handle] at taken

end Handler

theorem reading_of_handled (later : List Event) : ∀ {log : List Event} {s t : TaskInputSax}, TaskReading log s →
    later.foldlM TaskInputSax.handle s = some t → TaskReading (log ++ later) t := by
  induction later with
  | nil =>
    intro log s t reading same
    cases same
    rwa [List.append_nil]
  | cons e later ih =>
    intro log s t reading handled
    rw [List.foldlM_cons] at handled
    obtain ⟨next, taken, rest⟩ := Option.bind_eq_some_iff.mp handled
    rw [List.append_cons]
    exact ih (reading.handle taken) rest

/-- **Of all sequences of events the handler takes just those of a document of a task to the end.** -/
theorem handle_iff {reported : List Event} {input : TaskInput} :
    (∃ s, reported.foldlM TaskInputSax.handle {} = some s ∧ s.ended = true ∧ s.input = input)
      ↔ ∃ v, TaskDocument input v ∧ reported = v.events := by
  constructor
  · rintro ⟨s, handled, ended, rfl⟩
    have reading := reading_of_handled reported .start handled
    rw [List.nil_append] at reading
    cases reading with
    | ended document => exact ⟨_, document, rfl⟩
    | _ => cases ended
  · rintro ⟨v, document, rfl⟩
    refine ⟨{ input := input, started := true, titleSeen := true, completedSeen := true, ended := true }, ?_, rfl, rfl⟩
    have other : text "completed" ≠ text "title" := by decide
    cases document with
    | titleFirst allowed =>
      obtain ⟨nonempty, short, clean⟩ := allowedTitle_iff.mp allowed
      simp [Value.events, memberEvents, TaskInputSax.handle, nonempty, clean, Nat.not_lt.mpr short, other]
    | completedFirst allowed =>
      obtain ⟨nonempty, short, clean⟩ := allowedTitle_iff.mp allowed
      simp [Value.events, memberEvents, TaskInputSax.handle, nonempty, clean, Nat.not_lt.mpr short, other]

/-! ### Bodies -/

theorem parseTaskInput_iff {body : Bytes} {input : TaskInput} :
    parseTaskInput body = some input
      ↔ (body.length ≤ kMaxTaskInputBytes ∧ nul ∉ body ∧ ¬ [0xef, 0xbb, 0xbf] <+: body)
        ∧ ∃ v, TaskDocument input v ∧ events body = v.events := by
  rw [← handle_iff]
  have allowed : (body.length ≤ kMaxTaskInputBytes ∧ nul ∉ body ∧ ¬ [0xef, 0xbb, 0xbf] <+: body)
      ↔ ¬ (decide (kMaxTaskInputBytes < body.length) || decide (nul ∈ body)
        || [0xef, 0xbb, 0xbf].isPrefixOf body) = true := by
    simp [← List.isPrefixOf_iff_prefix, and_assoc]
  unfold parseTaskInput
  rw [allowed]
  by_cases refused : (decide (kMaxTaskInputBytes < body.length) || decide (nul ∈ body)
      || [0xef, 0xbb, 0xbf].isPrefixOf body) = true
  · rw [if_pos refused]
    exact ⟨fun none => (by cases none), fun both => absurd refused both.1⟩
  · rw [if_neg refused, and_iff_right refused]
    unfold sax
    cases (events body).foldlM TaskInputSax.handle {} with
    | none => simp
    | some s => by_cases ended : s.ended = true <;> simp [ended]

/-- A title the API accepts. -/
structure Titled (title : Bytes) : Prop where
  nonempty : title ≠ []
  short : title.length ≤ 256
  utf8 : Utf8.valid title
  clean : ∀ b ∈ title, isControl b = false

/-- **An accepted title has 1 to 256 bytes of UTF-8, none of them a control byte.** -/
theorem parseTaskInput_titled {body : Bytes} {input : TaskInput} (parsed : parseTaskInput body = some input) :
    Titled input.title := by
  obtain ⟨-, v, document, reported⟩ := parseTaskInput_iff.mp parsed
  have titled : AllowedTitle input.title ∧ Event.string input.title ∈ v.events := by
    cases document with
    | titleFirst allowed => exact ⟨allowed, by simp [Value.events, memberEvents]⟩
    | completedFirst allowed => exact ⟨allowed, by simp [Value.events, memberEvents]⟩
  obtain ⟨nonempty, short, clean⟩ := allowedTitle_iff.mp titled.1
  rw [← reported] at titled
  exact ⟨nonempty, short, sound_of_mem_events body _ titled.2, by simpa using clean⟩

/-- **The bodies that are accepted.** The handler takes a sequence of events to its end just when it is that of an object
with a title and a flag; a body is accepted just when it is short, has no NUL and no byte order mark and is such an object,
and gives its title and flag; a body that is any other document is refused. -/
theorem task_input_exact :
    (∀ (reported : List Event) (input : TaskInput),
      (∃ s, reported.foldlM TaskInputSax.handle {} = some s ∧ s.ended = true ∧ s.input = input)
        ↔ ∃ v, TaskDocument input v ∧ reported = v.events)
    ∧ (∀ (body : Bytes) (input : TaskInput), parseTaskInput body = some input
        ↔ (body.length ≤ 8192 ∧ nul ∉ body ∧ ¬ [0xef, 0xbb, 0xbf] <+: body)
          ∧ ∃ v, TaskDocument input v ∧ events body = v.events)
    ∧ ∀ (body : Bytes) (v : Value), events body = v.events → (∀ input, ¬ TaskDocument input v) →
      parseTaskInput body = none := by
  refine ⟨fun _ _ => handle_iff, fun _ _ => parseTaskInput_iff, fun body v reported other => ?_⟩
  cases parsed : parseTaskInput body with
  | none => rfl
  | some input =>
    obtain ⟨-, w, document, same⟩ := parseTaskInput_iff.mp parsed
    rw [events_injective (reported.symm.trans same)] at other
    exact absurd document (other input)

end HpServer.Http
