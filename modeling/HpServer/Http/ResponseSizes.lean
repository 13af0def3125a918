/-
**How long an answer can be.**

A header is a status line and a few fields, each a short text; behind it stands a body whose length the source
limits, or a file of at most `kMaxFileBytes`.

* `headerOf_short` — **a header of eight short fields is short.** Every builder writes such fields
  (`responseFields_short`, `taskFields_short`, `staticResponseFields_short`): numbers of 64 bits, dates of four-digit
  years, tags of seven such numbers.
* `onTaskResponse_sized` — the task API answers within its budget, whatever the store;
  `tryTaskResponse_fine` — **over a store that the API filled it never falls back to a 500.**
* `RequestRouter.onResponse_size`, `RequestRouter.onRequestHeaders_size` — what the router answers is a body within
  `kMaxBodyBytes`, a file within `kMaxFileBytes`, or a short text.
-/

import HpServer.Http.ParserMemory
import HpServer.Http.RequestRouter
import HpServer.Http.ResponseHeader

namespace HpServer.Http

open Base Business Calendar Programs

/-- The bytes of an answer and those of the file behind them. -/
def ResponseResult.size (result : ResponseResult) : Nat :=
  result.bytes.length + (result.file.map FileRegion.remaining).getD 0

/-! ### Short texts -/

theorem decimalText_short {n : Nat} (small : n < 10 ^ 20) : (decimalText n).length ≤ 20 :=
  decimalText_length (by decide) small

theorem hexadecimalText_length {value : Nat} (word : value < 2 ^ 64) : (hexadecimalText value).length ≤ 16 := by
  unfold hexadecimalText
  rw [List.length_map]
  exact (Nat.length_toDigits_le_iff (by decide) (by decide)).mpr word

theorem asUnsigned_word (value : Int) : asUnsigned value < 2 ^ 64 := by
  unfold asUnsigned
  omega

theorem paddedDecimal_length (value width : Nat) (small : value < 10 ^ 20) (narrow : width ≤ 20) :
    (paddedDecimal value width).length ≤ 20 := by
  have digits := decimalText_short small
  unfold paddedDecimal
  rw [List.length_append, List.length_replicate]
  omega

/-- The fields of a date whose day the source accepts. -/
theorem civilFromDays_bounds {days : Int} (low : -719528 ≤ days) (high : days ≤ 2932896) :
    (civilFromDays days).day ≤ 10 ^ 6 ∧ (civilFromDays days).month ≤ 12 ∧ -1000 ≤ (civilFromDays days).year
      ∧ (civilFromDays days).year ≤ 10 ^ 5 := by
  unfold civilFromDays eraDays epochShift
  dsimp only
  refine ⟨?_, ?_, ?_, ?_⟩
  · omega
  · split <;> omega
  · omega
  · omega

theorem daysFromCivil_low {date : Date} (low : -1000 ≤ date.year) : -10 ^ 7 ≤ daysFromCivil date := by
  unfold daysFromCivil eraDays epochShift
  dsimp only
  omega

theorem getD_length (values : List Bytes) (limit : Nat) (short : ∀ value ∈ values, value.length ≤ limit)
    (i : Nat) : (values.getD i []).length ≤ limit := by
  rw [List.getD_eq_getElem?_getD]
  cases found : values[i]? with
  | none => exact Nat.zero_le _
  | some value => exact short value (List.mem_of_getElem? found)

/-- **A date has at most 128 bytes**: the source writes years of four digits. -/
theorem formatHttpDate_length {value : Int} {written : Bytes} (made : formatHttpDate value = some written) :
    written.length ≤ 128 := by
  have years : daysFromCivil { year := 0, month := 1, day := 1 } = -719528
      ∧ daysFromCivil { year := 9999, month := 12, day := 31 } = 2932896 := by decide
  unfold formatHttpDate calendarDate secondsPerDay at made
  dsimp only at made
  rw [years.1, years.2] at made
  split at made
  case isTrue => cases made
  case isFalse within =>
    simp only [Bool.or_eq_true, decide_eq_true_eq, not_or, Int.not_lt] at within
    obtain ⟨day, month, low, high⟩ := civilFromDays_bounds within.1 within.2
    have start := daysFromCivil_low low
    rw [Option.map_some] at made
    rw [← Option.some.inj made]
    generalize civilFromDays (value / 86400) = date at day month low high start
    have clock : (value - daysFromCivil date * 86400).toNat < 10 ^ 13 := by omega
    generalize (value - daysFromCivil date * 86400).toNat = seconds at clock
    have names := getD_length kDays 3 (by decide) (weekday (daysFromCivil date))
    have months := getD_length kMonths 3 (by decide) (date.month - 1)
    have days := paddedDecimal_length date.day 2 (by omega) (by decide)
    have year := paddedDecimal_length date.year.toNat 4 (by omega) (by decide)
    have hour := paddedDecimal_length (seconds / 3600) 2 (by omega) (by decide)
    have minute := paddedDecimal_length (seconds / 60 % 60) 2 (by omega) (by decide)
    have second := paddedDecimal_length (seconds % 60) 2 (by omega) (by decide)
    have marks : (text ", ").length = 2 ∧ (text " GMT").length = 4 := by decide
    simp only [List.length_append, List.length_cons, List.length_nil]
    omega

/-- What `fstat` says fits its words. -/
structure StaticFileMetadata.Words (file : StaticFileMetadata) : Prop where
  device : file.device < 2 ^ 64
  inode : file.inode < 2 ^ 64
  size : file.size < 2 ^ 64

theorem makeEntityTag_length {file : StaticFileMetadata} (words : file.Words) :
    (makeEntityTag file).length ≤ 128 := by
  have device := hexadecimalText_length words.device
  have inode := hexadecimalText_length words.inode
  have size := hexadecimalText_length words.size
  have modified := hexadecimalText_length (asUnsigned_word file.modifiedSeconds)
  have modifiedPart := hexadecimalText_length (asUnsigned_word file.modifiedNanoseconds)
  have changed := hexadecimalText_length (asUnsigned_word file.changedSeconds)
  have changedPart := hexadecimalText_length (asUnsigned_word file.changedNanoseconds)
  have mark : (text "W/\"").length = 3 := by decide
  unfold makeEntityTag
  simp only [List.length_append, List.length_cons, List.length_nil]
  omega

theorem contentRangeOf_length {range : ByteRangeSelection} {size : Nat} (small : size < 2 ^ 64)
    (within : range.selection = .partialContent → range.offset + range.length ≤ size) {written : Bytes}
    (made : contentRangeOf range size = some written) : written.length ≤ 128 := by
  have marks : (text "bytes ").length = 6 ∧ (text "bytes */").length = 8 := by decide
  have total := decimalText_short (n := size) (by omega)
  unfold contentRangeOf at made
  split at made
  case h_1 selected =>
    have within := within selected
    have first := decimalText_short (n := range.offset) (by omega)
    have last := decimalText_short (n := range.offset + range.length - 1) (by omega)
    cases made
    simp only [List.length_append, List.length_cons, List.length_nil]
    omega
  case h_2 =>
    cases made
    rw [List.length_append]
    omega
  case h_3 => cases made
  case h_4 => cases made

theorem contentTypeForPath_length (path : Bytes) : (contentTypeForPath path).length ≤ 32 := by
  unfold contentTypeForPath
  split
  · decide
  · split_ifs <;> decide

/-! ### Headers -/

/-- At most eight fields, each of at most 160 bytes. -/
structure ShortFields (fields : List Field) : Prop where
  few : fields.length ≤ 8
  short : ∀ field ∈ fields, field.1.length + field.2.length ≤ 160

theorem statusLine_length (status : Status) : (statusLine status).length ≤ 64 := by
  have code : (decimalText status.code).length ≤ 20 := decimalText_short (by cases status <;> decide)
  have phrase : (reasonPhrase status).length ≤ 22 := by cases status <;> decide
  have marks : (text "HTTP/1.1 ").length = 9 ∧ (text " ").length = 1 ∧ (text "\r\n").length = 2 := by decide
  unfold statusLine
  simp only [List.length_append]
  omega

/-- **A header of eight short fields is short.** -/
theorem headerOf_short (status : Status) {fields : List Field} (short : ShortFields fields) :
    (headerOf status fields).length ≤ 1500 := by
  have first := statusLine_length status
  have mark : (text ": ").length = 2 := by decide
  have lines : ((fields.map fun field => fieldLine field ++ crlf).flatten).length ≤ 164 * fields.length := by
    have each := short.short
    clear short
    induction fields with
    | nil => exact Nat.zero_le _
    | cons field fields ih =>
      have here := each field List.mem_cons_self
      have later := ih fun other member => each other (List.mem_cons_of_mem _ member)
      simp only [List.map_cons, List.flatten_cons, List.length_append, fieldLine, List.length_cons, List.length_nil]
        at later ⊢
      omega
  have few := short.few
  rw [headerOf_eq]
  simp only [List.length_append, List.length_cons, List.length_nil] at lines ⊢
  omega

theorem responseFields_few (status : Status) (contentLength : Nat) (contentType allowedMethods : Bytes)
    (policy : ConnectionPolicy) :
    (responseFields status contentLength contentType allowedMethods policy).length ≤ 4 := by
  unfold responseFields
  rw [List.length_append]
  split
  · exact Nat.le_refl 4
  · exact Nat.le_succ 3

theorem policyText_length (policy : ConnectionPolicy) : (policyText policy).length ≤ 10 := by
  cases policy <;> decide

/-- The fields every answer but a file's has. -/
theorem responseFields_each {status : Status} {contentLength : Nat} {contentType allowedMethods : Bytes}
    {policy : ConnectionPolicy} (small : contentLength < 10 ^ 20) (type : contentType.length ≤ 32)
    (allowed : allowedMethods.length ≤ 32) :
    ∀ field ∈ responseFields status contentLength contentType allowedMethods policy,
      field.1.length + field.2.length ≤ 160 := by
  have digits := decimalText_short small
  have kept := policyText_length policy
  have names : (text "Content-Length").length = 14 ∧ (text "Content-Type").length = 12
      ∧ (text "Connection").length = 10 ∧ (text "Allow").length = 5 := by decide
  intro field member
  unfold responseFields at member
  rcases List.mem_append.mp member with first | last
  · simp only [List.mem_cons, List.not_mem_nil, or_false] at first
    rcases first with rfl | rfl | rfl <;> dsimp only <;> omega
  · split at last
    · simp only [List.mem_cons, List.not_mem_nil, or_false] at last
      subst last
      dsimp only
      omega
    · cases last

theorem responseFields_short {status : Status} {contentLength : Nat} {contentType allowedMethods : Bytes}
    {policy : ConnectionPolicy} (small : contentLength < 10 ^ 20) (type : contentType.length ≤ 32)
    (allowed : allowedMethods.length ≤ 32) :
    ShortFields (responseFields status contentLength contentType allowedMethods policy) where
  few := Nat.le_trans (responseFields_few ..) (by decide)
  short := responseFields_each small type allowed

theorem taskFields_short {status : Status} {contentLength : Nat} {allowedMethods : Bytes} {policy : ConnectionPolicy}
    (small : contentLength < 10 ^ 20) (allowed : allowedMethods.length ≤ 32) :
    ShortFields (taskFields status contentLength allowedMethods policy) where
  few := by
    have few := responseFields_few status contentLength (text "application/json") allowedMethods policy
    unfold taskFields
    rw [List.length_append, List.length_singleton]
    omega
  short := by
    refine List.forall_mem_append.mpr ⟨responseFields_each small (by decide) allowed, ?_⟩
    exact List.forall_mem_singleton.mpr (by decide)

/-- The texts of a file's description that stand in a header. -/
structure StaticResponseMetadata.Short (metadata : StaticResponseMetadata) : Prop where
  date : metadata.date.length ≤ 128
  entityTag : metadata.entityTag.length ≤ 128
  lastModified : ∀ value, metadata.lastModified = some value → value.length ≤ 128
  contentRange : ∀ value, metadata.contentRange = some value → value.length ≤ 128

theorem optionalField_short {name : Bytes} {value : Option Bytes} (named : name.length ≤ 32)
    (short : ∀ v, value = some v → v.length ≤ 128) :
    (optionalField name value).length ≤ 1
      ∧ ∀ field ∈ optionalField name value, field.1.length + field.2.length ≤ 160 := by
  cases value with
  | none => exact ⟨Nat.zero_le _, nofun⟩
  | some v =>
    refine ⟨Nat.le_refl _, List.forall_mem_singleton.mpr ?_⟩
    have bound := short v rfl
    dsimp only
    omega

theorem staticResponseFields_short {status : Status} {contentLength : Nat} {contentType : Bytes}
    {policy : ConnectionPolicy} {metadata : StaticResponseMetadata}
    (small : status ≠ .notModified → contentLength < 10 ^ 20) (type : contentType.length ≤ 32)
    (short : metadata.Short) :
    ShortFields (staticResponseFields status contentLength contentType policy metadata) := by
  have kept := policyText_length policy
  have date := short.date
  have tag := short.entityTag
  have names : (text "Content-Length").length = 14 ∧ (text "Content-Type").length = 12
      ∧ (text "Connection").length = 10 ∧ (text "Date").length = 4 ∧ (text "ETag").length = 4
      ∧ (text "Accept-Ranges").length = 13 ∧ (text "bytes").length = 5 := by decide
  obtain ⟨modifiedFew, modified⟩ := optionalField_short (show (text "Last-Modified").length ≤ 32 by decide)
    short.lastModified
  obtain ⟨rangeFew, range⟩ := optionalField_short (show (text "Content-Range").length ≤ 32 by decide)
    short.contentRange
  have payload : ∀ fields : List Field,
      fields = (if status = .notModified then []
        else [(text "Content-Length", decimalText contentLength), (text "Content-Type", contentType)]) →
      fields.length ≤ 2 ∧ ∀ field ∈ fields, field.1.length + field.2.length ≤ 160 := by
    rintro fields rfl
    split
    · exact ⟨Nat.zero_le _, nofun⟩
    · next modified =>
      have digits := decimalText_short (small modified)
      refine ⟨Nat.le_refl _, fun field member => ?_⟩
      simp only [List.mem_cons, List.not_mem_nil, or_false] at member
      rcases member with rfl | rfl <;> dsimp only <;> omega
  obtain ⟨payloadFew, payload⟩ := payload _ rfl
  unfold staticResponseFields
  refine ⟨?_, ?_⟩
  · simp only [List.length_append, List.length_cons, List.length_nil] at payloadFew modifiedFew rangeFew ⊢
    omega
  · simp only [List.forall_mem_append]
    refine ⟨⟨⟨⟨payload, fun field member => ?_⟩, modified⟩, fun field member => ?_⟩, range⟩
    · simp only [List.mem_cons, List.not_mem_nil, or_false] at member
      rcases member with rfl | rfl | rfl <;> dsimp only <;> omega
    · simp only [List.mem_cons, List.not_mem_nil, or_false] at member
      subst member
      dsimp only
      omega

/-! ### The answers -/

theorem makeResponseHeader_short {status : Status} {contentLength : Nat} {contentType allowedMethods : Bytes}
    {policy : ConnectionPolicy} (small : contentLength < 10 ^ 20) (type : contentType.length ≤ 32)
    (allowed : allowedMethods.length ≤ 32) :
    (makeResponseHeader status contentLength contentType allowedMethods policy).length ≤ 1500 := by
  rw [makeResponseHeader_eq]
  exact headerOf_short status (responseFields_short small type allowed)

theorem errorBody_length {status : Status} {body : Bytes} (written : errorBody status = some body) :
    body.length ≤ 32 := by
  cases status <;> cases written <;> decide

theorem errorAnswer_size {status : Status} {policy : ConnectionPolicy} {omitBody : Bool} {allowedMethods : Bytes}
    {result : ResponseResult} (allowed : allowedMethods.length ≤ 32)
    (made : errorAnswer status policy omitBody allowedMethods = some result) : result.size ≤ 2000 := by
  obtain ⟨bytes, written, -⟩ := Option.bind_eq_some_iff.mp made
  obtain ⟨body, known, -⟩ := Option.map_eq_some_iff.mp written
  have short := errorBody_length known
  have header := @makeResponseHeader_short status body.length (text "text/plain; charset=utf-8") _ policy (by omega) (by decide) allowed
  rw [errorAnswer_eq known] at made
  cases made
  unfold ResponseResult.size
  simp only [Option.map_none, Option.getD_none, List.length_append]
  cases omitBody with
  | true =>
    simp only [if_true, List.length_nil]
    omega
  | false =>
    simp only [Bool.false_eq_true, if_false]
    omega

/-- An answer of the task API within its budget. -/
def IsTaskSized (response : ResponseResult) : Prop :=
  ∃ status body effective omitBody allow, body.length ≤ kMaxTaskResponseBytes ∧ allow.length ≤ 32
    ∧ response = makeTaskJsonResponse status body effective omitBody allow

theorem IsTaskSized.size {response : ResponseResult} (sized : IsTaskSized response) :
    response.contentBytes ≤ kMaxTaskResponseBytes ∧ response.size ≤ kMaxTaskResponseBytes + 1500 := by
  obtain ⟨status, body, effective, omitBody, allow, short, allowed, rfl⟩ := sized
  have header := headerOf_short status (@taskFields_short status body.length _ effective
    (by unfold kMaxTaskResponseBytes at short; omega) allowed)
  constructor
  · show (if omitBody then 0 else body.length) ≤ _
    split
    · exact Nat.zero_le _
    · exact short
  · show (makeTaskJsonResponse status body effective omitBody allow).bytes.length + 0 ≤ _
    rw [makeTaskJsonResponse_bytes, List.length_append]
    split
    · simp only [List.length_nil]
      omega
    · omega

theorem taskResponse_made {status : Status} {body : Bytes} {policy : ConnectionPolicy} {omitBody : Bool}
    {allow : Bytes} {response : ResponseResult}
    (made : taskResponse status body policy omitBody allow = .ok response) :
    body.length ≤ kMaxTaskResponseBytes ∧ response = makeTaskJsonResponse status body policy omitBody allow := by
  unfold taskResponse at made
  split at made
  case isTrue => cases made
  case isFalse short => exact ⟨Nat.le_of_not_lt short, (Except.ok.inj made).symm⟩

theorem taskResponse_sized {status : Status} {body : Bytes} {policy : ConnectionPolicy} {omitBody : Bool}
    {allow : Bytes} {response : ResponseResult} (allowed : allow.length ≤ 32)
    (made : taskResponse status body policy omitBody allow = .ok response) : IsTaskSized response := by
  obtain ⟨short, same⟩ := taskResponse_made made
  exact ⟨status, body, policy, omitBody, allow, short, allowed, same⟩

theorem orInternalError_sized {status : Status} {code message : Bytes} {policy : ConnectionPolicy} {omitBody : Bool}
    {allow : Bytes} (allowed : allow.length ≤ 32) (head : Bool) :
    IsTaskSized (orInternalError (taskError status code message policy omitBody allow) head) := by
  cases answer : taskError status code message policy omitBody allow with
  | error e =>
    exact ⟨.internalServerError, internalErrorBody, .close, head, [], by decide, by decide, rfl⟩
  | ok response =>
    obtain ⟨c, -, made⟩ := bind_ok_iff.mp answer
    obtain ⟨m, -, made⟩ := bind_ok_iff.mp made
    exact taskResponse_sized allowed made

theorem validateTaskRequest_sized {route : TaskRoute} {method : Bytes} {policy : ConnectionPolicy}
    {rejected : ResponseResult} (refused : validateTaskRequest route method policy = some rejected) :
    IsTaskSized rejected := by
  unfold validateTaskRequest at refused
  dsimp only at refused
  split at refused
  · cases refused
    exact orInternalError_sized (by decide) _
  split at refused
  · cases refused
    exact orInternalError_sized (by decide) _
  split at refused
  · cases refused
    exact orInternalError_sized (by decide) _
  split at refused
  · cases refused
    refine orInternalError_sized ?_ _
    unfold allowedTaskMethods
    split <;> decide
  · cases refused

/-- **The task API answers within its budget**, whatever the store. -/
theorem onTaskResponse_sized (route : TaskRoute) (request : HttpRequest) (policy : ConnectionPolicy)
    (s : TaskService) : IsTaskSized (onTaskResponse route request policy s).1 := by
  cases valid : validateTaskRequest route request.method policy with
  | some rejected =>
    rw [onTaskResponse_refused valid]
    exact validateTaskRequest_sized valid
  | none =>
    obtain ⟨status, body, effective, -, -, short, same⟩ := onTaskResponse_budgeted valid s
    exact ⟨status, body, effective, false, [], short, by decide, same⟩

/-! ### No internal error -/

theorem taskResponse_fine {status : Status} {body : Bytes} {policy : ConnectionPolicy} {omitBody : Bool}
    {allow : Bytes} {response : ResponseResult} (fine : status ≠ .internalServerError)
    (made : taskResponse status body policy omitBody allow = .ok response) :
    response.status ≠ .internalServerError := by
  rw [(taskResponse_made made).2]
  exact fine

theorem taskError_fine {status : Status} {code message : Bytes} {policy : ConnectionPolicy} {omitBody : Bool}
    {allow : Bytes} {response : ResponseResult} (fine : status ≠ .internalServerError)
    (made : taskError status code message policy omitBody allow = .ok response) :
    response.status ≠ .internalServerError := by
  obtain ⟨c, -, made⟩ := bind_ok_iff.mp made
  obtain ⟨m, -, made⟩ := bind_ok_iff.mp made
  exact taskResponse_fine fine made

/-- A store that reports success has a task to show. -/
theorem serviceResponse_fine {result : TaskResult} {success : Status} {policy : ConnectionPolicy}
    {response : ResponseResult} (fine : success ≠ .internalServerError)
    (whole : result.status = .success → result.task ≠ none)
    (made : serviceResponse result success policy = .ok response) : response.status ≠ .internalServerError := by
  unfold serviceResponse at made
  split at made
  case h_1 => exact taskError_fine (by decide) made
  case h_2 => exact taskError_fine (by decide) made
  case h_3 => exact taskError_fine (by decide) made
  case h_4 succeeded =>
    split at made
    case h_1 task _ =>
      obtain ⟨body, -, made⟩ := bind_ok_iff.mp made
      exact taskResponse_fine fine made
    case h_2 absent => exact absurd absent (whole succeeded)

section Fine

variable {route : TaskRoute} {request : HttpRequest} {policy : ConnectionPolicy}

theorem executeTask_fine (s : TaskService) :
    wp (executeTask route request policy) (fun response _ => response.status ≠ .internalServerError)
      (fun _ _ => True) s := by
  have answered : ∀ {body : Bytes} {t : TaskService},
      wp (MonadExcept.ofExcept (taskResponse .ok body policy false []) : EStateM TaskException TaskService _)
        (fun response _ => response.status ≠ .internalServerError) (fun _ _ => True) t := by
    intro body t
    exact wp_ofExcept_of fun response made => taskResponse_fine (by decide) made
  unfold executeTask
  split
  case isTrue =>
    simp only [wp_bind, wp_serve]
    split
    case isTrue failed =>
      exact wp_ofExcept_of fun _ made =>
        serviceResponse_fine (by decide) (fun succeeded => absurd succeeded failed) made
    case isFalse =>
      simp only [wp_bind]
      exact wp_ofExcept_of fun body _ => answered
  case isFalse =>
    split
    case isTrue =>
      split
      case isTrue =>
        simp only [wp_bind, wp_get]
        exact wp_ofExcept_of fun body _ => answered
      case isFalse =>
        simp only [wp_bind, wp_get]
        refine wp_ofExcept_of fun _ made => serviceResponse_fine (by decide) ?_ made
        unfold TaskService.getTask
        split <;> simp
    case isFalse =>
      split
      case h_1 => exact wp_ofExcept_of fun _ made => taskError_fine (by decide) made
      case h_2 input _ =>
        split
        case isTrue =>
          simp only [wp_bind, wp_serve]
          refine wp_ofExcept_of fun _ made => serviceResponse_fine (by decide) ?_ made
          unfold TaskService.createTask
          split
          · simp
          · split <;> simp
        case isFalse =>
          simp only [wp_bind, wp_serve]
          refine wp_ofExcept_of fun _ made => serviceResponse_fine (by decide) ?_ made
          unfold TaskService.replaceTask
          split <;> simp

theorem prevalidateTask_fine {response : ResponseResult}
    (made : prevalidateTask route request policy = .ok (some response)) :
    response.status ≠ .internalServerError := by
  have error : ∀ {status : Status} {code message : Bytes}, status ≠ .internalServerError →
      some <$> taskError status code message policy false [] = .ok (some response) →
      response.status ≠ .internalServerError := by
    intro status code message fine made
    obtain ⟨result, thrown, same⟩ := (bind_ok_iff (f := fun x => Except.ok (some x))).mp made
    cases same
    exact taskError_fine fine thrown
  unfold prevalidateTask at made
  split at made
  case h_1 rejected refused =>
    cases made
    obtain ⟨status, body, allow, refusal, served, others⟩ := validateTaskRequest_spec route
    by_cases serves : IsServed route request.method
    · rw [served _ _ serves] at refused
      cases refused
    · rw [others _ _ serves] at refused
      rw [← Option.some.inj refused]
      show status ≠ .internalServerError
      rcases refusal.status with rfl | rfl | rfl <;> decide
  case h_2 =>
    split at made
    · exact error (by decide) made
    split at made
    · split at made
      · exact error (by decide) made
      · cases made
    split at made
    · exact error (by decide) made
    · cases made

/-- **Over a store that the API filled no request falls back to a 500**: nothing is thrown on the way. -/
theorem tryTaskResponse_fine {s : TaskService} (stored : Stored s) :
    ∃ response next, tryTaskResponse route request policy s = .ok response next
      ∧ response.status ≠ .internalServerError := by
  have spec : wp (tryTaskResponse route request policy) (fun response _ => response.status ≠ .internalServerError)
      (fun _ _ => False) s := by
    unfold tryTaskResponse
    simp only [wp_bind]
    rcases prevalidateTask_cases route request policy with ⟨done, admitted⟩ | ⟨⟨rejected, done, -⟩, -⟩
    · rw [wp_ofExcept done]
      refine wp_mono (wp_and (executeTask_outcome policy admitted stored) (executeTask_fine s))
        (fun _ _ both => both.2) fun _ _ none => none.1
    · rw [wp_ofExcept done]
      exact prevalidateTask_fine done
  unfold wp at spec
  split at spec
  case h_1 response next done => exact ⟨response, next, done, spec⟩
  case h_2 => exact spec.elim

end Fine

/-! ### Files -/

/-- `fstat` answers in words. -/
def FilesInWords (service : StaticFileService) : Prop :=
  ∀ (path : List FileTree.Name) (file : RegularFile), service.fs.root.lookup path = some (.regular file) →
    file.device < 2 ^ 64 ∧ file.inode < 2 ^ 64

theorem evaluateStaticConditions_short (fields : StaticRequestFields) {file : StaticFileMetadata} (now : Int)
    (omitBody : Bool) (words : file.Words) :
    (evaluateStaticConditions fields file now omitBody).metadata.Short := by
  obtain ⟨selected, -, described⟩ := evaluateStaticConditions_cases fields file now omitBody
  refine ⟨?_, makeEntityTag_length words, fun value written => formatHttpDate_length written, fun value written => ?_⟩
  · show ((formatHttpDate now).getD []).length ≤ 128
    cases made : formatHttpDate now with
    | none => exact Nat.zero_le _
    | some date => exact formatHttpDate_length made
  · rw [described] at written
    refine contentRangeOf_length words.size (fun chosen => ?_) written
    rcases selected with other | ⟨other, -⟩ | ⟨-, -, within⟩ | other
    · exact absurd (other.symm.trans chosen) (by decide)
    · exact absurd (other.symm.trans chosen) (by decide)
    · exact within
    · exact absurd (other.symm.trans chosen) (by decide)

/-- **An answer about a file of at most `kMaxFileBytes`.** -/
theorem answerFile_size (contents relativePath : Bytes) {fields : StaticRequestFields} {file : StaticFileMetadata}
    {now : Int} (policy : ConnectionPolicy) {omitBody : Bool} (words : file.Words)
    (small : file.size ≤ kMaxFileBytes) :
    (answerFile contents relativePath (evaluateStaticConditions fields file now omitBody) policy omitBody).size
      ≤ kMaxFileBytes + 2000 := by
  have short := evaluateStaticConditions_short fields now omitBody words
  obtain ⟨selected, -, -⟩ := evaluateStaticConditions_cases fields file now omitBody
  generalize evaluateStaticConditions fields file now omitBody = evaluated at short selected
  have header : ∀ {status : Status} {length : Nat} {type : Bytes}, (status ≠ .notModified → length < 10 ^ 20) →
      type.length ≤ 32 → (makeStaticResponseHeader status length type policy evaluated.metadata).length ≤ 1500 := by
    intro status length type few named
    rw [makeStaticResponseHeader_eq]
    exact headerOf_short status (staticResponseFields_short few named short)
  unfold answerFile
  dsimp only
  split
  case isTrue =>
    have text := @header (selectedStatus evaluated.range.selection) unsatisfiableBody.length
      (text "text/plain; charset=utf-8") (fun _ => by decide) (by decide)
    have body : unsatisfiableBody.length = 26 := by decide
    unfold ResponseResult.size
    simp only [Option.map_none, Option.getD_none, List.length_append]
    omega
  case isFalse satisfiable =>
    have length : selectedStatus evaluated.range.selection ≠ .notModified → evaluated.range.length ≤ file.size := by
      intro modified
      rcases selected with other | ⟨-, same⟩ | ⟨-, -, within⟩ | other
      · exact absurd (congrArg selectedStatus other) modified
      · exact Nat.le_of_eq same
      · exact Nat.le_trans (Nat.le_add_left _ _) within
      · exact absurd (congrArg selectedStatus other) satisfiable
    have text := @header _ evaluated.range.length (contentTypeForPath relativePath)
      (fun modified => Nat.lt_of_le_of_lt (Nat.le_trans (length modified) small) (by decide))
      (contentTypeForPath_length relativePath)
    unfold ResponseResult.size
    dsimp only
    split
    case isTrue =>
      simp only [Option.map_none, Option.getD_none]
      omega
    case isFalse bodied =>
      have modified : selectedStatus evaluated.range.selection ≠ .notModified := by
        intro unmodified
        exact bodied (by simp [unmodified])
      have within := length modified
      simp only [Option.map_some, Option.getD_some]
      omega

theorem errorResponse_size {status : Status} {policy : ConnectionPolicy} {omitBody : Bool} {result : ResponseResult}
    (made : errorResponse status policy omitBody = some result) : result.size ≤ 2000 :=
  errorAnswer_size (by decide) made

theorem StaticFileService.onValidatedTarget_size {service : StaticFileService} (words : FilesInWords service)
    {target : RequestTarget} {omitBody : Bool} {policy : ConnectionPolicy} {fields : StaticRequestFields} {now : Int}
    {result : ResponseResult} (answered : service.onValidatedTarget target omitBody policy fields now = some result) :
    result.size ≤ kMaxFileBytes + 2000 := by
  rcases service.onValidatedTarget_cases target with ⟨failed, -, same⟩ | ⟨file, isFile, same⟩
  · rw [same] at answered
    exact Nat.le_trans (errorResponse_size answered) (Nat.le_add_left _ _)
  · cases answered.symm.trans (same omitBody policy fields now)
    obtain ⟨device, inode⟩ := words _ file isFile.regular
    have small := isFile.small
    refine answerFile_size _ _ policy ⟨device, inode, ?_⟩ small
    show file.contents.length < 2 ^ 64
    unfold kMaxFileBytes at small
    omega

/-! ### The router -/

theorem rejectRequest_size {status : Status} {omitBody : Bool} {allowedMethods : Bytes} {result : ResponseResult}
    (allowed : allowedMethods.length ≤ 32) (made : rejectRequest status omitBody allowedMethods = some result) :
    result.size ≤ 2000 :=
  errorAnswer_size allowed made

namespace RequestRouter

theorem admitTarget_size {target : RequestTarget} {method : Bytes} {rejected : ResponseResult}
    (refused : admitTarget target method = some (some rejected)) : rejected.size ≤ 2000 := by
  have mapped : ∀ {answer : Option ResponseResult}, some <$> answer = some (some rejected) →
      answer = some rejected := by
    intro answer same
    obtain ⟨made, found, equal⟩ := Option.map_eq_some_iff.mp same
    exact found.trans equal
  unfold admitTarget at refused
  dsimp only at refused
  split at refused
  · split at refused
    · cases refused
    · exact rejectRequest_size (by decide) (mapped refused)
  · split at refused
    · cases refused
    · exact rejectRequest_size (by decide) (mapped refused)

theorem echoResponse_size {request : HttpRequest} (small : request.body.length ≤ kMaxBodyBytes)
    (policy : ConnectionPolicy) : (echoResponse request policy).size ≤ kMaxBodyBytes + 1500 := by
  have header := @makeResponseHeader_short .ok request.body.length (text "application/octet-stream") [] policy
    (Nat.lt_of_le_of_lt small (by decide)) (by decide) (by decide)
  show (makeResponse .ok request.body (text "application/octet-stream") [] policy).length + 0 ≤ _
  unfold makeResponse
  rw [List.length_append]
  omega

/-- **What the router answers is a bounded body, a bounded file or a short text.** -/
theorem onResponse_size {service : StaticFileService} (words : FilesInWords service) {request : HttpRequest}
    (small : request.body.length ≤ kMaxBodyBytes) {policy : ConnectionPolicy} {now : Int} {tasks : TaskService}
    {result : ResponseResult} (answered : (onResponse service request policy now tasks).1 = some result) :
    result.size ≤ kMaxFileBytes + 2000 := by
  unfold onResponse at answered
  dsimp only at answered
  split at answered
  case h_1 => exact Nat.le_trans (rejectRequest_size (by decide) answered) (Nat.le_add_left _ _)
  case h_2 target parsed =>
    split at answered
    case isTrue =>
      rw [← Option.some.inj answered]
      exact Nat.le_trans (onTaskResponse_sized _ _ _ _).size.2 (by decide)
    case isFalse =>
      split at answered
      case h_1 => cases answered
      case h_2 rejected admitted =>
        rw [← Option.some.inj answered]
        exact Nat.le_trans (admitTarget_size admitted) (Nat.le_add_left _ _)
      case h_3 =>
        split at answered
        case isTrue =>
          rw [← Option.some.inj answered]
          exact Nat.le_trans (echoResponse_size small policy) (by decide)
        case isFalse => exact StaticFileService.onValidatedTarget_size words answered

theorem onRequestHeaders_size {head : RequestHead} {policy : ConnectionPolicy} {rejected : ResponseResult}
    (refused : onRequestHeaders head policy = some (some rejected)) : rejected.size ≤ kMaxTaskResponseBytes + 2000 := by
  unfold onRequestHeaders at refused
  dsimp only at refused
  split at refused
  case h_1 =>
    obtain ⟨made, found, equal⟩ := Option.map_eq_some_iff.mp refused
    cases equal
    exact Nat.le_trans (rejectRequest_size (by decide) found) (Nat.le_add_left _ _)
  case h_2 target parsed =>
    split at refused
    case isTrue =>
      exact Nat.le_trans (validateTaskRequest_sized (Option.some.inj refused)).size.2 (by decide)
    case isFalse => exact Nat.le_trans (admitTarget_size refused) (Nat.le_add_left _ _)

end RequestRouter

end HpServer.Http
