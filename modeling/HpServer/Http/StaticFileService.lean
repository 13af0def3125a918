/-
**`http/StaticFileService`: files below a root.**

The file system is a `FileTree`; what `fstat` tells of a regular file is its `RegularFile`. A
`StaticFileService` is made on a directory that was opened without following a link. An answer is missing
where the source would let an exception through.

* `openTarget` — the directories of a target and its file, opened one name at a time.
* `prepareFileResponse`, `onValidatedTarget`, `onResponse`; `handleResponse` — the same with the bytes of the file.
* `openTarget_within` — **a target opens the node at its components below the root, through directories
  only.**
* `onValidatedTarget_cases` — a target is a failure or has a regular file of at most `kMaxFileBytes`.
-/

import HpServer.Http.RequestTarget
import HpServer.Library.FileTree

namespace HpServer.Http

open Base FileTree

def kMaxFileBytes : Nat := 8 * 1024 * 1024

/-- A regular file: what identifies it, its times and its bytes. -/
structure RegularFile where
  device : Nat
  inode : Nat
  contents : Bytes
  modifiedSeconds : Int
  modifiedNanoseconds : Int
  changedSeconds : Int
  changedNanoseconds : Int
  deriving DecidableEq, Repr

/-- What `fstat` returns. -/
structure FileStat where
  isRegular : Bool := false
  device : Nat := 0
  inode : Nat := 0
  size : Int := 0
  modifiedSeconds : Int := 0
  modifiedNanoseconds : Int := 0
  changedSeconds : Int := 0
  changedNanoseconds : Int := 0

def fileStat : Node RegularFile → FileStat
  | .regular file =>
    { isRegular := true
      device := file.device
      inode := file.inode
      size := file.contents.length
      modifiedSeconds := file.modifiedSeconds
      modifiedNanoseconds := file.modifiedNanoseconds
      changedSeconds := file.changedSeconds
      changedNanoseconds := file.changedNanoseconds }
  | _ => {}

/-- The bytes read through a descriptor. -/
def fileContents : Node RegularFile → Bytes
  | .regular file => file.contents
  | _ => []

/-- A root that is a directory. -/
structure StaticFileService where
  fs : FileSystem RegularFile
  root : List Name
  opened : ∃ node, fs.root.lookup root = some node ∧ node.isDirectory

def errorResponse (status : Status) (policy : ConnectionPolicy) (omitBody : Bool) : Option ResponseResult :=
  let policy := if status = .badRequest || status = .methodNotAllowed then .close else policy
  errorAnswer status policy omitBody (text "GET")

def classifyOpenError (fs : FileSystem RegularFile) (parent : List Name) (component : Bytes) (error : Errno) :
    Status :=
  if error = .loop || isSymlinkAt fs parent component then .forbidden
  else if error = .access || error = .permission then .forbidden
  else if error = .noEntry || error = .notDirectory then .notFound
  else .internalServerError

def selectedStatus : StaticSelection → Status
  | .full => .ok
  | .notModified => .notModified
  | .partialContent => .partialContent
  | .unsatisfiable => .rangeNotSatisfiable

def unsatisfiableBody : Bytes := text "416 Range Not Satisfiable\n"

/-- The description of a file that is evaluated. -/
def describeFile (metadata : FileStat) : StaticFileMetadata :=
  { device := metadata.device
    inode := metadata.inode
    size := metadata.size.toNat
    modifiedSeconds := metadata.modifiedSeconds
    modifiedNanoseconds := metadata.modifiedNanoseconds
    changedSeconds := metadata.changedSeconds
    changedNanoseconds := metadata.changedNanoseconds }

/-- The end of `prepareFileResponse`: the answer once the conditions are evaluated. -/
def answerFile (contents relativePath : Bytes) (evaluated : StaticEvaluation) (policy : ConnectionPolicy)
    (omitBody : Bool) : ResponseResult :=
  let status := selectedStatus evaluated.range.selection
  let length := evaluated.range.length
  let noBody := omitBody || status = .notModified
  if status = .rangeNotSatisfiable then
    { bytes :=
        makeStaticResponseHeader status unsatisfiableBody.length (text "text/plain; charset=utf-8") policy
          evaluated.metadata ++ unsatisfiableBody
      effectivePolicy := policy
      status := status
      contentBytes := unsatisfiableBody.length }
  else
    { bytes := makeStaticResponseHeader status length (contentTypeForPath relativePath) policy evaluated.metadata
      effectivePolicy := policy
      file :=
        if noBody then none
        else
          some
            { contents := fun i => contents.getD i 0
              offset := evaluated.range.offset
              remaining := length
              isOpen := true }
      status := status
      contentBytes := if noBody then 0 else length }

theorem answerFile_status (contents relativePath : Bytes) (evaluated : StaticEvaluation)
    (policy : ConnectionPolicy) (omitBody : Bool) :
    (answerFile contents relativePath evaluated policy omitBody).status
      = selectedStatus evaluated.range.selection := by
  unfold answerFile
  dsimp only
  split <;> rfl

def prepareFileResponse (contents relativePath : Bytes) (metadata : FileStat) (policy : ConnectionPolicy)
    (omitBody : Bool) (fields : StaticRequestFields) (now : Int) : Option ResponseResult :=
  if !metadata.isRegular then errorResponse .notFound policy omitBody
  else if metadata.size < 0 then errorResponse .internalServerError policy omitBody
  else if kMaxFileBytes < metadata.size.toNat then errorResponse .forbidden policy omitBody
  else
    let evaluated := evaluateStaticConditions fields (describeFile metadata) now omitBody
    some (answerFile contents relativePath evaluated policy omitBody)

namespace StaticFileService

variable (service : StaticFileService)

/-- The loop over the directories of a target. -/
def openDirectories : List Name → List Bytes → Except Status (List Name)
  | parent, [] => .ok parent
  | parent, component :: rest =>
    match openat service.fs parent component { directory := true, nofollow := true } with
    | .error e => .error (classifyOpenError service.fs parent component e)
    | .ok next => openDirectories next rest

/-- The file of a target, or the status of the answer that it cannot be opened. -/
def openTarget (target : RequestTarget) : Except Status (List Name) :=
  match service.openDirectories service.root target.components.dropLast with
  | .error status => .error status
  | .ok parent =>
    let filename := target.components.getLastD []
    match openat service.fs parent filename { nofollow := true } with
    | .error e => .error (classifyOpenError service.fs parent filename e)
    | .ok file => .ok file

/-- The path that selects the content type. -/
def relativePath (target : RequestTarget) : Bytes :=
  if target.path = [slash] then indexComponent else target.path

/-- The body of the `try` of `onValidatedTarget`. -/
def tryValidatedTarget (target : RequestTarget) (omitBody : Bool) (policy : ConnectionPolicy)
    (fields : StaticRequestFields) (now : Int) : Option ResponseResult :=
  match service.openTarget target with
  | .error status => errorResponse status policy omitBody
  | .ok file =>
    match service.fs.root.lookup file with
    | none => errorResponse .internalServerError policy omitBody
    | some node =>
      prepareFileResponse (fileContents node) (relativePath target) (fileStat node) policy omitBody fields now

def onValidatedTarget (target : RequestTarget) (omitBody : Bool) (policy : ConnectionPolicy)
    (fields : StaticRequestFields) (now : Int) : Option ResponseResult :=
  service.tryValidatedTarget target omitBody policy fields now
    <|> errorResponse .internalServerError policy omitBody

def onResponse (request : HttpRequest) (policy : ConnectionPolicy) (now : Int) : Option ResponseResult :=
  let omitBody : Bool := request.method = text "HEAD"
  let parsed := parseRequestTarget request.target
  (match parsed.target with
    | none => errorResponse parsed.status .close omitBody
    | some target => service.onValidatedTarget target omitBody policy request.staticFields now)
    <|> errorResponse .internalServerError policy omitBody

end StaticFileService

/-- What `pread` returns: `more + 1` bytes, or all that was asked for if that is less; 0; or an error. -/
inductive PreadResult where
  | read (more : Nat)
  | endOfFile
  | interrupted
  | failed
  deriving DecidableEq, Repr

/-- Bytes written over those at a position. -/
def overwrite (bytes : Bytes) (position : Nat) (data : Bytes) : Bytes :=
  bytes.take position ++ data ++ bytes.drop (position + data.length)

/-- The loop of `handleResponse`, from `offset` on; it ends with the vector, or at a result that is an error. A call
without a result of its own reads all that is left. -/
def preadLoop (file : FileRegion) (header : Nat) : List PreadResult → Nat → Bytes → Option Bytes
  | reads, offset, bytes =>
    if bytes.length ≤ offset then some bytes
    else
      let asked := bytes.length - offset
      let position := file.offset + (offset - header)
      match reads with
      | [] => some (overwrite bytes offset (slice file.contents position asked))
      | .read more :: rest =>
        let count := min (more + 1) asked
        preadLoop file header rest (offset + count) (overwrite bytes offset (slice file.contents position count))
      | .interrupted :: rest => preadLoop file header rest offset bytes
      | .endOfFile :: _ => none
      | .failed :: _ => none

namespace StaticFileService

variable (service : StaticFileService) (request : HttpRequest) (policy : ConnectionPolicy) (now : Int)
  (allocates : Bool) (reads : List PreadResult)

/-- `allocates` is whether there is memory for the file. -/
def handleResponse : Option ResponseResult :=
  let omitBody : Bool := request.method = text "HEAD"
  match service.onResponse request policy now with
  | none => none
  | some result =>
    match result.file with
    | none => some result
    | some file =>
      if !allocates then errorResponse .internalServerError policy omitBody
      else
        let header := result.bytes.length
        match preadLoop file header reads header (result.bytes ++ List.replicate file.remaining 0) with
        | none => errorResponse .internalServerError policy omitBody
        | some bytes => some { result with bytes := bytes, file := none }

def buildResponseBytes : Option Bytes := (service.handleResponse request policy now allocates reads).map (·.bytes)

end StaticFileService

/-! ### Below the root -/

theorem SafeComponent.plain {component : Bytes} (safe : SafeComponent component) : PlainName component where
  nonempty := safe.nonempty
  notDot := safe.notDot
  notParent := safe.notParent
  noSlash := safe.noSlash
  noNul := fun member => absurd (safe.clean _ member) (by decide)

/-- A path is a directory. -/
def IsDirectoryAt (fs : FileSystem RegularFile) (path : List Name) : Prop :=
  ∃ node, fs.root.lookup path = some node ∧ node.isDirectory

namespace StaticFileService

variable {service : StaticFileService}

theorem openDirectories_within {components : List Bytes} {parent found : List Name}
    (safe : ∀ c ∈ components, SafeComponent c) (start : IsDirectoryAt service.fs parent)
    (opened : service.openDirectories parent components = .ok found) :
    found = parent ++ components
      ∧ ∀ n ≤ components.length, IsDirectoryAt service.fs (parent ++ components.take n) := by
  induction components generalizing parent with
  | nil =>
    cases opened
    refine ⟨(List.append_nil _).symm, fun n _ => ?_⟩
    rwa [List.take_nil, List.append_nil]
  | cons component rest ih =>
    rw [openDirectories] at opened
    split at opened
    case h_1 => cases opened
    case h_2 next first =>
      obtain ⟨rfl, -, node, present, -, directory⟩ :=
        openat_plain (safe component List.mem_cons_self).plain first
      obtain ⟨same, inside⟩ :=
        ih (fun c member => safe c (List.mem_cons_of_mem _ member)) ⟨node, present, directory rfl⟩ opened
      refine ⟨by rw [same, List.append_assoc]; rfl, fun n below => ?_⟩
      cases n with
      | zero =>
        rw [List.take_zero, List.append_nil]
        exact start
      | succ n =>
        have later := inside n (Nat.le_of_succ_le_succ below)
        rwa [List.append_assoc] at later

/-- **A target opens the node at its components below the root.** Everything on the way is a directory and
the node is no link. -/
theorem openTarget_within {target : RequestTarget} {found : List Name}
    (opened : service.openTarget target = .ok found) :
    found = service.root ++ target.components
      ∧ (∀ n < target.components.length, IsDirectoryAt service.fs (service.root ++ target.components.take n))
      ∧ ∃ node, service.fs.root.lookup found = some node ∧ node.isSymlink = false := by
  have safe := target.safe
  have last := target.components_ne_nil
  unfold openTarget at opened
  split at opened
  case h_1 => cases opened
  case h_2 parent directories =>
    obtain ⟨rfl, inside⟩ := openDirectories_within
      (fun c member => safe c (List.mem_of_mem_dropLast member)) service.opened directories
    dsimp only at opened
    rw [List.getLastD_eq_getLast?, List.getLast?_eq_some_getLast last, Option.getD_some] at opened
    split at opened
    case h_1 => cases opened
    case h_2 file final =>
      cases opened
      obtain ⟨rfl, -, node, present, link, -⟩ := openat_plain (safe _ (List.getLast_mem last)).plain final
      have whole : service.root ++ target.components.dropLast ++ [target.components.getLast last]
          = service.root ++ target.components := by
        rw [List.append_assoc, List.dropLast_append_getLast]
      refine ⟨whole, fun n below => ?_, node, present, link⟩
      have directory := inside n (by rw [List.length_dropLast]; omega)
      rwa [List.dropLast_eq_take, List.take_take, Nat.min_eq_left (by omega)] at directory

/-- The statuses of a target that has no file to answer with. -/
def IsFailure (status : Status) : Prop :=
  status = .forbidden ∨ status = .notFound ∨ status = .internalServerError

/-- The file of a target. -/
structure IsFile (service : StaticFileService) (target : RequestTarget) (file : RegularFile) : Prop where
  opened : service.openTarget target = .ok (service.root ++ target.components)
  regular : service.fs.root.lookup (service.root ++ target.components) = some (.regular file)
  small : file.contents.length ≤ kMaxFileBytes

theorem IsFailure.errorResponse_isSome {status : Status} (failed : IsFailure status) (policy : ConnectionPolicy)
    (omitBody : Bool) : ∃ result, errorResponse status policy omitBody = some result := by
  rcases failed with rfl | rfl | rfl <;> exact ⟨_, rfl⟩

theorem classifyOpenError_failure (fs : FileSystem RegularFile) (parent : List Name) (component : Bytes)
    (e : Errno) : IsFailure (classifyOpenError fs parent component e) := by
  unfold classifyOpenError
  repeat' split
  · exact .inl rfl
  · exact .inl rfl
  · exact .inr (.inl rfl)
  · exact .inr (.inr rfl)

theorem openTarget_failure {target : RequestTarget} {status : Status}
    (failed : service.openTarget target = .error status) : IsFailure status := by
  have directories : ∀ (components : List Bytes) (parent : List Name),
      service.openDirectories parent components = .error status → IsFailure status := by
    intro components
    induction components with
    | nil => exact fun parent none => nomatch none
    | cons component rest ih =>
      intro parent failed
      rw [openDirectories] at failed
      split at failed
      case h_1 e _ =>
        cases failed
        exact classifyOpenError_failure _ _ _ _
      case h_2 next _ => exact ih next failed
  unfold openTarget at failed
  split at failed
  case h_1 status' first =>
    cases failed
    exact directories _ _ first
  case h_2 parent first =>
    dsimp only at failed
    split at failed
    case h_1 e _ =>
      cases failed
      exact classifyOpenError_failure _ _ _ _
    case h_2 => cases failed

/-- What a target that is refused with `status` is answered. -/
theorem fails_of_tried {service : StaticFileService} {target : RequestTarget} {status : Status}
    (failed : IsFailure status)
    (tried : ∀ omitBody policy fields now,
      service.tryValidatedTarget target omitBody policy fields now = errorResponse status policy omitBody) :
    ∃ status, IsFailure status ∧ ∀ omitBody policy fields now,
      service.onValidatedTarget target omitBody policy fields now = errorResponse status policy omitBody := by
  refine ⟨status, failed, fun omitBody policy fields now => ?_⟩
  obtain ⟨result, made⟩ := failed.errorResponse_isSome policy omitBody
  unfold onValidatedTarget
  rw [tried, made]
  rfl

/-- **A file is answered with as its conditions select.** -/
theorem IsFile.answered {service : StaticFileService} {target : RequestTarget} {file : RegularFile}
    (isFile : service.IsFile target file) (omitBody : Bool) (policy : ConnectionPolicy) (fields : StaticRequestFields)
    (now : Int) :
    service.onValidatedTarget target omitBody policy fields now
      = some (answerFile file.contents (relativePath target)
        (evaluateStaticConditions fields (describeFile (fileStat (.regular file))) now omitBody) policy omitBody) := by
  have sized : ¬ (fileStat (.regular file)).size < 0 := not_lt.mpr (Int.natCast_nonneg _)
  have fits : ¬ kMaxFileBytes < (fileStat (.regular file)).size.toNat := Nat.not_lt.mpr isFile.small
  unfold onValidatedTarget tryValidatedTarget
  rw [isFile.opened]
  dsimp only
  rw [isFile.regular]
  dsimp only
  unfold prepareFileResponse
  rw [if_neg (show ¬ (!(fileStat (.regular file)).isRegular) = true from Bool.false_ne_true), if_neg sized,
    if_neg fits]
  rfl

/-- **A target is a failure or has a regular file.** Which it is does not depend on the method, the policy,
the fields and the time. -/
theorem onValidatedTarget_cases (service : StaticFileService) (target : RequestTarget) :
    (∃ status, IsFailure status ∧ ∀ omitBody policy fields now,
      service.onValidatedTarget target omitBody policy fields now = errorResponse status policy omitBody)
    ∨ ∃ file, service.IsFile target file ∧ ∀ omitBody policy fields now,
      service.onValidatedTarget target omitBody policy fields now
        = some (answerFile file.contents (relativePath target)
          (evaluateStaticConditions fields (describeFile (fileStat (.regular file))) now omitBody) policy
          omitBody) := by
  cases opened : service.openTarget target with
  | error status =>
    refine .inl (fails_of_tried (openTarget_failure opened) fun omitBody policy fields now => ?_)
    unfold tryValidatedTarget
    rw [opened]
  | ok found =>
    obtain ⟨rfl, -, node, present, -⟩ := openTarget_within opened
    have tried : ∀ omitBody policy fields now, service.tryValidatedTarget target omitBody policy fields now
        = prepareFileResponse (fileContents node) (relativePath target) (fileStat node) policy omitBody fields
          now := by
      intro omitBody policy fields now
      unfold tryValidatedTarget
      rw [opened]
      dsimp only
      rw [present]
    by_cases regular : (fileStat node).isRegular
    case neg =>
      refine .inl (fails_of_tried (.inr (.inl rfl)) fun omitBody policy fields now => (tried _ _ _ _).trans ?_)
      exact if_pos (by simp [regular])
    obtain ⟨file, rfl⟩ : ∃ file, node = .regular file := by
      cases node with
      | regular file => exact ⟨file, rfl⟩
      | directory => cases regular
      | symlink => cases regular
      | other => cases regular
    have sized : ¬ (fileStat (.regular file)).size < 0 := not_lt.mpr (Int.natCast_nonneg _)
    by_cases small : file.contents.length ≤ kMaxFileBytes
    case neg =>
      refine .inl (fails_of_tried (.inl rfl) fun omitBody policy fields now => (tried _ _ _ _).trans ?_)
      exact (if_neg Bool.false_ne_true).trans ((if_neg sized).trans (if_pos (Nat.lt_of_not_le small)))
    case pos =>
      have isFile : service.IsFile target file := ⟨opened, present, small⟩
      exact .inr ⟨file, isFile, isFile.answered⟩

end StaticFileService

end HpServer.Http
