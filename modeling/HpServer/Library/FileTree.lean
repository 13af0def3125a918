/-
**A file tree and the POSIX lookup of names in it.**

A file system is a tree of directories, regular files, symbolic links and other nodes. A descriptor is the
path of the node it was opened on, from the root of the tree.

* `walk`, `resolve` — path resolution: `.`, `..`, links in the middle of a path, and links at its end unless
  they are not to be followed.
* `openat`, `isSymlinkAt`.
* `openat_plain` — **a name that is a single component opens the entry of that name and follows nothing.**
-/

import Mathlib.Data.List.TakeWhile
import Mathlib.Tactic

namespace FileTree

abbrev Name := List UInt8

inductive Errno where
  | loop | access | permission | noEntry | notDirectory | other (number : Nat)
  deriving DecidableEq, Repr

/-- A node; `File` is what is known of a regular file. -/
inductive Node (File : Type) where
  | directory (entries : List (Name × Node File))
  | regular (file : File)
  | symlink (target : Name)
  | other

namespace Node

variable {File : Type}

def isDirectory : Node File → Bool
  | directory _ => true
  | _ => false

def isSymlink : Node File → Bool
  | symlink _ => true
  | _ => false

/-- The entry of a directory. -/
def child : Node File → Name → Option (Node File)
  | directory entries, name => (entries.find? fun entry => entry.1 = name).map fun entry => entry.2
  | _, _ => none

/-- The node at the end of some names, taken as entries one after another. -/
def lookup : Node File → List Name → Option (Node File)
  | node, [] => some node
  | node, name :: rest => (node.child name).bind fun next => next.lookup rest

end Node

/-- A tree, and the paths on which `open` fails for a reason of its own. -/
structure FileSystem (File : Type) where
  root : Node File
  fails : List Name → Option Errno := fun _ => none

abbrev slash : UInt8 := 0x2f
abbrev dot : UInt8 := 0x2e

/-- The components of a path; empty ones do not count. -/
def components (path : Name) : List Name := (path.splitOn slash).filter fun name => name ≠ []

section Resolution

variable {File : Type} (fs : FileSystem File)

/-- Resolution from the directory `here`. A link on the way is replaced by its target; what is then to be
resolved is left to `expand`. -/
def walk (expand : List Name → List Name → Except Errno (List Name)) (followLast : Bool) :
    List Name → List Name → Except Errno (List Name)
  | here, [] => .ok here
  | here, name :: rest =>
    if name = [dot] then walk expand followLast here rest
    else if name = [dot, dot] then walk expand followLast here.dropLast rest
    else
      match fs.root.lookup here with
      | none => .error .noEntry
      | some node =>
        if !node.isDirectory then .error .notDirectory
        else
          match node.child name with
          | none => .error .noEntry
          | some (.symlink target) =>
            if rest = [] && !followLast then .ok (here ++ [name])
            else expand (if target.head? = some slash then [] else here) (components target ++ rest)
          | some _ => walk expand followLast (here ++ [name]) rest

/-- Resolution with as many links as given. -/
def resolve (followLast : Bool) : Nat → List Name → List Name → Except Errno (List Name)
  | 0 => walk fs (fun _ _ => .error .loop) followLast
  | links + 1 => walk fs (resolve followLast links) followLast

/-- As many links as a path may hold. -/
def maxLinks : Nat := 40

structure OpenFlags where
  directory : Bool := false
  nofollow : Bool := false
  deriving DecidableEq, Repr

/-- The text a C string holds. -/
def cString (text : Name) : Name := text.takeWhile (· ≠ 0)

/-- `openat` for reading: the path of the node it opens. -/
def openat (parent : List Name) (path : Name) (flags : OpenFlags) : Except Errno (List Name) :=
  let path := cString path
  let trailing : Bool := path.getLast? = some slash
  if path = [] then .error .noEntry
  else
    let start := if path.head? = some slash then [] else parent
    match resolve fs (!flags.nofollow || trailing) maxLinks start (components path) with
    | .error e => .error e
    | .ok found =>
      match fs.root.lookup found with
      | none => .error .noEntry
      | some node =>
        if node.isSymlink then .error .loop
        else if (flags.directory || trailing) && !node.isDirectory then .error .notDirectory
        else
          match fs.fails found with
          | some e => .error e
          | none => .ok found

/-- `fstatat` without following, and whether it finds a link. -/
def isSymlinkAt (parent : List Name) (path : Name) : Bool :=
  let path := cString path
  if path = [] then false
  else
    let start := if path.head? = some slash then [] else parent
    match resolve fs (path.getLast? = some slash) maxLinks start (components path) with
    | .error _ => false
    | .ok found => (fs.root.lookup found).any Node.isSymlink

end Resolution

/-- A name that is one component of a path and the same as a C string. -/
structure PlainName (name : Name) : Prop where
  nonempty : name ≠ []
  notDot : name ≠ [dot]
  notParent : name ≠ [dot, dot]
  noSlash : slash ∉ name
  noNul : (0 : UInt8) ∉ name

section Plain

variable {File : Type} {fs : FileSystem File} {name : Name}

theorem cString_plain (plain : PlainName name) : cString name = name := by
  unfold cString
  rw [List.takeWhile_eq_self_iff]
  intro b member
  refine decide_eq_true fun zero => plain.noNul ?_
  rwa [← zero]

theorem components_plain (plain : PlainName name) : components name = [name] := by
  have whole : name.splitOn slash = [name] := by
    have split : ([slash].intercalate [name]).splitOn slash = [name] :=
      List.splitOn_intercalate slash (fun l member => List.mem_singleton.mp member ▸ plain.noSlash)
        (List.cons_ne_nil _ _)
    rwa [List.intercalate_singleton] at split
  unfold components
  rw [whole, List.filter_singleton]
  simp [plain.nonempty]

/-- Resolving one name in a directory, without following it. -/
theorem walk_plain {expand : List Name → List Name → Except Errno (List Name)} {here found : List Name}
    (plain : PlainName name) (done : walk fs expand false here [name] = .ok found) :
    found = here ++ [name]
      ∧ ∃ node entry, fs.root.lookup here = some node ∧ node.isDirectory
        ∧ node.child name = some entry := by
  unfold walk at done
  rw [if_neg plain.notDot, if_neg plain.notParent] at done
  split at done
  case h_1 => cases done
  case h_2 node inside =>
    split at done
    case isTrue => cases done
    case isFalse directory =>
      have directory : node.isDirectory := by simpa using directory
      split at done
      case h_1 => cases done
      case h_2 target entry =>
        cases done
        exact ⟨rfl, node, _, inside, directory, entry⟩
      case h_3 next link entry =>
        unfold walk at done
        cases done
        exact ⟨rfl, node, _, inside, directory, entry⟩

/-- **A plain name, not to be followed, opens the entry of that name**: `parent` is a directory, the node is
its entry and no link, and it is a directory if one was asked for. -/
theorem openat_plain {parent found : List Name} {directory : Bool} (plain : PlainName name)
    (opened : openat fs parent name { directory := directory, nofollow := true } = .ok found) :
    found = parent ++ [name]
      ∧ (∃ node, fs.root.lookup parent = some node ∧ node.isDirectory)
      ∧ ∃ node, fs.root.lookup found = some node ∧ node.isSymlink = false
        ∧ (directory = true → node.isDirectory) := by
  have relative : name.head? ≠ some slash := by
    intro rooted
    exact plain.noSlash (List.mem_of_mem_head? rooted)
  have unclosed : name.getLast? ≠ some slash := fun last => plain.noSlash (List.mem_of_getLast? last)
  unfold openat at opened
  rw [cString_plain plain] at opened
  dsimp only at opened
  rw [if_neg plain.nonempty, if_neg relative, components_plain plain, decide_eq_false unclosed] at opened
  split at opened
  case h_1 => cases opened
  case h_2 path resolved =>
    obtain ⟨rfl, node, entry, inside, isDirectory, child⟩ := walk_plain plain resolved
    split at opened
    case h_1 => cases opened
    case h_2 last present =>
      split at opened
      case isTrue => cases opened
      case isFalse link =>
        split at opened
        case isTrue => cases opened
        case isFalse kind =>
          split at opened
          case h_1 => cases opened
          case h_2 =>
            cases opened
            refine ⟨rfl, ⟨node, inside, isDirectory⟩, last, present, by simpa using link, ?_⟩
            intro asked
            simpa [asked] using kind

end Plain

end FileTree
