/-
**`http/RequestTarget`: the request target, decoded once and split.**

`parseRequestTarget` decodes the path and the query and cuts the path into components. A `RequestTarget` can
only be made by it in the source; here it carries what that gives.

* `decodeComponent`, `parseQuery`, `splitPath`, `parseRequestTarget`.
* `RequestTarget.safe` — **a component is never empty, `.` or `..`, and has no separator, NUL or control
  byte.**
* `RequestTarget.joined` — **the components, joined by `/`, are the decoded path.**
-/

import HpServer.Http.HttpRequest
import HpServer.Http.HttpResponse

namespace HpServer.Http

def kMaxRawTargetBytes : Nat := 4096
def kMaxRawQueryBytes : Nat := 2048
def kMaxQueryParameters : Nat := 64
def kMaxQueryKeyBytes : Nat := 128
def kMaxQueryValueBytes : Nat := 1024
def kMaxDecodedQueryBytes : Nat := 2048

structure QueryParameter where
  key : Bytes := []
  value : Bytes := []
  deriving DecidableEq, Repr

abbrev percent : UInt8 := 0x25
abbrev ampersand : UInt8 := 0x26
abbrev question : UInt8 := 0x3f

/-- Below the space, or DEL. -/
def isControl (b : UInt8) : Bool := b < 0x20 || b = del

/-- The bytes a path may not have percent-encoded. -/
def isReserved (b : UInt8) : Bool := b = slash || b = backslash || b = question || b = hash || b = percent

/-- The decoded bytes behind those already decoded; nothing where the source returns `false`. -/
def decodeComponent (path : Bool) (limit : Nat) : Bytes → Bytes → Option Bytes
  | decoded, [] => some decoded
  | decoded, b :: rest =>
    if b = percent then
      match rest with
      | high :: low :: rest =>
        match hexDigit high, hexDigit low with
        | some high, some low =>
          let byte := (high * 16 + low).toUInt8
          if path && isReserved byte then none
          else if isControl byte || decoded.length = limit then none
          else decodeComponent path limit (decoded ++ [byte]) rest
        | _, _ => none
      | _ => none
    else if isControl b || decoded.length = limit then none
    else decodeComponent path limit (decoded ++ [b]) rest

/-- The pairs of a query behind `parameters`, which have `decodedBytes` bytes. -/
def parsePairs : List Bytes → List QueryParameter → Nat → Option (List QueryParameter)
  | [], parameters, _ => some parameters
  | pair :: rest, parameters, decodedBytes =>
    let cut := cutAt equals pair
    if cut.1 = [] || parameters.length = kMaxQueryParameters then none
    else
      match decodeComponent false kMaxQueryKeyBytes [] cut.1,
        decodeComponent false kMaxQueryValueBytes [] cut.2 with
      | some key, some value =>
        if kMaxDecodedQueryBytes - decodedBytes < key.length then none
        else if kMaxDecodedQueryBytes - (decodedBytes + key.length) < value.length then none
        else
          parsePairs rest (parameters ++ [{ key := key, value := value }])
            (decodedBytes + key.length + value.length)
      | _, _ => none

def parseQuery (raw : Bytes) : Option (List QueryParameter) :=
  if kMaxRawQueryBytes < raw.length then none
  else if raw = [] then some []
  else parsePairs (raw.splitOn ampersand) [] 0

def indexComponent : Bytes := text "index.html"

/-- A component no path may have. -/
def isForbidden (component : Bytes) : Bool :=
  component = [] || component = [dot] || component = [dot, dot]

def splitPath (path : Bytes) : Option (List Bytes) :=
  if backslash ∈ path then none
  else if path = [slash] then some [indexComponent]
  else if path = [] then some []
  else
    let components := (path.drop 1).splitOn slash
    if components.any isForbidden then none else some components

/-! ### What a decoded path is -/

/-- Decoding adds bytes that are not control bytes. -/
theorem decodeComponent_clean {path : Bool} {limit : Nat} {decoded raw result : Bytes}
    (done : decodeComponent path limit decoded raw = some result)
    (clean : ∀ b ∈ decoded, isControl b = false) : ∀ b ∈ result, isControl b = false := by
  have added : ∀ {decoded : Bytes} {b : UInt8}, (∀ b ∈ decoded, isControl b = false) →
      ¬ (isControl b || decide (decoded.length = limit)) = true →
      ∀ c ∈ decoded ++ [b], isControl c = false := by
    intro decoded b clean fits c member
    rcases List.mem_append.mp member with old | new
    · exact clean c old
    · rw [List.mem_singleton.mp new]
      simp only [Bool.or_eq_true, not_or, Bool.not_eq_true] at fits
      exact fits.1
  fun_induction decodeComponent path limit decoded raw with
  | case1 decoded =>
    cases done
    exact clean
  | case2 => cases done
  | case3 => cases done
  | case4 decoded high low rest h l highRead lowRead byte allowed fits ih => exact ih done (added clean fits)
  | case5 => cases done
  | case6 => cases done
  | case7 => cases done
  | case8 decoded b rest plain fits ih => exact ih done (added clean fits)

theorem decodeComponent_prefix {path : Bool} {limit : Nat} {decoded raw result : Bytes}
    (done : decodeComponent path limit decoded raw = some result) : decoded <+: result := by
  fun_induction decodeComponent path limit decoded raw with
  | case1 decoded =>
    cases done
    exact List.prefix_refl _
  | case2 => cases done
  | case3 => cases done
  | case4 decoded high low rest h l highRead lowRead byte allowed fits ih =>
    exact (List.prefix_append _ _).trans (ih done)
  | case5 => cases done
  | case6 => cases done
  | case7 => cases done
  | case8 decoded b rest plain fits ih => exact (List.prefix_append _ _).trans (ih done)

/-- A path that starts with `/` is decoded to one that does. -/
theorem decodeComponent_rooted {path : Bool} {limit : Nat} {raw result : Bytes}
    (rooted : raw.head? = some slash) (done : decodeComponent path limit [] raw = some result) :
    result.head? = some slash := by
  obtain ⟨rest, rfl⟩ : ∃ rest, raw = slash :: rest := by
    cases raw with
    | nil => cases rooted
    | cons b rest =>
      cases rooted
      exact ⟨rest, rfl⟩
  unfold decodeComponent at done
  rw [if_neg (by decide)] at done
  split at done
  case isTrue => cases done
  case isFalse =>
    obtain ⟨tail, rfl⟩ := decodeComponent_prefix done
    rfl

/-! ### The target -/

structure RequestTarget where
  path : Bytes
  components : List Bytes
  query : List QueryParameter
  rooted : path.head? = some slash
  clean : ∀ b ∈ path, isControl b = false
  split : splitPath path = some components

structure TargetParseResult where
  status : Status := .badRequest
  target : Option RequestTarget := none

theorem cutAt_rooted {raw : Bytes} (rooted : raw.head? = some slash) :
    (cutAt question raw).1.head? = some slash := by
  cases raw with
  | nil => cases rooted
  | cons b rest =>
    cases rooted
    rfl

def parseRequestTarget (raw : Bytes) : TargetParseResult :=
  if rooted : raw.head? = some slash then
    if kMaxRawTargetBytes < raw.length || !raw.all isTargetByte then {}
    else
      match decoded : decodeComponent true kMaxRawTargetBytes [] (cutAt question raw).1,
        parseQuery (cutAt question raw).2 with
      | some path, some query =>
        match split : splitPath path with
        | none => { status := .forbidden }
        | some components =>
          { status := .ok
            target :=
              some
                { path := path
                  components := components
                  query := query
                  rooted := decodeComponent_rooted (cutAt_rooted rooted) decoded
                  clean := decodeComponent_clean decoded fun _ none => nomatch none
                  split := split } }
      | _, _ => {}
  else {}

/-- A target that is refused is refused with 400 or 403. -/
theorem parseRequestTarget_refused {raw : Bytes} (refused : (parseRequestTarget raw).target = none) :
    (parseRequestTarget raw).status = .badRequest ∨ (parseRequestTarget raw).status = .forbidden := by
  revert refused
  unfold parseRequestTarget
  repeat' split
  all_goals first
    | exact fun _ => .inl rfl
    | exact fun _ => .inr rfl
    | exact fun refused => nomatch refused

/-! ### Components -/

/-- A component that names an entry of a directory and nothing else. -/
structure SafeComponent (component : Bytes) : Prop where
  nonempty : component ≠ []
  notDot : component ≠ [dot]
  notParent : component ≠ [dot, dot]
  noSlash : slash ∉ component
  noBackslash : backslash ∉ component
  clean : ∀ b ∈ component, isControl b = false

/-- The pieces of a text are made of its bytes and hold no separator. -/
theorem piece_of_mem_splitOn {separator : UInt8} {bytes piece : Bytes}
    (member : piece ∈ bytes.splitOn separator) : separator ∉ piece ∧ ∀ c ∈ piece, c ∈ bytes := by
  unfold List.splitOn at member
  induction bytes generalizing piece with
  | nil =>
    rw [List.splitOnP_nil, List.mem_singleton] at member
    rw [member]
    exact ⟨List.not_mem_nil, fun _ none => none⟩
  | cons b rest ih =>
    rw [List.splitOnP_cons_eq_if_modifyHead] at member
    have later : ∀ {piece}, piece ∈ rest.splitOnP (· == separator) →
        separator ∉ piece ∧ ∀ c ∈ piece, c ∈ b :: rest :=
      fun found => ⟨(ih found).1, fun c inside => List.mem_cons_of_mem _ ((ih found).2 c inside)⟩
    split at member
    case isTrue =>
      rcases List.mem_cons.mp member with rfl | found
      · exact ⟨List.not_mem_nil, fun _ none => nomatch none⟩
      · exact later found
    case isFalse other =>
      cases pieces : rest.splitOnP (· == separator) with
      | nil => exact absurd pieces (List.splitOnP_ne_nil _ _)
      | cons first others =>
        rw [pieces] at member later
        rcases List.mem_cons.mp member with rfl | found
        · obtain ⟨none, old⟩ := later List.mem_cons_self
          refine ⟨fun inside => ?_, List.forall_mem_cons.mpr ⟨List.mem_cons_self, old⟩⟩
          rcases List.mem_cons.mp inside with same | inside
          · exact other (by simp [same])
          · exact none inside
        · exact later (List.mem_cons_of_mem _ found)

namespace RequestTarget

variable (target : RequestTarget)

theorem path_eq : ∃ rest, target.path = slash :: rest := by
  have rooted := target.rooted
  cases path : target.path with
  | nil => simp [path] at rooted
  | cons b rest =>
    rw [path] at rooted
    cases rooted
    exact ⟨rest, rfl⟩

/-- The root is the index; every other path is its pieces. -/
theorem split_cases :
    backslash ∉ target.path
      ∧ (target.path = [slash] ∧ target.components = [indexComponent]
        ∨ target.path ≠ [slash] ∧ target.components = (target.path.drop 1).splitOn slash
          ∧ ∀ c ∈ target.components, isForbidden c = false) := by
  have split := target.split
  unfold splitPath at split
  split at split
  case isTrue => cases split
  case isFalse plain =>
    refine ⟨plain, ?_⟩
    split at split
    case isTrue root => exact .inl ⟨root, (Option.some.inj split).symm⟩
    case isFalse other =>
      split at split
      case isTrue empty =>
        obtain ⟨rest, path⟩ := target.path_eq
        rw [path] at empty
        cases empty
      case isFalse =>
        dsimp only at split
        split at split
        case isTrue => cases split
        case isFalse allowed =>
          injection split with same
          refine .inr ⟨other, same.symm, ?_⟩
          rw [Bool.not_eq_true, List.any_eq_false] at allowed
          rw [← same]
          exact fun c member => Bool.not_eq_true _ ▸ allowed c member

/-- **No component leaves its directory, and each is the same as a C string.** -/
theorem safe : ∀ c ∈ target.components, SafeComponent c := by
  obtain ⟨plain, ⟨-, components⟩ | ⟨-, components, allowed⟩⟩ := target.split_cases
  · rw [components]
    exact List.forall_mem_singleton.mpr ⟨by decide, by decide, by decide, by decide, by decide,
      by decide +kernel⟩
  · intro c member
    have kept := allowed c member
    simp only [isForbidden, Bool.or_eq_false_iff, decide_eq_false_iff_not] at kept
    rw [components] at member
    obtain ⟨noSlash, inside⟩ := piece_of_mem_splitOn member
    have path : ∀ b ∈ c, b ∈ target.path := fun b found => List.mem_of_mem_drop (inside b found)
    exact ⟨kept.1.1, kept.1.2, kept.2, noSlash, fun found => plain (path _ found),
      fun b found => target.clean b (path b found)⟩

/-- **The components are the decoded path**; those of `/` are the index. -/
theorem joined :
    target.path = [slash] ∧ target.components = [indexComponent]
      ∨ target.path = slash :: [slash].intercalate target.components := by
  obtain ⟨-, root | ⟨-, components, -⟩⟩ := target.split_cases
  · exact .inl root
  · obtain ⟨rest, path⟩ := target.path_eq
    refine .inr ?_
    rw [components, path, List.intercalate_splitOn]
    rfl

theorem components_ne_nil : target.components ≠ [] := by
  obtain ⟨-, ⟨-, components⟩ | ⟨-, components, -⟩⟩ := target.split_cases
  · rw [components]
    exact List.cons_ne_nil _ _
  · rw [components]
    exact List.splitOn_ne_nil _ _

end RequestTarget

end HpServer.Http
