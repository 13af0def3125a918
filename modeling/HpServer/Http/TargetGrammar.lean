/-
**Which request targets are accepted, and what they mean.**

`parseRequestTarget` reads the target with three loops whose errors are ranked. Here its result is told from the bytes
of the target alone.

* `Malformed`, `Unsafe` — what is wrong with a target, by place and number, in no order.
* `decodeComponent_eq_some` — **one decoder run is the percent-decoding of its text**, or nothing.
* `parseQuery_uncounted` — **the limit on all decoded bytes of a query is never what refuses it**: a query is not longer
  decoded than it is raw.
* `request_target_grammar` — 400 exactly for the malformed, 403 exactly for the unsafe among the others, and otherwise the
  decoded path, its segments and the decoded pairs.
-/

import HpServer.Http.RequestTarget
import HpServer.Http.ChunkLines
import HpServer.Library.Escapes

namespace HpServer.Http

open Escapes

/-! ### Percent-encoding -/

/-- The byte that `%` and two hexadecimal digits stand for. -/
def escapeValue (high low : UInt8) : Option UInt8 :=
  match hexDigit high, hexDigit low with
  | some high, some low => some (high * 16 + low).toUInt8
  | _, _ => none

theorem escapeValue_eq_some {high low b : UInt8} :
    escapeValue high low = some b
      ↔ ∃ h l, hexDigit high = some h ∧ hexDigit low = some l ∧ (h * 16 + l).toUInt8 = b := by
  unfold escapeValue
  cases hexDigit high with
  | none => simp
  | some h =>
    cases hexDigit low with
    | none => simp
    | some l => simp

theorem escapeValue_eq_none {high low : UInt8} :
    escapeValue high low = none ↔ hexDigit high = none ∨ hexDigit low = none := by
  unfold escapeValue
  cases hexDigit high with
  | none => simp
  | some h =>
    cases hexDigit low with
    | none => simp
    | some l => simp

def percentCoding : Coding UInt8 where
  escape := percent
  value := escapeValue
  clear := by
    intro high low b coded
    obtain ⟨h, l, first, second, -⟩ := escapeValue_eq_some.mp coded
    have noDigit : hexDigit percent = none := by decide
    constructor
    · rintro rfl
      exact absurd (first.symm.trans noDigit) (Option.some_ne_none h)
    · rintro rfl
      exact absurd (second.symm.trans noDigit) (Option.some_ne_none l)

/-- A text with its percent-encoded bytes decoded, once. -/
def percentDecode : Bytes → Bytes := decode percentCoding

theorem apart_of_noDigit {s : UInt8} (plain : s ≠ percent) (noDigit : hexDigit s = none) : Apart percentCoding s where
  plain := plain
  first _ := escapeValue_eq_none.mpr (.inl noDigit)
  second _ := escapeValue_eq_none.mpr (.inr noDigit)

theorem apart_question : Apart percentCoding question := apart_of_noDigit (by decide) (by decide)

theorem apart_ampersand : Apart percentCoding ampersand := apart_of_noDigit (by decide) (by decide)

theorem apart_equals : Apart percentCoding equals := apart_of_noDigit (by decide) (by decide)

theorem apart_slash : Apart percentCoding slash := apart_of_noDigit (by decide) (by decide)

/-- Every escape is whole and stands for no control byte. -/
def Readable (raw : Bytes) : Prop :=
  Proper percentCoding raw ∧ ∀ b, Codes percentCoding raw b → isControl b = false

theorem readable_nil : Readable [] := ⟨proper_nil, fun _ found => absurd found not_codes_nil⟩

theorem readable_append {s : UInt8} (apart : Apart percentCoding s) {raw rest : Bytes} :
    Readable (raw ++ s :: rest) ↔ Readable raw ∧ Readable rest := by
  unfold Readable
  rw [proper_append apart]
  constructor
  · rintro ⟨⟨first, second⟩, clean⟩
    exact ⟨⟨first, fun b found => clean b ((codes_append apart first).mpr (.inl found))⟩,
      second, fun b found => clean b ((codes_append apart first).mpr (.inr found))⟩
  · rintro ⟨⟨first, clean⟩, second, clean'⟩
    exact ⟨⟨first, second⟩, fun b found => ((codes_append apart first).mp found).elim (clean b) (clean' b)⟩

theorem readable_intercalate {s : UInt8} (apart : Apart percentCoding s) (pieces : List Bytes) :
    Readable ([s].intercalate pieces) ↔ ∀ piece ∈ pieces, Readable piece := by
  unfold Readable
  rw [proper_intercalate apart]
  constructor
  · rintro ⟨proper, clean⟩ piece member
    exact ⟨proper piece member, fun b found => clean b ((codes_intercalate apart proper).mpr ⟨piece, member, found⟩)⟩
  · intro readable
    have proper : ∀ piece ∈ pieces, Proper percentCoding piece := fun piece member => (readable piece member).1
    refine ⟨proper, fun b found => ?_⟩
    obtain ⟨piece, member, coded⟩ := (codes_intercalate apart proper).mp found
    exact (readable piece member).2 b coded

theorem readable_cutAt {s : UInt8} (apart : Apart percentCoding s) (raw : Bytes) :
    Readable raw ↔ Readable (cutAt s raw).1 ∧ Readable (cutAt s raw).2 := by
  obtain ⟨-, ⟨whole, rest⟩ | whole⟩ := cutAt_cases s raw
  · rw [rest, ← whole]
    exact (and_iff_left readable_nil).symm
  · conv_lhs => rw [whole]
    exact readable_append apart

theorem mem_of_mem_cutAt {s b : UInt8} {raw : Bytes}
    (member : b ∈ (cutAt s raw).1 ∨ b ∈ (cutAt s raw).2) : b ∈ raw := by
  rcases member with first | second
  · exact (List.takeWhile_sublist _).mem first
  · exact (List.dropWhile_sublist _).mem (List.mem_of_mem_drop second)

theorem length_cutAt_le (s : UInt8) (raw : Bytes) :
    (cutAt s raw).1.length + (cutAt s raw).2.length ≤ raw.length := by
  obtain ⟨-, ⟨whole, rest⟩ | whole⟩ := cutAt_cases s raw
  · rw [rest, ← whole]
    exact Nat.le_refl _
  · conv_rhs => rw [whole]
    rw [List.length_append, List.length_cons]
    omega

/-! ### One decoder run -/

/-- No escape of a path stands for a byte that has a meaning there. -/
def Unreserved (path : Bool) (raw : Bytes) : Prop :=
  path = true → ∀ b, Codes percentCoding raw b → isReserved b = false

theorem decodeComponent_proper {path : Bool} {limit : Nat} {decoded raw result : Bytes}
    (done : decodeComponent path limit decoded raw = some result) : Proper percentCoding raw := by
  fun_induction decodeComponent path limit decoded raw with
  | case1 => exact proper_nil
  | case2 => cases done
  | case3 => cases done
  | case4 decoded high low rest h l highRead lowRead byte allowed fits ih =>
    exact (proper_coded (escapeValue_eq_some.mpr ⟨h, l, ‹_›, ‹_›, rfl⟩)).mpr (ih done)
  | case5 => cases done
  | case6 => cases done
  | case7 => cases done
  | case8 decoded b rest plain fits ih => exact (proper_plain plain).mpr (ih done)

theorem decodeComponent_plain {path : Bool} {limit : Nat} {decoded rest : Bytes} {b : UInt8} (plain : b ≠ percent) :
    decodeComponent path limit decoded (b :: rest)
      = if isControl b || decoded.length = limit then none
        else decodeComponent path limit (decoded ++ [b]) rest := by
  conv_lhs => unfold decodeComponent
  rw [if_neg plain]

theorem decodeComponent_coded {path : Bool} {limit : Nat} {decoded tail : Bytes} {high low b : UInt8}
    (coded : escapeValue high low = some b) :
    decodeComponent path limit decoded (percent :: high :: low :: tail)
      = if path && isReserved b then none
        else if isControl b || decoded.length = limit then none
        else decodeComponent path limit (decoded ++ [b]) tail := by
  obtain ⟨h, l, first, second, rfl⟩ := escapeValue_eq_some.mp coded
  conv_lhs => unfold decodeComponent
  rw [if_pos rfl]
  simp only [first, second]

/-- What a run behind `decoded` gives for a text that decodes to `bytes`. -/
def Fills (limit : Nat) (decoded bytes result : Bytes) : Prop :=
  (∀ b ∈ bytes, isControl b = false) ∧ decoded.length + bytes.length ≤ limit ∧ result = decoded ++ bytes

theorem fills_cons {limit : Nat} {decoded bytes result : Bytes} {b : UInt8} (control : isControl b = false) :
    Fills limit decoded (b :: bytes) result ↔ Fills limit (decoded ++ [b]) bytes result := by
  unfold Fills
  rw [List.forall_mem_cons, List.append_assoc, List.singleton_append, List.length_append, List.length_cons,
    List.length_singleton, Nat.add_assoc, Nat.add_comm 1]
  exact and_congr_left' (and_iff_right control)

theorem not_fills_cons {limit : Nat} {decoded bytes result : Bytes} {b : UInt8}
    (refused : (isControl b || decide (decoded.length = limit)) = true) : ¬ Fills limit decoded (b :: bytes) result := by
  rintro ⟨clean, room, -⟩
  simp only [Bool.or_eq_true, decide_eq_true_eq] at refused
  rcases refused with control | full
  · rw [clean b List.mem_cons_self] at control
    cases control
  · rw [full, List.length_cons] at room
    omega

/-- **A decoder run gives the percent-decoding of its text**, if that has no control byte and fits. -/
theorem decodeComponent_behind {path : Bool} {limit : Nat} {decoded raw result : Bytes}
    (proper : Proper percentCoding raw) (fits : decoded.length ≤ limit) :
    decodeComponent path limit decoded raw = some result
      ↔ Unreserved path raw ∧ Fills limit decoded (percentDecode raw) result := by
  induction raw, proper using Proper.induct generalizing decoded with
  | nil =>
    have nothing : Unreserved path [] := fun _ b found => absurd found not_codes_nil
    rw [and_iff_right nothing]
    unfold decodeComponent
    constructor
    · rintro ⟨⟩
      exact ⟨fun _ none => (by cases none), fits, (List.append_nil _).symm⟩
    · rintro ⟨-, -, rfl⟩
      rw [percentDecode, decode_nil, List.append_nil]
  | plain b rest plain proper ih =>
    have same : Unreserved path (b :: rest) ↔ Unreserved path rest := by
      unfold Unreserved
      simp only [codes_plain plain]
    rw [decodeComponent_plain plain, percentDecode, decode_plain plain, same]
    split
    case isTrue refused => exact ⟨fun no => (by cases no), fun holds => absurd holds.2 (not_fills_cons refused)⟩
    case isFalse allowed =>
      simp only [Bool.or_eq_true, decide_eq_true_eq, not_or, Bool.not_eq_true] at allowed
      rw [fills_cons allowed.1]
      refine ih ?_
      rw [List.length_append, List.length_singleton]
      omega
  | coded high low b tail coded proper ih =>
    have same : Unreserved path (percentCoding.escape :: high :: low :: tail)
        ↔ ¬ (path && isReserved b) = true ∧ Unreserved path tail := by
      unfold Unreserved
      simp only [codes_coded coded, forall_eq_or_imp]
      cases path with
      | false => simp
      | true => simp
    rw [same, percentDecode, decode_coded coded, show percentCoding.escape = percent from rfl,
      decodeComponent_coded coded]
    split
    case isTrue reserved => exact ⟨fun no => (by cases no), fun holds => absurd reserved holds.1.1⟩
    case isFalse unreserved =>
      rw [and_iff_right unreserved]
      split
      case isTrue refused => exact ⟨fun no => (by cases no), fun holds => absurd holds.2 (not_fills_cons refused)⟩
      case isFalse allowed =>
        simp only [Bool.or_eq_true, decide_eq_true_eq, not_or, Bool.not_eq_true] at allowed
        rw [fills_cons allowed.1]
        refine ih ?_
        rw [List.length_append, List.length_singleton]
        omega

/-- **A decoder run on a text without control bytes.** -/
theorem decodeComponent_eq_some {path : Bool} {limit : Nat} {raw result : Bytes}
    (clean : ∀ b ∈ raw, isControl b = false) :
    decodeComponent path limit [] raw = some result
      ↔ Readable raw ∧ Unreserved path raw ∧ (percentDecode raw).length ≤ limit ∧ result = percentDecode raw := by
  constructor
  · intro done
    have proper := decodeComponent_proper done
    obtain ⟨unreserved, decoded, room, result⟩ := (decodeComponent_behind proper (Nat.zero_le _)).mp done
    rw [List.length_nil, Nat.zero_add] at room
    exact ⟨⟨proper, fun b found => decoded b (proper.codes_decode found)⟩, unreserved, room, result⟩
  · rintro ⟨⟨proper, coded⟩, unreserved, room, rfl⟩
    refine (decodeComponent_behind proper (Nat.zero_le _)).mpr ⟨unreserved, fun b inside => ?_, ?_, rfl⟩
    · exact (proper.mem_decode inside).elim (coded b) (clean b)
    · rwa [List.length_nil, Nat.zero_add]

theorem decodeComponent_length {path : Bool} {limit : Nat} {raw result : Bytes}
    (done : decodeComponent path limit [] raw = some result) : result.length ≤ raw.length := by
  have proper := decodeComponent_proper done
  obtain ⟨-, -, -, rfl⟩ := (decodeComponent_behind proper (Nat.zero_le _)).mp done
  exact proper.length_decode

/-! ### The query -/

/-- The pairs of a query; an empty query has none. -/
def queryPairs (query : Bytes) : List Bytes := if query = [] then [] else query.splitOn ampersand

/-- A pair, cut at its first `=` and decoded. -/
def decodedPair (pair : Bytes) : QueryParameter :=
  { key := percentDecode (cutAt equals pair).1
    value := percentDecode (cutAt equals pair).2 }

/-- What is wrong with a query whose escapes are whole. -/
inductive InvalidQuery (query : Bytes) : Prop
  | long : kMaxRawQueryBytes < query.length → InvalidQuery query
  | many : kMaxQueryParameters < (queryPairs query).length → InvalidQuery query
  | keyless (pair : Bytes) : pair ∈ queryPairs query → (cutAt equals pair).1 = [] → InvalidQuery query
  | longKey (pair : Bytes) : pair ∈ queryPairs query → kMaxQueryKeyBytes < (decodedPair pair).key.length →
      InvalidQuery query
  | longValue (pair : Bytes) : pair ∈ queryPairs query → kMaxQueryValueBytes < (decodedPair pair).value.length →
      InvalidQuery query

/-- A pair the loop takes, once its escapes are whole. -/
structure AllowedPair (pair : Bytes) : Prop where
  keyed : (cutAt equals pair).1 ≠ []
  shortKey : (decodedPair pair).key.length ≤ kMaxQueryKeyBytes
  shortValue : (decodedPair pair).value.length ≤ kMaxQueryValueBytes

theorem not_invalidQuery (query : Bytes) :
    ¬ InvalidQuery query ↔ query.length ≤ kMaxRawQueryBytes ∧ (queryPairs query).length ≤ kMaxQueryParameters
      ∧ ∀ pair ∈ queryPairs query, AllowedPair pair := by
  constructor
  · intro valid
    refine ⟨not_lt.mp fun long => valid (.long long), not_lt.mp fun many => valid (.many many), fun pair member => ?_⟩
    exact ⟨fun keyless => valid (.keyless pair member keyless), not_lt.mp fun long => valid (.longKey pair member long),
      not_lt.mp fun long => valid (.longValue pair member long)⟩
  · rintro ⟨short, few, allowed⟩ invalid
    cases invalid with
    | long long => exact absurd short (not_le.mpr long)
    | many many => exact absurd few (not_le.mpr many)
    | keyless pair member keyless => exact (allowed pair member).keyed keyless
    | longKey pair member long => exact absurd (allowed pair member).shortKey (not_le.mpr long)
    | longValue pair member long => exact absurd (allowed pair member).shortValue (not_le.mpr long)

theorem intercalate_queryPairs (query : Bytes) : [ampersand].intercalate (queryPairs query) = query := by
  unfold queryPairs
  split
  case isTrue empty => rw [empty]; rfl
  case isFalse => exact List.intercalate_splitOn _

theorem mem_of_mem_queryPairs {query pair : Bytes} (member : pair ∈ queryPairs query) : ∀ b ∈ pair, b ∈ query := by
  unfold queryPairs at member
  split at member
  case isTrue => cases member
  case isFalse => exact (piece_of_mem_splitOn member).2

/-- The pairs without the limit on what they have decoded together. -/
def parsePairsUncounted : List Bytes → List QueryParameter → Option (List QueryParameter)
  | [], parameters => some parameters
  | pair :: rest, parameters =>
    let cut := cutAt equals pair
    if cut.1 = [] || parameters.length = kMaxQueryParameters then none
    else
      match decodeComponent false kMaxQueryKeyBytes [] cut.1,
        decodeComponent false kMaxQueryValueBytes [] cut.2 with
      | some key, some value => parsePairsUncounted rest (parameters ++ [{ key := key, value := value }])
      | _, _ => none

def parseQueryUncounted (raw : Bytes) : Option (List QueryParameter) :=
  if kMaxRawQueryBytes < raw.length then none
  else if raw = [] then some []
  else parsePairsUncounted (raw.splitOn ampersand) []

/-- **Pairs that are short raw are never too long decoded.** -/
theorem parsePairs_uncounted {pairs : List Bytes} {parameters : List QueryParameter} {decodedBytes : Nat}
    (room : decodedBytes + (pairs.map List.length).sum ≤ kMaxDecodedQueryBytes) :
    parsePairs pairs parameters decodedBytes = parsePairsUncounted pairs parameters := by
  induction pairs generalizing parameters decodedBytes with
  | nil => rfl
  | cons pair rest ih =>
    unfold parsePairs parsePairsUncounted
    rw [List.map_cons, List.sum_cons] at room
    dsimp only
    split
    case isTrue => rfl
    case isFalse =>
      cases keyed : decodeComponent false kMaxQueryKeyBytes [] (cutAt equals pair).1 with
      | none => rfl
      | some key =>
        cases valued : decodeComponent false kMaxQueryValueBytes [] (cutAt equals pair).2 with
        | none => rfl
        | some value =>
          have shortKey := decodeComponent_length keyed
          have shortValue := decodeComponent_length valued
          have short := length_cutAt_le equals pair
          dsimp only
          rw [if_neg (by omega), if_neg (by omega)]
          exact ih (by omega)

theorem length_intercalate_le (pieces : List Bytes) (s : UInt8) :
    (pieces.map List.length).sum ≤ ([s].intercalate pieces).length := by
  induction pieces with
  | nil => exact Nat.le_refl 0
  | cons piece pieces ih =>
    cases pieces with
    | nil => simp
    | cons next pieces =>
      rw [List.intercalate_cons_cons, List.map_cons, List.sum_cons, List.length_append, List.length_append]
      omega

/-- **The limit on all decoded bytes of a query changes nothing.** -/
theorem parseQuery_uncounted (raw : Bytes) : parseQuery raw = parseQueryUncounted raw := by
  unfold parseQuery parseQueryUncounted
  split
  case isTrue => rfl
  case isFalse short =>
    split
    case isTrue => rfl
    case isFalse =>
      refine parsePairs_uncounted ?_
      have pieces := length_intercalate_le (raw.splitOn ampersand) ampersand
      rw [List.intercalate_splitOn] at pieces
      rw [Nat.zero_add]
      exact pieces.trans (not_lt.mp short)

theorem decodePair_eq_some {pair key value : Bytes} (clean : ∀ b ∈ pair, isControl b = false) :
    decodeComponent false kMaxQueryKeyBytes [] (cutAt equals pair).1 = some key
        ∧ decodeComponent false kMaxQueryValueBytes [] (cutAt equals pair).2 = some value
      ↔ Readable pair ∧ (decodedPair pair).key.length ≤ kMaxQueryKeyBytes
        ∧ (decodedPair pair).value.length ≤ kMaxQueryValueBytes ∧ { key := key, value := value } = decodedPair pair := by
  rw [decodeComponent_eq_some fun b inside => clean b (mem_of_mem_cutAt (.inl inside)),
    decodeComponent_eq_some fun b inside => clean b (mem_of_mem_cutAt (.inr inside)), readable_cutAt apart_equals pair]
  have free : ∀ raw, Unreserved false raw := fun _ no => nomatch no
  constructor
  · rintro ⟨⟨readable, -, short, rfl⟩, readable', -, short', rfl⟩
    exact ⟨⟨readable, readable'⟩, short, short', rfl⟩
  · rintro ⟨⟨readable, readable'⟩, short, short', same⟩
    obtain ⟨rfl, rfl⟩ := QueryParameter.mk.inj same
    exact ⟨⟨readable, free _, short, rfl⟩, readable', free _, short', rfl⟩

/-- **The loop over the pairs** takes all of them, decoded, or nothing. -/
theorem parsePairsUncounted_eq_some {pairs : List Bytes} {parameters result : List QueryParameter}
    (clean : ∀ pair ∈ pairs, ∀ b ∈ pair, isControl b = false) (few : parameters.length ≤ kMaxQueryParameters) :
    parsePairsUncounted pairs parameters = some result
      ↔ (∀ pair ∈ pairs, Readable pair ∧ AllowedPair pair) ∧ parameters.length + pairs.length ≤ kMaxQueryParameters
        ∧ result = parameters ++ pairs.map decodedPair := by
  induction pairs generalizing parameters with
  | nil =>
    unfold parsePairsUncounted
    simp [few, eq_comm]
  | cons pair rest ih =>
    obtain ⟨cleanPair, cleanRest⟩ := List.forall_mem_cons.mp clean
    rw [List.forall_mem_cons, List.length_cons, List.map_cons]
    unfold parsePairsUncounted
    dsimp only
    split
    case isTrue refused =>
      refine ⟨nofun, ?_⟩
      rintro ⟨⟨⟨-, allowed⟩, -⟩, room, -⟩
      simp only [Bool.or_eq_true, decide_eq_true_eq] at refused
      rcases refused with keyless | full
      · exact absurd keyless allowed.keyed
      · omega
    case isFalse taken =>
      simp only [Bool.or_eq_true, decide_eq_true_eq, not_or] at taken
      split
      case h_1 key value keyed valued =>
        obtain ⟨readable, shortKey, shortValue, same⟩ := (decodePair_eq_some cleanPair).mp ⟨keyed, valued⟩
        rw [ih cleanRest (by rw [List.length_append, List.length_singleton]; omega), same, List.append_assoc,
          List.singleton_append, List.length_append, List.length_singleton, Nat.add_assoc, Nat.add_comm 1]
        exact and_congr_left' (and_iff_right ⟨readable, taken.1, shortKey, shortValue⟩).symm
      case h_2 refused =>
        refine ⟨nofun, ?_⟩
        rintro ⟨⟨⟨readable, allowed⟩, -⟩, -⟩
        obtain ⟨keyed, valued⟩ :=
          (decodePair_eq_some cleanPair).mpr ⟨readable, allowed.shortKey, allowed.shortValue, rfl⟩
        exact absurd valued (refused _ _ keyed)

/-- **A query is its decoded pairs**, unless something is wrong with it. -/
theorem parseQuery_eq_some {raw : Bytes} {result : List QueryParameter} (clean : ∀ b ∈ raw, isControl b = false) :
    parseQuery raw = some result
      ↔ Readable raw ∧ ¬ InvalidQuery raw ∧ result = (queryPairs raw).map decodedPair := by
  have pairs : parsePairsUncounted (queryPairs raw) [] = some result ↔ _ := parsePairsUncounted_eq_some
    (fun pair member b inside => clean b (mem_of_mem_queryPairs member b inside)) (Nat.zero_le _)
  have readable := readable_intercalate apart_ampersand (queryPairs raw)
  rw [intercalate_queryPairs] at readable
  rw [parseQuery_uncounted, not_invalidQuery, readable]
  rw [List.length_nil, Nat.zero_add, List.nil_append, forall₂_and] at pairs
  unfold parseQueryUncounted
  split
  case isTrue long => exact ⟨nofun, fun holds => absurd holds.2.1.1 (not_le.mpr long)⟩
  case isFalse short =>
    rw [show (if raw = [] then some [] else parsePairsUncounted (raw.splitOn ampersand) [])
      = parsePairsUncounted (queryPairs raw) [] by unfold queryPairs; split <;> rfl, pairs]
    constructor
    · rintro ⟨⟨readable, allowed⟩, few, same⟩
      exact ⟨readable, ⟨not_lt.mp short, few, allowed⟩, same⟩
    · rintro ⟨readable, ⟨-, few, allowed⟩, same⟩
      exact ⟨⟨readable, allowed⟩, few, same⟩

/-! ### The target -/

/-- **What is wrong with a target**, in no order. -/
inductive Malformed (raw : Bytes) : Prop
  | empty : raw = [] → Malformed raw
  | rootless : raw.head? ≠ some slash → Malformed raw
  | long : kMaxRawTargetBytes < raw.length → Malformed raw
  | byte (b : UInt8) : b ∈ raw → b ≤ 0x20 ∨ b = 0x7f ∨ b = hash → Malformed raw
  | escape (before rest : Bytes) : raw = before ++ percent :: rest →
      (∀ high low tail, rest = high :: low :: tail → hexDigit high = none ∨ hexDigit low = none) → Malformed raw
  | control (before after : Bytes) (high low b : UInt8) : raw = before ++ percent :: high :: low :: after →
      escapeValue high low = some b → b < 0x20 ∨ b = 0x7f → Malformed raw
  | reserved (before after : Bytes) (high low b : UInt8) :
      (cutAt question raw).1 = before ++ percent :: high :: low :: after → escapeValue high low = some b →
      b ∈ [slash, backslash, question, hash, percent] → Malformed raw
  | query : InvalidQuery (cutAt question raw).2 → Malformed raw

/-- The pieces of a decoded path behind its first `/`. -/
def segments (path : Bytes) : List Bytes := (path.drop 1).splitOn slash

/-- **A decoded path that names more than entries below the root.** -/
def Unsafe (path : Bytes) : Prop :=
  backslash ∈ path
    ∨ path ≠ [slash] ∧ ∃ segment ∈ segments path, segment = [] ∨ segment = [dot] ∨ segment = [dot, dot]

theorem isControl_iff {b : UInt8} : isControl b = true ↔ b < 0x20 ∨ b = 0x7f := by
  unfold isControl
  rw [Bool.or_eq_true, decide_eq_true_eq, decide_eq_true_eq]

theorem isReserved_iff {b : UInt8} : isReserved b = true ↔ b ∈ [slash, backslash, question, hash, percent] := by
  unfold isReserved
  simp only [Bool.or_eq_true, decide_eq_true_eq, List.mem_cons, List.not_mem_nil, or_false, or_assoc]

theorem isTargetByte_iff {b : UInt8} : isTargetByte b = true ↔ ¬ (b ≤ 0x20 ∨ b = 0x7f ∨ b = hash) := by
  unfold isTargetByte
  simp only [Bool.not_eq_true', Bool.or_eq_false_iff, decide_eq_false_iff_not, not_or, and_assoc]

theorem isControl_of_isTargetByte {b : UInt8} (allowed : isTargetByte b = true) : isControl b = false := by
  rw [isTargetByte_iff] at allowed
  rw [← Bool.not_eq_true, isControl_iff]
  rintro (low | same)
  · exact allowed (.inl (UInt8.le_of_lt low))
  · exact allowed (.inr (.inl same))

/-- **A target is well formed** if it starts with `/`, fits, has no byte that is refused, and its path and query can be
read. -/
theorem not_malformed_iff (raw : Bytes) :
    ¬ Malformed raw ↔ raw.head? = some slash ∧ raw.length ≤ kMaxRawTargetBytes ∧ (∀ b ∈ raw, isTargetByte b = true)
      ∧ Readable raw ∧ Unreserved true (cutAt question raw).1 ∧ ¬ InvalidQuery (cutAt question raw).2 := by
  constructor
  · intro formed
    refine ⟨not_not.mp fun rootless => formed (.rootless rootless), not_lt.mp fun long => formed (.long long),
      fun b member => ?_, ⟨fun before rest same => ?_, fun b found => ?_⟩, fun _ b found => ?_,
      fun invalid => formed (.query invalid)⟩
    · exact isTargetByte_iff.mpr fun refused => formed (.byte b member refused)
    · by_contra broken
      refine formed (.escape before rest same fun high low tail shape => escapeValue_eq_none.mp ?_)
      by_contra valued
      obtain ⟨b, coded⟩ := Option.ne_none_iff_exists'.mp valued
      exact broken ⟨high, low, tail, b, shape, coded⟩
    · obtain ⟨before, high, low, after, same, coded⟩ := found
      rw [← Bool.not_eq_true, isControl_iff]
      exact fun control => formed (.control before after high low b same coded control)
    · obtain ⟨before, high, low, after, same, coded⟩ := found
      rw [← Bool.not_eq_true, isReserved_iff]
      exact fun reserved => formed (.reserved before after high low b same coded reserved)
  · rintro ⟨rooted, short, bytes, ⟨proper, clean⟩, unreserved, valid⟩ malformed
    cases malformed with
    | empty empty =>
      rw [empty] at rooted
      cases rooted
    | rootless rootless => exact rootless rooted
    | long long => exact absurd short (not_le.mpr long)
    | byte b member refused => exact isTargetByte_iff.mp (bytes b member) refused
    | escape before rest same broken =>
      obtain ⟨high, low, tail, b, shape, coded⟩ := proper before rest same
      exact absurd (coded.symm.trans (escapeValue_eq_none.mpr (broken high low tail shape))) (Option.some_ne_none b)
    | control before after high low b same coded control =>
      rw [← isControl_iff, clean b ⟨before, high, low, after, same, coded⟩] at control
      cases control
    | reserved before after high low b same coded reserved =>
      rw [← isReserved_iff, unreserved rfl b ⟨before, high, low, after, same, coded⟩] at reserved
      cases reserved
    | query invalid => exact valid invalid

/-- The components of a decoded path. -/
def pathComponents (path : Bytes) : List Bytes := if path = [slash] then [indexComponent] else segments path

theorem isForbidden_iff {component : Bytes} :
    isForbidden component = true ↔ component = [] ∨ component = [dot] ∨ component = [dot, dot] := by
  unfold isForbidden
  simp only [Bool.or_eq_true, decide_eq_true_eq, or_assoc]

theorem splitPath_refused {path : Bytes} (refused : Unsafe path) : splitPath path = none ∨ path = [] := by
  unfold splitPath
  rcases refused with inside | ⟨other, segment, member, forbidden⟩
  · exact .inl (if_pos inside)
  · by_cases inside : backslash ∈ path
    · exact .inl (if_pos inside)
    · by_cases empty : path = []
      · exact .inr empty
      · rw [if_neg inside, if_neg other, if_neg empty]
        exact .inl (if_pos (List.any_eq_true.mpr ⟨segment, member, isForbidden_iff.mpr forbidden⟩))

theorem splitPath_safe {path : Bytes} (nonempty : path ≠ []) (safe : ¬ Unsafe path) :
    splitPath path = some (pathComponents path) := by
  unfold splitPath pathComponents
  rw [if_neg fun inside => safe (.inl inside), if_neg nonempty]
  split
  case isTrue => rfl
  case isFalse other =>
    refine if_neg fun found => safe (.inr ⟨other, ?_⟩)
    obtain ⟨segment, member, forbidden⟩ := List.any_eq_true.mp found
    exact ⟨segment, member, isForbidden_iff.mp forbidden⟩

theorem percentDecode_ne_nil {raw : Bytes} (formed : ¬ Malformed raw) :
    percentDecode (cutAt question raw).1 ≠ [] := by
  have first := cutAt_rooted ((not_malformed_iff raw).mp formed).1
  cases path : (cutAt question raw).1 with
  | nil =>
    rw [path] at first
    cases first
  | cons b rest =>
    rw [path] at first
    cases first
    rw [percentDecode, decode_plain apart_slash.plain]
    exact List.cons_ne_nil _ _

/-- **A malformed target is refused with 400.** -/
theorem parseRequestTarget_malformed {raw : Bytes} (malformed : Malformed raw) : parseRequestTarget raw = {} := by
  by_contra accepted
  refine absurd malformed ((not_malformed_iff raw).mpr ?_)
  unfold parseRequestTarget at accepted
  split at accepted
  case isFalse => exact absurd rfl accepted
  case isTrue rooted =>
    split at accepted
    case isTrue => exact absurd rfl accepted
    case isFalse fits =>
      simp only [Bool.or_eq_true, decide_eq_true_eq, Bool.not_eq_true', not_or, not_lt, Bool.not_eq_false,
        List.all_eq_true] at fits
      have clean : ∀ b ∈ raw, isControl b = false := fun b member => isControl_of_isTargetByte (fits.2 b member)
      split at accepted
      case h_2 => exact absurd rfl accepted
      case h_1 path query decoded parsed =>
        obtain ⟨first, unreserved, -, -⟩ :=
          (decodeComponent_eq_some fun b inside => clean b (mem_of_mem_cutAt (.inl inside))).mp decoded
        obtain ⟨second, valid, -⟩ :=
          (parseQuery_eq_some fun b inside => clean b (mem_of_mem_cutAt (.inr inside))).mp parsed
        exact ⟨rooted, fits.1, fits.2, (readable_cutAt apart_question raw).mpr ⟨first, second⟩, unreserved, valid⟩

/-- **A well-formed target is decoded**, and then only its path can be refused. -/
theorem parseRequestTarget_formed {raw : Bytes} (formed : ¬ Malformed raw) :
    splitPath (percentDecode (cutAt question raw).1) = none ∧ parseRequestTarget raw = { status := .forbidden }
    ∨ ∃ target : RequestTarget, parseRequestTarget raw = { status := .ok, target := some target }
      ∧ target.path = percentDecode (cutAt question raw).1
      ∧ target.query = (queryPairs (cutAt question raw).2).map decodedPair := by
  obtain ⟨rooted, short, bytes, readable, unreserved, valid⟩ := (not_malformed_iff raw).mp formed
  have clean : ∀ b ∈ raw, isControl b = false := fun b member => isControl_of_isTargetByte (bytes b member)
  obtain ⟨first, second⟩ := (readable_cutAt apart_question raw).mp readable
  have fits : (percentDecode (cutAt question raw).1).length ≤ kMaxRawTargetBytes := by
    have decoded := first.1.length_decode
    have cut := length_cutAt_le question raw
    unfold percentDecode
    omega
  have path : decodeComponent true kMaxRawTargetBytes [] (cutAt question raw).1
      = some (percentDecode (cutAt question raw).1) :=
    (decodeComponent_eq_some fun b inside => clean b (mem_of_mem_cutAt (.inl inside))).mpr
      ⟨first, unreserved, fits, rfl⟩
  have query : parseQuery (cutAt question raw).2 = some ((queryPairs (cutAt question raw).2).map decodedPair) :=
    (parseQuery_eq_some fun b inside => clean b (mem_of_mem_cutAt (.inr inside))).mpr ⟨second, valid, rfl⟩
  have passes : ¬ (decide (kMaxRawTargetBytes < raw.length) || !raw.all isTargetByte) = true := by
    simpa using ⟨short, bytes⟩
  unfold parseRequestTarget
  rw [dif_pos rooted, if_neg passes]
  split
  case h_2 refused => exact absurd query (refused _ _ path)
  case h_1 decoded parameters decodes parses =>
    obtain rfl := Option.some.inj (decodes.symm.trans path)
    obtain rfl := Option.some.inj (parses.symm.trans query)
    split
    case h_1 refused => exact .inl ⟨refused, rfl⟩
    case h_2 components split => exact .inr ⟨_, rfl, rfl, rfl⟩

/-- **A well-formed target with a safe path is accepted.** -/
theorem parseRequestTarget_safe {raw : Bytes} (formed : ¬ Malformed raw)
    (safe : ¬ Unsafe (percentDecode (cutAt question raw).1)) :
    ∃ target : RequestTarget, parseRequestTarget raw = { status := .ok, target := some target }
      ∧ target.path = percentDecode (cutAt question raw).1
      ∧ target.components = pathComponents (percentDecode (cutAt question raw).1)
      ∧ target.query = (queryPairs (cutAt question raw).2).map decodedPair := by
  have split := splitPath_safe (percentDecode_ne_nil formed) safe
  rcases parseRequestTarget_formed formed with ⟨unsplit, -⟩ | ⟨target, accepted, decoded, query⟩
  · exact absurd (unsplit.symm.trans split) (Option.some_ne_none _).symm
  · refine ⟨target, accepted, decoded, ?_, query⟩
    rw [← decoded, target.split] at split
    rw [Option.some.inj split, decoded]

/-- **A well-formed target with an unsafe path is refused with 403.** -/
theorem parseRequestTarget_unsafe {raw : Bytes} (formed : ¬ Malformed raw)
    (refused : Unsafe (percentDecode (cutAt question raw).1)) : parseRequestTarget raw = { status := .forbidden } := by
  have unsplit := (splitPath_refused refused).resolve_right (percentDecode_ne_nil formed)
  rcases parseRequestTarget_formed formed with ⟨-, forbidden⟩ | ⟨target, -, decoded, -⟩
  · exact forbidden
  · rw [← decoded, target.split] at unsplit
    cases unsplit

/-- **The request target, exactly.** -/
theorem request_target_grammar (raw : Bytes) :
    let result := parseRequestTarget raw
    let path := percentDecode (cutAt question raw).1
    (result.status = .badRequest ↔ Malformed raw)
      ∧ (result.status = .forbidden ↔ ¬ Malformed raw ∧ Unsafe path)
      ∧ (result.status ≠ .ok → result.target = none)
      ∧ (¬ Malformed raw → ¬ Unsafe path → result.status = .ok
          ∧ ∃ target, result.target = some target ∧ target.path = path ∧ target.components = pathComponents path
            ∧ target.query = (queryPairs (cutAt question raw).2).map decodedPair)
      ∧ ∀ query, parseQuery query = parseQueryUncounted query := by
  intro result path
  by_cases malformed : Malformed raw
  · have refused : result = {} := parseRequestTarget_malformed malformed
    rw [refused]
    refine ⟨⟨fun _ => malformed, fun _ => rfl⟩, ⟨fun no => (nomatch no), fun holds => absurd malformed holds.1⟩,
      fun _ => rfl, fun formed => absurd malformed formed, parseQuery_uncounted⟩
  · by_cases refused : Unsafe path
    · have forbidden : result = { status := .forbidden } := parseRequestTarget_unsafe malformed refused
      rw [forbidden]
      exact ⟨⟨fun no => (nomatch no), fun holds => absurd holds malformed⟩,
        ⟨fun _ => ⟨malformed, refused⟩, fun _ => rfl⟩, fun _ => rfl, fun _ safe => absurd refused safe,
        parseQuery_uncounted⟩
    · obtain ⟨target, accepted, decoded, components, query⟩ := parseRequestTarget_safe malformed refused
      have accepted : result = { status := .ok, target := some target } := accepted
      rw [accepted]
      exact ⟨⟨fun no => (nomatch no), fun holds => absurd holds malformed⟩,
        ⟨fun no => (nomatch no), fun holds => absurd holds.2 refused⟩, fun failed => absurd rfl failed,
        fun _ _ => ⟨rfl, target, rfl, decoded, components, query⟩, parseQuery_uncounted⟩

end HpServer.Http
