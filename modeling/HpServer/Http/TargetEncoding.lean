/-
**Every way of writing a target is read alike.**

A client may write each byte of a component, a key or a value as itself, where that is allowed, or as `%` and two
hexadecimal digits of either case. A `Writing` is one such choice, byte by byte; it carries what it must keep to, so that
a wrong one cannot be made.

* `Letter.write`, `Writing.text` — the bytes of the choice.
* `percentDecode_write` — **a written word is decoded to its bytes**, and to nothing else: no byte is decoded twice.
* `target_round_trip` — the parser returns the components and the parameters that were written, in order, and so the same
  for any two writings of them.
-/

import HpServer.Http.TargetGrammar

namespace HpServer.Http

open Escapes

/-! ### Writing one byte -/

/-- As itself, or escaped with each digit in either case. -/
inductive Spelling
  | plain
  | escaped (upperHigh upperLow : Bool)
  deriving DecidableEq, Repr

/-- A hexadecimal digit. -/
def hexByte (upper : Bool) (digit : Nat) : UInt8 :=
  if digit < 10 then 0x30 + digit.toUInt8 else (if upper then 0x41 else 0x61) + (digit - 10).toUInt8

structure Letter where
  byte : UInt8
  spelling : Spelling
  deriving DecidableEq, Repr

def Letter.write (l : Letter) : Bytes :=
  match l.spelling with
  | .plain => [l.byte]
  | .escaped upperHigh upperLow =>
    [percent, hexByte upperHigh (l.byte.toNat / 16), hexByte upperLow (l.byte.toNat % 16)]

abbrev Word := List Letter

namespace Word

def bytes (word : Word) : Bytes := word.map Letter.byte

def write (word : Word) : Bytes := word.flatMap Letter.write

/-- No byte is a control byte, and the bytes `reserved` has are not written as themselves. -/
def Keeps (reserved : List UInt8) (word : Word) : Prop :=
  ∀ l ∈ word, isControl l.byte = false ∧ (l.spelling = .plain → l.byte ∉ reserved)

instance (reserved : List UInt8) (word : Word) : Decidable (word.Keeps reserved) :=
  inferInstanceAs (Decidable (∀ l ∈ word, _))

end Word

theorem hexDigit_hexByte (upper : Bool) : ∀ digit < 16, hexDigit (hexByte upper digit) = some digit := by
  cases upper with
  | false => decide
  | true => decide

theorem isTargetByte_of_hexDigit {b : UInt8} (digit : hexDigit b ≠ none) : isTargetByte b = true := by
  rw [isTargetByte_iff]
  unfold hexDigit at digit
  rintro (low | rfl | rfl)
  · have bound : b.toNat ≤ 0x20 := UInt8.le_iff_toNat_le.mp low
    refine digit ?_
    simp only [UInt8.le_iff_toNat_le, Bool.and_eq_true, decide_eq_true_eq]
    rw [if_neg, if_neg, if_neg]
    · rintro ⟨above, -⟩
      exact absurd (above.trans bound) (by decide)
    · rintro ⟨above, -⟩
      exact absurd (above.trans bound) (by decide)
    · rintro ⟨above, -⟩
      exact absurd (above.trans bound) (by decide)
  · exact digit (by decide)
  · exact digit (by decide)

theorem escapeValue_hexByte (b : UInt8) (upperHigh upperLow : Bool) :
    escapeValue (hexByte upperHigh (b.toNat / 16)) (hexByte upperLow (b.toNat % 16)) = some b := by
  have bound : b.toNat < 256 := b.toNat_lt
  refine escapeValue_eq_some.mpr ⟨b.toNat / 16, b.toNat % 16, hexDigit_hexByte _ _ (by omega),
    hexDigit_hexByte _ _ (by omega), ?_⟩
  rw [Nat.div_add_mod']
  exact UInt8.ofNat_toNat

/-! ### Writing a word -/

section Words

variable {reserved : List UInt8} {word : Word}

theorem Word.Keeps.tail {l : Letter} (keeps : Word.Keeps reserved (l :: word)) : Word.Keeps reserved word :=
  fun m member => keeps m (List.mem_cons_of_mem _ member)

/-- **A written word is decoded to its bytes**, its escapes are whole and stand for bytes of the word. -/
theorem read_write (keeps : word.Keeps reserved) (escapes : percent ∈ reserved) :
    Proper percentCoding word.write ∧ (∀ b, Codes percentCoding word.write b → b ∈ word.bytes)
      ∧ percentDecode word.write = word.bytes := by
  induction word with
  | nil => exact ⟨proper_nil, fun b found => absurd found not_codes_nil, rfl⟩
  | cons l word ih =>
    obtain ⟨proper, coded, decoded⟩ := ih keeps.tail
    obtain ⟨b, spelling⟩ := l
    cases spelling with
    | plain =>
      have plain : b ≠ percentCoding.escape := by
        rintro rfl
        exact (keeps _ List.mem_cons_self).2 rfl escapes
      show Proper percentCoding (b :: Word.write word) ∧ (∀ d, Codes percentCoding (b :: Word.write word) d → _)
        ∧ decode percentCoding (b :: Word.write word) = b :: Word.bytes word
      rw [proper_plain plain, decode_plain plain]
      refine ⟨proper, fun d found => ?_, congrArg (b :: ·) decoded⟩
      exact List.mem_cons_of_mem _ (coded d ((codes_plain plain).mp found))
    | escaped upperHigh upperLow =>
      have value := escapeValue_hexByte b upperHigh upperLow
      show Proper percentCoding (percentCoding.escape :: _ :: _ :: Word.write word)
        ∧ (∀ d, Codes percentCoding (percentCoding.escape :: _ :: _ :: Word.write word) d → _)
        ∧ decode percentCoding (percentCoding.escape :: _ :: _ :: Word.write word) = b :: Word.bytes word
      rw [proper_coded value, decode_coded value]
      refine ⟨proper, fun d found => ?_, congrArg (b :: ·) decoded⟩
      rcases (codes_coded value).mp found with rfl | later
      · exact List.mem_cons_self
      · exact List.mem_cons_of_mem _ (coded d later)

theorem percentDecode_write (keeps : word.Keeps reserved) (escapes : percent ∈ reserved) :
    percentDecode word.write = word.bytes :=
  (read_write keeps escapes).2.2

theorem readable_write (keeps : word.Keeps reserved) (escapes : percent ∈ reserved) : Readable word.write := by
  obtain ⟨proper, coded, -⟩ := read_write keeps escapes
  refine ⟨proper, fun b found => ?_⟩
  obtain ⟨l, member, rfl⟩ := List.mem_map.mp (coded b found)
  exact (keeps l member).1

/-- The bytes of a written word. -/
theorem mem_write {b : UInt8} (inside : b ∈ word.write) :
    (∃ l ∈ word, l.spelling = .plain ∧ l.byte = b) ∨ b = percent ∨ hexDigit b ≠ none := by
  obtain ⟨l, member, written⟩ := List.mem_flatMap.mp inside
  unfold Letter.write at written
  split at written
  case h_1 plain => exact .inl ⟨l, member, plain, (List.mem_singleton.mp written).symm⟩
  case h_2 upperHigh upperLow _ =>
    have bound : l.byte.toNat < 256 := l.byte.toNat_lt
    refine .inr ?_
    rcases List.mem_cons.mp written with same | written
    · exact .inl same
    · refine .inr ?_
      rcases List.mem_cons.mp written with rfl | written
      · rw [hexDigit_hexByte _ _ (by omega)]
        exact Option.some_ne_none _
      · rw [List.mem_singleton.mp written, hexDigit_hexByte _ _ (by omega)]
        exact Option.some_ne_none _

/-- A reserved byte that is no digit is in no written word. -/
theorem not_mem_write {s : UInt8} (keeps : word.Keeps reserved) (listed : s ∈ reserved) (plain : s ≠ percent)
    (noDigit : hexDigit s = none) : s ∉ word.write := by
  intro inside
  rcases mem_write inside with ⟨l, member, spelled, rfl⟩ | same | digit
  · exact (keeps l member).2 spelled listed
  · exact plain same
  · exact digit noDigit

theorem isTargetByte_write (keeps : word.Keeps reserved) (space : sp ∈ reserved) (fragment : hash ∈ reserved) :
    ∀ b ∈ word.write, isTargetByte b = true := by
  intro b inside
  rcases mem_write inside with ⟨l, member, spelled, rfl⟩ | rfl | digit
  · obtain ⟨clean, allowed⟩ := keeps l member
    rw [isTargetByte_iff]
    rintro (low | same | same)
    · rcases UInt8.lt_or_eq_of_le low with below | same
      · rw [isControl_iff.mpr (.inl below)] at clean
        cases clean
      · exact allowed spelled (same ▸ space)
    · rw [isControl_iff.mpr (.inr same)] at clean
      cases clean
    · exact allowed spelled (same ▸ fragment)
  · decide
  · exact isTargetByte_of_hexDigit digit

end Words

/-! ### Components and parameters -/

/-- A component as it may be written. -/
structure ComponentWord (word : Word) : Prop where
  named : word.bytes ≠ [] ∧ word.bytes ≠ [dot] ∧ word.bytes ≠ [dot, dot]
  unreserved : ∀ b ∈ word.bytes, b ∉ [slash, backslash, question, hash, percent]
  keeps : word.Keeps [sp]

/-- A parameter: its key, its value, and whether `=` is written; without it there is no value. -/
structure SpelledPair where
  key : Word
  value : Word
  assigned : Bool := true
  deriving DecidableEq, Repr

namespace SpelledPair

def write (pair : SpelledPair) : Bytes :=
  pair.key.write ++ if pair.assigned then equals :: pair.value.write else []

def parameter (pair : SpelledPair) : QueryParameter := { key := pair.key.bytes, value := pair.value.bytes }

/-- A parameter as it may be written. -/
structure Allowed (pair : SpelledPair) : Prop where
  keyed : pair.key ≠ []
  shortKey : pair.key.length ≤ kMaxQueryKeyBytes
  shortValue : pair.value.length ≤ kMaxQueryValueBytes
  unassigned : pair.assigned = false → pair.value = []
  keeps : pair.key.Keeps [sp, hash, percent, ampersand, equals]
  keepsValue : pair.value.Keeps [sp, hash, percent, ampersand]

end SpelledPair

def writeQuery (pairs : List SpelledPair) : Bytes := [ampersand].intercalate (pairs.map SpelledPair.write)

def writePath (components : List Word) : Bytes := slash :: [slash].intercalate (components.map Word.write)

/-- A target with its query, which may be announced although it is empty. -/
def writeTarget (components : List Word) (pairs : List SpelledPair) (asked : Bool) : Bytes :=
  writePath components ++ if asked then question :: writeQuery pairs else []

/-- **A way of writing a target.** -/
structure Writing where
  components : List Word
  pairs : List SpelledPair
  asked : Bool
  named : components ≠ []
  safe : ∀ word ∈ components, ComponentWord word
  few : pairs.length ≤ kMaxQueryParameters
  allowed : ∀ pair ∈ pairs, pair.Allowed
  unasked : asked = false → pairs = []
  short : (writeTarget components pairs asked).length ≤ kMaxRawTargetBytes
  shortQuery : (writeQuery pairs).length ≤ kMaxRawQueryBytes

def Writing.text (w : Writing) : Bytes := writeTarget w.components w.pairs w.asked

/-- The components that were written. -/
def Writing.names (w : Writing) : List Bytes := w.components.map Word.bytes

/-- The parameters that were written. -/
def Writing.parameters (w : Writing) : List QueryParameter := w.pairs.map SpelledPair.parameter

section Component

variable {word : Word}

theorem ComponentWord.reserves (safe : ComponentWord word) :
    word.Keeps [sp, slash, backslash, question, hash, percent] := by
  intro l member
  obtain ⟨clean, spaced⟩ := safe.keeps l member
  refine ⟨clean, fun spelled inside => ?_⟩
  rcases List.mem_cons.mp inside with same | inside
  · exact spaced spelled (List.mem_singleton.mpr same)
  · exact safe.unreserved l.byte (List.mem_map_of_mem member) inside

theorem ComponentWord.unreserved_write (safe : ComponentWord word) :
    ∀ b, Codes percentCoding word.write b → isReserved b = false := by
  intro b found
  rw [← Bool.not_eq_true, isReserved_iff]
  exact safe.unreserved b ((read_write safe.reserves (by decide)).2.1 b found)

end Component

/-! ### The path -/

section Path

variable {components : List Word} (safe : ∀ word ∈ components, ComponentWord word)

include safe

theorem readable_components : ∀ piece ∈ components.map Word.write, Readable piece := by
  intro piece member
  obtain ⟨word, inside, rfl⟩ := List.mem_map.mp member
  exact readable_write (safe word inside).reserves (by decide)

theorem readable_writePath : Readable (writePath components) :=
  (readable_append apart_slash).mpr
    ⟨readable_nil, (readable_intercalate apart_slash _).mpr (readable_components safe)⟩

theorem unreserved_writePath : Unreserved true (writePath components) := by
  intro _ b found
  obtain ⟨piece, member, coded⟩ :=
    (codes_intercalate apart_slash fun piece member => (readable_components safe piece member).1).mp
      ((codes_plain apart_slash.plain).mp found)
  obtain ⟨word, inside, rfl⟩ := List.mem_map.mp member
  exact (safe word inside).unreserved_write b coded

theorem percentDecode_writePath :
    percentDecode (writePath components) = slash :: [slash].intercalate (components.map Word.bytes) := by
  unfold writePath percentDecode
  rw [decode_plain apart_slash.plain,
    decode_intercalate apart_slash fun piece member => (readable_components safe piece member).1, List.map_map]
  congr 2
  refine List.map_congr_left fun word inside => ?_
  exact percentDecode_write (safe word inside).reserves (by decide)

theorem mem_writePath {b : UInt8} (inside : b ∈ writePath components) :
    isTargetByte b = true ∧ b ≠ question := by
  have rest : b = slash ∨ ∃ piece ∈ components.map Word.write, b ∈ piece := by
    rcases List.mem_cons.mp inside with same | inside
    · exact .inl same
    · exact mem_intercalate inside
  rcases rest with rfl | ⟨piece, member, found⟩
  · decide
  · obtain ⟨word, here, rfl⟩ := List.mem_map.mp member
    have keeps := (safe word here).reserves
    refine ⟨isTargetByte_write keeps (by decide) (by decide) b found, ?_⟩
    rintro rfl
    exact not_mem_write keeps (by decide) (by decide) (by decide) found

/-- **The decoded path is safe and its segments are the components.** -/
theorem segments_names (named : components ≠ []) :
    ¬ Unsafe (slash :: [slash].intercalate (components.map Word.bytes))
      ∧ pathComponents (slash :: [slash].intercalate (components.map Word.bytes)) = components.map Word.bytes := by
  have split : segments (slash :: [slash].intercalate (components.map Word.bytes)) = components.map Word.bytes := by
    refine List.splitOn_intercalate slash (fun piece member inside => ?_) (by simpa using named)
    obtain ⟨word, here, rfl⟩ := List.mem_map.mp member
    exact (safe word here).unreserved slash inside (by decide)
  have proper : ∀ segment ∈ components.map Word.bytes, ¬ (segment = [] ∨ segment = [dot] ∨ segment = [dot, dot]) := by
    intro segment member
    obtain ⟨word, here, rfl⟩ := List.mem_map.mp member
    have named := (safe word here).named
    simp [named]
  have longer : slash :: [slash].intercalate (components.map Word.bytes) ≠ [slash] := by
    intro root
    rw [root] at split
    have empty : [] ∈ components.map Word.bytes := by
      rw [← split]
      exact List.mem_singleton.mpr rfl
    exact proper [] empty (.inl rfl)
  constructor
  · rintro (inside | ⟨-, segment, member, refused⟩)
    · rcases List.mem_cons.mp inside with same | inside
      · exact absurd same (by decide)
      · rcases mem_intercalate inside with same | ⟨piece, member, found⟩
        · exact absurd same (by decide)
        · obtain ⟨word, here, rfl⟩ := List.mem_map.mp member
          exact (safe word here).unreserved backslash found (by decide)
    · rw [split] at member
      exact proper segment member refused
  · unfold pathComponents
    rw [if_neg longer, split]

end Path

/-! ### The query -/

section Query

variable {pair : SpelledPair}

/-- **A written pair is cut at the `=` that was written.** -/
theorem SpelledPair.Allowed.cut (allowed : pair.Allowed) : cutAt equals pair.write = (pair.key.write, pair.value.write) := by
  have absent : equals ∉ pair.key.write :=
    not_mem_write allowed.keeps (by decide) (by decide) (by decide)
  unfold SpelledPair.write
  cases assigned : pair.assigned with
  | true => exact cutAt_append absent
  | false =>
    rw [allowed.unassigned assigned, if_neg (by decide), List.append_nil, cutAt_absent absent]
    rfl

theorem SpelledPair.Allowed.decoded (allowed : pair.Allowed) : decodedPair pair.write = pair.parameter := by
  unfold decodedPair SpelledPair.parameter
  rw [allowed.cut, percentDecode_write allowed.keeps (by decide), percentDecode_write allowed.keepsValue (by decide)]

theorem SpelledPair.Allowed.readable (allowed : pair.Allowed) : Readable pair.write := by
  rw [readable_cutAt apart_equals, allowed.cut]
  exact ⟨readable_write allowed.keeps (by decide), readable_write allowed.keepsValue (by decide)⟩

theorem write_ne_nil {word : Word} (named : word ≠ []) : word.write ≠ [] := by
  cases word with
  | nil => exact absurd rfl named
  | cons l word =>
    unfold Word.write Letter.write
    rw [List.flatMap_cons]
    split <;> simp

theorem SpelledPair.Allowed.allowedPair (allowed : pair.Allowed) : AllowedPair pair.write where
  keyed := by
    rw [allowed.cut]
    exact write_ne_nil allowed.keyed
  shortKey := by
    rw [allowed.decoded]
    exact (List.length_map _).trans_le allowed.shortKey
  shortValue := by
    rw [allowed.decoded]
    exact (List.length_map _).trans_le allowed.shortValue

theorem SpelledPair.Allowed.mem_write (allowed : pair.Allowed) {b : UInt8} (inside : b ∈ pair.write) :
    isTargetByte b = true ∧ b ≠ ampersand := by
  have parts : b ∈ pair.key.write ∨ b = equals ∨ b ∈ pair.value.write := by
    unfold SpelledPair.write at inside
    cases assigned : pair.assigned with
    | true => simpa [assigned] using inside
    | false => exact .inl (by simpa [assigned] using inside)
  have target := isTargetByte_write allowed.keeps (by decide) (by decide)
  have targetValue := isTargetByte_write allowed.keepsValue (by decide) (by decide)
  rcases parts with here | rfl | here
  · refine ⟨target b here, ?_⟩
    rintro rfl
    exact not_mem_write allowed.keeps (by decide) (by decide) (by decide) here
  · decide
  · refine ⟨targetValue b here, ?_⟩
    rintro rfl
    exact not_mem_write allowed.keepsValue (by decide) (by decide) (by decide) here

variable {pairs : List SpelledPair} (allowed : ∀ pair ∈ pairs, pair.Allowed)

include allowed

/-- **A written query is split into the pairs that were written.** -/
theorem queryPairs_writeQuery : queryPairs (writeQuery pairs) = pairs.map SpelledPair.write := by
  cases pairs with
  | nil => rfl
  | cons pair rest =>
    have split : (writeQuery (pair :: rest)).splitOn ampersand = (pair :: rest).map SpelledPair.write := by
      refine List.splitOn_intercalate ampersand (fun piece member inside => ?_) (by simp)
      obtain ⟨found, here, rfl⟩ := List.mem_map.mp member
      exact ((allowed found here).mem_write inside).2 rfl
    unfold queryPairs
    split
    case isTrue empty =>
      rw [empty] at split
      have keyed := (allowed pair List.mem_cons_self).allowedPair.keyed
      rw [List.map_cons] at split
      rw [← (List.cons.inj split).1] at keyed
      exact absurd rfl keyed
    case isFalse => exact split

theorem readable_writeQuery : Readable (writeQuery pairs) := by
  refine (readable_intercalate apart_ampersand _).mpr fun piece member => ?_
  obtain ⟨pair, here, rfl⟩ := List.mem_map.mp member
  exact (allowed pair here).readable

theorem mem_writeQuery {b : UInt8} (inside : b ∈ writeQuery pairs) : isTargetByte b = true := by
  rcases mem_intercalate inside with rfl | ⟨piece, member, found⟩
  · decide
  · obtain ⟨pair, here, rfl⟩ := List.mem_map.mp member
    exact ((allowed pair here).mem_write found).1

theorem valid_writeQuery (few : pairs.length ≤ kMaxQueryParameters)
    (short : (writeQuery pairs).length ≤ kMaxRawQueryBytes) : ¬ InvalidQuery (writeQuery pairs) := by
  rw [not_invalidQuery, queryPairs_writeQuery allowed, List.length_map]
  refine ⟨short, few, fun piece member => ?_⟩
  obtain ⟨pair, here, rfl⟩ := List.mem_map.mp member
  exact (allowed pair here).allowedPair

theorem decoded_writeQuery :
    (queryPairs (writeQuery pairs)).map decodedPair = pairs.map SpelledPair.parameter := by
  rw [queryPairs_writeQuery allowed, List.map_map]
  exact List.map_congr_left fun pair here => (allowed pair here).decoded

end Query

/-! ### The target -/

namespace Writing

variable (w : Writing)

/-- **The target is cut at the `?` that was written.** -/
theorem cut : cutAt question w.text = (writePath w.components, writeQuery w.pairs) := by
  have absent : question ∉ writePath w.components := fun inside => (mem_writePath w.safe inside).2 rfl
  unfold text writeTarget
  cases asked : w.asked with
  | true => exact cutAt_append absent
  | false =>
    rw [w.unasked asked, if_neg (by decide), List.append_nil, cutAt_absent absent]
    rfl

theorem formed : ¬ Malformed w.text := by
  refine (not_malformed_iff _).mpr ⟨rfl, w.short, fun b inside => ?_, ?_, ?_, ?_⟩
  · unfold text writeTarget at inside
    rcases List.mem_append.mp inside with path | query
    · exact (mem_writePath w.safe path).1
    · split at query
      case isFalse => cases query
      case isTrue =>
        rcases List.mem_cons.mp query with rfl | query
        · decide
        · exact mem_writeQuery w.allowed query
  · rw [readable_cutAt apart_question, w.cut]
    exact ⟨readable_writePath w.safe, readable_writeQuery w.allowed⟩
  · rw [w.cut]
    exact unreserved_writePath w.safe
  · rw [w.cut]
    exact valid_writeQuery w.allowed w.few w.shortQuery

theorem parsed :
    ∃ target : RequestTarget, parseRequestTarget w.text = { status := .ok, target := some target }
      ∧ target.path = slash :: [slash].intercalate w.names ∧ target.components = w.names
      ∧ target.query = w.parameters := by
  obtain ⟨safe, components⟩ := segments_names w.safe w.named
  have path : percentDecode (cutAt question w.text).1 = slash :: [slash].intercalate (w.components.map Word.bytes) := by
    rw [w.cut, percentDecode_writePath w.safe]
  obtain ⟨target, accepted, decoded, split, query⟩ := parseRequestTarget_safe w.formed (by rw [path]; exact safe)
  refine ⟨target, accepted, decoded.trans path, ?_, ?_⟩
  · rw [split, path, components]
    rfl
  · rw [query, w.cut, decoded_writeQuery w.allowed]
    rfl

end Writing

/-- **A target is read as it was written, however it was written.** -/
theorem target_round_trip (w : Writing) :
    (∃ target : RequestTarget, parseRequestTarget w.text = { status := .ok, target := some target }
      ∧ target.components = w.names ∧ target.path = slash :: [slash].intercalate w.names
      ∧ target.query = w.parameters)
    ∧ ∀ v : Writing, v.names = w.names → v.parameters = w.parameters →
      parseRequestTarget v.text = parseRequestTarget w.text := by
  obtain ⟨target, accepted, path, components, query⟩ := w.parsed
  refine ⟨⟨target, accepted, components, path, query⟩, fun v names parameters => ?_⟩
  obtain ⟨other, accepted', path', components', query'⟩ := v.parsed
  rw [accepted, accepted']
  obtain ⟨_, _, _, _, _, _⟩ := target
  obtain ⟨_, _, _, _, _, _⟩ := other
  dsimp only at path components query path' components' query'
  rw [names] at path' components'
  rw [parameters] at query'
  subst path components query path' components' query'
  rfl

end HpServer.Http
