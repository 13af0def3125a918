/-
**A validator names its representation.**

The entity tag of a file is seven numbers in hexadecimal with dashes between them. A client that sends it back, or the
time of the last change, is told that nothing changed just when nothing did.

* `fieldWords_injective`, `tagOf_quoted_inj` — **the numbers, and the tag, determine the file's description.**
* `notModified_iff` — when a request is answered with "not modified".
* `validators_identify_files` — both validators, sent back.
-/

import HpServer.Http.EntityTags
import HpServer.Http.HttpDates

namespace HpServer.Http

open Numerals

/-! ### The entity tag of a file -/

/-- Each field is a value of its 64-bit type. -/
structure StaticFileMetadata.InWords (file : StaticFileMetadata) : Prop where
  device : file.device < 2 ^ 64
  inode : file.inode < 2 ^ 64
  size : file.size < 2 ^ 64
  modifiedSeconds : -2 ^ 63 ≤ file.modifiedSeconds ∧ file.modifiedSeconds < 2 ^ 63
  modifiedNanoseconds : -2 ^ 63 ≤ file.modifiedNanoseconds ∧ file.modifiedNanoseconds < 2 ^ 63
  changedSeconds : -2 ^ 63 ≤ file.changedSeconds ∧ file.changedSeconds < 2 ^ 63
  changedNanoseconds : -2 ^ 63 ≤ file.changedNanoseconds ∧ file.changedNanoseconds < 2 ^ 63

/-- The numbers of a tag. -/
def fieldWords (file : StaticFileMetadata) : List Nat :=
  [file.device, file.inode, file.size, asUnsigned file.modifiedSeconds, asUnsigned file.modifiedNanoseconds,
    asUnsigned file.changedSeconds, asUnsigned file.changedNanoseconds]

theorem asUnsigned_injective {a b : Int} (first : -2 ^ 63 ≤ a ∧ a < 2 ^ 63) (second : -2 ^ 63 ≤ b ∧ b < 2 ^ 63)
    (same : asUnsigned a = asUnsigned b) : a = b := by
  unfold asUnsigned at same
  omega

/-- **The numbers determine the description.** -/
theorem fieldWords_injective {a b : StaticFileMetadata} (first : a.InWords) (second : b.InWords)
    (same : fieldWords a = fieldWords b) : a = b := by
  unfold fieldWords at same
  simp only [List.cons.injEq, and_true] at same
  obtain ⟨device, inode, size, seconds, nanoseconds, changed, changedNanoseconds⟩ := same
  obtain ⟨⟩ := a
  obtain ⟨⟩ := b
  simp only [StaticFileMetadata.mk.injEq]
  exact ⟨device, inode, size, asUnsigned_injective first.modifiedSeconds second.modifiedSeconds seconds,
    asUnsigned_injective first.modifiedNanoseconds second.modifiedNanoseconds nanoseconds,
    asUnsigned_injective first.changedSeconds second.changedSeconds changed,
    asUnsigned_injective first.changedNanoseconds second.changedNanoseconds changedNanoseconds⟩

/-- Numbers with dashes between them. -/
def dashed (words : List Nat) : Bytes := [dash].intercalate (words.map (numeral 16))

theorem numeral_clear {n : Nat} {b : UInt8} (inside : b ∈ numeral 16 n) :
    b ≠ dash ∧ 0x21 ≤ b ∧ b ≠ quote ∧ b ≠ del := by
  have every : ∀ digit < 16, digitByte digit ≠ dash ∧ 0x21 ≤ digitByte digit ∧ digitByte digit ≠ quote
      ∧ digitByte digit ≠ del := by decide
  obtain ⟨digit, small, rfl⟩ := mem_numeral (by decide) inside
  exact every digit small

theorem dashed_injective {first second : List Nat} (some : first ≠ []) (some' : second ≠ [])
    (same : dashed first = dashed second) : first = second := by
  have apart : ∀ {words : List Nat}, words ≠ [] → (dashed words).splitOn dash = words.map (numeral 16) := by
    intro words some
    refine List.splitOn_intercalate dash (fun piece member inside => ?_) (by simpa using some)
    obtain ⟨n, -, rfl⟩ := List.mem_map.mp member
    exact (numeral_clear inside).1 rfl
  have pieces : first.map (numeral 16) = second.map (numeral 16) := by rw [← apart some, same, apart some']
  exact List.map_injective_iff.mpr (fun _ _ => numeral_injective (by decide) (by decide)) pieces

theorem dashed_proper {words : List Nat} : ∀ b ∈ dashed words, 0x21 ≤ b ∧ b ≠ quote ∧ b ≠ del := by
  intro b inside
  rcases mem_intercalate inside with rfl | ⟨piece, member, inside⟩
  · decide
  · obtain ⟨n, -, rfl⟩ := List.mem_map.mp member
    exact (numeral_clear inside).2

/-- The tag of a file, with its mark or without. -/
def tagOf (weak : Bool) (file : StaticFileMetadata) : EntityTag where
  weak := weak
  content := dashed (fieldWords file)
  proper := dashed_proper

theorem makeEntityTag_eq (file : StaticFileMetadata) : makeEntityTag file = (tagOf true file).write := by
  unfold makeEntityTag EntityTag.write EntityTag.quoted tagOf dashed fieldWords
  simp only [List.map_cons, List.map_nil, List.intercalate_cons_cons, List.intercalate_singleton, List.append_assoc]
  rfl

theorem withoutWeak_makeEntityTag (file : StaticFileMetadata) : withoutWeak (makeEntityTag file) = (tagOf false file).write := by
  rw [makeEntityTag_eq, ← List.append_nil (tagOf true file).write, withoutWeak_write, List.append_nil]
  rfl

/-- **A file's tag is that of no other.** -/
theorem tagOf_quoted_inj {a b : StaticFileMetadata} (first : a.InWords) (second : b.InWords) (weak : Bool) :
    (tagOf weak a).quoted = withoutWeak (makeEntityTag b) ↔ a = b := by
  have quotes : withoutWeak (makeEntityTag b) = (tagOf false b).quoted := withoutWeak_makeEntityTag b
  rw [quotes]
  constructor
  · intro same
    have contents : dashed (fieldWords a) = dashed (fieldWords b) :=
      List.append_cancel_right (List.cons.inj same).2
    exact fieldWords_injective first second (dashed_injective (List.cons_ne_nil _ _) (List.cons_ne_nil _ _) contents)
  · rintro rfl
    rfl

/-! ### Not modified -/

/-- **When nothing was modified**, by the tags or by the time. -/
theorem notModified_iff (fields : StaticRequestFields) (file : StaticFileMetadata) (now : Int) (omitBody : Bool) :
    (evaluateStaticConditions fields file now omitBody).range.selection = .notModified ↔
      fields.ifNoneMatch.present = true ∧ matchesEntityTag fields.ifNoneMatch.value (makeEntityTag file) = true
      ∨ fields.ifNoneMatch.present = false ∧ fields.ifModifiedSince.present = true
        ∧ fields.ifModifiedSince.duplicate = false ∧ Representable (min file.modifiedSeconds now)
        ∧ ∃ since, parseHttpDate fields.ifModifiedSince.value now = some since ∧ min file.modifiedSeconds now ≤ since := by
  have never : ∀ notModified asked : Bool,
      (if notModified then ({ selection := .notModified } : ByteRangeSelection)
        else if asked then selectByteRange fields.range.value file.size
        else { length := file.size }).selection = .notModified ↔ notModified = true := by
    intro notModified asked
    cases notModified with
    | true => exact ⟨fun _ => rfl, fun _ => rfl⟩
    | false =>
      refine ⟨fun chosen => ?_, nofun⟩
      cases asked with
      | true =>
        rcases selectByteRange_cases fields.range.value file.size with ⟨full, -⟩ | ⟨part, -⟩ | none
        · exact absurd (full.symm.trans chosen) (by decide)
        · exact absurd (part.symm.trans chosen) (by decide)
        · exact absurd (none.symm.trans chosen) (by decide)
      | false => cases chosen
  have formatted : (formatHttpDate (min file.modifiedSeconds now)).isSome = true ↔ Representable (min file.modifiedSeconds now) := by
    rw [Option.isSome_iff_exists]
    simp only [formatHttpDate_eq_some, exists_and_left, exists_eq, and_true]
  unfold evaluateStaticConditions
  dsimp only
  rw [never]
  cases fields.ifNoneMatch.present with
  | true => simp
  | false =>
    simp only [Bool.false_eq_true, if_false, false_and, true_and, false_or]
    split
    case isTrue asked =>
      simp only [Bool.and_eq_true, Bool.not_eq_true', formatted] at asked
      obtain ⟨⟨present, single⟩, inside⟩ := asked
      rw [present, single]
      cases parseHttpDate fields.ifModifiedSince.value now <;> simp [inside]
    case isFalse asked =>
      simp only [Bool.and_eq_true, Bool.not_eq_true', formatted] at asked
      refine ⟨nofun, ?_⟩
      rintro ⟨present, single, inside, -⟩
      exact absurd ⟨⟨present, single⟩, inside⟩ asked

/-- **A validator that is sent back is taken for the file's own just when it is.** -/
theorem validators_identify_files :
    (∀ (file : StaticFileMetadata) (asked : StaticRequestFields) (now : Int) (omitBody : Bool),
      let entityTag := (evaluateStaticConditions asked file now omitBody).metadata.entityTag
      entityTag = (tagOf true file).write ∧ withoutWeak entityTag = (tagOf false file).write)
    ∧ (∀ (a b : StaticFileMetadata), a.InWords → b.InWords →
        ∀ (weak : Bool) (before behind : List EntityTag) (fields : StaticRequestFields) (now : Int) (omitBody : Bool),
        fields.ifNoneMatch.present = true →
        WrittenTags (before ++ tagOf weak a :: behind) (trimOws fields.ifNoneMatch.value) →
        (before ++ tagOf weak a :: behind).length ≤ 128 →
        (∀ t ∈ before ++ behind, t.quoted ≠ withoutWeak (makeEntityTag b)) →
        ((evaluateStaticConditions fields b now omitBody).range.selection = .notModified ↔ a = b))
    ∧ ∀ (a b : StaticFileMetadata) (first second : Int) (asked fields : StaticRequestFields) (omitBody omitBody' : Bool)
        (lastModified : Bytes),
        Representable (min a.modifiedSeconds first) → Representable (min b.modifiedSeconds second) →
        (evaluateStaticConditions asked a first omitBody).metadata.lastModified = some lastModified →
        fields.ifNoneMatch.present = false → fields.ifModifiedSince.present = true →
        fields.ifModifiedSince.duplicate = false → fields.ifModifiedSince.value = lastModified →
        ((evaluateStaticConditions fields b second omitBody').range.selection = .notModified
          ↔ min b.modifiedSeconds second ≤ min a.modifiedSeconds first) := by
  refine ⟨fun file asked now omitBody => ⟨makeEntityTag_eq file, withoutWeak_makeEntityTag file⟩, ?_, ?_⟩
  · intro a b inWords inWords' weak before behind fields now omitBody present written few others
    have matched : matchesEntityTag fields.ifNoneMatch.value (makeEntityTag b) = true ↔ a = b := by
      rw [matches_written written few, ← tagOf_quoted_inj inWords inWords' weak]
      constructor
      · rintro ⟨t, member, same⟩
        rcases List.mem_append.mp member with member | member
        · exact absurd same (others t (List.mem_append_left _ member))
        · rcases List.mem_cons.mp member with rfl | member
          · exact same
          · exact absurd same (others t (List.mem_append_right _ member))
      · intro same
        exact ⟨_, List.mem_append_right _ List.mem_cons_self, same⟩
    rw [notModified_iff, present, matched]
    simp only [true_and, Bool.true_eq_false, false_and, or_false]
  · intro a b first second asked fields omitBody omitBody' lastModified inside inside' sent none present single value
    have formatted : formatHttpDate (min a.modifiedSeconds first) = some lastModified := sent
    obtain ⟨-, rfl⟩ := formatHttpDate_eq_some.mp formatted
    rw [notModified_iff, none, present, single, value, parse_imfText inside]
    simp only [Bool.false_eq_true, false_and, inside', true_and, Option.some.injEq, exists_eq_left', false_or]

end HpServer.Http
