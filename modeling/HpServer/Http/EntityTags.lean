/-
**Lists of entity tags.**

* `EntityTag` — a tag: its mark, and what stands between its quotes.
* `WrittenTags` — a list of tags as text, with a comma and blanks between two.
* `matchTags_iff`, `matchesEntityTag_iff` — **the loop accepts just the lists, and says whether the tag is among them.**
* `entity_tag_lists` — with the parser's joining of repeated lines: the result is that of any of the lines.
-/

import HpServer.Http.CapturedFields
import HpServer.Http.StaticRepresentation
import HpServer.Library.Trimming

namespace HpServer.Http

open Trimming

/-! ### Tags and lists -/

@[ext]
structure EntityTag where
  weak : Bool
  content : Bytes
  proper : ∀ b ∈ content, 0x21 ≤ b ∧ b ≠ quote ∧ b ≠ del

/-- The tag without its mark. -/
def EntityTag.quoted (t : EntityTag) : Bytes := quote :: (t.content ++ [quote])

def EntityTag.write (t : EntityTag) : Bytes := (if t.weak then text "W/" else []) ++ t.quoted

/-- A list of tags, written. -/
@[mk_iff]
inductive WrittenTags : List EntityTag → Bytes → Prop
  | one (t : EntityTag) : WrittenTags [t] t.write
  | more (t : EntityTag) {tags : List EntityTag} {before behind rest : Bytes} :
      Blank isOws before → Blank isOws behind → WrittenTags tags rest →
      WrittenTags (t :: tags) (t.write ++ (before ++ comma :: (behind ++ rest)))

theorem trimOws_eq (value : Bytes) : trimOws value = trim isOws value := rfl

/-- A tag does not begin with a blank. -/
theorem write_start (t : EntityTag) : ∃ b rest, t.write = b :: rest ∧ isOws b = false := by
  unfold EntityTag.write
  cases t.weak with
  | true => exact ⟨_, _, rfl, by decide⟩
  | false => exact ⟨_, _, rfl, by decide⟩

theorem write_last (t : EntityTag) : t.write.getLast? = some quote := by
  unfold EntityTag.write EntityTag.quoted
  rw [← List.cons_append, ← List.append_assoc, List.getLast?_concat]

theorem WrittenTags.ne_nil {tags : List EntityTag} {value : Bytes} (written : WrittenTags tags value) : value ≠ [] := by
  cases written with
  | one t =>
    obtain ⟨b, rest, same, -⟩ := write_start t
    rw [same]
    exact List.cons_ne_nil _ _
  | more t =>
    obtain ⟨b, rest, same, -⟩ := write_start t
    rw [same]
    exact List.cons_ne_nil _ _

theorem WrittenTags.tags_ne_nil {tags : List EntityTag} {value : Bytes} (written : WrittenTags tags value) : tags ≠ [] := by
  cases written <;> exact List.cons_ne_nil _ _

/-- A list ends with a quote. -/
theorem WrittenTags.last {tags : List EntityTag} {value : Bytes} (written : WrittenTags tags value) :
    value.getLast? = some quote := by
  induction written with
  | one t => exact write_last t
  | more t blank blank' written ih =>
    rw [List.getLast?_append_of_ne_nil _ (by simp), List.getLast?_append_of_ne_nil _ (by simp),
      ← List.singleton_append, List.getLast?_append_of_ne_nil _ (by simp [written.ne_nil]),
      List.getLast?_append_of_ne_nil _ written.ne_nil, ih]

theorem WrittenTags.trimmed {tags : List EntityTag} {value : Bytes} (written : WrittenTags tags value) :
    Trimmed isOws value where
  first := by
    intro b first
    cases written with
    | one t =>
      obtain ⟨c, rest, same, clear⟩ := write_start t
      rw [same] at first
      cases first
      exact clear
    | more t =>
      obtain ⟨c, rest, same, clear⟩ := write_start t
      rw [same] at first
      cases first
      exact clear
  last := by
    rw [written.last]
    intro b same
    cases same
    rfl

/-- Blanks before a list are trimmed off it. -/
theorem trimOws_padded {tags : List EntityTag} {before value : Bytes} (blank : Blank isOws before)
    (written : WrittenTags tags value) : trimOws (before ++ value) = value :=
  trim_eq_iff.mpr ⟨written.trimmed, before, [], blank, blank_nil, (List.append_nil _).symm⟩

/-! ### The loop -/

theorem withoutWeak_write (t : EntityTag) (rest : Bytes) : withoutWeak (t.write ++ rest) = t.quoted ++ rest := by
  unfold withoutWeak EntityTag.write
  cases t.weak <;> rfl

/-- **One round of the loop, at a tag.** -/
theorem matchTags_tag (quoted : Bytes) (left : Nat) (matched : Bool) (t : EntityTag) (rest : Bytes) :
    matchTags quoted (left + 1) matched (t.write ++ rest)
      = if trimOws rest = [] then matched || t.quoted = quoted
        else if (trimOws rest).head? ≠ some comma then false
        else if trimOws ((trimOws rest).drop 1) = [] then false
        else matchTags quoted left (matched || t.quoted = quoted) (trimOws ((trimOws rest).drop 1)) := by
  have inner : (t.content ++ quote :: rest).takeWhile (· ≠ quote) = t.content := by
    rw [List.takeWhile_append_of_pos fun b inside => decide_eq_true (t.proper b inside).2.1,
      List.takeWhile_cons_of_neg (by decide), List.append_nil]
  have allowed : (t.content.any fun b => b < 0x21 || b = del) = false := by
    rw [List.any_eq_false]
    intro b inside
    obtain ⟨low, -, del⟩ := t.proper b inside
    simp only [Bool.or_eq_true, decide_eq_true_eq, not_or]
    exact ⟨UInt8.not_lt.mpr low, del⟩
  have spread : t.quoted ++ rest = quote :: (t.content ++ quote :: rest) := by
    unfold EntityTag.quoted
    simp only [List.cons_append, List.append_assoc, List.nil_append]
  have behind : (t.content ++ quote :: rest).drop (t.content.length + 1) = rest := by
    rw [List.drop_length_add_append, List.drop_succ_cons, List.drop_zero]
  have inside : ¬ t.content.length = (t.content ++ quote :: rest).length := by
    rw [List.length_append, List.length_cons]
    omega
  conv_lhs =>
    unfold matchTags
    rw [withoutWeak_write, spread]
  dsimp only
  rw [inner, allowed, behind, decide_eq_false inside, if_neg (by decide)]
  rfl

theorem withoutWeak_cases (value : Bytes) : value = text "W/" ++ withoutWeak value ∨ value = withoutWeak value := by
  unfold withoutWeak
  split
  case isTrue marked =>
    obtain ⟨rest, rfl⟩ := List.isPrefixOf_iff_prefix.mp marked
    exact .inl rfl
  case isFalse => exact .inr rfl

theorem exists_tag_of_matchTags {quoted : Bytes} {left : Nat} {matched : Bool} {value : Bytes}
    (accepted : matchTags quoted (left + 1) matched value = true) :
    ∃ (t : EntityTag) (rest : Bytes), value = t.write ++ rest := by
  unfold matchTags at accepted
  split at accepted
  case h_1 => cases accepted
  case h_2 first rest marked =>
  dsimp only at accepted
  split at accepted
  case isTrue => cases accepted
  case isFalse shaped =>
  simp only [Bool.or_eq_true, decide_eq_true_eq, not_or, ne_eq, not_not, Bool.not_eq_true, List.any_eq_false] at shaped
  obtain ⟨⟨rfl, allowed⟩, more⟩ := shaped
  obtain ⟨unquoted, ⟨whole, -⟩ | whole⟩ := cutAt_cases quote rest
  · exact absurd (congrArg List.length whole.symm) more
  · let content := (cutAt quote rest).1
    have proper : ∀ b ∈ content, 0x21 ≤ b ∧ b ≠ quote ∧ b ≠ del := by
      intro b inside
      obtain ⟨low, notDel⟩ := allowed b inside
      refine ⟨UInt8.not_lt.mp low, ?_, notDel⟩
      rintro rfl
      exact unquoted inside
    have spread : withoutWeak value = quote :: (content ++ [quote]) ++ (cutAt quote rest).2 := by
      rw [marked, List.cons_append, List.append_assoc, List.singleton_append, ← whole]
    rcases withoutWeak_cases value with weak | strong
    · refine ⟨{ weak := true, content := content, proper := proper }, (cutAt quote rest).2, ?_⟩
      rw [weak, spread]
      rfl
    · refine ⟨{ weak := false, content := content, proper := proper }, (cutAt quote rest).2, ?_⟩
      rw [strong, spread]
      rfl

section Rounds

variable {quoted : Bytes} {left : Nat} {matched : Bool} {t : EntityTag}

/-- The last tag of a list. -/
theorem matchTags_one : matchTags quoted (left + 1) matched t.write = (matched || t.quoted = quoted) := by
  rw [← List.append_nil t.write, matchTags_tag]
  rfl

/-- A tag with another behind it. -/
theorem matchTags_more {tags : List EntityTag} {before behind rest : Bytes} (blank : Blank isOws before)
    (blank' : Blank isOws behind) (written : WrittenTags tags rest) :
    matchTags quoted (left + 1) matched (t.write ++ (before ++ comma :: (behind ++ rest)))
      = matchTags quoted left (matched || t.quoted = quoted) rest := by
  have trimmedMore : Trimmed isOws (comma :: (behind ++ rest)) := by
    refine ⟨fun b first => ?_, fun b last => ?_⟩
    · cases first
      rfl
    · rw [← List.cons_append, List.getLast?_append_of_ne_nil _ written.ne_nil, written.last] at last
      cases last
      rfl
  have separated : trimOws (before ++ comma :: (behind ++ rest)) = comma :: (behind ++ rest) :=
    trim_eq_iff.mpr ⟨trimmedMore, before, [], blank, blank_nil, (List.append_nil _).symm⟩
  rw [matchTags_tag, separated, if_neg (List.cons_ne_nil _ _), List.head?_cons, if_neg (not_not_intro rfl),
    List.drop_succ_cons, List.drop_zero, trimOws_padded blank' written, if_neg written.ne_nil]

/-- **What is accepted behind a tag**: nothing, or a comma and another round. -/
theorem matchTags_behind {rest : Bytes} (trimmed : Trimmed isOws (t.write ++ rest))
    (accepted : matchTags quoted (left + 1) matched (t.write ++ rest) = true) :
    rest = [] ∨ ∃ before behind next, Blank isOws before ∧ Blank isOws behind ∧ Trimmed isOws next
      ∧ rest = before ++ comma :: (behind ++ next)
      ∧ matchTags quoted left (matched || t.quoted = quoted) next = true := by
  rw [matchTags_tag] at accepted
  split at accepted
  case isTrue none =>
    -- Blanks behind the last tag would end the value.
    obtain ⟨-, before, behind, blank, blank', whole⟩ := trim_eq_iff.mp none
    rw [List.append_nil] at whole
    exact .inl (trimmed.eq_nil (whole ▸ blank.append blank'))
  case isFalse =>
  split at accepted
  case isTrue => cases accepted
  case isFalse separated =>
  split at accepted
  case isTrue => cases accepted
  case isFalse =>
  obtain ⟨more, separator⟩ := List.head?_eq_some_iff.mp (not_not.mp separated)
  rw [separator, List.drop_succ_cons, List.drop_zero] at accepted
  obtain ⟨-, before, behind, blank, blank', whole⟩ := trim_eq_iff.mp separator
  obtain ⟨before', behind', blankMore, blankMore', moreWhole, nextTrimmed⟩ := trim_spec isOws more
  have parts : rest = before ++ comma :: (before' ++ trim isOws more) ++ (behind' ++ behind) := by
    conv_lhs => rw [whole, moreWhole]
    simp only [List.append_assoc, List.cons_append]
  rw [parts, ← List.append_assoc] at trimmed
  have none := trimmed.eq_nil (blankMore'.append blank')
  rw [none, List.append_nil] at parts
  exact .inr ⟨before, before', trim isOws more, blank, blankMore, nextTrimmed, parts, accepted⟩

end Rounds

/-- **The loop accepts just the lists of tags**, and says whether the tag is among them. -/
theorem matchTags_iff {quoted : Bytes} {left : Nat} {matched : Bool} {value : Bytes} (trimmed : Trimmed isOws value) :
    matchTags quoted left matched value = true ↔
      ∃ tags, tags.length ≤ left ∧ WrittenTags tags value ∧ (matched = true ∨ ∃ t ∈ tags, t.quoted = quoted) := by
  induction left generalizing matched value with
  | zero =>
    refine ⟨nofun, ?_⟩
    rintro ⟨tags, few, written, -⟩
    exact absurd (List.length_eq_zero_iff.mp (Nat.le_zero.mp few)) written.tags_ne_nil
  | succ left ih =>
    constructor
    · intro accepted
      obtain ⟨t, rest, rfl⟩ := exists_tag_of_matchTags accepted
      obtain rfl | ⟨before, behind, next, blank, blank', nextTrimmed, rfl, more⟩ := matchTags_behind trimmed accepted
      · rw [List.append_nil] at accepted ⊢
        rw [matchTags_one, Bool.or_eq_true, decide_eq_true_eq] at accepted
        exact ⟨[t], Nat.succ_le_succ (Nat.zero_le _), .one t, by simpa using accepted⟩
      · obtain ⟨tags, few, written, found⟩ := (ih nextTrimmed).mp more
        refine ⟨t :: tags, Nat.succ_le_succ few, .more t blank blank' written, ?_⟩
        rw [Bool.or_eq_true, decide_eq_true_eq, or_assoc] at found
        simpa using found
    · rintro ⟨tags, few, written, found⟩
      cases written with
      | one t =>
        rw [matchTags_one, Bool.or_eq_true, decide_eq_true_eq]
        simpa using found
      | more t blank blank' written =>
        rw [matchTags_more blank blank' written, ih written.trimmed]
        refine ⟨_, Nat.le_of_succ_le_succ few, written, ?_⟩
        rw [Bool.or_eq_true, decide_eq_true_eq, or_assoc]
        simpa using found

/-- **A field value matches a tag where it is a star, or a list with the tag in it.** -/
theorem matchesEntityTag_iff (value tag : Bytes) :
    matchesEntityTag value tag = true ↔
      trimOws value = text "*"
        ∨ ∃ tags, tags.length ≤ 128 ∧ WrittenTags tags (trimOws value) ∧ ∃ t ∈ tags, t.quoted = withoutWeak tag := by
  have trimmed : Trimmed isOws (trimOws value) := (trim_spec isOws value).choose_spec.choose_spec.2.2.2
  unfold matchesEntityTag
  dsimp only
  split
  case isTrue star => exact ⟨fun _ => .inl star, fun _ => rfl⟩
  case isFalse notStar =>
    rw [matchTags_iff trimmed, or_iff_right notStar]
    simp only [Bool.false_eq_true, false_or]

/-! ### A list is read in one way -/

/-- Two tags in front of two texts are the same tag. -/
theorem write_append_inj {t u : EntityTag} {rest more : Bytes} (same : t.write ++ rest = u.write ++ more) :
    t = u ∧ rest = more := by
  have quotes : t.quoted ++ rest = u.quoted ++ more := by
    rw [← withoutWeak_write, same, withoutWeak_write]
  have contents : t.content ++ quote :: rest = u.content ++ quote :: more := by
    simpa [EntityTag.quoted] using quotes
  have cut := congrArg (cutAt quote) contents
  rw [cutAt_append fun inside => (t.proper _ inside).2.1 rfl, cutAt_append fun inside => (u.proper _ inside).2.1 rfl] at cut
  obtain ⟨content, behind⟩ := Prod.mk.inj cut
  refine ⟨EntityTag.ext ?_ content, behind⟩
  -- The mark is told by the first byte.
  unfold EntityTag.write at same
  cases marked : t.weak with
  | true =>
    cases marked' : u.weak with
    | true => rfl
    | false =>
      rw [marked, marked'] at same
      exact absurd (List.cons.inj same).1 (by decide)
  | false =>
    cases marked' : u.weak with
    | true =>
      rw [marked, marked'] at same
      exact absurd (List.cons.inj same).1 (by decide)
    | false => rfl

/-- Blanks and a comma are told apart from what is behind them. -/
theorem separator_inj {before before' rest rest' : Bytes} (blank : Blank isOws before) (blank' : Blank isOws before')
    (same : before ++ comma :: rest = before' ++ comma :: rest') : rest = rest' := by
  have absent : ∀ {blanks : Bytes}, Blank isOws blanks → comma ∉ blanks := fun blanks inside =>
    absurd (blanks comma inside) (by decide)
  have cut := congrArg (cutAt comma) same
  rw [cutAt_append (absent blank), cutAt_append (absent blank')] at cut
  exact (Prod.mk.inj cut).2

/-- **No other tags are written in the same way.** -/
theorem WrittenTags.unique {tags others : List EntityTag} {value : Bytes} (written : WrittenTags tags value)
    (written' : WrittenTags others value) : tags = others := by
  induction written generalizing others with
  | one t =>
    rcases (writtenTags_iff _ _).mp written' with ⟨u, rfl, same⟩ | ⟨u, tags, before, behind, rest, -, -, -, -, same⟩
    · rw [← List.append_nil t.write, ← List.append_nil u.write] at same
      rw [(write_append_inj same).1]
    · rw [← List.append_nil t.write] at same
      exact absurd (write_append_inj same).2 (by simp)
  | @more t tags before behind rest blank blank' written ih =>
    rcases (writtenTags_iff _ _).mp written' with
      ⟨u, rfl, same⟩ | ⟨u, more, before', behind', rest', blankMore, blankMore', writtenMore, rfl, same⟩
    · rw [← List.append_nil u.write] at same
      exact absurd (write_append_inj same).2 (by simp)
    · obtain ⟨rfl, separated⟩ := write_append_inj same
      have padded := congrArg trimOws (separator_inj blank blankMore separated)
      rw [trimOws_padded blank' written, trimOws_padded blankMore' writtenMore] at padded
      rw [ih (padded ▸ writtenMore)]

/-! ### Several lines -/

theorem WrittenTags.append {tags others : List EntityTag} {value more : Bytes} (written : WrittenTags tags value)
    (written' : WrittenTags others more) : WrittenTags (tags ++ others) (value ++ comma :: more) := by
  induction written with
  | one t => exact .more t blank_nil blank_nil written'
  | more t blank blank' written ih =>
    simp only [List.append_assoc, List.cons_append]
    exact .more t blank blank' ih

/-- **Lines joined by commas are one list.** -/
theorem writtenTags_intercalate {lines : List (List EntityTag)} {values : List Bytes} (some : values ≠ [])
    (written : List.Forall₂ WrittenTags lines values) : WrittenTags lines.flatten ([comma].intercalate values) := by
  induction written with
  | nil => exact absurd rfl some
  | @cons line value lines values first rest ih =>
    cases rest with
    | nil =>
      rw [List.flatten_singleton, List.intercalate_singleton]
      exact first
    | cons second rest =>
      rw [List.flatten_cons, List.intercalate_cons_cons, List.append_assoc, List.singleton_append]
      exact first.append (ih (List.cons_ne_nil _ _))

/-- **A list matches where the tag is among its tags.** -/
theorem matches_written {tags : List EntityTag} {value : Bytes} (written : WrittenTags tags (trimOws value))
    (few : tags.length ≤ 128) (tag : Bytes) :
    matchesEntityTag value tag = true ↔ ∃ t ∈ tags, t.quoted = withoutWeak tag := by
  have notStar : trimOws value ≠ text "*" := by
    intro star
    have last := written.last
    rw [star] at last
    exact absurd last (by decide)
  rw [matchesEntityTag_iff, or_iff_right notStar]
  constructor
  · rintro ⟨others, -, written', found⟩
    rw [written.unique written']
    exact found
  · intro found
    exact ⟨tags, few, written, found⟩

theorem WrittenTags.trims {tags : List EntityTag} {value : Bytes} (written : WrittenTags tags value) :
    WrittenTags tags (trimOws value) := by
  rw [show trimOws value = value from trimOws_padded blank_nil written]
  exact written

/-- **Joined lines match where one of them does.** -/
theorem matches_joined {lines : List (List EntityTag)} {values : List Bytes}
    (written : List.Forall₂ WrittenTags lines values) (few : lines.flatten.length ≤ 128) (tag : Bytes) :
    matchesEntityTag ([comma].intercalate values) tag = values.any (matchesEntityTag · tag) := by
  by_cases some : values = []
  · obtain rfl := some
    rfl
  rw [Bool.eq_iff_iff, matches_written (writtenTags_intercalate some written).trims few, List.any_eq_true]
  clear some
  induction written with
  | nil => simp
  | @cons line value lines values first rest ih =>
    rw [List.flatten_cons, List.length_append] at few
    simp only [List.flatten_cons, List.mem_append, or_and_right, exists_or, List.mem_cons, exists_eq_left,
      matches_written first.trims (by omega), ih (by omega)]

/-- **Lists of entity tags.** A field value matches a tag where it is a star or one of the lists of 1 to 128 tags with
the tag among them; a list is read in one way, so that a comma between quotes separates nothing. The lines of a request are
joined to one list, which matches where one of them does, in any order. -/
theorem entity_tag_lists :
    (∀ value tag : Bytes, matchesEntityTag value tag = true ↔
      trimOws value = text "*"
        ∨ ∃ tags : List EntityTag, 1 ≤ tags.length ∧ tags.length ≤ 128 ∧ WrittenTags tags (trimOws value)
            ∧ ∃ t ∈ tags, t.quoted = withoutWeak tag)
    ∧ (∀ (value : Bytes) (tags others : List EntityTag), WrittenTags tags value → WrittenTags others value → tags = others)
    ∧ ∀ (s : HeaderSection) (rest : Bytes) (segments : List Bytes) (lines : List (List EntityTag)) (tag : Bytes),
        s.WellFormed → segments.flatten = s.bytes ++ rest → (feedAll segments).last.status = .complete →
        List.Forall₂ WrittenTags lines (s.values .ifNoneMatch) → lines.flatten.length ≤ 128 →
        let result := matchesEntityTag (feedAll segments).last.request.staticFields.ifNoneMatch.value tag
        result = (s.values .ifNoneMatch).any (matchesEntityTag · tag)
          ∧ ∀ (t : HeaderSection) (tail : Bytes) (others : List Bytes), t.WellFormed →
              (t.values .ifNoneMatch).Perm (s.values .ifNoneMatch) → others.flatten = t.bytes ++ tail →
              (feedAll others).last.status = .complete →
              matchesEntityTag (feedAll others).last.request.staticFields.ifNoneMatch.value tag = result := by
  refine ⟨fun value tag => ?_, fun value tags others written written' => written.unique written', ?_⟩
  · rw [matchesEntityTag_iff]
    constructor
    · rintro (star | ⟨tags, few, written, found⟩)
      · exact .inl star
      · exact .inr ⟨tags, List.length_pos_iff.mpr written.tags_ne_nil, few, written, found⟩
    · rintro (star | ⟨tags, -, few, written, found⟩)
      · exact .inl star
      · exact .inr ⟨tags, few, written, found⟩
  · intro s rest segments lines tag wellFormed input complete written few result
    have joined : result = (s.values .ifNoneMatch).any (matchesEntityTag · tag) := by
      show matchesEntityTag (feedAll segments).last.request.staticFields.ifNoneMatch.value tag = _
      rw [feedAll_request wellFormed input complete, (captures_request s _).entityTags]
      exact matches_joined written few tag
    refine ⟨joined, fun t tail others wellFormed' order input' complete' => ?_⟩
    obtain ⟨lines', written', order'⟩ := List.perm_comp_forall₂ order written.flip
    rw [feedAll_request wellFormed' input' complete', (captures_request t _).entityTags, joined, ← order.any_eq]
    exact matches_joined written'.flip (order'.flatten.length_eq ▸ few) tag

end HpServer.Http
