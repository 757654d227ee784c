import ElmSuite.Proofs.Script.Tagging

/-!
The pass that replaces the placeholder of the check function, paragraph by paragraph.  The check
function that takes its place is one that looks for the field of the tag.
-/

namespace ElmSuite.Script

open Text

variable {tag : IdentityTag} {text behind : List Char} {start : Bool}

theorem splitPlaceholder?_cons (start : Bool) (c : Char) (text : List Char) :
    splitPlaceholder? start (c :: text) =
      (if start then placeholder? (c :: text) else none).or
        ((splitPlaceholder? (c == '\n') text).map fun found => (c :: found.1, found.2)) := by
  rw [splitPlaceholder?]
  split
  · next found hfound =>
    change (if start then placeholder? (c :: text) else none) = some found at hfound
    rw [hfound, Option.some_or]
  · next hnone =>
    change (if start then placeholder? (c :: text) else none) = none at hnone
    rw [hnone, Option.none_or]

/-- The number of lines of a code at which the placeholder definition stands. -/
def placeholderCount : Bool → List Char → Nat
  | _, [] => 0
  | atLineStart, c :: rest =>
      (if atLineStart && (placeholder? (c :: rest)).isSome then 1 else 0) +
        placeholderCount (c == '\n') rest

/-- The value of the check function together with the equals sign. -/
def checkValue (tag : IdentityTag) : List Char :=
  " = ".toList ++ tag.checkFunction.toList

/-- The code with the check function in the place of the first placeholder definition. -/
def replacedCode (tag : IdentityTag) (code : List Char) : List Char :=
  match splitPlaceholder? true code with
  | some (before, after) => before ++ (checkValue tag ++ after)
  | none => code

theorem replaceCheck_eq (tag : IdentityTag) (code : List Char) :
    replaceCheck tag code =
      if (splitPlaceholder? true code).isSome || hasPatchedCheck tag.field.toList true code
      then .ok (replacedCode tag code)
      else .error (.patternNotFound "the check function definition") := by
  unfold replaceCheck replacedCode
  cases splitPlaceholder? true code with
  | none => rfl
  | some found => simp [checkValue]

section Still

variable (h : Still behind start text)
include h

theorem splitPlaceholder?_of_still :
    splitPlaceholder? start (text ++ behind) =
      (splitPlaceholder? (startsLine start text) behind).map fun found => (text ++ found.1, found.2) := by
  induction text generalizing start with
  | nil => simp [startsLine]
  | cons c text ih =>
      have hnone : (if start then placeholder? (c :: (text ++ behind)) else none) = none := by
        split
        · next hstart => exact placeholder?_eq_none (afterCheckName?_eq_none (h.1 hstart))
        · rfl
      rw [List.cons_append, splitPlaceholder?_cons, hnone, ih h.2, Option.none_or, Option.map_map]
      rfl

theorem placeholderCount_of_still :
    placeholderCount start (text ++ behind) = placeholderCount (startsLine start text) behind := by
  induction text generalizing start with
  | nil => rfl
  | cons c text ih =>
      have hnone : (start && (placeholder? (c :: (text ++ behind))).isSome) = false := by
        cases start with
        | false => rfl
        | true =>
            have hplaceholder := placeholder?_eq_none (afterCheckName?_eq_none (h.1 rfl))
            rw [List.cons_append] at hplaceholder
            rw [hplaceholder]
            rfl
      rw [List.cons_append, placeholderCount, hnone, ih h.2]
      simp [startsLine]

theorem hasPatchedCheck_of_still (field : List Char) :
    hasPatchedCheck field start (text ++ behind) =
      hasPatchedCheck field (startsLine start text) behind := by
  induction text generalizing start with
  | nil => rfl
  | cons c text ih =>
      have hnone : (start && isPatchedCheck field (c :: (text ++ behind))) = false := by
        cases start with
        | false => rfl
        | true => exact isPatchedCheck_eq_false (afterCheckName?_eq_none (h.1 rfl))
      rw [List.cons_append, hasPatchedCheck, hnone, ih h.2]
      rfl

end Still

section Paragraph

variable (h : Paragraph text behind)
include h

theorem placeholder?_behind :
    placeholder? (text ++ behind) = (placeholder? text).map fun found => (found.1, found.2 ++ behind) := by
  have hinside {left right : List Char} (hleft : left ∈ checkLeft) (hright : right ∈ placeholderRight) :
      ∀ behind, Still behind false (left ++ right) :=
    defines_placeholder.inside _ (Language.append_mem_mul hleft hright)
  ext ⟨left, after⟩
  simp only [Option.map_eq_some_iff, Prod.exists, Prod.mk.injEq, placeholder?_eq_some]
  constructor
  · rintro ⟨hleft, right, hright, heq, hend⟩
    rw [← List.append_assoc] at heq
    obtain ⟨rest, rfl, rfl⟩ := exists_left_of_still (hinside hleft hright) h.parted heq
    refine ⟨left, rest, ⟨hleft, right, hright, List.append_assoc _ _ _, ?_⟩, rfl, rfl⟩
    rcases hend with hend | ⟨more, hend⟩
    · exact .inl (List.append_eq_nil_iff.1 hend).1
    · cases rest with
      | nil => exact .inl rfl
      | cons c rest => exact .inr ⟨rest, by rw [(List.cons.inj hend).1]⟩
  · rintro ⟨_, rest, ⟨hleft, right, hright, rfl, hend⟩, rfl, rfl⟩
    refine ⟨hleft, right, hright, by simp only [List.append_assoc], ?_⟩
    rcases hend with rfl | ⟨more, rfl⟩
    · -- The definition does not end with its line, so it is the last one.
      rcases h.parted with rfl | ⟨hline, -⟩
      · exact .inl rfl
      · rw [List.append_nil, startsLine_append, closes_placeholderRight right hright] at hline
        cases hline
    · exact .inr ⟨more ++ behind, rfl⟩

theorem isPatchedCheck_behind (htag : tag.Plain) :
    isPatchedCheck tag.field.toList (text ++ behind) = isPatchedCheck tag.field.toList text := by
  rw [Bool.eq_iff_iff, isPatchedCheck_iff, isPatchedCheck_iff]
  refine exists_congr fun word => and_congr_right fun hword => ?_
  constructor
  · rintro ⟨rest, heq⟩
    obtain ⟨left, rfl, -⟩ :=
      exists_left_of_still ((defines_patchedCheck htag).inside word hword) h.parted heq.symm
    exact List.prefix_append _ _
  · exact fun hprefix => hprefix.trans (List.prefix_append _ _)

theorem splitPlaceholder?_append (hne : text ≠ []) :
    splitPlaceholder? true (text ++ behind) =
      ((placeholder? text).map fun found => (found.1, found.2 ++ behind)).or
        ((splitPlaceholder? true behind).map fun found => (text ++ found.1, found.2)) := by
  rw [← placeholder?_behind h]
  obtain ⟨c, text, rfl⟩ := List.exists_cons_of_ne_nil hne
  rw [List.cons_append, splitPlaceholder?_cons, splitPlaceholder?_of_still h.inside.2, Option.map_map]
  rcases h.endsLine hne with rfl | hline
  · rfl
  · rw [show startsLine (c == '\n') text = true from hline]
    rfl

theorem placeholderCount_append (hne : text ≠ []) :
    placeholderCount true (text ++ behind) =
      (if (placeholder? text).isSome then 1 else 0) + placeholderCount true behind := by
  have hbehind := placeholder?_behind h
  obtain ⟨c, text, rfl⟩ := List.exists_cons_of_ne_nil hne
  rw [List.cons_append] at hbehind ⊢
  rw [placeholderCount, placeholderCount_of_still h.inside.2, hbehind, Option.isSome_map, Bool.true_and]
  rcases h.endsLine hne with rfl | hline
  · rfl
  · rw [show startsLine (c == '\n') text = true from hline]

theorem hasPatchedCheck_append (htag : tag.Plain) (hne : text ≠ []) :
    hasPatchedCheck tag.field.toList true (text ++ behind) =
      (isPatchedCheck tag.field.toList text || hasPatchedCheck tag.field.toList true behind) := by
  rw [← isPatchedCheck_behind h htag]
  obtain ⟨c, text, rfl⟩ := List.exists_cons_of_ne_nil hne
  rw [List.cons_append, hasPatchedCheck, hasPatchedCheck_of_still h.inside.2, Bool.true_and]
  rcases h.endsLine hne with rfl | hline
  · rfl
  · rw [show startsLine (c == '\n') text = true from hline]

end Paragraph

/-- The paragraph with the check function, if it is the placeholder definition. -/
def replacedParagraph (tag : IdentityTag) (text : List Char) : List Char :=
  match placeholder? text with
  | some (left, after) => left ++ (checkValue tag ++ after)
  | none => text

/-- What stands in the check function behind the field. -/
def checkRest (tag : IdentityTag) : List Char :=
  (" === " ++ tag.binding ++ " ? $elm$core$Maybe$Just(value) : $elm$core$Maybe$Nothing").toList ++ [';']

theorem checkValue_eq (tag : IdentityTag) :
    checkValue tag = " = ".toList ++ ("value".toList ++ (" =>".toList ++
      (" value && value.".toList ++ (tag.field.toList ++ checkRest tag)))) := by
  have hstart : "value => value && value.".toList =
      "value".toList ++ (" =>".toList ++ " value && value.".toList) := by decide
  have hend : " ? $elm$core$Maybe$Just(value) : $elm$core$Maybe$Nothing;".toList =
      " ? $elm$core$Maybe$Just(value) : $elm$core$Maybe$Nothing".toList ++ [';'] := by decide
  unfold checkValue checkRest IdentityTag.checkFunction
  simp only [String.toList_append, hstart, hend, List.append_assoc]

theorem afterEquals?_spaced {c : Char} (hc : isBlank c = false) (rest : List Char) :
    afterEquals? (" = ".toList ++ c :: rest) = some (c :: rest) := by
  have hblank : isBlank ' ' = true := by decide
  have hspaced : afterBlanksThen? ['='] (" = ".toList ++ c :: rest) = some (' ' :: c :: rest) :=
    (reads_blanksThenMark (by decide) _ _).2
      ⟨[' ', '='], Language.mem_mul.2 ⟨[' '], mem_runs.2 (forall_of_all (by decide)), ['='], rfl, rfl⟩, rfl⟩
  rw [afterEquals?, hspaced]
  simp [hblank, hc]

theorem afterEquals?_checkValue (tag : IdentityTag) (after : List Char) :
    afterEquals? (checkValue tag ++ after) = some ("value".toList ++ (" =>".toList ++
      (" value && value.".toList ++ (tag.field.toList ++ (checkRest tag ++ after))))) := by
  rw [checkValue_eq]
  simp only [List.append_assoc]
  exact afterEquals?_spaced (by decide) _

theorem lineMentions_after {front : List Char} (hfront : ∀ c ∈ front, (c != '\n') = true)
    (field more : List Char) : lineMentions field (front ++ (field ++ more)) = true := by
  refine lineMentions_iff.2 ⟨front ++ field, Language.append_mem_mul hfront rfl, ?_⟩
  rw [← List.append_assoc]
  exact List.prefix_append _ _

section Replaced

variable {left right after : List Char} (hleft : left ∈ checkLeft)
include hleft

theorem afterCheckName?_append (value : List Char) : afterCheckName? (left ++ value) = some value :=
  (reads_afterCheckName? _ _).2 ⟨left, hleft, rfl⟩

theorem afterVariant?_check (value : List Char) : afterVariant? (left ++ value) = none := by
  cases hvariant : afterVariant? (left ++ value) with
  | none => rfl
  | some record =>
      have hnone := afterCheckName?_of_afterVariant? hvariant
      rw [afterCheckName?_append hleft] at hnone
      cases hnone

/-- The check function is one that looks for the field. -/
theorem isPatchedCheck_checkValue (tag : IdentityTag) (after : List Char) :
    isPatchedCheck tag.field.toList (left ++ (checkValue tag ++ after)) = true := by
  have harrow (rest : List Char) : afterBlanksThen? ['=', '>'] (" =>".toList ++ rest) = some rest :=
    (reads_afterBlanksThen? ⟨'=', ['>'], rfl, by decide⟩ _ _).2
      ⟨" =>".toList, Language.mem_mul.2 ⟨[' '], mem_runs.2 (forall_of_all (by decide)), _, rfl, rfl⟩, rfl⟩
  have hstart : afterPatchedStart? (left ++ (checkValue tag ++ after)) =
      some (" value && value.".toList ++ (tag.field.toList ++ (checkRest tag ++ after))) := by
    rw [afterPatchedStart?, afterCheckName?_append hleft]
    simp only [Option.bind_eq_bind, Option.bind_some, afterEquals?_checkValue,
      (reads_literal "value" _ _).2 ⟨_, rfl, rfl⟩, harrow]
  rw [isPatchedCheck_eq, hstart]
  exact lineMentions_after (forall_of_all (by decide)) _ _

/-- The check function is no placeholder. -/
theorem placeholder?_checkValue (tag : IdentityTag) (after : List Char) :
    placeholder? (left ++ (checkValue tag ++ after)) = none := by
  have hplaceholder : afterPlaceholder? (checkValue tag ++ after) = none := by
    rw [afterPlaceholder?, afterEquals?_checkValue]
    rfl
  rw [placeholder?, afterCheckName?_append hleft]
  simp only [Option.bind_eq_bind, Option.bind_some, hplaceholder]
  rfl

end Replaced

theorem firm_checkValue (htag : tag.Plain) (behind : List Char) (start : Bool) :
    Still behind start (checkValue tag) := by
  have hblank : isBlank ' ' = true := by decide
  have hfield : '\n' ∉ tag.field.toList := fun hc => absurd (htag.field _ hc) (by decide)
  have hbinding : '\n' ∉ tag.binding.toList := fun hc => absurd (htag.binding _ hc) (by decide)
  refine still_of_no_lineEnd ?_ fun _ => ?_
  · simp only [checkValue_eq, checkRest, String.toList_append, List.mem_append, hfield, hbinding]
    decide
  · rw [checkValue_eq]
    exact not_opens_of_isBlank hblank

theorem startsLine_checkValue (tag : IdentityTag) (start : Bool) :
    startsLine start (checkValue tag) = false := by
  rw [checkValue_eq, checkRest]
  simp only [← List.append_assoc]
  rw [startsLine_concat]
  rfl

theorem paragraph_replaced (htag : tag.Plain) (h : Paragraph text behind) :
    Paragraph (replacedParagraph tag text) behind := by
  unfold replacedParagraph
  split
  · next left after hfound =>
    obtain ⟨hleft, right, hright, rfl, -⟩ := placeholder?_eq_some.1 hfound
    refine h.replace (defines_checkLeft.inside _ hleft) ?_ (firm_checkValue htag) ?_
    · rw [startsLine_append, closes_placeholderRight right hright]
    · rw [startsLine_append, startsLine_checkValue]
  · exact h

theorem replacedCode_append (h : Paragraph text behind) (hne : text ≠ []) :
    replacedCode tag (text ++ behind) = replacedParagraph tag text ++
      if (placeholder? text).isSome then behind else replacedCode tag behind := by
  unfold replacedCode replacedParagraph
  rw [splitPlaceholder?_append h hne]
  cases placeholder? text with
  | some found => simp
  | none =>
      cases splitPlaceholder? true behind with
      | some found => simp
      | none => simp

end ElmSuite.Script
