import ElmSuite.Proofs.Script.Paragraph

/-!
The pass that tags the constructors of tests, paragraph by paragraph.  What it makes of a code is what
it makes of the first paragraph and of the rest, and inside a paragraph only the start matters.
-/

namespace ElmSuite.Script

open Text

variable {tag : IdentityTag} {text behind record : List Char} {start : Bool}

theorem afterVariant?_eq_none (h : ¬ Opens text) : afterVariant? text = none := by
  rw [Option.eq_none_iff_forall_ne_some]
  intro record hrecord
  obtain ⟨word, hword, rfl⟩ := (reads_afterVariant? _ _).1 hrecord
  exact h (defines_variantDefinition.opens word hword record)

theorem afterCheckName?_eq_none (h : ¬ Opens text) : afterCheckName? text = none := by
  rw [Option.eq_none_iff_forall_ne_some]
  intro value hvalue
  obtain ⟨word, hword, rfl⟩ := (reads_afterCheckName? _ _).1 hvalue
  exact h (defines_checkLeft.opens word hword value)

/-- A constructor of tests is no check function. -/
theorem afterCheckName?_of_afterVariant? (h : afterVariant? text = some record) :
    afterCheckName? text = none := by
  simp only [afterVariant?, Option.bind_eq_bind, Option.bind_eq_some_iff] at h
  obtain ⟨name, hname, rest, hrest, -⟩ := h
  rw [Elm.eq_append_of_after? hrest] at hname
  rw [afterCheckName?, hname]
  rfl

theorem placeholder?_eq_none (h : afterCheckName? text = none) : placeholder? text = none := by
  rw [placeholder?, h]
  rfl

theorem isPatchedCheck_eq_false {field : List Char} (h : afterCheckName? text = none) :
    isPatchedCheck field text = false := by
  rw [isPatchedCheck, h]
  rfl

/-! ### Constructors -/

theorem pieces_of_record (h : record? start text = some record) :
    pieces tag start text =
      .constructor (text.take (text.length - ((afterTag? tag record).getD record).length))
        (afterTag? tag record).isSome :: pieces tag false ((afterTag? tag record).getD record) := by
  cases text with
  | nil =>
      unfold record? at h
      split at h <;> cases h
  | cons c text =>
      rw [pieces]
      split
      · next record' hrecord' =>
        obtain rfl := Option.some.inj (hrecord'.symm.trans h)
        rfl
      · next hnone =>
        rw [hnone] at h
        cases h

/-- Code that starts with a constructor has one. -/
theorem constructorCount_ne_zero (tag : IdentityTag) (h : afterVariant? text = some record) :
    constructorCount tag text ≠ 0 := by
  have hrecord : record? true text = some record := h
  rw [constructorCount, pieces_of_record hrecord, List.countP_cons_of_pos rfl]
  exact Nat.succ_ne_zero _

theorem pieces_of_no_record {c : Char} (h : record? start (c :: text) = none) :
    pieces tag start (c :: text) = .char c :: pieces tag (c == '\n') text := by
  rw [pieces]
  split
  · next record hrecord =>
    rw [hrecord] at h
    cases h
  · rfl

/-- Where no line starts like a definition, there are characters only. -/
theorem pieces_of_still (tag : IdentityTag) (h : Still behind start text) :
    pieces tag start (text ++ behind) =
      text.map Piece.char ++ pieces tag (startsLine start text) behind := by
  induction text generalizing start with
  | nil => rfl
  | cons c text ih =>
      have hnone : record? start (c :: (text ++ behind)) = none := by
        unfold record?
        split
        · next hstart => exact afterVariant?_eq_none (h.1 hstart)
        · rfl
      rw [List.cons_append, pieces_of_no_record hnone, ih h.2]
      rfl

/-- The three kinds of paragraphs: those that do not define a constructor of tests, and those that
define one without or with the field of the tag. -/
inductive Kind (tag : IdentityTag) : List Char → Prop
  | other {text : List Char} (h : afterVariant? text = none) : Kind tag text
  | untagged {definition record : List Char} (hdefinition : definition ∈ variantDefinition)
      (hrecord : afterTag? tag record = none) : Kind tag (definition ++ record)
  | tagged {definition field rest : List Char} (hdefinition : definition ∈ variantDefinition)
      (hfield : field ∈ tagField tag) : Kind tag (definition ++ (field ++ rest))

theorem kind (htag : tag.Plain) (text : List Char) : Kind tag text := by
  cases hvariant : afterVariant? text with
  | none => exact .other hvariant
  | some record =>
      obtain ⟨definition, hdefinition, rfl⟩ := (reads_afterVariant? _ _).1 hvariant
      cases hrecord : afterTag? tag record with
      | none => exact .untagged hdefinition hrecord
      | some rest =>
          obtain ⟨field, hfield, rfl⟩ := (reads_afterTag? htag.field _ _).1 hrecord
          exact .tagged hdefinition hfield

theorem afterVariant?_append {definition : List Char} (h : definition ∈ variantDefinition)
    (record : List Char) : afterVariant? (definition ++ record) = some record :=
  (reads_afterVariant? _ _).2 ⟨definition, h, rfl⟩

theorem afterTag?_append (htag : tag.Plain) {field : List Char} (h : field ∈ tagField tag)
    (rest : List Char) : afterTag? tag (field ++ rest) = some rest :=
  (reads_afterTag? htag.field _ _).2 ⟨field, h, rfl⟩

section Paragraph

variable {definition field rest : List Char}

theorem afterVariant?_behind (h : Paragraph text behind) :
    afterVariant? (text ++ behind) = (afterVariant? text).map (· ++ behind) :=
  reads_append reads_afterVariant? defines_variantDefinition.inside h.parted

theorem pieces_of_other (h : Paragraph text behind) (hnone : afterVariant? text = none)
    (hne : text ≠ []) :
    pieces tag true (text ++ behind) = text.map Piece.char ++ pieces tag true behind := by
  obtain ⟨c, text, rfl⟩ := List.exists_cons_of_ne_nil hne
  have hrecord : record? true (c :: (text ++ behind)) = none := by
    have hbehind := afterVariant?_behind h
    rw [hnone] at hbehind
    exact hbehind
  rw [List.cons_append, pieces_of_no_record hrecord, pieces_of_still tag h.inside.2]
  rcases h.parted with rfl | ⟨hline, -⟩
  · simp [pieces]
  · rw [show startsLine (c == '\n') text = true from hline]
    rfl

theorem pieces_of_untagged (h : Paragraph (definition ++ record) behind)
    (hdefinition : definition ∈ variantDefinition) (hrecord : afterTag? tag record = none)
    (htag : tag.Plain) :
    pieces tag true (definition ++ record ++ behind) =
      .constructor definition false :: record.map Piece.char ++ pieces tag true behind := by
  have hstill := (still_append.1 h.inside).2
  have hparted : Parted (startsLine false definition) record behind := by
    have hwhole := h.parted
    rwa [Parted, startsLine_append] at hwhole
  have hnone : afterTag? tag (record ++ behind) = none := by
    rw [reads_append (reads_afterTag? htag.field) (fun word hword behind =>
      firm_tagField htag word hword behind _) hparted, hrecord]
    rfl
  have hwhole : record? true (definition ++ (record ++ behind)) = some (record ++ behind) :=
    afterVariant?_append hdefinition _
  rw [List.append_assoc, pieces_of_record hwhole, hnone]
  simp only [Option.getD_none, take_length_sub_length, Option.isSome_none]
  rw [pieces_of_still tag hstill.inside]
  unfold Parted at hparted
  rw [closes_variantDefinition definition hdefinition false] at hparted
  rcases hparted with rfl | ⟨hline, -⟩
  · simp [pieces]
  · rw [hline]
    rfl

theorem pieces_of_tagged (h : Paragraph (definition ++ (field ++ rest)) behind)
    (hdefinition : definition ∈ variantDefinition) (hfield : field ∈ tagField tag) (htag : tag.Plain) :
    pieces tag true (definition ++ (field ++ rest) ++ behind) =
      .constructor (definition ++ field) true :: rest.map Piece.char ++ pieces tag true behind := by
  have hstill := (still_append.1 (still_append.1 h.inside).2).2
  have hparted : Parted false rest behind := by
    have hwhole := h.parted
    rwa [Parted, startsLine_append, startsLine_append, closes_tagField field hfield] at hwhole
  have hwhole : record? true (definition ++ (field ++ (rest ++ behind))) =
      some (field ++ (rest ++ behind)) :=
    afterVariant?_append hdefinition _
  simp only [List.append_assoc]
  rw [pieces_of_record hwhole, afterTag?_append htag hfield, ← List.append_assoc]
  simp only [Option.getD_some, take_length_sub_length, Option.isSome_some]
  rw [pieces_of_still tag hstill.inside]
  rcases hparted with rfl | ⟨hline, -⟩
  · simp [pieces]
  · rw [hline]
    rfl

end Paragraph

/-! ### The pass that tags -/

/-- The code with the field of the tag in every constructor of tests. -/
def taggedCode (tag : IdentityTag) (code : List Char) : List Char :=
  (pieces tag true code).flatMap (Piece.taggedText tag)

/-- The paragraph with the field of the tag, if it defines a constructor of tests without it. -/
def taggedParagraph (tag : IdentityTag) (text : List Char) : List Char :=
  match afterVariant? text with
  | some record =>
      if (afterTag? tag record).isSome then text
      else text.take (text.length - record.length) ++ (tag.fieldText.toList ++ record)
  | none => text

theorem tagConstructors_eq (tag : IdentityTag) (code : List Char) :
    tagConstructors tag code = if constructorCount tag code = 0
      then .error (.patternNotFound "the Test variant definitions") else .ok (taggedCode tag code) :=
  rfl

theorem taggedParagraph_of_other (h : afterVariant? text = none) : taggedParagraph tag text = text := by
  rw [taggedParagraph, h]

theorem taggedParagraph_of_untagged {definition : List Char} (h : definition ∈ variantDefinition)
    (hrecord : afterTag? tag record = none) :
    taggedParagraph tag (definition ++ record) = definition ++ (tag.fieldText.toList ++ record) := by
  simp only [taggedParagraph, afterVariant?_append h, hrecord, take_length_sub_length]
  rfl

theorem taggedParagraph_of_tagged {definition field rest : List Char}
    (h : definition ∈ variantDefinition) (htag : tag.Plain) (hfield : field ∈ tagField tag) :
    taggedParagraph tag (definition ++ (field ++ rest)) = definition ++ (field ++ rest) := by
  simp only [taggedParagraph, afterVariant?_append h, afterTag?_append htag hfield]
  rfl

theorem flatMap_taggedText_chars (tag : IdentityTag) (text : List Char) :
    (text.map Piece.char).flatMap (Piece.taggedText tag) = text := by
  induction text with
  | nil => rfl
  | cons c text ih => exact congrArg (c :: ·) ih

theorem countP_isConstructor_chars (text : List Char) :
    (text.map Piece.char).countP Piece.isConstructor = 0 := by
  rw [List.countP_eq_zero]
  intro piece hpiece
  obtain ⟨c, -, rfl⟩ := List.mem_map.1 hpiece
  nofun

/-- The field that is put in front of a record is found there. -/
theorem exists_tagField (tag : IdentityTag) :
    ∃ field ∈ tagField tag, ∃ value, tag.fieldText.toList = field ++ value := by
  refine ⟨' ' :: (tag.field.toList ++ [':']), Language.mem_mul.2 ⟨[' '], ?_, _, rfl, rfl⟩,
    ' ' :: (tag.binding.toList ++ [',', ' ']), by simp [IdentityTag.fieldText]⟩
  exact mem_runs.2 (forall_of_all (by decide))

theorem firm_fieldText (htag : tag.Plain) (behind : List Char) (start : Bool) :
    Still behind start tag.fieldText.toList := by
  have hblank : isBlank ' ' = true := by decide
  have hchars : tag.fieldText.toList = ' ' :: (tag.field.toList ++ ':' :: ' ' ::
      (tag.binding.toList ++ [',', ' '])) := by
    simp [IdentityTag.fieldText]
  rw [hchars]
  refine still_of_no_lineEnd ?_ fun _ => not_opens_of_isBlank hblank
  have hfield : '\n' ∉ tag.field.toList := fun hc => absurd (htag.field _ hc) (by decide)
  have hbinding : '\n' ∉ tag.binding.toList := fun hc => absurd (htag.binding _ hc) (by decide)
  simp [hfield, hbinding]

section Paragraph

variable (htag : tag.Plain)
include htag

theorem taggedCode_append (h : Paragraph text behind) (hne : text ≠ []) :
    taggedCode tag (text ++ behind) = taggedParagraph tag text ++ taggedCode tag behind := by
  unfold taggedCode
  cases kind htag text with
  | other hnone =>
      rw [pieces_of_other h hnone hne, taggedParagraph_of_other hnone, List.flatMap_append,
        flatMap_taggedText_chars]
  | untagged hdefinition hrecord =>
      rw [pieces_of_untagged h hdefinition hrecord htag, taggedParagraph_of_untagged hdefinition hrecord,
        List.cons_append, List.flatMap_cons, List.flatMap_append, flatMap_taggedText_chars]
      simp only [Piece.taggedText, List.append_assoc]
  | tagged hdefinition hfield =>
      rw [pieces_of_tagged h hdefinition hfield htag, taggedParagraph_of_tagged hdefinition htag hfield,
        List.cons_append, List.flatMap_cons, List.flatMap_append, flatMap_taggedText_chars]
      simp only [Piece.taggedText, List.append_assoc]

theorem constructorCount_append (h : Paragraph text behind) (hne : text ≠ []) :
    constructorCount tag (text ++ behind) =
      (if (afterVariant? text).isSome then 1 else 0) + constructorCount tag behind := by
  unfold constructorCount
  cases kind htag text with
  | other hnone =>
      rw [pieces_of_other h hnone hne, List.countP_append, countP_isConstructor_chars, hnone]
      rfl
  | untagged hdefinition hrecord =>
      rw [pieces_of_untagged h hdefinition hrecord htag, List.cons_append, List.countP_cons,
        List.countP_append, countP_isConstructor_chars, afterVariant?_append hdefinition]
      simp [Piece.isConstructor, Nat.add_comm]
  | tagged hdefinition hfield =>
      rw [pieces_of_tagged h hdefinition hfield htag, List.cons_append, List.countP_cons,
        List.countP_append, countP_isConstructor_chars, afterVariant?_append hdefinition]
      simp [Piece.isConstructor, Nat.add_comm]

theorem paragraph_tagged (h : Paragraph text behind) : Paragraph (taggedParagraph tag text) behind := by
  cases kind htag text with
  | other hnone => rwa [taggedParagraph_of_other hnone]
  | @untagged definition record hdefinition hrecord =>
      rw [taggedParagraph_of_untagged hdefinition hrecord]
      rw [← List.nil_append record] at h
      refine h.replace (defines_variantDefinition.inside _ hdefinition) ?_ (firm_fieldText htag) ?_
      · rw [List.append_nil]
        exact closes_variantDefinition _ hdefinition _
      · rw [startsLine_append]
        have hchars : tag.fieldText.toList = ' ' :: (tag.field.toList ++ ':' :: ' ' ::
            (tag.binding.toList ++ [','])) ++ [' '] := by
          simp [IdentityTag.fieldText]
        rw [hchars, startsLine_concat]
        rfl
  | tagged hdefinition hfield => rwa [taggedParagraph_of_tagged hdefinition htag hfield]

/-- A paragraph that is tagged is left as it is. -/
theorem taggedParagraph_idem (text : List Char) :
    taggedParagraph tag (taggedParagraph tag text) = taggedParagraph tag text := by
  cases kind htag text with
  | other hnone => rw [taggedParagraph_of_other hnone, taggedParagraph_of_other hnone]
  | untagged hdefinition hrecord =>
      obtain ⟨field, hfield, value, heq⟩ := exists_tagField tag
      rw [taggedParagraph_of_untagged hdefinition hrecord, heq, List.append_assoc,
        taggedParagraph_of_tagged hdefinition htag hfield]
  | tagged hdefinition hfield =>
      rw [taggedParagraph_of_tagged hdefinition htag hfield,
        taggedParagraph_of_tagged hdefinition htag hfield]

end Paragraph

theorem isSome_afterVariant?_tagged (tag : IdentityTag) (text : List Char) :
    (afterVariant? (taggedParagraph tag text)).isSome = (afterVariant? text).isSome := by
  cases hvariant : afterVariant? text with
  | none => rw [taggedParagraph_of_other hvariant, hvariant]
  | some record =>
      obtain ⟨definition, hdefinition, rfl⟩ := (reads_afterVariant? _ _).1 hvariant
      cases hrecord : afterTag? tag record with
      | none =>
          rw [taggedParagraph_of_untagged hdefinition hrecord, afterVariant?_append hdefinition]
          rfl
      | some rest =>
          rw [taggedParagraph, hvariant]
          simp only [hrecord, Option.isSome_some, if_true, hvariant]

/-- Tagging a paragraph makes and removes no check function. -/
theorem taggedParagraph_eq_self_or (tag : IdentityTag) (text : List Char) :
    taggedParagraph tag text = text ∨
      afterCheckName? (taggedParagraph tag text) = none ∧ afterCheckName? text = none := by
  cases hvariant : afterVariant? text with
  | none => exact .inl (taggedParagraph_of_other hvariant)
  | some record =>
      obtain ⟨record', hrecord'⟩ := Option.isSome_iff_exists.1
        ((isSome_afterVariant?_tagged tag text).trans (by rw [hvariant]; rfl))
      exact .inr ⟨afterCheckName?_of_afterVariant? hrecord', afterCheckName?_of_afterVariant? hvariant⟩

theorem placeholder?_tagged (tag : IdentityTag) (text : List Char) :
    placeholder? (taggedParagraph tag text) = placeholder? text := by
  rcases taggedParagraph_eq_self_or tag text with heq | ⟨htagged, htext⟩
  · rw [heq]
  · rw [placeholder?_eq_none htagged, placeholder?_eq_none htext]

theorem isPatchedCheck_tagged (tag : IdentityTag) (field text : List Char) :
    isPatchedCheck field (taggedParagraph tag text) = isPatchedCheck field text := by
  rcases taggedParagraph_eq_self_or tag text with heq | ⟨htagged, htext⟩
  · rw [heq]
  · rw [isPatchedCheck_eq_false htagged, isPatchedCheck_eq_false htext]

end ElmSuite.Script
