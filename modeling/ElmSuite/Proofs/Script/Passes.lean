import ElmSuite.Proofs.Lists
import ElmSuite.Proofs.Script.Replacement

/-!
The whole patch, put together from its passes: each of them keeps what the other ones look for, and
the line that makes the symbol starts no definition.
-/

namespace ElmSuite.Script

open Text

variable {tag : IdentityTag} {text behind code out : List Char} {start : Bool}

/-! ### What the passes keep -/

theorem Opens.append (h : Opens text) (more : List Char) : Opens (text ++ more) := by
  obtain ⟨c, rest, rfl, hc⟩ := h
  exact ⟨c, rest ++ more, rfl, hc⟩

theorem taggedCode_nil (tag : IdentityTag) : taggedCode tag [] = [] := by
  simp [taggedCode, pieces]

theorem opens_taggedParagraph (htag : tag.Plain) (h : Opens text) : Opens (taggedParagraph tag text) := by
  cases kind htag text with
  | other hnone => rwa [taggedParagraph_of_other hnone]
  | untagged hdefinition hrecord =>
      rw [taggedParagraph_of_untagged hdefinition hrecord]
      exact defines_variantDefinition.opens _ hdefinition _
  | tagged hdefinition hfield => rwa [taggedParagraph_of_tagged hdefinition htag hfield]

theorem opens_replacedParagraph (h : Opens text) : Opens (replacedParagraph tag text) := by
  unfold replacedParagraph
  split
  · next left after hfound =>
    exact defines_checkLeft.opens _ (placeholder?_eq_some.1 hfound).1 _
  · exact h

theorem parted_taggedCode (htag : tag.Plain) (h : Parted start text behind) :
    Parted start text (taggedCode tag behind) := by
  refine h.imp (fun hnil => by rw [hnil, taggedCode_nil]) (And.imp_right fun hopens => ?_)
  cases behind using paragraph_induction with
  | nil => rwa [taggedCode_nil]
  | paragraph text behind hne hparagraph =>
      rw [taggedCode_append htag hparagraph hne]
      exact (opens_taggedParagraph htag ((opens_append hparagraph.parted hne).1 hopens)).append _

theorem parted_replacedCode (h : Parted start text behind) :
    Parted start text (replacedCode tag behind) := by
  refine h.imp (fun hnil => by rw [hnil]; rfl) (And.imp_right fun hopens => ?_)
  cases behind using paragraph_induction with
  | nil => exact hopens
  | paragraph text behind hne hparagraph =>
      rw [replacedCode_append hparagraph hne]
      exact (opens_replacedParagraph ((opens_append hparagraph.parted hne).1 hopens)).append _

theorem taggedParagraph_ne_nil (htag : tag.Plain) (hne : text ≠ []) : taggedParagraph tag text ≠ [] := by
  cases kind htag text with
  | other hnone => rwa [taggedParagraph_of_other hnone]
  | untagged hdefinition hrecord =>
      rw [taggedParagraph_of_untagged hdefinition hrecord]
      simp [IdentityTag.fieldText]
  | tagged hdefinition hfield => rwa [taggedParagraph_of_tagged hdefinition htag hfield]

theorem replacedParagraph_ne_nil (hne : text ≠ []) : replacedParagraph tag text ≠ [] := by
  unfold replacedParagraph
  split
  · simp [checkValue]
  · exact hne

/-- A code with its first paragraph tagged: that paragraph, and the rest tagged. -/
theorem paragraph_taggedCode (htag : tag.Plain) (h : Paragraph text behind) :
    Paragraph (taggedParagraph tag text) (taggedCode tag behind) :=
  (paragraph_tagged htag h).withBehind (parted_taggedCode htag (paragraph_tagged htag h).parted)

theorem paragraph_replacedCode (htag : tag.Plain) (h : Paragraph text behind) :
    Paragraph (replacedParagraph tag text)
      (if (placeholder? text).isSome then behind else replacedCode tag behind) := by
  have hreplaced := paragraph_replaced htag h
  split
  · exact hreplaced
  · exact hreplaced.withBehind (parted_replacedCode hreplaced.parted)

theorem taggedCode_idem (htag : tag.Plain) (code : List Char) :
    taggedCode tag (taggedCode tag code) = taggedCode tag code := by
  induction code using paragraph_induction with
  | nil => rw [taggedCode_nil, taggedCode_nil]
  | paragraph text behind hne h ih =>
      rw [taggedCode_append htag h hne, taggedCode_append htag (paragraph_taggedCode htag h)
        (taggedParagraph_ne_nil htag hne), taggedParagraph_idem htag, ih]

theorem constructorCount_taggedCode (htag : tag.Plain) (code : List Char) :
    constructorCount tag (taggedCode tag code) = constructorCount tag code := by
  induction code using paragraph_induction with
  | nil => rw [taggedCode_nil]
  | paragraph text behind hne h ih =>
      rw [taggedCode_append htag h hne, constructorCount_append htag (paragraph_taggedCode htag h)
        (taggedParagraph_ne_nil htag hne), constructorCount_append htag h hne, ih,
        isSome_afterVariant?_tagged]

theorem placeholderCount_taggedCode (htag : tag.Plain) (code : List Char) :
    placeholderCount true (taggedCode tag code) = placeholderCount true code := by
  induction code using paragraph_induction with
  | nil => rw [taggedCode_nil]
  | paragraph text behind hne h ih =>
      rw [taggedCode_append htag h hne, placeholderCount_append (paragraph_taggedCode htag h)
        (taggedParagraph_ne_nil htag hne), placeholderCount_append h hne, ih, placeholder?_tagged]

theorem hasPatchedCheck_taggedCode (htag : tag.Plain) (code : List Char) :
    hasPatchedCheck tag.field.toList true (taggedCode tag code) =
      hasPatchedCheck tag.field.toList true code := by
  induction code using paragraph_induction with
  | nil => rw [taggedCode_nil]
  | paragraph text behind hne h ih =>
      rw [taggedCode_append htag h hne, hasPatchedCheck_append (paragraph_taggedCode htag h) htag
        (taggedParagraph_ne_nil htag hne), hasPatchedCheck_append h htag hne, ih, isPatchedCheck_tagged]

theorem isSome_splitPlaceholder? (code : List Char) :
    (splitPlaceholder? true code).isSome = decide (placeholderCount true code ≠ 0) := by
  induction code using paragraph_induction with
  | nil => rfl
  | paragraph text behind hne h ih =>
      rw [splitPlaceholder?_append h hne, placeholderCount_append h hne]
      cases placeholder? text with
      | some found => simp
      | none => simp [ih]

theorem replacedCode_of_none {code : List Char} (h : placeholderCount true code = 0) :
    replacedCode tag code = code := by
  have hnone : splitPlaceholder? true code = none := by
    simpa [h] using isSome_splitPlaceholder? code
  rw [replacedCode, hnone]

/-- Tagging does not touch the check function. -/
theorem taggedParagraph_replaced (text : List Char) :
    taggedParagraph tag (replacedParagraph tag text) = replacedParagraph tag (taggedParagraph tag text) := by
  cases hfound : placeholder? text with
  | none =>
      have hself : replacedParagraph tag text = text := by rw [replacedParagraph, hfound]
      rw [hself, replacedParagraph, placeholder?_tagged, hfound]
  | some found =>
      obtain ⟨left, after⟩ := found
      obtain ⟨hleft, right, hright, rfl, hend⟩ := placeholder?_eq_some.1 hfound
      rw [taggedParagraph_of_other (afterVariant?_check hleft (right ++ after)), replacedParagraph, hfound]
      exact taggedParagraph_of_other (afterVariant?_check hleft _)

theorem taggedCode_replacedCode (htag : tag.Plain) (code : List Char) :
    taggedCode tag (replacedCode tag code) = replacedCode tag (taggedCode tag code) := by
  induction code using paragraph_induction with
  | nil => rw [taggedCode_nil]; exact taggedCode_nil tag
  | paragraph text behind hne h ih =>
      rw [replacedCode_append h hne, taggedCode_append htag (paragraph_replacedCode htag h)
        (replacedParagraph_ne_nil hne), taggedCode_append htag h hne,
        replacedCode_append (paragraph_taggedCode htag h) (taggedParagraph_ne_nil htag hne),
        taggedParagraph_replaced, placeholder?_tagged]
      split
      · rfl
      · rw [ih]

theorem isSome_afterVariant?_replaced (text : List Char) :
    (afterVariant? (replacedParagraph tag text)).isSome = (afterVariant? text).isSome := by
  unfold replacedParagraph
  split
  · next left after hfound =>
    obtain ⟨hleft, right, -, rfl, -⟩ := placeholder?_eq_some.1 hfound
    rw [afterVariant?_check hleft, afterVariant?_check hleft]
  · rfl

theorem constructorCount_replacedCode (htag : tag.Plain) (code : List Char) :
    constructorCount tag (replacedCode tag code) = constructorCount tag code := by
  induction code using paragraph_induction with
  | nil => rfl
  | paragraph text behind hne h ih =>
      rw [replacedCode_append h hne, constructorCount_append htag (paragraph_replacedCode htag h)
        (replacedParagraph_ne_nil hne), constructorCount_append htag h hne,
        isSome_afterVariant?_replaced]
      cases placeholder? text with
      | some found => rfl
      | none => exact congrArg _ ih

theorem placeholder?_replaced (text : List Char) : placeholder? (replacedParagraph tag text) = none := by
  unfold replacedParagraph
  split
  · next left after hfound =>
    exact placeholder?_checkValue (placeholder?_eq_some.1 hfound).1 tag after
  · next hnone => exact hnone

/-- One placeholder definition is replaced, if there is one. -/
theorem placeholderCount_replacedCode (htag : tag.Plain) (code : List Char) :
    placeholderCount true (replacedCode tag code) = placeholderCount true code - 1 := by
  induction code using paragraph_induction with
  | nil => rfl
  | paragraph text behind hne h ih =>
      rw [replacedCode_append h hne, placeholderCount_append (paragraph_replacedCode htag h)
        (replacedParagraph_ne_nil hne), placeholderCount_append h hne, placeholder?_replaced]
      cases placeholder? text with
      | some found => simp
      | none => simp [ih]

/-- Then there is a check function that looks for the field. -/
theorem hasPatchedCheck_replacedCode (htag : tag.Plain) (code : List Char)
    (h : placeholderCount true code ≠ 0) :
    hasPatchedCheck tag.field.toList true (replacedCode tag code) = true := by
  induction code using paragraph_induction with
  | nil => exact absurd rfl h
  | paragraph text behind hne hparagraph ih =>
      rw [placeholderCount_append hparagraph hne] at h
      rw [replacedCode_append hparagraph hne, hasPatchedCheck_append (paragraph_replacedCode htag hparagraph)
        htag (replacedParagraph_ne_nil hne), Bool.or_eq_true]
      cases hfound : placeholder? text with
      | some found =>
          obtain ⟨left, after⟩ := found
          refine .inl ?_
          rw [replacedParagraph, hfound]
          exact isPatchedCheck_checkValue (placeholder?_eq_some.1 hfound).1 tag after
      | none =>
          rw [hfound] at h
          exact .inr (ih (by simpa using h))

/-! ### The line that makes the symbol -/

theorem allocationLine_eq (tag : IdentityTag) :
    ∃ more, tag.allocationLine.toList = 'c' :: more := by
  refine ⟨"onst ".toList ++ (tag.binding.toList ++ (" = Symbol('".toList ++
    (tag.description.toList ++ "');".toList))), ?_⟩
  simp [IdentityTag.allocationLine]

theorem lineEnd_not_mem_allocationLine (htag : tag.Plain) : '\n' ∉ tag.allocationLine.toList := by
  have hbinding : '\n' ∉ tag.binding.toList := fun hc => absurd (htag.binding _ hc) (by decide)
  have hdescription : '\n' ∉ tag.description.toList := fun hc => (htag.description _ hc).1 rfl
  simp [IdentityTag.allocationLine, hbinding, hdescription]

theorem not_opens_of_prefix (h : tag.allocationLine.toList <+: text) : ¬ Opens text := by
  obtain ⟨more, hline⟩ := allocationLine_eq tag
  obtain ⟨rest, rfl⟩ := h
  rw [hline]
  rintro ⟨c, rest', heq, -⟩
  cases heq

/-- The line stands in the first paragraph, if at all. -/
theorem allocationLine_prefix_append (htag : tag.Plain) (h : Paragraph text behind) (hne : text ≠ []) :
    tag.allocationLine.toList <+: text ++ behind ↔ tag.allocationLine.toList <+: text := by
  refine ⟨fun hprefix => ?_, fun hprefix => hprefix.trans (List.prefix_append _ _)⟩
  rcases List.prefix_or_prefix_of_prefix hprefix (List.prefix_append text behind) with hline | hline
  · exact hline
  · rcases h.endsLine hne with rfl | hends
    · simpa using hprefix
    · obtain ⟨front, c, rfl⟩ := (List.eq_nil_or_concat' text).resolve_left hne
      rw [startsLine_concat, beq_iff_eq] at hends
      refine absurd (hline.subset ?_) (lineEnd_not_mem_allocationLine htag)
      simp [hends]

theorem allocationLine_prefix_taggedParagraph (htag : tag.Plain) (text : List Char) :
    tag.allocationLine.toList <+: taggedParagraph tag text ↔ tag.allocationLine.toList <+: text := by
  cases kind htag text with
  | other hnone => rw [taggedParagraph_of_other hnone]
  | untagged hdefinition hrecord =>
      have hopens := defines_variantDefinition.opens _ hdefinition
      rw [taggedParagraph_of_untagged hdefinition hrecord]
      exact iff_of_false (fun h => not_opens_of_prefix h (hopens _)) fun h =>
        not_opens_of_prefix h (hopens _)
  | tagged hdefinition hfield => rw [taggedParagraph_of_tagged hdefinition htag hfield]

theorem allocationLine_prefix_replacedParagraph (text : List Char) :
    tag.allocationLine.toList <+: replacedParagraph tag text ↔ tag.allocationLine.toList <+: text := by
  unfold replacedParagraph
  split
  · next left after hfound =>
    obtain ⟨hleft, right, -, rfl, -⟩ := placeholder?_eq_some.1 hfound
    have hopens := defines_checkLeft.opens _ hleft
    exact iff_of_false (fun h => not_opens_of_prefix h (hopens _)) fun h =>
      not_opens_of_prefix h (hopens _)
  · rfl

/-- Tagging neither puts the line in front nor takes it away. -/
theorem allocationLine_prefix_taggedCode (htag : tag.Plain) (code : List Char) :
    tag.allocationLine.toList <+: taggedCode tag code ↔ tag.allocationLine.toList <+: code := by
  cases code using paragraph_induction with
  | nil => rw [taggedCode_nil]
  | paragraph text behind hne h =>
      rw [taggedCode_append htag h hne, allocationLine_prefix_append htag (paragraph_taggedCode htag h)
        (taggedParagraph_ne_nil htag hne), allocationLine_prefix_append htag h hne,
        allocationLine_prefix_taggedParagraph htag]

/-- Neither does the pass that replaces the placeholder. -/
theorem allocationLine_prefix_replacedCode (htag : tag.Plain) (code : List Char) :
    tag.allocationLine.toList <+: replacedCode tag code ↔ tag.allocationLine.toList <+: code := by
  cases code using paragraph_induction with
  | nil => rfl
  | paragraph text behind hne h =>
      rw [replacedCode_append h hne, allocationLine_prefix_append htag (paragraph_replacedCode htag h)
        (replacedParagraph_ne_nil hne), allocationLine_prefix_append htag h hne,
        allocationLine_prefix_replacedParagraph]

theorem allocationLine_prefix_passes (htag : tag.Plain) (code : List Char) :
    tag.allocationLine.toList <+: replacedCode tag (taggedCode tag code) ↔
      tag.allocationLine.toList <+: code :=
  (allocationLine_prefix_replacedCode htag _).trans (allocationLine_prefix_taggedCode htag code)

/-- The line with its end, as it is put in front. -/
def allocation (tag : IdentityTag) : List Char :=
  tag.allocationLine.toList ++ ['\n']

theorem still_allocation (htag : tag.Plain) (behind : List Char) (start : Bool) :
    Still behind start (allocation tag) := by
  refine still_append.2 ⟨?_, fun _ => not_opens_of_isBlank (by decide), trivial⟩
  exact still_of_no_lineEnd (lineEnd_not_mem_allocationLine htag) fun _ =>
    not_opens_of_prefix (List.prefix_append _ _)

theorem startsLine_allocation (tag : IdentityTag) (start : Bool) :
    startsLine start (allocation tag) = true :=
  startsLine_concat start _ _

theorem allocateSymbol_eq (tag : IdentityTag) (code : List Char) :
    allocateSymbol tag code =
      (if tag.allocationLine.toList.isPrefixOf code then [] else allocation tag) ++ code := by
  unfold allocateSymbol allocation
  dsimp only
  split
  · rfl
  · rw [List.append_assoc, List.singleton_append]

theorem taggedCode_allocation (htag : tag.Plain) (code : List Char) :
    taggedCode tag (allocation tag ++ code) = allocation tag ++ taggedCode tag code := by
  rw [taggedCode, pieces_of_still tag (still_allocation htag code true), startsLine_allocation,
    List.flatMap_append, flatMap_taggedText_chars]
  rfl

theorem replacedCode_allocation (htag : tag.Plain) (code : List Char) :
    replacedCode tag (allocation tag ++ code) = allocation tag ++ replacedCode tag code := by
  rw [replacedCode, splitPlaceholder?_of_still (still_allocation htag code true), startsLine_allocation,
    replacedCode]
  cases splitPlaceholder? true code with
  | none => rfl
  | some found => exact List.append_assoc _ _ _

theorem constructorCount_allocation (htag : tag.Plain) (code : List Char) :
    constructorCount tag (allocation tag ++ code) = constructorCount tag code := by
  rw [constructorCount, pieces_of_still tag (still_allocation htag code true), startsLine_allocation,
    List.countP_append, countP_isConstructor_chars, Nat.zero_add]
  rfl

theorem placeholderCount_allocation (htag : tag.Plain) (code : List Char) :
    placeholderCount true (allocation tag ++ code) = placeholderCount true code := by
  rw [placeholderCount_of_still (still_allocation htag code true), startsLine_allocation]

theorem hasPatchedCheck_allocation (htag : tag.Plain) (field code : List Char) :
    hasPatchedCheck field true (allocation tag ++ code) = hasPatchedCheck field true code := by
  rw [hasPatchedCheck_of_still (still_allocation htag code true), startsLine_allocation]

/-- What the patch makes of a code. -/
theorem patch_eq (htag : tag.Plain) (code : List Char) :
    patch tag code =
      if constructorCount tag code = 0 then .error (.patternNotFound "the Test variant definitions")
      else if placeholderCount true code ≠ 0 ∨ hasPatchedCheck tag.field.toList true code = true then
        .ok (allocateSymbol tag (replacedCode tag (taggedCode tag code)))
      else .error (.patternNotFound "the check function definition") := by
  rw [patch, tagConstructors_eq]
  split
  · rfl
  · rw [ok_bind, replaceCheck_eq, isSome_splitPlaceholder?, placeholderCount_taggedCode htag,
      hasPatchedCheck_taggedCode htag]
    simp only [Bool.or_eq_true, decide_eq_true_eq]
    split <;> rfl

/-- Code that a patch has been made of: only further placeholder definitions are left to replace. -/
structure Patched (tag : IdentityTag) (code : List Char) : Prop where
  constructors : constructorCount tag code ≠ 0
  tagged : taggedCode tag code = code
  check : hasPatchedCheck tag.field.toList true code = true
  symbol : tag.allocationLine.toList <+: code

theorem patch_eq_ok (htag : tag.Plain) :
    patch tag code = .ok out ↔ constructorCount tag code ≠ 0 ∧
      (placeholderCount true code ≠ 0 ∨ hasPatchedCheck tag.field.toList true code = true) ∧
        allocateSymbol tag (replacedCode tag (taggedCode tag code)) = out := by
  rw [patch_eq htag]
  split
  · next hnone => simp [hnone]
  · next hsome =>
    split
    · next hcheck => simp [hsome, hcheck]
    · next hno => simp [hno]

theorem patched_allocation_iff (htag : tag.Plain) (code : List Char) :
    Patched tag (allocation tag ++ code) ↔ constructorCount tag code ≠ 0 ∧
      taggedCode tag code = code ∧ hasPatchedCheck tag.field.toList true code = true := by
  constructor
  · intro h
    refine ⟨?_, ?_, ?_⟩
    · have hcount := h.constructors
      rwa [constructorCount_allocation htag] at hcount
    · have hcode := h.tagged
      rwa [taggedCode_allocation htag, List.append_cancel_left_eq] at hcode
    · have hcheck := h.check
      rwa [hasPatchedCheck_allocation htag] at hcheck
  · rintro ⟨hcount, hcode, hcheck⟩
    exact {
      constructors := by rwa [constructorCount_allocation htag]
      tagged := by rw [taggedCode_allocation htag, hcode]
      check := by rwa [hasPatchedCheck_allocation htag]
      symbol := by
        unfold allocation
        rw [List.append_assoc]
        exact List.prefix_append _ _ }

/-- What a patch makes of a code. -/
theorem patched_of_patch (htag : tag.Plain) (h : patch tag code = .ok out) :
    Patched tag out ∧ placeholderCount true out = placeholderCount true code - 1 := by
  obtain ⟨hcount, hcheck, rfl⟩ := (patch_eq_ok htag).1 h
  have hconstructors : constructorCount tag (replacedCode tag (taggedCode tag code)) ≠ 0 := by
    rwa [constructorCount_replacedCode htag, constructorCount_taggedCode htag]
  have htagged : taggedCode tag (replacedCode tag (taggedCode tag code)) =
      replacedCode tag (taggedCode tag code) := by
    rw [taggedCode_replacedCode htag, taggedCode_idem htag]
  have hplaceholders : placeholderCount true (replacedCode tag (taggedCode tag code)) =
      placeholderCount true code - 1 := by
    rw [placeholderCount_replacedCode htag, placeholderCount_taggedCode htag]
  have hpatched : hasPatchedCheck tag.field.toList true (replacedCode tag (taggedCode tag code)) = true := by
    by_cases hnone : placeholderCount true code = 0
    · rw [replacedCode_of_none (by rwa [placeholderCount_taggedCode htag]),
        hasPatchedCheck_taggedCode htag]
      exact hcheck.resolve_left (not_not_intro hnone)
    · exact hasPatchedCheck_replacedCode htag _ (by rwa [placeholderCount_taggedCode htag])
  rw [allocateSymbol_eq]
  split
  · next hline =>
    exact ⟨⟨hconstructors, htagged, hpatched, List.isPrefixOf_iff_prefix.1 hline⟩, hplaceholders⟩
  · rw [patched_allocation_iff htag, placeholderCount_allocation htag]
    exact ⟨⟨hconstructors, htagged, hpatched⟩, hplaceholders⟩

theorem plain_default : ({} : IdentityTag).Plain where
  binding := forall_of_all (by decide)
  field := forall_of_all (by decide)
  description := forall_of_all (by decide)

/-- A script with a constructor of tests and the placeholder definition. -/
def smallScript : List Char :=
  "var ".toList ++ variantLead ++ "Only = function (a) \x7b return \x7b a: a \x7d; \x7d;\n".toList ++
    "var ".toList ++ checkName ++ " = ".toList ++ placeholderName ++ ";\n".toList

theorem smallScript_spec :
    constructorCount {} smallScript ≠ 0 ∧ placeholderCount true smallScript = 1 ∧
      '\r' ∉ smallScript := by
  have hscript : (afterVariant? smallScript).isSome = true ∧ placeholderCount true smallScript = 1 ∧
      '\r' ∉ smallScript := by
    decide +kernel
  obtain ⟨record, hrecord⟩ := Option.isSome_iff_exists.1 hscript.1
  exact ⟨constructorCount_ne_zero _ hrecord, hscript.2⟩

end ElmSuite.Script
