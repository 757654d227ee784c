import ElmSuite.Proofs.Script.Passes

/-!
The patch as edits of its input.  A definition occurs at the start of a line; the edits that are due
are told from the occurrences alone, and the patch makes exactly them.
-/

namespace ElmSuite.Script

open Text

variable {tag : IdentityTag} {words : Language Char}
  {code text behind before word after left right tail : List Char}

/-! ### Occurrences -/

/-- A line starts behind a text. -/
def LineStart (before : List Char) : Prop :=
  before = [] ∨ ∃ front, before = front ++ ['\n']

theorem lineStart_iff : LineStart before ↔ startsLine true before = true := by
  rcases List.eq_nil_or_concat' before with rfl | ⟨front, c, rfl⟩
  · simp [LineStart, startsLine]
  · rw [startsLine_concat, beq_iff_eq]
    constructor
    · rintro (hnil | ⟨front', heq⟩)
      · simp at hnil
      · simpa using (List.append_inj' heq rfl).2
    · rintro rfl
      exact .inr ⟨front, rfl⟩

/-- A word of a language at the start of a line of a code. -/
structure Occurs (words : Language Char) (code before word after : List Char) : Prop where
  text : code = before ++ (word ++ after)
  line : LineStart before
  mem : word ∈ words

/-- The placeholder definition at the start of a line of a code. -/
structure PlaceholderOccurs (code before left right after : List Char) : Prop where
  text : code = before ++ (left ++ (right ++ after))
  line : LineStart before
  left_mem : left ∈ checkLeft
  right_mem : right ∈ placeholderRight
  ends : EndsLine after

/-- What starts like a definition at a line start stands at the start of a paragraph. -/
theorem Paragraph.before_cases (h : Paragraph text behind) (hline : LineStart before)
    (hopens : Opens tail) (heq : text ++ behind = before ++ tail) :
    before = [] ∨ ∃ rest, before = text ++ rest ∧ behind = rest ++ tail ∧ LineStart rest := by
  by_cases hbefore : before = []
  · exact .inl hbefore
  right
  have hstart : startsLine false before = true := by
    rw [startsLine_of_ne_nil hbefore false true]
    exact lineStart_iff.1 hline
  rcases List.append_eq_append_iff.1 heq with ⟨rest, rfl, rfl⟩ | ⟨left, rfl, rfl⟩
  · refine ⟨rest, rfl, rfl, ?_⟩
    rcases List.eq_nil_or_concat' rest with rfl | ⟨front, c, rfl⟩
    · exact .inl rfl
    · rw [startsLine_append, startsLine_concat] at hstart
      rw [lineStart_iff, startsLine_concat, hstart]
  · -- The line would start inside the paragraph.
    cases left with
    | nil => exact ⟨[], by simp, rfl, .inl rfl⟩
    | cons c left => exact absurd hopens ((still_append.1 h.inside).2.1 hstart)

theorem Paragraph.lineStart_append (h : Paragraph (text) (before ++ tail)) (hne : text ≠ [])
    (hline : LineStart before) (hopens : Opens tail) : LineStart (text ++ before) := by
  rw [lineStart_iff, startsLine_append]
  rcases List.eq_nil_or_concat' before with rfl | ⟨front, c, rfl⟩
  · rcases h.endsLine hne with hnil | hends
    · obtain ⟨c, rest, rfl, -⟩ := hopens
      cases hnil
    · exact hends
  · rw [lineStart_iff, startsLine_concat] at hline
    rw [startsLine_concat, hline]

theorem occurs_append (hwords : Defines words) (h : Paragraph text behind) (hne : text ≠ []) :
    Occurs words (text ++ behind) before word after ↔
      (before = [] ∧ word ∈ words ∧ ∃ rest, text = word ++ rest ∧ after = rest ++ behind) ∨
        ∃ rest, before = text ++ rest ∧ Occurs words behind rest word after := by
  constructor
  · rintro ⟨htext, hline, hmem⟩
    rcases h.before_cases hline (hwords.opens word hmem after) htext with rfl | ⟨rest, rfl, rfl, hrest⟩
    · exact .inl ⟨rfl, hmem, exists_left_of_still (hwords.inside word hmem) h.parted htext⟩
    · exact .inr ⟨rest, rfl, rfl, hrest, hmem⟩
  · rintro (⟨rfl, hmem, rest, rfl, rfl⟩ | ⟨rest, rfl, rfl, hline, hmem⟩)
    · exact ⟨List.append_assoc _ _ _, .inl rfl, hmem⟩
    · have hstart := h.lineStart_append hne hline (hwords.opens word hmem after)
      exact ⟨(List.append_assoc _ _ _).symm, hstart, hmem⟩

theorem placeholderOccurs_append (h : Paragraph text behind) (hne : text ≠ []) :
    PlaceholderOccurs (text ++ behind) before left right after ↔
      (before = [] ∧ left ∈ checkLeft ∧ right ∈ placeholderRight ∧
        ∃ rest, text = left ++ (right ++ rest) ∧ after = rest ++ behind ∧ EndsLine rest) ∨
        ∃ rest, before = text ++ rest ∧ PlaceholderOccurs behind rest left right after := by
  have hopens {left : List Char} (hleft : left ∈ checkLeft) := defines_checkLeft.opens left hleft
  constructor
  · rintro ⟨htext, hline, hleft, hright, hend⟩
    rcases h.before_cases hline (hopens hleft _) htext with rfl | ⟨rest, rfl, rfl, hrest⟩
    · have hbehind := placeholder?_behind h
      rw [htext, List.nil_append, placeholder?_eq_some.2 ⟨hleft, right, hright, rfl, hend⟩] at hbehind
      obtain ⟨⟨left', rest⟩, hfound, heq⟩ := Option.map_eq_some_iff.1 hbehind.symm
      obtain ⟨rfl, rfl⟩ := Prod.mk.inj heq
      obtain ⟨-, right', hright', rfl, hend'⟩ := placeholder?_eq_some.1 hfound
      obtain rfl : right' = right := by simpa using htext
      exact .inl ⟨rfl, hleft, hright, rest, rfl, rfl, hend'⟩
    · exact .inr ⟨rest, rfl, rfl, hrest, hleft, hright, hend⟩
  · rintro (⟨rfl, hleft, hright, rest, rfl, rfl, hend⟩ | ⟨rest, rfl, rfl, hline, hleft, hright, hend⟩)
    · have hfound := placeholder?_behind h
      rw [placeholder?_eq_some.2 ⟨hleft, right, hright, rfl, hend⟩] at hfound
      obtain ⟨-, right', -, -, hend'⟩ := placeholder?_eq_some.1 hfound
      exact ⟨by simp, .inl rfl, hleft, hright, hend'⟩
    · exact ⟨by simp, h.lineStart_append hne hline (hopens hleft _), hleft, hright, hend⟩

theorem not_occurs_nil (hwords : Defines words) : ¬ Occurs words [] before word after := by
  intro h
  obtain ⟨c, rest, heq, -⟩ := hwords.opens word h.mem after
  have hnil := (List.append_eq_nil_iff.1 h.text.symm).2
  rw [hnil] at heq
  cases heq

theorem exists_occurs_append (hwords : Defines words) (h : Paragraph text behind) (hne : text ≠ []) :
    (∃ before word after, Occurs words (text ++ behind) before word after) ↔
      (∃ word ∈ words, word <+: text) ∨ ∃ before word after, Occurs words behind before word after := by
  simp only [occurs_append hwords h hne]
  constructor
  · rintro ⟨before, word, after, ⟨-, hmem, rest, rfl, -⟩ | ⟨rest, -, hoccurs⟩⟩
    · exact .inl ⟨word, hmem, List.prefix_append _ _⟩
    · exact .inr ⟨rest, word, after, hoccurs⟩
  · rintro (⟨word, hmem, rest, rfl⟩ | ⟨before, word, after, hoccurs⟩)
    · exact ⟨[], word, rest ++ behind, .inl ⟨rfl, hmem, rest, rfl, rfl⟩⟩
    · exact ⟨text ++ before, word, after, .inr ⟨before, rfl, hoccurs⟩⟩

theorem isSome_afterVariant?_iff (text : List Char) :
    (afterVariant? text).isSome = true ↔ ∃ word ∈ variantDefinition, word <+: text := by
  rw [Option.isSome_iff_exists]
  constructor
  · rintro ⟨record, hrecord⟩
    obtain ⟨word, hword, rfl⟩ := (reads_afterVariant? _ _).1 hrecord
    exact ⟨word, hword, List.prefix_append _ _⟩
  · rintro ⟨word, hword, record, rfl⟩
    exact ⟨record, afterVariant?_append hword record⟩

theorem constructorCount_ne_zero_iff (htag : tag.Plain) (code : List Char) :
    constructorCount tag code ≠ 0 ↔
      ∃ before word after, Occurs variantDefinition code before word after := by
  induction code using paragraph_induction with
  | nil =>
      refine iff_of_false (by simp [constructorCount, pieces]) ?_
      rintro ⟨before, word, after, h⟩
      exact not_occurs_nil defines_variantDefinition h
  | paragraph text behind hne h ih =>
      rw [constructorCount_append htag h hne, exists_occurs_append defines_variantDefinition h hne, ← ih,
        ← isSome_afterVariant?_iff]
      split <;> simp_all

theorem hasPatchedCheck_iff (htag : tag.Plain) (code : List Char) :
    hasPatchedCheck tag.field.toList true code = true ↔
      ∃ before word after, Occurs (patchedStart * mention tag.field.toList) code before word after := by
  induction code using paragraph_induction with
  | nil =>
      refine iff_of_false (by simp [hasPatchedCheck]) ?_
      rintro ⟨before, word, after, h⟩
      exact not_occurs_nil (defines_patchedCheck htag) h
  | paragraph text behind hne h ih =>
      rw [hasPatchedCheck_append h htag hne, Bool.or_eq_true, isPatchedCheck_iff,
        exists_occurs_append (defines_patchedCheck htag) h hne, ih]

theorem placeholderCount_ne_zero_iff (code : List Char) :
    placeholderCount true code ≠ 0 ↔
      ∃ before left right after, PlaceholderOccurs code before left right after := by
  induction code using paragraph_induction with
  | nil =>
      refine iff_of_false (by simp [placeholderCount]) ?_
      rintro ⟨before, left, right, after, h⟩
      exact not_occurs_nil defines_checkLeft ⟨h.text, h.line, h.left_mem⟩
  | paragraph text behind hne h ih =>
      simp only [placeholderOccurs_append h hne]
      rw [placeholderCount_append h hne]
      cases hfound : placeholder? text with
      | some found =>
          obtain ⟨hleft, right, hright, heq, hend⟩ := placeholder?_eq_some.1 hfound
          exact iff_of_true (by simp)
            ⟨[], found.1, right, _, .inl ⟨rfl, hleft, hright, found.2, heq, rfl, hend⟩⟩
      | none =>
          simp only [Option.isSome_none, Bool.false_eq_true, if_false, Nat.zero_add, ih]
          constructor
          · rintro ⟨before, left, right, after, hoccurs⟩
            exact ⟨text ++ before, left, right, after, .inr ⟨before, rfl, hoccurs⟩⟩
          · rintro ⟨before, left, right, after,
              ⟨-, hleft, hright, rest, heq, -, hend⟩ | ⟨rest, -, hoccurs⟩⟩
            · rw [placeholder?_eq_some.2 ⟨hleft, right, hright, heq, hend⟩] at hfound
              cases hfound
            · exact ⟨rest, left, right, after, hoccurs⟩

/-- Tagged code has no constructor of tests without the field. -/
theorem tagged_of_occurs (htag : tag.Plain)
    (h : Occurs variantDefinition (taggedCode tag code) before word after) :
    ∃ field ∈ tagField tag, field <+: after := by
  induction code using paragraph_induction generalizing before with
  | nil =>
      rw [taggedCode_nil] at h
      exact absurd h (not_occurs_nil defines_variantDefinition)
  | paragraph text behind hne hparagraph ih =>
      rw [taggedCode_append htag hparagraph hne] at h
      rcases (occurs_append defines_variantDefinition (paragraph_taggedCode htag hparagraph)
        (taggedParagraph_ne_nil htag hne)).1 h with ⟨-, hmem, rest, heq, rfl⟩ | ⟨rest, -, h⟩
      · cases hrecord : afterTag? tag rest with
        | none =>
            have hself := taggedParagraph_idem htag text
            rw [heq, taggedParagraph_of_untagged hmem hrecord] at hself
            have hlength := congrArg List.length hself
            simp [IdentityTag.fieldText] at hlength
            omega
        | some value =>
            obtain ⟨field, hfield, rfl⟩ := (reads_afterTag? htag.field _ _).1 hrecord
            exact ⟨field, hfield, by rw [List.append_assoc]; exact List.prefix_append _ _⟩
      · exact ih h

/-! ### Edits -/

/-- An edit of a text: characters at a place that make way for others. -/
structure Edit where
  place : Nat
  removed : Nat
  added : List Char

/-- The text with edits made from left to right; its first character is at the place `start`. -/
def edited : Nat → List Edit → List Char → List Char
  | _, [], text => text
  | start, edit :: edits, text =>
      text.take (edit.place - start) ++ edit.added ++
        edited (edit.place + edit.removed) edits (text.drop (edit.place + edit.removed - start))

/-- Edits from left to right that do not touch each other. -/
def Ordered (edits : List Edit) : Prop :=
  edits.Pairwise fun first second => first.place + first.removed < second.place

/-- The field of the tag is put into every constructor of tests that does not have it. -/
inductive FieldDue (tag : IdentityTag) (code : List Char) : Edit → Prop
  | intro {before word after : List Char} (hoccurs : Occurs variantDefinition code before word after)
      (huntagged : ∀ field ∈ tagField tag, ¬ field <+: after) :
      FieldDue tag code ⟨(before ++ word).length, 0, tag.fieldText.toList⟩

/-- The value of the first placeholder definition makes way for the check function. -/
inductive CheckDue (tag : IdentityTag) (code : List Char) : Edit → Prop
  | intro {before left right after : List Char}
      (hoccurs : PlaceholderOccurs code before left right after)
      (hfirst : ∀ before' left' right' after', PlaceholderOccurs code before' left' right' after' →
        before.length ≤ before'.length) :
      CheckDue tag code ⟨(before ++ left).length, right.length, " = ".toList ++ tag.checkFunction.toList⟩

/-- The same edit in a text that stands behind some characters. -/
def Edit.shift (count : Nat) (edit : Edit) : Edit :=
  { edit with place := count + edit.place }

theorem edited_shift (count start : Nat) (edits : List Edit) (text : List Char) :
    edited (count + start) (edits.map (Edit.shift count)) text = edited start edits text := by
  induction edits generalizing start text with
  | nil => rfl
  | cons edit edits ih =>
      have hnext : count + edit.place + edit.removed = count + (edit.place + edit.removed) := by omega
      simp only [List.map_cons, edited, Edit.shift, hnext, Nat.add_sub_add_left, ih]

/-- Edits behind a text leave it as it is. -/
theorem edited_append {edits : List Edit} {start : Nat} (text rest : List Char)
    (h : ∀ edit ∈ edits, start + text.length ≤ edit.place) :
    edited start edits (text ++ rest) = text ++ edited (start + text.length) edits rest := by
  cases edits with
  | nil => rfl
  | cons edit edits =>
      have hplace := h edit List.mem_cons_self
      have htake : edit.place - start = text.length + (edit.place - (start + text.length)) := by omega
      have hdrop : edit.place + edit.removed - start =
          text.length + (edit.place + edit.removed - (start + text.length)) := by omega
      simp only [edited, htake, hdrop, List.take_length_add_append, List.drop_length_add_append,
        List.append_assoc]

theorem edited_append_map_shift (text behind : List Char) (edits : List Edit) :
    edited 0 (edits.map (Edit.shift text.length)) (text ++ behind) = text ++ edited 0 edits behind := by
  have hplace : ∀ edit ∈ edits.map (Edit.shift text.length), 0 + text.length ≤ edit.place := by
    intro edit hedit
    obtain ⟨edit, -, rfl⟩ := List.mem_map.1 hedit
    simp [Edit.shift]
  rw [edited_append text behind hplace, Nat.zero_add]
  exact congrArg _ (edited_shift text.length 0 edits behind)

/-- An edit of a paragraph, and the edits of what is behind it. -/
theorem edited_cons_map_shift (front old new back behind : List Char) (edits : List Edit) :
    edited 0 (⟨front.length, old.length, new⟩ ::
        edits.map (Edit.shift (front ++ (old ++ back)).length)) (front ++ (old ++ back) ++ behind) =
      front ++ (new ++ back) ++ edited 0 edits behind := by
  have hplace : ∀ edit ∈ edits.map (Edit.shift (front ++ (old ++ back)).length),
      front.length + old.length + back.length ≤ edit.place := by
    intro edit hedit
    obtain ⟨edit, -, rfl⟩ := List.mem_map.1 hedit
    simp [Edit.shift]
    omega
  have hlength : front.length + old.length + back.length = (front ++ (old ++ back)).length + 0 := by
    simp; omega
  have hdrop : (front ++ (old ++ (back ++ behind))).drop (front.length + old.length) = back ++ behind := by
    rw [← List.append_assoc, ← List.length_append, List.drop_left]
  simp only [edited, List.append_assoc, Nat.sub_zero, List.take_left, hdrop]
  rw [edited_append back behind hplace, hlength, edited_shift]

/-! ### Edits of a paragraph and of what is behind it -/

theorem afterTag?_eq_none_iff (htag : tag.Plain) {record : List Char} :
    afterTag? tag record = none ↔ ∀ field ∈ tagField tag, ¬ field <+: record := by
  rw [Option.eq_none_iff_forall_ne_some]
  constructor
  · rintro hnone field hfield ⟨rest, rfl⟩
    exact hnone rest (afterTag?_append htag hfield rest)
  · intro hnone rest hrest
    obtain ⟨field, hfield, rfl⟩ := (reads_afterTag? htag.field _ _).1 hrest
    exact hnone field hfield (List.prefix_append _ _)

theorem afterTag?_behind (htag : tag.Plain) {definition record : List Char}
    (h : Paragraph (definition ++ record) behind) :
    afterTag? tag (record ++ behind) = (afterTag? tag record).map (· ++ behind) := by
  have hparted := h.parted
  rw [Parted, startsLine_append] at hparted
  exact reads_append (reads_afterTag? htag.field)
    (fun word hword behind => firm_tagField htag word hword behind _) hparted

/-- The field is due in the paragraph itself. -/
def FieldDueHere (tag : IdentityTag) (text : List Char) (edit : Edit) : Prop :=
  ∃ definition ∈ variantDefinition, ∃ record, text = definition ++ record ∧
    afterTag? tag record = none ∧ edit = ⟨definition.length, 0, tag.fieldText.toList⟩

theorem fieldDue_append (htag : tag.Plain) (h : Paragraph text behind) (hne : text ≠ []) {edit : Edit} :
    FieldDue tag (text ++ behind) edit ↔ FieldDueHere tag text edit ∨
      ∃ later, FieldDue tag behind later ∧ later.shift text.length = edit := by
  constructor
  · rintro ⟨hoccurs, huntagged⟩
    rcases (occurs_append defines_variantDefinition h hne).1 hoccurs with
      ⟨rfl, hmem, record, rfl, rfl⟩ | ⟨rest, rfl, hlater⟩
    · rw [← afterTag?_eq_none_iff htag, afterTag?_behind htag h, Option.map_eq_none_iff] at huntagged
      exact .inl ⟨_, hmem, record, rfl, huntagged, rfl⟩
    · refine .inr ⟨_, ⟨hlater, huntagged⟩, ?_⟩
      simp [Edit.shift]
  · rintro (⟨definition, hmem, record, rfl, hrecord, rfl⟩ | ⟨_, ⟨hoccurs, huntagged⟩, rfl⟩)
    · have hoccurs : Occurs variantDefinition (definition ++ record ++ behind) [] definition
          (record ++ behind) :=
        (occurs_append defines_variantDefinition h hne).2 (.inl ⟨rfl, hmem, record, rfl, rfl⟩)
      refine .intro hoccurs ?_
      rw [← afterTag?_eq_none_iff htag, afterTag?_behind htag h, hrecord]
      rfl
    · have hwhole := FieldDue.intro
        ((occurs_append defines_variantDefinition h hne).2 (.inr ⟨_, rfl, hoccurs⟩)) huntagged
      simpa [Edit.shift, Nat.add_assoc] using hwhole

/-- If the paragraph is the placeholder definition, that is the first one. -/
theorem checkDue_append_of_placeholder (h : Paragraph text behind) {edit : Edit}
    (hleft : left ∈ checkLeft) (hright : right ∈ placeholderRight) (hend : EndsLine after)
    (htext : text = left ++ (right ++ after)) :
    CheckDue tag (text ++ behind) edit ↔ edit = ⟨left.length, right.length, checkValue tag⟩ := by
  have hne : text ≠ [] := by
    obtain ⟨c, rest, heq, -⟩ := defines_checkLeft.opens left hleft (right ++ after)
    rw [htext, heq]
    exact List.cons_ne_nil _ _
  have hhere : PlaceholderOccurs (text ++ behind) [] left right (after ++ behind) :=
    (placeholderOccurs_append h hne).2 (.inl ⟨rfl, hleft, hright, after, htext, rfl, hend⟩)
  constructor
  · rintro ⟨hoccurs, hfirst⟩
    obtain rfl := List.length_eq_zero_iff.1 (Nat.le_zero.1 (hfirst _ _ _ _ hhere))
    have hsame := placeholder?_eq_some.2
      ⟨hoccurs.left_mem, _, hoccurs.right_mem, hoccurs.text, hoccurs.ends⟩
    rw [placeholder?_eq_some.2 ⟨hleft, right, hright, hhere.text, hhere.ends⟩] at hsame
    obtain ⟨rfl, rfl⟩ := Prod.mk.inj (Option.some.inj hsame)
    have hvalue := hhere.text.symm.trans hoccurs.text
    simp only [List.nil_append, List.append_cancel_left_eq, List.append_cancel_right_eq] at hvalue
    rw [hvalue]
    rfl
  · rintro rfl
    exact CheckDue.intro hhere fun _ _ _ _ _ => Nat.zero_le _

theorem checkDue_append_of_none (h : Paragraph text behind) (hne : text ≠ [])
    (hnone : placeholder? text = none) {edit : Edit} :
    CheckDue tag (text ++ behind) edit ↔
      ∃ later, CheckDue tag behind later ∧ later.shift text.length = edit := by
  have happend {before left right after : List Char} :
      PlaceholderOccurs (text ++ behind) before left right after ↔
        ∃ rest, before = text ++ rest ∧ PlaceholderOccurs behind rest left right after := by
    rw [placeholderOccurs_append h hne]
    refine or_iff_right fun hhere => ?_
    obtain ⟨-, hleft, hright, rest, heq, -, hend⟩ := hhere
    rw [placeholder?_eq_some.2 ⟨hleft, _, hright, heq, hend⟩] at hnone
    cases hnone
  constructor
  · rintro ⟨hoccurs, hfirst⟩
    obtain ⟨rest, rfl, hlater⟩ := happend.1 hoccurs
    refine ⟨_, ⟨hlater, fun before' left' right' after' hoccurs' => ?_⟩, ?_⟩
    · have hlength := hfirst _ _ _ _ (happend.2 ⟨before', rfl, hoccurs'⟩)
      simpa using hlength
    · simp [Edit.shift]
  · rintro ⟨_, @⟨before, left, right, after, hoccurs, hfirst⟩, rfl⟩
    have hfirst' : ∀ before' left' right' after',
        PlaceholderOccurs (text ++ behind) before' left' right' after' →
          (text ++ before).length ≤ before'.length := by
      intro before' left' right' after' hoccurs'
      obtain ⟨rest, rfl, hlater⟩ := happend.1 hoccurs'
      rw [List.length_append, List.length_append]
      exact Nat.add_le_add_left (hfirst _ _ _ _ hlater) _
    have hwhole : CheckDue tag _ _ := .intro (happend.2 ⟨before, rfl, hoccurs⟩) hfirst'
    simpa [Edit.shift, Nat.add_assoc] using hwhole

/-! ### All edits -/

/-- The edits that are due make another text of a code. -/
structure Accounts (due : Edit → Prop) (code out : List Char) (edits : List Edit) : Prop where
  ordered : Ordered edits
  mem_iff : ∀ edit, edit ∈ edits ↔ due edit
  text : edited 0 edits code = out

section Accounts

variable {due due' : Edit → Prop} {out : List Char} {edits : List Edit}

theorem Ordered.shift (h : Ordered edits) (count : Nat) : Ordered (edits.map (Edit.shift count)) := by
  refine List.pairwise_map.2 (h.imp fun hless => ?_)
  simp only [Edit.shift]
  omega

theorem mem_map_shift_iff (h : Accounts due behind out edits) (count : Nat) (edit : Edit) :
    edit ∈ edits.map (Edit.shift count) ↔ ∃ later, due later ∧ later.shift count = edit := by
  simp only [List.mem_map, h.mem_iff]

/-- A paragraph without an edit. -/
theorem Accounts.skip (h : Accounts due behind out edits) (text : List Char)
    (hdue : ∀ edit, due' edit ↔ ∃ later, due later ∧ later.shift text.length = edit) :
    Accounts due' (text ++ behind) (text ++ out) (edits.map (Edit.shift text.length)) where
  ordered := h.ordered.shift _
  mem_iff edit := by rw [hdue, mem_map_shift_iff h]
  text := by rw [edited_append_map_shift, h.text]

/-- A paragraph with an edit. -/
theorem Accounts.cons (h : Accounts due behind out edits) (hplace : ∀ edit, due edit → 0 < edit.place)
    {front old new back : List Char}
    (hdue : ∀ edit, due' edit ↔ edit = ⟨front.length, old.length, new⟩ ∨
      ∃ later, due later ∧ later.shift (front ++ (old ++ back)).length = edit) :
    Accounts due' (front ++ (old ++ back) ++ behind) (front ++ (new ++ back) ++ out)
      (⟨front.length, old.length, new⟩ :: edits.map (Edit.shift (front ++ (old ++ back)).length)) where
  ordered := by
    refine List.pairwise_cons.2 ⟨fun edit hedit => ?_, h.ordered.shift _⟩
    obtain ⟨later, hlater, rfl⟩ := (mem_map_shift_iff h _ _).1 hedit
    have hpositive := hplace later hlater
    simp only [Edit.shift, List.length_append]
    omega
  mem_iff edit := by rw [List.mem_cons, hdue, mem_map_shift_iff h]
  text := by rw [edited_cons_map_shift, h.text]

theorem place_of_fieldDue {edit : Edit} (h : FieldDue tag code edit) : 0 < edit.place := by
  obtain @⟨before, word, after, hoccurs, -⟩ := h
  obtain ⟨c, rest, heq, -⟩ := defines_variantDefinition.opens word hoccurs.mem []
  rw [List.append_nil] at heq
  simp only [heq, List.length_append, List.length_cons]
  omega

theorem place_of_checkDue {edit : Edit} (h : CheckDue tag code edit) : 0 < edit.place := by
  obtain @⟨before, left, right, after, hoccurs, -⟩ := h
  obtain ⟨c, rest, heq, -⟩ := defines_checkLeft.opens left hoccurs.left_mem []
  rw [List.append_nil] at heq
  simp only [heq, List.length_append, List.length_cons]
  omega

/-- A paragraph in which the field may be due. -/
theorem Accounts.exists_field (htag : tag.Plain) (h : Accounts due behind out edits)
    (hplace : ∀ edit, due edit → 0 < edit.place) (text : List Char)
    (hdue : ∀ edit, due' edit ↔ FieldDueHere tag text edit ∨
      ∃ later, due later ∧ later.shift text.length = edit) :
    ∃ edits', Accounts due' (text ++ behind) (taggedParagraph tag text ++ out) edits' := by
  have hskip (hnone : ∀ edit, ¬ FieldDueHere tag text edit) (hself : taggedParagraph tag text = text) :
      ∃ edits', Accounts due' (text ++ behind) (taggedParagraph tag text ++ out) edits' := by
    rw [hself]
    exact ⟨_, h.skip text fun edit => (hdue edit).trans (or_iff_right (hnone edit))⟩
  cases kind htag text with
  | other hnone =>
      refine hskip ?_ (taggedParagraph_of_other hnone)
      rintro edit ⟨definition, hmem, record, rfl, -, -⟩
      rw [afterVariant?_append hmem] at hnone
      cases hnone
  | @untagged definition record hmem hrecord =>
      have hhere (edit : Edit) : FieldDueHere tag (definition ++ record) edit ↔
          edit = ⟨definition.length, ([] : List Char).length, tag.fieldText.toList⟩ := by
        constructor
        · rintro ⟨definition', hmem', record', heq, -, rfl⟩
          have hsame := afterVariant?_append hmem record
          rw [heq, afterVariant?_append hmem' record', Option.some.injEq] at hsame
          rw [hsame, List.append_cancel_right_eq] at heq
          rw [heq]
          rfl
        · rintro rfl
          exact ⟨definition, hmem, record, rfl, hrecord, rfl⟩
      rw [taggedParagraph_of_untagged hmem hrecord]
      exact ⟨_, h.cons hplace fun edit => (hdue edit).trans (or_congr_left (hhere edit))⟩
  | @tagged definition field rest hmem hfield =>
      refine hskip ?_ (taggedParagraph_of_tagged hmem htag hfield)
      rintro edit ⟨definition', hmem', record', heq, hrecord', -⟩
      have hsame := afterVariant?_append hmem (field ++ rest)
      rw [heq, afterVariant?_append hmem' record', Option.some.injEq] at hsame
      rw [hsame, afterTag?_append htag hfield] at hrecord'
      cases hrecord'

end Accounts

theorem not_fieldDue_nil {edit : Edit} : ¬ FieldDue tag [] edit := by
  rintro ⟨hoccurs, -⟩
  exact not_occurs_nil defines_variantDefinition hoccurs

theorem not_checkDue_nil {edit : Edit} : ¬ CheckDue tag [] edit := by
  rintro ⟨hoccurs, -⟩
  exact not_occurs_nil defines_checkLeft ⟨hoccurs.text, hoccurs.line, hoccurs.left_mem⟩

theorem exists_fieldEdits (htag : tag.Plain) (code : List Char) :
    ∃ edits, Accounts (FieldDue tag code) code (taggedCode tag code) edits := by
  induction code using paragraph_induction with
  | nil => exact ⟨[], List.Pairwise.nil, fun _ => by simp [not_fieldDue_nil], (taggedCode_nil tag).symm⟩
  | paragraph text behind hne h ih =>
      obtain ⟨edits, hedits⟩ := ih
      rw [taggedCode_append htag h hne]
      exact hedits.exists_field htag (fun _ => place_of_fieldDue) text fun _ => fieldDue_append htag h hne

theorem exists_edits (htag : tag.Plain) (code : List Char) :
    ∃ edits, Accounts (fun edit => FieldDue tag code edit ∨ CheckDue tag code edit) code
      (replacedCode tag (taggedCode tag code)) edits := by
  induction code using paragraph_induction with
  | nil =>
      refine ⟨[], List.Pairwise.nil, fun _ => by simp [not_fieldDue_nil, not_checkDue_nil], ?_⟩
      rw [taggedCode_nil]
      rfl
  | paragraph text behind hne h ih =>
      rw [taggedCode_append htag h hne,
        replacedCode_append (paragraph_taggedCode htag h) (taggedParagraph_ne_nil htag hne),
        placeholder?_tagged, ← taggedParagraph_replaced]
      cases hfound : placeholder? text with
      | some found =>
          -- The first placeholder definition: behind it only fields are due.
          obtain ⟨left, after⟩ := found
          obtain ⟨hleft, right, hright, rfl, hend⟩ := placeholder?_eq_some.1 hfound
          obtain ⟨edits, hedits⟩ := exists_fieldEdits htag behind
          have hself : taggedParagraph tag (replacedParagraph tag (left ++ (right ++ after))) =
              left ++ (checkValue tag ++ after) := by
            rw [replacedParagraph, hfound]
            exact taggedParagraph_of_other (afterVariant?_check hleft _)
          rw [hself]
          refine ⟨_, hedits.cons (fun _ => place_of_fieldDue) fun edit => ?_⟩
          rw [checkDue_append_of_placeholder h hleft hright hend rfl, fieldDue_append htag h hne,
            or_comm, or_iff_right (a := FieldDueHere _ _ _)]
          rintro ⟨definition, hmem, record, heq, -⟩
          have hvariant := afterVariant?_check hleft (right ++ after)
          rw [heq, afterVariant?_append hmem] at hvariant
          cases hvariant
      | none =>
          obtain ⟨edits, hedits⟩ := ih
          have hself : replacedParagraph tag text = text := by rw [replacedParagraph, hfound]
          rw [hself]
          refine hedits.exists_field htag (fun _ hdue => hdue.elim place_of_fieldDue place_of_checkDue)
            text fun edit => ?_
          rw [fieldDue_append htag h hne, checkDue_append_of_none h hne hfound]
          simp only [or_and_right, exists_or, or_assoc]

/-! ### The patch -/

/-- A constructor of tests is defined. -/
def HasVariant (code : List Char) : Prop :=
  ∃ before word after, Occurs variantDefinition code before word after

/-- The check function is defined as the placeholder. -/
def HasPlaceholder (code : List Char) : Prop :=
  ∃ before left right after, PlaceholderOccurs code before left right after

/-- The check function is defined as one that looks for the field of the tag. -/
def HasPatchedCheck (tag : IdentityTag) (code : List Char) : Prop :=
  ∃ before word after, Occurs (patchedStart * mention tag.field.toList) code before word after

/-- A code without constructors of tests cannot be patched, nor one without a check function.  What
the patch makes of any other code is the code with the edits that are due and with the line that makes
the symbol in front, and every constructor of tests in it has the field. -/
theorem patch_makes_due_edits {tag : IdentityTag} (htag : tag.Plain) (code : List Char) :
    (patch tag code = .error (.patternNotFound "the Test variant definitions") ↔ ¬ HasVariant code) ∧
    (patch tag code = .error (.patternNotFound "the check function definition") ↔
      HasVariant code ∧ ¬ HasPlaceholder code ∧ ¬ HasPatchedCheck tag code) ∧
    (HasVariant code → HasPlaceholder code ∨ HasPatchedCheck tag code →
      ∃ edits out, patch tag code = .ok out ∧ Ordered edits ∧
        (∀ edit, edit ∈ edits ↔ FieldDue tag code edit ∨ CheckDue tag code edit) ∧
        out = (if tag.allocationLine.toList.isPrefixOf code then [] else allocation tag) ++
          edited 0 edits code ∧
        ∀ before word after, Occurs variantDefinition out before word after →
          ∃ field ∈ tagField tag, field <+: after) := by
  have hvariant : HasVariant code ↔ constructorCount tag code ≠ 0 :=
    (constructorCount_ne_zero_iff htag code).symm
  have hcheck : HasPlaceholder code ∨ HasPatchedCheck tag code ↔
      placeholderCount true code ≠ 0 ∨ hasPatchedCheck tag.field.toList true code = true :=
    or_congr (placeholderCount_ne_zero_iff code).symm (hasPatchedCheck_iff htag code).symm
  rw [← not_or, hvariant, hcheck]
  refine ⟨?_, ?_, fun hcount hfound => ?_⟩
  · rw [patch_eq htag]
    split
    · simp_all
    · split <;> simp_all
  · rw [patch_eq htag]
    split
    · simp_all
    · split <;> simp_all
  · obtain ⟨edits, hedits⟩ := exists_edits htag code
    have hpatch := (patch_eq_ok htag).2 ⟨hcount, hfound, rfl⟩
    refine ⟨edits, _, hpatch, hedits.ordered, hedits.mem_iff, ?_, fun before word after hoccurs => ?_⟩
    · have hline : tag.allocationLine.toList.isPrefixOf (replacedCode tag (taggedCode tag code)) =
          tag.allocationLine.toList.isPrefixOf code := by
        rw [Bool.eq_iff_iff, List.isPrefixOf_iff_prefix, List.isPrefixOf_iff_prefix]
        exact allocationLine_prefix_passes htag code
      rw [allocateSymbol_eq, hline, hedits.text]
    · rw [← (patched_of_patch htag hpatch).1.tagged] at hoccurs
      exact tagged_of_occurs htag hoccurs

theorem patch_makes_due_edits_small_script :
    ({} : IdentityTag).Plain ∧ HasVariant smallScript ∧ HasPlaceholder smallScript ∧
      ∃ edits out, patch {} smallScript = .ok out ∧
        (∀ edit, edit ∈ edits ↔ FieldDue {} smallScript edit ∨ CheckDue {} smallScript edit) ∧
        out = allocation {} ++ edited 0 edits smallScript := by
  obtain ⟨hcount, hplaceholder, -⟩ := smallScript_spec
  have hvariant := (constructorCount_ne_zero_iff plain_default smallScript).1 hcount
  have hcheck := (placeholderCount_ne_zero_iff smallScript).1 (by rw [hplaceholder]; decide)
  obtain ⟨edits, out, hpatch, -, hmem, hout, -⟩ :=
    (patch_makes_due_edits plain_default smallScript).2.2 hvariant (.inl hcheck)
  refine ⟨plain_default, hvariant, hcheck, edits, out, hpatch, hmem, ?_⟩
  rw [hout, if_neg (by decide +kernel)]

end ElmSuite.Script
