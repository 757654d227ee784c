import ElmSuite.Proofs.Script.Grammar

/-!
Compiled code as paragraphs.  Every definition that matters to the patch starts with `var` and white
space at the start of a line, and no further line of it starts so.  So a text can be cut in front of
every line that does, and what starts a paragraph can be read off that paragraph alone.
-/

namespace ElmSuite.Script

open Text

/-- A text that starts like a definition, with `var` and white space. -/
def Opens (text : List Char) : Prop :=
  ∃ c rest, text = 'v' :: 'a' :: 'r' :: c :: rest ∧ isBlank c = true

/-- Whether a line starts behind a text; `start` tells so for the place in front of it. -/
def startsLine : Bool → List Char → Bool
  | start, [] => start
  | _, c :: text => startsLine (c == '\n') text

/-- No line that starts inside a text starts like a definition.  What stands behind the text can
belong to the line. -/
def Still (behind : List Char) : Bool → List Char → Prop
  | _, [] => True
  | start, c :: text => (start = true → ¬ Opens (c :: text ++ behind)) ∧ Still behind (c == '\n') text

variable {text behind word more : List Char} {start : Bool}

theorem startsLine_append (start : Bool) (text more : List Char) :
    startsLine start (text ++ more) = startsLine (startsLine start text) more := by
  induction text generalizing start with
  | nil => rfl
  | cons c text ih => exact ih (c == '\n')

theorem startsLine_of_ne_nil (hne : text ≠ []) (start start' : Bool) :
    startsLine start text = startsLine start' text := by
  obtain ⟨c, text, rfl⟩ := List.exists_cons_of_ne_nil hne
  rfl

theorem startsLine_concat (start : Bool) (text : List Char) (c : Char) :
    startsLine start (text ++ [c]) = (c == '\n') :=
  startsLine_append start text [c]

theorem still_append :
    Still behind start (text ++ more) ↔
      Still (more ++ behind) start text ∧ Still behind (startsLine start text) more := by
  induction text generalizing start with
  | nil => simp [Still, startsLine]
  | cons c text ih => simp only [List.cons_append, Still, ih, startsLine, List.append_assoc, and_assoc]

/-- Where no line starts, less is asked. -/
theorem Still.inside (h : Still behind start text) : Still behind false text := by
  cases text with
  | nil => trivial
  | cons c text => exact ⟨nofun, h.2⟩

theorem still_of_no_lineEnd (hline : '\n' ∉ text) (hopens : start = true → ¬ Opens (text ++ behind)) :
    Still behind start text := by
  induction text generalizing start with
  | nil => trivial
  | cons c text ih =>
      rw [List.mem_cons, not_or] at hline
      have hc : (c == '\n') = false := by simpa using Ne.symm hline.1
      refine ⟨hopens, ?_⟩
      rw [hc]
      exact ih hline.2 nofun

theorem not_opens_of_isBlank {c : Char} (hc : isBlank c = true) : ¬ Opens (c :: text) := by
  rintro ⟨d, rest, heq, -⟩
  obtain ⟨rfl, -⟩ := List.cons.inj heq
  exact absurd hc (by decide)

theorem still_of_blanks (h : ∀ c ∈ text, isBlank c = true) : Still behind start text := by
  induction text generalizing start with
  | nil => trivial
  | cons c text ih =>
      rw [List.forall_mem_cons] at h
      exact ⟨fun _ => not_opens_of_isBlank h.1, ih h.2⟩

/-- A text that starts with other characters than `var` does. -/
theorem not_opens_of_solid (hsolid : ∀ c ∈ word, isBlank c = false) (hvar : ¬ word <+: "var".toList) :
    ¬ Opens (word ++ behind) := by
  rintro ⟨c, rest, heq, hc⟩
  have heq : word ++ behind = "var".toList ++ c :: rest := heq
  have hprefix : "var".toList <+: word ++ behind := ⟨c :: rest, heq.symm⟩
  rcases List.prefix_or_prefix_of_prefix (List.prefix_append word behind) hprefix with h | ⟨tail, rfl⟩
  · exact hvar h
  · rw [List.append_assoc, List.append_cancel_left_eq] at heq
    cases tail with
    | nil => exact hvar (by simp)
    | cons d tail =>
        obtain ⟨rfl, -⟩ := List.cons.inj heq
        rw [hsolid d (by simp)] at hc
        cases hc

/-! ### Languages -/

/-- Wherever a word of the language stands, no line of it starts like a definition. -/
def Firm (words : Language Char) : Prop :=
  ∀ word ∈ words, ∀ behind start, Still behind start word

/-- A word of the language starts like a definition, and no further line of it does. -/
structure Defines (words : Language Char) : Prop where
  opens : ∀ word ∈ words, ∀ behind, Opens (word ++ behind)
  inside : ∀ word ∈ words, ∀ behind, Still behind false word

variable {words others : Language Char}

theorem Firm.mul (hwords : Firm words) (hothers : Firm others) : Firm (words * others) := by
  intro word hword behind start
  obtain ⟨first, hfirst, second, hsecond, rfl⟩ := Language.mem_mul.1 hword
  exact still_append.2 ⟨hwords first hfirst _ _, hothers second hsecond _ _⟩

theorem Firm.add (hwords : Firm words) (hothers : Firm others) : Firm (words + others) := by
  intro word hword
  rcases (Language.mem_add _ _ _).1 hword with hword | hword
  · exact hwords word hword
  · exact hothers word hword

theorem firm_one : Firm 1 := by
  rintro word rfl behind start
  trivial

theorem firm_blanks : Firm blanks :=
  fun _ hword _ _ => still_of_blanks hword

/-- A language of words in one line that do not start with `var`. -/
theorem firm_of_line (hline : ∀ word ∈ words, '\n' ∉ word)
    (hopens : ∀ word ∈ words, ∀ behind, ¬ Opens (word ++ behind)) : Firm words :=
  fun word hword behind _ => still_of_no_lineEnd (hline word hword) fun _ => hopens word hword behind

/-- A text without white space that does not belong to `var`. -/
theorem firm_of_solid (hsolid : ∀ word ∈ words, ∀ c ∈ word, isBlank c = false)
    (hvar : ∀ word ∈ words, ¬ word <+: "var".toList) : Firm words := by
  refine firm_of_line (fun word hword hc => ?_) fun word hword behind =>
    not_opens_of_solid (hsolid word hword) (hvar word hword)
  exact absurd (hsolid word hword '\n' hc) (by decide)

theorem firm_literal (fixed : String) (hsolid : ∀ c ∈ fixed.toList, isBlank c = false)
    (hvar : ¬ fixed.toList <+: "var".toList) : Firm (literal fixed) :=
  firm_of_solid (by rintro word rfl; exact hsolid) (by rintro word rfl; exact hvar)

theorem firm_singleton (fixed : List Char) (hsolid : ∀ c ∈ fixed, isBlank c = false)
    (hvar : ¬ fixed <+: "var".toList) : Firm {fixed} :=
  firm_of_solid (by rintro word rfl; exact hsolid) (by rintro word rfl; exact hvar)

theorem firm_mark (c : Char) (hsolid : isBlank c = false) (hvar : ¬ [c] <+: "var".toList) :
    Firm (mark c) :=
  firm_singleton [c] (by simpa using hsolid) hvar

theorem defines_declaring_mul (h : Firm others) : Defines (declaring * others) where
  opens word hword behind := by
    obtain ⟨_, hfirst, second, -, rfl⟩ := Language.mem_mul.1 hword
    obtain ⟨_, rfl, gap, ⟨hne, hgap⟩, rfl⟩ := Language.mem_mul.1 hfirst
    obtain ⟨c, gap, rfl⟩ := List.exists_cons_of_ne_nil hne
    exact ⟨c, gap ++ (second ++ behind), by simp, hgap c List.mem_cons_self⟩
  inside word hword behind := by
    obtain ⟨_, hfirst, second, hsecond, rfl⟩ := Language.mem_mul.1 hword
    obtain ⟨_, rfl, gap, ⟨-, hgap⟩, rfl⟩ := Language.mem_mul.1 hfirst
    refine still_append.2 ⟨still_append.2 ⟨?_, still_of_blanks hgap⟩, h second hsecond _ _⟩
    exact still_of_no_lineEnd (by decide) nofun

theorem firm_equals : Firm equals :=
  (firm_blanks.mul (firm_mark '=' (by decide) (by decide))).mul firm_blanks

theorem not_isBlank_of_isWord {c : Char} (h : isWord c = true) : isBlank c = false := by
  by_contra hblank
  rw [not_isWord_of_isBlank (by simpa using hblank)] at h
  cases h

theorem firm_variantName : Firm ({variantLead} * variantWords) := by
  have hlead : ∀ c ∈ variantLead, isBlank c = false := forall_of_all (by decide)
  apply firm_of_solid
  · intro word hword
    obtain ⟨_, rfl, name, hname, rfl⟩ := Language.mem_mul.1 hword
    refine List.forall_mem_append.2 ⟨hlead, fun c hc => not_isBlank_of_isWord ?_⟩
    exact (mem_variantWords.1 hname).2 c hc
  · intro word hword
    obtain ⟨_, rfl, name, -, rfl⟩ := Language.mem_mul.1 hword
    intro hvar
    exact absurd ((List.prefix_append _ _).trans hvar) (by decide)

theorem firm_wrapperCall : Firm wrapperCall := by
  refine Firm.mul ?_ firm_blanks
  apply firm_of_solid
  · intro word hword
    obtain ⟨name, hname, _, rfl, rfl⟩ := Language.mem_mul.1 hword
    exact List.forall_mem_append.2
      ⟨fun c hc => not_isBlank_of_isWord (hname.2 c hc), forall_of_all (by decide)⟩
  · intro word hword hvar
    obtain ⟨name, -, _, rfl, rfl⟩ := Language.mem_mul.1 hword
    exact absurd (hvar.subset (List.mem_append_right _ List.mem_cons_self)) (by decide)

theorem firm_parameters : Firm (mark '(' * runs isParameterChar) := by
  apply firm_of_line
  · intro word hword
    obtain ⟨_, rfl, parameters, hparameters, rfl⟩ := Language.mem_mul.1 hword
    rw [List.mem_append, not_or]
    refine ⟨by decide, fun hc => ?_⟩
    exact absurd (hparameters '\n' hc) (by decide +kernel)
  · intro word hword behind
    obtain ⟨_, rfl, parameters, -, rfl⟩ := Language.mem_mul.1 hword
    rintro ⟨c, rest, heq, -⟩
    cases heq

theorem firm_recordFunction : Firm recordFunction := by
  have hwhole := ((firm_literal "function" (forall_of_all (by decide)) (by decide)).mul firm_blanks).mul
    (firm_parameters.mul ((firm_mark ')' (by decide) (by decide)).mul (firm_blanks.mul
      ((firm_mark '{' (by decide) (by decide)).mul (firm_blanks.mul
        ((firm_literal "return" (forall_of_all (by decide)) (by decide)).mul (firm_blanks.mul
          (firm_mark '{' (by decide) (by decide)))))))))
  unfold recordFunction
  simpa only [mul_assoc] using hwhole

theorem defines_variantDefinition : Defines variantDefinition := by
  have hwhole := defines_declaring_mul (firm_variantName.mul (firm_equals.mul
    ((firm_one.add firm_wrapperCall).mul firm_recordFunction)))
  unfold variantDefinition
  simpa only [mul_assoc] using hwhole

theorem firm_checkName : Firm {checkName} :=
  firm_singleton checkName (forall_of_all (by decide)) (by decide)

theorem defines_checkLeft : Defines checkLeft :=
  defines_declaring_mul firm_checkName

theorem firm_placeholderRight : Firm placeholderRight :=
  (firm_equals.mul (firm_singleton placeholderName (forall_of_all (by decide)) (by decide))).mul
    (firm_one.add (firm_mark ';' (by decide) (by decide)))

theorem defines_placeholder : Defines (checkLeft * placeholderRight) := by
  have hwhole := defines_declaring_mul (firm_checkName.mul firm_placeholderRight)
  unfold checkLeft
  simpa only [mul_assoc] using hwhole

/-- A tag of names without white space, as identifiers are, and with a description on one line. -/
structure IdentityTag.Plain (tag : IdentityTag) : Prop where
  binding : ∀ c ∈ tag.binding.toList, isBlank c = false
  field : ∀ c ∈ tag.field.toList, isBlank c = false
  description : ∀ c ∈ tag.description.toList, c ≠ '\n' ∧ c ≠ '\r'

variable {tag : IdentityTag}

theorem firm_tagField (htag : tag.Plain) : Firm (tagField tag) := by
  refine firm_blanks.mul (firm_singleton _ ?_ fun hvar => ?_)
  · exact List.forall_mem_append.2 ⟨htag.field, forall_of_all (by decide)⟩
  · exact absurd (hvar.subset (List.mem_append_right _ List.mem_cons_self)) (by decide)

theorem firm_mention (htag : tag.Plain) : Firm ({['=', '>']} * mention tag.field.toList) := by
  apply firm_of_line
  · intro word hword
    obtain ⟨_, rfl, _, hmention, rfl⟩ := Language.mem_mul.1 hword
    obtain ⟨run, hrun, _, rfl, rfl⟩ := Language.mem_mul.1 hmention
    rw [List.mem_append, List.mem_append]
    rintro (hc | hc | hc)
    · exact absurd hc (by decide)
    · exact absurd (hrun '\n' hc) (by decide)
    · exact absurd (htag.field '\n' hc) (by decide)
  · intro word hword behind
    obtain ⟨_, rfl, more, -, rfl⟩ := Language.mem_mul.1 hword
    rintro ⟨c, rest, heq, -⟩
    cases heq

theorem defines_patchedCheck (htag : tag.Plain) :
    Defines (patchedStart * mention tag.field.toList) := by
  have hwhole := defines_declaring_mul (firm_checkName.mul (firm_equals.mul
    ((firm_literal "value" (forall_of_all (by decide)) (by decide)).mul
      (firm_blanks.mul (firm_mention htag)))))
  unfold patchedStart checkLeft
  simpa only [mul_assoc] using hwhole

/-! ### Paragraphs -/

/-- Behind a text stands nothing, or a line that starts like a definition. -/
def Parted (start : Bool) (text behind : List Char) : Prop :=
  behind = [] ∨ startsLine start text = true ∧ Opens behind

/-- A stretch of code of which no line but the first one starts like a definition, up to the end of
the code or to such a line. -/
structure Paragraph (text behind : List Char) : Prop where
  inside : Still behind false text
  parted : Parted false text behind

theorem exists_stretch (start : Bool) (code : List Char) :
    ∃ text behind, code = text ++ behind ∧ Still behind start text ∧ Parted start text behind := by
  induction code generalizing start with
  | nil => exact ⟨[], [], rfl, trivial, .inl rfl⟩
  | cons c code ih =>
      by_cases hopens : start = true ∧ Opens (c :: code)
      · exact ⟨[], c :: code, rfl, trivial, .inr hopens⟩
      · obtain ⟨text, behind, rfl, hstill, hparted⟩ := ih (c == '\n')
        exact ⟨c :: text, behind, rfl, ⟨fun hstart hc => hopens ⟨hstart, hc⟩, hstill⟩, hparted⟩

/-- What holds of the empty code, and of a paragraph with more behind it when it holds of what is
behind it, holds of every code. -/
theorem paragraph_induction {motive : List Char → Prop} (nil : motive [])
    (paragraph : ∀ text behind, text ≠ [] → Paragraph text behind → motive behind →
      motive (text ++ behind)) (code : List Char) : motive code := by
  induction hlength : code.length using Nat.strongRecOn generalizing code with
  | ind length ih =>
      cases code with
      | nil => exact nil
      | cons c code =>
          obtain ⟨text, behind, rfl, hstill, hparted⟩ := exists_stretch (c == '\n') code
          refine paragraph (c :: text) behind (List.cons_ne_nil _ _) ⟨⟨nofun, hstill⟩, hparted⟩ ?_
          have hshort : behind.length < length := by
            rw [← hlength, List.length_cons, List.length_append]
            omega
          exact ih behind.length hshort behind rfl

/-- A word in which no further line starts like a definition does not reach beyond a paragraph. -/
theorem exists_left_of_still {rest : List Char} (hstill : ∀ behind, Still behind start word)
    (hparted : Parted start text behind) (heq : text ++ behind = word ++ rest) :
    ∃ left, text = word ++ left ∧ rest = left ++ behind := by
  rcases List.append_eq_append_iff.1 heq with ⟨tail, rfl, rfl⟩ | ⟨left, rfl, rfl⟩
  · cases tail with
    | nil => exact ⟨[], by simp, rfl⟩
    | cons c tail =>
        rcases hparted with hnil | ⟨hline, hopens⟩
        · cases hnil
        · exact absurd hopens ((still_append.1 (hstill rest)).2.1 hline)
  · exact ⟨left, rfl, rfl⟩

/-- A step that reads such words does not see what stands behind a paragraph. -/
theorem reads_append {read : List Char → Option (List Char)} (h : Reads read words)
    (hstill : ∀ word ∈ words, ∀ behind, Still behind start word) (hparted : Parted start text behind) :
    read (text ++ behind) = (read text).map (· ++ behind) := by
  ext rest
  rw [Option.map_eq_some_iff, h]
  constructor
  · rintro ⟨word, hword, heq⟩
    obtain ⟨left, rfl, rfl⟩ := exists_left_of_still (hstill word hword) hparted heq
    exact ⟨left, (h _ _).2 ⟨word, hword, rfl⟩, rfl⟩
  · rintro ⟨left, hleft, rfl⟩
    obtain ⟨word, hword, rfl⟩ := (h _ _).1 hleft
    exact ⟨word, hword, List.append_assoc _ _ _⟩

/-- Whether a whole line starts like a definition does not depend on what follows it. -/
theorem opens_append (hparted : Parted start text behind) (hne : text ≠ []) :
    Opens (text ++ behind) ↔ Opens text := by
  constructor
  · rintro ⟨c, rest, heq, hc⟩
    rcases hparted with rfl | ⟨hline, hopens⟩
    · exact ⟨c, rest, by simpa using heq, hc⟩
    · match text, hne, hline, heq with
      | [first], _, hline, heq =>
        cases heq
        cases hline
      | [first, second], _, hline, heq =>
        cases heq
        cases hline
      | [first, second, third], _, hline, heq =>
        cases heq
        cases hline
      | first :: second :: third :: fourth :: text, _, _, heq =>
        simp only [List.cons_append, List.cons.injEq] at heq
        obtain ⟨rfl, rfl, rfl, rfl, -⟩ := heq
        exact ⟨_, text, rfl, hc⟩
  · rintro ⟨c, rest, rfl, hc⟩
    exact ⟨c, rest ++ behind, rfl, hc⟩

theorem Still.withBehind {behind' : List Char} (h : Still behind start text)
    (hparted : Parted start text behind) (hparted' : Parted start text behind') :
    Still behind' start text := by
  induction text generalizing start with
  | nil => trivial
  | cons c text ih =>
      refine ⟨fun hstart hopens => h.1 hstart ?_, ih h.2 hparted hparted'⟩
      rw [opens_append hparted' (List.cons_ne_nil _ _)] at hopens
      exact (opens_append hparted (List.cons_ne_nil _ _)).2 hopens

/-- A paragraph can have anything else behind it that may stand there. -/
theorem Paragraph.withBehind {behind' : List Char} (h : Paragraph text behind)
    (hparted : Parted false text behind') : Paragraph text behind' :=
  ⟨h.inside.withBehind h.parted hparted, hparted⟩

theorem Paragraph.alone (h : Paragraph text behind) : Paragraph text [] :=
  h.withBehind (.inl rfl)

/-- A line starts behind a paragraph, if anything does. -/
theorem Paragraph.endsLine (h : Paragraph text behind) (hne : text ≠ []) :
    behind = [] ∨ startsLine true text = true :=
  h.parted.imp id fun hline => by rw [startsLine_of_ne_nil hne true false]; exact hline.1

/-- Another text in the place of a part of a paragraph makes a paragraph, as long as no line ends
with the part or the other text. -/
theorem Paragraph.replace {front old new back : List Char}
    (h : Paragraph (front ++ (old ++ back)) behind) (hfront : ∀ behind, Still behind false front)
    (hold : startsLine false (front ++ old) = false) (hnew : ∀ behind start, Still behind start new)
    (hline : startsLine false (front ++ new) = false) : Paragraph (front ++ (new ++ back)) behind := by
  have hback := (still_append.1 (still_append.1 h.inside).2).2
  constructor
  · refine still_append.2 ⟨hfront _, still_append.2 ⟨hnew _ _, ?_⟩⟩
    rw [← startsLine_append, hline]
    exact hback.inside
  · have hparted := h.parted
    unfold Parted at hparted ⊢
    rw [← List.append_assoc, startsLine_append] at hparted ⊢
    rw [hold] at hparted
    rwa [hline]

/-- No word of the language ends a line. -/
def Closes (words : Language Char) : Prop :=
  ∀ word ∈ words, ∀ start, startsLine start word = false

theorem Closes.mul (words : Language Char) (h : Closes others) : Closes (words * others) := by
  intro word hword start
  obtain ⟨first, -, second, hsecond, rfl⟩ := Language.mem_mul.1 hword
  rw [startsLine_append]
  exact h second hsecond _

theorem Closes.add (hwords : Closes words) (hothers : Closes others) : Closes (words + others) := by
  intro word hword
  rcases (Language.mem_add _ _ _).1 hword with hword | hword
  · exact hwords word hword
  · exact hothers word hword

theorem closes_singleton {fixed : List Char} (hne : fixed ≠ []) (h : startsLine true fixed = false) :
    Closes {fixed} := by
  rintro word rfl start
  rw [startsLine_of_ne_nil hne start true, h]

theorem closes_variantDefinition : Closes variantDefinition :=
  (Closes.mul _ (closes_singleton (List.cons_ne_nil _ _) (by decide))).mul _

theorem closes_tagField : Closes (tagField tag) :=
  Closes.mul _ (closes_singleton (by simp) (startsLine_concat true _ _))

theorem closes_placeholderRight : Closes placeholderRight := by
  have hname : Closes {placeholderName} := closes_singleton (by decide) (by decide)
  have hmark : Closes (mark ';') := closes_singleton (List.cons_ne_nil _ _) (by decide)
  unfold placeholderRight
  rw [mul_add, mul_one]
  exact (hname.mul _).add (hmark.mul _)

end ElmSuite.Script
