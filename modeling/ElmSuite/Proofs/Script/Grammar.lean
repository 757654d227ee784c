import ElmSuite.Proofs.Script.Reading
import ElmSuite.Script.Patch

/-!
The grammar of the definitions in compiled code that matter to the patch, beside the functions that
read them: constructors of tests, with or without the field of a tag; the placeholder of the check
function; and a check function that is in place already.
-/

namespace ElmSuite.Script

open Text

/-! ### Languages -/

/-- `var` and white space. -/
def declaring : Language Char :=
  literal "var" * someRuns isBlank

/-- An equals sign with white space around it. -/
def equals : Language Char :=
  blanks * mark '=' * blanks

/-- Texts of a list. -/
def oneOf (texts : List (List Char)) : Language Char :=
  {text | text ∈ texts}

/-- The names of constructors of tests. -/
def variantWords : Language Char :=
  oneOf plainVariants + {markedVariant} * someRuns isWord

/-- The call of a wrapper up to its argument. -/
def wrapperCall : Language Char :=
  someRuns isWord * mark '(' * blanks

/-- A function that returns a record at once, up to and including the open brace of the record. -/
def recordFunction : Language Char :=
  literal "function" * blanks * mark '(' * runs isParameterChar * mark ')' * blanks *
    mark '{' * blanks * literal "return" * blanks * mark '{'

/-- The definition of a constructor of tests, up to and including the open brace of its record. -/
def variantDefinition : Language Char :=
  declaring * {variantLead} * variantWords * equals * (1 + wrapperCall) * recordFunction

/-- The field of a tag at the start of a record. -/
def tagField (tag : IdentityTag) : Language Char :=
  blanks * {tag.field.toList ++ [':']}

/-- The left-hand side of the definition of the check function. -/
def checkLeft : Language Char :=
  declaring * {checkName}

/-- The rest of the placeholder definition. -/
def placeholderRight : Language Char :=
  equals * {placeholderName} * (1 + mark ';')

/-- What is left of a line up to and including a field. -/
def mention (field : List Char) : Language Char :=
  runs (· != '\n') * {field}

/-! ### Steps of reading -/

theorem isBlank_ne_of_eq {c d : Char} (hd : isBlank d = false) (hc : isBlank c = true) : c ≠ d := by
  rintro rfl
  rw [hc] at hd
  cases hd

/-- White space does not belong to words. -/
theorem startsOff_isWord_equals (more : Language Char) : StartsOff isWord (equals * more) := by
  have hequals : isWord '=' = false := by decide +kernel
  have h : StartsOff isWord (mark '=') := startsOff_mark hequals
  unfold equals
  rw [mul_assoc, mul_assoc]
  exact (h.mul _).blanks_mul fun c hc => not_isWord_of_isBlank hc

section

variable {next : List Char → Option (List Char)} {more : Language Char}

theorem reads_afterVar (h : Reads next more) (hmore : StartsOff isBlank more) :
    Reads (fun text => (afterVar? text).bind next) (declaring * more) := by
  unfold declaring
  rw [mul_assoc]
  refine ((reads_literal "var").bind (h.afterBlanks hmore)).congr fun text => ?_
  simp only [afterVar?, Option.bind_eq_bind, Option.bind_assoc]

theorem reads_afterEquals (h : Reads next more) (hmore : StartsOff isBlank more) :
    Reads (fun text => (afterEquals? text).bind next) (equals * more) := by
  unfold equals
  rw [mul_assoc]
  refine ((reads_blanksThenMark (c := '=') (by decide)).bind (h.skip hmore)).congr fun text => ?_
  simp only [afterEquals?, Option.bind_eq_bind, Option.bind_assoc]
  rfl

end

/-! ### The words of constructors -/

section

variable {next : List Char → Option (List Char)} {more : Language Char} {word : List Char}

theorem mem_oneOf {texts : List (List Char)} : word ∈ oneOf texts ↔ word ∈ texts :=
  Iff.rfl

theorem mem_variantWords :
    word ∈ variantWords ↔ isVariantWord word = true ∧ ∀ c ∈ word, isWord c = true := by
  have hplain : (plainVariants.all fun name => name.all isWord) = true := by decide +kernel
  have hmarked : markedVariant.all isWord = true := by decide +kernel
  rw [List.all_eq_true] at hplain hmarked
  unfold variantWords
  rw [Language.mem_add, Language.mem_mul, mem_oneOf, isVariantWord, Bool.or_eq_true, Bool.and_eq_true,
    List.contains_iff_mem, List.isPrefixOf_iff_prefix, decide_eq_true_eq]
  constructor
  · rintro (hword | ⟨_, rfl, name, ⟨hne, hname⟩, rfl⟩)
    · exact ⟨.inl hword, List.all_eq_true.1 (hplain word hword)⟩
    · refine ⟨.inr ⟨List.prefix_append _ _, ?_⟩, List.forall_mem_append.2 ⟨hmarked, hname⟩⟩
      rw [List.length_append]
      exact Nat.lt_add_of_pos_right (List.length_pos_iff.2 hne)
  · rintro ⟨hword | ⟨⟨name, rfl⟩, hlength⟩, hall⟩
    · exact .inl hword
    · refine .inr ⟨_, rfl, name, ⟨?_, (List.forall_mem_append.1 hall).2⟩, rfl⟩
      rintro rfl
      simp at hlength

theorem reads_afterVariantWord (h : Reads next more) (hmore : StartsOff isWord more) :
    Reads (fun text => (afterVariantWord? text).bind next) (variantWords * more) := by
  refine (h.skipIf isVariantWord hmore fun word => mem_variantWords).congr fun text => ?_
  unfold afterVariantWord?
  split <;> rfl

end

/-! ### Functions that return a record -/

theorem startsOff_recordFunction : StartsOff isBlank recordFunction := by
  have h : StartsOff isBlank (literal "function") :=
    startsOff_literal ⟨'f', "unction".toList, by decide, by decide⟩
  unfold recordFunction
  simp only [mul_assoc]
  exact h.mul _

theorem reads_afterRecordBrace? : Reads afterRecordBrace? recordFunction := by
  have hreturn : StartsOff isBlank (literal "return" * (blanks * mark '{')) :=
    (startsOff_literal ⟨'r', "eturn".toList, by decide, by decide⟩).mul _
  have hclose (more : Language Char) : StartsOff isParameterChar (mark ')' * more) :=
    (startsOff_mark (by decide +kernel)).mul _
  have hopen : Reads (afterBlanksThen? ['(']) (blanks * mark '(') := reads_blanksThenMark (by decide)
  have hbrace : Reads (afterBlanksThen? ['{']) (blanks * mark '{') := reads_blanksThenMark (by decide)
  have hbody := hbrace.bind (((reads_literal "return").bind hbrace).skip hreturn)
  have hwhole := (reads_literal "function").bind
    (hopen.bind (((reads_mark ')').bind hbody).skip (hclose _)))
  unfold recordFunction
  simp only [mul_assoc] at hwhole ⊢
  exact hwhole.congr fun text => rfl

/-- What follows the wrapper of a constructor, if there is one. -/
theorem reads_afterWrapper? :
    Reads (fun text => (afterWrapper? text).bind afterRecordBrace?) (wrapperCall * recordFunction) := by
  have hparen (more : Language Char) : StartsOff isWord (mark '(' * more) :=
    (startsOff_mark (by decide +kernel)).mul _
  have hwhole := ((reads_mark '(').bind
    (reads_afterRecordBrace?.skip startsOff_recordFunction)).skipSome (hparen _)
  unfold wrapperCall
  simp only [mul_assoc] at hwhole ⊢
  refine hwhole.congr fun text => ?_
  unfold afterWrapper?
  split
  · rfl
  · simp only [Option.bind_eq_bind, Option.bind_assoc]
    rfl

/-- Parentheses, by which a constructor with a wrapper is told from one without. -/
def isParenthesis (c : Char) : Bool :=
  c == '(' || c == ')'

theorem filter_eq_nil_of_runs {p : Char → Bool} {word : List Char} (h : word ∈ runs p)
    (hp : ∀ c, p c = true → isParenthesis c = false) : word.filter isParenthesis = [] := by
  rw [List.filter_eq_nil_iff]
  intro c hc
  simp [hp c (h c hc)]

theorem isParenthesis_of_isWord {c : Char} (h : isWord c = true) : isParenthesis c = false := by
  have hopen : isWord '(' = false := by decide +kernel
  have hclose : isWord ')' = false := by decide +kernel
  unfold isParenthesis
  simp only [Bool.or_eq_false_iff, beq_eq_false_iff_ne]
  constructor <;> rintro rfl <;> simp_all

theorem isParenthesis_of_isBlank {c : Char} (h : isBlank c = true) : isParenthesis c = false := by
  unfold isParenthesis
  simp only [Bool.or_eq_false_iff, beq_eq_false_iff_ne]
  exact ⟨isBlank_ne_of_eq (by decide) h, isBlank_ne_of_eq (by decide) h⟩

theorem isParenthesis_of_isParameterChar {c : Char} (h : isParameterChar c = true) :
    isParenthesis c = false := by
  simp only [isParameterChar, Bool.or_eq_true, beq_iff_eq] at h
  rcases h with (h | rfl) | rfl
  · exact isParenthesis_of_isWord h
  · rfl
  · rfl

theorem filter_recordFunction {word : List Char} (h : word ∈ recordFunction) :
    ∃ more, word.filter isParenthesis = '(' :: ')' :: more := by
  unfold recordFunction at h
  simp only [mul_assoc] at h
  obtain ⟨_, rfl, _, hword, rfl⟩ := Language.mem_mul.1 h
  obtain ⟨gap, hgap, _, hopen, rfl⟩ := Language.mem_mul.1 hword
  obtain ⟨_, rfl, _, hlist, rfl⟩ := Language.mem_mul.1 hopen
  obtain ⟨parameters, hparameters, _, hclose, rfl⟩ := Language.mem_mul.1 hlist
  obtain ⟨_, rfl, rest, -, rfl⟩ := Language.mem_mul.1 hclose
  refine ⟨rest.filter isParenthesis, ?_⟩
  simp only [List.filter_append, filter_eq_nil_of_runs hgap fun _ => isParenthesis_of_isBlank,
    filter_eq_nil_of_runs hparameters fun _ => isParenthesis_of_isParameterChar]
  rfl

theorem filter_wrapperCall {word : List Char} (h : word ∈ wrapperCall) :
    word.filter isParenthesis = ['('] := by
  unfold wrapperCall at h
  simp only [mul_assoc] at h
  obtain ⟨name, hname, _, hcall, rfl⟩ := Language.mem_mul.1 h
  obtain ⟨_, rfl, gap, hgap, rfl⟩ := Language.mem_mul.1 hcall
  simp only [List.filter_append, filter_eq_nil_of_runs hgap fun _ => isParenthesis_of_isBlank,
    filter_eq_nil_of_runs hname.2 fun _ => isParenthesis_of_isWord]
  rfl

/-- The value of a constructor of tests, up to and including the open brace of its record. -/
theorem reads_variantValue :
    Reads (fun value => match (afterWrapper? value).bind afterRecordBrace? with
      | some record => some record
      | none => afterRecordBrace? value) ((1 + wrapperCall) * recordFunction) := by
  rw [add_mul, one_mul, add_comm]
  refine (reads_afterWrapper?.orElse reads_afterRecordBrace? ?_).congr fun value => ?_
  rotate_left
  · cases (afterWrapper? value).bind afterRecordBrace? <;> rfl
  intro first hfirst second hsecond rest rest' heq
  -- Behind the first parenthesis stands another open one if there is a wrapper, and a closed one if not.
  obtain ⟨call, hcall, inner, hinner, rfl⟩ := Language.mem_mul.1 hfirst
  obtain ⟨more, hmore⟩ := filter_recordFunction hinner
  obtain ⟨more', hmore'⟩ := filter_recordFunction hsecond
  have hfilter := congrArg (List.filter isParenthesis) heq
  simp [List.filter_append, filter_wrapperCall hcall, hmore, hmore'] at hfilter

theorem startsOff_variantValue : StartsOff isBlank ((1 + wrapperCall) * recordFunction) := by
  rw [add_mul, one_mul]
  refine startsOff_recordFunction.add ?_
  unfold wrapperCall
  simp only [mul_assoc]
  intro word hword
  obtain ⟨name, ⟨hne, hname⟩, rest, -, rfl⟩ := Language.mem_mul.1 hword
  obtain ⟨c, name, rfl⟩ := List.exists_cons_of_ne_nil hne
  refine ⟨c, name ++ rest, rfl, ?_⟩
  have hc := hname c List.mem_cons_self
  by_contra hblank
  rw [not_isWord_of_isBlank (by simpa using hblank)] at hc
  cases hc

/-! ### Definitions -/

theorem reads_afterVariant? : Reads afterVariant? variantDefinition := by
  have hlead : StartsOff isBlank ({variantLead} * (variantWords * (equals *
      ((1 + wrapperCall) * recordFunction)))) := by
    refine StartsOff.mul ?_ _
    rintro word rfl
    exact ⟨'$', variantLead.tail, by decide, by decide⟩
  have hvalue := reads_afterEquals reads_variantValue startsOff_variantValue
  have hword := reads_afterVariantWord hvalue (startsOff_isWord_equals _)
  have hwhole := reads_afterVar ((reads_after? variantLead).bind hword) hlead
  unfold variantDefinition
  simp only [mul_assoc] at hwhole ⊢
  exact hwhole.congr fun text => rfl

theorem reads_afterCheckName? : Reads afterCheckName? checkLeft := by
  refine reads_afterVar (reads_after? checkName) ?_
  rintro word rfl
  exact ⟨'$', checkName.tail, by decide, by decide⟩

theorem reads_afterTag? {tag : IdentityTag} (hfield : ∀ c ∈ tag.field.toList, isBlank c = false) :
    Reads (afterTag? tag) (tagField tag) := by
  refine reads_afterBlanksThen? ?_
  cases hchars : tag.field.toList with
  | nil => exact ⟨':', [], rfl, by decide⟩
  | cons c rest => exact ⟨c, rest ++ [':'], rfl, hfield c (by simp [hchars])⟩

/-! ### The check function -/

/-- The end of a line: that of the text, or a line end. -/
def EndsLine (rest : List Char) : Prop :=
  rest = [] ∨ ∃ more, rest = '\n' :: more

theorem atLineEnd?_eq_some {text rest : List Char} :
    atLineEnd? text = some rest ↔ text = rest ∧ EndsLine rest := by
  cases text with
  | nil =>
      rw [atLineEnd?, Option.some.injEq]
      exact ⟨fun h => ⟨h, .inl h.symm⟩, fun h => h.1⟩
  | cons c text =>
      rw [atLineEnd?]
      split
      · next hc =>
        rw [Option.some.injEq]
        exact ⟨fun h => ⟨h, .inr ⟨text, by rw [← h, hc]⟩⟩, fun h => h.1⟩
      · next hc =>
        refine ⟨fun h => (by cases h), ?_⟩
        rintro ⟨rfl, h | ⟨more, h⟩⟩
        · cases h
        · exact absurd (List.cons.inj h).1 hc

/-- A semicolon belongs to the placeholder definition. -/
theorem afterPlaceholder?_eq_bind (text : List Char) :
    afterPlaceholder? text = ((afterEquals? text).bind (after? placeholderName)).bind fun value =>
      match value with
      | ';' :: rest => atLineEnd? rest
      | rest => atLineEnd? rest := by
  rw [Option.bind_assoc]
  rfl

theorem afterPlaceholder?_eq_some {text rest : List Char} :
    afterPlaceholder? text = some rest ↔
      ∃ right ∈ placeholderRight, text = right ++ rest ∧ EndsLine rest := by
  have hname : StartsOff isBlank ({placeholderName} : Language Char) := by
    rintro word rfl
    exact ⟨'$', placeholderName.tail, by decide, by decide⟩
  have hreads := reads_afterEquals (reads_after? placeholderName) hname
  rw [afterPlaceholder?_eq_bind, Option.bind_eq_some_iff]
  unfold placeholderRight
  rw [mul_add, mul_one]
  constructor
  · rintro ⟨value, hvalue, hrest⟩
    obtain ⟨front, hfront, rfl⟩ := (hreads _ _).1 hvalue
    split at hrest
    · obtain ⟨rfl, hend⟩ := atLineEnd?_eq_some.1 hrest
      refine ⟨front ++ [';'], .inr (Language.append_mem_mul hfront rfl), ?_, hend⟩
      rw [List.append_assoc, List.singleton_append]
    · obtain ⟨rfl, hend⟩ := atLineEnd?_eq_some.1 hrest
      exact ⟨front, .inl hfront, rfl, hend⟩
  · rintro ⟨right, hright | hright, rfl, hend⟩
    · refine ⟨rest, (hreads _ _).2 ⟨right, hright, rfl⟩, ?_⟩
      split
      · rcases hend with hend | ⟨more, hend⟩ <;> cases hend
      · exact atLineEnd?_eq_some.2 ⟨rfl, hend⟩
    · obtain ⟨front, hfront, _, rfl, rfl⟩ := Language.mem_mul.1 hright
      refine ⟨';' :: rest, (hreads _ _).2 ⟨front, hfront, List.append_assoc _ _ _⟩, ?_⟩
      exact atLineEnd?_eq_some.2 ⟨rfl, hend⟩

/-- The left-hand side of the placeholder definition that a text starts with, and what follows the
definition. -/
def placeholder? (text : List Char) : Option (List Char × List Char) := do
  let value ← afterCheckName? text
  let after ← afterPlaceholder? value
  return (text.take (text.length - value.length), after)

theorem take_length_sub_length (text rest : List Char) :
    (text ++ rest).take ((text ++ rest).length - rest.length) = text := by
  rw [List.length_append, Nat.add_sub_cancel, List.take_left]

theorem placeholder?_eq_some {text left after : List Char} :
    placeholder? text = some (left, after) ↔ left ∈ checkLeft ∧
      ∃ right ∈ placeholderRight, text = left ++ (right ++ after) ∧ EndsLine after := by
  simp only [placeholder?, Option.bind_eq_bind, Option.bind_eq_some_iff, Option.pure_def,
    Option.some.injEq, Prod.mk.injEq]
  constructor
  · rintro ⟨value, hvalue, after, hafter, rfl, rfl⟩
    obtain ⟨left, hleft, rfl⟩ := (reads_afterCheckName? _ _).1 hvalue
    obtain ⟨right, hright, rfl, hend⟩ := afterPlaceholder?_eq_some.1 hafter
    rw [take_length_sub_length]
    exact ⟨hleft, right, hright, rfl, hend⟩
  · rintro ⟨hleft, right, hright, rfl, hend⟩
    exact ⟨right ++ after, (reads_afterCheckName? _ _).2 ⟨left, hleft, rfl⟩, after,
      afterPlaceholder?_eq_some.2 ⟨right, hright, rfl, hend⟩, take_length_sub_length _ _, rfl⟩

theorem lineMentions_iff {field text : List Char} :
    lineMentions field text = true ↔ ∃ word ∈ mention field, word <+: text := by
  have hmem (word : List Char) :
      word ∈ mention field ↔ ∃ run, (∀ c ∈ run, (c != '\n') = true) ∧ run ++ field = word := by
    unfold mention
    rw [Language.mem_mul]
    constructor
    · rintro ⟨run, hrun, _, rfl, rfl⟩
      exact ⟨run, hrun, rfl⟩
    · rintro ⟨run, hrun, rfl⟩
      exact ⟨run, hrun, field, rfl, rfl⟩
  simp only [hmem]
  induction text with
  | nil =>
      simp only [lineMentions, List.isEmpty_iff, List.prefix_nil]
      constructor
      · rintro rfl
        exact ⟨[], ⟨[], by simp, rfl⟩, rfl⟩
      · rintro ⟨_, ⟨run, -, rfl⟩, h⟩
        exact (List.append_eq_nil_iff.1 h).2
  | cons c text ih =>
      rw [lineMentions, Bool.or_eq_true, Bool.and_eq_true, List.isPrefixOf_iff_prefix]
      constructor
      · rintro (h | ⟨hc, h⟩)
        · exact ⟨field, ⟨[], by simp, rfl⟩, h⟩
        · obtain ⟨_, ⟨run, hrun, rfl⟩, h⟩ := ih.1 h
          exact ⟨c :: run ++ field, ⟨c :: run, List.forall_mem_cons.2 ⟨hc, hrun⟩, rfl⟩,
            List.cons_prefix_cons.2 ⟨rfl, h⟩⟩
      · rintro ⟨_, ⟨run, hrun, rfl⟩, h⟩
        cases run with
        | nil => exact .inl h
        | cons first run =>
            obtain ⟨rfl, htail⟩ := List.cons_prefix_cons.1 h
            rw [List.forall_mem_cons] at hrun
            exact .inr ⟨hrun.1, ih.2 ⟨run ++ field, ⟨run, hrun.2, rfl⟩, htail⟩⟩

/-- The value of a check function up to and including the arrow. -/
def patchedStart : Language Char :=
  checkLeft * equals * literal "value" * blanks * {['=', '>']}

/-- What follows the arrow of a check function. -/
def afterPatchedStart? (text : List Char) : Option (List Char) := do
  let value ← after? "value".toList (← afterEquals? (← afterCheckName? text))
  afterBlanksThen? ['=', '>'] value

theorem reads_afterPatchedStart? : Reads afterPatchedStart? patchedStart := by
  have hvalue : StartsOff isBlank (literal "value" * (blanks * {['=', '>']})) :=
    (startsOff_literal ⟨'v', "alue".toList, by decide, by decide⟩).mul _
  have harrow : Reads (afterBlanksThen? ['=', '>']) (blanks * {['=', '>']}) :=
    reads_afterBlanksThen? ⟨'=', ['>'], rfl, by decide⟩
  have hwhole := reads_afterCheckName?.bind
    (reads_afterEquals ((reads_literal "value").bind harrow) hvalue)
  unfold patchedStart
  simp only [mul_assoc] at hwhole ⊢
  exact hwhole

theorem isPatchedCheck_eq (field text : List Char) :
    isPatchedCheck field text = (afterPatchedStart? text).any (lineMentions field) := by
  unfold isPatchedCheck
  change (match afterPatchedStart? text with
    | some value => lineMentions field value
    | none => false) = _
  cases afterPatchedStart? text <;> rfl

theorem isPatchedCheck_iff {field text : List Char} :
    isPatchedCheck field text = true ↔ ∃ word ∈ patchedStart * mention field, word <+: text := by
  rw [isPatchedCheck_eq, Option.any_eq_true]
  constructor
  · rintro ⟨rest, hrest, hmention⟩
    obtain ⟨front, hfront, rfl⟩ := (reads_afterPatchedStart? _ _).1 hrest
    obtain ⟨word, hword, hprefix⟩ := lineMentions_iff.1 hmention
    exact ⟨front ++ word, Language.append_mem_mul hfront hword,
      (List.prefix_append_right_inj front).2 hprefix⟩
  · rintro ⟨_, hfull, hprefix⟩
    obtain ⟨front, hfront, word, hword, rfl⟩ := Language.mem_mul.1 hfull
    obtain ⟨rest, rfl⟩ := hprefix
    refine ⟨word ++ rest, (reads_afterPatchedStart? _ _).2 ⟨front, hfront, List.append_assoc _ _ _⟩, ?_⟩
    exact lineMentions_iff.2 ⟨word, hword, List.prefix_append _ _⟩

end ElmSuite.Script
