import ElmSuite.Proofs.Elm.Lexeme
import ElmSuite.Proofs.Elm.QuoteMark

/-!
What a string literal adds to the exposed values of a module.  A literal in single quote marks adds
nothing.  One in triple quote marks may hold several lines, which are searched like code: each that
starts like a declaration adds a value.
-/

namespace ElmSuite.Elm

namespace Lexeme

/-- A string literal. -/
def isString : Lexeme → Bool
  | .string _ => true
  | .longString _ => true
  | _ => false

/-- Two string literals in marks of the same kind. -/
def sameKind : Lexeme → Lexeme → Bool
  | .string _, .string _ => true
  | .longString _, .longString _ => true
  | _, _ => false

theorem isString_of_sameKind {literal other : Lexeme} (h : literal.sameKind other = true) :
    literal.isString = true ∧ other.isString = true := by
  cases literal <;> cases other <;> first | exact ⟨rfl, rfl⟩ | cases h

/-- What of a literal is searched line by line. -/
def lines : Lexeme → List Char
  | .longString content => content
  | _ => []

/-- Whether no line of a literal starts like a declaration or a module header. -/
def Silent (literal : Lexeme) : Prop :=
  declaredFrom false literal.lines = [] ∧ afterFirstHeader? false literal.lines = none

/-- A literal in single quote marks is silent. -/
theorem silent_string (content : List Char) : (string content).Silent :=
  ⟨rfl, rfl⟩

end Lexeme

/-- Whether the module header of a code, if it has one, is followed by a closed exposing list. -/
def headerClosed (code : List Char) : Bool :=
  match afterFirstHeader? true code with
  | none => true
  | some body =>
      match afterExposing? false body with
      | none => false
      | some list => (upToClose? 0 list).isSome

/-- What a module exposes that has a literal between two pieces of its code: the header may stand in
front of the literal, on a line of it, or behind it. -/
def exposedAround (code : List Char) (literal : Lexeme) (behind : List Char) : Exposing :=
  if (afterFirstHeader? true code).isSome then exposedNames code
  else exposedNames (literal.kept ++ behind)

/-- The exposed values of a module that has a literal between two pieces of its code. -/
def valuesAround (code : List Char) (literal : Lexeme) (behind : List Char) : List String :=
  (declaredFrom true code ++ declaredFrom false literal.lines ++ declaredFrom false behind).eraseDups.filter
    (exposedAround code literal behind).allows

theorem exposedNames_eq_of_header {source other : List Char}
    (h : afterFirstHeader? true source = afterFirstHeader? true other) :
    exposedNames source = exposedNames other := by
  unfold exposedNames
  rw [h]

theorem exists_list_of_headerClosed {code body : List Char} (hclosed : headerClosed code = true)
    (hheader : afterFirstHeader? true code = some body) :
    ∃ list inside, afterExposing? false body = some list ∧ upToClose? 0 list = some inside := by
  simp only [headerClosed, hheader] at hclosed
  cases hlist : afterExposing? false body with
  | none => simp [hlist] at hclosed
  | some list =>
      simp only [hlist] at hclosed
      obtain ⟨inside, hinside⟩ := Option.isSome_iff_exists.1 hclosed
      exact ⟨list, inside, rfl, hinside⟩

/-- A closed header in front of a quote mark settles what is exposed. -/
theorem exposedNames_append_mark {code body : List Char} (rest : List Char)
    (hclosed : headerClosed code = true) (hheader : afterFirstHeader? true code = some body) :
    exposedNames (code ++ '"' :: rest) = exposedNames code := by
  obtain ⟨list, inside, hlist, hinside⟩ := exists_list_of_headerClosed hclosed hheader
  have hlong : afterFirstHeader? true (code ++ '"' :: rest) = some (body ++ '"' :: rest) := by
    rw [afterFirstHeader?_append_mark, hheader]
    rfl
  have hparens : insideParens (list ++ '"' :: rest) = insideParens list := by
    rw [insideParens, insideParens, hinside, upToClose?_append _ hinside]
    rfl
  unfold exposedNames
  rw [hlong, hheader]
  simp only [afterExposing?_append_mark rest hlist, hlist, hparens]

/-- Without a header in front of a quote mark, what is exposed is settled behind it. -/
theorem exposedNames_append_mark_of_none {code : List Char} (rest : List Char)
    (hheader : afterFirstHeader? true code = none) :
    exposedNames (code ++ '"' :: rest) = exposedNames ('"' :: rest) := by
  apply exposedNames_eq_of_header
  have hmark := afterFirstHeader?_append_mark true [] rest
  rw [List.nil_append] at hmark
  rw [afterFirstHeader?_append_mark, hheader, hmark]
  rfl

theorem not_newline_mem_of_isStringContent {content : List Char}
    (h : isStringContent content = true) : '\n' ∉ content := by
  fun_induction isStringContent content with
  | case1 => exact List.not_mem_nil
  | case2 c inside ih =>
      simp only [Bool.and_eq_true, bne_iff_ne] at h
      simpa using ⟨Ne.symm h.1, ih h.2⟩
  | case3 c inside hescape ih =>
      simp only [Bool.and_eq_true, bne_iff_ne] at h
      simpa using ⟨Ne.symm h.1.2, ih h.2⟩

/-- The lines of a literal are all that is searched of it. -/
theorem declaredFrom_kept {literal : Lexeme} {rest : List Char} (hstring : literal.isString = true)
    (hclosed : literal.closedBefore rest = true) (code behind : List Char) :
    declaredFrom true (code ++ (literal.kept ++ behind)) =
      declaredFrom true code ++ declaredFrom false literal.lines ++ declaredFrom false behind := by
  cases literal with
  | string content =>
      simp only [Lexeme.closedBefore, Bool.and_eq_true] at hclosed
      have hcontent := declaredFrom_eq_nil (not_newline_mem_of_isStringContent hclosed.1)
      simp [Lexeme.kept, Lexeme.text, Lexeme.lines, declaredFrom_append_mark, declaredFrom, hcontent]
  | longString content =>
      simp [Lexeme.kept, Lexeme.text, Lexeme.lines, declaredFrom_append_mark]
  | _ => cases hstring

theorem exists_kept_eq_mark_cons {literal : Lexeme} (hstring : literal.isString = true) :
    ∃ inside, literal.kept = '"' :: inside := by
  cases literal with
  | string content => exact ⟨_, rfl⟩
  | longString content => exact ⟨_, rfl⟩
  | _ => cases hstring

/-- What a source exposes that has a literal between two pieces of its code. -/
theorem exposedNames_kept {literal : Lexeme} {code : List Char} (hstring : literal.isString = true)
    (hheader : headerClosed code = true) (behind : List Char) :
    exposedNames (code ++ (literal.kept ++ behind)) = exposedAround code literal behind := by
  obtain ⟨inside, hkept⟩ := exists_kept_eq_mark_cons hstring
  unfold exposedAround
  rw [hkept, List.cons_append]
  cases hfirst : afterFirstHeader? true code with
  | none => simpa using exposedNames_append_mark_of_none _ hfirst
  | some body => simpa using exposedNames_append_mark _ hheader hfirst

/-- The exposed values of a source with a literal in it. -/
theorem exposedValues_literal {before : List Lexeme} {literal : Lexeme} {after : List Char}
    (hstring : literal.isString = true) (hclosed : closedBefore after (before ++ [literal]) = true)
    (hplain : ∀ lexeme ∈ before, lexeme.plain = true) (hliteral : literal.plain = true)
    (hheader : headerClosed (codeOf before) = true) :
    exposedValues (textOf (before ++ [literal]) ++ after) =
      valuesAround (codeOf before) literal (stripComments after) := by
  have hcode : stripComments (textOf (before ++ [literal]) ++ after) =
      codeOf before ++ (literal.kept ++ stripComments after) := by
    have hall : ∀ lexeme ∈ before ++ [literal], lexeme.plain = true := by
      simpa [or_imp, forall_and] using ⟨hplain, hliteral⟩
    rw [stripComments, stripFrom_textOf hclosed hall]
    simp [codeOf, stripComments]
  simp only [exposedValues, valuesAround, hcode,
    declaredFrom_kept hstring (closedBefore_of_append_singleton hclosed),
    exposedNames_kept hstring hheader]

/-- A literal that is silent leaves it to the code behind what is exposed. -/
theorem afterFirstHeader?_kept {literal : Lexeme} {rest : List Char}
    (hstring : literal.isString = true) (hclosed : literal.closedBefore rest = true)
    (hsilent : literal.Silent) (behind : List Char) :
    afterFirstHeader? true (literal.kept ++ behind) = afterFirstHeader? false behind := by
  cases literal with
  | string content =>
      simp only [Lexeme.closedBefore, Bool.and_eq_true] at hclosed
      have hcontent := afterFirstHeader?_eq_none (not_newline_mem_of_isStringContent hclosed.1)
      simp [Lexeme.kept, Lexeme.text, afterFirstHeader?_append_mark, hcontent]
  | longString content =>
      have hcontent : afterFirstHeader? false content = none := hsilent.2
      simp [Lexeme.kept, Lexeme.text, afterFirstHeader?_append_mark, hcontent]
  | _ => cases hstring

/-- Silent literals are alike to the search. -/
theorem valuesAround_eq_of_silent {old new : Lexeme} {rest : List Char} (hold : old.isString = true)
    (hnew : new.isString = true) (holdClosed : old.closedBefore rest = true)
    (hnewClosed : new.closedBefore rest = true) (holdSilent : old.Silent) (hnewSilent : new.Silent)
    (code behind : List Char) : valuesAround code old behind = valuesAround code new behind := by
  have hexposed : exposedNames (old.kept ++ behind) = exposedNames (new.kept ++ behind) := by
    apply exposedNames_eq_of_header
    rw [afterFirstHeader?_kept hold holdClosed holdSilent,
      afterFirstHeader?_kept hnew hnewClosed hnewSilent]
  simp only [valuesAround, exposedAround, hexposed, holdSilent.1, hnewSilent.1]

/-- Another content of a literal leaves the exposed values as they are exactly if the values that
its lines declare do, and then in particular if no line of either content starts like a declaration
or a module header. -/
theorem exposedValues_replace_literal {before : List Lexeme} {old new : Lexeme} {after : List Char}
    (hkind : old.sameKind new = true) (hold : closedBefore after (before ++ [old]) = true)
    (hnew : closedBefore after (before ++ [new]) = true)
    (hplain : ∀ lexeme ∈ before, lexeme.plain = true) (holdPlain : old.plain = true)
    (hnewPlain : new.plain = true) (hheader : headerClosed (codeOf before) = true) :
    (exposedValues (textOf (before ++ [old]) ++ after) =
          exposedValues (textOf (before ++ [new]) ++ after) ↔
        valuesAround (codeOf before) old (stripComments after) =
          valuesAround (codeOf before) new (stripComments after)) ∧
      (old.Silent → new.Silent →
        exposedValues (textOf (before ++ [old]) ++ after) =
          exposedValues (textOf (before ++ [new]) ++ after)) := by
  obtain ⟨holdString, hnewString⟩ := Lexeme.isString_of_sameKind hkind
  rw [exposedValues_literal holdString hold hplain holdPlain hheader,
    exposedValues_literal hnewString hnew hplain hnewPlain hheader]
  refine ⟨Iff.rfl, fun holdSilent hnewSilent => ?_⟩
  exact valuesAround_eq_of_silent holdString hnewString (closedBefore_of_append_singleton hold)
    (closedBefore_of_append_singleton hnew) holdSilent hnewSilent _ _

theorem exposedValues_of_one_paragraph :
    exposedValues (textOf ("module A exposing (..)\nx = ".toList.map .code ++
          [.longString "an = sign".toList]) ++ ['\n']) =
      exposedValues (textOf ("module A exposing (..)\nx = ".toList.map .code ++
          [.longString "two\n  lines".toList]) ++ ['\n']) := by
  refine (exposedValues_replace_literal ?_ ?_ ?_ ?_ ?_ ?_ ?_).2 ⟨?_, ?_⟩ ⟨?_, ?_⟩
  all_goals decide +kernel

-- A line of a literal that starts like a declaration adds a value.
example :
    exposedValues "module A exposing (..)\nx = \"\"\"\ny = 1\n\"\"\"\n".toList = ["x", "y"] := by
  decide +kernel

end ElmSuite.Elm
