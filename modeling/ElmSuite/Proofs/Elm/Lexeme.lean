import ElmSuite.Elm.Comments

/-!
The lexical elements of Elm source, by the rules of the language, and what the removal of comments
makes of each.  The removal knows no escapes in a string in triple quote marks, so there it follows
the language only as long as no escape hides three quote marks in a row.
-/

namespace ElmSuite.Elm

/-- A lexical element: a comment or literal with what stands inside its marks, or one character of
the code outside of them.  A line comment takes the end of its line along. -/
inductive Lexeme
  | code (c : Char)
  | lineComment (content : List Char)
  | blockComment (content : List Char)
  | string (content : List Char)
  | longString (content : List Char)
  | character (content : List Char)

/-- What stands inside a block comment: every inner comment is closed, and `-}` closes no other. -/
def isBlockContent : Nat → List Char → Bool
  | outer, '{' :: '-' :: rest => isBlockContent (outer + 1) rest
  | outer + 1, '-' :: '}' :: rest => isBlockContent outer rest
  | 0, '-' :: '}' :: _ => false
  | _, ['{'] => false
  | outer, _ :: rest => isBlockContent outer rest
  | outer, [] => outer = 0

/-- What stands inside single quote marks: one line, with a quote mark only behind a backslash. -/
def isStringContent : List Char → Bool
  | [] => true
  | '\\' :: c :: rest => c != '\n' && isStringContent rest
  | c :: rest => c != '\\' && c != '"' && c != '\n' && isStringContent rest

/-- What stands inside triple quote marks: no three quote marks in a row without a backslash in
front of one, those at the end counted. -/
def isLongContent : List Char → Bool
  | [] => true
  | '\\' :: _ :: rest => isLongContent rest
  | '"' :: rest => !List.isPrefixOf ['"', '"'] (rest ++ ['"', '"', '"']) && isLongContent rest
  | c :: rest => c != '\\' && isLongContent rest

/-- What stands inside the marks of a character: the character or an escape. -/
def isCharacterContent : List Char → Bool
  | '\\' :: _ :: rest => !rest.contains '\''
  | [c] => c != '\\' && c != '\''
  | _ => false

/-- Whether three quote marks stand in a row. -/
def hasTriple : List Char → Bool
  | '"' :: '"' :: '"' :: _ => true
  | _ :: rest => hasTriple rest
  | [] => false

namespace Lexeme

/-- The text of a lexical element. -/
def text : Lexeme → List Char
  | .code c => [c]
  | .lineComment content => '-' :: '-' :: (content ++ ['\n'])
  | .blockComment content => '{' :: '-' :: (content ++ ['-', '}'])
  | .string content => '"' :: (content ++ ['"'])
  | .longString content => '"' :: '"' :: '"' :: (content ++ ['"', '"', '"'])
  | .character content => '\'' :: (content ++ ['\''])

/-- Whether a lexical element is one, and closed at its end, when `rest` follows. -/
def closedBefore (rest : List Char) : Lexeme → Bool
  | .code c =>
      c != '"' && c != '\'' && !(c == '{' && rest.head? == some '-') &&
        !(c == '-' && rest.head? == some '-')
  | .lineComment content => !content.contains '\n'
  | .blockComment content => isBlockContent 0 content
  | .string content => isStringContent content && (!content.isEmpty || rest.head? != some '"')
  | .longString content => isLongContent content
  | .character content => isCharacterContent content

/-- Whether no escape hides three quote marks inside of triple quote marks. -/
def plain : Lexeme → Bool
  | .longString content => !hasTriple (content ++ ['"', '"'])
  | _ => true

/-- What the removal of comments leaves. -/
def kept : Lexeme → List Char
  | .lineComment _ => ['\n']
  | .blockComment content => content.filter (· == '\n')
  | lexeme => lexeme.text

end Lexeme

/-- The text of a list of lexical elements. -/
def textOf (lexemes : List Lexeme) : List Char :=
  lexemes.flatMap Lexeme.text

/-- The text of a list of lexical elements without the comments. -/
def codeOf (lexemes : List Lexeme) : List Char :=
  lexemes.flatMap Lexeme.kept

/-- Whether all lexical elements of a list are closed when `rest` follows the last one. -/
def closedBefore (rest : List Char) : List Lexeme → Bool
  | [] => true
  | lexeme :: lexemes =>
      lexeme.closedBefore (textOf lexemes ++ rest) && closedBefore rest lexemes

theorem closedBefore_append (rest : List Char) (lexemes more : List Lexeme) :
    closedBefore rest (lexemes ++ more) =
      (closedBefore (textOf more ++ rest) lexemes && closedBefore rest more) := by
  induction lexemes with
  | nil => rfl
  | cons lexeme lexemes ih =>
      simp [closedBefore, ih, textOf, List.flatMap_append, Bool.and_assoc]

theorem closedBefore_of_append_singleton {rest : List Char} {lexemes : List Lexeme} {last : Lexeme}
    (h : closedBefore rest (lexemes ++ [last]) = true) : last.closedBefore rest = true := by
  rw [closedBefore_append, Bool.and_eq_true] at h
  simpa [closedBefore, textOf] using h.2

/-! ### The scan of one lexical element -/

attribute [local simp] stripFrom

theorem stripFrom_lineComment {content : List Char} (rest : List Char) (h : '\n' ∉ content) :
    stripFrom .lineComment (content ++ '\n' :: rest) = '\n' :: stripFrom .code rest := by
  induction content with
  | nil => simp [stripFrom]
  | cons c content ih =>
      rw [List.mem_cons, not_or] at h
      rw [List.cons_append, stripFrom, ih h.2]
      exact fun heq => h.1 heq.symm

/-- A line comment may end with the text. -/
theorem stripFrom_openLineComment {content : List Char} (h : '\n' ∉ content) :
    stripFrom .lineComment content = [] := by
  induction content with
  | nil => rfl
  | cons c content ih =>
      rw [List.mem_cons, not_or] at h
      rw [stripFrom, ih h.2]
      exact fun heq => h.1 heq.symm

theorem stripFrom_blockComment_cons (outer : Nat) {c : Char} {rest : List Char} (hline : c ≠ '\n')
    (hopen : c = '{' → rest.head? ≠ some '-') (hclose : c = '-' → rest.head? ≠ some '}') :
    stripFrom (.blockComment outer) (c :: rest) = stripFrom (.blockComment outer) rest := by
  have hnoOpen : ∀ more, c = '{' → rest = '-' :: more → False := by
    rintro more hc rfl
    exact hopen hc rfl
  have hnoClose : ∀ more, c = '-' → rest = '}' :: more → False := by
    rintro more hc rfl
    exact hclose hc rfl
  rw [stripFrom]
  · exact hnoOpen
  · exact fun more _ => hnoClose more
  · exact fun _ more _ => hnoClose more
  · exact hline

theorem stripFrom_blockComment {outer : Nat} {content : List Char} (rest : List Char)
    (h : isBlockContent outer content = true) :
    stripFrom (.blockComment outer) (content ++ '-' :: '}' :: rest) =
      content.filter (· == '\n') ++ stripFrom .code rest := by
  fun_induction isBlockContent outer content with
  | case1 outer inside ih => simpa [stripFrom] using ih h
  | case2 outer inside ih => simpa [stripFrom] using ih h
  | case3 => cases h
  | case4 => cases h
  | case5 outer c inside hopen hclose hclosed hlast ih =>
      by_cases hline : c = '\n'
      · subst hline
        simpa [stripFrom] using ih h
      · rw [List.cons_append, List.filter_cons_of_neg (by simpa using hline), ← ih h]
        cases inside with
        | nil => exact stripFrom_blockComment_cons outer hline (fun hc => absurd rfl (hlast hc)) (by simp)
        | cons d inside =>
            refine stripFrom_blockComment_cons outer hline ?_ ?_
            · rintro rfl hd
              exact hopen inside rfl (by simpa using hd)
            · rintro rfl hd
              cases outer with
              | zero => exact hclosed inside rfl rfl (by simpa using hd)
              | succ outer => exact hclose outer inside rfl rfl (by simpa using hd)
  | case6 outer =>
      obtain rfl : outer = 0 := by simpa using h
      simp [stripFrom]

theorem stripFrom_string {content : List Char} (rest : List Char)
    (h : isStringContent content = true) :
    stripFrom .text (content ++ '"' :: rest) = content ++ '"' :: stripFrom .code rest := by
  fun_induction isStringContent content with
  | case1 => simp [stripFrom]
  | case2 c inside ih =>
      simp only [Bool.and_eq_true] at h
      simpa [stripFrom] using ih h.2
  | case3 c inside hescape ih =>
      simp only [Bool.and_eq_true, bne_iff_ne] at h
      obtain ⟨⟨⟨hslash, hmark⟩, hline⟩, hinside⟩ := h
      rw [List.cons_append, stripFrom, ih hinside, List.cons_append]
      · exact hmark
      · exact hline
      · exact fun d _ heq => absurd heq hslash

theorem stripFrom_longString {content : List Char} (rest : List Char)
    (h : hasTriple (content ++ ['"', '"']) = false) :
    stripFrom .longText (content ++ '"' :: '"' :: '"' :: rest) =
      content ++ '"' :: '"' :: '"' :: stripFrom .code rest := by
  induction content with
  | nil => simp [stripFrom]
  | cons c content ih =>
      have htail : hasTriple (content ++ ['"', '"']) = false := by
        rw [List.cons_append, hasTriple.eq_def] at h
        split at h <;> simp_all
      rw [List.cons_append, stripFrom, ih htail, List.cons_append]
      rintro more rfl hmore
      rcases content with _ | ⟨d, _ | ⟨e, content⟩⟩
      · simp [hasTriple] at h
      · obtain ⟨rfl, -⟩ : d = '"' ∧ _ := by simpa using hmore
        simp [hasTriple] at h
      · obtain ⟨rfl, rfl, -⟩ : d = '"' ∧ e = '"' ∧ _ := by simpa using hmore
        simp [hasTriple] at h

theorem stripFrom_character {content : List Char} (rest : List Char) (h : '\'' ∉ content) :
    stripFrom .character (content ++ '\'' :: rest) = content ++ '\'' :: stripFrom .code rest := by
  induction content with
  | nil => simp [stripFrom]
  | cons c content ih =>
      rw [List.mem_cons, not_or] at h
      rw [List.cons_append, stripFrom, ih h.2, List.cons_append]
      exact fun heq => h.1 heq.symm

theorem stripFrom_code {c : Char} (rest : List Char)
    (h : (Lexeme.code c).closedBefore rest = true) :
    stripFrom .code (c :: rest) = c :: stripFrom .code rest := by
  simp only [Lexeme.closedBefore, Bool.and_eq_true, bne_iff_ne, Bool.not_eq_true',
    Bool.and_eq_false_iff, beq_eq_false_iff_ne] at h
  obtain ⟨⟨⟨hmark, hquote⟩, hopen⟩, hline⟩ := h
  rw [stripFrom]
  · rintro more rfl rfl
    simp at hopen
  · rintro more rfl rfl
    simp at hline
  · exact fun _ hc _ => hmark hc
  · exact hmark
  · exact fun _ _ hc _ => hquote hc
  · exact fun _ _ hc _ => hquote hc

/-- Two quote marks that open a literal open no longer one. -/
theorem ne_quoteMarks_of_isStringContent {content rest : List Char}
    (hcontent : isStringContent content = true) (hempty : content = [] → rest.head? ≠ some '"')
    (more : List Char) : content ++ '"' :: rest ≠ '"' :: '"' :: more := by
  intro heq
  rcases content with _ | ⟨c, content⟩
  · apply hempty rfl
    rw [(List.cons.inj heq).2]
    rfl
  · rw [List.cons_append, List.cons.injEq] at heq
    obtain ⟨rfl, -⟩ := heq
    rw [isStringContent] at hcontent
    · cases hcontent
    · exact fun _ _ hslash _ => absurd hslash (by decide)

theorem isCharacterContent_of_ne {c : Char} (hc : c ≠ '\\') (d : Char) (rest : List Char) :
    isCharacterContent (c :: d :: rest) = false := by
  -- With all of the library at hand, the equations of the function are not found: they depend on a
  -- statement about all characters, which is decided one by one.
  delta isCharacterContent isCharacterContent.match_1
  exact dif_neg hc

theorem of_isCharacterContent {content : List Char} (h : isCharacterContent content = true) :
    (∃ c inside, content = '\\' :: c :: inside ∧ '\'' ∉ inside) ∨ ∃ c, content = [c] ∧ c ≠ '\\' := by
  rcases content with _ | ⟨c, _ | ⟨d, rest⟩⟩
  · cases h
  · right
    refine ⟨c, rfl, ?_⟩
    rintro rfl
    cases h
  · left
    by_cases hc : c = '\\'
    · subst hc
      have hrest : (!rest.contains '\'') = true := h
      rw [Bool.not_eq_true', List.contains_eq_mem, decide_eq_false_iff_not] at hrest
      exact ⟨d, rest, rfl, hrest⟩
    · rw [isCharacterContent_of_ne hc] at h
      cases h

theorem stripFrom_characterText {content : List Char} (rest : List Char)
    (h : (∃ c inside, content = '\\' :: c :: inside ∧ '\'' ∉ inside) ∨ ∃ c, content = [c] ∧ c ≠ '\\') :
    stripFrom .code ('\'' :: (content ++ '\'' :: rest)) =
      '\'' :: (content ++ '\'' :: stripFrom .code rest) := by
  rcases h with ⟨c, inside, rfl, hinside⟩ | ⟨c, rfl, hc⟩
  · rw [List.cons_append, List.cons_append, stripFrom, stripFrom_character rest hinside]
    rfl
  · rw [List.cons_append, List.nil_append, stripFrom]
    · simp [stripFrom]
    · exact fun _ _ heq _ => hc heq

/-- The scan passes a closed lexical element and is back in the code behind it, unless an escape
hides three quote marks from it. -/
theorem stripFrom_lexeme {lexeme : Lexeme} {rest : List Char}
    (hclosed : lexeme.closedBefore rest = true) (hplain : lexeme.plain = true) :
    stripFrom .code (lexeme.text ++ rest) = lexeme.kept ++ stripFrom .code rest := by
  cases lexeme with
  | code c => exact stripFrom_code rest hclosed
  | lineComment content =>
      have hline : '\n' ∉ content := by simpa [Lexeme.closedBefore] using hclosed
      simpa [Lexeme.text, Lexeme.kept, stripFrom] using stripFrom_lineComment rest hline
  | blockComment content =>
      simpa [Lexeme.text, Lexeme.kept, stripFrom] using stripFrom_blockComment rest hclosed
  | string content =>
      simp only [Lexeme.closedBefore, Bool.and_eq_true] at hclosed
      obtain ⟨hcontent, hempty⟩ := hclosed
      simp only [Lexeme.text, Lexeme.kept, List.cons_append, List.append_assoc, List.nil_append]
      rw [stripFrom, stripFrom_string rest hcontent]
      apply ne_quoteMarks_of_isStringContent hcontent
      intro hnil
      simpa [hnil] using hempty
  | longString content =>
      have hmarks : hasTriple (content ++ ['"', '"']) = false := by simpa [Lexeme.plain] using hplain
      simpa [Lexeme.text, Lexeme.kept, stripFrom] using stripFrom_longString rest hmarks
  | character content =>
      simp only [Lexeme.text, Lexeme.kept, List.cons_append, List.append_assoc, List.nil_append]
      exact stripFrom_characterText rest (of_isCharacterContent hclosed)

/-- The scan passes closed lexical elements and is back in the code behind them. -/
theorem stripFrom_textOf {lexemes : List Lexeme} {rest : List Char}
    (hclosed : closedBefore rest lexemes = true) (hplain : ∀ lexeme ∈ lexemes, lexeme.plain = true) :
    stripFrom .code (textOf lexemes ++ rest) = codeOf lexemes ++ stripFrom .code rest := by
  induction lexemes with
  | nil => rfl
  | cons lexeme lexemes ih =>
      simp only [closedBefore, Bool.and_eq_true] at hclosed
      rw [List.forall_mem_cons] at hplain
      have hlexeme := stripFrom_lexeme hclosed.1 hplain.1
      have hrest := ih hclosed.2 hplain.2
      simp only [textOf, codeOf, List.flatMap_cons, List.append_assoc] at hlexeme hrest ⊢
      rw [hlexeme, hrest]

end ElmSuite.Elm
