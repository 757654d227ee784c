import ElmSuite.Proofs.Elm.Lexeme

/-!
The removal of comments from a text that is a sequence of lexical elements.  It drops the comments
except for the line ends inside of block comments, and keeps every other element as it is.  Unlike the
rules of the language, the removal ends a string in triple quote marks at the first three quote marks
in a row, so such strings are taken that way here.
-/

namespace ElmSuite.Elm

/-- What stands inside a block comment: characters and closed block comments.  With what follows it,
up to the mark at the end, no character looks like the first one of a mark. -/
inductive Nested : List Char → Prop
  | nil : Nested []
  | char {c : Char} {rest : List Char} (hopen : ¬ ['{', '-'] <+: c :: (rest ++ ['-', '}']))
      (hclose : ¬ ['-', '}'] <+: c :: (rest ++ ['-', '}'])) (hrest : Nested rest) : Nested (c :: rest)
  | comment {inner rest : List Char} (hinner : Nested inner) (hrest : Nested rest) :
      Nested ('{' :: '-' :: (inner ++ '-' :: '}' :: rest))

theorem head?_ne_of_not_prefix {c d e : Char} {rest more : List Char} (hc : c = d)
    (h : ¬ [d, e] <+: c :: (rest ++ ['-', '}'])) :
    (rest ++ '-' :: '}' :: more).head? ≠ some e := by
  subst hc
  intro hhead
  apply h
  cases rest with
  | nil =>
      obtain rfl : '-' = e := by simpa using hhead
      exact ⟨['}'], rfl⟩
  | cons f rest =>
      obtain rfl : f = e := by simpa using hhead
      exact ⟨rest ++ ['-', '}'], rfl⟩

/-- The scan passes what stands inside a block comment and is as deep behind it as in front. -/
theorem Nested.stripFrom {content : List Char} (h : Nested content) (outer : Nat) (more : List Char) :
    stripFrom (.blockComment outer) (content ++ '-' :: '}' :: more) =
      content.filter (· == '\n') ++ Elm.stripFrom (.blockComment outer) ('-' :: '}' :: more) := by
  induction h generalizing outer more with
  | nil => rfl
  | @char c rest hopen hclose _ ih =>
      by_cases hline : c = '\n'
      · subst hline
        rw [List.cons_append, Elm.stripFrom.eq_def]
        simp [ih]
      · rw [List.cons_append, List.filter_cons_of_neg (by simpa using hline),
          stripFrom_blockComment_cons outer hline (fun hc => head?_ne_of_not_prefix hc hopen)
            (fun hc => head?_ne_of_not_prefix hc hclose), ih]
  | @comment inner rest _ _ hinner hrest =>
      have hdeeper := hinner (outer + 1) (rest ++ '-' :: '}' :: more)
      simp only [List.cons_append, List.append_assoc] at hdeeper ⊢
      rw [Elm.stripFrom, hdeeper, Elm.stripFrom, hrest]
      simp

namespace Lexeme

/-- The text of a lexical element, where the end of its line is no part of a line comment. -/
def spelling : Lexeme → List Char
  | .lineComment content => '-' :: '-' :: content
  | lexeme => lexeme.text

/-- What is left of a lexical element: nothing of a line comment, the line ends of a block comment, and
all of every other. -/
def remainder : Lexeme → List Char
  | .lineComment _ => []
  | lexeme => lexeme.kept

/-- A lexical element is one, and ends where its text does, when `rest` follows. -/
def EndsBefore (rest : List Char) : Lexeme → Prop
  | .code c => c ≠ '"' ∧ c ≠ '\'' ∧ ¬ ['{', '-'] <+: c :: rest ∧ ¬ ['-', '-'] <+: c :: rest
  | .lineComment content => '\n' ∉ content ∧ (rest = [] ∨ ∃ more, rest = '\n' :: more)
  | .blockComment content => Nested content
  | .string content => isStringContent content = true ∧ (content = [] → rest.head? ≠ some '"')
  | .longString content => hasTriple (content ++ ['"', '"']) = false
  | .character content =>
      (∃ c inside, content = '\\' :: c :: inside ∧ '\'' ∉ inside) ∨ ∃ c, content = [c] ∧ c ≠ '\\'

end Lexeme

/-- The text of a list of lexical elements, with the ends of lines on their own. -/
def spellingOf (lexemes : List Lexeme) : List Char :=
  lexemes.flatMap Lexeme.spelling

/-- Every element of a list ends where its text does, in the text that the list makes. -/
def Delimited : List Lexeme → Prop
  | [] => True
  | lexeme :: rest => lexeme.EndsBefore (spellingOf rest) ∧ Delimited rest

theorem closedBefore_code {c : Char} {rest : List Char} (h : (Lexeme.code c).EndsBefore rest) :
    (Lexeme.code c).closedBefore rest = true := by
  obtain ⟨hmark, hquote, hopen, hline⟩ := h
  have hpair {d : Char} (hne : ¬ [d, '-'] <+: c :: rest) : (c == d && rest.head? == some '-') = false := by
    by_cases hc : c = d
    · have hhead : rest.head? ≠ some '-' := by
        intro hhead
        obtain ⟨more, rfl⟩ := List.head?_eq_some_iff.1 hhead
        exact hne ⟨more, hc ▸ rfl⟩
      simp [hhead]
    · simp [hc]
  simp [Lexeme.closedBefore, hmark, hquote, hpair hopen, hpair hline]

/-- The scan passes a lexical element, leaves of it what is to be left, and is back in the code. -/
theorem stripFrom_spelling {lexeme : Lexeme} {rest : List Char} (h : lexeme.EndsBefore rest) :
    stripFrom .code (lexeme.spelling ++ rest) = lexeme.remainder ++ stripFrom .code rest := by
  cases lexeme with
  | code c => exact stripFrom_code rest (closedBefore_code h)
  | lineComment content =>
      obtain ⟨hline, rfl | ⟨more, rfl⟩⟩ := h
      · simp [Lexeme.spelling, Lexeme.remainder, stripFrom, stripFrom_openLineComment hline]
      · have hend : stripFrom .code ('\n' :: more) = '\n' :: stripFrom .code more := by simp [stripFrom]
        simpa [Lexeme.spelling, Lexeme.remainder, stripFrom, hend] using stripFrom_lineComment more hline
  | blockComment content =>
      have hinside := Nested.stripFrom h 0 rest
      have hend : stripFrom (.blockComment 0) ('-' :: '}' :: rest) = stripFrom .code rest := by
        simp [stripFrom]
      simpa [Lexeme.spelling, Lexeme.text, Lexeme.remainder, Lexeme.kept, stripFrom, hend] using hinside
  | string content =>
      obtain ⟨hcontent, hempty⟩ := h
      simp only [Lexeme.spelling, Lexeme.text, Lexeme.remainder, Lexeme.kept, List.cons_append,
        List.append_assoc, List.nil_append]
      rw [stripFrom, stripFrom_string rest hcontent]
      exact ne_quoteMarks_of_isStringContent hcontent hempty
  | longString content =>
      simpa [Lexeme.spelling, Lexeme.text, Lexeme.remainder, Lexeme.kept, stripFrom] using
        stripFrom_longString rest h
  | character content =>
      simp only [Lexeme.spelling, Lexeme.text, Lexeme.remainder, Lexeme.kept, List.cons_append,
        List.append_assoc, List.nil_append]
      exact stripFrom_characterText rest h

/-- The removal of comments removes exactly the comments. -/
theorem stripComments_spellingOf {lexemes : List Lexeme} (h : Delimited lexemes) :
    stripComments (spellingOf lexemes) = lexemes.flatMap Lexeme.remainder := by
  rw [stripComments]
  induction lexemes with
  | nil => rfl
  | cons lexeme rest ih =>
      obtain ⟨hlexeme, hrest⟩ := h
      rw [spellingOf, List.flatMap_cons, ← spellingOf, stripFrom_spelling hlexeme, ih hrest,
        List.flatMap_cons]

/-- A text with marks of comments inside of literals, and marks of literals inside of comments. -/
theorem stripComments_of_marks_everywhere :
    stripComments (spellingOf
        [ .blockComment ['"', '{', '-', '\n', '-', '-', '}', '-'], .code 'a', .character ['"']
        , .string ['{', '-', '\\', '"'], .longString ['"', '-', '-'], .character ['\\', '\'']
        , .lineComment ['{', '-', '\''] ]) =
      ['\n', 'a'] ++ ['\'', '"', '\''] ++ ['"', '{', '-', '\\', '"', '"'] ++
        ['"', '"', '"', '"', '-', '-', '"', '"', '"'] ++ ['\'', '\\', '\'', '\''] := by
  have hinner : Nested ['\n', '-'] := .char (by decide) (by decide) (.char (by decide) (by decide) .nil)
  have hblock : Nested ['"', '{', '-', '\n', '-', '-', '}', '-'] :=
    .char (by decide) (by decide) (.comment hinner (.char (by decide) (by decide) .nil))
  refine stripComments_spellingOf ⟨hblock, ?_, .inr ⟨'"', rfl, by decide⟩, ?_, ?_,
    .inl ⟨'\'', [], rfl, by decide⟩, ?_, trivial⟩
  · exact ⟨by decide, by decide, by decide, by decide⟩
  · exact ⟨by decide, by decide⟩
  · exact (by decide : hasTriple ['"', '-', '-', '"', '"'] = false)
  · exact ⟨by decide, .inl rfl⟩

end ElmSuite.Elm
