import ElmSuite.Proofs.Elm.ExposingList

/-!
Comments and white space.  The removal of comments leaves nothing of a block comment but its line
ends.  White space in the place of the comments gives the same exposed values as long as every block
comment stands where white space makes no difference: it parts no name, ends no module header, and
keeps nothing away from the start of a line.
-/

namespace ElmSuite.Elm

open Text

/-- A space in the place of a character, but for the end of a line. -/
def blankOut (c : Char) : Char :=
  if c == '\n' then c else ' '

namespace Lexeme

/-- A comment. -/
def isComment : Lexeme → Bool
  | .lineComment _ => true
  | .blockComment _ => true
  | _ => false

/-- The text of a lexical element, with white space in the place of a comment. -/
def blanked (lexeme : Lexeme) : List Char :=
  if lexeme.isComment then lexeme.text.map blankOut else lexeme.text

end Lexeme

/-- The text of a list of lexical elements, with white space in the place of the comments. -/
def blankedOf (lexemes : List Lexeme) : List Char :=
  lexemes.flatMap Lexeme.blanked

/-- Whether a text is empty or a line comment that ends with the source. -/
def isLastComment : List Char → Bool
  | [] => true
  | '-' :: '-' :: content => !content.contains '\n'
  | _ => false

/-- Whether a code starts with neither a declaration nor a module header. -/
def silent (code : List Char) : Bool :=
  (declared? code).isNone && (afterHeader? code).isNone

/-- Whether two characters are parts of no one name, and of no one pair of equals signs. -/
def apart (c d : Char) : Bool :=
  !(isNameChar c && isNameChar d) && !(c == '=' && d == '=')

/-- Whether white space between two pieces of code makes no difference to the exposed values. -/
def parted (front behind : List Char) : Bool :=
  startsBlank behind || !endsWithHeader true front &&
    match behind with
    | [] => headerClosed front
    | d :: _ =>
        match front.getLast?.getD '\n' with
        | '\n' => silent behind
        | c => apart c d

/-- Whether a lexical element is no block comment, or one that stands between two pieces of code where
white space makes no difference. -/
def Lexeme.loose (front behind : List Char) : Lexeme → Bool
  | .blockComment content => parted (front ++ content.filter (· == '\n')) behind
  | _ => true

/-- Whether every block comment behind some code, and a line comment that ends with the source, stands
where white space makes no difference. -/
def loose (ending : List Char) : List Char → List Lexeme → Bool
  | front, [] => ending.isEmpty || parted front []
  | front, lexeme :: lexemes =>
      lexeme.loose front (blankedOf lexemes ++ ending.map blankOut) &&
        loose ending (front ++ lexeme.kept) lexemes

/-- Two codes in which the same values are found. -/
structure Alike (code other : List Char) : Prop where
  declared : declaredFrom true code = declaredFrom true other
  exposed : exposedNames code = exposedNames other

theorem Alike.rfl {code : List Char} : Alike code code :=
  ⟨Eq.refl _, Eq.refl _⟩

theorem Alike.trans {code other last : List Char} (h : Alike code other) (hlast : Alike other last) :
    Alike code last :=
  ⟨h.declared.trans hlast.declared, h.exposed.trans hlast.exposed⟩

variable {front behind : List Char}

/-! ### One space -/

theorem not_isNameChar_of_startsBlank (h : startsBlank behind = true) :
    ∀ d ∈ behind.head?, isNameChar d = false := by
  intro d hd
  rw [startsBlank, hd, Option.any_some] at h
  exact not_isNameChar_of_isBlank h

theorem afterHeader?_eq_none_of_head (h : ∀ d ∈ behind.head?, isNameChar d = false) :
    afterHeader? behind = none := by
  have hport : after? "port".toList behind = none := after?_eq_none_of_head (by decide +kernel) h
  have heffect : after? "effect".toList behind = none := after?_eq_none_of_head (by decide +kernel) h
  simp only [afterHeader?, afterKeyword?_eq, afterWord?, hport, heffect, afterModule?_eq_none_of_head h]
  rfl

theorem silent_of_startsBlank (h : startsBlank behind = true) : silent behind = true := by
  have hhead := not_isNameChar_of_startsBlank h
  have hname : behind.takeWhile isWord = [] := by
    cases behind with
    | nil => rfl
    | cons d behind =>
        have hd := not_isWord_of_not_isNameChar (hhead d rfl)
        rw [List.takeWhile_cons_of_neg (by simp [hd])]
  rw [silent, declared?_eq, hname, afterHeader?_eq_none_of_head hhead]
  rfl

theorem of_parted {c : Char} (h : parted (front ++ [c]) behind = true) :
    Apart c behind ∧ (startsBlank behind = true ∨ endsWithHeader true (front ++ [c]) = false) ∧
      (c = '\n' → silent behind = true) ∧ (behind ≠ [] ∨ headerClosed (front ++ [c]) = true) := by
  by_cases hblank : startsBlank behind = true
  · refine ⟨⟨fun _ => not_isNameChar_of_startsBlank hblank, ?_⟩, .inl hblank,
      fun _ => silent_of_startsBlank hblank, .inl ?_⟩
    · rintro - hequals
      rw [startsBlank, hequals] at hblank
      exact absurd hblank (by decide)
    · rintro rfl
      cases hblank
  · unfold parted at h
    rw [Bool.or_eq_true, Bool.and_eq_true, Bool.not_eq_true'] at h
    obtain ⟨hend, hrest⟩ := h.resolve_left hblank
    cases behind with
    | nil =>
        refine ⟨⟨fun _ d hd => ?_, fun _ => by simp⟩, .inr hend, fun _ => rfl, .inr hrest⟩
        cases hd
    | cons d behind =>
        simp only [List.getLast?_concat, Option.getD_some] at hrest
        split at hrest
        · exact ⟨apart_of_isBlank (by decide) _, .inr hend, fun _ => hrest, .inl (by simp)⟩
        · next hc =>
          simp only [apart, Bool.and_eq_true, Bool.not_eq_true', Bool.and_eq_false_iff] at hrest
          refine ⟨⟨fun hname e he => ?_, ?_⟩, .inr hend, fun h => absurd h hc, .inl (by simp)⟩
          · obtain rfl : d = e := by simpa using he
            simpa [hname] using hrest.1
          · rintro rfl
            simpa using hrest.2

theorem alike_space (h : parted front behind = true) :
    Alike (front ++ ' ' :: behind) (front ++ behind) := by
  rcases List.eq_nil_or_concat front with rfl | ⟨front, c, rfl⟩
  · have hsilent : silent behind = true := by
      unfold parted at h
      rw [Bool.or_eq_true, Bool.and_eq_true] at h
      rcases h with hblank | ⟨-, hrest⟩
      · exact silent_of_startsBlank hblank
      · cases behind with
        | nil => rfl
        | cons d behind => exact hrest
    simp only [silent, Bool.and_eq_true, Option.isNone_iff_eq_none] at hsilent
    constructor
    · rw [List.nil_append, List.nil_append, declaredFrom_space, declaredFrom_of_silent hsilent.1 true]
    · apply exposedNames_eq_of_header
      rw [List.nil_append, List.nil_append, afterFirstHeader?_space,
        afterFirstHeader?_of_silent hsilent.2 true]
  · rw [List.concat_eq_append] at h ⊢
    obtain ⟨hapart, hend, hline, hclosed⟩ := of_parted h
    simp only [silent, Bool.and_eq_true, Option.isNone_iff_eq_none] at hline
    rw [List.append_assoc, List.append_assoc]
    exact ⟨declaredFrom_append_space hapart (fun hc => (hline hc).1) true front,
      exposedNames_append_space hapart hend (fun hc => (hline hc).2) hclosed⟩

/-! ### One comment -/

theorem blankOut_of_ne {c : Char} (h : c ≠ '\n') : blankOut c = ' ' :=
  if_neg (by simpa using h)

/-- White space in the place of a text is as good as the line ends of the text. -/
theorem alike_blankOut {text : List Char} (h : parted (front ++ text.filter (· == '\n')) behind = true) :
    Alike (front ++ (text.map blankOut ++ behind)) (front ++ (text.filter (· == '\n') ++ behind)) := by
  induction text generalizing front with
  | nil => exact .rfl
  | cons c text ih =>
      by_cases hc : c = '\n'
      · subst hc
        rw [List.filter_cons_of_pos (by decide), List.append_cons] at h
        simpa [blankOut] using ih h
      · rw [List.filter_cons_of_neg (by simpa using hc)] at h ⊢
        refine .trans ?_ (ih h)
        rw [List.map_cons, blankOut_of_ne hc, List.cons_append]
        apply alike_space
        cases text with
        | nil => simpa using h
        | cons d text =>
            have hblank : isBlank (blankOut d) = true := by
              unfold blankOut
              split
              · next hd => rw [beq_iff_eq.1 hd]; decide
              · decide
            simp [parted, startsBlank, hblank]

/-- A comment within a line is white space. -/
theorem alike_blankOut_line {text : List Char} (hline : '\n' ∉ text)
    (h : parted front behind = true) :
    Alike (front ++ (text.map blankOut ++ behind)) (front ++ behind) := by
  have hends : text.filter (· == '\n') = [] := by
    rw [List.filter_eq_nil_iff]
    exact fun c hc heq => hline (beq_iff_eq.1 heq ▸ hc)
  have hspaces := @alike_blankOut front behind text (by rwa [hends, List.append_nil])
  rwa [hends] at hspaces

theorem alike_lexeme {lexeme : Lexeme} {rest : List Char} (hclosed : lexeme.closedBefore rest = true)
    (hloose : lexeme.loose front behind = true) :
    Alike (front ++ (lexeme.blanked ++ behind)) (front ++ (lexeme.kept ++ behind)) := by
  cases lexeme with
  | lineComment content =>
      have hline : '\n' ∉ content := by simpa [Lexeme.closedBefore] using hclosed
      have hspaces := @alike_blankOut_line front ('\n' :: behind) ('-' :: '-' :: content) (by simp [hline])
        (by simp [parted, startsBlank, show isBlank '\n' = true by decide])
      simpa [Lexeme.blanked, Lexeme.isComment, Lexeme.text, Lexeme.kept, blankOut] using hspaces
  | blockComment content =>
      have hends : (Lexeme.blockComment content).text.filter (· == '\n') =
          (Lexeme.blockComment content).kept := by
        simp [Lexeme.text, Lexeme.kept]
      have hspaces := @alike_blankOut front behind (Lexeme.blockComment content).text
        (by rw [hends]; exact hloose)
      rw [hends] at hspaces
      exact hspaces
  | _ => exact .rfl

/-! ### All comments -/

theorem alike_blankedOf {lexemes : List Lexeme} {ending : List Char}
    (hclosed : closedBefore ending lexemes = true) (hending : '\n' ∉ ending)
    (hloose : loose ending front lexemes = true) :
    Alike (front ++ (blankedOf lexemes ++ ending.map blankOut)) (front ++ codeOf lexemes) := by
  induction lexemes generalizing front with
  | nil =>
      cases ending with
      | nil => exact .rfl
      | cons c ending =>
          have hparted : parted front [] = true := hloose
          have hspaces := alike_blankOut_line hending hparted
          rwa [List.append_nil] at hspaces
  | cons lexeme lexemes ih =>
      rw [closedBefore, Bool.and_eq_true] at hclosed
      rw [loose, Bool.and_eq_true] at hloose
      have hlexeme := alike_lexeme hclosed.1 hloose.1
      have hrest := ih hclosed.2 hloose.2
      simp only [blankedOf, codeOf, List.flatMap_cons, List.append_assoc] at hlexeme hrest ⊢
      exact hlexeme.trans hrest

/-! ### The removal of comments where there are none -/

theorem stripFrom_map_blankOut (text rest : List Char) :
    stripFrom .code (text.map blankOut ++ rest) = text.map blankOut ++ stripFrom .code rest := by
  induction text with
  | nil => rfl
  | cons c text ih =>
      have hclosed (more : List Char) : (Lexeme.code (blankOut c)).closedBefore more = true := by
        by_cases hc : c = '\n'
        · rw [hc]
          rfl
        · rw [blankOut_of_ne hc]
          rfl
      rw [List.map_cons, List.cons_append, stripFrom_code _ (hclosed _), ih, List.cons_append]

theorem blankOut_cases (c : Char) : blankOut c = c ∨ blankOut c = ' ' := by
  unfold blankOut
  split
  · exact .inl rfl
  · exact .inr rfl

theorem Lexeme.exists_text_eq_cons (lexeme : Lexeme) : ∃ c more, lexeme.text = c :: more := by
  cases lexeme <;> exact ⟨_, _, rfl⟩

/-- The first character of a source is what it was, or a space. -/
theorem head?_blankedOf (lexemes : List Lexeme) (ending : List Char) :
    (blankedOf lexemes ++ ending.map blankOut).head? = (textOf lexemes ++ ending).head? ∨
      (blankedOf lexemes ++ ending.map blankOut).head? = some ' ' := by
  cases lexemes with
  | nil =>
      cases ending with
      | nil => exact .inl rfl
      | cons c ending => exact (blankOut_cases c).imp (congrArg some) (congrArg some)
  | cons lexeme lexemes =>
      obtain ⟨c, more, htext⟩ := lexeme.exists_text_eq_cons
      simp only [blankedOf, textOf, List.flatMap_cons, Lexeme.blanked, htext]
      split
      · exact (blankOut_cases c).imp (congrArg some) (congrArg some)
      · exact .inl rfl

/-- A lexical element is as closed in front of a space. -/
theorem Lexeme.closedBefore_of_head? {lexeme : Lexeme} {rest other : List Char}
    (h : other.head? = rest.head? ∨ other.head? = some ' ') (hclosed : lexeme.closedBefore rest = true) :
    lexeme.closedBefore other = true := by
  rcases h with heq | hspace
  · cases lexeme with
    | code c => simpa [Lexeme.closedBefore, heq] using hclosed
    | string content => simpa [Lexeme.closedBefore, heq] using hclosed
    | _ => exact hclosed
  · cases lexeme with
    | code c =>
        simp only [Lexeme.closedBefore, Bool.and_eq_true] at hclosed
        simpa [Lexeme.closedBefore, hspace] using hclosed.1.1
    | string content =>
        simp only [Lexeme.closedBefore, Bool.and_eq_true] at hclosed
        simpa [Lexeme.closedBefore, hspace] using hclosed.1
    | _ => exact hclosed

theorem stripFrom_blankedOf {lexemes : List Lexeme} {ending : List Char}
    (hclosed : closedBefore ending lexemes = true) (hplain : ∀ lexeme ∈ lexemes, lexeme.plain = true) :
    stripFrom .code (blankedOf lexemes ++ ending.map blankOut) =
      blankedOf lexemes ++ ending.map blankOut := by
  induction lexemes with
  | nil =>
      have hending := stripFrom_map_blankOut ending []
      rw [List.append_nil, stripFrom, List.append_nil] at hending
      exact hending
  | cons lexeme lexemes ih =>
      rw [closedBefore, Bool.and_eq_true] at hclosed
      rw [List.forall_mem_cons] at hplain
      have hrest := ih hclosed.2 hplain.2
      have hlexeme : stripFrom .code (lexeme.blanked ++ (blankedOf lexemes ++ ending.map blankOut)) =
          lexeme.blanked ++ stripFrom .code (blankedOf lexemes ++ ending.map blankOut) := by
        unfold Lexeme.blanked
        split
        · exact stripFrom_map_blankOut _ _
        · next hcode =>
          have hkept : lexeme.kept = lexeme.text := by
            cases lexeme <;> first | rfl | exact absurd rfl hcode
          have hhead := Lexeme.closedBefore_of_head? (head?_blankedOf lexemes ending) hclosed.1
          rw [stripFrom_lexeme hhead hplain.1, hkept]
      rw [hrest] at hlexeme
      simpa [blankedOf] using hlexeme

theorem stripFrom_lastComment {ending : List Char} (h : isLastComment ending = true) :
    stripFrom .code ending = [] := by
  unfold isLastComment at h
  split at h
  · rfl
  · exact stripFrom_openLineComment (by simpa using h)
  · cases h

theorem not_newline_mem_of_isLastComment {ending : List Char} (h : isLastComment ending = true) :
    '\n' ∉ ending := by
  unfold isLastComment at h
  split at h
  · exact List.not_mem_nil
  · simpa using h
  · cases h

/-- White space in the place of the comments leaves the exposed values as they are. -/
theorem exposedValues_blanked {lexemes : List Lexeme} {ending : List Char}
    (hclosed : closedBefore ending lexemes = true) (hending : isLastComment ending = true)
    (hplain : ∀ lexeme ∈ lexemes, lexeme.plain = true) (hloose : loose ending [] lexemes = true) :
    exposedValues (blankedOf lexemes ++ ending.map blankOut) =
      exposedValues (textOf lexemes ++ ending) := by
  have halike := alike_blankedOf hclosed (not_newline_mem_of_isLastComment hending) hloose
  rw [List.nil_append, List.nil_append] at halike
  have hcode : stripComments (textOf lexemes ++ ending) = codeOf lexemes := by
    rw [stripComments, stripFrom_textOf hclosed hplain, stripFrom_lastComment hending, List.append_nil]
  simp only [exposedValues, stripComments, stripFrom_blankedOf hclosed hplain] at hcode ⊢
  rw [hcode, halike.declared, halike.exposed]

theorem exposedValues_blanked_of_spaced_comments :
    exposedValues (blankedOf ([.blockComment " nested \x7b- twice -\x7d\n".toList] ++
          "\nmodule A exposing (a,".toList.map .code ++ [.blockComment "and".toList] ++
          "b)\na".toList.map .code ++ [.blockComment "".toList] ++ "= ".toList.map .code ++
          [.string "\x7b-".toList, .code ' ', .lineComment "one".toList] ++ "b = 2".toList.map .code) ++
        "-- the end".toList.map blankOut) =
      exposedValues (textOf ([.blockComment " nested \x7b- twice -\x7d\n".toList] ++
          "\nmodule A exposing (a,".toList.map .code ++ [.blockComment "and".toList] ++
          "b)\na".toList.map .code ++ [.blockComment "".toList] ++ "= ".toList.map .code ++
          [.string "\x7b-".toList, .code ' ', .lineComment "one".toList] ++ "b = 2".toList.map .code) ++
        "-- the end".toList) := by
  apply exposedValues_blanked
  all_goals decide +kernel

-- Without the comment between them, a function and its argument are one name.
example :
    exposedValues "module A exposing (..)\nfoo\x7b- c -\x7dbar = 1\n".toList = ["foobar"] ∧
      exposedValues "module A exposing (..)\nfoo       bar = 1\n".toList = [] := by
  decide +kernel

end ElmSuite.Elm
