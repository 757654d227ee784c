import ElmSuite.Suite.Generation

/-!
The text of the generated runner.  Filling a template leaves what stands around its holes as it is,
and the template of the runner has two: one for the imports, one for the list of tests.
-/

namespace ElmSuite

namespace Template

/-- No hole starts in a text, whatever follows it: every open brace is followed by something else. -/
def isPlain : List Char → Bool
  | [] => true
  | c :: rest => (c != '{' || rest.head?.any (· != '{')) && isPlain rest

theorem isPlain_cons {c : Char} {text : List Char} :
    isPlain (c :: text) = true ↔
      (c = '{' → ∃ d rest, text = d :: rest ∧ d ≠ '{') ∧ isPlain text = true := by
  rw [isPlain, Bool.and_eq_true, Bool.or_eq_true, bne_iff_ne, ← Decidable.imp_iff_not_or]
  cases text <;> simp

theorem holeAt?_eq_none {c : Char} {text : List Char} (h : isPlain (c :: text) = true)
    (rest : List Char) : holeAt? (c :: text ++ rest) = none := by
  unfold holeAt?
  split
  · next inner heq =>
    obtain ⟨rfl, htext⟩ := List.cons.inj heq
    obtain ⟨d, more, rfl, hd⟩ := (isPlain_cons.1 h).1 rfl
    exact absurd (List.cons.inj htext).1 hd
  · rfl

theorem isPlain_append {first second : List Char} (hfirst : isPlain first = true)
    (hsecond : isPlain second = true) : isPlain (first ++ second) = true := by
  induction first with
  | nil => exact hsecond
  | cons c text ih =>
      obtain ⟨hbrace, htext⟩ := isPlain_cons.1 hfirst
      refine isPlain_cons.2 ⟨fun hc => ?_, ih htext⟩
      obtain ⟨d, rest, rfl, hd⟩ := hbrace hc
      exact ⟨d, rest ++ second, rfl, hd⟩

theorem isPlain_ofList {chars : List Char} (h : isPlain chars = true) :
    isPlain (String.ofList chars).toList = true := by
  rw [String.toList_ofList]
  exact h

theorem pieces_append {text : List Char} (h : isPlain text = true) (rest : List Char) :
    pieces (text ++ rest) = text.map .char ++ pieces rest := by
  induction text with
  | nil => rfl
  | cons c text ih =>
      have hnone := holeAt?_eq_none h rest
      rw [List.cons_append] at hnone ⊢
      rw [pieces]
      split
      · next name after hsome =>
        rw [hnone] at hsome
        cases hsome
      · rw [ih (isPlain_cons.1 h).2]
        rfl

theorem pieces_of_isPlain {text : List Char} (h : isPlain text = true) :
    pieces text = text.map .char := by
  have happend := pieces_append h []
  rwa [List.append_nil, show pieces [] = [] by rw [pieces], List.append_nil] at happend

theorem pieces_hole {text rest : List Char} {name : String} (h : holeAt? text = some (name, rest)) :
    pieces text = .hole name :: pieces rest := by
  cases text with
  | nil => cases h
  | cons c text =>
      rw [pieces]
      split
      · next other after hsome =>
        rw [h] at hsome
        cases hsome
        rfl
      · next hnone =>
        rw [h] at hnone
        cases hnone

theorem flatMap_fill_chars (values : OrderedMap String (List Char)) (text : List Char) :
    (text.map Piece.char).flatMap (Piece.fill values) = text := by
  induction text with
  | nil => rfl
  | cons c rest ih =>
      rw [List.map_cons, List.flatMap_cons, ih]
      rfl

theorem filterMap_name?_chars (text : List Char) :
    (text.map Piece.char).filterMap Piece.name? = [] := by
  rw [List.filterMap_eq_nil_iff]
  intro piece hpiece
  obtain ⟨c, -, rfl⟩ := List.mem_map.1 hpiece
  rfl

theorem eq_of_render {template content : List Char} {values : OrderedMap String (List Char)}
    {name : Option String} (h : render template values name = .ok content) :
    content = (pieces template).flatMap (Piece.fill values) := by
  unfold render at h
  dsimp only at h
  split at h
  · cases h
    rfl
  · cases h

end Template

namespace RunnerSource

open Template

/-- Lines, each with its end. -/
def lined (lines : List String) : List Char :=
  lines.flatMap fun line => line.toList ++ ['\n']

theorem isPlain_lined {lines : List String} (h : ∀ line ∈ lines, isPlain line.toList = true) :
    isPlain (lined lines) = true := by
  induction lines with
  | nil => rfl
  | cons line rest ih =>
      rw [List.forall_mem_cons] at h
      exact isPlain_append (isPlain_append h.1 rfl) (ih h.2)

/-- What stands in front of the imports. -/
def front : List Char :=
  lined (Asset.runnerLines.take 2)

/-- What stands between the imports and the tests. -/
def between : List Char :=
  ['\n'] ++ lined ((Asset.runnerLines.drop 3).take 31) ++ "    [ ".toList

/-- What stands behind the tests. -/
def back : List Char :=
  ['\n'] ++ lined (Asset.runnerLines.drop 35)

theorem isPlain_front : isPlain front = true := by
  apply isPlain_lined
  simp only [Asset.runnerLines, List.take, List.forall_mem_cons]
  and_intros
  all_goals first | exact isPlain_ofList rfl | exact fun _ hnil => absurd hnil List.not_mem_nil

theorem isPlain_between : isPlain between = true := by
  have hlines : isPlain (lined ((Asset.runnerLines.drop 3).take 31)) = true := by
    apply isPlain_lined
    simp only [Asset.runnerLines, List.take, List.drop, List.forall_mem_cons]
    and_intros
    all_goals first | exact isPlain_ofList rfl | exact fun _ hnil => absurd hnil List.not_mem_nil
  have hlead : isPlain "    [ ".toList = true := isPlain_ofList rfl
  unfold between
  exact isPlain_append (isPlain_append (by rfl) hlines) hlead

theorem isPlain_back : isPlain back = true := by
  have hlines : isPlain (lined (Asset.runnerLines.drop 35)) = true := by
    apply isPlain_lined
    simp only [Asset.runnerLines, List.drop, List.forall_mem_cons]
    and_intros
    all_goals first | exact isPlain_ofList rfl | exact fun _ hnil => absurd hnil List.not_mem_nil
  unfold back
  exact isPlain_append (by rfl) hlines

/-- The template of the runner and its two holes. -/
theorem text_runner :
    Asset.runner.text = front ++ "\x7b\x7b user_imports \x7d\x7d".toList ++ between ++
      "\x7b\x7b tests \x7d\x7d".toList ++ back := by
  have hlines : Asset.runnerLines =
      Asset.runnerLines.take 2 ++ "\x7b\x7b user_imports \x7d\x7d" ::
        ((Asset.runnerLines.drop 3).take 31 ++ ("    [ " ++ "\x7b\x7b tests \x7d\x7d") ::
          Asset.runnerLines.drop 35) := by
    simp only [Asset.runnerLines, List.take, List.drop, List.cons_append, List.nil_append]
    rfl
  have htext : Asset.runner.text = lined Asset.runnerLines := rfl
  rw [htext, hlines]
  unfold front between back lined
  rw [List.flatMap_append, List.flatMap_cons, List.flatMap_append, List.flatMap_cons,
    String.toList_append]
  simp only [List.append_assoc]

theorem pieces_runner :
    pieces Asset.runner.text = front.map .char ++ .hole "user_imports" ::
      (between.map .char ++ .hole "tests" :: back.map .char) := by
  have himports : ∀ rest, holeAt? ("\x7b\x7b user_imports \x7d\x7d".toList ++ rest) =
      some ("user_imports", rest) := fun _ => rfl
  have htests : ∀ rest, holeAt? ("\x7b\x7b tests \x7d\x7d".toList ++ rest) = some ("tests", rest) :=
    fun _ => rfl
  rw [text_runner, List.append_assoc, List.append_assoc, List.append_assoc,
    pieces_append isPlain_front, pieces_hole (himports _), pieces_append isPlain_between,
    pieces_hole (htests _), pieces_of_isPlain isPlain_back]

theorem holeNames_runner : holeNames Asset.runner.text = ["user_imports", "tests"] := by
  have hholes : (pieces Asset.runner.text).filterMap Piece.name? = ["user_imports", "tests"] := by
    rw [pieces_runner]
    simp only [List.filterMap_append, List.filterMap_cons, filterMap_name?_chars, Piece.name?,
      List.nil_append]
  rw [holeNames, hholes]
  rfl

/-- The text of the runner for some modules. -/
theorem text_of_render {modules : List TestModule} {name : Option String} {text : List Char}
    (h : Template.render Asset.runner.text (values modules) name = .ok text) :
    text = front ++ (imports modules).toList ++ between ++
      ("\n    , ".intercalate (modules.map group)).toList ++ back := by
  have himports : (Piece.hole "user_imports").fill (values modules) = (imports modules).toList := rfl
  have htests : (Piece.hole "tests").fill (values modules) =
      ("\n    , ".intercalate (modules.map group)).toList := rfl
  rw [eq_of_render h, pieces_runner]
  simp only [List.flatMap_append, List.flatMap_cons, flatMap_fill_chars, himports, htests,
    List.append_assoc]

end RunnerSource

end ElmSuite
