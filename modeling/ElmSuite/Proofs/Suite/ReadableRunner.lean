import Mathlib.Algebra.GroupWithZero.Nat
import ElmSuite.Proofs.Elm.ModuleName
import ElmSuite.Proofs.Suite.RunnerText

/-!
Reading the generated runner.  Its lines say which modules it lists and which of their values it
checks: a line may open the record of a module, or check one more value of the record that is open.
No line of the template and no import does either, so what is read back is the list of modules that
the runner was generated for.
-/

namespace ElmSuite

namespace RunnerSource

open Template

/-! ### Reading a runner -/

/-- The name of the module whose record a line opens. -/
def opened? (line : List Char) : Option (List Char) :=
  (Text.after? "    [ \x7b module_ = \"".toList line <|>
    Text.after? "    , \x7b module_ = \"".toList line).map fun named => named.takeWhile (· != '"')

/-- The qualified value that a line checks. -/
def checked? (line : List Char) : Option (List Char) :=
  Text.after? "            [ check ".toList line <|> Text.after? "            , check ".toList line

/-- The modules that the last lines of a runner list, with their values, and the values that these
lines check before they open a record. -/
structure Reading where
  modules : List (String × List String)
  checks : List (List Char)
deriving DecidableEq, Repr

/-- One more line in front of others.  A value of a module is named without the module. -/
def Reading.withLine (line : List Char) (behind : Reading) : Reading :=
  match checked? line, opened? line with
  | some value, _ => ⟨behind.modules, value :: behind.checks⟩
  | none, some name =>
      let values := behind.checks.map fun value => String.ofList (value.drop (name.length + 1))
      ⟨(String.ofList name, values) :: behind.modules, []⟩
  | none, none => behind

/-- What the lines of a text say. -/
def reading (text : List Char) : Reading :=
  (text.splitOn '\n').foldr Reading.withLine ⟨[], []⟩

/-- The number of lines of a text that check a value. -/
def checkCount (text : List Char) : Nat :=
  (text.splitOn '\n').countP fun line => (checked? line).isSome

/-- A line that says nothing of a module. -/
def isSilent (line : List Char) : Bool :=
  (opened? line).isNone && (checked? line).isNone

variable {line name value rest : List Char}

theorem withLine_of_isSilent (h : isSilent line = true) (behind : Reading) :
    behind.withLine line = behind := by
  rw [isSilent, Bool.and_eq_true, Option.isNone_iff_eq_none, Option.isNone_iff_eq_none] at h
  rw [Reading.withLine, h.1, h.2]

theorem withLine_of_checked (h : checked? line = some value) (behind : Reading) :
    behind.withLine line = ⟨behind.modules, value :: behind.checks⟩ := by
  rw [Reading.withLine, h]

theorem withLine_of_opened (hchecked : checked? line = none) (h : opened? line = some name)
    (behind : Reading) :
    behind.withLine line =
      ⟨(String.ofList name,
        behind.checks.map fun value => String.ofList (value.drop (name.length + 1))) ::
          behind.modules, []⟩ := by
  rw [Reading.withLine, hchecked, h]

theorem reading_line (h : '\n' ∉ line) (rest : List Char) :
    reading (line ++ '\n' :: rest) = (reading rest).withLine line := by
  rw [reading, List.splitOn_append_cons_self_of_not_mem h]
  rfl

theorem reading_silent (h : '\n' ∉ line) (hsilent : isSilent line = true) (rest : List Char) :
    reading (line ++ '\n' :: rest) = reading rest := by
  rw [reading_line h, withLine_of_isSilent hsilent]

theorem reading_lined {lines : List String}
    (h : ∀ line ∈ lines, '\n' ∉ line.toList ∧ isSilent line.toList = true) (rest : List Char) :
    reading (lined lines ++ rest) = reading rest := by
  induction lines with
  | nil => rfl
  | cons line lines ih =>
      rw [List.forall_mem_cons] at h
      have hcons : lined (line :: lines) ++ rest = line.toList ++ '\n' :: (lined lines ++ rest) := by
        simp [lined]
      rw [hcons, reading_silent h.1.1 h.1.2, ih h.2]

/-- Every line that checks a value is in the record of a module, or in front of all of them. -/
theorem checkCount_eq (text : List Char) :
    checkCount text = ((reading text).modules.map fun listed => listed.2.length).sum +
      (reading text).checks.length := by
  unfold checkCount reading
  induction text.splitOn '\n' with
  | nil => rfl
  | cons line lines ih =>
      rw [List.countP_cons, ih, List.foldr_cons]
      cases hchecked : checked? line with
      | some value =>
          rw [withLine_of_checked hchecked, List.length_cons]
          rfl
      | none =>
          cases hopened : opened? line with
          | some name =>
              rw [withLine_of_opened hchecked hopened, List.map_cons, List.sum_cons, List.length_map]
              simp [Nat.add_comm]
          | none =>
              rw [withLine_of_isSilent (by simp [isSilent, hchecked, hopened])]
              rfl

/-! ### The lines of a runner -/

/-- The text of a list of checks, which stands behind the first bracket of a record. -/
def checkList (values : List String) : List Char :=
  ("\n            , ".intercalate (values.map fun value => "check " ++ value)).toList

/-- The text of a list of records. -/
def groupList (modules : List TestModule) : List Char :=
  ("\n    , ".intercalate (modules.map group)).toList

theorem checkList_cons_cons (value other : String) (values : List String) :
    checkList (value :: other :: values) =
      ("check " ++ value).toList ++ '\n' :: ("            , ".toList ++ checkList (other :: values)) := by
  rw [checkList, List.map_cons, List.map_cons, String.intercalate_cons_cons, String.toList_append,
    String.toList_append, List.append_assoc]
  rfl

theorem groupList_cons_cons (m other : TestModule) (modules : List TestModule) :
    groupList (m :: other :: modules) =
      (group m).toList ++ '\n' :: ("    , ".toList ++ groupList (other :: modules)) := by
  rw [groupList, List.map_cons, List.map_cons, String.intercalate_cons_cons, String.toList_append,
    String.toList_append, List.append_assoc]
  rfl

theorem toList_group (m : TestModule) :
    (group m).toList =
      "\x7b module_ = \"".toList ++ m.name.toList ++ ['"'] ++ '\n' :: ("      , maybeTests =".toList ++
        '\n' :: ("            [ ".toList ++ checkList (m.tests.map m.qualified) ++
          '\n' :: ("            ]".toList ++ '\n' :: "      \x7d".toList))) := by
  unfold group checkList
  simp only [String.toList_append, List.append_assoc, List.map_map]
  rfl

/-! ### Names that end neither a line nor a text in quote marks -/

/-- A module whose name is a dotted one and whose values have names of word characters, as all
lower-case identifiers have. -/
structure WellNamed (m : TestModule) : Prop where
  name : ∃ segments, segments ≠ [] ∧ (∀ segment ∈ segments, Elm.isUpperName segment = true) ∧
    m.name = ".".intercalate segments
  tests : ∀ test ∈ m.tests, ∀ c ∈ test.toList, Text.isWord c = true

theorem WellNamed.not_mem_name {m : TestModule} (h : WellNamed m) {c : Char}
    (hletter : Text.isLetter c = false) (hdecimal : Text.isDecimal c = false)
    (hother : c ≠ '_' ∧ c ≠ '.') : c ∉ m.name.toList := by
  obtain ⟨segments, -, hupper, hname⟩ := h.name
  intro hmem
  rw [hname] at hmem
  rcases Elm.of_mem_intercalate hmem with hdot | ⟨segment, hsegment, hc⟩
  · exact hother.2 (by simpa using hdot)
  · rcases Elm.of_mem_isUpperName (hupper segment hsegment) hc with hc | hc | hc
    · rw [hletter] at hc
      cases hc
    · rw [hdecimal] at hc
      cases hc
    · exact hother.1 hc

theorem WellNamed.quoteMark_not_mem {m : TestModule} (h : WellNamed m) : '"' ∉ m.name.toList :=
  h.not_mem_name (by decide +kernel) (by decide +kernel) (by decide)

theorem WellNamed.lineEnd_not_mem {m : TestModule} (h : WellNamed m) : '\n' ∉ m.name.toList :=
  h.not_mem_name (by decide +kernel) (by decide +kernel) (by decide)

theorem WellNamed.lineEnd_not_mem_qualified {m : TestModule} (h : WellNamed m) {test : String}
    (htest : test ∈ m.tests) : '\n' ∉ (m.qualified test).toList := by
  have hword : Text.isWord '\n' = false := by decide +kernel
  have hline : '\n' ∉ test.toList := fun hmem => by
    have hc := h.tests test htest _ hmem
    rw [hword] at hc
    cases hc
  simp [TestModule.qualified, h.lineEnd_not_mem, hline]

/-! ### Reading the lines of a runner -/

/-- The two texts that a value of a record may stand behind. -/
def LeadsCheck (lead : List Char) : Prop :=
  lead = "            [ ".toList ∨ lead = "            , ".toList

/-- The two texts that a record may stand behind. -/
def LeadsGroup (lead : List Char) : Prop :=
  lead = "    [ ".toList ∨ lead = "    , ".toList

variable {lead : List Char}

theorem LeadsCheck.checked (h : LeadsCheck lead) (value : List Char) :
    checked? (lead ++ "check ".toList ++ value) = some value := by
  rcases h with rfl | rfl <;> rfl

theorem LeadsGroup.checked (h : LeadsGroup lead) (text : List Char) :
    checked? (lead ++ text) = none := by
  rcases h with rfl | rfl <;> rfl

theorem LeadsGroup.opened (h : LeadsGroup lead) {name : List Char} (hname : '"' ∉ name) :
    opened? (lead ++ "\x7b module_ = \"".toList ++ name ++ ['"']) = some name := by
  have htake : (name ++ ['"']).takeWhile (· != '"') = name := by
    rw [List.takeWhile_append_of_pos]
    · simp
    · rintro c hc
      rw [bne_iff_ne]
      rintro rfl
      exact hname hc
  have hopened : opened? (lead ++ "\x7b module_ = \"".toList ++ name ++ ['"']) =
      some ((name ++ ['"']).takeWhile (· != '"')) := by
    rcases h with rfl | rfl <;> rfl
  rw [hopened, htake]

/-- The checks of a record are read as they stand there; a record without any has an empty line. -/
theorem reading_checkList (hlead : LeadsCheck lead) {values : List String}
    (h : ∀ value ∈ values, '\n' ∉ value.toList) (rest : List Char) :
    reading (lead ++ checkList values ++ '\n' :: rest) =
      ⟨(reading rest).modules, values.map String.toList ++ (reading rest).checks⟩ := by
  induction values generalizing lead with
  | nil =>
      have hline : '\n' ∉ lead := by rcases hlead with rfl | rfl <;> decide
      have hsilent : isSilent lead = true := by rcases hlead with rfl | rfl <;> rfl
      rw [show lead ++ checkList [] = lead by simp [checkList], reading_silent hline hsilent]
      rfl
  | cons value values ih =>
      rw [List.forall_mem_cons] at h
      have hline : '\n' ∉ lead ++ "check ".toList ++ value.toList := by
        have hlead : '\n' ∉ lead ++ "check ".toList := by rcases hlead with rfl | rfl <;> decide
        rw [List.mem_append, not_or]
        exact ⟨hlead, h.1⟩
      cases values with
      | nil =>
          have hlist : checkList [value] = "check ".toList ++ value.toList := by
            simp [checkList]
          rw [hlist, ← List.append_assoc, reading_line hline, withLine_of_checked (hlead.checked _)]
          rfl
      | cons other values =>
          rw [checkList_cons_cons, String.toList_append, ← List.append_assoc, ← List.append_assoc,
            List.append_assoc, List.cons_append, reading_line hline, ih (.inr rfl) h.2,
            withLine_of_checked (hlead.checked _)]
          rfl

/-- The name of a module and those of its values. -/
def listing (m : TestModule) : String × List String :=
  (m.name, m.tests)

/-- The values of a module, read off their qualified names. -/
theorem map_drop_qualified (m : TestModule) :
    ((m.tests.map m.qualified).map String.toList).map
      (fun value => String.ofList (value.drop (m.name.toList.length + 1))) = m.tests := by
  have hdrop (test : String) :
      String.ofList ((m.qualified test).toList.drop (m.name.toList.length + 1)) = test := by
    apply String.toList_inj.1
    rw [String.toList_ofList, TestModule.qualified, String.toList_append, String.toList_append,
      List.append_assoc, List.drop_append, List.drop_of_length_le (by omega)]
    simp
  rw [List.map_map, List.map_map]
  exact (List.map_congr_left fun test _ => hdrop test).trans (List.map_id _)

theorem reading_group (hlead : LeadsGroup lead) {m : TestModule} (h : WellNamed m)
    (hrest : (reading rest).checks = []) :
    reading (lead ++ (group m).toList ++ '\n' :: rest) =
      ⟨listing m :: (reading rest).modules, []⟩ := by
  have hline : '\n' ∉ lead ++ "\x7b module_ = \"".toList ++ m.name.toList ++ ['"'] := by
    have hstart : '\n' ∉ lead ++ "\x7b module_ = \"".toList := by
      rcases hlead with rfl | rfl <;> decide
    simp only [List.mem_append, not_or] at hstart ⊢
    exact ⟨⟨hstart, h.lineEnd_not_mem⟩, by decide⟩
  have hvalues : ∀ value ∈ m.tests.map m.qualified, '\n' ∉ value.toList := by
    intro value hvalue
    obtain ⟨test, htest, rfl⟩ := List.mem_map.1 hvalue
    exact h.lineEnd_not_mem_qualified htest
  have htext : lead ++ (group m).toList ++ '\n' :: rest =
      lead ++ "\x7b module_ = \"".toList ++ m.name.toList ++ ['"'] ++ '\n' ::
        ("      , maybeTests =".toList ++ '\n' ::
          ("            [ ".toList ++ checkList (m.tests.map m.qualified) ++ '\n' ::
            ("            ]".toList ++ '\n' :: ("      \x7d".toList ++ '\n' :: rest)))) := by
    rw [toList_group]
    simp only [List.append_assoc, List.cons_append]
  have hnone : checked? (lead ++ "\x7b module_ = \"".toList ++ m.name.toList ++ ['"']) = none := by
    rw [List.append_assoc, List.append_assoc]
    exact hlead.checked _
  rw [htext, reading_line hline, reading_silent (by decide) (by rfl),
    reading_checkList (.inl rfl) hvalues, reading_silent (by decide) (by rfl),
    reading_silent (by decide) (by rfl), hrest, List.append_nil,
    withLine_of_opened hnone (hlead.opened h.quoteMark_not_mem), map_drop_qualified,
    String.ofList_toList]
  rfl

theorem reading_groupList (hlead : LeadsGroup lead) {modules : List TestModule}
    (h : ∀ m ∈ modules, WellNamed m) (hrest : (reading rest).checks = []) :
    reading (lead ++ groupList modules ++ '\n' :: rest) =
      ⟨modules.map listing ++ (reading rest).modules, []⟩ := by
  induction modules generalizing lead with
  | nil =>
      have hline : '\n' ∉ lead := by rcases hlead with rfl | rfl <;> decide
      have hsilent : isSilent lead = true := by rcases hlead with rfl | rfl <;> rfl
      rw [show lead ++ groupList [] = lead by simp [groupList], reading_silent hline hsilent, ← hrest]
      rfl
  | cons m modules ih =>
      rw [List.forall_mem_cons] at h
      cases modules with
      | nil => exact reading_group hlead h.1 hrest
      | cons other modules =>
          have hmore := ih (.inr rfl) h.2
          rw [groupList_cons_cons, ← List.append_assoc, List.append_assoc, List.cons_append,
            reading_group hlead h.1 (by rw [hmore]), hmore]
          rfl

/-! ### The whole runner -/

/-- The imports say nothing of the list of tests. -/
theorem reading_imports {modules : List TestModule} (h : ∀ m ∈ modules, WellNamed m)
    (rest : List Char) :
    reading ((imports modules).toList ++ '\n' :: rest) = reading rest := by
  have hsilent (name : List Char) : isSilent ("import ".toList ++ name) = true := rfl
  have hline {m : TestModule} (hm : WellNamed m) : '\n' ∉ ("import " ++ m.name).toList := by
    simp [hm.lineEnd_not_mem]
  induction modules with
  | nil =>
      have hempty : '\n' ∉ ([] : List Char) := List.not_mem_nil
      exact reading_silent hempty rfl rest
  | cons m modules ih =>
      rw [List.forall_mem_cons] at h
      cases modules with
      | nil =>
          rw [show imports [m] = "import " ++ m.name by simp [imports], reading_silent (hline h.1)]
          rw [String.toList_append]
          exact hsilent _
      | cons other modules =>
          have hcons : (imports (m :: other :: modules)).toList =
              ("import " ++ m.name).toList ++ '\n' :: (imports (other :: modules)).toList := by
            rw [imports, List.map_cons, List.map_cons, String.intercalate_cons_cons,
              String.toList_append, String.toList_append, List.append_assoc]
            rfl
          rw [hcons, List.append_assoc, List.cons_append, reading_silent (hline h.1), ih h.2]
          rw [String.toList_append]
          exact hsilent _

/-- No line of the template that stands in front of the records or behind them speaks of one. -/
theorem silent_runnerLines : ∀ line ∈ Asset.runnerLines.take 2 ++ (Asset.runnerLines.drop 3).take 31 ++
    Asset.runnerLines.drop 35, '\n' ∉ line.toList ∧ isSilent line.toList = true := by
  decide +kernel

/-- The template of the runner has exactly the holes that are filled. -/
theorem exists_render_eq_ok (modules : List TestModule) :
    ∃ text, render Asset.runner.text modules = .ok text := by
  unfold render Template.render
  rw [holeNames_runner]
  exact ⟨_, rfl⟩

theorem reading_of_render {modules : List TestModule} (h : ∀ m ∈ modules, WellNamed m)
    {text : List Char} (htext : render Asset.runner.text modules = .ok text) :
    reading text = ⟨modules.map listing, []⟩ := by
  have hlines := silent_runnerLines
  simp only [List.forall_mem_append] at hlines
  have hback : reading (lined (Asset.runnerLines.drop 35)) = ⟨[], []⟩ := by
    have hread := reading_lined hlines.2 []
    rw [List.append_nil] at hread
    exact hread
  have hwhole : text = lined (Asset.runnerLines.take 2) ++ ((imports modules).toList ++ '\n' ::
      (lined ((Asset.runnerLines.drop 3).take 31) ++
        ("    [ ".toList ++ groupList modules ++ '\n' :: lined (Asset.runnerLines.drop 35)))) := by
    rw [text_of_render htext]
    unfold front between back groupList
    simp only [List.append_assoc, List.cons_append, List.nil_append]
  rw [hwhole, reading_lined hlines.1.1, reading_imports h, reading_lined hlines.1.2,
    reading_groupList (.inl rfl) h (by rw [hback]), hback, List.append_nil]

theorem sum_length_listing (modules : List TestModule) :
    ((modules.map listing).map fun listed => listed.2.length).sum = testCount modules := by
  induction modules with
  | nil => rfl
  | cons m modules ih =>
      rw [List.map_cons, List.map_cons, List.sum_cons, ih]
      rfl

/-- The runner can be generated for every list of modules, and the modules and their values can be
read back from it, so no other list gives the same runner.  It checks every value. -/
theorem readable_runner {modules : List TestModule} (h : ∀ m ∈ modules, WellNamed m) :
    ∃ text, render Asset.runner.text modules = .ok text ∧
      (reading text).modules = modules.map listing ∧
      checkCount text = testCount modules ∧
      ∀ others, (∀ m ∈ others, WellNamed m) → render Asset.runner.text others = .ok text →
        others.map listing = modules.map listing := by
  obtain ⟨text, htext⟩ := exists_render_eq_ok modules
  have hreading := reading_of_render h htext
  refine ⟨text, htext, by rw [hreading], ?_, fun others hothers hsame => ?_⟩
  · rw [checkCount_eq, hreading]
    exact sum_length_listing modules
  · have hother := reading_of_render hothers hsame
    rw [hreading] at hother
    exact (congrArg Reading.modules hother).symm

/-- Modules without values, one of them named by the start of the next name. -/
def nestedNames : List TestModule :=
  [ ⟨.ofLocation ["A.elm"], "A", []⟩
  , ⟨.ofLocation ["A", "B.elm"], "A.B", ["b", "bc"]⟩
  , ⟨.ofLocation ["C.elm"], "C", []⟩ ]

theorem readable_runner_of_nestedNames :
    ∃ text, render Asset.runner.text nestedNames = .ok text ∧
      (reading text).modules = [("A", []), ("A.B", ["b", "bc"]), ("C", [])] ∧
      checkCount text = 2 := by
  have hwell : ∀ m ∈ nestedNames, WellNamed m := by
    simp only [nestedNames, List.forall_mem_cons]
    refine ⟨⟨⟨["A"], by decide, by decide +kernel, by decide⟩, by simp⟩,
      ⟨⟨["A", "B"], by decide, by decide +kernel, by decide⟩, ?_⟩,
      ⟨⟨["C"], by decide, by decide +kernel, by decide⟩, by simp⟩, by simp⟩
    simp only [List.forall_mem_cons]
    exact ⟨List.all_eq_true.1 (by decide +kernel), List.all_eq_true.1 (by decide +kernel), by simp⟩
  obtain ⟨text, htext, hmodules, hcount, -⟩ := readable_runner hwell
  exact ⟨text, htext, hmodules, hcount⟩

end RunnerSource

end ElmSuite
