import ElmSuite.Proofs.Suite.RunnerText

/-!
The texts of the scripts that node runs.  A text is separable from whatever follows it if no hole of a
template starts in the one and ends in the other, and a template that starts with separable parts is
filled part by part.  The lines of the two scripts that hold numbers are such parts.
-/

namespace ElmSuite

namespace Template

/-- No hole starts in a text and ends behind it. -/
def Separable (text : List Char) : Prop :=
  ∀ rest, pieces (text ++ rest) = pieces text ++ pieces rest

theorem separable_of_isPlain {text : List Char} (h : isPlain text = true) : Separable text := by
  intro rest
  rw [pieces_append h, pieces_of_isPlain h]

theorem pieces_of_holeAt? {text : List Char} {name : String}
    (h : ∀ rest, holeAt? (text ++ rest) = some (name, rest)) : pieces text = [.hole name] := by
  have hself := pieces_hole (h [])
  rwa [List.append_nil, show pieces [] = [] by rw [pieces]] at hself

theorem separable_of_holeAt? {text : List Char} {name : String}
    (h : ∀ rest, holeAt? (text ++ rest) = some (name, rest)) : Separable text := by
  intro rest
  rw [pieces_hole (h rest), pieces_of_holeAt? h]
  rfl

theorem Separable.append {first second : List Char} (hfirst : Separable first)
    (hsecond : Separable second) : Separable (first ++ second) := by
  intro rest
  rw [List.append_assoc, hfirst, hsecond, hfirst, List.append_assoc]

/-- A text with its holes filled. -/
def filled (values : OrderedMap String (List Char)) (text : List Char) : List Char :=
  (pieces text).flatMap (Piece.fill values)

theorem Separable.filled_append {first : List Char} (h : Separable first)
    (values : OrderedMap String (List Char)) (second : List Char) :
    filled values (first ++ second) = filled values first ++ filled values second := by
  rw [filled, h, List.flatMap_append]
  rfl

theorem filled_of_isPlain {text : List Char} (h : isPlain text = true)
    (values : OrderedMap String (List Char)) : filled values text = text := by
  rw [filled, pieces_of_isPlain h, flatMap_fill_chars]

theorem filled_of_holeAt? {text : List Char} {name : String}
    (h : ∀ rest, holeAt? (text ++ rest) = some (name, rest)) (values : OrderedMap String (List Char)) :
    filled values text = (values.get? name).getD [] := by
  rw [filled, pieces_of_holeAt? h]
  exact List.append_nil _

/-- The names of the holes of a text, from left to right. -/
def holesOf (text : List Char) : List String :=
  (pieces text).filterMap Piece.name?

theorem Separable.holesOf_append {first : List Char} (h : Separable first) (second : List Char) :
    holesOf (first ++ second) = holesOf first ++ holesOf second := by
  rw [holesOf, h, List.filterMap_append]
  rfl

theorem holesOf_of_isPlain {text : List Char} (h : isPlain text = true) : holesOf text = [] := by
  rw [holesOf, pieces_of_isPlain h, filterMap_name?_chars]

theorem holesOf_of_holeAt? {text : List Char} {name : String}
    (h : ∀ rest, holeAt? (text ++ rest) = some (name, rest)) : holesOf text = [name] := by
  rw [holesOf, pieces_of_holeAt? h]
  rfl

/-- A separable part of a template behind another one is there in the filled template. -/
theorem filled_within_of_render {front part back text : List Char} {values : OrderedMap String (List Char)}
    {name : Option String} (hfront : Separable front) (hpart : Separable part)
    (h : render (front ++ (part ++ back)) values name = .ok text) : filled values part <:+: text := by
  refine ⟨filled values front, filled values back, ?_⟩
  rw [eq_of_render h]
  change _ = filled values (front ++ (part ++ back))
  rw [hfront.filled_append, hpart.filled_append, List.append_assoc]

/-- A hole with a name. -/
def hole (name : String) : List Char :=
  "\x7b\x7b ".toList ++ name.toList ++ " \x7d\x7d".toList

/-- A name can stand in a hole, whatever follows it. -/
def IsHoleName (name : String) : Prop :=
  ∀ rest, holeAt? (hole name ++ rest) = some (name, rest)

/-- A plain text, and the name of the hole behind it. -/
def IsPart (part : String × String) : Prop :=
  isPlain part.1.toList = true ∧ IsHoleName part.2

/-- Plain texts, each in front of what its name is filled with, and a last one. -/
def assembled (fill : String → List Char) (last : String) : List (String × String) → List Char
  | [] => last.toList
  | (plain, name) :: rest => plain.toList ++ (fill name ++ assembled fill last rest)

section Assembled

variable {last : String} {parts : List (String × String)} (hlast : isPlain last.toList = true)
  (hparts : ∀ part ∈ parts, IsPart part)
include hlast hparts

theorem separable_assembled : Separable (assembled hole last parts) := by
  induction parts with
  | nil => exact separable_of_isPlain hlast
  | cons part rest ih =>
      rw [List.forall_mem_cons] at hparts
      exact (separable_of_isPlain hparts.1.1).append
        ((separable_of_holeAt? hparts.1.2).append (ih hparts.2))

theorem filled_assembled (values : OrderedMap String (List Char)) :
    filled values (assembled hole last parts) =
      assembled (fun name => (values.get? name).getD []) last parts := by
  induction parts with
  | nil => exact filled_of_isPlain hlast values
  | cons part rest ih =>
      rw [List.forall_mem_cons] at hparts
      rw [assembled, assembled, (separable_of_isPlain hparts.1.1).filled_append,
        (separable_of_holeAt? hparts.1.2).filled_append, filled_of_isPlain hparts.1.1,
        filled_of_holeAt? hparts.1.2, ih hparts.2]

theorem holesOf_assembled : holesOf (assembled hole last parts) = parts.map Prod.snd := by
  induction parts with
  | nil => exact holesOf_of_isPlain hlast
  | cons part rest ih =>
      rw [List.forall_mem_cons] at hparts
      rw [assembled, (separable_of_isPlain hparts.1.1).holesOf_append,
        (separable_of_holeAt? hparts.1.2).holesOf_append, holesOf_of_isPlain hparts.1.1,
        holesOf_of_holeAt? hparts.1.2, ih hparts.2]
      rfl

end Assembled

/-- The template of a script: a hole between plain texts, parts that end in holes, and a plain rest. -/
structure ScriptTemplate where
  front : List Char
  name : String
  between : List Char
  parts : List (String × String)
  last : String
  back : List Char
  plain_front : isPlain front = true
  isHoleName : IsHoleName name
  plain_between : isPlain between = true
  isPart : ∀ part ∈ parts, IsPart part
  plain_last : isPlain last.toList = true
  plain_back : isPlain back = true

namespace ScriptTemplate

variable (t : ScriptTemplate)

/-- What stands in front of the parts. -/
def start : List Char :=
  t.front ++ (hole t.name ++ t.between)

/-- The text of the template. -/
def text : List Char :=
  t.start ++ (assembled hole t.last t.parts ++ t.back)

theorem separable_start : Separable t.start :=
  (separable_of_isPlain t.plain_front).append
    ((separable_of_holeAt? t.isHoleName).append (separable_of_isPlain t.plain_between))

theorem holesOf_start : holesOf t.start = [t.name] := by
  rw [start, (separable_of_isPlain t.plain_front).holesOf_append,
    (separable_of_holeAt? t.isHoleName).holesOf_append, holesOf_of_isPlain t.plain_front,
    holesOf_of_holeAt? t.isHoleName, holesOf_of_isPlain t.plain_between]
  rfl

theorem holeNames_text : holeNames t.text = (t.name :: t.parts.map Prod.snd).eraseDups := by
  have hholes : holesOf t.text = t.name :: t.parts.map Prod.snd := by
    rw [text, t.separable_start.holesOf_append, t.holesOf_start,
      (separable_assembled t.plain_last t.isPart).holesOf_append, holesOf_of_isPlain t.plain_back,
      holesOf_assembled t.plain_last t.isPart, List.append_nil]
    rfl
  rw [← hholes]
  rfl

/-- The parts are there in a script, with the values in place of the holes. -/
theorem assembled_within {values : OrderedMap String (List Char)} {title : Option String}
    {script : List Char} (h : render t.text values title = .ok script) :
    assembled (fun name => (values.get? name).getD []) t.last t.parts <:+: script := by
  have hwithin := filled_within_of_render t.separable_start
    (separable_assembled t.plain_last t.isPart) h
  rwa [filled_assembled t.plain_last t.isPart] at hwithin

end ScriptTemplate

end Template

open Template

/-- The values for the holes of the worker. -/
def nodeRunnerValues (seed fuzz : Int) : OrderedMap String (List Char) :=
  .ofList
    [ ("polyfills", Asset.polyfills.text)
    , ("initialSeed", (toString seed).toList)
    , ("fuzzRuns", (toString fuzz).toList) ]

/-- The values for the holes of the supervisor. -/
def nodeSupervisorValues (workers seed fuzz : Int) (reporter : Reporter) :
    OrderedMap String (List Char) :=
  .ofList
    [ ("polyfills", Asset.polyfills.text)
    , ("nb_workers", (toString workers).toList)
    , ("initialSeed", (toString seed).toList)
    , ("fuzzRuns", (toString fuzz).toList)
    , ("reporter", reporter.name.toList) ]

/-- The text of the worker for a seed and a number of runs. -/
def nodeRunnerText (seed fuzz : Int) : Except Failure (List Char) :=
  render Asset.nodeRunner.text (nodeRunnerValues seed fuzz) (some Asset.nodeRunner.fileName)

/-- The text of the supervisor for a number of workers, a seed, a number of runs and a report format. -/
def nodeSupervisorText (workers seed fuzz : Int) (reporter : Reporter) : Except Failure (List Char) :=
  render Asset.nodeSupervisor.text (nodeSupervisorValues workers seed fuzz reporter)
    (some Asset.nodeSupervisor.fileName)

/-- What the worker starts the tests with. -/
def flagsLine (seed fuzz : Int) : String :=
  "  flags: \x7b initialSeed: " ++ toString seed ++ ", fuzzRuns: " ++ toString fuzz ++ " \x7d,"

/-- The constants of the supervisor. -/
def constantLines (workers seed fuzz : Int) (reporter : Reporter) : String :=
  "const nbWorkers = " ++ toString workers ++ ";\nconst initialSeed = " ++ toString seed ++
    ";\nconst fuzzRuns = " ++ toString fuzz ++ ";\nconst mode = \"" ++ reporter.name ++ "\";"

/-- The parts of the template of the worker that become its flags. -/
def flagsParts : List (String × String) :=
  [("  flags: \x7b initialSeed: ", "initialSeed"), (", fuzzRuns: ", "fuzzRuns")]

/-- The parts of the template of the supervisor that become its constants. -/
def constantParts : List (String × String) :=
  [ ("const nbWorkers = ", "nb_workers"), (";\nconst initialSeed = ", "initialSeed")
  , (";\nconst fuzzRuns = ", "fuzzRuns"), (";\nconst mode = \"", "reporter") ]

theorem lined_append (first second : List String) :
    RunnerSource.lined (first ++ second) = RunnerSource.lined first ++ RunnerSource.lined second :=
  List.flatMap_append

theorem lined_cons (line : String) (rest : List String) :
    RunnerSource.lined (line :: rest) = line.toList ++ '\n' :: RunnerSource.lined rest := by
  rw [RunnerSource.lined, List.flatMap_cons, List.append_assoc]
  rfl

theorem isPlain_line {chars : List Char} (h : isPlain (chars ++ ['\n']) = true) :
    isPlain ((String.ofList chars).toList ++ ['\n']) = true := by
  rw [String.toList_ofList]
  exact h

/-- Lines are plain together if each is plain with its end. -/
theorem isPlain_lines {lines : List String} (h : ∀ line ∈ lines, isPlain (line.toList ++ ['\n']) = true) :
    isPlain (RunnerSource.lined lines) = true := by
  induction lines with
  | nil => rfl
  | cons line rest ih =>
      rw [List.forall_mem_cons] at h
      exact isPlain_append h.1 (ih h.2)

theorem isPlain_linesBehind {lines : List String}
    (h : ∀ line ∈ lines, isPlain (line.toList ++ ['\n']) = true) :
    isPlain ('\n' :: RunnerSource.lined lines) = true :=
  isPlain_append (show isPlain ['\n'] = true from rfl) (isPlain_lines h)

/-! ### The worker -/

theorem plain_nodeRunnerLines :
    (∀ line ∈ Asset.nodeRunnerLines.take 2, isPlain (line.toList ++ ['\n']) = true) ∧
    (∀ line ∈ (Asset.nodeRunnerLines.drop 3).take 5, isPlain (line.toList ++ ['\n']) = true) ∧
    ∀ line ∈ Asset.nodeRunnerLines.drop 9, isPlain (line.toList ++ ['\n']) = true := by
  simp only [Asset.nodeRunnerLines, List.take, List.drop, List.forall_mem_cons]
  and_intros
  all_goals first | exact isPlain_line rfl | exact fun _ hnil => absurd hnil List.not_mem_nil

/-- The template of the worker. -/
def nodeRunnerTemplate : ScriptTemplate where
  front := RunnerSource.lined (Asset.nodeRunnerLines.take 2)
  name := "polyfills"
  between := '\n' :: RunnerSource.lined ((Asset.nodeRunnerLines.drop 3).take 5)
  parts := flagsParts
  last := " \x7d,"
  back := '\n' :: RunnerSource.lined (Asset.nodeRunnerLines.drop 9)
  plain_front := isPlain_lines plain_nodeRunnerLines.1
  isHoleName := fun _ => rfl
  plain_between := isPlain_linesBehind plain_nodeRunnerLines.2.1
  isPart := by
    simp only [flagsParts, List.forall_mem_cons]
    exact ⟨⟨by decide, fun _ => rfl⟩, ⟨by decide, fun _ => rfl⟩, by simp⟩
  plain_last := by decide
  plain_back := isPlain_linesBehind plain_nodeRunnerLines.2.2

theorem text_nodeRunner : Asset.nodeRunner.text = nodeRunnerTemplate.text := by
  have hlines : Asset.nodeRunnerLines = Asset.nodeRunnerLines.take 2 ++ "\x7b\x7b polyfills \x7d\x7d" ::
      ((Asset.nodeRunnerLines.drop 3).take 5 ++
        "  flags: \x7b initialSeed: \x7b\x7b initialSeed \x7d\x7d, fuzzRuns: \x7b\x7b fuzzRuns \x7d\x7d \x7d," ::
          Asset.nodeRunnerLines.drop 9) := rfl
  have hhole : "\x7b\x7b polyfills \x7d\x7d".toList = hole "polyfills" := by decide
  have hflags :
      "  flags: \x7b initialSeed: \x7b\x7b initialSeed \x7d\x7d, fuzzRuns: \x7b\x7b fuzzRuns \x7d\x7d \x7d,".toList =
        assembled hole " \x7d," flagsParts := by
    decide
  have htext : Asset.nodeRunner.text = RunnerSource.lined Asset.nodeRunnerLines := rfl
  rw [htext, hlines, lined_append, lined_cons, lined_append, lined_cons, hhole, hflags]
  unfold ScriptTemplate.text ScriptTemplate.start
  simp only [nodeRunnerTemplate, List.append_assoc, List.cons_append]

/-- The worker can be generated for all numbers. -/
theorem nodeRunnerText_eq (seed fuzz : Int) :
    nodeRunnerText seed fuzz = .ok (filled (nodeRunnerValues seed fuzz) Asset.nodeRunner.text) := by
  have hnames : holeNames Asset.nodeRunner.text = ["polyfills", "initialSeed", "fuzzRuns"] := by
    rw [text_nodeRunner, ScriptTemplate.holeNames_text]
    rfl
  unfold nodeRunnerText render
  rw [hnames]
  rfl

/-- The worker starts the tests with its numbers. -/
theorem flagsLine_within {seed fuzz : Int} {text : List Char} (h : nodeRunnerText seed fuzz = .ok text) :
    (flagsLine seed fuzz).toList <:+: text := by
  rw [nodeRunnerText, text_nodeRunner] at h
  have hwithin := nodeRunnerTemplate.assembled_within h
  have hseed : (nodeRunnerValues seed fuzz).get? "initialSeed" = some (toString seed).toList := rfl
  have hfuzz : (nodeRunnerValues seed fuzz).get? "fuzzRuns" = some (toString fuzz).toList := rfl
  simp only [nodeRunnerTemplate, flagsParts, assembled, hseed, hfuzz, Option.getD_some] at hwithin
  unfold flagsLine
  simp only [String.toList_append, List.append_assoc]
  exact hwithin

/-! ### The supervisor -/

theorem plain_nodeSupervisorLines :
    (∀ line ∈ Asset.nodeSupervisorLines.take 4, isPlain (line.toList ++ ['\n']) = true) ∧
    (∀ line ∈ (Asset.nodeSupervisorLines.drop 5).take 5, isPlain (line.toList ++ ['\n']) = true) ∧
    ∀ line ∈ Asset.nodeSupervisorLines.drop 14, isPlain (line.toList ++ ['\n']) = true := by
  simp only [Asset.nodeSupervisorLines, List.take, List.drop, List.forall_mem_cons]
  and_intros
  all_goals first | exact isPlain_line rfl | exact fun _ hnil => absurd hnil List.not_mem_nil

/-- The template of the supervisor. -/
def nodeSupervisorTemplate : ScriptTemplate where
  front := RunnerSource.lined (Asset.nodeSupervisorLines.take 4)
  name := "polyfills"
  between := '\n' :: RunnerSource.lined ((Asset.nodeSupervisorLines.drop 5).take 5)
  parts := constantParts
  last := "\";"
  back := '\n' :: RunnerSource.lined (Asset.nodeSupervisorLines.drop 14)
  plain_front := isPlain_lines plain_nodeSupervisorLines.1
  isHoleName := fun _ => rfl
  plain_between := isPlain_linesBehind plain_nodeSupervisorLines.2.1
  isPart := by
    simp only [constantParts, List.forall_mem_cons]
    exact ⟨⟨by decide, fun _ => rfl⟩, ⟨by decide, fun _ => rfl⟩, ⟨by decide, fun _ => rfl⟩,
      ⟨by decide, fun _ => rfl⟩, by simp⟩
  plain_last := by decide
  plain_back := isPlain_linesBehind plain_nodeSupervisorLines.2.2

theorem text_nodeSupervisor : Asset.nodeSupervisor.text = nodeSupervisorTemplate.text := by
  have hlines : Asset.nodeSupervisorLines =
      Asset.nodeSupervisorLines.take 4 ++ "\x7b\x7b polyfills \x7d\x7d" ::
        ((Asset.nodeSupervisorLines.drop 5).take 5 ++ "const nbWorkers = \x7b\x7b nb_workers \x7d\x7d;" ::
          "const initialSeed = \x7b\x7b initialSeed \x7d\x7d;" ::
            "const fuzzRuns = \x7b\x7b fuzzRuns \x7d\x7d;" ::
              "const mode = \"\x7b\x7b reporter \x7d\x7d\";" :: Asset.nodeSupervisorLines.drop 14) := rfl
  have hhole : "\x7b\x7b polyfills \x7d\x7d".toList = hole "polyfills" := by decide
  have hconstants : "const nbWorkers = \x7b\x7b nb_workers \x7d\x7d;".toList ++ '\n' ::
      ("const initialSeed = \x7b\x7b initialSeed \x7d\x7d;".toList ++ '\n' ::
        ("const fuzzRuns = \x7b\x7b fuzzRuns \x7d\x7d;".toList ++ '\n' ::
          "const mode = \"\x7b\x7b reporter \x7d\x7d\";".toList)) =
        assembled hole "\";" constantParts := by
    decide
  have htext : Asset.nodeSupervisor.text = RunnerSource.lined Asset.nodeSupervisorLines := rfl
  rw [htext, hlines, lined_append, lined_cons, lined_append, lined_cons, lined_cons, lined_cons,
    lined_cons, hhole]
  unfold ScriptTemplate.text ScriptTemplate.start
  simp only [nodeSupervisorTemplate, ← hconstants, List.append_assoc, List.cons_append]

/-- The supervisor can be generated for all numbers and report formats. -/
theorem nodeSupervisorText_eq (workers seed fuzz : Int) (reporter : Reporter) :
    nodeSupervisorText workers seed fuzz reporter =
      .ok (filled (nodeSupervisorValues workers seed fuzz reporter) Asset.nodeSupervisor.text) := by
  have hnames : holeNames Asset.nodeSupervisor.text =
      ["polyfills", "nb_workers", "initialSeed", "fuzzRuns", "reporter"] := by
    rw [text_nodeSupervisor, ScriptTemplate.holeNames_text]
    rfl
  unfold nodeSupervisorText render
  rw [hnames]
  rfl

/-- The supervisor has its numbers and its report format as constants. -/
theorem constantLines_within {workers seed fuzz : Int} {reporter : Reporter} {text : List Char}
    (h : nodeSupervisorText workers seed fuzz reporter = .ok text) :
    (constantLines workers seed fuzz reporter).toList <:+: text := by
  rw [nodeSupervisorText, text_nodeSupervisor] at h
  have hwithin := nodeSupervisorTemplate.assembled_within h
  have hworkers : (nodeSupervisorValues workers seed fuzz reporter).get? "nb_workers" =
    some (toString workers).toList := rfl
  have hseed : (nodeSupervisorValues workers seed fuzz reporter).get? "initialSeed" =
    some (toString seed).toList := rfl
  have hfuzz : (nodeSupervisorValues workers seed fuzz reporter).get? "fuzzRuns" =
    some (toString fuzz).toList := rfl
  have hreporter : (nodeSupervisorValues workers seed fuzz reporter).get? "reporter" =
    some reporter.name.toList := rfl
  simp only [nodeSupervisorTemplate, constantParts, assembled, hworkers, hseed, hfuzz, hreporter,
    Option.getD_some] at hwithin
  unfold constantLines
  simp only [String.toList_append, List.append_assoc]
  exact hwithin

/-! ### Writing the scripts -/

namespace Generation

/-- Leaves a text that an installed template has made. -/
def leave (asset : Asset) (output : Path) (content : List Char) : Act Path := do
  Act.makeFolders output.parent
  Act.writeText output content
  Act.note templatePart ("Generated " ++ output.toString ++ " from " ++ asset.fileName)
  return output

theorem fromAsset_of_render {asset : Asset} {output : Path} {values : OrderedMap String (List Char)}
    {content : List Char} (h : render asset.text values (some asset.fileName) = .ok content) :
    fromAsset asset output values = leave asset output content := by
  unfold fromAsset writeRendered
  rw [h]
  rfl

/-- The templates always fit: what is generated is a template with its holes filled. -/
theorem runner_eq (modules : List TestModule) (output : Path) :
    runner modules output =
      leave .runner output (filled (RunnerSource.values modules) Asset.runner.text) := by
  refine fromAsset_of_render ?_
  unfold render
  rw [RunnerSource.holeNames_runner]
  rfl

theorem nodeRunner_eq (seed fuzz : Int) (output : Path) :
    nodeRunner seed fuzz output =
      leave .nodeRunner output (filled (nodeRunnerValues seed fuzz) Asset.nodeRunner.text) :=
  fromAsset_of_render (nodeRunnerText_eq seed fuzz)

theorem nodeSupervisor_eq (workers seed fuzz : Int) (reporter : Reporter) (output : Path) :
    nodeSupervisor workers seed fuzz reporter output =
      leave .nodeSupervisor output
        (filled (nodeSupervisorValues workers seed fuzz reporter) Asset.nodeSupervisor.text) :=
  fromAsset_of_render (nodeSupervisorText_eq workers seed fuzz reporter)

end Generation

end ElmSuite
