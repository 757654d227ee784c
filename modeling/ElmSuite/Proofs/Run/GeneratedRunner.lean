import ElmSuite.Proofs.Run.Conduct
import ElmSuite.Proofs.Suite.Collection
import ElmSuite.Proofs.Suite.RunnerText

/-!
The tests that a run passes on to its generated runner.  The files that are checked to compile, the
modules whose tests are found and the modules that the runner imports and lists are the same, in the
same order.
-/

namespace ElmSuite

open Act

namespace Pipeline

/-- How the runner that a run generates lists test modules. -/
structure Faithful (context : RunContext) (options : RunOptions) (layout : Layout)
    (start final : World) (modules : List TestModule) (text : List Char) : Prop where
  /-- There is a test module. -/
  nonempty : modules ≠ []
  /-- No file is there twice. -/
  distinct : (modules.map fun m => m.path.toString).Nodup
  /-- The second call of the run is the one that checks the files, in this order. -/
  checked : final.calls[start.calls.length + 1]? =
    some (.compiler (Compiler.command options.compiler Compiler.noOutput.toString
      (modules.map fun m => m.path.toString)) layout.root.toString)
  /-- The modules are named by the directories of the generated manifest. -/
  named : ∃ visit ∈ visits context options layout Stage.all {} start, visit.stage = .synthesize ∧
    ∃ synthesis after, (synthesize context layout).run visit.world = (.ok synthesis, after) ∧
      ∀ m ∈ modules, Elm.moduleNameOf synthesis.directories m.path = .ok m.name
  /-- Their tests are the values that the files expose when the tests are looked for. -/
  read : ∃ visit ∈ visits context options layout Stage.all {} start, visit.stage = .findTests ∧
    ∀ m ∈ modules, ∃ source, Discovery.readTestFile visit.world.disk m.path = .ok source ∧
      m.tests = Elm.exposedValues source
  /-- The text is written to the runner's source. -/
  written : ∃ visit ∈ visits context options layout Stage.all {} start, visit.stage = .generateRunner ∧
    ∃ value made after,
      (perform context options layout visit.found .generateRunner).run visit.world = (.ok value, after) ∧
      Disk.makeFolders layout.runnerSource.parent visit.world.disk = (.ok (), made) ∧
      made.writeText layout.runnerSource.toString text = .ok after.disk
  /-- The text is the template with an import for every module and a record for every module, which
  lists its tests. -/
  listed : ∃ front between back,
    (Template.isPlain front = true ∧ Template.isPlain between = true ∧ Template.isPlain back = true) ∧
    Asset.runner.text = front ++ "\x7b\x7b user_imports \x7d\x7d".toList ++ between ++
      "\x7b\x7b tests \x7d\x7d".toList ++ back ∧
    text = front ++ ("\n".intercalate (modules.map fun m => "import " ++ m.name)).toList ++ between ++
      ("\n    , ".intercalate (modules.map fun m =>
        "\x7b module_ = \"" ++ m.name ++ "\"\n      , maybeTests =\n            [ " ++
          "\n            , ".intercalate (m.tests.map fun test => "check " ++ (m.name ++ "." ++ test)) ++
          "\n            ]\n      \x7d")).toList ++ back

variable {context : RunContext} {options : RunOptions} {layout : Layout}

theorem sortPaths_perm (files : List Path) : (sortPaths files).Perm files :=
  List.mergeSort_perm files _

/-- What the files of a run are when they are checked and looked through. -/
theorem sorted_of_discover {world after : World} {files : List Path} {targets : List String}
    {root : String} (hdisk : world.disk.WellFormed)
    (h : (Discovery.collect targets root).run world = (.ok files, after)) :
    sortPaths files ≠ [] ∧ ((sortPaths files).map Path.toString).Nodup := by
  obtain ⟨hne, hnodup⟩ := Discovery.collect_eq_ok hdisk h
  have hperm := sortPaths_perm files
  exact ⟨fun hnil => hne (hnil ▸ hperm).nil_eq.symm, (hperm.map Path.toString).nodup_iff.2 hnodup⟩

/-! ### What the stages find, and what they pass on -/

section Perform

variable {found next : Findings} {detail : Option String} {world after : World}

theorem files_of_discover
    (h : (perform context options layout found .discover).run world = (.ok (next, detail), after)) :
    (Discovery.collect options.files layout.projectRoot.toString).run world = (.ok next.files, after) := by
  obtain ⟨files, hrun, heq⟩ := run_map_eq_ok.1 h
  cases heq
  exact hrun

theorem synthesis_of_synthesize
    (h : (perform context options layout found .synthesize).run world = (.ok (next, detail), after)) :
    (synthesize context layout).run world = (.ok next.synthesis, after) ∧ next.files = found.files := by
  obtain ⟨synthesis, hrun, heq⟩ := run_map_eq_ok.1 h
  cases heq
  exact ⟨hrun, rfl⟩

theorem next_of_solve
    (h : (perform context options layout found .solve).run world = (.ok (next, detail), after)) :
    next = found := by
  obtain ⟨_, -, heq⟩ := run_map_eq_ok.1 h
  cases heq
  rfl

theorem next_of_compileTests
    (h : (perform context options layout found .compileTests).run world = (.ok (next, detail), after)) :
    next = found := by
  obtain ⟨_, -, heq⟩ := run_map_eq_ok.1 h
  cases heq
  rfl

theorem modules_of_findTests
    (h : (perform context options layout found .findTests).run world = (.ok (next, detail), after)) :
    ElmSuite.findTests found.synthesis.directories (Discovery.readTestFile world.disk) found.files =
      .ok next.modules := by
  obtain ⟨modules, hrun, heq⟩ := run_map_eq_ok.1 h
  cases heq
  obtain ⟨_, _, hreport, hrun⟩ := run_bind_eq_ok.1 hrun
  cases hreport
  obtain ⟨disk, _, hdisk, hrun⟩ := run_bind_eq_ok.1 hrun
  cases hdisk
  rw [run_ofTrouble, Prod.mk.injEq] at hrun
  exact hrun.1

theorem write_of_generateRunner
    (h : (perform context options layout found .generateRunner).run world = (.ok (next, detail), after)) :
    ∃ text made, Template.render Asset.runner.text (RunnerSource.values found.modules)
        (some Asset.runner.fileName) = .ok text ∧
      Disk.makeFolders layout.runnerSource.parent world.disk = (.ok (), made) ∧
      made.writeText layout.runnerSource.toString text = .ok after.disk := by
  obtain ⟨path, hrun, -⟩ := run_map_eq_ok.1 h
  exact Generation.exists_write_of_fromAsset hrun

end Perform

/-- A course that passes the writing of the runner lists there every test module that it checks, and
nothing else. -/
theorem Course.exists_faithful {start final : World} {ending : Except Interruption Findings}
    {outcomes : List Outcome} {outcome : Outcome} (hdisk : start.disk.WellFormed)
    (h : Course context options layout Stage.all {} start ending final outcomes)
    (hmem : outcome ∈ outcomes) (hstage : outcome.stage = .generateRunner) (hok : outcome.ok = true) :
    ∃ modules text, Faithful context options layout start final modules text := by
  have hcalls := h.calls
  have hnext {stage : Stage} (hne : stage ≠ .generateRunner) : stage ≠ outcome.stage := hstage ▸ hne
  obtain ⟨found₁, _, world₁, _, hrun₁, hcourse, hmem⟩ := h.head_passed hmem hok
  obtain ⟨found₂, _, world₂, _, hrun₂, hcourse, hmem⟩ := hcourse.head_passed (hmem (hnext (by decide))) hok
  obtain ⟨found₃, _, world₃, _, hrun₃, hcourse, hmem⟩ := hcourse.head_passed (hmem (hnext (by decide))) hok
  obtain ⟨found₄, _, world₄, _, hrun₄, hcourse, hmem⟩ := hcourse.head_passed (hmem (hnext (by decide))) hok
  obtain ⟨found₅, _, world₅, _, hrun₅, hcourse, hmem⟩ := hcourse.head_passed (hmem (hnext (by decide))) hok
  obtain ⟨found₆, _, world₆, _, hrun₆, hcourse, hmem⟩ := hcourse.head_passed (hmem (hnext (by decide))) hok
  obtain ⟨found₇, _, world₇, _, hrun₇, -, -⟩ := hcourse.head_passed (hmem (hnext (by decide))) hok
  have hvisits : visits context options layout Stage.all {} start =
      [⟨.validateOptions, {}, start⟩, ⟨.discover, found₁, world₁⟩, ⟨.synthesize, found₂, world₂⟩,
        ⟨.solve, found₃, world₃⟩, ⟨.compileTests, found₄, world₄⟩, ⟨.findTests, found₅, world₅⟩,
        ⟨.generateRunner, found₆, world₆⟩] ++
          visits context options layout (Stage.all.drop 7) found₇ world₇ := by
    rw [Stage.all, visits_cons hrun₁, visits_cons hrun₂, visits_cons hrun₃, visits_cons hrun₄,
      visits_cons hrun₅, visits_cons hrun₆, visits_cons hrun₇]
    rfl
  -- The files, the directories and the modules are passed on as they are found.
  have hworld : world₁ = start := by
    obtain ⟨reporter, hreporter, -⟩ := run_map_eq_ok.1 hrun₁
    exact (run_ofFailure_eq_ok.1 hreporter).2.symm
  rw [hworld] at hrun₂ hvisits
  obtain ⟨hne, hnodup⟩ := sorted_of_discover hdisk (files_of_discover hrun₂)
  obtain ⟨hsynthesize, hfiles⟩ := synthesis_of_synthesize hrun₃
  obtain rfl := next_of_solve hrun₄
  obtain rfl := next_of_compileTests hrun₅
  obtain ⟨hpaths, hmodules⟩ := findTests_eq_ok (modules_of_findTests hrun₆)
  obtain ⟨text, made, hrender, hmade, hwrite⟩ := write_of_generateRunner hrun₇
  rw [hfiles] at hpaths
  have hsources : (found₆.modules.map fun m => m.path.toString) =
      (sortPaths found₂.files).map Path.toString := by
    rw [← hpaths, List.map_map]
    rfl
  have hsecond (rest : List Visit) :
      (([⟨.validateOptions, {}, start⟩, ⟨.discover, found₁, start⟩, ⟨.synthesize, found₂, world₂⟩,
        ⟨.solve, found₅, world₃⟩, ⟨.compileTests, found₅, world₄⟩, ⟨.findTests, found₅, world₅⟩,
        ⟨.generateRunner, found₆, world₆⟩] : List Visit) ++ rest).filterMap (Visit.call? context options layout) =
      toolCall context options layout ⟨.solve, found₅, world₃⟩ .solver ::
        toolCall context options layout ⟨.compileTests, found₅, world₄⟩ .testCompiler ::
          rest.filterMap (Visit.call? context options layout) := rfl
  refine ⟨found₆.modules, text, ?_⟩
  exact
    { nonempty := fun hnil => hne (by rw [← hpaths, hnil, List.map_nil])
      distinct := hsources ▸ hnodup
      checked := by
        rw [hcalls, hvisits, hsecond, hsources, ← hfiles, List.getElem?_append_right (by omega),
          Nat.add_sub_cancel_left]
        rfl
      named := by
        refine ⟨⟨.synthesize, found₂, world₂⟩, ?_, rfl, _, _, hsynthesize, fun m hm => (hmodules m hm).1⟩
        rw [hvisits]
        exact List.mem_append_left _ (by simp)
      read := by
        refine ⟨⟨.findTests, found₅, world₅⟩, ?_, rfl, fun m hm => (hmodules m hm).2⟩
        rw [hvisits]
        exact List.mem_append_left _ (by simp)
      written := by
        refine ⟨⟨.generateRunner, found₆, world₆⟩, ?_, rfl, _, made, _, hrun₇, hmade, hwrite⟩
        rw [hvisits]
        exact List.mem_append_left _ (by simp)
      listed := ⟨RunnerSource.front, RunnerSource.between, RunnerSource.back,
        ⟨RunnerSource.isPlain_front, RunnerSource.isPlain_between, RunnerSource.isPlain_back⟩,
        RunnerSource.text_runner, RunnerSource.text_of_render hrender⟩ }

/-- A run that generates its runner lists there every test module that it checks, and nothing else. -/
theorem stages_faithful {start : World} {ending : Except Interruption Int} {state : RunState}
    {outcome : Outcome} (hdisk : start.disk.WellFormed)
    (hrun : (stages context options layout).run ⟨start, []⟩ = (ending, state))
    (hmem : outcome ∈ state.outcomes) (hstage : outcome.stage = .generateRunner)
    (hok : outcome.ok = true) :
    ∃ modules text, Faithful context options layout start state.world modules text := by
  rw [stages_eq, run_map_running] at hrun
  rcases hall : (performAll context options layout Stage.all {}).run ⟨start, []⟩ with ⟨result, last⟩
  rw [hall] at hrun
  obtain ⟨-, rfl⟩ := Prod.mk.inj hrun
  obtain ⟨outcomes, houtcomes, hcourse⟩ := course_of_performAll hall
  rw [houtcomes, List.nil_append] at hmem
  exact hcourse.exists_faithful hdisk hmem hstage hok

/-- A run whose compiler leaves nothing has written its runner before it fails. -/
theorem stages_faithful_of_empty_output :
    ∃ ending state, (stages (smallContext 0) {} ⟨.ofString "/p", defaultElmVersion⟩).run
        ⟨⟨smallProject, [], []⟩, []⟩ = (ending, state) ∧
      (state.outcomes.map fun outcome => (outcome.stage, outcome.ok)) =
        (Stage.all.take 7).map (·, true) ++ [(.compileRunner, false)] ∧
      ∃ modules text, Faithful (smallContext 0) {} ⟨.ofString "/p", defaultElmVersion⟩
        ⟨smallProject, [], []⟩ state.world modules text := by
  have hdisk : smallProject.WellFormed :=
    ⟨Disk.properNames_of_tree (by decide +kernel), ⟨_, rfl⟩⟩
  have houtcomes : (((stages (smallContext 0) {} ⟨.ofString "/p", defaultElmVersion⟩).run
      ⟨⟨smallProject, [], []⟩, []⟩).2.outcomes.map fun outcome => (outcome.stage, outcome.ok)) =
        (Stage.all.take 7).map (·, true) ++ [(.compileRunner, false)] := by
    decide +kernel
  rcases hrun : (stages (smallContext 0) {} ⟨.ofString "/p", defaultElmVersion⟩).run
    ⟨⟨smallProject, [], []⟩, []⟩ with ⟨ending, state⟩
  rw [hrun] at houtcomes
  have hmem : (Stage.generateRunner, true) ∈
      state.outcomes.map fun outcome => (outcome.stage, outcome.ok) := by
    rw [houtcomes]
    decide
  obtain ⟨outcome, hmem, heq⟩ := List.mem_map.1 hmem
  obtain ⟨hstage, hok⟩ := Prod.mk.inj heq
  exact ⟨ending, state, rfl, houtcomes, stages_faithful hdisk hrun hmem hstage hok⟩

end Pipeline

end ElmSuite
