import ElmSuite.Proofs.Run.RespelledTargets
import ElmSuite.Proofs.Run.UnreadLines
import ElmSuite.Proofs.Suite.SortedPaths

/-!
The order of targets.  A run sorts the files that it has found whenever their order could show, so runs
whose targets list the same go alike: they have the same result, ask the same of their tools and leave the
same disk.
-/

namespace ElmSuite

open Act

namespace Pipeline

variable {context : RunContext} {options : RunOptions} {layout : Layout} {others : List String}
  {found other : Findings} {first second : World}

/-- Findings that differ at most in the order of the files. -/
structure Findings.SameButOrder (found other : Findings) : Prop where
  sorted : sortPaths found.files = sortPaths other.files
  rest : other = { found with files := other.files }

/-- What two stages give: the same, except for lines and the order of the files. -/
inductive SameStep :
    Except Trouble (Findings × Option String) × World →
      Except Trouble (Findings × Option String) × World → Prop
  | failed {trouble : Trouble} {first second : World} (hworlds : first.SameButLines second) :
      SameStep (.error trouble, first) (.error trouble, second)
  | passed {next other : Findings} {detail : Option String} {first second : World}
      (hfound : next.SameButOrder other) (hworlds : first.SameButLines second) :
      SameStep (.ok (next, detail), first) (.ok (other, detail), second)

/-- How two runs of stages end: alike, except for lines and the order of the files. -/
structure SameRun (first second : Except Interruption Findings × RunState) : Prop where
  code : first.1.map Findings.code = second.1.map Findings.code
  outcomes : first.2.outcomes = second.2.outcomes
  worlds : first.2.world.SameButLines second.2.world

/-- A stage after the discovery hands on the files as they are and does not see their order. -/
theorem perform_reordered {stage : Stage} (hstage : stage ≠ .discover) (h : found.SameButOrder other) :
    perform context { options with files := others } layout other stage =
      (fun passed => ({ passed.1 with files := other.files }, passed.2)) <$>
        perform context options layout found stage := by
  obtain ⟨hsorted, hrest⟩ := h
  generalize other.files = files at hsorted hrest ⊢
  subst hrest
  cases stage with
  | discover => exact absurd rfl hstage
  | compileTests =>
      simp only [perform, compileTests, Functor.map_map, hsorted]
      rfl
  | findTests =>
      have hfind : findTests found.synthesis found.files = findTests found.synthesis files := by
        simp only [findTests, Discovery.findModules, ElmSuite.findTests, hsorted]
      simp only [perform, Functor.map_map, hfind]
  | _ => simp only [perform, compileRunner, compileReporter, compile, Functor.map_map]

theorem sameStep_perform {stage : Stage} (hstage : stage ≠ .discover) (hfound : found.SameButOrder other)
    (hworlds : first.SameButLines second) :
    SameStep ((perform context options layout found stage).run first)
      ((perform context { options with files := others } layout other stage).run second) := by
  obtain ⟨result, first', second', hfirst, hsecond, hafter, -⟩ :=
    ignoresLines_perform context options layout hstage found first second hworlds
  rw [perform_reordered hstage hfound, run_map, hfirst, hsecond]
  rcases result with trouble | ⟨next, detail⟩
  · exact .failed hafter
  · refine .passed ⟨?_, rfl⟩ hafter
    rw [files_of_perform hstage hfirst]
    exact hfound.sorted

/-- Runs that go alike at one stage and from there on go alike. -/
theorem sameRun_cons {stage : Stage} {rest : List Stage} (outcomes : List Outcome)
    (hstep : SameStep ((perform context options layout found stage).run first)
      ((perform context { options with files := others } layout other stage).run second))
    (hrest : ∀ next next' detail first' second' outcomes, next.SameButOrder next' →
      first'.SameButLines second' →
      (perform context options layout found stage).run first = (.ok (next, detail), first') →
        SameRun ((performAll context options layout rest next).run ⟨first', outcomes⟩)
          ((performAll context { options with files := others } layout rest next').run ⟨second', outcomes⟩)) :
    SameRun ((performAll context options layout (stage :: rest) found).run ⟨first, outcomes⟩)
      ((performAll context { options with files := others } layout (stage :: rest) other).run
        ⟨second, outcomes⟩) := by
  simp only [performAll, run_bind_running, performStage, run_map_running, run_stage]
  generalize (perform context options layout found stage).run first = ended at hstep hrest
  generalize (perform context { options with files := others } layout other stage).run second = ended' at hstep
  cases hstep with
  | @failed trouble first' second' hworlds =>
      rcases trouble with cause | fault
      · exact ⟨rfl, rfl, hworlds.disk, hworlds.calls⟩
      · cases fault <;> exact ⟨rfl, rfl, hworlds⟩
  | passed hfound hworlds => exact hrest _ _ _ _ _ _ hfound hworlds rfl

/-- The stages after the discovery go alike, in whatever order the files are found. -/
theorem sameRun_performAll {all : List Stage} (hall : .discover ∉ all) (hfound : found.SameButOrder other)
    (hworlds : first.SameButLines second) (outcomes : List Outcome) :
    SameRun ((performAll context options layout all found).run ⟨first, outcomes⟩)
      ((performAll context { options with files := others } layout all other).run ⟨second, outcomes⟩) := by
  induction all generalizing found other first second outcomes with
  | nil =>
      have hcode : found.code = other.code := by rw [hfound.rest]
      exact ⟨congrArg Except.ok hcode, rfl, hworlds⟩
  | cons stage rest ih =>
      rw [List.mem_cons, not_or] at hall
      exact sameRun_cons outcomes (sameStep_perform (Ne.symm hall.1) hfound hworlds)
        fun _ _ _ _ _ _ hnext hafter _ => ih hall.2 hnext hafter _

/-! ### The discovery -/

theorem isPart_of_collect {targets : List String} {root : String} {files : List Path} {world after : World}
    (hdisk : world.disk.WellFormed)
    (h : (Discovery.collect targets root).run world = (.ok files, after)) :
    ∀ file ∈ files, ∀ part ∈ file.parts, Path.IsPart part := by
  obtain ⟨-, between, hcandidates⟩ := Discovery.candidates_of_collect h
  intro file hfile part hpart
  obtain ⟨text, hlocate⟩ := (Discovery.isCanonical_of_candidates hcandidates file hfile).located
  obtain ⟨names, rfl, hnames⟩ := Disk.exists_location_of_locate hdisk hlocate
  exact Path.isPart_of_properName (hnames part hpart)

/-- A search only says something. -/
theorem sameButLines_of_collect {targets : List String} {root : String} {files : List Path}
    {world after : World} (h : (Discovery.collect targets root).run world = (.ok files, after)) :
    world.SameButLines after :=
  ⟨((Discovery.keeps_collect tolerant_sameDisk targets root).of_run h).symm,
    ((Discovery.keeps_collect permissive_sameCalls.toTolerant targets root).of_run h).symm⟩

/-- Targets that list the same are discovered alike. -/
theorem sameStep_discover {files files' : List Path} (hdisk : first.disk.WellFormed)
    (hfound : found.SameButOrder other) (hworlds : first.SameButLines second)
    (h : (Discovery.collect options.files layout.projectRoot.toString).Yields first.disk files)
    (h' : (Discovery.collect others layout.projectRoot.toString).Yields first.disk files')
    (hperm : files.Perm files') :
    SameStep ((perform context options layout found .discover).run first)
      ((perform context { options with files := others } layout other .discover).run second) := by
  obtain ⟨after, hrun, -⟩ := h first rfl
  obtain ⟨after', hrun', -⟩ := h' second hworlds.disk.symm
  have hworlds' : after.SameButLines after' :=
    (sameButLines_of_collect hrun).symm.trans (hworlds.trans (sameButLines_of_collect hrun'))
  have hsorted := sortPaths_eq_of_perm hperm (isPart_of_collect hdisk hrun)
  rw [perform, perform, run_map, run_map, hrun, hrun', hfound.rest]
  dsimp only [Except.map]
  rw [hperm.length_eq]
  exact .passed ⟨hsorted, rfl⟩ hworlds'

/-- Runs whose targets list the same go alike from the start. -/
theorem sameRun_of_rearranged {files : List Path} {asked : String} {start later : World}
    (hdisk : start.disk.WellFormed) (hne : options.files ≠ [])
    (hfiles : (Discovery.collect options.files asked).run start = (.ok files, later))
    (hothers : Discovery.Rearranged start.disk options.files others)
    (hspelled : ∀ target ∈ others, target ∉ options.files → Glob.isPattern target = false →
      ∃ path, start.disk.locate (.ofString target) = .ok path) :
    SameRun ((performAll context options layout Stage.all {}).run ⟨start, []⟩)
      ((performAll context { options with files := others } layout Stage.all {}).run ⟨start, []⟩) := by
  obtain ⟨kept, hkept, hpermKept⟩ := Discovery.exists_collect_of_rearranged hdisk hne hfiles
    (.of_mem_iff start.disk fun _ => .rfl) (fun _ hmem hnot => absurd hmem hnot) layout.projectRoot.toString
  obtain ⟨moved, hmoved, hpermMoved⟩ := Discovery.exists_collect_of_rearranged hdisk hne hfiles hothers hspelled
    layout.projectRoot.toString
  refine sameRun_cons [] (sameStep_perform (by decide) ⟨rfl, rfl⟩ (.refl start)) ?_
  intro next next' _ before second outcomes hnext hworlds hrun
  obtain ⟨reporter, hreporter, -⟩ := run_map_eq_ok.1 hrun
  obtain ⟨-, rfl⟩ := run_ofFailure_eq_ok.1 hreporter
  refine sameRun_cons outcomes (sameStep_discover hdisk hnext hworlds hkept hmoved
    (hpermKept.symm.trans hpermMoved)) ?_
  intro last last' _ _ _ outcomes hlast hafter _
  exact sameRun_performAll (by decide) hlast hafter outcomes

/-! ### Runs -/

theorem SameRun.conclude {first second : Except Interruption Findings × RunState} (h : SameRun first second) :
    ∃ result final final', conclude (first.map (Except.map Findings.code) id) = (result, final) ∧
      Pipeline.conclude (second.map (Except.map Findings.code) id) = (result, final') ∧
      final.SameButLines final' := by
  obtain ⟨ending, world, outcomes⟩ := first
  obtain ⟨ending', world', outcomes'⟩ := second
  obtain ⟨hcode, rfl, hworlds⟩ := h
  dsimp only [Prod.map] at hcode ⊢
  rw [← hcode]
  rcases ending.map Findings.code with (- | fault) | code <;> exact ⟨_, world, world', rfl, rfl, hworlds⟩

/-- A run depends on what its targets list and on nothing else about them: not on their order, nor on how
often they are repeated, nor on how a file is spelled, as long as the spelling can be made canonical.  And
the modules of tests, or what keeps one of them from being read or named, do not depend on the order of
the paths. -/
theorem run_regardless_of_order {given : Path} {asked : String} {files : List Path} {start later : World}
    (hdisk : start.disk.WellFormed)
    (hfiles : (Discovery.collect options.files asked).run start = (.ok files, later))
    (hothers : Discovery.Rearranged start.disk options.files others)
    (hspelled : ∀ target ∈ others, target ∉ options.files → Glob.isPattern target = false →
      ∃ path, start.disk.locate (.ofString target) = .ok path) :
    (∃ result final final', (run context options given).run start = (result, final) ∧
      (run context { options with files := others } given).run start = (result, final') ∧
      final.disk = final'.disk ∧ final.calls = final'.calls) ∧
    ∀ texts texts' : List String, texts.Perm texts' → ∀ roots read,
      ElmSuite.findTests roots read (texts.map Path.ofString) =
        ElmSuite.findTests roots read (texts'.map Path.ofString) := by
  refine ⟨?_, fun texts texts' hperm => findTests_eq_of_perm hperm⟩
  by_cases hnone : options.files = []
  · have hnone' : others = [] := Decidable.by_contra fun hne => hothers.symm.ne_nil hne hnone
    have hsame : { options with files := others } = options := by
      rw [hnone', ← hnone]
    rw [hsame]
    exact ⟨_, _, _, rfl, rfl, rfl, rfl⟩
  cases hlocate : start.disk.locateLeniently given with
  | error fault =>
      have hlost : (Act.locateLeniently given).run start = (.error (.fault fault), start) := by
        rw [Act.locateLeniently, run_look, hlocate]
        rfl
      rw [run, run, run_bind, run_bind, hlost]
      exact ⟨_, _, _, rfl, rfl, rfl, rfl⟩
  | ok root =>
      have hruns : SameRun
          ((performAll context options ⟨root, defaultElmVersion⟩ Stage.all {}).run ⟨start, []⟩)
          ((performAll context { options with files := others } ⟨root, defaultElmVersion⟩ Stage.all {}).run
            ⟨start, []⟩) := sameRun_of_rearranged hdisk hnone hfiles hothers hspelled
      obtain ⟨result, final, final', hfinal, hfinal', hworlds⟩ := hruns.conclude
      have hlocated : (Act.locateLeniently given).run start = (.ok root, start) :=
        run_look_eq_ok.2 ⟨hlocate, rfl⟩
      rw [run, run, run_bind, run_bind, hlocated]
      dsimp only
      rw [run_runAt, run_runAt]
      exact ⟨result, final, final', hfinal, hfinal', hworlds.disk, hworlds.calls⟩

/-- The small project with a second test module, and a link to the folder of both. -/
def linkedProject : Disk :=
  let tests : Node := .folder
    [ ("B.elm", .file (Text.Utf8.encode "module B exposing (b)\nb =\n".toList))
    , ("A.elm", .file (Text.Utf8.encode "module A exposing (a)\na =\n".toList)) ]
  ⟨.folder [("p", .folder [("elm.json", .file (Text.Utf8.encode smallManifest)), ("tests", tests),
    ("again", .link "tests")])], []⟩

/-- A pattern and a file, and the same with a repetition and through the link. -/
theorem run_regardless_of_order_by_links :
    ∃ result final final',
      (run (smallContext 1) { files := ["/p/tests/B*.elm", "/p/tests/A.elm"] } (.ofString "/p")).run
          ⟨linkedProject, [], []⟩ = (.ok result, final) ∧
      (run (smallContext 1)
          { files := ["/p/tests/../again/A.elm", "/p/tests/B*.elm", "/p/again/A.elm", "/p/tests/B*.elm"] }
          (.ofString "/p")).run ⟨linkedProject, [], []⟩ = (.ok result, final') ∧
      result.outcomes.map Outcome.ok = [true, true, true, true, false] ∧
      final.disk = final'.disk ∧ final.calls = final'.calls ∧
      ElmSuite.findTests [.ofString "/p/tests"] (fun _ => .ok [])
          (["/p/tests/B.elm", "/p/tests/A.elm"].map Path.ofString) =
        ElmSuite.findTests [.ofString "/p/tests"] (fun _ => .ok [])
          (["/p/tests/A.elm", "/p/tests/B.elm"].map Path.ofString) := by
  have hoks : (((run (smallContext 1) { files := ["/p/tests/B*.elm", "/p/tests/A.elm"] } (.ofString "/p")).run
      ⟨linkedProject, [], []⟩).1.toOption.map fun result => result.outcomes.map Outcome.ok) =
        some [true, true, true, true, false] := by
    decide +kernel
  have hdisk : linkedProject.WellFormed := ⟨Disk.properNames_of_tree (by decide +kernel), ⟨_, rfl⟩⟩
  have hfiles : ((Discovery.collect ["/p/tests/B*.elm", "/p/tests/A.elm"] "/p").run
      ⟨linkedProject, [], []⟩).1.toOption =
        some [.ofLocation ["p", "tests", "B.elm"], .ofLocation ["p", "tests", "A.elm"]] := by
    decide +kernel
  obtain ⟨later, hfiles⟩ := Act.exists_run_of_toOption hfiles
  have hlocate :
      linkedProject.locate (.ofString "/p/again/A.elm") = .ok (.ofLocation ["p", "tests", "A.elm"]) ∧
      linkedProject.locate (.ofString "/p/tests/../again/A.elm") = .ok (.ofLocation ["p", "tests", "A.elm"]) ∧
      linkedProject.locate (.ofString "/p/tests/A.elm") = .ok (.ofLocation ["p", "tests", "A.elm"]) := by
    decide +kernel
  obtain ⟨hlink, hup, hplain⟩ := hlocate
  have hfound {text : String}
      (h : (linkedProject.find text).toOption.map Prod.fst = some ["p", "tests", "A.elm"]) :
      linkedProject.LeadsTo (.ofString text) ["p", "tests", "A.elm"] := by
    cases hfind : linkedProject.find text with
    | error fault =>
        rw [hfind] at h
        cases h
    | ok place =>
        rw [hfind] at h
        rw [← Option.some.inj h]
        exact Disk.leadsTo_of_find hfind
  have hsame : Discovery.SameFile linkedProject "/p/tests/A.elm" "/p/again/A.elm" :=
    .inr ⟨_, hfound (by decide +kernel), hfound (by decide +kernel)⟩
  have hothers : Discovery.Rearranged linkedProject ["/p/tests/B*.elm", "/p/tests/A.elm"]
      ["/p/tests/../again/A.elm", "/p/tests/B*.elm", "/p/again/A.elm", "/p/tests/B*.elm"] := by
    refine ⟨fun pattern hpattern => ?_, ?_, ?_⟩
    · simp only [List.mem_cons, List.not_mem_nil, or_false]
      constructor
      · rintro (rfl | rfl)
        · exact .inr (.inl rfl)
        · exact absurd hpattern (by decide)
      · rintro (rfl | rfl | rfl | rfl)
        · exact absurd hpattern (by decide)
        · exact .inl rfl
        · exact absurd hpattern (by decide)
        · exact .inl rfl
    · simp only [List.forall_mem_cons, List.not_mem_nil, false_implies, implies_true, and_true]
      exact ⟨fun hpattern => absurd hpattern (by decide),
        fun _ => ⟨"/p/again/A.elm", by decide, by decide, hsame⟩⟩
    · simp only [List.forall_mem_cons, List.not_mem_nil, false_implies, implies_true, and_true]
      have hpattern : Glob.isPattern "/p/tests/B*.elm" ≠ false := by decide
      exact ⟨fun _ => ⟨"/p/tests/A.elm", by decide, by decide, .inl (hplain.trans hup.symm)⟩,
        fun h => absurd h hpattern, fun _ => ⟨"/p/tests/A.elm", by decide, by decide, hsame⟩,
        fun h => absurd h hpattern⟩
  have hspelled : ∀ target ∈
      ["/p/tests/../again/A.elm", "/p/tests/B*.elm", "/p/again/A.elm", "/p/tests/B*.elm"], target ∉ ["/p/tests/B*.elm", "/p/tests/A.elm"] → Glob.isPattern target = false →
        ∃ path, linkedProject.locate (.ofString target) = .ok path := by
    simp only [List.forall_mem_cons, List.not_mem_nil, false_implies, implies_true, and_true]
    have hlisted : ¬ "/p/tests/B*.elm" ∉ ["/p/tests/B*.elm", "/p/tests/A.elm"] := by decide
    exact ⟨fun _ _ => ⟨_, hup⟩, fun h => absurd h hlisted, fun _ _ => ⟨_, hlink⟩, fun h => absurd h hlisted⟩
  obtain ⟨⟨result, final, final', hfinal, hfinal', hafter⟩, hmodules⟩ :=
    @run_regardless_of_order (smallContext 1) { files := ["/p/tests/B*.elm", "/p/tests/A.elm"] } _
      (.ofString "/p") "/p" _ ⟨linkedProject, [], []⟩ later hdisk hfiles hothers hspelled
  rw [hfinal] at hoks
  rcases result with trouble | result
  · cases hoks
  · exact ⟨result, final, final', hfinal, hfinal', Option.some.inj hoks, hafter.1, hafter.2,
      hmodules _ _ (by decide) _ _⟩

end Pipeline

end ElmSuite
