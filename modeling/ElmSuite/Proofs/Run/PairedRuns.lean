import ElmSuite.Proofs.Run.AlikeRuns
import ElmSuite.Proofs.Run.PairedStages

/-!
Two runs of the same project, one of them with leftovers.  Stage by stage they have the same result, and
hand on worlds from which the rest of the run goes alike; so the whole runs do.
-/

namespace ElmSuite.Pipeline

open Act

/-- The names of the generated manifest, seen from its project. -/
def manifestPlace (folder : List String) : List String :=
  folder ++ ["elm-stuff", "tests-0.19.1"] ++ ["elm.json"]

/-- What the stages that have passed hand on: the disks are untouched until the manifest is
synthesized, after that the manifest stands on both; the files that are found are those of the host; and
the next compilation is the one that checks the tests, unless that has been made. -/
structure Ready (clean worn : Disk) (folder : List String) (first : Nat) (coming : List Stage)
    (found : Findings) (bare full : World) : Prop where
  paired : Paired clean worn folder bare full
  untouched : .synthesize ∈ coming → bare.disk = clean ∧ full.disk = worn
  files : .discover ∉ coming → HostFiles clean folder found.files
  manifest : .synthesize ∉ coming → HasNode (manifestPlace folder) bare
  checks : .compileTests ∈ coming → bare.compilerCalls = first
  scripts : .compileTests ∉ coming → first < bare.compilerCalls

/-- What two projects have to have in common for their runs to go alike. -/
structure SameHost (clean worn : Disk) (folder : List String) : Prop where
  tests : Discovery.SameTests clean worn folder
  sources : SameSources clean worn folder

variable {context : RunContext} {options : RunOptions} {clean worn : Disk} {folder : List String}
  {first : Nat} {stage : Stage} {rest : List Stage} {found next : Findings} {bare full after : World}
  {detail : Option String}

/-! ### One stage -/

section Stages

variable (hhost : SameHost clean worn folder) (hsteady : context.tools.Steady first)
  (htargets : options.files = [])
include hhost hsteady htargets

/-- Every stage goes alike in worlds that are ready for it. -/
theorem alike_perform (hsuffix : stage :: rest <:+ Stage.all) :
    (perform context options ⟨.ofLocation folder, defaultElmVersion⟩ found stage).Alike
      (Paired clean worn folder) (Ready clean worn folder first (stage :: rest) found)
      (Paired clean worn folder) := by
  have hplain := hhost.tests.plain
  have hsay {P : World → Prop} (hlines : ∀ world lines, P world → P { world with lines }) (line : Line) :
      (say line).Alike (Paired clean worn folder) (PairedWith clean worn folder P)
        (PairedWith clean worn folder P) := alike_say hlines line
  have htext {more : List String} {last : String} (hmore : more ∈ storeFolders) (hlast : last ∈ storeNames)
      (asset : Asset) (values : OrderedMap String (List Char)) :
      (Generation.fromAsset asset (.ofLocation (folder ++ more ++ [last])) values).Alike
        (Paired clean worn folder) (Paired clean worn folder) (Paired clean worn folder) :=
    (alike_writeRendered (P := fun _ => True) hplain hmore hlast _ _ _).mono (fun _ _ h => ⟨h, trivial⟩)
      PairedWith.paired
  have hcompile {name : String} (hname : name ∈ storeNames) (sources : List String) :
      (compile context options ⟨.ofLocation folder, defaultElmVersion⟩
          (.ofLocation (folder ++ ["elm-stuff", "tests-0.19.1", "js"] ++ [name])) sources).Alike
        (Paired clean worn folder) (PairedWith clean worn folder fun world => first < world.compilerCalls)
        (PairedWith clean worn folder
          (HasNode (folder ++ ["elm-stuff", "tests-0.19.1", "js"] ++ [name]))) :=
    alike_compileScript hplain hsteady (by decide) hname sources
  rw [Stage.eq_tail_of_suffix hsuffix]
  cases stage with
  | validateOptions =>
      exact Alike.map (.mono (.result (fun _ _ h => h) _) (fun _ _ h => h.paired) fun _ _ h => h) _
  | discover =>
      rw [perform, htargets]
      refine Alike.map (Alike.mono (hhost.tests.alike_collect fun bare full line h => ?_)
        (fun _ _ h => ⟨h.paired, h.untouched (by decide)⟩) fun _ _ h => h.1) _
      have hadd := h.add [line] []
      rwa [List.append_nil, List.append_nil] at hadd
  | synthesize =>
      refine Alike.map ((alike_synthesize hplain hhost.sources context).mono (fun _ _ h => ?_) fun _ _ h => h) _
      exact ⟨h.paired, h.untouched (by decide)⟩
  | solve =>
      rw [perform, solve, Layout.manifest_ofLocation]
      have hsolver : (Solver.solve context.tools.solver Solver.defaultExecutable Solver.extraPackages
          (Path.ofLocation (manifestPlace folder)).toString).Alike (Paired clean worn folder)
          (PairedWith clean worn folder (HasNode (manifestPlace folder))) (Paired clean worn folder) := by
        rw [manifestPlace, List.append_assoc]
        exact alike_solver hplain hsteady.toQuiet (by decide) (by decide) _ _
      refine Alike.map (Alike.mono (.bind (hsay (fun _ _ h => h) _) fun _ => .bind hsolver fun solved =>
        .bind ((alike_writeManifest (P := fun _ => True) hplain (by decide) (by decide) _).mono
          (fun _ _ h => ⟨h, trivial⟩) PairedWith.paired) fun _ => .pure (fun _ _ h => h) _)
            (fun _ _ h => ⟨h.paired, h.manifest (by decide)⟩) fun _ _ h => h) _
  | compileTests =>
      refine Alike.map (Alike.mono (.bind (hsay (P := fun world => world.compilerCalls = first)
        (fun _ _ h => h) _) fun _ => alike_compileCheck hsteady _ _)
          (fun _ _ h => ⟨h.paired, h.checks (by decide)⟩) fun _ _ h => h) _
  | findTests =>
      intro bare full h
      exact Alike.map ((alike_findTests hplain (h.files (by decide)) _).mono (fun _ _ h => ⟨h, trivial⟩)
        PairedWith.paired) _ bare full h.paired
  | generateRunner =>
      rw [perform, Generation.runner, Layout.runnerSource_ofLocation]
      exact Alike.map ((htext (by decide) (by decide) _ _).mono (fun _ _ h => h.paired) fun _ _ h => h) _
  | compileRunner =>
      rw [perform, compileRunner, Layout.runnerScript, Layout.script_ofLocation]
      refine Alike.map (Alike.mono (.bind (hsay (P := fun world => first < world.compilerCalls)
        (fun _ _ h => h) _) fun _ => .bind (hcompile (by decide) _) fun _ =>
          alike_patchFile hplain (by decide) (by decide) _)
            (fun _ _ h => ⟨h.paired, h.scripts (by decide)⟩) PairedWith.paired) _
  | generateNodeRunner =>
      rw [perform, Generation.nodeRunner, Layout.nodeRunner, Layout.script_ofLocation]
      exact Alike.map ((htext (by decide) (by decide) _ _).mono (fun _ _ h => h.paired) fun _ _ h => h) _
  | compileReporter =>
      rw [perform, compileReporter, Layout.reporterScript, Layout.script_ofLocation]
      refine Alike.map (Alike.mono (.bind (hsay (P := fun world => first < world.compilerCalls)
        (fun _ _ h => h) _) fun _ => .bind (hcompile (by decide) _) fun _ => .pure PairedWith.paired _)
            (fun _ _ h => ⟨h.paired, h.scripts (by decide)⟩) PairedWith.paired) _
  | generateSupervisor =>
      rw [perform, Generation.nodeSupervisor, Layout.nodeSupervisor, Layout.script_ofLocation]
      exact Alike.map ((htext (by decide) (by decide) _ _).mono (fun _ _ h => h.paired) fun _ _ h => h) _
  | supervise =>
      have hnothing {line : Line} := hsay (P := fun _ => True) (fun _ _ _ => trivial) line
      refine Alike.map (Alike.mono (.bind hnothing fun _ => .bind hnothing fun _ =>
        .bind (alike_node hsteady.toQuiet _ _ _) fun _ => .bind hnothing fun _ => .pure PairedWith.paired _)
          (fun _ _ h => ⟨h.paired, trivial⟩) PairedWith.paired) _

end Stages

/-! ### What a stage hands on -/

/-- The number of compilations that a stage asks for. -/
def compilations : Stage → Nat
  | .compileTests => 1
  | .compileRunner => 1
  | .compileReporter => 1
  | _ => 0

theorem compilerCalls_perform {layout : Layout} (stage : Stage) (found : Findings) (world : World) :
    ((perform context options layout found stage).run world).2.compilerCalls =
      world.compilerCalls + compilations stage := by
  rw [World.compilerCalls, calls_perform context options layout ⟨stage, found, world⟩, List.filter_append,
    List.length_append, World.compilerCalls]
  cases stage <;> rfl

/-- Without targets, what is found are files of the host. -/
theorem hostFiles_of_collect {files : List Path} {world later : World}
    (h : Discovery.PlainProject world.disk folder)
    (hself : Discovery.MatchesItself world.disk (Path.ofLocation folder).toString)
    (hrun : (Discovery.collect [] (Path.ofLocation folder).toString).run world = (.ok files, later)) :
    HostFiles world.disk folder files := by
  obtain ⟨found, hfound, -, hmem⟩ := Discovery.exists_discover h hself
  obtain ⟨-, between, hcandidates⟩ := Discovery.candidates_of_collect hrun
  obtain ⟨after, hyields, -⟩ := hfound world rfl
  have hsame : (Discovery.discover (Discovery.defaultPatterns (Path.ofLocation folder).toString)).run world =
      (.ok files, between) := hcandidates
  obtain rfl : found = files := by
    rw [hyields] at hsame
    exact Except.ok.inj (Prod.mk.inj hsame).1
  intro file hfile
  obtain ⟨more, name, bytes, rfl, hnode, -, -, -⟩ := (hmem file).1 hfile
  have hproper := h.properNames.of_nodeAt? hnode
  simp only [List.append_assoc] at hnode hproper ⊢
  exact ⟨_, _, rfl, by simp, fun part hpart => hproper part (List.mem_append_right _ hpart), hnode⟩

/-- A manifest that is synthesized stands where it is written. -/
theorem hasNode_of_synthesize (hplain : Discovery.PlainProject clean folder)
    (hgrown : clean.Grows (fun _ => False) after.disk) {world : World}
    (h : (perform context options ⟨.ofLocation folder, defaultElmVersion⟩ found .synthesize).run world =
      (.ok (next, detail), after)) : HasNode (manifestPlace folder) after := by
  obtain ⟨host, made, value, -, -, hwrite⟩ := exists_draft_of_synthesize (synthesis_of_synthesize h).1
  obtain ⟨text, between, -, -, hwritten⟩ := ManifestFile.exists_write_of_write hwrite
  obtain ⟨location, node, hfind⟩ := exists_find_of_writeBytes hwritten
  rw [Layout.manifest_ofLocation, List.append_assoc] at hfind
  have hproper := properNames_append hplain
    (show ∀ name ∈ ["elm-stuff", "tests-0.19.1"] ++ ["elm.json"], ProperName name by decide)
  obtain ⟨entries, hfolder⟩ := hplain.root
  obtain ⟨inner, hinner⟩ := hgrown.toRetains.folder hfolder
  have hlink : after.disk.NoLinkOn (folder ++ (["elm-stuff", "tests-0.19.1"] ++ ["elm.json"])) :=
    Disk.noLinkOn_append hinner fun below target hnode =>
      hplain.noLink below target (hgrown.links _ target hnode)
  obtain ⟨-, -, hnode⟩ := Disk.nodeAt?_of_find (Path.spells_ofLocation hproper) hproper hlink hfind
  rw [manifestPlace, List.append_assoc]
  exact ⟨node, hnode⟩

section Stages

variable (hhost : SameHost clean worn folder) (hsteady : context.tools.Steady first)
  (htargets : options.files = [])
include hhost hsteady htargets

/-- A stage has the same result in worlds that are ready for it, and leaves worlds that are ready for
the next one. -/
theorem Ready.perform (hsuffix : stage :: rest <:+ Stage.all)
    (h : Ready clean worn folder first (stage :: rest) found bare full) :
    ∃ result bare' full',
      (Pipeline.perform context options ⟨.ofLocation folder, defaultElmVersion⟩ found stage).run bare = (result, bare') ∧
      (Pipeline.perform context options ⟨.ofLocation folder, defaultElmVersion⟩ found stage).run full = (result, full') ∧
      Paired clean worn folder bare' full' ∧ ∀ next detail, result = .ok (next, detail) →
        Ready clean worn folder first rest next bare' full' := by
  obtain ⟨result, bare', full', hbare, hfull, hpaired, -⟩ :=
    alike_perform hhost hsteady htargets hsuffix bare full h
  refine ⟨result, bare', full', hbare, hfull, hpaired, ?_⟩
  rintro next detail rfl
  have hrest := Stage.eq_tail_of_suffix hsuffix
  have hcount := @compilerCalls_perform context options ⟨.ofLocation folder, defaultElmVersion⟩ stage found bare
  rw [hbare] at hcount
  exact
    { paired := hpaired
      untouched := fun hmem => by
        have hearly : stage ∈ [Stage.validateOptions, .discover] := by
          rw [hrest] at hmem
          clear * - hmem
          cases stage <;> revert hmem <;> decide
        obtain ⟨hclean, hworn⟩ := h.untouched (List.mem_cons_of_mem stage hmem)
        exact ⟨((sameDisk_perform hearly found).of_run hbare).trans hclean,
          ((sameDisk_perform hearly found).of_run hfull).trans hworn⟩
      files := fun hmem => by
        by_cases hstage : stage = .discover
        · subst hstage
          obtain ⟨hclean, -⟩ := h.untouched (by rw [hrest]; decide)
          have hcollect := files_of_discover hbare
          rw [htargets] at hcollect
          rw [← hclean]
          exact hostFiles_of_collect (hclean ▸ hhost.tests.plain) (hclean ▸ hhost.tests.matches_) hcollect
        · rw [files_of_perform hstage hbare]
          exact h.files (List.not_mem_cons_of_ne_of_not_mem (Ne.symm hstage) hmem)
      manifest := fun hmem => by
        by_cases hstage : stage = .synthesize
        · subst hstage
          exact hasNode_of_synthesize hhost.tests.plain hpaired.grown hbare
        · obtain ⟨node, hnode⟩ := h.manifest (List.not_mem_cons_of_ne_of_not_mem (Ne.symm hstage) hmem)
          have hgrows : bare.disk.Grows (fun _ => False) bare'.disk :=
            (keeps_perform permissive_enlarges (fun world _ => .refl _ world.disk) hsteady.toQuiet options found
              (fun _ _ => trivial) fun _ _ => ⟨trivial, trivial⟩).of_run hbare
          obtain ⟨later, hlater, -⟩ := hgrows.kept _ _ hnode
          exact ⟨later, hlater⟩
      checks := fun hmem => by
        have hnone : compilations stage = 0 := by
          rw [hrest] at hmem
          clear * - hmem
          cases stage <;> revert hmem <;> decide
        rw [hcount, hnone, h.checks (List.mem_cons_of_mem stage hmem), Nat.add_zero]
      scripts := fun hmem => by
        rw [hcount]
        by_cases hstage : stage = .compileTests
        · subst hstage
          rw [h.checks List.mem_cons_self]
          exact Nat.lt_succ_self first
        · have hmore := h.scripts (List.not_mem_cons_of_ne_of_not_mem (Ne.symm hstage) hmem)
          omega }

theorem prepares_ready : Prepares context options ⟨.ofLocation folder, defaultElmVersion⟩
    (Paired clean worn folder) fun all found bare full =>
      all <:+ Stage.all ∧ Ready clean worn folder first all found bare full where
  say h line := by
    have hsaid := h.add [line] []
    rwa [List.append_nil, List.append_nil] at hsaid
  related h := h.2.paired
  stage h := by
    obtain ⟨hsuffix, hready⟩ := h
    obtain ⟨result, bare', full', hbare, hfull, hpaired, hnext⟩ :=
      hready.perform hhost hsteady htargets hsuffix
    exact ⟨result, bare', full', hbare, hfull, hpaired, fun next detail hresult =>
      ⟨(List.suffix_cons _ _).trans hsuffix, hnext next detail hresult⟩⟩

/-- Runs at the root of a project that start ready end alike. -/
theorem Ready.runAt (h : Ready clean worn folder first Stage.all {} bare full) :
    ∃ result bare' full',
      (Pipeline.runAt context options (.ofLocation folder)).run bare = (result, bare') ∧
      (Pipeline.runAt context options (.ofLocation folder)).run full = (result, full') ∧
      Paired clean worn folder bare' full' :=
  (prepares_ready hhost hsteady htargets).runAt ⟨List.suffix_rfl, h⟩

end Stages

end ElmSuite.Pipeline
