import ElmSuite.Proofs.Run.Conduct
import ElmSuite.Proofs.Run.GeneratedRunner
import ElmSuite.Proofs.Run.UncaughtFaults

/-!
Whether a run reports what goes wrong.  It returns with the failure of the stage in which something
went wrong, unless a fault leaves it: from the search for test files, from the synthesis of the
manifest, or from the patch of a compiled runner that is no text.
-/

namespace ElmSuite

open Act

namespace Layout

theorem noNull_root {root : Path} (h : root.NoNull) : (Layout.mk root defaultElmVersion).root.NoNull :=
  (h.child (by decide)).join
    (Path.noNull_ofString (show '\x00' ∉ ("tests-" ++ defaultElmVersion).toList by decide))

variable {layout : Layout} (hroot : layout.root.NoNull)
include hroot

theorem noNull_manifest : layout.manifest.NoNull :=
  hroot.child (by decide)

theorem noNull_runnerSource : layout.runnerSource.NoNull :=
  (hroot.child (by decide)).child (by decide)

theorem noNull_script {name : String} (hname : '\x00' ∉ name.toList) :
    (layout.scripts.child name).NoNull :=
  (hroot.child (by decide)).child hname

end Layout

/-- The stages behind a stage are determined by it. -/
theorem Stage.eq_tail_of_suffix {stage : Stage} {rest : List Stage} (h : stage :: rest <:+ all) :
    rest = (all.dropWhile (· ≠ stage)).tail := by
  obtain ⟨front, hfront⟩ := h
  have hnodup := hfront ▸ all_nodup
  have hbefore : ∀ earlier ∈ front, decide (earlier ≠ stage) = true := fun earlier hearlier =>
    decide_eq_true fun heq =>
      (List.disjoint_of_nodup_append hnodup) hearlier (heq ▸ List.mem_cons_self)
  rw [← hfront, List.dropWhile_append_of_pos hbefore, List.dropWhile_cons_of_neg (by simp),
    List.tail_cons]

namespace Pipeline

variable {context : RunContext} {options : RunOptions} {layout : Layout}

/-- What the stages that have passed hand on: until the manifest is synthesized the disk is as it was,
the files that are found have paths without U+0000, and the draft of the manifest is written. -/
structure Prepared (start : Disk) (coming : List Stage) (found : Findings) (world : World) : Prop where
  untouched : .synthesize ∈ coming → world.disk = start
  files : .discover ∉ coming → ∀ file ∈ found.files, file.NoNull
  draft : .synthesize ∉ coming → found.synthesis.app.testDependencies = .empty ∧
    ∃ text, found.synthesis.app.print = .ok text

section Perform

variable {stage : Stage} {rest : List Stage} {found next : Findings} {world after : World}
  {detail : Option String} {start : Disk}

theorem files_of_perform (hstage : stage ≠ .discover)
    (h : (perform context options layout found stage).run world = (.ok (next, detail), after)) :
    next.files = found.files := by
  cases stage <;> first
    | exact absurd rfl hstage
    | (obtain ⟨_, -, heq⟩ := run_map_eq_ok.1 h
       cases heq
       rfl)

theorem synthesis_of_perform (hstage : stage ≠ .synthesize)
    (h : (perform context options layout found stage).run world = (.ok (next, detail), after)) :
    next.synthesis = found.synthesis := by
  cases stage <;> first
    | exact absurd rfl hstage
    | (obtain ⟨_, -, heq⟩ := run_map_eq_ok.1 h
       cases heq
       rfl)

theorem Prepared.perform (hsuffix : stage :: rest <:+ Stage.all)
    (h : Prepared start (stage :: rest) found world)
    (hrun : (perform context options layout found stage).run world = (.ok (next, detail), after)) :
    Prepared start rest next after where
  untouched hmem := by
    have hearly : stage ∈ [Stage.validateOptions, .discover] := by
      rw [Stage.eq_tail_of_suffix hsuffix] at hmem
      clear * - hmem
      cases stage <;> revert hmem <;> decide
    have hsame := (sameDisk_perform hearly found).of_run hrun
    exact hsame.trans (h.untouched (List.mem_cons_of_mem stage hmem))
  files hmem := by
    by_cases hstage : stage = .discover
    · subst hstage
      obtain ⟨files, hcollect, heq⟩ := run_map_eq_ok.1 hrun
      cases heq
      exact Discovery.noNull_of_collect hcollect
    · rw [files_of_perform hstage hrun]
      exact h.files (List.not_mem_cons_of_ne_of_not_mem (Ne.symm hstage) hmem)
  draft hmem := by
    by_cases hstage : stage = .synthesize
    · subst hstage
      obtain ⟨host, made, value, hdrafted, -, hwrite⟩ :=
        exists_draft_of_synthesize (synthesis_of_synthesize hrun).1
      obtain ⟨text, -, hprint, -, -⟩ := ManifestFile.exists_write_of_write hwrite
      exact ⟨hdrafted.testDependencies, text, hprint⟩
    · rw [synthesis_of_perform hstage hrun]
      exact h.draft (List.not_mem_cons_of_ne_of_not_mem (Ne.symm hstage) hmem)

end Perform

/-- Every stage of a run starts with what it needs. -/
theorem prepared_of_mem_visits {start : World} {visit : Visit}
    (h : visit ∈ visits context options layout Stage.all {} start) :
    ∃ rest, visit.stage :: rest <:+ Stage.all ∧
      Prepared start.disk (visit.stage :: rest) visit.found visit.world :=
  forall_visits (P := Prepared start.disk)
    (fun _ _ _ _ _ _ _ hsuffix hprepared hrun => hprepared.perform hsuffix hrun)
    ⟨fun _ => rfl, fun hmem => absurd (by decide) hmem, fun hmem => absurd (by decide) hmem⟩ visit h

section Stages

variable {stage : Stage} {rest : List Stage} {found : Findings} {world after : World} {start : Disk}
  {fault : Fault} (hroot : layout.root.NoNull)
include hroot

theorem reports_compile {output : Path} (houtput : output.NoNull) (sources : List String) :
    (compile context options layout output sources).Reports :=
  Compiler.reports_compile _ _ (Path.noNull_iff.1 hroot) (Path.noNull_iff.1 houtput) sources

/-- What the solver answers can be written if the draft could. -/
theorem reports_solve {app : Application} {text : List Char} (hprint : app.print = .ok text)
    (htest : app.testDependencies = .empty) : (solve context layout app).Reports := by
  refine (reports_say _).bind fun _ => ?_
  refine (Solver.reports_solve _ _ _ _).bind_of_run fun found world after hsolve => ?_
  rw [Solver.run_solve] at hsolve
  obtain ⟨-, answer, -, hfound⟩ := Solver.answered_of_respond hsolve
  have hwhole := Application.isWhole_withDependencies hprint htest hfound
  have hwrite := ManifestFile.reports_write (Layout.noNull_manifest hroot)
    (Application.print_of_isWhole hwhole)
  exact hwrite.bind fun _ => reports_pure _

/-- All stages but three report whatever goes wrong. -/
theorem reports_perform (hsuffix : stage :: rest <:+ Stage.all)
    (hprepared : Prepared start (stage :: rest) found world)
    (hstage : stage ∉ [Stage.discover, .synthesize, .compileRunner]) :
    (perform context options layout found stage).Reports := by
  have hscript (name : String) (hname : '\x00' ∉ name.toList) : (layout.scripts.child name).NoNull :=
    Layout.noNull_script hroot hname
  rw [Stage.eq_tail_of_suffix hsuffix] at hprepared
  cases stage with
  | discover => exact absurd (by decide) hstage
  | synthesize => exact absurd (by decide) hstage
  | compileRunner => exact absurd (by decide) hstage
  | validateOptions => exact (reports_ofFailure _).map _
  | solve =>
      obtain ⟨htest, text, hprint⟩ := hprepared.draft (by decide)
      exact (reports_solve hroot hprint htest).map _
  | compileTests =>
      have hoffered := Path.noNull_ofString (show '\x00' ∉ "/dev/null".toList by decide)
      exact ((reports_say _).bind fun _ => reports_compile hroot hoffered _).map _
  | findTests =>
      have hfiles := hprepared.files (by decide)
      exact ((reports_say _).bind fun _ => Discovery.reports_findModules _ hfiles).map _
  | generateRunner =>
      exact (Generation.reports_writeRendered _ _ _ (Layout.noNull_runnerSource hroot)).map _
  | generateNodeRunner =>
      exact (Generation.reports_writeRendered _ _ _ (hscript _ (by decide))).map _
  | generateSupervisor =>
      exact (Generation.reports_writeRendered _ _ _ (hscript _ (by decide))).map _
  | compileReporter =>
      refine Reports.map ((reports_say _).bind fun _ => Reports.bind ?_ fun _ => reports_pure _) _
      exact reports_compile hroot (hscript _ (by decide)) _
  | supervise =>
      have hanswer := NodeProcess.reports_supervise context.tools.node NodeProcess.defaultExecutable
      exact ((reports_say _).bind fun _ => (reports_say _).bind fun _ => (hanswer _ _).bind fun _ =>
        (reports_say _).bind fun _ => reports_pure _).map _

end Stages

/-! ### What a run lets through -/

section Run

variable {root canonical : Path} {start : World}

/-- A run at a root that can be located goes some course and ends as that does. -/
theorem exists_course_of_run (hroot : start.disk.locateLeniently root = .ok canonical) :
    ∃ ending final outcomes,
      Course context options ⟨canonical, defaultElmVersion⟩ Stage.all {} start ending final outcomes ∧
      (run context options root).run start =
        conclude (ending.map Findings.code, ⟨final, outcomes⟩) := by
  rcases hperform : (performAll context options ⟨canonical, defaultElmVersion⟩ Stage.all {}).run
    ⟨start, []⟩ with ⟨ending, final, outcomes⟩
  obtain ⟨_, rfl, hcourse⟩ := course_of_performAll hperform
  refine ⟨ending, final, _, hcourse, ?_⟩
  have hlocate : (Act.locateLeniently root).run start = (.ok canonical, start) :=
    run_look_eq_ok.2 ⟨hroot, rfl⟩
  rw [run, run_bind, hlocate]
  change conclude ((stages context options ⟨canonical, defaultElmVersion⟩).run ⟨start, []⟩) = _
  rw [stages_eq, run_map_running, hperform]

end Run

end Pipeline

end ElmSuite
