import ElmSuite.Proofs.Disk.Canonical
import ElmSuite.Proofs.Run.DraftedManifest
import ElmSuite.Proofs.Run.GeneratedRunner

/-!
The manifest of the generated project throughout a run.  From the stage that synthesizes it on, the
file holds the draft, which is what the solver sees, and after the stage that solves the dependencies
it holds the draft with the dependencies that the solver answered, however the run goes on.
-/

namespace ElmSuite

open Act

theorem Act.holds_run_bind {α β : Type} {P : World → Prop} {act : Act α} {next : α → Act β}
    {world : World} (hact : P (act.run world).2)
    (hnext : ∀ value after, P after → P ((next value).run after).2) :
    P ((act >>= next).run world).2 := by
  rw [run_bind]
  rcases hrun : act.run world with ⟨trouble | value, after⟩
  · rw [hrun] at hact
    exact hact
  · rw [hrun] at hact
    exact hnext value after hact

theorem Act.world_run_bind {α β : Type} {act : Act α} {next : α → Act β}
    (h : ∀ value world, ((next value).run world).2 = world) (world : World) :
    ((act >>= next).run world).2 = (act.run world).2 :=
  holds_run_bind (P := fun after => after = (act.run world).2) rfl fun value after hafter =>
    (h value after).trans hafter

theorem Act.world_run_orElse {α : Type} (act : Act α) (known : Fault → Option Trouble) (world : World) :
    ((act.orElse known).run world).2 = (act.run world).2 := by
  rw [run_orElse]
  rcases act.run world with ⟨trouble | value, after⟩
  · cases trouble <;> rfl
  · rfl

namespace Pipeline

variable {context : RunContext} {options : RunOptions} {layout : Layout}

/-- A compilation leaves the disk as it is, except that something may be put at its output. -/
theorem disk_compile (hconfined : context.tools.Confined) (output : Path) (sources : List String)
    (world : World) :
    ((compile context options layout output sources).run world).2.disk = world.disk ∨
      ∃ content asked, asked.disk = world.disk ∧
        ((compile context options layout output sources).run world).2.disk =
          ((place (layout.told output) content).run asked).2.disk := by
  have hexit (reply : CompilerReply) (world : World) :
      ((Compiler.exit reply sources).run world).2 = world := by
    unfold Compiler.exit
    split <;> rfl
  rw [compile, Compiler.run_compile, Compiler.respond]
  split
  · exact .inl rfl
  · rw [run_bind, run_affect, hconfined.compiler]
    dsimp only [id_eq]
    rw [world_run_bind fun _ => hexit _, Compiler.leave]
    split
    · next content _ =>
      rw [onBehalf, world_run_orElse]
      refine .inr ⟨content, _, ?_, rfl⟩
      rfl
    · exact .inl rfl

/-! ### What the stages leave of the manifest -/

/-- The scripts at which a link may stand when some stages are still to come: those that have been
compiled. -/
def linkedScripts (coming : List Stage) : List String :=
  (if .compileReporter ∈ coming then [] else ["Reporter.elm.js"]) ++
    if .compileRunner ∈ coming then [] else ["Runner.elm.js"]

theorem linkedScripts_cons {stage : Stage} (hrunner : stage ≠ .compileRunner)
    (hreporter : stage ≠ .compileReporter) (rest : List Stage) :
    linkedScripts (stage :: rest) = linkedScripts rest := by
  simp [linkedScripts, hrunner.symm, hreporter.symm]

section Guarded

variable {root : Path} {linked folder : List String} {bytes : List UInt8} {world : World}

theorem guarded_compile_script (hroot : root.anchor ≠ .here) (hconfined : context.tools.Confined)
    (options : RunOptions) {name : String} (hname : ProperName name) (hfree : name ∉ linked)
    (sources : List String) {asked : World} (hasked : asked.disk = world.disk)
    (h : Guarded root linked folder bytes world.disk) :
    Guarded root (name :: linked) folder bytes
      ((compile context options ⟨root, defaultElmVersion⟩
        ((Layout.mk root defaultElmVersion).scripts.child name) sources).run asked).2.disk := by
  rcases disk_compile hconfined ((Layout.mk root defaultElmVersion).scripts.child name) sources asked with
    hsame | ⟨content, started, hstarted, hplace⟩
  · rw [hsame, hasked]
    exact h.mono (List.subset_cons_self name linked)
  · rw [hplace]
    exact h.place_script hroot hname hfree content (hstarted.trans hasked)

theorem guarded_compileTests (hconfined : context.tools.Confined)
    (hnull : world.disk.NoLinkOn ["dev", "null"]) (found : Findings)
    (h : Guarded root linked folder bytes world.disk) :
    Guarded root linked folder bytes
      ((perform context options ⟨root, defaultElmVersion⟩ found .compileTests).run world).2.disk := by
  rw [perform, run_map, compileTests, run_bind, run_report]
  dsimp only
  rcases disk_compile hconfined Compiler.noOutput _ _ with hsame | ⟨content, asked, hasked, hplace⟩
  · rw [hsame]
    exact h
  · rw [hplace, told_noOutput]
    exact h.place_noOutput hnull content hasked

/-- A stage after the check of the tests leaves the manifest alone. -/
theorem guarded_perform (hroot : root.anchor ≠ .here) (hconfined : context.tools.Confined)
    {app : Application} {text : List Char} (hprint : app.print = .ok text) {stage : Stage}
    {rest : List Stage} (hstage : stage ∈ Stage.all.drop 5) (hnew : stage ∉ rest) (found : Findings)
    (h : Guarded root (linkedScripts (stage :: rest)) folder (Text.Utf8.encode text) world.disk) :
    Guarded root (linkedScripts rest) folder (Text.Utf8.encode text)
      ((perform context options ⟨root, defaultElmVersion⟩ found stage).run world).2.disk := by
  have hguards := permissive_guards root (linkedScripts rest) folder (Text.Utf8.encode text)
  have hscript {name : String} (hname : ProperName name) (hfree : name ∉ linkedScripts rest) :
      ∀ disk found node, Sheltered root (linkedScripts rest) folder disk →
        disk.find ((Layout.mk root defaultElmVersion).scripts.child name).toString =
          .ok (found, node) → found ≠ folder ++ manifestNames :=
    fun disk found node hsheltered => hsheltered.script_ne hroot hname hfree
  have hfree {name : String} (hrunner : name ≠ "Runner.elm.js") (hreporter : name ≠ "Reporter.elm.js") :
      name ∉ linkedScripts rest := by
    unfold linkedScripts
    split <;> split <;> simp [hrunner, hreporter]
  cases stage with
  | findTests =>
      rw [linkedScripts_cons (by decide) (by decide)] at h
      exact Keeps.map (keeps_findTests hguards.toTolerant _ _) _ world h
  | generateRunner =>
      rw [linkedScripts_cons (by decide) (by decide)] at h
      exact Keeps.map (Generation.keeps_writeRendered hguards _ _ _ trivial
        fun disk found node hsheltered => hsheltered.runnerSource_ne hroot) _ world h
  | generateNodeRunner =>
      rw [linkedScripts_cons (by decide) (by decide)] at h
      exact Keeps.map (Generation.keeps_writeRendered hguards _ _ _ trivial
        (hscript (by decide) (hfree (by decide) (by decide)))) _ world h
  | generateSupervisor =>
      rw [linkedScripts_cons (by decide) (by decide)] at h
      exact Keeps.map (Generation.keeps_writeRendered hguards _ _ _ trivial
        (hscript (by decide) (hfree (by decide) (by decide)))) _ world h
  | supervise =>
      rw [linkedScripts_cons (by decide) (by decide)] at h
      exact Keeps.map (keeps_supervise (fun _ _ hguarded => hguarded) hconfined hguards.toTolerant _) _
        world h
  | compileRunner =>
      have hlinked : linkedScripts rest ⊇ "Runner.elm.js" :: linkedScripts (.compileRunner :: rest) := by
        simp [linkedScripts, hnew]
      have hnone : "Runner.elm.js" ∉ linkedScripts (.compileRunner :: rest) := by
        unfold linkedScripts
        split <;> simp
      rw [perform, run_map, compileRunner, run_bind, run_report]
      dsimp only
      refine holds_run_bind
        (P := fun after => Guarded root (linkedScripts rest) folder (Text.Utf8.encode text) after.disk)
        ?_ fun _ _ hcompiled => hcompiled.patchFile hprint context.tag _ rfl
      refine Guarded.mono ?_ hlinked
      exact guarded_compile_script hroot hconfined options (by decide) hnone _ rfl h
  | compileReporter =>
      have hlinked : linkedScripts rest ⊇
          "Reporter.elm.js" :: linkedScripts (.compileReporter :: rest) := by
        simp [linkedScripts, hnew]
      have hnone : "Reporter.elm.js" ∉ linkedScripts (.compileReporter :: rest) := by
        rw [linkedScripts, if_pos List.mem_cons_self]
        split <;> simp
      rw [perform, run_map, compileReporter, run_bind, run_report]
      dsimp only
      rw [world_run_bind fun _ _ => rfl]
      refine Guarded.mono ?_ hlinked
      exact guarded_compile_script hroot hconfined options (by decide) hnone _ rfl h
  | _ => simp [Stage.all] at hstage

/-- From the check of the tests on, the manifest stays as it is. -/
theorem Course.guarded (hroot : root.anchor ≠ .here) (hconfined : context.tools.Confined)
    {app : Application} {text : List Char} (hprint : app.print = .ok text) {found : Findings}
    {after : World} {ending : Except Interruption Findings} {outcomes : List Outcome}
    (hcourse : Course context options ⟨root, defaultElmVersion⟩ (Stage.all.drop 4) found world ending
      after outcomes)
    (hnull : world.disk.NoLinkOn ["dev", "null"])
    (h : Guarded root [] folder (Text.Utf8.encode text) world.disk) :
    (∀ visit ∈ visits context options ⟨root, defaultElmVersion⟩ (Stage.all.drop 4) found world,
        ∃ linked, Guarded root linked folder (Text.Utf8.encode text) visit.world.disk) ∧
      ∃ linked, Guarded root linked folder (Text.Utf8.encode text) after.disk := by
  have hnodup : (Stage.all.drop 5).Nodup := by decide
  have hstart : Guarded root (linkedScripts (Stage.all.drop 4)) folder (Text.Utf8.encode text)
      world.disk := h
  obtain ⟨hvisits, coming, hafter, -⟩ := hcourse.holds
    (P := fun coming disk =>
      Guarded root (linkedScripts coming) folder (Text.Utf8.encode text) disk ∧
        (coming = Stage.all.drop 4 → disk.NoLinkOn ["dev", "null"]))
    (fun stage rest found world hsuffix ⟨hguarded, hnull⟩ => by
      rcases List.suffix_cons_iff.1 hsuffix with hall | hsuffix
      · cases hall
        exact ⟨guarded_compileTests hconfined (hnull rfl) found hguarded, fun hall => absurd hall (by decide)⟩
      · have hnew := List.nodup_cons.1 (hnodup.sublist hsuffix.sublist)
        refine ⟨guarded_perform hroot hconfined hprint (hsuffix.subset List.mem_cons_self) hnew.1 found
          hguarded, ?_⟩
        rintro rfl
        exact absurd (hsuffix.subset (List.mem_cons_of_mem stage List.mem_cons_self)) (by decide))
    ⟨hstart, fun _ => hnull⟩
  refine ⟨fun visit hvisit => ?_, _, hafter⟩
  obtain ⟨coming, hguarded, -⟩ := hvisits visit hvisit
  exact ⟨_, hguarded⟩

end Guarded

/-! ### Runs -/

/-- The manifest file at a path holds the printed text of an application, and loads as the application
exactly if that holds no half of a surrogate pair. -/
structure Carries (world : World) (path : Path) (app : Application) : Prop where
  printed : ∃ text, app.print = .ok text ∧ world.disk.readText path.toString = .ok text
  loads : (ManifestFile.load path.toString).run world = (.ok (.application app), world) ↔ app.IsWhole

theorem carries_of_guarded {root : Path} {linked folder : List String} {app : Application}
    {text : List Char} {world : World} (hroot : root.anchor ≠ .here)
    (hparts : ∀ part ∈ root.parts, Path.IsPart part) (hrange : ∀ codes ∈ app.texts, codes.InRange)
    (hprint : app.print = .ok text)
    (h : Guarded root linked folder (Text.Utf8.encode text) world.disk) :
    Carries world (Layout.mk root defaultElmVersion).manifest app := by
  have hread := ManifestFile.readText_of_find h.found (Application.not_mem_print hprint)
  have hself : Path.ofString (Layout.mk root defaultElmVersion).manifest.toString =
      (Layout.mk root defaultElmVersion).manifest := by
    rw [Layout.manifest, root_eq]
    refine Path.ofString_toString hroot fun part hpart => ?_
    rw [Path.child, List.append_assoc, List.mem_append] at hpart
    rcases hpart with hpart | hpart
    · exact hparts part hpart
    · have hproper : ∀ name ∈ manifestNames, ProperName name := by decide
      exact Path.isPart_of_properName (hproper part hpart)
  refine ⟨⟨text, hprint, hread⟩, ?_⟩
  rw [← hself] at hread
  rw [ManifestFile.run_load_of_readText hread, Prod.mk.injEq,
    Application.ofText_print_iff hrange hprint]
  exact and_iff_left rfl

/-- What the manifest of a generated project is in the course of a run whose draft is written. -/
structure Coherent (context : RunContext) (options : RunOptions) (layout : Layout) (start final : World)
    (outcomes : List Outcome) (draft : Application) : Prop where
  /-- The draft is there when its dependencies are to be solved. -/
  drafted : ∃ visit ∈ visits context options layout Stage.all {} start, visit.stage = .solve ∧
    Carries visit.world layout.manifest draft
  /-- The first call of the run is that of the solver, which sees the text of the draft. -/
  seen : ∃ text, draft.print = .ok text ∧ final.calls[start.calls.length]? =
    some (.solver (Solver.command Solver.defaultExecutable Solver.extraPackages
      layout.manifest.toString) (some text))
  /-- If the dependencies are not solved, the draft stays. -/
  unsolved : (∀ detail, .passed .solve detail ∉ outcomes) → Carries final layout.manifest draft
  /-- If they are solved, the draft with the dependencies of the answer is there from then on. -/
  solved : ∀ detail, .passed .solve detail ∈ outcomes → ∃ text found,
    Text.Utf8.decode context.tools.solver.printed = .ok text ∧ Dependencies.ofText text = .ok found ∧
      ({ draft with dependencies := found } : Application).IsWhole ∧
      Carries final layout.manifest { draft with dependencies := found } ∧
      ∀ visit ∈ visits context options layout Stage.all {} start, visit.stage ∈ Stage.all.drop 4 →
        Carries visit.world layout.manifest { draft with dependencies := found }

section Stages

variable {root : Path} {folder : List String} {found next : Findings} {world after : World}
  {ending : Except Interruption Findings} {outcomes : List Outcome}

/-- When a manifest is synthesized, the draft is written and guarded from then on. -/
theorem guarded_of_synthesize {detail : Option String} (hroot : root.anchor ≠ .here)
    (hplain : PlainInside world.disk root)
    (h : (perform context options ⟨root, defaultElmVersion⟩ found .synthesize).run world =
      (.ok (next, detail), after)) :
    ∃ host folder text,
      Drafted context ⟨root, defaultElmVersion⟩ world.disk host next.synthesis.app ∧
      next.synthesis.app.print = .ok text ∧
      Guarded root [] folder (Text.Utf8.encode text) after.disk := by
  obtain ⟨folder, entries, hleads, hfolder⟩ := exists_leads_of_synthesize hroot h
  obtain ⟨host, made, value, hdrafted, hgrows, hwrite⟩ :=
    exists_draft_of_synthesize (synthesis_of_synthesize h).1
  have hfiles := hplain folder (Disk.leads_steps hroot hleads hfolder)
  have hsheltered : Sheltered root [] folder world.disk :=
    ⟨hleads, fun below target hlink =>
      absurd hlink (hplain.noLinkInside folder (Disk.leads_steps hroot hleads hfolder) below target)⟩
  obtain ⟨text, hprint, hguarded⟩ := (hsheltered.grow (hgrows fun _ => False)).guarded_of_write hroot
    (fun node hnode => (hgrows fun _ => False).plain (hfiles _) hnode) hwrite
  exact ⟨host, folder, text, hdrafted, hprint, hguarded⟩

/-- When the dependencies are solved, the draft is written with them and guarded from then on. -/
theorem guarded_of_solve {detail : Option String} {bytes : List UInt8} (hroot : root.anchor ≠ .here)
    (hconfined : context.tools.Confined) (hguarded : Guarded root [] folder bytes world.disk)
    (h : (perform context options ⟨root, defaultElmVersion⟩ found .solve).run world =
      (.ok (next, detail), after)) :
    ∃ answer solved text, Text.Utf8.decode context.tools.solver.printed = .ok answer ∧
      Dependencies.ofText answer = .ok solved ∧
      ({ found.synthesis.app with dependencies := solved } : Application).print = .ok text ∧
      Guarded root [] folder (Text.Utf8.encode text) after.disk := by
  obtain ⟨solved, hrun, -⟩ := run_map_eq_ok.1 h
  obtain ⟨answer, asked, value, hdecode, hfound, hasked, hwrite⟩ := exists_write_of_solve hconfined hrun
  rw [← hasked] at hguarded
  obtain ⟨text, hprint, hafter⟩ := hguarded.toSheltered.guarded_of_write hroot (fun node hnode => by
    rw [Disk.nodeAt?_of_find_eq hguarded.found, Option.some.injEq] at hnode
    exact .inl (hnode ▸ rfl)) hwrite
  exact ⟨answer, solved, text, hdecode, hfound, hprint, hafter⟩

/-- Which manifest is guarded in the end depends on whether the dependencies are solved. -/
theorem Course.guarded_cases {text : List Char} (hroot : root.anchor ≠ .here)
    (hconfined : context.tools.Confined) (hnull : world.disk.NoLinkOn ["dev", "null"])
    (hguarded : Guarded root [] folder (Text.Utf8.encode text) world.disk)
    (h : Course context options ⟨root, defaultElmVersion⟩ (Stage.all.drop 3) found world ending after
      outcomes) :
    (∀ detail, .passed .solve detail ∉ outcomes) ∧
        (∃ linked, Guarded root linked folder (Text.Utf8.encode text) after.disk) ∨
      ∃ answer solved written, Text.Utf8.decode context.tools.solver.printed = .ok answer ∧
        Dependencies.ofText answer = .ok solved ∧
        ({ found.synthesis.app with dependencies := solved } : Application).print = .ok written ∧
        (∃ linked, Guarded root linked folder (Text.Utf8.encode written) after.disk) ∧
        ∃ detail, .passed .solve detail ∈ outcomes ∧
        ∀ visit ∈ visits context options ⟨root, defaultElmVersion⟩ (Stage.all.drop 3) found world,
          visit.stage ∈ Stage.all.drop 4 →
            ∃ linked, Guarded root linked folder (Text.Utf8.encode written) visit.world.disk := by
  have hall : Stage.all.drop 3 = .solve :: Stage.all.drop 4 := rfl
  rw [hall] at h ⊢
  have hfails {trouble : Trouble} {between : World}
      (hrun : (perform context options ⟨root, defaultElmVersion⟩ found .solve).run world =
        (.error trouble, between)) : Guarded root [] folder (Text.Utf8.encode text) between.disk := by
    rw [perform, run_map] at hrun
    rcases hsolve : (solve context ⟨root, defaultElmVersion⟩ found.synthesis.app).run world with
      ⟨_ | _, later⟩
    · rw [hsolve] at hrun
      cases hrun
      exact hguarded.grow (grows_of_solve_eq_error hconfined hsolve _)
    · rw [hsolve] at hrun
      cases hrun
  cases h with
  | @passed _ _ _ next _ between _ detail _ later hrun hrest =>
      obtain ⟨answer, solved, written, hdecode, hfound, hprint, hsolved⟩ :=
        guarded_of_solve hroot hconfined hguarded hrun
      have hgrows : Enlarges world between := by
        have hkeeps : (solve context ⟨root, defaultElmVersion⟩ found.synthesis.app).Keeps Enlarges :=
          keeps_solve (fun world _ => .refl _ world.disk) hconfined permissive_enlarges trivial trivial _
        have hbetween := Keeps.map hkeeps (fun solved : Dependencies =>
          (found, some (counted solved.names.length "package(s)"))) world
        rw [← perform, hrun] at hbetween
        exact hbetween
      obtain ⟨hvisits, hafter⟩ := hrest.guarded hroot hconfined hprint
        (fun count target hlink => hnull count target (hgrows.links _ _ hlink)) hsolved
      refine .inr ⟨answer, solved, written, hdecode, hfound, hprint, hafter, detail,
        List.mem_cons_self, ?_⟩
      rw [visits_cons hrun, List.forall_mem_cons]
      exact ⟨fun hstage => absurd hstage (show Stage.solve ∉ Stage.all.drop 4 by decide),
        fun visit hvisit _ => hvisits visit hvisit⟩
  | @failed _ _ _ _ between _ trouble cause hrun hcalls hdisk hcause =>
      refine .inl ⟨fun detail hmem => ?_, [], ?_⟩
      · have hok := congrArg Outcome.ok (List.mem_singleton.1 hmem)
        cases hok
      · rw [hdisk]
        exact hfails hrun
  | left hrun hfault => exact .inl ⟨fun detail hmem => absurd hmem List.not_mem_nil, [], hfails hrun⟩

/-- A course that passes the synthesis keeps the manifest coherent. -/
theorem Course.exists_coherent {start final : World} {outcome : Outcome} (hroot : root.anchor ≠ .here)
    (hparts : ∀ part ∈ root.parts, Path.IsPart part) (hplain : PlainInside start.disk root)
    (hnull : start.disk.NoLinkOn ["dev", "null"]) (hconfined : context.tools.Confined)
    (h : Course context options ⟨root, defaultElmVersion⟩ Stage.all {} start ending final outcomes)
    (hmem : outcome ∈ outcomes) (hstage : outcome.stage = .synthesize) (hok : outcome.ok = true) :
    ∃ host draft, Drafted context ⟨root, defaultElmVersion⟩ start.disk host draft ∧
      Coherent context options ⟨root, defaultElmVersion⟩ start final outcomes draft := by
  have hcalls := h.calls
  have hlater {stage : Stage} {detail : Option String} {later : List Outcome}
      (hmem : outcome ∈ .passed stage detail :: later) (hne : stage ≠ .synthesize) : outcome ∈ later := by
    rcases List.mem_cons.1 hmem with rfl | hmem
    · exact absurd hstage hne
    · exact hmem
  obtain ⟨found₁, _, world₁, _, hrun₁, hcourse₁, rfl⟩ := h.exists_cons hmem hok
  have hmem₁ := hlater hmem (by decide)
  obtain ⟨found₂, _, world₂, _, hrun₂, hcourse₂, rfl⟩ := hcourse₁.exists_cons hmem₁ hok
  have hmem₂ := hlater hmem₁ (by decide)
  obtain ⟨found₃, _, world₃, outcomes₃, hrun₃, hcourse₃, rfl⟩ := hcourse₂.exists_cons hmem₂ hok
  have hvisits : visits context options ⟨root, defaultElmVersion⟩ Stage.all {} start =
      [⟨.validateOptions, {}, start⟩, ⟨.discover, found₁, world₁⟩, ⟨.synthesize, found₂, world₂⟩] ++
        visits context options ⟨root, defaultElmVersion⟩ (Stage.all.drop 3) found₃ world₃ := by
    rw [Stage.all, visits_cons hrun₁, visits_cons hrun₂, visits_cons hrun₃]
    rfl
  have hdisk₂ : world₂.disk = start.disk :=
    tolerant_sameDisk.trans ((sameDisk_perform (by decide) _).of_run hrun₁)
      ((sameDisk_perform (by decide) _).of_run hrun₂)
  rw [← hdisk₂] at hplain hnull ⊢
  obtain ⟨host, folder, text, hdrafted, hprint, hguarded⟩ := guarded_of_synthesize hroot hplain hrun₃
  have hgrows : Enlarges world₂ world₃ :=
    (Keeps.map (keeps_synthesize permissive_enlarges context trivial trivial trivial trivial) _).of_run hrun₃
  have hcases := hcourse₃.guarded_cases hroot hconfined
    (fun count target hlink => hnull count target (hgrows.links _ _ hlink)) hguarded
  have hsolver : visits context options ⟨root, defaultElmVersion⟩ (Stage.all.drop 3) found₃ world₃ =
      ⟨.solve, found₃, world₃⟩ :: (visits context options ⟨root, defaultElmVersion⟩ (Stage.all.drop 3)
        found₃ world₃).tail := rfl
  have hfirst (rest : List Visit) :
      (([⟨.validateOptions, {}, start⟩, ⟨.discover, found₁, world₁⟩, ⟨.synthesize, found₂, world₂⟩] ++
        ⟨.solve, found₃, world₃⟩ :: rest : List Visit)).filterMap
          (Visit.call? context options ⟨root, defaultElmVersion⟩) =
      toolCall context options ⟨root, defaultElmVersion⟩ ⟨.solve, found₃, world₃⟩ .solver ::
        rest.filterMap (Visit.call? context options ⟨root, defaultElmVersion⟩) := rfl
  have hdraft := carries_of_guarded hroot hparts hdrafted.inRange hprint hguarded
  refine ⟨host, found₃.synthesis.app, hdrafted, ?_⟩
  exact
    { drafted := by
        refine ⟨⟨.solve, found₃, world₃⟩, ?_, rfl, hdraft⟩
        rw [hvisits, hsolver]
        simp
      seen := by
        obtain ⟨text, hprint, hread⟩ := hdraft.printed
        refine ⟨text, hprint, ?_⟩
        rw [hcalls, hvisits, hsolver, hfirst, List.getElem?_append_right (Nat.le_refl _), Nat.sub_self,
          List.getElem?_cons_zero, toolCall, Solver.manifestText?, if_pos (isAbsolute_manifest hroot),
          hread]
      unsolved := by
        intro hnone
        rcases hcases with ⟨-, linked, hfinal⟩ | ⟨_, _, _, _, _, _, _, detail, hpassed, -⟩
        · exact carries_of_guarded hroot hparts hdrafted.inRange hprint hfinal
        · exact absurd (by simp [hpassed]) (hnone detail)
      solved := by
        intro detail hpassed
        have hpassed₃ : .passed .solve detail ∈ outcomes₃ := by
          simpa [Outcome.passed] using hpassed
        rcases hcases with ⟨hnone, -⟩ |
          ⟨answer, solved, written, hdecode, hfound, hwritten, ⟨_, hfinal⟩, -, -, hstages⟩
        · exact absurd hpassed₃ (hnone detail)
        · have hwhole := Application.isWhole_withDependencies hprint hdrafted.testDependencies hfound
          have hrange := hdrafted.inRange_withDependencies hfound
          refine ⟨answer, solved, hdecode, hfound, hwhole,
            carries_of_guarded hroot hparts hrange hwritten hfinal, fun visit hvisit hstage => ?_⟩
          rw [hvisits] at hvisit
          rcases List.mem_append.1 hvisit with hvisit | hvisit
          · simp only [List.mem_cons, List.not_mem_nil, or_false] at hvisit
            rcases hvisit with rfl | rfl | rfl <;> simp [Stage.all] at hstage
          · obtain ⟨_, hguarded⟩ := hstages visit hvisit hstage
            exact carries_of_guarded hroot hparts hrange hwritten hguarded }

end Stages

/-- A run whose draft is written keeps the manifest of the generated project coherent. -/
theorem stages_coherent {given : String} {canonical : Path} {start : World}
    {ending : Except Interruption Int} {state : RunState} {outcome : Outcome}
    (hcwd : ∀ part ∈ start.disk.cwd, Path.IsPart part)
    (hlocate : start.disk.locateLeniently (.ofString given) = .ok canonical)
    (hplain : PlainInside start.disk canonical) (hnull : start.disk.NoLinkOn ["dev", "null"])
    (hconfined : context.tools.Confined)
    (hrun : (stages context options ⟨canonical, defaultElmVersion⟩).run ⟨start, []⟩ = (ending, state))
    (hmem : outcome ∈ state.outcomes) (hstage : outcome.stage = .synthesize)
    (hok : outcome.ok = true) :
    ∃ host draft, Drafted context ⟨canonical, defaultElmVersion⟩ start.disk host draft ∧
      Coherent context options ⟨canonical, defaultElmVersion⟩ start state.world state.outcomes draft := by
  rw [stages_eq, run_map_running] at hrun
  rcases hall : (performAll context options ⟨canonical, defaultElmVersion⟩ Stage.all {}).run ⟨start, []⟩
    with ⟨result, last⟩
  rw [hall] at hrun
  obtain ⟨-, rfl⟩ := Prod.mk.inj hrun
  obtain ⟨outcomes, houtcomes, hcourse⟩ := course_of_performAll hall
  rw [houtcomes, List.nil_append] at hmem ⊢
  exact hcourse.exists_coherent (anchor_of_locateLeniently hlocate)
    (Disk.isPart_of_locateLeniently hcwd hlocate) hplain hnull hconfined hmem hstage hok

/-- A run whose compiler leaves nothing keeps the manifest coherent up to its end at the eighth stage. -/
theorem stages_coherent_of_empty_output :
    ∃ ending state, (stages (smallContext 0) {} ⟨.ofString "/p", defaultElmVersion⟩).run
        ⟨⟨smallProject, [], []⟩, []⟩ = (ending, state) ∧
      (state.outcomes.map fun outcome => (outcome.stage, outcome.ok)) =
        (Stage.all.take 7).map (·, true) ++ [(.compileRunner, false)] ∧
      ∃ host draft, Drafted (smallContext 0) ⟨.ofString "/p", defaultElmVersion⟩ smallProject host draft ∧
        Coherent (smallContext 0) {} ⟨.ofString "/p", defaultElmVersion⟩ ⟨smallProject, [], []⟩
          state.world state.outcomes draft := by
  have hlocate : smallProject.locateLeniently (.ofString "/p") = .ok (.ofString "/p") := by
    decide +kernel
  have hlink (location : List String) (target : String) :
      smallProject.nodeAt? location ≠ some (.link target) :=
    Node.at?_ne_link (by decide +kernel) location target
  have hplain : PlainInside smallProject (.ofString "/p") := by
    intro folder hleads below node hnode
    rw [show Disk.steps (Path.ofString "/p").toString = ["p"] by decide] at hleads
    have hfolder : folder = ["p"] :=
      hleads.eq_append_of_no_link (by decide) fun count => hlink _
    have hnone : smallProject.tree.at? ["p", "elm-stuff"] = none := rfl
    rw [hfolder, Disk.nodeAt?, List.append_cons, Node.at?_append] at hnode
    rw [List.cons_append, List.nil_append, hnone] at hnode
    cases hnode
  have houtcomes : (((stages (smallContext 0) {} ⟨.ofString "/p", defaultElmVersion⟩).run
      ⟨⟨smallProject, [], []⟩, []⟩).2.outcomes.map fun outcome => (outcome.stage, outcome.ok)) =
        (Stage.all.take 7).map (·, true) ++ [(.compileRunner, false)] := by
    decide +kernel
  have hconfined : (smallContext 0).tools.Confined := ⟨fun _ => rfl, rfl, rfl⟩
  rcases hrun : (stages (smallContext 0) {} ⟨.ofString "/p", defaultElmVersion⟩).run
    ⟨⟨smallProject, [], []⟩, []⟩ with ⟨ending, state⟩
  rw [hrun] at houtcomes
  have hmem : (Stage.synthesize, true) ∈
      state.outcomes.map fun outcome => (outcome.stage, outcome.ok) := by
    rw [houtcomes]
    decide
  obtain ⟨outcome, hmem, heq⟩ := List.mem_map.1 hmem
  obtain ⟨hstage, hok⟩ := Prod.mk.inj heq
  exact ⟨ending, state, rfl, houtcomes, stages_coherent (fun _ hpart => absurd hpart List.not_mem_nil)
    hlocate hplain (fun count => hlink _) hconfined hrun hmem hstage hok⟩

end Pipeline

end ElmSuite
