import ElmSuite.Proofs.Run.DraftedManifest
import ElmSuite.Proofs.Suite.ScriptText

/-!
The scripts that node runs.  A run that passes all its stages has written the worker and the
supervisor from their templates, with the numbers and the report format of its options, and both are
still on the disk when it ends.
-/

namespace ElmSuite

open Act

/-- The root of a project leads to a folder, and nothing but files and folders stands at or below
`elm-stuff` in it. -/
structure Tidy (root : Path) (folder : List String) (disk : Disk) : Prop where
  leads : Disk.Leads disk [] (root.parts.flatMap Path.named) folder
  plain : ∀ below node, disk.nodeAt? (folder ++ "elm-stuff" :: below) = some node →
    node.isFile = true ∨ node.isFolder = true

section Tidy

variable {root : Path} {folder : List String} {disk after : Disk}

theorem Tidy.settled (h : Tidy root folder disk) : Settled root folder disk where
  leads := h.leads
  noLink below target hlink := by
    rcases h.plain below _ hlink with hfile | hfolder
    · cases hfile
    · cases hfolder

theorem Tidy.grow {spared : List String → Prop} (h : Tidy root folder disk)
    (hgrows : disk.Grows spared after) : Tidy root folder after where
  leads := h.leads.retain hgrows.toRetains
  plain below _ hnode := hgrows.plain (h.plain below) hnode

/-- A script that is written to a tidy project is found at its place. -/
theorem Tidy.find_of_writeText {name : String} {made : Disk} {text : List Char}
    (h : Tidy root folder disk) (hroot : root.anchor ≠ .here) (hname : ProperName name)
    (hmade : Disk.makeFolders ((Layout.mk root defaultElmVersion).scripts.child name).parent disk =
      (.ok (), made))
    (hwrite : made.writeText ((Layout.mk root defaultElmVersion).scripts.child name).toString text =
      .ok after) :
    Tidy root folder after ∧
      after.find ((Layout.mk root defaultElmVersion).scripts.child name).toString =
        .ok (folder ++ scriptNames name, .file (Text.Utf8.encode text)) := by
  have hgrows := Disk.makeFolders_grow (fun _ => False)
    ((Layout.mk root defaultElmVersion).scripts.child name).parent disk
  rw [hmade] at hgrows
  have htidy := h.grow hgrows
  obtain ⟨location, hfind⟩ := Disk.find_of_writeBytes hwrite fun location node hfound => by
    rw [htidy.settled.location_script hroot hname hfound] at hfound
    exact htidy.plain _ node (Disk.nodeAt?_of_find_eq hfound)
  have hafter : Tidy root folder after := by
    rcases Disk.writeBytes_eq_ok hwrite with ⟨_, -, hgrows⟩ | ⟨rfl, -⟩
    · exact htidy.grow hgrows
    · exact htidy
  rw [hafter.settled.location_script hroot hname hfind] at hfind
  exact ⟨hafter, hfind⟩

end Tidy

namespace Pipeline

/-- A run leaves a text in a script. -/
structure Leaves (context : RunContext) (options : RunOptions) (layout : Layout) (start final : World)
    (stage : Stage) (script : Path) (text : List Char) : Prop where
  /-- The stage that is to write the script writes the text. -/
  written : ∃ visit ∈ visits context options layout Stage.all {} start, visit.stage = stage ∧
    ∃ value made after,
      (perform context options layout visit.found stage).run visit.world = (.ok value, after) ∧
      Disk.makeFolders script.parent visit.world.disk = (.ok (), made) ∧
      made.writeText script.toString text = .ok after.disk
  /-- It is there in the end, if there is no link in the generated project and tools write only what
  they are told. -/
  kept : PlainInside start.disk layout.projectRoot → context.tools.Quiet →
    final.disk.readBytes script.toString = .ok (Text.Utf8.encode text)

variable {context : RunContext} {options : RunOptions} {root : Path} {layout : Layout}

theorem reporter_of_perform {stage : Stage} {found next : Findings} {world after : World}
    {detail : Option String} (hstage : stage ≠ .validateOptions)
    (h : (perform context options layout found stage).run world = (.ok (next, detail), after)) :
    next.reporter = found.reporter := by
  cases stage with
  | validateOptions => exact absurd rfl hstage
  | _ =>
      obtain ⟨_, -, heq⟩ := run_map_eq_ok.1 h
      cases heq
      rfl

section Course

variable {start final first after : World} {found next last : Findings} {detail : Option String}
  {front rest : List Stage} {stage : Stage} {outcomes before later : List Outcome}

theorem Course.reporter (hall : .validateOptions ∉ front)
    (h : Course context options layout front found first (.ok next) after outcomes) :
    next.reporter = found.reporter := by
  induction front generalizing found first outcomes with
  | nil =>
      cases h
      rfl
  | cons stage rest ih =>
      rw [List.mem_cons, not_or] at hall
      cases h with
      | passed hrun hrest => exact (ih hall.2 hrest).trans (reporter_of_perform (Ne.symm hall.1) hrun)

/-- The report format is that of the options, once they are validated. -/
theorem Course.reporter_eq (hfront : .validateOptions ∉ front)
    (h : Course context options layout (.validateOptions :: front) found first (.ok next) after
      outcomes) : Reporter.ofName options.report = .ok next.reporter := by
  cases h with
  | passed hrun hrest =>
      obtain ⟨reporter, hreporter, heq⟩ := run_map_eq_ok.1 hrun
      cases heq
      rw [hrest.reporter hfront]
      exact (run_ofFailure_eq_ok.1 hreporter).1

/-- A script that a stage writes in a run all of whose stages pass, and no stage behind it writes
again. -/
theorem leaves_of_write {name : String} {text : List Char} {made : Disk} (hroot : root.anchor ≠ .here)
    (hall : Stage.all = front ++ stage :: rest)
    (hfront : Course context options ⟨root, defaultElmVersion⟩ front {} start (.ok found) first before)
    (hrun : (perform context options ⟨root, defaultElmVersion⟩ found stage).run first =
      (.ok (next, detail), after))
    (hrest : Course context options ⟨root, defaultElmVersion⟩ rest next after (.ok last) final later)
    (hname : scriptOf? stage = some name)
    (hlater : ∀ stage ∈ rest, stage ∈ Stage.all.drop 7 ∧ scriptOf? stage ≠ some name)
    (hsupervise : .supervise ∈ rest)
    (hmade : Disk.makeFolders ((Layout.mk root defaultElmVersion).scripts.child name).parent first.disk =
      (.ok (), made))
    (hwrite : made.writeText ((Layout.mk root defaultElmVersion).scripts.child name).toString text =
      .ok after.disk) :
    Leaves context options ⟨root, defaultElmVersion⟩ start final stage
      ((Layout.mk root defaultElmVersion).scripts.child name) text := by
  have hvisits : visits context options ⟨root, defaultElmVersion⟩ Stage.all {} start =
      visits context options ⟨root, defaultElmVersion⟩ front {} start ++ ⟨stage, found, first⟩ ::
        visits context options ⟨root, defaultElmVersion⟩ rest next after := by
    rw [hall, hfront.visits_append rfl, visits_cons hrun]
  refine ⟨⟨⟨stage, found, first⟩, by rw [hvisits]; simp, rfl, _, made, after, hrun, hmade, hwrite⟩, ?_⟩
  intro hplain hquiet
  obtain ⟨visit, hvisit, hcalls⟩ := hrest.exists_visit hsupervise
  obtain ⟨folder, entries, hleads, hfolder⟩ := exists_leads_of_supervise hroot
    (by rw [hvisits]; exact List.mem_append_right _ (List.mem_cons_of_mem _ hvisit)) hcalls
  have hstart : Tidy root folder start.disk :=
    ⟨hleads, hplain folder (Disk.leads_steps hroot hleads hfolder)⟩
  obtain ⟨htidy, hfind⟩ := (hstart.grow (hfront.enlarges hquiet)).find_of_writeText hroot
    (properName_of_scriptOf? hname) hmade hwrite
  exact hrest.readBytes_script hroot hquiet htidy.settled hlater hfind

/-- A run all of whose stages pass leaves the worker and the supervisor of its options. -/
theorem Course.leaves_scripts (hroot : root.anchor ≠ .here)
    (h : Course context options ⟨root, defaultElmVersion⟩ Stage.all {} start (.ok last) final outcomes) :
    ∃ reporter runner supervisor, Reporter.ofName options.report = .ok reporter ∧
      nodeRunnerText options.seed options.fuzz = .ok runner ∧
      nodeSupervisorText options.workers options.seed options.fuzz reporter = .ok supervisor ∧
      Leaves context options ⟨root, defaultElmVersion⟩ start final .generateNodeRunner
        (Layout.mk root defaultElmVersion).nodeRunner runner ∧
      Leaves context options ⟨root, defaultElmVersion⟩ start final .generateSupervisor
        (Layout.mk root defaultElmVersion).nodeSupervisor supervisor := by
  have hworker : Stage.all = Stage.all.take 8 ++ .generateNodeRunner :: Stage.all.drop 9 := rfl
  have hprocess : Stage.all = Stage.all.take 10 ++ .generateSupervisor :: Stage.all.drop 11 := rfl
  obtain ⟨found, world, before, _, hfront, hback⟩ := (hworker ▸ h).split
  obtain ⟨found', world', before', _, hfront', hback'⟩ := (hprocess ▸ h).split
  have hreporter := hfront'.reporter_eq (by decide)
  cases hback with
  | passed hrun hrest =>
      cases hback' with
      | passed hrun' hrest' =>
          obtain ⟨_, hwrite, -⟩ := run_map_eq_ok.1 hrun
          obtain ⟨_, hwrite', -⟩ := run_map_eq_ok.1 hrun'
          obtain ⟨runner, _, hrunner, hmade, hwritten⟩ := Generation.exists_write_of_fromAsset hwrite
          obtain ⟨supervisor, _, hsupervisor, hmade', hwritten'⟩ :=
            Generation.exists_write_of_fromAsset hwrite'
          exact ⟨found'.reporter, runner, supervisor, hreporter, hrunner, hsupervisor,
            leaves_of_write hroot hworker hfront hrun hrest rfl (by decide) (by decide) hmade hwritten,
            leaves_of_write hroot hprocess hfront' hrun' hrest' rfl (by decide) (by decide) hmade'
              hwritten'⟩

end Course

end Pipeline

end ElmSuite
