import ElmSuite.Proofs.Run.PatchedScript

/-!
How a run goes that returns: its outcomes are those of the stages in their order up to the first that
fails, its tools are called in their order, and none of them before all that comes earlier has gone
well.
-/

namespace ElmSuite

/-- The outcomes are those of the first stages, in order; all but the last went well, one that did not
carries its error, and there is one for every stage if all went well. -/
structure RunResult.InOrder (result : RunResult) : Prop where
  stages : result.outcomes.map Outcome.stage <+: Stage.all
  earlier : ∀ outcome ∈ result.outcomes.dropLast, outcome.ok = true
  errors : ∀ outcome ∈ result.outcomes, outcome.ok = false → outcome.error.isSome = true
  complete : (∀ outcome ∈ result.outcomes, outcome.ok = true) →
    result.outcomes.map Outcome.stage = Stage.all

namespace Pipeline

open Act

/-- How a run that returns goes from one world to another. -/
structure Orderly (context : RunContext) (options : RunOptions) (layout : Layout) (start final : World)
    (result : RunResult) : Prop where
  /-- There is an outcome for every stage that is visited. -/
  visited : (visits context options layout Stage.all {} start).map Visit.stage =
    result.outcomes.map Outcome.stage
  /-- The tools are called in their order, each at most once. -/
  tools : (visits context options layout Stage.all {} start).filterMap Visit.tool? <+: Tool.all
  /-- The calls are those of the stages that are visited. -/
  calls : final.calls = start.calls ++
    (visits context options layout Stage.all {} start).filterMap (Visit.call? context options layout)
  /-- When a tool is called, all earlier stages have passed and all earlier tools have done what they
  were asked. -/
  earned : ∀ done visit later, visits context options layout Stage.all {} start = done ++ visit :: later →
    visit.tool?.isSome = true → ∀ earlier ∈ done,
      (∃ detail, .passed earlier.stage detail ∈ result.outcomes) ∧
        ∀ tool, earlier.tool? = some tool → tool.Succeeds context earlier.world
  /-- When node is called, the compiled runner on disk is the patch of what was there right after it
  was compiled, if no link stands in the generated project and tools write only what they are told. -/
  patched : NoLinkInside start.disk layout.projectRoot → context.tools.Quiet →
    ∀ visit ∈ visits context options layout Stage.all {} start, visit.tool? = some .node →
      ∃ compilation ∈ visits context options layout Stage.all {} start,
        compilation.tool? = some .runnerCompiler ∧ ∃ compiled code patched,
          (runnerCompilation context options layout).run compilation.world = (.ok (), compiled) ∧
          compiled.disk.readText layout.runnerScript.toString = .ok code ∧
          Script.patch context.tag code = .ok patched ∧
          visit.world.disk.readBytes layout.runnerScript.toString = .ok (Text.Utf8.encode patched)

variable {context : RunContext} {options : RunOptions} {layout : Layout}

theorem stage_of_node {visit : Visit} (h : visit.tool? = some .node) : visit.stage = .supervise := by
  obtain ⟨stage, found, world⟩ := visit
  cases stage <;> first | rfl | cases h

section Course

variable {start final : World} {ending : Except Interruption Findings} {outcomes : List Outcome}
  (h : Course context options layout Stage.all {} start ending final outcomes)
  (hending : ∀ fault, ending ≠ .error (.fault fault))
include h hending

theorem Course.inOrder (supervisorCode : Option Int) : RunResult.InOrder ⟨outcomes, supervisorCode⟩ := by
  obtain ⟨passed, last, hsplit, hpassed, hlast⟩ := h.exists_split
  refine ⟨?_, ?_, ?_, ?_⟩
  · dsimp only
    rw [h.map_stage hending]
    exact map_stage_visits_prefix Stage.all {} start
  · intro outcome hmem
    apply hpassed
    dsimp only at hmem
    rw [hsplit] at hmem
    rcases hlast with ⟨-, stage, cause, rfl⟩ | ⟨-, rfl⟩
    · rwa [List.dropLast_concat] at hmem
    · rw [List.append_nil] at hmem
      exact List.dropLast_subset _ hmem
  · intro outcome hmem hok
    dsimp only at hmem
    rw [hsplit] at hmem
    rcases List.mem_append.1 hmem with hmem | hmem
    · rw [hpassed outcome hmem] at hok
      cases hok
    · rcases hlast with ⟨-, stage, cause, rfl⟩ | ⟨-, rfl⟩
      · rw [List.mem_singleton.1 hmem]
        rfl
      · cases hmem
  · intro hall
    dsimp only at hall
    rcases hlast with ⟨-, stage, cause, rfl⟩ | ⟨hne, -⟩
    · have hfailed := hall (.failed stage cause) (by rw [hsplit]; simp)
      cases hfailed
    · cases hresult : ending with
      | ok found => exact h.map_stage_of_ok hresult
      | error interruption =>
          rw [hresult] at hne hending
          cases interruption with
          | failed => exact absurd rfl hne
          | fault fault => exact absurd rfl (hending fault)

end Course

theorem Course.earned {start final : World} {ending : Except Interruption Findings}
    {outcomes : List Outcome} {done later : List Visit} {visit : Visit}
    (h : Course context options layout Stage.all {} start ending final outcomes)
    (hvisits : visits context options layout Stage.all {} start = done ++ visit :: later) :
    ∀ earlier ∈ done, (∃ detail, .passed earlier.stage detail ∈ outcomes) ∧
      ∀ tool, earlier.tool? = some tool → tool.Succeeds context earlier.world := by
  intro earlier hearlier
  obtain ⟨next, detail, between, hmem, hrun⟩ := h.passed_of_earlier hvisits earlier hearlier
  exact ⟨⟨detail, hmem⟩, fun tool htool => succeeds_of_perform hrun htool⟩

/-- A run at a root that returns goes a course that no fault ends. -/
theorem exists_course_of_runAt {root : Path} {start final : World} {result : RunResult}
    (h : (runAt context options root).run start = (.ok result, final)) :
    ∃ ending, (∀ fault, ending ≠ .error (.fault fault)) ∧
      Course context options ⟨root, defaultElmVersion⟩ Stage.all {} start ending final
        result.outcomes := by
  change conclude ((stages context options ⟨root, defaultElmVersion⟩).run ⟨start, []⟩) = _ at h
  rw [stages_eq, run_map_running] at h
  rcases hrun : (performAll context options ⟨root, defaultElmVersion⟩ Stage.all {}).run ⟨start, []⟩ with
    ⟨ending, state⟩
  obtain ⟨outcomes, houtcomes, hcourse⟩ := course_of_performAll hrun
  rw [List.nil_append] at houtcomes
  rw [hrun] at h
  cases ending with
  | ok found =>
      cases h
      dsimp only
      rw [houtcomes]
      exact ⟨_, by simp, hcourse⟩
  | error interruption =>
      cases interruption with
      | failed =>
          cases h
          dsimp only
          rw [houtcomes]
          exact ⟨_, by simp, hcourse⟩
      | fault fault => cases h

theorem anchor_of_locateLeniently {disk : Disk} {path canonical : Path}
    (h : disk.locateLeniently path = .ok canonical) : canonical.anchor ≠ .here := by
  obtain ⟨resolution, -, h⟩ := bind_eq_ok.1 h
  dsimp only at h
  split at h
  · cases h
  · cases h
  · cases h
    exact Disk.anchor_path_ne resolution disk.cwd

/-- A run that returns is orderly. -/
theorem run_orderly {root : Path} {start final : World} {result : RunResult}
    (h : (run context options root).run start = (.ok result, final)) :
    result.InOrder ∧ ∃ canonical, start.disk.locateLeniently root = .ok canonical ∧
      Orderly context options ⟨canonical, defaultElmVersion⟩ start final result := by
  obtain ⟨canonical, _, hlocate, hrun⟩ := run_bind_eq_ok.1 h
  obtain ⟨hcanonical, rfl⟩ := run_look_eq_ok.1 hlocate
  obtain ⟨ending, hending, hcourse⟩ := exists_course_of_runAt hrun
  refine ⟨hcourse.inOrder hending result.supervisorCode, canonical, hcanonical, ?_⟩
  exact
    { visited := (hcourse.map_stage hending).symm
      tools := filterMap_tool?_visits_prefix {} start
      calls := hcourse.calls
      earned := fun done visit later hvisits _ => hcourse.earned hvisits
      patched := fun hlink hquiet visit hvisit htool => by
        obtain ⟨compilation, hmem, hstage, hpatch⟩ :=
          exists_patch_of_supervise (anchor_of_locateLeniently hcanonical) hvisit (stage_of_node htool)
            hlink hquiet
        refine ⟨compilation, hmem, ?_, hpatch⟩
        rw [Visit.tool?, hstage]
        rfl }

/-- The manifest of an application without dependencies. -/
def smallManifest : List Char :=
  [ "\x7b\"type\":\"application\",", "\"source-directories\":[],", "\"elm-version\":\"0.19.1\",",
    "\"dependencies\":\x7b", "\"direct\":\x7b\x7d,", "\"indirect\":\x7b\x7d\x7d,",
    "\"test-dependencies\":\x7b", "\"direct\":\x7b\x7d,", "\"indirect\":\x7b\x7d\x7d\x7d" ].flatMap
    String.toList

/-- A project with one test module, at `/p`. -/
def smallProject : Disk :=
  let tests : Node :=
    .folder [("A.elm", .file (Text.Utf8.encode "module A exposing (a)\na =\n".toList))]
  ⟨.folder [("p", .folder [("elm.json", .file (Text.Utf8.encode smallManifest)), ("tests", tests)])], []⟩

/-- Surroundings in which the solver answers and the compiler exits with a code. -/
def smallContext (code : Int) : RunContext where
  tools :=
    { compiler := fun _ => { code }
      solver :=
        { printed := Text.Utf8.encode "\x7b\"direct\":\x7b\x7d,\"indirect\":\x7b\x7d\x7d".toList } }
  installation := ⟨.ofString "/i"⟩

/-- A run whose tests do not compile ends at its fifth stage. -/
theorem run_orderly_of_rejected_tests :
    ∃ result final, (run (smallContext 1) {} (.ofString "/p")).run ⟨smallProject, [], []⟩ =
        (.ok result, final) ∧
      result.outcomes.map Outcome.ok = [true, true, true, true, false] ∧ result.InOrder ∧
      ∃ canonical, smallProject.locateLeniently (.ofString "/p") = .ok canonical ∧
        Orderly (smallContext 1) {} ⟨canonical, defaultElmVersion⟩ ⟨smallProject, [], []⟩ final result := by
  have hoks : (((run (smallContext 1) {} (.ofString "/p")).run ⟨smallProject, [], []⟩).1.toOption.map
      fun result => result.outcomes.map Outcome.ok) = some [true, true, true, true, false] := by
    decide +kernel
  rcases hrun : (run (smallContext 1) {} (.ofString "/p")).run ⟨smallProject, [], []⟩ with
    ⟨trouble | result, final⟩
  · rw [hrun] at hoks
    cases hoks
  · rw [hrun] at hoks
    have horderly := run_orderly hrun
    exact ⟨result, final, rfl, Option.some.inj hoks, horderly⟩

end Pipeline

end ElmSuite
