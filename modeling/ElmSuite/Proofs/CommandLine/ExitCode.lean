import ElmSuite.CommandLine.Command
import ElmSuite.Proofs.Run.Reported

/-!
The exit code of a command line that asks for a run.  It is that of node if all steps of the request
succeed, and else that of the failure of the first step that does not.
-/

namespace ElmSuite

open Act

/-- A code stands for success only if node has exited with it. -/
theorem NodeProcess.exitCode_eq_zero {code : Option Int} : exitCode code = 0 ↔ code = some 0 := by
  unfold exitCode
  split
  · next code =>
    rw [Option.some.injEq]
    split <;> omega
  · simp

theorem Failure.exitCode_eq (cause : Failure) :
    cause.exitCode = if cause.kind = .userInput ∨ cause.kind = .environment then 2 else 1 := by
  unfold exitCode
  cases cause.kind <;> rfl

/-- No failure exits like a success. -/
theorem Failure.exitCode_ne_zero (cause : Failure) : cause.exitCode ≠ 0 := by
  rw [exitCode_eq]
  split <;> decide

namespace Pipeline

variable {context : RunContext} {options : RunOptions} {layout : Layout}

/-- The stage that is visited gives a result. -/
def Visit.Passes (context : RunContext) (options : RunOptions) (layout : Layout) (visit : Visit) : Prop :=
  ∃ found after, (perform context options layout visit.found visit.stage).run visit.world =
    (.ok found, after)

/-- The code that a supervised run finds is that of node. -/
theorem code_of_supervise {found next : Findings} {world after : World} {detail : Option String}
    (h : (perform context options layout found .supervise).run world = (.ok (next, detail), after)) :
    next.code = NodeProcess.exitCode context.tools.node.code := by
  obtain ⟨code, hstage, heq⟩ := run_map_eq_ok.1 h
  have hcode : code = next.code := congrArg (fun value => value.1.code) heq
  obtain ⟨_, _, -, hstage⟩ := run_bind_eq_ok.1 hstage
  obtain ⟨_, _, -, hstage⟩ := run_bind_eq_ok.1 hstage
  obtain ⟨answered, _, hsupervise, hstage⟩ := run_bind_eq_ok.1 hstage
  obtain ⟨_, _, -, hstage⟩ := run_bind_eq_ok.1 hstage
  cases hstage
  rw [NodeProcess.run_supervise] at hsupervise
  unfold NodeProcess.respond at hsupervise
  split at hsupervise
  · cases hsupervise
  · cases hsupervise
    exact hcode.symm

section Course

variable {all : List Stage} {found : Findings} {world after : World}
  {ending : Except Interruption Findings} {outcomes : List Outcome}

theorem Course.forall_passes (h : Course context options layout all found world ending after outcomes)
    {last : Findings} (hending : ending = .ok last) :
    ∀ visit ∈ visits context options layout all found world, visit.Passes context options layout := by
  induction h with
  | finished => exact fun visit hvisit => absurd hvisit List.not_mem_nil
  | passed hrun _ ih =>
      rw [visits_cons hrun, List.forall_mem_cons]
      exact ⟨⟨_, _, hrun⟩, ih hending⟩
  | failed hrun hcalls => cases hending
  | left hrun => cases hending

theorem Course.find?_of_passed (h : Course context options layout all found world ending after outcomes)
    {last : Findings} (hending : ending = .ok last) :
    outcomes.find? (fun outcome => !outcome.ok) = none := by
  induction h with
  | finished => rfl
  | passed hrun _ ih => rw [List.find?_cons_of_neg (by simp [Outcome.passed]), ih hending]
  | failed hrun hcalls => cases hending
  | left hrun => cases hending

/-- Stages that end with a failure end with a visit that does not pass, after visits that do. -/
theorem Course.exists_failed_visit
    (h : Course context options layout all found world ending after outcomes)
    (hending : ending = .error .failed) :
    ∃ done visit trouble between cause,
      visits context options layout all found world = done ++ [visit] ∧
      (∀ earlier ∈ done, earlier.Passes context options layout) ∧
      (perform context options layout visit.found visit.stage).run visit.world =
        (.error trouble, between) ∧
      failureOf? visit.stage trouble = some cause ∧
      outcomes.find? (fun outcome => !outcome.ok) = some (.failed visit.stage cause) := by
  induction h with
  | finished => cases hending
  | @passed stage rest found next world between after detail ending outcomes hrun _ ih =>
      obtain ⟨done, visit, trouble, later, cause, hvisits, hdone, hvisit, hcause, hfind⟩ := ih hending
      refine ⟨⟨stage, found, world⟩ :: done, visit, trouble, later, cause, ?_, ?_, hvisit, hcause, ?_⟩
      · rw [visits_cons hrun, hvisits, List.cons_append]
      · rw [List.forall_mem_cons]
        exact ⟨⟨_, _, hrun⟩, hdone⟩
      · rw [List.find?_cons_of_neg (by simp [Outcome.passed]), hfind]
  | @failed stage rest found world between after trouble cause hrun hcalls hdisk hcause =>
      exact ⟨[], ⟨stage, found, world⟩, trouble, between, cause, by rw [visits, hrun]; rfl, by simp, hrun,
        hcause, rfl⟩
  | left hrun => cases hending

theorem Course.code (front : List Stage) {last : Findings}
    (h : Course context options layout (front ++ [.supervise]) found world (.ok last) after outcomes) :
    last.code = NodeProcess.exitCode context.tools.node.code := by
  induction front generalizing found world outcomes with
  | nil =>
      obtain ⟨detail, hrun⟩ := h.exists_perform
      exact code_of_supervise hrun
  | cons stage rest ih =>
      cases h with
      | passed _ hrest => exact ih hrest

end Course

end Pipeline

namespace CommandLine

open Pipeline

/-- A step of a request: what comes before its run, or a stage of that. -/
inductive Step
  | settings
  | projectRoot
  | stage (stage : Stage)
deriving DecidableEq, Repr

variable (context : RunContext) (surroundings : Surroundings)

/-- A request gets to its run, which starts in a world with certain settings and a project root. -/
structure Request.Launches (request : Request) (world : World) (settings : Settings) (canonical : Path)
    (start : World) : Prop where
  settings : request.settings surroundings world.disk = .ok settings
  projectRoot : ∃ root, (ManifestFile.findRoot "").run world = (.ok root, start) ∧
    start.disk.locateLeniently root = .ok canonical

/-- The visits that a request pays to the stages of its run. -/
def Request.visits (request : Request) (settings : Settings) (canonical : Path) (start : World) :
    List Visit :=
  Pipeline.visits context (request.options settings) ⟨canonical, defaultElmVersion⟩ Stage.all {} start

/-- All steps of a request succeed. -/
def Request.Succeeds (request : Request) (world : World) : Prop :=
  ∃ settings canonical start, request.Launches surroundings world settings canonical start ∧
    (request.visits context settings canonical start).map Visit.stage = Stage.all ∧
    ∀ visit ∈ request.visits context settings canonical start,
      visit.Passes context (request.options settings) ⟨canonical, defaultElmVersion⟩

/-- A step of a request is the first to fail, with a failure as its cause. -/
inductive Request.FailsAt (request : Request) (world : World) : Step → Failure → Prop
  | settings {cause : Failure} (h : request.settings surroundings world.disk = .error (.failure cause)) :
      FailsAt request world .settings cause
  | projectRoot {settings : Settings} {after : World} {cause : Failure}
      (hsettings : request.settings surroundings world.disk = .ok settings)
      (h : (ManifestFile.findRoot "").run world = (.error (.failure cause), after)) :
      FailsAt request world .projectRoot cause
  | stage {settings : Settings} {canonical : Path} {start after : World} {done : List Visit}
      {visit : Visit} {trouble : Trouble} {cause : Failure}
      (hlaunch : request.Launches surroundings world settings canonical start)
      (hvisits : request.visits context settings canonical start = done ++ [visit])
      (hdone : ∀ earlier ∈ done,
        earlier.Passes context (request.options settings) ⟨canonical, defaultElmVersion⟩)
      (hrun : (perform context (request.options settings) ⟨canonical, defaultElmVersion⟩ visit.found
        visit.stage).run visit.world = (.error trouble, after))
      (hcause : failureOf? visit.stage trouble = some cause) :
      FailsAt request world (.stage visit.stage) cause

section CarryOut

variable {context surroundings} {request : Request} {world start : World} {settings : Settings}
  {canonical : Path}

theorem run_carryOut_of_settings {trouble : Trouble}
    (h : request.settings surroundings world.disk = .error trouble) :
    (request.carryOut context surroundings).run world = (.error trouble, world) := by
  simp only [Request.carryOut, run_bind, run_disk, run_ofTrouble, h]

theorem run_carryOut_of_projectRoot {trouble : Trouble} {after : World}
    (hsettings : request.settings surroundings world.disk = .ok settings)
    (h : (ManifestFile.findRoot "").run world = (.error trouble, after)) :
    (request.carryOut context surroundings).run world = (.error trouble, after) := by
  simp only [Request.carryOut, run_bind, run_disk, run_ofTrouble, hsettings, h]

theorem run_carryOut {root : Path} (hsettings : request.settings surroundings world.disk = .ok settings)
    (h : (ManifestFile.findRoot "").run world = (.ok root, start)) :
    (request.carryOut context surroundings).run world =
      (Pipeline.run context (request.options settings) root).run start := by
  simp only [Request.carryOut, run_bind, run_disk, run_ofTrouble, hsettings, h]

/-- A request that gets to its run goes through the stages and ends as they do. -/
theorem Request.Launches.exists_course
    (h : request.Launches surroundings world settings canonical start) (context : RunContext) :
    ∃ ending final outcomes,
      Course context (request.options settings) ⟨canonical, defaultElmVersion⟩ Stage.all {} start ending
        final outcomes ∧
      (request.carryOut context surroundings).run world =
        conclude (ending.map Findings.code, ⟨final, outcomes⟩) := by
  obtain ⟨root, hroot, hcanonical⟩ := h.projectRoot
  obtain ⟨ending, final, outcomes, hcourse, hrun⟩ :=
    @exists_course_of_run context (request.options settings) _ _ _ hcanonical
  exact ⟨ending, final, outcomes, hcourse, by rw [run_carryOut h.settings hroot, hrun]⟩

variable (context surroundings request world)

/-- A request is carried out without a fault that leaves it. -/
def Request.Returns : Prop :=
  ∀ fault after, (request.carryOut context surroundings).run world ≠ (.error (.fault fault), after)

variable {context surroundings request world}

/-- If all steps succeed, all stages pass. -/
theorem Request.Succeeds.exists_course (h : request.Succeeds context surroundings world) :
    ∃ settings canonical start found final outcomes,
      request.Launches surroundings world settings canonical start ∧
      Course context (request.options settings) ⟨canonical, defaultElmVersion⟩ Stage.all {} start
        (.ok found) final outcomes ∧
      (request.carryOut context surroundings).run world = (.ok ⟨outcomes, some found.code⟩, final) := by
  obtain ⟨settings, canonical, start, hlaunch, -, hpasses⟩ := h
  obtain ⟨ending, final, outcomes, hcourse, hrun⟩ := hlaunch.exists_course context
  rcases ending with (- | fault) | found
  · obtain ⟨done, visit, trouble, after, cause, hvisits, -, herror, -⟩ := hcourse.exists_failed_visit rfl
    obtain ⟨_, _, hpass⟩ := hpasses visit (by rw [visits, hvisits]; simp)
    rw [herror] at hpass
    cases hpass
  · obtain ⟨visit, hlast, herror, -⟩ := hcourse.exists_last_visit rfl
    obtain ⟨_, _, hpass⟩ := hpasses visit (List.mem_of_getLast? hlast)
    rw [herror] at hpass
    cases hpass
  · exact ⟨settings, canonical, start, found, final, outcomes, hlaunch, hcourse, hrun⟩

/-- What is left then is the exit code of node. -/
theorem Request.Succeeds.exists_result (h : request.Succeeds context surroundings world) :
    ∃ result final, (request.carryOut context surroundings).run world = (.ok result, final) ∧
      result.failure? = none ∧
      result.supervisorCode = some (NodeProcess.exitCode context.tools.node.code) := by
  obtain ⟨_, _, _, found, final, outcomes, -, hcourse, hrun⟩ := h.exists_course
  exact ⟨_, final, hrun, hcourse.find?_of_passed rfl,
    congrArg some (Course.code Stage.all.dropLast hcourse)⟩

/-- A failing step is reported, as a failure of the request or as that of a stage. -/
theorem Request.FailsAt.exists_report {step : Step} {cause : Failure}
    (h : request.FailsAt context surroundings world step cause) :
    (∃ after, (request.carryOut context surroundings).run world = (.error (.failure cause), after)) ∨
    ∃ result final stage, (request.carryOut context surroundings).run world = (.ok result, final) ∧
      result.failure? = some (.failed stage cause) := by
  cases h with
  | settings h => exact .inl ⟨world, run_carryOut_of_settings h⟩
  | projectRoot hsettings h => exact .inl ⟨_, run_carryOut_of_projectRoot hsettings h⟩
  | @stage settings canonical start after done visit trouble _ hlaunch hvisits hdone herror hcause =>
      right
      obtain ⟨ending, final, outcomes, hcourse, hrun⟩ := hlaunch.exists_course context
      have hending : ∀ fault, ending ≠ .error (.fault fault) := by
        intro fault hending
        obtain ⟨last, hlast, hfault, hnone⟩ := hcourse.exists_last_visit hending
        rw [visits] at hvisits
        rw [hvisits, List.getLast?_concat, Option.some.injEq] at hlast
        subst hlast
        rw [herror] at hfault
        cases hfault
        rw [hnone] at hcause
        cases hcause
      have hmem : visit ∈ request.visits context settings canonical start := by
        rw [hvisits]
        simp
      obtain ⟨known, hknown, hfind⟩ := hcourse.find?_failed hending visit hmem trouble after herror
      rw [hcause] at hknown
      cases hknown
      rcases ending with (- | fault) | found
      · exact ⟨_, final, _, hrun, hfind⟩
      · exact absurd rfl (hending fault)
      · exact ⟨_, final, _, hrun, hfind⟩

/-- Either all steps of a request succeed or one of them is the first to fail. -/
theorem Request.Returns.succeeds_or_fails (h : request.Returns context surroundings world) :
    request.Succeeds context surroundings world ∨
      ∃ step cause, request.FailsAt context surroundings world step cause := by
  rcases hsettings : request.settings surroundings world.disk with (cause | fault) | settings
  · exact .inr ⟨_, cause, .settings hsettings⟩
  · exact absurd (run_carryOut_of_settings hsettings) (h fault world)
  rcases hroot : (ManifestFile.findRoot "").run world with ⟨(cause | fault) | root, start⟩
  · exact .inr ⟨_, cause, .projectRoot hsettings hroot⟩
  · exact absurd (run_carryOut_of_projectRoot hsettings hroot) (h fault start)
  cases hlocate : start.disk.locateLeniently root with
  | error fault =>
      have hlost : (Act.locateLeniently root).run start = (.error (.fault fault), start) := by
        rw [Act.locateLeniently, run_look, hlocate]
        rfl
      refine absurd ?_ (h fault start)
      rw [run_carryOut hsettings hroot, Pipeline.run, run_bind, hlost]
  | ok canonical =>
      have hlaunch : request.Launches surroundings world settings canonical start :=
        ⟨hsettings, root, hroot, hlocate⟩
      obtain ⟨ending, final, outcomes, hcourse, hrun⟩ := hlaunch.exists_course context
      rcases ending with (- | fault) | found
      · obtain ⟨done, visit, trouble, after, cause, hvisits, hdone, herror, hcause, -⟩ :=
          hcourse.exists_failed_visit rfl
        exact .inr ⟨_, cause, .stage hlaunch hvisits hdone herror hcause⟩
      · exact absurd hrun (h fault final)
      · refine .inl ⟨settings, canonical, start, hlaunch, ?_, hcourse.forall_passes rfl⟩
        rw [Request.visits, ← hcourse.map_stage (by simp)]
        exact hcourse.map_stage_of_ok rfl

end CarryOut

/-- How a request exits with a code. -/
structure Request.Exits (request : Request) (world : World) (exitCode : Int) : Prop where
  /-- Either all steps succeed or one is the first to fail. -/
  decided : request.Succeeds context surroundings world ∨
    ∃ step cause, request.FailsAt context surroundings world step cause
  /-- Success is that of all steps and of node. -/
  success : exitCode = 0 ↔
    request.Succeeds context surroundings world ∧ context.tools.node.code = some 0
  /-- If all steps succeed, the code is that of node. -/
  node : request.Succeeds context surroundings world →
    ∀ code, context.tools.node.code = some code → 0 ≤ code → exitCode = code
  /-- It is one if node is ended from outside or has no code. -/
  ended : request.Succeeds context surroundings world →
    (∀ code, context.tools.node.code = some code → code < 0) → exitCode = 1
  /-- If a step fails, the code is that of its failure: two for mistakes of the user or the
  surroundings, one for others. -/
  failed : ∀ step cause, request.FailsAt context surroundings world step cause →
    exitCode = cause.exitCode ∧
      cause.exitCode = if cause.kind = .userInput ∨ cause.kind = .environment then 2 else 1
  /-- No code of the supervisor changes that. -/
  kept : ∀ step cause, request.FailsAt context surroundings world step cause →
    ∀ result after, (request.carryOut context surroundings).run world = (.ok result, after) →
      ∀ supervisorCode, (request.answer (.ok { result with supervisorCode }, after)).exitCode = exitCode

/-- The exit code of a command line that asks for a run says whether all of it went well, and if not
what went wrong first, unless a fault leaves the program. -/
theorem answer_exits {environment : Option String} {words : List String} {world : World}
    {request : Request} (hcommand : Command.ofWords world.disk environment words = .ok (.run request))
    (hfault : (answer context surroundings environment words world).1.fault = none) :
    request.Exits context surroundings world
      (answer context surroundings environment words world).1.exitCode := by
  have hanswer : (answer context surroundings environment words world).1 =
      request.answer ((request.carryOut context surroundings).run world) := by
    rw [answer, hcommand]
  rw [hanswer] at hfault ⊢
  have hreturns : request.Returns context surroundings world := by
    intro fault after hrun
    rw [hrun] at hfault
    cases hfault
  have hsucceeds (h : request.Succeeds context surroundings world) :
      (request.answer ((request.carryOut context surroundings).run world)).exitCode =
        NodeProcess.exitCode context.tools.node.code := by
    obtain ⟨result, final, hrun, hnone, hcode⟩ := h.exists_result
    rw [hrun, Request.answer, RunResult.exitCode, hnone, hcode]
    rfl
  have hfails {step : Step} {cause : Failure}
      (h : request.FailsAt context surroundings world step cause) :
      (request.answer ((request.carryOut context surroundings).run world)).exitCode = cause.exitCode := by
    rcases h.exists_report with ⟨after, hrun⟩ | ⟨result, final, stage, hrun, hfailure⟩
    · rw [hrun, Request.answer]
    · rw [hrun, Request.answer, RunResult.exitCode, hfailure]
      rfl
  exact
    { decided := hreturns.succeeds_or_fails
      success := by
        constructor
        · intro hzero
          rcases hreturns.succeeds_or_fails with h | ⟨step, cause, h⟩
          · exact ⟨h, NodeProcess.exitCode_eq_zero.1 ((hsucceeds h).symm.trans hzero)⟩
          · exact absurd ((hfails h).symm.trans hzero) cause.exitCode_ne_zero
        · rintro ⟨h, hnode⟩
          exact (hsucceeds h).trans (NodeProcess.exitCode_eq_zero.2 hnode)
      node := fun h code hnode hcode => by
        rw [hsucceeds h, hnode, NodeProcess.exitCode, if_neg (by omega)]
      ended := fun h hnode => by
        rw [hsucceeds h]
        cases hcode : context.tools.node.code with
        | none => rfl
        | some code => rw [NodeProcess.exitCode, if_pos (hnode code hcode)]
      failed := fun step cause h => ⟨hfails h, cause.exitCode_eq⟩
      kept := fun step cause h result after hrun supervisorCode => by
        rw [hfails h]
        rcases h.exists_report with ⟨_, hrun'⟩ | ⟨_, _, stage, hrun', hfailure⟩
        · rw [hrun] at hrun'
          cases hrun'
        · rw [hrun] at hrun'
          cases hrun'
          have hsame := (show ({ result with supervisorCode } : RunResult).failure? = _ from hfailure)
          rw [Request.answer, RunResult.exitCode, hsame]
          rfl }

/-- The small project, seen from its root. -/
def smallWorld : World where
  disk := { smallProject with cwd := ["p"] }

/-- Surroundings that draw one as the seed. -/
def drawnOne : Surroundings where
  seed := ⟨1, by decide⟩
  processors := none

/-- A bare command line in a project whose tests do not compile exits with one. -/
theorem answer_exits_of_rejected_tests :
    ∃ request, Command.ofWords smallWorld.disk none [] = .ok (.run request) ∧
      (answer (smallContext 1) drawnOne none [] smallWorld).1.fault = none ∧
      request.Exits (smallContext 1) drawnOne smallWorld 1 := by
  have hcommand : Command.ofWords smallWorld.disk none [] =
      .ok (.run ⟨[], none, none, none, none, none, none, false⟩) := by
    decide +kernel
  have hends : (answer (smallContext 1) drawnOne none [] smallWorld).1.fault = none ∧
      (answer (smallContext 1) drawnOne none [] smallWorld).1.exitCode = 1 := by
    decide +kernel
  obtain ⟨hfault, hcode⟩ := hends
  have hexits := answer_exits (smallContext 1) drawnOne hcommand hfault
  rw [hcode] at hexits
  exact ⟨_, hcommand, hfault, hexits⟩

end CommandLine

end ElmSuite
