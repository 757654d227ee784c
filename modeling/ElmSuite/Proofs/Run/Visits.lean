import Mathlib.Data.List.Nodup
import ElmSuite.Proofs.World.Actions
import ElmSuite.Run.Pipeline

/-!
A run as a walk through its stages.  What the stages have found is carried along in one record, so
that every stage is one action on it, and a run is the visits that it pays to its stages, in order,
up to the first that gives no result.
-/

namespace ElmSuite.Pipeline

/-- What the stages of a run have found so far. -/
structure Findings where
  reporter : Reporter := .console
  files : List Path := []
  synthesis : Synthesis := ⟨⟨[], .ofString "", {}, {}⟩, []⟩
  modules : List TestModule := []
  code : Int := 0

variable (context : RunContext) (options : RunOptions) (layout : Layout)

/-- One stage, as an action that adds to the findings and gives the detail of its outcome. -/
def perform (found : Findings) : Stage → Act (Findings × Option String)
  | .validateOptions =>
      (fun reporter => ({ found with reporter }, some reporter.name)) <$>
        Act.ofFailure (Reporter.ofName options.report)
  | .discover =>
      (fun files => ({ found with files }, some (counted files.length "file(s)"))) <$>
        Discovery.collect options.files layout.projectRoot.toString
  | .synthesize =>
      (fun synthesis => ({ found with synthesis }, pathDetail layout.manifest)) <$>
        synthesize context layout
  | .solve =>
      (fun solved => (found, some (counted solved.names.length "package(s)"))) <$>
        solve context layout found.synthesis.app
  | .compileTests => (fun _ => (found, none)) <$> compileTests context options layout found.files
  | .findTests =>
      (fun modules =>
          ({ found with modules }, some (counted (testCount modules) "candidate test(s)"))) <$>
        findTests found.synthesis found.files
  | .generateRunner =>
      (fun path => (found, pathDetail path)) <$> Generation.runner found.modules layout.runnerSource
  | .compileRunner =>
      (fun path => (found, pathDetail path)) <$> compileRunner context options layout
  | .generateNodeRunner =>
      (fun path => (found, pathDetail path)) <$>
        Generation.nodeRunner options.seed options.fuzz layout.nodeRunner
  | .compileReporter =>
      (fun path => (found, pathDetail path)) <$> compileReporter context options layout
  | .generateSupervisor =>
      (fun path => (found, pathDetail path)) <$>
        Generation.nodeSupervisor options.workers options.seed options.fuzz found.reporter
          layout.nodeSupervisor
  | .supervise =>
      (fun code => ({ found with code }, some ("exit code " ++ toString code))) <$>
        supervise context layout

/-- One stage of a run. -/
def performStage (stage : Stage) (found : Findings) : Running Findings :=
  Prod.fst <$> Running.stage context stage Prod.snd (perform context options layout found stage)

/-- Stages of a run, one after the other. -/
def performAll : List Stage → Findings → Running Findings
  | [], found => pure found
  | stage :: rest, found => do
      performAll rest (← performStage context options layout stage found)

theorem run_bind_running {α β : Type} (part : Running α) (next : α → Running β) (state : RunState) :
    (part >>= next).run state =
      match part.run state with
      | (.ok value, after) => (next value).run after
      | (.error ending, after) => (.error ending, after) := by
  unfold ExceptT.run
  simp only [bind, ExceptT.bind, ExceptT.mk, StateT.bind]
  rcases part state with ⟨_ | _, after⟩ <;> rfl

theorem run_map_running {α β : Type} (f : α → β) (part : Running α) (state : RunState) :
    (f <$> part).run state = ((part.run state).1.map f, (part.run state).2) := by
  rw [map_eq_pure_bind, run_bind_running]
  rcases part.run state with ⟨_ | _, after⟩ <;> rfl

theorem run_stage {α : Type} (stage : Stage) (detail : α → Option String) (act : Act α)
    (state : RunState) :
    (Running.stage context stage detail act).run state =
      match act.run state.world with
      | (.ok value, world) =>
          (.ok value, Running.after state world (.passed stage (detail value)))
      | (.error (.failure cause), world) =>
          (.error .failed,
            Running.after state
              { world with lines := world.lines ++ [Running.failureNote context stage cause] }
              (.failed stage cause))
      | (.error (.fault (.os error)), world) =>
          (.error .failed, Running.after state world (.failed stage (Running.refused stage error)))
      | (.error (.fault fault), world) => (.error (.fault fault), { state with world }) :=
  rfl

theorem stage_map {α β : Type} (stage : Stage) (f : α → β) (detail : α → Option String) (act : Act α) :
    Prod.fst <$> Running.stage context stage Prod.snd ((fun value => (f value, detail value)) <$> act) =
      f <$> Running.stage context stage detail act := by
  funext state
  change (Prod.fst <$> _ : Running β).run state = (f <$> _ : Running β).run state
  rw [run_map_running, run_map_running, run_stage, run_stage, Act.run_map]
  rcases act.run state.world with ⟨trouble | value, world⟩
  · rcases trouble with cause | fault
    · rfl
    · cases fault <;> rfl
  · rfl

/-- The stages of a run are those of the walk. -/
theorem stages_eq :
    stages context options layout = Findings.code <$> performAll context options layout Stage.all {} := by
  simp only [stages, Stage.all, performAll, performStage, perform, stage_map]
  simp only [map_eq_pure_bind, bind_assoc, pure_bind, bind_pure]

/-- A run is concluded from what its stages have found. -/
theorem run_runAt (root : Path) (world : World) :
    (runAt context options root).run world =
      conclude (((performAll context options ⟨root, defaultElmVersion⟩ Stage.all {}).run ⟨world, []⟩).map
        (Except.map Findings.code) id) := by
  change conclude ((stages context options ⟨root, defaultElmVersion⟩).run ⟨world, []⟩) = _
  rw [stages_eq, run_map_running]
  rfl

/-- A visit that a run pays to a stage: what was found before it, and the world in which it
starts. -/
structure Visit where
  stage : Stage
  found : Findings
  world : World

/-- The visits that a run pays to stages, up to the first that gives no result. -/
def visits : List Stage → Findings → World → List Visit
  | [], _, _ => []
  | stage :: rest, found, world =>
      ⟨stage, found, world⟩ ::
        match (perform context options layout found stage).run world with
        | (.ok (next, _), after) => visits rest next after
        | (.error _, _) => []

/-- The failure that a trouble is for a stage, unless it leaves the run. -/
def failureOf? (stage : Stage) : Trouble → Option Failure
  | .failure cause => some cause
  | .fault (.os error) => some (Running.refused stage error)
  | .fault _ => none

/-- How stages go: how they end, the world after them, and their outcomes. -/
inductive Course :
    List Stage → Findings → World → Except Interruption Findings → World → List Outcome → Prop
  | finished {found : Findings} {world : World} : Course [] found world (.ok found) world []
  | passed {stage : Stage} {rest : List Stage} {found next : Findings} {world between after : World}
      {detail : Option String} {ending : Except Interruption Findings} {outcomes : List Outcome}
      (hrun : (perform context options layout found stage).run world = (.ok (next, detail), between))
      (hrest : Course rest next between ending after outcomes) :
      Course (stage :: rest) found world ending after (.passed stage detail :: outcomes)
  | failed {stage : Stage} {rest : List Stage} {found : Findings} {world between after : World}
      {trouble : Trouble} {cause : Failure}
      (hrun : (perform context options layout found stage).run world = (.error trouble, between))
      (hcalls : after.calls = between.calls) (hdisk : after.disk = between.disk)
      (hcause : failureOf? stage trouble = some cause) :
      Course (stage :: rest) found world (.error .failed) after [.failed stage cause]
  | left {stage : Stage} {rest : List Stage} {found : Findings} {world between : World} {fault : Fault}
      (hrun : (perform context options layout found stage).run world = (.error (.fault fault), between))
      (hfault : failureOf? stage (.fault fault) = none) :
      Course (stage :: rest) found world (.error (.fault fault)) between []

variable {context options layout}

/-- A run of stages goes some course. -/
theorem course_of_performAll {all : List Stage} {found : Findings} {state final : RunState}
    {ending : Except Interruption Findings}
    (h : (performAll context options layout all found).run state = (ending, final)) :
    ∃ outcomes, final.outcomes = state.outcomes ++ outcomes ∧
      Course context options layout all found state.world ending final.world outcomes := by
  induction all generalizing found state with
  | nil =>
      cases h
      exact ⟨[], (List.append_nil _).symm, .finished⟩
  | cons stage rest ih =>
      rw [performAll, run_bind_running, performStage, run_map_running, run_stage] at h
      rcases hrun : (perform context options layout found stage).run state.world with
        ⟨trouble | ⟨next, detail⟩, between⟩
      · rw [hrun] at h
        rcases trouble with cause | fault
        · cases h
          exact ⟨_, rfl, .failed hrun rfl rfl rfl⟩
        · cases fault with
          | os error =>
              cases h
              exact ⟨_, rfl, .failed hrun rfl rfl rfl⟩
          | _ =>
              cases h
              exact ⟨[], (List.append_nil _).symm, .left hrun rfl⟩
      · rw [hrun] at h
        obtain ⟨outcomes, houtcomes, hcourse⟩ := ih h
        refine ⟨.passed stage detail :: outcomes, ?_, .passed hrun hcourse⟩
        rw [houtcomes]
        exact List.append_assoc _ _ _

/-- The failure of a stage is what went wrong, or a refusal in the words of the generated project. -/
theorem cases_failureOf? {stage : Stage} {trouble : Trouble} {cause : Failure}
    (h : failureOf? stage trouble = some cause) :
    trouble = .failure cause ∨ ∃ words, cause = .generatedProject words := by
  rcases trouble with other | fault
  · exact .inl (congrArg _ (Option.some.inj h))
  · cases fault with
    | os error => exact .inr ⟨_, (Option.some.inj h).symm⟩
    | _ => cases h

/-- The outcomes of a run of all stages are those of its course. -/
theorem exists_course_of_stages {start : World} {ending : Except Interruption Int} {state : RunState}
    (h : (stages context options layout).run ⟨start, []⟩ = (ending, state)) :
    ∃ result, Course context options layout Stage.all {} start result state.world state.outcomes := by
  rw [stages_eq, run_map_running] at h
  rcases hall : (performAll context options layout Stage.all {}).run ⟨start, []⟩ with ⟨result, last⟩
  rw [hall] at h
  obtain ⟨-, rfl⟩ := Prod.mk.inj h
  obtain ⟨outcomes, houtcomes, hcourse⟩ := course_of_performAll hall
  rw [List.nil_append] at houtcomes
  rw [houtcomes]
  exact ⟨result, hcourse⟩

theorem map_stage_visits_prefix (all : List Stage) (found : Findings) (world : World) :
    (visits context options layout all found world).map Visit.stage <+: all := by
  induction all generalizing found world with
  | nil => exact List.nil_prefix
  | cons stage rest ih =>
      rw [visits, List.map_cons]
      apply List.prefix_cons_inj stage |>.2
      split
      · exact ih _ _
      · exact List.nil_prefix

theorem visits_cons {stage : Stage} {rest : List Stage} {found next : Findings} {world between : World}
    {detail : Option String}
    (h : (perform context options layout found stage).run world = (.ok (next, detail), between)) :
    visits context options layout (stage :: rest) found world =
      ⟨stage, found, world⟩ :: visits context options layout rest next between := by
  rw [visits, h]

theorem mem_visits_singleton {stage : Stage} {found : Findings} {world : World} {visit : Visit} :
    visit ∈ visits context options layout [stage] found world ↔ visit = ⟨stage, found, world⟩ := by
  have hvisits : visits context options layout [stage] found world = [⟨stage, found, world⟩] := by
    rw [visits]
    split <;> rfl
  rw [hvisits, List.mem_singleton]

/-- What every stage that passes hands on to the stages that are still to come holds at every visit. -/
theorem forall_visits {P : List Stage → Findings → World → Prop} {all : List Stage} {found : Findings}
    {world : World}
    (hstep : ∀ stage rest found world next detail between, stage :: rest <:+ all →
      P (stage :: rest) found world →
      (perform context options layout found stage).run world = (.ok (next, detail), between) →
        P rest next between)
    (hstart : P all found world) :
    ∀ visit ∈ visits context options layout all found world,
      ∃ rest, visit.stage :: rest <:+ all ∧ P (visit.stage :: rest) visit.found visit.world := by
  induction all generalizing found world with
  | nil => exact fun visit hvisit => absurd hvisit List.not_mem_nil
  | cons stage rest ih =>
      rw [visits, List.forall_mem_cons]
      refine ⟨⟨rest, List.suffix_rfl, hstart⟩, fun visit hvisit => ?_⟩
      split at hvisit
      · next next detail between hrun =>
        obtain ⟨coming, hsuffix, hcoming⟩ := ih (fun later more found world next detail between hsuffix =>
          hstep later more found world next detail between (hsuffix.trans (List.suffix_cons stage rest)))
          (hstep stage rest found world next detail between List.suffix_rfl hstart hrun) visit hvisit
        exact ⟨coming, hsuffix.trans (List.suffix_cons stage rest), hcoming⟩
      · cases hvisit

section Course

variable {all : List Stage} {found : Findings} {world after : World}
  {ending : Except Interruption Findings} {outcomes : List Outcome}

/-- The outcomes are those of stages that passed, and after them that of a stage that failed if the
stages end so. -/
theorem Course.exists_split (h : Course context options layout all found world ending after outcomes) :
    ∃ passed last, outcomes = passed ++ last ∧ (∀ outcome ∈ passed, outcome.ok = true) ∧
      (ending = .error .failed ∧ (∃ stage cause, last = [.failed stage cause]) ∨
        ending ≠ .error .failed ∧ last = []) := by
  induction h with
  | finished => exact ⟨[], [], rfl, by simp, Or.inr ⟨by simp, rfl⟩⟩
  | passed hrun _ ih =>
      obtain ⟨passed, last, rfl, hpassed, hlast⟩ := ih
      refine ⟨_ :: passed, last, rfl, ?_, hlast⟩
      rw [List.forall_mem_cons]
      exact ⟨rfl, hpassed⟩
  | failed hrun hcalls => exact ⟨[], _, rfl, by simp, Or.inl ⟨rfl, _, _, rfl⟩⟩
  | left hrun => exact ⟨[], [], rfl, by simp, Or.inr ⟨by simp, rfl⟩⟩

/-- Unless a fault ends the stages, there is an outcome for every visit. -/
theorem Course.map_stage (h : Course context options layout all found world ending after outcomes)
    (hending : ∀ fault, ending ≠ .error (.fault fault)) :
    outcomes.map Outcome.stage =
      (visits context options layout all found world).map Visit.stage := by
  induction h with
  | finished => rfl
  | passed hrun _ ih =>
      rw [visits, hrun, List.map_cons, List.map_cons, ih hending]
      rfl
  | failed hrun hcalls =>
      rw [visits, hrun]
      rfl
  | left hrun => exact absurd rfl (hending _)

/-- A fault that leaves the stages is that of the last visit. -/
theorem Course.exists_last_visit {fault : Fault}
    (h : Course context options layout all found world ending after outcomes)
    (hending : ending = .error (.fault fault)) :
    ∃ visit, (visits context options layout all found world).getLast? = some visit ∧
      (perform context options layout visit.found visit.stage).run visit.world =
        (.error (.fault fault), after) ∧ failureOf? visit.stage (.fault fault) = none := by
  induction h with
  | finished => cases hending
  | passed hrun _ ih =>
      obtain ⟨visit, hlast, hvisit⟩ := ih hending
      exact ⟨visit, by rw [visits_cons hrun, List.getLast?_cons, hlast, Option.getD_some], hvisit⟩
  | failed hrun hcalls => cases hending
  | @left stage rest found world between fault' hrun hfault =>
      cases hending
      exact ⟨⟨stage, found, world⟩, by rw [visits, hrun]; rfl, hrun, hfault⟩

/-- Unless a fault ends the stages, what goes wrong in one of them is the failure of its outcome, and
there is no other failure. -/
theorem Course.find?_failed (h : Course context options layout all found world ending after outcomes)
    (hending : ∀ fault, ending ≠ .error (.fault fault)) :
    ∀ visit ∈ visits context options layout all found world, ∀ trouble between,
      (perform context options layout visit.found visit.stage).run visit.world =
        (.error trouble, between) →
      ∃ cause, failureOf? visit.stage trouble = some cause ∧
        outcomes.find? (fun outcome => !outcome.ok) = some (.failed visit.stage cause) := by
  induction h with
  | finished => exact fun visit hvisit => absurd hvisit List.not_mem_nil
  | passed hrun _ ih =>
      rw [visits_cons hrun, List.forall_mem_cons]
      refine ⟨fun trouble between herror => ?_, fun visit hvisit trouble between herror => ?_⟩
      · rw [hrun] at herror
        cases herror
      · obtain ⟨cause, hcause, hfind⟩ := ih hending visit hvisit trouble between herror
        exact ⟨cause, hcause, by rw [List.find?_cons_of_neg (by simp [Outcome.passed]), hfind]⟩
  | @failed stage rest found world between after trouble cause hrun hcalls hdisk hcause =>
      have hvisits : visits context options layout (stage :: rest) found world =
          [⟨stage, found, world⟩] := by rw [visits, hrun]
      rw [hvisits, List.forall_mem_singleton]
      intro other later herror
      rw [hrun] at herror
      cases herror
      exact ⟨cause, hcause, rfl⟩
  | left hrun => exact absurd rfl (hending _)

/-- If all stages pass, all are visited. -/
theorem Course.map_stage_of_ok (h : Course context options layout all found world ending after outcomes)
    {last : Findings} (hending : ending = .ok last) : outcomes.map Outcome.stage = all := by
  induction h with
  | finished => rfl
  | passed hrun _ ih =>
      rw [List.map_cons, ih hending]
      rfl
  | failed hrun hcalls => cases hending
  | left hrun => cases hending

/-- A stage that is visited before another has passed. -/
theorem Course.passed_of_earlier
    (h : Course context options layout all found world ending after outcomes)
    {done later : List Visit} {visit : Visit}
    (hvisits : visits context options layout all found world = done ++ visit :: later) :
    ∀ earlier ∈ done, (∃ next detail between, .passed earlier.stage detail ∈ outcomes ∧
      (perform context options layout earlier.found earlier.stage).run earlier.world =
        (.ok (next, detail), between)) := by
  induction h generalizing done with
  | finished => simp [visits] at hvisits
  | @passed stage rest found next world between after detail ending outcomes hrun _ ih =>
      rw [visits, hrun] at hvisits
      intro earlier hearlier
      rcases done with _ | ⟨first, done⟩
      · cases hearlier
      · rw [List.cons_append, List.cons.injEq] at hvisits
        obtain ⟨rfl, hrest⟩ := hvisits
        rcases List.mem_cons.1 hearlier with rfl | hearlier
        · exact ⟨next, detail, between, List.mem_cons_self, hrun⟩
        · obtain ⟨next', detail', between', hmem, hrun'⟩ := ih hrest earlier hearlier
          exact ⟨next', detail', between', List.mem_cons_of_mem _ hmem, hrun'⟩
  | failed hrun hcalls =>
      rw [visits, hrun] at hvisits
      rcases done with _ | ⟨first, done⟩
      · simp
      · simp at hvisits
  | left hrun =>
      rw [visits, hrun] at hvisits
      rcases done with _ | ⟨first, done⟩
      · simp
      · simp at hvisits

/-- Stages that pass lead from one world to another, and all relations that they keep hold between
the two. -/
theorem Course.keeps {relation : World → World → Prop} (hrel : Act.Lasting relation)
    (hkeeps : ∀ stage ∈ all, ∀ found, (perform context options layout found stage).Keeps relation)
    (h : Course context options layout all found world ending after outcomes) {last : Findings}
    (hending : ending = .ok last) : relation world after := by
  induction h with
  | finished => exact hrel.refl _
  | @passed stage rest found next world between after detail ending outcomes hrun _ ih =>
      rw [List.forall_mem_cons] at hkeeps
      have hfirst := hkeeps.1 found world
      rw [hrun] at hfirst
      exact hrel.trans hfirst (ih hkeeps.2 hending)
  | failed hrun hcalls => cases hending
  | left hrun => cases hending

/-- What every stage hands on to the stages that are still to come holds at every visit, and at the
end. -/
theorem Course.holds {P : List Stage → Disk → Prop}
    (hstep : ∀ stage rest found world, stage :: rest <:+ all → P (stage :: rest) world.disk →
      P rest ((perform context options layout found stage).run world).2.disk)
    (h : Course context options layout all found world ending after outcomes)
    (hstart : P all world.disk) :
    (∀ visit ∈ visits context options layout all found world, ∃ coming, P coming visit.world.disk) ∧
      ∃ coming, P coming after.disk := by
  induction h with
  | finished => exact ⟨by simp [visits], [], hstart⟩
  | @passed stage rest found next world between after detail ending outcomes hrun _ ih =>
      have hbetween := hstep stage rest found world List.suffix_rfl hstart
      rw [hrun] at hbetween
      obtain ⟨hvisits, hafter⟩ := ih (fun later more found world hsuffix =>
        hstep later more found world (hsuffix.trans (List.suffix_cons stage rest))) hbetween
      rw [visits_cons hrun, List.forall_mem_cons]
      exact ⟨⟨⟨_, hstart⟩, hvisits⟩, hafter⟩
  | @failed stage rest found world between after trouble cause hrun _ hdisk =>
      have hbetween := hstep stage rest found world List.suffix_rfl hstart
      rw [hrun] at hbetween
      rw [visits, hrun, hdisk]
      exact ⟨List.forall_mem_singleton.2 ⟨_, hstart⟩, _, hbetween⟩
  | @left stage rest found world between fault hrun =>
      have hbetween := hstep stage rest found world List.suffix_rfl hstart
      rw [hrun] at hbetween
      rw [visits, hrun]
      exact ⟨List.forall_mem_singleton.2 ⟨_, hstart⟩, _, hbetween⟩

/-- The visits to stages that pass come before those to the stages behind them. -/
theorem Course.visits_append (h : Course context options layout all found world ending after outcomes)
    {last : Findings} (hending : ending = .ok last) (back : List Stage) :
    visits context options layout (all ++ back) found world =
      visits context options layout all found world ++ visits context options layout back last after := by
  induction h with
  | finished =>
      cases hending
      rfl
  | passed hrun _ ih =>
      rw [List.cons_append, visits, visits, hrun, List.cons_append]
      dsimp only
      rw [ih hending]
  | failed hrun hcalls => cases hending
  | left hrun => cases hending

/-- Stages that pass are split into those in front and those behind. -/
theorem Course.split {front back : List Stage} {last : Findings}
    (h : Course context options layout (front ++ back) found world (.ok last) after outcomes) :
    ∃ next between first second, Course context options layout front found world (.ok next) between first ∧
      Course context options layout back next between (.ok last) after second := by
  induction front generalizing found world outcomes with
  | nil => exact ⟨found, world, [], outcomes, .finished, h⟩
  | cons stage rest ih =>
      cases h with
      | passed hrun hrest =>
          obtain ⟨next, between, first, second, hfirst, hsecond⟩ := ih hrest
          exact ⟨next, between, _, second, .passed hrun hfirst, hsecond⟩

/-- If all stages pass, each of them is visited. -/
theorem Course.exists_visit {stage : Stage} {last : Findings} (hstage : stage ∈ all)
    (h : Course context options layout all found world (.ok last) after outcomes) :
    ∃ visit ∈ visits context options layout all found world, visit.stage = stage := by
  have hstages := h.map_stage (fun _ => by simp)
  rw [h.map_stage_of_ok rfl] at hstages
  rw [hstages] at hstage
  exact List.mem_map.1 hstage

/-- If some stage passes, so does the first. -/
theorem Course.exists_cons {stage : Stage} {rest : List Stage} {outcome : Outcome}
    (h : Course context options layout (stage :: rest) found world ending after outcomes)
    (hmem : outcome ∈ outcomes) (hok : outcome.ok = true) :
    ∃ next detail between later,
      (perform context options layout found stage).run world = (.ok (next, detail), between) ∧
      Course context options layout rest next between ending after later ∧
      outcomes = .passed stage detail :: later := by
  cases h with
  | passed hrun hrest => exact ⟨_, _, _, _, hrun, hrest, rfl⟩
  | failed hrun hcalls =>
      rw [List.mem_singleton.1 hmem] at hok
      cases hok
  | left hrun => cases hmem

/-- A stage that passes, unless it is the first, is one of those behind. -/
theorem Course.head_passed {stage : Stage} {rest : List Stage} {outcome : Outcome}
    (h : Course context options layout (stage :: rest) found world ending after outcomes)
    (hmem : outcome ∈ outcomes) (hok : outcome.ok = true) :
    ∃ next detail between outcomes',
      (perform context options layout found stage).run world = (.ok (next, detail), between) ∧
      Course context options layout rest next between ending after outcomes' ∧
      (stage ≠ outcome.stage → outcome ∈ outcomes') := by
  obtain ⟨next, detail, between, later, hrun, hrest, rfl⟩ := h.exists_cons hmem hok
  refine ⟨next, detail, between, later, hrun, hrest, fun hne => ?_⟩
  rcases List.mem_cons.1 hmem with rfl | hmem
  · exact absurd rfl hne
  · exact hmem

/-- Every visit has its outcome, unless a fault leaves the run from it. -/
theorem Course.exists_outcome (h : Course context options layout all found world ending after outcomes)
    {visit : Visit}
    (hvisit : visit ∈ visits context options layout all found world) :
    (∃ next detail between, (perform context options layout visit.found visit.stage).run visit.world =
        (.ok (next, detail), between) ∧ .passed visit.stage detail ∈ outcomes) ∨
      ∃ trouble between, (perform context options layout visit.found visit.stage).run visit.world =
        (.error trouble, between) ∧
        ∀ cause, failureOf? visit.stage trouble = some cause → .failed visit.stage cause ∈ outcomes := by
  induction h with
  | finished => cases hvisit
  | passed hrun _ ih =>
      rw [visits_cons hrun] at hvisit
      rcases List.mem_cons.1 hvisit with rfl | hvisit
      · exact .inl ⟨_, _, _, hrun, List.mem_cons_self⟩
      · rcases ih hvisit with ⟨next, detail, later, hperform, hmem⟩ | ⟨trouble, later, hperform, hmem⟩
        · exact .inl ⟨next, detail, later, hperform, List.mem_cons_of_mem _ hmem⟩
        · exact .inr ⟨trouble, later, hperform, fun cause hcause =>
            List.mem_cons_of_mem _ (hmem cause hcause)⟩
  | failed hrun _ _ hcause =>
      rw [visits, hrun, List.mem_singleton] at hvisit
      subst hvisit
      refine .inr ⟨_, _, hrun, fun cause hother => ?_⟩
      rw [hcause, Option.some.injEq] at hother
      rw [hother]
      exact List.mem_cons_self
  | left hrun hfault =>
      rw [visits, hrun, List.mem_singleton] at hvisit
      subst hvisit
      refine .inr ⟨_, _, hrun, fun cause hother => ?_⟩
      rw [hfault] at hother
      cases hother

theorem Course.map_stage_prefix (h : Course context options layout all found world ending after outcomes) :
    outcomes.map Outcome.stage <+: all := by
  induction h with
  | finished => exact List.nil_prefix
  | passed _ _ ih => exact (List.prefix_cons_inj _).2 ih
  | failed => exact (List.prefix_cons_inj _).2 List.nil_prefix
  | left => exact List.nil_prefix

/-- A stage has one outcome. -/
theorem Course.outcome_unique
    (h : Course context options layout Stage.all found world ending after outcomes)
    {first second : Outcome} (hfirst : first ∈ outcomes) (hsecond : second ∈ outcomes)
    (hstage : first.stage = second.stage) : first = second :=
  List.inj_on_of_nodup_map (Stage.all_nodup.sublist h.map_stage_prefix.sublist) hfirst hsecond hstage

theorem Course.exists_perform {stage : Stage} {next : Findings}
    (h : Course context options layout [stage] found world (.ok next) after outcomes) :
    ∃ detail, (perform context options layout found stage).run world = (.ok (next, detail), after) := by
  cases h with
  | passed hrun hrest =>
      cases hrest
      exact ⟨_, hrun⟩

end Course

/-- Before a stage is visited, all stages in front of it pass. -/
theorem exists_course_of_mem_visits {front back : List Stage} {found : Findings} {world : World}
    {visit : Visit} (h : visit ∈ visits context options layout (front ++ back) found world)
    (hfront : visit.stage ∉ front) :
    ∃ next between outcomes, Course context options layout front found world (.ok next) between outcomes ∧
      visit ∈ visits context options layout back next between := by
  induction front generalizing found world with
  | nil => exact ⟨found, world, [], .finished, h⟩
  | cons stage rest ih =>
      rw [List.mem_cons, not_or] at hfront
      rw [List.cons_append, visits] at h
      rcases List.mem_cons.1 h with rfl | h
      · exact absurd rfl hfront.1
      · split at h
        · next next detail between hrun =>
          obtain ⟨last, after, outcomes, hcourse, hmem⟩ := ih h hfront.2
          exact ⟨last, after, _, .passed hrun hcourse, hmem⟩
        · cases h

end ElmSuite.Pipeline
