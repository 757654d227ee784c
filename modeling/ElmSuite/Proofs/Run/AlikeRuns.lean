import ElmSuite.Proofs.Run.Visits
import ElmSuite.Proofs.World.Alike

/-!
Runs that go alike.  If every stage has the same result in two worlds that are ready for it, and leaves
them ready for the next one, two runs have the same outcomes and the same result.
-/

namespace ElmSuite.Pipeline

open Act

/-- Two worlds are ready for stages, with what has been found before: the first of the stages has the same
result in both, keeps them related, and if it gives a value, they are ready for the others. -/
structure Prepares (context : RunContext) (options : RunOptions) (layout : Layout)
    (kept : World → World → Prop) (ready : List Stage → Findings → World → World → Prop) : Prop where
  /-- Worlds stay related when the same is said in both. -/
  say : ∀ {first second}, kept first second → ∀ line : Line,
    kept { first with lines := first.lines ++ [line] } { second with lines := second.lines ++ [line] }
  related : ∀ {all found first second}, ready all found first second → kept first second
  stage : ∀ {stage rest found first second}, ready (stage :: rest) found first second →
    ∃ result first' second',
      (perform context options layout found stage).run first = (result, first') ∧
      (perform context options layout found stage).run second = (result, second') ∧
      kept first' second' ∧ ∀ next detail, result = .ok (next, detail) → ready rest next first' second'

variable {context : RunContext} {options : RunOptions} {layout : Layout} {root : Path}
  {kept : World → World → Prop} {ready : List Stage → Findings → World → World → Prop}
  {first second : World}

/-- From worlds that are ready for them, stages end alike. -/
theorem Prepares.performAll {all : List Stage} {found : Findings}
    (hprepares : Prepares context options layout kept ready) (h : ready all found first second)
    (outcomes : List Outcome) :
    ∃ ending outcomes' first' second',
      (Pipeline.performAll context options layout all found).run ⟨first, outcomes⟩ =
        (ending, ⟨first', outcomes'⟩) ∧
      (Pipeline.performAll context options layout all found).run ⟨second, outcomes⟩ =
        (ending, ⟨second', outcomes'⟩) ∧
      kept first' second' := by
  induction all generalizing found first second outcomes with
  | nil => exact ⟨.ok found, outcomes, first, second, rfl, rfl, hprepares.related h⟩
  | cons stage rest ih =>
      obtain ⟨result, first', second', hfirst, hsecond, hkept, hready⟩ := hprepares.stage h
      simp only [Pipeline.performAll, run_bind_running, performStage, run_map_running, run_stage, hfirst, hsecond]
      rcases result with (cause | fault) | ⟨next, detail⟩
      · exact ⟨_, _, _, _, rfl, rfl, hprepares.say hkept (Running.failureNote context stage cause)⟩
      · cases fault <;> exact ⟨_, _, _, _, rfl, rfl, hkept⟩
      · exact ih (hready next detail rfl) _

/-- Runs at the root of a project that start ready end alike. -/
theorem Prepares.runAt (hprepares : Prepares context options ⟨root, defaultElmVersion⟩ kept ready)
    (h : ready Stage.all {} first second) :
    ∃ result first' second',
      (Pipeline.runAt context options root).run first = (result, first') ∧
      (Pipeline.runAt context options root).run second = (result, second') ∧ kept first' second' := by
  obtain ⟨ending, outcomes, first', second', hfirst, hsecond, hkept⟩ := hprepares.performAll h []
  rw [run_runAt, run_runAt, hfirst, hsecond]
  rcases ending with (- | fault) | last <;> exact ⟨_, first', second', rfl, rfl, hkept⟩

end ElmSuite.Pipeline
