import ElmSuite.Proofs.Run.QuietTools

/-!
Scripts that stay as they are written.  Every stage from the compilation of the runner on writes one
script of its own, so a script keeps its bytes through all stages that write another.
-/

namespace ElmSuite

open Act

theorem readBytes_of_find {disk : Disk} {path : String} {location : List String} {bytes : List UInt8}
    (h : disk.find path = .ok (location, .file bytes)) : disk.readBytes path = .ok bytes := by
  unfold Disk.readBytes
  rw [h]
  rfl

/-- What it takes to write a text from a template. -/
theorem Generation.exists_write_of_fromAsset {asset : Asset} {output value : Path}
    {values : OrderedMap String (List Char)} {world after : World}
    (h : (fromAsset asset output values).run world = (.ok value, after)) :
    ∃ text made, Template.render asset.text values (some asset.fileName) = .ok text ∧
      Disk.makeFolders output.parent world.disk = (.ok (), made) ∧
      made.writeText output.toString text = .ok after.disk := by
  obtain ⟨text, _, hrender, h⟩ := run_bind_eq_ok.1 h
  obtain ⟨htext, rfl⟩ := run_ofFailure_eq_ok.1 hrender
  obtain ⟨_, between, hfolders, h⟩ := run_bind_eq_ok.1 h
  obtain ⟨_, _, hwrite, h⟩ := run_bind_eq_ok.1 h
  obtain ⟨disk, hdisk, rfl⟩ := run_change_eq_ok.1 hwrite
  cases h
  rw [run_makeFolders, Prod.mk.injEq, mapError_eq_ok] at hfolders
  obtain ⟨hmade, rfl⟩ := hfolders
  exact ⟨text, _, htext, Prod.ext hmade rfl, hdisk⟩

namespace Pipeline

/-- The script that a stage writes. -/
def scriptOf? : Stage → Option String
  | .compileRunner => some "Runner.elm.js"
  | .generateNodeRunner => some "node_runner.js"
  | .compileReporter => some "Reporter.elm.js"
  | .generateSupervisor => some "node_supervisor.js"
  | _ => none

variable {context : RunContext} {options : RunOptions} {root : Path} {folder : List String}

theorem properName_of_scriptOf? {stage : Stage} {name : String} (h : scriptOf? stage = some name) :
    ProperName name := by
  cases stage <;> cases h <;> decide

/-- The last stages write nothing but their scripts. -/
theorem exists_script_of_written {stage : Stage} (hstage : stage ∈ Stage.all.drop 7) {path : Path}
    (hpath : path ∈ written ⟨root, defaultElmVersion⟩ stage) :
    ∃ name, scriptOf? stage = some name ∧
      (path = (Layout.mk root defaultElmVersion).scripts.child name ∨
        path = (Layout.mk root defaultElmVersion).told
          ((Layout.mk root defaultElmVersion).scripts.child name)) := by
  cases stage with
  | compileRunner =>
      refine ⟨_, rfl, ?_⟩
      rw [written, List.mem_cons, List.mem_singleton] at hpath
      exact hpath.symm
  | generateNodeRunner => exact ⟨_, rfl, .inl (List.mem_singleton.1 hpath)⟩
  | compileReporter => exact ⟨_, rfl, .inr (List.mem_singleton.1 hpath)⟩
  | generateSupervisor => exact ⟨_, rfl, .inl (List.mem_singleton.1 hpath)⟩
  | supervise => cases hpath
  | _ => exact absurd hstage (by decide)

/-- The last stages leave every script but their own alone. -/
theorem spares_perform (hroot : root.anchor ≠ .here) (hquiet : context.tools.Quiet) {stage : Stage}
    (hstage : stage ∈ Stage.all.drop 7) {name : String} (hname : scriptOf? stage ≠ some name)
    (found : Findings) :
    (perform context options ⟨root, defaultElmVersion⟩ found stage).Keeps
      (Spares root folder (folder ++ scriptNames name)) := by
  apply keeps_perform (permissive_spares root folder _) _ hquiet
  · exact fun _ _ => trivial
  · intro path hpath
    refine ⟨trivial, fun disk location node hsettled hfind => ?_⟩
    obtain ⟨other, hother, hcase⟩ := exists_script_of_written hstage hpath
    have hproper := properName_of_scriptOf? hother
    have hlocation : location = folder ++ scriptNames other := by
      rcases hcase with rfl | rfl
      · exact hsettled.location_script hroot hproper hfind
      · exact hsettled.location_told hroot hproper hfind
    have hne : other ≠ name := by
      rintro rfl
      exact hname hother
    simpa [hlocation, scriptNames] using hne
  · intro world calls _
    exact .refl _ _

section Course

variable {all : List Stage} {found last : Findings} {world after : World} {outcomes : List Outcome}

/-- Stages whose tools are quiet let the disk grow. -/
theorem Course.enlarges {layout : Layout} (hquiet : context.tools.Quiet)
    (h : Course context options layout all found world (.ok last) after outcomes) :
    Enlarges world after :=
  h.keeps permissive_enlarges.toLasting (fun _ _ found =>
    keeps_perform permissive_enlarges (fun world _ => .refl _ world.disk) hquiet options found
      (fun _ _ => trivial) fun _ _ => ⟨trivial, trivial⟩) rfl

/-- A script holds its bytes as long as no stage writes it again. -/
theorem Course.readBytes_script {name path : String} {bytes : List UInt8} (hroot : root.anchor ≠ .here)
    (hquiet : context.tools.Quiet) (hsettled : Settled root folder world.disk)
    (hlater : ∀ stage ∈ all, stage ∈ Stage.all.drop 7 ∧ scriptOf? stage ≠ some name)
    (hfind : world.disk.find path = .ok (folder ++ scriptNames name, .file bytes))
    (h : Course context options ⟨root, defaultElmVersion⟩ all found world (.ok last) after outcomes) :
    after.disk.readBytes path = .ok bytes := by
  have hspares : Spares root folder (folder ++ scriptNames name) world after :=
    h.keeps (permissive_spares root folder _).toLasting
      (fun stage hmem found => spares_perform hroot hquiet (hlater stage hmem).1 (hlater stage hmem).2 found)
      rfl
  have hgrows := hspares hsettled
  obtain ⟨node, hnode, hfind'⟩ := Disk.find_retain hgrows.toRetains hfind
  rw [hgrows.file rfl (Disk.nodeAt?_of_find_eq hfind), Option.some.injEq] at hnode
  subst hnode
  exact readBytes_of_find hfind'

end Course

end Pipeline

end ElmSuite
