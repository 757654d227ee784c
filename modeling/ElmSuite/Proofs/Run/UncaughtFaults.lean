import ElmSuite.Proofs.Run.DraftedManifest
import ElmSuite.Proofs.Suite.Collection
import ElmSuite.Proofs.World.Troubles

/-!
The faults that leave a run.  Three stages let one through: the search for test files and the
synthesis of the manifest, where a path leads in a loop of links or holds U+0000, or where the
manifest of the host is beyond what can be read or written; and the patch of the compiled runner, which
has to be text.  Everything else that goes wrong in a stage is reported.
-/

namespace ElmSuite

open Act

/-! ### The search for test files -/

namespace Discovery

/-- The patterns that a search expands. -/
def expanded (targets : List String) (root : String) : List String :=
  if targets.isEmpty then defaultPatterns root else targets.filter Glob.isPattern

/-- The faults that the search for test files does not catch. -/
inductive Uncaught (disk : Disk) (targets : List String) (root : String) : Fault → Prop
  /-- A pattern asks for a folder whose path holds U+0000. -/
  | pattern {pattern : String} (hpattern : pattern ∈ expanded targets root)
      (hexpand : Glob.expand disk pattern = .error .nullByte) : Uncaught disk targets root .nullByte
  /-- The path of a match cannot be followed to its end. -/
  | matched {pattern matched : String} {found : List String} {fault : Fault}
      (hpattern : pattern ∈ expanded targets root) (hexpand : Glob.expand disk pattern = .ok found)
      (hmatched : matched ∈ found) (hlocate : disk.locate (.ofString matched) = .error fault)
      (hfault : fault.isOfPath = true) : Uncaught disk targets root fault
  /-- The path of a target cannot be followed to its end. -/
  | target {target : String} {fault : Fault} (htarget : target ∈ targets)
      (hplain : Glob.isPattern target = false)
      (hlocate : disk.locate (.ofString target) = .error fault) (hfault : fault.isOfPath = true) :
      Uncaught disk targets root fault

variable {disk : Disk} {targets : List String} {root : String}

/-- The files that are found have paths without U+0000. -/
theorem noNull_of_collect {world after : World} {files : List Path}
    (h : (collect targets root).run world = (.ok files, after)) : ∀ file ∈ files, file.NoNull := by
  obtain ⟨-, between, hcandidates⟩ := candidates_of_collect h
  exact fun file hfile =>
    Disk.noNull_of_isFile (isCanonical_of_candidates hcandidates file hfile).isFile

end Discovery

/-! ### The synthesis of the manifest -/

namespace ManifestFile

variable {path : Path} (hpath : path.NoNull)
include hpath

/-- A manifest is not written without a report only because it cannot be printed. -/
theorem reportsUnless_write (app : Application) (disk : Disk) :
    (write app path).ReportsUnless disk fun fault => app.print = .error fault := by
  refine (reports_makeFolders hpath.parent).bind_unless fun _ disk => ?_
  have hprint : (Act.ofFault app.print).ReportsUnless disk fun fault => app.print = .error fault := by
    intro world _
    rw [run_ofFault]
    exact .mapError fun fault hfault => .inr hfault
  refine .bind_reports hprint fun text => ?_
  exact (reports_writeText hpath text).bind fun _ => (reports_say _).bind fun _ => reports_pure path

theorem reports_write {app : Application} {text : List Char} (hprint : app.print = .ok text) :
    (write app path).Reports := by
  intro world trouble htrouble
  have hunless := reportsUnless_write hpath app world.disk world rfl trouble htrouble
  cases trouble with
  | failure cause => rfl
  | fault fault =>
      refine hunless.resolve_right fun hfault => ?_
      rw [hprint] at hfault
      cases hfault

end ManifestFile

namespace Synthesis

/-- The faults that the synthesis of the manifest does not catch. -/
inductive Uncaught (context : RunContext) (layout : Layout) (disk : Disk) : Fault → Prop
  /-- The root of the project or that of the generated one cannot be followed to its end. -/
  | folder {path : Path} {fault : Fault}
      (hpath : path = layout.projectRoot ∨ ∃ projectRoot,
        disk.locateLeniently layout.projectRoot = .ok projectRoot ∧ path = projectRoot.join layout.root)
      (hlocate : disk.locateLeniently path = .error fault) (hfault : fault.isOfPath = true) :
      Uncaught context layout disk fault
  /-- The manifest of the host is beyond the limits of the reader of JSON texts. -/
  | host {text : List Char} {path : Option String} {fault : Fault}
      (hread : disk.readText (layout.projectRoot.child ManifestFile.fileName).toString = .ok text)
      (hhost : Manifest.ofText text path = .error (.fault fault)) : Uncaught context layout disk fault
  /-- A source directory is no path, or its path cannot be followed to its end. -/
  | directory {text : List Char} {origin : Option String} {host : Manifest} {projectRoot : Path}
      {directory : Codes} {fault : Fault}
      (hread : disk.readText (layout.projectRoot.child ManifestFile.fileName).toString = .ok text)
      (hhost : Manifest.ofText text origin = .ok host)
      (hroot : disk.locateLeniently layout.projectRoot = .ok projectRoot)
      (hdirectory : directory ∈ host.toApplication.sourceDirectories ++ [testsDirectory])
      (hfault : pathOf projectRoot directory = .error fault ∨
        ∃ path, pathOf projectRoot directory = .ok path ∧ disk.locate path = .error fault ∧
          fault.isOfPath = true) : Uncaught context layout disk fault
  /-- A text of the draft cannot be written. -/
  | draft {host : Manifest} {draft : Application} {fault : Fault}
      (hdraft : Drafted context layout disk host draft) (hprint : draft.print = .error fault) :
      Uncaught context layout disk fault

variable {context : RunContext} {layout : Layout} {disk : Disk}

end Synthesis

namespace Pipeline

variable {context : RunContext} {options : RunOptions} {layout : Layout} {disk : Disk}

end Pipeline

end ElmSuite
