import ElmSuite.Proofs.World.Actions
import ElmSuite.Run.Pipeline

/-!
What the parts of a run do to the world besides calling tools: they say lines, make folders and write
files.  A relation between worlds that tolerates these steps holds across every such part; a part
that only looks at the disk needs a relation that tolerates lines.
-/

namespace ElmSuite

namespace Act

/-- A lasting relation that tolerates lines. -/
structure Tolerant (relation : World → World → Prop) : Prop extends Lasting relation where
  lines : ∀ world line, relation world { world with lines := world.lines ++ [line] }

/-- A relation that also tolerates folders made at some paths, and files written at some paths. -/
structure Permissive (relation : World → World → Prop) (makable : Path → Prop)
    (writable : String → Prop) : Prop extends Tolerant relation where
  folders : ∀ world path, makable path →
    relation world { world with disk := (Disk.makeFolders path world.disk).2 }
  files : ∀ world path bytes disk, writable path → world.disk.writeBytes path bytes = .ok disk →
    relation world { world with disk }

variable {α β : Type} {relation : World → World → Prop} {makable : Path → Prop}
  {writable : String → Prop}

theorem Keeps.map {act : Act α} (h : act.Keeps relation) (f : α → β) :
    (f <$> act).Keeps relation := by
  intro world
  rw [run_map]
  exact h world

theorem Tolerant.result (h : Tolerant relation) {act : Act α}
    (hact : ∀ world, (act.run world).2 = world) : act.Keeps relation :=
  .of_unchanged h.toLasting hact

theorem Tolerant.say (h : Tolerant relation) (line : Line) : (say line).Keeps relation :=
  fun world => h.lines world line

/-- The disk stays as it is. -/
def SameDisk (before after : World) : Prop :=
  after.disk = before.disk

theorem tolerant_sameDisk : Tolerant SameDisk where
  refl _ := rfl
  trans hfirst hsecond := hsecond.trans hfirst
  lines _ _ := rfl

section Permissive

variable (h : Permissive relation makable writable)
include h

theorem Permissive.makeFolders {path : Path} (hpath : makable path) :
    (makeFolders path).Keeps relation := by
  intro world
  rw [run_makeFolders]
  exact h.folders world path hpath

theorem Permissive.writeBytes {path : String} (hpath : writable path) (bytes : List UInt8) :
    (change fun disk => disk.writeBytes path bytes).Keeps relation := by
  intro world
  rw [run_change]
  split
  · next disk hdisk => exact h.files world path bytes disk hpath hdisk
  · exact h.refl world

theorem Permissive.writeText {path : Path} (hpath : writable path.toString) (text : List Char) :
    (writeText path text).Keeps relation :=
  h.writeBytes hpath (Text.Utf8.encode text)

/-- A file that is placed somewhere on behalf of a tool. -/
theorem Permissive.placeFile {path : Path} (hfolder : makable path.parent)
    (hpath : writable path.toString) (bytes : List UInt8) :
    (place path (.file bytes)).Keeps relation :=
  .bind h.toLasting (h.makeFolders hfolder) fun _ => h.writeBytes hpath bytes

end Permissive

end Act

open Act

variable {relation : World → World → Prop} {makable : Path → Prop} {writable : String → Prop}

section Tolerant

variable (h : Act.Tolerant relation)
include h

namespace Discovery

theorem keeps_fileOfMatch (matched : String) : (fileOfMatch matched).Keeps relation := by
  apply Keeps.bind h.toLasting (h.result fun _ => rfl)
  intro disk
  split
  · exact .bind h.toLasting (h.result fun _ => rfl) fun _ => h.result fun _ => by split <;> rfl
  · exact .bind h.toLasting (h.say _) fun _ => h.result fun _ => rfl
  · exact h.result fun _ => rfl

theorem keeps_filesOfPattern (pattern : String) : (filesOfPattern pattern).Keeps relation := by
  apply Keeps.bind h.toLasting (h.result fun _ => rfl)
  intro matched
  exact .bind h.toLasting (.mapM h.toLasting (keeps_fileOfMatch h) matched) fun _ =>
    h.result fun _ => rfl

theorem keeps_discover (patterns : List String) : (discover patterns).Keeps relation :=
  .bind h.toLasting (.mapM h.toLasting (keeps_filesOfPattern h) patterns) fun _ =>
    h.result fun _ => rfl

theorem keeps_fileOfTarget (target : String) : (fileOfTarget target).Keeps relation := by
  apply Keeps.bind h.toLasting (h.result fun _ => rfl)
  intro disk
  split
  · exact .bind h.toLasting (h.result fun _ => rfl) fun _ => h.result fun _ => by split <;> rfl
  · exact h.result fun _ => rfl
  · exact h.result fun _ => rfl

theorem keeps_canonicalize (targets : List String) : (canonicalize targets).Keeps relation :=
  .bind h.toLasting (.mapM h.toLasting (keeps_fileOfTarget h) targets) fun _ => h.result fun _ => rfl

theorem keeps_collect (targets : List String) (root : String) :
    (collect targets root).Keeps relation := by
  have hfiles : ∀ (patterns : List String) (files : List Path), (do
      if files.isEmpty then Act.fail (.noTestFiles patterns)
      return files : Act (List Path)).Keeps relation := by
    intro patterns files
    split
    · exact h.result fun _ => rfl
    · exact h.result fun _ => rfl
  unfold collect
  dsimp only
  split
  · exact .bind h.toLasting (keeps_discover h _) (hfiles _)
  · apply Keeps.bind h.toLasting (keeps_discover h _)
    intro matched
    apply Keeps.bind h.toLasting (keeps_canonicalize h _)
    intro named
    exact .bind h.toLasting (h.result fun _ => rfl) (hfiles _)

end Discovery

namespace Synthesis

theorem keeps_sourceDirectory (root : Path) (directory : Codes) :
    (sourceDirectory root directory).Keeps relation := by
  apply Keeps.bind h.toLasting (h.result fun _ => rfl)
  intro seen
  apply Keeps.bind h.toLasting (.orElse (h.result fun _ => rfl) _)
  intro path
  exact .bind h.toLasting (h.result fun _ => rfl) fun _ => h.result fun _ => by split <;> rfl

theorem keeps_ofText (text : List Char) (root generated helper : Path) :
    (ofText text root generated helper).Keeps relation := by
  apply Keeps.bind h.toLasting (h.result fun _ => rfl)
  intro root
  apply Keeps.bind h.toLasting (h.result fun _ => rfl)
  intro generated
  apply Keeps.bind h.toLasting (h.result fun _ => rfl)
  intro manifest
  have hdirectories : (sourceDirectories manifest.toApplication.sourceDirectories root).Keeps relation :=
    .bind h.toLasting (.mapM h.toLasting (keeps_sourceDirectory h root) _) fun _ =>
      h.result fun _ => rfl
  apply Keeps.bind h.toLasting hdirectories
  intro directories
  exact .bind h.toLasting (h.result fun _ => rfl) fun _ => h.result fun _ => rfl

end Synthesis

theorem Pipeline.keeps_findTests (synthesis : Synthesis) (files : List Path) :
    (Pipeline.findTests synthesis files).Keeps relation :=
  .bind h.toLasting (h.say _) fun _ =>
    .bind h.toLasting (h.result fun _ => rfl) fun _ => h.result fun _ => rfl

end Tolerant

section Permissive

variable (h : Act.Permissive relation makable writable)
include h

theorem ManifestFile.keeps_write (app : Application) {path : Path} (hfolder : makable path.parent)
    (hpath : writable path.toString) : (write app path).Keeps relation := by
  apply Keeps.bind h.toLasting (h.makeFolders hfolder)
  intro _
  apply Keeps.bind h.toLasting (h.result fun _ => rfl)
  intro text
  apply Keeps.bind h.toLasting (h.writeText hpath text)
  intro _
  exact .bind h.toLasting (h.say _) fun _ => h.result fun _ => rfl

namespace Generation

theorem keeps_writeRendered (template : List Char) (name : String)
    (values : OrderedMap String (List Char)) {output : Path} (hfolder : makable output.parent)
    (houtput : writable output.toString) :
    (writeRendered template name values output).Keeps relation := by
  apply Keeps.bind h.toLasting (h.result fun _ => rfl)
  intro content
  apply Keeps.bind h.toLasting (h.makeFolders hfolder)
  intro _
  apply Keeps.bind h.toLasting (h.writeText houtput content)
  intro _
  exact .bind h.toLasting (h.say _) fun _ => h.result fun _ => rfl

theorem keeps_patchFile (tag : Script.IdentityTag) {path : Path} (hpath : writable path.toString) :
    (patchFile tag path).Keeps relation := by
  apply Keeps.bind h.toLasting (h.result fun _ => rfl)
  intro code
  apply Keeps.bind h.toLasting (h.result fun _ => rfl)
  intro tagged
  apply Keeps.bind h.toLasting (h.say _)
  intro _
  apply Keeps.bind h.toLasting (h.result fun _ => rfl)
  intro checked
  exact .bind h.toLasting (h.writeText hpath _) fun _ => h.result fun _ => rfl

end Generation

namespace Pipeline

theorem keeps_makeFolders {layout : Layout} (hsources : makable layout.sources)
    (hscripts : makable layout.scripts) : (Pipeline.makeFolders layout).Keeps relation :=
  .bind h.toLasting (h.makeFolders hsources) fun _ => h.makeFolders hscripts

theorem keeps_synthesize (context : RunContext) {layout : Layout} (hsources : makable layout.sources)
    (hscripts : makable layout.scripts) (hfolder : makable layout.manifest.parent)
    (hmanifest : writable layout.manifest.toString) : (synthesize context layout).Keeps relation := by
  have hread : (ManifestFile.readText (layout.projectRoot.child ManifestFile.fileName)).Keeps relation :=
    .orElse (h.result fun _ => rfl) _
  apply Keeps.bind h.toLasting hread
  intro text
  apply Keeps.bind h.toLasting (Synthesis.keeps_ofText h.toTolerant _ _ _ _)
  intro synthesis
  apply Keeps.bind h.toLasting (keeps_makeFolders h hsources hscripts)
  intro _
  exact .bind h.toLasting (ManifestFile.keeps_write h _ hfolder hmanifest) fun _ => h.result fun _ => rfl

end Pipeline

end Permissive

end ElmSuite
