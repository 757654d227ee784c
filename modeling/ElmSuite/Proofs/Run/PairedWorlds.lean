import Mathlib.Data.List.Infix
import ElmSuite.Proofs.Disk.Passage
import ElmSuite.Proofs.Run.Footprint
import ElmSuite.Proofs.Suite.Discovery
import ElmSuite.Proofs.World.Alike

/-!
The same run with and without what earlier runs left in the generated project.  The two worlds differ
by folders and files of the generated project that only one of them has yet, and by notes; what a run
does to files and folders, and what it has its tools do, ends alike in both.
-/

namespace ElmSuite

open Act

/-- Two worlds of a run that started on a clean disk and on a worn one.  The second may have more folders
and files in the generated project than the first, which are as they were on the worn disk. -/
structure Paired (clean worn : Disk) (folder : List String) (bare full : World) : Prop where
  grown : clean.Grows (fun _ => False) bare.disk
  disk : bare.disk.Underlies (· ∈ generatedFolders folder) (· ∈ generatedFiles folder) full.disk
  left : ∀ location bytes, full.disk.nodeAt? location = some (.file bytes) →
    bare.disk.nodeAt? location = none → worn.nodeAt? location = some (.file bytes)
  lines : bare.lines = full.lines
  calls : bare.calls = full.calls

/-- Paired worlds, the first of which has a property. -/
def PairedWith (clean worn : Disk) (folder : List String) (P : World → Prop) (bare full : World) : Prop :=
  Paired clean worn folder bare full ∧ P bare

/-- A folder stands at a location. -/
def HasFolder (location : List String) (world : World) : Prop :=
  ∃ entries, world.disk.nodeAt? location = some (.folder entries)

/-- Something stands at a location. -/
def HasNode (location : List String) (world : World) : Prop :=
  ∃ node, world.disk.nodeAt? location = some node

variable {clean worn : Disk} {folder more location : List String} {bare full : World} {P : World → Prop}

theorem PairedWith.paired (bare full : World) (h : PairedWith clean worn folder P bare full) :
    Paired clean worn folder bare full :=
  h.1

/-- Worlds stay paired when the same things happen to their disks. -/
theorem Paired.change {disk disk' : Disk} {spared folders files : List String → Prop}
    (h : Paired clean worn folder bare full) (hgrows : bare.disk.Grows spared disk)
    (htouches : full.disk.Touches folders files disk')
    (hfiles : ∀ location, files location → ∃ node, disk.nodeAt? location = some node)
    (hdisk : disk.Underlies (· ∈ generatedFolders folder) (· ∈ generatedFiles folder) disk') :
    Paired clean worn folder { bare with disk } { full with disk := disk' } where
  grown := h.grown.trans (hgrows.mono fun _ hfalse => hfalse.elim)
  disk := hdisk
  left location bytes hnode hnone := by
    have hunwritten : ¬ files location := by
      intro hfile
      obtain ⟨node, hsome⟩ := hfiles location hfile
      rw [hnone] at hsome
      cases hsome
    have hbefore : bare.disk.nodeAt? location = none := by
      cases hbare : bare.disk.nodeAt? location with
      | none => rfl
      | some node =>
          obtain ⟨later, hlater, -⟩ := hgrows.kept location node hbare
          rw [hnone] at hlater
          cases hlater
    apply h.left location bytes _ hbefore
    cases hfull : full.disk.nodeAt? location with
    | none =>
        rcases htouches.new location _ hnode hfull with ⟨-, hkind⟩ | ⟨hfile, -⟩
        · cases hkind
        · exact absurd hfile hunwritten
    | some node =>
        obtain ⟨later, hlater, hface⟩ := htouches.toRetains.exists_sameFace hunwritten hfull
        rw [hnode, Option.some.injEq] at hlater
        subst hlater
        cases hface
        rfl
  lines := h.lines
  calls := h.calls

theorem Paired.compilerCalls (h : Paired clean worn folder bare full) :
    bare.compilerCalls = full.compilerCalls := by
  rw [World.compilerCalls, World.compilerCalls, h.calls]

/-- Worlds stay paired when the same is said and asked for in both. -/
theorem Paired.add (h : Paired clean worn folder bare full) (lines : List Line) (calls : List ToolCall) :
    Paired clean worn folder
      { bare with lines := bare.lines ++ lines, calls := bare.calls ++ calls }
      { full with lines := full.lines ++ lines, calls := full.calls ++ calls } where
  grown := h.grown
  disk := h.disk
  left := h.left
  lines := by rw [h.lines]
  calls := by rw [h.calls]

theorem alike_say (hlines : ∀ world lines, P world → P { world with lines }) (line : Line) :
    (say line).Alike (Paired clean worn folder) (PairedWith clean worn folder P) (PairedWith clean worn folder P) := by
  refine .say PairedWith.paired fun bare full h => ?_
  have hadd := h.1.add [line] []
  rw [List.append_nil, List.append_nil] at hadd
  exact ⟨hadd, hlines _ _ h.2⟩

/-! ### Folders and files -/

section Plain

variable (hplain : Discovery.PlainProject clean folder)
include hplain

theorem properNames_folder : ∀ name ∈ folder, ProperName name := by
  obtain ⟨entries, hfolder⟩ := hplain.root
  exact hplain.properNames.of_nodeAt? hfolder

theorem properNames_append (hmore : ∀ name ∈ more, ProperName name) :
    ∀ name ∈ folder ++ more, ProperName name := by
  intro name hname
  rcases List.mem_append.1 hname with hname | hname
  · exact properNames_folder hplain name hname
  · exact hmore name hname

theorem Paired.hasFolder (h : Paired clean worn folder bare full) : HasFolder folder bare := by
  obtain ⟨entries, hfolder⟩ := hplain.root
  exact h.grown.toRetains.folder hfolder

theorem Paired.noLink (h : Paired clean worn folder bare full) (more : List String) (target : String) :
    bare.disk.nodeAt? (folder ++ more) ≠ some (.link target) := fun hlink =>
  hplain.noLink more target (h.grown.links _ target hlink)

/-- Folders are made alike where nothing else is in the surplus. -/
theorem alike_makeFolders (hmore : ∀ name ∈ more, ProperName name) (hne : more ≠ [])
    (hfiles : ∀ location, Disk.Along folder more location → location ∉ generatedFiles folder) :
    (makeFolders (.ofLocation (folder ++ more))).Alike (Paired clean worn folder)
      (PairedWith clean worn folder P) (PairedWith clean worn folder (HasFolder (folder ++ more))) := by
  intro bare full ⟨h, _⟩
  obtain ⟨entries, hfolder⟩ := h.hasFolder hplain
  have hlink : ∀ location target, Disk.Along folder more location →
      bare.disk.nodeAt? location ≠ some (.link target) := by
    rintro location target ⟨below, -, -, rfl⟩
    exact h.noLink hplain below target
  obtain ⟨hresult, hdisk, hgrows, hmade⟩ := h.disk.makeFolders (properNames_append hplain hmore) hne
    hfolder hlink hfiles
  obtain ⟨outer, houter⟩ := h.disk.toRetains.folder hfolder
  have htouches := Disk.makeFoldersUpTo_along (properNames_append hplain hmore) houter
    (fun location target halong hnode => hlink location target halong (h.disk.links location target hnode))
    (Path.ofLocation (folder ++ more)).parts.length
  have hpaired := h.change hgrows.toGrows htouches (fun _ hfalse => hfalse.elim) hdisk
  rw [run_makeFolders, run_makeFolders, ← hresult]
  refine ⟨_, _, _, rfl, rfl, hpaired, fun value hvalue => ⟨hpaired, hmade ?_⟩⟩
  cases hmake : (Disk.makeFolders (.ofLocation (folder ++ more)) bare.disk).1 with
  | ok value => rfl
  | error fault =>
      rw [hmake] at hvalue
      cases hvalue

/-- A file is written alike, in a folder that is there, where no folder is in the surplus. -/
theorem alike_writeBytes {last : String} (hmore : ∀ name ∈ more ++ [last], ProperName name)
    (hfolders : folder ++ more ++ [last] ∉ generatedFolders folder) (bytes : List UInt8) :
    (change fun disk => disk.writeBytes (Path.ofLocation (folder ++ more ++ [last])).toString bytes).Alike
      (Paired clean worn folder) (PairedWith clean worn folder (HasFolder (folder ++ more)))
      (PairedWith clean worn folder (HasNode (folder ++ more ++ [last]))) := by
  rintro bare full ⟨h, entries, habove⟩
  have hproper := properNames_append hplain hmore
  have hlink : ∀ target, bare.disk.nodeAt? (folder ++ more ++ [last]) ≠ some (.link target) := by
    rw [List.append_assoc]
    exact h.noLink hplain _
  rw [← List.append_assoc] at hproper
  rw [run_change, run_change]
  rcases h.disk.writeBytes hproper habove hlink hfolders bytes with
    ⟨fault, hbare, hfull⟩ | ⟨bare', full', hbare, hfull, hdisk, hgrows, htouches, node, hnode⟩
  · rw [hbare, hfull]
    exact ⟨_, _, _, rfl, rfl, h, fun _ heq => by cases heq⟩
  · rw [hbare, hfull]
    have hpaired := h.change hgrows.toGrows htouches (fun _ heq => heq ▸ ⟨node, hnode⟩) hdisk
    exact ⟨_, _, _, rfl, rfl, hpaired, fun _ _ => ⟨hpaired, node, hnode⟩⟩

/-- A text that is there reads alike. -/
theorem Paired.readText_eq (h : Paired clean worn folder bare full) (hmore : ∀ name ∈ more, ProperName name)
    (hne : more ≠ []) (htaken : HasNode (folder ++ more) bare) :
    bare.disk.readText (Path.ofLocation (folder ++ more)).toString =
      full.disk.readText (Path.ofLocation (folder ++ more)).toString := by
  obtain ⟨node, hnode⟩ := htaken
  exact h.disk.readText_of_nodeAt? (properNames_append hplain hmore) (by simp [hne]) hnode
    fun target heq => h.noLink hplain more target (heq ▸ hnode)

theorem alike_readText (hmore : ∀ name ∈ more, ProperName name) (hne : more ≠ []) :
    (readText (.ofLocation (folder ++ more))).Alike (Paired clean worn folder)
      (PairedWith clean worn folder (HasNode (folder ++ more)))
      (PairedWith clean worn folder (HasNode (folder ++ more))) :=
  .look PairedWith.paired fun _ _ h => h.1.readText_eq hplain hmore hne h.2

end Plain

/-! ### The files of the generated project -/

/-- The folders of the generated project in which files are written, seen from its project. -/
def storeFolders : List (List String) :=
  [ ["elm-stuff", "tests-0.19.1"]
  , ["elm-stuff", "tests-0.19.1", "src"]
  , ["elm-stuff", "tests-0.19.1", "js"] ]

/-- The names of the files of the generated project. -/
def storeNames : List String :=
  ["elm.json", "Runner.elm", "Runner.elm.js", "node_runner.js", "Reporter.elm.js", "node_supervisor.js"]

theorem properName_of_mem_storeFolders : ∀ more ∈ storeFolders, ∀ name ∈ more, ProperName name := by
  decide

theorem properName_of_mem_storeNames : ∀ name ∈ storeNames, ProperName name := by
  decide

theorem ne_nil_of_mem_storeFolders : ∀ more ∈ storeFolders, more ≠ [] := by
  decide

/-- No file is written where a folder of the generated project is made. -/
theorem not_mem_generatedFiles (hmore : more ∈ storeFolders) (h : Disk.Along folder more location) :
    location ∉ generatedFiles folder := by
  obtain ⟨below, hne, hprefix, rfl⟩ := h
  have hbelow : ∀ more ∈ storeFolders, ∀ below ∈ more.inits,
      [] ++ below ∉ generatedFiles [] := by decide
  have hnot := hbelow more hmore below ((List.mem_inits _ _).2 hprefix)
  intro hmem
  apply hnot
  simpa [generatedFiles] using hmem

/-- No folder is made where a file of the generated project is written. -/
theorem not_mem_generatedFolders {last : String} (hmore : more ∈ storeFolders)
    (hlast : last ∈ storeNames) : folder ++ more ++ [last] ∉ generatedFolders folder := by
  have hnone : ∀ more ∈ storeFolders, ∀ last ∈ storeNames,
      [] ++ more ++ [last] ∉ generatedFolders [] := by decide
  intro hmem
  apply hnone more hmore last hlast
  simpa [generatedFolders] using hmem

section Store

variable {last : String} (hplain : Discovery.PlainProject clean folder) (hmore : more ∈ storeFolders)
  (hlast : last ∈ storeNames)
include hmore

theorem properNames_store (hlast : last ∈ storeNames) : ∀ name ∈ more ++ [last], ProperName name := by
  intro name hname
  rcases List.mem_append.1 hname with hname | hname
  · exact properName_of_mem_storeFolders more hmore name hname
  · rw [List.mem_singleton.1 hname]
    exact properName_of_mem_storeNames last hlast

include hplain

theorem alike_makeStore :
    (makeFolders (Path.ofLocation (folder ++ more ++ [last])).parent).Alike (Paired clean worn folder)
      (PairedWith clean worn folder P) (PairedWith clean worn folder (HasFolder (folder ++ more))) := by
  rw [Disk.parent_ofLocation]
  exact alike_makeFolders hplain (properName_of_mem_storeFolders more hmore)
    (ne_nil_of_mem_storeFolders more hmore) fun _ => not_mem_generatedFiles hmore

include hlast

theorem alike_writeText (text : List Char) :
    (writeText (.ofLocation (folder ++ more ++ [last])) text).Alike (Paired clean worn folder)
      (PairedWith clean worn folder (HasFolder (folder ++ more)))
      (PairedWith clean worn folder (HasNode (folder ++ more ++ [last]))) :=
  alike_writeBytes hplain (properNames_store hmore hlast) (not_mem_generatedFolders hmore hlast)
    (Text.Utf8.encode text)

theorem alike_writeManifest (app : Application) :
    (ManifestFile.write app (.ofLocation (folder ++ more ++ [last]))).Alike (Paired clean worn folder)
      (PairedWith clean worn folder P) (PairedWith clean worn folder (HasNode (folder ++ more ++ [last]))) := by
  apply Alike.bind (alike_makeStore hplain hmore)
  intro _
  apply Alike.bind (.result PairedWith.paired _)
  intro text
  apply Alike.bind (alike_writeText hplain hmore hlast text)
  intro _
  exact .bind (alike_say (fun _ _ h => h) _) fun _ => .pure PairedWith.paired _

theorem alike_writeRendered (template : List Char) (name : String)
    (values : OrderedMap String (List Char)) :
    (Generation.writeRendered template name values (.ofLocation (folder ++ more ++ [last]))).Alike
      (Paired clean worn folder) (PairedWith clean worn folder P)
      (PairedWith clean worn folder (HasNode (folder ++ more ++ [last]))) := by
  apply Alike.bind (.result PairedWith.paired _)
  intro content
  apply Alike.bind (alike_makeStore hplain hmore)
  intro _
  apply Alike.bind (alike_writeText hplain hmore hlast content)
  intro _
  exact .bind (alike_say (fun _ _ h => h) _) fun _ => .pure PairedWith.paired _

theorem alike_placeFile (bytes : List UInt8) :
    (place (.ofLocation (folder ++ more ++ [last])) (.file bytes)).Alike (Paired clean worn folder)
      (PairedWith clean worn folder P) (PairedWith clean worn folder (HasNode (folder ++ more ++ [last]))) :=
  .bind (alike_makeStore hplain hmore) fun _ =>
    alike_writeBytes hplain (properNames_store hmore hlast) (not_mem_generatedFolders hmore hlast)
      bytes

/-- A script that is there is patched alike. -/
theorem alike_patchFile (tag : Script.IdentityTag) :
    (Generation.patchFile tag (.ofLocation (folder ++ more ++ [last]))).Alike (Paired clean worn folder)
      (PairedWith clean worn folder (HasNode (folder ++ more ++ [last])))
      (PairedWith clean worn folder (HasNode (folder ++ more ++ [last]))) := by
  have hread : (readText (.ofLocation (folder ++ (more ++ [last])))).Alike (Paired clean worn folder)
      (PairedWith clean worn folder (HasNode (folder ++ (more ++ [last]))))
      (PairedWith clean worn folder (HasNode (folder ++ (more ++ [last])))) :=
    alike_readText hplain (properNames_store hmore hlast) (by simp)
  have hwrite (text : List Char) : (writeText (.ofLocation (folder ++ more ++ [last])) text).Alike
      (Paired clean worn folder) (PairedWith clean worn folder (HasNode (folder ++ more ++ [last])))
      (PairedWith clean worn folder (HasNode (folder ++ more ++ [last]))) := by
    refine (alike_writeText hplain hmore hlast text).mono ?_ fun _ _ h => h
    rintro bare full ⟨hpaired, node, hnode⟩
    exact ⟨hpaired, Disk.exists_folder_of_append hnode (by simp)⟩
  rw [← List.append_assoc] at hread
  apply Alike.bind hread
  intro code
  apply Alike.bind (.result PairedWith.paired _)
  intro tagged
  apply Alike.bind (alike_say (fun _ _ h => h) _)
  intro _
  apply Alike.bind (.result PairedWith.paired _)
  intro checked
  exact .bind (hwrite _) fun _ => .pure PairedWith.paired _

end Store

end ElmSuite
