import ElmSuite.Layout
import ElmSuite.Proofs.Disk.Growth

/-!
Where the scripts of the generated project stand on disk.  As long as no link stands at or below its
folder, the path of a script leads to one location, also when it is read back from its text.
-/

namespace ElmSuite

open Path

/-- The root of a project leads to a folder, and no link stands at or below `elm-stuff` in it. -/
structure Settled (root : Path) (folder : List String) (disk : Disk) : Prop where
  leads : Disk.Leads disk [] (root.parts.flatMap named) folder
  noLink : ∀ below target, disk.nodeAt? (folder ++ "elm-stuff" :: below) ≠ some (.link target)

theorem Settled.grow {root : Path} {folder : List String} {before after : Disk}
    {spared : List String → Prop} (h : Settled root folder before)
    (hgrows : before.Grows spared after) : Settled root folder after where
  leads := h.leads.retain hgrows.toRetains
  noLink below target hlink := h.noLink below target (hgrows.links _ _ hlink)

/-- The names of a script below the root of its project. -/
def scriptNames (name : String) : List String :=
  ["elm-stuff", "tests-0.19.1", "js", name]

/-- The path that the compiler gets when it is told one from the root of the generated project. -/
def Layout.told (layout : Layout) (output : Path) : Path :=
  (ofString layout.root.toString).join (.ofString output.toString)

variable {root : Path} {name : String}

theorem scripts_eq (root : Path) :
    (Layout.mk root defaultElmVersion).scripts =
      ⟨root.anchor, root.parts ++ ["elm-stuff", "tests-0.19.1", "js"]⟩ := by
  have hversion : ofString ("tests-" ++ defaultElmVersion) = ⟨.here, ["tests-0.19.1"]⟩ := by decide
  simp [Layout.scripts, Layout.root, child, join, hversion]

theorem flatMap_named_scripts (names : List String) :
    (names ++ ["elm-stuff", "tests-0.19.1", "js"]).flatMap named =
      names.flatMap named ++ ["elm-stuff", "tests-0.19.1", "js"] := by
  rw [List.flatMap_append]
  congr 1

theorem anchor_scripts_ne (hroot : root.anchor ≠ .here) :
    (Layout.mk root defaultElmVersion).scripts.anchor ≠ .here := by
  rw [scripts_eq]
  exact hroot

theorem steps_script (hroot : root.anchor ≠ .here) (hname : ProperName name) :
    Disk.steps ((Layout.mk root defaultElmVersion).scripts.child name).toString =
      root.parts.flatMap named ++ scriptNames name := by
  rw [steps_child (anchor_scripts_ne hroot) hname, scripts_eq, flatMap_named_scripts, List.append_assoc]
  rfl

theorem isAbsolute_script (hroot : root.anchor ≠ .here) (name : String) :
    Disk.isAbsolute ((Layout.mk root defaultElmVersion).scripts.child name).toString = true :=
  isAbsolute_toString (anchor_scripts_ne hroot)

theorem exists_told_eq (hroot : root.anchor ≠ .here) (hname : ProperName name) :
    ∃ anchor, anchor ≠ .here ∧
      (Layout.mk root defaultElmVersion).told ((Layout.mk root defaultElmVersion).scripts.child name) =
        ⟨anchor, (root.parts.flatMap named).filter (fun step => !(step == ".")) ++ scriptNames name⟩ := by
  have hanchor := Disk.anchor_ofString_ne (isAbsolute_script hroot name)
  have hscript : ((Layout.mk root defaultElmVersion).scripts.child name).anchor ≠ .here :=
    anchor_scripts_ne hroot
  have hflat : ((Layout.mk root defaultElmVersion).scripts.child name).parts.flatMap named =
      root.parts.flatMap named ++ scriptNames name := by
    rw [child, List.flatMap_append, scripts_eq, flatMap_named_scripts, List.append_assoc]
    simp [named_of_properName hname, scriptNames]
  have hnames : (scriptNames name).filter (fun step => !(step == ".")) = scriptNames name := by
    simp [scriptNames, hname.notHere]
  have hparts := parts_ofString_toString hscript
  rw [hflat, List.filter_append, hnames] at hparts
  refine ⟨_, hanchor, ?_⟩
  rw [Layout.told, join, if_neg hanchor, ← hparts]

theorem steps_told (hroot : root.anchor ≠ .here) (hname : ProperName name) :
    Disk.steps ((Layout.mk root defaultElmVersion).told
        ((Layout.mk root defaultElmVersion).scripts.child name)).toString =
      (root.parts.flatMap named).filter (fun step => !(step == ".")) ++ scriptNames name := by
  obtain ⟨anchor, hanchor, htold⟩ := exists_told_eq hroot hname
  have hchild : (⟨anchor, (root.parts.flatMap named).filter (fun step => !(step == ".")) ++
      scriptNames name⟩ : Path) =
      Path.child ⟨anchor, (root.parts.flatMap named).filter (fun step => !(step == ".")) ++
        ["elm-stuff", "tests-0.19.1", "js"]⟩ name := by
    simp [child, scriptNames]
  rw [htold, hchild, steps_child hanchor hname, flatMap_named_scripts, flatMap_named_filter,
    List.append_assoc]
  rfl

variable {folder location : List String} {disk : Disk} {node : Node}

theorem Settled.location_eq (h : Settled root folder disk) {text : String} {way : List String}
    (hway : Disk.Leads disk [] way folder) (habsolute : Disk.isAbsolute text = true)
    (hname : ProperName name) (hsteps : Disk.steps text = way ++ scriptNames name)
    (hfind : disk.find text = .ok (location, node)) : location = folder ++ scriptNames name := by
  apply Disk.location_of_find hway habsolute hsteps _ _ hfind
  · intro step hstep
    simp only [scriptNames, List.mem_cons, List.not_mem_nil, or_false] at hstep
    rcases hstep with rfl | rfl | rfl | rfl
    · decide
    · decide
    · decide
    · exact ⟨hname.notHere, hname.notAbove⟩
  · intro count target
    exact h.noLink _ target

theorem Settled.location_script (h : Settled root folder disk) (hroot : root.anchor ≠ .here)
    (hname : ProperName name)
    (hfind : disk.find ((Layout.mk root defaultElmVersion).scripts.child name).toString =
      .ok (location, node)) : location = folder ++ scriptNames name :=
  h.location_eq h.leads (isAbsolute_script hroot name) hname (steps_script hroot hname) hfind

theorem Settled.location_told (h : Settled root folder disk) (hroot : root.anchor ≠ .here)
    (hname : ProperName name)
    (hfind : disk.find ((Layout.mk root defaultElmVersion).told
      ((Layout.mk root defaultElmVersion).scripts.child name)).toString = .ok (location, node)) :
    location = folder ++ scriptNames name := by
  obtain ⟨anchor, hanchor, htold⟩ := exists_told_eq hroot hname
  refine h.location_eq h.leads.skip ?_ hname (steps_told hroot hname) hfind
  rw [htold]
  exact isAbsolute_toString hanchor

end ElmSuite
