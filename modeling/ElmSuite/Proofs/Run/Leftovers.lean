import ElmSuite.Proofs.Disk.Erasure
import ElmSuite.Proofs.Disk.Passage
import ElmSuite.Proofs.Run.Footprint
import ElmSuite.Proofs.Run.PairedRuns

/-!
What earlier runs have left, and why it does not matter.  Whatever these runs were, they have left
nothing but folders and files of the generated project; a run on a project with such leftovers goes as
it does on the project without them.
-/

namespace ElmSuite

open Act

/-- The location of the generated project of a project. -/
def generatedRoot (folder : List String) : List String :=
  folder ++ ["elm-stuff", "tests-0.19.1"]

/-- A disk on which the generated project of a folder is what runs have left: at first there is none, any
run of the project may change it, whatever its options and tools are and however it ends, and anything
may change elsewhere. -/
inductive Worn (folder : List String) : Disk → Prop
  | fresh {disk : Disk} (hnone : disk.nodeAt? (generatedRoot folder) = none) : Worn folder disk
  | run {before : World} {context : RunContext} {options : RunOptions} {given : Path}
      (hworn : Worn folder before.disk) (hgrounded : Grounded (.ofLocation folder) folder before.disk)
      (hquiet : context.tools.Quiet)
      (hlocate : before.disk.locateLeniently given = .ok (.ofLocation folder)) :
      Worn folder ((Pipeline.run context options given).run before).2.disk
  | edit {before after : Disk} (hworn : Worn folder before)
      (hsame : after.nodeAt? (generatedRoot folder) = before.nodeAt? (generatedRoot folder)) : Worn folder after

variable {folder more location : List String} {disk clean worn : Disk} {node : Node}

/-! ### What is left -/

theorem mem_generated_of_may (hbelow : generatedRoot folder <+: location) :
    (MayMake folder location → location ∈ generatedFolders folder) ∧
      (MayWrite folder location → location ∈ generatedFiles folder) := by
  have hmem : "elm-stuff" ∈ location := hbelow.subset (by simp [generatedRoot])
  exact ⟨fun hmake => hmake.resolve_left fun heq => absurd (heq ▸ hmem) (by decide),
    fun hwrite => hwrite.resolve_left fun heq => absurd (heq ▸ hmem) (by decide)⟩

/-- Runs leave folders and files of the generated project, each at its place. -/
theorem Worn.kinds (h : Worn folder disk) {more : List String} {node : Node}
    (hnode : disk.nodeAt? (generatedRoot folder ++ more) = some node) :
    generatedRoot folder ++ more ∈ generatedFolders folder ∧ node.isFolder = true ∨
      generatedRoot folder ++ more ∈ generatedFiles folder ∧ node.isFile = true := by
  induction h generalizing node with
  | @fresh disk hnone =>
      rw [Disk.nodeAt?, Node.at?_append, ← Disk.nodeAt?, hnone] at hnode
      cases hnode
  | @run before context options given _ hgrounded hquiet hlocate ih =>
      obtain ⟨ending, last, outcomes, hcourse, hends⟩ :=
        @Pipeline.exists_course_of_run context options _ _ _ hlocate
      have hlast : ((Pipeline.run context options given).run before).2 = last := by
        rw [hends]
        rcases ending with (- | fault) | found <;> rfl
      rw [hlast] at hnode
      have htouches := hcourse.touches (by simp [Path.ofLocation]) hquiet hgrounded
      obtain ⟨hmake, hwrite⟩ := @mem_generated_of_may folder _ (List.prefix_append (generatedRoot folder) more)
      cases hold : before.disk.nodeAt? (generatedRoot folder ++ more) with
      | none => exact (htouches.new _ _ hnode hold).imp (And.imp_left hmake) (And.imp_left hwrite)
      | some old =>
          obtain ⟨later, hlater, halike, -⟩ := htouches.kept _ _ hold
          rw [hnode, Option.some.injEq] at hlater
          subst hlater
          rw [← halike.isFolder_eq, ← halike.isFile_eq]
          exact ih hold
  | @edit before after _ hsame ih =>
      apply ih
      rw [Disk.nodeAt?, Node.at?_append] at hnode ⊢
      rw [Disk.nodeAt?, Disk.nodeAt?] at hsame
      rwa [← hsame]

/-! ### The project without it -/

/-- What is below another entry of the project is no part of the generated project. -/
theorem not_generated {name : String} (hname : name ≠ "elm-stuff") (more : List String)
    (h : location <+: folder ++ name :: more) : ¬ generatedRoot folder <+: location := by
  intro hbelow
  have hprefix := (List.prefix_append_right_inj folder).1 (hbelow.trans h)
  exact hname (List.cons_prefix_cons.1 hprefix).1.symm

/-- A way along names into another part of a project without links does not enter the generated one. -/
theorem not_generated_of_passes {name : String} (hplain : Discovery.PlainProject disk folder)
    (hname : name ≠ "elm-stuff") (hproper : ∀ part ∈ folder ++ name :: more, ProperName part)
    (h : Disk.Passes disk [] (folder ++ name :: more) location) : ¬ generatedRoot folder <+: location := by
  obtain ⟨entries, hfolder⟩ := hplain.root
  have hlink : disk.NoLinkOn (folder ++ name :: more) := Disk.noLinkOn_append hfolder hplain.noLink
  have hprefix : location <+: [] ++ (folder ++ name :: more) := h.prefix_of_noLinkOn hproper hlink
  exact not_generated hname more hprefix

theorem nodeAt?_folder_erase {entries : List (String × Node)} (h : disk.nodeAt? folder = some (.folder entries)) :
    ∃ inner, (disk.erase (generatedRoot folder)).nodeAt? folder = some (.folder inner) := by
  have hnot : ¬ generatedRoot folder <+: folder := fun hbelow => by
    have hlength := hbelow.length_le
    rw [generatedRoot, List.length_append, List.length_cons] at hlength
    omega
  rcases Node.at?_erase_of_not_prefix disk.tree hnot with hsame | ⟨-, -, inner, -, hinner⟩
  · exact ⟨entries, hsame.trans h⟩
  · exact ⟨inner, hinner⟩

/-- A disk underlies one with more if it is that without the generated project. -/
theorem Worn.underlies (h : Worn folder disk) :
    (disk.erase (generatedRoot folder)).Underlies (· ∈ generatedFolders folder) (· ∈ generatedFiles folder)
      disk :=
  Disk.erase_underlies (by simp [generatedRoot]) fun _ _ => h.kinds

/-- The generated project is all that the disk without it lacks. -/
theorem Worn.underlies_below (h : Worn folder disk) :
    (disk.erase (generatedRoot folder)).Underlies (generatedRoot folder <+: ·) (generatedRoot folder <+: ·)
      disk :=
  Disk.erase_underlies (by simp [generatedRoot]) fun more _ hnode =>
    (h.kinds hnode).imp (And.imp_left fun _ => List.prefix_append _ more)
      (And.imp_left fun _ => List.prefix_append _ more)

theorem Worn.linkCount_eq (h : Worn folder disk) (hdistinct : disk.tree.hasDistinctNames = true) :
    (disk.erase (generatedRoot folder)).tree.linkCount = disk.tree.linkCount := by
  refine Node.linkCount_erase hdistinct fun node hnode => ?_
  refine Node.linkCount_eq_zero (Node.hasDistinctNames_of_at? hdistinct hnode) fun more target hlink => ?_
  have hat : disk.nodeAt? (generatedRoot folder ++ more) = some (.link target) := by
    rw [Disk.nodeAt?, Node.at?_append, hnode]
    exact hlink
  rcases h.kinds hat with ⟨-, hkind⟩ | ⟨-, hkind⟩ <;> cases hkind

theorem Worn.plainProject (h : Worn folder disk) (hplain : Discovery.PlainProject disk folder) :
    Discovery.PlainProject (disk.erase (generatedRoot folder)) folder where
  properNames location name node hnode := by
    obtain ⟨later, hlater, -⟩ := h.underlies.exists_full hnode
    exact hplain.properNames location name later hlater
  root := by
    obtain ⟨entries, hfolder⟩ := hplain.root
    exact nodeAt?_folder_erase hfolder
  noLink more target hlink := by
    obtain ⟨later, hlater, hface⟩ := h.underlies.exists_full hlink
    cases hface
    exact hplain.noLink more target hlater

/-! ### What does not depend on it -/

/-- The ways to the source directories that the manifest of a project tells do not enter its generated
project. -/
def SourcesElsewhere (disk : Disk) (folder : List String) : Prop :=
  ∀ text host, disk.readText (Path.ofLocation (folder ++ ["elm.json"])).toString = .ok text →
    Manifest.ofText text (some (Path.ofLocation (folder ++ ["elm.json"])).toString) = .ok host →
      ∀ directory ∈ host.toApplication.sourceDirectories, ∀ location,
        Disk.Passes disk [] ((Path.ofLocation folder).join (.ofString directory.lossy)).parts location →
          ¬ generatedRoot folder <+: location

theorem startOf_join (disk : Disk) (folder : List String) (path : Path) :
    disk.startOf ((Path.ofLocation folder).join path) = [] := by
  by_cases hanchor : path.anchor = .here
  · rw [Disk.startOf, Path.join, if_pos hanchor, if_neg (by simp [Path.ofLocation])]
  · rw [Disk.startOf, Path.join, if_neg hanchor, if_neg hanchor]

section Host

variable (hworn : Worn folder disk) (hdistinct : disk.tree.hasDistinctNames = true)
include hworn hdistinct

/-- A path whose way does not enter the generated project is made canonical alike without it. -/
theorem Worn.locate_eq {path : Path}
    (hclear : ∀ location, Disk.Passes disk (disk.startOf path) path.parts location →
      ¬ generatedRoot folder <+: location) :
    (disk.erase (generatedRoot folder)).locate path = disk.locate path :=
  hworn.underlies_below.locate_eq (hworn.linkCount_eq hdistinct) fun location hpasses =>
    ⟨hclear location hpasses, hclear location hpasses⟩

theorem Worn.sameTests (hplain : Discovery.PlainProject disk folder)
    (hself : Discovery.MatchesItself (disk.erase (generatedRoot folder)) (Path.ofLocation folder).toString)
    (hself' : Discovery.MatchesItself disk (Path.ofLocation folder).toString) :
    Discovery.SameTests (disk.erase (generatedRoot folder)) disk folder where
  plain := hworn.plainProject hplain
  plain' := hplain
  matches_ := hself
  matches' := hself'
  tests :=
    { same := fun more => by
        rw [List.append_assoc]
        refine Disk.nodeAt?_erase (not_generated (by decide) more List.prefix_rfl) fun habove => ?_
        have hprefix := (List.prefix_append_right_inj folder).1 habove
        exact absurd (List.cons_prefix_cons.1 hprefix).1 (by decide)
      noLink := (hworn.plainProject hplain).noLinkOn
      noLink' := hplain.noLinkOn }
  canonical text htext := by
    obtain ⟨more, name, hspells, hproper, -, -⟩ := htext
    refine hworn.locate_eq hdistinct fun location hpasses => ?_
    rw [Disk.startOf, if_neg (Disk.anchor_ofString_ne hspells.absolute),
      Disk.parts_ofString hspells hproper] at hpasses
    rw [List.append_assoc, List.append_assoc] at hpasses hproper
    exact not_generated_of_passes hplain (by decide) hproper hpasses

/-- A folder whose way does not enter the generated project is the same without it. -/
theorem Worn.sameFolder (hdisk : disk.WellFormed) {asked : Path}
    (hclear : ∀ location, Disk.Passes disk (disk.startOf asked) asked.parts location →
      ¬ generatedRoot folder <+: location) :
    SameFolder (disk.erase (generatedRoot folder)) disk asked where
  locate := hworn.locate_eq hdistinct hclear
  isFolder found hfound := by
    rw [hworn.locate_eq hdistinct hclear] at hfound
    obtain ⟨names, rfl, hstands, hpasses⟩ := Disk.exists_passed_of_locate hdisk hfound
    have hlink := hstands.noLinkOn
    obtain ⟨node, hnode, hplain⟩ := hstands
    have hproper := hdisk.proper.of_nodeAt? hnode
    have hnot := hclear names hpasses
    obtain ⟨old, hold, hface⟩ := hworn.underlies_below.exists_bare hnode (fun _ => hnot) fun _ => hnot
    have hlink' : (disk.erase (generatedRoot folder)).NoLinkOn names := by
      intro count target hat
      obtain ⟨later, hlater, hsame⟩ := hworn.underlies.exists_full hat
      cases hsame
      exact hlink count target hlater
    rw [Bool.eq_iff_iff, Disk.isFolder_iff (Path.spells_ofLocation hproper) hproper hlink',
      Disk.isFolder_iff (Path.spells_ofLocation hproper) hproper hlink, hold, hnode]
    cases hface <;> simp

theorem Worn.sameSources (hplain : Discovery.PlainProject disk folder) (hdisk : disk.WellFormed)
    (hsources : SourcesElsewhere disk folder) :
    SameSources (disk.erase (generatedRoot folder)) disk folder := by
  have hbare := hworn.plainProject hplain
  obtain ⟨entries, hfolder⟩ := hplain.root
  obtain ⟨inner, hinner⟩ := hbare.root
  have hproper : ∀ name ∈ folder, ProperName name := hplain.properNames.of_nodeAt? hfolder
  have hmanifest : (disk.erase (generatedRoot folder)).readText
      (Path.ofLocation (folder ++ ["elm.json"])).toString =
        disk.readText (Path.ofLocation (folder ++ ["elm.json"])).toString := by
    have hnot := not_generated (by decide) [] (@List.prefix_rfl _ (folder ++ ["elm.json"]))
    exact hworn.underlies_below.readText_eq (properNames_append hplain (by decide)) hinner
      (hbare.noLink _) hnot hnot
  have hroot {disk : Disk} (hplain : Discovery.PlainProject disk folder) :
      disk.locateLeniently (.ofLocation folder) = .ok (.ofLocation folder) := by
    obtain ⟨entries, hfolder⟩ := hplain.root
    exact Disk.locateLeniently_ofLocation hproper (Disk.stands_of_folder hfolder).noLinkOn
      (Disk.plainly_of_folder hproper hfolder)
  have hgenerated {disk : Disk} (hplain : Discovery.PlainProject disk folder) :
      disk.locateLeniently (.ofLocation (generatedRoot folder)) = .ok (.ofLocation (generatedRoot folder)) := by
    obtain ⟨entries, hfolder⟩ := hplain.root
    have hnames := properNames_append hplain
      (show ∀ name ∈ ["elm-stuff", "tests-0.19.1"], ProperName name by decide)
    refine Disk.locateLeniently_ofLocation hnames (Disk.noLinkOn_append hfolder hplain.noLink) ?_
    refine Disk.plainly_along hnames (by simp) hfolder ?_
    rintro location target ⟨below, -, -, rfl⟩
    exact hplain.noLink below target
  exact
    { cwd := rfl
      manifest := hmanifest
      root := hroot hbare
      root' := hroot hplain
      generated := (hgenerated hbare).trans (hgenerated hplain).symm
      folders := fun text host htext hhost directory hdirectory => by
        refine hworn.sameFolder hdistinct hdisk fun location hpasses => ?_
        rw [startOf_join] at hpasses
        rcases List.mem_append.1 hdirectory with hhosted | htests
        · exact hsources text host (hmanifest ▸ htext) hhost directory hhosted location hpasses
        · have hparts : ((Path.ofLocation folder).join (.ofString directory.lossy)).parts = folder ++ ["tests"] := by
            rw [List.mem_singleton.1 htests, Path.join, if_pos (by decide)]
            rfl
          rw [hparts] at hpasses
          exact not_generated_of_passes hplain (by decide) (properNames_append hplain (by decide)) hpasses }

end Host

namespace Pipeline

/-! ### Runs -/

variable {context : RunContext} {options : RunOptions} {given : Path} {start : World}

/-- A run without targets does not depend on what earlier runs have left in the generated project: it has
the same result, says the same, and asks the same of its tools as the run on the disk without that; and
every file that it writes ends with the same bytes, the others being left as they were. -/
theorem run_regardless_of_leftovers (hworn : Worn folder start.disk)
    (hplain : Discovery.PlainProject start.disk folder) (hdisk : start.disk.WellFormed)
    (hdistinct : start.disk.tree.hasDistinctNames = true)
    (hself : Discovery.MatchesItself (start.disk.erase (generatedRoot folder))
      (Path.ofLocation folder).toString)
    (hself' : Discovery.MatchesItself start.disk (Path.ofLocation folder).toString)
    (hsources : SourcesElsewhere start.disk folder)
    (hlocate : start.disk.locateLeniently given = .ok (.ofLocation folder))
    (hsteady : context.tools.Steady start.compilerCalls) (htargets : options.files = []) :
    ∃ result bare full,
      (run context options given).run { start with disk := start.disk.erase (generatedRoot folder) } =
        (result, bare) ∧
      (run context options given).run start = (result, full) ∧
      bare.lines = full.lines ∧ bare.calls = full.calls ∧
      (∀ location bytes, bare.disk.nodeAt? location = some (.file bytes) →
        full.disk.nodeAt? location = some (.file bytes)) ∧
      ∀ location bytes, full.disk.nodeAt? location = some (.file bytes) →
        bare.disk.nodeAt? location = some (.file bytes) ∨
          bare.disk.nodeAt? location = none ∧ start.disk.nodeAt? location = some (.file bytes) := by
  obtain ⟨entries, hfolder⟩ := hplain.root
  obtain ⟨inner, hinner⟩ := nodeAt?_folder_erase hfolder
  have hlocate' : (start.disk.erase (generatedRoot folder)).locateLeniently given = .ok (.ofLocation folder) :=
    hworn.underlies.locateLeniently (hworn.linkCount_eq hdistinct) (hplain.properNames.of_nodeAt? hfolder)
      hinner hlocate
  have hhost : SameHost (start.disk.erase (generatedRoot folder)) start.disk folder :=
    ⟨hworn.sameTests hdistinct hplain hself hself', hworn.sameSources hdistinct hplain hdisk hsources⟩
  have hready : Ready (start.disk.erase (generatedRoot folder)) start.disk folder start.compilerCalls Stage.all
      {} { start with disk := start.disk.erase (generatedRoot folder) } start :=
    { paired := ⟨.refl _ _, hworn.underlies, fun _ _ hfile _ => hfile, rfl, rfl⟩
      untouched := fun _ => ⟨rfl, rfl⟩
      files := fun hmem => absurd (by decide) hmem
      manifest := fun hmem => absurd (by decide) hmem
      checks := fun _ => rfl
      scripts := fun hmem => absurd (by decide) hmem }
  obtain ⟨result, bare, full, hbare, hfull, hpaired⟩ :=
    hready.runAt hhost hsteady htargets
  have hrun {world final : World} (hcanonical : world.disk.locateLeniently given = .ok (.ofLocation folder))
      (hends : (runAt context options (.ofLocation folder)).run world = (result, final)) :
      (run context options given).run world = (result, final) := by
    have hlocated : (Act.locateLeniently given).run world = (.ok (.ofLocation folder), world) :=
      run_look_eq_ok.2 ⟨hcanonical, rfl⟩
    rw [run, run_bind, hlocated]
    exact hends
  refine ⟨result, bare, full, hrun hlocate' hbare, hrun hlocate hfull, hpaired.lines, hpaired.calls,
    hpaired.disk.bytes, fun location bytes hfile => ?_⟩
  cases hnode : bare.disk.nodeAt? location with
  | none => exact .inr ⟨rfl, hpaired.left location bytes hfile hnode⟩
  | some node =>
      obtain ⟨later, hlater, hface⟩ := hpaired.disk.exists_full hnode
      rw [hfile, Option.some.injEq] at hlater
      subst hlater
      cases hface
      exact .inl rfl

/-- The world after a run on the small project whose tests did not compile. -/
def usedWorld : World :=
  ((run (smallContext 1) {} (.ofString "/p")).run ⟨smallProject, [], []⟩).2

/-- A second run on the small project goes as if there had been none before. -/
theorem run_regardless_of_rejected_tests :
    (usedWorld.disk.nodeAt? (generatedRoot ["p"])).isSome = true ∧ ∃ result bare full,
      (run (smallContext 1) {} (.ofString "/p")).run
          { usedWorld with disk := usedWorld.disk.erase (generatedRoot ["p"]) } = (result, bare) ∧
      (run (smallContext 1) {} (.ofString "/p")).run usedWorld = (result, full) ∧
      bare.lines = full.lines ∧ bare.calls = full.calls ∧
      (∀ location bytes, bare.disk.nodeAt? location = some (.file bytes) →
        full.disk.nodeAt? location = some (.file bytes)) ∧
      ∀ location bytes, full.disk.nodeAt? location = some (.file bytes) →
        bare.disk.nodeAt? location = some (.file bytes) ∨
          bare.disk.nodeAt? location = none ∧ usedWorld.disk.nodeAt? location = some (.file bytes) := by
  have hstart : smallProject.locateLeniently (.ofString "/p") = .ok (.ofLocation ["p"]) ∧
      smallProject.tree.linkCount = 0 ∧ (smallProject.nodeAt? (generatedRoot ["p"])).isSome = false := by
    decide +kernel
  have hused : usedWorld.disk.tree.linkCount = 0 ∧ usedWorld.disk.tree.hasDistinctNames = true ∧
      usedWorld.disk.tree.hasProperNames = true ∧
      (usedWorld.disk.nodeAt? ["p"]).map Node.isFolder = some true ∧
      (usedWorld.disk.nodeAt? usedWorld.disk.cwd).map Node.isFolder = some true ∧
      usedWorld.disk.locateLeniently (.ofString "/p") = .ok (.ofLocation ["p"]) ∧
      (usedWorld.disk.readText (Path.ofLocation ["p", "elm.json"]).toString).toOption = some smallManifest ∧
      (usedWorld.disk.nodeAt? (generatedRoot ["p"])).isSome = true := by
    decide +kernel
  have hnoSources : (Manifest.ofText smallManifest (some (Path.ofLocation ["p", "elm.json"]).toString)).toOption.map
      (fun host => host.toApplication.sourceDirectories) = some [] := by
    decide +kernel
  obtain ⟨hlocateStart, hlinkStart, hnoneStart⟩ := hstart
  obtain ⟨hlink, hdistinct, hproper, hproject, hcwd, hlocate, hmanifest, hleft⟩ := hused
  have hquiet : (smallContext 1).tools.Quiet := ⟨fun _ => rfl, fun _ _ h => (by cases h), rfl, rfl⟩
  have hsteady : (smallContext 1).tools.Steady usedWorld.compilerCalls :=
    ⟨hquiet, rfl, fun _ _ _ hcode => by cases hcode⟩
  have hworn : Worn ["p"] usedWorld.disk := by
    have hstands : smallProject.Stands ["p"] := ⟨_, rfl, by simp⟩
    have hgrounded : Grounded (.ofLocation ["p"]) ["p"] smallProject :=
      ⟨⟨hstands.leads_root (by decide), fun below => Node.at?_ne_link hlinkStart _⟩, ⟨_, rfl⟩,
        fun count => Node.at?_ne_link hlinkStart _⟩
    rw [usedWorld]
    exact .run (.fresh (by simpa using hnoneStart)) hgrounded hquiet hlocateStart
  have hfolder {location : List String} (h : (usedWorld.disk.nodeAt? location).map Node.isFolder = some true) :
      ∃ entries, usedWorld.disk.nodeAt? location = some (.folder entries) := by
    obtain ⟨node, hnode, hkind⟩ := Option.map_eq_some_iff.1 h
    cases node with
    | folder entries => exact ⟨entries, hnode⟩
    | _ => cases hkind
  have hplain : Discovery.PlainProject usedWorld.disk ["p"] :=
    ⟨Disk.properNames_of_tree hproper, hfolder hproject, fun more => Node.at?_ne_link hlink _⟩
  have hself (disk : Disk) : Discovery.MatchesItself disk (Path.ofLocation ["p"]).toString :=
    fun hpattern => absurd hpattern (by decide)
  have hsources : SourcesElsewhere usedWorld.disk ["p"] := by
    intro text host htext hhost directory hdirectory
    rw [List.cons_append, List.nil_append] at htext hhost
    rw [htext, Except.toOption, Option.some.injEq] at hmanifest
    rw [← hmanifest, hhost, Except.toOption, Option.map_some, Option.some.injEq] at hnoSources
    rw [hnoSources] at hdirectory
    cases hdirectory
  have hdisk : usedWorld.disk.WellFormed := ⟨hplain.properNames, hfolder hcwd⟩
  have hagain := @run_regardless_of_leftovers ["p"] (smallContext 1) {} (.ofString "/p") usedWorld hworn hplain
    hdisk hdistinct (hself _) (hself _) hsources hlocate hsteady rfl
  exact ⟨hleft, hagain⟩

end Pipeline

end ElmSuite
