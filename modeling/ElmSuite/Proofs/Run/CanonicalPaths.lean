import ElmSuite.Proofs.Disk.CanonicalEntry
import ElmSuite.Proofs.Run.SourceDirectories

/-!
The paths that a run works with: the test files that patterns match or targets name, and the source
directories.  Each list of them has every entry once, under its canonical path, whichever spellings
and links the entry was asked for by.
-/

namespace ElmSuite

open Act

/-- Every member of the first list is in the relation to one of the second. -/
theorem exists_mem_right {α β : Type} {R : α → β → Prop} {items : List α} {values : List β}
    (h : List.Forall₂ R items values) : ∀ item ∈ items, ∃ value ∈ values, R item value :=
  exists_mem_left h.flip

theorem Act.exists_run_of_toOption {α : Type} {act : Act α} {world : World} {value : α}
    (h : (act.run world).1.toOption = some value) : ∃ after, act.run world = (.ok value, after) := by
  rcases hrun : act.run world with ⟨result, after⟩
  rw [hrun] at h
  cases result with
  | ok found => exact ⟨after, by rw [Option.some.inj h]⟩
  | error trouble => cases h

/-- The paths that are given one by one are the entries that are found, each once. -/
theorem Disk.FindsAll.of_forall₂ {disk : Disk} {kind : Node → Bool} {asked located : List Path}
    (hdisk : disk.WellFormed) (h : List.Forall₂ (disk.Gives kind) asked located) :
    disk.FindsAll kind asked located.eraseDups := by
  refine ⟨.of_nodup hdisk (nodup_eraseDups _) fun path => ?_, fun ask hask => ?_⟩
  · rw [List.mem_eraseDups]
    constructor
    · exact exists_mem_left h path
    · rintro ⟨ask, hask, hgives⟩
      obtain ⟨other, hother, hgives'⟩ := exists_mem_right h ask hask
      have hsame : path = other := Except.ok.inj (hgives.1.symm.trans hgives'.1)
      exact hsame ▸ hother
  · obtain ⟨path, hpath, hgives⟩ := exists_mem_right h ask hask
    exact ⟨path, List.mem_eraseDups.2 hpath, hgives⟩

namespace Discovery

variable {world after : World}

/-- The paths that patterns ask for: their matches. -/
def Matches (disk : Disk) (patterns : List String) (path : Path) : Prop :=
  ∃ pattern ∈ patterns, ∃ matched, Glob.expand disk pattern = .ok matched ∧
    ∃ text ∈ matched, path = .ofString text

/-- The files of a pattern are what its matches give. -/
theorem mem_filesOfPattern {pattern : String} {files : List Path}
    (h : (filesOfPattern pattern).run world = (.ok files, after)) :
    ∃ matched, Glob.expand world.disk pattern = .ok matched ∧
      ∀ path, path ∈ files ↔ ∃ text ∈ matched, world.disk.Gives Node.isFile (.ofString text) path := by
  obtain ⟨matched, _, hlook, h⟩ := run_bind_eq_ok.1 h
  obtain ⟨hmatched, rfl⟩ := run_look_eq_ok.1 hlook
  obtain ⟨results, _, hresults, h⟩ := run_bind_eq_ok.1 h
  cases h
  have hgives := (forall₂_run_of_mapM tolerant_sameDisk.toLasting (keeps_fileOfMatch tolerant_sameDisk)
    hresults).imp fun text result hrun => show ∀ path, result = some path ↔
      world.disk.Gives Node.isFile (.ofString text) path from by
    obtain ⟨before, later, hsame, hrun⟩ := hrun
    intro path
    rw [fileOfMatch_eq_ok hrun, show before.disk = world.disk from hsame, Disk.isFile_eq_true]
    rfl
  refine ⟨matched, hmatched, fun path => ?_⟩
  rw [List.mem_filterMap]
  constructor
  · rintro ⟨result, hresult, hpath⟩
    obtain ⟨text, htext, hgives⟩ := exists_mem_left hgives result hresult
    exact ⟨text, htext, (hgives path).1 hpath⟩
  · rintro ⟨text, htext, hpath⟩
    obtain ⟨result, hresult, hgives⟩ := exists_mem_right hgives text htext
    exact ⟨result, hresult, (hgives path).2 hpath⟩

theorem findsEntries_discover {patterns : List String} {found : List Path}
    (hdisk : world.disk.WellFormed) (h : (discover patterns).run world = (.ok found, after)) :
    world.disk.FindsEntries Node.isFile (Matches world.disk patterns) found := by
  obtain ⟨lists, _, hlists, h⟩ := run_bind_eq_ok.1 h
  cases h
  have hfiles := (forall₂_run_of_mapM tolerant_sameDisk.toLasting
    (keeps_filesOfPattern tolerant_sameDisk) hlists).imp fun pattern files hrun =>
      show ∃ matched, Glob.expand world.disk pattern = .ok matched ∧ ∀ path, path ∈ files ↔
        ∃ text ∈ matched, world.disk.Gives Node.isFile (.ofString text) path from by
    obtain ⟨before, later, hsame, hrun⟩ := hrun
    rw [← show before.disk = world.disk from hsame]
    exact mem_filesOfPattern hrun
  refine .of_nodup hdisk (nodup_eraseDups _) fun path => ?_
  rw [List.mem_eraseDups, List.mem_flatten]
  constructor
  · rintro ⟨files, hmem, hpath⟩
    obtain ⟨pattern, hpattern, matched, hmatched, hiff⟩ := exists_mem_left hfiles files hmem
    obtain ⟨text, htext, hgives⟩ := (hiff path).1 hpath
    exact ⟨_, ⟨pattern, hpattern, matched, hmatched, text, htext, rfl⟩, hgives⟩
  · rintro ⟨_, ⟨pattern, hpattern, matched, hmatched, text, htext, rfl⟩, hgives⟩
    obtain ⟨files, hmem, others, hothers, hiff⟩ := exists_mem_right hfiles pattern hpattern
    obtain rfl : matched = others := Except.ok.inj (hmatched.symm.trans hothers)
    exact ⟨files, hmem, (hiff path).2 ⟨text, htext, hgives⟩⟩

theorem findsAll_canonicalize {targets : List String} {found : List Path}
    (hdisk : world.disk.WellFormed) (h : (canonicalize targets).run world = (.ok found, after)) :
    world.disk.FindsAll Node.isFile (targets.map Path.ofString) found := by
  obtain ⟨located, _, hlocated, h⟩ := run_bind_eq_ok.1 h
  cases h
  refine .of_forall₂ hdisk (List.forall₂_map_left_iff.2 ?_)
  refine (forall₂_run_of_mapM tolerant_sameDisk.toLasting (keeps_fileOfTarget tolerant_sameDisk)
    hlocated).imp ?_
  rintro target path ⟨before, later, hsame, hrun⟩
  rw [← show before.disk = world.disk from hsame]
  obtain ⟨hlocate, hfile⟩ := fileOfTarget_eq_ok hrun
  exact ⟨hlocate, Disk.isFile_eq_true.1 hfile⟩

end Discovery

namespace Synthesis

/-- The paths of source directories and of the tests, as they are asked for. -/
def directoryPaths (directories : List Codes) (root : Path) : List Path :=
  (directories ++ [testsDirectory]).map fun directory => root.join (.ofString directory.lossy)

theorem findsAll_sourceDirectories {directories : List Codes} {root : Path} {found : List Path}
    {world after : World} (hdisk : world.disk.WellFormed)
    (h : (sourceDirectories directories root).run world = (.ok found, after)) :
    world.disk.FindsAll Node.isFolder (directoryPaths directories root) found := by
  obtain ⟨located, hlocated, rfl⟩ := sourceDirectories_eq_ok h
  refine .of_forall₂ hdisk (List.forall₂_map_left_iff.2 (hlocated.imp ?_))
  rintro directory path ⟨hlocate, hfolder⟩
  exact ⟨hlocate, Disk.isFolder_eq_true.1 hfolder⟩

end Synthesis

/-- Whatever searches find, they find under canonical paths and once: patterns and targets give the
regular files that they lead to, source directories the folders. -/
theorem searches_find_entries {world : World} (hdisk : world.disk.WellFormed) :
    (∀ patterns found after, (Discovery.discover patterns).run world = (.ok found, after) →
      world.disk.FindsEntries Node.isFile (Discovery.Matches world.disk patterns) found) ∧
    (∀ targets found after, (Discovery.canonicalize targets).run world = (.ok found, after) →
      world.disk.FindsAll Node.isFile (targets.map Path.ofString) found) ∧
    ∀ directories root found after,
      (Synthesis.sourceDirectories directories root).run world = (.ok found, after) →
        world.disk.FindsAll Node.isFolder (Synthesis.directoryPaths directories root) found := by
  refine ⟨?_, ?_, ?_⟩
  · intro patterns found after
    exact Discovery.findsEntries_discover hdisk
  · intro targets found after
    exact Discovery.findsAll_canonicalize hdisk
  · intro directories root found after
    exact Synthesis.findsAll_sourceDirectories hdisk

/-- A disk with one test file and two links to its folder, one that goes through the other and back
up. -/
def aliasedDisk : Disk :=
  ⟨.folder [("real", .folder [("A.elm", .file [])]), ("tests", .link "real"),
    ("chain", .link "/tests/../tests")], []⟩

theorem searches_find_entries_by_links :
    (∃ after, (Discovery.discover ["/tests/*.elm", "/re*/**/*.elm"]).run ⟨aliasedDisk, [], []⟩ =
        (.ok [.ofLocation ["real", "A.elm"]], after) ∧
      aliasedDisk.FindsEntries Node.isFile
        (Discovery.Matches aliasedDisk ["/tests/*.elm", "/re*/**/*.elm"]) [.ofLocation ["real", "A.elm"]]) ∧
    (∃ after, (Discovery.canonicalize ["/real/A.elm", "chain/../tests/A.elm"]).run
        ⟨aliasedDisk, [], []⟩ = (.ok [.ofLocation ["real", "A.elm"]], after) ∧
      aliasedDisk.FindsAll Node.isFile (["/real/A.elm", "chain/../tests/A.elm"].map Path.ofString)
        [.ofLocation ["real", "A.elm"]]) ∧
    ∃ after, (Synthesis.sourceDirectories [.ofString "chain", .ofString "real"] (.ofLocation [])).run
        ⟨aliasedDisk, [], []⟩ = (.ok [.ofLocation ["real"]], after) ∧
      aliasedDisk.FindsAll Node.isFolder
        (Synthesis.directoryPaths [.ofString "chain", .ofString "real"] (.ofLocation []))
        [.ofLocation ["real"]] := by
  have hdisk : (⟨aliasedDisk, [], []⟩ : World).disk.WellFormed :=
    ⟨Disk.properNames_of_tree (by decide +kernel), ⟨_, rfl⟩⟩
  obtain ⟨hdiscover, hcanonicalize, hsources⟩ := searches_find_entries hdisk
  have hfiles : ((Discovery.discover ["/tests/*.elm", "/re*/**/*.elm"]).run
      ⟨aliasedDisk, [], []⟩).1.toOption = some [.ofLocation ["real", "A.elm"]] := by
    decide +kernel
  have htargets : ((Discovery.canonicalize ["/real/A.elm", "chain/../tests/A.elm"]).run
      ⟨aliasedDisk, [], []⟩).1.toOption = some [.ofLocation ["real", "A.elm"]] := by
    decide +kernel
  have hdirectories : ((Synthesis.sourceDirectories [.ofString "chain", .ofString "real"]
      (.ofLocation [])).run ⟨aliasedDisk, [], []⟩).1.toOption = some [.ofLocation ["real"]] := by
    decide +kernel
  obtain ⟨afterFiles, hfiles⟩ := Act.exists_run_of_toOption hfiles
  obtain ⟨afterTargets, htargets⟩ := Act.exists_run_of_toOption htargets
  obtain ⟨afterDirectories, hdirectories⟩ := Act.exists_run_of_toOption hdirectories
  exact ⟨⟨afterFiles, hfiles, hdiscover _ _ _ hfiles⟩,
    ⟨afterTargets, htargets, hcanonicalize _ _ _ htargets⟩,
    ⟨afterDirectories, hdirectories, hsources _ _ _ _ hdirectories⟩⟩

end ElmSuite
