import Mathlib.Data.List.Nodup
import ElmSuite.Proofs.Disk.Canonical
import ElmSuite.Proofs.World.Effects

/-!
The files that a run collects: there is at least one, none is there twice, and each is a canonical
path, so they are told apart by their texts.  Every one of them becomes a test module.
-/

namespace ElmSuite.Discovery

open Act

variable {world after : World}

/-- A file that a pattern or a target stands for: it is there, under the canonical path of some
text. -/
structure IsCanonical (disk : Disk) (file : Path) : Prop where
  located : ∃ text, disk.locate (.ofString text) = .ok file
  isFile : disk.isFile file.toString = true

/-- A match gives the canonical path that it has, if that is one of a file. -/
theorem fileOfMatch_eq_ok {matched : String} {result : Option Path}
    (h : (fileOfMatch matched).run world = (.ok result, after)) (path : Path) :
    result = some path ↔
      world.disk.locate (.ofString matched) = .ok path ∧ world.disk.isFile path.toString = true := by
  obtain ⟨disk, _, hdisk, h⟩ := run_bind_eq_ok.1 h
  cases hdisk
  split at h
  · next found hfound =>
    obtain ⟨_, _, hdisk, h⟩ := run_bind_eq_ok.1 h
    cases hdisk
    rw [hfound, Except.ok.injEq]
    split at h
    · next hfile =>
      cases h
      rw [Option.some.injEq]
      exact ⟨by rintro rfl; exact ⟨rfl, hfile⟩, And.left⟩
    · next hnofile =>
      cases h
      exact ⟨nofun, by rintro ⟨rfl, hfile⟩; exact absurd hfile hnofile⟩
  · next hfound =>
    obtain ⟨_, _, -, h⟩ := run_bind_eq_ok.1 h
    cases h
    rw [hfound]
    exact ⟨nofun, nofun⟩
  · cases h

/-- A target gives the canonical path that it has, which is one of a file. -/
theorem fileOfTarget_eq_ok {target : String} {path : Path}
    (h : (fileOfTarget target).run world = (.ok path, after)) :
    world.disk.locate (.ofString target) = .ok path ∧ world.disk.isFile path.toString = true := by
  obtain ⟨disk, _, hdisk, h⟩ := run_bind_eq_ok.1 h
  cases hdisk
  split at h
  · next found hfound =>
    obtain ⟨_, _, hdisk, h⟩ := run_bind_eq_ok.1 h
    cases hdisk
    split at h
    · next hfile =>
      cases h
      exact ⟨hfound, hfile⟩
    · cases h
  · cases h
  · cases h

theorem isCanonical_of_filesOfPattern {pattern : String} {files : List Path}
    (h : (filesOfPattern pattern).run world = (.ok files, after)) :
    ∀ file ∈ files, IsCanonical world.disk file := by
  obtain ⟨matched, _, hlook, h⟩ := run_bind_eq_ok.1 h
  obtain ⟨-, rfl⟩ := run_look_eq_ok.1 hlook
  obtain ⟨found, _, hfound, h⟩ := run_bind_eq_ok.1 h
  cases h
  intro file hfile
  rw [List.mem_filterMap] at hfile
  obtain ⟨entry, hentry, rfl⟩ := hfile
  obtain ⟨text, -, before, later, hsame, hrun⟩ :=
    exists_run_of_mem_mapM tolerant_sameDisk.toLasting (keeps_fileOfMatch tolerant_sameDisk) hfound _
      hentry
  obtain ⟨hlocate, hisFile⟩ := (fileOfMatch_eq_ok hrun file).1 rfl
  rw [← show before.disk = world.disk from hsame]
  exact ⟨⟨text, hlocate⟩, hisFile⟩

theorem isCanonical_of_discover {patterns : List String} {files : List Path}
    (h : (discover patterns).run world = (.ok files, after)) :
    ∀ file ∈ files, IsCanonical world.disk file := by
  obtain ⟨lists, _, hlists, h⟩ := run_bind_eq_ok.1 h
  cases h
  intro file hfile
  rw [List.mem_eraseDups, List.mem_flatten] at hfile
  obtain ⟨list, hlist, hmem⟩ := hfile
  obtain ⟨pattern, -, before, later, hsame, hrun⟩ :=
    exists_run_of_mem_mapM tolerant_sameDisk.toLasting (keeps_filesOfPattern tolerant_sameDisk) hlists _
      hlist
  have hcanonical := isCanonical_of_filesOfPattern hrun file hmem
  rwa [show before.disk = world.disk from hsame] at hcanonical

theorem isCanonical_of_canonicalize {targets : List String} {files : List Path}
    (h : (canonicalize targets).run world = (.ok files, after)) :
    ∀ file ∈ files, IsCanonical world.disk file := by
  obtain ⟨found, _, hfound, h⟩ := run_bind_eq_ok.1 h
  cases h
  intro file hfile
  rw [List.mem_eraseDups] at hfile
  obtain ⟨target, -, before, later, hsame, hrun⟩ :=
    exists_run_of_mem_mapM tolerant_sameDisk.toLasting (keeps_fileOfTarget tolerant_sameDisk) hfound _
      hfile
  obtain ⟨hlocate, hisFile⟩ := fileOfTarget_eq_ok hrun
  rw [← show before.disk = world.disk from hsame]
  exact ⟨⟨target, hlocate⟩, hisFile⟩

/-- The files before it is checked that there are some. -/
def candidates (targets : List String) (root : String) : Act (List Path) :=
  if targets.isEmpty then discover (defaultPatterns root)
  else do
    let matched ← discover (targets.filter Glob.isPattern)
    let named ← canonicalize (targets.filter fun target => !Glob.isPattern target)
    pure (matched ++ named).eraseDups

theorem nodup_candidates {targets : List String} {root : String} {files : List Path}
    (h : (candidates targets root).run world = (.ok files, after)) : files.Nodup := by
  unfold candidates at h
  split at h
  · obtain ⟨lists, _, -, h⟩ := run_bind_eq_ok.1 h
    cases h
    exact nodup_eraseDups _
  · obtain ⟨matched, _, -, h⟩ := run_bind_eq_ok.1 h
    obtain ⟨named, _, -, h⟩ := run_bind_eq_ok.1 h
    cases h
    exact nodup_eraseDups _

theorem isCanonical_of_candidates {targets : List String} {root : String} {files : List Path}
    (h : (candidates targets root).run world = (.ok files, after)) :
    ∀ file ∈ files, IsCanonical world.disk file := by
  unfold candidates at h
  split at h
  · exact isCanonical_of_discover h
  · obtain ⟨matched, between, hmatched, h⟩ := run_bind_eq_ok.1 h
    obtain ⟨named, _, hnamed, h⟩ := run_bind_eq_ok.1 h
    cases h
    have hsame := keeps_discover tolerant_sameDisk (targets.filter Glob.isPattern) world
    rw [hmatched] at hsame
    intro file hfile
    rw [List.mem_eraseDups, List.mem_append] at hfile
    rcases hfile with hfile | hfile
    · exact isCanonical_of_discover hmatched file hfile
    · have hcanonical := isCanonical_of_canonicalize hnamed file hfile
      rwa [show between.disk = world.disk from hsame] at hcanonical

theorem candidates_of_collect {targets : List String} {root : String} {files : List Path}
    (h : (collect targets root).run world = (.ok files, after)) :
    files ≠ [] ∧ ∃ between, (candidates targets root).run world = (.ok files, between) := by
  have hfiles : ∀ {patterns : List String} {found : List Path} {between : World},
      (do if found.isEmpty then Act.fail (.noTestFiles patterns)
          return found : Act (List Path)).run between = (.ok files, after) →
        found = files ∧ files ≠ [] := by
    intro patterns found between hrun
    split at hrun
    · cases hrun
    · next hempty =>
      cases hrun
      exact ⟨rfl, fun hnil => hempty (by rw [hnil]; rfl)⟩
  unfold collect at h
  unfold candidates
  dsimp only at h
  split at h
  · next htargets =>
    obtain ⟨found, between, hfound, h⟩ := run_bind_eq_ok.1 h
    obtain ⟨rfl, hne⟩ := hfiles h
    rw [if_pos htargets]
    exact ⟨hne, between, hfound⟩
  · next htargets =>
    obtain ⟨matched, first, hmatched, h⟩ := run_bind_eq_ok.1 h
    obtain ⟨named, second, hnamed, h⟩ := run_bind_eq_ok.1 h
    obtain ⟨found, third, hfound, h⟩ := run_bind_eq_ok.1 h
    obtain ⟨rfl, hne⟩ := hfiles h
    rw [if_neg htargets]
    exact ⟨hne, third, run_bind_eq_ok.2 ⟨_, _, hmatched, run_bind_eq_ok.2 ⟨_, _, hnamed, hfound⟩⟩⟩

/-- What a run collects. -/
theorem collect_eq_ok (hdisk : world.disk.WellFormed) {targets : List String} {root : String}
    {files : List Path} (h : (collect targets root).run world = (.ok files, after)) :
    files ≠ [] ∧ (files.map Path.toString).Nodup := by
  obtain ⟨hne, between, hcandidates⟩ := candidates_of_collect h
  refine ⟨hne, ?_⟩
  refine List.Nodup.map_on ?_ (nodup_candidates hcandidates)
  intro first hfirst second hsecond heq
  obtain ⟨text, hlocate⟩ := (isCanonical_of_candidates hcandidates first hfirst).located
  obtain ⟨text', hlocate'⟩ := (isCanonical_of_candidates hcandidates second hsecond).located
  obtain ⟨names, rfl, hnames⟩ := Disk.exists_location_of_locate hdisk hlocate
  obtain ⟨names', rfl, hnames'⟩ := Disk.exists_location_of_locate hdisk hlocate'
  rw [Path.toString_ofLocation_inj hnames hnames' heq]

end ElmSuite.Discovery

namespace ElmSuite

/-- The test modules are the files in their order, each with the name that its path stands for and
the values that its text exposes. -/
theorem findTests_eq_ok {roots files : List Path} {read : Path → Except Trouble (List Char)}
    {modules : List TestModule} (h : findTests roots read files = .ok modules) :
    modules.map TestModule.path = sortPaths files ∧
      ∀ m ∈ modules, Elm.moduleNameOf roots m.path = .ok m.name ∧
        ∃ source, read m.path = .ok source ∧ m.tests = Elm.exposedValues source := by
  unfold findTests at h
  generalize sortPaths files = sorted at h ⊢
  induction sorted generalizing modules with
  | nil =>
      cases h
      simp
  | cons file rest ih =>
      rw [List.mapM_cons] at h
      obtain ⟨first, hfirst, h⟩ := bind_eq_ok.1 h
      obtain ⟨others, hothers, h⟩ := bind_eq_ok.1 h
      cases h
      obtain ⟨name, hname, hfirst⟩ := bind_eq_ok.1 hfirst
      obtain ⟨source, hsource, hfirst⟩ := bind_eq_ok.1 hfirst
      cases hfirst
      obtain ⟨hpaths, hmodules⟩ := ih hothers
      rw [List.map_cons, hpaths, List.forall_mem_cons]
      exact ⟨rfl, ⟨mapError_eq_ok.1 hname, source, hsource, rfl⟩, hmodules⟩

end ElmSuite
