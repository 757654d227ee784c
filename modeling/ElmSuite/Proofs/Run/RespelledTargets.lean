import ElmSuite.Proofs.Run.CanonicalPaths

/-!
Targets that list the same.  The same patterns and the same files, in any order, any number of times and
by any spellings, make the same files be found: what is found for a target depends on nothing but the
disk, and each file is found once under its canonical path.
-/

namespace ElmSuite.Discovery

open Act

/-- Two targets spell one file: they have one canonical path, or the system is led to one place by
both. -/
def SameFile (disk : Disk) (target other : String) : Prop :=
  disk.locate (.ofString target) = disk.locate (.ofString other) ∨
    ∃ location, disk.LeadsTo (.ofString target) location ∧ disk.LeadsTo (.ofString other) location

/-- Two lists of targets that list the same: the same patterns, and files that are spelled in both. -/
structure Rearranged (disk : Disk) (targets others : List String) : Prop where
  patterns : ∀ pattern, Glob.isPattern pattern = true → (pattern ∈ targets ↔ pattern ∈ others)
  kept : ∀ target ∈ targets, Glob.isPattern target = false →
    ∃ other ∈ others, Glob.isPattern other = false ∧ SameFile disk target other
  meant : ∀ other ∈ others, Glob.isPattern other = false →
    ∃ target ∈ targets, Glob.isPattern target = false ∧ SameFile disk target other

/-- Targets in another order, or repeated, list the same. -/
theorem Rearranged.of_mem_iff (disk : Disk) {targets others : List String}
    (h : ∀ target, target ∈ targets ↔ target ∈ others) : Rearranged disk targets others where
  patterns pattern _ := h pattern
  kept target htarget hplain := ⟨target, (h target).1 htarget, hplain, .inl rfl⟩
  meant other hother hplain := ⟨other, (h other).2 hother, hplain, .inl rfl⟩

theorem SameFile.symm {disk : Disk} {target other : String} (h : SameFile disk target other) :
    SameFile disk other target := by
  rcases h with hsame | ⟨location, hleads, hleads'⟩
  · exact .inl hsame.symm
  · exact .inr ⟨location, hleads', hleads⟩

theorem Rearranged.symm {disk : Disk} {targets others : List String} (h : Rearranged disk targets others) :
    Rearranged disk others targets where
  patterns pattern hpattern := (h.patterns pattern hpattern).symm
  kept other hother hplain := by
    obtain ⟨target, htarget, hplain', hsame⟩ := h.meant other hother hplain
    exact ⟨target, htarget, hplain', hsame.symm⟩
  meant target htarget hplain := by
    obtain ⟨other, hother, hplain', hsame⟩ := h.kept target htarget hplain
    exact ⟨other, hother, hplain', hsame.symm⟩

theorem Rearranged.ne_nil {disk : Disk} {targets others : List String} (h : Rearranged disk targets others)
    (hne : targets ≠ []) : others ≠ [] := by
  obtain ⟨target, htarget⟩ := List.exists_mem_of_ne_nil targets hne
  cases hpattern : Glob.isPattern target with
  | true => exact List.ne_nil_of_mem ((h.patterns target hpattern).1 htarget)
  | false =>
      obtain ⟨other, hother, -⟩ := h.kept target htarget hpattern
      exact List.ne_nil_of_mem hother

/-- A spelling that has a canonical path has that of the file. -/
theorem SameFile.gives {disk : Disk} {target other : String} {path : Path} (h : SameFile disk target other)
    (hdisk : disk.WellFormed) (htarget : disk.Gives Node.isFile (.ofString target) path)
    (hother : ∃ found, disk.locate (.ofString other) = .ok found) :
    disk.Gives Node.isFile (.ofString other) path := by
  obtain ⟨found, hfound⟩ := hother
  have hsame : found = path := by
    rcases h with hlocate | ⟨location, hleads, hleads'⟩
    · rw [← hlocate, htarget.1] at hfound
      exact (Except.ok.inj hfound).symm
    · rw [Disk.eq_ofLocation_of_locate hdisk hleads htarget.1,
        Disk.eq_ofLocation_of_locate hdisk hleads' hfound]
  subst hsame
  exact ⟨hfound, htarget.2⟩

/-! ### What is found depends on the disk -/

section Yields

variable {disk : Disk} {world after : World} {targets others patterns : List String} {root : String}
  {files found : List Path}

theorem yields_fileOfMatch {matched : String} {result : Option Path}
    (h : (fileOfMatch matched).run world = (.ok result, after)) :
    (fileOfMatch matched).Yields world.disk result := by
  intro other hother
  unfold fileOfMatch at h ⊢
  rw [run_bind, run_disk] at h ⊢
  dsimp only at h ⊢
  rw [hother]
  split at h
  · next path hpath =>
    rw [run_bind, run_disk] at h ⊢
    dsimp only at h ⊢
    rw [hother]
    cases h
    exact ⟨other, rfl, hother⟩
  · cases h
    exact ⟨_, rfl, hother⟩
  · cases h

/-- Of a list of actions that has given values, each gives one again if it does so by itself. -/
theorem exists_yields_of_mapM {α β : Type} {f : α → Act β} {items : List α} {values : List β}
    (hkeeps : ∀ item, (f item).Keeps SameDisk)
    (hf : ∀ item value before later, (f item).run before = (.ok value, later) →
      ∃ value, (f item).Yields before.disk value)
    (h : (items.mapM f).run world = (.ok values, after)) :
    ∀ item ∈ items, ∃ value, (f item).Yields world.disk value := by
  intro item hitem
  obtain ⟨value, -, before, later, hsame, hrun⟩ :=
    exists_mem_right (forall₂_run_of_mapM tolerant_sameDisk.toLasting hkeeps h) item hitem
  rw [← show before.disk = world.disk from hsame]
  exact hf item value before later hrun

theorem exists_yields_filesOfPattern {pattern : String}
    (h : (filesOfPattern pattern).run world = (.ok files, after)) :
    ∃ found, (filesOfPattern pattern).Yields world.disk found := by
  obtain ⟨matched, _, hlook, h⟩ := run_bind_eq_ok.1 h
  obtain ⟨hmatched, rfl⟩ := run_look_eq_ok.1 hlook
  obtain ⟨results, _, hresults, -⟩ := run_bind_eq_ok.1 h
  obtain ⟨values, hvalues, -⟩ := exists_mapM_yields (exists_yields_of_mapM
    (keeps_fileOfMatch tolerant_sameDisk) (fun _ result _ _ hrun => ⟨result, yields_fileOfMatch hrun⟩) hresults)
  exact ⟨_, (Yields.look hmatched).bind (hvalues.bind (.pure _ _))⟩

/-- Patterns that were searched are searched again with a result. -/
theorem exists_yields_discover (h : (discover patterns).run world = (.ok files, after))
    (hsubset : others ⊆ patterns) : ∃ found, (discover others).Yields world.disk found := by
  obtain ⟨lists, _, hlists, -⟩ := run_bind_eq_ok.1 h
  have heach := exists_yields_of_mapM (keeps_filesOfPattern tolerant_sameDisk)
    (fun _ _ _ _ hrun => exists_yields_filesOfPattern hrun) hlists
  obtain ⟨values, hvalues, -⟩ := exists_mapM_yields fun pattern hpattern => heach pattern (hsubset hpattern)
  exact ⟨_, hvalues.bind (.pure _ _)⟩

theorem yields_fileOfTarget {target : String} {path : Path}
    (h : disk.Gives Node.isFile (.ofString target) path) : (fileOfTarget target).Yields disk path := by
  intro world hworld
  refine ⟨world, ?_, hworld⟩
  unfold fileOfTarget
  rw [run_bind, run_disk]
  dsimp only
  rw [hworld, h.1]
  dsimp only
  rw [run_bind, run_disk]
  dsimp only
  rw [hworld, if_pos (Disk.isFile_eq_true.2 h.2)]
  rfl

theorem exists_yields_canonicalize
    (h : ∀ target ∈ targets, ∃ path, disk.Gives Node.isFile (.ofString target) path) :
    ∃ found, (canonicalize targets).Yields disk found := by
  have heach : ∀ target ∈ targets, ∃ path, (fileOfTarget target).Yields disk path := by
    intro target htarget
    obtain ⟨path, hpath⟩ := h target htarget
    exact ⟨path, yields_fileOfTarget hpath⟩
  obtain ⟨values, hvalues, -⟩ := exists_mapM_yields heach
  exact ⟨_, hvalues.bind (.pure _ _)⟩

/-- What a pattern or a target stands for. -/
def Lists (disk : Disk) (targets : List String) (path : Path) : Prop :=
  (∃ ask, Matches disk (targets.filter Glob.isPattern) ask ∧ disk.Gives Node.isFile ask path) ∨
    ∃ target ∈ targets, Glob.isPattern target = false ∧ disk.Gives Node.isFile (.ofString target) path

theorem Lists.of_rearranged {path : Path} (h : Lists disk targets path) (hdisk : disk.WellFormed)
    (hothers : Rearranged disk targets others)
    (hlocated : ∀ other ∈ others, Glob.isPattern other = false →
      ∃ found, disk.locate (.ofString other) = .ok found) : Lists disk others path := by
  rcases h with ⟨ask, ⟨pattern, hpattern, hmatch⟩, hgives⟩ | ⟨target, htarget, hplain, hgives⟩
  · obtain ⟨hmem, hispattern⟩ := List.mem_filter.1 hpattern
    have hother := List.mem_filter.2 ⟨(hothers.patterns pattern hispattern).1 hmem, hispattern⟩
    exact .inl ⟨ask, ⟨pattern, hother, hmatch⟩, hgives⟩
  · obtain ⟨other, hother, hplain', hsame⟩ := hothers.kept target htarget hplain
    exact .inr ⟨other, hother, hplain', hsame.gives hdisk hgives (hlocated other hother hplain')⟩

/-- With targets, the files are what they stand for; a target that is no pattern stands for one. -/
theorem mem_candidates (hdisk : world.disk.WellFormed) (hne : targets ≠ [])
    (h : (candidates targets root).run world = (.ok files, after)) :
    (∀ path, path ∈ files ↔ Lists world.disk targets path) ∧
      ∀ target ∈ targets, Glob.isPattern target = false →
        ∃ path, world.disk.Gives Node.isFile (.ofString target) path := by
  rw [candidates, if_neg (by simpa using hne)] at h
  obtain ⟨matched, between, hmatched, h⟩ := run_bind_eq_ok.1 h
  obtain ⟨named, _, hnamed, h⟩ := run_bind_eq_ok.1 h
  cases h
  have hsame : between.disk = world.disk := (keeps_discover tolerant_sameDisk _).of_run hmatched
  have hentries := findsEntries_discover hdisk hmatched
  have hall := findsAll_canonicalize (hsame ▸ hdisk) hnamed
  rw [hsame] at hall
  refine ⟨fun path => ?_, fun target htarget hplain => ?_⟩
  · rw [List.mem_eraseDups, List.mem_append, hentries.mem_iff, hall.mem_iff, Lists]
    refine or_congr_right ?_
    simp only [List.mem_map, List.mem_filter, Bool.not_eq_true']
    constructor
    · rintro ⟨_, ⟨target, ⟨htarget, hplain⟩, rfl⟩, hgives⟩
      exact ⟨target, htarget, hplain, hgives⟩
    · rintro ⟨target, htarget, hplain, hgives⟩
      exact ⟨_, ⟨target, ⟨htarget, hplain⟩, rfl⟩, hgives⟩
  · obtain ⟨path, -, hgives⟩ := hall.answered (.ofString target)
      (List.mem_map_of_mem (List.mem_filter.2 ⟨htarget, by simpa using hplain⟩))
    exact ⟨path, hgives⟩

/-- With targets, it only has to be checked that there are files; the root does not matter. -/
theorem collect_eq (hne : targets ≠ []) (root : String) :
    collect targets root = (do
      let files ← candidates targets ""
      if files.isEmpty then Act.fail (.noTestFiles targets)
      return files) := by
  have htargets : targets.isEmpty = false := by simpa using hne
  unfold collect candidates
  rw [htargets]
  simp only [Bool.false_eq_true, ↓reduceIte, bind_assoc]

theorem exists_yields_candidates (hne : targets ≠ []) (hne' : others ≠ [])
    (h : (candidates targets root).run world = (.ok files, after))
    (hpatterns : ∀ pattern, Glob.isPattern pattern = true → (pattern ∈ targets ↔ pattern ∈ others))
    (hgives : ∀ other ∈ others, Glob.isPattern other = false →
      ∃ path, world.disk.Gives Node.isFile (.ofString other) path) :
    ∃ found, (candidates others "").Yields world.disk found := by
  rw [candidates, if_neg (by simpa using hne)] at h
  obtain ⟨matched, _, hmatched, -⟩ := run_bind_eq_ok.1 h
  have hsubset : others.filter Glob.isPattern ⊆ targets.filter Glob.isPattern := by
    intro pattern hpattern
    rw [List.mem_filter] at hpattern ⊢
    exact ⟨(hpatterns pattern hpattern.2).2 hpattern.1, hpattern.2⟩
  have hplain : ∀ other ∈ others.filter fun other => !Glob.isPattern other,
      ∃ path, world.disk.Gives Node.isFile (.ofString other) path := by
    intro other hother
    rw [List.mem_filter, Bool.not_eq_true'] at hother
    exact hgives other hother.1 hother.2
  obtain ⟨matched', hmatched'⟩ := exists_yields_discover hmatched hsubset
  obtain ⟨named', hnamed'⟩ := exists_yields_canonicalize hplain
  rw [candidates, if_neg (by simpa using hne')]
  exact ⟨_, hmatched'.bind (hnamed'.bind (.pure _ _))⟩

/-- Targets that list the same make the same files be found, whatever else the world holds. -/
theorem exists_collect_of_rearranged (hdisk : world.disk.WellFormed) (hne : targets ≠ [])
    (h : (collect targets root).run world = (.ok files, after))
    (hothers : Rearranged world.disk targets others)
    (hspelled : ∀ other ∈ others, other ∉ targets → Glob.isPattern other = false →
      ∃ path, world.disk.locate (.ofString other) = .ok path) (root' : String) :
    ∃ found, (collect others root').Yields world.disk found ∧ files.Perm found := by
  have hne' := hothers.ne_nil hne
  obtain ⟨hfiles, between, hcandidates⟩ := candidates_of_collect h
  obtain ⟨hlists, hgives⟩ := mem_candidates hdisk hne hcandidates
  have htargets : ∀ target ∈ targets, Glob.isPattern target = false →
      ∃ path, world.disk.locate (.ofString target) = .ok path := by
    intro target htarget hplain
    obtain ⟨path, hpath⟩ := hgives target htarget hplain
    exact ⟨path, hpath.1⟩
  have hlocated : ∀ other ∈ others, Glob.isPattern other = false →
      ∃ path, world.disk.locate (.ofString other) = .ok path := by
    intro other hother hplain
    by_cases hmem : other ∈ targets
    · exact htargets other hmem hplain
    · exact hspelled other hother hmem hplain
  have hothersGive : ∀ other ∈ others, Glob.isPattern other = false →
      ∃ path, world.disk.Gives Node.isFile (.ofString other) path := by
    intro other hother hplain
    obtain ⟨target, htarget, hplain', hsame⟩ := hothers.meant other hother hplain
    obtain ⟨path, hpath⟩ := hgives target htarget hplain'
    exact ⟨path, hsame.gives hdisk hpath (hlocated other hother hplain)⟩
  obtain ⟨found, hfound⟩ :=
    exists_yields_candidates hne hne' hcandidates hothers.patterns hothersGive
  obtain ⟨later, hrun, -⟩ := hfound world rfl
  obtain ⟨hlists', -⟩ := mem_candidates hdisk hne' hrun
  have hperm : files.Perm found := by
    refine (List.perm_ext_iff_of_nodup (nodup_candidates hcandidates) (nodup_candidates hrun)).2 fun path => ?_
    rw [hlists, hlists']
    exact ⟨fun hpath => hpath.of_rearranged hdisk hothers hlocated,
      fun hpath => hpath.of_rearranged hdisk hothers.symm htargets⟩
  refine ⟨found, ?_, hperm⟩
  rw [collect_eq hne' root']
  refine hfound.bind ?_
  rw [if_neg (by simpa using fun hnil : found = [] => hfiles (hnil ▸ hperm).eq_nil)]
  exact .pure _ found

end Yields

end ElmSuite.Discovery
