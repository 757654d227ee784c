import ElmSuite.Proofs.Elm.ModuleNaming
import ElmSuite.Proofs.Suite.Collection

/-!
Test files that all lie below one source directory, their home.  None of them is without a source
directory, and one that is rejected for having several also lies below another root.  So the files are
test modules, one each, as soon as that does not happen, their names are valid and they can be read.
-/

namespace ElmSuite

variable {roots files : List Path} {home file : Path}

namespace Elm

theorem mem_containing {root : Path} : root ∈ containing roots file ↔ root ∈ roots ∧ file.LiesUnder root := by
  simp [containing]

/-- A file below several roots lies below one that is not its home. -/
theorem exists_other_of_several (hnodup : roots.Nodup) (h : 2 ≤ (containing roots file).length)
    (home : Path) : ∃ root ∈ roots, root ≠ home ∧ file.LiesUnder root := by
  have hseveral : (containing roots file).Nodup := hnodup.filter _
  match hroots : containing roots file, h with
  | first :: second :: rest, _ =>
      rw [hroots] at hseveral
      have hne : first ≠ second := fun heq => (List.nodup_cons.1 hseveral).1 (by simp [heq])
      obtain ⟨root, hroot, hother⟩ : ∃ root ∈ containing roots file, root ≠ home := by
        rw [hroots]
        by_cases hfirst : first = home
        · exact ⟨second, by simp, fun hsecond => hne (hfirst.trans hsecond.symm)⟩
        · exact ⟨first, by simp, hfirst⟩
      exact ⟨root, (mem_containing.1 hroot).1, hother, (mem_containing.1 hroot).2⟩

theorem containing_eq_singleton (hnodup : roots.Nodup) (hhome : home ∈ roots) (hunder : file.LiesUnder home)
    (honly : ∀ root ∈ roots, file.LiesUnder root → root = home) : containing roots file = [home] := by
  refine List.perm_singleton.1 ((List.perm_ext_iff_of_nodup (hnodup.filter _) (List.nodup_singleton _)).2 ?_)
  intro root
  rw [← containing, mem_containing, List.mem_singleton]
  exact ⟨fun h => honly root h.1 h.2, fun h => h ▸ ⟨hhome, hunder⟩⟩

end Elm

/-- What goes wrong is no lack of a source directory, and an excess of them only for one of the files that
also lies below a root other than their home. -/
structure BlamesOverlap (roots : List Path) (home : Path) (files : List Path) (trouble : Trouble) : Prop where
  housed : ∀ path, trouble ≠ .failure (.noSourceDirectory path)
  overlap : ∀ path directories, trouble = .failure (.ambiguousSourceDirectory path directories) →
    ∃ file ∈ files, path = file.toString ∧ ∃ root ∈ roots, root ≠ home ∧ file.LiesUnder root

theorem failsOnly_moduleNameOf (hnodup : roots.Nodup) (hhome : home ∈ roots) (hfile : file ∈ files)
    (hunder : file.LiesUnder home) :
    FailsOnly (fun failure => BlamesOverlap roots home files (.failure failure)) (Elm.moduleNameOf roots file) := by
  intro failure h
  have hnaming := Elm.naming_moduleNameOf roots file
  rw [h] at hnaming
  cases hnaming with
  | nowhere hnone =>
      have hmem := Elm.mem_containing.2 ⟨hhome, hunder⟩
      rw [hnone] at hmem
      cases hmem
  | ambiguous hseveral =>
      refine ⟨nofun, fun path directories heq => ?_⟩
      cases heq
      exact ⟨file, hfile, rfl, Elm.exists_other_of_several hnodup hseveral home⟩
  | self | invalid => exact ⟨nofun, nofun⟩

theorem failsOnly_readTestFile (disk : Disk) (file : Path) :
    FailsOnly (BlamesOverlap roots home files) (Discovery.readTestFile disk file) := by
  unfold Discovery.readTestFile
  split
  · exact .ok _
  · exact .error ⟨nofun, nofun⟩
  · exact .error ⟨nofun, nofun⟩
  · exact .error ⟨nofun, nofun⟩

/-- Files below one root are rejected only for what is wrong with them or because of another root. -/
theorem failsOnly_findTests (hnodup : roots.Nodup) (hhome : home ∈ roots)
    (hunder : ∀ file ∈ files, file.LiesUnder home) (disk : Disk) :
    FailsOnly (BlamesOverlap roots home files) (findTests roots (Discovery.readTestFile disk) files) := by
  refine .mapM fun file hfile => ?_
  have hfile : file ∈ files := List.mem_mergeSort.1 hfile
  refine .bind (.mapError (failsOnly_moduleNameOf hnodup hhome hfile (hunder file hfile))) fun _ _ => ?_
  exact .bind (failsOnly_readTestFile disk file) fun _ _ => .ok _

/-- Files that have names and can be read are test modules, one each. -/
theorem exists_findTests {read : Path → Except Trouble (List Char)}
    (hname : ∀ file ∈ files, ∃ name, Elm.moduleNameOf roots file = .ok name)
    (hread : ∀ file ∈ files, ∃ source, read file = .ok source) :
    ∃ modules, findTests roots read files = .ok modules ∧ (modules.map TestModule.path).Perm files := by
  obtain ⟨modules, hmodules, -⟩ := exists_mapM_ok
    (f := fun file => do
      let name ← (Elm.moduleNameOf roots file).mapError Trouble.failure
      return (⟨file, name, Elm.exposedValues (← read file)⟩ : TestModule))
    fun file (hfile : file ∈ sortPaths files) => by
    have hfile : file ∈ files := List.mem_mergeSort.1 hfile
    obtain ⟨name, hname⟩ := hname file hfile
    obtain ⟨source, hsource⟩ := hread file hfile
    exact ⟨⟨file, name, Elm.exposedValues source⟩, by rw [hname, hsource]; rfl⟩
  refine ⟨modules, hmodules, ?_⟩
  rw [(findTests_eq_ok hmodules).1]
  exact List.mergeSort_perm files Path.le

end ElmSuite
