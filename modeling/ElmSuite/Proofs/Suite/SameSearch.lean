import ElmSuite.Proofs.Disk.Agreement
import ElmSuite.Proofs.Suite.Discovery
import ElmSuite.Proofs.World.Alike

/-!
The same search for test files in two projects with the same tests.  If the root matches nothing but
itself in either of them, both searches find the same files in the same order and say the same.
-/

namespace ElmSuite.Discovery

open Act

variable {first second : Disk} {names : List String} {kept : World → World → Prop}

/-- Two projects on two disks, with the same below `tests` and a root that matches itself. -/
structure SameTests (first second : Disk) (names : List String) : Prop where
  plain : PlainProject first names
  plain' : PlainProject second names
  matches_ : MatchesItself first (Path.ofLocation names).toString
  matches' : MatchesItself second (Path.ofLocation names).toString
  tests : first.Agrees second (names ++ ["tests"])
  canonical : ∀ text, TestMatch names text → first.locate (.ofString text) = second.locate (.ofString text)

/-- Two worlds on these disks. -/
def OnDisks (kept : World → World → Prop) (first second : Disk) (before after : World) : Prop :=
  kept before after ∧ before.disk = first ∧ after.disk = second

theorem testsText_eq (hne : names ≠ []) :
    testsText names = (Path.ofLocation (names ++ ["tests"])).toString := by
  rw [testsText, Path.toString_ofLocation, Path.toString_ofLocation,
    String.intercalate_append_of_ne_nil hne (by simp), String.intercalate_singleton]
  simp only [String.append_assoc]

namespace SameTests

variable (h : SameTests first second names)
include h

theorem hasEntry_eq (hpattern : Glob.isPattern (Path.ofLocation names).toString = true) :
    first.hasEntry (testsText names) = second.hasEntry (testsText names) := by
  have hne : names ≠ [] := by
    rintro rfl
    exact absurd hpattern (by decide)
  obtain ⟨entries, hroot⟩ := h.plain.root
  obtain ⟨entries', hroot'⟩ := h.plain'.root
  rw [testsText_eq hne, Disk.hasEntry_ofLocation h.plain.proper_tests hroot (h.plain.noLink ["tests"]),
    Disk.hasEntry_ofLocation h.plain.proper_tests hroot' (h.plain'.noLink ["tests"]), h.tests.node_eq]

theorem foldersOf_eq {depth : Nat} (hdepth : (testsText names).length < depth) :
    Glob.foldersOf first depth (testsText names) = Glob.foldersOf second depth (testsText names) := by
  rw [foldersOf_testsText h.plain h.matches_ hdepth, foldersOf_testsText h.plain' h.matches' hdepth]
  cases hpattern : Glob.isPattern (Path.ofLocation names).toString with
  | false => rfl
  | true => rw [h.hasEntry_eq hpattern]

theorem agrees_below {more : List String} : first.Agrees second (names ++ ["tests"] ++ more) where
  same below := by simpa using h.tests.same (more ++ below)
  noLink below := by simpa using h.tests.noLink (more ++ below)
  noLink' below := by simpa using h.tests.noLink' (more ++ below)

theorem expand_near_eq :
    Glob.expand first (testsText names ++ "/" ++ "*.elm") =
      Glob.expand second (testsText names ++ "/" ++ "*.elm") := by
  have hdepth : (testsText names).length < (testsText names ++ "/" ++ "*.elm").length := by
    simp only [String.length_append, show "/".length = 1 from rfl]
    omega
  have hpattern : Glob.isPattern (testsText names ++ "/" ++ "*.elm") = true := by
    rw [Glob.isPattern_append, show Glob.isPattern "*.elm" = true by decide, Bool.or_true]
  have hne := h.plain.spells_tests.nonempty
  have hend := getLast?_testsText names
  rw [Glob.expand, Glob.expand, Glob.expandUpTo_append _ false hne hend (by decide) hpattern,
    Glob.expandUpTo_append _ false hne hend (by decide) hpattern, ← h.foldersOf_eq hdepth]
  obtain ⟨folders, hfolders, hcases⟩ := exists_testsFolders h.plain h.matches_ hdepth
  rw [hfolders, ok_bind, ok_bind, @Glob.inFolders_congr first second]
  intro folder hfolder
  obtain rfl : folder = testsText names := by
    rcases hcases with rfl | ⟨rfl, -⟩
    · exact List.mem_singleton.1 hfolder
    · cases hfolder
  exact Glob.inFolder_elm_eq h.plain.properNames h.plain.spells_tests h.plain.proper_tests h.tests

theorem deepFolders_eq {depth : Nat} (hdepth : (testsText names ++ "/" ++ "**").length < depth) :
    Glob.expandUpTo first depth true (testsText names ++ "/" ++ "**") =
      Glob.expandUpTo second depth true (testsText names ++ "/" ++ "**") := by
  obtain ⟨depth, rfl⟩ : ∃ less, depth = less + 1 := Nat.exists_eq_succ_of_ne_zero (by omega)
  have hshort : (testsText names).length < depth := by
    simp only [String.length_append, show "/".length = 1 from rfl, show "**".length = 2 from rfl] at hdepth
    omega
  have hpattern : Glob.isPattern (testsText names ++ "/" ++ "**") = true := by
    rw [Glob.isPattern_append, show Glob.isPattern "**" = true by decide, Bool.or_true]
  have hne := h.plain.spells_tests.nonempty
  have hend := getLast?_testsText names
  rw [Glob.expandUpTo_append depth true hne hend (by decide) hpattern,
    Glob.expandUpTo_append depth true hne hend (by decide) hpattern, ← h.foldersOf_eq hshort]
  obtain ⟨folders, hfolders, hcases⟩ := exists_testsFolders h.plain h.matches_ hshort
  rw [hfolders, ok_bind, ok_bind, Glob.inFolders_congr]
  intro folder hfolder
  obtain rfl : folder = testsText names := by
    rcases hcases with rfl | ⟨rfl, -⟩
    · exact List.mem_singleton.1 hfolder
    · cases hfolder
  exact Glob.inFolder_deep_eq h.plain.properNames h.plain'.properNames h.plain.spells_tests
    h.plain.proper_tests h.tests hend

theorem expand_deep_eq :
    Glob.expand first (testsText names ++ "/" ++ "**" ++ "/" ++ "*.elm") =
      Glob.expand second (testsText names ++ "/" ++ "**" ++ "/" ++ "*.elm") := by
  have hdepth : (testsText names ++ "/" ++ "**").length <
      (testsText names ++ "/" ++ "**" ++ "/" ++ "*.elm").length := by
    simp only [String.length_append, show "/".length = 1 from rfl]
    omega
  have hfolderPattern : Glob.isPattern (testsText names ++ "/" ++ "**") = true := by
    rw [Glob.isPattern_append, show Glob.isPattern "**" = true by decide, Bool.or_true]
  have hpattern : Glob.isPattern (testsText names ++ "/" ++ "**" ++ "/" ++ "*.elm") = true := by
    rw [Glob.isPattern_append, Glob.isPattern_append, hfolderPattern]
    rfl
  have hne : testsText names ++ "/" ++ "**" ≠ "" := by
    intro hempty
    rw [hempty] at hfolderPattern
    exact absurd hfolderPattern (by decide)
  have hend := Path.getLast?_append_ne (testsText names ++ "/") (show "**" ≠ "" by decide) (by decide)
  rw [Glob.expand, Glob.expand, Glob.expandUpTo_append _ false hne hend (by decide) hpattern,
    Glob.expandUpTo_append _ false hne hend (by decide) hpattern, Glob.foldersOf, Glob.foldersOf,
    if_pos hfolderPattern, if_pos hfolderPattern, ← h.deepFolders_eq hdepth]
  obtain ⟨folders, hfolders, hsearched, -⟩ := exists_deepFolders h.plain h.matches_ hdepth
  rw [hfolders, ok_bind, ok_bind, @Glob.inFolders_congr first second]
  intro folder hfolder
  obtain ⟨more, hmore, rfl⟩ := hsearched folder hfolder
  refine Glob.inFolder_elm_eq h.plain.properNames (spells_folderText h.plain hmore) ?_ h.agrees_below
  intro name hname
  exact (List.mem_append.1 hname).elim (h.plain.proper_tests name) (hmore.proper h.plain name)

/-! ### What is found -/

section Alike

variable (hlines : ∀ before after line, kept before after →
  kept { before with lines := before.lines ++ [line] } { after with lines := after.lines ++ [line] })
include hlines

theorem alike_fileOfMatch {text : String} (htext : TestMatch names text) :
    (fileOfMatch text).Alike kept (OnDisks kept first second) (OnDisks kept first second) := by
  have hkept : ∀ before after, OnDisks kept first second before after → kept before after :=
    fun _ _ hon => hon.1
  apply Alike.disk
  rintro before after ⟨-, rfl, rfl⟩
  rw [← h.canonical text htext]
  refine ⟨rfl, ?_⟩
  split
  · next path hpath =>
    apply Alike.disk
    rintro before' after' ⟨-, hbefore, hafter⟩
    have hfile : before.disk.isFile path.toString = after.disk.isFile path.toString := by
      obtain ⟨more, name, hspells, hproper, -, -⟩ := htext
      have hagrees := @agrees_below _ _ _ h (more ++ [name])
      rw [← List.append_assoc] at hagrees
      rcases Disk.locate_of_noLinkOn hspells hproper hagrees.plain with hlocate | ⟨errno, refused, hlocate⟩
      · rw [hlocate, Except.ok.injEq] at hpath
        subst hpath
        exact hagrees.isFile_eq (Path.spells_ofLocation hproper) hproper
          (Disk.getLast?_ofLocation hproper (by simp))
      · rw [hlocate] at hpath
        cases hpath
    rw [hbefore, hafter, hfile]
    exact ⟨rfl, .pure hkept _⟩
  · refine .bind (.say hkept ?_) fun _ => .pure hkept _
    rintro before' after' ⟨hon, hbefore, hafter⟩
    exact ⟨hlines _ _ _ hon, hbefore, hafter⟩
  · exact .result hkept _

theorem alike_filesOfPattern {pattern : String} {found : List String}
    (hfound : Glob.expand first pattern = .ok found)
    (hsame : Glob.expand first pattern = Glob.expand second pattern)
    (hmatch : ∀ text ∈ found, TestMatch names text) :
    (filesOfPattern pattern).Alike kept (OnDisks kept first second) (OnDisks kept first second) := by
  have hkept : ∀ before after, OnDisks kept first second before after → kept before after :=
    fun _ _ hon => hon.1
  have hfiles : (found.mapM fileOfMatch).Alike kept (OnDisks kept first second) (OnDisks kept first second) :=
    .mapM hkept fun text htext => h.alike_fileOfMatch hlines (hmatch text htext)
  intro before after hon
  obtain ⟨result, before', after', hbefore, hafter, hrest⟩ :=
    (hfiles.bind fun files => Alike.pure hkept (files.filterMap id)) before after hon
  refine ⟨result, before', after', ?_, ?_, hrest⟩
  · rw [filesOfPattern, run_bind, run_look, hon.2.1, hfound]
    exact hbefore
  · rw [filesOfPattern, run_bind, run_look, hon.2.2, ← hsame, hfound]
    exact hafter

/-- Without targets, the searches in both projects go alike. -/
theorem alike_collect :
    (collect [] (Path.ofLocation names).toString).Alike kept (OnDisks kept first second)
      (OnDisks kept first second) := by
  have hkept : ∀ before after, OnDisks kept first second before after → kept before after :=
    fun _ _ hon => hon.1
  obtain ⟨near, hnear, hnearMatch⟩ := exists_expand_near h.plain h.matches_
  obtain ⟨deep, hdeep, hdeepMatch, -⟩ := exists_expand_deep h.plain h.matches_
  have hpatterns : ∀ pattern ∈ defaultPatterns (Path.ofLocation names).toString,
      (filesOfPattern pattern).Alike kept (OnDisks kept first second) (OnDisks kept first second) := by
    rw [defaultPatterns_eq]
    intro pattern hpattern
    simp only [List.mem_cons, List.not_mem_nil, or_false] at hpattern
    rcases hpattern with rfl | rfl
    · exact h.alike_filesOfPattern hlines hnear h.expand_near_eq hnearMatch
    · exact h.alike_filesOfPattern hlines hdeep h.expand_deep_eq hdeepMatch
  have hdiscover : (discover (defaultPatterns (Path.ofLocation names).toString)).Alike kept
      (OnDisks kept first second) (OnDisks kept first second) :=
    .bind (.mapM hkept hpatterns) fun _ => .pure hkept _
  refine Alike.bind hdiscover fun files => ?_
  dsimp only
  split
  · exact .bind (.result hkept (.error (.failure _))) fun _ => .pure hkept _
  · exact .pure hkept _

end Alike

end SameTests

end ElmSuite.Discovery
