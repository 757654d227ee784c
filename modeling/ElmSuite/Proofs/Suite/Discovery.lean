import ElmSuite.Proofs.Disk.Glob
import ElmSuite.Proofs.World.Actions
import ElmSuite.Suite.Discovery

/-!
What the search for test files finds without targets, in a project below whose root no link stands.
The text of the root is part of the patterns that are searched, so the answer is exact only as far
as the root matches itself and nothing else.
-/

namespace ElmSuite.Discovery

/-- A project whose root is a folder with no link below it. -/
structure PlainProject (disk : Disk) (names : List String) : Prop where
  properNames : disk.ProperNames
  root : ∃ entries, disk.nodeAt? names = some (.folder entries)
  noLink : ∀ more target, disk.nodeAt? (names ++ more) ≠ some (.link target)

/-- A root whose text is no pattern, or one that matches no other folder. -/
def MatchesItself (disk : Disk) (root : String) : Prop :=
  Glob.isPattern root = true → Glob.expandUpTo disk (root.length + 1) true root = .ok [root]

/-- A test file of a project: a file below `tests` that ends like one, with no name below `tests`
hidden, and with a path that the system takes. -/
def IsTestFile (disk : Disk) (names : List String) (path : Path) : Prop :=
  ∃ more name bytes, path = .ofLocation (names ++ ["tests"] ++ more ++ [name]) ∧
    disk.nodeAt? (names ++ ["tests"] ++ more ++ [name]) = some (.file bytes) ∧
      ".elm".toList <:+ name.toList ∧ (∀ part ∈ more ++ [name], Glob.isHidden part = false) ∧
        path.toString.utf8ByteSize < Disk.pathLimit

/-- The text of the folder for tests. -/
def testsText (names : List String) : String :=
  (Path.ofLocation names).toString ++ "/" ++ "tests"

/-- The text of a folder below the folder for tests. -/
def folderText (names more : List String) : String :=
  testsText names ++ "/" ++ "/".intercalate more

variable {disk : Disk} {names more : List String} {name text : String}

theorem defaultPatterns_eq (names : List String) :
    defaultPatterns (Path.ofLocation names).toString =
      [testsText names ++ "/" ++ "*.elm", testsText names ++ "/" ++ "**" ++ "/" ++ "*.elm"] := by
  simp only [defaultPatterns, testsText, String.append_assoc]
  rfl

theorem properName_tests : ProperName "tests" where
  nonempty := by decide
  noSlash := by decide
  noNull := by decide
  notHere := by decide
  notAbove := by decide
  short := by decide

namespace PlainProject

variable (h : PlainProject disk names)

include h

theorem proper_tests : ∀ name ∈ names ++ ["tests"], ProperName name := by
  obtain ⟨entries, hroot⟩ := h.root
  simpa [or_imp, forall_and] using ⟨h.properNames.of_nodeAt? hroot, properName_tests⟩

theorem noLinkOn (more : List String) : disk.NoLinkOn (names ++ ["tests"] ++ more) := by
  obtain ⟨entries, hroot⟩ := h.root
  rw [List.append_assoc]
  exact Disk.noLinkOn_append hroot h.noLink

theorem spells_tests : Path.Spells (testsText names) (names ++ ["tests"]) := by
  obtain ⟨entries, hroot⟩ := h.root
  have hmore : ∀ name ∈ ["tests"], ProperName name := by simpa using properName_tests
  simpa [testsText] using (Path.spells_ofLocation (h.properNames.of_nodeAt? hroot)).append hmore

end PlainProject

theorem getLast?_testsText (names : List String) : (testsText names).toList.getLast? ≠ some '/' :=
  Path.getLast?_append_ne _ (by decide) (by decide)

/-! ### Expansions -/

theorem isPattern_testsText (names : List String) :
    Glob.isPattern (testsText names) = Glob.isPattern (Path.ofLocation names).toString := by
  rw [testsText, Glob.isPattern_append, Glob.isPattern_append, show Glob.isPattern "/" = false by decide,
    show Glob.isPattern "tests" = false by decide, Bool.or_false, Bool.or_false]

/-- A root that is a pattern is not the root of the disk. -/
theorem getLast?_of_isPattern (hproper : ∀ name ∈ names, ProperName name)
    (hpattern : Glob.isPattern (Path.ofLocation names).toString = true) :
    (Path.ofLocation names).toString.toList.getLast? ≠ some '/' := by
  rw [Path.toString_ofLocation] at hpattern ⊢
  by_cases hnil : names = []
  · subst hnil
    exact absurd hpattern (by decide)
  · exact Path.getLast?_append_ne _ (Path.intercalate_ne_empty hproper hnil)
      (Path.getLast?_intercalate_ne hproper)

/-- The search comes to the folder for tests; a root that is a pattern is matched only with what is
there. -/
theorem foldersOf_testsText (h : PlainProject disk names)
    (hself : MatchesItself disk (Path.ofLocation names).toString) {depth : Nat}
    (hdepth : (testsText names).length < depth) :
    Glob.foldersOf disk depth (testsText names) =
      .ok (if Glob.isPattern (Path.ofLocation names).toString && !disk.hasEntry (testsText names) then []
        else [testsText names]) := by
  obtain ⟨entries, hroot⟩ := h.root
  have hproper := h.properNames.of_nodeAt? hroot
  have hspells := Path.spells_ofLocation hproper
  rw [Glob.foldersOf, isPattern_testsText]
  cases hpattern : Glob.isPattern (Path.ofLocation names).toString with
  | false => rfl
  | true =>
      obtain ⟨depth, rfl⟩ : ∃ less, depth = less + 1 := Nat.exists_eq_succ_of_ne_zero (by omega)
      have hend := getLast?_of_isPattern hproper hpattern
      have hshort : (Path.ofLocation names).toString.length < depth := by
        simp only [testsText, String.length_append, show "tests".length = 5 from rfl] at hdepth
        omega
      have hmatch := hself hpattern
      rw [Glob.expandUpTo_eq true (Nat.lt_succ_self _) hshort] at hmatch
      have hunder : Path.under (Path.ofLocation names).toString "tests" = testsText names :=
        Path.under_of_not_slash hspells.nonempty hend (by decide)
      have htests : Glob.isPattern (testsText names) = true := by
        rw [isPattern_testsText, hpattern]
      rw [if_pos rfl, testsText, Glob.expandUpTo_append depth true hspells.nonempty hend (by decide)
        htests, Glob.foldersOf, if_pos hpattern, hmatch, ok_bind, ← testsText]
      have hin : Glob.inFolder disk true (Path.ofLocation names).toString "tests" =
          .ok (if disk.hasEntry (testsText names) then ["tests"] else []) := by
        rw [Glob.inFolder, hunder, if_neg (by decide), if_neg (by decide), if_neg (by decide)]
        rfl
      cases hentry : disk.hasEntry (testsText names) with
      | true =>
          rw [hentry, if_pos rfl] at hin
          rw [Glob.inFolders_singleton hin, List.map_singleton, hunder]
          rfl
      | false =>
          rw [hentry, if_neg (by decide)] at hin
          rw [Glob.inFolders_singleton hin, List.map_nil]
          rfl

/-- The search comes to the folder for tests and to no other, unless there is none. -/
theorem exists_testsFolders (h : PlainProject disk names)
    (hself : MatchesItself disk (Path.ofLocation names).toString) {depth : Nat}
    (hdepth : (testsText names).length < depth) :
    ∃ folders, Glob.foldersOf disk depth (testsText names) = .ok folders ∧
      (folders = [testsText names] ∨ folders = [] ∧ disk.hasEntry (testsText names) = false) := by
  refine ⟨_, foldersOf_testsText h hself hdepth, ?_⟩
  split
  · next hnone => exact .inr ⟨rfl, by simp_all⟩
  · exact .inl rfl

/-- The names of test files in a folder. -/
theorem exists_inFolder_elm {folder : String} {location : List String}
    (hspells : Path.Spells folder location) (hproper : ∀ name ∈ location, ProperName name)
    (hlink : disk.NoLinkOn location) :
    ∃ found, Glob.inFolder disk false folder "*.elm" = .ok found ∧
      ∀ name, name ∈ found ↔ folder.utf8ByteSize < Disk.pathLimit ∧
        (∃ node, disk.nodeAt? (location ++ [name]) = some node) ∧ ".elm".toList <:+ name.toList ∧
          Glob.isHidden name = false := by
  obtain ⟨found, hfound, hmem⟩ := Glob.exists_namesIn false hspells hproper hlink
  refine ⟨found.filter (Glob.matchesName "*.elm"), ?_, fun name => ?_⟩
  · rw [Glob.inFolder, if_neg (by decide), if_pos (by decide), hfound]
    rfl
  · rw [List.mem_filter, hmem, Glob.matchesName_elm]
    simp [and_assoc]

/-- The matches that the last part of a pattern adds to folders. -/
theorem exists_matches {folders : List String}
    (hfolders : ∀ folder ∈ folders, ∃ location, Path.Spells folder location ∧
      (∀ name ∈ location, ProperName name) ∧ disk.NoLinkOn location) :
    ∃ found, Glob.inFolders disk false "*.elm" folders = .ok found ∧
      ∀ text, text ∈ found ↔ ∃ folder ∈ folders, ∃ location name, Path.Spells folder location ∧
        text = Path.under folder name ∧ folder.utf8ByteSize < Disk.pathLimit ∧
          (∃ node, disk.nodeAt? (location ++ [name]) = some node) ∧ ".elm".toList <:+ name.toList ∧
            Glob.isHidden name = false := by
  have hstep : ∀ folder ∈ folders, ∃ found,
      (do return (← Glob.inFolder disk false folder "*.elm").map (Path.under folder)) =
          Except.ok found ∧
        ∀ text, text ∈ found ↔ ∃ location name, Path.Spells folder location ∧
          text = Path.under folder name ∧ folder.utf8ByteSize < Disk.pathLimit ∧
            (∃ node, disk.nodeAt? (location ++ [name]) = some node) ∧
              ".elm".toList <:+ name.toList ∧ Glob.isHidden name = false := by
    intro folder hfolder
    obtain ⟨location, hspells, hproper, hlink⟩ := hfolders folder hfolder
    obtain ⟨found, hfound, hmem⟩ := exists_inFolder_elm hspells hproper hlink
    refine ⟨found.map (Path.under folder), by rw [hfound]; rfl, fun text => ?_⟩
    rw [List.mem_map]
    constructor
    · rintro ⟨name, hname, rfl⟩
      exact ⟨location, name, hspells, rfl, (hmem name).1 hname⟩
    · rintro ⟨other, name, hother, rfl, hname⟩
      obtain rfl : other = location := hother.named.symm.trans hspells.named
      exact ⟨name, (hmem name).2 hname, rfl⟩
  obtain ⟨values, hvalues, hmemValues⟩ := exists_mapM_ok fun folder hfolder =>
    (hstep folder hfolder).imp fun _ h => h.1
  refine ⟨values.flatten, by rw [Glob.inFolders, hvalues]; rfl, fun text => ?_⟩
  rw [List.mem_flatten]
  constructor
  · rintro ⟨value, hvalue, htext⟩
    obtain ⟨folder, hfolder, hok⟩ := (hmemValues value).1 hvalue
    obtain ⟨found, hfound, hmem⟩ := hstep folder hfolder
    rw [hfound] at hok
    cases hok
    exact ⟨folder, hfolder, (hmem text).1 htext⟩
  · rintro ⟨folder, hfolder, htext⟩
    obtain ⟨found, hfound, hmem⟩ := hstep folder hfolder
    exact ⟨found, (hmemValues found).2 ⟨folder, hfolder, hfound⟩, (hmem text).2 htext⟩

/-- The ways below the folder for tests that are searched. -/
def Searched (disk : Disk) (names more : List String) : Prop :=
  more = [] ∨ Glob.FoundBelow disk (testsText names) (names ++ ["tests"]) (Glob.depthBound disk) more

theorem Searched.proper (h : PlainProject disk names) (hmore : Searched disk names more) :
    ∀ name ∈ more, ProperName name := by
  rcases hmore with rfl | ⟨-, -, -, entries, hnode⟩
  · simp
  · exact fun name hmem => h.properNames.of_nodeAt? hnode name (List.mem_append_right _ hmem)

theorem under_testsText (h : PlainProject disk names) (hmore : ∀ name ∈ more, ProperName name) :
    Path.under (testsText names) ("/".intercalate more) = folderText names more :=
  Path.under_of_not_slash h.spells_tests.nonempty (getLast?_testsText names)
    (Path.head?_intercalate_ne fun name hname => Path.isPart_of_properName (hmore name hname))

/-- The folders that the second pattern searches. -/
theorem exists_deepFolders (h : PlainProject disk names)
    (hself : MatchesItself disk (Path.ofLocation names).toString) {depth : Nat}
    (hdepth : (testsText names ++ "/" ++ "**").length < depth) :
    ∃ folders, Glob.expandUpTo disk depth true (testsText names ++ "/" ++ "**") = .ok folders ∧
      (∀ folder ∈ folders, ∃ more, Searched disk names more ∧ folder = folderText names more) ∧
        (disk.hasEntry (testsText names) = true →
          ∀ more, Searched disk names more → folderText names more ∈ folders) := by
  obtain ⟨depth, rfl⟩ : ∃ less, depth = less + 1 := Nat.exists_eq_succ_of_ne_zero (by omega)
  have hshort : (testsText names).length < depth := by
    simp only [String.length_append, show "/".length = 1 from rfl, show "**".length = 2 from rfl]
      at hdepth
    omega
  have hspells := h.spells_tests
  have hend := getLast?_testsText names
  have hpattern : Glob.isPattern (testsText names ++ "/" ++ "**") = true := by
    rw [Glob.isPattern_append, show Glob.isPattern "**" = true by decide, Bool.or_true]
  rw [Glob.expandUpTo_append depth true hspells.nonempty hend (by decide) hpattern]
  obtain ⟨folders, hfolders, hcases⟩ := exists_testsFolders h hself hshort
  rw [hfolders, ok_bind]
  rcases hcases with rfl | ⟨rfl, hentry⟩
  · obtain ⟨found, hfound, hmem⟩ := Glob.exists_below h.properNames (Glob.depthBound disk) hspells hend
      h.proper_tests h.noLinkOn
    have hin : Glob.inFolder disk true (testsText names) "**" = .ok ("" :: found) := by
      rw [Glob.inFolder, if_pos (by decide), hfound]
      rfl
    refine ⟨("" :: found).map (Path.under (testsText names)), Glob.inFolders_singleton hin, ?_, ?_⟩
    · intro folder hfolder
      obtain ⟨text, htext, rfl⟩ := List.mem_map.1 hfolder
      rcases List.mem_cons.1 htext with rfl | htext
      · have hnone : ∀ name ∈ ([] : List String), ProperName name := by simp
        have hunder := under_testsText h hnone
        rw [String.intercalate_nil] at hunder
        exact ⟨[], .inl rfl, hunder⟩
      · obtain ⟨more, -, rfl, hmore⟩ := (hmem text).1 htext
        have hsearched : Searched disk names more := .inr hmore
        exact ⟨more, hsearched, under_testsText h (hsearched.proper h)⟩
    · intro _ more hsearched
      rw [← under_testsText h (hsearched.proper h)]
      apply List.mem_map_of_mem
      by_cases hne : more = []
      · rw [hne, String.intercalate_nil]
        exact List.mem_cons_self
      · have hmore := hsearched.resolve_left hne
        exact List.mem_cons_of_mem _ ((hmem _).2 ⟨more, hne, rfl, hmore⟩)
  · refine ⟨[], rfl, fun folder hfolder => absurd hfolder List.not_mem_nil, fun hsome => ?_⟩
    rw [hentry] at hsome
    cases hsome

/-! ### Matches -/

/-- A text that goes along the names of an entry that is named like a test file. -/
def TestMatch (names : List String) (text : String) : Prop :=
  ∃ more name, Path.Spells text (names ++ ["tests"] ++ more ++ [name]) ∧
    (∀ part ∈ names ++ ["tests"] ++ more ++ [name], ProperName part) ∧
      ".elm".toList <:+ name.toList ∧ ∀ part ∈ more ++ [name], Glob.isHidden part = false

theorem spells_folderText (h : PlainProject disk names) (hmore : Searched disk names more) :
    Path.Spells (folderText names more) (names ++ ["tests"] ++ more) :=
  h.spells_tests.append (hmore.proper h)

theorem testMatch_of_folder {folder : String} (h : PlainProject disk names)
    (hmore : Searched disk names more) (hspells : Path.Spells folder (names ++ ["tests"] ++ more))
    {node : Node} (hnode : disk.nodeAt? (names ++ ["tests"] ++ more ++ [name]) = some node)
    (hname : ".elm".toList <:+ name.toList) (hhidden : Glob.isHidden name = false) :
    TestMatch names (Path.under folder name) := by
  have hproper := h.properNames.of_nodeAt? hnode
  refine ⟨more, name, hspells.under (hproper name (by simp)), hproper, hname, fun part hpart => ?_⟩
  rcases List.mem_append.1 hpart with hpart | hpart
  · rcases hmore with rfl | ⟨-, hhiddenMore, -⟩
    · cases hpart
    · exact hhiddenMore part hpart
  · rw [List.mem_singleton.1 hpart]
    exact hhidden

/-- An absolute pattern has no empty match. -/
theorem expand_eq {pattern : String} {found : List String}
    (hfound : Glob.expandUpTo disk (pattern.length + 1) false pattern = .ok found)
    (hne : ∀ text ∈ found, text ≠ "") : Glob.expand disk pattern = .ok found := by
  rw [Glob.expand, hfound, ok_bind]
  split
  · exact absurd rfl (hne "" List.mem_cons_self)
  · rfl

/-- What the last part of a pattern matches in folders that are searched. -/
theorem exists_testMatches (h : PlainProject disk names) {folders : List String}
    (hfolders : ∀ folder ∈ folders, ∃ more, Searched disk names more ∧
      Path.Spells folder (names ++ ["tests"] ++ more)) :
    ∃ found, Glob.inFolders disk false "*.elm" folders = .ok found ∧
      (∀ text ∈ found, TestMatch names text) ∧
        ∀ folder ∈ folders, ∀ location name node, Path.Spells folder location →
          folder.utf8ByteSize < Disk.pathLimit → disk.nodeAt? (location ++ [name]) = some node →
            ".elm".toList <:+ name.toList → Glob.isHidden name = false →
              Path.under folder name ∈ found := by
  have hlocations : ∀ folder ∈ folders, ∃ location, Path.Spells folder location ∧
      (∀ name ∈ location, ProperName name) ∧ disk.NoLinkOn location := by
    intro folder hfolder
    obtain ⟨more, hmore, hspells⟩ := hfolders folder hfolder
    have hproper : ∀ name ∈ names ++ ["tests"] ++ more, ProperName name := fun name hmem =>
      (List.mem_append.1 hmem).elim (h.proper_tests name) (hmore.proper h name)
    exact ⟨_, hspells, hproper, h.noLinkOn more⟩
  obtain ⟨found, hfound, hmem⟩ := exists_matches hlocations
  refine ⟨found, hfound, fun text htext => ?_, ?_⟩
  · obtain ⟨folder, hfolder, location, name, hspells, rfl, -, ⟨node, hnode⟩, hname, hhidden⟩ :=
      (hmem text).1 htext
    obtain ⟨more, hmore, hsearched⟩ := hfolders folder hfolder
    obtain rfl : location = _ := hspells.named.symm.trans hsearched.named
    exact testMatch_of_folder h hmore hsearched hnode hname hhidden
  · intro folder hfolder location name node hspells hsize hnode hname hhidden
    exact (hmem _).2 ⟨folder, hfolder, location, name, hspells, rfl, hsize, ⟨node, hnode⟩, hname, hhidden⟩

/-- The first pattern matches nothing but what is named like a test file. -/
theorem exists_expand_near (h : PlainProject disk names)
    (hself : MatchesItself disk (Path.ofLocation names).toString) :
    ∃ found, Glob.expand disk (testsText names ++ "/" ++ "*.elm") = .ok found ∧
      ∀ text ∈ found, TestMatch names text := by
  have hdepth : (testsText names).length < (testsText names ++ "/" ++ "*.elm").length := by
    simp only [String.length_append, show "/".length = 1 from rfl]
    omega
  obtain ⟨folders, hfolders, hcases⟩ := exists_testsFolders h hself hdepth
  have hsearched : ∀ folder ∈ folders, ∃ more, Searched disk names more ∧
      Path.Spells folder (names ++ ["tests"] ++ more) := by
    rcases hcases with rfl | ⟨rfl, -⟩
    · intro folder hfolder
      rw [List.mem_singleton.1 hfolder]
      exact ⟨[], .inl rfl, by simpa using h.spells_tests⟩
    · exact fun folder hfolder => absurd hfolder List.not_mem_nil
  obtain ⟨found, hfound, hmem, -⟩ := exists_testMatches h hsearched
  refine ⟨found, expand_eq ?_ fun text htext => ?_, hmem⟩
  · rw [Glob.expandUpTo_append _ false h.spells_tests.nonempty (getLast?_testsText names) (by decide)
      (by rw [Glob.isPattern_append, show Glob.isPattern "*.elm" = true by decide, Bool.or_true]),
      hfolders]
    exact hfound
  · obtain ⟨more, name, hspells, -⟩ := hmem text htext
    exact hspells.nonempty

theorem size_intercalate_append {first second : List String} (hfirst : first ≠ [])
    (hsecond : second ≠ []) :
    ("/".intercalate (first ++ second)).utf8ByteSize =
      ("/".intercalate first).utf8ByteSize + 1 + ("/".intercalate second).utf8ByteSize := by
  rw [String.intercalate_append_of_ne_nil hfirst hsecond, String.utf8ByteSize_append,
    String.utf8ByteSize_append]
  rfl

theorem size_testsText (names : List String) :
    (testsText names).utf8ByteSize ≤ ("/".intercalate (names ++ ["tests"])).utf8ByteSize + 2 := by
  have htests : "tests".utf8ByteSize = 5 := by decide
  rw [testsText, Path.toString_ofLocation]
  by_cases hnil : names = []
  · subst hnil
    decide
  · rw [size_intercalate_append hnil (by simp)]
    simp only [String.utf8ByteSize_append, String.intercalate_singleton, htests,
      show "/".utf8ByteSize = 1 by decide]
    omega

/-- The text of a folder is shorter than the path of a test file in it. -/
theorem size_folderText_lt (names more : List String) (hname : ".elm".toList <:+ name.toList) :
    (folderText names more).utf8ByteSize <
      (Path.ofLocation (names ++ ["tests"] ++ more ++ [name])).toString.utf8ByteSize := by
  obtain ⟨chars, hchars⟩ := hname
  have hsplit : name = String.ofList chars ++ ".elm" := by
    rw [← String.toList_inj, ← hchars]
    simp
  have hsize : 4 ≤ name.utf8ByteSize := by
    rw [hsplit, String.utf8ByteSize_append, show ".elm".utf8ByteSize = 4 by decide]
    omega
  have htests := size_testsText names
  rw [Path.toString_ofLocation, String.utf8ByteSize_append,
    size_intercalate_append (by simp) (by simp), folderText, String.utf8ByteSize_append,
    String.utf8ByteSize_append, String.intercalate_singleton, show "/".utf8ByteSize = 1 by decide]
  by_cases hmore : more = []
  · subst hmore
    rw [String.intercalate_nil, List.append_nil, String.utf8ByteSize_empty]
    omega
  · rw [size_intercalate_append (by simp) hmore]
    omega

/-- Where a test file stands, the folder that it stands in is searched. -/
theorem searched_of_file {bytes : List UInt8}
    (hnode : disk.nodeAt? (names ++ ["tests"] ++ more ++ [name]) = some (.file bytes))
    (hsize : (folderText names more).utf8ByteSize < Disk.pathLimit)
    (hhidden : ∀ part ∈ more, Glob.isHidden part = false) : Searched disk names more := by
  obtain ⟨entries, hfolder⟩ := Disk.exists_folder_of_append hnode (by simp)
  have hheight := Node.length_add_height_le hfolder
  refine .inr ⟨?_, hhidden, hsize, entries, hfolder⟩
  simp only [List.length_append] at hheight
  have hbound : disk.tree.height + 1 ≤ (Disk.linkLimit + 1) * (disk.tree.height + 1) :=
    Nat.le_mul_of_pos_left _ (by decide)
  rw [Glob.depthBound]
  omega

/-- The second pattern matches every test file. -/
theorem exists_expand_deep (h : PlainProject disk names)
    (hself : MatchesItself disk (Path.ofLocation names).toString) :
    ∃ found, Glob.expand disk (testsText names ++ "/" ++ "**" ++ "/" ++ "*.elm") = .ok found ∧
      (∀ text ∈ found, TestMatch names text) ∧
        ∀ path, IsTestFile disk names path → ∃ text ∈ found, ∃ location,
          path = .ofLocation location ∧ Path.Spells text location := by
  have hdepth : (testsText names ++ "/" ++ "**").length <
      (testsText names ++ "/" ++ "**" ++ "/" ++ "*.elm").length := by
    simp only [String.length_append, show "/".length = 1 from rfl]
    omega
  obtain ⟨folders, hfolders, hsound, hcomplete⟩ := exists_deepFolders h hself hdepth
  have hsearched : ∀ folder ∈ folders, ∃ more, Searched disk names more ∧
      Path.Spells folder (names ++ ["tests"] ++ more) := by
    intro folder hfolder
    obtain ⟨more, hmore, rfl⟩ := hsound folder hfolder
    exact ⟨more, hmore, spells_folderText h hmore⟩
  obtain ⟨found, hfound, hmem, hall⟩ := exists_testMatches h hsearched
  have hpattern : Glob.isPattern (testsText names ++ "/" ++ "**") = true := by
    rw [Glob.isPattern_append, show Glob.isPattern "**" = true by decide, Bool.or_true]
  refine ⟨found, expand_eq ?_ fun text htext => ?_, hmem, ?_⟩
  · rw [Glob.expandUpTo_append _ false ?_ (Path.getLast?_append_ne _ (by decide) (by decide))
      (by decide) (by rw [Glob.isPattern_append, Glob.isPattern_append, hpattern]; rfl),
      Glob.foldersOf, if_pos hpattern, hfolders]
    · exact hfound
    · intro hempty
      rw [hempty] at hpattern
      exact absurd hpattern (by decide)
  · obtain ⟨more, name, hspells, -⟩ := hmem text htext
    exact hspells.nonempty
  · rintro path ⟨more, name, bytes, rfl, hnode, hname, hhidden, hsize⟩
    have hfolderSize := Nat.lt_trans (size_folderText_lt names more hname) hsize
    have hmore := searched_of_file hnode hfolderSize fun part hpart =>
      hhidden part (List.mem_append_left _ hpart)
    have hspells := spells_folderText h hmore
    have hentry : disk.hasEntry (testsText names) = true := by
      rw [List.append_assoc] at hnode
      obtain ⟨entries, htests⟩ := Disk.exists_folder_of_append hnode (by simp)
      refine Disk.hasEntry_of_nodeAt? h.spells_tests h.proper_tests ?_ htests (by simp)
        (getLast?_testsText names)
      rw [folderText, String.utf8ByteSize_append, String.utf8ByteSize_append] at hfolderSize
      omega
    refine ⟨_, hall _ (hcomplete hentry more hmore) _ name _ hspells hfolderSize hnode hname
      (hhidden name (by simp)), _, rfl, hspells.under (h.properNames.of_nodeAt? hnode name (by simp))⟩

/-! ### Files -/

/-- The file that a match stands for, if it is one. -/
theorem exists_fileOfMatch {location : List String} (hspells : Path.Spells text location)
    (hproper : ∀ name ∈ location, ProperName name) (hlink : disk.NoLinkOn location)
    (hne : location ≠ []) :
    ∃ result, (fileOfMatch text).Yields disk result ∧
      ∀ path, result = some path ↔ path = .ofLocation location ∧
        path.toString.utf8ByteSize < Disk.pathLimit ∧
          ∃ bytes, disk.nodeAt? location = some (.file bytes) := by
  have hend : (Path.ofLocation location).toString.toList.getLast? ≠ some '/' := by
    rw [Path.toString_ofLocation]
    exact Path.getLast?_append_ne _ (Path.intercalate_ne_empty hproper hne)
      (Path.getLast?_intercalate_ne hproper)
  have hfile := Disk.isFile_iff (Path.spells_ofLocation hproper) hproper hlink hend
  rcases Disk.locate_of_noLinkOn hspells hproper hlink with hlocate | ⟨errno, refused, hlocate⟩
  · refine ⟨if disk.isFile (Path.ofLocation location).toString then some (.ofLocation location) else none,
      fun world hworld => ⟨world, ?_, hworld⟩, fun path => ?_⟩
    · simp only [fileOfMatch, Act.run_bind, Act.run_disk, hworld, hlocate]
      split <;> simp_all
    · rw [Option.ite_none_right_eq_some, hfile, Option.some.injEq]
      constructor
      · rintro ⟨⟨hsize, hnode⟩, rfl⟩
        exact ⟨rfl, hsize, hnode⟩
      · rintro ⟨rfl, hsize, hnode⟩
        exact ⟨⟨hsize, hnode⟩, rfl⟩
  · refine ⟨none, fun world hworld => ?_, fun path => ⟨fun h => (by cases h), ?_⟩⟩
    · simp only [fileOfMatch, Act.run_bind, Act.run_disk, hworld, hlocate, Fault.refused]
      exact ⟨_, rfl, hworld⟩
    · rintro ⟨rfl, hsize, bytes, hnode⟩
      rw [Disk.locate_of_nodeAt? hspells hproper hsize hnode (by simp)] at hlocate
      cases hlocate

/-- The files of a pattern that matches nothing but what is named like a test file: test files. -/
theorem exists_filesOfPattern (h : PlainProject disk names) {pattern : String} {found : List String}
    (hfound : Glob.expand disk pattern = .ok found) (hmatch : ∀ text ∈ found, TestMatch names text) :
    ∃ files, (filesOfPattern pattern).Yields disk files ∧
      (∀ path ∈ files, IsTestFile disk names path) ∧
        ∀ text ∈ found, ∀ location, Path.Spells text location →
          IsTestFile disk names (.ofLocation location) → .ofLocation location ∈ files := by
  have hresult : ∀ text ∈ found, ∃ result, (fileOfMatch text).Yields disk result ∧
      (∀ path, result = some path → IsTestFile disk names path) ∧
        ∀ location, Path.Spells text location → IsTestFile disk names (.ofLocation location) →
          result = some (.ofLocation location) := by
    intro text htext
    obtain ⟨more, name, hspells, hproper, hname, hhidden⟩ := hmatch text htext
    have hlink := h.noLinkOn (more ++ [name])
    rw [← List.append_assoc] at hlink
    obtain ⟨result, hyields, hiff⟩ := exists_fileOfMatch hspells hproper hlink (by simp)
    refine ⟨result, hyields, ?_, ?_⟩
    · intro path hpath
      obtain ⟨rfl, hsize, bytes, hnode⟩ := (hiff path).1 hpath
      exact ⟨more, name, bytes, rfl, hnode, hname, hhidden, hsize⟩
    · intro location hlocation hfile
      obtain rfl : location = _ := hlocation.named.symm.trans hspells.named
      obtain ⟨_, _, bytes, hpath, hnode, -, -, hsize⟩ := hfile
      rw [← Path.ofLocation_inj.1 hpath] at hnode
      exact (hiff _).2 ⟨rfl, hsize, bytes, hnode⟩
  have hyields : ∀ text ∈ found, ∃ result, (fileOfMatch text).Yields disk result := by
    intro text htext
    obtain ⟨result, hyields, -⟩ := hresult text htext
    exact ⟨result, hyields⟩
  obtain ⟨results, hresults, hmem⟩ := Act.exists_mapM_yields hyields
  refine ⟨results.filterMap id, (Act.Yields.look hfound).bind (hresults.bind (.pure disk _)), ?_, ?_⟩
  · intro path hpath
    obtain ⟨result, hin, hsome⟩ := List.mem_filterMap.1 hpath
    obtain ⟨text, htext, hyield⟩ := (hmem result).1 hin
    obtain ⟨other, hother, hsound, -⟩ := hresult text htext
    rw [hyield.unique hother] at hsome
    exact hsound path hsome
  · intro text htext location hspells hfile
    obtain ⟨result, hyield, -, hcomplete⟩ := hresult text htext
    exact List.mem_filterMap.2 ⟨result, (hmem result).2 ⟨text, htext, hyield⟩,
      hcomplete location hspells hfile⟩

/-- The search without targets gives the test files, each once. -/
theorem exists_discover (h : PlainProject disk names)
    (hself : MatchesItself disk (Path.ofLocation names).toString) :
    ∃ files, (discover (defaultPatterns (Path.ofLocation names).toString)).Yields disk files ∧
      files.Nodup ∧ ∀ path, path ∈ files ↔ IsTestFile disk names path := by
  obtain ⟨near, hnear, hnearMatch⟩ := exists_expand_near h hself
  obtain ⟨deep, hdeep, hdeepMatch, hall⟩ := exists_expand_deep h hself
  obtain ⟨nearFiles, hnearFiles, hnearSound, -⟩ := exists_filesOfPattern h hnear hnearMatch
  obtain ⟨deepFiles, hdeepFiles, hdeepSound, hdeepComplete⟩ :=
    exists_filesOfPattern h hdeep hdeepMatch
  refine ⟨(nearFiles ++ deepFiles).eraseDups, ?_, nodup_eraseDups _, ?_⟩
  · have hboth := hnearFiles.mapM_cons (hdeepFiles.mapM_cons (.mapM_nil disk filesOfPattern))
    rw [discover, defaultPatterns_eq]
    refine hboth.bind ?_
    simpa using Act.Yields.pure disk (nearFiles ++ deepFiles).eraseDups
  · intro path
    rw [List.mem_eraseDups, List.mem_append]
    constructor
    · rintro (hpath | hpath)
      · exact hnearSound path hpath
      · exact hdeepSound path hpath
    · intro hpath
      obtain ⟨text, htext, location, rfl, hspells⟩ := hall path hpath
      exact .inr (hdeepComplete text htext location hspells hpath)

/-- Without targets, the test files of a project are found, each once, or there are none and the
search fails with the patterns. -/
theorem collect_default {world : World} (h : PlainProject world.disk names)
    (hself : MatchesItself world.disk (Path.ofLocation names).toString) :
    (∃ files after, (collect [] (Path.ofLocation names).toString).run world = (.ok files, after) ∧
        files ≠ [] ∧ files.Nodup ∧ ∀ path, path ∈ files ↔ IsTestFile world.disk names path) ∨
      (∀ path, ¬ IsTestFile world.disk names path) ∧
        ∃ after, (collect [] (Path.ofLocation names).toString).run world =
          (.error (.failure (.noTestFiles (defaultPatterns (Path.ofLocation names).toString))), after) := by
  obtain ⟨files, hyields, hnodup, hmem⟩ := exists_discover h hself
  obtain ⟨after, hrun, -⟩ := hyields world rfl
  rcases files with _ | ⟨first, rest⟩
  · right
    refine ⟨fun path hpath => absurd ((hmem path).2 hpath) List.not_mem_nil, after, ?_⟩
    simp [collect, hrun]
    rfl
  · left
    refine ⟨first :: rest, after, ?_, by simp, hnodup, hmem⟩
    simp [collect, hrun]

/-- A disk with a single test file, in a project of the given name. -/
def singleTest (project : String) : Disk :=
  ⟨.folder [(project, .folder [("tests", .folder [("Test.elm", .file [])])])], []⟩

theorem collect_singleTest :
    (∃ files after, (collect [] (Path.ofLocation ["p"]).toString).run ⟨singleTest "p", [], []⟩ =
          (.ok files, after) ∧
        files ≠ [] ∧ files.Nodup ∧ ∀ path, path ∈ files ↔ IsTestFile (singleTest "p") ["p"] path) ∨
      (∀ path, ¬ IsTestFile (singleTest "p") ["p"] path) ∧
        ∃ after, (collect [] (Path.ofLocation ["p"]).toString).run ⟨singleTest "p", [], []⟩ =
          (.error (.failure (.noTestFiles (defaultPatterns (Path.ofLocation ["p"]).toString))), after) := by
  have hproject : PlainProject (singleTest "p") ["p"] := by
    refine ⟨Disk.properNames_of_tree (by decide +kernel), ⟨_, rfl⟩, fun more target => ?_⟩
    exact Node.at?_ne_link (by decide +kernel) _ target
  have hself : MatchesItself (singleTest "p") (Path.ofLocation ["p"]).toString := by
    intro hpattern
    exact absurd hpattern (by decide +kernel)
  exact collect_default hproject hself

-- A root whose name holds brackets does not match itself.
example : ((collect [] "/a[b]").run ⟨singleTest "a[b]", [], []⟩).1.toOption = none := by
  decide +kernel

end ElmSuite.Discovery
