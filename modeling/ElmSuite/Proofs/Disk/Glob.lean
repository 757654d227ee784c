import ElmSuite.Disk.Glob
import ElmSuite.Proofs.Disk.LinkFree
import ElmSuite.Proofs.Lists
import Mathlib.Data.List.TakeWhile

/-!
What patterns match where no links stand.
-/

namespace ElmSuite.Glob

variable {disk : Disk} {folder root name : String} {names : List String}

/-! ### Texts of patterns -/

theorem isPattern_append (text more : String) :
    isPattern (text ++ more) = (isPattern text || isPattern more) := by
  simp [isPattern, String.toList_append]

theorem splitLast_append {text last : String} (hne : text ≠ "")
    (hend : text.toList.getLast? ≠ some '/') (hlast : '/' ∉ last.toList) :
    splitLast (text ++ "/" ++ last) = (text, last) := by
  have hreverse : (text ++ "/" ++ last).toList.reverse =
      last.toList.reverse ++ '/' :: text.toList.reverse := by
    simp [String.toList_append]
  have htail : ∀ c ∈ last.toList.reverse, (c != '/') = true := by
    intro c hc
    simp only [bne_iff_ne]
    rintro rfl
    exact hlast (List.mem_reverse.1 hc)
  have hbare : ('/' :: text.toList.reverse).dropWhile (· == '/') = text.toList.reverse := by
    rw [List.dropWhile_cons_of_pos (by simp)]
    rw [List.getLast?_eq_head?_reverse] at hend
    cases hchars : text.toList.reverse with
    | nil => rfl
    | cons c chars =>
        rw [hchars] at hend
        rw [List.dropWhile_cons_of_neg]
        simpa using hend
  unfold splitLast
  rw [hreverse]
  simp only [List.takeWhile_append_of_pos htail, List.dropWhile_append_of_pos htail]
  simp [hbare, hne]

theorem mem_suffixes {text name : List Char} : text ∈ suffixes name ↔ text <:+ name := by
  induction name with
  | nil => simp [suffixes]
  | cons c name ih => rw [suffixes, List.mem_cons, ih, List.suffix_cons_iff]

theorem matchesPieces_literals (chars name : List Char) :
    matchesPieces (chars.map .literal) name = true ↔ name = chars := by
  induction chars generalizing name with
  | nil => simp [matchesPieces]
  | cons d chars ih =>
      cases name with
      | nil => simp [matchesPieces]
      | cons c name =>
          simp only [List.map_cons, matchesPieces, Bool.and_eq_true, beq_iff_eq, ih, List.cons.injEq]
          exact and_congr_left fun _ => eq_comm

/-- A name matches the pattern for test files if it ends like one and is not hidden. -/
theorem matchesName_elm (name : String) :
    matchesName "*.elm" name = true ↔ ".elm".toList <:+ name.toList ∧ isHidden name = false := by
  have hpieces : pieces "*.elm".toList = .run :: ".elm".toList.map .literal := by rfl
  have hhidden : isHidden "*.elm" = false := by decide
  rw [matchesName, hhidden, hpieces, matchesPieces]
  simp only [Bool.false_or, Bool.and_eq_true, Bool.not_eq_true', List.any_eq_true, mem_suffixes,
    matchesPieces_literals]
  constructor
  · rintro ⟨hname, text, hsuffix, rfl⟩
    exact ⟨hsuffix, hname⟩
  · rintro ⟨hsuffix, hname⟩
    exact ⟨hname, _, hsuffix, rfl⟩

/-! ### Entries of a folder -/

theorem find_ne_nullByte {text : String} (hnull : '\x00' ∉ text.toList) :
    disk.find text ≠ .error .nullByte := by
  intro hfind
  unfold Disk.find Disk.place at hfind
  rw [if_neg (by simpa using hnull)] at hfind
  split at hfind
  · cases hfind
  · split at hfind
    · cases hfind
    · cases hwalk : disk.walk true Disk.linkLimit (if Disk.isAbsolute text then [] else disk.cwd)
          (Disk.steps text) with
      | error errno =>
          simp only [hwalk] at hfind
          cases hfind
      | ok place =>
          simp only [hwalk] at hfind
          cases place <;> cases hfind

theorem mem_keys_iff {entries : List (String × Node)} :
    name ∈ entries.map Prod.fst ↔ ∃ node, entries.lookup name = some node := by
  induction entries with
  | nil => simp
  | cons entry entries ih =>
      obtain ⟨key, below⟩ := entry
      rw [List.map_cons, List.mem_cons, ih, List.lookup_cons]
      by_cases hkey : name = key
      · simp [hkey]
      · simp [hkey, beq_eq_false_iff_ne.2 hkey]

/-- The names that a folder is searched for, when its text goes along names without links. -/
theorem exists_namesIn (foldersOnly : Bool) (hspells : Path.Spells folder names)
    (hproper : ∀ name ∈ names, ProperName name) (hlink : disk.NoLinkOn names) :
    ∃ found, namesIn disk foldersOnly folder = .ok found ∧
      ∀ name, name ∈ found ↔ folder.utf8ByteSize < Disk.pathLimit ∧
        (∃ node, disk.nodeAt? (names ++ [name]) = some node) ∧
          (foldersOnly = true → disk.isFolder (Path.under folder name) = true) := by
  have hfolder : (if folder.isEmpty then "." else folder) = folder := by
    simp [hspells.nonempty]
  -- A folder along the names can be found, so that nothing is there if the search fails.
  have hfound : ∀ name node, folder.utf8ByteSize < Disk.pathLimit →
      disk.nodeAt? (names ++ [name]) = some node →
        ∃ entries, disk.find folder = .ok (names, .folder entries) ∧
          entries.lookup name = some node := by
    intro name node hsize hnode
    obtain ⟨entries, habove, hentry⟩ := Disk.exists_folder_of_nodeAt?_snoc hnode
    have hfind := Disk.find_of_nodeAt? hspells hproper hsize habove (by simp) (fun _ => rfl)
    exact ⟨entries, hfind, hentry⟩
  unfold namesIn
  rw [hfolder]
  cases hfind : disk.find folder with
  | error fault =>
      refine ⟨[], ?_, fun name => ⟨fun h => absurd h List.not_mem_nil, ?_⟩⟩
      · cases fault with
        | nullByte => exact absurd hfind (find_ne_nullByte hspells.noNull)
        | _ => rfl
      · rintro ⟨hsize, ⟨node, hnode⟩, -⟩
        obtain ⟨entries, hok, -⟩ := hfound name node hsize hnode
        rw [hfind] at hok
        cases hok
  | ok found =>
      obtain ⟨location, node⟩ := found
      obtain ⟨hsize, rfl, hnode⟩ := Disk.nodeAt?_of_find hspells hproper hlink hfind
      refine ⟨_, rfl, fun name => ?_⟩
      have hkeys : name ∈ node.entries.map Prod.fst ↔
          ∃ below, disk.nodeAt? (location ++ [name]) = some below := by
        rw [mem_keys_iff]
        simp only [Disk.nodeAt?, Node.at?_snoc] at hnode ⊢
        rw [hnode]
        rfl
      cases foldersOnly with
      | false => simp [hsize, ← hkeys]
      | true =>
          rw [if_pos rfl, List.mem_filter, hkeys]
          simp [hsize]

/-! ### Folders below a folder -/

/-- The names of the folders in a folder. -/
theorem mem_folders_iff (hnames : disk.ProperNames) (hspells : Path.Spells folder names)
    (hend : folder.toList.getLast? ≠ some '/') (hproper : ∀ name ∈ names, ProperName name)
    (hlink : ∀ more, disk.NoLinkOn (names ++ more)) {found : List String}
    (hmem : ∀ name, name ∈ found ↔ folder.utf8ByteSize < Disk.pathLimit ∧
      (∃ node, disk.nodeAt? (names ++ [name]) = some node) ∧
        (true = true → disk.isFolder (Path.under folder name) = true)) :
    name ∈ found ↔ (folder ++ "/" ++ name).utf8ByteSize < Disk.pathLimit ∧
      ∃ entries, disk.nodeAt? (names ++ [name]) = some (.folder entries) := by
  have hunder : ProperName name → (disk.isFolder (Path.under folder name) = true ↔
      (folder ++ "/" ++ name).utf8ByteSize < Disk.pathLimit ∧
        ∃ entries, disk.nodeAt? (names ++ [name]) = some (.folder entries)) := by
    intro hname
    have hall : ∀ other ∈ names ++ [name], ProperName other := by
      simpa [or_imp, forall_and] using ⟨hproper, hname⟩
    rw [Disk.isFolder_iff (hspells.under hname) hall (hlink [name]),
      Path.under_of_not_slash hspells.nonempty hend (Path.head?_ne_of_properName hname)]
  rw [hmem]
  constructor
  · rintro ⟨-, ⟨node, hnode⟩, hfolder⟩
    exact (hunder (hnames names name node hnode)).1 (hfolder rfl)
  · rintro ⟨hsize, entries, hnode⟩
    have hname := hnames names name _ hnode
    refine ⟨?_, ⟨_, hnode⟩, fun _ => (hunder hname).2 ⟨hsize, entries, hnode⟩⟩
    simp only [String.utf8ByteSize_append] at hsize
    omega

/-- What a search finds below a folder, at most `depth` names deep: the folders on whose names below
it none is hidden. -/
def FoundBelow (disk : Disk) (folder : String) (names : List String) (depth : Nat)
    (more : List String) : Prop :=
  more.length ≤ depth ∧ (∀ name ∈ more, isHidden name = false) ∧
    (folder ++ "/" ++ "/".intercalate more).utf8ByteSize < Disk.pathLimit ∧
      ∃ entries, disk.nodeAt? (names ++ more) = some (.folder entries)

/-- A folder found below an entry is one found below the folder of the entry. -/
theorem foundBelow_cons {depth : Nat} {more : List String} (hne : more ≠ []) :
    FoundBelow disk folder names (depth + 1) (name :: more) ↔
      isHidden name = false ∧ FoundBelow disk (folder ++ "/" ++ name) (names ++ [name]) depth more := by
  have htext : folder ++ "/" ++ "/".intercalate (name :: more) =
      folder ++ "/" ++ name ++ "/" ++ "/".intercalate more := by
    rw [String.intercalate_cons_of_ne_nil hne]
    simp only [String.append_assoc]
  unfold FoundBelow
  rw [htext, List.forall_mem_cons, ← List.append_cons, List.length_cons, Nat.add_le_add_iff_right]
  constructor
  · rintro ⟨hlength, ⟨hhidden, hmore⟩, hsize, hfolder⟩
    exact ⟨hhidden, hlength, hmore, hsize, hfolder⟩
  · rintro ⟨hhidden, hlength, hmore, hsize, hfolder⟩
    exact ⟨hlength, ⟨hhidden, hmore⟩, hsize, hfolder⟩

/-- The first folder on the way to one that is found. -/
theorem FoundBelow.first {depth : Nat} {rest : List String}
    (h : FoundBelow disk folder names depth (name :: rest)) :
    (folder ++ "/" ++ name).utf8ByteSize < Disk.pathLimit ∧
      ∃ entries, disk.nodeAt? (names ++ [name]) = some (.folder entries) := by
  obtain ⟨-, -, hsize, entries, hnode⟩ := h
  by_cases hrest : rest = []
  · subst hrest
    exact ⟨by simpa using hsize, entries, hnode⟩
  · rw [List.append_cons] at hnode
    rw [String.intercalate_cons_of_ne_nil hrest] at hsize
    simp only [String.utf8ByteSize_append] at hsize ⊢
    exact ⟨by omega, Disk.exists_folder_of_append hnode hrest⟩

theorem exists_below (hnames : disk.ProperNames) (depth : Nat) (hspells : Path.Spells folder names)
    (hend : folder.toList.getLast? ≠ some '/') (hproper : ∀ name ∈ names, ProperName name)
    (hlink : ∀ more, disk.NoLinkOn (names ++ more)) :
    ∃ found, below disk true depth folder = .ok found ∧
      ∀ text, text ∈ found ↔ ∃ more : List String, more ≠ [] ∧ text = "/".intercalate more ∧
        FoundBelow disk folder names depth more := by
  induction depth generalizing folder names with
  | zero =>
      refine ⟨[], rfl, fun text => ⟨fun h => absurd h List.not_mem_nil, ?_⟩⟩
      rintro ⟨more, hne, -, hlength, -⟩
      exact absurd (List.eq_nil_of_length_eq_zero (Nat.le_zero.1 hlength)) hne
  | succ depth ih =>
      obtain ⟨here, hhere, hmemHere⟩ :=
        exists_namesIn true hspells hproper (by simpa using hlink [])
      have hfolders : ∀ name, name ∈ here ↔ _ := fun name =>
        mem_folders_iff hnames hspells hend hproper hlink hmemHere
      -- What one folder adds: itself, and what the search finds below it.
      have hstep : ∀ name ∈ here.filter fun name => !isHidden name, ∃ found,
          (do
            let deeper ← below disk true depth (Path.under folder name)
            return name :: deeper.map (Path.under name)) = Except.ok found ∧
          ∀ text, text ∈ found ↔ ∃ more : List String, text = "/".intercalate (name :: more) ∧
            FoundBelow disk folder names (depth + 1) (name :: more) := by
        intro name hmem
        obtain ⟨hname, hhidden⟩ := List.mem_filter.1 hmem
        rw [Bool.not_eq_true'] at hhidden
        obtain ⟨hsize, entries, hnode⟩ := (hfolders name).1 hname
        have hproperName := hnames names name _ hnode
        have hproperMore : ∀ more node, disk.nodeAt? (names ++ [name] ++ more) = some node →
            ∀ other ∈ more, ProperName other := fun more node h other hother =>
          hnames.of_nodeAt? h other (List.mem_append_right _ hother)
        have hunder : Path.under folder name = folder ++ "/" ++ name :=
          Path.under_of_not_slash hspells.nonempty hend (Path.head?_ne_of_properName hproperName)
        obtain ⟨deeper, hdeeper, hmemDeeper⟩ := ih (hspells.under hproperName)
          (hunder ▸ Path.getLast?_append_ne _ hproperName.nonempty
            (Path.getLast?_ne_of_properName hproperName))
          (hnames.of_nodeAt? hnode) (fun more => by simpa using hlink (name :: more))
        rw [hunder] at hmemDeeper
        refine ⟨name :: deeper.map (Path.under name), by rw [hdeeper]; rfl, fun text => ?_⟩
        rw [List.mem_cons, List.mem_map]
        constructor
        · rintro (rfl | ⟨rest, hrest, rfl⟩)
          · refine ⟨[], by simp, ?_⟩
            exact ⟨by simp, by simpa using hhidden, by simpa using hsize, entries, hnode⟩
          · obtain ⟨more, hne, rfl, hfound⟩ := (hmemDeeper rest).1 hrest
            obtain ⟨below, hbelow⟩ := hfound.2.2.2
            exact ⟨more, Path.under_intercalate hproperName (hproperMore more _ hbelow) hne,
              (foundBelow_cons hne).2 ⟨hhidden, hfound⟩⟩
        · rintro ⟨more, rfl, hfound⟩
          by_cases hne : more = []
          · subst hne
            exact .inl (by simp)
          · obtain ⟨-, hfound⟩ := (foundBelow_cons hne).1 hfound
            obtain ⟨below, hbelow⟩ := hfound.2.2.2
            exact .inr ⟨_, (hmemDeeper _).2 ⟨more, hne, rfl, hfound⟩,
              Path.under_intercalate hproperName (hproperMore more _ hbelow) hne⟩
      obtain ⟨values, hvalues, hmemValues⟩ := exists_mapM_ok fun name hmem =>
        (hstep name hmem).imp fun _ h => h.1
      refine ⟨values.flatten, ?_, fun text => ?_⟩
      · rw [below, hhere]
        change Except.bind (List.mapM _ (here.filter fun name => !isHidden name)) _ = _
        rw [hvalues]
        rfl
      · rw [List.mem_flatten]
        constructor
        · rintro ⟨value, hvalue, htext⟩
          obtain ⟨name, hname, hok⟩ := (hmemValues value).1 hvalue
          obtain ⟨found, hfound, hmemFound⟩ := hstep name hname
          rw [hfound] at hok
          cases hok
          obtain ⟨more, rfl, hmore⟩ := (hmemFound text).1 htext
          exact ⟨name :: more, by simp, rfl, hmore⟩
        · rintro ⟨more, hne, rfl, hmore⟩
          obtain ⟨name, rest, rfl⟩ := List.exists_cons_of_ne_nil hne
          have hname : name ∈ here.filter fun name => !isHidden name :=
            List.mem_filter.2 ⟨(hfolders name).2 hmore.first, by simpa using (List.forall_mem_cons.1 hmore.2.1).1⟩
          obtain ⟨found, hfound, hmemFound⟩ := hstep name hname
          exact ⟨found, (hmemValues found).2 ⟨name, hname, hfound⟩,
            (hmemFound _).2 ⟨rest, rfl, hmore⟩⟩

/-! ### Expansions -/

/-- The part of a path before its last slash is shorter, unless the path is a row of slashes. -/
theorem length_splitLast (path : String) :
    (splitLast path).1 = path ∨ (splitLast path).1.length < path.length := by
  unfold splitLast
  have hlength : path.length = path.toList.reverse.length := by
    rw [List.length_reverse, String.length_toList]
  generalize hreversed : path.toList.reverse = reversed at hlength
  have hhead := (List.dropWhile_sublist (l := reversed) fun c => c != '/')
  generalize hheadEq : reversed.dropWhile (fun c => c != '/') = head at hhead
  cases hbare : (head.dropWhile fun c => c == '/').isEmpty with
  | true =>
      simp only [hheadEq, hbare, if_true, String.length_ofList, hlength]
      by_cases hshort : head.length < reversed.length
      · exact .inr hshort
      · have hall : head = reversed := hhead.eq_of_length_le (Nat.le_of_not_lt hshort)
        have hslashes : ∀ c ∈ head, c = '/' := by
          rw [List.isEmpty_iff, List.dropWhile_eq_nil_iff] at hbare
          simpa using hbare
        have hsame : path.toList = head := by
          rw [← List.reverse_reverse path.toList, hreversed, ← hall,
            List.eq_replicate_of_mem hslashes, List.reverse_replicate]
        exact .inl (by rw [← hsame, String.ofList_toList])
  | false =>
      simp only [hheadEq, hbare, Bool.false_eq_true, if_false, String.length_ofList,
        List.length_reverse, hlength]
      -- The slash in front of the last part is dropped.
      cases hfirst : head with
      | nil => simp [hfirst] at hbare
      | cons c more =>
          obtain rfl : c = '/' := by
            have hnot := List.head?_dropWhile_not (fun c => c != '/') reversed
            rw [hheadEq, hfirst] at hnot
            simpa using hnot
          have hmore := (List.dropWhile_sublist (l := more) fun c => c == '/').length_le
          have hle := hhead.length_le
          rw [hfirst, List.length_cons] at hle
          rw [List.dropWhile_cons_of_pos (by simp)]
          exact .inr (by omega)

/-- The bound on the parts of a pattern is none. -/
theorem expandUpTo_eq {pattern : String} {depth other : Nat} (foldersOnly : Bool)
    (hdepth : pattern.length < depth) (hother : pattern.length < other) :
    expandUpTo disk depth foldersOnly pattern = expandUpTo disk other foldersOnly pattern := by
  induction depth generalizing pattern other foldersOnly with
  | zero => exact absurd hdepth (Nat.not_lt_zero _)
  | succ depth ih =>
      cases other with
      | zero => exact absurd hother (Nat.not_lt_zero _)
      | succ other =>
          have hfolder : ((splitLast pattern).1 != pattern) = true →
              expandUpTo disk depth true (splitLast pattern).1 =
                expandUpTo disk other true (splitLast pattern).1 := by
            intro hne
            rcases length_splitLast pattern with hsame | hshort
            · exact absurd hsame (by simpa using hne)
            · exact ih true (by omega) (by omega)
          rw [expandUpTo, expandUpTo]
          cases hne : (splitLast pattern).1 != pattern with
          | false => simp [hne]
          | true => simp only [hne, hfolder hne]

/-- The folders that the part of a pattern before its last slash stands for. -/
def foldersOf (disk : Disk) (depth : Nat) (text : String) : Except Fault (List String) :=
  if isPattern text then expandUpTo disk depth true text else .ok [text]

/-- What the last part of a pattern matches in folders. -/
def inFolders (disk : Disk) (foldersOnly : Bool) (part : String) (folders : List String) :
    Except Fault (List String) := do
  let found ← folders.mapM fun folder => do
    return (← inFolder disk foldersOnly folder part).map (Path.under folder)
  return found.flatten

/-- The expansion of a pattern part by part. -/
theorem expandUpTo_append {text last : String} (depth : Nat) (foldersOnly : Bool) (hne : text ≠ "")
    (hend : text.toList.getLast? ≠ some '/') (hlast : '/' ∉ last.toList)
    (hpattern : isPattern (text ++ "/" ++ last) = true) :
    expandUpTo disk (depth + 1) foldersOnly (text ++ "/" ++ last) =
      foldersOf disk depth text >>= inFolders disk foldersOnly last := by
  have hself : (text != text ++ "/" ++ last) = true := by
    rw [bne_iff_ne]
    intro h
    have hlength := congrArg String.length h
    simp only [String.length_append, show "/".length = 1 from rfl] at hlength
    omega
  rw [expandUpTo, splitLast_append hne hend hlast]
  simp only [hpattern, Bool.not_true, Bool.false_eq_true, if_false, String.isEmpty_iff, hne, hself,
    Bool.true_and, foldersOf]
  split <;> rfl

/-- What the last part of a pattern matches in a single folder. -/
theorem inFolders_singleton {foldersOnly : Bool} {part folder : String} {found : List String}
    (h : inFolder disk foldersOnly folder part = .ok found) :
    inFolders disk foldersOnly part [folder] = .ok (found.map (Path.under folder)) := by
  simp [inFolders, h, bind, Except.bind, pure, Except.pure]

end ElmSuite.Glob
