import ElmSuite.Proofs.Disk.Glob
import ElmSuite.Proofs.Disk.Placement

/-!
Two disks on which the same stands at and below a location.  Without links there or on the way, a
search below it finds the same on both, in the same order, however deep the two disks are elsewhere.
-/

namespace ElmSuite.Disk

/-- On two disks the same stands at and below a location, and no link there or on the way. -/
structure Agrees (first second : Disk) (names : List String) : Prop where
  same : ∀ more, first.nodeAt? (names ++ more) = second.nodeAt? (names ++ more)
  noLink : ∀ more, first.NoLinkOn (names ++ more)
  noLink' : ∀ more, second.NoLinkOn (names ++ more)

variable {disk first second : Disk} {above names : List String} {last name text : String} {node : Node}
  {entries : List (String × Node)}

/-- What a text denotes that goes along the names of a node depends on the node alone. -/
theorem find_congr (hspells : Path.Spells text names) (hproper : ∀ name ∈ names, ProperName name)
    (hfirst : first.nodeAt? names = some node) (hsecond : second.nodeAt? names = some node)
    (hplain : ∀ target, node ≠ .link target) : first.find text = second.find text := by
  have hwalk {disk : Disk} (hnode : disk.nodeAt? names = some node) :
      disk.walk true linkLimit [] (steps text) =
        if text.toList.getLast? = some '/' ∧ node.isFolder = false then .error .notDirectory
        else .ok (.taken names node) := by
    have hdescend : disk.descend true [] (steps text) =
        if text.toList.getLast? = some '/' ∧ node.isFolder = false then .error .notDirectory
        else .ok (.arrived (.taken names node)) := by
      rw [steps_of_spells hspells, descend_root true _ hproper hnode hplain]
      by_cases hlast : text.toList.getLast? = some '/'
      · cases node <;> simp [hlast, descend, hnode, Node.isFolder]
      · simp [hlast, descend, hnode]
    by_cases hstuck : text.toList.getLast? = some '/' ∧ node.isFolder = false
    · rw [if_pos hstuck] at hdescend ⊢
      rw [walk, hdescend]
    · rw [if_neg hstuck] at hdescend ⊢
      exact walk_of_descend hdescend linkLimit
  have hplace : first.place true text = second.place true text := by
    rw [place, place]
    simp only [if_pos hspells.absolute, hwalk hfirst, hwalk hsecond]
  rw [find, find, hplace]

/-- There is an entry where a path is short enough and something stands. -/
theorem hasEntry_ofLocation (hproper : ∀ name ∈ above ++ [last], ProperName name)
    (habove : disk.nodeAt? above = some (.folder entries))
    (hlink : ∀ target, disk.nodeAt? (above ++ [last]) ≠ some (.link target)) :
    disk.hasEntry (Path.ofLocation (above ++ [last])).toString =
      (decide ((Path.ofLocation (above ++ [last])).toString.utf8ByteSize < pathLimit) &&
        (disk.nodeAt? (above ++ [last])).isSome) := by
  rw [hasEntry]
  by_cases hsize : (Path.ofLocation (above ++ [last])).toString.utf8ByteSize < pathLimit
  · cases hnode : disk.nodeAt? (above ++ [last]) with
    | none =>
        rw [place_of_none false hproper hsize habove hnode]
        simp
    | some node =>
        rw [place_of_nodeAt? false hproper (by simp) hsize hnode fun target heq => hlink target (heq ▸ hnode)]
        simp [hsize]
  · rw [place_of_long false hproper (Nat.not_lt.1 hsize)]
    simp [hsize]

namespace Agrees

theorem node_eq (h : first.Agrees second names) : first.nodeAt? names = second.nodeAt? names := by
  simpa using h.same []

theorem below (h : first.Agrees second names) (name : String) : first.Agrees second (names ++ [name]) where
  same more := by simpa using h.same (name :: more)
  noLink more := by simpa using h.noLink (name :: more)
  noLink' more := by simpa using h.noLink' (name :: more)

theorem plain (h : first.Agrees second names) : first.NoLinkOn names := by
  simpa using h.noLink []

theorem plain' (h : first.Agrees second names) : second.NoLinkOn names := by
  simpa using h.noLink' []

theorem ne_link (h : first.Agrees second names) (hnode : first.nodeAt? names = some node) (target : String) :
    node ≠ .link target := by
  rintro rfl
  exact h.plain names.length target (by rwa [List.take_length])

section Spelled

variable (h : first.Agrees second names) (hspells : Path.Spells text names)
  (hproper : ∀ name ∈ names, ProperName name)
include h hspells hproper

theorem isFolder_eq : first.isFolder text = second.isFolder text := by
  rw [Bool.eq_iff_iff, isFolder_iff hspells hproper h.plain, isFolder_iff hspells hproper h.plain', h.node_eq]

theorem isFile_eq (hend : text.toList.getLast? ≠ some '/') : first.isFile text = second.isFile text := by
  rw [Bool.eq_iff_iff, isFile_iff hspells hproper h.plain hend, isFile_iff hspells hproper h.plain' hend,
    h.node_eq]

end Spelled

end Agrees

end ElmSuite.Disk

namespace ElmSuite.Glob

variable {disk first second : Disk} {names : List String} {folder part : String}

/-- Names that a search goes through are those of entries. -/
theorem exists_node_of_mem_namesIn {foldersOnly : Bool} {found : List String}
    (hspells : Path.Spells folder names) (hproper : ∀ name ∈ names, ProperName name)
    (hlink : disk.NoLinkOn names) (hfound : namesIn disk foldersOnly folder = .ok found) :
    ∀ name ∈ found, ∃ node, disk.nodeAt? (names ++ [name]) = some node := by
  obtain ⟨other, hother, hmem⟩ := exists_namesIn foldersOnly hspells hproper hlink
  rw [hfound, Except.ok.injEq] at hother
  subst hother
  exact fun name hname => ((hmem name).1 hname).2.1

section Search

variable (hnames : first.ProperNames) (hspells : Path.Spells folder names)
  (hproper : ∀ name ∈ names, ProperName name)
include hnames hspells hproper

theorem namesIn_eq (h : first.Agrees second names) (foldersOnly : Bool) :
    namesIn first foldersOnly folder = namesIn second foldersOnly folder := by
  cases hnode : first.nodeAt? names with
  | none =>
      -- Where nothing stands, no names are found.
      have hnone {disk : Disk} (hlink : disk.NoLinkOn names) (hdisk : disk.nodeAt? names = none) :
          namesIn disk foldersOnly folder = .ok [] := by
        obtain ⟨found, hfound, -⟩ := exists_namesIn foldersOnly hspells hproper hlink
        have hentry := exists_node_of_mem_namesIn hspells hproper hlink hfound
        rw [hfound, Except.ok.injEq, List.eq_nil_iff_forall_not_mem]
        intro name hname
        obtain ⟨node, hin⟩ := hentry name hname
        obtain ⟨entries, hfolder, -⟩ := Disk.exists_folder_of_nodeAt?_snoc hin
        rw [hdisk] at hfolder
        cases hfolder
      rw [hnone h.plain hnode, hnone h.plain' (h.node_eq ▸ hnode)]
  | some node =>
      have hfind := Disk.find_congr hspells hproper hnode (h.node_eq ▸ hnode) (h.ne_link hnode)
      have hfolder : (if folder.isEmpty then "." else folder) = folder := by
        simp [hspells.nonempty]
      rw [namesIn, namesIn, hfolder, ← hfind]
      cases hfirst : first.find folder with
      | error fault => cases fault <;> rfl
      | ok found =>
          obtain ⟨location, other⟩ := found
          obtain ⟨-, rfl, hother⟩ := Disk.nodeAt?_of_find hspells hproper h.plain hfirst
          have hfolders : ∀ name ∈ other.entries.map Prod.fst,
              first.isFolder (Path.under folder name) = second.isFolder (Path.under folder name) := by
            intro name hname
            obtain ⟨below, hbelow⟩ := mem_keys_iff.1 hname
            have hentry : first.nodeAt? (location ++ [name]) = some below := by
              rw [Disk.nodeAt?, Node.at?_snoc]
              rw [Disk.nodeAt?] at hother
              rw [hother]
              exact hbelow
            exact (h.below name).isFolder_eq (hspells.under (hnames _ _ _ hentry)) (hnames.of_nodeAt? hentry)
          dsimp only
          split
          · rw [List.filter_congr hfolders]
          · rfl

/-- A search comes to the same on both disks, if it is as deep. -/
theorem below_eq (h : first.Agrees second names) (depth : Nat) (hend : folder.toList.getLast? ≠ some '/') :
    below first true depth folder = below second true depth folder := by
  induction depth generalizing names folder with
  | zero => rfl
  | succ depth ih =>
      obtain ⟨here, hhere, -⟩ := exists_namesIn true hspells hproper h.plain
      have hentry := exists_node_of_mem_namesIn hspells hproper h.plain hhere
      rw [below, below, ← namesIn_eq hnames hspells hproper h true, hhere, ok_bind, ok_bind]
      rw [mapM_congr fun name hname => ?_]
      obtain ⟨node, hnode⟩ := hentry name (List.mem_of_mem_filter hname)
      have hname := hnames names name node hnode
      have hunder : Path.under folder name = folder ++ "/" ++ name :=
        Path.under_of_not_slash hspells.nonempty hend (Path.head?_ne_of_properName hname)
      rw [ih (hspells.under hname) (hnames.of_nodeAt? hnode) (h.below name)
        (hunder ▸ Path.getLast?_append_ne _ hname.nonempty (Path.getLast?_ne_of_properName hname))]

/-- A search finds nothing more when it goes deeper than the folders do. -/
theorem below_succ (hlink : ∀ more, first.NoLinkOn (names ++ more)) {depth : Nat}
    (hheight : ∀ node, first.nodeAt? names = some node → node.height ≤ depth)
    (hend : folder.toList.getLast? ≠ some '/') :
    below first true (depth + 1) folder = below first true depth folder := by
  induction depth generalizing names folder with
  | zero =>
      obtain ⟨here, hhere, -⟩ := exists_namesIn true hspells hproper (by simpa using hlink [])
      have hentry := exists_node_of_mem_namesIn hspells hproper (by simpa using hlink []) hhere
      obtain rfl : here = [] := by
        rw [List.eq_nil_iff_forall_not_mem]
        intro name hname
        obtain ⟨node, hnode⟩ := hentry name hname
        obtain ⟨entries, hfolder, -⟩ := Disk.exists_folder_of_nodeAt?_snoc hnode
        have hle := hheight _ hfolder
        rw [Node.height] at hle
        omega
      change below first true (0 + 1) folder = .ok []
      rw [below, hhere]
      rfl
  | succ depth ih =>
      obtain ⟨here, hhere, -⟩ := exists_namesIn true hspells hproper (by simpa using hlink [])
      have hentry := exists_node_of_mem_namesIn hspells hproper (by simpa using hlink []) hhere
      rw [below, below, hhere, ok_bind, ok_bind]
      rw [mapM_congr fun name hname => ?_]
      obtain ⟨node, hnode⟩ := hentry name (List.mem_of_mem_filter hname)
      have hname := hnames names name node hnode
      have hunder : Path.under folder name = folder ++ "/" ++ name :=
        Path.under_of_not_slash hspells.nonempty hend (Path.head?_ne_of_properName hname)
      have hlower : ∀ other, first.nodeAt? (names ++ [name]) = some other → other.height ≤ depth := by
        intro other hother
        obtain ⟨entries, hfolder, hlookup⟩ := Disk.exists_folder_of_nodeAt?_snoc hother
        have hle := hheight _ hfolder
        have hbelow := Node.height_le_heightEntries hlookup
        rw [Node.height] at hle
        omega
      rw [ih (hspells.under hname) (hnames.of_nodeAt? hnode) (fun more => by simpa using hlink (name :: more))
        hlower (hunder ▸ Path.getLast?_append_ne _ hname.nonempty (Path.getLast?_ne_of_properName hname))]

/-- All depths that the folders do not exceed find the same. -/
theorem below_of_le (hlink : ∀ more, first.NoLinkOn (names ++ more)) {least depth : Nat}
    (hheight : ∀ node, first.nodeAt? names = some node → node.height ≤ least) (hle : least ≤ depth)
    (hend : folder.toList.getLast? ≠ some '/') :
    below first true depth folder = below first true least folder := by
  induction depth, hle using Nat.le_induction with
  | base => rfl
  | succ depth hle ih =>
      rw [below_succ hnames hspells hproper hlink (fun node hnode => (hheight node hnode).trans hle) hend, ih]

end Search

theorem height_le_depthBound {location : List String} {node : Node} (h : disk.nodeAt? location = some node) :
    node.height ≤ depthBound disk := by
  have hheight := Node.length_add_height_le h
  have hbound : disk.tree.height + 1 ≤ (Disk.linkLimit + 1) * (disk.tree.height + 1) :=
    Nat.le_mul_of_pos_left _ (by decide)
  rw [depthBound]
  omega

/-- What any number of folders stands for is the same on both disks. -/
theorem inFolder_deep_eq (hnames : first.ProperNames) (hnames' : second.ProperNames)
    (hspells : Path.Spells folder names) (hproper : ∀ name ∈ names, ProperName name)
    (h : first.Agrees second names) (hend : folder.toList.getLast? ≠ some '/') :
    inFolder first true folder "**" = inFolder second true folder "**" := by
  obtain ⟨least, hfirst, hsecond, hheight⟩ : ∃ least, least ≤ depthBound first ∧ least ≤ depthBound second ∧
      ∀ node, first.nodeAt? names = some node → node.height ≤ least := by
    cases hnode : first.nodeAt? names with
    | none => exact ⟨0, Nat.zero_le _, Nat.zero_le _, fun node heq => by cases heq⟩
    | some node =>
        refine ⟨node.height, height_le_depthBound hnode, height_le_depthBound (h.node_eq ▸ hnode), ?_⟩
        rintro other heq
        cases heq
        exact Nat.le_refl _
  have hbelow : below first true (depthBound first) folder = below second true (depthBound second) folder := by
    rw [below_of_le hnames hspells hproper h.noLink hheight hfirst hend,
      below_eq hnames hspells hproper h least hend]
    exact (below_of_le hnames' hspells hproper h.noLink' (fun node hnode =>
      hheight node (h.node_eq.trans hnode)) hsecond hend).symm
  rw [inFolder, inFolder, if_pos (by decide), if_pos (by decide), hbelow]

theorem inFolder_elm_eq (hnames : first.ProperNames) (hspells : Path.Spells folder names)
    (hproper : ∀ name ∈ names, ProperName name) (h : first.Agrees second names) :
    inFolder first false folder "*.elm" = inFolder second false folder "*.elm" := by
  rw [inFolder, inFolder, if_neg (by decide), if_pos (by decide), if_neg (by decide), if_pos (by decide),
    namesIn_eq hnames hspells hproper h]

theorem inFolders_congr {foldersOnly : Bool} {folders : List String}
    (h : ∀ folder ∈ folders, inFolder first foldersOnly folder part = inFolder second foldersOnly folder part) :
    inFolders first foldersOnly part folders = inFolders second foldersOnly part folders := by
  rw [inFolders, inFolders, mapM_congr fun folder hfolder => ?_]
  rw [h folder hfolder]

end ElmSuite.Glob
