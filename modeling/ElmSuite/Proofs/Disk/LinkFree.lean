import ElmSuite.Disk.Canonical
import ElmSuite.Proofs.Disk.PathText
import ElmSuite.Proofs.Disk.Way

/-!
Paths on which no link stands.  The walk of the system and the resolution of canonical paths agree
on them: both end at the location that the names of the path say.
-/

namespace ElmSuite.Disk

/-- No link stands at a location or on the way to it. -/
def NoLinkOn (disk : Disk) (names : List String) : Prop :=
  ∀ count target, disk.nodeAt? (names.take count) ≠ some (.link target)

variable {disk : Disk} {names folder rest : List String} {node : Node} {text : String}

theorem exists_folder_of_append (h : disk.nodeAt? (folder ++ rest) = some node) (hne : rest ≠ []) :
    ∃ entries, disk.nodeAt? folder = some (.folder entries) := by
  cases rest with
  | nil => exact absurd rfl hne
  | cons name more =>
      rw [nodeAt?, List.append_cons, Node.at?_append] at h
      obtain ⟨below, hbelow, -⟩ := Option.bind_eq_some_iff.1 h
      obtain ⟨entries, hfolder, -⟩ := exists_folder_of_nodeAt?_snoc hbelow
      exact ⟨entries, hfolder⟩

/-- Where the parts of a path lead to a folder, so do the steps of its text. -/
theorem leads_steps {path : Path} {entries : List (String × Node)} (hanchor : path.anchor ≠ .here)
    (hleads : Leads disk [] (path.parts.flatMap Path.named) folder)
    (hfolder : disk.nodeAt? folder = some (.folder entries)) :
    Leads disk [] (steps path.toString) folder := by
  have hnamed : Leads disk [] (Path.named path.toString) folder := by
    rw [Path.named_toString hanchor]
    exact hleads
  unfold steps
  split
  · exact hnamed.append (.stay rfl hfolder (.here hfolder))
  · exact hnamed

/-- Without links below a folder, no link stands on a path from the root through it. -/
theorem noLinkOn_append {entries : List (String × Node)}
    (hfolder : disk.nodeAt? folder = some (.folder entries))
    (hlink : ∀ below target, disk.nodeAt? (folder ++ below) ≠ some (.link target)) :
    disk.NoLinkOn (folder ++ rest) := by
  intro count target hnode
  by_cases hcount : count < folder.length
  · rw [List.take_append_of_le_length (Nat.le_of_lt hcount)] at hnode
    have hwhole : disk.nodeAt? (folder.take count ++ folder.drop count) = some (.folder entries) := by
      rw [List.take_append_drop]
      exact hfolder
    obtain ⟨above, habove⟩ := exists_folder_of_append hwhole (by simpa using hcount)
    rw [hnode] at habove
    cases habove
  · rw [List.take_append, List.take_of_length_le (Nat.le_of_not_lt hcount)] at hnode
    exact hlink _ target hnode

/-- A descent along the names of a location gets there. -/
theorem descend_append (follow : Bool) (dots : List String) (hproper : ∀ name ∈ rest, ProperName name)
    (hnode : disk.nodeAt? (folder ++ rest) = some node) (hplain : ∀ target, node ≠ .link target) :
    disk.descend follow folder (rest ++ dots) = disk.descend follow (folder ++ rest) dots := by
  induction rest generalizing folder with
  | nil => simp
  | cons name rest ih =>
      rw [List.forall_mem_cons] at hproper
      obtain ⟨entries, hfolder⟩ := exists_folder_of_append hnode (by simp)
      rw [List.append_cons] at hnode
      obtain ⟨below, hentry, hbelow⟩ :
          ∃ below, entries.lookup name = some below ∧ ∀ target, below ≠ .link target := by
        rw [← nodeAt?_snoc hfolder name]
        by_cases hrest : rest = []
        · subst hrest
          exact ⟨node, by simpa using hnode, hplain⟩
        · obtain ⟨inner, hinner⟩ := exists_folder_of_append hnode hrest
          exact ⟨.folder inner, hinner, by simp⟩
      have hstep := ih hproper.2 hnode
      rw [List.cons_append, List.append_cons, descend, hfolder]
      simp only [hproper.1.notHere, hproper.1.notAbove, if_false, Nat.not_lt.2 hproper.1.short, hentry]
      cases below with
      | link target => exact absurd rfl (hbelow target)
      | _ => exact hstep

/-- The steps of a text along names: the names, and a last one that stays if a slash is at the
end. -/
theorem steps_of_spells (h : Path.Spells text names) :
    steps text = names ++ if text.toList.getLast? = some '/' then ["."] else [] := by
  have hnamed : (Path.pieces text).filter (fun piece => !piece.isEmpty) = names := h.named
  rw [steps, hnamed]
  split <;> simp

/-- What a text denotes that goes along the names of a location. -/
theorem find_of_nodeAt? (hspells : Path.Spells text names)
    (hproper : ∀ name ∈ names, ProperName name) (hsize : text.utf8ByteSize < pathLimit)
    (hnode : disk.nodeAt? names = some node) (hplain : ∀ target, node ≠ .link target)
    (hend : text.toList.getLast? = some '/' → node.isFolder = true) :
    disk.find text = .ok (names, node) := by
  rw [find_eq_ok, place_eq_ok]
  refine ⟨hspells.noNull, hspells.nonempty, hsize, walk_of_descend ?_ linkLimit⟩
  rw [if_pos hspells.absolute, steps_of_spells hspells,
    descend_append true _ hproper (by simpa using hnode) hplain, List.nil_append]
  by_cases hlast : text.toList.getLast? = some '/'
  · cases node with
    | folder entries => simp [hlast, descend, hnode]
    | _ => cases hend hlast
  · simp [hlast, descend, hnode]

/-- There is an entry at a text that goes along the names of a location. -/
theorem hasEntry_of_nodeAt? (hspells : Path.Spells text names)
    (hproper : ∀ name ∈ names, ProperName name) (hsize : text.utf8ByteSize < pathLimit)
    (hnode : disk.nodeAt? names = some node) (hplain : ∀ target, node ≠ .link target)
    (hend : text.toList.getLast? ≠ some '/') : disk.hasEntry text = true := by
  have hplace : disk.place false text = .ok (.taken names node) := by
    rw [place_eq_ok]
    refine ⟨hspells.noNull, hspells.nonempty, hsize, walk_of_descend ?_ linkLimit⟩
    rw [if_pos hspells.absolute, steps_of_spells hspells,
      descend_append false _ hproper (by simpa using hnode) hplain, List.nil_append]
    simp [hend, descend, hnode]
  rw [hasEntry, hplace]

/-- A text that denotes something goes along the names of its location, if no link stands on
them. -/
theorem nodeAt?_of_find (hspells : Path.Spells text names)
    (hproper : ∀ name ∈ names, ProperName name) (hlink : disk.NoLinkOn names)
    {location : List String} (hfind : disk.find text = .ok (location, node)) :
    text.utf8ByteSize < pathLimit ∧ location = names ∧ disk.nodeAt? names = some node := by
  rw [find_eq_ok, place_eq_ok, if_pos hspells.absolute, steps_of_spells hspells] at hfind
  obtain ⟨-, -, hsize, hwalk⟩ := hfind
  obtain ⟨hnode, hleads⟩ := walk_taken hwalk
  obtain ⟨between, hnames, hdots⟩ := hleads.split
  have hbetween : between = names := by
    simpa using hnames.eq_append_of_no_link
      (fun name hmem => ⟨(hproper name hmem).notHere, (hproper name hmem).notAbove⟩)
      (fun count target => by simpa using hlink (count + 1) target)
  have hlocation : location = names := by
    rw [← hbetween]
    split at hdots
    · cases hdots with
      | stay _ _ hrest =>
          cases hrest
          rfl
      | up hup _ _ => exact absurd hup (by decide)
      | down hdot _ _ _ _ => exact absurd rfl hdot
      | follow hdot _ _ _ => exact absurd rfl hdot
    · cases hdots
      rfl
  exact ⟨hsize, hlocation, hlocation ▸ hnode⟩

theorem isFolder_iff (hspells : Path.Spells text names) (hproper : ∀ name ∈ names, ProperName name)
    (hlink : disk.NoLinkOn names) :
    disk.isFolder text = true ↔
      text.utf8ByteSize < pathLimit ∧ ∃ entries, disk.nodeAt? names = some (.folder entries) := by
  constructor
  · intro hfolder
    unfold isFolder at hfolder
    split at hfolder
    · next location node hfind =>
      obtain ⟨hsize, -, hnode⟩ := nodeAt?_of_find hspells hproper hlink hfind
      cases node with
      | folder entries => exact ⟨hsize, entries, hnode⟩
      | _ => cases hfolder
    · cases hfolder
  · rintro ⟨hsize, entries, hnode⟩
    have hfind := find_of_nodeAt? hspells hproper hsize hnode (by simp) (fun _ => rfl)
    rw [isFolder, hfind]
    rfl

theorem isFile_iff (hspells : Path.Spells text names) (hproper : ∀ name ∈ names, ProperName name)
    (hlink : disk.NoLinkOn names) (hend : text.toList.getLast? ≠ some '/') :
    disk.isFile text = true ↔
      text.utf8ByteSize < pathLimit ∧ ∃ bytes, disk.nodeAt? names = some (.file bytes) := by
  constructor
  · intro hfile
    unfold isFile at hfile
    split at hfile
    · next location node hfind =>
      obtain ⟨hsize, -, hnode⟩ := nodeAt?_of_find hspells hproper hlink hfind
      cases node with
      | file bytes => exact ⟨hsize, bytes, hnode⟩
      | _ => cases hfile
    · cases hfile
  · rintro ⟨hsize, bytes, hnode⟩
    have hfind := find_of_nodeAt? hspells hproper hsize hnode (by simp) (fun h => absurd h hend)
    rw [isFile, hfind]
    rfl

/-! ### Resolutions -/

/-- The text of a location is no longer than that of a location below it. -/
theorem size_ofLocation_le (names rest : List String) :
    (Path.ofLocation names).toString.utf8ByteSize ≤
      (Path.ofLocation (names ++ rest)).toString.utf8ByteSize := by
  rw [Path.toString_ofLocation, Path.toString_ofLocation]
  by_cases hnames : names = []
  · subst hnames
    simp
  · by_cases hrest : rest = []
    · simp [hrest]
    · rw [String.intercalate_append_of_ne_nil hnames hrest]
      simp only [String.utf8ByteSize_append]
      omega

/-- The waypoint at a location that was reached from the root along its names. -/
def Waypoint.ofLocation (names : List String) : Waypoint :=
  ⟨names, .ofLocation names⟩

/-- A resolution takes a proper name as the name of an entry. -/
theorem step_of_properName {name : String} (h : ProperName name) :
    (name.isEmpty || name == ".") = false ∧ (name == "..") = false ∧
      name.toList.contains '\x00' = false := by
  refine ⟨?_, ?_, ?_⟩
  · simp [h.nonempty, h.notHere]
  · simp [h.notAbove]
  · simp [h.noNull]

theorem resolveWith_of_lookBelow {strict : Bool} {name : String}
    {onLink : Waypoint → Waypoint → String → Except Fault Resolution} (hname : ProperName name)
    (hbelow : disk.lookBelow (.ofLocation folder) name = .ok node)
    (hplain : ∀ target, node ≠ .link target) :
    disk.resolveWith strict onLink (.ofLocation folder) (name :: rest) =
      disk.resolveWith strict onLink (.ofLocation (folder ++ [name])) rest := by
  rw [resolveWith, hbelow]
  obtain ⟨hskip, hup, hnull⟩ := step_of_properName hname
  simp only [hskip, hup, hnull, Bool.false_eq_true, if_false]
  cases node with
  | link target => exact absurd rfl (hplain target)
  | _ => rfl

theorem resolveWith_of_not_found {name : String}
    {onLink : Waypoint → Waypoint → String → Except Fault Resolution} {errno : Errno}
    (hname : ProperName name) (hbelow : disk.lookBelow (.ofLocation folder) name = .error errno) :
    disk.resolveWith true onLink (.ofLocation folder) (name :: rest) =
      .error (.refused errno (Path.ofLocation (folder ++ [name])).toString) := by
  rw [resolveWith, hbelow]
  obtain ⟨hskip, hup, hnull⟩ := step_of_properName hname
  simp only [hskip, hup, hnull, Bool.false_eq_true, if_false]
  rfl

theorem lookBelow_ofLocation {name : String} (hname : ProperName name)
    (hsize : (Path.ofLocation (folder ++ [name])).toString.utf8ByteSize < pathLimit)
    (hnode : disk.nodeAt? (folder ++ [name]) = some node) :
    disk.lookBelow (.ofLocation folder) name = .ok node := by
  obtain ⟨entries, hfolder, hentry⟩ := exists_folder_of_nodeAt?_snoc hnode
  have hspelling : ((Waypoint.ofLocation folder).down name).spelling = .ofLocation (folder ++ [name]) :=
    rfl
  have hat : (Waypoint.ofLocation folder).location = folder := rfl
  rw [lookBelow, hspelling, if_neg (Nat.not_le.2 hsize), hat, hfolder]
  simp [Nat.not_lt.2 hname.short, hentry]

theorem nodeAt?_of_lookBelow {at_ : Waypoint} {name : String} (h : disk.lookBelow at_ name = .ok node) :
    disk.nodeAt? (at_.location ++ [name]) = some node := by
  unfold lookBelow at h
  split at h
  · cases h
  · split at h
    · cases h
    · next entries hfolder =>
      split at h
      · cases h
      · rw [nodeAt?_snoc hfolder]
        cases hentry : entries.lookup name with
        | none => simp [hentry] at h
        | some found => simpa [hentry] using h
    · cases h

/-- A strict resolution along the names of a location gets there. -/
theorem resolveWith_of_nodeAt? {strict : Bool}
    {onLink : Waypoint → Waypoint → String → Except Fault Resolution}
    (hproper : ∀ name ∈ rest, ProperName name)
    (hsize : (Path.ofLocation (folder ++ rest)).toString.utf8ByteSize < pathLimit)
    (hnode : disk.nodeAt? (folder ++ rest) = some node) (hplain : ∀ target, node ≠ .link target) :
    disk.resolveWith strict onLink (.ofLocation folder) rest =
      .ok (.reached (.ofLocation (folder ++ rest))) := by
  induction rest generalizing folder with
  | nil => simp [resolveWith]
  | cons name rest ih =>
      rw [List.forall_mem_cons] at hproper
      rw [List.append_cons] at hsize hnode ⊢
      have hshort := Nat.lt_of_le_of_lt (size_ofLocation_le (folder ++ [name]) rest) hsize
      obtain ⟨below, hbelow, hnot⟩ : ∃ below, disk.nodeAt? (folder ++ [name]) = some below ∧
          ∀ target, below ≠ .link target := by
        by_cases hrest : rest = []
        · subst hrest
          exact ⟨node, by simpa using hnode, hplain⟩
        · obtain ⟨inner, hinner⟩ := exists_folder_of_append hnode hrest
          exact ⟨.folder inner, hinner, by simp⟩
      rw [resolveWith_of_lookBelow hproper.1 (lookBelow_ofLocation hproper.1 hshort hbelow) hnot]
      exact ih hproper.2 hsize hnode

/-- A strict resolution along names without links gets to their location or is refused. -/
theorem resolveWith_of_noLinkOn {onLink : Waypoint → Waypoint → String → Except Fault Resolution}
    (hproper : ∀ name ∈ rest, ProperName name) (hlink : disk.NoLinkOn (folder ++ rest)) :
    disk.resolveWith true onLink (.ofLocation folder) rest =
        .ok (.reached (.ofLocation (folder ++ rest))) ∨
      ∃ errno refused, disk.resolveWith true onLink (.ofLocation folder) rest =
        .error (.refused errno refused) := by
  induction rest generalizing folder with
  | nil => exact .inl (by simp [resolveWith])
  | cons name rest ih =>
      rw [List.forall_mem_cons] at hproper
      rw [List.append_cons] at hlink ⊢
      cases hbelow : disk.lookBelow (.ofLocation folder) name with
      | error errno => exact .inr ⟨errno, _, resolveWith_of_not_found hproper.1 hbelow⟩
      | ok below =>
          have hnot : ∀ target, below ≠ .link target := by
            rintro target rfl
            have hnode := nodeAt?_of_lookBelow hbelow
            have hnone := hlink (folder ++ [name]).length target
            rw [List.take_left] at hnone
            exact hnone hnode
          rw [resolveWith_of_lookBelow hproper.1 hbelow hnot]
          exact ih hproper.2 hlink

theorem anchor_ofString_ne (h : isAbsolute text = true) : (Path.ofString text).anchor ≠ .here := by
  simp only [isAbsolute, decide_eq_true_eq] at h
  obtain ⟨chars, hchars⟩ := List.head?_eq_some_iff.1 h
  rw [Path.ofString, hchars]
  unfold Path.anchorOf
  split <;> simp_all

/-- The path that a resolution gives starts at the root. -/
theorem anchor_path_ne (found : Resolution) (cwd : List String) : (found.path cwd).anchor ≠ .here := by
  cases found with
  | reached at_ => exact Anchor.noConfusion
  | stuck spelling =>
      rw [Resolution.path, Path.absolute]
      split
      · exact Anchor.noConfusion
      · assumption

theorem parts_ofString (hspells : Path.Spells text names)
    (hproper : ∀ name ∈ names, ProperName name) : (Path.ofString text).parts = names := by
  rw [Path.parts_ofString, hspells.named, List.filter_eq_self]
  intro name hmem
  simpa using (hproper name hmem).notHere

theorem exists_resolveWay_eq (disk : Disk) (strict : Bool) (depth : Nat) (passed : List Path) :
    ∃ onLink, ∀ start way,
      disk.resolveWay strict depth passed start way = disk.resolveWith strict onLink start way := by
  cases depth with
  | zero => exact ⟨_, fun _ _ => rfl⟩
  | succ depth => exact ⟨_, fun _ _ => rfl⟩

/-- The canonical path of a text along names comes from a resolution along them. -/
theorem exists_locate_eq (disk : Disk) (hspells : Path.Spells text names)
    (hproper : ∀ name ∈ names, ProperName name) :
    ∃ onLink, disk.locate (.ofString text) =
      (disk.resolveWith true onLink (.ofLocation []) names).map (Resolution.path disk.cwd) := by
  unfold locate resolution
  rw [if_neg (anchor_ofString_ne hspells.absolute), parts_ofString hspells hproper]
  obtain ⟨onLink, honLink⟩ := exists_resolveWay_eq disk true (2 * (disk.tree.linkCount + 1)) []
  exact ⟨onLink, by rw [honLink]; rfl⟩

/-- The canonical path of a text along the names of a location. -/
theorem locate_of_nodeAt? (hspells : Path.Spells text names)
    (hproper : ∀ name ∈ names, ProperName name)
    (hsize : (Path.ofLocation names).toString.utf8ByteSize < pathLimit)
    (hnode : disk.nodeAt? names = some node) (hplain : ∀ target, node ≠ .link target) :
    disk.locate (.ofString text) = .ok (.ofLocation names) := by
  obtain ⟨onLink, hlocate⟩ := exists_locate_eq disk hspells hproper
  have hreached : disk.resolveWith true onLink (.ofLocation []) names =
      .ok (.reached (.ofLocation names)) :=
    resolveWith_of_nodeAt? hproper hsize hnode hplain
  rw [hlocate, hreached]
  rfl

/-- The canonical path of a text along names without links, if there is one. -/
theorem locate_of_noLinkOn (hspells : Path.Spells text names)
    (hproper : ∀ name ∈ names, ProperName name) (hlink : disk.NoLinkOn names) :
    disk.locate (.ofString text) = .ok (.ofLocation names) ∨
      ∃ errno refused, disk.locate (.ofString text) = .error (.refused errno refused) := by
  obtain ⟨onLink, hlocate⟩ := exists_locate_eq disk hspells hproper
  have hresolve : disk.resolveWith true onLink (.ofLocation []) names =
        .ok (.reached (.ofLocation names)) ∨
      ∃ errno refused, disk.resolveWith true onLink (.ofLocation []) names =
        .error (.refused errno refused) :=
    resolveWith_of_noLinkOn hproper hlink
  rw [hlocate]
  rcases hresolve with hreached | ⟨errno, refused, hrefused⟩
  · rw [hreached]
    exact .inl rfl
  · rw [hrefused]
    exact .inr ⟨errno, refused, rfl⟩

end ElmSuite.Disk
