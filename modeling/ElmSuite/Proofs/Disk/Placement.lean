import ElmSuite.Proofs.Disk.Denotation
import ElmSuite.Proofs.Disk.Footprint

/-!
What the operations on a disk answer at the path of a location, if no link stands there or on the way.
The answer depends on the length of the path and on what stands at the location and above it, and on
nothing else of the disk.
-/

namespace ElmSuite.Disk

variable {disk after : Disk} {above names rest : List String} {name : String} {node : Node}
  {entries : List (String × Node)}

theorem getLast?_ofLocation (hproper : ∀ name ∈ names, ProperName name) (hne : names ≠ []) :
    (Path.ofLocation names).toString.toList.getLast? ≠ some '/' := by
  rw [Path.toString_ofLocation]
  exact Path.getLast?_append_ne _ (Path.intercalate_ne_empty hproper hne)
    (Path.getLast?_intercalate_ne hproper)

theorem steps_ofLocation (hproper : ∀ name ∈ names, ProperName name) (hne : names ≠ []) :
    steps (Path.ofLocation names).toString = names := by
  rw [steps_of_spells (Path.spells_ofLocation hproper), if_neg (getLast?_ofLocation hproper hne),
    List.append_nil]

/-- A descent from the root along the names of a location gets there. -/
theorem descend_root (follow : Bool) (dots : List String) (hproper : ∀ name ∈ names, ProperName name)
    (hnode : disk.nodeAt? names = some node) (hplain : ∀ target, node ≠ .link target) :
    disk.descend follow [] (names ++ dots) = disk.descend follow names dots := by
  have hroot : disk.nodeAt? ([] ++ names) = some node := hnode
  exact descend_append follow dots hproper hroot hplain

/-! ### Places -/

section Place

variable (follow : Bool)

/-- A path that is too long denotes no place. -/
theorem place_of_long (hproper : ∀ name ∈ names, ProperName name)
    (hsize : pathLimit ≤ (Path.ofLocation names).toString.utf8ByteSize) :
    disk.place follow (Path.ofLocation names).toString =
      .error (.refused .nameTooLong (Path.ofLocation names).toString) := by
  have hspells := Path.spells_ofLocation hproper
  have hempty : (Path.ofLocation names).toString.isEmpty = false := by
    simpa using hspells.nonempty
  rw [place, if_neg (by simpa using hspells.noNull), hempty, if_neg Bool.false_ne_true, if_pos hsize]

variable (hproper : ∀ name ∈ names, ProperName name) (hne : names ≠ [])
  (hsize : (Path.ofLocation names).toString.utf8ByteSize < pathLimit)
include hproper hne hsize

theorem place_of_arrived {place : Place}
    (h : disk.descend follow [] names = .ok (.arrived place)) :
    disk.place follow (Path.ofLocation names).toString = .ok place := by
  have hspells := Path.spells_ofLocation hproper
  rw [place_eq_ok, if_pos hspells.absolute, steps_ofLocation hproper hne]
  exact ⟨hspells.noNull, hspells.nonempty, hsize, walk_of_descend h linkLimit⟩

theorem place_of_refused {errno : Errno} (h : disk.descend follow [] names = .error errno) :
    disk.place follow (Path.ofLocation names).toString =
      .error (.refused errno (Path.ofLocation names).toString) := by
  have hspells := Path.spells_ofLocation hproper
  have hempty : (Path.ofLocation names).toString.isEmpty = false := by
    simpa using hspells.nonempty
  have hwalk : disk.walk follow linkLimit [] names = .error errno := by
    rw [walk, h]
  rw [place, if_neg (by simpa using hspells.noNull), hempty, if_neg Bool.false_ne_true,
    if_neg (Nat.not_le.2 hsize), if_pos hspells.absolute, steps_ofLocation hproper hne]
  dsimp only
  rw [hwalk]

/-- The place of what is there. -/
theorem place_of_nodeAt? (hnode : disk.nodeAt? names = some node)
    (hplain : ∀ target, node ≠ .link target) :
    disk.place follow (Path.ofLocation names).toString = .ok (.taken names node) := by
  apply place_of_arrived follow hproper hne hsize
  rw [← List.append_nil names, descend_root follow [] hproper hnode hplain, descend, hnode,
    List.append_nil]

end Place

section Way

variable (follow : Bool) (hproper : ∀ part ∈ above ++ name :: rest, ProperName part)
  (hsize : (Path.ofLocation (above ++ name :: rest)).toString.utf8ByteSize < pathLimit)
include hproper hsize

/-- A free name in a folder is a place; nothing is found below it. -/
theorem place_of_none (hfolder : disk.nodeAt? above = some (.folder entries))
    (hnone : disk.nodeAt? (above ++ [name]) = none) :
    disk.place follow (Path.ofLocation (above ++ name :: rest)).toString =
      if rest = [] then .ok (.free above name)
      else .error (.refused .notFound (Path.ofLocation (above ++ name :: rest)).toString) := by
  have habove : ∀ part ∈ above, ProperName part := fun part hpart =>
    hproper part (List.mem_append_left _ hpart)
  have hname : ProperName name := hproper name (by simp)
  have hdescend := descend_root follow (name :: rest) habove hfolder (by simp)
  rw [descend_cons hfolder, if_neg hname.notHere, if_neg hname.notAbove,
    if_neg (Nat.not_lt.2 hname.short), hnone] at hdescend
  by_cases hrest : rest = []
  · subst hrest
    rw [if_pos rfl]
    exact place_of_arrived follow hproper (by simp) hsize hdescend
  · rw [if_neg hrest]
    apply place_of_refused follow hproper (by simp) hsize
    rw [hdescend]
    simp [hrest]

/-- There is no place below what is no folder. -/
theorem place_of_blocked (hnode : disk.nodeAt? above = some node)
    (hplain : ∀ target, node ≠ .link target) (hfolder : node.isFolder = false) :
    disk.place follow (Path.ofLocation (above ++ name :: rest)).toString =
      .error (.refused .notDirectory (Path.ofLocation (above ++ name :: rest)).toString) := by
  have habove : ∀ part ∈ above, ProperName part := fun part hpart =>
    hproper part (List.mem_append_left _ hpart)
  apply place_of_refused follow hproper (by simp) hsize
  rw [descend_root follow (name :: rest) habove hnode hplain, descend, hnode]
  cases node with
  | folder => cases hfolder
  | _ => rfl

end Way

/-! ### Folders -/

/-- Making folders at a path where something is, or that cannot be looked at, changes nothing. -/
theorem makeFoldersUpTo_of_refused {path : Path} {errno : Errno}
    (hmake : disk.makeFolder path.toString = .error (.refused errno path.toString))
    (hfound : errno ≠ .notFound) (depth : Nat) :
    makeFoldersUpTo depth path disk =
      (if disk.isFolder path.toString then .ok () else .error (.refused errno path.toString), disk) := by
  unfold makeFoldersUpTo
  dsimp only
  rw [hmake]
  split
  · next heq => cases heq
  · next refused heq =>
    rw [Except.error.injEq] at heq
    cases heq
    exact absurd rfl hfound
  · next error _ heq =>
    rw [Except.error.injEq] at heq
    cases heq
    split <;> rfl
  · next fault _ hother heq =>
    rw [Except.error.injEq] at heq
    exact absurd heq.symm (hother _)

theorem isFolder_of_place {text : String} {fault : Fault} (h : disk.place true text = .error fault) :
    disk.isFolder text = false := by
  rw [isFolder, find, h]
  rfl

/-- The folder that a path denotes is there or it is not; what the path does not reach is none. -/
theorem isFolder_of_nodeAt? (hproper : ∀ name ∈ names, ProperName name) (hne : names ≠ [])
    (hsize : (Path.ofLocation names).toString.utf8ByteSize < pathLimit)
    (hnode : disk.nodeAt? names = some node) (hplain : ∀ target, node ≠ .link target) :
    disk.isFolder (Path.ofLocation names).toString = node.isFolder := by
  rw [isFolder, find_eq_ok.2 (place_of_nodeAt? true hproper hne hsize hnode hplain)]

/-- No folders are made along a path that is too long. -/
theorem makeFoldersUpTo_of_long (hproper : ∀ name ∈ names, ProperName name)
    (hsize : pathLimit ≤ (Path.ofLocation names).toString.utf8ByteSize) (depth : Nat) :
    makeFoldersUpTo depth (.ofLocation names) disk =
      (.error (.refused .nameTooLong (Path.ofLocation names).toString), disk) := by
  have hmake : disk.makeFolder (Path.ofLocation names).toString =
      .error (.refused .nameTooLong (Path.ofLocation names).toString) := by
    rw [makeFolder, place_of_long false hproper hsize]
    rfl
  rw [makeFoldersUpTo_of_refused hmake (by decide), isFolder_of_place (place_of_long true hproper hsize)]
  rfl

/-- No folders are made along a path on which something else stands. -/
theorem makeFoldersUpTo_of_blocked (hproper : ∀ name ∈ above ++ rest, ProperName name) (hne : above ≠ [])
    (hsize : (Path.ofLocation (above ++ rest)).toString.utf8ByteSize < pathLimit)
    (hnode : disk.nodeAt? above = some node) (hplain : ∀ target, node ≠ .link target)
    (hfolder : node.isFolder = false) (depth : Nat) :
    makeFoldersUpTo depth (.ofLocation (above ++ rest)) disk =
      (.error (.refused (if rest = [] then .alreadyExists else .notDirectory)
        (Path.ofLocation (above ++ rest)).toString), disk) := by
  cases rest with
  | nil =>
      rw [List.append_nil] at hproper hsize ⊢
      have hmake : disk.makeFolder (Path.ofLocation above).toString =
          .error (.refused .alreadyExists (Path.ofLocation above).toString) := by
        rw [makeFolder, place_of_nodeAt? false hproper hne hsize hnode hplain]
        rfl
      rw [makeFoldersUpTo_of_refused hmake (by decide),
        isFolder_of_nodeAt? hproper hne hsize hnode hplain, hfolder]
      rfl
  | cons name rest =>
      have hmake : disk.makeFolder (Path.ofLocation (above ++ name :: rest)).toString =
          .error (.refused .notDirectory (Path.ofLocation (above ++ name :: rest)).toString) := by
        rw [makeFolder, place_of_blocked false hproper hsize hnode hplain hfolder]
        rfl
      rw [makeFoldersUpTo_of_refused hmake (by decide),
        isFolder_of_place (place_of_blocked true hproper hsize hnode hplain hfolder)]
      rfl

theorem parent_ofLocation (names : List String) (name : String) :
    (Path.ofLocation (names ++ [name])).parent = .ofLocation names := by
  rw [Path.parent, Path.ofLocation, List.dropLast_concat]
  rfl

/-- In a folder that is there, a folder is made unless it is there already. -/
theorem exists_makeFoldersUpTo_in {last : String} (hproper : ∀ name ∈ above ++ [last], ProperName name)
    (hsize : (Path.ofLocation (above ++ [last])).toString.utf8ByteSize < pathLimit)
    (habove : disk.nodeAt? above = some (.folder entries))
    (hlast : ∀ node, disk.nodeAt? (above ++ [last]) = some node → node.isFolder = true) (depth : Nat) :
    ∃ after inner, makeFoldersUpTo depth (.ofLocation (above ++ [last])) disk = (.ok (), after) ∧
      after.nodeAt? (above ++ [last]) = some (.folder inner) := by
  have hne : above ++ [last] ≠ [] := by simp
  cases hnode : disk.nodeAt? (above ++ [last]) with
  | none =>
      have hmake : disk.makeFolder (Path.ofLocation (above ++ [last])).toString =
          .ok (disk.put (above ++ [last]) (.folder [])) := by
        rw [makeFolder, place_of_none false hproper hsize habove hnode]
        rfl
      refine ⟨disk.put (above ++ [last]) (.folder []), [], ?_, Node.at?_put_self habove last _⟩
      unfold makeFoldersUpTo
      dsimp only
      rw [hmake]
  | some node =>
      have hfolder := hlast node hnode
      cases node with
      | folder inner =>
          have hmake : disk.makeFolder (Path.ofLocation (above ++ [last])).toString =
              .error (.refused .alreadyExists (Path.ofLocation (above ++ [last])).toString) := by
            rw [makeFolder, place_of_nodeAt? false hproper hne hsize hnode (by simp)]
            rfl
          refine ⟨disk, inner, ?_, hnode⟩
          rw [makeFoldersUpTo_of_refused hmake (by decide),
            isFolder_of_nodeAt? hproper hne hsize hnode (by simp)]
          rfl
      | _ => cases hfolder

/-- Where names go on below a folder to nothing, one of them is the first that is missing. -/
theorem exists_missing {base more : List String} (hbase : disk.nodeAt? base = some (.folder entries))
    (hnone : disk.nodeAt? (base ++ more) = none)
    (hway : ∀ location node, Along base more location → disk.nodeAt? location = some node →
      node.isFolder = true) :
    ∃ front name rest inner, more = front ++ name :: rest ∧
      disk.nodeAt? (base ++ front) = some (.folder inner) ∧
      disk.nodeAt? (base ++ front ++ [name]) = none := by
  induction more generalizing base entries with
  | nil =>
      rw [List.append_nil, hbase] at hnone
      cases hnone
  | cons name rest ih =>
      cases hnode : disk.nodeAt? (base ++ [name]) with
      | none => exact ⟨[], name, rest, entries, rfl, by rwa [List.append_nil], by rwa [List.append_nil]⟩
      | some node =>
          have hfolder := hway _ node ⟨[name], by simp, ⟨rest, rfl⟩, rfl⟩ hnode
          cases node with
          | folder inner =>
              rw [List.append_cons] at hnone
              obtain ⟨front, last, after, deepest, rfl, hdeepest, hmissing⟩ :=
                ih hnode hnone fun location node halong =>
                  hway location node (by
                    obtain ⟨below, hne, hprefix, rfl⟩ := halong
                    exact ⟨name :: below, by simp, List.cons_prefix_cons.2 ⟨rfl, hprefix⟩, by simp⟩)
              exact ⟨name :: front, last, after, deepest, rfl, by simpa using hdeepest,
                by simpa using hmissing⟩
          | _ => cases hfolder

/-- What folders along names below a folder change of the disk. -/
theorem makeFoldersUpTo_along {base more : List String} (hproper : ∀ name ∈ base ++ more, ProperName name)
    (hbase : disk.nodeAt? base = some (.folder entries))
    (hlink : ∀ location target, Along base more location → disk.nodeAt? location ≠ some (.link target))
    (depth : Nat) :
    disk.Touches (Along base more) (fun _ => False)
      (makeFoldersUpTo depth (.ofLocation (base ++ more)) disk).2 := by
  have hnamed : base.flatMap Path.named = base := Path.flatMap_named fun name hname =>
    Path.named_of_properName (hproper name (List.mem_append_left _ hname))
  have hleads : Leads disk [] (base.flatMap Path.named) base := by
    rw [hnamed]
    exact (stands_of_folder hbase).leads_root fun name hname => hproper name (List.mem_append_left _ hname)
  have hanchor : Anchor.root ≠ .here := by decide
  exact makeFoldersUpTo_touches hanchor hleads hbase
    (fun name hname => hproper name (List.mem_append_right _ hname)) hlink depth

/-- Folders along names leave free what stands below the last of them. -/
theorem nodeAt?_of_touches_along {base front : List String} (last : String)
    (hfront : disk.nodeAt? (base ++ front) = none)
    (htouches : disk.Touches (Along base front) (fun _ => False) after) :
    after.nodeAt? (base ++ front ++ [last]) = none := by
  have hold : disk.nodeAt? (base ++ front ++ [last]) = none := by
    rw [nodeAt?, Node.at?_append, show disk.tree.at? (base ++ front) = none from hfront]
    rfl
  by_contra hsome
  obtain ⟨node, hnode⟩ := Option.ne_none_iff_exists'.1 hsome
  obtain ⟨⟨names, -, hprefix, hnames⟩, -⟩ | ⟨hfalse, -⟩ := htouches.new _ node hnode hold
  · rw [List.append_assoc] at hnames
    rw [← List.append_cancel_left hnames] at hprefix
    have hlength := hprefix.length_le
    simp only [List.length_append, List.length_singleton] at hlength
    omega
  · exact hfalse.elim

/-- No folder is made below one that is missing. -/
theorem makeFolder_of_missing {base front : List String} {last : String}
    (hproper : ∀ name ∈ base ++ front ++ [last], ProperName name)
    (hsize : (Path.ofLocation (base ++ front ++ [last])).toString.utf8ByteSize < pathLimit)
    (hbase : disk.nodeAt? base = some (.folder entries)) (hfront : disk.nodeAt? (base ++ front) = none)
    (hway : ∀ location node, Along base front location → disk.nodeAt? location = some node →
      node.isFolder = true) :
    disk.makeFolder (Path.ofLocation (base ++ front ++ [last])).toString =
      .error (.refused .notFound (Path.ofLocation (base ++ front ++ [last])).toString) := by
  obtain ⟨start, name, rest, deepest, rfl, hdeepest, hmissing⟩ := exists_missing hbase hfront hway
  have hsplit : base ++ (start ++ name :: rest) ++ [last] = base ++ start ++ name :: (rest ++ [last]) := by
    simp
  rw [hsplit] at hproper hsize ⊢
  rw [makeFolder, place_of_none false hproper hsize hdeepest hmissing, if_neg (by simp)]
  rfl

/-- Folders along names below a folder are made if nothing else stands on the way. -/
theorem exists_makeFoldersUpTo {base more : List String} (hproper : ∀ name ∈ base ++ more, ProperName name)
    (hne : more ≠ []) (hsize : (Path.ofLocation (base ++ more)).toString.utf8ByteSize < pathLimit)
    (hbase : disk.nodeAt? base = some (.folder entries))
    (hway : ∀ location node, Along base more location → disk.nodeAt? location = some node →
      node.isFolder = true) {depth : Nat} (hdepth : more.length ≤ depth) :
    ∃ after inner, makeFoldersUpTo depth (.ofLocation (base ++ more)) disk = (.ok (), after) ∧
      after.nodeAt? (base ++ more) = some (.folder inner) := by
  induction depth generalizing more with
  | zero => exact absurd (List.eq_nil_of_length_eq_zero (Nat.le_zero.1 hdepth)) hne
  | succ depth ih =>
      obtain ⟨front, last, rfl⟩ : ∃ front last, more = front ++ [last] :=
        ⟨_, _, (List.dropLast_append_getLast hne).symm⟩
      have hmore {location : List String} (h : Along base front location) :
          Along base (front ++ [last]) location := h.of_prefix (List.prefix_append _ _)
      have hself : Along base (front ++ [last]) (base ++ front ++ [last]) :=
        ⟨_, hne, List.prefix_rfl, List.append_assoc _ _ _⟩
      have hproper' : ∀ name ∈ base ++ front ++ [last], ProperName name := by
        rwa [List.append_assoc]
      have hsize' : (Path.ofLocation (base ++ front ++ [last])).toString.utf8ByteSize < pathLimit := by
        rwa [List.append_assoc]
      rw [← List.append_assoc]
      cases hfront : disk.nodeAt? (base ++ front) with
      | some node =>
          obtain ⟨inner, hinner⟩ : ∃ inner, disk.nodeAt? (base ++ front) = some (.folder inner) := by
            by_cases hempty : front = []
            · exact ⟨entries, by rwa [hempty, List.append_nil]⟩
            · have hfolder := hway _ node (hmore ⟨front, hempty, List.prefix_rfl, rfl⟩) hfront
              cases node with
              | folder inner => exact ⟨inner, hfront⟩
              | _ => cases hfolder
          exact exists_makeFoldersUpTo_in hproper' hsize' hinner (fun node => hway _ node hself) _
      | none =>
          have hempty : front ≠ [] := by
            rintro rfl
            rw [List.append_nil, hbase] at hfront
            cases hfront
          have hshort : (Path.ofLocation (base ++ front)).toString.utf8ByteSize < pathLimit :=
            Nat.lt_of_le_of_lt (size_ofLocation_le (base ++ front) [last]) hsize'
          have hlink : ∀ location target, Along base front location →
              disk.nodeAt? location ≠ some (.link target) := by
            intro location target halong hnode
            cases hway location _ (hmore halong) hnode
          obtain ⟨below, inner, hmade, hinner⟩ := ih
            (fun name hname => hproper' name (List.mem_append_left _ hname)) hempty hshort
            (fun location node halong => hway location node (hmore halong))
            (by simp only [List.length_append, List.length_singleton] at hdepth; omega)
          have htouches := makeFoldersUpTo_along
            (fun name hname => hproper' name (List.mem_append_left _ hname)) hbase hlink depth
          rw [hmade] at htouches
          -- What is missing in front of the last name is made first, and the last name is free then.
          have hnone := nodeAt?_of_touches_along last hfront htouches
          have hfirst := makeFolder_of_missing hproper' hsize' hbase hfront fun location node halong =>
            hway location node (hmore halong)
          have hlast : below.makeFolder (Path.ofLocation (base ++ front ++ [last])).toString =
              .ok (below.put (base ++ front ++ [last]) (.folder [])) := by
            rw [makeFolder, place_of_none false hproper' hsize' hinner hnone]
            rfl
          refine ⟨below.put (base ++ front ++ [last]) (.folder []), [], ?_,
            Node.at?_put_self hinner last _⟩
          unfold makeFoldersUpTo
          dsimp only
          rw [hfirst, parent_ofLocation, hmade]
          dsimp only [Fault.refused]
          rw [hlast]

/-- The system does not lose its way in links: it finds something or refuses for another reason. -/
def Plainly (disk : Disk) (text : String) : Prop :=
  (∃ found, disk.find text = .ok found) ∨
    ∃ errno, errno ≠ .tooManyLinks ∧ disk.find text = .error (.refused errno text)

theorem plainly_of_folder (hproper : ∀ name ∈ names, ProperName name)
    (hfolder : disk.nodeAt? names = some (.folder entries)) :
    disk.Plainly (Path.ofLocation names).toString := by
  by_cases hsize : (Path.ofLocation names).toString.utf8ByteSize < pathLimit
  · have hspells := Path.spells_ofLocation hproper
    exact .inl ⟨_, find_of_nodeAt? hspells hproper hsize hfolder (by simp) fun _ => rfl⟩
  · refine .inr ⟨.nameTooLong, by decide, ?_⟩
    rw [find, place_of_long true hproper (Nat.not_lt.1 hsize)]
    rfl

theorem plainly_along {base more : List String} (hproper : ∀ name ∈ base ++ more, ProperName name)
    (hne : base ++ more ≠ []) (hbase : disk.nodeAt? base = some (.folder entries))
    (hlink : ∀ location target, Along base more location → disk.nodeAt? location ≠ some (.link target)) :
    disk.Plainly (Path.ofLocation (base ++ more)).toString := by
  by_cases hsize : (Path.ofLocation (base ++ more)).toString.utf8ByteSize < pathLimit
  · cases hnode : disk.nodeAt? (base ++ more) with
    | some node =>
        have hplain : ∀ target, node ≠ .link target := by
          rintro target rfl
          by_cases hmore : more = []
          · rw [hmore, List.append_nil, hbase] at hnode
            cases hnode
          · exact hlink _ target ⟨more, hmore, List.prefix_rfl, rfl⟩ hnode
        exact .inl ⟨_, find_eq_ok.2 (place_of_nodeAt? true hproper hne hsize hnode hplain)⟩
    | none =>
        by_cases hway : ∀ location node, Along base more location → disk.nodeAt? location = some node →
            node.isFolder = true
        · obtain ⟨front, name, rest, inner, rfl, hinner, hmissing⟩ := exists_missing hbase hnode hway
          rw [← List.append_assoc] at hproper hsize ⊢
          refine .inr ⟨.notFound, by decide, ?_⟩
          rw [find, place_of_none true hproper hsize hinner hmissing]
          split <;> rfl
        · push Not at hway
          obtain ⟨location, node, halong, hat, hfolder⟩ := hway
          have hplain : ∀ target, node ≠ .link target := fun target heq =>
            hlink location target halong (heq ▸ hat)
          obtain ⟨below, hbelow, ⟨rest, rfl⟩, rfl⟩ := halong
          rw [← List.append_assoc] at hproper hsize hnode ⊢
          cases rest with
          | nil =>
              rw [List.append_nil, hat] at hnode
              cases hnode
          | cons name rest =>
              refine .inr ⟨.notDirectory, by decide, ?_⟩
              rw [find, place_of_blocked true hproper hsize hat hplain (by simpa using hfolder)]
              rfl
  · refine .inr ⟨.nameTooLong, by decide, ?_⟩
    rw [find, place_of_long true hproper (Nat.not_lt.1 hsize)]
    rfl

/-! ### Files -/

section Write

variable {last : String} (bytes : List UInt8)

theorem writeBytes_of_long (hproper : ∀ name ∈ names, ProperName name)
    (hsize : pathLimit ≤ (Path.ofLocation names).toString.utf8ByteSize) :
    disk.writeBytes (Path.ofLocation names).toString bytes =
      .error (.refused .nameTooLong (Path.ofLocation names).toString) := by
  rw [writeBytes, place_of_long true hproper hsize]
  rfl

variable (hproper : ∀ name ∈ above ++ [last], ProperName name)
  (hsize : (Path.ofLocation (above ++ [last])).toString.utf8ByteSize < pathLimit)
include hproper hsize

/-- Bytes are written where a file stands, or nothing does. -/
theorem writeBytes_of_writable (habove : disk.nodeAt? above = some (.folder entries))
    (hlast : ∀ node, disk.nodeAt? (above ++ [last]) = some node → node.isFile = true) :
    disk.writeBytes (Path.ofLocation (above ++ [last])).toString bytes =
      .ok (disk.put (above ++ [last]) (.file bytes)) := by
  cases hnode : disk.nodeAt? (above ++ [last]) with
  | none =>
      rw [writeBytes, place_of_none true hproper hsize habove hnode]
      rfl
  | some node =>
      have hfile := hlast node hnode
      cases node with
      | file old =>
          rw [writeBytes, place_of_nodeAt? true hproper (by simp) hsize hnode (by simp)]
          rfl
      | _ => cases hfile

/-- What is no file is not written over: a folder refuses it, and anything else swallows the bytes. -/
theorem writeBytes_of_nodeAt? (hnode : disk.nodeAt? (above ++ [last]) = some node)
    (hplain : ∀ target, node ≠ .link target) (hfile : node.isFile = false) :
    disk.writeBytes (Path.ofLocation (above ++ [last])).toString bytes =
      if node.isFolder then .error (.refused .isDirectory (Path.ofLocation (above ++ [last])).toString)
      else .ok disk := by
  rw [writeBytes, place_of_nodeAt? true hproper (by simp) hsize hnode hplain]
  cases node with
  | file => cases hfile
  | link target => exact absurd rfl (hplain target)
  | _ => rfl

end Write

/-- A file that is put in a folder where a file stands, or nothing does, is all that changes. -/
theorem put_file_touches {last : String} (bytes : List UInt8)
    (habove : disk.nodeAt? above = some (.folder entries))
    (hlast : ∀ node, disk.nodeAt? (above ++ [last]) = some node → node.isFile = true) :
    disk.Touches (fun _ => False) (fun location => location = above ++ [last])
      (disk.put (above ++ [last]) (.file bytes)) :=
  touches_put (Node.at?_put_self habove last _) (.inl ⟨rfl, rfl⟩) fun old hold => ⟨hlast old hold, rfl⟩

end ElmSuite.Disk
