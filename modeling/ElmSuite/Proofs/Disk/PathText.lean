import ElmSuite.Disk.Walk
import ElmSuite.Proofs.Disk.Tree
import ElmSuite.Proofs.Lists

/-!
Texts of paths and the names that stand in them.  A disk keeps entries only under names that can
stand in a text between slashes, so the text of a path says which names it goes along.
-/

namespace ElmSuite

/-- A name that an entry of a folder can have. -/
structure ProperName (name : String) : Prop where
  nonempty : name ≠ ""
  noSlash : '/' ∉ name.toList
  noNull : '\x00' ∉ name.toList
  notHere : name ≠ "."
  notAbove : name ≠ ".."
  short : name.utf8ByteSize ≤ Disk.nameLimit

/-- All entries of a disk have proper names. -/
def Disk.ProperNames (disk : Disk) : Prop :=
  ∀ location name node, disk.nodeAt? (location ++ [name]) = some node → ProperName name

instance (name : String) : Decidable (ProperName name) :=
  decidable_of_iff
    (name ≠ "" ∧ '/' ∉ name.toList ∧ '\x00' ∉ name.toList ∧ name ≠ "." ∧ name ≠ ".." ∧
      name.utf8ByteSize ≤ Disk.nameLimit)
    ⟨fun ⟨hne, hslash, hnull, hdot, hup, hshort⟩ => ⟨hne, hslash, hnull, hdot, hup, hshort⟩,
      fun h => ⟨h.nonempty, h.noSlash, h.noNull, h.notHere, h.notAbove, h.short⟩⟩

mutual

/-- Whether all entries of a tree have proper names. -/
def Node.hasProperNames : Node → Bool
  | .folder entries => Node.haveProperNames entries
  | _ => true

/-- Whether a list of entries and all entries below them have proper names. -/
def Node.haveProperNames : List (String × Node) → Bool
  | [] => true
  | (name, node) :: rest => decide (ProperName name) && node.hasProperNames && haveProperNames rest

end

theorem Node.hasProperNames_of_lookup {entries : List (String × Node)} {name : String} {node : Node}
    (h : Node.haveProperNames entries = true) (hentry : entries.lookup name = some node) :
    ProperName name ∧ node.hasProperNames = true := by
  induction entries with
  | nil => cases hentry
  | cons entry entries ih =>
      obtain ⟨key, below⟩ := entry
      simp only [Node.haveProperNames, Bool.and_eq_true, decide_eq_true_eq] at h
      rw [List.lookup_cons] at hentry
      split at hentry
      · next hkey =>
        cases hentry
        rw [beq_iff_eq] at hkey
        exact ⟨hkey ▸ h.1.1, h.1.2⟩
      · exact ih h.2 hentry

theorem Node.properName_of_at? {tree node : Node} {location : List String} {name : String}
    (h : tree.hasProperNames = true) (hnode : tree.at? (location ++ [name]) = some node) :
    ProperName name := by
  induction location generalizing tree with
  | nil =>
      rw [List.nil_append, Node.at?_cons] at hnode
      obtain ⟨below, hbelow, -⟩ := Option.bind_eq_some_iff.1 hnode
      obtain ⟨entries, rfl, hentry⟩ := Node.exists_folder_of_child? hbelow
      exact (Node.hasProperNames_of_lookup h hentry).1
  | cons first rest ih =>
      rw [List.cons_append, Node.at?_cons] at hnode
      obtain ⟨below, hbelow, hrest⟩ := Option.bind_eq_some_iff.1 hnode
      obtain ⟨entries, rfl, hentry⟩ := Node.exists_folder_of_child? hbelow
      exact ih (Node.hasProperNames_of_lookup h hentry).2 hrest

theorem Disk.properNames_of_tree {disk : Disk} (h : disk.tree.hasProperNames = true) :
    disk.ProperNames :=
  fun _ _ _ hnode => Node.properName_of_at? h hnode

theorem Disk.ProperNames.of_nodeAt? {disk : Disk} {names : List String} {node : Node}
    (h : disk.ProperNames) (hnode : disk.nodeAt? names = some node) :
    ∀ name ∈ names, ProperName name := by
  intro name hmem
  obtain ⟨above, rest, rfl⟩ := List.append_of_mem hmem
  rw [Disk.nodeAt?, List.append_cons, Node.at?_append] at hnode
  obtain ⟨below, hbelow, -⟩ := Option.bind_eq_some_iff.1 hnode
  exact h above name below hbelow

namespace Path

/-- The pieces of a text between slashes that are not empty. -/
def named (text : String) : List String :=
  (pieces text).filter fun piece => !piece.isEmpty

theorem pieces_append (text more : String) :
    pieces (text ++ "/" ++ more) = pieces text ++ pieces more := by
  have hslash : (text ++ "/" ++ more).toList = text.toList ++ '/' :: more.toList := by
    simp [String.toList_append]
  rw [pieces, hslash, List.splitOn_append_cons_self, List.map_append]
  rfl

@[simp]
theorem named_append (text more : String) :
    named (text ++ "/" ++ more) = named text ++ named more := by
  rw [named, pieces_append, List.filter_append]
  rfl

theorem named_of_not_slash {name : String} (hne : name ≠ "") (hslash : '/' ∉ name.toList) :
    named name = [name] := by
  have hpieces : pieces name = [name] := by
    rw [pieces, List.splitOn_eq_singleton hslash]
    simp
  rw [named, hpieces]
  simp [hne]

theorem named_of_properName {name : String} (h : ProperName name) : named name = [name] :=
  named_of_not_slash h.nonempty h.noSlash

theorem named_of_mem_named {text piece : String} (h : piece ∈ named text) : named piece = [piece] := by
  rw [named, List.mem_filter, pieces, List.mem_map] at h
  obtain ⟨⟨chars, hchars, rfl⟩, hne⟩ := h
  apply named_of_not_slash
  · simpa using hne
  · rw [String.toList_ofList]
    exact not_mem_of_mem_splitOn hchars

theorem named_slash (text : String) : named ("/" ++ text) = named text := by
  have h := named_append "" text
  rw [String.empty_append, show named "" = [] by decide, List.nil_append] at h
  exact h

/-- Joined texts go along their names one after the other. -/
theorem named_intercalate_eq (texts : List String) :
    named ("/".intercalate texts) = texts.flatMap named := by
  induction texts with
  | nil => decide
  | cons text rest ih =>
      by_cases hrest : rest = []
      · subst hrest
        simp
      · rw [String.intercalate_cons_of_ne_nil hrest, named_append, ih, List.flatMap_cons]

theorem flatMap_named {names : List String} (h : ∀ name ∈ names, named name = [name]) :
    names.flatMap named = names := by
  induction names with
  | nil => rfl
  | cons name rest ih =>
      rw [List.forall_mem_cons] at h
      rw [List.flatMap_cons, h.1, ih h.2]
      rfl

/-- Names of texts are their own names. -/
theorem flatMap_named_filter (texts : List String) (keep : String → Bool) :
    ((texts.flatMap named).filter keep).flatMap named = (texts.flatMap named).filter keep := by
  refine flatMap_named fun piece hpiece => ?_
  obtain ⟨text, -, hmem⟩ := List.mem_flatMap.1 (List.mem_filter.1 hpiece).1
  exact named_of_mem_named hmem

theorem named_intercalate {names : List String} (h : ∀ name ∈ names, ProperName name) :
    named ("/".intercalate names) = names := by
  rw [named_intercalate_eq]
  exact flatMap_named fun name hname => named_of_properName (h name hname)

/-- A text that goes from the root along the names. -/
structure Spells (text : String) (names : List String) : Prop where
  absolute : Disk.isAbsolute text = true
  noNull : '\x00' ∉ text.toList
  named : Path.named text = names

variable {text folder name : String} {names more : List String}

theorem Spells.nonempty (h : Spells text names) : text ≠ "" := by
  rintro rfl
  exact absurd h.absolute (by decide)

theorem head?_append_of_isAbsolute (h : Disk.isAbsolute text = true) (rest : String) :
    Disk.isAbsolute (text ++ rest) = true := by
  simp only [Disk.isAbsolute, decide_eq_true_eq] at h ⊢
  rw [String.toList_append, List.head?_append, h]
  rfl

theorem null_mem_intercalate_iff :
    '\x00' ∈ ("/".intercalate names).toList ↔ ∃ name ∈ names, '\x00' ∈ name.toList := by
  induction names with
  | nil => simp
  | cons name rest ih =>
      by_cases hrest : rest = []
      · subst hrest
        simp
      · rw [String.intercalate_cons_of_ne_nil hrest, String.toList_append, List.mem_append, ih]
        simp

theorem noNull_intercalate (h : ∀ name ∈ names, ProperName name) :
    '\x00' ∉ ("/".intercalate names).toList := by
  rw [null_mem_intercalate_iff]
  rintro ⟨name, hname, hnull⟩
  exact (h name hname).noNull hnull

theorem ofLocation_inj {first second : List String} :
    ofLocation first = ofLocation second ↔ first = second := by
  simp [ofLocation]

theorem toString_ofLocation (names : List String) :
    (ofLocation names).toString = "/" ++ "/".intercalate names := by
  simp [ofLocation, toString, Anchor.text]

/-- The text of the names from the root goes along them. -/
theorem spells_ofLocation (h : ∀ name ∈ names, ProperName name) :
    Spells (ofLocation names).toString names where
  absolute := by
    rw [toString_ofLocation]
    exact head?_append_of_isAbsolute (by decide) _
  noNull := by
    have hnames := noNull_intercalate h
    rw [toString_ofLocation, String.toList_append, List.mem_append, not_or]
    exact ⟨by decide, hnames⟩
  named := by rw [toString_ofLocation, named_slash, named_intercalate h]

theorem under_of_not_slash (hne : folder ≠ "") (hend : folder.toList.getLast? ≠ some '/')
    (hname : name.toList.head? ≠ some '/') : under folder name = folder ++ "/" ++ name := by
  simp [under, hne, hend, hname]

/-- A text that can be a part of a path. -/
structure IsPart (part : String) : Prop where
  nonempty : part ≠ ""
  noSlash : '/' ∉ part.toList
  notHere : part ≠ "."

theorem isPart_of_properName (h : ProperName name) : IsPart name :=
  ⟨h.nonempty, h.noSlash, h.notHere⟩

theorem IsPart.head?_ne (h : IsPart name) : name.toList.head? ≠ some '/' := by
  intro hhead
  exact h.noSlash (List.mem_of_head? hhead)

theorem head?_ne_of_properName (h : ProperName name) : name.toList.head? ≠ some '/' :=
  (isPart_of_properName h).head?_ne

/-- What goes along names, a slash, and further names goes along all of them. -/
theorem Spells.append (h : Spells folder names) (hmore : ∀ name ∈ more, ProperName name) :
    Spells (folder ++ "/" ++ "/".intercalate more) (names ++ more) where
  absolute := by
    rw [String.append_assoc]
    exact head?_append_of_isAbsolute h.absolute _
  noNull := by
    have hrest := noNull_intercalate hmore
    simpa using ⟨h.noNull, by simpa using hrest⟩
  named := by rw [named_append, h.named, named_intercalate hmore]

/-- The text of an entry goes along the names of the folder and of the entry. -/
theorem Spells.under (h : Spells folder names) (hname : ProperName name) :
    Spells (Path.under folder name) (names ++ [name]) := by
  by_cases hend : folder.toList.getLast? = some '/'
  · -- The slash at the end of the folder is the one in front of the name.
    obtain ⟨bare, hbare⟩ : ∃ bare, folder = bare ++ "/" := by
      obtain ⟨chars, hchars⟩ := List.getLast?_eq_some_iff.1 hend
      exact ⟨String.ofList chars, String.toList_inj.1 (by simpa using hchars)⟩
    have hunder : Path.under folder name = bare ++ "/" ++ name := by
      simp [Path.under, head?_ne_of_properName hname, hbare]
    have hnames : Path.named bare = names := by
      rw [← h.named, hbare, ← String.append_empty (s := bare ++ "/"), named_append,
        show Path.named "" = [] by decide, List.append_nil]
    have hfolder := h.noNull
    rw [hbare] at hfolder
    rw [hunder]
    refine ⟨?_, ?_, ?_⟩
    · rw [← hbare]
      exact head?_append_of_isAbsolute h.absolute name
    · simpa using ⟨by simpa using hfolder, hname.noNull⟩
    · rw [named_append, hnames, named_of_properName hname]
  · rw [under_of_not_slash h.nonempty hend (head?_ne_of_properName hname)]
    have hmore : ∀ other ∈ [name], ProperName other := by simpa using hname
    simpa using h.append hmore

/-! ### Ends of texts -/

theorem getLast?_ne_of_properName (h : ProperName name) : name.toList.getLast? ≠ some '/' := by
  intro hlast
  exact h.noSlash (List.mem_of_getLast? hlast)

theorem getLast?_append_ne (text : String) (hne : name ≠ "")
    (hlast : name.toList.getLast? ≠ some '/') : (text ++ name).toList.getLast? ≠ some '/' := by
  rw [String.toList_append, List.getLast?_append]
  cases hchars : name.toList.getLast? with
  | none => exact absurd (by simpa using hchars) hne
  | some c => simpa [hchars] using hlast

theorem intercalate_ne_empty (h : ∀ name ∈ names, ProperName name) (hne : names ≠ []) :
    "/".intercalate names ≠ "" := by
  intro hempty
  have hnames := named_intercalate h
  rw [hempty, show Path.named "" = [] by decide] at hnames
  exact hne hnames.symm

theorem getLast?_intercalate_ne (h : ∀ name ∈ names, ProperName name) :
    ("/".intercalate names).toList.getLast? ≠ some '/' := by
  induction names with
  | nil => decide
  | cons name rest ih =>
      rw [List.forall_mem_cons] at h
      by_cases hrest : rest = []
      · subst hrest
        simpa using getLast?_ne_of_properName h.1
      · rw [String.intercalate_cons_of_ne_nil hrest]
        exact getLast?_append_ne _ (intercalate_ne_empty h.2 hrest) (ih h.2)

theorem head?_intercalate_ne (h : ∀ name ∈ names, IsPart name) :
    ("/".intercalate names).toList.head? ≠ some '/' := by
  cases names with
  | nil => decide
  | cons name rest =>
      rw [List.forall_mem_cons] at h
      by_cases hrest : rest = []
      · subst hrest
        simpa using h.1.head?_ne
      · rw [String.intercalate_cons_of_ne_nil hrest, String.append_assoc, String.toList_append,
          List.head?_append]
        cases hhead : name.toList.head? with
        | none => exact absurd (by simpa using hhead) h.1.nonempty
        | some c => simpa [hhead] using h.1.head?_ne

/-- The text of names below a name. -/
theorem under_intercalate (hname : ProperName name) (hmore : ∀ name ∈ more, ProperName name)
    (hne : more ≠ []) : under name ("/".intercalate more) = "/".intercalate (name :: more) := by
  rw [under_of_not_slash hname.nonempty (getLast?_ne_of_properName hname)
    (head?_intercalate_ne fun other hother => isPart_of_properName (hmore other hother)), String.intercalate_cons_of_ne_nil hne]

/-! ### Texts of anchored paths -/

variable {p : Path}

theorem isAbsolute_toString (h : p.anchor ≠ .here) : Disk.isAbsolute p.toString = true := by
  unfold toString
  rw [if_neg fun hempty => h hempty.1]
  apply head?_append_of_isAbsolute
  cases hanchor : p.anchor with
  | here => exact absurd hanchor h
  | root => decide
  | doubleRoot => decide

theorem named_toString (h : p.anchor ≠ .here) : named p.toString = p.parts.flatMap named := by
  unfold toString
  rw [if_neg fun hempty => h hempty.1, ← named_intercalate_eq]
  cases hanchor : p.anchor with
  | here => exact absurd hanchor h
  | root => exact named_slash _
  | doubleRoot =>
      rw [show Anchor.doubleRoot.text = "/" ++ "/" by decide, String.append_assoc, named_slash,
        named_slash]

theorem exists_intercalate_snoc (texts : List String) (last : String) :
    ∃ start, "/".intercalate (texts ++ [last]) = start ++ last := by
  induction texts with
  | nil => exact ⟨"", by simp⟩
  | cons text rest ih =>
      obtain ⟨start, hstart⟩ := ih
      refine ⟨text ++ "/" ++ start, ?_⟩
      rw [List.cons_append, String.intercalate_cons_of_ne_nil (by simp), hstart]
      simp only [String.append_assoc]

@[simp]
theorem parent_child (p : Path) (name : String) : (p.child name).parent = p := by
  simp [parent, child]

/-- The steps that the path of an entry asks for. -/
theorem steps_child (h : p.anchor ≠ .here) (hname : ProperName name) :
    Disk.steps (p.child name).toString = p.parts.flatMap named ++ [name] := by
  have hnamed : named (p.child name).toString = p.parts.flatMap named ++ [name] := by
    have hchild : (p.child name).anchor ≠ .here := h
    rw [named_toString hchild]
    simp [child, named_of_properName hname]
  have hlast : (p.child name).toString.toList.getLast? ≠ some '/' := by
    obtain ⟨start, hstart⟩ := exists_intercalate_snoc p.parts name
    have htext : (p.child name).toString = p.anchor.text ++ start ++ name := by
      unfold toString
      rw [if_neg fun hempty => h hempty.1, child, hstart, String.append_assoc]
    rw [htext]
    exact getLast?_append_ne _ hname.nonempty (getLast?_ne_of_properName hname)
  unfold Disk.steps
  rw [if_neg hlast]
  exact hnamed

theorem parts_ofString (text : String) :
    (ofString text).parts = (named text).filter fun step => !(step == ".") := by
  rw [ofString, named, List.filter_filter]
  apply List.filter_congr
  intro piece _
  simp [Bool.and_comm]

/-- What is left of the text of a path when it is read as a path. -/
theorem parts_ofString_toString (h : p.anchor ≠ .here) :
    (ofString p.toString).parts = (p.parts.flatMap named).filter fun step => !(step == ".") := by
  rw [parts_ofString, named_toString h]

theorem isPart_of_mem_ofString {part : String} (h : part ∈ (ofString text).parts) : IsPart part := by
  rw [ofString, List.mem_filter, pieces, List.mem_map] at h
  obtain ⟨⟨chars, hchars, rfl⟩, hpart⟩ := h
  simp only [Bool.not_eq_true', Bool.or_eq_false_iff, String.isEmpty_eq_false_iff, beq_eq_false_iff_ne]
    at hpart
  refine ⟨hpart.1, ?_, hpart.2⟩
  rw [String.toList_ofList]
  exact not_mem_of_mem_splitOn hchars

theorem anchorOf_append {anchor : Anchor} {chars : List Char} (hanchor : anchor ≠ .here)
    (hchars : chars.head? ≠ some '/') : anchorOf (anchor.text.toList ++ chars) = anchor := by
  cases chars with
  | nil =>
      cases anchor with
      | here => exact absurd rfl hanchor
      | root => rfl
      | doubleRoot => rfl
  | cons c rest =>
      have hc : c ≠ '/' := fun heq => hchars (by rw [heq, List.head?_cons])
      cases anchor with
      | here => exact absurd rfl hanchor
      | root =>
          change anchorOf ('/' :: c :: rest) = .root
          simp [anchorOf, hc]
      | doubleRoot =>
          change anchorOf ('/' :: '/' :: c :: rest) = .doubleRoot
          simp [anchorOf, hc]

/-- A path from the root is what its text denotes. -/
theorem ofString_toString (h : p.anchor ≠ .here) (hparts : ∀ part ∈ p.parts, IsPart part) :
    ofString p.toString = p := by
  have hanchor : anchorOf p.toString.toList = p.anchor := by
    unfold toString
    rw [if_neg fun hempty => h hempty.1, String.toList_append]
    exact anchorOf_append h (head?_intercalate_ne hparts)
  have hnamed : p.parts.flatMap named = p.parts :=
    flatMap_named fun part hpart => named_of_not_slash (hparts part hpart).nonempty (hparts part hpart).noSlash
  have hfound := parts_ofString_toString h
  rw [hnamed, List.filter_eq_self.2 fun part hpart => by simpa using (hparts part hpart).notHere] at hfound
  calc
    ofString p.toString = ⟨anchorOf p.toString.toList, (ofString p.toString).parts⟩ := rfl
    _ = p := by rw [hanchor, hfound]

end Path

end ElmSuite
