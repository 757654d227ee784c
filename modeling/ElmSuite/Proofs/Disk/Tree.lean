import ElmSuite.Disk.Walk

/-!
What stands where in a tree, and what putting a node somewhere does to every other place of it.
-/

namespace ElmSuite

namespace Node

theorem lookup_putEntry (name other : String) (new : Node) (entries : List (String × Node)) :
    (putEntry name new entries).lookup other =
      if other = name then some new else entries.lookup other := by
  induction entries with
  | nil =>
      by_cases h : other = name
      · simp [putEntry, h]
      · simp [putEntry, List.lookup_cons, beq_false_of_ne h, h]
  | cons entry rest ih =>
      obtain ⟨key, old⟩ := entry
      by_cases hkey : key = name
      · subst hkey
        by_cases h : other = key
        · simp [putEntry, h]
        · simp [putEntry, List.lookup_cons, beq_false_of_ne h, h]
      · by_cases h : other = key
        · subst h
          simp [putEntry, hkey]
        · simp only [putEntry, hkey, ↓reduceIte, List.lookup_cons, beq_false_of_ne h, ih]

@[simp]
theorem at?_nil (node : Node) : node.at? [] = some node := by
  cases node <;> rfl

theorem at?_cons (node : Node) (name : String) (rest : List String) :
    node.at? (name :: rest) = (node.child? name).bind (·.at? rest) := by
  rw [at?]
  cases node.child? name <;> rfl

@[simp]
theorem child?_folder (entries : List (String × Node)) (name : String) :
    (folder entries).child? name = entries.lookup name :=
  rfl

theorem at?_append (node : Node) (first second : List String) :
    node.at? (first ++ second) = (node.at? first).bind (·.at? second) := by
  induction first generalizing node with
  | nil => simp
  | cons name rest ih =>
      rw [List.cons_append, at?_cons, at?_cons]
      cases node.child? name with
      | none => rfl
      | some below => simpa using ih below

/-- What stands in a folder stands among its entries. -/
theorem at?_snoc (node : Node) (location : List String) (name : String) :
    node.at? (location ++ [name]) = (node.at? location).bind (·.child? name) := by
  rw [at?_append]
  cases node.at? location with
  | none => rfl
  | some below => rw [Option.bind_some, Option.bind_some, at?_cons]; cases below.child? name <;> simp

/-- Only a folder has something in it. -/
theorem exists_folder_of_child? {node below : Node} {name : String}
    (h : node.child? name = some below) :
    ∃ entries, node = .folder entries ∧ entries.lookup name = some below := by
  cases node with
  | folder entries => exact ⟨entries, rfl, h⟩
  | _ => cases h

theorem put_of_lookup {entries : List (String × Node)} {name : String} {below : Node}
    (h : entries.lookup name = some below) (rest : List String) (new : Node) :
    (folder entries).put (name :: rest) new = .folder (putEntry name (below.put rest new) entries) := by
  simp [put, h]

theorem put_of_free {entries : List (String × Node)} {name : String}
    (h : entries.lookup name = none) (new : Node) :
    (folder entries).put [name] new = .folder (putEntry name new entries) := by
  simp [put, h]

theorem put_of_missing {entries : List (String × Node)} {name : String}
    (h : entries.lookup name = none) (next : String) (rest : List String) (new : Node) :
    (folder entries).put (name :: next :: rest) new = .folder entries := by
  simp [put, h]

/-- A node that is put somewhere stands there, if its folder is one. -/
theorem at?_put_self {tree : Node} {folder : List String} {entries : List (String × Node)}
    (hfolder : tree.at? folder = some (.folder entries)) (name : String) (new : Node) :
    (tree.put (folder ++ [name]) new).at? (folder ++ [name]) = some new := by
  induction folder generalizing tree with
  | nil =>
      rw [at?_nil, Option.some.injEq] at hfolder
      subst hfolder
      rw [List.nil_append]
      cases hlookup : entries.lookup name with
      | none => simp [put_of_free hlookup, at?_cons, lookup_putEntry]
      | some old =>
          rw [put_of_lookup hlookup]
          simp [at?_cons, lookup_putEntry, put]
  | cons key rest ih =>
      rw [at?_cons] at hfolder
      obtain ⟨below, hbelow, hrest⟩ := Option.bind_eq_some_iff.mp hfolder
      obtain ⟨siblings, rfl, hlookup⟩ := exists_folder_of_child? hbelow
      rw [List.cons_append, put_of_lookup hlookup, at?_cons]
      simpa [lookup_putEntry] using ih hrest

theorem at?_put_of_at? {tree old : Node} {location : List String} (h : tree.at? location = some old)
    (new : Node) : (tree.put location new).at? location = some new := by
  induction location generalizing tree with
  | nil => cases tree <;> rfl
  | cons name rest ih =>
      rw [at?_cons] at h
      obtain ⟨below, hbelow, hrest⟩ := Option.bind_eq_some_iff.mp h
      obtain ⟨entries, rfl, hlookup⟩ := exists_folder_of_child? hbelow
      rw [put_of_lookup hlookup, at?_cons]
      simpa [lookup_putEntry] using ih hrest

/-- Everything that does not stand in the place of a new node stays, except that the folders on the
way to it have other entries. -/
theorem at?_put_of_not_prefix (tree new : Node) {location other : List String}
    (h : ¬ location <+: other) :
    (tree.put location new).at? other = tree.at? other ∨
      ∃ old entries, tree.at? other = some (.folder old) ∧
        (tree.put location new).at? other = some (.folder entries) := by
  induction location generalizing tree other with
  | nil => exact absurd List.nil_prefix h
  | cons name rest ih =>
      cases tree with
      | folder entries =>
          obtain ⟨after, hput⟩ : ∃ after, (folder entries).put (name :: rest) new = .folder after := by
            cases hlookup : entries.lookup name with
            | some below => exact ⟨_, put_of_lookup hlookup rest new⟩
            | none =>
                cases rest with
                | nil => exact ⟨_, put_of_free hlookup new⟩
                | cons next more => exact ⟨_, put_of_missing hlookup next more new⟩
          cases other with
          | nil =>
              rw [hput]
              exact .inr ⟨_, _, at?_nil _, at?_nil _⟩
          | cons key below =>
              by_cases hkey : key = name
              · subst hkey
                have hrest : ¬ rest <+: below := fun hp => h (List.cons_prefix_cons.mpr ⟨rfl, hp⟩)
                cases hlookup : entries.lookup key with
                | some child =>
                    rw [put_of_lookup hlookup]
                    simpa [at?_cons, lookup_putEntry, hlookup] using ih child hrest
                | none =>
                    cases rest with
                    | nil => exact absurd List.nil_prefix hrest
                    | cons next more => exact .inl (by rw [put_of_missing hlookup])
              · left
                cases hlookup : entries.lookup name with
                | some child => simp [put_of_lookup hlookup, at?_cons, lookup_putEntry, hkey]
                | none =>
                    cases rest with
                    | nil => simp [put_of_free hlookup, at?_cons, lookup_putEntry, hkey]
                    | cons next more => rw [put_of_missing hlookup]
      | _ => exact .inl rfl

theorem height_le_heightEntries {entries : List (String × Node)} {name : String} {node : Node}
    (h : entries.lookup name = some node) : node.height ≤ heightEntries entries := by
  induction entries with
  | nil => cases h
  | cons entry entries ih =>
      obtain ⟨key, below⟩ := entry
      rw [List.lookup_cons] at h
      rw [heightEntries]
      split at h
      · cases h
        exact Nat.le_max_left _ _
      · exact Nat.le_trans (ih h) (Nat.le_max_right _ _)

/-- No location is deeper than the tree is high. -/
theorem length_add_height_le {tree node : Node} {location : List String}
    (h : tree.at? location = some node) : location.length + node.height ≤ tree.height := by
  induction location generalizing tree with
  | nil =>
      rw [at?_nil] at h
      cases h
      simp
  | cons name rest ih =>
      rw [at?_cons] at h
      obtain ⟨below, hbelow, hrest⟩ := Option.bind_eq_some_iff.1 h
      obtain ⟨entries, rfl, hentry⟩ := exists_folder_of_child? hbelow
      have hle := height_le_heightEntries hentry
      have hdeep := ih hrest
      rw [height, List.length_cons]
      omega

theorem linkCount_le_linkCountEntries {entries : List (String × Node)} {name : String} {node : Node}
    (h : entries.lookup name = some node) : node.linkCount ≤ linkCountEntries entries := by
  induction entries with
  | nil => cases h
  | cons entry entries ih =>
      obtain ⟨key, below⟩ := entry
      rw [List.lookup_cons] at h
      rw [linkCountEntries]
      split at h
      · cases h
        exact Nat.le_add_right _ _
      · exact Nat.le_trans (ih h) (Nat.le_add_left _ _)

theorem linkCount_at?_le {tree node : Node} {location : List String}
    (h : tree.at? location = some node) : node.linkCount ≤ tree.linkCount := by
  induction location generalizing tree with
  | nil =>
      rw [at?_nil] at h
      cases h
      exact Nat.le_refl _
  | cons name rest ih =>
      rw [at?_cons] at h
      obtain ⟨below, hbelow, hrest⟩ := Option.bind_eq_some_iff.1 h
      obtain ⟨entries, rfl, hentry⟩ := exists_folder_of_child? hbelow
      rw [linkCount]
      exact Nat.le_trans (ih hrest) (linkCount_le_linkCountEntries hentry)

/-- Where no link is counted, none stands. -/
theorem at?_ne_link {tree : Node} (h : tree.linkCount = 0) (location : List String)
    (target : String) : tree.at? location ≠ some (.link target) := by
  intro hlink
  have hle := linkCount_at?_le hlink
  rw [h, linkCount] at hle
  exact absurd hle (by decide)

end Node

namespace Disk

@[simp]
theorem nodeAt?_put (disk : Disk) (location : List String) (node : Node) (other : List String) :
    (disk.put location node).nodeAt? other = (disk.tree.put location node).at? other :=
  rfl

/-- What stands in a place stands in a folder. -/
theorem exists_folder_of_nodeAt?_snoc {disk : Disk} {folder : List String} {name : String}
    {node : Node} (h : disk.nodeAt? (folder ++ [name]) = some node) :
    ∃ entries, disk.nodeAt? folder = some (.folder entries) ∧ entries.lookup name = some node := by
  rw [nodeAt?, Node.at?_snoc] at h
  obtain ⟨above, habove, hentry⟩ := Option.bind_eq_some_iff.mp h
  obtain ⟨entries, rfl, hlookup⟩ := Node.exists_folder_of_child? hentry
  exact ⟨entries, habove, hlookup⟩

theorem nodeAt?_snoc {disk : Disk} {folder : List String} {entries : List (String × Node)}
    (h : disk.nodeAt? folder = some (.folder entries)) (name : String) :
    disk.nodeAt? (folder ++ [name]) = entries.lookup name := by
  rw [nodeAt?, Node.at?_snoc]
  rw [nodeAt?] at h
  rw [h]
  rfl

end Disk

end ElmSuite
