import ElmSuite.Proofs.Disk.Surplus

/-!
A disk from which something is erased.  Nothing stands there any more, everything else stays, and if
the erased part held only folders and files, the disk underlies the one that it was.
-/

namespace ElmSuite

namespace Node

variable {tree node : Node} {name other : String} {location : List String}
  {entries : List (String × Node)}

theorem lookup_filter_ne (name other : String) (entries : List (String × Node)) :
    (entries.filter fun entry => entry.1 != name).lookup other =
      if other = name then none else entries.lookup other := by
  induction entries with
  | nil => simp
  | cons entry rest ih =>
      obtain ⟨key, below⟩ := entry
      by_cases hkey : key = name
      · subst hkey
        rw [List.filter_cons_of_neg (by simp), ih]
        by_cases hother : other = key
        · rw [if_pos hother, if_pos hother]
        · rw [if_neg hother, if_neg hother, List.lookup_cons, beq_false_of_ne hother]
      · rw [List.filter_cons_of_pos (by simpa using hkey), List.lookup_cons, List.lookup_cons, ih]
        by_cases hother : other = key
        · simp [hother, hkey]
        · rw [beq_false_of_ne hother]

theorem erase_singleton (entries : List (String × Node)) (name : String) :
    (folder entries).erase [name] = .folder (entries.filter fun entry => entry.1 != name) := by
  simp [erase]

theorem erase_of_lookup {below : Node} (h : entries.lookup name = some below) (next : String)
    (rest : List String) :
    (folder entries).erase (name :: next :: rest) =
      .folder (putEntry name (below.erase (next :: rest)) entries) := by
  simp [erase, h]

theorem erase_of_missing (h : entries.lookup name = none) (next : String) (rest : List String) :
    (folder entries).erase (name :: next :: rest) = .folder entries := by
  simp [erase, h]

/-- Nothing stands at or below a location that is erased. -/
theorem at?_erase_append (tree : Node) (hne : location ≠ []) (more : List String) :
    (tree.erase location).at? (location ++ more) = none := by
  induction location generalizing tree with
  | nil => exact absurd rfl hne
  | cons name rest ih =>
      rw [List.cons_append, at?_cons]
      cases tree with
      | folder entries =>
          cases rest with
          | nil =>
              rw [erase_singleton, child?_folder, lookup_filter_ne, if_pos rfl]
              rfl
          | cons next rest =>
              cases hlookup : entries.lookup name with
              | some below =>
                  rw [erase_of_lookup hlookup, child?_folder, lookup_putEntry, if_pos rfl]
                  exact ih below (by simp)
              | none =>
                  rw [erase_of_missing hlookup, child?_folder, hlookup]
                  rfl
      | _ => cases rest <;> rfl

/-- What is not below an erased location stays, except that the folders above it have other entries. -/
theorem at?_erase_of_not_prefix (tree : Node) {other : List String} (h : ¬ location <+: other) :
    (tree.erase location).at? other = tree.at? other ∨
      other <+: location ∧ ∃ old entries, tree.at? other = some (.folder old) ∧
        (tree.erase location).at? other = some (.folder entries) := by
  induction location generalizing tree other with
  | nil => exact absurd List.nil_prefix h
  | cons name rest ih =>
      cases tree with
      | folder entries =>
          cases other with
          | nil =>
              have hfolder : ∃ after, (folder entries).erase (name :: rest) = .folder after := by
                cases rest with
                | nil => exact ⟨_, erase_singleton entries name⟩
                | cons next rest =>
                    cases hlookup : entries.lookup name with
                    | some below => exact ⟨_, erase_of_lookup hlookup next rest⟩
                    | none => exact ⟨_, erase_of_missing hlookup next rest⟩
              obtain ⟨after, herase⟩ := hfolder
              rw [herase]
              exact .inr ⟨List.nil_prefix, _, _, at?_nil _, at?_nil _⟩
          | cons key below =>
              by_cases hkey : key = name
              · subst hkey
                have hrest : ¬ rest <+: below := fun hp => h (List.cons_prefix_cons.mpr ⟨rfl, hp⟩)
                cases rest with
                | nil => exact absurd List.nil_prefix hrest
                | cons next rest =>
                    cases hlookup : entries.lookup key with
                    | some child =>
                        rw [erase_of_lookup hlookup, at?_cons, at?_cons, child?_folder, child?_folder,
                          lookup_putEntry, if_pos rfl, hlookup, List.cons_prefix_cons]
                        simpa using ih child hrest
                    | none => exact .inl (by rw [erase_of_missing hlookup])
              · left
                cases rest with
                | nil => rw [erase_singleton, at?_cons, at?_cons, child?_folder, child?_folder,
                    lookup_filter_ne, if_neg hkey]
                | cons next rest =>
                    cases hlookup : entries.lookup name with
                    | some child => rw [erase_of_lookup hlookup, at?_cons, at?_cons, child?_folder,
                        child?_folder, lookup_putEntry, if_neg hkey]
                    | none => rw [erase_of_missing hlookup]
      | _ => exact .inl (by cases rest <;> rfl)

/-! ### Links -/

mutual

/-- Whether no folder of a tree has two entries with one name. -/
def hasDistinctNames : Node → Bool
  | .folder entries => decide (entries.map Prod.fst).Nodup && haveDistinctNames entries
  | _ => true

/-- Whether no folder of a list of entries has two entries with one name. -/
def haveDistinctNames : List (String × Node) → Bool
  | [] => true
  | (_, node) :: rest => node.hasDistinctNames && haveDistinctNames rest

end

theorem hasDistinctNames_folder (h : (folder entries).hasDistinctNames = true) :
    (entries.map Prod.fst).Nodup ∧ ∀ entry ∈ entries, entry.2.hasDistinctNames = true := by
  rw [hasDistinctNames, Bool.and_eq_true, decide_eq_true_eq] at h
  refine ⟨h.1, ?_⟩
  have hentries := h.2
  clear h
  induction entries with
  | nil => simp
  | cons entry rest ih =>
      obtain ⟨name, below⟩ := entry
      rw [haveDistinctNames, Bool.and_eq_true] at hentries
      exact List.forall_mem_cons.2 ⟨hentries.1, ih hentries.2⟩

theorem mem_of_lookup (h : entries.lookup name = some node) : (name, node) ∈ entries := by
  induction entries with
  | nil => cases h
  | cons entry rest ih =>
      obtain ⟨key, below⟩ := entry
      rw [List.lookup_cons] at h
      split at h
      · next hkey =>
        cases h
        rw [beq_iff_eq] at hkey
        subst hkey
        exact List.mem_cons_self
      · exact List.mem_cons_of_mem _ (ih h)

theorem lookup_of_mem (hdistinct : (entries.map Prod.fst).Nodup) (h : (name, node) ∈ entries) :
    entries.lookup name = some node := by
  induction entries with
  | nil => cases h
  | cons entry rest ih =>
      obtain ⟨key, below⟩ := entry
      rw [List.map_cons, List.nodup_cons] at hdistinct
      rw [List.lookup_cons]
      rcases List.mem_cons.1 h with heq | hmem
      · cases heq
        rw [beq_self_eq_true]
      · have hne : name ≠ key := by
          rintro rfl
          exact hdistinct.1 (List.mem_map.2 ⟨_, hmem, rfl⟩)
        rw [beq_false_of_ne hne]
        exact ih hdistinct.2 hmem

theorem hasDistinctNames_of_at? (hdistinct : tree.hasDistinctNames = true) (h : tree.at? location = some node) :
    node.hasDistinctNames = true := by
  induction location generalizing tree with
  | nil =>
      rw [at?_nil, Option.some.injEq] at h
      exact h ▸ hdistinct
  | cons name rest ih =>
      cases tree with
      | folder entries =>
          rw [at?_cons, child?_folder] at h
          obtain ⟨below, hlookup, hnode⟩ := Option.bind_eq_some_iff.1 h
          exact ih ((hasDistinctNames_folder hdistinct).2 _ (mem_of_lookup hlookup)) hnode
      | _ => cases h

theorem linkCountEntries_eq_zero (h : ∀ entry ∈ entries, entry.2.linkCount = 0) :
    linkCountEntries entries = 0 := by
  induction entries with
  | nil => rfl
  | cons entry rest ih =>
      rw [List.forall_mem_cons] at h
      rw [linkCountEntries, h.1, ih h.2]

/-- Where no link stands, none is counted. -/
theorem linkCount_eq_zero (hdistinct : tree.hasDistinctNames = true)
    (hlink : ∀ location target, tree.at? location ≠ some (.link target)) : tree.linkCount = 0 := by
  induction hheight : tree.height using Nat.strongRecOn generalizing tree with
  | _ bound ih =>
      cases tree with
      | file => rfl
      | sink => rfl
      | link target => exact absurd (at?_nil _) (hlink [] target)
      | folder entries =>
          obtain ⟨hnames, hbelow⟩ := hasDistinctNames_folder hdistinct
          rw [linkCount]
          apply linkCountEntries_eq_zero
          intro entry hentry
          have hlookup := lookup_of_mem hnames (show (entry.1, entry.2) ∈ entries from hentry)
          refine ih _ ?_ (hbelow entry hentry) (fun location target hnode => ?_) rfl
          · have hle := height_le_heightEntries hlookup
            rw [Node.height] at hheight
            omega
          · apply hlink (entry.1 :: location) target
            rw [at?_cons, child?_folder, hlookup]
            exact hnode

theorem linkCountEntries_putEntry {old new : Node} (h : entries.lookup name = some old)
    (hcount : new.linkCount = old.linkCount) :
    linkCountEntries (putEntry name new entries) = linkCountEntries entries := by
  induction entries with
  | nil => cases h
  | cons entry rest ih =>
      obtain ⟨key, below⟩ := entry
      rw [List.lookup_cons] at h
      by_cases hkey : key = name
      · subst hkey
        rw [beq_self_eq_true] at h
        cases h
        rw [putEntry, if_pos rfl, linkCountEntries, linkCountEntries, hcount]
      · rw [beq_false_of_ne (Ne.symm hkey)] at h
        rw [putEntry, if_neg hkey, linkCountEntries, linkCountEntries, ih h]

theorem linkCountEntries_filter (hnone : ∀ entry ∈ entries, entry.1 = name → entry.2.linkCount = 0) :
    linkCountEntries (entries.filter fun entry => entry.1 != name) = linkCountEntries entries := by
  induction entries with
  | nil => rfl
  | cons entry rest ih =>
      obtain ⟨key, below⟩ := entry
      rw [List.forall_mem_cons] at hnone
      by_cases hkey : key = name
      · rw [List.filter_cons_of_neg (by simpa using hkey), linkCountEntries, hnone.1 hkey, Nat.zero_add,
          ih hnone.2]
      · rw [List.filter_cons_of_pos (by simpa using hkey), linkCountEntries, linkCountEntries, ih hnone.2]

/-- There are as many links after something without links is erased. -/
theorem linkCount_erase (hdistinct : tree.hasDistinctNames = true)
    (hlink : ∀ node, tree.at? location = some node → node.linkCount = 0) :
    (tree.erase location).linkCount = tree.linkCount := by
  induction location generalizing tree with
  | nil => cases tree <;> rfl
  | cons name rest ih =>
      cases tree with
      | folder entries =>
          obtain ⟨hnames, hbelow⟩ := hasDistinctNames_folder hdistinct
          cases rest with
          | nil =>
              rw [erase_singleton, linkCount, linkCount]
              apply linkCountEntries_filter
              rintro ⟨key, node⟩ hentry rfl
              apply hlink
              rw [at?_cons, child?_folder, lookup_of_mem hnames hentry]
              exact at?_nil node
          | cons next rest =>
              cases hlookup : entries.lookup name with
              | none => rw [erase_of_missing hlookup]
              | some below =>
                  rw [erase_of_lookup hlookup, linkCount, linkCount]
                  refine linkCountEntries_putEntry hlookup (ih (hbelow _ (mem_of_lookup hlookup)) ?_)
                  intro node hnode
                  apply hlink
                  rw [at?_cons, child?_folder, hlookup]
                  exact hnode
      | _ => cases rest <;> rfl

end Node

namespace Disk

variable {disk : Disk} {folders files : List String → Prop} {location : List String}

/-- A disk from which folders and files are erased underlies the one that it was. -/
theorem erase_underlies (hne : location ≠ [])
    (hkinds : ∀ more node, disk.nodeAt? (location ++ more) = some node →
      folders (location ++ more) ∧ node.isFolder = true ∨ files (location ++ more) ∧ node.isFile = true) :
    (disk.erase location).Underlies folders files disk := by
  have hkept {other : List String} (hnot : ¬ location <+: other) :
      (disk.erase location).nodeAt? other = disk.nodeAt? other ∨
        other <+: location ∧ ∃ old entries, disk.nodeAt? other = some (.folder old) ∧
          (disk.erase location).nodeAt? other = some (.folder entries) :=
    Node.at?_erase_of_not_prefix disk.tree hnot
  have hgone {other : List String} {node : Node}
      (h : (disk.erase location).nodeAt? other = some node) : ¬ location <+: other := by
    rintro ⟨more, rfl⟩
    rw [nodeAt?, erase, Node.at?_erase_append disk.tree hne more] at h
    cases h
  refine ⟨⟨⟨⟨rfl, fun other node hnode => ?_⟩, fun other node hnode hfile hfolder => ?_⟩,
    fun other node hnode hnone => ?_⟩, fun other bytes hnode => ?_⟩
  · rcases hkept (hgone hnode) with hsame | ⟨-, old, entries, hold, hnew⟩
    · exact ⟨node, hsame.symm.trans hnode, .refl node, fun _ _ => rfl⟩
    · obtain rfl : .folder entries = node := Option.some.inj (hnew.symm.trans hnode)
      exact ⟨_, hold, .folder _ _, fun _ hfile => by cases hfile⟩
  · by_cases hbelow : location <+: other
    · obtain ⟨more, rfl⟩ := hbelow
      rcases hkinds more node hnode with ⟨-, hkind⟩ | ⟨-, hkind⟩
      · rw [hfolder] at hkind
        cases hkind
      · rw [hfile] at hkind
        cases hkind
    · rcases hkept hbelow with hsame | ⟨-, old, entries, hold, -⟩
      · exact hsame.trans hnode
      · obtain rfl : .folder old = node := Option.some.inj (hold.symm.trans hnode)
        cases hfolder
  · by_cases hbelow : location <+: other
    · obtain ⟨more, rfl⟩ := hbelow
      exact hkinds more node hnode
    · rcases hkept hbelow with hsame | ⟨-, old, entries, -, hnew⟩
      · rw [← hsame, hnone] at hnode
        cases hnode
      · rw [hnone] at hnew
        cases hnew
  · rcases hkept (hgone hnode) with hsame | ⟨-, old, entries, hold, hnew⟩
    · exact hsame.symm.trans hnode
    · cases hnew.symm.trans hnode

/-- What is neither below an erased location nor above it stays as it is. -/
theorem nodeAt?_erase {other : List String} (hbelow : ¬ location <+: other) (habove : ¬ other <+: location) :
    (disk.erase location).nodeAt? other = disk.nodeAt? other := by
  rcases Node.at?_erase_of_not_prefix disk.tree hbelow with hsame | ⟨hother, -⟩
  · exact hsame
  · exact absurd hother habove

end Disk

end ElmSuite
