import ElmSuite.Proofs.Disk.Passage

/-!
Canonical paths name entries of the disk themselves: a link never stands on one, and a resolution of
one comes back to it.  A resolution that ends depends on nothing but where its way leads, so whatever
way an entry is asked for, its path is the same.
-/

namespace ElmSuite.Disk

variable {disk : Disk} {kind : Node → Bool} {asked path found : Path} {location : List String}

/-! ### Where paths lead -/

/-- A path leads to a location, links followed. -/
def LeadsTo (disk : Disk) (path : Path) (location : List String) : Prop :=
  Leads disk (disk.startOf path) path.parts location

/-- A text leads where the system finds what it denotes. -/
theorem leadsTo_of_find {text : String} {node : Node} (h : disk.find text = .ok (location, node)) :
    disk.LeadsTo (.ofString text) location := by
  have hleads := (leads_of_find h).skip
  rw [← parts_ofString_eq] at hleads
  have hstart : disk.startOf (.ofString text) = if isAbsolute text then [] else disk.cwd := by
    cases habsolute : isAbsolute text with
    | true => exact if_neg (anchor_ofString_ne habsolute)
    | false => exact if_pos (anchor_ofString_of_relative habsolute)
  rw [LeadsTo, hstart]
  exact hleads

/-- No way that leads somewhere has an empty step, since no entry has an empty name. -/
theorem Leads.nonempty_steps {folder way : List String} (hproper : disk.ProperNames)
    (h : Leads disk folder way location) : "" ∉ way := by
  have hentry {folder : List String} {step : String} {node : Node}
      (hnode : disk.nodeAt? (folder ++ [step]) = some node) : "" ≠ step := fun hempty =>
    (hproper.of_nodeAt? hnode step (by simp)).nonempty hempty.symm
  induction h with
  | here _ => exact List.not_mem_nil
  | stay hdot _ _ ih => exact List.not_mem_cons_of_ne_of_not_mem (by rw [hdot]; decide) ih
  | up hup _ _ ih => exact List.not_mem_cons_of_ne_of_not_mem (by rw [hup]; decide) ih
  | down _ _ hnode _ _ ih => exact List.not_mem_cons_of_ne_of_not_mem (hentry hnode) ih
  | follow _ _ hlink _ ih =>
      exact List.not_mem_cons_of_ne_of_not_mem (hentry hlink) fun hmem =>
        ih (List.mem_append_right _ hmem)

/-- The canonical path of a path depends on where it leads only. -/
theorem eq_ofLocation_of_locate (hdisk : disk.WellFormed) (hleads : disk.LeadsTo asked location)
    (h : disk.locate asked = .ok found) : found = .ofLocation location := by
  obtain ⟨led, hresolution, rfl, -⟩ := exists_reached_of_locate hdisk h
  obtain ⟨size, hcrosses⟩ := crosses_of_resolveWay hresolution
  rw [apply_ite Waypoint.location] at hcrosses
  obtain ⟨other, hother⟩ := hleads.exists_crosses (hleads.nonempty_steps hdisk.proper)
  rw [(hcrosses.unique hother.of_filter).2]

/-! ### Entries -/

/-- A path is the canonical one of an entry of a kind: it goes from the root along names, none of
which is that of a link, it leads to the entry that these name, the system finds the entry there, and
a resolution comes back to the path. -/
structure Canonical (disk : Disk) (kind : Node → Bool) (path : Path) : Prop where
  absolute : path.anchor = .root
  noDots : ∀ part ∈ path.parts, part ≠ "." ∧ part ≠ ".."
  noLink : disk.NoLinkOn path.parts
  leads : disk.LeadsTo path path.parts
  denotes : ∃ node, disk.find path.toString = .ok (path.parts, node) ∧ kind node = true
  fixed : disk.locate path = .ok path

/-- A path that is asked for gives its canonical path if an entry of the kind is found there. -/
def Gives (disk : Disk) (kind : Node → Bool) (asked path : Path) : Prop :=
  disk.locate asked = .ok path ∧
    ∃ location node, disk.find path.toString = .ok (location, node) ∧ kind node = true

theorem isFile_eq_true {text : String} :
    disk.isFile text = true ↔
      ∃ location node, disk.find text = .ok (location, node) ∧ node.isFile = true := by
  unfold isFile
  split
  · next location node hfind => simp [hfind]
  · next hfind => simp [hfind]

theorem isFolder_eq_true {text : String} :
    disk.isFolder text = true ↔
      ∃ location node, disk.find text = .ok (location, node) ∧ node.isFolder = true := by
  unfold isFolder
  split
  · next location node hfind => simp [hfind]
  · next hfind => simp [hfind]

theorem Gives.canonical (hdisk : disk.WellFormed) (h : disk.Gives kind asked path) :
    disk.Canonical kind path := by
  obtain ⟨hlocate, location, node, hfind, hkind⟩ := h
  obtain ⟨names, rfl, hstands⟩ := stands_of_locate hdisk hlocate
  have hlink := hstands.noLinkOn
  obtain ⟨found, hfound, hplain⟩ := hstands
  have hproper := hdisk.proper.of_nodeAt? hfound
  have hspells := Path.spells_ofLocation hproper
  obtain ⟨hsize, rfl, -⟩ := nodeAt?_of_find hspells hproper hlink hfind
  have hself : Path.ofString (Path.ofLocation location).toString = .ofLocation location :=
    Path.ofString_toString (by simp [Path.ofLocation]) fun part hpart =>
      Path.isPart_of_properName (hproper part hpart)
  have hfixed := locate_of_nodeAt? hspells hproper hsize hfound hplain
  have hleads := leadsTo_of_find hfind
  rw [hself] at hfixed hleads
  exact ⟨rfl, fun part hpart => ⟨(hproper part hpart).notHere, (hproper part hpart).notAbove⟩,
    hlink, hleads, ⟨node, hfind, hkind⟩, hfixed⟩

/-- What is found for paths that are asked for: the entries of a kind that they give, each of them
once and under its canonical path. -/
structure FindsEntries (disk : Disk) (kind : Node → Bool) (asked : Path → Prop) (found : List Path) :
    Prop where
  mem_iff : ∀ path, path ∈ found ↔ ∃ ask, asked ask ∧ disk.Gives kind ask path
  nodup : found.Nodup
  canonical : ∀ path ∈ found, disk.Canonical kind path
  /-- Paths that lead to one location give one path. -/
  merged : ∀ first second location, asked first → asked second → disk.LeadsTo first location →
    disk.LeadsTo second location → ∀ path other, disk.Gives kind first path →
      disk.Gives kind second other → path = other
  /-- Two paths that are found are not found in one place by the system. -/
  distinct : ∀ first ∈ found, ∀ second ∈ found, first ≠ second → ∀ location node,
    disk.find first.toString = .ok (location, node) →
      ∀ other, disk.find second.toString ≠ .ok (location, other)

/-- What is found for a list of paths, each of which gives an entry. -/
structure FindsAll (disk : Disk) (kind : Node → Bool) (asked found : List Path) : Prop
    extends disk.FindsEntries kind (· ∈ asked) found where
  answered : ∀ ask ∈ asked, ∃ path ∈ found, disk.Gives kind ask path

theorem Canonical.eq_of_find {first second : Path} {node other : Node} (hfirst : disk.Canonical kind first)
    (hsecond : disk.Canonical kind second) (hnode : disk.find first.toString = .ok (location, node))
    (hother : disk.find second.toString = .ok (location, other)) : first = second := by
  obtain ⟨_, hfind, -⟩ := hfirst.denotes
  obtain ⟨_, hfind', -⟩ := hsecond.denotes
  rw [hfind, Except.ok.injEq, Prod.mk.injEq] at hnode
  rw [hfind', Except.ok.injEq, Prod.mk.injEq] at hother
  calc
    first = ⟨.root, first.parts⟩ := by rw [← hfirst.absolute]
    _ = ⟨.root, second.parts⟩ := by rw [hnode.1, hother.1]
    _ = second := by rw [← hsecond.absolute]

/-- Entries that are given are found, if each is listed once. -/
theorem FindsEntries.of_nodup (hdisk : disk.WellFormed) {asked : Path → Prop} {found : List Path}
    (hnodup : found.Nodup)
    (hmem : ∀ path, path ∈ found ↔ ∃ ask, asked ask ∧ disk.Gives kind ask path) :
    disk.FindsEntries kind asked found := by
  have hcanonical : ∀ path ∈ found, disk.Canonical kind path := by
    intro path hpath
    obtain ⟨_, -, hgives⟩ := (hmem path).1 hpath
    exact hgives.canonical hdisk
  refine ⟨hmem, hnodup, hcanonical, ?_, ?_⟩
  · intro first second location _ _ hleads hleads' path other hgives hgives'
    rw [eq_ofLocation_of_locate hdisk hleads hgives.1, eq_ofLocation_of_locate hdisk hleads' hgives'.1]
  · intro first hfirst second hsecond hne location node hnode other hother
    exact hne ((hcanonical first hfirst).eq_of_find (hcanonical second hsecond) hnode hother)

end ElmSuite.Disk
