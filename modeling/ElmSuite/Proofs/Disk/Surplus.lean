import ElmSuite.Proofs.Disk.Placement

/-!
Two disks of which one has more than the other.  As long as the surplus is folders where folders are
made and files where files are written, making folders and writing files answers the same on both, and
what is made or written is there on both; what is there on both reads the same.
-/

namespace ElmSuite

/-- Nodes of one kind, links with one target and files with the same bytes. -/
inductive Node.SameFace : Node → Node → Prop
  | file (bytes : List UInt8) : SameFace (.file bytes) (.file bytes)
  | folder (first second : List (String × Node)) : SameFace (.folder first) (.folder second)
  | link (target : String) : SameFace (.link target) (.link target)
  | sink : SameFace .sink .sink

namespace Node.SameFace

variable {first second third : Node}

theorem symm (h : first.SameFace second) : second.SameFace first := by
  cases h <;> constructor

theorem trans (hfirst : first.SameFace second) (hsecond : second.SameFace third) : first.SameFace third := by
  cases hfirst <;> cases hsecond <;> constructor

theorem alike (h : first.SameFace second) : first.Alike second := by
  cases h <;> constructor

theorem of_alike (h : first.Alike second) (hbytes : first.isFile = true → second = first) :
    first.SameFace second := by
  cases h with
  | file bytes =>
      rw [hbytes rfl]
      exact .file bytes
  | folder => constructor
  | link => constructor
  | sink => constructor

end Node.SameFace

namespace Disk

/-- One disk has all that another has, with the same bytes in its files, and besides only folders at
some locations and files at others. -/
structure Underlies (folders files : List String → Prop) (bare full : Disk) : Prop
    extends Touches folders files bare full where
  bytes : ∀ location bytes, bare.nodeAt? location = some (.file bytes) →
    full.nodeAt? location = some (.file bytes)

variable {folders files made written spared : List String → Prop} {bare full bare' full' : Disk}
  {base more above names location : List String} {last : String} {node : Node}
  {entries : List (String × Node)}

theorem Retains.exists_sameFace (h : bare.Retains spared full) (hspared : spared location)
    (hnode : bare.nodeAt? location = some node) :
    ∃ later, full.nodeAt? location = some later ∧ node.SameFace later := by
  obtain ⟨later, hlater, halike, hbytes⟩ := h.kept location node hnode
  exact ⟨later, hlater, .of_alike halike (hbytes hspared)⟩

/-- What stands where nothing is written was there, unless it is new. -/
theorem Touches.exists_sameFace (h : bare.Touches made written full)
    (hnew : ¬ (made location ∨ written location)) (hnode : full.nodeAt? location = some node) :
    ∃ old, bare.nodeAt? location = some old ∧ old.SameFace node := by
  rw [not_or] at hnew
  cases hold : bare.nodeAt? location with
  | none =>
      rcases h.new location node hnode hold with ⟨hin, -⟩ | ⟨hin, -⟩
      · exact absurd hin hnew.1
      · exact absurd hin hnew.2
  | some old =>
      obtain ⟨later, hlater, hsame⟩ := h.toRetains.exists_sameFace hnew.2 hold
      rw [hnode, Option.some.injEq] at hlater
      exact ⟨old, rfl, hlater ▸ hsame⟩

namespace Underlies

theorem exists_full (h : bare.Underlies folders files full) (hnode : bare.nodeAt? location = some node) :
    ∃ later, full.nodeAt? location = some later ∧ node.SameFace later := by
  obtain ⟨later, hlater, halike, -⟩ := h.kept location node hnode
  refine ⟨later, hlater, .of_alike halike fun hfile => ?_⟩
  cases node with
  | file bytes =>
      rw [h.bytes location bytes hnode, Option.some.injEq] at hlater
      exact hlater.symm
  | _ => cases hfile

/-- What is no surplus stands on both disks. -/
theorem exists_bare (h : bare.Underlies folders files full) (hnode : full.nodeAt? location = some node)
    (hfolder : node.isFolder = true → ¬ folders location) (hfile : node.isFile = true → ¬ files location) :
    ∃ old, bare.nodeAt? location = some old ∧ old.SameFace node := by
  cases hold : bare.nodeAt? location with
  | none =>
      rcases h.new location node hnode hold with ⟨hin, hkind⟩ | ⟨hin, hkind⟩
      · exact absurd hin (hfolder hkind)
      · exact absurd hin (hfile hkind)
  | some old =>
      obtain ⟨later, hlater, hsame⟩ := h.exists_full hold
      rw [hnode, Option.some.injEq] at hlater
      exact ⟨old, rfl, hlater ▸ hsame⟩

/-- What changes in the same way on both disks adds nothing to the surplus. -/
theorem step (h : bare.Underlies folders files full) (hbare : bare.Touches made written bare')
    (hfull : full.Touches made written full')
    (hsame : ∀ location, made location ∨ written location →
      ∃ node later, bare'.nodeAt? location = some node ∧ full'.nodeAt? location = some later ∧
        node.SameFace later) :
    bare'.Underlies folders files full' := by
  have hkept : ∀ location node, bare'.nodeAt? location = some node →
      ∃ later, full'.nodeAt? location = some later ∧ node.SameFace later := by
    intro location node hnode
    by_cases hchanged : made location ∨ written location
    · obtain ⟨other, later, hother, hlater, hface⟩ := hsame location hchanged
      rw [hnode, Option.some.injEq] at hother
      exact ⟨later, hlater, hother ▸ hface⟩
    · obtain ⟨old, hold, hbefore⟩ := hbare.exists_sameFace hchanged hnode
      obtain ⟨first, hfirst, hacross⟩ := h.exists_full hold
      obtain ⟨later, hlater, hafter⟩ :=
        hfull.toRetains.exists_sameFace (not_or.1 hchanged).2 hfirst
      exact ⟨later, hlater, hbefore.symm.trans (hacross.trans hafter)⟩
  refine ⟨⟨⟨⟨?_, fun location node hnode => ?_⟩, ?_⟩, ?_⟩, ?_⟩
  · rw [hfull.cwd, h.cwd, hbare.cwd]
  · obtain ⟨later, hlater, hface⟩ := hkept location node hnode
    refine ⟨later, hlater, hface.alike, fun _ hfile => ?_⟩
    cases hface <;> first | rfl | cases hfile
  · intro location node hnode hfile hfolder
    have hold := h.old location node (hfull.old location node hnode hfile hfolder) hfile hfolder
    obtain ⟨later, hlater, halike, -⟩ := hbare.kept location node hold
    cases halike with
    | file => cases hfile
    | folder => cases hfolder
    | link => exact hlater
    | sink => exact hlater
  · intro location node hnode hnone
    have hunchanged : ¬ (made location ∨ written location) := by
      intro hchanged
      obtain ⟨other, -, hother, -⟩ := hsame location hchanged
      rw [hnone] at hother
      cases hother
    obtain ⟨old, hold, hface⟩ := hfull.exists_sameFace hunchanged hnode
    have hfree : bare.nodeAt? location = none := by
      cases hbefore : bare.nodeAt? location with
      | none => rfl
      | some before =>
          obtain ⟨later, hlater, -⟩ := hbare.kept location before hbefore
          rw [hnone] at hlater
          cases hlater
    rw [← hface.alike.isFolder_eq, ← hface.alike.isFile_eq]
    exact h.new location old hold hfree
  · intro location bytes hnode
    obtain ⟨later, hlater, hface⟩ := hkept location _ hnode
    cases hface
    exact hlater

/-! ### Making folders -/

section Make

variable (h : bare.Underlies folders files full) (hproper : ∀ name ∈ base ++ more, ProperName name)
  (hne : more ≠ []) (hbase : bare.nodeAt? base = some (.folder entries))
  (hlink : ∀ location target, Along base more location → bare.nodeAt? location ≠ some (.link target))
  (hfiles : ∀ location, Along base more location → ¬ files location)
include h hproper hne hbase hlink hfiles

/-- Folders along names, none of which is a surplus file, are made on both disks or on none. -/
theorem makeFolders :
    (Disk.makeFolders (.ofLocation (base ++ more)) bare).1 =
        (Disk.makeFolders (.ofLocation (base ++ more)) full).1 ∧
      (Disk.makeFolders (.ofLocation (base ++ more)) bare).2.Underlies folders files
        (Disk.makeFolders (.ofLocation (base ++ more)) full).2 ∧
      bare.Touches (Along base more) (fun _ => False)
        (Disk.makeFolders (.ofLocation (base ++ more)) bare).2 ∧
      ((Disk.makeFolders (.ofLocation (base ++ more)) bare).1 = .ok () →
        ∃ inner, (Disk.makeFolders (.ofLocation (base ++ more)) bare).2.nodeAt? (base ++ more) =
          some (.folder inner)) := by
  have hdepth : more.length ≤ (Path.ofLocation (base ++ more)).parts.length := by
    simp [Path.ofLocation]
  obtain ⟨outer, houter⟩ := h.toRetains.folder hbase
  have hlink' : ∀ location target, Along base more location →
      full.nodeAt? location ≠ some (.link target) := fun location target halong hnode =>
    hlink location target halong (h.links location target hnode)
  have hbareTouches := makeFoldersUpTo_along hproper hbase hlink (Path.ofLocation (base ++ more)).parts.length
  have hfullTouches := makeFoldersUpTo_along hproper houter hlink' (Path.ofLocation (base ++ more)).parts.length
  unfold Disk.makeFolders
  by_cases hsize : (Path.ofLocation (base ++ more)).toString.utf8ByteSize < pathLimit
  · by_cases hway : ∀ location node, Along base more location → full.nodeAt? location = some node →
        node.isFolder = true
    · have hway' : ∀ location node, Along base more location → bare.nodeAt? location = some node →
          node.isFolder = true := by
        intro location node halong hnode
        obtain ⟨later, hlater, hface⟩ := h.exists_full hnode
        rw [hface.alike.isFolder_eq]
        exact hway location later halong hlater
      obtain ⟨_, inner, hmade, hinner⟩ := exists_makeFoldersUpTo hproper hne hsize hbase hway' hdepth
      obtain ⟨_, inner', hmade', hinner'⟩ := exists_makeFoldersUpTo hproper hne hsize houter hway hdepth
      rw [hmade] at hbareTouches ⊢
      rw [hmade'] at hfullTouches ⊢
      refine ⟨rfl, ?_, hbareTouches, fun _ => ⟨inner, hinner⟩⟩
      refine h.step hbareTouches hfullTouches ?_
      rintro location (⟨below, -, ⟨rest, rfl⟩, rfl⟩ | hfalse)
      · rw [← List.append_assoc] at hinner hinner'
        by_cases hrest : rest = []
        · subst hrest
          rw [List.append_nil] at hinner hinner'
          exact ⟨_, _, hinner, hinner', .folder _ _⟩
        · obtain ⟨first, hfirst⟩ := exists_folder_of_append hinner hrest
          obtain ⟨second, hsecond⟩ := exists_folder_of_append hinner' hrest
          exact ⟨_, _, hfirst, hsecond, .folder _ _⟩
      · exact hfalse.elim
    · push Not at hway
      obtain ⟨location, node, halong, hnode, hkind⟩ := hway
      have hplain : ∀ target, node ≠ .link target := fun target heq => hlink' location target halong (heq ▸ hnode)
      obtain ⟨old, hold, hface⟩ := h.exists_bare hnode (fun hfolder => absurd hfolder hkind)
        fun _ => hfiles location halong
      have hplain' : ∀ target, old ≠ .link target := fun target heq => hlink location target halong (heq ▸ hold)
      obtain ⟨below, hbelow, ⟨rest, rfl⟩, rfl⟩ := halong
      rw [← List.append_assoc] at hproper hsize ⊢
      rw [makeFoldersUpTo_of_blocked hproper (by simp [hbelow]) hsize hnode hplain (by simpa using hkind),
        makeFoldersUpTo_of_blocked hproper (by simp [hbelow]) hsize hold hplain'
          (by rw [hface.alike.isFolder_eq]; simpa using hkind)]
      exact ⟨rfl, h, .refl bare, fun hok => by cases hok⟩
  · rw [makeFoldersUpTo_of_long hproper (Nat.not_lt.1 hsize), makeFoldersUpTo_of_long hproper (Nat.not_lt.1 hsize)]
    exact ⟨rfl, h, .refl bare, fun hok => by cases hok⟩

end Make

/-! ### Writing files -/

section Write

variable (h : bare.Underlies folders files full) (hproper : ∀ name ∈ above ++ [last], ProperName name)
  (habove : bare.nodeAt? above = some (.folder entries))
  (hlink : ∀ target, bare.nodeAt? (above ++ [last]) ≠ some (.link target))
  (hfolders : ¬ folders (above ++ [last])) (bytes : List UInt8)
include h hproper habove hlink hfolders

/-- A file at a location that is no surplus folder is written on both disks or on none, and something
is there on both then. -/
theorem writeBytes :
    (∃ fault, bare.writeBytes (Path.ofLocation (above ++ [last])).toString bytes = .error fault ∧
        full.writeBytes (Path.ofLocation (above ++ [last])).toString bytes = .error fault) ∨
      ∃ bare' full', bare.writeBytes (Path.ofLocation (above ++ [last])).toString bytes = .ok bare' ∧
        full.writeBytes (Path.ofLocation (above ++ [last])).toString bytes = .ok full' ∧
        bare'.Underlies folders files full' ∧
        bare.Touches (fun _ => False) (fun location => location = above ++ [last]) bare' ∧
        full.Touches (fun _ => False) (fun location => location = above ++ [last]) full' ∧
        ∃ node, bare'.nodeAt? (above ++ [last]) = some node := by
  obtain ⟨outer, houter⟩ := h.toRetains.folder habove
  by_cases hsize : (Path.ofLocation (above ++ [last])).toString.utf8ByteSize < pathLimit
  · by_cases hfree : ∀ node, full.nodeAt? (above ++ [last]) = some node → node.isFile = true
    · -- A file stands there or nothing, on both disks.
      have hfree' : ∀ node, bare.nodeAt? (above ++ [last]) = some node → node.isFile = true := by
        intro node hnode
        obtain ⟨later, hlater, hface⟩ := h.exists_full hnode
        rw [hface.alike.isFile_eq]
        exact hfree later hlater
      have hbare := put_file_touches bytes habove hfree'
      have hfull := put_file_touches bytes houter hfree
      refine .inr ⟨_, _, writeBytes_of_writable bytes hproper hsize habove hfree',
        writeBytes_of_writable bytes hproper hsize houter hfree, ?_, hbare, hfull, .file bytes,
        Node.at?_put_self habove last _⟩
      refine h.step hbare hfull ?_
      rintro location (hfalse | rfl)
      · exact hfalse.elim
      · exact ⟨_, _, Node.at?_put_self habove last _, Node.at?_put_self houter last _, .file bytes⟩
    · push Not at hfree
      obtain ⟨node, hnode, hkind⟩ := hfree
      obtain ⟨old, hold, hface⟩ := h.exists_bare hnode (fun _ => hfolders) fun hfile => absurd hfile hkind
      have hplain : ∀ target, old ≠ .link target := fun target heq => hlink target (heq ▸ hold)
      have hplain' : ∀ target, node ≠ .link target := fun target heq =>
        hlink target (h.links _ target (heq ▸ hnode))
      have hkind' : node.isFile = false := by simpa using hkind
      rw [writeBytes_of_nodeAt? bytes hproper hsize hnode hplain' hkind',
        writeBytes_of_nodeAt? bytes hproper hsize hold hplain (hface.alike.isFile_eq.trans hkind'),
        hface.alike.isFolder_eq]
      split
      · exact .inl ⟨_, rfl, rfl⟩
      · -- What is there swallows the bytes.
        have hsame : full.Touches (fun _ => False) (fun location => location = above ++ [last]) full :=
          .refl full
        refine .inr ⟨bare, full, rfl, rfl, h.step (.refl bare) hsame ?_, .refl bare, hsame, old, hold⟩
        rintro location (hfalse | rfl)
        · exact hfalse.elim
        · exact ⟨old, node, hold, hnode, hface⟩
  · rw [writeBytes_of_long bytes hproper (Nat.not_lt.1 hsize), writeBytes_of_long bytes hproper (Nat.not_lt.1 hsize)]
    exact .inl ⟨_, rfl, rfl⟩

end Write

/-! ### Reading -/

/-- What stands on the lesser disk reads the same on both. -/
theorem readText_of_nodeAt? (h : bare.Underlies folders files full)
    (hproper : ∀ name ∈ names, ProperName name) (hne : names ≠ [])
    (hnode : bare.nodeAt? names = some node) (hplain : ∀ target, node ≠ .link target) :
    bare.readText (Path.ofLocation names).toString = full.readText (Path.ofLocation names).toString := by
  suffices hbytes : bare.readBytes (Path.ofLocation names).toString =
      full.readBytes (Path.ofLocation names).toString by rw [readText, readText, hbytes]
  obtain ⟨later, hlater, hface⟩ := h.exists_full hnode
  have hplain' : ∀ target, later ≠ .link target := by
    rintro target rfl
    cases hface
    exact hplain target rfl
  rw [readBytes, readBytes, find, find]
  by_cases hsize : (Path.ofLocation names).toString.utf8ByteSize < pathLimit
  · rw [place_of_nodeAt? true hproper hne hsize hnode hplain,
      place_of_nodeAt? true hproper hne hsize hlater hplain']
    cases hface <;> rfl
  · rw [place_of_long true hproper (Nat.not_lt.1 hsize), place_of_long true hproper (Nat.not_lt.1 hsize)]

/-- What is no surplus reads the same on both disks, if its folder stands on both. -/
theorem readText_eq (h : bare.Underlies folders files full)
    (hproper : ∀ name ∈ above ++ [last], ProperName name)
    (habove : bare.nodeAt? above = some (.folder entries))
    (hlink : ∀ target, bare.nodeAt? (above ++ [last]) ≠ some (.link target))
    (hfolders : ¬ folders (above ++ [last])) (hfiles : ¬ files (above ++ [last])) :
    bare.readText (Path.ofLocation (above ++ [last])).toString =
      full.readText (Path.ofLocation (above ++ [last])).toString := by
  cases hbare : bare.nodeAt? (above ++ [last]) with
  | some node =>
      exact h.readText_of_nodeAt? hproper (by simp) hbare fun target heq => hlink target (heq ▸ hbare)
  | none =>
      have hfull : full.nodeAt? (above ++ [last]) = none := by
        by_contra hsome
        obtain ⟨node, hnode⟩ := Option.ne_none_iff_exists'.1 hsome
        obtain ⟨old, hold, -⟩ := h.exists_bare hnode (fun _ => hfolders) fun _ => hfiles
        rw [hbare] at hold
        cases hold
      obtain ⟨outer, houter⟩ := h.toRetains.folder habove
      rw [readText, readText, readBytes, readBytes, find, find]
      by_cases hsize : (Path.ofLocation (above ++ [last])).toString.utf8ByteSize < pathLimit
      · rw [place_of_none true hproper hsize habove hbare, place_of_none true hproper hsize houter hfull]
      · rw [place_of_long true hproper (Nat.not_lt.1 hsize), place_of_long true hproper (Nat.not_lt.1 hsize)]

end Underlies

end Disk

end ElmSuite
