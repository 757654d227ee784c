import ElmSuite.Proofs.Disk.NewLink

/-!
Where a disk is changed.  Writing a file and making folders leave everything as it is but at locations
that their paths tell: a file gets its bytes at one of them, folders come to be at others, and nothing
goes away.
-/

namespace ElmSuite.Disk

variable {disk before between after : Disk} {folders files : List String → Prop}

/-- From one disk to another, files change their bytes only at some locations, and nothing is new but
files at these and folders at others.  All that there was is there. -/
structure Touches (folders files : List String → Prop) (before after : Disk) : Prop
    extends Grows (fun location => ¬ files location) before after where
  new : ∀ location node, after.nodeAt? location = some node → before.nodeAt? location = none →
    folders location ∧ node.isFolder = true ∨ files location ∧ node.isFile = true

theorem Touches.refl (disk : Disk) : disk.Touches folders files disk where
  toGrows := .refl _ disk
  new location node hnode hnone := by
    rw [hnone] at hnode
    cases hnode

theorem Touches.trans (hfirst : before.Touches folders files between)
    (hsecond : between.Touches folders files after) : before.Touches folders files after where
  toGrows := hfirst.toGrows.trans hsecond.toGrows
  new location node hnode hnone := by
    cases hbetween : between.nodeAt? location with
    | none => exact hsecond.new location node hnode hbetween
    | some found =>
        obtain ⟨later, hlater, halike, -⟩ := hsecond.kept location found hbetween
        rw [hnode, Option.some.injEq] at hlater
        subst hlater
        rw [← halike.isFolder_eq, ← halike.isFile_eq]
        exact hfirst.new location found hbetween hnone

theorem Touches.mono {folders' files' : List String → Prop} (h : before.Touches folders files after)
    (hfolders : ∀ location, folders location → folders' location)
    (hfiles : ∀ location, files location → files' location) :
    before.Touches folders' files' after where
  toGrows := h.toGrows.mono fun location hnot hfile => hnot (hfiles location hfile)
  new location node hnode hnone :=
    (h.new location node hnode hnone).imp (And.imp_left (hfolders location)) (And.imp_left (hfiles location))

/-! ### Putting -/

/-- What is new on a disk after something without entries is put somewhere is what was put. -/
theorem eq_of_nodeAt?_put {location other : List String} {new node : Node}
    (hself : (disk.put location new).nodeAt? location = some new) (hentries : new.entries = [])
    (hnode : (disk.put location new).nodeAt? other = some node) (hnone : disk.nodeAt? other = none) :
    other = location ∧ node = new := by
  by_cases hbelow : location <+: other
  · obtain ⟨rest, rfl⟩ := hbelow
    rw [nodeAt?, Node.at?_append] at hnode
    rw [nodeAt?] at hself
    rw [hself, Option.bind_some] at hnode
    cases rest with
    | nil =>
        rw [Node.at?_nil, Option.some.injEq] at hnode
        exact ⟨List.append_nil _, hnode.symm⟩
    | cons name rest =>
        rw [Node.at?_cons, Node.child?, hentries] at hnode
        cases hnode
  · rcases Node.at?_put_of_not_prefix disk.tree new hbelow with hsame | ⟨old, entries, hat, -⟩
    · rw [nodeAt?_put, hsame] at hnode
      rw [nodeAt?, hnode] at hnone
      cases hnone
    · rw [nodeAt?, hat] at hnone
      cases hnone

theorem touches_put {location : List String} {new : Node}
    (hself : (disk.put location new).nodeAt? location = some new)
    (hnew : new.isFile = true ∧ files location ∨ new = .folder [] ∧ folders location)
    (hold : ∀ old, disk.nodeAt? location = some old → old.isFile = true ∧ new.isFile = true) :
    disk.Touches folders files (disk.put location new) := by
  have hkind : new.isFile = true ∨ new = .folder [] := hnew.imp And.left And.left
  have hentries : new.entries = [] := by
    rcases hkind with hfile | rfl
    · cases new <;> first | rfl | cases hfile
    · rfl
  refine ⟨grows_put hself hkind fun old hat => ?_, fun other node hnode hnone => ?_⟩
  · obtain ⟨holdFile, hnewFile⟩ := hold old hat
    refine ⟨holdFile, hnewFile, not_not_intro ?_⟩
    rcases hnew with ⟨-, hfile⟩ | ⟨rfl, -⟩
    · exact hfile
    · cases hnewFile
  · obtain ⟨rfl, rfl⟩ := eq_of_nodeAt?_put hself hentries hnode hnone
    rcases hnew with ⟨hfile, hlocation⟩ | ⟨rfl, hlocation⟩
    · exact .inr ⟨hlocation, hfile⟩
    · exact .inl ⟨hlocation, rfl⟩

/-- What is put at a free place is all that changes. -/
theorem touches_put_free {follow : Bool} {path : String} {above : List String} {name : String}
    {new : Node} (h : disk.place follow path = .ok (.free above name))
    (hnew : new.isFile = true ∧ files (above ++ [name]) ∨ new = .folder [] ∧ folders (above ++ [name])) :
    disk.Touches folders files (disk.put (above ++ [name]) new) := by
  rw [place_eq_ok] at h
  obtain ⟨entries, hfolder, hfree⟩ := walk_free h.2.2.2
  refine touches_put (Node.at?_put_self hfolder name new) hnew fun old hold => ?_
  rw [nodeAt?_snoc hfolder, hfree] at hold
  cases hold

/-! ### Writing -/

/-- Bytes that are written change one file, unless something swallows them. -/
theorem writeBytes_touches {path : String} {bytes : List UInt8}
    (h : disk.writeBytes path bytes = .ok after) :
    after = disk ∨ ∃ location, after.find path = .ok (location, .file bytes) ∧
      disk.Touches (fun _ => False) (fun other => other = location) after := by
  unfold writeBytes at h
  cases hplace : disk.place true path with
  | error fault =>
      rw [hplace] at h
      cases h
  | ok place =>
      rw [hplace, ok_bind] at h
      cases place with
      | free above name =>
          cases h
          exact .inr ⟨_, find_retain_put hplace, touches_put_free hplace (.inl ⟨rfl, rfl⟩)⟩
      | taken location node =>
          cases node with
          | file old =>
              cases h
              have hold := nodeAt?_of_find_eq (find_eq_ok.2 hplace)
              have hself : (disk.put location (.file bytes)).nodeAt? location = some (.file bytes) :=
                Node.at?_put_of_at? hold _
              have htouches : disk.Touches (fun _ => False) (fun other => other = location)
                  (disk.put location (.file bytes)) := by
                refine touches_put hself (.inl ⟨rfl, rfl⟩) fun other hother => ?_
                rw [hold, Option.some.injEq] at hother
                subst hother
                exact ⟨rfl, rfl⟩
              refine .inr ⟨location, ?_, htouches⟩
              obtain ⟨later, hlater, hfind⟩ := find_retain htouches.toRetains (find_eq_ok.2 hplace)
              rw [hself, Option.some.injEq] at hlater
              subst hlater
              exact hfind
          | folder entries => cases h
          | _ =>
              cases h
              exact .inl rfl

/-! ### What a way says about a walk -/

/-- How a descent along a way that leads to a goal may end: somewhere, or at a link from which the rest
of the way leads to the goal; it misses nothing. -/
def DescendsTo (disk : Disk) (goal : List String) : Except Errno Descent → Prop
  | .ok (.arrived (.taken _ _)) => True
  | .ok (.arrived (.free _ _)) => False
  | .ok (.atLink above target rest) =>
      Leads disk (if isAbsolute target then [] else above) (steps target ++ rest) goal
  | .error errno => errno ≠ .notFound

theorem descendsTo_of_leads {folder way goal : List String} (h : Leads disk folder way goal)
    (follow : Bool) : disk.DescendsTo goal (disk.descend follow folder way) := by
  induction h with
  | here hnode =>
      rw [descend, hnode]
      trivial
  | stay hdot hfolder _ ih =>
      rw [descend_cons hfolder, if_pos hdot]
      exact ih
  | up hup hfolder _ ih =>
      rw [descend_cons hfolder, if_neg (by rw [hup]; decide), if_pos hup]
      exact ih
  | down hdot hup hnode hlink _ ih =>
      obtain ⟨entries, hfolder, -⟩ := exists_folder_of_nodeAt?_snoc hnode
      rw [descend_cons hfolder, if_neg hdot, if_neg hup]
      split
      · exact Errno.noConfusion
      · rw [hnode]
        split
        · next hnone => cases hnone
        · next target hsame =>
          rw [Option.some.injEq] at hsame
          exact absurd hsame (hlink target)
        · exact ih
  | follow hdot hup hnode hrest _ =>
      obtain ⟨entries, hfolder, -⟩ := exists_folder_of_nodeAt?_snoc hnode
      rw [descend_cons hfolder, if_neg hdot, if_neg hup]
      split
      · exact Errno.noConfusion
      · rw [hnode]
        dsimp only
        split
        · trivial
        · exact hrest

/-- How a walk along a way that leads to a goal may end: it ends at no free name and misses nothing. -/
def Meets : Except Errno Place → Prop
  | .ok (.taken _ _) => True
  | .ok (.free _ _) => False
  | .error errno => errno ≠ .notFound

theorem walk_meets {folder way goal : List String} (h : Leads disk folder way goal) (follow : Bool)
    (budget : Nat) : Meets (disk.walk follow budget folder way) := by
  induction budget generalizing folder way with
  | zero =>
      have hdescends := descendsTo_of_leads h follow
      rw [walk]
      generalize disk.descend follow folder way = descent at hdescends ⊢
      rcases descent with
        errno | ((⟨location, node⟩ | ⟨above, name⟩) | ⟨above, target, rest⟩)
      · exact hdescends
      · trivial
      · exact hdescends
      · exact Errno.noConfusion
  | succ budget ih =>
      have hdescends := descendsTo_of_leads h follow
      rw [walk]
      generalize disk.descend follow folder way = descent at hdescends ⊢
      rcases descent with
        errno | ((⟨location, node⟩ | ⟨above, name⟩) | ⟨above, target, rest⟩)
      · exact hdescends
      · trivial
      · exact hdescends
      · exact ih hdescends

/-- No folder is made at a path that leads somewhere, and nothing is missing on the way. -/
theorem makeFolder_of_leads {path : String} {goal : List String} (habsolute : isAbsolute path = true)
    (h : Leads disk [] (steps path) goal) :
    ∃ fault, disk.makeFolder path = .error fault ∧ ∀ refused, fault ≠ .os ⟨.notFound, refused⟩ := by
  have hmeets := walk_meets h false linkLimit
  have hplace {place : Place} (hplace : disk.place false path = .ok place) :
      Meets (.ok place) := by
    have hwalk := (place_eq_ok.1 hplace).2.2.2
    rw [if_pos habsolute] at hwalk
    rwa [hwalk] at hmeets
  unfold makeFolder
  rcases hresult : disk.place false path with fault | (⟨location, node⟩ | ⟨above, name⟩)
  · refine ⟨fault, rfl, ?_⟩
    rintro refused rfl
    unfold place at hresult
    rw [if_pos habsolute] at hresult
    split at hresult
    · cases hresult
    · split at hresult
      · next hempty =>
        rw [String.isEmpty_iff] at hempty
        rw [hempty] at habsolute
        cases habsolute
      · split at hresult
        · cases hresult
        · dsimp only at hresult
          split at hresult
          · cases hresult
          · next errno hwalk =>
            rw [hwalk] at hmeets
            cases hresult
            exact hmeets rfl
  · exact ⟨_, rfl, fun _ heq => Errno.noConfusion (OsError.mk.inj (Fault.os.inj heq)).1⟩
  · exact (hplace hresult).elim

/-- Where a path leads somewhere, making its folder and those above changes nothing. -/
theorem makeFoldersUpTo_of_leads (path : Path) {goal : List String} (hanchor : path.anchor ≠ .here)
    (h : Leads disk [] (steps path.toString) goal) (depth : Nat) :
    (makeFoldersUpTo depth path disk).2 = disk := by
  obtain ⟨fault, hmake, hfound⟩ := makeFolder_of_leads (Path.isAbsolute_toString hanchor) h
  unfold makeFoldersUpTo
  dsimp only
  rw [hmake]
  split
  · next heq => cases heq
  · next refused heq => exact absurd (Except.error.inj heq) (hfound refused)
  · split <;> rfl
  · rfl

/-! ### Folders below a folder -/

/-- The locations along names below a folder. -/
def Along (folder names location : List String) : Prop :=
  ∃ below, below ≠ [] ∧ below <+: names ∧ location = folder ++ below

theorem Along.of_prefix {folder names more location : List String} (h : Along folder names location)
    (hmore : names <+: more) : Along folder more location := by
  obtain ⟨below, hne, hprefix, rfl⟩ := h
  exact ⟨below, hne, hprefix.trans hmore, rfl⟩

theorem Along.eq_of_singleton {folder location : List String} {name : String}
    (h : Along folder [name] location) : location = folder ++ [name] := by
  obtain ⟨below, hne, hprefix, rfl⟩ := h
  rcases List.prefix_cons_iff.1 hprefix with rfl | ⟨rest, rfl, hrest⟩
  · exact absurd rfl hne
  · rw [List.prefix_nil.1 hrest]

/-- A way along names below a folder leads where the names say if no link stands along them. -/
theorem Leads.eq_append {folder names goal : List String} (h : Leads disk folder names goal)
    (hnames : ∀ name ∈ names, ProperName name)
    (hlink : ∀ location target, Along folder names location → disk.nodeAt? location ≠ some (.link target)) :
    goal = folder ++ names := by
  cases names with
  | nil =>
      cases h
      exact (List.append_nil folder).symm
  | cons name rest =>
      refine h.eq_append_of_no_link (fun name hname => ?_) fun count target => ?_
      · exact ⟨(hnames name hname).notHere, (hnames name hname).notAbove⟩
      · exact hlink _ target ⟨_, by simp, List.take_prefix _ _, rfl⟩

section MakeFolders

variable {anchor : Anchor} {parts folder names : List String}

/-- The steps of a path along names below a base. -/
theorem steps_along {last : String} (hanchor : anchor ≠ .here)
    (hnames : ∀ name ∈ names ++ [last], ProperName name) :
    steps (Path.mk anchor (parts ++ (names ++ [last]))).toString =
      parts.flatMap Path.named ++ names ++ [last] := by
  have hnamed : ∀ name ∈ names, Path.named name = [name] := fun name hname =>
    Path.named_of_properName (hnames name (List.mem_append_left _ hname))
  have hbase : (Path.mk anchor (parts ++ names)).anchor ≠ .here := hanchor
  have hsteps := Path.steps_child hbase (hnames last (by simp))
  rw [Path.child, List.flatMap_append, Path.flatMap_named hnamed, List.append_assoc] at hsteps
  exact hsteps

/-- A folder along names below a base is made where the names say. -/
theorem makeFolder_touches {last : String} (hanchor : anchor ≠ .here)
    (hleads : Leads disk [] (parts.flatMap Path.named) folder)
    (hnames : ∀ name ∈ names ++ [last], ProperName name)
    (hlink : ∀ location target, Along folder (names ++ [last]) location →
      disk.nodeAt? location ≠ some (.link target))
    (h : disk.makeFolder (Path.mk anchor (parts ++ (names ++ [last]))).toString = .ok after) :
    disk.Touches (Along folder (names ++ [last])) (fun _ => False) after := by
  have hpath : (Path.mk anchor (parts ++ (names ++ [last]))).anchor ≠ .here := hanchor
  have hlast : ProperName last := hnames last (by simp)
  unfold makeFolder at h
  rcases hplace : disk.place false (Path.mk anchor (parts ++ (names ++ [last]))).toString with
    fault | (⟨location, node⟩ | ⟨above, name⟩)
  · rw [hplace] at h
    cases h
  · rw [hplace, ok_bind] at h
    cases h
  · rw [hplace, ok_bind] at h
    cases h
    have hwalk := (place_eq_ok.1 hplace).2.2.2
    rw [if_pos (Path.isAbsolute_toString hpath), steps_along hanchor hnames] at hwalk
    obtain ⟨rfl, hfront⟩ := walk_free_last hlast.notHere hlast.notAbove hwalk
    obtain ⟨between, hbase, hrest⟩ := hfront.split
    rw [hbase.unique hleads] at hrest
    have habove := hrest.eq_append (fun name hname => hnames name (List.mem_append_left _ hname))
      fun location target halong => hlink location target (halong.of_prefix (List.prefix_append _ _))
    refine touches_put_free hplace (.inr ⟨rfl, names ++ [name], by simp, List.prefix_rfl, ?_⟩)
    rw [habove, List.append_assoc]

/-- Making folders along names below a folder that is there makes none but these. -/
theorem makeFoldersUpTo_touches {entries : List (String × Node)} (hanchor : anchor ≠ .here)
    (hleads : Leads disk [] (parts.flatMap Path.named) folder)
    (hfolder : disk.nodeAt? folder = some (.folder entries)) (hnames : ∀ name ∈ names, ProperName name)
    (hlink : ∀ location target, Along folder names location → disk.nodeAt? location ≠ some (.link target))
    (depth : Nat) :
    disk.Touches (Along folder names) (fun _ => False)
      (makeFoldersUpTo depth ⟨anchor, parts ++ names⟩ disk).2 := by
  have hbase : Leads disk [] (steps (Path.mk anchor parts).toString) folder :=
    leads_steps hanchor hleads hfolder
  induction depth generalizing names with
  | zero =>
      rcases List.eq_nil_or_concat names with rfl | ⟨front, last, heq⟩
      · rw [List.append_nil, makeFoldersUpTo_of_leads ⟨anchor, parts⟩ hanchor hbase]
        exact .refl disk
      · rw [List.concat_eq_append] at heq
        subst heq
        rw [makeFoldersUpTo_zero]
        exact tryFolder_keeps (.refl disk)
          (fun _ hmade => makeFolder_touches hanchor hleads hnames hlink hmade) fun _ => .refl disk
  | succ depth ih =>
      rcases List.eq_nil_or_concat names with rfl | ⟨front, last, heq⟩
      · rw [List.append_nil, makeFoldersUpTo_of_leads ⟨anchor, parts⟩ hanchor hbase]
        exact .refl disk
      · rw [List.concat_eq_append] at heq
        subst heq
        have hparent : (Path.mk anchor (parts ++ (front ++ [last]))).parent = ⟨anchor, parts ++ front⟩ := by
          rw [Path.parent, ← List.append_assoc, List.dropLast_concat]
        have hmore {location : List String} (h : Along folder front location) :
            Along folder (front ++ [last]) location := h.of_prefix (List.prefix_append _ _)
        have habove := ih (fun name hname => hnames name (List.mem_append_left _ hname))
          fun location target halong => hlink location target (hmore halong)
        have hfirst := habove.mono (fun _ => hmore) fun _ hfalse => hfalse
        rw [makeFoldersUpTo_succ, hparent]
        refine tryFolder_keeps (.refl disk)
          (fun _ hmade => makeFolder_touches hanchor hleads hnames hlink hmade) fun _ => ?_
        generalize makeFoldersUpTo depth ⟨anchor, parts ++ front⟩ disk = ended at hfirst ⊢
        rcases ended with ⟨fault | _, below⟩
        · exact hfirst
        · have hlink' (location : List String) (target : String)
              (halong : Along folder (front ++ [last]) location) :
              below.nodeAt? location ≠ some (.link target) := fun hnode =>
            hlink location target halong (hfirst.links location target hnode)
          exact tryFolder_keeps hfirst
            (fun _ hmade => hfirst.trans
              (makeFolder_touches hanchor (hleads.retain hfirst.toRetains) hnames hlink' hmade))
            fun _ => hfirst

end MakeFolders

end ElmSuite.Disk
