import ElmSuite.Proofs.Disk.LinkFree
import ElmSuite.Proofs.Disk.MadeFolders
import ElmSuite.Proofs.Lists

/-!
What writing leaves of a disk.  Files and folders are added and files get other bytes; everything
else stays, and no link is made.  So whatever a path denotes, it denotes afterwards as well.
-/

namespace ElmSuite

/-- Nodes of one kind; links also have one target. -/
inductive Node.Alike : Node → Node → Prop
  | file (first second : List UInt8) : Alike (.file first) (.file second)
  | folder (first second : List (String × Node)) : Alike (.folder first) (.folder second)
  | link (target : String) : Alike (.link target) (.link target)
  | sink : Alike .sink .sink

theorem Node.Alike.refl (node : Node) : node.Alike node := by
  cases node <;> constructor

theorem Node.Alike.trans {first second third : Node} (hfirst : first.Alike second)
    (hsecond : second.Alike third) : first.Alike third := by
  cases hfirst <;> cases hsecond <;> constructor

theorem Node.Alike.of_isFile {first second : Node} (hfirst : first.isFile = true)
    (hsecond : second.isFile = true) : first.Alike second := by
  cases first <;> cases hfirst
  cases second <;> cases hsecond
  constructor

theorem Node.Alike.isFile_eq {first second : Node} (h : first.Alike second) :
    first.isFile = second.isFile := by
  cases h <;> rfl

theorem Node.Alike.isFolder_eq {first second : Node} (h : first.Alike second) :
    first.isFolder = second.isFolder := by
  cases h <;> rfl

namespace Disk

/-- All that there was is there, the files at the spared locations with their bytes. -/
structure Retains (spared : List String → Prop) (before after : Disk) : Prop where
  cwd : after.cwd = before.cwd
  kept : ∀ location node, before.nodeAt? location = some node →
    ∃ later, after.nodeAt? location = some later ∧ node.Alike later ∧
      (spared location → node.isFile = true → later = node)

/-- A disk grew: all that there was is there, the files at the spared locations with their bytes,
and all that is no file or folder is old. -/
structure Grows (spared : List String → Prop) (before after : Disk) : Prop
    extends Retains spared before after where
  old : ∀ location node, after.nodeAt? location = some node → node.isFile = false →
    node.isFolder = false → before.nodeAt? location = some node

variable {spared : List String → Prop} {before between after : Disk}

theorem Grows.links (h : before.Grows spared after) (location : List String) (target : String)
    (hlink : after.nodeAt? location = some (.link target)) :
    before.nodeAt? location = some (.link target) :=
  h.old location _ hlink rfl rfl

theorem Grows.refl (spared : List String → Prop) (disk : Disk) : disk.Grows spared disk where
  cwd := rfl
  kept _ node hnode := ⟨node, hnode, .refl node, fun _ _ => rfl⟩
  old _ _ hnode _ _ := hnode

theorem Grows.trans (hfirst : before.Grows spared between) (hsecond : between.Grows spared after) :
    before.Grows spared after where
  cwd := hsecond.cwd.trans hfirst.cwd
  kept location node hnode := by
    obtain ⟨next, hnext, halike, hspared⟩ := hfirst.kept location node hnode
    obtain ⟨last, hlast, halike', hspared'⟩ := hsecond.kept location next hnext
    refine ⟨last, hlast, halike.trans halike', fun hloc hfile => ?_⟩
    rw [hspared hloc hfile] at hspared'
    exact hspared' hloc hfile
  old location node hnode hfile hfolder :=
    hfirst.old location node (hsecond.old location node hnode hfile hfolder) hfile hfolder

theorem Grows.plain (h : before.Grows spared after) {location : List String} {node : Node}
    (hold : ∀ old, before.nodeAt? location = some old → old.isFile = true ∨ old.isFolder = true)
    (hnode : after.nodeAt? location = some node) : node.isFile = true ∨ node.isFolder = true := by
  by_cases hfile : node.isFile = true
  · exact .inl hfile
  · by_cases hfolder : node.isFolder = true
    · exact .inr hfolder
    · rw [Bool.not_eq_true] at hfile hfolder
      exact hold node (h.old location node hnode hfile hfolder)

theorem Grows.mono {fewer : List String → Prop} (h : before.Grows spared after)
    (hfewer : ∀ location, fewer location → spared location) : before.Grows fewer after where
  cwd := h.cwd
  kept location node hnode := by
    obtain ⟨later, hlater, halike, hspared⟩ := h.kept location node hnode
    exact ⟨later, hlater, halike, fun hloc => hspared (hfewer location hloc)⟩
  old := h.old

theorem Retains.folder {location : List String} {entries : List (String × Node)}
    (h : before.Retains spared after) (hfolder : before.nodeAt? location = some (.folder entries)) :
    ∃ later, after.nodeAt? location = some (.folder later) := by
  obtain ⟨later, hlater, halike, -⟩ := h.kept location _ hfolder
  cases halike
  exact ⟨_, hlater⟩

theorem Retains.link {location : List String} {target : String} (h : before.Retains spared after)
    (hlink : before.nodeAt? location = some (.link target)) :
    after.nodeAt? location = some (.link target) := by
  obtain ⟨later, hlater, halike, -⟩ := h.kept location _ hlink
  cases halike
  exact hlater

theorem Retains.plain {location : List String} {node : Node} (h : before.Retains spared after)
    (hnode : before.nodeAt? location = some node) (hplain : ∀ target, node ≠ .link target) :
    ∃ later, after.nodeAt? location = some later ∧ ∀ target, later ≠ .link target := by
  obtain ⟨later, hlater, halike, -⟩ := h.kept location _ hnode
  refine ⟨later, hlater, ?_⟩
  rintro target rfl
  cases halike
  exact hplain target rfl

theorem Retains.file {location : List String} {bytes : List UInt8} (h : before.Retains spared after)
    (hloc : spared location) (hfile : before.nodeAt? location = some (.file bytes)) :
    after.nodeAt? location = some (.file bytes) := by
  obtain ⟨later, hlater, -, hspared⟩ := h.kept location _ hfile
  rw [hlater, hspared hloc rfl]

/-- What is put where nothing or only a file is leaves all other nodes. -/
theorem retains_put {disk : Disk} {location : List String} {new : Node}
    (hself : (disk.put location new).nodeAt? location = some new)
    (hold : ∀ old, disk.nodeAt? location = some old →
      old.isFile = true ∧ new.isFile = true ∧ ¬ spared location) :
    disk.Retains spared (disk.put location new) where
  cwd := rfl
  kept other node hnode := by
    by_cases hbelow : location <+: other
    · obtain ⟨rest, rfl⟩ := hbelow
      by_cases hrest : rest = []
      · subst hrest
        rw [List.append_nil] at hnode ⊢
        obtain ⟨holdFile, hnewFile, hspared⟩ := hold node hnode
        exact ⟨new, hself, .of_isFile holdFile hnewFile, fun hloc => absurd hloc hspared⟩
      · obtain ⟨entries, hfolder⟩ := exists_folder_of_append hnode hrest
        exact absurd (hold _ hfolder).1 Bool.false_ne_true
    · rcases Node.at?_put_of_not_prefix disk.tree new hbelow with hsame | ⟨old, entries, hat, hlater⟩
      · exact ⟨node, hsame.trans hnode, .refl node, fun _ _ => rfl⟩
      · rw [nodeAt?, hat, Option.some.injEq] at hnode
        subst hnode
        exact ⟨_, hlater, .folder _ _, fun _ hfile => absurd hfile Bool.false_ne_true⟩

/-- What stands on a disk after something without entries is put somewhere: that, folders, and what
stood there before. -/
theorem nodeAt?_put_cases {disk : Disk} {location other : List String} {new node : Node}
    (hself : (disk.put location new).nodeAt? location = some new) (hentries : new.entries = [])
    (hnode : (disk.put location new).nodeAt? other = some node) (hfolder : node.isFolder = false) :
    other = location ∧ node = new ∨ disk.nodeAt? other = some node := by
  by_cases hbelow : location <+: other
  · obtain ⟨rest, rfl⟩ := hbelow
    rw [nodeAt?, Node.at?_append] at hnode
    rw [nodeAt?] at hself
    rw [hself, Option.bind_some] at hnode
    cases rest with
    | nil =>
        rw [Node.at?_nil, Option.some.injEq] at hnode
        exact .inl ⟨List.append_nil _, hnode.symm⟩
    | cons name rest =>
        rw [Node.at?_cons, Node.child?, hentries] at hnode
        cases hnode
  · rcases Node.at?_put_of_not_prefix disk.tree new hbelow with hsame | ⟨old, entries, -, hlater⟩
    · exact .inr (hsame.symm.trans hnode)
    · rw [nodeAt?_put, hlater, Option.some.injEq] at hnode
      rw [← hnode] at hfolder
      cases hfolder

/-- A file or an empty folder that is put where nothing or only a file is. -/
theorem grows_put {disk : Disk} {location : List String} {new : Node}
    (hself : (disk.put location new).nodeAt? location = some new)
    (hnew : new.isFile = true ∨ new = .folder [])
    (hold : ∀ old, disk.nodeAt? location = some old →
      old.isFile = true ∧ new.isFile = true ∧ ¬ spared location) :
    disk.Grows spared (disk.put location new) where
  toRetains := retains_put hself hold
  old other node hnode hfile hfolder := by
    have hentries : new.entries = [] := by
      rcases hnew with hfile | rfl
      · cases new <;> first | rfl | cases hfile
      · rfl
    rcases nodeAt?_put_cases hself hentries hnode hfolder with ⟨-, rfl⟩ | hsame
    · rcases hnew with hnew | rfl
      · rw [hfile] at hnew
        cases hnew
      · cases hfolder
    · exact hsame

/-! ### What ways and paths denote when all is retained -/

theorem Leads.retain {folder way goal : List String} (h : Leads before folder way goal)
    (hkept : before.Retains spared after) : Leads after folder way goal := by
  induction h with
  | here hnode =>
      obtain ⟨later, hlater, -⟩ := hkept.kept _ _ hnode
      exact .here hlater
  | stay hdot hfolder _ ih =>
      obtain ⟨entries, hlater⟩ := hkept.folder hfolder
      exact .stay hdot hlater ih
  | up hup hfolder _ ih =>
      obtain ⟨entries, hlater⟩ := hkept.folder hfolder
      exact .up hup hlater ih
  | down hdot hup hnode hplain _ ih =>
      obtain ⟨later, hlater, hplain'⟩ := hkept.plain hnode hplain
      exact .down hdot hup hlater hplain' ih
  | follow hdot hup hlink _ ih => exact .follow hdot hup (hkept.link hlink) ih

theorem descend_cons {disk : Disk} {follow : Bool} {folder : List String}
    {entries : List (String × Node)} (hfolder : disk.nodeAt? folder = some (.folder entries))
    (step : String) (rest : List String) :
    disk.descend follow folder (step :: rest) =
      if step = "." then disk.descend follow folder rest
      else if step = ".." then disk.descend follow folder.dropLast rest
      else if nameLimit < step.utf8ByteSize then .error .nameTooLong
      else
        match disk.nodeAt? (folder ++ [step]) with
        | none => if rest.isEmpty then .ok (.arrived (.free folder step)) else .error .notFound
        | some (.link target) =>
            if rest.isEmpty && !follow then
              .ok (.arrived (.taken (folder ++ [step]) (.link target)))
            else .ok (.atLink folder target rest)
        | some _ => disk.descend follow (folder ++ [step]) rest := by
  rw [descend, hfolder, nodeAt?_snoc hfolder] <;> rfl

theorem exists_folder_of_descend {disk : Disk} {follow : Bool} {folder rest : List String}
    {step : String} {descent : Descent} (h : disk.descend follow folder (step :: rest) = .ok descent) :
    ∃ entries, disk.nodeAt? folder = some (.folder entries) := by
  rw [descend] at h
  split at h
  · cases h
  · next entries hfolder => exact ⟨entries, hfolder⟩
  · cases h

/-- What was taken still is when all is retained; what was free may be taken by then. -/
def Place.Stays (after : Disk) (arrives : Place → Prop) : Place → Prop
  | .taken location _ =>
      ∃ later, after.nodeAt? location = some later ∧ arrives (.taken location later)
  | .free above name =>
      ∀ later, after.nodeAt? (above ++ [name]) = some later → (∀ target, later ≠ .link target) →
        arrives (.taken (above ++ [name]) later)

/-- A descent gets to the same place or link when all is retained. -/
def Descent.Stays (after : Disk) (result : Except Errno Descent) : Descent → Prop
  | .arrived place => place.Stays after fun place => result = .ok (.arrived place)
  | .atLink above target rest => result = .ok (.atLink above target rest)

theorem Place.Stays.imp {arrives later : Place → Prop} {place : Place}
    (h : place.Stays after arrives) (himp : ∀ {place}, arrives place → later place) :
    place.Stays after later := by
  cases place with
  | taken location node =>
      obtain ⟨found, hfound, harrives⟩ := h
      exact ⟨found, hfound, himp harrives⟩
  | free above name => exact fun found hfound hplain => himp (h found hfound hplain)

theorem descend_retain (hkept : before.Retains spared after) {follow : Bool} {folder way : List String}
    {descent : Descent} (h : before.descend follow folder way = .ok descent) :
    descent.Stays after (after.descend follow folder way) := by
  induction way generalizing folder with
  | nil =>
      rw [descend] at h
      split at h
      · next node hnode =>
        cases h
        obtain ⟨later, hlater, -⟩ := hkept.kept _ _ hnode
        refine ⟨later, hlater, ?_⟩
        rw [descend, hlater]
      · cases h
  | cons step rest ih =>
      obtain ⟨entries, hfolder⟩ := exists_folder_of_descend h
      obtain ⟨entries', hfolder'⟩ := hkept.folder hfolder
      rw [descend_cons hfolder] at h
      rw [descend_cons hfolder']
      split at h
      · next hstep =>
        simp only [hstep, if_true]
        exact ih h
      · next hdot =>
        simp only [hdot, if_false]
        split at h
        · next hstep =>
          simp only [hstep, if_true]
          exact ih h
        · next hup =>
          simp only [hup, if_false]
          split at h
          · cases h
          · next hshort =>
            simp only [hshort, if_false]
            split at h
            · split at h
              · next hlast =>
                cases h
                intro later hlater hplain
                rw [hlater, List.isEmpty_iff.1 hlast]
                cases later with
                | link target => exact absurd rfl (hplain target)
                | _ => simp [descend, hlater]
              · cases h
            · next target hlink =>
              rw [hkept.link hlink]
              dsimp only
              split at h
              · next hlast =>
                cases h
                simp only [hlast, if_true]
                exact ⟨_, hkept.link hlink, rfl⟩
              · next hlast =>
                cases h
                simp only [hlast]
                rfl
            · next below hplain hbelow =>
              obtain ⟨later, hlater, hplain'⟩ := hkept.plain hbelow hplain
              rw [hlater]
              cases later with
              | link target => exact absurd rfl (hplain' target)
              | _ => exact ih h

theorem walk_retain (hkept : before.Retains spared after) {follow : Bool} {budget : Nat}
    {folder way : List String} {place : Place}
    (h : before.walk follow budget folder way = .ok place) :
    place.Stays after fun place => after.walk follow budget folder way = .ok place := by
  induction budget generalizing folder way with
  | zero =>
      rw [walk] at h
      split at h
      · cases h
      · next found hdescend =>
        cases h
        have hstays : place.Stays after fun place =>
            after.descend follow folder way = .ok (.arrived place) := descend_retain hkept hdescend
        exact hstays.imp fun hlater => walk_of_descend hlater 0
      · cases h
  | succ budget ih =>
      rw [walk] at h
      split at h
      · cases h
      · next found hdescend =>
        cases h
        have hstays : place.Stays after fun place =>
            after.descend follow folder way = .ok (.arrived place) := descend_retain hkept hdescend
        exact hstays.imp fun hlater => walk_of_descend hlater (budget + 1)
      · next above target rest hdescend =>
        refine (ih h).imp fun hlater => ?_
        rw [walk, show after.descend follow folder way = _ from descend_retain hkept hdescend]
        exact hlater

theorem place_retain (hkept : before.Retains spared after) {follow : Bool} {path : String} {place : Place}
    (h : before.place follow path = .ok place) :
    place.Stays after fun place => after.place follow path = .ok place := by
  rw [place_eq_ok] at h
  obtain ⟨hnull, hempty, hsize, hwalk⟩ := h
  refine (walk_retain hkept hwalk).imp fun hlater => ?_
  rw [place_eq_ok, hkept.cwd]
  exact ⟨hnull, hempty, hsize, hlater⟩

/-- A path that denotes something denotes it as long as all is retained. -/
theorem find_retain (hkept : before.Retains spared after) {path : String} {location : List String}
    {node : Node} (h : before.find path = .ok (location, node)) :
    ∃ later, after.nodeAt? location = some later ∧ after.find path = .ok (location, later) := by
  obtain ⟨later, hlater, hplace⟩ := place_retain hkept (find_eq_ok.1 h)
  exact ⟨later, hlater, find_eq_ok.2 hplace⟩

theorem nodeAt?_of_find_eq {disk : Disk} {path : String} {location : List String} {node : Node}
    (h : disk.find path = .ok (location, node)) : disk.nodeAt? location = some node := by
  rw [find_eq_ok, place_eq_ok] at h
  exact (walk_taken h.2.2.2).1

/-- Where a path denotes something, its way leads there. -/
theorem leads_of_find {disk : Disk} {path : String} {location : List String} {node : Node}
    (h : disk.find path = .ok (location, node)) :
    Leads disk (if isAbsolute path then [] else disk.cwd) (steps path) location := by
  rw [find_eq_ok, place_eq_ok] at h
  exact (walk_taken h.2.2.2).2

/-- What a path denotes that goes on along names on which no link stands. -/
theorem location_of_find {disk : Disk} {text : String} {way folder names location : List String}
    {node : Node} (hway : Leads disk [] way folder) (habsolute : isAbsolute text = true)
    (hsteps : steps text = way ++ names) (hplain : ∀ name ∈ names, name ≠ "." ∧ name ≠ "..")
    (hlink : ∀ count target, disk.nodeAt? (folder ++ names.take (count + 1)) ≠ some (.link target))
    (hfind : disk.find text = .ok (location, node)) : location = folder ++ names := by
  have hleads := leads_of_find hfind
  rw [if_pos habsolute, hsteps] at hleads
  obtain ⟨between, hfirst, hrest⟩ := hleads.split
  rw [hfirst.unique hway] at hrest
  exact hrest.eq_append_of_no_link hplain hlink

/-! ### Writing -/

theorem descend_free {disk : Disk} {follow : Bool} {folder way above : List String} {name : String}
    (h : disk.descend follow folder way = .ok (.arrived (.free above name))) :
    ∃ entries, disk.nodeAt? above = some (.folder entries) ∧ entries.lookup name = none := by
  induction way generalizing folder with
  | nil =>
      rw [descend] at h
      split at h <;> cases h
  | cons step rest ih =>
      obtain ⟨entries, hfolder⟩ := exists_folder_of_descend h
      rw [descend_cons hfolder] at h
      split at h
      · exact ih h
      · split at h
        · exact ih h
        · split at h
          · cases h
          · split at h
            · next hnone =>
              split at h
              · cases h
                rw [nodeAt?_snoc hfolder] at hnone
                exact ⟨entries, hfolder, hnone⟩
              · cases h
            · split at h <;> cases h
            · exact ih h

theorem walk_free {disk : Disk} {follow : Bool} {budget : Nat} {folder way above : List String}
    {name : String} (h : disk.walk follow budget folder way = .ok (.free above name)) :
    ∃ entries, disk.nodeAt? above = some (.folder entries) ∧ entries.lookup name = none := by
  induction budget generalizing folder way with
  | zero =>
      rw [walk] at h
      split at h
      · cases h
      · next hdescend =>
        cases h
        exact descend_free hdescend
      · cases h
  | succ budget ih =>
      rw [walk] at h
      split at h
      · cases h
      · next hdescend =>
        cases h
        exact descend_free hdescend
      · exact ih h

/-- What is put at a free place stands there, and the disk has grown. -/
theorem grows_put_free {disk : Disk} {follow : Bool} {path : String} {above : List String}
    {name : String} {new : Node} (h : disk.place follow path = .ok (.free above name))
    (hnew : new.isFile = true ∨ new = .folder []) :
    (disk.put (above ++ [name]) new).nodeAt? (above ++ [name]) = some new ∧
      disk.Grows spared (disk.put (above ++ [name]) new) := by
  rw [place_eq_ok] at h
  obtain ⟨entries, hfolder, hfree⟩ := walk_free h.2.2.2
  have hself : (disk.put (above ++ [name]) new).nodeAt? (above ++ [name]) = some new :=
    Node.at?_put_self hfolder name new
  refine ⟨hself, grows_put hself hnew fun old hold => ?_⟩
  rw [nodeAt?_snoc hfolder, hfree] at hold
  cases hold

/-- A file that is put at the free place of a path is what the path denotes then. -/
theorem find_retain_put {disk : Disk} {path : String} {above : List String} {name : String}
    {bytes : List UInt8} (h : disk.place true path = .ok (.free above name)) :
    (disk.put (above ++ [name]) (.file bytes)).find path = .ok (above ++ [name], .file bytes) := by
  have hfile : (Node.file bytes).isFile = true := rfl
  obtain ⟨hself, hgrows⟩ :
      _ ∧ disk.Grows (fun _ => True) (disk.put (above ++ [name]) (.file bytes)) :=
    grows_put_free h (.inl hfile)
  rw [find_eq_ok]
  exact place_retain hgrows.toRetains h _ hself (by simp)

/-- Bytes that are written are a file where the path leads, unless something swallows them. -/
theorem writeBytes_eq_ok {disk : Disk} {path : String} {bytes : List UInt8}
    (h : disk.writeBytes path bytes = .ok after) :
    (∃ location, after.find path = .ok (location, .file bytes) ∧
        disk.Grows (fun other => other ≠ location) after) ∨
      after = disk ∧ ∀ location old, disk.find path ≠ .ok (location, .file old) := by
  unfold writeBytes at h
  cases hplace : disk.place true path with
  | error fault =>
      rw [hplace] at h
      cases h
  | ok place =>
      rw [hplace, ok_bind] at h
      cases place with
      | free above name =>
          cases h
          have hfile : (Node.file bytes).isFile = true := rfl
          exact Or.inl ⟨above ++ [name], find_retain_put hplace, (grows_put_free hplace (.inl hfile)).2⟩
      | taken location node =>
          cases node with
          | file old =>
              cases h
              have hold := nodeAt?_of_find_eq (find_eq_ok.2 hplace)
              have hself : (disk.put location (.file bytes)).nodeAt? location = some (.file bytes) :=
                Node.at?_put_of_at? hold _
              have hgrows : disk.Grows (fun other => other ≠ location)
                  (disk.put location (.file bytes)) := by
                refine grows_put hself (.inl rfl) fun other hother => ?_
                rw [hold] at hother
                cases hother
                exact ⟨rfl, rfl, fun hne => hne rfl⟩
              refine Or.inl ⟨location, ?_, hgrows⟩
              obtain ⟨later, hlater, hfind⟩ := find_retain hgrows.toRetains (find_eq_ok.2 hplace)
              rw [hself] at hlater
              cases hlater
              exact hfind
          | folder entries => cases h
          | _ =>
              cases h
              refine Or.inr ⟨rfl, fun location old hfind => ?_⟩
              rw [find_eq_ok, hplace] at hfind
              cases hfind

/-- Bytes that are no file afterwards were swallowed by something that is no file. -/
theorem exists_swallower {disk : Disk} {path : String} {bytes : List UInt8}
    (h : disk.writeBytes path bytes = .ok after)
    (hno : ∀ location, after.find path ≠ .ok (location, .file bytes)) :
    ∃ location node, disk.find path = .ok (location, node) ∧ node.isFile = false ∧
      node.isFolder = false := by
  rcases writeBytes_eq_ok h with ⟨location, hfind, -⟩ | ⟨-, hnofile⟩
  · exact absurd hfind (hno location)
  · unfold writeBytes at h
    cases hplace : disk.place true path with
    | error fault =>
        rw [hplace] at h
        cases h
    | ok place =>
        rw [hplace, ok_bind] at h
        cases place with
        | free above name =>
            cases h
            exact absurd (find_retain_put hplace) (hno _)
        | taken location node =>
            cases node with
            | file old => exact absurd (find_eq_ok.2 hplace) (hnofile location old)
            | folder entries => cases h
            | link target => exact ⟨location, _, find_eq_ok.2 hplace, rfl, rfl⟩
            | sink => exact ⟨location, _, find_eq_ok.2 hplace, rfl, rfl⟩

/-- Bytes that are written where at most a file or folder is are a file afterwards. -/
theorem find_of_writeBytes {disk : Disk} {path : String} {bytes : List UInt8}
    (h : disk.writeBytes path bytes = .ok after)
    (hplain : ∀ location node, disk.find path = .ok (location, node) →
      node.isFile = true ∨ node.isFolder = true) :
    ∃ location, after.find path = .ok (location, .file bytes) := by
  apply Classical.byContradiction
  intro hno
  obtain ⟨location, node, hfind, hfile, hfolder⟩ := exists_swallower h (not_exists.1 hno)
  rcases hplain location node hfind with hyes | hyes
  · rw [hfile] at hyes
    cases hyes
  · rw [hfolder] at hyes
    cases hyes

theorem makeFolder_grow {disk : Disk} {path : String} (h : disk.makeFolder path = .ok after) :
    disk.Grows spared after := by
  unfold makeFolder at h
  cases hplace : disk.place false path with
  | error fault =>
      rw [hplace] at h
      cases h
  | ok place =>
      rw [hplace, ok_bind] at h
      cases place with
      | taken location node => cases h
      | free above name =>
          cases h
          exact (grows_put_free hplace (.inr rfl)).2

theorem makeFoldersUpTo_grow (spared : List String → Prop) (depth : Nat) (path : Path) (disk : Disk) :
    disk.Grows spared (makeFoldersUpTo depth path disk).2 := by
  let grows : Path → Disk → Disk → Prop := fun _ before after => before.Grows spared after
  have hmade {path : Path} {before between after : Disk} (h : grows path before between)
      (hmake : between.makeFolder path.toString = .ok after) : grows path before after :=
    h.trans (makeFolder_grow hmake)
  exact makeFoldersUpTo_keeps grows (fun _ => .refl spared) id hmade depth path disk

theorem makeFolders_grow (spared : List String → Prop) (path : Path) (disk : Disk) :
    disk.Grows spared (makeFolders path disk).2 :=
  makeFoldersUpTo_grow spared _ path disk

end Disk

end ElmSuite
