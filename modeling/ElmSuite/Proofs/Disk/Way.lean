import ElmSuite.Proofs.Disk.Tree

/-!
Where ways lead.  A way is a list of steps from a folder; it leads to a location if its links, taken
one after the other, end there.  Unlike a walk, this says nothing of how many links are allowed, so
ways can be cut and joined.
-/

namespace ElmSuite.Disk

/-- A way from a folder leads to a location. -/
inductive Leads (disk : Disk) : List String → List String → List String → Prop
  | here {folder : List String} {node : Node} (hnode : disk.nodeAt? folder = some node) :
      Leads disk folder [] folder
  | stay {folder rest goal : List String} {step : String} {entries : List (String × Node)}
      (hdot : step = ".") (hfolder : disk.nodeAt? folder = some (.folder entries))
      (hrest : Leads disk folder rest goal) : Leads disk folder (step :: rest) goal
  | up {folder rest goal : List String} {step : String} {entries : List (String × Node)}
      (hup : step = "..") (hfolder : disk.nodeAt? folder = some (.folder entries))
      (hrest : Leads disk folder.dropLast rest goal) : Leads disk folder (step :: rest) goal
  | down {folder rest goal : List String} {step : String} {node : Node} (hdot : step ≠ ".")
      (hup : step ≠ "..") (hnode : disk.nodeAt? (folder ++ [step]) = some node)
      (hlink : ∀ target, node ≠ .link target) (hrest : Leads disk (folder ++ [step]) rest goal) :
      Leads disk folder (step :: rest) goal
  | follow {folder rest goal : List String} {step target : String} (hdot : step ≠ ".")
      (hup : step ≠ "..") (hlink : disk.nodeAt? (folder ++ [step]) = some (.link target))
      (hrest : Leads disk (if isAbsolute target then [] else folder) (steps target ++ rest) goal) :
      Leads disk folder (step :: rest) goal

variable {disk : Disk} {folder way more goal : List String}

theorem Leads.unique {first second : List String} (hfirst : Leads disk folder way first)
    (hsecond : Leads disk folder way second) : first = second := by
  induction hfirst with
  | here _ =>
      cases hsecond
      rfl
  | stay hdot _ _ ih =>
      cases hsecond with
      | stay _ _ hrest => exact ih hrest
      | up hup _ _ => exact absurd (hdot.symm.trans hup) (by decide)
      | down hdot' _ _ _ _ => exact absurd hdot hdot'
      | follow hdot' _ _ _ => exact absurd hdot hdot'
  | up hup _ _ ih =>
      cases hsecond with
      | stay hdot _ _ => exact absurd (hdot.symm.trans hup) (by decide)
      | up _ _ hrest => exact ih hrest
      | down _ hup' _ _ _ => exact absurd hup hup'
      | follow _ hup' _ _ => exact absurd hup hup'
  | down hdot hup hnode hlink _ ih =>
      cases hsecond with
      | stay hdot' _ _ => exact absurd hdot' hdot
      | up hup' _ _ => exact absurd hup' hup
      | down _ _ _ _ hrest => exact ih hrest
      | follow _ _ hlink' _ =>
          rw [hnode] at hlink'
          exact absurd (Option.some.inj hlink') (hlink _)
  | follow hdot hup hlink _ ih =>
      cases hsecond with
      | stay hdot' _ _ => exact absurd hdot' hdot
      | up hup' _ _ => exact absurd hup' hup
      | down _ _ hnode hne _ =>
          rw [hlink] at hnode
          exact absurd (Option.some.inj hnode).symm (hne _)
      | follow _ _ hlink' hrest =>
          rw [hlink] at hlink'
          cases hlink'
          exact ih hrest

/-- A way starts at something. -/
theorem Leads.exists_start (h : Leads disk folder way goal) :
    ∃ node, disk.nodeAt? folder = some node := by
  cases h with
  | here hnode => exact ⟨_, hnode⟩
  | stay _ hfolder _ => exact ⟨_, hfolder⟩
  | up _ hfolder _ => exact ⟨_, hfolder⟩
  | down _ _ hnode _ _ =>
      obtain ⟨entries, hfolder, -⟩ := exists_folder_of_nodeAt?_snoc hnode
      exact ⟨_, hfolder⟩
  | follow _ _ hlink _ =>
      obtain ⟨entries, hfolder, -⟩ := exists_folder_of_nodeAt?_snoc hlink
      exact ⟨_, hfolder⟩

theorem Leads.append {between : List String} (hfirst : Leads disk folder way between)
    (hsecond : Leads disk between more goal) : Leads disk folder (way ++ more) goal := by
  induction hfirst with
  | here _ => exact hsecond
  | stay hdot hfolder _ ih => exact .stay hdot hfolder (ih hsecond)
  | up hup hfolder _ ih => exact .up hup hfolder (ih hsecond)
  | down hdot hup hnode hlink _ ih => exact .down hdot hup hnode hlink (ih hsecond)
  | follow hdot hup hlink _ ih =>
      refine .follow hdot hup hlink ?_
      rw [List.append_assoc] at ih
      exact ih hsecond

/-- A way in two parts passes the end of the first. -/
theorem Leads.split (h : Leads disk folder (way ++ more) goal) :
    ∃ between, Leads disk folder way between ∧ Leads disk between more goal := by
  -- The induction is on the whole way; its first part is what is left of `way` at each step.
  generalize hwhole : way ++ more = whole at h
  induction h generalizing way with
  | @here start node hnode =>
      obtain ⟨rfl, rfl⟩ := List.append_eq_nil_iff.mp hwhole
      exact ⟨start, .here hnode, .here hnode⟩
  | @stay start rest goal step entries hdot hfolder hrest ih =>
      cases way with
      | nil =>
          subst hwhole
          exact ⟨start, .here hfolder, .stay hdot hfolder hrest⟩
      | cons head tail =>
          obtain ⟨rfl, rfl⟩ := List.cons.inj hwhole
          obtain ⟨between, hway, hmore⟩ := ih rfl
          exact ⟨between, .stay hdot hfolder hway, hmore⟩
  | @up start rest goal step entries hup hfolder hrest ih =>
      cases way with
      | nil =>
          subst hwhole
          exact ⟨start, .here hfolder, .up hup hfolder hrest⟩
      | cons head tail =>
          obtain ⟨rfl, rfl⟩ := List.cons.inj hwhole
          obtain ⟨between, hway, hmore⟩ := ih rfl
          exact ⟨between, .up hup hfolder hway, hmore⟩
  | @down start rest goal step node hdot hup hnode hlink hrest ih =>
      cases way with
      | nil =>
          subst hwhole
          have hdown := Leads.down hdot hup hnode hlink hrest
          obtain ⟨_, hstart⟩ := hdown.exists_start
          exact ⟨start, .here hstart, hdown⟩
      | cons head tail =>
          obtain ⟨rfl, rfl⟩ := List.cons.inj hwhole
          obtain ⟨between, hway, hmore⟩ := ih rfl
          exact ⟨between, .down hdot hup hnode hlink hway, hmore⟩
  | @follow start rest goal step target hdot hup hlink hrest ih =>
      cases way with
      | nil =>
          subst hwhole
          have hfollow := Leads.follow hdot hup hlink hrest
          obtain ⟨_, hstart⟩ := hfollow.exists_start
          exact ⟨start, .here hstart, hfollow⟩
      | cons head tail =>
          obtain ⟨rfl, rfl⟩ := List.cons.inj hwhole
          obtain ⟨between, hway, hmore⟩ := ih (List.append_assoc _ _ _)
          exact ⟨between, .follow hdot hup hlink hway, hmore⟩

/-- Steps that stay where they are can be left out. -/
theorem Leads.skip (h : Leads disk folder way goal) :
    Leads disk folder (way.filter fun step => !(step == ".")) goal := by
  induction way generalizing folder with
  | nil => exact h
  | cons step rest ih =>
      obtain ⟨between, hstep, hrest⟩ := Leads.split (show Leads disk folder ([step] ++ rest) goal from h)
      by_cases hdot : step = "."
      · subst hdot
        cases hstep with
        | stay _ _ hhere =>
            cases hhere
            exact ih hrest
        | up hup _ _ => exact absurd hup (by decide)
        | down hdot _ _ _ _ => exact absurd rfl hdot
        | follow hdot _ _ _ => exact absurd rfl hdot
      · rw [List.filter_cons_of_pos (by simpa using hdot)]
        exact hstep.append (ih hrest)

/-- A way along names at which no link stands leads where the names say. -/
theorem Leads.eq_append_of_no_link {names : List String} (h : Leads disk folder names goal)
    (hplain : ∀ name ∈ names, name ≠ "." ∧ name ≠ "..")
    (hlink : ∀ rest target, disk.nodeAt? (folder ++ names.take (rest + 1)) ≠ some (.link target)) :
    goal = folder ++ names := by
  induction names generalizing folder with
  | nil =>
      cases h
      simp
  | cons name rest ih =>
      obtain ⟨hdot, hup⟩ := hplain name List.mem_cons_self
      cases h with
      | stay hdot' _ _ => exact absurd hdot' hdot
      | up hup' _ _ => exact absurd hup' hup
      | follow _ _ hnode _ => exact absurd hnode (by simpa using hlink 0 _)
      | down _ _ _ _ hrest =>
          have hgoal := ih hrest (fun other hother => hplain other (List.mem_cons_of_mem name hother))
            (fun count target => by simpa using hlink (count + 1) target)
          simpa using hgoal

/-- How a descent ends, in terms of where its way leads: at the end of the way, at a free name, or
at a link, from which the rest of the way leads where the whole way does. -/
theorem descend_taken {follow : Bool} {location : List String} {node : Node}
    (h : disk.descend follow folder way = .ok (.arrived (.taken location node))) :
    disk.nodeAt? location = some node ∧ (follow = true → Leads disk folder way location) := by
  induction way generalizing folder with
  | nil =>
      rw [descend] at h
      split at h
      · next hnode =>
        cases h
        exact ⟨hnode, fun _ => .here hnode⟩
      · cases h
  | cons step rest ih =>
      rw [descend] at h
      split at h
      · cases h
      · next entries hfolder =>
        split at h
        · next hstep =>
          obtain ⟨hnode, hleads⟩ := ih h
          exact ⟨hnode, fun hfollow => .stay hstep hfolder (hleads hfollow)⟩
        · next hdot =>
          split at h
          · next hstep =>
            obtain ⟨hnode, hleads⟩ := ih h
            exact ⟨hnode, fun hfollow => .up hstep hfolder (hleads hfollow)⟩
          · next hup =>
            split at h
            · cases h
            · split at h
              · split at h <;> cases h
              · next target hentry =>
                split at h
                · next hlast =>
                  cases h
                  refine ⟨(nodeAt?_snoc hfolder step).trans hentry, fun hfollow => ?_⟩
                  simp [hfollow] at hlast
                · cases h
              · next below hlink hentry =>
                obtain ⟨hnode, hleads⟩ := ih h
                refine ⟨hnode, fun hfollow => .down hdot hup ((nodeAt?_snoc hfolder step).trans hentry)
                  ?_ (hleads hfollow)⟩
                exact fun target heq => hlink target heq
      · cases h

/-- A descent that comes to a link: the way leads where the target and the rest of the way do. -/
theorem descend_atLink {follow : Bool} {above rest : List String} {target : String}
    (h : disk.descend follow folder way = .ok (.atLink above target rest))
    (hleads : Leads disk (if isAbsolute target then [] else above) (steps target ++ rest) goal) :
    Leads disk folder way goal := by
  induction way generalizing folder with
  | nil =>
      rw [descend] at h
      split at h <;> cases h
  | cons step more ih =>
      rw [descend] at h
      split at h
      · cases h
      · next entries hfolder =>
        split at h
        · next hstep => exact .stay hstep hfolder (ih h)
        · next hdot =>
          split at h
          · next hstep => exact .up hstep hfolder (ih h)
          · next hup =>
            split at h
            · cases h
            · split at h
              · split at h <;> cases h
              · next found hentry =>
                split at h
                · cases h
                · cases h
                  exact .follow hdot hup ((nodeAt?_snoc hfolder step).trans hentry) hleads
              · next below hlink hentry =>
                exact .down hdot hup ((nodeAt?_snoc hfolder step).trans hentry)
                  (fun found heq => hlink found heq) (ih h)
      · cases h

/-- A walk that follows links ends where its way leads. -/
theorem walk_taken {budget : Nat} {location : List String} {node : Node}
    (h : disk.walk true budget folder way = .ok (.taken location node)) :
    disk.nodeAt? location = some node ∧ Leads disk folder way location := by
  induction budget generalizing folder way with
  | zero =>
      rw [walk] at h
      split at h
      · cases h
      · next place hdescend =>
        cases h
        obtain ⟨hnode, hleads⟩ := descend_taken hdescend
        exact ⟨hnode, hleads rfl⟩
      · cases h
  | succ budget ih =>
      rw [walk] at h
      split at h
      · cases h
      · next place hdescend =>
        cases h
        obtain ⟨hnode, hleads⟩ := descend_taken hdescend
        exact ⟨hnode, hleads rfl⟩
      · next above target rest hdescend =>
        obtain ⟨hnode, hleads⟩ := ih h
        exact ⟨hnode, descend_atLink hdescend hleads⟩

theorem walk_of_descend {follow : Bool} {place : Place}
    (h : disk.descend follow folder way = .ok (.arrived place)) (budget : Nat) :
    disk.walk follow budget folder way = .ok place := by
  cases budget <;> rw [walk, h]

/-- What the system asks of the text of a path, and what it makes of it. -/
theorem place_eq_ok {follow : Bool} {path : String} {place : Place} :
    disk.place follow path = .ok place ↔
      '\x00' ∉ path.toList ∧ path ≠ "" ∧ path.utf8ByteSize < pathLimit ∧
        disk.walk follow linkLimit (if isAbsolute path then [] else disk.cwd) (steps path) =
          .ok place := by
  unfold Disk.place
  by_cases hnull : '\x00' ∈ path.toList
  · simp [hnull]
  · by_cases hempty : path = ""
    · simp [hempty]
    · by_cases hsize : pathLimit ≤ path.utf8ByteSize
      · simp [hnull, hempty, hsize, Nat.not_lt.2 hsize]
      · simp only [hnull, List.contains_eq_mem, decide_false, Bool.false_eq_true, if_false,
          String.isEmpty_iff, hempty, hsize, not_false_eq_true, ne_eq, Nat.not_le.1 hsize, true_and]
        split <;> simp_all

theorem find_eq_ok {path : String} {location : List String} {node : Node} :
    disk.find path = .ok (location, node) ↔ disk.place true path = .ok (.taken location node) := by
  unfold find
  cases h : disk.place true path with
  | error fault => simp [bind, Except.bind]
  | ok place => cases place <;> simp [bind, Except.bind]

end ElmSuite.Disk
