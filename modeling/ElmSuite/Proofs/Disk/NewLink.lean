import ElmSuite.Proofs.Disk.Growth

/-!
Where a new link stands.  A link is made at the last name of its path, in the folder to which the way
in front of that name leads, and all that there was stays.
-/

namespace ElmSuite.Disk

variable {disk : Disk} {folder front above : List String} {name last : String}

/-- A descent to a free name gets there by the way in front of the name. -/
theorem descend_free_last (hdot : last ≠ ".") (hup : last ≠ "..")
    (h : disk.descend false folder (front ++ [last]) = .ok (.arrived (.free above name))) :
    name = last ∧ Leads disk folder front above := by
  induction front generalizing folder with
  | nil =>
      rw [List.nil_append] at h
      obtain ⟨entries, hfolder⟩ := exists_folder_of_descend h
      rw [descend_cons hfolder, if_neg hdot, if_neg hup] at h
      split at h
      · cases h
      · split at h
        · cases h
          exact ⟨rfl, .here hfolder⟩
        · cases h
        · next node hlink hnode =>
          rw [descend, hnode] at h
          cases h
  | cons step rest ih =>
      rw [List.cons_append] at h
      obtain ⟨entries, hfolder⟩ := exists_folder_of_descend h
      rw [descend_cons hfolder] at h
      split at h
      · next hstep => exact (ih h).imp_right (.stay hstep hfolder)
      · next hstay =>
        split at h
        · next hstep => exact (ih h).imp_right (.up hstep hfolder)
        · next hdown =>
          split at h
          · cases h
          · split at h
            · rw [if_neg (by simp)] at h
              cases h
            · split at h <;> cases h
            · next node hlink hnode =>
              exact (ih h).imp_right (.down hstay hdown hnode fun target heq => hlink target heq)

/-- A descent to a link that is to be followed leaves the last name for later. -/
theorem descend_atLink_last {target : String} {rest : List String} (hdot : last ≠ ".")
    (hup : last ≠ "..")
    (h : disk.descend false folder (front ++ [last]) = .ok (.atLink above target rest)) :
    ∃ more, rest = more ++ [last] ∧ ∀ goal,
      Leads disk (if isAbsolute target then [] else above) (steps target ++ more) goal →
        Leads disk folder front goal := by
  induction front generalizing folder with
  | nil =>
      rw [List.nil_append] at h
      obtain ⟨entries, hfolder⟩ := exists_folder_of_descend h
      rw [descend_cons hfolder, if_neg hdot, if_neg hup] at h
      split at h
      · cases h
      · split at h
        · split at h <;> cases h
        · cases h
        · next node hlink hnode =>
          rw [descend, hnode] at h
          cases h
  | cons step more ih =>
      rw [List.cons_append] at h
      obtain ⟨entries, hfolder⟩ := exists_folder_of_descend h
      rw [descend_cons hfolder] at h
      split at h
      · next hstep =>
        obtain ⟨later, heq, hleads⟩ := ih h
        exact ⟨later, heq, fun goal hgoal => .stay hstep hfolder (hleads goal hgoal)⟩
      · next hstay =>
        split at h
        · next hstep =>
          obtain ⟨later, heq, hleads⟩ := ih h
          exact ⟨later, heq, fun goal hgoal => .up hstep hfolder (hleads goal hgoal)⟩
        · next hdown =>
          split at h
          · cases h
          · split at h
            · split at h <;> cases h
            · next found hnode =>
              rw [if_neg (by simp)] at h
              cases h
              exact ⟨more, rfl, fun goal hgoal => .follow hstay hdown hnode hgoal⟩
            · next node hlink hnode =>
              obtain ⟨later, heq, hleads⟩ := ih h
              exact ⟨later, heq, fun goal hgoal =>
                .down hstay hdown hnode (fun target heq => hlink target heq) (hleads goal hgoal)⟩

/-- A walk to a free name gets there by the way in front of the name. -/
theorem walk_free_last {budget : Nat} (hdot : last ≠ ".") (hup : last ≠ "..")
    (h : disk.walk false budget folder (front ++ [last]) = .ok (.free above name)) :
    name = last ∧ Leads disk folder front above := by
  induction budget generalizing folder front with
  | zero =>
      rw [walk] at h
      split at h
      · cases h
      · next hdescend =>
        cases h
        exact descend_free_last hdot hup hdescend
      · cases h
  | succ budget ih =>
      rw [walk] at h
      split at h
      · cases h
      · next hdescend =>
        cases h
        exact descend_free_last hdot hup hdescend
      · next hdescend =>
        obtain ⟨more, rfl, hleads⟩ := descend_atLink_last hdot hup hdescend
        rw [← List.append_assoc] at h
        obtain ⟨hname, hway⟩ := ih h
        exact ⟨hname, hleads _ hway⟩

/-- A link that is made stands at the last name of its path, and is all that is new. -/
theorem makeLink_eq_ok {spared : List String → Prop} {path target : String} {after : Disk}
    (h : disk.makeLink path target = .ok after) (habsolute : isAbsolute path = true)
    (hsteps : steps path = front ++ [last]) (hdot : last ≠ ".") (hup : last ≠ "..") :
    ∃ above, Leads disk [] front above ∧ disk.Retains spared after ∧
      ∀ location found, after.nodeAt? location = some (.link found) →
        location = above ++ [last] ∨ disk.nodeAt? location = some (.link found) := by
  unfold makeLink at h
  cases hplace : disk.place false path with
  | error fault =>
      rw [hplace] at h
      cases h
  | ok place =>
      rw [hplace, ok_bind] at h
      cases place with
      | taken location node => cases h
      | free above name =>
          cases h
          rw [place_eq_ok, if_pos habsolute, hsteps] at hplace
          obtain ⟨-, -, -, hwalk⟩ := hplace
          obtain ⟨entries, hfolder, hfree⟩ := walk_free hwalk
          obtain ⟨rfl, hleads⟩ := walk_free_last hdot hup hwalk
          have hself : (disk.put (above ++ [name]) (.link target)).nodeAt? (above ++ [name]) =
              some (.link target) := Node.at?_put_self hfolder name _
          refine ⟨above, hleads, retains_put hself fun old hold => ?_, fun location found hfound => ?_⟩
          · rw [nodeAt?_snoc hfolder, hfree] at hold
            cases hold
          · rcases nodeAt?_put_cases hself rfl hfound rfl with ⟨hlocation, -⟩ | hsame
            · exact .inl hlocation
            · exact .inr hsame

end ElmSuite.Disk
