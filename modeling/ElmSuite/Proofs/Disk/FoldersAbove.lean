import ElmSuite.Proofs.Disk.Footprint
import ElmSuite.Proofs.Elm.ModuleNaming

/-!
The folders above a file.  Whatever a path is, making its folder and those above it changes a disk only
where one of these paths leads afterwards, and writing changes it only where the path itself leads.
-/

namespace ElmSuite.Disk

variable {spared : List String → Prop} {disk before after : Disk} {folder way above : List String}
  {name : String} {path : Path}

/-! ### Free names -/

/-- Where a descent ends at no link in last place, it goes the same way if links there are followed. -/
theorem descend_follow {descent : Descent} (h : disk.descend false folder way = .ok descent)
    (hlast : ∀ location node, descent ≠ .arrived (.taken location node)) :
    disk.descend true folder way = .ok descent := by
  induction way generalizing folder with
  | nil =>
      rw [descend] at h
      split at h
      · cases h
        exact absurd rfl (hlast _ _)
      · cases h
  | cons step rest ih =>
      obtain ⟨entries, hfolder⟩ := exists_folder_of_descend h
      rw [descend_cons hfolder] at h ⊢
      split
      · next hdot =>
        rw [if_pos hdot] at h
        exact ih h
      · next hdot =>
        rw [if_neg hdot] at h
        split
        · next hup =>
          rw [if_pos hup] at h
          exact ih h
        · next hup =>
          rw [if_neg hup] at h
          split
          · next hlong =>
            rw [if_pos hlong] at h
            cases h
          · next hlong =>
            rw [if_neg hlong] at h
            split at h
            · exact h
            · split at h
              · cases h
                exact absurd rfl (hlast _ _)
              · cases h
                rw [Bool.not_true, Bool.and_false, if_neg Bool.false_ne_true]
            · exact ih h

/-- A name that is free is free whether or not a link in its place were followed. -/
theorem walk_follow {budget : Nat} (h : disk.walk false budget folder way = .ok (.free above name)) :
    disk.walk true budget folder way = .ok (.free above name) := by
  induction budget generalizing folder way with
  | zero =>
      rw [walk] at h
      split at h
      · cases h
      · next place hdescend =>
        cases h
        exact walk_of_descend (descend_follow hdescend (by simp)) 0
      · cases h
  | succ budget ih =>
      rw [walk] at h
      split at h
      · cases h
      · next place hdescend =>
        cases h
        exact walk_of_descend (descend_follow hdescend (by simp)) (budget + 1)
      · next link target rest hdescend =>
        rw [walk, descend_follow hdescend (by simp)]
        exact ih h

theorem place_follow {text : String} (h : disk.place false text = .ok (.free above name)) :
    disk.place true text = .ok (.free above name) := by
  rw [place_eq_ok] at h ⊢
  exact ⟨h.1, h.2.1, h.2.2.1, walk_follow h.2.2.2⟩

/-! ### Folders -/

/-- The locations to which a path or a path above it leads. -/
def Passed (disk : Disk) (path : Path) (location : List String) : Prop :=
  ∃ above node, path.LiesUnder above ∧ disk.find above.toString = .ok (location, node)

theorem Passed.retain {location : List String} (h : before.Passed path location)
    (hkept : before.Retains spared after) : after.Passed path location := by
  obtain ⟨above, node, habove, hfind⟩ := h
  obtain ⟨later, -, hlater⟩ := find_retain hkept hfind
  exact ⟨above, later, habove, hlater⟩

theorem Passed.of_parent {location : List String} (h : disk.Passed path.parent location) :
    disk.Passed path location := by
  obtain ⟨above, node, ⟨hanchor, hparts⟩, hfind⟩ := h
  exact ⟨above, node, ⟨hanchor, hparts.trans (List.dropLast_prefix path.parts)⟩, hfind⟩

/-- A folder is made where its path leads afterwards. -/
theorem makeFolder_touches_passed (h : disk.makeFolder path.toString = .ok after) :
    disk.Touches (after.Passed path) (fun _ => False) after := by
  unfold makeFolder at h
  rcases hplace : disk.place false path.toString with fault | (⟨location, node⟩ | ⟨above, name⟩)
  · rw [hplace] at h
    cases h
  · rw [hplace, ok_bind] at h
    cases h
  · rw [hplace, ok_bind] at h
    cases h
    refine touches_put_free hplace (.inr ⟨rfl, path, .folder [], ⟨rfl, List.prefix_rfl⟩, ?_⟩)
    obtain ⟨hself, hgrows⟩ :
        _ ∧ disk.Grows (fun _ => True) (disk.put (above ++ [name]) (.folder [])) :=
      grows_put_free hplace (.inr rfl)
    exact find_eq_ok.2 (place_retain hgrows.toRetains (place_follow hplace) _ hself (by simp))

/-- Making a folder and those above it changes nothing but what was missing where these paths lead. -/
theorem makeFoldersUpTo_touches_passed (depth : Nat) (path : Path) (disk : Disk) :
    disk.Touches ((makeFoldersUpTo depth path disk).2.Passed path) (fun _ => False)
      (makeFoldersUpTo depth path disk).2 := by
  let passes : Path → Disk → Disk → Prop := fun path before after =>
    before.Touches (after.Passed path) (fun _ => False) after
  have hbelow {path : Path} {before after : Disk} (h : passes path.parent before after) :
      passes path before after := h.mono (fun _ => Passed.of_parent) fun _ hfalse => hfalse
  have hmade {path : Path} {before between after : Disk} (h : passes path before between)
      (hmake : between.makeFolder path.toString = .ok after) : passes path before after := by
    have hlast := makeFolder_touches_passed hmake
    exact (h.mono (fun _ hpassed => hpassed.retain hlast.toRetains) fun _ hfalse => hfalse).trans hlast
  have hrefl (path : Path) (disk : Disk) : passes path disk disk := Touches.refl disk
  exact makeFoldersUpTo_keeps passes hrefl hbelow hmade depth path disk

/-! ### Files -/

/-- A node that bytes have been written to: a file of these bytes, or what keeps none. -/
def Received (bytes : List UInt8) (node : Node) : Prop :=
  node = .file bytes ∨ node.isFile = false ∧ node.isFolder = false

/-- Bytes are received where their path leads, and nothing else changes. -/
theorem exists_received_of_writeBytes {text : String} {bytes : List UInt8}
    (h : disk.writeBytes text bytes = .ok after) :
    ∃ location node, after.find text = .ok (location, node) ∧ Received bytes node ∧
      disk.Touches (fun _ => False) (fun other => other = location) after := by
  rcases writeBytes_touches h with rfl | ⟨location, hfind, htouches⟩
  · by_cases hfile : ∃ location, after.find text = .ok (location, .file bytes)
    · obtain ⟨location, hfind⟩ := hfile
      exact ⟨location, _, hfind, .inl rfl, .refl after⟩
    · obtain ⟨location, node, hfind, hplain⟩ := exists_swallower h (not_exists.1 hfile)
      exact ⟨location, node, hfind, .inr hplain, .refl after⟩
  · exact ⟨location, _, hfind, .inl rfl, htouches⟩

end ElmSuite.Disk
