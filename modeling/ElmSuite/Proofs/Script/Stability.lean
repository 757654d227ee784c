import ElmSuite.Proofs.Run.PatchedScript
import ElmSuite.Proofs.Script.Passes
import ElmSuite.Proofs.Text.Utf8

/-!
The patch on its own output.  Every patch takes one placeholder definition away and keeps everything
else that it looks for, so code without placeholder definitions stays as it is.
-/

namespace ElmSuite

namespace Script

open Text

variable {tag : IdentityTag} {code out : List Char}

/-- A further patch always succeeds; all that it does is to replace a placeholder definition. -/
theorem Patched.patch (htag : tag.Plain) (h : Patched tag code) :
    patch tag code = .ok (replacedCode tag code) := by
  have hsymbol : tag.allocationLine.toList <+: replacedCode tag (taggedCode tag code) :=
    (allocationLine_prefix_passes htag code).2 h.symbol
  refine (patch_eq_ok htag).2 ⟨h.constructors, .inr h.check, ?_⟩
  rw [allocateSymbol_eq, if_pos (List.isPrefixOf_iff_prefix.2 hsymbol), h.tagged, List.nil_append]

theorem Patched.patch_eq_self (htag : tag.Plain) (h : Patched tag code)
    (hnone : placeholderCount true code = 0) : Script.patch tag code = .ok code := by
  rw [h.patch htag, replacedCode_of_none hnone]

/-- A number of patches one after the other. -/
def patchTimes (tag : IdentityTag) : Nat → List Char → Except Failure (List Char)
  | 0, code => .ok code
  | times + 1, code => patch tag code >>= patchTimes tag times

/-- As many further patches as there are placeholder definitions leave code that stays as it is. -/
theorem Patched.exists_stable (htag : tag.Plain) {times : Nat} (h : Patched tag code)
    (htimes : placeholderCount true code = times) :
    ∃ stable, patchTimes tag times code = .ok stable ∧ Script.patch tag stable = .ok stable := by
  induction times generalizing code with
  | zero => exact ⟨code, rfl, h.patch_eq_self htag htimes⟩
  | succ times ih =>
      have hpatch := h.patch htag
      obtain ⟨hnext, hcount⟩ := patched_of_patch htag hpatch
      obtain ⟨stable, hstable, hfixed⟩ := ih hnext (by omega)
      exact ⟨stable, by rw [patchTimes, hpatch, ok_bind, hstable], hfixed⟩

/-! ### Scripts on disk -/

theorem mem_taggedCode (htag : tag.Plain) {c : Char} (h : c ∈ taggedCode tag code) :
    c ∈ code ∨ c ∈ tag.fieldText.toList := by
  induction code using paragraph_induction with
  | nil => exact .inl (by rwa [taggedCode_nil] at h)
  | paragraph text behind hne hparagraph ih =>
      rw [taggedCode_append htag hparagraph hne, List.mem_append] at h
      rw [List.mem_append]
      rcases h with h | h
      · cases kind htag text with
        | other hnone =>
            rw [taggedParagraph_of_other hnone] at h
            exact .inl (.inl h)
        | untagged hdefinition hrecord =>
            rw [taggedParagraph_of_untagged hdefinition hrecord, List.mem_append, List.mem_append] at h
            rw [List.mem_append]
            tauto
        | tagged hdefinition hfield =>
            rw [taggedParagraph_of_tagged hdefinition htag hfield] at h
            exact .inl (.inl h)
      · exact (ih h).imp_left .inr

theorem mem_replacedCode {c : Char} (h : c ∈ replacedCode tag code) :
    c ∈ code ∨ c ∈ checkValue tag := by
  induction code using paragraph_induction with
  | nil => exact .inl h
  | paragraph text behind hne hparagraph ih =>
      rw [replacedCode_append hparagraph hne, List.mem_append] at h
      rw [List.mem_append]
      rcases h with h | h
      · unfold replacedParagraph at h
        split at h
        · next left after hfound =>
          obtain ⟨-, right, -, rfl, -⟩ := placeholder?_eq_some.1 hfound
          simp only [List.mem_append] at h ⊢
          tauto
        · exact .inl (.inl h)
      · split at h
        · exact .inl (.inr h)
        · exact (ih h).imp_left .inr

/-- A patch brings in no carriage return. -/
theorem carriageReturn_not_mem_of_patch (htag : tag.Plain) (h : patch tag code = .ok out)
    (hcode : '\r' ∉ code) : '\r' ∉ out := by
  have hfield : '\r' ∉ tag.field.toList := fun hc => absurd (htag.field _ hc) (by decide)
  have hbinding : '\r' ∉ tag.binding.toList := fun hc => absurd (htag.binding _ hc) (by decide)
  have hdescription : '\r' ∉ tag.description.toList := fun hc => (htag.description _ hc).2 rfl
  obtain ⟨-, -, rfl⟩ := (patch_eq_ok htag).1 h
  rw [allocateSymbol_eq, List.mem_append, not_or]
  constructor
  · split
    · exact List.not_mem_nil
    · simp [allocation, IdentityTag.allocationLine, hbinding, hdescription]
  · intro hmem
    rcases mem_replacedCode hmem with hmem | hmem
    · rcases mem_taggedCode htag hmem with hmem | hmem
      · exact hcode hmem
      · simp [IdentityTag.fieldText, hfield, hbinding] at hmem
    · simp only [checkValue_eq, checkRest, String.toList_append, List.mem_append, hfield, hbinding] at hmem
      exact absurd hmem (by decide)

end Script

open Act

theorem carriageReturn_not_mem_normalizeNewlines (text : List Char) :
    '\r' ∉ Text.normalizeNewlines text := by
  induction text using Text.normalizeNewlines.induct with
  | case1 => exact List.not_mem_nil
  | case2 rest ih =>
      rw [Text.normalizeNewlines]
      exact List.not_mem_cons_of_ne_of_not_mem (by decide) ih
  | case3 rest hpair ih =>
      rw [Text.normalizeNewlines]
      · exact List.not_mem_cons_of_ne_of_not_mem (by decide) ih
      · exact hpair
  | case4 c rest hpair hreturn ih =>
      rw [Text.normalizeNewlines]
      · exact List.not_mem_cons_of_ne_of_not_mem (fun hc => hreturn hc.symm) ih
      · exact hpair
      · exact hreturn

theorem exists_normalized_of_readText {disk : Disk} {path : String} {code : List Char}
    (h : disk.readText path = .ok code) : ∃ text, Text.normalizeNewlines text = code := by
  obtain ⟨bytes, -, hdecode⟩ := bind_eq_ok.1 h
  split at hdecode
  · next text htext => exact ⟨text, Except.ok.inj hdecode⟩
  · cases hdecode

/-- A file can be written again. -/
theorem Disk.exists_writeBytes {disk : Disk} {path : String} {location : List String} {old : List UInt8}
    (h : disk.find path = .ok (location, .file old)) (bytes : List UInt8) :
    ∃ after, disk.writeBytes path bytes = .ok after :=
  ⟨disk.put location (.file bytes), by rw [writeBytes, find_eq_ok.1 h]; rfl⟩

/-- A file that the patch fits holds the patch of its text afterwards. -/
theorem Generation.exists_run_patchFile {tag : Script.IdentityTag} {path : Path} {world : World}
    {code out : List Char} (hread : world.disk.readText path.toString = .ok code)
    (hpatch : Script.patch tag code = .ok out) :
    ∃ after, (patchFile tag path).run world = (.ok path, after) ∧
      after.disk.readBytes path.toString = .ok (Text.Utf8.encode out) := by
  have hne : code ≠ [] := by
    rintro rfl
    rw [Script.patch, tagConstructors_nil] at hpatch
    cases hpatch
  obtain ⟨location, old, hfile⟩ := exists_file_of_readText hread hne
  obtain ⟨tagged, htagged, hrest⟩ := bind_eq_ok.1 hpatch
  obtain ⟨checked, hchecked, hout⟩ := bind_eq_ok.1 hrest
  obtain ⟨disk, hwrite⟩ := Disk.exists_writeBytes hfile
    (Text.Utf8.encode (Script.allocateSymbol tag checked))
  have hrun : ∃ after, (patchFile tag path).run world = (.ok path, after) :=
    ⟨_, run_bind_eq_ok.2 ⟨code, world, run_look_eq_ok.2 ⟨hread, rfl⟩,
      run_bind_eq_ok.2 ⟨tagged, world, run_ofFailure_eq_ok.2 ⟨htagged, rfl⟩,
        run_bind_eq_ok.2 ⟨(), _, run_note _ _ world,
          run_bind_eq_ok.2 ⟨checked, _, run_ofFailure_eq_ok.2 ⟨hchecked, rfl⟩,
            run_bind_eq_ok.2 ⟨(), _, run_change_eq_ok.2 ⟨disk, hwrite, rfl⟩, rfl⟩⟩⟩⟩⟩⟩
  obtain ⟨after, hrun⟩ := hrun
  obtain ⟨code', patched, hread', hpatch', location', hfind⟩ := exists_patch_of_patchFile hrun
  obtain rfl := Except.ok.inj (hread.symm.trans hread')
  obtain rfl := Except.ok.inj (hpatch.symm.trans hpatch')
  exact ⟨after, hrun, by rw [Disk.readBytes, hfind]; rfl⟩

namespace Script

open Text

/-- As many patches as there are placeholder definitions, and at least one, leave a text that stays
as it is.  With at most one definition a single patch does, also of a file. -/
theorem patch_stabilizes {tag : IdentityTag} {code out : List Char} (htag : tag.Plain)
    (h : patch tag code = .ok out) :
    (∃ stable, patchTimes tag (max 1 (placeholderCount true code)) code = .ok stable ∧
      patch tag stable = .ok stable) ∧
    (placeholderCount true code ≤ 1 → patch tag out = .ok out ∧
      ∀ (path : Path) (world : World), world.disk.readText path.toString = .ok code →
        ∃ once twice, (Generation.patchFile tag path).run world = (.ok path, once) ∧
          (Generation.patchFile tag path).run once = (.ok path, twice) ∧
          once.disk.readBytes path.toString = .ok (Utf8.encode out) ∧
          twice.disk.readBytes path.toString = once.disk.readBytes path.toString) := by
  obtain ⟨hpatched, hcount⟩ := patched_of_patch htag h
  constructor
  · obtain ⟨stable, hstable, hfixed⟩ := hpatched.exists_stable htag hcount
    refine ⟨stable, ?_, hfixed⟩
    rw [show max 1 (placeholderCount true code) = placeholderCount true code - 1 + 1 by omega,
      patchTimes, h, ok_bind, hstable]
  · intro hone
    have hfixed := hpatched.patch_eq_self htag (by omega)
    refine ⟨hfixed, fun path world hread => ?_⟩
    obtain ⟨once, hrun, hbytes⟩ := Generation.exists_run_patchFile hread h
    have hreturn : '\r' ∉ code := by
      obtain ⟨text, rfl⟩ := exists_normalized_of_readText hread
      exact carriageReturn_not_mem_normalizeNewlines text
    have hread' : once.disk.readText path.toString = .ok out := by
      rw [Disk.readText, hbytes, ok_bind, Utf8.decode_encode]
      exact congrArg _ (normalizeNewlines_eq_self (carriageReturn_not_mem_of_patch htag h hreturn))
    obtain ⟨twice, hrun', hbytes'⟩ := Generation.exists_run_patchFile hread' hfixed
    exact ⟨once, twice, hrun, hrun', hbytes, hbytes'.trans hbytes.symm⟩

/-- A world with the small script. -/
def scriptWorld : World :=
  ⟨⟨.folder [("a.js", .file (Utf8.encode smallScript))], []⟩, [], []⟩

theorem patch_stabilizes_small_script :
    ∃ out once twice, patch {} smallScript = .ok out ∧ patch {} out = .ok out ∧
      (Generation.patchFile {} (.ofLocation ["a.js"])).run scriptWorld =
        (.ok (.ofLocation ["a.js"]), once) ∧
      (Generation.patchFile {} (.ofLocation ["a.js"])).run once = (.ok (.ofLocation ["a.js"]), twice) ∧
      twice.disk.readBytes (Path.ofLocation ["a.js"]).toString = .ok (Utf8.encode out) := by
  obtain ⟨hconstructors, hcount, hreturn⟩ := smallScript_spec
  have hread : scriptWorld.disk.readText (Path.ofLocation ["a.js"]).toString = .ok smallScript := by
    have hproper : ∀ name ∈ ["a.js"], ProperName name := by decide
    have hfind : scriptWorld.disk.find (Path.ofLocation ["a.js"]).toString =
        .ok (["a.js"], .file (Utf8.encode smallScript)) :=
      Disk.find_of_nodeAt? (Path.spells_ofLocation hproper) hproper (by decide) rfl nofun (by decide)
    simp only [Disk.readText, Disk.readBytes, hfind, ok_bind, Utf8.decode_encode,
      normalizeNewlines_eq_self hreturn]
  obtain ⟨out, hout⟩ : ∃ out, patch {} smallScript = .ok out := by
    refine ⟨_, (patch_eq_ok plain_default).2 ⟨hconstructors, .inl ?_, rfl⟩⟩
    rw [hcount]
    exact Nat.one_ne_zero
  obtain ⟨hfixed, hfile⟩ := (patch_stabilizes plain_default hout).2 hcount.le
  obtain ⟨once, twice, hrun, hrun', hbytes, hsame⟩ := hfile _ _ hread
  exact ⟨out, once, twice, hout, hfixed, hrun, hrun', hsame.trans hbytes⟩

end Script

end ElmSuite
