import ElmSuite.Proofs.Disk.FoldersAbove
import ElmSuite.Proofs.OrderedMap
import ElmSuite.Proofs.Run.PatchedScript
import ElmSuite.Proofs.Script.Replacement
import ElmSuite.Proofs.Script.Tagging

/-!
Files made from the text of files.  All that can go wrong with the text does so before anything is
written, and then the disk is as it was; otherwise the new text is all that is new, but for the folders
above it.
-/

namespace ElmSuite

open Act

/-- From one disk to another, bytes were written where a path leads, and all that is new beside them are
folders at some locations. -/
def Disk.Wrote (folders : List String → Prop) (path : Path) (bytes : List UInt8) (before after : Disk) :
    Prop :=
  ∃ location node, after.find path.toString = .ok (location, node) ∧ Disk.Received bytes node ∧
    before.Touches folders (fun other => other = location) after

/-- Rendering fails exactly if the names of the holes are not the keys that have values. -/
theorem Template.exists_render_eq_error_iff (text : List Char) (values : OrderedMap String (List Char))
    (title : Option String) : (∃ cause, render text values title = .error cause) ↔
      ¬ ∀ name, name ∈ holeNames text ↔ name ∈ values.keys := by
  have hsame : (∀ name, name ∈ holeNames text ↔ name ∈ values.keys) ↔
      (holeNames text).filter (fun hole => !values.contains hole) = [] ∧
        values.keys.filter (fun key => !(holeNames text).contains key) = [] := by
    simp only [List.filter_eq_nil_iff, Bool.not_eq_true', Bool.not_eq_false, values.contains_iff,
      List.contains_iff_mem]
    exact ⟨fun h => ⟨fun name => (h name).1, fun name => (h name).2⟩, fun h name => ⟨h.1 name, h.2 name⟩⟩
  rw [hsame, ← List.isEmpty_iff, ← List.isEmpty_iff, ← Bool.and_eq_true]
  unfold render
  dsimp only
  split
  · next hempty => exact ⟨fun ⟨_, h⟩ => (nomatch h), absurd hempty⟩
  · next hsome => exact ⟨fun _ => hsome, fun _ => ⟨_, rfl⟩⟩

namespace Generation

/-- An action makes the text of one file from that of another.  It looks for all that may be wrong with
the text before it writes. -/
structure Transcribes (source target : Path) (make : List Char → Except Failure (List Char))
    (folders : Disk → List String → Prop) (act : Act Path) : Prop where
  unread : ∀ {world fault}, world.disk.readBytes source.toString = .error fault →
    act.run world = (.error (.fault fault), world)
  undecodable : ∀ {world bytes defect}, world.disk.readBytes source.toString = .ok bytes →
    Text.Utf8.decode bytes = .error defect → act.run world = (.error (.fault (.undecodable defect)), world)
  unfit : ∀ {world bytes text cause}, world.disk.readBytes source.toString = .ok bytes →
    Text.Utf8.decode bytes = .ok text → make (Text.normalizeNewlines text) = .error cause →
      (act.run world).1 = .error (.failure cause) ∧ (act.run world).2.disk = world.disk
  written : ∀ {world after value}, act.run world = (.ok value, after) → ∃ bytes text content,
    world.disk.readBytes source.toString = .ok bytes ∧ Text.Utf8.decode bytes = .ok text ∧
      make (Text.normalizeNewlines text) = .ok content ∧
        world.disk.Wrote (folders after.disk) target (Text.Utf8.encode content) after.disk

variable {source target : Path} {make : List Char → Except Failure (List Char)}
  {folders : Disk → List String → Prop}

/-- An action that reads first makes one text of another if the rest does, which has the text. -/
theorem Transcribes.of_readText {next : List Char → Act Path}
    (hunfit : ∀ {world code cause}, make code = .error cause →
      ((next code).run world).1 = .error (.failure cause) ∧ ((next code).run world).2.disk = world.disk)
    (hwritten : ∀ {world after code value}, (next code).run world = (.ok value, after) →
      ∃ content, make code = .ok content ∧
        world.disk.Wrote (folders after.disk) target (Text.Utf8.encode content) after.disk) :
    Transcribes source target make folders (readText source >>= next) := by
  have hread {world : World} {bytes : List UInt8} {text : List Char}
      (h : world.disk.readBytes source.toString = .ok bytes) (hdecode : Text.Utf8.decode bytes = .ok text) :
      world.disk.readText source.toString = .ok (Text.normalizeNewlines text) := by
    rw [Disk.readText, h, ok_bind, hdecode]
  have hbroken {world : World} {bytes : List UInt8} {defect : Text.Utf8Defect}
      (h : world.disk.readBytes source.toString = .ok bytes) (hdecode : Text.Utf8.decode bytes = .error defect) :
      world.disk.readText source.toString = .error (.undecodable defect) := by
    rw [Disk.readText, h, ok_bind, hdecode]
  refine ⟨?_, ?_, ?_, ?_⟩
  · intro world fault h
    have hfault : world.disk.readText source.toString = .error fault := by
      rw [Disk.readText, h]
      rfl
    rw [run_bind, readText, run_look, hfault]
    rfl
  · intro world bytes defect h hdecode
    rw [run_bind, readText, run_look, hbroken h hdecode]
    rfl
  · intro world bytes text cause h hdecode hmake
    rw [run_bind, readText, run_look, hread h hdecode]
    exact hunfit hmake
  · intro world after value h
    obtain ⟨code, _, hlook, hnext⟩ := run_bind_eq_ok.1 h
    obtain ⟨hcode, rfl⟩ := run_look_eq_ok.1 hlook
    obtain ⟨content, hmake, hwrote⟩ := hwritten hnext
    cases hbytes : world.disk.readBytes source.toString with
    | error fault =>
        rw [Disk.readText, hbytes] at hcode
        cases hcode
    | ok bytes =>
        cases hdecode : Text.Utf8.decode bytes with
        | error defect =>
            rw [hbroken hbytes hdecode] at hcode
            cases hcode
        | ok text =>
            rw [hread hbytes hdecode] at hcode
            cases hcode
            exact ⟨bytes, text, content, rfl, hdecode, hmake, hwrote⟩

theorem wrote_of_writeText {path : Path} {content : List Char} {world after : World}
    (h : (writeText path content).run world = (.ok (), after)) :
    world.disk.Wrote (fun _ => False) path (Text.Utf8.encode content) after.disk := by
  obtain ⟨disk, hwrite, rfl⟩ := run_change_eq_ok.1 h
  exact Disk.exists_received_of_writeBytes hwrite

/-- A rendered template is written to a file whose folders are made if they are missing. -/
theorem transcribes_fromFile (template output : Path) (values : OrderedMap String (List Char)) :
    Transcribes template output (fun text => Template.render text values (some template.name))
      (fun disk => disk.Passed output.parent) (fromFile template output values) := by
  refine .of_readText ?_ ?_
  · intro world code cause hmake
    rw [writeRendered, run_bind, run_ofFailure, hmake]
    exact ⟨rfl, rfl⟩
  · intro world after code value h
    obtain ⟨content, _, hrun, h⟩ := run_bind_eq_ok.1 h
    obtain ⟨hrender, rfl⟩ := run_ofFailure_eq_ok.1 hrun
    obtain ⟨_, between, hfolders, h⟩ := run_bind_eq_ok.1 h
    obtain ⟨_, written, hwrite, h⟩ := run_bind_eq_ok.1 h
    cases h
    rw [run_makeFolders] at hfolders
    obtain ⟨-, rfl⟩ := Prod.mk.inj hfolders
    obtain ⟨location, node, hfind, hreceived, htouches⟩ := wrote_of_writeText hwrite
    refine ⟨content, hrender, location, node, hfind, hreceived, ?_⟩
    have hmade := Disk.makeFoldersUpTo_touches_passed output.parent.parts.length output.parent world.disk
    exact (hmade.mono (fun _ hpassed => hpassed.retain htouches.toRetains) fun _ => False.elim).trans
      (htouches.mono (fun _ => False.elim) fun _ heq => heq)

/-- A patched script is written over the one that was read. -/
theorem transcribes_patchFile (tag : Script.IdentityTag) (path : Path) :
    Transcribes path path (Script.patch tag) (fun _ _ => False) (patchFile tag path) := by
  refine .of_readText ?_ ?_
  · intro world code cause hmake
    rw [Script.patch] at hmake
    rw [run_bind, run_ofFailure]
    cases htag : Script.tagConstructors tag code with
    | error trouble =>
        rw [htag] at hmake
        cases hmake
        exact ⟨rfl, rfl⟩
    | ok tagged =>
        rw [htag, ok_bind] at hmake
        cases hcheck : Script.replaceCheck tag tagged with
        | error trouble =>
            rw [hcheck] at hmake
            cases hmake
            dsimp only [Except.mapError]
            rw [run_bind, run_note]
            dsimp only
            rw [run_bind, run_ofFailure, hcheck]
            exact ⟨rfl, rfl⟩
        | ok checked =>
            rw [hcheck] at hmake
            cases hmake
  · intro world after code value h
    obtain ⟨tagged, _, htagged, h⟩ := run_bind_eq_ok.1 h
    obtain ⟨htag, rfl⟩ := run_ofFailure_eq_ok.1 htagged
    obtain ⟨_, _, hnote, h⟩ := run_bind_eq_ok.1 h
    cases hnote
    obtain ⟨checked, _, hchecked, h⟩ := run_bind_eq_ok.1 h
    obtain ⟨hcheck, rfl⟩ := run_ofFailure_eq_ok.1 hchecked
    obtain ⟨_, _, hwrite, h⟩ := run_bind_eq_ok.1 h
    cases h
    have hwrote := wrote_of_writeText hwrite
    refine ⟨Script.allocateSymbol tag checked, ?_, hwrote⟩
    rw [Script.patch, htag, ok_bind, hcheck]
    rfl

/-- What is wrong with a script that cannot be patched is that a pattern is missing. -/
theorem patternNotFound_of_patch {tag : Script.IdentityTag} {code : List Char} {cause : Failure}
    (h : Script.patch tag code = .error cause) : ∃ what, cause = .patternNotFound what := by
  rw [Script.patch, Script.tagConstructors_eq] at h
  split at h
  · cases h
    exact ⟨_, rfl⟩
  · rw [ok_bind, Script.replaceCheck_eq] at h
    split at h
    · cases h
    · cases h
      exact ⟨_, rfl⟩

/-- What is patched is a file. -/
theorem exists_file_of_patchFile {tag : Script.IdentityTag} {path value : Path} {world after : World}
    (h : (patchFile tag path).run world = (.ok value, after)) :
    ∃ location bytes, world.disk.find path.toString = .ok (location, .file bytes) := by
  obtain ⟨code, patched, hread, hpatch, -⟩ := exists_patch_of_patchFile h
  refine exists_file_of_readText hread ?_
  rintro rfl
  rw [Script.patch, tagConstructors_nil] at hpatch
  cases hpatch

/-- Generation that fails before it writes leaves the disk alone, and generation that succeeds changes
the file that it is for and makes the folders that are missing above it. -/
theorem writes_last (template output path : Path) (values : OrderedMap String (List Char))
    (tag : Script.IdentityTag) :
    Transcribes template output (fun text => Template.render text values (some template.name))
      (fun disk => disk.Passed output.parent) (fromFile template output values) ∧
    Transcribes path path (Script.patch tag) (fun _ _ => False) (patchFile tag path) ∧
    (∀ text title, (∃ cause, Template.render text values title = .error cause) ↔
      ¬ ∀ name, name ∈ Template.holeNames text ↔ name ∈ values.keys) ∧
    (∀ code cause, Script.patch tag code = .error cause → ∃ what, cause = .patternNotFound what) ∧
    ∀ world after value, (patchFile tag path).run world = (.ok value, after) →
      ∃ location bytes, world.disk.find path.toString = .ok (location, .file bytes) :=
  ⟨transcribes_fromFile template output values, transcribes_patchFile tag path,
    fun text title => Template.exists_render_eq_error_iff text values title,
    fun _ _ h => patternNotFound_of_patch h, fun _ _ _ h => exists_file_of_patchFile h⟩

end Generation

end ElmSuite
