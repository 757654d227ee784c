import Mathlib.Data.List.Basic
import ElmSuite.Manifest.File
import ElmSuite.Proofs.Disk.Passage
import ElmSuite.Proofs.Elm.ModuleNaming
import ElmSuite.Proofs.World.Actions

/-!
The search for the root of a project.  It goes up from a folder and ends at the nearest one that holds a
manifest, unless it comes before that to one in which the system refuses to look.
-/

namespace ElmSuite

namespace Path

variable {p q r : Path}

theorem LiesUnder.refl (p : Path) : p.LiesUnder p :=
  ⟨rfl, List.prefix_rfl⟩

theorem LiesUnder.trans (hpq : p.LiesUnder q) (hqr : q.LiesUnder r) : p.LiesUnder r :=
  ⟨hpq.1.trans hqr.1, hqr.2.trans hpq.2⟩

theorem LiesUnder.antisymm (hpq : p.LiesUnder q) (hqp : q.LiesUnder p) : p = q := by
  have hparts : q.parts = p.parts := hpq.2.eq_of_length_le hqp.2.length_le
  cases p
  cases q
  exact Path.mk.injEq .. ▸ ⟨hpq.1, hparts.symm⟩

/-- Of two folders above a path, one is above the other. -/
theorem LiesUnder.total (hq : p.LiesUnder q) (hr : p.LiesUnder r) : q.LiesUnder r ∨ r.LiesUnder q :=
  (List.prefix_or_prefix_of_prefix hq.2 hr.2).symm.imp (⟨hq.1.symm.trans hr.1, ·⟩) (⟨hr.1.symm.trans hq.1, ·⟩)

/-- What is above a path is the path or above its parent. -/
theorem liesUnder_iff_parent : p.LiesUnder q ↔ p = q ∨ p.parent.LiesUnder q := by
  have hparent : p.LiesUnder p.parent := ⟨rfl, List.dropLast_prefix p.parts⟩
  refine ⟨fun ⟨hanchor, hparts⟩ => ?_, ?_⟩
  · rcases List.eq_nil_or_concat p.parts with hnil | ⟨front, last, hconcat⟩
    · refine .inr ⟨hanchor, ?_⟩
      rw [parent, hnil]
      rwa [hnil] at hparts
    · rw [List.concat_eq_append] at hconcat
      rw [hconcat, List.prefix_concat_iff] at hparts
      rcases hparts with hwhole | hfront
      · have hsame : q.parts = p.parts := hwhole.trans hconcat.symm
        exact .inl (LiesUnder.antisymm ⟨hanchor, hsame ▸ List.prefix_rfl⟩ ⟨hanchor.symm, hsame ▸ List.prefix_rfl⟩)
      · refine .inr ⟨hanchor, ?_⟩
        rw [parent, hconcat, List.dropLast_concat]
        exact hfront
  · rintro (rfl | hup)
    · exact .refl p
    · exact hparent.trans hup

/-- Of the folders at or above a path, the nearest one with a property. -/
structure Nearest (P : Path → Prop) (p folder : Path) : Prop where
  above : p.LiesUnder folder
  has : P folder
  first : ∀ other, p.LiesUnder other → other.LiesUnder folder → P other → other = folder

theorem nearest_self {P : Path → Prop} (h : P p) : Nearest P p p :=
  ⟨.refl p, h, fun _ hother hp _ => hp.antisymm hother⟩

theorem Nearest.of_parent {P : Path → Prop} {folder : Path} (h : Nearest P p.parent folder) (hp : ¬ P p) :
    Nearest P p folder where
  above := liesUnder_iff_parent.2 (.inr h.above)
  has := h.has
  first other hother hfolder hP := by
    rcases liesUnder_iff_parent.1 hother with rfl | hup
    · exact absurd hP hp
    · exact h.first other hup hfolder hP

theorem Nearest.unique {P : Path → Prop} {folder other : Path} (h : Nearest P p folder)
    (hother : Nearest P p other) : folder = other := by
  rcases h.above.total hother.above with hle | hle
  · exact hother.first folder h.above hle h.has
  · exact (h.first other hother.above hle hother.has).symm

end Path

namespace Disk

variable {disk : Disk} {text : String}

theorem path_of_find {error : OsError} (h : disk.find text = .error (.os error)) : error.path = text := by
  unfold find place at h
  split at h
  · cases h
  · split at h
    · cases h
      rfl
    · split at h
      · cases h
        rfl
      · dsimp only at h
        split at h
        · next place hwalk =>
          cases place <;> cases h
          rfl
        · cases h
          rfl

/-- Only a name that the system cannot take keeps it from saying whether there is a file. -/
theorem checkFile_cases (disk : Disk) (text : String) :
    disk.checkFile text = .ok (disk.isFile text) ∧ disk.find text ≠ .error (.refused .nameTooLong text) ∨
      disk.checkFile text = .error (.refused .nameTooLong text) ∧
        disk.find text = .error (.refused .nameTooLong text) := by
  unfold checkFile isFile
  rcases hfind : disk.find text with (⟨errno, refused⟩ | _) | ⟨location, node⟩
  · have hpath : refused = text := path_of_find hfind
    subst hpath
    cases errno <;> simp [Fault.refused]
  all_goals simp [Fault.refused]

end Disk

namespace ManifestFile

open Act Path

variable {disk : Disk} {start : String} {current folder : Path} {world : World}

/-- A folder holds a manifest. -/
def Holds (disk : Disk) (folder : Path) : Prop :=
  disk.isFile (folder.child fileName).toString = true

/-- The system refuses to look for a manifest in a folder, whose path is too long for it. -/
def Refused (disk : Disk) (folder : Path) : Prop :=
  disk.find (folder.child fileName).toString =
    .error (.refused .nameTooLong (folder.child fileName).toString)

/-- Where the search for a root ends. -/
def Ends (disk : Disk) (folder : Path) : Prop :=
  Holds disk folder ∨ Refused disk folder

/-- One step of the search. -/
theorem firstWithManifest_cons (disk : Disk) (folder : Path) (rest : List Path) :
    Holds disk folder ∧ firstWithManifest disk (folder :: rest) = .ok (some folder) ∨
      Refused disk folder ∧ firstWithManifest disk (folder :: rest) =
        .error (.refused .nameTooLong (folder.child fileName).toString) ∨
      ¬ Ends disk folder ∧ firstWithManifest disk (folder :: rest) = firstWithManifest disk rest := by
  rw [firstWithManifest]
  rcases disk.checkFile_cases (folder.child fileName).toString with ⟨hcheck, hfind⟩ | ⟨hcheck, hfind⟩
  · rw [hcheck, ok_bind]
    cases hfile : disk.isFile (folder.child fileName).toString with
    | true => exact .inl ⟨hfile, rfl⟩
    | false =>
        refine .inr (.inr ⟨?_, rfl⟩)
        rintro (hholds | hrefused)
        · rw [Holds, hfile] at hholds
          cases hholds
        · exact hfind hrefused
  · rw [hcheck]
    exact .inr (.inl ⟨hfind, rfl⟩)

/-- The search goes up to the nearest folder at which it ends, or past all folders. -/
theorem firstWithManifest_upwards (disk : Disk) (depth : Nat) {current : Path}
    (hdepth : current.parts.length ≤ depth) :
    (∃ folder, Nearest (Ends disk) current folder ∧
      (Holds disk folder ∧ firstWithManifest disk (upwards depth current) = .ok (some folder) ∨
        Refused disk folder ∧ firstWithManifest disk (upwards depth current) =
          .error (.refused .nameTooLong (folder.child fileName).toString))) ∨
      (∀ folder, current.LiesUnder folder → ¬ Ends disk folder) ∧
        firstWithManifest disk (upwards depth current) = .ok none := by
  induction depth generalizing current with
  | zero =>
      rcases firstWithManifest_cons disk current [] with ⟨hholds, hfound⟩ | ⟨hrefused, hfound⟩ | ⟨hends, hfound⟩
      · exact .inl ⟨current, nearest_self (.inl hholds), .inl ⟨hholds, hfound⟩⟩
      · exact .inl ⟨current, nearest_self (.inr hrefused), .inr ⟨hrefused, hfound⟩⟩
      · refine .inr ⟨fun folder hfolder => ?_, hfound⟩
        have hnil : current.parts = [] := List.length_eq_zero_iff.1 (Nat.le_zero.1 hdepth)
        have hsame : current = folder :=
          hfolder.antisymm ⟨hfolder.1.symm, hnil ▸ List.nil_prefix⟩
        exact hsame ▸ hends
  | succ depth ih =>
      rcases firstWithManifest_cons disk current (upwards depth current.parent) with
        ⟨hholds, hfound⟩ | ⟨hrefused, hfound⟩ | ⟨hends, hfound⟩
      · exact .inl ⟨current, nearest_self (.inl hholds), .inl ⟨hholds, hfound⟩⟩
      · exact .inl ⟨current, nearest_self (.inr hrefused), .inr ⟨hrefused, hfound⟩⟩
      · have hparent : current.parent.parts.length ≤ depth := by
          rw [Path.parent, List.length_dropLast]
          omega
        rw [upwards, hfound]
        rcases ih hparent with ⟨folder, hnearest, hresult⟩ | ⟨hnone, hresult⟩
        · exact .inl ⟨folder, hnearest.of_parent hends, hresult⟩
        · refine .inr ⟨fun folder hfolder => ?_, hresult⟩
          rcases liesUnder_iff_parent.1 hfolder with rfl | hup
          · exact hends
          · exact hnone folder hup

theorem not_refused_of_holds (h : Holds disk folder) : ¬ Refused disk folder := by
  intro hrefused
  rw [Holds, Disk.isFile, hrefused] at h
  cases h

/-- The root that a search is to find: the nearest folder that holds a manifest, and the system looks into
all folders up to it. -/
structure Selects (disk : Disk) (current root : Path) : Prop where
  nearest : Nearest (Holds disk) current root
  looks : ∀ folder, current.LiesUnder folder → folder.LiesUnder root → ¬ Refused disk folder

theorem selects_iff : Selects disk current folder ↔ Nearest (Ends disk) current folder ∧ Holds disk folder := by
  constructor
  · intro h
    refine ⟨⟨h.nearest.above, .inl h.nearest.has, fun other hother hfolder hends => ?_⟩, h.nearest.has⟩
    rcases hends with hholds | hrefused
    · exact h.nearest.first other hother hfolder hholds
    · exact absurd hrefused (h.looks other hother hfolder)
  · rintro ⟨h, hholds⟩
    refine ⟨⟨h.above, hholds, fun other hother hfolder hother' => h.first other hother hfolder (.inl hother')⟩,
      fun other hother hfolder hrefused => ?_⟩
    rw [h.first other hother hfolder (.inr hrefused)] at hrefused
    exact not_refused_of_holds hholds hrefused

/-- How the search for a root goes from a folder: it finds the nearest folder that holds a manifest, or
there is none; unless the system refuses to look in a folder that is nearer. -/
structure Searches (start : String) (current : Path) (world : World) : Prop where
  found : ∀ root, (findRoot start).run world = (.ok root, world) ↔ Selects world.disk current root
  missing : (findRoot start).run world = (.error (.failure (.projectRootNotFound current.toString)), world) ↔
    ∀ folder, current.LiesUnder folder → ¬ Ends world.disk folder
  refused : ∀ folder, Nearest (Ends world.disk) current folder → Refused world.disk folder →
    (findRoot start).run world =
      (.error (.fault (.refused .nameTooLong (folder.child fileName).toString)), world)

/-- The search from a start whose links can be followed. -/
theorem searches_of_locateLeniently (world : World) (h : world.disk.locateLeniently (.ofString start) = .ok current) :
    Searches start current world := by
  have hrun : (findRoot start).run world =
      match firstWithManifest world.disk (upwards current.parts.length current) with
      | .ok (some folder) => (.ok folder, world)
      | .ok none => (.error (.failure (.projectRootNotFound current.toString)), world)
      | .error fault => (.error (.fault fault), world) := by
    rw [findRoot, run_bind, Act.locateLeniently, run_look, h]
    simp only [Except.mapError, run_bind, run_look]
    rcases firstWithManifest world.disk (upwards current.parts.length current) with fault | (_ | folder) <;> rfl
  rcases firstWithManifest_upwards world.disk current.parts.length (Nat.le_refl _) with
    ⟨folder, hnearest, ⟨hholds, hfound⟩ | ⟨hrefused, hfound⟩⟩ | ⟨hnone, hfound⟩
  · rw [hfound] at hrun
    refine ⟨fun other => ?_, ?_, fun other hother hlong => ?_⟩
    · rw [hrun, selects_iff]
      constructor
      · intro heq
        cases heq
        exact ⟨hnearest, hholds⟩
      · rintro ⟨hother, -⟩
        rw [hnearest.unique hother]
    · rw [hrun]
      exact ⟨fun heq => (by cases heq), fun hnone => absurd hnearest.has (hnone folder hnearest.above)⟩
    · rw [← hnearest.unique hother] at hlong
      exact absurd hlong (not_refused_of_holds hholds)
  · rw [hfound] at hrun
    refine ⟨fun other => ?_, ?_, fun other hother _ => ?_⟩
    · rw [hrun]
      refine ⟨fun heq => (by cases heq), fun hother => ?_⟩
      obtain ⟨hends, hholds⟩ := selects_iff.1 hother
      rw [← hnearest.unique hends] at hholds
      exact absurd hrefused (not_refused_of_holds hholds)
    · rw [hrun]
      exact ⟨fun heq => (by cases heq), fun hnone => absurd hnearest.has (hnone folder hnearest.above)⟩
    · rw [hrun, hnearest.unique hother]
  · rw [hfound] at hrun
    refine ⟨fun other => ?_, ⟨fun _ => hnone, fun _ => hrun⟩, fun other hother _ => ?_⟩
    · rw [hrun]
      exact ⟨fun heq => (by cases heq), fun hother =>
        absurd (.inl hother.nearest.has) (hnone other hother.nearest.above)⟩
    · exact absurd hother.has (hnone other hother.above)

/-- An empty start is the working directory. -/
theorem locateLeniently_empty (disk : Disk) (hdisk : disk.ProperNames) {entries : List (String × Node)}
    (h : disk.nodeAt? disk.cwd = some (.folder entries)) :
    disk.locateLeniently (.ofString "") = .ok (.ofLocation disk.cwd) := by
  have hresolution : disk.resolution false (.ofString "") = .ok (.reached ⟨disk.cwd, ⟨.here, []⟩⟩) := rfl
  exact Disk.locateLeniently_of_resolution hresolution rfl (Disk.plainly_of_folder (hdisk.of_nodeAt? h) h)

end ManifestFile

end ElmSuite
