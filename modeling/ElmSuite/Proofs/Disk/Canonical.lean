import ElmSuite.Proofs.Disk.LinkFree

/-!
Canonical paths.  A strict resolution goes along entries of the disk only, so what it gives is a
location in proper names, and two of them are written alike only if they are the same.  A lenient
resolution also takes names that are not there, but what it gives is still a path with parts, which
is what its text denotes.
-/

namespace ElmSuite.Disk

/-- A disk as an operating system keeps it: its entries have proper names, and the working directory
is a folder on it. -/
structure WellFormed (disk : Disk) : Prop where
  proper : disk.ProperNames
  cwd : ∃ entries, disk.nodeAt? disk.cwd = some (.folder entries)

/-- A resolution that got to a location in proper names. -/
def Resolution.Proper : Resolution → Prop
  | .reached at_ => ∀ name ∈ at_.location, ProperName name
  | .stuck _ => False

variable {disk : Disk}

theorem proper_dropLast {location : List String} (h : ∀ name ∈ location, ProperName name) :
    ∀ name ∈ location.dropLast, ProperName name :=
  fun name hname => h name (List.dropLast_subset _ hname)

/-- The step of a strict resolution: links lead to proper locations if they are followed so. -/
theorem resolveWith_proper (hdisk : disk.ProperNames)
    {onLink : Waypoint → Waypoint → String → Except Fault Resolution}
    (hlink : ∀ above next target resolution, (∀ name ∈ above.location, ProperName name) →
      onLink above next target = .ok resolution → resolution.Proper)
    {at_ : Waypoint} {way : List String} {resolution : Resolution}
    (hat : ∀ name ∈ at_.location, ProperName name)
    (h : disk.resolveWith true onLink at_ way = .ok resolution) : resolution.Proper := by
  induction way generalizing at_ with
  | nil =>
      cases h
      exact hat
  | cons step rest ih =>
      rw [resolveWith] at h
      split at h
      · exact ih hat h
      · split at h
        · exact ih (proper_dropLast hat) h
        · split at h
          · cases h
          · dsimp only at h
            split at h
            · split at h
              · next led hled => exact ih (hlink _ _ _ _ hat hled) h
              · next spelling hled => exact (hlink _ _ _ _ hat hled).elim
              · cases h
            · next below hplain hbelow =>
              refine ih ?_ h
              exact hdisk.of_nodeAt? (nodeAt?_of_lookBelow hbelow)
            · rw [if_pos rfl] at h
              cases h

theorem resolveWay_proper (hdisk : disk.ProperNames) {depth : Nat} {passed : List Path}
    {at_ : Waypoint} {way : List String} {resolution : Resolution}
    (hat : ∀ name ∈ at_.location, ProperName name)
    (h : disk.resolveWay true depth passed at_ way = .ok resolution) : resolution.Proper := by
  induction depth generalizing passed at_ way resolution with
  | zero =>
      refine resolveWith_proper hdisk ?_ hat h
      intro above next target found _ hfound
      dsimp only at hfound
      split at hfound <;> cases hfound
  | succ depth ih =>
      refine resolveWith_proper hdisk ?_ hat h
      intro above next target found habove hfound
      dsimp only at hfound
      split at hfound
      · cases hfound
      · refine ih ?_ hfound
        split
        · simp
        · exact habove

/-- A canonical path is that of a location in proper names that its resolution reaches. -/
theorem exists_reached_of_locate (hdisk : disk.WellFormed) {path found : Path}
    (h : disk.locate path = .ok found) :
    ∃ led, disk.resolution true path = .ok (.reached led) ∧ found = .ofLocation led.location ∧
      ∀ name ∈ led.location, ProperName name := by
  unfold locate at h
  cases hresolution : disk.resolution true path with
  | error fault =>
      rw [hresolution] at h
      cases h
  | ok reached =>
      rw [hresolution] at h
      cases h
      have hproper : reached.Proper := by
        unfold resolution at hresolution
        refine resolveWay_proper hdisk.proper ?_ hresolution
        split
        · obtain ⟨entries, hcwd⟩ := hdisk.cwd
          exact hdisk.proper.of_nodeAt? hcwd
        · simp
      cases reached with
      | reached led => exact ⟨led, rfl, rfl, hproper⟩
      | stuck spelling => exact hproper.elim

theorem exists_location_of_locate (hdisk : disk.WellFormed) {path found : Path}
    (h : disk.locate path = .ok found) :
    ∃ names, found = .ofLocation names ∧ ∀ name ∈ names, ProperName name := by
  obtain ⟨led, -, hfound, hproper⟩ := exists_reached_of_locate hdisk h
  exact ⟨led.location, hfound, hproper⟩

/-! ### Lenient resolutions -/

/-- A resolution whose location is made of parts of paths. -/
def Resolution.InParts : Resolution → Prop
  | .reached at_ => ∀ part ∈ at_.location, Path.IsPart part
  | .stuck _ => True

/-- The step of a lenient resolution. -/
theorem resolveWith_inParts {onLink : Waypoint → Waypoint → String → Except Fault Resolution}
    (hlink : ∀ above next target resolution, (∀ part ∈ above.location, Path.IsPart part) →
      onLink above next target = .ok resolution → resolution.InParts)
    {at_ : Waypoint} {way : List String} {resolution : Resolution}
    (hway : ∀ step ∈ way, '/' ∉ step.toList) (hat : ∀ part ∈ at_.location, Path.IsPart part)
    (h : disk.resolveWith false onLink at_ way = .ok resolution) : resolution.InParts := by
  induction way generalizing at_ with
  | nil =>
      cases h
      exact hat
  | cons step rest ih =>
      rw [List.forall_mem_cons] at hway
      rw [resolveWith] at h
      split at h
      · exact ih hway.2 hat h
      · next hstep =>
        split at h
        · exact ih hway.2 (fun part hpart => hat part (List.dropLast_subset _ hpart)) h
        · have hpart : Path.IsPart step := by
            simp only [Bool.or_eq_true, String.isEmpty_iff, beq_iff_eq, not_or] at hstep
            exact ⟨hstep.1, hway.1, hstep.2⟩
          have hnext : ∀ part ∈ (at_.down step).location, Path.IsPart part :=
            List.forall_mem_append.2 ⟨hat, List.forall_mem_singleton.2 hpart⟩
          split at h
          · cases h
          · dsimp only at h
            split at h
            · split at h
              · next led hled => exact ih hway.2 (hlink _ _ _ _ hat hled) h
              · cases h
                trivial
              · cases h
            · exact ih hway.2 hnext h
            · exact ih hway.2 hnext h

theorem resolveWay_inParts {depth : Nat} {passed : List Path} {at_ : Waypoint} {way : List String}
    {resolution : Resolution} (hway : ∀ step ∈ way, '/' ∉ step.toList)
    (hat : ∀ part ∈ at_.location, Path.IsPart part)
    (h : disk.resolveWay false depth passed at_ way = .ok resolution) : resolution.InParts := by
  induction depth generalizing passed at_ way resolution with
  | zero =>
      refine resolveWith_inParts ?_ hway hat h
      intro above next target found _ hfound
      dsimp only at hfound
      split at hfound <;> cases hfound <;> trivial
  | succ depth ih =>
      refine resolveWith_inParts ?_ hway hat h
      intro above next target found habove hfound
      dsimp only at hfound
      split at hfound
      · cases hfound
        trivial
      · refine ih ?_ ?_ hfound
        · intro step hstep
          obtain ⟨chars, hchars, rfl⟩ := List.mem_map.1 hstep
          rw [String.toList_ofList]
          exact not_mem_of_mem_splitOn hchars
        · split
          · simp
          · exact habove

theorem isPart_of_mem_namesFrom {base parts : List String} (hbase : ∀ part ∈ base, Path.IsPart part)
    (hparts : ∀ part ∈ parts, Path.IsPart part) :
    ∀ part ∈ parts.foldl Path.stepName base, Path.IsPart part := by
  induction parts generalizing base with
  | nil => exact hbase
  | cons first rest ih =>
      rw [List.forall_mem_cons] at hparts
      apply ih _ hparts.2
      unfold Path.stepName
      split
      · exact fun part hpart => hbase part (List.dropLast_subset _ hpart)
      · exact List.forall_mem_append.2 ⟨hbase, List.forall_mem_singleton.2 hparts.1⟩

/-- A path that is canonical as far as it exists is made of parts. -/
theorem isPart_of_locateLeniently (hcwd : ∀ part ∈ disk.cwd, Path.IsPart part) {given : String}
    {found : Path} (h : disk.locateLeniently (.ofString given) = .ok found) :
    ∀ part ∈ found.parts, Path.IsPart part := by
  unfold locateLeniently at h
  cases hresolution : disk.resolution false (.ofString given) with
  | error fault =>
      rw [hresolution] at h
      cases h
  | ok resolution =>
      rw [hresolution, ok_bind] at h
      have hinParts : resolution.InParts := by
        refine resolveWay_inParts (fun step hstep => (Path.isPart_of_mem_ofString hstep).noSlash) ?_
          hresolution
        split
        · exact hcwd
        · simp
      have hfound : ∀ part ∈ (resolution.path disk.cwd).parts, Path.IsPart part := by
        cases resolution with
        | reached at_ => exact hinParts
        | stuck spelling =>
            refine isPart_of_mem_namesFrom ?_ fun part hpart => Path.isPart_of_mem_ofString hpart
            split
            · exact hcwd
            · simp
      dsimp only at h
      split at h
      · cases h
      · cases h
      · cases h
        exact hfound

end ElmSuite.Disk

namespace ElmSuite.Path

theorem toString_ofLocation_inj {first second : List String}
    (hfirst : ∀ name ∈ first, ProperName name) (hsecond : ∀ name ∈ second, ProperName name)
    (h : (ofLocation first).toString = (ofLocation second).toString) : first = second := by
  have hnamed := (spells_ofLocation hfirst).named
  rw [h, (spells_ofLocation hsecond).named] at hnamed
  exact hnamed.symm

end ElmSuite.Path
