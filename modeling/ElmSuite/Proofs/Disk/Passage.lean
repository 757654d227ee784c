import ElmSuite.Proofs.Disk.Denotation
import ElmSuite.Proofs.Disk.Surplus

/-!
The locations that a way passes, and what they mean for a surplus.  A lenient resolution goes the same
way on a disk and on one that has more folders and files; a strict one does so if its way passes none
of them.
-/

namespace ElmSuite.Disk

/-- A way from a folder comes to a location, the ways of its links included.  A step up takes the last
name away, whatever stands there. -/
inductive Passes (disk : Disk) : List String → List String → List String → Prop
  | here {folder way : List String} : Passes disk folder way folder
  | stay {folder rest location : List String} {step : String} (hidle : isIdle step = true)
      (hrest : Passes disk folder rest location) : Passes disk folder (step :: rest) location
  | up {folder rest location : List String} (hrest : Passes disk folder.dropLast rest location) :
      Passes disk folder (".." :: rest) location
  | down {folder rest location : List String} {step : String} {node : Node}
      (hidle : isIdle step = false) (hup : step ≠ "..")
      (hnode : disk.nodeAt? (folder ++ [step]) = some node) (hplain : ∀ target, node ≠ .link target)
      (hrest : Passes disk (folder ++ [step]) rest location) : Passes disk folder (step :: rest) location
  | follow {folder rest location : List String} {step target : String} (hidle : isIdle step = false)
      (hup : step ≠ "..") (hlink : disk.nodeAt? (folder ++ [step]) = some (.link target))
      (hrest : Passes disk (if isAbsolute target then [] else folder) (Path.pieces target ++ rest)
        location) :
      Passes disk folder (step :: rest) location

variable {disk bare full : Disk} {folder way more location : List String} {step : String}

/-- A way passes what a way passes that it starts with. -/
theorem Passes.append (h : Passes disk folder way location) (more : List String) :
    Passes disk folder (way ++ more) location := by
  induction h with
  | here => exact .here
  | stay hidle _ ih => exact .stay hidle ih
  | up _ ih => exact .up ih
  | down hidle hup hnode hplain _ ih => exact .down hidle hup hnode hplain ih
  | follow hidle hup hlink _ ih =>
      rw [List.append_assoc] at ih
      exact .follow hidle hup hlink ih

/-- A way that is crossed passes everything that is passed from where it ends. -/
theorem Crosses.passes {size : Nat} {led : List String} (h : Crosses disk size folder way led)
    (hmore : Passes disk led more location) : Passes disk folder (way ++ more) location := by
  induction h generalizing more location with
  | here => exact hmore
  | stay hidle _ ih => exact .stay hidle (ih hmore)
  | up hup _ ih =>
      subst hup
      exact .up (ih hmore)
  | down hidle hup hnode hplain _ ih => exact .down hidle hup hnode hplain (ih hmore)
  | follow hidle hup hlink _ _ ihtarget ihrest =>
      exact .follow hidle hup hlink (ihtarget (ihrest hmore))

theorem passes_of_resolveWay {depth : Nat} {open_ : List Path} {at_ led : Waypoint}
    (h : disk.resolveWay true depth open_ at_ way = .ok (.reached led))
    (hmore : Passes disk led.location more location) :
    Passes disk at_.location (way ++ more) location := by
  obtain ⟨size, hcrosses⟩ := crosses_of_resolveWay h
  exact hcrosses.passes hmore

/-- A way along names on which no link stands only passes what these names lead to. -/
theorem Passes.prefix_of_noLinkOn {rest : List String} (hproper : ∀ name ∈ rest, ProperName name)
    (hlink : disk.NoLinkOn (folder ++ rest)) (h : Passes disk folder rest location) :
    location <+: folder ++ rest := by
  induction h with
  | here => exact List.prefix_append _ _
  | stay hidle _ _ =>
      rw [isIdle, (step_of_properName (hproper _ List.mem_cons_self)).1] at hidle
      cases hidle
  | up _ _ => exact absurd rfl (hproper _ List.mem_cons_self).notAbove
  | down _ _ _ _ _ ih =>
      rw [List.append_cons] at hlink ⊢
      exact ih (List.forall_mem_cons.1 hproper).2 hlink
  | @follow folder rest location step target _ _ hnode _ _ =>
      rw [List.append_cons] at hlink
      have hnone := hlink (folder ++ [step]).length target
      rw [List.take_left] at hnone
      exact absurd hnode hnone

/-- The location that a path starts from. -/
def startOf (disk : Disk) (path : Path) : List String :=
  if path.anchor = .here then disk.cwd else []

/-- A canonical path is that of a location where something stands, and which the path passes. -/
theorem exists_passed_of_locate (hdisk : disk.WellFormed) {path found : Path}
    (h : disk.locate path = .ok found) :
    ∃ names, found = .ofLocation names ∧ disk.Stands names ∧
      Passes disk (disk.startOf path) path.parts names := by
  obtain ⟨names, rfl, hstands⟩ := stands_of_locate hdisk h
  refine ⟨names, rfl, hstands, ?_⟩
  obtain ⟨led, hresolution, hnames, -⟩ := exists_reached_of_locate hdisk h
  obtain rfl : names = led.location := Path.ofLocation_inj.1 hnames
  have hpasses : Passes disk _ (path.parts ++ []) led.location := passes_of_resolveWay hresolution .here
  rw [List.append_nil, apply_ite Waypoint.location] at hpasses
  exact hpasses

/-! ### The same resolutions -/

theorem lookBelow_eq_ok {at_ : Waypoint} {name : String} {node : Node} :
    disk.lookBelow at_ name = .ok node ↔
      (at_.down name).spelling.toString.utf8ByteSize < pathLimit ∧ name.utf8ByteSize ≤ nameLimit ∧
        disk.nodeAt? (at_.location ++ [name]) = some node := by
  constructor
  · intro h
    refine ⟨?_, ?_, nodeAt?_of_lookBelow h⟩ <;> unfold lookBelow at h <;> split at h
    · cases h
    · next hsize => exact Nat.not_le.1 hsize
    · cases h
    · split at h
      · cases h
      · split at h
        · cases h
        · next hshort => exact Nat.not_lt.1 hshort
      · cases h
  · rintro ⟨hsize, hshort, hnode⟩
    obtain ⟨entries, hfolder, hentry⟩ := exists_folder_of_nodeAt?_snoc hnode
    rw [lookBelow, if_neg (Nat.not_le.2 hsize), hfolder]
    simp [Nat.not_lt.2 hshort, hentry]

/-- Why nothing is found below a waypoint depends on what stands there. -/
theorem lookBelow_error_eq {at_ : Waypoint} {name : String} {first second : Errno}
    (hbare : bare.lookBelow at_ name = .error first) (hfull : full.lookBelow at_ name = .error second)
    (hface : Option.Rel Node.SameFace (bare.nodeAt? at_.location) (full.nodeAt? at_.location)) :
    first = second := by
  have hentry {entries : List (String × Node)} {errno : Errno}
      (h : (entries.lookup name).elim (.error .notFound) .ok = (.error errno : Except Errno Node)) :
      errno = .notFound := by
    cases hlookup : entries.lookup name <;> rw [hlookup] at h <;> cases h
    rfl
  unfold lookBelow at hbare hfull
  by_cases hsize : pathLimit ≤ (at_.down name).spelling.toString.utf8ByteSize
  · rw [if_pos hsize] at hbare hfull
    cases hbare
    cases hfull
    rfl
  · rw [if_neg hsize] at hbare hfull
    generalize bare.nodeAt? at_.location = node at hface hbare
    generalize full.nodeAt? at_.location = later at hface hfull
    cases hface with
    | none =>
        cases hbare
        cases hfull
        rfl
    | some hface =>
        cases hface with
        | folder =>
            by_cases hlong : nameLimit < name.utf8ByteSize
            · simp only [if_pos hlong] at hbare hfull
              cases hbare
              cases hfull
              rfl
            · simp only [if_neg hlong] at hbare hfull
              rw [hentry hbare, hentry hfull]
        | _ =>
            cases hbare
            cases hfull
            rfl

/-- How a resolution takes a step down. -/
theorem resolveWith_cons {strict : Bool}
    {onLink : Waypoint → Waypoint → String → Except Fault Resolution} {at_ : Waypoint}
    {rest : List String} (hidle : isIdle step = false) (hup : step ≠ "..") :
    disk.resolveWith strict onLink at_ (step :: rest) =
      if step.toList.contains '\x00' then .error .nullByte
      else
        match disk.lookBelow at_ step with
        | .ok (.link target) =>
            match onLink at_ (at_.down step) target with
            | .ok (.reached led) => disk.resolveWith strict onLink led rest
            | .ok (.stuck spelling) => .ok (.stuck (Path.under spelling ("/".intercalate rest)))
            | .error fault => .error fault
        | .ok _ => disk.resolveWith strict onLink (at_.down step) rest
        | .error errno =>
            if strict then .error (.refused errno (at_.down step).spelling.toString)
            else disk.resolveWith strict onLink (at_.down step) rest := by
  have hmove : (step.isEmpty || step == ".") = false := hidle
  have hdown : (step == "..") = false := by simpa using hup
  rw [resolveWith, hmove, hdown]
  rfl

section Surplus

variable {folders files : List String → Prop} {strict : Bool}
  {onBare onFull : Waypoint → Waypoint → String → Except Fault Resolution} {at_ : Waypoint}

/-- A way passes no surplus of a disk. -/
def Clear (folders files : List String → Prop) (full : Disk) (folder way : List String) : Prop :=
  ∀ location, Passes full folder way location → ¬ folders location ∧ ¬ files location

/-- What stands at a location that is no surplus looks the same on both disks. -/
theorem Underlies.sameFace (h : bare.Underlies folders files full)
    (hnot : ¬ folders location ∧ ¬ files location) :
    Option.Rel Node.SameFace (bare.nodeAt? location) (full.nodeAt? location) := by
  cases hfull : full.nodeAt? location with
  | none =>
      cases hbare : bare.nodeAt? location with
      | none => exact .none
      | some node =>
          obtain ⟨later, hlater, -⟩ := h.exists_full hbare
          rw [hfull] at hlater
          cases hlater
  | some node =>
      obtain ⟨old, hold, hface⟩ := h.exists_bare hfull (fun _ => hnot.1) fun _ => hnot.2
      rw [hold]
      exact .some hface

/-- A lenient resolution goes the same way on both disks, and a strict one if its way is clear. -/
theorem Underlies.resolveWith_eq (h : bare.Underlies folders files full)
    (hlink : ∀ above next target, (strict = true → Clear folders files full
        (if isAbsolute target then [] else above.location) (Path.pieces target)) →
      onBare above next target = onFull above next target)
    (hled : strict = true → ∀ above next target led, onFull above next target = .ok (.reached led) →
      ∀ more location, Passes full led.location more location →
        Passes full (if isAbsolute target then [] else above.location) (Path.pieces target ++ more) location)
    (hclear : strict = true → Clear folders files full at_.location way) :
    bare.resolveWith strict onBare at_ way = full.resolveWith strict onFull at_ way := by
  induction way generalizing at_ with
  | nil => rfl
  | cons step rest ih =>
      cases hidle : isIdle step with
      | true =>
          rw [resolveWith_stay hidle, resolveWith_stay hidle]
          exact ih fun hstrict location hpasses => hclear hstrict location (.stay hidle hpasses)
      | false =>
          by_cases hup : step = ".."
          · subst hup
            rw [resolveWith_up, resolveWith_up]
            exact ih fun hstrict location hpasses => hclear hstrict location (.up hpasses)
          · rw [resolveWith_cons hidle hup, resolveWith_cons hidle hup]
            split
            · rfl
            · cases hfull : full.lookBelow at_ step with
              | error errno =>
                  cases hbare : bare.lookBelow at_ step with
                  | ok node =>
                      obtain ⟨hsize, hshort, hnode⟩ := lookBelow_eq_ok.1 hbare
                      obtain ⟨later, hlater, -⟩ := h.exists_full hnode
                      rw [lookBelow_eq_ok.2 ⟨hsize, hshort, hlater⟩] at hfull
                      cases hfull
                  | error errno' =>
                      dsimp only
                      split
                      · next hstrict =>
                        rw [lookBelow_error_eq hbare hfull (h.sameFace (hclear hstrict _ .here))]
                      · next hlenient => exact ih fun hstrict => absurd hstrict hlenient
              | ok later =>
                  obtain ⟨hsize, hshort, hlater⟩ := lookBelow_eq_ok.1 hfull
                  cases hold : bare.nodeAt? (at_.location ++ [step]) with
                  | some old =>
                      obtain ⟨node, hnode, hface⟩ := h.exists_full hold
                      rw [hlater, Option.some.injEq] at hnode
                      subst hnode
                      rw [lookBelow_eq_ok.2 ⟨hsize, hshort, hold⟩]
                      have hdown (hplain : ∀ target, later ≠ .link target) :
                          bare.resolveWith strict onBare (at_.down step) rest =
                            full.resolveWith strict onFull (at_.down step) rest :=
                        ih fun hstrict location hpasses =>
                          hclear hstrict location (.down hidle hup hlater hplain hpasses)
                      cases hface with
                      | link target =>
                          have hsame := hlink at_ (at_.down step) target fun hstrict location hpasses =>
                            hclear hstrict location (.follow hidle hup hlater (hpasses.append rest))
                          dsimp only
                          rw [hsame]
                          split
                          · next led hfound =>
                            exact ih fun hstrict location hpasses => hclear hstrict location
                              (.follow hidle hup hlater (hled hstrict _ _ _ _ hfound _ _ hpasses))
                          · rfl
                          · rfl
                      | file bytes => exact hdown (by simp)
                      | folder first second => exact hdown (by simp)
                      | sink => exact hdown (by simp)
                  | none =>
                      -- A surplus is passed only by a lenient resolution, which takes it for missing.
                      have hplain : ∀ target, later ≠ .link target := by
                        rintro target rfl
                        rw [h.links _ target hlater] at hold
                        cases hold
                      have hlenient : ¬ strict = true := by
                        intro hstrict
                        have hsame := h.sameFace (hclear hstrict _ (.down hidle hup hlater hplain .here))
                        rw [hold, hlater] at hsame
                        cases hsame
                      cases hbare : bare.lookBelow at_ step with
                      | ok node =>
                          rw [(lookBelow_eq_ok.1 hbare).2.2] at hold
                          cases hold
                      | error errno =>
                          have hrest := @ih (at_.down step) fun hstrict => absurd hstrict hlenient
                          dsimp only
                          rw [if_neg hlenient, hrest]
                          cases later with
                          | link target => exact absurd rfl (hplain target)
                          | _ => rfl

/-- A lenient resolution goes the same way on both disks, and a strict one if its way is clear. -/
theorem Underlies.resolveWay_eq (h : bare.Underlies folders files full) {depth : Nat} {open_ : List Path}
    (hclear : strict = true → Clear folders files full at_.location way) :
    bare.resolveWay strict depth open_ at_ way = full.resolveWay strict depth open_ at_ way := by
  induction depth generalizing open_ at_ way with
  | zero =>
      refine h.resolveWith_eq (fun above next target _ => rfl) (fun hstrict above next target led hfound => ?_)
        hclear
      subst hstrict
      dsimp only at hfound
      split at hfound <;> cases hfound
  | succ depth ih =>
      rw [resolveWay_succ, resolveWay_succ]
      refine h.resolveWith_eq (fun above next target hway => ?_)
        (fun hstrict above next target led hfound more location hpasses => ?_) hclear
      · split
        · rfl
        · refine ih fun hstrict => ?_
          rw [apply_ite Waypoint.location]
          exact hway hstrict
      · subst hstrict
        split at hfound
        · cases hfound
        · have hstart := passes_of_resolveWay hfound hpasses
          rw [apply_ite Waypoint.location] at hstart
          exact hstart

/-- A path is resolved alike on two disks with as many links, leniently or along a clear way. -/
theorem Underlies.resolution_eq (h : bare.Underlies folders files full)
    (hcount : bare.tree.linkCount = full.tree.linkCount) {path : Path}
    (hclear : strict = true → Clear folders files full (full.startOf path) path.parts) :
    bare.resolution strict path = full.resolution strict path := by
  have hcwd : bare.cwd = full.cwd := h.cwd.symm
  unfold resolution
  rw [hcount, hcwd]
  refine h.resolveWay_eq fun hstrict => ?_
  have hstart := hclear hstrict
  unfold startOf at hstart
  split at hstart
  · next hhere => rwa [if_pos hhere]
  · next hhere => rwa [if_neg hhere]

/-- A path whose way is clear is made canonical alike on both disks. -/
theorem Underlies.locate_eq (h : bare.Underlies folders files full)
    (hcount : bare.tree.linkCount = full.tree.linkCount) {path : Path}
    (hclear : Clear folders files full (full.startOf path) path.parts) :
    bare.locate path = full.locate path := by
  rw [locate, locate, h.resolution_eq hcount fun _ => hclear, h.cwd]

end Surplus

/-! ### Canonical paths -/

section Along

variable {names : List String}

/-- A lenient resolution along names on which no link stands gets to their end. -/
theorem resolveWith_leniently {onLink : Waypoint → Waypoint → String → Except Fault Resolution}
    {rest : List String} (hproper : ∀ name ∈ rest, ProperName name)
    (hlink : disk.NoLinkOn (folder ++ rest)) :
    disk.resolveWith false onLink (.ofLocation folder) rest =
      .ok (.reached (.ofLocation (folder ++ rest))) := by
  induction rest generalizing folder with
  | nil =>
      rw [List.append_nil]
      rfl
  | cons name rest ih =>
      rw [List.forall_mem_cons] at hproper
      rw [List.append_cons] at hlink ⊢
      obtain ⟨hskip, hup, hnull⟩ := step_of_properName hproper.1
      rw [resolveWith_cons hskip (by simpa using hup), hnull, if_neg Bool.false_ne_true]
      have hnext := ih hproper.2 hlink
      split
      · next target hbelow =>
        have hnone := hlink (folder ++ [name]).length target
        rw [List.take_left] at hnone
        exact absurd (nodeAt?_of_lookBelow hbelow) hnone
      · exact hnext
      · exact hnext

theorem resolution_leniently (hproper : ∀ name ∈ names, ProperName name) (hlink : disk.NoLinkOn names) :
    disk.resolution false (.ofLocation names) = .ok (.reached (.ofLocation names)) := by
  obtain ⟨onLink, honLink⟩ := exists_resolveWay_eq disk false (2 * (disk.tree.linkCount + 1)) []
  unfold resolution
  rw [if_neg (by simp [Path.ofLocation]), honLink]
  exact resolveWith_leniently hproper (by rwa [List.nil_append])

/-- A path that is resolved to a location is made canonical leniently, unless that is lost in links. -/
theorem locateLeniently_of_resolution {path : Path} {resolution : Resolution}
    (hresolution : disk.resolution false path = .ok resolution)
    (hpath : resolution.path disk.cwd = .ofLocation names)
    (hplainly : disk.Plainly (Path.ofLocation names).toString) :
    disk.locateLeniently path = .ok (.ofLocation names) := by
  unfold locateLeniently
  rw [hresolution, ok_bind, hpath]
  dsimp only
  rcases hplainly with ⟨found, hfind⟩ | ⟨errno, herrno, hfind⟩
  · rw [hfind]
  · rw [hfind]
    cases errno <;> first | rfl | exact absurd rfl herrno

/-- The path of a location along which no link stands is canonical. -/
theorem locateLeniently_ofLocation (hproper : ∀ name ∈ names, ProperName name)
    (hlink : disk.NoLinkOn names) (hplainly : disk.Plainly (Path.ofLocation names).toString) :
    disk.locateLeniently (.ofLocation names) = .ok (.ofLocation names) :=
  locateLeniently_of_resolution (resolution_leniently hproper hlink) rfl hplainly

end Along

/-- A path that is canonical as that of a folder is so on a disk that has less, if the folder stands
there. -/
theorem Underlies.locateLeniently {folders files : List String → Prop} {path : Path} {names : List String}
    {entries : List (String × Node)} (h : bare.Underlies folders files full)
    (hcount : bare.tree.linkCount = full.tree.linkCount) (hproper : ∀ name ∈ names, ProperName name)
    (hfolder : bare.nodeAt? names = some (.folder entries))
    (hfull : full.locateLeniently path = .ok (.ofLocation names)) :
    bare.locateLeniently path = .ok (.ofLocation names) := by
  unfold Disk.locateLeniently at hfull
  obtain ⟨resolution, hresolution, hfull⟩ := bind_eq_ok.1 hfull
  have hpath : resolution.path full.cwd = .ofLocation names := by
    dsimp only at hfull
    split at hfull
    · cases hfull
    · cases hfull
    · exact Except.ok.inj hfull
  rw [← h.resolution_eq hcount fun hstrict => by cases hstrict] at hresolution
  rw [h.cwd] at hpath
  exact locateLeniently_of_resolution hresolution hpath (plainly_of_folder hproper hfolder)

end ElmSuite.Disk
