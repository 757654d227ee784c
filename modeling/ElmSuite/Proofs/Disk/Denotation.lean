import Mathlib.Data.List.Induction
import ElmSuite.Proofs.Disk.Resolution

/-!
What texts denote that are read in a folder, and how they are made.  The lexical way from one location
to another denotes the other, if folders stand where the way goes; and a strict resolution of a text
ends where the text leads, on entries that are no links.
-/

namespace ElmSuite.Disk

/-- A text that is read in a folder leads to a location. -/
def Denotes (disk : Disk) (folder : List String) (text : String) (goal : List String) : Prop :=
  Leads disk (if isAbsolute text then [] else folder) (steps text) goal

/-- Something that is no link stands at a location. -/
def Stands (disk : Disk) (location : List String) : Prop :=
  ∃ node, disk.nodeAt? location = some node ∧ ∀ target, node ≠ .link target

variable {disk before after : Disk} {folder names rest goal : List String} {text : String}

theorem stands_of_folder {entries : List (String × Node)}
    (h : disk.nodeAt? folder = some (.folder entries)) : disk.Stands folder :=
  ⟨_, h, by simp⟩

theorem Stands.retain {spared : List String → Prop} (h : before.Stands names)
    (hkept : before.Retains spared after) : after.Stands names := by
  obtain ⟨node, hnode, hplain⟩ := h
  exact hkept.plain hnode hplain

/-- Folders stand on the way to what stands somewhere. -/
theorem Stands.of_append (h : disk.Stands (names ++ rest)) : disk.Stands names := by
  obtain ⟨node, hnode, hplain⟩ := h
  by_cases hrest : rest = []
  · subst hrest
    rw [List.append_nil] at hnode
    exact ⟨node, hnode, hplain⟩
  · obtain ⟨entries, hfolder⟩ := exists_folder_of_append hnode hrest
    exact stands_of_folder hfolder

theorem Stands.noLinkOn (h : disk.Stands names) : disk.NoLinkOn names := by
  intro count target hlink
  rw [← List.take_append_drop count names] at h
  obtain ⟨node, hnode, hplain⟩ := h.of_append
  rw [hlink, Option.some.injEq] at hnode
  exact hplain target hnode.symm

/-- The names of what stands somewhere lead there. -/
theorem Stands.leads (h : disk.Stands (folder ++ rest)) (hproper : ∀ name ∈ rest, ProperName name) :
    Leads disk folder rest (folder ++ rest) := by
  induction rest generalizing folder with
  | nil =>
      obtain ⟨node, hnode, -⟩ := h
      rw [List.append_nil] at hnode ⊢
      exact .here hnode
  | cons name rest ih =>
      rw [List.forall_mem_cons] at hproper
      rw [List.append_cons] at h ⊢
      obtain ⟨node, hnode, hplain⟩ := h.of_append
      exact .down hproper.1.notHere hproper.1.notAbove hnode hplain (ih h hproper.2)

/-- The names of what stands somewhere lead there from the root. -/
theorem Stands.leads_root (h : disk.Stands names) (hproper : ∀ name ∈ names, ProperName name) :
    Leads disk [] names names := by
  rw [← List.nil_append names] at h
  exact h.leads hproper

/-! ### Lexical ways -/

theorem steps_intercalate (hparts : ∀ name ∈ names, Path.IsPart name) (hne : names ≠ []) :
    steps ("/".intercalate names) = names := by
  have hnamed : (Path.pieces ("/".intercalate names)).filter (fun piece => !piece.isEmpty) = names := by
    have hself := Path.named_intercalate_eq names
    rw [Path.flatMap_named fun name hname =>
      Path.named_of_not_slash (hparts name hname).nonempty (hparts name hname).noSlash] at hself
    exact hself
  have hlast : ("/".intercalate names).toList.getLast? ≠ some '/' := by
    obtain ⟨front, last, rfl⟩ : ∃ front last, names = front ++ [last] :=
      ⟨_, _, (List.dropLast_append_getLast hne).symm⟩
    obtain ⟨start, hstart⟩ := Path.exists_intercalate_snoc front last
    have hpart := hparts last (by simp)
    rw [hstart]
    exact Path.getLast?_append_ne start hpart.nonempty fun h => hpart.noSlash (List.mem_of_getLast? h)
  unfold steps
  dsimp only
  rw [if_neg hlast, hnamed]

/-- As many steps up as there are names lead to where the names start. -/
theorem leads_up {entries : List (String × Node)}
    (h : disk.nodeAt? (folder ++ rest) = some (.folder entries)) :
    Leads disk (folder ++ rest) (List.replicate rest.length "..") folder := by
  induction rest using List.reverseRecOn generalizing entries with
  | nil =>
      rw [List.append_nil] at h ⊢
      exact .here h
  | append_singleton rest name ih =>
      rw [← List.append_assoc] at h ⊢
      obtain ⟨above, habove, -⟩ := exists_folder_of_nodeAt?_snoc h
      rw [List.length_append, List.length_singleton, List.replicate_succ]
      refine .up rfl h ?_
      rw [List.dropLast_concat]
      exact ih habove

end ElmSuite.Disk

namespace ElmSuite

theorem Path.take_sharedLength (start target : List String) :
    start.take (sharedLength start target) = target.take (sharedLength start target) := by
  induction start generalizing target with
  | nil => simp [sharedLength]
  | cons name start ih =>
      cases target with
      | nil => simp [sharedLength]
      | cons other target =>
          unfold sharedLength
          split
          · next heq => rw [List.take_succ_cons, List.take_succ_cons, heq, ih]
          · rfl

/-- The way from one location to another goes up to what the two share, and down from there. -/
theorem Path.exists_way_eq (start target : List String) :
    ∃ shared above below, start = shared ++ above ∧ target = shared ++ below ∧
      way start target =
        if (List.replicate above.length ".." ++ below).isEmpty then "."
        else "/".intercalate (List.replicate above.length ".." ++ below) := by
  refine ⟨start.take (sharedLength start target), start.drop (sharedLength start target),
    target.drop (sharedLength start target), (List.take_append_drop _ start).symm, ?_, ?_⟩
  · rw [take_sharedLength]
    exact (List.take_append_drop _ target).symm
  · rw [List.length_drop, way]

end ElmSuite

namespace ElmSuite.Disk

variable {disk : Disk} {folder goal : List String} {text : String}

theorem isPart_of_mem_way (above : List String) {below : List String}
    (h : ∀ name ∈ below, ProperName name) :
    ∀ name ∈ List.replicate above.length ".." ++ below, Path.IsPart name := by
  intro name hname
  rcases List.mem_append.1 hname with hname | hname
  · rw [List.eq_of_mem_replicate hname]
    exact ⟨by decide, by decide, by decide⟩
  · exact Path.isPart_of_properName (h name hname)

theorem way_ne_empty {start target : List String} (h : ∀ name ∈ target, ProperName name) :
    Path.way start target ≠ "" := by
  obtain ⟨shared, above, below, rfl, rfl, hway⟩ := Path.exists_way_eq start target
  rw [hway]
  split
  · decide
  · next hne =>
    rw [List.isEmpty_iff] at hne
    intro hempty
    have hsteps := steps_intercalate
      (isPart_of_mem_way above fun name hname => h name (List.mem_append_right shared hname)) hne
    rw [hempty] at hsteps
    exact hne hsteps.symm

/-- The way from one location to another, read in the first, denotes the other. -/
theorem denotes_way {entries : List (String × Node)} {start target : List String}
    (hstart : disk.nodeAt? start = some (.folder entries)) (htarget : disk.Stands target)
    (hproper : ∀ name ∈ target, ProperName name) :
    disk.Denotes start (Path.way start target) target := by
  obtain ⟨shared, above, below, rfl, rfl, hway⟩ := Path.exists_way_eq start target
  have hbelow : ∀ name ∈ below, ProperName name := fun name hname =>
    hproper name (List.mem_append_right shared hname)
  have hleads : Leads disk (shared ++ above) (List.replicate above.length ".." ++ below)
      (shared ++ below) := (leads_up hstart).append (htarget.leads hbelow)
  have hparts := isPart_of_mem_way above hbelow
  rw [hway]
  unfold Denotes
  split
  · next hempty =>
    rw [List.isEmpty_iff] at hempty
    rw [hempty] at hleads
    exact .stay rfl hstart hleads
  · next hne =>
    rw [List.isEmpty_iff] at hne
    have hrelative : ¬ isAbsolute ("/".intercalate (List.replicate above.length ".." ++ below)) = true := by
      simpa [isAbsolute] using Path.head?_intercalate_ne hparts
    rw [if_neg hrelative, steps_intercalate hparts hne]
    exact hleads

/-- Names without `..` are taken as they are. -/
theorem namesFrom_ofLocation {base names : List String} (h : ".." ∉ names) :
    (Path.ofLocation names).namesFrom base = names := by
  have hfold (front : List String) : names.foldl Path.stepName front = front ++ names := by
    induction names generalizing front with
    | nil => simp
    | cons name names ih =>
        rw [List.mem_cons, not_or] at h
        rw [List.foldl_cons, Path.stepName, if_neg (Ne.symm h.1), ih h.2, List.append_assoc,
          List.singleton_append]
  exact hfold []

theorem steps_append_slash (text : String) {more : String} (hne : more ≠ "")
    (hlast : more.toList.getLast? ≠ some '/') :
    steps (text ++ "/" ++ more) = Path.named text ++ Path.named more := by
  have hend := Path.getLast?_append_ne (text ++ "/") hne hlast
  unfold steps
  dsimp only
  rw [if_neg hend]
  exact Path.named_append text more

/-- A slash at the end of a text makes no difference to where it leads. -/
theorem Leads.named (h : Leads disk folder (steps text) goal) :
    Leads disk folder (Path.named text) goal := by
  unfold steps at h
  dsimp only at h
  split at h
  · obtain ⟨between, hfirst, hstay⟩ := h.split
    cases hstay with
    | stay _ _ hhere =>
        cases hhere
        exact hfirst
    | up hup _ _ => exact absurd hup (by decide)
    | down hdot _ _ _ _ => exact absurd rfl hdot
    | follow hdot _ _ _ => exact absurd rfl hdot
  · exact h

/-- A text that denotes a location, a slash and the names of a way from there denote the end of the
way. -/
theorem Denotes.append {between names : List String} (h : disk.Denotes folder text between)
    (htext : text ≠ "") (hnames : ∀ name ∈ names, ProperName name) (hne : names ≠ [])
    (hleads : Leads disk between names goal) :
    disk.Denotes folder (text ++ "/" ++ "/".intercalate names) goal := by
  have habsolute : isAbsolute (text ++ "/" ++ "/".intercalate names) = isAbsolute text := by
    obtain ⟨first, rest, hchars⟩ := List.exists_cons_of_ne_nil (mt String.toList_eq_nil_iff.1 htext)
    simp [isAbsolute, hchars]
  have hway := Leads.named h
  unfold Denotes
  rw [habsolute, steps_append_slash text (Path.intercalate_ne_empty hnames hne)
    (Path.getLast?_intercalate_ne hnames), Path.named_intercalate hnames]
  exact hway.append hleads

/-! ### Canonical paths of texts -/

theorem parts_ofString_eq (text : String) :
    (Path.ofString text).parts = (steps text).filter fun step => !(step == ".") := by
  have hnamed : (Path.ofString text).parts =
      ((Path.pieces text).filter fun piece => !piece.isEmpty).filter fun step => !(step == ".") :=
    Path.parts_ofString text
  unfold steps
  dsimp only
  split
  · rw [List.filter_append, ← hnamed]
    simp
  · exact hnamed

theorem anchor_ofString_of_relative (h : isAbsolute text = false) : (Path.ofString text).anchor = .here := by
  have hhead : text.toList.head? ≠ some '/' := by simpa [isAbsolute] using h
  unfold Path.ofString Path.anchorOf
  split <;> simp_all

/-- A text that denotes something is located there. -/
theorem locate_of_denotes (hdisk : disk.ProperNames) (hfolder : disk.Stands folder)
    (hdenotes : disk.Denotes folder text goal) {found : Path}
    (h : disk.locate ((Path.ofLocation folder).join (.ofString text)) = .ok found) :
    found = .ofLocation goal := by
  have hproper : ∀ name ∈ folder, ProperName name := by
    obtain ⟨node, hnode, -⟩ := hfolder
    exact hdisk.of_nodeAt? hnode
  unfold Denotes at hdenotes
  have hskip := hdenotes.skip
  rw [← parts_ofString_eq] at hskip
  have hparts : ∀ part ∈ (Path.ofString text).parts, Path.IsPart part := fun part =>
    Path.isPart_of_mem_ofString
  cases habsolute : isAbsolute text with
  | true =>
      have hanchor := anchor_ofString_ne habsolute
      rw [habsolute, if_pos rfl] at hskip
      rw [Path.join, if_neg hanchor] at h
      exact locate_of_leads hdisk hanchor hparts hskip h
  | false =>
      rw [habsolute, if_neg Bool.false_ne_true] at hskip
      rw [Path.join, if_pos (anchor_ofString_of_relative habsolute)] at h
      refine locate_of_leads hdisk (by simp [Path.ofLocation]) (fun part hpart => ?_)
        ((hfolder.leads_root hproper).append hskip) h
      rcases List.mem_append.1 hpart with hpart | hpart
      · exact Path.isPart_of_properName (hproper part hpart)
      · exact hparts part hpart

/-! ### What strict resolutions pass -/

/-- A resolution that got to something that is no link. -/
def Resolution.Stands (disk : Disk) : Resolution → Prop
  | .reached at_ => disk.Stands at_.location
  | .stuck _ => False

theorem resolveWith_stands {onLink : Waypoint → Waypoint → String → Except Fault Resolution}
    (hlink : ∀ above next target resolution, disk.Stands above.location →
      onLink above next target = .ok resolution → resolution.Stands disk)
    {at_ : Waypoint} {way : List String} {resolution : Resolution} (hat : disk.Stands at_.location)
    (h : disk.resolveWith true onLink at_ way = .ok resolution) : resolution.Stands disk := by
  induction way generalizing at_ with
  | nil =>
      cases h
      exact hat
  | cons step rest ih =>
      cases hidle : isIdle step with
      | true =>
          rw [resolveWith_stay hidle] at h
          exact ih hat h
      | false =>
          by_cases hup : step = ".."
          · subst hup
            rw [resolveWith_up] at h
            refine ih ?_ h
            have habove : disk.Stands (at_.location.dropLast ++ at_.location.drop (at_.location.length - 1)) := by
              rw [List.dropLast_eq_take, List.take_append_drop]
              exact hat
            exact habove.of_append
          · rcases resolveWith_down hidle hup h with
              ⟨target, led, -, hled, hrest⟩ | ⟨target, spelling, _, -, hled, -⟩ | ⟨hplain, hnode, hrest⟩
            · exact ih (hlink _ _ _ _ hat hled) hrest
            · exact (hlink _ _ _ _ hat hled).elim
            · obtain ⟨node, hbelow⟩ := hnode rfl
              exact ih ⟨node, nodeAt?_of_lookBelow hbelow, fun target heq =>
                hplain target (heq ▸ hbelow)⟩ hrest

theorem resolveWay_stands (hroot : disk.Stands []) {depth : Nat} {passed : List Path} {at_ : Waypoint}
    {way : List String} {resolution : Resolution} (hat : disk.Stands at_.location)
    (h : disk.resolveWay true depth passed at_ way = .ok resolution) : resolution.Stands disk := by
  induction depth generalizing passed at_ way resolution with
  | zero =>
      refine resolveWith_stands ?_ hat h
      intro above next target found _ hfound
      dsimp only at hfound
      split at hfound <;> cases hfound
  | succ depth ih =>
      rw [resolveWay_succ] at h
      refine resolveWith_stands ?_ hat h
      intro above next target found habove hfound
      split at hfound
      · cases hfound
      · refine ih ?_ hfound
        split
        · exact hroot
        · exact habove

/-- A canonical path is the location of something that is no link. -/
theorem stands_of_locate (hdisk : disk.WellFormed) {path found : Path} (h : disk.locate path = .ok found) :
    ∃ names, found = .ofLocation names ∧ disk.Stands names := by
  have hcwd : disk.Stands disk.cwd := by
    obtain ⟨entries, hfolder⟩ := hdisk.cwd
    exact stands_of_folder hfolder
  have hroot : disk.Stands [] := by
    rw [← List.nil_append disk.cwd] at hcwd
    exact hcwd.of_append
  unfold locate at h
  obtain ⟨resolution, hresolution, rfl⟩ := map_eq_ok.1 h
  have hstands : resolution.Stands disk := by
    refine resolveWay_stands hroot ?_ hresolution
    split
    · exact hcwd
    · exact hroot
  cases resolution with
  | reached at_ => exact ⟨at_.location, rfl, hstands⟩
  | stuck spelling => exact hstands.elim

end ElmSuite.Disk
