import ElmSuite.Proofs.Disk.Glob
import ElmSuite.Proofs.Disk.Resolution

/-!
The same disk from another working directory.  A path that starts at the root is looked up, made
canonical, expanded and written the same from everywhere, and what it becomes starts at the root again.
-/

namespace ElmSuite

namespace Disk

variable {disk : Disk} {cwd : List String} {follow : Bool} {text : String} {path : Path}

/-- The disk from another working directory. -/
def seenFrom (disk : Disk) (cwd : List String) : Disk :=
  { disk with cwd }

theorem nodeAt?_seenFrom (disk : Disk) (cwd location : List String) :
    (disk.seenFrom cwd).nodeAt? location = disk.nodeAt? location :=
  rfl

/-- A working directory that is entered is a folder. -/
theorem exists_find_of_enter {here : Disk} (h : disk.enter text = .ok here) :
    ∃ location entries, disk.find text = .ok (location, .folder entries) ∧ here = disk.seenFrom location := by
  obtain ⟨⟨location, node⟩, hfind, h⟩ := bind_eq_ok.1 h
  cases node with
  | folder entries =>
      cases h
      exact ⟨location, entries, hfind, rfl⟩
  | _ => cases h

/-! ### Looking up -/

theorem descend_seenFrom (disk : Disk) (cwd : List String) (follow : Bool) (folder way : List String) :
    (disk.seenFrom cwd).descend follow folder way = disk.descend follow folder way := by
  induction way generalizing folder with
  | nil => rfl
  | cons step rest ih => simp only [descend, nodeAt?_seenFrom, ih]

theorem walk_seenFrom (disk : Disk) (cwd : List String) (follow : Bool) (budget : Nat)
    (folder way : List String) :
    (disk.seenFrom cwd).walk follow budget folder way = disk.walk follow budget folder way := by
  induction budget generalizing folder way with
  | zero => rw [walk, walk, descend_seenFrom]
  | succ budget ih =>
      rw [walk, walk, descend_seenFrom]
      rcases disk.descend follow folder way with errno | (place | ⟨link, target, rest⟩)
      · rfl
      · rfl
      · exact ih _ _

theorem place_seenFrom (h : isAbsolute text = true) :
    (disk.seenFrom cwd).place follow text = disk.place follow text := by
  unfold place
  simp only [if_pos h, walk_seenFrom]

theorem find_seenFrom (h : isAbsolute text = true) : (disk.seenFrom cwd).find text = disk.find text := by
  rw [find, find, place_seenFrom h]

theorem isFile_seenFrom (h : isAbsolute text = true) :
    (disk.seenFrom cwd).isFile text = disk.isFile text := by
  rw [isFile, isFile, find_seenFrom h]

theorem isFolder_seenFrom (h : isAbsolute text = true) :
    (disk.seenFrom cwd).isFolder text = disk.isFolder text := by
  rw [isFolder, isFolder, find_seenFrom h]

theorem hasEntry_seenFrom (h : isAbsolute text = true) :
    (disk.seenFrom cwd).hasEntry text = disk.hasEntry text := by
  rw [hasEntry, hasEntry, place_seenFrom h]

theorem readText_seenFrom (h : isAbsolute text = true) :
    (disk.seenFrom cwd).readText text = disk.readText text := by
  rw [readText, readText, readBytes, readBytes, find_seenFrom h]

/-! ### Writing -/

theorem writeBytes_seenFrom (h : isAbsolute text = true) (bytes : List UInt8) :
    (disk.seenFrom cwd).writeBytes text bytes = (disk.writeBytes text bytes).map (·.seenFrom cwd) := by
  rw [writeBytes, writeBytes, place_seenFrom h]
  rcases disk.place true text with fault | (⟨location, node⟩ | ⟨above, name⟩)
  · rfl
  · cases node <;> rfl
  · rfl

theorem makeFolder_seenFrom (h : isAbsolute text = true) :
    (disk.seenFrom cwd).makeFolder text = (disk.makeFolder text).map (·.seenFrom cwd) := by
  rw [makeFolder, makeFolder, place_seenFrom h]
  rcases disk.place false text with fault | (⟨location, node⟩ | ⟨above, name⟩) <;> rfl

theorem makeLink_seenFrom (h : isAbsolute text = true) (target : String) :
    (disk.seenFrom cwd).makeLink text target = (disk.makeLink text target).map (·.seenFrom cwd) := by
  rw [makeLink, makeLink, place_seenFrom h]
  rcases disk.place false text with fault | (⟨location, node⟩ | ⟨above, name⟩) <;> rfl

theorem tryFolder_seenFrom (h : isAbsolute text = true) {missing other : String → Except Fault Unit × Disk}
    (hother : ∀ refused, other refused = ((missing refused).1, (missing refused).2.seenFrom cwd)) :
    (disk.seenFrom cwd).tryFolder text other =
      ((disk.tryFolder text missing).1, (disk.tryFolder text missing).2.seenFrom cwd) := by
  unfold tryFolder
  rw [makeFolder_seenFrom h, isFolder_seenFrom h]
  rcases disk.makeFolder text with (⟨errno, refused⟩ | _) | made
  · cases errno with
    | notFound => exact hother refused
    | _ => dsimp only [Except.map]; split <;> rfl
  all_goals rfl

theorem makeFoldersUpTo_seenFrom (h : path.anchor ≠ .here) (depth : Nat) (disk : Disk) :
    makeFoldersUpTo depth path (disk.seenFrom cwd) =
      ((makeFoldersUpTo depth path disk).1, (makeFoldersUpTo depth path disk).2.seenFrom cwd) := by
  have habsolute := Path.isAbsolute_toString h
  induction depth generalizing path disk with
  | zero =>
      rw [makeFoldersUpTo_zero, makeFoldersUpTo_zero]
      exact tryFolder_seenFrom habsolute fun _ => rfl
  | succ depth ih =>
      have habove : path.parent.anchor ≠ .here := h
      rw [makeFoldersUpTo_succ, makeFoldersUpTo_succ]
      refine tryFolder_seenFrom habsolute fun _ => ?_
      rw [ih habove disk (Path.isAbsolute_toString habove)]
      rcases makeFoldersUpTo depth path.parent disk with ⟨fault | _, below⟩
      · rfl
      · exact tryFolder_seenFrom habsolute fun _ => rfl

theorem makeFolders_seenFrom (h : path.anchor ≠ .here) (disk : Disk) :
    makeFolders path (disk.seenFrom cwd) =
      ((makeFolders path disk).1, (makeFolders path disk).2.seenFrom cwd) :=
  makeFoldersUpTo_seenFrom h _ disk

/-! ### Canonical paths -/

theorem resolveWith_seenFrom (disk : Disk) (cwd : List String) (strict : Bool)
    (onLink : Waypoint → Waypoint → String → Except Fault Resolution) (at_ : Waypoint) (way : List String) :
    (disk.seenFrom cwd).resolveWith strict onLink at_ way = disk.resolveWith strict onLink at_ way := by
  induction way generalizing at_ with
  | nil => rfl
  | cons step rest ih =>
      have hbelow : (disk.seenFrom cwd).lookBelow at_ step = disk.lookBelow at_ step := rfl
      simp only [resolveWith, hbelow, ih]

theorem resolveWay_seenFrom (disk : Disk) (cwd : List String) (strict : Bool) (depth : Nat)
    (passed : List Path) (at_ : Waypoint) (way : List String) :
    (disk.seenFrom cwd).resolveWay strict depth passed at_ way = disk.resolveWay strict depth passed at_ way := by
  induction depth generalizing passed at_ way with
  | zero => exact resolveWith_seenFrom disk cwd strict _ at_ way
  | succ depth ih =>
      rw [resolveWay_succ, resolveWay_succ, resolveWith_seenFrom]
      simp only [ih]

/-- A resolution that is spelled from the root. -/
def Resolution.Rooted : Resolution → Prop
  | .reached at_ => at_.spelling.anchor ≠ .here
  | .stuck spelling => isAbsolute spelling = true

theorem isAbsolute_under {folder name : String} (h : isAbsolute folder = true) :
    isAbsolute (Path.under folder name) = true := by
  unfold Path.under
  split
  · next hcond =>
    rcases Bool.or_eq_true _ _ ▸ hcond with hempty | hslash
    · rw [String.isEmpty_iff] at hempty
      rw [hempty] at h
      cases h
    · simpa [isAbsolute] using hslash
  · have happend (more : String) : isAbsolute (folder ++ more) = true := by
      simp only [isAbsolute, decide_eq_true_eq] at h ⊢
      rw [String.toList_append, List.head?_append, h]
      rfl
    split
    · exact happend name
    · rw [String.append_assoc]
      exact happend _

theorem rooted_up {at_ : Waypoint} (h : at_.spelling.anchor ≠ .here) : at_.up.spelling.anchor ≠ .here := by
  unfold Waypoint.up spellUp
  dsimp only
  split <;> simp_all

/-- The step of a resolution: what starts at the root goes on from there. -/
theorem rooted_of_resolveWith {strict : Bool}
    {onLink : Waypoint → Waypoint → String → Except Fault Resolution}
    (hlink : ∀ above next target found, above.spelling.anchor ≠ .here → next.spelling.anchor ≠ .here →
      onLink above next target = .ok found → found.Rooted)
    {at_ : Waypoint} {way : List String} {found : Resolution} (hat : at_.spelling.anchor ≠ .here)
    (h : disk.resolveWith strict onLink at_ way = .ok found) : found.Rooted := by
  induction way generalizing at_ with
  | nil =>
      cases h
      exact hat
  | cons step rest ih =>
      have hdown : (at_.down step).spelling.anchor ≠ .here := hat
      rw [resolveWith] at h
      split at h
      · exact ih hat h
      · split at h
        · exact ih (rooted_up hat) h
        · split at h
          · cases h
          · dsimp only at h
            split at h
            · split at h
              · next led hled => exact ih (hlink _ _ _ _ hat hdown hled) h
              · next spelling hled =>
                cases h
                exact isAbsolute_under (hlink _ _ _ _ hat hdown hled)
              · cases h
            · exact ih hdown h
            · split at h
              · cases h
              · exact ih hdown h

theorem rooted_of_resolveWay {strict : Bool} {depth : Nat} {passed : List Path} {at_ : Waypoint}
    {way : List String} {found : Resolution} (hat : at_.spelling.anchor ≠ .here)
    (h : disk.resolveWay strict depth passed at_ way = .ok found) : found.Rooted := by
  have hloop {next : Waypoint} {found : Resolution} (hnext : next.spelling.anchor ≠ .here)
      (h : (if strict then .error (.linkLoop next.spelling.toString)
        else .ok (.stuck next.spelling.toString) : Except Fault Resolution) = .ok found) : found.Rooted := by
    split at h
    · cases h
    · cases h
      exact Path.isAbsolute_toString hnext
  induction depth generalizing passed at_ way found with
  | zero =>
      refine rooted_of_resolveWith (fun above next target found _ hnext hfound => ?_) hat h
      dsimp only at hfound
      split at hfound <;> exact hloop hnext hfound
  | succ depth ih =>
      refine rooted_of_resolveWith (fun above next target found habove hnext hfound => ?_) hat h
      dsimp only at hfound
      split at hfound
      · exact hloop hnext hfound
      · refine ih ?_ hfound
        split
        · exact Anchor.noConfusion
        · exact habove

theorem resolution_seenFrom (h : path.anchor ≠ .here) (strict : Bool) :
    (disk.seenFrom cwd).resolution strict path = disk.resolution strict path := by
  unfold resolution
  rw [resolveWay_seenFrom, if_neg h, if_neg h]
  rfl

/-- A resolution of a path from the root gives the same path everywhere. -/
theorem path_of_resolution (h : path.anchor ≠ .here) {strict : Bool} {found : Resolution}
    (hfound : disk.resolution strict path = .ok found) (first second : List String) :
    found.path first = found.path second := by
  have hrooted : found.Rooted := by
    unfold resolution at hfound
    rw [if_neg h] at hfound
    exact rooted_of_resolveWay Anchor.noConfusion hfound
  cases found with
  | reached at_ => rfl
  | stuck spelling =>
      have hanchor := anchor_ofString_ne hrooted
      simp only [Resolution.path, Path.absolute, Path.namesFrom, if_neg hanchor]

theorem locate_seenFrom (h : path.anchor ≠ .here) : (disk.seenFrom cwd).locate path = disk.locate path := by
  rw [locate, locate, resolution_seenFrom h]
  cases hfound : disk.resolution true path with
  | error fault => rfl
  | ok found => exact congrArg Except.ok (path_of_resolution h hfound _ _)

theorem anchor_of_locate {found : Path} (h : disk.locate path = .ok found) : found.anchor ≠ .here := by
  obtain ⟨resolution, -, rfl⟩ := map_eq_ok.1 h
  exact anchor_path_ne resolution disk.cwd

theorem locateLeniently_seenFrom (h : path.anchor ≠ .here) :
    (disk.seenFrom cwd).locateLeniently path = disk.locateLeniently path := by
  unfold locateLeniently
  rw [resolution_seenFrom h]
  cases hfound : disk.resolution false path with
  | error fault => rfl
  | ok found =>
      rw [ok_bind, ok_bind, path_of_resolution h hfound (disk.seenFrom cwd).cwd disk.cwd]
      dsimp only
      rw [find_seenFrom (Path.isAbsolute_toString (anchor_path_ne found disk.cwd))]

end Disk

namespace Glob

open Disk

variable {disk : Disk} {cwd : List String} {folder part pattern : String}

theorem not_isEmpty_of_isAbsolute (h : isAbsolute folder = true) : folder.isEmpty = false := by
  rw [← Bool.not_eq_true, String.isEmpty_iff]
  rintro rfl
  cases h

theorem namesIn_seenFrom (foldersOnly : Bool) (h : isAbsolute folder = true) :
    namesIn (disk.seenFrom cwd) foldersOnly folder = namesIn disk foldersOnly folder := by
  unfold namesIn
  simp only [not_isEmpty_of_isAbsolute h, Bool.false_eq_true, if_false, find_seenFrom h,
    isFolder_seenFrom (isAbsolute_under h)]

theorem below_seenFrom (foldersOnly : Bool) (depth : Nat) (h : isAbsolute folder = true) :
    below (disk.seenFrom cwd) foldersOnly depth folder = below disk foldersOnly depth folder := by
  induction depth generalizing folder with
  | zero => rfl
  | succ depth ih => simp only [below, namesIn_seenFrom foldersOnly h, ih (isAbsolute_under h)]

theorem inFolder_seenFrom (foldersOnly : Bool) (part : String) (h : isAbsolute folder = true) :
    inFolder (disk.seenFrom cwd) foldersOnly folder part = inFolder disk foldersOnly folder part := by
  have hbound : depthBound (disk.seenFrom cwd) = depthBound disk := rfl
  simp only [inFolder, hbound, below_seenFrom foldersOnly _ h, namesIn_seenFrom foldersOnly h,
    isFolder_seenFrom h, hasEntry_seenFrom (isAbsolute_under h)]

theorem inFolders_seenFrom (foldersOnly : Bool) (part : String) {folders : List String}
    (h : ∀ folder ∈ folders, isAbsolute folder = true) :
    inFolders (disk.seenFrom cwd) foldersOnly part folders = inFolders disk foldersOnly part folders := by
  rw [inFolders, inFolders, mapM_congr fun folder hfolder => ?_]
  rw [inFolder_seenFrom foldersOnly part (h folder hfolder)]

/-- What is matched in folders stands below them. -/
theorem isAbsolute_of_mem_inFolders {foldersOnly : Bool} {folders found : List String}
    (h : ∀ folder ∈ folders, isAbsolute folder = true)
    (hfound : inFolders disk foldersOnly part folders = .ok found) :
    ∀ matched ∈ found, isAbsolute matched = true := by
  obtain ⟨values, hvalues, heq⟩ := bind_eq_ok.1 hfound
  cases heq
  intro matched hmatched
  obtain ⟨value, hvalue, hmatched⟩ := List.mem_flatten.1 hmatched
  obtain ⟨folder, hfolder, hrun⟩ := exists_of_mem_mapM hvalues value hvalue
  obtain ⟨names, -, heq⟩ := bind_eq_ok.1 hrun
  cases heq
  obtain ⟨name, -, rfl⟩ := List.mem_map.1 hmatched
  exact isAbsolute_under (h folder hfolder)

/-- The part of a pattern before its last slash starts at the root if the pattern does. -/
theorem isAbsolute_splitLast (h : isAbsolute pattern = true) :
    isAbsolute (splitLast pattern).1 = true := by
  simp only [isAbsolute, decide_eq_true_eq] at h ⊢
  have hend : pattern.toList.reverse.getLast? = some '/' := by
    rw [List.getLast?_reverse, h]
  unfold splitLast
  dsimp only
  generalize pattern.toList.reverse = reversed at hend
  have hslash : '/' ∈ reversed := List.mem_of_getLast? hend
  rw [String.toList_ofList]
  split
  · -- Nothing but slashes is left, so the first of them is one.
    obtain ⟨c, more, hhead⟩ : ∃ c more, reversed.dropWhile (fun c => c != '/') = c :: more := by
      refine List.exists_cons_of_ne_nil fun hnil => ?_
      have hall := List.dropWhile_eq_nil_iff.1 hnil '/' hslash
      exact absurd hall (by decide)
    have hfirst := List.head?_dropWhile_not (fun c => c != '/') reversed
    rw [hhead] at hfirst ⊢
    simpa using hfirst
  · next hbare =>
    rw [List.isEmpty_iff] at hbare
    rw [List.head?_reverse]
    obtain ⟨front, hfront⟩ := (List.dropWhile_suffix fun c => c == '/').trans
      (List.dropWhile_suffix (l := reversed) fun c => c != '/')
    rw [← hfront, List.getLast?_append_of_ne_nil _ hbare] at hend
    exact hend

/-- A pattern from the root is expanded part by part. -/
theorem expandUpTo_eq_inFolders (disk : Disk) (depth : Nat) (foldersOnly : Bool)
    (h : isAbsolute pattern = true) (hpattern : isPattern pattern = true) :
    expandUpTo disk (depth + 1) foldersOnly pattern =
      (if (splitLast pattern).1 != pattern && isPattern (splitLast pattern).1
        then expandUpTo disk depth true (splitLast pattern).1 else .ok [(splitLast pattern).1]) >>=
        inFolders disk foldersOnly (splitLast pattern).2 := by
  rw [expandUpTo]
  simp only [hpattern, Bool.not_true, Bool.false_eq_true, if_false,
    not_isEmpty_of_isAbsolute (isAbsolute_splitLast h)]
  split <;> rfl

/-- A path without pattern characters is expanded to itself if it is there. -/
theorem expandUpTo_of_plain (disk : Disk) (depth : Nat) (foldersOnly : Bool)
    (hplain : isPattern pattern = false) :
    expandUpTo disk (depth + 1) foldersOnly pattern =
      .ok (if (if (splitLast pattern).2.isEmpty then disk.isFolder (splitLast pattern).1
        else disk.hasEntry pattern) then [pattern] else []) := by
  rw [expandUpTo]
  dsimp only
  rw [hplain, Bool.not_false, if_pos rfl]
  cases (splitLast pattern).2.isEmpty <;> rfl

/-- What a pattern from the root matches starts at the root. -/
theorem isAbsolute_of_mem_expandUpTo {depth : Nat} {foldersOnly : Bool} {found : List String}
    (h : isAbsolute pattern = true) (hfound : expandUpTo disk depth foldersOnly pattern = .ok found) :
    ∀ matched ∈ found, isAbsolute matched = true := by
  induction depth generalizing foldersOnly pattern found with
  | zero =>
      cases hfound
      simp
  | succ depth ih =>
      by_cases hpattern : isPattern pattern = true
      · rw [expandUpTo_eq_inFolders disk depth foldersOnly h hpattern] at hfound
        obtain ⟨folders, hfolders, hfound⟩ := bind_eq_ok.1 hfound
        refine isAbsolute_of_mem_inFolders (fun folder hfolder => ?_) hfound
        split at hfolders
        · exact ih (isAbsolute_splitLast h) hfolders folder hfolder
        · cases hfolders
          rw [List.mem_singleton.1 hfolder]
          exact isAbsolute_splitLast h
      · rw [Bool.not_eq_true] at hpattern
        rw [expandUpTo_of_plain disk depth foldersOnly hpattern, Except.ok.injEq] at hfound
        intro matched hmatched
        rw [← hfound, List.mem_ite_nil_right] at hmatched
        rw [List.mem_singleton.1 hmatched.2]
        exact h

theorem expandUpTo_seenFrom (depth : Nat) (foldersOnly : Bool) (h : isAbsolute pattern = true) :
    expandUpTo (disk.seenFrom cwd) depth foldersOnly pattern = expandUpTo disk depth foldersOnly pattern := by
  induction depth generalizing foldersOnly pattern with
  | zero => rfl
  | succ depth ih =>
      by_cases hpattern : isPattern pattern = true
      · rw [expandUpTo_eq_inFolders _ depth foldersOnly h hpattern,
          expandUpTo_eq_inFolders _ depth foldersOnly h hpattern, ih true (isAbsolute_splitLast h)]
        refine bind_congr_of_ok fun folders hfolders => inFolders_seenFrom _ _ fun folder hfolder => ?_
        split at hfolders
        · exact isAbsolute_of_mem_expandUpTo (isAbsolute_splitLast h) hfolders folder hfolder
        · cases hfolders
          rw [List.mem_singleton.1 hfolder]
          exact isAbsolute_splitLast h
      · rw [Bool.not_eq_true] at hpattern
        rw [expandUpTo_of_plain _ depth foldersOnly hpattern, expandUpTo_of_plain _ depth foldersOnly hpattern,
          isFolder_seenFrom (isAbsolute_splitLast h), hasEntry_seenFrom h]

theorem expand_seenFrom (h : isAbsolute pattern = true) :
    expand (disk.seenFrom cwd) pattern = expand disk pattern := by
  rw [expand, expand, expandUpTo_seenFrom _ _ h]

theorem isAbsolute_of_mem_expand {found : List String} (h : isAbsolute pattern = true)
    (hfound : expand disk pattern = .ok found) : ∀ matched ∈ found, isAbsolute matched = true := by
  obtain ⟨all, hall, heq⟩ := bind_eq_ok.1 hfound
  have hsub : ∀ matched ∈ found, matched ∈ all := by
    split at heq
    · split at heq <;> cases heq
      · exact fun matched => List.mem_cons_of_mem _
      · exact fun matched hmatched => hmatched
    · cases heq
      exact fun matched hmatched => hmatched
  exact fun matched hmatched => isAbsolute_of_mem_expandUpTo h hall matched (hsub matched hmatched)

end Glob

end ElmSuite
