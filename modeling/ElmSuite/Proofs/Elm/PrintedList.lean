import ElmSuite.Proofs.Elm.ExposingList

/-!
Exposing lists as they are printed: two dots, or entries between commas, each of them with white space
around it.  An entry may hold commas inside of parentheses, so the search has to keep count of these.
-/

namespace ElmSuite.Elm

open Text

/-- A text whose parentheses are paired.  If `bare`, no comma stands outside of them. -/
inductive Paired : Bool → List Char → Prop
  | nil {bare : Bool} : Paired bare []
  | char {bare : Bool} {c : Char} {rest : List Char} (hopen : c ≠ '(') (hclose : c ≠ ')')
      (hcomma : bare = true → c ≠ ',') (hrest : Paired bare rest) : Paired bare (c :: rest)
  | group {bare : Bool} {inner rest : List Char} (hinner : Paired false inner)
      (hrest : Paired bare rest) : Paired bare ('(' :: (inner ++ ')' :: rest))

namespace Paired

variable {bare : Bool} {text other : List Char}

theorem append (h : Paired bare text) (hother : Paired bare other) : Paired bare (text ++ other) := by
  induction h with
  | nil => exact hother
  | char hopen hclose hcomma _ ih => exact .char hopen hclose hcomma (ih hother)
  | group hinner _ _ ih =>
      rw [List.cons_append, List.append_assoc, List.cons_append]
      exact .group hinner (ih hother)

theorem weaken (h : Paired bare text) : Paired false text := by
  induction h with
  | nil => exact .nil
  | char hopen hclose _ _ ih => exact .char hopen hclose (fun hbare => by cases hbare) ih
  | group hinner _ _ ih => exact .group hinner ih

theorem of_forall (h : ∀ c ∈ text, c ≠ '(' ∧ c ≠ ')' ∧ (bare = true → c ≠ ',')) : Paired bare text := by
  induction text with
  | nil => exact .nil
  | cons c text ih =>
      rw [List.forall_mem_cons] at h
      exact .char h.1.1 h.1.2.1 h.1.2.2 (ih h.2)

theorem of_all (h : (text.all fun c => c != '(' && c != ')' && (!bare || c != ',')) = true) :
    Paired bare text := by
  refine of_forall fun c hc => ?_
  have hpassed := List.all_eq_true.1 h c hc
  simp only [Bool.and_eq_true, bne_iff_ne, Bool.or_eq_true, Bool.not_eq_true'] at hpassed
  obtain ⟨⟨hopen, hclose⟩, hcomma⟩ := hpassed
  exact ⟨hopen, hclose, fun hbare => hcomma.resolve_left (by rw [hbare]; decide)⟩

theorem of_isBlank (h : ∀ c ∈ text, isBlank c = true) : Paired bare text := by
  refine of_forall fun c hc => ?_
  have hne {d : Char} (hd : isBlank d = false) : c ≠ d := by
    rintro rfl
    cases hd.symm.trans (h _ hc)
  exact ⟨hne (by decide), hne (by decide), fun _ => hne (by decide)⟩

theorem intercalate {pieces : List (List Char)} (h : ∀ piece ∈ pieces, Paired true piece) :
    Paired false ([','].intercalate pieces) := by
  induction pieces with
  | nil => exact .nil
  | cons piece pieces ih =>
      rw [List.forall_mem_cons] at h
      cases pieces with
      | nil => simpa using h.1.weaken
      | cons next pieces =>
          rw [List.intercalate_cons_cons]
          have hcomma : Paired false [','] := .char (by decide) (by decide) (fun hbare => by cases hbare) .nil
          exact (h.1.weaken.append hcomma).append (ih h.2)

/-- The parenthesis that closes a list is not inside a paired text. -/
theorem upToClose?_append (h : Paired bare text) (outer : Nat) (rest : List Char) :
    upToClose? outer (text ++ rest) = (upToClose? outer rest).map (text ++ ·) := by
  induction h generalizing outer rest with
  | nil => simp
  | @char _ c text hopen hclose _ _ ih =>
      rw [List.cons_append, upToClose?_cons hopen hclose, ih, Option.map_map]
      rfl
  | @group _ inner text _ _ hinner hrest =>
      have hopen (more : List Char) :
          upToClose? outer ('(' :: more) = (upToClose? (outer + 1) more).map ('(' :: ·) := rfl
      have hclose (more : List Char) :
          upToClose? (outer + 1) (')' :: more) = (upToClose? outer more).map (')' :: ·) := rfl
      rw [List.cons_append, List.append_assoc, List.cons_append, hopen, hinner, hclose, hrest]
      simp only [Option.map_map]
      congr 1
      funext more
      simp

/-- No piece ends inside a paired text: its commas are inside of parentheses, its own or others. -/
theorem splitCommas_append (h : Paired bare text) {depth : Nat} (hdepth : bare = true ∨ 0 < depth)
    (piece rest : List Char) :
    splitCommas depth piece (text ++ rest) = splitCommas depth (text.reverse ++ piece) rest := by
  induction h generalizing depth piece rest with
  | nil => rfl
  | @char bare c text hopen hclose hcomma _ ih =>
      have hstep : splitCommas depth piece (c :: (text ++ rest)) =
          splitCommas depth (c :: piece) (text ++ rest) := by
        by_cases hc : c = ','
        · subst hc
          have hdeep : depth ≠ 0 := by
            rcases hdepth with hbare | hdeep
            · exact absurd rfl (hcomma hbare)
            · exact Nat.ne_of_gt hdeep
          rw [splitCommas_comma, if_neg hdeep]
        · exact splitCommas_cons piece hopen hclose hc _
      rw [List.cons_append, hstep, ih hdepth, List.reverse_cons, List.append_assoc]
      rfl
  | @group bare inner text _ _ hinner hrest =>
      have hopen (more : List Char) :
          splitCommas depth piece ('(' :: more) = splitCommas (depth + 1) ('(' :: piece) more := rfl
      have hclose (found more : List Char) :
          splitCommas (depth + 1) found (')' :: more) = splitCommas depth (')' :: found) more := rfl
      rw [List.cons_append, List.append_assoc, List.cons_append, hopen,
        hinner (.inr (Nat.succ_pos depth)), hclose, hrest hdepth]
      simp

/-- The text inside of an open parenthesis ends at the parenthesis that closes it, whatever follows. -/
theorem insideParens (h : Paired bare text) (rest : List Char) :
    Elm.insideParens (text ++ ')' :: rest) = text := by
  have hclose : upToClose? 0 (')' :: rest) = some [] := rfl
  rw [Elm.insideParens, h.upToClose?_append, hclose]
  simp

end Paired

theorem splitCommas_intercalate {pieces : List (List Char)} (h : ∀ piece ∈ pieces, Paired true piece)
    (hne : pieces ≠ []) : splitCommas 0 [] ([','].intercalate pieces) = pieces := by
  induction pieces with
  | nil => exact absurd rfl hne
  | cons piece pieces ih =>
      rw [List.forall_mem_cons] at h
      cases pieces with
      | nil =>
          have hsplit : splitCommas 0 [] (piece ++ []) = splitCommas 0 (piece.reverse ++ []) [] :=
            h.1.splitCommas_append (.inl rfl) [] []
          simpa [splitCommas] using hsplit
      | cons next pieces =>
          rw [List.intercalate_cons_cons, List.append_assoc, h.1.splitCommas_append (.inl rfl),
            List.singleton_append, splitCommas_comma, if_pos rfl, ih h.2 (by simp)]
          simp

theorem trim_append_of_isBlank {before text after : List Char} (hbefore : ∀ c ∈ before, isBlank c = true)
    (hafter : ∀ c ∈ after, isBlank c = true) : trim (before ++ text ++ after) = trim text := by
  have hright : trimRight after = [] := by
    rw [trimRight, List.reverse_eq_nil_iff, List.dropWhile_eq_nil_iff]
    exact fun c hc => hafter c (List.mem_reverse.1 hc)
  rw [trim, trimLeft, List.append_assoc, List.dropWhile_append_of_pos hbefore, List.dropWhile_append]
  split
  · next hnil =>
    have htext : trimLeft text = [] := List.isEmpty_iff.1 hnil
    have hdrop : after.dropWhile isBlank = [] := List.dropWhile_eq_nil_iff.2 hafter
    rw [trim, htext, hdrop]
  · rw [trimRight_append, if_pos hright]
    rfl

/-- An entry of an exposing list, with the white space around it. -/
structure Entry where
  before : List Char
  text : List Char
  after : List Char
deriving DecidableEq, Repr

namespace Entry

def spelling (entry : Entry) : List Char :=
  entry.before ++ entry.text ++ entry.after

/-- The name of a value or of a type, maybe with parentheses behind it, and other than two dots. -/
structure IsPrinted (entry : Entry) : Prop where
  before : ∀ c ∈ entry.before, isBlank c = true
  after : ∀ c ∈ entry.after, isBlank c = true
  paired : Paired true entry.text
  trimmed : trim entry.text = entry.text
  nonempty : entry.text ≠ []
  notDots : entry.text ≠ ['.', '.']

/-- Any text with paired parentheses and with commas only inside of them, in white space. -/
structure IsSpaced (entry : Entry) : Prop where
  before : ∀ c ∈ entry.before, isBlank c = true
  after : ∀ c ∈ entry.after, isBlank c = true
  paired : Paired true entry.text
  trimmed : trim entry.text = entry.text
  nonempty : entry.text ≠ []

variable {entry : Entry}

theorem IsPrinted.isSpaced (h : entry.IsPrinted) : entry.IsSpaced :=
  ⟨h.before, h.after, h.paired, h.trimmed, h.nonempty⟩

theorem IsSpaced.paired_spelling (h : entry.IsSpaced) : Paired true entry.spelling :=
  ((Paired.of_isBlank h.before).append h.paired).append (.of_isBlank h.after)

theorem IsSpaced.trim_spelling (h : entry.IsSpaced) : trim entry.spelling = entry.text :=
  (trim_append_of_isBlank h.before h.after).trans h.trimmed

theorem isSpaced_dots {before after : List Char} (hbefore : ∀ c ∈ before, isBlank c = true)
    (hafter : ∀ c ∈ after, isBlank c = true) : IsSpaced ⟨before, ['.', '.'], after⟩ :=
  { before := hbefore
    after := hafter
    paired := show Paired true ['.', '.'] from .of_all (by decide)
    trimmed := show trim ['.', '.'] = ['.', '.'] by decide +kernel
    nonempty := List.cons_ne_nil _ _ }

end Entry

/-- What a module exposes, as it is printed: everything, with white space around the two dots, or the
entries of a list. -/
inductive Listing
  | everything (before after : List Char)
  | only (entries : List Entry)
deriving DecidableEq, Repr

namespace Listing

/-- The text inside the parentheses. -/
def inside : Listing → List Char
  | .everything before after => before ++ ['.', '.'] ++ after
  | .only entries => [','].intercalate (entries.map Entry.spelling)

def IsPrinted : Listing → Prop
  | .everything before after => (∀ c ∈ before, isBlank c = true) ∧ ∀ c ∈ after, isBlank c = true
  | .only entries => ∀ entry ∈ entries, entry.IsPrinted

/-- Whether a name is exposed. -/
def exposes : Listing → String → Bool
  | .everything _ _, _ => true
  | .only entries, name => entries.any fun entry => entry.text == name.toList

variable {listing : Listing} {entries : List Entry}

/-- Two dots are a list with one entry. -/
theorem inside_everything (before after : List Char) :
    (everything before after).inside = (only [⟨before, ['.', '.'], after⟩]).inside :=
  (List.intercalate_singleton).symm

theorem paired_spellings (h : ∀ entry ∈ entries, entry.IsSpaced) :
    ∀ piece ∈ entries.map Entry.spelling, Paired true piece := by
  intro piece hpiece
  obtain ⟨entry, hentry, rfl⟩ := List.mem_map.1 hpiece
  exact (h entry hentry).paired_spelling

theorem paired_only (h : ∀ entry ∈ entries, entry.IsSpaced) : Paired false (only entries).inside :=
  .intercalate (paired_spellings h)

theorem listItems_only (h : ∀ entry ∈ entries, entry.IsSpaced) :
    listItems (only entries).inside = entries.map Entry.text := by
  have hitems : ((entries.map Entry.spelling).map trim).filter (fun item => !item.isEmpty) =
      entries.map Entry.text := by
    have htexts : (entries.map Entry.spelling).map trim = entries.map Entry.text := by
      rw [List.map_map]
      exact List.map_congr_left fun entry hentry => (h entry hentry).trim_spelling
    rw [htexts, List.filter_eq_self]
    intro item hitem
    obtain ⟨entry, hentry, rfl⟩ := List.mem_map.1 hitem
    simpa using (h entry hentry).nonempty
  by_cases hentries : entries = []
  · subst hentries
    rfl
  · rw [listItems, inside, splitCommas_intercalate (paired_spellings h) (by simpa using hentries), hitems]

theorem IsPrinted.isSpaced_dots {before after : List Char} (h : (everything before after).IsPrinted) :
    ∀ entry ∈ [(⟨before, ['.', '.'], after⟩ : Entry)], entry.IsSpaced :=
  List.forall_mem_singleton.2 (Entry.isSpaced_dots h.1 h.2)

theorem IsPrinted.isSpaced (h : (only entries).IsPrinted) : ∀ entry ∈ entries, entry.IsSpaced :=
  fun entry hentry => (h entry hentry).isSpaced

theorem IsPrinted.paired (h : listing.IsPrinted) : Paired false listing.inside := by
  cases listing with
  | everything before after =>
      rw [inside_everything]
      exact paired_only h.isSpaced_dots
  | only entries => exact paired_only h.isSpaced

theorem IsPrinted.listItems_everything {before after : List Char}
    (h : (everything before after).IsPrinted) :
    listItems (everything before after).inside = [['.', '.']] := by
  rw [inside_everything, listItems_only h.isSpaced_dots]
  rfl

/-- A printed list exposes the values that it is read to expose. -/
theorem IsPrinted.allows_exposedItems (h : listing.IsPrinted) {name : String}
    (hname : isLowerName name.toList = true) :
    (exposedItems (listItems listing.inside)).allows name = listing.exposes name := by
  cases listing with
  | everything before after =>
      rw [h.listItems_everything]
      rfl
  | only entries =>
      have hdots : entries.map Entry.text ≠ [['.', '.']] := by
        intro heq
        obtain ⟨entry, hentry, htext⟩ := List.mem_map.1 (heq ▸ List.mem_singleton_self ['.', '.'])
        exact (h entry hentry).notDots htext
      rw [listItems_only h.isSpaced, exposedItems, if_neg hdots, Exposing.allows, exposes, Bool.eq_iff_iff,
        List.contains_iff_mem, List.any_eq_true]
      constructor
      · intro hmem
        obtain ⟨item, hitem, rfl⟩ := List.mem_map.1 hmem
        obtain ⟨entry, hentry, rfl⟩ := List.mem_map.1 (List.mem_filter.1 hitem).1
        exact ⟨entry, hentry, by simp⟩
      · rintro ⟨entry, hentry, htext⟩
        rw [beq_iff_eq] at htext
        refine List.mem_map.2 ⟨entry.text, List.mem_filter.2 ⟨List.mem_map_of_mem hentry, ?_⟩, ?_⟩
        · rw [htext]
          exact hname
        · rw [htext, String.ofList_toList]

end Listing

end ElmSuite.Elm
