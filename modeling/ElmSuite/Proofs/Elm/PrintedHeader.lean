import ElmSuite.Proofs.Elm.PrintedList

/-!
The header of a module and the values that it exposes.  Any white space may stand between its words and
around the entries of its list, and any text behind the parenthesis that closes the list: the search
takes the first header, the first list behind it, and of that list what stands inside of its own
parentheses.
-/

namespace ElmSuite.Elm

open Text

variable {c : Char}

/-- White space between two words. -/
structure IsGap (gap : List Char) : Prop where
  nonempty : gap ≠ []
  blank : ∀ c ∈ gap, isBlank c = true

/-- A text that starts with something other than white space and an equals sign. -/
def StartsPlain (text : List Char) : Prop :=
  ∃ c rest, text = c :: rest ∧ isBlank c = false ∧ c ≠ '='

/-- The header of a module, with all its white space. -/
structure Header where
  /-- What stands between the words `port` and `module`, if the header starts with `port`. -/
  port : Option (List Char)
  beforeName : List Char
  name : List Char
  beforeExposing : List Char
  beforeList : List Char
  listing : Listing
  /-- White space up to the end of the last line of the header. -/
  ending : List Char
deriving DecidableEq, Repr

namespace Header

/-- The header behind the white space that follows the name. -/
def exposingText (header : Header) : List Char :=
  "exposing".toList ++ (header.beforeList ++ '(' :: (header.listing.inside ++ ')' :: header.ending))

/-- The header without the word `port`. -/
def moduleText (header : Header) : List Char :=
  "module".toList ++
    (header.beforeName ++ (header.name ++ (header.beforeExposing ++ header.exposingText)))

def text (header : Header) : List Char :=
  match header.port with
  | none => header.moduleText
  | some gap => "port".toList ++ (gap ++ header.moduleText)

structure IsPrinted (header : Header) : Prop where
  port : ∀ gap ∈ header.port, IsGap gap
  beforeName : IsGap header.beforeName
  name : header.name ≠ [] ∧ ∀ c ∈ header.name, isNameChar c = true
  beforeExposing : IsGap header.beforeExposing
  beforeList : ∀ c ∈ header.beforeList, isBlank c = true
  listing : header.listing.IsPrinted
  ending : ∀ c ∈ header.ending, isBlank c = true

/-- A header with white space between its words, whatever it exposes and whatever follows the list. -/
structure IsSpaced (header : Header) : Prop where
  port : ∀ gap ∈ header.port, IsGap gap
  beforeName : IsGap header.beforeName
  name : header.name ≠ [] ∧ ∀ c ∈ header.name, isNameChar c = true
  beforeExposing : IsGap header.beforeExposing
  beforeList : ∀ c ∈ header.beforeList, isBlank c = true

theorem IsPrinted.isSpaced {header : Header} (h : header.IsPrinted) : header.IsSpaced :=
  ⟨h.port, h.beforeName, h.name, h.beforeExposing, h.beforeList⟩

end Header

theorem after?_append (lead rest : List Char) : after? lead (lead ++ rest) = some rest := by
  induction lead with
  | nil => exact after?_nil rest
  | cons c lead ih => rw [List.cons_append, after?_cons, if_pos rfl, ih]

theorem IsGap.afterBlanks? {gap : List Char} (h : IsGap gap) (hc : isBlank c = false) (rest : List Char) :
    afterBlanks? (gap ++ c :: rest) = some (c :: rest) := by
  obtain ⟨d, more, rfl⟩ := List.exists_cons_of_ne_nil h.nonempty
  rw [List.cons_append, afterBlanks?_cons, if_pos (h.blank d List.mem_cons_self), ← List.cons_append,
    List.dropWhile_append_of_pos h.blank, List.dropWhile_cons_of_neg (by simp [hc])]

theorem openedList?_append {gap : List Char} (h : ∀ d ∈ gap, isBlank d = true) (list : List Char) :
    openedList? ("exposing".toList ++ (gap ++ '(' :: list)) = some list := by
  rw [openedList?, after?_append, Option.bind_eq_bind, Option.bind_some, List.dropWhile_append_of_pos h,
    List.dropWhile_cons_of_neg (by decide), after?_cons, if_pos rfl, after?_nil]

theorem not_isBlank_of_isNameChar (h : isNameChar c = true) : isBlank c = false := by
  rw [Bool.eq_false_iff]
  intro hblank
  rw [not_isNameChar_of_isBlank hblank] at h
  cases h

namespace Header

variable {header : Header}

theorem IsSpaced.startsPlain_name (h : header.IsSpaced) : StartsPlain header.name := by
  obtain ⟨c, more, hname⟩ := List.exists_cons_of_ne_nil h.name.1
  have hc : isNameChar c = true := h.name.2 c (by rw [hname]; exact List.mem_cons_self)
  refine ⟨c, more, hname, not_isBlank_of_isNameChar hc, ?_⟩
  rintro rfl
  exact absurd hc (by decide +kernel)

theorem IsSpaced.afterModule? (h : header.IsSpaced) (rest : List Char) :
    ∃ gap, (∀ c ∈ gap, isBlank c = true) ∧
      Elm.afterModule? (header.moduleText ++ rest) = some (gap ++ (header.exposingText ++ rest)) := by
  obtain ⟨b, gap, hgap⟩ := List.exists_cons_of_ne_nil h.beforeExposing.nonempty
  obtain ⟨c, more, hname, hc, -⟩ := h.startsPlain_name
  have hblank := h.beforeExposing.blank
  rw [hgap, List.forall_mem_cons] at hblank
  have hb : isNameChar b = false := not_isNameChar_of_isBlank hblank.1
  refine ⟨gap, hblank.2, ?_⟩
  have hword : afterWord? "module".toList (header.moduleText ++ rest) =
      some (header.name ++ b :: (gap ++ (header.exposingText ++ rest))) := by
    have htext : header.moduleText ++ rest = "module".toList ++ (header.beforeName ++
        (header.name ++ b :: (gap ++ (header.exposingText ++ rest)))) := by
      simp only [moduleText, hgap, List.append_assoc, List.cons_append]
    rw [afterWord?, htext, after?_append]
    rw [hname, List.cons_append]
    exact h.beforeName.afterBlanks? hc _
  have htake : (header.name ++ b :: (gap ++ (header.exposingText ++ rest))).takeWhile isNameChar =
      c :: more := by
    rw [List.takeWhile_append_of_pos h.name.2, List.takeWhile_cons_of_neg (by simp [hb]),
      List.append_nil, hname]
  have hdrop : (header.name ++ b :: (gap ++ (header.exposingText ++ rest))).dropWhile isNameChar =
      b :: (gap ++ (header.exposingText ++ rest)) := by
    rw [List.dropWhile_append_of_pos h.name.2, List.dropWhile_cons_of_neg (by simp [hb])]
  rw [afterModule?_eq, hword, Option.bind_some, behindName?, htake, hdrop]
  simp only [hblank.1, if_true]

theorem IsSpaced.afterHeader? (h : header.IsSpaced) (rest : List Char) :
    ∃ gap, (∀ c ∈ gap, isBlank c = true) ∧
      Elm.afterHeader? (header.text ++ rest) = some (gap ++ (header.exposingText ++ rest)) := by
  obtain ⟨gap, hgap, hmodule⟩ := h.afterModule? rest
  refine ⟨gap, hgap, ?_⟩
  cases hport : header.port with
  | none =>
      have hnone : afterKeyword? "port" (header.text ++ rest) = none ∧
          afterKeyword? "effect" (header.text ++ rest) = none := by
        rw [text, hport]
        exact ⟨rfl, rfl⟩
      rw [Elm.afterHeader?, hnone.1, hnone.2, text, hport, hmodule]
      rfl
  | some wide =>
      have hstart : afterWord? "port".toList (header.text ++ rest) = some (header.moduleText ++ rest) := by
        rw [text, hport, afterWord?, List.append_assoc, List.append_assoc, after?_append]
        exact (h.port wide hport).afterBlanks? (by decide) _
      rw [Elm.afterHeader?, afterKeyword?_eq, hstart, Option.bind_some, hmodule]
      rfl

theorem exposingText_append (header : Header) (rest : List Char) :
    header.exposingText ++ rest = "exposing".toList ++ (header.beforeList ++
      '(' :: (header.listing.inside ++ ')' :: (header.ending ++ rest))) := by
  unfold exposingText
  rw [List.append_assoc, List.append_assoc, List.cons_append, List.append_assoc, List.cons_append]

/-- What the header of a module exposes, if the parentheses inside of its list are paired. -/
theorem IsSpaced.exposedNames (h : header.IsSpaced) (hpaired : Paired false header.listing.inside)
    (rest : List Char) : Elm.exposedNames (header.text ++ rest) = exposedItems (listItems header.listing.inside) := by
  obtain ⟨gap, hgap, hheader⟩ := h.afterHeader? rest
  have hfirst : afterFirstHeader? true (header.text ++ rest) =
      some (gap ++ (header.exposingText ++ rest)) := by
    cases htext : header.text ++ rest with
    | nil =>
        rw [htext] at hheader
        cases hheader
    | cons c more =>
        rw [htext] at hheader
        rw [afterFirstHeader?, if_pos rfl, hheader]
        rfl
  have hblanks (gap text : List Char) (hgap : ∀ c ∈ gap, isBlank c = true) :
      afterExposing? false (gap ++ text) = afterExposing? false text := by
    induction gap with
    | nil => rfl
    | cons c gap ih =>
        rw [List.forall_mem_cons] at hgap
        rw [List.cons_append, afterExposing?_blank hgap.1, ih hgap.2]
  have hopened : openedList? (header.exposingText ++ rest) =
      some (header.listing.inside ++ ')' :: (header.ending ++ rest)) := by
    rw [exposingText_append, openedList?_append h.beforeList]
  have hlist : afterExposing? false (header.exposingText ++ rest) =
      some (header.listing.inside ++ ')' :: (header.ending ++ rest)) := by
    cases htext : header.exposingText ++ rest with
    | nil =>
        rw [htext] at hopened
        cases hopened
    | cons c more =>
        rw [htext] at hopened
        rw [afterExposing?_cons, hopened]
        rfl
  rw [exposedNames_of_header hfirst, exposedBehind, hblanks gap _ hgap, hlist]
  simp only [hpaired.insideParens]

/-- What the header of a module exposes: everything if two dots are all that its list holds, and
otherwise the entries that are names of values, in their order and as often as they stand there.  The
text behind the list makes no difference. -/
theorem exposedNames_text_append {entries : List Entry} (h : header.IsSpaced)
    (hlisting : header.listing = .only entries) (hentries : ∀ entry ∈ entries, entry.IsSpaced)
    (rest : List Char) :
    Elm.exposedNames (header.text ++ rest) =
      if entries.map Entry.text = [['.', '.']] then .everything
      else .only (((entries.map Entry.text).filter isLowerName).map String.ofList) := by
  have hpaired : Paired false header.listing.inside := by
    rw [hlisting]
    exact Listing.paired_only hentries
  have hitems : listItems header.listing.inside = entries.map Entry.text := by
    rw [hlisting]
    exact Listing.listItems_only hentries
  rw [h.exposedNames hpaired, hitems, exposedItems]

/-- A value that stands twice in a list, beside an operator, two dots and a type with constructors. -/
def scatteredEntries : List Entry :=
  [ ⟨['\n'], "b1".toList, [' ']⟩
  , ⟨[], "(|.)".toList, []⟩
  , ⟨[' '], "Msg(A,(B,C))".toList, ['\n']⟩
  , ⟨[], ['a'], []⟩
  , ⟨[' '], "..".toList, []⟩
  , ⟨[' '], "b1".toList, ['\n']⟩ ]

/-- A header over several lines, with more parentheses and another list behind its own. -/
def scattered : Header where
  port := some ['\n']
  beforeName := "\n ".toList
  name := "A.B_".toList
  beforeExposing := "\n    ".toList
  beforeList := ['\n']
  listing := .only scatteredEntries
  ending := " c )".toList

theorem exposedNames_text_append_of_scattered :
    scattered.IsSpaced ∧ (∀ entry ∈ scatteredEntries, entry.IsSpaced) ∧
      Elm.exposedNames (scattered.text ++ "\nimport A exposing (..), ()\n".toList) =
        .only ["b1", "a", "b1"] := by
  have hbreak : ∀ c ∈ ['\n'], isBlank c = true := List.all_eq_true.1 (by decide)
  have hheader : scattered.IsSpaced :=
    { port := by simpa [scattered] using ⟨List.cons_ne_nil _ _, hbreak⟩
      beforeName := ⟨by decide, List.all_eq_true.1 (by decide)⟩
      name := ⟨by decide, List.all_eq_true.1 (by decide +kernel)⟩
      beforeExposing := ⟨by decide, List.all_eq_true.1 (by decide)⟩
      beforeList := hbreak }
  have hgroup {bare : Bool} {inner : List Char} (hinner : Paired false inner) :
      Paired bare ('(' :: (inner ++ [')'])) :=
    .group hinner .nil
  have htypes : Paired false "B,C".toList := .of_all (by decide)
  have hparams : Paired false "A,".toList := .of_all (by decide)
  have hname : Paired true "Msg".toList := .of_all (by decide)
  have hmsg : Paired true "Msg(A,(B,C))".toList := hname.append (hgroup (hparams.append (hgroup htypes)))
  have hentries : ∀ entry ∈ scatteredEntries, entry.IsSpaced := by
    have hspace : ∀ c ∈ [' '], isBlank c = true := List.all_eq_true.1 (by decide)
    have hnone : ∀ c ∈ ([] : List Char), isBlank c = true := by simp
    simp only [scatteredEntries, List.forall_mem_cons]
    exact ⟨⟨hbreak, hspace, .of_all (by decide), by decide +kernel, by decide⟩,
      ⟨hnone, hnone, hgroup (.of_all (by decide) : Paired false "|.".toList), by decide +kernel, by decide⟩,
      ⟨hspace, hbreak, hmsg, by decide +kernel, by decide⟩,
      ⟨hnone, hnone, .of_all (by decide), by decide +kernel, by decide⟩,
      ⟨hspace, hnone, .of_all (by decide), by decide +kernel, by decide⟩,
      ⟨hspace, hbreak, .of_all (by decide), by decide +kernel, by decide⟩, by simp⟩
  refine ⟨hheader, hentries, ?_⟩
  rw [exposedNames_text_append hheader rfl hentries]
  decide +kernel

end Header

end ElmSuite.Elm
