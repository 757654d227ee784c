import ElmSuite.Manifest.Constraint
import ElmSuite.Proofs.Elm.PrintedList
import ElmSuite.Proofs.Script.Reading

/-!
The grammar of version constraints.  A constraint is a version or a range that starts at one, with any
white space around and inside, and pinning finds that version: it succeeds on exactly the texts of the
grammar.
-/

namespace ElmSuite.Constraint

open Text

/-- A group of decimal digits. -/
abbrev digits : Language Char :=
  someRuns isDecimal

/-- Versions, three groups of digits with dots between. -/
def versions : Language Char :=
  (digits * mark '.') * (digits * mark '.') * digits

/-- What stands between the two bounds of a range. -/
def between : Language Char :=
  (blanks * literal "<=") * (blanks * mark 'v') * (blanks * mark '<')

/-- What follows the lower bound of a range. -/
def upwards : Language Char :=
  between * (blanks * versions)

/-- The texts of constraints that are pinned to a version: the version alone, and the ranges from
there. -/
def spellings (version : List Char) : Language Char :=
  blanks * ({version} * (1 + upwards)) * blanks

variable {text rest version : List Char}

/-! ### Versions -/

theorem exists_ends_of_mem_digits (h : text ∈ digits) :
    (∃ c more, text = c :: more ∧ isDecimal c = true) ∧
      ∃ front c, text = front ++ [c] ∧ isDecimal c = true := by
  obtain ⟨hne, hall⟩ := h
  obtain ⟨c, more, hcons⟩ := List.exists_cons_of_ne_nil hne
  obtain ⟨front, d, hconcat⟩ := (List.eq_nil_or_concat' text).resolve_left hne
  exact ⟨⟨c, more, hcons, hall c (by simp [hcons])⟩, front, d, hconcat, hall d (by simp [hconcat])⟩

/-- A version starts and ends with a digit. -/
theorem exists_ends_of_mem_versions (h : version ∈ versions) :
    (∃ c more, version = c :: more ∧ isDecimal c = true) ∧
      ∃ front c, version = front ++ [c] ∧ isDecimal c = true := by
  obtain ⟨_, ⟨_, ⟨major, hmajor, dot, -, rfl⟩, _, -, rfl⟩, patch, hpatch, rfl⟩ := h
  obtain ⟨c, more, rfl, hc⟩ := (exists_ends_of_mem_digits hmajor).1
  obtain ⟨front, d, rfl, hd⟩ := (exists_ends_of_mem_digits hpatch).2
  exact ⟨⟨c, _, rfl, hc⟩, _, d, (List.append_assoc _ _ _).symm, hd⟩

/-- All digits at the start of a text are taken. -/
theorem afterDecimals?_eq_some_iff : afterDecimals? text = some rest ↔
    ∃ word ∈ digits, text = word ++ rest ∧ ∀ c ∈ rest.head?, isDecimal c = false := by
  rw [afterDecimals?]
  constructor
  · intro h
    split at h
    · cases h
    · next hne =>
      cases h
      refine ⟨text.takeWhile isDecimal, ⟨hne, fun c hc => List.mem_takeWhile_imp hc⟩,
        List.takeWhile_append_dropWhile.symm, fun c hc => ?_⟩
      have hhead := List.head?_dropWhile_not isDecimal text
      rw [Option.mem_def.1 hc] at hhead
      exact hhead
  · rintro ⟨word, ⟨hne, hall⟩, rfl, hrest⟩
    obtain ⟨c, more, rfl⟩ := List.exists_cons_of_ne_nil hne
    rw [takeWhile_append_of_head hall hrest, dropWhile_append_of_head hall hrest]

theorem reads_group :
    Reads (fun text => (afterDecimals? text).bind (after? ['.'])) (digits * mark '.') := by
  have hdot : isDecimal '.' = false := by decide +kernel
  refine ((reads_mark '.').skipSome (startsOff_mark hdot)).congr fun text => ?_
  rw [afterDecimals?]
  cases text.takeWhile isDecimal <;> rfl

theorem readVersion?_eq_some_iff : readVersion? text = some (version, rest) ↔
    version ∈ versions ∧ text = version ++ rest ∧ ∀ c ∈ rest.head?, isDecimal c = false := by
  have hbind : readVersion? text =
      (((afterDecimals? text).bind (after? ['.'])).bind fun minor =>
        (afterDecimals? minor).bind (after? ['.'])).bind fun patch =>
          (afterDecimals? patch).map fun rest => (text.take (text.length - rest.length), rest) := by
    simp only [readVersion?, Option.bind_eq_bind, Option.bind_assoc, Option.map_eq_bind]
    rfl
  rw [hbind, Option.bind_eq_some_iff]
  constructor
  · rintro ⟨patch, hpatch, h⟩
    obtain ⟨front, hfront, rfl⟩ := (reads_group.bind reads_group _ _).1 hpatch
    obtain ⟨_, hrest, heq⟩ := Option.map_eq_some_iff.1 h
    obtain ⟨last, hlast, rfl, hstop⟩ := afterDecimals?_eq_some_iff.1 hrest
    cases heq
    rw [← List.append_assoc, List.length_append, Nat.add_sub_cancel, List.take_left]
    exact ⟨⟨front, hfront, last, hlast, rfl⟩, rfl, hstop⟩
  · rintro ⟨⟨front, hfront, last, hlast, rfl⟩, rfl, hstop⟩
    refine ⟨last ++ rest, (reads_group.bind reads_group _ _).2 ⟨front, hfront, ?_⟩, ?_⟩
    · exact List.append_assoc _ _ _
    · rw [afterDecimals?_eq_some_iff.2 ⟨last, hlast, rfl, hstop⟩, Option.map_some]
      rw [List.length_append, Nat.add_sub_cancel, List.take_left]

theorem isVersion_iff : isVersion text = true ↔ text ∈ versions := by
  have hwhole : isVersion text = true ↔ ∃ version, readVersion? text = some (version, []) := by
    rw [isVersion]
    split <;> simp_all
  rw [hwhole]
  constructor
  · rintro ⟨version, h⟩
    obtain ⟨hversion, rfl, -⟩ := readVersion?_eq_some_iff.1 h
    rwa [List.append_nil]
  · exact fun h => ⟨text, readVersion?_eq_some_iff.2 ⟨h, (List.append_nil _).symm, by simp⟩⟩

/-! ### Ranges -/

theorem startsOff_upwards : StartsOff isDecimal upwards := by
  have hmark : isDecimal '<' = false := by decide +kernel
  have hliteral : StartsOff isDecimal (literal "<=") := startsOff_literal ⟨'<', ['='], rfl, hmark⟩
  exact (((hliteral.blanks_mul fun _ => not_isDecimal_of_isBlank).mul _).mul _).mul _

/-- The lower bound of a range is read up to its end. -/
theorem readVersion?_append (hversion : version ∈ versions) (hrest : rest ∈ upwards) :
    readVersion? (version ++ rest) = some (version, rest) := by
  obtain ⟨c, more, rfl, hc⟩ := startsOff_upwards rest hrest
  exact readVersion?_eq_some_iff.2 ⟨hversion, rfl, by simp [hc]⟩

/-- A range is no version. -/
theorem not_isVersion_append (hversion : version ∈ versions) (hrest : rest ∈ upwards) :
    ¬ isVersion (version ++ rest) = true := by
  obtain ⟨c, more, rfl, -⟩ := startsOff_upwards rest hrest
  rw [isVersion, readVersion?_append hversion hrest]
  exact Bool.false_ne_true

/-- What follows the signs between the bounds of a range. -/
def afterBetween? (text : List Char) : Option (List Char) :=
  ((afterBlanksThen? ['<', '='] text).bind (afterBlanksThen? ['v'])).bind (afterBlanksThen? ['<'])

theorem reads_between : Reads afterBetween? between := by
  have hlower : Reads (afterBlanksThen? ['<', '=']) (blanks * literal "<=") :=
    reads_afterBlanksThen? ⟨'<', ['='], rfl, by decide⟩
  have hname : Reads (afterBlanksThen? ['v']) (blanks * mark 'v') := reads_blanksThenMark (by decide)
  have hupper : Reads (afterBlanksThen? ['<']) (blanks * mark '<') := reads_blanksThenMark (by decide)
  exact (hlower.bind hname).bind hupper

theorem not_isBlank_of_isDecimal {c : Char} (h : isDecimal c = true) : isBlank c = false := by
  by_contra hblank
  rw [not_isDecimal_of_isBlank (by simpa using hblank)] at h
  cases h

theorem mem_blanks_mul_versions :
    text ∈ blanks * versions ↔ text.dropWhile isBlank ∈ versions := by
  constructor
  · rintro ⟨gap, hgap, version, hversion, rfl⟩
    obtain ⟨c, more, rfl, hc⟩ := (exists_ends_of_mem_versions hversion).1
    rw [dropWhile_append_of_head hgap (by simp [not_isBlank_of_isDecimal hc])]
    exact hversion
  · exact fun h => ⟨text.takeWhile isBlank, fun c hc => List.mem_takeWhile_imp hc, _, h,
      List.takeWhile_append_dropWhile⟩

theorem lowerBound?_eq_some_iff : lowerBound? text = some version ↔
    version ∈ versions ∧ ∃ rest ∈ upwards, text = version ++ rest := by
  have hbind : lowerBound? text = (readVersion? text).bind fun found =>
      (afterBetween? found.2).bind fun upper =>
        if isVersion (upper.dropWhile isBlank) then some found.1 else none := by
    simp only [lowerBound?, afterBetween?, Option.bind_eq_bind, Option.bind_assoc]
  simp only [hbind, Option.bind_eq_some_iff, Option.ite_none_right_eq_some, Option.some.injEq]
  constructor
  · rintro ⟨⟨_, rest⟩, hlower, upper, hupper, hversion, rfl⟩
    obtain ⟨hbound, rfl, -⟩ := readVersion?_eq_some_iff.1 hlower
    obtain ⟨word, hword, rfl⟩ := (reads_between _ _).1 hupper
    refine ⟨hbound, _, ⟨word, hword, upper, ?_, rfl⟩, rfl⟩
    exact mem_blanks_mul_versions.2 (isVersion_iff.1 hversion)
  · rintro ⟨hlower, _, hrest, rfl⟩
    refine ⟨_, readVersion?_append hlower hrest, ?_⟩
    obtain ⟨word, hword, upper, hupper, rfl⟩ := hrest
    refine ⟨upper, (reads_between _ _).2 ⟨word, hword, rfl⟩, ?_, rfl⟩
    exact isVersion_iff.2 (mem_blanks_mul_versions.1 hupper)

/-! ### White space around -/

theorem exists_trim (text : List Char) : ∃ before ∈ blanks, ∃ after ∈ blanks,
    text = before ++ trim text ++ after := by
  refine ⟨text.takeWhile isBlank, fun c hc => List.mem_takeWhile_imp hc,
    ((trimLeft text).reverse.takeWhile isBlank).reverse, fun c hc => ?_, ?_⟩
  · exact List.mem_takeWhile_imp (List.mem_reverse.1 hc)
  · rw [List.append_assoc, trim, trimRight, ← List.reverse_append, List.takeWhile_append_dropWhile,
      List.reverse_reverse, trimLeft, List.takeWhile_append_dropWhile]

theorem trim_eq_self {first last : Char} (hhead : text.head? = some first)
    (hlast : text.getLast? = some last) (hfirst : isBlank first = false)
    (hend : isBlank last = false) : trim text = text := by
  have hleft : trimLeft text = text := dropWhile_eq_self_of_head (by simp [hhead, hfirst])
  have hright : text.reverse.dropWhile isBlank = text.reverse :=
    dropWhile_eq_self_of_head (by simp [hlast, hend])
  rw [trim, hleft, trimRight, hright, List.reverse_reverse]

/-- White space around the words of a language is what trimming takes away, if no word has any at its
ends. -/
theorem mem_blanks_mul_mul_blanks {words : Language Char} (h : ∀ word ∈ words, trim word = word) :
    text ∈ blanks * words * blanks ↔ trim text ∈ words := by
  constructor
  · rintro ⟨_, ⟨before, hbefore, word, hword, rfl⟩, after, hafter, rfl⟩
    rw [Elm.trim_append_of_isBlank hbefore hafter, h word hword]
    exact hword
  · intro hword
    obtain ⟨before, hbefore, after, hafter, heq⟩ := exists_trim text
    rw [heq]
    exact ⟨_, ⟨before, hbefore, _, hword, rfl⟩, after, hafter, rfl⟩

theorem mem_singleton_mul_one_add : text ∈ ({version} : Language Char) * (1 + upwards) ↔
    text = version ∨ ∃ rest ∈ upwards, text = version ++ rest := by
  rw [mul_add, mul_one, Language.mem_add]
  refine or_congr Iff.rfl ⟨?_, ?_⟩
  · rintro ⟨_, rfl, rest, hrest, rfl⟩
    exact ⟨rest, hrest, rfl⟩
  · rintro ⟨rest, hrest, rfl⟩
    exact ⟨version, rfl, rest, hrest, rfl⟩

theorem trim_of_mem (hversion : version ∈ versions)
    (h : text ∈ ({version} : Language Char) * (1 + upwards)) : trim text = text := by
  obtain ⟨⟨c, more, hcons, hc⟩, front, d, hconcat, hd⟩ := exists_ends_of_mem_versions hversion
  rcases mem_singleton_mul_one_add.1 h with rfl | ⟨_, ⟨word, -, _, ⟨gap, -, upper, hupper, rfl⟩, rfl⟩, rfl⟩
  · exact trim_eq_self (by rw [hcons]; rfl) (by rw [hconcat, List.getLast?_concat])
      (not_isBlank_of_isDecimal hc) (not_isBlank_of_isDecimal hd)
  · obtain ⟨back, e, rfl, he⟩ := (exists_ends_of_mem_versions hupper).2
    exact trim_eq_self (by rw [hcons]; rfl) (by simp [← List.append_assoc])
      (not_isBlank_of_isDecimal hc) (not_isBlank_of_isDecimal he)

/-- A text is pinned to a version exactly if it spells a constraint from that version on. -/
theorem pin?_eq_some_iff {constraint version : String} : pin? constraint = some version ↔
    version.toList ∈ versions ∧ constraint.toList ∈ spellings version.toList := by
  have hspelled {version : List Char} (h : version ∈ versions) :
      constraint.toList ∈ spellings version ↔ trim constraint.toList = version ∨
        ∃ rest ∈ upwards, trim constraint.toList = version ++ rest :=
    (mem_blanks_mul_mul_blanks fun word hword => trim_of_mem h hword).trans mem_singleton_mul_one_add
  unfold pin?
  dsimp only
  constructor
  · intro h
    split at h
    · next hexact =>
      rw [isVersion_iff] at hexact
      cases h
      rw [String.toList_ofList]
      exact ⟨hexact, (hspelled hexact).2 (.inl rfl)⟩
    · obtain ⟨lower, hlower, rfl⟩ := Option.map_eq_some_iff.1 h
      obtain ⟨hversion, hrange⟩ := lowerBound?_eq_some_iff.1 hlower
      rw [String.toList_ofList]
      exact ⟨hversion, (hspelled hversion).2 (.inr hrange)⟩
  · rintro ⟨hversion, h⟩
    rcases (hspelled hversion).1 h with hexact | ⟨rest, hrest, hrange⟩
    · rw [hexact, if_pos (isVersion_iff.2 hversion), String.ofList_toList]
    · rw [hrange, if_neg (not_isVersion_append hversion hrest),
        lowerBound?_eq_some_iff.2 ⟨hversion, rest, hrest, rfl⟩, Option.map_some, String.ofList_toList]

end ElmSuite.Constraint
