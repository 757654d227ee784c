import ElmSuite.Json.OutlineReader
import ElmSuite.Proofs.Json.PrintedValue
import ElmSuite.Proofs.Lists
import ElmSuite.Proofs.Text.Codes

/-!
The texts in values that are read.  A reader of characters gives sequences of code points, halves of
surrogate pairs among them; a reader of bytes gives texts; and what is read back of a printed value
has nothing but texts.
-/

namespace ElmSuite

/-- All texts of an outline, the names of members among them, have a property. -/
inductive Outline.AllTexts (P : Codes → Prop) : Outline → Prop
  | text {codes : Codes} (h : P codes) : AllTexts P (.text codes)
  | list {items : List Outline} (h : ∀ item ∈ items, AllTexts P item) : AllTexts P (.list items)
  | object {members : List (Codes × Outline)} (names : ∀ member ∈ members, P member.1)
      (values : ∀ member ∈ members, AllTexts P member.2) : AllTexts P (.object members)
  | other : AllTexts P .other

namespace Json

theorem outlineItems_eq_map (items : List Json) : outlineItems items = items.map outline := by
  induction items with
  | nil => rfl
  | cons item items ih => rw [outlineItems, ih, List.map_cons]

theorem outlineMembers_eq_map (members : List (Codes × Json)) :
    outlineMembers members = members.map fun member => (member.1, member.2.outline) := by
  induction members with
  | nil => rfl
  | cons member members ih => rw [outlineMembers, ih, List.map_cons]

variable {P : Codes → Prop}

theorem allTexts_list {items : List Json} :
    (Json.list items).outline.AllTexts P ↔ ∀ item ∈ items, item.outline.AllTexts P := by
  rw [outline, outlineItems_eq_map]
  constructor
  · rintro ⟨h⟩
    exact List.forall_mem_map.1 ‹_›
  · exact fun h => .list (List.forall_mem_map.2 h)

/-- All texts of some members have a property. -/
def MembersHave (P : Codes → Prop) (members : List (Codes × Json)) : Prop :=
  ∀ member ∈ members, P member.1 ∧ member.2.outline.AllTexts P

theorem allTexts_object {members : List (Codes × Json)} :
    (Json.object members).outline.AllTexts P ↔ MembersHave P members := by
  rw [outline, outlineMembers_eq_map]
  constructor
  · rintro (_ | _ | ⟨names, values⟩)
    exact fun member hmember =>
      ⟨List.forall_mem_map.1 names member hmember, List.forall_mem_map.1 values member hmember⟩
  · exact fun h => .object (List.forall_mem_map.2 fun member hmember => (h member hmember).1)
      (List.forall_mem_map.2 fun member hmember => (h member hmember).2)

theorem MembersHave.putPair {name : Codes} {value : Json} {members : List (Codes × Json)}
    (h : MembersHave P members) (hname : P name) (hvalue : value.outline.AllTexts P) :
    MembersHave P (putPair name value members) := by
  intro member hmember
  rcases mem_putPair hmember with rfl | hmember
  · exact ⟨hname, hvalue⟩
  · exact h member hmember

/-! ### Code points -/

theorem digitValue?_lt {base value : Nat} {c : Char} (h : Text.digitValue? base c = some value) :
    value < base := by
  unfold Text.digitValue? at h
  simpa using (Option.filter_eq_some_iff.1 h).2

theorem hexCode?_lt {a b c d : Char} {code : Nat} (h : hexCode? a b c d = some code) :
    code < 0x10000 := by
  simp only [hexCode?, List.mapM_cons, List.mapM_nil, Option.map_eq_some_iff, Option.bind_eq_bind,
    Option.bind_eq_some_iff, Option.pure_def, Option.some.injEq] at h
  obtain ⟨_, ⟨w, hw, _, ⟨x, hx, _, ⟨y, hy, _, ⟨z, hz, _, rfl, rfl⟩, rfl⟩, rfl⟩, rfl⟩, rfl⟩ := h
  have hw := digitValue?_lt hw
  have hx := digitValue?_lt hx
  have hy := digitValue?_lt hy
  have hz := digitValue?_lt hz
  simp only [Text.ofDigits, List.foldl_cons, List.foldl_nil]
  omega

theorem joinSurrogates_lt {high low : Nat} (hhigh : isHighSurrogate high = true)
    (hlow : isLowSurrogate low = true) : joinSurrogates high low < 0x110000 := by
  simp only [isHighSurrogate, isLowSurrogate, Bool.and_eq_true, decide_eq_true_eq] at hhigh hlow
  unfold joinSurrogates
  omega

theorem pairedCode?_lt {high joined : Nat} {text : List Char}
    (h : pairedCode? high text = .ok (some joined)) : joined < 0x110000 := by
  unfold pairedCode? at h
  split at h
  · split at h
    · next hhigh =>
      split at h
      · cases h
      · next low _ =>
        by_cases hlow : isLowSurrogate low = true
        · have hlt := joinSurrogates_lt hhigh hlow
          generalize joinSurrogates high low = found at h hlt
          rw [if_pos hlow] at h
          cases h
          exact hlt
        · rw [if_neg hlow] at h
          cases h
    · cases h
  · cases h

theorem toNat_lt (c : Char) : c.toNat < 0x110000 :=
  (Codes.isText_ofChars [c]).inRange _ (List.mem_singleton.2 rfl)

theorem escapedCode?_lt {c : Char} {code : Nat} (h : escapedCode? c = some code) :
    code < 0x110000 := by
  unfold escapedCode? at h
  have hc := toNat_lt c
  repeat' split at h
  all_goals
    cases h
  all_goals omega

theorem consCode_eq_ok {code : Nat} {reading : Reading Codes} {codes : Codes} {rest : List Char}
    (h : consCode code reading = .ok (codes, rest)) :
    ∃ more, codes = code :: more ∧ reading = .ok (more, rest) := by
  cases reading with
  | error defect => cases h
  | ok found =>
      cases h
      exact ⟨_, rfl, rfl⟩

theorem inRange_cons {code : Nat} {codes : Codes} (hcode : code < 0x110000) (h : codes.InRange) :
    Codes.InRange (code :: codes) :=
  List.forall_mem_cons.2 ⟨hcode, h⟩

theorem inRange_of_consCode {code : Nat} {reading : Reading Codes} {codes : Codes}
    {rest : List Char} (h : consCode code reading = .ok (codes, rest)) (hcode : code < 0x110000)
    (hrest : ∀ more, reading = .ok (more, rest) → more.InRange) : codes.InRange := by
  obtain ⟨more, rfl, hmore⟩ := consCode_eq_ok h
  exact inRange_cons hcode (hrest more hmore)

/-- What a string holds are code points. -/
theorem readString_inRange {opened : Nat} {text rest : List Char} {codes : Codes}
    (h : readString opened text = .ok (codes, rest)) : codes.InRange := by
  fun_induction readString opened text generalizing codes with
  | case2 =>
      cases h
      exact fun _ hnil => absurd hnil List.not_mem_nil
  | case5 a b c d more code hcode _ ih =>
      apply inRange_of_consCode h _ fun _ => ih
      split at hcode
      · cases hcode
      · exact Nat.lt_trans (hexCode?_lt hcode) (by decide)
  | case6 a b c d code joined e f g i j k others _ hjoined ih =>
      exact inRange_of_consCode h (pairedCode?_lt hjoined) fun _ => ih
  | case10 c rest _ code hcode ih =>
      exact inRange_of_consCode h (escapedCode?_lt hcode) fun _ => ih
  | case13 c rest _ _ _ _ _ ih => exact inRange_of_consCode h (toNat_lt c) fun _ => ih
  | _ => cases h

/-! ### Values -/

theorem outline_of_readNumber? {text rest : List Char} {value : Json}
    (h : readNumber? text = some (.ok (value, rest))) : value.outline = .other := by
  unfold readNumber? at h
  simp only [Option.bind_eq_bind, Option.bind_eq_some_iff] at h
  obtain ⟨whole, -, h⟩ := h
  split at h
  · split at h
    · cases Option.some.inj h
    · rw [← (Prod.mk.inj (Except.ok.inj (Option.some.inj h))).1]
      rfl
  · rw [← (Prod.mk.inj (Except.ok.inj (Option.some.inj h))).1]
    rfl

theorem outline_of_readAtom {text rest : List Char} {value : Json}
    (h : readAtom text = .ok (value, rest)) : value.outline = .other := by
  unfold readAtom at h
  dsimp only at h
  split at h
  · next found hfound =>
    cases h
    obtain ⟨⟨word, value'⟩, hmem, hword⟩ := List.exists_of_findSome?_eq_some hfound
    obtain ⟨after, -, heq⟩ := Option.map_eq_some_iff.1 hword
    cases heq
    simp only [wordValues, List.mem_cons, Prod.mk.injEq, List.not_mem_nil, or_false] at hmem
    rcases hmem with ⟨-, rfl⟩ | ⟨-, rfl⟩ | ⟨-, rfl⟩ | ⟨-, rfl⟩ | ⟨-, rfl⟩ | ⟨-, rfl⟩ <;> rfl
  · split at h
    · next found hfound =>
      subst h
      exact outline_of_readNumber? hfound
    · cases h

/-- The readers, with some fuel, give values whose texts are code points. -/
structure ReadsCodePoints (fuel : Nat) : Prop where
  value {depth : Nat} {text rest : List Char} {value : Json}
    (h : readValue fuel depth text = .ok (value, rest)) : value.outline.AllTexts Codes.InRange
  items {depth : Nat} {found : List Json} {text rest : List Char} {value : Json}
    (h : readItems fuel depth found text = .ok (value, rest))
    (hfound : ∀ item ∈ found, item.outline.AllTexts Codes.InRange) :
    value.outline.AllTexts Codes.InRange
  members {depth : Nat} {found : List (Codes × Json)} {text rest : List Char} {value : Json}
    (h : readMembers fuel depth found text = .ok (value, rest))
    (hfound : MembersHave Codes.InRange found) : value.outline.AllTexts Codes.InRange

namespace ReadsCodePoints

variable {fuel depth : Nat} {text rest : List Char} {value : Json}

theorem value_succ (hreads : ReadsCodePoints fuel)
    (h : readValue (fuel + 1) depth text = .ok (value, rest)) :
    value.outline.AllTexts Codes.InRange := by
  rw [readValue.eq_def] at h
  dsimp only at h
  split at h
  · next text =>
    obtain ⟨⟨codes, after⟩, hstring, heq⟩ := map_eq_ok.1 h
    cases heq
    exact .text (readString_inRange hstring)
  · split at h
    · cases h
    · split at h
      · cases h
        exact allTexts_object.2 fun member hmember => absurd hmember List.not_mem_nil
      · exact hreads.members h fun member hmember => absurd hmember List.not_mem_nil
  · split at h
    · cases h
    · split at h
      · cases h
        exact allTexts_list.2 fun item hitem => absurd hitem List.not_mem_nil
      · exact hreads.items h fun item hitem => absurd hitem List.not_mem_nil
  · rw [outline_of_readAtom h]
    exact .other

theorem items_succ {found : List Json} (hreads : ReadsCodePoints fuel)
    (h : readItems (fuel + 1) depth found text = .ok (value, rest))
    (hfound : ∀ item ∈ found, item.outline.AllTexts Codes.InRange) :
    value.outline.AllTexts Codes.InRange := by
  rw [readItems] at h
  split at h
  · cases h
  · next item after hitem =>
    have hmore : ∀ other ∈ item :: found, other.outline.AllTexts Codes.InRange :=
      List.forall_mem_cons.2 ⟨hreads.value hitem, hfound⟩
    split at h
    · cases h
      rw [allTexts_list]
      exact fun other hother => hmore other (List.mem_reverse.1 hother)
    · exact hreads.items h hmore
    · cases h

theorem members_succ {found : List (Codes × Json)} (hreads : ReadsCodePoints fuel)
    (h : readMembers (fuel + 1) depth found text = .ok (value, rest))
    (hfound : MembersHave Codes.InRange found) : value.outline.AllTexts Codes.InRange := by
  rw [readMembers.eq_def] at h
  dsimp only at h
  split at h
  · split at h
    · cases h
    · next name afterName hname =>
      split at h
      · split at h
        · cases h
        · next member after hmember =>
          have hmore := hfound.putPair (readString_inRange hname) (hreads.value hmember)
          split at h
          · cases h
            exact allTexts_object.2 hmore
          · exact hreads.members h hmore
          · cases h
      · cases h
  · cases h

end ReadsCodePoints

theorem readsCodePoints (fuel : Nat) : ReadsCodePoints fuel := by
  induction fuel with
  | zero =>
      refine ⟨fun h => ?_, fun h _ => ?_, fun h _ => ?_⟩
      · rw [readValue] at h
        cases h
      · rw [readItems] at h
        cases h
      · rw [readMembers] at h
        cases h
  | succ fuel ih => exact ⟨ih.value_succ, ih.items_succ, ih.members_succ⟩

/-- The texts of a value that is read are code points. -/
theorem allTexts_of_readText {text : List Char} {value : Json} (h : readText text = .ok value) :
    value.outline.AllTexts Codes.InRange := by
  unfold readText at h
  split at h
  · cases h
  · split at h
    · cases h
    · next found rest hread =>
      split at h
      · cases h
        exact (readsCodePoints _).value hread
      · cases h

/-! ### Values that are read back -/

mutual

/-- What is read back of a value has nothing but texts. -/
theorem allTexts_reread : (value : Json) → value.reread.outline.AllTexts Codes.IsText
  | .string codes => by
      rw [reread]
      exact .text (Codes.isText_ofString _)
  | .list items => by
      rw [reread, allTexts_list]
      exact allTexts_rereadItems items
  | .object members => by
      rw [reread, allTexts_object]
      exact membersHave_rereadMembers members fun member hmember => absurd hmember List.not_mem_nil
  | .null => .other
  | .bool _ => .other
  | .int _ => .other
  | .float _ => .other

theorem allTexts_rereadItems :
    (items : List Json) → ∀ item ∈ rereadItems items, item.outline.AllTexts Codes.IsText
  | [] => fun item hitem => absurd hitem List.not_mem_nil
  | item :: items => by
      rw [rereadItems]
      exact List.forall_mem_cons.2 ⟨allTexts_reread item, allTexts_rereadItems items⟩

theorem membersHave_rereadMembers : (members : List (Codes × Json)) → {found : List (Codes × Json)} →
    MembersHave Codes.IsText found → MembersHave Codes.IsText (rereadMembers found members)
  | [], _, h => h
  | (name, value) :: members, found, h => by
      rw [rereadMembers]
      exact membersHave_rereadMembers members
        (h.putPair (Codes.isText_ofString _) (allTexts_reread value))

end

end Json

namespace Outline

theorem isText_of_readText {bytes rest : Bytes} {codes : Codes}
    (h : readText bytes = .ok (codes, rest)) : codes.IsText := by
  obtain ⟨found, -, heq⟩ := map_eq_ok.1 h
  cases heq
  exact Codes.isText_ofChars _

theorem isText_of_readName {bytes rest : Bytes} {codes : Codes}
    (h : readName bytes = .ok (codes, rest)) : codes.IsText := by
  obtain ⟨⟨name, after⟩, hname, h⟩ := bind_eq_ok.1 h
  dsimp only at h
  split at h
  · cases h
  · split at h
    · cases h
      exact isText_of_readText hname
    · cases h

theorem eq_other_of_readOther {bytes rest : Bytes} {outline : Outline}
    (h : readOther bytes = .ok (outline, rest)) : outline = .other := by
  unfold readOther at h
  split at h
  · cases h
  · obtain ⟨after, -, heq⟩ := map_eq_ok.1 h
    cases heq
    rfl

/-- All texts of some members are texts. -/
def MembersAreTexts (members : List (Codes × Outline)) : Prop :=
  ∀ member ∈ members, member.1.IsText ∧ member.2.AllTexts Codes.IsText

theorem MembersAreTexts.reverse {members : List (Codes × Outline)} (h : MembersAreTexts members) :
    (Outline.object members.reverse).AllTexts Codes.IsText :=
  .object (fun member hmember => (h member (List.mem_reverse.1 hmember)).1)
    fun member hmember => (h member (List.mem_reverse.1 hmember)).2

/-- The readers of bytes, with some fuel, give outlines that have nothing but texts. -/
structure ReadsTexts (fuel : Nat) : Prop where
  value {depth : Nat} {bytes rest : Bytes} {outline : Outline}
    (h : readValue fuel depth bytes = .ok (outline, rest)) : outline.AllTexts Codes.IsText
  items {depth : Nat} {found : List Outline} {bytes rest : Bytes} {outline : Outline}
    (h : readItems fuel depth found bytes = .ok (outline, rest))
    (hfound : ∀ item ∈ found, item.AllTexts Codes.IsText) : outline.AllTexts Codes.IsText
  members {depth : Nat} {found : List (Codes × Outline)} {bytes rest : Bytes} {outline : Outline}
    (h : readMembers fuel depth found bytes = .ok (outline, rest)) (hfound : MembersAreTexts found) :
    outline.AllTexts Codes.IsText

namespace ReadsTexts

variable {fuel depth : Nat} {bytes rest : Bytes} {outline : Outline}

theorem value_succ (hreads : ReadsTexts fuel)
    (h : readValue (fuel + 1) depth bytes = .ok (outline, rest)) : outline.AllTexts Codes.IsText := by
  rw [readValue.eq_def] at h
  dsimp only at h
  split at h
  · cases h
  · split at h
    · obtain ⟨⟨codes, after⟩, htext, heq⟩ := map_eq_ok.1 h
      cases heq
      exact .text (isText_of_readText htext)
    · split at h
      · split at h
        · cases h
        · split at h
          · cases h
            exact .list (by simp)
          · split at h
            · cases h
            · exact hreads.items h (by simp)
      · split at h
        · split at h
          · cases h
          · split at h
            · cases h
              exact .object (by simp) (by simp)
            · split at h
              · exact hreads.members h fun member hmember => absurd hmember List.not_mem_nil
              · cases h
        · rw [eq_other_of_readOther h]
          exact .other

theorem items_succ {found : List Outline} (hreads : ReadsTexts fuel)
    (h : readItems (fuel + 1) depth found bytes = .ok (outline, rest))
    (hfound : ∀ item ∈ found, item.AllTexts Codes.IsText) : outline.AllTexts Codes.IsText := by
  rw [readItems] at h
  split at h
  · cases h
  · next item after hitem =>
    have hmore : ∀ read ∈ item :: found, read.AllTexts Codes.IsText :=
      List.forall_mem_cons.2 ⟨hreads.value hitem, hfound⟩
    split at h
    · cases h
    · split at h
      · cases h
        exact .list fun read hread => hmore read (List.mem_reverse.1 hread)
      · split at h
        · split at h
          · cases h
          · split at h
            · cases h
            · exact hreads.items h hmore
        · cases h

theorem members_succ {found : List (Codes × Outline)} (hreads : ReadsTexts fuel)
    (h : readMembers (fuel + 1) depth found bytes = .ok (outline, rest))
    (hfound : MembersAreTexts found) : outline.AllTexts Codes.IsText := by
  rw [readMembers] at h
  split at h
  · cases h
  · next name beforeValue hname =>
    split at h
    · cases h
    · split at h
      · cases h
      · next value after hmember =>
        have hmore : MembersAreTexts ((name, value) :: found) :=
          List.forall_mem_cons.2 ⟨⟨isText_of_readName hname, hreads.value hmember⟩, hfound⟩
        dsimp only at h
        split at h
        · cases h
        · split at h
          · cases h
            exact hmore.reverse
          · split at h
            · split at h
              · cases h
              · split at h
                · exact hreads.members h hmore
                · split at h <;> cases h
            · cases h

end ReadsTexts

theorem readsTexts (fuel : Nat) : ReadsTexts fuel := by
  induction fuel with
  | zero =>
      refine ⟨fun h => ?_, fun h _ => ?_, fun h _ => ?_⟩
      · rw [readValue] at h
        cases h
      · rw [readItems] at h
        cases h
      · rw [readMembers] at h
        cases h
  | succ fuel ih => exact ⟨ih.value_succ, ih.items_succ, ih.members_succ⟩

/-- The texts of an outline that is read are texts. -/
theorem allTexts_of_readBytes {bytes : Bytes} {outline : Outline}
    (h : readBytes bytes = .ok outline) : outline.AllTexts Codes.IsText := by
  unfold readBytes at h
  split at h
  · cases h
  · split at h
    · cases h
    · next found rest hread =>
      split at h
      · cases h
        exact (readsTexts _).value hread
      · cases h

end Outline

end ElmSuite
