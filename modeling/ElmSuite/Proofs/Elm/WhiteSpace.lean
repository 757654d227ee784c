import ElmSuite.Elm.Exposing
import Mathlib.Data.List.TakeWhile

/-!
White space that is put into a code.  The patterns of the search for exposed values do not see it,
unless it parts a name or a pair of equals signs, ends the name of a module header, or moves what
follows away from the start of a line.
-/

namespace ElmSuite

namespace Text

theorem exists_range_of_covers {ranges : List (Nat × Nat)} {code : Nat} (h : covers ranges code = true) :
    ∃ range ∈ ranges, range.1 ≤ code ∧ code ≤ range.2 := by
  induction ranges with
  | nil => cases h
  | cons range ranges ih =>
      obtain ⟨first, last⟩ := range
      rw [covers, coveringStart?] at h
      split at h
      · cases h
      · next hfirst =>
        split at h
        · next hlast => exact ⟨_, List.mem_cons_self, by omega, hlast⟩
        · obtain ⟨range, hmem, hrange⟩ := ih h
          exact ⟨range, List.mem_cons_of_mem _ hmem, hrange⟩

/-- White space is not in ranges that none of its code points is in. -/
theorem covers_eq_false_of_isBlank {ranges : List (Nat × Nat)} {c : Char} (h : isBlank c = true)
    (hcodes : ∀ code ∈ blankRanges.flatMap fun range => List.range' range.1 (range.2 + 1 - range.1),
      covers ranges code = false) : covers ranges c.toNat = false := by
  obtain ⟨range, hrange, hfirst, hlast⟩ := exists_range_of_covers h
  apply hcodes
  rw [List.mem_flatMap]
  exact ⟨range, hrange, List.mem_range'_1.2 ⟨hfirst, by omega⟩⟩

theorem not_isWord_of_isBlank {c : Char} (h : isBlank c = true) : isWord c = false := by
  have hletter : covers letterRanges c.toNat = false := covers_eq_false_of_isBlank h (by decide +kernel)
  have hnumeric : covers numericRanges c.toNat = false :=
    covers_eq_false_of_isBlank h (by decide +kernel)
  have hline : c ≠ '_' := by
    rintro rfl
    exact absurd h (by decide)
  simp [isWord, isLetter, hletter, hnumeric, hline]

theorem not_isDecimal_of_isBlank {c : Char} (h : isBlank c = true) : isDecimal c = false :=
  covers_eq_false_of_isBlank h (by decide +kernel)

theorem takeWhile_append_of_head {p : Char → Bool} {word rest : List Char}
    (hword : ∀ c ∈ word, p c = true) (hrest : ∀ c ∈ rest.head?, p c = false) :
    (word ++ rest).takeWhile p = word := by
  rw [List.takeWhile_append_of_pos hword]
  cases rest with
  | nil => simp
  | cons c rest => simp [hrest c rfl]

theorem dropWhile_eq_self_of_head {p : Char → Bool} {rest : List Char}
    (h : ∀ c ∈ rest.head?, p c = false) : rest.dropWhile p = rest := by
  cases rest with
  | nil => rfl
  | cons c rest => simp [h c rfl]

theorem dropWhile_append_of_head {p : Char → Bool} {word rest : List Char}
    (hword : ∀ c ∈ word, p c = true) (hrest : ∀ c ∈ rest.head?, p c = false) :
    (word ++ rest).dropWhile p = rest := by
  rw [List.dropWhile_append_of_pos hword, dropWhile_eq_self_of_head hrest]

end Text

namespace Elm

open Text

theorem not_isNameChar_of_isBlank {c : Char} (h : isBlank c = true) : isNameChar c = false := by
  have hdot : c ≠ '.' := by
    rintro rfl
    exact absurd h (by decide)
  simp [isNameChar, not_isWord_of_isBlank h, hdot]

/-- A character that is no part of the name or of the pair of equals signs that the code behind it
starts with. -/
structure Apart (c : Char) (behind : List Char) : Prop where
  names : isNameChar c = true → ∀ d ∈ behind.head?, isNameChar d = false
  equals : c = '=' → behind.head? ≠ some '='

variable {c : Char} {behind front rest : List Char}

theorem apart_space (c : Char) (rest : List Char) : Apart c (' ' :: rest) where
  names _ d hd := by
    obtain rfl : ' ' = d := by simpa using hd
    exact not_isNameChar_of_isBlank (by decide)
  equals _ := by simp

theorem apart_of_isBlank (h : isBlank c = true) (behind : List Char) : Apart c behind where
  names hname := by
    rw [not_isNameChar_of_isBlank h] at hname
    cases hname
  equals heq := by
    rw [heq] at h
    exact absurd h (by decide)

/-! ### Lists whose last character is apart -/

theorem dropWhile_space (rest : List Char) : (' ' :: rest).dropWhile isBlank = rest.dropWhile isBlank :=
  rfl

/-- What is left of a list when its start is dropped: nothing, or something with the same end. -/
theorem dropWhile_concat_cases (p : Char → Bool) (front : List Char) (c : Char) :
    (front ++ [c]).dropWhile p = [] ∧ p c = true ∨
      ∃ left, (front ++ [c]).dropWhile p = left ++ [c] := by
  rcases List.suffix_concat_iff.1 (List.dropWhile_suffix (l := front ++ [c]) p) with hnil | ⟨left, hleft, -⟩
  · refine .inl ⟨hnil, ?_⟩
    rw [List.dropWhile_eq_nil_iff] at hnil
    exact hnil c (by simp)
  · exact .inr ⟨left, hleft⟩

theorem dropWhile_past_of_nil {p : Char → Bool} (h : (front ++ [c]).dropWhile p = []) (rest : List Char) :
    (front ++ c :: rest).dropWhile p = rest.dropWhile p := by
  rw [List.append_cons, List.dropWhile_append, h]
  rfl

theorem dropWhile_past {p : Char → Bool} {left : List Char}
    (h : (front ++ [c]).dropWhile p = left ++ [c]) (rest : List Char) :
    (front ++ c :: rest).dropWhile p = left ++ c :: rest := by
  rw [List.append_cons, List.dropWhile_append, h, if_neg (by simp), List.append_assoc]
  rfl

theorem takeWhile_concat_append {p : Char → Bool} (front : List Char)
    (h : p c = true → ∀ d ∈ rest.head?, p d = false) :
    (front ++ c :: rest).takeWhile p = (front ++ [c]).takeWhile p := by
  induction front with
  | nil =>
      cases hc : p c with
      | false => simp [hc]
      | true =>
          cases rest with
          | nil => rfl
          | cons d rest => simp [hc, h hc d rfl]
  | cons first front ih =>
      rw [List.cons_append, List.cons_append, List.takeWhile_cons, List.takeWhile_cons, ih]

theorem after?_nil (text : List Char) : after? [] text = some text := by
  simp [after?]

theorem after?_cons (first : Char) (lead : List Char) (c : Char) (text : List Char) :
    after? (first :: lead) (c :: text) = if first = c then after? lead text else none := by
  simp [after?]
  split <;> simp_all

theorem eq_append_of_after? {lead text found : List Char} (h : after? lead text = some found) :
    text = lead ++ found := by
  unfold after? at h
  split at h
  · next hprefix =>
    obtain ⟨more, rfl⟩ := List.isPrefixOf_iff_prefix.1 hprefix
    rw [List.drop_left] at h
    rw [Option.some.inj h]
  · cases h

/-- A fixed text of name characters is found in front of what is apart. -/
theorem after?_concat_append {lead : List Char} (hlead : ∀ d ∈ lead, isNameChar d = true)
    (hapart : isNameChar c = true → ∀ d ∈ rest.head?, isNameChar d = false) (front : List Char) :
    after? lead (front ++ c :: rest) = (after? lead (front ++ [c])).map (· ++ rest) := by
  induction lead generalizing front with
  | nil => simp [after?_nil]
  | cons first lead ih =>
      rw [List.forall_mem_cons] at hlead
      cases front with
      | nil =>
          rw [List.nil_append, List.nil_append, after?_cons, after?_cons]
          split
          · next heq =>
            subst heq
            cases lead with
            | nil => simp [after?_nil]
            | cons second lead =>
                cases rest with
                | nil => simp [after?]
                | cons d rest =>
                    have hne : second ≠ d := by
                      rintro rfl
                      have hno := hapart hlead.1 second rfl
                      rw [hlead.2 second List.mem_cons_self] at hno
                      cases hno
                    rw [after?_cons, if_neg hne]
                    simp [after?]
          · rfl
      | cons d front =>
          rw [List.cons_append, List.cons_append, after?_cons, after?_cons]
          split
          · exact ih hlead.2 front
          · rfl

/-! ### Words -/

/-- What follows a word and white space. -/
def afterWord? (word : List Char) (text : List Char) : Option (List Char) := do
  afterBlanks? (← after? word text)

theorem afterBlanks?_cons (c : Char) (text : List Char) :
    afterBlanks? (c :: text) = if isBlank c then some ((c :: text).dropWhile isBlank) else none := by
  rw [afterBlanks?]
  split
  · next h => rw [List.dropWhile_cons_of_pos h]
  · rfl

theorem afterBlanks?_space (rest : List Char) :
    afterBlanks? (' ' :: rest) = some (rest.dropWhile isBlank) :=
  rfl

/-- What a search past a character finds when a space is put in behind it: the same; something that goes
on past the character; or only then the code behind, which does not start with a name. -/
inductive PastWord (c : Char) (behind : List Char) (find : List Char → Option (List Char)) : Prop
  | same (h : find (' ' :: behind) = find behind)
  | past (front : List Char) (h : ∀ rest, Apart c rest → find rest = some (front ++ c :: rest))
  | late (hnone : find behind = none) (h : find (' ' :: behind) = some behind)
      (hname : ∀ d ∈ behind.head?, isNameChar d = false)

theorem PastWord.congr {find other : List Char → Option (List Char)} (h : PastWord c behind find)
    (hapart : Apart c behind) (heq : ∀ rest, Apart c rest → other rest = find rest) :
    PastWord c behind other := by
  have hgap := heq (' ' :: behind) (apart_space c behind)
  have hnear := heq behind hapart
  cases h with
  | same hsame => exact .same (by rw [hgap, hnear, hsame])
  | past front hpast => exact .past front fun rest hrest => by rw [heq rest hrest, hpast rest hrest]
  | late hnone hlate hname => exact .late (hnear.trans hnone) (hgap.trans hlate) hname

/-- A word that ends with the character asks for white space right behind it. -/
theorem pastWord_afterBlanks? (hname : ∀ d ∈ behind.head?, isNameChar d = false) :
    PastWord c behind afterBlanks? := by
  cases behind with
  | nil => exact .late rfl rfl hname
  | cons d behind =>
      by_cases hd : isBlank d = true
      · exact .same (by rw [afterBlanks?_space, afterBlanks?_cons, if_pos hd])
      · refine .late ?_ ?_ hname
        · rw [afterBlanks?_cons, if_neg hd]
        · rw [afterBlanks?_space, List.dropWhile_cons_of_neg hd]

/-- A word that ends in front of the character asks for white space in front of it. -/
theorem pastWord_afterBlanks?_append (inside : List Char) :
    PastWord c behind fun rest => afterBlanks? (inside ++ c :: rest) := by
  obtain ⟨first, more, hfirst⟩ : ∃ first more, inside ++ [c] = first :: more :=
    List.exists_cons_of_ne_nil (by simp)
  have hstep (rest : List Char) : afterBlanks? (inside ++ c :: rest) =
      if isBlank first then some ((inside ++ c :: rest).dropWhile isBlank) else none := by
    rw [List.append_cons, hfirst, List.cons_append, afterBlanks?_cons]
  by_cases hblank : isBlank first = true
  · simp only [hstep, if_pos hblank]
    rcases dropWhile_concat_cases isBlank inside c with ⟨hnil, -⟩ | ⟨left, hleft⟩
    · exact .same (by rw [dropWhile_past_of_nil hnil, dropWhile_past_of_nil hnil, dropWhile_space])
    · exact .past left fun rest _ => by rw [dropWhile_past hleft]
  · exact .same (by simp only [hstep, if_neg hblank])

theorem pastWord_afterWord? {word : List Char} (hword : ∀ d ∈ word, isNameChar d = true)
    (hapart : Apart c behind) (front : List Char) :
    PastWord c behind fun rest => afterWord? word (front ++ c :: rest) := by
  have hafter (rest : List Char) (hrest : Apart c rest) :
      afterWord? word (front ++ c :: rest) =
        ((after? word (front ++ [c])).map (· ++ rest)).bind afterBlanks? := by
    rw [afterWord?, Option.bind_eq_bind, after?_concat_append hword hrest.names]
  cases hfound : after? word (front ++ [c]) with
  | none =>
      exact .same (by simp only [hafter _ (apart_space c behind), hafter _ hapart, hfound, Option.map_none])
  | some found =>
      have hsplit := eq_append_of_after? hfound
      have hrun (rest : List Char) (hrest : Apart c rest) :
          afterWord? word (front ++ c :: rest) = afterBlanks? (found ++ rest) := by
        simp only [hafter _ hrest, hfound, Option.map_some, Option.bind_some]
      rcases List.suffix_concat_iff.1 ⟨word, hsplit.symm⟩ with rfl | ⟨inside, rfl, -⟩
      · -- The word ends with the character, so the code behind starts with no name.
        rw [List.append_nil] at hsplit
        have hc : isNameChar c = true := hword c (hsplit ▸ List.mem_append_right _ List.mem_cons_self)
        exact (pastWord_afterBlanks? (hapart.names hc)).congr hapart hrun
      · simp only [List.append_assoc, List.singleton_append] at hrun
        exact (pastWord_afterBlanks?_append inside).congr hapart hrun

/-! ### Module headers -/

/-- What follows a name and one white space character. -/
def behindName? (text : List Char) : Option (List Char) :=
  match text.takeWhile isNameChar, text.dropWhile isNameChar with
  | _ :: _, c :: rest => if isBlank c then some rest else none
  | _, _ => none

theorem afterModule?_eq (text : List Char) :
    afterModule? text = (afterWord? "module".toList text).bind behindName? := by
  unfold afterModule? afterWord?
  exact (Option.bind_assoc _ _ _).symm

theorem afterKeyword?_eq (keyword : String) (text : List Char) :
    afterKeyword? keyword text = (afterWord? keyword.toList text).bind afterModule? := by
  unfold afterKeyword? afterWord?
  simp only [Option.bind_eq_bind, Option.bind_assoc]

/-- What a search past a character finds when a space is put in behind it: the same; something that goes
on past the character; or the same behind one more white space character. -/
inductive PastHeader (c : Char) (behind : List Char) (find : List Char → Option (List Char)) : Prop
  | same (h : find (' ' :: behind) = find behind)
  | past (front : List Char) (h : find behind = some (front ++ c :: behind))
      (hgap : find (' ' :: behind) = some (front ++ c :: ' ' :: behind))
  | blank (d : Char) (body : List Char) (hd : isBlank d = true) (h : find behind = some body)
      (hgap : find (' ' :: behind) = some (d :: body))

/-- Whether a code starts with white space. -/
def startsBlank (code : List Char) : Bool :=
  code.head?.any isBlank

theorem pastHeader_behindName? (hapart : Apart c behind)
    (hend : startsBlank behind = true ∨ behindName? (front ++ [c, ' ']) ≠ some []) :
    PastHeader c behind fun rest => behindName? (front ++ c :: rest) := by
  have htake (rest : List Char) (hrest : Apart c rest) :
      (front ++ c :: rest).takeWhile isNameChar = (front ++ [c]).takeWhile isNameChar :=
    takeWhile_concat_append front hrest.names
  have hgap := apart_space c behind
  rcases dropWhile_concat_cases isNameChar front c with ⟨hnil, hc⟩ | ⟨left, hleft⟩
  · obtain ⟨first, name, hname⟩ : ∃ first name, (front ++ [c]).takeWhile isNameChar = first :: name := by
      apply List.exists_cons_of_ne_nil
      intro hempty
      have hall := List.takeWhile_append_dropWhile (p := isNameChar) (l := front ++ [c])
      rw [hempty, hnil] at hall
      simp at hall
    have hrun (rest : List Char) (hrest : Apart c rest) :
        behindName? (front ++ c :: rest) =
          rest.head?.bind fun d => if isBlank d then some rest.tail else none := by
      rw [behindName?, htake rest hrest, hname, dropWhile_past_of_nil hnil,
        dropWhile_eq_self_of_head (hrest.names hc)]
      cases rest <;> rfl
    rcases hend with hblank | hend
    · cases behind with
      | nil => cases hblank
      | cons d behind =>
          have hd : isBlank d = true := hblank
          refine .blank d behind hd ?_ ?_
          · rw [hrun _ hapart, List.head?_cons, Option.bind_some, if_pos hd]
            rfl
          · rw [hrun _ hgap, List.head?_cons, Option.bind_some, if_pos (by decide)]
            rfl
    · refine absurd ?_ hend
      have hspace : Apart c [' '] := apart_space c []
      rw [hrun _ hspace]
      rfl
  · have hrun (rest : List Char) (hrest : Apart c rest) :
        behindName? (front ++ c :: rest) =
          match (front ++ [c]).takeWhile isNameChar, left ++ c :: rest with
          | _ :: _, d :: more => if isBlank d then some more else none
          | _, _ => none := by
      rw [behindName?, htake rest hrest, dropWhile_past hleft]
    cases hname : (front ++ [c]).takeWhile isNameChar with
    | nil => exact .same (by simp only [hrun _ hgap, hrun _ hapart, hname])
    | cons first name =>
        cases left with
        | nil =>
            cases hc : isBlank c with
            | false =>
                exact .same (by simp only [hrun _ hgap, hrun _ hapart, hname, List.nil_append, hc,
                  Bool.false_eq_true, if_false])
            | true =>
                refine .blank ' ' behind (by decide) ?_ ?_
                · simp only [hrun _ hapart, hname, List.nil_append, hc, if_true]
                · simp only [hrun _ hgap, hname, List.nil_append, hc, if_true]
        | cons d left =>
            cases hd : isBlank d with
            | false =>
                exact .same (by simp only [hrun _ hgap, hrun _ hapart, hname, List.cons_append, hd,
                  Bool.false_eq_true, if_false])
            | true =>
                refine .past left ?_ ?_
                · simp only [hrun _ hapart, hname, List.cons_append, hd, if_true]
                · simp only [hrun _ hgap, hname, List.cons_append, hd, if_true]

/-- A search that goes on where a word and white space end. -/
theorem PastWord.bind {find next : List Char → Option (List Char)} {behind : List Char}
    (h : PastWord c behind find) (hapart : Apart c behind)
    (hnext : ∀ front, find [' '] = some (front ++ [c, ' ']) →
      PastHeader c behind fun rest => next (front ++ c :: rest))
    (hnone : (∀ d ∈ behind.head?, isNameChar d = false) → next behind = none) :
    PastHeader c behind fun rest => (find rest).bind next := by
  cases h with
  | same h => exact .same (by rw [h])
  | past front h =>
      have hgap := h _ (apart_space c behind)
      have hbehind := h _ hapart
      have hspace := h _ (apart_space c [])
      cases hnext front hspace with
      | same hsame => exact .same (by simpa only [hgap, hbehind, Option.bind_some] using hsame)
      | past front' hpast hpastGap =>
          refine .past front' ?_ ?_
          · rw [hbehind, Option.bind_some]
            exact hpast
          · rw [hgap, Option.bind_some]
            exact hpastGap
      | blank d body hd hbody hbodyGap =>
          refine .blank d body hd ?_ ?_
          · rw [hbehind, Option.bind_some]
            exact hbody
          · rw [hgap, Option.bind_some]
            exact hbodyGap
  | late hfind hgap hname =>
      refine .same ?_
      rw [hfind, hgap, Option.bind_some, hnone hname, Option.bind_none]

theorem after?_eq_none_of_head {first : Char} {word text : List Char} (hfirst : isNameChar first = true)
    (h : ∀ d ∈ text.head?, isNameChar d = false) : after? (first :: word) text = none := by
  cases text with
  | nil => simp [after?]
  | cons d text =>
      rw [after?_cons, if_neg]
      rintro rfl
      have hno := h first rfl
      rw [hfirst] at hno
      cases hno

theorem afterModule?_eq_none_of_head {text : List Char} (h : ∀ d ∈ text.head?, isNameChar d = false) :
    afterModule? text = none := by
  have hword : after? "module".toList text = none := after?_eq_none_of_head (by decide +kernel) h
  rw [afterModule?_eq, afterWord?, hword]
  rfl

theorem pastHeader_afterModule? (hapart : Apart c behind)
    (hend : startsBlank behind = true ∨ afterModule? (front ++ [c, ' ']) ≠ some []) :
    PastHeader c behind fun rest => afterModule? (front ++ c :: rest) := by
  simp only [afterModule?_eq] at hend ⊢
  refine (pastWord_afterWord? (List.all_eq_true.1 (by decide +kernel)) hapart front).bind hapart ?_ ?_
  · intro inside hinside
    rw [hinside] at hend
    exact pastHeader_behindName? hapart hend
  · intro hname
    rw [behindName?, List.takeWhile_eq_nil_iff.2]
    intro hlength
    have hhead := hname (behind[0]) (by simp [List.head?_eq_getElem?, hlength])
    simpa using hhead

theorem pastHeader_afterKeyword? {keyword : String} (hkeyword : ∀ d ∈ keyword.toList, isNameChar d = true)
    (hapart : Apart c behind)
    (hend : startsBlank behind = true ∨ afterKeyword? keyword (front ++ [c, ' ']) ≠ some []) :
    PastHeader c behind fun rest => afterKeyword? keyword (front ++ c :: rest) := by
  simp only [afterKeyword?_eq] at hend ⊢
  refine (pastWord_afterWord? hkeyword hapart front).bind hapart ?_ afterModule?_eq_none_of_head
  intro inside hinside
  rw [hinside] at hend
  exact pastHeader_afterModule? hapart hend

theorem PastHeader.orElse {find other : List Char → Option (List Char)} (h : PastHeader c behind find)
    (hother : PastHeader c behind other) : PastHeader c behind fun rest => find rest <|> other rest := by
  cases h with
  | past front h hgap => exact .past front (by simp [h]) (by simp [hgap])
  | blank d body hd h hgap => exact .blank d body hd (by simp [h]) (by simp [hgap])
  | same h =>
      cases hfind : find behind with
      | some body => exact .same (by simp [h, hfind])
      | none =>
          rw [hfind] at h
          cases hother with
          | same hsame => exact .same (by simpa [h, hfind] using hsame)
          | past front hpast hgap => exact .past front (by simp [hfind, hpast]) (by simp [h, hgap])
          | blank d body hd hbody hgap =>
              exact .blank d body hd (by simp [hfind, hbody]) (by simp [h, hgap])

/-- Whether a text starts with a module header that wants nothing but white space behind it. -/
def isBareHeader (text : List Char) : Bool :=
  [afterKeyword? "port" (text ++ [' ']), afterKeyword? "effect" (text ++ [' ']),
    afterModule? (text ++ [' '])].contains (some [])

/-- Whether some line of a code starts with a module header that wants nothing but white space at the
end of the code. -/
def endsWithHeader : Bool → List Char → Bool
  | _, [] => false
  | atLineStart, c :: rest =>
      (atLineStart && isBareHeader (c :: rest)) || endsWithHeader (c == '\n') rest

theorem pastHeader_afterHeader? (hapart : Apart c behind) (front : List Char)
    (hend : startsBlank behind = true ∨ isBareHeader (front ++ [c]) = false) :
    PastHeader c behind fun rest => afterHeader? (front ++ c :: rest) := by
  simp only [isBareHeader, List.append_assoc, List.cons_append, List.nil_append, List.contains_cons,
    List.contains_nil, Bool.or_false, Bool.or_eq_false_iff, beq_eq_false_iff_ne] at hend
  unfold afterHeader?
  refine .orElse ?_ (.orElse ?_ ?_)
  · exact pastHeader_afterKeyword? (List.all_eq_true.1 (by decide +kernel)) hapart
      (hend.imp_right fun h => h.1.symm)
  · exact pastHeader_afterKeyword? (List.all_eq_true.1 (by decide +kernel)) hapart
      (hend.imp_right fun h => h.2.1.symm)
  · exact pastHeader_afterModule? hapart (hend.imp_right fun h => h.2.2.symm)

theorem afterFirstHeader?_space (atLineStart : Bool) (rest : List Char) :
    afterFirstHeader? atLineStart (' ' :: rest) = afterFirstHeader? false rest := by
  have hport : afterKeyword? "port" (' ' :: rest) = none := rfl
  have heffect : afterKeyword? "effect" (' ' :: rest) = none := rfl
  have hmodule : afterModule? (' ' :: rest) = none := rfl
  have hhere : afterHeader? (' ' :: rest) = none := by rw [afterHeader?, hport, heffect, hmodule]; rfl
  cases atLineStart <;> simp [afterFirstHeader?, hhere]

theorem afterFirstHeader?_of_silent (hsilent : afterHeader? behind = none) (atLineStart : Bool) :
    afterFirstHeader? atLineStart behind = afterFirstHeader? false behind := by
  cases behind with
  | nil => rfl
  | cons d behind => cases atLineStart <;> simp [afterFirstHeader?, hsilent]

/-- The first module header, past a character behind which a space is put in. -/
theorem pastHeader_afterFirstHeader? {atLineStart : Bool} (hapart : Apart c behind)
    (hend : startsBlank behind = true ∨ endsWithHeader atLineStart (front ++ [c]) = false)
    (hline : c = '\n' → afterHeader? behind = none) :
    PastHeader c behind fun rest => afterFirstHeader? atLineStart (front ++ c :: rest) := by
  induction front generalizing atLineStart with
  | nil =>
      simp only [List.nil_append, afterFirstHeader?]
      refine .orElse ?_ (.same ?_)
      · cases atLineStart with
        | false => exact .same rfl
        | true =>
            refine pastHeader_afterHeader? hapart [] (hend.imp_right fun h => ?_)
            simpa [endsWithHeader] using h
      · rw [afterFirstHeader?_space]
        by_cases hc : c = '\n'
        · exact (afterFirstHeader?_of_silent (hline hc) _).symm
        · rw [show (c == '\n') = false by simpa using hc]
  | cons first front ih =>
      simp only [List.cons_append, afterFirstHeader?]
      have hrest : startsBlank behind = true ∨ endsWithHeader (first == '\n') (front ++ [c]) = false :=
        hend.imp_right fun h => by
          rw [List.cons_append, endsWithHeader, Bool.or_eq_false_iff] at h
          exact h.2
      refine .orElse ?_ (ih hrest)
      cases atLineStart with
      | false => exact .same rfl
      | true =>
          refine pastHeader_afterHeader? hapart (first :: front) (hend.imp_right fun h => ?_)
          rw [List.cons_append, endsWithHeader, Bool.or_eq_false_iff] at h
          simpa using h.1

/-! ### Declarations -/

/-- Whether a text starts with one equals sign. -/
def startsEquals : List Char → Bool
  | '=' :: '=' :: _ => false
  | '=' :: _ => true
  | _ => false

theorem declared?_eq (text : List Char) :
    declared? text =
      if isLowerName (text.takeWhile isWord) && startsEquals ((text.dropWhile isWord).dropWhile isBlank) then
        some (String.ofList (text.takeWhile isWord))
      else none := by
  unfold declared? startsEquals
  dsimp only
  generalize text.takeWhile isWord = name
  generalize (text.dropWhile isWord).dropWhile isBlank = value
  by_cases hname : isLowerName name = true
  · rcases value with _ | ⟨first, _ | ⟨second, value⟩⟩
    · simp [hname]
    · by_cases hfirst : first = '='
      · simp [hname, hfirst]
      · simp [hname, hfirst]
    · by_cases hfirst : first = '='
      · by_cases hsecond : second = '='
        · simp [hname, hfirst, hsecond]
        · simp [hname, hfirst, hsecond]
      · simp [hname, hfirst]
  · simp [hname]

theorem startsEquals_append (hapart : Apart c behind) (front : List Char) :
    startsEquals (front ++ c :: behind) = startsEquals (front ++ [c]) := by
  rcases front with _ | ⟨first, _ | ⟨second, front⟩⟩
  · by_cases hc : c = '='
    · subst hc
      have hne := hapart.equals rfl
      cases behind with
      | nil => rfl
      | cons d behind =>
          have hd : d ≠ '=' := fun heq => hne (by rw [heq, List.head?_cons])
          simp [startsEquals, hd]
    · simp [startsEquals, hc]
  · by_cases hfirst : first = '='
    · by_cases hc : c = '='
      · simp [startsEquals, hfirst, hc]
      · simp [startsEquals, hfirst, hc]
    · simp [startsEquals, hfirst]
  · by_cases hfirst : first = '='
    · by_cases hsecond : second = '='
      · simp [startsEquals, hfirst, hsecond]
      · simp [startsEquals, hfirst, hsecond]
    · simp [startsEquals, hfirst]

theorem not_isWord_of_not_isNameChar (h : isNameChar c = false) : isWord c = false := by
  rw [isNameChar, Bool.or_eq_false_iff] at h
  exact h.1

theorem declared?_append_space (hapart : Apart c behind) (front : List Char) :
    declared? (front ++ c :: ' ' :: behind) = declared? (front ++ c :: behind) := by
  have hwords {rest : List Char} (hrest : Apart c rest) (hc : isWord c = true) :
      ∀ d ∈ rest.head?, isWord d = false := fun d hd =>
    not_isWord_of_not_isNameChar (hrest.names (by simp [isNameChar, hc]) d hd)
  have hgap := apart_space c behind
  have hvalue : startsEquals (((front ++ c :: ' ' :: behind).dropWhile isWord).dropWhile isBlank) =
      startsEquals (((front ++ c :: behind).dropWhile isWord).dropWhile isBlank) := by
    rcases dropWhile_concat_cases isWord front c with ⟨hnil, hc⟩ | ⟨left, hleft⟩
    · simp only [dropWhile_past_of_nil hnil, dropWhile_eq_self_of_head (hwords hgap hc),
        dropWhile_eq_self_of_head (hwords hapart hc), dropWhile_space]
    · simp only [dropWhile_past hleft]
      rcases dropWhile_concat_cases isBlank left c with ⟨hnil, -⟩ | ⟨last, hlast⟩
      · simp only [dropWhile_past_of_nil hnil, dropWhile_space]
      · simp only [dropWhile_past hlast, startsEquals_append hgap, startsEquals_append hapart]
  rw [declared?_eq, declared?_eq, hvalue, takeWhile_concat_append front (hwords hgap),
    takeWhile_concat_append front (hwords hapart)]

theorem declaredFrom_cons (atLineStart : Bool) (c : Char) (rest : List Char) :
    declaredFrom atLineStart (c :: rest) =
      (if atLineStart then (declared? (c :: rest)).toList else []) ++ declaredFrom (c == '\n') rest :=
  rfl

theorem declaredFrom_space (atLineStart : Bool) (rest : List Char) :
    declaredFrom atLineStart (' ' :: rest) = declaredFrom false rest := by
  have hhere : declared? (' ' :: rest) = none := by
    rw [declared?_eq, List.takeWhile_cons_of_neg (by decide +kernel)]
    rfl
  cases atLineStart <;> simp [declaredFrom, hhere]

theorem declaredFrom_of_silent (hsilent : declared? behind = none) (atLineStart : Bool) :
    declaredFrom atLineStart behind = declaredFrom false behind := by
  cases behind with
  | nil => rfl
  | cons d behind => cases atLineStart <;> simp [declaredFrom, hsilent]

/-- The declared values, past a character behind which a space is put in. -/
theorem declaredFrom_append_space (hapart : Apart c behind) (hline : c = '\n' → declared? behind = none)
    (atLineStart : Bool) (front : List Char) :
    declaredFrom atLineStart (front ++ c :: ' ' :: behind) =
      declaredFrom atLineStart (front ++ c :: behind) := by
  induction front generalizing atLineStart with
  | nil =>
      have hhere := declared?_append_space hapart []
      rw [List.nil_append, List.nil_append] at hhere ⊢
      rw [declaredFrom_cons, declaredFrom_space, hhere, declaredFrom_cons _ _ behind]
      by_cases hc : c = '\n'
      · rw [declaredFrom_of_silent (hline hc) (c == '\n')]
      · rw [show (c == '\n') = false by simpa using hc]
  | cons first front ih =>
      have hhere := declared?_append_space hapart (first :: front)
      rw [List.cons_append, List.cons_append] at hhere ⊢
      rw [declaredFrom_cons, declaredFrom_cons, hhere, ih]

end Elm

end ElmSuite
