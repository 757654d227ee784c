import ElmSuite.Proofs.Elm.Literal
import ElmSuite.Proofs.Elm.WhiteSpace

/-!
White space in an exposing list.  An item that is a name, or two dots, has no white space inside, so a
space that does not part it leaves the names of the list alone.
-/

namespace ElmSuite.Elm

open Text

variable {c : Char} {behind front rest : List Char}

/-! ### The start of a list -/

/-- What follows the word `exposing` and an open parenthesis at the start of a text. -/
def openedList? (text : List Char) : Option (List Char) := do
  let list ← after? "exposing".toList text
  after? ['('] (list.dropWhile isBlank)

theorem afterExposing?_cons (inWord : Bool) (c : Char) (rest : List Char) :
    afterExposing? inWord (c :: rest) =
      ((if inWord then none else openedList? (c :: rest)) <|> afterExposing? (isWord c) rest) :=
  rfl

theorem openedList?_eq_none_of_head {text : List Char} (h : ∀ d ∈ text.head?, isNameChar d = false) :
    openedList? text = none := by
  have hword : after? "exposing".toList text = none := after?_eq_none_of_head (by decide +kernel) h
  rw [openedList?, hword]
  rfl

theorem afterExposing?_blank {d : Char} (hd : isBlank d = true) (inWord : Bool) (rest : List Char) :
    afterExposing? inWord (d :: rest) = afterExposing? false rest := by
  have hhere : openedList? (d :: rest) = none :=
    openedList?_eq_none_of_head (by simpa using not_isNameChar_of_isBlank hd)
  rw [afterExposing?_cons, hhere, not_isWord_of_isBlank hd]
  cases inWord <;> rfl

theorem afterExposing?_of_apart (hapart : Apart c behind) :
    afterExposing? (isWord c) behind = afterExposing? false behind := by
  cases hc : isWord c with
  | false => rfl
  | true =>
      have hname := hapart.names (by simp [isNameChar, hc])
      cases behind with
      | nil => rfl
      | cons d behind =>
          rw [afterExposing?_cons, afterExposing?_cons, openedList?_eq_none_of_head hname]
          rfl

/-- What a space does to a text in which it is put behind a character, or at the start. -/
inductive Widened (c : Char) (behind : List Char) : List Char → List Char → Prop
  | same (text : List Char) : Widened c behind text text
  | past (front : List Char) (h : front = [] ∨ ∃ more, front = more ++ [c]) :
      Widened c behind (front ++ behind) (front ++ ' ' :: behind)

theorem rel_self (found : Option (List Char)) : Option.Rel (Widened c behind) found found := by
  cases found with
  | none => exact .none
  | some text => exact .some (.same text)

theorem rel_openedList? (hapart : Apart c behind) (front : List Char) :
    Option.Rel (Widened c behind) (openedList? (front ++ c :: behind))
      (openedList? (front ++ c :: ' ' :: behind)) := by
  have hgap := apart_space c behind
  have hafter {rest : List Char} (hrest : Apart c rest) :
      openedList? (front ++ c :: rest) =
        ((after? "exposing".toList (front ++ [c])).map (· ++ rest)).bind
          fun list => after? ['('] (list.dropWhile isBlank) := by
    rw [openedList?, Option.bind_eq_bind,
      after?_concat_append (List.all_eq_true.1 (by decide +kernel)) hrest.names]
  rw [hafter hapart, hafter hgap]
  cases hfound : after? "exposing".toList (front ++ [c]) with
  | none => exact rel_self none
  | some found =>
      simp only [Option.map_some, Option.bind_some]
      rcases List.suffix_concat_iff.1 ⟨_, (eq_append_of_after? hfound).symm⟩ with rfl | ⟨inside, rfl, -⟩
      · simp only [List.nil_append, dropWhile_space]
        exact rel_self _
      · simp only [List.append_assoc, List.singleton_append]
        rcases dropWhile_concat_cases isBlank inside c with ⟨hnil, -⟩ | ⟨left, hleft⟩
        · simp only [dropWhile_past_of_nil hnil, dropWhile_space]
          exact rel_self _
        · simp only [dropWhile_past hleft]
          cases left with
          | nil =>
              simp only [List.nil_append, after?_cons, after?_nil]
              split
              · exact .some (.past [] (.inl rfl))
              · exact .none
          | cons first left =>
              simp only [List.cons_append, after?_cons, after?_nil]
              split
              · have hpast : Widened c behind (left ++ [c] ++ behind) (left ++ [c] ++ (' ' :: behind)) :=
                  .past _ (.inr ⟨left, rfl⟩)
                rw [List.append_assoc, List.append_assoc] at hpast
                exact .some hpast
              · exact .none

/-- The list that a module header opens, past a character behind which a space is put in. -/
theorem rel_afterExposing? (hapart : Apart c behind) (inWord : Bool) (front : List Char) :
    Option.Rel (Widened c behind) (afterExposing? inWord (front ++ c :: behind))
      (afterExposing? inWord (front ++ c :: ' ' :: behind)) := by
  have horElse {first second other last : Option (List Char)}
      (hfirst : Option.Rel (Widened c behind) first second)
      (hlast : Option.Rel (Widened c behind) other last) :
      Option.Rel (Widened c behind) (first <|> other) (second <|> last) := by
    cases hfirst with
    | none => exact hlast
    | some h => exact .some h
  have hhere (inWord : Bool) (front : List Char) : Option.Rel (Widened c behind)
      (if inWord then none else openedList? (front ++ c :: behind))
      (if inWord then none else openedList? (front ++ c :: ' ' :: behind)) := by
    cases inWord with
    | true => exact .none
    | false => exact rel_openedList? hapart front
  induction front generalizing inWord with
  | nil =>
      have hspace : afterExposing? (isWord c) (' ' :: behind) = afterExposing? (isWord c) behind := by
        rw [afterExposing?_blank (by decide), afterExposing?_of_apart hapart]
      rw [List.nil_append, List.nil_append, afterExposing?_cons, afterExposing?_cons inWord c, hspace]
      exact horElse (hhere inWord []) (rel_self _)
  | cons first front ih =>
      simp only [List.cons_append, afterExposing?_cons]
      exact horElse (hhere inWord (first :: front)) (ih _)

/-! ### The inside of a list -/

theorem upToClose?_cons {outer : Nat} {c : Char} (hopen : c ≠ '(') (hclose : c ≠ ')')
    (rest : List Char) : upToClose? outer (c :: rest) = (upToClose? outer rest).map (c :: ·) := by
  rw [upToClose?]
  · exact hopen
  · exact fun _ => hclose
  · exact fun _ _ => hclose

/-- A list is closed in front of some place, or goes on past it inside some parentheses. -/
theorem upToClose?_append_cases (outer : Nat) (front : List Char) :
    (∃ inside, ∀ rest, upToClose? outer (front ++ rest) = some inside) ∨
      ∃ inner, ∀ rest, upToClose? outer (front ++ rest) = (upToClose? inner rest).map (front ++ ·) := by
  induction front generalizing outer with
  | nil => exact .inr ⟨outer, fun rest => by simp⟩
  | cons c front ih =>
      have hstep {outer inner : Nat}
          (h : ∀ rest, upToClose? outer (c :: rest) = (upToClose? inner rest).map (c :: ·)) :
          (∃ inside, ∀ rest, upToClose? outer (c :: (front ++ rest)) = some inside) ∨
            ∃ inner, ∀ rest, upToClose? outer (c :: (front ++ rest)) =
              (upToClose? inner rest).map (c :: front ++ ·) := by
        rcases ih inner with ⟨inside, hinside⟩ | ⟨deeper, hdeeper⟩
        · exact .inl ⟨c :: inside, fun rest => by rw [h, hinside, Option.map_some]⟩
        · refine .inr ⟨deeper, fun rest => ?_⟩
          rw [h, hdeeper, Option.map_map]
          rfl
      by_cases hopen : c = '('
      · subst hopen
        exact hstep fun rest => rfl
      · by_cases hclose : c = ')'
        · subst hclose
          cases outer with
          | zero => exact .inl ⟨[], fun rest => rfl⟩
          | succ outer => exact hstep fun rest => rfl
        · exact hstep (upToClose?_cons hopen hclose)

theorem prefix_of_upToClose? {outer : Nat} {text inside : List Char}
    (h : upToClose? outer text = some inside) : inside <+: text := by
  fun_induction upToClose? outer text generalizing inside with
  | case1 => cases h
  | case2 outer text ih =>
      obtain ⟨behind, hbehind, rfl⟩ := Option.map_eq_some_iff.1 h
      exact (List.prefix_cons_inj _).2 (ih hbehind)
  | case3 text =>
      obtain rfl : [] = inside := Option.some.inj h
      exact List.nil_prefix
  | case4 outer text ih =>
      obtain ⟨behind, hbehind, rfl⟩ := Option.map_eq_some_iff.1 h
      exact (List.prefix_cons_inj _).2 (ih hbehind)
  | case5 outer c text hopen hclose hinner ih =>
      obtain ⟨behind, hbehind, rfl⟩ := Option.map_eq_some_iff.1 h
      exact (List.prefix_cons_inj _).2 (ih hbehind)

/-- What a space does to a list it does to the inside of the list, unless it makes an open list at the
end of the text longer. -/
theorem widened_insideParens {text other : List Char} (h : Widened c behind text other)
    (hclosed : behind ≠ [] ∨ (upToClose? 0 text).isSome) :
    ∃ part, part <+: behind ∧ Widened c part (insideParens text) (insideParens other) := by
  cases h with
  | same => exact ⟨behind, List.prefix_rfl, .same _⟩
  | past front hfront =>
      unfold insideParens
      rcases upToClose?_append_cases 0 front with ⟨inside, hinside⟩ | ⟨inner, hinner⟩
      · rw [hinside, hinside]
        exact ⟨behind, List.prefix_rfl, .same _⟩
      · rw [hinner, hinner, upToClose?_cons (by decide) (by decide)]
        cases hend : upToClose? inner behind with
        | some part => exact ⟨part, prefix_of_upToClose? hend, .past front hfront⟩
        | none =>
            have hmore : behind ≠ [] := hclosed.resolve_right (by simp [hinner, hend])
            refine ⟨behind.dropLast, List.dropLast_prefix behind, ?_⟩
            simp only [Option.map_none, Option.getD_none, List.dropLast_append_of_ne_nil hmore,
              List.dropLast_append_of_ne_nil (List.cons_ne_nil _ _), List.dropLast_cons_of_ne_nil hmore]
            exact .past front hfront

/-! ### Items -/

theorem splitCommas_cons {depth : Nat} {c : Char} (piece : List Char) (hopen : c ≠ '(')
    (hclose : c ≠ ')') (hcomma : c ≠ ',') (rest : List Char) :
    splitCommas depth piece (c :: rest) = splitCommas depth (c :: piece) rest := by
  rw [splitCommas]
  · exact hopen
  · exact hclose
  · exact fun _ => hcomma

theorem splitCommas_comma (depth : Nat) (piece rest : List Char) :
    splitCommas depth piece (',' :: rest) =
      if depth = 0 then piece.reverse :: splitCommas 0 [] rest
      else splitCommas depth (',' :: piece) rest := by
  cases depth with
  | zero => rfl
  | succ depth => rfl

/-- The first piece goes on with the start of the text. -/
theorem exists_first_piece (depth : Nat) (rest : List Char) :
    ∃ first others, first <+: rest ∧
      ∀ piece, splitCommas depth piece rest = (piece.reverse ++ first) :: others := by
  induction rest generalizing depth with
  | nil => exact ⟨[], [], List.prefix_rfl, fun piece => by simp [splitCommas]⟩
  | cons c rest ih =>
      have hstep {depth inner : Nat}
          (h : ∀ piece, splitCommas depth piece (c :: rest) = splitCommas inner (c :: piece) rest) :
          ∃ first others, first <+: c :: rest ∧
            ∀ piece, splitCommas depth piece (c :: rest) = (piece.reverse ++ first) :: others := by
        obtain ⟨first, others, hfirst, hsplit⟩ := ih inner
        refine ⟨c :: first, others, (List.prefix_cons_inj c).2 hfirst, fun piece => ?_⟩
        rw [h, hsplit, List.reverse_cons, List.append_assoc]
        rfl
      by_cases hopen : c = '('
      · subst hopen
        exact hstep fun piece => rfl
      by_cases hclose : c = ')'
      · subst hclose
        exact hstep fun piece => rfl
      by_cases hcomma : c = ','
      · subst hcomma
        by_cases hdepth : depth = 0
        · exact ⟨[], splitCommas 0 [] rest, List.nil_prefix, fun piece => by
            rw [splitCommas_comma, if_pos hdepth, List.append_nil]⟩
        · exact hstep fun piece => by rw [splitCommas_comma, if_neg hdepth]
      · exact hstep fun piece => splitCommas_cons piece hopen hclose hcomma rest

/-- The pieces that end in front of some place, and the one that is open there. -/
theorem exists_open_piece (depth : Nat) (piece front : List Char) :
    ∃ done inner last, last <:+ piece.reverse ++ front ∧
      ∀ rest, splitCommas depth piece (front ++ rest) = done ++ splitCommas inner last.reverse rest := by
  induction front generalizing depth piece with
  | nil => exact ⟨[], depth, piece.reverse, by simp, by simp⟩
  | cons c front ih =>
      have hstep {depth inner : Nat}
          (h : ∀ rest, splitCommas depth piece (c :: rest) = splitCommas inner (c :: piece) rest) :
          ∃ done inner last, last <:+ piece.reverse ++ c :: front ∧
            ∀ rest, splitCommas depth piece (c :: (front ++ rest)) =
              done ++ splitCommas inner last.reverse rest := by
        obtain ⟨done, deeper, last, hlast, hsplit⟩ := ih inner (c :: piece)
        refine ⟨done, deeper, last, ?_, fun rest => by rw [h, hsplit]⟩
        simpa using hlast
      by_cases hopen : c = '('
      · subst hopen
        exact hstep fun rest => rfl
      by_cases hclose : c = ')'
      · subst hclose
        exact hstep fun rest => rfl
      by_cases hcomma : c = ','
      · subst hcomma
        by_cases hdepth : depth = 0
        · obtain ⟨done, inner, last, hlast, hsplit⟩ := ih 0 []
          refine ⟨piece.reverse :: done, inner, last, ?_, fun rest => ?_⟩
          · exact hlast.trans ((List.suffix_cons _ _).trans (List.suffix_append _ _))
          · rw [List.cons_append, splitCommas_comma, if_pos hdepth, hsplit]
            rfl
        · exact hstep fun rest => by rw [splitCommas_comma, if_neg hdepth]
      · exact hstep (splitCommas_cons piece hopen hclose hcomma)

theorem trimRight_append (text rest : List Char) :
    trimRight (text ++ rest) =
      if trimRight rest = [] then trimRight text else text ++ trimRight rest := by
  simp only [trimRight, List.reverse_append, List.dropWhile_append, List.isEmpty_iff,
    List.reverse_eq_nil_iff]
  split
  · rfl
  · rw [List.reverse_append, List.reverse_reverse]

theorem trimRight_space (rest : List Char) :
    trimRight (' ' :: rest) = if trimRight rest = [] then [] else ' ' :: trimRight rest :=
  trimRight_append [' '] rest

/-- A space is trimmed away, or has something other than white space on both sides. -/
theorem trim_space_cases (last first : List Char) :
    trim (last ++ ' ' :: first) = trim (last ++ first) ∨
      (trimLeft last ≠ [] ∧ trimRight first ≠ [] ∧
        trim (last ++ first) = trimLeft last ++ trimRight first ∧
        trim (last ++ ' ' :: first) = trimLeft last ++ ' ' :: trimRight first) := by
  have hleft (rest : List Char) : trimLeft (last ++ rest) =
      if trimLeft last = [] then trimLeft rest else trimLeft last ++ rest := by
    simp only [trimLeft, List.dropWhile_append, List.isEmpty_iff]
    congr
  by_cases hlast : trimLeft last = []
  · left
    rw [trim, trim, hleft, hleft, if_pos hlast, if_pos hlast, trimLeft, dropWhile_space]
    rfl
  · simp only [trim, hleft, if_neg hlast]
    rw [trimRight_append _ first, trimRight_append _ (' ' :: first), trimRight_space]
    by_cases hfirst : trimRight first = []
    · simp [hfirst]
    · simp [hfirst, hlast]

/-- What the items of an exposing list expose. -/
def exposedItems (items : List (List Char)) : Exposing :=
  if items = [['.', '.']] then .everything
  else .only ((items.filter isLowerName).map String.ofList)

theorem isNameChar_of_isLowerAscii (h : isLowerAscii c = true) : isNameChar c = true := by
  have hcodes : ∀ code ∈ List.range' 'a'.toNat 26, isNameChar (Char.ofNat code) = true := by
    decide +kernel
  simp only [isLowerAscii, Bool.and_eq_true, decide_eq_true_eq] at h
  have hfirst : 'a'.toNat ≤ c.toNat := h.1
  have hlast : c.toNat ≤ 'z'.toNat := h.2
  have hmem : c.toNat ∈ List.range' 'a'.toNat 26 :=
    List.mem_range'_1.2 ⟨hfirst, Nat.lt_of_le_of_lt hlast (by decide)⟩
  simpa using hcodes c.toNat hmem

theorem isNameChar_of_mem_isLowerName {item : List Char} (h : isLowerName item = true) :
    ∀ d ∈ item, isNameChar d = true := by
  cases item with
  | nil => cases h
  | cons first item =>
      rw [isLowerName, Bool.and_eq_true, List.all_eq_true] at h
      intro d hd
      rcases List.mem_cons.1 hd with rfl | hd
      · exact isNameChar_of_isLowerAscii h.1
      · simp [isNameChar, h.2 d hd]

/-- An item that holds a character of no name exposes no value. -/
theorem exposedItems_of_not_isNameChar {item : List Char} (h : ∃ d ∈ item, isNameChar d = false)
    (before after : List (List Char)) :
    exposedItems (before ++ item :: after) =
      .only (((before ++ after).filter isLowerName).map String.ofList) := by
  obtain ⟨d, hd, hname⟩ := h
  have hdots : before ++ item :: after ≠ [['.', '.']] := by
    intro heq
    have hmem : item ∈ [['.', '.']] := heq ▸ List.mem_append_right _ List.mem_cons_self
    rw [List.mem_singleton] at hmem
    subst hmem
    have hdot : d = '.' := by simpa using hd
    rw [hdot] at hname
    exact absurd hname (by decide +kernel)
  have hlower : isLowerName item = false := by
    rw [Bool.eq_false_iff]
    intro hlower
    rw [isNameChar_of_mem_isLowerName hlower d hd] at hname
    cases hname
  rw [exposedItems, if_neg hdots, List.filter_append,
    List.filter_cons_of_neg (Bool.not_eq_true _ ▸ hlower), ← List.filter_append]

theorem trimRight_isPrefix (text : List Char) : trimRight text <+: text := by
  rw [trimRight, ← List.reverse_suffix, List.reverse_reverse]
  exact List.dropWhile_suffix _

/-- An item that a space parts between characters of no one name: the two ends show it as well as the
space does. -/
theorem exists_not_isNameChar_of_ends {last first : List Char} (hapart : Apart c behind)
    (hlast : last = [] ∨ ∃ more, last = more ++ [c]) (hfirst : first <+: behind)
    (hleft : trimLeft last ≠ []) (hright : trimRight first ≠ []) :
    ∃ e, isNameChar e = false ∧ ∀ mid, e ∈ trimLeft last ++ (mid ++ trimRight first) := by
  obtain ⟨more, hmore⟩ : ∃ more, trimLeft last = more ++ [c] := by
    rcases hlast with rfl | ⟨more, rfl⟩
    · exact absurd rfl hleft
    · rcases dropWhile_concat_cases isBlank more c with ⟨hnil, -⟩ | hmore
      · exact absurd hnil hleft
      · exact hmore
  obtain ⟨d, rest, hrest⟩ := List.exists_cons_of_ne_nil hright
  have hhead : behind.head? = some d := by
    obtain ⟨beyond, hbehind⟩ := (trimRight_isPrefix first).trans hfirst
    rw [← hbehind, hrest]
    rfl
  rw [hmore, hrest]
  cases hc : isNameChar c with
  | false => exact ⟨c, hc, by simp⟩
  | true => exact ⟨d, hapart.names hc d hhead, by simp⟩

/-- A space in the inside of a list leaves what the list exposes alone. -/
theorem exposedItems_widened {part text other : List Char} (hapart : Apart c behind)
    (hpart : part <+: behind) (h : Widened c part text other) :
    exposedItems (listItems other) = exposedItems (listItems text) := by
  cases h with
  | same => rfl
  | past front hfront =>
      obtain ⟨done, inner, last, hlast, hdone⟩ := exists_open_piece 0 [] front
      obtain ⟨first, others, hfirst, hsplit⟩ := exists_first_piece inner part
      have hitems {rest piece : List Char}
          (hrest : splitCommas inner last.reverse rest = piece :: others) :
          listItems (front ++ rest) =
            (done.map trim ++ trim piece :: others.map trim).filter fun item => !item.isEmpty := by
        rw [listItems, hdone, hrest, List.map_append, List.map_cons]
      have hold : splitCommas inner last.reverse part = (last ++ first) :: others := by
        rw [hsplit, List.reverse_reverse]
      have hnew : splitCommas inner last.reverse (' ' :: part) = (last ++ ' ' :: first) :: others := by
        rw [splitCommas_cons _ (by decide) (by decide) (by decide), hsplit, List.reverse_cons,
          List.reverse_reverse, List.append_assoc, List.singleton_append]
      rw [hitems hold, hitems hnew]
      rcases trim_space_cases last first with heq | ⟨hleft, hright, htrim, hgap⟩
      · rw [heq]
      · have hends : last = [] ∨ ∃ more, last = more ++ [c] := by
          rw [List.reverse_nil, List.nil_append] at hlast
          rcases hfront with rfl | ⟨more, rfl⟩
          · exact .inl (List.suffix_nil.1 hlast)
          · exact (List.suffix_concat_iff.1 hlast).imp_right fun ⟨more, hmore, _⟩ => ⟨more, hmore⟩
        obtain ⟨e, hname, hmem⟩ :=
          exists_not_isNameChar_of_ends hapart hends (hfirst.trans hpart) hleft hright
        have hkeep {item : List Char} (hitem : e ∈ item) :
            ((done.map trim ++ item :: others.map trim).filter fun item => !item.isEmpty) =
              (done.map trim).filter (fun item => !item.isEmpty) ++
                item :: (others.map trim).filter fun item => !item.isEmpty := by
          rw [List.filter_append, List.filter_cons_of_pos]
          cases item with
          | nil => cases hitem
          | cons => rfl
        have hmemOld : e ∈ trim (last ++ first) := htrim ▸ hmem []
        have hmemNew : e ∈ trim (last ++ ' ' :: first) := hgap ▸ hmem [' ']
        rw [hkeep hmemOld, hkeep hmemNew, exposedItems_of_not_isNameChar ⟨e, hmemOld, hname⟩,
          exposedItems_of_not_isNameChar ⟨e, hmemNew, hname⟩]

/-- What is exposed by the code behind the start of a module header. -/
def exposedBehind (body : List Char) : Exposing :=
  match afterExposing? false body with
  | none => .only []
  | some list => exposedItems (listItems (insideParens list))

theorem exposedNames_of_header {source body : List Char}
    (h : afterFirstHeader? true source = some body) : exposedNames source = exposedBehind body := by
  unfold exposedNames
  rw [h]
  rfl

theorem exposedBehind_space (hapart : Apart c behind) {front : List Char}
    (hclosed : behind ≠ [] ∨ ∃ list inside, afterExposing? false (front ++ [c]) = some list ∧
      upToClose? 0 list = some inside) :
    exposedBehind (front ++ c :: ' ' :: behind) = exposedBehind (front ++ c :: behind) := by
  have hlists := rel_afterExposing? hapart false front
  unfold exposedBehind
  generalize hlist : afterExposing? false (front ++ c :: behind) = list,
    afterExposing? false (front ++ c :: ' ' :: behind) = other at hlists ⊢
  cases hlists with
  | none => rfl
  | @some list other hwidened =>
      have hend : behind ≠ [] ∨ (upToClose? 0 list).isSome := by
        by_cases hmore : behind = []
        · obtain ⟨list', inside, hlist', hinside⟩ := hclosed.resolve_left (not_not_intro hmore)
          rw [hmore, hlist', Option.some.injEq] at hlist
          exact .inr (by rw [← hlist, hinside, Option.isSome_some])
        · exact .inl hmore
      obtain ⟨part, hpart, hinsides⟩ := widened_insideParens hwidened hend
      exact exposedItems_widened hapart hpart hinsides

/-- What a source exposes, past a character behind which a space is put in. -/
theorem exposedNames_append_space (hapart : Apart c behind)
    (hend : startsBlank behind = true ∨ endsWithHeader true (front ++ [c]) = false)
    (hline : c = '\n' → afterHeader? behind = none)
    (hclosed : behind ≠ [] ∨ headerClosed (front ++ [c]) = true) :
    exposedNames (front ++ c :: ' ' :: behind) = exposedNames (front ++ c :: behind) := by
  cases pastHeader_afterFirstHeader? hapart hend hline with
  | same h => exact exposedNames_eq_of_header h
  | past front' h hgap =>
      rw [exposedNames_of_header h, exposedNames_of_header hgap]
      refine exposedBehind_space hapart ?_
      by_cases hmore : behind = []
      · rw [hmore] at h
        exact .inr (exists_list_of_headerClosed (hclosed.resolve_left (not_not_intro hmore)) h)
      · exact .inl hmore
  | blank d body hd h hgap =>
      rw [exposedNames_of_header h, exposedNames_of_header hgap, exposedBehind, exposedBehind,
        afterExposing?_blank hd]

end ElmSuite.Elm
