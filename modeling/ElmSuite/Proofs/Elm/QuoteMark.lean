import ElmSuite.Elm.Exposing

/-!
The patterns of the search for exposed values at a quote mark.  The mark stops every one of them, so
that a search of a text with a mark in it is a search of what is in front, and then of what is
behind.
-/

namespace ElmSuite.Elm

open Text

/-! ### Patterns in front of a quote mark -/

@[simp]
theorem isBlank_mark : isBlank '"' = false := by
  decide

@[simp]
theorem isWord_mark : isWord '"' = false := by
  decide +kernel

@[simp]
theorem isNameChar_mark : isNameChar '"' = false := by
  decide +kernel

theorem takeWhile_append_mark {p : Char → Bool} (hmark : p '"' = false) (text rest : List Char) :
    (text ++ '"' :: rest).takeWhile p = text.takeWhile p := by
  induction text with
  | nil => simp [hmark]
  | cons c text ih =>
      rw [List.cons_append, List.takeWhile_cons, List.takeWhile_cons, ih]

theorem dropWhile_append_mark {p : Char → Bool} (hmark : p '"' = false) (text rest : List Char) :
    (text ++ '"' :: rest).dropWhile p = text.dropWhile p ++ '"' :: rest := by
  induction text with
  | nil => simp [hmark]
  | cons c text ih =>
      rw [List.cons_append, List.dropWhile_cons, List.dropWhile_cons, ih]
      split <;> rfl

theorem after?_append_mark {lead : List Char} (hlead : '"' ∉ lead) (text rest : List Char) :
    after? lead (text ++ '"' :: rest) = (after? lead text).map (· ++ '"' :: rest) := by
  induction lead generalizing text with
  | nil => simp [after?]
  | cons c lead ih =>
      rw [List.mem_cons, not_or] at hlead
      cases text with
      | nil => simp [after?, Ne.symm hlead.1]
      | cons d text =>
          have hrest := ih hlead.2 text
          by_cases hcd : c = d
          · simpa [after?, hcd] using hrest
          · simp [after?, hcd]

theorem afterBlanks?_append_mark (text rest : List Char) :
    afterBlanks? (text ++ '"' :: rest) = (afterBlanks? text).map (· ++ '"' :: rest) := by
  cases text with
  | nil => simp [afterBlanks?]
  | cons c text =>
      simp only [List.cons_append, afterBlanks?, dropWhile_append_mark isBlank_mark]
      split <;> rfl

theorem afterModule?_append_mark (text rest : List Char) :
    afterModule? (text ++ '"' :: rest) = (afterModule? text).map (· ++ '"' :: rest) := by
  unfold afterModule?
  rw [after?_append_mark (by decide)]
  cases after? "module".toList text with
  | none => rfl
  | some behind =>
      simp only [Option.map_some, Option.bind_eq_bind, Option.bind_some]
      rw [afterBlanks?_append_mark]
      cases afterBlanks? behind with
      | none => rfl
      | some named =>
          simp only [Option.map_some, Option.bind_some, takeWhile_append_mark isNameChar_mark,
            dropWhile_append_mark isNameChar_mark]
          cases named.takeWhile isNameChar with
          | nil => rfl
          | cons first name =>
              cases named.dropWhile isNameChar with
              | nil => simp
              | cons c body =>
                  simp only [List.cons_append]
                  split <;> rfl

theorem afterKeyword?_append_mark {keyword : String} (hkeyword : '"' ∉ keyword.toList)
    (text rest : List Char) :
    afterKeyword? keyword (text ++ '"' :: rest) =
      (afterKeyword? keyword text).map (· ++ '"' :: rest) := by
  unfold afterKeyword?
  rw [after?_append_mark hkeyword]
  cases after? keyword.toList text with
  | none => rfl
  | some behind =>
      simp only [Option.map_some, Option.bind_eq_bind, Option.bind_some]
      rw [afterBlanks?_append_mark]
      cases afterBlanks? behind with
      | none => rfl
      | some body => exact afterModule?_append_mark body rest

theorem afterHeader?_append_mark (text rest : List Char) :
    afterHeader? (text ++ '"' :: rest) = (afterHeader? text).map (· ++ '"' :: rest) := by
  unfold afterHeader?
  rw [afterKeyword?_append_mark (by decide), afterKeyword?_append_mark (by decide),
    afterModule?_append_mark]
  cases afterKeyword? "port" text <;> cases afterKeyword? "effect" text <;> rfl

theorem declared?_append_mark (text rest : List Char) :
    declared? (text ++ '"' :: rest) = declared? text := by
  unfold declared?
  simp only [takeWhile_append_mark isWord_mark, dropWhile_append_mark isWord_mark,
    dropWhile_append_mark isBlank_mark]
  -- Two characters decide, and a quote mark in their place decides like the end of the text.
  rcases (text.dropWhile isWord).dropWhile isBlank with _ | ⟨c, _ | ⟨d, body⟩⟩
  · simp
  · by_cases hc : c = '='
    · subst hc
      rfl
    · simp [hc]
  · by_cases hc : c = '='
    · subst hc
      by_cases hd : d = '='
      · subst hd
        rfl
      · simp [hd]
    · simp [hc]

/-! ### Searches past a quote mark -/

theorem afterFirstHeader?_append_mark (atLineStart : Bool) (text rest : List Char) :
    afterFirstHeader? atLineStart (text ++ '"' :: rest) =
      ((afterFirstHeader? atLineStart text).map (· ++ '"' :: rest) <|>
        afterFirstHeader? false rest) := by
  induction text generalizing atLineStart with
  | nil =>
      have hmark : afterHeader? ('"' :: rest) = none := afterHeader?_append_mark [] rest
      simp [afterFirstHeader?, hmark]
  | cons c text ih =>
      have hhere := afterHeader?_append_mark (c :: text) rest
      rw [List.cons_append] at hhere
      rw [List.cons_append, afterFirstHeader?, afterFirstHeader?, ih, hhere]
      cases atLineStart with
      | false => simp
      | true => cases afterHeader? (c :: text) <;> simp

@[simp]
theorem afterFirstHeader?_mark (atLineStart : Bool) (rest : List Char) :
    afterFirstHeader? atLineStart ('"' :: rest) = afterFirstHeader? false rest := by
  have h := afterFirstHeader?_append_mark atLineStart [] rest
  simpa [afterFirstHeader?] using h

theorem afterOpenList?_append_mark (text rest : List Char) :
    (after? "exposing".toList (text ++ '"' :: rest)).bind
        (fun list => after? ['('] (list.dropWhile isBlank)) =
      ((after? "exposing".toList text).bind fun list => after? ['('] (list.dropWhile isBlank)).map
        (· ++ '"' :: rest) := by
  rw [after?_append_mark (by decide)]
  cases after? "exposing".toList text with
  | none => rfl
  | some list =>
      simp only [Option.map_some, Option.bind_some, dropWhile_append_mark isBlank_mark]
      exact after?_append_mark (by decide) _ rest

theorem afterExposing?_append_mark {inWord : Bool} {text list : List Char} (rest : List Char)
    (h : afterExposing? inWord text = some list) :
    afterExposing? inWord (text ++ '"' :: rest) = some (list ++ '"' :: rest) := by
  induction text generalizing inWord with
  | nil => cases h
  | cons c text ih =>
      have hhere := afterOpenList?_append_mark (c :: text) rest
      rw [List.cons_append] at hhere ⊢
      simp only [afterExposing?, Option.bind_eq_bind, hhere] at h ⊢
      cases inWord with
      | true => simpa using ih (by simpa using h)
      | false =>
          cases hopen : (after? "exposing".toList (c :: text)).bind fun list =>
              after? ['('] (list.dropWhile isBlank) with
          | none =>
              rw [hopen] at h
              simpa using ih (by simpa using h)
          | some found =>
              rw [hopen] at h
              simpa using h

theorem upToClose?_append {outer : Nat} {text inside : List Char} (rest : List Char)
    (h : upToClose? outer text = some inside) : upToClose? outer (text ++ rest) = some inside := by
  fun_induction upToClose? outer text generalizing inside with
  | case1 => cases h
  | case2 outer text ih =>
      obtain ⟨behind, hbehind, rfl⟩ := Option.map_eq_some_iff.1 h
      simp [upToClose?, ih hbehind]
  | case3 text => simpa [upToClose?] using h
  | case4 outer text ih =>
      obtain ⟨behind, hbehind, rfl⟩ := Option.map_eq_some_iff.1 h
      simp [upToClose?, ih hbehind]
  | case5 outer c text hopen hclose hinner ih =>
      obtain ⟨behind, hbehind, rfl⟩ := Option.map_eq_some_iff.1 h
      rw [List.cons_append, upToClose?, ih hbehind, Option.map_some]
      · exact hopen
      · exact hclose
      · exact hinner

theorem declaredFrom_append_mark (atLineStart : Bool) (text rest : List Char) :
    declaredFrom atLineStart (text ++ '"' :: rest) =
      declaredFrom atLineStart text ++ declaredFrom false rest := by
  induction text generalizing atLineStart with
  | nil =>
      have hmark : declared? ('"' :: rest) = none := declared?_append_mark [] rest
      simp [declaredFrom, hmark]
  | cons c text ih =>
      have hhere := declared?_append_mark (c :: text) rest
      rw [List.cons_append] at hhere
      rw [List.cons_append, declaredFrom, declaredFrom, ih, hhere, List.append_assoc]

@[simp]
theorem declaredFrom_mark (atLineStart : Bool) (rest : List Char) :
    declaredFrom atLineStart ('"' :: rest) = declaredFrom false rest :=
  declaredFrom_append_mark atLineStart [] rest

theorem declaredFrom_eq_nil {text : List Char} (hline : '\n' ∉ text) :
    declaredFrom false text = [] := by
  induction text with
  | nil => rfl
  | cons c text ih =>
      rw [List.mem_cons, not_or] at hline
      have hc : (c == '\n') = false := by simpa using Ne.symm hline.1
      simpa [declaredFrom, hc] using ih hline.2

theorem afterFirstHeader?_eq_none {text : List Char} (hline : '\n' ∉ text) :
    afterFirstHeader? false text = none := by
  induction text with
  | nil => rfl
  | cons c text ih =>
      rw [List.mem_cons, not_or] at hline
      have hc : (c == '\n') = false := by simpa using Ne.symm hline.1
      simpa [afterFirstHeader?, hc] using ih hline.2

end ElmSuite.Elm
