import ElmSuite.Text.Codes
import Mathlib.Data.List.TakeWhile

/-!
Which sequences of code points are texts.  A code point is a character unless it is half of a
surrogate pair or too large, and a sequence of characters survives being written as a string.
-/

namespace ElmSuite.Codes

/-- A sequence of characters. -/
def IsText (codes : Codes) : Prop :=
  ∀ code ∈ codes, code.isValidChar

/-- A sequence of code points, none of which is larger than there are. -/
def InRange (codes : Codes) : Prop :=
  ∀ code ∈ codes, code < 0x110000

/-- A sequence without halves of surrogate pairs. -/
def IsWhole (codes : Codes) : Prop :=
  ∀ code ∈ codes, isSurrogate code = false

theorem isText_iff (codes : Codes) : codes.IsText ↔ codes.InRange ∧ codes.IsWhole := by
  have hcode (code : Nat) :
      code.isValidChar ↔ code < 0x110000 ∧ isSurrogate code = false := by
    simp only [Nat.isValidChar, isSurrogate, Bool.and_eq_false_iff, decide_eq_false_iff_not]
    omega
  simp only [IsText, InRange, IsWhole, hcode, forall_and]

theorem IsText.isWhole {codes : Codes} (h : codes.IsText) : codes.IsWhole :=
  ((isText_iff codes).1 h).2

theorem IsText.inRange {codes : Codes} (h : codes.IsText) : codes.InRange :=
  ((isText_iff codes).1 h).1

theorem isText_ofChars (text : List Char) : (ofChars text).IsText := by
  intro code hcode
  obtain ⟨c, -, rfl⟩ := List.mem_map.1 hcode
  exact c.valid

theorem isText_ofString (text : String) : (ofString text).IsText :=
  isText_ofChars text.toList

/-- A text is the same as a string. -/
theorem ofString_lossy {codes : Codes} (h : codes.IsText) : ofString codes.lossy = codes := by
  rw [ofString, lossy, String.toList_ofList, ofChars]
  induction codes with
  | nil => rfl
  | cons code codes ih =>
      rw [IsText, List.forall_mem_cons] at h
      have hcode : (Char.ofNat code).toNat = code := by
        rw [Char.ofNat, dif_pos h.1]
        rfl
      rw [List.flatMap_cons, List.map_append, ih h.2, charOf?, if_pos h.1, List.map_singleton, hcode,
        List.singleton_append]

theorem ofString_injective {first second : String} (h : ofString first = ofString second) :
    first = second := by
  unfold ofString ofChars at h
  rw [List.map_inj_right fun _ _ => Char.toNat_inj.1] at h
  exact String.toList_inj.1 h

/-- What is shown without a replacement is a text. -/
theorem eq_ofString_of_lossy {codes : Codes} {text : String} (h : codes.lossy = text)
    (htext : replacement ∉ text.toList) : codes = ofString text := by
  have hcodes : codes.IsText := by
    intro code hcode
    apply Classical.byContradiction
    intro hinvalid
    apply htext
    rw [← h, lossy, String.toList_ofList, List.mem_flatMap]
    refine ⟨code, hcode, ?_⟩
    rw [charOf?, if_neg hinvalid]
    exact List.mem_cons_self
  rw [← h, ofString_lossy hcodes]

theorem surrogates?_eq_none {codes : Codes} : codes.surrogates? = none ↔ codes.IsWhole := by
  have hleft (front back : Codes) : (front ++ back).drop front.length = back := List.drop_left
  have hdrop := hleft (codes.takeWhile fun code => !isSurrogate code)
    (codes.dropWhile fun code => !isSurrogate code)
  rw [List.takeWhile_append_dropWhile] at hdrop
  have hnil : codes.surrogates? = none ↔ codes.dropWhile (fun code => !isSurrogate code) = [] := by
    simp only [surrogates?, hdrop]
    split <;> simp_all
  rw [hnil, List.dropWhile_eq_nil_iff]
  simp [IsWhole]

end ElmSuite.Codes
