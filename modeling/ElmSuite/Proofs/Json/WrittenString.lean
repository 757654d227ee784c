import ElmSuite.Json.Printer
import ElmSuite.Json.Reader

/-!
Written strings read back: every character, whether it is written as it is, by a letter after a
backslash or by its four digits, is the code point that the reader gives.
-/

namespace ElmSuite.Json

theorem shortEscape?_eq_some {c letter : Char} (h : shortEscape? c = some letter) :
    letter ≠ 'u' ∧ 0x20 ≤ letter.toNat ∧ escapedCode? letter = some c.toNat := by
  unfold shortEscape? at h
  repeat' split at h
  all_goals first
    | cases h
      subst_vars
      decide
    | cases h

theorem shortEscape?_eq_none {c : Char} (h : shortEscape? c = none) :
    c ≠ '"' ∧ c ≠ '\\' := by
  constructor <;> rintro rfl <;> cases h

/-- The four digits of a control character denote it. -/
theorem exists_hexDigits_of_lt {n : Nat} (h : n < 0x20) :
    ∃ a b c d, Text.hexDigits 4 n = [a, b, c, d] ∧ hexCode? a b c d = some n ∧
      ∀ digit ∈ [a, b, c, d], 0x20 ≤ digit.toNat := by
  have hall : ∀ n : Fin 0x20, hexCode? '0' '0' (Text.hexDigit (n / 16 % 16)) (Text.hexDigit (n % 16)) =
      some n.val ∧ ['0', '0', Text.hexDigit (n / 16 % 16), Text.hexDigit (n % 16)].all
        (fun digit => decide (0x20 ≤ digit.toNat)) = true := by
    decide
  obtain ⟨hcode, hdigits⟩ := hall ⟨n, h⟩
  refine ⟨'0', '0', _, _, ?_, hcode, fun digit hdigit =>
    of_decide_eq_true (List.all_eq_true.1 hdigits digit hdigit)⟩
  have hhigh : n / 16 / 16 / 16 % 16 = 0 ∧ n / 16 / 16 % 16 = 0 := by omega
  simp [Text.hexDigits, hhigh, Text.hexDigit]

/-- A code point that is no first half of a surrogate pair stands for itself. -/
theorem pairedCode?_of_lt {code : Nat} (h : code < 0x20) (rest : List Char) :
    pairedCode? code rest = .ok none := by
  have hhigh : isHighSurrogate code = false := by
    simp [isHighSurrogate]
    omega
  unfold pairedCode?
  split
  · rw [hhigh]
    rfl
  · rfl

variable {opened : Nat} {c : Char} {rest : List Char}

theorem readString_short {letter : Char} (h : shortEscape? c = some letter) :
    readString opened ('\\' :: letter :: rest) = consCode c.toNat (readString opened rest) := by
  obtain ⟨hne, -, hcode⟩ := shortEscape?_eq_some h
  rw [readString]
  · rw [hcode]
  · rintro rfl
    exact hne rfl

theorem readString_digits (hsmall : c.toNat < 0x20) (hrest : rest ≠ []) :
    readString opened ('\\' :: 'u' :: (Text.hexDigits 4 c.toNat ++ rest)) =
      consCode c.toNat (readString opened rest) := by
  obtain ⟨w, x, y, z, hdigits, hcode, -⟩ := exists_hexDigits_of_lt hsmall
  have hmore : rest.isEmpty = false := by
    rw [List.isEmpty_eq_false_iff]
    exact hrest
  rw [hdigits, List.cons_append, List.cons_append, List.cons_append, List.cons_append,
    List.nil_append, readString]
  simp only [hmore, Bool.false_eq_true, if_false, hcode, pairedCode?_of_lt hsmall]

theorem readString_plain (hquote : c ≠ '"') (hslash : c ≠ '\\') (hlarge : ¬ c.toNat < 0x20) :
    readString opened (c :: rest) = consCode c.toNat (readString opened rest) := by
  rw [readString, if_neg hlarge]
  · exact hquote
  · exact fun heq _ => hslash heq
  · exact fun _ heq _ => hslash heq
  · exact fun _ _ heq _ => hslash heq

/-- A written character is read as its code point. -/
theorem readString_writtenChar (hrest : rest ≠ []) :
    readString opened (writtenChar c ++ rest) = consCode c.toNat (readString opened rest) := by
  unfold writtenChar
  split
  · next letter hletter => exact readString_short hletter
  · next hnone =>
    obtain ⟨hquote, hslash⟩ := shortEscape?_eq_none hnone
    split
    · next hsmall => exact readString_digits hsmall hrest
    · next hlarge => exact readString_plain hquote hslash hlarge

/-- The characters of a written string are read up to its closing quote. -/
theorem readString_written (opened : Nat) (text after : List Char) :
    readString opened (text.flatMap writtenChar ++ '"' :: after) = .ok (.ofChars text, after) := by
  induction text with
  | nil => rfl
  | cons c text ih =>
      rw [List.flatMap_cons, List.append_assoc, readString_writtenChar (by simp), ih]
      rfl

/-- Nothing below the space stands in a written character. -/
theorem le_of_mem_writtenChar {c d : Char} (h : d ∈ writtenChar c) : 0x20 ≤ d.toNat := by
  unfold writtenChar at h
  split at h
  · next letter hletter =>
    simp only [List.mem_cons, List.not_mem_nil, or_false] at h
    rcases h with rfl | rfl
    · decide
    · exact (shortEscape?_eq_some hletter).2.1
  · split at h
    · next hsmall =>
      obtain ⟨w, x, y, z, hdigits, -, hdigit⟩ := exists_hexDigits_of_lt hsmall
      rw [hdigits, List.mem_cons, List.mem_cons] at h
      rcases h with rfl | rfl | h
      · decide
      · decide
      · exact hdigit d h
    · next hlarge =>
      rw [List.mem_singleton.1 h]
      omega

/-- Nothing below the space stands in a written string. -/
theorem le_of_mem_writtenString {text : List Char} {d : Char} (h : d ∈ writtenString text) :
    0x20 ≤ d.toNat := by
  simp only [writtenString, List.mem_cons, List.mem_append, List.mem_flatMap, List.not_mem_nil,
    or_false] at h
  rcases h with rfl | ⟨c, -, hmem⟩ | rfl
  · decide
  · exact le_of_mem_writtenChar hmem
  · decide

end ElmSuite.Json
