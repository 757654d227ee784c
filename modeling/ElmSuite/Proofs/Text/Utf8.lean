import ElmSuite.Text.Utf8

/-!
Texts read back from their bytes.  A character is written as one to four bytes, by its size, and the
first of them tells the reader how many follow.
-/

namespace ElmSuite.Text

namespace Utf8

/-- A byte that is a small number. -/
theorem toNat_ofNat_of_lt {n : Nat} (h : n < 256) : (UInt8.ofNat n).toNat = n := by
  rw [UInt8.toNat_ofNat', Nat.mod_eq_of_lt h]

theorem isContinuation_ofNat {n : Nat} (h : n < 64) :
    isContinuation (UInt8.ofNat (n + 128)) = true := by
  simp only [isContinuation, Bool.and_eq_true, decide_eq_true_eq, UInt8.le_iff_toNat_le,
    UInt8.lt_iff_toNat_lt, toNat_ofNat_of_lt (show n + 128 < 256 by omega)]
  exact ⟨Nat.le_add_left _ _, by change n + 128 < 192; omega⟩

theorem payload_ofNat {n : Nat} (h : n < 64) : payload (UInt8.ofNat (n + 128)) = n := by
  rw [payload, toNat_ofNat_of_lt (by omega)]
  omega

variable (start : Nat) (rest : List UInt8)

theorem decodeFrom_one {n : Nat} (h : n < 128) :
    decodeFrom start (UInt8.ofNat n :: rest) =
      (decodeFrom (start + 1) rest).map (Char.ofNat n :: ·) := by
  have hlead := toNat_ofNat_of_lt (show n < 256 by omega)
  have hone : UInt8.ofNat n < 0x80 := by
    rw [UInt8.lt_iff_toNat_lt, hlead]
    exact h
  rw [decodeFrom.eq_def]
  dsimp only
  rw [if_pos hone, hlead]

/-- Where the first byte of a character that takes several of them is tested. -/
theorem lead_tests {n : Nat} (hlow : 194 ≤ n) (hhigh : n < 245) :
    ¬ UInt8.ofNat n < 0x80 ∧
      (decide (UInt8.ofNat n < 0xC2) || decide (0xF5 ≤ UInt8.ofNat n)) = false ∧
      (UInt8.ofNat n < 0xE0 ↔ n < 224) ∧ (UInt8.ofNat n < 0xF0 ↔ n < 240) := by
  have hlead := toNat_ofNat_of_lt (show n < 256 by omega)
  simp only [UInt8.lt_iff_toNat_lt, UInt8.le_iff_toNat_le, hlead, Bool.or_eq_false_iff,
    decide_eq_false_iff_not]
  refine ⟨?_, ⟨?_, ?_⟩, Iff.rfl, Iff.rfl⟩
  · change ¬ n < 128
    omega
  · change ¬ n < 194
    omega
  · change ¬ 245 ≤ n
    omega

theorem decodeFrom_two {a b : Nat} (hlow : 2 ≤ a) (hhigh : a < 32) (hb : b < 64) :
    decodeFrom start (UInt8.ofNat (a + 192) :: UInt8.ofNat (b + 128) :: rest) =
      (decodeFrom (start + 2) rest).map (Char.ofNat (a * 64 + b) :: ·) := by
  obtain ⟨hone, hbad, htwo, -⟩ := lead_tests (n := a + 192) (by omega) (by omega)
  have hlead := toNat_ofNat_of_lt (show a + 192 < 256 by omega)
  have ha : (a + 192) % 32 = a := by omega
  rw [decodeFrom.eq_def]
  dsimp only
  rw [if_neg hone, if_neg (by rw [hbad]; exact Bool.false_ne_true), if_pos (htwo.2 (by omega)),
    if_pos (isContinuation_ofNat hb), payload_ofNat hb, hlead, ha]

/-- Overlong forms and surrogates have no bytes. -/
theorem isSecondOfThree_ofNat {a b : Nat} (ha : a < 16) (hb : b < 64) (hlong : a = 0 → 32 ≤ b)
    (hpair : a = 13 → b < 32) :
    isSecondOfThree (UInt8.ofNat (a + 224)) (UInt8.ofNat (b + 128)) = true := by
  have hlead := toNat_ofNat_of_lt (show a + 224 < 256 by omega)
  have hsecond := toNat_ofNat_of_lt (show b + 128 < 256 by omega)
  simp only [isSecondOfThree, isContinuation_ofNat hb, Bool.true_and, Bool.and_eq_true,
    Bool.not_eq_true', Bool.and_eq_false_iff, beq_eq_false_iff_ne, decide_eq_false_iff_not, ne_eq,
    ← UInt8.toNat_inj, UInt8.lt_iff_toNat_lt, UInt8.le_iff_toNat_le, hlead, hsecond]
  constructor
  · change ¬ a + 224 = 224 ∨ ¬ b + 128 < 160
    omega
  · change ¬ a + 224 = 237 ∨ ¬ 160 ≤ b + 128
    omega

theorem decodeFrom_three {a b c : Nat} (ha : a < 16) (hb : b < 64) (hc : c < 64)
    (hlong : a = 0 → 32 ≤ b) (hpair : a = 13 → b < 32) :
    decodeFrom start
        (UInt8.ofNat (a + 224) :: UInt8.ofNat (b + 128) :: UInt8.ofNat (c + 128) :: rest) =
      (decodeFrom (start + 3) rest).map (Char.ofNat ((a * 64 + b) * 64 + c) :: ·) := by
  obtain ⟨hone, hbad, htwo, hthree⟩ := lead_tests (n := a + 224) (by omega) (by omega)
  have hlead := toNat_ofNat_of_lt (show a + 224 < 256 by omega)
  have ha' : (a + 224) % 16 = a := by omega
  rw [decodeFrom.eq_def]
  dsimp only
  rw [if_neg hone, if_neg (by rw [hbad]; exact Bool.false_ne_true), if_neg (by rw [htwo]; omega),
    if_pos (hthree.2 (by omega)), if_pos (isSecondOfThree_ofNat ha hb hlong hpair),
    if_pos (isContinuation_ofNat hc), payload_ofNat hb, payload_ofNat hc, hlead, ha']

/-- Nothing above the last code point has bytes. -/
theorem isSecondOfFour_ofNat {a b : Nat} (ha : a < 5) (hb : b < 64) (hlong : a = 0 → 16 ≤ b)
    (hlast : a = 4 → b < 16) :
    isSecondOfFour (UInt8.ofNat (a + 240)) (UInt8.ofNat (b + 128)) = true := by
  have hlead := toNat_ofNat_of_lt (show a + 240 < 256 by omega)
  have hsecond := toNat_ofNat_of_lt (show b + 128 < 256 by omega)
  simp only [isSecondOfFour, isContinuation_ofNat hb, Bool.true_and, Bool.and_eq_true,
    Bool.not_eq_true', Bool.and_eq_false_iff, beq_eq_false_iff_ne, decide_eq_false_iff_not, ne_eq,
    ← UInt8.toNat_inj, UInt8.lt_iff_toNat_lt, UInt8.le_iff_toNat_le, hlead, hsecond]
  constructor
  · change ¬ a + 240 = 240 ∨ ¬ b + 128 < 144
    omega
  · change ¬ a + 240 = 244 ∨ ¬ 144 ≤ b + 128
    omega

theorem decodeFrom_four {a b c d : Nat} (ha : a < 5) (hb : b < 64) (hc : c < 64) (hd : d < 64)
    (hlong : a = 0 → 16 ≤ b) (hlast : a = 4 → b < 16) :
    decodeFrom start (UInt8.ofNat (a + 240) :: UInt8.ofNat (b + 128) :: UInt8.ofNat (c + 128) ::
        UInt8.ofNat (d + 128) :: rest) =
      (decodeFrom (start + 4) rest).map
        (Char.ofNat (((a * 64 + b) * 64 + c) * 64 + d) :: ·) := by
  obtain ⟨hone, hbad, htwo, hthree⟩ := lead_tests (n := a + 240) (by omega) (by omega)
  have hlead := toNat_ofNat_of_lt (show a + 240 < 256 by omega)
  have ha' : (a + 240) % 8 = a := by omega
  rw [decodeFrom.eq_def]
  dsimp only
  rw [if_neg hone, if_neg (by rw [hbad]; exact Bool.false_ne_true), if_neg (by rw [htwo]; omega),
    if_neg (by rw [hthree]; omega), if_pos (isSecondOfFour_ofNat ha hb hlong hlast),
    if_pos (isContinuation_ofNat hc), if_pos (isContinuation_ofNat hd), payload_ofNat hb,
    payload_ofNat hc, payload_ofNat hd, hlead, ha']

/-- The bytes of a character are read back as the character. -/
theorem exists_decodeFrom_encodeChar (c : Char) :
    ∃ later, decodeFrom start (String.utf8EncodeChar c ++ rest) =
      (decodeFrom later rest).map (c :: ·) := by
  have hvalid : c.val.toNat.isValidChar := c.valid
  have hchar (n : Nat) (h : n = c.val.toNat) : Char.ofNat n = c := by
    rw [h]
    exact Char.ofNat_toNat c
  generalize hv : c.val.toNat = v at hvalid hchar
  unfold Nat.isValidChar at hvalid
  simp only [String.utf8EncodeChar, hv]
  split
  · next hone =>
    refine ⟨start + 1, ?_⟩
    rw [← hchar v rfl]
    exact decodeFrom_one start rest (by omega)
  · split
    · next hone htwo =>
      refine ⟨start + 2, ?_⟩
      have hread := decodeFrom_two start rest (a := v / 64 % 32) (b := v % 64) (by omega) (by omega)
        (by omega)
      rwa [hchar (v / 64 % 32 * 64 + v % 64) (by omega)] at hread
    · split
      · next hone htwo hthree =>
        refine ⟨start + 3, ?_⟩
        have hread := decodeFrom_three start rest (a := v / 4096 % 16) (b := v / 64 % 64)
          (c := v % 64) (by omega) (by omega) (by omega) (by omega) (by omega)
        rwa [hchar ((v / 4096 % 16 * 64 + v / 64 % 64) * 64 + v % 64) (by omega)] at hread
      · next hone htwo hthree =>
        refine ⟨start + 4, ?_⟩
        have hread := decodeFrom_four start rest (a := v / 262144 % 8) (b := v / 4096 % 64)
          (c := v / 64 % 64) (d := v % 64) (by omega) (by omega) (by omega) (by omega) (by omega)
          (by omega)
        rwa [hchar (((v / 262144 % 8 * 64 + v / 4096 % 64) * 64 + v / 64 % 64) * 64 + v % 64)
          (by omega)] at hread

theorem decodeFrom_encode (text : List Char) : decodeFrom start (encode text) = .ok text := by
  induction text generalizing start with
  | nil => rfl
  | cons c text ih =>
      obtain ⟨later, hread⟩ := exists_decodeFrom_encodeChar start (encode text) c
      rw [show encode (c :: text) = String.utf8EncodeChar c ++ encode text from rfl, hread, ih later]
      rfl

/-- The bytes of a text are read back as the text. -/
theorem decode_encode (text : List Char) : decode (encode text) = .ok text :=
  decodeFrom_encode 0 text

end Utf8

theorem normalizeNewlines_eq_self {text : List Char} (h : '\r' ∉ text) :
    normalizeNewlines text = text := by
  induction text with
  | nil => rfl
  | cons c text ih =>
      rw [List.mem_cons, not_or] at h
      rw [normalizeNewlines, ih h.2]
      · rintro rest rfl -
        exact h.1 rfl
      · rintro rfl
        exact h.1 rfl

end ElmSuite.Text
