import BurnerRedis.Pipeline.Values

/-!
# Texts that come back

`from_utf8_lossy` reads the UTF-8 encoding of a text as that text, and bytes of ASCII are the encoding
of what it reads.
-/

namespace BurnerRedis

open Pipeline (utf8)

/-! ## One character -/

section Head

variable {a b c d : UInt8} {rest : Bytes}

theorem isCont_iff : isCont b = true ↔ 128 ≤ b.toNat ∧ b.toNat ≤ 191 := by
  simp [isCont, UInt8.le_iff_toNat_le]

/-- A lead byte and the bytes it asks for are read as one character. -/
theorem lossyHead_two (ha : 194 ≤ a.toNat ∧ a.toNat ≤ 223) (hb : 128 ≤ b.toNat ∧ b.toNat ≤ 191) :
    lossyHead a (b :: rest) = (Char.ofNat ((a.toNat - 192) * 64 + (b.toNat - 128)), 1) := by
  have h128 : ¬ a < 128 := by
    simp only [UInt8.lt_iff_toNat_lt, UInt8.reduceToNat]
    omega
  have hlead : (194 ≤ a && a ≤ 223) = true := by simp [UInt8.le_iff_toNat_le, ha]
  unfold lossyHead
  dsimp only
  rw [if_neg h128, if_pos hlead, List.headD_cons, if_pos (isCont_iff.mpr hb)]

theorem lossyHead_three (ha : 224 ≤ a.toNat ∧ a.toNat ≤ 239)
    (hb : (secondRange a).1 ≤ b ∧ b ≤ (secondRange a).2) (hc : 128 ≤ c.toNat ∧ c.toNat ≤ 191) :
    lossyHead a (b :: c :: rest) =
      (Char.ofNat ((a.toNat - 224) * 4096 + (b.toNat - 128) * 64 + (c.toNat - 128)), 2) := by
  have h128 : ¬ a < 128 := by
    simp only [UInt8.lt_iff_toNat_lt, UInt8.reduceToNat]
    omega
  have htwo : ¬ (194 ≤ a && a ≤ 223) = true := by
    simp only [UInt8.le_iff_toNat_le, UInt8.reduceToNat, Bool.and_eq_true, decide_eq_true_eq]
    omega
  have hlead : (224 ≤ a && a ≤ 239) = true := by simp [UInt8.le_iff_toNat_le, ha]
  have hrange : ((secondRange a).1 ≤ b && b ≤ (secondRange a).2) = true := by simp [hb]
  unfold lossyHead
  dsimp only
  rw [if_neg h128, if_neg htwo, if_pos hlead, List.headD_cons, hrange, List.drop_succ_cons,
    List.drop_zero, List.headD_cons, isCont_iff.mpr hc]
  rfl

theorem lossyHead_four (ha : 240 ≤ a.toNat ∧ a.toNat ≤ 244)
    (hb : (secondRange a).1 ≤ b ∧ b ≤ (secondRange a).2) (hc : 128 ≤ c.toNat ∧ c.toNat ≤ 191)
    (hd : 128 ≤ d.toNat ∧ d.toNat ≤ 191) :
    lossyHead a (b :: c :: d :: rest) =
      (Char.ofNat ((a.toNat - 240) * 262144 + (b.toNat - 128) * 4096 + (c.toNat - 128) * 64 +
        (d.toNat - 128)), 3) := by
  have h128 : ¬ a < 128 := by
    simp only [UInt8.lt_iff_toNat_lt, UInt8.reduceToNat]
    omega
  have htwo : ¬ (194 ≤ a && a ≤ 223) = true := by
    simp only [UInt8.le_iff_toNat_le, UInt8.reduceToNat, Bool.and_eq_true, decide_eq_true_eq]
    omega
  have hthree : ¬ (224 ≤ a && a ≤ 239) = true := by
    simp only [UInt8.le_iff_toNat_le, UInt8.reduceToNat, Bool.and_eq_true, decide_eq_true_eq]
    omega
  have hlead : (240 ≤ a && a ≤ 244) = true := by simp [UInt8.le_iff_toNat_le, ha]
  have hrange : ((secondRange a).1 ≤ b && b ≤ (secondRange a).2) = true := by simp [hb]
  unfold lossyHead
  dsimp only
  rw [if_neg h128, if_neg htwo, if_neg hthree, if_pos hlead, List.headD_cons, hrange,
    List.drop_succ_cons, List.drop_zero, List.headD_cons, isCont_iff.mpr hc, List.drop_succ_cons,
    List.drop_succ_cons, List.drop_zero, List.headD_cons, isCont_iff.mpr hd]
  rfl

/-- The second byte of a character of three or four bytes. -/
theorem secondRange_iff :
    (secondRange a).1 ≤ b ∧ b ≤ (secondRange a).2 ↔
      (if a.toNat = 224 then 160 else if a.toNat = 240 then 144 else 128) ≤ b.toNat ∧
        b.toNat ≤ (if a.toNat = 237 then 159 else if a.toNat = 244 then 143 else 191) := by
  unfold secondRange
  simp only [← UInt8.toNat_inj, UInt8.le_iff_toNat_le, UInt8.reduceToNat]
  split_ifs <;> simp only [UInt8.reduceToNat] <;> omega

end Head

/-- The first character of a text is read from its encoding. -/
theorem lossyHead_utf8EncodeChar (c : Char) (rest : Bytes) :
    ∃ b bs, String.utf8EncodeChar c = b :: bs ∧ lossyHead b (bs ++ rest) = (c, bs.length) := by
  have hval : c.val.toNat < 0xD800 ∨ 0xDFFF < c.val.toNat ∧ c.val.toNat < 0x110000 := c.valid
  have hchar : Char.ofNat c.val.toNat = c := Char.ofNat_toNat c
  unfold String.utf8EncodeChar
  dsimp only
  generalize c.val.toNat = v at hval hchar
  have hbyte : ∀ n < 256, (UInt8.ofNat n).toNat = n := fun n hn => UInt8.toNat_ofNat_of_lt' hn
  split_ifs with h1 h2 h3
  · refine ⟨_, _, rfl, ?_⟩
    have hb := hbyte v (by omega)
    have hlt : UInt8.ofNat v < 128 := by
      rw [UInt8.lt_iff_toNat_lt, hb]
      exact Nat.lt_of_le_of_lt h1 (by decide)
    unfold lossyHead
    dsimp only
    rw [if_pos hlt, hb, hchar]
    rfl
  · refine ⟨_, _, rfl, ?_⟩
    have ha := hbyte (v / 64 % 0x20 + 0xc0) (by omega)
    have hb := hbyte (v % 0x40 + 0x80) (by omega)
    rw [List.singleton_append, lossyHead_two (by omega) (by omega), ha, hb]
    have hsum : (v / 64 % 0x20 + 0xc0 - 192) * 64 + (v % 0x40 + 0x80 - 128) = v := by omega
    rw [hsum, hchar]
    rfl
  · refine ⟨_, _, rfl, ?_⟩
    have ha := hbyte (v / 4096 % 0x10 + 0xe0) (by omega)
    have hb := hbyte (v / 64 % 0x40 + 0x80) (by omega)
    have hc := hbyte (v % 0x40 + 0x80) (by omega)
    have hsecond : (secondRange (UInt8.ofNat (v / 4096 % 0x10 + 0xe0))).1 ≤
          UInt8.ofNat (v / 64 % 0x40 + 0x80) ∧
        UInt8.ofNat (v / 64 % 0x40 + 0x80) ≤
          (secondRange (UInt8.ofNat (v / 4096 % 0x10 + 0xe0))).2 := by
      rw [secondRange_iff, ha, hb]
      split_ifs <;> omega
    rw [List.cons_append, List.singleton_append,
      lossyHead_three (by omega) hsecond (by omega), ha, hb, hc]
    have hsum : (v / 4096 % 0x10 + 0xe0 - 224) * 4096 + (v / 64 % 0x40 + 0x80 - 128) * 64 +
        (v % 0x40 + 0x80 - 128) = v := by omega
    rw [hsum, hchar]
    rfl
  · refine ⟨_, _, rfl, ?_⟩
    have ha := hbyte (v / 262144 % 0x08 + 0xf0) (by omega)
    have hb := hbyte (v / 4096 % 0x40 + 0x80) (by omega)
    have hc := hbyte (v / 64 % 0x40 + 0x80) (by omega)
    have hd := hbyte (v % 0x40 + 0x80) (by omega)
    have hsecond : (secondRange (UInt8.ofNat (v / 262144 % 0x08 + 0xf0))).1 ≤
          UInt8.ofNat (v / 4096 % 0x40 + 0x80) ∧
        UInt8.ofNat (v / 4096 % 0x40 + 0x80) ≤
          (secondRange (UInt8.ofNat (v / 262144 % 0x08 + 0xf0))).2 := by
      rw [secondRange_iff, ha, hb]
      split_ifs <;> omega
    rw [List.cons_append, List.cons_append, List.singleton_append,
      lossyHead_four (by omega) hsecond (by omega) (by omega), ha, hb, hc, hd]
    have hsum : (v / 262144 % 0x08 + 0xf0 - 240) * 262144 + (v / 4096 % 0x40 + 0x80 - 128) * 4096 +
        (v / 64 % 0x40 + 0x80 - 128) * 64 + (v % 0x40 + 0x80 - 128) = v := by omega
    rw [hsum, hchar]
    rfl

/-! ## A whole text -/

/-- A text is encoded character by character. -/
theorem utf8_eq (s : String) : utf8 s = s.toList.flatMap String.utf8EncodeChar := by
  rw [utf8, String.toUTF8_eq_toByteArray, ← String.utf8Encode_toList, List.utf8Encode,
    List.data_toByteArray]

/-- The characters are read one after the other, given as many rounds as there are bytes. -/
theorem lossyChars_flatMap (l : List Char) (n : ℕ)
    (h : (l.flatMap String.utf8EncodeChar).length ≤ n) :
    lossyChars n (l.flatMap String.utf8EncodeChar) = l := by
  induction l generalizing n with
  | nil => cases n <;> rfl
  | cons c l ih =>
    obtain ⟨b, bs, henc, hhead⟩ := lossyHead_utf8EncodeChar c (l.flatMap String.utf8EncodeChar)
    rw [List.flatMap_cons, henc] at h ⊢
    cases n with
    | zero => simp at h
    | succ n =>
      rw [List.length_append, List.length_cons] at h
      rw [List.cons_append, lossyChars, hhead, List.drop_left, ih n (by omega)]

/-- An encoded text is read as it was. -/
theorem fromUtf8Lossy_utf8 (s : String) : fromUtf8Lossy (utf8 s) = s := by
  unfold fromUtf8Lossy
  rw [utf8_eq, lossyChars_flatMap _ _ le_rfl, String.ofList_toList]

/-! ## ASCII -/

/-- Bytes below 128 are characters of their own. -/
theorem lossyChars_ascii {t : Bytes} (h : ∀ b ∈ t, b < 128) {n : ℕ} (hn : t.length ≤ n) :
    lossyChars n t = t.map fun b => Char.ofNat b.toNat := by
  induction t generalizing n with
  | nil => cases n <;> rfl
  | cons b t ih =>
    obtain ⟨n, rfl⟩ : ∃ k, n = k + 1 := ⟨n - 1, by rw [List.length_cons] at hn; omega⟩
    have hhead : lossyHead b t = (Char.ofNat b.toNat, 0) := by
      unfold lossyHead
      dsimp only
      rw [if_pos (h b List.mem_cons_self)]
    rw [lossyChars, hhead, List.drop_zero, List.map_cons]
    rw [ih (fun c hc => h c (List.mem_cons_of_mem b hc)) (by rw [List.length_cons] at hn; omega)]

theorem utf8EncodeChar_ascii {b : UInt8} (h : b < 128) :
    String.utf8EncodeChar (Char.ofNat b.toNat) = [b] := by
  have hlt : b.toNat < 128 := h
  have hval : (Char.ofNat b.toNat).val.toNat = b.toNat := by
    rw [Char.ofNat, dif_pos (Or.inl (by omega))]
    rfl
  unfold String.utf8EncodeChar
  dsimp only
  rw [hval, if_pos (by omega), UInt8.ofNat_toNat]

/-- Bytes of ASCII are read as a text whose encoding they are. -/
theorem utf8_fromUtf8Lossy {t : Bytes} (h : ∀ b ∈ t, b < 128) : utf8 (fromUtf8Lossy t) = t := by
  rw [utf8_eq, fromUtf8Lossy, String.toList_ofList, lossyChars_ascii h le_rfl, List.flatMap_map]
  induction t with
  | nil => rfl
  | cons b t ih =>
    rw [List.flatMap_cons, utf8EncodeChar_ascii (h b List.mem_cons_self),
      ih fun c hc => h c (List.mem_cons_of_mem b hc)]
    rfl

end BurnerRedis
