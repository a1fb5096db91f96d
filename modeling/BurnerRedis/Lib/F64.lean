import Mathlib

/-!
# Numbers of 64 bits with a floating point

A number is not a number, an infinity, or a rational; the sign of a zero is left out. A product is
the exact one rounded to the nearest number of 53 significant bits, to the even one of two. A cast
to 64 bits, with a sign or without, cuts off the fraction and saturates. Rounding keeps the order, so
what is rounded to one number lies together (`ordConnected_ofRat`).
-/

inductive F64 where
  | nan
  | infinite (negative : Bool)
  | finite (q : ℚ)
deriving DecidableEq

namespace F64

/-- The whole number nearest to `x`, the even one of two. -/
def roundEven (x : ℚ) : ℤ :=
  let n := ⌊x⌋
  if x - n < 1 / 2 then n
  else if 1 / 2 < x - n then n + 1
  else if n % 2 = 0 then n else n + 1

/-- The number a rational is rounded to. The last of its 53 bits is worth `2 ^ e`, and no bit is
worth less than `2 ^ -1074`. -/
def ofRat (q : ℚ) : F64 :=
  let e := max (Int.log 2 |q| - 52) (-1074)
  let r := roundEven (q / 2 ^ e) * (2 : ℚ) ^ e
  if 2 ^ 1024 ≤ |r| then infinite (decide (q < 0)) else finite r

/-- `x * c` for a whole number `c` above zero. -/
def mulNat (c : ℕ) : F64 → F64
  | nan => nan
  | infinite negative => infinite negative
  | finite q => ofRat (q * c)

/-- `x.ceil()` -/
def ceil : F64 → F64
  | nan => nan
  | infinite negative => infinite negative
  | finite q => finite ⌈q⌉

/-- `x as u64` -/
def toU64 : F64 → ℕ
  | nan => 0
  | infinite negative => if negative then 0 else 2 ^ 64 - 1
  | finite q => min ⌊q⌋.toNat (2 ^ 64 - 1)

/-- `x as i64` -/
def toI64 : F64 → ℤ
  | nan => 0
  | infinite negative => if negative then -2 ^ 63 else 2 ^ 63 - 1
  | finite q => max (-2 ^ 63) (min (if q < 0 then ⌈q⌉ else ⌊q⌋) (2 ^ 63 - 1))

/-- `x < 0.0` -/
def isNegative : F64 → Bool
  | nan => false
  | infinite negative => negative
  | finite q => decide (q < 0)

/-- `x == 0.0` -/
def isZero : F64 → Bool
  | finite q => decide (q = 0)
  | _ => false

theorem toU64_ceil_of_le {p : ℚ} {n : ℕ} (h : p ≤ (n : ℕ)) (hn : n ≤ 2 ^ 64 - 1) :
    (⌈p⌉.toNat : ℕ) = (ceil (finite p)).toU64 := by
  have hceil : ⌈p⌉ ≤ (n : ℤ) := Int.ceil_le.mpr (by exact_mod_cast h)
  show _ = min ⌊((⌈p⌉ : ℤ) : ℚ)⌋.toNat (2 ^ 64 - 1)
  rw [Int.floor_intCast]
  omega

/-- Rounding up to 64 bits takes nothing away from a number that fits. -/
theorem le_toU64_ceil {p : ℚ} (h : p ≤ 2 ^ 64 - 1) : p ≤ (ceil (finite p)).toU64 := by
  have hn : p ≤ ((2 ^ 64 - 1 : ℕ) : ℚ) := by norm_num at h ⊢; exact h
  rw [← toU64_ceil_of_le hn (le_refl _)]
  calc p ≤ (⌈p⌉ : ℚ) := Int.le_ceil p
    _ ≤ ((⌈p⌉.toNat : ℤ) : ℚ) := by exact_mod_cast Int.self_le_toNat _
    _ = _ := by push_cast; rfl

/-! ## Rounding keeps the order -/

theorem floor_le_roundEven (x : ℚ) : ⌊x⌋ ≤ roundEven x := by
  unfold roundEven
  dsimp only
  split_ifs <;> omega

theorem roundEven_le_floor_add_one (x : ℚ) : roundEven x ≤ ⌊x⌋ + 1 := by
  unfold roundEven
  dsimp only
  split_ifs <;> omega

@[simp] theorem roundEven_intCast (n : ℤ) : roundEven n = n := by
  unfold roundEven
  dsimp only
  rw [Int.floor_intCast, sub_self, if_pos (by norm_num)]

theorem roundEven_mono {x y : ℚ} (h : x ≤ y) : roundEven x ≤ roundEven y := by
  rcases (Int.floor_le_floor h).lt_or_eq with hlt | heq
  · calc roundEven x ≤ ⌊x⌋ + 1 := roundEven_le_floor_add_one x
      _ ≤ ⌊y⌋ := hlt
      _ ≤ roundEven y := floor_le_roundEven y
  · -- the fractions decide
    unfold roundEven
    dsimp only
    rw [← heq]
    have hfrac : x - ⌊x⌋ ≤ y - ⌊x⌋ := sub_le_sub_right h _
    split_ifs <;> first | omega | linarith

/-- The place of the last bit of a rounded number. -/
def lastBit (q : ℚ) : ℤ := max (Int.log 2 |q| - 52) (-1074)

/-- A number of 53 bits next to `q`, however large. -/
def rounded (q : ℚ) : ℚ := roundEven (q / 2 ^ lastBit q) * 2 ^ lastBit q

theorem ofRat_eq (q : ℚ) : ofRat q =
    if 2 ^ 1024 ≤ |rounded q| then infinite (decide (q < 0)) else finite (rounded q) := rfl

theorem ofRat_eq_finite_iff {q r : ℚ} : ofRat q = finite r ↔ rounded q = r ∧ |r| < 2 ^ 1024 := by
  rw [ofRat_eq]
  split_ifs with h
  · constructor
    · intro heq
      cases heq
    · rintro ⟨rfl, hlt⟩
      exact absurd h (not_le.mpr hlt)
  · rw [finite.injEq]
    exact ⟨fun heq => ⟨heq, heq ▸ not_le.mp h⟩, And.left⟩

/-- A multiple of the last bit is not rounded. -/
theorem rounded_of_multiple {q : ℚ} {n : ℤ} (h : q = n * 2 ^ lastBit q) : rounded q = q := by
  have hpos : (0 : ℚ) < 2 ^ lastBit q := by positivity
  have hquot : q / 2 ^ lastBit q = n := by
    rw [div_eq_iff hpos.ne']
    exact h
  unfold rounded
  rw [hquot, roundEven_intCast]
  exact h.symm

theorem lastBit_mono {a b : ℚ} (ha : 0 < a) (h : a ≤ b) : lastBit a ≤ lastBit b := by
  unfold lastBit
  rw [abs_of_pos ha, abs_of_pos (ha.trans_le h)]
  have hlog := Int.log_mono_right (b := 2) ha h
  omega

@[simp] theorem rounded_zero : rounded 0 = 0 := by
  unfold rounded
  rw [zero_div, ← Int.cast_zero (R := ℚ), roundEven_intCast, Int.cast_zero, zero_mul]

theorem rounded_nonneg {q : ℚ} (h : 0 ≤ q) : 0 ≤ rounded q := by
  have hquot : ((0 : ℤ) : ℚ) ≤ q / 2 ^ lastBit q := by
    rw [Int.cast_zero]
    positivity
  have hround : 0 ≤ roundEven (q / 2 ^ lastBit q) := by
    rw [← roundEven_intCast 0]
    exact roundEven_mono hquot
  unfold rounded
  have : (0 : ℚ) ≤ roundEven (q / 2 ^ lastBit q) := by exact_mod_cast hround
  positivity

theorem two_zpow_add (e : ℤ) (k : ℕ) : (2 : ℚ) ^ (e + k) = ((2 ^ k : ℤ) : ℚ) * 2 ^ e := by
  rw [zpow_add₀ (by norm_num), mul_comm, zpow_natCast]
  push_cast
  rfl

/-- A number has at most 53 bits from its last one up. -/
theorem rounded_le {a : ℚ} (h : 0 < a) : rounded a ≤ 2 ^ (lastBit a + (53 : ℕ)) := by
  have hlog : Int.log 2 a + 1 ≤ lastBit a + (53 : ℕ) := by
    unfold lastBit
    rw [abs_of_pos h]
    omega
  have hle : a ≤ 2 ^ (lastBit a + (53 : ℕ)) := calc
    a ≤ (2 : ℕ) ^ (Int.log 2 a + 1) := (Int.lt_zpow_succ_log_self (by norm_num) a).le
    _ ≤ 2 ^ (lastBit a + (53 : ℕ)) := by
      push_cast
      exact zpow_le_zpow_right₀ (by norm_num) hlog
  rw [two_zpow_add] at hle ⊢
  have hround : (roundEven (a / 2 ^ lastBit a) : ℚ) ≤ ((2 ^ 53 : ℤ) : ℚ) := by
    exact_mod_cast (roundEven_mono (div_le_of_le_mul₀ (by positivity) (by positivity) hle)).trans_eq
      (roundEven_intCast _)
  unfold rounded
  gcongr

/-- A number above the smallest ones has 53 bits. -/
theorem le_rounded {b : ℚ} (h : 0 < b) (hbit : -1074 < lastBit b) :
    2 ^ (lastBit b + (52 : ℕ)) ≤ rounded b := by
  have hlog : lastBit b + (52 : ℕ) = Int.log 2 b := by
    unfold lastBit at *
    rw [abs_of_pos h] at *
    omega
  have hle : 2 ^ (lastBit b + (52 : ℕ)) ≤ b := by
    rw [hlog]
    exact_mod_cast Int.zpow_log_le_self (b := 2) (by norm_num) h
  rw [two_zpow_add] at hle ⊢
  have hround : ((2 ^ 52 : ℤ) : ℚ) ≤ roundEven (b / 2 ^ lastBit b) := by
    exact_mod_cast (roundEven_intCast _).symm.trans_le
      (roundEven_mono ((le_div_iff₀ (by positivity)).mpr hle))
  unfold rounded
  gcongr

theorem rounded_mono_of_nonneg {a b : ℚ} (ha : 0 ≤ a) (h : a ≤ b) : rounded a ≤ rounded b := by
  rcases ha.eq_or_lt with rfl | hapos
  · rw [rounded_zero]
    exact rounded_nonneg h
  · rcases (lastBit_mono hapos h).eq_or_lt with heq | hlt
    · have hround : (roundEven (a / 2 ^ lastBit b) : ℚ) ≤ roundEven (b / 2 ^ lastBit b) := by
        exact_mod_cast roundEven_mono (by gcongr)
      unfold rounded
      rw [heq]
      gcongr
    · -- a power of two lies between the two
      have hbit : -1074 < lastBit b := lt_of_le_of_lt (le_max_right _ _) hlt
      calc rounded a ≤ 2 ^ (lastBit a + (53 : ℕ)) := rounded_le hapos
        _ ≤ 2 ^ (lastBit b + (52 : ℕ)) := zpow_le_zpow_right₀ (by norm_num) (by omega)
        _ ≤ rounded b := le_rounded (hapos.trans_le h) hbit

theorem roundEven_neg (x : ℚ) : roundEven (-x) = -roundEven x := by
  by_cases hx : x = ⌊x⌋
  · rw [hx, ← Int.cast_neg, roundEven_intCast, roundEven_intCast]
  · -- the two fractions add up to one
    have hlt : (⌊x⌋ : ℚ) < x := lt_of_le_of_ne (Int.floor_le x) (Ne.symm hx)
    have hlt' : x < ⌊x⌋ + 1 := Int.lt_floor_add_one x
    have hfloor : ⌊-x⌋ = -⌊x⌋ - 1 := by
      rw [Int.floor_eq_iff]
      push_cast
      constructor <;> linarith
    unfold roundEven
    dsimp only
    rw [hfloor]
    push_cast
    split_ifs <;> first | omega | linarith

theorem rounded_neg (q : ℚ) : rounded (-q) = -rounded q := by
  unfold rounded lastBit
  rw [abs_neg, neg_div, roundEven_neg, Int.cast_neg, neg_mul]

theorem rounded_mono : Monotone rounded := by
  intro a b h
  rcases le_total 0 a with ha | ha
  · exact rounded_mono_of_nonneg ha h
  · rcases le_total 0 b with hb | hb
    · have hneg : 0 ≤ rounded (-a) := rounded_nonneg (neg_nonneg.mpr ha)
      rw [rounded_neg] at hneg
      exact (neg_nonneg.mp hneg).trans (rounded_nonneg hb)
    · have hneg := rounded_mono_of_nonneg (neg_nonneg.mpr hb) (neg_le_neg h)
      rw [rounded_neg, rounded_neg] at hneg
      exact neg_le_neg_iff.mp hneg

theorem ofRat_neg_eq_finite_iff {q r : ℚ} : ofRat (-q) = finite (-r) ↔ ofRat q = finite r := by
  rw [ofRat_eq_finite_iff, ofRat_eq_finite_iff, rounded_neg, neg_inj, abs_neg]

/-- What is read as one number lies together. -/
theorem ordConnected_ofRat (q : ℚ) : Set.OrdConnected {x | ofRat x = finite q} := by
  refine ⟨fun a ha c hc b hb => ?_⟩
  obtain ⟨ha, hq⟩ := ofRat_eq_finite_iff.mp ha
  obtain ⟨hc, -⟩ := ofRat_eq_finite_iff.mp hc
  refine ofRat_eq_finite_iff.mpr ⟨le_antisymm ?_ ?_, hq⟩
  · exact (rounded_mono hb.2).trans_eq hc
  · exact ha.symm.trans_le (rounded_mono hb.1)

/-! ## Whole numbers -/

theorem rounded_two_pow {k : ℕ} (h : 52 ≤ k) : rounded (2 ^ k) = 2 ^ k := by
  have hlog : Int.log 2 ((2 : ℚ) ^ k) = k := by
    rw [← zpow_natCast]
    exact_mod_cast Int.log_zpow (R := ℚ) (b := 2) (by norm_num) k
  have hbit : lastBit ((2 : ℚ) ^ k) = (k - 52 : ℕ) := by
    unfold lastBit
    rw [abs_of_pos (by positivity), hlog]
    omega
  apply rounded_of_multiple (n := 2 ^ 52)
  rw [hbit, zpow_natCast, Int.cast_pow, Int.cast_ofNat, ← pow_add]
  congr 1
  omega

theorem lt_of_ofRat {x q : ℚ} (h : ofRat x = finite q) : x < 2 ^ 1024 := by
  obtain ⟨rfl, hlt⟩ := ofRat_eq_finite_iff.mp h
  by_contra hle
  have hround : 2 ^ 1024 ≤ rounded x := by
    rw [← rounded_two_pow (by norm_num : 52 ≤ 1024)]
    exact rounded_mono (not_lt.mp hle)
  exact absurd (hround.trans (le_abs_self _)) (not_le.mpr hlt)

theorem rounded_natCast {n : ℕ} (h : n ≤ 2 ^ 53) : rounded n = n := by
  rcases h.eq_or_lt with rfl | hlt
  · exact_mod_cast rounded_two_pow (by norm_num : 52 ≤ 53)
  · rcases Nat.eq_zero_or_pos n with rfl | hpos
    · exact rounded_zero
    · have hpos' : (0 : ℚ) < n := by exact_mod_cast hpos
      have hlog : Int.log 2 (n : ℚ) < 53 := by
        rw [Int.log_natCast]
        exact_mod_cast Nat.log_lt_of_lt_pow hpos.ne' hlt
      obtain ⟨k, hk⟩ : ∃ k : ℕ, lastBit (n : ℚ) = -k := by
        refine ⟨(-lastBit (n : ℚ)).toNat, ?_⟩
        unfold lastBit
        rw [abs_of_pos hpos']
        omega
      apply rounded_of_multiple (n := n * 2 ^ k)
      rw [hk, zpow_neg, zpow_natCast]
      push_cast
      rw [mul_assoc, mul_inv_cancel₀ (by positivity), mul_one]

end F64
