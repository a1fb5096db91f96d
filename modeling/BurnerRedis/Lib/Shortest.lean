import Mathlib

/-!
# The shortest decimal that is read as a number

A number is printed with the fewest digits that still are read as it: a multiple of the greatest
power of ten, the nearest one where two will do, the greater one of two equally near. What is read
as the number is a parameter. When it lies together, the number is printed as it is exactly when no
multiple of a greater power of ten is read as it (`search_eq_self_iff`).
-/

namespace Shortest

variable (reads : ℚ → Prop) [DecidablePred reads] (x : ℚ)

/-- The multiple of `u` that is printed for `x`, if one next to it is read as `x`. -/
def candidate (u : ℚ) : Option ℚ :=
  let lo := ⌊x / u⌋ * u
  let hi := ⌈x / u⌉ * u
  if reads lo ∧ (reads hi → x - lo < hi - x) then some lo
  else if reads hi then some hi
  else none

/-- What is printed for `x`, from the units `10 ^ low`, `10 ^ (low + 1)` and so on. -/
def search (low : ℤ) : ℕ → ℚ
  | 0 => x
  | j + 1 => (candidate reads x (10 ^ (low + j))).getD (search low j)

/-- A whole number of units. -/
def Multiple (u : ℚ) : Prop := ∃ m : ℤ, x = m * u

variable {reads x} {u : ℚ}

theorem Multiple.of_le {low : ℤ} {i j : ℕ} (h : Multiple x (10 ^ (low + j))) (hij : i ≤ j) :
    Multiple x (10 ^ (low + i)) := by
  obtain ⟨m, rfl⟩ := h
  refine ⟨m * 10 ^ (j - i), ?_⟩
  have hsum : low + j = low + i + ((j - i : ℕ) : ℤ) := by omega
  rw [hsum, zpow_add₀ (by norm_num), zpow_natCast]
  push_cast
  ring

theorem candidate_multiple {c : ℚ} (h : candidate reads x u = some c) :
    Multiple c u ∧ reads c := by
  unfold candidate at h
  dsimp only at h
  split_ifs at h with hlo hhi
  · cases h
    exact ⟨⟨_, rfl⟩, hlo.1⟩
  · cases h
    exact ⟨⟨_, rfl⟩, hhi⟩

/-- A multiple of the unit is printed as it is. -/
theorem candidate_self (hu : u ≠ 0) (hx : reads x) (h : Multiple x u) :
    candidate reads x u = some x := by
  obtain ⟨m, rfl⟩ := h
  have hquot : (m : ℚ) * u / u = m := mul_div_cancel_right₀ _ hu
  unfold candidate
  rw [hquot, Int.floor_intCast, Int.ceil_intCast]
  dsimp only
  split_ifs <;> rfl

/-- Where no multiple is printed, none is read as the number. -/
theorem candidate_eq_none_iff (hu : 0 < u) (hx : reads x) (hr : Set.OrdConnected {y | reads y}) :
    candidate reads x u = none ↔ ∀ y, Multiple y u → ¬ reads y := by
  constructor
  · rintro h y ⟨m, rfl⟩ hm
    have hlo : ¬ reads (⌊x / u⌋ * u) := by
      intro hlo
      unfold candidate at h
      dsimp only at h
      split_ifs at h with h₁ h₂
      exact h₁ ⟨hlo, fun hhi => absurd hhi h₂⟩
    have hhi : ¬ reads (⌈x / u⌉ * u) := by
      intro hhi
      unfold candidate at h
      dsimp only at h
      split_ifs at h
    rcases le_total ((m : ℚ) * u) x with hle | hle
    · apply hlo
      have hm' : m ≤ ⌊x / u⌋ := Int.le_floor.mpr ((le_div_iff₀ hu).mpr hle)
      refine hr.out hm hx ⟨?_, (le_div_iff₀ hu).mp (Int.floor_le _)⟩
      gcongr
    · apply hhi
      have hm' : ⌈x / u⌉ ≤ m := Int.ceil_le.mpr ((div_le_iff₀ hu).mpr hle)
      refine hr.out hx hm ⟨(div_le_iff₀ hu).mp (Int.le_ceil _), ?_⟩
      gcongr
  · intro h
    by_contra hne
    obtain ⟨c, hc⟩ := Option.ne_none_iff_exists'.mp hne
    exact h c (candidate_multiple hc).1 (candidate_multiple hc).2

variable {low : ℤ}

/-- What is printed is read as the number. -/
theorem reads_search (reads : ℚ → Prop) [DecidablePred reads] (hx : reads x) (j : ℕ) :
    reads (search reads x low j) := by
  induction j with
  | zero => exact hx
  | succ j ih =>
    rw [search]
    cases hc : candidate reads x (10 ^ (low + j)) with
    | none => exact ih
    | some c => exact (candidate_multiple hc).2

theorem search_nonneg (hx : 0 ≤ x) (j : ℕ) : 0 ≤ search reads x low j := by
  induction j with
  | zero => exact hx
  | succ j ih =>
    rw [search]
    cases hc : candidate reads x (10 ^ (low + j)) with
    | none => exact ih
    | some c =>
      have hu : (0 : ℚ) < 10 ^ (low + j) := by positivity
      have hfloor : (0 : ℚ) ≤ ⌊x / 10 ^ (low + j)⌋ := by
        exact_mod_cast Int.floor_nonneg.mpr (div_nonneg hx hu.le)
      have hceil : (0 : ℚ) ≤ ⌈x / 10 ^ (low + j)⌉ := by
        exact_mod_cast Int.ceil_nonneg (div_nonneg hx hu.le)
      unfold candidate at hc
      dsimp only at hc
      split_ifs at hc
      · cases hc
        exact mul_nonneg hfloor hu.le
      · cases hc
        exact mul_nonneg hceil hu.le

/-- What is printed for a whole number of units is one. -/
theorem search_multiple (hx : reads x) {i j : ℕ} (hij : i < j)
    (h : Multiple x (10 ^ (low + i))) : Multiple (search reads x low j) (10 ^ (low + i)) := by
  induction j with
  | zero => omega
  | succ j ih =>
    rw [search]
    cases hc : candidate reads x (10 ^ (low + j)) with
    | some c => exact (candidate_multiple hc).1.of_le (by omega)
    | none =>
      rcases (Nat.lt_succ_iff.mp hij).eq_or_lt with rfl | hlt
      · rw [candidate_self (by positivity) hx h] at hc
        cases hc
      · exact ih hlt

/-- The number itself is printed exactly when it is a multiple of every unit of which some multiple
is read as it. -/
theorem search_eq_self_iff (hx : reads x) (hr : Set.OrdConnected {y | reads y}) (j : ℕ) :
    search reads x low j = x ↔
      ∀ i < j, ∀ y, Multiple y (10 ^ (low + i)) → reads y → Multiple x (10 ^ (low + i)) := by
  induction j with
  | zero => exact iff_of_true rfl (by omega)
  | succ j ih =>
    rw [search]
    cases hc : candidate reads x (10 ^ (low + j)) with
    | none =>
      have hnone := (candidate_eq_none_iff (by positivity) hx hr).mp hc
      rw [Option.getD_none, ih]
      constructor
      · intro h i hi y hy hry
        rcases (Nat.lt_succ_iff.mp hi).eq_or_lt with rfl | hlt
        · exact absurd hry (hnone y hy)
        · exact h i hlt y hy hry
      · intro h i hi
        exact h i (by omega)
    | some c =>
      obtain ⟨hmult, hreads⟩ := candidate_multiple hc
      rw [Option.getD_some]
      constructor
      · rintro rfl i hi y - -
        exact hmult.of_le (by omega)
      · intro h
        have hself := candidate_self (by positivity) hx (h j (by omega) c hmult hreads)
        exact Option.some.inj (hc.symm.trans hself)

end Shortest
