import Mathlib

/-!
# The elements at chosen positions

`selectIdx P l` are the elements of a list at the positions where `P` holds, in their order. An
interval of positions is what dropping and taking leaves; erasing positions one after the other,
the last first, leaves the elements at the others.
-/

namespace List

variable {α : Type*} {P Q : ℕ → Prop} [DecidablePred P] [DecidablePred Q]

/-- The elements at the positions where the predicate holds. -/
def selectIdx (P : ℕ → Prop) [DecidablePred P] (l : List α) : List α :=
  (l.zipIdx.filter fun x => decide (P x.2)).map Prod.fst

@[simp] theorem selectIdx_nil : selectIdx P ([] : List α) = [] := rfl

theorem selectIdx_cons (a : α) (l : List α) :
    selectIdx P (a :: l) =
      if P 0 then a :: selectIdx (fun p => P (p + 1)) l else selectIdx (fun p => P (p + 1)) l := by
  have hrest : (((l.zipIdx 1).filter fun x => decide (P x.2)).map Prod.fst) =
      selectIdx (fun p => P (p + 1)) l := by
    rw [List.zipIdx_succ, List.filter_map, List.map_map]
    rfl
  rw [selectIdx, List.zipIdx_cons, List.filter_cons]
  by_cases h : P 0
  · rw [if_pos (decide_eq_true h), if_pos h, List.map_cons, ← hrest]
  · rw [if_neg (by simpa using h), if_neg h, ← hrest]

theorem selectIdx_congr {l : List α} (h : ∀ p < l.length, P p ↔ Q p) :
    selectIdx P l = selectIdx Q l := by
  unfold selectIdx
  congr 1
  apply List.filter_congr
  intro x hx
  have hlt := List.snd_lt_of_mem_zipIdx hx
  rw [Nat.add_zero] at hlt
  exact decide_eq_decide.mpr (h x.2 hlt)

theorem selectIdx_all {l : List α} (h : ∀ p < l.length, P p) : selectIdx P l = l := by
  induction l generalizing P with
  | nil => rfl
  | cons a l ih =>
    rw [selectIdx_cons, if_pos (h 0 (Nat.zero_lt_succ _)), ih]
    intro p hp
    exact h (p + 1) (Nat.succ_lt_succ hp)

theorem selectIdx_none {l : List α} (h : ∀ p < l.length, ¬ P p) : selectIdx P l = [] := by
  induction l generalizing P with
  | nil => rfl
  | cons a l ih =>
    rw [selectIdx_cons, if_neg (h 0 (Nat.zero_lt_succ _)), ih]
    intro p hp
    exact h (p + 1) (Nat.succ_lt_succ hp)

theorem selectIdx_append (l₁ l₂ : List α) :
    selectIdx P (l₁ ++ l₂) = selectIdx P l₁ ++ selectIdx (fun p => P (l₁.length + p)) l₂ := by
  induction l₁ generalizing P with
  | nil => simp
  | cons a l₁ ih =>
    have hshift : selectIdx (fun p => P (l₁.length + p + 1)) l₂ =
        selectIdx (fun p => P ((a :: l₁).length + p)) l₂ := by
      apply selectIdx_congr
      intro p _
      rw [List.length_cons, Nat.add_right_comm]
    rw [List.cons_append, selectIdx_cons, selectIdx_cons, ih, hshift]
    split_ifs <;> rfl

/-- The positions from one up to another. -/
theorem selectIdx_interval (l : List α) (s t : ℕ) :
    selectIdx (fun p => s ≤ p ∧ p < t) l = (l.drop s).take (t - s) := by
  induction l generalizing s t with
  | nil => simp
  | cons a l ih =>
    rw [selectIdx_cons]
    cases t with
    | zero =>
      rw [if_neg (by omega), selectIdx_none (by omega), Nat.zero_sub, List.take_zero]
    | succ t =>
      cases s with
      | zero =>
        have hrest : selectIdx (fun p => 0 ≤ p + 1 ∧ p + 1 < t + 1) l = l.take t := by
          rw [← List.drop_zero (l := l), ← Nat.sub_zero t, ← ih, List.drop_zero, Nat.sub_zero]
          apply selectIdx_congr
          omega
        rw [if_pos (by omega), hrest, List.drop_zero, Nat.sub_zero, List.take_succ_cons]
      | succ s =>
        rw [if_neg (by omega), List.drop_succ_cons, Nat.succ_sub_succ, ← ih]
        apply selectIdx_congr
        omega

/-- The elements other than one. -/
theorem filter_ne_eq_selectIdx [DecidableEq α] (v : α) (l : List α) :
    l.filter (fun a => decide (a ≠ v)) = selectIdx (fun p => l[p]? ≠ some v) l := by
  induction l with
  | nil => rfl
  | cons a l ih =>
    have hrest : selectIdx (fun p => (a :: l)[p + 1]? ≠ some v) l =
        selectIdx (fun p => l[p]? ≠ some v) l := by
      apply selectIdx_congr
      intro p _
      rw [List.getElem?_cons_succ]
    rw [selectIdx_cons, List.filter_cons, ih, hrest, List.getElem?_cons_zero]
    by_cases h : a = v
    · rw [if_neg (by simpa using h), if_neg (by simpa using h)]
    · rw [if_pos (by simpa using h), if_pos (by simpa using h)]

/-- Reading from the other end. -/
theorem reverse_selectIdx (l : List α) :
    (selectIdx P l).reverse = selectIdx (fun p => P (l.length - 1 - p)) l.reverse := by
  induction l generalizing P with
  | nil => rfl
  | cons a l ih =>
    have hrest : selectIdx (fun p => P (l.length - 1 - p + 1)) l.reverse =
        selectIdx (fun p => P ((a :: l).length - 1 - p)) l.reverse := by
      apply selectIdx_congr
      intro p hp
      rw [List.length_reverse] at hp
      rw [List.length_cons, show l.length + 1 - 1 - p = l.length - 1 - p + 1 by omega]
    have hlast : (a :: l).length - 1 - (l.reverse.length + 0) = 0 := by
      rw [List.length_cons, List.length_reverse]
      omega
    rw [selectIdx_cons, List.reverse_cons, selectIdx_append, selectIdx_cons, hlast, selectIdx_nil,
      ← hrest, ← ih (P := fun p => P (p + 1))]
    split_ifs with h
    · rw [List.reverse_cons]
    · rw [List.append_nil]

/-- Erasing positions one after the other, the last first, leaves the elements at the others. -/
theorem foldl_eraseIdx {is : List ℕ} (h : is.Pairwise (· > ·)) (l : List α) :
    is.foldl List.eraseIdx l = selectIdx (· ∉ is) l := by
  induction is generalizing l with
  | nil => exact (selectIdx_all fun _ _ => List.not_mem_nil).symm
  | cons i is ih =>
    obtain ⟨hi, his⟩ := List.pairwise_cons.mp h
    have hnot : ∀ p, i ≤ p → p ∉ is := fun p hp hmem => absurd (hi p hmem) (by omega)
    rw [List.foldl_cons, ih his]
    by_cases hlen : i < l.length
    · -- the positions below `i` are read alike, and above it everything is kept
      have hsplit : l = l.take i ++ l[i] :: l.drop (i + 1) := by simp
      have htake : (l.take i).length = i := List.length_take_of_le hlen.le
      have hlow : selectIdx (· ∉ is) (l.take i) = selectIdx (· ∉ i :: is) (l.take i) := by
        apply selectIdx_congr
        intro p hp
        rw [htake] at hp
        simp only [List.mem_cons, not_or]
        exact ⟨fun hmem => ⟨by omega, hmem⟩, fun hmem => hmem.2⟩
      have hhigh : selectIdx (fun p => i + p ∉ is) (l.drop (i + 1)) = l.drop (i + 1) :=
        selectIdx_all fun p _ => hnot _ (by omega)
      have hhigh' : selectIdx (fun p => i + (p + 1) ∉ i :: is) (l.drop (i + 1)) =
          l.drop (i + 1) := by
        apply selectIdx_all
        intro p _
        simp only [List.mem_cons, not_or]
        exact ⟨by omega, hnot _ (by omega)⟩
      conv_rhs => rw [hsplit]
      rw [List.eraseIdx_eq_take_drop_succ, selectIdx_append, selectIdx_append, selectIdx_cons,
        htake, hlow, hhigh, hhigh', if_neg (by simp)]
    · rw [List.eraseIdx_of_length_le (by omega)]
      apply selectIdx_congr
      intro p hp
      simp only [List.mem_cons, not_or]
      exact ⟨fun hmem => ⟨by omega, hmem⟩, fun hmem => hmem.2⟩

end List
