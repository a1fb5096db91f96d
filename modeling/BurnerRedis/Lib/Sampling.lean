import Mathlib

/-!
# Sweeps that look at the first elements only

A sweep inspects the first `k` elements of a list and takes out those of them that are dead.
Repeated, it clears the list of dead elements exactly when none of them stands behind `k` others
that are alive: what is alive is never taken out, so it holds its place among the first `k`.
-/

namespace Sampling

variable {α : Type} (k : ℕ) (dead : α → Bool)

/-- One sweep. -/
def sweep (l : List α) : List α := ((l.take k).filter fun x => !dead x) ++ l.drop k

/-- The number of elements that are alive. -/
def alive (l : List α) : ℕ := l.countP fun x => !dead x

/-- No dead element stands behind `k` that are alive. -/
def Reaches (l : List α) : Prop :=
  ∀ l₁ x l₂, l = l₁ ++ x :: l₂ → dead x = true → alive dead l₁ < k

/-- No dead element is left. -/
def Clean (l : List α) : Prop := ∀ x ∈ l, dead x = false

variable {k dead} {l : List α}

theorem alive_append (l l' : List α) : alive dead (l ++ l') = alive dead l + alive dead l' :=
  List.countP_append

theorem alive_filter (l : List α) : alive dead (l.filter fun x => !dead x) = alive dead l := by
  unfold alive
  rw [List.countP_filter]
  congr 1
  funext x
  rw [Bool.and_self]

theorem alive_le_length (l : List α) : alive dead l ≤ l.length := List.countP_le_length

/-- What is alive stays, in its order. -/
theorem filter_sweep (l : List α) :
    (sweep k dead l).filter (fun x => !dead x) = l.filter fun x => !dead x := by
  unfold sweep
  rw [List.filter_append, List.filter_filter, ← List.take_append_drop k l, List.filter_append]
  simp only [Bool.and_self, List.take_append_drop]

/-- A clean list is in reach. -/
theorem Clean.reaches (h : Clean dead l) : Reaches k dead l := by
  rintro l₁ x l₂ rfl hx
  have hlive := h x (List.mem_append_right l₁ List.mem_cons_self)
  rw [hx] at hlive
  cases hlive

/-- An element behind `k` others that are alive is not inspected. -/
theorem sweep_behind {l₁ : List α} (h : k ≤ alive dead l₁) (x : α) (l₂ : List α) :
    ∃ l₁', sweep k dead (l₁ ++ x :: l₂) = l₁' ++ x :: l₂ ∧ alive dead l₁' = alive dead l₁ := by
  have hlen : k ≤ l₁.length := h.trans (alive_le_length l₁)
  refine ⟨sweep k dead l₁, ?_, ?_⟩
  · unfold sweep
    rw [List.take_append_of_le_length hlen, List.drop_append_of_le_length hlen, List.append_assoc]
  · unfold alive
    rw [List.countP_eq_length_filter, List.countP_eq_length_filter, filter_sweep]

/-- A sweep moves nothing in reach or out of reach. -/
theorem reaches_sweep_iff : Reaches k dead (sweep k dead l) ↔ Reaches k dead l := by
  constructor
  · intro h l₁ x l₂ heq hx
    by_contra hlt
    rw [not_lt] at hlt
    obtain ⟨l₁', hsweep, halive⟩ := sweep_behind hlt x l₂
    have hreach := h l₁' x l₂ (heq ▸ hsweep) hx
    omega
  · intro h m₁ x m₂ heq hx
    -- the dead element was not inspected
    have hnot : x ∉ (l.take k).filter fun y => !dead y := by
      intro hmem
      have hlive := (List.mem_filter.mp hmem).2
      rw [hx] at hlive
      cases hlive
    unfold sweep at heq
    rcases List.append_eq_append_iff.mp heq with ⟨d₁, rfl, hdrop⟩ | ⟨d₁, hkept, hrest⟩
    · have hl : l = (l.take k ++ d₁) ++ x :: m₂ := by
        rw [List.append_assoc, ← hdrop, List.take_append_drop]
      have hreach := h _ x m₂ hl hx
      rw [alive_append] at hreach ⊢
      rwa [alive_filter]
    · cases d₁ with
      | nil =>
        rw [List.append_nil] at hkept
        rw [List.nil_append] at hrest
        have hl : l = l.take k ++ x :: m₂ := by
          rw [hrest, List.take_append_drop]
        have hreach := h _ x m₂ hl hx
        rw [← hkept]
        rwa [alive_filter]
      | cons y d₁ =>
        obtain ⟨rfl, -⟩ := List.cons.inj hrest
        rw [hkept] at hnot
        exact absurd (List.mem_append_right m₁ List.mem_cons_self) hnot

/-- A sweep of a list in reach takes something out as long as there is something to take out. -/
theorem length_sweep_lt (h : Reaches k dead l) (hl : ¬ Clean dead l) :
    (sweep k dead l).length < l.length := by
  unfold Clean at hl
  push Not at hl
  obtain ⟨x, hx, hdead⟩ := hl
  rw [Bool.ne_false_iff] at hdead
  have hfirst : ∃ y ∈ l.take k, dead y = true := by
    by_cases hmem : x ∈ l.take k
    · exact ⟨x, hmem, hdead⟩
    · have hdrop : x ∈ l.drop k := by
        rw [← List.take_append_drop k l] at hx
        exact (List.mem_append.mp hx).resolve_left hmem
      obtain ⟨d₁, d₂, hd⟩ := List.append_of_mem hdrop
      have hsplit : l = (l.take k ++ d₁) ++ x :: d₂ := by
        rw [List.append_assoc, ← hd, List.take_append_drop]
      have hreach := h _ x d₂ hsplit hdead
      rw [alive_append] at hreach
      by_contra hnone
      push Not at hnone
      have hall : alive dead (l.take k) = (l.take k).length := by
        apply List.countP_eq_length.mpr
        intro y hy
        rw [Bool.not_eq_true', ← Bool.not_eq_true]
        exact hnone y hy
      have hlen : (l.take k).length = k := by
        rw [List.length_take, min_eq_left_iff]
        by_contra hshort
        rw [List.drop_of_length_le (by omega)] at hdrop
        cases hdrop
      omega
  obtain ⟨y, hy, hydead⟩ := hfirst
  have hlt : ((l.take k).filter fun x => !dead x).length < (l.take k).length := by
    apply List.length_filter_lt_length_iff_exists.mpr
    exact ⟨y, hy, by rw [hydead]; decide⟩
  have hl := congrArg List.length (List.take_append_drop k l)
  unfold sweep
  rw [List.length_append] at hl ⊢
  omega

/-- Repeated sweeps clear a list exactly when every dead element is in reach. -/
theorem exists_clean_iff : (∃ n, Clean dead ((sweep k dead)^[n] l)) ↔ Reaches k dead l := by
  constructor
  · rintro ⟨n, hn⟩
    induction n generalizing l with
    | zero => exact hn.reaches
    | succ n ih =>
      rw [Function.iterate_succ_apply] at hn
      exact reaches_sweep_iff.mp (ih hn)
  · intro h
    induction hlen : l.length using Nat.strong_induction_on generalizing l with
    | _ len ih =>
      by_cases hclean : Clean dead l
      · exact ⟨0, hclean⟩
      · have hlt := length_sweep_lt h hclean
        obtain ⟨n, hn⟩ := ih _ (hlen ▸ hlt) (reaches_sweep_iff.mpr h) rfl
        exact ⟨n + 1, by rwa [Function.iterate_succ_apply]⟩

end Sampling
