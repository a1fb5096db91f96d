import Mathlib.Data.List.Infix
import Mathlib.Data.List.Forall2

/-!
# Patterns with stars

A pattern is a list of tokens: a star takes any word, every other token one letter. `exhaustive`
tries all words a star may take. A matcher that reads pattern and word from the left needs to
remember its last star only: between two stars the tokens take letters one by one, so that what the
earlier star took can be left as it is (`exhaustive_of_takes`).
-/

namespace Wildcard

variable {α : Type}

/-- A star, or a token for one letter. -/
inductive Token (α : Type) where
  | star
  | one (accepts : α → Bool)

/-- The token that takes nothing. -/
def Token.never : Token α := .one fun _ => false

/-- The reference semantics: a star tries every word. -/
def exhaustive : List (Token α) → List α → Bool
  | [], w => w.isEmpty
  | .star :: ts, w => w.tails.any (exhaustive ts)
  | .one _ :: _, [] => false
  | .one accepts :: ts, c :: w => accepts c && exhaustive ts w

@[simp] theorem exhaustive_nil (w : List α) : exhaustive [] w = w.isEmpty := by
  cases w <;> rfl

@[simp] theorem exhaustive_one_nil (accepts : α → Bool) (ts : List (Token α)) :
    exhaustive (.one accepts :: ts) [] = false := rfl

@[simp] theorem exhaustive_one_cons (accepts : α → Bool) (ts : List (Token α)) (c : α)
    (w : List α) :
    exhaustive (.one accepts :: ts) (c :: w) = (accepts c && exhaustive ts w) := rfl

@[simp] theorem exhaustive_never (ts : List (Token α)) (w : List α) :
    exhaustive (.never :: ts) w = false := by
  cases w <;> rfl

/-! ## Stars -/

theorem exhaustive_star {ts : List (Token α)} {w : List α} :
    exhaustive (.star :: ts) w = true ↔ ∃ v, v <:+ w ∧ exhaustive ts v = true := by
  have h : exhaustive (.star :: ts) w = w.tails.any (exhaustive ts) := by
    cases w <;> rfl
  rw [h, List.any_eq_true]
  simp only [List.mem_tails]

theorem exhaustive_star_cons {ts : List (Token α)} {c : α} {w : List α} :
    exhaustive (.star :: ts) (c :: w) = true ↔
      exhaustive ts (c :: w) = true ∨ exhaustive (.star :: ts) w = true := by
  simp only [exhaustive_star, List.suffix_cons_iff]
  constructor
  · rintro ⟨v, rfl | hv, h⟩
    · exact .inl h
    · exact .inr ⟨v, hv, h⟩
  · rintro (h | ⟨v, hv, h⟩)
    · exact ⟨_, .inl rfl, h⟩
    · exact ⟨v, .inr hv, h⟩

/-- A star that matches a part of a word from some place on matches the whole of it. -/
theorem exhaustive_star_of_suffix {ts : List (Token α)} {v w : List α} (hv : v <:+ w)
    (h : exhaustive (.star :: ts) v = true) : exhaustive (.star :: ts) w = true := by
  obtain ⟨u, hu, h⟩ := exhaustive_star.mp h
  exact exhaustive_star.mpr ⟨u, hu.trans hv, h⟩

theorem exhaustive_star_star (ts : List (Token α)) (w : List α) :
    exhaustive (.star :: .star :: ts) w = exhaustive (.star :: ts) w := by
  rw [Bool.eq_iff_iff]
  constructor
  · intro h
    obtain ⟨v, hv, h⟩ := exhaustive_star.mp h
    exact exhaustive_star_of_suffix hv h
  · intro h
    exact exhaustive_star.mpr ⟨w, List.suffix_rfl, h⟩

/-- A star at the end takes what is left. -/
theorem exhaustive_star_nil (w : List α) : exhaustive [.star] w = true :=
  exhaustive_star.mpr ⟨[], List.nil_suffix, rfl⟩

/-- What a pattern ends with may be replaced by what takes the same words. -/
theorem exhaustive_append_congr {ts ts' : List (Token α)}
    (h : ∀ w, exhaustive ts w = exhaustive ts' w) (seg : List (Token α)) (w : List α) :
    exhaustive (seg ++ ts) w = exhaustive (seg ++ ts') w := by
  induction seg generalizing w with
  | nil => exact h w
  | cons t seg ih =>
    cases t with
    | star =>
      rw [Bool.eq_iff_iff, List.cons_append, List.cons_append, exhaustive_star, exhaustive_star]
      simp only [ih]
    | one accepts =>
      cases w with
      | nil => rfl
      | cons c w =>
        rw [List.cons_append, List.cons_append, exhaustive_one_cons, exhaustive_one_cons, ih]

/-! ## Segments without a star -/

/-- The tokens of the segment take the letters of the word, one each. -/
def Takes (seg : List (Token α)) (w : List α) : Prop :=
  List.Forall₂ (fun t c => ∃ accepts, t = .one accepts ∧ accepts c = true) seg w

theorem Takes.nil : Takes ([] : List (Token α)) [] := List.Forall₂.nil

theorem Takes.concat {seg : List (Token α)} {w : List α} (h : Takes seg w) {accepts : α → Bool}
    {c : α} (hc : accepts c = true) : Takes (seg ++ [.one accepts]) (w ++ [c]) :=
  List.rel_append h (.cons ⟨accepts, rfl, hc⟩ .nil)

/-- After the letters a segment takes, the rest of the pattern decides. -/
theorem Takes.exhaustive_append {seg ts : List (Token α)} {w v : List α} (h : Takes seg w) :
    exhaustive (seg ++ ts) (w ++ v) = exhaustive ts v := by
  induction h with
  | nil => rfl
  | cons hc _ ih =>
    obtain ⟨accepts, rfl, hc⟩ := hc
    rw [List.cons_append, List.cons_append, exhaustive_one_cons, hc, Bool.true_and, ih]

/-- A segment takes as many letters from any other word. -/
theorem Takes.exists_of_exhaustive {seg ts : List (Token α)} {w v : List α} (h : Takes seg w)
    (hv : exhaustive (seg ++ ts) v = true) :
    w.length ≤ v.length ∧ exhaustive ts (v.drop w.length) = true := by
  induction h generalizing v with
  | nil => exact ⟨Nat.zero_le _, hv⟩
  | cons hc _ ih =>
    obtain ⟨accepts, rfl, -⟩ := hc
    cases v with
    | nil => cases hv
    | cons c v =>
      rw [List.cons_append, exhaustive_one_cons, Bool.and_eq_true] at hv
      obtain ⟨hle, hdrop⟩ := ih hv.2
      exact ⟨Nat.succ_le_succ hle, hdrop⟩

/-- The second of two stars decides: whatever the first one takes, the second can take more. -/
theorem exhaustive_of_takes {seg ts : List (Token α)} {w v : List α} (h : Takes seg w) :
    exhaustive (.star :: (seg ++ .star :: ts)) (w ++ v) = exhaustive (.star :: ts) v := by
  rw [Bool.eq_iff_iff]
  constructor
  · intro hm
    obtain ⟨u, hu, hm⟩ := exhaustive_star.mp hm
    obtain ⟨hle, hm⟩ := h.exists_of_exhaustive hm
    -- what is left for the second star is at most what is left now
    refine exhaustive_star_of_suffix ?_ hm
    refine List.suffix_of_suffix_length_le ((List.drop_suffix _ _).trans hu)
      (List.suffix_append w v) ?_
    have := hu.length_le
    rw [List.length_append] at this
    rw [List.length_drop]
    omega
  · intro hm
    refine exhaustive_star.mpr ⟨w ++ v, List.suffix_rfl, ?_⟩
    rw [h.exhaustive_append]
    exact hm

/-- After a mismatch the star takes one letter more. -/
theorem exhaustive_of_mismatch {seg ts : List (Token α)} {w v : List α} (h : Takes seg w)
    (hne : w ++ v ≠ []) (hv : exhaustive ts v = false) :
    exhaustive (.star :: (seg ++ ts)) (w ++ v) =
      exhaustive (.star :: (seg ++ ts)) (w ++ v).tail := by
  rw [Bool.eq_iff_iff]
  obtain ⟨c, u, hu⟩ := List.exists_cons_of_ne_nil hne
  rw [← h.exhaustive_append, hu] at hv
  rw [hu, exhaustive_star_cons, hv]
  simp

/-- At the end of the word the star has nothing to give. -/
theorem exhaustive_of_end {seg ts : List (Token α)} {w : List α} (h : Takes seg w) :
    exhaustive (.star :: (seg ++ ts)) w = exhaustive ts [] := by
  rw [Bool.eq_iff_iff]
  constructor
  · intro hm
    obtain ⟨u, hu, hm⟩ := exhaustive_star.mp hm
    obtain ⟨hle, hm⟩ := h.exists_of_exhaustive hm
    have := hu.length_le
    rwa [List.drop_eq_nil_of_le this] at hm
  · intro hm
    refine exhaustive_star.mpr ⟨w, List.suffix_rfl, ?_⟩
    have : exhaustive (seg ++ ts) (w ++ []) = exhaustive ts [] := h.exhaustive_append
    rw [List.append_nil] at this
    rw [this, hm]

end Wildcard
