import BurnerRedis.Lib.FinMap

/-!
# Ranges of a tree map between two ends

A tree map is asked for the entries between two ends, each of which may be left out. `range?` is
`none` where the map panics: the ends lie the wrong way round, or they are one key and both left
out.
-/

open Std (ExtTreeMap)

/-- An end of a range. -/
inductive Bound (K : Type) where
  | included (k : K)
  | excluded (k : K)
deriving DecidableEq

namespace Bound

variable {K : Type}

def key : Bound K → K
  | included k => k
  | excluded k => k

def isExcluded : Bound K → Bool
  | included _ => false
  | excluded _ => true

variable [LinearOrder K]

/-- The key lies above the end, or on it if the end is included. -/
def Above (b : Bound K) (k : K) : Prop :=
  match b with
  | included lo => lo ≤ k
  | excluded lo => lo < k

/-- The key lies below the end, or on it if the end is included. -/
def Below (b : Bound K) (k : K) : Prop :=
  match b with
  | included hi => k ≤ hi
  | excluded hi => k < hi

instance (b : Bound K) : DecidablePred b.Above := fun k =>
  match b with
  | included lo => inferInstanceAs (Decidable (lo ≤ k))
  | excluded lo => inferInstanceAs (Decidable (lo < k))

instance (b : Bound K) : DecidablePred b.Below := fun k =>
  match b with
  | included hi => inferInstanceAs (Decidable (k ≤ hi))
  | excluded hi => inferInstanceAs (Decidable (k < hi))

theorem Above.le {b : Bound K} {k : K} (h : b.Above k) : b.key ≤ k := by
  cases b with
  | included lo => exact h
  | excluded lo => exact le_of_lt h

theorem Below.le {b : Bound K} {k : K} (h : b.Below k) : k ≤ b.key := by
  cases b with
  | included hi => exact h
  | excluded hi => exact le_of_lt h

theorem Above.lt {b : Bound K} {k : K} (h : b.Above k) (hb : b.isExcluded = true) : b.key < k := by
  cases b with
  | included lo => cases hb
  | excluded lo => exact h

theorem Below.lt {b : Bound K} {k : K} (h : b.Below k) (hb : b.isExcluded = true) : k < b.key := by
  cases b with
  | included hi => cases hb
  | excluded hi => exact h

/-- There is nothing between two ends that are the wrong way round, or are one key of which one end
or the other is left out. -/
def Crossed (lo hi : Bound K) : Prop :=
  hi.key < lo.key ∨ lo.key = hi.key ∧ (lo.isExcluded = true ∨ hi.isExcluded = true)

instance (lo hi : Bound K) : Decidable (Crossed lo hi) := inferInstanceAs (Decidable (_ ∨ _))

theorem Crossed.not_between {lo hi : Bound K} (h : Crossed lo hi) {k : K} (hlo : lo.Above k) :
    ¬ hi.Below k := by
  intro hhi
  rcases h with h | ⟨h, hlo' | hhi'⟩
  · exact absurd (hlo.le.trans hhi.le) (not_le.mpr h)
  · exact absurd (h ▸ hlo.lt hlo') (not_lt.mpr hhi.le)
  · exact absurd (h ▸ hhi.lt hhi') (not_lt.mpr hlo.le)

end Bound

namespace FinMap

variable {K V : Type} [LinearOrder K] {m : FinMap K V} {lo hi : Bound K}

/-- `range((lo, hi))`: the entries between two ends in key order, or a panic. -/
def range? (m : FinMap K V) (lo hi : Bound K) : Option (List (K × V)) :=
  if hi.key < lo.key ∨ lo.key = hi.key ∧ lo.isExcluded = true ∧ hi.isExcluded = true then none
  else some (m.toList.filter fun p => lo.Above p.1 ∧ hi.Below p.1)

/-- A map is never at fault where the ends are not crossed. -/
theorem range?_eq_some (h : ¬ Bound.Crossed lo hi) :
    m.range? lo hi = some (m.toList.filter fun p => lo.Above p.1 ∧ hi.Below p.1) := by
  apply if_neg
  rintro (hlt | ⟨heq, hlo, -⟩)
  · exact h (.inl hlt)
  · exact h (.inr ⟨heq, .inl hlo⟩)

/-- The filter of the entries finds nothing between crossed ends. -/
theorem filter_between_of_crossed (h : Bound.Crossed lo hi) :
    (m.toList.filter fun p => lo.Above p.1 ∧ hi.Below p.1) = [] := by
  rw [List.filter_eq_nil_iff]
  intro p _ hp
  rw [decide_eq_true_eq] at hp
  exact h.not_between hp.1 hp.2

theorem mem_filter_between {p : K × V} :
    (p ∈ m.toList.filter fun p => lo.Above p.1 ∧ hi.Below p.1) ↔
      m[p.1]? = some p.2 ∧ lo.Above p.1 ∧ hi.Below p.1 := by
  rw [List.mem_filter, ExtTreeMap.mem_toList_iff_getElem?_eq_some, decide_eq_true_eq]

theorem pairwise_filter_toList (q : K × V → Bool) :
    (m.toList.filter q).Pairwise fun a b => a.1 < b.1 := by
  apply List.Pairwise.filter
  apply ExtTreeMap.ordered_keys_toList.imp
  intro a b h
  exact compare_lt_iff_lt.mp h

end FinMap
