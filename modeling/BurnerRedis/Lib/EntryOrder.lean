import BurnerRedis.Lib.FinMap

/-!
# Maps that grow at the end

The entries of a map in the order of their keys. A key above all others goes to the end, and keys
are taken out of the middle.
-/

open Std

namespace FinMap

variable {K V : Type} [Ord K] [TransOrd K] [LawfulEqOrd K]

/-- A list in the order of its keys that has what the map holds is the list of the map. -/
theorem eq_toList {m : FinMap K V} {l : List (K × V)}
    (hl : l.Pairwise fun a b => compare a.1 b.1 = .lt)
    (hmem : ∀ p : K × V, p ∈ l ↔ m[p.1]? = some p.2) : l = m.toList := by
  have hirrefl : ∀ a : K × V, compare a.1 a.1 ≠ .lt := by
    intro a h
    rw [ReflOrd.compare_self] at h
    cases h
  have hnodup : l.Nodup := by
    refine hl.imp fun {a b} hab hsame => ?_
    rw [hsame] at hab
    exact hirrefl b hab
  have hnodup' : m.toList.Nodup := (nodup_fst_toList m).of_map
  have hperm : l.Perm m.toList := by
    refine (List.perm_ext_iff_of_nodup hnodup hnodup').mpr fun p => ?_
    rw [hmem, ← ExtTreeMap.mem_toList_iff_getElem?_eq_some]
  refine hperm.eq_of_pairwise (fun a b _ _ hab hba => ?_) hl ExtTreeMap.ordered_keys_toList
  have h := TransCmp.lt_trans hab hba
  exact absurd h (hirrefl a)

/-- An entry with a key above all others is the last one. -/
theorem toList_insert_last [DecidableEq K] {m : FinMap K V} {k : K}
    (h : ∀ a ∈ m, compare a k = .lt) (v : V) :
    (m.insert k v).toList = m.toList ++ [(k, v)] := by
  symm
  apply eq_toList
  · rw [List.pairwise_append]
    refine ⟨ExtTreeMap.ordered_keys_toList, List.pairwise_singleton .., fun a ha b hb => ?_⟩
    rw [List.mem_singleton.mp hb]
    have ha' : m[a.1]? = some a.2 := ExtTreeMap.mem_toList_iff_getElem?_eq_some.mp ha
    exact h a.1 (mem_iff_getElem?.mpr ⟨a.2, ha'⟩)
  · rintro ⟨a, w⟩
    rw [List.mem_append, List.mem_singleton, getElem?_insert',
      ExtTreeMap.mem_toList_iff_getElem?_eq_some]
    by_cases hk : k = a
    · subst hk
      have hnone : m[k]? = none := by
        rw [← not_mem_iff_getElem?]
        intro hmem
        have hlt := h k hmem
        rw [ReflOrd.compare_self] at hlt
        cases hlt
      simp [hnone, eq_comm]
    · rw [if_neg hk]
      simp [Ne.symm hk]

theorem toList_erase [DecidableEq K] (m : FinMap K V) (k : K) :
    (m.erase k).toList = m.toList.filter fun p => p.1 ≠ k := by
  symm
  refine eq_toList (List.Pairwise.filter _ ExtTreeMap.ordered_keys_toList) fun p => ?_
  rw [List.mem_filter, ExtTreeMap.mem_toList_iff_getElem?_eq_some, getElem?_erase',
    decide_eq_true_eq]
  split_ifs with hk
  · simp [hk]
  · simp [Ne.symm hk]

/-- What is left when the first keys are taken out. -/
theorem filter_take_keys [DecidableEq K] (m : FinMap K V) (n : ℕ) :
    (m.toList.filter fun p => p.1 ∉ m.keys.take n) = m.toList.drop n := by
  have hkeys : m.keys = m.toList.map Prod.fst := ExtTreeMap.map_fst_toList_eq_keys.symm
  have hsplit : m.toList.take n ++ m.toList.drop n = m.toList := List.take_append_drop ..
  have hnodup := nodup_fst_toList m
  rw [← hsplit, List.map_append, List.nodup_append] at hnodup
  obtain ⟨-, -, hdisjoint⟩ := hnodup
  rw [hkeys, ← List.map_take]
  have htake : ((m.toList.take n).filter fun p => p.1 ∉ (m.toList.take n).map Prod.fst) = [] := by
    refine List.filter_eq_nil_iff.mpr fun p hp => ?_
    rw [decide_eq_true_eq, not_not]
    exact List.mem_map_of_mem hp
  have hdrop : ((m.toList.drop n).filter fun p => p.1 ∉ (m.toList.take n).map Prod.fst) =
      m.toList.drop n := by
    refine List.filter_eq_self.mpr fun p hp => decide_eq_true fun hmem => ?_
    exact hdisjoint _ hmem _ (List.mem_map_of_mem hp) rfl
  have hfilter : ∀ f : K × V → Bool, m.toList.filter f =
      (m.toList.take n).filter f ++ (m.toList.drop n).filter f := by
    intro f
    rw [← List.filter_append, hsplit]
  rw [hfilter, htake, List.nil_append, hdrop]

end FinMap
