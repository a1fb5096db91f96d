import Mathlib

/-!
# Finite maps with a lawful key order

`FinMap K V` is the standard library's extensional tree map under the order of the keys. It stands
for the contents of a tree map and for the contents of a hash map alike; the order in which a hash
map is walked is a separate matter, a `WalkOrder`, and no result may depend on more of it than that
it is a permutation.

`getElem?_insert'` and `getElem?_erase'` are the update rules with the key test written as an
equality; `after` and `atLeast` are the two tree ranges that are open above.
-/

open Std (ExtTreeMap TransOrd LawfulEqOrd)

/-- A finite map from `K` to `V`. -/
abbrev FinMap (K V : Type) [Ord K] := ExtTreeMap K V compare

namespace FinMap

variable {K V W : Type} [Ord K] [TransOrd K]

/-! ## Membership -/

theorem mem_iff_getElem? {m : FinMap K V} {k : K} : k ∈ m ↔ ∃ v, m[k]? = some v := by
  rw [ExtTreeMap.mem_iff_isSome_getElem?, Option.isSome_iff_exists]

theorem not_mem_iff_getElem? {m : FinMap K V} {k : K} : k ∉ m ↔ m[k]? = none := by
  rw [ExtTreeMap.mem_iff_isSome_getElem?, Option.not_isSome_iff_eq_none]

/-! ## Updates -/

section Updates

variable [LawfulEqOrd K] [DecidableEq K]

@[simp] theorem getElem?_insert' (m : FinMap K V) (k a : K) (v : V) :
    (m.insert k v)[a]? = if k = a then some v else m[a]? := by
  rw [ExtTreeMap.getElem?_insert]
  simp only [Std.compare_eq_iff_eq]

@[simp] theorem getElem?_erase' (m : FinMap K V) (k a : K) :
    (m.erase k)[a]? = if k = a then none else m[a]? := by
  rw [ExtTreeMap.getElem?_erase]
  simp only [Std.compare_eq_iff_eq]

theorem getElem?_insert_ne (m : FinMap K V) {k a : K} (h : k ≠ a) (v : V) :
    (m.insert k v)[a]? = m[a]? := by
  rw [getElem?_insert', if_neg h]

theorem getElem?_erase_ne (m : FinMap K V) {k a : K} (h : k ≠ a) : (m.erase k)[a]? = m[a]? := by
  rw [getElem?_erase', if_neg h]

/-- Writing back what a key holds changes nothing. -/
theorem insert_self_of_getElem? {m : FinMap K V} {k : K} {v : V} (h : m[k]? = some v) :
    m.insert k v = m := by
  refine ExtTreeMap.ext_getElem? fun a => ?_
  rw [getElem?_insert']
  split_ifs with hk
  · rw [← hk, h]
  · rfl

theorem insert_insert (m : FinMap K V) (k : K) (v w : V) :
    (m.insert k v).insert k w = m.insert k w := by
  refine ExtTreeMap.ext_getElem? fun a => ?_
  simp only [getElem?_insert']
  split_ifs <;> rfl

theorem erase_insert (m : FinMap K V) (k : K) (v : V) : (m.insert k v).erase k = m.erase k := by
  refine ExtTreeMap.ext_getElem? fun a => ?_
  simp only [getElem?_insert', getElem?_erase']
  split_ifs <;> rfl

theorem erase_of_getElem?_eq_none {m : FinMap K V} {k : K} (h : m[k]? = none) : m.erase k = m := by
  refine ExtTreeMap.ext_getElem? fun a => ?_
  rw [getElem?_erase']
  split_ifs with hk
  · rw [← hk, h]
  · rfl

end Updates

/-- Maps to a unit are equal when their keys are. -/
theorem ext_mem {m m' : FinMap K Unit} [LawfulEqOrd K] (h : ∀ k, k ∈ m ↔ k ∈ m') : m = m' := by
  refine ExtTreeMap.ext_getElem? fun k => Option.ext fun u => ?_
  have := h k
  rwa [mem_iff_getElem?, mem_iff_getElem?, Unique.exists_iff, Unique.exists_iff] at this

/-! ## Rebuilding a map from its pairs -/

section Rebuild

theorem foldl_insert_eq_ofList (l : List (K × V)) :
    l.foldl (fun (m : FinMap K V) p => m.insert p.1 p.2) ∅ = ExtTreeMap.ofList l compare := by
  rw [ExtTreeMap.ofList_eq_insertMany_empty]
  generalize (∅ : FinMap K V) = m
  induction l generalizing m with
  | nil => rw [List.foldl_nil, ExtTreeMap.insertMany_nil]
  | cons p l ih => rw [List.foldl_cons, ExtTreeMap.insertMany_cons, ih]

variable [LawfulEqOrd K]

omit [TransOrd K] in
theorem pairwise_compare_ne_iff {l : List (K × V)} :
    l.Pairwise (fun a b => ¬ compare a.1 b.1 = .eq) ↔ (l.map Prod.fst).Nodup := by
  simp only [Std.compare_eq_iff_eq, List.Nodup, List.pairwise_map, ne_eq]

theorem nodup_fst_toList (m : FinMap K V) : (m.toList.map Prod.fst).Nodup :=
  pairwise_compare_ne_iff.mp ExtTreeMap.distinct_keys_toList

/-- A list of pairs with distinct keys, collected into a map, is looked up as it reads. -/
theorem getElem?_ofList_iff {l : List (K × V)} (h : (l.map Prod.fst).Nodup) {k : K} {v : V} :
    (ExtTreeMap.ofList l compare : FinMap K V)[k]? = some v ↔ (k, v) ∈ l := by
  classical
  have hof : ∀ {w}, (k, w) ∈ l → (ExtTreeMap.ofList l compare : FinMap K V)[k]? = some w :=
    fun hw => ExtTreeMap.getElem?_ofList_of_mem (Std.compare_eq_iff_eq.mpr rfl)
      (pairwise_compare_ne_iff.mpr h) hw
  refine ⟨fun hv => ?_, hof⟩
  by_cases hk : k ∈ l.map Prod.fst
  · obtain ⟨⟨k', w⟩, hw, rfl⟩ := List.mem_map.mp hk
    rw [hof hw, Option.some.injEq] at hv
    exact hv ▸ hw
  · have hn : (ExtTreeMap.ofList l compare : FinMap K V)[k]? = none := by
      apply ExtTreeMap.getElem?_ofList_of_contains_eq_false
      simpa using hk
    rw [hn] at hv
    cases hv

end Rebuild

/-! ## The order of a walk -/

/-- The order in which the entries of a hash map are walked: any rearrangement of them. -/
structure WalkOrder where
  order : {α : Type} → List α → List α
  perm : ∀ {α : Type} (l : List α), (order l).Perm l

/-- The walk in key order. -/
def WalkOrder.byKey : WalkOrder where
  order := id
  perm := fun _ => List.Perm.refl _

/-- The entries of a hash map in the order of the walk. -/
def walk (o : WalkOrder) (m : FinMap K V) : List (K × V) := o.order m.toList

theorem walk_perm (o : WalkOrder) (m : FinMap K V) : (m.walk o).Perm m.toList := o.perm _

section Lawful

variable [LawfulEqOrd K]

@[simp] theorem mem_walk (o : WalkOrder) {m : FinMap K V} {k : K} {v : V} :
    (k, v) ∈ m.walk o ↔ m[k]? = some v := by
  rw [(walk_perm o m).mem_iff, ExtTreeMap.mem_toList_iff_getElem?_eq_some]

theorem nodup_fst_walk (o : WalkOrder) (m : FinMap K V) : ((m.walk o).map Prod.fst).Nodup :=
  ((walk_perm o m).map Prod.fst).nodup_iff.mpr (nodup_fst_toList m)

/-- A map is what its walk collects to, whatever the order of the walk. -/
theorem ofList_walk (o : WalkOrder) (m : FinMap K V) :
    (ExtTreeMap.ofList (m.walk o) compare : FinMap K V) = m := by
  refine ExtTreeMap.ext_getElem? fun k => Option.ext fun v => ?_
  rw [getElem?_ofList_iff (nodup_fst_walk o m), mem_walk]

/-- A walk whose entries are kept or dropped and rewritten one by one, collected into a map again. -/
theorem getElem?_ofList_filter_map (o : WalkOrder) (m : FinMap K V) (keep : V → Bool)
    (f : V → W) (k : K) :
    (ExtTreeMap.ofList (((m.walk o).filter fun p => keep p.2).map fun p => (p.1, f p.2)) compare :
      FinMap K W)[k]? = (m[k]?.filter keep).map f := by
  have hnodup : ((((m.walk o).filter fun p => keep p.2).map fun p => (p.1, f p.2)).map
      Prod.fst).Nodup := by
    rw [List.map_map]
    exact (nodup_fst_walk o m).sublist (List.filter_sublist.map Prod.fst)
  refine Option.ext fun w => ?_
  rw [getElem?_ofList_iff hnodup]
  simp only [List.mem_map, List.mem_filter, Prod.mk.injEq, Option.map_eq_some_iff,
    Option.filter_eq_some_iff]
  constructor
  · rintro ⟨⟨a, v⟩, ⟨hv, hk⟩, rfl, rfl⟩
    exact ⟨v, ⟨(mem_walk o).mp hv, hk⟩, rfl⟩
  · rintro ⟨v, ⟨hv, hk⟩, rfl⟩
    exact ⟨(k, v), ⟨(mem_walk o).mpr hv, hk⟩, rfl, rfl⟩

/-- A walk whose entries are rewritten one by one, collected into a map again. -/
theorem ofList_map_walk (o : WalkOrder) (m : FinMap K V) (f : V → W) :
    (ExtTreeMap.ofList ((m.walk o).map fun p => (p.1, f p.2)) compare : FinMap K W) =
      m.map fun _ v => f v := by
  refine ExtTreeMap.ext_getElem? fun k => ?_
  have h := getElem?_ofList_filter_map o m (fun _ => true) f k
  rw [List.filter_eq_self.mpr fun _ _ => rfl] at h
  rw [h, ExtTreeMap.getElem?_map]
  cases m[k]? <;> rfl

/-! ## Ranges -/

/-- `range((Excluded(lo), Unbounded))`: the entries above `lo`, in key order. -/
def after (m : FinMap K V) (lo : K) : List (K × V) :=
  m.toList.filter fun p => (compare lo p.1).isLT

/-- `range((Included(lo), Unbounded))`: the entries from `lo` on, in key order. -/
def atLeast (m : FinMap K V) (lo : K) : List (K × V) :=
  m.toList.filter fun p => (compare lo p.1).isLE

omit [LawfulEqOrd K] in
theorem keys_atLeast (m : FinMap K V) (lo : K) :
    (m.atLeast lo).map Prod.fst = m.keys.filter fun k => (compare lo k).isLE := by
  rw [atLeast, ← ExtTreeMap.map_fst_toList_eq_keys, List.filter_map]
  rfl

theorem mem_after {m : FinMap K V} {lo k : K} {v : V} :
    (k, v) ∈ m.after lo ↔ compare lo k = .lt ∧ m[k]? = some v := by
  rw [after, List.mem_filter, ExtTreeMap.mem_toList_iff_getElem?_eq_some, and_comm]
  simp [Ordering.isLT_iff_eq_lt]

end Lawful

theorem pairwise_after (m : FinMap K V) (lo : K) :
    (m.after lo).Pairwise fun a b => compare a.1 b.1 = .lt :=
  List.Pairwise.filter _ ExtTreeMap.ordered_keys_toList

/-- The range from a key further on is a part of the range. -/
theorem after_after (m : FinMap K V) {lo hi : K} (h : compare lo hi = .lt) :
    m.after hi = (m.after lo).filter fun p => (compare hi p.1).isLT := by
  unfold after
  rw [List.filter_filter]
  refine List.filter_congr fun p _ => ?_
  cases hp : (compare hi p.1).isLT with
  | false => rfl
  | true =>
    have hlt := Std.TransCmp.lt_trans h (Ordering.isLT_iff_eq_lt.mp hp)
    rw [hlt]
    rfl

/-- A range read up to some entry resumes after it where it was left. -/
theorem after_getLast_take [LawfulEqOrd K] (m : FinMap K V) (lo : K) (n : ℕ) :
    m.after ((((m.after lo).take n).getLast?.map Prod.fst).getD lo) = (m.after lo).drop n := by
  cases hlast : ((m.after lo).take n).getLast? with
  | none =>
    rw [List.getLast?_eq_none_iff, List.take_eq_nil_iff] at hlast
    rcases hlast with rfl | h
    · rfl
    · simp [h]
  | some x =>
    obtain ⟨l, hl⟩ := List.getLast?_eq_some_iff.mp hlast
    have hx : x ∈ m.after lo :=
      List.mem_of_mem_take (hl ▸ List.mem_append_right l List.mem_cons_self)
    have hsorted := pairwise_after m lo
    rw [← List.take_append_drop n (m.after lo), hl] at hsorted
    obtain ⟨hleft, hright, hcross⟩ := List.pairwise_append.mp hsorted
    rw [Option.map_some, Option.getD_some, after_after m (mem_after.mp hx).1]
    conv_lhs => rw [← List.take_append_drop n (m.after lo), hl]
    rw [List.filter_append, List.filter_eq_nil_iff.mpr, List.nil_append,
      List.filter_eq_self.mpr]
    · intro y hy
      rw [hcross x (List.mem_append_right l List.mem_cons_self) y hy]
      rfl
    · intro y hy
      rcases List.mem_append.mp hy with hy | hy
      · have hyx := (List.pairwise_append.mp hleft).2.2 y hy x List.mem_cons_self
        rw [Std.OrientedCmp.gt_of_lt hyx]
        decide
      · rw [List.mem_singleton.mp hy, Std.compare_self]
        decide

end FinMap
