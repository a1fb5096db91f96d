import BurnerRedis.Lib.FinMap

/-!
# Tables

A table says what is filed under each key. It is what a finite map is about, without the way in which
the map is kept: `FinMap.table` is the table of a map, and each operation of the map shows there as a
function on tables.
-/

/-- What is filed under each key. -/
abbrev Table (K V : Type) := K → Option V

namespace Table

variable {K V : Type}

/-- Nothing is filed. -/
def empty : Table K V := fun _ => none

/-- The keys that something is filed under. -/
def dom (t : Table K V) : Set K := {k | (t k).isSome}

/-- How many keys there are; zero for a table that is not finite. -/
noncomputable def card (t : Table K V) : ℕ := t.dom.ncard

/-- The pairs of the table, each once, in some order. -/
structure Lists (t : Table K V) (l : List (K × V)) : Prop where
  nodup : (l.map Prod.fst).Nodup
  mem : ∀ k v, (k, v) ∈ l ↔ t k = some v

/-- The pairs with such a value. -/
def keep (t : Table K V) (p : V → Prop) [DecidablePred p] : Table K V := fun k => (t k).filter p

section Updates

variable [DecidableEq K]

def put (t : Table K V) (k : K) (v : V) : Table K V := Function.update t k (some v)

/-- One pair after the other. -/
def putAll (t : Table K V) (l : List (K × V)) : Table K V := l.foldl (fun t p => t.put p.1 p.2) t

def without (t : Table K V) (ks : List K) : Table K V := fun k => if k ∈ ks then none else t k

theorem put_apply (t : Table K V) (k a : K) (v : V) :
    t.put k v a = if a = k then some v else t a := by
  unfold put
  rw [Function.update_apply]

theorem without_nil (t : Table K V) : t.without [] = t := by
  funext k
  simp [without]

theorem without_cons (t : Table K V) (k : K) (ks : List K) :
    t.without (k :: ks) = (t.without [k]).without ks := by
  funext a
  unfold without
  simp only [List.mem_cons]
  split_ifs <;> simp_all

end Updates

@[simp] theorem mem_dom {t : Table K V} {k : K} : k ∈ t.dom ↔ (t k).isSome := Iff.rfl

/-- The table has as many keys as pairs are listed. -/
theorem Lists.card_eq {t : Table K V} {l : List (K × V)} (h : t.Lists l) : t.card = l.length := by
  classical
  have hdom : t.dom = ↑(l.map Prod.fst).toFinset := by
    ext k
    rw [mem_dom, Option.isSome_iff_exists, List.coe_toFinset, Set.mem_ofPred_eq, List.mem_map]
    constructor
    · rintro ⟨v, hv⟩
      exact ⟨(k, v), (h.mem k v).mpr hv, rfl⟩
    · rintro ⟨⟨k', v⟩, hp, rfl⟩
      exact ⟨v, (h.mem k' v).mp hp⟩
  rw [card, hdom, Set.ncard_coe_finset, List.toFinset_card_of_nodup h.nodup, List.length_map]

/-- Taking a key out of a finite table. -/
theorem card_without_single [DecidableEq K] {t : Table K V} (h : t.dom.Finite) (k : K) :
    ((t.without [k]).card : ℤ) = if (t k).isSome then (t.card : ℤ) - 1 else t.card := by
  have hdom : (t.without [k]).dom = t.dom \ {k} := by
    ext a
    unfold without
    by_cases ha : a = k <;> simp [ha]
  unfold card
  rw [hdom]
  split_ifs with hk
  · have hmem : k ∈ t.dom := hk
    have hpos : 0 < t.dom.ncard := (Set.ncard_pos h).mpr ⟨k, hk⟩
    rw [Set.ncard_sdiff_singleton_of_mem hmem]
    omega
  · have hmem : k ∉ t.dom := hk
    rw [Set.sdiff_singleton_eq_self hmem]

theorem keep_eq_some {t : Table K V} {p : V → Prop} [DecidablePred p] {k : K} {v : V} :
    t.keep p k = some v ↔ t k = some v ∧ p v := by
  unfold keep
  rw [Option.filter_eq_some_iff, decide_eq_true_eq]

/-- A list of a table, filtered, lists what is kept of the table. -/
theorem Lists.keep {t : Table K V} {l : List (K × V)} (h : t.Lists l) (p : V → Prop)
    [DecidablePred p] : (t.keep p).Lists (l.filter fun x => decide (p x.2)) where
  nodup := h.nodup.sublist (List.filter_sublist.map Prod.fst)
  mem k v := by rw [List.mem_filter, h.mem, decide_eq_true_eq, keep_eq_some]

/-- What is kept and what is not are all there is. -/
theorem Lists.card_keep {t : Table K V} {l : List (K × V)} (h : t.Lists l) (p : V → Prop)
    [DecidablePred p] : (t.keep p).card + (t.keep fun v => ¬ p v).card = t.card := by
  rw [(h.keep p).card_eq, (h.keep fun v => ¬ p v).card_eq, h.card_eq]
  simp only [decide_not]
  exact (List.length_eq_length_filter_add fun x : K × V => decide (p x.2)).symm

end Table

/-! ## The table of a map -/

namespace FinMap

variable {K V : Type} [Ord K] [Std.TransOrd K]

/-- What a map holds. -/
def table (m : FinMap K V) : Table K V := fun k => m[k]?

@[simp] theorem table_apply (m : FinMap K V) (k : K) : m.table k = m[k]? := rfl

@[simp] theorem table_empty : table (∅ : FinMap K V) = .empty := by
  funext k
  exact Std.ExtTreeMap.getElem?_empty

variable [Std.LawfulEqOrd K]

theorem table_injective : Function.Injective (table (K := K) (V := V)) :=
  fun _ _ h => Std.ExtTreeMap.ext_getElem? (congrFun h)

theorem table_eq_empty {m : FinMap K V} : m.table = .empty ↔ m = ∅ := by
  rw [← table_empty, table_injective.eq_iff]

theorem lists_table (o : WalkOrder) (m : FinMap K V) : m.table.Lists (m.walk o) :=
  ⟨nodup_fst_walk o m, fun _ _ => mem_walk o⟩

@[simp] theorem card_table (m : FinMap K V) : m.table.card = m.size := by
  rw [(lists_table .byKey m).card_eq]
  exact Std.ExtTreeMap.length_toList

variable [DecidableEq K]

theorem table_insert (m : FinMap K V) (k : K) (v : V) :
    table (m.insert k v) = m.table.put k v := by
  funext a
  rw [table_apply, getElem?_insert', Table.put_apply, table_apply]
  simp only [eq_comm]

theorem table_erase (m : FinMap K V) (k : K) : table (m.erase k) = m.table.without [k] := by
  funext a
  unfold Table.without
  simp only [table_apply, getElem?_erase', List.mem_singleton, eq_comm]

/-! ### Counting -/

omit [Std.LawfulEqOrd K] [DecidableEq K] in
theorem size_erase' (m : FinMap K V) (k : K) :
    ((m.erase k).size : ℤ) = if k ∈ m then (m.size : ℤ) - 1 else m.size := by
  rw [Std.ExtTreeMap.size_erase]
  simp only [Std.ExtTreeMap.contains_iff_mem]
  by_cases h : k ∈ m
  · have hpos : m.size ≠ 0 := by
      intro h0
      rw [← Std.ExtTreeMap.eq_empty_iff_size_eq_zero] at h0
      rw [h0] at h
      exact Std.ExtTreeMap.not_mem_empty h
    rw [if_pos h, if_pos h]
    omega
  · rw [if_neg h, if_neg h]

/-- Pairs put into a map one after the other, and the new ones counted. -/
theorem foldl_insert_counted (l : List (K × V)) (m : FinMap K V) (n : ℤ) :
    let r := l.foldl (fun r p => (r.1.insert p.1 p.2, if p.1 ∈ r.1 then r.2 else r.2 + 1)) (m, n)
    table r.1 = m.table.putAll l ∧ r.2 - r.1.size = n - m.size := by
  induction l generalizing m n with
  | nil => exact ⟨rfl, rfl⟩
  | cons p l ih =>
    obtain ⟨htable, hcount⟩ := ih (m.insert p.1 p.2) (if p.1 ∈ m then n else n + 1)
    refine ⟨?_, hcount.trans ?_⟩
    · rw [table_insert] at htable
      exact htable
    · rw [Std.ExtTreeMap.size_insert]
      simp only [Std.ExtTreeMap.contains_iff_mem]
      by_cases h : p.1 ∈ m
      · rw [if_pos h, if_pos h]
      · rw [if_neg h, if_neg h]
        push_cast
        ring

/-- Keys taken out of a map one after the other, and the ones that were there counted. -/
theorem foldl_erase_counted (ks : List K) (m : FinMap K V) (n : ℤ) :
    let r := ks.foldl (fun r k => (r.1.erase k, if k ∈ r.1 then r.2 + 1 else r.2)) (m, n)
    table r.1 = m.table.without ks ∧ r.2 + r.1.size = n + m.size := by
  induction ks generalizing m n with
  | nil => exact ⟨(Table.without_nil _).symm, rfl⟩
  | cons k ks ih =>
    obtain ⟨htable, hcount⟩ := ih (m.erase k) (if k ∈ m then n + 1 else n)
    refine ⟨?_, hcount.trans ?_⟩
    · rw [table_erase, ← Table.without_cons] at htable
      exact htable
    · rw [size_erase']
      split_ifs
      · ring
      · rfl

end FinMap
