import BurnerRedis.Lib.FinMap

/-!
# Relations kept from both sides

A `MultiMap K V` is a map from keys to sets of values. `Holds` says what it relates, `pairs` lists
it, and `NoEmpty` that no key is there without a value. `add` and `remove` keep this; `take` may
leave one key with an empty set, which `tidy` then removes.

A `TwoWay A B` keeps one relation twice, from `A` to `B` and back. It is `Coherent` when the two
maps say the same and neither has an empty set. The pairs of the two sides are then the same, so
that what is counted on one side can be counted on the other.
-/

open Std (ExtTreeMap TransOrd LawfulEqOrd)

set_option linter.unusedSectionVars false

/-- A map from keys to sets of values. -/
abbrev MultiMap (K V : Type) [Ord K] [Ord V] := FinMap K (FinMap V Unit)

namespace MultiMap

variable {K V : Type} [Ord K] [TransOrd K] [LawfulEqOrd K] [DecidableEq K]
  [Ord V] [TransOrd V] [LawfulEqOrd V] [DecidableEq V]

/-- The values of a key. -/
def valuesOf (m : MultiMap K V) (k : K) : FinMap V Unit := m[k]?.getD ∅

/-- The key has the value. -/
def Holds (m : MultiMap K V) (k : K) (v : V) : Prop := v ∈ m.valuesOf k

instance (m : MultiMap K V) (k : K) (v : V) : Decidable (m.Holds k v) :=
  inferInstanceAs (Decidable (v ∈ m.valuesOf k))

/-- No key is there without a value. -/
def NoEmpty (m : MultiMap K V) : Prop := ∀ (k : K) (s : FinMap V Unit), m[k]? = some s → s ≠ ∅

/-- `entry(k).or_default().insert(v)` -/
def add (m : MultiMap K V) (k : K) (v : V) : MultiMap K V :=
  m.insert k ((m.valuesOf k).insert v ())

/-- Remove a value, and its key when it was the last one. -/
def remove (m : MultiMap K V) (k : K) (v : V) : MultiMap K V :=
  match m[k]? with
  | none => m
  | some s => if (s.erase v).isEmpty then m.erase k else m.insert k (s.erase v)

/-- Remove a value; the key stays. -/
def take (m : MultiMap K V) (k : K) (v : V) : MultiMap K V :=
  match m[k]? with
  | none => m
  | some s => m.insert k (s.erase v)

/-- Remove a key that has no value. -/
def tidy (m : MultiMap K V) (k : K) : MultiMap K V :=
  if (m.valuesOf k).isEmpty then m.erase k else m

section Values

variable (m : MultiMap K V) (k a : K) (v b : V)

theorem valuesOf_insert (s : FinMap V Unit) :
    valuesOf (m.insert k s) a = if k = a then s else m.valuesOf a := by
  unfold valuesOf
  rw [FinMap.getElem?_insert']
  split_ifs <;> rfl

theorem valuesOf_erase : valuesOf (m.erase k) a = if k = a then ∅ else m.valuesOf a := by
  unfold valuesOf
  rw [FinMap.getElem?_erase']
  split_ifs <;> rfl

theorem valuesOf_add :
    (m.add k v).valuesOf a = if k = a then (m.valuesOf k).insert v () else m.valuesOf a :=
  valuesOf_insert m k a _

/-- Removing a value, with its key or without, leaves the same values. -/
theorem valuesOf_remove :
    (m.remove k v).valuesOf a = if k = a then (m.valuesOf k).erase v else m.valuesOf a := by
  unfold remove
  cases h : m[k]? with
  | none =>
    have hk : m.valuesOf k = ∅ := by rw [valuesOf, h, Option.getD_none]
    split_ifs with ha
    · rw [← ha, hk, FinMap.erase_of_getElem?_eq_none rfl]
    · rfl
  | some s =>
    have hk : m.valuesOf k = s := by rw [valuesOf, h, Option.getD_some]
    dsimp only
    split_ifs with he ha ha
    · rw [valuesOf_erase, if_pos ha, hk, ExtTreeMap.isEmpty_iff.mp he]
    · rw [valuesOf_erase, if_neg ha]
    · rw [valuesOf_insert, if_pos ha, hk]
    · rw [valuesOf_insert, if_neg ha]

theorem valuesOf_take :
    (m.take k v).valuesOf a = if k = a then (m.valuesOf k).erase v else m.valuesOf a := by
  unfold take
  cases h : m[k]? with
  | none =>
    have hk : m.valuesOf k = ∅ := by rw [valuesOf, h, Option.getD_none]
    split_ifs with ha
    · rw [← ha, hk, FinMap.erase_of_getElem?_eq_none rfl]
    · rfl
  | some s =>
    have hk : m.valuesOf k = s := by rw [valuesOf, h, Option.getD_some]
    dsimp only
    rw [valuesOf_insert, hk]

theorem valuesOf_tidy : (m.tidy k).valuesOf a = m.valuesOf a := by
  unfold tidy
  split_ifs with he
  · rw [valuesOf_erase]
    split_ifs with ha
    · rw [← ha, ExtTreeMap.isEmpty_iff.mp he]
    · rfl
  · rfl

theorem holds_add : (m.add k v).Holds a b ↔ (k = a ∧ v = b) ∨ m.Holds a b := by
  unfold Holds
  rw [valuesOf_add]
  split_ifs with ha
  · rw [ExtTreeMap.mem_insert, Std.compare_eq_iff_eq, ← ha]
    simp
  · simp [ha]

theorem holds_remove : (m.remove k v).Holds a b ↔ m.Holds a b ∧ ¬ (k = a ∧ v = b) := by
  unfold Holds
  rw [valuesOf_remove]
  split_ifs with ha
  · rw [ExtTreeMap.mem_erase, ← ha]
    simp [and_comm]
  · simp [ha]

theorem holds_take : (m.take k v).Holds a b ↔ m.Holds a b ∧ ¬ (k = a ∧ v = b) := by
  have h := holds_remove m k a v b
  unfold Holds at h ⊢
  rw [valuesOf_take, ← valuesOf_remove]
  exact h

theorem holds_tidy : (m.tidy k).Holds a b ↔ m.Holds a b := by
  unfold Holds
  rw [valuesOf_tidy]

theorem holds_erase : Holds (m.erase k) a b ↔ m.Holds a b ∧ k ≠ a := by
  unfold Holds
  rw [valuesOf_erase]
  split_ifs with ha <;> simp [ha]

end Values

/-! ## No empty sets -/

section NoEmpty

variable {m : MultiMap K V} {k : K} {v : V}

/-- Only this key may be there without a value. -/
def NoEmptyBut (m : MultiMap K V) (k : K) : Prop :=
  ∀ (a : K) (s : FinMap V Unit), m[a]? = some s → k ≠ a → s ≠ ∅

theorem noEmpty_empty : NoEmpty (∅ : MultiMap K V) := by
  intro k s h
  cases h

theorem NoEmpty.but (h : m.NoEmpty) (k : K) : m.NoEmptyBut k := fun a s hs _ => h a s hs

theorem NoEmpty.add (h : m.NoEmpty) (k : K) (v : V) : (m.add k v).NoEmpty := by
  intro a s hs
  unfold MultiMap.add at hs
  rw [FinMap.getElem?_insert'] at hs
  split_ifs at hs with ha
  · cases hs
    exact ExtTreeMap.insert_ne_empty
  · exact h a s hs

theorem NoEmpty.remove (h : m.NoEmpty) (k : K) (v : V) : (m.remove k v).NoEmpty := by
  intro a s hs
  unfold MultiMap.remove at hs
  split at hs
  · exact h a s hs
  · split_ifs at hs with he
    · rw [FinMap.getElem?_erase'] at hs
      split_ifs at hs with ha
      exact h a s hs
    · rw [FinMap.getElem?_insert'] at hs
      split_ifs at hs with ha
      · cases hs
        exact fun hempty => he (ExtTreeMap.isEmpty_iff.mpr hempty)
      · exact h a s hs

theorem NoEmptyBut.take (h : m.NoEmptyBut k) (v : V) : (m.take k v).NoEmptyBut k := by
  intro a s hs hne
  unfold MultiMap.take at hs
  split at hs
  · exact h a s hs hne
  · rw [FinMap.getElem?_insert', if_neg hne] at hs
    exact h a s hs hne

theorem NoEmptyBut.tidy (h : m.NoEmptyBut k) : (m.tidy k).NoEmpty := by
  intro a s hs
  unfold MultiMap.tidy at hs
  split_ifs at hs with he
  · rw [FinMap.getElem?_erase'] at hs
    split_ifs at hs with ha
    exact h a s hs ha
  · by_cases ha : k = a
    · subst ha
      have hk : m.valuesOf k = s := by rw [valuesOf, hs, Option.getD_some]
      rw [hk] at he
      exact fun hempty => he (ExtTreeMap.isEmpty_iff.mpr hempty)
    · exact h a s hs ha

theorem NoEmpty.erase (h : m.NoEmpty) (k : K) : NoEmpty (m.erase k) := by
  intro a s hs
  rw [FinMap.getElem?_erase'] at hs
  split_ifs at hs
  exact h a s hs

/-- A key without a value is not there. -/
theorem NoEmpty.getElem?_eq_none (h : m.NoEmpty) (hk : ∀ v, ¬ m.Holds k v) : m[k]? = none := by
  cases hs : m[k]? with
  | none => rfl
  | some s =>
    have hvalues : m.valuesOf k = s := by rw [valuesOf, hs, Option.getD_some]
    refine absurd ?_ (h k s hs)
    refine FinMap.ext_mem fun v => iff_of_false ?_ ExtTreeMap.not_mem_empty
    intro hv
    apply hk v
    unfold MultiMap.Holds
    rwa [hvalues]

theorem NoEmpty.mem_iff (h : m.NoEmpty) : k ∈ m ↔ ∃ v, m.Holds k v := by
  constructor
  · intro hmem
    by_contra hn
    have hnone := h.getElem?_eq_none fun v hv => hn ⟨v, hv⟩
    obtain ⟨s, hs⟩ := FinMap.mem_iff_getElem?.mp hmem
    rw [hs] at hnone
    cases hnone
  · rintro ⟨v, hv⟩
    cases hs : m[k]? with
    | none =>
      unfold MultiMap.Holds MultiMap.valuesOf at hv
      rw [hs, Option.getD_none] at hv
      exact absurd hv ExtTreeMap.not_mem_empty
    | some s => exact FinMap.mem_iff_getElem?.mpr ⟨s, hs⟩

theorem size_valuesOf_pos : 0 < (m.valuesOf k).size ↔ ∃ v, m.Holds k v := by
  rw [Nat.pos_iff_ne_zero, Ne, ← ExtTreeMap.eq_empty_iff_size_eq_zero]
  constructor
  · intro hne
    by_contra hn
    exact hne (FinMap.ext_mem fun v =>
      iff_of_false (fun hv => hn ⟨v, hv⟩) ExtTreeMap.not_mem_empty)
  · rintro ⟨v, hv⟩ hempty
    unfold MultiMap.Holds at hv
    rw [hempty] at hv
    exact ExtTreeMap.not_mem_empty hv

end NoEmpty

/-! ## Pairs -/

/-- The pairs of a key and a value of it. -/
def pairs (m : MultiMap K V) : List (K × V) :=
  m.toList.flatMap fun e => e.2.keys.map fun v => (e.1, v)

section Pairs

variable {m : MultiMap K V}

theorem mem_pairs {k : K} {v : V} : (k, v) ∈ m.pairs ↔ m.Holds k v := by
  unfold pairs Holds valuesOf
  rw [List.mem_flatMap]
  constructor
  · rintro ⟨⟨a, s⟩, hs, hv⟩
    obtain ⟨b, hb, heq⟩ := List.mem_map.mp hv
    cases heq
    rw [ExtTreeMap.mem_toList_iff_getElem?_eq_some] at hs
    rw [hs, Option.getD_some]
    exact ExtTreeMap.mem_keys.mp hb
  · intro h
    cases hs : m[k]? with
    | none =>
      rw [hs, Option.getD_none] at h
      exact absurd h ExtTreeMap.not_mem_empty
    | some s =>
      rw [hs, Option.getD_some] at h
      exact ⟨(k, s), ExtTreeMap.mem_toList_iff_getElem?_eq_some.mpr hs,
        List.mem_map.mpr ⟨v, ExtTreeMap.mem_keys.mpr h, rfl⟩⟩

theorem nodup_pairs (m : MultiMap K V) : m.pairs.Nodup := by
  unfold pairs
  rw [List.nodup_flatMap]
  constructor
  · intro e _
    refine List.Nodup.map ?_ ExtTreeMap.nodup_keys
    intro v v' h
    cases h
    rfl
  · have hkeys := FinMap.nodup_fst_toList m
    rw [List.Nodup, List.pairwise_map] at hkeys
    refine hkeys.imp fun hne => ?_
    rw [Function.onFun, List.disjoint_left]
    intro p hp hp'
    obtain ⟨_, -, rfl⟩ := List.mem_map.mp hp
    obtain ⟨_, -, heq⟩ := List.mem_map.mp hp'
    exact hne (congrArg Prod.fst heq).symm

/-- The pairs of a key are as many as its values. -/
theorem length_pairs_filter_fst (m : MultiMap K V) (k : K) :
    (m.pairs.filter fun p => p.1 = k).length = (m.valuesOf k).size := by
  have hperm : (m.pairs.filter fun p => p.1 = k).Perm ((m.valuesOf k).keys.map fun v => (k, v)) := by
    refine (List.perm_ext_iff_of_nodup ((nodup_pairs m).filter _) ?_).mpr ?_
    · refine List.Nodup.map ?_ ExtTreeMap.nodup_keys
      intro v v' h
      cases h
      rfl
    · rintro ⟨a, v⟩
      rw [List.mem_filter, mem_pairs, List.mem_map, decide_eq_true_eq]
      constructor
      · rintro ⟨h, rfl⟩
        exact ⟨v, ExtTreeMap.mem_keys.mpr h, rfl⟩
      · rintro ⟨b, hb, heq⟩
        cases heq
        exact ⟨ExtTreeMap.mem_keys.mp hb, rfl⟩
  rw [hperm.length_eq, List.length_map, ExtTreeMap.length_keys]

/-- Sizes added up over the keys of a walk that are kept. -/
theorem sum_size_walk (m : MultiMap K V) (o : FinMap.WalkOrder) (keep : K → Bool) :
    (((m.walk o).filter fun e => keep e.1).map fun e => e.2.size).sum =
      (m.pairs.filter fun p => keep p.1).length := by
  have hwalk := (((FinMap.walk_perm o m).filter fun e => keep e.1).map fun e => e.2.size).sum_nat
  rw [hwalk]
  unfold pairs
  induction m.toList with
  | nil => rfl
  | cons e l ih =>
    rw [List.flatMap_cons, List.filter_append, List.length_append, ← ih, List.filter_cons,
      List.filter_map]
    cases hk : keep e.1 with
    | true =>
      rw [if_pos rfl, List.map_cons, List.sum_cons]
      simp [Function.comp_def, hk]
    | false => simp [Function.comp_def, hk]

end Pairs

end MultiMap

/-! ## Two ways -/

/-- A relation between `A` and `B`, from both sides. -/
structure TwoWay (A B : Type) [Ord A] [Ord B] where
  forth : MultiMap A B
  back : MultiMap B A

namespace TwoWay

variable {A B : Type} [Ord A] [TransOrd A] [LawfulEqOrd A] [DecidableEq A]
  [Ord B] [TransOrd B] [LawfulEqOrd B] [DecidableEq B]

/-- Relates nothing. -/
def empty : TwoWay A B := ⟨∅, ∅⟩

/-- Relate two elements. -/
def link (t : TwoWay A B) (a : A) (b : B) : TwoWay A B := ⟨t.forth.add a b, t.back.add b a⟩

/-- Part two elements; the first one may stay with nothing. -/
def unlink (t : TwoWay A B) (a : A) (b : B) : TwoWay A B := ⟨t.forth.take a b, t.back.remove b a⟩

/-- Remove an element that is related to nothing. -/
def tidy (t : TwoWay A B) (a : A) : TwoWay A B := { t with forth := t.forth.tidy a }

/-- Part an element from everything. -/
def unlinkAll (t : TwoWay A B) (o : FinMap.WalkOrder) (a : A) : TwoWay A B where
  forth := t.forth.erase a
  back := ((t.forth.valuesOf a).walk o).foldl (fun m b => m.remove b.1 a) t.back

/-- The two maps say the same, and neither has an empty set. -/
structure Coherent (t : TwoWay A B) : Prop where
  inverse : ∀ a b, t.back.Holds b a ↔ t.forth.Holds a b
  forth : t.forth.NoEmpty
  back : t.back.NoEmpty

/-- The two maps say the same, and only the element may be left with an empty set. -/
structure CoherentBut (t : TwoWay A B) (a : A) : Prop where
  inverse : ∀ a b, t.back.Holds b a ↔ t.forth.Holds a b
  forth : t.forth.NoEmptyBut a
  back : t.back.NoEmpty

variable {t : TwoWay A B}

theorem coherent_empty : (empty : TwoWay A B).Coherent := by
  refine ⟨fun a b => ?_, MultiMap.noEmpty_empty, MultiMap.noEmpty_empty⟩
  exact iff_of_false ExtTreeMap.not_mem_empty ExtTreeMap.not_mem_empty

theorem Coherent.but (h : t.Coherent) (a : A) : t.CoherentBut a :=
  ⟨h.inverse, h.forth.but a, h.back⟩

theorem Coherent.link (h : t.Coherent) (a : A) (b : B) : (t.link a b).Coherent := by
  refine ⟨fun a' b' => ?_, h.forth.add a b, h.back.add b a⟩
  show (t.back.add b a).Holds b' a' ↔ (t.forth.add a b).Holds a' b'
  rw [MultiMap.holds_add, MultiMap.holds_add, h.inverse, and_comm]

theorem CoherentBut.unlink {a : A} (h : t.CoherentBut a) (b : B) :
    (t.unlink a b).CoherentBut a := by
  refine ⟨fun a' b' => ?_, h.forth.take b, h.back.remove b a⟩
  show (t.back.remove b a).Holds b' a' ↔ (t.forth.take a b).Holds a' b'
  rw [MultiMap.holds_remove, MultiMap.holds_take, h.inverse, and_comm (a := b = b')]

theorem CoherentBut.tidy {a : A} (h : t.CoherentBut a) : (t.tidy a).Coherent := by
  refine ⟨fun a' b' => ?_, h.forth.tidy, h.back⟩
  show t.back.Holds b' a' ↔ (t.forth.tidy a).Holds a' b'
  rw [MultiMap.holds_tidy, h.inverse]

/-- Removing an element from the sets of several others. -/
theorem foldl_remove {m : MultiMap B A} (hm : m.NoEmpty) (a : A) (l : List (B × Unit)) :
    (l.foldl (fun m b => m.remove b.1 a) m).NoEmpty ∧ ∀ b' a',
      (l.foldl (fun m b => m.remove b.1 a) m).Holds b' a' ↔
        m.Holds b' a' ∧ ¬ (a = a' ∧ b' ∈ l.map Prod.fst) := by
  induction l generalizing m with
  | nil => exact ⟨hm, fun b' a' => by simp⟩
  | cons p l ih =>
    obtain ⟨hempty, hholds⟩ := ih (hm.remove p.1 a)
    refine ⟨hempty, fun b' a' => ?_⟩
    rw [List.foldl_cons, hholds, MultiMap.holds_remove, List.map_cons, List.mem_cons, and_assoc,
      eq_comm (a := p.1)]
    tauto

theorem Coherent.unlinkAll (h : t.Coherent) (o : FinMap.WalkOrder) (a : A) :
    (t.unlinkAll o a).Coherent := by
  obtain ⟨hempty, hholds⟩ := foldl_remove h.back a ((t.forth.valuesOf a).walk o)
  refine ⟨fun a' b' => ?_, h.forth.erase a, hempty⟩
  have hwalk : b' ∈ ((t.forth.valuesOf a).walk o).map Prod.fst ↔ t.forth.Holds a b' := by
    rw [List.mem_map]
    constructor
    · rintro ⟨⟨b, u⟩, hb, rfl⟩
      exact FinMap.mem_iff_getElem?.mpr ⟨u, (FinMap.mem_walk o).mp hb⟩
    · intro hb
      obtain ⟨u, hu⟩ := FinMap.mem_iff_getElem?.mp hb
      exact ⟨(b', u), (FinMap.mem_walk o).mpr hu, rfl⟩
  show (((t.forth.valuesOf a).walk o).foldl (fun m b => m.remove b.1 a) t.back).Holds b' a' ↔
    MultiMap.Holds (t.forth.erase a) a' b'
  rw [hholds, hwalk, MultiMap.holds_erase, h.inverse]
  constructor
  · rintro ⟨hb, hn⟩
    exact ⟨hb, fun ha => hn ⟨ha, ha ▸ hb⟩⟩
  · rintro ⟨hb, hn⟩
    exact ⟨hb, fun hx => hn hx.1⟩

/-- On the other side are those that something is related to. -/
theorem Coherent.mem_back (h : t.Coherent) {b : B} : b ∈ t.back ↔ ∃ a, t.forth.Holds a b := by
  rw [h.back.mem_iff]
  exact exists_congr fun a => h.inverse a b

theorem Coherent.size_back_pos (h : t.Coherent) {b : B} :
    0 < (t.back.valuesOf b).size ↔ ∃ a, t.forth.Holds a b := by
  rw [MultiMap.size_valuesOf_pos]
  exact exists_congr fun a => h.inverse a b

/-- Seen from the other side, the pairs are the same. -/
theorem Coherent.pairs_perm (h : t.Coherent) :
    t.back.pairs.Perm (t.forth.pairs.map Prod.swap) := by
  refine (List.perm_ext_iff_of_nodup (MultiMap.nodup_pairs _) ?_).mpr ?_
  · exact (MultiMap.nodup_pairs _).map Prod.swap_injective
  · rintro ⟨b, a⟩
    rw [MultiMap.mem_pairs, h.inverse, ← MultiMap.mem_pairs, List.mem_map]
    constructor
    · intro hp
      exact ⟨(a, b), hp, rfl⟩
    · rintro ⟨⟨a', b'⟩, hp, heq⟩
      cases heq
      exact hp

/-- What is counted by the second elements can be counted on either side. -/
theorem Coherent.length_filter (h : t.Coherent) (keep : B → Bool) :
    (t.back.pairs.filter fun p => keep p.1).length =
      (t.forth.pairs.filter fun p => keep p.2).length := by
  rw [(h.pairs_perm.filter _).length_eq, List.filter_map, List.length_map]
  rfl

end TwoWay
