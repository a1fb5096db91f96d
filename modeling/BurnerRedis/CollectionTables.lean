import BurnerRedis.Collections

/-!
# Containers as tables

What the functions of the store on one hash, set or sorted set do to its table, and how their counts
and lists read there.
-/

namespace BurnerRedis

/-! ## Hashes and sets -/

namespace Store

/-- HSET files each field under its last value. -/
theorem table_setFields (map : FinMap Bytes Bytes) (fields : List (Bytes × Bytes)) :
    FinMap.table (setFields map fields).1 = map.table.putAll fields :=
  (FinMap.foldl_insert_counted fields map 0).1

theorem setFields_count (map : FinMap Bytes Bytes) (fields : List (Bytes × Bytes)) :
    (setFields map fields).2 =
      (FinMap.table (setFields map fields).1).card - (map.table.card : ℤ) := by
  have h : (setFields map fields).2 - (setFields map fields).1.size = 0 - map.size :=
    (FinMap.foldl_insert_counted fields map 0).2
  rw [FinMap.card_table, FinMap.card_table]
  omega

theorem addAll_eq (set : FinMap Bytes Unit) (members : List Bytes) :
    addAll set members = (members.map (·, ())).foldl
      (fun r p => (r.1.insert p.1 p.2, if p.1 ∈ r.1 then r.2 else r.2 + 1)) (set, 0) := by
  rw [List.foldl_map]
  rfl

theorem table_addAll (set : FinMap Bytes Unit) (members : List Bytes) :
    FinMap.table (addAll set members).1 = set.table.putAll (members.map (·, ())) := by
  rw [addAll_eq]
  exact (FinMap.foldl_insert_counted _ set 0).1

theorem addAll_count (set : FinMap Bytes Unit) (members : List Bytes) :
    (addAll set members).2 = (FinMap.table (addAll set members).1).card - (set.table.card : ℤ) := by
  have h : (addAll set members).2 - (addAll set members).1.size = 0 - set.size := by
    rw [addAll_eq]
    exact (FinMap.foldl_insert_counted _ set 0).2
  rw [FinMap.card_table, FinMap.card_table]
  omega

/-- Fields that are taken out are filed nowhere. -/
theorem table_removeAll {V : Type} (map : FinMap Bytes V) (keys : List Bytes) :
    FinMap.table (removeAll map keys).1 = map.table.without keys :=
  (FinMap.foldl_erase_counted keys map 0).1

theorem removeAll_count {V : Type} (map : FinMap Bytes V) (keys : List Bytes) :
    (removeAll map keys).2 = map.table.card - ((FinMap.table (removeAll map keys).1).card : ℤ) := by
  have h : (removeAll map keys).2 + (removeAll map keys).1.size = 0 + map.size :=
    (FinMap.foldl_erase_counted keys map 0).2
  rw [FinMap.card_table, FinMap.card_table]
  omega

end Store

/-! ## Sorted sets -/

section SortedSets

variable {S : Type} [LinearOrder S]

namespace SortedSet

variable {z : SortedSet S}

/-- The scores of the members. -/
def scores (z : SortedSet S) : Table Bytes S := z.byMember.table

theorem card_scores (z : SortedSet S) : z.scores.card = z.len := FinMap.card_table _

theorem scores_lists (z : SortedSet S) : z.scores.Lists (z.byMember.walk .byKey) :=
  FinMap.lists_table _ _

/-- The members that are taken out have no score. -/
theorem scores_removeAll (z : SortedSet S) (ms : List Bytes) :
    (z.removeAll ms).1.scores = z.scores.without ms := by
  funext m
  refine (byMember_removeAll z ms m).trans ?_
  unfold Table.without
  split_ifs <;> rfl

theorem len_remove (z : SortedSet S) (m : Bytes) :
    ((z.remove m).1.len : ℤ) = z.len - if (z.remove m).2 then 1 else 0 := by
  unfold remove
  cases hm : z.byMember[m]? with
  | none => exact (sub_zero _).symm
  | some s =>
    have hmem : m ∈ z.byMember := FinMap.mem_iff_getElem?.mpr ⟨s, hm⟩
    have h := FinMap.size_erase' z.byMember m
    rw [if_pos hmem] at h
    exact h

theorem removeAll_count (z : SortedSet S) (ms : List Bytes) :
    (z.removeAll ms).2 = z.scores.card - ((z.removeAll ms).1.scores.card : ℤ) := by
  rw [card_scores, card_scores]
  have h : ∀ (ms : List Bytes) (z : SortedSet S) (n : ℤ),
      let r := ms.foldl (fun r m => ((r.1.remove m).1, if (r.1.remove m).2 then r.2 + 1 else r.2))
        (z, n)
      r.2 + r.1.len = n + z.len := by
    intro ms
    induction ms with
    | nil => exact fun _ _ => rfl
    | cons m ms ih =>
      intro z n
      refine (ih (z.remove m).1 _).trans ?_
      rw [len_remove]
      split_ifs <;> ring
  have h0 : (z.removeAll ms).2 + (z.removeAll ms).1.len = 0 + z.len := h ms z 0
  omega

end SortedSet

/-- A ranking is a list of its table. -/
theorem Ranking.lists {t : Table Bytes S} {l : List (ScoredMember S)} (h : Ranking t l) :
    t.Lists (l.map fun p => (p.member, p.score)) where
  nodup := by
    rw [List.map_map]
    refine List.Nodup.map_on (fun p hp q hq hpq => ?_) ?_
    · have hp' := (h.mem p).mp hp
      rw [show p.member = q.member from hpq, (h.mem q).mp hq, Option.some.injEq] at hp'
      obtain ⟨s, m⟩ := p
      obtain ⟨s', m'⟩ := q
      rw [show s' = s from hp', show m = m' from hpq]
    · refine h.ordered.imp fun {a b} hab heq => ?_
      rw [heq] at hab
      exact ScoredMember.below_asymm hab hab
  mem k v := by
    rw [List.mem_map, ← h.mem ⟨v, k⟩]
    constructor
    · rintro ⟨p, hp, hpk⟩
      cases hpk
      exact hp
    · exact fun hp => ⟨_, hp, rfl⟩

theorem Ranking.card_eq {t : Table Bytes S} {l : List (ScoredMember S)} (h : Ranking t l) :
    t.card = l.length := by
  rw [h.lists.card_eq, List.length_map]

/-- The score index ranks the scores. -/
theorem SortedSet.Coherent.ranking {z : SortedSet S} (h : z.Coherent) :
    Ranking z.scores z.byScore.keys where
  ordered := z.pairwise_keys_byScore
  mem p := by
    rw [Std.ExtTreeMap.mem_keys]
    exact h p.score p.member

theorem SortedSet.Coherent.ranking_between {z : SortedSet S} (h : z.Coherent) (min max : S) :
    Ranking (scoredBetween z.scores min max) (z.byScoreRange min max) where
  ordered := (h.lists_byScoreRange min max).ordered
  mem p := by
    rw [(h.lists_byScoreRange min max).mem, scoredBetween, Table.keep_eq_some]
    rfl

/-- What is left when the members of a range of scores are removed. -/
theorem SortedSet.Coherent.scores_removeRange {z : SortedSet S} (h : z.Coherent) (min max : S) :
    (z.removeAll ((z.byScoreRange min max).map ScoredMember.member)).1.scores =
      z.scores.keep fun s => ¬ (min ≤ s ∧ s ≤ max) := by
  funext m
  ext s
  rw [Table.keep_eq_some]
  exact (h.lists_byScoreRange min max).byMember_removeAll m s

theorem SortedSet.Coherent.card_removeRange {z : SortedSet S} (h : z.Coherent) (min max : S) :
    ((z.byScoreRange min max).length : ℤ) =
      z.scores.card - ((z.scores.keep fun s => ¬ (min ≤ s ∧ s ≤ max)).card : ℤ) := by
  have hcard := z.scores_lists.card_keep fun s => min ≤ s ∧ s ≤ max
  have hlen : (z.scores.keep fun s => min ≤ s ∧ s ≤ max).card = (z.byScoreRange min max).length :=
    (h.ranking_between min max).card_eq
  omega

/-- ZRANGESTORE builds the set of the pairs in range. -/
theorem SortedSet.Coherent.scores_insertRange {z : SortedSet S} (h : z.Coherent) (min max : S) :
    (SortedSet.insertAll .new (z.byScoreRange min max)).scores =
      scoredBetween z.scores min max := by
  funext m
  ext s
  have hl := h.lists_byScoreRange min max
  have hnew : (SortedSet.insertAll .new (z.byScoreRange min max)).byMember[m]? = some s ↔
      ⟨s, m⟩ ∈ z.byScoreRange min max := by
    rw [SortedSet.byMember_insertAll_of_nodup hl.nodup]
    simp [SortedSet.new]
  exact hnew.trans ((h.ranking_between min max).mem ⟨s, m⟩)

/-! ## ZADD -/

namespace Store

theorem scores_zaddStep (fl : ZaddFlags) (st : ZaddState S) (p : S × Bytes) :
    (zaddStep fl st p).zset.scores = zaddPair fl st.zset.scores p := by
  funext m
  rw [zaddPair, Function.update_apply]
  refine (byMember_zaddStep fl st p m).trans ?_
  simp only [eq_comm]
  split_ifs with hm
  · rw [hm]
    rfl
  · rfl

/-- ZADD gives the scores that its flags make of the old ones. -/
theorem scores_foldl_zaddStep (fl : ZaddFlags) (pairs : List (S × Bytes)) (st : ZaddState S) :
    (pairs.foldl (zaddStep fl) st).zset.scores = pairs.foldl (zaddPair fl) st.zset.scores := by
  induction pairs generalizing st with
  | nil => rfl
  | cons p pairs ih => rw [List.foldl_cons, ih, scores_zaddStep, List.foldl_cons]

theorem changed_foldl_zaddStep (fl : ZaddFlags) (pairs : List (S × Bytes)) (st : ZaddState S) :
    (pairs.foldl (zaddStep fl) st).changed =
      st.changed + zaddChanges fl st.zset.scores pairs := by
  induction pairs generalizing st with
  | nil => exact (add_zero _).symm
  | cons p pairs ih =>
    rw [List.foldl_cons, ih, scores_zaddStep, zaddChanges, ← add_assoc]
    congr 1
    obtain ⟨s, m⟩ := p
    rcases zaddStep_cases fl st s m with ⟨hsame, hst⟩ | ⟨hnew, hne, hst⟩
    · have hscore : newScore fl (st.zset.scores m) s = st.zset.scores m := hsame
      rw [hst, if_pos hscore, add_zero]
    · have hscore : newScore fl (st.zset.scores m) s ≠ st.zset.scores m :=
        fun h => hne (h.symm.trans hnew)
      rw [hst, if_neg hscore]

end Store

end SortedSets

end BurnerRedis
