import BurnerRedis.LiveValues
import BurnerRedis.ScoreRanges
import BurnerRedis.Store.SortedSets

/-!
# The laws of ZADD

What ZADD does to a member is what its listed scores, one after the other, do to its old score
(`newScore`). With GT or LT alone that is to keep the best, so neither the order of the list nor a
second call matters.
-/

namespace BurnerRedis

namespace Store

/-! ## One member -/

section Listed

variable {S : Type}

/-- The scores listed for a member. -/
def scoresOf (m : Bytes) (members : List (S × Bytes)) : List S :=
  (members.filter fun p => decide (p.2 = m)).map Prod.fst

theorem mem_scoresOf {m : Bytes} {members : List (S × Bytes)} {s : S} :
    s ∈ scoresOf m members ↔ (s, m) ∈ members := by
  unfold scoresOf
  simp

theorem scoresOf_cons (m : Bytes) (pair : S × Bytes) (members : List (S × Bytes)) :
    scoresOf m (pair :: members) =
      if pair.2 = m then pair.1 :: scoresOf m members else scoresOf m members := by
  unfold scoresOf
  rw [List.filter_cons]
  by_cases hm : pair.2 = m
  · rw [if_pos (decide_eq_true hm), if_pos hm, List.map_cons]
  · rw [if_neg (by simpa using hm), if_neg hm]

end Listed

variable {S : Type} [LinearOrder S]

/-- What one listed score makes of the score of a member. -/
def newScore (fl : ZaddFlags) : Option S → S → Option S
  | some old, s =>
    if fl.nx || fl.gt && decide (s ≤ old) || fl.lt && decide (old ≤ s) then some old else some s
  | none, s => if fl.xx then none else some s

section Step

variable {fl : ZaddFlags} {st : ZaddState S} {members : List (S × Bytes)}

/-- One pair leaves everything, or puts its score in and counts it. -/
theorem zaddStep_cases (fl : ZaddFlags) (st : ZaddState S) (s : S) (m : Bytes) :
    newScore fl st.zset.byMember[m]? s = st.zset.byMember[m]? ∧ zaddStep fl st (s, m) = st ∨
    newScore fl st.zset.byMember[m]? s = some s ∧ st.zset.byMember[m]? ≠ some s ∧
      zaddStep fl st (s, m) = ⟨(st.zset.insert m s).1,
        st.added + (if st.zset.byMember[m]?.isNone then 1 else 0), st.changed + 1⟩ := by
  unfold zaddStep newScore
  dsimp only
  cases hold : st.zset.byMember[m]? with
  | none =>
    dsimp only
    cases fl.xx with
    | true => exact .inl ⟨rfl, rfl⟩
    | false => exact .inr ⟨rfl, by simp, rfl⟩
  | some old =>
    dsimp only
    by_cases hskip : (fl.nx || fl.gt && decide (s ≤ old) || fl.lt && decide (old ≤ s)) = true
    · left
      rw [if_pos hskip]
      refine ⟨rfl, ?_⟩
      grind
    · rw [if_neg hskip]
      by_cases hs : s = old
      · left
        rw [hs]
        refine ⟨rfl, ?_⟩
        grind
      · right
        refine ⟨rfl, ?_, ?_⟩
        · grind
        · grind

/-- A pair changes its own member only. -/
theorem byMember_zaddStep (fl : ZaddFlags) (st : ZaddState S) (pair : S × Bytes) (m : Bytes) :
    (zaddStep fl st pair).zset.byMember[m]? =
      if pair.2 = m then newScore fl st.zset.byMember[m]? pair.1 else st.zset.byMember[m]? := by
  obtain ⟨s, m'⟩ := pair
  dsimp only
  rcases zaddStep_cases fl st s m' with ⟨hnew, hst⟩ | ⟨hnew, -, hst⟩
  · rw [hst]
    split_ifs with hm
    · rw [← hm, hnew]
    · rfl
  · rw [hst, SortedSet.byMember_insert, FinMap.getElem?_insert']
    split_ifs with hm
    · rw [← hm, hnew]
    · rfl

theorem byMember_foldl_zaddStep (fl : ZaddFlags) (members : List (S × Bytes)) (st : ZaddState S)
    (m : Bytes) :
    (members.foldl (zaddStep fl) st).zset.byMember[m]? =
      (scoresOf m members).foldl (newScore fl) st.zset.byMember[m]? := by
  induction members generalizing st with
  | nil => rfl
  | cons pair members ih =>
    rw [List.foldl_cons, ih, byMember_zaddStep, scoresOf_cons]
    split_ifs <;> rfl

/-- A pair that would leave the score of its member as it is leaves everything. -/
theorem zaddStep_eq_self {s : S} {m : Bytes}
    (h : newScore fl st.zset.byMember[m]? s = st.zset.byMember[m]?) :
    zaddStep fl st (s, m) = st := by
  rcases zaddStep_cases fl st s m with ⟨-, hst⟩ | ⟨hnew, hne, -⟩
  · exact hst
  · rw [hnew] at h
    exact absurd h.symm hne

theorem foldl_zaddStep_eq_self
    (h : ∀ p ∈ members, newScore fl st.zset.byMember[p.2]? p.1 = st.zset.byMember[p.2]?) :
    members.foldl (zaddStep fl) st = st := by
  induction members with
  | nil => rfl
  | cons pair members ih =>
    rw [List.foldl_cons, zaddStep_eq_self (h pair List.mem_cons_self)]
    exact ih fun p hp => h p (List.mem_cons_of_mem pair hp)

/-- What is counted as added is what the set grows by. -/
theorem added_zaddStep (fl : ZaddFlags) (st : ZaddState S) (pair : S × Bytes) :
    (zaddStep fl st pair).added - (zaddStep fl st pair).zset.len = st.added - st.zset.len := by
  obtain ⟨s, m⟩ := pair
  rcases zaddStep_cases fl st s m with ⟨-, hst⟩ | ⟨-, -, hst⟩
  · rw [hst]
  · have hsize := Std.ExtTreeMap.size_insert (t := st.zset.byMember) (k := m) (v := s)
    rw [hst]
    show st.added + _ - ((st.zset.insert m s).1.byMember.size : ℤ) = st.added - st.zset.len
    rw [SortedSet.byMember_insert, hsize, SortedSet.len]
    by_cases hm : m ∈ st.zset.byMember
    · obtain ⟨old, hold⟩ := FinMap.mem_iff_getElem?.mp hm
      rw [if_pos (Std.ExtTreeMap.mem_iff_contains.mp hm), hold, Option.isNone_some, if_neg Bool.false_ne_true]
      omega
    · rw [if_neg (mt Std.ExtTreeMap.mem_iff_contains.mpr hm), FinMap.not_mem_iff_getElem?.mp hm,
        Option.isNone_none, if_pos rfl]
      omega

theorem added_foldl_zaddStep (fl : ZaddFlags) (members : List (S × Bytes)) (st : ZaddState S) :
    (members.foldl (zaddStep fl) st).added - (members.foldl (zaddStep fl) st).zset.len =
      st.added - st.zset.len := by
  induction members generalizing st with
  | nil => rfl
  | cons pair members ih => rw [List.foldl_cons, ih, added_zaddStep]

end Step

/-! ## The best score -/

/-- With these flags a new score replaces one that it beats, and no other: `r a b` is that `b` beats
`a` or is equal to it. -/
def PicksBest (fl : ZaddFlags) (r : S → S → Prop) : Prop :=
  ∀ old s, newScore fl (some old) s = some old ∧ r s old ∨ newScore fl (some old) s = some s ∧ r old s

/-- The element of the set that no other beats. -/
def IsBest (r : S → S → Prop) (A : Set S) (t : S) : Prop := t ∈ A ∧ ∀ x ∈ A, r x t

section Best

variable {fl : ZaddFlags} {r : S → S → Prop}

theorem picksBest_gt (hgt : fl.gt = true) (hnx : fl.nx = false) (hlt : fl.lt = false) :
    PicksBest fl (fun a b : S => a ≤ b) := by
  intro old s
  unfold newScore
  rw [hgt, hnx, hlt]
  rcases le_total s old with h | h <;> grind

theorem picksBest_lt (hlt : fl.lt = true) (hnx : fl.nx = false) (hgt : fl.gt = false) :
    PicksBest fl (fun a b : S => b ≤ a) := by
  intro old s
  unfold newScore
  rw [hgt, hnx, hlt]
  rcases le_total s old with h | h <;> grind

theorem newScore_eq_none_iff {old : Option S} {s : S} :
    newScore fl old s = none ↔ old = none ∧ fl.xx = true := by
  unfold newScore
  cases old with
  | none => simp
  | some old =>
    dsimp only
    split_ifs <;> simp

/-- A member stays away only if nothing is listed for it or XX is given. -/
theorem foldl_newScore_eq_none_iff {old : Option S} {ss : List S} :
    ss.foldl (newScore fl) old = none ↔ old = none ∧ (fl.xx = true ∨ ss = []) := by
  induction ss generalizing old with
  | nil => simp
  | cons s ss ih =>
    rw [List.foldl_cons, ih, newScore_eq_none_iff]
    simp
    tauto

/-- A member that is there in the end has the best of its old and its listed scores. -/
theorem foldl_newScore_best [Std.Refl r] [IsTrans S r] (hp : PicksBest fl r) {old : Option S}
    {ss : List S} {t : S} (h : ss.foldl (newScore fl) old = some t) :
    IsBest r {x | old = some x ∨ x ∈ ss} t := by
  induction ss using List.reverseRecOn generalizing t with
  | nil =>
    refine ⟨.inl h, ?_⟩
    rintro x (hx | hx)
    · rw [List.foldl_nil, hx, Option.some.injEq] at h
      rw [h]
      exact refl t
    · cases hx
  | append_singleton ss s ih =>
    rw [List.foldl_append, List.foldl_cons, List.foldl_nil] at h
    cases hss : ss.foldl (newScore fl) old with
    | none =>
      obtain ⟨rfl, hxx⟩ := foldl_newScore_eq_none_iff.mp hss
      rw [hss] at h
      unfold newScore at h
      split_ifs at h with hx
      obtain rfl := hxx.resolve_left hx
      obtain rfl : s = t := Option.some.inj h
      refine ⟨.inr List.mem_cons_self, ?_⟩
      rintro x (hx | hx)
      · cases hx
      · rw [List.mem_singleton.mp hx]
        exact refl s
    | some u =>
      obtain ⟨hu, hbest⟩ := ih hss
      rw [hss] at h
      rcases hp u s with ⟨hnew, hr⟩ | ⟨hnew, hr⟩
      · -- the new score does not beat the best so far
        obtain rfl : u = t := Option.some.inj (hnew.symm.trans h)
        refine ⟨hu.imp_right (List.mem_append_left _), ?_⟩
        rintro x (hx | hx)
        · exact hbest x (.inl hx)
        · rcases List.mem_append.mp hx with hx | hx
          · exact hbest x (.inr hx)
          · rw [List.mem_singleton.mp hx]
            exact hr
      · obtain rfl : s = t := Option.some.inj (hnew.symm.trans h)
        refine ⟨.inr (List.mem_append_right _ List.mem_cons_self), ?_⟩
        rintro x (hx | hx)
        · exact trans_of r (hbest x (.inl hx)) hr
        · rcases List.mem_append.mp hx with hx | hx
          · exact trans_of r (hbest x (.inr hx)) hr
          · rw [List.mem_singleton.mp hx]
            exact refl s

omit [LinearOrder S] in
/-- There is one best element. -/
theorem IsBest.unique [Std.Antisymm r] {A : Set S} {t u : S} (ht : IsBest r A t)
    (hu : IsBest r A u) : t = u :=
  antisymm (hu.2 t ht.1) (ht.2 u hu.1)

/-- The order in which scores are listed does not matter. -/
theorem foldl_newScore_perm [Std.Refl r] [IsTrans S r] [Std.Antisymm r] (hp : PicksBest fl r)
    {old : Option S} {ss ss' : List S} (h : ss.Perm ss') :
    ss.foldl (newScore fl) old = ss'.foldl (newScore fl) old := by
  have hnil : ss = [] ↔ ss' = [] := by
    rw [← List.length_eq_zero_iff, ← List.length_eq_zero_iff, h.length_eq]
  have hnone : ss.foldl (newScore fl) old = none ↔ ss'.foldl (newScore fl) old = none := by
    rw [foldl_newScore_eq_none_iff, foldl_newScore_eq_none_iff, hnil]
  cases hss : ss.foldl (newScore fl) old with
  | none => exact (hnone.mp hss).symm
  | some t =>
    cases hss' : ss'.foldl (newScore fl) old with
    | none =>
      rw [hnone.mpr hss'] at hss
      cases hss
    | some u =>
      have ht := foldl_newScore_best hp hss
      have hu := foldl_newScore_best hp hss'
      simp only [h.mem_iff] at ht
      rw [ht.unique hu]

/-- Once the best is there, no listed score changes it. -/
theorem newScore_foldl_of_mem [Std.Refl r] [IsTrans S r] [Std.Antisymm r] (hp : PicksBest fl r)
    {old : Option S} {ss : List S} {s : S} (hs : s ∈ ss) :
    newScore fl (ss.foldl (newScore fl) old) s = ss.foldl (newScore fl) old := by
  cases hss : ss.foldl (newScore fl) old with
  | none =>
    obtain ⟨-, hxx⟩ := foldl_newScore_eq_none_iff.mp hss
    rw [newScore_eq_none_iff]
    exact ⟨rfl, hxx.resolve_right (List.ne_nil_of_mem hs)⟩
  | some t =>
    have hbest := (foldl_newScore_best hp hss).2 s (.inr hs)
    rcases hp t s with ⟨hnew, -⟩ | ⟨hnew, hr⟩
    · exact hnew
    · rw [hnew, antisymm hbest hr]

end Best

end Store

/-! ## Sets under a key -/

variable {S : Type} [LinearOrder S]

/-- Sets with the same scores have the same index. -/
theorem SortedSet.Coherent.eq_of_byMember {z z' : SortedSet S} (h : z.Coherent) (h' : z'.Coherent)
    (hm : ∀ m : Bytes, z.byMember[m]? = z'.byMember[m]?) : z = z' := by
  obtain ⟨byScore, byMember⟩ := z
  obtain ⟨byScore', byMember'⟩ := z'
  obtain rfl : byMember = byMember' := Std.ExtTreeMap.ext_getElem? hm
  congr 1
  apply FinMap.ext_mem
  rintro ⟨s, m⟩
  exact (h s m).trans (h' s m).symm

theorem SortedSet.Coherent.eq_new_of_len {z : SortedSet S} (h : z.Coherent) (hlen : z.len = 0) :
    z = .new := by
  apply h.eq_of_byMember SortedSet.coherent_new
  intro m
  rw [SortedSet.len_eq_zero_iff_forall.mp hlen m]
  exact Std.ExtTreeMap.getElem?_empty.symm

/-- The key with that set, or gone if the set is empty. -/
def putSet (key : Bytes) (exp : Option Instant) (z : SortedSet S) (d : Data S) : Data S :=
  if z.len = 0 then d.erase key else d.insert key ⟨.sortedSet z, exp⟩

theorem removeIfEmpty_putSet (key : Bytes) (exp : Option Instant) (z : SortedSet S) (d : Data S) :
    removeIfEmpty key (d.insert key ⟨.sortedSet z, exp⟩) = putSet key exp z d := by
  rw [removeIfEmpty_insert_eq, putSet]
  simp only [ValueData.isEmptyContainer, beq_iff_eq]

section Finds

variable {e : Env} {d : Data S} {key : Bytes} {z : SortedSet S} {exp : Option Instant}

theorem Finds.liveScore_eq (h : Finds .sortedSet .new e.now d key z exp) (m : Bytes) :
    liveScore e.now d key m = z.byMember[m]? := by
  unfold liveScore
  rcases h with ⟨hl, rfl, -⟩ | hl
  · rw [liveAs_of_absent hl]
    exact (Std.ExtTreeMap.getElem?_empty).symm
  · rw [liveAs_of_live (t := Kind.sortedSet) hl, Option.bind_some]

theorem Finds.zcard_eq (h : Finds .sortedSet .new e.now d key z exp) :
    (Store.zcard e key d).2 = .ok (z.len : ℤ) := by
  unfold Store.zcard
  rcases h with ⟨hl, rfl, -⟩ | hl
  · rw [readAs_absent hl]
    rfl
  · rw [readAs_found (t := Kind.sortedSet) hl]

theorem Finds.zadd_eq (h : Finds .sortedSet .new e.now d key z exp) (members : List (S × Bytes))
    (fl : Store.ZaddFlags) :
    Store.zadd e key members fl d =
      (putSet key exp (members.foldl (Store.zaddStep fl) ⟨z, 0, 0⟩).zset d,
        .ok (if fl.ch then (members.foldl (Store.zaddStep fl) ⟨z, 0, 0⟩).changed
          else (members.foldl (Store.zaddStep fl) ⟨z, 0, 0⟩).added)) := by
  unfold Store.zadd thenRemoveIfEmpty
  rw [h.upsertAs_eq]
  exact Prod.ext (removeIfEmpty_putSet key exp _ d) rfl

theorem Finds.put (h : Finds .sortedSet .new e.now d key z exp) {z' : SortedSet S} (hz : z'.Coherent) :
    ∃ exp', Finds .sortedSet .new e.now (putSet key exp z' d) key z' exp' ∧
      putSet key exp' z' (putSet key exp z' d) = putSet key exp z' d := by
  unfold putSet
  by_cases hlen : z'.len = 0
  · rw [if_pos hlen]
    refine ⟨none, .inl ⟨?_, hz.eq_new_of_len hlen, rfl⟩, ?_⟩
    · rw [live_erase, if_pos rfl]
    · rw [if_pos hlen, FinMap.erase_of_getElem?_eq_none]
      rw [FinMap.getElem?_erase', if_pos rfl]
  · rw [if_neg hlen]
    refine ⟨exp, h.insert z', ?_⟩
    rw [if_neg hlen, FinMap.insert_insert]

end Finds

/-! ## The laws -/

/-- GT or LT, without the other and without NX. -/
def OneWay (fl : Store.ZaddFlags) : Prop :=
  fl.nx = false ∧ (fl.gt = true ∧ fl.lt = false ∨ fl.lt = true ∧ fl.gt = false)

/-- What the flags of ZADD promise about a key. -/
structure ZaddLaws (e : Env) (d : Data S) (key : Bytes) (members : List (S × Bytes))
    (fl : Store.ZaddFlags) : Prop where
  growth : fl.ch = false → ∃ n r : ℤ, (Store.zcard e key d).2 = .ok n ∧
    (Store.zadd e key members fl d).2 = .ok r ∧
    (Store.zcard e key (Store.zadd e key members fl d).1).2 = .ok (n + r)
  nx : fl.nx = true → ∀ m s, liveScore e.now d key m = some s →
    liveScore e.now (Store.zadd e key members fl d).1 key m = some s
  xx : fl.xx = true → ∀ m, liveScore e.now d key m = none →
    liveScore e.now (Store.zadd e key members fl d).1 key m = none
  gt : fl.gt = true → fl.nx = false → fl.lt = false → ∀ m ∈ members.map Prod.snd, ∀ t,
    liveScore e.now (Store.zadd e key members fl d).1 key m = some t →
      IsGreatest {s | liveScore e.now d key m = some s ∨ (s, m) ∈ members} t
  lt : fl.lt = true → fl.nx = false → fl.gt = false → ∀ m ∈ members.map Prod.snd, ∀ t,
    liveScore e.now (Store.zadd e key members fl d).1 key m = some t →
      IsLeast {s | liveScore e.now d key m = some s ∨ (s, m) ∈ members} t
  order : OneWay fl → ∀ members', members.Perm members' →
    (Store.zadd e key members' fl d).1 = (Store.zadd e key members fl d).1
  again : OneWay fl → Store.zadd e key members fl (Store.zadd e key members fl d).1 =
    ((Store.zadd e key members fl d).1, .ok 0)
  untouched : ∀ m ∉ members.map Prod.snd,
    liveScore e.now (Store.zadd e key members fl d).1 key m = liveScore e.now d key m

section Laws

variable {e : Env} {d : Data S} {key : Bytes} {z : SortedSet S} {exp : Option Instant}
  {members : List (S × Bytes)} {fl : Store.ZaddFlags}

theorem foldl_newScore_of_nx (h : fl.nx = true) (s : S) (ss : List S) :
    ss.foldl (Store.newScore fl) (some s) = some s := by
  induction ss with
  | nil => rfl
  | cons s' ss ih =>
    have hstay : Store.newScore fl (some s) s' = some s := by simp [Store.newScore, h]
    rw [List.foldl_cons, hstay, ih]

/-- Flags that go one way pick the best in one of the two orders. -/
theorem OneWay.picksBest (S : Type) [LinearOrder S] {fl : Store.ZaddFlags} (h : OneWay fl) :
    ∃ r : S → S → Prop, Std.Refl r ∧ IsTrans S r ∧ Std.Antisymm r ∧ Store.PicksBest fl r := by
  obtain ⟨hnx, ⟨hgt, hlt⟩ | ⟨hlt, hgt⟩⟩ := h
  · exact ⟨fun a b => a ≤ b, inferInstance, inferInstance, inferInstance,
      Store.picksBest_gt hgt hnx hlt⟩
  · exact ⟨fun a b => b ≤ a, ⟨le_refl⟩, ⟨fun _ _ _ hab hbc => hbc.trans hab⟩,
      ⟨fun _ _ hab hba => le_antisymm hba hab⟩, Store.picksBest_lt hlt hnx hgt⟩

theorem zaddLaws (hz : z.Coherent) (h : Finds .sortedSet .new e.now d key z exp)
    (members : List (S × Bytes)) (fl : Store.ZaddFlags) : ZaddLaws e d key members fl := by
  have hcoh : (members.foldl (Store.zaddStep fl) ⟨z, 0, 0⟩).zset.Coherent :=
    Store.coherent_foldl_zaddStep fl members hz
  obtain ⟨exp', hput, hagain⟩ := h.put hcoh
  have hafter : ∀ m, liveScore e.now (Store.zadd e key members fl d).1 key m =
      (Store.scoresOf m members).foldl (Store.newScore fl) z.byMember[m]? := by
    intro m
    rw [h.zadd_eq, hput.liveScore_eq, Store.byMember_foldl_zaddStep]
  refine ⟨?_, ?_, ?_, ?_, ?_, ?_, ?_, ?_⟩
  · intro hch
    refine ⟨z.len, _, h.zcard_eq, by rw [h.zadd_eq], ?_⟩
    have hadd := Store.added_foldl_zaddStep fl members ⟨z, 0, 0⟩
    rw [h.zadd_eq, hput.zcard_eq, hch, if_neg Bool.false_ne_true]
    congr 1
    dsimp only at hadd
    omega
  · intro hnx m s hm
    rw [h.liveScore_eq] at hm
    rw [hafter, hm, foldl_newScore_of_nx hnx]
  · intro hxx m hm
    rw [h.liveScore_eq] at hm
    rw [hafter, hm, Store.foldl_newScore_eq_none_iff]
    exact ⟨rfl, .inl hxx⟩
  · intro hgt hnx hlt m _ t ht
    rw [hafter] at ht
    have hbest := Store.foldl_newScore_best (Store.picksBest_gt hgt hnx hlt) ht
    simp only [Store.mem_scoresOf, ← h.liveScore_eq] at hbest
    exact ⟨hbest.1, fun s hs => hbest.2 s hs⟩
  · intro hlt hnx hgt m _ t ht
    rw [hafter] at ht
    have hbest := Store.foldl_newScore_best (r := fun a b : S => b ≤ a)
      (Store.picksBest_lt hlt hnx hgt) ht
    simp only [Store.mem_scoresOf, ← h.liveScore_eq] at hbest
    exact ⟨hbest.1, fun s hs => hbest.2 s hs⟩
  · intro hone members' hperm
    obtain ⟨r, _, _, _, hp⟩ := hone.picksBest S
    rw [h.zadd_eq, h.zadd_eq]
    dsimp only
    congr 1
    have hcoh' : (members'.foldl (Store.zaddStep fl) ⟨z, 0, 0⟩).zset.Coherent :=
      Store.coherent_foldl_zaddStep fl members' hz
    apply hcoh'.eq_of_byMember hcoh
    intro m
    rw [Store.byMember_foldl_zaddStep, Store.byMember_foldl_zaddStep]
    exact (Store.foldl_newScore_perm hp ((hperm.filter _).map _)).symm
  · intro hone
    obtain ⟨r, _, _, _, hp⟩ := hone.picksBest S
    have hsame : members.foldl (Store.zaddStep fl)
        ⟨(members.foldl (Store.zaddStep fl) ⟨z, 0, 0⟩).zset, 0, 0⟩ =
          ⟨(members.foldl (Store.zaddStep fl) ⟨z, 0, 0⟩).zset, 0, 0⟩ := by
      apply Store.foldl_zaddStep_eq_self
      rintro ⟨s, m⟩ hmem
      rw [Store.byMember_foldl_zaddStep]
      exact Store.newScore_foldl_of_mem hp (Store.mem_scoresOf.mpr hmem)
    rw [h.zadd_eq, hput.zadd_eq, hsame, hagain]
    simp
  · intro m hm
    have hnone : Store.scoresOf m members = [] := by
      rw [List.eq_nil_iff_forall_not_mem]
      intro s hs
      exact hm (List.mem_map.mpr ⟨(s, m), Store.mem_scoresOf.mp hs, rfl⟩)
    rw [hafter, h.liveScore_eq, hnone, List.foldl_nil]

end Laws

/-- The laws hold wherever the key is absent or holds a set whose indexes agree. -/
theorem zadd_laws {e : Env} {d : Data S} {key : Bytes}
    (h : ∀ en, live e.now d key = some en → ∃ z, en.data = .sortedSet z ∧ z.Coherent)
    (members : List (S × Bytes)) (fl : Store.ZaddFlags) : ZaddLaws e d key members fl := by
  cases hl : live e.now d key with
  | none => exact zaddLaws SortedSet.coherent_new (.inl ⟨hl, rfl, rfl⟩) members fl
  | some en =>
    obtain ⟨z, hdata, hz⟩ := h en hl
    obtain ⟨x, exp⟩ := en
    obtain rfl : x = .sortedSet z := hdata
    exact zaddLaws hz (.inr hl) members fl

/-- A set with one member. -/
def oneScore : Data ℤ :=
  (∅ : Data ℤ).insert (ascii "z") ⟨.sortedSet (.insertAll .new [⟨2, ascii "a"⟩]), none⟩

theorem oneScore_laws :
    ZaddLaws ⟨0, 0, .byKey⟩ oneScore (ascii "z")
      [(1, ascii "a"), (3, ascii "a"), (0, ascii "b"), (2, ascii "a")] { gt := true } ∧
    liveScore 0 (Store.zadd ⟨0, 0, .byKey⟩ (ascii "z")
      [(1, ascii "a"), (3, ascii "a"), (0, ascii "b"), (2, ascii "a")] { gt := true } oneScore).1
        (ascii "z") (ascii "a") = some 3 := by
  constructor
  · apply zadd_laws
    intro en hen
    have hl : live 0 oneScore (ascii "z") =
        some ⟨.sortedSet (.insertAll .new [⟨2, ascii "a"⟩]), none⟩ := by
      rw [oneScore, live_insert, if_pos rfl]
      rfl
    obtain rfl := Option.some.inj (hl.symm.trans hen)
    exact ⟨_, rfl, SortedSet.coherent_new.insertAll _⟩
  · decide +kernel

end BurnerRedis
