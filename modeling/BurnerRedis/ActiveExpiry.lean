import BurnerRedis.Lib.Sampling
import BurnerRedis.Lib.Selection
import BurnerRedis.Store.Keys

/-!
# The background sweep

`sweep_expired` looks at the first twenty keys with an expiry. While nothing else runs, calling it
again and again removes every expired key exactly when none of them stands behind twenty keys that
have an expiry but are not expired (`SweepReaches`). It never removes a key that is not expired.
-/

/-! ## Walks that removals do not reorder -/

namespace FinMap

variable {K V : Type} [Ord K] [Std.TransOrd K] [Std.LawfulEqOrd K] [DecidableEq K]

/-- Remove keys one after the other. -/
def eraseAll (m : FinMap K V) (ks : List K) : FinMap K V := ks.foldl (fun m k => m.erase k) m

theorem getElem?_eraseAll (m : FinMap K V) (ks : List K) (k : K) :
    (m.eraseAll ks)[k]? = if k ∈ ks then none else m[k]? := by
  unfold eraseAll
  induction ks generalizing m with
  | nil => simp
  | cons k' ks ih =>
    rw [List.foldl_cons, ih, getElem?_erase']
    by_cases hk : k ∈ ks
    · rw [if_pos hk, if_pos (List.mem_cons_of_mem k' hk)]
    · rw [if_neg hk]
      by_cases hk' : k' = k
      · rw [if_pos hk', if_pos (List.mem_cons.mpr (.inl hk'.symm))]
      · rw [if_neg hk', if_neg fun h => (List.mem_cons.mp h).elim (fun e => hk' e.symm) hk]

omit [Std.LawfulEqOrd K] [DecidableEq K] in
theorem eraseAll_eraseAll (m : FinMap K V) (ks ks' : List K) :
    (m.eraseAll ks).eraseAll ks' = m.eraseAll (ks ++ ks') :=
  List.foldl_append.symm

/-- Removing keys from the map takes them out of its walk and does not reorder the rest. -/
def WalkOrder.Keeps (o : WalkOrder) (m : FinMap K V) : Prop :=
  ∀ ks : List K, (m.eraseAll ks).walk o = (m.walk o).filter fun p => p.1 ∉ ks

omit [Std.LawfulEqOrd K] in
theorem WalkOrder.Keeps.eraseAll {o : WalkOrder} {m : FinMap K V} (h : o.Keeps m) (ks : List K) :
    o.Keeps (m.eraseAll ks) := by
  intro ks'
  rw [eraseAll_eraseAll, h, h, List.filter_filter]
  apply List.filter_congr
  intro p _
  rw [Bool.eq_iff_iff]
  simp [and_comm]

/-- The walk in key order is not reordered. -/
theorem WalkOrder.keeps_byKey (m : FinMap K V) : WalkOrder.byKey.Keeps m := by
  intro ks
  have hasymm : ∀ a b : K × V, compare a.1 b.1 = .lt → ¬ compare b.1 a.1 = .lt := by
    intro a b hab
    rw [Std.OrientedCmp.gt_of_lt hab]
    decide
  apply eq_of_pairwise_of_mem_iff hasymm Std.ExtTreeMap.ordered_keys_toList
    (List.Pairwise.filter _ Std.ExtTreeMap.ordered_keys_toList)
  rintro ⟨k, v⟩
  rw [List.mem_filter, Std.ExtTreeMap.mem_toList_iff_getElem?_eq_some,
    Std.ExtTreeMap.mem_toList_iff_getElem?_eq_some, getElem?_eraseAll, decide_eq_true_eq]
  by_cases hk : k ∈ ks
  · simp [hk]
  · simp [hk]

end FinMap

namespace BurnerRedis

variable {S : Type} [LinearOrder S]

/-! ## One sweep -/

namespace ActiveExpiry

variable {e : Env} {d : Data S} {key : Bytes} {en : ValueEntry S}

/-- The keys with an expiry, in the order of the walk. -/
def mortal (e : Env) (d : Data S) : List (Bytes × ValueEntry S) :=
  (d.walk e.walk).filter fun p => p.2.expiresAt.isSome

/-- The entry of a key has expired. -/
def dead (e : Env) (p : Bytes × ValueEntry S) : Bool := p.2.isExpired e.now

/-- The keys one sweep removes. -/
def swept (e : Env) (d : Data S) : List Bytes :=
  (((mortal e d).take 20).filter (dead e)).map Prod.fst

theorem sweepExpired_fst (e : Env) (d : Data S) :
    (Store.sweepExpired e d).1 = d.eraseAll (swept e d) := rfl

theorem mem_mortal : (key, en) ∈ mortal e d ↔ d[key]? = some en ∧ en.expiresAt.isSome = true := by
  rw [mortal, List.mem_filter, FinMap.mem_walk]

/-- Two pairs of a walk with the same key are the same. -/
theorem eq_of_mem_mortal {p q : Bytes × ValueEntry S} (hp : p ∈ mortal e d) (hq : q ∈ mortal e d)
    (h : p.1 = q.1) : p = q := by
  obtain ⟨k, en⟩ := p
  obtain ⟨k', en'⟩ := q
  obtain rfl : k = k' := h
  rw [mem_mortal] at hp hq
  rw [hp.1] at hq
  rw [Option.some.inj hq.1]

/-- What a sweep removes has expired. -/
theorem dead_of_mem_swept (h : key ∈ swept e d) (hk : d[key]? = some en) :
    en.isExpired e.now = true := by
  obtain ⟨⟨k, en'⟩, hp, rfl⟩ := List.mem_map.mp h
  obtain ⟨hmem, hdead⟩ := List.mem_filter.mp hp
  have hm := (mem_mortal.mp (List.mem_of_mem_take hmem)).1
  rw [hk, Option.some.injEq] at hm
  rw [hm]
  exact hdead

theorem isSome_of_isExpired (h : en.isExpired e.now = true) : en.expiresAt.isSome = true := by
  unfold ValueEntry.isExpired at h
  cases hx : en.expiresAt with
  | none =>
    rw [hx] at h
    cases h
  | some exp => rfl

/-- A sweep removes the dead among the first twenty keys with an expiry. -/
theorem mem_swept {p : Bytes × ValueEntry S} (hp : p ∈ mortal e d) :
    p.1 ∈ swept e d ↔ p ∈ (mortal e d).take 20 ∧ dead e p = true := by
  unfold swept
  rw [List.mem_map]
  constructor
  · rintro ⟨q, hq, hqp⟩
    obtain ⟨htake, hdead⟩ := List.mem_filter.mp hq
    obtain rfl := eq_of_mem_mortal (List.mem_of_mem_take htake) hp hqp
    exact ⟨htake, hdead⟩
  · intro h
    exact ⟨p, List.mem_filter.mpr h, rfl⟩

/-- The keys with an expiry after a sweep. -/
theorem mortal_sweep (hk : e.walk.Keeps d) :
    mortal e (Store.sweepExpired e d).1 = Sampling.sweep 20 (dead e) (mortal e d) := by
  have hnodup : (mortal e d).Nodup :=
    ((FinMap.nodup_fst_walk e.walk d).sublist (List.filter_sublist.map Prod.fst)).of_map
  have hmortal : mortal e (Store.sweepExpired e d).1 =
      (mortal e d).filter fun p => decide (p.1 ∉ swept e d) := by
    rw [sweepExpired_fst, mortal, hk, List.filter_filter, mortal, List.filter_filter]
    apply List.filter_congr
    intro p _
    rw [Bool.eq_iff_iff]
    simp only [Bool.and_eq_true, decide_eq_true_eq]
    exact and_comm
  rw [hmortal]
  unfold Sampling.sweep
  conv_lhs => arg 2; rw [← List.take_append_drop 20 (mortal e d)]
  rw [List.filter_append]
  congr 1
  · apply List.filter_congr
    intro p hp
    rw [Bool.eq_iff_iff, decide_eq_true_eq, mem_swept (List.mem_of_mem_take hp)]
    simp [hp]
  · rw [List.filter_eq_self]
    intro p hp
    rw [decide_eq_true_eq, mem_swept (List.mem_of_mem_drop hp)]
    rintro ⟨htake, -⟩
    exact List.disjoint_take_drop hnodup le_rfl htake hp

/-! ## Sweep after sweep -/

/-- The data after that many sweeps at one reading of the clock. -/
def sweeps (e : Env) (n : ℕ) (d : Data S) : Data S := (fun d => (Store.sweepExpired e d).1)^[n] d

theorem sweeps_succ (e : Env) (n : ℕ) (d : Data S) :
    sweeps e (n + 1) d = sweeps e n (Store.sweepExpired e d).1 :=
  Function.iterate_succ_apply _ n d

theorem mortal_sweeps (hk : e.walk.Keeps d) (n : ℕ) :
    mortal e (sweeps e n d) = (Sampling.sweep 20 (dead e))^[n] (mortal e d) := by
  induction n generalizing d with
  | zero => rfl
  | succ n ih =>
    have hk' : e.walk.Keeps (Store.sweepExpired e d).1 := hk.eraseAll (swept e d)
    rw [sweeps_succ, ih hk', mortal_sweep hk, Function.iterate_succ_apply]

/-- A key that is not expired outlives every sweep. -/
theorem sweeps_kept (n : ℕ) (h : d[key]? = some en) (hlive : en.isExpired e.now = false) :
    (sweeps e n d)[key]? = some en := by
  induction n generalizing d with
  | zero => exact h
  | succ n ih =>
    rw [sweeps_succ]
    apply ih
    rw [sweepExpired_fst, FinMap.getElem?_eraseAll, if_neg, h]
    intro hmem
    have hdead := dead_of_mem_swept hmem h
    rw [hlive] at hdead
    cases hdead

/-- No expired key is left. -/
def Swept (e : Env) (d : Data S) : Prop :=
  ∀ (key : Bytes) (en : ValueEntry S), d[key]? = some en → en.isExpired e.now = false

theorem swept_iff_clean : Swept e d ↔ Sampling.Clean (dead e) (mortal e d) := by
  constructor
  · rintro h ⟨key, en⟩ hp
    exact h key en (mem_mortal.mp hp).1
  · intro h key en hkey
    rw [← Bool.not_eq_true]
    intro hdead
    have hlive := h (key, en) (mem_mortal.mpr ⟨hkey, isSome_of_isExpired hdead⟩)
    rw [dead, hdead] at hlive
    cases hlive

end ActiveExpiry

/-- No expired key stands behind twenty keys that have an expiry and are not expired. -/
def SweepReaches (e : Env) (d : Data S) : Prop :=
  ∀ l₁ p l₂, (d.walk e.walk).filter (fun p => p.2.expiresAt.isSome) = l₁ ++ p :: l₂ →
    p.2.isExpired e.now = true → l₁.countP (fun q => !q.2.isExpired e.now) < 20

/-- Repeated sweeps at one reading of the clock remove every expired key, and no other, exactly
when none of them stands behind twenty keys that have an expiry and are not expired. -/
theorem sweeps_clear_iff {e : Env} {d : Data S} (hk : e.walk.Keeps d) :
    ((∃ n, ActiveExpiry.Swept e (ActiveExpiry.sweeps e n d)) ∧
      ∀ n (key : Bytes) (en : ValueEntry S), d[key]? = some en → en.isExpired e.now = false →
        (ActiveExpiry.sweeps e n d)[key]? = some en) ↔ SweepReaches e d := by
  have hclear : (∃ n, ActiveExpiry.Swept e (ActiveExpiry.sweeps e n d)) ↔ SweepReaches e d := by
    simp only [ActiveExpiry.swept_iff_clean, ActiveExpiry.mortal_sweeps hk]
    exact Sampling.exists_clean_iff
  rw [← hclear, and_iff_left_iff_imp]
  intro _ n key en hkey hlive
  exact ActiveExpiry.sweeps_kept n hkey hlive

/-- Keys `0` to `n - 1` that expire at the given instant. -/
def keysExpiring (n : ℕ) (exp : Instant) : Data ℤ :=
  (List.range n).foldl (fun d i => d.insert [UInt8.ofNat i] ⟨.string [], some exp⟩) ∅

/-- Thirty expired keys are all removed. -/
theorem thirtyExpired_cleared :
    (∃ n, ActiveExpiry.Swept ⟨5, 0, .byKey⟩
        (ActiveExpiry.sweeps ⟨5, 0, .byKey⟩ n (keysExpiring 30 1))) ∧
      ∀ n (key : Bytes) (en : ValueEntry ℤ), (keysExpiring 30 1)[key]? = some en →
        en.isExpired 5 = false →
        (ActiveExpiry.sweeps ⟨5, 0, .byKey⟩ n (keysExpiring 30 1))[key]? = some en := by
  refine (sweeps_clear_iff (e := ⟨5, 0, .byKey⟩) (FinMap.WalkOrder.keeps_byKey _)).mpr ?_
  have hnone : ((keysExpiring 30 1).walk .byKey).countP (fun q => !q.2.isExpired 5) = 0 := by
    decide +kernel
  intro l₁ p l₂ hsplit _
  have hsub : l₁.Sublist ((keysExpiring 30 1).walk .byKey) := by
    have hleft : l₁.Sublist (l₁ ++ p :: l₂) := List.sublist_append_left l₁ _
    rw [← hsplit] at hleft
    exact hleft.trans List.filter_sublist
  have hle := hsub.countP_le (p := fun q => !q.2.isExpired 5)
  show l₁.countP (fun q => !q.2.isExpired 5) < 20
  omega

/-- Twenty keys that expire later, and behind them one that has expired. -/
def crowded : Data ℤ := (keysExpiring 20 10).insert [20] ⟨.string [], some 1⟩

/-- The expired key is never removed. -/
theorem crowded_not_cleared :
    FinMap.WalkOrder.byKey.Keeps crowded ∧
      ¬ ∃ n, ActiveExpiry.Swept ⟨5, 0, .byKey⟩ (ActiveExpiry.sweeps ⟨5, 0, .byKey⟩ n crowded) := by
  refine ⟨FinMap.WalkOrder.keeps_byKey crowded, ?_⟩
  have hswept : ActiveExpiry.swept ⟨5, 0, .byKey⟩ crowded = [] := by decide +kernel
  have hfixed : (Store.sweepExpired ⟨5, 0, .byKey⟩ crowded).1 = crowded := by
    rw [ActiveExpiry.sweepExpired_fst, hswept]
    rfl
  rintro ⟨n, hn⟩
  have hstay : ActiveExpiry.sweeps ⟨5, 0, .byKey⟩ n crowded = crowded :=
    Function.iterate_fixed hfixed n
  rw [hstay] at hn
  have hkey : crowded[([20] : Bytes)]? = some ⟨.string [], some 1⟩ := by
    rw [crowded, FinMap.getElem?_insert', if_pos rfl]
  have hlive := hn [20] _ hkey
  cases hlive

end BurnerRedis
