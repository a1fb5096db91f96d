import BurnerRedis.Invariants

/-!
# What a restart keeps

`Reachable.restart_keeps_values`: in any run, a restart brings back the live keys with their values and the
script cache, and resets nothing but expiries and delivery times.

Expiries fare worse. A key with less than a millisecond to live, or with a multiple of `2 ^ 64`
milliseconds, is written as zero milliseconds and read back without an expiry
(`expiries_kept_iff`).
-/

namespace BurnerRedis

variable {S : Type} [Score S]

/-! ## Values -/

/-- A restart of any reachable store keeps the live keys, their values up to the times of pending
entries, and the scripts. -/
theorem Reachable.restart_keeps_values {sha1 : String → String} {now : Instant} {st : Store S}
    (h : Reachable anyAction sha1 now st) (wall : UInt64) (walk : FinMap.WalkOrder)
    (now' : Instant) :
    (∀ key, (((PersistableStore.fromStore ⟨now, wall, walk⟩ st).intoRuntime now').data[key]?.map
        fun en => en.data) = (live now st.data key).map fun en => en.data.resetTimes now') ∧
      (∀ (key : Bytes) (z : SortedSet S) (exp : Option Instant),
        ((PersistableStore.fromStore ⟨now, wall, walk⟩ st).intoRuntime now').data[key]? =
          some ⟨.sortedSet z, exp⟩ → z.Coherent) ∧
      ((PersistableStore.fromStore ⟨now, wall, walk⟩ st).intoRuntime now').scripts = st.scripts := by
  refine ⟨fun key => ?_, fun key z exp hz => ?_, restored_scripts _ _ _⟩
  · rw [restarted_getElem? h.coherent, Option.map_map]
    rfl
  · exact (h.restart wall walk now').coherent key _ hz z rfl

/-- A store with a sorted set and a consumer that has an entry pending. -/
def savedRun : Instant × Store ℤ :=
  runActions id (0, ⟨∅, ∅⟩) [.op 0 .byKey (.zadd (ascii "z") [(1, ascii "m")] {}),
    .op 7 .byKey (.xadd (ascii "s") ∅ none),
    .op 7 .byKey (.xgroupCreate (ascii "s") (ascii "g") .zero false),
    .op 7 .byKey (.xreadgroup (ascii "g") (ascii "c") [ascii "s"] [ascii ">"] none)]

theorem savedRun_restored :
    (∀ key, (((PersistableStore.fromStore ⟨savedRun.1, 0, .byKey⟩ savedRun.2).intoRuntime
        9).data[key]?.map fun en => en.data) =
      (live savedRun.1 savedRun.2.data key).map fun en => en.data.resetTimes 9) ∧
      (∀ (key : Bytes) (z : SortedSet ℤ) (exp : Option Instant),
        ((PersistableStore.fromStore ⟨savedRun.1, 0, .byKey⟩ savedRun.2).intoRuntime 9).data[key]? =
          some ⟨.sortedSet z, exp⟩ → z.Coherent) ∧
      ((PersistableStore.fromStore ⟨savedRun.1, 0, .byKey⟩ savedRun.2).intoRuntime 9).scripts =
        savedRun.2.scripts :=
  Reachable.restart_keeps_values (Reachable.runActions (.empty 0) _) 0 .byKey 9

/-! ## Expiries -/

/-- An entry with an expiry is gone or has no longer to live than before, one without has none. -/
def ExpiryKept (now now' : Instant) (en : ValueEntry S) (loaded : Option (ValueEntry S)) : Prop :=
  match en.expiresAt with
  | none => ∀ en' ∈ loaded, en'.expiresAt = none
  | some exp => ∀ en' ∈ loaded, ∃ exp', en'.expiresAt = some exp' ∧ exp' - now' ≤ exp - now

/-- The milliseconds an expiry is written with. -/
def writtenMillis (now exp : Instant) : ℕ := (exp - now).toNat / 1000000 % 2 ^ 64

/-- The expiry a written one is read back as. -/
theorem expiryAt_ttlRemaining {now exp : Instant} (now' : Instant) (h : now < exp) :
    expiryAt now' (ttlRemaining now (some exp)) =
      if writtenMillis now exp = 0 then none
      else some (now' + (writtenMillis now exp * 1000000 : ℕ)) := by
  have hms : (UInt64.ofNat (Instant.durationSince exp now).asMillis).toNat =
      writtenMillis now exp := UInt64.toNat_ofNat'
  unfold expiryAt ttlRemaining
  rw [Option.bind_some, if_pos h, Option.bind_some, hms]
  simp only [← UInt64.toNat_inj, hms]
  rfl

theorem writtenMillis_le {now exp : Instant} (h : now < exp) :
    ((writtenMillis now exp * 1000000 : ℕ) : ℤ) ≤ exp - now := by
  have hmod : writtenMillis now exp ≤ (exp - now).toNat / 1000000 := Nat.mod_le _ _
  have hdiv : (exp - now).toNat / 1000000 * 1000000 ≤ (exp - now).toNat :=
    Nat.div_mul_le_self _ _
  have hnat : ((exp - now).toNat : ℤ) = exp - now := Int.toNat_of_nonneg (Int.sub_nonneg_of_le h.le)
  calc ((writtenMillis now exp * 1000000 : ℕ) : ℤ)
      ≤ ((exp - now).toNat / 1000000 * 1000000 : ℕ) := by
        exact_mod_cast Nat.mul_le_mul_right _ hmod
    _ ≤ (exp - now).toNat := by exact_mod_cast hdiv
    _ = exp - now := hnat

/-- What becomes of one expiry. -/
theorem expiryKept_iff (e : Env) (st : Store S) (now' : Instant) {key : Bytes} {en : ValueEntry S}
    (hl : live e.now st.data key = some en) :
    ExpiryKept e.now now' en
        ((PersistableStore.fromStore e st).intoRuntime now').data[key]? ↔
      ∀ exp, en.expiresAt = some exp → writtenMillis e.now exp ≠ 0 := by
  have hx := (live_eq_some.mp hl).2
  unfold ExpiryKept
  rw [restored_getElem?, hl, Option.map_some]
  unfold ValueEntry.persisted PersistableEntry.restored
  unfold ValueEntry.isExpired at hx
  cases hexp : en.expiresAt with
  | none => simp [ttlRemaining, expiryAt]
  | some exp =>
    rw [hexp] at hx
    have hlt : e.now < exp := not_le.mp (of_decide_eq_false hx)
    simp only [Option.mem_some_iff, forall_eq', Option.some.injEq, expiryAt_ttlRemaining now' hlt]
    split_ifs with hz
    · simp [hz]
    · have hle := writtenMillis_le hlt
      simp only [Option.some.injEq, exists_eq_left', hz, not_false_iff, ne_eq, iff_true]
      rwa [add_sub_cancel_left]

/-- A save and a load keep every expiry exactly when none of them is written as zero. -/
theorem expiries_kept_iff (e : Env) (st : Store S) (now' : Instant) :
    (∀ key en, live e.now st.data key = some en →
        ExpiryKept e.now now' en
          ((PersistableStore.fromStore e st).intoRuntime now').data[key]?) ↔
      ∀ key en exp, live e.now st.data key = some en → en.expiresAt = some exp →
        (exp - e.now).toNat / 1000000 % 2 ^ 64 ≠ 0 := by
  constructor
  · intro h key en exp hl hexp
    exact (expiryKept_iff e st now' hl).mp (h key en hl) exp hexp
  · intro h key en hl
    exact (expiryKept_iff e st now' hl).mpr fun exp hexp => h key en exp hl hexp

/-- A key set to live for a millisecond, half a millisecond later. -/
def halfMillisecond : Store ℤ :=
  ⟨(Store.set ⟨0, 0, .byKey⟩ (ascii "k") (ascii "v") (some 1000000) false false ∅).1, ∅⟩

theorem halfMillisecond_not_kept :
    ¬ ∀ key en, live 500000 halfMillisecond.data key = some en →
        ExpiryKept 500000 600000 en
          ((PersistableStore.fromStore ⟨500000, 0, .byKey⟩ halfMillisecond).intoRuntime
            600000).data[key]? := by
  intro h
  have hl : live 500000 halfMillisecond.data (ascii "k") =
      some ⟨.string (ascii "v"), some 1000000⟩ := by decide +kernel
  exact (expiryKept_iff ⟨500000, 0, .byKey⟩ halfMillisecond 600000 hl).mp (h _ _ hl) _ rfl
    (by decide)

end BurnerRedis
