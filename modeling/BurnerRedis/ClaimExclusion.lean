import BurnerRedis.ClaimReports

/-!
# Claims that exclude each other

XAUTOCLAIM sets the delivery time of a record it takes to the time of the claim, so that nobody else
can take the entry before it has been idle for that long again (`autoclaim_excludes`). XCLAIM keeps
the delivery time unless it is given IDLE: the entry stays as idle as it was, and the next claim may
take it at once.
-/

namespace BurnerRedis

open ConsumerGroup

/-- A claim of pending entries. -/
inductive ClaimCall where
  | xclaim (ids : List StreamId) (o : XclaimOptions)
  | xautoclaim (start : StreamId) (count : Option ℕ)

namespace ClaimCall

/-- The call has the option FORCE. -/
def forced : ClaimCall → Bool
  | .xclaim _ o => o.force
  | .xautoclaim .. => false

/-- The ids the call takes. -/
def takes (e : Env) (consumer : Bytes) (minIdle : Duration) (s : Stream) (cg : ConsumerGroup) :
    ClaimCall → List StreamId
  | .xclaim ids o => claimedIds e consumer minIdle o s cg ids
  | .xautoclaim start count => (cg.toClaim e minIdle start count).map (·.id)

/-- The group the call leaves. -/
def leaves (e : Env) (consumer : Bytes) (minIdle : Duration) (s : Stream) (cg : ConsumerGroup) :
    ClaimCall → ConsumerGroup
  | .xclaim ids o => (claimAll e consumer minIdle o s cg ids).1
  | .xautoclaim start count =>
    (cg.toClaim e minIdle start count).foldl (autoclaimOne e.now consumer) cg

end ClaimCall

/-- A claim that succeeds: XCLAIM, natively or in a script, or XAUTOCLAIM. -/
inductive ClaimRun {S : Type} [Score S] (e : Env) (key group consumer : Bytes) (minIdle : UInt64)
    (d d' : Data S) : ClaimCall → Prop where
  | xclaim (ids : List StreamId) (o : XclaimOptions) (reported : StreamId → Prop)
      (h : XclaimReply e key group consumer minIdle ids o d d' reported) :
      ClaimRun e key group consumer minIdle d d' (.xclaim ids o)
  | xautoclaim (start : StreamId) (count : Option ℕ) (reply : Store.AutoclaimReply)
      (h : Store.xautoclaim e key group consumer minIdle start count d = (d', .ok reply)) :
      ClaimRun e key group consumer minIdle d d' (.xautoclaim start count)

section Runs

variable {S : Type} [Score S] {e : Env} {key group consumer : Bytes} {minIdle : UInt64}
  {d d' : Data S} {call : ClaimCall}

theorem ClaimRun.regroups (h : ClaimRun e key group consumer minIdle d d' call) :
    ∃ s cg, Regroups e.now key group d d' s cg
      (call.leaves e consumer (.fromMillis minIdle.toNat) s cg) := by
  cases h with
  | xclaim ids o reported h =>
    obtain ⟨s, cg, hre, -⟩ := h.claimAll
    exact ⟨s, cg, hre⟩
  | xautoclaim start count reply h =>
    obtain ⟨s, cg, -, hre⟩ := Store.modifyGroup_ok h nofun nofun
    exact ⟨s, cg, hre⟩

end Runs

/-- The records of an id that is not taken stay as they are. -/
theorem ClaimCall.record_leaves {e : Env} {consumer : Bytes} {minIdle : Duration} {s : Stream}
    {cg : ConsumerGroup} {id : StreamId} (call : ClaimCall)
    (h : id ∉ call.takes e consumer minIdle s cg) (c : Bytes) :
    (call.leaves e consumer minIdle s cg).record c id = cg.record c id := by
  cases call with
  | xclaim ids o => exact record_claimAll h c
  | xautoclaim start count => exact record_foldl_of_not_mem e.now consumer h c

/-! ## Fresh records -/

/-- Every record of the id was delivered too recently for a claim with this idle time. -/
def ConsumerGroup.Fresh (cg : ConsumerGroup) (now : Instant) (minIdle : Duration) (id : StreamId) :
    Prop :=
  ∀ c pe, cg.record c id = some pe → Instant.durationSince now pe.deliveryTime < minIdle

section Fresh

variable {e : Env} {consumer : Bytes} {minIdle : Duration} {o : XclaimOptions} {s : Stream}
  {cg : ConsumerGroup} {id : StreamId}

theorem ConsumerGroup.Fresh.not_claims (h : cg.Fresh e.now minIdle id) (hf : o.force = false) :
    claims e minIdle o s cg id = false := by
  cases turn e [] minIdle o s cg id with
  | skip hs => exact hs
  | move source pe _ holder idle =>
    rw [hf, or_iff_left Bool.false_ne_true] at idle
    exact absurd idle (not_le.mpr (h source pe (record_of_holder holder)))
  | make _ _ force =>
    rw [hf] at force
    cases force

theorem ConsumerGroup.Fresh.of_same {cg' : ConsumerGroup} {now : Instant}
    (h : cg.Fresh now minIdle id) (hsame : ∀ c, cg'.record c id = cg.record c id) :
    cg'.Fresh now minIdle id := by
  intro c pe hpe
  rw [hsame c] at hpe
  exact h c pe hpe

/-- A fresh record is not taken without FORCE: at its own turn it is skipped, and the turns of other
ids leave it as it is. -/
theorem ConsumerGroup.Fresh.not_claimed (h : cg.Fresh e.now minIdle id) (hf : o.force = false)
    (ids : List StreamId) : id ∉ claimedIds e consumer minIdle o s cg ids := by
  induction ids generalizing cg with
  | nil => exact List.not_mem_nil
  | cons i ids ih =>
    have hskip := h.not_claims (s := s) hf
    have hsame : ∀ c, (claimOne e consumer minIdle o s (cg, []) i).1.record c id = cg.record c id := by
      intro c
      by_cases hi : i = id
      · subst hi
        exact record_claimOne_of_skip [] hskip c i
      · exact record_claimOne_ne [] hi c
    rw [claimedIds, List.mem_append, not_or]
    refine ⟨?_, ih (h.of_same hsame)⟩
    by_cases hi : i = id
    · subst hi
      rw [hskip, if_neg Bool.false_ne_true]
      exact List.not_mem_nil
    · split_ifs
      · rw [List.mem_singleton]
        exact Ne.symm hi
      · exact List.not_mem_nil

theorem ConsumerGroup.Fresh.not_takes (h : cg.Fresh e.now minIdle id) {call : ClaimCall}
    (hf : call.forced = false) : id ∉ call.takes e consumer minIdle s cg := by
  cases call with
  | xclaim ids o => exact h.not_claimed hf ids
  | xautoclaim start count =>
    intro hmem
    obtain ⟨q, hq, rfl⟩ := List.mem_map.mp hmem
    obtain ⟨pe, hpe, -, -, hidle⟩ := mem_qualifying_iff.mp ((toClaim_sublist cg e _ _ _).subset hq)
    exact absurd hidle (not_le.mpr (h q.consumer pe hpe))

/-- What XAUTOCLAIM takes is fresh until it has been idle for as long again. -/
theorem ConsumerGroup.fresh_of_autoclaim (hu : cg.UniqueOwner) {start : StreamId} {count : Option ℕ}
    (hid : id ∈ (cg.toClaim e minIdle start count).map (·.id)) {now : Instant} {m : Duration}
    (hm : Instant.durationSince now e.now < m) :
    ((cg.toClaim e minIdle start count).foldl (autoclaimOne e.now consumer) cg).Fresh now m id := by
  intro c pe hpe
  obtain ⟨q, hq, rfl⟩ := List.mem_map.mp hid
  rw [record_foldl_of_mem e.now consumer (pairwise_lt_toClaim hu e minIdle start count) hq] at hpe
  have hrec : (cg.take q.consumer consumer q.id ⟨e.now, q.deliveryCount + 1⟩).record c q.id =
    some pe := hpe
  rw [record_take, if_pos rfl] at hrec
  split_ifs at hrec with hc hq'
  · cases hrec
    exact hm
  · -- no other consumer has the id
    have howner := mem_qualifying ((toClaim_sublist cg e _ _ _).subset hq)
    exact absurd (hu howner (owns_iff_record.mpr ⟨pe, hrec⟩)) hq'

end Fresh

/-! ## The second claim -/

/-- After XAUTOCLAIM has taken an entry of a group where nobody else has it, no claim with the same
idle time takes it again before that time has passed. -/
theorem autoclaim_excludes {S : Type} [Score S] {e₁ e₂ : Env} {key group c₁ c₂ : Bytes} {m : UInt64}
    {start : StreamId} {count : Option ℕ} {d d₁ d₂ d₃ : Data S} {s s₂ : Stream}
    {cg cg₁ cg₂ cg₃ : ConsumerGroup} {id : StreamId} {second : ClaimCall}
    (first_run : ClaimRun e₁ key group c₁ m d d₁ (.xautoclaim start count))
    (first : Regroups e₁.now key group d d₁ s cg cg₁) (unique : cg.UniqueOwner)
    (takes : id ∈ (ClaimCall.xautoclaim start count).takes e₁ c₁ (.fromMillis m.toNat) s cg)
    (same : ∀ c, cg₂.record c id = cg₁.record c id)
    (soon : Instant.durationSince e₂.now e₁.now < .fromMillis m.toNat)
    (second_run : ClaimRun e₂ key group c₂ m d₂ d₃ second)
    (second' : Regroups e₂.now key group d₂ d₃ s₂ cg₂ cg₃) (unforced : second.forced = false) :
    id ∉ second.takes e₂ c₂ (.fromMillis m.toNat) s₂ cg₂ ∧
      ∀ c, cg₃.record c id = cg₂.record c id := by
  obtain ⟨s', cg', hfirst⟩ := first_run.regroups
  obtain ⟨rfl, rfl, rfl⟩ := first.unique hfirst
  obtain ⟨s', cg', hsecond⟩ := second_run.regroups
  obtain ⟨rfl, rfl, rfl⟩ := second'.unique hsecond
  have hfresh : cg₂.Fresh e₂.now (.fromMillis m.toNat) id :=
    (fresh_of_autoclaim unique takes soon).of_same same
  have hnot : id ∉ second.takes e₂ c₂ (.fromMillis m.toNat) s₂ cg₂ := hfresh.not_takes unforced
  exact ⟨hnot, second.record_leaves hnot⟩

/-- A store in which an entry was delivered to `c0` at time 0. -/
def deliveredOnce : Instant × Store ℤ :=
  runActions id (0, ⟨∅, ∅⟩)
    [.op 0 .byKey (.xadd (ascii "s") ∅ (some ⟨1, 0⟩)),
      .op 0 .byKey (.xgroupCreate (ascii "s") (ascii "g") .zero false),
      .op 0 .byKey (.xreadgroup (ascii "g") (ascii "c0") [ascii "s"] [ascii ">"] none)]

/-- One second later. -/
def oneSecond : Env := ⟨1000000000, 0, .byKey⟩

/-- XCLAIM of the entry for whom it has been idle for a second. -/
def claimDelivered (consumer : Bytes) (d : Data ℤ) :
    Data ℤ × Except StoreError (List (StreamId × Option Fields)) :=
  Store.xclaim oneSecond (ascii "s") (ascii "g") consumer 1000 [⟨1, 0⟩] {} d

theorem claimDelivered_run (consumer : Bytes) (d : Data ℤ)
    (h : (claimDelivered consumer d).2.toOption.isSome = true) :
    ClaimRun oneSecond (ascii "s") (ascii "g") consumer 1000 d (claimDelivered consumer d).1
      (.xclaim [⟨1, 0⟩] {}) := by
  obtain ⟨reply, hr⟩ := Option.isSome_iff_exists.mp h
  exact .xclaim _ _ _ (.native reply (Prod.ext rfl (eq_ok_of_toOption hr)))

/-- XAUTOCLAIM of the entry for `c1`. -/
def autoclaimDelivered : Data ℤ × Except StoreError Store.AutoclaimReply :=
  Store.xautoclaim oneSecond (ascii "s") (ascii "g") (ascii "c1") 1000 .zero none
    deliveredOnce.2.data

theorem autoclaimDelivered_excludes :
    ∃ s cg cg', Regroups oneSecond.now (ascii "s") (ascii "g") autoclaimDelivered.1
        (claimDelivered (ascii "c2") autoclaimDelivered.1).1 s cg cg' ∧
      ⟨1, 0⟩ ∉ (ClaimCall.xclaim [⟨1, 0⟩] {}).takes oneSecond (ascii "c2")
        (.fromMillis (1000 : UInt64).toNat) s cg ∧
      ∀ c, cg'.record c ⟨1, 0⟩ = cg.record c ⟨1, 0⟩ := by
  have hok : autoclaimDelivered.2.toOption.isSome = true := by decide +kernel
  obtain ⟨reply, hr⟩ := Option.isSome_iff_exists.mp hok
  have run₁ : ClaimRun oneSecond (ascii "s") (ascii "g") (ascii "c1") 1000 deliveredOnce.2.data
      autoclaimDelivered.1 (.xautoclaim .zero none) :=
    .xautoclaim _ _ reply (Prod.ext rfl (eq_ok_of_toOption hr))
  have run₂ := claimDelivered_run (ascii "c2") autoclaimDelivered.1 (by decide +kernel)
  obtain ⟨s, cg, h₁⟩ := run₁.regroups
  obtain ⟨s₁, cg₁, h₂⟩ := run₂.regroups
  have hcg : (liveStream oneSecond.now deliveredOnce.2.data (ascii "s")).all (fun s =>
      s.groups[ascii "g"]?.all fun cg =>
        cg = (⟨⟨1, 0⟩, ∅⟩ : ConsumerGroup).insertPending (ascii "c0") ⟨1, 0⟩ ⟨0, 1⟩ ∧
          ⟨1, 0⟩ ∈ (ClaimCall.xautoclaim .zero none).takes oneSecond (ascii "c1")
            (.fromMillis (1000 : UInt64).toNat) s cg) = true := by
    decide +kernel
  rw [h₁.stream, Option.all_some, h₁.before, Option.all_some, decide_eq_true_eq] at hcg
  have hunique : cg.UniqueOwner := by
    rw [hcg.1]
    exact (uniqueOwner_new ⟨1, 0⟩).insertPending _ fun c' hc' => absurd hc' (not_owns_new _ _ _)
  obtain rfl := Option.some.inj (h₁.liveGroup.symm.trans
    (liveGroup_eq_some.mpr ⟨s₁, h₂.stream, h₂.before⟩))
  have soon : Instant.durationSince oneSecond.now oneSecond.now <
      .fromMillis (1000 : UInt64).toNat := by
    decide +kernel
  exact ⟨s₁, _, _, h₂, autoclaim_excludes run₁ h₁ hunique hcg.2 (fun _ => rfl) soon run₂ h₂ rfl⟩

/-- The data after the claim for `c1`, and after the one for `c2`. -/
def claimedOnce : Data ℤ := (claimDelivered (ascii "c1") deliveredOnce.2.data).1

def claimedTwice : Data ℤ := (claimDelivered (ascii "c2") claimedOnce).1

/-- Two XCLAIMs with an idle time of a second take the same entry, one right after the other. -/
theorem xclaim_takes_twice :
    Reachable anyAction id (deliveredOnce.1 + (1000000000 : Duration)) deliveredOnce.2 ∧
      ∃ s cg cg₁ s₁ cg₂,
        ClaimRun oneSecond (ascii "s") (ascii "g") (ascii "c1") 1000 deliveredOnce.2.data
          claimedOnce (.xclaim [⟨1, 0⟩] {}) ∧
        Regroups oneSecond.now (ascii "s") (ascii "g") deliveredOnce.2.data claimedOnce s cg cg₁ ∧
        ⟨1, 0⟩ ∈ (ClaimCall.xclaim [⟨1, 0⟩] {}).takes oneSecond (ascii "c1") (.fromMillis 1000) s cg ∧
        ClaimRun oneSecond (ascii "s") (ascii "g") (ascii "c2") 1000 claimedOnce
          claimedTwice (.xclaim [⟨1, 0⟩] {}) ∧
        Regroups oneSecond.now (ascii "s") (ascii "g") claimedOnce claimedTwice s₁ cg₁ cg₂ ∧
        ⟨1, 0⟩ ∈ (ClaimCall.xclaim [⟨1, 0⟩] {}).takes oneSecond (ascii "c2") (.fromMillis 1000)
          s₁ cg₁ := by
  have run₁ := claimDelivered_run (ascii "c1") deliveredOnce.2.data (by decide +kernel)
  have run₂ := claimDelivered_run (ascii "c2") claimedOnce (by decide +kernel)
  obtain ⟨s, cg, h₁⟩ := run₁.regroups
  obtain ⟨s₁, cg₁, h₂⟩ := run₂.regroups
  have takes₁ : (liveStream oneSecond.now deliveredOnce.2.data (ascii "s")).all (fun s =>
      s.groups[ascii "g"]?.all fun cg => ⟨1, 0⟩ ∈ (ClaimCall.xclaim [⟨1, 0⟩] {}).takes oneSecond
        (ascii "c1") (.fromMillis 1000) s cg) = true := by
    decide +kernel
  have takes₂ : (liveStream oneSecond.now claimedOnce (ascii "s")).all (fun s =>
      s.groups[ascii "g"]?.all fun cg => ⟨1, 0⟩ ∈ (ClaimCall.xclaim [⟨1, 0⟩] {}).takes oneSecond
        (ascii "c2") (.fromMillis 1000) s cg) = true := by
    decide +kernel
  rw [h₁.stream, Option.all_some, h₁.before, Option.all_some, decide_eq_true_eq] at takes₁
  rw [h₂.stream, Option.all_some, h₂.before, Option.all_some, decide_eq_true_eq] at takes₂
  -- the second claim finds the group the first one left
  obtain rfl := Option.some.inj (h₁.liveGroup.symm.trans
    (liveGroup_eq_some.mpr ⟨s₁, h₂.stream, h₂.before⟩))
  refine ⟨?_, s, cg, _, s₁, _, run₁, h₁, takes₁, run₂, h₂, takes₂⟩
  apply Reachable.wait
  apply Reachable.runActions
  exact .empty 0

end BurnerRedis
