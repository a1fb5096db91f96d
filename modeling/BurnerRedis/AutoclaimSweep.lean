import BurnerRedis.Claims

/-!
# Sweeping a group with XAUTOCLAIM

A sweep calls XAUTOCLAIM from `0-0` on, each time from the id the call before has returned, until a
call returns `0-0` (`Sweep`). A call claims ids below the id it returns and leaves the records from
there on as they are; so each entry is claimed once (`Swept`), and fewer entries are left to sweep.
-/

namespace BurnerRedis

open ConsumerGroup

/-! ## The reply of one call -/

/-- The ids a call reports as claimed. -/
def Store.AutoclaimReply.claimedIds (r : Store.AutoclaimReply) : List StreamId :=
  r.claimed.map Prod.fst

/-- The reply of XAUTOCLAIM in a group: what it takes, and the id of what comes next. -/
def autoclaimReply (s : Stream) (taken left : List Qualifying) : Store.AutoclaimReply where
  nextStartId := (left.head?.map (·.id)).getD .zero
  claimed := taken.filterMap fun q => s.entries[q.id]?.map fun fields => (q.id, fields)
  deleted := (taken.filter fun q => s.entries[q.id]?.isNone).map (·.id)

section Reply

variable (s : Stream) (taken left : List Qualifying)

theorem claimedIds_autoclaimReply :
    (autoclaimReply s taken left).claimedIds = (taken.map (·.id)).filter (· ∈ s.entries) := by
  induction taken with
  | nil => rfl
  | cons q taken ih =>
    unfold Store.AutoclaimReply.claimedIds autoclaimReply at ih ⊢
    dsimp only at ih ⊢
    cases h : s.entries[q.id]? with
    | none =>
      have hmem : q.id ∉ s.entries := FinMap.not_mem_iff_getElem?.mpr h
      rw [List.filterMap_cons_none (by rw [h]; rfl), List.map_cons,
        List.filter_cons_of_neg (by simpa using hmem)]
      exact ih
    | some fields =>
      have hmem : q.id ∈ s.entries := FinMap.mem_iff_getElem?.mpr ⟨fields, h⟩
      rw [List.filterMap_cons_some (by rw [h]; rfl), List.map_cons, List.map_cons,
        List.filter_cons_of_pos (by simpa using hmem)]
      exact congrArg (q.id :: ·) ih

theorem deleted_autoclaimReply :
    (autoclaimReply s taken left).deleted = (taken.map (·.id)).filter (· ∉ s.entries) := by
  rw [List.filter_map]
  refine congrArg (List.map _) (List.filter_congr fun q _ => ?_)
  rw [Function.comp_apply, Bool.eq_iff_iff, Option.isNone_iff_eq_none, decide_eq_true_eq,
    FinMap.not_mem_iff_getElem?]

end Reply

/-! ## One call -/

section Call

variable {S : Type} [LinearOrder S] {e : Env} {key group consumer : Bytes} {minIdle : UInt64}
  {start : StreamId} {count : Option ℕ} {d : Data S} {s : Stream} {exp : Option Instant}
  {cg : ConsumerGroup}

/-- What is left of the records that qualify after the count. -/
def ConsumerGroup.leftOver (cg : ConsumerGroup) (e : Env) (minIdle : Duration) (start : StreamId)
    (count : Option ℕ) : List Qualifying :=
  (cg.qualifying e minIdle start).drop (cg.toClaim e minIdle start count).length

/-- The group after one call. -/
def ConsumerGroup.afterCall (cg : ConsumerGroup) (e : Env) (consumer : Bytes) (m : Duration)
    (start : StreamId) (count : Option ℕ) : ConsumerGroup :=
  (cg.toClaim e m start count).foldl (autoclaimOne e.now consumer) cg

theorem Store.xautoclaim_found (hl : live e.now d key = some ⟨.stream s, exp⟩)
    (hg : s.groups[group]? = some cg) :
    xautoclaim e key group consumer minIdle start count d =
      (d.insert key ⟨.stream (s.putGroup group
          (cg.afterCall e consumer (.fromMillis minIdle.toNat) start count)), exp⟩,
        .ok (autoclaimReply s (cg.toClaim e (.fromMillis minIdle.toNat) start count)
          (cg.leftOver e (.fromMillis minIdle.toNat) start count))) := by
  unfold xautoclaim modifyGroup
  rw [modifyAs_found hl]
  simp only [hg]
  rfl

theorem toClaim_append_leftOver (cg : ConsumerGroup) (e : Env) (minIdle : Duration)
    (start : StreamId) (count : Option ℕ) :
    cg.toClaim e minIdle start count ++ cg.leftOver e minIdle start count =
      cg.qualifying e minIdle start :=
  takeCount_append_drop count _

/-- A count that is not zero takes something where something is left. -/
theorem toClaim_ne_nil {minIdle : Duration} (hcount : ∀ n ∈ count, 1 ≤ n)
    (h : cg.leftOver e minIdle start count ≠ []) : cg.toClaim e minIdle start count ≠ [] := by
  intro hnil
  have happ := toClaim_append_leftOver cg e minIdle start count
  rw [hnil, List.nil_append] at happ
  cases count with
  | none =>
    have hq : cg.qualifying e minIdle start = [] := hnil
    exact h (happ.trans hq)
  | some n =>
    have hn := hcount n rfl
    rcases List.take_eq_nil_iff.mp hnil with h0 | hq
    · omega
    · exact h (happ.trans hq)

/-- The ids a call takes lie below the id it returns, when it returns one. -/
theorem lt_of_mem_toClaim {minIdle : Duration} (hu : cg.UniqueOwner) {x q : Qualifying}
    {left : List Qualifying} (hleft : cg.leftOver e minIdle start count = x :: left)
    (hq : q ∈ cg.toClaim e minIdle start count) : q.id < x.id := by
  have hlt := pairwise_lt_qualifying hu e minIdle start
  rw [← toClaim_append_leftOver cg e minIdle start count, hleft] at hlt
  exact (List.pairwise_append.mp hlt).2.2 q hq x List.mem_cons_self

/-- What a call does not take of the records that are idle enough comes from the id it returns
on. -/
theorem le_of_mem_leftOver {minIdle : Duration} (hu : cg.UniqueOwner) {x q : Qualifying}
    {left : List Qualifying} (hleft : cg.leftOver e minIdle start count = x :: left)
    (hq : q ∈ cg.leftOver e minIdle start count) : x.id ≤ q.id := by
  have hlt := pairwise_lt_qualifying hu e minIdle start
  rw [← toClaim_append_leftOver cg e minIdle start count] at hlt
  have hpair := (List.pairwise_append.mp hlt).2.1
  rw [hleft] at hpair hq
  rcases List.mem_cons.mp hq with rfl | hq
  · exact le_rfl
  · exact ((List.pairwise_cons.mp hpair).1 q hq).le

end Call

/-! ## Whole sweeps -/

section Sweeps

variable {S : Type} [LinearOrder S] {key group consumer : Bytes} {minIdle : UInt64}
  {count : Option ℕ}

/-- The calls of a sweep at their times: each one starts where the call before it has told, and the
last one tells the end. -/
inductive Sweep (key group consumer : Bytes) (minIdle : UInt64) (count : Option ℕ) :
    List Env → StreamId → Data S → List Store.AutoclaimReply → Data S → Prop where
  | last (e : Env) (start : StreamId) (d d' : Data S) (r : Store.AutoclaimReply)
      (h : Store.xautoclaim e key group consumer minIdle start count d = (d', .ok r))
      (stop : r.nextStartId = .zero) :
      Sweep key group consumer minIdle count [e] start d [r] d'
  | next (e : Env) (es : List Env) (start : StreamId) (d d₁ d' : Data S)
      (r : Store.AutoclaimReply) (rs : List Store.AutoclaimReply)
      (h : Store.xautoclaim e key group consumer minIdle start count d = (d₁, .ok r))
      (go : r.nextStartId ≠ .zero)
      (rest : Sweep key group consumer minIdle count es r.nextStartId d₁ rs d') :
      Sweep key group consumer minIdle count (e :: es) start d (r :: rs) d'

/-- The first call of a sweep succeeds. -/
theorem Sweep.first {e : Env} {es : List Env} {start : StreamId} {d d' : Data S}
    {rs : List Store.AutoclaimReply}
    (h : Sweep key group consumer minIdle count (e :: es) start d rs d') :
    ∃ d₁ r, Store.xautoclaim e key group consumer minIdle start count d = (d₁, .ok r) := by
  cases h with
  | last _ _ _ _ r h => exact ⟨d', r, h⟩
  | next _ _ _ _ d₁ _ r _ h => exact ⟨d₁, r, h⟩

/-- The record of an entry that is pending and idle for long enough. -/
def ConsumerGroup.IdleRecord (cg : ConsumerGroup) (now : Instant) (minIdle : Duration)
    (id : StreamId) (pe : PendingEntry) : Prop :=
  (∃ c, cg.record c id = some pe) ∧ minIdle ≤ Instant.durationSince now pe.deliveryTime

/-- How often the replies report an id as claimed. -/
def claimedCount (rs : List Store.AutoclaimReply) (id : StreamId) : ℕ :=
  (rs.flatMap Store.AutoclaimReply.claimedIds).count id

/-- How often the replies report an id as deleted. -/
def deletedCount (rs : List Store.AutoclaimReply) (id : StreamId) : ℕ :=
  (rs.flatMap Store.AutoclaimReply.deleted).count id

/-- What a sweep from an id on does to a group. -/
structure Swept (entries : FinMap StreamId Fields) (cg cg' : ConsumerGroup) (consumer : Bytes)
    (now : Instant) (minIdle : Duration) (start : StreamId) (rs : List Store.AutoclaimReply) :
    Prop where
  /-- an entry that was idle for long enough is reported once -/
  once : ∀ id pe, start ≤ id → cg.IdleRecord now minIdle id pe →
    claimedCount rs id = (if id ∈ entries then 1 else 0) ∧
      deletedCount rs id = (if id ∈ entries then 0 else 1)
  /-- and is pending for the consumer alone, with one delivery more -/
  moved : ∀ id pe, start ≤ id → cg.IdleRecord now minIdle id pe →
    (∃ t, cg'.record consumer id = some ⟨t, pe.deliveryCount + 1⟩) ∧
      ∀ c, c ≠ consumer → cg'.record c id = none
  /-- nothing before the start is reported or changed -/
  below : ∀ id, id < start → claimedCount rs id = 0 ∧ deletedCount rs id = 0 ∧
    ∀ c, cg'.record c id = cg.record c id
  pending : ∀ id, (∃ c, cg'.owns c id) ↔ ∃ c, cg.owns c id

section Reports

variable {s : Stream} {taken left : List Qualifying} {rs : List Store.AutoclaimReply}
  {id : StreamId}

theorem claimedCount_cons (r : Store.AutoclaimReply) :
    claimedCount (r :: rs) id = r.claimedIds.count id + claimedCount rs id := by
  rw [claimedCount, List.flatMap_cons, List.count_append]
  rfl

theorem deletedCount_cons (r : Store.AutoclaimReply) :
    deletedCount (r :: rs) id = r.deleted.count id + deletedCount rs id := by
  rw [deletedCount, List.flatMap_cons, List.count_append]
  rfl

/-- An id that is taken is reported once, by the list for it. -/
theorem count_of_mem_taken (hlt : taken.Pairwise fun a b => a.id < b.id)
    (hid : id ∈ taken.map (·.id)) :
    (autoclaimReply s taken left).claimedIds.count id = (if id ∈ s.entries then 1 else 0) ∧
      (autoclaimReply s taken left).deleted.count id = (if id ∈ s.entries then 0 else 1) := by
  have hnodup : (taken.map (·.id)).Nodup := by
    rw [List.Nodup, List.pairwise_map]
    exact hlt.imp fun h => h.ne
  have hone := List.count_eq_one_of_mem hnodup hid
  rw [claimedIds_autoclaimReply, deleted_autoclaimReply]
  by_cases hmem : id ∈ s.entries
  · rw [if_pos hmem, if_pos hmem, List.count_filter (by simpa using hmem)]
    refine ⟨hone, List.count_eq_zero.mpr fun h => ?_⟩
    exact absurd hmem (by simpa using (List.mem_filter.mp h).2)
  · rw [if_neg hmem, if_neg hmem]
    refine ⟨List.count_eq_zero.mpr fun h => ?_, ?_⟩
    · exact hmem (by simpa using (List.mem_filter.mp h).2)
    · rw [List.count_filter (by simpa using hmem)]
      exact hone

/-- An id that is not taken is not reported. -/
theorem count_of_not_mem_taken (left : List Qualifying) (hid : id ∉ taken.map (·.id)) :
    (autoclaimReply s taken left).claimedIds.count id = 0 ∧
      (autoclaimReply s taken left).deleted.count id = 0 := by
  rw [claimedIds_autoclaimReply, deleted_autoclaimReply, List.count_eq_zero, List.count_eq_zero]
  exact ⟨fun h => hid (List.mem_filter.mp h).1, fun h => hid (List.mem_filter.mp h).1⟩

end Reports

/-! ### The step -/

section Step

variable {e : Env} {m : Duration} {start : StreamId} {cg : ConsumerGroup}

theorem afterCall_spec (hu : cg.UniqueOwner) (e : Env) (consumer : Bytes) (m : Duration)
    (start : StreamId) (count : Option ℕ) :
    (cg.afterCall e consumer m start count).UniqueOwner ∧
      ∀ id, (∃ c, (cg.afterCall e consumer m start count).owns c id) ↔ ∃ c, cg.owns c id := by
  have hne : (cg.toClaim e m start count).Pairwise fun a b =>
      ¬ (a.consumer = b.consumer ∧ a.id = b.id) :=
    (cg.pairwise_qualifying e m start).sublist (toClaim_sublist cg e m start count)
  have hsteps := foldl_autoclaimOne_steps (p := ∅) e.now consumer hne fun q hq =>
    mem_qualifying ((toClaim_sublist cg e m start count).subset hq)
  exact (moves_spec hsteps hu).2

/-- The record of an entry that the call takes. -/
theorem record_afterCall_of_mem (consumer : Bytes) (hu : cg.UniqueOwner) {q : Qualifying}
    (hq : q ∈ cg.toClaim e m start count) :
    (cg.afterCall e consumer m start count).record consumer q.id =
        some ⟨e.now, q.deliveryCount + 1⟩ ∧
      ∀ c, c ≠ consumer → (cg.afterCall e consumer m start count).record c q.id = none := by
  have hrec : ∀ c, (cg.afterCall e consumer m start count).record c q.id =
      (cg.take q.consumer consumer q.id ⟨e.now, q.deliveryCount + 1⟩).record c q.id :=
    record_foldl_of_mem e.now consumer (pairwise_lt_toClaim hu e m start count) hq
  simp only [hrec, record_take, if_true]
  refine ⟨trivial, fun c hc => ?_⟩
  rw [if_neg (Ne.symm hc)]
  split_ifs with hqc
  · rfl
  · -- no other consumer has the id
    rw [← not_owns_iff_record]
    intro ho
    exact hqc (hu (mem_qualifying ((toClaim_sublist cg e m start count).subset hq)) ho)

theorem record_afterCall_of_not_mem {id : StreamId}
    (hid : id ∉ (cg.toClaim e m start count).map (·.id)) (c : Bytes) :
    (cg.afterCall e consumer m start count).record c id = cg.record c id :=
  record_foldl_of_not_mem e.now consumer hid c

theorem le_of_mem_toClaim {id : StreamId} (hid : id ∈ (cg.toClaim e m start count).map (·.id)) :
    start ≤ id := by
  obtain ⟨q, hq, rfl⟩ := List.mem_map.mp hid
  obtain ⟨_, _, _, hle, _⟩ :=
    mem_qualifying_iff.mp ((toClaim_sublist cg e m start count).subset hq)
  exact hle

/-- A record idle for long enough from the start on is taken or left over. -/
theorem exists_of_idleRecord (count : Option ℕ) {id : StreamId} {pe : PendingEntry} (hle : start ≤ id)
    (h : cg.IdleRecord e.now m id pe) :
    ∃ q : Qualifying, q.id = id ∧ q.deliveryCount = pe.deliveryCount ∧
      (q ∈ cg.toClaim e m start count ∨ q ∈ cg.leftOver e m start count) := by
  obtain ⟨⟨c, hc⟩, hidle⟩ := h
  refine ⟨⟨id, pe.deliveryCount, c⟩, rfl, rfl, ?_⟩
  rw [← List.mem_append, toClaim_append_leftOver]
  exact mem_qualifying_iff.mpr ⟨pe, hc, rfl, hle, hidle⟩

end Step

/-! ### The run -/

section Run

variable {s : Stream} {exp : Option Instant} {cg : ConsumerGroup}

/-- The last call of a sweep: nothing is left over. -/
theorem swept_last {e : Env} {m : Duration} {start : StreamId} (hu : cg.UniqueOwner)
    (hleft : cg.leftOver e m start count = []) :
    Swept s.entries cg (cg.afterCall e consumer m start count) consumer e.now m start
      [autoclaimReply s (cg.toClaim e m start count) (cg.leftOver e m start count)] := by
  have htaken : ∀ id pe, start ≤ id → cg.IdleRecord e.now m id pe →
      ∃ q ∈ cg.toClaim e m start count, q.id = id ∧ q.deliveryCount = pe.deliveryCount := by
    intro id pe hle hidle
    obtain ⟨q, hid, hcount, hq | hq⟩ := exists_of_idleRecord count hle hidle
    · exact ⟨q, hq, hid, hcount⟩
    · rw [hleft] at hq
      cases hq
  refine ⟨fun id pe hle hidle => ?_, fun id pe hle hidle => ?_, fun id hlt => ?_,
    (afterCall_spec hu e consumer m start count).2⟩
  · obtain ⟨q, hq, rfl, -⟩ := htaken id pe hle hidle
    rw [claimedCount_cons, deletedCount_cons]
    exact count_of_mem_taken (pairwise_lt_toClaim hu e m start count)
      (List.mem_map_of_mem hq)
  · obtain ⟨q, hq, rfl, hcount⟩ := htaken id pe hle hidle
    obtain ⟨hmine, hothers⟩ := record_afterCall_of_mem consumer hu hq
    exact ⟨⟨e.now, hcount ▸ hmine⟩, hothers⟩
  · have hnot : id ∉ (cg.toClaim e m start count).map (·.id) := fun h =>
      absurd hlt (not_lt.mpr (le_of_mem_toClaim h))
    obtain ⟨h1, h2⟩ := count_of_not_mem_taken (s := s) (cg.leftOver e m start count) hnot
    rw [claimedCount_cons, deletedCount_cons]
    exact ⟨h1, h2, record_afterCall_of_not_mem hnot⟩

theorem ConsumerGroup.IdleRecord.mono {now now' : Instant} {m : Duration} {id : StreamId} {pe : PendingEntry}
    (h : cg.IdleRecord now m id pe) (hle : now ≤ now') {cg' : ConsumerGroup}
    (hsame : ∀ c, cg'.record c id = cg.record c id) : cg'.IdleRecord now' m id pe := by
  obtain ⟨⟨c, hc⟩, hidle⟩ := h
  refine ⟨⟨c, (hsame c).trans hc⟩, hidle.trans ?_⟩
  exact Int.toNat_le_toNat (sub_le_sub_right hle _)

/-- A call before a sweep from the id that it returns. -/
theorem Swept.cons {e e' : Env} {m : Duration} {start : StreamId} (hu : cg.UniqueOwner)
    {x : Qualifying} {left : List Qualifying} (hleft : cg.leftOver e m start count = x :: left)
    (hstart : start ≤ x.id) (htime : e.now ≤ e'.now) {cg' : ConsumerGroup}
    {rs : List Store.AutoclaimReply}
    (h : Swept s.entries (cg.afterCall e consumer m start count) cg' consumer e'.now m x.id rs) :
    Swept s.entries cg cg' consumer e.now m start
      (autoclaimReply s (cg.toClaim e m start count) (cg.leftOver e m start count) :: rs) := by
  have hbelow : ∀ id ∈ (cg.toClaim e m start count).map (·.id), id < x.id := by
    intro id hid
    obtain ⟨q, hq, rfl⟩ := List.mem_map.mp hid
    exact lt_of_mem_toClaim hu hleft hq
  have hnot : ∀ id, x.id ≤ id → id ∉ (cg.toClaim e m start count).map (·.id) :=
    fun id hle hid => absurd (hbelow id hid) (not_lt.mpr hle)
  refine ⟨fun id pe hle hidle => ?_, fun id pe hle hidle => ?_, fun id hlt => ?_,
    fun id => (h.pending id).trans ((afterCall_spec hu e consumer m start count).2 id)⟩
  · rw [claimedCount_cons, deletedCount_cons]
    obtain ⟨q, rfl, -, hq | hq⟩ := exists_of_idleRecord count hle hidle
    · have hmem := List.mem_map_of_mem (f := (·.id)) hq
      obtain ⟨h1, h2, -⟩ := h.below q.id (hbelow q.id hmem)
      rw [h1, h2, Nat.add_zero, Nat.add_zero]
      exact count_of_mem_taken (pairwise_lt_toClaim hu e m start count) hmem
    · have hx := le_of_mem_leftOver hu hleft hq
      obtain ⟨h1, h2⟩ := count_of_not_mem_taken (s := s) (cg.leftOver e m start count)
        (hnot q.id hx)
      rw [h1, h2, Nat.zero_add, Nat.zero_add]
      exact h.once q.id pe hx (hidle.mono htime (record_afterCall_of_not_mem (hnot q.id hx)))
  · obtain ⟨q, rfl, hcount, hq | hq⟩ := exists_of_idleRecord count hle hidle
    · obtain ⟨-, -, hsame⟩ := h.below q.id (hbelow q.id (List.mem_map_of_mem hq))
      obtain ⟨hmine, hothers⟩ := record_afterCall_of_mem consumer hu hq
      simp only [hsame]
      exact ⟨⟨e.now, hcount ▸ hmine⟩, hothers⟩
    · have hx := le_of_mem_leftOver hu hleft hq
      exact h.moved q.id pe hx (hidle.mono htime (record_afterCall_of_not_mem (hnot q.id hx)))
  · have hno : id ∉ (cg.toClaim e m start count).map (·.id) := fun hid =>
      absurd hlt (not_lt.mpr (le_of_mem_toClaim hid))
    obtain ⟨h1, h2⟩ := count_of_not_mem_taken (s := s) (cg.leftOver e m start count) hno
    obtain ⟨h3, h4, hsame⟩ := h.below id (hlt.trans_le hstart)
    rw [claimedCount_cons, deletedCount_cons, h1, h2, h3, h4]
    exact ⟨rfl, rfl, fun c => (hsame c).trans (record_afterCall_of_not_mem hno c)⟩

/-- The live entry has not expired at a time before its expiry. -/
theorem isExpired_of_lt {x : ValueData S} {now : Instant} (h : ∀ t ∈ exp, now < t) :
    (⟨x, exp⟩ : ValueEntry S).isExpired now = false := by
  cases exp with
  | none => rfl
  | some t => exact decide_eq_false (not_le.mpr (h t rfl))

/-- A sweep from an id on ends: each call leaves fewer pending ids to sweep. -/
theorem exists_sweep (consumer : Bytes) (ids : Finset StreamId) (hcount : ∀ n ∈ count, 1 ≤ n) (es : ℕ → Env)
    (htime : Monotone fun n => (es n).now) (hexp : ∀ n, ∀ t ∈ exp, (es n).now < t)
    {start : StreamId} {d : Data S} (hd : d[key]? = some ⟨.stream s, exp⟩)
    (hg : s.groups[group]? = some cg) (hu : cg.UniqueOwner)
    (hids : ∀ c id, cg.owns c id → id ∈ ids) :
    ∃ n rs d' s' cg', Sweep key group consumer minIdle count ((List.range (n + 1)).map es) start d
        rs d' ∧ d'[key]? = some ⟨.stream s', exp⟩ ∧ s'.groups[group]? = some cg' ∧
      Swept s.entries cg cg' consumer (es 0).now (.fromMillis minIdle.toNat) start rs := by
  induction hk : (ids.filter (start ≤ ·)).card using Nat.strong_induction_on
    generalizing es start d s cg with
  | _ k ih =>
    have hcall : Store.xautoclaim (es 0) key group consumer minIdle start count d = _ :=
      Store.xautoclaim_found (live_eq_some.mpr ⟨hd, isExpired_of_lt (hexp 0)⟩) hg
    have hput : ∀ cg₁, (s.putGroup group cg₁).groups[group]? = some cg₁ := by
      intro cg₁
      show (s.groups.insert group cg₁)[group]? = some cg₁
      rw [FinMap.getElem?_insert', if_pos rfl]
    cases hleft : cg.leftOver (es 0) (.fromMillis minIdle.toNat) start count with
    | nil =>
      refine ⟨0, _, _, _, _, .last (es 0) start d _ _ hcall ?_, ?_, hput _, swept_last hu hleft⟩
      · rw [autoclaimReply, hleft]
        rfl
      · rw [FinMap.getElem?_insert', if_pos rfl]
    | cons x left =>
      obtain ⟨q, hq⟩ := List.exists_mem_of_ne_nil _
        (toClaim_ne_nil hcount (hleft ▸ List.cons_ne_nil x left))
      have hqx := lt_of_mem_toClaim hu hleft hq
      have hqle : start ≤ q.id := le_of_mem_toClaim (List.mem_map_of_mem hq)
      have hnext : (autoclaimReply s (cg.toClaim (es 0) (.fromMillis minIdle.toNat) start count)
          (cg.leftOver (es 0) (.fromMillis minIdle.toNat) start count)).nextStartId = x.id := by
        rw [autoclaimReply, hleft]
        rfl
      have hne : x.id ≠ .zero := by
        intro h0
        rw [h0] at hqx
        exact absurd hqx (not_lt.mpr (StreamId.zero_le _))
      -- the id of `q` is swept and does not come again
      have hcard : (ids.filter (x.id ≤ ·)).card < k := by
        rw [← hk]
        refine Finset.card_lt_card (Finset.ssubset_iff_of_subset ?_ |>.mpr ⟨q.id, ?_, ?_⟩)
        · intro id hid
          rw [Finset.mem_filter] at hid ⊢
          exact ⟨hid.1, (hqle.trans hqx.le).trans hid.2⟩
        · rw [Finset.mem_filter]
          exact ⟨hids q.consumer q.id
            (mem_qualifying ((toClaim_sublist cg _ _ _ _).subset hq)), hqle⟩
        · rw [Finset.mem_filter, not_and, not_le]
          exact fun _ => hqx
      obtain ⟨hu₁, hpending⟩ := afterCall_spec hu (es 0) consumer (.fromMillis minIdle.toNat) start
        count
      obtain ⟨n, rs, d', s', cg', hsweep, hd', hg', hswept⟩ := ih _ hcard (fun n => es (n + 1))
        (fun a b hab => htime (Nat.succ_le_succ hab)) (fun n => hexp (n + 1))
        (d := d.insert key ⟨.stream (s.putGroup group (cg.afterCall (es 0) consumer
          (.fromMillis minIdle.toNat) start count)), exp⟩)
        (by rw [FinMap.getElem?_insert', if_pos rfl]) (hput _) hu₁
        (fun c id ho => by
          obtain ⟨c', hc'⟩ := (hpending id).mp ⟨c, ho⟩
          exact hids c' id hc') rfl
      refine ⟨n + 1, _, d', s', cg', ?_, hd', hg', hswept.cons hu hleft (hqle.trans hqx.le)
        (htime (Nat.zero_le 1))⟩
      rw [List.range_succ_eq_map, List.map_cons, List.map_map]
      exact .next (es 0) _ start d _ d' _ rs hcall (hnext ▸ hne) (hnext.symm ▸ hsweep)

/-- The ids pending in a group. -/
def ConsumerGroup.pendingIds (cg : ConsumerGroup) : Finset StreamId :=
  (cg.consumers.toList.flatMap fun c => c.2.pending.keys).toFinset

theorem mem_pendingIds {c : Bytes} {id : StreamId} (h : cg.owns c id) : id ∈ cg.pendingIds := by
  obtain ⟨con, hcon, hid⟩ := owns_iff.mp h
  rw [pendingIds, List.mem_toFinset, List.mem_flatMap]
  exact ⟨(c, con), Std.ExtTreeMap.mem_toList_iff_getElem?_eq_some.mpr hcon,
    Std.ExtTreeMap.mem_keys.mpr hid⟩

theorem toNat_add_one {n : UInt64} (h : n < 18446744073709551615) :
    (n + 1).toNat = n.toNat + 1 := by
  rw [UInt64.lt_iff_toNat_lt] at h
  have hmax : (18446744073709551615 : UInt64).toNat = 18446744073709551615 := rfl
  rw [UInt64.toNat_add, UInt64.toNat_one, Nat.mod_eq_of_lt (by omega)]

/-- The sweep of a group ends, each entry that was idle for long enough at the first call is reported
once, as claimed if it is still in the stream and as deleted if not, and is then pending for the
consumer alone with one delivery more; the pending ids are the same. -/
def SweepsOnce (key group consumer : Bytes) (minIdle : UInt64) (count : Option ℕ) (es : ℕ → Env)
    (d : Data S) (s : Stream) (exp : Option Instant) (cg : ConsumerGroup) : Prop :=
  ∃ n rs d' s' cg', Sweep key group consumer minIdle count ((List.range (n + 1)).map es) .zero d
      rs d' ∧ d'[key]? = some ⟨.stream s', exp⟩ ∧ s'.groups[group]? = some cg' ∧
    (∀ id, (∃ c, cg'.owns c id) ↔ ∃ c, cg.owns c id) ∧
    ∀ c id pe, cg.record c id = some pe →
      .fromMillis minIdle.toNat ≤ Instant.durationSince (es 0).now pe.deliveryTime →
      claimedCount rs id = (if id ∈ s.entries then 1 else 0) ∧
      deletedCount rs id = (if id ∈ s.entries then 0 else 1) ∧
      (∃ pe', cg'.record consumer id = some pe' ∧
        pe'.deliveryCount.toNat = pe.deliveryCount.toNat + 1) ∧
      ∀ c', c' ≠ consumer → ¬ cg'.owns c' id

/-- A sweep of a live group ends, claims every entry that was idle for long enough at its first call
once, and changes nothing about which ids are pending. -/
theorem autoclaim_sweep_complete (es : ℕ → Env) (htime : Monotone fun n => (es n).now)
    {d : Data S} (hd : d[key]? = some ⟨.stream s, exp⟩)
    (hexp : ∀ n, ∀ t ∈ exp, (es n).now < t) (hg : s.groups[group]? = some cg)
    (hu : cg.UniqueOwner)
    (hmax : ∀ c id pe, cg.record c id = some pe → pe.deliveryCount < 18446744073709551615)
    (hcount : ∀ n ∈ count, 1 ≤ n) :
    SweepsOnce key group consumer minIdle count es d s exp cg := by
  obtain ⟨n, rs, d', s', cg', hsweep, hd', hg', hswept⟩ := exists_sweep consumer
    cg.pendingIds hcount es htime hexp hd hg hu fun _ _ => mem_pendingIds
  refine ⟨n, rs, d', s', cg', hsweep, hd', hg', hswept.pending, fun c id pe hrec hidle => ?_⟩
  have hrecord : cg.IdleRecord (es 0).now (.fromMillis minIdle.toNat) id pe := ⟨⟨c, hrec⟩, hidle⟩
  obtain ⟨hclaimed, hdeleted⟩ := hswept.once id pe (StreamId.zero_le id) hrecord
  obtain ⟨⟨t, ht⟩, hothers⟩ := hswept.moved id pe (StreamId.zero_le id) hrecord
  refine ⟨hclaimed, hdeleted, ⟨_, ht, toNat_add_one (hmax c id pe hrec)⟩, fun c' hc' => ?_⟩
  exact not_owns_iff_record.mpr (hothers c' hc')

end Run

end Sweeps

/-- Two entries pending at `c1`. -/
def pendingStream : Data ℤ :=
  (runActions id (0, ⟨∅, ∅⟩)
    [.op 0 .byKey (.xadd (ascii "s") ∅ (some ⟨1, 0⟩)),
      .op 0 .byKey (.xadd (ascii "s") ∅ (some ⟨2, 0⟩)),
      .op 0 .byKey (.xgroupCreate (ascii "s") (ascii "g") .zero false),
      .op 0 .byKey (.xreadgroup (ascii "g") (ascii "c1") [ascii "s"] [ascii ">"] none)]).2.data

/-- The group in it. -/
def pendingGroup : ConsumerGroup :=
  ((⟨⟨2, 0⟩, ∅⟩ : ConsumerGroup).insertPending (ascii "c1") ⟨1, 0⟩ ⟨0, 1⟩).insertPending
    (ascii "c1") ⟨2, 0⟩ ⟨0, 1⟩

theorem pendingGroup_uniqueOwner : pendingGroup.UniqueOwner := by
  refine ((uniqueOwner_new ⟨2, 0⟩).insertPending _ fun c' hc' => ?_).insertPending _ fun c' hc' => ?_
  · exact absurd hc' (not_owns_new _ _ _)
  · rw [owns_insertPending] at hc'
    rcases hc' with ⟨rfl, -⟩ | hc'
    · rfl
    · exact absurd hc' (not_owns_new _ _ _)

/-- Calls two seconds apart. -/
def everyTwoSeconds (n : ℕ) : Env := ⟨2000000000 * n, 0, .byKey⟩

theorem pendingStream_swept : ∃ s, pendingStream[ascii "s"]? = some ⟨.stream s, none⟩ ∧
    SweepsOnce (ascii "s") (ascii "g") (ascii "c2") 1000 (some 1) everyTwoSeconds pendingStream s
      none pendingGroup := by
  have hlive : liveGroup 0 pendingStream (ascii "s") (ascii "g") = some pendingGroup := by
    decide +kernel
  have hexp : pendingStream[ascii "s"]?.map (·.expiresAt) = some none := by
    decide +kernel
  obtain ⟨s, hs, hg⟩ := liveGroup_eq_some.mp hlive
  obtain ⟨exp, hl⟩ := liveStream_eq_some.mp hs
  have hd := (live_eq_some.mp hl).1
  rw [hd] at hexp
  obtain rfl : exp = none := Option.some.inj hexp
  refine ⟨s, hd, autoclaim_sweep_complete everyTwoSeconds ?_ hd (fun _ _ h => nomatch h) hg
    pendingGroup_uniqueOwner ?_ ?_⟩
  · intro a b hab
    show 2000000000 * (a : ℤ) ≤ 2000000000 * (b : ℤ)
    omega
  · intro c id pe h
    rw [pendingGroup, record_insertPending, record_insertPending] at h
    split_ifs at h
    · cases h
      decide
    · cases h
      decide
    · exact absurd (owns_iff_record.mpr ⟨pe, h⟩) (not_owns_new _ _ _)
  · rintro n ⟨⟩
    exact le_rfl

/-! ## A sweep that outlives its key -/

/-- The stream when it expires after a second. -/
def expiringStream : Data ℤ := (Store.expire ⟨0, 0, .byKey⟩ (ascii "s") 1 pendingStream).1

/-- One call of XAUTOCLAIM for one entry. -/
def claimExpiring (e : Env) (start : StreamId) (d : Data ℤ) :
    Data ℤ × Except StoreError Store.AutoclaimReply :=
  Store.xautoclaim e (ascii "s") (ascii "g") (ascii "c2") 0 start (some 1) d

/-- A sweep whose second call comes after the expiry of the key never ends. -/
theorem expiring_sweep_incomplete :
    ∃ s exp, expiringStream[ascii "s"]? = some ⟨.stream s, exp⟩ ∧
      s.groups[ascii "g"]? = some pendingGroup ∧ pendingGroup.UniqueOwner ∧
      ¬ ∃ n rs d', Sweep (ascii "s") (ascii "g") (ascii "c2") 0 (some 1)
        ((List.range (n + 1)).map everyTwoSeconds) .zero expiringStream rs d' := by
  have hlive : liveGroup 0 expiringStream (ascii "s") (ascii "g") = some pendingGroup := by
    decide +kernel
  obtain ⟨s, hs, hg⟩ := liveGroup_eq_some.mp hlive
  obtain ⟨exp, hl⟩ := liveStream_eq_some.mp hs
  refine ⟨s, exp, (live_eq_some.mp hl).1, hg, pendingGroup_uniqueOwner, ?_⟩
  have hfirst : (claimExpiring (everyTwoSeconds 0) .zero expiringStream).2.toOption.map
      (·.nextStartId) = some ⟨2, 0⟩ := by
    decide +kernel
  have hsecond : (claimExpiring (everyTwoSeconds 1) ⟨2, 0⟩
      (claimExpiring (everyTwoSeconds 0) .zero expiringStream).1).2.toOption.isNone = true := by
    decide +kernel
  have hnext : ∀ d₁ r, claimExpiring (everyTwoSeconds 0) .zero expiringStream = (d₁, .ok r) →
      r.nextStartId = ⟨2, 0⟩ := by
    intro d₁ r h
    rw [h] at hfirst
    exact Option.some.inj hfirst
  rintro ⟨n, rs, d', hsweep⟩
  rw [List.range_succ_eq_map, List.map_cons, List.map_map] at hsweep
  generalize hes : (List.range n).map (everyTwoSeconds ∘ Nat.succ) = es at hsweep
  cases hsweep with
  | last _ _ _ _ r h stop =>
    rw [hnext d' r h] at stop
    cases stop
  | next _ _ _ _ d₁ _ r rs h go rest =>
    rw [hnext d₁ r h] at rest
    cases n with
    | zero =>
      subst hes
      cases rest
    | succ n =>
      rw [List.range_succ_eq_map, List.map_cons] at hes
      subst hes
      obtain ⟨d₂, r₂, h₂⟩ := rest.first
      have hd₁ : (claimExpiring (everyTwoSeconds 0) .zero expiringStream).1 = d₁ :=
        congrArg Prod.fst h
      rw [hd₁, show claimExpiring (everyTwoSeconds 1) ⟨2, 0⟩ d₁ = (d₂, .ok r₂) from h₂] at hsecond
      cases hsecond

end BurnerRedis
