import BurnerRedis.History

/-!
# Claiming pending entries

XCLAIM and XAUTOCLAIM take the record of a pending entry from one consumer and put a new one under
another. `record` reads a record back, and `take` is the one change both commands make. A claim of
several ids is a run of such changes; `claimedIds` and `toClaim` say for which ids.
-/

namespace BurnerRedis

/-- The new record of an id that XCLAIM takes from a consumer. -/
def XclaimOptions.moved (o : XclaimOptions) (now : Instant) (pe : PendingEntry) : PendingEntry :=
  ⟨o.deliveryTime now pe.deliveryTime, o.retrycount.getD (pe.deliveryCount + 1)⟩

namespace ConsumerGroup

variable {cg cg' : ConsumerGroup} {c : Bytes} {id : StreamId}

/-! ## Records -/

/-- The record of an id at a consumer. -/
def record (cg : ConsumerGroup) (c : Bytes) (id : StreamId) : Option PendingEntry :=
  (cg.consumer c).pending[id]?

theorem owns_iff_record : cg.owns c id ↔ ∃ pe, cg.record c id = some pe :=
  FinMap.mem_iff_getElem?

theorem not_owns_iff_record : ¬ cg.owns c id ↔ cg.record c id = none :=
  FinMap.not_mem_iff_getElem?

theorem record_insertPending (cg : ConsumerGroup) (c c' : Bytes) (id id' : StreamId)
    (pe : PendingEntry) :
    (cg.insertPending c id pe).record c' id' =
      if c = c' ∧ id = id' then some pe else cg.record c' id' := by
  unfold record
  rw [consumer_insertPending]
  by_cases hc : c = c'
  · subst hc
    simp
  · simp [hc]

theorem record_removePending (cg : ConsumerGroup) (c c' : Bytes) (id id' : StreamId) :
    (cg.removePending c id).record c' id' =
      if c = c' ∧ id = id' then none else cg.record c' id' := by
  unfold record
  rw [consumer_removePending]
  by_cases hc : c = c'
  · subst hc
    simp
  · simp [hc]

theorem record_of_holder {o : FinMap.WalkOrder} {f : Bytes × PendingEntry}
    (h : cg.holder o id = some f) : cg.record f.1 id = some f.2 := by
  obtain ⟨p, hp, hf⟩ := List.exists_of_findSome?_eq_some h
  obtain ⟨pe, hpe, rfl⟩ := Option.map_eq_some_iff.mp hf
  unfold record consumer
  rw [(FinMap.mem_walk o).mp hp]
  exact hpe

/-! ## Taking a record -/

/-- The record of an id is taken from a consumer, and a new one is put under another. -/
def take (cg : ConsumerGroup) (source consumer : Bytes) (id : StreamId) (pe : PendingEntry) :
    ConsumerGroup :=
  (cg.removePending source id).insertPending consumer id pe

theorem record_take (cg : ConsumerGroup) (source consumer c : Bytes) (id id' : StreamId)
    (pe : PendingEntry) :
    (cg.take source consumer id pe).record c id' =
      if id = id' then
        if consumer = c then some pe else if source = c then none else cg.record c id'
      else cg.record c id' := by
  unfold take
  rw [record_insertPending, record_removePending]
  by_cases hid : id = id'
  · subst hid
    simp
  · simp [hid]

theorem record_take_ne {source consumer : Bytes} {id' : StreamId} (h : id ≠ id')
    (pe : PendingEntry) (c : Bytes) :
    (cg.take source consumer id pe).record c id' = cg.record c id' := by
  rw [record_take, if_neg h]

theorem UniqueOwner.take (hu : cg.UniqueOwner) {source : Bytes} (h : cg.owns source id)
    (consumer : Bytes) (pe : PendingEntry) : (cg.take source consumer id pe).UniqueOwner := by
  refine (hu.removePending source id).insertPending pe fun c' hc' => ?_
  rw [owns_removePending] at hc'
  exact absurd ⟨hu h hc'.2, rfl⟩ hc'.1

/-! ## XCLAIM -/

section Xclaim

variable (e : Env) (consumer : Bytes) (minIdle : Duration) (o : XclaimOptions) (s : Stream)

/-- XCLAIM takes the id, when its turn comes in this group. -/
def claims (cg : ConsumerGroup) (id : StreamId) : Bool :=
  (cg.claimFrom e minIdle o.force id).isSome || (o.force && decide (id ∈ s.entries))

/-- The ids XCLAIM takes, one after the other. -/
def claimedIds : ConsumerGroup → List StreamId → List StreamId
  | _, [] => []
  | cg, id :: ids =>
    (if claims e minIdle o s cg id then [id] else []) ++
      claimedIds (claimOne e consumer minIdle o s (cg, []) id).1 ids

/-- What XCLAIM does with one id: nothing, or it takes the record from the consumer that is found
first, or it makes one where nobody has the id. -/
inductive Turn (cg : ConsumerGroup) (id : StreamId) : Prop where
  | skip (h : claims e minIdle o s cg id = false)
      (eq : ∀ acc, claimOne e consumer minIdle o s (cg, acc) id = (cg, acc))
  | move (source : Bytes) (pe : PendingEntry) (h : claims e minIdle o s cg id = true)
      (holder : cg.holder e.walk id = some (source, pe))
      (idle : minIdle ≤ Instant.durationSince e.now pe.deliveryTime ∨ o.force = true)
      (eq : ∀ acc, claimOne e consumer minIdle o s (cg, acc) id =
        (cg.take source consumer id (o.moved e.now pe), acc ++ claimedEntry o.justid s id))
  | make (h : claims e minIdle o s cg id = true) (holder : cg.holder e.walk id = none)
      (force : o.force = true) (mem : id ∈ s.entries)
      (eq : ∀ acc, claimOne e consumer minIdle o s (cg, acc) id =
        (cg.insertPending consumer id ⟨o.deliveryTime e.now e.now, o.retrycount.getD 1⟩,
          acc ++ claimedEntry o.justid s id))

theorem turn (cg : ConsumerGroup) (id : StreamId) : Turn e consumer minIdle o s cg id := by
  cases hf : cg.claimFrom e minIdle o.force id with
  | some f =>
    obtain ⟨hholder, hidle⟩ := Option.filter_eq_some_iff.mp hf
    rw [Bool.or_eq_true, decide_eq_true_eq] at hidle
    refine .move f.1 f.2 (by simp [claims, hf]) hholder hidle fun acc => ?_
    simp only [claimOne, hf]
    rfl
  | none =>
    cases hforce : o.force && decide (id ∈ s.entries) with
    | false =>
      refine .skip (by simp [claims, hf, hforce]) fun acc => ?_
      simp only [claimOne, hf, hforce]
      rfl
    | true =>
      have h := hforce
      rw [Bool.and_eq_true, decide_eq_true_eq] at h
      refine .make (by simp [claims, hf, hforce]) ?_ h.1 h.2 fun acc => ?_
      · simpa [claimFrom, h.1, Option.eq_none_iff_forall_ne_some] using hf
      · simp only [claimOne, hf, hforce]
        rfl

/-! ### One id and several -/

variable {e consumer minIdle o s}

/-- A turn touches the records of its own id only. -/
theorem record_claimOne_ne (acc : List (StreamId × Option Fields)) {id id' : StreamId}
    (h : id ≠ id') (c : Bytes) :
    (claimOne e consumer minIdle o s (cg, acc) id).1.record c id' = cg.record c id' := by
  cases turn e consumer minIdle o s cg id with
  | skip _ eq => rw [eq]
  | move _ pe _ _ _ eq =>
    rw [eq]
    exact record_take_ne h _ c
  | make _ _ _ _ eq =>
    rw [eq, record_insertPending, if_neg fun hc => h hc.2]

/-- An id that is not taken keeps its records. -/
theorem record_claimOne_of_skip (acc : List (StreamId × Option Fields)) {id : StreamId}
    (h : claims e minIdle o s cg id = false) (c : Bytes) (id' : StreamId) :
    (claimOne e consumer minIdle o s (cg, acc) id).1.record c id' = cg.record c id' := by
  cases turn e consumer minIdle o s cg id with
  | skip _ eq => rw [eq]
  | move _ _ ht => exact absurd (h.symm.trans ht) Bool.false_ne_true
  | make ht => exact absurd (h.symm.trans ht) Bool.false_ne_true

/-- The consumer has an id that it has taken. -/
theorem owns_claimOne_of_claims (acc : List (StreamId × Option Fields)) {id : StreamId}
    (h : claims e minIdle o s cg id = true) :
    (claimOne e consumer minIdle o s (cg, acc) id).1.owns consumer id := by
  cases turn e consumer minIdle o s cg id with
  | skip hs => exact absurd (hs.symm.trans h) Bool.false_ne_true
  | move _ _ _ _ _ eq =>
    rw [eq, take, owns_insertPending]
    exact .inl ⟨rfl, rfl⟩
  | make _ _ _ _ eq =>
    rw [eq, owns_insertPending]
    exact .inl ⟨rfl, rfl⟩

/-- What was pending at a consumer still is, there or at the one that claims. -/
theorem owns_claimOne (acc : List (StreamId × Option Fields)) (id : StreamId) {c : Bytes}
    {id' : StreamId} (h : cg.owns c id') :
    (claimOne e consumer minIdle o s (cg, acc) id).1.owns c id' ∨
      (claimOne e consumer minIdle o s (cg, acc) id).1.owns consumer id' := by
  cases turn e consumer minIdle o s cg id with
  | skip _ eq =>
    rw [eq]
    exact .inl h
  | move source _ _ _ _ eq =>
    rw [eq, take, owns_insertPending, owns_insertPending, owns_removePending]
    by_cases hid : source = c ∧ id = id'
    · exact .inr (.inl ⟨rfl, hid.2⟩)
    · exact .inl (.inr ⟨hid, h⟩)
  | make _ _ _ _ eq =>
    rw [eq, owns_insertPending]
    exact .inl (.inr h)

theorem claimOne_acc (acc : List (StreamId × Option Fields)) (id : StreamId) :
    claimOne e consumer minIdle o s (cg, acc) id =
      ((claimOne e consumer minIdle o s (cg, []) id).1,
        acc ++ if claims e minIdle o s cg id then claimedEntry o.justid s id else []) := by
  cases turn e consumer minIdle o s cg id with
  | skip h eq => rw [eq, eq, h, if_neg Bool.false_ne_true, List.append_nil]
  | move _ _ h _ _ eq => rw [eq, eq, h, if_pos rfl]
  | make h _ _ _ eq => rw [eq, eq, h, if_pos rfl]

/-- An entry is reported under its own id, and not at all when its fields are wanted and gone. -/
theorem mem_claimedEntry {justid : Bool} {id id' : StreamId} :
    id' ∈ (claimedEntry justid s id).map Prod.fst ↔
      id' = id ∧ (justid = true ∨ id ∈ s.entries) := by
  unfold claimedEntry
  rw [FinMap.mem_iff_getElem?]
  cases justid with
  | true => simp
  | false => cases s.entries[id]? <;> simp

/-- Several ids, one after the other. -/
def claimAll (e : Env) (consumer : Bytes) (minIdle : Duration) (o : XclaimOptions) (s : Stream)
    (cg : ConsumerGroup) (ids : List StreamId) : ConsumerGroup × List (StreamId × Option Fields) :=
  ids.foldl (claimOne e consumer minIdle o s) (cg, [])

theorem foldl_claimOne (ids : List StreamId) (acc : List (StreamId × Option Fields)) :
    ids.foldl (claimOne e consumer minIdle o s) (cg, acc) =
      ((claimAll e consumer minIdle o s cg ids).1,
        acc ++ (claimAll e consumer minIdle o s cg ids).2) := by
  induction ids generalizing cg acc with
  | nil => simp [claimAll]
  | cons id ids ih =>
    rw [claimAll, List.foldl_cons, List.foldl_cons, claimOne_acc acc, claimOne_acc [], ih, ih,
      List.nil_append, List.append_assoc]

theorem claimAll_cons (id : StreamId) (ids : List StreamId) :
    claimAll e consumer minIdle o s cg (id :: ids) =
      ((claimAll e consumer minIdle o s (claimOne e consumer minIdle o s (cg, []) id).1 ids).1,
        (if claims e minIdle o s cg id then claimedEntry o.justid s id else []) ++
          (claimAll e consumer minIdle o s (claimOne e consumer minIdle o s (cg, []) id).1 ids).2) := by
  rw [claimAll, List.foldl_cons, claimOne_acc, foldl_claimOne, List.nil_append]

/-- The entries reported are those of the ids taken, as far as they are reported. -/
theorem mem_claimAll {ids : List StreamId} {id : StreamId} :
    id ∈ (claimAll e consumer minIdle o s cg ids).2.map Prod.fst ↔
      id ∈ claimedIds e consumer minIdle o s cg ids ∧ (o.justid = true ∨ id ∈ s.entries) := by
  induction ids generalizing cg with
  | nil => simp [claimAll, claimedIds]
  | cons i ids ih =>
    rw [claimAll_cons, claimedIds, List.map_append, List.mem_append, List.mem_append, ih,
      or_and_right]
    refine or_congr_left ?_
    cases claims e minIdle o s cg i with
    | false => simp
    | true =>
      rw [if_pos rfl, if_pos rfl, mem_claimedEntry, List.mem_singleton]
      constructor
      · rintro ⟨rfl, h⟩
        exact ⟨rfl, h⟩
      · rintro ⟨rfl, h⟩
        exact ⟨rfl, h⟩

/-- The records of an id that is not taken stay as they are. -/
theorem record_claimAll {ids : List StreamId} {id : StreamId}
    (h : id ∉ claimedIds e consumer minIdle o s cg ids) (c : Bytes) :
    (claimAll e consumer minIdle o s cg ids).1.record c id = cg.record c id := by
  induction ids generalizing cg with
  | nil => rfl
  | cons i ids ih =>
    rw [claimedIds, List.mem_append, not_or] at h
    rw [claimAll_cons, ih h.2]
    cases hc : claims e minIdle o s cg i with
    | false => exact record_claimOne_of_skip [] hc c id
    | true =>
      rw [hc, if_pos rfl, List.mem_singleton] at h
      exact record_claimOne_ne [] (Ne.symm h.1) c

/-- What was pending at a consumer still is, there or at the one that claims. -/
theorem owns_claimAll (ids : List StreamId) {c : Bytes} {id : StreamId} (h : cg.owns c id) :
    (claimAll e consumer minIdle o s cg ids).1.owns c id ∨
      (claimAll e consumer minIdle o s cg ids).1.owns consumer id := by
  induction ids generalizing cg c with
  | nil => exact .inl h
  | cons i ids ih =>
    rw [claimAll_cons]
    rcases owns_claimOne [] i h with hc | hc
    · exact ih hc
    · exact .inr (or_self_iff.mp (ih hc))

/-- The consumer has every id that was taken. -/
theorem owns_claimAll_of_mem {ids : List StreamId} {id : StreamId}
    (h : id ∈ claimedIds e consumer minIdle o s cg ids) :
    (claimAll e consumer minIdle o s cg ids).1.owns consumer id := by
  induction ids generalizing cg with
  | nil => cases h
  | cons i ids ih =>
    rw [claimedIds, List.mem_append] at h
    rw [claimAll_cons]
    rcases h with h | h
    · cases hc : claims e minIdle o s cg i with
      | false =>
        rw [hc] at h
        cases h
      | true =>
        rw [hc, if_pos rfl, List.mem_singleton] at h
        subst h
        exact or_self_iff.mp (owns_claimAll ids (owns_claimOne_of_claims [] hc))
    · exact ih h

end Xclaim

/-! ## XAUTOCLAIM -/

section Xautoclaim

variable {e : Env} {minIdle : Duration} {start : StreamId} {count : Option ℕ}

/-- What XAUTOCLAIM takes: the records idle for long enough at an id from the start on, up to the
count. -/
def toClaim (cg : ConsumerGroup) (e : Env) (minIdle : Duration) (start : StreamId)
    (count : Option ℕ) : List Qualifying :=
  takeCount count (cg.qualifying e minIdle start)

theorem mem_qualifying_iff {q : Qualifying} :
    q ∈ cg.qualifying e minIdle start ↔
      ∃ pe, cg.record q.consumer q.id = some pe ∧ q.deliveryCount = pe.deliveryCount ∧
        start ≤ q.id ∧ minIdle ≤ Instant.durationSince e.now pe.deliveryTime := by
  rw [qualifying, List.mem_insertionSort, List.mem_flatMap]
  constructor
  · rintro ⟨⟨c, con⟩, hc, hq⟩
    obtain ⟨⟨id, pe⟩, hid, rfl⟩ := List.mem_map.mp hq
    obtain ⟨hpe, hok⟩ := List.mem_filter.mp hid
    rw [decide_eq_true_eq] at hok
    refine ⟨pe, ?_, rfl, hok⟩
    unfold record consumer
    rw [(FinMap.mem_walk _).mp hc]
    exact (FinMap.mem_walk _).mp hpe
  · rintro ⟨pe, hrec, hcount, hok⟩
    unfold record consumer at hrec
    cases hcon : cg.consumers[q.consumer]? with
    | none =>
      rw [hcon] at hrec
      simp at hrec
    | some con =>
      rw [hcon, Option.getD_some] at hrec
      refine ⟨(q.consumer, con), (FinMap.mem_walk _).mpr hcon, List.mem_map.mpr ⟨(q.id, pe), ?_, ?_⟩⟩
      · rw [List.mem_filter, decide_eq_true_eq]
        exact ⟨(FinMap.mem_walk _).mpr hrec, hok⟩
      · rw [← hcount]

theorem pairwise_le_qualifying (cg : ConsumerGroup) (e : Env) (minIdle : Duration)
    (start : StreamId) : (cg.qualifying e minIdle start).Pairwise fun a b => a.id ≤ b.id := by
  have : Std.Total fun a b : Qualifying => a.id ≤ b.id := ⟨fun a b => le_total a.id b.id⟩
  have : IsTrans Qualifying fun a b => a.id ≤ b.id := ⟨fun _ _ _ => le_trans⟩
  exact List.pairwise_insertionSort _ _

/-- Where no id is pending at two consumers, the ids that qualify increase. -/
theorem pairwise_lt_qualifying (hu : cg.UniqueOwner) (e : Env) (minIdle : Duration)
    (start : StreamId) : (cg.qualifying e minIdle start).Pairwise fun a b => a.id < b.id := by
  have hne : (cg.qualifying e minIdle start).Pairwise fun a b => a.id ≠ b.id := by
    refine (cg.pairwise_qualifying e minIdle start).imp_of_mem fun ha hb h hid => ?_
    refine h ⟨hu (mem_qualifying ha) ?_, hid⟩
    rw [hid]
    exact mem_qualifying hb
  exact ((cg.pairwise_le_qualifying e minIdle start).and hne).imp fun h => lt_of_le_of_ne h.1 h.2

theorem toClaim_sublist (cg : ConsumerGroup) (e : Env) (minIdle : Duration) (start : StreamId)
    (count : Option ℕ) : (cg.toClaim e minIdle start count).Sublist (cg.qualifying e minIdle start) :=
  takeCount_sublist count _

theorem pairwise_lt_toClaim (hu : cg.UniqueOwner) (e : Env) (minIdle : Duration)
    (start : StreamId) (count : Option ℕ) :
    (cg.toClaim e minIdle start count).Pairwise fun a b => a.id < b.id :=
  (pairwise_lt_qualifying hu e minIdle start).sublist (toClaim_sublist cg e minIdle start count)

/-- The records of one id after several are taken: only a claim of that id changes them. -/
theorem record_foldl_of_not_mem (now : Instant) (consumer : Bytes) {qs : List Qualifying}
    {id : StreamId} (h : id ∉ qs.map (·.id)) (c : Bytes) :
    (qs.foldl (autoclaimOne now consumer) cg).record c id = cg.record c id := by
  induction qs generalizing cg with
  | nil => rfl
  | cons q qs ih =>
    rw [List.map_cons, List.mem_cons, not_or] at h
    rw [List.foldl_cons, ih h.2]
    exact record_take_ne (Ne.symm h.1) _ c

theorem record_foldl_of_mem (now : Instant) (consumer : Bytes) {qs : List Qualifying}
    (hlt : qs.Pairwise fun a b => a.id < b.id) {q : Qualifying} (hq : q ∈ qs) (c : Bytes) :
    (qs.foldl (autoclaimOne now consumer) cg).record c q.id =
      (cg.autoclaimOne now consumer q).record c q.id := by
  induction qs generalizing cg with
  | nil => cases hq
  | cons x qs ih =>
    obtain ⟨hx, hrest⟩ := List.pairwise_cons.mp hlt
    rw [List.foldl_cons]
    rcases List.mem_cons.mp hq with rfl | hq
    · refine record_foldl_of_not_mem now consumer ?_ c
      intro hmem
      obtain ⟨y, hy, hid⟩ := List.mem_map.mp hmem
      exact (hx y hy).ne hid.symm
    · rw [ih hrest hq]
      -- the turn of `x` before it is about a smaller id
      have hne := (hx q hq).ne
      show ((cg.take x.consumer consumer x.id _).take q.consumer consumer q.id _).record c q.id =
        (cg.take q.consumer consumer q.id _).record c q.id
      rw [record_take, record_take_ne hne, record_take]

end Xautoclaim

end ConsumerGroup

/-! ## In the store -/

section InStore

variable {S : Type} [LinearOrder S]

/-- A command finds a group of a live stream and leaves another in its place. -/
structure Regroups (now : Instant) (key group : Bytes) (d d' : Data S) (s : Stream)
    (cg cg' : ConsumerGroup) : Prop where
  stream : liveStream now d key = some s
  before : s.groups[group]? = some cg
  after : liveStream now d' key = some (s.putGroup group cg')

theorem Regroups.liveGroup {now : Instant} {key group : Bytes} {d d' : Data S} {s : Stream}
    {cg cg' : ConsumerGroup} (h : Regroups now key group d d' s cg cg') :
    liveGroup now d' key group = some cg' := by
  refine liveGroup_eq_some.mpr ⟨_, h.after, ?_⟩
  show (s.groups.insert group cg')[group]? = some cg'
  rw [FinMap.getElem?_insert', if_pos rfl]

theorem Regroups.unique {now : Instant} {key group : Bytes} {d d' : Data S} {s s' : Stream}
    {cg cg' cg₁ cg₁' : ConsumerGroup} (h : Regroups now key group d d' s cg cg₁)
    (h' : Regroups now key group d d' s' cg' cg₁') : s = s' ∧ cg = cg' ∧ cg₁ = cg₁' := by
  have hs : s = s' := Option.some.inj (h.stream.symm.trans h'.stream)
  subst hs
  refine ⟨rfl, Option.some.inj (h.before.symm.trans h'.before), ?_⟩
  exact Option.some.inj (h.liveGroup.symm.trans h'.liveGroup)

/-- A command on a group that does not fail finds the group. -/
theorem Store.modifyGroup_ok {ρ : Type} {now : Instant} {key group : Bytes} {missing wrong : ρ}
    {f : Stream → ConsumerGroup → ConsumerGroup × ρ} {d d' : Data S} {r : ρ}
    (h : modifyGroup now key group missing wrong f d = (d', r)) (hm : r ≠ missing)
    (hw : r ≠ wrong) : ∃ s cg, r = (f s cg).2 ∧ Regroups now key group d d' s cg (f s cg).1 := by
  unfold modifyGroup at h
  cases look Kind.stream now key d with
  | absent hl =>
    rw [modifyAs_absent hl] at h
    exact absurd (congrArg Prod.snd h).symm hm
  | wrong en hl hd =>
    rw [modifyAs_wrong hl hd] at h
    exact absurd (congrArg Prod.snd h).symm hw
  | found s exp hl =>
    rw [modifyAs_found hl] at h
    cases hg : s.groups[group]? with
    | none =>
      rw [hg] at h
      exact absurd (congrArg Prod.snd h).symm hm
    | some cg =>
      rw [hg] at h
      cases h
      refine ⟨s, cg, rfl, liveStream_eq_some.mpr ⟨exp, hl⟩, hg, ?_⟩
      show liveStream now (d.insert key ⟨.stream (s.putGroup group _), exp⟩) key = _
      rw [liveStream_insert hl, if_pos rfl]

end InStore

end BurnerRedis
