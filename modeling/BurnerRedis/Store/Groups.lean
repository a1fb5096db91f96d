import BurnerRedis.Store.Streams

/-!
# Consumer groups

The commands of `store.rs` on the groups of a stream. What each does to its group is a function of
the stream and the group; `modifyGroup` and `readGroup` find the group and put it back.
-/

namespace BurnerRedis

/-! ## Inside a group -/

/-- The entries a read of new messages delivers: the first `count` above the last delivered id. -/
def newEntries (count : Option ℕ) (s : Stream) (cg : ConsumerGroup) : Entries :=
  takeCount count (s.entries.after cg.lastDeliveredId)

/-- Deliver one entry to a consumer. -/
def ConsumerGroup.deliverOne (now : Instant) (consumer : Bytes) (cg : ConsumerGroup)
    (id : StreamId) : ConsumerGroup :=
  ({ cg with lastDeliveredId := id } : ConsumerGroup).insertPending consumer id ⟨now, 1⟩

/-- Deliver entries to a consumer, one after the other. -/
def ConsumerGroup.deliverAll (now : Instant) (consumer : Bytes) (cg : ConsumerGroup)
    (entries : Entries) : ConsumerGroup :=
  entries.foldl (fun cg p => cg.deliverOne now consumer p.1) cg

/-- The start id of a read of pending entries; a text that is no id reads from the beginning. -/
def pendingStart (idStr : Bytes) : StreamId :=
  if idStr = ascii "0" ∨ idStr = ascii "0-0" then .zero else (parseStreamId idStr).getD .zero

/-- The pending entries of a consumer from an id on, as far as they are still in the stream. -/
def pendingEntries (count : Option ℕ) (start : StreamId) (s : Stream) (con : Consumer) : Entries :=
  (takeCount count (con.pending.keys.filter (start ≤ ·))).filterMap fun id =>
    s.entries[id]?.map fun fields => (id, fields)

/-- The consumer XACK finds an entry pending at, the first in the order of the walk. -/
def ConsumerGroup.holder (cg : ConsumerGroup) (o : FinMap.WalkOrder) (id : StreamId) :
    Option (Bytes × PendingEntry) :=
  (cg.consumers.walk o).findSome? fun c => c.2.pending[id]?.map fun pe => (c.1, pe)

/-- Acknowledge one id: it is taken from the first consumer that has it. -/
def ConsumerGroup.ackOne (o : FinMap.WalkOrder) (r : ConsumerGroup × ℤ) (id : StreamId) :
    ConsumerGroup × ℤ :=
  match r.1.holder o id with
  | some (c, _) => (r.1.removePending c id, r.2 + 1)
  | none => r

/-- An entry that XAUTOCLAIM may claim. -/
structure Qualifying where
  id : StreamId
  deliveryCount : UInt64
  consumer : Bytes
deriving DecidableEq

/-- The entries idle for long enough, over all consumers, in the order of their ids. -/
def ConsumerGroup.qualifying (cg : ConsumerGroup) (e : Env) (minIdle : Duration)
    (start : StreamId) : List Qualifying :=
  ((cg.consumers.walk e.walk).flatMap fun c =>
    ((c.2.pending.walk e.walk).filter fun p =>
      start ≤ p.1 ∧ minIdle ≤ Instant.durationSince e.now p.2.deliveryTime).map fun p =>
        (⟨p.1, p.2.deliveryCount, c.1⟩ : Qualifying)).insertionSort fun a b => a.id ≤ b.id

/-- XAUTOCLAIM of one entry: it is moved to the claiming consumer. -/
def ConsumerGroup.autoclaimOne (now : Instant) (consumer : Bytes) (cg : ConsumerGroup)
    (q : Qualifying) : ConsumerGroup :=
  (cg.removePending q.consumer q.id).insertPending consumer q.id ⟨now, q.deliveryCount + 1⟩

/-- The options of XCLAIM. -/
structure XclaimOptions where
  idle : Option UInt64 := none
  retrycount : Option UInt64 := none
  force : Bool := false
  justid : Bool := false
deriving DecidableEq

/-- The delivery time XCLAIM sets: back by the idle time given, `keep` without one. -/
def XclaimOptions.deliveryTime (o : XclaimOptions) (now keep : Instant) : Instant :=
  match o.idle with
  | some idleMs => now - Duration.fromMillis idleMs.toNat
  | none => keep

/-- The consumer XCLAIM takes an entry from: the first that has it, when it has been idle for long
enough there or the claim is forced. -/
def ConsumerGroup.claimFrom (cg : ConsumerGroup) (e : Env) (minIdle : Duration) (force : Bool)
    (id : StreamId) : Option (Bytes × PendingEntry) :=
  (cg.holder e.walk id).filter fun f =>
    minIdle ≤ Instant.durationSince e.now f.2.deliveryTime || force

/-- An entry as XCLAIM returns it, alone or with its fields. -/
def claimedEntry (justid : Bool) (s : Stream) (id : StreamId) :
    List (StreamId × Option Fields) :=
  if justid then [(id, none)]
  else match s.entries[id]? with
    | some fields => [(id, some fields)]
    | none => []

/-- XCLAIM of one id. -/
def ConsumerGroup.claimOne (e : Env) (consumer : Bytes) (minIdle : Duration) (o : XclaimOptions)
    (s : Stream) (r : ConsumerGroup × List (StreamId × Option Fields)) (id : StreamId) :
    ConsumerGroup × List (StreamId × Option Fields) :=
  match r.1.claimFrom e minIdle o.force id with
  | none =>
    if o.force && decide (id ∈ s.entries) then
      (r.1.insertPending consumer id ⟨o.deliveryTime e.now e.now, o.retrycount.getD 1⟩,
        r.2 ++ claimedEntry o.justid s id)
    else r
  | some (fromConsumer, pe) =>
    ((r.1.removePending fromConsumer id).insertPending consumer id
      ⟨o.deliveryTime e.now pe.deliveryTime, o.retrycount.getD (pe.deliveryCount + 1)⟩,
      r.2 ++ claimedEntry o.justid s id)

/-- The error for a key without a stream or a stream without the group. -/
def noGroupError (group key : Bytes) : StoreError := .noGroup (fromUtf8Lossy group) (fromUtf8Lossy key)

namespace Store

variable {S : Type} [LinearOrder S] {α : Type}

/-- Rewrite a group that is there. -/
def modifyGroup {ρ : Type} (now : Instant) (key group : Bytes) (missing wrong : ρ)
    (f : Stream → ConsumerGroup → ConsumerGroup × ρ) : Data S → Data S × ρ :=
  modifyAs .stream now key missing wrong fun stream =>
    match stream.groups[group]? with
    | none => (stream, missing)
    | some cg =>
      ({ stream with groups := stream.groups.insert group (f stream cg).1 }, (f stream cg).2)

/-- Read a group that is there. -/
def readGroup (e : Env) (key group : Bytes) (f : ConsumerGroup → α) :
    Data S → Data S × Except StoreError α :=
  readAs .stream e.now key (.error (noGroupError group key)) (.error .wrongType) fun stream =>
    match stream.groups[group]? with
    | none => .error (noGroupError group key)
    | some cg => .ok (f cg)

/-! ## Commands -/

/-- The id a new group starts from; the greatest id stands for the last one of the stream. -/
def resolveGroupId (id : StreamId) (s : Stream) : StreamId := if id = .max then s.lastId else id

/-- Create a group in a stream. -/
def createGroup (group : Bytes) (id : StreamId) (s : Stream) : Stream × Except StoreError Unit :=
  match s.groups[group]? with
  | some _ => (s, .error .busyGroup)
  | none => ({ s with groups := s.groups.insert group ⟨resolveGroupId id s, ∅⟩ }, .ok ())

/-- XGROUP CREATE. -/
def xgroupCreate (e : Env) (key group : Bytes) (id : StreamId) (mkstream : Bool) :
    Data S → Data S × Except StoreError Unit :=
  if mkstream then upsertAs .stream e.now key .new (.error .wrongType) (createGroup group id)
  else modifyAs .stream e.now key (.error .keyNotFound) (.error .wrongType) (createGroup group id)

/-- XGROUP DESTROY: whether the group was there. -/
def xgroupDestroy (e : Env) (key group : Bytes) : Data S → Data S × Except StoreError Bool :=
  modifyAs .stream e.now key (.ok false) (.error .wrongType) fun stream =>
    ({ stream with groups := stream.groups.erase group }, .ok (decide (group ∈ stream.groups)))

/-- XREADGROUP of one key whose group is there: the group and the entries for the reply. -/
def readOne (e : Env) (consumer idStr : Bytes) (count : Option ℕ) (s : Stream)
    (cg : ConsumerGroup) : ConsumerGroup × Entries :=
  if idStr = ascii ">" then
    (cg.deliverAll e.now consumer (newEntries count s cg), newEntries count s cg)
  else match cg.consumers[consumer]? with
    | none => (cg, [])
    | some con => (cg, pendingEntries count (pendingStart idStr) s con)

/-- XREADGROUP of the pairs of a key and an id, one after the other. A key that fails ends the
command where it is. -/
def xreadgroupPairs (e : Env) (group consumer : Bytes) (count : Option ℕ) :
    List (Bytes × Bytes) → Data S → Data S × Except StoreError ReadReply
  | [], d => (d, .ok [])
  | (key, idStr) :: pairs, d₀ =>
    let d := purge e.now key d₀
    match d[key]? with
    | none => (d, .error (noGroupError group key))
    | some en => match Kind.stream.get? en.data with
      | none => (d, .error .wrongType)
      | some s => match s.groups[group]? with
        | none => (d, .error (noGroupError group key))
        | some cg =>
          let read := readOne e consumer idStr count s cg
          let r := xreadgroupPairs e group consumer count pairs (d.insert key
            { en with data := .stream { s with groups := s.groups.insert group read.1 } })
          (r.1, r.2.map (.push key read.2))

/-- XREADGROUP. -/
def xreadgroup (e : Env) (group consumer : Bytes) (keys ids : List Bytes) (count : Option ℕ) :
    Data S → Data S × Except StoreError ReadReply :=
  xreadgroupPairs e group consumer count (keys.zip ids)

/-- XACK: the number of entries acknowledged. -/
def xack (e : Env) (key group : Bytes) (ids : List StreamId) :
    Data S → Data S × Except StoreError ℤ :=
  modifyGroup e.now key group (.ok 0) (.error .wrongType) fun _ cg =>
    let r := ids.foldl (ConsumerGroup.ackOne e.walk) (cg, 0)
    (r.1, .ok r.2)

/-- The reply of XAUTOCLAIM. -/
structure AutoclaimReply where
  nextStartId : StreamId
  claimed : Entries
  deleted : List StreamId

/-- XAUTOCLAIM. -/
def xautoclaim (e : Env) (key group consumer : Bytes) (minIdleTimeMs : UInt64) (start : StreamId)
    (count : Option ℕ) : Data S → Data S × Except StoreError AutoclaimReply :=
  modifyGroup e.now key group (.error (noGroupError group key)) (.error .wrongType) fun s cg =>
    let qualifying := cg.qualifying e (Duration.fromMillis minIdleTimeMs.toNat) start
    let toProcess := takeCount count qualifying
    let remaining := qualifying.drop toProcess.length
    (toProcess.foldl (ConsumerGroup.autoclaimOne e.now consumer) cg, .ok
      { nextStartId := (remaining.head?.map (·.id)).getD .zero
        claimed := toProcess.filterMap fun q => s.entries[q.id]?.map fun fields => (q.id, fields)
        deleted := (toProcess.filter fun q => s.entries[q.id]?.isNone).map (·.id) })

/-- XCLAIM: the entries claimed. -/
def xclaim (e : Env) (key group consumer : Bytes) (minIdleTimeMs : UInt64) (ids : List StreamId)
    (o : XclaimOptions) : Data S → Data S × Except StoreError (List (StreamId × Option Fields)) :=
  modifyGroup e.now key group (.error (noGroupError group key)) (.error .wrongType) fun s cg =>
    let r := ids.foldl (ConsumerGroup.claimOne e consumer (.fromMillis minIdleTimeMs.toNat) o s)
      (cg, [])
    (r.1, .ok r.2)

/-- A row of XINFO GROUPS; the source gives the numbers as text. -/
structure GroupInfo where
  name : String
  consumers : ℕ
  pending : ℕ
  lastDeliveredId : StreamId

/-- XINFO GROUPS, in the order of the walk. -/
def xinfoGroups (e : Env) (key : Bytes) : Data S → Data S × Except StoreError (List GroupInfo) :=
  readAs .stream e.now key (.ok []) (.error .wrongType) fun stream =>
    .ok ((stream.groups.walk e.walk).map fun g =>
      ⟨fromUtf8Lossy g.1, g.2.consumers.size,
        ((g.2.consumers.walk e.walk).map fun c => c.2.pending.size).sum, g.2.lastDeliveredId⟩)

/-- A row of XINFO CONSUMERS; the source gives the numbers as text. -/
structure ConsumerInfo where
  name : String
  pending : ℕ
  idle : ℕ

/-- XINFO CONSUMERS: the idle time is that of the entry delivered last. -/
def xinfoConsumers (e : Env) (key group : Bytes) :
    Data S → Data S × Except StoreError (List ConsumerInfo) :=
  readGroup e key group fun cg =>
    (cg.consumers.walk e.walk).map fun c =>
      ⟨fromUtf8Lossy c.1, c.2.pending.size,
        (((c.2.pending.walk e.walk).map fun p =>
          (Instant.durationSince e.now p.2.deliveryTime).asMillis).min?).getD 0⟩

/-- A row of XPENDING. -/
structure PendingInfo where
  id : StreamId
  consumer : Bytes
  idleMs : ℕ
  deliveryCount : UInt64

/-- XPENDING over a range of ids. -/
def xpendingRange (e : Env) (key group : Bytes) (minId maxId : StreamId) (count : ℕ)
    (consumerFilter : Option Bytes) (minIdleMs : Option UInt64) :
    Data S → Data S × Except StoreError (List PendingInfo) :=
  readGroup e key group fun cg =>
    let toCheck := match consumerFilter with
      | some name => (cg.consumers[name]?.map fun con => (name, con)).toList
      | none => cg.consumers.walk e.walk
    let rows := toCheck.flatMap fun c =>
      ((c.2.pending.walk e.walk).map fun p =>
        (⟨p.1, c.1, (Instant.durationSince e.now p.2.deliveryTime).asMillis,
          p.2.deliveryCount⟩ : PendingInfo)).filter fun row =>
        minId ≤ row.id ∧ row.id ≤ maxId ∧ minIdleMs.all fun min => min.toNat ≤ row.idleMs
    (rows.insertionSort fun a b => a.id ≤ b.id).take count

/-- The reply of XPENDING without a range. -/
structure PendingSummary where
  total : ℕ
  minId : Option StreamId
  maxId : Option StreamId
  counts : List (Bytes × ℕ)

/-- XPENDING without a range. -/
def xpendingSummary (e : Env) (key group : Bytes) :
    Data S → Data S × Except StoreError PendingSummary :=
  readGroup e key group fun cg =>
    let consumers := (cg.consumers.walk e.walk).filter fun c => 0 < c.2.pending.size
    let ids := consumers.flatMap fun c => (c.2.pending.walk e.walk).map Prod.fst
    { total := (consumers.map fun c => c.2.pending.size).sum
      minId := ids.min?
      maxId := ids.max?
      counts := consumers.map fun c => (c.1, c.2.pending.size) }

end Store

/-! ## What a group goes through -/

open Relation (ReflTransGen)

namespace ConsumerGroup

variable {p : Set Effect} {cg : ConsumerGroup}

theorem compare_eq_lt_iff {a b : StreamId} : compare a b = .lt ↔ a < b := compare_lt_iff_lt

theorem takeCount_sublist {α : Type} (count : Option ℕ) (l : List α) :
    (takeCount count l).Sublist l := by
  cases count with
  | none => exact .refl l
  | some n => exact List.take_sublist n l

/-- The new entries come after the last delivered id, in increasing order. -/
theorem pairwise_newEntries (count : Option ℕ) (s : Stream) (cg : ConsumerGroup) :
    (newEntries count s cg).Pairwise fun a b => a.1 < b.1 := by
  refine List.Pairwise.sublist (takeCount_sublist count _) ?_
  exact (FinMap.pairwise_after s.entries cg.lastDeliveredId).imp fun h => compare_eq_lt_iff.mp h

theorem lt_of_mem_newEntries {count : Option ℕ} {s : Stream} {x : StreamId × Fields}
    (h : x ∈ newEntries count s cg) : cg.lastDeliveredId < x.1 :=
  compare_eq_lt_iff.mp (FinMap.mem_after.mp ((takeCount_sublist count _).subset h)).1

theorem deliverAll_steps (hp : .deliver ∈ p) (now : Instant) (consumer : Bytes) {entries : Entries}
    (hlt : entries.Pairwise fun a b => a.1 < b.1) (hlo : ∀ x ∈ entries, cg.lastDeliveredId < x.1) :
    ReflTransGen (GroupStep p) cg (cg.deliverAll now consumer entries) := by
  induction entries generalizing cg with
  | nil => exact .refl
  | cons x entries ih =>
    obtain ⟨hx, hrest⟩ := List.pairwise_cons.mp hlt
    exact .head (.deliver consumer x.1 _ hp (hlo x List.mem_cons_self)) (ih hrest hx)

theorem owns_of_holder {o : FinMap.WalkOrder} {id : StreamId} {f : Bytes × PendingEntry}
    (h : cg.holder o id = some f) : cg.owns f.1 id := by
  obtain ⟨c, hc, hf⟩ := List.exists_of_findSome?_eq_some h
  obtain ⟨pe, hpe, rfl⟩ := Option.map_eq_some_iff.mp hf
  exact owns_iff.mpr ⟨c.2, (FinMap.mem_walk o).mp hc, FinMap.mem_iff_getElem?.mpr ⟨pe, hpe⟩⟩

theorem not_owns_of_holder {o : FinMap.WalkOrder} {id : StreamId} (h : cg.holder o id = none)
    (c : Bytes) : ¬ cg.owns c id := by
  intro hc
  obtain ⟨con, hcon, hid⟩ := owns_iff.mp hc
  obtain ⟨pe, hpe⟩ := FinMap.mem_iff_getElem?.mp hid
  have := List.findSome?_eq_none_iff.mp h (c, con) ((FinMap.mem_walk o).mpr hcon)
  simp [hpe] at this

theorem foldl_ackOne_steps (hp : .ack ∈ p) (o : FinMap.WalkOrder) (ids : List StreamId) (n : ℤ) :
    ReflTransGen (GroupStep p) cg (ids.foldl (ackOne o) (cg, n)).1 := by
  induction ids generalizing cg n with
  | nil => exact .refl
  | cons id ids ih =>
    rw [List.foldl_cons]
    unfold ackOne
    cases cg.holder o id with
    | none => exact ih n
    | some f => exact .head (.ack f.1 id hp) (ih _)

/-! ### Claims -/

theorem mem_qualifying {e : Env} {minIdle : Duration} {start : StreamId} {q : Qualifying}
    (h : q ∈ cg.qualifying e minIdle start) : cg.owns q.consumer q.id := by
  rw [qualifying, List.mem_insertionSort, List.mem_flatMap] at h
  obtain ⟨⟨c, con⟩, hc, hq⟩ := h
  obtain ⟨⟨id, pe⟩, hid, rfl⟩ := List.mem_map.mp hq
  exact owns_iff.mpr ⟨con, (FinMap.mem_walk _).mp hc,
    FinMap.mem_iff_getElem?.mpr ⟨pe, (FinMap.mem_walk _).mp (List.mem_filter.mp hid).1⟩⟩

/-- An entry qualifies once for each consumer it is pending at. -/
theorem pairwise_qualifying (cg : ConsumerGroup) (e : Env) (minIdle : Duration) (start : StreamId) :
    (cg.qualifying e minIdle start).Pairwise fun a b =>
      ¬ (a.consumer = b.consumer ∧ a.id = b.id) := by
  have hsymm : ∀ a b : Qualifying, ¬ (a.consumer = b.consumer ∧ a.id = b.id) →
      ¬ (b.consumer = a.consumer ∧ b.id = a.id) := fun a b h hb => h ⟨hb.1.symm, hb.2.symm⟩
  refine ((List.perm_insertionSort _ _).pairwise_iff (hsymm _ _)).mpr ?_
  refine List.pairwise_flatMap.mpr ⟨fun c _ => ?_, ?_⟩
  · rw [List.pairwise_map]
    refine List.Pairwise.filter _ ?_
    have := FinMap.nodup_fst_walk e.walk c.2.pending
    rw [List.Nodup, List.pairwise_map] at this
    exact this.imp fun hne h => hne h.2
  · have := FinMap.nodup_fst_walk e.walk cg.consumers
    rw [List.Nodup, List.pairwise_map] at this
    refine this.imp fun hne a ha b hb h => hne ?_
    obtain ⟨_, -, rfl⟩ := List.mem_map.mp ha
    obtain ⟨_, -, rfl⟩ := List.mem_map.mp hb
    exact h.1

theorem foldl_autoclaimOne_steps (now : Instant) (consumer : Bytes) {qs : List Qualifying}
    (hne : qs.Pairwise fun a b => ¬ (a.consumer = b.consumer ∧ a.id = b.id))
    (ho : ∀ q ∈ qs, cg.owns q.consumer q.id) :
    ReflTransGen (GroupStep p) cg (qs.foldl (autoclaimOne now consumer) cg) := by
  induction qs generalizing cg with
  | nil => exact .refl
  | cons q qs ih =>
    obtain ⟨hq, hrest⟩ := List.pairwise_cons.mp hne
    refine .head (.move q.consumer consumer q.id _ (ho q List.mem_cons_self)) (ih hrest ?_)
    intro q' hq'
    rw [owns_insertPending, owns_removePending]
    exact .inr ⟨hq q' hq', ho q' (List.mem_cons_of_mem q hq')⟩

theorem claimOne_steps {e : Env} {consumer : Bytes} {minIdle : Duration} {o : XclaimOptions}
    {s : Stream} (hp : o.force = true → .force ∈ p) (acc : List (StreamId × Option Fields))
    (id : StreamId) :
    ReflTransGen (GroupStep p) cg (claimOne e consumer minIdle o s (cg, acc) id).1 := by
  unfold claimOne
  cases hf : cg.claimFrom e minIdle o.force id with
  | some f =>
    have hf' := (Option.filter_eq_some_iff.mp hf).1
    exact .single (.move f.1 consumer id _ (owns_of_holder hf'))
  | none =>
    dsimp only
    split
    · rename_i h
      rw [Bool.and_eq_true] at h
      refine .single (.force consumer id _ (hp h.1) (not_owns_of_holder (o := e.walk) ?_))
      simpa [claimFrom, h.1, Option.eq_none_iff_forall_ne_some] using hf
    · exact .refl

theorem foldl_claimOne_steps {e : Env} {consumer : Bytes} {minIdle : Duration} {o : XclaimOptions}
    {s : Stream} (hp : o.force = true → .force ∈ p) (ids : List StreamId)
    (acc : List (StreamId × Option Fields)) :
    ReflTransGen (GroupStep p) cg (ids.foldl (claimOne e consumer minIdle o s) (cg, acc)).1 := by
  induction ids generalizing cg acc with
  | nil => exact .refl
  | cons id ids ih => exact (claimOne_steps hp acc id).trans (ih _)

end ConsumerGroup

/-! ## What the commands edit -/

section Edits

variable {S : Type} [LinearOrder S] {e : Env} {p : Set Effect} {key group : Bytes} {d : Data S}

namespace Store

theorem createGroup_steps (hp : .create ∈ p) (id : StreamId) (s : Stream) :
    ReflTransGen (StreamStep p) s (createGroup group id s).1 := by
  unfold createGroup
  split
  · exact .refl
  · rename_i hg
    exact .single (.create group _ hp hg)

theorem readOne_steps (hp : .deliver ∈ p) {consumer idStr : Bytes} {count : Option ℕ} {s : Stream}
    {cg : ConsumerGroup} :
    ReflTransGen (GroupStep p) cg (readOne e consumer idStr count s cg).1 := by
  unfold readOne
  split
  · exact ConsumerGroup.deliverAll_steps hp e.now consumer
      (ConsumerGroup.pairwise_newEntries count s cg)
      fun _ => ConsumerGroup.lt_of_mem_newEntries
  · split <;> exact .refl

theorem xreadgroupPairs_edits (hp : .deliver ∈ p) {consumer : Bytes} {count : Option ℕ}
    {pairs : List (Bytes × Bytes)} :
    Edits e.now p d (xreadgroupPairs e group consumer count pairs d).1 := by
  induction pairs generalizing d with
  | nil => exact .refl
  | cons pair pairs ih =>
    obtain ⟨key, idStr⟩ := pair
    have hpurge : Edits e.now p d (purge e.now key d) := purge_edits
    refine hpurge.trans ?_
    unfold xreadgroupPairs
    dsimp only
    split
    · exact .refl
    · rename_i en hen
      split
      · exact .refl
      · rename_i s hs
        split
        · exact .refl
        · rename_i cg hcg
          refine .head (.write _ key _ ?_) ih
          rw [liveData_purge, liveData, live_of_getElem?_purge hen, Option.map_some,
            Kind.stream.get?_eq_some.mp hs]
          exact .of_steps (StreamStep.of_group hcg (readOne_steps hp))

theorem xreadgroup_edits (hp : .deliver ∈ p) {consumer : Bytes} {keys ids : List Bytes}
    {count : Option ℕ} : Edits e.now p d (xreadgroup e group consumer keys ids count d).1 :=
  xreadgroupPairs_edits hp

end Store

end Edits

end BurnerRedis
