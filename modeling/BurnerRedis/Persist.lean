import BurnerRedis.Edits

/-!
# Snapshots

A snapshot keeps every container as a list and every expiry as the milliseconds that remain. It is
written by `fromStore`, which leaves expired entries out, and read back by `intoRuntime`; the file
between them is taken to give back what was written.

`restored_getElem?` says what a key holds after the two: `persisted` and `restored` of its entry,
if that entry was live. The values come back as they were, except that a pending entry counts as
delivered at the time of the load (`resetTimes`).
-/

open Std (ExtTreeMap)

namespace BurnerRedis

/-- The data map with the script cache beside it. -/
structure Store (S : Type) [LinearOrder S] where
  data : Data S
  scripts : FinMap String String

/-! ## The format -/

structure PersistableConsumer where
  pending : List (StreamId × UInt64)

structure PersistableConsumerGroup where
  lastDeliveredId : StreamId
  consumers : List (Bytes × PersistableConsumer)

structure PersistableStream where
  entries : List (StreamId × List (Bytes × Bytes))
  lastId : StreamId
  groups : List (Bytes × PersistableConsumerGroup)

inductive PersistableValueData (S : Type) where
  | string (v : Bytes)
  | hash (pairs : List (Bytes × Bytes))
  | set (members : List Bytes)
  | sortedSet (members : List (S × Bytes))
  | stream (stream : PersistableStream)
  | list (items : List Bytes)

structure PersistableEntry (S : Type) where
  data : PersistableValueData S
  ttlRemainingMs : Option UInt64

structure PersistableStore (S : Type) where
  entries : List (Bytes × PersistableEntry S)
  scripts : List (String × String)

variable {S : Type} [LinearOrder S]

/-! ## Writing -/

/-- The milliseconds left until an expiry, cut to 64 bits. -/
def ttlRemaining (now : Instant) (expiresAt : Option Instant) : Option UInt64 :=
  expiresAt.bind fun exp =>
    if now < exp then some (UInt64.ofNat (Instant.durationSince exp now).asMillis) else none

def Consumer.persisted (o : FinMap.WalkOrder) (c : Consumer) : PersistableConsumer :=
  ⟨(c.pending.walk o).map fun p => (p.1, p.2.deliveryCount)⟩

def ConsumerGroup.persisted (o : FinMap.WalkOrder) (g : ConsumerGroup) : PersistableConsumerGroup :=
  ⟨g.lastDeliveredId, (g.consumers.walk o).map fun p => (p.1, p.2.persisted o)⟩

def Stream.persisted (o : FinMap.WalkOrder) (s : Stream) : PersistableStream where
  entries := s.entries.toList.map fun p => (p.1, p.2.walk o)
  lastId := s.lastId
  groups := (s.groups.walk o).map fun p => (p.1, p.2.persisted o)

def ValueData.persisted (o : FinMap.WalkOrder) : ValueData S → PersistableValueData S
  | .string v => .string v
  | .hash map => .hash (map.walk o)
  | .set members => .set ((members.walk o).map Prod.fst)
  | .sortedSet zset => .sortedSet ((zset.byMember.walk o).map fun p => (p.2, p.1))
  | .stream s => .stream (s.persisted o)
  | .list l => .list l

def ValueEntry.persisted (e : Env) (en : ValueEntry S) : PersistableEntry S :=
  ⟨en.data.persisted e.walk, ttlRemaining e.now en.expiresAt⟩

/-- `PersistableStore::from_store` -/
def PersistableStore.fromStore (e : Env) (store : Store S) : PersistableStore S where
  entries := ((store.data.walk e.walk).filter fun p => !p.2.isExpired e.now).map fun p =>
    (p.1, p.2.persisted e)
  scripts := store.scripts.walk e.walk

/-! ## Reading -/

/-- The expiry a number of milliseconds stands for; zero is read as no expiry. -/
def expiryAt (now : Instant) (ttlRemainingMs : Option UInt64) : Option Instant :=
  ttlRemainingMs.bind fun ms => if ms = 0 then none else some (now + Duration.fromMillis ms.toNat)

def PersistableConsumer.restored (now : Instant) (c : PersistableConsumer) : Consumer :=
  ⟨.ofList (c.pending.map fun p => (p.1, ⟨now, p.2⟩)) compare⟩

def PersistableConsumerGroup.restored (now : Instant) (g : PersistableConsumerGroup) :
    ConsumerGroup :=
  ⟨g.lastDeliveredId, .ofList (g.consumers.map fun p => (p.1, p.2.restored now)) compare⟩

def PersistableStream.restored (now : Instant) (s : PersistableStream) : Stream where
  entries := .ofList (s.entries.map fun p => (p.1, .ofList p.2 compare)) compare
  lastId := s.lastId
  groups := .ofList (s.groups.map fun p => (p.1, p.2.restored now)) compare

/-- A sorted set is filled without `SortedSet::insert`: each pair goes into both indexes. -/
def SortedSet.restored (members : List (S × Bytes)) : SortedSet S :=
  members.foldl (fun z p => ⟨z.byScore.insert ⟨p.1, p.2⟩ (), z.byMember.insert p.2 p.1⟩) .new

def PersistableValueData.restored (now : Instant) : PersistableValueData S → ValueData S
  | .string v => .string v
  | .hash pairs => .hash (.ofList pairs compare)
  | .set members => .set (.ofList (members.map fun m => (m, ())) compare)
  | .sortedSet members => .sortedSet (SortedSet.restored members)
  | .stream s => .stream (s.restored now)
  | .list items => .list items

def PersistableEntry.restored (now : Instant) (en : PersistableEntry S) : ValueEntry S :=
  ⟨en.data.restored now, expiryAt now en.ttlRemainingMs⟩

/-- `PersistableStore::into_runtime` -/
def PersistableStore.intoRuntime (now : Instant) (p : PersistableStore S) : Store S where
  data := .ofList (p.entries.map fun en => (en.1, en.2.restored now)) compare
  scripts := .ofList p.scripts compare

/-! ## Times that a load resets -/

def Consumer.resetTimes (now : Instant) (c : Consumer) : Consumer :=
  ⟨c.pending.map fun _ pe => ⟨now, pe.deliveryCount⟩⟩

def ConsumerGroup.resetTimes (now : Instant) (g : ConsumerGroup) : ConsumerGroup :=
  { g with consumers := g.consumers.map fun _ c => c.resetTimes now }

def Stream.resetTimes (now : Instant) (s : Stream) : Stream :=
  { s with groups := s.groups.map fun _ g => g.resetTimes now }

/-- The value with every pending entry delivered at `now`, and nothing else changed. -/
def ValueData.resetTimes (now : Instant) : ValueData S → ValueData S
  | .stream s => .stream (s.resetTimes now)
  | v => v

/-! ## There and back -/

theorem Consumer.restored_persisted (o : FinMap.WalkOrder) (now : Instant) (c : Consumer) :
    (c.persisted o).restored now = c.resetTimes now := by
  unfold Consumer.persisted PersistableConsumer.restored Consumer.resetTimes
  rw [List.map_map, ← FinMap.ofList_map_walk o]
  rfl

theorem ConsumerGroup.restored_persisted (o : FinMap.WalkOrder) (now : Instant)
    (g : ConsumerGroup) : (g.persisted o).restored now = g.resetTimes now := by
  unfold ConsumerGroup.persisted PersistableConsumerGroup.restored ConsumerGroup.resetTimes
  rw [List.map_map, ← FinMap.ofList_map_walk o]
  refine congrArg (ConsumerGroup.mk _) (congrArg (ExtTreeMap.ofList · compare) ?_)
  exact List.map_congr_left fun p _ => Prod.ext rfl (p.2.restored_persisted o now)

theorem Stream.restored_persisted (o : FinMap.WalkOrder) (now : Instant) (s : Stream) :
    (s.persisted o).restored now = s.resetTimes now := by
  unfold Stream.persisted PersistableStream.restored Stream.resetTimes
  have hentries : (ExtTreeMap.ofList
      ((s.entries.toList.map fun p => (p.1, p.2.walk o)).map fun p =>
        (p.1, (ExtTreeMap.ofList p.2 compare : Fields))) compare : FinMap StreamId Fields) =
      s.entries := by
    have hid : (fun p : StreamId × Fields =>
        (p.1, (ExtTreeMap.ofList (p.2.walk o) compare : Fields))) = id :=
      funext fun p => Prod.ext rfl (FinMap.ofList_walk o p.2)
    rw [List.map_map]
    refine Eq.trans (congrArg (ExtTreeMap.ofList · compare) ?_) (FinMap.ofList_walk .byKey s.entries)
    exact (congrArg (List.map · s.entries.toList) hid).trans (List.map_id _)
  have hgroups : (ExtTreeMap.ofList
      (((s.groups.walk o).map fun p => (p.1, p.2.persisted o)).map fun p =>
        (p.1, p.2.restored now)) compare : FinMap Bytes ConsumerGroup) =
      s.groups.map fun _ g => g.resetTimes now := by
    rw [List.map_map, ← FinMap.ofList_map_walk o]
    refine congrArg (ExtTreeMap.ofList · compare) ?_
    exact List.map_congr_left fun p _ => Prod.ext rfl (p.2.restored_persisted o now)
  rw [hentries, hgroups]

/-- What filling a sorted set puts into its indexes. -/
theorem SortedSet.foldl_restored (l : List (S × Bytes)) (z : SortedSet S) :
    (∀ k, k ∈ (l.foldl (fun z p =>
        (⟨z.byScore.insert ⟨p.1, p.2⟩ (), z.byMember.insert p.2 p.1⟩ : SortedSet S)) z).byScore ↔
      (k.score, k.member) ∈ l ∨ k ∈ z.byScore) ∧
    (l.foldl (fun z p =>
        (⟨z.byScore.insert ⟨p.1, p.2⟩ (), z.byMember.insert p.2 p.1⟩ : SortedSet S)) z).byMember =
      (l.map fun p => (p.2, p.1)).foldl (fun m p => m.insert p.1 p.2) z.byMember := by
  induction l generalizing z with
  | nil => simp
  | cons p l ih =>
    obtain ⟨hscore, hmember⟩ := ih ⟨z.byScore.insert ⟨p.1, p.2⟩ (), z.byMember.insert p.2 p.1⟩
    refine ⟨fun k => ?_, hmember⟩
    rw [List.foldl_cons, hscore k]
    obtain ⟨s, m⟩ := p
    obtain ⟨s', m'⟩ := k
    simp only [Std.ExtTreeMap.mem_insert, Std.compare_eq_iff_eq, List.mem_cons, Prod.mk.injEq,
      ScoredMember.mk.injEq]
    tauto

/-- A coherent sorted set is filled again to what it was. -/
theorem SortedSet.Coherent.restored {z : SortedSet S} (h : z.Coherent) (o : FinMap.WalkOrder) :
    SortedSet.restored ((z.byMember.walk o).map fun p => (p.2, p.1)) = z := by
  obtain ⟨hscore, hmember⟩ := foldl_restored ((z.byMember.walk o).map fun p => (p.2, p.1)) new
  have hbyMember : (SortedSet.restored ((z.byMember.walk o).map fun p => (p.2, p.1))).byMember =
      z.byMember := by
    refine hmember.trans ?_
    rw [List.map_map]
    refine (congrArg (List.foldl _ _ ·) (List.map_id _)).trans ?_
    exact (FinMap.foldl_insert_eq_ofList _).trans (FinMap.ofList_walk o z.byMember)
  have hbyScore : (SortedSet.restored ((z.byMember.walk o).map fun p => (p.2, p.1))).byScore =
      z.byScore := by
    refine FinMap.ext_mem fun k => (hscore k).trans ?_
    rw [h k.score k.member, ← FinMap.mem_walk o]
    simp [new]
  exact (SortedSet.mk.injEq ..).mpr ⟨hbyScore, hbyMember⟩

/-- A value comes back as it was, but for the delivery times. -/
theorem ValueData.restored_persisted (o : FinMap.WalkOrder) (now : Instant) (v : ValueData S)
    (h : ∀ z, v = .sortedSet z → z.Coherent) :
    (v.persisted o).restored now = v.resetTimes now := by
  cases v with
  | string v => rfl
  | hash map => exact congrArg ValueData.hash (FinMap.ofList_walk o map)
  | set members =>
    refine congrArg ValueData.set (Eq.trans ?_ (FinMap.ofList_walk o members))
    rw [List.map_map]
    exact congrArg (ExtTreeMap.ofList · compare) (List.map_id _)
  | sortedSet z => exact congrArg ValueData.sortedSet ((h z rfl).restored o)
  | stream s => exact congrArg ValueData.stream (s.restored_persisted o now)
  | list l => rfl

/-- What a key holds after a save and a load. -/
theorem restored_getElem? (e : Env) (now : Instant) (store : Store S) (key : Bytes) :
    ((PersistableStore.fromStore e store).intoRuntime now).data[key]? =
      (live e.now store.data key).map fun en => (en.persisted e).restored now := by
  unfold PersistableStore.fromStore PersistableStore.intoRuntime live
  dsimp only
  rw [List.map_map]
  exact FinMap.getElem?_ofList_filter_map e.walk store.data (fun en => !en.isExpired e.now)
    (fun en => (en.persisted e).restored now) key

theorem restored_scripts (e : Env) (now : Instant) (store : Store S) :
    ((PersistableStore.fromStore e store).intoRuntime now).scripts = store.scripts :=
  FinMap.ofList_walk e.walk store.scripts

end BurnerRedis
