import BurnerRedis.Store.Groups

/-!
# Reading through a consumer group

What XREADGROUP finds under a key (`liveStream`, `liveGroup`), what delivering entries does to a
group, and `xreadgroupPairs_cons`: the loop of the command either stops at a key without the group,
with nothing done there, or puts one group back and goes on.
-/

namespace BurnerRedis

variable {S : Type} [LinearOrder S]

/-! ## Groups under live keys -/

/-- The live stream under a key. -/
def liveStream (now : Instant) (d : Data S) (key : Bytes) : Option Stream :=
  (live now d key).bind fun en => Kind.stream.get? en.data

/-- The group of that name in the live stream under a key. -/
def liveGroup (now : Instant) (d : Data S) (key group : Bytes) : Option ConsumerGroup :=
  (liveStream now d key).bind fun s => s.groups[group]?

theorem liveStream_eq_some {now : Instant} {d : Data S} {key : Bytes} {s : Stream} :
    liveStream now d key = some s ↔ ∃ exp, live now d key = some ⟨.stream s, exp⟩ := by
  unfold liveStream
  cases hl : live now d key with
  | none => simp
  | some en =>
    obtain ⟨x, exp⟩ := en
    rw [Option.bind_some, Kind.stream.get?_eq_some]
    constructor
    · intro h
      exact ⟨exp, congrArg (fun y => some (ValueEntry.mk y exp)) h⟩
    · rintro ⟨exp', h⟩
      cases h
      rfl

theorem liveData_of_stream {now : Instant} {d : Data S} {key : Bytes} {s : Stream} :
    liveStream now d key = some s ↔ liveData now d key = some (.stream s) := by
  rw [liveStream_eq_some, liveData, Option.map_eq_some_iff]
  constructor
  · rintro ⟨exp, h⟩
    exact ⟨_, h, rfl⟩
  · rintro ⟨⟨x, exp⟩, h, hx⟩
    obtain rfl : x = .stream s := hx
    exact ⟨exp, h⟩

theorem liveGroup_eq_some {now : Instant} {d : Data S} {key group : Bytes} {cg : ConsumerGroup} :
    liveGroup now d key group = some cg ↔
      ∃ s, liveStream now d key = some s ∧ s.groups[group]? = some cg :=
  Option.bind_eq_some_iff

/-- Put a group back into its stream. -/
def Stream.putGroup (s : Stream) (group : Bytes) (cg : ConsumerGroup) : Stream :=
  { s with groups := s.groups.insert group cg }

@[simp] theorem Stream.putGroup_entries (s : Stream) (group : Bytes) (cg : ConsumerGroup) :
    (s.putGroup group cg).entries = s.entries := rfl

@[simp] theorem Stream.putGroup_lastId (s : Stream) (group : Bytes) (cg : ConsumerGroup) :
    (s.putGroup group cg).lastId = s.lastId := rfl

@[simp] theorem Stream.putGroup_groups (s : Stream) (group g : Bytes) (cg : ConsumerGroup) :
    (s.putGroup group cg).groups[g]? = if group = g then some cg else s.groups[g]? :=
  FinMap.getElem?_insert' s.groups group g cg

/-- The stream of a live entry rewritten in place. -/
theorem liveStream_insert {now : Instant} {d : Data S} {key : Bytes} {s : Stream}
    {exp : Option Instant} (h : live now d key = some ⟨.stream s, exp⟩) (s' : Stream) (k : Bytes) :
    liveStream now (d.insert key ⟨.stream s', exp⟩) k =
      if key = k then some s' else liveStream now d k := by
  unfold liveStream
  rw [live_insert]
  split_ifs with hk
  · have hexp : (⟨.stream s', exp⟩ : ValueEntry S).isExpired now = false :=
      (live_eq_some.mp h).2
    rw [Option.filter_some, hexp]
    rfl
  · rfl

theorem liveStream_purge (now : Instant) (key k : Bytes) (d : Data S) :
    liveStream now (purge now key d) k = liveStream now d k := by
  rw [liveStream, live_purge, liveStream]

theorem liveGroup_purge (now : Instant) (key k group : Bytes) (d : Data S) :
    liveGroup now (purge now key d) k group = liveGroup now d k group := by
  rw [liveGroup, liveStream_purge, liveGroup]

theorem liveGroup_insert {now : Instant} {d : Data S} {key : Bytes} {s : Stream}
    {exp : Option Instant} (h : live now d key = some ⟨.stream s, exp⟩) (group g : Bytes)
    (cg : ConsumerGroup) (k : Bytes) :
    liveGroup now (d.insert key ⟨.stream (s.putGroup group cg), exp⟩) k g =
      if key = k ∧ group = g then some cg else liveGroup now d k g := by
  have hs : liveStream now d key = some s := liveStream_eq_some.mpr ⟨exp, h⟩
  unfold liveGroup
  rw [liveStream_insert h]
  by_cases hk : key = k
  · subst hk
    rw [if_pos rfl, hs, Option.bind_some, Option.bind_some, Stream.putGroup_groups]
    simp only [true_and]
  · rw [if_neg hk, if_neg fun hkg => hk hkg.1]

/-- The pairs XREADGROUP gets to: those before the first key without the group. -/
def readablePairs (now : Instant) (d : Data S) (group : Bytes) (pairs : List (Bytes × Bytes)) :
    List (Bytes × Bytes) :=
  pairs.takeWhile fun p => (liveGroup now d p.1 group).isSome

theorem readablePairs_cons {now : Instant} {d : Data S} {key group : Bytes} {cg : ConsumerGroup}
    (h : liveGroup now d key group = some cg) (idStr : Bytes) (pairs : List (Bytes × Bytes)) :
    readablePairs now d group ((key, idStr) :: pairs) =
      (key, idStr) :: readablePairs now d group pairs := by
  unfold readablePairs
  rw [List.takeWhile_cons_of_pos]
  simp only [h, Option.isSome_some]

theorem readablePairs_cons_none {now : Instant} {d : Data S} {key group : Bytes}
    (h : liveGroup now d key group = none) (idStr : Bytes) (pairs : List (Bytes × Bytes)) :
    readablePairs now d group ((key, idStr) :: pairs) = [] := by
  unfold readablePairs
  rw [List.takeWhile_cons_of_neg]
  simp only [h, Option.isSome_none, Bool.false_eq_true, not_false_iff]

/-- Putting a group back does not change how far XREADGROUP gets. -/
theorem readablePairs_insert {now : Instant} {d : Data S} {key : Bytes} {s : Stream}
    {exp : Option Instant} (h : live now d key = some ⟨.stream s, exp⟩) {group : Bytes}
    {cg : ConsumerGroup} (hcg : s.groups[group]? = some cg) (cg' : ConsumerGroup)
    (pairs : List (Bytes × Bytes)) :
    readablePairs now (d.insert key ⟨.stream (s.putGroup group cg'), exp⟩) group pairs =
      readablePairs now d group pairs := by
  unfold readablePairs
  congr 1
  funext p
  rw [liveGroup_insert h]
  split_ifs with hp
  · have hg : liveGroup now d key group = some cg :=
      liveGroup_eq_some.mpr ⟨s, liveStream_eq_some.mpr ⟨exp, h⟩, hcg⟩
    rw [← hp.1, hg]
    rfl
  · rfl

/-! ## Entries above an id -/

/-- The stream has an entry above the id. -/
def Stream.HasAbove (s : Stream) (lo : StreamId) : Prop := ∃ id ∈ s.entries, lo < id

theorem Stream.after_eq_nil_iff {s : Stream} {lo : StreamId} :
    s.entries.after lo = [] ↔ ¬ s.HasAbove lo := by
  rw [List.eq_nil_iff_forall_not_mem]
  constructor
  · rintro h ⟨id, hid, hlt⟩
    obtain ⟨fields, hf⟩ := FinMap.mem_iff_getElem?.mp hid
    exact h (id, fields) (FinMap.mem_after.mpr ⟨compare_lt_iff_lt.mpr hlt, hf⟩)
  · rintro h ⟨id, fields⟩ hx
    obtain ⟨hlt, hf⟩ := FinMap.mem_after.mp hx
    exact h ⟨id, FinMap.mem_iff_getElem?.mpr ⟨fields, hf⟩, compare_lt_iff_lt.mp hlt⟩

theorem takeCount_eq_nil_iff {α : Type} {count : Option ℕ} {l : List α} :
    takeCount count l = [] ↔ count = some 0 ∨ l = [] := by
  cases count with
  | none => simp [takeCount]
  | some n => simp [takeCount, List.take_eq_nil_iff]

theorem newEntries_eq_nil_iff {count : Option ℕ} {s : Stream} {cg : ConsumerGroup} :
    newEntries count s cg = [] ↔ count = some 0 ∨ ¬ s.HasAbove cg.lastDeliveredId := by
  rw [newEntries, takeCount_eq_nil_iff, Stream.after_eq_nil_iff]

/-! ## Delivering -/

namespace ConsumerGroup

theorem deliverAll_lastDeliveredId (now : Instant) (consumer : Bytes) (cg : ConsumerGroup)
    (entries : Entries) :
    (cg.deliverAll now consumer entries).lastDeliveredId =
      (entries.getLast?.map Prod.fst).getD cg.lastDeliveredId := by
  induction entries using List.reverseRecOn with
  | nil => rfl
  | append_singleton entries x _ =>
    rw [deliverAll, List.foldl_append, List.getLast?_concat]
    rfl

theorem owns_deliverOne (now : Instant) (consumer c : Bytes) (cg : ConsumerGroup)
    (i id : StreamId) :
    (cg.deliverOne now consumer i).owns c id ↔ consumer = c ∧ i = id ∨ cg.owns c id :=
  owns_insertPending ({ cg with lastDeliveredId := i } : ConsumerGroup) consumer c i id _

theorem owns_deliverAll (now : Instant) (consumer c : Bytes) (cg : ConsumerGroup)
    (entries : Entries) (id : StreamId) :
    (cg.deliverAll now consumer entries).owns c id ↔
      consumer = c ∧ id ∈ entries.map Prod.fst ∨ cg.owns c id := by
  induction entries generalizing cg with
  | nil => simp [deliverAll]
  | cons x entries ih =>
    have h := ih (cg.deliverOne now consumer x.1)
    rw [owns_deliverOne] at h
    rw [List.map_cons, List.mem_cons, eq_comm (a := id)]
    refine h.trans ?_
    tauto

theorem takeCount_eq_take {α : Type} (count : Option ℕ) (l : List α) :
    takeCount count l = l.take (count.getD l.length) := by
  cases count with
  | none => exact (List.take_length).symm
  | some n => rfl

/-- What there is to read after a read of new entries: the rest of what there was before. -/
theorem after_deliverAll (now : Instant) (consumer : Bytes) (count : Option ℕ) (s : Stream)
    (cg : ConsumerGroup) :
    s.entries.after (cg.deliverAll now consumer (newEntries count s cg)).lastDeliveredId =
      (s.entries.after cg.lastDeliveredId).drop (newEntries count s cg).length := by
  rw [deliverAll_lastDeliveredId, newEntries, takeCount_eq_take, FinMap.after_getLast_take,
    List.length_take, List.drop_eq_drop_min]

end ConsumerGroup

namespace Store

/-! ## The loop of XREADGROUP -/

/-- The entry of a key with its stream replaced. -/
def putStream (key : Bytes) (s : Stream) (exp : Option Instant) (d : Data S) : Data S :=
  d.insert key ⟨.stream s, exp⟩

/-- XREADGROUP at the first of its keys. -/
theorem xreadgroupPairs_cons (e : Env) (group consumer : Bytes) (count : Option ℕ)
    (key idStr : Bytes) (pairs : List (Bytes × Bytes)) (d : Data S) :
    (liveGroup e.now d key group = none ∧
      ∃ err, xreadgroupPairs e group consumer count ((key, idStr) :: pairs) d =
        (purge e.now key d, .error err)) ∨
    ∃ s exp cg, live e.now d key = some ⟨.stream s, exp⟩ ∧ s.groups[group]? = some cg ∧
      xreadgroupPairs e group consumer count ((key, idStr) :: pairs) d =
        ((xreadgroupPairs e group consumer count pairs (putStream key
            (s.putGroup group (readOne e consumer idStr count s cg).1) exp d)).1,
          (xreadgroupPairs e group consumer count pairs (putStream key
            (s.putGroup group (readOne e consumer idStr count s cg).1) exp d)).2.map
            (.push key (readOne e consumer idStr count s cg).2)) := by
  cases look Kind.stream e.now key d with
  | absent hl =>
    refine .inl ⟨by rw [liveGroup, liveStream, hl]; rfl, noGroupError group key, ?_⟩
    rw [xreadgroupPairs, getElem?_purge, hl]
  | wrong en hl hd =>
    refine .inl ⟨by rw [liveGroup, liveStream, hl, Option.bind_some, hd]; rfl, .wrongType, ?_⟩
    rw [xreadgroupPairs, getElem?_purge, hl]
    simp only [hd]
  | found s exp hl =>
    have hs : liveStream e.now d key = some s := liveStream_eq_some.mpr ⟨exp, hl⟩
    cases hcg : s.groups[group]? with
    | none =>
      refine .inl ⟨by rw [liveGroup, hs, Option.bind_some, hcg], noGroupError group key, ?_⟩
      rw [xreadgroupPairs, getElem?_purge, hl]
      simp only [Kind.get?_wrap, hcg]
    | some cg =>
      refine .inr ⟨s, exp, cg, hl, hcg, ?_⟩
      rw [xreadgroupPairs, getElem?_purge, hl]
      simp only [Kind.get?_wrap, hcg, insert_purge]
      rfl

/-- A read that finds nothing new leaves the group as it is. -/
theorem readOne_of_nothing {e : Env} {consumer idStr : Bytes} {count : Option ℕ} {s : Stream}
    {cg : ConsumerGroup} (h : idStr = ascii ">" → newEntries count s cg = []) :
    (readOne e consumer idStr count s cg).1 = cg := by
  unfold readOne
  split_ifs with hid
  · rw [h hid]
    rfl
  · split <;> rfl

/-- It is then put back as it was, so the data does not change. -/
theorem putStream_of_nothing {e : Env} {key group consumer idStr : Bytes} {count : Option ℕ}
    {d : Data S} {s : Stream} {exp : Option Instant} {cg : ConsumerGroup}
    (hl : live e.now d key = some ⟨.stream s, exp⟩) (hcg : s.groups[group]? = some cg)
    (h : idStr = ascii ">" → newEntries count s cg = []) :
    putStream key (s.putGroup group (readOne e consumer idStr count s cg).1) exp d = d := by
  rw [readOne_of_nothing h, putStream, Stream.putGroup, FinMap.insert_self_of_getElem? hcg]
  exact FinMap.insert_self_of_getElem? (live_eq_some.mp hl).1

/-- XREADGROUP fails exactly when some key has no such group. -/
theorem xreadgroupPairs_error_iff {e : Env} {group consumer : Bytes} {count : Option ℕ}
    {pairs : List (Bytes × Bytes)} {d : Data S} :
    (∃ err, (xreadgroupPairs e group consumer count pairs d).2 = .error err) ↔
      readablePairs e.now d group pairs ≠ pairs := by
  induction pairs generalizing d with
  | nil => simp [xreadgroupPairs, readablePairs]
  | cons pair pairs ih =>
    obtain ⟨key, idStr⟩ := pair
    rcases xreadgroupPairs_cons e group consumer count key idStr pairs d with
      ⟨hg, err, herr⟩ | ⟨s, exp, cg, hl, hcg, hcons⟩
    · rw [herr, readablePairs_cons_none hg]
      simp
    · have hs : liveStream e.now d key = some s := liveStream_eq_some.mpr ⟨exp, hl⟩
      rw [hcons, readablePairs_cons (liveGroup_eq_some.mpr ⟨s, hs, hcg⟩), ne_eq,
        List.cons_inj_right, ← ne_eq, ← readablePairs_insert hl hcg, ← putStream, ← ih]
      cases (xreadgroupPairs e group consumer count pairs (putStream key (s.putGroup
        group (readOne e consumer idStr count s cg).1) exp d)).2 with
      | error err => simp [Except.map]
      | ok r => simp [Except.map]

end Store

end BurnerRedis
