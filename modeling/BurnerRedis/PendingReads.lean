import BurnerRedis.Lib.Selection
import BurnerRedis.Machine
import BurnerRedis.Reading

/-!
# Reading one's own pending entries

XREADGROUP with an explicit id gives a consumer back what it has not acknowledged. Three selections
meet a limit there: the ids pending for the consumer, from the start id on, that are still in the
stream. The limit is put before the last of them, so `HistoryExact` holds as long as the limit falls
at no missing entry with one behind it that is not missing (`LimitSpares`).
-/

namespace BurnerRedis

variable {S : Type} [LinearOrder S]

/-! ## What there is to give back -/

/-- The ids pending for a consumer from an id on, in increasing order. -/
def ConsumerGroup.pendingFrom (cg : ConsumerGroup) (consumer : Bytes) (start : StreamId) :
    List StreamId :=
  (cg.consumer consumer).pending.keys.filter (start ≤ ·)

/-- The entries of the stream from an id on that are pending for a consumer, in increasing order
of their ids. -/
def Stream.recoverable (s : Stream) (cg : ConsumerGroup) (consumer : Bytes) (start : StreamId) :
    Entries :=
  s.entries.toList.filter fun p => start ≤ p.1 ∧ cg.owns consumer p.1

/-- An entry of the stream as XREADGROUP returns it. -/
def Stream.entry? (s : Stream) (id : StreamId) : Option (StreamId × Fields) :=
  s.entries[id]?.map fun fields => (id, fields)

theorem Stream.entry?_eq_some {s : Stream} {id : StreamId} {p : StreamId × Fields} :
    s.entry? id = some p ↔ id = p.1 ∧ s.entries[p.1]? = some p.2 := by
  obtain ⟨id', fields⟩ := p
  unfold Stream.entry?
  rw [Option.map_eq_some_iff]
  constructor
  · rintro ⟨f, hf, heq⟩
    cases heq
    exact ⟨rfl, hf⟩
  · rintro ⟨rfl, hf⟩
    exact ⟨fields, hf, rfl⟩

theorem Stream.entry?_eq_none {s : Stream} {id : StreamId} :
    s.entry? id = none ↔ id ∉ s.entries := by
  unfold Stream.entry?
  rw [Option.map_eq_none_iff, FinMap.not_mem_iff_getElem?]

theorem Stream.isSome_entry? {s : Stream} {id : StreamId} :
    (s.entry? id).isSome = decide (id ∈ s.entries) := by
  unfold Stream.entry?
  rw [Option.isSome_map, Bool.eq_iff_iff, decide_eq_true_eq, Std.ExtTreeMap.mem_iff_isSome_getElem?]

namespace ConsumerGroup

variable {cg : ConsumerGroup} {consumer : Bytes} {start id : StreamId} {s : Stream}
  {count : Option ℕ}

theorem mem_pendingFrom : id ∈ cg.pendingFrom consumer start ↔ start ≤ id ∧ cg.owns consumer id := by
  unfold pendingFrom owns
  rw [List.mem_filter, Std.ExtTreeMap.mem_keys, decide_eq_true_eq, and_comm]

theorem pendingFrom_ordered : (cg.pendingFrom consumer start).Pairwise (· < ·) := by
  apply List.Pairwise.filter
  apply Std.ExtTreeMap.ordered_keys.imp
  intro a b h
  exact compare_lt_iff_lt.mp h

end ConsumerGroup

/-- Without a limit the entries are those that can be recovered. -/
theorem filterMap_pendingFrom (s : Stream) (cg : ConsumerGroup) (consumer : Bytes)
    (start : StreamId) :
    (cg.pendingFrom consumer start).filterMap s.entry? = s.recoverable cg consumer start := by
  apply eq_of_pairwise_of_mem_iff (r := fun a b => a.1 < b.1)
  · intro a b hab hba
    exact lt_asymm hab hba
  · rw [List.pairwise_filterMap]
    apply ConsumerGroup.pendingFrom_ordered.imp
    intro a b hab p hp q hq
    rw [Stream.entry?_eq_some] at hp hq
    rwa [← hp.1, ← hq.1]
  · apply List.Pairwise.filter
    apply Std.ExtTreeMap.ordered_keys_toList.imp
    intro a b h
    exact compare_lt_iff_lt.mp h
  · intro p
    rw [List.mem_filterMap, Stream.recoverable, List.mem_filter, decide_eq_true_eq,
      Std.ExtTreeMap.mem_toList_iff_getElem?_eq_some]
    simp only [Stream.entry?_eq_some, ConsumerGroup.mem_pendingFrom]
    constructor
    · rintro ⟨id, hid, rfl, hp⟩
      exact ⟨hp, hid⟩
    · rintro ⟨hp, hid⟩
      exact ⟨p.1, hid, rfl, hp⟩

/-- What XREADGROUP gives back of the pending entries. -/
theorem pendingEntries_eq (count : Option ℕ) (start : StreamId) (s : Stream) (cg : ConsumerGroup)
    (consumer : Bytes) :
    pendingEntries count start s (cg.consumer consumer) =
      (takeCount count (cg.pendingFrom consumer start)).filterMap s.entry? := rfl

/-- The limit drops nothing that is still in the stream, or passes over nothing that is not. -/
def LimitSpares (count : Option ℕ) (s : Stream) (pending : List StreamId) : Prop :=
  ∀ n, count = some n →
    (∀ id ∈ pending.take n, id ∈ s.entries) ∨ ∀ id ∈ pending.drop n, id ∉ s.entries

theorem pendingEntries_eq_iff {count : Option ℕ} {start : StreamId} {s : Stream}
    {cg : ConsumerGroup} {consumer : Bytes} :
    pendingEntries count start s (cg.consumer consumer) =
        takeCount count (s.recoverable cg consumer start) ↔
      LimitSpares count s (cg.pendingFrom consumer start) := by
  rw [pendingEntries_eq, ← filterMap_pendingFrom]
  cases count with
  | none => simp [takeCount, LimitSpares]
  | some n =>
    rw [takeCount, takeCount, filterMap_take_eq_iff]
    simp only [Stream.isSome_entry?, Stream.entry?_eq_none, decide_eq_true_eq, LimitSpares,
      Option.some.injEq, forall_eq']

/-! ## The read -/

section Read

variable {e : Env} {d : Data S} {key group consumer idStr : Bytes} {count : Option ℕ} {s : Stream}
  {cg : ConsumerGroup}

/-- XREADGROUP of one key gives back what can be recovered, up to the limit, and changes nothing;
an empty answer then means that there is nothing more to recover. -/
structure HistoryExact (e : Env) (d : Data S) (key group consumer idStr : Bytes) (count : Option ℕ)
    (s : Stream) (cg : ConsumerGroup) : Prop where
  reply : (Store.xreadgroup e group consumer [key] [idStr] count d).2 =
    .ok (.push key (takeCount count (s.recoverable cg consumer (pendingStart idStr))) [])
  data : (Store.xreadgroup e group consumer [key] [idStr] count d).1 = d
  drained : count ≠ some 0 → (Store.xreadgroup e group consumer [key] [idStr] count d).2 = .ok [] →
    s.recoverable cg consumer (pendingStart idStr) = []

/-- An id read from its own text is the start of the read. -/
theorem pendingStart_formatStreamId (id : StreamId) : pendingStart (formatStreamId id) = id := by
  unfold pendingStart
  split_ifs with h
  · rcases h with h | h
    · have hid := parseStreamId_formatStreamId id
      rw [h] at hid
      cases hid
    · have hzero : formatStreamId id = formatStreamId .zero := h.trans (by decide +kernel)
      exact (formatStreamId_injective hzero).symm
  · rw [parseStreamId_formatStreamId, Option.getD_some]

theorem readOne_history (hid : idStr ≠ ascii ">") :
    Store.readOne e consumer idStr count s cg =
      (cg, pendingEntries count (pendingStart idStr) s (cg.consumer consumer)) := by
  unfold Store.readOne ConsumerGroup.consumer
  rw [if_neg hid]
  cases cg.consumers[consumer]? with
  | some con => rfl
  | none =>
    have hkeys : (∅ : FinMap StreamId PendingEntry).keys = [] := by decide
    rw [Option.getD_none, pendingEntries, hkeys]
    cases count with
    | none => rfl
    | some n => rw [List.filter_nil, takeCount, List.take_nil, List.filterMap_nil]

/-- A read of pending entries as a whole. -/
theorem xreadgroup_history {exp : Option Instant} (hl : live e.now d key = some ⟨.stream s, exp⟩)
    (hcg : s.groups[group]? = some cg) (hid : idStr ≠ ascii ">") (consumer : Bytes)
    (count : Option ℕ) :
    Store.xreadgroup e group consumer [key] [idStr] count d =
      (d, .ok (.push key
        (pendingEntries count (pendingStart idStr) s (cg.consumer consumer)) [])) := by
  rcases Store.xreadgroupPairs_cons e group consumer count key idStr [] d with
    ⟨hnone, -⟩ | ⟨s', exp', cg', hl', hcg', hcons⟩
  · have hsome : liveGroup e.now d key group = some cg :=
      liveGroup_eq_some.mpr ⟨s, liveStream_eq_some.mpr ⟨exp, hl⟩, hcg⟩
    rw [hsome] at hnone
    cases hnone
  · rw [hl] at hl'
    cases hl'
    rw [hcg] at hcg'
    cases hcg'
    rw [Store.xreadgroup, List.zip_cons_cons, List.zip_nil_left, hcons,
      Store.putStream_of_nothing hl hcg fun h => absurd h hid, readOne_history hid]
    rfl

theorem ReadReply.push_nil_injective (key : Bytes) {es es' : Entries}
    (h : ReadReply.push key es [] = ReadReply.push key es' []) : es = es' := by
  unfold ReadReply.push at h
  cases es with
  | nil => cases es' with
    | nil => rfl
    | cons p es' => cases h
  | cons p es => cases es' with
    | nil => cases h
    | cons q es' =>
      cases h
      rfl

/-- A read of pending entries is exact exactly when its limit passes over no missing entry before
one that is still there. -/
theorem xreadgroup_history_exact_iff {exp : Option Instant}
    (hl : live e.now d key = some ⟨.stream s, exp⟩) (hcg : s.groups[group]? = some cg)
    (hid : idStr ≠ ascii ">") :
    HistoryExact e d key group consumer idStr count s cg ↔
      LimitSpares count s (cg.pendingFrom consumer (pendingStart idStr)) := by
  have hread := xreadgroup_history hl hcg hid consumer count
  rw [← pendingEntries_eq_iff]
  constructor
  · intro h
    have hreply := h.reply
    rw [hread] at hreply
    exact ReadReply.push_nil_injective key (Except.ok.inj hreply)
  · intro h
    refine ⟨?_, ?_, ?_⟩
    · rw [hread, h]
    · rw [hread]
    · intro hn hempty
      rw [hread, h] at hempty
      have hnil : takeCount count _ = [] :=
        ReadReply.push_nil_injective key (Except.ok.inj hempty)
      exact (takeCount_eq_nil_iff.mp hnil).resolve_left hn

end Read

/-! ## A deleted entry in front -/

/-- Entries `1-0` and `2-0` delivered to one consumer; then `1-0` is deleted. -/
def deletedStream : Data ℤ :=
  let d₀ : Data ℤ := (Store.xadd ⟨0, 0, .byKey⟩ (ascii "s") ∅ (some ⟨1, 0⟩) ∅).1
  let d₁ := (Store.xadd ⟨0, 0, .byKey⟩ (ascii "s") ∅ (some ⟨2, 0⟩) d₀).1
  let d₂ := (Store.xgroupCreate ⟨0, 0, .byKey⟩ (ascii "s") (ascii "g") .zero false d₁).1
  let d₃ := (Store.xreadgroup ⟨0, 0, .byKey⟩ (ascii "g") (ascii "c") [ascii "s"] [ascii ">"] none
    d₂).1
  (Store.xdel ⟨0, 0, .byKey⟩ (ascii "s") [⟨1, 0⟩] d₃).1

/-- Both entries are pending, one of them is still in the stream. -/
theorem deletedStream_found :
    ∃ s exp cg, live 0 deletedStream (ascii "s") = some ⟨.stream s, exp⟩ ∧
      s.groups[ascii "g"]? = some cg ∧ cg.pendingFrom (ascii "c") .zero = [⟨1, 0⟩, ⟨2, 0⟩] ∧
      s.recoverable cg (ascii "c") .zero ≠ [] := by
  have hread : ((liveStream 0 deletedStream (ascii "s")).bind fun s =>
      (s.groups[ascii "g"]?).map fun cg =>
        (cg.pendingFrom (ascii "c") .zero, (s.recoverable cg (ascii "c") .zero).isEmpty)) =
      some ([⟨1, 0⟩, ⟨2, 0⟩], false) := by
    decide +kernel
  obtain ⟨s, hs, hread⟩ := Option.bind_eq_some_iff.mp hread
  obtain ⟨cg, hg, hread⟩ := Option.map_eq_some_iff.mp hread
  obtain ⟨exp, hl⟩ := liveStream_eq_some.mp hs
  obtain ⟨hpending, hleft⟩ := Prod.mk.inj hread
  exact ⟨s, exp, cg, hl, hg, hpending, List.isEmpty_eq_false_iff.mp hleft⟩

/-- With a limit of one the read gives back nothing, though `2-0` can be recovered. -/
theorem deletedStream_history :
    ∃ s exp cg, live 0 deletedStream (ascii "s") = some ⟨.stream s, exp⟩ ∧
      s.groups[ascii "g"]? = some cg ∧
      ¬ HistoryExact ⟨0, 0, .byKey⟩ deletedStream (ascii "s") (ascii "g") (ascii "c") (ascii "0")
        (some 1) s cg := by
  obtain ⟨s, exp, cg, hl, hg, -, hleft⟩ := deletedStream_found
  refine ⟨s, exp, cg, hl, hg, ?_⟩
  intro h
  have hreply : (Store.xreadgroup ⟨0, 0, .byKey⟩ (ascii "g") (ascii "c") [ascii "s"] [ascii "0"]
      (some 1) deletedStream).2.toOption = some [] := by
    decide +kernel
  exact hleft (h.drained (by decide) (eq_ok_of_toOption hreply))

/-- With a limit of two it gives back `2-0`. -/
theorem deletedStream_history_two :
    ∃ s exp cg, live 0 deletedStream (ascii "s") = some ⟨.stream s, exp⟩ ∧
      s.groups[ascii "g"]? = some cg ∧
      HistoryExact ⟨0, 0, .byKey⟩ deletedStream (ascii "s") (ascii "g") (ascii "c") (ascii "0")
        (some 2) s cg := by
  obtain ⟨s, exp, cg, hl, hg, hpending, -⟩ := deletedStream_found
  refine ⟨s, exp, cg, hl, hg, (xreadgroup_history_exact_iff hl hg (by decide)).mpr ?_⟩
  rintro n ⟨⟩
  right
  rw [show pendingStart (ascii "0") = .zero from rfl, hpending]
  intro id hid
  cases hid

end BurnerRedis
