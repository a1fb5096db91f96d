import BurnerRedis.Claims
import BurnerRedis.Lib.Selection

/-!
# What is pending, counted and listed

XPENDING in its two forms, XINFO GROUPS and XINFO CONSUMERS go through the pending entries of a group
each in a way of its own. Here they are all set beside one list, that of the group's records in the
order of their ids (`records`): the counts are its length, a range is a selection from it, and
acknowledging its ids leaves nothing pending.
-/

namespace BurnerRedis

open Store (PendingInfo PendingSummary)

/-! ## The records of a group -/

namespace ConsumerGroup

variable {cg : ConsumerGroup} {e : Env}

/-- The records of a consumer, in the order of the walk. -/
def rowsOf (e : Env) (c : Bytes × Consumer) : List PendingInfo :=
  (c.2.pending.walk e.walk).map fun p =>
    ⟨p.1, c.1, (Instant.durationSince e.now p.2.deliveryTime).asMillis, p.2.deliveryCount⟩

/-- The records of a group in the order of their ids. -/
def records (cg : ConsumerGroup) (e : Env) : List PendingInfo :=
  ((cg.consumers.walk e.walk).flatMap (rowsOf e)).insertionSort fun a b => a.id ≤ b.id

/-- The row is the record of an entry pending at its consumer. -/
def Lists (cg : ConsumerGroup) (now : Instant) (row : PendingInfo) : Prop :=
  ∃ pe, cg.record row.consumer row.id = some pe ∧
    row.idleMs = (Instant.durationSince now pe.deliveryTime).asMillis ∧
    row.deliveryCount = pe.deliveryCount

theorem mem_records {row : PendingInfo} : row ∈ cg.records e ↔ cg.Lists e.now row := by
  rw [records, List.mem_insertionSort, List.mem_flatMap]
  constructor
  · rintro ⟨c, hc, hrow⟩
    obtain ⟨p, hp, rfl⟩ := List.mem_map.mp hrow
    refine ⟨p.2, ?_, rfl, rfl⟩
    unfold record consumer
    rw [(FinMap.mem_walk e.walk).mp hc]
    exact (FinMap.mem_walk e.walk).mp hp
  · rintro ⟨pe, hpe, hidle, hcount⟩
    obtain ⟨con, hcon, -⟩ := owns_iff.mp (owns_iff_record.mpr ⟨pe, hpe⟩)
    refine ⟨(row.consumer, con), (FinMap.mem_walk e.walk).mpr hcon, ?_⟩
    unfold record consumer at hpe
    rw [hcon] at hpe
    refine List.mem_map.mpr ⟨(row.id, pe), (FinMap.mem_walk e.walk).mpr hpe, ?_⟩
    rw [← hidle, ← hcount]

theorem records_ordered : (cg.records e).Pairwise fun a b => a.id ≤ b.id :=
  List.pairwise_insertionSort _ _

theorem length_rowsOf (e : Env) (c : Bytes × Consumer) :
    (rowsOf e c).length = c.2.pending.size := by
  rw [rowsOf, List.length_map, (FinMap.walk_perm e.walk c.2.pending).length_eq,
    Std.ExtTreeMap.length_toList]

/-- There are as many records as the consumers have entries pending. -/
theorem length_records (cg : ConsumerGroup) (e : Env) :
    (cg.records e).length = ((cg.consumers.walk e.walk).map fun c => c.2.pending.size).sum := by
  rw [records, List.length_insertionSort, List.length_flatMap]
  simp only [length_rowsOf]

/-- Consumers with nothing pending add nothing. -/
theorem sum_size_filter (l : List (Bytes × Consumer)) :
    ((l.filter fun c => 0 < c.2.pending.size).map fun c => c.2.pending.size).sum =
      (l.map fun c => c.2.pending.size).sum := by
  induction l with
  | nil => rfl
  | cons c l ih =>
    by_cases hc : 0 < c.2.pending.size
    · rw [List.filter_cons_of_pos (by simpa using hc), List.map_cons, List.sum_cons, ih,
        List.map_cons, List.sum_cons]
    · rw [List.filter_cons_of_neg (by simpa using hc), ih, List.map_cons, List.sum_cons]
      omega

/-- The ids that the summary looks at are those of the records. -/
theorem mem_summary_ids {id : StreamId} :
    (id ∈ ((cg.consumers.walk e.walk).filter fun c => 0 < c.2.pending.size).flatMap fun c =>
      (c.2.pending.walk e.walk).map Prod.fst) ↔ id ∈ (cg.records e).map (·.id) := by
  have hids : ∀ c : Bytes × Consumer, (rowsOf e c).map (·.id) =
      (c.2.pending.walk e.walk).map Prod.fst := by
    intro c
    rw [rowsOf, List.map_map]
    rfl
  have hrecords : id ∈ (cg.records e).map (·.id) ↔
      ∃ c ∈ cg.consumers.walk e.walk, id ∈ (c.2.pending.walk e.walk).map Prod.fst := by
    rw [records, ((List.perm_insertionSort _ _).map _).mem_iff, List.map_flatMap, List.mem_flatMap]
    simp only [hids]
  rw [hrecords, List.mem_flatMap]
  constructor
  · rintro ⟨c, hc, hid⟩
    exact ⟨c, List.mem_of_mem_filter hc, hid⟩
  · rintro ⟨c, hc, hid⟩
    refine ⟨c, List.mem_filter.mpr ⟨hc, ?_⟩, hid⟩
    have hlen := List.length_pos_of_mem hid
    rw [List.length_map, (FinMap.walk_perm e.walk c.2.pending).length_eq,
      Std.ExtTreeMap.length_toList] at hlen
    exact decide_eq_true hlen

/-- The consumer a range is asked for, or all of them. -/
def toCheck (cg : ConsumerGroup) (e : Env) (consumerFilter : Option Bytes) :
    List (Bytes × Consumer) :=
  match consumerFilter with
  | some name => (cg.consumers[name]?.map fun con => (name, con)).toList
  | none => cg.consumers.walk e.walk

/-- Asking for a consumer is selecting it from the walk. -/
theorem toCheck_eq_filter (cg : ConsumerGroup) (e : Env) (consumerFilter : Option Bytes) :
    cg.toCheck e consumerFilter = (cg.consumers.walk e.walk).filter fun c =>
      consumerFilter.all fun name => decide (c.1 = name) := by
  cases consumerFilter with
  | none => exact (List.filter_eq_self.mpr fun _ _ => rfl).symm
  | some name =>
    unfold toCheck
    dsimp only
    cases hcon : cg.consumers[name]? with
    | none =>
      symm
      rw [Option.map_none, Option.toList_none, List.filter_eq_nil_iff]
      rintro ⟨c, con⟩ hc heq
      obtain rfl : c = name := of_decide_eq_true heq
      rw [FinMap.mem_walk, hcon] at hc
      cases hc
    | some con =>
      symm
      rw [Option.map_some, Option.toList_some]
      exact filter_fst_eq_singleton (FinMap.nodup_fst_walk e.walk cg.consumers)
        ((FinMap.mem_walk e.walk).mpr hcon)

/-- The records that a range, a consumer and a time of idleness leave. -/
def Kept (minId maxId : StreamId) (consumerFilter : Option Bytes) (minIdleMs : Option UInt64)
    (row : PendingInfo) : Prop :=
  (minId ≤ row.id ∧ row.id ≤ maxId) ∧ (∀ name, consumerFilter = some name → row.consumer = name) ∧
    ∀ min, minIdleMs = some min → min.toNat ≤ row.idleMs

instance (minId maxId : StreamId) (consumerFilter : Option Bytes) (minIdleMs : Option UInt64) :
    DecidablePred (Kept minId maxId consumerFilter minIdleMs) := fun row =>
  decidable_of_iff ((minId ≤ row.id ∧ row.id ≤ maxId) ∧
      (consumerFilter.all fun name => decide (row.consumer = name)) = true ∧
      (minIdleMs.all fun min => decide (min.toNat ≤ row.idleMs)) = true) (by
    unfold Kept
    cases consumerFilter <;> cases minIdleMs <;> simp)

theorem consumer_of_mem_rowsOf {c : Bytes × Consumer} {row : PendingInfo} (h : row ∈ rowsOf e c) :
    row.consumer = c.1 := by
  obtain ⟨p, -, rfl⟩ := List.mem_map.mp h
  rfl

/-- A range is a selection from the records, the first of them up to a count. -/
theorem xpendingRange_rows (cg : ConsumerGroup) (e : Env) (minId maxId : StreamId)
    (consumerFilter : Option Bytes) (minIdleMs : Option UInt64) :
    ((cg.toCheck e consumerFilter).flatMap fun c => (rowsOf e c).filter fun row =>
      minId ≤ row.id ∧ row.id ≤ maxId ∧ minIdleMs.all fun min => min.toNat ≤ row.idleMs
        ).insertionSort (fun a b => a.id ≤ b.id) =
      (cg.records e).filter fun row => Kept minId maxId consumerFilter minIdleMs row := by
  have hconsumer : ∀ c : Bytes × Consumer, (rowsOf e c).filter (fun row =>
      decide (Kept minId maxId consumerFilter minIdleMs row)) =
        if consumerFilter.all (fun name => decide (c.1 = name)) = true then
          (rowsOf e c).filter fun row =>
            minId ≤ row.id ∧ row.id ≤ maxId ∧ minIdleMs.all fun min => min.toNat ≤ row.idleMs
        else [] := by
    intro c
    split_ifs with hc
    · apply List.filter_congr
      intro row hrow
      rw [← consumer_of_mem_rowsOf hrow] at hc
      rw [decide_eq_decide]
      unfold Kept
      cases consumerFilter <;> cases minIdleMs <;> simp_all [and_assoc]
    · rw [List.filter_eq_nil_iff]
      intro row hrow hkept
      rw [decide_eq_true_eq] at hkept
      rw [← consumer_of_mem_rowsOf hrow] at hc
      apply hc
      cases consumerFilter with
      | none => rfl
      | some name => exact decide_eq_true (hkept.2.1 name rfl)
  have htrans : IsTrans PendingInfo fun a b => a.id ≤ b.id := ⟨fun _ _ _ => le_trans⟩
  have htotal : Std.Total (fun a b : PendingInfo => a.id ≤ b.id) := ⟨fun a b => le_total a.id b.id⟩
  rw [records, filter_insertionSort, List.filter_flatMap, toCheck_eq_filter]
  congr 1
  simp only [hconsumer]
  exact flatMap_filter_eq _ _ _

/-! ### Acknowledging them all -/

/-- Where no id is pending twice, no id is listed twice. -/
theorem nodup_records_ids (hu : cg.UniqueOwner) : ((cg.records e).map (·.id)).Nodup := by
  have howns : ∀ c ∈ cg.consumers.walk e.walk, ∀ row ∈ rowsOf e c, cg.owns c.1 row.id := by
    intro c hc row hrow
    obtain ⟨p, hp, rfl⟩ := List.mem_map.mp hrow
    exact owns_iff.mpr ⟨c.2, (FinMap.mem_walk e.walk).mp hc,
      FinMap.mem_iff_getElem?.mpr ⟨p.2, (FinMap.mem_walk e.walk).mp hp⟩⟩
  rw [records, ((List.perm_insertionSort _ _).map _).nodup_iff, List.map_flatMap,
    List.nodup_flatMap]
  constructor
  · intro c _
    rw [rowsOf, List.map_map]
    exact FinMap.nodup_fst_walk e.walk c.2.pending
  · have hkeys := FinMap.nodup_fst_walk e.walk cg.consumers
    rw [List.Nodup, List.pairwise_map] at hkeys
    refine hkeys.imp_of_mem ?_
    intro c c' hc hc' hne id hid hid'
    obtain ⟨row, hrow, rfl⟩ := List.mem_map.mp hid
    obtain ⟨row', hrow', heq⟩ := List.mem_map.mp hid'
    have howns' := howns c' hc' row' hrow'
    rw [heq] at howns'
    exact hne (hu (howns c hc row hrow) howns')

/-- Each id that is pending counts once. -/
theorem foldl_ackOne_count (hu : cg.UniqueOwner) (o : FinMap.WalkOrder) {ids : List StreamId}
    (hids : ids.Nodup) (howned : ∀ id ∈ ids, ∃ c, cg.owns c id) (n : ℤ) :
    (ids.foldl (ackOne o) (cg, n)).2 = n + ids.length := by
  induction ids generalizing cg n with
  | nil => exact (add_zero n).symm
  | cons id ids ih =>
    obtain ⟨hid, hrest⟩ := List.nodup_cons.mp hids
    have hcount : (ackOne o (cg, n) id).2 = n + 1 := by
      unfold ackOne
      cases hh : cg.holder o id with
      | none =>
        obtain ⟨c, hc⟩ := howned id List.mem_cons_self
        exact absurd hc (not_owns_of_holder hh c)
      | some f => rfl
    have hstill : ∀ i ∈ ids, ∃ c, (ackOne o (cg, n) id).1.owns c i := by
      intro i hi
      obtain ⟨c, hc⟩ := howned i (List.mem_cons_of_mem id hi)
      exact ⟨c, (owns_ackOne hu o n id c i).mpr ⟨hc, fun heq => hid (heq ▸ hi)⟩⟩
    have h := ih (uniqueOwner_ackOne hu o n id) hrest hstill (ackOne o (cg, n) id).2
    rw [List.foldl_cons]
    refine h.trans ?_
    rw [hcount, List.length_cons]
    push_cast
    ring

/-- Acknowledging all ids that are listed leaves none. -/
theorem foldl_ackOne_records (hu : cg.UniqueOwner) (o : FinMap.WalkOrder) (n : ℤ) :
    (((cg.records e).map (·.id)).foldl (ackOne o) (cg, n)).2 = n + (cg.records e).length ∧
      ∀ c id, ¬ (((cg.records e).map (·.id)).foldl (ackOne o) (cg, n)).1.owns c id := by
  have hlisted : ∀ c id, cg.owns c id → id ∈ (cg.records e).map (·.id) := by
    intro c id hc
    obtain ⟨pe, hpe⟩ := owns_iff_record.mp hc
    exact List.mem_map_of_mem (f := (·.id)) (mem_records.mpr
      (⟨pe, hpe, rfl, rfl⟩ : cg.Lists e.now ⟨id, c, _, _⟩))
  constructor
  · rw [foldl_ackOne_count hu o (nodup_records_ids hu), List.length_map]
    intro id hid
    obtain ⟨row, hrow, rfl⟩ := List.mem_map.mp hid
    obtain ⟨pe, hpe, -⟩ := mem_records.mp hrow
    exact ⟨row.consumer, owns_iff_record.mpr ⟨pe, hpe⟩⟩
  · intro c id hc
    rw [owns_foldl_ackOne hu] at hc
    exact hc.2 (hlisted c id hc.1)

end ConsumerGroup

/-! ## The four readers -/

theorem StreamId.le_max (id : StreamId) : id ≤ .max := by
  have hms := id.ms.toNat_lt
  have hseq := id.seq.toNat_lt
  rw [← not_lt, StreamId.lt_iff, UInt64.lt_iff_toNat_lt, UInt64.lt_iff_toNat_lt]
  rintro (h | ⟨-, h⟩)
  · exact absurd h (by show ¬ 18446744073709551615 < id.ms.toNat; omega)
  · exact absurd h (by show ¬ 18446744073709551615 < id.seq.toNat; omega)

section Readers

variable {S : Type} [LinearOrder S] {e : Env} {d : Data S} {key group : Bytes} {s : Stream}
  {exp : Option Instant} {cg : ConsumerGroup}

theorem Store.readGroup_found {α : Type} (hl : live e.now d key = some ⟨.stream s, exp⟩)
    (hg : s.groups[group]? = some cg) (f : ConsumerGroup → α) :
    readGroup e key group f d = (d, .ok (f cg)) := by
  rw [readGroup, readAs_found (t := Kind.stream) hl, purge_of_live hl]
  simp only [hg]

/-- The readers of what is pending in a group agree with one list of its records. -/
structure PendingAgree (e : Env) (d : Data S) (key group : Bytes) (s : Stream) (cg : ConsumerGroup)
    (full : List PendingInfo) (summary : PendingSummary) : Prop where
  /-- the list over all ids, with a count it does not exceed -/
  whole : ∀ count, full.length ≤ count →
    Store.xpendingRange e key group .zero .max count none none d = (d, .ok full)
  listed : ∀ row, row ∈ full ↔ cg.Lists e.now row
  ordered : full.Pairwise fun a b => a.id ≤ b.id
  summarized : Store.xpendingSummary e key group d = (d, .ok summary)
  total : summary.total = full.length
  counts : (summary.counts.map Prod.snd).sum = full.length
  minId : summary.minId = full.head?.map (·.id)
  maxId : summary.maxId = full.getLast?.map (·.id)
  consumers : ∃ rows, Store.xinfoConsumers e key group d = (d, .ok rows) ∧
    (rows.map (·.pending)).sum = full.length
  /-- XINFO GROUPS has a row for each group; that of this group has the number -/
  groups : ∃ rows, Store.xinfoGroups e key d = (d, .ok rows) ∧
    List.Forall₂ (fun g row => row.name = fromUtf8Lossy g.1 ∧
      (g.1 = group → row.pending = full.length)) (s.groups.walk e.walk) rows
  range : ∀ minId maxId count consumerFilter minIdleMs,
    Store.xpendingRange e key group minId maxId count consumerFilter minIdleMs d =
      (d, .ok ((full.filter fun row =>
        ConsumerGroup.Kept minId maxId consumerFilter minIdleMs row).take count))
  acked : cg.UniqueOwner → ∃ d' cg',
    Store.xack e key group (full.map (·.id)) d = (d', .ok full.length) ∧
    liveStream e.now d' key = some (s.putGroup group cg') ∧ ∀ c id, ¬ cg'.owns c id

theorem xpendingRange_found (hl : live e.now d key = some ⟨.stream s, exp⟩)
    (hg : s.groups[group]? = some cg) (minId maxId : StreamId) (count : ℕ)
    (consumerFilter : Option Bytes) (minIdleMs : Option UInt64) :
    Store.xpendingRange e key group minId maxId count consumerFilter minIdleMs d =
      (d, .ok (((cg.records e).filter fun row =>
        ConsumerGroup.Kept minId maxId consumerFilter minIdleMs row).take count)) := by
  rw [← ConsumerGroup.xpendingRange_rows]
  exact Store.readGroup_found hl hg _

theorem xpendingSummary_found (hl : live e.now d key = some ⟨.stream s, exp⟩)
    (hg : s.groups[group]? = some cg) :
    ∃ summary, Store.xpendingSummary e key group d = (d, .ok summary) ∧
      summary.total = (cg.records e).length ∧
      (summary.counts.map Prod.snd).sum = (cg.records e).length ∧
      summary.minId = (cg.records e).head?.map (·.id) ∧
      summary.maxId = (cg.records e).getLast?.map (·.id) := by
  have hordered : ((cg.records e).map (·.id)).Pairwise (· ≤ ·) :=
    List.pairwise_map.mpr ConsumerGroup.records_ordered
  refine ⟨_, Store.readGroup_found hl hg _, ?_, ?_, ?_, ?_⟩
  · rw [ConsumerGroup.length_records]
    exact ConsumerGroup.sum_size_filter _
  · rw [ConsumerGroup.length_records, List.map_map]
    exact ConsumerGroup.sum_size_filter _
  · rw [← List.head?_map]
    exact min?_eq_head? hordered fun _ => ConsumerGroup.mem_summary_ids
  · rw [← List.getLast?_map]
    exact max?_eq_getLast? hordered fun _ => ConsumerGroup.mem_summary_ids

theorem xinfoConsumers_found (hl : live e.now d key = some ⟨.stream s, exp⟩)
    (hg : s.groups[group]? = some cg) :
    ∃ rows, Store.xinfoConsumers e key group d = (d, .ok rows) ∧
      (rows.map (·.pending)).sum = (cg.records e).length := by
  refine ⟨_, Store.readGroup_found hl hg _, ?_⟩
  rw [ConsumerGroup.length_records, List.map_map]
  rfl

theorem xinfoGroups_found (hl : live e.now d key = some ⟨.stream s, exp⟩)
    (hg : s.groups[group]? = some cg) :
    ∃ rows, Store.xinfoGroups e key d = (d, .ok rows) ∧
      List.Forall₂ (fun g row => row.name = fromUtf8Lossy g.1 ∧
        (g.1 = group → row.pending = (cg.records e).length)) (s.groups.walk e.walk) rows := by
  have hread : ∀ f : Stream → Except StoreError (List Store.GroupInfo),
      readAs .stream e.now key (.ok []) (.error .wrongType) f d = (d, f s) := by
    intro f
    rw [readAs_found (t := Kind.stream) hl, purge_of_live hl]
  refine ⟨_, hread _, ?_⟩
  rw [List.forall₂_map_right_iff, List.forall₂_same]
  rintro ⟨g, cg'⟩ hmem
  refine ⟨rfl, ?_⟩
  rintro rfl
  rw [FinMap.mem_walk, hg] at hmem
  cases hmem
  exact (ConsumerGroup.length_records cg e).symm

theorem xack_records (hl : live e.now d key = some ⟨.stream s, exp⟩)
    (hg : s.groups[group]? = some cg) (hu : cg.UniqueOwner) :
    ∃ d' cg', Store.xack e key group ((cg.records e).map (·.id)) d =
        (d', .ok (cg.records e).length) ∧
      liveStream e.now d' key = some (s.putGroup group cg') ∧ ∀ c id, ¬ cg'.owns c id := by
  obtain ⟨hcount, hnone⟩ := ConsumerGroup.foldl_ackOne_records (e := e) hu e.walk 0
  rw [zero_add] at hcount
  generalize hr : ((cg.records e).map (·.id)).foldl (ConsumerGroup.ackOne e.walk) (cg, 0) = r
    at hcount hnone
  refine ⟨d.insert key ⟨.stream (s.putGroup group r.1), exp⟩, r.1, ?_, ?_, hnone⟩
  · rw [Store.xack, Store.modifyGroup, modifyAs_found (t := Kind.stream) hl]
    simp only [hg, hr, hcount]
    rfl
  · rw [liveStream_insert hl, if_pos rfl]

end Readers

/-- XPENDING, XINFO GROUPS, XINFO CONSUMERS and XACK agree on what is pending in a group. -/
theorem pending_agree {S : Type} [LinearOrder S] {e : Env} {d : Data S} {key group : Bytes}
    {s : Stream} {exp : Option Instant} {cg : ConsumerGroup}
    (hl : live e.now d key = some ⟨.stream s, exp⟩) (hg : s.groups[group]? = some cg) :
    ∃ full summary, PendingAgree e d key group s cg full summary := by
  obtain ⟨summary, hsummary, htotal, hcounts, hmin, hmax⟩ := xpendingSummary_found hl hg
  refine ⟨cg.records e, summary, ?_, fun _ => ConsumerGroup.mem_records,
    ConsumerGroup.records_ordered, hsummary, htotal, hcounts, hmin, hmax,
    xinfoConsumers_found hl hg, xinfoGroups_found hl hg, xpendingRange_found hl hg,
    xack_records hl hg⟩
  intro count hcount
  have hall : ∀ row ∈ cg.records e,
      decide (ConsumerGroup.Kept .zero .max none none row) = true := by
    intro row _
    rw [decide_eq_true_eq]
    exact ⟨⟨StreamId.zero_le row.id, StreamId.le_max row.id⟩, nofun, nofun⟩
  rw [xpendingRange_found hl hg, List.filter_eq_self.mpr hall, List.take_of_length_le hcount]

/-- A group of three consumers, two of them with an entry pending. -/
def twoPendingGroup : ConsumerGroup :=
  ⟨⟨3, 0⟩, (((∅ : FinMap Bytes Consumer).insert (ascii "c")
      ⟨(∅ : FinMap StreamId PendingEntry).insert ⟨3, 0⟩ ⟨0, 1⟩⟩).insert (ascii "d")
      ⟨(∅ : FinMap StreamId PendingEntry).insert ⟨1, 0⟩ ⟨5, 2⟩⟩).insert (ascii "idle") ⟨∅⟩⟩

def twoPendingStream : Stream :=
  ⟨∅, ⟨3, 0⟩, (∅ : FinMap Bytes ConsumerGroup).insert (ascii "g") twoPendingGroup⟩

def twoPending : Data ℤ := (∅ : Data ℤ).insert (ascii "s") ⟨.stream twoPendingStream, none⟩

theorem twoPending_agree :
    ∃ full summary, PendingAgree ⟨9, 0, .byKey⟩ twoPending (ascii "s") (ascii "g") twoPendingStream
        twoPendingGroup full summary ∧
      full.length = 2 ∧ summary.minId = some ⟨1, 0⟩ ∧ summary.maxId = some ⟨3, 0⟩ := by
  obtain ⟨full, summary, h⟩ := @pending_agree ℤ _ ⟨9, 0, .byKey⟩ twoPending (ascii "s")
    (ascii "g") twoPendingStream none twoPendingGroup rfl rfl
  have hread : (Store.xpendingSummary ⟨9, 0, .byKey⟩ (ascii "s") (ascii "g")
      twoPending).2.toOption.map (fun r => (r.total, r.minId, r.maxId)) =
        some (2, some ⟨1, 0⟩, some ⟨3, 0⟩) := by decide +kernel
  rw [h.summarized] at hread
  have hvalues : (summary.total, summary.minId, summary.maxId) =
      (2, some ⟨1, 0⟩, some ⟨3, 0⟩) := Option.some.inj hread
  simp only [Prod.mk.injEq] at hvalues
  exact ⟨full, summary, h, h.total.symm.trans hvalues.1, hvalues.2⟩

end BurnerRedis
