import BurnerRedis.Machine
import BurnerRedis.Reading

/-!
# The history of a group

A `GroupHistory` records, for a group since its creation, the ids that reads of new entries
delivered and the ids that XACK took from a pending map. `Accounts` ties the history to the group:
what was delivered lies below the last delivered id, and an entry there is pending at one consumer
or acknowledged. Every change that a stream goes through without forced claims keeps it.
-/

open Relation (ReflTransGen)

namespace BurnerRedis

/-! ## The history of a group -/

/-- What has happened to a group since it was created. -/
structure GroupHistory where
  /-- the id it was created with -/
  start : StreamId
  /-- what reads of new entries delivered -/
  delivered : List StreamId
  /-- what XACK took from a pending map -/
  acked : List StreamId
deriving DecidableEq

/-- The id is pending at some consumer. -/
def ConsumerGroup.isPending (cg : ConsumerGroup) (id : StreamId) : Bool :=
  cg.consumers.keys.any fun c => decide (cg.owns c id)

theorem ConsumerGroup.isPending_iff {cg : ConsumerGroup} {id : StreamId} :
    cg.isPending id = true ↔ ∃ c, cg.owns c id := by
  unfold isPending
  rw [List.any_eq_true]
  constructor
  · rintro ⟨c, -, hc⟩
    exact ⟨c, of_decide_eq_true hc⟩
  · rintro ⟨c, hc⟩
    obtain ⟨con, hcon, -⟩ := owns_iff.mp hc
    refine ⟨c, ?_, decide_eq_true hc⟩
    exact Std.ExtTreeMap.mem_keys.mpr (FinMap.mem_iff_getElem?.mpr ⟨con, hcon⟩)

/-- The ids in the reply of a read. -/
def readIds : Except StoreError ReadReply → List StreamId
  | .ok r => r.flatMap fun p => p.2.map Prod.fst
  | .error _ => []

/-! ## The invariant -/

/-- What the history of a group says about the group. -/
structure Accounts (s : Stream) (cg : ConsumerGroup) (h : GroupHistory) : Prop where
  start_le : h.start ≤ cg.lastDeliveredId
  last_le : cg.lastDeliveredId = h.start ∨ cg.lastDeliveredId ≤ s.lastId
  sorted : h.delivered.Pairwise (· < ·)
  delivered_le : ∀ id ∈ h.delivered, id ≤ cg.lastDeliveredId
  owned : ∀ c id, cg.owns c id → id ∈ h.delivered
  acked : ∀ id ∈ h.acked, id ∈ h.delivered
  unique : cg.UniqueOwner
  settled : ∀ id ∈ h.acked, ∀ c, ¬ cg.owns c id
  covered : ∀ id ∈ s.entries, h.start < id → id ≤ cg.lastDeliveredId →
    (∃ c, cg.owns c id) ∨ id ∈ h.acked

/-- Every entry has an id up to the last one. -/
def Stream.Bounded (s : Stream) : Prop := ∀ id ∈ s.entries, id ≤ s.lastId

/-! ### Acknowledging and claiming -/

namespace ConsumerGroup

variable {cg cg' : ConsumerGroup}

/-- Acknowledging an id takes it from every consumer, as only one has it. -/
theorem owns_ackOne (hu : cg.UniqueOwner) (o : FinMap.WalkOrder) (n : ℤ) (i : StreamId) (c : Bytes)
    (id : StreamId) : (ackOne o (cg, n) i).1.owns c id ↔ cg.owns c id ∧ id ≠ i := by
  unfold ackOne
  cases hh : cg.holder o i with
  | none =>
    constructor
    · intro hc
      refine ⟨hc, ?_⟩
      rintro rfl
      exact not_owns_of_holder hh c hc
    · exact fun hc => hc.1
  | some f =>
    have hf : cg.owns f.1 i := owns_of_holder hh
    rw [owns_removePending]
    constructor
    · rintro ⟨hne, hc⟩
      refine ⟨hc, ?_⟩
      rintro rfl
      exact hne ⟨hu hf hc, rfl⟩
    · rintro ⟨hc, hne⟩
      exact ⟨fun he => hne he.2.symm, hc⟩

theorem ackOne_lastDeliveredId (o : FinMap.WalkOrder) (r : ConsumerGroup × ℤ) (i : StreamId) :
    (ackOne o r i).1.lastDeliveredId = r.1.lastDeliveredId := by
  unfold ackOne
  split
  · exact removePending_lastDeliveredId _ _ _
  · rfl

theorem uniqueOwner_ackOne (hu : cg.UniqueOwner) (o : FinMap.WalkOrder) (n : ℤ) (i : StreamId) :
    (ackOne o (cg, n) i).1.UniqueOwner := by
  intro a b id ha hb
  rw [owns_ackOne hu] at ha hb
  exact hu ha.1 hb.1

theorem owns_foldl_ackOne (hu : cg.UniqueOwner) (o : FinMap.WalkOrder) (ids : List StreamId) (n : ℤ)
    (c : Bytes) (id : StreamId) :
    (ids.foldl (ackOne o) (cg, n)).1.owns c id ↔ cg.owns c id ∧ id ∉ ids := by
  induction ids generalizing cg n with
  | nil => simp
  | cons i ids ih =>
    have h := ih (uniqueOwner_ackOne hu o n i) (ackOne o (cg, n) i).2
    rw [owns_ackOne hu] at h
    rw [List.foldl_cons, List.mem_cons, not_or, ← and_assoc]
    exact h

theorem foldl_ackOne_lastDeliveredId (o : FinMap.WalkOrder) (ids : List StreamId)
    (r : ConsumerGroup × ℤ) :
    (ids.foldl (ackOne o) r).1.lastDeliveredId = r.1.lastDeliveredId := by
  induction ids generalizing r with
  | nil => rfl
  | cons i ids ih => rw [List.foldl_cons, ih, ackOne_lastDeliveredId]

end ConsumerGroup

/-- Claims that are not forced move pending entries between consumers. -/
theorem moves_spec {cg cg' : ConsumerGroup} (st : ReflTransGen (GroupStep ∅) cg cg')
    (hu : cg.UniqueOwner) :
    cg'.lastDeliveredId = cg.lastDeliveredId ∧ cg'.UniqueOwner ∧
      ∀ id, (∃ c, cg'.owns c id) ↔ ∃ c, cg.owns c id := by
  induction st with
  | refl => exact ⟨rfl, hu, fun _ => Iff.rfl⟩
  | @tail cg₁ cg₂ _ hst ih =>
    obtain ⟨hlast, hu₁, hown⟩ := ih
    cases hst with
    | deliver _ _ _ hp => exact absurd hp (Set.notMem_empty _)
    | ack _ _ hp => exact absurd hp (Set.notMem_empty _)
    | force _ _ _ hp => exact absurd hp (Set.notMem_empty _)
    | move c₀ c id pe ho =>
      refine ⟨?_, ?_, fun i => Iff.trans ?_ (hown i)⟩
      · rw [ConsumerGroup.insertPending_lastDeliveredId,
          ConsumerGroup.removePending_lastDeliveredId, hlast]
      · refine (hu₁.removePending c₀ id).insertPending pe fun c' hc' => ?_
        rw [ConsumerGroup.owns_removePending] at hc'
        exact absurd ⟨hu₁ ho hc'.2, rfl⟩ hc'.1
      · simp only [ConsumerGroup.owns_insertPending, ConsumerGroup.owns_removePending]
        constructor
        · rintro ⟨a, ⟨rfl, rfl⟩ | ⟨-, ha⟩⟩
          · exact ⟨c₀, ho⟩
          · exact ⟨a, ha⟩
        · rintro ⟨a, ha⟩
          by_cases he : c₀ = a ∧ id = i
          · exact ⟨c, .inl ⟨rfl, he.2⟩⟩
          · exact ⟨a, .inr ⟨he, ha⟩⟩

/-! ### What keeps the invariant -/

namespace Accounts

variable {s : Stream} {cg : ConsumerGroup} {h : GroupHistory}

theorem new (s : Stream) (start : StreamId) : Accounts s ⟨start, ∅⟩ ⟨start, [], []⟩ where
  start_le := le_rfl
  last_le := .inl rfl
  sorted := List.Pairwise.nil
  delivered_le := fun _ hid => absurd hid List.not_mem_nil
  owned := fun c id hc => absurd hc (ConsumerGroup.not_owns_new start c id)
  acked := fun _ hid => absurd hid List.not_mem_nil
  unique := ConsumerGroup.uniqueOwner_new start
  settled := fun _ hid => absurd hid List.not_mem_nil
  covered := fun _ _ hlt hle => absurd hle (not_le.mpr hlt)

/-- A new entry has an id that no one has seen. -/
theorem append (a : Accounts s cg h) {s' : Stream} {newId : StreamId} (hlt : s.lastId < newId)
    (he : ∀ id ∈ s'.entries, id = newId ∨ id ∈ s.entries) (hl : s'.lastId = newId) :
    Accounts s' cg h where
  start_le := a.start_le
  last_le := a.last_le.imp_right fun hle => hle.trans (hl ▸ hlt.le)
  sorted := a.sorted
  delivered_le := a.delivered_le
  owned := a.owned
  acked := a.acked
  unique := a.unique
  settled := a.settled
  covered := by
    intro id hid hstart hle
    rcases he id hid with rfl | hid
    · -- the new entry lies above the last delivered id, wherever that is
      rcases a.last_le with heq | hlast
      · exact absurd (heq ▸ hle) (not_le.mpr hstart)
      · exact absurd (hle.trans hlast) (not_le.mpr hlt)
    · exact a.covered id hid hstart hle

/-- Entries may go. -/
theorem discard (a : Accounts s cg h) {s' : Stream} (he : ∀ id ∈ s'.entries, id ∈ s.entries)
    (hl : s'.lastId = s.lastId) : Accounts s' cg h where
  start_le := a.start_le
  last_le := hl ▸ a.last_le
  sorted := a.sorted
  delivered_le := a.delivered_le
  owned := a.owned
  acked := a.acked
  unique := a.unique
  settled := a.settled
  covered := fun id hid => a.covered id (he id hid)

/-- A read delivers the next entries, in order, and goes on to the last of them. -/
theorem deliver (a : Accounts s cg h) (hb : s.Bounded) (now : Instant) (consumer : Bytes)
    (count : Option ℕ) :
    Accounts s (cg.deliverAll now consumer (newEntries count s cg))
      { h with delivered := h.delivered ++ (newEntries count s cg).map Prod.fst } := by
  have hsorted := ConsumerGroup.pairwise_newEntries count s cg
  have hlast := ConsumerGroup.deliverAll_lastDeliveredId now consumer cg (newEntries count s cg)
  have hnew : ∀ id ∈ (newEntries count s cg).map Prod.fst, cg.lastDeliveredId < id := by
    intro id hid
    obtain ⟨x, hx, rfl⟩ := List.mem_map.mp hid
    exact ConsumerGroup.lt_of_mem_newEntries hx
  have hmem : ∀ id ∈ (newEntries count s cg).map Prod.fst, id ∈ s.entries := by
    intro id hid
    obtain ⟨x, hx, rfl⟩ := List.mem_map.mp hid
    have hafter := (ConsumerGroup.takeCount_sublist count _).subset hx
    exact FinMap.mem_iff_getElem?.mpr ⟨x.2, (FinMap.mem_after.mp hafter).2⟩
  -- the new last delivered id is the old one or that of the last new entry
  have hcases : (newEntries count s cg = [] ∧ (cg.deliverAll now consumer
        (newEntries count s cg)).lastDeliveredId = cg.lastDeliveredId) ∨
      (cg.deliverAll now consumer (newEntries count s cg)).lastDeliveredId ∈
        (newEntries count s cg).map Prod.fst ∧ ∀ id ∈ (newEntries count s cg).map Prod.fst,
          id ≤ (cg.deliverAll now consumer (newEntries count s cg)).lastDeliveredId := by
    rcases List.eq_nil_or_concat (newEntries count s cg) with hnil | ⟨l, x, hx⟩
    · exact .inl ⟨hnil, by rw [hlast, hnil]; rfl⟩
    · rw [List.concat_eq_append] at hx
      rw [hlast, hx, List.getLast?_concat, Option.map_some, Option.getD_some]
      rw [hx] at hsorted
      refine .inr ⟨List.mem_map_of_mem (List.mem_append_right l List.mem_cons_self), ?_⟩
      intro id hid
      obtain ⟨y, hy, rfl⟩ := List.mem_map.mp hid
      rcases List.mem_append.mp hy with hy | hy
      · exact ((List.pairwise_append.mp hsorted).2.2 y hy x List.mem_cons_self).le
      · rw [List.mem_singleton.mp hy]
  have hle : cg.lastDeliveredId ≤
      (cg.deliverAll now consumer (newEntries count s cg)).lastDeliveredId := by
    rcases hcases with ⟨-, heq⟩ | ⟨hin, -⟩
    · exact heq.ge
    · exact (hnew _ hin).le
  refine ⟨a.start_le.trans hle, ?_, ?_, ?_, ?_, ?_, ?_, ?_, ?_⟩
  · rcases hcases with ⟨-, heq⟩ | ⟨hin, -⟩
    · rw [heq]
      exact a.last_le
    · exact .inr (hb _ (hmem _ hin))
  · refine List.pairwise_append.mpr ⟨a.sorted, ?_, fun x hx y hy => ?_⟩
    · exact List.pairwise_map.mpr hsorted
    · exact (a.delivered_le x hx).trans_lt (hnew y hy)
  · intro id hid
    rcases List.mem_append.mp hid with hid | hid
    · exact (a.delivered_le id hid).trans hle
    · rcases hcases with ⟨hnil, -⟩ | ⟨-, hmax⟩
      · rw [hnil] at hid
        exact absurd hid List.not_mem_nil
      · exact hmax id hid
  · intro c id hc
    rcases (ConsumerGroup.owns_deliverAll ..).mp hc with ⟨-, hid⟩ | hc
    · exact List.mem_append_right _ hid
    · exact List.mem_append_left _ (a.owned c id hc)
  · exact fun id hid => List.mem_append_left _ (a.acked id hid)
  · intro c c' id hc hc'
    have hold : ∀ {b}, cg.owns b id → id ∉ (newEntries count s cg).map Prod.fst := by
      intro b hown hin
      exact absurd (a.delivered_le id (a.owned b id hown)) (not_le.mpr (hnew id hin))
    rcases (ConsumerGroup.owns_deliverAll ..).mp hc with ⟨rfl, hi⟩ | hc <;>
      rcases (ConsumerGroup.owns_deliverAll ..).mp hc' with ⟨rfl, hi'⟩ | hc'
    · rfl
    · exact absurd hi (hold hc')
    · exact absurd hi' (hold hc)
    · exact a.unique hc hc'
  · intro id hid c hc
    rcases (ConsumerGroup.owns_deliverAll ..).mp hc with ⟨-, hin⟩ | hc
    · exact absurd (a.delivered_le id (a.acked id hid)) (not_le.mpr (hnew id hin))
    · exact a.settled id hid c hc
  · intro id hid hstart hidle
    by_cases hold : id ≤ cg.lastDeliveredId
    · rcases a.covered id hid hstart hold with ⟨c, hc⟩ | hack
      · exact .inl ⟨c, (ConsumerGroup.owns_deliverAll ..).mpr (.inr hc)⟩
      · exact .inr hack
    · -- an entry above the old mark and not above the new one has been delivered
      obtain ⟨fields, hf⟩ := FinMap.mem_iff_getElem?.mp hid
      have hafter : (id, fields) ∈ s.entries.after cg.lastDeliveredId :=
        FinMap.mem_after.mpr ⟨ConsumerGroup.compare_eq_lt_iff.mpr (not_le.mp hold), hf⟩
      have hrest : (id, fields) ∉
          (s.entries.after cg.lastDeliveredId).drop (newEntries count s cg).length := by
        rw [← ConsumerGroup.after_deliverAll now consumer]
        intro hin
        exact absurd hidle (not_le.mpr (ConsumerGroup.compare_eq_lt_iff.mp
          (FinMap.mem_after.mp hin).1))
      have hprefix : newEntries count s cg = (s.entries.after cg.lastDeliveredId).take
          (newEntries count s cg).length :=
        List.prefix_iff_eq_take.mp (by
          rw [newEntries, ConsumerGroup.takeCount_eq_take]
          exact List.take_prefix _ _)
      rw [← List.take_append_drop (newEntries count s cg).length
        (s.entries.after cg.lastDeliveredId), ← hprefix] at hafter
      have hin := (List.mem_append.mp hafter).resolve_right hrest
      exact .inl ⟨consumer, (ConsumerGroup.owns_deliverAll ..).mpr
        (.inl ⟨rfl, List.mem_map.mpr ⟨_, hin, rfl⟩⟩)⟩

theorem ack (a : Accounts s cg h) (o : FinMap.WalkOrder) (ids : List StreamId) :
    Accounts s (ids.foldl (ConsumerGroup.ackOne o) (cg, 0)).1
      { h with acked := h.acked ++ ids.filter fun id => cg.isPending id } := by
  have hlast := ConsumerGroup.foldl_ackOne_lastDeliveredId o ids (cg, 0)
  have hown := ConsumerGroup.owns_foldl_ackOne a.unique o ids 0
  refine ⟨hlast ▸ a.start_le, hlast ▸ a.last_le, a.sorted, hlast ▸ a.delivered_le, ?_, ?_, ?_, ?_,
    ?_⟩
  · exact fun c id hc => a.owned c id ((hown c id).mp hc).1
  · intro id hid
    rcases List.mem_append.mp hid with hid | hid
    · exact a.acked id hid
    · obtain ⟨c, hc⟩ := ConsumerGroup.isPending_iff.mp (List.mem_filter.mp hid).2
      exact a.owned c id hc
  · exact fun c c' id hc hc' => a.unique ((hown c id).mp hc).1 ((hown c' id).mp hc').1
  · intro id hid c hc
    obtain ⟨hc, hnot⟩ := (hown c id).mp hc
    rcases List.mem_append.mp hid with hid | hid
    · exact a.settled id hid c hc
    · exact hnot (List.mem_filter.mp hid).1
  · intro id hid hstart hle
    rcases a.covered id hid hstart (hlast ▸ hle) with ⟨c, hc⟩ | hack
    · by_cases hin : id ∈ ids
      · refine .inr (List.mem_append_right _ (List.mem_filter.mpr ⟨hin, ?_⟩))
        exact ConsumerGroup.isPending_iff.mpr ⟨c, hc⟩
      · exact .inl ⟨c, (hown c id).mpr ⟨hc, hin⟩⟩
    · exact .inr (List.mem_append_left _ hack)

theorem moves (a : Accounts s cg h) {cg' : ConsumerGroup}
    (st : ReflTransGen (GroupStep ∅) cg cg') : Accounts s cg' h := by
  obtain ⟨hlast, hu, hown⟩ := moves_spec st a.unique
  refine ⟨hlast ▸ a.start_le, hlast ▸ a.last_le, a.sorted, hlast ▸ a.delivered_le, ?_, a.acked, hu,
    ?_, ?_⟩
  · intro c id hc
    obtain ⟨c', hc'⟩ := (hown id).mp ⟨c, hc⟩
    exact a.owned c' id hc'
  · intro id hid c hc
    obtain ⟨c', hc'⟩ := (hown id).mp ⟨c, hc⟩
    exact a.settled id hid c' hc'
  · intro id hid hstart hle
    exact (a.covered id hid hstart (hlast ▸ hle)).imp_left (hown id).mpr

end Accounts

end BurnerRedis
