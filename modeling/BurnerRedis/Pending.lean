import BurnerRedis.Access

/-!
# Pending entries

A consumer group keeps, for each consumer, the entries delivered to it and not yet acknowledged.
The stream commands change these maps in two ways only: `insertPending` puts an entry under a
consumer, creating the consumer if need be, and `removePending` takes one out. `owns` reads them
back, and `UniqueOwner` says that an id is pending at one consumer at most.
-/

namespace BurnerRedis

namespace ConsumerGroup

/-- The consumer of that name, one with nothing pending if there is none. -/
def consumer (cg : ConsumerGroup) (c : Bytes) : Consumer := cg.consumers[c]?.getD ⟨∅⟩

/-- `consumers.entry(c).or_insert_with(..).pending.insert(id, pe)`. -/
def insertPending (cg : ConsumerGroup) (c : Bytes) (id : StreamId) (pe : PendingEntry) :
    ConsumerGroup :=
  { cg with consumers := cg.consumers.insert c ⟨(cg.consumer c).pending.insert id pe⟩ }

/-- `consumers.get_mut(c)`, then `pending.remove(id)`. -/
def removePending (cg : ConsumerGroup) (c : Bytes) (id : StreamId) : ConsumerGroup :=
  match cg.consumers[c]? with
  | some con => { cg with consumers := cg.consumers.insert c ⟨con.pending.erase id⟩ }
  | none => cg

/-- The id is pending at the consumer. -/
def owns (cg : ConsumerGroup) (c : Bytes) (id : StreamId) : Prop := id ∈ (cg.consumer c).pending

instance (cg : ConsumerGroup) (c : Bytes) (id : StreamId) : Decidable (cg.owns c id) :=
  inferInstanceAs (Decidable (_ ∈ _))

/-- No id is pending at two consumers. -/
def UniqueOwner (cg : ConsumerGroup) : Prop :=
  ∀ ⦃c c' id⦄, cg.owns c id → cg.owns c' id → c = c'

theorem owns_iff {cg : ConsumerGroup} {c : Bytes} {id : StreamId} :
    cg.owns c id ↔ ∃ con, cg.consumers[c]? = some con ∧ id ∈ con.pending := by
  unfold owns consumer
  cases cg.consumers[c]? <;> simp

/-! ## Delivered up to where -/

@[simp] theorem insertPending_lastDeliveredId (cg : ConsumerGroup) (c : Bytes) (id : StreamId)
    (pe : PendingEntry) : (cg.insertPending c id pe).lastDeliveredId = cg.lastDeliveredId := rfl

@[simp] theorem removePending_lastDeliveredId (cg : ConsumerGroup) (c : Bytes) (id : StreamId) :
    (cg.removePending c id).lastDeliveredId = cg.lastDeliveredId := by
  unfold removePending
  split <;> rfl

/-! ## Owners after an update -/

theorem consumer_insertPending (cg : ConsumerGroup) (c c' : Bytes) (id : StreamId)
    (pe : PendingEntry) :
    (cg.insertPending c id pe).consumer c' =
      if c = c' then ⟨(cg.consumer c).pending.insert id pe⟩ else cg.consumer c' := by
  unfold insertPending consumer
  rw [FinMap.getElem?_insert']
  split_ifs <;> rfl

theorem consumer_removePending (cg : ConsumerGroup) (c c' : Bytes) (id : StreamId) :
    (cg.removePending c id).consumer c' =
      if c = c' then ⟨(cg.consumer c).pending.erase id⟩ else cg.consumer c' := by
  unfold removePending consumer
  cases h : cg.consumers[c]? with
  | none =>
    split_ifs with hc
    · subst hc
      simp [h]
    · rfl
  | some con =>
    simp only [FinMap.getElem?_insert']
    split_ifs <;> rfl

@[simp] theorem owns_insertPending (cg : ConsumerGroup) (c c' : Bytes) (id id' : StreamId)
    (pe : PendingEntry) :
    (cg.insertPending c id pe).owns c' id' ↔ c = c' ∧ id = id' ∨ cg.owns c' id' := by
  unfold owns
  rw [consumer_insertPending]
  split_ifs with hc
  · subst hc
    simp [Std.ExtTreeMap.mem_insert]
  · simp [hc]

@[simp] theorem owns_removePending (cg : ConsumerGroup) (c c' : Bytes) (id id' : StreamId) :
    (cg.removePending c id).owns c' id' ↔ ¬ (c = c' ∧ id = id') ∧ cg.owns c' id' := by
  unfold owns
  rw [consumer_removePending]
  split_ifs with hc
  · subst hc
    simp [Std.ExtTreeMap.mem_erase]
  · simp [hc]

@[simp] theorem not_owns_new (last : StreamId) (c : Bytes) (id : StreamId) :
    ¬ owns ⟨last, ∅⟩ c id := by
  simp [owns, consumer]

/-! ## Uniqueness after an update -/

theorem UniqueOwner.removePending {cg : ConsumerGroup} (h : cg.UniqueOwner) (c : Bytes)
    (id : StreamId) : (cg.removePending c id).UniqueOwner := by
  intro a b i ha hb
  rw [owns_removePending] at ha hb
  exact h ha.2 hb.2

/-- A pending id may be put under a consumer when no other consumer holds it. -/
theorem UniqueOwner.insertPending {cg : ConsumerGroup} (h : cg.UniqueOwner) {c : Bytes}
    {id : StreamId} (pe : PendingEntry) (hc : ∀ c', cg.owns c' id → c' = c) :
    (cg.insertPending c id pe).UniqueOwner := by
  intro a b i ha hb
  rw [owns_insertPending] at ha hb
  rcases ha with ⟨rfl, rfl⟩ | ha <;> rcases hb with ⟨rfl, hi⟩ | hb
  · rfl
  · exact (hc b hb).symm
  · exact hc a (hi ▸ ha)
  · exact h ha hb

theorem uniqueOwner_new (last : StreamId) : UniqueOwner ⟨last, ∅⟩ :=
  fun c _ id h _ => absurd h (not_owns_new last c id)

end ConsumerGroup

end BurnerRedis
