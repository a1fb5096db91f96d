import BurnerRedis.PubSub.Registry

/-!
# The two sides of the registry agree

In every state that calls lead to, what the registry keeps by name and what it keeps by subscriber
are the same relation (`PubSubRegistry.Coherent`). So PUBLISH and the PUBSUB commands, which count by
name, count the pairs of the other side (`CountsAgree`), every count a subscriber is told is the
number of its subscriptions (`RepliesCount`), and a subscriber that was stopped is nowhere.
-/

namespace BurnerRedis

/-! ## One kind of subscription -/

section Names

variable {id : UInt64} {other : ℕ} {t : TwoWay UInt64 Bytes}

/-- `g` takes names one after the other, each by `f`, and tells the subscriptions after each. -/
structure OneByOne (id : UInt64) (other : ℕ)
    (f : TwoWay UInt64 Bytes → Bytes → TwoWay UInt64 Bytes)
    (g : List Bytes → TwoWay UInt64 Bytes → TwoWay UInt64 Bytes × List (Bytes × ℤ)) : Prop where
  nil : ∀ t, g [] t = (t, [])
  cons : ∀ name names t, g (name :: names) t = ((g names (f t name)).1,
    (name, ((PubSubRegistry.held (f t name) id).size : ℤ) + other) :: (g names (f t name)).2)

theorem oneByOne_addNames : OneByOne id other (fun t name => t.link id name)
    (PubSubRegistry.addNames id other) :=
  ⟨fun _ => rfl, fun _ _ _ => rfl⟩

theorem oneByOne_removeNames : OneByOne id other (fun t name => t.unlink id name)
    (PubSubRegistry.removeNames id other) :=
  ⟨fun _ => rfl, fun _ _ _ => rfl⟩

section OneByOne

variable {f : TwoWay UInt64 Bytes → Bytes → TwoWay UInt64 Bytes}
  {g : List Bytes → TwoWay UInt64 Bytes → TwoWay UInt64 Bytes × List (Bytes × ℤ)}

/-- What one name keeps, all names keep. -/
theorem OneByOne.keeps (hg : OneByOne id other f g) {P : TwoWay UInt64 Bytes → Prop}
    (hf : ∀ t name, P t → P (f t name)) (h : P t) (names : List Bytes) : P (g names t).1 := by
  induction names generalizing t with
  | nil =>
    rw [hg.nil]
    exact h
  | cons name names ih =>
    rw [hg.cons]
    exact ih (hf t name h)

theorem OneByOne.length (hg : OneByOne id other f g) (names : List Bytes) :
    (g names t).2.length = names.length := by
  induction names generalizing t with
  | nil => rw [hg.nil]; rfl
  | cons name names ih =>
    rw [hg.cons]
    exact congrArg Nat.succ ih

/-- Each name is told with the number of subscriptions after it. -/
theorem OneByOne.getElem? (hg : OneByOne id other f g) {names : List Bytes} {i : ℕ} {name : Bytes}
    (h : names[i]? = some name) :
    (g names t).2[i]? = some (name,
      ((PubSubRegistry.held (g (names.take (i + 1)) t).1 id).size : ℤ) + other) := by
  induction names generalizing t i with
  | nil => cases h
  | cons n names ih =>
    rw [List.take_succ_cons, hg.cons, hg.cons]
    cases i with
    | zero =>
      cases h
      rw [List.take_zero, hg.nil]
      rfl
    | succ i => exact ih h

end OneByOne

theorem coherent_addNames (h : t.Coherent) (names : List Bytes) :
    (PubSubRegistry.addNames id other names t).1.Coherent :=
  oneByOne_addNames.keeps (fun _ name ht => ht.link id name) h names

theorem coherentBut_removeNames (h : t.CoherentBut id) (names : List Bytes) :
    (PubSubRegistry.removeNames id other names t).1.CoherentBut id :=
  oneByOne_removeNames.keeps (P := fun t => t.CoherentBut id) (fun _ name ht => ht.unlink name) h
    names

theorem holds_addNames (names : List Bytes) (a : UInt64) (b : Bytes) :
    (PubSubRegistry.addNames id other names t).1.forth.Holds a b ↔
      t.forth.Holds a b ∨ id = a ∧ b ∈ names := by
  induction names generalizing t with
  | nil => simp [PubSubRegistry.addNames]
  | cons name names ih =>
    have hlink : (t.link id name).forth.Holds a b ↔ (id = a ∧ name = b) ∨ t.forth.Holds a b :=
      MultiMap.holds_add ..
    refine ih.trans ?_
    rw [hlink, List.mem_cons, eq_comm (a := b)]
    tauto

theorem holds_removeNames (names : List Bytes) (a : UInt64) (b : Bytes) :
    (PubSubRegistry.removeNames id other names t).1.forth.Holds a b ↔
      t.forth.Holds a b ∧ ¬ (id = a ∧ b ∈ names) := by
  induction names generalizing t with
  | nil => simp [PubSubRegistry.removeNames]
  | cons name names ih =>
    have hunlink : (t.unlink id name).forth.Holds a b ↔
        t.forth.Holds a b ∧ ¬ (id = a ∧ name = b) := MultiMap.holds_take ..
    refine ih.trans ?_
    rw [hunlink, List.mem_cons, eq_comm (a := b)]
    tauto

theorem held_tidy (a : UInt64) :
    PubSubRegistry.held (t.tidy id) a = PubSubRegistry.held t a :=
  MultiMap.valuesOf_tidy ..

end Names

/-! ## The registry -/

namespace PubSubRegistry

variable {r : PubSubRegistry}

/-- The two sides of both kinds agree. -/
structure Coherent (r : PubSubRegistry) : Prop where
  channels : r.channels.Coherent
  patterns : r.patterns.Coherent

theorem coherent_new : new.Coherent := ⟨TwoWay.coherent_empty, TwoWay.coherent_empty⟩

/-- Every call keeps the two sides together. -/
theorem Coherent.run (h : r.Coherent) (o : FinMap.WalkOrder) (op : RegistryOp) :
    (op.run o r).Coherent := by
  cases op with
  | newSubscriber => exact ⟨h.channels, h.patterns⟩
  | subscribe id names => exact ⟨coherent_addNames h.channels names, h.patterns⟩
  | psubscribe id names => exact ⟨h.channels, coherent_addNames h.patterns names⟩
  | unsubscribe id names =>
    exact ⟨(coherentBut_removeNames (h.channels.but id) _).tidy, h.patterns⟩
  | punsubscribe id names =>
    exact ⟨h.channels, (coherentBut_removeNames (h.patterns.but id) _).tidy⟩
  | stopSubscriberListener id => exact ⟨h.channels.unlinkAll o id, h.patterns.unlinkAll o id⟩

theorem Coherent.runRegistry (h : r.Coherent) (ops : List (FinMap.WalkOrder × RegistryOp)) :
    (runRegistry r ops).Coherent := by
  induction ops generalizing r with
  | nil => exact h
  | cons op ops ih => exact ih (h.run op.1 op.2)

/-! ### Stopped subscribers -/

/-- The subscriber is in none of the four maps. -/
structure Absent (r : PubSubRegistry) (id : UInt64) : Prop where
  subscriberChannels : r.channels.forth[id]? = none
  subscriberPatterns : r.patterns.forth[id]? = none
  channelSubscribers : ∀ channel, ¬ r.channels.back.Holds channel id
  patternSubscribers : ∀ pattern, ¬ r.patterns.back.Holds pattern id

/-- The subscriber has no subscription. -/
def HoldsNothing (r : PubSubRegistry) (id : UInt64) : Prop :=
  (∀ channel, ¬ r.channels.forth.Holds id channel) ∧ ∀ pattern, ¬ r.patterns.forth.Holds id pattern

theorem Coherent.absent (h : r.Coherent) {id : UInt64} (hn : r.HoldsNothing id) : r.Absent id where
  subscriberChannels := h.channels.forth.getElem?_eq_none hn.1
  subscriberPatterns := h.patterns.forth.getElem?_eq_none hn.2
  channelSubscribers channel := by
    rw [h.channels.inverse]
    exact hn.1 channel
  patternSubscribers pattern := by
    rw [h.patterns.inverse]
    exact hn.2 pattern

/-- A subscriber without subscriptions gets one only by subscribing. -/
theorem HoldsNothing.run {id : UInt64} (h : r.HoldsNothing id) (o : FinMap.WalkOrder)
    {op : RegistryOp} (hop : ¬ op.Joins id) : (op.run o r).HoldsNothing id := by
  cases op with
  | newSubscriber => exact h
  | subscribe id' names =>
    refine ⟨fun channel hc => ?_, h.2⟩
    rcases (holds_addNames names id channel).mp hc with hc | ⟨heq, -⟩
    · exact h.1 channel hc
    · exact hop heq
  | psubscribe id' names =>
    refine ⟨h.1, fun pattern hp => ?_⟩
    rcases (holds_addNames names id pattern).mp hp with hp | ⟨heq, -⟩
    · exact h.2 pattern hp
    · exact hop heq
  | unsubscribe id' names =>
    refine ⟨fun channel hc => ?_, h.2⟩
    have hc := (MultiMap.holds_tidy ..).mp hc
    exact h.1 channel ((holds_removeNames _ id channel).mp hc).1
  | punsubscribe id' names =>
    refine ⟨h.1, fun pattern hp => ?_⟩
    have hp := (MultiMap.holds_tidy ..).mp hp
    exact h.2 pattern ((holds_removeNames _ id pattern).mp hp).1
  | stopSubscriberListener id' =>
    constructor
    · intro channel hc
      exact h.1 channel ((MultiMap.holds_erase ..).mp hc).1
    · intro pattern hp
      exact h.2 pattern ((MultiMap.holds_erase ..).mp hp).1

theorem holdsNothing_stop (r : PubSubRegistry) (o : FinMap.WalkOrder) (id : UInt64) :
    (r.stopSubscriberListener o id).HoldsNothing id :=
  ⟨fun _ hc => ((MultiMap.holds_erase ..).mp hc).2 rfl,
    fun _ hp => ((MultiMap.holds_erase ..).mp hp).2 rfl⟩

theorem HoldsNothing.runRegistry {id : UInt64} (h : r.HoldsNothing id)
    {ops : List (FinMap.WalkOrder × RegistryOp)} (hops : ∀ op ∈ ops, ¬ op.2.Joins id) :
    (runRegistry r ops).HoldsNothing id := by
  induction ops generalizing r with
  | nil => exact h
  | cons op ops ih =>
    exact ih (h.run op.1 (hops op List.mem_cons_self))
      fun op' hmem => hops op' (List.mem_cons_of_mem op hmem)

/-! ### Counts -/

/-- What is counted by name is what the subscribers have. -/
structure CountsAgree (r : PubSubRegistry) : Prop where
  publish : ∀ o channel data, (r.publish o channel data).2 =
    (r.channels.forth.pairs.filter fun p => p.2 = channel).length +
      (r.patterns.forth.pairs.filter fun p => globMatch p.2 channel).length
  numsub : ∀ names, r.pubsubNumsub names = names.map fun channel =>
    (channel, ((r.channels.forth.pairs.filter fun p => p.2 = channel).length : ℤ))
  numpat : ∀ o, r.pubsubNumpat o = r.patterns.forth.pairs.length
  sorted : ∀ o pattern,
    (r.pubsubChannels o pattern).Pairwise fun a b => compare a b = .lt
  mem_channels : ∀ o pattern channel, channel ∈ r.pubsubChannels o pattern ↔
    (∃ id, r.channels.forth.Holds id channel) ∧ ∀ pat, pattern = some pat → globMatch pat channel

theorem Coherent.size_channel (h : r.Coherent) (channel : Bytes) :
    (r.channels.back.valuesOf channel).size =
      (r.channels.forth.pairs.filter fun p => p.2 = channel).length := by
  rw [← MultiMap.length_pairs_filter_fst]
  exact h.channels.length_filter fun name => decide (name = channel)

theorem pairwise_pubsubChannels (r : PubSubRegistry) (o : FinMap.WalkOrder)
    (pattern : Option Bytes) :
    (r.pubsubChannels o pattern).Pairwise fun a b => compare a b = .lt := by
  have hsorted : (r.pubsubChannels o pattern).Pairwise fun a b => (compare a b).isLE = true := by
    apply List.pairwise_mergeSort
    · intro a b c hab hbc
      exact Std.TransCmp.isLE_trans hab hbc
    · intro a b
      have hswap : compare b a = (compare a b).swap := Std.OrientedOrd.eq_swap
      rw [hswap]
      cases compare a b <;> rfl
  have hnodup : (r.pubsubChannels o pattern).Nodup := by
    rw [pubsubChannels, (List.mergeSort_perm _ _).nodup_iff]
    exact (FinMap.nodup_fst_walk o _).filter _
  refine (hsorted.and hnodup).imp ?_
  rintro a b ⟨hle, hne⟩
  rw [Ordering.isLE_iff_eq_lt_or_eq_eq] at hle
  exact hle.resolve_right fun heq => hne (Std.compare_eq_iff_eq.mp heq)

theorem Coherent.countsAgree (h : r.Coherent) : r.CountsAgree where
  publish o channel data := by
    have hpatterns : ((r.matching o channel).map fun p => p.2.size).sum =
        (r.patterns.forth.pairs.filter fun p => globMatch p.2 channel).length := by
      unfold matching
      rw [MultiMap.sum_size_walk r.patterns.back o fun pat => globMatch pat channel]
      exact h.patterns.length_filter fun pat => globMatch pat channel
    unfold publish
    dsimp only
    rw [hpatterns, h.size_channel]
  numsub names := by
    unfold pubsubNumsub
    refine List.map_congr_left fun channel _ => ?_
    rw [h.size_channel]
  numpat o := by
    have hall := MultiMap.sum_size_walk r.patterns.back o fun _ => true
    rw [List.filter_true, List.filter_true, h.patterns.pairs_perm.length_eq, List.length_map]
      at hall
    unfold pubsubNumpat
    rw [hall]
  sorted := r.pairwise_pubsubChannels
  mem_channels o pattern channel := by
    unfold pubsubChannels
    rw [List.mem_mergeSort, List.mem_filter, ← h.channels.mem_back, FinMap.mem_iff_getElem?,
      Option.all_eq_true]
    refine and_congr_left fun _ => ?_
    rw [List.mem_map]
    constructor
    · rintro ⟨⟨name, s⟩, hmem, rfl⟩
      exact ⟨s, (FinMap.mem_walk o).mp hmem⟩
    · rintro ⟨s, hs⟩
      exact ⟨(channel, s), (FinMap.mem_walk o).mpr hs, rfl⟩

/-! ### Replies -/

/-- A reply names each of `names` with the subscriptions that `id` has after the call for the names
up to there. -/
def Tells (id : UInt64) (names : List Bytes) (call : List Bytes → PubSubRegistry × List (Bytes × ℤ))
    (reply : List (Bytes × ℤ)) : Prop :=
  reply.length = names.length ∧ ∀ i name, names[i]? = some name →
    reply[i]? = some (name, (call (names.take (i + 1))).1.total id)

/-- The counts in the replies are those of the subscriptions at that point. -/
structure RepliesCount (r : PubSubRegistry) : Prop where
  subscribe : ∀ id names, Tells id names (r.subscribe id) (r.subscribe id names).2
  psubscribe : ∀ id names, Tells id names (r.psubscribe id) (r.psubscribe id names).2
  unsubscribe : ∀ o id names, Tells id (namesToRemove o id names r.channels) (r.unsubscribe o id)
    (r.unsubscribe o id names).2
  punsubscribe : ∀ o id names, Tells id (namesToRemove o id names r.patterns) (r.punsubscribe o id)
    (r.punsubscribe o id names).2

/-- Names that are given are the names to remove. -/
theorem namesToRemove_take {o : FinMap.WalkOrder} {id : UInt64} {names : List Bytes}
    {t : TwoWay UInt64 Bytes} {i : ℕ} {name : Bytes} (h : names[i]? = some name) :
    namesToRemove o id (names.take (i + 1)) t = names.take (i + 1) := by
  cases names with
  | nil => cases h
  | cons n names => rfl

theorem repliesCount (r : PubSubRegistry) : r.RepliesCount where
  subscribe id names := by
    refine ⟨oneByOne_addNames.length names, fun i name hi => ?_⟩
    exact oneByOne_addNames.getElem? hi
  psubscribe id names := by
    refine ⟨oneByOne_addNames.length names, fun i name hi => ?_⟩
    refine (oneByOne_addNames.getElem? hi).trans ?_
    unfold total
    rw [add_comm]
    rfl
  unsubscribe o id names := by
    refine ⟨oneByOne_removeNames.length _, fun i name hi => ?_⟩
    refine (oneByOne_removeNames.getElem? hi).trans ?_
    unfold total PubSubRegistry.unsubscribe
    dsimp only
    rw [namesToRemove_take hi, held_tidy]
  punsubscribe o id names := by
    refine ⟨oneByOne_removeNames.length _, fun i name hi => ?_⟩
    refine (oneByOne_removeNames.getElem? hi).trans ?_
    unfold total PubSubRegistry.punsubscribe
    dsimp only
    rw [namesToRemove_take hi, held_tidy, add_comm]

end PubSubRegistry

/-! ## All calls -/

/-- The state that any sequence of calls leads to: its two sides agree, by name and by subscriber
the same is counted, every reply counts the subscriptions, and a subscriber that was stopped and has
not subscribed again is in none of the maps. -/
theorem registry_coherent (ops : List (FinMap.WalkOrder × RegistryOp)) :
    (runRegistry .new ops).Coherent ∧ (runRegistry .new ops).CountsAgree ∧
    (runRegistry .new ops).RepliesCount ∧
    ∀ before o id after, ops = before ++ (o, .stopSubscriberListener id) :: after →
      (∀ op ∈ after, ¬ op.2.Joins id) → (runRegistry .new ops).Absent id := by
  have hcoherent := PubSubRegistry.coherent_new.runRegistry ops
  refine ⟨hcoherent, hcoherent.countsAgree, PubSubRegistry.repliesCount _, ?_⟩
  rintro before o id after rfl hafter
  apply hcoherent.absent
  unfold runRegistry
  rw [List.foldl_append, List.foldl_cons]
  exact (PubSubRegistry.holdsNothing_stop _ o id).runRegistry hafter

/-- A subscriber with a channel and a pattern is stopped, and another one subscribes. -/
theorem stoppedSubscriber_absent :
    (runRegistry .new [(.byKey, .subscribe 0 [[97]]), (.byKey, .psubscribe 0 [[42]]),
      (.byKey, .stopSubscriberListener 0), (.byKey, .subscribe 1 [[97]])]).Absent 0 := by
  refine (registry_coherent _).2.2.2 [(.byKey, .subscribe 0 [[97]]), (.byKey, .psubscribe 0 [[42]])]
    .byKey 0 [(.byKey, .subscribe 1 [[97]])] rfl fun op hop => ?_
  rw [List.mem_singleton] at hop
  subst hop
  show ¬ ((1 : UInt64) = 0)
  decide

end BurnerRedis
