import BurnerRedis.Script.Dispatch
import BurnerRedis.PubSub.Client
import BurnerRedis.PubSub.Coherence

/-!
# PUBLISH in a script

A script has the sender of the broadcast channel, not the registry: its PUBLISH sends one message for
the channel, whoever has subscribed. Whether an object gets the same from it as from
`Store::publish` is then up to the filter (`reaches_iff`).
-/

namespace BurnerRedis

/-- What `PUBLISH` in a script sends. -/
def Script.publishSends : List Bytes → List PubSubMessage
  | [channel, message] => [⟨.message, none, channel, message⟩]
  | _ => []

/-- With or without a last element that occurs nowhere else. -/
theorem perm_append_singleton_iff {α : Type} {a : α} {l : List α} (h : a ∉ l) (p q : Prop)
    [Decidable p] [Decidable q] :
    (if q then [a] else []).Perm (l ++ if p ∧ q then [a] else []) ↔ l = [] ∧ (q → p) := by
  by_cases hq : q
  · by_cases hp : p
    · simp only [hp, hq, and_self, if_true]
      constructor
      · intro hperm
        have hlength := hperm.length_eq
        rw [List.length_append] at hlength
        refine ⟨List.eq_nil_of_length_eq_zero ?_, fun _ => trivial⟩
        omega
      · rintro ⟨rfl, -⟩
        exact List.Perm.refl _
    · simp only [hp, hq, false_and, if_true, if_false, List.append_nil]
      constructor
      · intro hperm
        exact absurd (hperm.subset List.mem_cons_self) h
      · rintro ⟨-, himp⟩
        exact absurd trivial himp
  · simp [hq]

namespace PubSub

/-- The messages that pass the filter. -/
def receives (p : PubSub) (messages : List PubSubMessage) : List PubSubMessage :=
  messages.filter p.filterMessage

/-- What was sent for a pattern that the object does not have does not pass, nor does it look like
what was sent for the channel. -/
theorem receives_matching {p : PubSub} {r : PubSubRegistry} {o : FinMap.WalkOrder}
    {channel data : Bytes} :
    p.receives ((r.matching o channel).map fun x => ⟨.pmessage, some x.1, channel, data⟩) = [] ↔
      ∀ pattern ∈ p.patterns, globMatch pattern channel → pattern ∉ r.patterns.back := by
  unfold receives PubSubRegistry.matching
  rw [List.filter_eq_nil_iff]
  constructor
  · intro hnone pattern hp hmatch hmem
    obtain ⟨s, hs⟩ := FinMap.mem_iff_getElem?.mp hmem
    refine hnone _ (List.mem_map.mpr ⟨(pattern, s), ?_, rfl⟩) ?_
    · exact List.mem_filter.mpr ⟨(FinMap.mem_walk o).mpr hs, hmatch⟩
    · exact decide_eq_true hp
  · intro hpatterns m hm hpass
    obtain ⟨⟨pattern, s⟩, hx, rfl⟩ := List.mem_map.mp hm
    obtain ⟨hwalk, hmatch⟩ := List.mem_filter.mp hx
    have hp : pattern ∈ p.patterns := of_decide_eq_true hpass
    exact hpatterns pattern hp hmatch (FinMap.mem_iff_getElem?.mpr ⟨s, (FinMap.mem_walk o).mp hwalk⟩)

/-- An object gets the same from a script's PUBLISH exactly when it has no pattern of the registry
that matches, and the channel only if the registry has a subscriber of it. -/
theorem reaches_iff (p : PubSub) (r : PubSubRegistry) (o : FinMap.WalkOrder)
    (channel data : Bytes) :
    (p.receives (Script.publishSends [channel, data])).Perm
        (p.receives (r.publish o channel data).1) ↔
      (∀ pattern ∈ p.patterns, globMatch pattern channel → pattern ∉ r.patterns.back) ∧
      (channel ∈ p.channels → 0 < (r.channels.back.valuesOf channel).size) := by
  set m : PubSubMessage := ⟨.message, none, channel, data⟩ with hm
  have hpass : p.filterMessage m = decide (channel ∈ p.channels) := rfl
  have hscript : p.receives (Script.publishSends [channel, data]) =
      if channel ∈ p.channels then [m] else [] := by
    show List.filter _ [m] = _
    rw [List.filter_singleton, hpass]
    by_cases hc : channel ∈ p.channels <;> simp [hc]
  have hstore : p.receives (r.publish o channel data).1 =
      p.receives ((r.matching o channel).map fun x => ⟨.pmessage, some x.1, channel, data⟩) ++
        if 0 < (r.channels.back.valuesOf channel).size ∧ channel ∈ p.channels then [m] else [] := by
    show List.filter _ (r.sent o channel data) = _
    unfold PubSubRegistry.sent receives
    rw [List.filter_append]
    congr 1
    by_cases hs : 0 < (r.channels.back.valuesOf channel).size <;>
      by_cases hc : channel ∈ p.channels <;> simp [hs, hc, hpass, ← hm]
  have hne : m ∉ p.receives
      ((r.matching o channel).map fun x => ⟨.pmessage, some x.1, channel, data⟩) := by
    intro hmem
    obtain ⟨x, -, heq⟩ := List.mem_map.mp (List.mem_filter.mp hmem).1
    have hkind : MessageKind.pmessage = MessageKind.message := congrArg PubSubMessage.kind heq
    cases hkind
  rw [hscript, hstore, perm_append_singleton_iff hne, receives_matching]

/-- What the object keeps for itself is what the registry has of the subscriber. -/
structure Recorded (p : PubSub) (r : PubSubRegistry) (id : UInt64) : Prop where
  channels : ∀ channel, channel ∈ p.channels ↔ r.channels.forth.Holds id channel
  patterns : ∀ pattern, pattern ∈ p.patterns ↔ r.patterns.forth.Holds id pattern

/-- While nothing is under way, only the patterns matter. -/
theorem reaches_iff_of_recorded {p : PubSub} {r : PubSubRegistry} {id : UInt64} (hr : r.Coherent)
    (hp : p.Recorded r id) (o : FinMap.WalkOrder) (channel data : Bytes) :
    (p.receives (Script.publishSends [channel, data])).Perm
        (p.receives (r.publish o channel data).1) ↔
      ∀ pattern ∈ p.patterns, ¬ globMatch pattern channel := by
  rw [reaches_iff]
  constructor
  · rintro ⟨hpatterns, -⟩ pattern hmem hmatch
    apply hpatterns pattern hmem hmatch
    exact hr.patterns.mem_back.mpr ⟨id, (hp.patterns pattern).mp hmem⟩
  · intro hnone
    refine ⟨fun pattern hmem hmatch => absurd hmatch (hnone pattern hmem), fun hchannel => ?_⟩
    exact hr.channels.size_back_pos.mpr ⟨id, (hp.channels channel).mp hchannel⟩

end PubSub

/-- All objects get the same from a script's PUBLISH as from the store's exactly when none has a
pattern of the registry that matches, or a channel for which the registry has no subscriber. -/
theorem script_publish_reaches_iff (r : PubSubRegistry) (o : FinMap.WalkOrder)
    (objects : Set PubSub) (channel data : Bytes) :
    (∀ p ∈ objects, (p.receives (Script.publishSends [channel, data])).Perm
      (p.receives (r.publish o channel data).1)) ↔
    ∀ p ∈ objects,
      (∀ pattern ∈ p.patterns, globMatch pattern channel → pattern ∉ r.patterns.back) ∧
      (channel ∈ p.channels → 0 < (r.channels.back.valuesOf channel).size) :=
  forall₂_congr fun p _ => p.reaches_iff r o channel data

/-- A subscriber of every channel by the pattern `*` gets a message from the store, and none from a
script. -/
theorem patternSubscriber_missed :
    let r := (PubSubRegistry.new.psubscribe 0 [[42]]).1
    let p : PubSub := { PubSub.new with patterns := [[42]], subscriberId := some 0 }
    p.receives (Script.publishSends [[97], [120]]) = [] ∧
    ¬ (p.receives (Script.publishSends [[97], [120]])).Perm
      (p.receives (r.publish .byKey [97] [120]).1) := by
  intro r p
  refine ⟨rfl, fun hperm => ?_⟩
  obtain ⟨hpatterns, -⟩ := (p.reaches_iff r .byKey [97] [120]).mp hperm
  refine hpatterns [42] List.mem_cons_self (globMatch_star [97]) ?_
  decide +kernel

end BurnerRedis
