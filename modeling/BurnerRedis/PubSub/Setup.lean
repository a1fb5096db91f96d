import BurnerRedis.PubSub.Coherence
import BurnerRedis.PubSub.Client

/-!
# The listener of a `PubSub` object

In an orderly run (`PubSubSystem.Orderly`) an object has at most one listener, there or on its way,
and no subscription before it is there (`Setup`).
-/

namespace BurnerRedis

theorem RegistryOp.not_joins {op : RegistryOp} {id : UInt64} (h : op.subject ≠ some id) :
    ¬ op.Joins id := by
  intro hjoins
  cases op with
  | subscribe id' names => exact h (congrArg some hjoins)
  | psubscribe id' names => exact h (congrArg some hjoins)
  | newSubscriber => exact hjoins
  | unsubscribe id' names => exact hjoins
  | punsubscribe id' names => exact hjoins
  | stopSubscriberListener id' => exact hjoins

/-- Only `new_subscriber` moves the counter. -/
theorem RegistryOp.nextId_run (o : FinMap.WalkOrder) (r : PubSubRegistry) (op : RegistryOp) :
    (op.run o r).nextId = if op.subject = none then r.nextId + 1 else r.nextId := by
  cases op <;> rfl

def Call.isStarting : Call → Bool
  | .starting _ => true
  | _ => false

namespace PubSubSystem

/-! ## One listener -/

/-- The registry is coherent and gives away new ids; the object has at most one listener, there or on
its way, and no subscription before it is there. -/
structure Setup (s : PubSubSystem) : Prop where
  coherent : s.registry.Coherent
  fresh : ∀ id, s.registry.nextId ≤ id → s.registry.HoldsNothing id
  own : ∀ id, s.client.subscriberId = some id → id < s.registry.nextId
  idle : s.client.subscriberId = none → s.calls.countP Call.isStarting + s.listeners.length = 0
  single : s.calls.countP Call.isStarting + s.listeners.length ≤ 1
  listened : s.client.listenerStarted = true → s.listeners ≠ []
  started : ∀ names, .started names ∈ s.calls → s.listeners ≠ []
  deaf : s.listeners = [] → ∀ id, s.client.subscriberId = some id → s.registry.HoldsNothing id

theorem setup_new : new.Setup where
  coherent := PubSubRegistry.coherent_new
  fresh id _ := by
    constructor
    · intro channel h
      exact Std.ExtTreeMap.not_mem_empty h
    · intro pattern h
      exact Std.ExtTreeMap.not_mem_empty h
  own id h := by cases h
  idle _ := rfl
  single := Nat.zero_le 1
  listened h := by cases h
  started names h := by cases h
  deaf _ id h := by cases h

variable {s : PubSubSystem}

/-- Any call of a subscriber that was given its id. -/
theorem Setup.runRegistry (h : s.Setup) (o : FinMap.WalkOrder) (op : RegistryOp) {id : UInt64}
    (hop : op.subject = some id) (hid : id < s.registry.nextId)
    (hjoins : s.listeners = [] → ∀ own, s.client.subscriberId = some own → ¬ op.Joins own) :
    Setup { s with registry := op.run o s.registry } := by
  have hnext : (op.run o s.registry).nextId = s.registry.nextId := by
    rw [RegistryOp.nextId_run, hop, if_neg (Option.some_ne_none id)]
  refine ⟨h.coherent.run o op, fun id' hid' => ?_, fun own hown => ?_, h.idle, h.single, h.listened,
    h.started, fun hl own hown => (h.deaf hl own hown).run o (hjoins hl own hown)⟩
  · rw [hnext] at hid'
    refine (h.fresh id' hid').run o (RegistryOp.not_joins ?_)
    rw [hop]
    intro heq
    cases heq
    exact UInt64.lt_irrefl _ (UInt64.lt_of_lt_of_le hid hid')
  · rw [hnext]
    exact h.own own hown

/-- Another subscriber gets an id. -/
theorem Setup.newSubscriber (h : s.Setup) (hroom : s.registry.nextId < s.registry.nextId + 1) :
    Setup { s with registry := s.registry.newSubscriber.1 } where
  coherent := ⟨h.coherent.channels, h.coherent.patterns⟩
  fresh id hid := h.fresh id (UInt64.le_of_lt (UInt64.lt_of_lt_of_le hroom hid))
  own id hid := UInt64.lt_trans (h.own id hid) hroom
  idle := h.idle
  single := h.single
  listened := h.listened
  started := h.started
  deaf := h.deaf

/-- What else changes is of no concern. -/
theorem Setup.congr (h : s.Setup) {s' : PubSubSystem} (hregistry : s'.registry = s.registry)
    (hid : s'.client.subscriberId = s.client.subscriberId)
    (hstarted : s'.client.listenerStarted = s.client.listenerStarted) (hcalls : s'.calls = s.calls)
    (hlisteners : s'.listeners.length = s.listeners.length) : s'.Setup := by
  have hnil : s'.listeners = [] ↔ s.listeners = [] := by
    rw [← List.length_eq_zero_iff, hlisteners, List.length_eq_zero_iff]
  constructor
  · rw [hregistry]
    exact h.coherent
  · rw [hregistry]
    exact h.fresh
  · rw [hregistry, hid]
    exact h.own
  · rw [hid, hcalls, hlisteners]
    exact h.idle
  · rw [hcalls, hlisteners]
    exact h.single
  · rw [hstarted, Ne, hnil]
    exact h.listened
  · rw [hcalls, Ne, hnil]
    exact h.started
  · rw [hnil, hid, hregistry]
    exact h.deaf

theorem Setup.listeners_eq (h : s.Setup) : s.listeners = [] ∨ ∃ l, s.listeners = [l] := by
  have hsingle := h.single
  rcases hs : s.listeners with _ | ⟨l, _ | ⟨l', ls⟩⟩
  · exact Or.inl rfl
  · exact Or.inr ⟨l, rfl⟩
  · rw [hs, List.length_cons, List.length_cons] at hsingle
    omega

/-- A call is taken out to go on. -/
theorem Setup.eraseCall (h : s.Setup) {i : ℕ} {call : Call} (hi : s.calls[i]? = some call) :
    Setup { s with calls := s.calls.eraseIdx i } ∧
    (call.isStarting → s.client.subscriberId ≠ none ∧ s.listeners = [] ∧
      (s.calls.eraseIdx i).countP Call.isStarting = 0) := by
  obtain ⟨hlt, hget⟩ := List.getElem?_eq_some_iff.mp hi
  have hcount : s.calls.countP Call.isStarting =
      (s.calls.eraseIdx i).countP Call.isStarting + if call.isStarting then 1 else 0 := by
    have hperm := List.getElem_cons_eraseIdx_perm hlt
    rw [← hperm.countP_eq, List.countP_cons, hget]
  have hsingle := h.single
  refine ⟨⟨h.coherent, h.fresh, h.own, fun hid => ?_, ?_, h.listened, fun names hmem => ?_, h.deaf⟩,
    fun hstarting => ?_⟩
  · have hidle := h.idle hid
    dsimp only
    omega
  · dsimp only
    omega
  · exact h.started names (List.mem_of_mem_eraseIdx hmem)
  · rw [if_pos hstarting] at hcount
    refine ⟨fun hid => ?_, List.eq_nil_of_length_eq_zero ?_, ?_⟩
    · have hidle := h.idle hid
      omega
    · omega
    · omega

/-- The listener that a call waited for is there. -/
theorem Setup.addListener (h : s.Setup) (hid : s.client.subscriberId ≠ none)
    (hnil : s.listeners = []) (hcount : s.calls.countP Call.isStarting = 0) :
    Setup { s with listeners := s.listeners ++ [[]] } := by
  have hne : s.listeners ++ [[]] ≠ [] :=
    List.append_ne_nil_of_right_ne_nil _ (List.cons_ne_nil _ _)
  refine ⟨h.coherent, h.fresh, h.own, fun hnone => absurd hnone hid, ?_, fun _ => hne,
    fun _ _ => hne, fun hl => absurd hl hne⟩
  show s.calls.countP Call.isStarting + (s.listeners ++ [[]]).length ≤ 1
  rw [hcount, hnil]
  exact Nat.le_refl 1

/-- A call that goes on later. -/
theorem Setup.keep {x : PubSubSystem × Option Call} (h : x.1.Setup)
    (hcall : ∀ call, x.2 = some call →
      call.isStarting = false ∧ ∀ names, call = .started names → x.1.listeners ≠ []) :
    (PubSubSystem.keep x).Setup := by
  have hcount : (x.1.calls ++ x.2.toList).countP Call.isStarting =
      x.1.calls.countP Call.isStarting := by
    rw [List.countP_append, Nat.add_eq_left, List.countP_eq_zero]
    intro call hmem
    rw [(hcall call (Option.mem_toList.mp hmem)).1]
    exact Bool.false_ne_true
  refine ⟨h.coherent, h.fresh, h.own, fun hid => ?_, ?_, h.listened, fun names hmem => ?_, h.deaf⟩
  · show (x.1.calls ++ x.2.toList).countP Call.isStarting + x.1.listeners.length = 0
    rw [hcount]
    exact h.idle hid
  · show (x.1.calls ++ x.2.toList).countP Call.isStarting + x.1.listeners.length ≤ 1
    rw [hcount]
    exact h.single
  · rcases List.mem_append.mp hmem with hmem | hmem
    · exact h.started names hmem
    · exact (hcall _ (Option.mem_toList.mp hmem)).2 names rfl

theorem Setup.register (h : s.Setup) (hlisteners : s.listeners ≠ []) (names : List Bytes) :
    (PubSubSystem.keep (s.register names)).Setup := by
  unfold PubSubSystem.register
  split
  · next id name names hid =>
    refine Setup.keep ?_ fun call hcall => ?_
    · exact h.runRegistry .byKey (.subscribe id (name :: names)) rfl (h.own id hid)
        fun hnil => absurd hnil hlisteners
    · cases hcall
      exact ⟨rfl, fun names heq => nomatch heq⟩
  · exact Setup.keep h fun call hcall => nomatch hcall

theorem Setup.subscribe (h : s.Setup) {args : List Bytes} (ho : s.Orderly (.subscribe args)) :
    (PubSubSystem.keep (s.subscribe args)).Setup := by
  unfold PubSubSystem.subscribe
  cases hstarted : s.client.listenerStarted with
  | true => exact h.register (h.listened hstarted) _
  | false =>
    obtain ⟨hid, hroom⟩ := ho hstarted
    have hidle := h.idle hid
    have hnew := h.newSubscriber hroom
    refine ⟨hnew.coherent, hnew.fresh, fun id heq => ?_, fun heq => ?_, ?_, fun heq => ?_,
      fun names hmem => ?_, fun _ id heq => ?_⟩
    · cases heq
      exact hroom
    · cases heq
    · show (s.calls ++ [Call.starting args.eraseDups]).countP Call.isStarting + s.listeners.length ≤ 1
      rw [List.countP_append, List.countP_singleton]
      simp only [Call.isStarting, if_true]
      omega
    · exact absurd (hstarted.symm.trans heq) Bool.false_ne_true
    · rcases List.mem_append.mp hmem with hmem | hmem
      · exact h.started names hmem
      · cases List.mem_singleton.mp hmem
    · cases heq
      exact h.fresh _ (UInt64.le_refl _)

theorem Setup.unsubscribe (h : s.Setup) (o : FinMap.WalkOrder) (args : List Bytes) :
    (PubSubSystem.keep (s.unsubscribe o args)).Setup := by
  unfold PubSubSystem.unsubscribe
  cases hid : s.client.subscriberId with
  | none =>
    refine Setup.keep ?_ fun call hcall => nomatch hcall
    exact h.congr rfl rfl rfl rfl rfl
  | some id =>
    dsimp only
    split
    · exact Setup.keep h fun call hcall => nomatch hcall
    · next name names hnames =>
      refine Setup.keep ?_ fun call hcall => ?_
      · exact h.runRegistry o (.unsubscribe id (name :: names)) rfl (h.own id hid)
          fun _ own _ hjoins => hjoins
      · cases hcall
        exact ⟨rfl, fun names heq => nomatch heq⟩

/-- A call that was taken out goes on. -/
theorem Setup.resume (h : s.Setup) {i : ℕ} {call : Call} (hi : s.calls[i]? = some call) :
    (PubSubSystem.keep (resume { s with calls := s.calls.eraseIdx i } call)).Setup := by
  obtain ⟨herase, hstarting⟩ := h.eraseCall hi
  cases call with
  | starting names =>
    obtain ⟨hid, hnil, hcount⟩ := hstarting rfl
    refine Setup.keep (herase.addListener hid hnil hcount) fun call hcall => ?_
    cases hcall
    exact ⟨rfl, fun _ _ => List.append_ne_nil_of_right_ne_nil _ (List.cons_ne_nil _ _)⟩
  | started names =>
    have hlisteners := h.started names (List.mem_of_getElem? hi)
    have hset : Setup { s with
        calls := s.calls.eraseIdx i
        client := { s.client with listenerStarted := true } } :=
      ⟨herase.coherent, herase.fresh, herase.own, herase.idle, herase.single,
        fun _ => hlisteners, herase.started, herase.deaf⟩
    exact hset.register hlisteners names
  | subscribed names results =>
    refine Setup.keep ?_ fun call hcall => ?_
    · exact herase.congr rfl rfl rfl rfl rfl
    · cases hcall
      exact ⟨rfl, fun names heq => nomatch heq⟩
  | confirming results =>
    cases results with
    | nil => exact herase.keep fun call hcall => nomatch hcall
    | cons result results =>
      refine Setup.keep ?_ fun call hcall => ?_
      · exact herase.congr rfl rfl rfl rfl rfl
      · cases hcall
        exact ⟨rfl, fun names heq => nomatch heq⟩
  | unsubscribed results =>
    cases results with
    | nil => exact herase.keep fun call hcall => nomatch hcall
    | cons result results =>
      refine Setup.keep ?_ fun call hcall => ?_
      · exact herase.congr rfl rfl rfl rfl rfl
      · cases hcall
        exact ⟨rfl, fun names heq => nomatch heq⟩

theorem Setup.step (h : s.Setup) {event : Event} (ho : s.Orderly event) : (s.step event).Setup := by
  cases event with
  | publish o channel data =>
    refine h.congr rfl rfl rfl rfl ?_
    exact List.length_map _
  | other o op =>
    unfold Orderly at ho
    dsimp only at ho
    cases hop : op.subject with
    | none =>
      rw [hop] at ho
      cases op with
      | newSubscriber => exact h.newSubscriber ho
      | _ => cases hop
    | some id =>
      rw [hop] at ho
      refine h.runRegistry o op hop ho.1 fun _ own hown => RegistryOp.not_joins ?_
      rw [hop, ← hown]
      exact ho.2.symm
  | subscribe args => exact h.subscribe ho
  | unsubscribe o args => exact h.unsubscribe o args
  | resume i =>
    unfold PubSubSystem.step
    dsimp only
    split
    · exact h
    · next call hi => exact h.resume hi
  | forward i =>
    show (s.forward i).Setup
    unfold PubSubSystem.forward
    split
    · refine h.congr rfl rfl rfl rfl ?_
      exact List.length_set
    · exact h
  | getMessage =>
    show s.getMessage.Setup
    unfold PubSubSystem.getMessage
    split
    · exact h
    · exact h.congr rfl rfl rfl rfl rfl
    · exact h.congr rfl rfl rfl rfl rfl

theorem Reachable.setup (h : s.Reachable) : s.Setup := by
  induction h with
  | new => exact setup_new
  | step _ event ho ih => exact ih.step ho

end PubSubSystem

end BurnerRedis
