import BurnerRedis.PubSub.Setup

/-!
# What `get_message` returns

The object picks its messages when they are read, by the dict that it has at that moment. Every
message goes once and in order through its one listener (`Accounts`), so it returns what was
published while anyone was registered and is read while the dict has the channel. That is what was
published while the object itself was registered only if the two moments agree on every message.
-/

namespace BurnerRedis

/-! ## The way of a message -/

/-- It was sent for the channel, not for a pattern. -/
def Published.isMessage (m : Published) : Bool := m.message.kind = .message

/-- The messages in a queue. -/
def messages (queue : List QueueItem) : List Published :=
  queue.filterMap fun
    | .message m => some m
    | .confirmation _ _ _ => none

theorem messages_put_confirmation (queue : List QueueItem) (kind : Confirmation) (name : Bytes)
    (count : ℤ) : messages (queue ++ [.confirmation kind name count]) = messages queue := by
  unfold messages
  rw [List.filterMap_append]
  exact List.append_nil _

theorem messages_put_message (queue : List QueueItem) (m : Published) :
    messages (queue ++ [.message m]) = messages queue ++ [m] := by
  unfold messages
  rw [List.filterMap_append]
  rfl

namespace PubSubSystem

variable {s : PubSubSystem}

/-- Everything on its way was read, is in the queue or waits in the receiver, in this order; the books
say of it what they should. -/
structure Accounts (s : PubSubSystem) : Prop where
  patterns : s.client.patterns = []
  heard : s.books.heard = (s.books.reads.map Read.published ++ messages s.client.queue ++
    s.listeners.flatten).filter Published.isMessage
  due : s.books.due = s.books.heard.filter Published.registered
  returned : s.books.returned =
    (s.books.reads.filter fun x => x.published.isMessage && x.subscribed).map Read.published
  below : ∀ m ∈ s.books.heard, m.number < s.books.count
  ordered : s.books.heard.Pairwise fun a b => a.number < b.number

theorem accounts_new : new.Accounts where
  patterns := rfl
  heard := rfl
  due := rfl
  returned := rfl
  below m h := by cases h
  ordered := List.Pairwise.nil

/-- What else changes is of no concern. -/
theorem Accounts.congr (h : s.Accounts) {s' : PubSubSystem}
    (hpatterns : s'.client.patterns = s.client.patterns)
    (hqueue : messages s'.client.queue = messages s.client.queue)
    (hlisteners : s'.listeners.flatten = s.listeners.flatten) (hbooks : s'.books = s.books) :
    s'.Accounts := by
  constructor
  · rw [hpatterns]
    exact h.patterns
  · rw [hbooks, hqueue, hlisteners]
    exact h.heard
  · rw [hbooks]
    exact h.due
  · rw [hbooks]
    exact h.returned
  · rw [hbooks]
    exact h.below
  · rw [hbooks]
    exact h.ordered

theorem isAwaited_iff (h : s.registry.Coherent) (channel : Bytes) :
    s.isAwaited channel ↔ 0 < (s.registry.channels.back.valuesOf channel).size := by
  unfold isAwaited
  rw [List.any_eq_true, h.channels.size_back_pos]
  constructor
  · rintro ⟨⟨id, name⟩, hmem, hname⟩
    cases of_decide_eq_true hname
    exact ⟨id, MultiMap.mem_pairs.mp hmem⟩
  · rintro ⟨id, hid⟩
    exact ⟨(id, channel), MultiMap.mem_pairs.mpr hid, decide_eq_true rfl⟩

theorem isAwaited_of_isRegistered {channel : Bytes} (h : s.isRegistered channel) :
    s.isAwaited channel := by
  obtain ⟨id, -, hid⟩ := (Option.any_eq_true ..).mp h
  exact List.any_eq_true.mpr
    ⟨(id, channel), MultiMap.mem_pairs.mpr (of_decide_eq_true hid), decide_eq_true rfl⟩

/-- One of the messages sent is for the channel, if someone waits for it. -/
theorem filter_sending (h : s.registry.Coherent) (o : FinMap.WalkOrder) (channel data : Bytes) :
    (s.sending o channel data).filter Published.isMessage =
      if s.isAwaited channel then
        [⟨⟨.message, none, channel, data⟩, s.books.count, s.isRegistered channel⟩] else [] := by
  unfold sending PubSubRegistry.publish PubSubRegistry.sent
  dsimp only
  have hpatterns : ((s.registry.matching o channel).map fun p =>
      (⟨.pmessage, some p.1, channel, data⟩ : PubSubMessage)).filter
      (Published.isMessage ∘ fun m => ⟨m, s.books.count, s.isRegistered channel⟩) = [] := by
    rw [List.filter_eq_nil_iff]
    intro m hm
    obtain ⟨p, -, rfl⟩ := List.mem_map.mp hm
    exact Bool.false_ne_true
  rw [List.filter_map, List.filter_append, hpatterns, List.nil_append]
  by_cases hawaited : s.isAwaited channel
  · rw [if_pos hawaited, if_pos ((isAwaited_iff h channel).mp hawaited)]
    rfl
  · rw [if_neg hawaited, if_neg fun hsize => hawaited ((isAwaited_iff h channel).mpr hsize)]
    rfl

/-- The object is registered only when it has a listener. -/
theorem Setup.listeners_ne_nil (h : s.Setup) {channel : Bytes} (hr : s.isRegistered channel) :
    s.listeners ≠ [] := by
  intro hnil
  obtain ⟨id, hid, hholds⟩ := (Option.any_eq_true ..).mp hr
  exact (h.deaf hnil id hid).1 channel (of_decide_eq_true hholds)

theorem Accounts.publish (h : s.Accounts) (hs : s.Setup) (o : FinMap.WalkOrder)
    (channel data : Bytes) : (s.publish o channel data).Accounts := by
  set entry : Published :=
    ⟨⟨.message, none, channel, data⟩, s.books.count, s.isRegistered channel⟩ with hentry
  set extra : List Published := if s.isAwaited channel ∧ s.listeners ≠ [] then [entry] else []
    with hextra
  have hmem : ∀ m ∈ extra, m = entry := by
    intro m hm
    rw [hextra] at hm
    split_ifs at hm
    · exact List.mem_singleton.mp hm
    · cases hm
  refine ⟨h.patterns, ?_, ?_, h.returned, ?_, ?_⟩
  · show s.books.heard ++ extra = (s.books.reads.map Read.published ++ messages s.client.queue ++
      (s.listeners.map (· ++ s.sending o channel data)).flatten).filter Published.isMessage
    rcases hs.listeners_eq with hnil | ⟨l, hl⟩
    · have hnone : extra = [] := if_neg fun hx => hx.2 hnil
      rw [hnone, List.append_nil, h.heard, hnil]
      rfl
    · have hextra' : extra = (s.sending o channel data).filter Published.isMessage := by
        rw [filter_sending hs.coherent, hextra, hl]
        simp [hentry]
      rw [hextra', h.heard, hl, ← List.filter_append]
      simp
  · show s.books.due ++ (if s.isRegistered channel then [entry] else []) =
      (s.books.heard ++ extra).filter Published.registered
    rw [List.filter_append, h.due]
    congr 1
    by_cases hr : s.isRegistered channel
    · have hone : extra = [entry] := if_pos ⟨isAwaited_of_isRegistered hr, hs.listeners_ne_nil hr⟩
      have hkept : [entry].filter Published.registered = [entry] := List.filter_cons_of_pos hr
      rw [if_pos hr, hone, hkept]
    · rw [if_neg hr]
      refine (List.filter_eq_nil_iff.mpr fun m hm => ?_).symm
      rw [hmem m hm]
      exact hr
  · intro m hm
    rcases List.mem_append.mp hm with hm | hm
    · exact Nat.lt_succ_of_lt (h.below m hm)
    · rw [hmem m hm]
      exact Nat.lt_succ_self _
  · refine List.pairwise_append.mpr ⟨h.ordered, ?_, fun m hm m' hm' => ?_⟩
    · show (if s.isAwaited channel ∧ s.listeners ≠ [] then [entry] else []).Pairwise _
      split_ifs
      · exact List.pairwise_singleton _ _
      · exact List.Pairwise.nil
    · rw [hmem m' hm']
      exact h.below m hm

theorem Accounts.forward (h : s.Accounts) (hs : s.Setup) (i : ℕ) : (s.forward i).Accounts := by
  unfold PubSubSystem.forward
  split
  · next m waiting hi =>
    rcases hs.listeners_eq with hnil | ⟨l, hl⟩
    · rw [hnil] at hi
      cases hi
    · rw [hl] at hi
      cases i with
      | succ i => cases hi
      | zero =>
        cases hi
        refine ⟨h.patterns, ?_, h.due, h.returned, h.below, h.ordered⟩
        show s.books.heard = (s.books.reads.map Read.published ++
          messages (s.client.queue ++ [.message m]) ++ (s.listeners.set 0 waiting).flatten).filter
            Published.isMessage
        rw [h.heard, messages_put_message, hl]
        simp
  · exact h

theorem Accounts.getMessage (h : s.Accounts) : s.getMessage.Accounts := by
  unfold PubSubSystem.getMessage
  split
  · exact h
  · next kind name count queue hq =>
    refine h.congr rfl ?_ rfl rfl
    rw [hq]
    rfl
  · next m queue hq =>
    refine ⟨h.patterns, ?_, h.due, ?_, h.below, h.ordered⟩
    · show s.books.heard = ((s.books.reads ++ [(⟨m, _⟩ : Read)]).map Read.published ++
        messages queue ++ s.listeners.flatten).filter Published.isMessage
      have hmessages : messages s.client.queue = m :: messages queue := by
        rw [hq]
        rfl
      rw [h.heard, hmessages]
      simp
    · have hpass : s.client.filterMessage m.message =
          (m.isMessage && decide (m.message.channel ∈ s.client.channels)) := by
        unfold PubSub.filterMessage Published.isMessage
        rw [h.patterns]
        cases m.message.kind with
        | message => simp
        | pmessage => cases m.message.pattern <;> simp
      show s.books.returned ++ (if s.client.filterMessage m.message then [m] else []) = _
      rw [h.returned, hpass, List.filter_append, List.map_append]
      congr 1
      by_cases hkept : (m.isMessage && decide (m.message.channel ∈ s.client.channels)) <;>
        simp [hkept]

theorem Accounts.keep {x : PubSubSystem × Option Call} (h : x.1.Accounts) :
    (PubSubSystem.keep x).Accounts :=
  h.congr rfl rfl rfl rfl

/-- A call touches neither the messages on their way nor the books. -/
theorem Accounts.register (h : s.Accounts) (names : List Bytes) : (s.register names).1.Accounts := by
  unfold PubSubSystem.register
  split
  · exact h.congr rfl rfl rfl rfl
  · exact h

theorem Accounts.subscribe (h : s.Accounts) (args : List Bytes) :
    (s.subscribe args).1.Accounts := by
  unfold PubSubSystem.subscribe
  split_ifs
  · exact h.register _
  · exact h.congr rfl rfl rfl rfl

theorem Accounts.unsubscribe (h : s.Accounts) (o : FinMap.WalkOrder) (args : List Bytes) :
    (s.unsubscribe o args).1.Accounts := by
  unfold PubSubSystem.unsubscribe
  split
  · exact h.congr rfl rfl rfl rfl
  · split
    · exact h
    · exact h.congr rfl rfl rfl rfl

theorem Accounts.resume (h : s.Accounts) (call : Call) : (s.resume call).1.Accounts := by
  cases call with
  | starting names =>
    refine h.congr rfl rfl ?_ rfl
    show (s.listeners ++ [[]]).flatten = s.listeners.flatten
    simp
  | started names =>
    refine Accounts.register ?_ names
    exact h.congr rfl rfl rfl rfl
  | subscribed names results => exact h.congr rfl rfl rfl rfl
  | confirming results =>
    cases results with
    | nil => exact h
    | cons result results => exact h.congr rfl (messages_put_confirmation ..) rfl rfl
  | unsubscribed results =>
    cases results with
    | nil => exact h
    | cons result results => exact h.congr rfl (messages_put_confirmation ..) rfl rfl

theorem Accounts.step (h : s.Accounts) (hs : s.Setup) (event : Event) :
    (s.step event).Accounts := by
  cases event with
  | publish o channel data => exact h.publish hs o channel data
  | other o op => exact h.congr rfl rfl rfl rfl
  | subscribe args => exact (h.subscribe args).keep
  | unsubscribe o args => exact (h.unsubscribe o args).keep
  | resume i =>
    unfold PubSubSystem.step
    dsimp only
    split
    · exact h
    · refine Accounts.keep (Accounts.resume ?_ _)
      exact h.congr rfl rfl rfl rfl
  | forward i => exact h.forward hs i
  | getMessage => exact h.getMessage

theorem Reachable.accounts (h : s.Reachable) : s.Accounts := by
  induction h with
  | new => exact accounts_new
  | step hr event _ ih => exact ih.step hr.setup event

/-! ## What was read -/

/-- What `get_message` has returned when nothing is left to read. -/
structure Delivered (s : PubSubSystem) : Prop where
  once : ∀ channel, (s.readsOf channel).map Read.published = s.heardOf channel
  ordered : ∀ channel, (s.heardOf channel).Pairwise fun a b => a.number < b.number
  returned : ∀ channel,
    s.returnedOf channel = ((s.readsOf channel).filter Read.subscribed).map Read.published
  due : ∀ channel, s.dueOf channel = (s.heardOf channel).filter Published.registered
  agrees_iff : ∀ channel, s.returnedOf channel = s.dueOf channel ↔
    ∀ x ∈ s.readsOf channel, x.subscribed = x.published.registered

/-- Two choices from a list without repetition are the same list only if they agree everywhere. -/
theorem map_filter_eq_iff {α β : Type} {f : α → β} {l : List α} (h : (l.map f).Nodup)
    (p q : α → Bool) : (l.filter p).map f = (l.filter q).map f ↔ ∀ x ∈ l, p x = q x := by
  constructor
  · intro heq x hx
    have hmem : ∀ p : α → Bool, f x ∈ (l.filter p).map f ↔ p x = true := by
      intro p
      rw [List.mem_map]
      constructor
      · rintro ⟨y, hy, hxy⟩
        obtain ⟨hy, hpy⟩ := List.mem_filter.mp hy
        rwa [← List.inj_on_of_nodup_map h hy hx hxy]
      · intro hpx
        exact ⟨x, List.mem_filter.mpr ⟨hx, hpx⟩, rfl⟩
    rw [Bool.eq_iff_iff, ← hmem p, ← hmem q, heq]
  · intro hagree
    rw [List.filter_congr hagree]

theorem Accounts.delivered (h : s.Accounts) (hd : s.Drained) : s.Delivered := by
  have hheard : s.books.heard = (s.books.reads.map Read.published).filter Published.isMessage := by
    have hflat : s.listeners.flatten = [] := List.flatten_eq_nil_iff.mpr hd.1
    rw [h.heard, hd.2, hflat]
    simp [messages]
  have honce : ∀ channel, (s.readsOf channel).map Read.published = s.heardOf channel := by
    intro channel
    unfold readsOf heardOf
    rw [hheard, List.filter_filter, List.filter_map]
    congr 2
    funext x
    simp [Published.isMessage, Bool.and_comm]
  have hordered : ∀ channel, (s.heardOf channel).Pairwise fun a b => a.number < b.number :=
    fun channel => h.ordered.filter _
  have hreturned : ∀ channel, s.returnedOf channel =
      ((s.readsOf channel).filter Read.subscribed).map Read.published := by
    intro channel
    unfold returnedOf readsOf
    rw [h.returned, List.filter_map, List.filter_filter, List.filter_filter]
    congr 2
    funext x
    simp only [Published.isMessage, Function.comp_apply, Bool.decide_and]
    rw [Bool.and_comm, Bool.and_comm (y := x.subscribed), Bool.and_assoc]
  have hdue : ∀ channel, s.dueOf channel = (s.heardOf channel).filter Published.registered := by
    intro channel
    unfold dueOf heardOf
    rw [h.due, List.filter_filter, List.filter_filter]
    congr 1
    funext m
    exact Bool.and_comm _ _
  refine ⟨honce, hordered, hreturned, hdue, fun channel => ?_⟩
  have hnodup : ((s.readsOf channel).map Read.published).Nodup := by
    rw [honce]
    refine (hordered channel).imp fun hlt heq => ?_
    rw [heq] at hlt
    exact Nat.lt_irrefl _ hlt
  rw [hreturned, hdue, ← honce, List.filter_map]
  exact map_filter_eq_iff hnodup _ _

/-- The object subscribes, something is published, and it unsubscribes before it reads. -/
def lostMessage : List Event :=
  [.subscribe [[99]], .resume 0, .resume 0, .resume 0, .resume 0, .resume 0,
    .publish .byKey [99] [120], .forward 0, .unsubscribe .byKey [[99]], .resume 0, .resume 0,
    .getMessage, .getMessage, .getMessage]

/-- The object has another channel when something is published to a subscriber of this one, and
subscribes before it reads. -/
def earlyMessage : List Event :=
  [.other .byKey .newSubscriber, .other .byKey (.subscribe 0 [[99]]),
    .subscribe [[100]], .resume 0, .resume 0, .resume 0, .resume 0, .resume 0,
    .publish .byKey [99] [120], .forward 0, .subscribe [[99]], .resume 0, .resume 0, .resume 0,
    .getMessage, .getMessage, .getMessage]

/-- A second SUBSCRIBE begins while the first one waits for its listener. -/
def twoListeners : List Event :=
  [.subscribe [[99]], .subscribe [[99]], .resume 0, .resume 0, .resume 0, .resume 0, .resume 0,
    .resume 0, .resume 0, .resume 0, .resume 0, .resume 0, .publish .byKey [99] [120], .forward 0,
    .forward 1, .getMessage, .getMessage, .getMessage, .getMessage]

/-- When nothing is left to read, `get_message` has returned of a channel what was published to it
while anyone was registered for it and was read while the dict had it, each once and in order. That
is what was published while the object was registered for it if and only if the dict had the channel
at each read just when the object was registered at the PUBLISH. -/
theorem get_message_delivers (h : s.Reachable) (hd : s.Drained) : s.Delivered :=
  h.accounts.delivered hd

/-- Of the message that is lost, too. -/
theorem lostMessage_delivered : (new.run lostMessage).Delivered := by
  have hsubscribed := ((((((Reachable.new.step (.subscribe [[99]]) fun _ => ⟨rfl, by decide⟩).step
    (.resume 0) trivial).step (.resume 0) trivial).step (.resume 0) trivial).step
    (.resume 0) trivial).step (.resume 0) trivial)
  have hunsubscribed := ((((hsubscribed.step (.publish .byKey [99] [120]) trivial).step
    (.forward 0) trivial).step (.unsubscribe .byKey [[99]]) trivial).step
    (.resume 0) trivial).step (.resume 0) trivial
  exact get_message_delivers (((hunsubscribed.step .getMessage trivial).step .getMessage trivial).step
    .getMessage trivial) (by decide +kernel)

/-- A message that was due is lost, one that was not due is returned, and one is returned twice. -/
theorem returned_not_due :
    ((new.run lostMessage).Drained ∧
      ((new.run lostMessage).dueOf [99]).length = 1 ∧
      (new.run lostMessage).returnedOf [99] = []) ∧
    ((new.run earlyMessage).Drained ∧
      (new.run earlyMessage).dueOf [99] = [] ∧
      ((new.run earlyMessage).returnedOf [99]).length = 1) ∧
    (new.run twoListeners).Drained ∧
      ((new.run twoListeners).dueOf [99]).length = 1 ∧
      ((new.run twoListeners).returnedOf [99]).length = 2 := by
  decide +kernel

end PubSubSystem

end BurnerRedis
