import BurnerRedis.PubSub.Registry

/-!
# The tasks that listen

The listener of a subscriber is a task that takes messages from its receiver and puts them into the
queue of its `PubSub` object. Closing the object raises a flag, fires a signal, and waits for the
task to be gone. Between any two steps of a task anything can happen: the flag is looked at twice
for each message, the second time by the thread that holds the interpreter.

The receiver is a parameter, and `Receiver.Delivers` is what is documented of it. `Change` is what
one event does to one task, and what every change keeps is kept by every run (`run_invariant`).
-/

namespace BurnerRedis

/-! ## Receivers -/

/-- What `rx.recv` answers. -/
inductive Received where
  | ok (m : PubSubMessage)
  | lagged (n : ℕ)
  | closed
  /-- nothing yet, so that the task waits -/
  | pending

/-- A receiver of the broadcast channel: a new one, what a message that is sent does to it, and what
it answers, given whether the sender is gone. -/
structure Receiver (ρ : Type) where
  subscribe : ρ
  send : PubSubMessage → ρ → ρ
  recv : Bool → ρ → Received × ρ

variable {ρ : Type}

/-- A receiver gives the messages that were sent since it subscribed in the order in which they were
sent. The oldest of those that wait in it may be overwritten, which it reports. -/
structure Receiver.Delivers (R : Receiver ρ) (waiting : ρ → List PubSubMessage)
    (overwritten : ρ → ℕ) : Prop where
  subscribe : waiting R.subscribe = [] ∧ overwritten R.subscribe = 0
  send : ∀ m r, ∃ old, waiting r ++ [m] = old ++ waiting (R.send m r) ∧
    overwritten (R.send m r) = overwritten r + old.length
  ok : ∀ closed r m r', R.recv closed r = (.ok m, r') →
    waiting r = m :: waiting r' ∧ overwritten r' = overwritten r
  lagged : ∀ closed r n r', R.recv closed r = (.lagged n, r') →
    ∃ old, waiting r = old ++ waiting r' ∧ n + overwritten r' = overwritten r + old.length
  closed : ∀ closed r r', R.recv closed r = (.closed, r') →
    waiting r' = waiting r ∧ overwritten r' = overwritten r
  pending : ∀ closed r r', R.recv closed r = (.pending, r') →
    waiting r' = waiting r ∧ overwritten r' = overwritten r

/-! ## The loop -/

/-- Where a task is in its loop. -/
inductive ListenerPoint where
  /-- about to look at `stop_rx` -/
  | selecting
  /-- about to look at `rx.recv` -/
  | receiving
  /-- has a message, and has not looked at the flag -/
  | received (m : PubSubMessage)
  /-- waits for the interpreter -/
  | attaching (m : PubSubMessage)
  /-- holds the interpreter, and has not looked at the flag again -/
  | attached (m : PubSubMessage)
  /-- calls `put_nowait` -/
  | putting (m : PubSubMessage)
  | exited
deriving DecidableEq

namespace ListenerPoint

/-- The message that a task has taken and not put. -/
def message : ListenerPoint → List PubSubMessage
  | received m | attaching m | attached m | putting m => [m]
  | _ => []

end ListenerPoint

/-- A task with its flag and its signal, its receiver, and the queue it fills. -/
structure Listener (ρ : Type) where
  point : ListenerPoint
  stopFlag : Bool
  /-- `stop_tx` was sent or dropped -/
  stopFired : Bool
  rx : ρ
  /-- messages that the receiver has given -/
  taken : List PubSubMessage
  /-- messages that were reported as dropped -/
  reported : ℕ
  queue : List PubSubMessage
deriving DecidableEq

/-- What a step of a task meets: the sender is gone, the interpreter goes down, `put_nowait` raises
an exception. -/
structure Surroundings where
  closed : Bool := false
  finalizing : Bool := false
  putFails : Bool := false

namespace Listener

variable (R : Receiver ρ)

/-- `_subscribe_listener`: a receiver that has nothing, and a task. -/
def spawned : Listener ρ := ⟨.selecting, false, false, R.subscribe, [], 0, []⟩

/-- A message is sent to every receiver that is there. -/
def send (m : PubSubMessage) (l : Listener ρ) : Listener ρ :=
  if l.point = .exited then l else { l with rx := R.send m l.rx }

/-- The task goes on. -/
def step (w : Surroundings) (l : Listener ρ) : Listener ρ :=
  match l.point with
  | .selecting => { l with point := if l.stopFired then .exited else .receiving }
  | .receiving =>
    match R.recv w.closed l.rx with
    | (.ok m, rx) => { l with rx := rx, taken := l.taken ++ [m], point := .received m }
    | (.lagged n, rx) => { l with rx := rx, reported := l.reported + n, point := .selecting }
    | (.closed, rx) => { l with rx := rx, point := .exited }
    | (.pending, rx) => { l with rx := rx, point := .selecting }
  | .received m => { l with point := if l.stopFlag then .exited else .attaching m }
  | .attaching m => { l with point := if w.finalizing then .exited else .attached m }
  | .attached m => { l with point := if l.stopFlag then .selecting else .putting m }
  | .putting m =>
    if w.putFails then { l with point := .exited }
    else { l with queue := l.queue ++ [m], point := .selecting }
  | .exited => l

def raise (l : Listener ρ) : Listener ρ := { l with stopFlag := true }

def fire (l : Listener ρ) : Listener ρ := { l with stopFired := true }

end Listener

/-! ## All listeners -/

/-- The tasks in the order they were spawned, and the handles of `listener_stoppers`: a subscriber's
task. -/
structure ListenerSystem (ρ : Type) where
  listeners : List (Listener ρ)
  stoppers : FinMap UInt64 ℕ

namespace ListenerSystem

inductive Event where
  | spawn
  /-- `register_listener_stopper`, of this task -/
  | register (id : UInt64) (i : ℕ)
  | send (m : PubSubMessage)
  | step (i : ℕ) (w : Surroundings)
  /-- `stop_subscriber_listener` takes the handle and raises the flag -/
  | stop (id : UInt64)
  /-- `stop_subscriber_listener` fires the signal of a task whose flag is raised -/
  | fire (i : ℕ)

def setAt (i : ℕ) (f : Listener ρ → Listener ρ) (s : ListenerSystem ρ) : ListenerSystem ρ :=
  { s with listeners := s.listeners.modify i f }

def run1 (R : Receiver ρ) (s : ListenerSystem ρ) : Event → ListenerSystem ρ
  | .spawn => { s with listeners := s.listeners ++ [.spawned R] }
  | .register id i =>
    let s' := match s.stoppers[id]? with
      | some j => s.setAt j .fire
      | none => s
    { s' with stoppers := s.stoppers.insert id i }
  | .send m => { s with listeners := s.listeners.map (.send R m) }
  | .step i w => s.setAt i (.step R w)
  | .stop id => match s.stoppers[id]? with
    | some i => { s.setAt i .raise with stoppers := s.stoppers.erase id }
    | none => s
  | .fire i => s.setAt i fun l => if l.stopFlag then l.fire else l

def run (R : Receiver ρ) (s : ListenerSystem ρ) (events : List Event) : ListenerSystem ρ :=
  events.foldl (run1 R) s

/-- What is sent in a run. -/
def sentIn (events : List Event) : List PubSubMessage :=
  events.filterMap fun
    | .send m => some m
    | _ => none

/-- How often a task goes on in a run. -/
def stepsOf (i : ℕ) (events : List Event) : ℕ :=
  events.countP fun
    | .step j _ => j = i
    | _ => false

/-! ## What happens to one task -/

/-- What an event does to the task with this number. -/
inductive Change (R : Receiver ρ) (i : ℕ) : Event → Listener ρ → Listener ρ → Prop where
  | send (m : PubSubMessage) (l : Listener ρ) : Change R i (.send m) l (l.send R m)
  | step (w : Surroundings) (l : Listener ρ) : Change R i (.step i w) l (l.step R w)
  | signal {ev : Event} {l l' : Listener ρ} (hs : sentIn [ev] = []) (hk : stepsOf i [ev] = 0)
      (h : l' = l ∨ l' = l.raise ∨ l' = l.fire) : Change R i ev l l'

variable {R : Receiver ρ} {s : ListenerSystem ρ} {i : ℕ} {l : Listener ρ}

theorem setAt_getElem? (hl : s.listeners[i]? = some l) (j : ℕ) (f : Listener ρ → Listener ρ) :
    (s.setAt j f).listeners[i]? = some (if j = i then f l else l) := by
  unfold setAt
  rw [List.getElem?_modify, hl]
  rfl

theorem run1_change (hl : s.listeners[i]? = some l) (ev : Event) :
    ∃ l', (s.run1 R ev).listeners[i]? = some l' ∧ Change R i ev l l' := by
  cases ev with
  | spawn =>
    refine ⟨l, ?_, .signal rfl rfl (.inl rfl)⟩
    obtain ⟨hlt, -⟩ := List.getElem?_eq_some_iff.mp hl
    rw [run1, List.getElem?_append_left hlt, hl]
  | register id j =>
    dsimp only [run1]
    cases hj : s.stoppers[id]? with
    | none => exact ⟨l, hl, .signal rfl rfl (.inl rfl)⟩
    | some k =>
      refine ⟨_, setAt_getElem? hl k .fire, .signal rfl rfl ?_⟩
      split_ifs
      · exact .inr (.inr rfl)
      · exact .inl rfl
  | send m => exact ⟨l.send R m, by rw [run1, List.getElem?_map, hl, Option.map_some], .send m l⟩
  | step j w =>
    refine ⟨_, setAt_getElem? hl j (.step R w), ?_⟩
    split_ifs with h
    · rw [h]
      exact .step w l
    · exact .signal rfl (by simp [stepsOf, h]) (.inl rfl)
  | stop id =>
    dsimp only [run1]
    cases hj : s.stoppers[id]? with
    | none => exact ⟨l, hl, .signal rfl rfl (.inl rfl)⟩
    | some k =>
      refine ⟨_, setAt_getElem? hl k .raise, .signal rfl rfl ?_⟩
      split_ifs
      · exact .inr (.inl rfl)
      · exact .inl rfl
  | fire j =>
    refine ⟨_, setAt_getElem? hl j _, .signal rfl rfl ?_⟩
    split_ifs
    · exact .inr (.inr rfl)
    · exact .inl rfl
    · exact .inl rfl

/-- What an invariant of one task's changes says of whole runs. -/
theorem run_invariant {I : List Event → Listener ρ → Prop}
    (hI : ∀ events ev l l', I events l → Change R i ev l l' → I (events ++ [ev]) l')
    (hl : s.listeners[i]? = some l) (h : I [] l) (events : List Event) :
    ∃ l', (s.run R events).listeners[i]? = some l' ∧ I events l' := by
  induction events using List.reverseRecOn with
  | nil => exact ⟨l, hl, h⟩
  | append_singleton events ev ih =>
    obtain ⟨l', hl', h'⟩ := ih
    obtain ⟨l'', hl'', hc⟩ := run1_change hl' ev
    refine ⟨l'', ?_, hI events ev l' l'' h' hc⟩
    rw [run, List.foldl_append]
    exact hl''

theorem sentIn_append (events events' : List Event) :
    sentIn (events ++ events') = sentIn events ++ sentIn events' :=
  List.filterMap_append

theorem stepsOf_append (events events' : List Event) :
    stepsOf i (events ++ events') = stepsOf i events + stepsOf i events' :=
  List.countP_append

end ListenerSystem

end BurnerRedis
