import BurnerRedis.PubSub.Registry

/-!
# A `PubSub` object

`PubSub` is the Python object through which a subscriber sees the store: its own record of its
channels and patterns, and the queue that its listener fills. Every message that is sent goes to the
receiver of every listener, and `filterMessage` picks those of the object when they are read.

`PubSubSystem` is one such object among all others: what is published, what others do to the
registry, and where the calls on the object wait. `Deliveries` keeps the books; no part of the code
looks at it.
-/

namespace BurnerRedis

/-! ## The object -/

/-- A message that was sent: the number of the PUBLISH, and whether the object was registered for the
channel at that moment. -/
structure Published where
  message : PubSubMessage
  number : ℕ
  registered : Bool
deriving DecidableEq

inductive Confirmation where
  | subscribe
  | unsubscribe
  | psubscribe
  | punsubscribe
deriving DecidableEq

inductive QueueItem where
  | confirmation (kind : Confirmation) (name : Bytes) (count : ℤ)
  | message (m : Published)
deriving DecidableEq

/-- The dicts are lists of their keys, since no handler is set. -/
structure PubSub where
  channels : List Bytes
  patterns : List Bytes
  queue : List QueueItem
  subscriberId : Option UInt64
  listenerStarted : Bool

/-- The keys of a dict after `update`. -/
def updateKeys (dict names : List Bytes) : List Bytes :=
  dict ++ names.filter fun name => name ∉ dict

/-- The keys of a dict after `pop`. -/
def popKey (dict : List Bytes) (name : Bytes) : List Bytes := dict.filter fun key => key ≠ name

namespace PubSub

def new : PubSub := ⟨[], [], [], none, false⟩

/-- A message passes when the object has its channel, or the pattern it was sent for. -/
def filterMessage (p : PubSub) (m : PubSubMessage) : Bool :=
  match m.kind with
  | .message => m.channel ∈ p.channels
  | .pmessage => m.pattern.any (· ∈ p.patterns)

end PubSub

/-! ## The object among others -/

/-- A call on the object that is not finished. -/
inductive Call where
  /-- SUBSCRIBE waits for its listener to get a receiver. -/
  | starting (names : List Bytes)
  /-- SUBSCRIBE has its listener. -/
  | started (names : List Bytes)
  /-- SUBSCRIBE is registered, the dict is not updated yet. -/
  | subscribed (names : List Bytes) (results : List (Bytes × ℤ))
  /-- SUBSCRIBE has these confirmations to give. -/
  | confirming (results : List (Bytes × ℤ))
  /-- UNSUBSCRIBE has these names to pop and to confirm. -/
  | unsubscribed (results : List (Bytes × ℤ))

/-- A message that was taken from the queue, and whether the dict had its channel then. -/
structure Read where
  published : Published
  subscribed : Bool

/-- The books: how often PUBLISH was called; what was published to a channel for which the object was
registered; what was published to a channel for which anyone was registered, while a listener of the
object was there; what was taken from the queue; and what `get_message` returned. -/
structure Deliveries where
  count : ℕ
  due : List Published
  heard : List Published
  reads : List Read
  returned : List Published

structure PubSubSystem where
  registry : PubSubRegistry
  client : PubSub
  calls : List Call
  /-- The messages that wait in the receiver of each listener of the object. -/
  listeners : List (List Published)
  books : Deliveries

namespace PubSubSystem

def new : PubSubSystem := ⟨.new, .new, [], [], ⟨0, [], [], [], []⟩⟩

/-- The object is registered for the channel. -/
def isRegistered (s : PubSubSystem) (channel : Bytes) : Bool :=
  s.client.subscriberId.any fun id => s.registry.channels.forth.Holds id channel

/-- Someone is registered for the channel. -/
def isAwaited (s : PubSubSystem) (channel : Bytes) : Bool :=
  s.registry.channels.forth.pairs.any fun p => p.2 = channel

/-- What `Store::publish` sends. -/
def sending (o : FinMap.WalkOrder) (channel data : Bytes) (s : PubSubSystem) : List Published :=
  (s.registry.publish o channel data).1.map fun m => ⟨m, s.books.count, s.isRegistered channel⟩

/-- `Store::publish` by anyone. -/
def publish (o : FinMap.WalkOrder) (channel data : Bytes) (s : PubSubSystem) : PubSubSystem :=
  let entry : Published :=
    ⟨⟨.message, none, channel, data⟩, s.books.count, s.isRegistered channel⟩
  { s with
    listeners := s.listeners.map (· ++ s.sending o channel data)
    books := { s.books with
      count := s.books.count + 1
      due := s.books.due ++ if s.isRegistered channel then [entry] else []
      heard := s.books.heard ++ if s.isAwaited channel ∧ s.listeners ≠ [] then [entry] else [] } }

/-- The part of SUBSCRIBE that registers the channels. -/
def register (names : List Bytes) (s : PubSubSystem) : PubSubSystem × Option Call :=
  match s.client.subscriberId, names with
  | some id, name :: names =>
    let r := s.registry.subscribe id (name :: names)
    ({ s with registry := r.1 }, some (.subscribed (name :: names) r.2))
  | _, _ => (s, none)

/-- SUBSCRIBE, up to where it first waits. -/
def subscribe (args : List Bytes) (s : PubSubSystem) : PubSubSystem × Option Call :=
  if s.client.listenerStarted then s.register args.eraseDups
  else
    let r := s.registry.newSubscriber
    ({ s with registry := r.1, client := { s.client with subscriberId := some r.2 } },
      some (.starting args.eraseDups))

/-- UNSUBSCRIBE, up to where it first waits. -/
def unsubscribe (o : FinMap.WalkOrder) (args : List Bytes) (s : PubSubSystem) :
    PubSubSystem × Option Call :=
  match s.client.subscriberId with
  | none => ({ s with client := { s.client with channels := [] } }, none)
  | some id =>
    match if args.isEmpty then s.client.channels else args with
    | [] => (s, none)
    | name :: names =>
      let r := s.registry.unsubscribe o id (name :: names)
      ({ s with registry := r.1 }, some (.unsubscribed r.2))

def putNowait (item : QueueItem) (s : PubSubSystem) : PubSubSystem :=
  { s with client := { s.client with queue := s.client.queue ++ [item] } }

/-- A call that waits goes on. -/
def resume (s : PubSubSystem) : Call → PubSubSystem × Option Call
  | .starting names => ({ s with listeners := s.listeners ++ [[]] }, some (.started names))
  | .started names => register names { s with client := { s.client with listenerStarted := true } }
  | .subscribed names results =>
    ({ s with client := { s.client with channels := updateKeys s.client.channels names } },
      some (.confirming results))
  | .confirming [] => (s, none)
  | .confirming ((name, count) :: results) =>
    (s.putNowait (.confirmation .subscribe name count), some (.confirming results))
  | .unsubscribed [] => (s, none)
  | .unsubscribed ((name, count) :: results) =>
    (putNowait (.confirmation .unsubscribe name count)
      { s with client := { s.client with channels := popKey s.client.channels name } },
      some (.unsubscribed results))

/-- A listener moves the first message of its receiver to the queue. -/
def forward (i : ℕ) (s : PubSubSystem) : PubSubSystem :=
  match s.listeners[i]? with
  | some (m :: waiting) => putNowait (.message m) { s with listeners := s.listeners.set i waiting }
  | _ => s

/-- One turn of `get_message`, which ignores confirmations: a message that passes the filter is
returned. -/
def getMessage (s : PubSubSystem) : PubSubSystem :=
  match s.client.queue with
  | [] => s
  | .confirmation _ _ _ :: queue => { s with client := { s.client with queue := queue } }
  | .message m :: queue =>
    { s with
      client := { s.client with queue := queue }
      books := { s.books with
        reads := s.books.reads ++ [⟨m, m.message.channel ∈ s.client.channels⟩]
        returned := s.books.returned ++ if s.client.filterMessage m.message then [m] else [] } }

/-- Keep a call that is not finished. -/
def keep (x : PubSubSystem × Option Call) : PubSubSystem :=
  { x.1 with calls := x.1.calls ++ x.2.toList }

/-- What can happen. -/
inductive Event where
  | publish (o : FinMap.WalkOrder) (channel data : Bytes)
  | other (o : FinMap.WalkOrder) (op : RegistryOp)
  | subscribe (args : List Bytes)
  | unsubscribe (o : FinMap.WalkOrder) (args : List Bytes)
  | resume (i : ℕ)
  | forward (i : ℕ)
  | getMessage

def step (s : PubSubSystem) : Event → PubSubSystem
  | .publish o channel data => s.publish o channel data
  | .other o op => { s with registry := op.run o s.registry }
  | .subscribe args => keep (s.subscribe args)
  | .unsubscribe o args => keep (s.unsubscribe o args)
  | .resume i =>
    match s.calls[i]? with
    | none => s
    | some call => keep (resume { s with calls := s.calls.eraseIdx i } call)
  | .forward i => s.forward i
  | .getMessage => s.getMessage

def run (s : PubSubSystem) (events : List Event) : PubSubSystem := events.foldl step s

section Channel

variable (s : PubSubSystem) (channel : Bytes)

/-- What `get_message` returned of a channel. -/
def returnedOf : List Published := s.books.returned.filter fun m => m.message.channel = channel

/-- What was published to a channel while the object was registered for it. -/
def dueOf : List Published := s.books.due.filter fun m => m.message.channel = channel

/-- What was published to a channel while anyone was registered for it and a listener was there. -/
def heardOf : List Published := s.books.heard.filter fun m => m.message.channel = channel

/-- The messages of a channel that were taken from the queue, those for patterns left aside. -/
def readsOf : List Read := s.books.reads.filter fun x =>
  x.published.message.kind = .message ∧ x.published.message.channel = channel

end Channel

/-- Nothing is left to forward or to read. -/
def Drained (s : PubSubSystem) : Prop := (∀ l ∈ s.listeners, l = []) ∧ s.client.queue = []

instance (s : PubSubSystem) : Decidable s.Drained := inferInstanceAs (Decidable (_ ∧ _))

/-- The callers keep to the ids that they were given, no id is given twice, and the object's first
SUBSCRIBE has its listener before another one begins. -/
def Orderly (s : PubSubSystem) : Event → Prop
  | .other _ op =>
    match op.subject with
    | none => s.registry.nextId < s.registry.nextId + 1
    | some id => id < s.registry.nextId ∧ s.client.subscriberId ≠ some id
  | .subscribe _ => s.client.listenerStarted = false →
      s.client.subscriberId = none ∧ s.registry.nextId < s.registry.nextId + 1
  | _ => True

/-- A state that orderly events lead to. -/
inductive Reachable : PubSubSystem → Prop where
  | new : Reachable new
  | step {s : PubSubSystem} (h : Reachable s) (event : Event) (ho : s.Orderly event) :
    Reachable (s.step event)

end PubSubSystem

end BurnerRedis
