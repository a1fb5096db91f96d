import BurnerRedis.Glob
import BurnerRedis.Lib.TwoWay

/-!
# The subscriptions of a store

`PubSubRegistry` holds which subscriber has which channels and patterns. The source keeps four maps:
`subscriber_channels` and `channel_subscribers` are the two sides of `channels`, and
`subscriber_patterns` and `pattern_subscribers` those of `patterns`. The handles of the listener
tasks and the broadcast channel itself are left out; `publish` gives the messages that it sends.
-/

namespace BurnerRedis

inductive MessageKind where
  | message
  | pmessage
deriving DecidableEq

/-- A message on the broadcast channel. -/
structure PubSubMessage where
  kind : MessageKind
  pattern : Option Bytes
  channel : Bytes
  data : Bytes
deriving DecidableEq

structure PubSubRegistry where
  channels : TwoWay UInt64 Bytes
  patterns : TwoWay UInt64 Bytes
  nextId : UInt64

namespace PubSubRegistry

def new : PubSubRegistry := ⟨.empty, .empty, 0⟩

/-- The names a subscriber has on one of the two sides. -/
def held (t : TwoWay UInt64 Bytes) (id : UInt64) : FinMap Bytes Unit := t.forth.valuesOf id

/-- The subscriptions of a subscriber, of both kinds. -/
def total (r : PubSubRegistry) (id : UInt64) : ℤ := (held r.channels id).size + (held r.patterns id).size

/-! ## Subscribing -/

/-- A new subscriber gets an id of its own. -/
def newSubscriber (r : PubSubRegistry) : PubSubRegistry × UInt64 :=
  ({ r with nextId := r.nextId + 1 }, r.nextId)

/-- Subscribe to names one after the other, with the count after each; `other` is the number of
subscriptions of the other kind. -/
def addNames (id : UInt64) (other : ℕ) :
    List Bytes → TwoWay UInt64 Bytes → TwoWay UInt64 Bytes × List (Bytes × ℤ)
  | [], t => (t, [])
  | name :: names, t =>
    let t := t.link id name
    let r := addNames id other names t
    (r.1, (name, (held t id).size + other) :: r.2)

/-- SUBSCRIBE -/
def subscribe (id : UInt64) (names : List Bytes) (r : PubSubRegistry) :
    PubSubRegistry × List (Bytes × ℤ) :=
  let x := addNames id (held r.patterns id).size names r.channels
  ({ r with channels := x.1 }, x.2)

/-- PSUBSCRIBE -/
def psubscribe (id : UInt64) (names : List Bytes) (r : PubSubRegistry) :
    PubSubRegistry × List (Bytes × ℤ) :=
  let x := addNames id (held r.channels id).size names r.patterns
  ({ r with patterns := x.1 }, x.2)

/-! ## Unsubscribing -/

/-- Unsubscribe from names one after the other, with the count after each. -/
def removeNames (id : UInt64) (other : ℕ) :
    List Bytes → TwoWay UInt64 Bytes → TwoWay UInt64 Bytes × List (Bytes × ℤ)
  | [], t => (t, [])
  | name :: names, t =>
    let t := t.unlink id name
    let r := removeNames id other names t
    (r.1, (name, (held t id).size + other) :: r.2)

/-- The names to unsubscribe from: all that the subscriber has when none is given. -/
def namesToRemove (o : FinMap.WalkOrder) (id : UInt64) (names : List Bytes)
    (t : TwoWay UInt64 Bytes) : List Bytes :=
  if names.isEmpty then ((held t id).walk o).map Prod.fst else names

/-- UNSUBSCRIBE -/
def unsubscribe (o : FinMap.WalkOrder) (id : UInt64) (names : List Bytes) (r : PubSubRegistry) :
    PubSubRegistry × List (Bytes × ℤ) :=
  let x := removeNames id (held r.patterns id).size (namesToRemove o id names r.channels) r.channels
  ({ r with channels := x.1.tidy id }, x.2)

/-- PUNSUBSCRIBE -/
def punsubscribe (o : FinMap.WalkOrder) (id : UInt64) (names : List Bytes) (r : PubSubRegistry) :
    PubSubRegistry × List (Bytes × ℤ) :=
  let x := removeNames id (held r.channels id).size (namesToRemove o id names r.patterns) r.patterns
  ({ r with patterns := x.1.tidy id }, x.2)

/-- What `stop_subscriber_listener` does to the subscriptions. -/
def stopSubscriberListener (o : FinMap.WalkOrder) (id : UInt64) (r : PubSubRegistry) :
    PubSubRegistry :=
  { r with channels := r.channels.unlinkAll o id, patterns := r.patterns.unlinkAll o id }

/-! ## Publishing and counting -/

/-- The patterns that match a channel, each with its subscribers. -/
def matching (o : FinMap.WalkOrder) (channel : Bytes) (r : PubSubRegistry) :
    List (Bytes × FinMap UInt64 Unit) :=
  (r.patterns.back.walk o).filter fun p => globMatch p.1 channel

/-- The messages PUBLISH sends: one for each pattern that matches, then one for the channel if it
has a subscriber. -/
def sent (o : FinMap.WalkOrder) (channel data : Bytes) (r : PubSubRegistry) : List PubSubMessage :=
  (r.matching o channel).map (fun p => ⟨.pmessage, some p.1, channel, data⟩) ++
    if 0 < (r.channels.back.valuesOf channel).size then [⟨.message, none, channel, data⟩] else []

/-- PUBLISH: the messages, and the number of subscribers. -/
def publish (o : FinMap.WalkOrder) (channel data : Bytes) (r : PubSubRegistry) :
    List PubSubMessage × ℤ :=
  (r.sent o channel data, (r.channels.back.valuesOf channel).size +
    (((r.matching o channel).map fun p => p.2.size).sum : ℕ))

/-- PUBSUB CHANNELS, sorted. -/
def pubsubChannels (o : FinMap.WalkOrder) (pattern : Option Bytes) (r : PubSubRegistry) :
    List Bytes :=
  (((r.channels.back.walk o).map Prod.fst).filter fun ch =>
    pattern.all fun pat => globMatch pat ch).mergeSort fun a b => (compare a b).isLE

/-- PUBSUB NUMSUB -/
def pubsubNumsub (names : List Bytes) (r : PubSubRegistry) : List (Bytes × ℤ) :=
  names.map fun ch => (ch, ((r.channels.back.valuesOf ch).size : ℤ))

/-- PUBSUB NUMPAT -/
def pubsubNumpat (o : FinMap.WalkOrder) (r : PubSubRegistry) : ℤ :=
  (((r.patterns.back.walk o).map fun p => p.2.size).sum : ℕ)

end PubSubRegistry

/-! ## Calls -/

/-- A call that changes the registry. -/
inductive RegistryOp where
  | newSubscriber
  | subscribe (id : UInt64) (names : List Bytes)
  | unsubscribe (id : UInt64) (names : List Bytes)
  | psubscribe (id : UInt64) (names : List Bytes)
  | punsubscribe (id : UInt64) (names : List Bytes)
  | stopSubscriberListener (id : UInt64)

namespace RegistryOp

/-- The registry after a call. -/
def run (o : FinMap.WalkOrder) (r : PubSubRegistry) : RegistryOp → PubSubRegistry
  | newSubscriber => r.newSubscriber.1
  | subscribe id names => (r.subscribe id names).1
  | unsubscribe id names => (r.unsubscribe o id names).1
  | psubscribe id names => (r.psubscribe id names).1
  | punsubscribe id names => (r.punsubscribe o id names).1
  | stopSubscriberListener id => r.stopSubscriberListener o id

/-- The subscriber that makes the call. -/
def subject : RegistryOp → Option UInt64
  | newSubscriber => none
  | subscribe id _ => some id
  | unsubscribe id _ => some id
  | psubscribe id _ => some id
  | punsubscribe id _ => some id
  | stopSubscriberListener id => some id

/-- The call may give the subscriber a subscription. -/
def Joins (id : UInt64) : RegistryOp → Prop
  | subscribe id' _ => id' = id
  | psubscribe id' _ => id' = id
  | _ => False

end RegistryOp

/-- The registry after a sequence of calls, each with an order in which it walks its maps. -/
def runRegistry (r : PubSubRegistry) (ops : List (FinMap.WalkOrder × RegistryOp)) : PubSubRegistry :=
  ops.foldl (fun r op => op.2.run op.1 r) r

end BurnerRedis
