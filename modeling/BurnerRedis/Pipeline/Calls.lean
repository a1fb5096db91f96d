import BurnerRedis.Pipeline.Values
import BurnerRedis.Persist
import BurnerRedis.Store.Keys
import BurnerRedis.PubSub.Registry

/-!
# Calls on a client

What a client method does once its arguments have been read: one call on the store, and its answer
as a Python value. A client holds the store, the subscriptions and what has been published. The Lua
engine is a parameter: of a script only that it runs at once, on the data alone.
-/

namespace BurnerRedis

namespace Pipeline

/-- What a client works on; `sent` is what has been published so far. -/
structure Client (S : Type) [LinearOrder S] where
  store : Store S
  registry : PubSubRegistry
  sent : List PubSubMessage

/-- `msg.starts_with("NOSCRIPT")` -/
def startsNoScript (message : String) : Bool := "NOSCRIPT".toList.isPrefixOf message.toList

/-- Scripts as far as the client sees them. An error of the engine is printed with its kind first,
such as `runtime error: `. -/
structure LuaEngine (S : Type) [LinearOrder S] where
  sha1Hex : String → String
  execute : Env → String → List Bytes → List Bytes → Data S →
    Data S × List PubSubMessage × Except String RedisValue
  error_text : ∀ e script keys args d message,
    (execute e script keys args d).2.2 = .error message → startsNoScript message = false

/-- What a call does. -/
abbrev Act (S : Type) [LinearOrder S] := Client S → Client S × Except PyErr (PyValue S)

section Shapes

variable {S : Type}

/-! ## Answers as Python values -/

def pyBytes (b : Bytes) : PyValue S := .bytes b

def pyInt (n : ℤ) : PyValue S := .int n

def pyOption {α : Type} (f : α → PyValue S) : Option α → PyValue S
  | some a => f a
  | none => .none

def pyList {α : Type} (f : α → PyValue S) (l : List α) : PyValue S := .list (l.map f)

def pyId (id : StreamId) : PyValue S := .bytes (formatStreamId id)

/-- `n as i64` -/
def asI64 (n : ℕ) : ℤ := (n : ℤ).bmod (2 ^ 64)

/-- `text.parse::<i64>().unwrap_or(0)` for a number written as text. -/
def reparsed (n : ℕ) : ℤ := if n < 2 ^ 63 then n else 0

def pyMap (e : Env) (m : FinMap Bytes Bytes) : PyValue S :=
  .dict ((m.walk e.walk).map fun p => (pyBytes p.1, pyBytes p.2))

def pyEntry (e : Env) (p : StreamId × Fields) : PyValue S := .tuple [pyId p.1, pyMap e p.2]

def pyStream (e : Env) (p : Bytes × Entries) : PyValue S :=
  .list [pyBytes p.1, pyList (pyEntry e) p.2]

def pyScored [Score S] (withscores : Bool) (p : Bytes × Option S) : PyValue S :=
  if withscores then .tuple [.bytes p.1, .float (p.2.getD Score.zero)] else .bytes p.1

def pyPopped : LPopResult → PyValue S
  | .nil => .none
  | .single b => .bytes b
  | .array items => pyList pyBytes items

def pyGroup (g : Store.GroupInfo) : PyValue S :=
  .dict [(.str "name", .bytes (utf8 g.name)), (.str "consumers", .int (reparsed g.consumers)),
    (.str "pending", .int (reparsed g.pending)), (.str "last-delivered-id", pyId g.lastDeliveredId)]

def pyConsumer (c : Store.ConsumerInfo) : PyValue S :=
  .dict [(.str "name", .bytes (utf8 c.name)), (.str "pending", .int (reparsed c.pending)),
    (.str "idle", .int (reparsed c.idle))]

def pyPending (p : Store.PendingInfo) : PyValue S :=
  .dict [(.bytes (ascii "message_id"), pyId p.id), (.bytes (ascii "consumer"), .bytes p.consumer),
    (.bytes (ascii "time_since_delivered"), .int (asI64 p.idleMs)),
    (.bytes (ascii "times_delivered"), .int (asI64 p.deliveryCount.toNat))]

def pyIdText (id : StreamId) : PyValue S := .str (fromUtf8Lossy (formatStreamId id))

def pySummary (s : Store.PendingSummary) : PyValue S :=
  .dict [(.str "pending", .int s.total), (.str "min", pyOption pyIdText s.minId),
    (.str "max", pyOption pyIdText s.maxId),
    (.str "consumers", pyList
      (fun c => .dict [(.str "name", .bytes c.1), (.str "pending", .int c.2)]) s.counts)]

def pyClaimed (e : Env) (justid : Bool) (l : List (StreamId × Option Fields)) : PyValue S :=
  .list (l.filterMap fun p =>
    if justid then some (pyId p.1) else p.2.map fun fields => pyEntry e (p.1, fields))

def pyAutoclaimed (e : Env) (r : Store.AutoclaimReply) : PyValue S :=
  .tuple [pyId r.nextStartId, pyList (pyEntry e) r.claimed, pyList pyId r.deleted]

mutual

/-- `redis_value_to_py` -/
def redisValueToPy : RedisValue → Except PyErr (PyValue S)
  | .bulkString b => .ok (.bytes b)
  | .integer n => .ok (.int n)
  | .nil => .ok .none
  | .status s => .ok (.bytes (utf8 s))
  | .error _ => .error .responseError
  | .array items => (redisValuesToPy items).map .list

def redisValuesToPy : List RedisValue → Except PyErr (List (PyValue S))
  | [] => .ok []
  | v :: rest => do
    let a ← redisValueToPy v
    let l ← redisValuesToPy rest
    .ok (a :: l)

end

end Shapes

/-! ## The calls -/

namespace Act

variable {S : Type} [Score S]

/-- A method of the store on the data map; an error of the store becomes a `ResponseError`. -/
def onData {α : Type} (op : Data S → Data S × Except StoreError α) (shape : α → PyValue S) :
    Act S := fun c =>
  let r := op c.store.data
  ({ c with store := { c.store with data := r.1 } },
    match r.2 with
    | .ok a => .ok (shape a)
    | .error _ => .error .responseError)

/-- A method of the store that cannot fail. -/
def always {α : Type} (op : Data S → Data S × α) (shape : α → PyValue S) : Act S :=
  onData (fun d => ((op d).1, .ok (op d).2)) shape

/-- A method of the store that only reads. -/
def look {α : Type} (op : Data S → α) (shape : α → PyValue S) : Act S :=
  always (fun d => (d, op d)) shape

/-- A method without the clients that it wakes. -/
def quiet {ρ : Type} (op : Data S → Data S × ρ × Wake) (d : Data S) : Data S × ρ :=
  ((op d).1, (op d).2.1)

variable (e : Env)

def set (key value : Bytes) (ttl : Option Duration) (nx xx : Bool) : Act S :=
  always (Store.set e key value ttl nx xx) fun success =>
    if success then .bool true else .none

def get (key : Bytes) : Act S := onData (Store.get e key) (pyOption pyBytes)

def delete (keys : List Bytes) : Act S := always (Store.delete e keys) pyInt

def existsKeys (keys : List Bytes) : Act S := look (Store.existsKeys e keys) pyInt

def keys (pattern : Bytes) : Act S := look (Store.keys e pattern) (pyList pyBytes)

def ttl (key : Bytes) : Act S := always (Store.ttl e key) pyInt

def mget (keys : List Bytes) : Act S :=
  look (Store.mget e keys) (pyList (pyOption pyBytes))

def expire (key : Bytes) (seconds : ℤ) : Act S :=
  always (Store.expire e key seconds) .bool

def hset (key : Bytes) (fields : List (Bytes × Bytes)) : Act S :=
  onData (Store.hset e key fields) pyInt

def hget (key field : Bytes) : Act S :=
  onData (Store.hget e key field) (pyOption pyBytes)

def hdel (key : Bytes) (fields : List Bytes) : Act S :=
  onData (Store.hdel e key fields) pyInt

def hvals (key : Bytes) : Act S := onData (Store.hvals e key) (pyList pyBytes)

def hgetall (key : Bytes) : Act S := onData (Store.hgetall e key) (pyMap e)

def hexists (key field : Bytes) : Act S := onData (Store.hexists e key field) .bool

def hincrby (key field : Bytes) (amount : ℤ) : Act S :=
  onData (Store.hincrby e key field amount) pyInt

def sadd (key : Bytes) (members : List Bytes) : Act S :=
  onData (Store.sadd e key members) pyInt

def smembers (key : Bytes) : Act S :=
  onData (Store.smembers e key) fun members => .set (members.map pyBytes)

def sismember (key member : Bytes) : Act S :=
  onData (Store.sismember e key member) .bool

def srem (key : Bytes) (members : List Bytes) : Act S :=
  onData (Store.srem e key members) pyInt

def zadd (key : Bytes) (members : List (S × Bytes)) (flags : Store.ZaddFlags) : Act S :=
  onData (Store.zadd e key members flags) pyInt

def zrem (key : Bytes) (members : List Bytes) : Act S :=
  onData (Store.zrem e key members) pyInt

def zrange (key : Bytes) (start stop : ℤ) (withscores : Bool) : Act S :=
  onData (Store.zrange e key start stop withscores) (pyList (pyScored withscores))

def zrangebyscore (key : Bytes) (min max : S) (withscores : Bool) : Act S :=
  onData (Store.zrangebyscore e key min max withscores)
    (pyList (pyScored withscores))

def zrangestore (dst src : Bytes) (min max : S) : Act S :=
  onData (Store.zrangestore e dst src min max) pyInt

def zremrangebyscore (key : Bytes) (min max : S) : Act S :=
  onData (Store.zremrangebyscore e key min max) pyInt

def zcard (key : Bytes) : Act S := onData (Store.zcard e key) pyInt

def zscore (key member : Bytes) : Act S :=
  onData (Store.zscore e key member) (pyOption .float)

def zcount (key : Bytes) (min max : S) : Act S :=
  onData (Store.zcount e key min max) pyInt

def xadd (key : Bytes) (fields : Fields) (id : Option StreamId) : Act S :=
  onData (quiet (Store.xadd e key fields id)) pyId

def xlen (key : Bytes) : Act S := onData (Store.xlen e key) fun n => .int n

def xtrim (key : Bytes) (maxlen : Option ℕ) (minid : Option StreamId) : Act S :=
  onData (Store.xtrim e key maxlen minid) fun n => .int n

def xdel (key : Bytes) (ids : List StreamId) : Act S :=
  onData (Store.xdel e key ids) pyInt

def xrange (key : Bytes) (min max : StreamId) (count : Option ℕ) : Act S :=
  onData (Store.xrange e key min max count) (pyList (pyEntry e))

def xgroupCreate (key group : Bytes) (id : StreamId) (mkstream : Bool) : Act S :=
  onData (Store.xgroupCreate e key group id mkstream) fun _ => .bool true

def xgroupDestroy (key group : Bytes) : Act S :=
  onData (Store.xgroupDestroy e key group) fun destroyed => .int (if destroyed then 1 else 0)

def xread (keys : List Bytes) (ids : List StreamId) (count : Option ℕ) : Act S :=
  onData (Store.xread e keys ids count) fun r =>
    if r.isEmpty then .none else pyList (pyStream e) r

def xreadgroup (group consumer : Bytes) (keys : List Bytes) (ids : List String)
    (count : Option ℕ) : Act S :=
  onData (Store.xreadgroup e group consumer keys (ids.map utf8) count)
    (pyList (pyStream e))

def xack (key group : Bytes) (ids : List StreamId) : Act S :=
  onData (Store.xack e key group ids) pyInt

def xautoclaim (key group consumer : Bytes) (minIdleTime : UInt64) (start : StreamId)
    (count : Option ℕ) : Act S :=
  onData (Store.xautoclaim e key group consumer minIdleTime start count) (pyAutoclaimed e)

def xclaim (key group consumer : Bytes) (minIdleTime : UInt64) (ids : List StreamId)
    (options : XclaimOptions) : Act S :=
  onData (Store.xclaim e key group consumer minIdleTime ids options)
    (pyClaimed e options.justid)

def xinfoGroups (key : Bytes) : Act S :=
  onData (Store.xinfoGroups e key) (pyList pyGroup)

def xinfoConsumers (key group : Bytes) : Act S :=
  onData (Store.xinfoConsumers e key group) (pyList pyConsumer)

def xpendingRange (key group : Bytes) (min max : StreamId) (count : ℕ) (consumer : Option Bytes)
    (idle : Option UInt64) : Act S :=
  onData (Store.xpendingRange e key group min max count consumer idle)
    (pyList pyPending)

def xpendingSummary (key group : Bytes) : Act S :=
  onData (Store.xpendingSummary e key group) pySummary

def lpush (key : Bytes) (values : List Bytes) : Act S :=
  onData (quiet (Store.lpush e key values)) pyInt

def rpush (key : Bytes) (values : List Bytes) : Act S :=
  onData (quiet (Store.rpush e key values)) pyInt

def lpop (key : Bytes) (count : Option ℕ) : Act S :=
  onData (Store.lpop e key count) pyPopped

def rpop (key : Bytes) (count : Option ℕ) : Act S :=
  onData (Store.rpop e key count) pyPopped

def lrange (key : Bytes) (start stop : ℤ) : Act S :=
  onData (Store.lrange e key start stop) (pyList pyBytes)

def llen (key : Bytes) : Act S := onData (Store.llen e key) pyInt

def lindex (key : Bytes) (index : ℤ) : Act S :=
  onData (Store.lindex e key index) (pyOption pyBytes)

def linsert (key : Bytes) (position : InsertPosition) (pivot value : Bytes) : Act S :=
  onData (Store.linsert e key position pivot value) pyInt

def lrem (key : Bytes) (count : ℤ) (value : Bytes) : Act S :=
  onData (Store.lrem e key count value) pyInt

def lset (key : Bytes) (index : ℤ) (value : Bytes) : Act S :=
  onData (Store.lset e key index value) fun _ => .bool true

def ltrim (key : Bytes) (start stop : ℤ) : Act S :=
  onData (Store.ltrim e key start stop) fun _ => .bool true

def lmove (src dst : Bytes) (srcFrom dstTo : ListEnd) : Act S :=
  onData (quiet (Store.lmoveAtomic e src dst srcFrom dstTo)) (pyOption pyBytes)

def rpoplpush (src dst : Bytes) : Act S :=
  onData (quiet (Store.rpoplpushAtomic e src dst)) (pyOption pyBytes)

def publish (channel message : Bytes) : Act S := fun c =>
  let r := c.registry.publish e.walk channel message
  ({ c with sent := c.sent ++ r.1 }, .ok (.int r.2))

/-! ## Scripts -/

variable (L : LuaEngine S)

def scriptLoad (script : String) : Act S := fun c =>
  let sha := L.sha1Hex script
  ({ c with store := { c.store with scripts := c.store.scripts.insert sha script } }, .ok (.str sha))

def scriptExists (shas : List String) : Act S := fun c =>
  (c, .ok (pyList (fun sha => .bool (c.store.scripts[sha]?.isSome)) shas))

/-- Run a script and answer with what it returns; `raise` makes an exception of an error's text. -/
def script (text : String) (keys args : List Bytes) (raise : String → PyErr) : Act S := fun c =>
  let r := L.execute e text keys args c.store.data
  ({ c with store := { c.store with data := r.1 }, sent := c.sent ++ r.2.1 },
    match r.2.2 with
    | .ok v => redisValueToPy v
    | .error message => .error (raise message))

def eval (text : String) (keys args : List Bytes) (raise : String → PyErr) : Act S := fun c =>
  script e L text keys args raise (scriptLoad L text c).1

def evalsha (sha : String) (keys args : List Bytes) (raise : String → PyErr) : Act S := fun c =>
  match c.store.scripts[sha]? with
  | some text => script e L text keys args raise c
  | none => (c, .error (raise "NOSCRIPT No matching script. Use EVAL."))

end Act

end Pipeline

end BurnerRedis
