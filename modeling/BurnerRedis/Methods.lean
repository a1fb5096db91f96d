import BurnerRedis.Shapes
import BurnerRedis.Store.Groups
import BurnerRedis.Store.Keys

/-!
# The methods of the store

`Op` lists the methods that touch the data map. KEYS, EXISTS and MGET only read and have no
constructor. `Op.run` is what a method does, with the clients it wakes, and `Op.exec` is the same
with its answer, whatever its type.
-/

namespace BurnerRedis

/-- A method call on the store. -/
inductive Op (S : Type) where
  | get (key : Bytes)
  | set (key value : Bytes) (lifetime : Option Duration) (nx xx : Bool)
  | delete (keys : List Bytes)
  | ttl (key : Bytes)
  | expire (key : Bytes) (seconds : ℤ)
  | sweepExpired
  | hset (key : Bytes) (fields : List (Bytes × Bytes))
  | hget (key field : Bytes)
  | hdel (key : Bytes) (fields : List Bytes)
  | hvals (key : Bytes)
  | hgetall (key : Bytes)
  | hexists (key field : Bytes)
  | hincrby (key field : Bytes) (increment : ℤ)
  | sadd (key : Bytes) (members : List Bytes)
  | smembers (key : Bytes)
  | sismember (key member : Bytes)
  | srem (key : Bytes) (members : List Bytes)
  | zadd (key : Bytes) (members : List (S × Bytes)) (flags : Store.ZaddFlags)
  | zrem (key : Bytes) (members : List Bytes)
  | zrange (key : Bytes) (start stop : ℤ) (withscores : Bool)
  | zrangebyscore (key : Bytes) (min max : S) (withscores : Bool)
  | zrangestore (dst src : Bytes) (min max : S)
  | zremrangebyscore (key : Bytes) (min max : S)
  | zcard (key : Bytes)
  | zscore (key member : Bytes)
  | zcount (key : Bytes) (min max : S)
  | xadd (key : Bytes) (fields : Fields) (id : Option StreamId)
  | xread (keys : List Bytes) (ids : List StreamId) (count : Option ℕ)
  | xlen (key : Bytes)
  | streamLastId (key : Bytes)
  | xtrim (key : Bytes) (maxlen : Option ℕ) (minid : Option StreamId)
  | xdel (key : Bytes) (ids : List StreamId)
  | xrange (key : Bytes) (min max : StreamId) (count : Option ℕ)
  | xinfoStream (key : Bytes)
  | xgroupCreate (key group : Bytes) (id : StreamId) (mkstream : Bool)
  | xgroupDestroy (key group : Bytes)
  | xreadgroup (group consumer : Bytes) (keys ids : List Bytes) (count : Option ℕ)
  | xack (key group : Bytes) (ids : List StreamId)
  | xautoclaim (key group consumer : Bytes) (minIdleTimeMs : UInt64) (start : StreamId)
      (count : Option ℕ)
  | xclaim (key group consumer : Bytes) (minIdleTimeMs : UInt64) (ids : List StreamId)
      (options : XclaimOptions)
  | xinfoGroups (key : Bytes)
  | xinfoConsumers (key group : Bytes)
  | xpendingRange (key group : Bytes) (minId maxId : StreamId) (count : ℕ)
      (consumerFilter : Option Bytes) (minIdleMs : Option UInt64)
  | xpendingSummary (key group : Bytes)
  | lpush (key : Bytes) (values : List Bytes)
  | rpush (key : Bytes) (values : List Bytes)
  | llen (key : Bytes)
  | lindex (key : Bytes) (index : ℤ)
  | lrange (key : Bytes) (start stop : ℤ)
  | lpop (key : Bytes) (count : Option ℕ)
  | rpop (key : Bytes) (count : Option ℕ)
  | lrem (key : Bytes) (count : ℤ) (value : Bytes)
  | lset (key : Bytes) (index : ℤ) (value : Bytes)
  | ltrim (key : Bytes) (start stop : ℤ)
  | linsert (key : Bytes) (position : InsertPosition) (pivot value : Bytes)
  | lmoveAtomic (src dst : Bytes) (srcFrom dstTo : ListEnd)
  | rpoplpushAtomic (src dst : Bytes)
  | blpopPoll (keys : List Bytes)
  | brpopPoll (keys : List Bytes)

/-! ## What a method is for -/

/-- The keys that a method is called with. -/
def Op.keys {S : Type} : Op S → List Bytes
  | .sweepExpired => []
  | .delete keys | .xread keys .. | .xreadgroup _ _ keys .. | .blpopPoll keys
  | .brpopPoll keys => keys
  | .zrangestore dst src .. | .lmoveAtomic src dst .. | .rpoplpushAtomic src dst => [dst, src]
  | .get key | .set key .. | .ttl key | .expire key _ | .hset key _ | .hget key _ | .hdel key _
  | .hvals key | .hgetall key | .hexists key _ | .hincrby key .. | .sadd key _ | .smembers key
  | .sismember key _ | .srem key _ | .zadd key .. | .zrem key _ | .zrange key ..
  | .zrangebyscore key .. | .zremrangebyscore key .. | .zcard key | .zscore key _ | .zcount key ..
  | .xadd key .. | .xlen key | .streamLastId key | .xtrim key .. | .xdel key _ | .xrange key ..
  | .xinfoStream key | .xgroupCreate key .. | .xgroupDestroy key _ | .xack key ..
  | .xautoclaim key .. | .xclaim key .. | .xinfoGroups key | .xinfoConsumers key _
  | .xpendingRange key .. | .xpendingSummary key _ | .lpush key _ | .rpush key _ | .llen key
  | .lindex key _ | .lrange key .. | .lpop key _ | .rpop key _ | .lrem key .. | .lset key ..
  | .ltrim key .. | .linsert key .. => [key]

/-- The type that a method is for; the others are for keys of any type. -/
def Op.type? {S : Type} : Op S → Option DataType
  | .get _ => some .string
  | .hset .. | .hget .. | .hdel .. | .hvals _ | .hgetall _ | .hexists .. | .hincrby .. => some .hash
  | .sadd .. | .smembers _ | .sismember .. | .srem .. => some .set
  | .zadd .. | .zrem .. | .zrange .. | .zrangebyscore .. | .zremrangebyscore .. | .zcard _
  | .zscore .. | .zcount .. => some .sortedSet
  | .xadd .. | .xread .. | .xlen _ | .streamLastId _ | .xtrim .. | .xdel .. | .xrange ..
  | .xinfoStream _ | .xgroupCreate .. | .xgroupDestroy .. | .xreadgroup .. | .xack ..
  | .xautoclaim .. | .xclaim .. | .xinfoGroups _ | .xinfoConsumers .. | .xpendingRange ..
  | .xpendingSummary .. => some .stream
  | .lpush .. | .rpush .. | .llen _ | .lindex .. | .lrange .. | .lpop .. | .rpop .. | .lrem ..
  | .lset .. | .ltrim .. | .linsert .. | .lmoveAtomic .. | .rpoplpushAtomic .. | .blpopPoll _
  | .brpopPoll _ => some .list
  | .set .. | .delete _ | .ttl _ | .expire .. | .sweepExpired | .zrangestore .. => none

/-- The methods that drop what they leave empty. -/
def Op.drops {S : Type} : Op S → Bool
  | .hdel .. | .srem .. | .zadd .. | .zrem .. | .zremrangebyscore .. => true
  | _ => false

/-- The method only reads: it changes nothing but that expired keys go. -/
def Op.reads {S : Type} : Op S → Bool
  | .get _ | .ttl _ | .sweepExpired | .hget .. | .hvals _ | .hgetall _ | .hexists .. | .smembers _
  | .sismember .. | .zrange .. | .zrangebyscore .. | .zcard _ | .zscore .. | .zcount .. | .xread ..
  | .xlen _ | .streamLastId _ | .xrange .. | .xinfoStream _ | .xinfoGroups _ | .xinfoConsumers ..
  | .xpendingRange .. | .xpendingSummary .. | .llen _ | .lindex .. | .lrange .. => true
  | _ => false

/-- How a method uses the values of its keys. -/
def Op.use {S : Type} (o : Op S) : Use :=
  if o.reads then .reads else if o.drops then .drops else .writes

/-! ## What a method does -/

/-- A result of a method, with its type. -/
structure Outcome where
  type : Type
  result : Except StoreError type

/-- The method answers an error. -/
def Outcome.Fails (o : Outcome) : Prop := ∃ err, o.result = .error err

/-- The arguments fit the types of the source: an increment is a signed 64-bit integer. -/
def Op.Typed {S : Type} : Op S → Prop
  | .hincrby _ _ increment => InI64 increment
  | _ => True

section Run

variable {S : Type} [LinearOrder S]

/-- The new data and the clients to wake. -/
def Op.run (e : Env) (d : Data S) : Op S → Data S × Wake
  | .get key => ((Store.get e key d).1, {})
  | .set key value lifetime nx xx => ((Store.set e key value lifetime nx xx d).1, {})
  | .delete keys => ((Store.delete e keys d).1, {})
  | .ttl key => ((Store.ttl e key d).1, {})
  | .expire key seconds => ((Store.expire e key seconds d).1, {})
  | .sweepExpired => ((Store.sweepExpired e d).1, {})
  | .hset key fields => ((Store.hset e key fields d).1, {})
  | .hget key field => ((Store.hget e key field d).1, {})
  | .hdel key fields => ((Store.hdel e key fields d).1, {})
  | .hvals key => ((Store.hvals e key d).1, {})
  | .hgetall key => ((Store.hgetall e key d).1, {})
  | .hexists key field => ((Store.hexists e key field d).1, {})
  | .hincrby key field increment => ((Store.hincrby e key field increment d).1, {})
  | .sadd key members => ((Store.sadd e key members d).1, {})
  | .smembers key => ((Store.smembers e key d).1, {})
  | .sismember key member => ((Store.sismember e key member d).1, {})
  | .srem key members => ((Store.srem e key members d).1, {})
  | .zadd key members flags => ((Store.zadd e key members flags d).1, {})
  | .zrem key members => ((Store.zrem e key members d).1, {})
  | .zrange key start stop ws => ((Store.zrange e key start stop ws d).1, {})
  | .zrangebyscore key min max ws => ((Store.zrangebyscore e key min max ws d).1, {})
  | .zrangestore dst src min max => ((Store.zrangestore e dst src min max d).1, {})
  | .zremrangebyscore key min max => ((Store.zremrangebyscore e key min max d).1, {})
  | .zcard key => ((Store.zcard e key d).1, {})
  | .zscore key member => ((Store.zscore e key member d).1, {})
  | .zcount key min max => ((Store.zcount e key min max d).1, {})
  | .xadd key fields id => ((Store.xadd e key fields id d).1, (Store.xadd e key fields id d).2.2)
  | .xread keys ids count => ((Store.xread e keys ids count d).1, {})
  | .xlen key => ((Store.xlen e key d).1, {})
  | .streamLastId key => ((Store.streamLastId e key d).1, {})
  | .xtrim key maxlen minid => ((Store.xtrim e key maxlen minid d).1, {})
  | .xdel key ids => ((Store.xdel e key ids d).1, {})
  | .xrange key min max count => ((Store.xrange e key min max count d).1, {})
  | .xinfoStream key => ((Store.xinfoStream e key d).1, {})
  | .xgroupCreate key group id mkstream => ((Store.xgroupCreate e key group id mkstream d).1, {})
  | .xgroupDestroy key group => ((Store.xgroupDestroy e key group d).1, {})
  | .xreadgroup group consumer keys ids count =>
    ((Store.xreadgroup e group consumer keys ids count d).1, {})
  | .xack key group ids => ((Store.xack e key group ids d).1, {})
  | .xautoclaim key group consumer minIdle start count =>
    ((Store.xautoclaim e key group consumer minIdle start count d).1, {})
  | .xclaim key group consumer minIdle ids o =>
    ((Store.xclaim e key group consumer minIdle ids o d).1, {})
  | .xinfoGroups key => ((Store.xinfoGroups e key d).1, {})
  | .xinfoConsumers key group => ((Store.xinfoConsumers e key group d).1, {})
  | .xpendingRange key group minId maxId count consumerFilter minIdleMs =>
    ((Store.xpendingRange e key group minId maxId count consumerFilter minIdleMs d).1, {})
  | .xpendingSummary key group => ((Store.xpendingSummary e key group d).1, {})
  | .lpush key values => ((Store.lpush e key values d).1, (Store.lpush e key values d).2.2)
  | .rpush key values => ((Store.rpush e key values d).1, (Store.rpush e key values d).2.2)
  | .llen key => ((Store.llen e key d).1, {})
  | .lindex key index => ((Store.lindex e key index d).1, {})
  | .lrange key start stop => ((Store.lrange e key start stop d).1, {})
  | .lpop key count => ((Store.lpop e key count d).1, {})
  | .rpop key count => ((Store.rpop e key count d).1, {})
  | .lrem key count value => ((Store.lrem e key count value d).1, {})
  | .lset key index value => ((Store.lset e key index value d).1, {})
  | .ltrim key start stop => ((Store.ltrim e key start stop d).1, {})
  | .linsert key position pivot value => ((Store.linsert e key position pivot value d).1, {})
  | .lmoveAtomic src dst srcFrom dstTo =>
    ((Store.lmoveAtomic e src dst srcFrom dstTo d).1,
      (Store.lmoveAtomic e src dst srcFrom dstTo d).2.2)
  | .rpoplpushAtomic src dst =>
    ((Store.rpoplpushAtomic e src dst d).1, (Store.rpoplpushAtomic e src dst d).2.2)
  | .blpopPoll keys => ((Store.blpopPoll e keys d).1, {})
  | .brpopPoll keys => ((Store.brpopPoll e keys d).1, {})

/-- The effects of a method besides those it wakes clients for. -/
def Op.effects : Op S → Set Effect
  | .xgroupCreate .. => {.create}
  | .xreadgroup .. => {.deliver}
  | .xack .. => {.ack}
  | .xclaim .. => {.force}
  | _ => ∅

/-- The outcome of a method. -/
def outcome {α : Type} (r : Data S × Except StoreError α) : Data S × Outcome := (r.1, ⟨α, r.2⟩)

/-- The outcome of a method that wakes clients. -/
def outcomeWaking {α : Type} (r : Data S × Except StoreError α × Wake) : Data S × Outcome :=
  (r.1, ⟨α, r.2.1⟩)

/-- The outcome of a method that never fails. -/
def outcomeAlways {α : Type} (r : Data S × α) : Data S × Outcome := (r.1, ⟨α, .ok r.2⟩)

/-- The new data and the outcome. -/
def Op.exec (e : Env) (d : Data S) : Op S → Data S × Outcome
  | .get key => outcome (Store.get e key d)
  | .set key value lifetime nx xx => outcomeAlways (Store.set e key value lifetime nx xx d)
  | .delete keys => outcomeAlways (Store.delete e keys d)
  | .ttl key => outcomeAlways (Store.ttl e key d)
  | .expire key seconds => outcomeAlways (Store.expire e key seconds d)
  | .sweepExpired => outcomeAlways (Store.sweepExpired e d)
  | .hset key fields => outcome (Store.hset e key fields d)
  | .hget key field => outcome (Store.hget e key field d)
  | .hdel key fields => outcome (Store.hdel e key fields d)
  | .hvals key => outcome (Store.hvals e key d)
  | .hgetall key => outcome (Store.hgetall e key d)
  | .hexists key field => outcome (Store.hexists e key field d)
  | .hincrby key field increment => outcome (Store.hincrby e key field increment d)
  | .sadd key members => outcome (Store.sadd e key members d)
  | .smembers key => outcome (Store.smembers e key d)
  | .sismember key member => outcome (Store.sismember e key member d)
  | .srem key members => outcome (Store.srem e key members d)
  | .zadd key members flags => outcome (Store.zadd e key members flags d)
  | .zrem key members => outcome (Store.zrem e key members d)
  | .zrange key start stop ws => outcome (Store.zrange e key start stop ws d)
  | .zrangebyscore key min max ws => outcome (Store.zrangebyscore e key min max ws d)
  | .zrangestore dst src min max => outcome (Store.zrangestore e dst src min max d)
  | .zremrangebyscore key min max => outcome (Store.zremrangebyscore e key min max d)
  | .zcard key => outcome (Store.zcard e key d)
  | .zscore key member => outcome (Store.zscore e key member d)
  | .zcount key min max => outcome (Store.zcount e key min max d)
  | .xadd key fields id => outcomeWaking (Store.xadd e key fields id d)
  | .xread keys ids count => outcome (Store.xread e keys ids count d)
  | .xlen key => outcome (Store.xlen e key d)
  | .streamLastId key => outcomeAlways (Store.streamLastId e key d)
  | .xtrim key maxlen minid => outcome (Store.xtrim e key maxlen minid d)
  | .xdel key ids => outcome (Store.xdel e key ids d)
  | .xrange key min max count => outcome (Store.xrange e key min max count d)
  | .xinfoStream key => outcome (Store.xinfoStream e key d)
  | .xgroupCreate key group id mkstream => outcome (Store.xgroupCreate e key group id mkstream d)
  | .xgroupDestroy key group => outcome (Store.xgroupDestroy e key group d)
  | .xreadgroup group consumer keys ids count =>
    outcome (Store.xreadgroup e group consumer keys ids count d)
  | .xack key group ids => outcome (Store.xack e key group ids d)
  | .xautoclaim key group consumer minIdle start count =>
    outcome (Store.xautoclaim e key group consumer minIdle start count d)
  | .xclaim key group consumer minIdle ids o =>
    outcome (Store.xclaim e key group consumer minIdle ids o d)
  | .xinfoGroups key => outcome (Store.xinfoGroups e key d)
  | .xinfoConsumers key group => outcome (Store.xinfoConsumers e key group d)
  | .xpendingRange key group minId maxId count consumerFilter minIdleMs =>
    outcome (Store.xpendingRange e key group minId maxId count consumerFilter minIdleMs d)
  | .xpendingSummary key group => outcome (Store.xpendingSummary e key group d)
  | .lpush key values => outcomeWaking (Store.lpush e key values d)
  | .rpush key values => outcomeWaking (Store.rpush e key values d)
  | .llen key => outcome (Store.llen e key d)
  | .lindex key index => outcome (Store.lindex e key index d)
  | .lrange key start stop => outcome (Store.lrange e key start stop d)
  | .lpop key count => outcome (Store.lpop e key count d)
  | .rpop key count => outcome (Store.rpop e key count d)
  | .lrem key count value => outcome (Store.lrem e key count value d)
  | .lset key index value => outcome (Store.lset e key index value d)
  | .ltrim key start stop => outcome (Store.ltrim e key start stop d)
  | .linsert key position pivot value => outcome (Store.linsert e key position pivot value d)
  | .lmoveAtomic src dst srcFrom dstTo =>
    outcomeWaking (Store.lmoveAtomic e src dst srcFrom dstTo d)
  | .rpoplpushAtomic src dst => outcomeWaking (Store.rpoplpushAtomic e src dst d)
  | .blpopPoll keys => outcome (Store.blpopPoll e keys d)
  | .brpopPoll keys => outcome (Store.brpopPoll e keys d)

theorem Op.exec_fst (e : Env) (d : Data S) (o : Op S) : (o.exec e d).1 = (o.run e d).1 := by
  cases o <;> rfl

end Run

end BurnerRedis
