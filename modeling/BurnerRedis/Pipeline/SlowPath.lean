import BurnerRedis.Pipeline.FastPath

/-!
# The slow path of a pipeline

`execute` calls the client's own methods (`clientMethod`): PyO3 reads the parameters that have a
type first, in their order, then the body of the method the others; before it some methods go
through a wrapper in Python. Either path runs the queue command by command (`runQueue`).
-/

namespace BurnerRedis

namespace Pipeline

section SlowPath

variable {S : Type} [PyFloat S] (e : Env) (L : LuaEngine S)

/-! ## The slow path -/

/-- `BurnerRedis.set` of the binding. -/
def originalSet (name value ex px nx xx : PyValue S) : Except PyErr (Act S) := do
  let nx ← extractBool nx
  let xx ← extractBool xx
  let key ← extractBytes name
  let val ← extractBytes value
  let ttl ← extractTtl ex px
  .ok (Act.set e key val ttl nx xx)

/-- `_coerced_set` -/
def coercedSet (name value ex px nx xx : PyValue S) : Except PyErr (Act S) := do
  let value ← coerceValue value
  originalSet e name value.toPy ex px nx xx

/-- `_setex` -/
def coercedSetex (name time value : PyValue S) : Except PyErr (Act S) := do
  let value ← coerceValue value
  coercedSet e name value.toPy time .none (.bool false) (.bool false)

/-- The method of the client with the name of the command, up to the call on the store. -/
@[simp] def clientMethod : Queued S → Except PyErr (Act S)
  | .set name value ex px nx xx => coercedSet e name value.toPy ex px nx xx
  | .get name => do
    let key ← extractBytes name
    .ok (Act.get e key)
  | .delete names => do
    let keys ← extractKeys names
    .ok (Act.delete e keys)
  | .existsKeys names => do
    let keys ← extractKeys names
    .ok (Act.existsKeys e keys)
  | .hset name key value mapping => do
    let mapping ← extractOption extractDict mapping
    let name ← extractBytes name
    let pair ← hsetPair key value
    let items ← (mapping.getD []).mapM extractPair
    .ok (Act.hset e name (pair ++ items))
  | .hget name key => do
    let name ← extractBytes name
    let field ← extractBytes key
    .ok (Act.hget e name field)
  | .hdel name keys => do
    let name ← extractBytes name
    let fields ← extractKeys keys
    .ok (Act.hdel e name fields)
  | .hvals name => do
    let name ← extractBytes name
    .ok (Act.hvals e name)
  | .hgetall name => do
    let name ← extractBytes name
    .ok (Act.hgetall e name)
  | .hexists name key => do
    let name ← extractBytes name
    let field ← extractBytes key
    .ok (Act.hexists e name field)
  | .hincrby name key amount => do
    let amount ← extractI64 amount
    let name ← extractBytes name
    let field ← extractBytes key
    .ok (Act.hincrby e name field amount)
  | .sadd name values => do
    let name ← extractBytes name
    let members ← extractKeys values
    .ok (Act.sadd e name members)
  | .smembers name => do
    let name ← extractBytes name
    .ok (Act.smembers e name)
  | .sismember name value => do
    let name ← extractBytes name
    let member ← extractBytes value
    .ok (Act.sismember e name member)
  | .srem name values => do
    let name ← extractBytes name
    let members ← extractKeys values
    .ok (Act.srem e name members)
  | .zadd name mapping nx xx gt lt ch => do
    let mapping ← extractDict mapping
    let flags ← extractFlags nx xx gt lt ch
    let name ← extractBytes name
    let members ← extractMembers mapping
    .ok (Act.zadd e name members flags)
  | .zrem name values => do
    let name ← extractBytes name
    let members ← extractKeys values
    .ok (Act.zrem e name members)
  | .zrange name start stop withscores => do
    let start ← extractI64 start
    let stop ← extractI64 stop
    let withscores ← extractBool withscores
    let name ← extractBytes name
    .ok (Act.zrange e name start stop withscores)
  | .zrangebyscore name min max withscores => do
    let withscores ← extractBool withscores
    let name ← extractBytes name
    let min ← parseScoreBound min
    let max ← parseScoreBound max
    .ok (Act.zrangebyscore e name min max withscores)
  | .zrangestore dest name start stop => do
    let dst ← extractBytes dest
    let src ← extractBytes name
    let min ← parseScoreBound start
    let max ← parseScoreBound stop
    .ok (Act.zrangestore e dst src min max)
  | .zremrangebyscore name min max => do
    let name ← extractBytes name
    let min ← parseScoreBound min
    let max ← parseScoreBound max
    .ok (Act.zremrangebyscore e name min max)
  | .zcard name => do
    let name ← extractBytes name
    .ok (Act.zcard e name)
  | .zscore name value => do
    let name ← extractBytes name
    let member ← extractBytes value
    .ok (Act.zscore e name member)
  | .zcount name min max => do
    let name ← extractBytes name
    let min ← parseScoreBound min
    let max ← parseScoreBound max
    .ok (Act.zcount e name min max)
  | .expire name time => do
    let name ← extractBytes name
    let seconds ← expireSeconds time
    .ok (Act.expire e name seconds)
  | .xadd name fields id maxlen minid => do
    let fields ← extractDict fields
    let id ← extractStr id
    let _ ← extractOption extractUsize maxlen
    let _ ← extractOption extractStr minid
    let key ← extractBytes name
    let fieldMap ← extractStreamFields fields
    let id ← parseNewId id
    .ok (Act.xadd e key fieldMap id)
  | .xread streams count => do
    let items ← extractDict streams
    let count ← extractOption extractUsize count
    .ok (Act.xreadStreams e items count)
  | .xlen name => do
    let key ← extractBytes name
    .ok (Act.xlen e key)
  | .xtrim name maxlen minid approximate => do
    let maxlen ← extractOption extractUsize maxlen
    let minid ← extractOption extractStr minid
    let _ ← extractBool approximate
    let key ← extractBytes name
    let minid ← minid.mapM parseId
    .ok (Act.xtrim e key maxlen minid)
  | .xdel name ids => do
    let key ← extractBytes name
    let ids ← extractIds ids
    .ok (Act.xdel e key ids)
  | .xrange name min max count => do
    let min ← extractStr min
    let max ← extractStr max
    let count ← extractOption extractUsize count
    let key ← extractBytes name
    let min ← parseMin min
    let max ← parseMax max
    .ok (Act.xrange e key min max count)
  | .xgroupCreate name groupname id mkstream => do
    let id ← extractStr id
    let mkstream ← extractBool mkstream
    let key ← extractBytes name
    let group ← extractBytes groupname
    let id ← parseGroupStart id
    .ok (Act.xgroupCreate e key group id mkstream)
  | .xgroupDestroy name groupname => do
    let key ← extractBytes name
    let group ← extractBytes groupname
    .ok (Act.xgroupDestroy e key group)
  | .xreadgroup groupname consumername streams count noack => do
    let items ← extractDict streams
    let count ← extractOption extractUsize count
    let _ ← extractBool noack
    let group ← extractBytes groupname
    let consumer ← extractBytes consumername
    let streams ← items.mapM extractGroupStream
    .ok (Act.xreadgroup e group consumer (streams.map Prod.fst) (streams.map Prod.snd) count)
  | .xack name groupname ids => do
    let key ← extractBytes name
    let group ← extractBytes groupname
    let ids ← extractIds ids
    .ok (Act.xack e key group ids)
  | .xautoclaim name groupname consumername minIdleTime startId count => do
    let minIdleTime ← extractU64 minIdleTime
    let start ← extractStr startId
    let count ← extractOption extractUsize count
    let key ← extractBytes name
    let group ← extractBytes groupname
    let consumer ← extractBytes consumername
    let start ← parseStart start
    .ok (Act.xautoclaim e key group consumer minIdleTime start count)
  | .xclaim name groupname consumername minIdleTime messageIds idle time retrycount force justid => do
    let minIdleTime ← extractU64 minIdleTime
    let idle ← extractOption extractU64 idle
    let _ ← extractOption extractU64 time
    let retrycount ← extractOption extractU64 retrycount
    let force ← extractBool force
    let justid ← extractBool justid
    let key ← extractBytes name
    let group ← extractBytes groupname
    let consumer ← extractBytes consumername
    let ids ← extractSequence messageIds
    let ids ← extractIds ids
    .ok (Act.xclaim e key group consumer minIdleTime ids ⟨idle, retrycount, force, justid⟩)
  | .xinfoGroups name => do
    let key ← extractBytes name
    .ok (Act.xinfoGroups e key)
  | .xinfoConsumers name groupname => do
    let key ← extractBytes name
    let group ← extractBytes groupname
    .ok (Act.xinfoConsumers e key group)
  | .xpendingRange name groupname min max count consumername idle => do
    let min ← extractStr min
    let max ← extractStr max
    let count ← extractUsize count
    let idle ← extractOption extractU64 idle
    let key ← extractBytes name
    let group ← extractBytes groupname
    let consumer ← extractOption extractBytes consumername
    let min ← parseMin min
    let max ← parseMax max
    .ok (Act.xpendingRange e key group min max count consumer idle)
  | .eval script numkeys keysAndArgs => do
    let (script, keys, args) ← extractScript script numkeys keysAndArgs
    .ok (Act.eval e L script keys args fun _ => .responseError)
  | .evalsha sha numkeys keysAndArgs => do
    let (sha, keys, args) ← extractScript sha numkeys keysAndArgs
    .ok (Act.evalsha e L sha keys args evalshaError)
  | .scriptLoad script => do
    let script ← extractStr script
    .ok (Act.scriptLoad L script)
  | .scriptExists shas => do
    let shas ← shas.mapM extractStr
    .ok (Act.scriptExists shas)
  | .publish channel message => do
    let channel ← extractBytes channel
    let message ← extractBytes message
    .ok (Act.publish e channel message)
  | .keys pattern => do
    let pattern ← extractStr pattern
    .ok (Act.keys e (utf8 pattern))
  | .ttl name => do
    let key ← extractBytes name
    .ok (Act.ttl e key)
  | .setex name time value => coercedSetex e name time value
  | .mget keys => do
    let keys ← extractKeys keys
    .ok (Act.mget e keys)
  | .xpending name groupname => do
    let key ← extractBytes name
    let group ← extractBytes groupname
    .ok (Act.xpendingSummary e key group)
  | .lpush name values => do
    let values ← (values.map Encoded.toPy : List (PyValue S)).mapM coerceValue
    let key ← extractBytes name
    let values ← extractKeys (values.map Encoded.toPy : List (PyValue S))
    .ok (Act.lpush e key values)
  | .rpush name values => do
    let values ← (values.map Encoded.toPy : List (PyValue S)).mapM coerceValue
    let key ← extractBytes name
    let values ← extractKeys (values.map Encoded.toPy : List (PyValue S))
    .ok (Act.rpush e key values)
  | .lpop name count => do
    let count ← extractOption extractI64 count
    let key ← extractBytes name
    let count ← checkCount count
    .ok (Act.lpop e key count)
  | .rpop name count => do
    let count ← extractOption extractI64 count
    let key ← extractBytes name
    let count ← checkCount count
    .ok (Act.rpop e key count)
  | .lrange name start stop => do
    let start ← extractI64 start
    let stop ← extractI64 stop
    let key ← extractBytes name
    .ok (Act.lrange e key start stop)
  | .llen name => do
    let key ← extractBytes name
    .ok (Act.llen e key)
  | .lindex name index => do
    let index ← extractI64 index
    let key ← extractBytes name
    .ok (Act.lindex e key index)
  | .linsert name position refvalue value => do
    let refvalue ← coerceValue (refvalue.toPy : PyValue S)
    let value ← coerceValue (value.toPy : PyValue S)
    let key ← extractBytes name
    let pivot ← extractBytes (refvalue.toPy : PyValue S)
    let val ← extractBytes (value.toPy : PyValue S)
    let position ← extractToken position
    let position ← parseWhere position
    .ok (Act.linsert e key position pivot val)
  | .lrem name count value => do
    let value ← coerceValue (value.toPy : PyValue S)
    let count ← extractI64 count
    let key ← extractBytes name
    let val ← extractBytes (value.toPy : PyValue S)
    .ok (Act.lrem e key count val)
  | .lset name index value => do
    let value ← coerceValue (value.toPy : PyValue S)
    let index ← extractI64 index
    let key ← extractBytes name
    let val ← extractBytes (value.toPy : PyValue S)
    .ok (Act.lset e key index val)
  | .ltrim name start stop => do
    let start ← extractI64 start
    let stop ← extractI64 stop
    let key ← extractBytes name
    .ok (Act.ltrim e key start stop)
  | .lmove first second src dest => do
    let srcKey ← extractBytes first
    let dstKey ← extractBytes second
    let src ← extractTokenOr "LEFT" src
    let dest ← extractTokenOr "RIGHT" dest
    let srcEnd ← parseEnd src
    let dstEnd ← parseEnd dest
    .ok (Act.lmove e srcKey dstKey srcEnd dstEnd)
  | .rpoplpush src dst => do
    let srcKey ← extractBytes src
    let dstKey ← extractBytes dst
    .ok (Act.rpoplpush e srcKey dstKey)

/-! ## Running the queue -/

/-- Make the call, or raise. -/
def perform (read : Except PyErr (Act S)) : Act S := fun c =>
  match read with
  | .ok act => act c
  | .error err => (c, .error err)

/-- The commands of a queue one after the other, each with its answer or its exception. -/
def runQueue (read : Queued S → Except PyErr (Act S)) :
    List (Queued S) → Client S → Client S × List (Except PyErr (PyValue S))
  | [], c => (c, [])
  | q :: queue, c =>
    let r := perform (read q) c
    let rest := runQueue read queue r.1
    (rest.1, r.2 :: rest.2)

/-- `execute_pipeline` -/
def executePipeline : List (Queued S) → Client S → Client S × List (Except PyErr (PyValue S)) :=
  runQueue (dispatchPipelineCommand e L)

/-- The loop of `execute` over the methods of the client. -/
def executeSlowly : List (Queued S) → Client S → Client S × List (Except PyErr (PyValue S)) :=
  runQueue (clientMethod e L)

end SlowPath

end Pipeline

end BurnerRedis
