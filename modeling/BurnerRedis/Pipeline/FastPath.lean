import BurnerRedis.Pipeline.Commands

/-!
# The fast path of a pipeline

`execute_pipeline` reads the arguments of every command once more by hand. It gives the call to
make, or the class of the exception.
-/

namespace BurnerRedis

namespace Pipeline

section FastPath

variable {S : Type} [PyFloat S] (e : Env) (L : LuaEngine S)

/-- `dispatch_pipeline_command`, up to the call on the store. -/
@[simp] def dispatchPipelineCommand : Queued S → Except PyErr (Act S)
  | .set name value ex px nx xx => do
    let nx ← extractBool nx
    let xx ← extractBool xx
    let key ← extractBytes name
    let val ← extractBytes (value.toPy : PyValue S)
    let ttl ← extractTtl ex px
    .ok (Act.set e key val ttl nx xx)
  | .get name => do
    let key ← extractBytes name
    .ok (Act.get e key)
  | .delete names => do
    let keys ← extractKeys names
    .ok (Act.delete e keys)
  | .existsKeys names => do
    let keys ← extractKeys names
    .ok (Act.existsKeys e keys)
  | .hset name key value mapping => do
    let name ← extractBytes name
    let pair ← hsetPair key value
    let items ← ((extractSoft extractDict mapping).getD []).mapM extractPair
    .ok (Act.hset e name (pair ++ items))
  | .hget name key => do
    let name ← extractBytes name
    let field ← extractBytes key
    .ok (Act.hget e name field)
  | .hdel name keys => do
    let name ← extractBytes name
    let fields ← extractKeys keys
    .ok (Act.hdel e name fields)
  | .hvals name => do
    let name ← extractBytes name
    .ok (Act.hvals e name)
  | .hgetall name => do
    let name ← extractBytes name
    .ok (Act.hgetall e name)
  | .hexists name key => do
    let name ← extractBytes name
    let field ← extractBytes key
    .ok (Act.hexists e name field)
  | .hincrby name key amount => do
    let name ← extractBytes name
    let field ← extractBytes key
    let amount ← extractI64 amount
    .ok (Act.hincrby e name field amount)
  | .sadd name values => do
    let name ← extractBytes name
    let members ← extractKeys values
    .ok (Act.sadd e name members)
  | .smembers name => do
    let name ← extractBytes name
    .ok (Act.smembers e name)
  | .sismember name value => do
    let name ← extractBytes name
    let member ← extractBytes value
    .ok (Act.sismember e name member)
  | .srem name values => do
    let name ← extractBytes name
    let members ← extractKeys values
    .ok (Act.srem e name members)
  | .zadd name mapping nx xx gt lt ch => do
    let mapping ← extractDict mapping
    let name ← extractBytes name
    let flags ← extractFlags nx xx gt lt ch
    let members ← extractMembers mapping
    .ok (Act.zadd e name members flags)
  | .zrem name values => do
    let name ← extractBytes name
    let members ← extractKeys values
    .ok (Act.zrem e name members)
  | .zrange name start stop withscores => do
    let start ← extractI64 start
    let stop ← extractI64 stop
    let name ← extractBytes name
    let withscores ← extractBool withscores
    .ok (Act.zrange e name start stop withscores)
  | .zrangebyscore name min max withscores => do
    let name ← extractBytes name
    let min ← parseScoreBound min
    let max ← parseScoreBound max
    let withscores ← extractBool withscores
    .ok (Act.zrangebyscore e name min max withscores)
  | .zrangestore dest name start stop => do
    let dst ← extractBytes dest
    let src ← extractBytes name
    let min ← parseScoreBound start
    let max ← parseScoreBound stop
    .ok (Act.zrangestore e dst src min max)
  | .zremrangebyscore name min max => do
    let name ← extractBytes name
    let min ← parseScoreBound min
    let max ← parseScoreBound max
    .ok (Act.zremrangebyscore e name min max)
  | .zcard name => do
    let name ← extractBytes name
    .ok (Act.zcard e name)
  | .zscore name value => do
    let name ← extractBytes name
    let member ← extractBytes value
    .ok (Act.zscore e name member)
  | .zcount name min max => do
    let name ← extractBytes name
    let min ← parseScoreBound min
    let max ← parseScoreBound max
    .ok (Act.zcount e name min max)
  | .expire name time => do
    let name ← extractBytes name
    let seconds ← expireSeconds time
    .ok (Act.expire e name seconds)
  | .xadd name fields id _ _ => do
    let fields ← extractDict fields
    let key ← extractBytes name
    let fieldMap ← extractStreamFields fields
    let id ← extractStr id
    let id ← parseNewId id
    .ok (Act.xadd e key fieldMap id)
  | .xread streams count => do
    let items ← extractDict streams
    .ok (Act.xreadStreams e items (extractSoft extractUsize count))
  | .xlen name => do
    let key ← extractBytes name
    .ok (Act.xlen e key)
  | .xtrim name maxlen minid _ => do
    let key ← extractBytes name
    let minid ← (extractSoft extractStr minid).mapM parseId
    .ok (Act.xtrim e key (extractSoft extractUsize maxlen) minid)
  | .xdel name ids => do
    let key ← extractBytes name
    let ids ← extractIds ids
    .ok (Act.xdel e key ids)
  | .xrange name min max count => do
    let key ← extractBytes name
    let min ← extractStr min
    let max ← extractStr max
    let min ← parseMin min
    let max ← parseMax max
    .ok (Act.xrange e key min max (extractSoft extractUsize count))
  | .xgroupCreate name groupname id mkstream => do
    let key ← extractBytes name
    let group ← extractBytes groupname
    let id ← extractStr id
    let mkstream ← extractBool mkstream
    let id ← parseGroupStart id
    .ok (Act.xgroupCreate e key group id mkstream)
  | .xgroupDestroy name groupname => do
    let key ← extractBytes name
    let group ← extractBytes groupname
    .ok (Act.xgroupDestroy e key group)
  | .xreadgroup groupname consumername streams count _ => do
    let items ← extractDict streams
    let group ← extractBytes groupname
    let consumer ← extractBytes consumername
    let streams ← items.mapM extractStream
    .ok (Act.xreadgroup e group consumer (streams.map Prod.fst) (streams.map Prod.snd)
      (extractSoft extractUsize count))
  | .xack name groupname ids => do
    let key ← extractBytes name
    let group ← extractBytes groupname
    let ids ← extractIds ids
    .ok (Act.xack e key group ids)
  | .xautoclaim name groupname consumername minIdleTime startId count => do
    let minIdleTime ← extractU64 minIdleTime
    let key ← extractBytes name
    let group ← extractBytes groupname
    let consumer ← extractBytes consumername
    let start ← extractStr startId
    let start ← parseStart start
    .ok (Act.xautoclaim e key group consumer minIdleTime start (extractSoft extractUsize count))
  | .xclaim name groupname consumername minIdleTime messageIds idle _ retrycount force justid => do
    let minIdleTime ← extractU64 minIdleTime
    let key ← extractBytes name
    let group ← extractBytes groupname
    let consumer ← extractBytes consumername
    let force ← extractBool force
    let justid ← extractBool justid
    let ids ← extractSequence messageIds
    let ids ← extractIds ids
    .ok (Act.xclaim e key group consumer minIdleTime ids
      ⟨extractSoft extractU64 idle, extractSoft extractU64 retrycount, force, justid⟩)
  | .xinfoGroups name => do
    let key ← extractBytes name
    .ok (Act.xinfoGroups e key)
  | .xinfoConsumers name groupname => do
    let key ← extractBytes name
    let group ← extractBytes groupname
    .ok (Act.xinfoConsumers e key group)
  | .xpendingRange name groupname min max count consumername idle => do
    let min ← extractStr min
    let max ← extractStr max
    let count ← extractUsize count
    let key ← extractBytes name
    let group ← extractBytes groupname
    let min ← parseMin min
    let max ← parseMax max
    .ok (Act.xpendingRange e key group min max count (extractSoft extractBytes consumername)
      (extractSoft extractU64 idle))
  | .eval script numkeys keysAndArgs => do
    let (script, keys, args) ← extractScript script numkeys keysAndArgs
    .ok (Act.eval e L script keys args fun _ => .responseError)
  | .evalsha sha numkeys keysAndArgs => do
    let (sha, keys, args) ← extractScript sha numkeys keysAndArgs
    .ok (Act.evalsha e L sha keys args fun _ => .responseError)
  | .scriptLoad script => do
    let script ← extractStr script
    .ok (Act.scriptLoad L script)
  | .scriptExists shas => do
    let shas ← shas.mapM extractStr
    .ok (Act.scriptExists shas)
  | .publish channel message => do
    let channel ← extractBytes channel
    let message ← extractBytes message
    .ok (Act.publish e channel message)
  | .keys pattern => do
    let pattern ← extractStr pattern
    .ok (Act.keys e (utf8 pattern))
  | .ttl name => do
    let key ← extractBytes name
    .ok (Act.ttl e key)
  | .setex name time value => do
    let key ← extractBytes name
    let val ← extractBytes value
    let ttl ← extractTime time false
    .ok (Act.set e key val (some ttl) false false)
  | .mget keys => do
    let keys ← extractKeys keys
    .ok (Act.mget e keys)
  | .xpending name groupname => do
    let key ← extractBytes name
    let group ← extractBytes groupname
    .ok (Act.xpendingSummary e key group)
  | .lpush name values => do
    let name ← extractBytes name
    let values ← extractKeys (values.map Encoded.toPy : List (PyValue S))
    .ok (Act.lpush e name values)
  | .rpush name values => do
    let name ← extractBytes name
    let values ← extractKeys (values.map Encoded.toPy : List (PyValue S))
    .ok (Act.rpush e name values)
  | .lpop name count => do
    let key ← extractBytes name
    let count ← extractOption extractI64 count
    let count ← checkCount count
    .ok (Act.lpop e key count)
  | .rpop name count => do
    let key ← extractBytes name
    let count ← extractOption extractI64 count
    let count ← checkCount count
    .ok (Act.rpop e key count)
  | .lrange name start stop => do
    let start ← extractI64 start
    let stop ← extractI64 stop
    let key ← extractBytes name
    .ok (Act.lrange e key start stop)
  | .llen name => do
    let key ← extractBytes name
    .ok (Act.llen e key)
  | .lindex name index => do
    let index ← extractI64 index
    let key ← extractBytes name
    .ok (Act.lindex e key index)
  | .linsert name position refvalue value => do
    let position ← extractToken position
    let key ← extractBytes name
    let pivot ← extractBytes (refvalue.toPy : PyValue S)
    let val ← extractBytes (value.toPy : PyValue S)
    let position ← parseWhere position
    .ok (Act.linsert e key position pivot val)
  | .lrem name count value => do
    let count ← extractI64 count
    let key ← extractBytes name
    let val ← extractBytes (value.toPy : PyValue S)
    .ok (Act.lrem e key count val)
  | .lset name index value => do
    let index ← extractI64 index
    let key ← extractBytes name
    let val ← extractBytes (value.toPy : PyValue S)
    .ok (Act.lset e key index val)
  | .ltrim name start stop => do
    let start ← extractI64 start
    let stop ← extractI64 stop
    let key ← extractBytes name
    .ok (Act.ltrim e key start stop)
  | .lmove first second src dest => do
    let src ← extractTokenOr "LEFT" src
    let dest ← extractTokenOr "RIGHT" dest
    let srcKey ← extractBytes first
    let dstKey ← extractBytes second
    let srcEnd ← parseEnd src
    let dstEnd ← parseEnd dest
    .ok (Act.lmove e srcKey dstKey srcEnd dstEnd)
  | .rpoplpush src dst => do
    let srcKey ← extractBytes src
    let dstKey ← extractBytes dst
    .ok (Act.rpoplpush e srcKey dstKey)

end FastPath

end Pipeline

end BurnerRedis
