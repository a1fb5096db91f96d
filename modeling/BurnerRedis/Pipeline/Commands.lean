import BurnerRedis.Pipeline.Calls

/-!
# The queue of a pipeline

`Queued` is what the methods of `Pipeline` put into the queue. Without a blocking command in it,
`execute` hands the queue to `execute_pipeline`; otherwise it calls the client's own methods. The
readings of arguments here are those that the source spells alike on both paths.
-/

namespace BurnerRedis

namespace Pipeline

/-- A command in the queue that does not block; XREAD and XREADGROUP are those with `block=None`.
Values that `_coerce_value` has already been through are `Encoded`. -/
inductive Queued (S : Type) where
  | set (name : PyValue S) (value : Encoded) (ex px nx xx : PyValue S)
  | get (name : PyValue S)
  | delete (names : List (PyValue S))
  | existsKeys (names : List (PyValue S))
  | hset (name key value mapping : PyValue S)
  | hget (name key : PyValue S)
  | hdel (name : PyValue S) (keys : List (PyValue S))
  | hvals (name : PyValue S)
  | hgetall (name : PyValue S)
  | hexists (name key : PyValue S)
  | hincrby (name key amount : PyValue S)
  | sadd (name : PyValue S) (values : List (PyValue S))
  | smembers (name : PyValue S)
  | sismember (name value : PyValue S)
  | srem (name : PyValue S) (values : List (PyValue S))
  | zadd (name mapping nx xx gt lt ch : PyValue S)
  | zrem (name : PyValue S) (values : List (PyValue S))
  | zrange (name start stop withscores : PyValue S)
  | zrangebyscore (name min max withscores : PyValue S)
  | zrangestore (dest name start stop : PyValue S)
  | zremrangebyscore (name min max : PyValue S)
  | zcard (name : PyValue S)
  | zscore (name value : PyValue S)
  | zcount (name min max : PyValue S)
  | lpush (name : PyValue S) (values : List Encoded)
  | rpush (name : PyValue S) (values : List Encoded)
  | lpop (name count : PyValue S)
  | rpop (name count : PyValue S)
  | lrange (name start stop : PyValue S)
  | llen (name : PyValue S)
  | lindex (name index : PyValue S)
  | linsert (name position : PyValue S) (refvalue value : Encoded)
  | lrem (name count : PyValue S) (value : Encoded)
  | lset (name index : PyValue S) (value : Encoded)
  | ltrim (name start stop : PyValue S)
  | lmove (first second src dest : PyValue S)
  | rpoplpush (src dst : PyValue S)
  | xadd (name fields id maxlen minid : PyValue S)
  | xread (streams count : PyValue S)
  | xlen (name : PyValue S)
  | xtrim (name maxlen minid approximate : PyValue S)
  | xdel (name : PyValue S) (ids : List (PyValue S))
  | xrange (name min max count : PyValue S)
  | xgroupCreate (name groupname id mkstream : PyValue S)
  | xgroupDestroy (name groupname : PyValue S)
  | xreadgroup (groupname consumername streams count noack : PyValue S)
  | xack (name groupname : PyValue S) (ids : List (PyValue S))
  | xautoclaim (name groupname consumername minIdleTime startId count : PyValue S)
  | xclaim (name groupname consumername minIdleTime messageIds idle time retrycount force
      justid : PyValue S)
  | xinfoGroups (name : PyValue S)
  | xinfoConsumers (name groupname : PyValue S)
  | xpendingRange (name groupname min max count consumername idle : PyValue S)
  | xpending (name groupname : PyValue S)
  | eval (script numkeys : PyValue S) (keysAndArgs : List (PyValue S))
  | evalsha (sha numkeys : PyValue S) (keysAndArgs : List (PyValue S))
  | scriptLoad (script : PyValue S)
  | scriptExists (shas : List (PyValue S))
  | publish (channel message : PyValue S)
  | keys (pattern : PyValue S)
  | ttl (name : PyValue S)
  | setex (name time value : PyValue S)
  | mget (keys : List (PyValue S))
  | expire (name time : PyValue S)

section Readings

variable {S : Type}

/-! ## Readings that both paths spell alike -/

def extractKeys (items : List (PyValue S)) : Except PyErr (List Bytes) := items.mapM extractBytes

/-- The expiry of SET; `px` is looked at first. -/
def extractTtl (ex px : PyValue S) : Except PyErr (Option Duration) := do
  let px ← extractOption (extractTime · true) px
  match px with
  | some d => .ok (some d)
  | none => extractOption (extractTime · false) ex

/-- `key` and `value` of HSET, if both are given. -/
def hsetPair (key value : PyValue S) : Except PyErr (List (Bytes × Bytes)) :=
  match key, value with
  | .none, _ => .ok []
  | _, .none => .ok []
  | k, v => do
    let p ← extractPair (k, v)
    .ok [p]

def extractFlags (nx xx gt lt ch : PyValue S) : Except PyErr Store.ZaddFlags := do
  let nx ← extractBool nx
  let xx ← extractBool xx
  let gt ← extractBool gt
  let lt ← extractBool lt
  let ch ← extractBool ch
  .ok ⟨nx, xx, gt, lt, ch⟩

/-- The members of ZADD with their scores. -/
def extractMembers [PyFloat S] (items : List (PyValue S × PyValue S)) :
    Except PyErr (List (S × Bytes)) :=
  items.mapM fun p => do
    let member ← extractBytes p.1
    let score ← extractF64 p.2
    .ok (score, member)

/-- The count of LPOP and RPOP. -/
def checkCount : Option ℤ → Except PyErr (Option ℕ)
  | none => .ok none
  | some n => if n < 0 then .error .valueError else .ok (some n.toNat)

/-- `parse_linsert_where`, as an exception. -/
def parseWhere (s : String) : Except PyErr InsertPosition :=
  (parseLinsertWhere s).mapError fun _ => .responseError

/-- `parse_list_end`, as an exception. -/
def parseEnd (s : String) : Except PyErr ListEnd :=
  (parseListEnd s).mapError fun _ => .responseError

/-- A token that has a default. -/
def extractTokenOr (default : String) (v : PyValue S) : Except PyErr String := do
  let s ← extractOption extractToken v
  .ok (s.getD default)

/-- A key and an id of XREAD or XREADGROUP. -/
def extractStream (p : PyValue S × PyValue S) : Except PyErr (Bytes × String) := do
  let key ← extractBytes p.1
  let id ← extractIdText p.2
  .ok (key, id)

/-- The streams of XREAD. A dollar sign is looked up when its turn comes. -/
def readStreams [LinearOrder S] (e : Env) :
    List (PyValue S × PyValue S) → Data S → Data S × Except PyErr (List (Bytes × StreamId))
  | [], d => (d, .ok [])
  | p :: items, d =>
    match extractStream p with
    | .error err => (d, .error err)
    | .ok (key, id) =>
      let look := if id = "$" then
          let r := Store.streamLastId e key d
          (r.1, .ok (r.2.getD .zero))
        else (d, parseStart id)
      match look.2 with
      | .error err => (look.1, .error err)
      | .ok start =>
        let r := readStreams e items look.1
        (r.1, r.2.map ((key, start) :: ·))

/-- XREAD with the streams still to be read. -/
def Act.xreadStreams [Score S] (e : Env) (items : List (PyValue S × PyValue S))
    (count : Option ℕ) : Act S := fun c =>
  let r := readStreams e items c.store.data
  let c' := { c with store := { c.store with data := r.1 } }
  match r.2 with
  | .error err => (c', .error err)
  | .ok pairs => Act.xread e (pairs.map Prod.fst) (pairs.map Prod.snd) count c'

/-- A key and an id of XREADGROUP where the dollar sign is rejected. -/
def extractGroupStream (p : PyValue S × PyValue S) : Except PyErr (Bytes × String) := do
  let stream ← extractStream p
  if stream.2 = "$" then .error .responseError else .ok stream

/-- The script or its hash, the keys and the other arguments. -/
def extractScript (script numkeys : PyValue S) (keysAndArgs : List (PyValue S)) :
    Except PyErr (String × List Bytes × List Bytes) := do
  let script ← extractStr script
  let numkeys ← extractUsize numkeys
  let all ← extractKeys keysAndArgs
  .ok (script, all.take numkeys, all.drop numkeys)

/-- The exception of an error of EVALSHA in the client's method. -/
def evalshaError (message : String) : PyErr :=
  if startsNoScript message then .noScriptError else .responseError

end Readings

end Pipeline

end BurnerRedis
