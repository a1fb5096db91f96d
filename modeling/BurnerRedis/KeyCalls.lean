import BurnerRedis.Answers
import BurnerRedis.LiveData

/-!
# Calls on strings, keys, hashes, sets and sorted sets

A `KeyCall` is a call of one of the twenty methods that a script has a command for, and
`KeyCall.Decodes` says which arguments of the command stand for it. `KeyCall.Diverges` says where
the two implementations of ZADD part.
-/

namespace BurnerRedis

/-! ## Calls -/

/-- A word of SET's options, with its number if it takes one. -/
inductive SetWord where
  | nx
  | xx
  | lifetime (ttl : Duration)
  | skipped

namespace SetWord

/-- The arguments that stand for an option. -/
inductive Spelled : SetWord → List Bytes → Prop where
  | nx {word : Bytes} (hw : optionWord word = "NX") : Spelled nx [word]
  | xx {word : Bytes} (hw : optionWord word = "XX") : Spelled xx [word]
  | ex {word text : Bytes} {secs : UInt64} (hw : optionWord word = "EX")
      (hn : parseU64 text = some secs) : Spelled (lifetime (.fromSecs secs.toNat)) [word, text]
  | px {word text : Bytes} {ms : UInt64} (hw : optionWord word = "PX")
      (hn : parseU64 text = some ms) : Spelled (lifetime (.fromMillis ms.toNat)) [word, text]
  | skipped {word : Bytes} (hw : optionWord word ∉ ["NX", "XX", "EX", "PX"]) :
      Spelled skipped [word]

/-- An option put beside those before it. -/
def set (o : Script.SetOptions) : SetWord → Script.SetOptions
  | nx => { o with nx := true }
  | xx => { o with xx := true }
  | lifetime ttl => { o with ttl := some ttl }
  | skipped => o

end SetWord

/-- A call of a method, with its arguments. -/
inductive KeyCall (S : Type) where
  | get (key : Bytes)
  | set (key value : Bytes) (o : Script.SetOptions)
  | del (keys : List Bytes)
  | existsKeys (keys : List Bytes)
  | expire (key : Bytes) (seconds : ℤ)
  | hset (key : Bytes) (fields : List (Bytes × Bytes))
  | hget (key field : Bytes)
  | hdel (key : Bytes) (fields : List Bytes)
  | hvals (key : Bytes)
  | hgetall (key : Bytes)
  | hexists (key field : Bytes)
  | hincrby (key field : Bytes) (increment : ℤ)
  | sadd (key : Bytes) (members : List Bytes)
  | smembers (key : Bytes)
  | sismember (key member : Bytes)
  | srem (key : Bytes) (members : List Bytes)
  | zadd (key : Bytes) (members : List (S × Bytes))
  | zrem (key : Bytes) (members : List Bytes)
  | zrange (key : Bytes) (start stop : ℤ) (withscores : Bool)
  | zcard (key : Bytes)

namespace KeyCall

/-- The method at work. -/
def run {S : Type} [LinearOrder S] (e : Env) (d : Data S) :
    KeyCall S → Data S × Except StoreError (Answer S)
  | get key => answer .value (Store.get e key d)
  | set key value o => answerAlways .stored (Store.set e key value o.ttl o.nx o.xx d)
  | del keys => answerAlways .count (Store.delete e keys d)
  | existsKeys keys => answerAlways .count (d, Store.existsKeys e keys d)
  | expire key seconds => answerAlways .holds (Store.expire e key seconds d)
  | hset key fields => answer .count (Store.hset e key fields d)
  | hget key field => answer .value (Store.hget e key field d)
  | hdel key fields => answer .count (Store.hdel e key fields d)
  | hvals key => answer .walked (Store.hvals e key d)
  | hgetall key => answer .fields (Store.hgetall e key d)
  | hexists key field => answer .holds (Store.hexists e key field d)
  | hincrby key field increment => answer .count (Store.hincrby e key field increment d)
  | sadd key members => answer .count (Store.sadd e key members d)
  | smembers key => answer .walked (Store.smembers e key d)
  | sismember key member => answer .holds (Store.sismember e key member d)
  | srem key members => answer .count (Store.srem e key members d)
  | zadd key members => answer .count (Store.zadd e key members {} d)
  | zrem key members => answer .count (Store.zrem e key members d)
  | zrange key start stop withscores => answer .ranked (Store.zrange e key start stop withscores d)
  | zcard key => answer .count (Store.zcard e key d)

variable {S : Type} [Score S]

/-- A score and a member among the arguments of ZADD. -/
def DecodesPair (arg : Bytes × Bytes) (pair : S × Bytes) : Prop :=
  Script.scoreArg arg.1 = some pair.1 ∧ arg.2 = pair.2

/-- The arguments of a command, and the call they stand for. -/
inductive Decodes : String → List Bytes → KeyCall S → Prop where
  | get (key : Bytes) : Decodes "GET" [key] (get key)
  | set (key value : Bytes) {words : List SetWord} {parts : List (List Bytes)}
      (hw : List.Forall₂ SetWord.Spelled words parts) :
      Decodes "SET" (key :: value :: parts.flatten) (set key value (words.foldl SetWord.set {}))
  | del (key : Bytes) (keys : List Bytes) : Decodes "DEL" (key :: keys) (del (key :: keys))
  | existsKeys (key : Bytes) (keys : List Bytes) :
      Decodes "EXISTS" (key :: keys) (existsKeys (key :: keys))
  | expire (key : Bytes) {time : Bytes} {seconds : ℤ} (hs : parseI64 time = some seconds) :
      Decodes "EXPIRE" [key, time] (expire key seconds)
  | hset (key : Bytes) {fields : List (Bytes × Bytes)} (hne : fields ≠ []) :
      Decodes "HSET" (key :: fields.flatMap fun p => [p.1, p.2]) (hset key fields)
  | hget (key field : Bytes) : Decodes "HGET" [key, field] (hget key field)
  | hdel (key field : Bytes) (fields : List Bytes) :
      Decodes "HDEL" (key :: field :: fields) (hdel key (field :: fields))
  | hvals (key : Bytes) : Decodes "HVALS" [key] (hvals key)
  | hgetall (key : Bytes) : Decodes "HGETALL" [key] (hgetall key)
  | hexists (key field : Bytes) : Decodes "HEXISTS" [key, field] (hexists key field)
  | hincrby (key field : Bytes) {by_ : Bytes} {increment : ℤ} (hi : parseI64 by_ = some increment) :
      Decodes "HINCRBY" [key, field, by_] (hincrby key field increment)
  | sadd (key member : Bytes) (members : List Bytes) :
      Decodes "SADD" (key :: member :: members) (sadd key (member :: members))
  | smembers (key : Bytes) : Decodes "SMEMBERS" [key] (smembers key)
  | sismember (key member : Bytes) : Decodes "SISMEMBER" [key, member] (sismember key member)
  | srem (key member : Bytes) (members : List Bytes) :
      Decodes "SREM" (key :: member :: members) (srem key (member :: members))
  | zadd (key : Bytes) {pairs : List (Bytes × Bytes)} {members : List (S × Bytes)} (hne : pairs ≠ [])
      (hm : List.Forall₂ DecodesPair pairs members) :
      Decodes "ZADD" (key :: pairs.flatMap fun p => [p.1, p.2]) (zadd key members)
  | zrem (key member : Bytes) (members : List Bytes) :
      Decodes "ZREM" (key :: member :: members) (zrem key (member :: members))
  | zrange (key : Bytes) {start stop : Bytes} {i j : ℤ} (hi : parseI64 start = some i)
      (hj : parseI64 stop = some j) {rest : List Bytes} {withscores : Bool}
      (hw : withscores = true ↔ ∃ arg ∈ rest, optionWord arg = "WITHSCORES") :
      Decodes "ZRANGE" (key :: start :: stop :: rest) (zrange key i j withscores)
  | zcard (key : Bytes) : Decodes "ZCARD" [key] (zcard key)

end KeyCall

/-! ## Where they part -/

/-- Pairs that a command gives again as they are, and that the score index has lost. -/
def Restores {S : Type} [LinearOrder S] (z : SortedSet S) (pairs : List (S × Bytes)) : Prop :=
  ∃ s m, (s, m) ∈ pairs ∧ z.byMember[m]? = some s ∧ (⟨s, m⟩ : ScoredMember S) ∉ z.byScore ∧
    ∀ s', (s', m) ∈ pairs → s' = s

/-- ZADD on a key with an empty container of another type, or with a sorted set that has lost pairs
which the command puts back. -/
def KeyCall.Diverges {S : Type} [LinearOrder S] (now : Instant) (d : Data S) : KeyCall S → Prop
  | zadd key pairs =>
    (∃ x, liveData now d key = some x ∧ Kind.sortedSet.get? x = none ∧ x.isEmptyContainer = true) ∨
      ∃ z, liveData now d key = some (.sortedSet z) ∧ Restores z pairs
  | _ => False

end BurnerRedis
