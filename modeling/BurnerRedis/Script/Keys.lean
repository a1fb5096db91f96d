import BurnerRedis.Script.Reply
import BurnerRedis.Store.Keys
import BurnerRedis.Store.SortedSets

/-!
# Strings, keys, hashes, sets and sorted sets in a script

The arms of `dispatch_command_inner` from GET to PEXPIRE. An arm takes the arguments after the
command's name.
-/

namespace BurnerRedis.Script

variable {S : Type}

/-! ## Strings and keys -/

section Plain

variable [LinearOrder S]

/-- `GET` -/
def get (e : Env) : List Bytes → Data S → Data S × Reply
  | [key] => readAs .string e.now key (.ok .nil) wrongType bulk
  | _ => fun d => (d, wrongArity "get")

/-- The options of `SET`. -/
structure SetOptions where
  nx : Bool := false
  xx : Bool := false
  ttl : Option Duration := none
deriving DecidableEq

/-- The options after key and value; a word that is none of them is skipped. -/
def setOptions : List Bytes → SetOptions → Except Reply SetOptions
  | [], o => .ok o
  | arg :: rest, o =>
    if optionWord arg = "NX" then setOptions rest { o with nx := true }
    else if optionWord arg = "XX" then setOptions rest { o with xx := true }
    else if optionWord arg = "EX" then
      match rest with
      | [] => .error syntaxReply
      | n :: rest => match parseU64 n with
        | none => .error (.error notInteger)
        | some secs => setOptions rest { o with ttl := some (.fromSecs secs.toNat) }
    else if optionWord arg = "PX" then
      match rest with
      | [] => .error syntaxReply
      | n :: rest => match parseU64 n with
        | none => .error (.error notInteger)
        | some ms => setOptions rest { o with ttl := some (.fromMillis ms.toNat) }
    else setOptions rest o

/-- `SET` -/
def set (e : Env) : List Bytes → Data S → Data S × Reply
  | key :: value :: rest => fun d =>
    match setOptions rest {} with
    | .error r => (d, r)
    | .ok o =>
      let keyExists := (live e.now d key).isSome
      if o.nx && keyExists then (d, .ok .nil)
      else if o.xx && !keyExists then (d, .ok .nil)
      else ((purge e.now key d).insert key (.new e.now value o.ttl), .ok (.status "OK"))
  | _ => fun d => (d, wrongArity "set")

/-- `DEL` -/
def del (e : Env) (args : List Bytes) (d : Data S) : Data S × Reply :=
  if args.isEmpty then (d, wrongArity "del")
  else
    let r := args.foldl (fun (r : Data S × ℤ) key =>
      (r.1.erase key, if (live e.now r.1 key).isSome then r.2 + 1 else r.2)) (d, 0)
    (r.1, integer r.2)

/-- `EXISTS`: unlike the command outside of scripts, it removes the expired keys it meets. -/
def existsKeys (e : Env) (args : List Bytes) (d : Data S) : Data S × Reply :=
  if args.isEmpty then (d, wrongArity "exists")
  else
    let r := args.foldl (fun (r : Data S × ℤ) key =>
      (purge e.now key r.1, if (live e.now r.1 key).isSome then r.2 + 1 else r.2)) (d, 0)
    (r.1, integer r.2)

/-- `EXPIRE` and `PEXPIRE`, with the unit of the time given. -/
def expireAs (name : String) (unit : ℕ → Duration) (e : Env) : List Bytes → Data S → Data S × Reply
  | [key, time] => fun d =>
    match parseI64 time with
    | none => (d, .error notInteger)
    | some n =>
      if n ≤ 0 then ((purge e.now key d).erase key, flag (purge e.now key d)[key]?.isSome)
      else match (purge e.now key d)[key]? with
        | none => (purge e.now key d, integer 0)
        | some en => ((purge e.now key d).insert key
            { en with expiresAt := some (e.now + unit n.toNat) }, integer 1)
  | _ => fun d => (d, wrongArity name)

/-- `EXPIRE` -/
def expire (e : Env) : List Bytes → Data S → Data S × Reply := expireAs "expire" Duration.fromSecs e

/-- `PEXPIRE` -/
def pexpire (e : Env) : List Bytes → Data S → Data S × Reply :=
  expireAs "pexpire" Duration.fromMillis e

/-! ## Hashes -/

/-- `HSET` -/
def hset (e : Env) : List Bytes → Data S → Data S × Reply
  | key :: fields => fun d =>
    if fields.length < 2 ∨ fields.length % 2 ≠ 0 then (d, wrongArity "hset")
    else upsertAs .hash e.now key ∅ wrongType (fun map =>
      ((Store.setFields map (pairUp fields)).1, integer (Store.setFields map (pairUp fields)).2)) d
  | [] => fun d => (d, wrongArity "hset")

/-- `HGET` -/
def hget (e : Env) : List Bytes → Data S → Data S × Reply
  | [key, field] => readAs .hash e.now key (.ok .nil) wrongType fun map => bulkOrNil map[field]?
  | _ => fun d => (d, wrongArity "hget")

/-- `HDEL` -/
def hdel (e : Env) : List Bytes → Data S → Data S × Reply
  | key :: field :: fields => fun d =>
    thenRemoveIfEmpty key <| modifyAs .hash e.now key (integer 0) wrongType (fun map =>
      ((Store.removeAll map (field :: fields)).1,
        integer (Store.removeAll map (field :: fields)).2)) d
  | _ => fun d => (d, wrongArity "hdel")

/-- `HVALS` -/
def hvals (e : Env) : List Bytes → Data S → Data S × Reply
  | [key] => readAs .hash e.now key (bulks []) wrongType fun map =>
      bulks ((map.walk e.walk).map Prod.snd)
  | _ => fun d => (d, wrongArity "hvals")

/-- `HGETALL` -/
def hgetall (e : Env) : List Bytes → Data S → Data S × Reply
  | [key] => readAs .hash e.now key (bulks []) wrongType fun map =>
      bulks (flattenPairs (map.walk e.walk))
  | _ => fun d => (d, wrongArity "hgetall")

/-- `HEXISTS` -/
def hexists (e : Env) : List Bytes → Data S → Data S × Reply
  | [key, field] => readAs .hash e.now key (integer 0) wrongType fun map =>
      flag (decide (field ∈ map))
  | _ => fun d => (d, wrongArity "hexists")

/-- `HINCRBY` -/
def hincrby (e : Env) : List Bytes → Data S → Data S × Reply
  | [key, field, by_] => fun d =>
    match parseI64 by_ with
    | none => (d, .error notInteger)
    | some increment => upsertAs .hash e.now key ∅ wrongType (fun map =>
      match hincrbyValue map[field]? increment with
      | .ok newVal => (map.insert field (decimalInt newVal), integer newVal)
      | .error err => (map, .ok (.error err.toString))) d
  | _ => fun d => (d, wrongArity "hincrby")

/-! ## Sets -/

/-- `SADD` -/
def sadd (e : Env) : List Bytes → Data S → Data S × Reply
  | key :: member :: members => upsertAs .set e.now key ∅ wrongType fun set =>
      ((Store.addAll set (member :: members)).1, integer (Store.addAll set (member :: members)).2)
  | _ => fun d => (d, wrongArity "sadd")

/-- `SMEMBERS` -/
def smembers (e : Env) : List Bytes → Data S → Data S × Reply
  | [key] => readAs .set e.now key (bulks []) wrongType fun set =>
      bulks ((set.walk e.walk).map Prod.fst)
  | _ => fun d => (d, wrongArity "smembers")

/-- `SISMEMBER` -/
def sismember (e : Env) : List Bytes → Data S → Data S × Reply
  | [key, member] => readAs .set e.now key (integer 0) wrongType fun set =>
      flag (decide (member ∈ set))
  | _ => fun d => (d, wrongArity "sismember")

/-- `SREM` -/
def srem (e : Env) : List Bytes → Data S → Data S × Reply
  | key :: member :: members => fun d =>
    thenRemoveIfEmpty key <| modifyAs .set e.now key (integer 0) wrongType (fun set =>
      ((Store.removeAll set (member :: members)).1,
        integer (Store.removeAll set (member :: members)).2)) d
  | _ => fun d => (d, wrongArity "srem")

end Plain

/-! ## Sorted sets -/

section Scores

variable [Score S]

/-- A score argument read as a number. -/
def scoreArg (arg : Bytes) : Option S := Score.parse (fromUtf8Lossy arg)

/-- The pairs of `ZADD`, inserted one after the other: the first score that is no number ends the
command, and what was inserted before it stays. -/
def zaddPairs : List (Bytes × Bytes) → SortedSet S → ℤ → SortedSet S × Reply
  | [], zset, added => (zset, integer added)
  | (score, member) :: rest, zset, added =>
    match scoreArg score with
    | none => (zset, .error "ERR value is not a valid float")
    | some score =>
      zaddPairs rest (zset.insert member score).1
        (if (zset.insert member score).2 then added + 1 else added)

/-- `ZADD`: every member is inserted, without flags. The key is not removed when it holds an empty
container of another type. -/
def zadd (e : Env) : List Bytes → Data S → Data S × Reply
  | key :: pairs => fun d =>
    if pairs.length < 2 ∨ pairs.length % 2 ≠ 0 then (d, wrongArity "zadd")
    else upsertAs .sortedSet e.now key .new wrongType (fun zset => zaddPairs (pairUp pairs) zset 0) d
  | [] => fun d => (d, wrongArity "zadd")

/-- `ZREM` -/
def zrem (e : Env) : List Bytes → Data S → Data S × Reply
  | key :: member :: members => fun d =>
    thenRemoveIfEmpty key <| modifyAs .sortedSet e.now key (integer 0) wrongType (fun zset =>
      ((zset.removeAll (member :: members)).1, integer (zset.removeAll (member :: members)).2)) d
  | _ => fun d => (d, wrongArity "zrem")

/-- A member, followed by its score when scores are asked for. -/
def scored (withscores : Bool) (p : ScoredMember S) : List Bytes :=
  if withscores then [p.member, Score.format p.score] else [p.member]

/-- `ZRANGE` -/
def zrange (e : Env) : List Bytes → Data S → Data S × Reply
  | key :: start :: stop :: rest => fun d =>
    match parseI64 start, parseI64 stop with
    | some start, some stop =>
      readAs .sortedSet e.now key (bulks []) wrongType (fun zset =>
        match Store.zrangeWindow start stop zset.len with
        | none => bulks []
        | some (skip, take) =>
          bulks (((zset.byScore.keys.drop skip).take take).flatMap
            (scored (rest.any fun arg => optionWord arg = "WITHSCORES")))) d
    | _, _ => (d, .error notInteger)
  | _ => fun d => (d, wrongArity "zrange")

/-- An inclusive or exclusive bound of a range of scores. -/
inductive ScoreBound (S : Type) where
  | inclusive (v : S)
  | exclusive (v : S)

namespace ScoreBound

def value : ScoreBound S → S
  | inclusive v | exclusive v => v

def isInclusive : ScoreBound S → Bool
  | inclusive _ => true
  | exclusive _ => false

end ScoreBound

/-- The white space that `trim` takes away. -/
def isWhite (c : Char) : Bool :=
  let n := c.toNat
  (9 ≤ n && n ≤ 13) || n == 32 || n == 0x85 || n == 0xA0 || n == 0x1680 ||
    (0x2000 ≤ n && n ≤ 0x200A) || n == 0x2028 || n == 0x2029 || n == 0x202F || n == 0x205F ||
    n == 0x3000

/-- `trim`, on the characters of a text. -/
def trimChars (s : List Char) : List Char := ((s.dropWhile isWhite).reverse.dropWhile isWhite).reverse

/-- `parse_score_arg`: a text that is no number stands for zero. -/
def parseScoreArg (arg : Bytes) : ScoreBound S :=
  let s := trimChars (fromUtf8Lossy arg).toList
  if s = "-inf".toList then .inclusive Score.negInf
  else if s = "+inf".toList ∨ s = "inf".toList then .inclusive Score.posInf
  else match s with
    | '(' :: stripped => .exclusive ((Score.parse (String.ofList stripped)).getD Score.zero)
    | _ => .inclusive ((Score.parse (String.ofList s)).getD Score.zero)

/-- The pairs of a sorted set between two bounds, in order. -/
def boundedRange (z : SortedSet S) (min max : ScoreBound S) : List (ScoredMember S) :=
  (((z.byScore.atLeast ⟨min.value, []⟩).map Prod.fst).dropWhile fun p =>
    !min.isInclusive && decide (p.score = min.value)).takeWhile fun p =>
      if max.isInclusive then decide (p.score ≤ max.value) else decide (p.score < max.value)

/-- The options of `ZRANGEBYSCORE`. -/
structure RangeOptions where
  withscores : Bool := false
  limit : Option (ℕ × ℤ) := none

/-- The options after key and bounds. `LIMIT` without its two numbers is skipped. -/
def rangeOptions : List Bytes → RangeOptions → RangeOptions
  | [], o => o
  | arg :: rest, o =>
    if optionWord arg = "WITHSCORES" then rangeOptions rest { o with withscores := true }
    else if optionWord arg = "LIMIT" then
      match rest with
      | offset :: count :: rest =>
        rangeOptions rest
          { o with limit := some ((parseUsize offset).getD 0, (parseI64 count).getD (-1)) }
      | rest => rangeOptions rest o
    else rangeOptions rest o

/-- The part of a range that a limit leaves. -/
def applyLimit {α : Type} (limit : Option (ℕ × ℤ)) (l : List α) : List α :=
  match limit with
  | none => l
  | some (offset, count) => if count < 0 then l.drop offset else (l.drop offset).take count.toNat

/-- `ZRANGEBYSCORE` -/
def zrangebyscore (e : Env) : List Bytes → Data S → Data S × Reply
  | key :: min :: max :: rest =>
    readAs .sortedSet e.now key (bulks []) wrongType fun zset =>
      bulks ((applyLimit (rangeOptions rest {}).limit
        (boundedRange zset (parseScoreArg min) (parseScoreArg max))).flatMap
          (scored (rangeOptions rest {}).withscores))
  | _ => fun d => (d, wrongArity "zrangebyscore")

/-- `ZREMRANGEBYSCORE` -/
def zremrangebyscore (e : Env) : List Bytes → Data S → Data S × Reply
  | key :: min :: max :: _ => fun d =>
    thenRemoveIfEmpty key <| modifyAs .sortedSet e.now key (integer 0) wrongType (fun zset =>
      let toRemove := (boundedRange zset (parseScoreArg min) (parseScoreArg max)).map (·.member)
      ((zset.removeAll toRemove).1, integer toRemove.length)) d
  | _ => fun d => (d, wrongArity "zremrangebyscore")

/-- `ZCARD` -/
def zcard (e : Env) : List Bytes → Data S → Data S × Reply
  | [key] => readAs .sortedSet e.now key (integer 0) wrongType fun zset => integer zset.len
  | _ => fun d => (d, wrongArity "zcard")

/-- `ZSCORE` -/
def zscore (e : Env) : List Bytes → Data S → Data S × Reply
  | [key, member] => readAs .sortedSet e.now key (.ok .nil) wrongType fun zset =>
      bulkOrNil (zset.byMember[member]?.map Score.display)
  | _ => fun d => (d, wrongArity "zscore")

end Scores

end BurnerRedis.Script
