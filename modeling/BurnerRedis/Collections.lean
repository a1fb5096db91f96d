import BurnerRedis.DataTypes
import BurnerRedis.HashCounters
import BurnerRedis.Lib.Table
import BurnerRedis.Panics
import BurnerRedis.ZaddLaws

/-!
# What the collections are for

A hash, a set and a sorted set file something under byte strings: values, nothing, or scores. Here
they are tables, the keyspace says which table a key holds and until when, and `Op.Means` says what
a method does to the keyspace and what it may answer. There is no index, no order of a walk and no
expired entry here: a missing key reads as an empty table, an empty table is no key, and what has
expired is not there. Of streams and lists it is told which keys hold one.

`ZaddFlags`, `Store.newScore`, `Reads` and `Store.zrangeWindow` are taken from the code's side: they
are about a single score, text or pair of positions.
-/

namespace BurnerRedis

/-- A table of values, of nothing, or of scores. -/
inductive Collection (S : Type) where
  | hash (t : Table Bytes Bytes)
  | set (t : Table Bytes Unit)
  | sortedSet (t : Table Bytes S)

def Collection.type {S : Type} : Collection S → DataType
  | .hash _ => .hash
  | .set _ => .set
  | .sortedSet _ => .sortedSet

inductive Holding (S : Type) where
  | string (v : Bytes)
  | collection (c : Collection S)
  | stream
  | list

namespace Holding

variable {S : Type}

def string? : Holding S → Option Bytes
  | .string v => some v
  | _ => none

def type : Holding S → DataType
  | .string _ => .string
  | .collection c => c.type
  | .stream => .stream
  | .list => .list

end Holding

/-- What each key holds, and until when. -/
abbrev Keyspace (S : Type) := Table Bytes (Holding S × Option Instant)

/-! ## Tables under keys -/

namespace Keyspace

variable {S V α : Type}

/-- What is left of the keyspace at a time. -/
def later (K : Keyspace S) (now : Instant) : Keyspace S :=
  K.keep fun h => ∀ exp ∈ h.2, now < exp

/-- The table under a key of such collections; a missing key reads as an empty one. -/
def Has (K : Keyspace S) (mk : Table Bytes V → Collection S) (key : Bytes) (t : Table Bytes V) :
    Prop :=
  K key = none ∧ t = .empty ∨ ∃ exp, K key = some (.collection (mk t), exp)

/-- The key holds something else. -/
def Wrong (K : Keyspace S) (mk : Table Bytes V → Collection S) (key : Bytes) : Prop :=
  ∀ t, ¬ K.Has mk key t

open Classical in
/-- A table under a key with an expiry; an empty one is no key. -/
noncomputable def file (K : Keyspace S) (mk : Table Bytes V → Collection S) (key : Bytes)
    (t : Table Bytes V) (exp : Option Instant) : Keyspace S :=
  if t = .empty then K.without [key] else K.put key (.collection (mk t), exp)

/-- Every key that is changed was missing or of the type, and is so now. -/
def ChangesOnly (ty : DataType) (K K' : Keyspace S) : Prop :=
  ∀ k, K' k = K k ∨ (∀ h ∈ K k, h.1.type = ty) ∧ ∀ h ∈ K' k, h.1.type = ty

/-- The expiry of a key. -/
def expiry (K : Keyspace S) (key : Bytes) : Option Instant := (K key).bind Prod.snd

/-- A method that reads the table under a key. -/
def Query (mk : Table Bytes V → Collection S) (key : Bytes) (answer : Table Bytes V → α → Prop)
    (K K' : Keyspace S) (o : Outcome) : Prop :=
  K' = K ∧ ∃ r : Except StoreError α, o = ⟨α, r⟩ ∧
    ((∃ t a, K.Has mk key t ∧ answer t a ∧ r = .ok a) ∨ K.Wrong mk key ∧ r = .error .wrongType)

/-- A method that rewrites the table under a key, and leaves its expiry. -/
def Update (mk : Table Bytes V → Collection S) (key : Bytes)
    (effect : Table Bytes V → Table Bytes V → Except StoreError α → Prop)
    (K K' : Keyspace S) (o : Outcome) : Prop :=
  ∃ r : Except StoreError α, o = ⟨α, r⟩ ∧
    ((∃ t t', K.Has mk key t ∧ effect t t' r ∧ K' = K.file mk key t' (K.expiry key)) ∨
      K.Wrong mk key ∧ K' = K ∧ r = .error .wrongType)

end Keyspace

/-! ## Tables of scores -/

section Scores

variable {S : Type} [LinearOrder S]

/-- The pairs of a table of scores, each once, by score and then by member. -/
structure Ranking (t : Table Bytes S) (l : List (ScoredMember S)) : Prop where
  ordered : l.Pairwise ScoredMember.Below
  mem : ∀ p : ScoredMember S, p ∈ l ↔ t p.member = some p.score

/-- The pairs with a score from `min` to `max`. -/
def scoredBetween (t : Table Bytes S) (min max : S) : Table Bytes S :=
  t.keep fun s => min ≤ s ∧ s ≤ max

/-- The positions that ZRANGE takes from a ranking. -/
def rankWindow (start stop : ℤ) (l : List (ScoredMember S)) : List (ScoredMember S) :=
  match Store.zrangeWindow start stop l.length with
  | none => []
  | some (skip, take) => (l.drop skip).take take

/-- ZADD of one pair: the score of its member becomes `newScore`. -/
def zaddPair (fl : Store.ZaddFlags) (t : Table Bytes S) (p : S × Bytes) : Table Bytes S :=
  Function.update t p.2 (Store.newScore fl (t p.2) p.1)

/-- How many of the pairs change a score, when they are added one after the other. -/
def zaddChanges (fl : Store.ZaddFlags) : Table Bytes S → List (S × Bytes) → ℤ
  | _, [] => 0
  | t, p :: ps =>
    (if Store.newScore fl (t p.2) p.1 = t p.2 then 0 else 1) + zaddChanges fl (zaddPair fl t p) ps

end Scores

/-! ## The methods -/

section Means

variable {S : Type} [LinearOrder S]

/-- A method that changes values of its type only, under the keys it writes. -/
def Op.Touches (o : Op S) (K K' : Keyspace S) : Prop :=
  (∀ k ∉ o.written, K' k = K k) ∧ ∀ ty ∈ o.type?, K.ChangesOnly ty K'

open Keyspace in
/-- What a method does to the keyspace, and what it may answer. -/
noncomputable def Op.Means (now : Instant) (K K' : Keyspace S) (out : Outcome) : Op S → Prop
  | .hset key fields => Update .hash key (fun t t' r =>
      t' = t.putAll fields ∧ r = .ok (t'.card - t.card : ℤ)) K K' out
  | .hget key field => Query .hash key (fun t a => a = t field) K K' out
  | .hdel key fields => Update .hash key (fun t t' r =>
      t' = t.without fields ∧ r = .ok (t.card - t'.card : ℤ)) K K' out
  | .hvals key => Query .hash key (fun t a => ∃ l, t.Lists l ∧ a = l.map Prod.snd) K K' out
  | .hgetall key => Query .hash key (fun t (a : FinMap Bytes Bytes) => a.table = t) K K' out
  | .hexists key field => Query .hash key (fun t a => a = (t field).isSome) K K' out
  | .hincrby key field increment => Update .hash key (fun t t' r =>
      (∃ n, Reads (t field) n ∧ InI64 (n + increment) ∧
        t' = t.put field (decimalInt (n + increment)) ∧ r = .ok (n + increment)) ∨
      (∀ n, Reads (t field) n → ¬ InI64 (n + increment)) ∧ t' = t ∧
        ∃ message, r = .error (.syntaxError message)) K K' out
  | .sadd key members => Update .set key (fun t t' r =>
      t' = t.putAll (members.map (·, ())) ∧ r = .ok (t'.card - t.card : ℤ)) K K' out
  | .smembers key => Query .set key (fun t a => ∃ l, t.Lists l ∧ a = l.map Prod.fst) K K' out
  | .sismember key member => Query .set key (fun t a => a = (t member).isSome) K K' out
  | .srem key members => Update .set key (fun t t' r =>
      t' = t.without members ∧ r = .ok (t.card - t'.card : ℤ)) K K' out
  | .zadd key pairs fl => Update .sortedSet key (fun t t' r =>
      t' = pairs.foldl (zaddPair fl) t ∧
        r = .ok (if fl.ch then zaddChanges fl t pairs else (t'.card - t.card : ℤ))) K K' out
  | .zrem key members => Update .sortedSet key (fun t t' r =>
      t' = t.without members ∧ r = .ok (t.card - t'.card : ℤ)) K K' out
  | .zrange key start stop withscores => Query .sortedSet key (fun t a =>
      ∃ l, Ranking t l ∧ a = (rankWindow start stop l).map (Store.withScore withscores)) K K' out
  | .zrangebyscore key min max withscores => Query .sortedSet key (fun t a =>
      ∃ l, Ranking (scoredBetween t min max) l ∧ a = l.map (Store.withScore withscores)) K K' out
  | .zrangestore dst src min max => ∃ r : Except StoreError ℤ, out = ⟨ℤ, r⟩ ∧
      ((∃ t, K.Has .sortedSet src t ∧ K' = K.file .sortedSet dst (scoredBetween t min max) none ∧
          r = .ok ((scoredBetween t min max).card : ℤ)) ∨
        K.Wrong .sortedSet src ∧ K' = K ∧ r = .error .wrongType)
  | .zremrangebyscore key min max => Update .sortedSet key (fun t t' r =>
      t' = t.keep (fun s => ¬ (min ≤ s ∧ s ≤ max)) ∧ r = .ok (t.card - t'.card : ℤ)) K K' out
  | .zcard key => Query .sortedSet key (fun t a => a = (t.card : ℤ)) K K' out
  | .zscore key member => Query .sortedSet key (fun t a => a = t member) K K' out
  | .zcount key min max =>
      Query .sortedSet key (fun t a => a = ((scoredBetween t min max).card : ℤ)) K K' out
  | .delete keys => K' = K.without keys ∧ out = ⟨ℤ, .ok (K.card - K'.card)⟩
  | .expire key seconds =>
      (if seconds ≤ 0 then K' = K.without [key]
        else K' = fun k => if k = key
          then (K k).map fun h => (h.1, some (now + Duration.fromSecs seconds.toNat)) else K k) ∧
      out = ⟨Bool, .ok (K key).isSome⟩
  | .ttl key => K' = K ∧ out = ⟨ℤ, .ok (match K key with
      | none => -2
      | some (_, none) => -1
      | some (_, some exp) => (Instant.durationSince exp now / 1000000000 : ℕ))⟩
  | .get key => K' = K ∧ out = ⟨Option Bytes,
      if (K key).isSome && ((K key).bind fun h => h.1.string?).isNone then .error .wrongType
        else .ok ((K key).bind fun h => h.1.string?)⟩
  | .set key value lifetime nx xx =>
      (if (nx && (K key).isSome) || (xx && !(K key).isSome)
        then K' = K ∧ out = ⟨Bool, .ok false⟩
        else K' = Keyspace.later (K.put key (.string value, lifetime.map (now + ·))) now ∧
          out = ⟨Bool, .ok true⟩)
  | o => o.Touches K K'

/-- EXPIRE or SET with a deadline that the clock cannot count: the method panics. -/
def Op.Overflows (now : Instant) (K : Keyspace S) : Op S → Prop
  | .expire key seconds =>
    0 < seconds ∧ (K key).isSome ∧ ¬ Instant.Fits (now + Duration.fromSecs seconds.toNat)
  | .set key _ lifetime nx xx =>
    (nx && (K key).isSome) = false ∧ (xx && !(K key).isSome) = false ∧
      ∃ t, lifetime = some t ∧ ¬ Instant.Fits (now + t)
  | _ => False

end Means

/-! ## Requests -/

section Requests

variable {S : Type} [Score S]

/-- What a request does to the keyspace, and what it may answer; it answers nothing where it panics,
and has then changed nothing. Of a script's command it is said which keys may change, and of which
type. -/
def Request.Means (now : Instant) (K K' : Keyspace S) : Request S → Option (Response S) → Prop
  | .op o, r => (o.Overflows now K ∧ K' = K ∧ r = none) ∨
      ¬ o.Overflows now K ∧ ∃ out, r = some (.outcome out) ∧ o.Means now K K' out
  | .keys pattern, r => K' = K ∧ ∃ l, r = some (.keys l) ∧ l.Nodup ∧
      ∀ k, k ∈ l ↔ (K k).isSome ∧ globMatch pattern k
  | .existsKeys ks, r => K' = K ∧ r = some (.count (ks.countP fun k => (K k).isSome))
  | .mget ks, r =>
      K' = K ∧ r = some (.values (ks.map fun k => (K k).bind fun h => h.1.string?))
  | .call cmd args, r => (r = none → K' = K) ∧ (∀ k ∉ Script.written cmd args, K' k = K k) ∧
      ∀ ty ∈ Script.type? cmd, K.ChangesOnly ty K'
  | q, _ => ∀ k, q.Spares {k} → K' k = K k

/-- A run as keyspaces tell it: each request does and answers what it means. -/
def Keyspace.Explains : Keyspace S → List (Instant × Request S × Option (Response S)) → Prop
  | _, [] => True
  | K, (now, q, r) :: rest => ∃ K', q.Means now (Keyspace.later K now) K' r ∧ Explains K' rest

end Requests

end BurnerRedis
