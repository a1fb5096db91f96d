import BurnerRedis.Edits

/-!
# Hashes and sets
-/

namespace BurnerRedis

/-- The end of a command that may have emptied a container. -/
def thenRemoveIfEmpty {S : Type} [LinearOrder S] {ρ : Type} (key : Bytes) (r : Data S × ρ) :
    Data S × ρ :=
  (removeIfEmpty key r.1, r.2)

/-- The value HINCRBY stores: the canonical text of an integer, and a sum that fits 64 bits. -/
def hincrbyValue (current : Option Bytes) (increment : ℤ) : Except StoreError ℤ :=
  match current with
  | none => add 0
  | some value =>
    match (parseI64 value).filter fun n => decimalInt n == value with
    | some n => add n
    | none => .error (.syntaxError "ERR hash value is not an integer")
where
  add (n : ℤ) : Except StoreError ℤ :=
    if InI64 (n + increment) then .ok (n + increment)
    else .error (.syntaxError "ERR increment or decrement would overflow")

/-- The increment of an absent field does not overflow. -/
theorem hincrbyValue_absent {increment : ℤ} (h : InI64 increment) :
    hincrbyValue none increment = .ok increment := by
  show hincrbyValue.add increment 0 = .ok increment
  unfold hincrbyValue.add
  rw [zero_add, if_pos h]

namespace Store

variable {S : Type} [LinearOrder S]

/-! ## Hashes -/

/-- Write the fields one after the other and count the new ones. -/
def setFields (map : FinMap Bytes Bytes) (fields : List (Bytes × Bytes)) : FinMap Bytes Bytes × ℤ :=
  fields.foldl (fun r f => (r.1.insert f.1 f.2, if f.1 ∈ r.1 then r.2 else r.2 + 1)) (map, 0)

/-- Remove keys of a map one after the other and count the ones that were there. -/
def removeAll {K V : Type} [Ord K] [Std.TransOrd K] (map : FinMap K V) (keys : List K) :
    FinMap K V × ℤ :=
  keys.foldl (fun r k => (r.1.erase k, if k ∈ r.1 then r.2 + 1 else r.2)) (map, 0)

/-- HSET: the number of new fields. -/
def hset (e : Env) (key : Bytes) (fields : List (Bytes × Bytes)) :
    Data S → Data S × Except StoreError ℤ :=
  upsertAs .hash e.now key ∅ (.error .wrongType) fun map =>
    ((setFields map fields).1, .ok (setFields map fields).2)

/-- HGET. -/
def hget (e : Env) (key field : Bytes) : Data S → Data S × Except StoreError (Option Bytes) :=
  readAs .hash e.now key (.ok none) (.error .wrongType) fun map => .ok map[field]?

/-- HDEL: the number of fields removed. -/
def hdel (e : Env) (key : Bytes) (fields : List Bytes) (d : Data S) :
    Data S × Except StoreError ℤ :=
  thenRemoveIfEmpty key <| modifyAs .hash e.now key (.ok 0) (.error .wrongType) (fun map =>
    ((removeAll map fields).1, .ok (removeAll map fields).2)) d

/-- HVALS, in the order of the walk. -/
def hvals (e : Env) (key : Bytes) : Data S → Data S × Except StoreError (List Bytes) :=
  readAs .hash e.now key (.ok []) (.error .wrongType) fun map =>
    .ok ((map.walk e.walk).map Prod.snd)

/-- HGETALL. -/
def hgetall (e : Env) (key : Bytes) : Data S → Data S × Except StoreError (FinMap Bytes Bytes) :=
  readAs .hash e.now key (.ok ∅) (.error .wrongType) .ok

/-- HEXISTS. -/
def hexists (e : Env) (key field : Bytes) : Data S → Data S × Except StoreError Bool :=
  readAs .hash e.now key (.ok false) (.error .wrongType) fun map => .ok (decide (field ∈ map))

/-- HINCRBY: the new value. -/
def hincrby (e : Env) (key field : Bytes) (increment : ℤ) : Data S → Data S × Except StoreError ℤ :=
  upsertAs .hash e.now key ∅ (.error .wrongType) fun map =>
    match hincrbyValue map[field]? increment with
    | .error err => (map, .error err)
    | .ok newVal => (map.insert field (decimalInt newVal), .ok newVal)

/-! ## Sets -/

/-- Add members one after the other and count the new ones. -/
def addAll (members : FinMap Bytes Unit) (new : List Bytes) : FinMap Bytes Unit × ℤ :=
  new.foldl (fun r m => (r.1.insert m (), if m ∈ r.1 then r.2 else r.2 + 1)) (members, 0)

/-- SADD: the number of new members. -/
def sadd (e : Env) (key : Bytes) (members : List Bytes) : Data S → Data S × Except StoreError ℤ :=
  upsertAs .set e.now key ∅ (.error .wrongType) fun set =>
    ((addAll set members).1, .ok (addAll set members).2)

/-- SMEMBERS, in the order of the walk. -/
def smembers (e : Env) (key : Bytes) : Data S → Data S × Except StoreError (List Bytes) :=
  readAs .set e.now key (.ok []) (.error .wrongType) fun set =>
    .ok ((set.walk e.walk).map Prod.fst)

/-- SISMEMBER. -/
def sismember (e : Env) (key member : Bytes) : Data S → Data S × Except StoreError Bool :=
  readAs .set e.now key (.ok false) (.error .wrongType) fun set => .ok (decide (member ∈ set))

/-- SREM: the number of members removed. -/
def srem (e : Env) (key : Bytes) (members : List Bytes) (d : Data S) :
    Data S × Except StoreError ℤ :=
  thenRemoveIfEmpty key <| modifyAs .set e.now key (.ok 0) (.error .wrongType) (fun set =>
    ((removeAll set members).1, .ok (removeAll set members).2)) d

end Store

end BurnerRedis
