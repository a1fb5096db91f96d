import BurnerRedis.Script.Reply
import BurnerRedis.Store.Lists

/-!
# Lists in a script

The list arms of `dispatch_command_inner`.
-/

namespace BurnerRedis.Script

variable {S : Type} [LinearOrder S]

/-- `LPUSH` and `RPUSH` -/
def pushAs (name : String) (side : ListEnd) (e : Env) : List Bytes → Data S → Data S × Reply
  | key :: value :: values => upsertAs .list e.now key [] wrongType fun list =>
      let list := (value :: values).foldl (fun l v => pushEnd side v l) list
      (list, integer list.length)
  | _ => fun d => (d, wrongArity name)

/-- `LPUSH` -/
def lpush (e : Env) : List Bytes → Data S → Data S × Reply := pushAs "lpush" .left e

/-- `RPUSH` -/
def rpush (e : Env) : List Bytes → Data S → Data S × Reply := pushAs "rpush" .right e

/-- The reply to a pop. -/
def popReply : LPopResult → Reply
  | .nil => .ok .nil
  | .single v => bulk v
  | .array vs => bulks vs

/-- `LPOP` and `RPOP` once the count is read. -/
def popCount (side : ListEnd) (e : Env) (key : Bytes) (count : Option ℕ) : Data S → Data S × Reply :=
  if count = some 0 then readAs .list e.now key (.ok .nil) wrongType fun _ => bulks []
  else shrinkAs e.now key (.ok .nil) wrongType fun list =>
    ((popList side count list).1, popReply (popList side count list).2)

/-- `LPOP` and `RPOP` -/
def popAs (name : String) (side : ListEnd) (e : Env) : List Bytes → Data S → Data S × Reply
  | [key] => popCount side e key none
  | [key, count] => fun d =>
    match parseI64 count with
    | none => (d, .ok (.error notInteger))
    | some n =>
      if n < 0 then (d, .ok (.error "ERR value is out of range, must be positive"))
      else popCount side e key (some n.toNat) d
  | _ => fun d => (d, wrongArity name)

/-- `LPOP` -/
def lpop (e : Env) : List Bytes → Data S → Data S × Reply := popAs "lpop" .left e

/-- `RPOP` -/
def rpop (e : Env) : List Bytes → Data S → Data S × Reply := popAs "rpop" .right e

/-- `LRANGE` -/
def lrange (e : Env) : List Bytes → Data S → Data S × Reply
  | [key, start, stop] => fun d =>
    match parseI64 start, parseI64 stop with
    | some start, some stop =>
      readAs .list e.now key (bulks []) wrongType (fun list => bulks (lrangeList start stop list)) d
    | _, _ => (d, .ok (.error notInteger))
  | _ => fun d => (d, wrongArity "lrange")

/-- `LLEN` -/
def llen (e : Env) : List Bytes → Data S → Data S × Reply
  | [key] => readAs .list e.now key (integer 0) wrongType fun list => integer list.length
  | _ => fun d => (d, wrongArity "llen")

/-- `LINDEX` -/
def lindex (e : Env) : List Bytes → Data S → Data S × Reply
  | [key, index] => fun d =>
    match parseI64 index with
    | none => (d, .ok (.error notInteger))
    | some index => readAs .list e.now key (.ok .nil) wrongType (fun list =>
        bulkOrNil ((elementIndex index list.length).bind fun i => list[i]?)) d
  | _ => fun d => (d, wrongArity "lindex")

/-- `LINSERT` -/
def linsert (e : Env) : List Bytes → Data S → Data S × Reply
  | [key, position, pivot, value] => fun d =>
    match parseLinsertWhere (fromUtf8Lossy position) with
    | .error err => (d, .ok (.error err.toString))
    | .ok position => modifyAs .list e.now key (integer 0) wrongType (fun list =>
        match list.findIdx? (· == pivot) with
        | none => (list, integer (-1))
        | some pos => (list.insertIdx (insertAt pos position) value, integer (list.length + 1))) d
  | _ => fun d => (d, wrongArity "linsert")

/-- `LREM` -/
def lrem (e : Env) : List Bytes → Data S → Data S × Reply
  | [key, count, value] => fun d =>
    match parseI64 count with
    | none => (d, .ok (.error notInteger))
    | some count => shrinkAs e.now key (integer 0) wrongType (fun list =>
        ((lremList count value list).1, integer (lremList count value list).2)) d
  | _ => fun d => (d, wrongArity "lrem")

/-- `LSET` -/
def lset (e : Env) : List Bytes → Data S → Data S × Reply
  | [key, index, value] => fun d =>
    match parseI64 index with
    | none => (d, .ok (.error notInteger))
    | some index =>
      modifyAs .list e.now key (.ok (.error "ERR no such key")) wrongType (fun list =>
        match elementIndex index list.length with
        | none => (list, .ok (.error "ERR index out of range"))
        | some i => (list.set i value, .ok (.status "OK"))) d
  | _ => fun d => (d, wrongArity "lset")

/-- `LTRIM` -/
def ltrim (e : Env) : List Bytes → Data S → Data S × Reply
  | [key, start, stop] => fun d =>
    match parseI64 start, parseI64 stop with
    | some start, some stop =>
      shrinkAs e.now key (.ok (.status "OK")) wrongType (fun list =>
        (lrangeList start stop list, .ok (.status "OK"))) d
    | _, _ => (d, .ok (.error notInteger))
  | _ => fun d => (d, wrongArity "ltrim")

/-- `LMOVE` -/
def lmove (e : Env) : List Bytes → Data S → Data S × Reply
  | [src, dst, srcFrom, dstTo] => fun d =>
    match parseListEnd (fromUtf8Lossy srcFrom) with
    | .error err => (d, .ok (.error err.toString))
    | .ok srcFrom => match parseListEnd (fromUtf8Lossy dstTo) with
      | .error err => (d, .ok (.error err.toString))
      | .ok dstTo => Store.moveAs e.now src dst srcFrom dstTo (.ok .nil) wrongType bulk d
  | _ => fun d => (d, wrongArity "lmove")

/-- `RPOPLPUSH` -/
def rpoplpush (e : Env) : List Bytes → Data S → Data S × Reply
  | [src, dst] => Store.moveAs e.now src dst .right .left (.ok .nil) wrongType bulk
  | _ => fun d => (d, wrongArity "rpoplpush")

end BurnerRedis.Script
