import BurnerRedis.Lib.F64
import BurnerRedis.Pipeline.Values

/-!
# Replies and Lua values

How the reply of a command becomes a Lua value, and how the value a script returns becomes a reply.
A table is known by its identity. What `table.get` answers may be the work of a metamethod, which
may change the Lua state, raise an error or never answer.

`lua_to_redis_value` calls itself on the elements of a table. Each call takes room on the stack of
the host, and there is room for a number of them only; the loop over the elements runs on fuel. The
answer is `none` when the room or the fuel is spent, or a metamethod never answers.
-/

namespace BurnerRedis

open Pipeline (utf8)

/-- A key of a Lua table. -/
inductive LuaKey where
  | index (i : ℤ)
  | field (name : String)
deriving DecidableEq

/-- A Lua value; functions, userdata and threads are not told apart. -/
inductive LuaValue where
  | nil
  | boolean (b : Bool)
  | integer (n : ℤ)
  | number (x : F64)
  | string (s : Bytes)
  | table (id : ℕ)
  | other
deriving DecidableEq

/-- `table.get` in a Lua state, and the state after it. An error is one of a metamethod; there is
nothing where a metamethod never answers. -/
abbrev LuaGet (σ : Type) := σ → ℕ → LuaKey → Option (Except Unit LuaValue × σ)

/-! ## From Lua -/

/-- `i += 1`, on 32 bits. -/
def nextIndex (i : ℤ) : ℤ := (i + 1).bmod (2 ^ 32)

section FromLua

variable {σ : Type}

/-- The string under a field of a table. -/
def stringField (get : LuaGet σ) (s : σ) (t : ℕ) (name : String) : Option (Option Bytes × σ) :=
  (get s t (.field name)).map fun a =>
    (match a.1 with
      | .ok (.string b) => some b
      | _ => none, a.2)

/-- What a table with a string under `err` or `ok` stands for. -/
def named (get : LuaGet σ) (s : σ) (t : ℕ) : Option (Option RedisValue × σ) :=
  (stringField get s t "err").bind fun err => match err.1 with
    | some b => some (some (.error (fromUtf8Lossy b)), err.2)
    | none => (stringField get err.2 t "ok").map fun ok =>
      (ok.1.map fun b => .status (fromUtf8Lossy b), ok.2)

/-- The element at an index of a table; the loop over the indexes ends where there is none. -/
def element? (get : LuaGet σ) (s : σ) (t : ℕ) (i : ℤ) : Option (Option LuaValue × σ) :=
  (get s t (.index i)).map fun a =>
    (match a.1 with
      | .ok .nil => none
      | .ok v => some v
      | .error _ => none, a.2)

/-- The loop over the elements of a table, from an index on. -/
def luaArray (get : LuaGet σ) (convert : σ → LuaValue → Option (RedisValue × σ)) :
    ℕ → σ → ℕ → ℤ → Option (List RedisValue × σ)
  | 0, _, _, _ => none
  | fuel + 1, s, t, i => (element? get s t i).bind fun e => match e.1 with
    | none => some ([], e.2)
    | some v => (convert e.2 v).bind fun r =>
      (luaArray get convert fuel r.2 t (nextIndex i)).map fun rs => (r.1 :: rs.1, rs.2)

/-- `lua_to_redis_value`, with fuel for its loops and with room for some nested calls. -/
def luaToRedisValue (get : LuaGet σ) (fuel : ℕ) : ℕ → σ → LuaValue → Option (RedisValue × σ)
  | 0, _, _ => none
  | room + 1, s, v =>
    match v with
    | .string b => some (.bulkString b, s)
    | .integer n => some (.integer n, s)
    | .number x => some (.integer x.toI64, s)
    | .boolean true => some (.integer 1, s)
    | .boolean false => some (.nil, s)
    | .nil => some (.nil, s)
    | .table t => (named get s t).bind fun a => match a.1 with
      | some r => some (r, a.2)
      | none => (luaArray get (luaToRedisValue get fuel room) fuel a.2 t 1).map fun rs =>
        (.array rs.1, rs.2)
    | .other => some (.nil, s)

end FromLua

/-! ## To Lua -/

/-- The tables of a Lua state, without metatables. A key that is not set answers nil. -/
structure LuaHeap where
  next : ℕ
  fields : ℕ → LuaKey → LuaValue

namespace LuaHeap

def new : LuaHeap := ⟨0, fun _ _ => .nil⟩

/-- `lua.create_table()` -/
def createTable (h : LuaHeap) : ℕ × LuaHeap :=
  (h.next, ⟨h.next + 1, Function.update h.fields h.next fun _ => .nil⟩)

/-- `table.set(key, value)` -/
def set (h : LuaHeap) (t : ℕ) (k : LuaKey) (v : LuaValue) : LuaHeap :=
  { h with fields := Function.update h.fields t (Function.update (h.fields t) k v) }

/-- `table.get(key)` -/
def get : LuaGet LuaHeap := fun h t k => some (.ok (h.fields t k), h)

/-- A new table with one field. -/
def singleton (h : LuaHeap) (name : String) (text : String) : LuaValue × LuaHeap :=
  (.table h.createTable.1,
    h.createTable.2.set h.createTable.1 (.field name) (.string (utf8 text)))

end LuaHeap

mutual

/-- `into_lua` -/
def RedisValue.intoLua : RedisValue → LuaHeap → LuaValue × LuaHeap
  | .bulkString b, h => (.string b, h)
  | .integer n, h => (.integer n, h)
  | .array items, h =>
    (.table h.createTable.1, RedisValue.setItems h.createTable.1 1 items h.createTable.2)
  | .nil, h => (.boolean false, h)
  | .error msg, h => h.singleton "err" msg
  | .status s, h => h.singleton "ok" s

/-- The elements of an array, set from an index on. -/
def RedisValue.setItems (t : ℕ) : ℕ → List RedisValue → LuaHeap → LuaHeap
  | _, [], h => h
  | i, item :: items, h =>
    RedisValue.setItems t (i + 1) items ((item.intoLua h).2.set t (.index i) (item.intoLua h).1)

end

namespace Script

/-- What `redis.call` returns for the reply of a command; an error is raised. -/
def call : Reply → LuaHeap → Except String (LuaValue × LuaHeap)
  | .ok (.error msg), _ => .error msg
  | .ok v, h => .ok (v.intoLua h)
  | .error msg, _ => .error msg

/-- What `redis.pcall` returns for the reply of a command. -/
def pcall : Reply → LuaHeap → LuaValue × LuaHeap
  | .ok (.error msg), h => h.singleton "err" msg
  | .ok v, h => v.intoLua h
  | .error msg, h => h.singleton "err" msg

/-- The two ways a script calls a command. -/
inductive Caller where
  | call
  | pcall

/-- A command called from a script, given the command's reply. -/
def Caller.run : Caller → Reply → LuaHeap → Except String (LuaValue × LuaHeap)
  | .call, r, h => Script.call r h
  | .pcall, r, h => .ok (Script.pcall r h)

/-- Commands called one after the other; an error that is raised ends the script. -/
def runAll : List (Caller × Reply) → LuaHeap → Except String (List LuaValue × LuaHeap)
  | [], h => .ok ([], h)
  | (c, r) :: cs, h => do
    let (v, h) ← c.run r h
    let (vs, h) ← runAll cs h
    .ok (v :: vs, h)

/-- Values set at the indexes of a table, from an index on. -/
def setValues (t : ℕ) : ℕ → List LuaValue → LuaHeap → LuaHeap
  | _, [], h => h
  | i, v :: vs, h => setValues t (i + 1) vs (h.set t (.index i) v)

/-- The table constructor `{v₁, v₂, ..}`. -/
def tableOf (vs : List LuaValue) (h : LuaHeap) : LuaValue × LuaHeap :=
  (.table h.createTable.1, setValues h.createTable.1 1 vs h.createTable.2)

/-- What a client is to see of a command's reply: an error shows as one, however it arose. -/
def replyValue : Reply → RedisValue
  | .ok v => v
  | .error msg => .error msg

end Script

end BurnerRedis
