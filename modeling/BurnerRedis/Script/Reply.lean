import BurnerRedis.Edits

/-!
# What `redis.call` works with

Replies of the commands a Lua script can call, the way their arguments are read, and what is needed
of scores beyond their order: how they are parsed and printed.

A command answers `.ok v` or, where the source leaves with `?`, `.error message`.
-/

namespace BurnerRedis

/-- A command's reply in a Lua script. -/
inductive RedisValue where
  | bulkString (b : Bytes)
  | integer (n : ℤ)
  | array (items : List RedisValue)
  | nil
  | error (message : String)
  | status (s : String)

/-- Scores that can be read from text and printed. -/
class Score (S : Type) extends LinearOrder S where
  /-- `text.parse::<f64>()` -/
  parse : String → Option S
  /-- `format_redis_score` -/
  format : S → Bytes
  /-- `score.to_string()` -/
  display : S → Bytes
  zero : S
  negInf : S
  posInf : S

/-- Whole numbers as scores. -/
instance : Score ℤ where
  parse s := parseI64 (ascii s)
  format := decimalInt
  display := decimalInt
  zero := 0
  negInf := -2 ^ 1024
  posInf := 2 ^ 1024

namespace Script

/-- What `dispatch_command_inner` returns. -/
abbrev Reply := Except String RedisValue

def wrongType : Reply :=
  .ok (.error "WRONGTYPE Operation against a key holding the wrong kind of value")

def notInteger : String := "ERR value is not an integer or out of range"

def syntaxReply : Reply := .ok (.error "ERR syntax error")

def invalidId : String := "ERR Invalid stream ID specified as stream command argument"

/-- The reply to a wrong number of arguments. -/
def wrongArity (command : String) : Reply :=
  .ok (.error ("ERR wrong number of arguments for '" ++ command ++ "' command"))

def integer (n : ℤ) : Reply := .ok (.integer n)

def bulk (b : Bytes) : Reply := .ok (.bulkString b)

/-- A bulk string, or nil when there is none. -/
def bulkOrNil : Option Bytes → Reply
  | some b => bulk b
  | none => .ok .nil

/-- An array of bulk strings. -/
def bulks (l : List Bytes) : Reply := .ok (.array (l.map .bulkString))

/-- `1` or `0`. -/
def flag (b : Bool) : Reply := integer (if b then 1 else 0)

/-- Keys and values of a map one after the other, in the order of the walk. -/
def flattenPairs (l : List (Bytes × Bytes)) : List Bytes := l.flatMap fun p => [p.1, p.2]

/-- Arguments taken two by two; one left over at the end is dropped. -/
def pairUp : List Bytes → List (Bytes × Bytes)
  | a :: b :: rest => (a, b) :: pairUp rest
  | _ => []

@[simp] theorem pairUp_flattenPairs (l : List (Bytes × Bytes)) : pairUp (flattenPairs l) = l := by
  induction l with
  | nil => rfl
  | cons p l ih => exact congrArg (p :: ·) ih

theorem flattenPairs_pairUp {args : List Bytes} (h : args.length % 2 = 0) :
    flattenPairs (pairUp args) = args := by
  induction args using pairUp.induct with
  | case1 a b rest ih =>
    simp only [List.length_cons] at h
    exact congrArg (fun l => a :: b :: l) (ih (by omega))
  | case2 args hargs =>
    match args, hargs, h with
    | [], _, _ => rfl
    | [_], _, h => cases h
    | a :: b :: rest, hargs, _ => exact absurd rfl (hargs a b rest)

theorem length_flattenPairs (l : List (Bytes × Bytes)) : (flattenPairs l).length = 2 * l.length := by
  induction l with
  | nil => rfl
  | cons p l ih =>
    have hcons : (flattenPairs (p :: l)).length = (flattenPairs l).length + 2 := rfl
    rw [hcons, ih, List.length_cons]
    omega

/-- Pairs one after the other pass for the arguments of a command that wants some. -/
theorem flattenPairs_arity {l : List (Bytes × Bytes)} (h : l ≠ []) :
    ¬ ((flattenPairs l).length < 2 ∨ (flattenPairs l).length % 2 ≠ 0) := by
  have hpos := List.length_pos_iff.mpr h
  rw [length_flattenPairs]
  omega

/-- The clients a command wakes once its script is done: those on streams after XADD, those on lists
after a command that made a list grow. -/
def wakes (cmd : String) : Reply → Wake
  | .error _ => {}
  | .ok v =>
    { stream := cmd == "XADD" && (match v with | .error _ => false | _ => true)
      list := match v with
        | .integer n => cmd == "LPUSH" || cmd == "RPUSH" || (cmd == "LINSERT" && decide (0 < n))
        | .bulkString _ => cmd == "LMOVE" || cmd == "RPOPLPUSH"
        | _ => false }

/-- The reply is an error, as a value or as a message. -/
def fails : Reply → Bool
  | .error _ => true
  | .ok (.error _) => true
  | _ => false

end Script

end BurnerRedis
