import BurnerRedis.Lib.Refusal
import BurnerRedis.Store.Groups
import BurnerRedis.Store.Lists
import BurnerRedis.Store.SortedSets
import BurnerRedis.Script.Reply

/-!
# Python values and how they are read

The arguments and results of client methods, and the conversions of the binding: those that PyO3
makes for a parameter with a type, and those of `commands/`. An exception is its class; its text is
left out. So are objects with `total_seconds`, the other way to give a time.
-/

namespace BurnerRedis

namespace Pipeline

/-- The class of a Python exception. -/
inductive PyErr where
  | typeError
  | valueError
  | overflowError
  | responseError
  | noScriptError
deriving DecidableEq

/-- A Python value; floats are those of the scores. -/
inductive PyValue (S : Type) where
  | none
  | bool (b : Bool)
  | int (n : ℤ)
  | float (x : S)
  | str (s : String)
  | bytes (b : Bytes)
  | list (items : List (PyValue S))
  | tuple (items : List (PyValue S))
  | dict (items : List (PyValue S × PyValue S))
  | set (items : List (PyValue S))

/-- Scores as Python floats. -/
class PyFloat (S : Type) extends Score S where
  /-- `float(n)`; nothing where it overflows. -/
  ofInt : ℤ → Option S
  /-- `repr(x).encode()` -/
  repr : S → Bytes

instance : PyFloat ℤ where
  ofInt := some
  repr := decimalInt

/-- `s.into_bytes()` -/
def utf8 (s : String) : Bytes := s.toUTF8.data.toList

variable {S : Type}

/-! ## What PyO3 reads -/

/-- `PyNumber_Index` -/
def asInt : PyValue S → Except PyErr ℤ
  | .int n => .ok n
  | .bool b => .ok (if b then 1 else 0)
  | _ => .error .typeError

def extractI64 (v : PyValue S) : Except PyErr ℤ := do
  let n ← asInt v
  if -2 ^ 63 ≤ n ∧ n < 2 ^ 63 then .ok n else .error .overflowError

def extractU64 (v : PyValue S) : Except PyErr UInt64 := do
  let n ← asInt v
  if 0 ≤ n ∧ n < 2 ^ 64 then .ok (.ofNat n.toNat) else .error .overflowError

def extractUsize (v : PyValue S) : Except PyErr ℕ := do
  let n ← extractU64 v
  .ok n.toNat

def extractU8 (v : PyValue S) : Except PyErr UInt8 := do
  let n ← asInt v
  if 0 ≤ n ∧ n < 2 ^ 8 then .ok (.ofNat n.toNat) else .error .overflowError

def extractBool : PyValue S → Except PyErr Bool
  | .bool b => .ok b
  | _ => .error .typeError

def extractStr : PyValue S → Except PyErr String
  | .str s => .ok s
  | _ => .error .typeError

/-- `v.downcast::<PyDict>()` -/
def extractDict : PyValue S → Except PyErr (List (PyValue S × PyValue S))
  | .dict items => .ok items
  | _ => .error .typeError

/-- `v.extract::<Vec<_>>()`: the items of a sequence that is not a string. -/
def extractSequence : PyValue S → Except PyErr (List (PyValue S))
  | .list items => .ok items
  | .tuple items => .ok items
  | .bytes b => .ok (b.map fun c => .int c.toNat)
  | _ => .error .typeError

def extractVecU8 (v : PyValue S) : Except PyErr Bytes := do
  let items ← extractSequence v
  items.mapM extractU8

def extractF64 [PyFloat S] : PyValue S → Except PyErr S
  | .float x => .ok x
  | .int n => (PyFloat.ofInt n).elim (.error .overflowError) .ok
  | .bool b => (PyFloat.ofInt (if b then 1 else 0)).elim (.error .overflowError) .ok
  | _ => .error .typeError

/-- A parameter of type `Option<T>`. -/
def extractOption {α : Type} (f : PyValue S → Except PyErr α) : PyValue S → Except PyErr (Option α)
  | .none => .ok none
  | v => (f v).map some

/-- `if v.is_none() { None } else { v.extract().ok() }` -/
def extractSoft {α : Type} (f : PyValue S → Except PyErr α) : PyValue S → Option α
  | .none => none
  | v => (f v).toOption

/-! ## What the command modules read -/

def extractBytes (v : PyValue S) : Except PyErr Bytes :=
  match extractStr v, extractVecU8 v with
  | .ok s, _ => .ok (utf8 s)
  | _, .ok b => .ok b
  | _, _ => .error .typeError

/-- `extract_token_str` -/
def extractToken (v : PyValue S) : Except PyErr String :=
  match extractStr v, extractVecU8 v with
  | .ok s, _ => .ok s
  | _, .ok b => .ok (fromUtf8Lossy b)
  | _, _ => .error .typeError

/-- `extract_expiry` -/
def extractTime (v : PyValue S) (millis : Bool) : Except PyErr Duration :=
  match extractU64 v with
  | .ok n => .ok (if millis then .fromMillis n.toNat else .fromSecs n.toNat)
  | .error _ => .error .typeError

def expireSeconds (v : PyValue S) : Except PyErr ℤ :=
  match extractI64 v with
  | .ok n => .ok n
  | .error _ => .error .typeError

def parseScoreBound [PyFloat S] (v : PyValue S) : Except PyErr S :=
  match extractF64 v, v with
  | .ok x, _ => .ok x
  | _, .str s =>
    if s = "-inf" then .ok Score.negInf
    else if s = "+inf" ∨ s = "inf" then .ok Score.posInf
    else (Score.parse s).elim (.error .valueError) .ok
  | _, _ => .error .valueError

/-- A key and a value of a dictionary. -/
def extractPair (p : PyValue S × PyValue S) : Except PyErr (Bytes × Bytes) := do
  let key ← extractBytes p.1
  let value ← extractBytes p.2
  .ok (key, value)

/-- `extract_stream_fields` -/
def extractStreamFields (items : List (PyValue S × PyValue S)) : Except PyErr Fields := do
  let pairs ← items.mapM extractPair
  .ok (pairs.foldl (fun fields p => fields.insert p.1 p.2) ∅)

/-! ## Stream ids -/

/-- `parse_stream_id`, or `ValueError`. -/
def parseId (s : String) : Except PyErr StreamId :=
  (parseStreamId (utf8 s)).elim (.error .valueError) .ok

/-- `v.extract::<String>().or_else(|_| v.extract::<Vec<u8>>()…)` -/
def extractIdText (v : PyValue S) : Except PyErr String :=
  match extractStr v with
  | .ok s => .ok s
  | .error _ => (extractVecU8 v).map fromUtf8Lossy

def extractIds (items : List (PyValue S)) : Except PyErr (List StreamId) :=
  items.mapM fun v => do
    let s ← extractIdText v
    parseId s

/-- The start of a range. -/
def parseMin (s : String) : Except PyErr StreamId := if s = "-" then .ok .zero else parseId s

/-- The end of a range. -/
def parseMax (s : String) : Except PyErr StreamId := if s = "+" then .ok .max else parseId s

/-- The start of XAUTOCLAIM. -/
def parseStart (s : String) : Except PyErr StreamId :=
  if s = "0" ∨ s = "0-0" then .ok .zero else parseId s

/-- Where a new group starts; `max` stands for the last id of the stream. -/
def parseGroupStart (s : String) : Except PyErr StreamId := if s = "$" then .ok .max else parseStart s

/-- The id of a new entry; nothing where it is generated. -/
def parseNewId (s : String) : Except PyErr (Option StreamId) :=
  if s = "*" then .ok none else (parseId s).map some

/-! ## Values that are sent -/

/-- What `_coerce_value` returns. -/
inductive Encoded where
  | str (s : String)
  | bytes (b : Bytes)

def Encoded.toPy : Encoded → PyValue S
  | .str s => .str s
  | .bytes b => .bytes b

/-- `_coerce_value` -/
def coerceValue [PyFloat S] : PyValue S → Except PyErr Encoded
  | .bytes b => .ok (.bytes b)
  | .bool _ => .error .typeError
  | .int n => .ok (.bytes (decimalInt n))
  | .float x => .ok (.bytes (PyFloat.repr x))
  | .str s => .ok (.str s)
  | _ => .error .typeError

@[simp] theorem coerceValue_toPy [PyFloat S] (v : Encoded) :
    coerceValue (v.toPy : PyValue S) = .ok v := by
  cases v <;> rfl

end Pipeline

end BurnerRedis
