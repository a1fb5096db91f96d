import BurnerRedis.Lib.F64
import BurnerRedis.Lib.Shortest
import BurnerRedis.Script.Keys
import BurnerRedis.Utf8

/-!
# Floats as scores

The scores of the source: how `str::parse::<f64>` reads a text, how `to_string` and
`format_redis_score` print a score, and how `OrderedFloat` compares two. The sign of a zero is left
out, as in `F64`.
-/

namespace BurnerRedis

/-! ## The order of `OrderedFloat` -/

/-- Negative infinity, the finite numbers, infinity, and above them what is not a number. -/
def F64.rank : F64 → ℕ ×ₗ ℚ
  | .infinite true => toLex (0, 0)
  | .finite q => toLex (1, q)
  | .infinite false => toLex (2, 0)
  | .nan => toLex (3, 0)

theorem F64.rank_injective : Function.Injective F64.rank := by
  intro x y h
  rcases x with _ | (_ | _) | q <;> rcases y with _ | (_ | _) | r <;>
    simp_all [F64.rank]

instance : LinearOrder F64 := LinearOrder.lift' F64.rank F64.rank_injective

/-! ## Reading -/

def isDigit (b : UInt8) : Bool := 48 ≤ b && b ≤ 57

/-- A leading sign, and what follows it. -/
def splitSign : Bytes → Bool × Bytes
  | 45 :: s => (true, s)
  | 43 :: s => (false, s)
  | s => (false, s)

/-- The digits of an exponent, with or without a sign. -/
def parseExponent (s : Bytes) : Option ℤ :=
  (parseNat (splitSign s).2).map fun n => if (splitSign s).1 then -(n : ℤ) else n

/-- Digits after a point, and what follows them. -/
def splitFraction : Bytes → Bytes × Bytes
  | 46 :: s => (s.takeWhile isDigit, s.dropWhile isDigit)
  | s => ([], s)

/-- The exact value of a number without a sign. -/
def decimalValue (s : Bytes) : Option ℚ :=
  let whole := s.takeWhile isDigit
  let (fraction, rest) := splitFraction (s.dropWhile isDigit)
  (parseNat (whole ++ fraction)).bind fun n =>
    let x : ℚ := n / 10 ^ fraction.length
    match rest with
    | [] => some x
    | c :: rest => if c = 101 ∨ c = 69 then (parseExponent rest).map fun e => x * 10 ^ e else none

/-- The exact value of a number. -/
def textValue (s : Bytes) : Option ℚ :=
  (decimalValue (splitSign s).2).map fun x => if (splitSign s).1 then -x else x

/-- `parse_inf_nan` -/
def parseInfNan (negative : Bool) (s : Bytes) : Option F64 :=
  let word := s.map fun b => if 65 ≤ b ∧ b ≤ 90 then b + 32 else b
  if word = ascii "nan" then some .nan
  else if word = ascii "inf" ∨ word = ascii "infinity" then some (.infinite negative)
  else none

/-- `text.parse::<f64>()`: the exact value is rounded once. -/
def parseF64 (s : Bytes) : Option F64 :=
  match textValue s with
  | some x => some (.ofRat x)
  | none => parseInfNan (splitSign s).1 (splitSign s).2

/-! ## Printing -/

/-- The digits of a number below one, as many as it has up to a limit. -/
def fractionDigits : ℕ → ℚ → Bytes
  | 0, _ => []
  | n + 1, x =>
    if x = 0 then []
    else UInt8.ofNat (48 + ⌊x * 10⌋₊) :: fractionDigits n (Int.fract (x * 10))

/-- A decimal fraction that is not negative, written out. -/
def decimalFraction (x : ℚ) : Bytes :=
  decimal ⌊x⌋₊ ++ if Int.fract x = 0 then [] else 46 :: fractionDigits 1074 (Int.fract x)

/-- The shortest decimal that is read as `q`, which is not negative: a float is less than
`10 ^ 309` and a multiple of `10 ^ -1074`. -/
def shortest (q : ℚ) : ℚ := Shortest.search (fun x => F64.ofRat x = .finite q) q (-1074) 1384

/-- `x.to_string()` -/
def F64.display : F64 → Bytes
  | .nan => ascii "NaN"
  | .infinite negative => ascii (if negative then "-inf" else "inf")
  | .finite q => (if q < 0 then [45] else []) ++ decimalFraction (shortest |q|)

/-- `format_redis_score` -/
def formatRedisScore : F64 → Bytes
  | .infinite negative => ascii (if negative then "-inf" else "inf")
  | .nan => F64.display .nan
  | .finite q =>
    if Int.fract q = 0 then decimalInt (F64.toI64 (.finite q)) else F64.display (.finite q)

instance : Score F64 where
  parse s := parseF64 (Pipeline.utf8 s)
  format := formatRedisScore
  display := F64.display
  zero := .finite 0
  negInf := .infinite true
  posInf := .infinite false

end BurnerRedis
