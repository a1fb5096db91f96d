import BurnerRedis.Lib.FinMap

/-!
# Byte strings and the texts inside them

Keys, values, arguments and replies are byte strings. A Rust `str` is kept as the bytes of its
UTF-8 encoding wherever the code only parses it, and is a `String` where it is a message.

The number parsers read the bytes directly: `str::parse` takes ASCII characters only, so a byte
that `from_utf8_lossy` would have replaced makes it fail either way.
-/

namespace BurnerRedis

/-- A string of bytes, ordered lexicographically. -/
abbrev Bytes := List UInt8

instance : LawfulBEq Bytes := inferInstance

/-! ## Decimal numbers -/

/-- `n.to_string()` for an unsigned integer. -/
def decimal (n : ℕ) : Bytes :=
  if n = 0 then [48] else (Nat.digits 10 n).reverse.map fun d => UInt8.ofNat (48 + d)

/-- `n.to_string()` for a signed integer. -/
def decimalInt (n : ℤ) : Bytes := if n < 0 then 45 :: decimal n.natAbs else decimal n.natAbs

/-- The value of a run of decimal digits that follows `acc`. -/
def parseDigits (acc : ℕ) : Bytes → Option ℕ
  | [] => some acc
  | b :: bs => if 48 ≤ b ∧ b ≤ 57 then parseDigits (acc * 10 + (b.toNat - 48)) bs else none

/-- At least one digit, and digits only. -/
def parseNat (s : Bytes) : Option ℕ := if s = [] then none else parseDigits 0 s

/-- `text.parse::<u64>()`: one leading plus sign is allowed. -/
def parseU64 (s : Bytes) : Option UInt64 :=
  (parseNat (if s.head? = some 43 then s.tail else s)).bind fun n =>
    if n < 2 ^ 64 then some (UInt64.ofNat n) else none

/-- `text.parse::<usize>()`, on a 64-bit machine. -/
def parseUsize (s : Bytes) : Option ℕ := (parseU64 s).map UInt64.toNat

/-- Fits a signed 64-bit integer. -/
def InI64 (n : ℤ) : Prop := -2 ^ 63 ≤ n ∧ n < 2 ^ 63

instance : DecidablePred InI64 := fun _ => inferInstanceAs (Decidable (_ ∧ _))

/-- `text.parse::<i64>()`: one leading sign is allowed. -/
def parseI64 (s : Bytes) : Option ℤ :=
  (if s.head? = some 45 then (parseNat s.tail).map fun n => -(n : ℤ)
    else (parseNat (if s.head? = some 43 then s.tail else s)).map fun n => (n : ℤ)).bind fun n =>
    if InI64 n then some n else none

theorem inI64_of_parseI64 {text : Bytes} {n : ℤ} (h : parseI64 text = some n) : InI64 n := by
  obtain ⟨m, -, hm⟩ := Option.bind_eq_some_iff.mp h
  split_ifs at hm with hfit
  cases hm
  exact hfit

/-! ### A number written and read again -/

theorem digit_of_mem_decimal {n : ℕ} {b : UInt8} (h : b ∈ decimal n) : 48 ≤ b ∧ b ≤ 57 := by
  unfold decimal at h
  split_ifs at h with hn
  · rw [List.mem_singleton] at h
    subst h
    decide
  · obtain ⟨d, hd, rfl⟩ := List.mem_map.mp h
    have hlt : d < 10 := Nat.digits_lt_base (by omega) (List.mem_reverse.mp hd)
    interval_cases d <;> decide

theorem decimal_ne_nil (n : ℕ) : decimal n ≠ [] := by
  unfold decimal
  split_ifs with hn
  · exact List.cons_ne_nil _ _
  · intro h
    exact hn (Nat.digits_eq_nil_iff_eq_zero.mp (by simpa using h))

/-- Digits, the most significant one first, are read as what they stand for. -/
theorem parseDigits_map {l : List ℕ} (h : ∀ d ∈ l, d < 10) (acc : ℕ) :
    parseDigits acc (l.map fun d => UInt8.ofNat (48 + d)) =
      some (l.foldl (fun n d => n * 10 + d) acc) := by
  induction l generalizing acc with
  | nil => rfl
  | cons d l ih =>
    have hd : d < 10 := h d List.mem_cons_self
    have hdigit : 48 ≤ UInt8.ofNat (48 + d) ∧ UInt8.ofNat (48 + d) ≤ 57 := by
      interval_cases d <;> decide
    have hval : (UInt8.ofNat (48 + d)).toNat - 48 = d := by
      interval_cases d <;> rfl
    rw [List.map_cons, parseDigits, if_pos hdigit, hval, List.foldl_cons]
    exact ih (fun x hx => h x (List.mem_cons_of_mem d hx)) _

theorem foldl_reverse_digits (n : ℕ) :
    (Nat.digits 10 n).reverse.foldl (fun n d => n * 10 + d) 0 = n := by
  rw [List.foldl_reverse]
  calc (Nat.digits 10 n).foldr (fun d n => n * 10 + d) 0
      = Nat.ofDigits 10 (Nat.digits 10 n) := by
        rw [Nat.ofDigits_eq_foldr]
        congr 1
        funext d n
        rw [Nat.cast_id, mul_comm, add_comm]
    _ = n := Nat.ofDigits_digits 10 n

theorem parseNat_decimal (n : ℕ) : parseNat (decimal n) = some n := by
  unfold parseNat
  rw [if_neg (decimal_ne_nil n)]
  unfold decimal
  split_ifs with hn
  · subst hn
    rfl
  · rw [parseDigits_map, foldl_reverse_digits]
    intro d hd
    exact Nat.digits_lt_base (by omega) (List.mem_reverse.mp hd)

/-- The text of a number begins with no sign. -/
theorem head?_decimal_ne (n : ℕ) {b : UInt8} (h : b < 48) : (decimal n).head? ≠ some b := by
  intro hb
  have hdigit := digit_of_mem_decimal (List.mem_of_mem_head? hb)
  exact absurd (UInt8.lt_of_lt_of_le h hdigit.1) (UInt8.lt_irrefl b)

theorem parseU64_decimal (n : UInt64) : parseU64 (decimal n.toNat) = some n := by
  unfold parseU64
  rw [if_neg (head?_decimal_ne _ (by decide)), parseNat_decimal, Option.bind_some,
    if_pos n.toNat_lt, UInt64.ofNat_toNat]

theorem parseUsize_decimal {n : ℕ} (h : n < 2 ^ 64) : parseUsize (decimal n) = some n := by
  have hn : (UInt64.ofNat n).toNat = n := UInt64.toNat_ofNat_of_lt' h
  have hparse := parseU64_decimal (UInt64.ofNat n)
  rw [hn] at hparse
  rw [parseUsize, hparse, Option.map_some, hn]

theorem parseI64_decimalInt {n : ℤ} (h : InI64 n) : parseI64 (decimalInt n) = some n := by
  unfold parseI64 decimalInt
  by_cases hn : n < 0
  · have habs : -(n.natAbs : ℤ) = n := by omega
    rw [if_pos hn, List.head?_cons, if_pos rfl, List.tail_cons, parseNat_decimal]
    simp only [Option.pure_def, Option.bind_eq_bind, Option.bind_some, Option.map_some, habs, h,
      if_true]
  · have habs : (n.natAbs : ℤ) = n := by omega
    rw [if_neg hn, if_neg (head?_decimal_ne _ (by decide)),
      if_neg (head?_decimal_ne _ (by decide)), parseNat_decimal]
    simp only [Option.pure_def, Option.bind_eq_bind, Option.bind_some, Option.map_some, habs, h,
      if_true]

/-! ## Messages -/

/-- A continuation byte of UTF-8. -/
def isCont (b : UInt8) : Bool := 128 ≤ b && b ≤ 191

/-- The least and greatest second byte after the lead byte `b` of a sequence of three or four. -/
def secondRange (b : UInt8) : UInt8 × UInt8 :=
  if b = 224 then (160, 191) else if b = 237 then (128, 159)
  else if b = 240 then (144, 191) else if b = 244 then (128, 143) else (128, 191)

/-- The first character of `b :: rest` and how many bytes of `rest` belong to it. The longest
prefix of a valid sequence stands for one replacement character. -/
def lossyHead (b : UInt8) (rest : Bytes) : Char × ℕ :=
  let bad : Char := '\uFFFD'
  let second := rest.headD 0
  let inRange := (secondRange b).1 ≤ second && second ≤ (secondRange b).2
  if b < 128 then (Char.ofNat b.toNat, 0)
  else if 194 ≤ b && b ≤ 223 then
    if isCont second then (Char.ofNat ((b.toNat - 192) * 64 + (second.toNat - 128)), 1)
    else (bad, 0)
  else if 224 ≤ b && b ≤ 239 then
    if !inRange then (bad, 0)
    else if !isCont ((rest.drop 1).headD 0) then (bad, 1)
    else (Char.ofNat ((b.toNat - 224) * 4096 + (second.toNat - 128) * 64 +
      (((rest.drop 1).headD 0).toNat - 128)), 2)
  else if 240 ≤ b && b ≤ 244 then
    if !inRange then (bad, 0)
    else if !isCont ((rest.drop 1).headD 0) then (bad, 1)
    else if !isCont ((rest.drop 2).headD 0) then (bad, 2)
    else (Char.ofNat ((b.toNat - 240) * 262144 + (second.toNat - 128) * 4096 +
      (((rest.drop 1).headD 0).toNat - 128) * 64 + (((rest.drop 2).headD 0).toNat - 128)), 3)
  else (bad, 0)

/-- The characters of a byte string, read with a fuel of at least its length. -/
def lossyChars : ℕ → Bytes → List Char
  | _, [] => []
  | 0, _ :: _ => []
  | n + 1, b :: rest => (lossyHead b rest).1 :: lossyChars n (rest.drop (lossyHead b rest).2)

/-- `String::from_utf8_lossy`. -/
def fromUtf8Lossy (s : Bytes) : String := String.ofList (lossyChars s.length s)

theorem toList_fromUtf8Lossy_cons {b : UInt8} (h : b < 128) (rest : Bytes) :
    ∃ cs, (fromUtf8Lossy (b :: rest)).toList = Char.ofNat b.toNat :: cs := by
  refine ⟨lossyChars rest.length rest, ?_⟩
  have hhead : lossyHead b rest = (Char.ofNat b.toNat, 0) := by
    unfold lossyHead
    dsimp only
    rw [if_pos h]
  unfold fromUtf8Lossy
  rw [String.toList_ofList, List.length_cons, lossyChars, hhead, List.drop_zero]

/-- `to_ascii_uppercase`. -/
def toAsciiUppercase (s : String) : String := String.ofList (s.toList.map Char.toUpper)

/-- The upper case of a character, for the characters whose upper case is ASCII. Every other
character is left as it is: a text that holds one is no option name in either form. -/
def upperChar (c : Char) : List Char :=
  if c = '\u00DF' then ['S', 'S'] else if c = '\u0131' then ['I'] else if c = '\u017F' then ['S']
  else if c = '\uFB00' then ['F', 'F'] else if c = '\uFB01' then ['F', 'I']
  else if c = '\uFB02' then ['F', 'L'] else if c = '\uFB03' then ['F', 'F', 'I']
  else if c = '\uFB04' then ['F', 'F', 'L'] else if c = '\uFB05' then ['S', 'T']
  else if c = '\uFB06' then ['S', 'T'] else [c.toUpper]

/-- `to_uppercase`, as far as a comparison with an ASCII word can tell. -/
def toUppercase (s : String) : String := String.ofList (s.toList.flatMap upperChar)

/-- The word an optional argument is compared as. -/
def optionWord (arg : Bytes) : String := toUppercase (fromUtf8Lossy arg)

/-- A word that begins with a digit still does when it is compared. -/
theorem toList_optionWord_digit {b : UInt8} (h : 48 ≤ b ∧ b ≤ 57) (rest : Bytes) :
    ∃ c cs, (optionWord (b :: rest)).toList = c :: cs ∧ c.isDigit = true := by
  obtain ⟨hlo, hhi⟩ := h
  rw [UInt8.le_iff_toNat_le] at hlo hhi
  have hascii : b < 128 := UInt8.lt_iff_toNat_lt.mpr (lt_of_le_of_lt hhi (by decide))
  have hdigit : upperChar (Char.ofNat b.toNat) = [Char.ofNat b.toNat] ∧
      (Char.ofNat b.toNat).isDigit = true := by
    generalize b.toNat = n at hlo hhi
    change 48 ≤ n at hlo
    change n ≤ 57 at hhi
    interval_cases n <;> decide
  obtain ⟨cs, hcs⟩ := toList_fromUtf8Lossy_cons hascii rest
  refine ⟨Char.ofNat b.toNat, cs.flatMap upperChar, ?_, hdigit.2⟩
  unfold optionWord toUppercase
  rw [String.toList_ofList, hcs, List.flatMap_cons, hdigit.1]
  rfl

/-- The text of a byte string of ASCII letters and digits. -/
def ascii (s : String) : Bytes := s.toList.map fun c => UInt8.ofNat c.toNat

end BurnerRedis
