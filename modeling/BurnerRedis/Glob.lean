import BurnerRedis.Text

/-!
# Glob patterns

`glob_match` of `commands/pubsub.rs`. The indices into pattern and string are the parts that are
left of them. After a star the matching can come back to it: `Backtrack` holds the pattern after
the star and the string it was met at, of which at least the present string is left. With this the
loop ends: each return to a star leaves less of the string, and a new star stands further on in the
pattern.
-/

namespace BurnerRedis

/-- The items of a character class up to its bracket: whether the byte is among them, and the
pattern after the class. An item is a range when a dash and another byte than the bracket follow. -/
def classItems (c : UInt8) (found : Bool) : Bytes → Bool × Option Bytes
  | [] => (found, none)
  | [x] => if x = 93 then (found, some []) else (found || c == x, none)
  | [x, y] => if x = 93 then (found, some [y]) else classItems c (found || c == x) [y]
  | x :: y :: z :: rest =>
    if x = 93 then (found, some (y :: z :: rest))
    else if y = 45 ∧ z ≠ 93 then
      classItems c (found || (decide (x ≤ z) && decide (x ≤ c) && decide (c ≤ z))) rest
    else classItems c (found || c == x) (y :: z :: rest)

/-- What the pattern says about the next byte of the string. -/
inductive GlobStep where
  /-- the byte matches; what is left of the pattern -/
  | take (pat : Bytes)
  /-- a run of stars; what is left of the pattern -/
  | star (pat : Bytes)
  | mismatch

/-- One turn of the loop, up to the backtracking. -/
def globStep (c : UInt8) : Bytes → GlobStep
  | [] => .mismatch
  | p :: rest =>
    if p = 92 then
      match rest with
      | [] => .mismatch
      | q :: rest => if c = q then .take rest else .mismatch
    else if p = 42 then .star (rest.dropWhile (· = 42))
    else if p = 63 then .take rest
    else if p = 91 then
      let negated := rest.head? = some 94 ∨ rest.head? = some 33
      match classItems c false (if negated then rest.tail else rest) with
      | (_, none) => .mismatch
      | (found, some rest) => if found = true ↔ ¬ negated then .take rest else .mismatch
    else if p = c then .take rest
    else .mismatch

/-- A star is left behind in the pattern. -/
theorem length_lt_of_globStep {c : UInt8} {pat pat' : Bytes} (h : globStep c pat = .star pat') :
    pat'.length < pat.length := by
  cases pat with
  | nil => cases h
  | cons p rest =>
    simp only [globStep] at h
    split_ifs at h
    · split at h
      · cases h
      · split_ifs at h
    · cases h
      exact Nat.lt_succ_of_le (List.dropWhile_sublist _).length_le
    -- a class, negated or not, takes its byte or fails
    all_goals
      split at h
      · cases h
      · split_ifs at h

/-- Where the matching comes back to after a mismatch. -/
structure Backtrack (str : Bytes) where
  pattern : Bytes
  string : Bytes
  length_le : str.length ≤ string.length

/-- Where it came back to before a byte was taken. -/
def Backtrack.tail {c : UInt8} {str : Bytes} (b : Backtrack (c :: str)) : Backtrack str :=
  ⟨b.pattern, b.string, (Nat.le_succ _).trans b.length_le⟩

/-- The returns to stars that may still come. -/
def returnsLeft (str : Bytes) : Option (Backtrack str) → ℕ
  | none => str.length + 1
  | some b => b.string.length

/-- The loop of `glob_match`. -/
def globLoop (pat : Bytes) : (str : Bytes) → Option (Backtrack str) → Bool
  | [], _ => (pat.dropWhile (· = 42)).isEmpty
  | c :: str, star =>
    match _h : globStep c pat with
    | .take pat => globLoop pat str (star.map Backtrack.tail)
    | .star pat =>
      if pat.isEmpty then true else globLoop pat (c :: str) (some ⟨pat, c :: str, le_rfl⟩)
    | .mismatch => match star with
      | none => false
      | some b =>
        globLoop b.pattern b.string.tail (some ⟨b.pattern, b.string.tail, le_rfl⟩)
termination_by str star => (returnsLeft str star, str.length, pat.length)
decreasing_by
  · cases star with
    | none =>
      apply Prod.Lex.left
      exact Nat.lt_succ_self _
    | some b =>
      apply Prod.Lex.right
      apply Prod.Lex.left
      exact Nat.lt_succ_self _
  · have hpat := length_lt_of_globStep _h
    cases star with
    | none =>
      apply Prod.Lex.left
      exact Nat.lt_succ_self _
    | some b =>
      rcases b.length_le.lt_or_eq with hlt | heq
      · exact Prod.Lex.left _ _ hlt
      · show Prod.Lex _ _ ((c :: str).length, _) (b.string.length, _)
        rw [heq]
        exact Prod.Lex.right _ (Prod.Lex.right _ hpat)
  · have hlen := b.length_le
    apply Prod.Lex.left
    show b.string.tail.length < b.string.length
    rw [List.length_cons] at hlen
    rw [List.length_tail]
    omega

section Turns

variable {c : UInt8} {pat pat' str : Bytes}

theorem globLoop_nil (pat : Bytes) (star : Option (Backtrack [])) :
    globLoop pat [] star = (pat.dropWhile (· = 42)).isEmpty := by
  rw [globLoop.eq_def]

theorem globLoop_take (h : globStep c pat = .take pat') (star : Option (Backtrack (c :: str))) :
    globLoop pat (c :: str) star = globLoop pat' str (star.map Backtrack.tail) := by
  rw [globLoop.eq_def]
  grind

theorem globLoop_star (h : globStep c pat = .star pat') (star : Option (Backtrack (c :: str))) :
    globLoop pat (c :: str) star =
      if pat'.isEmpty then true else globLoop pat' (c :: str) (some ⟨pat', c :: str, le_rfl⟩) := by
  rw [globLoop.eq_def]
  grind

theorem globLoop_mismatch (h : globStep c pat = .mismatch) (b : Backtrack (c :: str)) :
    globLoop pat (c :: str) (some b) =
      globLoop b.pattern b.string.tail (some ⟨b.pattern, b.string.tail, le_rfl⟩) := by
  rw [globLoop.eq_def]
  grind

theorem globLoop_mismatch_none (h : globStep c pat = .mismatch) :
    globLoop pat (c :: str) none = false := by
  rw [globLoop.eq_def]
  grind

end Turns

/-- `glob_match` -/
def globMatch (pattern string : Bytes) : Bool := globLoop pattern string none

/-- A star alone matches everything. -/
theorem globMatch_star (string : Bytes) : globMatch [42] string = true := by
  unfold globMatch globLoop
  cases string with
  | nil => rfl
  | cons c str => rfl

end BurnerRedis
