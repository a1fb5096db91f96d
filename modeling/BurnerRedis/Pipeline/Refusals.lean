import BurnerRedis.Pipeline.SlowPath

/-!
# What the readings of arguments raise

Most readings know one error, `TypeError`; numbers may overflow too, and ids and score bounds raise
`ValueError`. A lenient reading finds what the strict one does where that is accepted, and nothing
elsewhere.
-/

open Except

namespace BurnerRedis

namespace Pipeline

section Readings

variable {S : Type}

/-! ## What the readings raise -/

/-- The errors of a whole number that is read. -/
def Numeric {α : Type} (x : Except PyErr α) : Prop :=
  ∀ r, x = .error r → r = .typeError ∨ r = .overflowError

theorem only_extractBool (v : PyValue S) : (extractBool v).Only .typeError := by
  cases v <;> simp [extractBool]

theorem only_extractStr (v : PyValue S) : (extractStr v).Only .typeError := by
  cases v <;> simp [extractStr]

theorem only_extractDict (v : PyValue S) : (extractDict v).Only .typeError := by
  cases v <;> simp [extractDict]

theorem only_extractSequence (v : PyValue S) : (extractSequence v).Only .typeError := by
  cases v <;> simp [extractSequence]

theorem only_asInt (v : PyValue S) : (asInt v).Only .typeError := by
  cases v <;> simp [asInt]

/-- A key or a value that is no text and no bytes is a `TypeError`. -/
theorem only_extractBytes (v : PyValue S) : (extractBytes v).Only .typeError := by
  unfold extractBytes
  split <;> simp

theorem only_extractToken (v : PyValue S) : (extractToken v).Only .typeError := by
  unfold extractToken
  split <;> simp

theorem only_extractTime (v : PyValue S) (millis : Bool) :
    (extractTime v millis).Only .typeError := by
  unfold extractTime
  split <;> simp

/-- An optional parameter raises what its value does. -/
theorem only_extractOption {α : Type} {f : PyValue S → Except PyErr α} {r : PyErr}
    (hf : ∀ v, (f v).Only r) (v : PyValue S) : (extractOption f v).Only r := by
  intro r' h
  unfold extractOption at h
  split at h
  · cases h
  · cases hv : f v with
    | ok a =>
      rw [hv] at h
      cases h
    | error r'' =>
      rw [hv] at h
      cases h
      exact hf v r' hv

theorem only_extractPair (p : PyValue S × PyValue S) : (extractPair p).Only .typeError :=
  only_bind (only_extractBytes p.1) fun _ => only_bind (only_extractBytes p.2) fun _ => only_ok _

theorem only_hsetPair (key value : PyValue S) : (hsetPair key value).Only .typeError := by
  unfold hsetPair
  split
  · exact only_ok _
  · exact only_ok _
  · exact only_bind (only_extractPair _) fun _ => only_ok _

/-- Pairs are read one after the other, and each raises `TypeError` only. -/
theorem only_extractStreamFields (items : List (PyValue S × PyValue S)) :
    (extractStreamFields items).Only .typeError :=
  only_bind (only_mapM only_extractPair items) fun _ => only_ok _

theorem only_extractFlags (nx xx gt lt ch : PyValue S) :
    (extractFlags nx xx gt lt ch).Only .typeError :=
  only_bind (only_extractBool nx) fun _ => only_bind (only_extractBool xx) fun _ =>
    only_bind (only_extractBool gt) fun _ => only_bind (only_extractBool lt) fun _ =>
      only_bind (only_extractBool ch) fun _ => only_ok _

theorem only_extractTokenOr (default : String) (v : PyValue S) :
    (extractTokenOr default v).Only .typeError :=
  only_bind (only_extractOption only_extractToken v) fun _ => only_ok _

/-- A text that is no id is a `ValueError`. -/
theorem only_parseId (s : String) : (parseId s).Only .valueError := by
  unfold parseId
  cases parseStreamId (utf8 s) <;> simp

theorem only_parseMin (s : String) : (parseMin s).Only .valueError := by
  unfold parseMin
  split_ifs
  · exact only_ok _
  · exact only_parseId s

theorem only_parseMax (s : String) : (parseMax s).Only .valueError := by
  unfold parseMax
  split_ifs
  · exact only_ok _
  · exact only_parseId s

theorem only_parseStart (s : String) : (parseStart s).Only .valueError := by
  unfold parseStart
  split_ifs
  · exact only_ok _
  · exact only_parseId s

theorem only_parseNewId (s : String) : (parseNewId s).Only .valueError := by
  unfold parseNewId
  split_ifs
  · exact only_ok _
  · intro r h
    cases hs : parseId s with
    | ok id =>
      rw [hs] at h
      cases h
    | error r' =>
      rw [hs] at h
      cases h
      exact only_parseId s _ hs

/-- So is a score bound that is no number. -/
theorem only_parseScoreBound [PyFloat S] (v : PyValue S) :
    (parseScoreBound v).Only .valueError := by
  unfold parseScoreBound
  split
  · exact only_ok _
  · split_ifs
    · exact only_ok _
    · exact only_ok _
    · rename_i s _ _ _
      cases Score.parse (S := S) s <;> simp
  · simp

theorem numeric_of_only {α : Type} {x : Except PyErr α} (hx : x.Only .typeError) : Numeric x := by
  intro r h
  exact .inl (hx r h)

/-- Readings that follow each other raise what each of them does. -/
theorem numeric_bind {α β : Type} {x : Except PyErr α} {f : α → Except PyErr β} (hx : Numeric x)
    (hf : ∀ a, Numeric (f a)) : Numeric (x >>= f) := by
  intro r h
  cases x with
  | error r' =>
    cases h
    exact hx r rfl
  | ok a => exact hf a r h

theorem numeric_mapM {α β : Type} {f : α → Except PyErr β} (hf : ∀ a, Numeric (f a)) (l : List α) :
    Numeric (l.mapM f) := by
  induction l with
  | nil =>
    intro r h
    cases h
  | cons a l ih =>
    rw [List.mapM_cons]
    refine numeric_bind (hf a) fun b => numeric_bind ih fun bs => ?_
    intro r h
    cases h

/-- A whole number is a `TypeError`, or overflows its type. -/
theorem numeric_of_asInt {α : Type} (v : PyValue S) {f : ℤ → Except PyErr α}
    (hf : ∀ n, (f n).Only .overflowError) : Numeric (asInt v >>= f) :=
  numeric_bind (numeric_of_only (only_asInt v)) fun n r h => .inr (hf n r h)

theorem numeric_extractI64 (v : PyValue S) : Numeric (extractI64 v) := by
  refine numeric_of_asInt v fun n => ?_
  split_ifs <;> simp

theorem numeric_extractU64 (v : PyValue S) : Numeric (extractU64 v) := by
  refine numeric_of_asInt v fun n => ?_
  split_ifs <;> simp

theorem numeric_extractUsize (v : PyValue S) : Numeric (extractUsize v) :=
  numeric_bind (numeric_extractU64 v) fun _ => numeric_of_only (only_ok _)

theorem numeric_extractU8 (v : PyValue S) : Numeric (extractU8 v) := by
  refine numeric_of_asInt v fun n => ?_
  split_ifs <;> simp

theorem numeric_extractVecU8 (v : PyValue S) : Numeric (extractVecU8 v) :=
  numeric_bind (numeric_of_only (only_extractSequence v)) (numeric_mapM numeric_extractU8)

/-- An id of bytes is read byte by byte, and a byte may overflow. -/
theorem numeric_extractIdText (v : PyValue S) : Numeric (extractIdText v) := by
  intro r h
  unfold extractIdText at h
  split at h
  · cases h
  · cases hv : extractVecU8 v with
    | ok b =>
      rw [hv] at h
      cases h
    | error r' =>
      rw [hv] at h
      cases h
      exact numeric_extractVecU8 v _ hv

theorem numeric_extractStream (p : PyValue S × PyValue S) : Numeric (extractStream p) :=
  numeric_bind (numeric_of_only (only_extractBytes p.1)) fun _ =>
    numeric_bind (numeric_extractIdText p.2) fun _ => numeric_of_only (only_ok _)

/-- An optional parameter is refused as its value is. -/
theorem numeric_extractOption {α : Type} {f : PyValue S → Except PyErr α}
    (hf : ∀ v, Numeric (f v)) (v : PyValue S) : Numeric (extractOption f v) := by
  intro r h
  unfold extractOption at h
  split at h
  · cases h
  · cases hv : f v with
    | ok a =>
      rw [hv] at h
      cases h
    | error r' =>
      rw [hv] at h
      cases h
      exact hf v _ hv

/-! ## Lenient readings -/

variable {α : Type} {f : PyValue S → Except PyErr α} {v : PyValue S}

/-- Where an optional parameter is accepted, the lenient reading finds the same. -/
theorem extractSoft_of_ok {o : Option α} (h : extractOption f v = .ok o) : extractSoft f v = o := by
  unfold extractOption at h
  unfold extractSoft
  split at h
  · cases h
    rfl
  · cases hv : f v with
    | error r =>
      rw [hv] at h
      cases h
    | ok a =>
      rw [hv] at h
      cases h
      rfl

/-- Where it is refused, the lenient reading finds nothing. -/
theorem extractSoft_of_error {r : PyErr} (h : extractOption f v = .error r) :
    extractSoft f v = none := by
  unfold extractOption at h
  unfold extractSoft
  split at h
  · cases h
  · cases hv : f v with
    | ok a =>
      rw [hv] at h
      cases h
    | error r' => rfl

end Readings

end Pipeline

end BurnerRedis
