import Mathlib.Tactic.Common

/-!
# Readings that may be refused

A value is read by a computation in `Except ε`: it is accepted, or refused with an error. Readings
made one after the other are refused with the error of the first one that is. Two neighbours that
know one and the same error can be exchanged (`bind_comm`); others cannot.
-/

namespace Except

variable {ε α β γ : Type} {r : ε} {x : Except ε α} {y : Except ε β}

/-- The reading gives a value. -/
def Accepts (x : Except ε α) : Prop := ∃ a, x = .ok a

/-- The reading raises an error. -/
def Refuses (x : Except ε α) : Prop := ∃ r, x = .error r

/-- The reading is refused with the error `r`. -/
def Raises (x : Except ε α) (r : ε) : Prop := x = .error r

/-- The reading knows no error but `r`. -/
def Only (x : Except ε α) (r : ε) : Prop := ∀ r', x = .error r' → r' = r

instance : Decidable x.Accepts :=
  match x with
  | .ok a => .isTrue ⟨a, rfl⟩
  | .error _ => .isFalse (by rintro ⟨_, h⟩; cases h)

instance : Decidable x.Refuses :=
  match x with
  | .ok _ => .isFalse (by rintro ⟨_, h⟩; cases h)
  | .error r => .isTrue ⟨r, rfl⟩

instance [DecidableEq ε] : Decidable (x.Raises r) :=
  match x with
  | .ok _ => .isFalse (by intro h; cases h)
  | .error r' =>
    if h : r' = r then .isTrue (by rw [h]; rfl) else .isFalse (by intro h'; cases h'; exact h rfl)

@[simp] theorem accepts_ok (a : α) : (.ok a : Except ε α).Accepts := ⟨a, rfl⟩

@[simp] theorem not_accepts_error : ¬(.error r : Except ε α).Accepts := by
  rintro ⟨_, h⟩
  cases h

@[simp] theorem not_refuses_ok (a : α) : ¬(.ok a : Except ε α).Refuses := by
  rintro ⟨_, h⟩
  cases h

@[simp] theorem refuses_error : (.error r : Except ε α).Refuses := ⟨r, rfl⟩

@[simp] theorem not_raises_ok (a : α) : ¬(.ok a : Except ε α).Raises r := by
  intro h
  cases h

@[simp] theorem raises_error {r' : ε} : (.error r' : Except ε α).Raises r ↔ r' = r := by
  constructor
  · intro h
    exact Except.error.inj h
  · intro h
    rw [h]
    rfl

@[simp] theorem ok_bind (a : α) (f : α → Except ε β) : ((.ok a : Except ε α) >>= f) = f a := rfl

@[simp] theorem error_bind (f : α → Except ε β) : ((.error r : Except ε α) >>= f) = .error r := rfl

@[simp] theorem ok_seqRight (a : α) : ((.ok a : Except ε α) *> y) = y := rfl

@[simp] theorem error_seqRight : ((.error r : Except ε α) *> y) = .error r := rfl

@[simp] theorem only_ok (a : α) : (.ok a : Except ε α).Only r := by
  intro r' h
  cases h

@[simp] theorem only_error {r' : ε} : (.error r' : Except ε α).Only r ↔ r' = r := by
  constructor
  · intro h
    exact h r' rfl
  · rintro rfl r'' h
    exact (Except.error.inj h).symm

theorem seqRight_assoc {z : Except ε γ} : x *> y *> z = x *> (y *> z) := by
  cases x with
  | error r => rfl
  | ok a => rfl

/-- One of two readings is refused when both are done. -/
theorem refuses_seqRight : (x *> y).Refuses ↔ x.Refuses ∨ y.Refuses := by
  cases x with
  | error r => simp
  | ok a => simp

/-- What comes after the first reading matters to an error only through whether it raises it. -/
theorem raises_bind_iff {f : α → Except ε γ} (h : ∀ a, (f a).Raises r ↔ y.Raises r) :
    (x >>= f).Raises r ↔ (x *> y).Raises r := by
  cases x with
  | error r' => simp
  | ok a => exact h a

/-- Readings that follow each other raise what both of them may. -/
theorem only_bind {f : α → Except ε β} (hx : x.Only r) (hf : ∀ a, (f a).Only r) :
    (x >>= f).Only r := by
  intro r' h
  cases x with
  | error r'' =>
    cases h
    exact hx r' rfl
  | ok a => exact hf a r' h

/-- So do those of a list. -/
theorem only_mapM {f : α → Except ε β} (hf : ∀ a, (f a).Only r) (l : List α) : (l.mapM f).Only r := by
  induction l with
  | nil => exact only_ok []
  | cons a l ih =>
    rw [List.mapM_cons]
    refine only_bind (hf a) fun b => only_bind ih fun bs => ?_
    exact only_ok (b :: bs)

theorem Only.not_raises {r' : ε} (hx : x.Only r) (h : r' ≠ r) : ¬x.Raises r' := by
  intro h'
  exact h (hx r' h')

/-- Neighbours that know the same error only can be exchanged. -/
theorem bind_comm (hx : x.Only r) (hy : y.Only r) (f : α → β → Except ε γ) :
    (x >>= fun a => y >>= fun b => f a b) = y >>= fun b => x >>= fun a => f a b := by
  cases x with
  | ok a => rfl
  | error r₁ =>
    cases y with
    | ok b => rfl
    | error r₂ =>
      have h₁ : r₁ = r := hx r₁ rfl
      have h₂ : r₂ = r := hy r₂ rfl
      rw [h₁, h₂]
      rfl

/-- A reading can be made before two others. -/
theorem bind_comm₂ {δ : Type} {z : Except ε δ} (hx : x.Only r) (hy : y.Only r) (hz : z.Only r)
    (f : α → β → δ → Except ε γ) :
    (x >>= fun a => y >>= fun b => z >>= fun d => f a b d) =
      z >>= fun d => x >>= fun a => y >>= fun b => f a b d := by
  rw [bind_congr fun a => bind_comm hy hz (f a)]
  exact bind_comm hx hz fun a d => y >>= fun b => f a b d

/-- Two readings can be made before another. -/
theorem bind_rotate {δ : Type} {z : Except ε δ} (hx : x.Only r) (hy : y.Only r) (hz : z.Only r)
    (f : α → β → δ → Except ε γ) :
    (x >>= fun a => y >>= fun b => z >>= fun d => f a b d) =
      y >>= fun b => z >>= fun d => x >>= fun a => f a b d := by
  rw [bind_comm hx hy]
  exact bind_congr fun b => bind_comm hx hz fun a d => f a b d

end Except
