import Mathlib

/-!
# Operations confined to a part of the state

A state is looked at key by key, through a view that may depend on the time. An operation is
confined to a set of keys when it changes no other key and neither its answer nor what it leaves
under its keys depends on any other (`Confined`).

Confined operations commute when neither changes the keys of the other (`Confined.commute`), and a
party whose operations are confined to a set of keys gets the same answers whatever the others do
elsewhere (`answers_interleaved`).
-/

namespace Locality

variable {σ K V ρ : Type*}

/-- Two states look the same at these keys. -/
def SameOn (v : σ → K → V) (P : Set K) (s s' : σ) : Prop := ∀ k ∈ P, v s k = v s' k

section SameOn

variable {v : σ → K → V} {P Q : Set K} {s s' s'' : σ}

theorem SameOn.refl : SameOn v P s s := fun _ _ => rfl

theorem SameOn.symm (h : SameOn v P s s') : SameOn v P s' s := fun k hk => (h k hk).symm

theorem SameOn.trans (h : SameOn v P s s') (h' : SameOn v P s' s'') : SameOn v P s s'' :=
  fun k hk => (h k hk).trans (h' k hk)

theorem SameOn.mono (h : SameOn v Q s s') (hPQ : P ⊆ Q) : SameOn v P s s' :=
  fun k hk => h k (hPQ hk)

end SameOn

/-- The operation changes nothing outside `P` and sees nothing outside `P`. -/
structure Confined (v : σ → K → V) (P : Set K) (f : σ → σ × ρ) : Prop where
  frame : ∀ s, ∀ k ∉ P, v (f s).1 k = v s k
  answer : ∀ {s s'}, SameOn v P s s' → (f s).2 = (f s').2
  result : ∀ {s s'}, SameOn v P s s' → SameOn v P (f s).1 (f s').1

section Confined

variable {v : σ → K → V} {P Q : Set K} {f : σ → σ × ρ}

/-- Giving an answer confines to any keys. -/
theorem confined_pure (r : ρ) : Confined v P fun s => (s, r) where
  frame _ _ _ := rfl
  answer _ := rfl
  result h := h

theorem Confined.mono (h : Confined v P f) (hPQ : P ⊆ Q) : Confined v Q f where
  frame s k hk := h.frame s k fun hP => hk (hPQ hP)
  answer hs := h.answer (hs.mono hPQ)
  result {s s'} hs k hk := by
    by_cases hP : k ∈ P
    · exact h.result (hs.mono hPQ) k hP
    · rw [h.frame s k hP, h.frame s' k hP]
      exact hs k hk

/-- What is made of the answer does not matter. -/
theorem Confined.map {τ : Type*} (h : Confined v P f) (g : ρ → τ) :
    Confined v P fun s => ((f s).1, g (f s).2) where
  frame := h.frame
  answer hs := congrArg g (h.answer hs)
  result := h.result

/-- One operation after the other, which may depend on the answer to the first. -/
theorem Confined.bind {τ : Type*} (h : Confined v P f) {g : ρ → σ → σ × τ}
    (hg : ∀ r, Confined v P (g r)) : Confined v P fun s => g (f s).2 (f s).1 where
  frame s k hk := by rw [(hg _).frame _ k hk, h.frame s k hk]
  answer hs := by
    rw [h.answer hs]
    exact (hg _).answer (h.result hs)
  result hs := by
    rw [h.answer hs]
    exact (hg _).result (h.result hs)

/-- Operations commute when neither changes the keys of the other: each is answered as if it came
first, and both orders leave the same under every key. -/
theorem Confined.commute {τ : Type*} {g : σ → σ × τ} (hf : Confined v P f) (hg : Confined v Q g)
    (hfQ : ∀ s, SameOn v Q (f s).1 s) (hgP : ∀ s, SameOn v P (g s).1 s) (s : σ) :
    (g (f s).1).2 = (g s).2 ∧ (f (g s).1).2 = (f s).2 ∧
      ∀ k, v (g (f s).1).1 k = v (f (g s).1).1 k := by
  refine ⟨hg.answer (hfQ s), hf.answer (hgP s), fun k => ?_⟩
  by_cases hQ : k ∈ Q
  · rw [hg.result (hfQ s) k hQ]
    by_cases hP : k ∈ P
    · rw [hgP s k hP, hfQ _ k hQ, hgP s k hP]
    · rw [hf.frame _ k hP]
  · rw [hg.frame _ k hQ]
    by_cases hP : k ∈ P
    · exact (hf.result (hgP s) k hP).symm
    · rw [hf.frame s k hP, hf.frame _ k hP, hg.frame s k hQ]

end Confined

/-! ## Runs -/

section Runs

variable {T O : Type*} [Preorder T]

/-- The answers of a run to the operations that are `mine`. -/
def answers (run : T → O → σ → σ × ρ) (mine : O → Bool) : σ → List (T × O) → List ρ
  | _, [] => []
  | s, (t, o) :: steps =>
    if mine o then (run t o s).2 :: answers run mine (run t o s).1 steps
    else answers run mine (run t o s).1 steps

/-- What looks the same under a key goes on to look the same. -/
def Lasting (view : T → σ → K → V) : Prop :=
  ∀ ⦃t t' s s' k⦄, t ≤ t' → view t s k = view t s' k → view t' s k = view t' s' k

/-- A party that keeps to the keys in `P`, in a run whose other operations change none of them, gets
the answers that it gets alone. -/
theorem answers_interleaved {view : T → σ → K → V} (hv : Lasting view) {run : T → O → σ → σ × ρ}
    {mine : O → Bool} {P : Set K} {steps : List (T × O)} (ht : steps.Pairwise fun a b => a.1 ≤ b.1)
    (hmine : ∀ x ∈ steps, mine x.2 = true → Confined (view x.1) P (run x.1 x.2))
    (hother : ∀ x ∈ steps, mine x.2 = false → ∀ s, SameOn (view x.1) P (run x.1 x.2 s).1 s)
    {t : T} (hle : ∀ x ∈ steps, t ≤ x.1) {s s' : σ} (hs : SameOn (view t) P s s') :
    answers run mine s steps = answers run mine s' (steps.filter fun x => mine x.2) := by
  induction steps generalizing t s s' with
  | nil => rfl
  | cons x steps ih =>
    obtain ⟨t', o⟩ := x
    obtain ⟨hlater, hrest⟩ := List.pairwise_cons.mp ht
    have hnow : SameOn (view t') P s s' :=
      fun k hk => hv (hle _ List.mem_cons_self) (hs k hk)
    have hmine' := fun x hx => hmine x (List.mem_cons_of_mem _ hx)
    have hother' := fun x hx => hother x (List.mem_cons_of_mem _ hx)
    cases hm : mine o with
    | true =>
      have hc := hmine _ List.mem_cons_self hm
      simp only [answers, List.filter_cons, hm, if_true]
      rw [hc.answer hnow, ih hrest hmine' hother' hlater (hc.result hnow)]
    | false =>
      have hkeep := (hother _ List.mem_cons_self hm s).trans hnow
      simp only [answers, List.filter_cons, hm, Bool.false_eq_true, if_false]
      exact ih hrest hmine' hother' hlater hkeep

end Runs

end Locality
