import Mathlib.Data.List.Forall2
import Mathlib.Logic.Function.Basic
import Mathlib.Logic.Relation

/-!
# Calls that take a lock more than once

Clients call an object whose state is behind a lock. A call is the critical sections it makes, and
between two of its sections any section of another call may run. When every call follows a call of
another system section by section, or in a section of its own that does not show, each run has a run
of the other system in which the same calls are made and answered in the same order
(`Related.refines`). Where the other system makes one section of a call, the call is atomic.
-/

namespace Concurrency

variable {ι Q E T B σ ρ : Type*}

/-- A call: its answer, or a critical section and what the call does after it. Both may use the
environment and the state that the section meets. -/
inductive Call (E σ ρ : Type*) where
  | done (r : ρ)
  | locked (f : E → σ → σ) (next : E → σ → Call E σ ρ)

/-- A call of one section. -/
def Call.atomic (f : E → σ → σ × ρ) : Call E σ ρ :=
  .locked (fun e s => (f e s).1) fun e s => .done (f e s).2

/-- What clients call, what passes without them and what runs in the background. -/
structure Code (Q E σ ρ T B : Type*) where
  body : Q → Call E σ ρ
  pass : T → σ → σ
  background : B → σ → σ

/-- The state of the object and the calls that run. -/
structure System (ι E σ ρ : Type*) where
  shared : σ
  running : ι → Option (Call E σ ρ)

/-- No call runs. -/
def System.idle (s : σ) : System ι E σ ρ := ⟨s, fun _ => none⟩

inductive Event (ι Q E T B : Type*) where
  | invoke (i : ι) (q : Q)
  | enter (i : ι) (e : E)
  | answer (i : ι)
  | pass (t : T)
  | background (b : B)

/-- What can be seen of a run from outside. -/
inductive Seen (ι Q ρ T : Type*) where
  | invoked (i : ι) (q : Q)
  | answered (i : ι) (r : ρ)
  | passed (t : T)

/-- The same is seen, with answers that are the same. -/
inductive Seen.Same (same : ρ → ρ → Prop) : Seen ι Q ρ T → Seen ι Q ρ T → Prop where
  | invoked (i : ι) (q : Q) : Same same (.invoked i q) (.invoked i q)
  | answered (i : ι) {r r' : ρ} (h : same r r') : Same same (.answered i r) (.answered i r')
  | passed (t : T) : Same same (.passed t) (.passed t)

/-! ## Runs -/

section Runs

variable [DecidableEq ι]

def System.set (m : System ι E σ ρ) (i : ι) (p : Option (Call E σ ρ)) : System ι E σ ρ :=
  { m with running := Function.update m.running i p }

/-- One event, and what is seen of it. An event that cannot happen now changes nothing. -/
def step (c : Code Q E σ ρ T B) (m : System ι E σ ρ) :
    Event ι Q E T B → System ι E σ ρ × List (Seen ι Q ρ T)
  | .invoke i q => match m.running i with
    | none => (m.set i (some (c.body q)), [.invoked i q])
    | some _ => (m, [])
  | .enter i e => match m.running i with
    | some (.locked f next) =>
      ({ m.set i (some (next e m.shared)) with shared := f e m.shared }, [])
    | _ => (m, [])
  | .answer i => match m.running i with
    | some (.done r) => (m.set i none, [.answered i r])
    | _ => (m, [])
  | .pass t => ({ m with shared := c.pass t m.shared }, [.passed t])
  | .background b => ({ m with shared := c.background b m.shared }, [])

/-- What is seen of a run. -/
def seen (c : Code Q E σ ρ T B) (m : System ι E σ ρ) : List (Event ι Q E T B) → List (Seen ι Q ρ T)
  | [] => []
  | ev :: events => (step c m ev).2 ++ seen c (step c m ev).1 events

end Runs

/-! ## One call follows another -/

/-- `R` relates the states of two systems; the states of the first one go along `G`, whoever moves. -/
structure Relation (σ : Type*) where
  R : σ → σ → Prop
  G : σ → σ → Prop
  refl : ∀ s, G s s
  trans : ∀ {s s' s'' : σ}, G s s' → G s' s'' → G s s''

variable (rel : Relation σ) (same : ρ → ρ → Prop)

/-- From state `s₀` on, the first call follows the second one: each of its sections does what the
next section of the other does, or does not show; and they answer the same. -/
def Call.Follows : Call E σ ρ → σ → Call E σ ρ → Prop
  | .done r, _, p => ∃ r', p = .done r' ∧ same r r'
  | .locked f next, s₀, p => ∀ e s s', rel.G s₀ s → rel.R s s' → rel.G s (f e s) ∧
    ((rel.R (f e s) s' ∧ (next e s).Follows (f e s) p) ∨
      ∃ f' next', p = .locked f' next' ∧ rel.R (f e s) (f' e s') ∧
        (next e s).Follows (f e s) (next' e s'))

variable {rel same}

theorem Call.Follows.later {p p' : Call E σ ρ} {s s' : σ} (hG : rel.G s s')
    (h : p.Follows rel same s p') : p.Follows rel same s' p' := by
  cases p with
  | done r => exact h
  | locked f next => exact fun e t t' ht hR => h e t t' (rel.trans hG ht) hR

/-- Two calls of one section each, which do the same. -/
theorem Call.Follows.atomic {f f' : E → σ → σ × ρ} (s₀ : σ)
    (h : ∀ e s s', rel.R s s' → rel.G s (f e s).1 ∧ rel.R (f e s).1 (f' e s').1 ∧
      same (f e s).2 (f' e s').2) :
    (Call.atomic f).Follows rel same s₀ (.atomic f') := by
  intro e s s' _ hR
  obtain ⟨hG, hR', hsame⟩ := h e s s' hR
  exact ⟨hG, .inr ⟨_, _, rfl, hR', _, rfl, hsame⟩⟩

/-- A section that does the same in both calls. -/
theorem Call.Follows.locked {f f' : E → σ → σ} {next next' : E → σ → Call E σ ρ} (s₀ : σ)
    (h : ∀ e s s', rel.R s s' → rel.G s (f e s) ∧ rel.R (f e s) (f' e s') ∧
      (next e s).Follows rel same (f e s) (next' e s')) :
    (Call.locked f next).Follows rel same s₀ (.locked f' next') := by
  intro e s s' _ hR
  obtain ⟨hG, hR', hnext⟩ := h e s s' hR
  exact ⟨hG, .inr ⟨_, _, rfl, hR', hnext⟩⟩

/-! ## Refinement -/

section Refinement

variable {c a : Code Q E σ ρ T B} {m m' : System ι E σ ρ}

/-- The calls that run, one by one. -/
def Running (rel : Relation σ) (same : ρ → ρ → Prop) (s : σ) :
    Option (Call E σ ρ) → Option (Call E σ ρ) → Prop
  | none, none => True
  | some p, some p' => p.Follows rel same s p'
  | _, _ => False

/-- The states of two systems of which the first one follows the second. -/
structure Related (rel : Relation σ) (same : ρ → ρ → Prop) (m m' : System ι E σ ρ) : Prop where
  shared : rel.R m.shared m'.shared
  running : ∀ i, Running rel same m.shared (m.running i) (m'.running i)

/-- The calls of the first system follow those of the second, and neither time nor what runs in the
background comes between. -/
structure Code.Follows (rel : Relation σ) (same : ρ → ρ → Prop) (ok : Q → Prop)
    (c a : Code Q E σ ρ T B) : Prop where
  body : ∀ q, ok q → ∀ s, (c.body q).Follows rel same s (a.body q)
  pass : ∀ t s s', rel.R s s' → rel.G s (c.pass t s) ∧ rel.R (c.pass t s) (a.pass t s')
  background : ∀ b s s', rel.R s s' → rel.G s (c.background b s) ∧ rel.R (c.background b s) s'

theorem Running.later {s s' : σ} (hG : rel.G s s') {p p' : Option (Call E σ ρ)}
    (h : Running rel same s p p') : Running rel same s' p p' := by
  cases p <;> cases p'
  case none.none => trivial
  case some.some => exact Call.Follows.later hG h
  all_goals cases h

/-- The shared state goes on, and with it the calls that wait. -/
theorem Related.shift {s s' : σ} (hG : rel.G m.shared s) (hR : rel.R s s')
    (h : Related rel same m m') :
    Related rel same { m with shared := s } { m' with shared := s' } :=
  ⟨hR, fun i => (h.running i).later hG⟩

/-- The call that a client of the second system runs, where the first one runs one. -/
theorem Related.running_some (h : Related rel same m m') {i : ι} {p : Call E σ ρ}
    (hi : m.running i = some p) :
    ∃ p', m'.running i = some p' ∧ p.Follows rel same m.shared p' := by
  have hr := h.running i
  rw [hi] at hr
  cases hp : m'.running i with
  | none =>
    rw [hp] at hr
    exact hr.elim
  | some p' =>
    rw [hp] at hr
    exact ⟨p', rfl, hr⟩

theorem Related.running_none (h : Related rel same m m') {i : ι} (hi : m.running i = none) :
    m'.running i = none := by
  have hr := h.running i
  rw [hi] at hr
  cases hp : m'.running i with
  | none => rfl
  | some p' =>
    rw [hp] at hr
    exact hr.elim

theorem Related.idle {s s' : σ} (hR : rel.R s s') :
    Related rel same (System.idle s : System ι E σ ρ) (System.idle s') :=
  ⟨hR, fun _ => trivial⟩

variable [DecidableEq ι]

theorem Related.set (h : Related rel same m m') (i : ι) {p p' : Option (Call E σ ρ)}
    (hp : Running rel same m.shared p p') : Related rel same (m.set i p) (m'.set i p') := by
  refine ⟨h.shared, fun j => ?_⟩
  unfold System.set
  dsimp only
  by_cases hj : j = i
  · subst hj
    rw [Function.update_self, Function.update_self]
    exact hp
  · rw [Function.update_of_ne hj, Function.update_of_ne hj]
    exact h.running j

/-- The second system keeps its place while a section of the first does not show. -/
theorem Related.set_left (h : Related rel same m m') (i : ι) {p p' : Option (Call E σ ρ)}
    (hi : m'.running i = p') (hp : Running rel same m.shared p p') :
    Related rel same (m.set i p) m' := by
  have heq : m'.set i p' = m' := by
    unfold System.set
    rw [← hi, Function.update_eq_self]
  have hset := h.set i hp
  rwa [heq] at hset

/-- One event of the first system is the same event of the second, or no event of it. -/
theorem Related.at_event {ok : Q → Prop} (hc : c.Follows rel same ok a) (h : Related rel same m m')
    (ev : Event ι Q E T B) (hok : ∀ i q, ev = .invoke i q → ok q) :
    (Related rel same (step c m ev).1 m' ∧ (step c m ev).2 = []) ∨
      (Related rel same (step c m ev).1 (step a m' ev).1 ∧
        List.Forall₂ (Seen.Same same) (step c m ev).2 (step a m' ev).2) := by
  cases ev with
  | invoke i q =>
    cases hi : m.running i with
    | some p =>
      left
      simp only [step, hi]
      exact ⟨h, trivial⟩
    | none =>
      right
      simp only [step, hi, h.running_none hi]
      exact ⟨h.set i (hc.body q (hok i q rfl) m.shared), .cons (.invoked i q) .nil⟩
  | enter i e =>
    cases hi : m.running i with
    | none =>
      left
      simp only [step, hi]
      exact ⟨h, trivial⟩
    | some p => cases p with
      | done r =>
        left
        simp only [step, hi]
        exact ⟨h, trivial⟩
      | locked f next =>
        obtain ⟨p', hi', hp⟩ := h.running_some hi
        obtain ⟨hG, ⟨hR, hnext⟩ | ⟨f', next', rfl, hR, hnext⟩⟩ :=
          hp e m.shared m'.shared (rel.refl _) h.shared
        · left
          simp only [step, hi]
          exact ⟨(h.shift hG hR).set_left i hi' hnext, trivial⟩
        · right
          simp only [step, hi, hi']
          exact ⟨(h.shift hG hR).set i hnext, .nil⟩
  | answer i =>
    cases hi : m.running i with
    | none =>
      left
      simp only [step, hi]
      exact ⟨h, trivial⟩
    | some p => cases p with
      | locked f next =>
        left
        simp only [step, hi]
        exact ⟨h, trivial⟩
      | done r =>
        obtain ⟨p', hi', r', rfl, hsame⟩ := h.running_some hi
        right
        simp only [step, hi, hi']
        exact ⟨h.set i trivial, .cons (.answered i hsame) .nil⟩
  | pass t =>
    obtain ⟨hG, hR⟩ := hc.pass t m.shared m'.shared h.shared
    exact .inr ⟨h.shift hG hR, .cons (.passed t) .nil⟩
  | background b =>
    obtain ⟨hG, hR⟩ := hc.background b m.shared m'.shared h.shared
    exact .inl ⟨h.shift hG hR, rfl⟩

/-- Every run of the first system looks like a run of the second, which leaves out only events that
do not show. -/
theorem Related.refines {ok : Q → Prop} (hc : c.Follows rel same ok a) (h : Related rel same m m')
    (events : List (Event ι Q E T B)) (hok : ∀ i q, .invoke i q ∈ events → ok q) :
    ∃ events' : List (Event ι Q E T B), events'.Sublist events ∧
      List.Forall₂ (Seen.Same same) (seen c m events) (seen a m' events') := by
  induction events generalizing m m' with
  | nil => exact ⟨[], .slnil, .nil⟩
  | cons ev events ih =>
    have hrest : ∀ i q, .invoke i q ∈ events → ok q :=
      fun i q hmem => hok i q (List.mem_cons_of_mem ev hmem)
    rcases h.at_event hc ev fun i q hev => hok i q (hev ▸ List.mem_cons_self) with
      ⟨hstep, hnone⟩ | ⟨hstep, hsame⟩
    · obtain ⟨events', hsub, hseen⟩ := ih hstep hrest
      refine ⟨events', hsub.cons ev, ?_⟩
      simp only [seen, hnone, List.nil_append]
      exact hseen
    · obtain ⟨events', hsub, hseen⟩ := ih hstep hrest
      exact ⟨ev :: events', hsub.cons_cons ev, List.rel_append hsame hseen⟩

end Refinement

end Concurrency
