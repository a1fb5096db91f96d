import Mathlib

/-!
# Polling until a deadline

A call polls a world that other parties write. When the poll finds nothing the call fixes its
deadline and goes round a loop: it looks whether the world is being stopped, reads the clock, and
waits until something wakes it or its time is over; when it is woken it polls again. It may be woken
at any time and for no reason. Between any two steps of the call other parties may do anything that
does not set the clock back or take back a stop.

`Rules` is what there is to know of the world and the call. Under `Rules.Sound`, a call that ends
with nothing has been stopped or has a deadline that has passed (`Reaches.not_early`).
-/

open Relation (ReflTransGen)

namespace Deadline

/-- Where a call is: before its first poll; after it; at the head of the loop; past the look at the
stop; waiting until `till`; woken; at its end, with an error, an answer or nothing. -/
inductive Phase (ε α : Type) where
  | called
  | polled
  | head (deadline : Option ℤ)
  | unstopped (deadline : Option ℤ)
  | waiting (deadline : Option ℤ) (till : ℤ)
  | woken (deadline : Option ℤ)
  | done (result : Except ε (Option α))

/-- What a world does and what a call makes of it: the deadline it fixes when the clock shows a
time, and how long it waits at a stretch when it has none. -/
structure Rules (σ ε α : Type) where
  now : σ → ℤ
  stopped : σ → Prop
  write : σ → σ → Prop
  poll : σ → σ → Except ε (Option α) → Prop
  deadline : ℤ → Option ℤ
  slice : ℕ

/-- The world and the call. -/
structure Sys (σ ε α : Type) where
  world : σ
  phase : Phase ε α

variable {σ ε α : Type}

/-- The phase after a poll: the call ends unless it has found nothing. -/
def Phase.after (next : Phase ε α) : Except ε (Option α) → Phase ε α
  | .ok none => next
  | r => .done r

/-- One step of the call or of another party. -/
inductive Step (R : Rules σ ε α) : Sys σ ε α → Sys σ ε α → Prop where
  | write {w w' : σ} {p : Phase ε α} (h : R.write w w') : Step R ⟨w, p⟩ ⟨w', p⟩
  | first {w w' : σ} {r : Except ε (Option α)} (h : R.poll w w' r) :
      Step R ⟨w, .called⟩ ⟨w', Phase.polled.after r⟩
  | fix {w : σ} : Step R ⟨w, .polled⟩ ⟨w, .head (R.deadline (R.now w))⟩
  | stop {w : σ} {dl : Option ℤ} (h : R.stopped w) : Step R ⟨w, .head dl⟩ ⟨w, .done (.ok none)⟩
  | goOn {w : σ} {dl : Option ℤ} (h : ¬ R.stopped w) : Step R ⟨w, .head dl⟩ ⟨w, .unstopped dl⟩
  /-- no time remains -/
  | late {w : σ} {d : ℤ} (h : d ≤ R.now w) :
      Step R ⟨w, .unstopped (some d)⟩ ⟨w, .done (.ok none)⟩
  | wait {w : σ} {d : ℤ} (h : R.now w < d) :
      Step R ⟨w, .unstopped (some d)⟩ ⟨w, .waiting (some d) d⟩
  | waitSlice {w : σ} : Step R ⟨w, .unstopped none⟩ ⟨w, .waiting none (R.now w + R.slice)⟩
  | wake {w : σ} {dl : Option ℤ} {till : ℤ} : Step R ⟨w, .waiting dl till⟩ ⟨w, .woken dl⟩
  | again {w w' : σ} {dl : Option ℤ} {r : Except ε (Option α)} (h : R.poll w w' r) :
      Step R ⟨w, .woken dl⟩ ⟨w', (Phase.head dl).after r⟩
  | expire {w : σ} {d till : ℤ} (h : till ≤ R.now w) :
      Step R ⟨w, .waiting (some d) till⟩ ⟨w, .done (.ok none)⟩
  | expireSlice {w : σ} {till : ℤ} (h : till ≤ R.now w) :
      Step R ⟨w, .waiting none till⟩ ⟨w, .head none⟩

/-- The states of a call that begins in the world `w`. -/
def Reaches (R : Rules σ ε α) (w : σ) (s : Sys σ ε α) : Prop :=
  ReflTransGen (Step R) ⟨w, .called⟩ s

/-- Other parties do not set the clock back or take back a stop, and polls do neither. -/
structure Rules.Sound (R : Rules σ ε α) : Prop where
  write_now : ∀ {w w'}, R.write w w' → R.now w ≤ R.now w'
  write_stopped : ∀ {w w'}, R.write w w' → R.stopped w → R.stopped w'
  poll_now : ∀ {w w' r}, R.poll w w' r → R.now w ≤ R.now w'
  poll_stopped : ∀ {w w' r}, R.poll w w' r → R.stopped w → R.stopped w'

/-! ## The invariant -/

/-- The deadline was fixed at some time from `t` on. -/
def Fixed (R : Rules σ ε α) (t : ℤ) (dl : Option ℤ) : Prop := ∃ t', t ≤ t' ∧ dl = R.deadline t'

/-- A call from time `t` on that has ended with nothing was right to. -/
def Timely (R : Rules σ ε α) (t : ℤ) (w : σ) : Prop :=
  R.stopped w ∨ ∃ d, Fixed R t (some d) ∧ d ≤ R.now w

/-- What holds of a call that began at `t`. -/
def Inv (R : Rules σ ε α) (t : ℤ) (s : Sys σ ε α) : Prop :=
  t ≤ R.now s.world ∧ match s.phase with
    | .called => True
    | .polled => True
    | .head dl => Fixed R t dl
    | .unstopped dl => Fixed R t dl
    | .waiting dl till => Fixed R t dl ∧ ∀ d, dl = some d → d ≤ till
    | .woken dl => Fixed R t dl
    | .done (.ok none) => Timely R t s.world
    | .done _ => True

variable {R : Rules σ ε α} {t : ℤ} {w w' : σ} {s s' : Sys σ ε α}

theorem Timely.mono (hn : R.now w ≤ R.now w') (hs : R.stopped w → R.stopped w')
    (h : Timely R t w) : Timely R t w' := by
  rcases h with h | ⟨d, hd, hle⟩
  · exact .inl (hs h)
  · exact .inr ⟨d, hd, hle.trans hn⟩

/-- The world moves on and the call does not. -/
theorem Inv.mono {p : Phase ε α} (hn : R.now w ≤ R.now w') (hs : R.stopped w → R.stopped w')
    (h : Inv R t ⟨w, p⟩) : Inv R t ⟨w', p⟩ := by
  obtain ⟨hle, hp⟩ := h
  refine ⟨hle.trans hn, ?_⟩
  cases p with
  | done r =>
    cases r with
    | error e => trivial
    | ok found =>
      cases found with
      | none => exact hp.mono hn hs
      | some a => trivial
  | called => trivial
  | polled => trivial
  | head dl => exact hp
  | unstopped dl => exact hp
  | waiting dl till => exact hp
  | woken dl => exact hp

/-- After a poll the call is where it goes on, or at its end with something. -/
theorem Inv.after {next : Phase ε α} (h : Inv R t ⟨w, next⟩) (r : Except ε (Option α)) :
    Inv R t ⟨w, next.after r⟩ := by
  cases r with
  | error e => exact ⟨h.1, trivial⟩
  | ok found =>
    cases found with
    | none => exact h
    | some a => exact ⟨h.1, trivial⟩

theorem Step.inv (hR : R.Sound) (st : Step R s s') (h : Inv R t s) : Inv R t s' := by
  cases st with
  | write hw => exact h.mono (hR.write_now hw) (hR.write_stopped hw)
  | first hp =>
    refine Inv.after ?_ _
    exact ⟨h.1.trans (hR.poll_now hp), trivial⟩
  | fix => exact ⟨h.1, _, h.1, rfl⟩
  | stop hs => exact ⟨h.1, .inl hs⟩
  | goOn hs => exact h
  | @late _ d hd => exact ⟨h.1, .inr ⟨d, h.2, hd⟩⟩
  | wait hd =>
    refine ⟨h.1, h.2, ?_⟩
    intro d' hd'
    rw [Option.some.inj hd']
  | waitSlice =>
    refine ⟨h.1, h.2, ?_⟩
    intro d hd
    cases hd
  | wake => exact ⟨h.1, h.2.1⟩
  | again hp =>
    refine Inv.after ?_ _
    exact ⟨h.1.trans (hR.poll_now hp), h.2⟩
  | @expire _ d till htill => exact ⟨h.1, .inr ⟨d, h.2.1, (h.2.2 d rfl).trans htill⟩⟩
  | expireSlice _ => exact ⟨h.1, h.2.1⟩

theorem Reaches.inv (hR : R.Sound) (h : Reaches R w s) : Inv R (R.now w) s := by
  induction h with
  | refl => exact ⟨le_refl _, trivial⟩
  | tail _ st ih => exact st.inv hR ih

/-- A call that has ended with nothing has been stopped, or it has fixed a deadline after it began,
and the deadline has passed. -/
theorem Reaches.not_early (hR : R.Sound) (h : Reaches R w s) (he : s.phase = .done (.ok none)) :
    R.stopped s.world ∨
      ∃ t d, R.now w ≤ t ∧ R.deadline t = some d ∧ d ≤ R.now s.world := by
  obtain ⟨-, hp⟩ := h.inv hR
  rw [he] at hp
  rcases hp with hs | ⟨d, ⟨t, ht, hd⟩, hle⟩
  · exact .inl hs
  · exact .inr ⟨t, d, ht, hd.symm, hle⟩

/-! ## A deadline that is over at once -/

/-- The call has not come to wait, and a deadline it has fixed is over. -/
def Hasty (R : Rules σ ε α) (s : Sys σ ε α) : Prop :=
  match s.phase with
  | .head dl => ∃ d, dl = some d ∧ d ≤ R.now s.world
  | .unstopped dl => ∃ d, dl = some d ∧ d ≤ R.now s.world
  | .waiting .. => False
  | .woken _ => False
  | _ => True

theorem Step.hasty (hR : R.Sound) (hd : ∀ t, ∃ d, R.deadline t = some d ∧ d ≤ t)
    (st : Step R s s') (h : Hasty R s) : Hasty R s' := by
  cases st with
  | @write w w' p hw =>
    cases p with
    | head dl =>
      obtain ⟨d, hdl, hle⟩ := h
      exact ⟨d, hdl, hle.trans (hR.write_now hw)⟩
    | unstopped dl =>
      obtain ⟨d, hdl, hle⟩ := h
      exact ⟨d, hdl, hle.trans (hR.write_now hw)⟩
    | waiting dl till => exact h
    | woken dl => exact h
    | called => trivial
    | polled => trivial
    | done r => trivial
  | @first w w' r _ =>
    cases r with
    | error e => trivial
    | ok found => cases found <;> trivial
  | fix => exact hd _
  | goOn _ => exact h
  | wait hlt =>
    obtain ⟨d, hdl, hle⟩ := h
    exact absurd hlt (not_lt.mpr (Option.some.inj hdl ▸ hle))
  | waitSlice =>
    obtain ⟨d, hdl, -⟩ := h
    cases hdl
  | wake => exact h.elim
  | again _ => exact h.elim
  | expireSlice _ => exact h.elim
  | stop _ => trivial
  | late _ => trivial
  | expire _ => trivial

/-- A call whose deadline is over when it is fixed never waits. -/
theorem Reaches.not_waiting (hR : R.Sound) (hd : ∀ t, ∃ d, R.deadline t = some d ∧ d ≤ t)
    (h : Reaches R w s) {dl : Option ℤ} {till : ℤ} : s.phase ≠ .waiting dl till := by
  have hasty : Hasty R s := by
    induction h with
    | refl => trivial
    | tail _ st ih => exact st.hasty hR hd ih
  intro hp
  unfold Hasty at hasty
  rw [hp] at hasty
  exact hasty

end Deadline
