import Mathlib

/-!
# Waiting for a notification

Clients wait until something is true of a world that other parties write. A client arms a waiter,
polls the world, and if it finds nothing and nothing has been stopped it waits. A notification marks
the waiters that are armed; a marked waiter wakes its client, which arms a new one and polls again.
A party that notifies does so some time after its write, and anything may happen in between.

`Rules` is what there is to know of a world: what the other parties can write, when a poll finds
nothing and when a client is ready. Under `Rules.Sound`, a client with an unmarked waiter is not
ready unless a notification is on its way (`Reaches.not_lost`).
-/

open Relation (ReflTransGen)

namespace Notify

/-- Where a client is in its loop: not in it; with a waiter armed; after a poll that found nothing;
waiting. -/
inductive Phase where
  | idle
  | armed
  | polled
  | waiting
deriving DecidableEq

/-- A client, the mark of its waiter and what it asks for. -/
structure Client (ρ : Type) where
  phase : Phase
  marked : Bool
  request : ρ

/-- The world, the clients, and the number of parties between their write and their
notification. -/
structure Sys (σ κ ρ : Type) where
  world : σ
  client : κ → Client ρ
  notifying : ℕ

/-- What the parties do. `write s w b`: some party may turn the world into `w`, and notifies
afterwards if `b` is true. -/
structure Rules (σ κ ρ : Type) where
  write : Sys σ κ ρ → σ → Bool → Prop
  pollNone : ρ → σ → σ → Prop
  ready : ρ → σ → Prop
  stopped : σ → Prop

variable {σ κ ρ : Type}

/-- A notification reaches every waiter that is armed. -/
def Client.mark (c : Client ρ) : Client ρ := if c.phase = .idle then c else { c with marked := true }

/-- The client has polled in vain, and no notification has come since it armed its waiter. -/
def Client.Blocked (c : Client ρ) : Prop :=
  (c.phase = .polled ∨ c.phase = .waiting) ∧ c.marked = false

theorem Client.not_blocked_mark (c : Client ρ) : ¬ c.mark.Blocked := by
  unfold mark
  split_ifs with h
  · rintro ⟨hp | hp, -⟩ <;> rw [h] at hp <;> cases hp
  · exact fun hb => Bool.noConfusion hb.2

section Steps

variable [DecidableEq κ]

/-- The client `c` becomes `x`. -/
def Sys.setClient (s : Sys σ κ ρ) (c : κ) (x : Client ρ) : Sys σ κ ρ :=
  { s with client := Function.update s.client c x }

/-- One step of the whole system. A poll that finds something is a write of its own followed by
`leave`. -/
inductive Step (R : Rules σ κ ρ) (s : Sys σ κ ρ) : Sys σ κ ρ → Prop where
  | write (w : σ) (b : Bool) (h : R.write s w b) :
      Step R s { s with world := w, notifying := if b then s.notifying + 1 else s.notifying }
  | notify (h : 0 < s.notifying) :
      Step R s { s with client := fun c => (s.client c).mark, notifying := s.notifying - 1 }
  | call (c : κ) (q : ρ) (h : (s.client c).phase = .idle) :
      Step R s (s.setClient c ⟨.armed, false, q⟩)
  | pollNone (c : κ) (w : σ) (h : (s.client c).phase = .armed)
      (hp : R.pollNone (s.client c).request s.world w) :
      Step R s (({ s with world := w } : Sys σ κ ρ).setClient c
        { s.client c with phase := .polled })
  | wait (c : κ) (h : (s.client c).phase = .polled) (hs : ¬ R.stopped s.world) :
      Step R s (s.setClient c { s.client c with phase := .waiting })
  | wake (c : κ) (h : (s.client c).phase = .waiting) (hm : (s.client c).marked = true) :
      Step R s (s.setClient c { s.client c with phase := .armed, marked := false })
  /-- a slice of the waiting time is over: back to the head of the loop with the same waiter -/
  | again (c : κ) (h : (s.client c).phase = .waiting) :
      Step R s (s.setClient c { s.client c with phase := .polled })
  | leave (c : κ) : Step R s (s.setClient c { s.client c with phase := .idle })

/-- A state from which runs start. -/
def Sys.Quiet (s : Sys σ κ ρ) : Prop := s.notifying = 0 ∧ ∀ c, (s.client c).phase = .idle

/-- The states of the system over all runs. -/
def Reaches (R : Rules σ κ ρ) (s : Sys σ κ ρ) : Prop :=
  ∃ s₀, s₀.Quiet ∧ ReflTransGen (Step R) s₀ s

/-- Writes without a notification make no blocked client ready and stop nothing; polls find nothing
only for clients that are not ready, and make no one ready. -/
structure Rules.Sound (R : Rules σ κ ρ) : Prop where
  write_ready : ∀ {s w}, R.write s w false → s.notifying = 0 → ∀ c, (s.client c).Blocked →
    R.ready (s.client c).request w → R.ready (s.client c).request s.world
  write_stopped : ∀ {s w}, R.write s w false → R.stopped w → R.stopped s.world
  poll_not_ready : ∀ {q w w'}, R.pollNone q w w' → ¬ R.ready q w'
  poll_ready : ∀ {q w w'}, R.pollNone q w w' → ∀ q', R.ready q' w' → R.ready q' w
  poll_stopped : ∀ {q w w'}, R.pollNone q w w' → R.stopped w' → R.stopped w

/-! ## The invariant -/

/-- A blocked client has lost nothing: it is not ready, and if it waits nothing has been stopped. -/
def Kept (R : Rules σ κ ρ) (w : σ) (c : Client ρ) : Prop :=
  c.Blocked → ¬ R.ready c.request w ∧ (c.phase = .waiting → ¬ R.stopped w)

/-- Unless a notification is on its way, no client has lost anything. -/
def Inv (R : Rules σ κ ρ) (s : Sys σ κ ρ) : Prop := s.notifying = 0 → ∀ c, Kept R s.world (s.client c)

variable {R : Rules σ κ ρ} {s s' : Sys σ κ ρ}

omit [DecidableEq κ] in
theorem Sys.Quiet.inv (h : s.Quiet) : Inv R s := by
  rintro - c ⟨hp | hp, -⟩ <;> rw [h.2 c] at hp <;> cases hp

/-- One client moves, the others and the world stay. -/
theorem Inv.setClient (h : Inv R s) {c : κ} {x : Client ρ}
    (hx : s.notifying = 0 → Kept R s.world x) : Inv R (s.setClient c x) := by
  intro hn c'
  show Kept R s.world (Function.update s.client c x c')
  by_cases hc : c' = c
  · subst hc
    rw [Function.update_self]
    exact hx hn
  · rw [Function.update_of_ne hc]
    exact h hn c'

omit [DecidableEq κ] in
/-- A client that is not blocked has nothing to lose. -/
theorem kept_of_phase {c : Client ρ} {w : σ} (hp : c.phase ≠ .polled) (hw : c.phase ≠ .waiting) :
    Kept R w c :=
  fun hb => (hb.1.elim hp hw).elim

theorem Step.inv (hR : R.Sound) (st : Step R s s') (h : Inv R s) : Inv R s' := by
  cases st with
  | write w b hw =>
    intro hn c hb
    cases b with
    | true => exact absurd hn (Nat.succ_ne_zero _)
    | false =>
      obtain ⟨hready, hstop⟩ := h hn c hb
      refine ⟨fun hr => hready (hR.write_ready hw hn c hb hr), fun hwait hs => ?_⟩
      exact hstop hwait (hR.write_stopped hw hs)
  | notify hpos => exact fun _ c hb => absurd hb (Client.not_blocked_mark _)
  | call c q _ => exact h.setClient fun _ => kept_of_phase nofun nofun
  | pollNone c w _ hp =>
    have hworld : Inv R ({ s with world := w } : Sys σ κ ρ) := by
      intro hn c' hb
      obtain ⟨hready, hstop⟩ := h hn c' hb
      exact ⟨fun hr => hready (hR.poll_ready hp _ hr),
        fun hwait hs => hstop hwait (hR.poll_stopped hp hs)⟩
    exact hworld.setClient fun _ _ => ⟨hR.poll_not_ready hp, nofun⟩
  | wait c hp hs =>
    exact h.setClient fun hn hb => ⟨(h hn c ⟨.inl hp, hb.2⟩).1, fun _ => hs⟩
  | wake c _ _ => exact h.setClient fun _ => kept_of_phase nofun nofun
  | again c hp => exact h.setClient fun hn hb => ⟨(h hn c ⟨.inr hp, hb.2⟩).1, nofun⟩
  | leave c => exact h.setClient fun _ => kept_of_phase nofun nofun

theorem Reaches.inv (hR : R.Sound) (h : Reaches R s) : Inv R s := by
  obtain ⟨s₀, hs₀, run⟩ := h
  induction run with
  | refl => exact hs₀.inv
  | tail _ st ih => exact st.inv hR ih

/-- A client that waits for a waiter that no notification has marked, with none on its way, is not
ready, and nothing has been stopped. -/
theorem Reaches.not_lost (hR : R.Sound) (h : Reaches R s) {c : κ}
    (hw : (s.client c).phase = .waiting) (hm : (s.client c).marked = false)
    (hn : s.notifying = 0) : ¬ R.ready (s.client c).request s.world ∧ ¬ R.stopped s.world :=
  (h.inv hR hn c ⟨.inr hw, hm⟩).imp_right fun hs => hs hw

end Steps

/-! ## One client -/

section Single

variable {R : Rules σ Unit ρ} {q : ρ} {w w' : σ} {m : Bool} {n : ℕ}

/-- The world of a single client, which has made a request and waits. -/
def waiting (q : ρ) (w : σ) (m : Bool) (n : ℕ) : Sys σ Unit ρ := ⟨w, fun _ => ⟨.waiting, m, q⟩, n⟩

theorem setClient_single (c x : Client ρ) :
    (⟨w, fun _ => c, n⟩ : Sys σ Unit ρ).setClient () x = ⟨w, fun _ => x, n⟩ := by
  unfold Sys.setClient
  rw [Function.update_eq_const_of_subsingleton]
  rfl

/-- An armed client polls in vain and waits. -/
theorem steps_waiting (hp : R.pollNone q w w') (hs : ¬ R.stopped w') :
    ReflTransGen (Step R) ⟨w, fun _ => ⟨.armed, false, q⟩, n⟩ (waiting q w' false n) := by
  have hpoll := Step.pollNone (s := ⟨w, fun _ => ⟨.armed, false, q⟩, n⟩) () w' rfl hp
  have hwait := Step.wait (R := R) (s := ⟨w', fun _ => ⟨.polled, false, q⟩, n⟩) () rfl hs
  rw [setClient_single] at hpoll hwait
  exact .tail (.single hpoll) hwait

/-- The client makes its request, polls in vain and waits. -/
theorem reaches_waiting (hp : R.pollNone q w w') (hs : ¬ R.stopped w') :
    Reaches R (waiting q w' false 0) := by
  have hcall := Step.call (R := R) (s := ⟨w, fun _ => ⟨.idle, false, q⟩, 0⟩) () q rfl
  rw [setClient_single] at hcall
  exact ⟨_, ⟨rfl, fun _ => rfl⟩, .head hcall (steps_waiting hp hs)⟩

/-- Another party writes, and is to notify or not. -/
theorem Reaches.write_waiting {b : Bool} (h : Reaches R (waiting q w m n))
    (hw : R.write (waiting q w m n) w' b) :
    Reaches R (waiting q w' m (if b then n + 1 else n)) := by
  obtain ⟨s₀, hquiet, run⟩ := h
  exact ⟨s₀, hquiet, run.tail (.write w' b hw)⟩

/-- A notification comes. -/
theorem Reaches.notify_waiting (h : Reaches R (waiting q w m (n + 1))) :
    Reaches R (waiting q w true n) := by
  obtain ⟨s₀, hquiet, run⟩ := h
  exact ⟨s₀, hquiet, run.tail (.notify (Nat.succ_pos n))⟩

/-- The client is woken, polls in vain and waits again. -/
theorem Reaches.wake_waiting (h : Reaches R (waiting q w true n)) (hp : R.pollNone q w w')
    (hs : ¬ R.stopped w') : Reaches R (waiting q w' false n) := by
  obtain ⟨s₀, hquiet, run⟩ := h
  have hwake := Step.wake (R := R) (s := waiting q w true n) () rfl rfl
  rw [waiting, setClient_single] at hwake
  exact ⟨s₀, hquiet, (run.tail hwake).trans (steps_waiting hp hs)⟩

end Single

end Notify
