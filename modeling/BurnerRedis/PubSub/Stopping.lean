import BurnerRedis.PubSub.Forwarding

/-!
# A listener that is stopped leaves

Once a task is told to stop it puts no message any more, but for one that it is in the middle of
putting, and after three more steps of its own it is gone (`stopped_listener_leaves`), whatever the
receiver does.
-/

namespace BurnerRedis

namespace ListenerSystem

variable {ρ : Type} {R : Receiver ρ} {s : ListenerSystem ρ} {i : ℕ} {l : Listener ρ}

/-- The most steps of its own that a task takes before it is gone, once its flag is raised and its
signal fired. -/
def stepsLeft : ListenerPoint → ℕ
  | .exited => 0
  | .selecting | .received _ => 1
  | .receiving | .attached _ | .putting _ => 2
  | .attaching _ => 3

theorem stepsLeft_le (p : ListenerPoint) : stepsLeft p ≤ 3 := by
  cases p <;> simp [stepsLeft]

theorem exited_of_stepsLeft {p : ListenerPoint} (h : stepsLeft p = 0) : p = .exited := by
  cases p <;> simp [stepsLeft] at h ⊢

theorem stepsLeft_step (w : Surroundings) (hflag : l.stopFlag = true) (hfired : l.stopFired = true) :
    stepsLeft (l.step R w).point ≤ stepsLeft l.point - 1 := by
  obtain ⟨point, flag, fired, rx, taken, reported, queue⟩ := l
  obtain rfl : flag = true := hflag
  obtain rfl : fired = true := hfired
  cases point with
  | selecting => simp [Listener.step, stepsLeft]
  | receiving =>
    rcases hr : R.recv w.closed rx with ⟨answer, rx'⟩
    cases answer <;> simp [Listener.step, hr, stepsLeft]
  | received m => simp [Listener.step, stepsLeft]
  | attaching m => cases hf : w.finalizing <;> simp [Listener.step, hf, stepsLeft]
  | attached m => simp [Listener.step, stepsLeft]
  | putting m => cases hp : w.putFails <;> simp [Listener.step, hp, stepsLeft]
  | exited => simp [Listener.step, stepsLeft]

/-- A task that is told to stop leaves. -/
theorem leaves (hl : s.listeners[i]? = some l) (hflag : l.stopFlag = true)
    (hfired : l.stopFired = true) (events : List Event) :
    ∃ l', (s.run R events).listeners[i]? = some l' ∧
      stepsLeft l'.point ≤ stepsLeft l.point - stepsOf i events := by
  have hI : ∀ events ev l₁ l₂,
      (l₁.stopFlag = true ∧ l₁.stopFired = true ∧
        stepsLeft l₁.point ≤ stepsLeft l.point - stepsOf i events) → Change R i ev l₁ l₂ →
      (l₂.stopFlag = true ∧ l₂.stopFired = true ∧
        stepsLeft l₂.point ≤ stepsLeft l.point - stepsOf i (events ++ [ev])) := by
    rintro events ev l₁ l₂ ⟨hf, hs, hle⟩ hc
    cases hc with
    | send m =>
      rw [Listener.send_stopFlag, Listener.send_stopFired, Listener.send_point, stepsOf_append]
      exact ⟨hf, hs, hle⟩
    | step w =>
      have hstep := stepsLeft_step (R := R) w hf hs
      have hone : stepsOf i [Event.step i w] = 1 := by simp [stepsOf]
      rw [(l₁.step_flags w).1, (l₁.step_flags w).2, stepsOf_append, hone]
      exact ⟨hf, hs, by omega⟩
    | signal _ hk hsig =>
      rw [stepsOf_append, hk, Nat.add_zero]
      rcases hsig with rfl | rfl | rfl
      · exact ⟨hf, hs, hle⟩
      · exact ⟨rfl, hs, hle⟩
      · exact ⟨hf, rfl, hle⟩
  obtain ⟨l', hl', -, -, hle⟩ := run_invariant hI hl ⟨hflag, hfired, le_rfl⟩ events
  exact ⟨l', hl', hle⟩

/-- A task that was told to stop has put nothing since but the message that it was putting. -/
structure Quits (l l' : Listener ρ) : Prop where
  done : l'.stopFlag = true ∨ l'.point = .exited
  queue : l'.queue = l.queue ∧ (∀ m, l'.point = .putting m → l.point = .putting m) ∨
    ∃ m, l.point = .putting m ∧ l'.queue = l.queue ++ [m] ∧ ∀ m', l'.point ≠ .putting m'

theorem Quits.change {ev : Event} {l' l'' : Listener ρ} (h : Quits l l') (hc : Change R i ev l' l'') :
    Quits l l'' := by
  cases hc with
  | send m =>
    refine ⟨?_, ?_⟩
    · rw [Listener.send_stopFlag, Listener.send_point]
      exact h.done
    · rw [Listener.send_queue, Listener.send_point]
      exact h.queue
  | step w =>
    obtain ⟨hbegins, hputs⟩ := Listener.step_stopped (R := R) w h.done
    refine ⟨h.done.imp (fun hf => by rw [(l'.step_flags w).1, hf])
      (fun he => by rw [Listener.step_exited w he, he]), ?_⟩
    rcases h.queue with ⟨hq, hp⟩ | ⟨m, hm, hq, hp⟩
    · rcases hputs with hsame | ⟨m, hm, hput⟩
      · exact .inl ⟨hsame.trans hq, fun m hm => absurd hm (hbegins m)⟩
      · exact .inr ⟨m, hp m hm, by rw [hput, hq], hbegins⟩
    · rcases hputs with hsame | ⟨m', hm', -⟩
      · exact .inr ⟨m, hm, hsame.trans hq, hbegins⟩
      · exact absurd hm' (hp m')
  | signal hs hk hsig =>
    rcases hsig with rfl | rfl | rfl
    · exact h
    · exact ⟨.inl rfl, h.queue⟩
    · exact ⟨h.done, h.queue⟩

theorem quits (hl : s.listeners[i]? = some l) (h : l.stopFlag = true ∨ l.point = .exited)
    (events : List Event) : ∃ l', (s.run R events).listeners[i]? = some l' ∧
      (l'.queue = l.queue ∨ ∃ m, l.point = .putting m ∧ l'.queue = l.queue ++ [m]) := by
  have hself : Quits l l := ⟨h, .inl ⟨rfl, fun _ hm => hm⟩⟩
  obtain ⟨l', hl', hq⟩ := run_invariant (I := fun _ => Quits l) (fun _ _ _ _ => Quits.change) hl
    hself events
  refine ⟨l', hl', ?_⟩
  rcases hq.queue with ⟨hqueue, -⟩ | ⟨m, hm, hqueue, -⟩
  · exact .inl hqueue
  · exact .inr ⟨m, hm, hqueue⟩

theorem flag_stays (hl : s.listeners[i]? = some l) (hflag : l.stopFlag = true)
    (events : List Event) :
    ∃ l', (s.run R events).listeners[i]? = some l' ∧ l'.stopFlag = true := by
  refine run_invariant (I := fun _ l => l.stopFlag = true) (fun _ _ l₁ _ hf hc => ?_) hl hflag events
  cases hc with
  | send m => rw [Listener.send_stopFlag, hf]
  | step w => rw [(l₁.step_flags w).1, hf]
  | signal _ _ hsig =>
    rcases hsig with rfl | rfl | rfl
    · exact hf
    · rfl
    · exact hf

/-- A task that is gone leaves its queue alone. -/
theorem gone_stays (hl : s.listeners[i]? = some l) (hexit : l.point = .exited)
    (events : List Event) : ∃ l', (s.run R events).listeners[i]? = some l' ∧ l'.queue = l.queue := by
  obtain ⟨l', hl', hq⟩ := quits hl (.inr hexit) events
  refine ⟨l', hl', hq.resolve_right ?_⟩
  rintro ⟨m, hm, -⟩
  rw [hexit] at hm
  cases hm

theorem stop_raises {id : UInt64} (hid : s.stoppers[id]? = some i) (hl : s.listeners[i]? = some l) :
    (s.run1 R (.stop id)).listeners[i]? = some l.raise := by
  simp only [run1, hid]
  rw [setAt_getElem? hl, if_pos rfl]

theorem fire_fires (hl : s.listeners[i]? = some l) (hflag : l.stopFlag = true) :
    (s.run1 R (.fire i)).listeners[i]? = some l.fire := by
  rw [run1, setAt_getElem? hl, if_pos rfl, if_pos hflag]

theorem run_append (s : ListenerSystem ρ) (events events' : List Event) :
    s.run R (events ++ events') = (s.run R events).run R events' :=
  List.foldl_append ..

/-- The task of a subscriber whose listener is stopped puts nothing from then on, but for a message
that it is in the middle of putting. Three steps of its own after the signal it is gone, and once it
is gone its queue is left alone: whatever happens meanwhile. -/
theorem stopped_listener_leaves {id : UInt64} (hid : s.stoppers[id]? = some i)
    (hl : s.listeners[i]? = some l) (meanwhile after later : List Event) :
    ∃ l₁ l₂, (s.run R (.stop id :: (meanwhile ++ .fire i :: after))).listeners[i]? = some l₁ ∧
      (s.run R (.stop id :: (meanwhile ++ .fire i :: after) ++ later)).listeners[i]? = some l₂ ∧
      (l₁.queue = l.queue ∨ ∃ m, l.point = .putting m ∧ l₁.queue = l.queue ++ [m]) ∧
      (3 ≤ stepsOf i after → l₁.point = .exited) ∧
      (l₁.point = .exited → l₂.queue = l₁.queue) := by
  have hraised := stop_raises (R := R) hid hl
  obtain ⟨l₁, hl₁, hqueue⟩ := quits hraised (.inl rfl) (meanwhile ++ .fire i :: after)
  have hflag₁ : l₁.stopFlag = true := by
    obtain ⟨l', hl', hflag⟩ := flag_stays hraised rfl (meanwhile ++ .fire i :: after)
    obtain rfl := Option.some.inj (hl₁.symm.trans hl')
    exact hflag
  obtain ⟨l₂, hl₂, -⟩ := quits hl₁ (.inl hflag₁) later
  refine ⟨l₁, l₂, hl₁, ?_, hqueue, fun h3 => ?_, fun hexit => ?_⟩
  · rw [run_append]
    exact hl₂
  · obtain ⟨lm, hlm, hflag⟩ := flag_stays hraised rfl meanwhile
    obtain ⟨l', hl', hleft⟩ := leaves (fire_fires hlm hflag) hflag rfl after
    have hrun : (s.run1 R (.stop id)).run R (meanwhile ++ .fire i :: after) =
        (((s.run1 R (.stop id)).run R meanwhile).run1 R (.fire i)).run R after := run_append ..
    rw [hrun, hl'] at hl₁
    obtain rfl := Option.some.inj hl₁
    have hle := stepsLeft_le lm.fire.point
    exact exited_of_stepsLeft (by omega)
  · obtain ⟨l', hl', hq⟩ := gone_stays hl₁ hexit later
    obtain rfl := Option.some.inj (hl₂.symm.trans hl')
    exact hq

/-- A task with two messages, one of which it is putting when its subscriber is stopped. -/
def stoppedInPut : ListenerSystem (List PubSubMessage × ℕ) :=
  run slots ⟨[], ∅⟩ [.spawn, .register 7 0, .send ⟨.message, none, [1], [2]⟩,
    .send ⟨.message, none, [1], [3]⟩, .step 0 {}, .step 0 {}, .step 0 {}, .step 0 {}, .step 0 {}]

theorem stoppedInPut_leaves :
    ∃ l₁ l₂, (stoppedInPut.run slots (.stop 7 :: ([.step 0 {}] ++ .fire 0 :: [.step 0 {},
        .step 0 {}, .step 0 {}]))).listeners[0]? = some l₁ ∧
      (stoppedInPut.run slots (.stop 7 :: ([.step 0 {}] ++ .fire 0 :: [.step 0 {}, .step 0 {},
        .step 0 {}]) ++ [.send ⟨.message, none, [1], [4]⟩])).listeners[0]? = some l₂ ∧
      (l₁.queue = [] ∨ ∃ m, ListenerPoint.putting ⟨.message, none, [1], [2]⟩ = .putting m ∧
        l₁.queue = [] ++ [m]) ∧
      (3 ≤ stepsOf 0 [.step 0 {}, .step 0 {}, .step 0 {}] → l₁.point = .exited) ∧
      (l₁.point = .exited → l₂.queue = l₁.queue) :=
  stopped_listener_leaves (s := stoppedInPut)
    (l := ⟨.putting ⟨.message, none, [1], [2]⟩, false, false, ([⟨.message, none, [1], [3]⟩], 0),
      [⟨.message, none, [1], [2]⟩], 0, []⟩) (by decide +kernel) (by decide +kernel) _ _ _

end ListenerSystem

end BurnerRedis
