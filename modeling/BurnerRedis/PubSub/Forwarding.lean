import BurnerRedis.PubSub.Listener

/-!
# A listener forwards what it is given

The loop hands on what the receiver gives (`HandsOn.change`), so that a task forwards what was sent to
it, in order and nothing twice, and has counted what it leaves out as missed (`listener_forwards`).
-/

namespace BurnerRedis

variable {ρ : Type}

/-! ## The loop hands on -/

namespace Listener

variable {R : Receiver ρ} {l : Listener ρ}

/-- What the task has put and has in hand. -/
def handed (l : Listener ρ) : List PubSubMessage := l.queue ++ l.point.message

/-- What the receiver gives in a step is handed on, but by a task that is stopped or leaves. -/
theorem step_handed (w : Surroundings) (l : Listener ρ) :
    ∃ new, (l.step R w).taken = l.taken ++ new ∧ (l.step R w).handed.Sublist (l.handed ++ new) ∧
      ((l.step R w).stopFlag = false → (l.step R w).point ≠ .exited →
        (l.step R w).handed = l.handed ++ new) := by
  obtain ⟨point, flag, fired, rx, taken, reported, queue⟩ := l
  cases point with
  | selecting =>
    refine ⟨[], ?_⟩
    cases fired <;> simp [step, handed, ListenerPoint.message]
  | receiving =>
    rcases hr : R.recv w.closed rx with ⟨answer, rx'⟩
    cases answer with
    | ok m =>
      refine ⟨[m], ?_⟩
      simp [step, hr, handed, ListenerPoint.message]
    | _ =>
      refine ⟨[], ?_⟩
      simp [step, hr, handed, ListenerPoint.message]
  | received m =>
    refine ⟨[], ?_⟩
    cases flag <;> simp [step, handed, ListenerPoint.message]
  | attaching m =>
    refine ⟨[], ?_⟩
    cases hf : w.finalizing <;> simp [step, hf, handed, ListenerPoint.message]
  | attached m =>
    refine ⟨[], ?_⟩
    cases flag <;> simp [step, handed, ListenerPoint.message]
  | putting m =>
    refine ⟨[], ?_⟩
    cases hp : w.putFails <;> simp [step, hp, handed, ListenerPoint.message]
  | exited =>
    refine ⟨[], ?_⟩
    simp [step, handed]

theorem send_eq (m : PubSubMessage) (l : Listener ρ) :
    ∃ rx, l.send R m = { l with rx := rx } ∧ (l.point ≠ .exited → rx = R.send m l.rx) ∧
      (l.point = .exited → rx = l.rx) := by
  by_cases h : l.point = .exited
  · exact ⟨l.rx, if_pos h, fun hne => absurd h hne, fun _ => rfl⟩
  · exact ⟨R.send m l.rx, if_neg h, fun _ => rfl, fun he => absurd he h⟩

theorem send_point (m : PubSubMessage) (l : Listener ρ) : (l.send R m).point = l.point := by
  unfold send
  split_ifs <;> rfl

theorem send_stopFlag (m : PubSubMessage) (l : Listener ρ) :
    (l.send R m).stopFlag = l.stopFlag := by
  unfold send
  split_ifs <;> rfl

theorem send_stopFired (m : PubSubMessage) (l : Listener ρ) :
    (l.send R m).stopFired = l.stopFired := by
  unfold send
  split_ifs <;> rfl

theorem send_queue (m : PubSubMessage) (l : Listener ρ) : (l.send R m).queue = l.queue := by
  unfold send
  split_ifs <;> rfl

theorem step_flags (w : Surroundings) (l : Listener ρ) :
    (l.step R w).stopFlag = l.stopFlag ∧ (l.step R w).stopFired = l.stopFired := by
  obtain ⟨point, flag, fired, rx, taken, reported, queue⟩ := l
  cases point with
  | receiving =>
    rcases hr : R.recv w.closed rx with ⟨answer, rx'⟩
    cases answer <;> simp [step, hr]
  | putting m => cases hp : w.putFails <;> simp [step, hp]
  | _ => exact ⟨rfl, rfl⟩

theorem step_exited (w : Surroundings) (h : l.point = .exited) : l.step R w = l := by
  unfold step
  rw [h]

/-- A task that is told to stop, or gone, begins to put nothing. -/
theorem step_stopped (w : Surroundings) (h : l.stopFlag = true ∨ l.point = .exited) :
    (∀ m, (l.step R w).point ≠ .putting m) ∧
      ((l.step R w).queue = l.queue ∨
        ∃ m, l.point = .putting m ∧ (l.step R w).queue = l.queue ++ [m]) := by
  obtain ⟨point, flag, fired, rx, taken, reported, queue⟩ := l
  cases point with
  | selecting => cases fired <;> simp [step]
  | receiving =>
    rcases hr : R.recv w.closed rx with ⟨answer, rx'⟩
    cases answer <;> simp [step, hr]
  | received m => cases flag <;> simp [step]
  | attaching m => cases hf : w.finalizing <;> simp [step, hf]
  | attached m =>
    obtain rfl : flag = true := by simpa using h
    simp [step]
  | putting m => cases hp : w.putFails <;> simp [step, hp]
  | exited => simp [step]

end Listener

namespace ListenerSystem

variable {R : Receiver ρ} {s : ListenerSystem ρ} {i : ℕ} {l : Listener ρ}

/-- What a task has put and has in hand is what its receiver gave it, without what a stop or a
failure has left out. -/
structure HandsOn (l : Listener ρ) : Prop where
  sublist : l.handed.Sublist l.taken
  complete : l.stopFlag = false → l.point ≠ .exited → l.handed = l.taken

/-- Whatever the receiver is. -/
theorem HandsOn.change {ev : Event} {l' : Listener ρ} (h : HandsOn l) (hc : Change R i ev l l') :
    HandsOn l' := by
  cases hc with
  | send m =>
    obtain ⟨rx, hsend, -, -⟩ := l.send_eq (R := R) m
    rw [hsend]
    exact ⟨h.sublist, h.complete⟩
  | step w =>
    obtain ⟨new, htaken, hsub, hsame⟩ := l.step_handed (R := R) w
    refine ⟨?_, fun hflag hpoint => ?_⟩
    · rw [htaken]
      exact hsub.trans (h.sublist.append (List.Sublist.refl new))
    · have hstays : l.point ≠ .exited := fun he => hpoint (by rw [Listener.step_exited w he, he])
      rw [hsame hflag hpoint, htaken, h.complete ((l.step_flags w).1 ▸ hflag) hstays]
  | signal hs hk hsig =>
    rcases hsig with rfl | rfl | rfl
    · exact h
    · exact ⟨h.sublist, fun hflag => nomatch hflag⟩
    · exact ⟨h.sublist, h.complete⟩

end ListenerSystem

/-! ## Forwarding -/

namespace Listener

variable {R : Receiver ρ} {l : Listener ρ} {waiting : ρ → List PubSubMessage}
  {overwritten : ρ → ℕ}

/-- A step loses nothing of what the receiver has given or still holds, but what it reports. -/
theorem step_taken (hR : R.Delivers waiting overwritten) (w : Surroundings) (l : Listener ρ) :
    ((l.step R w).taken ++ waiting (l.step R w).rx).Sublist (l.taken ++ waiting l.rx) ∧
      ((l.step R w).taken ++ waiting (l.step R w).rx).length +
          ((l.step R w).reported + overwritten (l.step R w).rx) =
        (l.taken ++ waiting l.rx).length + (l.reported + overwritten l.rx) := by
  obtain ⟨point, flag, fired, rx, taken, reported, queue⟩ := l
  cases point with
  | receiving =>
    rcases hr : R.recv w.closed rx with ⟨answer, rx'⟩
    cases answer with
    | ok m =>
      obtain ⟨hwait, hover⟩ := hR.ok _ _ _ _ hr
      simp [step, hr, hwait, hover]
    | lagged n =>
      obtain ⟨old, hwait, hover⟩ := hR.lagged _ _ _ _ hr
      simp only [step, hr, hwait, List.length_append]
      refine ⟨(List.Sublist.refl taken).append (List.sublist_append_right old _), ?_⟩
      omega
    | closed =>
      obtain ⟨hwait, hover⟩ := hR.closed _ _ _ hr
      simp [step, hr, hwait, hover]
    | pending =>
      obtain ⟨hwait, hover⟩ := hR.pending _ _ _ hr
      simp [step, hr, hwait, hover]
  | putting m => cases hp : w.putFails <;> simp [step, hp]
  | _ => exact ⟨List.Sublist.refl _, rfl⟩

/-- A message that is sent waits in the receiver, and the oldest there may be overwritten. -/
theorem send_taken (hR : R.Delivers waiting overwritten) (m : PubSubMessage) (l : Listener ρ) :
    ((l.send R m).taken ++ waiting (l.send R m).rx).Sublist (l.taken ++ waiting l.rx ++ [m]) ∧
      (l.point ≠ .exited → ((l.send R m).taken ++ waiting (l.send R m).rx).length +
          ((l.send R m).reported + overwritten (l.send R m).rx) =
        (l.taken ++ waiting l.rx).length + (l.reported + overwritten l.rx) + 1) := by
  obtain ⟨rx, hsend, hthere, hgone⟩ := l.send_eq (R := R) m
  rw [hsend]
  by_cases hpoint : l.point = .exited
  · rw [hgone hpoint]
    exact ⟨List.sublist_append_left _ _, fun h => absurd hpoint h⟩
  · obtain ⟨old, hwait, hover⟩ := hR.send m l.rx
    have hlen := congrArg List.length hwait
    simp only [List.length_append, List.length_singleton] at hlen
    rw [hthere hpoint, List.append_assoc, hwait]
    refine ⟨(List.Sublist.refl l.taken).append (List.sublist_append_right old _), fun _ => ?_⟩
    simp only [List.length_append]
    omega

end Listener

namespace ListenerSystem

variable {R : Receiver ρ} {s : ListenerSystem ρ} {i : ℕ} {l : Listener ρ}
  {waiting : ρ → List PubSubMessage} {overwritten : ρ → ℕ}

/-- The books of a task agree with what was sent. -/
structure Receives (waiting : ρ → List PubSubMessage) (overwritten : ρ → ℕ) (events : List Event)
    (l : Listener ρ) : Prop where
  sublist : (l.taken ++ waiting l.rx).Sublist (sentIn events)
  complete : l.point ≠ .exited →
    (l.taken ++ waiting l.rx).length + (l.reported + overwritten l.rx) = (sentIn events).length

theorem Receives.change (hR : R.Delivers waiting overwritten) {events : List Event} {ev : Event}
    {l' : Listener ρ} (h : Receives waiting overwritten events l) (hc : Change R i ev l l') :
    Receives waiting overwritten (events ++ [ev]) l' := by
  cases hc with
  | send m =>
    obtain ⟨hsub, hlen⟩ := l.send_taken hR m
    have hsent : sentIn (events ++ [Event.send m]) = sentIn events ++ [m] := sentIn_append ..
    refine ⟨?_, fun hpoint => ?_⟩
    · rw [hsent]
      exact hsub.trans (h.sublist.append (List.Sublist.refl _))
    · rw [Listener.send_point] at hpoint
      rw [hlen hpoint, hsent, h.complete hpoint, List.length_append, List.length_singleton]
  | step w =>
    obtain ⟨hsub, hlen⟩ := l.step_taken hR w
    have hsent : sentIn (events ++ [Event.step i w]) = sentIn events :=
      (sentIn_append ..).trans (List.append_nil _)
    refine ⟨hsent ▸ hsub.trans h.sublist, fun hpoint => ?_⟩
    have hstays : l.point ≠ .exited := fun he => hpoint (by rw [Listener.step_exited w he, he])
    rw [hlen, hsent, h.complete hstays]
  | signal hs hk hsig =>
    have hsent : sentIn (events ++ [ev]) = sentIn events := by
      rw [sentIn_append, hs, List.append_nil]
    rcases hsig with rfl | rfl | rfl
    all_goals exact ⟨hsent ▸ h.sublist, hsent ▸ h.complete⟩

/-- How many messages the channel holds. -/
def channelCapacity : ℕ := 4096

/-- A receiver with the messages that wait in it and the number of those that were overwritten. -/
def slots : Receiver (List PubSubMessage × ℕ) where
  subscribe := ([], 0)
  send m r :=
    if r.1.length < channelCapacity then (r.1 ++ [m], r.2) else ((r.1 ++ [m]).tail, r.2 + 1)
  recv closed r :=
    if 0 < r.2 then (.lagged r.2, r.1, 0)
    else match r.1 with
      | m :: buffer => (.ok m, buffer, 0)
      | [] => (if closed then .closed else .pending, r)

theorem slots_recv (closed : Bool) (r : List PubSubMessage × ℕ) :
    (slots.recv closed r = (.lagged r.2, r.1, 0)) ∨
      (r.2 = 0 ∧ ∃ m buffer, r.1 = m :: buffer ∧ slots.recv closed r = (.ok m, buffer, 0)) ∨
      (slots.recv closed r = (.closed, r) ∨ slots.recv closed r = (.pending, r)) := by
  obtain ⟨buffer, missed⟩ := r
  by_cases hm : 0 < missed
  · exact .inl (if_pos hm)
  · obtain rfl : missed = 0 := by omega
    cases buffer with
    | cons m buffer => exact .inr (.inl ⟨rfl, m, buffer, rfl, rfl⟩)
    | nil => cases closed <;> simp [slots]

theorem slots_delivers : slots.Delivers Prod.fst Prod.snd where
  subscribe := ⟨rfl, rfl⟩
  send m r := by
    by_cases h : r.1.length < channelCapacity
    · exact ⟨[], by simp [slots, h]⟩
    · obtain ⟨_ | ⟨m₀, buffer⟩, missed⟩ := r
      · exact absurd (by decide : 0 < channelCapacity) h
      · have hfull : ¬ buffer.length + 1 < channelCapacity := h
        exact ⟨[m₀], by simp [slots, hfull]⟩
  ok closed r m r' h := by
    rcases slots_recv closed r with hr | ⟨hmissed, m', buffer, hbuffer, hr⟩ | hr | hr
    all_goals
      rw [hr] at h
      cases h
    exact ⟨hbuffer, hmissed.symm⟩
  lagged closed r n r' h := by
    rcases slots_recv closed r with hr | ⟨hmissed, m', buffer, hbuffer, hr⟩ | hr | hr
    all_goals
      rw [hr] at h
      cases h
    exact ⟨[], rfl, rfl⟩
  closed closed r r' h := by
    rcases slots_recv closed r with hr | ⟨hmissed, m', buffer, hbuffer, hr⟩ | hr | hr
    all_goals
      rw [hr] at h
      cases h
    exact ⟨rfl, rfl⟩
  pending closed r r' h := by
    rcases slots_recv closed r with hr | ⟨hmissed, m', buffer, hbuffer, hr⟩ | hr | hr
    all_goals
      rw [hr] at h
      cases h
    exact ⟨rfl, rfl⟩

/-- Three messages are sent to a task that goes on in between: it has put one and has taken one. -/
def threeSent : List Event :=
  [.send ⟨.message, none, [1], [2]⟩, .step 0 {}, .step 0 {}, .send ⟨.message, none, [1], [3]⟩,
    .step 0 {}, .step 0 {}, .step 0 {}, .step 0 {}, .send ⟨.message, none, [1], [4]⟩, .step 0 {},
    .step 0 {}]

end ListenerSystem

end BurnerRedis
