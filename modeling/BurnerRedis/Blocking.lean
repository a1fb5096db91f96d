import BurnerRedis.Lib.Notify
import BurnerRedis.Machine

/-!
# Blocking clients

The world of the clients that block on a store: its clock, its contents and the shutdown flag.
`Event` is what any other party can do to it, together with the clients that party then wakes. A write
takes effect under the lock of the data; its notification comes later, and a script's after the lock
has been released, unless a panic ends the script (`Event.Silenced`).
-/

namespace BurnerRedis

/-- A store, the time and whether it is being shut down. -/
structure World (S : Type) [LinearOrder S] where
  now : Instant
  store : Store S
  shutdown : Bool

section Events

variable {S : Type} [Score S]

/-- What any other party can do: let time pass, act on the store, shut it down. -/
inductive Event (S : Type) where
  | time (t : Duration)
  | act (a : Action S)
  | shutdown

/-- The world after an event, and who is woken for it. -/
def Event.run (sha1 : String → String) (w : World S) : Event S → World S × Wake
  | .time t => ({ w with now := w.now + t }, {})
  | .act a =>
    let r := a.run sha1 w.now w.store
    (⟨r.1, r.2.1, w.shutdown⟩, r.2.2)
  | .shutdown => ({ w with shutdown := true }, { stream := true, list := true })

/-- The clients that the event has something for: its commands ask to wake them. -/
def Event.flags (w : World S) : Event S → Wake
  | .time _ => {}
  | .act a => a.flags w.now w.store
  | .shutdown => { stream := true, list := true }

/-- The effects of an event besides those that clients are woken for. -/
def Event.effects : Event S → Set Effect
  | .act a => a.effects
  | _ => ∅

/-- The effects that actions have without waking anyone. -/
def silentEffects : Set Effect := {.create, .deliver, .ack, .force}

omit [Score S] in
theorem Action.effects_subset (a : Action S) : a.effects ⊆ silentEffects := by
  cases a with
  | op _ _ o => cases o <;> simp [Action.effects, Op.effects, silentEffects]
  | eval => simp [Action.effects, scriptEffects, silentEffects, Set.insert_subset_iff]
  | evalsha => simp [Action.effects, scriptEffects, silentEffects, Set.insert_subset_iff]
  | scriptLoad _ => exact Set.empty_subset _

omit [Score S] in
theorem Event.effects_subset (ev : Event S) : ev.effects ⊆ silentEffects := by
  cases ev with
  | act a => exact a.effects_subset
  | _ => exact Set.empty_subset _

/-- The data moves with the effects of the event's commands and the silent ones. -/
theorem Event.run_moves (sha1 : String → String) (w : World S) (ev : Event S) :
    Moves ((ev.flags w).effects ∪ ev.effects) (w.now, w.store.data)
      ((ev.run sha1 w).1.now, (ev.run sha1 w).1.store.data) := by
  cases ev with
  | time t => exact .single (.wait w.now w.store.data t)
  | act a => exact a.run_moves sha1 w.now w.store
  | shutdown => exact .refl

/-- Only a shutdown sets the flag, and it wakes everyone. -/
theorem Event.run_shutdown {sha1 : String → String} {w : World S} {ev : Event S}
    (h : (ev.run sha1 w).1.shutdown = true) :
    w.shutdown = true ∨ (ev.run sha1 w).2.stream = true ∧ (ev.run sha1 w).2.list = true := by
  cases ev with
  | time => exact .inl h
  | act => exact .inl h
  | shutdown => exact .inr ⟨rfl, rfl⟩

/-! ## Panics -/

/-- Calls of the script have had the effect, the next one computes a deadline that the clock cannot
count and does not catch the panic, and `P` is true at that moment. -/
def Script.Silenced (x : Effect) (P : Instant → Data S → Prop) (now : Instant)
    (calls : List Script.Call) (d : Data S) : Prop :=
  ∃ before c after, calls = before ++ c :: after ∧ c.caught = false ∧
    (Script.runScript now before d).panicked = false ∧
    x ∈ (Script.runScript now before d).flags.effects ∧
    Script.Overflows (c.env (Script.runScript now before d).now)
      (Script.runScript now before d).data c.cmd c.args ∧
    P ((Script.runScript now before d).now + c.wait) (Script.runScript now before d).data

/-- The event is such a script. -/
def Event.Silenced (x : Effect) (P : Instant → Data S → Prop) (w : World S) : Event S → Prop
  | .act (.eval _ calls) => Script.Silenced x P w.now calls w.store.data
  | .act (.evalsha sha calls) =>
    sha ∈ w.store.scripts ∧ Script.Silenced x P w.now calls w.store.data
  | _ => False

variable {x : Effect} {P : Instant → Data S → Prop}

/-- A script of one call has had no effect before it. -/
theorem Script.not_silenced_single {now : Instant} {c : Script.Call} {d : Data S} :
    ¬ Script.Silenced x P now [c] d := by
  rintro ⟨before, c', after, hcalls, -, -, hx, -⟩
  cases before with
  | nil => simp [Script.runScript] at hx
  | cons c₀ before =>
    have hlen := congrArg List.length hcalls
    simp at hlen

/-- A script wakes the clients for its effects unless a panic keeps it from that. -/
theorem Script.mem_wake_or_silenced
    (hP : ∀ now key d, P now (purge now key d) → P now d) {now : Instant}
    {calls : List Script.Call} {d : Data S} (h : x ∈ (Script.runScript now calls d).flags.effects)
    (hlast : P (Script.runScript now calls d).now (Script.runScript now calls d).data) :
    x ∈ (Script.runScript now calls d).wake.effects ∨ Script.Silenced x P now calls d := by
  cases hp : (Script.runScript now calls d).panicked with
  | false =>
    left
    rwa [Script.Ending.wake, if_neg (Bool.eq_false_iff.mp hp)]
  | true =>
    obtain ⟨before, c, after, hcalls, hc, hnot, hflags, hover, hnow, key, hdata⟩ :=
      Script.runScript_panicked hp
    rw [hnow, hdata] at hlast
    exact .inr ⟨before, c, after, hcalls, hc, hnot, hflags ▸ h, hover, hP _ key _ hlast⟩

theorem Event.mem_wake_or_silenced (hP : ∀ now key d, P now (purge now key d) → P now d)
    {sha1 : String → String} {w : World S} {ev : Event S} (h : x ∈ (ev.flags w).effects)
    (hlast : P (ev.run sha1 w).1.now (ev.run sha1 w).1.store.data) :
    x ∈ (ev.run sha1 w).2.effects ∨ ev.Silenced x P w := by
  cases ev with
  | time t => exact .inl h
  | shutdown => exact .inl h
  | act a =>
    cases a with
    | op => exact .inl h
    | scriptLoad => exact .inl h
    | eval script calls => exact Script.mem_wake_or_silenced hP h hlast
    | evalsha sha calls =>
      unfold Event.flags Action.flags at h
      unfold Event.run Action.run at hlast ⊢
      dsimp only at h hlast ⊢
      split_ifs at h hlast ⊢ with hs
      · exact (Script.mem_wake_or_silenced hP h hlast).imp_right fun hsil => ⟨hs, hsil⟩
      · exact .inl h

/-- What needs the effect `x` to come true, and does, was true before: unless clients are woken for
`x`, or a panic keeps a script from waking them. -/
theorem Event.back {p : Set Effect}
    (hback : ∀ {m m' : Instant × Data S}, Moves p m m' → P m'.1 m'.2 → P m.1 m.2)
    {sha1 : String → String} {w : World S} {ev : Event S}
    (hp : (ev.flags w).effects ∪ ev.effects ⊆ insert x p) (hx : x ∉ silentEffects)
    (hquiet : x ∉ (ev.run sha1 w).2.effects) (hsil : ¬ ev.Silenced x P w)
    (h : P (ev.run sha1 w).1.now (ev.run sha1 w).1.store.data) : P w.now w.store.data := by
  by_cases hflag : x ∈ (ev.flags w).effects
  · have hpurge : ∀ now key (d : Data S), P now (purge now key d) → P now d := fun _ _ _ hk =>
      hback purge_edits.moves hk
    exact absurd (Event.mem_wake_or_silenced hpurge hflag h) (not_or.mpr ⟨hquiet, hsil⟩)
  · refine hback ((ev.run_moves sha1 w).mono fun y hy => ?_) h
    refine (hp hy).resolve_left ?_
    rintro rfl
    exact hy.elim hflag fun he => hx (ev.effects_subset he)

/-- The event is no such script for a client that is blocked and that no notification has reached or
is about to reach; `ready` says when a request could be answered. -/
def SilencesNoOne {κ ρ : Type} (x : Effect) (ready : ρ → Instant → Data S → Prop)
    (s : Notify.Sys (World S) κ ρ) (ev : Event S) : Prop :=
  s.notifying = 0 → ∀ c, (s.client c).Blocked → ¬ ev.Silenced x (ready (s.client c).request) s.world

theorem grow_not_mem {wake : Wake} (hw : wake.list = false) : Effect.grow ∉ wake.effects := by
  rintro (⟨h, -⟩ | ⟨-, h⟩)
  · cases h
  · rw [hw] at h
    cases h

theorem append_not_mem {wake : Wake} (hw : wake.stream = false) :
    Effect.append ∉ wake.effects := by
  rintro (⟨-, h⟩ | ⟨h, -⟩)
  · rw [hw] at h
    cases h
  · cases h

end Events

/-! ## What time and edits can bring about -/

section Moves

variable {S : Type} [LinearOrder S] {p : Set Effect} {key : Bytes}

/-- An entry that is live was live before. -/
theorem live_add {now : Instant} {d : Data S} {t : Duration} {en : ValueEntry S}
    (h : live (now + t) d key = some en) : live now d key = some en := by
  obtain ⟨hk, hx⟩ := live_eq_some.mp h
  refine live_eq_some.mpr ⟨hk, ?_⟩
  unfold ValueEntry.isExpired at hx ⊢
  cases hexp : en.expiresAt with
  | none => rfl
  | some exp =>
    rw [hexp] at hx
    have hlt : now + t < exp := not_le.mp (of_decide_eq_false hx)
    have hle : now ≤ now + t := Int.le_add_of_nonneg_right (Int.natCast_nonneg t)
    exact decide_eq_false (not_le.mpr (hle.trans_lt hlt))

/-- The live value after a write: the one before, or the one written. -/
theorem liveData_insert {now : Instant} {d : Data S} {k : Bytes} {en : ValueEntry S}
    {x : ValueData S} (h : liveData now (d.insert k en) key = some x) :
    k = key ∧ x = en.data ∨ liveData now d key = some x := by
  unfold liveData at h ⊢
  rw [live_insert] at h
  split_ifs at h with hk
  · obtain ⟨en', hen', rfl⟩ := Option.map_eq_some_iff.mp h
    obtain ⟨hsame, -⟩ := Option.filter_eq_some_iff.mp hen'
    exact .inl ⟨hk, congrArg ValueEntry.data (Option.some.inj hsame).symm⟩
  · exact .inr h

theorem liveData_erase {now : Instant} {d : Data S} {k : Bytes} {x : ValueData S}
    (h : liveData now (d.erase k) key = some x) : liveData now d key = some x := by
  unfold liveData at h ⊢
  rw [live_erase] at h
  split_ifs at h
  · cases h
  · exact h

/-- What the live values of a key satisfy, if it does not come from nothing, goes back in time:
a step lemma for `P`, lifted to runs. -/
theorem Moves.liveData_back {P : ValueData S → Prop}
    (hP : ∀ old x, Evolves p old x → P x → ∃ y, old = some y ∧ P y)
    {m m' : Instant × Data S} (mv : Moves p m m') {x : ValueData S}
    (h : liveData m'.1 m'.2 key = some x) (hx : P x) :
    ∃ y, liveData m.1 m.2 key = some y ∧ P y := by
  induction mv generalizing x with
  | refl => exact ⟨x, h, hx⟩
  | tail _ st ih =>
    cases st with
    | wait now d t =>
      obtain ⟨en, hen, rfl⟩ := Option.map_eq_some_iff.mp h
      have hbefore : liveData now d key = some en.data := by rw [liveData, live_add hen]; rfl
      exact ih hbefore hx
    | edit now d d' hd =>
      cases hd with
      | drop k => exact ih (liveData_erase h) hx
      | write k en hev =>
        rcases liveData_insert h with ⟨rfl, rfl⟩ | hold
        · obtain ⟨y, hy, hPy⟩ := hP _ _ hev hx
          exact ih hy hPy
        · exact ih hold hx

end Moves

/-! ## A world to start from -/

/-- An empty store one second after the clock's origin. -/
def freshStore : World ℤ := ⟨1000000000, ⟨∅, ∅⟩, false⟩

/-- The world after an event. -/
def worldAfter (ev : Event ℤ) (w : World ℤ) : World ℤ := (ev.run id w).1

end BurnerRedis
