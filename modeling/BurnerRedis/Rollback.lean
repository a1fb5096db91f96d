import BurnerRedis.Invariants
import BurnerRedis.Isolation

/-!
# Crashes roll back

A process that is started again after a crash has the store of its last snapshot. A snapshot does
not keep everything: expiries are cut to milliseconds and the times of pending entries are reset. A
client whose keys have neither when the snapshot is taken cannot tell: it is answered as by a store
that is rolled back to the moment of the snapshot (`crash_rolls_back`).
-/

namespace BurnerRedis

open Locality

/-! ## What a snapshot keeps as it is -/

theorem FinMap.map_eq_self {K V : Type} [Ord K] [Std.TransOrd K] [Std.LawfulEqOrd K]
    {m : FinMap K V} {f : V → V} (h : ∀ (k : K) (v : V), m[k]? = some v → f v = v) :
    (m.map fun _ v => f v) = m := by
  refine Std.ExtTreeMap.ext_getElem? fun k => ?_
  rw [Std.ExtTreeMap.getElem?_map]
  cases hk : m[k]? with
  | none => rfl
  | some v => exact congrArg some (h k v hk)

/-- No consumer of any group has an entry pending. -/
def Stream.NothingPending (s : Stream) : Prop :=
  ∀ (g : Bytes) (cg : ConsumerGroup), s.groups[g]? = some cg →
    ∀ (c : Bytes) (consumer : Consumer), cg.consumers[c]? = some consumer → consumer.pending = ∅

theorem Stream.NothingPending.resetTimes {s : Stream} (h : s.NothingPending) (now : Instant) :
    s.resetTimes now = s := by
  have hgroups : (s.groups.map fun _ g => g.resetTimes now) = s.groups := by
    refine FinMap.map_eq_self fun g cg hg => ?_
    have hconsumers : (cg.consumers.map fun _ c => c.resetTimes now) = cg.consumers := by
      refine FinMap.map_eq_self fun c consumer hc => ?_
      have hpending : consumer.pending = ∅ := h g cg hg c consumer hc
      unfold Consumer.resetTimes
      rw [hpending]
      cases consumer
      cases hpending
      rfl
    unfold ConsumerGroup.resetTimes
    rw [hconsumers]
  unfold Stream.resetTimes
  rw [hgroups]

section Quiet

variable {S : Type} [LinearOrder S]

/-- The entry has no expiry and nothing pending. -/
structure ValueEntry.Quiet (en : ValueEntry S) : Prop where
  forever : en.expiresAt = none
  settled : ∀ s, en.data = .stream s → s.NothingPending

theorem ValueEntry.Quiet.isExpired {en : ValueEntry S} (h : en.Quiet) (now : Instant) :
    en.isExpired now = false := by
  unfold ValueEntry.isExpired
  rw [h.forever]

/-- A snapshot keeps a quiet entry as it is. -/
theorem ValueEntry.Quiet.restored {en : ValueEntry S} (h : en.Quiet) (now now' : Instant) :
    (⟨en.data.resetTimes now', expiryAt now' (ttlRemaining now en.expiresAt)⟩ : ValueEntry S) =
      en := by
  have hdata : en.data.resetTimes now' = en.data := by
    cases hd : en.data with
    | stream s => exact congrArg ValueData.stream ((h.settled s hd).resetTimes now')
    | _ => rfl
  rw [hdata, h.forever]
  obtain ⟨data, expiresAt⟩ := en
  obtain rfl : expiresAt = none := h.forever
  rfl

end Quiet

/-! ## Processes with a snapshot -/

section Turns

variable {S : Type} [Score S] {ι : Type}

/-- What happens to a process: a client asks for something, a snapshot is taken, or the process
crashes and is started again. -/
inductive Turn (ι S : Type) where
  | request (client : ι) (q : Request S)
  | save
  | crash

/-- A process and the snapshot in its file. -/
structure Saved (S : Type) [LinearOrder S] where
  store : Store S
  file : Option (PersistableStore S)

def Saved.new : Saved S := ⟨⟨∅, ∅⟩, none⟩

/-- The store of a process that starts with this file. -/
def loaded (now : Instant) : Option (PersistableStore S) → Store S
  | none => ⟨∅, ∅⟩
  | some snapshot => snapshot.intoRuntime now

def Saved.step (s : Saved S) (e : Env) : Turn ι S → Saved S
  | .request _ q => { s with store := (q.run e s.store).1 }
  | .save => { s with file := some (.fromStore e s.store) }
  | .crash => { s with store := loaded e.now s.file }

/-- A store that can be rolled back to what it was at some moment. -/
structure Checkpointed (S : Type) [LinearOrder S] where
  store : Store S
  checkpoint : Store S

def Checkpointed.new : Checkpointed S := ⟨⟨∅, ∅⟩, ⟨∅, ∅⟩⟩

def Checkpointed.step (s : Checkpointed S) (e : Env) : Turn ι S → Checkpointed S
  | .request _ q => { s with store := (q.run e s.store).1 }
  | .save => { s with checkpoint := s.store }
  | .crash => { s with store := s.checkpoint }

variable [DecidableEq ι]

/-- The answer to a client, if it asks. -/
def Turn.answer (client : ι) (e : Env) (st : Store S) : Turn ι S → Option (Response S)
  | .request c q => if c = client then some (q.run e st).2 else none
  | _ => none

/-- What a process with a file answers to a client. -/
def Saved.answers (client : ι) : Saved S → List (Env × Turn ι S) → List (Response S)
  | _, [] => []
  | s, (e, turn) :: steps =>
    (turn.answer client e s.store).toList ++ Saved.answers client (s.step e turn) steps

/-- What a store that is rolled back answers to a client. -/
def Checkpointed.answers (client : ι) : Checkpointed S → List (Env × Turn ι S) → List (Response S)
  | _, [] => []
  | s, (e, turn) :: steps =>
    (turn.answer client e s.store).toList ++ Checkpointed.answers client (s.step e turn) steps

/-- Whenever a snapshot is taken, the live entries of the keys in `P` are quiet. -/
def QuietAtSaves (P : Set Bytes) : Checkpointed S → List (Env × Turn ι S) → Prop
  | _, [] => True
  | s, (e, turn) :: steps =>
    (turn = .save → ∀ k ∈ P, ∀ en, liveAt e s.store k = some en → en.Quiet) ∧
      QuietAtSaves P (s.step e turn) steps

/-- The client keeps to the keys in `P`, and no other client writes them. -/
def Turn.Respects (client : ι) (P : Set Bytes) : Turn ι S → Prop
  | .request c q => if c = client then q.Within P else q.Spares P
  | _ => True

/-! ## Runs -/

variable {client : ι} {P : Set Bytes} {e : Env} {s : Saved S} {s' : Checkpointed S}

/-- The process and the store that is rolled back look the same to the client, now and after a
crash. -/
structure RollsBack (P : Set Bytes) (e : Env) (s : Saved S) (s' : Checkpointed S) : Prop where
  coherent : Holds ValueData.Coherent s.store.data
  coherentFile : ∀ now, Holds ValueData.Coherent (loaded now s.file).data
  store : SameOn (liveAt e) P s.store s'.store
  file : ∀ e', e ≤ e' → SameOn (liveAt e') P (loaded e'.now s.file) s'.checkpoint

theorem rollsBack_new : RollsBack P e (Saved.new : Saved S) .new where
  coherent := holds_empty
  coherentFile _ := holds_empty
  store := .refl
  file _ _ := .refl

theorem RollsBack.later (h : RollsBack P e s s') {e' : Env} (hle : e ≤ e') : RollsBack P e' s s' where
  coherent := h.coherent
  coherentFile := h.coherentFile
  store k hk := liveAt_lasting hle (h.store k hk)
  file e'' hle' := h.file e'' (hle.trans hle')

/-- Requests of clients keep sorted sets coherent. -/
theorem Request.run_coherent {q : Request S} {st : Store S} (hq : q.Within P ∨ q.Spares P)
    (h : Holds ValueData.Coherent st.data) : Holds ValueData.Coherent (q.run e st).1.data := by
  cases q with
  | op o =>
    have hmoves := (o.run_edits e st.data).moves
    rw [← Op.exec_fst] at hmoves
    exact hmoves.holds coherent_kept h
  | call cmd args =>
    exact (Script.dispatchInner_edits (p := scriptEffects) (.inl rfl) (.inr rfl) e cmd args
      st.data).moves.holds coherent_kept h
  | existsKeys ks => exact h
  | mget ks => exact h
  | keys pattern => exact h
  | save => exact h
  | loadInto snapshot => cases snapshot with
    | none => exact h
    | some snapshot => exact (hq.elim id id).elim

/-- What a snapshot taken now brings back under the keys in `P`. -/
theorem sameOn_restored {st : Store S} {st' : Store S} (hc : Holds ValueData.Coherent st.data)
    (hs : SameOn (liveAt e) P st st')
    (hq : ∀ k ∈ P, ∀ en, liveAt e st' k = some en → en.Quiet) {e' : Env} (hle : e ≤ e') :
    SameOn (liveAt e') P ((PersistableStore.fromStore e st).intoRuntime e'.now) st' := by
  intro k hk
  have hlater : liveAt e' st' k = (liveAt e st' k).filter fun en => !en.isExpired e'.now :=
    live_later hle st'.data k
  have hl : live e.now st.data k = liveAt e st' k := hs k hk
  rw [hlater, liveAt, live, restarted_getElem? hc, hl]
  cases hen : liveAt e st' k with
  | none => rfl
  | some en => rw [Option.map_some, (hq k hk en hen).restored]

theorem RollsBack.step (h : RollsBack P e s s') {turn : Turn ι S} (hturn : turn.Respects client P)
    (hq : turn = .save → ∀ k ∈ P, ∀ en, liveAt e s'.store k = some en → en.Quiet) :
    turn.answer client e s.store = turn.answer client e s'.store ∧
      RollsBack P e (s.step e turn) (s'.step e turn) := by
  cases turn with
  | request c q =>
    dsimp only [Turn.Respects] at hturn
    split_ifs at hturn with hc
    · have hrun := Request.run_confined (e := e) hturn
      refine ⟨?_, Request.run_coherent (.inl hturn) h.coherent, h.coherentFile,
        hrun.result h.store, h.file⟩
      simp only [Turn.answer, if_pos hc, hrun.answer h.store]
    · refine ⟨?_, Request.run_coherent (.inr hturn) h.coherent, h.coherentFile, ?_, h.file⟩
      · simp only [Turn.answer, if_neg hc]
      · exact ((Request.run_spares hturn s.store).trans h.store).trans
          (Request.run_spares hturn s'.store).symm
  | save =>
    refine ⟨rfl, h.coherent, fun now => ?_, h.store, fun e' hle => ?_⟩
    · exact h.coherent.restart coherent_resetTimes h.coherent e now
    · exact sameOn_restored h.coherent h.store (hq rfl) hle
  | crash => exact ⟨rfl, h.coherentFile e.now, h.coherentFile, h.file e le_rfl, h.file⟩

theorem RollsBack.answers (h : RollsBack P e s s') {steps : List (Env × Turn ι S)}
    (ht : (steps.map Prod.fst).Pairwise (· ≤ ·)) (hle : ∀ x ∈ steps, e ≤ x.1)
    (hturns : ∀ x ∈ steps, x.2.Respects client P) (hq : QuietAtSaves P s' steps) :
    Saved.answers client s steps = Checkpointed.answers client s' steps := by
  induction steps generalizing e s s' with
  | nil => rfl
  | cons x steps ih =>
    obtain ⟨e', turn⟩ := x
    obtain ⟨hlater, hrest⟩ := List.pairwise_cons.mp ht
    obtain ⟨hans, hnext⟩ := (h.later (hle _ List.mem_cons_self)).step
      (hturns _ List.mem_cons_self) hq.1
    unfold Saved.answers Checkpointed.answers
    rw [hans, ih hnext hrest (fun y hy => hlater y.1 (List.mem_map_of_mem hy))
      (fun y hy => hturns y (List.mem_cons_of_mem _ hy)) hq.2]

/-- Over any run of requests, snapshots and crashes, a client whose keys no other client writes, and
have neither an expiry nor anything pending when a snapshot is taken, is answered as by a store that
a crash rolls back to the last snapshot. -/
theorem crash_rolls_back {steps : List (Env × Turn ι S)}
    (ht : (steps.map Prod.fst).Pairwise (· ≤ ·)) (hturns : ∀ x ∈ steps, x.2.Respects client P)
    (hq : QuietAtSaves P (.new : Checkpointed S) steps) :
    Saved.answers client .new steps = Checkpointed.answers client .new steps := by
  cases steps with
  | nil => rfl
  | cons x steps =>
    refine RollsBack.answers (e := x.1) rollsBack_new ht (fun y hy => ?_) hturns hq
    rcases List.mem_cons.mp hy with rfl | hy
    · exact le_rfl
    · exact (List.pairwise_cons.mp ht).1 y.1 (List.mem_map_of_mem hy)

/-- A list that is pushed to before and after a snapshot, beside a string with an expiry. -/
def pushedAndCrashed : List (Env × Turn ℕ ℤ) :=
  [(⟨1, 0, .byKey⟩, .request 0 (.op (.rpush [1] [[7]]))),
    (⟨1, 0, .byKey⟩, .request 1 (.op (.set [2] [3] (some 9) false false))),
    (⟨2, 0, .byKey⟩, .save), (⟨3, 0, .byKey⟩, .request 0 (.call "RPUSH" [[1], [8]])),
    (⟨4, 0, .byKey⟩, .crash), (⟨5, 0, .byKey⟩, .request 0 (.op (.lrange [1] 0 (-1))))]

theorem pushedAndCrashed_rolls_back :
    Saved.answers 0 (.new : Saved ℤ) pushedAndCrashed =
      Checkpointed.answers 0 (.new : Checkpointed ℤ) pushedAndCrashed := by
  refine crash_rolls_back (P := {[1]}) (by decide) ?_ ?_
  · simp [pushedAndCrashed, Turn.Respects, Request.Within, Request.Spares, Op.keys, Op.written,
      Op.reads, Script.keysOf]
  · refine ⟨?_, ?_, fun _ => ?_, ?_, ?_, ?_, trivial⟩
    case refine_3 =>
      rintro k rfl en hen
      have hlist : some (⟨.list [[7]], none⟩ : ValueEntry ℤ) = some en :=
        Eq.trans (by decide +kernel) hen
      cases hlist
      refine ⟨rfl, fun s hs => ?_⟩
      cases hs
    all_goals
      intro h
      cases h

end Turns

end BurnerRedis
