import BurnerRedis.Machine

/-!
# Invariants of the values

`Holds P d` says that every value of the data map satisfies `P`. One look at `Evolves` makes `P` an
invariant of edits (`Moves.holds`), and `Reachable.holds` makes it one of whole runs. The two
indexes of a sorted set agree in every run, whatever its actions (`Reachable.coherent`).
-/

namespace BurnerRedis

section Moves

variable {S : Type} [LinearOrder S] {p : Set Effect} {P : ValueData S → Prop}

/-- Every value of the data map satisfies `P`, also those of expired entries. -/
def Holds (P : ValueData S → Prop) (d : Data S) : Prop :=
  ∀ (key : Bytes) (en : ValueEntry S), d[key]? = some en → P en.data

theorem holds_empty : Holds P (∅ : Data S) := by
  intro key en h
  simp at h

theorem Holds.erase {d : Data S} (h : Holds P d) (key : Bytes) : Holds P (d.erase key) := by
  intro k en hk
  rw [FinMap.getElem?_erase'] at hk
  split_ifs at hk
  exact h k en hk

theorem Holds.insert {d : Data S} (h : Holds P d) {key : Bytes} {en : ValueEntry S}
    (hen : P en.data) : Holds P (d.insert key en) := by
  intro k x hk
  rw [FinMap.getElem?_insert'] at hk
  split_ifs at hk
  · cases hk
    exact hen
  · exact h k x hk

theorem Holds.purge {d : Data S} (h : Holds P d) (now : Instant) (key : Bytes) :
    Holds P (purge now key d) := by
  rcases purge_cases now key d with ⟨hp, -⟩ | ⟨hp, -⟩
  · rwa [hp]
  · rw [hp]
    exact h.erase key

theorem Holds.live {d : Data S} (h : Holds P d) {now : Instant} {key : Bytes} {en : ValueEntry S}
    (hl : live now d key = some en) : P en.data :=
  h key en (live_eq_some.mp hl).1

/-- Values that evolve from values with `P` have `P`. -/
def Kept (p : Set Effect) (P : ValueData S → Prop) : Prop :=
  ∀ old x, (∀ y ∈ old, P y) → Evolves p old x → P x

theorem Edit.holds (hP : Kept p P) {now : Instant} {d d' : Data S} (ed : Edit now p d d')
    (h : Holds P d) : Holds P d' := by
  cases ed with
  | drop key => exact h.erase key
  | write key en hev =>
    refine h.insert (hP _ _ (fun y hy => ?_) hev)
    obtain ⟨en', hen', rfl⟩ := Option.map_eq_some_iff.mp hy
    exact h.live hen'

theorem Moves.holds (hP : Kept p P) {m m' : Instant × Data S} (mv : Moves p m m')
    (h : Holds P m.2) : Holds P m'.2 := by
  induction mv with
  | refl => exact h
  | tail _ st ih =>
    cases st with
    | wait => exact ih
    | edit now d d' hd => exact hd.holds hP ih

/-! ## The shapes -/

section Shapes

variable {V ρ : Type} {t : Kind S V} {now : Instant} {key : Bytes} {d : Data S} {wrong : ρ}

theorem upsertAs_holds (h : Holds P d) {new : V} {f : V → V × ρ}
    (hn : live now d key = none → P (t.wrap (f new).1))
    (hf : ∀ v exp, live now d key = some ⟨t.wrap v, exp⟩ → P (t.wrap v) → P (t.wrap (f v).1)) :
    Holds P (upsertAs t now key new wrong f d).1 := by
  cases look t now key d with
  | absent hl =>
    rw [upsertAs_absent hl]
    exact h.insert (hn hl)
  | wrong en hl hd => rw [upsertAs_wrong hl hd]; exact h.purge now key
  | found v exp hl =>
    rw [upsertAs_found hl]
    exact h.insert (hf v exp hl (h.live hl))

end Shapes

/-! ## Sorted sets -/

/-- The indexes of a sorted set agree. -/
def ValueData.Coherent (v : ValueData S) : Prop := ∀ z, v = .sortedSet z → z.Coherent

theorem coherent_kept : Kept p (ValueData.Coherent (S := S)) := by
  rintro old x h ev z rfl
  cases ev with
  | sortedSet _ hz => exact hz fun z₀ hz₀ => h _ hz₀ z₀ rfl

end Moves

/-! ## Whole runs -/

section Runs

variable {S : Type} [Score S] {ok : Instant → Store S → Action S → Prop} {sha1 : String → String}
  {now : Instant} {st : Store S}

/-- What a key holds after a restart. -/
theorem restarted_getElem? (hc : Holds ValueData.Coherent st.data) (e : Env) (now' : Instant)
    (key : Bytes) :
    ((PersistableStore.fromStore e st).intoRuntime now').data[key]? =
      (live e.now st.data key).map fun en =>
        ⟨en.data.resetTimes now', expiryAt now' (ttlRemaining e.now en.expiresAt)⟩ := by
  rw [restored_getElem?]
  refine Option.map_congr fun en hen => ?_
  exact congrArg (ValueEntry.mk · _) (ValueData.restored_persisted e.walk now' en.data (hc.live hen))

theorem Holds.restart {P : ValueData S → Prop} (h : Holds P st.data)
    (hr : ∀ now v, P v → P (v.resetTimes now)) (hc : Holds ValueData.Coherent st.data) (e : Env)
    (now' : Instant) :
    Holds P ((PersistableStore.fromStore e st).intoRuntime now').data := by
  intro key en hen
  rw [restarted_getElem? hc] at hen
  obtain ⟨en', hen', rfl⟩ := Option.map_eq_some_iff.mp hen
  exact hr now' _ (h.live hen')

theorem coherent_resetTimes (now : Instant) (v : ValueData S) (h : v.Coherent) :
    (v.resetTimes now).Coherent := by
  cases v with
  | stream s => exact fun z hz => nomatch hz
  | _ => exact h

/-- In every run the indexes of every sorted set agree. -/
theorem Reachable.coherent (h : Reachable ok sha1 now st) :
    Holds ValueData.Coherent st.data := by
  induction h with
  | empty => exact holds_empty
  | wait t _ ih => exact ih
  | act a _ _ ih => exact (a.run_moves sha1 _ _).holds coherent_kept ih
  | restart wall walk now' _ ih => exact ih.restart coherent_resetTimes ih _ now'

/-- An invariant of the values that the allowed actions and a reset of times keep holds in every
run. -/
theorem Reachable.holds {P : ValueData S → Prop} (hr : ∀ now v, P v → P (v.resetTimes now))
    (hact : ∀ now st a, ok now st a → Holds P st.data → Holds P (a.run sha1 now st).2.1.data)
    (h : Reachable ok sha1 now st) : Holds P st.data := by
  induction h with
  | empty => exact holds_empty
  | wait t _ ih => exact ih
  | act a hok _ ih => exact hact _ _ a hok ih
  | restart wall walk now' h ih => exact ih.restart hr h.coherent _ now'

end Runs

/-! ## Runs whose steps meet a condition -/

section Steps

variable {S : Type} [Score S]

/-- Every call of a script meets the condition where it is made, which it is unless a panic has
ended the script. -/
def Script.CallsMeet (okCall : Env → Data S → String → List Bytes → Prop) (now : Instant) :
    List Script.Call → Data S → Prop
  | [], _ => True
  | c :: calls, d =>
    okCall (c.env now) d c.cmd c.args ∧
      ((Script.Overflows (c.env now) d c.cmd c.args → c.caught = true) →
        CallsMeet okCall (now + c.wait) calls
          (Script.dispatchInner? (c.env now) c.cmd c.args d).1)

/-- A method call meets its condition, and so does every call of a script. -/
def Action.Meets (okOp : Env → Data S → Op S → Prop)
    (okCall : Env → Data S → String → List Bytes → Prop) (now : Instant) (st : Store S) :
    Action S → Prop
  | .op wall walk o => okOp ⟨now, wall, walk⟩ st.data o
  | .eval _ calls => Script.CallsMeet okCall now calls st.data
  | .evalsha sha calls => sha ∈ st.scripts → Script.CallsMeet okCall now calls st.data
  | .scriptLoad _ => True

variable {okOp : Env → Data S → Op S → Prop}
  {okCall : Env → Data S → String → List Bytes → Prop} {P : ValueData S → Prop}

theorem Script.runScript_holds
    (hcall : ∀ e d cmd args, okCall e d cmd args → Holds P d →
      Holds P (Script.dispatchInner e cmd args d).1)
    {now : Instant} {calls : List Script.Call} {d : Data S}
    (hm : Script.CallsMeet okCall now calls d) (h : Holds P d) :
    Holds P (Script.runScript now calls d).data := by
  induction calls generalizing now d with
  | nil => exact h
  | cons c calls ih =>
    obtain ⟨hc, hrest⟩ := hm
    have hnext : Holds P (Script.dispatchInner? (c.env now) c.cmd c.args d).1 := by
      rcases Script.dispatchInner?_spec (c.env now) c.cmd c.args d with ⟨-, hr⟩ | ⟨-, key, hr⟩
      · rw [hr]
        exact hcall _ d c.cmd c.args hc h
      · rw [hr]
        exact h.purge _ key
    cases hr : (Script.dispatchCommand (c.env now) c.cmd c.args d).2 with
    | some r =>
      rw [Script.runScript_cons_some hr]
      refine ih (hrest fun hover => ?_) hnext
      rw [Script.dispatchCommand_eq_none_iff.mpr hover] at hr
      cases hr
    | none =>
      rw [Script.runScript_cons_none hr]
      split_ifs with hcaught
      · exact ih (hrest fun _ => hcaught) hnext
      · exact hnext

/-- An invariant of the values, from what the method calls and the calls of scripts keep. -/
theorem Reachable.holds_of_steps {sha1 : String → String} {now : Instant} {st : Store S}
    (hr : ∀ now v, P v → P (v.resetTimes now))
    (hop : ∀ e d o, okOp e d o → Holds P d → Holds P (o.run e d).1)
    (hcall : ∀ e d cmd args, okCall e d cmd args → Holds P d →
      Holds P (Script.dispatchInner e cmd args d).1)
    (h : Reachable (Action.Meets okOp okCall) sha1 now st) : Holds P st.data := by
  refine h.holds hr fun now st a hok hP => ?_
  cases a with
  | op wall walk o => exact hop _ _ o hok hP
  | eval script calls => exact Script.runScript_holds hcall hok hP
  | evalsha sha calls =>
    unfold Action.run
    dsimp only
    split_ifs with hs
    · exact Script.runScript_holds hcall (hok hs) hP
    · exact hP
  | scriptLoad script => exact hP

end Steps

end BurnerRedis
