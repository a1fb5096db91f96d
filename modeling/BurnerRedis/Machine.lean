import BurnerRedis.Persist
import BurnerRedis.Script.Edits
import BurnerRedis.Store.Shapes

/-!
# The store as a machine

An `Action` is a call of one of the methods, SCRIPT LOAD or a script. It takes effect at once, under
the write lock; its reply is left out here.

`Reachable` is the states of a store over any run from an empty one: actions in any order, time that
passes, and a restart from a snapshot.

`Op.run_edits` and `runScript_moves` say what an action does as edits; invariants of reachable
states follow from them.
-/

open Relation (ReflTransGen)

namespace BurnerRedis

/-! ## Time and edits -/

section Moves

variable {S : Type} [LinearOrder S]

/-- One step of a store in time: the clock goes on, or the data is edited at its time. -/
inductive Move (p : Set Effect) : Instant × Data S → Instant × Data S → Prop where
  | wait (now : Instant) (d : Data S) (t : Duration) : Move p (now, d) (now + t, d)
  | edit (now : Instant) (d d' : Data S) (h : Edit now p d d') : Move p (now, d) (now, d')

abbrev Moves (p : Set Effect) : Instant × Data S → Instant × Data S → Prop :=
  ReflTransGen (Move p)

theorem Moves.mono {p q : Set Effect} (h : p ⊆ q) {m m' : Instant × Data S} (mv : Moves p m m') :
    Moves q m m' := by
  refine ReflTransGen.mono (fun a b st => ?_) m m' mv
  cases st with
  | wait now d t => exact .wait now d t
  | edit now d d' hd =>
    cases hd with
    | drop key => exact .edit now d _ (.drop d key)
    | write key en hev => exact .edit now d _ (.write d key en (hev.mono h))

theorem Edits.moves {p : Set Effect} {now : Instant} {d d' : Data S} (ed : Edits now p d d') :
    Moves p (now, d) (now, d') := by
  induction ed with
  | refl => exact .refl
  | tail _ hd ih => exact ih.tail (.edit now _ _ hd)

end Moves

/-! ## Scripts and the script cache -/

section Actions

variable {S : Type} [Score S]

/-- A script moves the store with the effects of all its calls. -/
theorem Script.runScript_moves (now : Instant) (calls : List Script.Call) (d : Data S) :
    Moves ((Script.runScript now calls d).flags.effects ∪ scriptEffects) (now, d)
      ((Script.runScript now calls d).now, (Script.runScript now calls d).data) := by
  induction calls generalizing now d with
  | nil => exact .refl
  | cons c calls ih =>
    have hcall := (Script.dispatchCommand_edits (p := scriptEffects) (.inl rfl) (.inr rfl)
      (c.env now) c.cmd c.args d).moves
    refine .head (.wait now d c.wait) ?_
    cases hr : (Script.dispatchCommand (c.env now) c.cmd c.args d).2 with
    | some r =>
      rw [hr] at hcall
      rw [Script.runScript_cons_some hr, Wake.effects_or]
      exact (hcall.mono (Set.union_subset_union_left _ Set.subset_union_left)).trans
        ((ih _ _).mono (Set.union_subset_union_left _ Set.subset_union_right))
    | none =>
      rw [hr] at hcall
      have hpanic : Moves scriptEffects (now + c.wait, d)
          (now + c.wait, (Script.dispatchCommand (c.env now) c.cmd c.args d).1) :=
        hcall.mono (by simp)
      rw [Script.runScript_cons_none hr]
      split_ifs
      · exact (hpanic.mono Set.subset_union_right).trans (ih _ _)
      · exact hpanic.mono Set.subset_union_right

/-- What a client can do to a store: a method call, EVAL, EVALSHA or SCRIPT LOAD. -/
inductive Action (S : Type) where
  | op (wall : UInt64) (walk : FinMap.WalkOrder) (o : Op S)
  | eval (script : String) (calls : List Script.Call)
  | evalsha (sha : String) (calls : List Script.Call)
  | scriptLoad (script : String)

/-- The clock after an action, the store and the clients to wake. `sha1` is the name under which a
script is cached; EVALSHA runs cached scripts only. -/
def Action.run (sha1 : String → String) (now : Instant) (st : Store S) :
    Action S → Instant × Store S × Wake
  | .op wall walk o =>
    (now, { st with data := (o.run ⟨now, wall, walk⟩ st.data).1 },
      (o.run ⟨now, wall, walk⟩ st.data).2)
  | .eval script calls =>
    let r := Script.runScript now calls st.data
    (r.now, ⟨r.data, st.scripts.insert (sha1 script) script⟩, r.wake)
  | .evalsha sha calls =>
    if sha ∈ st.scripts then
      let r := Script.runScript now calls st.data
      (r.now, { st with data := r.data }, r.wake)
    else (now, st, {})
  | .scriptLoad script => (now, { st with scripts := st.scripts.insert (sha1 script) script }, {})

def Action.effects : Action S → Set Effect
  | .op _ _ o => o.effects
  | .eval .. => scriptEffects
  | .evalsha .. => scriptEffects
  | .scriptLoad _ => ∅

/-- The clients that the commands of an action would have woken. -/
def Action.flags (now : Instant) (st : Store S) : Action S → Wake
  | .op wall walk o => (o.run ⟨now, wall, walk⟩ st.data).2
  | .eval _ calls => (Script.runScript now calls st.data).flags
  | .evalsha sha calls =>
    if sha ∈ st.scripts then (Script.runScript now calls st.data).flags else {}
  | .scriptLoad _ => {}

theorem Action.run_moves (sha1 : String → String) (now : Instant) (st : Store S) (a : Action S) :
    Moves ((a.flags now st).effects ∪ a.effects) (now, st.data)
      ((a.run sha1 now st).1, (a.run sha1 now st).2.1.data) := by
  cases a with
  | op wall walk o => exact (o.run_edits ⟨now, wall, walk⟩ st.data).moves
  | eval script calls => exact Script.runScript_moves now calls st.data
  | evalsha sha calls =>
    unfold Action.run Action.flags
    dsimp only
    split
    · exact Script.runScript_moves now calls st.data
    · exact .refl
  | scriptLoad script => exact .refl

/-- The states of a store over any run; `ok` says which actions the run may take in which state. -/
inductive Reachable (ok : Instant → Store S → Action S → Prop) (sha1 : String → String) :
    Instant → Store S → Prop where
  | empty (now : Instant) : Reachable ok sha1 now ⟨∅, ∅⟩
  | wait {now : Instant} {st : Store S} (t : Duration) (h : Reachable ok sha1 now st) :
      Reachable ok sha1 (now + t) st
  | act {now : Instant} {st : Store S} (a : Action S) (hok : ok now st a)
      (h : Reachable ok sha1 now st) :
      Reachable ok sha1 (a.run sha1 now st).1 (a.run sha1 now st).2.1
  | restart {now : Instant} {st : Store S} (wall : UInt64) (walk : FinMap.WalkOrder)
      (now' : Instant) (h : Reachable ok sha1 now st) :
      Reachable ok sha1 now'
        ((PersistableStore.fromStore ⟨now, wall, walk⟩ st).intoRuntime now')

/-- A run may take any action. -/
def anyAction : Instant → Store S → Action S → Prop := fun _ _ _ => True

/-- A reply that is evaluated is compared as an option. -/
theorem eq_ok_of_toOption {ε α : Type} {r : Except ε α} {x : α} (h : r.toOption = some x) :
    r = .ok x := by
  cases r with
  | error err => cases h
  | ok y => exact congrArg Except.ok (Option.some.inj h)

/-- Actions one right after the other. -/
def runActions (sha1 : String → String) (m : Instant × Store S) (as : List (Action S)) :
    Instant × Store S :=
  as.foldl (fun m a => ((a.run sha1 m.1 m.2).1, (a.run sha1 m.1 m.2).2.1)) m

theorem Reachable.runActions {sha1 : String → String} {m : Instant × Store S}
    (h : Reachable anyAction sha1 m.1 m.2) (as : List (Action S)) :
    Reachable anyAction sha1 (runActions sha1 m as).1 (runActions sha1 m as).2 := by
  induction as generalizing m with
  | nil => exact h
  | cons a as ih => exact ih (.act a trivial h)

end Actions

end BurnerRedis
