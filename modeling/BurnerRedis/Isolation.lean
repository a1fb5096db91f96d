import BurnerRedis.ScriptFootprints

/-!
# Clients that share a store

A client that keeps to a set of keys, and whose keys no other client writes, is answered as if it
were alone (`client_isolated`): whatever the others do elsewhere, and however often keys are listed,
snapshots are taken and expired keys are swept in between. Requests commute when neither writes a
key of the other (`requests_commute`), and a key that is not written stays until its expiry and not
a moment longer (`unwritten_lives_until_expiry`).
-/

namespace BurnerRedis

open Locality

/-! ## What is written -/

/-- The keys that a method may change. -/
def Op.written {S : Type} (o : Op S) : List Bytes :=
  if o.reads then []
  else match o with
    | .zrangestore dst .. => [dst]
    | o => o.keys

/-- The keys that a command of a script may change. -/
def Script.written (cmd : String) (args : List Bytes) : List Bytes :=
  if cmd ∈ readCommands then [] else keysOf cmd args

section Written

variable {S : Type} [Score S] {k : Bytes}


theorem Op.exec_reads (e : Env) (d : Data S) {o : Op S} (ho : o.reads = true) :
    SameLive e.now d (o.exec e d).1 := by
  cases hown : o.ownBody with
  | false =>
    obtain ⟨f, g, h, hexec, -⟩ := o.shaped e hown
    have huse : o.use = .reads := if_pos ho
    rw [huse] at h
    rw [hexec]
    exact (h.result d).sameLive_of_reads
  | true =>
    cases o with
    | ttl key => exact sameLive_purge e.now key d
    | sweepExpired => exact Store.sweepExpired_sameLive e d
    | xread keys ids count => exact Store.xreadPairs_sameLive e count (keys.zip ids) d
    | set => cases ho
    | delete => cases ho
    | expire => cases ho
    | zrangestore => cases ho
    | xreadgroup => cases ho
    | lmoveAtomic => cases ho
    | rpoplpushAtomic => cases ho
    | blpopPoll => cases ho
    | brpopPoll => cases ho
    | _ => cases hown

/-- A method leaves every live key that it does not write as it is. -/
theorem Op.exec_others (e : Env) (d : Data S) {o : Op S} (hk : k ∉ o.written) :
    live e.now (o.exec e d).1 k = live e.now d k := by
  cases ho : o.reads with
  | true => exact (Op.exec_reads e d ho k).symm
  | false =>
    rw [Op.exec_fst]
    cases o
    case zrangestore =>
      rw [Op.run]
      exact Store.zrangestore_others fun he => hk (List.mem_singleton.mpr he)
    all_goals exact (Op.run_frames e d _).others k fun hmem => hk (by simpa only [Op.written, ho])

theorem Script.existsKeys_sameLive {e : Env} {args : List Bytes} {d : Data S} :
    SameLive e.now d (existsKeys e args d).1 := by
  unfold existsKeys
  split
  · exact .refl
  · exact (existsKeys_foldl args SameLive.refl 0).data.symm

theorem Script.dispatchInner_reads (e : Env) {cmd : String} (args : List Bytes) (d : Data S)
    (hcmd : cmd ∈ readCommands) : SameLive e.now d (dispatchInner e cmd args d).1 := by
  have hwrites : ∀ {name : String} {d' : Data S}, cmd = name → name ∉ readCommands →
      SameLive e.now d d' := by
    rintro name d' rfl hn
    exact absurd hcmd hn
  apply dispatchInner_elim (motive := fun f => SameLive e.now d (f d).1)
  case shape =>
    intro _ h
    have huse : use cmd = .reads := if_pos hcmd
    rw [huse] at h
    exact (h.result d).sameLive_of_reads
  case existsKeys => exact fun _ => existsKeys_sameLive
  case xread => exact fun _ => xread_sameLive e args d
  case expireAs => rintro name unit (h | h) <;> exact hwrites h (by decide)
  all_goals exact fun h => hwrites h (by decide)

/-- A command of a script leaves every live key that it does not write as it is. -/
theorem Script.dispatchInner_others (e : Env) {cmd : String} {args : List Bytes} (d : Data S)
    (hk : k ∉ written cmd args) :
    live e.now (dispatchInner e cmd args d).1 k = live e.now d k := by
  unfold written at hk
  split at hk
  · rename_i hcmd
    exact (dispatchInner_reads e args d hcmd k).symm
  · exact (dispatchInner_touches e cmd args fun _ h => h).frame d k hk

end Written

/-! ## Requests -/

/-- Clocks are ordered by the one that does not go back. -/
instance : Preorder Env where
  le e e' := e.now ≤ e'.now
  le_refl e := le_refl e.now
  le_trans _ _ _ h h' := le_trans h h'

section Requests

variable {S : Type} [Score S]

/-- The request names keys of `P` only. -/
def Request.Within (P : Set Bytes) : Request S → Prop
  | .op o => o ≠ .sweepExpired ∧ ∀ key ∈ o.keys, key ∈ P
  | .call cmd args => ∀ key ∈ Script.keysOf cmd args, key ∈ P
  | .existsKeys ks | .mget ks => ∀ key ∈ ks, key ∈ P
  | .keys _ | .save | .loadInto _ => False

/-- The request writes no key of `P`. -/
def Request.Spares (P : Set Bytes) : Request S → Prop
  | .op o => ∀ key ∈ o.written, key ∉ P
  | .call cmd args => ∀ key ∈ Script.written cmd args, key ∉ P
  | .existsKeys _ | .mget _ | .keys _ | .save | .loadInto none => True
  | .loadInto (some _) => False

/-- The live entries of a store, at the time of a clock. -/
def liveAt (e : Env) (st : Store S) : Bytes → Option (ValueEntry S) := live e.now st.data

theorem liveAt_lasting : Lasting (liveAt (S := S)) := by
  intro e e' st st' k hle h
  unfold liveAt at h ⊢
  rw [live_later hle, live_later hle, h]

variable {P : Set Bytes} {e : Env}

theorem Touches.onStore {ρ : Type*} {f : Data S → Data S × ρ} (h : Touches e.now P f)
    (g : ρ → Response S) : Confined (liveAt e) P fun st : Store S =>
      ({ st with data := (f st.data).1 }, g (f st.data).2) where
  frame st := h.frame st.data
  answer hs := congrArg g (h.answer hs)
  result hs := h.result hs

theorem confined_answer {r : Store S → Response S}
    (h : ∀ {st st'}, SameOn (liveAt e) P st st' → r st = r st') :
    Confined (liveAt e) P fun st => (st, r st) where
  frame _ _ _ := rfl
  answer := h
  result hs := hs

/-- A request is confined to the keys that it names. -/
theorem Request.run_confined {q : Request S} (hq : q.Within P) :
    Confined (liveAt e) P (q.run e) := by
  cases q with
  | op o => exact (Op.exec_touches e o hq.1 hq.2).onStore .outcome
  | call cmd args => exact (Script.dispatchInner_touches e cmd args hq).onStore .reply
  | existsKeys ks =>
    refine confined_answer fun {st st'} hs => congrArg Response.count ?_
    refine List.foldl_ext _ _ 0 fun n k hk => ?_
    have hlive : live e.now st.data k = live e.now st'.data k := hs k (hq k hk)
    rw [hlive]
  | mget ks =>
    refine confined_answer fun {st st'} hs => congrArg Response.values ?_
    refine List.map_congr_left fun k hk => ?_
    have hlive : live e.now st.data k = live e.now st'.data k := hs k (hq k hk)
    rw [hlive]
  | keys pattern => exact hq.elim
  | save => exact hq.elim
  | loadInto snapshot => exact hq.elim

/-- A request leaves the keys that it does not write as they are. -/
theorem Request.run_spares {q : Request S} (hq : q.Spares P) (st : Store S) :
    SameOn (liveAt e) P (q.run e st).1 st := by
  intro k hk
  cases q with
  | op o => exact Op.exec_others e st.data fun hmem => hq k hmem hk
  | call cmd args => exact Script.dispatchInner_others e st.data fun hmem => hq k hmem hk
  | existsKeys ks => rfl
  | mget ks => rfl
  | keys pattern => rfl
  | save => rfl
  | loadInto snapshot => cases snapshot with
    | none => rfl
    | some snapshot => exact hq.elim

theorem Request.run_scripts {q : Request S} (hq : q.Within P) (st : Store S) :
    (q.run e st).1.scripts = st.scripts := by
  cases q with
  | loadInto snapshot => exact hq.elim
  | _ => rfl

end Requests

/-! ## Runs of several clients -/

section Clients

variable {S : Type} [Score S] {ι : Type} [DecidableEq ι] {client : ι} {P Q : Set Bytes}
  {e e' : Env} {st st' : Store S} {steps steps' : List (Env × ι × Request S)}

/-- The answers that a client gets in a run. -/
def answersTo (client : ι) : Store S → List (Env × ι × Request S) → List (Response S) :=
  Locality.answers (fun e x => x.2.run e) fun x => x.1 = client

/-- What a client asks in a run. -/
def requestsOf (client : ι) (steps : List (Env × ι × Request S)) : List (Env × ι × Request S) :=
  steps.filter fun x => x.2.1 = client

/-- In this run the client keeps to the keys in `P`, and no other client writes them. -/
structure KeepsTo (client : ι) (P : Set Bytes) (steps : List (Env × ι × Request S)) : Prop where
  inTime : steps.Pairwise fun a b => a.1 ≤ b.1
  own : ∀ x ∈ steps, x.2.1 = client → x.2.2.Within P
  others : ∀ x ∈ steps, x.2.1 ≠ client → x.2.2.Spares P

theorem answersTo_alone (h : KeepsTo client P steps)
    (hst : ∀ k ∈ P, st.data[k]? = st'.data[k]?) :
    answersTo client st steps = answersTo client st' (requestsOf client steps) := by
  cases steps with
  | nil => rfl
  | cons x steps =>
    have hfirst : ∀ y ∈ x :: steps, x.1 ≤ y.1 := by
      intro y hy
      rcases List.mem_cons.mp hy with rfl | hy
      · exact le_rfl
      · exact (List.pairwise_cons.mp h.inTime).1 y hy
    have hstart : SameOn (liveAt x.1) P st st' := by
      intro k hk
      unfold liveAt live
      rw [hst k hk]
    refine answers_interleaved liveAt_lasting h.inTime ?_ ?_ hfirst hstart
    · intro y hy hown
      exact Request.run_confined (h.own y hy (of_decide_eq_true hown))
    · intro y hy hother
      exact Request.run_spares (h.others y hy (of_decide_eq_false hother))

/-- A client that keeps to keys which no other client writes gets the same answers whatever the
others do, whenever they do it, and whatever else the store holds. -/
theorem client_isolated (h : KeepsTo client P steps) (h' : KeepsTo client P steps')
    (hsame : requestsOf client steps = requestsOf client steps')
    (hst : ∀ k ∈ P, st.data[k]? = st'.data[k]?) :
    answersTo client st steps = answersTo client st' steps' :=
  calc answersTo client st steps
      = answersTo client st' (requestsOf client steps) := answersTo_alone h hst
    _ = answersTo client st' (requestsOf client steps') := by rw [hsame]
    _ = answersTo client st' steps' := (answersTo_alone h' fun _ _ => rfl).symm

/-- A list of the first client beside a hash, a listing of all keys and a sweep of the second. -/
theorem client_isolated_beside :
    answersTo (S := ℤ) 0 ⟨∅, ∅⟩
        [(⟨1, 0, .byKey⟩, 0, .op (.rpush [1] [[7]])), (⟨2, 0, .byKey⟩, 1, .op (.hset [2] [([3], [4])])),
          (⟨2, 0, .byKey⟩, 1, .keys [42]), (⟨3, 0, .byKey⟩, 1, .op .sweepExpired),
          (⟨4, 0, .byKey⟩, 0, .call "LPOP" [[1]])] =
      answersTo (S := ℤ) 0 ⟨∅, ∅⟩
        [(⟨1, 0, .byKey⟩, 0, .op (.rpush [1] [[7]])), (⟨2, 0, .byKey⟩, 1, .op (.llen [1])),
          (⟨4, 0, .byKey⟩, 0, .call "LPOP" [[1]])] := by
  refine client_isolated (P := {[1]}) ⟨?_, ?_, ?_⟩ ⟨?_, ?_, ?_⟩ rfl fun _ _ => rfl
  · decide
  · simp [Request.Within, Op.keys, Script.keysOf]
  · simp [Request.Spares, Op.written, Op.reads, Op.keys]
  · decide
  · simp [Request.Within, Op.keys, Script.keysOf]
  · simp [Request.Spares, Op.written, Op.reads]

/-- Requests that read the same time commute when neither writes a key that the other names: each is
answered as if it came first, and no later request tells in which order they came. -/
theorem requests_commute {q q' : Request S} (hnow : e.now = e'.now) (hq : q.Within P)
    (hq' : q'.Within Q) (hP : q'.Spares P) (hQ : q.Spares Q) (st : Store S) :
    (q'.run e' (q.run e st).1).2 = (q'.run e' st).2 ∧
      (q.run e (q'.run e' st).1).2 = (q.run e st).2 ∧
      ∀ steps, InTime steps → (∀ x ∈ steps, e.now ≤ x.1.now) →
        List.Forall₂ Response.Same (answers (q'.run e' (q.run e st).1).1 steps)
          (answers (q.run e (q'.run e' st).1).1 steps) := by
  have hview : liveAt (S := S) e' = liveAt e := by
    funext st k
    rw [liveAt, liveAt, hnow]
  have hf : Confined (liveAt e) P (q.run e) := Request.run_confined hq
  have hg : Confined (liveAt e) Q (q'.run e') := hview ▸ Request.run_confined hq'
  have hg' : ∀ st, SameOn (liveAt e) P (q'.run e' st).1 st := hview ▸ Request.run_spares hP
  obtain ⟨hans', hans, hlive⟩ := hf.commute hg (Request.run_spares hQ) hg' st
  refine ⟨hans', hans, fun steps ht hle => ?_⟩
  have hscripts : (q'.run e' (q.run e st).1).1.scripts = (q.run e (q'.run e' st).1).1.scripts := by
    rw [Request.run_scripts hq', Request.run_scripts hq, Request.run_scripts hq,
      Request.run_scripts hq']
  have hsame : (q'.run e' (q.run e st).1).1.SameLive e.now (q.run e (q'.run e' st).1).1 :=
    ⟨hlive, hscripts⟩
  have h := answers_withoutSweeps ht hle hsame
  have h' := answers_withoutSweeps ht hle
    (⟨.refl, rfl⟩ : (q.run e (q'.run e' st).1).1.SameLive e.now (q.run e (q'.run e' st).1).1)
  exact forall₂_same_trans h (h'.imp fun _ _ => Response.Same.symm).flip

/-- A push to a list, and EXISTS of other keys. -/
theorem requests_commute_example :
    let push : Request ℤ := .op (.rpush [1] [[7]])
    let read : Request ℤ := .call "EXISTS" [[2], [3]]
    let e : Env := ⟨1, 0, .byKey⟩
    (read.run e (push.run e ⟨∅, ∅⟩).1).2 = (read.run e ⟨∅, ∅⟩).2 ∧
      (push.run e (read.run e ⟨∅, ∅⟩).1).2 = (push.run e ⟨∅, ∅⟩).2 ∧
      ∀ steps, InTime steps → (∀ x ∈ steps, (1 : ℤ) ≤ x.1.now) →
        List.Forall₂ Response.Same (answers (read.run e (push.run e ⟨∅, ∅⟩).1).1 steps)
          (answers (push.run e (read.run e ⟨∅, ∅⟩).1).1 steps) :=
  requests_commute (P := {[1]}) (Q := {[2], [3]}) rfl (by simp [Request.Within, Op.keys])
    (by simp [Request.Within, Script.keysOf])
    (by simp [Request.Spares, Script.written, Script.readCommands])
    (by simp [Request.Spares, Op.written, Op.reads, Op.keys]) _

end Clients

/-! ## Lifetimes -/

section Lifetimes

variable {S : Type} [Score S] {P : Set Bytes} {now : Instant} {e : Env} {key : Bytes}

/-- The store after a run. -/
def runRequests (st : Store S) (steps : List (Env × Request S)) : Store S :=
  steps.foldl (fun st x => (x.2.run x.1 st).1) st

theorem runRequests_spares {steps : List (Env × Request S)} (hw : ∀ x ∈ steps, x.2.Spares P)
    (he : ∀ x ∈ steps, x.1 ≤ e) (st : Store S) : SameOn (liveAt e) P (runRequests st steps) st := by
  induction steps generalizing st with
  | nil => exact .refl
  | cons x steps ih =>
    have hstep : SameOn (liveAt e) P (x.2.run x.1 st).1 st := fun k hk =>
      liveAt_lasting (he x List.mem_cons_self) (Request.run_spares (hw x List.mem_cons_self) st k hk)
    have hrest := ih (fun y hy => hw y (List.mem_cons_of_mem x hy))
      (fun y hy => he y (List.mem_cons_of_mem x hy)) (x.2.run x.1 st).1
    exact hrest.trans hstep

/-- Whatever is asked in a run that does not write a key, the key keeps its value exactly until its
expiry, does not come into being when it is not there, and is answered for as if nothing had been
asked. -/
theorem unwritten_lives_until_expiry {st : Store S} {steps : List (Env × Request S)}
    (hw : ∀ x ∈ steps, x.2.Spares {key}) (he : ∀ x ∈ steps, x.1 ≤ e) (hnow : now ≤ e.now) :
    live e.now (runRequests st steps).data key =
        ((live now st.data key).filter fun en => !en.isExpired e.now) ∧
      ∀ q : Request S, q.Within {key} → (q.run e (runRequests st steps)).2 = (q.run e st).2 := by
  have hsame := runRequests_spares hw he st
  refine ⟨?_, fun q hq => (Request.run_confined hq).answer hsame⟩
  rw [← live_later hnow]
  exact hsame key rfl

/-- A key with two seconds to live, seen after the first and after the third, over a sweep and a
write to another key. -/
theorem unwritten_lives_until_expiry_twice :
    let st : Store ℤ := ⟨(∅ : Data ℤ).insert [1] ⟨.string [2], some 2000000000⟩, ∅⟩
    let steps : List (Env × Request ℤ) :=
      [(⟨1000000000, 0, .byKey⟩, .op .sweepExpired),
        (⟨1000000000, 0, .byKey⟩, .op (.set [3] [4] none false false))]
    (live 1000000000 (runRequests st steps).data [1] =
          ((live 0 st.data [1]).filter fun en => !en.isExpired 1000000000) ∧
        ∀ q : Request ℤ, q.Within {[1]} →
          (q.run ⟨1000000000, 0, .byKey⟩ (runRequests st steps)).2 =
            (q.run ⟨1000000000, 0, .byKey⟩ st).2) ∧
      (live 3000000000 (runRequests st steps).data [1] =
          ((live 0 st.data [1]).filter fun en => !en.isExpired 3000000000) ∧
        ∀ q : Request ℤ, q.Within {[1]} →
          (q.run ⟨3000000000, 0, .byKey⟩ (runRequests st steps)).2 =
            (q.run ⟨3000000000, 0, .byKey⟩ st).2) := by
  have hw : ∀ x ∈ ([(⟨1000000000, 0, .byKey⟩, .op .sweepExpired),
      (⟨1000000000, 0, .byKey⟩, .op (.set [3] [4] none false false))] : List (Env × Request ℤ)),
      x.2.Spares {[1]} := by
    simp [Request.Spares, Op.written, Op.reads, Op.keys]
  constructor
  · exact unwritten_lives_until_expiry (e := ⟨1000000000, 0, .byKey⟩) hw (by decide) (by decide)
  · exact unwritten_lives_until_expiry (e := ⟨3000000000, 0, .byKey⟩) hw (by decide) (by decide)

end Lifetimes

end BurnerRedis
