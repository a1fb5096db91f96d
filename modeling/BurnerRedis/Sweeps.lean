import BurnerRedis.Expiry

/-!
# Sweeps cannot be observed

The commands of a script respect the live part of the data too, those of a shape by the rule for
their shape. A `Request` is anything a client can ask of the store, a script's command, or a
snapshot. It is answered the same before and after the expired keys are dropped, and so sweeps put
anywhere into a run change no other reply of it.

What comes from the walk of the whole data map is compared without its order: the order in which a
hash map is walked is not kept when keys are removed from it.
-/

namespace BurnerRedis

/-! ## Commands of a script -/

namespace Script

section Plain

variable {S : Type} [LinearOrder S] {e : Env} {args : List Bytes}

theorem set_respects : Respects (S := S) e.now (set e args) := by
  unfold set
  split
  · rename_i key value rest
    cases setOptions rest {} with
    | error r => exact reply_respects r
    | ok o =>
      intro d d' h
      dsimp only
      rw [h key, insert_purge, insert_purge]
      split
      · exact ⟨h, rfl⟩
      · split
        · exact ⟨h, rfl⟩
        · exact ⟨h.insert key _, rfl⟩
  · exact reply_respects _

theorem del_respects : Respects (S := S) e.now (del e args) := by
  intro d d' h
  unfold del
  split
  · exact ⟨h, rfl⟩
  · exact (foldl_count_respects (fun h key => h.erase key) args 0 h).map integer

theorem existsKeys_respects : Respects (S := S) e.now (existsKeys e args) := by
  intro d d' h
  unfold existsKeys
  split
  · exact ⟨h, rfl⟩
  · exact (foldl_count_respects (fun h key => h.purge key) args 0 h).map integer

theorem expireAs_respects {name : String} {unit : ℕ → Duration} :
    Respects (S := S) e.now (expireAs name unit e args) := by
  unfold expireAs
  split
  · rename_i key time
    cases parseI64 time with
    | none => exact reply_respects _
    | some n =>
      intro d d' h
      dsimp only
      rw [getElem?_purge, getElem?_purge, h key]
      split
      · exact ⟨(h.purge key).erase key, rfl⟩
      · cases live e.now d' key with
        | none => exact ⟨h.purge key, rfl⟩
        | some en => exact ⟨(h.purge key).insert key _, rfl⟩
  · exact reply_respects _

theorem xreadPairs_respects {count : Option ℕ} {pairs : List (Bytes × Bytes)} :
    Respects (S := S) e.now (xreadPairs e count pairs) := by
  induction pairs with
  | nil => exact reply_respects _
  | cons pair pairs ih =>
    intro d d' h
    have hp := h.purge pair.1
    unfold xreadPairs
    dsimp only
    rw [getElem?_purge, getElem?_purge, h pair.1]
    cases live e.now d' pair.1 with
    | none => exact ih hp
    | some en =>
      dsimp only
      cases Kind.stream.get? en.data with
      | none => exact ⟨hp, rfl⟩
      | some stream => exact (ih hp).map _

theorem xread_respects : Respects (S := S) e.now (xread e args) := by
  intro d d' h
  unfold xread
  split
  · exact ⟨h, rfl⟩
  · cases xreadOptions args none with
    | error r => exact ⟨h, rfl⟩
    | ok o =>
      dsimp only
      split
      · exact ⟨h, rfl⟩
      · refine ⟨(xreadPairs_respects h).data, ?_⟩
        dsimp only
        rw [(xreadPairs_respects h).answer]

theorem lmove_respects : Respects (S := S) e.now (lmove e args) := by
  unfold lmove
  split
  · rename_i src dst srcFrom dstTo
    cases parseListEnd (fromUtf8Lossy srcFrom) with
    | error err => exact reply_respects _
    | ok srcFrom =>
      cases parseListEnd (fromUtf8Lossy dstTo) with
      | error err => exact reply_respects _
      | ok dstTo => exact Store.moveAs_respects
  · exact reply_respects _

theorem rpoplpush_respects : Respects (S := S) e.now (rpoplpush e args) := by
  unfold rpoplpush
  split
  · exact Store.moveAs_respects
  · exact reply_respects _

end Plain

section Scores

variable {S : Type} [Score S]

/-- Every command of a script sees the live part of the data only. -/
theorem dispatchInner_respects (e : Env) (cmd : String) (args : List Bytes) :
    Respects (S := S) e.now (dispatchInner e cmd args) := by
  apply dispatchInner_elim (motive := fun f => Respects e.now f)
  case shape => exact fun _ h => h.respects
  case set => exact fun _ => set_respects
  case del => exact fun _ => del_respects
  case existsKeys => exact fun _ => existsKeys_respects
  case expireAs => exact fun _ _ _ => expireAs_respects
  case xread => exact fun _ => xread_respects
  case lmove => exact fun _ => lmove_respects
  case rpoplpush => exact fun _ => rpoplpush_respects

end Scores

end Script

/-! ## Requests -/

/-- What a client can ask of a store: a method, a command of a script, one of the three methods that
only read, or a snapshot written or read. -/
inductive Request (S : Type) where
  | op (o : Op S)
  | call (cmd : String) (args : List Bytes)
  | keys (pattern : Bytes)
  | existsKeys (keys : List Bytes)
  | mget (keys : List Bytes)
  | save
  | loadInto (snapshot : Option (PersistableStore S))

/-- The answer to a request. -/
inductive Response (S : Type) where
  | outcome (o : Outcome)
  | reply (r : Script.Reply)
  | keys (l : List Bytes)
  | count (n : ℤ)
  | values (vs : List (Option Bytes))
  | saved (p : PersistableStore S)
  | loaded (b : Bool)

/-- The same answer; keys and the entries of a snapshot are listed in any order. -/
inductive Response.Same {S : Type} : Response S → Response S → Prop where
  | refl (r : Response S) : Same r r
  | keys {l l' : List Bytes} (h : l.Perm l') : Same (.keys l) (.keys l')
  | saved {p p' : PersistableStore S} (h : p.entries.Perm p'.entries)
      (hs : p.scripts = p'.scripts) : Same (.saved p) (.saved p')

theorem Response.Same.of_eq {S : Type} {r r' : Response S} (h : r = r') : r.Same r' := h ▸ .refl r

theorem Response.Same.symm {S : Type} {r r' : Response S} (h : r.Same r') : r'.Same r := by
  cases h with
  | refl => exact .refl r
  | keys h => exact .keys h.symm
  | saved h hs => exact .saved h.symm hs.symm

theorem Response.Same.trans {S : Type} {r r' r'' : Response S} (h : r.Same r')
    (h' : r'.Same r'') : r.Same r'' := by
  cases h with
  | refl => exact h'
  | keys h => cases h' with
    | refl => exact .keys h
    | keys h' => exact .keys (h.trans h')
  | saved h hs => cases h' with
    | refl => exact .saved h hs
    | saved h' hs' => exact .saved (h.trans h') (hs.trans hs')

theorem forall₂_same_trans {S : Type} {l l' l'' : List (Response S)}
    (h : List.Forall₂ Response.Same l l') (h' : List.Forall₂ Response.Same l' l'') :
    List.Forall₂ Response.Same l l'' := by
  induction h generalizing l'' with
  | nil => exact h'
  | cons hx _ ih => cases h' with
    | cons hy h' => exact .cons (hx.trans hy) (ih h')

/-- The sweep answers how many keys it has removed. -/
def Request.isSweep {S : Type} : Request S → Bool
  | .op .sweepExpired => true
  | _ => false

section Requests

variable {S : Type} [Score S]

/-- The store after a request, and the answer. -/
def Request.run (e : Env) (st : Store S) : Request S → Store S × Response S
  | .op o => ({ st with data := (o.exec e st.data).1 }, .outcome (o.exec e st.data).2)
  | .call cmd args =>
    ({ st with data := (Script.dispatchInner e cmd args st.data).1 },
      .reply (Script.dispatchInner e cmd args st.data).2)
  | .keys pattern => (st, .keys (Store.keys e pattern st.data))
  | .existsKeys ks => (st, .count (Store.existsKeys e ks st.data))
  | .mget ks => (st, .values (Store.mget e ks st.data))
  | .save => (st, .saved (.fromStore e st))
  | .loadInto none => (st, .loaded false)
  | .loadInto (some snapshot) => (snapshot.intoRuntime e.now, .loaded true)

/-- The store without the keys that have expired. -/
def Store.dropExpired (now : Instant) (st : Store S) : Store S :=
  { st with data := BurnerRedis.dropExpired now st.data }

/-- Stores that differ in expired keys only. -/
structure Store.SameLive (now : Instant) (st st' : Store S) : Prop where
  data : BurnerRedis.SameLive now st.data st'.data
  scripts : st.scripts = st'.scripts

variable {now : Instant} {st st' : Store S}

theorem Store.SameLive.dropExpired_eq (h : st.SameLive now st') :
    st.dropExpired now = st'.dropExpired now := by
  unfold Store.dropExpired
  rw [dropExpired_eq_iff.mpr h.data, h.scripts]

theorem Store.sameLive_dropExpired (now : Instant) (st : Store S) :
    st.SameLive now (st.dropExpired now) :=
  ⟨BurnerRedis.sameLive_dropExpired now st.data, rfl⟩

/-- A walk past the expired entries meets the same entries in both maps. -/
theorem walk_live_perm (o : FinMap.WalkOrder) {d d' : Data S} (h : BurnerRedis.SameLive now d d') :
    ((d.walk o).filter fun p => !p.2.isExpired now).Perm
      ((d'.walk o).filter fun p => !p.2.isExpired now) := by
  have hwalk : ∀ d : Data S, ((d.walk o).filter fun p => !p.2.isExpired now).Perm
      (BurnerRedis.dropExpired now d).toList := by
    intro d
    unfold BurnerRedis.dropExpired
    rw [Std.ExtTreeMap.toList_filter]
    exact (FinMap.walk_perm o d).filter _
  refine (hwalk d).trans ?_
  rw [dropExpired_eq_iff.mpr h]
  exact (hwalk d').symm

theorem Store.keys_perm (e : Env) (pattern : Bytes) {d d' : Data S}
    (h : BurnerRedis.SameLive e.now d d') :
    (Store.keys e pattern d).Perm (Store.keys e pattern d') := by
  have hsplit : ∀ d : Data S, Store.keys e pattern d =
      (((d.walk e.walk).filter fun p => !p.2.isExpired e.now).filter fun p =>
        globMatch pattern p.1).map Prod.fst := by
    intro d
    rw [List.filter_filter]
    unfold Store.keys
    simp only [Bool.and_comm]
  rw [hsplit, hsplit]
  exact ((walk_live_perm e.walk h).filter _).map _

/-- A request that is no sweep gets the same answer from stores that differ in expired keys only,
and leaves such stores. -/
theorem Request.run_same (e : Env) (q : Request S) (hq : q.isSweep = false)
    (h : st.SameLive e.now st') :
    (q.run e st).2.Same (q.run e st').2 ∧ (q.run e st).1.SameLive e.now (q.run e st').1 := by
  obtain ⟨hdata, hscripts⟩ := h
  cases q with
  | op o =>
    have ho : o ≠ .sweepExpired := by
      rintro rfl
      cases hq
    have hr := o.exec_respects e ho hdata
    have hans : (o.exec e st.data).2 = (o.exec e st'.data).2 := hr.answer
    exact ⟨.of_eq (congrArg Response.outcome hans), hr.data, hscripts⟩
  | call cmd args =>
    have hr := Script.dispatchInner_respects e cmd args hdata
    exact ⟨.of_eq (congrArg Response.reply hr.answer), hr.data, hscripts⟩
  | keys pattern => exact ⟨.keys (Store.keys_perm e pattern hdata), hdata, hscripts⟩
  | existsKeys ks =>
    have hans : Store.existsKeys e ks st.data = Store.existsKeys e ks st'.data := by
      simp only [Store.existsKeys, hdata _]
    exact ⟨.of_eq (congrArg Response.count hans), hdata, hscripts⟩
  | mget ks =>
    have hans : Store.mget e ks st.data = Store.mget e ks st'.data := by
      simp only [Store.mget, hdata _]
    exact ⟨.of_eq (congrArg Response.values hans), hdata, hscripts⟩
  | save =>
    refine ⟨.saved ?_ ?_, hdata, hscripts⟩
    · exact (walk_live_perm e.walk hdata).map _
    · exact congrArg (FinMap.walk e.walk) hscripts
  | loadInto snapshot => cases snapshot with
    | none => exact ⟨.refl _, hdata, hscripts⟩
    | some snapshot => exact ⟨.refl _, .refl, rfl⟩

/-! ## Runs -/

theorem foldl_erase_sameLive {d : Data S} {keys : List Bytes}
    (hk : ∀ key ∈ keys, live now d key = none) :
    BurnerRedis.SameLive now d (keys.foldl (fun d key => d.erase key) d) := by
  induction keys generalizing d with
  | nil => exact .refl
  | cons key keys ih =>
    have herase : BurnerRedis.SameLive now d (d.erase key) := by
      intro k
      rw [live_erase]
      split_ifs with h
      · rw [← h, hk key List.mem_cons_self]
      · rfl
    refine herase.trans (ih fun k hmem => ?_)
    rw [← herase k]
    exact hk k (List.mem_cons_of_mem key hmem)

/-- A sweep removes expired keys only. -/
theorem Store.sweepExpired_sameLive (e : Env) (d : Data S) :
    BurnerRedis.SameLive e.now d (Store.sweepExpired e d).1 := by
  apply foldl_erase_sameLive
  intro key hkey
  obtain ⟨⟨k, en⟩, hmem, rfl⟩ := List.mem_map.mp hkey
  obtain ⟨hin, hexp⟩ := List.mem_filter.mp hmem
  have hwalk := (List.mem_filter.mp ((List.take_sublist 20 _).subset hin)).1
  rw [FinMap.mem_walk] at hwalk
  simp only [live, hwalk, Option.filter_some, hexp]
  rfl

/-- The answers of a run, those of its sweeps left out. -/
def answers (st : Store S) : List (Env × Request S) → List (Response S)
  | [] => []
  | (e, q) :: steps =>
    if q.isSweep then answers (q.run e st).1 steps
    else (q.run e st).2 :: answers (q.run e st).1 steps

/-- The clock of a run does not go back. -/
def InTime (steps : List (Env × Request S)) : Prop :=
  steps.Pairwise fun a b => a.1.now ≤ b.1.now

/-- The requests of a run that are no sweeps, with the clocks they read. -/
def withoutSweeps (steps : List (Env × Request S)) : List (Env × Request S) :=
  steps.filter fun s => !s.2.isSweep

theorem Request.run_isSweep {e : Env} {q : Request S} (hq : q.isSweep = true) :
    st.SameLive e.now (q.run e st).1 := by
  unfold Request.isSweep at hq
  split at hq
  · exact ⟨Store.sweepExpired_sameLive e st.data, rfl⟩
  · cases hq

theorem Store.SameLive.later {now' : Instant} (hle : now ≤ now') (h : st.SameLive now st') :
    st.SameLive now' st' :=
  ⟨h.data.later hle, h.scripts⟩

theorem Store.SameLive.trans {st'' : Store S} (h : st.SameLive now st')
    (h' : st'.SameLive now st'') : st.SameLive now st'' :=
  ⟨h.data.trans h'.data, h.scripts.trans h'.scripts⟩

theorem Store.SameLive.symm (h : st.SameLive now st') : st'.SameLive now st :=
  ⟨h.data.symm, h.scripts.symm⟩

/-- A run and the run without its sweeps, from stores that differ in expired keys only. -/
theorem answers_withoutSweeps {steps : List (Env × Request S)} (ht : InTime steps)
    (hnow : ∀ s ∈ steps, now ≤ s.1.now) (h : st.SameLive now st') :
    List.Forall₂ Response.Same (answers st steps) (answers st' (withoutSweeps steps)) := by
  induction steps generalizing now st st' with
  | nil => exact .nil
  | cons s steps ih =>
    obtain ⟨e, q⟩ := s
    obtain ⟨hlater, hrest⟩ := List.pairwise_cons.mp ht
    have he : st.SameLive e.now st' := h.later (hnow _ List.mem_cons_self)
    cases hq : q.isSweep with
    | true =>
      have hsweep : st.SameLive e.now (q.run e st).1 := Request.run_isSweep hq
      have hrun := hsweep.symm.trans he
      simp only [answers, withoutSweeps, List.filter_cons, hq, Bool.not_true,
        Bool.false_eq_true, if_false, if_true]
      exact ih hrest hlater hrun
    | false =>
      obtain ⟨hsame, hrun⟩ := Request.run_same e q hq he
      simp only [answers, withoutSweeps, List.filter_cons, hq, Bool.not_false, if_true,
        Bool.false_eq_true, if_false]
      exact .cons hsame (ih hrest hlater hrun)

theorem answers_same_withoutSweeps (st : Store S) {steps : List (Env × Request S)}
    (ht : InTime steps) :
    List.Forall₂ Response.Same (answers st steps) (answers st (withoutSweeps steps)) := by
  cases steps with
  | nil => exact .nil
  | cons s steps =>
    have hfirst : ∀ s' ∈ s :: steps, s.1.now ≤ s'.1.now := by
      intro s' hs'
      rcases List.mem_cons.mp hs' with rfl | hs'
      · exact le_rfl
      · exact (List.pairwise_cons.mp ht).1 s' hs'
    exact answers_withoutSweeps ht hfirst ⟨.refl, rfl⟩

/-- Expired keys are seen by no request, and by no run whatever sweeps there are in it. -/
theorem expired_unobservable :
    (∀ (e : Env) (st : Store S) (q : Request S), q.isSweep = false →
      (q.run e st).2.Same (q.run e (st.dropExpired e.now)).2 ∧
      (q.run e st).1.dropExpired e.now =
        (q.run e (st.dropExpired e.now)).1.dropExpired e.now) ∧
    ∀ (st : Store S) (steps steps' : List (Env × Request S)), InTime steps → InTime steps' →
      withoutSweeps steps = withoutSweeps steps' →
      List.Forall₂ Response.Same (answers st steps) (answers st steps') := by
  constructor
  · intro e st q hq
    obtain ⟨hans, hst⟩ := Request.run_same e q hq (st.sameLive_dropExpired e.now)
    exact ⟨hans, hst.dropExpired_eq⟩
  · intro st steps steps' ht ht' heq
    have h := answers_same_withoutSweeps st ht
    have h' := answers_same_withoutSweeps st ht'
    rw [heq] at h
    exact forall₂_same_trans h (h'.imp fun _ _ => Response.Same.symm).flip

/-- A string that has expired, and a sweep before it is read. -/
theorem expired_unobservable_swept :
    List.Forall₂ Response.Same
      (answers (S := ℤ) ⟨(∅ : Data ℤ).insert [1] ⟨.string [2], some 5⟩, ∅⟩
        [(⟨7, 0, .byKey⟩, .op (.get [1])), (⟨7, 0, .byKey⟩, .keys [42])])
      (answers (S := ℤ) ⟨(∅ : Data ℤ).insert [1] ⟨.string [2], some 5⟩, ∅⟩
        [(⟨6, 0, .byKey⟩, .op .sweepExpired), (⟨7, 0, .byKey⟩, .op (.get [1])),
          (⟨7, 0, .byKey⟩, .keys [42])]) :=
  expired_unobservable.2 _ _ _ (by simp [InTime]) (by simp [InTime]) rfl

end Requests

end BurnerRedis
