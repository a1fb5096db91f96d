import BurnerRedis.EmptyContainers
import BurnerRedis.Isolation
import BurnerRedis.ListElements

/-!
# The types of keys

A command for values of one type changes, makes and removes values of that type only
(`ChangesOnly`), also when it takes several steps. HDEL, SREM, ZADD, ZREM and ZREMRANGEBYSCORE drop
an empty container of another type, so for them containers are taken to be filled. SET, ZRANGESTORE,
DEL and EXPIRE are for keys of any type; of these SET and ZRANGESTORE alone give a key a value of
another type (`key_keeps_type`).
-/

namespace BurnerRedis

section Rules

variable {S : Type} [LinearOrder S] {ty : DataType} {now : Instant} {d₀ d d' d'' : Data S}
  {key : Bytes}

/-- Nothing, or a value of the type. -/
def OfType (ty : DataType) (o : Option (ValueEntry S)) : Prop := ∀ en ∈ o, en.data.type = ty

theorem ofType_none : OfType ty (none : Option (ValueEntry S)) := fun _ h => nomatch h

theorem ofType_of_eq_some {o : Option (ValueEntry S)} {en : ValueEntry S} (h : o = some en)
    (hen : en.data.type = ty) : OfType ty o := by
  subst h
  rintro x hx
  cases hx
  exact hen

theorem ofType_of_liveData (h : ∀ x ∈ liveData now d key, x.type = ty) :
    OfType ty (live now d key) :=
  fun en hen => h en.data (liveData_eq hen)

/-- Every key that is changed was missing or of the type, and is so now. -/
def ChangesOnly (ty : DataType) (now : Instant) (d d' : Data S) : Prop :=
  ∀ k, live now d' k = live now d k ∨ OfType ty (live now d k) ∧ OfType ty (live now d' k)

namespace ChangesOnly

theorem of_same (h : ∀ k, live now d' k = live now d k) : ChangesOnly ty now d d' :=
  fun k => .inl (h k)

theorem refl : ChangesOnly ty now d d := of_same fun _ => rfl

theorem trans (h : ChangesOnly ty now d d') (h' : ChangesOnly ty now d' d'') :
    ChangesOnly ty now d d'' := by
  intro k
  rcases h' k with hsame' | ⟨hold', hnew'⟩
  · rw [hsame']
    exact h k
  · rcases h k with hsame | ⟨hold, -⟩
    · exact .inr ⟨hsame ▸ hold', hnew'⟩
    · exact .inr ⟨hold, hnew'⟩

theorem purge : ChangesOnly ty now d (BurnerRedis.purge now key d) := of_same fun _ => live_purge ..

theorem insert (hk : OfType ty (live now d key)) {en : ValueEntry S} (hen : en.data.type = ty) :
    ChangesOnly ty now d (d.insert key en) := by
  intro k
  rw [live_insert]
  split_ifs with h
  · subst h
    refine .inr ⟨hk, fun x hx => ?_⟩
    obtain ⟨hsame, -⟩ := Option.filter_eq_some_iff.mp hx
    cases hsame
    exact hen
  · exact .inl rfl

theorem erase (hk : OfType ty (live now d key)) : ChangesOnly ty now d (d.erase key) := by
  intro k
  rw [live_erase]
  split_ifs with h
  · subst h
    exact .inr ⟨hk, ofType_none⟩
  · exact .inl rfl

end ChangesOnly

/-- Where containers are filled none is found empty. -/
theorem removeIfEmpty_of_filled (h : Holds ValueData.Filled d) : removeIfEmpty key d = d := by
  unfold removeIfEmpty
  cases hk : d[key]? with
  | none => rfl
  | some en =>
    dsimp only
    rw [if_neg (by rw [h key en hk]; exact Bool.false_ne_true)]

theorem Result.changesOnly {ρ : Type} {keys : List Bytes} {u : Use}
    {Q : Option (ValueData S) → Option (ValueData S) → ρ → Prop} {r : Data S × ρ}
    (h : Result now keys ty u Q d r) (hd : u = .drops → Holds ValueData.Filled d) :
    ChangesOnly ty now d r.1 := by
  cases h with
  | same r => exact .refl
  | purged hk r => exact ChangesOnly.purge
  | tidied hu hk r =>
    dsimp only
    rw [removeIfEmpty_of_filled ((hd hu).purge now _)]
    exact ChangesOnly.purge
  | written hu hk hold hx h => exact .insert (ofType_of_liveData hold) hx
  | dropped hu hk hold h => exact .erase (ofType_of_liveData hold)

end Rules

/-! ## Commands in several steps -/

section Steps

variable {S : Type} [LinearOrder S] {now : Instant} {e : Env} {d : Data S} {key : Bytes}

namespace Store

theorem pushMoved_changesOnly {ρ : Type} {dst v : Bytes} {side : ListEnd} {wrong : ρ}
    {moved : Bytes → ρ} (hlive : d[dst]? = live now d dst) :
    ChangesOnly .list now d (pushMoved dst side v wrong moved d).1 := by
  unfold pushMoved
  split
  · rename_i hnone
    exact .insert (by rw [← hlive, hnone]; exact ofType_none) rfl
  · rename_i en hen
    rw [hlive] at hen
    split
    · rename_i l hl
      exact .insert (ofType_of_eq_some hen (by rw [Kind.list.get?_eq_some.mp hl]; rfl)) rfl
    · exact .refl

theorem moveAs_changesOnly {ρ : Type} {src dst : Bytes} {srcFrom dstTo : ListEnd} {nil wrong : ρ}
    {moved : Bytes → ρ} :
    ChangesOnly .list now d (moveAs now src dst srcFrom dstTo nil wrong moved d).1 := by
  have hp : ChangesOnly .list now d (purgePair now src dst d) :=
    .of_same fun _ => live_purgePair ..
  unfold moveAs
  dsimp only
  split
  · exact hp
  · rename_i en hen
    split
    · exact hp
    · rename_i l hl
      have hsrc : live now (purgePair now src dst d) src = some en := by
        rw [live_purgePair, ← getElem?_purgePair_src now src dst, hen]
      have htype : OfType .list (live now (purgePair now src dst d) src) :=
        ofType_of_eq_some hsrc (by rw [Kind.list.get?_eq_some.mp hl]; rfl)
      obtain ⟨x, exp⟩ := en
      split
      · exact hp
      · rename_i rest _
        split_ifs with hfree
        · exact hp
        · have hpop : ChangesOnly .list now (purgePair now src dst d)
              (popMoved src dst ⟨x, exp⟩ rest (purgePair now src dst d)) := by
            unfold popMoved
            split_ifs
            · exact .erase htype
            · exact .insert htype rfl
          have hdst := popMoved_dst rest (live_eq_some.mp hsrc).2 hfree
          exact (hp.trans hpop).trans (pushMoved_changesOnly hdst.1)

theorem pollAs_changesOnly {side : ListEnd} {keys : List Bytes} :
    ChangesOnly .list e.now d (pollAs side e keys d).1 := by
  induction keys generalizing d with
  | nil => exact .refl
  | cons k keys ih =>
    have hp : ChangesOnly .list e.now d (purge e.now k d) := ChangesOnly.purge
    unfold pollAs
    dsimp only
    split
    · exact hp.trans ih
    · rename_i en hen
      split
      · exact hp
      · rename_i l hl
        have htype : OfType .list (live e.now (purge e.now k d) k) := by
          rw [live_purge, ← getElem?_purge]
          exact ofType_of_eq_some hen (by rw [Kind.list.get?_eq_some.mp hl]; rfl)
        split
        · exact hp.trans ih
        · split_ifs
          · exact hp.trans (.erase htype)
          · exact hp.trans (.insert htype rfl)

theorem xreadgroupPairs_changesOnly {group consumer : Bytes} {count : Option ℕ}
    {pairs : List (Bytes × Bytes)} :
    ChangesOnly .stream e.now d (xreadgroupPairs e group consumer count pairs d).1 := by
  induction pairs generalizing d with
  | nil => exact .refl
  | cons pair pairs ih =>
    have hp : ChangesOnly .stream e.now d (purge e.now pair.1 d) := ChangesOnly.purge
    unfold xreadgroupPairs
    dsimp only
    split
    · exact hp
    · rename_i en hen
      split
      · exact hp
      · rename_i s hs
        split
        · exact hp
        · have htype : OfType .stream (live e.now (purge e.now pair.1 d) pair.1) := by
            rw [live_purge, ← getElem?_purge]
            exact ofType_of_eq_some hen (by rw [Kind.stream.get?_eq_some.mp hs]; rfl)
          exact (hp.trans (.insert htype rfl)).trans ih

end Store

end Steps

/-! ## Methods -/

section Methods

variable {S : Type} [LinearOrder S] {e : Env} {d : Data S}

/-- A method changes values of its type only. -/
theorem Op.run_changesOnly {ty : DataType} {o : Op S} (ho : o.type? = some ty)
    (h : o.drops = true → Holds ValueData.Filled d) : ChangesOnly ty e.now d (o.run e d).1 := by
  cases hown : o.ownBody with
  | false =>
    obtain ⟨f, g, hs, -, hrun⟩ := o.shaped e hown
    rw [ho] at hs
    rw [hrun]
    refine (hs.result d).changesOnly fun hu => h ?_
    unfold Op.use at hu
    split_ifs at hu with _ hdrops
    exact hdrops
  | true =>
    cases o with
    | xread keys ids count =>
      exact .of_same fun k => (Store.xreadPairs_sameLive e count (keys.zip ids) d k).symm
    | xreadgroup => cases ho; exact Store.xreadgroupPairs_changesOnly
    | lmoveAtomic => cases ho; exact Store.moveAs_changesOnly
    | rpoplpushAtomic => cases ho; exact Store.moveAs_changesOnly
    | blpopPoll => cases ho; exact Store.pollAs_changesOnly
    | brpopPoll => cases ho; exact Store.pollAs_changesOnly
    | set => cases ho
    | delete => cases ho
    | ttl => cases ho
    | expire => cases ho
    | sweepExpired => cases ho
    | zrangestore => cases ho
    | _ => cases hown

end Methods

/-! ## Commands of a script -/

namespace Script

section Plain

variable {S : Type} [LinearOrder S] {e : Env} {args : List Bytes} {d : Data S}

theorem lmove_changesOnly : ChangesOnly .list e.now d (lmove e args d).1 := by
  unfold lmove
  split
  · split
    · exact .refl
    · split
      · exact .refl
      · exact Store.moveAs_changesOnly
  · exact .refl

theorem rpoplpush_changesOnly : ChangesOnly .list e.now d (rpoplpush e args d).1 := by
  unfold rpoplpush
  split
  · exact Store.moveAs_changesOnly
  · exact .refl

end Plain

section Scores

variable {S : Type} [Score S] {e : Env} {args : List Bytes} {d : Data S}

/-- A command changes values of its type only. -/
theorem dispatchInner_changesOnly {ty : DataType} {cmd : String} (hcmd : type? cmd = some ty)
    (h : drops cmd = true → Holds ValueData.Filled d) :
    ChangesOnly ty e.now d (dispatchInner e cmd args d).1 := by
  apply dispatchInner_elim (motive := fun f => ChangesOnly ty e.now d (f d).1)
  case shape =>
    intro _ hs
    rw [hcmd] at hs
    refine (hs.result d).changesOnly fun hu => h ?_
    unfold use at hu
    split_ifs at hu with _ hdrops
    exact hdrops
  case xread => exact fun _ => .of_same fun k => (xread_sameLive e args d k).symm
  case lmove => rintro rfl; cases hcmd; exact lmove_changesOnly
  case rpoplpush => rintro rfl; cases hcmd; exact rpoplpush_changesOnly
  case expireAs => rintro name unit (rfl | rfl) <;> cases hcmd
  all_goals
    rintro rfl
    cases hcmd

end Scores

end Script

/-! ## Runs -/

/-- If the key has a value before and after, it has kept its type. -/
def KeepsType {S : Type} [LinearOrder S] (now : Instant) (key : Bytes) (d d' : Data S) : Prop :=
  ∀ en en', live now d key = some en → live now d' key = some en' → en'.data.type = en.data.type

section Steps

variable {S : Type} [LinearOrder S] {now : Instant} {e : Env} {d d' : Data S} {key : Bytes}

namespace KeepsType

theorem of_same (h : live now d' key = live now d key) : KeepsType now key d d' := by
  intro en en' hen hen'
  rw [h, hen] at hen'
  cases hen'
  rfl

theorem of_gone (h : live now d' key = none) : KeepsType now key d d' := by
  intro en en' _ hen'
  rw [h] at hen'
  cases hen'

theorem of_changesOnly {ty : DataType} (h : ChangesOnly ty now d d') : KeepsType now key d d' := by
  rcases h key with hsame | ⟨hold, hnew⟩
  · exact of_same hsame
  · intro en en' hen hen'
    rw [hold en hen, hnew en' hen']

theorem erase (k : Bytes) : KeepsType now key d (d.erase k) := by
  by_cases hk : k = key
  · exact of_gone (by rw [live_erase, if_pos hk])
  · exact of_same (by rw [live_erase, if_neg hk])

theorem insert {k : Bytes} {en en' : ValueEntry S} (hl : live now d k = some en)
    (hen : en'.data = en.data) : KeepsType now key d (d.insert k en') := by
  intro x x' hx hx'
  rw [live_insert] at hx'
  split_ifs at hx' with hk
  · obtain ⟨hsame, -⟩ := Option.filter_eq_some_iff.mp hx'
    rw [← hk, hl] at hx
    cases hx
    cases hsame
    rw [hen]
  · rw [hx] at hx'
    cases hx'
    rfl

/-- What is dropped because it is empty does not change its type. -/
theorem removeIfEmpty (h : KeepsType now key d d') (k : Bytes) :
    KeepsType now key d (BurnerRedis.removeIfEmpty k d') := by
  unfold BurnerRedis.removeIfEmpty
  split
  · split_ifs
    · intro en en' hen hen'
      rw [live_erase] at hen'
      split_ifs at hen'
      exact h en en' hen hen'
    · exact h
  · exact h

theorem of_purge {k : Bytes} (h : KeepsType now key (purge now k d) d') : KeepsType now key d d' :=
  fun en en' hen hen' => h en en' ((live_purge ..).trans hen) hen'

end KeepsType

/-- A command of one of the shapes keeps the types, whatever type it is for. -/
theorem Result.keepsType {ρ : Type} {keys : List Bytes} {ty : DataType} {u : Use}
    {Q : Option (ValueData S) → Option (ValueData S) → ρ → Prop} {r : Data S × ρ}
    (h : Result now keys ty u Q d r) (key : Bytes) : KeepsType now key d r.1 := by
  cases h with
  | same r => exact .of_same rfl
  | purged hk r => exact .of_same (live_purge ..)
  | tidied hu hk r => exact KeepsType.removeIfEmpty (.of_same (live_purge ..)) _
  | written hu hk hold hx h => exact .of_changesOnly (.insert (ofType_of_liveData hold) hx)
  | dropped hu hk hold h => exact .erase _

namespace Store

theorem delete_keepsType (ks : List Bytes) : KeepsType e.now key d (delete e ks d).1 := by
  rw [delete, delete_fst]
  have h : live e.now (ks.foldl (fun d k => d.erase k) d) key = none ∨
      live e.now (ks.foldl (fun d k => d.erase k) d) key = live e.now d key := by
    induction ks generalizing d with
    | nil => exact .inr rfl
    | cons k ks ih =>
      rw [List.foldl_cons]
      rcases ih (d := d.erase k) with hgone | hsame
      · exact .inl hgone
      · rw [hsame, live_erase]
        split_ifs
        · exact .inl rfl
        · exact .inr rfl
  exact h.elim KeepsType.of_gone KeepsType.of_same

/-- EXPIRE takes the key away or gives it another expiry. -/
theorem expire_keepsType {k : Bytes} {seconds : ℤ} :
    KeepsType e.now key d (expire e k seconds d).1 := by
  refine .of_purge (k := k) ?_
  unfold expire
  split_ifs
  · exact .erase k
  · split
    · exact .of_same rfl
    · rename_i en hen
      have hl : live e.now (purge e.now k d) k = some en := by
        rw [live_purge, ← getElem?_purge, hen]
      exact .insert hl rfl

end Store

theorem Script.expireAs_keepsType {name : String} {unit : ℕ → Duration} {args : List Bytes} :
    KeepsType e.now key d (expireAs name unit e args d).1 := by
  unfold expireAs
  split
  · rename_i k time
    split
    · exact .of_same rfl
    · refine .of_purge (k := k) ?_
      split_ifs
      · exact .erase k
      · split
        · exact .of_same rfl
        · rename_i en hen
          have hl : live e.now (purge e.now k d) k = some en := by
            rw [live_purge, ← getElem?_purge, hen]
          exact .insert hl rfl
  · exact .of_same rfl

theorem Script.del_keepsType {args : List Bytes} : KeepsType e.now key d (del e args d).1 := by
  unfold del
  split_ifs
  · exact .of_same rfl
  · exact Store.delete_keepsType args

end Steps

section Runs

variable {S : Type} [Score S] {e : Env} {key : Bytes}

/-- The request may put a value of another type under the key: SET, ZRANGESTORE and what a snapshot
brings. -/
def Request.Overwrites (key : Bytes) : Request S → Prop
  | .op (.set k ..) => k = key
  | .op (.zrangestore dst ..) => dst = key
  | .call cmd args => cmd = "SET" ∧ args.head? = some key
  | .loadInto (some _) => True
  | _ => False

theorem Op.exec_keepsType {d : Data S} {o : Op S} (ho : ¬ (Request.op o).Overwrites key) :
    KeepsType e.now key d (o.exec e d).1 := by
  have hother : key ∉ o.written → KeepsType e.now key d (o.exec e d).1 := fun hk =>
    .of_same (Op.exec_others e d hk)
  have htyped : ∀ ty, o.type? = some ty → o.drops = false →
      KeepsType e.now key d (o.exec e d).1 := by
    intro ty hty hdrops
    rw [Op.exec_fst]
    refine .of_changesOnly (Op.run_changesOnly hty fun h => ?_)
    rw [h] at hdrops
    cases hdrops
  cases hown : o.ownBody with
  | false =>
    obtain ⟨f, g, h, hexec, -⟩ := o.shaped e hown
    rw [hexec]
    exact (h.result d).keepsType key
  | true =>
    cases o with
    | set k => exact hother fun hmem => ho (List.mem_singleton.mp hmem).symm
    | zrangestore dst => exact hother fun hmem => ho (List.mem_singleton.mp hmem).symm
    | delete ks => exact Store.delete_keepsType ks
    | expire => exact Store.expire_keepsType
    | ttl => exact hother List.not_mem_nil
    | sweepExpired => exact hother List.not_mem_nil
    | xread => exact htyped _ rfl rfl
    | xreadgroup => exact htyped _ rfl rfl
    | lmoveAtomic => exact htyped _ rfl rfl
    | rpoplpushAtomic => exact htyped _ rfl rfl
    | blpopPoll => exact htyped _ rfl rfl
    | brpopPoll => exact htyped _ rfl rfl
    | _ => cases hown

namespace Script

variable {d : Data S} {cmd : String} {args : List Bytes}

theorem dispatchInner_keepsType (hcmd : ¬ (cmd = "SET" ∧ args.head? = some key)) :
    KeepsType e.now key d (dispatchInner e cmd args d).1 := by
  have hother : key ∉ written cmd args → KeepsType e.now key d (dispatchInner e cmd args d).1 :=
    fun hk => .of_same (dispatchInner_others e d hk)
  apply dispatchInner_elim (motive := fun f => KeepsType e.now key d (f d).1)
  case shape => exact fun _ h => (h.result d).keepsType key
  case set =>
    rintro rfl
    refine hother fun hmem => hcmd ⟨rfl, ?_⟩
    cases args with
    | nil => cases hmem
    | cons k args => exact congrArg some (List.mem_singleton.mp hmem).symm
  case del => exact fun _ => del_keepsType
  case existsKeys => rintro rfl; exact hother List.not_mem_nil
  case expireAs => exact fun _ _ _ => expireAs_keepsType
  case xread => rintro rfl; exact hother List.not_mem_nil
  case lmove => exact fun _ => .of_changesOnly lmove_changesOnly
  case rpoplpush => exact fun _ => .of_changesOnly rpoplpush_changesOnly

end Script

theorem Request.run_keepsType {st : Store S} {q : Request S} (hq : ¬ q.Overwrites key) :
    KeepsType e.now key st.data (q.run e st).1.data := by
  cases q with
  | op o => exact Op.exec_keepsType hq
  | call cmd args => exact Script.dispatchInner_keepsType hq
  | loadInto snapshot => cases snapshot with
    | none => exact .of_same rfl
    | some snapshot => exact absurd trivial hq
  | _ => exact .of_same rfl

/-- The key has a value whenever a request is made. -/
def LivesIn (key : Bytes) : Store S → List (Env × Request S) → Prop
  | _, [] => True
  | st, (e, q) :: steps => (live e.now st.data key).isSome ∧ LivesIn key (q.run e st).1 steps

/-- What is live at a time was live before, if it was there. -/
theorem live_of_live_later {now now' : Instant} (hle : now ≤ now') {d : Data S} {en : ValueEntry S}
    (h : live now' d key = some en) : live now d key = some en := by
  rw [live_later hle] at h
  exact (Option.filter_eq_some_iff.mp h).1

/-- A key that has a value whenever a request of a run is made, and is not overwritten by SET,
ZRANGESTORE or a snapshot, keeps its type. -/
theorem key_keeps_type {st : Store S} {steps : List (Env × Request S)} {now now' : Instant}
    {en en' : ValueEntry S} (ht : InTime steps) (hle : now ≤ now')
    (hbetween : ∀ x ∈ steps, now ≤ x.1.now ∧ x.1.now ≤ now')
    (hw : ∀ x ∈ steps, ¬ x.2.Overwrites key) (hl : LivesIn key st steps)
    (hen : live now st.data key = some en)
    (hen' : live now' (runRequests st steps).data key = some en') :
    en'.data.type = en.data.type := by
  induction steps generalizing st now en with
  | nil =>
    have hsame : en = en' := Option.some.inj (hen.symm.trans (live_of_live_later hle hen'))
    rw [hsame]
  | cons x steps ih =>
    obtain ⟨e, q⟩ := x
    obtain ⟨hnow, hnow'⟩ := hbetween _ List.mem_cons_self
    obtain ⟨hlive, hl⟩ := hl
    obtain ⟨y, hy⟩ := Option.isSome_iff_exists.mp hlive
    have hsame : y = en := Option.some.inj ((live_of_live_later hnow hy).symm.trans hen)
    have hkeeps : KeepsType e.now key st.data (q.run e st).1.data :=
      Request.run_keepsType (hw _ List.mem_cons_self)
    -- the key is there after the request, or it would not be there at the next one or at the end
    obtain ⟨hnext, ht⟩ := List.pairwise_cons.mp ht
    have hafter : ∃ z, live e.now (q.run e st).1.data key = some z := by
      cases steps with
      | nil => exact ⟨en', live_of_live_later hnow' hen'⟩
      | cons x steps =>
        obtain ⟨z, hz⟩ := Option.isSome_iff_exists.mp hl.1
        exact ⟨z, live_of_live_later (hnext x List.mem_cons_self) hz⟩
    obtain ⟨z, hz⟩ := hafter
    rw [← hsame, ← hkeeps y z hy hz]
    exact ih ht hnow' (fun x hx => ⟨hnext x hx, (hbetween x (List.mem_cons_of_mem _ hx)).2⟩)
      (fun x hx => hw x (List.mem_cons_of_mem _ hx)) hl hz hen'

/-- A push to a hash and a list command of a script on it, both refused, and a field put in. -/
def hashMistaken : List (Env × Request ℤ) :=
  [(⟨1, 0, .byKey⟩, .op (.lpush [1] [[7]])), (⟨2, 0, .byKey⟩, .call "RPOP" [[1]]),
    (⟨3, 0, .byKey⟩, .op (.hset [1] [([4], [5])]))]

theorem hashMistaken_keeps_type :
    let st : Store ℤ := ⟨(∅ : Data ℤ).insert [1] ⟨.hash ((∅ : FinMap Bytes Bytes).insert [2] [3]),
      none⟩, ∅⟩
    ∃ en en', live 1 st.data [1] = some en ∧
      live 4 (runRequests st hashMistaken).data [1] = some en' ∧ en'.data.type = en.data.type := by
  intro st
  have hsome : (live 1 st.data [1]).isSome := by decide +kernel
  have hsome' : (live 4 (runRequests st hashMistaken).data [1]).isSome := by decide +kernel
  obtain ⟨en, hen⟩ := Option.isSome_iff_exists.mp hsome
  obtain ⟨en', hen'⟩ := Option.isSome_iff_exists.mp hsome'
  refine ⟨en, en', hen, hen', key_keeps_type ?_ (by decide) ?_ ?_ ?_ hen hen'⟩
  · simp [InTime, hashMistaken]
  · simp [hashMistaken]
  · simp [hashMistaken, Request.Overwrites]
  · exact ⟨by decide +kernel, by decide +kernel, by decide +kernel, trivial⟩

end Runs

end BurnerRedis
