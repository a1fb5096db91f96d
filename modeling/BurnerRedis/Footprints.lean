import BurnerRedis.KeyFrame
import BurnerRedis.Lib.Confined

/-!
# The keys a method works on

A method is confined to the keys it is called with: it changes no other live entry, and neither its
answer nor what it leaves under these keys depends on any other (`Op.exec_touches`). The commands
look at one key after the other, and what they do next is decided by what they see (`touches_look`).
-/

namespace BurnerRedis

open Locality

variable {S : Type} [LinearOrder S] {ρ : Type*} {now : Instant} {P : Set Bytes} {key : Bytes}
  {d d' : Data S}

/-- The command is confined to the keys in `P`, as far as live entries go. -/
abbrev Touches (now : Instant) (P : Set Bytes) (f : Data S → Data S × ρ) : Prop :=
  Confined (live now) P f

/-! ## One key -/

/-- What a command can do to a key it has looked at. -/
inductive KeyEdit (S : Type) [LinearOrder S] where
  | keep
  | put (en : ValueEntry S)
  | drop

def KeyEdit.apply (now : Instant) (key : Bytes) (d : Data S) : KeyEdit S → Data S
  | .keep => purge now key d
  | .put en => d.insert key en
  | .drop => d.erase key

theorem KeyEdit.live_apply (ed : KeyEdit S) (d : Data S) {k : Bytes} (hk : key ≠ k) :
    live now (ed.apply now key d) k = live now d k := by
  cases ed with
  | keep => exact live_purge now key k d
  | put en => rw [apply, live_insert, if_neg hk]
  | drop => rw [apply, live_erase, if_neg hk]

theorem KeyEdit.sameOn_apply (ed : KeyEdit S) (h : SameOn (live now) P d d') :
    SameOn (live now) P (ed.apply now key d) (ed.apply now key d') := by
  intro k hk
  have hk := h k hk
  cases ed with
  | keep => simpa only [apply, live_purge] using hk
  | put en => simp only [apply, live_insert, hk]
  | drop => simp only [apply, live_erase, hk]

/-- What is done to the key, and what is done next, are decided by the live entry of the key. -/
theorem touches_look_then {f : Data S → Data S × ρ} (hk : key ∈ P)
    (h : ∀ d d' : Data S, live now d key = live now d' key →
      ∃ (ed : KeyEdit S) (g : Data S → Data S × ρ), Touches now P g ∧
        f d = g (ed.apply now key d) ∧ f d' = g (ed.apply now key d')) : Touches now P f where
  frame d k hkP := by
    obtain ⟨ed, g, hg, hd, -⟩ := h d d rfl
    have hne : key ≠ k := fun he => hkP (he ▸ hk)
    rw [hd, hg.frame _ k hkP, ed.live_apply d hne]
  answer {d d'} hs := by
    obtain ⟨ed, g, hg, hd, hd'⟩ := h d d' (hs key hk)
    rw [hd, hd']
    exact hg.answer (ed.sameOn_apply hs)
  result {d d'} hs := by
    obtain ⟨ed, g, hg, hd, hd'⟩ := h d d' (hs key hk)
    rw [hd, hd']
    exact hg.result (ed.sameOn_apply hs)

/-- What is done to the key and what is answered are decided by the live entry of the key. -/
theorem touches_look {f : Data S → Data S × ρ} (hk : key ∈ P)
    (h : ∀ d d' : Data S, live now d key = live now d' key → ∃ (ed : KeyEdit S) (r : ρ),
      f d = (ed.apply now key d, r) ∧ f d' = (ed.apply now key d', r)) : Touches now P f :=
  touches_look_then hk fun d d' hl =>
    let ⟨ed, r, hd, hd'⟩ := h d d' hl
    ⟨ed, fun d => (d, r), confined_pure r, hd, hd'⟩

theorem touches_insert (hk : key ∈ P) (en : ValueEntry S) (r : ρ) :
    Touches now P fun d => (d.insert key en, r) :=
  touches_look hk fun _ _ _ => ⟨.put en, r, rfl, rfl⟩

theorem touches_erase (hk : key ∈ P) (r : ρ) :
    Touches (S := S) now P fun d => (d.erase key, r) :=
  touches_look hk fun _ _ _ => ⟨.drop, r, rfl, rfl⟩

/-! ## The shapes of a command -/

section Shapes

variable {V ρ : Type} {t : Kind S V} {absent wrong : ρ}

theorem readAs_touches {f : V → ρ} (hk : key ∈ P) :
    Touches now P (readAs t now key absent wrong f) := by
  refine touches_look hk fun d d' hl => ?_
  unfold readAs
  rw [getElem?_purge, getElem?_purge, hl]
  exact ⟨.keep, _, rfl, rfl⟩

theorem modifyAs_touches {f : V → V × ρ} (hk : key ∈ P) :
    Touches now P (modifyAs t now key absent wrong f) := by
  refine touches_look hk fun d d' hl => ?_
  unfold modifyAs
  simp only [getElem?_purge, insert_purge, hl]
  cases live now d' key with
  | none => exact ⟨.keep, _, rfl, rfl⟩
  | some en =>
    dsimp only
    cases t.get? en.data with
    | none => exact ⟨.keep, _, rfl, rfl⟩
    | some v => exact ⟨.put _, _, rfl, rfl⟩

theorem upsertAs_touches {new : V} {f : V → V × ρ} (hk : key ∈ P) :
    Touches now P (upsertAs t now key new wrong f) := by
  refine touches_look hk fun d d' hl => ?_
  unfold upsertAs
  simp only [getElem?_purge, insert_purge, hl]
  cases live now d' key with
  | none => exact ⟨.put _, _, rfl, rfl⟩
  | some en =>
    dsimp only
    cases t.get? en.data with
    | none => exact ⟨.keep, _, rfl, rfl⟩
    | some v => exact ⟨.put _, _, rfl, rfl⟩

theorem shrinkAs_touches {f : List Bytes → List Bytes × ρ} (hk : key ∈ P) :
    Touches (S := S) now P (shrinkAs now key absent wrong f) := by
  refine touches_look hk fun d d' hl => ?_
  unfold shrinkAs
  simp only [getElem?_purge, insert_purge, erase_purge, hl]
  cases live now d' key with
  | none => exact ⟨.keep, _, rfl, rfl⟩
  | some en =>
    dsimp only
    cases Kind.list.get? en.data with
    | none => exact ⟨.keep, _, rfl, rfl⟩
    | some l =>
      dsimp only
      split
      · exact ⟨.drop, _, rfl, rfl⟩
      · exact ⟨.put _, _, rfl, rfl⟩

theorem removeIfEmpty_touches (hk : key ∈ P) (r : ρ) :
    Touches (S := S) now P fun d => (removeIfEmpty key d, r) where
  frame d k hkP := by
    have hne : key ≠ k := fun he => hkP (he ▸ hk)
    rw [live_removeIfEmpty, if_neg hne]
  answer _ := rfl
  result {d d'} hs k hkP := by
    simp only [live_removeIfEmpty, hs k hkP]

theorem thenRemoveIfEmpty_touches {f : Data S → Data S × ρ} (hk : key ∈ P)
    (hf : Touches now P f) : Touches now P fun d => thenRemoveIfEmpty key (f d) :=
  hf.bind fun r => removeIfEmpty_touches hk r

/-- A command of one of the shapes is confined to the key it looks at. -/
theorem Shape.touches {keys : List Bytes} {ty : DataType} {u : Use}
    {Q : Option (ValueData S) → Option (ValueData S) → ρ → Prop} {f : Data S → Data S × ρ}
    (h : Shape now keys ty u Q f) (hP : ∀ key ∈ keys, key ∈ P) : Touches now P f := by
  cases h with
  | reply r => exact confined_pure r
  | read hk => exact readAs_touches (hP _ hk)
  | modify hu hk => exact modifyAs_touches (hP _ hk)
  | upsert hu hk => exact upsertAs_touches (hP _ hk)
  | shrink hu hk => exact shrinkAs_touches (hP _ hk)
  | modifyDrop hu hk => exact thenRemoveIfEmpty_touches (hP _ hk) (modifyAs_touches (hP _ hk))
  | upsertDrop hu hk => exact thenRemoveIfEmpty_touches (hP _ hk) (upsertAs_touches (hP _ hk))

end Shapes

/-- A command that goes through its keys, does the same to each and counts the live ones. -/
theorem touches_foldl_count {step : Data S → Bytes → Data S} (ed : KeyEdit S)
    (hstep : ∀ d key, step d key = ed.apply now key d) {keys : List Bytes}
    (hk : ∀ key ∈ keys, key ∈ P) (n : ℤ) :
    Touches now P fun d => keys.foldl (fun (r : Data S × ℤ) key =>
      (step r.1 key, if (live now r.1 key).isSome then r.2 + 1 else r.2)) (d, n) := by
  obtain rfl : step = fun d key => ed.apply now key d := by
    funext d key
    exact hstep d key
  induction keys generalizing n with
  | nil => exact confined_pure n
  | cons key keys ih =>
    refine touches_look_then (hk key List.mem_cons_self) fun d d' hl => ?_
    simp only [List.foldl_cons, hl]
    exact ⟨ed, _, ih (fun k hm => hk k (List.mem_cons_of_mem _ hm)) _, rfl, rfl⟩

/-! ## The methods -/

namespace Store

variable {e : Env}

/-- SET looks at its key without dropping it first. -/
theorem set_touches {value : Bytes} {ttl : Option Duration} {nx xx : Bool} (hk : key ∈ P) :
    Touches (S := S) e.now P (set e key value ttl nx xx) where
  frame d k hkP := by
    have hne : key ≠ k := fun he => hkP (he ▸ hk)
    unfold set
    dsimp only
    split_ifs
    · rfl
    · rfl
    · rw [live_insert, if_neg hne]
  answer {d d'} hs := by
    unfold set
    dsimp only
    rw [hs key hk]
    split_ifs <;> rfl
  result {d d'} hs := by
    unfold set
    dsimp only
    rw [hs key hk]
    split_ifs
    · exact hs
    · exact hs
    · exact KeyEdit.sameOn_apply (.put _) hs

theorem ttl_touches (hk : key ∈ P) : Touches (S := S) e.now P (ttl e key) := by
  refine touches_look hk fun d d' hl => ?_
  unfold ttl
  rw [getElem?_purge, getElem?_purge, hl]
  exact ⟨.keep, _, rfl, rfl⟩

theorem expire_touches {seconds : ℤ} (hk : key ∈ P) :
    Touches (S := S) e.now P (expire e key seconds) := by
  refine touches_look hk fun d d' hl => ?_
  unfold expire
  simp only [getElem?_purge, insert_purge, erase_purge, hl]
  split
  · exact ⟨.drop, _, rfl, rfl⟩
  · cases live e.now d' key with
    | none => exact ⟨.keep, _, rfl, rfl⟩
    | some en => exact ⟨.put _, _, rfl, rfl⟩

theorem delete_touches {keys : List Bytes} (hk : ∀ key ∈ keys, key ∈ P) :
    Touches (S := S) e.now P (delete e keys) :=
  touches_foldl_count .drop (fun _ _ => rfl) hk 0

/-- What ZRANGESTORE does once it has read the source. -/
def storeMembers (dst : Bytes) :
    Except StoreError (List (ScoredMember S)) → Data S → Data S × Except StoreError ℤ
  | .error err => fun d => (d, .error err)
  | .ok [] => fun d => (d.erase dst, .ok 0)
  | .ok members => fun d =>
    (d.insert dst ⟨.sortedSet (.insertAll .new members), none⟩, .ok members.length)

theorem zrangestore_eq {dst src : Bytes} {min max : S} :
    zrangestore e dst src min max = fun d =>
      storeMembers dst (membersToStore e src min max d).2 (membersToStore e src min max d).1 := by
  funext d
  unfold zrangestore
  split <;> rename_i h <;> simp only [h, storeMembers]

theorem storeMembers_touches {dst : Bytes} (hdst : dst ∈ P) :
    ∀ r, Touches (S := S) now P (storeMembers dst r)
  | .error _ => confined_pure _
  | .ok [] => touches_erase hdst _
  | .ok (_ :: _) => touches_insert hdst _ _

/-- ZRANGESTORE reads its source, then writes its destination. -/
theorem zrangestore_touches {dst src : Bytes} {min max : S} (hdst : dst ∈ P) (hsrc : src ∈ P) :
    Touches e.now P (zrangestore e dst src min max) := by
  have hread : Touches e.now P (membersToStore e src min max) := readAs_touches hsrc
  rw [zrangestore_eq]
  exact hread.bind (storeMembers_touches hdst)

/-- The source of ZRANGESTORE is only read. -/
theorem zrangestore_others {dst src k : Bytes} {min max : S} (hk : k ≠ dst) :
    live e.now (zrangestore e dst src min max d).1 k = live e.now d k := by
  have hstore : Touches e.now {dst} (storeMembers dst (membersToStore e src min max d).2) :=
    storeMembers_touches (Set.mem_singleton dst) _
  rw [zrangestore_eq, hstore.frame _ k hk]
  exact live_purge e.now src k d

theorem xreadPairs_touches {count : Option ℕ} {pairs : List (Bytes × StreamId)}
    (hk : ∀ p ∈ pairs, p.1 ∈ P) : Touches (S := S) e.now P (xreadPairs e count pairs) := by
  induction pairs with
  | nil => exact confined_pure _
  | cons pair pairs ih =>
    have ih := ih fun p hp => hk p (List.mem_cons_of_mem _ hp)
    refine touches_look_then (hk pair List.mem_cons_self) fun d d' hl => ?_
    unfold xreadPairs
    simp only [getElem?_purge, hl]
    cases live e.now d' pair.1 with
    | none => exact ⟨.keep, _, ih, rfl, rfl⟩
    | some en =>
      dsimp only
      cases Kind.stream.get? en.data with
      | none => exact ⟨.keep, _, confined_pure _, rfl, rfl⟩
      | some stream => exact ⟨.keep, _, ih.map _, rfl, rfl⟩

/-- XREADGROUP stops at the first key that fails, which the keys before do not decide. -/
theorem xreadgroupPairs_touches {group consumer : Bytes} {count : Option ℕ}
    {pairs : List (Bytes × Bytes)} (hk : ∀ p ∈ pairs, p.1 ∈ P) :
    Touches (S := S) e.now P (xreadgroupPairs e group consumer count pairs) := by
  induction pairs with
  | nil => exact confined_pure _
  | cons pair pairs ih =>
    have ih := ih fun p hp => hk p (List.mem_cons_of_mem _ hp)
    refine touches_look_then (hk pair List.mem_cons_self) fun d d' hl => ?_
    unfold xreadgroupPairs
    simp only [getElem?_purge, insert_purge, hl]
    cases live e.now d' pair.1 with
    | none => exact ⟨.keep, _, confined_pure _, rfl, rfl⟩
    | some en =>
      dsimp only
      cases Kind.stream.get? en.data with
      | none => exact ⟨.keep, _, confined_pure _, rfl, rfl⟩
      | some s =>
        dsimp only
        cases s.groups[group]? with
        | none => exact ⟨.keep, _, confined_pure _, rfl, rfl⟩
        | some cg => exact ⟨.put _, _, ih.map _, rfl, rfl⟩

/-! ### Moves and polls -/

section Moves

variable {ρ : Type} {src dst : Bytes} {nil wrong : ρ} {moved : Bytes → ρ} {srcFrom dstTo : ListEnd}

theorem pushMoved_sameOn {v : Bytes} (h : SameOn (live e.now) P d d') (hdst : d[dst]? = d'[dst]?) :
    (pushMoved dst dstTo v wrong moved d).2 = (pushMoved dst dstTo v wrong moved d').2 ∧
      SameOn (live e.now) P (pushMoved dst dstTo v wrong moved d).1
        (pushMoved dst dstTo v wrong moved d').1 := by
  unfold pushMoved
  rw [hdst]
  cases d'[dst]? with
  | none => exact ⟨rfl, KeyEdit.sameOn_apply (.put _) h⟩
  | some en =>
    dsimp only
    cases Kind.list.get? en.data with
    | none => exact ⟨rfl, h⟩
    | some l => exact ⟨rfl, KeyEdit.sameOn_apply (.put _) h⟩

theorem popMoved_sameOn {en : ValueEntry S} {rest : List Bytes} (h : SameOn (live e.now) P d d') :
    SameOn (live e.now) P (popMoved src dst en rest d) (popMoved src dst en rest d') := by
  unfold popMoved
  split
  · exact KeyEdit.sameOn_apply .drop h
  · exact KeyEdit.sameOn_apply (.put _) h

/-- A move sees its two keys only. -/
theorem moveAs_sameOn (hsrc : src ∈ P) (hdst : dst ∈ P) (h : SameOn (live e.now) P d d') :
    (moveAs e.now src dst srcFrom dstTo nil wrong moved d).2 =
        (moveAs e.now src dst srcFrom dstTo nil wrong moved d').2 ∧
      SameOn (live e.now) P (moveAs e.now src dst srcFrom dstTo nil wrong moved d).1
        (moveAs e.now src dst srcFrom dstTo nil wrong moved d').1 := by
  have hp : SameOn (live e.now) P (purgePair e.now src dst d) (purgePair e.now src dst d') := by
    intro k hk
    rw [live_purgePair, live_purgePair, h k hk]
  have hget : (purgePair e.now src dst d)[dst]? = (purgePair e.now src dst d')[dst]? := by
    rw [getElem?_purgePair_dst, getElem?_purgePair_dst, h dst hdst]
  unfold moveAs
  dsimp only
  rw [getElem?_purgePair_src, getElem?_purgePair_src, h src hsrc]
  cases live e.now d' src with
  | none => exact ⟨rfl, hp⟩
  | some en =>
    dsimp only
    cases Kind.list.get? en.data with
    | none => exact ⟨rfl, hp⟩
    | some l =>
      dsimp only
      cases popEnd srcFrom l with
      | none => exact ⟨rfl, hp⟩
      | some r =>
        dsimp only
        unfold blocksMove
        rw [hget]
        split
        · exact ⟨rfl, hp⟩
        · exact pushMoved_sameOn (popMoved_sameOn hp) (getElem?_popMoved_dst hget)

theorem moveAs_touches (hsrc : src ∈ P) (hdst : dst ∈ P) :
    Touches (S := S) e.now P (moveAs e.now src dst srcFrom dstTo nil wrong moved) where
  frame d k hkP := by
    have hframes : Frames e.now [] [src, dst] d
        (moveAs e.now src dst srcFrom dstTo nil wrong moved d).1 :=
      moveAs_frames (by simp) (by simp)
    apply hframes.others
    rintro hk
    rcases List.mem_cons.mp hk with rfl | hk
    · exact hkP hsrc
    · rw [List.mem_singleton] at hk
      exact hkP (hk ▸ hdst)
  answer hs := (moveAs_sameOn hsrc hdst hs).1
  result hs := (moveAs_sameOn hsrc hdst hs).2

end Moves

/-- The scan of a blocking pop goes on until a list has an element. -/
theorem pollAs_touches {side : ListEnd} {keys : List Bytes} (hk : ∀ key ∈ keys, key ∈ P) :
    Touches (S := S) e.now P (pollAs side e keys) := by
  induction keys with
  | nil => exact confined_pure _
  | cons k keys ih =>
    have ih := ih fun x hx => hk x (List.mem_cons_of_mem _ hx)
    refine touches_look_then (hk k List.mem_cons_self) fun d d' hl => ?_
    unfold pollAs
    simp only [getElem?_purge, insert_purge, erase_purge, hl]
    cases live e.now d' k with
    | none => exact ⟨.keep, _, ih, rfl, rfl⟩
    | some en =>
      dsimp only
      cases Kind.list.get? en.data with
      | none => exact ⟨.keep, _, confined_pure _, rfl, rfl⟩
      | some l =>
        dsimp only
        cases popEnd side l with
        | none => exact ⟨.keep, _, ih, rfl, rfl⟩
        | some r =>
          dsimp only
          split
          · exact ⟨.drop, _, confined_pure _, rfl, rfl⟩
          · exact ⟨.put _, _, confined_pure _, rfl, rfl⟩

end Store

section Exec

variable {α : Type}

theorem outcome_touches {f : Data S → Data S × Except StoreError α} (hf : Touches now P f) :
    Touches now P fun d => outcome (f d) :=
  hf.map fun r => (⟨α, r⟩ : Outcome)

theorem outcomeWaking_touches {f : Data S → Data S × Except StoreError α × Wake}
    (hf : Touches now P f) : Touches now P fun d => outcomeWaking (f d) :=
  hf.map fun r => (⟨α, r.1⟩ : Outcome)

theorem outcomeAlways_touches {f : Data S → Data S × α} (hf : Touches now P f) :
    Touches now P fun d => outcomeAlways (f d) :=
  hf.map fun r => (⟨α, .ok r⟩ : Outcome)

/-- Every method but the sweep is confined to the keys it is called with. -/
theorem Op.exec_touches (e : Env) (o : Op S) (ho : o ≠ .sweepExpired)
    (hk : ∀ key ∈ o.keys, key ∈ P) : Touches e.now P fun d => o.exec e d := by
  have hone : ∀ {k : Bytes}, o.keys = [k] → k ∈ P := by
    intro k h
    exact hk k (h ▸ List.mem_singleton_self k)
  have hpair : ∀ {dst src : Bytes}, o.keys = [dst, src] → dst ∈ P ∧ src ∈ P := by
    intro dst src h
    exact ⟨hk dst (by simp [h]), hk src (by simp [h])⟩
  cases hown : o.ownBody with
  | false =>
    obtain ⟨f, g, h, hexec, -⟩ := o.shaped e hown
    simp only [hexec]
    exact (h.touches hk).map fun r => (g r).1
  | true =>
    cases o with
    | sweepExpired => exact absurd rfl ho
    | set => exact outcomeAlways_touches (Store.set_touches (hone rfl))
    | delete => exact outcomeAlways_touches (Store.delete_touches hk)
    | ttl => exact outcomeAlways_touches (Store.ttl_touches (hone rfl))
    | expire => exact outcomeAlways_touches (Store.expire_touches (hone rfl))
    | zrangestore =>
      obtain ⟨hdst, hsrc⟩ := hpair rfl
      exact outcome_touches (Store.zrangestore_touches hdst hsrc)
    | xread keys ids count =>
      exact outcome_touches (Store.xreadPairs_touches fun p hp => hk p.1 (List.of_mem_zip hp).1)
    | xreadgroup group consumer keys ids count =>
      exact outcome_touches
        (Store.xreadgroupPairs_touches fun p hp => hk p.1 (List.of_mem_zip hp).1)
    | lmoveAtomic =>
      obtain ⟨hdst, hsrc⟩ := hpair rfl
      exact outcomeWaking_touches (Store.moveAs_touches hsrc hdst)
    | rpoplpushAtomic =>
      obtain ⟨hdst, hsrc⟩ := hpair rfl
      exact outcomeWaking_touches (Store.moveAs_touches hsrc hdst)
    | blpopPoll => exact outcome_touches (Store.pollAs_touches hk)
    | brpopPoll => exact outcome_touches (Store.pollAs_touches hk)
    | _ => cases hown

end Exec

end BurnerRedis
