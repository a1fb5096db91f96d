import BurnerRedis.Machine

/-!
# What expired keys can change

`dropExpired` takes the expired entries out of a data map. A command respects the live part of the
data (`Respects`) when it answers the same on any two maps with the same live entries and leaves two
such maps again. Each shape does, whatever it does to a value; the commands with a body of their own
follow, and `Op.exec_respects` puts the methods together.
-/

namespace BurnerRedis

/-! ## Dropping the expired entries -/

section DropExpired

variable {S : Type} [LinearOrder S] {now : Instant} {d d' : Data S}

/-- The data without the entries that have expired. -/
def dropExpired (now : Instant) (d : Data S) : Data S := d.filter fun _ en => !en.isExpired now

theorem getElem?_dropExpired (now : Instant) (d : Data S) (key : Bytes) :
    (dropExpired now d)[key]? = live now d key :=
  Std.ExtTreeMap.getElem?_filter'

theorem sameLive_dropExpired (now : Instant) (d : Data S) : SameLive now d (dropExpired now d) := by
  intro key
  unfold live
  rw [getElem?_dropExpired, live, Option.filter_filter]
  simp only [Bool.and_self]

/-- Two maps are the same without their expired entries when their live entries are. -/
theorem dropExpired_eq_iff : dropExpired now d = dropExpired now d' ↔ SameLive now d d' := by
  constructor
  · intro h key
    rw [← getElem?_dropExpired, h, getElem?_dropExpired]
  · intro h
    refine Std.ExtTreeMap.ext_getElem? fun key => ?_
    rw [getElem?_dropExpired, getElem?_dropExpired, h key]

/-- What has expired stays so. -/
theorem ValueEntry.isExpired_later {en : ValueEntry S} {now' : Instant} (hle : now ≤ now')
    (h : en.isExpired now = true) : en.isExpired now' = true := by
  unfold ValueEntry.isExpired at h ⊢
  cases hexp : en.expiresAt with
  | none =>
    rw [hexp] at h
    cases h
  | some exp =>
    rw [hexp] at h
    simp only [decide_eq_true_eq] at h ⊢
    exact h.trans hle

/-- What is live later is live now and has not expired since. -/
theorem live_later {now' : Instant} (hle : now ≤ now') (d : Data S) (key : Bytes) :
    live now' d key = (live now d key).filter fun en => !en.isExpired now' := by
  unfold live
  rw [Option.filter_filter]
  congr 1
  funext en
  cases hx : en.isExpired now with
  | false => simp
  | true => simp [ValueEntry.isExpired_later hle hx]

theorem SameLive.later {now' : Instant} (hle : now ≤ now') (h : SameLive now d d') :
    SameLive now' d d' := by
  intro key
  rw [live_later hle, live_later hle, h key]

end DropExpired

/-! ## Commands that see the live part only -/

section Respects

variable {S : Type} [LinearOrder S] {ρ : Type*} {V : Type} {now : Instant} {d d' : Data S}

/-- The same live entries, and the same answer. -/
structure Alike (now : Instant) (r r' : Data S × ρ) : Prop where
  data : SameLive now r.1 r'.1
  answer : r.2 = r'.2

/-- What is made of the answer does not matter. -/
theorem Alike.map {σ : Type*} {r r' : Data S × ρ} (h : Alike now r r') (g : ρ → σ) :
    Alike now (r.1, g r.2) (r'.1, g r'.2) :=
  ⟨h.data, congrArg g h.answer⟩

/-- On maps with the same live entries the command gives the same answer, and such maps again. -/
def Respects (now : Instant) (f : Data S → Data S × ρ) : Prop :=
  ∀ {d d'}, SameLive now d d' → Alike now (f d) (f d')

theorem SameLive.purge (h : SameLive now d d') (key : Bytes) :
    SameLive now (purge now key d) (purge now key d') := by
  intro k
  rw [live_purge, live_purge, h k]

theorem SameLive.purgePair (h : SameLive now d d') (src dst : Bytes) :
    SameLive now (purgePair now src dst d) (purgePair now src dst d') := by
  intro k
  rw [live_purgePair, live_purgePair, h k]

theorem live_removeIfEmpty (now : Instant) (key k : Bytes) (d : Data S) :
    live now (removeIfEmpty key d) k =
      if key = k then (live now d k).filter fun en => !en.data.isEmptyContainer
      else live now d k := by
  by_cases hk : key = k
  · subst hk
    rw [if_pos rfl]
    unfold removeIfEmpty
    cases hd : d[key]? with
    | none => simp [live, hd]
    | some en =>
      cases he : en.data.isEmptyContainer <;> cases hx : en.isExpired now <;>
        simp [live, hd, he, hx, Option.filter_some]
  · rw [if_neg hk]
    unfold removeIfEmpty
    split
    · split
      · rw [live_erase, if_neg hk]
      · rfl
    · rfl

theorem SameLive.removeIfEmpty (h : SameLive now d d') (key : Bytes) :
    SameLive now (removeIfEmpty key d) (removeIfEmpty key d') := by
  intro k
  rw [live_removeIfEmpty, live_removeIfEmpty, h k]

theorem reply_respects (r : ρ) : Respects (S := S) now fun d => (d, r) := fun h => ⟨h, rfl⟩

section Shapes

variable {ρ : Type} {t : Kind S V} {key : Bytes} {absent wrong : ρ}

theorem readAs_respects {f : V → ρ} : Respects now (readAs t now key absent wrong f) := by
  intro d d' h
  unfold readAs
  rw [getElem?_purge, getElem?_purge, h key]
  exact ⟨h.purge key, rfl⟩

theorem modifyAs_respects {f : V → V × ρ} : Respects now (modifyAs t now key absent wrong f) := by
  intro d d' h
  unfold modifyAs
  rw [getElem?_purge, getElem?_purge, h key]
  cases live now d' key with
  | none => exact ⟨h.purge key, rfl⟩
  | some en =>
    dsimp only
    cases t.get? en.data with
    | none => exact ⟨h.purge key, rfl⟩
    | some v => exact ⟨(h.purge key).insert key _, rfl⟩

theorem upsertAs_respects {new : V} {f : V → V × ρ} :
    Respects now (upsertAs t now key new wrong f) := by
  intro d d' h
  unfold upsertAs
  rw [getElem?_purge, getElem?_purge, h key]
  cases live now d' key with
  | none => exact ⟨(h.purge key).insert key _, rfl⟩
  | some en =>
    dsimp only
    cases t.get? en.data with
    | none => exact ⟨h.purge key, rfl⟩
    | some v => exact ⟨(h.purge key).insert key _, rfl⟩

theorem shrinkAs_respects {f : List Bytes → List Bytes × ρ} :
    Respects (S := S) now (shrinkAs now key absent wrong f) := by
  intro d d' h
  unfold shrinkAs
  rw [getElem?_purge, getElem?_purge, h key]
  cases live now d' key with
  | none => exact ⟨h.purge key, rfl⟩
  | some en =>
    dsimp only
    cases Kind.list.get? en.data with
    | none => exact ⟨h.purge key, rfl⟩
    | some l =>
      refine ⟨?_, rfl⟩
      dsimp only
      split
      · exact (h.purge key).erase key
      · exact (h.purge key).insert key _

theorem thenRemoveIfEmpty_respects {f : Data S → Data S × ρ} (hf : Respects now f) :
    Respects now fun d => thenRemoveIfEmpty key (f d) :=
  fun h => ⟨(hf h).data.removeIfEmpty key, (hf h).answer⟩

/-- A command of one of the shapes sees live entries only. -/
theorem Shape.respects {keys : List Bytes} {ty : DataType} {u : Use}
    {Q : Option (ValueData S) → Option (ValueData S) → ρ → Prop} {f : Data S → Data S × ρ}
    (h : Shape now keys ty u Q f) : Respects now f := by
  cases h with
  | reply r => exact reply_respects r
  | read => exact readAs_respects
  | modify => exact modifyAs_respects
  | upsert => exact upsertAs_respects
  | shrink => exact shrinkAs_respects
  | modifyDrop => exact thenRemoveIfEmpty_respects modifyAs_respects
  | upsertDrop => exact thenRemoveIfEmpty_respects upsertAs_respects

end Shapes

/-- A command that goes through its keys and counts the live ones. -/
theorem foldl_count_respects {step : Data S → Bytes → Data S}
    (hstep : ∀ {d d' : Data S}, SameLive now d d' → ∀ key, SameLive now (step d key) (step d' key))
    (keys : List Bytes) (n : ℤ) :
    Respects now fun d => keys.foldl (fun (r : Data S × ℤ) key =>
      (step r.1 key, if (live now r.1 key).isSome then r.2 + 1 else r.2)) (d, n) := by
  induction keys generalizing n with
  | nil => exact reply_respects n
  | cons key keys ih =>
    intro d d' h
    simp only [List.foldl_cons, h key]
    exact ih _ (hstep h key)

end Respects

/-! ## The methods -/

namespace Store

variable {S : Type} [LinearOrder S] {e : Env}

/-- SET asks whether the key is live, and then writes over it. -/
theorem set_respects {key value : Bytes} {ttl : Option Duration} {nx xx : Bool} :
    Respects (S := S) e.now (set e key value ttl nx xx) := by
  intro d d' h
  unfold set
  dsimp only
  rw [h key]
  split
  · exact ⟨h, rfl⟩
  · split
    · exact ⟨h, rfl⟩
    · exact ⟨h.insert key _, rfl⟩

theorem delete_respects {keys : List Bytes} : Respects (S := S) e.now (delete e keys) :=
  foldl_count_respects (fun h key => h.erase key) keys 0

theorem ttl_respects {key : Bytes} : Respects (S := S) e.now (ttl e key) := by
  intro d d' h
  unfold ttl
  rw [getElem?_purge, getElem?_purge, h key]
  exact ⟨h.purge key, rfl⟩

theorem expire_respects {key : Bytes} {seconds : ℤ} :
    Respects (S := S) e.now (expire e key seconds) := by
  intro d d' h
  unfold expire
  rw [getElem?_purge, getElem?_purge, h key]
  split
  · exact ⟨(h.purge key).erase key, rfl⟩
  · cases live e.now d' key with
    | none => exact ⟨h.purge key, rfl⟩
    | some en => exact ⟨(h.purge key).insert key _, rfl⟩

/-- ZRANGESTORE reads what is live and writes over its destination. -/
theorem zrangestore_respects {dst src : Bytes} {min max : S} :
    Respects e.now (zrangestore e dst src min max) := by
  intro d d' h
  have hread : Alike e.now (membersToStore e src min max d)
      (membersToStore e src min max d') := readAs_respects h
  unfold zrangestore
  obtain ⟨hdata, hans⟩ := hread
  generalize membersToStore e src min max d = r at hdata hans ⊢
  generalize membersToStore e src min max d' = r' at hdata hans ⊢
  obtain ⟨x, y⟩ := r
  obtain ⟨x', y'⟩ := r'
  cases hans
  cases y with
  | error err => exact ⟨hdata, rfl⟩
  | ok members => cases members with
    | nil => exact ⟨hdata.erase dst, rfl⟩
    | cons p members => exact ⟨hdata.insert dst _, rfl⟩

theorem xreadPairs_respects {count : Option ℕ} {pairs : List (Bytes × StreamId)} :
    Respects (S := S) e.now (xreadPairs e count pairs) := by
  induction pairs with
  | nil => exact reply_respects _
  | cons pair pairs ih =>
    intro d d' h
    have hp := h.purge pair.1
    unfold xreadPairs
    dsimp only
    rw [getElem?_purge, getElem?_purge, h pair.1]
    cases live e.now d' pair.1 with
    | none => exact ih hp
    | some en =>
      dsimp only
      cases Kind.stream.get? en.data with
      | none => exact ⟨hp, rfl⟩
      | some stream => exact (ih hp).map _

theorem xreadgroupPairs_respects {group consumer : Bytes} {count : Option ℕ}
    {pairs : List (Bytes × Bytes)} :
    Respects (S := S) e.now (xreadgroupPairs e group consumer count pairs) := by
  induction pairs with
  | nil => exact reply_respects _
  | cons pair pairs ih =>
    intro d d' h
    have hp := h.purge pair.1
    unfold xreadgroupPairs
    dsimp only
    rw [getElem?_purge, getElem?_purge, h pair.1]
    cases live e.now d' pair.1 with
    | none => exact ⟨hp, rfl⟩
    | some en =>
      dsimp only
      cases Kind.stream.get? en.data with
      | none => exact ⟨hp, rfl⟩
      | some s =>
        dsimp only
        cases s.groups[group]? with
        | none => exact ⟨hp, rfl⟩
        | some cg => exact (ih (hp.insert pair.1 _)).map _

/-! ### Moves and polls -/

section Moves

variable {ρ : Type} {src dst : Bytes} {wrong : ρ} {moved : Bytes → ρ} {d d' : Data S}

/-- The push of a move looks at the destination, which is not taken for expired any more. -/
theorem pushMoved_alike {side : ListEnd} {v : Bytes} (h : SameLive e.now d d')
    (hdst : d[dst]? = d'[dst]?) :
    Alike e.now (pushMoved dst side v wrong moved d)
      (pushMoved dst side v wrong moved d') := by
  unfold pushMoved
  rw [hdst]
  cases d'[dst]? with
  | none => exact ⟨h.insert dst _, rfl⟩
  | some en =>
    dsimp only
    cases Kind.list.get? en.data with
    | none => exact ⟨h, rfl⟩
    | some l => exact ⟨h.insert dst _, rfl⟩

theorem sameLive_popMoved {en : ValueEntry S} {rest : List Bytes} (h : SameLive e.now d d') :
    SameLive e.now (popMoved src dst en rest d) (popMoved src dst en rest d') := by
  unfold popMoved
  split
  · exact h.erase src
  · exact h.insert src _

theorem getElem?_popMoved_dst {en : ValueEntry S} {rest : List Bytes} (hdst : d[dst]? = d'[dst]?) :
    (popMoved src dst en rest d)[dst]? = (popMoved src dst en rest d')[dst]? := by
  unfold popMoved
  split
  · rw [FinMap.getElem?_erase', FinMap.getElem?_erase', hdst]
  · rw [FinMap.getElem?_insert', FinMap.getElem?_insert', hdst]

/-- A move purges both keys before it looks at either. -/
theorem moveAs_respects {srcFrom dstTo : ListEnd} {nil : ρ} :
    Respects (S := S) e.now (moveAs e.now src dst srcFrom dstTo nil wrong moved) := by
  intro d d' h
  have hp := h.purgePair src dst
  have hdst : (purgePair e.now src dst d)[dst]? = (purgePair e.now src dst d')[dst]? := by
    rw [getElem?_purgePair_dst, getElem?_purgePair_dst, h dst]
  unfold moveAs
  dsimp only
  rw [getElem?_purgePair_src, getElem?_purgePair_src, h src]
  cases live e.now d' src with
  | none => exact ⟨hp, rfl⟩
  | some en =>
    dsimp only
    cases Kind.list.get? en.data with
    | none => exact ⟨hp, rfl⟩
    | some l =>
      dsimp only
      cases popEnd srcFrom l with
      | none => exact ⟨hp, rfl⟩
      | some r =>
        dsimp only
        unfold blocksMove
        rw [hdst]
        split
        · exact ⟨hp, rfl⟩
        · exact pushMoved_alike (sameLive_popMoved hp) (getElem?_popMoved_dst hdst)

end Moves

theorem pollAs_respects {side : ListEnd} {keys : List Bytes} :
    Respects (S := S) e.now (pollAs side e keys) := by
  induction keys with
  | nil => exact reply_respects _
  | cons k keys ih =>
    intro d d' h
    have hp := h.purge k
    unfold pollAs
    dsimp only
    rw [getElem?_purge, getElem?_purge, h k]
    cases live e.now d' k with
    | none => exact ih hp
    | some en =>
      dsimp only
      cases Kind.list.get? en.data with
      | none => exact ⟨hp, rfl⟩
      | some l =>
        dsimp only
        cases popEnd side l with
        | none => exact ih hp
        | some r =>
          refine ⟨?_, rfl⟩
          dsimp only
          split
          · exact hp.erase k
          · exact hp.insert k _

end Store

section Exec

variable {S : Type} [LinearOrder S] {now : Instant} {α : Type}

theorem outcome_respects {f : Data S → Data S × Except StoreError α} (hf : Respects now f) :
    Respects now fun d => outcome (f d) :=
  fun h => (hf h).map fun r => (⟨α, r⟩ : Outcome)

theorem outcomeWaking_respects {f : Data S → Data S × Except StoreError α × Wake}
    (hf : Respects now f) : Respects now fun d => outcomeWaking (f d) :=
  fun h => (hf h).map fun r => (⟨α, r.1⟩ : Outcome)

theorem outcomeAlways_respects {f : Data S → Data S × α} (hf : Respects now f) :
    Respects now fun d => outcomeAlways (f d) :=
  fun h => (hf h).map fun r => (⟨α, .ok r⟩ : Outcome)

/-- Every method but the sweep sees the live part of the data only. -/
theorem Op.exec_respects (e : Env) (o : Op S) (ho : o ≠ .sweepExpired) :
    Respects e.now fun d => o.exec e d := by
  cases hown : o.ownBody with
  | false =>
    obtain ⟨f, g, h, hexec, -⟩ := o.shaped e hown
    simp only [hexec]
    exact fun hs => (h.respects hs).map fun r => (g r).1
  | true =>
    cases o with
    | sweepExpired => exact absurd rfl ho
    | set => exact outcomeAlways_respects Store.set_respects
    | delete => exact outcomeAlways_respects Store.delete_respects
    | ttl => exact outcomeAlways_respects Store.ttl_respects
    | expire => exact outcomeAlways_respects Store.expire_respects
    | zrangestore => exact outcome_respects Store.zrangestore_respects
    | xread => exact outcome_respects Store.xreadPairs_respects
    | xreadgroup => exact outcome_respects Store.xreadgroupPairs_respects
    | lmoveAtomic => exact outcomeWaking_respects Store.moveAs_respects
    | rpoplpushAtomic => exact outcomeWaking_respects Store.moveAs_respects
    | blpopPoll => exact outcome_respects Store.pollAs_respects
    | brpopPoll => exact outcome_respects Store.pollAs_respects
    | _ => cases hown

end Exec

end BurnerRedis
