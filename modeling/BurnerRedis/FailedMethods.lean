import BurnerRedis.Machine

/-!
# A failed method changes nothing

A method that answers an error leaves the live keys, their values and their expiries as they were.
XREADGROUP is another matter: it keeps what it has read before the key that fails. Of the others,
two kinds break this. XADD makes the key before it looks at the id, so a first id of 0-0 leaves an
empty stream; and HDEL, SREM, ZADD, ZREM and ZREMRANGEBYSCORE, when they find a value of another type,
remove it if it is an empty container.
-/

namespace BurnerRedis

section Methods

variable {S : Type} [LinearOrder S] {e : Env} {d : Data S} {key : Bytes}

/-- A call that changes the live data although it fails. -/
def Op.ChangesOnFailure (e : Env) (d : Data S) : Op S → Prop
  | .xadd key _ id => live e.now d key = none ∧ ∃ explicitId ∈ id, explicitId ≤ StreamId.zero
  | .hdel key _ => EmptyOther .hash e.now d key
  | .srem key _ => EmptyOther .set e.now d key
  | .zadd key _ _ => EmptyOther .sortedSet e.now d key
  | .zrem key _ => EmptyOther .sortedSet e.now d key
  | .zremrangebyscore key _ _ => EmptyOther .sortedSet e.now d key
  | _ => False

/-- The results of a method that are errors. -/
def IsError {α : Type} (r : Except StoreError α) : Prop := ∃ err, r = .error err

theorem not_isError_ok {α : Type} {x : α} : ¬ IsError (.ok x : Except StoreError α) := by
  rintro ⟨err, h⟩
  cases h

namespace Store

theorem zrangestore_failed {dst src : Bytes} {min max : S}
    (h : IsError (zrangestore e dst src min max d).2) :
    SameLive e.now d (zrangestore e dst src min max d).1 := by
  have hp : (membersToStore e src min max d).1 = purge e.now src d := rfl
  unfold zrangestore at h ⊢
  split at h
  · rename_i hm
    rw [hm] at hp
    obtain rfl := hp
    exact sameLive_purge e.now src d
  · exact absurd h not_isError_ok
  · exact absurd h not_isError_ok

/-- Only an explicit id is refused. -/
theorem newStreamId_eq_none_iff {wall : UInt64} {lastId : StreamId}
    {id : Option StreamId} :
    newStreamId wall lastId id = none ↔ ∃ explicitId ∈ id, explicitId ≤ lastId := by
  unfold newStreamId
  cases id with
  | none =>
    dsimp only
    split_ifs <;> simp
  | some explicitId => simp

/-- XADD fails on a new stream for an id that is not above 0-0. -/
theorem xadd_failed_iff {fields : Fields} {id : Option StreamId} :
    (IsError (xadd e key fields id d).2.1 → SameLive e.now d (xadd e key fields id d).1) ↔
      ¬ (live e.now d key = none ∧ ∃ explicitId ∈ id, explicitId ≤ StreamId.zero) := by
  refine (upsertAs_failed_iff (fun r : Except StoreError StreamId × Wake => IsError r.1)
    fun s hf => ?_).trans ?_
  · cases hnew : newStreamId e.wall s.lastId id with
    | none => rfl
    | some newId =>
      rw [hnew] at hf
      exact absurd hf not_isError_ok
  · refine not_congr (and_congr_right fun _ => ?_)
    have hnone : newStreamId e.wall Stream.new.lastId id = none ↔
        ∃ explicitId ∈ id, explicitId ≤ Stream.new.lastId := newStreamId_eq_none_iff
    refine Iff.trans ?_ hnone
    cases newStreamId e.wall Stream.new.lastId id with
    | none => exact iff_of_true ⟨_, rfl⟩ rfl
    | some newId => exact iff_of_false not_isError_ok nofun

theorem xreadPairs_sameLive (e : Env) (count : Option ℕ) (pairs : List (Bytes × StreamId))
    (d : Data S) : SameLive e.now d (xreadPairs e count pairs d).1 := by
  induction pairs generalizing d with
  | nil => exact .refl
  | cons pair pairs ih =>
    have hp : SameLive e.now d (purge e.now pair.1 d) := sameLive_purge e.now pair.1 d
    unfold xreadPairs
    dsimp only
    split
    · exact hp.trans (ih _)
    · split
      · exact hp
      · exact hp.trans (ih _)

/-- The scan of a blocking pop fails before it has popped anything. -/
theorem pollAs_failed {side : ListEnd} {keys : List Bytes}
    (h : IsError (pollAs side e keys d).2) : SameLive e.now d (pollAs side e keys d).1 := by
  induction keys generalizing d with
  | nil => exact .refl
  | cons k keys ih =>
    have hp : SameLive e.now d (purge e.now k d) := sameLive_purge e.now k d
    unfold pollAs at h ⊢
    dsimp only at h ⊢
    split at h
    · exact hp.trans (ih h)
    · split at h
      · exact hp
      · split at h
        · exact hp.trans (ih h)
        · exact absurd h not_isError_ok

/-- The push of a move does not fail: the destination has been checked, and the source itself is a
list. -/
theorem pushMoved_popMoved {ρ : Type} {src dst v : Bytes} {side : ListEnd} {rest : List Bytes}
    {en : ValueEntry S} {wrong : ρ} {moved : Bytes → ρ} (hb : blocksMove d src dst = false) :
    (pushMoved dst side v wrong moved (popMoved src dst en rest d)).2 = moved v := by
  unfold pushMoved
  by_cases hsrc : src = dst
  · subst hsrc
    have hget : (popMoved src src en rest d)[src]? = some { en with data := .list rest } := by
      unfold popMoved
      rw [if_neg (by simp), FinMap.getElem?_insert', if_pos rfl]
    rw [hget]
    rfl
  · have hget : (popMoved src dst en rest d)[dst]? = d[dst]? := by
      unfold popMoved
      split_ifs
      · exact FinMap.getElem?_erase_ne d hsrc
      · exact FinMap.getElem?_insert_ne d hsrc _
    rw [hget]
    cases hd : d[dst]? with
    | none => rfl
    | some x =>
      unfold blocksMove at hb
      rw [hd, decide_eq_true hsrc, Bool.true_and, Option.any_some] at hb
      dsimp only
      split
      · rfl
      · rename_i hlist
        rw [hlist] at hb
        cases hb

theorem moveAs_failed {ρ : Type} (fails : ρ → Prop) {now : Instant} {src dst : Bytes}
    {srcFrom dstTo : ListEnd} {nil wrong : ρ} {moved : Bytes → ρ} (hm : ∀ v, ¬ fails (moved v))
    (h : fails (moveAs now src dst srcFrom dstTo nil wrong moved d).2) :
    SameLive now d (moveAs now src dst srcFrom dstTo nil wrong moved d).1 := by
  have hp := sameLive_purgePair now src dst d
  unfold moveAs at h ⊢
  dsimp only at h ⊢
  split at h
  · exact hp
  · split at h
    · exact hp
    · split at h
      · exact hp
      · split_ifs at h ⊢ with hb
        · exact hp
        · rw [pushMoved_popMoved (Bool.eq_false_iff.mpr hb)] at h
          exact absurd h (hm _)

theorem lmoveAtomic_failed {src dst : Bytes} {srcFrom dstTo : ListEnd}
    (h : IsError (lmoveAtomic e src dst srcFrom dstTo d).2.1) :
    SameLive e.now d (lmoveAtomic e src dst srcFrom dstTo d).1 :=
  moveAs_failed (fun r : Except StoreError (Option Bytes) × Wake => IsError r.1)
    (fun _ => not_isError_ok) h

end Store

/-- A failed method of one of the shapes changes nothing, but for XADD and those that drop what they
find empty. -/
theorem Op.failed_unchanged {o : Op S} (ht : o.Typed) (hown : o.ownBody = false)
    (hdrops : o.drops = false) (hx : ∀ key fields id, o ≠ .xadd key fields id)
    (hf : (o.exec e d).2.Fails) : SameLive e.now d (o.exec e d).1 := by
  have huse : o.use ≠ .drops := by
    unfold Op.use
    rw [hdrops, if_neg Bool.false_ne_true]
    split_ifs <;> decide
  obtain ⟨f, g, h, hexec, -⟩ := o.shaped e hown
  rw [hexec] at hf ⊢
  exact (h.result d).sameLive (p := fun r => (g r).1.Fails) huse (fun hq => hq.unchanged ht hx) hf

/-- When a method that fails leaves the live keys, their values and their expiries as they were. -/
theorem Op.failed_unchanged_iff {o : Op S} (ht : o.Typed)
    (hx : ∀ group consumer keys ids count, o ≠ .xreadgroup group consumer keys ids count) :
    ((o.exec e d).2.Fails → SameLive e.now d (o.exec e d).1) ↔ ¬ o.ChangesOnFailure e d := by
  have safe : ∀ {p : Prop}, p → (p ↔ ¬ False) := fun h => iff_of_true h not_false
  have never : ∀ {α : Type} {x : α} {p : Prop}, IsError (.ok x : Except StoreError α) → p :=
    fun h => absurd h not_isError_ok
  cases o with
  -- the methods that may change something
  | xadd => exact Store.xadd_failed_iff
  | hdel =>
    exact modifyAs_removeIfEmpty_failed_iff IsError not_isError_ok ⟨_, rfl⟩ fun _ => not_isError_ok
  | srem =>
    exact modifyAs_removeIfEmpty_failed_iff IsError not_isError_ok ⟨_, rfl⟩ fun _ => not_isError_ok
  | zadd => exact upsertAs_removeIfEmpty_failed_iff IsError ⟨_, rfl⟩ fun _ => not_isError_ok
  | zrem =>
    exact modifyAs_removeIfEmpty_failed_iff IsError not_isError_ok ⟨_, rfl⟩ fun _ => not_isError_ok
  | zremrangebyscore =>
    exact modifyAs_removeIfEmpty_failed_iff IsError not_isError_ok ⟨_, rfl⟩ fun _ => not_isError_ok
  -- the methods with bodies of their own
  | set => exact safe never
  | delete => exact safe never
  | ttl => exact safe never
  | expire => exact safe never
  | sweepExpired => exact safe never
  | zrangestore => exact safe Store.zrangestore_failed
  | xread => exact safe fun _ => Store.xreadPairs_sameLive e _ _ d
  | xreadgroup => exact absurd rfl (hx _ _ _ _ _)
  | lmoveAtomic => exact safe Store.lmoveAtomic_failed
  | rpoplpushAtomic => exact safe Store.lmoveAtomic_failed
  | blpopPoll => exact safe Store.pollAs_failed
  | brpopPoll => exact safe Store.pollAs_failed
  | _ => exact safe (Op.failed_unchanged ht rfl rfl nofun)

end Methods

/-- A hash, and HINCRBY of a field in it that is no number. -/
def wordHash : Instant × Store ℤ :=
  runActions id (0, ⟨∅, ∅⟩) [.op 0 .byKey (.hset (ascii "h") [(ascii "f", ascii "v")])]

theorem wordHash_unchanged :
    SameLive 0 wordHash.2.data
      ((Op.hincrby (ascii "h") (ascii "f") 1).exec ⟨0, 0, .byKey⟩ wordHash.2.data).1 :=
  (Op.failed_unchanged_iff (o := .hincrby (ascii "h") (ascii "f") 1) (e := ⟨0, 0, .byKey⟩)
    (d := wordHash.2.data) (by show InI64 1; decide) nofun).mpr not_false
      ⟨.syntaxError "ERR hash value is not an integer", by rfl⟩

/-- A set without members. -/
def setOfNothing : Instant × Store ℤ :=
  runActions id (0, ⟨∅, ∅⟩) [.op 0 .byKey (.sadd (ascii "k") [])]

/-- XADD with the id 0-0 for a key that is not there, and HDEL for an empty set. -/
theorem failed_methods_change :
    Reachable anyAction id setOfNothing.1 setOfNothing.2 ∧
    ((Op.xadd (ascii "s") ∅ (some .zero)).exec ⟨0, 0, .byKey⟩ setOfNothing.2.data).2.Fails ∧
    ¬ SameLive 0 setOfNothing.2.data
      ((Op.xadd (ascii "s") ∅ (some .zero)).exec ⟨0, 0, .byKey⟩ setOfNothing.2.data).1 ∧
    ((Op.hdel (ascii "k") []).exec ⟨0, 0, .byKey⟩ setOfNothing.2.data).2.Fails ∧
    ¬ SameLive 0 setOfNothing.2.data
      ((Op.hdel (ascii "k") []).exec ⟨0, 0, .byKey⟩ setOfNothing.2.data).1 := by
  refine ⟨Reachable.runActions (.empty 0) _, ⟨.wrongType, by rfl⟩, fun h => ?_,
    ⟨.wrongType, by rfl⟩, fun h => ?_⟩
  · have hk := h (ascii "s")
    exact absurd hk (by decide +kernel)
  · have hk := h (ascii "k")
    exact absurd hk (by decide +kernel)

end BurnerRedis
