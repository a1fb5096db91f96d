import BurnerRedis.Invariants
import BurnerRedis.Machine

/-!
# Containers with nothing in them

A hash, set, sorted set or list goes with its last element. Three commands break this: HSET without
fields and SADD without members, called as methods, and ZADD in a script when its first score is no
number; each puts an empty container under a key that has no value. `Op.run_filled_iff` and
`Script.dispatchInner_filled_iff` say that these are the only ones, and `Reachable.no_empty_container`
is the invariant of the runs without them.
-/

namespace BurnerRedis

/-- Fields or members are given, or the key has a live value. -/
def Op.Fills {S : Type} [LinearOrder S] (e : Env) (d : Data S) : Op S → Prop
  | .hset key [] => (live e.now d key).isSome
  | .sadd key [] => (live e.now d key).isSome
  | _ => True

/-- The first score is a number, or the key has a live value. -/
def Script.Fills {S : Type} [Score S] (e : Env) (d : Data S) (cmd : String) (args : List Bytes) :
    Prop :=
  ∀ key score member rest, cmd = "ZADD" → args = key :: score :: member :: rest →
    rest.length % 2 = 0 → live e.now d key = none → ∃ s : S, Script.scoreArg score = some s

section Rules

variable {S : Type} [LinearOrder S] {V ρ : Type} {t : Kind S V} {now : Instant} {key : Bytes}
  {d : Data S} {absent wrong : ρ}

/-- Every key but one is filled. -/
def FilledBut (key : Bytes) (d : Data S) : Prop :=
  ∀ k en, k ≠ key → d[k]? = some en → en.data.Filled

theorem Holds.filledBut (h : Holds ValueData.Filled d) (key : Bytes) : FilledBut key d :=
  fun k en _ hk => h k en hk

theorem FilledBut.insert (h : FilledBut key d) (en : ValueEntry S) :
    FilledBut key (d.insert key en) := by
  intro k x hne hk
  rw [FinMap.getElem?_insert_ne d (Ne.symm hne)] at hk
  exact h k x hne hk

theorem FilledBut.holds_insert (h : FilledBut key d) {en : ValueEntry S} (hen : en.data.Filled) :
    Holds ValueData.Filled (d.insert key en) := by
  intro k x hk
  rw [FinMap.getElem?_insert'] at hk
  split_ifs at hk with hkey
  · cases hk
    exact hen
  · exact h k x (Ne.symm hkey) hk

theorem FilledBut.removeIfEmpty (h : FilledBut key d) :
    Holds ValueData.Filled (removeIfEmpty key d) := by
  unfold BurnerRedis.removeIfEmpty
  cases hd : d[key]? with
  | none =>
    intro k x hk
    by_cases hkey : k = key
    · rw [hkey, hd] at hk
      cases hk
    · exact h k x hkey hk
  | some en =>
    dsimp only
    split_ifs with he
    · intro k x hk
      rw [FinMap.getElem?_erase'] at hk
      split_ifs at hk with hkey
      exact h k x (Ne.symm hkey) hk
    · intro k x hk
      by_cases hkey : k = key
      · rw [hkey, hd] at hk
        cases hk
        exact Bool.eq_false_iff.mpr he
      · exact h k x hkey hk

/-- A command leaves no container empty when it writes none that is. -/
theorem Result.filled {keys : List Bytes} {ty : DataType} {u : Use}
    {Q : Option (ValueData S) → Option (ValueData S) → ρ → Prop} {r : Data S × ρ}
    (hr : Result now keys ty u Q d r)
    (hQ : ∀ key ∈ keys, ∀ new r, Q (liveData now d key) new r →
      (∀ x ∈ liveData now d key, x.Filled) → ∀ x ∈ new, x.Filled)
    (h : Holds ValueData.Filled d) : Holds ValueData.Filled r.1 := by
  have hold : ∀ key, ∀ x ∈ liveData now d key, x.Filled := by
    intro key x hx
    obtain ⟨en, hen, rfl⟩ := Option.map_eq_some_iff.mp hx
    exact h.live hen
  cases hr with
  | same r => exact h
  | purged hk r => exact h.purge now _
  | tidied hu hk r => exact ((h.purge now _).filledBut _).removeIfEmpty
  | written hu hk ht hx hq => exact h.insert (hQ _ hk _ _ hq (hold _) _ rfl)
  | dropped hu hk ht hq => exact h.erase _

end Rules

/-! ## Methods -/

section Methods

variable {S : Type} [LinearOrder S] {e : Env} {d : Data S} {key : Bytes}

namespace Store

theorem zrangestore_filled (h : Holds ValueData.Filled d) {dst src : Bytes} {min max : S} :
    Holds ValueData.Filled (zrangestore e dst src min max d).1 := by
  unfold zrangestore
  have hr : Holds ValueData.Filled (membersToStore e src min max d).1 := h.purge e.now _
  split
  · rename_i hm
    rwa [hm] at hr
  · rename_i hm
    rw [hm] at hr
    exact hr.erase dst
  · rename_i hne hm
    rw [hm] at hr
    refine hr.insert (filled_sortedSet (SortedSet.len_insertAll_ne_zero (.inr ?_)))
    exact hne

theorem pushMoved_filled {ρ : Type} {dst v : Bytes} {side : ListEnd} {wrong : ρ} {moved : Bytes → ρ}
    (h : FilledBut dst d) (hd : ∀ en, d[dst]? = some en → en.data.Filled ∨ ∃ l, en.data = .list l) :
    Holds ValueData.Filled (pushMoved dst side v wrong moved d).1 := by
  unfold pushMoved
  split
  · exact h.holds_insert (filled_list (List.cons_ne_nil v []))
  · rename_i en hen
    split
    · exact h.holds_insert (filled_list (pushEnd_ne_nil side v _))
    · rename_i hlist
      intro k x hk
      by_cases hkey : k = dst
      · subst hkey
        rw [hen] at hk
        cases hk
        rcases hd en hen with hfill | ⟨l, hl⟩
        · exact hfill
        · rw [hl] at hlist
          cases hlist
      · exact h k x hkey hk

theorem moveAs_filled {ρ : Type} {src dst : Bytes} {srcFrom dstTo : ListEnd} {nil wrong : ρ}
    {moved : Bytes → ρ} {now : Instant} (h : Holds ValueData.Filled d) :
    Holds ValueData.Filled (moveAs now src dst srcFrom dstTo nil wrong moved d).1 := by
  have hp : Holds ValueData.Filled (purgePair now src dst d) := by
    unfold purgePair
    split_ifs
    · exact h.purge now src
    · exact (h.purge now src).purge now dst
  unfold moveAs
  dsimp only
  split
  · exact hp
  · rename_i en hen
    split
    · exact hp
    · rename_i l hl
      split
      · exact hp
      · rename_i popped rest hpop
        split_ifs
        · exact hp
        · unfold popMoved
          by_cases hsrc : src = dst
          · -- the list is pushed back to, whatever is left of it
            subst hsrc
            have hself : (rest.isEmpty && decide (src ≠ src)) = false := by simp
            rw [hself, if_neg Bool.false_ne_true]
            refine pushMoved_filled ((hp.filledBut src).insert _) fun x hx => .inr ⟨rest, ?_⟩
            rw [FinMap.getElem?_insert', if_pos rfl] at hx
            cases hx
            rfl
          · have hrest : Holds ValueData.Filled (if (rest.isEmpty && decide (src ≠ dst)) = true
                then (purgePair now src dst d).erase src
                else (purgePair now src dst d).insert src { en with data := .list rest }) := by
              split_ifs with hempty
              · exact hp.erase src
              · refine hp.insert (filled_list fun hnil => hempty ?_)
                rw [hnil]
                simpa using hsrc
            exact pushMoved_filled (hrest.filledBut dst) fun x hx => .inl (hrest dst x hx)

theorem pollAs_filled (h : Holds ValueData.Filled d) {side : ListEnd} {keys : List Bytes} :
    Holds ValueData.Filled (pollAs side e keys d).1 := by
  induction keys generalizing d with
  | nil => exact h
  | cons k keys ih =>
    have hp : Holds ValueData.Filled (purge e.now k d) := h.purge e.now k
    unfold pollAs
    dsimp only
    split
    · exact ih hp
    · split
      · exact hp
      · split
        · exact ih hp
        · split_ifs with hempty
          · exact hp.erase k
          · rw [List.isEmpty_iff] at hempty
            exact hp.insert (filled_list hempty)

theorem foldl_erase_filled (h : Holds ValueData.Filled d) (keys : List Bytes) :
    Holds ValueData.Filled (keys.foldl (fun d key => d.erase key) d) := by
  induction keys generalizing d with
  | nil => exact h
  | cons key keys ih => exact ih (h.erase key)

theorem xreadPairs_filled (h : Holds ValueData.Filled d) {count : Option ℕ}
    {pairs : List (Bytes × StreamId)} :
    Holds ValueData.Filled (xreadPairs e count pairs d).1 := by
  induction pairs generalizing d with
  | nil => exact h
  | cons pair pairs ih =>
    have hp : Holds ValueData.Filled (purge e.now pair.1 d) := h.purge e.now pair.1
    unfold xreadPairs
    dsimp only
    split
    · exact ih hp
    · split
      · exact hp
      · exact ih hp

theorem xreadgroupPairs_filled (h : Holds ValueData.Filled d) {group consumer : Bytes}
    {count : Option ℕ} {pairs : List (Bytes × Bytes)} :
    Holds ValueData.Filled (xreadgroupPairs e group consumer count pairs d).1 := by
  induction pairs generalizing d with
  | nil => exact h
  | cons pair pairs ih =>
    have hp : Holds ValueData.Filled (purge e.now pair.1 d) := h.purge e.now pair.1
    unfold xreadgroupPairs
    dsimp only
    split
    · exact hp
    · split
      · exact hp
      · split
        · exact hp
        · refine ih (hp.insert ?_)
          rfl

theorem set_filled (h : Holds ValueData.Filled d) {value : Bytes} {ttl : Option Duration}
    {nx xx : Bool} : Holds ValueData.Filled (set e key value ttl nx xx d).1 := by
  unfold set
  dsimp only
  split_ifs
  · exact h
  · exact h
  · refine h.insert ?_
    rfl

theorem expire_filled (h : Holds ValueData.Filled d) {seconds : ℤ} :
    Holds ValueData.Filled (expire e key seconds d).1 := by
  have hp : Holds ValueData.Filled (purge e.now key d) := h.purge e.now key
  unfold expire
  split_ifs
  · exact hp.erase key
  · split
    · exact hp
    · rename_i en hen
      exact hp.insert (hp key en hen)

end Store

/-- There is something to put under a key without a value. -/
theorem Op.Fills.gives {o : Op S} (hf : o.Fills e d) (hk : key ∈ o.keys)
    (hl : liveData e.now d key = none) : o.Gives := by
  rw [liveData, Option.map_eq_none_iff] at hl
  have hnone : ∀ k, key ∈ [k] → ¬ (live e.now d k).isSome := by
    rintro k hk hsome
    rw [← List.mem_singleton.mp hk, hl] at hsome
    cases hsome
  cases o with
  | hset k fields =>
    rintro rfl
    exact hnone k hk hf
  | sadd k members =>
    rintro rfl
    exact hnone k hk hf
  | _ => trivial

/-- A method leaves no container empty when it is given something to put in. -/
theorem Op.run_filled {o : Op S} (ht : o.Typed) (hf : o.Fills e d) (h : Holds ValueData.Filled d) :
    Holds ValueData.Filled (o.run e d).1 := by
  cases hown : o.ownBody with
  | false =>
    obtain ⟨f, g, hs, -, hrun⟩ := o.shaped e hown
    rw [hrun]
    exact (hs.result d).filled (fun _ hk _ _ hq => hq.filled ht (hf.gives hk)) h
  | true =>
    cases o with
    | set => exact Store.set_filled h
    | delete keys =>
      show Holds ValueData.Filled (Store.delete e keys d).1
      rw [Store.delete, Store.delete_fst]
      exact Store.foldl_erase_filled h keys
    | ttl => exact h.purge e.now _
    | expire => exact Store.expire_filled h
    | sweepExpired => exact Store.foldl_erase_filled h _
    | zrangestore => exact Store.zrangestore_filled h
    | xread => exact Store.xreadPairs_filled h
    | xreadgroup => exact Store.xreadgroupPairs_filled h
    | lmoveAtomic => exact Store.moveAs_filled h
    | rpoplpushAtomic => exact Store.moveAs_filled h
    | blpopPoll => exact Store.pollAs_filled h
    | brpopPoll => exact Store.pollAs_filled h
    | _ => cases hown

theorem not_filled_of_insert {en : ValueEntry S} (hen : en.data.isEmptyContainer = true) :
    ¬ Holds ValueData.Filled (d.insert key en) := by
  intro h
  have hfill := h key en (by rw [FinMap.getElem?_insert', if_pos rfl])
  rw [ValueData.Filled, hen] at hfill
  cases hfill

/-- These are the only methods that leave one. -/
theorem Op.run_filled_iff {o : Op S} (ht : o.Typed) (h : Holds ValueData.Filled d) :
    Holds ValueData.Filled (o.run e d).1 ↔ o.Fills e d := by
  refine ⟨fun hrun => ?_, fun hf => Op.run_filled ht hf h⟩
  by_contra hf
  revert hrun
  cases o with
  | hset key fields =>
    cases fields with
    | nil =>
      have hl : live e.now d key = none := Option.not_isSome_iff_eq_none.mp hf
      show ¬ Holds ValueData.Filled (Store.hset e key [] d).1
      rw [Store.hset, upsertAs_absent hl]
      exact not_filled_of_insert rfl
    | cons => exact absurd trivial hf
  | sadd key members =>
    cases members with
    | nil =>
      have hl : live e.now d key = none := Option.not_isSome_iff_eq_none.mp hf
      show ¬ Holds ValueData.Filled (Store.sadd e key [] d).1
      rw [Store.sadd, upsertAs_absent hl]
      exact not_filled_of_insert rfl
    | cons => exact absurd trivial hf
  | _ => exact absurd trivial hf

end Methods

/-! ## Commands of a script -/

namespace Script

section Plain

variable {S : Type} [LinearOrder S] {e : Env} {args : List Bytes} {d : Data S}

theorem set_filled (h : Holds ValueData.Filled d) : Holds ValueData.Filled (set e args d).1 := by
  unfold set
  split
  · rename_i key value rest
    split
    · exact h
    · dsimp only
      split_ifs
      · exact h
      · exact h
      · rw [insert_purge]
        refine h.insert ?_
        rfl
  · exact h

theorem del_filled (h : Holds ValueData.Filled d) : Holds ValueData.Filled (del e args d).1 := by
  unfold del
  split_ifs
  · exact h
  · show Holds ValueData.Filled (Store.delete e args d).1
    rw [Store.delete, Store.delete_fst]
    exact Store.foldl_erase_filled h args

theorem existsKeys_filled (h : Holds ValueData.Filled d) :
    Holds ValueData.Filled (existsKeys e args d).1 := by
  unfold existsKeys
  split_ifs
  · exact h
  · dsimp only
    generalize (0 : ℤ) = n
    clear * - h
    induction args generalizing d n with
    | nil => exact h
    | cons key args ih => exact ih (h.purge e.now key) _

theorem expireAs_filled {name : String} {unit : ℕ → Duration} (h : Holds ValueData.Filled d) :
    Holds ValueData.Filled (expireAs name unit e args d).1 := by
  unfold expireAs
  split
  · rename_i key time
    have hp : Holds ValueData.Filled (purge e.now key d) := h.purge e.now key
    split
    · exact h
    · split_ifs
      · exact hp.erase key
      · split
        · exact hp
        · rename_i en hen
          exact hp.insert (hp key en hen)
  · exact h

theorem xreadPairs_filled (h : Holds ValueData.Filled d) {count : Option ℕ}
    {pairs : List (Bytes × Bytes)} :
    Holds ValueData.Filled (xreadPairs e count pairs d).1 := by
  induction pairs generalizing d with
  | nil => exact h
  | cons pair pairs ih =>
    have hp : Holds ValueData.Filled (purge e.now pair.1 d) := h.purge e.now pair.1
    unfold xreadPairs
    dsimp only
    split
    · exact ih hp
    · split
      · exact hp
      · exact ih hp

theorem xread_filled (h : Holds ValueData.Filled d) : Holds ValueData.Filled (xread e args d).1 := by
  unfold xread
  split
  · exact h
  · split
    · exact h
    · split
      · exact h
      · exact xreadPairs_filled h

theorem lmove_filled (h : Holds ValueData.Filled d) : Holds ValueData.Filled (lmove e args d).1 := by
  unfold lmove
  split
  · split
    · exact h
    · split
      · exact h
      · exact Store.moveAs_filled h
  · exact h

theorem rpoplpush_filled (h : Holds ValueData.Filled d) :
    Holds ValueData.Filled (rpoplpush e args d).1 := by
  unfold rpoplpush
  split
  · exact Store.moveAs_filled h
  · exact h

end Plain

section Scores

variable {S : Type} [Score S] {e : Env} {args : List Bytes} {d : Data S}

theorem zaddPairs_len_ne_zero {pairs : List (Bytes × Bytes)} {z : SortedSet S} {added : ℤ}
    (h : z.len ≠ 0 ∨ ∃ pair rest, pairs = pair :: rest ∧ ∃ s : S, scoreArg pair.1 = some s) :
    (zaddPairs pairs z added).1.len ≠ 0 := by
  induction pairs generalizing z added with
  | nil => exact h.resolve_right fun ⟨_, _, hnil, _⟩ => nomatch hnil
  | cons pair pairs ih =>
    unfold zaddPairs
    split
    · rename_i hscore
      refine h.resolve_right ?_
      rintro ⟨p, rest, hcons, s, hs⟩
      cases hcons
      rw [hscore] at hs
      cases hs
    · exact ih (.inl (z.len_insert_ne_zero _ _))

theorem zadd_filled (h : Holds ValueData.Filled d) (hf : Fills e d "ZADD" args) :
    Holds ValueData.Filled (zadd e args d).1 := by
  unfold zadd
  split
  · rename_i key pairs
    split_ifs with harity
    · exact h
    · refine upsertAs_holds h (fun hl => ?_) fun z _ _ hz => ?_
      · refine filled_sortedSet (zaddPairs_len_ne_zero (.inr ?_))
        match pairs, harity with
        | [], harity => exact absurd (.inl Nat.zero_lt_two) harity
        | [_], harity => exact absurd (.inl Nat.one_lt_two) harity
        | score :: member :: rest, harity =>
          refine ⟨_, _, rfl, hf key score member rest rfl rfl ?_ hl⟩
          rw [not_or, not_not, List.length_cons, List.length_cons] at harity
          omega
      · exact filled_sortedSet (zaddPairs_len_ne_zero (.inl (ne_of_beq_false hz)))
  · exact h

/-- A command leaves no container empty when the first score of ZADD is a number. -/
theorem dispatchInner_filled {cmd : String} (hf : Fills e d cmd args)
    (h : Holds ValueData.Filled d) : Holds ValueData.Filled (dispatchInner e cmd args d).1 := by
  by_cases hzadd : cmd = "ZADD"
  · subst hzadd
    exact zadd_filled h hf
  apply dispatchInner_elim (motive := fun f => Holds ValueData.Filled (f d).1)
  case shape => exact fun _ hs => (hs.result d).filled (fun _ _ _ _ hq => hq.filled hzadd) h
  case set => exact fun _ => set_filled h
  case del => exact fun _ => del_filled h
  case existsKeys => exact fun _ => existsKeys_filled h
  case expireAs => exact fun _ _ _ => expireAs_filled h
  case xread => exact fun _ => xread_filled h
  case lmove => exact fun _ => lmove_filled h
  case rpoplpush => exact fun _ => rpoplpush_filled h

/-- A refused first score leaves an empty sorted set behind. -/
theorem dispatchInner_filled_iff {cmd : String} (h : Holds ValueData.Filled d) :
    Holds ValueData.Filled (dispatchInner e cmd args d).1 ↔ Fills e d cmd args := by
  refine ⟨?_, fun hf => dispatchInner_filled hf h⟩
  rintro hrun key score member rest rfl rfl heven hl
  by_contra hscore
  rw [not_exists] at hscore
  have hnone : (scoreArg score : Option S) = none := Option.eq_none_iff_forall_ne_some.mpr hscore
  have hzadd : (zadd e (key :: score :: member :: rest) d).1 =
      d.insert key ⟨.sortedSet .new, none⟩ := by
    unfold zadd
    dsimp only
    rw [if_neg, upsertAs_absent hl]
    · unfold pairUp zaddPairs
      simp only [hnone]
      rfl
    · rw [not_or, not_not, List.length_cons, List.length_cons]
      omega
  have hrun' : Holds ValueData.Filled (zadd e (key :: score :: member :: rest) d).1 := hrun
  rw [hzadd] at hrun'
  exact not_filled_of_insert rfl hrun'

end Scores

end Script

/-! ## Runs -/

section Runs

variable {S : Type} [Score S]

theorem filled_resetTimes (now : Instant) (v : ValueData S) (h : v.Filled) :
    (v.resetTimes now).Filled := by
  cases v with
  | stream s => rfl
  | _ => exact h

/-- The arguments of a method fit their types, and it puts something in. -/
def Op.TypedFills (e : Env) (d : Data S) (o : Op S) : Prop := o.Typed ∧ o.Fills e d

/-- In a run that never calls HSET or SADD for a key without a live value with nothing to put in, nor
ZADD in a script with a first score that is no number, no key ever holds an empty hash, set, sorted
set or list. -/
theorem Reachable.no_empty_container {sha1 : String → String} {now : Instant} {st : Store S}
    (h : Reachable (Action.Meets Op.TypedFills Script.Fills) sha1 now st) {key : Bytes}
    {en : ValueEntry S} (hen : st.data[key]? = some en) :
    (∀ m, en.data = .hash m → m ≠ ∅) ∧ (∀ m, en.data = .set m → m ≠ ∅) ∧
      (∀ z, en.data = .sortedSet z → z.len ≠ 0) ∧ ∀ l, en.data = .list l → l ≠ [] := by
  have hfilled : Holds ValueData.Filled st.data :=
    h.holds_of_steps filled_resetTimes (fun _ _ _ hok hd => Op.run_filled hok.1 hok.2 hd)
      fun _ _ _ _ hok hd => Script.dispatchInner_filled hok hd
  exact filled_iff.mp (hfilled key en hen)

/-- A field put into a hash and taken out again, then two fields put in. -/
def refilledHash : Instant × Store ℤ :=
  runActions id (0, ⟨∅, ∅⟩)
    [.op 0 .byKey (.hset (ascii "h") [(ascii "f", ascii "v")]),
      .op 0 .byKey (.hdel (ascii "h") [ascii "f"]),
      .op 0 .byKey (.hset (ascii "h") [(ascii "f", ascii "v"), (ascii "g", ascii "w")])]

theorem refilledHash_not_empty :
    ∃ m, refilledHash.2.data[ascii "h"]? = some ⟨.hash m, none⟩ ∧ m ≠ ∅ := by
  let m : FinMap Bytes Bytes :=
    ((∅ : FinMap Bytes Bytes).insert (ascii "f") (ascii "v")).insert (ascii "g") (ascii "w")
  have hm : refilledHash.2.data[ascii "h"]? = some ⟨.hash m, none⟩ := by decide +kernel
  have hrun : Reachable (Action.Meets Op.TypedFills Script.Fills) id 0 refilledHash.2 :=
    .act (.op 0 .byKey (.hset (ascii "h") [(ascii "f", ascii "v"), (ascii "g", ascii "w")]))
      ⟨trivial, trivial⟩
      (.act (.op 0 .byKey (.hdel (ascii "h") [ascii "f"])) ⟨trivial, trivial⟩
        (.act (.op 0 .byKey (.hset (ascii "h") [(ascii "f", ascii "v")])) ⟨trivial, trivial⟩
          (.empty 0)))
  exact ⟨m, hm, (Reachable.no_empty_container hrun hm).1 m rfl⟩

/-- HSET without fields for a key that is not there. -/
def hashOfNothing : Instant × Store ℤ :=
  runActions id (0, ⟨∅, ∅⟩) [.op 0 .byKey (.hset (ascii "h") [])]

theorem hashOfNothing_empty :
    Reachable anyAction id hashOfNothing.1 hashOfNothing.2 ∧
      hashOfNothing.2.data[ascii "h"]? = some ⟨.hash ∅, none⟩ ∧
      Store.existsKeys ⟨0, 0, .byKey⟩ [ascii "h"] hashOfNothing.2.data = 1 :=
  ⟨Reachable.runActions (.empty 0) _, by decide +kernel, by decide +kernel⟩

end Runs

end BurnerRedis
