import BurnerRedis.Keyspaces
import BurnerRedis.Panics

/-!
# The store keeps collections

`Op.means` says that every method does to the keyspace what it means. With the clock's end taken into
account (`Request.run?`) a run is then told by keyspaces alone (`collections_explained`).
-/

namespace BurnerRedis

variable {S : Type} [LinearOrder S]

/-! ## Every method does what it means -/

section Methods

variable {e : Env} {d : Data S} {key : Bytes}

open Store Container

theorem dom_keyspace_finite (now : Instant) (d : Data S) : (keyspace now d).dom.Finite := by
  refine d.keys.toFinset.finite_toSet.subset fun k hk => ?_
  rw [Table.mem_dom, isSome_keyspace, Option.isSome_iff_exists] at hk
  obtain ⟨en, hen⟩ := hk
  rw [List.coe_toFinset, Set.mem_ofPred_eq, Std.ExtTreeMap.mem_keys, FinMap.mem_iff_getElem?]
  exact ⟨en, (live_eq_some.mp hen).1⟩

theorem delete_means (e : Env) (ks : List Bytes) (d : Data S) :
    keyspace e.now (Store.delete e ks d).1 = (keyspace e.now d).without ks ∧
      (Store.delete e ks d).2 = (keyspace e.now d).card -
        ((keyspace e.now (Store.delete e ks d).1).card : ℤ) := by
  have h : ∀ (ks : List Bytes) (d : Data S) (n : ℤ),
      let r := ks.foldl
        (fun r key => (r.1.erase key, if (live e.now r.1 key).isSome then r.2 + 1 else r.2)) (d, n)
      keyspace e.now r.1 = (keyspace e.now d).without ks ∧
        r.2 + (keyspace e.now r.1).card = n + (keyspace e.now d).card := by
    intro ks
    induction ks with
    | nil => exact fun d n => ⟨(Table.without_nil _).symm, rfl⟩
    | cons k ks ih =>
      intro d n
      obtain ⟨hkeys, hcount⟩ := ih (d.erase k) (if (live e.now d k).isSome then n + 1 else n)
      refine ⟨?_, hcount.trans ?_⟩
      · rw [keyspace_erase, ← Table.without_cons] at hkeys
        exact hkeys
      · have hfinite := dom_keyspace_finite e.now d
        rw [keyspace_erase, Table.card_without_single hfinite, isSome_keyspace]
        split_ifs
        · ring
        · rfl
  obtain ⟨hkeys, hcount⟩ := h ks d 0
  exact ⟨hkeys, by rw [Store.delete]; omega⟩

theorem expire_means (e : Env) (key : Bytes) (seconds : ℤ) (d : Data S) :
    (Op.expire key seconds).Means e.now (keyspace e.now d)
      (keyspace e.now (Store.expire e key seconds d).1)
      (outcomeAlways (Store.expire e key seconds d)).2 := by
  unfold Store.expire
  by_cases hs : seconds ≤ 0
  · refine ⟨?_, ?_⟩
    · rw [if_pos hs, if_pos hs]
      dsimp only
      rw [keyspace_erase, keyspace_purge]
    · rw [if_pos hs, getElem?_purge, isSome_keyspace]
      rfl
  · simp only [Op.Means, if_neg hs, getElem?_purge, isSome_keyspace]
    cases hl : live e.now d key with
    | none =>
      refine ⟨?_, rfl⟩
      rw [keyspace_purge]
      funext k
      split_ifs with hk
      · rw [hk, keyspace, hl]
        rfl
      · rfl
    | some en =>
      refine ⟨?_, rfl⟩
      dsimp only
      rw [insert_purge, keyspace_insert]
      · funext k
        rw [Table.put_apply]
        split_ifs with hk
        · rw [hk, keyspace, hl]
          rfl
        · rfl
      · have hpos : 0 < seconds.toNat := by omega
        refine decide_eq_false (not_le.mpr (Int.lt_add_of_pos_right _ (Int.natCast_pos.mpr ?_)))
        exact Nat.mul_pos hpos (by decide)

theorem string?_eq (x : ValueData S) : x.holding.string? = Kind.string.get? x := by
  cases x <;> rfl

theorem bind_string?_keyspace (now : Instant) (d : Data S) (key : Bytes) :
    ((keyspace now d key).bind fun h => h.1.string?) =
      (live now d key).bind fun en => Kind.string.get? en.data := by
  rw [keyspace, Option.bind_map]
  congr 1
  funext en
  exact string?_eq en.data

theorem get_means (e : Env) (key : Bytes) (d : Data S) :
    (Op.get key).Means e.now (keyspace e.now d) (keyspace e.now (Store.get e key d).1)
      (outcome (Store.get e key d)).2 := by
  refine ⟨keyspace_purge, congrArg (Outcome.mk _) ?_⟩
  rw [bind_string?_keyspace, isSome_keyspace]
  unfold Store.get
  cases look Kind.string e.now key d with
  | absent h => rw [readAs_absent h, h]; rfl
  | wrong en h hd => rw [readAs_wrong h hd, h, Option.bind_some, hd]; rfl
  | found v exp h => rw [readAs_found h, h, Option.bind_some, Kind.get?_wrap]; rfl

theorem set_means (e : Env) (key value : Bytes) (lifetime : Option Duration) (nx xx : Bool)
    (d : Data S) :
    (Op.set key value lifetime nx xx).Means e.now (keyspace e.now d)
      (keyspace e.now (Store.set e key value lifetime nx xx d).1)
      (outcomeAlways (Store.set e key value lifetime nx xx d)).2 := by
  have hput : keyspace e.now (d.insert key (.new e.now value lifetime)) =
      Keyspace.later ((keyspace e.now d).put key (.string value, lifetime.map (e.now + ·))) e.now :=
    keyspace_insert_later ..
  unfold Store.set
  simp only [Op.Means, isSome_keyspace]
  cases nx <;> cases xx <;> cases (live e.now d key).isSome <;>
    first | exact ⟨hput, rfl⟩ | exact ⟨rfl, rfl⟩

/-- ZRANGESTORE files the pairs in range, or removes the key. -/
theorem storeMembers_means (now : Instant) (d : Data S) (dst : Bytes) {z : SortedSet S}
    (hz : z.Coherent) (min max : S) :
    keyspace now (storeMembers dst (.ok (z.byScoreRange min max)) d).1 =
        (keyspace now d).file .sortedSet dst (scoredBetween z.scores min max) none ∧
      (storeMembers dst (.ok (z.byScoreRange min max)) d).2 =
        .ok ((scoredBetween z.scores min max).card : ℤ) := by
  have hscores := hz.scores_insertRange min max
  have hcard := (hz.ranking_between min max).card_eq
  rw [hcard]
  cases hl : z.byScoreRange min max with
  | nil =>
    rw [hl] at hscores
    refine ⟨?_, rfl⟩
    have hempty : (SortedSet.insertAll .new []).scores = (.empty : Table Bytes S) :=
      FinMap.table_empty
    rw [← hscores, hempty, Keyspace.file, if_pos rfl]
    exact keyspace_erase
  | cons p ps =>
    rw [hl] at hscores
    refine ⟨?_, rfl⟩
    rw [← hscores]
    refine Eq.trans ?_ (keyspace_removeIfEmpty (T := sortedSet) rfl)
    rw [removeIfEmpty_insert]
    · rfl
    · exact filled_sortedSet (SortedSet.len_insertAll_ne_zero (.inr (List.cons_ne_nil p ps)))

theorem zrangestore_means (e : Env) (dst src : Bytes) (min max : S) (d : Data S)
    (hC : Holds ValueData.Coherent d) :
    (Op.zrangestore dst src min max).Means e.now (keyspace e.now d)
      (keyspace e.now (Store.zrangestore e dst src min max d).1)
      (outcome (Store.zrangestore e dst src min max d)).2 := by
  refine ⟨_, rfl, ?_⟩
  rw [zrangestore_eq]
  unfold membersToStore
  dsimp only
  have hstore : ∀ {z : SortedSet S}, z.Coherent → _ :=
    fun hz => storeMembers_means e.now (purge e.now src d) dst hz min max
  rw [keyspace_purge] at hstore
  cases look Kind.sortedSet e.now src d with
  | absent h =>
    rw [readAs_absent h]
    left
    exact ⟨_, sortedSet.has_of_absent h, hstore SortedSet.coherent_new⟩
  | wrong en h hd =>
    rw [readAs_wrong h hd]
    right
    exact ⟨sortedSet.wrong_of_other h hd, keyspace_purge, rfl⟩
  | found z exp h =>
    rw [readAs_found h]
    left
    exact ⟨_, sortedSet.has_of_found h, hstore (hC.live h z rfl)⟩

end Methods

section Methods

variable {S : Type} [Score S]

open Store Container

/-- Nothing is taken out of an empty table. -/
theorem removed_nothing {V : Type} (ks : List Bytes) :
    (.empty : Table Bytes V) = Table.without .empty ks ∧
      (.ok 0 : Except StoreError ℤ) =
        .ok ((.empty : Table Bytes V).card - (.empty : Table Bytes V).card) := by
  refine ⟨?_, by rw [sub_self]⟩
  funext k
  unfold Table.without
  split_ifs <;> rfl

theorem lists_nothing {V : Type} : (.empty : Table Bytes V).Lists [] :=
  ⟨List.nodup_nil, by simp [Table.empty]⟩

theorem ranking_nothing : Ranking (.empty : Table Bytes S) [] :=
  ⟨List.Pairwise.nil, by simp [Table.empty]⟩

theorem card_nothing (V : Type) : ((.empty : Table Bytes V).card : ℤ) = 0 := by
  rw [lists_nothing.card_eq]
  rfl

theorem mem_eq_isSome {V : Type} (m : FinMap Bytes V) (k : Bytes) :
    decide (k ∈ m) = (m.table k).isSome := by
  rw [Bool.eq_iff_iff, decide_eq_true_eq]
  exact Std.ExtTreeMap.mem_iff_isSome_getElem?

theorem syntaxError_of_hincrbyValue {current : Option Bytes} {increment : ℤ} {err : StoreError}
    (h : hincrbyValue current increment = .error err) :
    ∃ message, err = .syntaxError message := by
  have hadd : ∀ n, hincrbyValue.add increment n = .error err →
      ∃ message, err = .syntaxError message := by
    intro n hn
    unfold hincrbyValue.add at hn
    split_ifs at hn
    cases hn
    exact ⟨_, rfl⟩
  unfold hincrbyValue at h
  split at h
  · exact hadd 0 h
  · split at h
    · exact hadd _ h
    · cases h
      exact ⟨_, rfl⟩

theorem hincrby_effect (map : FinMap Bytes Bytes) (field : Bytes) (increment : ℤ) :
    let r : FinMap Bytes Bytes × Except StoreError ℤ :=
      match hincrbyValue map[field]? increment with
      | .error err => (map, .error err)
      | .ok newVal => (map.insert field (decimalInt newVal), .ok newVal)
    (∃ n, Reads (map.table field) n ∧ InI64 (n + increment) ∧
      r.1.table = map.table.put field (decimalInt (n + increment)) ∧ r.2 = .ok (n + increment)) ∨
    (∀ n, Reads (map.table field) n → ¬ InI64 (n + increment)) ∧ r.1.table = map.table ∧
      ∃ message, r.2 = .error (.syntaxError message) := by
  cases hv : hincrbyValue map[field]? increment with
  | ok v =>
    obtain ⟨n, hn, hfits, rfl⟩ := hincrbyValue_ok_iff.mp hv
    exact .inl ⟨n, hn, hfits, FinMap.table_insert .., rfl⟩
  | error err =>
    refine .inr ⟨fun n hn hfits => ?_, rfl, ?_⟩
    · have hok : hincrbyValue map[field]? increment = .ok (n + increment) :=
        hincrbyValue_ok_iff.mpr ⟨n, hn, hfits, rfl⟩
      rw [hok] at hv
      cases hv
    · obtain ⟨message, rfl⟩ := syntaxError_of_hincrbyValue hv
      exact ⟨message, rfl⟩

theorem zadd_effect (z : SortedSet S) (pairs : List (S × Bytes)) (fl : ZaddFlags) :
    let st := pairs.foldl (zaddStep fl) ⟨z, 0, 0⟩
    st.zset.scores = pairs.foldl (zaddPair fl) z.scores ∧
      (.ok (if fl.ch then st.changed else st.added) : Except StoreError ℤ) =
        .ok (if fl.ch then zaddChanges fl z.scores pairs
          else (st.zset.scores.card - z.scores.card : ℤ)) := by
  intro st
  have hchanged : st.changed = zaddChanges fl z.scores pairs := by
    rw [← zero_add (zaddChanges ..)]
    exact changed_foldl_zaddStep fl pairs ⟨z, 0, 0⟩
  have hgrowth : st.added - st.zset.len = 0 - z.len := added_foldl_zaddStep fl pairs ⟨z, 0, 0⟩
  have hadded : st.added = st.zset.len - z.len := by omega
  refine ⟨scores_foldl_zaddStep fl pairs ⟨z, 0, 0⟩, ?_⟩
  rw [hchanged, hadded, SortedSet.card_scores, SortedSet.card_scores]

/-- ZRANGE takes its positions from the score index. -/
theorem zrange_reads {z : SortedSet S} (hz : z.Coherent) (start stop : ℤ) (withscores : Bool) :
    (match zrangeWindow start stop z.len with
      | none => .ok []
      | some (skip, take) =>
        .ok (((z.byScore.keys.drop skip).take take).map (withScore withscores)) :
      Except StoreError (List (Bytes × Option S))) =
    .ok ((rankWindow start stop z.byScore.keys).map (withScore withscores)) := by
  unfold rankWindow
  rw [hz.length_keys]
  cases zrangeWindow start stop z.len <;> rfl

theorem ttl_means (e : Env) (key : Bytes) (d : Data S) :
    (Op.ttl key).Means e.now (keyspace e.now d) (keyspace e.now (Store.ttl e key d).1)
      (outcomeAlways (Store.ttl e key d)).2 := by
  refine ⟨keyspace_purge, congrArg (fun n => Outcome.mk ℤ (.ok n)) ?_⟩
  unfold Store.ttl
  dsimp only
  rw [getElem?_purge, keyspace]
  cases live e.now d key with
  | none => rfl
  | some en =>
    obtain ⟨x, exp⟩ := en
    cases exp <;> rfl

theorem type_holding (x : ValueData S) : x.holding.type = x.type := by
  cases x <;> rfl

theorem keyspace_changesOnly {ty : DataType} {now : Instant} {d d' : Data S}
    (h : ChangesOnly ty now d d') : (keyspace now d).ChangesOnly ty (keyspace now d') := by
  have htype : ∀ o : Option (ValueEntry S), OfType ty o →
      ∀ x ∈ o.map ValueEntry.holding, x.1.type = ty := by
    intro o ho x hx
    obtain ⟨en, hen, rfl⟩ := Option.mem_map.mp hx
    exact (type_holding en.data).trans (ho en hen)
  intro k
  rcases h k with hsame | ⟨hold, hnew⟩
  · left
    rw [keyspace, keyspace, hsame]
  · right
    exact ⟨htype _ hold, htype _ hnew⟩

/-- A method of which nothing more is told changes values of its type under the keys it writes. -/
theorem touches_exec (e : Env) (d : Data S) (o : Op S) (hF : Holds ValueData.Filled d) :
    o.Touches (keyspace e.now d) (keyspace e.now (o.exec e d).1) := by
  refine ⟨fun k hk => ?_, fun ty hty => keyspace_changesOnly ?_⟩
  · rw [keyspace, keyspace, Op.exec_others e d hk]
  · rw [Op.exec_fst]
    exact Op.run_changesOnly hty fun _ => hF

/-- Every method does to the keyspace what it means, and answers so. -/
theorem Op.means (e : Env) (d : Data S) (o : Op S) (ht : o.TypedFills e d)
    (hF : Holds ValueData.Filled d) (hC : Holds ValueData.Coherent d) :
    o.Means e.now (keyspace e.now d) (keyspace e.now (o.exec e d).1) (o.exec e d).2 := by
  have hfilled : Holds ValueData.Filled (o.run e d).1 := Op.run_filled ht.1 ht.2 hF
  have hcoherent : ∀ {key : Bytes} (z : SortedSet S) (exp : Option Instant),
      live e.now d key = some ⟨.sortedSet z, exp⟩ → z.Coherent := fun z exp hl => hC.live hl z rfl
  cases o with
  | hset key fields =>
    have heffect : ∀ map : FinMap Bytes Bytes,
        (setFields map fields).1.table = map.table.putAll fields ∧
          (.ok (setFields map fields).2 : Except StoreError ℤ) =
            .ok ((setFields map fields).1.table.card - map.table.card) :=
      fun map => ⟨table_setFields map fields, congrArg _ (setFields_count map fields)⟩
    exact update_of_upsertAs (T := .hash) (heffect ∅) (fun map _ _ => heffect map) hfilled
  | sadd key members =>
    have heffect : ∀ set : FinMap Bytes Unit,
        (addAll set members).1.table = set.table.putAll (members.map (·, ())) ∧
          (.ok (addAll set members).2 : Except StoreError ℤ) =
            .ok ((addAll set members).1.table.card - set.table.card) :=
      fun set => ⟨table_addAll set members, congrArg _ (addAll_count set members)⟩
    exact update_of_upsertAs (T := .set) (heffect ∅) (fun set _ _ => heffect set) hfilled
  | hdel key fields =>
    exact update_of_modifyAs_removeIfEmpty (T := .hash) hF (removed_nothing fields)
      fun map _ _ => ⟨table_removeAll map fields, congrArg _ (removeAll_count map fields)⟩
  | srem key members =>
    exact update_of_modifyAs_removeIfEmpty (T := .set) hF (removed_nothing members)
      fun set _ _ => ⟨table_removeAll set members, congrArg _ (removeAll_count set members)⟩
  | zrem key members =>
    exact update_of_modifyAs_removeIfEmpty (T := .sortedSet) hF (removed_nothing members)
      fun z _ _ => ⟨z.scores_removeAll members, congrArg _ (z.removeAll_count members)⟩
  | zremrangebyscore key min max =>
    refine update_of_modifyAs_removeIfEmpty (T := .sortedSet) hF ⟨rfl, by rw [sub_self]⟩
      fun z exp hl => ?_
    have hz := hcoherent z exp hl
    have hscores := hz.scores_removeRange min max
    refine ⟨hscores, congrArg Except.ok ?_⟩
    show (((z.byScoreRange min max).map ScoredMember.member).length : ℤ) = _
    rw [List.length_map, hz.card_removeRange min max, ← hscores]
    rfl
  | hincrby key field increment =>
    exact update_of_upsertAs (T := .hash) (hincrby_effect ∅ field increment)
      (fun map _ _ => hincrby_effect map field increment) hfilled
  | zadd key pairs fl =>
    exact update_of_upsertAs_removeIfEmpty (T := .sortedSet) hF (zadd_effect .new pairs fl)
      fun z _ _ => zadd_effect z pairs fl
  | hget key field =>
    exact query_of_readAs (T := .hash) ⟨_, rfl, rfl⟩ fun map _ _ => ⟨_, rfl, rfl⟩
  | hexists key field =>
    exact query_of_readAs (T := .hash) ⟨_, rfl, rfl⟩ fun map _ _ =>
      ⟨_, rfl, congrArg _ (mem_eq_isSome map field)⟩
  | hvals key =>
    exact query_of_readAs (T := .hash) ⟨_, ⟨[], lists_nothing, rfl⟩, rfl⟩ fun map _ _ =>
      ⟨_, ⟨_, FinMap.lists_table e.walk map, rfl⟩, rfl⟩
  | hgetall key =>
    exact query_of_readAs (T := .hash) ⟨_, rfl, rfl⟩ fun map _ _ => ⟨_, rfl, rfl⟩
  | sismember key member =>
    exact query_of_readAs (T := .set) ⟨_, rfl, rfl⟩ fun set _ _ =>
      ⟨_, rfl, congrArg _ (mem_eq_isSome set member)⟩
  | smembers key =>
    exact query_of_readAs (T := .set) ⟨_, ⟨[], lists_nothing, rfl⟩, rfl⟩ fun set _ _ =>
      ⟨_, ⟨_, FinMap.lists_table e.walk set, rfl⟩, rfl⟩
  | zrange key start stop withscores =>
    exact query_of_readAs (T := .sortedSet) ⟨_, ⟨[], ranking_nothing, rfl⟩, rfl⟩ fun z exp hl =>
      ⟨_, ⟨_, (hcoherent z exp hl).ranking, rfl⟩, zrange_reads (hcoherent z exp hl) ..⟩
  | zrangebyscore key min max withscores =>
    exact query_of_readAs (T := .sortedSet) ⟨_, ⟨[], ranking_nothing, rfl⟩, rfl⟩ fun z exp hl =>
      ⟨_, ⟨_, (hcoherent z exp hl).ranking_between min max, rfl⟩, rfl⟩
  | zcard key =>
    exact query_of_readAs (T := .sortedSet) ⟨_, rfl, congrArg _ (card_nothing S).symm⟩ fun z _ _ =>
      ⟨_, rfl, congrArg _ (congrArg Nat.cast z.card_scores.symm)⟩
  | zscore key member =>
    exact query_of_readAs (T := .sortedSet) ⟨_, rfl, rfl⟩ fun z _ _ => ⟨_, rfl, rfl⟩
  | zcount key min max =>
    exact query_of_readAs (T := .sortedSet) ⟨_, rfl, congrArg _ (card_nothing S).symm⟩
      fun z exp hl => ⟨_, rfl,
        congrArg _ (congrArg Nat.cast ((hcoherent z exp hl).ranking_between min max).card_eq.symm)⟩
  | zrangestore dst src min max => exact zrangestore_means e dst src min max d hC
  | delete ks =>
    exact ⟨(delete_means e ks d).1,
      congrArg (fun n => Outcome.mk ℤ (.ok n)) (delete_means e ks d).2⟩
  | expire key seconds => exact expire_means e key seconds d
  | get key => exact get_means e key d
  | ttl key => exact ttl_means e key d
  | set key value lifetime nx xx => exact set_means e key value lifetime nx xx d
  | _ => exact touches_exec e d _ hF

end Methods

/-! ## Runs -/

section Runs

variable {S : Type} [Score S]

/-- A method with a clock that ends; no outcome where it panics. -/
def Op.exec? (e : Env) (d : Data S) : Op S → Data S × Option Outcome
  | .expire key seconds =>
    let r := Store.expire? e key seconds d
    (r.1, r.2.map fun b => ⟨Bool, .ok b⟩)
  | .set key value lifetime nx xx =>
    let r := Store.set? e key value lifetime nx xx d
    (r.1, r.2.map fun b => ⟨Bool, .ok b⟩)
  | o => ((o.exec e d).1, some (o.exec e d).2)

/-- A request with a clock that ends; no answer where it panics. -/
def Request.run? (e : Env) (st : Store S) : Request S → Store S × Option (Response S)
  | .op o =>
    let r := o.exec? e st.data
    ({ st with data := r.1 }, r.2.map .outcome)
  | .call cmd args =>
    let r := Script.dispatchInner? e cmd args st.data
    ({ st with data := r.1 }, r.2.map .reply)
  | q => ((q.run e st).1, some (q.run e st).2)

/-- The data with nothing removed but perhaps an expired entry. -/
def Purged (now : Instant) (d d' : Data S) : Prop := d' = d ∨ ∃ key, d' = purge now key d

theorem Purged.live_eq {now : Instant} {d d' : Data S} (h : Purged now d d') (k : Bytes) :
    live now d' k = live now d k := by
  rcases h with rfl | ⟨key, rfl⟩
  · rfl
  · exact live_purge ..

theorem Purged.keyspace_eq {now : Instant} {d d' : Data S} (h : Purged now d d') :
    keyspace now d' = keyspace now d :=
  keyspace_congr h.live_eq

theorem Purged.holds {now : Instant} {d d' : Data S} {P : ValueData S → Prop} (h : Purged now d d')
    (hd : Holds P d) : Holds P d' := by
  rcases h with rfl | ⟨key, rfl⟩
  · exact hd
  · exact hd.purge now key

/-- A method panics exactly where its deadline overflows. -/
theorem Op.exec?_spec (e : Env) (d : Data S) (o : Op S) :
    ¬ o.Overflows e.now (keyspace e.now d) ∧
      o.exec? e d = ((o.exec e d).1, some (o.exec e d).2) ∨
    o.Overflows e.now (keyspace e.now d) ∧
      ∃ d', Purged e.now d d' ∧ o.exec? e d = (d', none) := by
  cases o with
  | expire key seconds =>
    simp only [Overflows, isSome_keyspace, exec?]
    rcases Store.expire?_spec e key seconds d with ⟨hfits, h⟩ | ⟨hover, h⟩
    · exact .inl ⟨hfits, by rw [h]; rfl⟩
    · exact .inr ⟨hover, _, .inr ⟨key, rfl⟩, by rw [h]; rfl⟩
  | set key value lifetime nx xx =>
    simp only [Overflows, isSome_keyspace, exec?]
    rcases Store.set?_spec e key value lifetime nx xx d with ⟨hfits, h⟩ | ⟨⟨hacts, hover⟩, h⟩
    · exact .inl ⟨fun hover => hfits ⟨⟨hover.1, hover.2.1⟩, hover.2.2⟩, by rw [h]; rfl⟩
    · exact .inr ⟨⟨hacts.1, hacts.2, hover⟩, _, .inl rfl, by rw [h]; rfl⟩
  | _ => exact .inl ⟨id, rfl⟩

/-- A request does what it does with an endless clock, or panics and has then removed nothing but
perhaps an expired entry. -/
theorem Request.run?_cases (e : Env) (st : Store S) (q : Request S) :
    q.run? e st = ((q.run e st).1, some (q.run e st).2) ∨
      ∃ d', Purged e.now st.data d' ∧ q.run? e st = ({ st with data := d' }, none) := by
  cases q with
  | op o =>
    dsimp only [run?]
    rcases Op.exec?_spec e st.data o with ⟨-, hr⟩ | ⟨-, d', hd', hr⟩
    · rw [hr]
      exact .inl rfl
    · rw [hr]
      exact .inr ⟨d', hd', rfl⟩
  | call cmd args =>
    dsimp only [run?]
    rcases Script.dispatchInner?_spec e cmd args st.data with ⟨-, hr⟩ | ⟨-, key, hr⟩
    · rw [hr]
      exact .inl rfl
    · rw [hr]
      exact .inr ⟨_, .inr ⟨key, rfl⟩, rfl⟩
  | _ => exact .inl rfl

/-- The request puts no empty container into the store: the arguments of a method are such, the
first score of a script's ZADD is a number, and no snapshot is read. -/
def Request.Fills (e : Env) (st : Store S) : Request S → Prop
  | .op o => o.TypedFills e st.data
  | .call cmd args => Script.Fills e st.data cmd args
  | .loadInto (some _) => False
  | _ => True

/-- Every request fills, where it is made. -/
def FillsAll : Store S → List (Env × Request S) → Prop
  | _, [] => True
  | st, (e, q) :: steps => q.Fills e st ∧ FillsAll (q.run? e st).1 steps

/-- What is seen of a run: when each request was made, and its answer. -/
def trace : Store S → List (Env × Request S) → List (Instant × Request S × Option (Response S))
  | _, [] => []
  | st, (e, q) :: steps => (e.now, q, (q.run? e st).2) :: trace (q.run? e st).1 steps

/-- A store whose containers are not empty and whose indexes agree. -/
structure Store.Sound (st : Store S) : Prop where
  filled : Holds ValueData.Filled st.data
  coherent : Holds ValueData.Coherent st.data

theorem mem_keys_iff {e : Env} {d : Data S} {pattern k : Bytes} :
    k ∈ Store.keys e pattern d ↔ (keyspace e.now d k).isSome ∧ globMatch pattern k := by
  rw [isSome_keyspace, Option.isSome_iff_exists]
  unfold Store.keys
  simp only [List.mem_map, List.mem_filter, Bool.and_eq_true, Bool.not_eq_true', live_eq_some]
  constructor
  · rintro ⟨⟨k, en⟩, ⟨hmem, hx, hglob⟩, rfl⟩
    exact ⟨⟨en, (FinMap.mem_walk e.walk).mp hmem, hx⟩, hglob⟩
  · rintro ⟨⟨en, hk, hx⟩, hglob⟩
    exact ⟨(k, en), ⟨(FinMap.mem_walk e.walk).mpr hk, hx, hglob⟩, rfl⟩

theorem existsKeys_eq_countP (e : Env) (ks : List Bytes) (d : Data S) :
    Store.existsKeys e ks d = (ks.countP fun k => (keyspace e.now d k).isSome : ℕ) := by
  have h : ∀ n : ℤ, ks.foldl (fun n key => if (live e.now d key).isSome then n + 1 else n) n =
      n + (ks.countP fun k => (keyspace e.now d k).isSome : ℕ) := by
    simp only [isSome_keyspace]
    induction ks with
    | nil => exact fun n => (add_zero n).symm
    | cons k ks ih =>
      intro n
      rw [List.foldl_cons, ih, List.countP_cons]
      split_ifs <;> push_cast <;> ring
  rw [Store.existsKeys, h, zero_add]

theorem Store.Sound.run {st : Store S} (h : st.Sound) {e : Env} {q : Request S}
    (hq : q.Fills e st) :
    (q.run e st).1.Sound := by
  cases q with
  | op o =>
    show Store.Sound { st with data := (o.exec e st.data).1 }
    rw [Op.exec_fst]
    exact ⟨Op.run_filled hq.1 hq.2 h.filled,
      (o.run_edits e st.data).moves.holds coherent_kept h.coherent⟩
  | call cmd args =>
    exact ⟨Script.dispatchInner_filled hq h.filled,
      (Script.dispatchInner_edits (p := scriptEffects) (.inl rfl) (.inr rfl) e cmd args
        st.data).moves.holds coherent_kept h.coherent⟩
  | loadInto snapshot => cases snapshot with
    | none => exact h
    | some snapshot => exact hq.elim
  | _ => exact h

theorem Store.Sound.run? {st : Store S} (h : st.Sound) {e : Env} {q : Request S}
    (hq : q.Fills e st) : (q.run? e st).1.Sound := by
  rcases Request.run?_cases e st q with hr | ⟨d', hd', hr⟩
  · rw [hr]
    exact h.run hq
  · rw [hr]
    exact ⟨hd'.holds h.filled, hd'.holds h.coherent⟩

/-- Every request does to the keyspace what it means, and answers so. -/
theorem Request.means {st : Store S} (h : st.Sound) {e : Env} {q : Request S} (hq : q.Fills e st) :
    q.Means e.now (keyspace e.now st.data) (keyspace e.now (q.run? e st).1.data)
      (q.run? e st).2 := by
  cases q with
  | op o =>
    dsimp only [run?]
    rcases Op.exec?_spec e st.data o with ⟨hfits, hr⟩ | ⟨hover, d', hd', hr⟩
    · rw [hr]
      exact .inr ⟨hfits, _, rfl, Op.means e st.data o hq h.filled h.coherent⟩
    · rw [hr]
      exact .inl ⟨hover, hd'.keyspace_eq, rfl⟩
  | keys pattern =>
    refine ⟨rfl, _, rfl, ?_, fun k => mem_keys_iff⟩
    exact (FinMap.nodup_fst_walk e.walk st.data).sublist (List.filter_sublist.map Prod.fst)
  | existsKeys ks =>
    exact ⟨rfl, congrArg (some ∘ Response.count) (existsKeys_eq_countP e ks st.data)⟩
  | mget ks =>
    refine ⟨rfl, congrArg (some ∘ Response.values) (List.map_congr_left fun k _ => ?_)⟩
    exact (bind_string?_keyspace e.now st.data k).symm
  | call cmd args =>
    dsimp only [run?]
    rcases Script.dispatchInner?_spec e cmd args st.data with ⟨-, hr⟩ | ⟨-, key, hr⟩
    · rw [hr]
      refine ⟨nofun, fun k hk => ?_, fun ty hty => keyspace_changesOnly ?_⟩
      · rw [keyspace, keyspace]
        exact congrArg _ (Script.dispatchInner_others e st.data hk)
      · exact Script.dispatchInner_changesOnly hty fun _ => h.filled
    · rw [hr]
      dsimp only
      rw [keyspace_purge]
      exact ⟨fun _ => rfl, fun _ _ => rfl, fun _ _ _ => .inl rfl⟩
  | _ =>
    intro k hk
    rw [keyspace, keyspace]
    exact congrArg _ (Request.run_spares hk st k rfl)

theorem explains {now : Instant} {st : Store S} (h : st.Sound) {steps : List (Env × Request S)}
    (ht : InTime steps) (hlater : ∀ x ∈ steps, now ≤ x.1.now) (hq : FillsAll st steps) :
    Keyspace.Explains (keyspace now st.data) (trace st steps) := by
  induction steps generalizing now st with
  | nil => trivial
  | cons x steps ih =>
    obtain ⟨e, q⟩ := x
    obtain ⟨hfills, hrest⟩ := hq
    obtain ⟨hnext, ht⟩ := List.pairwise_cons.mp ht
    refine ⟨keyspace e.now (q.run? e st).1.data, ?_, ih (h.run? hfills) ht hnext hrest⟩
    rw [keyspace_later (hlater _ List.mem_cons_self)]
    exact Request.means h hfills

theorem keyspace_empty (now : Instant) : keyspace now (∅ : Data S) = .empty := by
  funext k
  unfold keyspace live
  rw [Std.ExtTreeMap.getElem?_empty]
  rfl

/-- Every run of requests from an empty store is told by keyspaces, on which each of them does what
it means. -/
theorem collections_explained {steps : List (Env × Request S)} (ht : InTime steps)
    (hq : FillsAll ⟨∅, ∅⟩ steps) : Keyspace.Explains .empty (trace (⟨∅, ∅⟩ : Store S) steps) := by
  have hsound : Store.Sound (⟨∅, ∅⟩ : Store S) := ⟨holds_empty, holds_empty⟩
  cases steps with
  | nil => trivial
  | cons x steps =>
    have hlater : ∀ y ∈ x :: steps, x.1.now ≤ y.1.now := by
      intro y hy
      rcases List.mem_cons.mp hy with rfl | hy
      · exact le_refl _
      · exact (List.pairwise_cons.mp ht).1 y hy
    rw [← keyspace_empty (S := S) x.1.now]
    exact explains hsound ht hlater hq

/-- A hash of one field with a second to live, and two scores; two seconds later the hash is written
anew, an expiry that no clock can count is tried on it, and the better score is taken out. -/
def rewrittenHash : List (Env × Request ℤ) :=
  [(⟨0, 0, .byKey⟩, .op (.hset [1] [([2], [3])])),
    (⟨0, 0, .byKey⟩, .op (.expire [1] 1)),
    (⟨0, 0, .byKey⟩, .op (.zadd [4] [(5, [6]), (7, [8])] {})),
    (⟨2000000000, 0, .byKey⟩, .op (.hset [1] [([9], [3])])),
    (⟨2000000000, 0, .byKey⟩, .op (.expire [1] (2 ^ 63 - 1))),
    (⟨2000000000, 0, .byKey⟩, .op (.zremrangebyscore [4] 6 8)),
    (⟨2000000000, 0, .byKey⟩, .op (.zrange [4] 0 (-1) true))]

theorem rewrittenHash_explained :
    Keyspace.Explains .empty (trace (⟨∅, ∅⟩ : Store ℤ) rewrittenHash) := by
  refine collections_explained ?_ ?_
  · simp [InTime, rewrittenHash]
  · simp [FillsAll, rewrittenHash, Request.Fills, Op.TypedFills, Op.Typed, Op.Fills]

end Runs

end BurnerRedis
