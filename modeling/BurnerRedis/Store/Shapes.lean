import BurnerRedis.Methods

/-!
# The shapes of the methods

Every method but twelve is of one of the shapes (`Op.shaped`), and rewrites a value as
`Op.Rewrites` says: it evolves with the effects that the reply accounts for, it is not left empty, and
it is not changed by a method that fails. SET, DELETE, TTL, EXPIRE, the sweep, ZRANGESTORE, XREAD,
XREADGROUP, the two moves and the scans of the blocking pops have bodies of their own.
-/

open Relation (ReflTransGen)

namespace BurnerRedis

variable {S : Type} [LinearOrder S]

/-! ## What is said of a value that is rewritten -/

section Rewrites

/-- Fields or members are given. -/
def Op.Gives : Op S → Prop
  | .hset _ fields => fields ≠ []
  | .sadd _ members => members ≠ []
  | _ => True

/-- How a method rewrites a value; for failed methods XADD is set apart. -/
structure Op.Rewrites (o : Op S) (old new : Option (ValueData S)) (r : Outcome × Wake) : Prop where
  evolves : ∀ x ∈ new, Evolves (r.2.effects ∪ o.effects) old x
  filled : o.Typed → (old = none → o.Gives) → (∀ x ∈ old, x.Filled) → ∀ x ∈ new, x.Filled
  unchanged : o.Typed → (∀ key fields id, o ≠ .xadd key fields id) → r.1.Fails → new = old

/-- A method that wakes nobody. -/
def Op.RewritesQuietly {α : Type} (o : Op S) (old new : Option (ValueData S))
    (r : Except StoreError α) : Prop :=
  o.Rewrites old new (⟨α, r⟩, {})

/-- A method that says whom it wakes. -/
def Op.RewritesWaking {α : Type} (o : Op S) (old new : Option (ValueData S))
    (r : Except StoreError α × Wake) : Prop :=
  o.Rewrites old new (⟨α, r.1⟩, r.2)

variable {α : Type} {o : Op S} {old : Option (ValueData S)} {x : ValueData S} {a : α} {w : Wake}

theorem Outcome.not_fails_ok : ¬ (⟨α, .ok a⟩ : Outcome).Fails := by
  rintro ⟨err, h⟩
  cases h

/-- A value is written by a method that does not fail. -/
theorem Op.Rewrites.of_ok (hx : Evolves (w.effects ∪ o.effects) old x)
    (hfill : (old = none → o.Gives) → (∀ y ∈ old, y.Filled) → x.Filled) :
    o.Rewrites old (some x) (⟨α, .ok a⟩, w) where
  evolves y hy := by
    cases hy
    exact hx
  filled _ hg h y hy := by
    cases hy
    exact hfill hg h
  unchanged _ _ hf := absurd hf Outcome.not_fails_ok

/-- A value is written, or the key goes with it when it is empty. -/
theorem Op.Rewrites.of_kept (hx : Evolves (w.effects ∪ o.effects) old x) :
    o.Rewrites old x.kept (⟨α, .ok a⟩, w) where
  evolves y hy := by
    obtain ⟨rfl, -⟩ := ValueData.eq_of_mem_kept hy
    exact hx
  filled _ _ _ y hy := (ValueData.eq_of_mem_kept hy).2
  unchanged _ _ hf := absurd hf Outcome.not_fails_ok

/-- A value that stays is neither emptied nor changed. -/
theorem Op.Rewrites.same (x : ValueData S) (r : Outcome × Wake) :
    o.Rewrites (some x) (some x) r where
  evolves y hy := by
    cases hy
    exact .refl _ x
  filled _ _ h := h
  unchanged _ _ _ := rfl

/-- A stream is never an empty container. -/
theorem Op.Rewrites.of_steps {s s' : Stream}
    (h : ReflTransGen (StreamStep (w.effects ∪ o.effects)) s s') :
    o.Rewrites (some (ValueData.stream (S := S) s)) (some (.stream s')) (⟨α, .ok a⟩, w) :=
  .of_ok (.of_steps h) fun _ _ => rfl

end Rewrites

/-! ## The methods that write -/

namespace Store

variable {e : Env} {key : Bytes}

theorem mem_self : key ∈ [key] := List.mem_singleton_self key

theorem hset_shape {fields : List (Bytes × Bytes)} :
    Shape (S := S) e.now [key] .hash .writes (Op.RewritesQuietly (.hset key fields))
      (hset e key fields) := by
  refine .upsert rfl mem_self (fun _ => rfl) ?_ fun map => ?_
  · exact .of_ok (.hash _ _) fun hg _ => filled_setFields (.inr (hg rfl))
  · exact .of_ok (.hash _ _) fun _ h => filled_setFields (.inl (h _ rfl))

theorem hdel_shape {fields : List Bytes} :
    Shape (S := S) e.now [key] .hash .drops (Op.RewritesQuietly (.hdel key fields))
      (hdel e key fields) :=
  .modifyDrop rfl mem_self (fun _ => rfl) fun _ => .of_kept (.hash _ _)

/-- An increment out of the range of the source could fail for a new key. -/
theorem hincrby_shape {field : Bytes} {increment : ℤ} :
    Shape (S := S) e.now [key] .hash .writes (Op.RewritesQuietly (.hincrby key field increment))
      (hincrby e key field increment) := by
  refine .upsert rfl mem_self (fun _ => rfl) ⟨?_, ?_, ?_⟩ fun map => ?_
  · rintro x hx
    cases hx
    exact .hash _ _
  · rintro ht - - x hx
    rw [Std.ExtTreeMap.getElem?_empty, hincrbyValue_absent ht] at hx
    cases hx
    exact filled_insert ∅ field _
  · rintro ht - hf
    rw [Std.ExtTreeMap.getElem?_empty, hincrbyValue_absent ht] at hf
    exact absurd hf Outcome.not_fails_ok
  · cases hincrbyValue map[field]? increment with
    | error err => exact .same _ _
    | ok newVal => exact .of_ok (.hash _ _) fun _ _ => filled_insert map field _

theorem sadd_shape {members : List Bytes} :
    Shape (S := S) e.now [key] .set .writes (Op.RewritesQuietly (.sadd key members))
      (sadd e key members) := by
  refine .upsert rfl mem_self (fun _ => rfl) ?_ fun set => ?_
  · exact .of_ok (.set _ _) fun hg _ => filled_addAll (.inr (hg rfl))
  · exact .of_ok (.set _ _) fun _ h => filled_addAll (.inl (h _ rfl))

theorem srem_shape {members : List Bytes} :
    Shape (S := S) e.now [key] .set .drops (Op.RewritesQuietly (.srem key members))
      (srem e key members) :=
  .modifyDrop rfl mem_self (fun _ => rfl) fun _ => .of_kept (.set _ _)

/-! ### Sorted sets -/

/-- The two indexes of a sorted set are kept together. -/
theorem zadd_shape {members : List (S × Bytes)} {flags : ZaddFlags} :
    Shape e.now [key] .sortedSet .drops (Op.RewritesQuietly (.zadd key members flags))
      (zadd e key members flags) := by
  refine .upsertDrop rfl mem_self (fun _ => rfl) (.of_kept ?_) fun _ => .of_kept ?_
  · exact .sortedSet _ _ fun _ => coherent_foldl_zaddStep flags members SortedSet.coherent_new
  · exact .of_coherent fun h => coherent_foldl_zaddStep flags members h

theorem zrem_shape {members : List Bytes} :
    Shape (S := S) e.now [key] .sortedSet .drops (Op.RewritesQuietly (.zrem key members))
      (zrem e key members) :=
  .modifyDrop rfl mem_self (fun _ => rfl) fun _ => .of_kept (.of_coherent fun h => h.removeAll _)

theorem zremrangebyscore_shape {min max : S} :
    Shape e.now [key] .sortedSet .drops (Op.RewritesQuietly (.zremrangebyscore key min max))
      (zremrangebyscore e key min max) :=
  .modifyDrop rfl mem_self (fun _ => rfl) fun _ => .of_kept (.of_coherent fun h => h.removeAll _)

/-! ### Streams -/

/-- An id that is refused leaves the stream as it is; the key that was made for it stays. -/
theorem xadd_shape {fields : Fields} {id : Option StreamId} :
    Shape (S := S) e.now [key] .stream .writes (Op.RewritesWaking (.xadd key fields id))
      (xadd e key fields id) := by
  have stays : ∀ {old : Option (ValueData S)} {s s' : Stream} {r : Outcome × Wake},
      StreamAt old s →
      ReflTransGen (StreamStep (r.2.effects ∪ (Op.xadd (S := S) key fields id).effects)) s s' →
      (Op.xadd key fields id).Rewrites old (some (.stream s')) r := by
    intro old s s' r hs h
    refine ⟨fun x hx => ?_, fun _ _ _ x hx => ?_, fun _ hn => absurd rfl (hn key fields id)⟩
    · cases hx
      exact .stream old s s' hs h
    · cases hx
      rfl
  have appended : ∀ (s : Stream) (newId : StreamId), StreamStep
      (({ stream := true } : Wake).effects ∪ (Op.xadd (S := S) key fields id).effects) s
      { s with entries := s.entries.insert newId fields, lastId := newId } :=
    fun s newId => .append newId fields (.inl (Wake.append_mem rfl))
  refine .upsert rfl mem_self (fun _ => rfl) ?_ fun s => ?_
  · cases newStreamId e.wall Stream.new.lastId id with
    | none => exact stays .absent .refl
    | some newId => exact stays .absent (.single (appended _ newId))
  · cases newStreamId e.wall s.lastId id with
    | none => exact stays (.found s) .refl
    | some newId => exact stays (.found s) (.single (appended s newId))

theorem xtrim_shape {maxlen : Option ℕ} {minid : Option StreamId} :
    Shape (S := S) e.now [key] .stream .writes (Op.RewritesQuietly (.xtrim key maxlen minid))
      (xtrim e key maxlen minid) :=
  .modify rfl mem_self (fun _ => rfl) fun s =>
    .of_steps ((s.discard_steps _).trans (Stream.discard_steps _ _))

theorem xdel_shape {ids : List StreamId} :
    Shape (S := S) e.now [key] .stream .writes (Op.RewritesQuietly (.xdel key ids))
      (xdel e key ids) :=
  .modify rfl mem_self (fun _ => rfl) fun s => .of_steps (s.discard_steps ids)

/-- A group that is there is refused, and the stream stays; a new stream has none. -/
theorem xgroupCreate_shape {group : Bytes} {id : StreamId} {mkstream : Bool} :
    Shape (S := S) e.now [key] .stream .writes
      (Op.RewritesQuietly (.xgroupCreate key group id mkstream))
      (xgroupCreate e key group id mkstream) := by
  have hsteps : ∀ s, ReflTransGen (StreamStep (({} : Wake).effects ∪
      (Op.xgroupCreate (S := S) key group id mkstream).effects)) s (createGroup group id s).1 :=
    createGroup_steps (.inr rfl) id
  have hold : ∀ s, Op.RewritesQuietly (S := S) (.xgroupCreate key group id mkstream)
      (some (.stream s)) (some (.stream (createGroup group id s).1)) (createGroup group id s).2 := by
    intro s
    have hs := hsteps s
    unfold createGroup at hs ⊢
    split at hs
    · exact .same _ _
    · exact .of_steps hs
  have hnew : Op.RewritesQuietly (S := S) (.xgroupCreate key group id mkstream)
      none (some (.stream (createGroup group id .new).1)) (createGroup group id .new).2 := by
    have hs := hsteps .new
    have hgroup : Stream.new.groups[group]? = none := Std.ExtTreeMap.getElem?_empty
    unfold createGroup at hs ⊢
    rw [hgroup] at hs ⊢
    exact .of_ok (.of_steps_new hs) fun _ _ => rfl
  unfold xgroupCreate
  split_ifs
  · exact .upsert rfl mem_self (fun _ => rfl) hnew hold
  · exact .modify rfl mem_self (fun _ => rfl) hold

theorem xgroupDestroy_shape {group : Bytes} :
    Shape (S := S) e.now [key] .stream .writes (Op.RewritesQuietly (.xgroupDestroy key group))
      (xgroupDestroy e key group) :=
  .modify rfl mem_self (fun _ => rfl) fun _ => .of_steps (.single (.destroy group))

/-- A command on a group that is there does not fail. -/
theorem modifyGroup_shape {α : Type} {o : Op S} {group : Bytes} {missing wrong : Except StoreError α}
    {f : Stream → ConsumerGroup → ConsumerGroup × Except StoreError α}
    (h : ∀ s cg, ReflTransGen (GroupStep (({} : Wake).effects ∪ o.effects)) cg (f s cg).1)
    (hok : ∀ s cg, ∃ a, (f s cg).2 = .ok a) :
    Shape e.now [key] .stream .writes o.RewritesQuietly
      (modifyGroup e.now key group missing wrong f) := by
  refine .modify rfl mem_self (fun _ => rfl) fun s => ?_
  cases hg : s.groups[group]? with
  | none => exact .same _ _
  | some cg =>
    obtain ⟨a, ha⟩ := hok s cg
    dsimp only
    rw [ha]
    exact .of_steps (StreamStep.of_group hg (h s cg))

theorem xack_shape {group : Bytes} {ids : List StreamId} :
    Shape (S := S) e.now [key] .stream .writes (Op.RewritesQuietly (.xack key group ids))
      (xack e key group ids) :=
  modifyGroup_shape (fun _ _ => ConsumerGroup.foldl_ackOne_steps (.inr rfl) e.walk ids 0)
    fun _ _ => ⟨_, rfl⟩

theorem xautoclaim_shape {group consumer : Bytes} {minIdle : UInt64} {start : StreamId}
    {count : Option ℕ} :
    Shape (S := S) e.now [key] .stream .writes
      (Op.RewritesQuietly (.xautoclaim key group consumer minIdle start count))
      (xautoclaim e key group consumer minIdle start count) := by
  refine modifyGroup_shape (fun s cg => ?_) fun _ _ => ⟨_, rfl⟩
  refine ConsumerGroup.foldl_autoclaimOne_steps e.now consumer ?_ fun q hq => ?_
  · exact (cg.pairwise_qualifying e _ start).sublist (ConsumerGroup.takeCount_sublist count _)
  · exact ConsumerGroup.mem_qualifying ((ConsumerGroup.takeCount_sublist count _).subset hq)

theorem xclaim_shape {group consumer : Bytes} {minIdle : UInt64} {ids : List StreamId}
    {o : XclaimOptions} :
    Shape (S := S) e.now [key] .stream .writes
      (Op.RewritesQuietly (.xclaim key group consumer minIdle ids o))
      (xclaim e key group consumer minIdle ids o) :=
  modifyGroup_shape (fun _ _ => ConsumerGroup.foldl_claimOne_steps (fun _ => .inr rfl) ids [])
    fun _ _ => ⟨_, rfl⟩

/-! ### Lists -/

/-- A push without values is refused before it looks at the list. -/
theorem pushAs_shape {o : Op S} {side : ListEnd} {arity : String} {values : List Bytes} :
    Shape e.now [key] .list .writes o.RewritesWaking (pushAs side arity e key values) := by
  unfold pushAs
  refine .ite (fun _ => .reply _) fun hvalues => ?_
  have hpush : ∀ l : List Bytes, values.foldl (fun l v => pushEnd side v l) l ≠ [] :=
    fun l => pushAll_ne_nil side (.inl fun hnil => hvalues (List.isEmpty_iff.mpr hnil))
  have hgrow : Effect.grow ∈ ({ list := true } : Wake).effects ∪ o.effects :=
    .inl (Wake.grow_mem rfl)
  refine .upsert rfl mem_self (fun _ => rfl) ?_ fun l => ?_
  · exact .of_ok (.of_grow hgrow _ _) fun _ _ => filled_list (hpush [])
  · exact .of_ok (.of_grow hgrow _ _) fun _ _ => filled_list (hpush l)

/-- A pop drops a list that it empties, and only reads for a count of zero. -/
theorem popAs_shape {o : Op S} {side : ListEnd} {count : Option ℕ} :
    Shape e.now [key] .list .writes o.RewritesQuietly (popAs side e key count) := by
  unfold popAs
  split_ifs
  · exact .read mem_self
  · refine .shrink rfl mem_self rfl fun l => .of_kept (.of_shrink fun hne => ?_)
    rintro rfl
    exact hne (popList_nil side count)

theorem lrem_shape {count : ℤ} {value : Bytes} :
    Shape (S := S) e.now [key] .list .writes (Op.RewritesQuietly (.lrem key count value))
      (lrem e key count value) := by
  refine .shrink rfl mem_self rfl fun l => .of_kept (.of_shrink fun hne => ?_)
  rintro rfl
  exact hne (lremList_nil count value)

theorem ltrim_shape {start stop : ℤ} :
    Shape (S := S) e.now [key] .list .writes (Op.RewritesQuietly (.ltrim key start stop))
      (ltrim e key start stop) := by
  refine .shrink rfl mem_self rfl fun l => .of_kept (.of_shrink fun hne => ?_)
  rintro rfl
  exact hne (lrangeList_nil start stop)

theorem lset_shape {index : ℤ} {value : Bytes} :
    Shape (S := S) e.now [key] .list .writes (Op.RewritesQuietly (.lset key index value))
      (lset e key index value) := by
  refine .modify rfl mem_self (fun _ => rfl) fun l => ?_
  cases elementIndex index l.length with
  | none => exact .same _ _
  | some i =>
    have hset : ∀ l', l'.set i value ≠ [] ↔ l' ≠ [] := fun _ => (List.set_eq_nil_iff ..).not
    exact .of_ok (.of_shrink (hset l).mp) fun _ h =>
      filled_list ((hset l).mpr (ne_nil_of_filled (h _ rfl)))

theorem linsert_shape {position : InsertPosition} {pivot value : Bytes} :
    Shape (S := S) e.now [key] .list .writes
      (Op.RewritesQuietly (.linsert key position pivot value))
      (linsert e key position pivot value) := by
  refine .modify rfl mem_self (fun _ => rfl) fun l => ?_
  cases hpos : l.findIdx? (· == pivot) with
  | none => exact .of_ok (.refl _ _) fun _ h => h _ rfl
  | some pos =>
    refine .of_ok (.of_shrink fun _ => ?_) fun _ h => filled_insertIdx (h _ rfl) _ _
    rintro rfl
    cases hpos

end Store

/-! ## All methods -/

section Shaped

variable {α : Type} {e : Env} {o : Op S}

/-- A method of one of the shapes, whatever the type of its replies. -/
inductive Op.Shaped (e : Env) (o : Op S) : Prop where
  | intro {ρ : Type} (f : Data S → Data S × ρ) (g : ρ → Outcome × Wake)
      (h : Shape e.now o.keys (o.type?.getD .string) o.use
        (fun old new r => o.Rewrites old new (g r)) f)
      (exec : ∀ d, o.exec e d = ((f d).1, (g (f d).2).1))
      (run : ∀ d, o.run e d = ((f d).1, (g (f d).2).2))

theorem Op.Shaped.answered {f : Data S → Data S × Except StoreError α}
    (h : Shape e.now o.keys (o.type?.getD .string) o.use o.RewritesQuietly f)
    (exec : ∀ d, o.exec e d = outcome (f d)) (run : ∀ d, o.run e d = ((f d).1, {})) : o.Shaped e :=
  .intro f (fun r => (⟨α, r⟩, {})) h exec run

theorem Op.Shaped.waking {f : Data S → Data S × Except StoreError α × Wake}
    (h : Shape e.now o.keys (o.type?.getD .string) o.use o.RewritesWaking f)
    (exec : ∀ d, o.exec e d = outcomeWaking (f d)) (run : ∀ d, o.run e d = ((f d).1, (f d).2.2)) :
    o.Shaped e :=
  .intro f (fun r => (⟨α, r.1⟩, r.2)) h exec run

/-- The methods of no shape. -/
def Op.ownBody : Op S → Bool
  | .set .. | .delete _ | .ttl _ | .expire .. | .sweepExpired | .zrangestore .. | .xread ..
  | .xreadgroup .. | .lmoveAtomic .. | .rpoplpushAtomic .. | .blpopPoll _ | .brpopPoll _ => true
  | _ => false

/-- A method without a body of its own is of one of the shapes. -/
theorem Op.shaped (e : Env) (o : Op S) (h : o.ownBody = false) : o.Shaped e := by
  cases o with
  -- the methods that write
  | hset => exact .answered Store.hset_shape (fun _ => rfl) fun _ => rfl
  | hdel => exact .answered Store.hdel_shape (fun _ => rfl) fun _ => rfl
  | hincrby => exact .answered Store.hincrby_shape (fun _ => rfl) fun _ => rfl
  | sadd => exact .answered Store.sadd_shape (fun _ => rfl) fun _ => rfl
  | srem => exact .answered Store.srem_shape (fun _ => rfl) fun _ => rfl
  | zadd => exact .answered Store.zadd_shape (fun _ => rfl) fun _ => rfl
  | zrem => exact .answered Store.zrem_shape (fun _ => rfl) fun _ => rfl
  | zremrangebyscore => exact .answered Store.zremrangebyscore_shape (fun _ => rfl) fun _ => rfl
  | xadd => exact .waking Store.xadd_shape (fun _ => rfl) fun _ => rfl
  | xtrim => exact .answered Store.xtrim_shape (fun _ => rfl) fun _ => rfl
  | xdel => exact .answered Store.xdel_shape (fun _ => rfl) fun _ => rfl
  | xgroupCreate => exact .answered Store.xgroupCreate_shape (fun _ => rfl) fun _ => rfl
  | xgroupDestroy => exact .answered Store.xgroupDestroy_shape (fun _ => rfl) fun _ => rfl
  | xack => exact .answered Store.xack_shape (fun _ => rfl) fun _ => rfl
  | xautoclaim => exact .answered Store.xautoclaim_shape (fun _ => rfl) fun _ => rfl
  | xclaim => exact .answered Store.xclaim_shape (fun _ => rfl) fun _ => rfl
  | lpush => exact .waking Store.pushAs_shape (fun _ => rfl) fun _ => rfl
  | rpush => exact .waking Store.pushAs_shape (fun _ => rfl) fun _ => rfl
  | lpop => exact .answered Store.popAs_shape (fun _ => rfl) fun _ => rfl
  | rpop => exact .answered Store.popAs_shape (fun _ => rfl) fun _ => rfl
  | lrem => exact .answered Store.lrem_shape (fun _ => rfl) fun _ => rfl
  | lset => exact .answered Store.lset_shape (fun _ => rfl) fun _ => rfl
  | ltrim => exact .answered Store.ltrim_shape (fun _ => rfl) fun _ => rfl
  | linsert => exact .answered Store.linsert_shape (fun _ => rfl) fun _ => rfl
  -- the methods that read
  | get => exact .answered (.read Store.mem_self) (fun _ => rfl) fun _ => rfl
  | hget => exact .answered (.read Store.mem_self) (fun _ => rfl) fun _ => rfl
  | hvals => exact .answered (.read Store.mem_self) (fun _ => rfl) fun _ => rfl
  | hgetall => exact .answered (.read Store.mem_self) (fun _ => rfl) fun _ => rfl
  | hexists => exact .answered (.read Store.mem_self) (fun _ => rfl) fun _ => rfl
  | smembers => exact .answered (.read Store.mem_self) (fun _ => rfl) fun _ => rfl
  | sismember => exact .answered (.read Store.mem_self) (fun _ => rfl) fun _ => rfl
  | zrange => exact .answered (.read Store.mem_self) (fun _ => rfl) fun _ => rfl
  | zrangebyscore => exact .answered (.read Store.mem_self) (fun _ => rfl) fun _ => rfl
  | zcard => exact .answered (.read Store.mem_self) (fun _ => rfl) fun _ => rfl
  | zscore => exact .answered (.read Store.mem_self) (fun _ => rfl) fun _ => rfl
  | zcount => exact .answered (.read Store.mem_self) (fun _ => rfl) fun _ => rfl
  | xlen => exact .answered (.read Store.mem_self) (fun _ => rfl) fun _ => rfl
  | xrange => exact .answered (.read Store.mem_self) (fun _ => rfl) fun _ => rfl
  | xinfoStream => exact .answered (.read Store.mem_self) (fun _ => rfl) fun _ => rfl
  | xinfoGroups => exact .answered (.read Store.mem_self) (fun _ => rfl) fun _ => rfl
  | xinfoConsumers => exact .answered (.read Store.mem_self) (fun _ => rfl) fun _ => rfl
  | xpendingRange => exact .answered (.read Store.mem_self) (fun _ => rfl) fun _ => rfl
  | xpendingSummary => exact .answered (.read Store.mem_self) (fun _ => rfl) fun _ => rfl
  | llen => exact .answered (.read Store.mem_self) (fun _ => rfl) fun _ => rfl
  | lindex => exact .answered (.read Store.mem_self) (fun _ => rfl) fun _ => rfl
  | lrange => exact .answered (.read Store.mem_self) (fun _ => rfl) fun _ => rfl
  | streamLastId =>
    exact .intro _ (fun id => (⟨_, .ok id⟩, {})) (.read Store.mem_self) (fun _ => rfl) fun _ => rfl
  | _ => cases h

end Shaped

/-! ## What a method edits -/

/-- Every method edits the data map with its own effects and those it wakes clients for. -/
theorem Op.run_edits (e : Env) (d : Data S) (o : Op S) :
    Edits e.now ((o.run e d).2.effects ∪ o.effects) d (o.run e d).1 := by
  cases hown : o.ownBody with
  | false =>
    obtain ⟨f, g, h, -, hrun⟩ := o.shaped e hown
    rw [hrun]
    exact (h.result d).edits (w := fun r => (g r).2.effects ∪ o.effects) fun hq => hq.evolves
  | true =>
    cases o with
    | set => exact Store.set_edits
    | delete => exact Store.delete_edits
    | ttl => exact purge_edits
    | expire => exact Store.expire_edits
    | sweepExpired => exact Store.sweepExpired_edits
    | zrangestore => exact Store.zrangestore_edits
    | xread => exact Store.xread_edits
    | xreadgroup => exact Store.xreadgroup_edits (.inr rfl)
    | lmoveAtomic => exact Store.lmoveAtomic_edits.mono Set.subset_union_left
    | rpoplpushAtomic => exact Store.lmoveAtomic_edits.mono Set.subset_union_left
    | blpopPoll => exact Store.pollAs_edits
    | brpopPoll => exact Store.pollAs_edits
    | _ => cases hown

end BurnerRedis
