import BurnerRedis.Shapes
import BurnerRedis.Script.Dispatch

/-!
# The shapes of a script's commands

Every command but eight is of one of the shapes (`dispatchInner_shape`), and rewrites a value as
`Rewrites` says: it evolves with the effects that the reply accounts for, it is not left empty, and it
is not changed by a command that fails. SET, DEL, EXISTS, EXPIRE, PEXPIRE, XREAD, LMOVE and RPOPLPUSH
have bodies of their own, and `dispatchInner_elim` sets them apart.
-/

namespace BurnerRedis

/-- The effects of scripts besides those they wake clients for. -/
def scriptEffects : Set Effect := {.ack, .force}

namespace Script

/-! ## What is said of a value that is rewritten -/

section Rewrites

variable {S : Type} [LinearOrder S]

/-- How a command of a script rewrites a value; ZADD, and for failed commands XADD, are set apart. -/
structure Rewrites (cmd : String) (old new : Option (ValueData S)) (r : Reply) : Prop where
  evolves : ∀ x ∈ new, Evolves ((wakes cmd r).effects ∪ scriptEffects) old x
  filled : cmd ≠ "ZADD" → (∀ x ∈ old, x.Filled) → ∀ x ∈ new, x.Filled
  unchanged : cmd ∉ ["XADD", "ZADD"] → fails r = true → new = old

variable {cmd : String} {old : Option (ValueData S)} {x : ValueData S} {r : Reply}

/-- A value is written by a command that does not fail. -/
theorem Rewrites.of_reply (hr : fails r = false)
    (hx : Evolves ((wakes cmd r).effects ∪ scriptEffects) old x)
    (hfill : (∀ y ∈ old, y.Filled) → x.Filled) : Rewrites cmd old (some x) r where
  evolves y hy := by
    cases hy
    exact hx
  filled _ h y hy := by
    cases hy
    exact hfill h
  unchanged _ hf := by
    rw [hr] at hf
    cases hf

/-- A value is written, or the key goes with it when it is empty. -/
theorem Rewrites.of_kept (hr : fails r = false)
    (hx : Evolves ((wakes cmd r).effects ∪ scriptEffects) old x) : Rewrites cmd old x.kept r where
  evolves y hy := by
    obtain ⟨rfl, -⟩ := ValueData.eq_of_mem_kept hy
    exact hx
  filled _ _ y hy := (ValueData.eq_of_mem_kept hy).2
  unchanged _ hf := by
    rw [hr] at hf
    cases hf

/-- A value that stays is neither emptied nor changed. -/
theorem Rewrites.same (x : ValueData S) (r : Reply) : Rewrites cmd (some x) (some x) r where
  evolves y hy := by
    cases hy
    exact .refl _ x
  filled _ h := h
  unchanged _ _ := rfl

/-- A stream is never an empty container. -/
theorem Rewrites.of_steps {s s' : Stream} (hr : fails r = false)
    (h : Relation.ReflTransGen (StreamStep ((wakes cmd r).effects ∪ scriptEffects)) s s') :
    Rewrites cmd (some (ValueData.stream (S := S) s)) (some (.stream s')) r :=
  .of_reply hr (.of_steps h) fun _ => rfl

end Rewrites

/-! ## The types of the commands -/

/-- The type that a command is for. -/
def type? : String → Option DataType
  | "GET" => some .string
  | "HSET" | "HGET" | "HDEL" | "HVALS" | "HGETALL" | "HEXISTS" | "HINCRBY" => some .hash
  | "SADD" | "SMEMBERS" | "SISMEMBER" | "SREM" => some .set
  | "ZADD" | "ZREM" | "ZRANGE" | "ZRANGEBYSCORE" | "ZREMRANGEBYSCORE" | "ZCARD" | "ZSCORE" =>
    some .sortedSet
  | "XADD" | "XREAD" | "XDEL" | "XACK" | "XLEN" | "XRANGE" | "XREVRANGE" | "XCLAIM" => some .stream
  | "LPUSH" | "RPUSH" | "LPOP" | "RPOP" | "LRANGE" | "LLEN" | "LINDEX" | "LINSERT" | "LREM"
  | "LSET" | "LTRIM" | "LMOVE" | "RPOPLPUSH" => some .list
  | _ => none

/-- The commands that drop what they leave empty. -/
def drops (cmd : String) : Bool := cmd ∈ ["HDEL", "SREM", "ZREM", "ZREMRANGEBYSCORE"]

/-- The commands of a script that only read. -/
def readCommands : List String :=
  ["GET", "EXISTS", "HGET", "HVALS", "HGETALL", "HEXISTS", "SMEMBERS", "SISMEMBER", "ZRANGE",
    "ZRANGEBYSCORE", "ZCARD", "ZSCORE", "XREAD", "XLEN", "XRANGE", "XREVRANGE", "LRANGE", "LLEN",
    "LINDEX"]

/-- How a command uses the value of its key. -/
def use (cmd : String) : Use :=
  if cmd ∈ readCommands then .reads else if drops cmd then .drops else .writes

/-! ## The commands that read -/

theorem mem_first {key : Bytes} {rest : List Bytes} : key ∈ (key :: rest).take 1 :=
  List.mem_cons_self

section Reads

variable {S : Type} [LinearOrder S] {e : Env} {args : List Bytes} {ty : DataType} {u : Use}
  {Q : Option (ValueData S) → Option (ValueData S) → Reply → Prop}

/-- A command that reads looks at its first argument, or answers that the arguments do not fit. -/
theorem get_shape : Shape e.now (args.take 1) ty u Q (get e args) := by
  unfold get
  split
  · exact .read mem_first
  · exact .reply _

theorem hget_shape : Shape e.now (args.take 1) ty u Q (hget e args) := by
  unfold hget
  split
  · exact .read mem_first
  · exact .reply _

theorem hvals_shape : Shape e.now (args.take 1) ty u Q (hvals e args) := by
  unfold hvals
  split
  · exact .read mem_first
  · exact .reply _

theorem hgetall_shape : Shape e.now (args.take 1) ty u Q (hgetall e args) := by
  unfold hgetall
  split
  · exact .read mem_first
  · exact .reply _

theorem hexists_shape : Shape e.now (args.take 1) ty u Q (hexists e args) := by
  unfold hexists
  split
  · exact .read mem_first
  · exact .reply _

theorem smembers_shape : Shape e.now (args.take 1) ty u Q (smembers e args) := by
  unfold smembers
  split
  · exact .read mem_first
  · exact .reply _

theorem sismember_shape : Shape e.now (args.take 1) ty u Q (sismember e args) := by
  unfold sismember
  split
  · exact .read mem_first
  · exact .reply _

theorem xlen_shape : Shape e.now (args.take 1) ty u Q (xlen e args) := by
  unfold xlen
  split
  · exact .read mem_first
  · exact .reply _

/-- XRANGE and XREVRANGE answer before they look at the stream when a bound or COUNT is refused. -/
theorem xrangeAs_shape {name : String} {reverse : Bool} :
    Shape e.now (args.take 1) ty u Q (xrangeAs name reverse e args) := by
  unfold xrangeAs
  split
  · rename_i key first second rest
    cases parseBound (if reverse then second else first) true with
    | none => exact .reply _
    | some lo => cases parseBound (if reverse then first else second) false with
      | none => exact .reply _
      | some hi =>
        dsimp only
        cases xrangeCount rest none with
        | error r => exact .reply r
        | ok count => exact .read mem_first
  · exact .reply _

theorem lrange_shape : Shape e.now (args.take 1) ty u Q (lrange e args) := by
  unfold lrange
  split
  · rename_i key start stop
    cases parseI64 start with
    | none => exact .reply _
    | some start => cases parseI64 stop with
      | none => exact .reply _
      | some stop => exact .read mem_first
  · exact .reply _

theorem llen_shape : Shape e.now (args.take 1) ty u Q (llen e args) := by
  unfold llen
  split
  · exact .read mem_first
  · exact .reply _

theorem lindex_shape : Shape e.now (args.take 1) ty u Q (lindex e args) := by
  unfold lindex
  split
  · rename_i key index
    cases parseI64 index with
    | none => exact .reply _
    | some index => exact .read mem_first
  · exact .reply _

end Reads

section ScoreReads

variable {S : Type} [Score S] {e : Env} {args : List Bytes} {ty : DataType} {u : Use}
  {Q : Option (ValueData S) → Option (ValueData S) → Reply → Prop}

theorem zrange_shape : Shape e.now (args.take 1) ty u Q (zrange e args) := by
  unfold zrange
  split
  · rename_i key start stop rest
    cases parseI64 start with
    | none => exact .reply _
    | some start => cases parseI64 stop with
      | none => exact .reply _
      | some stop => exact .read mem_first
  · exact .reply _

theorem zrangebyscore_shape : Shape e.now (args.take 1) ty u Q (zrangebyscore e args) := by
  unfold zrangebyscore
  split
  · exact .read mem_first
  · exact .reply _

theorem zcard_shape : Shape e.now (args.take 1) ty u Q (zcard e args) := by
  unfold zcard
  split
  · exact .read mem_first
  · exact .reply _

theorem zscore_shape : Shape e.now (args.take 1) ty u Q (zscore e args) := by
  unfold zscore
  split
  · exact .read mem_first
  · exact .reply _

end ScoreReads

/-! ## The commands that write -/

section Writes

variable {S : Type} [LinearOrder S] {e : Env} {args : List Bytes}

/-- Arguments that come in pairs make some. -/
theorem pairUp_ne_nil {l : List Bytes} (h : ¬ (l.length < 2 ∨ l.length % 2 ≠ 0)) : pairUp l ≠ [] := by
  intro hnil
  rw [not_or, not_lt, not_not] at h
  have hlen := length_flattenPairs (pairUp l)
  rw [flattenPairs_pairUp h.2, hnil, List.length_nil] at hlen
  omega

theorem hset_shape :
    Shape (S := S) e.now (args.take 1) .hash .writes (Rewrites "HSET") (hset e args) := by
  unfold hset
  split
  · refine .ite (fun _ => .reply _) fun harity => ?_
    have hne := pairUp_ne_nil harity
    refine .upsert rfl mem_first (fun _ => rfl) ?_ fun map => ?_
    · exact .of_reply rfl (.hash _ _) fun _ => filled_setFields (.inr hne)
    · exact .of_reply rfl (.hash _ _) fun h => filled_setFields (.inl (h _ rfl))
  · exact .reply _

/-- HDEL and SREM drop what they leave empty. -/
theorem hdel_shape :
    Shape (S := S) e.now (args.take 1) .hash .drops (Rewrites "HDEL") (hdel e args) := by
  unfold hdel
  split
  · exact .modifyDrop rfl mem_first (fun _ => rfl) fun _ => .of_kept rfl (.hash _ _)
  · exact .reply _

/-- HINCRBY makes a hash only for an increment that is a number. -/
theorem hincrby_shape :
    Shape (S := S) e.now (args.take 1) .hash .writes (Rewrites "HINCRBY") (hincrby e args) := by
  unfold hincrby
  split
  · rename_i key field by_
    cases hn : parseI64 by_ with
    | none => exact .reply _
    | some increment =>
      refine .upsert rfl mem_first (fun _ => rfl) ?_ fun map => ?_
      · rw [Std.ExtTreeMap.getElem?_empty, hincrbyValue_absent (inI64_of_parseI64 hn)]
        exact .of_reply rfl (.hash _ _) fun _ => filled_insert ∅ field _
      · cases hincrbyValue map[field]? increment with
        | error err => exact .same _ _
        | ok newVal => exact .of_reply rfl (.hash _ _) fun _ => filled_insert map field _
  · exact .reply _

theorem sadd_shape :
    Shape (S := S) e.now (args.take 1) .set .writes (Rewrites "SADD") (sadd e args) := by
  unfold sadd
  split
  · refine .upsert rfl mem_first (fun _ => rfl) ?_ fun set => ?_
    · exact .of_reply rfl (.set _ _) fun _ => filled_addAll (.inr (List.cons_ne_nil _ _))
    · exact .of_reply rfl (.set _ _) fun h => filled_addAll (.inl (h _ rfl))
  · exact .reply _

theorem srem_shape :
    Shape (S := S) e.now (args.take 1) .set .drops (Rewrites "SREM") (srem e args) := by
  unfold srem
  split
  · exact .modifyDrop rfl mem_first (fun _ => rfl) fun _ => .of_kept rfl (.set _ _)
  · exact .reply _

/-! ### Streams -/

/-- An id that is refused leaves the stream as it is; the key that was made for it stays. -/
theorem xadd_shape :
    Shape (S := S) e.now (args.take 1) .stream .writes (Rewrites "XADD") (xadd e args) := by
  have stays : ∀ {old : Option (ValueData S)} {s s' : Stream} {r : Reply}, StreamAt old s →
      Relation.ReflTransGen (StreamStep ((wakes "XADD" r).effects ∪ scriptEffects)) s s' →
      Rewrites "XADD" old (some (.stream s')) r := by
    intro old s s' r hs h
    refine ⟨fun x hx => ?_, fun _ _ x hx => ?_, fun hn => absurd List.mem_cons_self hn⟩
    · cases hx
      exact .stream old s s' hs h
    · cases hx
      rfl
  have appended : ∀ (fields : Fields) (s : Stream) (newId : StreamId), StreamStep
      ((wakes "XADD" (bulk (formatStreamId newId))).effects ∪ scriptEffects) s
      { s with entries := s.entries.insert newId fields, lastId := newId } :=
    fun fields s newId => .append newId fields (.inl (Wake.append_mem rfl))
  unfold xadd
  split
  · rename_i key idText rest
    refine .ite (fun _ => .reply _) fun _ => ?_
    refine .upsert rfl mem_first (fun _ => rfl) ?_ fun s => ?_
    · cases newEntryId e idText Stream.new.lastId with
      | error r => exact stays .absent .refl
      | ok newId => exact stays .absent (.single (appended _ _ newId))
    · cases newEntryId e idText s.lastId with
      | error r => exact stays (.found s) .refl
      | ok newId => exact stays (.found s) (.single (appended _ s newId))
  · exact .reply _

theorem xdel_shape :
    Shape (S := S) e.now (args.take 1) .stream .writes (Rewrites "XDEL") (xdel e args) := by
  unfold xdel
  split
  · exact .modify rfl mem_first (fun _ => rfl) fun s => .of_steps rfl (s.discard_steps _)
  · exact .reply _

/-- A command on a group that is there. -/
theorem modifyGroup_shape {cmd : String} {key group : Bytes} {keys : List Bytes}
    {missing wrong : Reply} {f : Stream → ConsumerGroup → ConsumerGroup × Reply}
    (hk : key ∈ keys) (hr : ∀ s cg, fails (f s cg).2 = false)
    (h : ∀ s cg, Relation.ReflTransGen (GroupStep scriptEffects) cg (f s cg).1) :
    Shape (S := S) e.now keys .stream .writes (Rewrites cmd)
      (Store.modifyGroup e.now key group missing wrong f) := by
  refine .modify rfl hk (fun _ => rfl) fun s => ?_
  cases hg : s.groups[group]? with
  | none => exact .same _ _
  | some cg =>
    refine .of_steps (hr s cg) (StreamStep.of_group hg ?_)
    exact Relation.ReflTransGen.mono (fun _ _ => GroupStep.mono Set.subset_union_right) _ _ (h s cg)

theorem xack_shape :
    Shape (S := S) e.now (args.take 1) .stream .writes (Rewrites "XACK") (xack e args) := by
  unfold xack
  split
  · exact modifyGroup_shape mem_first (fun _ _ => rfl) fun _ _ =>
      ConsumerGroup.foldl_ackOne_steps (.inl rfl) e.walk _ 0
  · exact .reply _

theorem xclaim_shape :
    Shape (S := S) e.now (args.take 1) .stream .writes (Rewrites "XCLAIM") (xclaim e args) := by
  unfold xclaim
  split
  · rename_i minIdle _ _
    cases parseU64 minIdle with
    | none => exact .reply _
    | some minIdle =>
      exact modifyGroup_shape mem_first (fun _ _ => rfl) fun _ _ =>
        ConsumerGroup.foldl_claimOne_steps (fun _ => .inr rfl) _ []
  · exact .reply _

/-! ### Lists -/

/-- The clients that wait for lists are woken for a push. -/
theorem pushAs_shape {name cmd : String} {side : ListEnd}
    (hcmd : ∀ n, (wakes cmd (integer n)).list = true) :
    Shape (S := S) e.now (args.take 1) .list .writes (Rewrites cmd) (pushAs name side e args) := by
  unfold pushAs
  split
  · rename_i value values
    have hpush : ∀ l : List Bytes, (value :: values).foldl (fun l v => pushEnd side v l) l ≠ [] :=
      fun l => pushAll_ne_nil side (.inl (List.cons_ne_nil _ _))
    have hgrow : ∀ n, Effect.grow ∈ (wakes cmd (integer n)).effects ∪ scriptEffects :=
      fun n => .inl (Wake.grow_mem (hcmd n))
    refine .upsert rfl mem_first (fun _ => rfl) ?_ fun l => ?_
    · exact .of_reply rfl (.of_grow (hgrow _) _ _) fun _ => filled_list (hpush [])
    · exact .of_reply rfl (.of_grow (hgrow _) _ _) fun _ => filled_list (hpush l)
  · exact .reply _

theorem fails_popReply (p : LPopResult) : fails (popReply p) = false := by
  cases p <;> rfl

/-- A pop drops a list that it empties, and only reads for a count of zero. -/
theorem popCount_shape {cmd : String} {side : ListEnd} {key : Bytes} {count : Option ℕ}
    {keys : List Bytes} (hk : key ∈ keys) :
    Shape (S := S) e.now keys .list .writes (Rewrites cmd) (popCount side e key count) := by
  unfold popCount
  split
  · exact .read hk
  · refine .shrink rfl hk rfl fun l => .of_kept (fails_popReply _) (.of_shrink fun hne => ?_)
    rintro rfl
    exact hne (popList_nil side count)

theorem popAs_shape {name cmd : String} {side : ListEnd} :
    Shape (S := S) e.now (args.take 1) .list .writes (Rewrites cmd) (popAs name side e args) := by
  unfold popAs
  split
  · exact popCount_shape mem_first
  · rename_i key count
    cases parseI64 count with
    | none => exact .reply _
    | some n => exact .ite (fun _ => .reply _) fun _ => popCount_shape mem_first
  · exact .reply _

theorem linsert_shape :
    Shape (S := S) e.now (args.take 1) .list .writes (Rewrites "LINSERT") (linsert e args) := by
  unfold linsert
  split
  · rename_i key position pivot value
    cases parseLinsertWhere (fromUtf8Lossy position) with
    | error err => exact .reply _
    | ok position =>
      refine .modify rfl mem_first (fun _ => rfl) fun l => ?_
      cases hpos : l.findIdx? (· == pivot) with
      | none => exact .same _ _
      | some pos =>
        refine .of_reply rfl (.of_shrink fun _ => ?_) fun h => filled_insertIdx (h _ rfl) _ _
        rintro rfl
        cases hpos
  · exact .reply _

theorem lrem_shape :
    Shape (S := S) e.now (args.take 1) .list .writes (Rewrites "LREM") (lrem e args) := by
  unfold lrem
  split
  · rename_i key count value
    cases parseI64 count with
    | none => exact .reply _
    | some count =>
      refine .shrink rfl mem_first rfl fun l => .of_kept rfl (.of_shrink fun hne => ?_)
      rintro rfl
      exact hne (lremList_nil count value)
  · exact .reply _

theorem lset_shape :
    Shape (S := S) e.now (args.take 1) .list .writes (Rewrites "LSET") (lset e args) := by
  unfold lset
  split
  · rename_i key index value
    cases parseI64 index with
    | none => exact .reply _
    | some index =>
      refine .modify rfl mem_first (fun _ => rfl) fun l => ?_
      cases elementIndex index l.length with
      | none => exact .same _ _
      | some i =>
        have hset : l.set i value ≠ [] ↔ l ≠ [] := not_congr (List.set_eq_nil_iff ..)
        exact .of_reply rfl (.of_shrink hset.mp) fun h =>
          filled_list (hset.mpr (ne_nil_of_filled (h _ rfl)))
  · exact .reply _

theorem ltrim_shape :
    Shape (S := S) e.now (args.take 1) .list .writes (Rewrites "LTRIM") (ltrim e args) := by
  unfold ltrim
  split
  · rename_i key start stop
    cases parseI64 start with
    | none => exact .reply _
    | some start => cases parseI64 stop with
      | none => exact .reply _
      | some stop =>
        refine .shrink rfl mem_first rfl fun l => .of_kept rfl (.of_shrink fun hne => ?_)
        rintro rfl
        exact hne (lrangeList_nil start stop)
  · exact .reply _

end Writes

/-! ### Sorted sets -/

section ScoreWrites

variable {S : Type} [Score S] {e : Env} {args : List Bytes}

theorem coherent_zaddPairs (pairs : List (Bytes × Bytes)) {z : SortedSet S} (h : z.Coherent)
    (added : ℤ) : (zaddPairs pairs z added).1.Coherent := by
  induction pairs generalizing z added with
  | nil => exact h
  | cons pair pairs ih =>
    unfold zaddPairs
    split
    · exact h
    · exact ih (h.insert _ _) _

/-- The pairs before a score that is no number are in the set. -/
theorem zadd_shape :
    Shape (S := S) e.now (args.take 1) .sortedSet .writes (Rewrites "ZADD") (zadd e args) := by
  have step : ∀ (pairs : List (Bytes × Bytes)) (old : Option (ValueData S)) (z : SortedSet S),
      ((∀ z₀, old = some (.sortedSet z₀) → z₀.Coherent) → z.Coherent) →
      Rewrites "ZADD" old (some (.sortedSet (zaddPairs pairs z 0).1)) (zaddPairs pairs z 0).2 := by
    intro pairs old z hz
    refine ⟨fun x hx => ?_, fun h => absurd rfl h, fun h => absurd (by simp) h⟩
    cases hx
    exact .sortedSet old _ fun h => coherent_zaddPairs pairs (hz h) 0
  unfold zadd
  split
  · refine .ite (fun _ => .reply _) fun _ => ?_
    exact .upsert rfl mem_first (fun _ => rfl) (step _ none _ fun _ => SortedSet.coherent_new)
      fun z => step _ _ z fun h => h z rfl
  · exact .reply _

theorem zrem_shape :
    Shape (S := S) e.now (args.take 1) .sortedSet .drops (Rewrites "ZREM") (zrem e args) := by
  unfold zrem
  split
  · exact .modifyDrop rfl mem_first (fun _ => rfl) fun _ =>
      .of_kept rfl (.of_coherent fun h => h.removeAll _)
  · exact .reply _

theorem zremrangebyscore_shape :
    Shape (S := S) e.now (args.take 1) .sortedSet .drops (Rewrites "ZREMRANGEBYSCORE")
      (zremrangebyscore e args) := by
  unfold zremrangebyscore
  split
  · exact .modifyDrop rfl mem_first (fun _ => rfl) fun _ =>
      .of_kept rfl (.of_coherent fun h => h.removeAll _)
  · exact .reply _

end ScoreWrites

/-! ## All commands -/

section Dispatch

variable {S : Type} [Score S] {e : Env} {cmd : String} {args : List Bytes} {d : Data S}

/-- The commands of no shape. -/
def ownBodies : List String :=
  ["SET", "DEL", "EXISTS", "EXPIRE", "PEXPIRE", "XREAD", "LMOVE", "RPOPLPUSH"]

/-- A command without a body of its own is of one of the shapes. -/
theorem dispatchInner_shape (h : cmd ∉ ownBodies) :
    Shape (S := S) e.now (args.take 1) ((type? cmd).getD .string) (use cmd) (Rewrites cmd)
      (dispatchInner e cmd args) := by
  apply @dispatchInner_cases S _ (fun _ => Shape e.now (args.take 1) ((type? cmd).getD .string)
    (use cmd) (Rewrites cmd) (dispatchInner e cmd args)) e cmd args ∅
  -- the commands that write
  case hset => rintro rfl; exact hset_shape
  case hdel => rintro rfl; exact hdel_shape
  case hincrby => rintro rfl; exact hincrby_shape
  case sadd => rintro rfl; exact sadd_shape
  case srem => rintro rfl; exact srem_shape
  case zadd => rintro rfl; exact zadd_shape
  case zrem => rintro rfl; exact zrem_shape
  case zremrangebyscore => rintro rfl; exact zremrangebyscore_shape
  case xadd => rintro rfl; exact xadd_shape
  case xdel => rintro rfl; exact xdel_shape
  case xack => rintro rfl; exact xack_shape
  case xclaim => rintro rfl; exact xclaim_shape
  case lpush => rintro rfl; exact pushAs_shape fun _ => rfl
  case rpush => rintro rfl; exact pushAs_shape fun _ => rfl
  case lpop => rintro rfl; exact popAs_shape
  case rpop => rintro rfl; exact popAs_shape
  case linsert => rintro rfl; exact linsert_shape
  case lrem => rintro rfl; exact lrem_shape
  case lset => rintro rfl; exact lset_shape
  case ltrim => rintro rfl; exact ltrim_shape
  -- the commands that read
  case get => rintro rfl; exact get_shape
  case hget => rintro rfl; exact hget_shape
  case hvals => rintro rfl; exact hvals_shape
  case hgetall => rintro rfl; exact hgetall_shape
  case hexists => rintro rfl; exact hexists_shape
  case smembers => rintro rfl; exact smembers_shape
  case sismember => rintro rfl; exact sismember_shape
  case zrange => rintro rfl; exact zrange_shape
  case zrangebyscore => rintro rfl; exact zrangebyscore_shape
  case zcard => rintro rfl; exact zcard_shape
  case zscore => rintro rfl; exact zscore_shape
  case xlen => rintro rfl; exact xlen_shape
  case xrange => rintro rfl; exact xrangeAs_shape
  case xrevrange => rintro rfl; exact xrangeAs_shape
  case lrange => rintro rfl; exact lrange_shape
  case llen => rintro rfl; exact llen_shape
  case lindex => rintro rfl; exact lindex_shape
  case answer =>
    intro r hr
    have heq : dispatchInner (S := S) e cmd args = fun d => (d, r) := funext hr
    rw [heq]
    exact .reply r
  all_goals
    rintro rfl
    exact absurd (by decide) h

/-- A command is of one of the shapes, or has a body of its own. -/
theorem dispatchInner_elim {motive : (Data S → Data S × Reply) → Prop}
    (shape : cmd ∉ ownBodies → Shape (S := S) e.now (args.take 1) ((type? cmd).getD .string)
      (use cmd) (Rewrites cmd) (dispatchInner e cmd args) → motive (dispatchInner e cmd args))
    (set : cmd = "SET" → motive (set e args))
    (del : cmd = "DEL" → motive (del e args))
    (existsKeys : cmd = "EXISTS" → motive (existsKeys e args))
    (expireAs : ∀ name unit, cmd = "EXPIRE" ∨ cmd = "PEXPIRE" → motive (expireAs name unit e args))
    (xread : cmd = "XREAD" → motive (xread e args))
    (lmove : cmd = "LMOVE" → motive (lmove e args))
    (rpoplpush : cmd = "RPOPLPUSH" → motive (rpoplpush e args)) :
    motive (dispatchInner e cmd args) := by
  by_cases h : cmd ∈ ownBodies
  · simp only [ownBodies, List.mem_cons, List.not_mem_nil, or_false] at h
    rcases h with rfl | rfl | rfl | rfl | rfl | rfl | rfl | rfl
    · exact set rfl
    · exact del rfl
    · exact existsKeys rfl
    · exact expireAs _ _ (.inl rfl)
    · exact expireAs _ _ (.inr rfl)
    · exact xread rfl
    · exact lmove rfl
    · exact rpoplpush rfl
  · exact shape h (dispatchInner_shape h)

end Dispatch

end Script

end BurnerRedis
