import BurnerRedis.Pipeline.Refusals

/-!
# What the two paths of a pipeline do with a command

`Queued.Alike` says of a command, at the client it meets, that both paths do the same with it. For
most commands it asks nothing. The others are those whose arguments the fast path reads more
leniently, not at all or in another order, and EVALSHA, where it makes another exception.

`Agree` is the fact itself, and each command is shown to be treated alike exactly where the two
agree. Here are the commands that read the same arguments in another order, which matters for the
class of what is raised.
-/

open Except

namespace BurnerRedis

namespace Pipeline

/-! ## When a command is treated alike -/

/-- A dollar sign is read before an argument is refused. -/
def meetsDollar {S : Type} : List (PyValue S × PyValue S) → Prop
  | [] => False
  | p :: items =>
    ∃ key id, extractStream p = .ok (key, id) ∧ (id = "$" ∨ meetsDollar items)

/-- XREADGROUP fails on these streams and leaves the data as they are. -/
def FailsIdle {S : Type} [LinearOrder S] (e : Env) (c : Client S) (group consumer : Bytes)
    (streams : List (Bytes × String)) (count : Option ℕ) : Prop :=
  ∃ err, Store.xreadgroup e group consumer (streams.map Prod.fst)
    ((streams.map Prod.snd).map utf8) count c.store.data = (c.store.data, .error err)

/-- Both paths do the same with a command: no argument that the fast path reads leniently, ignores
or reads at another time is refused, unless another argument is refused with the same class at the
place that counts; XREADGROUP meets no dollar sign; the hash of EVALSHA is known; and SETEX has a
time and a value that is sent as it is. -/
@[simp] def Queued.Alike {S : Type} [PyFloat S] (e : Env) (c : Client S) : Queued S → Prop
  | .hset name key value mapping =>
    (extractOption extractDict mapping).Accepts ∨ (extractBytes name).Refuses ∨
      (hsetPair key value).Refuses
  | .hincrby name key amount =>
    (extractI64 amount).Raises .overflowError →
      (extractBytes name).Accepts ∧ (extractBytes key).Accepts
  | .zrangebyscore name min max withscores =>
    (extractBool withscores).Refuses → (extractBytes name).Refuses ∨
      (parseScoreBound min).Accepts ∧ (parseScoreBound max).Accepts
  | .lpop name count | .rpop name count =>
    (extractOption extractI64 count).Raises .overflowError → (extractBytes name).Accepts
  | .xadd name fields id maxlen minid =>
    let options := extractOption extractUsize maxlen *> extractOption extractStr minid
    options.Accepts ∨ (extractDict fields).Refuses ∨ (extractStr id).Refuses ∨
      options.Raises .typeError ∧
        ((extractBytes name).Refuses ∨ (extractDict fields >>= extractStreamFields).Refuses)
  | .xread streams count =>
    (extractDict streams).Refuses ∨ (extractOption extractUsize count).Accepts ∨
      ∃ items r, extractDict streams = .ok items ∧
        (extractOption extractUsize count).Raises r ∧
        readStreams e items c.store.data = (c.store.data, .error r)
  | .xtrim name maxlen minid approximate =>
    let options := extractOption extractUsize maxlen *> extractOption extractStr minid *>
      extractBool approximate
    options.Accepts ∨ options.Raises .typeError ∧ (extractBytes name).Refuses
  | .xrange name min max count =>
    let option := extractOption extractUsize count
    option.Accepts ∨ (extractStr min).Refuses ∨ (extractStr max).Refuses ∨
      option.Raises .typeError ∧ (extractBytes name).Refuses
  | .xreadgroup groupname consumername streams count noack =>
    let options := extractOption extractUsize count *> extractBool noack
    (extractDict streams).Refuses ∨ ∃ items, extractDict streams = .ok items ∧
      ((∃ r, options.Raises r ∧ (extractBytes groupname *> extractBytes consumername *>
          items.mapM extractStream).Raises r) ∨
        options.Accepts ∧ ((extractBytes groupname *> extractBytes consumername).Refuses ∨
          ¬meetsDollar items ∨
          ∃ group consumer pairs n, extractBytes groupname = .ok group ∧
            extractBytes consumername = .ok consumer ∧ items.mapM extractStream = .ok pairs ∧
            extractOption extractUsize count = .ok n ∧ FailsIdle e c group consumer pairs n))
  | .xautoclaim name groupname consumername minIdleTime startId count =>
    let option := extractOption extractUsize count
    (extractU64 minIdleTime).Refuses ∨ option.Accepts ∨ (extractStr startId).Refuses ∨
      option.Raises .typeError ∧
        (extractBytes name *> extractBytes groupname *> extractBytes consumername).Refuses
  | .xclaim name groupname consumername minIdleTime messageIds idle time retrycount force justid =>
    let options := extractOption extractU64 idle *> extractOption extractU64 time *>
      extractOption extractU64 retrycount
    (extractU64 minIdleTime).Refuses ∨ options.Accepts ∨
      ∃ r, options.Raises r ∧
        (extractBytes name *> extractBytes groupname *> extractBytes consumername *>
          extractBool force *> extractBool justid *>
            (extractSequence messageIds >>= extractIds)).Raises r
  | .xpendingRange name groupname min max count consumername idle =>
    let option := extractOption extractU64 idle
    let key := extractBytes name *> extractBytes groupname
    (extractStr min *> extractStr max *> extractUsize count).Refuses ∨
      option.Accepts ∧ (key.Refuses ∨ (extractOption extractBytes consumername).Accepts) ∨
      option.Raises .typeError ∧ key.Refuses
  | .setex name time value =>
    (extractBytes name).Refuses ∨
      (time = .none → (coerceValue value).Refuses) ∧
        ((extractTime time false).Accepts →
          ((coerceValue value).Accepts ↔ (extractBytes value).Accepts))
  | .evalsha sha numkeys keysAndArgs =>
    ∀ p, extractScript sha numkeys keysAndArgs = .ok p → p.1 ∈ c.store.scripts
  | _ => True

section Agreement

variable {S : Type} [PyFloat S] {e : Env} {L : LuaEngine S} {c c' : Client S}

/-! ## One command -/

@[simp] theorem perform_ok (act : Act S) : perform (.ok act) c = act c := rfl

@[simp] theorem perform_error (r : PyErr) :
    perform (.error r : Except PyErr (Act S)) c = (c, .error r) := rfl

/-- A call raises nothing but what the store answers. -/
def Act.Served (act : Act S) : Prop := ∀ c c' r, act c = (c', .error r) → r = .responseError

/-- A method of the store raises what the store answers. -/
theorem Act.onData_served {α : Type} {op : Data S → Data S × Except StoreError α}
    {shape : α → PyValue S} : (Act.onData op shape).Served := by
  intro c c' r h
  have h₂ := congrArg Prod.snd h
  unfold Act.onData at h₂
  dsimp only at h₂
  split at h₂
  · cases h₂
  · cases h₂
    rfl

/-- Whatever call is read, it is served. -/
def Serves (read : Except PyErr (Act S)) : Prop := ∀ act, read = .ok act → act.Served

theorem serves_ok {act : Act S} (h : act.Served) : Serves (.ok act) := by
  intro act' h'
  cases h'
  exact h

/-- What is read first does not matter for what the call raises. -/
theorem serves_bind {α : Type} {x : Except PyErr α} {f : α → Except PyErr (Act S)}
    (h : ∀ a, Serves (f a)) : Serves (x >>= f) := by
  intro act h'
  cases x with
  | error r => cases h'
  | ok a => exact h a act h'

/-- Raising an error of an argument is to have refused an argument so. -/
theorem perform_eq_error_iff {x : Except PyErr (Act S)} {r : PyErr}
    (hx : Serves x) (hr : r ≠ .responseError) :
    perform x c = (c, .error r) ↔ x.Raises r := by
  cases x with
  | error r' =>
    rw [perform_error, raises_error, Prod.mk.injEq, Except.error.injEq]
    exact and_iff_right rfl
  | ok a =>
    rw [perform_ok]
    constructor
    · intro h
      exact absurd (hx a rfl c c r h) hr
    · intro h
      cases h

theorem ne_responseError {r : PyErr} (h : r = .typeError ∨ r = .overflowError) :
    r ≠ .responseError := by
  rcases h with rfl | rfl
  · decide
  · decide

theorem ne_valueError {r : PyErr} (h : r = .typeError ∨ r = .overflowError) : r ≠ .valueError := by
  rcases h with rfl | rfl
  · decide
  · decide

/-- Both paths do the same with a command at this client. -/
def Agree (e : Env) (L : LuaEngine S) (c : Client S) (q : Queued S) : Prop :=
  perform (dispatchPipelineCommand e L q) c = perform (clientMethod e L q) c

/-- Nothing is asked where both paths read the same. -/
theorem agree_of_eq {q : Queued S} (h : dispatchPipelineCommand e L q = clientMethod e L q) :
    Agree e L c q := by
  unfold Agree
  rw [h]

/-! ### Arguments in another order -/

/-- Readings that raise the same can be put in another order. -/
theorem agree_zadd (name mapping nx xx gt lt ch : PyValue S) :
    Agree e L c (.zadd name mapping nx xx gt lt ch) := by
  apply agree_of_eq
  simp only [dispatchPipelineCommand, clientMethod]
  refine bind_congr fun items => ?_
  exact bind_comm (only_extractBytes name) (only_extractFlags nx xx gt lt ch) _

theorem agree_zrange (name start stop withscores : PyValue S) :
    Agree e L c (.zrange name start stop withscores) := by
  apply agree_of_eq
  simp only [dispatchPipelineCommand, clientMethod]
  refine bind_congr fun first => bind_congr fun last => ?_
  exact bind_comm (only_extractBytes name) (only_extractBool withscores) _

theorem agree_xgroupCreate (name groupname id mkstream : PyValue S) :
    Agree e L c (.xgroupCreate name groupname id mkstream) := by
  apply agree_of_eq
  have hname := only_extractBytes name
  have hgroup := only_extractBytes groupname
  simp only [dispatchPipelineCommand, clientMethod]
  rw [bind_comm₂ hname hgroup (only_extractStr id)]
  refine bind_congr fun start => ?_
  exact bind_comm₂ hname hgroup (only_extractBool mkstream) _

theorem agree_linsert (name position : PyValue S) (refvalue value : Encoded) :
    Agree e L c (.linsert name position refvalue value) := by
  apply agree_of_eq
  have hposition := only_extractToken position
  simp only [dispatchPipelineCommand, clientMethod, coerceValue_toPy, ok_bind]
  rw [bind_comm hposition (only_extractBytes name)]
  refine bind_congr fun key => ?_
  rw [bind_comm hposition (only_extractBytes _)]
  refine bind_congr fun pivot => ?_
  exact bind_comm hposition (only_extractBytes _) _

theorem agree_lmove (first second src dest : PyValue S) :
    Agree e L c (.lmove first second src dest) := by
  apply agree_of_eq
  have hsrc := only_extractTokenOr "LEFT" src
  have hdest := only_extractTokenOr "RIGHT" dest
  simp only [dispatchPipelineCommand, clientMethod]
  rw [bind_comm₂ hsrc hdest (only_extractBytes first)]
  refine bind_congr fun srcKey => ?_
  exact bind_comm₂ hsrc hdest (only_extractBytes second) _

theorem mapM_coerceValue (values : List Encoded) :
    (values.map Encoded.toPy : List (PyValue S)).mapM coerceValue = .ok values := by
  induction values with
  | nil => rfl
  | cons v values ih =>
    rw [List.map_cons, List.mapM_cons, ih, coerceValue_toPy]
    rfl

theorem agree_set (name : PyValue S) (value : Encoded) (ex px nx xx : PyValue S) :
    Agree e L c (.set name value ex px nx xx) := by
  apply agree_of_eq
  simp only [dispatchPipelineCommand, clientMethod, coercedSet, originalSet, coerceValue_toPy,
    ok_bind]

theorem agree_lpush (name : PyValue S) (values : List Encoded) :
    Agree e L c (.lpush name values) := by
  apply agree_of_eq
  simp only [dispatchPipelineCommand, clientMethod, mapM_coerceValue, ok_bind]

theorem agree_rpush (name : PyValue S) (values : List Encoded) :
    Agree e L c (.rpush name values) := by
  apply agree_of_eq
  simp only [dispatchPipelineCommand, clientMethod, mapM_coerceValue, ok_bind]

theorem agree_lrem (name count : PyValue S) (value : Encoded) :
    Agree e L c (.lrem name count value) := by
  apply agree_of_eq
  simp only [dispatchPipelineCommand, clientMethod, coerceValue_toPy, ok_bind]

theorem agree_lset (name index : PyValue S) (value : Encoded) :
    Agree e L c (.lset name index value) := by
  apply agree_of_eq
  simp only [dispatchPipelineCommand, clientMethod, coerceValue_toPy, ok_bind]

/-- An amount that overflows is met before the key and the field, or after them. -/
theorem agree_hincrby (name key amount : PyValue S) :
    Agree e L c (.hincrby name key amount) ↔ Queued.Alike e c (.hincrby name key amount) := by
  have hname := only_extractBytes name
  have hkey := only_extractBytes key
  have hamount := numeric_extractI64 amount
  simp only [Agree, dispatchPipelineCommand, clientMethod, Queued.Alike]
  cases ha : extractI64 amount with
  | ok a => simp
  | error r =>
    cases hn : extractBytes name with
    | error r₁ =>
      rw [hn, only_error] at hname
      rcases hamount r ha with rfl | rfl <;> simp [hname]
    | ok n =>
      cases hk : extractBytes key with
      | error r₂ =>
        rw [hk, only_error] at hkey
        rcases hamount r ha with rfl | rfl <;> simp [hkey]
      | ok k => simp

theorem agree_zrangebyscore (name min max withscores : PyValue S) :
    Agree e L c (.zrangebyscore name min max withscores) ↔
      Queued.Alike e c (.zrangebyscore name min max withscores) := by
  have hname := only_extractBytes name
  have hmin := only_parseScoreBound min
  have hmax := only_parseScoreBound max
  have hws := only_extractBool withscores
  simp only [Agree, dispatchPipelineCommand, clientMethod, Queued.Alike]
  cases hw : extractBool withscores with
  | ok w => simp
  | error r =>
    rw [hw, only_error] at hws
    cases hn : extractBytes name with
    | error r₁ =>
      rw [hn, only_error] at hname
      simp [hws, hname]
    | ok n =>
      cases ha : parseScoreBound min with
      | error r₂ =>
        rw [ha, only_error] at hmin
        simp [hws, hmin]
      | ok a =>
        cases hb : parseScoreBound max with
        | error r₃ =>
          rw [hb, only_error] at hmax
          simp [hws, hmax]
        | ok b => simp

theorem agree_pop {act : Bytes → Option ℕ → Act S} (name count : PyValue S) :
    perform (do
        let key ← extractBytes name
        let count ← extractOption extractI64 count
        let count ← checkCount count
        .ok (act key count)) c =
      perform (do
        let count ← extractOption extractI64 count
        let key ← extractBytes name
        let count ← checkCount count
        .ok (act key count)) c ↔
      ((extractOption extractI64 count).Raises .overflowError → (extractBytes name).Accepts) := by
  have hname := only_extractBytes name
  have hcount := numeric_extractOption numeric_extractI64 count
  cases hc : extractOption extractI64 count with
  | ok n => simp
  | error r =>
    cases hn : extractBytes name with
    | error r₁ =>
      rw [hn, only_error] at hname
      rcases hcount r hc with rfl | rfl <;> simp [hname]
    | ok n => simp

end Agreement

end Pipeline

end BurnerRedis
