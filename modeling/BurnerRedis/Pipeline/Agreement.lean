import BurnerRedis.Pipeline.LenientArguments

/-!
# Where the two paths of a pipeline agree

The commands that are left are those that read streams, EVALSHA and SETEX. A queue is served alike by
both paths exactly where each of its commands is, at the client that it meets
(`pipeline_paths_agree`).
-/

open Except

namespace BurnerRedis

namespace Pipeline

section Agreement

variable {S : Type} [PyFloat S] {e : Env} {L : LuaEngine S} {c c' : Client S}

/-! ## Streams that are read -/

theorem withData_eq_self {d : Data S} :
    ({ c with store := { c.store with data := d } } : Client S) = c ↔ d = c.store.data := by
  constructor
  · intro h
    have hd := congrArg (fun c : Client S => c.store.data) h
    exact hd
  · intro h
    rw [h]

theorem agree_xread (streams count : PyValue S) :
    Agree e L c (.xread streams count) ↔ Queued.Alike e c (.xread streams count) := by
  have hcount := numeric_extractOption numeric_extractUsize count
  simp only [Agree, dispatchPipelineCommand, clientMethod, Queued.Alike]
  cases hstreams : extractDict streams with
  | error r => simp
  | ok items =>
    cases hc : extractOption extractUsize count with
    | ok n =>
      rw [extractSoft_of_ok hc]
      simp
    | error r =>
      have hr := ne_responseError (hcount r hc)
      have hread : Act.xreadStreams e items (extractSoft extractUsize count) c = (c, .error r) ↔
          readStreams e items c.store.data = (c.store.data, .error r) := by
        unfold Act.xreadStreams
        dsimp only
        cases hread : readStreams e items c.store.data with
        | mk d result =>
          cases result with
          | error r' => simp [withData_eq_self]
          | ok pairs =>
            constructor
            · intro h
              exact absurd (Act.onData_served _ _ _ h) hr
            · intro h
              cases h
      simp [hread]

omit [PyFloat S] in
theorem mapM_extractGroupStream_of_meets {items : List (PyValue S × PyValue S)}
    (h : meetsDollar items) : items.mapM extractGroupStream = .error .responseError := by
  induction items with
  | nil => exact h.elim
  | cons p items ih =>
    obtain ⟨key, id, hp, hid⟩ := h
    rw [List.mapM_cons, extractGroupStream, hp, ok_bind]
    dsimp only
    split_ifs with hd
    · rfl
    · rw [ok_bind, ih (hid.resolve_left hd)]
      rfl

omit [PyFloat S] in
theorem mapM_extractGroupStream_of_not_meets {items : List (PyValue S × PyValue S)}
    (h : ¬meetsDollar items) : items.mapM extractGroupStream = items.mapM extractStream := by
  induction items with
  | nil => rfl
  | cons p items ih =>
    rw [List.mapM_cons, List.mapM_cons, extractGroupStream]
    cases hp : extractStream p with
    | error r => rfl
    | ok stream =>
      have hrest : ¬(stream.2 = "$" ∨ meetsDollar items) := by
        intro hm
        exact h ⟨stream.1, stream.2, hp, hm⟩
      obtain ⟨hd, hm⟩ := not_or.mp hrest
      rw [ok_bind, if_neg hd, ih hm]

theorem onData_eq_responseError {α : Type} {op : Data S → Data S × Except StoreError α}
    {shape : α → PyValue S} : Act.onData op shape c = (c, .error .responseError) ↔
      ∃ err, op c.store.data = (c.store.data, .error err) := by
  unfold Act.onData
  dsimp only
  cases hop : op c.store.data with
  | mk d result =>
    cases result with
    | ok a => simp
    | error err => simp [withData_eq_self]

theorem agree_xreadgroup (groupname consumername streams count noack : PyValue S) :
    Agree e L c (.xreadgroup groupname consumername streams count noack) ↔
      Queued.Alike e c (.xreadgroup groupname consumername streams count noack) := by
  have hcount := numeric_extractOption numeric_extractUsize count
  have hnoack := only_extractBool noack
  simp only [Agree, dispatchPipelineCommand, clientMethod, Queued.Alike]
  cases hstreams : extractDict streams with
  | error r => simp
  | ok items =>
    -- with an option refused, the fast path has to raise the same class by itself
    have hrefused (r : PyErr) (hr : r = .typeError ∨ r = .overflowError) :
        perform (do
          let group ← extractBytes groupname
          let consumer ← extractBytes consumername
          let streams ← items.mapM extractStream
          .ok (Act.xreadgroup e group consumer (streams.map Prod.fst) (streams.map Prod.snd)
            (extractSoft extractUsize count))) c = (c, .error r) ↔
          (extractBytes groupname *> extractBytes consumername *>
            items.mapM extractStream).Raises r := by
      rw [perform_eq_error_iff ?_ (ne_responseError hr)]
      · rw [seqRight_assoc]
        refine raises_bind_iff fun _ => raises_bind_iff fun _ => ?_
        cases items.mapM extractStream with
        | error r' => simp
        | ok pairs => simp
      · exact serves_bind fun _ => serves_bind fun _ => serves_bind fun _ =>
          serves_ok Act.onData_served
    cases hc : extractOption extractUsize count with
    | error r =>
      simp only [ok_bind, error_bind, perform_error]
      rw [hrefused r (hcount r hc)]
      simp
    | ok n =>
      cases ha : extractBool noack with
      | error r =>
        rw [ha, only_error] at hnoack
        simp only [ok_bind, error_bind, perform_error]
        rw [hnoack, hrefused _ (.inl rfl)]
        simp
      | ok a =>
        rw [extractSoft_of_ok hc]
        cases hg : extractBytes groupname with
        | error r => simp
        | ok group =>
          cases hk : extractBytes consumername with
          | error r => simp
          | ok consumer =>
            simp only [ok_bind]
            by_cases hm : meetsDollar items
            · rw [mapM_extractGroupStream_of_meets hm, error_bind, perform_error]
              cases hp : items.mapM extractStream with
              | error r =>
                have hr := ne_responseError (numeric_mapM numeric_extractStream items r hp)
                simp [hr, hm, hp]
              | ok pairs =>
                simp [hm, hp, FailsIdle, onData_eq_responseError, Act.xreadgroup]
            · rw [mapM_extractGroupStream_of_not_meets hm]
              simp [hm]

/-! ## EVALSHA and SETEX -/

/-- An error of a script that is known becomes the same exception on both paths. -/
theorem script_evalshaError (text : String) (keys args : List Bytes) :
    Act.script e L text keys args evalshaError c =
      Act.script e L text keys args (fun _ => .responseError) c := by
  unfold Act.script
  dsimp only
  cases hresult : (L.execute e text keys args c.store.data).2.2 with
  | ok v => rfl
  | error message =>
    have htext := L.error_text e text keys args c.store.data message hresult
    simp [evalshaError, htext]

theorem agree_evalsha (sha numkeys : PyValue S) (keysAndArgs : List (PyValue S)) :
    Agree e L c (.evalsha sha numkeys keysAndArgs) ↔
      Queued.Alike e c (.evalsha sha numkeys keysAndArgs) := by
  simp only [Agree, dispatchPipelineCommand, clientMethod, Queued.Alike]
  cases hp : extractScript sha numkeys keysAndArgs with
  | error r => simp
  | ok p =>
    obtain ⟨name, keys, args⟩ := p
    simp only [ok_bind, perform_ok, Act.evalsha]
    cases hs : c.store.scripts[name]? with
    | some text =>
      have hmem : name ∈ c.store.scripts := FinMap.mem_iff_getElem?.mpr ⟨text, hs⟩
      simp [script_evalshaError, hmem]
    | none =>
      have hmem : name ∉ c.store.scripts := FinMap.not_mem_iff_getElem?.mpr hs
      have hne : evalshaError "NOSCRIPT No matching script. Use EVAL." = .noScriptError := by decide
      simp [hne, hmem]

omit [PyFloat S] in
theorem mapM_extractU8 (b : Bytes) :
    (b.map fun c => (.int c.toNat : PyValue S)).mapM extractU8 = .ok b := by
  induction b with
  | nil => rfl
  | cons c b ih =>
    have hc : extractU8 (.int c.toNat : PyValue S) = .ok c := by
      have hlt := c.toNat_lt
      unfold extractU8 asInt
      rw [ok_bind, if_pos ⟨by omega, by omega⟩]
      simp
    rw [List.map_cons, List.mapM_cons, hc, ih]
    rfl

omit [PyFloat S] in
theorem accepts_extractBytes_toPy (v : Encoded) : (extractBytes (v.toPy : PyValue S)).Accepts := by
  cases v with
  | str s => exact ⟨utf8 s, rfl⟩
  | bytes b =>
    have hb : extractVecU8 (.bytes b : PyValue S) = .ok b := mapM_extractU8 b
    refine ⟨b, ?_⟩
    unfold extractBytes
    rw [show (Encoded.bytes b).toPy = (.bytes b : PyValue S) from rfl, hb]
    rfl

/-- A value that can be sent and read as bytes is sent as it is. -/
theorem toPy_of_coerceValue {v : PyValue S} {w : Encoded} (hw : coerceValue v = .ok w)
    (hv : (extractBytes v).Accepts) : w.toPy = v := by
  cases v with
  | bytes b =>
    cases hw
    rfl
  | str s =>
    cases hw
    rfl
  | int n => exact absurd hv (by simp [extractBytes, extractStr, extractVecU8, extractSequence])
  | float x => exact absurd hv (by simp [extractBytes, extractStr, extractVecU8, extractSequence])
  | _ => cases hw

theorem only_coerceValue (v : PyValue S) : (coerceValue v).Only .typeError := by
  cases v <;> simp [coerceValue]

theorem set_ne_error (key value : Bytes) (ttl : Option Duration) (nx xx : Bool) (r : PyErr) :
    Act.set e key value ttl nx xx c ≠ (c', .error r) := by
  intro h
  have h₂ := congrArg Prod.snd h
  cases h₂

omit [PyFloat S] in
/-- The expiry of SET with `ex` alone. -/
theorem extractTtl_none {time : PyValue S} (h : time ≠ .none) :
    extractTtl time .none = (extractTime time false).map some := by
  have hpx : extractOption (extractTime · true) (.none : PyValue S) = .ok none := rfl
  unfold extractTtl
  rw [hpx, ok_bind]
  dsimp only
  unfold extractOption
  split
  · exact absurd rfl h
  · rfl

theorem agree_setex (name time value : PyValue S) :
    Agree e L c (.setex name time value) ↔ Queued.Alike e c (.setex name time value) := by
  have hname := only_extractBytes name
  have hbytes := only_extractBytes value
  have htime := only_extractTime time false
  have hcoerce := only_coerceValue value
  have hfalse : extractBool (.bool false : PyValue S) = .ok false := rfl
  simp only [Agree, dispatchPipelineCommand, clientMethod, Queued.Alike, coercedSetex, coercedSet,
    originalSet, coerceValue_toPy, hfalse, ok_bind]
  cases hn : extractBytes name with
  | error r =>
    rw [hn, only_error] at hname
    cases hw : coerceValue value with
    | error r₁ =>
      rw [hw, only_error] at hcoerce
      simp [hname, hcoerce]
    | ok w => simp [hname]
  | ok key =>
    cases hw : coerceValue value with
    | error r₁ =>
      rw [hw, only_error] at hcoerce
      cases hb : extractBytes value with
      | error r₂ =>
        rw [hb, only_error] at hbytes
        simp [hcoerce, hbytes]
      | ok val =>
        cases ht : extractTime time false with
        | error r₃ =>
          rw [ht, only_error] at htime
          simp [hcoerce, htime]
        | ok d => simp [set_ne_error]
    | ok w =>
      obtain ⟨val, hval⟩ := accepts_extractBytes_toPy (S := S) w
      by_cases hnone : time = .none
      · subst hnone
        have hrefused : extractTime (.none : PyValue S) false = .error .typeError := rfl
        have httl : extractTtl (.none : PyValue S) .none = .ok none := rfl
        cases hb : extractBytes value with
        | error r₂ => simp [hval, httl, (set_ne_error _ _ _ _ _ _).symm]
        | ok val' => simp [hval, httl, hrefused, (set_ne_error _ _ _ _ _ _).symm]
      · rw [extractTtl_none hnone]
        cases ht : extractTime time false with
        | error r₃ =>
          rw [ht, only_error] at htime
          cases hb : extractBytes value with
          | error r₂ =>
            rw [hb, only_error] at hbytes
            simp [hval, htime, hbytes, hnone, Except.map]
          | ok val' => simp [hval, hnone, Except.map]
        | ok d =>
          cases hb : extractBytes value with
          | error r₂ => simp [hval, Except.map, (set_ne_error _ _ _ _ _ _).symm]
          | ok val' =>
            have hsame : extractBytes (w.toPy : PyValue S) = .ok val' := by
              rw [toPy_of_coerceValue hw ⟨val', hb⟩, hb]
            simp [hsame, hnone, Except.map]

/-! ## All commands -/

/-- One command is treated alike exactly where `Queued.Alike` says so. -/
theorem agree_iff {q : Queued S} : Agree e L c q ↔ q.Alike e c := by
  cases q with
  | hset => exact agree_hset ..
  | hincrby => exact agree_hincrby ..
  | zrangebyscore => exact agree_zrangebyscore ..
  | lpop => exact agree_pop ..
  | rpop => exact agree_pop ..
  | xadd => exact agree_xadd ..
  | xread => exact agree_xread ..
  | xtrim => exact agree_xtrim ..
  | xrange => exact agree_xrange ..
  | xreadgroup => exact agree_xreadgroup ..
  | xautoclaim => exact agree_xautoclaim ..
  | xclaim => exact agree_xclaim ..
  | xpendingRange => exact agree_xpendingRange ..
  | setex => exact agree_setex ..
  | evalsha => exact agree_evalsha ..
  | set => exact iff_of_true (agree_set ..) trivial
  | zadd => exact iff_of_true (agree_zadd ..) trivial
  | zrange => exact iff_of_true (agree_zrange ..) trivial
  | xgroupCreate => exact iff_of_true (agree_xgroupCreate ..) trivial
  | linsert => exact iff_of_true (agree_linsert ..) trivial
  | lmove => exact iff_of_true (agree_lmove ..) trivial
  | lpush => exact iff_of_true (agree_lpush ..) trivial
  | rpush => exact iff_of_true (agree_rpush ..) trivial
  | lrem => exact iff_of_true (agree_lrem ..) trivial
  | lset => exact iff_of_true (agree_lset ..) trivial
  | _ => exact iff_of_true rfl trivial

/-! ## The queue -/

/-- Two readings of a queue agree on it and on each of its prefixes exactly where they agree on each
command at the client that it meets. -/
theorem runQueue_take_eq_iff (f g : Queued S → Except PyErr (Act S)) (queue : List (Queued S)) :
    (∀ n, runQueue f (queue.take n) c = runQueue g (queue.take n) c) ↔
      ∀ n q, queue[n]? = some q →
        perform (f q) (runQueue f (queue.take n) c).1 =
          perform (g q) (runQueue f (queue.take n) c).1 := by
  induction queue generalizing c with
  | nil =>
    constructor
    · intro _ n q h
      cases h
    · intro _ n
      rw [List.take_nil]
      rfl
  | cons q queue ih =>
    constructor
    · intro h
      have hq : perform (f q) c = perform (g q) c := by
        have h₁ := h 1
        simp only [List.take_succ_cons, List.take_zero, runQueue, Prod.mk.injEq, List.cons.injEq,
          and_true] at h₁
        exact Prod.ext h₁.1 h₁.2
      have hrest := (ih (c := (perform (f q) c).1)).mp fun n => by
        have hn := h (n + 1)
        simp only [List.take_succ_cons, runQueue, Prod.mk.injEq, List.cons.injEq] at hn
        rw [← hq] at hn
        exact Prod.ext hn.1 hn.2.2
      intro n q' hn
      cases n with
      | zero =>
        cases hn
        exact hq
      | succ n => exact hrest n q' hn
    · intro h n
      have hq : perform (f q) c = perform (g q) c := h 0 q rfl
      have hrest := (ih (c := (perform (f q) c).1)).mpr fun n q' hn => h (n + 1) q' hn
      cases n with
      | zero => rfl
      | succ n =>
        simp only [List.take_succ_cons, runQueue]
        rw [← hq, hrest n]

/-- The fast path gives on a queue and on each of its prefixes the answers, the exceptions and the
store of the slow path exactly where each command is treated alike at the client that it meets. -/
theorem pipeline_paths_agree (e : Env) (L : LuaEngine S) (queue : List (Queued S)) (c : Client S) :
    (∀ n, executePipeline e L (queue.take n) c = executeSlowly e L (queue.take n) c) ↔
      ∀ (n : ℕ) (q : Queued S), queue[n]? = some q →
        q.Alike e (executePipeline e L (queue.take n) c).1 := by
  unfold executePipeline executeSlowly
  rw [runQueue_take_eq_iff]
  constructor
  · intro h n q hq
    exact agree_iff.mp (h n q hq)
  · intro h n q hq
    exact agree_iff.mpr (h n q hq)

/-- EVALSHA with a hash that the cache does not have raises `ResponseError` on the fast path,
`NoScriptError` on the slow one. -/
theorem evalsha_paths_differ :
    ¬∀ (e : Env) (L : LuaEngine ℤ) (queue : List (Queued ℤ)) (c : Client ℤ),
      executePipeline e L queue c = executeSlowly e L queue c := by
  intro h
  let engine : LuaEngine ℤ :=
    ⟨id, fun _ _ _ _ d => (d, [], .ok .nil), by intro _ _ _ _ _ _ h'; cases h'⟩
  let start : Client ℤ := ⟨⟨∅, ∅⟩, .new, []⟩
  have hrun := h ⟨0, 0, .byKey⟩ engine [.evalsha (.str "0") (.int 0) []] start
  have hread : extractScript (.str "0" : PyValue ℤ) (.int 0) [] = .ok ("0", [], []) := rfl
  have hmissing : start.store.scripts["0"]? = none := Std.ExtTreeMap.getElem?_empty
  have hfast : (executePipeline ⟨0, 0, .byKey⟩ engine [.evalsha (.str "0") (.int 0) []] start).2 =
      [.error .responseError] := by
    simp [executePipeline, runQueue, hread, Act.evalsha, hmissing]
  have hslow : (executeSlowly ⟨0, 0, .byKey⟩ engine [.evalsha (.str "0") (.int 0) []] start).2 =
      [.error .noScriptError] := by
    have hne : evalshaError "NOSCRIPT No matching script. Use EVAL." = .noScriptError := by decide
    simp [executeSlowly, runQueue, hread, Act.evalsha, hmissing, hne]
  rw [hrun, hslow] at hfast
  cases hfast

end Agreement

end Pipeline

end BurnerRedis
