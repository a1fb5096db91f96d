import BurnerRedis.Panics
import BurnerRedis.Script.Lists
import BurnerRedis.Script.Streams

/-!
# Running a script

`dispatchInner` and `dispatchCommand` are the functions of these names in `scripting.rs`. What Lua
code does between its calls stays outside: a script is the list of the calls it makes, whatever
they are and wherever it stops, and each call reads the clocks anew.

A call that panics leaves the script unless Lua's own `pcall` is around it. `redis.pcall` is no help:
it makes errors of commands into values, not panics. A panic that leaves the script also leaves
EVAL, past the place where the clients are woken (`Ending.wake`).
-/

namespace BurnerRedis.Script

variable {S : Type} [Score S]

/-- `PUBLISH`: the message goes to the broadcast channel, which is not part of the data. -/
def publish : List Bytes → Reply
  | [_, _] => integer 0
  | _ => wrongArity "publish"

/-- `dispatch_command_inner` -/
def dispatchInner (e : Env) (cmd : String) (args : List Bytes) (d : Data S) : Data S × Reply :=
  match cmd with
  | "GET" => get e args d
  | "SET" => set e args d
  | "DEL" => del e args d
  | "EXISTS" => existsKeys e args d
  | "HSET" => hset e args d
  | "HGET" => hget e args d
  | "HDEL" => hdel e args d
  | "HVALS" => hvals e args d
  | "HGETALL" => hgetall e args d
  | "HEXISTS" => hexists e args d
  | "HINCRBY" => hincrby e args d
  | "SADD" => sadd e args d
  | "SMEMBERS" => smembers e args d
  | "SISMEMBER" => sismember e args d
  | "SREM" => srem e args d
  | "ZADD" => zadd e args d
  | "ZREM" => zrem e args d
  | "ZRANGE" => zrange e args d
  | "ZRANGEBYSCORE" => zrangebyscore e args d
  | "ZREMRANGEBYSCORE" => zremrangebyscore e args d
  | "ZCARD" => zcard e args d
  | "ZSCORE" => zscore e args d
  | "EXPIRE" => expire e args d
  | "PEXPIRE" => pexpire e args d
  | "XADD" => xadd e args d
  | "XREAD" => xread e args d
  | "XDEL" => xdel e args d
  | "XACK" => xack e args d
  | "XLEN" => xlen e args d
  | "XRANGE" => xrange e args d
  | "XREVRANGE" => xrevrange e args d
  | "XCLAIM" => xclaim e args d
  | "PUBLISH" => (d, publish args)
  | "LPUSH" => lpush e args d
  | "RPUSH" => rpush e args d
  | "LPOP" => lpop e args d
  | "RPOP" => rpop e args d
  | "LRANGE" => lrange e args d
  | "LLEN" => llen e args d
  | "LINDEX" => lindex e args d
  | "LINSERT" => linsert e args d
  | "LREM" => lrem e args d
  | "LSET" => lset e args d
  | "LTRIM" => ltrim e args d
  | "LMOVE" => lmove e args d
  | "RPOPLPUSH" => rpoplpush e args d
  | "BLPOP" | "BRPOP" | "BLMOVE" =>
    (d, .ok (.error "ERR This Redis command is not allowed from script"))
  | _ => (d, .ok (.error ("ERR unknown command '" ++ cmd ++ "'")))

/-- `dispatch_command_inner` with a clock that ends; no reply where it panics. -/
def dispatchInner? (e : Env) (cmd : String) (args : List Bytes) (d : Data S) :
    Data S × Option Reply :=
  match cmd with
  | "SET" => set? e args d
  | "EXPIRE" => expireAs? "expire" Duration.fromSecs e args d
  | "PEXPIRE" => expireAs? "pexpire" Duration.fromMillis e args d
  | _ => ((dispatchInner e cmd args d).1, some (dispatchInner e cmd args d).2)

/-- `dispatch_command`: the reply, and the clients to wake for it. -/
def dispatchCommand (e : Env) (cmd : String) (args : List Bytes) (d : Data S) :
    Data S × Option (Reply × Wake) :=
  let r := dispatchInner? e cmd args d
  (r.1, r.2.map fun reply => (reply, wakes cmd reply))

/-- One call a script makes: how long after the call before it, with which clock and walk, the
command, and whether the script catches a panic of it. -/
structure Call where
  wait : Duration
  wall : UInt64
  walk : FinMap.WalkOrder
  cmd : String
  args : List Bytes
  caught : Bool

/-- How a script leaves the store: the clock, the data, the clients to wake, which are remembered
over all calls and also when the script fails, and whether a panic has ended it. -/
structure Ending (S : Type) [LinearOrder S] where
  now : Instant
  data : Data S
  flags : Wake
  panicked : Bool

/-- The calls of a script, one after the other. -/
def runScript (now : Instant) : List Call → Data S → Ending S
  | [], d => ⟨now, d, {}, false⟩
  | c :: calls, d =>
    let now := now + c.wait
    let r := dispatchCommand ⟨now, c.wall, c.walk⟩ c.cmd c.args d
    match r.2 with
    | some (_, wake) =>
      let s := runScript now calls r.1
      { s with flags := wake.or s.flags }
    -- a panic that is not caught unwinds out of `execute`
    | none => if c.caught then runScript now calls r.1 else ⟨now, r.1, {}, true⟩

/-- The clients that EVAL and EVALSHA wake: a panic ends them before they wake anyone. -/
def Ending.wake (r : Ending S) : Wake := if r.panicked then {} else r.flags

/-! ## Panics -/

/-- A call that panics has removed nothing but an expired entry. -/
theorem dispatchInner?_spec (e : Env) (cmd : String) (args : List Bytes) (d : Data S) :
    ¬ Overflows e d cmd args ∧
      dispatchInner? e cmd args d =
        ((dispatchInner e cmd args d).1, some (dispatchInner e cmd args d).2) ∨
    Overflows e d cmd args ∧ ∃ key, dispatchInner? e cmd args d = (purge e.now key d, none) := by
  unfold Overflows deadline
  split
  · rcases set?_spec e args d with ⟨hfits, h⟩ | ⟨ht, h⟩
    · exact .inl ⟨fun ⟨t, hd, hn⟩ => hn (hfits t hd), h⟩
    · exact .inr ⟨ht, h⟩
  · rcases expireAs?_spec "expire" Duration.fromSecs e args d with ⟨hfits, h⟩ | ⟨ht, h⟩
    · exact .inl ⟨fun ⟨t, hd, hn⟩ => hn (hfits t hd), h⟩
    · exact .inr ⟨ht, h⟩
  · rcases expireAs?_spec "pexpire" Duration.fromMillis e args d with ⟨hfits, h⟩ | ⟨ht, h⟩
    · exact .inl ⟨fun ⟨t, hd, hn⟩ => hn (hfits t hd), h⟩
    · exact .inr ⟨ht, h⟩
  · refine .inl ⟨by simp, ?_⟩
    unfold dispatchInner?
    split <;> first | rfl | contradiction

theorem dispatchCommand_eq_none_iff {e : Env} {cmd : String} {args : List Bytes} {d : Data S} :
    (dispatchCommand e cmd args d).2 = none ↔ Overflows e d cmd args := by
  unfold dispatchCommand
  rcases dispatchInner?_spec e cmd args d with ⟨hfits, h⟩ | ⟨hover, key, h⟩
  · rw [h]
    exact iff_of_false nofun hfits
  · rw [h]
    exact iff_of_true rfl hover

theorem dispatchCommand_of_overflows {e : Env} {cmd : String} {args : List Bytes} {d : Data S}
    (h : Overflows e d cmd args) : ∃ key, (dispatchCommand e cmd args d).1 = purge e.now key d := by
  unfold dispatchCommand
  rcases dispatchInner?_spec e cmd args d with ⟨hfits, -⟩ | ⟨-, key, hr⟩
  · exact absurd h hfits
  · exact ⟨key, congrArg Prod.fst hr⟩

section Calls

variable {now : Instant} {c : Call} {calls : List Call} {d : Data S}

/-- The environment of a call. -/
def Call.env (now : Instant) (c : Call) : Env := ⟨now + c.wait, c.wall, c.walk⟩

theorem runScript_cons_some {r : Reply} {w : Wake}
    (h : (dispatchCommand (c.env now) c.cmd c.args d).2 = some (r, w)) :
    runScript now (c :: calls) d =
      { runScript (now + c.wait) calls (dispatchCommand (c.env now) c.cmd c.args d).1 with
        flags := w.or (runScript (now + c.wait) calls
          (dispatchCommand (c.env now) c.cmd c.args d).1).flags } := by
  rw [runScript]
  unfold Call.env at h ⊢
  dsimp only
  rw [h]

theorem runScript_cons_none (h : (dispatchCommand (c.env now) c.cmd c.args d).2 = none) :
    runScript now (c :: calls) d =
      if c.caught then
        runScript (now + c.wait) calls (dispatchCommand (c.env now) c.cmd c.args d).1
      else ⟨now + c.wait, (dispatchCommand (c.env now) c.cmd c.args d).1, {}, true⟩ := by
  rw [runScript]
  unfold Call.env at h ⊢
  dsimp only
  rw [h]

/-- Where a panic ends a script: at a call that the script does not catch, with a deadline that the
clock cannot count. -/
theorem runScript_panicked (h : (runScript now calls d).panicked = true) :
    ∃ before c after, calls = before ++ c :: after ∧ c.caught = false ∧
      (runScript now before d).panicked = false ∧
      (runScript now before d).flags = (runScript now calls d).flags ∧
      Overflows (c.env (runScript now before d).now) (runScript now before d).data c.cmd
        c.args ∧
      (runScript now calls d).now = (runScript now before d).now + c.wait ∧
      ∃ key, (runScript now calls d).data =
        purge ((runScript now before d).now + c.wait) key (runScript now before d).data := by
  induction calls generalizing now d with
  | nil => cases h
  | cons c calls ih =>
    cases hr : (dispatchCommand (c.env now) c.cmd c.args d).2 with
    | some r =>
      rw [runScript_cons_some hr] at h ⊢
      obtain ⟨before, c', after, rfl, hc, hp, hflags, hover⟩ := ih h
      refine ⟨c :: before, c', after, rfl, hc, ?_⟩
      rw [runScript_cons_some hr]
      exact ⟨hp, congrArg r.2.or hflags, hover⟩
    | none =>
      have hcons : runScript now (c :: calls) d = _ := runScript_cons_none hr
      cases hcaught : c.caught with
      | true =>
        rw [hcons, if_pos hcaught] at h ⊢
        obtain ⟨before, c', after, rfl, hc, hp, hflags, hover⟩ := ih h
        refine ⟨c :: before, c', after, rfl, hc, ?_⟩
        rw [runScript_cons_none hr, if_pos hcaught]
        exact ⟨hp, hflags, hover⟩
      | false =>
        rw [hcons, if_neg (Bool.eq_false_iff.mp hcaught)]
        exact ⟨[], c, calls, rfl, hcaught, rfl, rfl, dispatchCommand_eq_none_iff.mp hr, rfl,
          dispatchCommand_of_overflows (dispatchCommand_eq_none_iff.mp hr)⟩

end Calls

/-! ## Case analysis -/

/-- The cases of `dispatchInner`: one for each command that works on the data, and the replies given
whatever it is. -/
theorem dispatchInner_cases {motive : Data S × Reply → Prop} {e : Env} {cmd : String}
    {args : List Bytes} {d : Data S}
    (get : cmd = "GET" → motive (get e args d))
    (set : cmd = "SET" → motive (set e args d))
    (del : cmd = "DEL" → motive (del e args d))
    (existsKeys : cmd = "EXISTS" → motive (existsKeys e args d))
    (hset : cmd = "HSET" → motive (hset e args d))
    (hget : cmd = "HGET" → motive (hget e args d))
    (hdel : cmd = "HDEL" → motive (hdel e args d))
    (hvals : cmd = "HVALS" → motive (hvals e args d))
    (hgetall : cmd = "HGETALL" → motive (hgetall e args d))
    (hexists : cmd = "HEXISTS" → motive (hexists e args d))
    (hincrby : cmd = "HINCRBY" → motive (hincrby e args d))
    (sadd : cmd = "SADD" → motive (sadd e args d))
    (smembers : cmd = "SMEMBERS" → motive (smembers e args d))
    (sismember : cmd = "SISMEMBER" → motive (sismember e args d))
    (srem : cmd = "SREM" → motive (srem e args d))
    (zadd : cmd = "ZADD" → motive (zadd e args d))
    (zrem : cmd = "ZREM" → motive (zrem e args d))
    (zrange : cmd = "ZRANGE" → motive (zrange e args d))
    (zrangebyscore : cmd = "ZRANGEBYSCORE" → motive (zrangebyscore e args d))
    (zremrangebyscore : cmd = "ZREMRANGEBYSCORE" → motive (zremrangebyscore e args d))
    (zcard : cmd = "ZCARD" → motive (zcard e args d))
    (zscore : cmd = "ZSCORE" → motive (zscore e args d))
    (expire : cmd = "EXPIRE" → motive (expire e args d))
    (pexpire : cmd = "PEXPIRE" → motive (pexpire e args d))
    (xadd : cmd = "XADD" → motive (xadd e args d))
    (xread : cmd = "XREAD" → motive (xread e args d))
    (xdel : cmd = "XDEL" → motive (xdel e args d))
    (xack : cmd = "XACK" → motive (xack e args d))
    (xlen : cmd = "XLEN" → motive (xlen e args d))
    (xrange : cmd = "XRANGE" → motive (xrange e args d))
    (xrevrange : cmd = "XREVRANGE" → motive (xrevrange e args d))
    (xclaim : cmd = "XCLAIM" → motive (xclaim e args d))
    (lpush : cmd = "LPUSH" → motive (lpush e args d))
    (rpush : cmd = "RPUSH" → motive (rpush e args d))
    (lpop : cmd = "LPOP" → motive (lpop e args d))
    (rpop : cmd = "RPOP" → motive (rpop e args d))
    (lrange : cmd = "LRANGE" → motive (lrange e args d))
    (llen : cmd = "LLEN" → motive (llen e args d))
    (lindex : cmd = "LINDEX" → motive (lindex e args d))
    (linsert : cmd = "LINSERT" → motive (linsert e args d))
    (lrem : cmd = "LREM" → motive (lrem e args d))
    (lset : cmd = "LSET" → motive (lset e args d))
    (ltrim : cmd = "LTRIM" → motive (ltrim e args d))
    (lmove : cmd = "LMOVE" → motive (lmove e args d))
    (rpoplpush : cmd = "RPOPLPUSH" → motive (rpoplpush e args d))
    (answer : ∀ r, (∀ d' : Data S, dispatchInner e cmd args d' = (d', r)) → motive (d, r)) :
    motive (dispatchInner e cmd args d) := by
  unfold dispatchInner
  split
  · exact get rfl
  · exact set rfl
  · exact del rfl
  · exact existsKeys rfl
  · exact hset rfl
  · exact hget rfl
  · exact hdel rfl
  · exact hvals rfl
  · exact hgetall rfl
  · exact hexists rfl
  · exact hincrby rfl
  · exact sadd rfl
  · exact smembers rfl
  · exact sismember rfl
  · exact srem rfl
  · exact zadd rfl
  · exact zrem rfl
  · exact zrange rfl
  · exact zrangebyscore rfl
  · exact zremrangebyscore rfl
  · exact zcard rfl
  · exact zscore rfl
  · exact expire rfl
  · exact pexpire rfl
  · exact xadd rfl
  · exact xread rfl
  · exact xdel rfl
  · exact xack rfl
  · exact xlen rfl
  · exact xrange rfl
  · exact xrevrange rfl
  · exact xclaim rfl
  · exact answer (publish args) fun _ => rfl
  · exact lpush rfl
  · exact rpush rfl
  · exact lpop rfl
  · exact rpop rfl
  · exact lrange rfl
  · exact llen rfl
  · exact lindex rfl
  · exact linsert rfl
  · exact lrem rfl
  · exact lset rfl
  · exact ltrim rfl
  · exact lmove rfl
  · exact rpoplpush rfl
  · exact answer _ fun _ => rfl
  · exact answer _ fun _ => rfl
  · exact answer _ fun _ => rfl
  · refine answer _ fun d' => ?_
    unfold dispatchInner
    split <;> first | rfl | contradiction

end BurnerRedis.Script
