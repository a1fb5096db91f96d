import BurnerRedis.Lib.Deadline
import BurnerRedis.Lib.F64
import BurnerRedis.GroupWakeups

/-!
# Blocking calls wait for their timeout

The loops of blocking XREAD, XREADGROUP, BLPOP, BRPOP and BLMOVE are the loop of `Deadline`, each
with a poll and a deadline of its own. Streams take their timeout in milliseconds, lists in seconds
(`timeoutToMs`); for all of them zero should mean no deadline. XREADGROUP misses that case.
-/

open Relation (ReflTransGen)

namespace BurnerRedis

/-- What a call raises before it polls. -/
inductive CallError where
  | value (message : String)
  | response (message : String)

/-- `timeout_to_ms` -/
def timeoutToMs : Option F64 → Except CallError ℕ
  | none => .ok 0
  | some t =>
    if t.isNegative then .error (.value "timeout must be a non-negative number")
    else if t.isZero then .ok 0
    else .ok (max (t.mulNat 1000).ceil.toU64 1)

/-- A blocking call. The start ids of XREAD have been read and resolved. -/
inductive BlockingCall where
  | xread (keys : List Bytes) (ids : List StreamId) (count : Option ℕ) (block : UInt64)
  | xreadgroup (group consumer : Bytes) (keys ids : List Bytes) (count : Option ℕ) (block : UInt64)
  | blpop (keys : List Bytes) (timeout : Option F64)
  | brpop (keys : List Bytes) (timeout : Option F64)
  | blmove (src dst : Bytes) (timeout : F64) (srcFrom dstTo : ListEnd)

/-- What a blocking call finds. -/
inductive BlockingAnswer where
  | entries (r : ReadReply)
  | popped (key value : Bytes)
  | moved (value : Bytes)

namespace BlockingCall

/-- The check of the key list of BLPOP and BRPOP. -/
def checkKeys (command : String) (keys : List Bytes) (ms : Except CallError ℕ) :
    Except CallError ℕ :=
  if keys.isEmpty then
    .error (.response ("ERR wrong number of arguments for '" ++ command ++ "' command"))
  else ms

/-- `block_ms`, unless the arguments are refused. -/
def blockMs : BlockingCall → Except CallError ℕ
  | xread _ _ _ block => .ok block.toNat
  | xreadgroup _ _ _ ids _ block =>
    if ascii "$" ∈ ids then
      .error (.response "ERR the $ ID meaning is only valid within XREAD")
    else .ok block.toNat
  | blpop keys timeout => checkKeys "blpop" keys (timeoutToMs timeout)
  | brpop keys timeout => checkKeys "brpop" keys (timeoutToMs timeout)
  | blmove _ _ timeout _ _ => timeoutToMs (some timeout)

/-- The deadline, fixed when the clock shows `now`. -/
def deadline (ms : ℕ) (now : Instant) : BlockingCall → Option Instant
  | xreadgroup .. => some (now + Duration.fromMillis ms)
  | _ => if ms = 0 then none else some (now + Duration.fromMillis ms)

variable {S : Type} [LinearOrder S]

/-- A read that returns no entries has found nothing. -/
def readAnswer : Except StoreError ReadReply → Except StoreError (Option BlockingAnswer)
  | .ok [] => .ok none
  | .ok r => .ok (some (.entries r))
  | .error e => .error e

/-- One poll. -/
def poll (e : Env) (d : Data S) : BlockingCall → Data S × Except StoreError (Option BlockingAnswer)
  | xread keys ids count _ =>
    let r := Store.xread e keys ids count d
    (r.1, readAnswer r.2)
  | xreadgroup group consumer keys ids count _ =>
    let r := Store.xreadgroup e group consumer keys ids count d
    (r.1, readAnswer r.2)
  | blpop keys _ =>
    let r := Store.blpopPoll e keys d
    (r.1, r.2.map (Option.map fun p => .popped p.1 p.2))
  | brpop keys _ =>
    let r := Store.brpopPoll e keys d
    (r.1, r.2.map (Option.map fun p => .popped p.1 p.2))
  | blmove src dst _ srcFrom dstTo =>
    let r := Store.lmoveAtomic e src dst srcFrom dstTo d
    (r.1, r.2.1.map (Option.map .moved))

/-- The number of milliseconds of a timeout that is finite and not zero. Seconds are multiplied by
1000 as the code does it. -/
def millisOf : Option F64 → Option ℚ
  | some (.finite q) => if q = 0 then none else match (F64.finite q).mulNat 1000 with
    | .finite m => some m
    | _ => none
  | _ => none

/-- How many milliseconds a call should wait: nothing where the timeout is zero, missing or not
finite. -/
def millis : BlockingCall → Option ℚ
  | xread _ _ _ block => if block = 0 then none else some block.toNat
  | xreadgroup _ _ _ _ _ block => if block = 0 then none else some block.toNat
  | blpop _ timeout => millisOf timeout
  | brpop _ timeout => millisOf timeout
  | blmove _ _ timeout _ _ => millisOf (some timeout)

/-- A timeout in seconds whose milliseconds fit in 64 bits. -/
def Fits (timeout : Option F64) : Prop :=
  ∀ t, timeout = some t → ∃ m, t.mulNat 1000 = .finite m ∧ m ≤ 2 ^ 64 - 1

/-- The timeouts that are waited for: XREADGROUP with zero is left out, and so are numbers of
seconds that are not a number or too large. -/
def Waits : BlockingCall → Prop
  | xread .. => True
  | xreadgroup _ _ _ _ _ block => block ≠ 0
  | blpop _ timeout => Fits timeout
  | brpop _ timeout => Fits timeout
  | blmove _ _ timeout _ _ => Fits (some timeout)

end BlockingCall

/-! ## Timeouts -/

section Timeouts

open BlockingCall

variable {timeout : Option F64} {ms : ℕ}

/-- A timeout in seconds that is not taken for no deadline is waited for in full. -/
theorem timeoutToMs_le (h : timeoutToMs timeout = .ok ms) (hf : Fits timeout) (hne : ms ≠ 0) :
    ∃ m, millisOf timeout = some m ∧ m ≤ ms := by
  cases timeout with
  | none =>
    cases h
    exact absurd rfl hne
  | some t =>
    obtain ⟨m, hm, hle⟩ := hf t rfl
    cases t with
    | nan => cases hm
    | infinite negative => cases hm
    | finite q =>
      unfold timeoutToMs at h
      dsimp only at h
      split_ifs at h with hneg hzero
      · cases h
        exact absurd rfl hne
      · have hq : q ≠ 0 := by simpa [F64.isZero] using hzero
        refine ⟨m, by simp only [millisOf, if_neg hq, hm], ?_⟩
        rw [hm] at h
        have hms : ms = max (F64.finite m).ceil.toU64 1 := (Except.ok.inj h).symm
        calc m ≤ ((F64.finite m).ceil.toU64 : ℚ) := F64.le_toU64_ceil hle
          _ ≤ ms := by rw [hms]; exact_mod_cast le_max_left _ _

theorem checkKeys_ok {command : String} {keys : List Bytes} {r : Except CallError ℕ}
    (h : checkKeys command keys r = .ok ms) : r = .ok ms := by
  unfold checkKeys at h
  split_ifs at h
  exact h

/-- A stream's timeout in milliseconds. -/
theorem block_le {block : UInt64} (h : block.toNat ≠ 0) :
    ∃ m, (if block = 0 then none else some (block.toNat : ℚ)) = some m ∧ m ≤ block.toNat := by
  have hne : block ≠ 0 := by
    intro hb
    exact h (by rw [hb]; rfl)
  exact ⟨_, if_neg hne, le_refl _⟩

/-- Where a call fixes a deadline, it has a timeout, and the deadline is that much later. -/
theorem BlockingCall.deadline_spec {call : BlockingCall} (h : call.blockMs = .ok ms)
    (hw : call.Waits) {t d : Instant} (hd : call.deadline ms t = some d) :
    d = t + Duration.fromMillis ms ∧ ∃ m, call.millis = some m ∧ m ≤ ms := by
  have dated (hd : (if ms = 0 then none else some (t + Duration.fromMillis ms)) = some d) :
      ms ≠ 0 ∧ d = t + Duration.fromMillis ms := by
    split_ifs at hd with hz
    exact ⟨hz, (Option.some.inj hd).symm⟩
  cases call with
  | xread keys ids count block =>
    obtain ⟨hne, hd⟩ := dated hd
    obtain rfl : block.toNat = ms := Except.ok.inj h
    exact ⟨hd, block_le hne⟩
  | xreadgroup group consumer keys ids count block =>
    refine ⟨(Option.some.inj hd).symm, ?_⟩
    unfold blockMs at h
    dsimp only at h
    split_ifs at h
    obtain rfl : block.toNat = ms := Except.ok.inj h
    refine block_le fun hz => hw ?_
    exact UInt64.toNat_inj.mp hz
  | blpop keys timeout =>
    obtain ⟨hne, hd⟩ := dated hd
    exact ⟨hd, timeoutToMs_le (checkKeys_ok h) hw hne⟩
  | brpop keys timeout =>
    obtain ⟨hne, hd⟩ := dated hd
    exact ⟨hd, timeoutToMs_le (checkKeys_ok h) hw hne⟩
  | blmove src dst timeout srcFrom dstTo =>
    obtain ⟨hne, hd⟩ := dated hd
    exact ⟨hd, timeoutToMs_le h hw hne⟩

end Timeouts

/-! ## Runs -/

section Runs

variable {S : Type} [Score S] {sha1 : String → String}

/-- A blocking call among any other parties, whose own polls are actions like any other. A party
that notifies may wake the call at any time. -/
def BlockingCall.rules (call : BlockingCall) (sha1 : String → String) (ms : ℕ) :
    Deadline.Rules (World S) StoreError BlockingAnswer where
  now w := w.now
  stopped w := w.shutdown = true
  write w w' := ∃ ev : Event S, w' = (ev.run sha1 w).1
  poll w w' r := ∃ wall walk,
    w' = { w with store := ⟨(call.poll ⟨w.now, wall, walk⟩ w.store.data).1, w.store.scripts⟩ } ∧
      r = (call.poll ⟨w.now, wall, walk⟩ w.store.data).2
  deadline now := call.deadline ms now
  slice := Duration.fromSecs 3600

omit [Score S] in
theorem Moves.now_le [LinearOrder S] {p : Set Effect} {m m' : Instant × Data S}
    (mv : Moves p m m') : m.1 ≤ m'.1 := by
  induction mv with
  | refl => exact le_refl _
  | tail _ st ih =>
    cases st with
    | wait now d t => exact ih.trans (Int.le_add_of_nonneg_right (Int.natCast_nonneg t))
    | edit now d d' hd => exact ih

/-- A stop is not taken back. -/
theorem Event.run_stopped {w : World S} (ev : Event S) (h : w.shutdown = true) :
    (ev.run sha1 w).1.shutdown = true := by
  cases ev with
  | time t => exact h
  | act a => exact h
  | shutdown => rfl

theorem BlockingCall.rules_sound (call : BlockingCall) (sha1 : String → String) (ms : ℕ) :
    (call.rules sha1 ms : Deadline.Rules (World S) StoreError BlockingAnswer).Sound where
  write_now := by
    rintro w _ ⟨ev, rfl⟩
    exact (ev.run_moves sha1 w).now_le
  write_stopped := by
    rintro w _ ⟨ev, rfl⟩ hs
    exact ev.run_stopped hs
  poll_now := by
    rintro w _ r ⟨wall, walk, rfl, -⟩
    exact le_refl _
  poll_stopped := by
    rintro w _ r ⟨wall, walk, rfl, -⟩ hs
    exact hs

/-- In any run of a blocking call that waits for its timeout, among any other parties, the call ends
with nothing only after a shutdown, or when its timeout is finite and not zero and that many
milliseconds have passed since it began. -/
theorem blocking_never_early {call : BlockingCall} {ms : ℕ} (hms : call.blockMs = .ok ms)
    (hw : call.Waits) {w : World S} {s : Deadline.Sys (World S) StoreError BlockingAnswer}
    (h : Deadline.Reaches (call.rules sha1 ms) w s) (he : s.phase = .done (.ok none)) :
    s.world.shutdown = true ∨
      ∃ m, call.millis = some m ∧ m * 1000000 ≤ ((s.world.now - w.now : ℤ) : ℚ) := by
  rcases h.not_early (call.rules_sound sha1 ms) he with hs | ⟨t, d, ht, hd, hle⟩
  · exact .inl hs
  · right
    obtain ⟨rfl, m, hm, hmle⟩ := BlockingCall.deadline_spec hms hw hd
    refine ⟨m, hm, ?_⟩
    have hpassed : (ms * 1000000 : ℤ) ≤ s.world.now - w.now := by
      have hle : t + ((ms * 1000000 : ℕ) : ℤ) ≤ s.world.now := hle
      have ht : w.now ≤ t := ht
      push_cast at hle
      linarith
    calc m * 1000000 ≤ (ms : ℚ) * 1000000 := by gcongr
      _ ≤ ((s.world.now - w.now : ℤ) : ℚ) := by exact_mod_cast hpassed

/-- XREADGROUP with a timeout of zero never waits. -/
theorem xreadgroup_zero_never_waits {group consumer : Bytes} {keys ids : List Bytes}
    {count : Option ℕ} {w : World S} {s : Deadline.Sys (World S) StoreError BlockingAnswer}
    (h : Deadline.Reaches ((BlockingCall.xreadgroup group consumer keys ids count 0).rules sha1 0)
      w s) {dl : Option ℤ} {till : ℤ} : s.phase ≠ .waiting dl till := by
  refine h.not_waiting (BlockingCall.rules_sound _ sha1 0) fun t => ?_
  exact ⟨t + Duration.fromMillis 0, rfl, by simp [Duration.fromMillis]⟩

end Runs

/-! ### A read that waits and one that does not -/

/-- A read of an empty store with five milliseconds. -/
def quietRead : BlockingCall := .xread [ascii "s"] [.zero] none 5

def quietWorld (now : Instant) : World ℤ := ⟨now, ⟨∅, ∅⟩, false⟩

theorem quietRead_not_early :
    ∃ s : Deadline.Sys (World ℤ) StoreError BlockingAnswer,
      Deadline.Reaches (quietRead.rules id 5) (quietWorld 0) s ∧ s.phase = .done (.ok none) ∧
        (s.world.shutdown = true ∨
          ∃ m, quietRead.millis = some m ∧ m * 1000000 ≤ ((s.world.now - 0 : ℤ) : ℚ)) := by
  have hrun : Deadline.Reaches (quietRead.rules id 5) (quietWorld 0)
      ⟨quietWorld 5000000, .done (.ok none)⟩ := by
    refine .tail (.tail (.tail (.tail (.tail (.single (.first (r := .ok none)
      ⟨0, .byKey, rfl, ?_⟩)) .fix) (.goOn Bool.false_ne_true)) (.wait (d := 5000000) ?_))
        (.write ⟨.time 5000000, rfl⟩)) (.expire ?_)
    · rfl
    · decide
    · exact le_refl _
  have hms : quietRead.blockMs = .ok 5 := rfl
  have hw : quietRead.Waits := trivial
  exact ⟨_, hrun, rfl, blocking_never_early hms hw hrun rfl⟩

/-- A client that reads from its group with a timeout of zero. -/
def zeroRead : BlockingCall :=
  .xreadgroup (ascii "g") (ascii "c") [ascii "s"] [ascii ">"] none 0

/-- It returns nothing, at the time it was called. -/
theorem zeroRead_early :
    zeroRead.blockMs = .ok 0 ∧
      ¬ ∀ s : Deadline.Sys (World ℤ) StoreError BlockingAnswer,
        Deadline.Reaches (zeroRead.rules id 0) groupAtEnd s → s.phase = .done (.ok none) →
          s.world.shutdown = true ∨
            ∃ m, zeroRead.millis = some m ∧
              m * 1000000 ≤ ((s.world.now - groupAtEnd.now : ℤ) : ℚ) := by
  have hpoll : (groupReader.read ⟨0, 0, .byKey⟩ groupAtEnd.store.data).2 = .ok [] :=
    eq_ok_of_toOption (by decide +kernel)
  have hfound : (zeroRead.poll ⟨0, 0, .byKey⟩ groupAtEnd.store.data).2 = .ok none := by
    show BlockingCall.readAnswer (groupReader.read ⟨0, 0, .byKey⟩ groupAtEnd.store.data).2 = _
    rw [hpoll]
    rfl
  have hrun : Deadline.Reaches (zeroRead.rules id 0) groupAtEnd
      ⟨groupPolled groupAtEnd, .done (.ok none)⟩ := by
    refine .tail (.tail (.tail (.single (.first (r := .ok none) ⟨0, .byKey, rfl, hfound.symm⟩))
      .fix) (.goOn Bool.false_ne_true)) (.late (d := 0) ?_)
    exact le_refl _
  have hms : zeroRead.blockMs = .ok 0 := by
    unfold zeroRead BlockingCall.blockMs
    dsimp only
    rw [if_neg (by decide +kernel)]
    rfl
  refine ⟨hms, fun h => ?_⟩
  rcases h _ hrun rfl with hs | ⟨m, hm, -⟩
  · cases hs
  · cases hm

end BurnerRedis
