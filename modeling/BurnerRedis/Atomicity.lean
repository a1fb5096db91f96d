import BurnerRedis.Lib.Atomic
import BurnerRedis.Sweeps

/-!
# Calls from several threads

The store keeps its data and its script cache behind locks; besides the thread of the caller, the
sweeper and the polls of blocking calls run on threads of their own. Most methods take one lock once;
GET looks under a read lock and comes back for a write lock when the key has expired, EVAL caches its
script before it locks the data, and EVALSHA looks its script up before it does. Whatever runs
between two locks, and whatever the sweeper removes, clients see a store whose GET and EVALSHA are
atomic, whose EVAL is SCRIPT LOAD and then an atomic run, and which never sweeps
(`concurrent_calls_atomic`).
-/

namespace BurnerRedis

open Concurrency

/-! ## Scripts as they run -/

/-- What a command meets when it runs: how long it waits for its clock, the wall clock and the walk
through a map. -/
structure Moment where
  wait : Duration
  wall : UInt64
  walk : FinMap.WalkOrder

/-- What a script does under the lock: it returns, or makes a call of `redis` and goes on with the
reply. The Lua between two calls is a parameter. -/
inductive Chunk where
  | ret (r : Script.Reply)
  | call (cmd : String) (args : List Bytes) (next : Script.Reply → Chunk)

section Scripts

variable {S : Type} [Score S] {now : Instant} {d d' : Data S}

/-- `LuaEngine::execute` on the locked data: the clock and the data after it, and its result. -/
def Chunk.execute (now : Instant) (d : Data S) (e : ℕ → Moment) : Chunk →
    Instant × Data S × Script.Reply
  | .ret r => (now, d, r)
  | .call cmd args next =>
    let now := now + (e 0).wait
    let r := Script.dispatchInner ⟨now, (e 0).wall, (e 0).walk⟩ cmd args d
    (next r.2).execute now r.1 fun n => e (n + 1)

/-- A script does the same on data that differ in expired keys only. -/
theorem Chunk.execute_same (h : SameLive now d d') (e : ℕ → Moment) (p : Chunk) :
    now ≤ (p.execute now d e).1 ∧
      (p.execute now d e).1 = (p.execute now d' e).1 ∧
      SameLive (p.execute now d e).1 (p.execute now d e).2.1 (p.execute now d' e).2.1 ∧
      (p.execute now d e).2.2 = (p.execute now d' e).2.2 := by
  induction p generalizing now d d' e with
  | ret r => exact ⟨le_rfl, rfl, h, rfl⟩
  | call cmd args next ih =>
    have hle : now ≤ now + (e 0).wait := le_add_of_nonneg_right (Int.natCast_nonneg _)
    have hr := Script.dispatchInner_respects (S := S)
      ⟨now + (e 0).wait, (e 0).wall, (e 0).walk⟩ cmd args (h.later hle)
    unfold Chunk.execute
    dsimp only
    rw [← hr.answer]
    obtain ⟨hlater, hrest⟩ := ih _ hr.data fun n => e (n + 1)
    exact ⟨hle.trans hlater, hrest⟩

end Scripts

/-! ## Methods and their locks -/

/-- What clients call. -/
inductive Method (S : Type) where
  | request (q : Request S)
  | scriptLoad (script : String)
  | scriptExists (shas : List String)
  | eval (script : String) (keys args : List Bytes)
  | evalsha (sha : String) (keys args : List Bytes)

/-- The answer to a call. -/
inductive CallAnswer (S : Type) where
  | response (r : Response S)
  | script (r : Script.Reply)
  | sha (sha : String)
  | found (l : List Bool)

/-- The same answer, as far as clients may rely on it. -/
inductive CallAnswer.Same {S : Type} : CallAnswer S → CallAnswer S → Prop where
  | response {r r' : Response S} (h : r.Same r') : Same (.response r) (.response r')
  | refl (a : CallAnswer S) : Same a a

/-- Clients do not sweep and do not load snapshots, and call commands of scripts from scripts only.
The texts of their scripts are among `texts`. -/
def Method.Offered {S : Type} (texts : Set String) : Method S → Prop
  | .request (.op .sweepExpired) => False
  | .request (.loadInto _) => False
  | .request (.call _ _) => False
  | .request _ => True
  | .scriptLoad script => script ∈ texts
  | .eval script _ _ => script ∈ texts
  | _ => True

theorem Method.Offered.not_sweep {S : Type} {texts : Set String} {q : Request S}
    (hq : (Method.request q).Offered texts) : q.isSweep = false := by
  cases q with
  | op o => cases o <;> first | rfl | exact hq.elim
  | _ => rfl

section Bodies

variable {S : Type} [Score S]

/-- A critical section reads the clock once, but for the commands of a script. -/
abbrev Locked (S : Type) [Score S] : Type 1 :=
  Concurrency.Call (ℕ → Moment) (Instant × Store S) (CallAnswer S)

/-- A method that takes one lock once. -/
def requestOnce (q : Request S) : Locked S :=
  .atomic fun e s =>
    let r := q.run ⟨s.1, (e 0).wall, (e 0).walk⟩ s.2
    ((s.1, r.1), .response r.2)

/-- The answer of GET. -/
def gotten (r : Except StoreError (Option Bytes)) : CallAnswer S := .response (.outcome ⟨_, r⟩)

/-- The look of GET under the read lock; `none` where the key has expired. -/
def Store.getLook (now : Instant) (key : Bytes) (d : Data S) :
    Option (Except StoreError (Option Bytes)) :=
  match d[key]? with
  | none => some (.ok none)
  | some en =>
    if en.isExpired now then none
    else match en.data with
      | .string v => some (.ok (some v))
      | _ => some (.error .wrongType)

/-- `Store::get`: an expired key is removed under a second lock, if it is expired still. -/
def getTwice (key : Bytes) : Locked S :=
  .locked (fun _ s => s) fun _ s => match Store.getLook s.1 key s.2.data with
    | some r => .done (gotten r)
    | none =>
      .locked (fun _ s => (s.1, { s.2 with data := purge s.1 key s.2.data })) fun _ _ =>
        .done (gotten (.ok none))

/-- EVALSHA of a name that is not cached. -/
def noScript : CallAnswer S := .script (.error "NOSCRIPT No matching script. Use EVAL.")

variable (lua : String → List Bytes → List Bytes → Chunk) (sha1 : String → String)

/-- A script that runs under the write lock on the data. -/
def executed (script : String) (keys args : List Bytes) (e : ℕ → Moment) (s : Instant × Store S) :
    (Instant × Store S) × CallAnswer S :=
  let r := (lua script keys args).execute s.1 s.2.data e
  ((r.1, { s.2 with data := r.2.1 }), .script r.2.2)

/-- The script cache under its write lock. -/
def cached (script : String) (s : Instant × Store S) : Instant × Store S :=
  (s.1, { s.2 with scripts := s.2.scripts.insert (sha1 script) script })

/-- The methods with the locks that the source takes. -/
def lockedBody : Method S → Locked S
  | .request (.op (.get key)) => getTwice key
  | .request q => requestOnce q
  | .scriptLoad script => .atomic fun _ s => (cached sha1 script s, .sha (sha1 script))
  | .scriptExists shas => .atomic fun _ s => (s, .found (shas.map fun sha => sha ∈ s.2.scripts))
  | .eval script keys args =>
    .locked (fun _ s => cached sha1 script s) fun _ _ => .atomic (executed lua script keys args)
  | .evalsha sha keys args =>
    .locked (fun _ s => s) fun _ s => match s.2.scripts[sha]? with
      | none => .done noScript
      | some script => .atomic (executed lua script keys args)

/-- The methods as clients may think of them: all in one piece, but for EVAL, which is SCRIPT LOAD
and then the run. -/
def atomicBody : Method S → Locked S
  | .request q => requestOnce q
  | .scriptLoad script => .atomic fun _ s => (cached sha1 script s, .sha (sha1 script))
  | .scriptExists shas => .atomic fun _ s => (s, .found (shas.map fun sha => sha ∈ s.2.scripts))
  | .eval script keys args =>
    .locked (fun _ s => cached sha1 script s) fun _ _ => .atomic (executed lua script keys args)
  | .evalsha sha keys args =>
    .atomic fun e s => match s.2.scripts[sha]? with
      | none => (s, noScript)
      | some script => executed lua script keys args e s

/-- The store as it is, swept in the background. -/
def lockedCode : Code (Method S) (ℕ → Moment) (Instant × Store S) (CallAnswer S) Duration Moment where
  body := lockedBody lua sha1
  pass t s := (s.1 + t, s.2)
  background m s :=
    (s.1, { s.2 with data := (Store.sweepExpired ⟨s.1, m.wall, m.walk⟩ s.2.data).1 })

/-- A store whose calls are atomic and that is never swept. -/
def atomicCode : Code (Method S) (ℕ → Moment) (Instant × Store S) (CallAnswer S) Duration Moment where
  body := atomicBody lua sha1
  pass t s := (s.1 + t, s.2)
  background _ s := s

/-! ## The refinement -/

/-- Scripts are cached under the name of their text. -/
def Cached (texts : Set String) (st : Store S) : Prop :=
  ∀ sha script : String, st.scripts[sha]? = some script → sha = sha1 script ∧ script ∈ texts

/-- The stores hold the same but for expired keys; and what is cached stays so. -/
def sameLive (texts : Set String) : Relation (Instant × Store S) where
  R s s' := s.1 = s'.1 ∧ s.2.SameLive s.1 s'.2 ∧ Cached sha1 texts s.2
  G s s' := ∀ sha script : String, s.2.scripts[sha]? = some script → s'.2.scripts[sha]? = some script
  refl _ _ _ h := h
  trans h h' sha script hs := h' sha script (h sha script hs)

variable {lua sha1} {texts : Set String} {s s' : Instant × Store S}

/-- The look and the removal answer what GET in one piece does. -/
theorem Store.get_eq_getLook (e : Env) (key : Bytes) (d : Data S) :
    Store.get e key d = (purge e.now key d, (Store.getLook e.now key d).getD (.ok none)) := by
  unfold Store.get readAs
  rw [getElem?_purge]
  unfold live Store.getLook
  cases d[key]? with
  | none => rfl
  | some en =>
    rw [Option.filter_some]
    cases hexp : en.isExpired e.now with
    | true => simp [hexp]
    | false => cases hen : en.data <;> simp [hexp, Kind.string, hen]

theorem Request.run_scripts_offered (e : Env) (st : Store S) {q : Request S}
    (hq : (Method.request q).Offered texts) : (q.run e st).1.scripts = st.scripts := by
  cases q with
  | loadInto => exact hq.elim
  | _ => rfl

/-- A request leaves related stores, and answers the same. -/
theorem request_related (hR : (sameLive sha1 texts).R s s') {q : Request S}
    (hq : (Method.request q).Offered texts) (wall : UInt64) (walk : FinMap.WalkOrder) :
    (sameLive sha1 texts).R (s.1, (q.run ⟨s.1, wall, walk⟩ s.2).1)
        (s'.1, (q.run ⟨s'.1, wall, walk⟩ s'.2).1) ∧
      (q.run ⟨s.1, wall, walk⟩ s.2).2.Same (q.run ⟨s'.1, wall, walk⟩ s'.2).2 := by
  obtain ⟨hnow, hlive, hcached⟩ := hR
  rw [← hnow]
  obtain ⟨hsame, hrun⟩ := Request.run_same ⟨s.1, wall, walk⟩ q hq.not_sweep hlive
  refine ⟨⟨rfl, hrun, ?_⟩, hsame⟩
  intro sha script hs
  rw [Request.run_scripts_offered _ _ hq] at hs
  exact hcached sha script hs

theorem requestOnce_follows {q : Request S} (hq : (Method.request q).Offered texts)
    (s₀ : Instant × Store S) :
    (requestOnce q).Follows (sameLive sha1 texts) CallAnswer.Same s₀ (requestOnce q) := by
  apply Concurrency.Call.Follows.atomic
  intro e s s' hR
  obtain ⟨hrun, hsame⟩ := request_related hR hq (e 0).wall (e 0).walk
  refine ⟨fun sha script hs => ?_, hrun, .response hsame⟩
  rwa [Request.run_scripts_offered _ _ hq]

/-- GET follows GET in one piece: it answers at its first look, and what it does under the second
lock does not show. -/
theorem getTwice_follows (key : Bytes) (s₀ : Instant × Store S) :
    (getTwice key).Follows (sameLive sha1 texts) CallAnswer.Same s₀ (requestOnce (.op (.get key))) := by
  intro e s s' _ hR
  obtain ⟨hrun, hsame⟩ := request_related hR (q := .op (.get key)) trivial (e 0).wall (e 0).walk
  have hget := Store.get_eq_getLook ⟨s.1, (e 0).wall, (e 0).walk⟩ key s.2.data
  -- the look itself leaves an expired key where it is
  have hpurge : s.2.SameLive s.1
      ((Request.op (.get key)).run ⟨s.1, (e 0).wall, (e 0).walk⟩ s.2).1 :=
    ⟨sameLive_purge s.1 key s.2.data, rfl⟩
  refine ⟨fun _ _ hs => hs, .inr ⟨_, _, rfl, ⟨hR.1, hpurge.trans hrun.2.1, hR.2.2⟩, ?_⟩⟩
  have hans : CallAnswer.Same (gotten ((Store.getLook s.1 key s.2.data).getD (.ok none)))
      (.response ((Request.op (.get key)).run ⟨s'.1, (e 0).wall, (e 0).walk⟩ s'.2).2) := by
    have h := congrArg Prod.snd hget
    dsimp only at h
    rw [← h]
    exact .response hsame
  dsimp only
  cases hlook : Store.getLook s.1 key s.2.data with
  | some r =>
    rw [hlook] at hans
    exact ⟨_, rfl, hans⟩
  | none =>
    rw [hlook] at hans
    intro e' t t' _ hR'
    have hgone : Store.SameLive t.1 { t.2 with data := purge t.1 key t.2.data } t.2 :=
      ⟨(sameLive_purge t.1 key t.2.data).symm, rfl⟩
    exact ⟨fun _ _ hs => hs, .inl ⟨⟨hR'.1, hgone.trans hR'.2.1, hR'.2.2⟩, _, rfl, hans⟩⟩

variable (lua) in
/-- A script under the lock. -/
theorem executed_related (hR : (sameLive sha1 texts).R s s') (script : String)
    (keys args : List Bytes) (e : ℕ → Moment) :
    (sameLive sha1 texts).R (executed lua script keys args e s).1
        (executed lua script keys args e s').1 ∧
      (executed lua script keys args e s).2 = (executed lua script keys args e s').2 := by
  obtain ⟨now, st⟩ := s
  obtain ⟨now', st'⟩ := s'
  obtain ⟨hnow, hlive, hcached⟩ := hR
  dsimp only at hnow hlive hcached
  subst hnow
  obtain ⟨-, hclock, hdata, hans⟩ := Chunk.execute_same hlive.data e (lua script keys args)
  exact ⟨⟨hclock, ⟨hdata, hlive.scripts⟩, hcached⟩, congrArg CallAnswer.script hans⟩

theorem executed_follows (script : String) (keys args : List Bytes) (s₀ : Instant × Store S) :
    (Concurrency.Call.atomic (executed lua script keys args)).Follows (sameLive sha1 texts)
      CallAnswer.Same s₀ (.atomic (executed lua script keys args)) := by
  apply Concurrency.Call.Follows.atomic
  intro e s s' hR
  obtain ⟨hrun, hans⟩ := executed_related lua hR script keys args e
  exact ⟨fun _ _ hs => hs, hrun, hans ▸ .refl _⟩

/-- No two texts have one name, so a script that is cached keeps its name. -/
theorem cached_related (hsha : Set.InjOn sha1 texts) (hR : (sameLive sha1 texts).R s s')
    {script : String} (hs : script ∈ texts) :
    (sameLive sha1 texts).G s (cached sha1 script s) ∧
      (sameLive sha1 texts).R (cached sha1 script s) (cached sha1 script s') := by
  obtain ⟨hnow, hlive, hcached⟩ := hR
  refine ⟨fun sha t ht => ?_, hnow, ⟨hlive.data, ?_⟩, fun sha t ht => ?_⟩
  · obtain ⟨rfl, hmem⟩ := hcached sha t ht
    unfold cached
    dsimp only
    rw [Std.ExtTreeMap.getElem?_insert]
    split_ifs with heq
    · rw [hsha hs hmem (Std.LawfulEqCmp.eq_of_compare heq)]
    · exact ht
  · unfold cached
    dsimp only
    rw [hlive.scripts]
  · unfold cached at ht
    dsimp only at ht
    rw [Std.ExtTreeMap.getElem?_insert] at ht
    split_ifs at ht with heq
    · cases ht
      exact ⟨(Std.LawfulEqCmp.eq_of_compare heq).symm, hs⟩
    · exact hcached sha t ht

/-- EVALSHA follows EVALSHA in one piece: where the name is known, it stays so until the script
runs. -/
theorem evalsha_follows (sha : String) (keys args : List Bytes) (s₀ : Instant × Store S) :
    (lockedBody lua sha1 (.evalsha sha keys args)).Follows (sameLive sha1 texts) CallAnswer.Same s₀
      (atomicBody lua sha1 (.evalsha sha keys args)) := by
  intro e s s' _ hR
  refine ⟨fun _ _ hs => hs, ?_⟩
  cases hsha : s.2.scripts[sha]? with
  | none =>
    have hsha' : s'.2.scripts[sha]? = none := by rw [← hR.2.1.scripts, hsha]
    right
    refine ⟨_, _, rfl, ?_⟩
    simp only [hsha, hsha']
    exact ⟨hR, _, rfl, .refl _⟩
  | some script =>
    left
    simp only [hsha]
    refine ⟨hR, fun e' t t' hG hR' => ?_⟩
    obtain ⟨hrun, hans⟩ := executed_related lua hR' script keys args e'
    have ht' : t'.2.scripts[sha]? = some script := by
      rw [← hR'.2.1.scripts]
      exact hG sha script hsha
    refine ⟨fun _ _ hs => hs, .inr ⟨_, _, rfl, ?_⟩⟩
    simp only [ht']
    exact ⟨hrun, _, rfl, hans ▸ .refl _⟩

theorem lockedCode_follows (hsha : Set.InjOn sha1 texts) :
    (lockedCode lua sha1 (S := S)).Follows (sameLive sha1 texts) CallAnswer.Same
      (Method.Offered texts) (atomicCode lua sha1) where
  body m hm s₀ := by
    cases m with
    | request q =>
      cases q with
      | op o => cases o with
        | get key => exact getTwice_follows key s₀
        | _ => exact requestOnce_follows hm s₀
      | _ => exact requestOnce_follows hm s₀
    | scriptLoad script =>
      apply Concurrency.Call.Follows.atomic
      intro e s s' hR
      obtain ⟨hG, hrun⟩ := cached_related hsha hR hm
      exact ⟨hG, hrun, .refl _⟩
    | scriptExists shas =>
      apply Concurrency.Call.Follows.atomic
      intro e s s' hR
      refine ⟨fun _ _ hs => hs, hR, ?_⟩
      rw [hR.2.1.scripts]
      exact .refl _
    | eval script keys args =>
      apply Concurrency.Call.Follows.locked
      intro e s s' hR
      obtain ⟨hG, hrun⟩ := cached_related hsha hR hm
      exact ⟨hG, hrun, executed_follows script keys args _⟩
    | evalsha sha keys args => exact evalsha_follows sha keys args s₀
  pass t s s' hR := by
    obtain ⟨hnow, hlive, hcached⟩ := hR
    have hle : s.1 ≤ s.1 + t := le_add_of_nonneg_right (Int.natCast_nonneg t)
    exact ⟨fun _ _ hs => hs, congrArg (· + (t : ℤ)) hnow, hlive.later hle, hcached⟩
  background m s s' hR := by
    obtain ⟨hnow, hlive, hcached⟩ := hR
    have hswept : Store.SameLive s.1
        { s.2 with data := (Store.sweepExpired ⟨s.1, m.wall, m.walk⟩ s.2.data).1 } s.2 :=
      ⟨(Store.sweepExpired_sameLive ⟨s.1, m.wall, m.walk⟩ s.2.data).symm, rfl⟩
    exact ⟨fun _ _ hs => hs, hnow, hswept.trans hlive, hcached⟩

/-- The moment of a command that does not wait. -/
def atOnce : ℕ → Moment := fun _ => ⟨0, 0, .byKey⟩

/-- A key that expires at 5 and is read at 7; before the reader comes back to remove it another
thread writes it anew, and a third one loads a script and runs it by its name. -/
def rewrittenInGet : List (Concurrency.Event ℕ (Method ℤ) (ℕ → Moment) Duration Moment) :=
  [.pass 7, .invoke 0 (.request (.op (.get [1]))), .enter 0 atOnce,
    .invoke 1 (.request (.op (.set [1] [9] none true false))), .enter 1 atOnce, .answer 1,
    .background (atOnce 0), .enter 0 atOnce, .answer 0,
    .invoke 2 (.scriptLoad "return 1"), .enter 2 atOnce, .answer 2,
    .invoke 2 (.evalsha "e0e1f9fabfc9d4800c877a703b823ac0578ff8db" [] []), .enter 2 atOnce,
    .enter 2 atOnce, .answer 2,
    .invoke 0 (.request (.op (.get [1]))), .enter 0 atOnce, .answer 0]

example :
    seen (lockedCode (fun _ _ _ => .ret (.ok (.integer 1)))
        fun _ => "e0e1f9fabfc9d4800c877a703b823ac0578ff8db")
      (.idle (0, ⟨(∅ : Data ℤ).insert [1] ⟨.string [2], some 5⟩, ∅⟩)) (rewrittenInGet.take 9) =
    [.passed 7, .invoked 0 (.request (.op (.get [1]))),
      .invoked 1 (.request (.op (.set [1] [9] none true false))),
      .answered 1 (.response (.outcome ⟨Bool, .ok true⟩)), .answered 0 (gotten (.ok none))] := by
  rfl

theorem rewrittenInGet_offered (i : ℕ) (m : Method ℤ) (hm : .invoke i m ∈ rewrittenInGet) :
    m.Offered {"return 1"} := by
  simp [rewrittenInGet] at hm
  rcases hm with ⟨-, rfl⟩ | ⟨-, rfl⟩ | ⟨-, rfl⟩ | ⟨-, rfl⟩ | ⟨-, rfl⟩
  case inr.inr.inl => exact Set.mem_singleton _
  all_goals trivial

end Bodies

end BurnerRedis
