import BurnerRedis.Panics
import BurnerRedis.Pipeline.SlowPath

/-!
# Deadlines that the clock cannot count

EXPIRE and SET panic where the clock cannot count the deadline (`Panics`). `Timed.Safe` says what a
command should do with the time it is given, and `Timed.Exact` that it does so exactly where the
clock can count its deadline.
-/

namespace BurnerRedis

open Pipeline (PyValue PyErr expireSeconds extractTime extractTtl)

section

variable {S : Type} [LinearOrder S]

namespace Pipeline

/-- `expire` of the client and of a pipeline, its key read; no result where it panics. -/
def expire? (e : Env) (key : Bytes) (time : PyValue S) (d : Data S) :
    Data S × Option (Except PyErr Bool) :=
  match expireSeconds time with
  | .error err => (d, some (.error err))
  | .ok seconds => (Store.expire? e key seconds d).map id (Option.map .ok)

/-- `set` of the client and of a pipeline, its other arguments read; no result where it panics. -/
def set? (e : Env) (key value : Bytes) (nx xx : Bool) (ex px : PyValue S) (d : Data S) :
    Data S × Option (Except PyErr Bool) :=
  match extractTtl ex px with
  | .error err => (d, some (.error err))
  | .ok ttl => (Store.set? e key value ttl nx xx d).map id (Option.map .ok)

/-- `setex` of a pipeline, its other arguments read; no result where it panics. -/
def setex? (e : Env) (key value : Bytes) (time : PyValue S) (d : Data S) :
    Data S × Option (Except PyErr Bool) :=
  match extractTime time false with
  | .error err => (d, some (.error err))
  | .ok ttl => (Store.set? e key value (some ttl) false false d).map id (Option.map .ok)

end Pipeline

variable {e : Env} {key value : Bytes} {d : Data S}

/-! ## What a command should do with its time -/

/-- A command that gives its key a deadline: what it answers then; the time to live that it reads
from an argument; whether it has a deadline to compute; and how it runs. -/
structure Timed (S A ρ : Type) [LinearOrder S] where
  key : Bytes
  yes : ρ
  asks : A → Option Duration
  acts : Env → Data S → A → Prop
  run : Env → A → Data S → Data S × Option ρ

namespace Timed

variable {A ρ : Type} (c : Timed S A ρ)

/-- The command is carried out, and sets the deadline. -/
def Sets (e : Env) (d : Data S) (a : A) (exp : Instant) : Prop :=
  (c.run e a d).2 = some c.yes ∧ ∃ en, (c.run e a d).1[c.key]? = some en ∧ en.expiresAt = some exp

/-- The command answers that it is not carried out, and leaves its key as it was. -/
def Declines (e : Env) (d : Data S) (a : A) : Prop :=
  (∃ r, (c.run e a d).2 = some r ∧ r ≠ c.yes) ∧
    live e.now (c.run e a d).1 c.key = live e.now d c.key

/-- The command sets a deadline, and none that it sets for a shorter time is later; or it
declines. -/
def Safe (e : Env) (d : Data S) (a : A) : Prop :=
  (∃ exp, c.Sets e d a exp ∧ ∀ ttl a' ttl' exp', c.asks a = some ttl → c.asks a' = some ttl' →
    0 < ttl' → ttl' < ttl → c.Sets e d a' exp' → exp' ≤ exp) ∨ c.Declines e d a

/-- The command does right with a positive time exactly when it has no deadline to compute or the
clock can count it. -/
def Exact : Prop :=
  ∀ e d a ttl, c.asks a = some ttl → 0 < ttl →
    (c.Safe e d a ↔ (c.acts e d a → Instant.Fits (e.now + ttl)))

/-- What a command does with a positive time. -/
structure Spec : Prop where
  sets : ∀ {e d a ttl}, c.asks a = some ttl → 0 < ttl → c.acts e d a →
    Instant.Fits (e.now + ttl) → c.Sets e d a (e.now + ttl)
  panics : ∀ {e d a ttl}, c.asks a = some ttl → 0 < ttl → c.acts e d a →
    ¬ Instant.Fits (e.now + ttl) → (c.run e a d).2 = none
  declines : ∀ {e d a ttl}, c.asks a = some ttl → 0 < ttl → ¬ c.acts e d a → c.Declines e d a

variable {c}

theorem Sets.unique {a : A} {exp exp' : Instant} (h : c.Sets e d a exp) (h' : c.Sets e d a exp') :
    exp = exp' := by
  obtain ⟨-, en, hen, hexp⟩ := h
  obtain ⟨-, en', hen', hexp'⟩ := h'
  obtain rfl : en = en' := Option.some.inj (hen.symm.trans hen')
  exact Option.some.inj (hexp.symm.trans hexp')

theorem not_declines_of_sets {a : A} {exp : Instant} (h : c.Sets e d a exp) :
    ¬ c.Declines e d a := by
  rintro ⟨⟨r, hr, hne⟩, -⟩
  exact hne (Option.some.inj (hr.symm.trans h.1))

/-- A deadline that is set is the one asked for. -/
theorem Spec.eq_of_sets (hc : c.Spec) {a : A} {ttl : Duration} {exp : Instant}
    (ha : c.asks a = some ttl) (hpos : 0 < ttl) (h : c.Sets e d a exp) : exp = e.now + ttl := by
  by_cases hacts : c.acts e d a
  · by_cases hfits : Instant.Fits (e.now + ttl)
    · exact h.unique (hc.sets ha hpos hacts hfits)
    · exact absurd (h.1.symm.trans (hc.panics ha hpos hacts hfits)) nofun
  · exact absurd (hc.declines ha hpos hacts) (not_declines_of_sets h)

theorem Spec.not_safe (hc : c.Spec) {a : A} {ttl : Duration} (ha : c.asks a = some ttl)
    (hpos : 0 < ttl) (hacts : c.acts e d a) (hfits : ¬ Instant.Fits (e.now + ttl)) :
    ¬ c.Safe e d a := by
  intro hsafe
  have hnone : (c.run e a d).2 = none := hc.panics ha hpos hacts hfits
  rcases hsafe with ⟨exp, ⟨hyes, -⟩, -⟩ | ⟨⟨r, hr, -⟩, -⟩
  · exact absurd (hyes.symm.trans hnone) nofun
  · exact absurd (hr.symm.trans hnone) nofun

theorem Spec.exact (hc : c.Spec) : c.Exact := by
  intro e d a ttl ha hpos
  constructor
  · intro hsafe hacts
    by_contra hfits
    exact hc.not_safe ha hpos hacts hfits hsafe
  · intro hfits
    by_cases hacts : c.acts e d a
    · refine .inl ⟨_, hc.sets ha hpos hacts (hfits hacts), ?_⟩
      intro ttl₀ a' ttl' exp' ha₀ ha' hpos' hlt hsets
      obtain rfl : ttl = ttl₀ := Option.some.inj (ha.symm.trans ha₀)
      rw [hc.eq_of_sets ha' hpos' hsets]
      have hle : (ttl' : ℤ) ≤ ttl := by exact_mod_cast hlt.le
      exact Int.add_le_add_left hle _
    · exact .inr (hc.declines ha hpos hacts)

end Timed

/-! ## The commands that set deadlines -/

/-- The time to live of EXPIRE. -/
def expireTtl (unit : ℕ → Duration) (n : ℤ) : Option Duration :=
  if 0 < n then some (unit n.toNat) else none

/-- `expire` of the client and of a pipeline. -/
def Timed.expire (key : Bytes) : Timed S (PyValue S) (Except PyErr Bool) where
  key := key
  yes := .ok true
  asks time := (expireSeconds time).toOption.bind (expireTtl Duration.fromSecs)
  acts e d _ := expireActs key e d
  run e time := Pipeline.expire? e key time

/-- `set` of the client and of a pipeline; its arguments are `ex` and `px`. -/
def Timed.set (key value : Bytes) (nx xx : Bool) :
    Timed S (PyValue S × PyValue S) (Except PyErr Bool) where
  key := key
  yes := .ok true
  asks p := (extractTtl p.1 p.2).toOption.join
  acts e d _ := setActs key nx xx e d
  run e p := Pipeline.set? e key value nx xx p.1 p.2

/-- `setex` of a pipeline. -/
def Timed.setex (key value : Bytes) : Timed S (PyValue S) (Except PyErr Bool) where
  key := key
  yes := .ok true
  asks time := (extractTime time false).toOption
  acts _ _ _ := True
  run e time := Pipeline.setex? e key value time

/-- `EXPIRE` and `PEXPIRE` of a script. -/
def Timed.scriptExpireAs (name : String) (unit : ℕ → Duration) (key : Bytes) :
    Timed S Bytes Script.Reply where
  key := key
  yes := Script.integer 1
  asks time := (parseI64 time).bind (expireTtl unit)
  acts e d _ := expireActs key e d
  run e time := Script.expireAs? name unit e [key, time]

/-- `EXPIRE` of a script. -/
def Timed.scriptExpire : Bytes → Timed S Bytes Script.Reply :=
  scriptExpireAs "expire" Duration.fromSecs

/-- `PEXPIRE` of a script. -/
def Timed.scriptPexpire : Bytes → Timed S Bytes Script.Reply :=
  scriptExpireAs "pexpire" Duration.fromMillis

/-- `SET` of a script; its argument is all that follows the value. -/
def Timed.scriptSet (key value : Bytes) : Timed S (List Bytes) Script.Reply where
  key := key
  yes := .ok (.status "OK")
  asks rest := (Script.setOptions rest {}).toOption.bind Script.SetOptions.ttl
  acts e d rest := ∀ o, Script.setOptions rest {} = .ok o → setActs key o.nx o.xx e d
  run e rest := Script.set? e (key :: value :: rest)

/-! ## What they do -/

section Replies

variable {ρ : Type} {unit : ℕ → Duration} {reply : Bool → ρ} {yes no : ρ} {n : ℤ} {nx xx : Bool}

/-- The answer may be wrapped up. -/
theorem expireAt?_map {σ : Type} (f : ρ → σ) (d : Data S) :
    (expireAt? unit reply e key n d).map id (Option.map f) =
      expireAt? unit (fun b => f (reply b)) e key n d := by
  unfold expireAt?
  by_cases hn : n ≤ 0
  · rw [if_pos hn, if_pos hn]
    rfl
  · rw [if_neg hn, if_neg hn]
    cases (purge e.now key d)[key]? with
    | none => rfl
    | some en => cases e.now.add? (unit n.toNat) <;> rfl

theorem expireTtl_eq_some {ttl : Duration} :
    expireTtl unit n = some ttl ↔ 0 < n ∧ unit n.toNat = ttl := by
  unfold expireTtl
  split_ifs with h
  · simp [h]
  · simp [h]

theorem setValue?_map {σ : Type} (f : ρ → σ) (ttl : Option Duration) (cleared d : Data S) :
    (setValue? yes no e key value ttl nx xx cleared d).map id (Option.map f) =
      setValue? (f yes) (f no) e key value ttl nx xx cleared d := by
  unfold setValue?
  dsimp only
  split_ifs
  · rfl
  · rfl
  · cases (ValueEntry.new? e.now value ttl : Option (ValueEntry S)) <;> rfl

end Replies

namespace Timed

variable {A ρ : Type} {c : Timed S A ρ}

/-- A command that runs EXPIRE for the times it accepts. -/
theorem spec_of_expireAt? (unit : ℕ → Duration) (reply : Bool → ρ) (hyes : c.yes = reply true)
    (hne : reply false ≠ reply true) (hacts : ∀ e d a, c.acts e d a ↔ expireActs c.key e d)
    (hrun : ∀ a ttl, c.asks a = some ttl → ∃ n, expireTtl unit n = some ttl ∧
      ∀ e d, c.run e a d = expireAt? unit reply e c.key n d) : c.Spec where
  sets := by
    intro e d a ttl ha _ hact hfits
    obtain ⟨n, hn, heq⟩ := hrun a ttl ha
    obtain ⟨hpos, rfl⟩ := expireTtl_eq_some.mp hn
    obtain ⟨en, hen⟩ := Option.isSome_iff_exists.mp ((hacts e d a).mp hact)
    unfold Sets
    rw [heq, expireAt?_sets hpos hen hfits, hyes]
    exact ⟨rfl, _, (FinMap.getElem?_insert' ..).trans (if_pos rfl), rfl⟩
  panics := by
    intro e d a ttl ha _ hact hfits
    obtain ⟨n, hn, heq⟩ := hrun a ttl ha
    obtain ⟨hpos, rfl⟩ := expireTtl_eq_some.mp hn
    obtain ⟨en, hen⟩ := Option.isSome_iff_exists.mp ((hacts e d a).mp hact)
    rw [heq, expireAt?_panics hpos hen hfits]
  declines := by
    intro e d a ttl ha _ hact
    obtain ⟨n, hn, heq⟩ := hrun a ttl ha
    obtain ⟨hpos, rfl⟩ := expireTtl_eq_some.mp hn
    rw [hacts, expireActs, Option.not_isSome_iff_eq_none] at hact
    unfold Declines
    rw [heq, expireAt?_absent hpos hact, hyes]
    exact ⟨⟨_, rfl, hne⟩, live_purge ..⟩

/-- A command that runs SET for the options it accepts. -/
theorem spec_of_setValue? (value : Bytes) (no : ρ) (cleared : Env → Data S → Data S)
    (hne : no ≠ c.yes)
    (hrun : ∀ a ttl, c.asks a = some ttl → ∃ nx xx,
      (∀ e d, c.acts e d a ↔ setActs c.key nx xx e d) ∧
      ∀ e d, c.run e a d =
        setValue? c.yes no e c.key value (some ttl) nx xx (cleared e d) d) : c.Spec where
  sets := by
    intro e d a ttl ha _ hact hfits
    obtain ⟨nx, xx, hacts, heq⟩ := hrun a ttl ha
    unfold Sets
    rw [heq, setValue?_sets ((hacts e d).mp hact) hfits]
    exact ⟨rfl, _, (FinMap.getElem?_insert' ..).trans (if_pos rfl), rfl⟩
  panics := by
    intro e d a ttl ha _ hact hfits
    obtain ⟨nx, xx, hacts, heq⟩ := hrun a ttl ha
    rw [heq, setValue?_panics ((hacts e d).mp hact) hfits]
  declines := by
    intro e d a ttl ha _ hact
    obtain ⟨nx, xx, hacts, heq⟩ := hrun a ttl ha
    rw [hacts] at hact
    unfold Declines
    rw [heq, setValue?_declines hact]
    exact ⟨⟨_, rfl, hne⟩, rfl⟩

theorem expire_spec (key : Bytes) : (expire key : Timed S _ _).Spec := by
  refine spec_of_expireAt? Duration.fromSecs Except.ok rfl nofun (fun _ _ _ => Iff.rfl) ?_
  intro time ttl ha
  obtain ⟨n, hn, httl⟩ := Option.bind_eq_some_iff.mp ha
  refine ⟨n, httl, fun e (d : Data S) => ?_⟩
  have hread : expireSeconds time = .ok n := by
    cases h : expireSeconds time with
    | error err => rw [h] at hn; cases hn
    | ok m => rw [h] at hn; cases hn; rfl
  show Pipeline.expire? e key time d = _
  rw [Pipeline.expire?, hread]
  exact expireAt?_map Except.ok d

theorem set_spec (key value : Bytes) (nx xx : Bool) : (set key value nx xx : Timed S _ _).Spec := by
  refine spec_of_setValue? value (.ok false) (fun _ d => d) nofun ?_
  rintro ⟨ex, px⟩ ttl ha
  refine ⟨nx, xx, fun _ _ => Iff.rfl, fun e d => ?_⟩
  have hread : extractTtl ex px = .ok (some ttl) := by
    unfold set at ha
    dsimp only at ha
    cases h : extractTtl ex px with
    | error err => rw [h] at ha; cases ha
    | ok t => rw [h] at ha; exact congrArg _ ha
  show Pipeline.set? e key value nx xx ex px d = _
  rw [Pipeline.set?, hread]
  exact setValue?_map Except.ok _ d d

theorem setex_spec (key value : Bytes) : (setex key value : Timed S _ _).Spec := by
  refine spec_of_setValue? value (.ok false) (fun _ d => d) nofun ?_
  intro time ttl ha
  refine ⟨false, false, fun _ _ => iff_of_true trivial ⟨rfl, rfl⟩, fun e d => ?_⟩
  have hread : extractTime time false = .ok ttl := by
    unfold setex at ha
    dsimp only at ha
    cases h : extractTime time false with
    | error err => rw [h] at ha; cases ha
    | ok t => rw [h] at ha; cases ha; rfl
  show Pipeline.setex? e key value time d = _
  rw [Pipeline.setex?, hread]
  exact setValue?_map Except.ok _ d d

theorem scriptExpireAs_spec (name : String) (unit : ℕ → Duration) (key : Bytes) :
    (scriptExpireAs name unit key : Timed S _ _).Spec := by
  refine spec_of_expireAt? unit Script.flag rfl nofun
    (fun _ _ _ => Iff.rfl) ?_
  intro time ttl ha
  obtain ⟨n, hn, httl⟩ := Option.bind_eq_some_iff.mp ha
  refine ⟨n, httl, fun e (d : Data S) => ?_⟩
  show Script.expireAs? name unit e [key, time] d = _
  rw [Script.expireAs?]
  dsimp only
  rw [hn]
  rfl

theorem scriptSet_spec (key value : Bytes) : (scriptSet key value : Timed S _ _).Spec := by
  refine spec_of_setValue? value (.ok .nil) (fun e d => purge e.now key d) nofun ?_
  intro rest ttl ha
  obtain ⟨o, ho, httl⟩ := Option.bind_eq_some_iff.mp ha
  have hread : Script.setOptions rest {} = .ok o := by
    cases h : Script.setOptions rest {} with
    | error r => rw [h] at ho; cases ho
    | ok o' => rw [h] at ho; cases ho; rfl
  refine ⟨o.nx, o.xx, fun e d => ?_, fun e d => ?_⟩
  · constructor
    · intro h
      exact h o hread
    · intro h o' ho'
      obtain rfl : o = o' := Except.ok.inj (hread.symm.trans ho')
      exact h
  · show Script.set? e (key :: value :: rest) d = _
    rw [Script.set?, hread]
    dsimp only
    rw [httl]
    rfl

end Timed

end

/-- Each command that sets a deadline does right with a positive time exactly when it has none to
compute or the clock can count it. -/
theorem deadlines_exact {S : Type} [LinearOrder S] (key value : Bytes) (nx xx : Bool) :
    (Timed.expire key : Timed S _ _).Exact ∧ (Timed.set key value nx xx : Timed S _ _).Exact ∧
      (Timed.setex key value : Timed S _ _).Exact ∧
      (Timed.scriptExpire key : Timed S _ _).Exact ∧
      (Timed.scriptPexpire key : Timed S _ _).Exact ∧
      (Timed.scriptSet key value : Timed S _ _).Exact :=
  ⟨(Timed.expire_spec key).exact, (Timed.set_spec key value nx xx).exact,
    (Timed.setex_spec key value).exact, (Timed.scriptExpireAs_spec _ _ key).exact,
    (Timed.scriptExpireAs_spec _ _ key).exact, (Timed.scriptSet_spec key value).exact⟩

/-- A string under the key `k`. -/
def plainData : Data ℤ := (∅ : Data ℤ).insert (ascii "k") ⟨.string [], none⟩

/-- One second after the clock's origin, the greatest numbers of seconds that EXPIRE and SET accept
are too many. -/
theorem greatest_not_safe :
    ¬ (Timed.expire (ascii "k")).Safe ⟨1000000000, 0, .byKey⟩ plainData
      (.int 9223372036854775807) ∧
    ¬ (Timed.scriptExpire (ascii "k")).Safe ⟨1000000000, 0, .byKey⟩
      plainData (ascii "9223372036854775807") ∧
    ¬ (Timed.set (ascii "k") [] false false).Safe ⟨1000000000, 0, .byKey⟩ plainData
      (.int 18446744073709551615, .none) ∧
    ¬ (Timed.scriptSet (ascii "k") []).Safe ⟨1000000000, 0, .byKey⟩ plainData
      [ascii "EX", ascii "18446744073709551615"] := by
  have hlive : expireActs (ascii "k") ⟨1000000000, 0, .byKey⟩ plainData := by
    show (live 1000000000 plainData (ascii "k")).isSome = true
    decide +kernel
  have hread : (Script.setOptions [ascii "EX", ascii "18446744073709551615"] {}).toOption =
      some { ttl := some (Duration.fromSecs 18446744073709551615) } := by decide +kernel
  refine ⟨?_, ?_, ?_, ?_⟩
  · exact (Timed.expire_spec _).not_safe rfl (by decide) hlive (by decide)
  · exact (Timed.scriptExpireAs_spec _ _ _).not_safe rfl (by decide) hlive (by decide)
  · exact (Timed.set_spec _ _ _ _).not_safe rfl (by decide) ⟨rfl, rfl⟩ (by decide)
  · have hasks : (Timed.scriptSet (ascii "k") [] : Timed ℤ _ _).asks
        [ascii "EX", ascii "18446744073709551615"] =
          some (Duration.fromSecs 18446744073709551615) := by decide +kernel
    refine (Timed.scriptSet_spec _ _).not_safe hasks (by decide) ?_ (by decide)
    intro o ho
    rw [ho] at hread
    cases hread
    exact ⟨rfl, rfl⟩

end BurnerRedis
