import BurnerRedis.Expiry

/-!
# Locks

The `Lock` objects of `lock.py` on one key. An acquire call draws a token and then tries SET NX PX,
once or in a loop; the lock remembers the token of the attempt that set the key. A release runs a
script that looks at the key and deletes it if the token is there.

Locks take their steps in any order, and what other clients do between them leaves the live entry
of the key as it is. One invariant says what a lock can remember and what can stand under the key
(`Locks.Coherent`), another what stands there while a holder's time lasts (`Locks.Holder`).
-/

namespace BurnerRedis

/-- `extract_expiry` for a whole number of milliseconds; nothing where it raises `TypeError`. -/
def extractExpiry (n : ℤ) : Option Duration :=
  if 0 ≤ n ∧ n < 2 ^ 64 then some (.fromMillis n.toNat) else none

/-- What `Lock.release` raises. -/
inductive ReleaseError where
  | lockError (message : String)
  | responseError (message : String)

def ReleaseError.unlocked : ReleaseError := .lockError "Cannot release an unlocked lock"

def ReleaseError.notOwned : ReleaseError :=
  .lockError "Cannot release a lock that's no longer owned"

/-- How one attempt of `Lock.acquire` ends: SET answers with `True` or `None`, or it raises because
of the expiry. -/
inductive Attempt where
  | acquired
  | refused
  | typeError
deriving DecidableEq

/-- The locks on the key `name` and the calls of their `acquire`: the lock of a call, the token it
draws and its `int(timeout * 1000)`, if there is a timeout. -/
structure Locks (L A : Type) where
  name : Bytes
  lockOf : A → L
  token : A → Bytes
  px : A → Option ℤ

/-- The clock, the data and the `self.token` of each lock. -/
structure LockState (S L : Type) [LinearOrder S] where
  now : Instant
  data : Data S
  held : L → Option Bytes

/-- A step of a run: what was called, and how it ended. -/
inductive LockEvent (L A : Type) where
  | attempted (a : A) (outcome : Attempt)
  | released (l : L) (outcome : Except ReleaseError Unit)
  | other

/-! ## Acquire and release -/

/-- `redis.call` raises what a command answers as an error. -/
def Script.raised : Script.Reply → Script.Reply
  | .ok (.error message) => .error message
  | r => r

/-- `RELEASE_SCRIPT`, whose two calls each read the clock. Lua compares the reply to GET with the
token; the reply to a missing key is `false` and equals no token. -/
def releaseScript {S : Type} [Score S] (e₁ e₂ : Env) (key token : Bytes) (d : Data S) :
    Data S × Script.Reply :=
  let r := Script.dispatchInner e₁ "GET" [key] d
  match Script.raised r.2 with
  | .error message => (r.1, .error message)
  | .ok (.bulkString b) =>
    if b = token then
      let s := Script.dispatchInner e₂ "DEL" [key] r.1
      (s.1, Script.raised s.2)
    else (r.1, Script.integer 0)
  | .ok _ => (r.1, Script.integer 0)

namespace Locks

variable {S L A : Type} [Score S] [DecidableEq L] (lk : Locks L A)

/-- `client.set(self.name, token, px=px, nx=True)`, and `self.token = token` where it is `True`. -/
def trySet (a : A) (e : Env) (ttl : Option Duration) (s : LockState S L) :
    LockState S L × Attempt :=
  let r := Store.set e lk.name (lk.token a) ttl true false s.data
  if r.2 then
    (⟨e.now, r.1, Function.update s.held (lk.lockOf a) (some (lk.token a))⟩, .acquired)
  else (⟨e.now, r.1, s.held⟩, .refused)

/-- One attempt of an acquire call. -/
def attempt (a : A) (e : Env) (s : LockState S L) : LockState S L × Attempt :=
  match lk.px a with
  | none => lk.trySet a e none s
  | some n => match extractExpiry n with
    | none => ({ s with now := e.now }, .typeError)
    | some ttl => lk.trySet a e (some ttl) s

/-- `Lock.release` -/
def release (l : L) (e₁ e₂ : Env) (s : LockState S L) :
    LockState S L × Except ReleaseError Unit :=
  match s.held l with
  | none => ({ s with now := e₂.now }, .error .unlocked)
  | some token =>
    let r := releaseScript e₁ e₂ lk.name token s.data
    match r.2 with
    | .error message => (⟨e₂.now, r.1, s.held⟩, .error (.responseError message))
    | .ok (.integer n) =>
      if n = 1 then (⟨e₂.now, r.1, Function.update s.held l none⟩, .ok ())
      else (⟨e₂.now, r.1, s.held⟩, .error .notOwned)
    | .ok _ => (⟨e₂.now, r.1, s.held⟩, .error .notOwned)

/-! ## Runs -/

/-- One step: an attempt of any acquire call, a release of any lock, or the clock advances and other
clients do something that leaves the live entry of the key as it is. -/
inductive Step (s : LockState S L) : LockEvent L A → LockState S L → Prop where
  | attempt {a : A} {e : Env} {s' : LockState S L} {outcome : Attempt} (h : s.now ≤ e.now)
      (hr : lk.attempt a e s = (s', outcome)) : Step s (.attempted a outcome) s'
  | release {l : L} {e₁ e₂ : Env} {s' : LockState S L} {outcome : Except ReleaseError Unit}
      (h₁ : s.now ≤ e₁.now) (h₂ : e₁.now ≤ e₂.now)
      (hr : lk.release l e₁ e₂ s = (s', outcome)) : Step s (.released l outcome) s'
  | other {now : Instant} {data : Data S} (h : s.now ≤ now)
      (hd : live now data lk.name = live now s.data lk.name) : Step s .other { s with now, data }

/-- The runs from a state, with what happened in them. -/
inductive Runs (s : LockState S L) : List (LockEvent L A) → LockState S L → Prop where
  | nil : Runs s [] s
  | snoc {events : List (LockEvent L A)} {event : LockEvent L A} {s' s'' : LockState S L}
      (h : Runs s events s') (hs : lk.Step s' event s'') : Runs s (events ++ [event]) s''

/-- What a lock remembers is a token that one of its own acquire calls has drawn; and once a lock
remembers one, nothing but a string stands under the key. -/
structure Coherent (s : LockState S L) : Prop where
  own : ∀ l t, s.held l = some t → ∃ a, lk.lockOf a = l ∧ lk.token a = t
  string : ∀ l t en, s.held l = some t → live s.now s.data lk.name = some en →
    ∃ b, en.data = .string b

/-- When the key set at `t` by an acquire call expires. -/
def deadline (a : A) (t : Instant) : Option Instant :=
  (lk.px a).map fun n => t + Duration.fromMillis n.toNat

/-- What an acquire call has set at `t`. -/
def entry (a : A) (t : Instant) : ValueEntry S := ⟨.string (lk.token a), lk.deadline a t⟩

/-- The acquire call that returned at `t` still holds the lock, unless its time is over. -/
def Holder (a : A) (t : Instant) (s : LockState S L) : Prop :=
  (lk.entry a t : ValueEntry S).isExpired s.now = false →
    s.held (lk.lockOf a) = some (lk.token a) ∧
      live s.now s.data lk.name = some (lk.entry a t)

end Locks

/-! ## SET NX and the release script -/

section Commands

variable {S : Type} [Score S] {e e₁ e₂ : Env} {key token : Bytes} {d : Data S}

theorem not_expired_before {now now' : Instant} {en : ValueEntry S} (hle : now ≤ now')
    (hx : en.isExpired now' = false) : en.isExpired now = false := by
  by_contra h
  rw [Bool.not_eq_false] at h
  rw [ValueEntry.isExpired_later hle h] at hx
  cases hx

/-- What is live later was live before. -/
theorem live_of_later {now now' : Instant} {en : ValueEntry S} (hle : now ≤ now')
    (h : live now' d key = some en) : live now d key = some en := by
  rw [live_eq_some] at h ⊢
  exact ⟨h.1, not_expired_before hle h.2⟩

/-- What is live stays so until it expires. -/
theorem live_stays {now now' : Instant} {en : ValueEntry S} (h : live now d key = some en)
    (hx : en.isExpired now' = false) : live now' d key = some en :=
  live_eq_some.mpr ⟨(live_eq_some.mp h).1, hx⟩

theorem set_nx_live {value : Bytes} {ttl : Option Duration} {en : ValueEntry S}
    (h : live e.now d key = some en) : Store.set e key value ttl true false d = (d, false) := by
  unfold Store.set
  simp [h]

theorem set_nx_free {value : Bytes} {ttl : Option Duration} (h : live e.now d key = none) :
    Store.set e key value ttl true false d = (d.insert key (.new e.now value ttl), true) := by
  unfold Store.set
  simp [h]

/-- The script of a lock whose token is live under the key deletes the key. -/
theorem releaseScript_own {exp : Option Instant}
    (h : live e₁.now d key = some ⟨.string token, exp⟩) :
    releaseScript e₁ e₂ key token d =
      (d.erase key, Script.integer (if (live e₂.now d key).isSome then 1 else 0)) := by
  have hp : purge e₁.now key d = d := by
    rcases purge_cases e₁.now key d with ⟨hp, -⟩ | ⟨-, hl⟩
    · exact hp
    · rw [h] at hl
      cases hl
  have hg : Script.dispatchInner e₁ "GET" [key] d = (d, Script.bulk token) := by
    show readAs .string e₁.now key (.ok .nil) Script.wrongType Script.bulk d = _
    have hf : live e₁.now d key = some ⟨Kind.string.wrap token, exp⟩ := h
    rw [readAs_found hf, hp]
  have hd : Script.dispatchInner e₂ "DEL" [key] d =
      (d.erase key, Script.integer (if (live e₂.now d key).isSome then 1 else 0)) := by
    show Script.del e₂ [key] d = _
    simp [Script.del]
  simp only [releaseScript, hg, hd, Script.raised, Script.bulk, Script.integer, if_true]

/-- The script does nothing where another string stands under the key, or nothing. -/
theorem releaseScript_other (hs : ∀ en, live e₁.now d key = some en → ∃ b, en.data = .string b)
    (h : ∀ exp, live e₁.now d key ≠ some ⟨.string token, exp⟩) :
    releaseScript e₁ e₂ key token d = (purge e₁.now key d, Script.integer 0) := by
  have hg : Script.dispatchInner e₁ "GET" [key] d =
      readAs .string e₁.now key (.ok .nil) Script.wrongType Script.bulk d := rfl
  cases hl : live e₁.now d key with
  | none =>
    rw [readAs_absent hl] at hg
    simp only [releaseScript, hg, Script.raised]
  | some en =>
    obtain ⟨b, hb⟩ := hs en hl
    obtain ⟨x, exp⟩ := en
    dsimp only at hb
    subst hb
    have hf : live e₁.now d key = some ⟨Kind.string.wrap b, exp⟩ := hl
    rw [readAs_found hf] at hg
    have hne : b ≠ token := by
      intro hb
      exact h exp (hb ▸ hl)
    simp only [releaseScript, hg, Script.raised, Script.bulk, if_neg hne]

end Commands

namespace Locks

variable {S L A : Type} [Score S] [DecidableEq L] {lk : Locks L A} {s s' : LockState S L}
  {a b : A} {l : L} {e e₁ e₂ : Env} {t : Instant}

/-! ## What a step does -/

theorem trySet_free {ttl : Option Duration} (h : live e.now s.data lk.name = none) :
    lk.trySet a e ttl s = (⟨e.now, s.data.insert lk.name (.new e.now (lk.token a) ttl),
      Function.update s.held (lk.lockOf a) (some (lk.token a))⟩, .acquired) := by
  rw [trySet, set_nx_free h, if_pos rfl]

theorem trySet_live {ttl : Option Duration} {en : ValueEntry S}
    (h : live e.now s.data lk.name = some en) :
    lk.trySet a e ttl s = ({ s with now := e.now }, .refused) := by
  rw [trySet, set_nx_live h, if_neg Bool.false_ne_true]

/-- No attempt succeeds while something is live under the key. -/
theorem attempt_live (lk : Locks L A) (a : A) {en : ValueEntry S}
    (h : live e.now s.data lk.name = some en) :
    (lk.attempt a e s).1 = { s with now := e.now } ∧ (lk.attempt a e s).2 ≠ .acquired := by
  unfold attempt
  split
  · rw [trySet_live h]
    exact ⟨rfl, by simp⟩
  · split
    · exact ⟨rfl, by simp⟩
    · rw [trySet_live h]
      exact ⟨rfl, by simp⟩

/-- Where nothing is, an attempt sets the key, unless it raises. -/
theorem attempt_free (lk : Locks L A) (a : A) (h : live e.now s.data lk.name = none) :
    lk.attempt a e s = (⟨e.now, s.data.insert lk.name (lk.entry a e.now),
        Function.update s.held (lk.lockOf a) (some (lk.token a))⟩, .acquired) ∨
      lk.attempt a e s = ({ s with now := e.now }, .typeError) := by
  unfold attempt
  split
  next hp =>
    left
    rw [trySet_free h, entry, deadline, hp]
    rfl
  next n hp =>
    unfold extractExpiry
    split_ifs
    · left
      simp only [trySet_free h, entry, deadline, hp]
      rfl
    · right
      rfl

theorem release_unlocked (hl : s.held l = none) :
    lk.release l e₁ e₂ s = ({ s with now := e₂.now }, .error .unlocked) := by
  simp only [release, hl]

/-- A release by a lock whose token is not the one under the key. -/
theorem release_other {token : Bytes} (hl : s.held l = some token)
    (hs : ∀ en, live e₁.now s.data lk.name = some en → ∃ b, en.data = .string b)
    (h : ∀ exp, live e₁.now s.data lk.name ≠ some ⟨.string token, exp⟩) :
    lk.release l e₁ e₂ s =
      (⟨e₂.now, purge e₁.now lk.name s.data, s.held⟩, .error .notOwned) := by
  simp only [release, hl, releaseScript_other hs h, Script.integer, zero_ne_one, if_false]

/-- A release by the lock whose token is under the key: it succeeds if the key has not expired
between the two calls. -/
theorem release_own {token : Bytes} {exp : Option Instant} (hl : s.held l = some token)
    (h : live e₁.now s.data lk.name = some ⟨.string token, exp⟩) :
    lk.release l e₁ e₂ s = if (live e₂.now s.data lk.name).isSome then
        (⟨e₂.now, s.data.erase lk.name, Function.update s.held l none⟩, .ok ())
      else (⟨e₂.now, s.data.erase lk.name, s.held⟩, .error .notOwned) := by
  simp only [release, hl, releaseScript_own h, Script.integer]
  cases (live e₂.now s.data lk.name).isSome with
  | false => simp only [Bool.false_eq_true, if_false, zero_ne_one]
  | true => simp only [if_true]

/-- What a step does to the key and to the tokens: an attempt sets the free key, a release by the
lock whose token is there drops it, and any other step leaves both. -/
inductive Does (lk : Locks L A) (s : LockState S L) : LockEvent L A → LockState S L → Prop where
  | sets {a : A} {t : Instant} (hle : s.now ≤ t) (hf : live t s.data lk.name = none) :
      Does lk s (.attempted a .acquired) ⟨t, s.data.insert lk.name (lk.entry a t),
        Function.update s.held (lk.lockOf a) (some (lk.token a))⟩
  | drops {l : L} {outcome : Except ReleaseError Unit} {s' : LockState S L} {t : Instant}
      {token : Bytes} {exp : Option Instant} (h₁ : s.now ≤ t) (h₂ : t ≤ s'.now)
      (hl : s.held l = some token) (ht : live t s.data lk.name = some ⟨.string token, exp⟩)
      (hdata : s'.data = s.data.erase lk.name)
      (hheld : ∀ l' t', s'.held l' = some t' → s.held l' = some t')
      (hok : (live s'.now s.data lk.name).isSome = true → outcome = .ok ()) :
      Does lk s (.released l outcome) s'
  | keeps {event : LockEvent L A} {s' : LockState S L} (hle : s.now ≤ s'.now)
      (hheld : s'.held = s.held)
      (hlive : live s'.now s'.data lk.name = live s'.now s.data lk.name)
      (hne : ∀ a, event ≠ .attempted a .acquired) : Does lk s event s'

theorem does_attempt {outcome : Attempt} (hle : s.now ≤ e.now)
    (hr : lk.attempt a e s = (s', outcome)) : lk.Does s (.attempted a outcome) s' := by
  cases hl : live e.now s.data lk.name with
  | some en =>
    obtain ⟨h, hne⟩ := attempt_live lk a hl
    rw [hr] at h hne
    rw [show s' = _ from h]
    refine .keeps hle rfl rfl fun b hb => hne ?_
    injection hb
  | none =>
    rcases attempt_free lk a hl with h | h
    · rw [hr, Prod.mk.injEq] at h
      rw [h.1, h.2]
      exact .sets hle hl
    · rw [hr, Prod.mk.injEq] at h
      rw [h.1, h.2]
      exact .keeps hle rfl rfl (by simp)

theorem does_release {outcome : Except ReleaseError Unit} (hc : lk.Coherent s)
    (h₁ : s.now ≤ e₁.now) (h₂ : e₁.now ≤ e₂.now) (hr : lk.release l e₁ e₂ s = (s', outcome)) :
    lk.Does s (.released l outcome) s' := by
  cases hl : s.held l with
  | none =>
    rw [release_unlocked hl, Prod.mk.injEq] at hr
    rw [← hr.1]
    exact .keeps (h₁.trans h₂) rfl rfl (by simp)
  | some token =>
    by_cases ht : ∃ exp, live e₁.now s.data lk.name = some ⟨.string token, exp⟩
    · obtain ⟨exp, ht⟩ := ht
      rw [release_own hl ht] at hr
      cases hx : (live e₂.now s.data lk.name).isSome with
      | true =>
        rw [if_pos hx, Prod.mk.injEq] at hr
        rw [← hr.1, ← hr.2]
        refine .drops h₁ h₂ hl ht rfl (fun l' t' h' => ?_) fun _ => rfl
        by_cases heq : l' = l
        · subst heq
          simp at h'
        · simpa [heq] using h'
      | false =>
        rw [if_neg (by simp [hx]), Prod.mk.injEq] at hr
        rw [← hr.1, ← hr.2]
        refine .drops h₁ h₂ hl ht rfl (fun _ _ h' => h') fun h' => ?_
        rw [show (live _ s.data lk.name).isSome = false from hx] at h'
        cases h'
    · have hs : ∀ en, live e₁.now s.data lk.name = some en → ∃ b, en.data = .string b :=
        fun en hen => hc.string l token en hl (live_of_later h₁ hen)
      rw [release_other hl hs (fun exp h => ht ⟨exp, h⟩), Prod.mk.injEq] at hr
      rw [← hr.1, ← hr.2]
      refine .keeps (h₁.trans h₂) rfl ?_ (by simp)
      exact ((sameLive_purge e₁.now lk.name s.data).later h₂ lk.name).symm

theorem Step.does {event : LockEvent L A} (hc : lk.Coherent s) (hs : lk.Step s event s') :
    lk.Does s event s' := by
  cases hs with
  | attempt hle hr => exact does_attempt hle hr
  | release h₁ h₂ hr => exact does_release hc h₁ h₂ hr
  | other hle hd => exact .keeps hle rfl hd (by simp)

/-! ## What locks remember -/

omit [DecidableEq L] in
/-- What a lock can remember, and what stands under the key then, survives when nothing new comes
to be remembered and what is live was live before. -/
theorem Coherent.of_subset (hc : lk.Coherent s)
    (hh : ∀ l t, s'.held l = some t → s.held l = some t)
    (hl : ∀ en, live s'.now s'.data lk.name = some en → live s.now s.data lk.name = some en) :
    lk.Coherent s' where
  own := fun l t h => hc.own l t (hh l t h)
  string := fun l t en h hen => hc.string l t en (hh l t h) (hl en hen)

theorem Coherent.does {event : LockEvent L A} (hc : lk.Coherent s) (hs : lk.Does s event s') :
    lk.Coherent s' := by
  cases hs with
  | @sets a t hle hf =>
    constructor
    · intro l token hl
      by_cases heq : l = lk.lockOf a
      · refine ⟨a, heq.symm, ?_⟩
        subst heq
        simpa using hl
      · refine hc.own l token ?_
        simpa [heq] using hl
    · intro l token en _ hen
      dsimp only at hen
      rw [live_insert, if_pos rfl, Option.filter_eq_some_iff, Option.some.injEq] at hen
      exact ⟨lk.token a, by rw [← hen.1, entry]⟩
  | drops h₁ h₂ hl ht hdata hheld hok =>
    refine hc.of_subset hheld fun en hen => ?_
    rw [hdata, live_erase, if_pos rfl] at hen
    cases hen
  | keeps hle hheld hlive =>
    refine hc.of_subset (fun l t h => hheld ▸ h) fun en hen => ?_
    rw [hlive] at hen
    exact live_of_later hle hen

omit [DecidableEq L] in
/-- Locks that remember nothing yet. -/
theorem Coherent.init (h : ∀ l, s.held l = none) : lk.Coherent s where
  own := fun l t hl => by rw [h l] at hl; cases hl
  string := fun l t en hl => by rw [h l] at hl; cases hl

theorem Runs.coherent {events : List (LockEvent L A)} (hr : lk.Runs s events s')
    (hc : lk.Coherent s) : lk.Coherent s' := by
  induction hr with
  | nil => exact hc
  | snoc _ hs ih => exact ih.does (hs.does ih)

/-! ## What a holder keeps -/

/-- One step of a run in which the holder does not release. Two calls of `acquire` with one token
are one call, so a lock that drops the key is the holder's. -/
theorem Holder.does {event : LockEvent L A} (hd : Function.Injective lk.token)
    (hc : lk.Coherent s) (hh : lk.Holder a t s) (hs : lk.Does s event s')
    (hrel : event ≠ .released (lk.lockOf a) (.ok ())) : lk.Holder a t s' := by
  intro hx
  cases hs with
  | sets hle hf =>
    have hl := (hh (not_expired_before hle hx)).2
    rw [live_stays hl hx] at hf
    cases hf
  | @drops l outcome _ t' token exp h₁ h₂ hl ht hdata hheld hok =>
    exfalso
    have hx' := not_expired_before h₂ hx
    have hlive := (hh (not_expired_before h₁ hx')).2
    have htoken : token = lk.token a := by
      rw [live_stays hlive hx'] at ht
      simpa [entry, eq_comm] using congrArg (Option.map ValueEntry.data) ht
    obtain ⟨b, hb, hbt⟩ := hc.own l token hl
    have hba : b = a := hd (hbt.trans htoken)
    refine hrel ?_
    rw [hok (by rw [live_stays hlive hx]; rfl), ← hb, hba]
  | keeps hle hheld hlive =>
    obtain ⟨hl, hen⟩ := hh (not_expired_before hle hx)
    rw [hheld, hlive]
    exact ⟨hl, live_stays hen hx⟩

theorem Runs.holder {events : List (LockEvent L A)} (hd : Function.Injective lk.token)
    (hr : lk.Runs s events s') (hc : lk.Coherent s) (hh : lk.Holder a t s)
    (hrel : .released (lk.lockOf a) (.ok ()) ∉ events) : lk.Holder a t s' := by
  induction hr with
  | nil => exact hh
  | snoc hr hs ih =>
    have hcs := hr.coherent hc
    refine (ih fun h => hrel (List.mem_append_left _ h)).does hd hcs (hs.does hcs) ?_
    intro h
    exact hrel (List.mem_append_right _ (h ▸ List.mem_singleton_self _))

/-- An acquire call that returns is a holder from then on. -/
theorem Does.holder (hs : lk.Does s (.attempted a .acquired) s') : lk.Holder a s'.now s' := by
  cases hs with
  | sets hle hf =>
    intro hx
    refine ⟨Function.update_self .., ?_⟩
    rw [live_insert, if_pos rfl, Option.filter_some, hx]
    rfl
  | keeps _ _ _ hne => exact absurd rfl (hne a)

/-- A lock whose token is not under the key cannot release, and changes nothing that is live. -/
theorem Coherent.release_stranger (hc : lk.Coherent s) (h₁ : s.now ≤ e₁.now)
    (h₂ : e₁.now ≤ e₂.now)
    (h : ∀ token exp, s.held l = some token →
      live e₁.now s.data lk.name ≠ some ⟨.string token, exp⟩) :
    (∃ message, (lk.release l e₁ e₂ s).2 = .error (.lockError message)) ∧
      (lk.release l e₁ e₂ s).1.held = s.held ∧
      SameLive e₂.now s.data (lk.release l e₁ e₂ s).1.data := by
  cases hl : s.held l with
  | none =>
    rw [release_unlocked hl]
    exact ⟨⟨_, rfl⟩, rfl, .refl⟩
  | some token =>
    have hs : ∀ en, live e₁.now s.data lk.name = some en → ∃ b, en.data = .string b :=
      fun en hen => hc.string l token en hl (live_of_later h₁ hen)
    rw [release_other hl hs fun exp => h token exp hl]
    exact ⟨⟨_, rfl⟩, rfl, (sameLive_purge e₁.now lk.name s.data).later h₂⟩

end Locks

/-- Mutual exclusion of the locks on one key, in any run from a state in which none is locked. After
an acquire call has returned `True`, as long as its lock does not release and its time is not over,
every attempt of any acquire call fails. And a release by a lock whose token is not the one under
the key raises `LockError`, while every live entry and every lock's token stay. -/
theorem lock_mutual_exclusion {S L A : Type} [Score S] [DecidableEq L] (lk : Locks L A)
    (hd : Function.Injective lk.token) {s₀ s : LockState S L} {past : List (LockEvent L A)}
    (h₀ : ∀ l, s₀.held l = none) (hrun : lk.Runs s₀ past s) :
    (∀ a s₁ since s₂ b outcome s₃, lk.Step s (.attempted a .acquired) s₁ →
      lk.Runs s₁ since s₂ → .released (lk.lockOf a) (.ok ()) ∉ since →
      lk.Step s₂ (.attempted b outcome) s₃ →
      (∀ n, lk.px a = some n → s₃.now < s₁.now + Duration.fromMillis n.toNat) →
      outcome ≠ .acquired) ∧
    ∀ l e₁ e₂, s.now ≤ e₁.now → e₁.now ≤ e₂.now →
      (∀ token exp, s.held l = some token →
        live e₁.now s.data lk.name ≠ some ⟨.string token, exp⟩) →
      (∃ message, (lk.release l e₁ e₂ s).2 = .error (.lockError message)) ∧
        (lk.release l e₁ e₂ s).1.held = s.held ∧
        SameLive e₂.now s.data (lk.release l e₁ e₂ s).1.data := by
  have hc := hrun.coherent (.init h₀)
  refine ⟨?_, fun l e₁ e₂ h₁ h₂ => hc.release_stranger h₁ h₂⟩
  intro a s₁ since s₂ b outcome s₃ hacq hsince hrel hnext htime houtcome
  have hdoes := hacq.does hc
  have hc₁ := hc.does hdoes
  have hh := hsince.holder hd hc₁ hdoes.holder hrel
  have hx : (lk.entry a s₁.now : ValueEntry S).isExpired s₃.now = false := by
    unfold ValueEntry.isExpired Locks.entry Locks.deadline
    cases hpx : lk.px a with
    | none => rfl
    | some n => simpa using htime n hpx
  have hnext' := hnext.does (hsince.coherent hc₁)
  subst houtcome
  -- the holder's entry is still there at the next attempt, which would have found the key free
  cases hnext' with
  | sets hle hf =>
    have hl := (hh (not_expired_before hle hx)).2
    rw [live_stays hl hx] at hf
    cases hf
  | keeps _ _ _ hne => exact hne b rfl

/-- Two locks on one key with a second each: the first has acquired it, half a second later the
second one is refused, and its release raises. -/
def twoLocks : Locks Bool Bool where
  name := ascii "job"
  lockOf a := a
  token a := ascii (if a then "first" else "second")
  px _ := some 1000

theorem twoLocks_exclude :
    let s₀ : LockState ℤ Bool := ⟨0, ∅, fun _ => none⟩
    let s₁ := (twoLocks.attempt true ⟨0, 0, .byKey⟩ s₀).1
    (twoLocks.attempt false ⟨500000000, 0, .byKey⟩ s₁).2 ≠ .acquired ∧
      ∃ message, (twoLocks.release false ⟨500000000, 0, .byKey⟩ ⟨500000001, 0, .byKey⟩ s₁).2 =
        .error (.lockError message) := by
  intro s₀ s₁
  have h₀ : ∀ l, s₀.held l = none := fun _ => rfl
  have hd : Function.Injective twoLocks.token := by decide +kernel
  have hacq : twoLocks.Step s₀ (.attempted true .acquired) s₁ :=
    .attempt (e := ⟨0, 0, .byKey⟩) (le_refl _) (Prod.ext rfl (by decide +kernel))
  have hnow : s₁.now = 0 := rfl
  have hrun : twoLocks.Runs s₀ ([] ++ [.attempted true .acquired]) s₁ := .snoc .nil hacq
  constructor
  · refine (lock_mutual_exclusion twoLocks hd h₀ .nil).1 true s₁ [] s₁ false _ _
      hacq .nil (by simp) (.attempt (e := ⟨500000000, 0, .byKey⟩) (by decide) rfl) ?_
    intro n hn
    have hn : n = 1000 := by simpa [twoLocks, eq_comm] using hn
    subst hn
    decide +kernel
  · refine ((lock_mutual_exclusion twoLocks hd h₀ hrun).2 false
      ⟨500000000, 0, .byKey⟩ ⟨500000001, 0, .byKey⟩ (by decide) (by decide) ?_).1
    intro token exp htoken
    cases htoken

end BurnerRedis
