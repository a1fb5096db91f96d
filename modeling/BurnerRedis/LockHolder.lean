import BurnerRedis.Lock

/-!
# Who holds a lock

From a run alone one can tell who holds the lock: the acquire call that has returned `True`, whose
lock has not released since, and whose time is not over (`Locks.HeldBy`). There is one such call at
most, and the store goes by it: an attempt is refused only because of it, and a release returns only
to it (`lock_follows_holder`). So no lock is ever stuck: with its last holder gone it is free.
-/

namespace BurnerRedis

namespace Locks

variable {S L A : Type} [Score S] [DecidableEq L]

/-- At the clock reading `now`, after a run from `s₀` to `s`, the acquire call `a` holds the lock. -/
def HeldBy (lk : Locks L A) (s₀ s : LockState S L) (a : A) (now : Instant) : Prop :=
  ∃ past s₁ s₂ since, lk.Runs s₀ past s₁ ∧ lk.Step s₁ (.attempted a .acquired) s₂ ∧
    lk.Runs s₂ since s ∧ .released (lk.lockOf a) (.ok ()) ∉ since ∧
    (lk.entry a s₂.now : ValueEntry S).isExpired now = false

variable {lk : Locks L A} {s₀ s s' : LockState S L} {a b : A} {l : L} {e e₁ e₂ : Env}
  {now : Instant}

/-- A release that succeeds leaves nothing under the key. -/
theorem release_ok (hc : lk.Coherent s) (h₁ : s.now ≤ e₁.now)
    (hr : (lk.release l e₁ e₂ s).2 = .ok ()) :
    ∃ token exp, s.held l = some token ∧
      live e₁.now s.data lk.name = some ⟨.string token, exp⟩ ∧
      (live e₂.now s.data lk.name).isSome = true ∧
      (lk.release l e₁ e₂ s).1.data = s.data.erase lk.name := by
  cases hl : s.held l with
  | none =>
    rw [release_unlocked hl] at hr
    cases hr
  | some token =>
    by_cases ht : ∃ exp, live e₁.now s.data lk.name = some ⟨.string token, exp⟩
    · obtain ⟨exp, ht⟩ := ht
      rw [release_own hl ht] at hr ⊢
      cases hx : (live e₂.now s.data lk.name).isSome with
      | true =>
        rw [if_pos rfl]
        exact ⟨token, exp, rfl, ht, rfl, rfl⟩
      | false =>
        rw [hx] at hr
        cases hr
    · have hs : ∀ en, live e₁.now s.data lk.name = some en → ∃ b, en.data = .string b :=
        fun en hen => hc.string l token en hl (live_of_later h₁ hen)
      rw [release_other hl hs fun exp h => ht ⟨exp, h⟩] at hr
      cases hr

/-- A step after which something is live under the key is no successful release. -/
theorem Step.not_released {event : LockEvent L A} (hc : lk.Coherent s) (hs : lk.Step s event s')
    {en : ValueEntry S} (hen : live s'.now s'.data lk.name = some en) (l : L) :
    event ≠ .released l (.ok ()) := by
  rintro rfl
  cases hs with
  | @release _ e₁ e₂ _ _ h₁ h₂ hr =>
    have hok : (lk.release l e₁ e₂ s).2 = .ok () := by rw [hr]
    obtain ⟨token, exp, -, -, -, hdata⟩ := release_ok hc h₁ hok
    rw [hr] at hdata
    dsimp only at hdata
    rw [hdata, live_erase, if_pos rfl] at hen
    cases hen

/-- What is live under the key is what a holder has set. -/
theorem Runs.heldBy (h₀ : ∀ l, s₀.held l = none) (hfree : live s₀.now s₀.data lk.name = none)
    {past : List (LockEvent L A)} (hrun : lk.Runs s₀ past s) {en : ValueEntry S}
    (hen : live s.now s.data lk.name = some en) :
    ∃ a past₁ s₁ s₂ since, lk.Runs s₀ past₁ s₁ ∧ lk.Step s₁ (.attempted a .acquired) s₂ ∧
      lk.Runs s₂ since s ∧ .released (lk.lockOf a) (.ok ()) ∉ since ∧ en = lk.entry a s₂.now := by
  induction hrun generalizing en with
  | nil =>
    rw [hfree] at hen
    cases hen
  | @snoc past event s' s'' hruns hs ih =>
    have hc := hruns.coherent (.init h₀)
    have hnot := hs.not_released hc hen
    cases hs.does hc with
    | @sets a t hle hf =>
      -- the attempt has just set the key
      refine ⟨a, past, s', _, [], hruns, hs, .nil, List.not_mem_nil, ?_⟩
      dsimp only at hen
      rw [live_insert, if_pos rfl, Option.filter_eq_some_iff, Option.some.injEq] at hen
      exact hen.1.symm
    | drops h₁ h₂ hl ht hdata hheld hok =>
      rw [hdata, live_erase, if_pos rfl] at hen
      cases hen
    | keeps hle hheld hlive =>
      rw [hlive] at hen
      obtain ⟨a, past₁, s₁, s₂, since, hpast, hacq, hsince, hrel, rfl⟩ :=
        ih (live_of_later hle hen)
      refine ⟨a, past₁, s₁, s₂, since ++ [event], hpast, hacq, .snoc hsince hs, ?_, rfl⟩
      intro hmem
      rcases List.mem_append.mp hmem with hmem | hmem
      · exact hrel hmem
      · exact hnot _ (List.mem_singleton.mp hmem).symm

/-- Nobody holds the lock where nothing is live, and one who does is who has set what is live. -/
theorem HeldBy.live (hd : Function.Injective lk.token) (h₀ : ∀ l, s₀.held l = none)
    (hle : s.now ≤ now) (h : lk.HeldBy s₀ s a now) :
    s.held (lk.lockOf a) = some (lk.token a) ∧
      ∃ exp, BurnerRedis.live now s.data lk.name = some ⟨.string (lk.token a), exp⟩ := by
  obtain ⟨past, s₁, s₂, since, hpast, hacq, hsince, hrel, hx⟩ := h
  have hc := hpast.coherent (.init h₀)
  have hdoes := hacq.does hc
  have hh := hsince.holder hd (hc.does hdoes) hdoes.holder hrel
  obtain ⟨hheld, hlive⟩ := hh (not_expired_before hle hx)
  exact ⟨hheld, _, live_stays hlive hx⟩

theorem heldBy_of_live (h₀ : ∀ l, s₀.held l = none)
    (hfree : BurnerRedis.live s₀.now s₀.data lk.name = none) {past : List (LockEvent L A)}
    (hrun : lk.Runs s₀ past s) (hle : s.now ≤ now) {en : ValueEntry S}
    (hen : BurnerRedis.live now s.data lk.name = some en) :
    ∃ a, lk.HeldBy s₀ s a now ∧ en.data = .string (lk.token a) := by
  obtain ⟨a, past₁, s₁, s₂, since, hpast, hacq, hsince, hrel, rfl⟩ :=
    hrun.heldBy h₀ hfree (live_of_later hle hen)
  exact ⟨a, ⟨past₁, s₁, s₂, since, hpast, hacq, hsince, hrel, (live_eq_some.mp hen).2⟩, rfl⟩

end Locks

/-- In any run from a state in which no lock is locked and the key is free, one acquire call holds the
lock at most. An attempt that does not raise succeeds if and only if none does, and a release
succeeds if and only if its lock is the holder's, to the end of the release. -/
theorem lock_follows_holder {S L A : Type} [Score S] [DecidableEq L] (lk : Locks L A)
    (hd : Function.Injective lk.token) {s₀ s : LockState S L} {past : List (LockEvent L A)}
    (h₀ : ∀ l, s₀.held l = none) (hfree : live s₀.now s₀.data lk.name = none)
    (hrun : lk.Runs s₀ past s) :
    (∀ a b now, s.now ≤ now → lk.HeldBy s₀ s a now → lk.HeldBy s₀ s b now → a = b) ∧
    (∀ b e, s.now ≤ e.now → (lk.attempt b e s).2 ≠ .typeError →
      ((lk.attempt b e s).2 = .acquired ↔ ¬ ∃ a, lk.HeldBy s₀ s a e.now)) ∧
    ∀ l e₁ e₂, s.now ≤ e₁.now → e₁.now ≤ e₂.now →
      ((lk.release l e₁ e₂ s).2 = .ok () ↔ ∃ a, lk.lockOf a = l ∧ lk.HeldBy s₀ s a e₂.now) := by
  have hc := hrun.coherent (.init h₀)
  refine ⟨fun a b now hle ha hb => ?_, fun b e hle hok => ?_, fun l e₁ e₂ h₁ h₂ => ?_⟩
  · obtain ⟨-, exp, hlive⟩ := ha.live hd h₀ hle
    obtain ⟨-, exp', hlive'⟩ := hb.live hd h₀ hle
    rw [hlive, Option.some.injEq, ValueEntry.mk.injEq, ValueData.string.injEq] at hlive'
    exact hd hlive'.1
  · constructor
    · rintro hacq ⟨a, ha⟩
      obtain ⟨-, exp, hlive⟩ := ha.live hd h₀ hle
      exact (Locks.attempt_live lk b hlive).2 hacq
    · intro hnone
      cases hlive : live e.now s.data lk.name with
      | some en =>
        obtain ⟨a, ha, -⟩ := Locks.heldBy_of_live h₀ hfree hrun hle hlive
        exact absurd ⟨a, ha⟩ hnone
      | none =>
        rcases Locks.attempt_free lk b hlive with h | h
        · rw [h]
        · rw [h] at hok
          exact absurd rfl hok
  · constructor
    · intro hr
      obtain ⟨token, exp, hl, ht, hsome, -⟩ := Locks.release_ok hc h₁ hr
      obtain ⟨en, hen⟩ := Option.isSome_iff_exists.mp hsome
      obtain ⟨a, ha, hdata⟩ := Locks.heldBy_of_live h₀ hfree hrun (h₁.trans h₂) hen
      -- the lock that releases has the token of the holder, so it is the holder's
      obtain ⟨b, rfl, rfl⟩ := hc.own l token hl
      rw [live_of_later h₂ hen, Option.some.injEq] at ht
      rw [ht, ValueData.string.injEq] at hdata
      exact ⟨a, congrArg lk.lockOf (hd hdata).symm, ha⟩
    · rintro ⟨a, rfl, ha⟩
      obtain ⟨hheld, exp, hlive⟩ := ha.live hd h₀ (h₁.trans h₂)
      rw [Locks.release_own hheld (live_of_later h₂ hlive), if_pos (by rw [hlive]; rfl)]

/-- The first of the two locks has acquired the key: half a second later the release of the second
one would succeed if and only if it were the holder's. -/
theorem twoLocks_follow :
    let s₀ : LockState ℤ Bool := ⟨0, ∅, fun _ => none⟩
    let s₁ := (twoLocks.attempt true ⟨0, 0, .byKey⟩ s₀).1
    (twoLocks.release false ⟨500000000, 0, .byKey⟩ ⟨500000001, 0, .byKey⟩ s₁).2 = .ok () ↔
      ∃ a, twoLocks.lockOf a = false ∧ twoLocks.HeldBy s₀ s₁ a 500000001 := by
  intro s₀ s₁
  have hacq : twoLocks.Step s₀ (.attempted true .acquired) s₁ :=
    .attempt (e := ⟨0, 0, .byKey⟩) (le_refl _) (Prod.ext rfl (by decide +kernel))
  have hd : Function.Injective twoLocks.token := by decide +kernel
  exact (lock_follows_holder twoLocks hd (fun _ => rfl) rfl (.snoc .nil hacq)).2.2 false
    ⟨500000000, 0, .byKey⟩ ⟨500000001, 0, .byKey⟩ (by decide) (by decide)

end BurnerRedis
