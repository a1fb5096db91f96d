import BurnerRedis.Blocking

/-!
# Blocking list pops lose no wakeup

BLPOP, BRPOP and BLMOVE wait for a list to get an element. A list that was empty or missing gets one
only by commands with the effect `grow`, which wake the clients on lists, so that the rules of
`Notify` hold (`listRules_sound`). The exception is a script that makes a list grow and then panics:
EVAL ends before it wakes anyone (`pushed_and_panicked_lost`).
-/

open Notify

namespace BurnerRedis

variable {S : Type} [Score S]

/-! ## Requests -/

/-- A blocking call on lists. -/
inductive ListRequest where
  | blpop (keys : List Bytes)
  | brpop (keys : List Bytes)
  | blmove (src dst : Bytes) (srcFrom dstTo : ListEnd)

/-- The keys whose lists the call pops from. -/
def ListRequest.sources : ListRequest → List Bytes
  | .blpop keys => keys
  | .brpop keys => keys
  | .blmove src _ _ _ => [src]

/-- One poll: whether it finds an element. -/
def ListRequest.poll (e : Env) (d : Data S) : ListRequest → Data S × Except StoreError Bool
  | .blpop keys => ((Store.blpopPoll e keys d).1, (Store.blpopPoll e keys d).2.map Option.isSome)
  | .brpop keys => ((Store.brpopPoll e keys d).1, (Store.brpopPoll e keys d).2.map Option.isSome)
  | .blmove src dst srcFrom dstTo =>
    ((Store.lmoveAtomic e src dst srcFrom dstTo d).1,
      (Store.lmoveAtomic e src dst srcFrom dstTo d).2.1.map Option.isSome)

/-- The key holds a live list with an element. -/
def HasElement (now : Instant) (d : Data S) (key : Bytes) : Prop :=
  ∃ l, liveData now d key = some (.list l) ∧ l ≠ []

/-- One of the sources has an element. -/
def ListRequest.Ready (q : ListRequest) (now : Instant) (d : Data S) : Prop :=
  ∃ key ∈ q.sources, HasElement now d key

/-- The clients of `list_notify`; `ok` limits what may happen beside them. -/
def listRules (sha1 : String → String) (κ : Type)
    (ok : Sys (World S) κ ListRequest → Event S → Prop) : Rules (World S) κ ListRequest where
  write s w notifies := ∃ ev, ok s ev ∧
    w = (ev.run sha1 s.world).1 ∧ notifies = (ev.run sha1 s.world).2.list
  pollNone q w w' := ∃ wall walk,
    w' = { w with store := ⟨(q.poll ⟨w.now, wall, walk⟩ w.store.data).1, w.store.scripts⟩ } ∧
      (q.poll ⟨w.now, wall, walk⟩ w.store.data).2 = .ok false
  ready q w := q.Ready w.now w.store.data
  stopped w := w.shutdown = true

/-! ## Writes -/

theorem evolves_list {p : Set Effect} (hg : .grow ∉ p) (old : Option (ValueData S))
    (x : ValueData S) (ev : Evolves p old x) (hx : ∃ l, x = .list l ∧ l ≠ []) :
    ∃ y, old = some y ∧ ∃ l, y = .list l ∧ l ≠ [] := by
  obtain ⟨l, rfl, hne⟩ := hx
  cases ev with
  | list _ h =>
    rcases h hne with hgrow | ⟨l₀, hold, hne₀⟩
    · exact absurd hgrow hg
    · exact ⟨_, hold, l₀, rfl, hne₀⟩

/-- Without `grow` an element that is there was there before. -/
theorem Moves.hasElement {p : Set Effect} (hg : .grow ∉ p) {m m' : Instant × Data S}
    (mv : Moves p m m') {key : Bytes} (h : HasElement m'.1 m'.2 key) : HasElement m.1 m.2 key := by
  obtain ⟨l, hl, hne⟩ := h
  obtain ⟨y, hy, l₀, rfl, hne₀⟩ := mv.liveData_back (evolves_list hg) hl ⟨l, rfl, hne⟩
  exact ⟨l₀, hy, hne₀⟩

theorem Moves.ready {p : Set Effect} (hg : .grow ∉ p) {m m' : Instant × Data S} (mv : Moves p m m')
    {q : ListRequest} (h : q.Ready m'.1 m'.2) : q.Ready m.1 m.2 := by
  obtain ⟨key, hkey, he⟩ := h
  exact ⟨key, hkey, mv.hasElement hg he⟩

/-! ## Polls -/

/-- A list with an element gives one up. -/
theorem popEnd_ne_none {side : ListEnd} {l : List Bytes} (hl : l ≠ []) : popEnd side l ≠ none := by
  cases side with
  | left => simpa [popEnd] using hl
  | right => simpa [popEnd] using hl

theorem hasElement_purge {now : Instant} {d : Data S} {key k : Bytes} :
    HasElement now (purge now key d) k ↔ HasElement now d k := by
  unfold HasElement
  rw [liveData_purge]

/-- A scan that finds nothing has seen every key without an element. -/
theorem pollAs_none {side : ListEnd} {e : Env} {keys : List Bytes} {d : Data S}
    (h : (Store.pollAs side e keys d).2 = .ok none) :
    ∀ key ∈ keys, ¬ HasElement e.now (Store.pollAs side e keys d).1 key := by
  have hback : ∀ key, HasElement e.now (Store.pollAs side e keys d).1 key →
      HasElement e.now d key := fun key hk =>
    (Store.pollAs_edits (p := ∅)).moves.hasElement (Set.notMem_empty _) hk
  have hkeys : ∀ key ∈ keys, ¬ HasElement e.now d key := by
    clear hback
    induction keys generalizing d with
    | nil => exact fun key hk => absurd hk List.not_mem_nil
    | cons k keys ih =>
      -- the first key is missing or its list is empty, else the scan would have ended there
      have hfirst : ¬ HasElement e.now d k ∧
          (Store.pollAs side e keys (purge e.now k d)).2 = .ok none := by
        unfold Store.pollAs at h
        dsimp only at h
        cases look Kind.list e.now k d with
        | absent hl =>
          rw [getElem?_purge, hl] at h
          refine ⟨?_, h⟩
          rintro ⟨l, hlive, -⟩
          rw [liveData, hl] at hlive
          cases hlive
        | wrong en hl hd =>
          rw [getElem?_purge, hl] at h
          simp only [hd] at h
          cases h
        | found l exp hl =>
          rw [getElem?_purge, hl] at h
          simp only [Kind.get?_wrap] at h
          cases hpop : popEnd side l with
          | some x =>
            rw [hpop] at h
            cases h
          | none =>
            rw [hpop] at h
            refine ⟨?_, h⟩
            rintro ⟨l', hlive, hne⟩
            rw [liveData, hl] at hlive
            cases hlive
            exact popEnd_ne_none hne hpop
      intro key hk
      rcases List.mem_cons.mp hk with rfl | hk
      · exact hfirst.1
      · exact fun he => ih hfirst.2 key hk (hasElement_purge.mpr he)
  exact fun key hk he => hkeys key hk (hback key he)

/-- A move that finds nothing has seen its source without an element, and has woken no one. -/
theorem lmoveAtomic_none {e : Env} {src dst : Bytes} {srcFrom dstTo : ListEnd} {d : Data S}
    (h : (Store.lmoveAtomic e src dst srcFrom dstTo d).2.1 = .ok none) :
    (Store.lmoveAtomic e src dst srcFrom dstTo d).1 = purgePair e.now src dst d ∧
      ¬ HasElement e.now d src := by
  unfold Store.lmoveAtomic Store.moveAs at h ⊢
  dsimp only at h ⊢
  rw [getElem?_purgePair_src] at h ⊢
  cases look Kind.list e.now src d with
  | absent hl =>
    rw [hl]
    refine ⟨rfl, ?_⟩
    rintro ⟨l, hlive, -⟩
    rw [liveData, hl] at hlive
    cases hlive
  | wrong en hl hd =>
    rw [hl] at h
    simp only [hd] at h
    cases h
  | found l exp hl =>
    rw [hl] at h ⊢
    simp only [Kind.get?_wrap] at h ⊢
    cases hpop : popEnd srcFrom l with
    | none =>
      refine ⟨rfl, ?_⟩
      rintro ⟨l', hlive, hne⟩
      rw [liveData, hl] at hlive
      cases hlive
      exact popEnd_ne_none hne hpop
    | some x =>
      rw [hpop] at h
      dsimp only at h
      split_ifs at h
      unfold Store.pushMoved at h
      split at h
      · cases h
      · split at h <;> cases h

/-- A poll edits the data without `grow` when it finds nothing, and then no source has an element. -/
theorem ListRequest.poll_none {q : ListRequest} {e : Env} {d : Data S}
    (h : (q.poll e d).2 = .ok false) :
    Edits e.now ∅ d (q.poll e d).1 ∧ ∀ key ∈ q.sources, ¬ HasElement e.now (q.poll e d).1 key := by
  have hnone : ∀ {α : Type} {r : Except StoreError (Option α)},
      r.map Option.isSome = .ok false → r = .ok none := by
    intro α r hr
    match r, hr with
    | .ok none, _ => rfl
  cases q with
  | blpop keys => exact ⟨Store.pollAs_edits, pollAs_none (hnone h)⟩
  | brpop keys => exact ⟨Store.pollAs_edits, pollAs_none (hnone h)⟩
  | blmove src dst srcFrom dstTo =>
    obtain ⟨hd, hsrc⟩ := lmoveAtomic_none (hnone h)
    unfold ListRequest.poll
    rw [hd]
    refine ⟨purgePair_edits, fun key hk he => ?_⟩
    rw [List.mem_singleton.mp hk] at he
    exact hsrc ((purgePair_edits (p := ∅)).moves.hasElement (Set.notMem_empty _) he)

/-! ## The rules -/

theorem listRules_sound (sha1 : String → String) (κ : Type) :
    (listRules (S := S) sha1 κ (SilencesNoOne .grow ListRequest.Ready)).Sound where
  write_ready := by
    rintro s w ⟨ev, hok, rfl, hquiet⟩ hn c hb hr
    exact ev.back (p := {.grow}ᶜ) (fun mv => mv.ready (by simp)) (fun y _ => by simp [em])
      (by simp [silentEffects]) (grow_not_mem hquiet.symm) (hok hn c hb) hr
  write_stopped := by
    rintro s w ⟨ev, -, rfl, hquiet⟩ hs
    refine (Event.run_shutdown hs).resolve_right fun hl => ?_
    rw [hl.2] at hquiet
    cases hquiet
  poll_not_ready := by
    rintro q w w' ⟨wall, walk, rfl, hnone⟩ ⟨key, hkey, he⟩
    exact (ListRequest.poll_none hnone).2 key hkey he
  poll_ready := by
    rintro q w w' ⟨wall, walk, rfl, hnone⟩ q' hr
    exact (ListRequest.poll_none hnone).1.moves.ready (Set.notMem_empty _) hr
  poll_stopped := by
    rintro q w w' ⟨wall, walk, rfl, hnone⟩ hs
    exact hs

/-- A client that pops from the list `l`. -/
def popper : ListRequest := .blpop [ascii "l"]

/-- The world after a poll of the client. -/
def popperPolled (w : World ℤ) : World ℤ :=
  { w with store := ⟨(popper.poll ⟨w.now, 0, .byKey⟩ w.store.data).1, w.store.scripts⟩ }

/-- A script pushes to `l`. -/
def scriptPush : Event ℤ :=
  .act (.eval "push" [⟨0, 0, .byKey, "RPUSH", [ascii "l", ascii "x"], false⟩])

/-- The client waits, a script pushes, another party pops, and the client wakes and waits again. -/
def popperOutrun : World ℤ :=
  popperPolled (worldAfter (.act (.op 0 .byKey (.lpop (ascii "l") none)))
    (worldAfter scriptPush (popperPolled freshStore)))

theorem popperOutrun_reached :
    Reaches (listRules id Unit (SilencesNoOne .grow ListRequest.Ready))
      (waiting popper popperOutrun false 0) := by
  have hfirst : (popper.poll ⟨1000000000, 0, .byKey⟩ freshStore.store.data).2 = .ok false :=
    eq_ok_of_toOption (by decide +kernel)
  have hpush : true = (scriptPush.run id (popperPolled freshStore)).2.list := by decide +kernel
  have hagain : (popper.poll ⟨1000000000, 0, .byKey⟩
      (worldAfter (.act (.op 0 .byKey (.lpop (ascii "l") none)))
        (worldAfter scriptPush (popperPolled freshStore))).store.data).2 = .ok false :=
    eq_ok_of_toOption (by decide +kernel)
  have hwaits := reaches_waiting (R := listRules id Unit (SilencesNoOne .grow ListRequest.Ready))
    (w := freshStore) ⟨0, .byKey, rfl, hfirst⟩ Bool.false_ne_true
  have hpushed := hwaits.write_waiting (b := true)
    ⟨scriptPush, fun _ _ _ => Script.not_silenced_single, rfl, hpush⟩
  have hpopped := hpushed.write_waiting (b := false)
    ⟨.act (.op 0 .byKey (.lpop (ascii "l") none)), fun _ _ _ => id, rfl, rfl⟩
  exact hpopped.notify_waiting.wake_waiting ⟨0, .byKey, rfl, hagain⟩ Bool.false_ne_true

/-- A script pushes to `l` and then lets it expire in more seconds than the clock can count. -/
def scriptPanic : Event ℤ :=
  .act (.eval "panic" [⟨0, 0, .byKey, "RPUSH", [ascii "l", ascii "x"], false⟩,
    ⟨0, 0, .byKey, "EXPIRE", [ascii "l", ascii "9223372036854775807"], false⟩])

end BurnerRedis
