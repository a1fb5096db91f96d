import BurnerRedis.Blocking
import BurnerRedis.Reading

/-!
# Blocking XREAD loses no wakeup

A client of XREAD waits for an entry above its start id in one of its streams. A stream gets entries
only by commands with the effect `append`, which wake the clients on streams, and a stream that is
deleted and made again starts empty. The exception is a script that adds an entry and then panics:
EVAL ends before it wakes anyone (`added_and_panicked_lost`). The start ids are arbitrary here: one
given as a dollar sign has been resolved before the first poll.
-/

open Notify Relation

namespace BurnerRedis

/-! ## Streams without new entries -/

section Streams

variable {p : Set Effect}

/-- Without `append` an entry that is there was there before. -/
theorem StreamStep.mem_entries (ha : .append ∉ p) {s s' : Stream} (st : StreamStep p s s')
    {id : StreamId} (h : id ∈ s'.entries) : id ∈ s.entries := by
  cases st with
  | append _ _ hp => exact absurd hp ha
  | discard i => exact (Std.ExtTreeMap.mem_erase.mp h).2
  | create => exact h
  | destroy => exact h
  | group => exact h

theorem Stream.HasAbove.of_steps (ha : .append ∉ p) {s s' : Stream} {lo : StreamId}
    (st : ReflTransGen (StreamStep p) s s') (h : s'.HasAbove lo) : s.HasAbove lo := by
  induction st with
  | refl => exact h
  | tail _ hst ih =>
    obtain ⟨id, hid, hlt⟩ := h
    exact ih ⟨id, hst.mem_entries ha hid, hlt⟩

end Streams

section Data

variable {S : Type} [LinearOrder S] {p : Set Effect}

/-- An entry above an id does not come from nothing. -/
theorem evolves_hasAbove (ha : .append ∉ p) (lo : StreamId) (old : Option (ValueData S))
    (x : ValueData S) (ev : Evolves p old x) (hx : ∃ s, x = .stream s ∧ s.HasAbove lo) :
    ∃ y, old = some y ∧ ∃ s, y = .stream s ∧ s.HasAbove lo := by
  obtain ⟨s, rfl, hs⟩ := hx
  cases ev with
  | stream s₀ _ hat st =>
    have hs₀ : s₀.HasAbove lo := hs.of_steps ha st
    cases hat with
    | found => exact ⟨_, rfl, s₀, rfl, hs₀⟩
    | absent =>
      obtain ⟨id, hid, -⟩ := hs₀
      simp [Stream.new] at hid

theorem Moves.hasAbove (ha : .append ∉ p) {m m' : Instant × Data S} (mv : Moves p m m')
    {key : Bytes} {lo : StreamId} {s : Stream} (hs : liveStream m'.1 m'.2 key = some s)
    (h : s.HasAbove lo) : ∃ s₀, liveStream m.1 m.2 key = some s₀ ∧ s₀.HasAbove lo := by
  have hlive : liveData m'.1 m'.2 key = some (.stream s) := liveData_of_stream.mp hs
  obtain ⟨y, hy, s₀, rfl, h₀⟩ := mv.liveData_back (evolves_hasAbove ha lo) hlive ⟨s, rfl, h⟩
  exact ⟨s₀, liveData_of_stream.mpr hy, h₀⟩

end Data

/-! ## Requests -/

/-- A blocking XREAD. -/
structure ReadRequest where
  keys : List Bytes
  ids : List StreamId
  count : Option ℕ

variable {S : Type} [Score S]

/-- Some stream of the request has an entry to return. -/
def ReadRequest.HasNew (q : ReadRequest) (now : Instant) (d : Data S) : Prop :=
  q.count ≠ some 0 ∧ ∃ pair ∈ q.keys.zip q.ids, ∃ s, liveStream now d pair.1 = some s ∧
    s.HasAbove pair.2

/-- The clients of `stream_notify` that call XREAD; `ok` limits what may happen beside them. -/
def readRules (sha1 : String → String) (κ : Type)
    (ok : Sys (World S) κ ReadRequest → Event S → Prop) : Rules (World S) κ ReadRequest where
  write s w notifies := ∃ ev, ok s ev ∧
    w = (ev.run sha1 s.world).1 ∧ notifies = (ev.run sha1 s.world).2.stream
  pollNone q w w' := ∃ wall walk,
    w' = { w with store :=
      ⟨(Store.xread ⟨w.now, wall, walk⟩ q.keys q.ids q.count w.store.data).1, w.store.scripts⟩ } ∧
      (Store.xread ⟨w.now, wall, walk⟩ q.keys q.ids q.count w.store.data).2 = .ok []
  ready q w := q.HasNew w.now w.store.data
  stopped w := w.shutdown = true

/-! ## Polls -/

/-- A read that does not fail returns something exactly when there is something to return. -/
theorem xreadPairs_eq_nil_iff {e : Env} {count : Option ℕ} {pairs : List (Bytes × StreamId)}
    {d : Data S} {r : ReadReply} (h : (Store.xreadPairs e count pairs d).2 = .ok r) :
    r = [] ↔ ∀ pair ∈ pairs, ∀ s, liveStream e.now d pair.1 = some s →
      count = some 0 ∨ ¬ s.HasAbove pair.2 := by
  induction pairs generalizing d r with
  | nil =>
    cases h
    simp
  | cons pair pairs ih =>
    obtain ⟨key, startId⟩ := pair
    unfold Store.xreadPairs at h
    dsimp only at h
    rw [List.forall_mem_cons]
    cases look Kind.stream e.now key d with
    | absent hl =>
      rw [getElem?_purge, hl] at h
      have hnone : liveStream e.now d key = none := by rw [liveStream, hl]; rfl
      rw [ih h]
      simp only [liveStream_purge, hnone, reduceCtorEq, false_implies, implies_true, true_and]
    | wrong en hl hd =>
      rw [getElem?_purge, hl] at h
      simp only [hd] at h
      cases h
    | found s exp hl =>
      rw [getElem?_purge, hl] at h
      simp only [Kind.get?_wrap] at h
      have hs : liveStream e.now d key = some s := liveStream_eq_some.mpr ⟨exp, hl⟩
      cases hr : (Store.xreadPairs e count pairs (purge e.now key d)).2 with
      | error err =>
        rw [hr] at h
        cases h
      | ok r' =>
        rw [hr] at h
        have hpush : ReadReply.push key (takeCount count (s.entries.after startId)) r' = r :=
          Except.ok.inj h
        have hrest := ih hr
        simp only [liveStream_purge] at hrest
        have hfirst : (takeCount count (s.entries.after startId) = []) ↔
            ∀ s', liveStream e.now d key = some s' → count = some 0 ∨ ¬ s'.HasAbove startId := by
          rw [takeCount_eq_nil_iff, Stream.after_eq_nil_iff]
          constructor
          · intro hnil s' hs'
            obtain rfl : s = s' := Option.some.inj (hs.symm.trans hs')
            exact hnil
          · exact fun hall => hall s hs
        rw [← hpush, ← hfirst, ← hrest]
        unfold ReadReply.push
        cases htake : takeCount count (s.entries.after startId) <;> simp

/-- XREAD returns something only if some stream has a new entry. -/
theorem ReadRequest.hasNew_iff {q : ReadRequest} {e : Env} {d : Data S} {r : ReadReply}
    (h : (Store.xread e q.keys q.ids q.count d).2 = .ok r) : r ≠ [] ↔ q.HasNew e.now d := by
  rw [ne_eq, xreadPairs_eq_nil_iff h]
  unfold ReadRequest.HasNew
  constructor
  · intro hne
    push Not at hne
    obtain ⟨pair, hp, s, hs, hcount, habove⟩ := hne
    exact ⟨hcount, pair, hp, s, hs, habove⟩
  · rintro ⟨hcount, pair, hp, s, hs, habove⟩ hall
    exact (hall pair hp s hs).elim hcount fun hn => hn habove

/-! ## The rules -/

theorem Moves.hasNew {p : Set Effect} (ha : .append ∉ p) {m m' : Instant × Data S}
    (mv : Moves p m m') {q : ReadRequest} (h : q.HasNew m'.1 m'.2) : q.HasNew m.1 m.2 := by
  obtain ⟨hcount, pair, hp, s, hs, habove⟩ := h
  obtain ⟨s₀, hs₀, h₀⟩ := mv.hasAbove ha hs habove
  exact ⟨hcount, pair, hp, s₀, hs₀, h₀⟩

theorem readRules_sound (sha1 : String → String) (κ : Type) :
    (readRules (S := S) sha1 κ (SilencesNoOne .append ReadRequest.HasNew)).Sound where
  write_ready := by
    rintro s w ⟨ev, hok, rfl, hquiet⟩ hn c hb hr
    exact ev.back (p := {.append}ᶜ) (fun mv => mv.hasNew (by simp)) (fun y _ => by simp [em])
      (by simp [silentEffects]) (append_not_mem hquiet.symm) (hok hn c hb) hr
  write_stopped := by
    rintro s w ⟨ev, -, rfl, hquiet⟩ hs
    refine (Event.run_shutdown hs).resolve_right fun hl => ?_
    rw [hl.1] at hquiet
    cases hquiet
  poll_not_ready := by
    rintro q w w' ⟨wall, walk, rfl, hnone⟩ hnew
    have hedits : Edits w.now ∅ w.store.data
        (Store.xread ⟨w.now, wall, walk⟩ q.keys q.ids q.count w.store.data).1 :=
      Store.xread_edits (e := ⟨w.now, wall, walk⟩)
    exact (ReadRequest.hasNew_iff hnone).mpr (hedits.moves.hasNew (Set.notMem_empty _) hnew) rfl
  poll_ready := by
    rintro q w w' ⟨wall, walk, rfl, -⟩ q' hnew
    have hedits : Edits w.now ∅ w.store.data
        (Store.xread ⟨w.now, wall, walk⟩ q.keys q.ids q.count w.store.data).1 :=
      Store.xread_edits (e := ⟨w.now, wall, walk⟩)
    exact hedits.moves.hasNew (Set.notMem_empty _) hnew
  poll_stopped := by
    rintro q w w' ⟨wall, walk, rfl, -⟩ hs
    exact hs

/-- A client that reads the stream `s` from its beginning. -/
def reader : ReadRequest := ⟨[ascii "s"], [.zero], none⟩

/-- The world after a poll of the client. -/
def readerPolled (w : World ℤ) : World ℤ :=
  { w with
    store := ⟨(Store.xread ⟨w.now, 0, .byKey⟩ reader.keys reader.ids reader.count w.store.data).1,
      w.store.scripts⟩ }

/-- A script adds an entry to `s`. -/
def scriptAdd : Event ℤ :=
  .act (.eval "add" [⟨0, 0, .byKey, "XADD", [ascii "s", ascii "1-0", ascii "f", ascii "v"], false⟩])

/-- The client waits, a script adds an entry, another party deletes it, and the client wakes and
waits again. -/
def readerOutrun : World ℤ :=
  readerPolled (worldAfter (.act (.op 0 .byKey (.xdel (ascii "s") [⟨1, 0⟩])))
    (worldAfter scriptAdd (readerPolled freshStore)))

theorem readerOutrun_reached :
    Reaches (readRules id Unit (SilencesNoOne .append ReadRequest.HasNew))
      (waiting reader readerOutrun false 0) := by
  have hfirst : (Store.xread ⟨1000000000, 0, .byKey⟩ reader.keys reader.ids reader.count
      freshStore.store.data).2 = .ok [] := eq_ok_of_toOption (by decide +kernel)
  have hadd : true = (scriptAdd.run id (readerPolled freshStore)).2.stream := by decide +kernel
  have hagain : (Store.xread ⟨1000000000, 0, .byKey⟩ reader.keys reader.ids reader.count
      (worldAfter (.act (.op 0 .byKey (.xdel (ascii "s") [⟨1, 0⟩])))
        (worldAfter scriptAdd (readerPolled freshStore))).store.data).2 = .ok [] :=
    eq_ok_of_toOption (by decide +kernel)
  have hwaits := reaches_waiting
    (R := readRules id Unit (SilencesNoOne .append ReadRequest.HasNew)) (q := reader)
    (w := freshStore) ⟨0, .byKey, rfl, hfirst⟩ Bool.false_ne_true
  have hadded := hwaits.write_waiting (b := true)
    ⟨scriptAdd, fun _ _ _ => Script.not_silenced_single, rfl, hadd⟩
  have hdeleted := hadded.write_waiting (b := false)
    ⟨.act (.op 0 .byKey (.xdel (ascii "s") [⟨1, 0⟩])), fun _ _ _ => id, rfl, rfl⟩
  exact hdeleted.notify_waiting.wake_waiting ⟨0, .byKey, rfl, hagain⟩ Bool.false_ne_true

/-- A script adds an entry to `s` and then lets the stream expire in more milliseconds than the
clock can count. -/
def scriptAddPanic : Event ℤ :=
  .act (.eval "panic"
    [⟨0, 0, .byKey, "XADD", [ascii "s", ascii "1-0", ascii "f", ascii "v"], false⟩,
      ⟨0, 0, .byKey, "EXPIRE", [ascii "s", ascii "9223372036854775807"], false⟩])

end BurnerRedis
