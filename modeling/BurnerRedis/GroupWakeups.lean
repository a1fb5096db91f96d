import BurnerRedis.Blocking
import BurnerRedis.StreamWakeups

/-!
# Blocking XREADGROUP and new groups

What a client of XREADGROUP can read depends on its group as well as on the entries. Entries come
with a wakeup, and a group that is there only moves on. But XGROUP CREATE wakes no one, and when it
makes the group again at a lower id, entries that a waiting client has seen delivered are there to
be read once more.

A script that adds an entry and then panics wakes no one either (`SilencesNoOne`).

`blocking_group_read_not_lost` is about the runs in which no XGROUP CREATE gives a blocked client
something to read (`CreatesNothingToRead`), and no such script does.
-/

open Notify Relation

namespace BurnerRedis

/-! ## Groups without new entries -/

section Streams

variable {p : Set Effect}

theorem GroupStep.lastDeliveredId_le {cg cg' : ConsumerGroup} (st : GroupStep p cg cg') :
    cg.lastDeliveredId ≤ cg'.lastDeliveredId := by
  cases st with
  | deliver c id pe _ hid => exact hid.le
  | ack c id _ => rw [ConsumerGroup.removePending_lastDeliveredId]
  | move c₀ c id pe _ =>
    rw [ConsumerGroup.insertPending_lastDeliveredId, ConsumerGroup.removePending_lastDeliveredId]
  | force c id pe _ _ => rw [ConsumerGroup.insertPending_lastDeliveredId]

/-- The group of the stream has entries that it has not delivered. -/
def Stream.HasUndelivered (s : Stream) (group : Bytes) : Prop :=
  ∃ cg, s.groups[group]? = some cg ∧ s.HasAbove cg.lastDeliveredId

/-- Without `create` a group that is there was there before. -/
theorem StreamStep.mem_groups (hc : .create ∉ p) {s s' : Stream} (st : StreamStep p s s')
    {group : Bytes} {cg' : ConsumerGroup} (h : s'.groups[group]? = some cg') :
    ∃ cg, s.groups[group]? = some cg ∧ cg.lastDeliveredId ≤ cg'.lastDeliveredId := by
  cases st with
  | append => exact ⟨cg', h, le_rfl⟩
  | discard => exact ⟨cg', h, le_rfl⟩
  | create _ _ hp => exact absurd hp hc
  | destroy g =>
    rw [FinMap.getElem?_erase'] at h
    split_ifs at h
    exact ⟨cg', h, le_rfl⟩
  | group g cg cg₁ hg gst =>
    rw [FinMap.getElem?_insert'] at h
    split_ifs at h with hk
    · cases h
      exact ⟨cg, hk ▸ hg, gst.lastDeliveredId_le⟩
    · exact ⟨cg', h, le_rfl⟩

theorem Stream.hasGroup_of_steps (hc : .create ∉ p) {s s' : Stream}
    (st : ReflTransGen (StreamStep p) s s') {group : Bytes} {cg' : ConsumerGroup}
    (h : s'.groups[group]? = some cg') : ∃ cg, s.groups[group]? = some cg := by
  induction st generalizing cg' with
  | refl => exact ⟨cg', h⟩
  | tail _ hst ih =>
    obtain ⟨cg, hcg, -⟩ := hst.mem_groups hc h
    exact ih hcg

theorem Stream.HasUndelivered.of_steps (ha : .append ∉ p) (hc : .create ∉ p) {s s' : Stream}
    {group : Bytes} (st : ReflTransGen (StreamStep p) s s') (h : s'.HasUndelivered group) :
    s.HasUndelivered group := by
  induction st with
  | refl => exact h
  | tail _ hst ih =>
    obtain ⟨cg', hcg', id, hid, hlt⟩ := h
    obtain ⟨cg, hcg, hle⟩ := hst.mem_groups hc hcg'
    exact ih ⟨cg, hcg, id, hst.mem_entries ha hid, hle.trans_lt hlt⟩

end Streams

section Data

variable {S : Type} [LinearOrder S] {p : Set Effect}

/-- A live stream after some moves comes, without `create`, from one that has its groups. -/
theorem evolves_hasGroup (hc : .create ∉ p) (group : Bytes) (old : Option (ValueData S))
    (x : ValueData S) (ev : Evolves p old x)
    (hx : ∃ s cg, x = .stream s ∧ s.groups[group]? = some cg) :
    ∃ y, old = some y ∧ ∃ s cg, y = .stream s ∧ s.groups[group]? = some cg := by
  obtain ⟨s, cg, rfl, hs⟩ := hx
  cases ev with
  | stream s₀ _ hat st =>
    obtain ⟨cg₀, hcg₀⟩ := Stream.hasGroup_of_steps hc st hs
    cases hat with
    | found => exact ⟨_, rfl, s₀, cg₀, rfl, hcg₀⟩
    | absent => simp [Stream.new] at hcg₀

theorem evolves_hasUndelivered (ha : .append ∉ p) (hc : .create ∉ p) (group : Bytes)
    (old : Option (ValueData S)) (x : ValueData S) (ev : Evolves p old x)
    (hx : ∃ s, x = .stream s ∧ s.HasUndelivered group) :
    ∃ y, old = some y ∧ ∃ s, y = .stream s ∧ s.HasUndelivered group := by
  obtain ⟨s, rfl, hs⟩ := hx
  cases ev with
  | stream s₀ _ hat st =>
    have hs₀ : s₀.HasUndelivered group := hs.of_steps ha hc st
    cases hat with
    | found => exact ⟨_, rfl, s₀, rfl, hs₀⟩
    | absent =>
      obtain ⟨cg, hcg, -⟩ := hs₀
      simp [Stream.new] at hcg

end Data

/-! ## Requests -/

/-- A blocking XREADGROUP of new entries. -/
structure GroupRequest where
  group : Bytes
  consumer : Bytes
  keys : List Bytes
  count : Option ℕ

section Requests

variable {S : Type} [LinearOrder S]

/-- XREADGROUP of the new entries of all keys. -/
def GroupRequest.read (q : GroupRequest) (e : Env) :
    Data S → Data S × Except StoreError ReadReply :=
  Store.xreadgroup e q.group q.consumer q.keys (q.keys.map fun _ => ascii ">") q.count

/-- The group is there under every key, and under one of them there is something to deliver. -/
def GroupRequest.CanRead (q : GroupRequest) (now : Instant) (d : Data S) : Prop :=
  q.count ≠ some 0 ∧ (∀ key ∈ q.keys, ∃ cg, liveGroup now d key q.group = some cg) ∧
    ∃ key ∈ q.keys, ∃ s, liveStream now d key = some s ∧ s.HasUndelivered q.group

/-- A read that does not fail returns something exactly when there is something to return. -/
theorem xreadgroupPairs_eq_nil_iff {e : Env} {group consumer : Bytes} {count : Option ℕ}
    {keys : List Bytes} {d : Data S} {r : ReadReply}
    (h : (Store.xreadgroupPairs e group consumer count (keys.map fun k => (k, ascii ">")) d).2 =
      .ok r) :
    r = [] ↔ ∀ key ∈ keys, ∀ s, liveStream e.now d key = some s →
      count = some 0 ∨ ¬ s.HasUndelivered group := by
  induction keys generalizing d r with
  | nil =>
    cases h
    simp
  | cons key keys ih =>
    rw [List.map_cons] at h
    rw [List.forall_mem_cons]
    rcases Store.xreadgroupPairs_cons e group consumer count key (ascii ">")
      (keys.map fun k => (k, ascii ">")) d with ⟨-, err, herr⟩ | ⟨s, exp, cg, hl, hcg, hcons⟩
    · rw [herr] at h
      cases h
    · have hs : liveStream e.now d key = some s := liveStream_eq_some.mpr ⟨exp, hl⟩
      have hfirst : newEntries count s cg = [] ↔ ∀ s', liveStream e.now d key = some s' →
          count = some 0 ∨ ¬ s'.HasUndelivered group := by
        rw [newEntries_eq_nil_iff]
        constructor
        · intro hnil s' hs'
          obtain rfl : s = s' := Option.some.inj (hs.symm.trans hs')
          refine hnil.imp_right fun hn => ?_
          rintro ⟨cg', hcg', habove⟩
          obtain rfl : cg = cg' := Option.some.inj (hcg.symm.trans hcg')
          exact hn habove
        · exact fun hall => (hall s hs).imp_right fun hn habove => hn ⟨cg, hcg, habove⟩
      rw [hcons] at h
      have hread : (Store.readOne e consumer (ascii ">") count s cg).2 = newEntries count s cg := by
        unfold Store.readOne
        rw [if_pos rfl]
      rw [hread] at h
      by_cases hnew : newEntries count s cg = []
      · -- nothing has changed, and nothing is added to the reply
        rw [Store.putStream_of_nothing hl hcg fun _ => hnew, hnew] at h
        cases hr : (Store.xreadgroupPairs e group consumer count
            (keys.map fun k => (k, ascii ">")) d).2 with
        | error err =>
          rw [hr] at h
          cases h
        | ok r' =>
          rw [hr] at h
          obtain rfl : r' = r := Except.ok.inj h
          rw [ih hr, ← hfirst]
          simp only [hnew, true_and]
      · have hne : r ≠ [] := by
          rintro rfl
          cases hr : (Store.xreadgroupPairs e group consumer count (keys.map fun k => (k, ascii ">"))
              (Store.putStream key (s.putGroup group
                (Store.readOne e consumer (ascii ">") count s cg).1) exp d)).2 with
          | error err =>
            rw [hr] at h
            cases h
          | ok r' =>
            rw [hr] at h
            have hpush : ReadReply.push key (newEntries count s cg) r' = [] := Except.ok.inj h
            unfold ReadReply.push at hpush
            rw [if_neg (by simpa using hnew)] at hpush
            cases hpush
        rw [← hfirst]
        simp only [hne, hnew, false_and]

theorem GroupRequest.read_eq (q : GroupRequest) (e : Env) (d : Data S) :
    q.read e d =
      Store.xreadgroupPairs e q.group q.consumer q.count (q.keys.map fun k => (k, ascii ">")) d := by
  have hzip : ∀ l : List Bytes, l.zip (l.map fun _ => ascii ">") =
      l.map fun k => (k, ascii ">") := by
    intro l
    induction l with
    | nil => rfl
    | cons k l ih => rw [List.map_cons, List.zip_cons_cons, ih, List.map_cons]
  rw [GroupRequest.read, Store.xreadgroup, hzip]

theorem GroupRequest.read_edits (q : GroupRequest) (e : Env) (d : Data S) :
    Edits e.now {.deliver} d (q.read e d).1 :=
  Store.xreadgroup_edits (Set.mem_singleton _)

/-- XREADGROUP returns something exactly when the client can read. -/
theorem GroupRequest.canRead_iff {q : GroupRequest} {e : Env} {d : Data S} {r : ReadReply}
    (h : (q.read e d).2 = .ok r) : r ≠ [] ↔ q.CanRead e.now d := by
  rw [q.read_eq] at h
  have hall : ∀ key ∈ q.keys, ∃ cg, liveGroup e.now d key q.group = some cg := by
    have hread : readablePairs e.now d q.group (q.keys.map fun k => (k, ascii ">")) =
        q.keys.map fun k => (k, ascii ">") := by
      by_contra hne
      obtain ⟨err, herr⟩ := Store.xreadgroupPairs_error_iff.mpr hne
      rw [h] at herr
      cases herr
    intro key hkey
    have hmem : (key, ascii ">") ∈
        readablePairs e.now d q.group (q.keys.map fun k => (k, ascii ">")) := by
      rw [hread]
      exact List.mem_map.mpr ⟨key, hkey, rfl⟩
    exact Option.isSome_iff_exists.mp (List.mem_takeWhile_imp
      (p := fun pair : Bytes × Bytes => (liveGroup e.now d pair.1 q.group).isSome) hmem)
  rw [ne_eq, xreadgroupPairs_eq_nil_iff h]
  constructor
  · intro hne
    push Not at hne
    obtain ⟨key, hkey, s, hs, hcount, hund⟩ := hne
    exact ⟨hcount, hall, key, hkey, s, hs, hund⟩
  · rintro ⟨hcount, -, key, hkey, s, hs, hund⟩ hnil
    exact (hnil key hkey s hs).elim hcount fun hn => hn hund

/-- Without `append` and `create` a client that can read could read before. -/
theorem Moves.canRead {p : Set Effect} (ha : .append ∉ p) (hc : .create ∉ p)
    {m m' : Instant × Data S} (mv : Moves p m m') {q : GroupRequest} (h : q.CanRead m'.1 m'.2) :
    q.CanRead m.1 m.2 := by
  obtain ⟨hcount, hgroups, key, hkey, s, hs, hund⟩ := h
  refine ⟨hcount, fun k hk => ?_, key, hkey, ?_⟩
  · obtain ⟨cg, hcg⟩ := hgroups k hk
    obtain ⟨s', hs', hg'⟩ := liveGroup_eq_some.mp hcg
    obtain ⟨y, hy, s₀, cg₀, rfl, h₀⟩ :=
      mv.liveData_back (evolves_hasGroup hc q.group) (liveData_of_stream.mp hs') ⟨s', cg, rfl, hg'⟩
    exact ⟨cg₀, liveGroup_eq_some.mpr ⟨s₀, liveData_of_stream.mpr hy, h₀⟩⟩
  · obtain ⟨y, hy, s₀, rfl, h₀⟩ := mv.liveData_back (evolves_hasUndelivered ha hc q.group)
      (liveData_of_stream.mp hs) ⟨s, rfl, hund⟩
    exact ⟨s₀, liveData_of_stream.mpr hy, h₀⟩

end Requests

/-! ## New groups -/

section Create

variable {S : Type} [LinearOrder S]

/-- The stream in which XGROUP CREATE makes a new group, if it makes one. -/
def createsIn (now : Instant) (d : Data S) (key group : Bytes) (mkstream : Bool) : Option Stream :=
  match live now d key with
  | none => if mkstream then some .new else none
  | some en => (Kind.stream.get? en.data).filter fun s => s.groups[group]?.isNone

/-- The new group gives the client nothing to read: it is not a group of the client, the client
still misses a group under another key, or there is no entry above its start id and nothing to
deliver under the other keys. -/
def CreateSafe (now : Instant) (d : Data S) (key group : Bytes) (id : StreamId) (mkstream : Bool)
    (q : GroupRequest) : Prop :=
  ∀ s, createsIn now d key group mkstream = some s → group = q.group → key ∈ q.keys →
    q.count ≠ some 0 →
    (∀ k ∈ q.keys, k ≠ key → ∃ cg, liveGroup now d k group = some cg) →
      ¬ s.HasAbove (Store.resolveGroupId id s) ∧
        ∀ k ∈ q.keys, k ≠ key → ∀ s', liveStream now d k = some s' → ¬ s'.HasUndelivered group

variable {e : Env} {key group : Bytes} {id : StreamId} {mkstream : Bool} {d : Data S}

/-- XGROUP CREATE that makes no group changes no stream. -/
theorem xgroupCreate_none (h : createsIn e.now d key group mkstream = none) (k : Bytes) :
    liveStream e.now (Store.xgroupCreate e key group id mkstream d).1 k =
      liveStream e.now d k := by
  unfold createsIn at h
  cases look Kind.stream e.now key d with
  | absent hl =>
    rw [hl] at h
    cases mkstream with
    | true => cases h
    | false =>
      have hres : Store.xgroupCreate e key group id false d =
          (purge e.now key d, .error .keyNotFound) := modifyAs_absent hl
      rw [hres, liveStream_purge]
  | wrong en hl hd =>
    have hres : (Store.xgroupCreate e key group id mkstream d).1 = purge e.now key d := by
      cases mkstream with
      | true => exact congrArg Prod.fst (upsertAs_wrong hl hd)
      | false => exact congrArg Prod.fst (modifyAs_wrong hl hd)
    rw [hres, liveStream_purge]
  | found s exp hl =>
    rw [hl] at h
    have hs : liveStream e.now d key = some s := liveStream_eq_some.mpr ⟨exp, hl⟩
    have hgroup : ∃ cg, s.groups[group]? = some cg := by
      simpa [Option.filter_eq_none_iff, FinMap.mem_iff_getElem?] using h
    obtain ⟨cg, hcg⟩ := hgroup
    have hsame : (Store.createGroup group id s).1 = s := by rw [Store.createGroup, hcg]
    have hres : (Store.xgroupCreate e key group id mkstream d).1 =
        d.insert key ⟨.stream (Store.createGroup group id s).1, exp⟩ := by
      cases mkstream with
      | true => exact congrArg Prod.fst (upsertAs_found (t := .stream) hl)
      | false => exact congrArg Prod.fst (modifyAs_found (t := .stream) hl)
    rw [hres, liveStream_insert hl, hsame]
    split_ifs with hk
    · rw [← hk, hs]
    · rfl

/-- XGROUP CREATE that makes a group puts it into the stream it found. -/
theorem xgroupCreate_some {s : Stream} (h : createsIn e.now d key group mkstream = some s)
    (k : Bytes) :
    liveStream e.now (Store.xgroupCreate e key group id mkstream d).1 k =
      if key = k then some (s.putGroup group ⟨Store.resolveGroupId id s, ∅⟩)
      else liveStream e.now d k := by
  unfold createsIn at h
  cases look Kind.stream e.now key d with
  | absent hl =>
    rw [hl] at h
    cases mkstream with
    | false => cases h
    | true =>
      obtain rfl : Stream.new = s := Option.some.inj h
      have hcreate : (Store.createGroup group id .new).1 =
          Stream.new.putGroup group ⟨Store.resolveGroupId id .new, ∅⟩ := by
        simp [Store.createGroup, Stream.new, Stream.putGroup]
      have hres : (Store.xgroupCreate e key group id true d).1 =
          d.insert key ⟨.stream (Store.createGroup group id .new).1, none⟩ :=
        congrArg Prod.fst (upsertAs_absent hl)
      rw [hres, hcreate, liveStream, live_insert]
      split_ifs with hk
      · rfl
      · rfl
  | wrong en hl hd =>
    rw [hl] at h
    simp [hd] at h
  | found s' exp hl =>
    rw [hl] at h
    obtain ⟨hsame, hnone⟩ := Option.filter_eq_some_iff.mp h
    obtain rfl : s' = s := Option.some.inj ((Kind.get?_wrap .stream s').symm.trans hsame)
    have hcreate : (Store.createGroup group id s').1 =
        s'.putGroup group ⟨Store.resolveGroupId id s', ∅⟩ := by
      rw [Store.createGroup, Option.isNone_iff_eq_none.mp hnone]
      rfl
    have hres : (Store.xgroupCreate e key group id mkstream d).1 =
        d.insert key ⟨.stream (Store.createGroup group id s').1, exp⟩ := by
      cases mkstream with
      | true => exact congrArg Prod.fst (upsertAs_found (t := .stream) hl)
      | false => exact congrArg Prod.fst (modifyAs_found (t := .stream) hl)
    rw [hres, liveStream_insert hl, hcreate]

/-- A group of that stream is one of the stream that was there. -/
theorem liveStream_of_createsIn {now : Instant} {s : Stream}
    (h : createsIn now d key group mkstream = some s) {g : Bytes} {cg : ConsumerGroup}
    (hcg : s.groups[g]? = some cg) : liveStream now d key = some s := by
  unfold createsIn at h
  cases hl : live now d key with
  | none =>
    rw [hl] at h
    cases mkstream with
    | false => cases h
    | true =>
      obtain rfl : Stream.new = s := Option.some.inj h
      simp [Stream.new] at hcg
  | some en =>
    rw [hl] at h
    rw [liveStream, hl]
    exact (Option.filter_eq_some_iff.mp h).1

/-- A safe XGROUP CREATE lets no client read that could not read before. -/
theorem CreateSafe.canRead {q : GroupRequest}
    (h : CreateSafe e.now d key group id mkstream q)
    (hr : q.CanRead e.now (Store.xgroupCreate e key group id mkstream d).1) :
    q.CanRead e.now d := by
  obtain ⟨hcount, hgroups, k₀, hk₀, s₀, hs₀, hund⟩ := hr
  cases hin : createsIn e.now d key group mkstream with
  | none =>
    refine ⟨hcount, fun k hk => ?_, k₀, hk₀, s₀, ?_, hund⟩
    · obtain ⟨cg, hcg⟩ := hgroups k hk
      rw [liveGroup, xgroupCreate_none hin] at hcg
      exact ⟨cg, hcg⟩
    · rwa [xgroupCreate_none hin] at hs₀
  | some s =>
    have hother : ∀ k, key ≠ k →
        liveStream e.now (Store.xgroupCreate e key group id mkstream d).1 k =
          liveStream e.now d k := by
      intro k hk
      rw [xgroupCreate_some hin k, if_neg hk]
    have hkey : liveStream e.now (Store.xgroupCreate e key group id mkstream d).1 key =
        some (s.putGroup group ⟨Store.resolveGroupId id s, ∅⟩) := by
      rw [xgroupCreate_some hin key, if_pos rfl]
    by_cases hmine : group = q.group ∧ key ∈ q.keys
    · -- the client's own group: what it could read is what the condition excludes
      obtain ⟨rfl, hmem⟩ := hmine
      have hsafe := h s hin rfl hmem hcount fun k hk hne => by
        obtain ⟨cg, hcg⟩ := hgroups k hk
        rw [liveGroup, hother k hne.symm] at hcg
        exact ⟨cg, hcg⟩
      by_cases hk : key = k₀
      · subst hk
        rw [hkey] at hs₀
        obtain rfl := Option.some.inj hs₀
        obtain ⟨cg, hcg, habove⟩ := hund
        rw [Stream.putGroup_groups, if_pos rfl] at hcg
        obtain rfl := Option.some.inj hcg
        exact absurd habove hsafe.1
      · rw [hother k₀ hk] at hs₀
        exact absurd hund (hsafe.2 k₀ hk₀ (Ne.symm hk) s₀ hs₀)
    · -- under the client's keys its group is as it was
      have hback : ∀ k ∈ q.keys, ∀ s', liveStream e.now
          (Store.xgroupCreate e key group id mkstream d).1 k = some s' →
          ∀ cg, s'.groups[q.group]? = some cg → ∃ s₁, liveStream e.now d k = some s₁ ∧
            s₁.groups[q.group]? = some cg ∧ s₁.entries = s'.entries := by
        intro k hk s' hs' cg hcg
        by_cases hkk : key = k
        · subst hkk
          have hne : q.group ≠ group := fun he => hmine ⟨he.symm, hk⟩
          rw [hkey] at hs'
          obtain rfl := Option.some.inj hs'
          rw [Stream.putGroup_groups, if_neg (Ne.symm hne)] at hcg
          exact ⟨s, liveStream_of_createsIn hin hcg, hcg, rfl⟩
        · rw [hother k hkk] at hs'
          exact ⟨s', hs', hcg, rfl⟩
      refine ⟨hcount, fun k hk => ?_, k₀, hk₀, ?_⟩
      · obtain ⟨cg, hcg⟩ := hgroups k hk
        obtain ⟨s', hs', hg'⟩ := liveGroup_eq_some.mp hcg
        obtain ⟨s₁, hs₁, hcg₁, -⟩ := hback k hk s' hs' cg hg'
        exact ⟨cg, liveGroup_eq_some.mpr ⟨s₁, hs₁, hcg₁⟩⟩
      · obtain ⟨cg, hcg, hid⟩ := hund
        obtain ⟨s₁, hs₁, hcg₁, hentries⟩ := hback k₀ hk₀ s₀ hs₀ cg hcg
        refine ⟨s₁, hs₁, cg, hcg₁, ?_⟩
        rw [Stream.HasAbove, hentries]
        exact hid

end Create

/-! ## The rules -/

section Rules

variable {S : Type} [Score S]

omit [Score S] in
/-- XGROUP CREATE is the only action that creates groups. -/
theorem Action.creates_cases (a : Action S) :
    (∃ wall walk key group id mkstream,
      a = .op wall walk (.xgroupCreate key group id mkstream)) ∨ .create ∉ a.effects := by
  cases a with
  | op wall walk o =>
    cases o with
    | xgroupCreate key group id mkstream => exact .inl ⟨wall, walk, key, group, id, mkstream, rfl⟩
    | _ => exact .inr (by simp [Action.effects, Op.effects])
  | _ => exact .inr (by simp [Action.effects, scriptEffects])

/-- The clients of `stream_notify` that call XREADGROUP; `ok` limits what may happen beside them. -/
def groupRules (sha1 : String → String) (κ : Type)
    (ok : Sys (World S) κ GroupRequest → Event S → Prop) : Rules (World S) κ GroupRequest where
  write s w notifies := ∃ ev, ok s ev ∧
    w = (ev.run sha1 s.world).1 ∧ notifies = (ev.run sha1 s.world).2.stream
  pollNone q w w' := ∃ wall walk,
    w' = { w with store := ⟨(q.read ⟨w.now, wall, walk⟩ w.store.data).1, w.store.scripts⟩ } ∧
      (q.read ⟨w.now, wall, walk⟩ w.store.data).2 = .ok []
  ready q w := q.CanRead w.now w.store.data
  stopped w := w.shutdown = true

/-- An XGROUP CREATE gives no client something to read that has polled in vain and that no
notification has reached or is about to reach. -/
def CreatesNothingToRead {κ : Type} (s : Sys (World S) κ GroupRequest) : Event S → Prop
  | .act (.op _ _ (.xgroupCreate key group id mkstream)) =>
    s.notifying = 0 → ∀ c, (s.client c).Blocked →
      CreateSafe s.world.now s.world.store.data key group id mkstream (s.client c).request
  | _ => True

/-- Neither XGROUP CREATE nor a script that panics gives a blocked client something to read. -/
def LosesNoReader {κ : Type} (s : Sys (World S) κ GroupRequest) (ev : Event S) : Prop :=
  CreatesNothingToRead s ev ∧ SilencesNoOne .append GroupRequest.CanRead s ev

theorem Event.canRead {sha1 : String → String} {κ : Type} {s : Sys (World S) κ GroupRequest}
    {ev : Event S} (hok : LosesNoReader s ev) (hn : s.notifying = 0)
    (hquiet : (ev.run sha1 s.world).2.stream = false) {c : κ} (hb : (s.client c).Blocked)
    (hr : (s.client c).request.CanRead (ev.run sha1 s.world).1.now
      (ev.run sha1 s.world).1.store.data) :
    (s.client c).request.CanRead s.world.now s.world.store.data := by
  obtain ⟨hcreate, hpanic⟩ := hok
  -- apart from XGROUP CREATE no event creates a group
  have hother : .create ∉ (ev.flags s.world).effects ∪ ev.effects →
      (s.client c).request.CanRead s.world.now s.world.store.data := by
    intro hc
    refine ev.back (p := {.append, .create}ᶜ) (fun mv => mv.canRead (by simp) (by simp)) ?_
      (by simp [silentEffects]) (append_not_mem hquiet) (hpanic hn c hb) hr
    intro y hy
    by_cases ha : y = .append
    · exact .inl ha
    · refine .inr ?_
      rintro (rfl | rfl)
      · exact ha rfl
      · exact hc hy
  have hflags : ∀ w : Wake, .create ∉ w.effects := by
    rintro w (⟨h, -⟩ | ⟨h, -⟩) <;> cases h
  cases ev with
  | time t => exact hother (by simp [Event.flags, Event.effects])
  | shutdown => exact hr
  | act a =>
    rcases a.creates_cases with ⟨wall, walk, key, group, id, mkstream, rfl⟩ | hnone
    · exact (hcreate hn c hb).canRead (e := ⟨s.world.now, wall, walk⟩) hr
    · exact hother fun h => h.elim (hflags _) hnone

theorem groupRules_sound (sha1 : String → String) (κ : Type) :
    (groupRules (S := S) sha1 κ LosesNoReader).Sound where
  write_ready := by
    rintro s w ⟨ev, hok, rfl, hquiet⟩ hn c hb hr
    exact Event.canRead hok hn hquiet.symm hb hr
  write_stopped := by
    rintro s w ⟨ev, -, rfl, hquiet⟩ hs
    refine (Event.run_shutdown hs).resolve_right fun hl => ?_
    rw [hl.1] at hquiet
    cases hquiet
  poll_not_ready := by
    rintro q w w' ⟨wall, walk, rfl, hnone⟩ hr
    have hmoves := (q.read_edits ⟨w.now, wall, walk⟩ w.store.data).moves
    exact (GroupRequest.canRead_iff hnone).mpr (hmoves.canRead (by simp) (by simp) hr) rfl
  poll_ready := by
    rintro q w w' ⟨wall, walk, rfl, -⟩ q' hr
    have hmoves := (q.read_edits ⟨w.now, wall, walk⟩ w.store.data).moves
    exact hmoves.canRead (by simp) (by simp) hr
  poll_stopped := by
    rintro q w w' ⟨wall, walk, rfl, -⟩ hs
    exact hs

end Rules

/-! ### Two runs -/

/-- A client that reads from a group. -/
def groupReader : GroupRequest := ⟨ascii "g", ascii "c", [ascii "s"], none⟩

/-- A stream with an entry, and the group of the client created at its end. -/
def groupAtEnd : World ℤ where
  now := 0
  store := (runActions id (0, ⟨∅, ∅⟩) [.op 0 .byKey (.xadd (ascii "s") ∅ (some ⟨1, 0⟩)),
    .op 0 .byKey (.xgroupCreate (ascii "s") (ascii "g") .max false)]).2
  shutdown := false

/-- The world after a read of the client. -/
def groupPolled (w : World ℤ) : World ℤ :=
  { w with store := ⟨(groupReader.read ⟨w.now, 0, .byKey⟩ w.store.data).1, w.store.scripts⟩ }

theorem groupReader_waits (ok : Sys (World ℤ) Unit GroupRequest → Event ℤ → Prop) :
    Reaches (groupRules id Unit ok) (waiting groupReader (groupPolled groupAtEnd) false 0) := by
  have hpoll : (groupReader.read ⟨0, 0, .byKey⟩ groupAtEnd.store.data).2 = .ok [] :=
    eq_ok_of_toOption (by decide +kernel)
  exact reaches_waiting (w := groupAtEnd) ⟨0, .byKey, rfl, hpoll⟩ Bool.false_ne_true

/-- A script adds an entry to `s`. -/
def scriptAddSecond : Event ℤ :=
  .act (.eval "add" [⟨0, 0, .byKey, "XADD", [ascii "s", ascii "2-0", ascii "f", ascii "v"], false⟩])

/-- Another consumer of the group reads. -/
def otherReads : Event ℤ :=
  .act (.op 0 .byKey (.xreadgroup (ascii "g") (ascii "d") [ascii "s"] [ascii ">"] none))

/-- The client waits, a script adds an entry, another consumer reads it, and the client wakes and
waits again. -/
def groupOutrun : World ℤ :=
  groupPolled (worldAfter otherReads (worldAfter scriptAddSecond (groupPolled groupAtEnd)))

theorem groupOutrun_reached :
    Reaches (groupRules id Unit LosesNoReader) (waiting groupReader groupOutrun false 0) := by
  have hadd : true = (scriptAddSecond.run id (groupPolled groupAtEnd)).2.stream := by
    decide +kernel
  have hagain : (groupReader.read ⟨0, 0, .byKey⟩ (worldAfter otherReads
      (worldAfter scriptAddSecond (groupPolled groupAtEnd))).store.data).2 = .ok [] :=
    eq_ok_of_toOption (by decide +kernel)
  have hadded := (groupReader_waits LosesNoReader).write_waiting (b := true)
    ⟨scriptAddSecond, ⟨trivial, fun _ _ _ => Script.not_silenced_single⟩, rfl, hadd⟩
  have hread := hadded.write_waiting (b := false)
    ⟨otherReads, ⟨trivial, fun _ _ _ => id⟩, rfl, rfl⟩
  exact hread.notify_waiting.wake_waiting ⟨0, .byKey, rfl, hagain⟩ Bool.false_ne_true

/-- The group is destroyed and created again from the beginning. -/
def groupAgain : World ℤ :=
  worldAfter (.act (.op 0 .byKey (.xgroupCreate (ascii "s") (ascii "g") .zero false)))
    (worldAfter (.act (.op 0 .byKey (.xgroupDestroy (ascii "s") (ascii "g"))))
      (groupPolled groupAtEnd))

end BurnerRedis
