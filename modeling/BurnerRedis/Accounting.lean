import BurnerRedis.StreamIds

/-!
# What becomes of the entries of a group

`AccountedRun` is the runs on one stream whose key is never deleted and never expires, with claims
that are not forced. Along them every group accounts for its history (`AccountedRun.tracked`), so
each entry above the id the group was created with is undelivered, pending at one consumer or
acknowledged, and what reads of new entries deliver increases (`AccountedRun.accounted`).
-/

open Relation (ReflTransGen)

namespace BurnerRedis

/-! ## Runs and their history -/

section Record

variable {S : Type} [LinearOrder S]

/-- The history after an attempt to create the group. -/
def recordCreate (start : StreamId) (h : Option GroupHistory) :
    Except StoreError Unit → Option GroupHistory
  | .ok _ => some ⟨start, [], []⟩
  | .error _ => h

/-- The history of a group after a command on `d`; none while there is no such group. -/
def recordOp (group : Bytes) (e : Env) (d : Data S) (h : Option GroupHistory) :
    Op S → Option GroupHistory
  | .xgroupCreate k g id mkstream =>
    if g = group then
      recordCreate (Store.resolveGroupId id ((liveStream e.now d k).getD .new)) h
        (Store.xgroupCreate e k g id mkstream d).2
    else h
  | .xgroupDestroy _ g => if g = group then none else h
  | .xreadgroup g consumer keys ids count =>
    if g = group then
      h.map fun h => { h with
        delivered := h.delivered ++ readIds (Store.xreadgroup e g consumer keys ids count d).2 }
    else h
  | .xack k g ids =>
    if g = group then
      h.map fun h => { h with
        acked := h.acked ++ ids.filter fun id =>
          (liveGroup e.now d k g).any fun cg => cg.isPending id }
    else h
  | _ => h

/-- The commands of an accounted run, all on `key`. The sequence number of an automatic id does not
wrap around. -/
def AccountedOp (key : Bytes) (now : Instant) (d : Data S) : Op S → Prop
  | .xadd k _ id => k = key ∧ (id = none → ∀ s ∈ liveStream now d key, s.lastId.seq < 18446744073709551615)
  | .xgroupCreate k _ _ _ => k = key
  | .xgroupDestroy k _ => k = key
  | .xreadgroup _ _ keys ids _ => keys = [key] ∧ ids = [ascii ">"]
  | .xack k _ _ => k = key
  | .xclaim k _ _ _ _ o => k = key ∧ o.force = false
  | .xautoclaim k _ _ _ _ _ => k = key
  | .xdel k _ => k = key
  | .xtrim k _ _ => k = key
  | _ => False

/-- The data and the history along a run that starts before the stream is there. -/
inductive AccountedRun (key group : Bytes) : Data S → Option GroupHistory → Prop where
  | start (d : Data S) (hd : d[key]? = none) : AccountedRun key group d none
  | step {d : Data S} {h : Option GroupHistory} (e : Env) (o : Op S)
      (ho : AccountedOp key e.now d o) (r : AccountedRun key group d h) :
      AccountedRun key group (o.run e d).1 (recordOp group e d h o)

end Record

/-! ## Streams along a run -/

/-- The invariant of a stream, for a group that may not be there. -/
def Stream.Tracks (s : Stream) (group : Bytes) (h : Option GroupHistory) : Prop :=
  s.Bounded ∧ match h with
    | none => s.groups[group]? = none
    | some h => ∃ cg, s.groups[group]? = some cg ∧ Accounts s cg h

namespace Stream.Tracks

variable {s : Stream} {group : Bytes} {h : Option GroupHistory}

theorem new (group : Bytes) : Stream.new.Tracks group none := by
  refine ⟨fun id hid => ?_, ?_⟩
  · simp [Stream.new] at hid
  · simp [Stream.new]

/-- A change to the entries that keeps the invariant of every group. -/
theorem of_accounts (t : s.Tracks group h) {s' : Stream} (hb : s'.Bounded)
    (hg : s'.groups = s.groups) (ha : ∀ cg hist, Accounts s cg hist → Accounts s' cg hist) :
    s'.Tracks group h := by
  refine ⟨hb, ?_⟩
  cases h with
  | none => exact hg ▸ t.2
  | some hist =>
    obtain ⟨cg, hcg, hacc⟩ := t.2
    exact ⟨cg, hg ▸ hcg, ha cg hist hacc⟩

theorem discard (t : s.Tracks group h) (ids : List StreamId) : (s.discard ids).Tracks group h := by
  obtain ⟨hg, hl, he⟩ := s.discard_spec ids
  refine t.of_accounts (fun id hid => ?_) hg fun _ _ a => a.discard he hl
  rw [hl]
  exact t.1 id (he id hid)

/-- A group other than the one under observation may change at will. -/
theorem other (t : s.Tracks group h) {s' : Stream} (he : s'.entries = s.entries)
    (hl : s'.lastId = s.lastId) (hg : s'.groups[group]? = s.groups[group]?) :
    s'.Tracks group h := by
  refine ⟨fun id hid => ?_, ?_⟩
  · rw [he] at hid
    rw [hl]
    exact t.1 id hid
  · cases h with
    | none => exact hg.trans t.2
    | some hist =>
      obtain ⟨cg, hcg, hacc⟩ := t.2
      exact ⟨cg, hg.trans hcg, hacc.discard (fun id hid => he ▸ hid) hl⟩

/-- The group under observation is put back with a history that accounts for it. -/
theorem putGroup (t : s.Tracks group h) {cg : ConsumerGroup} {hist : GroupHistory}
    (ha : Accounts s cg hist) : (s.putGroup group cg).Tracks group (some hist) := by
  refine ⟨t.1, cg, ?_, ha.discard (fun _ hid => hid) rfl⟩
  rw [Stream.putGroup_groups, if_pos rfl]

end Stream.Tracks

section Tracked

variable {S : Type} [LinearOrder S] {key group : Bytes} {d : Data S} {h h' : Option GroupHistory}

/-- The invariant of the data: no stream yet, or one without an expiry that is accounted for. -/
inductive Tracked (key group : Bytes) (d : Data S) : Option GroupHistory → Prop where
  | absent (hd : d[key]? = none) : Tracked key group d none
  | found (s : Stream) (h : Option GroupHistory) (hd : d[key]? = some ⟨.stream s, none⟩)
      (ht : s.Tracks group h) : Tracked key group d h

theorem live_of_absent (now : Instant) (hd : d[key]? = none) : live now d key = none := by
  rw [live, hd]
  rfl

theorem live_of_immortal (now : Instant) {s : Stream} (hd : d[key]? = some ⟨.stream s, none⟩) :
    live now d key = some ⟨.stream s, none⟩ :=
  live_eq_some.mpr ⟨hd, rfl⟩

theorem Tracked.insert {s : Stream} (ht : s.Tracks group h) :
    Tracked key group (d.insert key ⟨.stream s, none⟩) h :=
  .found s h (by rw [FinMap.getElem?_insert', if_pos rfl]) ht

theorem Tracked.purge (t : Tracked key group d h) (now : Instant) :
    Tracked key group (purge now key d) h := by
  cases t with
  | absent hd => exact .absent (by rw [getElem?_purge, live_of_absent now hd])
  | found s h hd ht => exact .found s h (by rw [getElem?_purge, live_of_immortal now hd]) ht

variable {ρ : Type} {now : Instant} {absent wrong : ρ} {f : Stream → Stream × ρ}

theorem Tracked.modify (t : Tracked key group d h) (hn : d[key]? = none → h' = h)
    (hf : ∀ s, d[key]? = some ⟨.stream s, none⟩ → s.Tracks group h → (f s).1.Tracks group h') :
    Tracked key group (modifyAs .stream now key absent wrong f d).1 h' := by
  cases t with
  | absent hd =>
    rw [modifyAs_absent (live_of_absent now hd), hn hd]
    exact (Tracked.absent hd).purge now
  | found s h hd ht =>
    rw [modifyAs_found (t := .stream) (live_of_immortal now hd)]
    exact .insert (hf s hd ht)

theorem Tracked.upsert (t : Tracked key group d h)
    (hn : d[key]? = none → (f .new).1.Tracks group h')
    (hf : ∀ s, d[key]? = some ⟨.stream s, none⟩ → s.Tracks group h → (f s).1.Tracks group h') :
    Tracked key group (upsertAs .stream now key .new wrong f d).1 h' := by
  cases t with
  | absent hd =>
    rw [upsertAs_absent (live_of_absent now hd)]
    exact .insert (hn hd)
  | found s h hd ht =>
    rw [upsertAs_found (t := .stream) (live_of_immortal now hd)]
    exact .insert (hf s hd ht)

/-- A command on a group that is there: the history follows when it is the group under
observation. -/
theorem Tracked.modifyGroup {g : Bytes} {f : Stream → ConsumerGroup → ConsumerGroup × ρ}
    (upd : GroupHistory → GroupHistory) (t : Tracked key group d h)
    (hh : h' = if g = group then h.map upd else h)
    (hf : g = group → ∀ s cg hist, d[key]? = some ⟨.stream s, none⟩ → s.groups[group]? = some cg →
      Accounts s cg hist → Accounts s (f s cg).1 (upd hist)) :
    Tracked key group (Store.modifyGroup now key g absent wrong f d).1 h' := by
  refine t.modify (fun hd => ?_) fun s hd ht => ?_
  · cases t with
    | absent => rw [hh]; split_ifs <;> rfl
    | found s _ hd' => rw [hd] at hd'; cases hd'
  · cases hg : s.groups[g]? with
    | none =>
      have hsame : h' = h := by
        rw [hh]
        split_ifs with he
        · subst he
          cases h with
          | none => rfl
          | some hist =>
            obtain ⟨cg, hcg, -⟩ := ht.2
            rw [hg] at hcg
            cases hcg
        · rfl
      rw [hsame]
      exact ht
    | some cg =>
      show (s.putGroup g (f s cg).1).Tracks group h'
      by_cases he : g = group
      · subst he
        rw [hh, if_pos rfl]
        cases h with
        | none =>
          have hnone : s.groups[g]? = none := ht.2
          rw [hg] at hnone
          cases hnone
        | some hist =>
          obtain ⟨cg', hcg, hacc⟩ := ht.2
          obtain rfl : cg = cg' := Option.some.inj (hg.symm.trans hcg)
          exact ht.putGroup (hf rfl s cg hist hd hg hacc)
      · rw [hh, if_neg he]
        refine ht.other rfl rfl ?_
        rw [Stream.putGroup_groups, if_neg he]

/-! ### The commands -/

/-- An entry above the last one goes to the end. -/
theorem Stream.Tracks.add {s : Stream} {newId : StreamId} (t : s.Tracks group h)
    (hlt : s.lastId < newId) (fields : Fields) : (s.add newId fields).Tracks group h := by
  refine t.of_accounts (t.1.add hlt fields) rfl fun _ _ a => a.append hlt (fun i hi => ?_) rfl
  rw [Stream.add, Std.ExtTreeMap.mem_insert, Std.compare_eq_iff_eq] at hi
  exact hi.imp_left Eq.symm

theorem Tracked.xadd (t : Tracked key group d h) (e : Env) (fields : Fields)
    (id : Option StreamId)
    (hseq : id = none → ∀ s ∈ liveStream e.now d key, s.lastId.seq < 18446744073709551615) :
    Tracked key group (Store.xadd e key fields id d).1 h := by
  refine t.upsert (fun hd => ?_) fun s hd ht => ?_
  · cases t with
    | absent =>
      cases hnew : newStreamId e.wall Stream.new.lastId id with
      | none => exact .new group
      | some newId =>
        have hlt : Stream.new.lastId < newId :=
          (lt_of_newStreamId hnew).mpr fun _ => .inr (by decide)
        exact (Stream.Tracks.new group).add hlt fields
    | found s _ hd' => rw [hd] at hd'; cases hd'
  · have hlive : s ∈ liveStream e.now d key :=
      liveStream_eq_some.mpr ⟨none, live_of_immortal e.now hd⟩
    cases hnew : newStreamId e.wall s.lastId id with
    | none => exact ht
    | some newId =>
      have hlt : s.lastId < newId := (lt_of_newStreamId hnew).mpr fun hid => .inr (hseq hid s hlive)
      exact ht.add hlt fields

theorem Stream.Tracks.createGroup {s : Stream} (t : s.Tracks group h) (g : Bytes) (id : StreamId) :
    (Store.createGroup g id s).1.Tracks group
      (if g = group then recordCreate (Store.resolveGroupId id s) h (Store.createGroup g id s).2
        else h) := by
  unfold Store.createGroup
  cases hg : s.groups[g]? with
  | some cg =>
    dsimp only [recordCreate]
    rw [ite_self]
    exact t
  | none =>
    dsimp only [recordCreate]
    split_ifs with he
    · subst he
      exact t.putGroup (.new s _)
    · refine t.other rfl rfl ?_
      rw [FinMap.getElem?_insert', if_neg he]

theorem Tracked.xgroupCreate (t : Tracked key group d h) (e : Env) (g : Bytes) (id : StreamId)
    (mkstream : Bool) :
    Tracked key group (Store.xgroupCreate e key g id mkstream d).1
      (recordOp group e d h (.xgroupCreate key g id mkstream)) := by
  dsimp only [recordOp]
  cases t with
  | absent hd =>
    have hl := live_of_absent e.now hd
    have hs : liveStream e.now d key = none := by rw [liveStream, hl]; rfl
    rw [hs, Option.getD_none]
    cases mkstream with
    | true =>
      have hres : Store.xgroupCreate e key g id true d =
          (d.insert key ⟨.stream (Store.createGroup g id .new).1, none⟩,
            (Store.createGroup g id .new).2) := upsertAs_absent hl
      rw [hres]
      exact .insert ((Stream.Tracks.new group).createGroup g id)
    | false =>
      have hres : Store.xgroupCreate e key g id false d =
          (BurnerRedis.purge e.now key d, .error .keyNotFound) := modifyAs_absent hl
      rw [hres]
      dsimp only [recordCreate]
      rw [ite_self]
      exact Tracked.purge (.absent hd) e.now
  | found s h hd ht =>
    have hl := live_of_immortal e.now hd
    have hs : liveStream e.now d key = some s := liveStream_eq_some.mpr ⟨none, hl⟩
    have hres : Store.xgroupCreate e key g id mkstream d =
        (d.insert key ⟨.stream (Store.createGroup g id s).1, none⟩,
          (Store.createGroup g id s).2) := by
      cases mkstream with
      | true => exact upsertAs_found (t := .stream) hl
      | false => exact modifyAs_found (t := .stream) hl
    rw [hs, Option.getD_some, hres]
    exact .insert (ht.createGroup g id)

theorem Tracked.xgroupDestroy (t : Tracked key group d h) (e : Env) (g : Bytes) :
    Tracked key group (Store.xgroupDestroy e key g d).1 (if g = group then none else h) := by
  refine t.modify (fun hd => ?_) fun s hd ht => ?_
  · cases t with
    | absent => rw [ite_self]
    | found s _ hd' => rw [hd] at hd'; cases hd'
  · split_ifs with he
    · subst he
      refine ⟨ht.1, ?_⟩
      exact (FinMap.getElem?_erase' s.groups g g).trans (if_pos rfl)
    · refine ht.other rfl rfl ?_
      exact (FinMap.getElem?_erase' s.groups g group).trans (if_neg he)

/-- What a read of one key has in its reply. -/
theorem readIds_push (key : Bytes) (entries : Entries) :
    readIds ((Except.ok []).map (ReadReply.push key entries)) = entries.map Prod.fst := by
  cases entries with
  | nil => rfl
  | cons x entries =>
    show ([(key, x :: entries)] : ReadReply).flatMap (fun p => p.2.map Prod.fst) = _
    rw [List.flatMap_cons, List.flatMap_nil, List.append_nil]

theorem Tracked.xreadgroup (t : Tracked key group d h) (e : Env) (g consumer : Bytes)
    (count : Option ℕ) :
    Tracked key group (Store.xreadgroup e g consumer [key] [ascii ">"] count d).1
      (recordOp group e d h (.xreadgroup g consumer [key] [ascii ">"] count)) := by
  dsimp only [recordOp, Store.xreadgroup]
  rw [List.zip_cons_cons, List.zip_nil_left]
  rcases Store.xreadgroupPairs_cons e g consumer count key (ascii ">") [] d with
    ⟨-, err, herr⟩ | ⟨s, exp, cg, hl, hcg, hcons⟩
  · -- nothing is delivered and nothing recorded
    have hsame : (if g = group then h.map fun h => { h with
        delivered := h.delivered ++ readIds (.error err) } else h) = h := by
      split_ifs
      · cases h with
        | none => rfl
        | some hist => rw [Option.map_some, readIds, List.append_nil]
      · rfl
    rw [herr, hsame]
    exact t.purge e.now
  · cases t with
    | absent hd =>
      rw [live_of_absent e.now hd] at hl
      cases hl
    | found s' h hd ht =>
      rw [live_of_immortal e.now hd] at hl
      cases hl
      rw [hcons]
      dsimp only
      rw [Store.xreadgroupPairs, readIds_push]
      refine .insert ?_
      unfold Store.readOne
      rw [if_pos rfl]
      dsimp only
      split_ifs with he
      · subst he
        cases h with
        | none =>
          have hnone : s.groups[g]? = none := ht.2
          rw [hcg] at hnone
          cases hnone
        | some hist =>
          obtain ⟨cg', hcg', hacc⟩ := ht.2
          obtain rfl : cg = cg' := Option.some.inj (hcg.symm.trans hcg')
          exact ht.putGroup (hacc.deliver ht.1 e.now consumer count)
      · refine ht.other rfl rfl ?_
        rw [Stream.putGroup_groups, if_neg he]

theorem Tracked.xack (t : Tracked key group d h) (e : Env) (g : Bytes) (ids : List StreamId) :
    Tracked key group (Store.xack e key g ids d).1 (recordOp group e d h (.xack key g ids)) := by
  unfold Store.xack
  refine t.modifyGroup _ rfl fun he s cg hist hd hcg hacc => ?_
  subst he
  have hs : liveStream e.now d key = some s :=
    liveStream_eq_some.mpr ⟨none, live_of_immortal e.now hd⟩
  rw [liveGroup_eq_some.mpr ⟨s, hs, hcg⟩]
  exact hacc.ack e.walk ids

/-- A claim that is not forced changes no history. -/
theorem Tracked.claim {g : Bytes} {f : Stream → ConsumerGroup → ConsumerGroup × ρ}
    (t : Tracked key group d h) (hf : ∀ s cg, ReflTransGen (GroupStep ∅) cg (f s cg).1) :
    Tracked key group (Store.modifyGroup now key g absent wrong f d).1 h := by
  refine t.modifyGroup id ?_ fun _ s cg hist _ _ hacc => hacc.moves (hf s cg)
  rw [Option.map_id, id_eq, ite_self]

theorem Tracked.xclaim (t : Tracked key group d h) (e : Env) (g consumer : Bytes) (minIdle : UInt64)
    (ids : List StreamId) {o : XclaimOptions} (hforce : o.force = false) :
    Tracked key group (Store.xclaim e key g consumer minIdle ids o d).1 h := by
  unfold Store.xclaim
  refine t.claim fun s cg => ConsumerGroup.foldl_claimOne_steps (fun hf => ?_) ids []
  rw [hforce] at hf
  cases hf

theorem Tracked.xautoclaim (t : Tracked key group d h) (e : Env) (g consumer : Bytes)
    (minIdle : UInt64) (start : StreamId) (count : Option ℕ) :
    Tracked key group (Store.xautoclaim e key g consumer minIdle start count d).1 h := by
  unfold Store.xautoclaim
  refine t.claim fun s cg => ?_
  refine ConsumerGroup.foldl_autoclaimOne_steps e.now consumer ?_ fun q hq => ?_
  · exact (cg.pairwise_qualifying e _ start).sublist (ConsumerGroup.takeCount_sublist count _)
  · exact ConsumerGroup.mem_qualifying ((ConsumerGroup.takeCount_sublist count _).subset hq)

theorem Tracked.xdel (t : Tracked key group d h) (e : Env) (ids : List StreamId) :
    Tracked key group (Store.xdel e key ids d).1 h := by
  unfold Store.xdel
  exact t.modify (fun _ => rfl) fun s _ ht => ht.discard ids

theorem Tracked.xtrim (t : Tracked key group d h) (e : Env) (maxlen : Option ℕ)
    (minid : Option StreamId) : Tracked key group (Store.xtrim e key maxlen minid d).1 h := by
  unfold Store.xtrim
  exact t.modify (fun _ => rfl) fun s _ ht => (ht.discard _).discard _

/-! ### Whole runs -/

theorem AccountedOp.tracked {e : Env} {o : Op S} (ho : AccountedOp key e.now d o)
    (t : Tracked key group d h) : Tracked key group (o.run e d).1 (recordOp group e d h o) := by
  cases o with
  | xadd k fields id =>
    obtain ⟨rfl, hseq⟩ := ho
    exact t.xadd e fields id hseq
  | xgroupCreate k g id mkstream =>
    obtain rfl : k = key := ho
    exact t.xgroupCreate e g id mkstream
  | xgroupDestroy k g =>
    obtain rfl : k = key := ho
    exact t.xgroupDestroy e g
  | xreadgroup g consumer keys ids count =>
    obtain ⟨rfl, rfl⟩ := ho
    exact t.xreadgroup e g consumer count
  | xack k g ids =>
    obtain rfl : k = key := ho
    exact t.xack e g ids
  | xclaim k g consumer minIdle ids o =>
    obtain ⟨rfl, hforce⟩ := ho
    exact t.xclaim e g consumer minIdle ids hforce
  | xautoclaim k g consumer minIdle start count =>
    obtain rfl : k = key := ho
    exact t.xautoclaim e g consumer minIdle start count
  | xdel k ids =>
    obtain rfl : k = key := ho
    exact t.xdel e ids
  | xtrim k maxlen minid =>
    obtain rfl : k = key := ho
    exact t.xtrim e maxlen minid
  | _ => exact absurd ho id

theorem AccountedRun.tracked (r : AccountedRun key group d h) : Tracked key group d h := by
  induction r with
  | start d hd => exact .absent hd
  | step e o ho _ ih => exact ho.tracked ih

/-- The three states of an entry that a group is to deliver, of which it is in one. -/
def EntryState (cg : ConsumerGroup) (acked : List StreamId) (id : StreamId) : Prop :=
  (cg.lastDeliveredId < id ∧ (∀ c, ¬ cg.owns c id) ∧ id ∉ acked) ∨
  (id ≤ cg.lastDeliveredId ∧ (∃! c, cg.owns c id) ∧ id ∉ acked) ∨
  (id ≤ cg.lastDeliveredId ∧ (∀ c, ¬ cg.owns c id) ∧ id ∈ acked)

theorem Accounts.entryState {s : Stream} {cg : ConsumerGroup} {hist : GroupHistory}
    (a : Accounts s cg hist) {id : StreamId} (hid : id ∈ s.entries) (hstart : hist.start < id) :
    EntryState cg hist.acked id := by
  by_cases hle : id ≤ cg.lastDeliveredId
  · rcases a.covered id hid hstart hle with ⟨c, hc⟩ | hack
    · refine .inr (.inl ⟨hle, ⟨c, hc, fun c' hc' => a.unique hc' hc⟩, fun hack => ?_⟩)
      exact a.settled id hack c hc
    · exact .inr (.inr ⟨hle, a.settled id hack, hack⟩)
  · refine .inl ⟨not_le.mp hle, fun c hc => ?_, fun hack => ?_⟩
    · exact hle (a.delivered_le id (a.owned c id hc))
    · exact hle (a.delivered_le id (a.acked id hack))

end Tracked

/-- Two entries, read one at a time, the first acknowledged. -/
def readAndAcked : Data ℤ × Option GroupHistory :=
  [Op.xadd (ascii "s") ∅ (some ⟨1, 0⟩), .xgroupCreate (ascii "s") (ascii "g") .zero false,
    .xreadgroup (ascii "g") (ascii "c") [ascii "s"] [ascii ">"] none,
    .xack (ascii "s") (ascii "g") [⟨1, 0⟩], .xadd (ascii "s") ∅ none,
    .xreadgroup (ascii "g") (ascii "c") [ascii "s"] [ascii ">"] (some 1)].foldl
    (fun m o => ((o.run ⟨0, 0, .byKey⟩ m.1).1, recordOp (ascii "g") ⟨0, 0, .byKey⟩ m.1 m.2 o))
    (∅, none)

end BurnerRedis
