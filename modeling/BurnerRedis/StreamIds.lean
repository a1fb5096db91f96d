import BurnerRedis.Invariants
import BurnerRedis.History

/-!
# Stream ids only grow

XADD gives an entry an id above the last one of its stream, with one exception: an automatic id
comes from the sequence number of the last id when the wall clock is not past its milliseconds, and
after the greatest sequence number there is none (`StreamId.HasNext`). In a run whose automatic ids
all have a next one, the last id of a stream bounds its entries, and a new entry is put after all of
them (`Reachable.ids_grow`). Where there is no next one, the new id is not above the last.
-/

open Relation (ReflTransGen)

namespace BurnerRedis

/-! ## The next id -/

/-- There is an id above the last one for an entry that gets its id at this wall clock. -/
def StreamId.HasNext (wall : UInt64) (lastId : StreamId) : Prop :=
  lastId.ms < wall ∨ lastId.seq < StreamId.max.seq

/-- The automatic id at this wall clock. -/
def StreamId.auto (wall : UInt64) (lastId : StreamId) : StreamId :=
  if lastId.ms < wall then ⟨wall, 0⟩ else ⟨lastId.ms, lastId.seq + 1⟩

/-- Adding one wraps around at the end of the 64 bits only. -/
theorem lt_add_one_iff_lt_max (n : UInt64) : n < n + 1 ↔ n < StreamId.max.seq := by
  rw [UInt64.lt_iff_toNat_lt, UInt64.lt_iff_toNat_lt, UInt64.toNat_add]
  have hn := n.toNat_lt
  show n.toNat < (n.toNat + 1) % 2 ^ 64 ↔ n.toNat < 18446744073709551615
  omega

theorem StreamId.lt_auto_iff {wall : UInt64} {lastId : StreamId} :
    lastId < lastId.auto wall ↔ lastId.HasNext wall := by
  unfold StreamId.auto StreamId.HasNext
  rw [StreamId.lt_iff]
  split_ifs with h
  · exact iff_of_true (.inl h) (.inl h)
  · have hms : ¬ lastId.ms < lastId.ms := UInt64.lt_irrefl _
    rw [or_iff_right h, or_iff_right hms, and_iff_right rfl]
    exact lt_add_one_iff_lt_max lastId.seq

theorem newStreamId_auto (wall : UInt64) (lastId : StreamId) :
    newStreamId wall lastId none = some (lastId.auto wall) := by
  unfold newStreamId StreamId.auto
  split_ifs <;> rfl

theorem lt_of_newStreamId {wall : UInt64} {lastId newId : StreamId} {id : Option StreamId}
    (h : newStreamId wall lastId id = some newId) :
    lastId < newId ↔ (id = none → lastId.HasNext wall) := by
  cases id with
  | none =>
    rw [newStreamId_auto, Option.some.injEq] at h
    rw [← h, StreamId.lt_auto_iff, imp_iff_right rfl]
  | some explicitId =>
    unfold newStreamId at h
    dsimp only at h
    split_ifs at h with hle
    cases h
    exact iff_of_true (not_le.mp hle) nofun

/-! ## Adding an entry -/

/-- The stream with a new entry. -/
def Stream.add (s : Stream) (id : StreamId) (fields : Fields) : Stream :=
  { s with entries := s.entries.insert id fields, lastId := id }

theorem Stream.bounded_new : Stream.new.Bounded := by
  intro id hid
  simp [Stream.new] at hid

theorem Stream.Bounded.add {s : Stream} (h : s.Bounded) {id : StreamId} (hid : s.lastId < id)
    (fields : Fields) : (s.add id fields).Bounded := by
  intro i hi
  rw [Stream.add, Std.ExtTreeMap.mem_insert, Std.compare_eq_iff_eq] at hi
  rcases hi with rfl | hi
  · exact le_rfl
  · exact (h i hi).trans hid.le

/-- The live stream under a key, a new one where there is none. -/
def streamAt {S : Type} [LinearOrder S] (now : Instant) (d : Data S) (key : Bytes) : Stream :=
  (liveStream now d key).getD .new

/-- The key's stream has got the entry `newId` at its end, and nothing else has changed in it. -/
structure Appended {S : Type} [LinearOrder S] (now : Instant) (key : Bytes) (newId : StreamId)
    (fields : Fields) (d d' : Data S) : Prop where
  /-- the id is above the last one and above every id in the stream -/
  above : (streamAt now d key).lastId < newId ∧ ∀ id ∈ (streamAt now d key).entries, id < newId
  /-- the new entry is there, and no old one is overwritten -/
  entries : (streamAt now d key).entries[newId]? = none ∧
    (streamAt now d' key).entries = (streamAt now d key).entries.insert newId fields
  lastId : (streamAt now d' key).lastId = newId

section Xadd

variable {S : Type} [LinearOrder S] {now : Instant} {d : Data S} {key : Bytes}

/-- What both forms of XADD do when they succeed. -/
theorem appended_iff {newId : StreamId} {fields : Fields} {d' : Data S}
    (hb : (streamAt now d key).Bounded)
    (h : liveStream now d' key = some ((streamAt now d key).add newId fields)) :
    Appended now key newId fields d d' ↔ (streamAt now d key).lastId < newId := by
  have hs : streamAt now d' key = (streamAt now d key).add newId fields := by
    rw [streamAt, h, Option.getD_some]
  refine ⟨fun ha => ha.above.1, fun hlt => ⟨⟨hlt, fun id hid => (hb id hid).trans_lt hlt⟩, ⟨?_, ?_⟩, ?_⟩⟩
  · rw [← FinMap.not_mem_iff_getElem?]
    intro hmem
    exact absurd hlt (not_lt.mpr (hb newId hmem))
  · rw [hs]
    rfl
  · rw [hs]
    rfl

/-- An upsert of a stream does not fail before its function is applied to the stream there is. -/
theorem upsertStream_ok {ρ : Type} {wrong : ρ} {f : Stream → Stream × ρ}
    (h : (upsertAs .stream now key .new wrong f d).2 ≠ wrong) :
    (upsertAs .stream now key .new wrong f d).2 = (f (streamAt now d key)).2 ∧
      liveStream now (upsertAs .stream now key .new wrong f d).1 key =
        some (f (streamAt now d key)).1 := by
  cases look Kind.stream now key d with
  | absent hl =>
    have hs : streamAt now d key = .new := by
      rw [streamAt, liveStream, hl]
      rfl
    rw [upsertAs_absent hl, hs]
    refine ⟨rfl, liveStream_eq_some.mpr ⟨none, ?_⟩⟩
    rw [live_insert, if_pos rfl]
    rfl
  | wrong en hl hd =>
    rw [upsertAs_wrong hl hd] at h
    exact absurd rfl h
  | found s exp hl =>
    have hs : streamAt now d key = s := by
      rw [streamAt, liveStream_eq_some.mpr ⟨exp, hl⟩, Option.getD_some]
    rw [upsertAs_found hl, hs]
    refine ⟨rfl, ?_⟩
    show liveStream now (d.insert key ⟨.stream (f s).1, exp⟩) key = some (f s).1
    rw [liveStream_insert hl, if_pos rfl]

theorem Store.xadd_ok {e : Env} {fields : Fields} {id : Option StreamId} {newId : StreamId}
    (h : (Store.xadd e key fields id d).2.1 = .ok newId) :
    newStreamId e.wall (streamAt e.now d key).lastId id = some newId ∧
      liveStream e.now (Store.xadd e key fields id d).1 key =
        some ((streamAt e.now d key).add newId fields) := by
  have hne : (Store.xadd e key fields id d).2 ≠ (.error .wrongType, {}) := by
    intro he
    rw [he] at h
    cases h
  obtain ⟨hreply, hstream⟩ := upsertStream_ok hne
  rw [Store.xadd, hreply] at h
  rw [Store.xadd, hstream]
  cases hnew : newStreamId e.wall (streamAt e.now d key).lastId id with
  | none =>
    rw [hnew] at h
    cases h
  | some i =>
    rw [hnew] at h
    cases h
    exact ⟨rfl, rfl⟩

end Xadd

/-! ## Automatic ids of a run -/

/-- An automatic XADD, by a method call, finds a next id. -/
def Op.IdFits {S : Type} [LinearOrder S] (e : Env) (d : Data S) : Op S → Prop
  | .xadd key _ none => (streamAt e.now d key).lastId.HasNext e.wall
  | _ => True

/-- An automatic XADD, in a script, finds a next id. -/
def Script.IdFits {S : Type} [LinearOrder S] (e : Env) (d : Data S) (cmd : String)
    (args : List Bytes) : Prop :=
  ∀ key fields, cmd = "XADD" → args = key :: ascii "*" :: fields → 2 ≤ fields.length →
    fields.length % 2 = 0 → (streamAt e.now d key).lastId.HasNext e.wall

section Ids

variable {S : Type} [Score S] {e : Env} {d : Data S} {key : Bytes}

/-- What the text of an id stands for: an id above the last one, or the automatic id. -/
theorem Script.lt_of_newEntryId {idText : Bytes} {lastId newId : StreamId}
    (h : Script.newEntryId e idText lastId = .ok newId) :
    lastId < newId ↔ (idText = ascii "*" → lastId.HasNext e.wall) := by
  unfold Script.newEntryId at h
  by_cases hstar : idText = ascii "*"
  · rw [if_pos hstar] at h
    have hid : lastId.auto e.wall = newId := Except.ok.inj h
    rw [← hid, StreamId.lt_auto_iff, imp_iff_right hstar]
  · rw [if_neg hstar] at h
    refine iff_of_true ?_ fun hs => absurd hs hstar
    split at h
    · cases h
    · split at h
      · split_ifs at h with hle
        cases h
        exact not_le.mp hle
      · cases h

/-- The reply for an id that is refused is an error. -/
theorem Script.newEntryId_error {idText text : Bytes} {lastId : StreamId}
    (h : Script.newEntryId e idText lastId = .error (bulk text)) : False := by
  unfold Script.newEntryId bulk at h
  split at h
  · cases h
  · split at h
    · cases h
    · split at h
      · split at h <;> cases h
      · cases h

/-- What a script is told when XADD succeeds: the text of the new id. -/
theorem Script.xadd_ok {idText : Bytes} {fields : List Bytes} {text : Bytes}
    (h : (Script.xadd e (key :: idText :: fields) d).2 = bulk text) :
    ∃ newId, text = formatStreamId newId ∧ 2 ≤ fields.length ∧ fields.length % 2 = 0 ∧
      Script.newEntryId e idText (streamAt e.now d key).lastId = .ok newId ∧
      liveStream e.now (Script.xadd e (key :: idText :: fields) d).1 key =
        some ((streamAt e.now d key).add newId (Script.fieldsOf (Script.pairUp fields))) := by
  unfold Script.xadd at h ⊢
  dsimp only at h ⊢
  by_cases harity : fields.length < 2 ∨ fields.length % 2 ≠ 0
  · rw [if_pos harity] at h
    cases h
  · rw [if_neg harity] at h ⊢
    rw [not_or, not_lt, not_not] at harity
    have hne : bulk text ≠ Script.wrongType := nofun
    rw [← h] at hne
    obtain ⟨hreply, hstream⟩ := upsertStream_ok hne
    rw [hreply] at h
    rw [hstream]
    cases hnew : Script.newEntryId e idText (streamAt e.now d key).lastId with
    | error r =>
      rw [hnew] at h
      obtain rfl : r = bulk text := h
      exact (newEntryId_error hnew).elim
    | ok newId =>
      rw [hnew] at h
      have htext : formatStreamId newId = text := by
        cases h
        rfl
      exact ⟨newId, htext.symm, harity.1, harity.2, rfl, rfl⟩

end Ids

/-! ## The last id bounds the entries -/

/-- The value is no stream, or one whose entries are bounded by its last id. -/
def ValueData.Bounded {S : Type} [LinearOrder S] (v : ValueData S) : Prop :=
  ∀ s, v = .stream s → s.Bounded

section Bounded

variable {S : Type} [LinearOrder S] {p : Set Effect} {now : Instant} {d : Data S} {key : Bytes}

theorem StreamStep.bounded (ha : .append ∉ p) {s s' : Stream} (st : StreamStep p s s')
    (h : s.Bounded) : s'.Bounded := by
  cases st with
  | append _ _ hp => exact absurd hp ha
  | discard i =>
    intro id hid
    exact h id (Std.ExtTreeMap.mem_erase.mp hid).2
  | create => exact h
  | destroy => exact h
  | group => exact h

theorem bounded_kept (ha : .append ∉ p) : Kept p (ValueData.Bounded (S := S)) := by
  rintro old x h ev s rfl
  cases ev with
  | stream s₀ _ hs st =>
    have h₀ : s₀.Bounded := by
      cases hs with
      | found => exact h _ rfl s₀ rfl
      | absent => exact Stream.bounded_new
    induction st with
    | refl => exact h₀
    | tail _ hst ih => exact hst.bounded ha ih

theorem bounded_resetTimes (now : Instant) (v : ValueData S) (h : v.Bounded) :
    (v.resetTimes now).Bounded := by
  cases v with
  | stream s =>
    rintro s' hs'
    cases hs'
    exact h s rfl
  | _ => exact h

theorem Holds.streamAt_bounded (h : Holds ValueData.Bounded d) : (streamAt now d key).Bounded := by
  unfold streamAt
  cases hs : liveStream now d key with
  | none => exact Stream.bounded_new
  | some s =>
    obtain ⟨exp, hl⟩ := liveStream_eq_some.mp hs
    exact h.live hl s rfl

/-- An upsert of a stream keeps it bounded when its function does so for the stream there is. -/
theorem upsertStream_bounded {ρ : Type} {wrong : ρ} {f : Stream → Stream × ρ}
    (h : Holds ValueData.Bounded d)
    (hf : (streamAt now d key).Bounded → (f (streamAt now d key)).1.Bounded) :
    Holds ValueData.Bounded (upsertAs .stream now key .new wrong f d).1 := by
  refine upsertAs_holds h (fun hl => ?_) fun s exp hl _ => ?_
  · have hs : streamAt now d key = .new := by
      rw [streamAt, liveStream, hl]
      rfl
    rw [hs] at hf
    intro s' hs'
    rw [← ValueData.stream.inj hs']
    exact hf Stream.bounded_new
  · have hs : streamAt now d key = s := by
      rw [streamAt, liveStream_eq_some.mpr ⟨exp, hl⟩, Option.getD_some]
    have hb : (streamAt now d key).Bounded := h.streamAt_bounded
    rw [hs] at hf hb
    intro s' hs'
    rw [← ValueData.stream.inj hs']
    exact hf hb

theorem Store.xadd_bounded {e : Env} {fields : Fields} {id : Option StreamId}
    (h : Holds ValueData.Bounded d) (hid : Op.IdFits e d (.xadd key fields id)) :
    Holds ValueData.Bounded (Store.xadd e key fields id d).1 := by
  refine upsertStream_bounded h fun hb => ?_
  cases hnew : newStreamId e.wall (streamAt e.now d key).lastId id with
  | none => exact hb
  | some newId =>
    refine hb.add ((lt_of_newStreamId hnew).mpr fun hnone => ?_) fields
    subst hnone
    exact hid

end Bounded

section Steps

variable {S : Type} [Score S] {e : Env} {d : Data S}

/-- A push wakes clients on lists only. -/
theorem Store.pushAs_stream {side : ListEnd} {arity : String} {key : Bytes} {values : List Bytes} :
    (Store.pushAs side arity e key values d).2.2.stream = false := by
  unfold Store.pushAs
  split_ifs
  · rfl
  · cases look Kind.list e.now key d with
    | absent hl => rw [upsertAs_absent hl]
    | wrong en hl hd => rw [upsertAs_wrong hl hd]
    | found l exp hl => rw [upsertAs_found hl]

theorem Store.lmoveAtomic_stream {src dst : Bytes} {srcFrom dstTo : ListEnd} :
    (Store.lmoveAtomic e src dst srcFrom dstTo d).2.2.stream = false := by
  unfold Store.lmoveAtomic Store.moveAs Store.pushMoved
  dsimp only
  repeat' split
  all_goals rfl

/-- XADD alone appends to streams. -/
theorem Op.append_not_mem {o : Op S} (hx : ∀ key fields id, o ≠ .xadd key fields id) :
    Effect.append ∉ (o.run e d).2.effects ∪ o.effects := by
  have hw : (o.run e d).2.stream = false := by
    cases o with
    | xadd key fields id => exact absurd rfl (hx key fields id)
    | lpush => exact Store.pushAs_stream
    | rpush => exact Store.pushAs_stream
    | lmoveAtomic => exact Store.lmoveAtomic_stream
    | rpoplpushAtomic => exact Store.lmoveAtomic_stream
    | _ => rfl
  rintro ((⟨-, h⟩ | ⟨h, -⟩) | h)
  · rw [hw] at h
    cases h
  · cases h
  · cases o <;> cases h

theorem Op.run_bounded {o : Op S} (hid : o.IdFits e d) (h : Holds ValueData.Bounded d) :
    Holds ValueData.Bounded (o.run e d).1 := by
  by_cases hx : ∃ key fields id, o = .xadd key fields id
  · obtain ⟨key, fields, id, rfl⟩ := hx
    exact Store.xadd_bounded h hid
  · refine (o.run_edits e d).moves.holds (bounded_kept (Op.append_not_mem ?_)) h
    intro key fields id ho
    exact hx ⟨key, fields, id, ho⟩

theorem Script.xadd_bounded {args : List Bytes} (h : Holds ValueData.Bounded d)
    (hid : Script.IdFits e d "XADD" args) :
    Holds ValueData.Bounded (Script.xadd e args d).1 := by
  unfold Script.xadd
  split
  · rename_i key idText fields
    split_ifs with harity
    · exact h
    · rw [not_or, not_lt, not_not] at harity
      refine upsertStream_bounded h fun hb => ?_
      cases hnew : Script.newEntryId e idText (streamAt e.now d key).lastId with
      | error r => exact hb
      | ok newId =>
        refine hb.add ((Script.lt_of_newEntryId hnew).mpr fun hstar => ?_) _
        subst hstar
        exact hid key fields rfl rfl harity.1 harity.2
  · exact h

theorem Script.dispatchInner_bounded {cmd : String} {args : List Bytes}
    (hid : Script.IdFits e d cmd args) (h : Holds ValueData.Bounded d) :
    Holds ValueData.Bounded (Script.dispatchInner e cmd args d).1 := by
  by_cases hx : cmd = "XADD"
  · subst hx
    exact Script.xadd_bounded h hid
  · refine (Script.dispatchInner_edits (p := scriptEffects) (.inl rfl) (.inr rfl) e cmd args
      d).moves.holds (bounded_kept ?_) h
    rintro ((⟨-, hw⟩ | ⟨hw, -⟩) | hw)
    · unfold Script.wakes at hw
      split at hw
      · cases hw
      · have hne : (cmd == "XADD") = false := beq_false_of_ne hx
        rw [hne] at hw
        cases hw
    · cases hw
    · rcases hw with hw | hw <;> cases hw

/-- In a run whose automatic ids have a next one, the last id of a stream bounds its entries. -/
theorem Reachable.bounded {sha1 : String → String} {now : Instant} {st : Store S}
    (h : Reachable (Action.Meets Op.IdFits Script.IdFits) sha1 now st) :
    Holds ValueData.Bounded st.data :=
  h.holds_of_steps bounded_resetTimes (fun _ _ _ hid => Op.run_bounded hid)
    fun _ _ _ _ hid => Script.dispatchInner_bounded hid

/-- In a run whose automatic ids have a next one, the last id of a stream bounds its entries, and
a successful XADD, by a method call or in a script, puts the entry after all of them; at any clock
readings, this is exactly where an automatic id has a next one. The state in the middle of a script
is that after the script that stops there. -/
theorem Reachable.ids_grow {sha1 : String → String} {now : Instant} {st : Store S}
    (h : Reachable (Action.Meets Op.IdFits Script.IdFits) sha1 now st) :
    (∀ (key : Bytes) (s : Stream) (exp : Option Instant), st.data[key]? = some ⟨.stream s, exp⟩ →
      ∀ id ∈ s.entries, id ≤ s.lastId) ∧
    ∀ e : Env, e.now = now → ∀ key : Bytes,
      (∀ fields id newId, (Store.xadd e key fields id st.data).2.1 = .ok newId →
        (Appended now key newId fields st.data (Store.xadd e key fields id st.data).1 ↔
          Op.IdFits e st.data (.xadd key fields id))) ∧
      ∀ idText fields text,
        (Script.dispatchInner e "XADD" (key :: idText :: fields) st.data).2 = Script.bulk text →
        ∃ newId, text = formatStreamId newId ∧
          (Appended now key newId (Script.fieldsOf (Script.pairUp fields)) st.data
              (Script.dispatchInner e "XADD" (key :: idText :: fields) st.data).1 ↔
            Script.IdFits e st.data "XADD" (key :: idText :: fields)) := by
  have hb := h.bounded
  refine ⟨fun key s exp hs => hb key _ hs s rfl, ?_⟩
  rintro e rfl key
  constructor
  · intro fields id newId hok
    obtain ⟨hnew, hstream⟩ := Store.xadd_ok hok
    rw [appended_iff hb.streamAt_bounded hstream, lt_of_newStreamId hnew]
    cases id with
    | none => exact imp_iff_right rfl
    | some explicitId => exact iff_of_true nofun trivial
  · intro idText fields text hok
    obtain ⟨newId, htext, hlen, heven, hnew, hstream⟩ := Script.xadd_ok hok
    refine ⟨newId, htext, (appended_iff hb.streamAt_bounded hstream).trans ?_⟩
    rw [Script.lt_of_newEntryId hnew]
    constructor
    · rintro hnext _ _ - hargs - -
      cases hargs
      exact hnext rfl
    · rintro hid rfl
      exact hid key fields rfl rfl hlen heven

/-- An entry at a time that is ahead of the wall clock, and an automatic one after it. -/
def aheadActions : List (Action ℤ) :=
  [.op 0 .byKey (.xadd (ascii "s") ∅ (some ⟨9, 0⟩)), .op 5 .byKey (.xadd (ascii "s") ∅ none)]

theorem ahead_ids_grow :
    Appended 0 (ascii "s") ⟨9, 2⟩ ∅ (runActions id (0, ⟨∅, ∅⟩) aheadActions).2.data
      (Store.xadd ⟨0, 5, .byKey⟩ (ascii "s") ∅ none
        (runActions id (0, ⟨∅, ∅⟩) aheadActions).2.data).1 := by
  have hfirst : Reachable (Action.Meets Op.IdFits Script.IdFits) id 0
      (runActions id (0, ⟨∅, ∅⟩) (aheadActions.take 1)).2 :=
    .act (.op 0 .byKey (.xadd (ascii "s") ∅ (some ⟨9, 0⟩))) trivial (.empty 0)
  have hsecond : Reachable (Action.Meets Op.IdFits Script.IdFits) id 0
      (runActions id (0, ⟨∅, ∅⟩) aheadActions).2 :=
    .act (.op 5 .byKey (.xadd (ascii "s") ∅ none)) (.inr (by decide +kernel)) hfirst
  have hok : (Store.xadd ⟨0, 5, .byKey⟩ (ascii "s") ∅ none
      (runActions id (0, ⟨∅, ∅⟩) aheadActions).2.data).2.1 = .ok ⟨9, 2⟩ :=
    eq_ok_of_toOption (by decide +kernel)
  exact (((Reachable.ids_grow hsecond).2 ⟨0, 5, .byKey⟩ rfl (ascii "s")).1 ∅ none ⟨9, 2⟩ hok).mpr
    (.inr (by decide +kernel))

/-- A stream whose last id has the greatest sequence number. -/
def lastSequence : Instant × Store ℤ :=
  runActions id (0, ⟨∅, ∅⟩) [.op 0 .byKey (.xadd (ascii "s") ∅ (some ⟨5, StreamId.max.seq⟩))]

theorem lastSequence_wraps :
    Reachable anyAction id lastSequence.1 lastSequence.2 ∧
      (streamAt 0 lastSequence.2.data (ascii "s")).lastId = ⟨5, StreamId.max.seq⟩ ∧
      (Store.xadd ⟨0, 5, .byKey⟩ (ascii "s") ∅ none lastSequence.2.data).2.1 = .ok ⟨5, 0⟩ ∧
      ¬ (⟨5, StreamId.max.seq⟩ : StreamId) < ⟨5, 0⟩ ∧
      (Script.dispatchInner ⟨0, 5, .byKey⟩ "XADD" [ascii "s", ascii "*", ascii "f", ascii "v"]
        lastSequence.2.data).2 = Script.bulk (formatStreamId ⟨5, 0⟩) := by
  refine ⟨Reachable.runActions (.empty 0) _, by decide +kernel, ?_, by decide, ?_⟩
  · exact eq_ok_of_toOption (by decide +kernel)
  · rfl

end Steps

end BurnerRedis
