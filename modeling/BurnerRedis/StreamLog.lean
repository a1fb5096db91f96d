import BurnerRedis.CollectionRefinement
import BurnerRedis.Lib.EntryOrder
import BurnerRedis.StreamIds

/-!
# A stream is a log

A stream is for a log: entries in the order in which they were added, under ids that grow, and the
last id that was given out. `StreamLog.Means` says what each method does to the log and what it
answers; consumer groups do not show in it. `Op.logs` says that the methods do so.
-/

namespace BurnerRedis

/-- The entries of a log, and the id that was given last. -/
structure StreamLog where
  entries : Entries
  lastId : StreamId

namespace StreamLog

def empty : StreamLog := ⟨[], .zero⟩

def len (L : StreamLog) : ℕ := L.entries.length

def add (L : StreamLog) (id : StreamId) (fields : Fields) : StreamLog :=
  ⟨L.entries ++ [(id, fields)], id⟩

def keep (L : StreamLog) (p : StreamId → Prop) [DecidablePred p] : StreamLog :=
  { L with entries := L.entries.filter fun x => p x.1 }

/-- The last entries, so many at most. -/
def newest (maxlen : Option ℕ) (L : StreamLog) : StreamLog :=
  match maxlen with
  | none => L
  | some n => { L with entries := L.entries.drop (L.len - n) }

/-- What a method does to the log of its stream, and what it answers. -/
def Means {S : Type} (L L' : StreamLog) (out : Outcome) : Op S → Prop
  | .xadd _ fields id =>
    (∃ newId, L.lastId < newId ∧ (∀ i ∈ id, newId = i) ∧ L' = L.add newId fields ∧
      out = ⟨StreamId, .ok newId⟩) ∨
    (∃ i ∈ id, i ≤ L.lastId) ∧ L' = L ∧ out = ⟨StreamId, .error .wrongType⟩
  | .xdel _ ids => L' = L.keep (· ∉ ids) ∧ out = ⟨ℤ, .ok (L.len - L'.len)⟩
  | .xtrim _ maxlen minid =>
    L' = (L.newest maxlen).keep (fun i => ∀ min ∈ minid, min ≤ i) ∧ out = ⟨ℕ, .ok (L.len - L'.len)⟩
  | .xlen _ => L' = L ∧ out = ⟨ℕ, .ok L.len⟩
  | .xrange _ min max count => L' = L ∧ out = ⟨Entries, .ok (takeCount count
      (L.entries.filter fun p => min ≤ p.1 ∧ p.1 ≤ max))⟩
  | .xread keys starts count => L' = L ∧ ∀ key start, keys = [key] → starts = [start] →
      out = ⟨ReadReply, .ok (ReadReply.push key
        (takeCount count (L.entries.filter fun p => start < p.1)) [])⟩
  | .streamLastId _ => L' = L ∧ ∃ r, out = ⟨Option StreamId, .ok r⟩ ∧ r.getD .zero = L.lastId
  | _ => L' = L

end StreamLog

theorem takeCount_nil {α : Type} (count : Option ℕ) : takeCount count ([] : List α) = [] := by
  cases count with
  | none => rfl
  | some n => exact List.take_nil

/-! ## Entries taken out -/

namespace Stream

/-- The log that a stream keeps. -/
def log (s : Stream) : StreamLog := ⟨s.entries.toList, s.lastId⟩

theorem len_log (s : Stream) : s.log.len = s.entries.size := Std.ExtTreeMap.length_toList

theorem log_add {s : Stream} (h : s.Bounded) {id : StreamId} (hid : s.lastId < id)
    (fields : Fields) : (s.add id fields).log = s.log.add id fields := by
  have hlast : ∀ a ∈ s.entries, compare a id = .lt := fun a ha =>
    compare_lt_iff_lt.mpr ((h a ha).trans_lt hid)
  unfold log StreamLog.add Stream.add
  dsimp only
  rw [FinMap.toList_insert_last hlast fields]

/-- Entries that are discarded are kept no longer. -/
theorem log_discard (s : Stream) (ids : List StreamId) :
    (s.discard ids).log = s.log.keep (· ∉ ids) := by
  induction ids generalizing s with
  | nil => simp [Stream.discard, StreamLog.keep, log]
  | cons id ids ih =>
    show (discard { s with entries := s.entries.erase id } ids).log = _
    rw [ih]
    unfold log StreamLog.keep
    dsimp only
    rw [FinMap.toList_erase, List.filter_filter]
    congr 2
    funext p
    simp [Bool.and_comm]

theorem Bounded.discard {s : Stream} (h : s.Bounded) (ids : List StreamId) :
    (s.discard ids).Bounded := by
  intro id hid
  obtain ⟨-, hlast, hsub⟩ := s.discard_spec ids
  rw [hlast]
  exact h id (hsub id hid)

theorem removeAll_entries (s : Stream) (ids : List StreamId) :
    (Store.removeAll s.entries ids).1 = (s.discard ids).entries := by
  have h : ∀ (ids : List StreamId) (s : Stream) (n : ℤ),
      (ids.foldl (fun (r : FinMap StreamId Fields × ℤ) id =>
        (r.1.erase id, if id ∈ r.1 then r.2 + 1 else r.2)) (s.entries, n)).1 =
        (s.discard ids).entries := by
    intro ids
    induction ids with
    | nil => exact fun _ _ => rfl
    | cons id ids ih => exact fun s n => ih { s with entries := s.entries.erase id } _
  exact h ids s 0

/-- XDEL counts the entries that are gone. -/
theorem xdel_count (s : Stream) (ids : List StreamId) :
    (Store.removeAll s.entries ids).2 = (s.log.len : ℤ) - (s.discard ids).log.len := by
  have h : (Store.removeAll s.entries ids).2 + (Store.removeAll s.entries ids).1.size =
      0 + s.entries.size := (FinMap.foldl_erase_counted ids s.entries 0).2
  rw [removeAll_entries] at h
  rw [len_log, len_log]
  omega

theorem log_beyondMaxlen (s : Stream) (maxlen : Option ℕ) :
    (s.discard (Store.beyondMaxlen maxlen s)).log = s.log.newest maxlen := by
  rw [log_discard]
  cases maxlen with
  | none => simp [Store.beyondMaxlen, StreamLog.keep, StreamLog.newest]
  | some n =>
    unfold StreamLog.keep StreamLog.newest Store.beyondMaxlen
    dsimp only
    rw [len_log]
    congr 1
    exact FinMap.filter_take_keys s.entries (s.entries.size - n)

theorem log_beforeMinid (s : Stream) (minid : Option StreamId) :
    (s.discard (Store.beforeMinid minid s)).log =
      s.log.keep (fun i => ∀ min ∈ minid, min ≤ i) := by
  rw [log_discard]
  cases minid with
  | none => simp [Store.beforeMinid, StreamLog.keep]
  | some min =>
    unfold StreamLog.keep Store.beforeMinid
    congr 1
    refine List.filter_congr fun p hp => ?_
    have hkey : p.1 ∈ s.entries.keys := by
      rw [← Std.ExtTreeMap.map_fst_toList_eq_keys]
      exact List.mem_map_of_mem hp
    simp [List.mem_filter, hkey]

/-- The entries between two ids, none of them when the ids are the wrong way round. -/
theorem between_log (s : Stream) (min max : StreamId) :
    (if max < min then [] else s.entries.toList.filter fun p => min ≤ p.1 ∧ p.1 ≤ max) =
      s.log.entries.filter fun p => min ≤ p.1 ∧ p.1 ≤ max := by
  split_ifs with hlt
  · symm
    refine List.filter_eq_nil_iff.mpr fun p _ => ?_
    rw [decide_eq_true_eq]
    rintro ⟨hmin, hmax⟩
    exact absurd hlt (not_lt.mpr (hmin.trans hmax))
  · rfl

/-- Distinct ids that are all there are as many as the entries that go. -/
theorem len_log_of_sublist {s : Stream} {ids : List StreamId} (h : ids.Sublist s.entries.keys) :
    s.log.len = ids.length + (s.discard ids).log.len := by
  have hkeys : s.entries.toList.map Prod.fst = s.entries.keys :=
    Std.ExtTreeMap.map_fst_toList_eq_keys
  have hnodup : s.entries.keys.Nodup := hkeys ▸ FinMap.nodup_fst_toList s.entries
  have hgone : (s.entries.keys.filter (· ∈ ids)).length = ids.length := by
    refine List.Perm.length_eq ((List.perm_ext_iff_of_nodup (hnodup.filter _)
      (hnodup.sublist h)).mpr fun i => ?_)
    rw [List.mem_filter, decide_eq_true_eq]
    exact ⟨And.right, fun hi => ⟨h.subset hi, hi⟩⟩
  have hleft : (s.discard ids).log.len = (s.entries.keys.filter (¬ · ∈ ids)).length := by
    rw [log_discard, ← hkeys, List.filter_map, List.length_map]
    rfl
  have hlen : s.log.len = s.entries.keys.length := by
    rw [← hkeys, List.length_map]
    rfl
  rw [hlen, hleft, ← hgone]
  simpa using List.length_eq_length_filter_add (l := s.entries.keys) (· ∈ ids)

end Stream

/-! ## The log under a key -/

section Rules

variable {S ρ : Type} [LinearOrder S] {now : Instant} {key : Bytes} {d d' : Data S} {L : StreamLog}
  {absent wrong : ρ} {f : Stream → Stream × ρ} {P : StreamLog → StreamLog → ρ → Prop}

/-- The key holds the log, and does not expire; a missing key holds the empty one. -/
def LogAt (now : Instant) (key : Bytes) (d : Data S) (L : StreamLog) : Prop :=
  live now d key = none ∧ L = .empty ∨
    ∃ s : Stream, live now d key = some ⟨.stream s, none⟩ ∧ s.Bounded ∧ L = s.log

namespace LogAt

theorem of_same (h : LogAt now key d L) (hs : live now d' key = live now d key) :
    LogAt now key d' L := by
  unfold LogAt
  rw [hs]
  exact h

theorem later {now' : Instant} (h : LogAt now key d L) (hle : now ≤ now') : LogAt now' key d L := by
  rcases h with ⟨hl, hL⟩ | ⟨s, hl, hb, hL⟩
  · exact .inl ⟨by rw [live_later hle, hl]; rfl, hL⟩
  · exact .inr ⟨s, by rw [live_later hle, hl]; rfl, hb, hL⟩

theorem insert {s : Stream} (hb : s.Bounded) :
    LogAt now key (d.insert key ⟨.stream s, none⟩) s.log := by
  refine .inr ⟨s, ?_, hb, rfl⟩
  rw [live_insert, if_pos rfl]
  rfl

theorem regroup {s s' : Stream} (hb : s.Bounded) (he : s'.entries = s.entries)
    (hl : s'.lastId = s.lastId) : LogAt now key (d.insert key ⟨.stream s', none⟩) s.log := by
  have hlog : s'.log = s.log := by rw [Stream.log, Stream.log, he, hl]
  have hb' : s'.Bounded := by
    unfold Stream.Bounded
    rw [he, hl]
    exact hb
  rw [← hlog]
  exact insert hb'

theorem readAs {f : Stream → ρ} {P : StreamLog → ρ → Prop} (h : LogAt now key d L)
    (ha : P .empty absent) (hf : ∀ s : Stream, P s.log (f s)) :
    LogAt now key (readAs .stream now key absent wrong f d).1 L ∧
      P L (readAs .stream now key absent wrong f d).2 := by
  refine ⟨h.of_same (live_purge ..), ?_⟩
  rcases h with ⟨hl, rfl⟩ | ⟨s, hl, -, rfl⟩
  · rw [readAs_absent hl]
    exact ha
  · rw [readAs_found (t := .stream) (v := s) hl]
    exact hf s

theorem modifyAs (h : LogAt now key d L) (ha : P .empty .empty absent)
    (hf : ∀ s : Stream, s.Bounded → (f s).1.Bounded ∧ P s.log (f s).1.log (f s).2) :
    ∃ L', LogAt now key (modifyAs .stream now key absent wrong f d).1 L' ∧
      P L L' (modifyAs .stream now key absent wrong f d).2 := by
  rcases h with ⟨hl, rfl⟩ | ⟨s, hl, hb, rfl⟩
  · rw [modifyAs_absent hl]
    exact ⟨.empty, .inl ⟨(live_purge ..).trans hl, rfl⟩, ha⟩
  · rw [modifyAs_found (t := .stream) (v := s) hl]
    obtain ⟨hb', hP⟩ := hf s hb
    exact ⟨_, insert hb', hP⟩

theorem upsertAs (h : LogAt now key d L)
    (hf : ∀ s : Stream, s = streamAt now d key → s.Bounded →
      (f s).1.Bounded ∧ P s.log (f s).1.log (f s).2) :
    ∃ L', LogAt now key (upsertAs .stream now key .new wrong f d).1 L' ∧
      P L L' (upsertAs .stream now key .new wrong f d).2 := by
  rcases h with ⟨hl, rfl⟩ | ⟨s, hl, hb, rfl⟩
  · rw [upsertAs_absent hl]
    have hs : Stream.new = streamAt now d key := by
      rw [streamAt, liveStream, hl]
      rfl
    obtain ⟨hb', hP⟩ := hf .new hs Stream.bounded_new
    exact ⟨_, insert hb', hP⟩
  · rw [upsertAs_found (t := .stream) (v := s) hl]
    have hs : s = streamAt now d key := by
      rw [streamAt, liveStream_eq_some.mpr ⟨none, hl⟩, Option.getD_some]
    obtain ⟨hb', hP⟩ := hf s hs hb
    exact ⟨_, insert hb', hP⟩

end LogAt

end Rules

/-! ## The methods -/

section Methods

variable {S : Type} [Score S] {e : Env} {key : Bytes} {d : Data S} {L : StreamLog}

open Store

theorem xadd_logs (h : LogAt e.now key d L) {fields : Fields} {id : Option StreamId}
    (hid : (Op.xadd key fields id : Op S).IdFits e d) :
    ∃ L', LogAt e.now key (Store.xadd e key fields id d).1 L' ∧
      StreamLog.Means L L' ⟨StreamId, (Store.xadd e key fields id d).2.1⟩
        (Op.xadd key fields id : Op S) := by
  refine h.upsertAs (P := fun L L' (r : Except StoreError StreamId × Wake) =>
    StreamLog.Means L L' ⟨StreamId, r.1⟩ (Op.xadd key fields id : Op S)) fun s hs hb => ?_
  cases hnew : newStreamId e.wall s.lastId id with
  | none =>
    refine ⟨hb, .inr ⟨?_, rfl, rfl⟩⟩
    cases id with
    | none =>
      rw [newStreamId_auto] at hnew
      cases hnew
    | some i =>
      refine ⟨i, rfl, ?_⟩
      by_contra hle
      have hlt : ¬ i ≤ s.lastId := hle
      unfold newStreamId at hnew
      dsimp only at hnew
      rw [if_neg hlt] at hnew
      cases hnew
  | some newId =>
    have hlt : s.lastId < newId := by
      refine (lt_of_newStreamId hnew).mpr fun hnone => ?_
      subst hnone hs
      exact hid
    refine ⟨hb.add hlt fields, .inl ⟨newId, hlt, ?_, Stream.log_add hb hlt fields, rfl⟩⟩
    rintro i rfl
    unfold newStreamId at hnew
    dsimp only at hnew
    split_ifs at hnew
    exact (Option.some.inj hnew).symm

theorem xdel_logs (h : LogAt e.now key d L) (ids : List StreamId) :
    ∃ L', LogAt e.now key (Store.xdel e key ids d).1 L' ∧
      StreamLog.Means L L' ⟨ℤ, (Store.xdel e key ids d).2⟩ (Op.xdel key ids : Op S) := by
  refine h.modifyAs (P := fun L L' (r : Except StoreError ℤ) =>
    StreamLog.Means L L' ⟨ℤ, r⟩ (Op.xdel key ids : Op S)) ⟨rfl, rfl⟩ fun s hb => ?_
  exact ⟨hb.discard ids, s.log_discard ids,
    congrArg (fun n : ℤ => Outcome.mk ℤ (.ok n)) (s.xdel_count ids)⟩

theorem xtrim_logs (h : LogAt e.now key d L) (maxlen : Option ℕ) (minid : Option StreamId) :
    ∃ L', LogAt e.now key (Store.xtrim e key maxlen minid d).1 L' ∧
      StreamLog.Means L L' ⟨ℕ, (Store.xtrim e key maxlen minid d).2⟩
        (Op.xtrim key maxlen minid : Op S) := by
  refine h.modifyAs (P := fun L L' (r : Except StoreError ℕ) =>
    StreamLog.Means L L' ⟨ℕ, r⟩ (Op.xtrim key maxlen minid : Op S)) ?_ fun s hb => ?_
  · refine ⟨?_, rfl⟩
    cases maxlen <;> simp [StreamLog.newest, StreamLog.keep, StreamLog.empty]
  · let s₁ := s.discard (beyondMaxlen maxlen s)
    have hfirst : s.log.len = (beyondMaxlen maxlen s).length + s₁.log.len := by
      refine Stream.len_log_of_sublist ?_
      cases maxlen with
      | none => exact List.nil_sublist _
      | some n => exact List.take_sublist ..
    have hsecond : s₁.log.len = (beforeMinid minid s₁).length +
        (s₁.discard (beforeMinid minid s₁)).log.len := by
      refine Stream.len_log_of_sublist ?_
      cases minid with
      | none => exact List.nil_sublist _
      | some min => exact List.filter_sublist
    refine ⟨(hb.discard _).discard _, ?_, ?_⟩
    · show (s₁.discard (beforeMinid minid s₁)).log = _
      rw [s₁.log_beforeMinid minid, s.log_beyondMaxlen maxlen]
    · refine congrArg (fun n : ℕ => Outcome.mk ℕ (.ok n)) ?_
      show (beyondMaxlen maxlen s).length + (beforeMinid minid s₁).length =
        s.log.len - (s₁.discard (beforeMinid minid s₁)).log.len
      omega

theorem xlen_logs (h : LogAt e.now key d L) :
    LogAt e.now key (Store.xlen e key d).1 L ∧
      StreamLog.Means L L ⟨ℕ, (Store.xlen e key d).2⟩ (Op.xlen key : Op S) := by
  refine h.readAs (P := fun L (r : Except StoreError ℕ) =>
    StreamLog.Means L L ⟨ℕ, r⟩ (Op.xlen key : Op S)) ⟨rfl, rfl⟩ fun s => ⟨rfl, ?_⟩
  rw [s.len_log]

theorem xrange_logs (h : LogAt e.now key d L) (min max : StreamId) (count : Option ℕ) :
    LogAt e.now key (Store.xrange e key min max count d).1 L ∧
      StreamLog.Means L L ⟨Entries, (Store.xrange e key min max count d).2⟩
        (Op.xrange key min max count : Op S) := by
  refine h.readAs (P := fun L (r : Except StoreError Entries) =>
    StreamLog.Means L L ⟨Entries, r⟩ (Op.xrange key min max count : Op S)) ⟨rfl, ?_⟩
    fun s => ⟨rfl, ?_⟩
  · exact congrArg (fun l => Outcome.mk Entries (.ok l)) (takeCount_nil count).symm
  · have hread : (if max < min then .ok [] else .ok (takeCount count
        (s.entries.toList.filter fun p => min ≤ p.1 ∧ p.1 ≤ max)) : Except StoreError Entries) =
          .ok (takeCount count (s.log.entries.filter fun p => min ≤ p.1 ∧ p.1 ≤ max)) := by
      rw [← s.between_log]
      split_ifs
      · rw [takeCount_nil]
      · rfl
    exact congrArg (Outcome.mk Entries) hread

/-- XREAD of this stream alone. -/
theorem xread_answer (h : LogAt e.now key d L) (start : StreamId) (count : Option ℕ) :
    (Store.xread e [key] [start] count d).2 = .ok (ReadReply.push key
      (takeCount count (L.entries.filter fun p => start < p.1)) []) := by
  show (xreadPairs e count [(key, start)] d).2 = _
  unfold xreadPairs xreadPairs
  dsimp only
  rw [getElem?_purge]
  rcases h with ⟨hl, rfl⟩ | ⟨s, hl, -, rfl⟩
  · rw [hl]
    show _ = Except.ok (ReadReply.push key (takeCount count []) [])
    rw [takeCount_nil]
    rfl
  · rw [hl]
    have hafter : s.entries.after start = s.log.entries.filter fun p => start < p.1 := by
      refine List.filter_congr fun p _ => ?_
      rw [Bool.eq_iff_iff, decide_eq_true_eq, Ordering.isLT_iff_eq_lt, compare_lt_iff_lt]
    rw [← hafter]
    rfl

theorem streamLastId_logs (h : LogAt e.now key d L) :
    LogAt e.now key (Store.streamLastId e key d).1 L ∧
      StreamLog.Means L L ⟨Option StreamId, .ok (Store.streamLastId e key d).2⟩
        (Op.streamLastId key : Op S) := by
  refine h.readAs (P := fun L (r : Option StreamId) =>
    StreamLog.Means L L ⟨Option StreamId, .ok r⟩ (Op.streamLastId key : Op S))
    ⟨rfl, _, rfl, rfl⟩ fun s => ⟨rfl, _, rfl, rfl⟩

section Regroup

variable {ρ : Type} {absent wrong : ρ} {f : Stream → Stream × ρ}

/-- A function that changes groups only. -/
theorem log_regrouped (hf : ∀ s, (f s).1.entries = s.entries ∧ (f s).1.lastId = s.lastId)
    (s : Stream) (hb : s.Bounded) : (f s).1.Bounded ∧ (f s).1.log = s.log := by
  obtain ⟨hentries, hlast⟩ := hf s
  unfold Stream.Bounded Stream.log
  rw [hentries, hlast]
  exact ⟨hb, rfl⟩

/-- A change to the groups alone leaves the log as it is. -/
theorem modifyStream_logs (h : LogAt e.now key d L)
    (hf : ∀ s, (f s).1.entries = s.entries ∧ (f s).1.lastId = s.lastId) :
    LogAt e.now key (modifyAs .stream e.now key absent wrong f d).1 L := by
  have hkept : ∃ L', LogAt e.now key (modifyAs .stream e.now key absent wrong f d).1 L' ∧ L' = L :=
    h.modifyAs (P := fun L L' (_ : ρ) => L' = L) rfl (log_regrouped hf)
  obtain ⟨L', hL', rfl⟩ := hkept
  exact hL'

theorem upsertStream_logs (h : LogAt e.now key d L)
    (hf : ∀ s, (f s).1.entries = s.entries ∧ (f s).1.lastId = s.lastId) :
    LogAt e.now key (upsertAs .stream e.now key .new wrong f d).1 L := by
  have hkept : ∃ L', LogAt e.now key (upsertAs .stream e.now key .new wrong f d).1 L' ∧ L' = L :=
    h.upsertAs (P := fun L L' (_ : ρ) => L' = L) fun s _ => log_regrouped hf s
  obtain ⟨L', hL', rfl⟩ := hkept
  exact hL'

theorem modifyGroup_logs (h : LogAt e.now key d L) {group : Bytes}
    {g : Stream → ConsumerGroup → ConsumerGroup × ρ} :
    LogAt e.now key (modifyGroup e.now key group absent wrong g d).1 L := by
  refine modifyStream_logs h fun s => ?_
  split <;> exact ⟨rfl, rfl⟩

end Regroup

theorem xgroupCreate_logs (h : LogAt e.now key d L) (group : Bytes) (id : StreamId)
    (mkstream : Bool) : LogAt e.now key (Store.xgroupCreate e key group id mkstream d).1 L := by
  have hf : ∀ s, (createGroup group id s).1.entries = s.entries ∧
      (createGroup group id s).1.lastId = s.lastId := by
    intro s
    unfold createGroup
    split <;> exact ⟨rfl, rfl⟩
  unfold Store.xgroupCreate
  split_ifs
  · exact upsertStream_logs h hf
  · exact modifyStream_logs h hf

/-- XREADGROUP, of this stream and of others. -/
theorem xreadgroupPairs_logs (h : LogAt e.now key d L) {group consumer : Bytes}
    {count : Option ℕ} (pairs : List (Bytes × Bytes)) :
    LogAt e.now key (xreadgroupPairs e group consumer count pairs d).1 L := by
  induction pairs generalizing d with
  | nil => exact h
  | cons pair pairs ih =>
    have hp : LogAt e.now key (purge e.now pair.1 d) L := h.of_same (live_purge ..)
    unfold xreadgroupPairs
    dsimp only
    split
    · exact hp
    · rename_i en hen
      split
      · exact hp
      · rename_i s hs
        split
        · exact hp
        · refine ih ?_
          by_cases hk : pair.1 = key
          · subst hk
            rw [getElem?_purge] at hen
            rcases h with ⟨hl, -⟩ | ⟨s', hl, hb, rfl⟩
            · rw [hl] at hen
              cases hen
            · rw [hl] at hen
              cases hen
              cases hs
              exact LogAt.regroup hb rfl rfl
          · refine hp.of_same ?_
            rw [live_insert, if_neg hk]

/-- A method for streams does to the log what it means. -/
theorem Op.logs {o : Op S} (h : LogAt e.now key d L) (ho : o.type? = some .stream)
    (hk : o.keys = [key]) (hid : o.IdFits e d) :
    ∃ L', LogAt e.now key (o.exec e d).1 L' ∧ StreamLog.Means L L' (o.exec e d).2 o := by
  have hkept : ∀ {d' : Data S}, SameLive e.now d d' → LogAt e.now key d' L :=
    fun hs => h.of_same (hs key).symm
  cases o with
  | xadd k fields id =>
    cases hk
    exact xadd_logs h hid
  | xdel k ids =>
    cases hk
    exact xdel_logs h ids
  | xtrim k maxlen minid =>
    cases hk
    exact xtrim_logs h maxlen minid
  | xlen k =>
    cases hk
    exact ⟨L, xlen_logs h⟩
  | xrange k min max count =>
    cases hk
    exact ⟨L, xrange_logs h min max count⟩
  | streamLastId k =>
    cases hk
    exact ⟨L, streamLastId_logs h⟩
  | xread keys starts count =>
    refine ⟨L, hkept (Op.exec_reads e d rfl), rfl, ?_⟩
    rintro k start hkeys rfl
    have hkey : keys = [key] := hk
    rw [hkeys] at hkey
    cases hkey
    subst hkeys
    exact congrArg (Outcome.mk ReadReply) (xread_answer h start count)
  | xgroupCreate k group id mkstream =>
    cases hk
    exact ⟨L, xgroupCreate_logs h group id mkstream, rfl⟩
  | xgroupDestroy k group =>
    cases hk
    exact ⟨L, modifyStream_logs h fun _ => ⟨rfl, rfl⟩, rfl⟩
  | xreadgroup group consumer keys ids count =>
    exact ⟨L, xreadgroupPairs_logs h (keys.zip ids), rfl⟩
  | xack k group ids =>
    cases hk
    exact ⟨L, modifyGroup_logs h, rfl⟩
  | xautoclaim k group consumer minIdle start count =>
    cases hk
    exact ⟨L, modifyGroup_logs h, rfl⟩
  | xclaim k group consumer minIdle ids o =>
    cases hk
    exact ⟨L, modifyGroup_logs h, rfl⟩
  | xinfoStream => exact ⟨L, hkept (Op.exec_reads e d rfl), rfl⟩
  | xinfoGroups => exact ⟨L, hkept (Op.exec_reads e d rfl), rfl⟩
  | xinfoConsumers => exact ⟨L, hkept (Op.exec_reads e d rfl), rfl⟩
  | xpendingRange => exact ⟨L, hkept (Op.exec_reads e d rfl), rfl⟩
  | xpendingSummary => exact ⟨L, hkept (Op.exec_reads e d rfl), rfl⟩
  | _ => cases ho

end Methods

end BurnerRedis
