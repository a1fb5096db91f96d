import BurnerRedis.Lib.Tailing
import BurnerRedis.StreamIds
import BurnerRedis.ScriptStreams

/-!
# Tailing a stream

A client reads one stream again and again, each time from the last id it has received, while others
add entries to it and take entries out. The store with this client is a log with one reader
(`StreamTail.log`), and what happens to the store is a step of the log.
-/

namespace BurnerRedis

open Tailing (Log Batch Gapless)

/-! ## The ids in a reply -/

/-- The ids that XREAD has returned. -/
def xreadIds : Except StoreError ReadReply → List StreamId
  | .ok r => r.flatMap fun p => p.2.map Prod.fst
  | .error _ => []

/-- The id of an entry as a script gets it. -/
def entryId : RedisValue → Option StreamId
  | .array (.bulkString text :: _) => parseStreamId text
  | _ => none

/-- The ids of a key and its entries as a script gets them. -/
def keyedIds : RedisValue → List StreamId
  | .array [_, .array entries] => entries.filterMap entryId
  | _ => []

/-- The ids that XREAD has returned to a script. -/
def xreadReplyIds : Script.Reply → List StreamId
  | .ok (.array streams) => streams.flatMap keyedIds
  | _ => []

/-! ## The stream under the key -/

section Stream

variable {S : Type} [LinearOrder S] {now : Instant} {d : Data S} {key : Bytes}

theorem streamAt_of_live {s : Stream} {exp : Option Instant}
    (h : live now d key = some ⟨.stream s, exp⟩) : streamAt now d key = s := by
  rw [streamAt, liveStream_eq_some.mpr ⟨exp, h⟩, Option.getD_some]

theorem streamAt_of_none (h : live now d key = none) : streamAt now d key = .new := by
  rw [streamAt, liveStream, h]
  rfl

theorem streamAt_of_wrong {en : ValueEntry S} (h : live now d key = some en)
    (hd : Kind.stream.get? en.data = none) : streamAt now d key = .new := by
  have hs : liveStream now d key = none := by
    by_contra hne
    obtain ⟨s, hs⟩ := Option.ne_none_iff_exists'.mp hne
    obtain ⟨exp, hl⟩ := liveStream_eq_some.mp hs
    rw [h] at hl
    cases hl
    cases hd
  rw [streamAt, hs]
  rfl

@[simp] theorem streamAt_purge : streamAt now (purge now key d) key = streamAt now d key := by
  rw [streamAt, liveStream_purge, streamAt]

theorem streamAt_insert {s s' : Stream} {exp : Option Instant}
    (h : live now d key = some ⟨.stream s, exp⟩) :
    streamAt now (d.insert key ⟨.stream s', exp⟩) key = s' := by
  rw [streamAt, liveStream_insert h, if_pos rfl, Option.getD_some]

/-- What holds of a stream and of what it is rewritten to holds after the rewrite, if there is a
stream or not. -/
theorem streamAt_modifyAs {ρ : Type} {absent wrong : ρ} {f : Stream → Stream × ρ}
    {P : Stream → Prop} (h₀ : P (streamAt now d key)) (hf : P (f (streamAt now d key)).1) :
    P (streamAt now (modifyAs .stream now key absent wrong f d).1 key) := by
  cases look Kind.stream now key d with
  | absent h =>
    rw [modifyAs_absent h, streamAt_purge]
    exact h₀
  | wrong en h hd =>
    rw [modifyAs_wrong h hd, streamAt_purge]
    exact h₀
  | found s exp h =>
    rw [streamAt_of_live h] at hf
    rw [modifyAs_found h, show Kind.stream.wrap _ = ValueData.stream _ from rfl, streamAt_insert h]
    exact hf

theorem streamAt_upsertAs {ρ : Type} {wrong : ρ} {f : Stream → Stream × ρ} {P : Stream → Prop}
    (h₀ : P (streamAt now d key)) (hf : P (f (streamAt now d key)).1) :
    P (streamAt now (upsertAs .stream now key .new wrong f d).1 key) := by
  cases look Kind.stream now key d with
  | absent h =>
    rw [streamAt_of_none h] at hf
    have hnew : live now (d.insert key ⟨.stream (f .new).1, none⟩) key =
        some ⟨.stream (f .new).1, none⟩ := by
      rw [live_insert, if_pos rfl]
      rfl
    rw [upsertAs_absent h, show Kind.stream.wrap _ = ValueData.stream _ from rfl,
      streamAt_of_live hnew]
    exact hf
  | wrong en h hd =>
    rw [upsertAs_wrong h hd, streamAt_purge]
    exact h₀
  | found s exp h =>
    rw [streamAt_of_live h] at hf
    rw [upsertAs_found h, show Kind.stream.wrap _ = ValueData.stream _ from rfl, streamAt_insert h]
    exact hf

/-- What XREAD reads of one stream. -/
theorem batch_after (m : FinMap StreamId Fields) (lo : StreamId) (count : Option ℕ) :
    Batch {id | id ∈ m} lo ((takeCount count (m.after lo)).map Prod.fst) := by
  have hsorted : ((m.after lo).map Prod.fst).Pairwise (· < ·) := by
    rw [List.pairwise_map]
    exact (m.pairwise_after lo).imp compare_lt_iff_lt.mp
  have hmem : ∀ id, id ∈ (m.after lo).map Prod.fst ↔ id ∈ m ∧ lo < id := by
    intro id
    rw [List.mem_map, FinMap.mem_iff_getElem?]
    constructor
    · rintro ⟨⟨i, fields⟩, hi, rfl⟩
      obtain ⟨hlt, hget⟩ := FinMap.mem_after.mp hi
      exact ⟨⟨fields, hget⟩, compare_lt_iff_lt.mp hlt⟩
    · rintro ⟨⟨fields, hget⟩, hlt⟩
      exact ⟨(id, fields), FinMap.mem_after.mpr ⟨compare_lt_iff_lt.mpr hlt, hget⟩, rfl⟩
  -- what is returned comes first, what is not comes later
  have hsplit := congrArg (List.map Prod.fst) (takeCount_append_drop count (m.after lo))
  rw [List.map_append] at hsplit
  rw [← hsplit] at hsorted
  obtain ⟨hleft, -, hcross⟩ := List.pairwise_append.mp hsorted
  refine ⟨hleft, fun id hid => ?_, fun id hid hlt => ?_⟩
  · show id ∈ m ∧ lo < id
    rw [← hmem, ← hsplit]
    exact List.mem_append_left _ hid
  · have hin := (hmem id).mpr ⟨hid, hlt⟩
    rw [← hsplit] at hin
    rcases List.mem_append.mp hin with h | h
    · exact .inl h
    · exact .inr fun i hi => hcross i hi id h

/-! ## XREAD of one key -/

variable {e : Env} {start : StreamId} {count : Option ℕ}

theorem xread_data : streamAt e.now (Store.xread e [key] [start] count d).1 key =
    streamAt e.now d key := by
  show streamAt e.now (Store.xreadPairs e count [(key, start)] d).1 key = _
  unfold Store.xreadPairs
  dsimp only
  split
  · exact streamAt_purge
  · split <;> exact streamAt_purge

theorem after_new : (takeCount count (Stream.new.entries.after start)).map Prod.fst = [] := by
  have hafter : Stream.new.entries.after start = [] := by
    simp [Stream.new, FinMap.after]
  rw [hafter]
  cases count <;> simp [takeCount]

theorem xread_ids : xreadIds (Store.xread e [key] [start] count d).2 =
    (takeCount count ((streamAt e.now d key).entries.after start)).map Prod.fst := by
  show xreadIds (Store.xreadPairs e count [(key, start)] d).2 = _
  unfold Store.xreadPairs
  dsimp only
  rw [getElem?_purge]
  cases look Kind.stream e.now key d with
  | absent h =>
    rw [h, streamAt_of_none h, after_new]
    rfl
  | wrong en h hd =>
    rw [h, streamAt_of_wrong h hd, after_new]
    simp only [hd]
    rfl
  | found s exp h =>
    rw [h, streamAt_of_live h]
    simp only [Kind.get?_wrap]
    show xreadIds (.ok (ReadReply.push key (takeCount count (s.entries.after start)) [])) = _
    unfold ReadReply.push
    cases takeCount count (s.entries.after start) with
    | nil => rfl
    | cons x xs => exact List.append_nil _

namespace Script

variable {args : List Bytes} {text : Bytes}

/-- An XREAD in a script that is about one key. -/
theorem xread_single (ho : xreadOptions args none = .ok (count, [key, text])) :
    xread e args d = ((xreadPairs e count [(key, text)] d).1,
      match (xreadPairs e count [(key, text)] d).2 with
      | .error err => err
      | .ok [] => .ok .nil
      | .ok vs => .ok (.array vs)) := by
  have hargs : args.isEmpty = false := by
    cases args with
    | nil => cases ho
    | cons a as => rfl
  unfold xread
  rw [hargs, ho, if_neg Bool.false_ne_true]
  dsimp only
  rw [if_neg (by simp)]
  have hpairs : xreadPairs e count (([key, text].take ([key, text].length / 2)).zip
      ([key, text].drop ([key, text].length / 2))) d = xreadPairs e count [(key, text)] d := by simp
  generalize xreadPairs e count [(key, text)] d = x at hpairs ⊢
  rcases x with ⟨d', err | (_ | _)⟩ <;> simp only [hpairs]

theorem xread_data (ho : xreadOptions args none = .ok (count, [key, text])) :
    streamAt e.now (xread e args d).1 key = streamAt e.now d key := by
  rw [xread_single ho]
  unfold xreadPairs
  dsimp only
  split
  · exact streamAt_purge
  · split <;> exact streamAt_purge

theorem filterMap_entryValue (o : FinMap.WalkOrder) (l : Entries) :
    (l.map (entryValue o)).filterMap entryId = l.map Prod.fst := by
  induction l with
  | nil => rfl
  | cons x xs ih =>
    have hx : entryId (entryValue o x) = some x.1 := parseStreamId_formatStreamId x.1
    rw [List.map_cons, List.filterMap_cons, hx, ih, List.map_cons]

theorem xread_ids (ho : xreadOptions args none = .ok (count, [key, text])) :
    xreadReplyIds (xread e args d).2 =
      (takeCount count ((streamAt e.now d key).entries.after (startId text))).map Prod.fst := by
  rw [xread_single ho]
  unfold xreadPairs
  dsimp only
  rw [getElem?_purge]
  cases look Kind.stream e.now key d with
  | absent h =>
    rw [h, streamAt_of_none h, after_new]
    rfl
  | wrong en h hd =>
    rw [h, streamAt_of_wrong h hd, after_new]
    simp only [hd]
    rfl
  | found s exp h =>
    rw [h, streamAt_of_live h]
    simp only [Kind.get?_wrap]
    have hids := filterMap_entryValue e.walk (takeCount count (s.entries.after (startId text)))
    cases hl : takeCount count (s.entries.after (startId text)) with
    | nil => rfl
    | cons x xs =>
      rw [hl] at hids
      show (_ ++ [] : List StreamId) = _
      rw [List.append_nil]
      exact hids

end Script

end Stream

/-! ## The client and the others -/

/-- A store and a client that tails a stream of it: where the client will read on from, and the ids
it has received so far. -/
structure StreamTail (S : Type) [LinearOrder S] where
  now : Instant
  data : Data S
  cursor : StreamId
  received : List StreamId

namespace StreamTail

/-- The client has got a reply with these ids: it goes on from the last of them, or from where it
was if there is none. -/
def receive {S : Type} [LinearOrder S] (t : StreamTail S) (data : Data S) (ids : List StreamId) :
    StreamTail S :=
  { t with data, cursor := ids.getLast?.getD t.cursor, received := t.received ++ ids }

/-- The client before its first read. -/
def start {S : Type} [LinearOrder S] (now : Instant) (data : Data S) (first : StreamId) :
    StreamTail S :=
  ⟨now, data, first, []⟩

variable {S : Type} [Score S] {key : Bytes}

/-- The client reads by a method call. -/
def xread (t : StreamTail S) (key : Bytes) (wall : UInt64) (walk : FinMap.WalkOrder)
    (count : Option ℕ) : StreamTail S :=
  let r := Store.xread ⟨t.now, wall, walk⟩ [key] [t.cursor] count t.data
  t.receive r.1 (xreadIds r.2)

/-- The client reads in a script. -/
def scriptXread (t : StreamTail S) (wall : UInt64) (walk : FinMap.WalkOrder) (args : List Bytes) :
    StreamTail S :=
  let r := Script.dispatchInner ⟨t.now, wall, walk⟩ "XREAD" args t.data
  t.receive r.1 (xreadReplyIds r.2)

/-- The client before its first read when it gives a dollar sign: the last id of the stream is read
at once. -/
def startLast (now : Instant) (data : Data S) (key : Bytes) (wall : UInt64)
    (walk : FinMap.WalkOrder) : StreamTail S :=
  let r := Store.streamLastId ⟨now, wall, walk⟩ key data
  start now r.1 (r.2.getD .zero)

/-- One step: the client reads, by a method call or in a script, with any text for its id that is
read as it; another client adds or removes entries; or something happens to the store and the clock
that leaves the entries and the last id of the stream as they are. An automatic id is asked for only
where there is a next one, as there is when sequence numbers are below the greatest. -/
inductive Step (key : Bytes) (t : StreamTail S) : StreamTail S → Prop
  | xread (wall : UInt64) (walk : FinMap.WalkOrder) (count : Option ℕ) :
      Step key t (t.xread key wall walk count)
  | scriptXread (wall : UInt64) (walk : FinMap.WalkOrder) {args : List Bytes} {count : Option ℕ}
      {text : Bytes} (ho : Script.xreadOptions args none = .ok (count, [key, text]))
      (hs : Script.startId text = t.cursor) : Step key t (t.scriptXread wall walk args)
  | xadd (wall : UInt64) (walk : FinMap.WalkOrder) (fields : Fields) (id : Option StreamId)
      (hn : id = none → (streamAt t.now t.data key).lastId.HasNext wall) :
      Step key t { t with data := (Store.xadd ⟨t.now, wall, walk⟩ key fields id t.data).1 }
  | scriptXadd (wall : UInt64) (walk : FinMap.WalkOrder) (idText : Bytes) (fields : List Bytes)
      (hn : idText = ascii "*" → (streamAt t.now t.data key).lastId.HasNext wall) :
      Step key t { t with data := (Script.dispatchInner ⟨t.now, wall, walk⟩ "XADD"
        (key :: idText :: fields) t.data).1 }
  | xdel (wall : UInt64) (walk : FinMap.WalkOrder) (ids : List StreamId) :
      Step key t { t with data := (Store.xdel ⟨t.now, wall, walk⟩ key ids t.data).1 }
  | scriptXdel (wall : UInt64) (walk : FinMap.WalkOrder) (ids : List Bytes) :
      Step key t { t with data :=
        (Script.dispatchInner ⟨t.now, wall, walk⟩ "XDEL" (key :: ids) t.data).1 }
  | xtrim (wall : UInt64) (walk : FinMap.WalkOrder) (maxlen : Option ℕ) (minid : Option StreamId) :
      Step key t { t with data := (Store.xtrim ⟨t.now, wall, walk⟩ key maxlen minid t.data).1 }
  | other (now : Instant) (data : Data S)
      (he : (streamAt now data key).entries = (streamAt t.now t.data key).entries)
      (hl : (streamAt now data key).lastId = (streamAt t.now t.data key).lastId) :
      Step key t { t with now, data }

/-- The runs of a client that starts to read `key` from `first`. It starts in any state that a run
reaches in which automatic ids have a next one. -/
inductive Runs (key : Bytes) : StreamId → StreamTail S → Prop
  | given {sha1 : String → String} {now : Instant} {st : Store S}
      (h : Reachable (Action.Meets Op.IdFits Script.IdFits) sha1 now st) (first : StreamId) :
      Runs key first (start now st.data first)
  /-- the id given is a dollar sign -/
  | last {sha1 : String → String} {now : Instant} {st : Store S}
      (h : Reachable (Action.Meets Op.IdFits Script.IdFits) sha1 now st) (wall : UInt64)
      (walk : FinMap.WalkOrder) :
      Runs key (startLast now st.data key wall walk).cursor (startLast now st.data key wall walk)
  | step {first : StreamId} {t t' : StreamTail S} (h : Runs key first t) (hs : Step key t t') :
      Runs key first t'

/-! ## What the writers do -/

variable {e : Env} {d : Data S}

/-- The stream is as it was, or has a new entry above its last id. -/
def Adds (s s' : Stream) : Prop :=
  s' = s ∨ ∃ id fields, s.lastId < id ∧ s' = s.add id fields

/-- The stream has the same last id, and no new entry. -/
def Removes (s s' : Stream) : Prop := s'.lastId = s.lastId ∧ ∀ id ∈ s'.entries, id ∈ s.entries

theorem Removes.trans {s s' s'' : Stream} (h : Removes s s') (h' : Removes s' s'') :
    Removes s s'' :=
  ⟨h'.1.trans h.1, fun id hid => h.2 id (h'.2 id hid)⟩

theorem xadd_adds {fields : Fields} {id : Option StreamId}
    (hn : id = none → (streamAt e.now d key).lastId.HasNext e.wall) :
    Adds (streamAt e.now d key) (streamAt e.now (Store.xadd e key fields id d).1 key) := by
  refine streamAt_upsertAs (P := Adds (streamAt e.now d key)) (.inl rfl) ?_
  cases hnew : newStreamId e.wall (streamAt e.now d key).lastId id with
  | none => exact .inl rfl
  | some newId => exact .inr ⟨newId, fields, (lt_of_newStreamId hnew).mpr hn, rfl⟩

theorem scriptXadd_adds {idText : Bytes} {fields : List Bytes}
    (hn : idText = ascii "*" → (streamAt e.now d key).lastId.HasNext e.wall) :
    Adds (streamAt e.now d key)
      (streamAt e.now (Script.xadd e (key :: idText :: fields) d).1 key) := by
  unfold Script.xadd
  dsimp only
  split_ifs with harity
  · exact .inl rfl
  · refine streamAt_upsertAs (P := Adds (streamAt e.now d key)) (.inl rfl) ?_
    cases hnew : Script.newEntryId e idText (streamAt e.now d key).lastId with
    | error r => exact .inl rfl
    | ok newId => exact .inr ⟨newId, _, (Script.lt_of_newEntryId hnew).mpr hn, rfl⟩

theorem discard_removes (s : Stream) (ids : List StreamId) : Removes s (s.discard ids) :=
  (s.discard_spec ids).2

theorem xdel_removes {ids : List StreamId} :
    Removes (streamAt e.now d key) (streamAt e.now (Store.xdel e key ids d).1 key) :=
  streamAt_modifyAs (P := Removes (streamAt e.now d key)) ⟨rfl, fun _ hid => hid⟩
    (discard_removes _ ids)

theorem xtrim_removes {maxlen : Option ℕ} {minid : Option StreamId} :
    Removes (streamAt e.now d key) (streamAt e.now (Store.xtrim e key maxlen minid d).1 key) := by
  refine streamAt_modifyAs (P := Removes (streamAt e.now d key)) ⟨rfl, fun _ hid => hid⟩ ?_
  exact (discard_removes _ _).trans (discard_removes _ _)

theorem scriptXdel_removes {ids : List Bytes} :
    Removes (streamAt e.now d key) (streamAt e.now (Script.xdel e (key :: ids) d).1 key) := by
  cases ids with
  | nil => exact ⟨rfl, fun _ hid => hid⟩
  | cons id ids =>
    exact streamAt_modifyAs (P := Removes (streamAt e.now d key)) ⟨rfl, fun _ hid => hid⟩
      (discard_removes _ _)

/-! ## A log with a reader -/

/-- The stream as a log. -/
def log (key : Bytes) (t : StreamTail S) : Log StreamId :=
  ⟨{id | id ∈ (streamAt t.now t.data key).entries}, (streamAt t.now t.data key).lastId, t.cursor,
    t.received⟩

theorem log_eq {t t' : StreamTail S}
    (hs : streamAt t'.now t'.data key = streamAt t.now t.data key) (hc : t'.cursor = t.cursor)
    (hr : t'.received = t.received) : t'.log key = t.log key := by
  unfold log
  rw [hs, hc, hr]

variable {t : StreamTail S} {data : Data S} {first : StreamId}

/-- A read that leaves the stream alone and returns a batch. -/
theorem gapless_receive (hg : Gapless first (t.log key)) {ids : List StreamId}
    (hs : streamAt t.now data key = streamAt t.now t.data key) {count : Option ℕ}
    (hi : ids = (takeCount count ((streamAt t.now t.data key).entries.after t.cursor)).map
      Prod.fst) : Gapless first ((t.receive data ids).log key) := by
  subst hi
  have hb := hg.receive (batch_after (streamAt t.now t.data key).entries t.cursor count)
  have hlog : (t.receive data
      ((takeCount count ((streamAt t.now t.data key).entries.after t.cursor)).map Prod.fst)).log
        key = (t.log key).receive
      ((takeCount count ((streamAt t.now t.data key).entries.after t.cursor)).map Prod.fst) := by
    unfold log receive Log.receive
    dsimp only
    rw [hs]
  rw [hlog]
  exact hb

/-- An entry added above the last id, or nothing. -/
theorem gapless_add (hg : Gapless first (t.log key))
    (h : Adds (streamAt t.now t.data key) (streamAt t.now data key)) :
    Gapless first (log key { t with data }) := by
  rcases h with h | ⟨id, fields, hlt, h⟩
  · have hlog : log key { t with data } = t.log key := log_eq h rfl rfl
    rw [hlog]
    exact hg
  · have hset : {i | i ∈ ((streamAt t.now t.data key).add id fields).entries} =
        insert id {i | i ∈ (streamAt t.now t.data key).entries} := by
      ext i
      show i ∈ (streamAt t.now t.data key).entries.insert id fields ↔
        i = id ∨ i ∈ (streamAt t.now t.data key).entries
      rw [Std.ExtTreeMap.mem_insert, Std.compare_eq_iff_eq, eq_comm]
    have ha := hg.append hlt
    unfold log at ha ⊢
    dsimp only at ha ⊢
    rw [h, hset]
    exact ha

/-- Entries taken out. -/
theorem gapless_remove (hg : Gapless first (t.log key))
    (h : Removes (streamAt t.now t.data key) (streamAt t.now data key)) :
    Gapless first (log key { t with data }) := by
  have hr := hg.remove {id | id ∈ (streamAt t.now data key).entries} h.2
  unfold log at hr ⊢
  dsimp only at hr ⊢
  rw [h.1]
  exact hr

theorem Step.gapless {t t' : StreamTail S} (hs : Step key t t') (hg : Gapless first (t.log key)) :
    Gapless first (t'.log key) := by
  cases hs with
  | xread wall walk count =>
    exact gapless_receive hg (xread_data (e := ⟨t.now, wall, walk⟩)) xread_ids
  | scriptXread wall walk ho hs =>
    have hids := Script.xread_ids (e := ⟨t.now, wall, walk⟩) (d := t.data) ho
    rw [hs] at hids
    exact gapless_receive hg (Script.xread_data (e := ⟨t.now, wall, walk⟩) ho) hids
  | xadd wall walk fields id hn =>
    exact gapless_add hg (xadd_adds (e := ⟨t.now, wall, walk⟩) hn)
  | scriptXadd wall walk idText fields hn =>
    exact gapless_add hg (scriptXadd_adds (e := ⟨t.now, wall, walk⟩) hn)
  | xdel wall walk ids => exact gapless_remove hg (xdel_removes (e := ⟨t.now, wall, walk⟩))
  | scriptXdel wall walk ids =>
    exact gapless_remove hg (scriptXdel_removes (e := ⟨t.now, wall, walk⟩))
  | xtrim wall walk maxlen minid =>
    exact gapless_remove hg (xtrim_removes (e := ⟨t.now, wall, walk⟩))
  | other now data he hl =>
    unfold log at hg ⊢
    dsimp only at hg ⊢
    rw [he, hl]
    exact hg

theorem Runs.gapless {t : StreamTail S} (h : Runs key first t) : Gapless first (t.log key) := by
  induction h with
  | given h first => exact Tailing.gapless_start h.bounded.streamAt_bounded
  | @last sha1 now st h wall walk =>
    apply Tailing.gapless_start
    show ∀ id ∈ (streamAt now (purge now key st.data) key).entries,
      id ≤ (streamAt now (purge now key st.data) key).lastId
    rw [streamAt_purge]
    exact h.bounded.streamAt_bounded
  | step _ hs ih => exact hs.gapless ih

end StreamTail

/-- A client that tails a stream receives no id twice and all in increasing order, and an entry above
the id it began at has been received or is ahead of it, at every moment of every run. -/
theorem tailing_gapless {S : Type} [Score S] {key : Bytes} {first : StreamId} {t : StreamTail S}
    (h : StreamTail.Runs key first t) :
    t.received.Nodup ∧ t.received.Pairwise (· < ·) ∧
      ∀ id ∈ (streamAt t.now t.data key).entries, first < id → id ∈ t.received ∨ t.cursor < id := by
  have hg := h.gapless
  exact ⟨hg.sorted.imp ne_of_lt, hg.sorted, hg.missed⟩

namespace StreamTail

/-- A client of a stream with one entry. -/
def onceAdded : StreamTail ℤ :=
  ⟨0, (Store.xadd ⟨0, 5, .byKey⟩ (ascii "s") ∅ none ∅).1, .zero, []⟩

/-- The same client when it has received the entry. -/
def onceRead : StreamTail ℤ := onceAdded.xread (ascii "s") 5 .byKey none

/-- The same client after a script has added another one. -/
def onceMore : StreamTail ℤ :=
  { onceRead with
    data := (Script.dispatchInner ⟨0, 5, .byKey⟩ "XADD"
      [ascii "s", ascii "9-0", ascii "f", ascii "v"] onceRead.data).1 }

theorem onceMore_tailed :
    (onceMore.scriptXread 5 .byKey
        [ascii "count", ascii "1", ascii "STREAMS", ascii "s", ascii "5-0"]).received =
      [⟨5, 0⟩, ⟨9, 0⟩] ∧
    (onceMore.scriptXread 5 .byKey
        [ascii "count", ascii "1", ascii "STREAMS", ascii "s", ascii "5-0"]).received.Nodup := by
  have hempty : Reachable (Action.Meets Op.IdFits Script.IdFits) id 0 (⟨∅, ∅⟩ : Store ℤ) := .empty 0
  have hfirst : Runs (ascii "s") .zero onceAdded :=
    .step (.given hempty .zero) (.xadd 5 .byKey ∅ none fun _ => .inr (by decide +kernel))
  have hread : Runs (ascii "s") .zero onceRead := .step hfirst (.xread 5 .byKey none)
  have hadd : Runs (ascii "s") .zero onceMore :=
    .step hread (.scriptXadd 5 .byKey (ascii "9-0") [ascii "f", ascii "v"] nofun)
  have hopt : Script.xreadOptions
      [ascii "count", ascii "1", ascii "STREAMS", ascii "s", ascii "5-0"] none =
        .ok (some 1, [ascii "s", ascii "5-0"]) :=
    eq_ok_of_toOption (by decide +kernel)
  have hcursor : Script.startId (ascii "5-0") = onceMore.cursor := by decide +kernel
  exact ⟨by decide +kernel,
    (tailing_gapless (.step hadd (.scriptXread 5 .byKey hopt hcursor))).1⟩

end StreamTail

end BurnerRedis
