import BurnerRedis.Store.Hashes

/-!
# Streams

The stream commands of `store.rs` that leave consumer groups alone. XADD wakes the clients blocked
on streams.
-/

namespace BurnerRedis

/-- `iter.take(count.unwrap_or(usize::MAX))`. -/
def takeCount {α : Type} (count : Option ℕ) (l : List α) : List α :=
  match count with
  | none => l
  | some n => l.take n

theorem takeCount_append_drop {α : Type} (count : Option ℕ) (l : List α) :
    takeCount count l ++ l.drop (takeCount count l).length = l := by
  cases count with
  | none => simp [takeCount]
  | some n => exact List.prefix_iff_eq_append.mp (List.take_prefix n l)

/-- Entries of a stream as a command returns them. -/
abbrev Entries := List (StreamId × Fields)

/-- The entries a read of several streams returns, stream by stream. -/
abbrev ReadReply := List (Bytes × Entries)

instance : DecidableEq (Bytes × Entries) := instDecidableEqProd

/-- A stream without an entry to return is left out of the reply. -/
def ReadReply.push (key : Bytes) (entries : Entries) (r : ReadReply) : ReadReply :=
  if entries.isEmpty then r else (key, entries) :: r

/-- The id of a new entry: an explicit one must be greater than every id so far, and one made from
the wall clock is put after the last id by its sequence number, which wraps around at the end of
64 bits. -/
def newStreamId (wall : UInt64) (lastId : StreamId) : Option StreamId → Option StreamId
  | some explicitId => if explicitId ≤ lastId then none else some explicitId
  | none => if lastId.ms < wall then some ⟨wall, 0⟩ else some ⟨lastId.ms, lastId.seq + 1⟩

/-- Remove entries one after the other. -/
def Stream.discard (s : Stream) (ids : List StreamId) : Stream :=
  ids.foldl (fun s id => { s with entries := s.entries.erase id }) s

namespace Store

variable {S : Type} [LinearOrder S]

/-- XADD: the id of the new entry. -/
def xadd (e : Env) (key : Bytes) (fields : Fields) (id : Option StreamId) :
    Data S → Data S × Except StoreError StreamId × Wake :=
  upsertAs .stream e.now key .new (.error .wrongType, {}) fun stream =>
    match newStreamId e.wall stream.lastId id with
    | none => (stream, .error .wrongType, {})
    | some newId =>
      ({ stream with entries := stream.entries.insert newId fields, lastId := newId },
        .ok newId, { stream := true })

/-- XREAD of the pairs of a key and a start id, one after the other. -/
def xreadPairs (e : Env) (count : Option ℕ) :
    List (Bytes × StreamId) → Data S → Data S × Except StoreError ReadReply
  | [], d => (d, .ok [])
  | (key, startId) :: pairs, d₀ =>
    let d := purge e.now key d₀
    match d[key]? with
    | none => xreadPairs e count pairs d
    | some en => match Kind.stream.get? en.data with
      | none => (d, .error .wrongType)
      | some stream =>
        let r := xreadPairs e count pairs d
        (r.1, r.2.map (.push key (takeCount count (stream.entries.after startId))))

/-- XREAD. -/
def xread (e : Env) (keys : List Bytes) (ids : List StreamId) (count : Option ℕ) :
    Data S → Data S × Except StoreError ReadReply :=
  xreadPairs e count (keys.zip ids)

/-- XLEN. -/
def xlen (e : Env) (key : Bytes) : Data S → Data S × Except StoreError ℕ :=
  readAs .stream e.now key (.ok 0) (.error .wrongType) fun stream => .ok stream.entries.size

/-- The last id of a stream, read when XREAD is called with a dollar sign. -/
def streamLastId (e : Env) (key : Bytes) : Data S → Data S × Option StreamId :=
  readAs .stream e.now key none none fun stream => some stream.lastId

/-- The entries that a stream has beyond `max`, the first ones. -/
def beyondMaxlen (maxlen : Option ℕ) (s : Stream) : List StreamId :=
  match maxlen with
  | none => []
  | some max => s.entries.keys.take (s.entries.size - max)

/-- The entries before `minid`. -/
def beforeMinid (minid : Option StreamId) (s : Stream) : List StreamId :=
  match minid with
  | none => []
  | some min => s.entries.keys.filter (· < min)

/-- XTRIM: the number of entries removed. -/
def xtrim (e : Env) (key : Bytes) (maxlen : Option ℕ) (minid : Option StreamId) :
    Data S → Data S × Except StoreError ℕ :=
  modifyAs .stream e.now key (.ok 0) (.error .wrongType) fun stream =>
    let stream₁ := stream.discard (beyondMaxlen maxlen stream)
    let toRemove := beforeMinid minid stream₁
    (stream₁.discard toRemove, .ok ((beyondMaxlen maxlen stream).length + toRemove.length))

/-- XDEL: the number of entries removed. -/
def xdel (e : Env) (key : Bytes) (ids : List StreamId) : Data S → Data S × Except StoreError ℤ :=
  modifyAs .stream e.now key (.ok 0) (.error .wrongType) fun stream =>
    (stream.discard ids, .ok (removeAll stream.entries ids).2)

/-- XRANGE: nothing for an inverted range. -/
def xrange (e : Env) (key : Bytes) (min max : StreamId) (count : Option ℕ) :
    Data S → Data S × Except StoreError Entries :=
  readAs .stream e.now key (.ok []) (.error .wrongType) fun stream =>
    if max < min then .ok []
    else .ok (takeCount count (stream.entries.toList.filter fun p => min ≤ p.1 ∧ p.1 ≤ max))

/-- The reply of XINFO STREAM. -/
structure XInfoStreamSnapshot where
  length : ℕ
  lastId : StreamId
  groupsCount : ℕ
  firstEntry : Option (StreamId × Fields)
  lastEntry : Option (StreamId × Fields)

/-- XINFO STREAM. -/
def xinfoStream (e : Env) (key : Bytes) :
    Data S → Data S × Except StoreError (Option XInfoStreamSnapshot) :=
  readAs .stream e.now key (.ok none) (.error .wrongType) fun stream =>
    .ok (some ⟨stream.entries.size, stream.lastId, stream.groups.size,
      stream.entries.toList.head?, stream.entries.toList.getLast?⟩)

end Store

/-! ## What they edit -/

section Edits

open Relation (ReflTransGen)

variable {S : Type} [LinearOrder S] {e : Env} {p : Set Effect} {key : Bytes} {d : Data S}

theorem Stream.discard_steps (s : Stream) (ids : List StreamId) :
    ReflTransGen (StreamStep p) s (s.discard ids) := by
  induction ids generalizing s with
  | nil => exact .refl
  | cons id ids ih => exact .head (.discard id) (ih _)

/-- Removing entries keeps the last id and adds none. -/
theorem Stream.discard_spec (s : Stream) (ids : List StreamId) :
    (s.discard ids).groups = s.groups ∧ (s.discard ids).lastId = s.lastId ∧
      ∀ id ∈ (s.discard ids).entries, id ∈ s.entries := by
  induction ids generalizing s with
  | nil => exact ⟨rfl, rfl, fun _ hid => hid⟩
  | cons id ids ih =>
    obtain ⟨hg, hl, he⟩ := ih { s with entries := s.entries.erase id }
    exact ⟨hg, hl, fun i hi => Std.ExtTreeMap.mem_of_mem_erase (he i hi)⟩

/-- A rewrite of a stream by steps. -/
theorem Evolves.of_steps {s s' : Stream} (h : ReflTransGen (StreamStep p) s s') :
    Evolves p (some (.stream s)) (ValueData.stream (S := S) s') :=
  .stream _ s s' (.found s) h

theorem Evolves.of_steps_new {s' : Stream} (h : ReflTransGen (StreamStep p) Stream.new s') :
    Evolves p none (ValueData.stream (S := S) s') :=
  .stream _ Stream.new s' .absent h

namespace Store

theorem xreadPairs_edits {count : Option ℕ} {pairs : List (Bytes × StreamId)} :
    Edits e.now p d (xreadPairs e count pairs d).1 := by
  induction pairs generalizing d with
  | nil => exact .refl
  | cons pair pairs ih =>
    have hpurge : Edits e.now p d (purge e.now pair.1 d) := purge_edits
    refine hpurge.trans ?_
    unfold xreadPairs
    dsimp only
    split
    · exact ih
    · split
      · exact .refl
      · exact ih

theorem xread_edits {keys : List Bytes} {ids : List StreamId} {count : Option ℕ} :
    Edits e.now p d (xread e keys ids count d).1 :=
  xreadPairs_edits

end Store

end Edits

end BurnerRedis
