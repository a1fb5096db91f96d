import BurnerRedis.Pending

/-!
# What a command can do to the data

`Edit now p d d'` is one change to the data map by a command that reads the clock at `now` and has
the effects `p`. It says of the changed key how the new value comes from the live old one:

* a key can always be dropped, and a value can always be kept under another expiry;
* strings, hashes and sets can be written at will;
* a sorted set keeps its two indexes together;
* a list is empty, or was non-empty before, unless the command may `grow` lists;
* a stream changes by `StreamStep`s and a consumer group by `GroupStep`s.

Every command is a sequence of edits (`Edits`), with the effects that its reply accounts for. An
invariant over all commands is proved by one look at each kind of edit.
-/

open Relation (ReflTransGen)

namespace BurnerRedis

variable {S : Type} [LinearOrder S]

/-- The effects that only some commands have. -/
inductive Effect where
  /-- a list gets elements -/
  | grow
  /-- a stream gets an entry -/
  | append
  /-- a consumer group is created -/
  | create
  /-- entries are delivered to a consumer -/
  | deliver
  /-- a pending entry is acknowledged -/
  | ack
  /-- an entry that was pending nowhere is made pending -/
  | force
deriving DecidableEq

/-- The waiters a command wakes. -/
structure Wake where
  stream : Bool := false
  list : Bool := false
deriving DecidableEq

/-- The waiters of both. -/
def Wake.or (w w' : Wake) : Wake := ⟨w.stream || w'.stream, w.list || w'.list⟩

/-- The effects a command may have had when it woke these waiters. -/
def Wake.effects (w : Wake) : Set Effect :=
  {x | x = .append ∧ w.stream = true ∨ x = .grow ∧ w.list = true}

theorem Wake.grow_mem {w : Wake} (h : w.list = true) : Effect.grow ∈ w.effects := .inr ⟨rfl, h⟩

@[simp] theorem Wake.effects_empty : ({} : Wake).effects = ∅ := by
  ext x
  simp [Wake.effects]

@[simp] theorem Wake.effects_or (w w' : Wake) : (w.or w').effects = w.effects ∪ w'.effects := by
  ext x
  simp only [Wake.effects, Wake.or, Set.mem_ofPred_eq, Set.mem_union, Bool.or_eq_true]
  tauto

theorem Wake.append_mem {w : Wake} (h : w.stream = true) : Effect.append ∈ w.effects := .inl ⟨rfl, h⟩

/-! ## Groups and streams -/

/-- One change to a consumer group. -/
inductive GroupStep (p : Set Effect) : ConsumerGroup → ConsumerGroup → Prop where
  | deliver {cg} (c : Bytes) (id : StreamId) (pe : PendingEntry) (hp : .deliver ∈ p)
      (hid : cg.lastDeliveredId < id) :
      GroupStep p cg (({ cg with lastDeliveredId := id } : ConsumerGroup).insertPending c id pe)
  | ack {cg} (c : Bytes) (id : StreamId) (hp : .ack ∈ p) : GroupStep p cg (cg.removePending c id)
  | move {cg} (c₀ c : Bytes) (id : StreamId) (pe : PendingEntry) (h : cg.owns c₀ id) :
      GroupStep p cg ((cg.removePending c₀ id).insertPending c id pe)
  | force {cg} (c : Bytes) (id : StreamId) (pe : PendingEntry) (hp : .force ∈ p)
      (h : ∀ c', ¬ cg.owns c' id) : GroupStep p cg (cg.insertPending c id pe)

/-- One change to a stream. -/
inductive StreamStep (p : Set Effect) : Stream → Stream → Prop where
  | append {s} (id : StreamId) (fields : Fields) (hp : .append ∈ p) :
      StreamStep p s { s with entries := s.entries.insert id fields, lastId := id }
  | discard {s} (id : StreamId) : StreamStep p s { s with entries := s.entries.erase id }
  | create {s} (g : Bytes) (last : StreamId) (hp : .create ∈ p) (h : s.groups[g]? = none) :
      StreamStep p s { s with groups := s.groups.insert g ⟨last, ∅⟩ }
  | destroy {s} (g : Bytes) : StreamStep p s { s with groups := s.groups.erase g }
  | group {s} (g : Bytes) (cg cg' : ConsumerGroup) (h : s.groups[g]? = some cg)
      (st : GroupStep p cg cg') : StreamStep p s { s with groups := s.groups.insert g cg' }

theorem GroupStep.mono {p q : Set Effect} (h : p ⊆ q) {cg cg' : ConsumerGroup}
    (st : GroupStep p cg cg') : GroupStep q cg cg' := by
  cases st with
  | deliver c id pe hp hid => exact .deliver c id pe (h hp) hid
  | ack c id hp => exact .ack c id (h hp)
  | move c₀ c id pe ho => exact .move c₀ c id pe ho
  | force c id pe hp hn => exact .force c id pe (h hp) hn

theorem StreamStep.mono {p q : Set Effect} (h : p ⊆ q) {s s' : Stream} (st : StreamStep p s s') :
    StreamStep q s s' := by
  cases st with
  | append id fields hp => exact .append id fields (h hp)
  | discard id => exact .discard id
  | create g last hp hn => exact .create g last (h hp) hn
  | destroy g => exact .destroy g
  | group g cg cg' hg st => exact .group g cg cg' hg (st.mono h)

/-- Steps of a group are steps of its stream. -/
theorem StreamStep.of_group {p : Set Effect} {s : Stream} {g : Bytes} {cg cg' : ConsumerGroup}
    (hg : s.groups[g]? = some cg) (st : ReflTransGen (GroupStep p) cg cg') :
    ReflTransGen (StreamStep p) s { s with groups := s.groups.insert g cg' } := by
  induction st with
  | refl => rw [FinMap.insert_self_of_getElem? hg]
  | @tail b c _ hbc ih =>
    have hb : (s.groups.insert g b)[g]? = some b := by rw [FinMap.getElem?_insert', if_pos rfl]
    have h := ih.tail (StreamStep.group g b c hb hbc)
    rwa [FinMap.insert_insert] at h

/-! ## Values -/

/-- The stream a command for streams starts from. -/
inductive StreamAt : Option (ValueData S) → Stream → Prop where
  | found (s : Stream) : StreamAt (some (.stream s)) s
  | absent : StreamAt none Stream.new

/-- How the value under a key comes from the live value that was there before. -/
inductive Evolves (p : Set Effect) : Option (ValueData S) → ValueData S → Prop where
  | string (old : Option (ValueData S)) (v : Bytes) : Evolves p old (.string v)
  | hash (old : Option (ValueData S)) (m : FinMap Bytes Bytes) : Evolves p old (.hash m)
  | set (old : Option (ValueData S)) (m : FinMap Bytes Unit) : Evolves p old (.set m)
  | sortedSet (old : Option (ValueData S)) (z : SortedSet S)
      (h : (∀ z₀, old = some (.sortedSet z₀) → z₀.Coherent) → z.Coherent) :
      Evolves p old (.sortedSet z)
  | list (old : Option (ValueData S)) (l : List Bytes)
      (h : l ≠ [] → .grow ∈ p ∨ ∃ l₀, old = some (.list l₀) ∧ l₀ ≠ []) : Evolves p old (.list l)
  | stream (old : Option (ValueData S)) (s s' : Stream) (hs : StreamAt old s)
      (h : ReflTransGen (StreamStep p) s s') : Evolves p old (.stream s')

theorem Evolves.refl (p : Set Effect) (x : ValueData S) : Evolves p (some x) x := by
  cases x with
  | string v => exact .string _ v
  | hash m => exact .hash _ m
  | set m => exact .set _ m
  | sortedSet z => exact .sortedSet _ z fun h => h z rfl
  | stream s => exact .stream _ s s (.found s) .refl
  | list l => exact .list _ l fun hl => .inr ⟨l, rfl, hl⟩

theorem Evolves.mono {p q : Set Effect} (h : p ⊆ q) {old : Option (ValueData S)} {x : ValueData S}
    (ev : Evolves p old x) : Evolves q old x := by
  cases ev with
  | string v => exact .string _ v
  | hash m => exact .hash _ m
  | set m => exact .set _ m
  | sortedSet z hz => exact .sortedSet _ z hz
  | list l hl => exact .list _ l fun hne => (hl hne).imp_left (h ·)
  | stream s s' hs st => exact .stream _ s s' hs (ReflTransGen.mono (fun _ _ => StreamStep.mono h) s s' st)

/-! ## The data map -/

/-- The live value of a key. -/
def liveData (now : Instant) (d : Data S) (key : Bytes) : Option (ValueData S) :=
  (live now d key).map (·.data)

@[simp] theorem liveData_purge (now : Instant) (key k : Bytes) (d : Data S) :
    liveData now (purge now key d) k = liveData now d k := by
  rw [liveData, live_purge, liveData]

/-- One change to the data map. -/
inductive Edit (now : Instant) (p : Set Effect) : Data S → Data S → Prop where
  | drop (d : Data S) (key : Bytes) : Edit now p d (d.erase key)
  | write (d : Data S) (key : Bytes) (en : ValueEntry S)
      (h : Evolves p (liveData now d key) en.data) : Edit now p d (d.insert key en)

/-- What a command does to the data map. -/
abbrev Edits (now : Instant) (p : Set Effect) : Data S → Data S → Prop :=
  ReflTransGen (Edit now p)

theorem Edits.mono {now : Instant} {p q : Set Effect} (h : p ⊆ q) {d d' : Data S}
    (ed : Edits now p d d') : Edits now q d d' := by
  refine ReflTransGen.mono (fun a b st => ?_) d d' ed
  cases st with
  | drop key => exact .drop _ key
  | write key en hev => exact .write _ key en (hev.mono h)

section Rules

variable {now : Instant} {p : Set Effect} {key : Bytes} {d : Data S}

/-- Every command that only reads edits like this. -/
theorem purge_edits : Edits now p d (purge now key d) := by
  rcases purge_cases now key d with ⟨h, -⟩ | ⟨h, -⟩
  · rw [h]
  · rw [h]
    exact .single (.drop d key)

theorem purgePair_edits {dst : Bytes} : Edits now p d (purgePair now key dst d) := by
  unfold purgePair
  split
  · exact purge_edits
  · exact purge_edits.trans purge_edits

theorem removeIfEmpty_edits : Edits now p d (removeIfEmpty key d) := by
  unfold removeIfEmpty
  split
  · split
    · exact .single (.drop d key)
    · exact .refl
  · exact .refl

theorem write_edits {en : ValueEntry S} (h : Evolves p (liveData now d key) en.data) :
    Edits now p d (d.insert key en) :=
  .single (.write d key en h)

end Rules

end BurnerRedis
