import BurnerRedis.Text

/-!
# The values a store holds

The six value types of `store.rs` and the entry around them. A `Data S` is the map from keys to
entries; `S` is the type of sorted-set scores, of which only the order is used.

An `Instant` is a whole number of nanoseconds. A clock of the standard library counts seconds in
64 bits; here the count has no end, so adding to an instant or subtracting from it never fails.
-/

open Std (TransOrd LawfulEqOrd TransCmp)

namespace BurnerRedis

/-! ## Clocks -/

/-- A reading of the monotonic clock, in nanoseconds. -/
abbrev Instant := ℤ

/-- A length of time, in nanoseconds. -/
abbrev Duration := ℕ

def Duration.fromSecs (n : ℕ) : Duration := n * 1000000000

def Duration.fromMillis (n : ℕ) : Duration := n * 1000000

/-- Whole milliseconds of a duration. -/
def Duration.asMillis (d : Duration) : ℕ := d / 1000000

/-- `later.duration_since(earlier)`, which is zero when `earlier` is the later one. -/
def Instant.durationSince (later earlier : Instant) : Duration := (later - earlier).toNat

/-- What a command reads besides the data map: the monotonic clock, the milliseconds of the wall
clock since the epoch, and the order in which hash maps are walked. -/
structure Env where
  now : Instant
  wall : UInt64 := 0
  walk : FinMap.WalkOrder := .byKey

/-! ## Stream ids -/

theorem transOrd_of_linearOrder {α : Type} [LinearOrder α] : TransOrd α := inferInstance

theorem lawfulEqOrd_of_linearOrder {α : Type} [LinearOrder α] : LawfulEqOrd α := inferInstance

/-- A stream entry id: milliseconds and sequence number, compared in this order. -/
@[ext] structure StreamId where
  ms : UInt64
  seq : UInt64
deriving DecidableEq, Repr

namespace StreamId

/-- The pair of natural numbers an id stands for. -/
def toPair (i : StreamId) : ℕ ×ₗ ℕ := toLex (i.ms.toNat, i.seq.toNat)

theorem toPair_injective : Function.Injective toPair := by
  rintro ⟨a, b⟩ ⟨c, d⟩ h
  simpa [toPair, UInt64.toNat_inj, Prod.ext_iff] using h

instance : LinearOrder StreamId := LinearOrder.lift' toPair toPair_injective

instance : TransOrd StreamId := transOrd_of_linearOrder

instance : LawfulEqOrd StreamId := lawfulEqOrd_of_linearOrder

theorem lt_iff {a b : StreamId} : a < b ↔ a.ms < b.ms ∨ a.ms = b.ms ∧ a.seq < b.seq := by
  show toPair a < toPair b ↔ _
  simp [toPair, Prod.Lex.lt_iff, UInt64.lt_iff_toNat_lt, UInt64.toNat_inj]

/-- The id `(u64::MAX, u64::MAX)`. -/
def max : StreamId := ⟨18446744073709551615, 18446744073709551615⟩

/-- The id `(0, 0)`. -/
def zero : StreamId := ⟨0, 0⟩

theorem zero_le (i : StreamId) : zero ≤ i := by
  rw [← not_lt, lt_iff]
  rintro (h | ⟨-, h⟩)
  · exact UInt64.not_lt_zero h
  · exact UInt64.not_lt_zero h

end StreamId

/-- `format!("{}-{}", id.0, id.1)`. -/
def formatStreamId (id : StreamId) : Bytes := decimal id.ms.toNat ++ 45 :: decimal id.seq.toNat

/-- `s.splitn(2, '-')`: the text before the first dash, and the text after it if there is one. -/
def splitDash (s : Bytes) : Bytes × Option Bytes :=
  (s.takeWhile (· ≠ 45), (s.dropWhile (· ≠ 45)).tail?)

/-- `parse_stream_id`. -/
def parseStreamId (s : Bytes) : Option StreamId :=
  match splitDash s with
  | (_, none) => none
  | (ms, some seq) => (parseU64 ms).bind fun ms => (parseU64 seq).map fun seq => ⟨ms, seq⟩

theorem splitDash_formatStreamId (id : StreamId) :
    splitDash (formatStreamId id) = (decimal id.ms.toNat, some (decimal id.seq.toNat)) := by
  have hdigits : ∀ b ∈ decimal id.ms.toNat, decide (b ≠ 45) = true := by
    intro b hb
    rw [decide_eq_true_eq]
    rintro rfl
    exact absurd (digit_of_mem_decimal hb).1 (by decide)
  unfold splitDash formatStreamId
  rw [List.takeWhile_append_of_pos hdigits, List.dropWhile_append_of_pos hdigits]
  simp

theorem parseStreamId_formatStreamId (id : StreamId) :
    parseStreamId (formatStreamId id) = some id := by
  unfold parseStreamId
  rw [splitDash_formatStreamId]
  dsimp only
  rw [parseU64_decimal, parseU64_decimal]
  rfl

theorem formatStreamId_injective : Function.Injective formatStreamId := by
  intro a b h
  have ha := parseStreamId_formatStreamId a
  rw [h, parseStreamId_formatStreamId] at ha
  exact (Option.some.inj ha).symm

/-- The text of an id begins with a digit. -/
theorem formatStreamId_eq_cons (id : StreamId) :
    ∃ b rest, formatStreamId id = b :: rest ∧ 48 ≤ b ∧ b ≤ 57 := by
  cases h : decimal id.ms.toNat with
  | nil => exact absurd h (decimal_ne_nil _)
  | cons b rest =>
    have hdigit := digit_of_mem_decimal (h ▸ List.mem_cons_self)
    refine ⟨b, rest ++ 45 :: decimal id.seq.toNat, ?_, hdigit⟩
    unfold formatStreamId
    rw [h, List.cons_append]

/-! ## Sorted sets -/

/-- A key of the score index: a score and a member, compared in this order. -/
structure ScoredMember (S : Type) where
  score : S
  member : Bytes
deriving DecidableEq

namespace ScoredMember

variable {S : Type} [LinearOrder S]

instance : Ord (ScoredMember S) where
  compare a b := (compare a.score b.score).then (compare a.member b.member)

instance : TransOrd (ScoredMember S) :=
  inferInstanceAs (TransCmp (compareLex (compareOn ScoredMember.score) (compareOn (·.member))))

instance : LawfulEqOrd (ScoredMember S) where
  compare_self := by
    intro a
    show (compare a.score a.score).then (compare a.member a.member) = .eq
    rw [Std.compare_self, Std.compare_self, Ordering.then_eq]
  eq_of_compare := by
    rintro ⟨s, m⟩ ⟨s', m'⟩ h
    obtain ⟨hs, hm⟩ := Ordering.then_eq_eq.mp h
    rw [Std.compare_eq_iff_eq] at hs hm
    simp only at hs hm
    rw [hs, hm]

end ScoredMember

/-- Dual-index sorted set: the members in score order, and the score of each member. -/
structure SortedSet (S : Type) [LinearOrder S] where
  byScore : FinMap (ScoredMember S) Unit
  byMember : FinMap Bytes S

namespace SortedSet

variable {S : Type} [LinearOrder S]

instance : DecidableEq (SortedSet S) := fun a b =>
  decidable_of_iff (a.byScore = b.byScore ∧ a.byMember = b.byMember) (by
    cases a; cases b; rw [SortedSet.mk.injEq])

def new : SortedSet S := ⟨∅, ∅⟩

def len (z : SortedSet S) : ℕ := z.byMember.size

/-- Insert a member with a score; true if the member is new. -/
def insert (z : SortedSet S) (member : Bytes) (score : S) : SortedSet S × Bool :=
  match z.byMember[member]? with
  | some old =>
    (⟨(z.byScore.erase ⟨old, member⟩).insert ⟨score, member⟩ (), z.byMember.insert member score⟩,
      false)
  | none =>
    (⟨z.byScore.insert ⟨score, member⟩ (), z.byMember.insert member score⟩, true)

/-- Remove a member; true if it was there. -/
def remove (z : SortedSet S) (member : Bytes) : SortedSet S × Bool :=
  match z.byMember[member]? with
  | some score => (⟨z.byScore.erase ⟨score, member⟩, z.byMember.erase member⟩, true)
  | none => (z, false)

theorem byMember_insert (z : SortedSet S) (member : Bytes) (score : S) :
    (z.insert member score).1.byMember = z.byMember.insert member score := by
  unfold SortedSet.insert
  split <;> rfl

theorem insert_snd (z : SortedSet S) (member : Bytes) (score : S) :
    (z.insert member score).2 = z.byMember[member]?.isNone := by
  unfold SortedSet.insert
  split
  · rename_i old h
    rw [h]
    rfl
  · rename_i h
    rw [h]
    rfl

/-- The score index after an insertion: the new pair, and the pairs other than the one replaced. -/
theorem mem_byScore_insert {z : SortedSet S} {member : Bytes} {score : S} {p : ScoredMember S} :
    p ∈ (z.insert member score).1.byScore ↔
      p = ⟨score, member⟩ ∨
        p ∈ z.byScore ∧ (p.member = member → z.byMember[member]? ≠ some p.score) := by
  obtain ⟨s, m⟩ := p
  unfold SortedSet.insert
  cases hold : z.byMember[member]? with
  | none =>
    simp only [Std.ExtTreeMap.mem_insert, Std.compare_eq_iff_eq]
    grind
  | some old =>
    simp only [Std.ExtTreeMap.mem_insert, Std.ExtTreeMap.mem_erase, Std.compare_eq_iff_eq]
    grind

/-- The two indexes hold the same pairs. -/
def Coherent (z : SortedSet S) : Prop :=
  ∀ (score : S) (member : Bytes), ⟨score, member⟩ ∈ z.byScore ↔ z.byMember[member]? = some score

theorem coherent_new : (new : SortedSet S).Coherent := by
  intro score member
  simp [new]

theorem Coherent.insert {z : SortedSet S} (h : z.Coherent) (member : Bytes) (score : S) :
    (z.insert member score).1.Coherent := by
  intro s m
  unfold SortedSet.insert
  cases hold : z.byMember[member]? with
  | none =>
    simp only [Std.ExtTreeMap.mem_insert, Std.compare_eq_iff_eq, ScoredMember.mk.injEq, h s m,
      FinMap.getElem?_insert']
    split_ifs with hm
    · subst hm
      simp [hold]
    · simp [hm]
  | some old =>
    simp only [Std.ExtTreeMap.mem_insert, Std.ExtTreeMap.mem_erase, Std.compare_eq_iff_eq,
      ScoredMember.mk.injEq, h s m, FinMap.getElem?_insert', ne_eq]
    split_ifs with hm
    · subst hm
      simp [hold]
    · simp [hm]

theorem Coherent.remove {z : SortedSet S} (h : z.Coherent) (member : Bytes) :
    (z.remove member).1.Coherent := by
  intro s m
  unfold SortedSet.remove
  cases hold : z.byMember[member]? with
  | none => exact h s m
  | some old =>
    simp only [Std.ExtTreeMap.mem_erase, Std.compare_eq_iff_eq, ScoredMember.mk.injEq, h s m,
      FinMap.getElem?_erase', ne_eq]
    split_ifs with hm
    · subst hm
      simp [hold]
    · simp [hm]

end SortedSet

/-! ## Streams -/

/-- A pending entry in a consumer's list of unacknowledged entries. -/
structure PendingEntry where
  deliveryTime : Instant
  deliveryCount : UInt64
deriving DecidableEq

/-- A consumer within a group, with its pending entries. -/
structure Consumer where
  pending : FinMap StreamId PendingEntry
deriving DecidableEq

/-- A consumer group of a stream. -/
structure ConsumerGroup where
  lastDeliveredId : StreamId
  consumers : FinMap Bytes Consumer
deriving DecidableEq

/-- The fields of a stream entry. -/
abbrev Fields := FinMap Bytes Bytes

/-- A stream: a log of entries, the greatest id ever added, and the groups reading it. -/
structure Stream where
  entries : FinMap StreamId Fields
  lastId : StreamId
  groups : FinMap Bytes ConsumerGroup
deriving DecidableEq

def Stream.new : Stream := ⟨∅, StreamId.zero, ∅⟩

/-! ## Entries -/

/-- The data types a key can hold. -/
inductive ValueData (S : Type) [LinearOrder S] where
  | string (v : Bytes)
  | hash (map : FinMap Bytes Bytes)
  | set (members : FinMap Bytes Unit)
  | sortedSet (zset : SortedSet S)
  | stream (stream : Stream)
  | list (l : List Bytes)

/-- A value with its expiry. -/
structure ValueEntry (S : Type) [LinearOrder S] where
  data : ValueData S
  expiresAt : Option Instant

/-- The keyspace. -/
abbrev Data (S : Type) [LinearOrder S] := FinMap Bytes (ValueEntry S)

variable {S : Type} [LinearOrder S]

instance : DecidableEq (ValueData S)
  | .string a, .string b => decidable_of_iff (a = b) (by rw [ValueData.string.injEq])
  | .hash a, .hash b => decidable_of_iff (a = b) (by rw [ValueData.hash.injEq])
  | .set a, .set b => decidable_of_iff (a = b) (by rw [ValueData.set.injEq])
  | .sortedSet a, .sortedSet b => decidable_of_iff (a = b) (by rw [ValueData.sortedSet.injEq])
  | .stream a, .stream b => decidable_of_iff (a = b) (by rw [ValueData.stream.injEq])
  | .list a, .list b => decidable_of_iff (a = b) (by rw [ValueData.list.injEq])
  | .string _, .hash _ | .string _, .set _ | .string _, .sortedSet _ | .string _, .stream _
  | .string _, .list _ | .hash _, .string _ | .hash _, .set _ | .hash _, .sortedSet _
  | .hash _, .stream _ | .hash _, .list _ | .set _, .string _ | .set _, .hash _
  | .set _, .sortedSet _ | .set _, .stream _ | .set _, .list _ | .sortedSet _, .string _
  | .sortedSet _, .hash _ | .sortedSet _, .set _ | .sortedSet _, .stream _ | .sortedSet _, .list _
  | .stream _, .string _ | .stream _, .hash _ | .stream _, .set _ | .stream _, .sortedSet _
  | .stream _, .list _ | .list _, .string _ | .list _, .hash _ | .list _, .set _
  | .list _, .sortedSet _ | .list _, .stream _ => isFalse nofun

instance : DecidableEq (ValueEntry S) := fun a b =>
  decidable_of_iff (a.data = b.data ∧ a.expiresAt = b.expiresAt) (by
    cases a; cases b; rw [ValueEntry.mk.injEq])

def ValueEntry.isExpired (now : Instant) (en : ValueEntry S) : Bool :=
  match en.expiresAt with
  | none => false
  | some exp => decide (exp ≤ now)

/-- A new string entry. -/
def ValueEntry.new (now : Instant) (data : Bytes) (ttl : Option Duration) : ValueEntry S :=
  ⟨.string data, ttl.map fun d => now + d⟩

/-- A container with nothing in it. A stream is never taken for one. -/
def ValueData.isEmptyContainer : ValueData S → Bool
  | .hash map => map.isEmpty
  | .set members => members.isEmpty
  | .sortedSet zset => zset.len == 0
  | .list l => l.isEmpty
  | _ => false

/-- A hash, set, sorted set or list goes with its last element. -/
def removeIfEmpty (key : Bytes) (d : Data S) : Data S :=
  match d[key]? with
  | some en => if en.data.isEmptyContainer then d.erase key else d
  | none => d

/-! ## Errors -/

/-- Errors of store operations. -/
inductive StoreError where
  | wrongType
  | noGroup (group key : String)
  | busyGroup
  | keyNotFound
  | syntaxError (message : String)
  | noSuchKey
deriving DecidableEq

/-- The text a store error is shown as. -/
def StoreError.toString : StoreError → String
  | .wrongType => "WRONGTYPE Operation against a key holding the wrong kind of value"
  | .noGroup group key => "NOGROUP No such key '" ++ key ++ "' or consumer group '" ++ group ++ "'"
  | .busyGroup => "BUSYGROUP Consumer Group name already exists"
  | .keyNotFound => "ERR The XGROUP subcommand requires the key to exist"
  | .syntaxError message => message
  | .noSuchKey => "ERR no such key"

end BurnerRedis
