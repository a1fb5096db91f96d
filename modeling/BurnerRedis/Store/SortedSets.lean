import BurnerRedis.Store.Hashes

/-!
# Sorted sets

Scores are of any totally ordered type; the source takes doubles.
-/

namespace BurnerRedis

variable {S : Type} [LinearOrder S]

/-- The pairs with a score from `min` to `max`, in order: the range starts at the pair of `min` and
the empty member and stops at the first greater score. -/
def SortedSet.byScoreRange (z : SortedSet S) (min max : S) : List (ScoredMember S) :=
  ((z.byScore.atLeast ⟨min, []⟩).map Prod.fst).takeWhile fun p => decide (p.score ≤ max)

/-- `SortedSet::insert` for each pair in turn. -/
def SortedSet.insertAll (z : SortedSet S) (pairs : List (ScoredMember S)) : SortedSet S :=
  pairs.foldl (fun z p => (z.insert p.member p.score).1) z

/-- `SortedSet::remove` for each member in turn, and how many were there. -/
def SortedSet.removeAll (z : SortedSet S) (members : List Bytes) : SortedSet S × ℤ :=
  members.foldl (fun r m => ((r.1.remove m).1, if (r.1.remove m).2 then r.2 + 1 else r.2)) (z, 0)

namespace Store

/-- The flags of ZADD. -/
structure ZaddFlags where
  nx : Bool := false
  xx : Bool := false
  gt : Bool := false
  lt : Bool := false
  ch : Bool := false
deriving DecidableEq

/-- What ZADD keeps while it goes through its pairs. -/
structure ZaddState (S : Type) [LinearOrder S] where
  zset : SortedSet S
  added : ℤ
  changed : ℤ

/-- One pair of ZADD. -/
def zaddStep (fl : ZaddFlags) (st : ZaddState S) (pair : S × Bytes) : ZaddState S :=
  match st.zset.byMember[pair.2]? with
  | some old =>
    if fl.nx then st
    else if fl.gt && decide (pair.1 ≤ old) then st
    else if fl.lt && decide (old ≤ pair.1) then st
    else if pair.1 ≠ old then
      { st with zset := (st.zset.insert pair.2 pair.1).1, changed := st.changed + 1 }
    else st
  | none =>
    if fl.xx then st
    else ⟨(st.zset.insert pair.2 pair.1).1, st.added + 1, st.changed + 1⟩

/-- ZADD: the number of new members, or with CH of changed ones. -/
def zadd (e : Env) (key : Bytes) (members : List (S × Bytes)) (fl : ZaddFlags) (d : Data S) :
    Data S × Except StoreError ℤ :=
  thenRemoveIfEmpty key <| upsertAs .sortedSet e.now key .new (.error .wrongType) (fun zset =>
    let st := members.foldl (zaddStep fl) ⟨zset, 0, 0⟩
    (st.zset, .ok (if fl.ch then st.changed else st.added))) d

/-- ZREM: the number of members removed. -/
def zrem (e : Env) (key : Bytes) (members : List Bytes) (d : Data S) :
    Data S × Except StoreError ℤ :=
  thenRemoveIfEmpty key <| modifyAs .sortedSet e.now key (.ok 0) (.error .wrongType) (fun zset =>
    ((zset.removeAll members).1, .ok (zset.removeAll members).2)) d

/-- A member and, when scores are asked for, its score. -/
def withScore (withscores : Bool) (p : ScoredMember S) : Bytes × Option S :=
  (p.member, if withscores then some p.score else none)

/-- The positions `start` to `stop` of a list of `len` elements, as ZRANGE reads them: how many to
skip and how many to take. -/
def zrangeWindow (start stop : ℤ) (len : ℕ) : Option (ℕ × ℕ) :=
  let realStart := max 0 (if start < 0 then len + start else start)
  let realStop := min (len - 1 : ℤ) (if stop < 0 then len + stop else stop)
  if len = 0 ∨ realStart > realStop ∨ realStart ≥ len then none
  else some (realStart.toNat, (realStop - realStart + 1).toNat)

/-- ZRANGE by position. -/
def zrange (e : Env) (key : Bytes) (start stop : ℤ) (withscores : Bool) :
    Data S → Data S × Except StoreError (List (Bytes × Option S)) :=
  readAs .sortedSet e.now key (.ok []) (.error .wrongType) fun zset =>
    match zrangeWindow start stop zset.len with
    | none => .ok []
    | some (skip, take) =>
      .ok (((zset.byScore.keys.drop skip).take take).map (withScore withscores))

/-- ZRANGEBYSCORE. -/
def zrangebyscore (e : Env) (key : Bytes) (min max : S) (withscores : Bool) :
    Data S → Data S × Except StoreError (List (Bytes × Option S)) :=
  readAs .sortedSet e.now key (.ok []) (.error .wrongType) fun zset =>
    .ok ((zset.byScoreRange min max).map (withScore withscores))

/-- The members ZRANGESTORE takes from its source. -/
def membersToStore (e : Env) (src : Bytes) (min max : S) :
    Data S → Data S × Except StoreError (List (ScoredMember S)) :=
  readAs .sortedSet e.now src (.ok []) (.error .wrongType) fun zset =>
    .ok (zset.byScoreRange min max)

/-- ZRANGESTORE by score: the members in range, or no key when there are none. -/
def zrangestore (e : Env) (dst src : Bytes) (min max : S) (d : Data S) :
    Data S × Except StoreError ℤ :=
  match membersToStore e src min max d with
  | (d, .error err) => (d, .error err)
  | (d, .ok []) => (d.erase dst, .ok 0)
  | (d, .ok members) => (d.insert dst ⟨.sortedSet (.insertAll .new members), none⟩,
      .ok members.length)

/-- ZREMRANGEBYSCORE: the number of members removed. -/
def zremrangebyscore (e : Env) (key : Bytes) (min max : S) (d : Data S) :
    Data S × Except StoreError ℤ :=
  thenRemoveIfEmpty key <| modifyAs .sortedSet e.now key (.ok 0) (.error .wrongType) (fun zset =>
    let toRemove := (zset.byScoreRange min max).map (·.member)
    ((zset.removeAll toRemove).1, .ok toRemove.length)) d

/-- ZCARD. -/
def zcard (e : Env) (key : Bytes) : Data S → Data S × Except StoreError ℤ :=
  readAs .sortedSet e.now key (.ok 0) (.error .wrongType) fun zset => .ok zset.len

/-- ZSCORE. -/
def zscore (e : Env) (key member : Bytes) : Data S → Data S × Except StoreError (Option S) :=
  readAs .sortedSet e.now key (.ok none) (.error .wrongType) fun zset => .ok zset.byMember[member]?

/-- ZCOUNT. -/
def zcount (e : Env) (key : Bytes) (min max : S) : Data S → Data S × Except StoreError ℤ :=
  readAs .sortedSet e.now key (.ok 0) (.error .wrongType) fun zset =>
    .ok (zset.byScoreRange min max).length

end Store

/-! ## Coherence -/

theorem SortedSet.Coherent.insertAll {z : SortedSet S} (h : z.Coherent)
    (pairs : List (ScoredMember S)) : (z.insertAll pairs).Coherent := by
  induction pairs generalizing z with
  | nil => exact h
  | cons p pairs ih => exact ih (h.insert p.member p.score)

theorem SortedSet.Coherent.removeAll {z : SortedSet S} (h : z.Coherent) (members : List Bytes) :
    (z.removeAll members).1.Coherent := by
  unfold SortedSet.removeAll
  generalize (0 : ℤ) = n
  induction members generalizing z n with
  | nil => exact h
  | cons m members ih => exact ih (h.remove m) _

theorem Store.coherent_zaddStep (fl : ZaddFlags) {st : ZaddState S} (h : st.zset.Coherent)
    (pair : S × Bytes) : (zaddStep fl st pair).zset.Coherent := by
  unfold zaddStep
  split <;> split_ifs
  all_goals first | exact h | exact h.insert _ _

theorem Store.coherent_foldl_zaddStep (fl : ZaddFlags) (members : List (S × Bytes))
    {st : ZaddState S} (h : st.zset.Coherent) :
    (members.foldl (zaddStep fl) st).zset.Coherent := by
  induction members generalizing st with
  | nil => exact h
  | cons pair members ih => exact ih (coherent_zaddStep fl h pair)

/-! ## What they edit -/

section Edits

variable {e : Env} {p : Set Effect} {key : Bytes} {d : Data S}

/-- A rewrite that keeps sorted sets coherent. -/
theorem Evolves.of_coherent {z z' : SortedSet S} (h : z.Coherent → z'.Coherent) :
    Evolves p (some (.sortedSet z)) (.sortedSet z') :=
  .sortedSet _ z' fun hz => h (hz z rfl)

namespace Store

theorem zrangestore_edits {dst src : Bytes} {min max : S} :
    Edits e.now p d (zrangestore e dst src min max d).1 := by
  unfold zrangestore
  have hr : Edits e.now p d (membersToStore e src min max d).1 := purge_edits
  split
  · rename_i h
    rw [h] at hr
    exact hr
  · rename_i h
    rw [h] at hr
    exact hr.tail (.drop _ dst)
  · rename_i h
    rw [h] at hr
    exact hr.tail (.write _ dst _ (.sortedSet _ _ fun _ => SortedSet.coherent_new.insertAll _))

end Store

end Edits

end BurnerRedis
