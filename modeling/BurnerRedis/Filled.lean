import BurnerRedis.Store.Hashes
import BurnerRedis.Store.Lists
import BurnerRedis.Store.SortedSets

/-!
# Containers with something in them

A hash, set, sorted set or list goes with its last element. What the commands put into one leaves it
filled: fields and members when some are given, a score, a push, and whatever is written into one
that was filled before.
-/

namespace BurnerRedis

/-- The value is no container with nothing in it. -/
def ValueData.Filled {S : Type} [LinearOrder S] (v : ValueData S) : Prop :=
  v.isEmptyContainer = false

section Filled

variable {S : Type} [LinearOrder S]

/-- What being filled says of a value of each type; strings and streams always are. -/
theorem filled_iff {v : ValueData S} : v.Filled ↔
    (∀ m, v = .hash m → m ≠ ∅) ∧ (∀ m, v = .set m → m ≠ ∅) ∧
      (∀ z, v = .sortedSet z → z.len ≠ 0) ∧ ∀ l, v = .list l → l ≠ [] := by
  cases v <;> simp [ValueData.Filled, ValueData.isEmptyContainer, Std.ExtTreeMap.isEmpty_eq_false_iff]

end Filled

/-! ## Elements -/

/-- A hash is empty after HSET when it was and no field is given. -/
theorem Store.setFields_isEmpty (map : FinMap Bytes Bytes) (fields : List (Bytes × Bytes)) :
    (Store.setFields map fields).1.isEmpty = (map.isEmpty && fields.isEmpty) := by
  unfold Store.setFields
  generalize (0 : ℤ) = n
  induction fields generalizing map n with
  | nil => simp
  | cons f fields ih =>
    rw [List.foldl_cons, ih]
    simp

theorem Store.addAll_isEmpty (set : FinMap Bytes Unit) (members : List Bytes) :
    (Store.addAll set members).1.isEmpty = (set.isEmpty && members.isEmpty) := by
  unfold Store.addAll
  generalize (0 : ℤ) = n
  induction members generalizing set n with
  | nil => simp
  | cons m members ih =>
    rw [List.foldl_cons, ih]
    simp

section Elements

variable {S : Type} [LinearOrder S]

theorem SortedSet.len_eq_zero_iff {z : SortedSet S} : z.len = 0 ↔ z.byMember = ∅ :=
  Std.ExtTreeMap.eq_empty_iff_size_eq_zero.symm

theorem SortedSet.len_insert_ne_zero (z : SortedSet S) (member : Bytes) (score : S) :
    (z.insert member score).1.len ≠ 0 := by
  rw [Ne, SortedSet.len_eq_zero_iff, SortedSet.byMember_insert]
  exact Std.ExtTreeMap.ne_empty_of_mem (Std.ExtTreeMap.mem_insert_self (k := member))

/-- A sorted set has an element when it had one or is given one. -/
theorem SortedSet.len_insertAll_ne_zero {z : SortedSet S} {pairs : List (ScoredMember S)}
    (h : z.len ≠ 0 ∨ pairs ≠ []) : (z.insertAll pairs).len ≠ 0 := by
  induction pairs generalizing z with
  | nil => exact h.resolve_right fun hne => hne rfl
  | cons p pairs ih => exact ih (.inl (z.len_insert_ne_zero p.member p.score))

theorem pushEnd_ne_nil (side : ListEnd) (v : Bytes) (l : List Bytes) : pushEnd side v l ≠ [] := by
  cases side <;> simp [pushEnd]

/-- A push leaves a list with elements, unless there is nothing to push and nothing was there. -/
theorem pushAll_ne_nil (side : ListEnd) {values l : List Bytes} (h : values ≠ [] ∨ l ≠ []) :
    values.foldl (fun l v => pushEnd side v l) l ≠ [] := by
  induction values generalizing l with
  | nil => exact h.resolve_left fun hne => hne rfl
  | cons v values ih => exact ih (.inr (pushEnd_ne_nil side v l))

/-- A list is filled when it has an element. -/
theorem filled_list {l : List Bytes} (h : l ≠ []) : (ValueData.list (S := S) l).Filled := by
  rw [ValueData.Filled, ValueData.isEmptyContainer, List.isEmpty_eq_false_iff]
  exact h

theorem ne_nil_of_filled {l : List Bytes} (h : (ValueData.list (S := S) l).Filled) : l ≠ [] := by
  rwa [ValueData.Filled, ValueData.isEmptyContainer, List.isEmpty_eq_false_iff] at h

theorem filled_insertIdx {l : List Bytes} (h : (ValueData.list (S := S) l).Filled) (i : ℕ)
    (v : Bytes) : (ValueData.list (S := S) (l.insertIdx i v)).Filled := by
  have hpos : 0 < l.length := List.length_pos_of_ne_nil (ne_nil_of_filled h)
  refine filled_list (List.ne_nil_of_length_pos (hpos.trans_le ?_))
  exact List.length_le_length_insertIdx ..

theorem filled_insert (map : FinMap Bytes Bytes) (field value : Bytes) :
    (ValueData.hash (S := S) (map.insert field value)).Filled := by
  show (map.insert field value).isEmpty = false
  simp

/-- HSET fills a hash, or finds it filled. -/
theorem filled_setFields {map : FinMap Bytes Bytes} {fields : List (Bytes × Bytes)}
    (h : (ValueData.hash (S := S) map).Filled ∨ fields ≠ []) :
    (ValueData.hash (S := S) (Store.setFields map fields).1).Filled := by
  show (Store.setFields map fields).1.isEmpty = false
  rw [Store.setFields_isEmpty]
  rcases h with h | h
  · have hne : map.isEmpty = false := h
    rw [hne, Bool.false_and]
  · rw [List.isEmpty_eq_false_iff.mpr h, Bool.and_false]

/-- SADD fills a set, or finds it filled. -/
theorem filled_addAll {set : FinMap Bytes Unit} {members : List Bytes}
    (h : (ValueData.set (S := S) set).Filled ∨ members ≠ []) :
    (ValueData.set (S := S) (Store.addAll set members).1).Filled := by
  show (Store.addAll set members).1.isEmpty = false
  rw [Store.addAll_isEmpty]
  rcases h with h | h
  · have hne : set.isEmpty = false := h
    rw [hne, Bool.false_and]
  · rw [List.isEmpty_eq_false_iff.mpr h, Bool.and_false]

theorem filled_sortedSet {z : SortedSet S} (h : z.len ≠ 0) : (ValueData.sortedSet z).Filled :=
  beq_false_of_ne h

end Elements

end BurnerRedis
