import BurnerRedis.CollectionTables

/-!
# The keyspace of a store

The keyspace of a store is what is live in it, with the tables of its containers. The three types of
container keep their tables in the same way (`Container`), so that there is one rule for the methods
that read a table, and three for those that rewrite one.
-/

namespace BurnerRedis

variable {S : Type} [LinearOrder S]

/-! ## The keyspace of a store -/

def ValueData.holding : ValueData S → Holding S
  | .string v => .string v
  | .hash map => .collection (.hash map.table)
  | .set members => .collection (.set members.table)
  | .sortedSet zset => .collection (.sortedSet zset.scores)
  | .stream _ => .stream
  | .list _ => .list

def ValueEntry.holding (en : ValueEntry S) : Holding S × Option Instant :=
  (en.data.holding, en.expiresAt)

/-- What is live in a store. -/
def keyspace (now : Instant) (d : Data S) : Keyspace S :=
  fun key => (live now d key).map ValueEntry.holding

section Keyspace

variable {now : Instant} {d d' : Data S} {key : Bytes} {en : ValueEntry S}

theorem keyspace_congr (h : ∀ k, live now d k = live now d' k) :
    keyspace now d = keyspace now d' := by
  funext k
  rw [keyspace, keyspace, h k]

@[simp] theorem keyspace_purge : keyspace now (purge now key d) = keyspace now d :=
  keyspace_congr fun _ => live_purge ..

theorem keyspace_erase : keyspace now (d.erase key) = (keyspace now d).without [key] := by
  funext k
  unfold keyspace Table.without
  rw [live_erase]
  simp only [List.mem_singleton, eq_comm]
  split_ifs <;> rfl

theorem keyspace_insert (h : en.isExpired now = false) :
    keyspace now (d.insert key en) = (keyspace now d).put key en.holding := by
  funext k
  rw [Table.put_apply]
  unfold keyspace
  rw [live_insert, Option.filter_some, h, Bool.not_false, if_pos rfl]
  simp only [eq_comm]
  split_ifs <;> rfl

theorem isSome_keyspace : (keyspace now d key).isSome = (live now d key).isSome := by
  rw [keyspace, Option.isSome_map]

theorem lasts_holding_iff : (∀ exp ∈ en.holding.2, now < exp) ↔ en.isExpired now = false := by
  obtain ⟨x, exp⟩ := en
  cases exp <;> simp [ValueEntry.holding, ValueEntry.isExpired]

theorem later_map (m : Bytes → Option (ValueEntry S)) :
    Keyspace.later (fun k => (m k).map ValueEntry.holding) now =
      fun k => ((m k).filter fun en => !en.isExpired now).map ValueEntry.holding := by
  funext k
  unfold Keyspace.later Table.keep
  dsimp only
  cases m k with
  | none => rfl
  | some en =>
    rw [Option.map_some, Option.filter_some, Option.filter_some]
    cases hx : en.isExpired now with
    | false =>
      rw [if_pos (decide_eq_true (lasts_holding_iff.mpr hx))]
      rfl
    | true =>
      rw [if_neg]
      · rfl
      · intro h
        rw [lasts_holding_iff.mp (of_decide_eq_true h)] at hx
        cases hx

/-- As time passes what has expired is dropped. -/
theorem keyspace_later {now' : Instant} (h : now ≤ now') :
    (keyspace now d).later now' = keyspace now' d := by
  unfold keyspace
  rw [later_map]
  funext k
  rw [live_later h]

/-- What is written is there as long as it has not expired. -/
theorem keyspace_insert_later (now : Instant) (d : Data S) (key : Bytes) (en : ValueEntry S) :
    keyspace now (d.insert key en) =
      Keyspace.later ((keyspace now d).put key en.holding) now := by
  have hput : (keyspace now d).put key en.holding =
      fun k => (if k = key then some en else live now d k).map ValueEntry.holding := by
    funext k
    rw [Table.put_apply, keyspace]
    split_ifs <;> rfl
  rw [hput, later_map]
  funext k
  rw [keyspace, live_insert]
  simp only [eq_comm]
  split_ifs
  · rfl
  · rw [← live_later (le_refl now)]

end Keyspace

/-! ## The three types of container -/

/-- How the containers of one type hold their tables. -/
structure Container (S V C : Type) [LinearOrder S] where
  kind : Kind S C
  collect : Table Bytes V → Collection S
  table : C → Table Bytes V
  new : C
  table_new : table new = .empty
  holding_wrap : ∀ c, (kind.wrap c).holding = .collection (collect (table c))
  found_of_holding : ∀ {x t}, ValueData.holding x = .collection (collect t) → ∃ c, x = kind.wrap c
  isEmpty_wrap : ∀ c, (kind.wrap c).isEmptyContainer = true ↔ table c = .empty

namespace Container

def hash : Container S Bytes (FinMap Bytes Bytes) where
  kind := .hash
  collect := .hash
  table := FinMap.table
  new := ∅
  table_new := FinMap.table_empty
  holding_wrap _ := rfl
  found_of_holding {x t} h := by
    cases x <;> cases h
    exact ⟨_, rfl⟩
  isEmpty_wrap m := Std.ExtTreeMap.isEmpty_iff.trans FinMap.table_eq_empty.symm

def set : Container S Unit (FinMap Bytes Unit) where
  kind := .set
  collect := .set
  table := FinMap.table
  new := ∅
  table_new := FinMap.table_empty
  holding_wrap _ := rfl
  found_of_holding {x t} h := by
    cases x <;> cases h
    exact ⟨_, rfl⟩
  isEmpty_wrap m := Std.ExtTreeMap.isEmpty_iff.trans FinMap.table_eq_empty.symm

def sortedSet : Container S S (SortedSet S) where
  kind := .sortedSet
  collect := .sortedSet
  table := SortedSet.scores
  new := .new
  table_new := FinMap.table_empty
  holding_wrap _ := rfl
  found_of_holding {x t} h := by
    cases x <;> cases h
    exact ⟨_, rfl⟩
  isEmpty_wrap z := by
    rw [SortedSet.scores, FinMap.table_eq_empty, ← SortedSet.len_eq_zero_iff]
    exact beq_iff_eq

end Container

section Rules

variable {V C α : Type} {T : Container S V C} {now : Instant} {d : Data S} {key : Bytes} {c : C}
  {exp : Option Instant}

theorem Container.has_of_absent (h : live now d key = none) :
    (keyspace now d).Has T.collect key (T.table T.new) := by
  left
  rw [keyspace, h]
  exact ⟨rfl, T.table_new⟩

theorem Container.has_of_found (h : live now d key = some ⟨T.kind.wrap c, exp⟩) :
    (keyspace now d).Has T.collect key (T.table c) := by
  right
  refine ⟨exp, ?_⟩
  rw [keyspace, h, Option.map_some, ValueEntry.holding, T.holding_wrap]

theorem Container.wrong_of_other {en : ValueEntry S} (h : live now d key = some en)
    (hd : T.kind.get? en.data = none) : (keyspace now d).Wrong T.collect key := by
  have hk : keyspace now d key = some en.holding := by rw [keyspace, h, Option.map_some]
  rintro t (⟨hn, -⟩ | ⟨exp, hs⟩)
  · rw [hk] at hn
    cases hn
  · rw [hk, Option.some.injEq] at hs
    obtain ⟨c, hc⟩ := T.found_of_holding (congrArg Prod.fst hs)
    rw [hc, T.kind.get?_wrap] at hd
    cases hd

theorem expiry_of_live {en : ValueEntry S} (h : live now d key = some en) :
    (keyspace now d).expiry key = en.expiresAt := by
  rw [Keyspace.expiry, keyspace, h]
  rfl

theorem expiry_of_absent (h : live now d key = none) : (keyspace now d).expiry key = none := by
  rw [Keyspace.expiry, keyspace, h]
  rfl

/-- A container that is written, and dropped if it is empty. -/
theorem keyspace_removeIfEmpty (hx : (⟨T.kind.wrap c, exp⟩ : ValueEntry S).isExpired now = false) :
    keyspace now (removeIfEmpty key (d.insert key ⟨T.kind.wrap c, exp⟩)) =
      (keyspace now d).file T.collect key (T.table c) exp := by
  rw [removeIfEmpty_insert_eq, Keyspace.file]
  by_cases he : T.table c = .empty
  · rw [if_pos ((T.isEmpty_wrap c).mpr he), if_pos he, keyspace_erase]
  · rw [if_neg fun h => he ((T.isEmpty_wrap c).mp h), if_neg he, keyspace_insert hx,
      ValueEntry.holding, T.holding_wrap]

/-- A container that is written is filed, unless it is empty. -/
theorem keyspace_insert_filled
    (hx : (⟨T.kind.wrap c, exp⟩ : ValueEntry S).isExpired now = false)
    (hf : Holds ValueData.Filled (d.insert key ⟨T.kind.wrap c, exp⟩)) :
    keyspace now (d.insert key ⟨T.kind.wrap c, exp⟩) =
      (keyspace now d).file T.collect key (T.table c) exp := by
  have hfilled : (T.kind.wrap c).isEmptyContainer = false :=
    hf key ⟨T.kind.wrap c, exp⟩ (by rw [FinMap.getElem?_insert', if_pos rfl])
  rw [← keyspace_removeIfEmpty hx, removeIfEmpty_insert hfilled]

/-- A reading method answers from the table. -/
theorem query_of_readAs {absent : Except StoreError α} {f : C → Except StoreError α}
    {answer : Table Bytes V → α → Prop} (ha : ∃ a, answer (T.table T.new) a ∧ absent = .ok a)
    (hf : ∀ c exp, live now d key = some ⟨T.kind.wrap c, exp⟩ →
      ∃ a, answer (T.table c) a ∧ f c = .ok a) :
    Keyspace.Query T.collect key answer (keyspace now d)
      (keyspace now (readAs T.kind now key absent (.error .wrongType) f d).1)
      ⟨α, (readAs T.kind now key absent (.error .wrongType) f d).2⟩ := by
  refine ⟨keyspace_purge, _, rfl, ?_⟩
  cases look T.kind now key d with
  | absent h =>
    obtain ⟨a, hans, hok⟩ := ha
    left
    exact ⟨_, a, T.has_of_absent h, hans, by rw [readAs_absent h, hok]⟩
  | wrong en h hd =>
    right
    exact ⟨T.wrong_of_other h hd, by rw [readAs_wrong h hd]⟩
  | found c exp h =>
    obtain ⟨a, hans, hok⟩ := hf c exp h
    left
    exact ⟨_, a, T.has_of_found h, hans, by rw [readAs_found h, hok]⟩

section Update

variable {effect : Table Bytes V → Table Bytes V → Except StoreError α → Prop}
  {f : C → C × Except StoreError α}

/-- A method that puts entries into a container. -/
theorem update_of_upsertAs
    (hn : effect (T.table T.new) (T.table (f T.new).1) (f T.new).2)
    (hf : ∀ c exp, live now d key = some ⟨T.kind.wrap c, exp⟩ →
      effect (T.table c) (T.table (f c).1) (f c).2)
    (hfilled : Holds ValueData.Filled (upsertAs T.kind now key T.new (.error .wrongType) f d).1) :
    Keyspace.Update T.collect key effect (keyspace now d)
      (keyspace now (upsertAs T.kind now key T.new (.error .wrongType) f d).1)
      ⟨α, (upsertAs T.kind now key T.new (.error .wrongType) f d).2⟩ := by
  refine ⟨_, rfl, ?_⟩
  cases look T.kind now key d with
  | absent h =>
    rw [upsertAs_absent h] at hfilled ⊢
    left
    refine ⟨_, _, T.has_of_absent h, hn, ?_⟩
    rw [expiry_of_absent h]
    exact keyspace_insert_filled rfl hfilled
  | wrong en h hd =>
    rw [upsertAs_wrong h hd]
    right
    exact ⟨T.wrong_of_other h hd, keyspace_purge, rfl⟩
  | found c exp h =>
    rw [upsertAs_found h] at hfilled ⊢
    left
    refine ⟨_, _, T.has_of_found h, hf c exp h, ?_⟩
    rw [expiry_of_live h]
    exact keyspace_insert_filled (live_eq_some.mp h).2 hfilled

/-- The same where a container that has stayed empty is dropped. -/
theorem update_of_upsertAs_removeIfEmpty (h₀ : Holds ValueData.Filled d)
    (hn : effect (T.table T.new) (T.table (f T.new).1) (f T.new).2)
    (hf : ∀ c exp, live now d key = some ⟨T.kind.wrap c, exp⟩ →
      effect (T.table c) (T.table (f c).1) (f c).2) :
    Keyspace.Update T.collect key effect (keyspace now d)
      (keyspace now
        (thenRemoveIfEmpty key (upsertAs T.kind now key T.new (.error .wrongType) f d)).1)
      ⟨α, (thenRemoveIfEmpty key (upsertAs T.kind now key T.new (.error .wrongType) f d)).2⟩ := by
  refine ⟨_, rfl, ?_⟩
  unfold thenRemoveIfEmpty
  dsimp only
  cases look T.kind now key d with
  | absent h =>
    rw [upsertAs_absent h]
    left
    refine ⟨_, _, T.has_of_absent h, hn, ?_⟩
    rw [expiry_of_absent h]
    exact keyspace_removeIfEmpty rfl
  | wrong en h hd =>
    rw [upsertAs_wrong h hd]
    right
    refine ⟨T.wrong_of_other h hd, ?_, rfl⟩
    dsimp only
    rw [removeIfEmpty_of_filled (h₀.purge now key), keyspace_purge]
  | found c exp h =>
    rw [upsertAs_found h]
    left
    refine ⟨_, _, T.has_of_found h, hf c exp h, ?_⟩
    rw [expiry_of_live h]
    exact keyspace_removeIfEmpty (live_eq_some.mp h).2

/-- A method that takes entries out of a container, if there is one. -/
theorem update_of_modifyAs_removeIfEmpty {absent : Except StoreError α}
    (h₀ : Holds ValueData.Filled d) (ha : effect .empty .empty absent)
    (hf : ∀ c exp, live now d key = some ⟨T.kind.wrap c, exp⟩ →
      effect (T.table c) (T.table (f c).1) (f c).2) :
    Keyspace.Update T.collect key effect (keyspace now d)
      (keyspace now
        (thenRemoveIfEmpty key (modifyAs T.kind now key absent (.error .wrongType) f d)).1)
      ⟨α, (thenRemoveIfEmpty key (modifyAs T.kind now key absent (.error .wrongType) f d)).2⟩ := by
  refine ⟨_, rfl, ?_⟩
  unfold thenRemoveIfEmpty
  dsimp only
  have hpurged : keyspace now (removeIfEmpty key (purge now key d)) = keyspace now d := by
    rw [removeIfEmpty_of_filled (h₀.purge now key), keyspace_purge]
  cases look T.kind now key d with
  | absent h =>
    rw [modifyAs_absent h]
    left
    refine ⟨.empty, .empty, T.table_new ▸ T.has_of_absent h, ha, ?_⟩
    rw [hpurged, Keyspace.file, if_pos rfl, ← keyspace_erase]
    exact keyspace_congr fun k => by
      rw [live_erase]
      split_ifs with hk
      · rw [← hk, h]
      · rfl
  | wrong en h hd =>
    rw [modifyAs_wrong h hd]
    right
    exact ⟨T.wrong_of_other h hd, hpurged, rfl⟩
  | found c exp h =>
    rw [modifyAs_found h]
    left
    refine ⟨_, _, T.has_of_found h, hf c exp h, ?_⟩
    rw [expiry_of_live h]
    exact keyspace_removeIfEmpty (live_eq_some.mp h).2

end Update

end Rules

end BurnerRedis
