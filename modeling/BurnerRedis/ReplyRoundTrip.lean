import BurnerRedis.Lib.Selection
import BurnerRedis.ScriptReturns
import BurnerRedis.Utf8

/-!
# Replies that come back

A reply that goes into a script as a Lua value and is returned from it becomes the same reply
again, as long as no array in it has `2 ^ 31` elements: the loop that reads a table back counts its
indexes in 32 bits. `Written` says what `into_lua` has done to the tables.
-/

namespace BurnerRedis

open Pipeline (utf8)

/-- Every array of the reply has fewer than `2 ^ 31` elements. -/
inductive RedisValue.Indexable : RedisValue → Prop
  | bulkString (b : Bytes) : Indexable (.bulkString b)
  | integer (n : ℤ) : Indexable (.integer n)
  | nil : Indexable .nil
  | error (msg : String) : Indexable (.error msg)
  | status (s : String) : Indexable (.status s)
  | array (items : List RedisValue) (hlen : items.length < 2 ^ 31)
      (hitems : ∀ v ∈ items, Indexable v) : Indexable (.array items)

theorem RedisValue.indexable_array_iff {items : List RedisValue} :
    (RedisValue.array items).Indexable ↔ items.length < 2 ^ 31 ∧ ∀ v ∈ items, v.Indexable := by
  constructor
  · intro h
    cases h with
    | array _ hlen hitems => exact ⟨hlen, hitems⟩
  · rintro ⟨hlen, hitems⟩
    exact .array items hlen hitems

/-! ## Indexes -/

theorem nextIndex_of_lt {i : ℤ} (h : 1 ≤ i) (hi : i < 2 ^ 31 - 1) : nextIndex i = i + 1 := by
  have hmod : (i + 1) % 4294967296 = i + 1 := Int.emod_eq_of_lt (by omega) (by omega)
  show (i + 1).bmod 4294967296 = i + 1
  rw [Int.bmod_eq_emod_of_lt, Nat.cast_ofNat, hmod]
  rw [Nat.cast_ofNat, hmod]
  omega

/-! ## Tables without metatables -/

namespace LuaHeap

variable {h h' : LuaHeap} {t : ℕ} {i : ℤ} {v : LuaValue} {r : RedisValue} {rs : List RedisValue}
  {vs : List LuaValue}

/-- The value is converted to that reply, on a stack that has the room, and the tables stay. -/
def Converts (h : LuaHeap) (v : LuaValue) (r : RedisValue) : Prop :=
  ∃ room, ComesBack get room h v r h

/-- The table has no string under `err` and none under `ok`. -/
def IsArray (h : LuaHeap) (t : ℕ) : Prop := named get h t = some (none, h)

/-- The elements of a table from an index on are these. -/
def Listed (h : LuaHeap) (t : ℕ) : ℤ → List LuaValue → Prop
  | i, [] => element? get h t i = some (none, h)
  | i, v :: vs => element? get h t i = some (some v, h) ∧ Listed h t (nextIndex i) vs

theorem Listed.unique {vs' : List LuaValue} (hl : h.Listed t i vs) (hl' : h.Listed t i vs') :
    vs = vs' := by
  induction vs generalizing i vs' with
  | nil =>
    cases vs' with
    | nil => rfl
    | cons v' vs' => cases (show element? get h t i = some (none, h) from hl).symm.trans hl'.1
  | cons v vs ih =>
    cases vs' with
    | nil => cases hl.1.symm.trans (show element? get h t i = some (none, h) from hl')
    | cons v' vs' =>
      cases hl.1.symm.trans hl'.1
      rw [ih hl.2 hl'.2]

theorem element?_get (h : LuaHeap) (t : ℕ) (i : ℤ) :
    element? get h t i = some
      (if h.fields t (.index i) = .nil then none else some (h.fields t (.index i)), h) := by
  unfold element? get
  cases h.fields t (.index i) <;> rfl

theorem element?_state {v? : Option LuaValue} (he : element? get h t i = some (v?, h')) : h' = h := by
  rw [element?_get] at he
  cases he
  rfl

theorem named_state {r? : Option RedisValue} (hn : named get h t = some (r?, h')) : h' = h := by
  obtain ⟨err, herr, hn⟩ := Option.bind_eq_some_iff.mp hn
  cases herr
  dsimp only at hn
  split at hn
  · cases hn
    rfl
  · obtain ⟨ok, hok, hn⟩ := Option.map_eq_some_iff.mp hn
    cases hok
    cases hn
    rfl

/-- Reading changes nothing. -/
theorem read_state {x : Reading} (hread : ReadThrough get h x h') : h' = h := by
  induction hread with
  | plain => rfl
  | named hn => exact named_state hn
  | array hn _ ih => rw [ih, named_state hn]
  | last he => exact element?_state he
  | next he _ _ ihv ihr => rw [ihr, ihv, element?_state he]

theorem comesBack_state {room : ℕ} (hr : ComesBack get room h v r h') : h' = h :=
  read_state (unfolds_of_comesBack hr).1

/-- The loop over the elements converts one after the other. -/
theorem listed_of_comesBackFrom {room : ℕ} (hrs : ComesBackFrom get room h t i rs h') :
    h' = h ∧ ∃ vs, h.Listed t i vs ∧ List.Forall₂ h.Converts vs rs := by
  induction rs generalizing i with
  | nil =>
    rcases comesBackFrom_iff.mp hrs with ⟨he, -⟩ | ⟨v, h₁, r, h₂, rs', -, -, -, hcons⟩
    · obtain rfl := element?_state he
      exact ⟨rfl, [], he, .nil⟩
    · cases hcons
  | cons r rs ih =>
    rcases comesBackFrom_iff.mp hrs with ⟨-, hnil⟩ | ⟨v, h₁, r', h₂, rs', he, hr, hrest, hcons⟩
    · cases hnil
    · cases hcons
      obtain rfl := element?_state he
      obtain rfl := comesBack_state hr
      obtain ⟨hsame, vs, hl, hvs⟩ := ih hrest
      exact ⟨hsame, v :: vs, ⟨he, hl⟩, .cons ⟨room, hr⟩ hvs⟩

/-- Room for each of the elements is room for the loop. -/
theorem comesBackFrom_of_listed (hl : h.Listed t i vs) (hvs : List.Forall₂ h.Converts vs rs) :
    ∃ room, ComesBackFrom get room h t i rs h := by
  induction hvs generalizing i with
  | nil => exact ⟨0, comesBackFrom_iff.mpr (.inl ⟨hl, rfl⟩)⟩
  | cons hr _ ih =>
    obtain ⟨room, hr⟩ := hr
    obtain ⟨room', hrs⟩ := ih hl.2
    exact ⟨max room room', comesBackFrom_iff.mpr (.inr ⟨_, h, _, h, _, hl.1,
      hr.mono (le_max_left _ _), hrs.mono (le_max_right _ _), rfl⟩)⟩

/-- An array is converted to the array of what its elements are converted to. -/
theorem converts_array_iff (ht : h.IsArray t) :
    h.Converts (.table t) r ↔
      ∃ vs rs, r = .array rs ∧ h.Listed t 1 vs ∧ List.Forall₂ h.Converts vs rs := by
  constructor
  · rintro ⟨_ | room, hr⟩
    · exact absurd hr not_comesBack_zero
    · rcases comesBack_table_iff.mp hr with hn | ⟨h₁, rs, hn, rfl, hrs⟩
      · cases ht.symm.trans hn
      · cases ht.symm.trans hn
        obtain ⟨-, vs, hl, hvs⟩ := listed_of_comesBackFrom hrs
        exact ⟨vs, rs, rfl, hl, hvs⟩
  · rintro ⟨vs, rs, rfl, hl, hvs⟩
    obtain ⟨room, hrs⟩ := comesBackFrom_of_listed hl hvs
    exact ⟨room + 1, comesBack_table_iff.mpr (.inr ⟨h, rs, ht, rfl, hrs⟩)⟩

/-- The elements of an array with values at the indexes from one on, as the loop meets them. -/
theorem listed_take (hlow : element? get h t (-2 ^ 31) = some (none, h))
    (vs : List LuaValue) (i : ℕ) (h1 : 1 ≤ i) (hi : i < 2 ^ 31)
    (hvs : ∀ j : ℕ, element? get h t (i + j : ℕ) = some (vs[j]?, h)) :
    h.Listed t i (vs.take (2 ^ 31 - i)) := by
  induction vs generalizing i with
  | nil =>
    rw [List.take_nil]
    exact hvs 0
  | cons v vs ih =>
    obtain ⟨k, hk⟩ : ∃ k, 2 ^ 31 - i = k + 1 := ⟨2 ^ 31 - i - 1, by omega⟩
    rw [hk, List.take_succ_cons]
    refine ⟨hvs 0, ?_⟩
    by_cases hlast : i = 2 ^ 31 - 1
    · subst hlast
      obtain rfl : k = 0 := by omega
      rw [List.take_zero]
      exact hlow
    · have hrest := ih (i + 1) (by omega) (by omega) fun j => by
        have hj := hvs (j + 1)
        rwa [List.getElem?_cons_succ, show i + (j + 1) = i + 1 + j by omega] at hj
      rw [nextIndex_of_lt (by omega) (by omega)]
      rwa [show 2 ^ 31 - (i + 1) = k by omega] at hrest

end LuaHeap

/-! ## Tables that hold arrays -/

namespace LuaHeap

variable {h h₁ h' : LuaHeap} {t : ℕ} {vs : List LuaValue} {v : LuaValue}

/-- The table holds these values at the indexes from one on, and nothing else. -/
def Filled (h : LuaHeap) (t : ℕ) (vs : List LuaValue) : Prop :=
  (∀ name, h.fields t (.field name) = .nil) ∧
    ∀ i : ℤ, h.fields t (.index i) = if 1 ≤ i then vs[(i - 1).toNat]?.getD .nil else .nil

theorem fields_set (t' : ℕ) (k : LuaKey) :
    (h.set t k v).fields t' = if t' = t then Function.update (h.fields t) k v else h.fields t' := by
  show Function.update h.fields t _ t' = _
  rw [Function.update_apply]

theorem fields_createTable (t : ℕ) :
    h.createTable.2.fields t = if t = h.next then fun _ => .nil else h.fields t := by
  show Function.update h.fields h.next _ t = _
  rw [Function.update_apply]

theorem filled_createTable (h : LuaHeap) : h.createTable.2.Filled h.createTable.1 [] := by
  have hnew : h.createTable.2.fields h.createTable.1 = fun _ => .nil := by
    rw [fields_createTable]
    exact if_pos rfl
  constructor
  · intro name
    rw [hnew]
  · intro i
    rw [hnew]
    split_ifs <;> rfl

/-- One more value is set behind the others. -/
theorem Filled.set (hf : h.Filled t vs) :
    (h.set t (.index (vs.length + 1 : ℕ)) v).Filled t (vs ++ [v]) := by
  constructor
  · intro name
    rw [fields_set, if_pos rfl, Function.update_of_ne (by intro hk; cases hk)]
    exact hf.1 name
  · intro i
    rw [fields_set, if_pos rfl, Function.update_apply]
    by_cases hi : i = (vs.length + 1 : ℕ)
    · subst hi
      have hpos : ((vs.length + 1 : ℕ) - 1 : ℤ).toNat = vs.length := by omega
      rw [if_pos rfl, if_pos (by omega), hpos, List.getElem?_concat_length]
      rfl
    · rw [if_neg (by rwa [LuaKey.index.injEq]), hf.2 i]
      by_cases h1 : 1 ≤ i
      · rw [if_pos h1, if_pos h1]
        rcases Nat.lt_or_ge (i - 1).toNat vs.length with hlt | hge
        · rw [List.getElem?_append_left hlt]
        · rw [List.getElem?_eq_none hge, List.getElem?_eq_none]
          rw [List.length_append, List.length_singleton]
          omega
      · rw [if_neg h1, if_neg h1]

/-- Two states hold the same in the tables from `lo` up to `hi`. -/
def Agree (lo hi : ℕ) (h h' : LuaHeap) : Prop := ∀ t, lo ≤ t → t < hi → h'.fields t = h.fields t

theorem Filled.of_fields (hf : h.Filled t vs) (heq : h'.fields t = h.fields t) :
    h'.Filled t vs := by
  unfold Filled
  rw [heq]
  exact hf

theorem Filled.isArray (hf : h.Filled t vs) : h.IsArray t := by
  have hfield : ∀ name, stringField get h t name = some (none, h) := by
    intro name
    unfold stringField get
    rw [hf.1 name]
    rfl
  unfold IsArray named
  rw [hfield "err", Option.bind_some]
  dsimp only
  rw [hfield "ok"]
  rfl

theorem Filled.element? (hf : h.Filled t vs) (hne : ∀ v ∈ vs, v ≠ .nil) (j : ℕ) :
    element? get h t (1 + j : ℕ) = some (vs[j]?, h) := by
  have hpos : (1 : ℤ) ≤ (1 + j : ℕ) := by omega
  have hj : (((1 + j : ℕ) : ℤ) - 1).toNat = j := by omega
  rw [element?_get, hf.2, if_pos hpos, hj]
  cases hv : vs[j]? with
  | none => rfl
  | some v =>
    rw [Option.getD_some, if_neg (hne v (List.mem_of_getElem? hv))]

/-- The loop meets the values of the table, the first `2 ^ 31 - 1` of them. -/
theorem Filled.listed (hf : h.Filled t vs) (hne : ∀ v ∈ vs, v ≠ .nil) :
    h.Listed t 1 (vs.take (2 ^ 31 - 1)) := by
  apply listed_take _ vs 1 le_rfl (by decide) (hf.element? hne)
  have hlow : h.fields t (.index (-2 ^ 31)) = .nil := by
    rw [hf.2]
    exact if_neg (by decide)
  rw [element?_get, if_pos hlow]

/-- A table of values that stand for replies stands for the array of these. -/
theorem Filled.converts_iff {items : List RedisValue} (hf : h.Filled t vs)
    (hne : ∀ v ∈ vs, v ≠ .nil)
    (hvs : List.Forall₂ (fun v item => h.Converts v item ↔ item.Indexable) vs items) :
    h.Converts (.table t) (.array items) ↔ (RedisValue.array items).Indexable := by
  have hlen := hvs.length_eq
  rw [converts_array_iff hf.isArray, RedisValue.indexable_array_iff,
    ← forall₂_iff_forall_mem hvs]
  constructor
  · rintro ⟨vs', rs, hrs, hl, hc⟩
    cases hrs
    obtain rfl := hl.unique (hf.listed hne)
    have hshort := hc.length_eq
    rw [List.length_take] at hshort
    rw [List.take_of_length_le (by omega)] at hc
    exact ⟨by omega, hc⟩
  · rintro ⟨hshort, hitems⟩
    have hl := hf.listed hne
    rw [List.take_of_length_le (by omega)] at hl
    exact ⟨vs, items, rfl, hl, hitems⟩

/-! ## What is written -/

/-- A value put into a state stands for a reply there, and in every other state that holds the same
in the tables it was written to. -/
structure Written (h : LuaHeap) (v : LuaValue) (h₁ : LuaHeap) (r : RedisValue) : Prop where
  next_le : h.next ≤ h₁.next
  kept : ∀ t < h.next, h₁.fields t = h.fields t
  ne_nil : v ≠ .nil
  converts : ∀ h', Agree h.next h₁.next h₁ h' → (h'.Converts v r ↔ r.Indexable)

/-- The same of several values; the tables of `X` may have changed in between. -/
structure WrittenAll (X : Set ℕ) (h : LuaHeap) (vs : List LuaValue) (h₁ : LuaHeap)
    (rs : List RedisValue) : Prop where
  next_le : h.next ≤ h₁.next
  kept : ∀ t < h.next, t ∉ X → h₁.fields t = h.fields t
  ne_nil : ∀ v ∈ vs, v ≠ .nil
  converts : ∀ h', Agree h.next h₁.next h₁ h' →
    List.Forall₂ (fun v r => h'.Converts v r ↔ r.Indexable) vs rs

variable {X : Set ℕ} {r : RedisValue} {rs : List RedisValue} {h₂ h₁' : LuaHeap}

theorem WrittenAll.nil (X : Set ℕ) (h : LuaHeap) : WrittenAll X h [] h [] where
  next_le := le_rfl
  kept := fun _ _ _ => rfl
  ne_nil := by
    intro v hv
    cases hv
  converts := fun _ _ => .nil

/-- A value is written, then some older tables change, then the others are written. -/
theorem Written.cons (w : Written h v h₁ r) (hnext : h₁'.next = h₁.next)
    (hsame : ∀ t ∉ X, h₁'.fields t = h₁.fields t) (hX : ∀ t ∈ X, t < h.next)
    (ws : WrittenAll X h₁' vs h₂ rs) : WrittenAll X h (v :: vs) h₂ (r :: rs) where
  next_le := by
    have hle := ws.next_le
    have hle' := w.next_le
    omega
  kept := by
    intro t ht hmem
    have hlt : t < h₁'.next := by
      have hle := w.next_le
      omega
    rw [ws.kept t hlt hmem, hsame t hmem, w.kept t ht]
  ne_nil := by
    intro u hu
    rcases List.mem_cons.mp hu with rfl | hu
    · exact w.ne_nil
    · exact ws.ne_nil u hu
  converts := by
    intro h' ha
    have hle := w.next_le
    have hle' := ws.next_le
    apply List.Forall₂.cons
    · apply w.converts
      intro t hlo hhi
      have hmem : t ∉ X := by
        intro hmem
        have hlt := hX t hmem
        omega
      rw [ha t hlo (by omega), ws.kept t (by omega) hmem, hsame t hmem]
    · apply ws.converts
      intro t hlo hhi
      exact ha t (by omega) hhi

/-- A value that is no table. -/
theorem written_of_converts (hv : v ≠ .nil) (hr : r.Indexable)
    (hc : ∀ h', Converts h' v r) : Written h v h r where
  next_le := le_rfl
  kept := fun _ _ => rfl
  ne_nil := hv
  converts := fun h' _ => iff_of_true (hc h') hr

theorem singleton_field (name name' text : String) :
    (h.singleton name text).2.fields h.next (.field name') =
      if name' = name then .string (utf8 text) else .nil := by
  show (h.createTable.2.set h.next (.field name) (.string (utf8 text))).fields h.next _ = _
  rw [fields_set, if_pos rfl, Function.update_apply, fields_createTable, if_pos rfl]
  simp only [LuaKey.field.injEq]

/-- A table with one field, as long as it stands for a reply. -/
theorem written_singleton {name text : String} (hr : r.Indexable)
    (hc : ∀ h' : LuaHeap,
      (∀ name', h'.fields h.next (.field name') = if name' = name then .string (utf8 text) else .nil) →
      h'.Converts (.table h.next) r) :
    Written h (h.singleton name text).1 (h.singleton name text).2 r where
  next_le := Nat.le_succ _
  kept := by
    intro t ht
    show (h.createTable.2.set h.next (.field name) (.string (utf8 text))).fields t = _
    rw [fields_set, if_neg (by omega), fields_createTable, if_neg (by omega)]
  ne_nil := by
    intro hnil
    cases hnil
  converts := by
    intro h' ha
    apply iff_of_true _ hr
    apply hc
    intro name'
    rw [ha h.next le_rfl (Nat.lt_succ_self _), singleton_field]

theorem stringField_get (h : LuaHeap) (t : ℕ) {name name' text : String}
    (hf : h.fields t (.field name') = if name' = name then .string (utf8 text) else .nil) :
    stringField get h t name' =
      some (if name' = name then some (utf8 text) else none, h) := by
  unfold stringField get
  rw [hf]
  split_ifs <;> rfl

theorem written_error (h : LuaHeap) (msg : String) :
    Written h (h.singleton "err" msg).1 (h.singleton "err" msg).2 (.error msg) := by
  apply written_singleton (.error msg)
  intro h' hf
  refine ⟨1, comesBack_table_iff.mpr (.inl ?_)⟩
  unfold named
  rw [stringField_get h' h.next (hf "err"), if_pos rfl, Option.bind_some]
  dsimp only
  rw [fromUtf8Lossy_utf8]

theorem written_status (h : LuaHeap) (s : String) :
    Written h (h.singleton "ok" s).1 (h.singleton "ok" s).2 (.status s) := by
  apply written_singleton (.status s)
  intro h' hf
  refine ⟨1, comesBack_table_iff.mpr (.inl ?_)⟩
  unfold named
  rw [stringField_get h' h.next (hf "err"), if_neg (by decide), Option.bind_some]
  dsimp only
  rw [stringField_get h' h.next (hf "ok"), if_pos rfl, Option.map_some, Option.map_some,
    fromUtf8Lossy_utf8]

/-- A new table with the values of replies stands for their array. -/
theorem written_table {items : List RedisValue} (hf : h₁.Filled h.next vs)
    (ws : WrittenAll {h.next} h.createTable.2 vs h₁ items) :
    Written h (.table h.next) h₁ (.array items) where
  next_le := by
    have hle : h.next + 1 ≤ h₁.next := ws.next_le
    omega
  kept := by
    intro t ht
    have hlt : t < h.createTable.2.next := Nat.lt_succ_of_lt ht
    have hmem : t ∉ ({h.next} : Set ℕ) := by
      intro hmem
      have heq : t = h.next := hmem
      omega
    rw [ws.kept t hlt hmem, fields_createTable, if_neg (by omega)]
  ne_nil := by
    intro hnil
    cases hnil
  converts := by
    intro h' ha
    have hle : h.next + 1 ≤ h₁.next := ws.next_le
    have hf' : h'.Filled h.next vs := hf.of_fields (ha h.next le_rfl (by omega))
    apply hf'.converts_iff ws.ne_nil
    apply ws.converts
    intro t hlo hhi
    have hlo' : h.next + 1 ≤ t := hlo
    exact ha t (by omega) hhi

mutual

/-- `into_lua` writes a value that stands for the reply. -/
theorem written_intoLua (r : RedisValue) (h : LuaHeap) :
    Written h (r.intoLua h).1 (r.intoLua h).2 r := by
  cases r with
  | bulkString b => exact written_of_converts (by intro hv; cases hv) (.bulkString b) fun _ => ⟨1, 0, rfl⟩
  | integer n => exact written_of_converts (by intro hv; cases hv) (.integer n) fun _ => ⟨1, 0, rfl⟩
  | nil => exact written_of_converts (by intro hv; cases hv) .nil fun _ => ⟨1, 0, rfl⟩
  | error msg => exact written_error h msg
  | status s => exact written_status h s
  | array items =>
    obtain ⟨vs, hf, ws⟩ := written_setItems items h.next [] h.createTable.2 (Nat.lt_succ_self _)
      (filled_createTable h)
    exact written_table hf ws

/-- The loop of `into_lua` over the elements of an array. -/
theorem written_setItems (items : List RedisValue) (t : ℕ) (vs₀ : List LuaValue) (h : LuaHeap)
    (ht : t < h.next) (hf : h.Filled t vs₀) :
    ∃ vs, (RedisValue.setItems t (vs₀.length + 1) items h).Filled t (vs₀ ++ vs) ∧
      WrittenAll {t} h vs (RedisValue.setItems t (vs₀.length + 1) items h) items := by
  cases items with
  | nil => exact ⟨[], by rwa [List.append_nil], .nil {t} h⟩
  | cons item items =>
    have w := written_intoLua item h
    have hfitem : (item.intoLua h).2.Filled t vs₀ := hf.of_fields (w.kept t ht)
    have hlt : t < (item.intoLua h).2.next := ht.trans_le w.next_le
    obtain ⟨vs, hfs, ws⟩ := written_setItems items t (vs₀ ++ [(item.intoLua h).1])
      ((item.intoLua h).2.set t (.index (vs₀.length + 1 : ℕ)) (item.intoLua h).1) hlt hfitem.set
    rw [List.length_append, List.length_singleton] at hfs ws
    refine ⟨(item.intoLua h).1 :: vs, ?_, ?_⟩
    · rw [List.append_assoc, List.singleton_append] at hfs
      exact hfs
    · refine w.cons ?_ ?_ ?_ ws
      · rfl
      · intro t' ht'
        rw [fields_set, if_neg (Set.mem_singleton_iff.not.mp ht')]
      · intro t' ht'
        rw [Set.mem_singleton_iff.mp ht']
        exact ht

end

end LuaHeap

/-! ## What a script hands on -/

namespace Script

open LuaHeap

variable {h h₁ : LuaHeap}

theorem pcall_ok (r : RedisValue) (h : LuaHeap) : pcall (.ok r) h = r.intoLua h := by
  cases r <;> rfl

/-- What `redis.call` returns, `redis.pcall` returns as well. -/
theorem call_eq_pcall {r : Reply} {p : LuaValue × LuaHeap} (hcall : call r h = .ok p) :
    pcall r h = p := by
  cases r with
  | error msg => cases hcall
  | ok r => cases r <;> cases hcall <;> rfl

/-- What `redis.call` or `redis.pcall` returns stands for the reply. -/
theorem written_run {c : Caller} {r : Reply} {v : LuaValue} (hrun : c.run r h = .ok (v, h₁)) :
    Written h v h₁ (replyValue r) := by
  have hpcall : pcall r h = (v, h₁) := by
    cases c with
    | call => exact call_eq_pcall hrun
    | pcall => exact Except.ok.inj hrun
  cases r with
  | error msg =>
    cases hpcall
    exact written_error h msg
  | ok r =>
    have hw := written_intoLua r h
    rw [pcall_ok] at hpcall
    rw [hpcall] at hw
    exact hw

theorem written_runAll {cs : List (Caller × Reply)} {vs : List LuaValue}
    (hrun : runAll cs h = .ok (vs, h₁)) :
    WrittenAll ∅ h vs h₁ (cs.map fun c => replyValue c.2) := by
  induction cs generalizing h vs with
  | nil =>
    cases hrun
    exact .nil ∅ _
  | cons c cs ih =>
    obtain ⟨c, r⟩ := c
    cases hv : c.run r h with
    | error msg =>
      rw [runAll, hv] at hrun
      cases hrun
    | ok p =>
      obtain ⟨v, h₂⟩ := p
      cases hvs : runAll cs h₂ with
      | error msg =>
        rw [runAll, hv] at hrun
        dsimp only [bind, Except.bind] at hrun
        rw [hvs] at hrun
        cases hrun
      | ok q =>
        obtain ⟨vs', h₃⟩ := q
        rw [runAll, hv] at hrun
        dsimp only [bind, Except.bind] at hrun
        rw [hvs] at hrun
        cases hrun
        exact (written_run hv).cons rfl (fun _ _ => rfl) (fun _ hX => hX.elim) (ih hvs)

/-- The values of a table constructor, set from an index on. -/
theorem filled_setValues (vs vs₀ : List LuaValue) (t : ℕ) (h : LuaHeap) (hf : h.Filled t vs₀) :
    (setValues t (vs₀.length + 1) vs h).Filled t (vs₀ ++ vs) ∧
      (setValues t (vs₀.length + 1) vs h).next = h.next ∧
      ∀ t' ≠ t, (setValues t (vs₀.length + 1) vs h).fields t' = h.fields t' := by
  induction vs generalizing vs₀ h with
  | nil => exact ⟨by rwa [List.append_nil], rfl, fun _ _ => rfl⟩
  | cons v vs ih =>
    obtain ⟨hfs, hnext, hsame⟩ :=
      ih (vs₀ ++ [v]) (h.set t (.index (vs₀.length + 1 : ℕ)) v) hf.set
    rw [List.length_append, List.length_singleton] at hfs hnext hsame
    rw [List.append_assoc, List.singleton_append] at hfs
    refine ⟨hfs, hnext, ?_⟩
    intro t' ht'
    rw [setValues, hsame t' ht', fields_set, if_neg ht']

/-- A table constructor of the values of replies stands for their array. -/
theorem converts_tableOf {vs : List LuaValue} {rs : List RedisValue}
    (ws : WrittenAll ∅ h vs h₁ rs) :
    (tableOf vs h₁).2.Converts (tableOf vs h₁).1 (.array rs) ↔
      (RedisValue.array rs).Indexable := by
  obtain ⟨hf, -, hsame⟩ := filled_setValues vs [] h₁.next h₁.createTable.2 (filled_createTable h₁)
  apply Filled.converts_iff hf ws.ne_nil
  apply ws.converts
  intro t _ ht
  show (setValues h₁.next 1 vs h₁.createTable.2).fields t = _
  have hother := hsame t (by omega)
  rw [List.length_nil, Nat.zero_add] at hother
  rw [hother, fields_createTable, if_neg (by omega)]

end Script

open Script in
/-- A reply comes back from a script as it was, alone, through `redis.call` or `redis.pcall` or in
a table of several, exactly when its arrays are shorter than `2 ^ 31`. -/
theorem replies_come_back (h : LuaHeap) :
    (∀ r : RedisValue, (r.intoLua h).2.Converts (r.intoLua h).1 r ↔ r.Indexable) ∧
    (∀ (c : Caller) (r : Reply) (h₁ : LuaHeap) (v : LuaValue), c.run r h = .ok (v, h₁) →
      (h₁.Converts v (replyValue r) ↔ (replyValue r).Indexable)) ∧
    ∀ (cs : List (Caller × Reply)) (h₁ : LuaHeap) (vs : List LuaValue),
      runAll cs h = .ok (vs, h₁) →
      ((tableOf vs h₁).2.Converts (tableOf vs h₁).1 (.array (cs.map fun c => replyValue c.2)) ↔
        cs.length < 2 ^ 31 ∧ ∀ c ∈ cs, (replyValue c.2).Indexable) := by
  refine ⟨?_, ?_, ?_⟩
  · intro r
    exact (LuaHeap.written_intoLua r h).converts _ fun _ _ _ => rfl
  · intro c r h₁ v hrun
    exact (written_run hrun).converts _ fun _ _ _ => rfl
  · intro cs h₁ vs hrun
    rw [converts_tableOf (written_runAll hrun), RedisValue.indexable_array_iff, List.length_map,
      List.forall_mem_map]

/-- An array of `2 ^ 31` nils does not come back. -/
theorem long_array_cut :
    ¬ ((RedisValue.array (List.replicate (2 ^ 31) .nil)).intoLua .new).2.Converts
      ((RedisValue.array (List.replicate (2 ^ 31) .nil)).intoLua .new).1
      (.array (List.replicate (2 ^ 31) .nil)) := by
  rw [(LuaHeap.written_intoLua _ .new).converts _ fun _ _ _ => rfl,
    RedisValue.indexable_array_iff, List.length_replicate]
  rintro ⟨hlen, -⟩
  exact lt_irrefl _ hlen

end BurnerRedis
