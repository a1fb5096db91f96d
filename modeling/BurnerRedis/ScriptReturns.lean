import BurnerRedis.Script.Conversion

/-!
# What a script returns

`lua_to_redis_value` on a table goes through its elements and calls itself on each. `ComesBack` says
that it comes back on a stack that has room for a number of nested calls, and `comesBack_table_iff`
what it then has found. It comes back exactly where what the value contains unfolds to a finite tree
that is not deeper than that (`Unfolds`).
-/

open Relation (ReflTransGen)

namespace BurnerRedis

variable {σ : Type} {get : LuaGet σ} {room : ℕ} {s s' s₁ : σ} {t : ℕ} {i : ℤ} {v : LuaValue}
  {r : RedisValue} {rs : List RedisValue}

/-- The conversion of a value comes back with that reply, and leaves that state. -/
def ComesBack (get : LuaGet σ) (room : ℕ) (s : σ) (v : LuaValue) (r : RedisValue) (s' : σ) : Prop :=
  ∃ fuel, luaToRedisValue get fuel room s v = some (r, s')

/-- The loop over the elements from an index on comes back with those replies. -/
def ComesBackFrom (get : LuaGet σ) (room : ℕ) (s : σ) (t : ℕ) (i : ℤ) (rs : List RedisValue)
    (s' : σ) : Prop :=
  ∃ fuel, luaArray get (luaToRedisValue get fuel room) fuel s t i = some (rs, s')

/-! ## Fuel and room -/

theorem luaArray_mono {convert convert' : σ → LuaValue → Option (RedisValue × σ)}
    (hc : ∀ s v a, convert s v = some a → convert' s v = some a) {fuel fuel' : ℕ}
    (hle : fuel ≤ fuel') {a : List RedisValue × σ}
    (h : luaArray get convert fuel s t i = some a) : luaArray get convert' fuel' s t i = some a := by
  induction fuel generalizing fuel' s i a with
  | zero => cases h
  | succ fuel ih =>
    obtain ⟨fuel', rfl⟩ : ∃ k, fuel' = k + 1 := ⟨fuel' - 1, by omega⟩
    rw [luaArray] at h ⊢
    obtain ⟨⟨v?, s₁⟩, he, h⟩ := Option.bind_eq_some_iff.mp h
    rw [he, Option.bind_some]
    cases v? with
    | none => exact h
    | some v =>
      obtain ⟨⟨r, s₂⟩, hr, h⟩ := Option.bind_eq_some_iff.mp h
      obtain ⟨b, hrs, ha⟩ := Option.map_eq_some_iff.mp h
      dsimp only
      rw [hc _ _ _ hr, Option.bind_some, ih (by omega) hrs, ← ha]
      rfl

theorem luaToRedisValue_table (fuel : ℕ) :
    luaToRedisValue get fuel (room + 1) s (.table t) = (named get s t).bind fun a => match a.1 with
      | some r => some (r, a.2)
      | none => (luaArray get (luaToRedisValue get fuel room) fuel a.2 t 1).map fun rs =>
        (.array rs.1, rs.2) := rfl

/-- A value that is no table is converted at once. -/
theorem luaToRedisValue_of_not_table (get : LuaGet σ) (hv : ∀ t, v ≠ .table t) :
    ∃ r, ∀ (fuel room : ℕ) (s : σ), luaToRedisValue get fuel (room + 1) s v = some (r, s) := by
  cases v with
  | table t => exact absurd rfl (hv t)
  | boolean b => cases b <;> exact ⟨_, fun _ _ _ => rfl⟩
  | _ => exact ⟨_, fun _ _ _ => rfl⟩

/-- More fuel and more room change no result. -/
theorem luaToRedisValue_mono {fuel fuel' room' : ℕ} (hf : fuel ≤ fuel') (hr : room ≤ room')
    {a : RedisValue × σ} (h : luaToRedisValue get fuel room s v = some a) :
    luaToRedisValue get fuel' room' s v = some a := by
  induction room generalizing room' s v a with
  | zero => cases h
  | succ room ih =>
    obtain ⟨room', rfl⟩ : ∃ k, room' = k + 1 := ⟨room' - 1, by omega⟩
    by_cases hv : ∃ t, v = .table t
    · obtain ⟨t, rfl⟩ := hv
      rw [luaToRedisValue_table] at h ⊢
      obtain ⟨⟨r?, s₁⟩, hn, h⟩ := Option.bind_eq_some_iff.mp h
      rw [hn, Option.bind_some]
      cases r? with
      | some r => exact h
      | none =>
        obtain ⟨b, hrs, ha⟩ := Option.map_eq_some_iff.mp h
        dsimp only
        rw [luaArray_mono (fun s v a => ih (by omega)) hf hrs, ← ha]
        rfl
    · obtain ⟨r, hleaf⟩ := luaToRedisValue_of_not_table get fun t ht => hv ⟨t, ht⟩
      rw [hleaf] at h ⊢
      exact h

theorem ComesBack.mono {room' : ℕ} (hr : room ≤ room') (h : ComesBack get room s v r s') :
    ComesBack get room' s v r s' := by
  obtain ⟨fuel, h⟩ := h
  exact ⟨fuel, luaToRedisValue_mono le_rfl hr h⟩

theorem ComesBackFrom.mono {room' : ℕ} (hr : room ≤ room')
    (h : ComesBackFrom get room s t i rs s') : ComesBackFrom get room' s t i rs s' := by
  obtain ⟨fuel, h⟩ := h
  exact ⟨fuel, luaArray_mono (fun _ _ _ => luaToRedisValue_mono le_rfl hr) le_rfl h⟩

/-! ## Tables -/

theorem not_comesBack_zero : ¬ ComesBack get 0 s v r s' := by
  rintro ⟨fuel, h⟩
  cases h

/-- A table is converted to what a string under `err` or `ok` says, or else to the array of its
elements. -/
theorem comesBack_table_iff :
    ComesBack get (room + 1) s (.table t) r s' ↔
      named get s t = some (some r, s') ∨
        ∃ s₁ rs, named get s t = some (none, s₁) ∧ r = .array rs ∧
          ComesBackFrom get room s₁ t 1 rs s' := by
  constructor
  · rintro ⟨fuel, h⟩
    rw [luaToRedisValue_table] at h
    obtain ⟨⟨r?, s₁⟩, hn, h⟩ := Option.bind_eq_some_iff.mp h
    cases r? with
    | some r₀ =>
      cases h
      exact .inl hn
    | none =>
      obtain ⟨b, hrs, ha⟩ := Option.map_eq_some_iff.mp h
      cases ha
      exact .inr ⟨s₁, b.1, hn, rfl, fuel, hrs⟩
  · rintro (hn | ⟨s₁, rs, hn, rfl, fuel, hrs⟩)
    · refine ⟨0, ?_⟩
      rw [luaToRedisValue_table, hn]
      rfl
    · refine ⟨fuel, ?_⟩
      rw [luaToRedisValue_table, hn, Option.bind_some]
      dsimp only
      rw [hrs]
      rfl

/-- The loop ends at a missing element; it converts one that is there and goes on. -/
theorem comesBackFrom_iff :
    ComesBackFrom get room s t i rs s' ↔
      element? get s t i = some (none, s') ∧ rs = [] ∨
        ∃ v s₁ r s₂ rs', element? get s t i = some (some v, s₁) ∧ ComesBack get room s₁ v r s₂ ∧
          ComesBackFrom get room s₂ t (nextIndex i) rs' s' ∧ rs = r :: rs' := by
  constructor
  · rintro ⟨fuel, h⟩
    cases fuel with
    | zero => cases h
    | succ fuel =>
      rw [luaArray] at h
      obtain ⟨⟨v?, s₁⟩, he, h⟩ := Option.bind_eq_some_iff.mp h
      cases v? with
      | none =>
        cases h
        exact .inl ⟨he, rfl⟩
      | some v =>
        obtain ⟨⟨r, s₂⟩, hr, h⟩ := Option.bind_eq_some_iff.mp h
        obtain ⟨b, hrs, ha⟩ := Option.map_eq_some_iff.mp h
        cases ha
        have hrest : ComesBackFrom get room s₂ t (nextIndex i) b.1 b.2 :=
          ⟨fuel + 1, luaArray_mono (fun _ _ _ => id) (Nat.le_succ _) hrs⟩
        exact .inr ⟨v, s₁, r, s₂, b.1, he, ⟨_, hr⟩, hrest, rfl⟩
  · rintro (⟨he, rfl⟩ | ⟨v, s₁, r, s₂, rs', he, ⟨n, hr⟩, ⟨m, hrs⟩, rfl⟩)
    · refine ⟨1, ?_⟩
      rw [luaArray, he]
      rfl
    · have hr' : luaToRedisValue get (max n m + 1) room s₁ v = some (r, s₂) :=
        luaToRedisValue_mono (by omega) le_rfl hr
      have hrs' : luaArray get (luaToRedisValue get (max n m + 1) room) (max n m) s₂ t
          (nextIndex i) = some (rs', s') :=
        luaArray_mono (fun _ _ _ => luaToRedisValue_mono (by omega) le_rfl) (by omega) hrs
      refine ⟨max n m + 1, ?_⟩
      rw [luaArray, he, Option.bind_some]
      dsimp only
      rw [hr', Option.bind_some, hrs']
      rfl

/-! ## What a value contains -/

/-- What there is to read: a value, or the elements of a table from an index on. -/
inductive Reading where
  | value (v : LuaValue)
  | elements (t : ℕ) (i : ℤ)

/-- To read all of it takes one state to the other. -/
inductive ReadThrough (get : LuaGet σ) : σ → Reading → σ → Prop
  | plain (s : σ) {v : LuaValue} (hv : ∀ t, v ≠ .table t) : ReadThrough get s (.value v) s
  | named {s s' : σ} {t : ℕ} {r : RedisValue} (hn : named get s t = some (some r, s')) :
      ReadThrough get s (.value (.table t)) s'
  | array {s s₁ s' : σ} {t : ℕ} (hn : BurnerRedis.named get s t = some (none, s₁))
      (hr : ReadThrough get s₁ (.elements t 1) s') : ReadThrough get s (.value (.table t)) s'
  | last {s s' : σ} {t : ℕ} {i : ℤ} (he : element? get s t i = some (none, s')) :
      ReadThrough get s (.elements t i) s'
  | next {s s₁ s₂ s' : σ} {t : ℕ} {i : ℤ} {v : LuaValue}
      (he : element? get s t i = some (some v, s₁)) (hv : ReadThrough get s₁ (.value v) s₂)
      (hr : ReadThrough get s₂ (.elements t (nextIndex i)) s') : ReadThrough get s (.elements t i) s'

theorem ReadThrough.unique {x : Reading} (h : ReadThrough get s x s')
    (h' : ReadThrough get s x s₁) : s' = s₁ := by
  induction h generalizing s₁ with
  | plain s hv =>
    cases h' with
    | plain => rfl
    | named => exact absurd rfl (hv _)
    | array => exact absurd rfl (hv _)
  | named hn =>
    cases h' with
    | plain _ hv => exact absurd rfl (hv _)
    | named hn' =>
      rw [hn] at hn'
      cases hn'
      rfl
    | array hn' =>
      rw [hn] at hn'
      cases hn'
  | array hn _ ih =>
    cases h' with
    | plain _ hv => exact absurd rfl (hv _)
    | named hn' =>
      rw [hn] at hn'
      cases hn'
    | array hn' hr =>
      rw [hn] at hn'
      cases hn'
      exact ih hr
  | last he =>
    cases h' with
    | last he' =>
      rw [he] at he'
      cases he'
      rfl
    | next he' =>
      rw [he] at he'
      cases he'
  | next he _ _ ihv ihr =>
    cases h' with
    | last he' =>
      rw [he] at he'
      cases he'
    | next he' hv hr =>
      rw [he] at he'
      cases he'
      obtain rfl := ihv hv
      exact ihr hr

/-- An element of the table is there and is read: from a state and an index to the next. -/
def Passes (get : LuaGet σ) (t : ℕ) (p q : σ × ℤ) : Prop :=
  ∃ v s₁, element? get p.1 t p.2 = some (some v, s₁) ∧ ReadThrough get s₁ (.value v) q.1 ∧
    q.2 = nextIndex p.2

theorem Passes.unique {p q q' : σ × ℤ} (h : Passes get t p q) (h' : Passes get t p q') : q = q' := by
  obtain ⟨v, s₁, he, hv, hi⟩ := h
  obtain ⟨v', s₁', he', hv', hi'⟩ := h'
  rw [he] at he'
  cases he'
  exact Prod.ext (hv.unique hv') (hi.trans hi'.symm)

/-- A value contains another: it is a table whose elements are read, and the other is one of them.
Each value comes with the state in which it is read. -/
def Contains (get : LuaGet σ) (p q : σ × LuaValue) : Prop :=
  ∃ t s₁ at_, p.2 = .table t ∧ named get p.1 t = some (none, s₁) ∧
    ReflTransGen (Passes get t) (s₁, 1) at_ ∧ element? get at_.1 t at_.2 = some (some q.2, q.1)

/-- Every question about a table is answered, and its elements come to an end. -/
structure Ends (get : LuaGet σ) (s : σ) (t : ℕ) : Prop where
  named : ∃ a, named get s t = some a
  answered : ∀ s₁ at_, BurnerRedis.named get s t = some (none, s₁) →
    ReflTransGen (Passes get t) (s₁, 1) at_ → ∃ a, element? get at_.1 t at_.2 = some a
  finite : ∀ s₁, BurnerRedis.named get s t = some (none, s₁) → ∀ path : ℕ → σ × ℤ,
    path 0 = (s₁, 1) → ¬ ∀ n, Passes get t (path n) (path (n + 1))

/-- The value unfolds to a finite tree of at most that depth: what it contains, at any depth, ends,
and no way down from it, each value an element of the one before, has more than `room` values. -/
structure Unfolds (get : LuaGet σ) (room : ℕ) (s : σ) (v : LuaValue) : Prop where
  ends : ∀ q t, ReflTransGen (Contains get) (s, v) q → q.2 = .table t → Ends get q.1 t
  shallow : ∀ (path : ℕ → σ × LuaValue) (n : ℕ), path 0 = (s, v) →
    (∀ k < n, Contains get (path k) (path (k + 1))) → n < room

/-- What an unfolding value contains unfolds, a level further down. -/
theorem Unfolds.of_contains {q : σ × LuaValue} (h : Unfolds get (room + 1) s v)
    (hc : Contains get (s, v) q) : Unfolds get room q.1 q.2 where
  ends q' t hq' ht := h.ends q' t (.head hc hq') ht
  shallow path n h0 hpath := by
    have hlong := h.shallow (fun k => Nat.casesOn k (s, v) path) (n + 1) rfl fun k hk => by
      cases k with
      | zero =>
        show Contains get (s, v) (path 0)
        rw [h0]
        exact hc
      | succ k => exact hpath k (by omega)
    omega

/-- And the other way round. -/
theorem unfolds_of_contained (hends : ∀ t, v = .table t → Ends get s t)
    (h : ∀ q, Contains get (s, v) q → Unfolds get room q.1 q.2) : Unfolds get (room + 1) s v where
  ends q t hq ht := by
    rcases ReflTransGen.cases_head hq with rfl | ⟨q', hc, hq⟩
    · exact hends t ht
    · exact (h q' hc).ends q t hq ht
  shallow path n h0 hpath := by
    cases n with
    | zero => exact Nat.succ_pos room
    | succ n =>
      have hc : Contains get (s, v) (path 1) := h0 ▸ hpath 0 (Nat.succ_pos n)
      have hshort := (h _ hc).shallow (fun k => path (k + 1)) n rfl fun k hk =>
        hpath (k + 1) (by omega)
      omega

/-! ## Coming back -/

/-- A value that is no table contains nothing. -/
theorem not_contains (hv : ∀ t, v ≠ .table t) (q : σ × LuaValue) : ¬ Contains get (s, v) q := by
  rintro ⟨t, s₁, at_, ht, -⟩
  exact hv t ht

/-- The elements of a table are converted one after the other, if each can be and they end. -/
theorem comesBackFrom_of_acc {p : σ × ℤ} (hacc : Acc (fun q p => Passes get t p q) p)
    (hanswered : ∀ q, ReflTransGen (Passes get t) p q → ∃ a, element? get q.1 t q.2 = some a)
    (helems : ∀ q v s₁, ReflTransGen (Passes get t) p q → element? get q.1 t q.2 = some (some v, s₁) →
      ∃ r s', ComesBack get room s₁ v r s' ∧ ReadThrough get s₁ (.value v) s') :
    ∃ rs s', ComesBackFrom get room p.1 t p.2 rs s' ∧ ReadThrough get p.1 (.elements t p.2) s' := by
  induction hacc with
  | intro p _ ih =>
    obtain ⟨⟨v?, s₁⟩, he⟩ := hanswered p .refl
    cases v? with
    | none => exact ⟨[], s₁, comesBackFrom_iff.mpr (.inl ⟨he, rfl⟩), .last he⟩
    | some v =>
      obtain ⟨r, s₂, hr, hread⟩ := helems p v s₁ .refl he
      have hpass : Passes get t p (s₂, nextIndex p.2) := ⟨v, s₁, he, hread, rfl⟩
      obtain ⟨rs, s', hrs, hrest⟩ := ih (s₂, nextIndex p.2) hpass
        (fun q hq => hanswered q (.head hpass hq)) fun q v s₁ hq => helems q v s₁ (.head hpass hq)
      exact ⟨r :: rs, s', comesBackFrom_iff.mpr (.inr ⟨v, s₁, r, s₂, rs, he, hr, hrs, rfl⟩),
        .next he hread hrest⟩

/-- An unfolding value is converted. -/
theorem comesBack_of_unfolds (h : Unfolds get room s v) :
    ∃ r s', ComesBack get room s v r s' ∧ ReadThrough get s (.value v) s' := by
  induction room generalizing s v with
  | zero => exact absurd (h.shallow (fun _ => (s, v)) 0 rfl nofun) (lt_irrefl 0)
  | succ room ih =>
    by_cases hv : ∃ t, v = .table t
    · obtain ⟨t, rfl⟩ := hv
      have hends := h.ends (s, .table t) t .refl rfl
      obtain ⟨⟨r?, s₁⟩, hn⟩ := hends.named
      cases r? with
      | some r => exact ⟨r, s₁, comesBack_table_iff.mpr (.inl hn), .named hn⟩
      | none =>
        have hacc : Acc (fun q p => Passes get t p q) (s₁, 1) := by
          by_contra hnot
          obtain ⟨path, h0, hpath⟩ := not_acc_iff_exists_descending_chain.mp hnot
          exact hends.finite s₁ hn path h0 hpath
        obtain ⟨rs, s', hrs, hread⟩ := comesBackFrom_of_acc hacc
          (fun q hq => hends.answered s₁ q hn hq) fun q v' s₂ hq he =>
            ih (h.of_contains (q := (s₂, v')) ⟨t, s₁, q, rfl, hn, hq, he⟩)
        exact ⟨.array rs, s', comesBack_table_iff.mpr (.inr ⟨s₁, rs, hn, rfl, hrs⟩),
          .array hn hread⟩
    · have hplain : ∀ t, v ≠ .table t := fun t ht => hv ⟨t, ht⟩
      obtain ⟨r, hr⟩ := luaToRedisValue_of_not_table get hplain
      exact ⟨r, s, ⟨0, hr 0 room s⟩, .plain s hplain⟩

/-- Elements that are converted are answered for, come to an end and have all been converted. -/
theorem elements_of_comesBackFrom
    (ih : ∀ s v r s', ComesBack get room s v r s' → ReadThrough get s (.value v) s' ∧ Unfolds get room s v)
    (h : ComesBackFrom get room s t i rs s') :
    ReadThrough get s (.elements t i) s' ∧ Acc (fun q p => Passes get t p q) (s, i) ∧
      ∀ q, ReflTransGen (Passes get t) (s, i) q → (∃ a, element? get q.1 t q.2 = some a) ∧
        ∀ v s₁, element? get q.1 t q.2 = some (some v, s₁) → Unfolds get room s₁ v := by
  induction rs generalizing s i with
  | nil =>
    rcases comesBackFrom_iff.mp h with ⟨he, -⟩ | ⟨v, s₁, r, s₂, rs', -, -, -, hrs⟩
    · have hstop : ∀ q, ¬ Passes get t (s, i) q := by
        rintro q ⟨v, s₁, he', -⟩
        rw [he] at he'
        cases he'
      refine ⟨.last he, ⟨_, fun q hq => absurd hq (hstop q)⟩, fun q hq => ?_⟩
      rcases ReflTransGen.cases_head hq with rfl | ⟨q', hpass, -⟩
      · refine ⟨⟨_, he⟩, fun v s₁ he' => ?_⟩
        rw [he] at he'
        cases he'
      · exact absurd hpass (hstop q')
    · cases hrs
  | cons r rs ihrs =>
    rcases comesBackFrom_iff.mp h with ⟨-, hrs⟩ | ⟨v, s₁, r, s₂, rs', he, hr, hrest, hrs⟩
    · cases hrs
    · cases hrs
      obtain ⟨hread, hunfolds⟩ := ih _ _ _ _ hr
      obtain ⟨hreads, hacc, hall⟩ := ihrs hrest
      have hpass : Passes get t (s, i) (s₂, nextIndex i) := ⟨v, s₁, he, hread, rfl⟩
      refine ⟨.next he hread hreads, ⟨_, fun q hq => hq.unique hpass ▸ hacc⟩, fun q hq => ?_⟩
      rcases ReflTransGen.cases_head hq with rfl | ⟨q', hpass', hq⟩
      · refine ⟨⟨_, he⟩, fun v' s₁' he' => ?_⟩
        rw [he] at he'
        cases he'
        exact hunfolds
      · rw [hpass'.unique hpass] at hq
        exact hall q hq

/-- A value that is converted unfolds. -/
theorem unfolds_of_comesBack (h : ComesBack get room s v r s') :
    ReadThrough get s (.value v) s' ∧ Unfolds get room s v := by
  induction room generalizing s v r s' with
  | zero => exact absurd h not_comesBack_zero
  | succ room ih =>
    by_cases hv : ∃ t, v = .table t
    · obtain ⟨t, rfl⟩ := hv
      rcases comesBack_table_iff.mp h with hn | ⟨s₁, rs, hn, -, hrs⟩
      · refine ⟨.named hn, unfolds_of_contained (fun t' ht => ?_) ?_⟩
        · cases ht
          refine ⟨⟨_, hn⟩, fun s₁ at_ hn' => ?_, fun s₁ hn' => ?_⟩ <;>
            · rw [hn] at hn'
              cases hn'
        · rintro q ⟨t', s₁, at_, ht, hn', -⟩
          cases ht
          rw [hn] at hn'
          cases hn'
      · obtain ⟨hread, hacc, hall⟩ := elements_of_comesBackFrom (fun _ _ _ _ => ih) hrs
        refine ⟨.array hn hread, unfolds_of_contained (fun t' ht => ?_) ?_⟩
        · cases ht
          refine ⟨⟨_, hn⟩, fun s₂ at_ hn' hat => ?_, fun s₂ hn' path h0 hpath => ?_⟩
          · rw [hn] at hn'
            cases hn'
            exact (hall at_ hat).1
          · rw [hn] at hn'
            cases hn'
            exact not_acc_iff_exists_descending_chain.mpr ⟨path, h0, hpath⟩ hacc
        · rintro q ⟨t', s₂, at_, ht, hn', hat, he⟩
          cases ht
          rw [hn] at hn'
          cases hn'
          exact (hall at_ hat).2 q.2 q.1 he
    · have hplain : ∀ t, v ≠ .table t := fun t ht => hv ⟨t, ht⟩
      obtain ⟨r', hr⟩ := luaToRedisValue_of_not_table get hplain
      obtain ⟨fuel, hfuel⟩ := h
      rw [hr] at hfuel
      cases hfuel
      exact ⟨.plain s hplain, unfolds_of_contained (fun t ht => absurd ht (hplain t)) fun q hq =>
        absurd hq (not_contains hplain q)⟩

/-- On a stack with room for a number of nested calls, the conversion of a value comes back exactly
when the value unfolds to a finite tree that is not deeper. -/
theorem comes_back_iff_unfolds (get : LuaGet σ) (room : ℕ) (s : σ) (v : LuaValue) :
    (∃ r s', ComesBack get room s v r s') ↔ Unfolds get room s v := by
  constructor
  · rintro ⟨r, s', h⟩
    exact (unfolds_of_comesBack h).2
  · intro h
    obtain ⟨r, s', hr, -⟩ := comesBack_of_unfolds h
    exact ⟨r, s', hr⟩

/-! ## A table that contains itself -/

/-- `local t = {}; t[1] = t` -/
def selfTable : LuaHeap := LuaHeap.new.createTable.2.set 0 (.index 1) (.table 0)

theorem contains_selfTable :
    Contains LuaHeap.get (selfTable, .table 0) (selfTable, .table 0) :=
  ⟨0, selfTable, (selfTable, 1), rfl, rfl, .refl, rfl⟩

/-- No stack has the room to convert it. -/
theorem selfTable_diverges :
    ¬ ∃ room r s', ComesBack LuaHeap.get room selfTable (.table 0) r s' := by
  rintro ⟨room, hback⟩
  have hunfolds := (comes_back_iff_unfolds _ room selfTable (.table 0)).mp hback
  have hless := hunfolds.shallow (fun _ => (selfTable, .table 0)) room rfl
    fun _ _ => contains_selfTable
  exact lt_irrefl room hless

end BurnerRedis
