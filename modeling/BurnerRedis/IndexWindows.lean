import BurnerRedis.Lib.Positions
import BurnerRedis.LiveValues
import BurnerRedis.Script.Keys
import BurnerRedis.Script.Lists
import BurnerRedis.SortedIndexes

/-!
# Windows of indexes

The commands that take a start and a stop index all select the same positions, those of
`InWindow`, though `normalizeRangeIndices` and the computation in ZRANGE clamp in different ways.
None of the computations overflows 64 bits.
-/

namespace BurnerRedis

/-! ## The window -/

/-- The position that an index stands for; a negative one counts from the end. -/
def normIndex (n : ℕ) (i : ℤ) : ℤ := if 0 ≤ i then i else n + i

/-- The positions selected by a start and a stop index. -/
def InWindow (n : ℕ) (start stop : ℤ) (p : ℕ) : Prop :=
  max 0 (normIndex n start) ≤ p ∧ (p : ℤ) ≤ min ((n : ℤ) - 1) (normIndex n stop)

instance (n : ℕ) (start stop : ℤ) : DecidablePred (InWindow n start stop) :=
  fun _ => inferInstanceAs (Decidable (_ ∧ _))

/-- The elements of a list between a start and a stop index. -/
def window {α : Type} (start stop : ℤ) (l : List α) : List α :=
  l.selectIdx (InWindow l.length start stop)

/-- Positions that are those of an interval. -/
theorem window_eq_of_interval {α : Type} {start stop : ℤ} {l : List α} {s k : ℕ}
    (h : ∀ p < l.length, InWindow l.length start stop p ↔ s ≤ p ∧ p < s + k) :
    window start stop l = (l.drop s).take k := by
  rw [window, List.selectIdx_congr h, List.selectIdx_interval, Nat.add_sub_cancel_left]

/-- No position is selected where there is no element. -/
theorem window_eq_nil {α : Type} {start stop : ℤ} {l : List α}
    (h : ∀ p < l.length, ¬ InWindow l.length start stop p) : window start stop l = [] :=
  List.selectIdx_none h

/-! ## The two computations -/

theorem normalizeRangeIndices_none {start stop : ℤ} {n : ℕ}
    (h : normalizeRangeIndices start stop n = none) : ∀ p < n, ¬ InWindow n start stop p := by
  unfold normalizeRangeIndices at h
  unfold InWindow normIndex
  intro p hp
  dsimp only at h
  split_ifs at h ⊢ <;> omega

theorem normalizeRangeIndices_some {start stop : ℤ} {n s t : ℕ}
    (h : normalizeRangeIndices start stop n = some (s, t)) :
    s ≤ t ∧ t < n ∧ ∀ p < n, InWindow n start stop p ↔ s ≤ p ∧ p < s + (t - s + 1) := by
  unfold normalizeRangeIndices at h
  unfold InWindow normIndex
  dsimp only at h
  split_ifs at h <;> simp only [Option.some.injEq, Prod.mk.injEq] at h
  all_goals
    obtain ⟨rfl, rfl⟩ := h
    refine ⟨by omega, by omega, ?_⟩
    intro p hp
    split_ifs <;> omega

theorem zrangeWindow_none {start stop : ℤ} {n : ℕ}
    (h : Store.zrangeWindow start stop n = none) : ∀ p < n, ¬ InWindow n start stop p := by
  unfold Store.zrangeWindow at h
  unfold InWindow normIndex
  intro p hp
  dsimp only at h
  split_ifs at h ⊢ <;> omega

theorem zrangeWindow_some {start stop : ℤ} {n skip take : ℕ}
    (h : Store.zrangeWindow start stop n = some (skip, take)) :
    skip + take ≤ n ∧ 0 < take ∧
      ∀ p < n, InWindow n start stop p ↔ skip ≤ p ∧ p < skip + take := by
  unfold Store.zrangeWindow at h
  unfold InWindow normIndex
  dsimp only at h
  split_ifs at h <;> simp only [Option.some.injEq, Prod.mk.injEq] at h
  all_goals
    obtain ⟨rfl, rfl⟩ := h
    refine ⟨by omega, by omega, ?_⟩
    intro p hp
    split_ifs <;> omega

/-- An index within the list stands for the one position it selects. -/
theorem elementIndex_some {i : ℤ} {n a : ℕ} (h : elementIndex i n = some a) :
    a < n ∧ ∀ p < n, InWindow n i i p ↔ a ≤ p ∧ p < a + 1 := by
  unfold elementIndex at h
  unfold InWindow normIndex
  dsimp only at h
  split_ifs at h <;> simp only [Option.some.injEq] at h
  all_goals
    subst h
    refine ⟨by omega, ?_⟩
    intro p hp
    split_ifs <;> omega

theorem elementIndex_eq_none_iff {i : ℤ} {n : ℕ} :
    elementIndex i n = none ↔ ¬ (-(n : ℤ) ≤ i ∧ i < n) := by
  unfold elementIndex
  dsimp only
  split_ifs <;> simp only [true_iff, false_iff] <;> omega

/-! ## What the commands select -/

/-- The elements ZRANGE reads of a list. -/
def zrangeList {α : Type} (start stop : ℤ) (l : List α) : List α :=
  match Store.zrangeWindow start stop l.length with
  | none => []
  | some (skip, take) => (l.drop skip).take take

theorem lrangeList_eq_window (start stop : ℤ) (l : List Bytes) :
    lrangeList start stop l = window start stop l := by
  unfold lrangeList
  cases h : normalizeRangeIndices start stop l.length with
  | none => exact (window_eq_nil (normalizeRangeIndices_none h)).symm
  | some r => exact (window_eq_of_interval (normalizeRangeIndices_some h).2.2).symm

theorem zrangeList_eq_window {α : Type} (start stop : ℤ) (l : List α) :
    zrangeList start stop l = window start stop l := by
  unfold zrangeList
  cases h : Store.zrangeWindow start stop l.length with
  | none => exact (window_eq_nil (zrangeWindow_none h)).symm
  | some r => exact (window_eq_of_interval (zrangeWindow_some h).2.2).symm

/-- The element at an index is the single one from the index to itself. -/
theorem window_self {α : Type} {i : ℤ} {l : List α} (h : -(l.length : ℤ) ≤ i ∧ i < l.length) :
    ∃ v, window i i l = [v] ∧ ((elementIndex i l.length).bind fun a => l[a]?) = some v := by
  obtain ⟨a, ha⟩ := Option.ne_none_iff_exists'.mp fun hn => elementIndex_eq_none_iff.mp hn h
  obtain ⟨hlt, hp⟩ := elementIndex_some ha
  refine ⟨l[a], ?_, ?_⟩
  · rw [window_eq_of_interval hp, List.take_one, List.head?_drop, List.getElem?_eq_getElem hlt]
    rfl
  · rw [ha, Option.bind_some, List.getElem?_eq_getElem hlt]

/-! ## In 64 bits -/

/-- `i64` addition; no value where it overflows. -/
def addI64 (a b : ℤ) : Option ℤ := if InI64 (a + b) then some (a + b) else none

/-- `i64` subtraction; no value where it overflows. -/
def subI64 (a b : ℤ) : Option ℤ := if InI64 (a - b) then some (a - b) else none

/-- `e - s + 1` on `usize`; no value where it overflows. -/
def spanUsize (s t : ℕ) : Option ℕ :=
  if s ≤ t ∧ t - s + 1 < 2 ^ 64 then some (t - s + 1) else none

/-- `normalize_range_indices` in 64 bits. -/
def normalizeRangeIndicesI64 (start stop : ℤ) (len : ℕ) : Option (Option (ℕ × ℕ)) :=
  if len = 0 then some none
  else
    (if start < 0 then (addI64 start len).map fun s => max s 0 else some start).bind fun start =>
    (if stop < 0 then addI64 stop len
      else (subI64 len 1).map fun last => min stop last).bind fun stop =>
    some (if start ≥ (len : ℤ) ∨ stop < 0 ∨ start > stop then none
      else some (start.toNat, stop.toNat))

/-- LRANGE in 64 bits. -/
def lrangeListI64 (start stop : ℤ) (l : List Bytes) : Option (List Bytes) :=
  (normalizeRangeIndicesI64 start stop l.length).bind fun
  | none => some []
  | some (s, t) => (spanUsize s t).map fun k => (l.drop s).take k

/-- ZRANGE in 64 bits. -/
def zrangeListI64 {α : Type} (start stop : ℤ) (l : List α) : Option (List α) :=
  if l.length = 0 then some []
  else
    (if start < 0 then addI64 l.length start else some start).bind fun realStart =>
    (if stop < 0 then addI64 l.length stop else some stop).bind fun realStop =>
    let realStart := if realStart < 0 then 0 else realStart
    (if realStop ≥ (l.length : ℤ) then subI64 l.length 1 else some realStop).bind fun realStop =>
    if realStart > realStop ∨ realStart ≥ (l.length : ℤ) then some []
    else (subI64 realStop realStart).bind fun k => (addI64 k 1).map fun k =>
      (l.drop realStart.toNat).take k.toNat

/-- LINDEX in 64 bits. -/
def elementIndexI64 (index : ℤ) (len : ℕ) : Option (Option ℕ) :=
  (if index < 0 then addI64 index len else some index).map fun actual =>
    if actual < 0 ∨ actual ≥ (len : ℤ) then none else some actual.toNat

section Bits

variable {start stop : ℤ}

theorem addI64_eq {a b : ℤ} (h : InI64 (a + b)) : addI64 a b = some (a + b) := if_pos h

theorem subI64_eq {a b : ℤ} (h : InI64 (a - b)) : subI64 a b = some (a - b) := if_pos h

/-- The sum of a negative index and a length does not overflow. -/
theorem inI64_add_length {i : ℤ} {n : ℕ} (hi : InI64 i) (hn : n < 2 ^ 63) (h : i < 0) :
    InI64 (i + n) := by
  unfold InI64 at *
  omega

theorem normalizeRangeIndicesI64_eq {n : ℕ} (hs : InI64 start) (ht : InI64 stop)
    (hn : n < 2 ^ 63) :
    normalizeRangeIndicesI64 start stop n = some (normalizeRangeIndices start stop n) := by
  have hstart : (if start < 0 then (addI64 start n).map fun start => max start 0
      else some start) = some (if start < 0 then max (start + n) 0 else start) := by
    split_ifs with h
    · rw [addI64_eq (inI64_add_length hs hn h), Option.map_some]
    · rfl
  have hstop : (if stop < 0 then addI64 stop n
      else (subI64 n 1).map fun last => min stop last) =
        some (if stop < 0 then stop + n else min stop ((n : ℤ) - 1)) := by
    split_ifs with h
    · rw [addI64_eq (inI64_add_length ht hn h)]
    · rw [subI64_eq (by unfold InI64; omega), Option.map_some]
  unfold normalizeRangeIndicesI64 normalizeRangeIndices
  dsimp only
  by_cases hlen : n = 0
  · rw [if_pos hlen, if_pos (.inl hlen)]
  · rw [if_neg hlen, hstart, hstop]
    simp only [Option.bind_some, hlen, false_or]

theorem lrangeListI64_eq {l : List Bytes} (hs : InI64 start) (ht : InI64 stop)
    (hn : l.length < 2 ^ 63) : lrangeListI64 start stop l = some (lrangeList start stop l) := by
  unfold lrangeListI64 lrangeList
  rw [normalizeRangeIndicesI64_eq hs ht hn]
  cases h : normalizeRangeIndices start stop l.length with
  | none => rfl
  | some r =>
    obtain ⟨hle, hlt, -⟩ := normalizeRangeIndices_some h
    have hspan : spanUsize r.1 r.2 = some (r.2 - r.1 + 1) := if_pos (by omega)
    show (spanUsize r.1 r.2).map _ = _
    rw [hspan]
    rfl

theorem zrangeListI64_eq {α : Type} {l : List α} (hs : InI64 start) (ht : InI64 stop)
    (hn : l.length < 2 ^ 63) : zrangeListI64 start stop l = some (zrangeList start stop l) := by
  have hreal : ∀ i, InI64 i → (if i < 0 then addI64 l.length i else some i) =
      some (if i < 0 then l.length + i else i) := by
    intro i hi
    split_ifs with h
    · rw [addI64_eq (by rw [Int.add_comm]; exact inI64_add_length hi hn h)]
    · rfl
  have hclamp : ∀ i, (if i ≥ (l.length : ℤ) then subI64 l.length 1 else some i) =
      some (min (l.length - 1 : ℤ) i) := by
    intro i
    split_ifs with h
    · rw [subI64_eq (by unfold InI64; omega)]
      congr 1
      omega
    · congr 1
      omega
  unfold zrangeListI64 zrangeList Store.zrangeWindow
  dsimp only
  by_cases hlen : l.length = 0
  · rw [if_pos hlen, if_pos (.inl hlen)]
  · rw [if_neg hlen, hreal start hs, hreal stop ht, Option.bind_some, Option.bind_some, hclamp,
      Option.bind_some]
    simp only [hlen, false_or]
    generalize (if start < 0 then (l.length : ℤ) + start else start) = rs
    generalize hrt : min (l.length - 1 : ℤ) (if stop < 0 then (l.length : ℤ) + stop else stop) = rt
    rw [show (if rs < 0 then 0 else rs) = max 0 rs by omega]
    by_cases hout : max 0 rs > rt ∨ max 0 rs ≥ (l.length : ℤ)
    · rw [if_pos hout, if_pos hout]
    · rw [if_neg hout, if_neg hout, subI64_eq (by unfold InI64; omega), Option.bind_some,
        addI64_eq (by unfold InI64; omega), Option.map_some]

theorem elementIndexI64_eq {i : ℤ} {n : ℕ} (hi : InI64 i) (hn : n < 2 ^ 63) :
    elementIndexI64 i n = some (elementIndex i n) := by
  have hactual : (if i < 0 then addI64 i n else some i) = some (if i < 0 then i + n else i) := by
    split_ifs with h
    · rw [addI64_eq (inI64_add_length hi hn h)]
    · rfl
  unfold elementIndexI64
  rw [hactual]
  rfl

end Bits

/-! ## The commands -/

section Commands

variable {S : Type} {e : Env} {key : Bytes} {exp : Option Instant}

/-- What the commands by index do with a list. -/
structure ListByIndex [LinearOrder S] (e : Env) (d : Data S) (key : Bytes) (l : List Bytes)
    (exp : Option Instant) : Prop where
  range : ∀ start stop, Store.lrange e key start stop d = (d, .ok (window start stop l))
  trim : ∀ start stop,
    Store.ltrim e key start stop d = (keepList key exp (window start stop l) d, .ok ())
  element : ∀ i, -(l.length : ℤ) ≤ i → i < l.length →
    ∃ v, window i i l = [v] ∧ Store.lindex e key i d = (d, .ok (some v))
  outside : ∀ i, i < -(l.length : ℤ) ∨ l.length ≤ i → Store.lindex e key i d = (d, .ok none)

namespace Script

/-- What the commands by index of a script do with a list, the indexes given as texts. -/
structure ListByIndex [LinearOrder S] (e : Env) (d : Data S) (key : Bytes) (l : List Bytes)
    (exp : Option Instant) : Prop where
  range : ∀ a b start stop, parseI64 a = some start → parseI64 b = some stop →
    lrange e [key, a, b] d = (d, bulks (window start stop l))
  trim : ∀ a b start stop, parseI64 a = some start → parseI64 b = some stop →
    ltrim e [key, a, b] d = (keepList key exp (window start stop l) d, .ok (.status "OK"))
  element : ∀ a i, parseI64 a = some i → -(l.length : ℤ) ≤ i → i < l.length →
    ∃ v, window i i l = [v] ∧ lindex e [key, a] d = (d, bulk v)
  outside : ∀ a i, parseI64 a = some i → i < -(l.length : ℤ) ∨ l.length ≤ i →
    lindex e [key, a] d = (d, .ok .nil)

end Script

section Lists

variable [LinearOrder S] {d : Data S} {l : List Bytes}

theorem elementAt_outside {i : ℤ} (h : i < -(l.length : ℤ) ∨ l.length ≤ i) :
    ((elementIndex i l.length).bind fun a => l[a]?) = none := by
  rw [elementIndex_eq_none_iff.mpr (by omega), Option.bind_none]

theorem listByIndex (hl : live e.now d key = some ⟨.list l, exp⟩) : ListByIndex e d key l exp := by
  have hlindex : ∀ i, Store.lindex e key i d =
      (d, .ok ((elementIndex i l.length).bind fun a => l[a]?)) := by
    intro i
    rw [Store.lindex, readAs_found (t := Kind.list) hl, purge_of_live hl]
  refine ⟨?_, ?_, ?_, ?_⟩
  · intro start stop
    rw [Store.lrange, readAs_found (t := Kind.list) hl, purge_of_live hl, lrangeList_eq_window]
  · intro start stop
    rw [Store.ltrim, shrinkAs_found hl, lrangeList_eq_window, keepList]
  · intro i hlo hhi
    obtain ⟨v, hv, hget⟩ := window_self (l := l) ⟨hlo, hhi⟩
    exact ⟨v, hv, by rw [hlindex, hget]⟩
  · intro i hi
    rw [hlindex, elementAt_outside hi]

theorem Script.listByIndex (hl : live e.now d key = some ⟨.list l, exp⟩) :
    Script.ListByIndex e d key l exp := by
  have hlindex : ∀ a i, parseI64 a = some i → lindex e [key, a] d =
      (d, bulkOrNil ((elementIndex i l.length).bind fun a => l[a]?)) := by
    intro a i ha
    rw [lindex, ha]
    dsimp only
    rw [readAs_found (t := Kind.list) hl, purge_of_live hl]
  refine ⟨?_, ?_, ?_, ?_⟩
  · intro a b start stop ha hb
    rw [lrange, ha, hb]
    dsimp only
    rw [readAs_found (t := Kind.list) hl, purge_of_live hl, lrangeList_eq_window]
  · intro a b start stop ha hb
    rw [ltrim, ha, hb]
    dsimp only
    rw [shrinkAs_found hl, lrangeList_eq_window, keepList]
  · intro a i ha hlo hhi
    obtain ⟨v, hv, hget⟩ := window_self (l := l) ⟨hlo, hhi⟩
    refine ⟨v, hv, ?_⟩
    rw [hlindex a i ha, hget]
    rfl
  · intro a i ha hi
    rw [hlindex a i ha, elementAt_outside hi]
    rfl

end Lists

/-- What ZRANGE selects of a sorted set, the members in the order of score and name. -/
structure SetByIndex [Score S] (e : Env) (d : Data S) (key : Bytes) (z : SortedSet S) : Prop where
  native : ∀ start stop withscores, Store.zrange e key start stop withscores d =
    (d, .ok ((window start stop z.byScore.keys).map (Store.withScore withscores)))
  script : ∀ a b start stop rest, parseI64 a = some start → parseI64 b = some stop →
    Script.zrange e (key :: a :: b :: rest) d =
      (d, Script.bulks ((window start stop z.byScore.keys).flatMap
        (Script.scored (rest.any fun arg => optionWord arg = "WITHSCORES"))))

theorem setByIndex [Score S] {d : Data S} {z : SortedSet S} (hz : z.Coherent)
    (hl : live e.now d key = some ⟨.sortedSet z, exp⟩) : SetByIndex e d key z := by
  constructor
  · intro start stop withscores
    rw [Store.zrange, readAs_found (t := Kind.sortedSet) hl, purge_of_live hl,
      ← zrangeList_eq_window, zrangeList, hz.length_keys]
    cases Store.zrangeWindow start stop z.len <;> rfl
  · intro a b start stop rest ha hb
    rw [Script.zrange, ha, hb]
    dsimp only
    rw [readAs_found (t := Kind.sortedSet) hl, purge_of_live hl, ← zrangeList_eq_window,
      zrangeList, hz.length_keys]
    cases Store.zrangeWindow start stop z.len <;> rfl

/-! ## Trimming and reading what is left -/

section Trim

variable [LinearOrder S] {d : Data S} {l : List Bytes}

theorem window_all {α : Type} (l : List α) : window 0 (-1) l = l := by
  apply List.selectIdx_all
  intro p hp
  unfold InWindow normIndex
  split_ifs <;> omega

/-- A read of the whole list after a trim, and whether the key is still there. -/
structure TrimReads (e : Env) (d : Data S) (key : Bytes) (start stop : ℤ) : Prop where
  read : (Store.lrange e key 0 (-1) (Store.ltrim e key start stop d).1).2 =
    (Store.lrange e key start stop d).2
  gone : live e.now (Store.ltrim e key start stop d).1 key = none ↔
    (Store.lrange e key start stop d).2 = .ok []

theorem trimReads (e : Env) (d : Data S) (key : Bytes) (start stop : ℤ) :
    TrimReads e d key start stop := by
  cases look Kind.list e.now key d with
  | absent h =>
    have hp : live e.now (purge e.now key d) key = none := by rw [live_purge, h]
    have hread : ∀ d' : Data S, live e.now d' key = none → ∀ a b,
        (Store.lrange e key a b d').2 = .ok [] := by
      intro d' h' a b
      rw [Store.lrange, readAs_absent h']
    constructor
    · rw [Store.ltrim, shrinkAs_absent h, hread _ hp, hread _ h]
    · rw [Store.ltrim, shrinkAs_absent h, hread _ h]
      exact ⟨fun _ => rfl, fun _ => hp⟩
  | wrong en h hd =>
    have hp : live e.now (purge e.now key d) key = some en := by rw [live_purge, h]
    have hread : ∀ d' : Data S, live e.now d' key = some en → ∀ a b,
        (Store.lrange e key a b d').2 = .error .wrongType := by
      intro d' h' a b
      rw [Store.lrange, readAs_wrong h' hd]
    constructor
    · rw [Store.ltrim, shrinkAs_wrong h hd, hread _ hp, hread _ h]
    · rw [Store.ltrim, shrinkAs_wrong h hd, hread _ h, hp]
      simp
  | found l exp h =>
    have hw := live_keepList h (window start stop l)
    rw [Kind.list] at h
    constructor
    · rw [(listByIndex h).trim, (listByIndex h).range]
      split_ifs at hw with hnil
      · rw [hnil] at hw ⊢
        rw [Store.lrange, readAs_absent hw]
      · rw [(listByIndex hw).range, window_all]
    · rw [(listByIndex h).trim, (listByIndex h).range, hw]
      simp

namespace Script

/-- The reply of a script to what LRANGE returns. -/
def rangeReply : Except StoreError (List Bytes) → Reply
  | .ok l => bulks l
  | .error _ => wrongType

theorem rangeReply_eq_nil_iff {r : Except StoreError (List Bytes)} :
    rangeReply r = bulks [] ↔ r = .ok [] := by
  cases r with
  | error err => simp [rangeReply, wrongType, bulks]
  | ok l => cases l <;> simp [rangeReply, bulks]

variable {a b : Bytes} {start stop : ℤ}

theorem lrange_eq (ha : parseI64 a = some start) (hb : parseI64 b = some stop) (d : Data S) :
    (lrange e [key, a, b] d).2 = rangeReply (Store.lrange e key start stop d).2 := by
  rw [lrange, ha, hb]
  dsimp only
  cases look Kind.list e.now key d with
  | absent h => rw [Store.lrange, readAs_absent h, readAs_absent h]; rfl
  | wrong en h hd => rw [Store.lrange, readAs_wrong h hd, readAs_wrong h hd]; rfl
  | found l exp h => rw [Store.lrange, readAs_found h, readAs_found h]; rfl

theorem ltrim_eq (ha : parseI64 a = some start) (hb : parseI64 b = some stop) (d : Data S) :
    (ltrim e [key, a, b] d).1 = (Store.ltrim e key start stop d).1 := by
  rw [ltrim, ha, hb]
  dsimp only
  cases look Kind.list e.now key d with
  | absent h => rw [Store.ltrim, shrinkAs_absent h, shrinkAs_absent h]
  | wrong en h hd => rw [Store.ltrim, shrinkAs_wrong h hd, shrinkAs_wrong h hd]
  | found l exp h =>
    rw [Kind.list] at h
    rw [Store.ltrim, shrinkAs_found h, shrinkAs_found h]

/-- A read of the whole list after a trim, in a script. -/
structure TrimReads (e : Env) (d : Data S) (key a b : Bytes) : Prop where
  read : (lrange e [key, ascii "0", ascii "-1"] (ltrim e [key, a, b] d).1).2 =
    (lrange e [key, a, b] d).2
  gone : live e.now (ltrim e [key, a, b] d).1 key = none ↔ (lrange e [key, a, b] d).2 = bulks []

theorem trimReads (ha : parseI64 a = some start) (hb : parseI64 b = some stop) (d : Data S) :
    TrimReads e d key a b := by
  have h := BurnerRedis.trimReads e d key start stop
  have h0 : parseI64 (ascii "0") = some 0 := by decide +kernel
  have h1 : parseI64 (ascii "-1") = some (-1) := by decide +kernel
  constructor
  · rw [lrange_eq h0 h1, lrange_eq ha hb, ltrim_eq ha hb, h.read]
  · rw [lrange_eq ha hb, ltrim_eq ha hb, h.gone, rangeReply_eq_nil_iff]

end Script

end Trim

end Commands

/-- The computations on these indexes neither overflow 64 bits nor leave the list. -/
structure FitsI64 (S : Type) [LinearOrder S] (start stop : ℤ) : Prop where
  lrange : ∀ l : List Bytes, l.length < 2 ^ 63 →
    lrangeListI64 start stop l = some (window start stop l)
  zrange : ∀ l : List (ScoredMember S), l.length < 2 ^ 63 →
    zrangeListI64 start stop l = some (window start stop l)
  lindex : ∀ n : ℕ, n < 2 ^ 63 → elementIndexI64 start n = some (elementIndex start n)
  within : ∀ n a : ℕ, elementIndex start n = some a → a < n

theorem fitsI64 {S : Type} [LinearOrder S] {start stop : ℤ} (hs : InI64 start) (ht : InI64 stop) :
    FitsI64 S start stop := by
  refine ⟨?_, ?_, ?_, ?_⟩
  · intro l hn
    rw [lrangeListI64_eq hs ht hn, lrangeList_eq_window]
  · intro l hn
    rw [zrangeListI64_eq hs ht hn, zrangeList_eq_window]
  · intro n hn
    exact elementIndexI64_eq hs hn
  · intro n a h
    exact (elementIndex_some h).1

/-- LRANGE, LTRIM, ZRANGE and LINDEX select by one window, natively and in a script. -/
theorem index_windows {S : Type} [Score S] (e : Env) (d : Data S) (key : Bytes) :
    (∀ l exp, live e.now d key = some ⟨.list l, exp⟩ →
      ListByIndex e d key l exp ∧ Script.ListByIndex e d key l exp) ∧
    (∀ z exp, live e.now d key = some ⟨.sortedSet z, exp⟩ → z.Coherent → SetByIndex e d key z) ∧
    (∀ start stop, TrimReads e d key start stop ∧ ∀ a b, parseI64 a = some start →
      parseI64 b = some stop → Script.TrimReads e d key a b) ∧
    ∀ start stop, InI64 start → InI64 stop → FitsI64 S start stop := by
  refine ⟨?_, ?_, ?_, ?_⟩
  · intro l exp hl
    exact ⟨listByIndex hl, Script.listByIndex hl⟩
  · intro z exp hl hz
    exact setByIndex hz hl
  · intro start stop
    exact ⟨trimReads e d key start stop, fun a b ha hb => Script.trimReads ha hb d⟩
  · intro start stop hs ht
    exact fitsI64 hs ht

/-- A list of three elements. -/
def threeList : Data ℤ :=
  (∅ : Data ℤ).insert (ascii "k") ⟨.list [ascii "a", ascii "b", ascii "c"], none⟩

theorem threeList_windows :
    Store.lrange ⟨0, 0, .byKey⟩ (ascii "k") (-2 ^ 63) (-2) threeList =
      (threeList, .ok [ascii "a", ascii "b"]) ∧
    Script.lindex ⟨0, 0, .byKey⟩ [ascii "k", ascii "3"] threeList = (threeList, .ok .nil) ∧
    FitsI64 ℤ (-2 ^ 63) (2 ^ 63 - 1) := by
  have h := index_windows ⟨0, 0, .byKey⟩ threeList (ascii "k")
  have hl : live 0 threeList (ascii "k") =
      some ⟨.list [ascii "a", ascii "b", ascii "c"], none⟩ := by
    rw [threeList, live_insert, if_pos rfl]
    rfl
  obtain ⟨hnative, hscript⟩ := h.1 _ none hl
  have hwindow : window (-2 ^ 63) (-2) [ascii "a", ascii "b", ascii "c"] =
      [ascii "a", ascii "b"] := by decide +kernel
  refine ⟨?_, ?_, ?_⟩
  · rw [hnative.range, hwindow]
  · exact hscript.outside (ascii "3") 3 (by decide +kernel) (by decide)
  · exact h.2.2.2 _ _ (by decide) (by decide)

end BurnerRedis
