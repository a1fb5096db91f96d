import BurnerRedis.Lib.Positions
import BurnerRedis.LiveValues
import BurnerRedis.Script.Lists

/-!
# Removing elements by value

LREM has three algorithms, one for each sign of its count. All of them keep the elements at the
positions that `Removes` does not name.
-/

namespace BurnerRedis

/-! ## The occurrences removed -/

/-- LREM removes the element at the position: an occurrence of the value with fewer than `count`
occurrences before it, or fewer than `-count` after it. -/
def Removes (count : ℤ) (value : Bytes) (l : List Bytes) (p : ℕ) : Prop :=
  l[p]? = some value ∧ (0 < count → ((l.take p).count value : ℤ) < count) ∧
    (count < 0 → ((l.drop (p + 1)).count value : ℤ) < -count)

instance (count : ℤ) (value : Bytes) (l : List Bytes) : DecidablePred (Removes count value l) :=
  fun _ => inferInstanceAs (Decidable (_ ∧ _))

/-- The elements that stay, in their order. -/
def keptBy (count : ℤ) (value : Bytes) (l : List Bytes) : List Bytes :=
  l.selectIdx fun p => ¬ Removes count value l p

/-- How many elements go. -/
def numberRemoved (count : ℤ) (value : Bytes) (l : List Bytes) : ℤ :=
  if count = 0 then l.count value else min |count| (l.count value)

section Signs

variable {count : ℤ} {value : Bytes} {l : List Bytes} {p : ℕ}

theorem removes_of_pos (h : 0 < count) :
    Removes count value l p ↔ l[p]? = some value ∧ (l.take p).count value < count.toNat := by
  rw [Removes, imp_iff_right h, Int.lt_toNat]
  exact and_congr_right fun _ => and_iff_left fun hneg => by omega

theorem removes_of_neg (h : count < 0) :
    Removes count value l p ↔
      l[p]? = some value ∧ (l.drop (p + 1)).count value < count.natAbs := by
  rw [Removes, imp_iff_right h, ← Int.ofNat_lt, Int.ofNat_natAbs_of_nonpos h.le]
  exact and_congr_right fun _ => and_iff_right fun hpos => by omega

theorem removes_zero : Removes 0 value l p ↔ l[p]? = some value := by
  rw [Removes, and_iff_left]
  exact ⟨fun h => absurd h (lt_irrefl _), fun h => absurd h (lt_irrefl _)⟩

end Signs

/-! ## From the head -/

theorem retainHead_eq (target : ℕ) (value : Bytes) (removed : ℕ) (l : List Bytes) :
    retainHead target value removed l =
      (l.selectIdx fun p => ¬ (l[p]? = some value ∧ removed + (l.take p).count value < target),
        removed + min (target - removed) (l.count value)) := by
  induction l generalizing removed with
  | nil => simp [retainHead]
  | cons v l ih =>
    unfold retainHead
    by_cases hv : v = value
    · subst hv
      by_cases hlt : removed < target
      · rw [if_pos ⟨hlt, rfl⟩, ih, List.selectIdx_cons, if_neg (by simpa using hlt),
          List.count_cons_self]
        congr 1
        · apply List.selectIdx_congr
          intro p _
          rw [List.getElem?_cons_succ, List.take_succ_cons, List.count_cons_self,
            show removed + 1 + (l.take p).count v = removed + ((l.take p).count v + 1) by omega]
        · omega
      · -- nothing is removed any more
        rw [if_neg fun h => hlt h.1, ih, List.selectIdx_all, List.selectIdx_all]
        · rw [show target - removed = 0 by omega, Nat.zero_min, Nat.zero_min]
        · rintro p _ ⟨-, hp⟩
          omega
        · rintro p _ ⟨-, hp⟩
          omega
    · rw [if_neg fun h => hv h.2, ih, List.selectIdx_cons, if_pos (by simp [hv]),
        List.count_cons_of_ne hv]
      dsimp only
      congr 2
      apply List.selectIdx_congr
      intro p _
      rw [List.getElem?_cons_succ, List.take_succ_cons, List.count_cons_of_ne hv]

/-! ## From the tail -/

theorem pairwise_matchesFromTail (target : ℕ) (value : Bytes) (l : List Bytes) :
    (matchesFromTail target value l).Pairwise (· > ·) := by
  have hall : (l.zipIdx.reverse.map Prod.snd).Pairwise (· > ·) := by
    rw [List.map_reverse, List.pairwise_reverse, List.zipIdx_map_snd]
    exact List.pairwise_lt_range'
  exact (hall.sublist (List.filter_sublist.map Prod.snd)).sublist (List.take_sublist _ _)

theorem length_matchesFromTail (target : ℕ) (value : Bytes) (l : List Bytes) :
    (matchesFromTail target value l).length = min target (l.count value) := by
  have hcount : (l.zipIdx.reverse.filter fun p => decide (p.1 = value)).length =
      l.count value := by
    rw [← List.countP_eq_length_filter, List.countP_reverse]
    conv_rhs => rw [← List.zipIdx_map_fst (l := l) (i := 0), List.count, List.countP_map]
    apply List.countP_congr
    intro p _
    simp
  unfold matchesFromTail
  rw [List.length_take, List.length_map, hcount]

theorem matchesFromTail_concat_self (target : ℕ) (value : Bytes) (l : List Bytes) :
    matchesFromTail (target + 1) value (l ++ [value]) =
      l.length :: matchesFromTail target value l := by
  unfold matchesFromTail
  rw [List.zipIdx_append, List.reverse_append]
  simp

theorem matchesFromTail_concat_ne {value v : Bytes} (h : v ≠ value) (target : ℕ) (l : List Bytes) :
    matchesFromTail target value (l ++ [v]) = matchesFromTail target value l := by
  unfold matchesFromTail
  rw [List.zipIdx_append, List.reverse_append]
  simp [h]

/-- One more element at the tail is an occurrence with none after it, or counts after the others. -/
theorem fromTail_concat {target p : ℕ} {value v : Bytes} {l : List Bytes} :
    ((l ++ [v])[p]? = some value ∧ ((l ++ [v]).drop (p + 1)).count value < target) ↔
      (p = l.length ∧ v = value ∧ 0 < target) ∨
        (l[p]? = some value ∧
          (l.drop (p + 1)).count value + (if v = value then 1 else 0) < target) := by
  rcases lt_trichotomy p l.length with hp | rfl | hp
  · rw [List.getElem?_append_left hp, List.drop_append_of_le_length hp, List.count_append,
      List.count_singleton]
    simp [hp.ne]
  · rw [List.getElem?_concat_length, List.getElem?_eq_none le_rfl,
      List.drop_of_length_le (by simp)]
    simp
  · rw [List.getElem?_eq_none (by simp; omega), List.getElem?_eq_none hp.le]
    simp [hp.ne']

/-- The positions from the tail: the occurrences with fewer than `target` after them. -/
theorem mem_matchesFromTail {target : ℕ} {value : Bytes} {l : List Bytes} {p : ℕ} :
    p ∈ matchesFromTail target value l ↔
      l[p]? = some value ∧ (l.drop (p + 1)).count value < target := by
  induction l using List.reverseRecOn generalizing target with
  | nil => simp [matchesFromTail]
  | append_singleton l v ih =>
    rw [fromTail_concat]
    by_cases hv : v = value
    · subst hv
      cases target with
      | zero => simp [matchesFromTail]
      | succ target =>
        rw [matchesFromTail_concat_self, List.mem_cons, ih]
        simp
    · rw [matchesFromTail_concat_ne hv, ih]
      simp [hv]

/-- Removing the positions from the tail, counting them. -/
theorem foldl_remove (is : List ℕ) (l : List Bytes) (n : ℤ) :
    is.foldl (fun r i => (r.1.eraseIdx i, r.2 + 1)) (l, n) =
      (is.foldl List.eraseIdx l, n + is.length) := by
  induction is generalizing l n with
  | nil => simp
  | cons i is ih =>
    rw [List.foldl_cons, ih, List.foldl_cons, List.length_cons]
    congr 1
    push_cast
    omega

/-! ## All three -/

theorem lremList_eq (count : ℤ) (value : Bytes) (l : List Bytes) :
    lremList count value l = (keptBy count value l, numberRemoved count value l) := by
  unfold lremList parseLremCount keptBy numberRemoved
  rcases lt_trichotomy count 0 with hneg | rfl | hpos
  · rw [if_neg (by omega), if_pos hneg, if_neg hneg.ne]
    dsimp only
    rw [foldl_remove, List.foldl_eraseIdx (pairwise_matchesFromTail _ _ _), length_matchesFromTail,
      Int.abs_eq_natAbs]
    congr 1
    · simp only [mem_matchesFromTail, removes_of_neg hneg]
    · omega
  · have hlen : l.length = l.count value + (l.filter fun a => decide (a ≠ value)).length := by
      rw [List.length_eq_countP_add_countP (· == value), List.count,
        ← List.countP_eq_length_filter]
      congr 1
      apply List.countP_congr
      intro a _
      simp
    rw [if_neg (lt_irrefl _), if_neg (lt_irrefl _), if_pos rfl]
    dsimp only
    congr 1
    · rw [List.filter_ne_eq_selectIdx]
      simp only [removes_zero, ne_eq]
    · omega
  · rw [if_pos hpos, if_neg hpos.ne']
    dsimp only
    rw [retainHead_eq, abs_of_pos hpos]
    congr 1
    · simp only [removes_of_pos hpos, Nat.zero_add]
    · dsimp only
      omega

/-! ## From the other end -/

theorem removes_reverse {count : ℤ} {value : Bytes} {l : List Bytes} {p : ℕ} (hp : p < l.length) :
    Removes count value l.reverse (l.length - 1 - p) ↔ Removes (-count) value l p := by
  unfold Removes
  rw [List.getElem?_reverse (by omega), List.take_reverse, List.drop_reverse, List.count_reverse,
    List.count_reverse, show l.length - 1 - (l.length - 1 - p) = p by omega,
    show l.length - (l.length - 1 - p) = p + 1 by omega,
    show l.length - (l.length - 1 - p + 1) = p by omega, neg_neg, neg_pos, neg_neg_iff_pos]
  tauto

/-- Removing from the tail is removing from the head of the reversed list. -/
theorem keptBy_neg (count : ℤ) (value : Bytes) (l : List Bytes) :
    keptBy (-count) value l = (keptBy count value l.reverse).reverse := by
  unfold keptBy
  rw [List.reverse_selectIdx, List.reverse_reverse, List.length_reverse]
  apply List.selectIdx_congr
  intro p hp
  rw [removes_reverse hp]

theorem numberRemoved_neg (count : ℤ) (value : Bytes) (l : List Bytes) :
    numberRemoved (-count) value l = numberRemoved count value l.reverse := by
  unfold numberRemoved
  simp only [List.count_reverse, abs_neg, neg_eq_zero]

/-! ## The commands -/

/-- What LREM does to a list under a key. -/
structure RemovesExactly {S : Type} [LinearOrder S] (e : Env) (d : Data S) (key : Bytes)
    (l : List Bytes) (exp : Option Instant) (count : ℤ) (value : Bytes) : Prop where
  native : Store.lrem e key count value d =
    (keepList key exp (keptBy count value l) d, .ok (numberRemoved count value l))
  script : ∀ text, parseI64 text = some count → Script.lrem e [key, text, value] d =
    (keepList key exp (keptBy count value l) d, Script.integer (numberRemoved count value l))
  gone : live e.now (Store.lrem e key count value d).1 key = none ↔ keptBy count value l = []
  turned : lremList (-count) value l =
    ((lremList count value l.reverse).1.reverse, (lremList count value l.reverse).2)

/-- LREM removes the occurrences that its count names and keeps the rest in its order. -/
theorem lrem_exact {S : Type} [LinearOrder S] {e : Env} {d : Data S} {key : Bytes}
    {l : List Bytes} {exp : Option Instant} (hl : live e.now d key = some ⟨.list l, exp⟩)
    (count : ℤ) (value : Bytes) : RemovesExactly e d key l exp count value := by
  have hnative : Store.lrem e key count value d =
      (keepList key exp (keptBy count value l) d, .ok (numberRemoved count value l)) := by
    rw [Store.lrem, shrinkAs_found hl, lremList_eq, keepList]
  refine ⟨hnative, ?_, ?_, ?_⟩
  · intro text htext
    rw [Script.lrem, htext]
    dsimp only
    rw [shrinkAs_found hl, lremList_eq, keepList]
  · rw [hnative, live_keepList hl]
    simp
  · rw [lremList_eq, lremList_eq, keptBy_neg, numberRemoved_neg]

/-- A list in which one value stands three times. -/
def threeTimes : List Bytes := [ascii "a", ascii "b", ascii "a", ascii "c", ascii "a"]

theorem threeTimes_removed :
    Store.lrem ⟨0, 0, .byKey⟩ (ascii "k") (-2 ^ 63) (ascii "a")
        ((∅ : Data ℤ).insert (ascii "k") ⟨.list threeTimes, none⟩) =
      (((∅ : Data ℤ).insert (ascii "k") ⟨.list threeTimes, none⟩).insert (ascii "k")
        ⟨.list [ascii "b", ascii "c"], none⟩, .ok 3) ∧
    Store.lrem ⟨0, 0, .byKey⟩ (ascii "k") (-2) (ascii "a")
        ((∅ : Data ℤ).insert (ascii "k") ⟨.list threeTimes, none⟩) =
      (((∅ : Data ℤ).insert (ascii "k") ⟨.list threeTimes, none⟩).insert (ascii "k")
        ⟨.list [ascii "a", ascii "b", ascii "c"], none⟩, .ok 2) := by
  have hl : live 0 ((∅ : Data ℤ).insert (ascii "k") ⟨.list threeTimes, none⟩) (ascii "k") =
      some ⟨.list threeTimes, none⟩ := by
    rw [live_insert, if_pos rfl]
    rfl
  have hall : keptBy (-2 ^ 63) (ascii "a") threeTimes = [ascii "b", ascii "c"] := by decide +kernel
  have htwo : keptBy (-2) (ascii "a") threeTimes = [ascii "a", ascii "b", ascii "c"] := by
    decide +kernel
  constructor
  · rw [(lrem_exact (e := ⟨0, 0, .byKey⟩) hl _ _).native, hall]
    rfl
  · rw [(lrem_exact (e := ⟨0, 0, .byKey⟩) hl _ _).native, htwo]
    rfl

end BurnerRedis
