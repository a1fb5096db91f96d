import BurnerRedis.Lib.Selection
import BurnerRedis.LiveData
import BurnerRedis.Script.Keys
import BurnerRedis.SortedIndexes

/-!
# Ranges of scores

The commands by score walk the score index from the pair of the least score and the empty member,
and stop at the first score that is too great. On a coherent sorted set this selects the members
whose scores pass, neither more nor fewer, in the order of score and member: `SortedSet.Lists`.
-/

namespace BurnerRedis

variable {S : Type} [LinearOrder S]

/-! ## The pairs that pass -/

/-- The pairs of a sorted set whose scores pass, in the order of score and member. -/
structure SortedSet.Lists (z : SortedSet S) (P : S → Prop) (l : List (ScoredMember S)) : Prop where
  ordered : l.Pairwise ScoredMember.Below
  mem : ∀ p : ScoredMember S, p ∈ l ↔ z.byMember[p.member]? = some p.score ∧ P p.score

theorem ScoredMember.below_asymm {a b : ScoredMember S} (h : a.Below b) : ¬ b.Below a := by
  rw [← compare_eq_lt_iff] at h ⊢
  rw [Std.OrientedCmp.gt_of_lt h]
  decide

theorem ScoredMember.score_le_of_below {a b : ScoredMember S} (h : a.Below b) :
    a.score ≤ b.score := by
  rcases h with h | ⟨h, -⟩
  · exact h.le
  · exact h.le

/-- The pair of a score and the empty member comes before every pair of that score. -/
theorem ScoredMember.empty_isLE_iff {s : S} {p : ScoredMember S} :
    (compare (⟨s, []⟩ : ScoredMember S) p).isLE = true ↔ s ≤ p.score := by
  show ((compare s p.score).then (compare ([] : Bytes) p.member)).isLE = true ↔ _
  rcases lt_trichotomy s p.score with h | h | h
  · rw [compare_lt_iff_lt.mpr h]
    exact ⟨fun _ => h.le, fun _ => rfl⟩
  · rw [h, Std.compare_self]
    cases p.member <;> simp
  · rw [compare_gt_iff_gt.mpr h]
    exact ⟨fun hc => absurd hc Bool.false_ne_true, fun hle => absurd h (not_lt.mpr hle)⟩

namespace SortedSet

variable {z : SortedSet S} {P Q : S → Prop} {l l' : List (ScoredMember S)}

/-- There is one such list. -/
theorem Lists.unique (h : z.Lists P l) (h' : z.Lists P l') : l = l' := by
  apply eq_of_pairwise_of_mem_iff (fun _ _ => ScoredMember.below_asymm) h.ordered h'.ordered
  intro p
  rw [h.mem, h'.mem]

/-- A member is listed once. -/
theorem Lists.nodup (h : z.Lists P l) : (l.map ScoredMember.member).Nodup := by
  have hl : l.Nodup := by
    apply h.ordered.imp
    intro a b hab heq
    rw [heq] at hab
    exact ScoredMember.below_asymm hab hab
  apply hl.map_on
  rintro ⟨s, m⟩ hp ⟨s', m'⟩ hp' hm
  obtain rfl : m = m' := hm
  have hs := ((h.mem _).mp hp).1
  rw [((h.mem _).mp hp').1, Option.some.injEq] at hs
  obtain rfl : s' = s := hs
  rfl

/-- A part of the score index, in its order. -/
theorem Coherent.lists_filter (h : z.Coherent) [DecidablePred P] :
    z.Lists P (z.byScore.keys.filter fun p => decide (P p.score)) where
  ordered := z.pairwise_keys_byScore.filter _
  mem p := by
    rw [List.mem_filter, Std.ExtTreeMap.mem_keys, h p.score p.member, decide_eq_true_eq]

/-- The walk from a score on. -/
theorem keys_atLeast_score (z : SortedSet S) (lo : S) :
    (z.byScore.atLeast ⟨lo, []⟩).map Prod.fst =
      z.byScore.keys.filter fun p => decide (lo ≤ p.score) := by
  rw [FinMap.keys_atLeast]
  apply List.filter_congr
  intro p _
  rw [Bool.eq_iff_iff, ScoredMember.empty_isLE_iff, decide_eq_true_eq]

/-- In an ordered list a test that lower scores pass as well cuts off at the first failure. -/
theorem takeWhile_score {test : ScoredMember S → Bool} (hl : l.Pairwise ScoredMember.Below)
    (ht : ∀ a b : ScoredMember S, a.score ≤ b.score → test b = true → test a = true) :
    l.takeWhile test = l.filter test := by
  apply takeWhile_eq_filter
  apply hl.imp
  intro a b hab
  exact ht a b (ScoredMember.score_le_of_below hab)

theorem byScoreRange_eq_filter (z : SortedSet S) (min max : S) :
    z.byScoreRange min max =
      z.byScore.keys.filter fun p => decide (min ≤ p.score ∧ p.score ≤ max) := by
  unfold byScoreRange
  rw [keys_atLeast_score, takeWhile_score (z.pairwise_keys_byScore.filter _), List.filter_filter]
  · apply List.filter_congr
    intro p _
    rw [Bool.decide_and, Bool.and_comm]
  · intro a b hab hb
    rw [decide_eq_true_eq] at hb ⊢
    exact hab.trans hb

theorem Coherent.lists_byScoreRange (h : z.Coherent) (min max : S) :
    z.Lists (fun s => min ≤ s ∧ s ≤ max) (z.byScoreRange min max) := by
  rw [byScoreRange_eq_filter]
  exact h.lists_filter

end SortedSet

/-! ## Rebuilding and thinning out -/

namespace SortedSet

variable {z : SortedSet S} {l : List (ScoredMember S)} {m : Bytes} {s : S}

/-- Inserting pairs of distinct members leaves these and what was there of other members. -/
theorem byMember_insertAll_of_nodup (hn : (l.map ScoredMember.member).Nodup) :
    (z.insertAll l).byMember[m]? = some s ↔
      ⟨s, m⟩ ∈ l ∨ m ∉ l.map ScoredMember.member ∧ z.byMember[m]? = some s := by
  induction l generalizing z with
  | nil => simp [insertAll]
  | cons p l ih =>
    obtain ⟨hp, hn⟩ := List.nodup_cons.mp (List.map_cons ▸ hn)
    have hrest := ih hn (z := (z.insert p.member p.score).1)
    rw [insertAll, List.foldl_cons, ← insertAll, hrest, byMember_insert, FinMap.getElem?_insert']
    obtain ⟨t, n⟩ := p
    by_cases hnm : n = m
    · subst hnm
      have hnot : ⟨s, n⟩ ∉ l := fun h => hp (List.mem_map.mpr ⟨_, h, rfl⟩)
      simp only [List.mem_cons, ScoredMember.mk.injEq, List.map_cons, hp, hnot, if_true,
        Option.some.injEq]
      grind
    · simp only [List.mem_cons, ScoredMember.mk.injEq, List.map_cons, if_neg hnm]
      grind

theorem byMember_remove (z : SortedSet S) (m m' : Bytes) :
    (z.remove m).1.byMember[m']? = if m = m' then none else z.byMember[m']? := by
  unfold SortedSet.remove
  cases hm : z.byMember[m]? with
  | some t => exact FinMap.getElem?_erase' _ m m'
  | none =>
    dsimp only
    split_ifs with h
    · rw [← h, hm]
    · rfl

/-- Removing members leaves the others. -/
theorem byMember_removeAll (z : SortedSet S) (ms : List Bytes) (m : Bytes) :
    (z.removeAll ms).1.byMember[m]? = if m ∈ ms then none else z.byMember[m]? := by
  unfold SortedSet.removeAll
  generalize (0 : ℤ) = n
  induction ms generalizing z n with
  | nil => simp
  | cons m' ms ih =>
    rw [List.foldl_cons, ih, byMember_remove]
    by_cases hm : m ∈ ms
    · rw [if_pos hm, if_pos (List.mem_cons_of_mem m' hm)]
    · rw [if_neg hm]
      by_cases hm' : m' = m
      · rw [if_pos hm', if_pos (List.mem_cons.mpr (.inl hm'.symm))]
      · rw [if_neg hm', if_neg fun h => (List.mem_cons.mp h).elim (fun e => hm' e.symm) hm]

theorem len_eq_zero_iff_forall : z.len = 0 ↔ ∀ m : Bytes, z.byMember[m]? = none := by
  rw [len, ← Std.ExtTreeMap.eq_empty_iff_size_eq_zero]
  constructor
  · intro h m
    rw [h, Std.ExtTreeMap.getElem?_empty]
  · intro h
    apply Std.ExtTreeMap.ext_getElem?
    intro m
    rw [h, Std.ExtTreeMap.getElem?_empty]

end SortedSet

/-- The key is left with a sorted set of exactly those members and scores; without any it is
gone. -/
def HoldsMembers (key : Bytes) (exp : Option Instant) (R : Bytes → S → Prop) (d d' : Data S) :
    Prop :=
  (∃ z : SortedSet S, z.Coherent ∧ (∀ m s, z.byMember[m]? = some s ↔ R m s) ∧ (∃ m s, R m s) ∧
    d' = d.insert key ⟨.sortedSet z, exp⟩) ∨
  (∀ m s, ¬ R m s) ∧ d' = d.erase key

theorem holdsMembers_removeIfEmpty {key : Bytes} {exp : Option Instant} {R : Bytes → S → Prop}
    {d : Data S} {z : SortedSet S} (hz : z.Coherent)
    (hR : ∀ m s, z.byMember[m]? = some s ↔ R m s) :
    HoldsMembers key exp R d (removeIfEmpty key (d.insert key ⟨.sortedSet z, exp⟩)) := by
  rw [removeIfEmpty_insert_eq]
  by_cases h : z.len = 0
  · right
    refine ⟨?_, if_pos (beq_iff_eq.mpr h)⟩
    intro m s hms
    rw [← hR, SortedSet.len_eq_zero_iff_forall.mp h] at hms
    cases hms
  · left
    refine ⟨z, hz, hR, ?_, if_neg fun he => h (beq_iff_eq.mp he)⟩
    rw [SortedSet.len_eq_zero_iff_forall] at h
    push Not at h
    obtain ⟨m, hm⟩ := h
    obtain ⟨s, hs⟩ := Option.ne_none_iff_exists'.mp hm
    exact ⟨m, s, (hR m s).mp hs⟩

/-! ## The native commands -/

section Native

variable {e : Env} {d : Data S} {key : Bytes} {z : SortedSet S} {exp : Option Instant} {min max : S}

/-- What the commands by score do with the range from `min` to `max` of a sorted set. -/
structure ScoreRangeExact (e : Env) (d : Data S) (key : Bytes) (z : SortedSet S)
    (exp : Option Instant) (min max : S) (l : List (ScoredMember S)) : Prop where
  listed : z.Lists (fun s => min ≤ s ∧ s ≤ max) l
  zrangebyscore : ∀ withscores : Bool, Store.zrangebyscore e key min max withscores d =
    (d, .ok (l.map (Store.withScore withscores)))
  zcount : Store.zcount e key min max d = (d, .ok l.length)
  zrangestore : ∀ dst : Bytes, (Store.zrangestore e dst key min max d).2 = .ok l.length ∧
    HoldsMembers dst none (fun m s => ⟨s, m⟩ ∈ l) d (Store.zrangestore e dst key min max d).1
  zremrangebyscore : (Store.zremrangebyscore e key min max d).2 = .ok l.length ∧
    HoldsMembers key exp (fun m s => z.byMember[m]? = some s ∧ ¬ (min ≤ s ∧ s ≤ max)) d
      (Store.zremrangebyscore e key min max d).1

theorem zrangestore_found (hz : z.Coherent) (hl : live e.now d key = some ⟨.sortedSet z, exp⟩)
    (dst : Bytes) :
    (Store.zrangestore e dst key min max d).2 = .ok ((z.byScoreRange min max).length : ℤ) ∧
      HoldsMembers dst none (fun m s => ⟨s, m⟩ ∈ z.byScoreRange min max) d
        (Store.zrangestore e dst key min max d).1 := by
  have hlist := hz.lists_byScoreRange min max
  have hread : Store.membersToStore e key min max d = (d, .ok (z.byScoreRange min max)) := by
    rw [Store.membersToStore, readAs_found (t := Kind.sortedSet) hl, purge_of_live hl]
  unfold Store.zrangestore
  rw [hread]
  generalize z.byScoreRange min max = l at hlist
  cases l with
  | nil => exact ⟨rfl, .inr ⟨fun m s h => (List.not_mem_nil h).elim, rfl⟩⟩
  | cons p l =>
    refine ⟨rfl, .inl ⟨_, SortedSet.coherent_new.insertAll (p :: l), ?_, ?_, rfl⟩⟩
    · intro m s
      rw [SortedSet.byMember_insertAll_of_nodup hlist.nodup]
      simp [SortedSet.new]
    · exact ⟨p.member, p.score, List.mem_cons_self⟩

/-- Removing what a list of the passing pairs names leaves the members that do not pass. -/
theorem SortedSet.Lists.byMember_removeAll {P : S → Prop} {l : List (ScoredMember S)}
    (h : z.Lists P l) (m : Bytes) (s : S) :
    (z.removeAll (l.map ScoredMember.member)).1.byMember[m]? = some s ↔
      z.byMember[m]? = some s ∧ ¬ P s := by
  rw [SortedSet.byMember_removeAll]
  by_cases hm : m ∈ l.map ScoredMember.member
  · rw [if_pos hm]
    obtain ⟨p, hp, rfl⟩ := List.mem_map.mp hm
    obtain ⟨hs, hP⟩ := (h.mem p).mp hp
    rw [hs]
    simp only [reduceCtorEq, Option.some.injEq, false_iff, not_and, not_not]
    rintro rfl
    exact hP
  · rw [if_neg hm]
    constructor
    · intro hs
      refine ⟨hs, ?_⟩
      intro hP
      exact hm (List.mem_map.mpr ⟨⟨s, m⟩, (h.mem ⟨s, m⟩).mpr ⟨hs, hP⟩, rfl⟩)
    · exact And.left

/-- A rewrite that removes the listed pairs leaves the key with the others. -/
theorem removeListed {ρ : Type} {wrong absent : ρ} {f : SortedSet S → SortedSet S × ρ}
    {P : S → Prop} {l : List (ScoredMember S)} (hz : z.Coherent) (h : z.Lists P l)
    (hl : live e.now d key = some ⟨.sortedSet z, exp⟩)
    (hf : (f z).1 = (z.removeAll (l.map ScoredMember.member)).1) :
    (thenRemoveIfEmpty key (modifyAs .sortedSet e.now key absent wrong f d)).2 = (f z).2 ∧
      HoldsMembers key exp (fun m s => z.byMember[m]? = some s ∧ ¬ P s) d
        (thenRemoveIfEmpty key (modifyAs .sortedSet e.now key absent wrong f d)).1 := by
  rw [modifyAs_found (t := Kind.sortedSet) hl, hf]
  exact ⟨rfl, holdsMembers_removeIfEmpty (hz.removeAll _) h.byMember_removeAll⟩

theorem scoreRangeExact (hz : z.Coherent) (hl : live e.now d key = some ⟨.sortedSet z, exp⟩)
    (min max : S) : ScoreRangeExact e d key z exp min max (z.byScoreRange min max) := by
  have hlist := hz.lists_byScoreRange min max
  refine ⟨hlist, ?_, ?_, zrangestore_found hz hl, ?_⟩
  · intro withscores
    rw [Store.zrangebyscore, readAs_found (t := Kind.sortedSet) hl, purge_of_live hl]
  · rw [Store.zcount, readAs_found (t := Kind.sortedSet) hl, purge_of_live hl]
  · rw [← List.length_map ScoredMember.member]
    exact removeListed hz hlist hl rfl

end Native

/-! ## The commands in scripts -/

namespace Script

variable {S : Type} [Score S]

namespace ScoreBound

/-- The score lies above the bound, or on it when it is inclusive. -/
def Above (b : ScoreBound S) (s : S) : Prop :=
  match b with
  | inclusive v => v ≤ s
  | exclusive v => v < s

/-- The score lies below the bound, or on it when it is inclusive. -/
def Below (b : ScoreBound S) (s : S) : Prop :=
  match b with
  | inclusive v => s ≤ v
  | exclusive v => s < v

instance (b : ScoreBound S) : DecidablePred b.Above := fun s =>
  match b with
  | inclusive v => inferInstanceAs (Decidable (v ≤ s))
  | exclusive v => inferInstanceAs (Decidable (v < s))

instance (b : ScoreBound S) : DecidablePred b.Below := fun s =>
  match b with
  | inclusive v => inferInstanceAs (Decidable (s ≤ v))
  | exclusive v => inferInstanceAs (Decidable (s < v))

theorem above_iff {b : ScoreBound S} {s : S} :
    b.Above s ↔ b.value ≤ s ∧ ¬ (b.isInclusive = false ∧ s = b.value) := by
  cases b with
  | inclusive v => simp [Above, value, isInclusive]
  | exclusive v =>
    simp only [Above, value, isInclusive, true_and]
    rw [lt_iff_le_and_ne, ne_comm, ne_eq]

theorem decide_below (b : ScoreBound S) (s : S) :
    (if b.isInclusive then decide (s ≤ b.value) else decide (s < b.value)) = decide (b.Below s) := by
  cases b <;> rfl

theorem below_of_le {b : ScoreBound S} {s s' : S} (h : s ≤ s') (hb : b.Below s') : b.Below s := by
  cases b with
  | inclusive v => exact h.trans hb
  | exclusive v => exact h.trans_lt hb

end ScoreBound

/-! ### The texts of bounds -/

/-- What a text stands for as a score; one that is no number stands for zero. -/
def Denotes (s : String) (x : S) : Prop :=
  Score.parse s = some x ∨ (Score.parse s : Option S) = none ∧ x = Score.zero

/-- The characters of a bound, without white space around them: an infinite one, an exclusive one
after a parenthesis, and else an inclusive one. -/
inductive ScoreBound.Spelled : ScoreBound S → String → Prop where
  | lowest : Spelled (inclusive Score.negInf) "-inf"
  | highest {s : String} (h : s = "inf" ∨ s = "+inf") : Spelled (inclusive Score.posInf) s
  | exclusive {s : String} {x : S} (h : Denotes s x) : Spelled (exclusive x) ("(" ++ s)
  | inclusive {s : String} {x : S} (h : Denotes s x) (hs : s ∉ ["-inf", "inf", "+inf"])
      (hopen : s.toList.head? ≠ some '(') : Spelled (inclusive x) s

/-- The text of a bound, with white space around it or without. -/
def SpelledBound (b : ScoreBound S) (arg : Bytes) : Prop :=
  ∃ before s after, b.Spelled s ∧ (fromUtf8Lossy arg).toList = before ++ s.toList ++ after ∧
    (∀ c ∈ before ++ after, isWhite c = true) ∧
    ∀ c, s.toList.head? = some c ∨ s.toList.getLast? = some c → isWhite c = false

theorem dropWhile_isWhite {l : List Char} (h : ∀ c, l.head? = some c → isWhite c = false) :
    l.dropWhile isWhite = l := by
  cases l with
  | nil => rfl
  | cons c l => exact List.dropWhile_cons_of_neg (Bool.eq_false_iff.mp (h c rfl))

theorem trimChars_padded {before body after : List Char}
    (hpad : ∀ c ∈ before ++ after, isWhite c = true)
    (hbody : ∀ c, body.head? = some c ∨ body.getLast? = some c → isWhite c = false) :
    trimChars (before ++ body ++ after) = body := by
  have hbefore : ∀ c ∈ before, isWhite c = true := fun c hc => hpad c (List.mem_append_left _ hc)
  have hafter : ∀ c ∈ after, isWhite c = true := fun c hc => hpad c (List.mem_append_right _ hc)
  unfold trimChars
  rw [List.append_assoc, List.dropWhile_append_of_pos hbefore]
  cases body with
  | nil =>
    rw [List.nil_append, List.dropWhile_eq_nil_iff.mpr hafter]
    rfl
  | cons c body =>
    have hfront : (c :: body ++ after).dropWhile isWhite = c :: body ++ after :=
      dropWhile_isWhite fun c' hc' => hbody c' (.inl hc')
    have hback : ((c :: body).reverse).dropWhile isWhite = (c :: body).reverse :=
      dropWhile_isWhite fun c' hc' => hbody c' (.inr (by rwa [List.head?_reverse] at hc'))
    rw [hfront, List.reverse_append, List.dropWhile_append_of_pos, hback, List.reverse_reverse]
    intro c' hc'
    exact hafter c' (List.mem_reverse.mp hc')

theorem Denotes.getD_eq {s : String} {x : S} (h : Denotes s x) :
    (Score.parse s).getD Score.zero = x := by
  rcases h with h | ⟨h, rfl⟩
  · rw [h, Option.getD_some]
  · rw [h, Option.getD_none]

/-- The text of a bound is read as that bound. -/
theorem parseScoreArg_of_spelledBound {b : ScoreBound S} {arg : Bytes} (h : SpelledBound b arg) :
    parseScoreArg arg = b := by
  obtain ⟨before, s, after, hs, harg, hpad, hends⟩ := h
  unfold parseScoreArg
  rw [harg, trimChars_padded hpad hends]
  cases hs with
  | lowest => exact if_pos rfl
  | highest h =>
    rcases h with rfl | rfl
    · exact (if_neg (by decide)).trans (if_pos (.inr rfl))
    · exact (if_neg (by decide)).trans (if_pos (.inl rfl))
  | @exclusive s x h =>
    have hopen : ("(" ++ s).toList = '(' :: s.toList := String.toList_append ..
    rw [hopen]
    refine (if_neg (by simp)).trans ((if_neg (by simp)).trans ?_)
    show ScoreBound.exclusive ((Score.parse (String.ofList s.toList)).getD Score.zero) = _
    rw [String.ofList_toList, h.getD_eq]
  | @inclusive s x h hs hopen =>
    simp only [List.mem_cons, List.not_mem_nil, or_false, not_or] at hs
    rw [if_neg fun he => hs.1 (String.toList_injective he),
      if_neg fun he => he.elim (fun he => hs.2.2 (String.toList_injective he))
        fun he => hs.2.1 (String.toList_injective he)]
    split
    · rename_i stripped hcons
      rw [hcons] at hopen
      exact absurd rfl hopen
    · rw [String.ofList_toList, h.getD_eq]

/-! ### Ranges -/

/-- The walk without the pairs on an exclusive lower bound. -/
theorem dropWhile_bound (z : SortedSet S) (min : ScoreBound S) :
    ((z.byScore.atLeast ⟨min.value, []⟩).map Prod.fst).dropWhile
        (fun p => !min.isInclusive && decide (p.score = min.value)) =
      z.byScore.keys.filter fun p => decide (min.Above p.score) := by
  rw [SortedSet.keys_atLeast_score, dropWhile_eq_filter, List.filter_filter]
  · apply List.filter_congr
    intro p _
    rw [Bool.eq_iff_iff, decide_eq_true_eq, ScoreBound.above_iff]
    cases min.isInclusive <;> simp [and_comm]
  · rw [List.pairwise_filter]
    apply z.pairwise_keys_byScore.imp
    intro a b hab ha _ hb
    have hle := ScoredMember.score_le_of_below hab
    simp only [Bool.and_eq_true, decide_eq_true_eq] at ha hb ⊢
    exact ⟨hb.1, le_antisymm (hle.trans_eq hb.2) ha⟩

theorem boundedRange_eq_filter (z : SortedSet S) (min max : ScoreBound S) :
    boundedRange z min max =
      z.byScore.keys.filter fun p => decide (min.Above p.score ∧ max.Below p.score) := by
  unfold boundedRange
  simp only [ScoreBound.decide_below]
  rw [dropWhile_bound, SortedSet.takeWhile_score (z.pairwise_keys_byScore.filter _),
    List.filter_filter]
  · apply List.filter_congr
    intro p _
    rw [Bool.decide_and, Bool.and_comm]
  · intro a b hab hb
    rw [decide_eq_true_eq] at hb ⊢
    exact ScoreBound.below_of_le hab hb

theorem lists_boundedRange {z : SortedSet S} (h : z.Coherent) (min max : ScoreBound S) :
    z.Lists (fun s => min.Above s ∧ max.Below s) (boundedRange z min max) := by
  rw [boundedRange_eq_filter]
  exact h.lists_filter

variable {e : Env} {d : Data S} {key min max : Bytes} {z : SortedSet S} {exp : Option Instant}

/-- The part of a list that `LIMIT offset count` leaves: the rest of it when the count is
negative. -/
def slice {α : Type} (offset : ℕ) (count : ℤ) (l : List α) : List α :=
  if count < 0 then l.drop offset else (l.drop offset).take count.toNat

/-- What the commands of a script do with a range of scores, its bounds given as texts. -/
structure ScriptRangeExact (e : Env) (d : Data S) (key : Bytes) (z : SortedSet S)
    (exp : Option Instant) (min max : Bytes) (l : List (ScoredMember S)) : Prop where
  listed : z.Lists (fun s => (parseScoreArg min).Above s ∧ (parseScoreArg max).Below s) l
  /-- whatever bounds the two texts spell -/
  spelled : ∀ lo hi, SpelledBound lo min → SpelledBound hi max →
    z.Lists (fun s => lo.Above s ∧ hi.Below s) l
  plain : zrangebyscore e [key, min, max] d = (d, bulks (l.flatMap (scored false)))
  withscores : zrangebyscore e [key, min, max, ascii "WITHSCORES"] d =
    (d, bulks (l.flatMap (scored true)))
  limited : ∀ (offset : ℕ) (count : ℤ), offset < 2 ^ 64 → InI64 count →
    zrangebyscore e [key, min, max, ascii "LIMIT", decimal offset, decimalInt count] d =
      (d, bulks ((slice offset count l).flatMap (scored false)))
  options : ∀ rest : List Bytes, zrangebyscore e (key :: min :: max :: rest) d =
    (d, bulks ((applyLimit (rangeOptions rest {}).limit l).flatMap
      (scored (rangeOptions rest {}).withscores)))
  zremrangebyscore : ∀ rest : List Bytes,
    (zremrangebyscore e (key :: min :: max :: rest) d).2 = integer l.length ∧
      HoldsMembers key exp (fun m s => z.byMember[m]? = some s ∧
        ¬ ((parseScoreArg min).Above s ∧ (parseScoreArg max).Below s)) d
        (zremrangebyscore e (key :: min :: max :: rest) d).1

theorem zrangebyscore_found (hl : live e.now d key = some ⟨.sortedSet z, exp⟩)
    (rest : List Bytes) :
    zrangebyscore e (key :: min :: max :: rest) d =
      (d, bulks ((applyLimit (rangeOptions rest {}).limit
        (boundedRange z (parseScoreArg min) (parseScoreArg max))).flatMap
          (scored (rangeOptions rest {}).withscores))) := by
  rw [zrangebyscore, readAs_found (t := Kind.sortedSet) hl, purge_of_live hl]

theorem rangeOptions_withscores (rest : List Bytes) (o : RangeOptions) :
    rangeOptions (ascii "WITHSCORES" :: rest) o =
      rangeOptions rest { o with withscores := true } := by
  have hscores : optionWord (ascii "WITHSCORES") = "WITHSCORES" := by decide
  -- `LIMIT` looks two arguments ahead, so the equation unfolds for rests of known shape only
  rcases rest with _ | ⟨a, _ | ⟨b, rest⟩⟩
  · exact if_pos hscores
  · exact if_pos hscores
  · exact if_pos hscores

theorem rangeOptions_limit (offset count : Bytes) (rest : List Bytes) (o : RangeOptions) :
    rangeOptions (ascii "LIMIT" :: offset :: count :: rest) o =
      rangeOptions rest
        { o with limit := some ((parseUsize offset).getD 0, (parseI64 count).getD (-1)) } := by
  have hlimit : optionWord (ascii "LIMIT") = "LIMIT" := by decide
  have hscores : optionWord (ascii "LIMIT") ≠ "WITHSCORES" := by decide
  exact (if_neg hscores).trans (if_pos hlimit)

theorem scriptRangeExact (hz : z.Coherent) (hl : live e.now d key = some ⟨.sortedSet z, exp⟩)
    (min max : Bytes) :
    ScriptRangeExact e d key z exp min max
      (boundedRange z (parseScoreArg min) (parseScoreArg max)) := by
  have hlist := lists_boundedRange hz (parseScoreArg min) (parseScoreArg max)
  refine ⟨hlist, ?_, zrangebyscore_found hl [], ?_, ?_, zrangebyscore_found hl, ?_⟩
  · intro lo hi hlo hhi
    obtain rfl := parseScoreArg_of_spelledBound hlo
    obtain rfl := parseScoreArg_of_spelledBound hhi
    exact hlist
  · rw [zrangebyscore_found hl, rangeOptions_withscores]
    rfl
  · intro offset count ho hc
    rw [zrangebyscore_found hl, rangeOptions_limit, parseUsize_decimal ho, parseI64_decimalInt hc]
    rfl
  · intro rest
    rw [← List.length_map ScoredMember.member]
    exact removeListed hz hlist hl rfl

end Script

/-- On a coherent sorted set every command by score selects the members whose scores lie within
its bounds, neither more nor fewer. -/
theorem score_ranges_exact {S : Type} [Score S] {e : Env} {d : Data S} {key : Bytes}
    {z : SortedSet S} {exp : Option Instant} (hz : z.Coherent)
    (hl : live e.now d key = some ⟨.sortedSet z, exp⟩) :
    (∀ min max : S, ∃ l, ScoreRangeExact e d key z exp min max l) ∧
      ∀ min max : Bytes, ∃ l, Script.ScriptRangeExact e d key z exp min max l :=
  ⟨fun min max => ⟨_, scoreRangeExact hz hl min max⟩,
    fun min max => ⟨_, Script.scriptRangeExact hz hl min max⟩⟩

/-- Two members of the same score, one of them the empty name, below a third. -/
def tiedScores : SortedSet ℤ := .insertAll .new [⟨1, ascii "a"⟩, ⟨2, ascii "b"⟩, ⟨1, []⟩]

def tiedScoresData : Data ℤ := (∅ : Data ℤ).insert (ascii "z") ⟨.sortedSet tiedScores, none⟩

/-- From 1 to 1 there are the two, and above 1 there is the third. -/
theorem tiedScores_exact :
    ScoreRangeExact ⟨0, 0, .byKey⟩ tiedScoresData (ascii "z") tiedScores none 1 1
        [⟨1, []⟩, ⟨1, ascii "a"⟩] ∧
      Script.ScriptRangeExact ⟨0, 0, .byKey⟩ tiedScoresData (ascii "z") tiedScores none
        (ascii "(1") (ascii " inf") [⟨2, ascii "b"⟩] := by
  have hz : tiedScores.Coherent := SortedSet.coherent_new.insertAll _
  have hl : live 0 tiedScoresData (ascii "z") = some ⟨.sortedSet tiedScores, none⟩ := by
    rw [tiedScoresData, live_insert, if_pos rfl]
    rfl
  obtain ⟨hnative, hscript⟩ := score_ranges_exact (e := ⟨0, 0, .byKey⟩) hz hl
  obtain ⟨l, h⟩ := hnative 1 1
  obtain ⟨l', h'⟩ := hscript (ascii "(1") (ascii " inf")
  have htwo : tiedScores.byScoreRange 1 1 = [⟨1, []⟩, ⟨1, ascii "a"⟩] := by decide +kernel
  have hone : Script.boundedRange tiedScores (.exclusive 1) (.inclusive Score.posInf) =
      [⟨2, ascii "b"⟩] := by decide +kernel
  have hlo : Script.SpelledBound (.exclusive (1 : ℤ)) (ascii "(1") :=
    ⟨[], "(1", [], .exclusive (s := "1") (.inl (by decide)), by decide +kernel, nofun,
      by rintro c (hc | hc) <;> · cases hc; rfl⟩
  have hhi : Script.SpelledBound (.inclusive (Score.posInf : ℤ)) (ascii " inf") :=
    ⟨[' '], "inf", [], .highest (.inl rfl), by decide +kernel,
      fun c hc => by rw [List.mem_singleton.mp hc]; rfl,
      by rintro c (hc | hc) <;> · cases hc; rfl⟩
  obtain rfl : l = [⟨1, []⟩, ⟨1, ascii "a"⟩] :=
    h.listed.unique (htwo ▸ hz.lists_byScoreRange 1 1)
  obtain rfl : l' = [⟨2, ascii "b"⟩] :=
    (h'.spelled _ _ hlo hhi).unique (hone ▸ Script.lists_boundedRange hz _ _)
  exact ⟨h, h'⟩

end BurnerRedis
