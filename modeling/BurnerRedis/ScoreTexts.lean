import BurnerRedis.LiveValues
import BurnerRedis.ScoreRanges
import BurnerRedis.Script.Floats

/-!
# The text of a score

A script reads a score from ZRANGE and ZRANGEBYSCORE, which cast a whole number to 64 bits and print
that, and from ZSCORE, which prints the shortest decimal that is read as the score. Both texts
denote the whole number exactly when it fits 64 bits and no whole number that is read as it ends in
more zeros (`score_text_keeps_iff`).
-/

namespace BurnerRedis

open Pipeline (utf8)

/-! ## The text of a whole number -/

theorem isDigit_of_mem_decimal {n : ℕ} {b : UInt8} (h : b ∈ decimal n) : isDigit b = true := by
  have hdigit := digit_of_mem_decimal h
  simp [isDigit, hdigit.1, hdigit.2]

theorem decimalValue_decimal (n : ℕ) : decimalValue (decimal n) = some (n : ℚ) := by
  have htake : (decimal n).takeWhile isDigit = decimal n :=
    List.takeWhile_eq_self_iff.mpr fun b hb => isDigit_of_mem_decimal hb
  have hdrop : (decimal n).dropWhile isDigit = [] :=
    List.dropWhile_eq_nil_iff.mpr fun b hb => isDigit_of_mem_decimal hb
  unfold decimalValue
  rw [htake, hdrop]
  simp [splitFraction, parseNat_decimal]

theorem splitSign_decimal (n : ℕ) : splitSign (decimal n) = (false, decimal n) := by
  have hminus := head?_decimal_ne n (b := 45) (by decide)
  have hplus := head?_decimal_ne n (b := 43) (by decide)
  cases h : decimal n with
  | nil => rfl
  | cons b bs =>
    rw [h, List.head?_cons, ne_eq, Option.some_inj] at hminus hplus
    unfold splitSign
    split
    · next heq => exact absurd (List.cons.inj heq).1 hminus
    · next heq => exact absurd (List.cons.inj heq).1 hplus
    · rfl

/-- The digits of a number, with a sign or without. -/
def signedDecimal (negative : Bool) (n : ℕ) : Bytes :=
  (if negative then [45] else []) ++ decimal n

theorem decimalInt_eq (n : ℤ) : decimalInt n = signedDecimal (decide (n < 0)) n.natAbs := by
  unfold decimalInt signedDecimal
  by_cases h : n < 0 <;> simp [h]

theorem splitSign_signedDecimal (negative : Bool) (n : ℕ) :
    splitSign (signedDecimal negative n) = (negative, decimal n) := by
  cases negative with
  | true => rfl
  | false => exact splitSign_decimal n

theorem textValue_signedDecimal (negative : Bool) (n : ℕ) :
    textValue (signedDecimal negative n) = some (if negative then -(n : ℚ) else n) := by
  unfold textValue
  rw [splitSign_signedDecimal, decimalValue_decimal, Option.map_some]

theorem textValue_decimalInt (n : ℤ) : textValue (decimalInt n) = some (n : ℚ) := by
  rw [decimalInt_eq, textValue_signedDecimal]
  congr 1
  rcases lt_or_ge n 0 with h | h
  · have habs : (n.natAbs : ℚ) = -n := by
      rw [Nat.cast_natAbs, abs_of_neg h, Int.cast_neg]
    simp [h, habs]
  · have habs : (n.natAbs : ℚ) = n := by
      rw [Nat.cast_natAbs, abs_of_nonneg h]
    simp [not_lt.mpr h, habs]

/-! ## What is printed for a whole number -/

/-- No whole number that is read as `n` ends in more zeros. -/
def MostZeros (n : ℕ) : Prop :=
  ∀ k m : ℕ, 10 ^ k ∣ m → F64.ofRat m = .finite n → 10 ^ k ∣ n

theorem multiple_natCast {n k : ℕ} : Shortest.Multiple (n : ℚ) (10 ^ k) ↔ 10 ^ k ∣ n := by
  rw [← Int.natCast_dvd_natCast, dvd_iff_exists_eq_mul_left]
  push_cast
  exact exists_congr fun m => by exact_mod_cast Iff.rfl

theorem unit_eq (k : ℕ) : (10 : ℚ) ^ ((-1074 : ℤ) + (k + 1074 : ℕ)) = 10 ^ k := by
  have hexp : (-1074 : ℤ) + (k + 1074 : ℕ) = k := by omega
  rw [hexp, zpow_natCast]

/-- What is read as a number above zero is above zero. -/
theorem pos_of_reads {n : ℕ} {y : ℚ} (h : F64.ofRat y = .finite n) (hn : 0 < n) : 0 < y := by
  obtain ⟨hround, -⟩ := F64.ofRat_eq_finite_iff.mp h
  by_contra hy
  have hle : F64.rounded y ≤ 0 := by
    rw [← F64.rounded_zero]
    exact F64.rounded_mono (not_lt.mp hy)
  rw [hround] at hle
  exact absurd hn (by exact_mod_cast not_lt.mpr hle)

variable {n : ℕ}

/-- A whole number below the greatest float has at most 309 digits. -/
theorem eq_zero_of_dvd {k m : ℕ} (hk : 310 ≤ k) (hdvd : 10 ^ k ∣ m)
    (h : F64.ofRat m = .finite n) : m = 0 := by
  have hlt : m < 2 ^ 1024 := by exact_mod_cast F64.lt_of_ofRat h
  refine Nat.eq_zero_of_dvd_of_lt hdvd (hlt.trans_le ?_)
  calc 2 ^ 1024 ≤ 10 ^ 310 := by decide +kernel
    _ ≤ 10 ^ k := Nat.pow_le_pow_right (by norm_num) hk

theorem shortest_eq_self_iff (h : F64.ofRat n = .finite n) :
    shortest n = n ↔ MostZeros n := by
  unfold shortest
  rw [Shortest.search_eq_self_iff h (F64.ordConnected_ofRat n)]
  constructor
  · intro hmult k m hdvd hm
    by_cases hk : 310 ≤ k
    · obtain rfl := eq_zero_of_dvd hk hdvd hm
      have hn : ((0 : ℕ) : ℚ) = n := by
        simpa using (F64.ofRat_eq_finite_iff.mp hm).1
      rw [← Nat.cast_injective hn]
      exact dvd_zero _
    · have hmult := hmult (k + 1074) (by omega) m
      rw [unit_eq, multiple_natCast, multiple_natCast] at hmult
      exact hmult hdvd hm
  · intro hzeros i hi y hy hreads
    rcases lt_or_ge i 1074 with hlow | hhigh
    · -- a whole number is a multiple of the units below one
      refine Shortest.Multiple.of_le (j := 1074) ?_ hlow.le
      exact ⟨n, by norm_num⟩
    · obtain ⟨k, rfl⟩ : ∃ k, i = k + 1074 := ⟨i - 1074, by omega⟩
      rw [unit_eq] at hy ⊢
      rw [multiple_natCast]
      rcases Nat.eq_zero_or_pos n with rfl | hpos
      · exact dvd_zero _
      · obtain ⟨m, rfl⟩ := hy
        have hm : 0 < m := by
          have hy := pos_of_reads hreads hpos
          exact_mod_cast (mul_pos_iff_of_pos_right (by positivity)).mp hy
        lift m to ℕ using hm.le
        refine hzeros k (m * 10 ^ k) (dvd_mul_left _ _) ?_
        push_cast
        exact_mod_cast hreads

/-- The shortest decimal of a whole number is a whole number. -/
theorem exists_shortest_eq (h : F64.ofRat n = .finite n) :
    ∃ m : ℕ, shortest n = m ∧ F64.ofRat m = .finite n := by
  have hone : (10 : ℚ) ^ ((-1074 : ℤ) + (1074 : ℕ)) = 1 := unit_eq 0
  obtain ⟨m, hm⟩ : Shortest.Multiple (shortest n) 1 := by
    rw [← hone]
    exact Shortest.search_multiple h (by norm_num) ⟨n, by norm_num⟩
  have hnonneg : 0 ≤ shortest n := Shortest.search_nonneg (Nat.cast_nonneg n) _
  rw [mul_one] at hm
  rw [hm] at hnonneg
  lift m to ℕ using by exact_mod_cast hnonneg
  refine ⟨m, by exact_mod_cast hm, ?_⟩
  have hreads : F64.ofRat (shortest n) = .finite n :=
    Shortest.reads_search (fun x => F64.ofRat x = .finite n) h 1384
  rw [hm] at hreads
  exact_mod_cast hreads

/-- Below `2 ^ 53` every whole number is read as itself. -/
theorem mostZeros_of_lt (h : n < 2 ^ 53) : MostZeros n := by
  intro k m hdvd hm
  obtain ⟨hround, -⟩ := F64.ofRat_eq_finite_iff.mp hm
  rcases le_or_gt m (2 ^ 53) with hle | hgt
  · rw [F64.rounded_natCast hle] at hround
    rwa [← Nat.cast_injective hround]
  · have hbig : (2 : ℚ) ^ 53 ≤ n := by
      rw [← hround, ← F64.rounded_two_pow (by norm_num : 52 ≤ 53)]
      exact F64.rounded_mono (by exact_mod_cast hgt.le)
    exact absurd h (not_lt.mpr (by exact_mod_cast hbig))

/-! ## What the two formatters print -/

/-- A whole number cut off at the bounds of 64 bits. -/
def clampI64 (n : ℤ) : ℤ := max (-2 ^ 63) (min n (2 ^ 63 - 1))

theorem clampI64_eq_iff {n : ℤ} : clampI64 n = n ↔ InI64 n := by
  unfold clampI64 InI64
  omega

theorem format_intCast (n : ℤ) : Score.format (F64.finite n) = decimalInt (clampI64 n) := by
  have hcast : F64.toI64 (.finite n) = clampI64 n := by
    unfold F64.toI64 clampI64
    dsimp only
    rw [Int.floor_intCast, Int.ceil_intCast, ite_self]
  show formatRedisScore (.finite n) = _
  unfold formatRedisScore
  dsimp only
  rw [if_pos (Int.fract_intCast n), hcast]

theorem decimalFraction_natCast (m : ℕ) : decimalFraction m = decimal m := by
  unfold decimalFraction
  rw [if_pos (Int.fract_natCast m), List.append_nil, Nat.floor_natCast]

theorem abs_eq_natAbs (n : ℤ) : |(n : ℚ)| = (n.natAbs : ℚ) := by
  rw [Nat.cast_natAbs, Int.cast_abs]

/-- A double holds the absolute value of what it holds. -/
theorem ofRat_natAbs {n : ℤ} (h : F64.ofRat n = .finite n) :
    F64.ofRat (n.natAbs : ℚ) = .finite n.natAbs := by
  rw [← abs_eq_natAbs]
  rcases abs_choice (n : ℚ) with habs | habs
  · rw [habs]
    exact h
  · rw [habs]
    exact F64.ofRat_neg_eq_finite_iff.mpr h

theorem exists_display_eq {n : ℤ} (h : F64.ofRat n = .finite n) :
    ∃ m : ℕ, Score.display (F64.finite n) = signedDecimal (decide (n < 0)) m ∧
      F64.ofRat m = .finite n.natAbs ∧ (m = n.natAbs ↔ MostZeros n.natAbs) := by
  have hnat := ofRat_natAbs h
  obtain ⟨m, hm, hreads⟩ := exists_shortest_eq hnat
  refine ⟨m, ?_, hreads, ?_⟩
  · show F64.display (.finite n) = _
    unfold F64.display signedDecimal
    dsimp only
    rw [abs_eq_natAbs, hm, decimalFraction_natCast]
    simp
  · rw [← shortest_eq_self_iff hnat, hm]
    exact Nat.cast_inj.symm

/-! ## Reading it back -/

theorem ascii_of_mem_signedDecimal {negative : Bool} {m : ℕ} {b : UInt8}
    (h : b ∈ signedDecimal negative m) : b < 128 := by
  rcases List.mem_append.mp h with h | h
  · cases negative with
    | true =>
      rw [List.mem_singleton.mp h]
      decide
    | false => cases h
  · exact UInt8.lt_of_le_of_lt (digit_of_mem_decimal h).2 (by decide)

/-- The text of a whole number that is read as `n` is read as `n`. -/
theorem scoreArg_signedDecimal {n : ℤ} {m : ℕ} (hm : F64.ofRat m = .finite n.natAbs) :
    Script.scoreArg (signedDecimal (decide (n < 0)) m) = some (F64.finite n) := by
  have hbytes : utf8 (fromUtf8Lossy (signedDecimal (decide (n < 0)) m)) =
      signedDecimal (decide (n < 0)) m :=
    utf8_fromUtf8Lossy fun b hb => ascii_of_mem_signedDecimal hb
  show parseF64 (utf8 (fromUtf8Lossy (signedDecimal (decide (n < 0)) m))) = _
  rw [hbytes, parseF64, textValue_signedDecimal]
  dsimp only
  congr 1
  rw [← abs_eq_natAbs] at hm
  by_cases hn : n < 0
  · have hneg : (n : ℚ) < 0 := by exact_mod_cast hn
    rw [abs_of_neg hneg] at hm
    simpa [hn] using F64.ofRat_neg_eq_finite_iff.mpr hm
  · have hpos : (0 : ℚ) ≤ n := by exact_mod_cast not_lt.mp hn
    rw [abs_of_nonneg hpos] at hm
    simpa [hn] using hm

/-! ## What the commands print -/

namespace Script

/-- In a reply of members and scores the text stands with the member. -/
def PrintsFor (r : Reply) (member text : Bytes) : Prop :=
  ∃ before after, before.length % 2 = 0 ∧ r = bulks (before ++ member :: text :: after)

section Printed

variable {S : Type} [Score S] {ps : List (ScoredMember S)} {e : Env} {d : Data S}
  {key member text : Bytes} {z : SortedSet S} {exp : Option Instant}

theorem bulks_inj {l l' : List Bytes} : bulks l = bulks l' ↔ l = l' := by
  unfold bulks
  rw [Except.ok.injEq, RedisValue.array.injEq, List.map_inj_right]
  intro a b h
  exact RedisValue.bulkString.inj h

theorem printsFor_scored :
    PrintsFor (bulks (ps.flatMap (scored true))) member text ↔
      ∃ p ∈ ps, p.member = member ∧ Score.format p.score = text := by
  unfold PrintsFor
  simp only [bulks_inj]
  constructor
  · rintro ⟨before, after, heven, h⟩
    induction ps generalizing before with
    | nil => simp at h
    | cons p ps ih =>
      rw [List.flatMap_cons] at h
      match before with
      | [] =>
        have hcons := List.cons.inj h
        exact ⟨p, List.mem_cons_self, hcons.1, (List.cons.inj hcons.2).1⟩
      | [_] => simp at heven
      | _ :: _ :: before =>
        have htail := (List.cons.inj (List.cons.inj h).2).2
        have heven' : before.length % 2 = 0 := by
          rw [List.length_cons, List.length_cons] at heven
          omega
        obtain ⟨q, hq, heq⟩ := ih before heven' htail
        exact ⟨q, List.mem_cons_of_mem p hq, heq⟩
  · rintro ⟨p, hp, rfl, rfl⟩
    obtain ⟨before, after, rfl⟩ := List.append_of_mem hp
    refine ⟨before.flatMap (scored true), after.flatMap (scored true), ?_, ?_⟩
    · rw [List.length_flatMap]
      have : ∀ q : ScoredMember S, (scored true q).length = 2 := fun _ => rfl
      simp [this]
    · rw [List.flatMap_append, List.flatMap_cons]
      rfl

/-- What a script may be given as the score of a member. -/
inductive Printed (e : Env) (d : Data S) (key member : Bytes) : Bytes → Prop where
  | zrange {start stop : Bytes} {rest : List Bytes} {text : Bytes}
      (hw : (rest.any fun arg => optionWord arg = "WITHSCORES") = true)
      (h : PrintsFor (zrange e (key :: start :: stop :: rest) d).2 member text) :
      Printed e d key member text
  | zrangebyscore {min max : Bytes} {rest : List Bytes} {text : Bytes}
      (hw : (rangeOptions rest {}).withscores = true)
      (h : PrintsFor (zrangebyscore e (key :: min :: max :: rest) d).2 member text) :
      Printed e d key member text
  | zscore {text : Bytes} (h : (zscore e [key, member] d).2 = bulk text) :
      Printed e d key member text

theorem mem_of_mem_applyLimit {α : Type} {limit : Option (ℕ × ℤ)} {l : List α} {a : α}
    (h : a ∈ applyLimit limit l) : a ∈ l := by
  unfold applyLimit at h
  split at h
  · exact h
  · split_ifs at h
    · exact List.mem_of_mem_drop h
    · exact List.mem_of_mem_drop (List.mem_of_mem_take h)

/-- ZRANGE of a sorted set lists some of its pairs, or fails. -/
theorem zrange_found (hl : live e.now d key = some ⟨.sortedSet z, exp⟩) (start stop : Bytes)
    {rest : List Bytes} (hw : (rest.any fun arg => optionWord arg = "WITHSCORES") = true) :
    (zrange e (key :: start :: stop :: rest) d).2 = .error notInteger ∨
      ∃ ps : List (ScoredMember S), (∀ p ∈ ps, p ∈ z.byScore) ∧
        (zrange e (key :: start :: stop :: rest) d).2 = bulks (ps.flatMap (scored true)) := by
  unfold zrange
  dsimp only
  split
  · right
    rw [readAs_found (t := Kind.sortedSet) hl]
    dsimp only
    split
    · exact ⟨[], nofun, rfl⟩
    · rw [hw]
      refine ⟨_, fun p hp => ?_, rfl⟩
      exact Std.ExtTreeMap.mem_keys.mp (List.mem_of_mem_drop (List.mem_of_mem_take hp))
  · exact .inl rfl

/-- `ZRANGE key 0 -1 WITHSCORES` lists all pairs. -/
theorem zrange_whole (hz : z.Coherent) (hl : live e.now d key = some ⟨.sortedSet z, exp⟩) :
    (zrange e [key, ascii "0", ascii "-1", ascii "WITHSCORES"] d).2 =
      bulks (z.byScore.keys.flatMap (scored true)) := by
  have hstart : parseI64 (ascii "0") = some 0 := by decide
  have hstop : parseI64 (ascii "-1") = some (-1) := by decide
  have hw : ([ascii "WITHSCORES"].any fun arg => optionWord arg = "WITHSCORES") = true := by decide
  have hlen := hz.length_keys
  unfold zrange
  dsimp only
  rw [hstart, hstop]
  dsimp only
  rw [readAs_found (t := Kind.sortedSet) hl]
  dsimp only
  rw [Store.zrangeWindow_all, hw]
  split_ifs with h
  · rw [h, List.length_eq_zero_iff] at hlen
    rw [hlen]
    rfl
  · dsimp only
    rw [List.drop_zero, List.take_of_length_le hlen.le]

/-- The text printed for a member is one of its score by either formatter. -/
theorem printed_iff (hz : z.Coherent) (hl : live e.now d key = some ⟨.sortedSet z, exp⟩) {s : S}
    (hs : z.byMember[member]? = some s) :
    Printed e d key member text ↔ text = Score.format s ∨ text = Score.display s := by
  have hscore : (zscore e [key, member] d).2 = bulk (Score.display s) := by
    rw [zscore, readAs_found (t := Kind.sortedSet) hl, hs]
    rfl
  have hpair : ∀ ps : List (ScoredMember S), (∀ p ∈ ps, p ∈ z.byScore) →
      PrintsFor (bulks (ps.flatMap (scored true))) member text → text = Score.format s := by
    intro ps hps h
    obtain ⟨p, hp, rfl, rfl⟩ := printsFor_scored.mp h
    have hp' : z.byMember[p.member]? = some p.score := (hz p.score p.member).mp (hps p hp)
    rw [Option.some.inj (hs.symm.trans hp')]
  constructor
  · intro h
    cases h with
    | @zrange start stop _ _ hw h =>
      rcases zrange_found hl start stop hw with hr | ⟨ps, hps, hr⟩
      · obtain ⟨before, after, -, heq⟩ := h
        exact absurd (hr.symm.trans heq) nofun
      · rw [hr] at h
        exact .inl (hpair ps hps h)
    | zrangebyscore hw h =>
      rw [zrangebyscore_found hl, hw] at h
      refine .inl (hpair _ (fun p hp => ?_) h)
      have hmem := mem_of_mem_applyLimit hp
      rw [boundedRange_eq_filter, List.mem_filter, Std.ExtTreeMap.mem_keys] at hmem
      exact hmem.1
    | zscore h =>
      rw [hscore] at h
      exact .inr (RedisValue.bulkString.inj (Except.ok.inj h)).symm
  · rintro (rfl | rfl)
    · have hmem : ⟨s, member⟩ ∈ z.byScore := (hz s member).mpr hs
      have hprints : PrintsFor (bulks (z.byScore.keys.flatMap (scored true))) member
          (Score.format s) :=
        printsFor_scored.mpr ⟨⟨s, member⟩, Std.ExtTreeMap.mem_keys.mpr hmem, rfl, rfl⟩
      rw [← zrange_whole hz hl] at hprints
      exact .zrange (by decide) hprints
    · exact .zscore hscore

end Printed

end Script

/-! ## What keeps its number -/

/-- The texts printed for the member denote the number, are the same, and ZADD with one of them
gives a member that score. -/
structure KeepsNumber (e : Env) (d : Data F64) (key member : Bytes) (n : ℤ) : Prop where
  denotes : ∀ text, Script.Printed e d key member text → textValue text = some (n : ℚ)
  agree : ∀ text text', Script.Printed e d key member text →
    Script.Printed e d key member text' → text = text'
  restores : ∀ text, Script.Printed e d key member text → ∀ m,
    liveScore e.now (Script.zadd e [key, text, m] d).1 key m = some (.finite n)

section Keeps

variable {e : Env} {d : Data F64} {key member text : Bytes} {z : SortedSet F64}
  {exp : Option Instant}

theorem liveScore_zadd (hl : live e.now d key = some ⟨.sortedSet z, exp⟩) {x : F64}
    (h : Script.scoreArg text = some x) (m : Bytes) :
    liveScore e.now (Script.zadd e [key, text, m] d).1 key m = some x := by
  have hpairs : (Script.zaddPairs (Script.pairUp [text, m]) z 0).1 = (z.insert m x).1 := by
    rw [Script.pairUp, Script.zaddPairs, h]
    rfl
  have hrun : (Script.zadd e [key, text, m] d).1 =
      d.insert key ⟨.sortedSet (z.insert m x).1, exp⟩ := by
    unfold Script.zadd
    dsimp only
    rw [if_neg (by simp), upsertAs_found (t := Kind.sortedSet) hl, hpairs]
    rfl
  have hlive : liveAs Kind.sortedSet e.now (d.insert key ⟨.sortedSet (z.insert m x).1, exp⟩) key =
      some (z.insert m x).1 := liveAs_insert (t := Kind.sortedSet) hl _
  rw [liveScore, hrun, hlive, Option.bind_some, SortedSet.byMember_insert,
    FinMap.getElem?_insert', if_pos rfl]

theorem keepsNumber_iff (hz : z.Coherent) (hl : live e.now d key = some ⟨.sortedSet z, exp⟩)
    {n : ℤ} (hs : z.byMember[member]? = some (.finite n)) (hn : F64.ofRat n = .finite n) :
    KeepsNumber e d key member n ↔ InI64 n ∧ MostZeros n.natAbs := by
  obtain ⟨m, hdisplay, hm, hzeros⟩ := exists_display_eq hn
  have hprinted : ∀ text, Script.Printed e d key member text ↔
      text = decimalInt (clampI64 n) ∨ text = signedDecimal (decide (n < 0)) m := by
    intro text
    rw [Script.printed_iff hz hl hs, format_intCast, hdisplay]
  rw [← hzeros, ← clampI64_eq_iff]
  constructor
  · intro h
    have hformat := h.denotes _ ((hprinted _).mpr (.inl rfl))
    have hshort := h.denotes _ ((hprinted _).mpr (.inr rfl))
    rw [textValue_decimalInt, Option.some_inj, Int.cast_inj] at hformat
    rw [textValue_signedDecimal, Option.some_inj] at hshort
    refine ⟨hformat, ?_⟩
    by_cases hneg : n < 0
    · rw [if_pos (decide_eq_true hneg)] at hshort
      have hint : -(m : ℤ) = n := by exact_mod_cast hshort
      omega
    · rw [if_neg (by simpa using hneg)] at hshort
      have hint : (m : ℤ) = n := by exact_mod_cast hshort
      omega
  · rintro ⟨hclamp, rfl⟩
    rw [hclamp, ← decimalInt_eq] at hprinted
    have htext : ∀ text, Script.Printed e d key member text → text = decimalInt n := by
      intro text h
      simpa using (hprinted text).mp h
    refine ⟨?_, ?_, ?_⟩
    · intro text h
      rw [htext text h]
      exact textValue_decimalInt n
    · intro text text' h h'
      rw [htext text h, htext text' h']
    · intro text h m
      rw [htext text h]
      apply liveScore_zadd hl
      rw [decimalInt_eq]
      exact scoreArg_signedDecimal hm

end Keeps

/-- The texts of a whole score keep its number exactly when it fits 64 bits and no whole number that
is read as it ends in more zeros. -/
theorem score_text_keeps_iff {e : Env} {d : Data F64} {key member : Bytes} {z : SortedSet F64}
    {exp : Option Instant} (hz : z.Coherent)
    (hl : live e.now d key = some ⟨.sortedSet z, exp⟩) {n : ℤ}
    (hs : z.byMember[member]? = some (.finite n)) (hn : F64.ofRat n = .finite n) :
    KeepsNumber e d key member n ↔ InI64 n ∧ MostZeros n.natAbs :=
  keepsNumber_iff hz hl hs hn

/-- A sorted set of one member. -/
def oneFloat (x : F64) : SortedSet F64 := (SortedSet.new.insert (ascii "a") x).1

def oneFloatData (x : F64) : Data F64 :=
  (∅ : Data F64).insert (ascii "z") ⟨.sortedSet (oneFloat x), none⟩

theorem coherent_oneFloat (x : F64) : (oneFloat x).Coherent := SortedSet.coherent_new.insert _ _

theorem live_oneFloatData (x : F64) :
    live 0 (oneFloatData x) (ascii "z") = some ⟨.sortedSet (oneFloat x), none⟩ := by
  rw [oneFloatData, live_insert, if_pos rfl]
  rfl

theorem byMember_oneFloat (x : F64) : (oneFloat x).byMember[ascii "a"]? = some x := by
  rw [oneFloat, SortedSet.byMember_insert, FinMap.getElem?_insert', if_pos rfl]

theorem ofRat_eq_self {n : ℤ} (h : F64.rounded n = n) (hle : |(n : ℚ)| ≤ 2 ^ 63) :
    F64.ofRat n = .finite n := by
  refine F64.ofRat_eq_finite_iff.mpr ⟨h, hle.trans_lt ?_⟩
  exact pow_lt_pow_right₀ (by norm_num) (by norm_num)

theorem three_keeps : KeepsNumber ⟨0, 0, .byKey⟩ (oneFloatData (.finite (3 : ℤ))) (ascii "z")
    (ascii "a") 3 := by
  have hthree : F64.ofRat (3 : ℤ) = .finite (3 : ℤ) := by
    refine ofRat_eq_self ?_ (by norm_num)
    exact_mod_cast F64.rounded_natCast (n := 3) (by norm_num)
  exact (score_text_keeps_iff (e := ⟨0, 0, .byKey⟩) (coherent_oneFloat _) (live_oneFloatData _)
    (byMember_oneFloat _) hthree).mpr ⟨by decide, mostZeros_of_lt (by norm_num)⟩

/-- The score `2 ^ 63` is printed as the number below it. -/
theorem two_pow_63_not_kept : F64.ofRat (2 ^ 63 : ℤ) = .finite (2 ^ 63 : ℤ) ∧
    ¬ KeepsNumber ⟨0, 0, .byKey⟩ (oneFloatData (.finite (2 ^ 63 : ℤ))) (ascii "z") (ascii "a")
      (2 ^ 63) := by
  have hpow : F64.ofRat (2 ^ 63 : ℤ) = .finite (2 ^ 63 : ℤ) := by
    refine ofRat_eq_self ?_ (by norm_num)
    exact_mod_cast F64.rounded_two_pow (by norm_num : 52 ≤ 63)
  refine ⟨hpow, ?_⟩
  rw [keepsNumber_iff (e := ⟨0, 0, .byKey⟩) (coherent_oneFloat _) (live_oneFloatData _)
    (byMember_oneFloat _) hpow]
  rintro ⟨hfits, -⟩
  exact absurd hfits (by decide)

end BurnerRedis
