import BurnerRedis.Glob
import BurnerRedis.Lib.Wildcard

/-!
# What a glob pattern matches

`globTokens` reads a pattern from the left as tokens, each of them a star or a set of bytes.
`globMatch` reads the pattern while it matches, and again after each return to a star; it decides
the same as trying all words for all stars.
-/

namespace BurnerRedis

open Wildcard (Token Takes exhaustive)

/-! ## The tokens -/

/-- The byte is among the items of a class: ranges, and bytes that stand for themselves. -/
def inClass (c : UInt8) : Bytes → Bool
  | [] => false
  | [x] => c == x
  | [x, y] => c == x || c == y
  | x :: y :: z :: items =>
    if y = 45 then decide (x ≤ c) && decide (c ≤ z) || inClass c items
    else c == x || inClass c (y :: z :: items)

/-- The bytes before the next closing bracket. -/
def classBody (pat : Bytes) : Bytes := pat.takeWhile (· ≠ 93)

/-- The pattern after the next closing bracket. -/
def afterClass (pat : Bytes) : Bytes := (pat.dropWhile (· ≠ 93)).tail

/-- The class is negated. -/
def isNegated (pat : Bytes) : Bool := pat.head? == some 94 || pat.head? == some 33

/-- The class without the sign of its negation. -/
def classItemsOf (pat : Bytes) : Bytes := if isNegated pat then pat.tail else pat

theorem length_afterClass_le (pat : Bytes) : (afterClass (classItemsOf pat)).length ≤ pat.length := by
  have h : (classItemsOf pat).length ≤ pat.length := by
    unfold classItemsOf
    split_ifs
    · exact (List.tail_sublist pat).length_le
    · exact le_rfl
  exact (((List.tail_sublist _).trans (List.dropWhile_sublist _)).length_le).trans h

/-- The tokens of a pattern. -/
def globTokens : Bytes → List (Token UInt8)
  | [] => []
  | p :: rest =>
    if p = 42 then .star :: globTokens rest
    else if p = 63 then .one (fun _ => true) :: globTokens rest
    else if p = 92 then
      match rest with
      | [] => [.never]
      | q :: rest => .one (fun c => c == q) :: globTokens rest
    else if p = 91 then
      if 93 ∈ classItemsOf rest then
        .one (fun c => inClass c (classBody (classItemsOf rest)) != isNegated rest) ::
          globTokens (afterClass (classItemsOf rest))
      else [.never]
    else .one (fun c => c == p) :: globTokens rest
termination_by pat => pat.length
decreasing_by
  · exact Nat.lt_succ_self _
  · exact Nat.lt_succ_self _
  · simp
  · exact Nat.lt_succ_of_le (length_afterClass_le rest)
  · exact Nat.lt_succ_self _

theorem globTokens_nil : globTokens [] = [] := by
  rw [globTokens.eq_def]

theorem globTokens_star (rest : Bytes) : globTokens (42 :: rest) = .star :: globTokens rest := by
  rw [globTokens.eq_def]
  rfl

theorem globTokens_any (rest : Bytes) :
    globTokens (63 :: rest) = .one (fun _ => true) :: globTokens rest := by
  rw [globTokens.eq_def]
  rfl

theorem globTokens_trailing : globTokens [92] = [.never] := by
  rw [globTokens.eq_def]
  rfl

theorem globTokens_escape (q : UInt8) (rest : Bytes) :
    globTokens (92 :: q :: rest) = .one (fun c => c == q) :: globTokens rest := by
  rw [globTokens.eq_def]
  rfl

theorem globTokens_class {rest : Bytes} (h : 93 ∈ classItemsOf rest) :
    globTokens (91 :: rest) =
      .one (fun c => inClass c (classBody (classItemsOf rest)) != isNegated rest) ::
        globTokens (afterClass (classItemsOf rest)) := by
  rw [globTokens.eq_def]
  exact if_pos h

theorem globTokens_unterminated {rest : Bytes} (h : 93 ∉ classItemsOf rest) :
    globTokens (91 :: rest) = [.never] := by
  rw [globTokens.eq_def]
  exact if_neg h

theorem globTokens_byte {p : UInt8} (hstar : p ≠ 42) (hany : p ≠ 63) (hescape : p ≠ 92)
    (hclass : p ≠ 91) (rest : Bytes) :
    globTokens (p :: rest) = .one (fun c => c == p) :: globTokens rest := by
  rw [globTokens.eq_def]
  simp only [if_neg hstar, if_neg hany, if_neg hescape, if_neg hclass]

/-! ## Classes -/

section Classes

variable (c x : UInt8) (pat : Bytes)

@[simp] theorem classBody_nil : classBody [] = [] := rfl

theorem classBody_cons : classBody (x :: pat) = if x = 93 then [] else x :: classBody pat := by
  by_cases h : x = 93 <;> simp [classBody, h]

theorem afterClass_cons : afterClass (x :: pat) = if x = 93 then pat else afterClass pat := by
  by_cases h : x = 93 <;> simp [afterClass, h]

/-- The items that do not begin a range. -/
theorem inClass_cons (h : ∀ z items, pat ≠ 45 :: z :: items) :
    inClass c (x :: pat) = (c == x || inClass c pat) := by
  match pat with
  | [] => simp [inClass]
  | [_] => simp [inClass]
  | y :: z :: items =>
    have hy : y ≠ 45 := by
      rintro rfl
      exact h z items rfl
    rw [inClass, if_neg hy]

end Classes

theorem classItems_eq (c : UInt8) (found : Bool) (pat : Bytes) :
    classItems c found pat = (found || inClass c (classBody pat),
      if 93 ∈ pat then some (afterClass pat) else none) := by
  induction found, pat using classItems.induct c with
  | case1 found => simp [classItems, inClass]
  | case2 found => simp [classItems, classBody_cons, afterClass_cons, inClass]
  | case3 found x hx => simp [classItems, classBody_cons, inClass, hx, Ne.symm hx]
  | case4 found y => simp [classItems, classBody_cons, afterClass_cons, inClass]
  | case5 found x y hx ih =>
    rw [classItems, if_neg hx, ih]
    by_cases hy : y = 93 <;>
      simp [classBody_cons, afterClass_cons, inClass, hx, Ne.symm hx, hy, Bool.or_assoc]
  | case6 found y z rest => simp [classItems, classBody_cons, afterClass_cons, inClass]
  | case7 found x y z rest hx h ih =>
    -- a range; that its ends are in order follows for a byte between them
    obtain ⟨rfl, hz⟩ := h
    have hrange : (decide (x ≤ z) && decide (x ≤ c) && decide (c ≤ z)) =
        (decide (x ≤ c) && decide (c ≤ z)) := by
      rw [Bool.eq_iff_iff]
      simp only [Bool.and_eq_true, decide_eq_true_eq]
      exact ⟨fun h => ⟨h.1.2, h.2⟩, fun h => ⟨⟨UInt8.le_trans h.1 h.2, h.1⟩, h.2⟩⟩
    rw [classItems, if_neg hx, if_pos ⟨rfl, hz⟩, ih, hrange]
    simp [classBody_cons, afterClass_cons, inClass, hx, Ne.symm hx, hz, Ne.symm hz, Bool.or_assoc]
  | case8 found x y z rest hx h ih =>
    have hcons : inClass c (x :: classBody (y :: z :: rest)) =
        (c == x || inClass c (classBody (y :: z :: rest))) := by
      apply inClass_cons
      intro z' items heq
      -- a dash in the class is not followed by another byte of it
      rw [classBody_cons] at heq
      split_ifs at heq
      rw [List.cons.injEq, classBody_cons] at heq
      obtain ⟨rfl, heq⟩ := heq
      split_ifs at heq with hz
      exact h ⟨rfl, hz⟩
    rw [classItems, if_neg hx, if_neg h, ih, classBody_cons x, if_neg hx, afterClass_cons x,
      if_neg hx, hcons, Bool.or_assoc]
    simp [Ne.symm hx]

/-! ## One turn of the loop -/

theorem globStep_class (c : UInt8) (rest : Bytes) :
    globStep c (91 :: rest) =
      if 93 ∈ classItemsOf rest ∧
          (inClass c (classBody (classItemsOf rest)) != isNegated rest) = true then
        .take (afterClass (classItemsOf rest))
      else .mismatch := by
  have hneg : (rest.head? = some 94 ∨ rest.head? = some 33) ↔ isNegated rest = true := by
    rw [isNegated, Bool.or_eq_true, beq_iff_eq, beq_iff_eq]
  have hitems : (if rest.head? = some 94 ∨ rest.head? = some 33 then rest.tail else rest) =
      classItemsOf rest := by
    rw [classItemsOf]
    exact if_congr hneg rfl rfl
  simp only [globStep, hitems]
  rw [classItems_eq, Bool.false_or]
  by_cases h93 : 93 ∈ classItemsOf rest
  · simp only [h93, hneg]
    cases inClass c (classBody (classItemsOf rest)) <;> cases isNegated rest <;> simp
  · simp [h93]

/-- A byte that is taken is taken by the first token. -/
theorem globTokens_of_take {c : UInt8} {pat pat' : Bytes} (h : globStep c pat = .take pat') :
    ∃ accepts, globTokens pat = .one accepts :: globTokens pat' ∧ accepts c = true := by
  cases pat with
  | nil => cases h
  | cons p rest =>
    by_cases hclass : p = 91
    · subst hclass
      rw [globStep_class] at h
      split_ifs at h with hc
      cases h
      exact ⟨_, globTokens_class hc.1, hc.2⟩
    by_cases hescape : p = 92
    · subst hescape
      cases rest with
      | nil => cases h
      | cons q rest =>
        simp only [globStep, if_true] at h
        split_ifs at h with hq
        cases h
        exact ⟨_, globTokens_escape q _, beq_iff_eq.mpr hq⟩
    simp only [globStep, if_neg hclass, if_neg hescape] at h
    split_ifs at h with hstar hany hp
    · subst hany
      cases h
      exact ⟨_, globTokens_any _, rfl⟩
    · cases h
      exact ⟨_, globTokens_byte hstar hany hescape hclass _, beq_iff_eq.mpr hp.symm⟩

theorem exhaustive_dropWhile_star (rest w : Bytes) :
    exhaustive (.star :: globTokens (rest.dropWhile (· = 42))) w =
      exhaustive (.star :: globTokens rest) w := by
  induction rest with
  | nil => rfl
  | cons p rest ih =>
    by_cases hstar : p = 42
    · subst hstar
      rw [globTokens_star, Wildcard.exhaustive_star_star, ← ih]
      rfl
    · rw [List.dropWhile_cons_of_neg (by simpa using hstar)]

/-- A star stands for itself and for the stars that follow it. -/
theorem exhaustive_of_star {c : UInt8} {pat pat' : Bytes} (h : globStep c pat = .star pat')
    (w : Bytes) : exhaustive (globTokens pat) w = exhaustive (.star :: globTokens pat') w := by
  cases pat with
  | nil => cases h
  | cons p rest =>
    by_cases hclass : p = 91
    · subst hclass
      rw [globStep_class] at h
      split_ifs at h
    by_cases hescape : p = 92
    · subst hescape
      cases rest with
      | nil => cases h
      | cons q rest =>
        simp only [globStep, if_true] at h
        split_ifs at h
    simp only [globStep, if_neg hclass, if_neg hescape] at h
    split_ifs at h with hstar hany hp
    subst hstar
    cases h
    rw [globTokens_star, exhaustive_dropWhile_star]

/-- Nothing that begins with the byte matches after a mismatch. -/
theorem exhaustive_of_mismatch {c : UInt8} {pat : Bytes} (h : globStep c pat = .mismatch)
    (w : Bytes) : exhaustive (globTokens pat) (c :: w) = false := by
  cases pat with
  | nil =>
    rw [globTokens_nil]
    rfl
  | cons p rest =>
    by_cases hclass : p = 91
    · subst hclass
      rw [globStep_class] at h
      split_ifs at h with hc
      by_cases hend : 93 ∈ classItemsOf rest
      · rw [globTokens_class hend, Wildcard.exhaustive_one_cons]
        rw [not_and] at hc
        rw [Bool.eq_false_iff.mpr (hc hend), Bool.false_and]
      · rw [globTokens_unterminated hend, Wildcard.exhaustive_never]
    by_cases hescape : p = 92
    · subst hescape
      cases rest with
      | nil => rw [globTokens_trailing, Wildcard.exhaustive_never]
      | cons q rest =>
        simp only [globStep, if_true] at h
        split_ifs at h with hq
        rw [globTokens_escape, Wildcard.exhaustive_one_cons, beq_false_of_ne hq, Bool.false_and]
    simp only [globStep, if_neg hclass, if_neg hescape] at h
    split_ifs at h with hstar hany hp
    rw [globTokens_byte hstar hany hescape hclass, Wildcard.exhaustive_one_cons,
      beq_false_of_ne (Ne.symm hp), Bool.false_and]

/-! ## The loop -/

/-- What the loop decides: whether what is left matches, or the whole from the last star on. -/
def wanted (pat str : Bytes) : Option (Backtrack str) → Bool
  | none => exhaustive (globTokens pat) str
  | some b => exhaustive (.star :: globTokens b.pattern) b.string

/-- Since the last star, each token took one byte. -/
def Backtrack.Took {str : Bytes} (b : Backtrack str) (pat : Bytes) : Prop :=
  ∃ seg w, Takes seg w ∧ globTokens b.pattern = seg ++ globTokens pat ∧ b.string = w ++ str

theorem Backtrack.took_self (pat str : Bytes) : (⟨pat, str, le_rfl⟩ : Backtrack str).Took pat :=
  ⟨[], [], Takes.nil, rfl, rfl⟩

theorem Backtrack.Took.tail {c : UInt8} {str pat pat' : Bytes} {b : Backtrack (c :: str)}
    {accepts : UInt8 → Bool} (h : b.Took pat)
    (ht : globTokens pat = .one accepts :: globTokens pat') (hc : accepts c = true) :
    b.tail.Took pat' := by
  obtain ⟨seg, w, htakes, hpat, hstr⟩ := h
  refine ⟨seg ++ [.one accepts], w ++ [c], htakes.concat hc, ?_, ?_⟩
  · show globTokens b.pattern = _
    rw [hpat, ht, List.append_assoc]
    rfl
  · show b.string = _
    rw [hstr, List.append_assoc]
    rfl

theorem exhaustive_cons_nil {p : UInt8} (hstar : p ≠ 42) (rest : Bytes) :
    exhaustive (globTokens (p :: rest)) [] = false := by
  by_cases hclass : p = 91
  · subst hclass
    by_cases hend : 93 ∈ classItemsOf rest
    · rw [globTokens_class hend, Wildcard.exhaustive_one_nil]
    · rw [globTokens_unterminated hend, Wildcard.exhaustive_never]
  by_cases hescape : p = 92
  · subst hescape
    cases rest with
    | nil => rw [globTokens_trailing, Wildcard.exhaustive_never]
    | cons q rest => rw [globTokens_escape, Wildcard.exhaustive_one_nil]
  by_cases hany : p = 63
  · subst hany
    rw [globTokens_any, Wildcard.exhaustive_one_nil]
  rw [globTokens_byte hstar hany hescape hclass, Wildcard.exhaustive_one_nil]

/-- At the end of the string only stars may be left. -/
theorem isEmpty_dropWhile_star (pat : Bytes) :
    (pat.dropWhile (· = 42)).isEmpty = exhaustive (globTokens pat) [] := by
  induction pat with
  | nil =>
    rw [globTokens_nil]
    rfl
  | cons p rest ih =>
    by_cases hstar : p = 42
    · subst hstar
      rw [List.dropWhile_cons_of_pos (by simp), ih, globTokens_star]
      exact (Bool.or_false _).symm
    · rw [List.dropWhile_cons_of_neg (by simpa using hstar), exhaustive_cons_nil hstar]
      rfl

/-- A new star takes the place of the last one. -/
theorem wanted_of_star {c : UInt8} {pat pat' str : Bytes} (hstep : globStep c pat = .star pat')
    (star : Option (Backtrack (c :: str))) (h : ∀ b ∈ star, b.Took pat) :
    wanted pat (c :: str) star = exhaustive (.star :: globTokens pat') (c :: str) := by
  cases star with
  | none => exact exhaustive_of_star hstep (c :: str)
  | some b =>
    obtain ⟨seg, w, htakes, hpat, hstr⟩ := h b rfl
    have hcongr := Wildcard.exhaustive_append_congr (exhaustive_of_star hstep) (.star :: seg)
      (w ++ c :: str)
    rw [wanted, hpat, hstr]
    exact hcongr.trans (Wildcard.exhaustive_of_takes htakes)

/-- The loop decides what it looks for: one case for each way a turn can go. -/
theorem globLoop_eq_wanted (pat str : Bytes) (star : Option (Backtrack str))
    (h : ∀ b ∈ star, b.Took pat) : globLoop pat str star = wanted pat str star := by
  induction pat, str, star using globLoop.induct with
  | case1 pat star =>
    rw [globLoop_nil, isEmpty_dropWhile_star]
    cases star with
    | none => rfl
    | some b =>
      obtain ⟨seg, w, htakes, hpat, hstr⟩ := h b rfl
      rw [wanted, hpat, hstr, List.append_nil, Wildcard.exhaustive_of_end htakes]
  | case2 pat c str pat' hstep star ih =>
    obtain ⟨accepts, ht, hc⟩ := globTokens_of_take hstep
    rw [globLoop_take hstep]
    cases star with
    | none =>
      rw [wanted, ht, Wildcard.exhaustive_one_cons, hc, Bool.true_and]
      exact ih fun _ hb => nomatch hb
    | some b =>
      refine ih fun b' hb' => ?_
      cases hb'
      exact (h b rfl).tail ht hc
  | case3 pat c str pat' hstep hend star =>
    rw [globLoop_star hstep, if_pos hend, wanted_of_star hstep star h, List.isEmpty_iff.mp hend,
      globTokens_nil, Wildcard.exhaustive_star_nil]
  | case4 pat c str pat' hstep hend star ih =>
    rw [globLoop_star hstep, if_neg hend, wanted_of_star hstep star h]
    refine ih fun b hb => ?_
    cases hb
    exact Backtrack.took_self pat' (c :: str)
  | case5 pat c str hstep =>
    rw [globLoop_mismatch_none hstep, wanted, exhaustive_of_mismatch hstep]
  | case6 pat c str hstep b ih =>
    obtain ⟨seg, w, htakes, hpat, hstr⟩ := h b rfl
    have htail := Wildcard.exhaustive_of_mismatch htakes (by simp)
      (exhaustive_of_mismatch hstep str)
    rw [← hpat, ← hstr] at htail
    rw [globLoop_mismatch hstep, wanted, htail]
    refine ih fun b' hb' => ?_
    cases hb'
    exact Backtrack.took_self b.pattern b.string.tail

/-- `glob_match` decides the reference semantics. -/
theorem globMatch_eq_exhaustive (pattern string : Bytes) :
    globMatch pattern string = exhaustive (globTokens pattern) string :=
  globLoop_eq_wanted pattern string none fun _ h => nomatch h

end BurnerRedis
