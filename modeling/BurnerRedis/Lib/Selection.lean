import Mathlib

/-!
# Selections from lists

What a selection from a list comes to: an ordered selection is known by its elements, a limit put
before a selection is told from one put after it, and a selection may change places with a sort.
-/

/-- Two ordered lists with the same elements are equal. -/
theorem eq_of_pairwise_of_mem_iff {α : Type} {r : α → α → Prop} (hr : ∀ a b, r a b → ¬ r b a)
    {l l' : List α} (h : l.Pairwise r) (h' : l'.Pairwise r) (hmem : ∀ x, x ∈ l ↔ x ∈ l') :
    l = l' := by
  have hne : ∀ a b, r a b → a ≠ b := by
    intro a b hab heq
    rw [heq] at hab
    exact hr b b hab hab
  have hperm : l.Perm l' :=
    (List.perm_ext_iff_of_nodup (h.imp (hne _ _)) (h'.imp (hne _ _))).mpr hmem
  apply hperm.eq_of_pairwise _ h h'
  intro a b _ _ hab hba
  exact absurd hba (hr a b hab)

/-- Selecting after a limit gives the same as selecting before it exactly when the limit keeps only
what is selected, or drops nothing that is. -/
theorem filterMap_take_eq_iff {α β : Type} (f : α → Option β) (n : ℕ) (l : List α) :
    (l.take n).filterMap f = (l.filterMap f).take n ↔
      (∀ x ∈ l.take n, (f x).isSome = true) ∨ ∀ x ∈ l.drop n, f x = none := by
  have hsplit : (l.take n).filterMap f ++ (l.drop n).filterMap f = l.filterMap f := by
    rw [← List.filterMap_append, List.take_append_drop]
  have hle : ((l.take n).filterMap f).length ≤ (l.take n).length := List.length_filterMap_le f _
  have hlen := List.length_take (l := l) (i := n)
  have hkeep : ((l.take n).filterMap f).take n = (l.take n).filterMap f :=
    List.take_of_length_le (by omega)
  rw [← hsplit, List.take_append, hkeep, List.self_eq_append_right, List.take_eq_nil_iff,
    List.filterMap_eq_nil_iff]
  constructor
  · rintro (hn | hdrop)
    · left
      exact List.filterMap_length_eq_length.mp (by omega)
    · exact .inr hdrop
  · rintro (hall | hdrop)
    · rw [← List.filterMap_length_eq_length] at hall
      by_cases hshort : l.length ≤ n
      · right
        rw [List.drop_of_length_le hshort]
        intro x hx
        cases hx
      · left
        omega
    · exact .inr hdrop

/-- A test that only a prefix of the list passes keeps that prefix. -/
theorem takeWhile_eq_filter {α : Type} {p : α → Bool} {l : List α}
    (h : l.Pairwise fun a b => p b = true → p a = true) : l.takeWhile p = l.filter p := by
  induction l with
  | nil => rfl
  | cons a l ih =>
    obtain ⟨ha, hl⟩ := List.pairwise_cons.mp h
    by_cases hp : p a = true
    · rw [List.takeWhile_cons_of_pos hp, List.filter_cons_of_pos hp, ih hl]
    · rw [List.takeWhile_cons_of_neg hp, List.filter_cons_of_neg hp]
      symm
      rw [List.filter_eq_nil_iff]
      intro b hb hpb
      exact hp (ha b hb hpb)

/-- Without that prefix there is left what does not pass. -/
theorem dropWhile_eq_filter {α : Type} {p : α → Bool} {l : List α}
    (h : l.Pairwise fun a b => p b = true → p a = true) :
    l.dropWhile p = l.filter fun a => !p a := by
  induction l with
  | nil => rfl
  | cons a l ih =>
    obtain ⟨ha, hl⟩ := List.pairwise_cons.mp h
    by_cases hp : p a = true
    · rw [List.dropWhile_cons_of_pos hp, List.filter_cons_of_neg (by simp [hp]), ih hl]
    · rw [List.dropWhile_cons_of_neg hp]
      symm
      rw [List.filter_eq_self]
      intro b hb
      rw [Bool.not_eq_true', Bool.eq_false_iff]
      intro hpb
      rcases List.mem_cons.mp hb with rfl | hb
      · exact hp hpb
      · exact hp (ha b hb hpb)

/-- Of pairs with distinct keys one is selected by its key. -/
theorem filter_fst_eq_singleton {α β : Type} [DecidableEq α] {l : List (α × β)}
    (h : (l.map Prod.fst).Nodup) {p : α × β} (hp : p ∈ l) :
    (l.filter fun q => decide (q.1 = p.1)) = [p] := by
  induction l with
  | nil => cases hp
  | cons q l ih =>
    rw [List.map_cons, List.nodup_cons] at h
    obtain ⟨hq, hl⟩ := h
    rcases List.mem_cons.mp hp with rfl | hp
    · rw [List.filter_cons_of_pos (by simp), List.cons.injEq, List.filter_eq_nil_iff]
      refine ⟨rfl, fun r hr hkey => ?_⟩
      rw [decide_eq_true_eq] at hkey
      exact hq (hkey ▸ List.mem_map_of_mem hr)
    · have hne : q.1 ≠ p.1 := fun hkey => hq (hkey ▸ List.mem_map_of_mem hp)
      rw [List.filter_cons_of_neg (by simpa using hne), ih hl hp]

theorem flatMap_filter_eq {α β : Type} (p : α → Bool) (f : α → List β) (l : List α) :
    (l.filter p).flatMap f = l.flatMap fun a => if p a then f a else [] := by
  induction l with
  | nil => rfl
  | cons a l ih =>
    by_cases hp : p a
    · rw [List.filter_cons_of_pos hp, List.flatMap_cons, List.flatMap_cons, if_pos hp, ih]
    · rw [List.filter_cons_of_neg hp, List.flatMap_cons, if_neg hp, List.nil_append, ih]

/-! ## Sorted lists -/

section Sorted

variable {α : Type} {r : α → α → Prop} [DecidableRel r]

/-- A selection from a list into which an element is put in order. -/
theorem filter_orderedInsert [IsTrans α r] (p : α → Bool) (a : α) {l : List α}
    (h : l.Pairwise r) :
    (l.orderedInsert r a).filter p =
      if p a then (l.filter p).orderedInsert r a else l.filter p := by
  induction l with
  | nil => by_cases hp : p a <;> simp [hp]
  | cons b l ih =>
    obtain ⟨hb, hl⟩ := List.pairwise_cons.mp h
    by_cases hab : r a b
    · have hall : ∀ x ∈ (b :: l).filter p, r a x := by
        intro x hx
        rcases List.mem_cons.mp (List.mem_of_mem_filter hx) with rfl | hx
        · exact hab
        · exact trans_of r hab (hb x hx)
      have hinsert : ((b :: l).filter p).orderedInsert r a = a :: (b :: l).filter p := by
        cases hf : (b :: l).filter p with
        | nil => rfl
        | cons c rest =>
          rw [hf] at hall
          exact List.orderedInsert_cons_of_le r rest (hall c List.mem_cons_self)
      rw [List.orderedInsert_cons_of_le r l hab, List.filter_cons, hinsert]
    · rw [List.orderedInsert_of_not_le r l hab]
      by_cases hpb : p b
      · rw [List.filter_cons_of_pos hpb, List.filter_cons_of_pos hpb, ih hl]
        split_ifs
        · rw [List.orderedInsert_of_not_le r _ hab]
        · rfl
      · rw [List.filter_cons_of_neg hpb, List.filter_cons_of_neg hpb, ih hl]

/-- Sorting is stable, so that a selection may be made before it or after it. -/
theorem filter_insertionSort [IsTrans α r] [Std.Total r] (p : α → Bool) (l : List α) :
    (l.insertionSort r).filter p = (l.filter p).insertionSort r := by
  induction l with
  | nil => rfl
  | cons a l ih =>
    rw [List.insertionSort_cons, filter_orderedInsert p a (List.pairwise_insertionSort r l), ih]
    split_ifs with hp
    · rw [List.filter_cons_of_pos hp, List.insertionSort_cons]
    · rw [List.filter_cons_of_neg hp]

end Sorted

section Extremes

variable {α : Type} [LinearOrder α] {l l' : List α}

/-- The least element of a list comes first when its elements are sorted. -/
theorem min?_eq_head? (h : l'.Pairwise (· ≤ ·)) (hmem : ∀ x, x ∈ l ↔ x ∈ l') :
    l.min? = l'.head? := by
  cases l' with
  | nil =>
    have hnil : l = [] := List.eq_nil_iff_forall_not_mem.mpr fun x hx => nomatch (hmem x).mp hx
    rw [hnil]
    rfl
  | cons a l' =>
    rw [List.head?_cons, List.min?_eq_some_iff]
    refine ⟨(hmem a).mpr List.mem_cons_self, ?_⟩
    intro b hb
    rcases List.mem_cons.mp ((hmem b).mp hb) with rfl | hb
    · exact le_rfl
    · exact List.rel_of_pairwise_cons h hb

/-- The greatest element of a list comes last when its elements are sorted. -/
theorem max?_eq_getLast? (h : l'.Pairwise (· ≤ ·)) (hmem : ∀ x, x ∈ l ↔ x ∈ l') :
    l.max? = l'.getLast? := by
  induction l' using List.reverseRecOn with
  | nil =>
    have hnil : l = [] := List.eq_nil_iff_forall_not_mem.mpr fun x hx => nomatch (hmem x).mp hx
    rw [hnil]
    rfl
  | append_singleton l' a _ =>
    rw [List.getLast?_concat, List.max?_eq_some_iff]
    refine ⟨(hmem a).mpr (List.mem_append_right l' List.mem_cons_self), ?_⟩
    intro b hb
    rcases List.mem_append.mp ((hmem b).mp hb) with hb | hb
    · exact (List.pairwise_append.mp h).2.2 b hb a List.mem_cons_self
    · exact (List.mem_singleton.mp hb).le

end Extremes

/-! ## Lists related element by element -/

/-- Where related elements are related anew exactly if the second passes, two lists are related anew
exactly if all of the second list passes. -/
theorem forall₂_iff_forall_mem {α β : Type} {R : α → β → Prop} {P : β → Prop} {l : List α}
    {l' : List β} (h : List.Forall₂ (fun x y => R x y ↔ P y) l l') :
    List.Forall₂ R l l' ↔ ∀ y ∈ l', P y := by
  induction h with
  | nil => simp
  | cons hxy _ ih => rw [List.forall₂_cons, List.forall_mem_cons, hxy, ih]
