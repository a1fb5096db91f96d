import BurnerRedis.Invariants

/-!
# The two indexes of a sorted set

In every run the score index and the member index of a sorted set hold the same pairs. What readers
rely on follows: a member has one score, the number of members is the number of pairs in the score
index, and `ZRANGE key 0 -1` lists each of them once, in increasing order.
-/

namespace BurnerRedis

variable {S : Type} [LinearOrder S]

/-! ## Scored members in order -/

/-- Score first, then member. -/
def ScoredMember.Below (a b : ScoredMember S) : Prop :=
  a.score < b.score ∨ a.score = b.score ∧ a.member < b.member

theorem compare_bytes_eq_lt {a b : Bytes} : compare a b = .lt ↔ a < b := by
  induction a generalizing b with
  | nil => cases b <;> simp
  | cons x a ih =>
    cases b with
    | nil => simp
    | cons y b =>
      have hxy : compare x y = .lt ↔ x < y := Std.compare_eq_lt
      rw [List.cons_lt_cons_iff, ← ih, List.compare_cons_cons, Ordering.then_eq_lt, hxy,
        Std.compare_eq_iff_eq]

theorem ScoredMember.compare_eq_lt_iff {a b : ScoredMember S} : compare a b = .lt ↔ a.Below b := by
  show (compare a.score b.score).then (compare a.member b.member) = .lt ↔ _
  rw [Ordering.then_eq_lt, compare_lt_iff_lt, compare_bytes_eq_lt, Std.compare_eq_iff_eq]
  rfl

namespace SortedSet

variable {z : SortedSet S}

theorem pairwise_keys_byScore (z : SortedSet S) : z.byScore.keys.Pairwise ScoredMember.Below := by
  refine List.Pairwise.imp ?_ Std.ExtTreeMap.ordered_keys
  intro a b h
  exact ScoredMember.compare_eq_lt_iff.mp h

/-- A member has one score. -/
theorem Coherent.score_unique (h : z.Coherent) {m : Bytes} {s s' : S}
    (hs : ⟨s, m⟩ ∈ z.byScore) (hs' : ⟨s', m⟩ ∈ z.byScore) : s = s' := by
  have hm := (h s m).mp hs
  rw [(h s' m).mp hs'] at hm
  exact (Option.some.inj hm).symm

/-- The members of the score index are the keys of the member index, in another order. -/
theorem Coherent.members_perm (h : z.Coherent) :
    (z.byScore.keys.map ScoredMember.member).Perm z.byMember.keys := by
  have hnodup : (z.byScore.keys.map ScoredMember.member).Nodup := by
    refine List.Nodup.map_on ?_ Std.ExtTreeMap.nodup_keys
    rintro ⟨s, m⟩ hs ⟨s', m'⟩ hs' hm
    obtain rfl : m = m' := hm
    rw [h.score_unique (Std.ExtTreeMap.mem_keys.mp hs) (Std.ExtTreeMap.mem_keys.mp hs')]
  refine (List.perm_ext_iff_of_nodup hnodup Std.ExtTreeMap.nodup_keys).mpr fun m => ?_
  rw [List.mem_map, Std.ExtTreeMap.mem_keys, FinMap.mem_iff_getElem?]
  constructor
  · rintro ⟨⟨s, m⟩, hs, rfl⟩
    exact ⟨s, (h s m).mp (Std.ExtTreeMap.mem_keys.mp hs)⟩
  · rintro ⟨s, hs⟩
    exact ⟨⟨s, m⟩, Std.ExtTreeMap.mem_keys.mpr ((h s m).mpr hs), rfl⟩

theorem Coherent.length_keys (h : z.Coherent) : z.byScore.keys.length = z.len := by
  have hperm := h.members_perm.length_eq
  rw [List.length_map, Std.ExtTreeMap.length_keys (t := z.byMember)] at hperm
  exact hperm

end SortedSet

/-! ## The whole range -/

/-- From the first to the last position there is everything. -/
theorem Store.zrangeWindow_all (len : ℕ) :
    Store.zrangeWindow 0 (-1) len = if len = 0 then none else some (0, len) := by
  unfold Store.zrangeWindow
  split_ifs <;> grind

/-- `ZRANGE key 0 -1` lists the whole score index. -/
theorem Store.zrange_all {e : Env} {d : Data S} {key : Bytes} {z : SortedSet S}
    {exp : Option Instant} (hz : z.Coherent) (hl : live e.now d key = some ⟨.sortedSet z, exp⟩)
    (withscores : Bool) :
    (Store.zrange e key 0 (-1) withscores d).2 =
      .ok (z.byScore.keys.map (withScore withscores)) := by
  have hlen := hz.length_keys
  rw [Store.zrange, readAs_found (t := Kind.sortedSet) hl]
  dsimp only
  rw [zrangeWindow_all]
  split_ifs with h
  · rw [h, List.length_eq_zero_iff] at hlen
    rw [hlen]
    rfl
  · dsimp only
    rw [List.drop_zero, List.take_of_length_le hlen.le]

/-! ## Every run -/

section Runs

variable {S : Type} [Score S] {ok : Instant → Store S → Action S → Prop} {sha1 : String → String}
  {now : Instant} {st : Store S}

/-- In every run the two indexes of a sorted set hold the same pairs, each member once, and
`ZRANGE key 0 -1` lists as many pairs as there are members, in increasing order. -/
theorem Reachable.sorted_indexes (h : Reachable ok sha1 now st) {key : Bytes} {z : SortedSet S}
    {exp : Option Instant} (hz : st.data[key]? = some ⟨.sortedSet z, exp⟩) :
    (∀ (s : S) (m : Bytes), ⟨s, m⟩ ∈ z.byScore ↔ z.byMember[m]? = some s) ∧
    (∀ m ∈ z.byMember, ∃! s, ⟨s, m⟩ ∈ z.byScore) ∧
    ∀ e : Env, live e.now st.data key = some ⟨.sortedSet z, exp⟩ → ∀ withscores : Bool,
      ∃ pairs : List (ScoredMember S),
        (Store.zrange e key 0 (-1) withscores st.data).2 =
          .ok (pairs.map (Store.withScore withscores)) ∧
        pairs.length = z.len ∧ pairs.Pairwise ScoredMember.Below ∧
        ∀ p : ScoredMember S, p ∈ pairs ↔ z.byMember[p.member]? = some p.score := by
  have hc : z.Coherent := h.coherent key _ hz z rfl
  refine ⟨hc, fun m hm => ?_, fun e hl withscores => ?_⟩
  · obtain ⟨s, hs⟩ := FinMap.mem_iff_getElem?.mp hm
    refine ⟨s, (hc s m).mpr hs, fun s' hs' => ?_⟩
    exact hc.score_unique hs' ((hc s m).mpr hs)
  · refine ⟨z.byScore.keys, Store.zrange_all hc hl withscores, hc.length_keys,
      z.pairwise_keys_byScore, fun p => ?_⟩
    rw [Std.ExtTreeMap.mem_keys]
    exact hc p.score p.member

/-- A member added twice, the second time under another score. -/
def addedTwice : Instant × Store ℤ :=
  runActions id (0, ⟨∅, ∅⟩) [.op 0 .byKey (.zadd (ascii "z") [(2, ascii "a"), (3, ascii "b")] {}),
    .op 0 .byKey (.zadd (ascii "z") [(5, ascii "a")] {})]

theorem addedTwice_indexes :
    ∃ z : SortedSet ℤ, addedTwice.2.data[ascii "z"]? = some ⟨.sortedSet z, none⟩ ∧ z.len = 2 ∧
      (∃! s, ⟨s, ascii "a"⟩ ∈ z.byScore) ∧
      ∃ pairs : List (ScoredMember ℤ),
        (Store.zrange ⟨1, 0, .byKey⟩ (ascii "z") 0 (-1) true addedTwice.2.data).2 =
          .ok (pairs.map (Store.withScore true)) ∧
        pairs.length = 2 ∧ pairs.Pairwise ScoredMember.Below := by
  let z : SortedSet ℤ :=
    (((SortedSet.new.insert (ascii "a") 2).1.insert (ascii "b") 3).1.insert (ascii "a") 5).1
  have hz : addedTwice.2.data[ascii "z"]? = some ⟨.sortedSet z, none⟩ := by decide +kernel
  have hl : live 1 addedTwice.2.data (ascii "z") = some ⟨.sortedSet z, none⟩ := by decide +kernel
  have hlen : z.len = 2 := by decide +kernel
  have hmem : ascii "a" ∈ z.byMember := by decide +kernel
  obtain ⟨-, hone, hrange⟩ :=
    Reachable.sorted_indexes (Reachable.runActions (m := (0, ⟨∅, ∅⟩)) (.empty 0) _) hz
  obtain ⟨pairs, hpairs, hcount, hsorted, -⟩ := hrange ⟨1, 0, .byKey⟩ hl true
  exact ⟨z, hz, hlen, hone _ hmem, pairs, hpairs, hcount.trans hlen, hsorted⟩

end Runs

end BurnerRedis
