import BurnerRedis.Answers
import BurnerRedis.FailedMethods

/-!
# A failed command in a script changes nothing

A command fails with an error value or by leaving with an error message. The live keys, their values
and their expiries are then as they were, with three exceptions (`Script.ChangesOnFailure`): XADD
makes the key before it looks at the id; ZADD inserts the pairs before a score that is no number; and
HDEL, SREM, ZREM and ZREMRANGEBYSCORE remove an empty container of another type.
-/

namespace BurnerRedis

/-! ## Pairs inserted again -/

section LastScore

variable {S : Type}

/-- The score of the last pair for a member. -/
def lastScore (pairs : List (ScoredMember S)) (m : Bytes) : Option S :=
  (pairs.reverse.find? fun p => p.member == m).map (·.score)

theorem lastScore_concat (pairs : List (ScoredMember S)) (p : ScoredMember S) (m : Bytes) :
    lastScore (pairs ++ [p]) m = if p.member = m then some p.score else lastScore pairs m := by
  unfold lastScore
  rw [List.reverse_append, List.reverse_singleton, List.singleton_append, List.find?_cons]
  by_cases h : p.member = m
  · rw [beq_iff_eq.mpr h, if_pos h]
    rfl
  · rw [beq_false_of_ne h, if_neg h]

theorem lastScore_eq_none_iff {pairs : List (ScoredMember S)} {m : Bytes} :
    lastScore pairs m = none ↔ ∀ p ∈ pairs, p.member ≠ m := by
  unfold lastScore
  rw [Option.map_eq_none_iff, List.find?_eq_none]
  simp only [List.mem_reverse, beq_iff_eq]

theorem mem_of_lastScore {pairs : List (ScoredMember S)} {m : Bytes} {s : S}
    (h : lastScore pairs m = some s) : ⟨s, m⟩ ∈ pairs := by
  obtain ⟨p, hp, rfl⟩ := Option.map_eq_some_iff.mp h
  have hm := List.find?_some hp
  have hin := List.mem_of_find?_eq_some hp
  rw [beq_iff_eq] at hm
  rw [← hm]
  exact List.mem_reverse.mp hin

end LastScore

section Inserted

variable {S : Type} [LinearOrder S]

/-- Inserting the pairs changes nothing: each member ends with the score it has, and of the pairs
for it the score index holds the one with this score and no other. -/
def SortedSet.Settled (z : SortedSet S) (pairs : List (ScoredMember S)) : Prop :=
  ∀ p ∈ pairs, lastScore pairs p.member = z.byMember[p.member]? ∧
    (p ∈ z.byScore ↔ z.byMember[p.member]? = some p.score)

namespace SortedSet

variable {z : SortedSet S} {pairs : List (ScoredMember S)}

theorem insertAll_concat (z : SortedSet S) (pairs : List (ScoredMember S)) (p : ScoredMember S) :
    z.insertAll (pairs ++ [p]) = ((z.insertAll pairs).insert p.member p.score).1 := by
  rw [insertAll, List.foldl_append]
  rfl

theorem byMember_insertAll (z : SortedSet S) (pairs : List (ScoredMember S)) (m : Bytes) :
    (z.insertAll pairs).byMember[m]? = (lastScore pairs m).or z.byMember[m]? := by
  induction pairs using List.reverseRecOn with
  | nil => rfl
  | append_singleton pairs p ih =>
    rw [insertAll_concat, byMember_insert, FinMap.getElem?_insert', lastScore_concat, ih]
    split_ifs <;> rfl

/-- What is in the score index after the insertions: the last pair of each member, and the old pairs
that no insertion has taken out. -/
theorem mem_byScore_insertAll {q : ScoredMember S} :
    q ∈ (z.insertAll pairs).byScore ↔ lastScore pairs q.member = some q.score ∨
      q ∈ z.byScore ∧ (lastScore pairs q.member ≠ none →
        z.byMember[q.member]? ≠ some q.score ∧ q ∉ pairs) := by
  induction pairs using List.reverseRecOn with
  | nil => simp [insertAll, lastScore]
  | append_singleton pairs p ih =>
    have hnone : lastScore pairs q.member = none ↔ ∀ p ∈ pairs, p.member ≠ q.member :=
      lastScore_eq_none_iff
    have hmem : ∀ s, lastScore pairs q.member = some s → (⟨s, q.member⟩ : ScoredMember S) ∈ pairs :=
      fun s => mem_of_lastScore
    rw [insertAll_concat, mem_byScore_insert, ih, byMember_insertAll, lastScore_concat]
    obtain ⟨s, m⟩ := q
    obtain ⟨t, n⟩ := p
    by_cases hn : n = m
    · -- the member of the last pair: its old score goes
      subst hn
      cases hlast : lastScore pairs n with
      | none =>
        have hnot : ∀ t, (⟨t, n⟩ : ScoredMember S) ∉ pairs := fun t ht => hnone.mp hlast _ ht rfl
        grind
      | some old =>
        have hold := hmem old hlast
        grind
    · grind

theorem insertAll_eq_self_iff : z.insertAll pairs = z ↔ z.Settled pairs := by
  constructor
  · intro h p hp
    have hmem := byMember_insertAll z pairs p.member
    have hscore : p ∈ (z.insertAll pairs).byScore ↔ lastScore pairs p.member = some p.score ∨
        p ∈ z.byScore ∧ (lastScore pairs p.member ≠ none →
          z.byMember[p.member]? ≠ some p.score ∧ p ∉ pairs) := mem_byScore_insertAll
    rw [h] at hmem hscore
    cases hlast : lastScore pairs p.member with
    | none => exact absurd rfl (lastScore_eq_none_iff.mp hlast p hp)
    | some s =>
      rw [hlast, Option.some_or] at hmem
      rw [hlast] at hscore
      rw [hmem, hscore]
      refine ⟨rfl, or_iff_left ?_⟩
      rintro ⟨-, hout⟩
      exact (hout (Option.some_ne_none s)).2 hp
  · intro h
    have hmember : (z.insertAll pairs).byMember = z.byMember := by
      refine Std.ExtTreeMap.ext_getElem? fun m => ?_
      rw [byMember_insertAll]
      cases hlast : lastScore pairs m with
      | none => rfl
      | some s =>
        obtain ⟨hm, -⟩ := h _ (mem_of_lastScore hlast)
        rw [← hm, hlast]
        rfl
    have hscore : (z.insertAll pairs).byScore = z.byScore := by
      refine FinMap.ext_mem fun q => ?_
      rw [mem_byScore_insertAll]
      obtain ⟨t, m⟩ := q
      cases hlast : lastScore pairs m with
      | none => simp
      | some s =>
        obtain ⟨hm, hin⟩ := h _ (mem_of_lastScore hlast)
        have hq := h ⟨t, m⟩
        rw [hlast] at hm
        grind
    cases hz : z.insertAll pairs with
    | mk byScore byMember =>
      rw [hz] at hmember hscore
      exact congrArg₂ SortedSet.mk hscore hmember

end SortedSet

end Inserted

/-! ## Commands -/

namespace Script

/-- The pairs of ZADD before the first score that is no number, if there is one. -/
def beforeRefused {S : Type} [Score S] : List (Bytes × Bytes) → Option (List (ScoredMember S))
  | [] => none
  | (score, member) :: rest =>
    match scoreArg score with
    | none => some []
    | some s => (beforeRefused rest).map (⟨s, member⟩ :: ·)

/-- A command that changes the live data although it fails. -/
inductive ChangesOnFailure {S : Type} [Score S] (e : Env) (d : Data S) :
    String → List Bytes → Prop where
  | xadd (key idText : Bytes) (fields : List Bytes) (h2 : 2 ≤ fields.length)
      (heven : fields.length % 2 = 0) (hl : live e.now d key = none) {r : Reply}
      (hr : newEntryId e idText .zero = .error r) :
      ChangesOnFailure e d "XADD" (key :: idText :: fields)
  | zaddNew (key : Bytes) (pairs : List Bytes) (h2 : 2 ≤ pairs.length)
      (heven : pairs.length % 2 = 0) (hl : live e.now d key = none) {done : List (ScoredMember S)}
      (hdone : beforeRefused (pairUp pairs) = some done) :
      ChangesOnFailure e d "ZADD" (key :: pairs)
  | zaddOld (key : Bytes) (pairs : List Bytes) (h2 : 2 ≤ pairs.length)
      (heven : pairs.length % 2 = 0) {z : SortedSet S} {exp : Option Instant}
      (hl : live e.now d key = some ⟨.sortedSet z, exp⟩) {done : List (ScoredMember S)}
      (hdone : beforeRefused (pairUp pairs) = some done) (hz : ¬ z.Settled done) :
      ChangesOnFailure e d "ZADD" (key :: pairs)
  | hdel (key field : Bytes) (fields : List Bytes) (h : EmptyOther .hash e.now d key) :
      ChangesOnFailure e d "HDEL" (key :: field :: fields)
  | srem (key member : Bytes) (members : List Bytes) (h : EmptyOther .set e.now d key) :
      ChangesOnFailure e d "SREM" (key :: member :: members)
  | zrem (key member : Bytes) (members : List Bytes) (h : EmptyOther .sortedSet e.now d key) :
      ChangesOnFailure e d "ZREM" (key :: member :: members)
  | zremrangebyscore (key min max : Bytes) (rest : List Bytes)
      (h : EmptyOther .sortedSet e.now d key) :
      ChangesOnFailure e d "ZREMRANGEBYSCORE" (key :: min :: max :: rest)

section Plain

variable {S : Type} [LinearOrder S] {e : Env} {args : List Bytes} {d : Data S}

theorem not_fails_integer {n : ℤ} : ¬ fails (integer n) = true := Bool.false_ne_true

theorem set_failed (h : fails (set e args d).2) : SameLive e.now d (set e args d).1 := by
  unfold set at h ⊢
  split at h
  · split at h
    · exact .refl
    · dsimp only at h ⊢
      split_ifs at h ⊢
      · exact .refl
      · exact .refl
      · cases h
  · exact .refl

theorem del_failed (h : fails (del e args d).2) : SameLive e.now d (del e args d).1 := by
  unfold del at h ⊢
  split_ifs at h ⊢
  · exact .refl
  · cases h

theorem existsKeys_failed (h : fails (existsKeys e args d).2) :
    SameLive e.now d (existsKeys e args d).1 := by
  unfold existsKeys at h ⊢
  split_ifs at h ⊢
  · exact .refl
  · cases h

theorem expireAs_failed {name : String} {unit : ℕ → Duration}
    (h : fails (expireAs name unit e args d).2) :
    SameLive e.now d (expireAs name unit e args d).1 := by
  unfold expireAs at h ⊢
  split at h
  · rename_i key time
    split at h
    · exact .refl
    · split_ifs at h ⊢
      · cases h
      · split at h
        · exact sameLive_purge e.now key d
        · cases h
  · exact .refl

theorem xreadPairs_sameLive (e : Env) (count : Option ℕ) (pairs : List (Bytes × Bytes))
    (d : Data S) : SameLive e.now d (xreadPairs e count pairs d).1 := by
  induction pairs generalizing d with
  | nil => exact .refl
  | cons pair pairs ih =>
    have hp : SameLive e.now d (purge e.now pair.1 d) := sameLive_purge e.now pair.1 d
    unfold xreadPairs
    dsimp only
    split
    · exact hp.trans (ih _)
    · split
      · exact hp
      · exact hp.trans (ih _)

theorem xread_sameLive (e : Env) (args : List Bytes) (d : Data S) :
    SameLive e.now d (xread e args d).1 := by
  unfold xread
  split
  · exact .refl
  · split
    · exact .refl
    · split
      · exact .refl
      · exact xreadPairs_sameLive e _ _ d

theorem lmove_failed (h : fails (lmove e args d).2) : SameLive e.now d (lmove e args d).1 := by
  unfold lmove at h ⊢
  split at h
  · split at h
    · exact .refl
    · split at h
      · exact .refl
      · exact Store.moveAs_failed (fails · = true) (fun _ => Bool.false_ne_true) h
  · exact .refl

theorem rpoplpush_failed (h : fails (rpoplpush e args d).2) :
    SameLive e.now d (rpoplpush e args d).1 := by
  unfold rpoplpush at h ⊢
  split at h
  · exact Store.moveAs_failed (fails · = true) (fun _ => Bool.false_ne_true) h
  · exact .refl

end Plain

section Scores

variable {S : Type} [Score S] {e : Env} {args : List Bytes} {d : Data S} {key : Bytes}

theorem not_wrongArity {n : ℕ} (h2 : 2 ≤ n) (heven : n % 2 = 0) : ¬ (n < 2 ∨ n % 2 ≠ 0) := by
  omega

theorem newEntryId_error_fails {idText : Bytes} {lastId : StreamId} {r : Reply}
    (h : newEntryId e idText lastId = .error r) : fails r = true := by
  unfold newEntryId at h
  split at h
  · cases h
  · split at h
    · cases h
      rfl
    · split at h
      · split_ifs at h
        cases h
        rfl
      · cases h
        rfl

theorem xadd_failed_iff {idText : Bytes} {fields : List Bytes} (h2 : 2 ≤ fields.length)
    (heven : fields.length % 2 = 0) :
    (fails (xadd e (key :: idText :: fields) d).2 →
      SameLive e.now d (xadd e (key :: idText :: fields) d).1) ↔
    ¬ (live e.now d key = none ∧ ∃ r, newEntryId e idText .zero = .error r) := by
  simp only [xadd, if_neg (not_wrongArity h2 heven)]
  refine (upsertAs_failed_iff (fails · = true) fun s hf => ?_).trans ?_
  · cases hnew : newEntryId e idText s.lastId with
    | error r => rfl
    | ok newId =>
      rw [hnew] at hf
      cases hf
  · refine not_congr (and_congr_right fun _ => ?_)
    have hzero : Stream.new.lastId = StreamId.zero := rfl
    cases hnew : newEntryId e idText .zero with
    | error r =>
      rw [hzero, hnew]
      exact iff_of_true (newEntryId_error_fails hnew) ⟨r, rfl⟩
    | ok newId =>
      rw [hzero, hnew]
      exact iff_of_false Bool.false_ne_true nofun

/-- ZADD stops at the first score that is no number, with the pairs before it inserted. -/
theorem zaddPairs_refused {pairs : List (Bytes × Bytes)} {done : List (ScoredMember S)}
    (h : beforeRefused pairs = some done) (z : SortedSet S) (n : ℤ) :
    fails (zaddPairs pairs z n).2 = true ∧ (zaddPairs pairs z n).1 = z.insertAll done := by
  induction pairs generalizing z n done with
  | nil => cases h
  | cons pair pairs ih =>
    obtain ⟨score, member⟩ := pair
    unfold beforeRefused at h
    unfold zaddPairs
    cases hs : (scoreArg score : Option S) with
    | none =>
      rw [hs] at h
      cases h
      exact ⟨rfl, rfl⟩
    | some s =>
      rw [hs] at h
      obtain ⟨rest, hrest, rfl⟩ := Option.map_eq_some_iff.mp h
      exact ih hrest _ _

theorem zaddPairs_accepted {pairs : List (Bytes × Bytes)}
    (h : (beforeRefused pairs : Option (List (ScoredMember S))) = none) (z : SortedSet S) (n : ℤ) :
    fails (zaddPairs pairs z n).2 = false := by
  induction pairs generalizing z n with
  | nil => rfl
  | cons pair pairs ih =>
    obtain ⟨score, member⟩ := pair
    unfold beforeRefused at h
    unfold zaddPairs
    cases hs : (scoreArg score : Option S) with
    | none =>
      rw [hs] at h
      cases h
    | some s =>
      rw [hs] at h
      exact ih (Option.map_eq_none_iff.mp h) _ _

/-- Where a failed ZADD changes nothing: the pairs it has inserted were there. -/
theorem zadd_failed_iff {pairs : List Bytes} (h2 : 2 ≤ pairs.length)
    (heven : pairs.length % 2 = 0) :
    (fails (zadd e (key :: pairs) d).2 → SameLive e.now d (zadd e (key :: pairs) d).1) ↔
    ∀ done : List (ScoredMember S), beforeRefused (pairUp pairs) = some done →
      live e.now d key ≠ none ∧
        ∀ z exp, live e.now d key = some ⟨.sortedSet z, exp⟩ → z.Settled done := by
  simp only [zadd, if_neg (not_wrongArity h2 heven)]
  cases hdone : (beforeRefused (pairUp pairs) : Option (List (ScoredMember S))) with
  | none =>
    have hok : ∀ z : SortedSet S, ¬ fails (zaddPairs (pairUp pairs) z 0).2 = true := by
      intro z
      rw [zaddPairs_accepted hdone]
      exact Bool.false_ne_true
    refine iff_of_true ?_ nofun
    exact (upsertAs_failed_iff (fails · = true) fun z hf => absurd hf (hok z)).mpr
      fun hn => hok _ hn.2
  | some done =>
    have hdo := zaddPairs_refused hdone
    have hforall : ∀ {p : List (ScoredMember S) → Prop},
        (∀ done', some done = some done' → p done') ↔ p done :=
      ⟨fun h => h done rfl, fun h done' hd => Option.some.inj hd ▸ h⟩
    rw [hforall]
    cases look Kind.sortedSet e.now key d with
    | absent hl =>
      rw [upsertAs_absent hl, hl]
      refine iff_of_false (fun h => ?_) fun h => h.1 rfl
      exact not_sameLive_insert hl rfl (h (hdo .new 0).1)
    | wrong en hl hd =>
      rw [upsertAs_wrong hl hd, hl]
      refine iff_of_true (fun _ => sameLive_purge e.now key d) ⟨nofun, fun z exp hz => ?_⟩
      cases hz
      cases hd
    | found z exp hl =>
      have hexp := (live_eq_some.mp hl).2
      have hself := sameLive_insert_self hl
      rw [upsertAs_found hl, imp_iff_right (hdo z 0).1, hl]
      dsimp only
      rw [(hdo z 0).2]
      have hins : SameLive e.now (d.insert key ⟨Kind.sortedSet.wrap z, exp⟩)
          (d.insert key ⟨Kind.sortedSet.wrap (z.insertAll done), exp⟩) ↔ z.Settled done := by
        rw [← SortedSet.insertAll_eq_self_iff]
        refine (sameLive_insert_iff hexp).trans ⟨fun h => ?_, fun h => congrArg _ h.symm⟩
        exact (ValueData.sortedSet.inj h).symm
      constructor
      · intro hs
        refine ⟨nofun, fun z' exp' hz => ?_⟩
        cases hz
        exact hins.mp (hself.symm.trans hs)
      · intro hs
        exact hself.trans (hins.mpr (hs.2 z exp rfl))

theorem hdel_failed (hn : ¬ ChangesOnFailure e d "HDEL" args) (h : fails (hdel e args d).2) :
    SameLive e.now d (hdel e args d).1 := by
  unfold hdel at h ⊢
  split at h
  · exact (modifyAs_removeIfEmpty_failed_iff (fails · = true) not_fails_integer rfl
      fun _ => not_fails_integer).mpr (fun he => hn (.hdel _ _ _ he)) h
  · exact .refl

theorem srem_failed (hn : ¬ ChangesOnFailure e d "SREM" args) (h : fails (srem e args d).2) :
    SameLive e.now d (srem e args d).1 := by
  unfold srem at h ⊢
  split at h
  · exact (modifyAs_removeIfEmpty_failed_iff (fails · = true) not_fails_integer rfl
      fun _ => not_fails_integer).mpr (fun he => hn (.srem _ _ _ he)) h
  · exact .refl

theorem zrem_failed (hn : ¬ ChangesOnFailure e d "ZREM" args) (h : fails (zrem e args d).2) :
    SameLive e.now d (zrem e args d).1 := by
  unfold zrem at h ⊢
  split at h
  · exact (modifyAs_removeIfEmpty_failed_iff (fails · = true) not_fails_integer rfl
      fun _ => not_fails_integer).mpr (fun he => hn (.zrem _ _ _ he)) h
  · exact .refl

theorem zremrangebyscore_failed (hn : ¬ ChangesOnFailure e d "ZREMRANGEBYSCORE" args)
    (h : fails (zremrangebyscore e args d).2) :
    SameLive e.now d (zremrangebyscore e args d).1 := by
  unfold zremrangebyscore at h ⊢
  split at h
  · exact (modifyAs_removeIfEmpty_failed_iff (fails · = true) not_fails_integer rfl
      fun _ => not_fails_integer).mpr (fun he => hn (.zremrangebyscore _ _ _ _ he)) h
  · exact .refl

theorem xadd_failed (hn : ¬ ChangesOnFailure e d "XADD" args) (h : fails (xadd e args d).2) :
    SameLive e.now d (xadd e args d).1 := by
  match args with
  | [] => exact .refl
  | [_] => exact .refl
  | key :: idText :: fields =>
    by_cases harity : fields.length < 2 ∨ fields.length % 2 ≠ 0
    · simp only [xadd, if_pos harity]
      exact .refl
    · rw [not_or, not_lt, not_not] at harity
      refine (xadd_failed_iff harity.1 harity.2).mpr ?_ h
      rintro ⟨hl, r, hr⟩
      exact hn (.xadd key idText fields harity.1 harity.2 hl hr)

theorem zadd_failed (hn : ¬ ChangesOnFailure e d "ZADD" args) (h : fails (zadd e args d).2) :
    SameLive e.now d (zadd e args d).1 := by
  match args with
  | [] => exact .refl
  | key :: pairs =>
    by_cases harity : pairs.length < 2 ∨ pairs.length % 2 ≠ 0
    · simp only [zadd, if_pos harity]
      exact .refl
    · rw [not_or, not_lt, not_not] at harity
      refine (zadd_failed_iff harity.1 harity.2).mpr (fun done hdone => ⟨fun hl => ?_, ?_⟩) h
      · exact hn (.zaddNew key pairs harity.1 harity.2 hl hdone)
      · intro z exp hl
        by_contra hz
        exact hn (.zaddOld key pairs harity.1 harity.2 hl hdone hz)

/-- A failed command is one of the exceptions or changes nothing. -/
theorem failed_unchanged {cmd : String} (hn : ¬ ChangesOnFailure e d cmd args) :
    fails (dispatchInner e cmd args d).2 → SameLive e.now d (dispatchInner e cmd args d).1 := by
  by_cases hexc : cmd ∈ ["HDEL", "SREM", "ZREM", "ZREMRANGEBYSCORE", "XADD", "ZADD"]
  · simp only [List.mem_cons, List.not_mem_nil, or_false] at hexc
    rcases hexc with rfl | rfl | rfl | rfl | rfl | rfl
    · exact hdel_failed hn
    · exact srem_failed hn
    · exact zrem_failed hn
    · exact zremrangebyscore_failed hn
    · exact xadd_failed hn
    · exact zadd_failed hn
  simp only [List.mem_cons, List.not_mem_nil, or_false, not_or] at hexc
  apply dispatchInner_elim (motive := fun f => fails (f d).2 → SameLive e.now d (f d).1)
  case shape =>
    intro _ h
    refine (h.result d).sameLive (p := (fails · = true)) ?_ fun hq => hq.unchanged ?_
    · unfold use drops
      simp only [List.mem_cons, List.not_mem_nil, or_false, hexc, decide_false]
      split <;> simp
    · simp [hexc]
  case set => exact fun _ => set_failed
  case del => exact fun _ => del_failed
  case existsKeys => exact fun _ => existsKeys_failed
  case expireAs => exact fun _ _ _ => expireAs_failed
  case xread => exact fun _ _ => xread_sameLive e args d
  case lmove => exact fun _ => lmove_failed
  case rpoplpush => exact fun _ => rpoplpush_failed

/-- When a command that fails leaves the live keys, their values and their expiries as they were. -/
theorem failed_command_unchanged_iff (cmd : String) (args : List Bytes) :
    (fails (dispatchInner e cmd args d).2 → SameLive e.now d (dispatchInner e cmd args d).1) ↔
      ¬ ChangesOnFailure e d cmd args := by
  constructor
  · rintro h hc
    cases hc with
    | xadd key idText fields h2 heven hl hr => exact (xadd_failed_iff h2 heven).mp h ⟨hl, _, hr⟩
    | zaddNew key pairs h2 heven hl hdone => exact ((zadd_failed_iff h2 heven).mp h _ hdone).1 hl
    | zaddOld key pairs h2 heven hl hdone hz =>
      exact hz (((zadd_failed_iff h2 heven).mp h _ hdone).2 _ _ hl)
    | hdel key field fields he =>
      exact (modifyAs_removeIfEmpty_failed_iff (fails · = true) not_fails_integer rfl
        fun _ => not_fails_integer).mp h he
    | srem key member members he =>
      exact (modifyAs_removeIfEmpty_failed_iff (fails · = true) not_fails_integer rfl
        fun _ => not_fails_integer).mp h he
    | zrem key member members he =>
      exact (modifyAs_removeIfEmpty_failed_iff (fails · = true) not_fails_integer rfl
        fun _ => not_fails_integer).mp h he
    | zremrangebyscore key min max rest he =>
      exact (modifyAs_removeIfEmpty_failed_iff (fails · = true) not_fails_integer rfl
        fun _ => not_fails_integer).mp h he
  · exact failed_unchanged

/-- XADD with the id 0-0 for a key that is not there, and ZADD whose second score is no number. -/
theorem failed_commands_change :
    fails (dispatchInner ⟨0, 0, .byKey⟩ "XADD" [ascii "s", ascii "0-0", ascii "f", ascii "v"]
        (∅ : Data ℤ)).2 = true ∧
      ¬ SameLive 0 ∅ (dispatchInner ⟨0, 0, .byKey⟩ "XADD"
        [ascii "s", ascii "0-0", ascii "f", ascii "v"] (∅ : Data ℤ)).1 ∧
      fails (dispatchInner ⟨0, 0, .byKey⟩ "ZADD"
        [ascii "z", ascii "1", ascii "a", ascii "x", ascii "b"] (∅ : Data ℤ)).2 = true ∧
      ¬ SameLive 0 ∅ (dispatchInner ⟨0, 0, .byKey⟩ "ZADD"
        [ascii "z", ascii "1", ascii "a", ascii "x", ascii "b"] (∅ : Data ℤ)).1 := by
  refine ⟨by decide +kernel, fun h => ?_, by decide +kernel, fun h => ?_⟩
  · have hk := h (ascii "s")
    exact absurd hk (by decide +kernel)
  · have hk := h (ascii "z")
    exact absurd hk (by decide +kernel)

end Scores

end Script

end BurnerRedis
