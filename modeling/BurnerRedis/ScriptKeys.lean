import BurnerRedis.KeyCalls
import BurnerRedis.Machine

/-!
# Commands on strings, keys, hashes, sets and sorted sets in a script

The method and the command of the same name leave the same live entries and answer the same, except
for ZADD: the method ends by removing the key if it holds an empty container, of whatever type, and
the command in a script does not.
-/

namespace BurnerRedis

open Script (Shows)

/-! ## ZADD on the two sides -/

section Zadd

variable {S : Type}

/-- `zl` has all that `zn` has, and of what it has more only pairs of the member index. -/
structure Trails [LinearOrder S] (zl zn : SortedSet S) : Prop where
  members : zl.byMember = zn.byMember
  sub : ∀ p, p ∈ zn.byScore → p ∈ zl.byScore
  extra : ∀ p, p ∈ zl.byScore → p ∉ zn.byScore → zn.byMember[p.member]? = some p.score

/-- A pair that only the left set has, or gets, and that no pair still to come replaces. -/
def Lost [LinearOrder S] (zl zn : SortedSet S) (pairs : List (S × Bytes)) : Prop :=
  ∃ s m, ((s, m) ∈ pairs ∨ ⟨s, m⟩ ∈ zl.byScore) ∧ zn.byMember[m]? = some s ∧
    (⟨s, m⟩ : ScoredMember S) ∉ zn.byScore ∧ ∀ s', (s', m) ∈ pairs → s' = s

variable [LinearOrder S] {zl zn : SortedSet S}

theorem Trails.eq_iff (h : Trails zl zn) : zl = zn ↔ ¬ Lost zl zn [] := by
  constructor
  · rintro rfl ⟨s, m, hin, -, hout, -⟩
    exact hout (hin.resolve_left List.not_mem_nil)
  · intro hl
    have hscore : zl.byScore = zn.byScore := by
      refine FinMap.ext_mem fun p => ⟨fun hp => ?_, h.sub p⟩
      by_contra hn
      exact hl ⟨p.score, p.member, .inr hp, h.extra p hp hn, hn, fun _ hm => nomatch hm⟩
    obtain ⟨_, _⟩ := zl
    obtain ⟨_, _⟩ := zn
    exact congrArg₂ _ hscore h.members

/-- A member that keeps its score: the right set is left as it is. -/
theorem Trails.again (h : Trails zl zn) {s : S} {m : Bytes} (hm : zn.byMember[m]? = some s)
    (pairs : List (S × Bytes)) :
    Trails (zl.insert m s).1 zn ∧
      (Lost (zl.insert m s).1 zn pairs ↔ Lost zl zn ((s, m) :: pairs)) := by
  have hmem : ∀ p, p ∈ (zl.insert m s).1.byScore ↔ p = ⟨s, m⟩ ∨ p ∈ zl.byScore := by
    intro p
    rw [SortedSet.mem_byScore_insert, h.members, hm]
    obtain ⟨s', m'⟩ := p
    grind
  refine ⟨⟨?_, fun p hp => (hmem p).mpr (.inr (h.sub p hp)), fun p hp hn => ?_⟩, ?_⟩
  · rw [SortedSet.byMember_insert, h.members, FinMap.insert_self_of_getElem? hm]
  · rcases (hmem p).mp hp with rfl | hp
    · exact hm
    · exact h.extra p hp hn
  · refine exists₂_congr fun s' m' => ?_
    rw [hmem]
    grind

/-- A member that is new or gets another score. -/
theorem Trails.moved (h : Trails zl zn) {s : S} {m : Bytes} (hm : zn.byMember[m]? ≠ some s)
    (pairs : List (S × Bytes)) :
    Trails (zl.insert m s).1 (zn.insert m s).1 ∧
      (Lost (zl.insert m s).1 (zn.insert m s).1 pairs ↔ Lost zl zn ((s, m) :: pairs)) := by
  refine ⟨⟨?_, fun p hp => ?_, fun p hp hn => ?_⟩, ?_⟩
  · rw [SortedSet.byMember_insert, SortedSet.byMember_insert, h.members]
  · rw [SortedSet.mem_byScore_insert] at hp ⊢
    rw [h.members]
    exact hp.imp_right fun hp => ⟨h.sub p hp.1, hp.2⟩
  · rw [SortedSet.mem_byScore_insert] at hp hn
    rw [h.members] at hp
    rw [SortedSet.byMember_insert, FinMap.getElem?_insert']
    have := h.extra p
    grind
  · refine exists₂_congr fun s' m' => ?_
    rw [SortedSet.mem_byScore_insert, SortedSet.mem_byScore_insert, SortedSet.byMember_insert,
      FinMap.getElem?_insert', h.members]
    grind

/-- A pair of ZADD without flags. -/
theorem zaddStep_plain (st : Store.ZaddState S) (s : S) (m : Bytes) :
    st.zset.byMember[m]? = some s ∧ Store.zaddStep {} st (s, m) = st ∨
      st.zset.byMember[m]? ≠ some s ∧
        (Store.zaddStep {} st (s, m)).zset = (st.zset.insert m s).1 ∧
        (Store.zaddStep {} st (s, m)).added =
          if st.zset.byMember[m]?.isNone then st.added + 1 else st.added := by
  unfold Store.zaddStep
  cases hm : st.zset.byMember[m]? with
  | none => exact .inr ⟨Option.some_ne_none s ∘ Eq.symm, rfl, rfl⟩
  | some old =>
    by_cases hs : s = old
    · subst hs
      exact .inl ⟨rfl, by simp⟩
    · refine .inr ⟨fun h => hs (Option.some.inj h).symm, ?_, ?_⟩ <;> simp [hs]

/-- Members that are there stay, and the member of the pair is there. -/
theorem mem_zaddStep (st : Store.ZaddState S) (pair : S × Bytes) {m : Bytes}
    (hm : m ∈ st.zset.byMember ∨ m = pair.2) : m ∈ (Store.zaddStep {} st pair).zset.byMember := by
  obtain ⟨s, m'⟩ := pair
  rcases zaddStep_plain st s m' with ⟨hs, hst⟩ | ⟨-, hz, -⟩
  · rw [hst]
    rcases hm with hm | rfl
    · exact hm
    · exact FinMap.mem_iff_getElem?.mpr ⟨s, hs⟩
  · rw [hz, SortedSet.byMember_insert, Std.ExtTreeMap.mem_insert, Std.compare_eq_iff_eq]
    exact hm.symm.imp_left Eq.symm

theorem mem_foldl_zaddStep {pairs : List (S × Bytes)} {t : Store.ZaddState S} {m : Bytes}
    (hm : m ∈ t.zset.byMember ∨ ∃ s, (s, m) ∈ pairs) :
    m ∈ (pairs.foldl (Store.zaddStep {}) t).zset.byMember := by
  induction pairs generalizing t with
  | nil => exact hm.resolve_right fun ⟨_, h⟩ => List.not_mem_nil h
  | cons pair pairs ih =>
    refine ih ?_
    rcases hm with hm | ⟨s, hm⟩
    · exact .inl (mem_zaddStep t pair (.inl hm))
    · rcases List.mem_cons.mp hm with rfl | hm
      · exact .inl (mem_zaddStep t _ (.inr rfl))
      · exact .inr ⟨s, hm⟩

/-- ZADD with a pair leaves a set with a member. -/
theorem foldl_zaddStep_not_empty {pairs : List (S × Bytes)} (hne : pairs ≠ [])
    (st : Store.ZaddState S) :
    (ValueData.sortedSet (pairs.foldl (Store.zaddStep {}) st).zset).isEmptyContainer = false := by
  obtain ⟨⟨s, m⟩, hm⟩ := List.exists_mem_of_ne_nil pairs hne
  have hmem := mem_foldl_zaddStep (t := st) (.inr ⟨s, hm⟩)
  have hempty := Std.ExtTreeMap.ne_empty_of_mem hmem
  exact beq_eq_false_iff_ne.mpr (mt Std.ExtTreeMap.eq_empty_iff_size_eq_zero.mpr hempty)

end Zadd

section ZaddPairs

variable {S : Type} [Score S]

open Script

/-- Both sides go through the pairs: they count the same new members, and end with the same set
unless a pair was lost. -/
theorem zaddPairs_foldl {args : List (Bytes × Bytes)} {pairs : List (S × Bytes)}
    (hp : List.Forall₂ KeyCall.DecodesPair args pairs) {zl : SortedSet S} {t : Store.ZaddState S}
    (h : Trails zl t.zset) :
    (zaddPairs args zl t.added).2 = integer (pairs.foldl (Store.zaddStep {}) t).added ∧
      ((zaddPairs args zl t.added).1 = (pairs.foldl (Store.zaddStep {}) t).zset ↔
        ¬ Lost zl t.zset pairs) := by
  induction hp generalizing zl t with
  | nil => exact ⟨rfl, h.eq_iff⟩
  | @cons arg pair args pairs ha _ ih =>
    obtain ⟨score, member⟩ := arg
    obtain ⟨s, m⟩ := pair
    obtain ⟨hs, rfl⟩ := ha
    simp only [zaddPairs, hs, List.foldl_cons, SortedSet.insert_snd, h.members]
    rcases zaddStep_plain t s member with ⟨hm, hst⟩ | ⟨hm, hz, hadd⟩
    · obtain ⟨htr, hl⟩ := h.again hm pairs
      rw [hst, hm, ← hl]
      exact ih htr
    · obtain ⟨htr, hl⟩ := h.moved hm pairs
      rw [← hz] at htr hl
      rw [← hadd, ← hl]
      exact ih htr

end ZaddPairs

/-! ## Sets that have lost nothing -/

section Parting

variable {S : Type} [LinearOrder S] {now : Instant} {d : Data S} {key : Bytes}

theorem Trails.refl (z : SortedSet S) : Trails z z := ⟨rfl, fun _ h => h, fun _ h hn => absurd h hn⟩

theorem lost_self {z : SortedSet S} {pairs : List (S × Bytes)} :
    Lost z z pairs ↔ Restores z pairs := by
  refine exists₂_congr fun s m => ⟨?_, ?_⟩
  · rintro ⟨hin, hm, hout, hall⟩
    exact ⟨hin.resolve_right hout, hm, hout, hall⟩
  · rintro ⟨hin, hm, hout, hall⟩
    exact ⟨.inl hin, hm, hout, hall⟩

/-- A set whose indexes agree has lost nothing. -/
theorem SortedSet.Coherent.not_restores {z : SortedSet S} (h : z.Coherent)
    (pairs : List (S × Bytes)) : ¬ Restores z pairs := by
  rintro ⟨s, m, -, hm, hout, -⟩
  exact hout ((h s m).mpr hm)

end Parting

/-! ## One command at a time -/

namespace Script

variable {S : Type} [Score S] {e : Env} {wall : UInt64} {walk : FinMap.WalkOrder} {d : Data S}
  {key : Bytes}

theorem get_matches :
    Matches Eq Shows (get e [key] d) (answer .value (Store.get ⟨e.now, wall, walk⟩ key d)) :=
  answer_matches (readAs_matches (.value none) .wrongType fun v => .value (some v))

/-- A word that takes no argument. -/
theorem setOptions_cons {word : Bytes} (hex : optionWord word ≠ "EX")
    (hpx : optionWord word ≠ "PX") (rest : List Bytes) (o : SetOptions) :
    setOptions (word :: rest) o =
      if optionWord word = "NX" then setOptions rest { o with nx := true }
      else if optionWord word = "XX" then setOptions rest { o with xx := true }
      else setOptions rest o := by
  have hlast : ∀ x y : Except Reply SetOptions, (if optionWord word = "EX" then x
      else if optionWord word = "PX" then y else setOptions rest o) = setOptions rest o :=
    fun _ _ => (if_neg hex).trans (if_neg hpx)
  cases rest with
  | nil => exact congrArg (ite _ _) (congrArg (ite _ _) (hlast _ _))
  | cons arg rest => exact congrArg (ite _ _) (congrArg (ite _ _) (hlast _ _))

theorem setOptions_word {word : SetWord} {part : List Bytes} (h : word.Spelled part)
    (rest : List Bytes) (o : SetOptions) :
    setOptions (part ++ rest) o = setOptions rest (word.set o) := by
  cases h with
  | @nx w hw =>
    rw [List.singleton_append, setOptions_cons (by rw [hw]; decide) (by rw [hw]; decide), if_pos hw]
    rfl
  | @xx w hw =>
    have hnx : optionWord w ≠ "NX" := by
      rw [hw]
      decide
    rw [List.singleton_append, setOptions_cons (by rw [hw]; decide) (by rw [hw]; decide),
      if_neg hnx, if_pos hw]
    rfl
  | @ex w text secs hw hn =>
    have hnx : optionWord w ≠ "NX" := by
      rw [hw]
      decide
    have hxx : optionWord w ≠ "XX" := by
      rw [hw]
      decide
    have hread : setOptions (w :: text :: rest) o =
        setOptions rest { o with ttl := some (.fromSecs secs.toNat) } :=
      (if_neg hnx).trans ((if_neg hxx).trans ((if_pos hw).trans (by rw [hn])))
    rw [List.cons_append, List.singleton_append, hread]
    rfl
  | @px w text ms hw hn =>
    have hnx : optionWord w ≠ "NX" := by
      rw [hw]
      decide
    have hxx : optionWord w ≠ "XX" := by
      rw [hw]
      decide
    have hex : optionWord w ≠ "EX" := by
      rw [hw]
      decide
    have hread : setOptions (w :: text :: rest) o =
        setOptions rest { o with ttl := some (.fromMillis ms.toNat) } :=
      (if_neg hnx).trans ((if_neg hxx).trans ((if_neg hex).trans ((if_pos hw).trans (by rw [hn]))))
    rw [List.cons_append, List.singleton_append, hread]
    rfl
  | skipped hw =>
    simp only [List.mem_cons, List.not_mem_nil, or_false, not_or] at hw
    rw [List.singleton_append, setOptions_cons hw.2.2.1 hw.2.2.2, if_neg hw.1, if_neg hw.2.1]
    rfl

/-- The arguments of SET are read as the options they spell. -/
theorem setOptions_words {words : List SetWord} {parts : List (List Bytes)}
    (h : List.Forall₂ SetWord.Spelled words parts) (o : SetOptions) :
    setOptions parts.flatten o = .ok (words.foldl SetWord.set o) := by
  induction h generalizing o with
  | nil => rfl
  | cons hw _ ih => rw [List.flatten_cons, setOptions_word hw, ih, List.foldl_cons]

theorem set_matches {value : Bytes} {words : List SetWord} {parts : List (List Bytes)}
    (hw : List.Forall₂ SetWord.Spelled words parts) :
    Matches Eq Shows (set e (key :: value :: parts.flatten) d)
      ((KeyCall.set key value (words.foldl SetWord.set {})).run ⟨e.now, wall, walk⟩ d) := by
  simp only [set, setOptions_words hw, KeyCall.run, Store.set, insert_purge]
  split_ifs
  · exact ⟨rfl, .notStored⟩
  · exact ⟨rfl, .notStored⟩
  · exact ⟨rfl, .stored⟩

theorem del_matches {keys : List Bytes} :
    Matches Eq Shows (del e (key :: keys) d)
      (answerAlways .count (Store.delete ⟨e.now, wall, walk⟩ (key :: keys) d)) :=
  ⟨rfl, .count _⟩

/-- EXISTS removes expired keys on its way and counts the same. -/
theorem existsKeys_foldl (keys : List Bytes) {d' : Data S} (h : SameLive e.now d' d) (n : ℤ) :
    Matches (SameLive e.now) Eq
      (keys.foldl (fun (r : Data S × ℤ) key =>
        (purge e.now key r.1, if (live e.now r.1 key).isSome then r.2 + 1 else r.2)) (d', n))
      (d, keys.foldl (fun n key => if (live e.now d key).isSome then n + 1 else n) n) := by
  induction keys generalizing d' n with
  | nil => exact ⟨h, rfl⟩
  | cons key keys ih =>
    simp only [List.foldl_cons, h key]
    exact ih (fun k => by rw [live_purge, h k]) _

theorem existsKeys_matches {keys : List Bytes} :
    Matches (SameLive e.now) Shows (existsKeys e (key :: keys) d)
      (answerAlways .count (d, Store.existsKeys ⟨e.now, wall, walk⟩ (key :: keys) d)) := by
  have h := existsKeys_foldl (e := e) (key :: keys) (SameLive.refl (d := d)) 0
  refine ⟨h.data, ?_⟩
  show Shows (integer _) (.ok (.count (Store.existsKeys ⟨e.now, wall, walk⟩ (key :: keys) d)))
  rw [h.answer]
  exact .count _

theorem expire_matches {time : Bytes} {seconds : ℤ} (hs : parseI64 time = some seconds) :
    Matches Eq Shows (expire e [key, time] d)
      (answerAlways .holds (Store.expire ⟨e.now, wall, walk⟩ key seconds d)) := by
  simp only [expire, expireAs, hs, Store.expire]
  split_ifs
  · exact ⟨rfl, .holds _⟩
  · cases (purge e.now key d)[key]? with
    | none => exact ⟨rfl, .holds false⟩
    | some en => exact ⟨rfl, .holds true⟩

theorem hset_matches {fields : List (Bytes × Bytes)} (hne : fields ≠ []) :
    Matches Eq Shows (hset e (key :: flattenPairs fields) d)
      (answer .count (Store.hset ⟨e.now, wall, walk⟩ key fields d)) := by
  simp only [hset, if_neg (flattenPairs_arity hne), pairUp_flattenPairs]
  exact answer_matches (upsertAs_matches .wrongType fun _ => ⟨rfl, .count _⟩)

theorem hget_matches {field : Bytes} :
    Matches Eq Shows (hget e [key, field] d)
      (answer .value (Store.hget ⟨e.now, wall, walk⟩ key field d)) :=
  answer_matches (readAs_matches (.value none) .wrongType fun _ => .value _)

theorem hdel_matches {field : Bytes} {fields : List Bytes} :
    Matches Eq Shows (hdel e (key :: field :: fields) d)
      (answer .count (Store.hdel ⟨e.now, wall, walk⟩ key (field :: fields) d)) :=
  answer_matches (thenRemoveIfEmpty_matches
    (modifyAs_matches (.count 0) .wrongType fun _ => ⟨rfl, .count _⟩))

theorem hvals_matches :
    Matches Eq Shows (hvals e [key] d)
      (answer .walked (Store.hvals ⟨e.now, wall, walk⟩ key d)) := by
  refine answer_matches (readAs_matches (.walked (.refl [])) .wrongType fun map => .walked ?_)
  exact (FinMap.walk_perm e.walk map |>.trans (FinMap.walk_perm walk map).symm).map Prod.snd

theorem hgetall_matches :
    Matches Eq Shows (hgetall e [key] d)
      (answer .fields (Store.hgetall ⟨e.now, wall, walk⟩ key d)) := by
  have hnil : ([] : List (Bytes × Bytes)).Perm (∅ : FinMap Bytes Bytes).toList := .refl []
  exact answer_matches (readAs_matches (.fields hnil) .wrongType fun map =>
    .fields (FinMap.walk_perm e.walk map))

theorem hexists_matches {field : Bytes} :
    Matches Eq Shows (hexists e [key, field] d)
      (answer .holds (Store.hexists ⟨e.now, wall, walk⟩ key field d)) :=
  answer_matches (readAs_matches (.holds false) .wrongType fun _ => .holds _)

theorem hincrby_matches {field by_ : Bytes} {increment : ℤ} (hi : parseI64 by_ = some increment) :
    Matches Eq Shows (hincrby e [key, field, by_] d)
      (answer .count (Store.hincrby ⟨e.now, wall, walk⟩ key field increment d)) := by
  simp only [hincrby, hi]
  refine answer_matches (upsertAs_matches .wrongType fun map => ?_)
  cases hincrbyValue map[field]? increment with
  | error err => exact ⟨rfl, .error err⟩
  | ok newVal => exact ⟨rfl, .count newVal⟩

theorem sadd_matches {member : Bytes} {members : List Bytes} :
    Matches Eq Shows (sadd e (key :: member :: members) d)
      (answer .count (Store.sadd ⟨e.now, wall, walk⟩ key (member :: members) d)) := by
  simp only [sadd]
  exact answer_matches (upsertAs_matches .wrongType fun _ => ⟨rfl, .count _⟩)

theorem smembers_matches :
    Matches Eq Shows (smembers e [key] d)
      (answer .walked (Store.smembers ⟨e.now, wall, walk⟩ key d)) := by
  refine answer_matches (readAs_matches (.walked (.refl [])) .wrongType fun set => .walked ?_)
  exact (FinMap.walk_perm e.walk set |>.trans (FinMap.walk_perm walk set).symm).map Prod.fst

theorem sismember_matches {member : Bytes} :
    Matches Eq Shows (sismember e [key, member] d)
      (answer .holds (Store.sismember ⟨e.now, wall, walk⟩ key member d)) :=
  answer_matches (readAs_matches (.holds false) .wrongType fun _ => .holds _)

theorem srem_matches {member : Bytes} {members : List Bytes} :
    Matches Eq Shows (srem e (key :: member :: members) d)
      (answer .count (Store.srem ⟨e.now, wall, walk⟩ key (member :: members) d)) :=
  answer_matches (thenRemoveIfEmpty_matches
    (modifyAs_matches (.count 0) .wrongType fun _ => ⟨rfl, .count _⟩))

theorem zrem_matches {member : Bytes} {members : List Bytes} :
    Matches Eq Shows (zrem e (key :: member :: members) d)
      (answer .count (Store.zrem ⟨e.now, wall, walk⟩ key (member :: members) d)) :=
  answer_matches (thenRemoveIfEmpty_matches
    (modifyAs_matches (.count 0) .wrongType fun _ => ⟨rfl, .count _⟩))

/-- A member with its score, as a script sees it and as the method returns it. -/
theorem scored_eq (withscores : Bool) (p : ScoredMember S) :
    scored withscores p =
      (Store.withScore withscores p).1 ::
        ((Store.withScore withscores p).2.map Score.format).toList := by
  cases withscores <;> rfl

theorem zrange_matches {start stop : Bytes} {i j : ℤ} (hi : parseI64 start = some i)
    (hj : parseI64 stop = some j) {rest : List Bytes} {withscores : Bool}
    (hw : withscores = true ↔ ∃ arg ∈ rest, optionWord arg = "WITHSCORES") :
    Matches Eq Shows (zrange e (key :: start :: stop :: rest) d)
      (answer .ranked (Store.zrange ⟨e.now, wall, walk⟩ key i j withscores d)) := by
  have hany : (rest.any fun arg => optionWord arg = "WITHSCORES") = withscores := by
    rw [Bool.eq_iff_iff, List.any_eq_true, hw]
    simp only [decide_eq_true_eq]
  simp only [zrange, hi, hj, hany]
  refine answer_matches (readAs_matches (.ranked []) .wrongType fun zset => ?_)
  cases Store.zrangeWindow i j zset.len with
  | none => exact .ranked []
  | some w =>
    obtain ⟨skip, take⟩ := w
    have hbulks := List.flatMap_map (Store.withScore withscores)
      (fun p : Bytes × Option S => p.1 :: (p.2.map Score.format).toList)
      ((zset.byScore.keys.drop skip).take take)
    simp only [← scored_eq] at hbulks
    dsimp only
    rw [← hbulks]
    exact .ranked _

theorem zcard_matches :
    Matches Eq Shows (zcard e [key] d) (answer .count (Store.zcard ⟨e.now, wall, walk⟩ key d)) :=
  answer_matches (readAs_matches (.count 0) .wrongType fun _ => .count _)

/-! ## ZADD -/

section Zadd

variable {pairs : List (S × Bytes)}

/-- The method on a key without a value: a new set is made. -/
theorem storeZadd_absent (hne : pairs ≠ []) (h : live e.now d key = none) :
    Store.zadd e key pairs {} d =
      (d.insert key ⟨.sortedSet (pairs.foldl (Store.zaddStep {}) ⟨.new, 0, 0⟩).zset, none⟩,
        .ok (pairs.foldl (Store.zaddStep {}) ⟨.new, 0, 0⟩).added) := by
  have hfull := foldl_zaddStep_not_empty hne ⟨.new, 0, 0⟩
  rw [Store.zadd, upsertAs_absent h, thenRemoveIfEmpty]
  exact Prod.ext (removeIfEmpty_insert hfull) rfl

/-- The method on a key with a sorted set. -/
theorem storeZadd_found (hne : pairs ≠ []) {z : SortedSet S} {exp : Option Instant}
    (h : live e.now d key = some ⟨.sortedSet z, exp⟩) :
    Store.zadd e key pairs {} d =
      (d.insert key ⟨.sortedSet (pairs.foldl (Store.zaddStep {}) ⟨z, 0, 0⟩).zset, exp⟩,
        .ok (pairs.foldl (Store.zaddStep {}) ⟨z, 0, 0⟩).added) := by
  have hfull := foldl_zaddStep_not_empty hne ⟨z, 0, 0⟩
  have hfound : live e.now d key = some ⟨Kind.sortedSet.wrap z, exp⟩ := h
  rw [Store.zadd, upsertAs_found hfound, thenRemoveIfEmpty]
  exact Prod.ext (removeIfEmpty_insert hfull) rfl

/-- The method on a key with a value of another type. -/
theorem storeZadd_wrong {en : ValueEntry S} (h : live e.now d key = some en)
    (hd : Kind.sortedSet.get? en.data = none) :
    Store.zadd e key pairs {} d = (removeIfEmpty key (purge e.now key d), .error .wrongType) := by
  rw [Store.zadd, upsertAs_wrong h hd, thenRemoveIfEmpty]

theorem zadd_matches_iff {args : List (Bytes × Bytes)} (hargs : args ≠ [])
    (hp : List.Forall₂ KeyCall.DecodesPair args pairs) :
    Matches (SameLive e.now) Shows (zadd e (key :: flattenPairs args) d)
        (answer .count (Store.zadd ⟨e.now, wall, walk⟩ key pairs {} d)) ↔
      ¬ (KeyCall.zadd key pairs).Diverges e.now d := by
  have hne : pairs ≠ [] := by
    rintro rfl
    exact hargs (List.forall₂_nil_right_iff.mp hp)
  simp only [zadd, if_neg (flattenPairs_arity hargs), pairUp_flattenPairs, KeyCall.Diverges, liveData]
  cases look .sortedSet e.now key d with
  | absent h =>
    obtain ⟨hadded, hset⟩ := zaddPairs_foldl hp (t := ⟨.new, 0, 0⟩) (Trails.refl .new)
    have heq := hset.mpr (mt lost_self.mp (SortedSet.coherent_new.not_restores pairs))
    rw [upsertAs_absent h, storeZadd_absent (e := ⟨e.now, wall, walk⟩) hne h, h]
    refine iff_of_true ⟨.of_eq ?_, ?_⟩ (by simp)
    · rw [heq]
      rfl
    · rw [hadded]
      exact .count _
  | wrong en h hd =>
    rw [upsertAs_wrong h hd, storeZadd_wrong (e := ⟨e.now, wall, walk⟩) h hd, h]
    have hs := sameLive_removeIfEmpty_iff h
    have hz : ∀ z, en.data ≠ .sortedSet z := by
      intro z hz
      rw [hz] at hd
      cases hd
    constructor
    · intro hm
      have hempty := hs.mp hm.data
      rintro (⟨x, hx, -, hx'⟩ | ⟨z, hx, -⟩)
      · cases hx
        exact Bool.false_ne_true (hempty.symm.trans hx')
      · exact hz z (Option.some.inj hx)
    · intro hn
      have hempty : en.data.isEmptyContainer = false := by
        by_contra he
        exact hn (.inl ⟨en.data, rfl, hd, Bool.not_eq_false _ ▸ he⟩)
      exact ⟨hs.mpr hempty, Shows.wrongType⟩
  | found z exp h =>
    obtain ⟨hadded, hset⟩ := zaddPairs_foldl hp (t := ⟨z, 0, 0⟩) (Trails.refl z)
    rw [lost_self] at hset
    rw [upsertAs_found h, storeZadd_found (e := ⟨e.now, wall, walk⟩) hne h, h]
    have hexp : ∀ x, (⟨x, exp⟩ : ValueEntry S).isExpired e.now = false :=
      fun _ => (live_eq_some.mp h).2
    constructor
    · intro hm
      have hvals := ValueData.sortedSet.inj ((sameLive_insert_iff (hexp _)).mp hm.data)
      rintro (⟨x, hx, hx', -⟩ | ⟨z', hx, hr⟩)
      · cases hx
        cases hx'
      · cases hx
        exact hset.mp hvals hr
    · intro hn
      have heq := hset.mpr fun hr => hn (.inr ⟨z, rfl, hr⟩)
      refine ⟨.of_eq ?_, ?_⟩
      · rw [heq]
        rfl
      · rw [hadded]
        exact .count _

end Zadd

end Script

/-! ## All of them -/

section All

variable {S : Type} [Score S]

open Script

/-- A command in a script leaves the live entries that the method leaves, and replies what the
method answers, if and only if it does not diverge. -/
theorem key_command_matches_iff (e : Env) (wall : UInt64) (walk : FinMap.WalkOrder) {cmd : String}
    {args : List Bytes} {call : KeyCall S} (h : KeyCall.Decodes cmd args call) (d : Data S) :
    Matches (SameLive e.now) Shows (dispatchInner e cmd args d) (call.run ⟨e.now, wall, walk⟩ d) ↔
      ¬ call.Diverges e.now d := by
  have same : ∀ {a : Data S × Reply} {b : Data S × Except StoreError (Answer S)},
      Matches Eq Shows a b → (Matches (SameLive e.now) Shows a b ↔ ¬ False) :=
    fun hm => iff_of_true (hm.mono SameLive.of_eq) not_false
  cases h with
  | get key => exact same get_matches
  | set key value hw => exact same (set_matches hw)
  | del key keys => exact same del_matches
  | existsKeys key keys => exact iff_of_true existsKeys_matches not_false
  | expire key hs => exact same (expire_matches hs)
  | hset key hne => exact same (hset_matches hne)
  | hget key field => exact same hget_matches
  | hdel key field fields => exact same hdel_matches
  | hvals key => exact same hvals_matches
  | hgetall key => exact same hgetall_matches
  | hexists key field => exact same hexists_matches
  | hincrby key field hi => exact same (hincrby_matches hi)
  | sadd key member members => exact same sadd_matches
  | smembers key => exact same smembers_matches
  | sismember key member => exact same sismember_matches
  | srem key member members => exact same srem_matches
  | zadd key hne hm => exact zadd_matches_iff hne hm
  | zrem key member members => exact same zrem_matches
  | zrange key hi hj hw => exact same (zrange_matches hi hj hw)
  | zcard key => exact same zcard_matches

/-- A sorted set that is still alive at the time 5. -/
def scoredData : Data ℤ :=
  (∅ : Data ℤ).insert (ascii "z") ⟨.sortedSet (SortedSet.new.insert (ascii "m") 1).1, some 9⟩

/-- A member that gets another score, and a string set with options, in a script and by the
method. -/
theorem rescored_matches :
    Matches (SameLive 5) Shows
      (dispatchInner ⟨5, 0, .byKey⟩ "ZADD" [ascii "z", ascii "2", ascii "m"] scoredData)
      ((KeyCall.zadd (ascii "z") [(2, ascii "m")]).run ⟨5, 0, .byKey⟩ scoredData) ∧
    Matches (SameLive 5) Shows
      (dispatchInner ⟨5, 0, .byKey⟩ "SET" [ascii "k", ascii "v", ascii "nx", ascii "ex", ascii "10"]
        scoredData)
      ((KeyCall.set (ascii "k") (ascii "v") { nx := true, ttl := some (.fromSecs 10) }).run
        ⟨5, 0, .byKey⟩ scoredData) := by
  constructor
  · have hp : List.Forall₂ (KeyCall.DecodesPair (S := ℤ)) [(ascii "2", ascii "m")]
        [(2, ascii "m")] := .cons ⟨by decide +kernel, rfl⟩ .nil
    refine (key_command_matches_iff ⟨5, 0, .byKey⟩ 0 .byKey
      (.zadd (ascii "z") (List.cons_ne_nil _ _) hp) _).mpr ?_
    rintro (⟨x, hx, hx', -⟩ | ⟨z, hx, hr⟩)
    · rw [scoredData, liveData, live_insert, if_pos rfl] at hx
      cases hx
      cases hx'
    · rw [scoredData, liveData, live_insert, if_pos rfl] at hx
      cases hx
      exact (SortedSet.coherent_new.insert _ _).not_restores _ hr
  · have hsecs : parseU64 (ascii "10") = some 10 := by decide
    have hw : List.Forall₂ SetWord.Spelled [.nx, .lifetime (.fromSecs (10 : UInt64).toNat)]
        [[ascii "nx"], [ascii "ex", ascii "10"]] :=
      .cons (.nx (by decide)) (.cons (.ex (by decide) hsecs) .nil)
    exact (key_command_matches_iff ⟨5, 0, .byKey⟩ 0 .byKey (.set (ascii "k") (ascii "v") hw) _).mpr
      not_false

end All

/-- What a call of HSET without fields leaves: an empty hash. -/
def emptyHash : Instant × Store ℤ :=
  runActions id (0, ⟨∅, ∅⟩) [.op 0 .byKey (.hset (ascii "h") [])]

theorem emptyHash_zadd_parts :
    Reachable anyAction id emptyHash.1 emptyHash.2 ∧
      KeyCall.Decodes "ZADD" [ascii "h", ascii "1", ascii "m"]
        (.zadd (ascii "h") [((1 : ℤ), ascii "m")]) ∧
      ¬ Matches (SameLive 0) Shows
        (Script.dispatchInner ⟨0, 0, .byKey⟩ "ZADD" [ascii "h", ascii "1", ascii "m"]
          emptyHash.2.data)
        ((KeyCall.zadd (ascii "h") [((1 : ℤ), ascii "m")]).run ⟨0, 0, .byKey⟩
          emptyHash.2.data) := by
  have hp : List.Forall₂ (KeyCall.DecodesPair (S := ℤ)) [(ascii "1", ascii "m")]
      [(1, ascii "m")] := .cons ⟨by decide +kernel, rfl⟩ .nil
  refine ⟨Reachable.runActions (.empty 0) _, .zadd _ (List.cons_ne_nil _ _) hp, fun hm => ?_⟩
  have hkey := hm.data (ascii "h")
  revert hkey
  decide +kernel

end BurnerRedis
