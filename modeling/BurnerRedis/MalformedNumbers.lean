import BurnerRedis.LiveValues
import BurnerRedis.Reading
import BurnerRedis.ScoreRanges
import BurnerRedis.Script.Dispatch

/-!
# Texts that are no numbers

XDEL, XACK and ZREMRANGEBYSCORE of a script read their ids and bounds with `unwrap_or(0)`: the half
of an id that is no number counts as zero, and so does a bound. Such a text removes what it happens
to read as. Here it is said when it removes nothing.
-/

namespace BurnerRedis

/-! ## Removing entries one by one -/

theorem Stream.mem_discard {s : Stream} {ids : List StreamId} {i : StreamId} :
    i ∈ (s.discard ids).entries ↔ i ∈ s.entries ∧ i ∉ ids := by
  induction ids generalizing s with
  | nil => simp [Stream.discard]
  | cons id ids ih =>
    have h := ih (s := { s with entries := s.entries.erase id })
    rw [Std.ExtTreeMap.mem_erase, ne_eq, Std.compare_eq_iff_eq] at h
    rw [List.mem_cons, not_or]
    refine h.trans ?_
    grind

theorem Stream.discard_concat (s : Stream) (ids : List StreamId) (i : StreamId) :
    s.discard (ids ++ [i]) =
      { s.discard ids with entries := (s.discard ids).entries.erase i } := by
  rw [Stream.discard, List.foldl_append, ← Stream.discard]
  rfl

/-- One id more removes nothing exactly when it is not there, or is removed already. -/
theorem Stream.discard_concat_eq_iff {s : Stream} {ids : List StreamId} {i : StreamId} :
    s.discard (ids ++ [i]) = s.discard ids ↔ (i ∈ s.entries → i ∈ ids) := by
  constructor
  · intro h hi
    by_contra hids
    have hmem : i ∈ (s.discard ids).entries := Stream.mem_discard.mpr ⟨hi, hids⟩
    rw [← h, Stream.mem_discard] at hmem
    apply hmem.2
    exact List.mem_append_right ids List.mem_cons_self
  · intro h
    have hmem : i ∉ (s.discard ids).entries := by
      rw [Stream.mem_discard]
      exact fun hi => hi.2 (h hi.1)
    rw [FinMap.not_mem_iff_getElem?] at hmem
    rw [Stream.discard_concat, FinMap.erase_of_getElem?_eq_none hmem]

/-! ## Acknowledging ids one by one -/

namespace ConsumerGroup

variable {o : FinMap.WalkOrder}

/-- The consumers at which an id is pending. -/
def holders (cg : ConsumerGroup) (id : StreamId) : List Bytes :=
  cg.consumers.keys.filter fun c => decide (cg.owns c id)

theorem mem_holders {cg : ConsumerGroup} {id : StreamId} {c : Bytes} :
    c ∈ cg.holders id ↔ cg.owns c id := by
  rw [holders, List.mem_filter, decide_eq_true_eq, and_iff_right_iff_imp, Std.ExtTreeMap.mem_keys]
  intro h
  obtain ⟨con, hcon, -⟩ := owns_iff.mp h
  exact FinMap.mem_iff_getElem?.mpr ⟨con, hcon⟩

theorem nodup_holders (cg : ConsumerGroup) (id : StreamId) : (cg.holders id).Nodup := by
  apply List.Nodup.filter
  rw [← Std.ExtTreeMap.map_fst_toList_eq_keys]
  exact FinMap.nodup_fst_toList cg.consumers

/-- Lists of holders with the same members are as long. -/
theorem length_holders_eq {cg : ConsumerGroup} {id : StreamId} {l : List Bytes} (hl : l.Nodup)
    (h : ∀ c, c ∈ l ↔ cg.owns c id) : (cg.holders id).length = l.length := by
  apply List.Perm.length_eq
  rw [List.perm_ext_iff_of_nodup (cg.nodup_holders id) hl]
  intro c
  rw [mem_holders, h]

theorem holders_eq_nil_iff {cg : ConsumerGroup} {id : StreamId} :
    cg.holders id = [] ↔ cg.holder o id = none := by
  rw [List.eq_nil_iff_forall_not_mem]
  constructor
  · intro h
    rw [Option.eq_none_iff_forall_not_mem]
    intro f hf
    exact h f.1 (mem_holders.mpr (owns_of_holder hf))
  · intro h c hc
    exact not_owns_of_holder h c (mem_holders.mp hc)

theorem length_holders_removePending {cg : ConsumerGroup} {c : Bytes} {i : StreamId}
    (h : cg.owns c i) (id : StreamId) :
    ((cg.removePending c i).holders id).length =
      (cg.holders id).length - if i = id then 1 else 0 := by
  by_cases hid : i = id
  · subst hid
    rw [if_pos rfl, ← List.length_erase_of_mem (mem_holders.mpr h)]
    apply length_holders_eq ((cg.nodup_holders i).erase c)
    intro c'
    rw [(cg.nodup_holders i).mem_erase_iff, mem_holders, owns_removePending, ne_comm]
    simp
  · rw [if_neg hid, Nat.sub_zero]
    apply length_holders_eq (cg.nodup_holders id)
    intro c'
    rw [mem_holders, owns_removePending]
    simp [hid]

/-- Acknowledging an id takes it from one of its holders. -/
theorem length_holders_ackOne (r : ConsumerGroup × ℤ) (i id : StreamId) :
    ((ackOne o r i).1.holders id).length =
      (r.1.holders id).length - if i = id then 1 else 0 := by
  unfold ackOne
  cases hf : r.1.holder o i with
  | some f => exact length_holders_removePending (owns_of_holder hf) id
  | none =>
    dsimp only
    split_ifs with hid
    · rw [← hid, holders_eq_nil_iff.mpr hf]
      rfl
    · rfl

theorem length_holders_foldl (ids : List StreamId) (r : ConsumerGroup × ℤ) (id : StreamId) :
    ((ids.foldl (ackOne o) r).1.holders id).length = (r.1.holders id).length - ids.count id := by
  induction ids generalizing r with
  | nil => rfl
  | cons i ids ih =>
    rw [List.foldl_cons, ih, length_holders_ackOne, List.count_cons]
    simp only [beq_iff_eq]
    omega

/-- The group after the ids are acknowledged one after the other. -/
def ackAll (o : FinMap.WalkOrder) (ids : List StreamId) (cg : ConsumerGroup) : ConsumerGroup :=
  (ids.foldl (ackOne o) (cg, 0)).1

theorem ackOne_eq_iff {r : ConsumerGroup × ℤ} {i : StreamId} :
    (ackOne o r i).1 = r.1 ↔ r.1.holders i = [] := by
  constructor
  · intro h
    have hlen := length_holders_ackOne (o := o) r i i
    rw [h, if_pos rfl] at hlen
    rw [← List.length_eq_zero_iff]
    omega
  · intro h
    unfold ackOne
    rw [holders_eq_nil_iff.mp h]

/-- One id more takes nothing exactly when the ids before it have taken all its holders. -/
theorem ackAll_concat_eq_iff {cg : ConsumerGroup} {ids : List StreamId} {i : StreamId} :
    ackAll o (ids ++ [i]) cg = ackAll o ids cg ↔ (cg.holders i).length ≤ ids.count i := by
  unfold ackAll
  rw [List.foldl_append, List.foldl_cons, List.foldl_nil, ackOne_eq_iff, ← List.length_eq_zero_iff,
    length_holders_foldl, Nat.sub_eq_zero_iff_le]

end ConsumerGroup

/-! ## Ids in a script -/

namespace Script

/-- Every id text that is no stream id is without effect: the command comes with the arguments up
to it to what it comes to with those before it. -/
def IdsSpared {α : Type} (run : List Bytes → α) (texts : List Bytes) : Prop :=
  ∀ before text after, texts = before ++ text :: after → parseStreamId text = none →
    run (before ++ [text]) = run before

/-- No id text that is no stream id reads as an id that is hit after the ids before it. -/
def IdsMiss (hit : List StreamId → StreamId → Prop) (texts : List Bytes) : Prop :=
  ∀ before text after, texts = before ++ text :: after → parseStreamId text = none →
    ∀ i, lenientId text = some i → ¬ hit (before.filterMap lenientId) i

theorem idsSpared_iff {α : Type} {run : List Bytes → α} (runIds : List StreamId → α)
    {hit : List StreamId → StreamId → Prop}
    (hrun : ∀ texts, run texts = runIds (texts.filterMap lenientId))
    (hhit : ∀ ids i, runIds (ids ++ [i]) = runIds ids ↔ ¬ hit ids i) (texts : List Bytes) :
    IdsSpared run texts ↔ IdsMiss hit texts := by
  have hone : ∀ before text, run (before ++ [text]) = run before ↔
      ∀ i, lenientId text = some i → ¬ hit (before.filterMap lenientId) i := by
    intro before text
    rw [hrun, hrun, List.filterMap_append]
    cases htext : lenientId text with
    | none =>
      rw [List.filterMap_cons_none htext, List.filterMap_nil, List.append_nil]
      simp
    | some i =>
      rw [List.filterMap_cons_some htext, List.filterMap_nil, hhit]
      simp
  unfold IdsSpared IdsMiss
  simp only [hone]

section Ids

variable {S : Type} [LinearOrder S] {e : Env} {d : Data S} {key group : Bytes}

/-- XDEL discards the ids it can read, one after the other. -/
theorem liveStream_xdel (texts : List Bytes) :
    liveStream e.now (xdel e (key :: texts) d).1 key =
      (liveStream e.now d key).map fun s => s.discard (texts.filterMap lenientId) := by
  cases texts with
  | nil =>
    show liveStream e.now d key = _
    cases liveStream e.now d key <;> rfl
  | cons id ids => exact liveAs_modifyAs (t := Kind.stream) _ _ _

/-- The stream after its group has acknowledged ids, if it has the group. -/
def ackedStream (e : Env) (group : Bytes) (ids : List StreamId) (s : Stream) : Stream :=
  match s.groups[group]? with
  | none => s
  | some cg => s.putGroup group (cg.ackAll e.walk ids)

/-- XACK acknowledges the ids it can read, one after the other. -/
theorem liveStream_xack (texts : List Bytes) :
    liveStream e.now (xack e (key :: group :: texts) d).1 key =
      (liveStream e.now d key).map (ackedStream e group (texts.filterMap lenientId)) := by
  cases texts with
  | nil =>
    show liveStream e.now d key = _
    have hself : ∀ s, ackedStream e group [] s = s := by
      intro s
      unfold ackedStream
      cases hcg : s.groups[group]? with
      | none => rfl
      | some cg =>
        show s.putGroup group cg = s
        rw [Stream.putGroup, FinMap.insert_self_of_getElem? hcg]
    rw [List.filterMap_nil, funext hself, Option.map_id']
  | cons id ids =>
    refine (liveAs_modifyAs (t := Kind.stream) _ _ _).trans ?_
    show Option.map _ (liveStream e.now d key) = _
    congr 1
    funext s
    unfold ackedStream
    cases s.groups[group]? <;> rfl

theorem ackedStream_concat_eq_iff {ids : List StreamId} {i : StreamId} {s : Stream} :
    ackedStream e group (ids ++ [i]) s = ackedStream e group ids s ↔
      ∀ cg, s.groups[group]? = some cg → (cg.holders i).length ≤ ids.count i := by
  unfold ackedStream
  cases hcg : s.groups[group]? with
  | none => simp
  | some cg =>
    simp only [Option.some.injEq, forall_eq', ← ConsumerGroup.ackAll_concat_eq_iff (o := e.walk)]
    constructor
    · intro h
      have hget := congrArg (fun s : Stream => s.groups[group]?) h
      simp only [Stream.putGroup_groups, if_true, Option.some.injEq] at hget
      exact hget
    · intro h
      rw [h]

/-- The id is in the stream under the key and not among those removed before. -/
def XdelHit (e : Env) (d : Data S) (key : Bytes) (removed : List StreamId) (i : StreamId) : Prop :=
  ∃ s, liveStream e.now d key = some s ∧ i ∈ s.entries ∧ i ∉ removed

/-- The id is pending at more consumers of the group than acknowledge it before. -/
def XackHit (e : Env) (d : Data S) (key group : Bytes) (acked : List StreamId) (i : StreamId) :
    Prop :=
  ∃ cg, liveGroup e.now d key group = some cg ∧ acked.count i < (cg.holders i).length

theorem xdel_spared_iff (texts : List Bytes) :
    IdsSpared (fun texts => liveStream e.now (xdel e (key :: texts) d).1 key) texts ↔
      IdsMiss (XdelHit e d key) texts := by
  apply idsSpared_iff (fun ids => (liveStream e.now d key).map fun s => s.discard ids)
    liveStream_xdel
  intro ids i
  unfold XdelHit
  cases liveStream e.now d key with
  | none => simp
  | some s => simp [Stream.discard_concat_eq_iff]

theorem xack_spared_iff (texts : List Bytes) :
    IdsSpared (fun texts => liveStream e.now (xack e (key :: group :: texts) d).1 key) texts ↔
      IdsMiss (XackHit e d key group) texts := by
  apply idsSpared_iff (fun ids => (liveStream e.now d key).map (ackedStream e group ids))
    liveStream_xack
  intro ids i
  unfold XackHit liveGroup
  cases liveStream e.now d key with
  | none => simp
  | some s => simp [ackedStream_concat_eq_iff]

end Ids

/-! ## Bounds in a script -/

section Bounds

/-- The text of a bound without the white space around it and without its parenthesis. -/
def boundText (arg : Bytes) : List Char :=
  match trimChars (fromUtf8Lossy arg).toList with
  | '(' :: stripped => stripped
  | s => s

variable {S : Type} [Score S] {e : Env} {d : Data S} {key min max : Bytes}

/-- The text of a bound is neither an infinity nor a number. -/
def MalformedBound (S : Type) [Score S] (arg : Bytes) : Prop :=
  boundText arg ∉ ["inf".toList, "+inf".toList, "-inf".toList] ∧
    (Score.parse (String.ofList (boundText arg)) : Option S) = none

/-- The members that the command removes are those of the pairs within its bounds. -/
theorem liveScore_zremrangebyscore (rest : List Bytes) (m : Bytes) :
    liveScore e.now (zremrangebyscore e (key :: min :: max :: rest) d).1 key m =
      (liveAs Kind.sortedSet e.now d key).bind fun z =>
        if m ∈ (boundedRange z (parseScoreArg min) (parseScoreArg max)).map (·.member) then none
        else z.byMember[m]? := by
  unfold liveScore zremrangebyscore thenRemoveIfEmpty
  rw [liveAs_removeIfEmpty, liveAs_modifyAs]
  cases liveAs Kind.sortedSet e.now d key with
  | none => rfl
  | some z =>
    rw [Option.map_some, Option.bind_some, ← SortedSet.byMember_removeAll, Option.filter_some]
    split_ifs with hempty
    · rfl
    · have hlen : (z.removeAll ((boundedRange z (parseScoreArg min) (parseScoreArg max)).map
          (·.member))).1.len = 0 := by
        rw [Bool.not_eq_true', Bool.not_eq_false] at hempty
        exact beq_iff_eq.mp hempty
      exact (SortedSet.len_eq_zero_iff_forall.mp hlen m).symm

theorem mem_boundedRange {z : SortedSet S} {min max : ScoreBound S} {p : ScoredMember S} :
    p ∈ boundedRange z min max ↔ p ∈ z.byScore ∧ min.Above p.score ∧ max.Below p.score := by
  rw [boundedRange_eq_filter, List.mem_filter, Std.ExtTreeMap.mem_keys, decide_eq_true_eq]

/-- A bound that is no number removes no member. -/
def BoundsSpared (e : Env) (d : Data S) (key min max : Bytes) (rest : List Bytes) : Prop :=
  MalformedBound S min ∨ MalformedBound S max → ∀ m,
    liveScore e.now (zremrangebyscore e (key :: min :: max :: rest) d).1 key m =
      liveScore e.now d key m

/-- No member has a score within the bounds as they are read, if one of them is no number. -/
def BoundsMiss (e : Env) (d : Data S) (key min max : Bytes) : Prop :=
  MalformedBound S min ∨ MalformedBound S max → ∀ p, Files e.now d key p →
    (parseScoreArg min).Above p.score → ¬ (parseScoreArg max).Below p.score

theorem bounds_spared_iff (rest : List Bytes) :
    BoundsSpared e d key min max rest ↔ BoundsMiss e d key min max := by
  unfold BoundsSpared BoundsMiss Files
  apply imp_congr_right
  intro _
  simp only [liveScore_zremrangebyscore]
  unfold liveScore
  cases liveAs Kind.sortedSet e.now d key with
  | none => simp
  | some z =>
    constructor
    · rintro h p ⟨_, ⟨⟩, hp, hscore⟩ hmin hmax
      apply hscore
      have hm : p.member ∈ (boundedRange z (parseScoreArg min) (parseScoreArg max)).map
          (·.member) := List.mem_map_of_mem (mem_boundedRange.mpr ⟨hp, hmin, hmax⟩)
      rw [← Option.bind_some z (fun z : SortedSet S => z.byMember[p.member]?), ← h p.member,
        Option.bind_some, if_pos hm]
    · intro h m
      rw [Option.bind_some, Option.bind_some]
      split_ifs with hm
      · obtain ⟨p, hp, rfl⟩ := List.mem_map.mp hm
        obtain ⟨hp, hmin, hmax⟩ := mem_boundedRange.mp hp
        by_contra hscore
        exact h p ⟨z, rfl, hp, Ne.symm hscore⟩ hmin hmax
      · rfl

end Bounds

end Script

open Script in
/-- A text that is no number deletes nothing exactly when what it reads as is not there. -/
theorem malformed_spared_iff {S : Type} [Score S] (e : Env) (d : Data S) (key : Bytes) :
    (∀ texts, IdsSpared (fun texts => liveStream e.now (xdel e (key :: texts) d).1 key) texts ↔
      IdsMiss (XdelHit e d key) texts) ∧
    (∀ group texts,
      IdsSpared (fun texts => liveStream e.now (xack e (key :: group :: texts) d).1 key) texts ↔
        IdsMiss (XackHit e d key group) texts) ∧
    ∀ min max rest, BoundsSpared e d key min max rest ↔ BoundsMiss e d key min max :=
  ⟨xdel_spared_iff, fun _ => xack_spared_iff, fun _ _ => bounds_spared_iff⟩

/-- A stream with the entry `0-5` pending in a group, and a set with a member of score zero. -/
def zeroData : Data ℤ :=
  ((∅ : Data ℤ).insert (ascii "s") ⟨.stream ⟨(∅ : FinMap StreamId Fields).insert ⟨0, 5⟩ ∅, ⟨0, 5⟩,
    (∅ : FinMap Bytes ConsumerGroup).insert (ascii "g")
      (ConsumerGroup.insertPending ⟨⟨0, 5⟩, ∅⟩ (ascii "c") ⟨0, 5⟩ ⟨0, 1⟩)⟩, none⟩).insert
    (ascii "z") ⟨.sortedSet (.insertAll .new [⟨0, ascii "m"⟩]), none⟩

theorem zeroData_not_spared :
    ¬ Script.IdsSpared (fun texts =>
        liveStream 0 (Script.xdel ⟨0, 0, .byKey⟩ (ascii "s" :: texts) zeroData).1 (ascii "s"))
      [ascii "x-5"] ∧
    ¬ Script.IdsSpared (fun texts =>
        liveStream 0 (Script.xack ⟨0, 0, .byKey⟩ (ascii "s" :: ascii "g" :: texts) zeroData).1
          (ascii "s")) [ascii "x-5"] ∧
    ¬ Script.BoundsSpared ⟨0, 0, .byKey⟩ zeroData (ascii "z") (ascii "abc") (ascii "abc") [] := by
  refine ⟨?_, ?_, ?_⟩
  · intro h
    have := h [] (ascii "x-5") [] rfl (by decide)
    revert this
    decide +kernel
  · intro h
    have := h [] (ascii "x-5") [] rfl (by decide)
    revert this
    decide +kernel
  · intro h
    have hm : Script.MalformedBound ℤ (ascii "abc") := by
      unfold Script.MalformedBound
      decide +kernel
    have := h (.inl hm) (ascii "m")
    revert this
    decide +kernel

end BurnerRedis
