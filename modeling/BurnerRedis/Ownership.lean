import BurnerRedis.Invariants
import BurnerRedis.Reading

/-!
# Who an entry is pending at

Every command but XREADGROUP keeps each id pending at one consumer of its group at most:
acknowledging takes ids away, claims move them, and a forced claim adds an id only where nobody has
it. XREADGROUP adds the entries it delivers without looking at the other consumers, and a forced
claim can have put one of them under another consumer before. `Reachable.owner_unique` is the
invariant for the runs in which that does not happen (`readsUnowned`).
-/

namespace BurnerRedis

/-! ## Steps other than deliveries -/

/-- No id is pending at two consumers of a group of the stream. -/
def Stream.UniqueOwners (s : Stream) : Prop :=
  ∀ (group : Bytes) (cg : ConsumerGroup), s.groups[group]? = some cg → cg.UniqueOwner

section Steps

variable {S : Type} [LinearOrder S] {p : Set Effect}

theorem GroupStep.uniqueOwner (hd : .deliver ∉ p) {cg cg' : ConsumerGroup} (st : GroupStep p cg cg')
    (h : cg.UniqueOwner) : cg'.UniqueOwner := by
  cases st with
  | deliver c id pe hp _ => exact absurd hp hd
  | ack c id _ => exact h.removePending c id
  | move c₀ c id pe ho =>
    refine (h.removePending c₀ id).insertPending pe fun c' hc' => ?_
    rw [ConsumerGroup.owns_removePending] at hc'
    exact absurd ⟨h ho hc'.2, rfl⟩ hc'.1
  | force c id pe _ hn => exact h.insertPending pe fun c' hc' => absurd hc' (hn c')

theorem Stream.UniqueOwners.putGroup {s : Stream} (h : s.UniqueOwners) {group : Bytes}
    {cg : ConsumerGroup} (hcg : cg.UniqueOwner) : (s.putGroup group cg).UniqueOwners := by
  intro g x hx
  rw [Stream.putGroup_groups] at hx
  split_ifs at hx
  · cases hx
    exact hcg
  · exact h g x hx

theorem StreamStep.uniqueOwners (hd : .deliver ∉ p) {s s' : Stream} (st : StreamStep p s s')
    (h : s.UniqueOwners) : s'.UniqueOwners := by
  cases st with
  | append => exact h
  | discard => exact h
  | create g last _ _ => exact h.putGroup (ConsumerGroup.uniqueOwner_new last)
  | destroy g =>
    intro g' cg hcg
    rw [FinMap.getElem?_erase'] at hcg
    split_ifs at hcg
    exact h g' cg hcg
  | group g cg cg' hg gst => exact h.putGroup (gst.uniqueOwner hd (h g cg hg))

/-- The value is no stream, or one with unique owners. -/
def ValueData.UniqueOwners (v : ValueData S) : Prop := ∀ s, v = .stream s → s.UniqueOwners

theorem uniqueOwners_kept (hd : .deliver ∉ p) : Kept p (ValueData.UniqueOwners (S := S)) := by
  rintro old x h ev s rfl
  cases ev with
  | stream s₀ _ hs st =>
    have h₀ : s₀.UniqueOwners := by
      cases hs with
      | found => exact h _ rfl s₀ rfl
      | absent => exact fun g cg hg => by simp [Stream.new] at hg
    induction st with
    | refl => exact h₀
    | tail _ hst ih => exact hst.uniqueOwners hd ih

/-- A load resets times and nothing else. -/
theorem ConsumerGroup.owns_resetTimes (now : Instant) (cg : ConsumerGroup) (c : Bytes)
    (id : StreamId) : (cg.resetTimes now).owns c id ↔ cg.owns c id := by
  unfold owns consumer resetTimes
  simp only [Std.ExtTreeMap.getElem?_map]
  cases cg.consumers[c]? with
  | none => rfl
  | some con =>
    simp only [Option.map_some, Option.getD_some, Consumer.resetTimes, Std.ExtTreeMap.mem_map]

theorem uniqueOwners_resetTimes (now : Instant) (v : ValueData S) (h : v.UniqueOwners) :
    (v.resetTimes now).UniqueOwners := by
  cases v with
  | stream s =>
    rintro s' hs' g cg hcg a b i ha hb
    cases hs'
    rw [Stream.resetTimes, Std.ExtTreeMap.getElem?_map] at hcg
    obtain ⟨cg₀, hcg₀, rfl⟩ := Option.map_eq_some_iff.mp hcg
    rw [ConsumerGroup.owns_resetTimes] at ha hb
    exact h s rfl g cg₀ hcg₀ ha hb
  | _ => exact h

end Steps

/-! ## Reading new entries -/

/-- What XREADGROUP is about to deliver is pending at no consumer but the reader. A key that is
given several times is read further each time. -/
def ReadsUnowned {S : Type} [LinearOrder S] (now : Instant) (d : Data S) (group consumer : Bytes)
    (count : Option ℕ) (pairs : List (Bytes × Bytes)) : Prop :=
  ∀ pair ∈ readablePairs now d group pairs, pair.2 = ascii ">" →
    ∀ s ∈ liveStream now d pair.1, ∀ cg ∈ s.groups[group]?,
      ∀ x ∈ takeCount (count.map (· * (readablePairs now d group pairs).count pair))
          (s.entries.after cg.lastDeliveredId),
        ∀ c ∈ cg.consumers.keys, cg.owns c x.1 → c = consumer

section Reading

variable {S : Type} [LinearOrder S]

instance (now : Instant) (d : Data S) (group consumer : Bytes) (count : Option ℕ)
    (pairs : List (Bytes × Bytes)) : Decidable (ReadsUnowned now d group consumer count pairs) :=
  inferInstanceAs (Decidable (∀ pair ∈ readablePairs now d group pairs, pair.2 = ascii ">" →
    ∀ s ∈ liveStream now d pair.1, ∀ cg ∈ s.groups[group]?,
      ∀ x ∈ takeCount (count.map (· * (readablePairs now d group pairs).count pair))
          (s.entries.after cg.lastDeliveredId),
        ∀ c ∈ cg.consumers.keys, cg.owns c x.1 → c = consumer))

theorem ConsumerGroup.mem_keys_of_owns {cg : ConsumerGroup} {c : Bytes} {id : StreamId}
    (h : cg.owns c id) : c ∈ cg.consumers.keys := by
  obtain ⟨con, hcon, -⟩ := owns_iff.mp h
  exact Std.ExtTreeMap.mem_keys.mpr (FinMap.mem_iff_getElem?.mpr ⟨con, hcon⟩)

variable {e : Env} {d : Data S} {group consumer : Bytes} {count : Option ℕ}
  {pairs : List (Bytes × Bytes)}

/-- The condition for one pair, without decidability in mind. -/
theorem ReadsUnowned.owner (h : ReadsUnowned e.now d group consumer count pairs) {key : Bytes}
    (hp : (key, ascii ">") ∈ readablePairs e.now d group pairs) {s : Stream} {cg : ConsumerGroup}
    (hs : liveStream e.now d key = some s) (hcg : s.groups[group]? = some cg)
    {x : StreamId × Fields}
    (hx : x ∈ takeCount (count.map (· * (readablePairs e.now d group pairs).count (key, ascii ">")))
      (s.entries.after cg.lastDeliveredId)) {c : Bytes} (hc : cg.owns c x.1) : c = consumer :=
  h (key, ascii ">") hp rfl s hs cg hcg x hx c (ConsumerGroup.mem_keys_of_owns hc) hc

/-- A second read takes part of what a longer first read would have taken. -/
theorem takeCount_drop_subset {α : Type} (count : Option ℕ) (n : ℕ) (l : List α) :
    takeCount (count.map (· * n)) (l.drop (takeCount count l).length) ⊆
      takeCount (count.map (· * (n + 1))) l := by
  cases count with
  | none =>
    rw [takeCount, List.drop_length]
    exact List.nil_subset _
  | some k =>
    show (l.drop (l.take k).length).take (k * n) ⊆ l.take (k * (n + 1))
    rw [List.length_take, ← List.drop_eq_drop_min]
    have hrest : (l.take (k * (n + 1))).drop k = (l.drop k).take (k * n) := by
      rw [List.drop_take, Nat.mul_succ, Nat.add_sub_cancel]
    rw [← hrest]
    exact List.drop_subset k _

theorem takeCount_subset {α : Type} (count : Option ℕ) {n : ℕ} (hn : 0 < n) (l : List α) :
    takeCount count l ⊆ takeCount (count.map (· * n)) l := by
  cases count with
  | none => exact List.Subset.refl l
  | some k =>
    exact (List.take_sublist_take_left (Nat.le_mul_of_pos_right k hn)).subset

variable {key idStr : Bytes} {s : Stream} {exp : Option Instant} {cg : ConsumerGroup}

/-- The group XREADGROUP puts back at its first key has unique owners. -/
theorem ReadsUnowned.head (h : ReadsUnowned e.now d group consumer count ((key, idStr) :: pairs))
    (hl : live e.now d key = some ⟨.stream s, exp⟩) (hcg : s.groups[group]? = some cg)
    (hu : cg.UniqueOwner) : (Store.readOne e consumer idStr count s cg).1.UniqueOwner := by
  unfold Store.readOne
  split_ifs with hid
  · subst hid
    have hs : liveStream e.now d key = some s := liveStream_eq_some.mpr ⟨exp, hl⟩
    have hread := readablePairs_cons (liveGroup_eq_some.mpr ⟨s, hs, hcg⟩) (ascii ">") pairs
    have hmem : (key, ascii ">") ∈ readablePairs e.now d group ((key, ascii ">") :: pairs) := by
      rw [hread]
      exact List.mem_cons_self
    -- what is delivered now had no other owner before
    have hfree : ∀ {c id}, id ∈ (newEntries count s cg).map Prod.fst → cg.owns c id →
        c = consumer := by
      intro c id hid hc
      obtain ⟨x, hx, rfl⟩ := List.mem_map.mp hid
      exact h.owner hmem hs hcg
        (takeCount_subset count (List.count_pos_iff.mpr hmem) _ hx) hc
    intro a b i ha hb
    rw [ConsumerGroup.owns_deliverAll] at ha hb
    rcases ha with ⟨rfl, hi⟩ | ha <;> rcases hb with ⟨rfl, hi'⟩ | hb
    · rfl
    · exact (hfree hi hb).symm
    · exact hfree hi' ha
    · exact hu ha hb
  · split <;> exact hu

/-- What is left to deliver after the first key satisfies the condition as well. -/
theorem ReadsUnowned.tail (h : ReadsUnowned e.now d group consumer count ((key, idStr) :: pairs))
    (hl : live e.now d key = some ⟨.stream s, exp⟩) (hcg : s.groups[group]? = some cg) :
    ReadsUnowned e.now
      (Store.putStream key (s.putGroup group (Store.readOne e consumer idStr count s cg).1) exp d)
      group consumer count pairs := by
  have hs : liveStream e.now d key = some s := liveStream_eq_some.mpr ⟨exp, hl⟩
  have hread := readablePairs_cons (liveGroup_eq_some.mpr ⟨s, hs, hcg⟩) idStr pairs
  unfold ReadsUnowned Store.putStream
  rw [readablePairs_insert hl hcg]
  rintro ⟨k, i⟩ hpair rfl s' hs' cg' hcg' x hx c - hc
  rw [liveStream_insert hl] at hs'
  have hmem : (k, ascii ">") ∈ readablePairs e.now d group ((key, idStr) :: pairs) := by
    rw [hread]
    exact List.mem_cons_of_mem _ hpair
  have hpos : 0 < (readablePairs e.now d group pairs).count (k, ascii ">") :=
    List.count_pos_iff.mpr hpair
  split_ifs at hs' with hk
  · -- the same key again: the read goes on where the first one stopped
    subst hk
    cases hs'
    rw [Stream.putGroup_groups, if_pos rfl] at hcg'
    cases hcg'
    rw [Stream.putGroup_entries] at hx
    unfold Store.readOne at hx hc
    split_ifs at hx hc with hid
    · subst hid
      rw [ConsumerGroup.after_deliverAll] at hx
      rw [ConsumerGroup.owns_deliverAll] at hc
      rcases hc with ⟨rfl, -⟩ | hc
      · rfl
      · refine h.owner hmem hs hcg ?_ hc
        rw [hread, List.count_cons_self]
        exact takeCount_drop_subset count _ _ hx
    · have hne : (key, idStr) ≠ (key, ascii ">") := fun he => hid (Prod.ext_iff.mp he).2
      have hcount := List.count_cons_of_ne hne (l := readablePairs e.now d group pairs)
      split at hx <;> split at hc <;> refine h.owner hmem hs hcg ?_ hc <;>
        rwa [hread, hcount]
  · -- another key: nothing has changed there
    have hne : (key, idStr) ≠ (k, ascii ">") := fun he => hk (Prod.ext_iff.mp he).1
    refine h.owner hmem hs' hcg' ?_ hc
    rwa [hread, List.count_cons_of_ne hne]

theorem xreadgroupPairs_uniqueOwners (hu : Holds ValueData.UniqueOwners d)
    (h : ReadsUnowned e.now d group consumer count pairs) :
    Holds ValueData.UniqueOwners (Store.xreadgroupPairs e group consumer count pairs d).1 := by
  induction pairs generalizing d with
  | nil => exact hu
  | cons pair pairs ih =>
    obtain ⟨key, idStr⟩ := pair
    rcases Store.xreadgroupPairs_cons e group consumer count key idStr pairs d with
      ⟨-, err, herr⟩ | ⟨s, exp, cg, hl, hcg, hcons⟩
    · rw [herr]
      exact hu.purge e.now key
    · rw [hcons]
      refine ih (hu.insert ?_) (h.tail hl hcg)
      rintro s' hs'
      cases hs'
      have hs : s.UniqueOwners := hu.live hl s rfl
      exact hs.putGroup (h.head hl hcg (hs group cg hcg))

end Reading

/-! ## Runs -/

/-- The actions that a run with unique owners may take: XREADGROUP under the condition above. -/
def readsUnowned {S : Type} [Score S] (now : Instant) (st : Store S) : Action S → Prop
  | .op _ _ (.xreadgroup group consumer keys ids count) =>
    ReadsUnowned now st.data group consumer count (keys.zip ids)
  | _ => True

section Runs

variable {S : Type} [Score S]

theorem deliver_not_mem_wake (w : Wake) : Effect.deliver ∉ w.effects := by
  rintro (⟨h, -⟩ | ⟨h, -⟩) <;> cases h

theorem Action.uniqueOwners (sha1 : String → String) {now : Instant} {st : Store S} {a : Action S}
    (hok : readsUnowned now st a) (h : Holds ValueData.UniqueOwners st.data) :
    Holds ValueData.UniqueOwners (a.run sha1 now st).2.1.data := by
  by_cases hd : .deliver ∈ a.effects
  · cases a with
    | op wall walk o =>
      cases o with
      | xreadgroup group consumer keys ids count =>
        exact xreadgroupPairs_uniqueOwners (e := ⟨now, wall, walk⟩) h hok
      | _ => exact absurd hd (by simp [Action.effects, Op.effects])
    | scriptLoad => exact absurd hd (Set.notMem_empty _)
    | _ => exact absurd hd (by simp [Action.effects, scriptEffects])
  · refine (a.run_moves sha1 now st).holds (uniqueOwners_kept ?_) h
    rintro (hw | ha)
    · exact deliver_not_mem_wake _ hw
    · exact hd ha

/-- In a run whose reads deliver nothing that is pending at another consumer, no id is ever pending
at two consumers of a group. -/
theorem Reachable.owner_unique {sha1 : String → String} {now : Instant} {st : Store S}
    (h : Reachable readsUnowned sha1 now st) {key : Bytes} {s : Stream} {exp : Option Instant}
    (hs : st.data[key]? = some ⟨.stream s, exp⟩) {group : Bytes} {cg : ConsumerGroup}
    (hcg : s.groups[group]? = some cg) : cg.UniqueOwner :=
  h.holds uniqueOwners_resetTimes (fun _ _ _ hok hu => Action.uniqueOwners sha1 hok hu) key _ hs s
    rfl group cg hcg

/-- Two entries and a group: one consumer reads the first entry, another claims it and reads on. -/
def readTwiceActions : List (Action ℤ) :=
  [.op 0 .byKey (.xadd (ascii "s") ∅ (some ⟨1, 0⟩)),
    .op 0 .byKey (.xadd (ascii "s") ∅ (some ⟨2, 0⟩)),
    .op 0 .byKey (.xgroupCreate (ascii "s") (ascii "g") .zero false),
    .op 0 .byKey (.xreadgroup (ascii "g") (ascii "c") [ascii "s"] [ascii ">"] (some 1)),
    .op 0 .byKey (.xclaim (ascii "s") (ascii "g") (ascii "d") 0 [⟨1, 0⟩] {}),
    .op 0 .byKey (.xreadgroup (ascii "g") (ascii "d") [ascii "s"] [ascii ">"] none)]

/-- The group after both reads. -/
def groupReadTwice : ConsumerGroup :=
  ⟨⟨2, 0⟩, ((∅ : FinMap Bytes Consumer).insert (ascii "c") ⟨∅⟩).insert (ascii "d")
    ⟨((∅ : FinMap StreamId PendingEntry).insert ⟨1, 0⟩ ⟨0, 2⟩).insert ⟨2, 0⟩ ⟨0, 1⟩⟩⟩

theorem readTwice_uniqueOwners : groupReadTwice.UniqueOwner :=
  @Reachable.owner_unique ℤ _ id 0 (runActions id (0, ⟨∅, ∅⟩) readTwiceActions).2
    (.act (.op 0 .byKey (.xreadgroup (ascii "g") (ascii "d") [ascii "s"] [ascii ">"] none))
      (by
        show ReadsUnowned _ _ _ _ _ _
        decide +kernel)
      (.act (.op 0 .byKey (.xclaim (ascii "s") (ascii "g") (ascii "d") 0 [⟨1, 0⟩] {})) trivial
        (.act (.op 0 .byKey (.xreadgroup (ascii "g") (ascii "c") [ascii "s"] [ascii ">"] (some 1)))
          (by
            show ReadsUnowned _ _ _ _ _ _
            decide +kernel)
          (.act (.op 0 .byKey (.xgroupCreate (ascii "s") (ascii "g") .zero false)) trivial
            (.act (.op 0 .byKey (.xadd (ascii "s") ∅ (some ⟨2, 0⟩))) trivial
              (.act (.op 0 .byKey (.xadd (ascii "s") ∅ (some ⟨1, 0⟩))) trivial (.empty 0)))))))
    (ascii "s")
    ⟨((∅ : FinMap StreamId Fields).insert ⟨1, 0⟩ ∅).insert ⟨2, 0⟩ ∅, ⟨2, 0⟩,
      (∅ : FinMap Bytes ConsumerGroup).insert (ascii "g") groupReadTwice⟩
    none (by decide +kernel) (ascii "g") groupReadTwice (by decide +kernel)

/-- An entry claimed by force before it was delivered, then delivered to another consumer. -/
def claimedThenRead : Instant × Store ℤ :=
  runActions id (0, ⟨∅, ∅⟩)
    [.op 0 .byKey (.xadd (ascii "s") ∅ (some ⟨1, 0⟩)),
      .op 0 .byKey (.xgroupCreate (ascii "s") (ascii "g") .zero false),
      .op 0 .byKey (.xclaim (ascii "s") (ascii "g") (ascii "c1") 0 [⟨1, 0⟩] { force := true }),
      .op 0 .byKey (.xreadgroup (ascii "g") (ascii "c2") [ascii "s"] [ascii ">"] none)]

theorem claimedThenRead_two_owners :
    Reachable anyAction id claimedThenRead.1 claimedThenRead.2 ∧
      ∃ s exp cg, claimedThenRead.2.data[ascii "s"]? = some ⟨.stream s, exp⟩ ∧
        s.groups[ascii "g"]? = some cg ∧ cg.owns (ascii "c1") ⟨1, 0⟩ ∧
        cg.owns (ascii "c2") ⟨1, 0⟩ ∧ ¬ cg.UniqueOwner := by
  have howners : (liveGroup 0 claimedThenRead.2.data (ascii "s") (ascii "g")).any
      (fun cg => cg.owns (ascii "c1") ⟨1, 0⟩ ∧ cg.owns (ascii "c2") ⟨1, 0⟩) = true := by
    decide +kernel
  obtain ⟨cg, hcg, hown⟩ := Option.any_eq_true _ _ |>.mp howners
  obtain ⟨h1, h2⟩ := of_decide_eq_true hown
  obtain ⟨s, hs, hg⟩ := liveGroup_eq_some.mp hcg
  obtain ⟨exp, hl⟩ := liveStream_eq_some.mp hs
  have hne : ascii "c1" ≠ ascii "c2" := by decide
  exact ⟨Reachable.runActions (.empty 0) _, s, exp, cg, (live_eq_some.mp hl).1, hg, h1, h2,
    fun hu => hne (hu h1 h2)⟩

end Runs

end BurnerRedis
