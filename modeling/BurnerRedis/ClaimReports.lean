import BurnerRedis.Claims

/-!
# What XCLAIM tells its caller

A call of XCLAIM that succeeds tells its caller which ids it has taken (`Told`), in the native form
and in a script, unless it takes an id whose entry has been trimmed from the stream: with JUSTID that
id is reported as well, without it the record changes hands and the reply does not say so.
-/

namespace BurnerRedis

open ConsumerGroup

/-- The ids reported are the ids taken, and no other record is touched or lost. -/
structure Told (cg cg' : ConsumerGroup) (consumer : Bytes) (taken : List StreamId)
    (reported : StreamId → Prop) : Prop where
  exactly : ∀ id, reported id ↔ id ∈ taken
  held : ∀ id ∈ taken, cg'.owns consumer id
  untouched : ∀ id, id ∉ taken → ∀ c, cg'.record c id = cg.record c id
  kept : ∀ c id, cg.owns c id → cg'.owns c id ∨ id ∈ taken ∧ cg'.owns consumer id

/-- The text of the id that an item of the reply in a script is about. -/
def claimedText : RedisValue → Option Bytes
  | .bulkString b => some b
  | .array (.bulkString b :: _) => some b
  | _ => none

/-- A call of XCLAIM that succeeds, the data it leaves and the ids it reports. -/
inductive XclaimReply {S : Type} [Score S] (e : Env) (key group consumer : Bytes)
    (minIdle : UInt64) (ids : List StreamId) (o : XclaimOptions) (d d' : Data S) :
    (StreamId → Prop) → Prop where
  | native (reply : List (StreamId × Option Fields))
      (h : Store.xclaim e key group consumer minIdle ids o d = (d', .ok reply)) :
      XclaimReply e key group consumer minIdle ids o d d' fun id => id ∈ reply.map Prod.fst
  | script (minIdleText id : Bytes) (rest : List Bytes) (items : List RedisValue)
      (hm : parseU64 minIdleText = some minIdle)
      (hargs : Script.claimArgs (id :: rest) {} = (ids, o))
      (h : Script.xclaim e (key :: group :: consumer :: minIdleText :: id :: rest) d =
        (d', .ok (.array items))) :
      XclaimReply e key group consumer minIdle ids o d d' fun id =>
        formatStreamId id ∈ items.filterMap claimedText

theorem claimedText_claimedValue (o : FinMap.WalkOrder) (entry : StreamId × Option Fields) :
    claimedText (Script.claimedValue o entry) = some (formatStreamId entry.1) := by
  unfold Script.claimedValue
  split <;> rfl

/-- The texts in the reply of a script are those of the ids in the native reply. -/
theorem mem_claimedText (o : FinMap.WalkOrder) (reply : List (StreamId × Option Fields))
    (id : StreamId) :
    formatStreamId id ∈ (reply.map (Script.claimedValue o)).filterMap claimedText ↔
      id ∈ reply.map Prod.fst := by
  have htexts : (reply.map (Script.claimedValue o)).filterMap claimedText =
      (reply.map Prod.fst).map formatStreamId := by
    rw [List.filterMap_map, List.map_map]
    refine (List.filterMap_congr fun entry _ => claimedText_claimedValue o entry).trans ?_
    exact congrFun List.filterMap_eq_map reply
  rw [htexts, List.mem_map_of_injective formatStreamId_injective]

section Calls

variable {S : Type} [Score S] {e : Env} {key group consumer : Bytes} {minIdle : UInt64}
  {ids : List StreamId} {o : XclaimOptions} {d d' : Data S} {reported : StreamId → Prop}

/-- Both forms of XCLAIM make the same claim, and report the same of it. -/
theorem XclaimReply.claimAll (h : XclaimReply e key group consumer minIdle ids o d d' reported) :
    ∃ s cg, Regroups e.now key group d d' s cg
        (claimAll e consumer (.fromMillis minIdle.toNat) o s cg ids).1 ∧
      ∀ id, reported id ↔
        id ∈ (claimAll e consumer (.fromMillis minIdle.toNat) o s cg ids).2.map Prod.fst := by
  cases h with
  | native reply h =>
    obtain ⟨s, cg, hr, hre⟩ := Store.modifyGroup_ok h nofun nofun
    refine ⟨s, cg, hre, fun id => ?_⟩
    cases hr
    exact Iff.rfl
  | script minIdleText id rest items hm hargs h =>
    simp only [Script.xclaim, hm, hargs] at h
    obtain ⟨s, cg, hr, hre⟩ := Store.modifyGroup_ok h nofun nofun
    refine ⟨s, cg, hre, fun id => ?_⟩
    cases hr
    exact mem_claimedText e.walk _ id

/-- XCLAIM tells what it takes exactly when it takes no id whose entry is gone, or reports ids
alone. -/
theorem xclaim_told_iff (h : XclaimReply e key group consumer minIdle ids o d d' reported) :
    ∃ s cg cg', Regroups e.now key group d d' s cg cg' ∧
      (Told cg cg' consumer (claimedIds e consumer (.fromMillis minIdle.toNat) o s cg ids)
          reported ↔
        o.justid = true ∨
          ∀ id ∈ claimedIds e consumer (.fromMillis minIdle.toNat) o s cg ids, id ∈ s.entries) := by
  obtain ⟨s, cg, hre, hreported⟩ := h.claimAll
  refine ⟨s, cg, _, hre, ?_⟩
  simp only [mem_claimAll] at hreported
  constructor
  · intro told
    by_cases hj : o.justid = true
    · exact .inl hj
    · refine .inr fun id hid => ?_
      exact ((hreported id).mp ((told.exactly id).mpr hid)).2.resolve_left hj
  · intro hall
    refine ⟨fun id => ?_, fun id => owns_claimAll_of_mem, fun id hid c => record_claimAll hid c,
      fun c id ho => ?_⟩
    · rw [hreported]
      refine and_iff_left_of_imp fun hid => ?_
      exact hall.imp_right fun h => h id hid
    · by_cases hid : id ∈ claimedIds e consumer (.fromMillis minIdle.toNat) o s cg ids
      · exact (owns_claimAll ids ho).imp_right fun hc => ⟨hid, hc⟩
      · rw [owns_iff_record, record_claimAll hid c, ← owns_iff_record]
        exact .inl ho

end Calls

/-- An entry that is pending at `c1` and trimmed from its stream. -/
def trimmedPending : Data ℤ :=
  (runActions id (0, ⟨∅, ∅⟩)
    [.op 0 .byKey (.xadd (ascii "s") ∅ (some ⟨1, 0⟩)),
      .op 0 .byKey (.xgroupCreate (ascii "s") (ascii "g") .zero false),
      .op 0 .byKey (.xreadgroup (ascii "g") (ascii "c1") [ascii "s"] [ascii ">"] none),
      .op 0 .byKey (.xdel (ascii "s") [⟨1, 0⟩])]).2.data

/-- A claim of the trimmed entry for `c2`. -/
def claimTrimmed (o : XclaimOptions) : Data ℤ × Except StoreError (List (StreamId × Option Fields)) :=
  Store.xclaim ⟨0, 0, .byKey⟩ (ascii "s") (ascii "g") (ascii "c2") 0 [⟨1, 0⟩] o trimmedPending

theorem claimTrimmed_reply (o : XclaimOptions) (l : List StreamId)
    (h : (claimTrimmed o).2.toOption.map (·.map Prod.fst) = some l) :
    XclaimReply ⟨0, 0, .byKey⟩ (ascii "s") (ascii "g") (ascii "c2") 0 [⟨1, 0⟩] o trimmedPending
      (claimTrimmed o).1 fun id => id ∈ l := by
  obtain ⟨reply, hr, rfl⟩ := Option.map_eq_some_iff.mp h
  exact .native reply (Prod.ext rfl (eq_ok_of_toOption hr))

theorem claimTrimmed_justid_told :
    ∃ s cg cg', Regroups 0 (ascii "s") (ascii "g") trimmedPending
        (claimTrimmed { justid := true }).1 s cg cg' ∧
      (Told cg cg' (ascii "c2")
          (claimedIds ⟨0, 0, .byKey⟩ (ascii "c2") (.fromMillis 0) { justid := true } s cg [⟨1, 0⟩])
          (fun id => id ∈ [(⟨1, 0⟩ : StreamId)]) ↔
        true = true ∨
          ∀ id ∈ claimedIds ⟨0, 0, .byKey⟩ (ascii "c2") (.fromMillis 0) { justid := true } s cg
            [⟨1, 0⟩], id ∈ s.entries) :=
  xclaim_told_iff (claimTrimmed_reply { justid := true } [⟨1, 0⟩] (by decide +kernel))

/-- Without JUSTID the trimmed entry goes from `c1` to `c2`, and the reply is empty. -/
theorem claimTrimmed_untold :
    XclaimReply ⟨0, 0, .byKey⟩ (ascii "s") (ascii "g") (ascii "c2") 0 [⟨1, 0⟩] {} trimmedPending
        (claimTrimmed {}).1 (fun id => id ∈ ([] : List StreamId)) ∧
      ∃ s cg cg', Regroups 0 (ascii "s") (ascii "g") trimmedPending (claimTrimmed {}).1 s cg cg' ∧
        cg.owns (ascii "c1") ⟨1, 0⟩ ∧ ¬ cg'.owns (ascii "c1") ⟨1, 0⟩ ∧
        cg'.owns (ascii "c2") ⟨1, 0⟩ ∧
        ¬ Told cg cg' (ascii "c2")
          (claimedIds ⟨0, 0, .byKey⟩ (ascii "c2") (.fromMillis 0) {} s cg [⟨1, 0⟩])
          (fun id => id ∈ ([] : List StreamId)) := by
  have hreply := claimTrimmed_reply {} [] (by decide +kernel)
  obtain ⟨s, cg, hre, -⟩ := hreply.claimAll
  have hbefore : (liveStream 0 trimmedPending (ascii "s")).all (fun s =>
      s.groups[ascii "g"]?.all fun cg => cg.owns (ascii "c1") ⟨1, 0⟩ ∧
        ⟨1, 0⟩ ∈ claimedIds ⟨0, 0, .byKey⟩ (ascii "c2") (.fromMillis 0) {} s cg [⟨1, 0⟩]) =
      true := by
    decide +kernel
  have hafter : (liveGroup 0 (claimTrimmed {}).1 (ascii "s") (ascii "g")).all (fun cg =>
      ¬ cg.owns (ascii "c1") ⟨1, 0⟩ ∧ cg.owns (ascii "c2") ⟨1, 0⟩) = true := by
    decide +kernel
  rw [hre.stream, Option.all_some, hre.before, Option.all_some, decide_eq_true_eq] at hbefore
  rw [hre.liveGroup, Option.all_some, decide_eq_true_eq] at hafter
  refine ⟨hreply, s, cg, _, hre, hbefore.1, hafter.1, hafter.2, fun told => ?_⟩
  exact List.not_mem_nil ((told.exactly ⟨1, 0⟩).mpr hbefore.2)

end BurnerRedis
