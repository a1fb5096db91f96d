import BurnerRedis.Claims
import BurnerRedis.Script.Streams

/-!
# XCLAIM that panics on its way

XCLAIM with an idle time sets the clock's reading back by it, and where a clock begins at its origin
the subtraction panics when the time is too long. A pending entry is taken from its consumer before
the subtraction and put under the new one after it, so a panic between the two loses the entry.
Here the commands are run with a subtraction that may panic (`xclaim?`), which leaves the group as
it is at that moment; `Spares` says when nothing is lost.
-/

namespace BurnerRedis

/-! ## A clock with an origin -/

/-- `now - d` on a clock that begins at zero, a panic where the result would come before. -/
def Instant.sub? (now : Instant) (d : Duration) : Option Instant :=
  if (d : ℤ) ≤ now then some (now - d) else none

/-- The delivery time XCLAIM sets, unless it panics. -/
def XclaimOptions.deliveryTime? (o : XclaimOptions) (now keep : Instant) : Option Instant :=
  match o.idle with
  | some idleMs => now.sub? (.fromMillis idleMs.toNat)
  | none => some keep

/-- The idle time reaches back to the origin of the clock at most. -/
def XclaimOptions.Reaches (o : XclaimOptions) (now : Instant) : Prop :=
  ∀ idleMs, o.idle = some idleMs → (Duration.fromMillis idleMs.toNat : ℤ) ≤ now

theorem XclaimOptions.deliveryTime?_eq {o : XclaimOptions} {now : Instant} (h : o.Reaches now)
    (keep : Instant) : o.deliveryTime? now keep = some (o.deliveryTime now keep) := by
  unfold deliveryTime? deliveryTime
  cases hidle : o.idle with
  | none => rfl
  | some idleMs => exact if_pos (h idleMs hidle)

theorem XclaimOptions.deliveryTime?_eq_none {o : XclaimOptions} {now : Instant}
    (h : ¬ o.Reaches now) (keep : Instant) : o.deliveryTime? now keep = none := by
  unfold Reaches at h
  push Not at h
  obtain ⟨idleMs, hidle, hlt⟩ := h
  unfold deliveryTime?
  rw [hidle]
  exact if_neg (not_le.mpr hlt)

namespace ConsumerGroup

variable {e : Env} {consumer : Bytes} {minIdle : Duration} {o : XclaimOptions} {s : Stream}
  {cg : ConsumerGroup}

/-- XCLAIM of one id; an error is the group that a panic leaves. -/
def claimOne? (e : Env) (consumer : Bytes) (minIdle : Duration) (o : XclaimOptions) (s : Stream)
    (r : ConsumerGroup × List (StreamId × Option Fields)) (id : StreamId) :
    Except ConsumerGroup (ConsumerGroup × List (StreamId × Option Fields)) :=
  match r.1.claimFrom e minIdle o.force id with
  | none =>
    if o.force && decide (id ∈ s.entries) then
      match o.deliveryTime? e.now e.now with
      | none => .error r.1
      | some time => .ok (r.1.insertPending consumer id ⟨time, o.retrycount.getD 1⟩,
          r.2 ++ claimedEntry o.justid s id)
    else .ok r
  | some (fromConsumer, pe) =>
    let removed := r.1.removePending fromConsumer id
    match o.deliveryTime? e.now pe.deliveryTime with
    | none => .error removed
    | some time => .ok (removed.insertPending consumer id
        ⟨time, o.retrycount.getD (pe.deliveryCount + 1)⟩, r.2 ++ claimedEntry o.justid s id)

/-- Several ids, one after the other, up to a panic. -/
def claimAll? (e : Env) (consumer : Bytes) (minIdle : Duration) (o : XclaimOptions) (s : Stream)
    (r : ConsumerGroup × List (StreamId × Option Fields)) :
    List StreamId → Except ConsumerGroup (ConsumerGroup × List (StreamId × Option Fields))
  | [] => .ok r
  | id :: ids => match claimOne? e consumer minIdle o s r id with
    | .error left => .error left
    | .ok r => claimAll? e consumer minIdle o s r ids

/-- The group that XCLAIM leaves, whether it returns or panics. -/
def afterClaim (e : Env) (consumer : Bytes) (minIdle : Duration) (o : XclaimOptions) (s : Stream)
    (cg : ConsumerGroup) (ids : List StreamId) : ConsumerGroup :=
  match claimAll? e consumer minIdle o s (cg, []) ids with
  | .error left => left
  | .ok r => r.1

/-! ## An idle time within reach -/

theorem claimOne?_eq (h : o.Reaches e.now) (r : ConsumerGroup × List (StreamId × Option Fields))
    (id : StreamId) :
    claimOne? e consumer minIdle o s r id = .ok (claimOne e consumer minIdle o s r id) := by
  unfold claimOne? claimOne
  simp only [XclaimOptions.deliveryTime?_eq h]
  cases r.1.claimFrom e minIdle o.force id with
  | some f => rfl
  | none =>
    dsimp only
    split_ifs <;> rfl

/-- XCLAIM does not panic, and does what it does on a clock without an origin. -/
theorem claimAll?_eq (h : o.Reaches e.now) (ids : List StreamId)
    (r : ConsumerGroup × List (StreamId × Option Fields)) :
    claimAll? e consumer minIdle o s r ids =
      .ok (ids.foldl (claimOne e consumer minIdle o s) r) := by
  induction ids generalizing r with
  | nil => rfl
  | cons id ids ih =>
    rw [claimAll?, claimOne?_eq h]
    exact ih _

/-! ## An idle time out of reach -/

/-- What a panic at an id leaves: the record is gone from the consumer it was found at. -/
def stranded (e : Env) (minIdle : Duration) (force : Bool) (cg : ConsumerGroup) (id : StreamId) :
    ConsumerGroup :=
  match cg.claimFrom e minIdle force id with
  | none => cg
  | some f => cg.removePending f.1 id

theorem claimOne?_eq_error (h : ¬ o.Reaches e.now)
    (acc : List (StreamId × Option Fields)) (id : StreamId) :
    claimOne? e consumer minIdle o s (cg, acc) id =
      if claims e minIdle o s cg id then .error (stranded e minIdle o.force cg id)
      else .ok (cg, acc) := by
  unfold claimOne? claims stranded
  simp only [XclaimOptions.deliveryTime?_eq_none h]
  cases cg.claimFrom e minIdle o.force id with
  | some f => simp
  | none => simp

/-- The first id that XCLAIM acts on is where it panics. -/
theorem claimAll?_eq_find (h : ¬ o.Reaches e.now) (ids : List StreamId)
    (acc : List (StreamId × Option Fields)) :
    claimAll? e consumer minIdle o s (cg, acc) ids =
      match ids.find? (claims e minIdle o s cg) with
      | some id => .error (stranded e minIdle o.force cg id)
      | none => .ok (cg, acc) := by
  induction ids with
  | nil => rfl
  | cons id ids ih =>
    rw [claimAll?, claimOne?_eq_error h, List.find?_cons]
    cases claims e minIdle o s cg id with
    | true => rfl
    | false => exact ih

/-! ## What is lost -/

/-- What was pending still is, at some consumer. -/
def Keeps (cg cg' : ConsumerGroup) : Prop := ∀ id, (∃ c, cg.owns c id) → ∃ c, cg'.owns c id

/-- XCLAIM does not panic, or not at an id that is pending at exactly one consumer. -/
def Spares (e : Env) (minIdle : Duration) (o : XclaimOptions) (s : Stream) (cg : ConsumerGroup)
    (ids : List StreamId) : Prop :=
  o.Reaches e.now ∨ ∀ id, ids.find? (claims e minIdle o s cg) = some id → ¬ ∃! c, cg.owns c id

/-- A record taken from a consumer is lost unless another consumer has one. -/
theorem keeps_removePending_iff {c : Bytes} {id : StreamId} (h : cg.owns c id) :
    Keeps cg (cg.removePending c id) ↔ ¬ ∃! c, cg.owns c id := by
  constructor
  · rintro hkeeps ⟨c', -, hunique⟩
    obtain ⟨c'', hc''⟩ := hkeeps id ⟨c, h⟩
    rw [owns_removePending] at hc''
    exact hc''.1 ⟨(hunique c h).trans (hunique c'' hc''.2).symm, rfl⟩
  · rintro hmany id' ⟨c', hc'⟩
    by_cases hsame : c = c' ∧ id = id'
    · obtain ⟨rfl, rfl⟩ := hsame
      by_contra hnone
      apply hmany
      refine ⟨c, h, fun c' hc' => ?_⟩
      by_contra hne
      exact hnone ⟨c', (owns_removePending cg c c' id id).mpr ⟨fun heq => hne heq.1.symm, hc'⟩⟩
    · exact ⟨c', (owns_removePending cg c c' id id').mpr ⟨hsame, hc'⟩⟩

theorem keeps_stranded_iff {id : StreamId} (h : claims e minIdle o s cg id = true) :
    Keeps cg (stranded e minIdle o.force cg id) ↔ ¬ ∃! c, cg.owns c id := by
  unfold stranded
  cases hf : cg.claimFrom e minIdle o.force id with
  | some f => exact keeps_removePending_iff (owns_of_holder (Option.filter_eq_some_iff.mp hf).1)
  | none =>
    refine iff_of_true (fun _ hid => hid) ?_
    rintro ⟨c, hc, -⟩
    -- a claim that is forced leaves no holder out
    unfold claims at h
    rw [hf, Option.isSome_none, Bool.false_or, Bool.and_eq_true] at h
    have hnone : cg.holder e.walk id = none := by
      simpa [claimFrom, h.1, Option.eq_none_iff_forall_ne_some] using hf
    exact not_owns_of_holder hnone c hc

theorem keeps_afterClaim_iff (ids : List StreamId) :
    Keeps cg (afterClaim e consumer minIdle o s cg ids) ↔ Spares e minIdle o s cg ids := by
  unfold afterClaim Spares
  by_cases h : o.Reaches e.now
  · rw [claimAll?_eq h]
    refine iff_of_true ?_ (.inl h)
    rintro id ⟨c, hc⟩
    have howns : (claimAll e consumer minIdle o s cg ids).1.owns c id ∨
        (claimAll e consumer minIdle o s cg ids).1.owns consumer id := owns_claimAll ids hc
    rcases howns with hc | hc
    · exact ⟨c, hc⟩
    · exact ⟨consumer, hc⟩
  · rw [claimAll?_eq_find h, or_iff_right h]
    cases hfind : ids.find? (claims e minIdle o s cg) with
    | none => exact iff_of_true (fun _ hid => hid) nofun
    | some id =>
      dsimp only
      rw [keeps_stranded_iff (List.find?_some hfind)]
      simp

end ConsumerGroup

/-! ## The commands -/

section Commands

variable {S : Type} [LinearOrder S] {e : Env} {d : Data S} {key group consumer : Bytes}

/-- XCLAIM of the ids in a group: what is left of the group, and the reply unless it panics. -/
def claimReply {ρ : Type} (e : Env) (consumer : Bytes) (minIdleTimeMs : UInt64)
    (ids : List StreamId) (o : XclaimOptions) (reply : List (StreamId × Option Fields) → ρ)
    (s : Stream) (cg : ConsumerGroup) : ConsumerGroup × Option ρ :=
  match ConsumerGroup.claimAll? e consumer (.fromMillis minIdleTimeMs.toNat) o s (cg, []) ids with
  | .error left => (left, none)
  | .ok r => (r.1, some (reply r.2))

/-- XCLAIM; no reply where it panics. -/
def Store.xclaim? (e : Env) (key group consumer : Bytes) (minIdleTimeMs : UInt64)
    (ids : List StreamId) (o : XclaimOptions) :
    Data S → Data S × Option (Except StoreError (List (StreamId × Option Fields))) :=
  modifyGroup e.now key group (some (.error (noGroupError group key))) (some (.error .wrongType))
    (claimReply e consumer minIdleTimeMs ids o .ok)

/-- `XCLAIM`; no reply where it panics. -/
def Script.xclaim? (e : Env) : List Bytes → Data S → Data S × Option Reply
  | key :: group :: consumer :: minIdle :: id :: rest => fun d =>
    match parseU64 minIdle with
    | none => (d, some (.error "ERR Invalid min-idle-time argument for XCLAIM"))
    | some minIdle =>
      let noGroup : Reply := .ok (.error ((noGroupError group key).toString ++ " in XCLAIM"))
      let parsed := claimArgs (id :: rest) {}
      Store.modifyGroup e.now key group (some noGroup) (some wrongType)
        (claimReply e consumer minIdle parsed.1 parsed.2 fun claimed =>
          .ok (.array (claimed.map (claimedValue e.walk)))) d
  | _ => fun d => (d, some (wrongArity "xclaim"))

/-- The group still has pending what it had. -/
def KeepsPending (now : Instant) (key group : Bytes) (d d' : Data S) : Prop :=
  ∀ cg, liveGroup now d key group = some cg →
    ∃ cg', liveGroup now d' key group = some cg' ∧ cg.Keeps cg'

/-- XCLAIM spares the group that it finds. -/
def SparesIn (e : Env) (d : Data S) (key group : Bytes) (minIdleTimeMs : UInt64)
    (o : XclaimOptions) (ids : List StreamId) : Prop :=
  ∀ s cg, liveStream e.now d key = some s → s.groups[group]? = some cg →
    cg.Spares e (.fromMillis minIdleTimeMs.toNat) o s ids

/-- What a rewrite leaves of its group. -/
theorem liveGroup_modifyGroup {ρ : Type} {now : Instant} (missing wrong : ρ)
    (f : Stream → ConsumerGroup → ConsumerGroup × ρ) {s : Stream} {cg : ConsumerGroup}
    (hs : liveStream now d key = some s) (hg : s.groups[group]? = some cg) :
    liveGroup now (Store.modifyGroup now key group missing wrong f d).1 key group =
      some (f s cg).1 := by
  obtain ⟨exp, hl⟩ := liveStream_eq_some.mp hs
  have hstream : liveStream now (Store.modifyGroup now key group missing wrong f d).1 key =
      some (s.putGroup group (f s cg).1) := by
    rw [Store.modifyGroup, modifyAs_found (t := Kind.stream) hl, hg]
    exact (liveStream_insert hl (s.putGroup group (f s cg).1) key).trans (if_pos rfl)
  refine liveGroup_eq_some.mpr ⟨_, hstream, ?_⟩
  rw [Stream.putGroup_groups, if_pos rfl]

theorem keepsPending_modifyGroup_iff {ρ : Type} (missing wrong : Option ρ) (minIdleTimeMs : UInt64)
    (ids : List StreamId) (o : XclaimOptions) (reply : List (StreamId × Option Fields) → ρ) :
    KeepsPending e.now key group d (Store.modifyGroup e.now key group missing wrong
        (claimReply e consumer minIdleTimeMs ids o reply) d).1 ↔
      SparesIn e d key group minIdleTimeMs o ids := by
  have hleft : ∀ s cg, (claimReply e consumer minIdleTimeMs ids o reply s cg).1 =
      cg.afterClaim e consumer (.fromMillis minIdleTimeMs.toNat) o s ids := by
    intro s cg
    unfold claimReply ConsumerGroup.afterClaim
    cases ConsumerGroup.claimAll? e consumer (.fromMillis minIdleTimeMs.toNat) o s (cg, []) ids
      <;> rfl
  constructor
  · intro h s cg hs hg
    obtain ⟨cg', hcg', hkeeps⟩ := h cg (liveGroup_eq_some.mpr ⟨s, hs, hg⟩)
    rw [liveGroup_modifyGroup missing wrong _ hs hg, hleft, Option.some.injEq] at hcg'
    rw [← hcg'] at hkeeps
    exact (ConsumerGroup.keeps_afterClaim_iff ids).mp hkeeps
  · intro h cg hcg
    obtain ⟨s, hs, hg⟩ := liveGroup_eq_some.mp hcg
    refine ⟨_, liveGroup_modifyGroup missing wrong _ hs hg, ?_⟩
    rw [hleft, ConsumerGroup.keeps_afterClaim_iff]
    exact h s cg hs hg

theorem Script.keepsPending_xclaim?_iff (minIdle id : Bytes) (rest : List Bytes) :
    KeepsPending e.now key group d
        (Script.xclaim? e (key :: group :: consumer :: minIdle :: id :: rest) d).1 ↔
      ∀ ms, parseU64 minIdle = some ms →
        SparesIn e d key group ms (claimArgs (id :: rest) {}).2 (claimArgs (id :: rest) {}).1 := by
  unfold xclaim?
  dsimp only
  cases hms : parseU64 minIdle with
  | none =>
    refine iff_of_true ?_ nofun
    intro cg hcg
    exact ⟨cg, hcg, fun _ hid => hid⟩
  | some ms =>
    dsimp only
    rw [keepsPending_modifyGroup_iff]
    simp

/-- A rewrite of a group with a reply that is always there. -/
theorem modifyGroup_some {ρ : Type} (now : Instant) (key group : Bytes) (missing wrong : ρ)
    (f : Stream → ConsumerGroup → ConsumerGroup × ρ) (d : Data S) :
    Store.modifyGroup now key group (some missing) (some wrong)
        (fun s cg => ((f s cg).1, some (f s cg).2)) d =
      ((Store.modifyGroup now key group missing wrong f d).1,
        some (Store.modifyGroup now key group missing wrong f d).2) := by
  unfold Store.modifyGroup
  cases look Kind.stream now key d with
  | absent hl => rw [modifyAs_absent hl, modifyAs_absent hl]
  | wrong en hl hd => rw [modifyAs_wrong hl hd, modifyAs_wrong hl hd]
  | found s exp hl =>
    rw [modifyAs_found hl, modifyAs_found hl]
    cases s.groups[group]? <;> rfl

theorem claimReply_eq {ρ : Type} {minIdleTimeMs : UInt64} {ids : List StreamId} {o : XclaimOptions}
    (h : o.Reaches e.now) (reply : List (StreamId × Option Fields) → ρ) :
    claimReply e consumer minIdleTimeMs ids o reply = fun s cg =>
      ((cg.claimAll e consumer (.fromMillis minIdleTimeMs.toNat) o s ids).1,
        some (reply (cg.claimAll e consumer (.fromMillis minIdleTimeMs.toNat) o s ids).2)) := by
  funext s cg
  unfold claimReply
  rw [ConsumerGroup.claimAll?_eq h]
  rfl

/-- An idle time within reach: the command does not panic, and is the one that never does. -/
theorem Store.xclaim?_eq {minIdleTimeMs : UInt64} {ids : List StreamId} {o : XclaimOptions}
    (h : o.Reaches e.now) (d : Data S) :
    xclaim? e key group consumer minIdleTimeMs ids o d =
      ((xclaim e key group consumer minIdleTimeMs ids o d).1,
        some (xclaim e key group consumer minIdleTimeMs ids o d).2) := by
  unfold xclaim?
  rw [claimReply_eq h]
  exact modifyGroup_some e.now key group
    (Except.error (noGroupError group key) : Except StoreError (List (StreamId × Option Fields)))
    (.error .wrongType)
    (fun s cg =>
      ((cg.claimAll e consumer (.fromMillis minIdleTimeMs.toNat) o s ids).1,
        .ok (cg.claimAll e consumer (.fromMillis minIdleTimeMs.toNat) o s ids).2)) d

theorem Script.xclaim?_eq {minIdle id : Bytes} {rest : List Bytes}
    (h : (claimArgs (id :: rest) {}).2.Reaches e.now) (d : Data S) :
    xclaim? e (key :: group :: consumer :: minIdle :: id :: rest) d =
      ((xclaim e (key :: group :: consumer :: minIdle :: id :: rest) d).1,
        some (xclaim e (key :: group :: consumer :: minIdle :: id :: rest) d).2) := by
  unfold xclaim? xclaim
  dsimp only
  cases parseU64 minIdle with
  | none => rfl
  | some minIdle =>
    dsimp only
    rw [claimReply_eq h]
    exact modifyGroup_some e.now key group
      (Except.ok (.error ((noGroupError group key).toString ++ " in XCLAIM")) : Reply) wrongType
      (fun s cg =>
        ((cg.claimAll e consumer (.fromMillis minIdle.toNat) (claimArgs (id :: rest) {}).2 s
          (claimArgs (id :: rest) {}).1).1,
          .ok (.array ((cg.claimAll e consumer (.fromMillis minIdle.toNat)
            (claimArgs (id :: rest) {}).2 s (claimArgs (id :: rest) {}).1).2.map
              (claimedValue e.walk))))) d

end Commands

/-- XCLAIM keeps every pending entry exactly when it does not panic at an id that is pending at one
consumer. -/
theorem xclaim_keeps_iff {S : Type} [LinearOrder S] (e : Env) (d : Data S)
    (key group consumer : Bytes) :
    (∀ minIdleTimeMs ids o,
      KeepsPending e.now key group d
          (Store.xclaim? e key group consumer minIdleTimeMs ids o d).1 ↔
        SparesIn e d key group minIdleTimeMs o ids) ∧
    ∀ minIdle id rest,
      KeepsPending e.now key group d
          (Script.xclaim? e (key :: group :: consumer :: minIdle :: id :: rest) d).1 ↔
        ∀ ms, parseU64 minIdle = some ms →
          SparesIn e d key group ms (Script.claimArgs (id :: rest) {}).2
            (Script.claimArgs (id :: rest) {}).1 := by
  constructor
  · intro minIdleTimeMs ids o
    exact keepsPending_modifyGroup_iff _ _ minIdleTimeMs ids o _
  · intro minIdle id rest
    exact Script.keepsPending_xclaim?_iff minIdle id rest

/-- A group with one entry pending, of a stream that has no entries any more. -/
def youngPending : ConsumerGroup :=
  ConsumerGroup.insertPending ⟨⟨1, 0⟩, ∅⟩ (ascii "c") ⟨1, 0⟩ ⟨0, 1⟩

def youngData : Data ℤ :=
  (∅ : Data ℤ).insert (ascii "s") ⟨.stream ⟨∅, ⟨1, 0⟩,
    (∅ : FinMap Bytes ConsumerGroup).insert (ascii "g") youngPending⟩, none⟩

/-- Five milliseconds after its origin the clock cannot be set back by ten. -/
theorem youngData_loses :
    ¬ KeepsPending 5000000 (ascii "s") (ascii "g") youngData
      (Store.xclaim? ⟨5000000, 0, .byKey⟩ (ascii "s") (ascii "g") (ascii "d") 0 [⟨1, 0⟩]
        { idle := some 10 } youngData).1 ∧
    ¬ KeepsPending 5000000 (ascii "s") (ascii "g") youngData
      (Script.xclaim? ⟨5000000, 0, .byKey⟩ [ascii "s", ascii "g", ascii "d", ascii "0",
        ascii "1-0", ascii "IDLE", ascii "10"] youngData).1 := by
  have hlost : ∀ d' : Data ℤ, liveGroup 5000000 d' (ascii "s") (ascii "g") =
      some (youngPending.removePending (ascii "c") ⟨1, 0⟩) →
        ¬ KeepsPending 5000000 (ascii "s") (ascii "g") youngData d' := by
    intro d' hd' h
    have howner : ∃ c, youngPending.owns c ⟨1, 0⟩ := ⟨ascii "c", by decide⟩
    obtain ⟨cg', hcg', hkeeps⟩ := h youngPending (by decide)
    rw [hd', Option.some.injEq] at hcg'
    obtain ⟨c, hc⟩ := hkeeps ⟨1, 0⟩ howner
    rw [← hcg', ConsumerGroup.owns_removePending, youngPending,
      ConsumerGroup.owns_insertPending] at hc
    obtain ⟨hne, hc | hc⟩ := hc
    · exact hne hc
    · exact ConsumerGroup.not_owns_new _ _ _ hc
  constructor
  · exact hlost _ (by decide +kernel)
  · exact hlost _ (by decide +kernel)

end BurnerRedis
