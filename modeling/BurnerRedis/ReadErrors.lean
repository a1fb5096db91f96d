import BurnerRedis.Script.Reply
import BurnerRedis.Reading

/-!
# XREADGROUP that fails half way

XREADGROUP goes through its keys one by one and leaves at the first that has no such group. What it
delivered before stays delivered, and the entries are in no reply. `xreadgroup_error_keeps_iff` says
when a failing call changes no group: when no read of new entries before the failing key finds any.
-/

namespace BurnerRedis

variable {S : Type} [LinearOrder S]

/-! ## One key -/

section OneKey

variable {e : Env} {consumer idStr : Bytes} {count : Option ℕ} {s : Stream} {cg : ConsumerGroup}

theorem lastDeliveredId_lt_deliverAll (now : Instant) (h : newEntries count s cg ≠ []) :
    cg.lastDeliveredId <
      (cg.deliverAll now consumer (newEntries count s cg)).lastDeliveredId := by
  rw [ConsumerGroup.deliverAll_lastDeliveredId, List.getLast?_eq_some_getLast h]
  exact ConsumerGroup.lt_of_mem_newEntries (List.getLast_mem h)

theorem lastDeliveredId_le_readOne :
    cg.lastDeliveredId ≤ (Store.readOne e consumer idStr count s cg).1.lastDeliveredId := by
  by_cases h : idStr = ascii ">" ∧ newEntries count s cg ≠ []
  · obtain ⟨rfl, hne⟩ := h
    exact (lastDeliveredId_lt_deliverAll e.now hne).le
  · rw [Store.readOne_of_nothing fun hid => not_not.mp fun hne => h ⟨hid, hne⟩]

end OneKey

/-! ## All keys -/

/-- No read of new entries that XREADGROUP gets to finds any. -/
def ReadsNothing (now : Instant) (d : Data S) (group : Bytes) (count : Option ℕ)
    (pairs : List (Bytes × Bytes)) : Prop :=
  ∀ pair ∈ readablePairs now d group pairs, pair.2 = ascii ">" →
    ∀ s ∈ liveStream now d pair.1, ∀ cg ∈ s.groups[group]?,
      count = some 0 ∨ s.entries.after cg.lastDeliveredId = []

section AllKeys

variable {e : Env} {d : Data S} {group consumer : Bytes} {count : Option ℕ}
  {pairs : List (Bytes × Bytes)}

theorem xreadgroupPairs_of_readsNothing (h : ReadsNothing e.now d group count pairs)
    (k g : Bytes) :
    liveGroup e.now (Store.xreadgroupPairs e group consumer count pairs d).1 k g =
      liveGroup e.now d k g := by
  induction pairs with
  | nil => rfl
  | cons pair pairs ih =>
    obtain ⟨key, idStr⟩ := pair
    rcases Store.xreadgroupPairs_cons e group consumer count key idStr pairs d with
      ⟨-, err, herr⟩ | ⟨s, exp, cg, hl, hcg, hcons⟩
    · rw [herr, liveGroup_purge]
    · have hs : liveStream e.now d key = some s := liveStream_eq_some.mpr ⟨exp, hl⟩
      have hread := readablePairs_cons (liveGroup_eq_some.mpr ⟨s, hs, hcg⟩) idStr pairs
      have hnone : idStr = ascii ">" → newEntries count s cg = [] := by
        rintro rfl
        exact takeCount_eq_nil_iff.mpr
          (h (key, ascii ">") (hread ▸ List.mem_cons_self) rfl s hs cg hcg)
      rw [hcons, Store.putStream_of_nothing hl hcg hnone]
      exact ih fun pair hp => h pair (hread ▸ List.mem_cons_of_mem _ hp)

/-- What has been delivered stays delivered, and a read that finds something new goes further. -/
theorem lastDeliveredId_xreadgroupPairs (consumer : Bytes) (count : Option ℕ)
    (pairs : List (Bytes × Bytes)) {k : Bytes} {cg : ConsumerGroup}
    (hk : liveGroup e.now d k group = some cg) :
    ∃ cg', liveGroup e.now (Store.xreadgroupPairs e group consumer count pairs d).1 k group =
        some cg' ∧ cg.lastDeliveredId ≤ cg'.lastDeliveredId ∧
      ((k, ascii ">") ∈ readablePairs e.now d group pairs →
        (∀ s, liveStream e.now d k = some s → newEntries count s cg ≠ []) →
        cg.lastDeliveredId < cg'.lastDeliveredId) := by
  induction pairs generalizing d cg with
  | nil => exact ⟨cg, hk, le_rfl, fun h => absurd h List.not_mem_nil⟩
  | cons pair pairs ih =>
    obtain ⟨key, idStr⟩ := pair
    rcases Store.xreadgroupPairs_cons e group consumer count key idStr pairs d with
      ⟨hg, err, herr⟩ | ⟨s, exp, cg₀, hl, hcg, hcons⟩
    · refine ⟨cg, by rw [herr, liveGroup_purge, hk], le_rfl, fun h => ?_⟩
      rw [readablePairs_cons_none hg] at h
      exact absurd h List.not_mem_nil
    · have hs : liveStream e.now d key = some s := liveStream_eq_some.mpr ⟨exp, hl⟩
      have hg : liveGroup e.now d key group = some cg₀ := liveGroup_eq_some.mpr ⟨s, hs, hcg⟩
      have hafter := liveGroup_insert hl group group
        (Store.readOne e consumer idStr count s cg₀).1 k
      have hstream := liveStream_insert hl
        (s.putGroup group (Store.readOne e consumer idStr count s cg₀).1) k
      rw [hcons, readablePairs_cons hg]
      by_cases hkey : key = k
      · subst hkey
        obtain rfl : cg₀ = cg := Option.some.inj (hg.symm.trans hk)
        rw [if_pos ⟨rfl, rfl⟩] at hafter
        rw [if_pos rfl] at hstream
        obtain ⟨cg', hcg', hle, hlt⟩ := ih hafter
        refine ⟨cg', hcg', lastDeliveredId_le_readOne.trans hle, fun hmem hnew => ?_⟩
        by_cases hid : idStr = ascii ">"
        · subst hid
          exact (lastDeliveredId_lt_deliverAll e.now (hnew s hs)).trans_le hle
        · rw [Store.readOne_of_nothing fun h => absurd h hid] at hlt hstream
          refine hlt ?_ ?_
          · rw [readablePairs_insert hl hcg]
            refine (List.mem_cons.mp hmem).resolve_left fun he => hid ?_
            exact (Prod.ext_iff.mp he).2.symm
          · intro s' hs'
            rw [hstream] at hs'
            cases hs'
            exact hnew s hs
      · rw [if_neg fun h => hkey h.1] at hafter
        rw [if_neg hkey] at hstream
        obtain ⟨cg', hcg', hle, hlt⟩ := ih (hafter.trans hk)
        refine ⟨cg', hcg', hle, fun hmem hnew => hlt ?_ ?_⟩
        · rw [readablePairs_insert hl hcg]
          refine (List.mem_cons.mp hmem).resolve_left fun he => hkey ?_
          exact (Prod.ext_iff.mp he).1.symm
        · intro s' hs'
          exact hnew s' (hstream.symm.trans hs')

end AllKeys

/-- A call of XREADGROUP that fails leaves every group as it was exactly when each of its keys has
the group, or when it delivered nothing before the one that has not. -/
theorem xreadgroup_error_keeps_iff (e : Env) (group consumer : Bytes) (keys ids : List Bytes)
    (count : Option ℕ) (d : Data S) :
    ((∃ err, (Store.xreadgroup e group consumer keys ids count d).2 = .error err) →
        ∀ k g, liveGroup e.now (Store.xreadgroup e group consumer keys ids count d).1 k g =
          liveGroup e.now d k g) ↔
      readablePairs e.now d group (keys.zip ids) = keys.zip ids ∨
        ReadsNothing e.now d group count (keys.zip ids) := by
  unfold Store.xreadgroup
  rw [Store.xreadgroupPairs_error_iff]
  constructor
  · intro h
    by_contra hcon
    obtain ⟨hne, hreads⟩ := not_or.mp hcon
    refine hreads fun pair hp hid s hs cg hcg => not_not.mp fun hnew => ?_
    obtain ⟨k, i⟩ := pair
    obtain rfl : i = ascii ">" := hid
    have hk : liveGroup e.now d k group = some cg := liveGroup_eq_some.mpr ⟨s, hs, hcg⟩
    obtain ⟨cg', hcg', -, hlt⟩ := lastDeliveredId_xreadgroupPairs consumer count
      (keys.zip ids) hk
    have hsame : cg = cg' := Option.some.inj ((hk.symm.trans (h hne k group).symm).trans hcg')
    refine absurd (hlt hp fun s' hs' => ?_) (hsame ▸ lt_irrefl _)
    obtain rfl : s = s' := Option.some.inj (Eq.trans (Eq.symm hs) hs')
    exact takeCount_eq_nil_iff.not.mpr hnew
  · rintro (hall | hnone) hne
    · exact absurd hall hne
    · exact xreadgroupPairs_of_readsNothing hnone

/-- A stream with an entry and a group. -/
def streamWithGroup : Data ℤ :=
  (Store.xgroupCreate ⟨0, 0, .byKey⟩ (ascii "s") (ascii "g") .zero false
    (Store.xadd ⟨0, 0, .byKey⟩ (ascii "s") ∅ (some ⟨1, 0⟩) ∅).1).1

/-- The second key is missing; the entry of the first is delivered and lost. -/
theorem missing_second_key_not_kept :
    ¬ ((∃ err, (Store.xreadgroup ⟨0, 0, .byKey⟩ (ascii "g") (ascii "c") [ascii "s", ascii "t"]
          [ascii ">", ascii ">"] none streamWithGroup).2 = .error err) →
        ∀ k g, liveGroup 0 (Store.xreadgroup ⟨0, 0, .byKey⟩ (ascii "g") (ascii "c")
            [ascii "s", ascii "t"] [ascii ">", ascii ">"] none streamWithGroup).1 k g =
          liveGroup 0 streamWithGroup k g) := by
  intro h
  have herr : ∃ err, (Store.xreadgroup ⟨0, 0, .byKey⟩ (ascii "g") (ascii "c")
      [ascii "s", ascii "t"] [ascii ">", ascii ">"] none streamWithGroup).2 = .error err :=
    Store.xreadgroupPairs_error_iff.mpr (by decide +kernel)
  have hchanged : liveGroup 0 (Store.xreadgroup ⟨0, 0, .byKey⟩ (ascii "g") (ascii "c")
      [ascii "s", ascii "t"] [ascii ">", ascii ">"] none streamWithGroup).1 (ascii "s")
      (ascii "g") ≠ liveGroup 0 streamWithGroup (ascii "s") (ascii "g") := by decide +kernel
  exact hchanged (h herr (ascii "s") (ascii "g"))

end BurnerRedis
