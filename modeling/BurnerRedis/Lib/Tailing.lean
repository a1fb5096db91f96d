import Mathlib.Data.Set.Insert
import Mathlib.Data.List.Basic
import Mathlib.Data.List.Pairwise
import Mathlib.Logic.Relation

/-!
# Tailing a log

A log of entries whose ids only grow, and one reader of it. Writers append above the last id and may
take entries out; the reader asks for what is above its cursor, is given some entries from there on
with none left out in between, and moves the cursor to the last one. `Gapless` says that the reader
misses nothing, and holds in every run (`Steps.gapless`).
-/

namespace Tailing

variable {I : Type} [LinearOrder I]

/-- A log and its reader. -/
structure Log (I : Type) where
  entries : Set I
  last : I
  cursor : I
  received : List I

/-- What a read from `lo` may return: entries above `lo` in order, and none left out before the
last. -/
structure Batch (entries : Set I) (lo : I) (ids : List I) : Prop where
  sorted : ids.Pairwise (· < ·)
  sound : ∀ id ∈ ids, id ∈ entries ∧ lo < id
  complete : ∀ id ∈ entries, lo < id → id ∈ ids ∨ ∀ i ∈ ids, i < id

/-- The reader after a reply: it has received the ids, and goes on from the last one. -/
def Log.receive (t : Log I) (ids : List I) : Log I :=
  { t with cursor := ids.getLast?.getD t.cursor, received := t.received ++ ids }

inductive Step (t : Log I) : Log I → Prop
  | append (id : I) (h : t.last < id) :
      Step t { t with entries := insert id t.entries, last := id }
  | remove (entries : Set I) (h : entries ⊆ t.entries) : Step t { t with entries := entries }
  | read (ids : List I) (h : Batch t.entries t.cursor ids) : Step t (t.receive ids)

/-- A reader that began at `first` has received every entry from there on, or has it ahead. -/
structure Gapless (first : I) (t : Log I) : Prop where
  bounded : ∀ id ∈ t.entries, id ≤ t.last
  sorted : t.received.Pairwise (· < ·)
  above : ∀ id ∈ t.received, first < id
  /-- the cursor is where the reader began or at an id it has received, and these are not above the
  last id of the log -/
  cursor : t.cursor = first ∨ t.cursor ∈ t.received
  upTo : ∀ id ∈ t.received, id ≤ t.cursor ∧ id ≤ t.last
  missed : ∀ id ∈ t.entries, first < id → id ∈ t.received ∨ t.cursor < id

section Gapless

variable {first : I} {t t' : Log I}

theorem gapless_start {entries : Set I} {last : I} (h : ∀ id ∈ entries, id ≤ last) :
    Gapless first ⟨entries, last, first, []⟩ where
  bounded := h
  sorted := .nil
  above := nofun
  cursor := .inl rfl
  upTo := nofun
  missed := fun _ _ hid => .inr hid

theorem Gapless.append (hg : Gapless first t) {id : I} (h : t.last < id) :
    Gapless first { t with entries := insert id t.entries, last := id } where
  bounded := by
    rintro i (rfl | hi)
    · exact le_rfl
    · exact (hg.bounded i hi).trans h.le
  sorted := hg.sorted
  above := hg.above
  cursor := hg.cursor
  upTo := fun i hi => ⟨(hg.upTo i hi).1, (hg.upTo i hi).2.trans h.le⟩
  missed := by
    rintro i (rfl | hi) hfirst
    · -- the new id is above the cursor, wherever that is
      right
      rcases hg.cursor with hc | hc
      · rw [hc]
        exact hfirst
      · exact (hg.upTo _ hc).2.trans_lt h
    · exact hg.missed i hi hfirst

theorem Gapless.remove (hg : Gapless first t) (entries : Set I) (h : entries ⊆ t.entries) :
    Gapless first { t with entries := entries } where
  bounded := fun i hi => hg.bounded i (h hi)
  sorted := hg.sorted
  above := hg.above
  cursor := hg.cursor
  upTo := hg.upTo
  missed := fun i hi => hg.missed i (h hi)

theorem Gapless.first_le (hg : Gapless first t) : first ≤ t.cursor := by
  rcases hg.cursor with hc | hc
  · exact hc.ge
  · exact (hg.above _ hc).le

theorem Gapless.receive (hg : Gapless first t) {ids : List I}
    (h : Batch t.entries t.cursor ids) : Gapless first (t.receive ids) := by
  rcases List.eq_nil_or_concat' ids with rfl | ⟨ids', i, rfl⟩
  · have ht : t.receive [] = t := by
      simp [Log.receive]
    rw [ht]
    exact hg
  have hcursor : (t.receive (ids' ++ [i])).cursor = i := by
    simp [Log.receive]
  have hi : i ∈ ids' ++ [i] := List.mem_append_right _ (List.mem_singleton_self i)
  have hle : ∀ j ∈ ids' ++ [i], j ≤ i := by
    intro j hj
    rcases List.mem_append.mp hj with hj | hj
    · exact ((List.pairwise_append.mp h.sorted).2.2 j hj i (List.mem_singleton_self i)).le
    · exact (List.mem_singleton.mp hj).le
  have hlt : t.cursor < i := (h.sound i hi).2
  refine ⟨hg.bounded, ?_, ?_, ?_, ?_, ?_⟩
  · show (t.received ++ (ids' ++ [i])).Pairwise (· < ·)
    rw [List.pairwise_append]
    refine ⟨hg.sorted, h.sorted, fun a ha b hb => ?_⟩
    exact (hg.upTo a ha).1.trans_lt (h.sound b hb).2
  · intro j hj
    rcases List.mem_append.mp hj with hj | hj
    · exact hg.above j hj
    · exact hg.first_le.trans_lt (h.sound j hj).2
  · right
    rw [hcursor]
    exact List.mem_append_right _ hi
  · intro j hj
    rw [hcursor]
    rcases List.mem_append.mp hj with hj | hj
    · exact ⟨(hg.upTo j hj).1.trans hlt.le, (hg.upTo j hj).2⟩
    · exact ⟨hle j hj, hg.bounded j (h.sound j hj).1⟩
  · intro j hj hfirst
    rw [hcursor]
    rcases hg.missed j hj hfirst with hr | hc
    · exact .inl (List.mem_append_left _ hr)
    · rcases h.complete j hj hc with hb | hb
      · exact .inl (List.mem_append_right _ hb)
      · exact .inr (hb i hi)

theorem Step.gapless (hs : Step t t') (hg : Gapless first t) : Gapless first t' := by
  cases hs with
  | append id h => exact hg.append h
  | remove entries h => exact hg.remove entries h
  | read ids h => exact hg.receive h

theorem Steps.gapless (hs : Relation.ReflTransGen Step t t') (hg : Gapless first t) :
    Gapless first t' := by
  induction hs with
  | refl => exact hg
  | tail _ hst ih => exact hst.gapless ih

end Gapless

end Tailing
