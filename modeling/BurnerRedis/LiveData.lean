import BurnerRedis.Store.Keys
import BurnerRedis.Store.Hashes

/-!
# The live part of the data

Two data maps are the same to every client when they have the same live entries (`SameLive`). A
command that fails should leave such a map: the rules at the end say when a command of one of the
shapes of `Access` does, and what it is that goes wrong where one does not.
-/

namespace BurnerRedis

/-- Two data maps with the same live entries. -/
def SameLive {S : Type} [LinearOrder S] (now : Instant) (d d' : Data S) : Prop :=
  ∀ key, live now d key = live now d' key

section SameLive

variable {S : Type} [LinearOrder S] {now : Instant} {d d' d'' : Data S} {key : Bytes}

theorem SameLive.refl : SameLive now d d := fun _ => rfl

theorem SameLive.of_eq (h : d = d') : SameLive now d d' := h ▸ .refl

theorem SameLive.symm (h : SameLive now d d') : SameLive now d' d := fun key => (h key).symm

theorem SameLive.trans (h : SameLive now d d') (h' : SameLive now d' d'') : SameLive now d d'' :=
  fun key => (h key).trans (h' key)

theorem sameLive_purge (now : Instant) (key : Bytes) (d : Data S) :
    SameLive now d (purge now key d) :=
  fun _ => (live_purge ..).symm

theorem sameLive_purgePair (now : Instant) (src dst : Bytes) (d : Data S) :
    SameLive now d (purgePair now src dst d) :=
  fun _ => (live_purgePair ..).symm

theorem SameLive.insert (h : SameLive now d d') (key : Bytes) (en : ValueEntry S) :
    SameLive now (d.insert key en) (d'.insert key en) := by
  intro k
  rw [live_insert, live_insert, h k]

theorem SameLive.erase (h : SameLive now d d') (key : Bytes) :
    SameLive now (d.erase key) (d'.erase key) := by
  intro k
  rw [live_erase, live_erase, h k]

/-- Writing back a live entry. -/
theorem sameLive_insert_self {en : ValueEntry S} (h : live now d key = some en) :
    SameLive now d (d.insert key en) := by
  rw [FinMap.insert_self_of_getElem? (live_eq_some.mp h).1]
  exact .refl

/-- Two values written under a live expiry are told apart. -/
theorem sameLive_insert_iff {x y : ValueData S} {exp : Option Instant}
    (hexp : (⟨x, exp⟩ : ValueEntry S).isExpired now = false) :
    SameLive now (d.insert key ⟨x, exp⟩) (d.insert key ⟨y, exp⟩) ↔ x = y := by
  refine ⟨fun h => ?_, fun h => h ▸ .refl⟩
  have hy : (⟨y, exp⟩ : ValueEntry S).isExpired now = false := hexp
  have hk := h key
  rw [live_insert, live_insert, if_pos rfl, if_pos rfl] at hk
  simpa [Option.filter_some, hexp, hy] using hk

/-- A key that comes out of nothing shows, unless it has expired at once. -/
theorem not_sameLive_insert (h : live now d key = none) {en : ValueEntry S}
    (hexp : en.isExpired now = false) : ¬ SameLive now d (d.insert key en) := by
  intro hs
  have hk := hs key
  rw [h, live_insert, if_pos rfl, Option.filter_some, hexp] at hk
  cases hk

theorem removeIfEmpty_insert {en : ValueEntry S} (h : en.data.isEmptyContainer = false) :
    removeIfEmpty key (d.insert key en) = d.insert key en := by
  unfold removeIfEmpty
  rw [FinMap.getElem?_insert', if_pos rfl]
  simp only [h, Bool.false_eq_true, if_false]

/-- What is written stays unless it is an empty container. -/
theorem removeIfEmpty_insert_eq (key : Bytes) (d : Data S) (en : ValueEntry S) :
    removeIfEmpty key (d.insert key en) =
      if en.data.isEmptyContainer then d.erase key else d.insert key en := by
  unfold removeIfEmpty
  rw [FinMap.getElem?_insert', if_pos rfl]
  dsimp only
  rw [FinMap.erase_insert]

/-- A container that is found where another type is wanted goes if it is empty. -/
theorem sameLive_removeIfEmpty_iff {en : ValueEntry S} (h : live now d key = some en) :
    SameLive now (purge now key d) (removeIfEmpty key (purge now key d)) ↔
      en.data.isEmptyContainer = false := by
  unfold removeIfEmpty
  rw [getElem?_purge, h]
  dsimp only
  constructor
  · intro hs
    by_contra he
    rw [if_pos (Bool.not_eq_false _ ▸ he)] at hs
    have hk := hs key
    rw [live_purge, h, live_erase, if_pos rfl] at hk
    cases hk
  · intro he
    rw [he]
    exact .refl

end SameLive

/-! ## Failed commands -/

/-- The key holds an empty container of another type. -/
def EmptyOther {S V : Type} [LinearOrder S] (t : Kind S V) (now : Instant) (d : Data S)
    (key : Bytes) : Prop :=
  ∃ en, live now d key = some en ∧ t.get? en.data = none ∧ en.data.isEmptyContainer = true

section Failed

variable {S : Type} [LinearOrder S] {V ρ : Type} {t : Kind S V} {now : Instant} {key : Bytes}
  {d : Data S} {absent wrong : ρ} (fails : ρ → Prop)

/-- A failed upsert changes nothing unless it has made the key. -/
theorem upsertAs_failed_iff {new : V} {f : V → V × ρ} (hf : ∀ v, fails (f v).2 → (f v).1 = v) :
    (fails (upsertAs t now key new wrong f d).2 →
      SameLive now d (upsertAs t now key new wrong f d).1) ↔
    ¬ (live now d key = none ∧ fails (f new).2) := by
  cases look t now key d with
  | absent hl =>
    rw [upsertAs_absent hl, hl, and_iff_right rfl]
    refine imp_congr_right fun _ => iff_false_intro ?_
    exact not_sameLive_insert hl rfl
  | wrong en hl hd =>
    rw [upsertAs_wrong hl hd, hl]
    exact iff_of_true (fun _ => sameLive_purge now key d) nofun
  | found v exp hl =>
    rw [upsertAs_found hl, hl]
    refine iff_of_true (fun h => ?_) nofun
    dsimp only at h ⊢
    rw [hf v h]
    exact sameLive_insert_self hl

/-- Where the type is wrong the key goes with the empty container that it holds. -/
theorem purge_removeIfEmpty_failed_iff {en : ValueEntry S} (hl : live now d key = some en)
    (hd : t.get? en.data = none) :
    SameLive now d (removeIfEmpty key (purge now key d)) ↔ ¬ EmptyOther t now d key := by
  have hs := sameLive_removeIfEmpty_iff hl
  have hp := sameLive_purge now key d
  rw [show SameLive now d (removeIfEmpty key (purge now key d)) ↔
    SameLive now (purge now key d) (removeIfEmpty key (purge now key d)) from
      ⟨hp.symm.trans, hp.trans⟩, hs]
  constructor
  · rintro he ⟨en', hl', -, he'⟩
    rw [hl] at hl'
    cases hl'
    rw [he] at he'
    cases he'
  · intro hn
    rw [← Bool.not_eq_true]
    exact fun he => hn ⟨en, hl, hd, he⟩

theorem not_emptyOther_absent (h : live now d key = none) : ¬ EmptyOther t now d key := by
  rintro ⟨en, hl, -⟩
  rw [h] at hl
  cases hl

theorem not_emptyOther_found {v : V} {exp : Option Instant}
    (h : live now d key = some ⟨t.wrap v, exp⟩) : ¬ EmptyOther t now d key := by
  rintro ⟨en, hl, hd, -⟩
  rw [h] at hl
  cases hl
  rw [Kind.get?_wrap] at hd
  cases hd

/-- A failed command that ends by removing an empty container changes nothing, unless that is what
it finds instead of its own type. -/
theorem modifyAs_removeIfEmpty_failed_iff {f : V → V × ρ} (ha : ¬ fails absent) (hw : fails wrong)
    (hf : ∀ v, ¬ fails (f v).2) :
    (fails (thenRemoveIfEmpty key (modifyAs t now key absent wrong f d)).2 →
      SameLive now d (thenRemoveIfEmpty key (modifyAs t now key absent wrong f d)).1) ↔
    ¬ EmptyOther t now d key := by
  cases look t now key d with
  | absent hl =>
    rw [modifyAs_absent hl]
    exact iff_of_true (fun h => absurd h ha) (not_emptyOther_absent hl)
  | wrong en hl hd =>
    rw [modifyAs_wrong hl hd]
    exact (imp_iff_right hw).trans (purge_removeIfEmpty_failed_iff hl hd)
  | found v exp hl =>
    rw [modifyAs_found hl]
    exact iff_of_true (fun h => absurd h (hf v)) (not_emptyOther_found hl)

theorem upsertAs_removeIfEmpty_failed_iff {new : V} {f : V → V × ρ} (hw : fails wrong)
    (hf : ∀ v, ¬ fails (f v).2) :
    (fails (thenRemoveIfEmpty key (upsertAs t now key new wrong f d)).2 →
      SameLive now d (thenRemoveIfEmpty key (upsertAs t now key new wrong f d)).1) ↔
    ¬ EmptyOther t now d key := by
  cases look t now key d with
  | absent hl =>
    rw [upsertAs_absent hl]
    exact iff_of_true (fun h => absurd h (hf new)) (not_emptyOther_absent hl)
  | wrong en hl hd =>
    rw [upsertAs_wrong hl hd]
    exact (imp_iff_right hw).trans (purge_removeIfEmpty_failed_iff hl hd)
  | found v exp hl =>
    rw [upsertAs_found hl]
    exact iff_of_true (fun h => absurd h (hf v)) (not_emptyOther_found hl)

end Failed

end BurnerRedis
