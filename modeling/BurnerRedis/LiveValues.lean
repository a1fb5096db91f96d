import BurnerRedis.LiveData

/-!
# The value of one type under a key

`liveAs` is what a command for one type of value finds under its key: the value, where the key is
there, has not expired and holds that type. The shapes of `Access` are described by what they do to
it.
-/

namespace BurnerRedis

variable {S : Type} [LinearOrder S] {V ρ : Type}

/-- The value of that type in the live entry of a key. -/
def liveAs (t : Kind S V) (now : Instant) (d : Data S) (key : Bytes) : Option V :=
  (live now d key).bind fun en => t.get? en.data

variable {t : Kind S V} {now : Instant} {d : Data S} {key : Bytes}

theorem liveAs_eq_some {v : V} :
    liveAs t now d key = some v ↔ ∃ exp, live now d key = some ⟨t.wrap v, exp⟩ := by
  unfold liveAs
  rw [Option.bind_eq_some_iff]
  constructor
  · rintro ⟨⟨x, exp⟩, hl, hx⟩
    obtain rfl : x = t.wrap v := t.get?_eq_some.mp hx
    exact ⟨exp, hl⟩
  · rintro ⟨exp, hl⟩
    exact ⟨⟨t.wrap v, exp⟩, hl, t.get?_wrap v⟩

theorem liveAs_of_live {v : V} {exp : Option Instant} (h : live now d key = some ⟨t.wrap v, exp⟩) :
    liveAs t now d key = some v :=
  liveAs_eq_some.mpr ⟨exp, h⟩

theorem liveAs_of_absent (h : live now d key = none) : liveAs t now d key = none := by
  rw [liveAs, h, Option.bind_none]

theorem liveAs_of_wrong {en : ValueEntry S} (h : live now d key = some en)
    (hd : t.get? en.data = none) : liveAs t now d key = none := by
  rw [liveAs, h, Option.bind_some, hd]

@[simp] theorem liveAs_purge (k : Bytes) : liveAs t now (purge now k d) key = liveAs t now d key := by
  rw [liveAs, live_purge, liveAs]

/-- A live value written again under the expiry it had. -/
theorem liveAs_insert {v : V} {exp : Option Instant} (h : live now d key = some ⟨t.wrap v, exp⟩)
    (v' : V) : liveAs t now (d.insert key ⟨t.wrap v', exp⟩) key = some v' := by
  have hexp : (⟨t.wrap v', exp⟩ : ValueEntry S).isExpired now = false := (live_eq_some.mp h).2
  refine liveAs_eq_some.mpr ⟨exp, ?_⟩
  rw [live_insert, if_pos rfl, Option.filter_some, hexp]
  rfl

/-- What a rewrite leaves under its key. -/
theorem liveAs_modifyAs (absent wrong : ρ) (f : V → V × ρ) :
    liveAs t now (modifyAs t now key absent wrong f d).1 key =
      (liveAs t now d key).map fun v => (f v).1 := by
  cases look t now key d with
  | absent h => rw [modifyAs_absent h, liveAs_purge, liveAs_of_absent h, Option.map_none]
  | wrong en h hd => rw [modifyAs_wrong h hd, liveAs_purge, liveAs_of_wrong h hd, Option.map_none]
  | found v exp h => rw [modifyAs_found h, liveAs_insert h, liveAs_of_live h, Option.map_some]

/-- What is left once an empty container is dropped. -/
theorem liveAs_removeIfEmpty (key : Bytes) (d : Data S) :
    liveAs t now (removeIfEmpty key d) key =
      (liveAs t now d key).filter fun v => !(t.wrap v : ValueData S).isEmptyContainer := by
  have hcases : removeIfEmpty key d = d ∨ removeIfEmpty key d = d.erase key := by
    unfold removeIfEmpty
    grind
  cases look t now key d with
  | absent h =>
    rw [liveAs_of_absent h, Option.filter_none]
    rcases hcases with hr | hr
    · rw [hr, liveAs_of_absent h]
    · rw [hr, liveAs_of_absent (by rw [live_erase, if_pos rfl])]
  | wrong en h hd =>
    rw [liveAs_of_wrong h hd, Option.filter_none]
    rcases hcases with hr | hr
    · rw [hr, liveAs_of_wrong h hd]
    · rw [hr, liveAs_of_absent (by rw [live_erase, if_pos rfl])]
  | found v exp h =>
    rw [liveAs_of_live h, Option.filter_some]
    unfold removeIfEmpty
    rw [(live_eq_some.mp h).1]
    dsimp only
    cases (t.wrap v : ValueData S).isEmptyContainer with
    | false => exact liveAs_of_live h
    | true => exact liveAs_of_absent (by rw [if_pos rfl, live_erase, if_pos rfl])

/-! ## A value, or a new one where there is none -/

/-- What a command that makes a new value where there is none works on, and its expiry. -/
def Finds (t : Kind S V) (new : V) (now : Instant) (d : Data S) (key : Bytes) (v : V)
    (exp : Option Instant) : Prop :=
  live now d key = none ∧ v = new ∧ exp = none ∨ live now d key = some ⟨t.wrap v, exp⟩

section Finds

variable {new v : V} {exp : Option Instant}

theorem Finds.upsertAs_eq (h : Finds t new now d key v exp) (wrong : ρ) (f : V → V × ρ) :
    upsertAs t now key new wrong f d = (d.insert key ⟨t.wrap (f v).1, exp⟩, (f v).2) := by
  rcases h with ⟨hl, rfl, rfl⟩ | hl
  · exact upsertAs_absent hl
  · exact upsertAs_found hl

theorem Finds.not_expired (h : Finds t new now d key v exp) (x : ValueData S) :
    (⟨x, exp⟩ : ValueEntry S).isExpired now = false := by
  rcases h with ⟨-, -, rfl⟩ | hl
  · rfl
  · exact (live_eq_some.mp hl).2

/-- What is written under the expiry is found there. -/
theorem Finds.insert (h : Finds t new now d key v exp) (v' : V) :
    Finds t new now (d.insert key ⟨t.wrap v', exp⟩) key v' exp := by
  right
  rw [live_insert, if_pos rfl, Option.filter_some, h.not_expired]
  rfl

end Finds

/-- The score of a member of the sorted set under a key. -/
def liveScore (now : Instant) (d : Data S) (key member : Bytes) : Option S :=
  (liveAs Kind.sortedSet now d key).bind fun z => z.byMember[member]?

/-- The pair is filed by score in the sorted set under a key, and its member has a score there. -/
def Files (now : Instant) (d : Data S) (key : Bytes) (p : ScoredMember S) : Prop :=
  ∃ z, liveAs Kind.sortedSet now d key = some z ∧ p ∈ z.byScore ∧ z.byMember[p.member]? ≠ none

/-! ## A list with what is left of it -/

/-- The key with that list under its old expiry, or gone if nothing is left. -/
def keepList (key : Bytes) (exp : Option Instant) (l : List Bytes) (d : Data S) : Data S :=
  if l.isEmpty then d.erase key else d.insert key ⟨.list l, exp⟩

theorem live_keepList {l : List Bytes} {exp : Option Instant}
    (hl : live now d key = some ⟨.list l, exp⟩) (w : List Bytes) :
    live now (keepList key exp w d) key = if w = [] then none else some ⟨.list w, exp⟩ := by
  have hexp : (⟨.list w, exp⟩ : ValueEntry S).isExpired now = false := (live_eq_some.mp hl).2
  unfold keepList
  simp only [List.isEmpty_iff]
  split_ifs with hw
  · rw [live_erase, if_pos rfl]
  · rw [live_insert, if_pos rfl, Option.filter_some, hexp]
    rfl

end BurnerRedis
