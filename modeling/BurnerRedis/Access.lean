import BurnerRedis.Values

/-!
# Looking at a key and writing it back

Every command that takes a key first drops the key if it has expired (`purge`), then looks at the
type of what is left. The four shapes this takes are defined once, for a type of value given as a
`Kind` and a reply type of its own:

* `readAs`: the value is read;
* `modifyAs`: a value that is there is rewritten;
* `upsertAs`: the value is rewritten, after an empty one is put where there is none;
* `shrinkAs`: a list that is there is rewritten, and the key goes when nothing is left of it.
-/

namespace BurnerRedis

variable {S : Type} [LinearOrder S] {V ρ : Type}

/-! ## Live entries -/

/-- The entry of a key, unless it has expired. -/
def live (now : Instant) (d : Data S) (key : Bytes) : Option (ValueEntry S) :=
  d[key]?.filter fun en => !en.isExpired now

/-- Passive expiration: the key is removed if its entry has expired. -/
def purge (now : Instant) (key : Bytes) (d : Data S) : Data S :=
  match d[key]? with
  | some en => if en.isExpired now then d.erase key else d
  | none => d

theorem live_eq_some {now : Instant} {d : Data S} {key : Bytes} {en : ValueEntry S} :
    live now d key = some en ↔ d[key]? = some en ∧ en.isExpired now = false := by
  simp [live, Option.filter_eq_some_iff]

theorem live_insert (now : Instant) (d : Data S) (key k : Bytes) (en : ValueEntry S) :
    live now (d.insert key en) k =
      if key = k then (some en).filter (fun en => !en.isExpired now) else live now d k := by
  unfold live
  rw [FinMap.getElem?_insert']
  split_ifs <;> rfl

theorem live_erase (now : Instant) (d : Data S) (key k : Bytes) :
    live now (d.erase key) k = if key = k then none else live now d k := by
  unfold live
  rw [FinMap.getElem?_erase']
  split_ifs <;> rfl

/-- Purging a key erases it or does nothing. -/
theorem purge_cases (now : Instant) (key : Bytes) (d : Data S) :
    purge now key d = d ∧ live now d key = d[key]? ∨
      purge now key d = d.erase key ∧ live now d key = none := by
  unfold purge live
  cases h : d[key]? with
  | none => left; simp
  | some en =>
    cases hx : en.isExpired now with
    | false => left; simp [hx]
    | true => right; simp [hx]

theorem purge_of_live {now : Instant} {d : Data S} {key : Bytes} {en : ValueEntry S}
    (h : live now d key = some en) : purge now key d = d := by
  rcases purge_cases now key d with ⟨hp, -⟩ | ⟨-, hl⟩
  · exact hp
  · rw [h] at hl
    cases hl

@[simp] theorem getElem?_purge (now : Instant) (key : Bytes) (d : Data S) :
    (purge now key d)[key]? = live now d key := by
  rcases purge_cases now key d with ⟨h, hl⟩ | ⟨h, hl⟩
  · rw [h, hl]
  · rw [h, hl, FinMap.getElem?_erase', if_pos rfl]

/-- Purging changes no live entry. -/
@[simp] theorem live_purge (now : Instant) (key k : Bytes) (d : Data S) :
    live now (purge now key d) k = live now d k := by
  rcases purge_cases now key d with ⟨h, -⟩ | ⟨h, hl⟩
  · rw [h]
  · rw [h, live_erase]
    split_ifs with hk
    · rw [← hk, hl]
    · rfl

theorem live_of_getElem?_purge {now : Instant} {key : Bytes} {d : Data S} {en : ValueEntry S}
    (h : (purge now key d)[key]? = some en) : live now d key = some en := by
  rwa [getElem?_purge] at h

/-- A purged key that is written is written over whatever was there. -/
@[simp] theorem insert_purge (now : Instant) (key : Bytes) (d : Data S) (en : ValueEntry S) :
    (purge now key d).insert key en = d.insert key en := by
  rcases purge_cases now key d with ⟨h, -⟩ | ⟨h, -⟩
  · rw [h]
  · rw [h]
    refine Std.ExtTreeMap.ext_getElem? fun a => ?_
    simp only [FinMap.getElem?_insert', FinMap.getElem?_erase']
    split_ifs <;> rfl

@[simp] theorem erase_purge (now : Instant) (key : Bytes) (d : Data S) :
    (purge now key d).erase key = d.erase key := by
  rcases purge_cases now key d with ⟨h, -⟩ | ⟨h, -⟩
  · rw [h]
  · rw [h]
    refine Std.ExtTreeMap.ext_getElem? fun a => ?_
    simp only [FinMap.getElem?_erase']
    split_ifs <;> rfl

@[simp] theorem purge_purge (now : Instant) (key : Bytes) (d : Data S) :
    purge now key (purge now key d) = purge now key d := by
  rcases purge_cases now key (purge now key d) with ⟨h, -⟩ | ⟨h, hl⟩
  · exact h
  · rw [h]
    exact FinMap.erase_of_getElem?_eq_none (by rw [getElem?_purge, ← live_purge now key, hl])

/-- Passive expiration of two keys, once when they are the same. -/
def purgePair (now : Instant) (src dst : Bytes) (d : Data S) : Data S :=
  if src = dst then purge now src d else purge now dst (purge now src d)

@[simp] theorem live_purgePair (now : Instant) (src dst k : Bytes) (d : Data S) :
    live now (purgePair now src dst d) k = live now d k := by
  unfold purgePair
  split_ifs <;> simp only [live_purge]

theorem getElem?_purge_ne {now : Instant} {key k : Bytes} {d : Data S} (h : key ≠ k) :
    (purge now key d)[k]? = d[k]? := by
  rcases purge_cases now key d with ⟨hp, -⟩ | ⟨hp, -⟩
  · rw [hp]
  · rw [hp, FinMap.getElem?_erase_ne _ h]

theorem getElem?_purgePair_src (now : Instant) (src dst : Bytes) (d : Data S) :
    (purgePair now src dst d)[src]? = live now d src := by
  unfold purgePair
  split_ifs with h
  · exact getElem?_purge now src d
  · rw [getElem?_purge_ne (Ne.symm h), getElem?_purge]

theorem getElem?_purgePair_dst (now : Instant) (src dst : Bytes) (d : Data S) :
    (purgePair now src dst d)[dst]? = live now d dst := by
  unfold purgePair
  split_ifs with h
  · rw [h, getElem?_purge]
  · rw [getElem?_purge, live_purge]

/-! ## Types of values -/

/-- One of the data types: how a value of it is stored, and how it is found again. -/
structure Kind (S V : Type) [LinearOrder S] where
  wrap : V → ValueData S
  get? : ValueData S → Option V
  get?_eq_some : ∀ {x v}, get? x = some v ↔ x = wrap v

namespace Kind

@[simp] theorem get?_wrap (t : Kind S V) (v : V) : t.get? (t.wrap v) = some v :=
  t.get?_eq_some.mpr rfl

def string : Kind S Bytes where
  wrap := .string
  get? | .string v => some v | _ => none
  get?_eq_some {x v} := by cases x <;> simp

def hash : Kind S (FinMap Bytes Bytes) where
  wrap := .hash
  get? | .hash m => some m | _ => none
  get?_eq_some {x v} := by cases x <;> simp

def set : Kind S (FinMap Bytes Unit) where
  wrap := .set
  get? | .set m => some m | _ => none
  get?_eq_some {x v} := by cases x <;> simp

def sortedSet : Kind S (SortedSet S) where
  wrap := .sortedSet
  get? | .sortedSet z => some z | _ => none
  get?_eq_some {x v} := by cases x <;> simp

def stream : Kind S Stream where
  wrap := .stream
  get? | .stream s => some s | _ => none
  get?_eq_some {x v} := by cases x <;> simp

def list : Kind S (List Bytes) where
  wrap := .list
  get? | .list l => some l | _ => none
  get?_eq_some {x v} := by cases x <;> simp

end Kind

/-! ## The four shapes -/

/-- Read the value of a key. -/
def readAs (t : Kind S V) (now : Instant) (key : Bytes) (absent wrong : ρ) (f : V → ρ)
    (d : Data S) : Data S × ρ :=
  (purge now key d,
    match (purge now key d)[key]? with
    | none => absent
    | some en => match t.get? en.data with
      | some v => f v
      | none => wrong)

/-- Rewrite the value of a key that is there. -/
def modifyAs (t : Kind S V) (now : Instant) (key : Bytes) (absent wrong : ρ) (f : V → V × ρ)
    (d : Data S) : Data S × ρ :=
  match (purge now key d)[key]? with
  | none => (purge now key d, absent)
  | some en => match t.get? en.data with
    | some v => ((purge now key d).insert key { en with data := t.wrap (f v).1 }, (f v).2)
    | none => (purge now key d, wrong)

/-- Rewrite the value of a key, `new` where there is none. -/
def upsertAs (t : Kind S V) (now : Instant) (key : Bytes) (new : V) (wrong : ρ) (f : V → V × ρ)
    (d : Data S) : Data S × ρ :=
  match (purge now key d)[key]? with
  | none => ((purge now key d).insert key ⟨t.wrap (f new).1, none⟩, (f new).2)
  | some en => match t.get? en.data with
    | some v => ((purge now key d).insert key { en with data := t.wrap (f v).1 }, (f v).2)
    | none => (purge now key d, wrong)

/-- Rewrite the list of a key that is there, and remove the key when no element is left. -/
def shrinkAs (now : Instant) (key : Bytes) (absent wrong : ρ) (f : List Bytes → List Bytes × ρ)
    (d : Data S) : Data S × ρ :=
  match (purge now key d)[key]? with
  | none => (purge now key d, absent)
  | some en => match Kind.list.get? en.data with
    | some l =>
      (if (f l).1.isEmpty then (purge now key d).erase key
        else (purge now key d).insert key { en with data := .list (f l).1 }, (f l).2)
    | none => (purge now key d, wrong)

/-- What stands under a key, seen by a command for one type of value. -/
inductive Look (t : Kind S V) (now : Instant) (key : Bytes) (d : Data S) : Prop where
  | absent (h : live now d key = none)
  | wrong (en : ValueEntry S) (h : live now d key = some en) (hd : t.get? en.data = none)
  | found (v : V) (exp : Option Instant) (h : live now d key = some ⟨t.wrap v, exp⟩)

theorem look (t : Kind S V) (now : Instant) (key : Bytes) (d : Data S) : Look t now key d := by
  cases h : live now d key with
  | none => exact .absent h
  | some en =>
    cases hd : t.get? en.data with
    | none => exact .wrong en h hd
    | some v =>
      refine .found v en.expiresAt ?_
      rw [h, ← t.get?_eq_some.mp hd]

section Shapes

variable {t : Kind S V} {now : Instant} {key : Bytes} {d : Data S} {absent wrong : ρ}

theorem readAs_absent {f : V → ρ} (h : live now d key = none) :
    readAs t now key absent wrong f d = (purge now key d, absent) := by
  rw [readAs, getElem?_purge, h]

theorem readAs_wrong {f : V → ρ} {en : ValueEntry S} (h : live now d key = some en)
    (hd : t.get? en.data = none) :
    readAs t now key absent wrong f d = (purge now key d, wrong) := by
  rw [readAs, getElem?_purge, h]
  simp only [hd]

theorem readAs_found {f : V → ρ} {v : V} {exp : Option Instant}
    (h : live now d key = some ⟨t.wrap v, exp⟩) :
    readAs t now key absent wrong f d = (purge now key d, f v) := by
  rw [readAs, getElem?_purge, h]
  simp only [Kind.get?_wrap]

theorem modifyAs_absent {f : V → V × ρ} (h : live now d key = none) :
    modifyAs t now key absent wrong f d = (purge now key d, absent) := by
  rw [modifyAs, getElem?_purge, h]

theorem modifyAs_wrong {f : V → V × ρ} {en : ValueEntry S} (h : live now d key = some en)
    (hd : t.get? en.data = none) :
    modifyAs t now key absent wrong f d = (purge now key d, wrong) := by
  rw [modifyAs, getElem?_purge, h]
  simp only [hd]

theorem modifyAs_found {f : V → V × ρ} {v : V} {exp : Option Instant}
    (h : live now d key = some ⟨t.wrap v, exp⟩) :
    modifyAs t now key absent wrong f d = (d.insert key ⟨t.wrap (f v).1, exp⟩, (f v).2) := by
  rw [modifyAs, getElem?_purge, h]
  simp only [Kind.get?_wrap, insert_purge]

theorem upsertAs_absent {new : V} {f : V → V × ρ} (h : live now d key = none) :
    upsertAs t now key new wrong f d = (d.insert key ⟨t.wrap (f new).1, none⟩, (f new).2) := by
  rw [upsertAs, getElem?_purge, h]
  simp only [insert_purge]

theorem upsertAs_wrong {new : V} {f : V → V × ρ} {en : ValueEntry S}
    (h : live now d key = some en) (hd : t.get? en.data = none) :
    upsertAs t now key new wrong f d = (purge now key d, wrong) := by
  rw [upsertAs, getElem?_purge, h]
  simp only [hd]

theorem upsertAs_found {new : V} {f : V → V × ρ} {v : V} {exp : Option Instant}
    (h : live now d key = some ⟨t.wrap v, exp⟩) :
    upsertAs t now key new wrong f d = (d.insert key ⟨t.wrap (f v).1, exp⟩, (f v).2) := by
  rw [upsertAs, getElem?_purge, h]
  simp only [Kind.get?_wrap, insert_purge]

theorem shrinkAs_absent {f : List Bytes → List Bytes × ρ} (h : live now d key = none) :
    shrinkAs now key absent wrong f d = (purge now key d, absent) := by
  rw [shrinkAs, getElem?_purge, h]

theorem shrinkAs_wrong {f : List Bytes → List Bytes × ρ} {en : ValueEntry S}
    (h : live now d key = some en) (hd : Kind.list.get? en.data = none) :
    shrinkAs now key absent wrong f d = (purge now key d, wrong) := by
  rw [shrinkAs, getElem?_purge, h]
  simp only [hd]

theorem shrinkAs_found {f : List Bytes → List Bytes × ρ} {l : List Bytes} {exp : Option Instant}
    (h : live now d key = some ⟨.list l, exp⟩) :
    shrinkAs now key absent wrong f d =
      (if (f l).1.isEmpty then d.erase key else d.insert key ⟨.list (f l).1, exp⟩, (f l).2) := by
  rw [shrinkAs, getElem?_purge, h]
  simp only [Kind.list, insert_purge, erase_purge]

end Shapes

end BurnerRedis
