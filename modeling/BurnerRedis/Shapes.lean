import BurnerRedis.Filled
import BurnerRedis.LiveData

/-!
# The shape of a command

`Shape` says of a command what it is made of: a reply, or one of the four shapes of `Access`, for a
value of a type under one of its keys, and for some the removal of a container that is left empty.
`Q` relates the value before, the value after, which is none where the key is dropped, and the
reply. A command is taken apart once, to find its shape; what holds of every shape holds of it.

`Result` is what such a command does to one data map. Most facts about commands need no more.
-/

namespace BurnerRedis

/-! ## Types -/

inductive DataType where
  | string
  | hash
  | set
  | sortedSet
  | stream
  | list
deriving DecidableEq

def ValueData.type {S : Type} [LinearOrder S] : ValueData S → DataType
  | .string _ => .string
  | .hash _ => .hash
  | .set _ => .set
  | .sortedSet _ => .sortedSet
  | .stream _ => .stream
  | .list _ => .list

/-! ## Shapes -/

/-- How a command uses the value of a key. -/
inductive Use where
  | reads
  | writes
  /-- it writes, and drops what is left empty, of whatever type -/
  | drops
deriving DecidableEq

section Shapes

variable {S : Type} [LinearOrder S] {ρ : Type}

/-- What is left of a value when it goes with its last element. -/
def ValueData.kept (x : ValueData S) : Option (ValueData S) :=
  if x.isEmptyContainer then none else some x

theorem ValueData.eq_of_mem_kept {x y : ValueData S} (h : y ∈ x.kept) : y = x ∧ y.Filled := by
  unfold kept at h
  split_ifs at h with he
  · cases h
  · cases h
    exact ⟨rfl, Bool.eq_false_iff.mpr he⟩

/-- A command for values of one type that looks at one of the keys, if at any. -/
inductive Shape (now : Instant) (keys : List Bytes) (ty : DataType) (u : Use)
    (Q : Option (ValueData S) → Option (ValueData S) → ρ → Prop) : (Data S → Data S × ρ) → Prop where
  | reply (r : ρ) : Shape now keys ty u Q fun d => (d, r)
  | read {V : Type} {t : Kind S V} {key : Bytes} (hk : key ∈ keys) {absent wrong : ρ} {f : V → ρ} :
      Shape now keys ty u Q (readAs t now key absent wrong f)
  | modify {V : Type} {t : Kind S V} {key : Bytes} (hu : u = .writes) (hk : key ∈ keys)
      (ht : ∀ v, (t.wrap v).type = ty) {absent wrong : ρ} {f : V → V × ρ}
      (h : ∀ v, Q (some (t.wrap v)) (some (t.wrap (f v).1)) (f v).2) :
      Shape now keys ty u Q (modifyAs t now key absent wrong f)
  | upsert {V : Type} {t : Kind S V} {key : Bytes} (hu : u = .writes) (hk : key ∈ keys)
      (ht : ∀ v, (t.wrap v).type = ty) {new : V} {wrong : ρ} {f : V → V × ρ}
      (hn : Q none (some (t.wrap (f new).1)) (f new).2)
      (h : ∀ v, Q (some (t.wrap v)) (some (t.wrap (f v).1)) (f v).2) :
      Shape now keys ty u Q (upsertAs t now key new wrong f)
  | shrink {key : Bytes} (hu : u = .writes) (hk : key ∈ keys) (ht : ty = .list) {absent wrong : ρ}
      {f : List Bytes → List Bytes × ρ}
      (h : ∀ l, Q (some (.list l)) (ValueData.list (f l).1).kept (f l).2) :
      Shape now keys ty u Q (shrinkAs now key absent wrong f)
  | modifyDrop {V : Type} {t : Kind S V} {key : Bytes} (hu : u = .drops) (hk : key ∈ keys)
      (ht : ∀ v, (t.wrap v).type = ty) {absent wrong : ρ} {f : V → V × ρ}
      (h : ∀ v, Q (some (t.wrap v)) (t.wrap (f v).1).kept (f v).2) :
      Shape now keys ty u Q fun d => thenRemoveIfEmpty key (modifyAs t now key absent wrong f d)
  | upsertDrop {V : Type} {t : Kind S V} {key : Bytes} (hu : u = .drops) (hk : key ∈ keys)
      (ht : ∀ v, (t.wrap v).type = ty) {new : V} {wrong : ρ} {f : V → V × ρ}
      (hn : Q none (t.wrap (f new).1).kept (f new).2)
      (h : ∀ v, Q (some (t.wrap v)) (t.wrap (f v).1).kept (f v).2) :
      Shape now keys ty u Q fun d => thenRemoveIfEmpty key (upsertAs t now key new wrong f d)

variable {now : Instant} {keys : List Bytes} {ty : DataType} {u : Use} {d : Data S}
  {Q : Option (ValueData S) → Option (ValueData S) → ρ → Prop} {f g : Data S → Data S × ρ}

/-- What is asked of the arguments does not depend on the data. -/
theorem Shape.ite {c : Prop} [Decidable c] (hf : c → Shape now keys ty u Q f)
    (hg : ¬ c → Shape now keys ty u Q g) : Shape now keys ty u Q fun d => if c then f d else g d := by
  by_cases hc : c
  · simp only [if_pos hc]
    exact hf hc
  · simp only [if_neg hc]
    exact hg hc

/-- The expiry of a live key; a key that is not there has none. -/
def liveExpiry (now : Instant) (d : Data S) (key : Bytes) : Option Instant :=
  (live now d key).bind (·.expiresAt)

/-! ## Results -/

/-- What a command leaves of the data. -/
inductive Result (now : Instant) (keys : List Bytes) (ty : DataType) (u : Use)
    (Q : Option (ValueData S) → Option (ValueData S) → ρ → Prop) (d : Data S) : Data S × ρ → Prop where
  | same (r : ρ) : Result now keys ty u Q d (d, r)
  | purged {key : Bytes} (hk : key ∈ keys) (r : ρ) : Result now keys ty u Q d (purge now key d, r)
  /-- the key is looked at and dropped if it holds an empty container -/
  | tidied {key : Bytes} (hu : u = .drops) (hk : key ∈ keys) (r : ρ) :
      Result now keys ty u Q d (removeIfEmpty key (purge now key d), r)
  | written {key : Bytes} (hu : u ≠ .reads) (hk : key ∈ keys)
      (hold : ∀ x ∈ liveData now d key, x.type = ty) {x : ValueData S} (hx : x.type = ty) {r : ρ}
      (h : Q (liveData now d key) (some x) r) :
      Result now keys ty u Q d (d.insert key ⟨x, liveExpiry now d key⟩, r)
  | dropped {key : Bytes} (hu : u ≠ .reads) (hk : key ∈ keys)
      (hold : ∀ x ∈ liveData now d key, x.type = ty) {r : ρ} (h : Q (liveData now d key) none r) :
      Result now keys ty u Q d (d.erase key, r)

theorem liveData_eq {key : Bytes} {en : ValueEntry S} (h : live now d key = some en) :
    liveData now d key = some en.data := by
  rw [liveData, h, Option.map_some]

theorem liveData_eq_none {key : Bytes} (h : live now d key = none) : liveData now d key = none := by
  rw [liveData, h, Option.map_none]

theorem liveExpiry_of_live {key : Bytes} {en : ValueEntry S} (h : live now d key = some en) :
    liveExpiry now d key = en.expiresAt := by
  rw [liveExpiry, h, Option.bind_some]

theorem liveExpiry_of_none {key : Bytes} (h : live now d key = none) :
    liveExpiry now d key = none := by
  rw [liveExpiry, h, Option.bind_none]

section Rules

variable {V : Type} {t : Kind S V} {key : Bytes} {x : ValueData S} {en : ValueEntry S} {r : ρ}

theorem type_of_none (hl : live now d key = none) : ∀ y ∈ liveData now d key, y.type = ty := by
  rw [liveData_eq_none hl]
  exact nofun

theorem type_of_found (ht : ∀ v, (t.wrap v).type = ty) {v : V} {exp : Option Instant}
    (hl : live now d key = some ⟨t.wrap v, exp⟩) : ∀ y ∈ liveData now d key, y.type = ty := by
  rw [liveData_eq hl]
  rintro y hy
  cases hy
  exact ht v

/-- A value is put where there is none. -/
theorem Result.created (hu : u ≠ .reads) (hk : key ∈ keys) (hl : live now d key = none)
    (hx : x.type = ty) (h : Q none (some x) r) :
    Result now keys ty u Q d (d.insert key ⟨x, none⟩, r) := by
  rw [← liveExpiry_of_none hl]
  rw [← liveData_eq_none hl] at h
  exact .written hu hk (type_of_none hl) hx h

/-- A value of the type is written over. -/
theorem Result.rewritten (hu : u ≠ .reads) (hk : key ∈ keys) (ht : ∀ v, (t.wrap v).type = ty)
    {v v' : V} {exp : Option Instant} (hl : live now d key = some ⟨t.wrap v, exp⟩)
    (h : Q (some (t.wrap v)) (some (t.wrap v')) r) :
    Result now keys ty u Q d (d.insert key ⟨t.wrap v', exp⟩, r) := by
  have hexp : liveExpiry now d key = exp := liveExpiry_of_live hl
  have hdata : liveData now d key = some (t.wrap v) := liveData_eq hl
  rw [← hexp]
  rw [← hdata] at h
  exact .written hu hk (type_of_found ht hl) (ht v') h

/-- The key goes with a container that is left empty. -/
theorem Result.emptied (hu : u ≠ .reads) (hk : key ∈ keys)
    (hold : ∀ y ∈ liveData now d key, y.type = ty) (h : Q (liveData now d key) x.kept r)
    (hw : Q (liveData now d key) (some x) r → Result now keys ty u Q d (d.insert key en, r)) :
    Result now keys ty u Q d
      (if x.isEmptyContainer then d.erase key else d.insert key en, r) := by
  unfold ValueData.kept at h
  split_ifs at h ⊢
  · exact .dropped hu hk hold h
  · exact hw h

end Rules

/-- What a command of one of the shapes does. -/
theorem Shape.result (h : Shape now keys ty u Q f) (d : Data S) :
    Result now keys ty u Q d (f d) := by
  cases h with
  | reply r => exact .same r
  | read hk => exact .purged hk _
  | @modify V t key hu hk ht absent wrong f h =>
    have hr : u ≠ .reads := by rw [hu]; decide
    cases look t now key d with
    | absent hl => rw [modifyAs_absent hl]; exact .purged hk _
    | wrong en hl hd => rw [modifyAs_wrong hl hd]; exact .purged hk _
    | found v exp hl =>
      rw [modifyAs_found hl]
      exact .rewritten hr hk ht hl (h v)
  | @upsert V t key hu hk ht new wrong f hn h =>
    have hr : u ≠ .reads := by rw [hu]; decide
    cases look t now key d with
    | absent hl => rw [upsertAs_absent hl]; exact .created hr hk hl (ht _) hn
    | wrong en hl hd => rw [upsertAs_wrong hl hd]; exact .purged hk _
    | found v exp hl =>
      rw [upsertAs_found hl]
      exact .rewritten hr hk ht hl (h v)
  | @shrink key hu hk ht absent wrong f h =>
    have hr : u ≠ .reads := by rw [hu]; decide
    have hlist : ∀ l, (Kind.list.wrap l : ValueData S).type = ty := fun _ => ht.symm
    cases look Kind.list now key d with
    | absent hl => rw [shrinkAs_absent hl]; exact .purged hk _
    | wrong en hl hd => rw [shrinkAs_wrong hl hd]; exact .purged hk _
    | found l exp hl =>
      rw [shrinkAs_found hl]
      exact .emptied hr hk (type_of_found hlist hl) (by rw [liveData_eq hl]; exact h l)
        fun hq => .rewritten hr hk hlist hl (by rwa [liveData_eq hl] at hq)
  | @modifyDrop V t key hu hk ht absent wrong f h =>
    have hr : u ≠ .reads := by rw [hu]; decide
    dsimp only [thenRemoveIfEmpty]
    cases look t now key d with
    | absent hl => rw [modifyAs_absent hl]; exact .tidied hu hk _
    | wrong en hl hd => rw [modifyAs_wrong hl hd]; exact .tidied hu hk _
    | found v exp hl =>
      rw [modifyAs_found hl]
      dsimp only
      rw [removeIfEmpty_insert_eq]
      exact .emptied hr hk (type_of_found ht hl) (by rw [liveData_eq hl]; exact h v)
        fun hq => .rewritten hr hk ht hl (by rwa [liveData_eq hl] at hq)
  | @upsertDrop V t key hu hk ht new wrong f hn h =>
    have hr : u ≠ .reads := by rw [hu]; decide
    dsimp only [thenRemoveIfEmpty]
    cases look t now key d with
    | absent hl =>
      rw [upsertAs_absent hl]
      dsimp only
      rw [removeIfEmpty_insert_eq]
      exact .emptied hr hk (type_of_none hl) (by rw [liveData_eq_none hl]; exact hn)
        fun hq => .created hr hk hl (ht _) (by rwa [liveData_eq_none hl] at hq)
    | wrong en hl hd => rw [upsertAs_wrong hl hd]; exact .tidied hu hk _
    | found v exp hl =>
      rw [upsertAs_found hl]
      dsimp only
      rw [removeIfEmpty_insert_eq]
      exact .emptied hr hk (type_of_found ht hl) (by rw [liveData_eq hl]; exact h v)
        fun hq => .rewritten hr hk ht hl (by rwa [liveData_eq hl] at hq)

/-- A command edits as `Q` says. -/
theorem Result.edits {w : ρ → Set Effect} {r : Data S × ρ} (h : Result now keys ty u Q d r)
    (hQ : ∀ {old new r}, Q old new r → ∀ x ∈ new, Evolves (w r) old x) : Edits now (w r.2) d r.1 := by
  cases h with
  | same r => exact .refl
  | purged hk r => exact purge_edits
  | tidied hu hk r => exact purge_edits.trans removeIfEmpty_edits
  | written hu hk hold hx h => exact write_edits (hQ h _ rfl)
  | dropped hu hk hold h => exact .single (.drop d _)

/-- A command that reads leaves the live entries as they were. -/
theorem Result.sameLive_of_reads {r : Data S × ρ} (h : Result now keys ty .reads Q d r) :
    SameLive now d r.1 := by
  cases h with
  | same r => exact .refl
  | purged hk r => exact sameLive_purge now _ d
  | tidied hu => cases hu
  | written hu => exact absurd rfl hu
  | dropped hu => exact absurd rfl hu

/-- A failed command that gives back the value it has found leaves the live entries as they were. -/
theorem Result.sameLive {p : ρ → Prop} {r : Data S × ρ} (h : Result now keys ty u Q d r)
    (hu : u ≠ .drops) (hQ : ∀ {old new r}, Q old new r → p r → new = old) (hf : p r.2) :
    SameLive now d r.1 := by
  cases h with
  | same r => exact .refl
  | purged hk r => exact sameLive_purge now _ d
  | tidied hd hk r => exact absurd hd hu
  | @written key hr hk hold x hx r h =>
    obtain ⟨en, hl, rfl⟩ := Option.map_eq_some_iff.mp (hQ h hf).symm
    have hself := sameLive_insert_self hl
    rwa [liveExpiry_of_live hl]
  | @dropped key hr hk hold r h =>
    have hl : live now d key = none := Option.map_eq_none_iff.mp (hQ h hf).symm
    intro k
    dsimp only
    rw [live_erase]
    split_ifs with hkey
    · rw [← hkey, hl]
    · rfl

end Shapes

end BurnerRedis
