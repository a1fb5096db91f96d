import BurnerRedis.Edits
import BurnerRedis.Glob

/-!
# Keys and strings

The commands of `store.rs` on strings and on keys of any type. A command takes its environment, its
arguments and the data map, and gives the new map and its reply.
-/

namespace BurnerRedis.Store

variable {S : Type} [LinearOrder S]

/-- GET. The source looks with a read lock first, and removes an expired key under a write lock. -/
def get (e : Env) (key : Bytes) : Data S → Data S × Except StoreError (Option Bytes) :=
  readAs .string e.now key (.ok none) (.error .wrongType) fun v => .ok (some v)

/-- SET, with an optional time to live and the NX and XX conditions. -/
def set (e : Env) (key value : Bytes) (ttl : Option Duration) (nx xx : Bool) (d : Data S) :
    Data S × Bool :=
  let keyExists := (live e.now d key).isSome
  if nx && keyExists then (d, false)
  else if xx && !keyExists then (d, false)
  else (d.insert key (.new e.now value ttl), true)

/-- DELETE: the number of keys that were live. -/
def delete (e : Env) (keys : List Bytes) (d : Data S) : Data S × ℤ :=
  keys.foldl (fun r key => (r.1.erase key, if (live e.now r.1 key).isSome then r.2 + 1 else r.2))
    (d, 0)

/-- EXISTS: a key counts as often as it is named. -/
def existsKeys (e : Env) (keys : List Bytes) (d : Data S) : ℤ :=
  keys.foldl (fun n key => if (live e.now d key).isSome then n + 1 else n) 0

/-- KEYS: the live keys that match a pattern, in the order of the walk. -/
def keys (e : Env) (pattern : Bytes) (d : Data S) : List Bytes :=
  ((d.walk e.walk).filter fun p => !p.2.isExpired e.now && globMatch pattern p.1).map Prod.fst

/-- TTL in whole seconds, -1 without an expiry, -2 without a key. -/
def ttl (e : Env) (key : Bytes) (d : Data S) : Data S × ℤ :=
  (purge e.now key d,
    match (purge e.now key d)[key]? with
    | none => -2
    | some en => match en.expiresAt with
      | none => -1
      | some exp => ((Instant.durationSince exp e.now / 1000000000 : ℕ) : ℤ))

/-- MGET: nothing for a key that is missing, expired or not a string. -/
def mget (e : Env) (keys : List Bytes) (d : Data S) : List (Option Bytes) :=
  keys.map fun key => (live e.now d key).bind fun en => Kind.string.get? en.data

/-- EXPIRE: a time of zero or less deletes the key. -/
def expire (e : Env) (key : Bytes) (seconds : ℤ) (d : Data S) : Data S × Bool :=
  if seconds ≤ 0 then ((purge e.now key d).erase key, (purge e.now key d)[key]?.isSome)
  else match (purge e.now key d)[key]? with
    | none => (purge e.now key d, false)
    | some en =>
      ((purge e.now key d).insert key
        { en with expiresAt := some (e.now + Duration.fromSecs seconds.toNat) }, true)

/-- One sweep: of the first twenty keys with an expiry that the walk meets, the expired ones. -/
def sweepExpired (e : Env) (d : Data S) : Data S × ℕ :=
  let checked := ((d.walk e.walk).filter fun p => p.2.expiresAt.isSome).take 20
  let toRemove := (checked.filter fun p => p.2.isExpired e.now).map Prod.fst
  (toRemove.foldl (fun d key => d.erase key) d, toRemove.length)

/-! ## What they edit -/

variable {e : Env} {p : Set Effect} {key : Bytes} {d : Data S}

theorem set_edits {value : Bytes} {ttl : Option Duration} {nx xx : Bool} :
    Edits e.now p d (set e key value ttl nx xx d).1 := by
  unfold set
  dsimp only
  split_ifs
  · exact .refl
  · exact .refl
  · exact write_edits (.string _ value)

theorem foldl_erase_edits {keys : List Bytes} :
    Edits e.now p d (keys.foldl (fun d key => d.erase key) d) := by
  induction keys generalizing d with
  | nil => exact .refl
  | cons key keys ih => exact .head (.drop d key) ih

theorem delete_fst (keys : List Bytes) (n : ℤ) :
    (keys.foldl (fun (r : Data S × ℤ) key =>
      (r.1.erase key, if (live e.now r.1 key).isSome then r.2 + 1 else r.2)) (d, n)).1 =
      keys.foldl (fun d key => d.erase key) d := by
  induction keys generalizing d n with
  | nil => rfl
  | cons key keys ih => exact ih _

theorem delete_edits {keys : List Bytes} : Edits e.now p d (delete e keys d).1 := by
  rw [delete, delete_fst]
  exact foldl_erase_edits

theorem expire_edits {seconds : ℤ} : Edits e.now p d (expire e key seconds d).1 := by
  unfold expire
  split_ifs
  · rw [erase_purge]
    exact .single (.drop d key)
  · rw [getElem?_purge]
    cases hl : live e.now d key with
    | none => exact purge_edits
    | some en =>
      dsimp only
      rw [insert_purge]
      exact write_edits (by rw [liveData, hl]; exact .refl p _)

theorem sweepExpired_edits : Edits e.now p d (sweepExpired e d).1 := foldl_erase_edits

end BurnerRedis.Store
