import BurnerRedis.Script.Keys

/-!
# Commands that panic

An instant of the standard library counts its seconds in an `i64`, and adding a duration to it
panics where the sum has too many. EXPIRE and SET add what they are given to the clock's reading,
unchecked. Here they run with a sum that may panic (`add?`), which leaves the data as they are at
that moment.
-/

namespace BurnerRedis

/-! ## A clock with an end -/

/-- The seconds of an instant fit an `i64`. -/
def Instant.Fits (t : Instant) : Prop := InI64 (t / 1000000000)

instance : DecidablePred Instant.Fits := fun _ => inferInstanceAs (Decidable (InI64 _))

/-- `now + d`, a panic where the sum does not fit. -/
def Instant.add? (now : Instant) (d : Duration) : Option Instant :=
  if Instant.Fits (now + d) then some (now + d) else none

theorem Instant.add?_eq {now : Instant} {d : Duration} (h : Instant.Fits (now + d)) :
    now.add? d = some (now + d) := if_pos h

theorem Instant.add?_eq_none {now : Instant} {d : Duration} (h : ¬ Instant.Fits (now + d)) :
    now.add? d = none := if_neg h

section

variable {S : Type} [LinearOrder S]

/-- `ValueEntry::new`, nothing where it panics. -/
def ValueEntry.new? (now : Instant) (data : Bytes) : Option Duration → Option (ValueEntry S)
  | none => some (.new now data none)
  | some d => (now.add? d).map fun exp => ⟨.string data, some exp⟩

theorem ValueEntry.new?_eq {now : Instant} {ttl : Option Duration}
    (h : ∀ d, ttl = some d → Instant.Fits (now + d)) (data : Bytes) :
    (ValueEntry.new? now data ttl : Option (ValueEntry S)) = some (.new now data ttl) := by
  cases ttl with
  | none => rfl
  | some d =>
    rw [new?, Instant.add?_eq (h d rfl)]
    rfl

/-! ## The commands -/

/-- EXPIRE of a time in some unit; no reply where it panics. -/
def expireAt? {ρ : Type} (unit : ℕ → Duration) (reply : Bool → ρ) (e : Env) (key : Bytes) (n : ℤ)
    (d : Data S) : Data S × Option ρ :=
  if n ≤ 0 then
    ((purge e.now key d).erase key, some (reply (purge e.now key d)[key]?.isSome))
  else match (purge e.now key d)[key]? with
    | none => (purge e.now key d, some (reply false))
    | some en => match e.now.add? (unit n.toNat) with
      | none => (purge e.now key d, none)
      | some exp =>
        ((purge e.now key d).insert key { en with expiresAt := some exp }, some (reply true))

/-- SET once its options are known; `cleared` is what the entry is put into. -/
def setValue? {ρ : Type} (yes no : ρ) (e : Env) (key value : Bytes) (ttl : Option Duration)
    (nx xx : Bool) (cleared d : Data S) : Data S × Option ρ :=
  let keyExists := (live e.now d key).isSome
  if nx && keyExists then (d, some no)
  else if xx && !keyExists then (d, some no)
  else match ValueEntry.new? e.now value ttl with
    | none => (cleared, none)
    | some en => (cleared.insert key en, some yes)

/-- The key has a live entry that gets a deadline. -/
def expireActs (key : Bytes) (e : Env) (d : Data S) : Prop := (live e.now d key).isSome

/-- Neither NX nor XX holds SET back. -/
def setActs (key : Bytes) (nx xx : Bool) (e : Env) (d : Data S) : Prop :=
  (nx && (live e.now d key).isSome) = false ∧ (xx && !(live e.now d key).isSome) = false

/-- EXPIRE; no reply where it panics. -/
def Store.expire? (e : Env) (key : Bytes) (seconds : ℤ) : Data S → Data S × Option Bool :=
  expireAt? Duration.fromSecs id e key seconds

/-- SET; no reply where it panics. -/
def Store.set? (e : Env) (key value : Bytes) (ttl : Option Duration) (nx xx : Bool) (d : Data S) :
    Data S × Option Bool :=
  setValue? true false e key value ttl nx xx d d

namespace Script

/-- `EXPIRE` and `PEXPIRE`; no reply where they panic. -/
def expireAs? (name : String) (unit : ℕ → Duration) (e : Env) :
    List Bytes → Data S → Data S × Option Reply
  | [key, time] => fun d =>
    match parseI64 time with
    | none => (d, some (.error notInteger))
    | some n => expireAt? unit flag e key n d
  | _ => fun d => (d, some (wrongArity name))

/-- `SET`; no reply where it panics. -/
def set? (e : Env) : List Bytes → Data S → Data S × Option Reply
  | key :: value :: rest => fun d =>
    match setOptions rest {} with
    | .error r => (d, some r)
    | .ok o => setValue? (.ok (.status "OK")) (.ok .nil) e key value o.ttl o.nx o.xx
        (purge e.now key d) d
  | _ => fun d => (d, some (wrongArity "set"))

end Script

/-! ## What they do -/

variable {e : Env} {key value : Bytes} {d : Data S}

section Expire

variable {ρ : Type} {unit : ℕ → Duration} {reply : Bool → ρ} {n : ℤ} {en : ValueEntry S}

theorem expireAt?_sets (hn : 0 < n) (hl : live e.now d key = some en)
    (h : Instant.Fits (e.now + unit n.toNat)) :
    expireAt? unit reply e key n d =
      (d.insert key { en with expiresAt := some (e.now + unit n.toNat) }, some (reply true)) := by
  rw [expireAt?, if_neg (not_le.mpr hn), getElem?_purge, hl, Instant.add?_eq h]
  dsimp only
  rw [insert_purge]

theorem expireAt?_panics (hn : 0 < n) (hl : live e.now d key = some en)
    (h : ¬ Instant.Fits (e.now + unit n.toNat)) :
    expireAt? unit reply e key n d = (purge e.now key d, none) := by
  rw [expireAt?, if_neg (not_le.mpr hn), getElem?_purge, hl, Instant.add?_eq_none h]

theorem expireAt?_absent (hn : 0 < n) (hl : live e.now d key = none) :
    expireAt? unit reply e key n d = (purge e.now key d, some (reply false)) := by
  rw [expireAt?, if_neg (not_le.mpr hn), getElem?_purge, hl]

end Expire

section Set

variable {ρ : Type} {yes no : ρ} {nx xx : Bool} {cleared : Data S} {ttl : Duration}

theorem setValue?_sets (hacts : setActs key nx xx e d) (h : Instant.Fits (e.now + ttl)) :
    setValue? yes no e key value (some ttl) nx xx cleared d =
      (cleared.insert key ⟨.string value, some (e.now + ttl)⟩, some yes) := by
  simp only [setValue?, hacts.1, hacts.2, ValueEntry.new?, Instant.add?_eq h, Option.map_some,
    Bool.false_eq_true, if_false]

theorem setValue?_panics (hacts : setActs key nx xx e d) (h : ¬ Instant.Fits (e.now + ttl)) :
    setValue? yes no e key value (some ttl) nx xx cleared d = (cleared, none) := by
  simp only [setValue?, hacts.1, hacts.2, ValueEntry.new?, Instant.add?_eq_none h, Option.map_none,
    Bool.false_eq_true, if_false]

theorem setValue?_declines (hacts : ¬ setActs key nx xx e d) :
    setValue? yes no e key value (some ttl) nx xx cleared d = (d, some no) := by
  unfold setActs at hacts
  unfold setValue?
  dsimp only
  split_ifs with hnx hxx
  · rfl
  · rfl
  · exact absurd ⟨Bool.eq_false_of_not_eq_true hnx, Bool.eq_false_of_not_eq_true hxx⟩ hacts

end Set

/-! ## Which methods panic -/

/-- EXPIRE panics exactly where it sets a deadline that does not fit, and has then removed nothing
but an expired entry. -/
theorem Store.expire?_spec (e : Env) (key : Bytes) (seconds : ℤ) (d : Data S) :
    ¬ (0 < seconds ∧ expireActs key e d ∧
        ¬ Instant.Fits (e.now + Duration.fromSecs seconds.toNat)) ∧
      expire? e key seconds d = ((expire e key seconds d).1, some (expire e key seconds d).2) ∨
    (0 < seconds ∧ expireActs key e d ∧
        ¬ Instant.Fits (e.now + Duration.fromSecs seconds.toNat)) ∧
      expire? e key seconds d = (purge e.now key d, none) := by
  unfold expireActs expire? expire
  by_cases hn : seconds ≤ 0
  · rw [expireAt?, if_pos hn, if_pos hn]
    exact .inl ⟨fun h => absurd h.1 (not_lt.mpr hn), rfl⟩
  rw [if_neg hn, getElem?_purge]
  cases hl : live e.now d key with
  | none =>
    rw [expireAt?_absent (not_le.mp hn) hl]
    exact .inl ⟨by simp, rfl⟩
  | some en =>
    by_cases hfits : Instant.Fits (e.now + Duration.fromSecs seconds.toNat)
    · rw [expireAt?_sets (not_le.mp hn) hl hfits]
      dsimp only
      rw [insert_purge]
      exact .inl ⟨fun h => h.2.2 hfits, rfl⟩
    · exact .inr ⟨⟨not_le.mp hn, rfl, hfits⟩, expireAt?_panics (not_le.mp hn) hl hfits⟩

/-- SET panics exactly where it sets a deadline that does not fit, and has then done nothing. -/
theorem Store.set?_spec (e : Env) (key value : Bytes) (ttl : Option Duration) (nx xx : Bool)
    (d : Data S) :
    ¬ (setActs key nx xx e d ∧ ∃ t, ttl = some t ∧ ¬ Instant.Fits (e.now + t)) ∧
      set? e key value ttl nx xx d =
        ((set e key value ttl nx xx d).1, some (set e key value ttl nx xx d).2) ∨
    (setActs key nx xx e d ∧ ∃ t, ttl = some t ∧ ¬ Instant.Fits (e.now + t)) ∧
      set? e key value ttl nx xx d = (d, none) := by
  by_cases hover : setActs key nx xx e d ∧ ∃ t, ttl = some t ∧ ¬ Instant.Fits (e.now + t)
  · obtain ⟨hacts, t, rfl, hfits⟩ := hover
    exact .inr ⟨⟨hacts, t, rfl, hfits⟩, setValue?_panics hacts hfits⟩
  · refine .inl ⟨hover, ?_⟩
    unfold set? setValue? set
    dsimp only
    split_ifs with hnx hxx
    · rfl
    · rfl
    · have hacts : setActs key nx xx e d :=
        ⟨Bool.eq_false_of_not_eq_true hnx, Bool.eq_false_of_not_eq_true hxx⟩
      rw [ValueEntry.new?_eq fun t ht => not_not.mp fun hfits => hover ⟨hacts, t, ht, hfits⟩]

/-! ## Which calls of a script panic -/

namespace Script

/-- The deadline that `EXPIRE` or `PEXPIRE` computes. -/
def expireDeadline (unit : ℕ → Duration) (e : Env) (d : Data S) : List Bytes → Option Instant
  | [key, time] => (parseI64 time).bind fun n =>
    if 0 < n ∧ (live e.now d key).isSome then some (e.now + unit n.toNat) else none
  | _ => none

/-- The deadline that `SET` computes. -/
def setDeadline (e : Env) (d : Data S) : List Bytes → Option Instant
  | key :: _ :: rest => match setOptions rest {} with
    | .error _ => none
    | .ok o =>
      if o.nx && (live e.now d key).isSome then none
      else if o.xx && !(live e.now d key).isSome then none
      else o.ttl.map fun t => e.now + t
  | _ => none

/-- The deadline that a call computes. -/
def deadline (e : Env) (d : Data S) (cmd : String) (args : List Bytes) : Option Instant :=
  match cmd with
  | "SET" => setDeadline e d args
  | "EXPIRE" => expireDeadline Duration.fromSecs e d args
  | "PEXPIRE" => expireDeadline Duration.fromMillis e d args
  | _ => none

/-- The call computes a deadline that the clock cannot count. -/
def Overflows (e : Env) (d : Data S) (cmd : String) (args : List Bytes) : Prop :=
  ∃ t, deadline e d cmd args = some t ∧ ¬ t.Fits

/-- EXPIRE panics exactly where its deadline does not fit, and has then removed nothing but an
expired entry. -/
theorem expireAs?_spec (name : String) (unit : ℕ → Duration) (e : Env) (args : List Bytes)
    (d : Data S) :
    (∀ t, expireDeadline unit e d args = some t → t.Fits) ∧
      expireAs? name unit e args d =
        ((expireAs name unit e args d).1, some (expireAs name unit e args d).2) ∨
    (∃ t, expireDeadline unit e d args = some t ∧ ¬ t.Fits) ∧
      ∃ key, expireAs? name unit e args d = (purge e.now key d, none) := by
  match args with
  | [] => exact .inl ⟨nofun, rfl⟩
  | [_] => exact .inl ⟨nofun, rfl⟩
  | _ :: _ :: _ :: _ => exact .inl ⟨nofun, rfl⟩
  | [key, time] =>
    unfold expireDeadline expireAs? expireAs
    dsimp only
    cases parseI64 time with
    | none => exact .inl ⟨nofun, rfl⟩
    | some n =>
      rw [Option.bind_some]
      dsimp only
      by_cases hn : n ≤ 0
      · rw [if_pos hn, expireAt?, if_pos hn, if_neg fun h => absurd h.1 (not_lt.mpr hn)]
        exact .inl ⟨nofun, rfl⟩
      rw [if_neg hn, getElem?_purge]
      cases hl : live e.now d key with
      | none =>
        rw [expireAt?_absent (not_le.mp hn) hl]
        exact .inl ⟨by simp, rfl⟩
      | some en =>
        rw [if_pos ⟨not_le.mp hn, rfl⟩]
        by_cases hfits : Instant.Fits (e.now + unit n.toNat)
        · rw [expireAt?_sets (not_le.mp hn) hl hfits]
          dsimp only
          rw [insert_purge]
          exact .inl ⟨fun t ht => Option.some.inj ht ▸ hfits, rfl⟩
        · exact .inr ⟨⟨_, rfl, hfits⟩, key, expireAt?_panics (not_le.mp hn) hl hfits⟩

/-- SET panics exactly where its deadline does not fit, and has then removed nothing but an expired
entry. -/
theorem set?_spec (e : Env) (args : List Bytes) (d : Data S) :
    (∀ t, setDeadline e d args = some t → t.Fits) ∧
      set? e args d = ((set e args d).1, some (set e args d).2) ∨
    (∃ t, setDeadline e d args = some t ∧ ¬ t.Fits) ∧
      ∃ key, set? e args d = (purge e.now key d, none) := by
  match args with
  | [] => exact .inl ⟨nofun, rfl⟩
  | [_] => exact .inl ⟨nofun, rfl⟩
  | key :: value :: rest =>
    unfold setDeadline set? set
    dsimp only
    cases setOptions rest {} with
    | error r => exact .inl ⟨nofun, rfl⟩
    | ok o =>
      unfold setValue?
      dsimp only
      split_ifs
      · exact .inl ⟨nofun, rfl⟩
      · exact .inl ⟨nofun, rfl⟩
      cases o.ttl with
      | none => exact .inl ⟨nofun, rfl⟩
      | some t =>
        by_cases hfits : Instant.Fits (e.now + t)
        · rw [ValueEntry.new?_eq fun t' ht => Option.some.inj ht ▸ hfits]
          exact .inl ⟨fun t' ht => Option.some.inj ht ▸ hfits, rfl⟩
        · rw [ValueEntry.new?, Instant.add?_eq_none hfits]
          exact .inr ⟨⟨_, rfl, hfits⟩, key, rfl⟩

end Script

end

end BurnerRedis
