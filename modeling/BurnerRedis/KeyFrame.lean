import BurnerRedis.FailedCommands
import BurnerRedis.FailedMethods
import BurnerRedis.ListElements
import BurnerRedis.ScriptKeys
import BurnerRedis.Sweeps

/-!
# What a command leaves alone

A command touches the keys that it names, and of these it keeps the expiry: what it rewrites goes on
to expire when it would have, and what it makes does not expire (`Frames`). The exceptions are the
commands whose purpose it is to set or remove a key with its expiry.

A move, a read of several streams and a scan of several lists write one key after the other; each
write is compared with the data before the whole command.
-/

namespace BurnerRedis

/-- What is the same before and after a command that names `keys` and sets the expiry of `own`. -/
structure Frames {S : Type} [LinearOrder S] (now : Instant) (own keys : List Bytes)
    (d d' : Data S) : Prop where
  /-- a key that is live before and after has its expiry -/
  kept : ∀ key ∉ own, ∀ en en', live now d key = some en → live now d' key = some en' →
    en'.expiresAt = en.expiresAt
  /-- a key that comes into being has none -/
  created : ∀ key ∉ own, ∀ en', live now d key = none → live now d' key = some en' →
    en'.expiresAt = none
  /-- a key that is not named has its value and its expiry -/
  others : ∀ key ∉ keys, live now d' key = live now d key

section Frames

variable {S : Type} [LinearOrder S] {now : Instant} {own keys : List Bytes} {d₀ d d' : Data S}
  {key : Bytes}

theorem Frames.of_expiry
    (h : ∀ key ∉ own, ∀ en', live now d' key = some en' → en'.expiresAt = liveExpiry now d key)
    (ho : ∀ key ∉ keys, live now d' key = live now d key) : Frames now own keys d d' where
  kept := by
    intro key hkey en en' hen hen'
    rw [h key hkey en' hen', liveExpiry, hen, Option.bind_some]
  created := by
    intro key hkey en' hnone hen'
    rw [h key hkey en' hen', liveExpiry, hnone, Option.bind_none]
  others := ho

theorem Frames.expiry (h : Frames now own keys d d') {en' : ValueEntry S} (hkey : key ∉ own)
    (hen' : live now d' key = some en') : en'.expiresAt = liveExpiry now d key := by
  unfold liveExpiry
  cases hl : live now d key with
  | none => exact h.created key hkey en' hl hen'
  | some en => exact h.kept key hkey en en' hl hen'

theorem SameLive.frames (h : SameLive now d d') : Frames now own keys d d' := by
  apply Frames.of_expiry
  · intro key _ en' hen'
    rw [liveExpiry, h key, hen', Option.bind_some]
  · exact fun key _ => (h key).symm

theorem Frames.refl : Frames now own keys d d := SameLive.refl.frames

theorem Frames.mono {keys' : List Bytes} (h : Frames now own keys d d') (hk : keys ⊆ keys') :
    Frames now own keys' d d' :=
  ⟨h.kept, h.created, fun key hkey => h.others key fun hm => hkey (hk hm)⟩

/-- A command that sets the expiry of all keys it names. -/
theorem Frames.of_others (h : ∀ key ∉ keys, live now d' key = live now d key) :
    Frames now keys keys d d' := by
  refine .of_expiry (fun key hkey en' hen' => ?_) h
  rw [liveExpiry, ← h key hkey, hen', Option.bind_some]

theorem Frames.sameLive (h : Frames now own keys d₀ d) (hs : SameLive now d d') :
    Frames now own keys d₀ d' := by
  apply Frames.of_expiry
  · intro key hkey en' hen'
    rw [← hs key] at hen'
    exact h.expiry hkey hen'
  · intro key hkey
    rw [← hs key]
    exact h.others key hkey

theorem Frames.erase (h : Frames now own keys d₀ d) (hk : key ∈ keys) :
    Frames now own keys d₀ (d.erase key) := by
  apply Frames.of_expiry
  · intro k hown en' hen'
    rw [live_erase] at hen'
    split_ifs at hen'
    exact h.expiry hown hen'
  · intro k hkeys
    have hne : key ≠ k := fun he => hkeys (he ▸ hk)
    rw [live_erase, if_neg hne]
    exact h.others k hkeys

/-- A named key is written with the expiry it had at the beginning. -/
theorem Frames.insert (h : Frames now own keys d₀ d) (hk : key ∈ keys) {en : ValueEntry S}
    (hexp : en.expiresAt = liveExpiry now d₀ key) : Frames now own keys d₀ (d.insert key en) := by
  apply Frames.of_expiry
  · intro k hown en' hen'
    rw [live_insert] at hen'
    split_ifs at hen' with hkk
    · subst hkk
      obtain ⟨he, -⟩ := Option.filter_eq_some_iff.mp hen'
      cases he
      exact hexp
    · exact h.expiry hown hen'
  · intro k hkeys
    have hne : key ≠ k := fun he => hkeys (he ▸ hk)
    rw [live_insert, if_neg hne]
    exact h.others k hkeys

/-- A named key that is live is written with the expiry it has. -/
theorem Frames.rewrite (h : Frames now [] keys d₀ d) (hk : key ∈ keys) {en en' : ValueEntry S}
    (hl : live now d key = some en) (he : en'.expiresAt = en.expiresAt) :
    Frames now [] keys d₀ (d.insert key en') :=
  h.insert hk (he.trans (h.expiry List.not_mem_nil hl))

/-! ## The shapes of a command -/

variable {V ρ : Type} {t : Kind S V} {absent wrong : ρ}

theorem purge_frames : Frames now own keys d (purge now key d) := (sameLive_purge now key d).frames

theorem thenRemoveIfEmpty_frames {r : Data S × ρ} (h : Frames now own keys d r.1)
    (hk : key ∈ keys) : Frames now own keys d (thenRemoveIfEmpty key r).1 := by
  show Frames now own keys d (removeIfEmpty key r.1)
  unfold removeIfEmpty
  split
  · split
    · exact h.erase hk
    · exact h
  · exact h

theorem Result.frames {ty : DataType} {u : Use}
    {Q : Option (ValueData S) → Option (ValueData S) → ρ → Prop} {r : Data S × ρ}
    (h : Result now keys ty u Q d r) : Frames now own keys d r.1 := by
  cases h with
  | same r => exact .refl
  | purged hk r => exact purge_frames
  | tidied hu hk r => exact thenRemoveIfEmpty_frames (r := (purge now _ d, r)) purge_frames hk
  | written hu hk hold hx h => exact Frames.refl.insert hk rfl
  | dropped hu hk hold h => exact Frames.refl.erase hk

end Frames

/-! ## Commands on several keys -/

namespace Store

section Several

variable {S ρ : Type} [LinearOrder S] {now : Instant} {e : Env} {own keys : List Bytes}
  {d₀ d : Data S} {nil wrong : ρ} {moved : Bytes → ρ}

/-- The source of a move is emptied or rewritten. -/
theorem popMoved_frames {src dst : Bytes} {en : ValueEntry S} (rest : List Bytes)
    (hk : src ∈ keys) (h : live now d src = some en) :
    Frames now own keys d (popMoved src dst en rest (purgePair now src dst d)) := by
  have hp : Frames now own keys d (purgePair now src dst d) :=
    (sameLive_purgePair now src dst d).frames
  unfold popMoved
  split
  · exact hp.erase hk
  · exact hp.insert hk (liveExpiry_of_live h).symm

/-- The pop of a move does not change the expiry of the destination, not even when the two are the
same list with one element. -/
theorem popMoved_expiry {src : Bytes} (dst : Bytes) {x : ValueData S} {exp : Option Instant}
    (rest : List Bytes) (h : live now d src = some ⟨x, exp⟩) :
    liveExpiry now (popMoved src dst ⟨x, exp⟩ rest (purgePair now src dst d)) dst =
      liveExpiry now d dst := by
  by_cases hsd : src = dst
  · subst hsd
    have hpop : popMoved src src ⟨x, exp⟩ rest (purgePair now src src d) =
        (purgePair now src src d).insert src ⟨.list rest, exp⟩ := by
      unfold popMoved
      rw [if_neg (by simp)]
    have hlive : live now ((purgePair now src src d).insert src ⟨.list rest, exp⟩) src =
        some ⟨.list rest, exp⟩ := by
      rw [live_insert, if_pos rfl, Option.filter_some, isExpired_of_live h]
      rfl
    rw [hpop, liveExpiry_of_live hlive, liveExpiry_of_live h]
  · have hlive : live now (popMoved src dst ⟨x, exp⟩ rest (purgePair now src dst d)) dst =
        live now d dst := by
      unfold popMoved
      split
      · rw [live_erase, if_neg hsd, live_purgePair]
      · rw [live_insert, if_neg hsd, live_purgePair]
    rw [liveExpiry, hlive, liveExpiry]

theorem moveAs_frames {src dst : Bytes} {srcFrom dstTo : ListEnd} (hsrc : src ∈ keys)
    (hdst : dst ∈ keys) :
    Frames now own keys d (moveAs now src dst srcFrom dstTo nil wrong moved d).1 := by
  have hp : Frames now own keys d (purgePair now src dst d) :=
    (sameLive_purgePair now src dst d).frames
  unfold moveAs
  dsimp only
  rw [getElem?_purgePair_src]
  cases look Kind.list now src d with
  | absent h => rw [h]; exact hp
  | wrong en h hd =>
    rw [h]
    dsimp only
    rw [hd]
    exact hp
  | found l exp h =>
    rw [h]
    simp only [Kind.get?_wrap]
    cases popEnd srcFrom l with
    | none => exact hp
    | some p =>
      dsimp only
      by_cases hb : blocksMove (purgePair now src dst d) src dst = true
      · rw [if_pos hb]
        exact hp
      · rw [if_neg hb]
        have hpop : Frames now own keys d
            (popMoved src dst ⟨Kind.list.wrap l, exp⟩ p.2 (purgePair now src dst d)) :=
          popMoved_frames p.2 hsrc h
        have hexp := popMoved_expiry dst p.2 h
        obtain ⟨hget, -⟩ := popMoved_dst p.2 (isExpired_of_live h (Kind.list.wrap l)) hb
        generalize popMoved src dst ⟨Kind.list.wrap l, exp⟩ p.2 (purgePair now src dst d) = d'
          at hpop hexp hget ⊢
        unfold pushMoved
        rw [hget]
        cases look Kind.list now dst d' with
        | absent h' =>
          rw [h']
          refine hpop.insert hdst ?_
          rw [← hexp, liveExpiry, h', Option.bind_none]
        | wrong en h' hd =>
          rw [h']
          dsimp only
          rw [hd]
          exact hpop
        | found l' exp' h' =>
          rw [h']
          refine hpop.insert hdst ?_
          rw [← hexp, liveExpiry_of_live h']

/-- The scan of a blocking pop. -/
theorem pollAs_frames {side : ListEnd} {ks : List Bytes} (hk : ks ⊆ keys)
    (h : Frames e.now [] keys d₀ d) : Frames e.now [] keys d₀ (pollAs side e ks d).1 := by
  induction ks generalizing d with
  | nil => exact h
  | cons k ks ih =>
    have hks : ks ⊆ keys := fun x hx => hk (List.mem_cons_of_mem k hx)
    have hmem : k ∈ keys := hk List.mem_cons_self
    have hp := h.sameLive (sameLive_purge e.now k d)
    unfold pollAs
    dsimp only
    rw [getElem?_purge]
    cases look Kind.list e.now k d with
    | absent hl => rw [hl]; exact ih hks hp
    | wrong en hl hd =>
      rw [hl]
      simp only [hd]
      exact hp
    | found l exp hl =>
      rw [hl]
      simp only [Kind.get?_wrap]
      cases popEnd side l with
      | none => exact ih hks hp
      | some p =>
        dsimp only
        split
        · exact hp.erase hmem
        · rw [insert_purge]
          exact h.rewrite hmem hl rfl

/-- XREADGROUP may write a stream that it has written before. -/
theorem xreadgroupPairs_frames {group consumer : Bytes} {count : Option ℕ}
    {pairs : List (Bytes × Bytes)} (hk : pairs.map Prod.fst ⊆ keys)
    (h : Frames e.now [] keys d₀ d) :
    Frames e.now [] keys d₀ (xreadgroupPairs e group consumer count pairs d).1 := by
  induction pairs generalizing d with
  | nil => exact h
  | cons pair pairs ih =>
    obtain ⟨key, idStr⟩ := pair
    have hks : pairs.map Prod.fst ⊆ keys := fun x hx => hk (List.mem_cons_of_mem key hx)
    have hmem : key ∈ keys := hk List.mem_cons_self
    have hp := h.sameLive (sameLive_purge e.now key d)
    unfold xreadgroupPairs
    dsimp only
    rw [getElem?_purge]
    cases look Kind.stream e.now key d with
    | absent hl => rw [hl]; exact hp
    | wrong en hl hd =>
      rw [hl]
      simp only [hd]
      exact hp
    | found s exp hl =>
      rw [hl]
      simp only [Kind.get?_wrap]
      cases s.groups[group]? with
      | none => exact hp
      | some cg =>
        dsimp only
        refine ih hks ?_
        rw [insert_purge]
        exact h.rewrite hmem hl rfl

/-- ZRANGESTORE writes its destination without an expiry, whatever was there. -/
theorem zrangestore_frames {dst src : Bytes} {min max : S} :
    Frames e.now [dst] [dst, src] d (zrangestore e dst src min max d).1 := by
  have hothers : ∀ k ∉ [dst],
      live e.now (zrangestore e dst src min max d).1 k = live e.now d k := by
    intro k hk
    have hne : dst ≠ k := fun he => hk (he ▸ List.mem_singleton_self dst)
    have hr : (membersToStore e src min max d).1 = purge e.now src d := rfl
    unfold zrangestore
    split
    · rename_i h
      rw [h] at hr
      dsimp only at hr ⊢
      rw [hr, live_purge]
    · rename_i h
      rw [h] at hr
      dsimp only at hr ⊢
      rw [live_erase, if_neg hne, hr, live_purge]
    · rename_i h
      rw [h] at hr
      dsimp only at hr ⊢
      rw [live_insert, if_neg hne, hr, live_purge]
  refine (Frames.of_others hothers).mono fun k hk => ?_
  rw [List.mem_singleton.mp hk]
  exact List.mem_cons_self

/-- SET writes its key, or nothing. -/
theorem set_frames {key value : Bytes} {ttl : Option Duration} {nx xx : Bool} :
    Frames e.now [key] [key] d (set e key value ttl nx xx d).1 := by
  apply Frames.of_others
  intro k hk
  have hne : key ≠ k := fun he => hk (he ▸ List.mem_singleton_self key)
  unfold set
  dsimp only
  split_ifs
  · rfl
  · rfl
  · rw [live_insert, if_neg hne]

theorem foldl_erase_frames {ks : List Bytes} :
    Frames e.now ks ks d (ks.foldl (fun d key => d.erase key) d) := by
  have hks : ∀ l : List Bytes, l ⊆ ks → ∀ d' : Data S, Frames e.now ks ks d d' →
      Frames e.now ks ks d (l.foldl (fun d key => d.erase key) d') := by
    intro l
    induction l with
    | nil => exact fun _ _ h => h
    | cons k l ih =>
      intro hl d' h
      exact ih (fun x hx => hl (List.mem_cons_of_mem k hx)) _ (h.erase (hl List.mem_cons_self))
  exact hks ks (fun _ hx => hx) d .refl

theorem delete_frames {ks : List Bytes} : Frames e.now ks ks d (delete e ks d).1 := by
  rw [delete, delete_fst]
  exact foldl_erase_frames

theorem expire_frames {key : Bytes} {seconds : ℤ} :
    Frames e.now [key] [key] d (expire e key seconds d).1 := by
  apply Frames.of_others
  intro k hk
  have hne : key ≠ k := fun he => hk (he ▸ List.mem_singleton_self key)
  unfold expire
  split_ifs
  · rw [live_erase, if_neg hne, live_purge]
  · split
    · rw [live_purge]
    · rw [live_insert, if_neg hne, live_purge]

end Several

end Store

/-! ## Methods -/

/-- The keys that a method removes or gives an expiry of its own: those of SET, DELETE and EXPIRE,
and the destination of ZRANGESTORE. -/
def Op.ownKeys {S : Type} : Op S → List Bytes
  | .set key .. | .expire key _ | .zrangestore key .. => [key]
  | .delete keys => keys
  | _ => []

section Methods

variable {S : Type} [Score S]

theorem Op.run_frames (e : Env) (d : Data S) (o : Op S) :
    Frames e.now o.ownKeys o.keys d (o.run e d).1 := by
  cases hown : o.ownBody with
  | false =>
    obtain ⟨f, g, h, -, hrun⟩ := o.shaped e hown
    rw [hrun]
    exact (h.result d).frames
  | true =>
    cases o with
    -- the methods that set or remove an expiry
    | set => exact Store.set_frames
    | delete => exact Store.delete_frames
    | expire => exact Store.expire_frames
    | zrangestore => exact Store.zrangestore_frames
    -- the methods that only read
    | ttl => exact purge_frames
    | sweepExpired => exact (Store.sweepExpired_sameLive e d).frames
    | xread keys ids count => exact (Store.xreadPairs_sameLive e count (keys.zip ids) d).frames
    -- the methods on several keys
    | xreadgroup group consumer keys ids count =>
      refine Store.xreadgroupPairs_frames (fun k hk => ?_) .refl
      obtain ⟨p, hp, rfl⟩ := List.mem_map.mp hk
      exact (List.of_mem_zip hp).1
    | lmoveAtomic src dst srcFrom dstTo =>
      show Frames e.now [] [dst, src] d (Store.lmoveAtomic e src dst srcFrom dstTo d).1
      exact Store.moveAs_frames (by simp) (by simp)
    | rpoplpushAtomic src dst =>
      show Frames e.now [] [dst, src] d (Store.rpoplpushAtomic e src dst d).1
      exact Store.moveAs_frames (by simp) (by simp)
    | blpopPoll => exact Store.pollAs_frames (fun _ hk => hk) .refl
    | brpopPoll => exact Store.pollAs_frames (fun _ hk => hk) .refl
    | _ => cases hown

end Methods

/-! ## Commands in scripts -/

namespace Script

/-- The arguments of a command that may be keys with an expiry of their own afterwards. -/
def ownKeys (cmd : String) (args : List Bytes) : List Bytes :=
  if cmd ∈ ["SET", "DEL", "EXPIRE", "PEXPIRE"] then args else []

section Plain

variable {S : Type} [LinearOrder S] {e : Env} {own args : List Bytes} {d : Data S}

theorem set_frames : Frames e.now args args d (set e args d).1 := by
  apply Frames.of_others
  intro k hk
  unfold set
  split
  · rename_i key value rest
    have hne : key ≠ k := fun he => hk (he ▸ List.mem_cons_self)
    split
    · rfl
    · dsimp only
      split_ifs
      · rfl
      · rfl
      · rw [live_insert, if_neg hne, live_purge]
  · rfl

theorem del_frames : Frames e.now args args d (del e args d).1 := by
  unfold del
  split
  · exact .refl
  · exact Store.delete_frames

theorem expireAs_frames {name : String} {unit : ℕ → Duration} :
    Frames e.now args args d (expireAs name unit e args d).1 := by
  apply Frames.of_others
  intro k hk
  unfold expireAs
  split
  · rename_i key time
    have hne : key ≠ k := fun he => hk (he ▸ List.mem_cons_self)
    split
    · rfl
    · split
      · rw [live_erase, if_neg hne, live_purge]
      · split
        · rw [live_purge]
        · rw [live_insert, if_neg hne, live_purge]
  · rfl

theorem lmove_frames : Frames e.now own args d (lmove e args d).1 := by
  unfold lmove
  split
  · split
    · exact .refl
    · split
      · exact .refl
      · exact Store.moveAs_frames (by simp) (by simp)
  · exact .refl

theorem rpoplpush_frames : Frames e.now own args d (rpoplpush e args d).1 := by
  unfold rpoplpush
  split
  · exact Store.moveAs_frames (by simp) (by simp)
  · exact .refl

end Plain

section Scores

variable {S : Type} [Score S] {e : Env} {own args : List Bytes} {d : Data S}

theorem existsKeys_frames : Frames e.now own args d (existsKeys e args d).1 := by
  unfold existsKeys
  split
  · exact .refl
  · have h := existsKeys_foldl (e := e) args (SameLive.refl (d := d)) 0
    exact h.data.symm.frames

theorem dispatchInner_frames (e : Env) (cmd : String) (args : List Bytes) (d : Data S) :
    Frames e.now (ownKeys cmd args) args d (dispatchInner e cmd args d).1 := by
  apply dispatchInner_elim (motive := fun f => Frames e.now (ownKeys cmd args) args d (f d).1)
  case shape =>
    intro _ h
    have hframes : Frames e.now (ownKeys cmd args) (args.take 1) d (dispatchInner e cmd args d).1 :=
      (h.result d).frames
    exact hframes.mono (List.take_subset 1 args)
  -- the commands that set or remove an expiry
  case set => rintro rfl; exact set_frames
  case del => rintro rfl; exact del_frames
  case expireAs => rintro name unit (rfl | rfl) <;> exact expireAs_frames
  -- the commands on several keys
  case existsKeys => exact fun _ => existsKeys_frames
  case xread => exact fun _ => (xread_sameLive e args d).frames
  case lmove => exact fun _ => lmove_frames
  case rpoplpush => exact fun _ => rpoplpush_frames

end Scores

end Script

/-- Whatever the store holds, a method and a command in a script, with any arguments and whether it
succeeds or fails, keeps the expiry of a key that is live before and after it, gives none to a key
that it makes, and leaves every live key that it does not name as it is. The keys of SET, DEL,
EXPIRE and PEXPIRE and the destination of ZRANGESTORE are excepted from the first two. -/
theorem command_frames {S : Type} [Score S] (e : Env) (d : Data S) :
    (∀ o : Op S, Frames e.now o.ownKeys o.keys d (o.run e d).1) ∧
      ∀ (cmd : String) (args : List Bytes), Frames e.now (Script.ownKeys cmd args) args d
        (Script.dispatchInner e cmd args d).1 :=
  ⟨Op.run_frames e d, fun cmd args => Script.dispatchInner_frames e cmd args d⟩

end BurnerRedis
