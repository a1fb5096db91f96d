import BurnerRedis.Store.Lists

/-!
# The elements of all lists

What stands in the lists at one moment is a function from keys to lists (`listAt`), and all of it
together a multiset (`elements`). A push or a pop rewrites the list of one key (`Change`), a move
those of two (`ElementMove.Moves`); both are put in terms of what the command reports.
-/

namespace BurnerRedis

open Function (update)

/-! ## The ends of a list -/

/-- The elements in the reply of LPOP and RPOP. -/
def LPopResult.elements : LPopResult → List Bytes
  | .nil => []
  | .single v => [v]
  | .array vs => vs

theorem coe_pushEnd (side : ListEnd) (v : Bytes) (l : List Bytes) :
    (pushEnd side v l : Multiset Bytes) = v ::ₘ l := by
  cases side with
  | left => rfl
  | right =>
    show ((l ++ [v] : List Bytes) : Multiset Bytes) = v ::ₘ l
    rw [← Multiset.coe_add, Multiset.coe_singleton, add_comm, Multiset.singleton_add]

theorem coe_foldl_pushEnd (side : ListEnd) (vs l : List Bytes) :
    ((vs.foldl (fun l v => pushEnd side v l) l : List Bytes) : Multiset Bytes) = l + vs := by
  induction vs generalizing l with
  | nil => simp
  | cons v vs ih =>
    rw [List.foldl_cons, ih, coe_pushEnd, ← Multiset.cons_coe, Multiset.cons_add,
      Multiset.add_cons]

theorem coe_of_popEnd {side : ListEnd} {l rest : List Bytes} {v : Bytes}
    (h : popEnd side l = some (v, rest)) : (l : Multiset Bytes) = v ::ₘ rest := by
  cases side with
  | left =>
    obtain ⟨w, hw, he⟩ := Option.map_eq_some_iff.mp h
    cases he
    rw [Multiset.cons_coe, List.cons_head?_tail hw]
  | right =>
    obtain ⟨w, hw, he⟩ := Option.map_eq_some_iff.mp h
    cases he
    have hl : l.dropLast ++ [v] = l := List.dropLast_append_getLast? v hw
    rw [← coe_pushEnd .right, pushEnd, hl]

theorem coe_popMany (side : ListEnd) (n : ℕ) (l : List Bytes) :
    (l : Multiset Bytes) = (popMany side n l).1 + (popMany side n l).2 := by
  induction n generalizing l with
  | zero => simp [popMany]
  | succ n ih =>
    unfold popMany
    cases hp : popEnd side l with
    | none => simp
    | some p =>
      dsimp only
      rw [coe_of_popEnd hp, ← Multiset.cons_coe, Multiset.cons_add, ← ih p.2]

theorem coe_popList (side : ListEnd) (count : Option ℕ) (l : List Bytes) :
    (l : Multiset Bytes) = (popList side count l).2.elements + (popList side count l).1 := by
  cases count with
  | some n => exact coe_popMany side n l
  | none =>
    unfold popList
    cases hp : popEnd side l with
    | none => simp [LPopResult.elements]
    | some p =>
      dsimp only [LPopResult.elements]
      rw [coe_of_popEnd hp, Multiset.coe_singleton, Multiset.singleton_add]

/-! ## Families of lists -/

/-- Putting one list in the place of another. -/
theorem sum_update {K α : Type} [DecidableEq K] {s : Finset K} {key : K} (h : key ∈ s)
    (f : K → List α) (l : List α) :
    ∑ k ∈ s, (update f key l k : Multiset α) + f key = ∑ k ∈ s, (f k : Multiset α) + l := by
  have hrest : ∀ k ∈ s.erase key, (update f key l k : Multiset α) = f k := by
    intro k hk
    rw [Function.update_of_ne (Finset.ne_of_mem_erase hk)]
  rw [← Finset.add_sum_erase _ _ h, ← Finset.add_sum_erase _ _ h, Finset.sum_congr rfl hrest,
    Function.update_self]
  abel

/-! ## The lists of a store -/

section Store

variable {S : Type} [LinearOrder S] {now now' : Instant} {d d' : Data S} {key : Bytes}

/-- The live list of a key, empty where there is none. -/
def listAt (now : Instant) (d : Data S) (key : Bytes) : List Bytes :=
  ((live now d key).bind fun en => Kind.list.get? en.data).getD []

/-- All elements of all live lists. -/
def elements (now : Instant) (d : Data S) : Multiset Bytes :=
  (d.keys.flatMap (listAt now d) : List Bytes)

theorem listAt_of_none (h : live now d key = none) : listAt now d key = [] := by
  rw [listAt, h]; rfl

theorem listAt_of_list {l : List Bytes} {exp : Option Instant}
    (h : live now d key = some ⟨.list l, exp⟩) : listAt now d key = l := by
  rw [listAt, h]; rfl

theorem listAt_congr (h : ∀ k, live now d' k = live now d k) : listAt now d' = listAt now d := by
  funext k
  rw [listAt, h k, listAt]

@[simp] theorem listAt_purge : listAt now (purge now key d) = listAt now d :=
  listAt_congr fun k => live_purge now key k d

@[simp] theorem listAt_purgePair {src dst : Bytes} :
    listAt now (purgePair now src dst d) = listAt now d :=
  listAt_congr fun k => live_purgePair now src dst k d

theorem listAt_insert {l : List Bytes} {exp : Option Instant}
    (hexp : (⟨.list l, exp⟩ : ValueEntry S).isExpired now = false) :
    listAt now (d.insert key ⟨.list l, exp⟩) = update (listAt now d) key l := by
  funext k
  by_cases hk : k = key
  · subst hk
    rw [Function.update_self]
    apply listAt_of_list
    rw [live_insert, if_pos rfl, Option.filter_some, hexp]
    rfl
  · rw [Function.update_of_ne hk, listAt, live_insert, if_neg (Ne.symm hk), listAt]

theorem listAt_erase : listAt now (d.erase key) = update (listAt now d) key [] := by
  funext k
  by_cases hk : k = key
  · subst hk
    rw [Function.update_self]
    apply listAt_of_none
    rw [live_erase, if_pos rfl]
  · rw [Function.update_of_ne hk, listAt, live_erase, if_neg (Ne.symm hk), listAt]

/-- Writing a list back, or dropping the key with nothing left. -/
theorem listAt_shrunk {l : List Bytes} {exp : Option Instant}
    (hexp : (⟨.list l, exp⟩ : ValueEntry S).isExpired now = false) :
    listAt now (if l.isEmpty then d.erase key else d.insert key ⟨.list l, exp⟩) =
      update (listAt now d) key l := by
  by_cases hl : l = []
  · subst hl
    exact listAt_erase
  · have he : l.isEmpty = false := List.isEmpty_eq_false_iff.mpr hl
    rw [he]
    exact listAt_insert hexp

theorem listAt_of_not_mem {k : Bytes} (hk : k ∉ d.keys.toFinset) : listAt now d k = [] := by
  apply listAt_of_none
  rw [List.mem_toFinset, Std.ExtTreeMap.mem_keys, FinMap.not_mem_iff_getElem?] at hk
  rw [live, hk]
  rfl

/-- The elements, summed over any set of keys that has all the lists. -/
theorem elements_eq_sum {s : Finset Bytes} (hs : ∀ k ∉ s, listAt now d k = []) :
    elements now d = ∑ k ∈ s, (listAt now d k : Multiset Bytes) := by
  have hunion : ∀ t : Finset Bytes, (∀ k ∉ t, listAt now d k = []) → t ⊆ s ∪ d.keys.toFinset →
      ∑ k ∈ t, (listAt now d k : Multiset Bytes) =
        ∑ k ∈ s ∪ d.keys.toFinset, (listAt now d k : Multiset Bytes) := by
    intro t ht hsub
    apply Finset.sum_subset hsub
    intro k _ hk
    rw [ht k hk]
    rfl
  calc elements now d
      = (d.keys.map fun k => (listAt now d k : Multiset Bytes)).sum := by
        rw [elements, ← Multiset.coe_bind]
        rfl
    _ = ∑ k ∈ d.keys.toFinset, (listAt now d k : Multiset Bytes) :=
        (List.sum_toFinset _ Std.ExtTreeMap.nodup_keys).symm
    _ = _ := (hunion _ (fun _ => listAt_of_not_mem) Finset.subset_union_right).trans
        (hunion _ hs Finset.subset_union_left).symm

/-- The keys of two stores, and two more. -/
def allKeys (d d' : Data S) (a b : Bytes) : Finset Bytes :=
  insert a (insert b (d.keys.toFinset ∪ d'.keys.toFinset))

theorem elements_eq_sum_left (now : Instant) (d d' : Data S) (a b : Bytes) :
    elements now d = ∑ k ∈ allKeys d d' a b, (listAt now d k : Multiset Bytes) := by
  apply elements_eq_sum
  intro k hk
  apply listAt_of_not_mem
  simp only [allKeys, Finset.mem_insert, Finset.mem_union, not_or] at hk
  exact hk.2.2.1

theorem elements_eq_sum_right (now : Instant) (d d' : Data S) (a b : Bytes) :
    elements now d' = ∑ k ∈ allKeys d d' a b, (listAt now d' k : Multiset Bytes) := by
  apply elements_eq_sum
  intro k hk
  apply listAt_of_not_mem
  simp only [allKeys, Finset.mem_insert, Finset.mem_union, not_or] at hk
  exact hk.2.2.2

/-- Putting one list in the place of another. -/
theorem elements_update {l : List Bytes} (h : listAt now' d' = update (listAt now d) key l) :
    elements now' d' + listAt now d key = elements now d + l := by
  have hkey : key ∈ allKeys d d' key key := Finset.mem_insert_self ..
  rw [elements_eq_sum_left now d d' key key, elements_eq_sum_right now' d d' key key, h]
  exact sum_update hkey _ _

theorem elements_congr (h : listAt now' d' = listAt now d) : elements now' d' = elements now d := by
  have hd : listAt now' d' = update (listAt now d) [] (listAt now d []) := by
    rw [Function.update_eq_self, h]
  exact add_right_cancel (elements_update hd)

end Store

/-! ## What a command does to the lists -/

/-- What a command has reported to its caller. -/
inductive Traffic where
  | pushed (vs : List Bytes)
  | popped (vs : List Bytes)
  | moved (v : Bytes)
  | idle

namespace Traffic

/-- The elements handed over to the store. -/
def taken : Traffic → Multiset Bytes
  | .pushed vs => vs
  | _ => 0

/-- The elements handed out to the caller, who has them for good. -/
def given : Traffic → Multiset Bytes
  | .popped vs => vs
  | _ => 0

end Traffic

/-- The arguments of a move. -/
structure ElementMove where
  src : Bytes
  dst : Bytes
  srcFrom : ListEnd
  dstTo : ListEnd

/-- The lists after a move are those before it, with `v` taken from its end of the source and put at
its end of the destination, which may be the same list. -/
def ElementMove.Moves (m : ElementMove) (v : Bytes) (f g : Bytes → List Bytes) : Prop :=
  ∃ rest, popEnd m.srcFrom (f m.src) = some (v, rest) ∧
    g = update (update f m.src rest) m.dst (pushEnd m.dstTo v (update f m.src rest m.dst))

/-- How the lists change under a command that is no move, or a move of nothing. -/
inductive Change (f : Bytes → List Bytes) : (Bytes → List Bytes) → Traffic → Prop
  | pushed (key : Bytes) (side : ListEnd) (vs : List Bytes) :
      Change f (update f key (vs.foldl (fun l v => pushEnd side v l) (f key))) (.pushed vs)
  | popped (key : Bytes) (vs rest : List Bytes) (h : (f key : Multiset Bytes) = vs + rest) :
      Change f (update f key rest) (.popped vs)
  | idle : Change f f .idle

theorem Change.not_moved {f g : Bytes → List Bytes} {v : Bytes} : ¬ Change f g (.moved v) := by
  rintro ⟨⟩

section Balance

variable {S : Type} [LinearOrder S] {now : Instant} {d d' : Data S}

/-- A move keeps the elements. -/
theorem ElementMove.Moves.elements_eq {m : ElementMove} {v : Bytes}
    (h : m.Moves v (listAt now d) (listAt now d')) : elements now d' = elements now d := by
  obtain ⟨rest, hpop, hd'⟩ := h
  have hsrc : m.src ∈ allKeys d d' m.src m.dst := Finset.mem_insert_self ..
  have hdst : m.dst ∈ allKeys d d' m.src m.dst :=
    Finset.mem_insert_of_mem (Finset.mem_insert_self ..)
  rw [elements_eq_sum_left now d d' m.src m.dst, elements_eq_sum_right now d d' m.src m.dst, hd']
  -- first the source loses `v`, then the destination gains it
  have hlost := sum_update hsrc (listAt now d) rest
  have hgained := sum_update hdst (update (listAt now d) m.src rest)
    (pushEnd m.dstTo v (update (listAt now d) m.src rest m.dst))
  rw [coe_of_popEnd hpop, ← Multiset.singleton_add, ← add_assoc] at hlost
  rw [coe_pushEnd, ← Multiset.singleton_add, ← add_assoc] at hgained
  rw [add_right_cancel hgained, add_right_cancel hlost]

/-- What comes in is there or has gone out. -/
theorem Change.balance {t : Traffic} (h : Change (listAt now d) (listAt now d') t) :
    elements now d' + t.given = elements now d + t.taken := by
  generalize hg : listAt now d' = g at h
  cases h with
  | pushed key side vs =>
    have hu := elements_update hg
    rw [coe_foldl_pushEnd, add_comm (listAt now d key : Multiset Bytes), ← add_assoc] at hu
    show elements now d' + 0 = elements now d + (vs : Multiset Bytes)
    rw [add_zero]
    exact add_right_cancel hu
  | popped key vs rest hl =>
    have hu := elements_update hg
    rw [hl, ← add_assoc] at hu
    show elements now d' + (vs : Multiset Bytes) = elements now d + 0
    rw [add_zero]
    exact add_right_cancel hu
  | idle =>
    show elements now d' + 0 = elements now d + 0
    rw [elements_congr hg]

end Balance

/-! ## The shapes of the list commands -/

section Shapes

variable {S ρ : Type} [LinearOrder S] {now : Instant} {d : Data S} {key : Bytes} {absent wrong : ρ}

theorem isExpired_of_live {x : ValueData S} {exp : Option Instant}
    (h : live now d key = some ⟨x, exp⟩) (y : ValueData S) :
    (⟨y, exp⟩ : ValueEntry S).isExpired now = false :=
  (live_eq_some.mp h).2

theorem Change.popped_nil (f : Bytes → List Bytes) : Change f f (.popped []) := by
  have hnil : (f [] : Multiset Bytes) = ([] : List Bytes) + (f [] : Multiset Bytes) := by
    rw [Multiset.coe_nil, zero_add]
  have h := Change.popped [] [] (f []) hnil
  rwa [Function.update_eq_self] at h

/-- A push, refused where the key holds something else. -/
theorem upsertAs_change {t : ρ → Traffic} {f : List Bytes → List Bytes × ρ} {side : ListEnd}
    {vs : List Bytes} (hw : t wrong = .idle)
    (hf : ∀ l, (f l).1 = vs.foldl (fun l v => pushEnd side v l) l ∧ t (f l).2 = .pushed vs) :
    Change (listAt now d) (listAt now (upsertAs .list now key [] wrong f d).1)
      (t (upsertAs .list now key [] wrong f d).2) := by
  cases look .list now key d with
  | absent h =>
    obtain ⟨hl, hr⟩ := hf []
    rw [upsertAs_absent h, hr, hl]
    have hc := Change.pushed (f := listAt now d) key side vs
    rw [listAt_of_none h] at hc
    rw [show Kind.list.wrap _ = ValueData.list _ from rfl, listAt_insert rfl]
    exact hc
  | wrong en h hd =>
    rw [upsertAs_wrong h hd, hw, listAt_purge]
    exact .idle
  | found l exp h =>
    obtain ⟨hl, hr⟩ := hf l
    rw [upsertAs_found h, hr, hl]
    have hc := Change.pushed (f := listAt now d) key side vs
    rw [listAt_of_list h] at hc
    rw [show Kind.list.wrap _ = ValueData.list _ from rfl, listAt_insert (isExpired_of_live h _)]
    exact hc

/-- A pop: nothing happens where there is no list. -/
theorem shrinkAs_change {t : ρ → Traffic} {f : List Bytes → List Bytes × ρ}
    (ha : t absent = .popped []) (hw : t wrong = .idle ∨ t wrong = .popped [])
    (hf : ∀ l : List Bytes, ∃ vs : List Bytes,
      (l : Multiset Bytes) = vs + (f l).1 ∧ t (f l).2 = .popped vs) :
    Change (listAt now d) (listAt now (shrinkAs now key absent wrong f d).1)
      (t (shrinkAs now key absent wrong f d).2) := by
  cases look Kind.list now key d with
  | absent h =>
    rw [shrinkAs_absent h, ha, listAt_purge]
    exact .popped_nil _
  | wrong en h hd =>
    rw [shrinkAs_wrong h hd, listAt_purge]
    rcases hw with hw | hw
    · rw [hw]
      exact .idle
    · rw [hw]
      exact .popped_nil _
  | found l exp h =>
    obtain ⟨vs, hl, hr⟩ := hf l
    rw [shrinkAs_found h, hr, listAt_shrunk (isExpired_of_live h _)]
    exact .popped key vs _ (by rw [listAt_of_list h, hl])

/-- A pop of no elements, which still looks at the type. -/
theorem readAs_change {t : ρ → Traffic} {f : List Bytes → ρ} (ha : t absent = .popped [])
    (hw : t wrong = .idle ∨ t wrong = .popped []) (hf : ∀ l, t (f l) = .popped []) :
    Change (listAt now d) (listAt now (readAs .list now key absent wrong f d).1)
      (t (readAs .list now key absent wrong f d).2) := by
  rw [show (readAs .list now key absent wrong f d).1 = purge now key d from rfl, listAt_purge]
  cases look Kind.list now key d with
  | absent h =>
    rw [readAs_absent h, ha]
    exact .popped_nil _
  | wrong en h hd =>
    rw [readAs_wrong h hd]
    rcases hw with hw | hw
    · rw [hw]
      exact .idle
    · rw [hw]
      exact .popped_nil _
  | found l exp h =>
    rw [readAs_found h, hf l]
    exact .popped_nil _

namespace Store

theorem listAt_popMoved {src dst : Bytes} {x : ValueData S} {exp : Option Instant}
    {rest : List Bytes} (hexp : (⟨x, exp⟩ : ValueEntry S).isExpired now = false) :
    listAt now (popMoved src dst ⟨x, exp⟩ rest d) = update (listAt now d) src rest := by
  unfold popMoved
  split
  · rename_i he
    have hrest : rest = [] := by
      rw [Bool.and_eq_true] at he
      exact List.isEmpty_iff.mp he.1
    rw [hrest]
    exact listAt_erase
  · exact listAt_insert hexp

/-- The push of a move where nothing is in the way. -/
theorem pushMoved_list {dst : Bytes} (side : ListEnd) (v : Bytes) (wrong : ρ) (moved : Bytes → ρ)
    (hlive : d[dst]? = live now d dst)
    (hok : ∀ en, live now d dst = some en → Kind.list.get? en.data ≠ none) :
    listAt now (pushMoved dst side v wrong moved d).1 =
        update (listAt now d) dst (pushEnd side v (listAt now d dst)) ∧
      (pushMoved dst side v wrong moved d).2 = moved v := by
  unfold pushMoved
  rw [hlive]
  cases look Kind.list now dst d with
  | absent h =>
    rw [h, listAt_of_none h]
    have hv : pushEnd side v [] = [v] := by cases side <;> rfl
    rw [hv]
    exact ⟨listAt_insert rfl, rfl⟩
  | wrong en h hd => exact absurd hd (hok en h)
  | found l exp h =>
    rw [h, listAt_of_list h]
    exact ⟨listAt_insert (isExpired_of_live h _), rfl⟩

/-- After the pop the destination is live, and a list if there is anything. -/
theorem popMoved_dst {src dst : Bytes} {x : ValueData S} {exp : Option Instant} (rest : List Bytes)
    (hexp : (⟨x, exp⟩ : ValueEntry S).isExpired now = false)
    (hfree : blocksMove (purgePair now src dst d) src dst ≠ true) :
    (popMoved src dst ⟨x, exp⟩ rest (purgePair now src dst d))[dst]? =
        live now (popMoved src dst ⟨x, exp⟩ rest (purgePair now src dst d)) dst ∧
      ∀ en, live now (popMoved src dst ⟨x, exp⟩ rest (purgePair now src dst d)) dst = some en →
        Kind.list.get? en.data ≠ none := by
  have hexp' : (⟨.list rest, exp⟩ : ValueEntry S).isExpired now = false := hexp
  by_cases hsd : src = dst
  · subst hsd
    have hpop : popMoved src src ⟨x, exp⟩ rest (purgePair now src src d) =
        (purgePair now src src d).insert src ⟨.list rest, exp⟩ := by
      unfold popMoved
      rw [if_neg (by simp)]
    rw [hpop, live_insert, FinMap.getElem?_insert', if_pos rfl, if_pos rfl, Option.filter_some,
      hexp']
    refine ⟨rfl, ?_⟩
    rintro en ⟨⟩
    exact Option.some_ne_none rest
  · have hget : (popMoved src dst ⟨x, exp⟩ rest (purgePair now src dst d))[dst]? =
        (purgePair now src dst d)[dst]? := by
      unfold popMoved
      split
      · exact FinMap.getElem?_erase_ne _ hsd
      · exact FinMap.getElem?_insert_ne _ hsd _
    have hlive : live now (popMoved src dst ⟨x, exp⟩ rest (purgePair now src dst d)) dst =
        (purgePair now src dst d)[dst]? := by
      rw [live, hget, getElem?_purgePair_dst, live, Option.filter_filter]
      simp only [Bool.and_self]
    refine ⟨hget.trans hlive.symm, fun en hen hd => hfree ?_⟩
    rw [hlive] at hen
    unfold blocksMove
    rw [hen, Option.any_some, hd]
    simp [hsd]

/-- A move moves its element, or says that it has not and changes nothing. -/
theorem moveAs_list (now : Instant) (d : Data S) (m : ElementMove) (nil wrong : ρ)
    (moved : Bytes → ρ) :
    listAt now (moveAs now m.src m.dst m.srcFrom m.dstTo nil wrong moved d).1 = listAt now d ∧
        ((moveAs now m.src m.dst m.srcFrom m.dstTo nil wrong moved d).2 = nil ∨
          (moveAs now m.src m.dst m.srcFrom m.dstTo nil wrong moved d).2 = wrong) ∨
      ∃ v, (moveAs now m.src m.dst m.srcFrom m.dstTo nil wrong moved d).2 = moved v ∧
        m.Moves v (listAt now d)
          (listAt now (moveAs now m.src m.dst m.srcFrom m.dstTo nil wrong moved d).1) := by
  unfold moveAs
  dsimp only
  rw [getElem?_purgePair_src]
  cases look Kind.list now m.src d with
  | absent h => rw [h]; left; exact ⟨listAt_purgePair, .inl rfl⟩
  | wrong en h hd =>
    rw [h]
    dsimp only
    rw [hd]
    left
    exact ⟨listAt_purgePair, .inr rfl⟩
  | found l exp h =>
    rw [h]
    simp only [Kind.get?_wrap]
    cases hp : popEnd m.srcFrom l with
    | none => left; exact ⟨listAt_purgePair, .inl rfl⟩
    | some p =>
      dsimp only
      have hexp := isExpired_of_live h (Kind.list.wrap l)
      by_cases hb : blocksMove (purgePair now m.src m.dst d) m.src m.dst = true
      · rw [if_pos hb]
        left
        exact ⟨listAt_purgePair, .inr rfl⟩
      · rw [if_neg hb]
        right
        obtain ⟨hlive, hok⟩ := popMoved_dst p.2 hexp hb
        obtain ⟨hlists, hreply⟩ := pushMoved_list m.dstTo p.1 wrong moved hlive hok
        refine ⟨p.1, hreply, p.2, by rw [listAt_of_list h, hp], ?_⟩
        rw [hlists, listAt_popMoved hexp, listAt_purgePair]

/-- A scan pops from the first list with an element, or finds none, or fails, and then changes
nothing. -/
theorem pollAs_list (e : Env) (side : ListEnd) (keys : List Bytes) (d : Data S) :
    listAt e.now (pollAs side e keys d).1 = listAt e.now d ∧
        (∀ p, (pollAs side e keys d).2 ≠ .ok (some p)) ∨
      ∃ k v rest, (pollAs side e keys d).2 = .ok (some (k, v)) ∧
        popEnd side (listAt e.now d k) = some (v, rest) ∧
        listAt e.now (pollAs side e keys d).1 = update (listAt e.now d) k rest := by
  induction keys generalizing d with
  | nil =>
    left
    refine ⟨rfl, fun p h => ?_⟩
    cases h
  | cons k keys ih =>
    have hnext := ih (purge e.now k d)
    rw [listAt_purge] at hnext
    unfold pollAs
    dsimp only
    rw [getElem?_purge]
    cases look Kind.list e.now k d with
    | absent h => rw [h]; exact hnext
    | wrong en h hd =>
      rw [h]
      simp only [hd]
      left
      refine ⟨listAt_purge, fun p h => ?_⟩
      cases h
    | found l exp h =>
      rw [h]
      simp only [Kind.get?_wrap]
      cases hp : popEnd side l with
      | none => exact hnext
      | some p =>
        right
        refine ⟨k, p.1, p.2, rfl, by rw [listAt_of_list h, hp], ?_⟩
        simp only [insert_purge, erase_purge]
        exact listAt_shrunk (isExpired_of_live h _)

end Store

end Shapes

end BurnerRedis
