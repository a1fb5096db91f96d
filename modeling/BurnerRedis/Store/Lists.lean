import BurnerRedis.Edits

/-!
# Lists

The helpers of `commands/lists.rs` and the list commands of `store.rs`. The commands that make a
list grow wake the clients blocked on lists; this is the `Wake` of their result.
-/

namespace BurnerRedis

/-! ## Arguments -/

/-- Which end of a list to operate on. -/
inductive ListEnd where
  | left
  | right
deriving DecidableEq

/-- Whether LINSERT operates before or after the pivot. -/
inductive InsertPosition where
  | before
  | after
deriving DecidableEq

/-- LREM direction: from the head, from the tail, or all matches. -/
inductive LremDirection where
  | head (n : ℕ)
  | tail (n : ℕ)
  | all
deriving DecidableEq

def parseListEnd (s : String) : Except StoreError ListEnd :=
  if toAsciiUppercase s = "LEFT" then .ok .left
  else if toAsciiUppercase s = "RIGHT" then .ok .right
  else .error (.syntaxError ("ERR syntax error: expected LEFT or RIGHT, got " ++ s))

def parseLinsertWhere (s : String) : Except StoreError InsertPosition :=
  if toAsciiUppercase s = "BEFORE" then .ok .before
  else if toAsciiUppercase s = "AFTER" then .ok .after
  else .error (.syntaxError ("ERR syntax error: expected BEFORE or AFTER, got " ++ s))

def parseLremCount (count : ℤ) : LremDirection :=
  if 0 < count then .head count.toNat else if count < 0 then .tail count.natAbs else .all

/-- The bounds of an inclusive range given by possibly negative indices; none for an empty one. -/
def normalizeRangeIndices (start stop : ℤ) (len : ℕ) : Option (ℕ × ℕ) :=
  let n : ℤ := len
  let start := if start < 0 then max (start + n) 0 else start
  let stop := if stop < 0 then stop + n else min stop (n - 1)
  if len = 0 ∨ start ≥ n ∨ stop < 0 ∨ start > stop then none else some (start.toNat, stop.toNat)

/-- The position an index stands for in a list of `len` elements. -/
def elementIndex (index : ℤ) (len : ℕ) : Option ℕ :=
  let actual := if index < 0 then index + len else index
  if actual < 0 ∨ actual ≥ len then none else some actual.toNat

/-! ## Elements -/

/-- `pop_front` or `pop_back`. -/
def popEnd (side : ListEnd) (l : List Bytes) : Option (Bytes × List Bytes) :=
  match side with
  | .left => l.head?.map fun v => (v, l.tail)
  | .right => l.getLast?.map fun v => (v, l.dropLast)

/-- `push_front` or `push_back`. -/
def pushEnd (side : ListEnd) (v : Bytes) (l : List Bytes) : List Bytes :=
  match side with
  | .left => v :: l
  | .right => l ++ [v]

/-- Pop up to `n` elements, and the list that is left. -/
def popMany (side : ListEnd) : ℕ → List Bytes → List Bytes × List Bytes
  | 0, l => ([], l)
  | n + 1, l =>
    match popEnd side l with
    | none => ([], l)
    | some (v, rest) => (v :: (popMany side n rest).1, (popMany side n rest).2)

/-- The elements that `retain` keeps while fewer than `target` matches have been removed, and how
many have been removed in the end. -/
def retainHead (target : ℕ) (value : Bytes) : ℕ → List Bytes → List Bytes × ℕ
  | removed, [] => ([], removed)
  | removed, v :: rest =>
    if removed < target ∧ v = value then retainHead target value (removed + 1) rest
    else (v :: (retainHead target value removed rest).1, (retainHead target value removed rest).2)

/-- The positions of the last `target` matches, the last first. -/
def matchesFromTail (target : ℕ) (value : Bytes) (l : List Bytes) : List ℕ :=
  ((l.zipIdx.reverse.filter fun p => p.1 = value).map Prod.snd).take target

/-- What LREM does to a list, and how many elements it removes. -/
def lremList (count : ℤ) (value : Bytes) (l : List Bytes) : List Bytes × ℤ :=
  match parseLremCount count with
  | .head target => ((retainHead target value 0 l).1, (retainHead target value 0 l).2)
  | .tail target =>
    (matchesFromTail target value l).foldl (fun r i => (r.1.eraseIdx i, r.2 + 1)) (l, 0)
  | .all =>
    (l.filter (· ≠ value), (l.length : ℤ) - (l.filter (· ≠ value)).length)

/-- What LRANGE reads of a list and LTRIM leaves of it. -/
def lrangeList (start stop : ℤ) (l : List Bytes) : List Bytes :=
  match normalizeRangeIndices start stop l.length with
  | none => []
  | some (s, e) => (l.drop s).take (e - s + 1)

/-- Where LINSERT puts its value. -/
def insertAt (pos : ℕ) : InsertPosition → ℕ
  | .before => pos
  | .after => pos + 1

/-- Reply of LPOP and RPOP. -/
inductive LPopResult where
  | nil
  | single (v : Bytes)
  | array (vs : List Bytes)
deriving DecidableEq

/-- What LPOP and RPOP do to a list. -/
def popList (side : ListEnd) (count : Option ℕ) (l : List Bytes) : List Bytes × LPopResult :=
  match count with
  | none => match popEnd side l with
    | some (v, rest) => (rest, .single v)
    | none => (l, .nil)
  | some n => ((popMany side n l).2, .array (popMany side n l).1)

namespace Store

variable {S : Type} [LinearOrder S]

/-! ## Commands -/

/-- LPUSH and RPUSH, with the message for a call without values. -/
def pushAs (side : ListEnd) (arity : String) (e : Env) (key : Bytes) (values : List Bytes)
    (d : Data S) : Data S × Except StoreError ℤ × Wake :=
  if values.isEmpty then (d, .error (.syntaxError arity), {})
  else upsertAs .list e.now key [] (.error .wrongType, {}) (fun list =>
    let list := values.foldl (fun l v => pushEnd side v l) list
    (list, .ok list.length, { list := true })) d

/-- LPUSH: the new length. -/
def lpush (e : Env) (key : Bytes) (values : List Bytes) :
    Data S → Data S × Except StoreError ℤ × Wake :=
  pushAs .left "ERR wrong number of arguments for 'lpush' command" e key values

/-- RPUSH: the new length. -/
def rpush (e : Env) (key : Bytes) (values : List Bytes) :
    Data S → Data S × Except StoreError ℤ × Wake :=
  pushAs .right "ERR wrong number of arguments for 'rpush' command" e key values

/-- LLEN. -/
def llen (e : Env) (key : Bytes) : Data S → Data S × Except StoreError ℤ :=
  readAs .list e.now key (.ok 0) (.error .wrongType) fun list => .ok list.length

/-- LINDEX. -/
def lindex (e : Env) (key : Bytes) (index : ℤ) : Data S → Data S × Except StoreError (Option Bytes) :=
  readAs .list e.now key (.ok none) (.error .wrongType) fun list =>
    .ok ((elementIndex index list.length).bind fun i => list[i]?)

/-- LRANGE. -/
def lrange (e : Env) (key : Bytes) (start stop : ℤ) :
    Data S → Data S × Except StoreError (List Bytes) :=
  readAs .list e.now key (.ok []) (.error .wrongType) fun list => .ok (lrangeList start stop list)

/-- LPOP and RPOP. The type is checked before a count of zero is answered. -/
def popAs (side : ListEnd) (e : Env) (key : Bytes) (count : Option ℕ) :
    Data S → Data S × Except StoreError LPopResult :=
  if count = some 0 then
    readAs .list e.now key (.ok .nil) (.error .wrongType) fun _ => .ok (.array [])
  else
    shrinkAs e.now key (.ok .nil) (.error .wrongType) fun list =>
      ((popList side count list).1, .ok (popList side count list).2)

/-- LPOP. -/
def lpop (e : Env) (key : Bytes) (count : Option ℕ) : Data S → Data S × Except StoreError LPopResult :=
  popAs .left e key count

/-- RPOP. -/
def rpop (e : Env) (key : Bytes) (count : Option ℕ) : Data S → Data S × Except StoreError LPopResult :=
  popAs .right e key count

/-- LREM: the number of elements removed. -/
def lrem (e : Env) (key : Bytes) (count : ℤ) (value : Bytes) :
    Data S → Data S × Except StoreError ℤ :=
  shrinkAs e.now key (.ok 0) (.error .wrongType) fun list =>
    ((lremList count value list).1, .ok (lremList count value list).2)

/-- LSET. -/
def lset (e : Env) (key : Bytes) (index : ℤ) (value : Bytes) :
    Data S → Data S × Except StoreError Unit :=
  modifyAs .list e.now key (.error .noSuchKey) (.error .wrongType) fun list =>
    match elementIndex index list.length with
    | none => (list, .error (.syntaxError "ERR index out of range"))
    | some i => (list.set i value, .ok ())

/-- LTRIM. -/
def ltrim (e : Env) (key : Bytes) (start stop : ℤ) : Data S → Data S × Except StoreError Unit :=
  shrinkAs e.now key (.ok ()) (.error .wrongType) fun list => (lrangeList start stop list, .ok ())

/-- LINSERT: the new length, -1 without the pivot, 0 without the key. It wakes nobody: the list it
grows was there before. -/
def linsert (e : Env) (key : Bytes) (position : InsertPosition) (pivot value : Bytes) :
    Data S → Data S × Except StoreError ℤ :=
  modifyAs .list e.now key (.ok 0) (.error .wrongType) fun list =>
    match list.findIdx? (· == pivot) with
    | none => (list, .ok (-1))
    | some pos => (list.insertIdx (insertAt pos position) value, .ok (list.length + 1))

/-- A key other than the source of a move that cannot take an element. -/
def blocksMove (d : Data S) (src dst : Bytes) : Bool :=
  src ≠ dst && (d[dst]?.any fun en => (Kind.list.get? en.data).isNone)

/-- The push of a move. -/
def pushMoved {ρ : Type} (dst : Bytes) (side : ListEnd) (v : Bytes) (wrong : ρ) (moved : Bytes → ρ)
    (d : Data S) : Data S × ρ :=
  match d[dst]? with
  | none => (d.insert dst ⟨.list [v], none⟩, moved v)
  | some en => match Kind.list.get? en.data with
    | some l => (d.insert dst { en with data := .list (pushEnd side v l) }, moved v)
    | none => (d, wrong)

/-- The source of a move after the pop: an emptied list goes, unless it is pushed back to. -/
def popMoved (src dst : Bytes) (en : ValueEntry S) (rest : List Bytes) (d : Data S) : Data S :=
  if rest.isEmpty && src ≠ dst then d.erase src
  else d.insert src { en with data := .list rest }

/-- The move of LMOVE. Nothing happens, and the destination is not looked at, when the source has
no element; the destination is checked before the element is taken. -/
def moveAs {ρ : Type} (now : Instant) (src dst : Bytes) (srcFrom dstTo : ListEnd) (nil wrong : ρ)
    (moved : Bytes → ρ) (d₀ : Data S) : Data S × ρ :=
  let d := purgePair now src dst d₀
  match d[src]? with
  | none => (d, nil)
  | some en => match Kind.list.get? en.data with
    | none => (d, wrong)
    | some l => match popEnd srcFrom l with
      | none => (d, nil)
      | some (popped, rest) =>
        if blocksMove d src dst then (d, wrong)
        else pushMoved dst dstTo popped wrong moved (popMoved src dst en rest d)

/-- LMOVE: the element moved. -/
def lmoveAtomic (e : Env) (src dst : Bytes) (srcFrom dstTo : ListEnd) :
    Data S → Data S × Except StoreError (Option Bytes) × Wake :=
  moveAs e.now src dst srcFrom dstTo (.ok none, {}) (.error .wrongType, {})
    fun v => (.ok (some v), { list := true })

/-- RPOPLPUSH. -/
def rpoplpushAtomic (e : Env) (src dst : Bytes) :
    Data S → Data S × Except StoreError (Option Bytes) × Wake :=
  lmoveAtomic e src dst .right .left

/-- One scan of the keys, popping from the first list with an element. -/
def pollAs (side : ListEnd) (e : Env) :
    List Bytes → Data S → Data S × Except StoreError (Option (Bytes × Bytes))
  | [], d => (d, .ok none)
  | k :: keys, d₀ =>
    let d := purge e.now k d₀
    match d[k]? with
    | none => pollAs side e keys d
    | some en => match Kind.list.get? en.data with
      | none => (d, .error .wrongType)
      | some l => match popEnd side l with
        | none => pollAs side e keys d
        | some (v, rest) =>
          (if rest.isEmpty then d.erase k else d.insert k { en with data := .list rest },
            .ok (some (k, v)))

/-- The scan of BLPOP. -/
def blpopPoll (e : Env) (keys : List Bytes) :
    Data S → Data S × Except StoreError (Option (Bytes × Bytes)) :=
  pollAs .left e keys

/-- The scan of BRPOP. -/
def brpopPoll (e : Env) (keys : List Bytes) :
    Data S → Data S × Except StoreError (Option (Bytes × Bytes)) :=
  pollAs .right e keys

end Store

/-! ## What they edit -/

@[simp] theorem popEnd_nil (side : ListEnd) : popEnd side [] = none := by cases side <;> rfl

theorem popList_nil (side : ListEnd) (count : Option ℕ) : (popList side count []).1 = [] := by
  cases count with
  | none => simp [popList]
  | some n => cases n <;> simp [popList, popMany]

theorem lremList_nil (count : ℤ) (value : Bytes) : (lremList count value []).1 = [] := by
  unfold lremList
  cases parseLremCount count with
  | head n => rfl
  | tail n => simp [matchesFromTail]
  | all => rfl

theorem lrangeList_nil (start stop : ℤ) : lrangeList start stop [] = [] := by
  simp [lrangeList, normalizeRangeIndices]

theorem ne_nil_of_popEnd {side : ListEnd} {l rest : List Bytes} {v : Bytes}
    (h : popEnd side l = some (v, rest)) : l ≠ [] := by
  rintro rfl
  rw [popEnd_nil] at h
  cases h

section Edits

variable {S : Type} [LinearOrder S] {e : Env} {p : Set Effect} {key : Bytes} {d : Data S}

/-- A rewrite that leaves an empty list empty. -/
theorem Evolves.of_shrink {l l' : List Bytes} (h : l' ≠ [] → l ≠ []) :
    Evolves p (some (.list l)) (ValueData.list (S := S) l') :=
  .list _ l' fun hne => .inr ⟨l, rfl, h hne⟩

theorem Evolves.of_grow (h : .grow ∈ p) (old : Option (ValueData S)) (l : List Bytes) :
    Evolves p old (.list l) :=
  .list _ l fun _ => .inl h

theorem liveData_of_list {now : Instant} {en : ValueEntry S} {l : List Bytes}
    (h : live now d key = some en) (hl : Kind.list.get? en.data = some l) :
    liveData now d key = some (.list l) := by
  rw [liveData, h, Option.map_some, Kind.list.get?_eq_some.mp hl]
  rfl

namespace Store

theorem pushMoved_edits {ρ : Type} {w : ρ → Set Effect} {dst : Bytes} {side : ListEnd} {v : Bytes}
    {wrong : ρ} {moved : Bytes → ρ} (hw : .grow ∈ w (moved v)) :
    Edits e.now (w (pushMoved dst side v wrong moved d).2) d
      (pushMoved dst side v wrong moved d).1 := by
  unfold pushMoved
  split
  · exact .single (.write _ dst _ (.of_grow hw _ _))
  · split
    · exact .single (.write _ dst _ (.of_grow hw _ _))
    · exact .refl

theorem popMoved_edits {src dst : Bytes} {en : ValueEntry S} {l rest : List Bytes}
    (h : liveData e.now d src = some (.list l)) (hl : l ≠ []) :
    Edits e.now p d (popMoved src dst en rest d) := by
  unfold popMoved
  split
  · exact .single (.drop _ src)
  · exact write_edits (by rw [h]; exact .of_shrink fun _ => hl)

/-- A move has the effects that its reply accounts for. -/
theorem moveAs_edits {ρ : Type} {w : ρ → Set Effect} {src dst : Bytes} {srcFrom dstTo : ListEnd}
    {nil wrong : ρ} {moved : Bytes → ρ} (hw : ∀ v, .grow ∈ w (moved v)) :
    Edits e.now (w (moveAs e.now src dst srcFrom dstTo nil wrong moved d).2) d
      (moveAs e.now src dst srcFrom dstTo nil wrong moved d).1 := by
  have hd : ∀ p, Edits e.now p d (purgePair e.now src dst d) := fun p => purgePair_edits
  unfold moveAs
  dsimp only
  split
  · exact hd _
  · rename_i en hen
    split
    · exact hd _
    · rename_i l hl
      split
      · exact hd _
      · rename_i popped rest hpop
        split
        · exact hd _
        · have hen' : live e.now (purgePair e.now src dst d) src = some en := by
            rw [live_purgePair, ← getElem?_purgePair_src, hen]
          have hsrc := liveData_of_list hen' hl
          exact (hd _).trans
            ((popMoved_edits hsrc (ne_nil_of_popEnd hpop)).trans (pushMoved_edits (hw popped)))

theorem lmoveAtomic_edits {src dst : Bytes} {srcFrom dstTo : ListEnd} :
    Edits e.now (lmoveAtomic e src dst srcFrom dstTo d).2.2.effects d
      (lmoveAtomic e src dst srcFrom dstTo d).1 :=
  moveAs_edits (w := fun r : Except StoreError (Option Bytes) × Wake => r.2.effects)
    fun _ => Wake.grow_mem rfl

theorem pollAs_edits {side : ListEnd} {keys : List Bytes} :
    Edits e.now p d (pollAs side e keys d).1 := by
  induction keys generalizing d with
  | nil => exact .refl
  | cons k keys ih =>
    unfold pollAs
    dsimp only
    split
    · exact purge_edits.trans ih
    · rename_i en hen
      split
      · exact purge_edits
      · rename_i l hl
        split
        · exact purge_edits.trans ih
        · rename_i v rest hpop
          have hpurge : Edits e.now p d (purge e.now k d) := purge_edits
          refine hpurge.trans ?_
          dsimp only
          split
          · exact .single (.drop _ k)
          · have hk := liveData_of_list (live_of_getElem?_purge hen) hl
            refine write_edits ?_
            rw [liveData_purge, hk]
            exact .of_shrink fun _ => ne_nil_of_popEnd hpop

end Store

end Edits

end BurnerRedis
