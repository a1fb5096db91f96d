import BurnerRedis.Answers

/-!
# List commands in a script do what the store's methods do

A `ListCall` is a call of one of the thirteen list methods that scripts can reach too, and
`ListCall.Decodes` reads the arguments of the command of that name. The two implementations leave
the same data map and answer the same.
-/

namespace BurnerRedis

open Script (Shows)

/-! ## Calls -/

/-- A call of a list method, with its arguments. -/
inductive ListCall where
  | lpush (key : Bytes) (values : List Bytes)
  | rpush (key : Bytes) (values : List Bytes)
  | lpop (key : Bytes) (count : Option ℕ)
  | rpop (key : Bytes) (count : Option ℕ)
  | lrange (key : Bytes) (start stop : ℤ)
  | llen (key : Bytes)
  | lindex (key : Bytes) (index : ℤ)
  | linsert (key : Bytes) (position : InsertPosition) (pivot value : Bytes)
  | lrem (key : Bytes) (count : ℤ) (value : Bytes)
  | lset (key : Bytes) (index : ℤ) (value : Bytes)
  | ltrim (key : Bytes) (start stop : ℤ)
  | lmove (src dst : Bytes) (srcFrom dstTo : ListEnd)
  | rpoplpush (src dst : Bytes)

namespace ListCall

/-- The method at work. -/
def run {S : Type} [LinearOrder S] (e : Env) (d : Data S) :
    ListCall → Data S × Except StoreError (Answer S)
  | lpush key values => answerWaking .count (Store.lpush e key values d)
  | rpush key values => answerWaking .count (Store.rpush e key values d)
  | lpop key count => answer .popped (Store.lpop e key count d)
  | rpop key count => answer .popped (Store.rpop e key count d)
  | lrange key start stop => answer .values (Store.lrange e key start stop d)
  | llen key => answer .count (Store.llen e key d)
  | lindex key index => answer .value (Store.lindex e key index d)
  | linsert key position pivot value => answer .count (Store.linsert e key position pivot value d)
  | lrem key count value => answer .count (Store.lrem e key count value d)
  | lset key index value => answer (fun _ => .done) (Store.lset e key index value d)
  | ltrim key start stop => answer (fun _ => .done) (Store.ltrim e key start stop d)
  | lmove src dst srcFrom dstTo =>
    answerWaking .value (Store.lmoveAtomic e src dst srcFrom dstTo d)
  | rpoplpush src dst => answerWaking .value (Store.rpoplpushAtomic e src dst d)

/-- A pop takes one element, or as many as a number that is not negative says. -/
inductive DecodesCount : List Bytes → Option ℕ → Prop where
  | one : DecodesCount [] none
  | many {count : Bytes} {n : ℕ} (hn : parseI64 count = some (n : ℤ)) :
      DecodesCount [count] (some n)

/-- The arguments of a list command, and the call they stand for. -/
inductive Decodes : String → List Bytes → ListCall → Prop where
  | lpush (key value : Bytes) (values : List Bytes) :
      Decodes "LPUSH" (key :: value :: values) (lpush key (value :: values))
  | rpush (key value : Bytes) (values : List Bytes) :
      Decodes "RPUSH" (key :: value :: values) (rpush key (value :: values))
  | lpop (key : Bytes) {rest : List Bytes} {count : Option ℕ} (hc : DecodesCount rest count) :
      Decodes "LPOP" (key :: rest) (lpop key count)
  | rpop (key : Bytes) {rest : List Bytes} {count : Option ℕ} (hc : DecodesCount rest count) :
      Decodes "RPOP" (key :: rest) (rpop key count)
  | lrange (key : Bytes) {start stop : Bytes} {i j : ℤ} (hi : parseI64 start = some i)
      (hj : parseI64 stop = some j) : Decodes "LRANGE" [key, start, stop] (lrange key i j)
  | llen (key : Bytes) : Decodes "LLEN" [key] (llen key)
  | lindex (key : Bytes) {index : Bytes} {i : ℤ} (hi : parseI64 index = some i) :
      Decodes "LINDEX" [key, index] (lindex key i)
  | linsert (key pivot value : Bytes) {position : Bytes} {pos : InsertPosition}
      (hp : parseLinsertWhere (fromUtf8Lossy position) = .ok pos) :
      Decodes "LINSERT" [key, position, pivot, value] (linsert key pos pivot value)
  | lrem (key value : Bytes) {count : Bytes} {n : ℤ} (hn : parseI64 count = some n) :
      Decodes "LREM" [key, count, value] (lrem key n value)
  | lset (key value : Bytes) {index : Bytes} {i : ℤ} (hi : parseI64 index = some i) :
      Decodes "LSET" [key, index, value] (lset key i value)
  | ltrim (key : Bytes) {start stop : Bytes} {i j : ℤ} (hi : parseI64 start = some i)
      (hj : parseI64 stop = some j) : Decodes "LTRIM" [key, start, stop] (ltrim key i j)
  | lmove (src dst : Bytes) {srcFrom dstTo : Bytes} {a b : ListEnd}
      (ha : parseListEnd (fromUtf8Lossy srcFrom) = .ok a)
      (hb : parseListEnd (fromUtf8Lossy dstTo) = .ok b) :
      Decodes "LMOVE" [src, dst, srcFrom, dstTo] (lmove src dst a b)
  | rpoplpush (src dst : Bytes) : Decodes "RPOPLPUSH" [src, dst] (rpoplpush src dst)

end ListCall

/-! ## One command at a time -/

namespace Script

variable {S : Type} [Score S] {e : Env} {d : Data S} {key : Bytes}

theorem pushAs_matches (name arity : String) {side : ListEnd} {value : Bytes}
    {values : List Bytes} :
    Matches Eq Shows (pushAs name side e (key :: value :: values) d)
      (answerWaking .count (Store.pushAs side arity e key (value :: values) d)) := by
  simp only [pushAs, Store.pushAs, List.isEmpty_cons, Bool.false_eq_true, if_false]
  exact answerWaking_matches (upsertAs_matches .wrongType fun _ => ⟨rfl, .count _⟩)

theorem popCount_matches {side : ListEnd} {count : Option ℕ} :
    Matches Eq Shows (popCount side e key count d)
      (answer .popped (Store.popAs side e key count d)) := by
  refine answer_matches ?_
  unfold popCount Store.popAs
  split
  · exact readAs_matches (.popped .nil) .wrongType fun _ => .popped (.array [])
  · exact shrinkAs_matches (.popped .nil) .wrongType fun l => ⟨rfl, .popped _⟩

theorem popAs_matches (name : String) {side : ListEnd} {rest : List Bytes} {count : Option ℕ}
    (hc : ListCall.DecodesCount rest count) :
    Matches Eq Shows (popAs name side e (key :: rest) d)
      (answer .popped (Store.popAs side e key count d)) := by
  have hread : popAs name side e (key :: rest) d = popCount side e key count d := by
    cases hc with
    | one => rfl
    | @many count n hn =>
      have h0 : ¬ (n : ℤ) < 0 := by omega
      simp only [popAs, hn, if_neg h0, Int.toNat_natCast]
  rw [hread]
  exact popCount_matches

theorem lrange_matches {start stop : Bytes} {i j : ℤ} (hi : parseI64 start = some i)
    (hj : parseI64 stop = some j) :
    Matches Eq Shows (lrange e [key, start, stop] d)
      (answer .values (Store.lrange e key i j d)) := by
  simp only [lrange, hi, hj]
  exact answer_matches (readAs_matches (.values []) .wrongType fun _ => .values _)

theorem llen_matches :
    Matches Eq Shows (llen e [key] d) (answer .count (Store.llen e key d)) :=
  answer_matches (readAs_matches (.count 0) .wrongType fun _ => .count _)

theorem lindex_matches {index : Bytes} {i : ℤ} (hi : parseI64 index = some i) :
    Matches Eq Shows (lindex e [key, index] d) (answer .value (Store.lindex e key i d)) := by
  simp only [lindex, hi]
  exact answer_matches (readAs_matches (.value none) .wrongType fun _ => .value _)

theorem linsert_matches {position pivot value : Bytes} {pos : InsertPosition}
    (hp : parseLinsertWhere (fromUtf8Lossy position) = .ok pos) :
    Matches Eq Shows (linsert e [key, position, pivot, value] d)
      (answer .count (Store.linsert e key pos pivot value d)) := by
  simp only [linsert, hp]
  refine answer_matches (modifyAs_matches (.count 0) .wrongType fun l => ?_)
  cases l.findIdx? (· == pivot) with
  | none => exact ⟨rfl, .count (-1)⟩
  | some pos => exact ⟨rfl, .count _⟩

theorem lrem_matches {count value : Bytes} {n : ℤ} (hn : parseI64 count = some n) :
    Matches Eq Shows (lrem e [key, count, value] d)
      (answer .count (Store.lrem e key n value d)) := by
  simp only [lrem, hn]
  exact answer_matches (shrinkAs_matches (.count 0) .wrongType fun l => ⟨rfl, .count _⟩)

theorem lset_matches {index value : Bytes} {i : ℤ} (hi : parseI64 index = some i) :
    Matches Eq Shows (lset e [key, index, value] d)
      (answer (fun _ => .done) (Store.lset e key i value d)) := by
  simp only [lset, hi]
  refine answer_matches (modifyAs_matches (.error .noSuchKey) .wrongType fun l => ?_)
  cases elementIndex i l.length with
  | none => exact ⟨rfl, .error (.syntaxError "ERR index out of range")⟩
  | some n => exact ⟨rfl, .done⟩

theorem ltrim_matches {start stop : Bytes} {i j : ℤ} (hi : parseI64 start = some i)
    (hj : parseI64 stop = some j) :
    Matches Eq Shows (ltrim e [key, start, stop] d)
      (answer (fun _ => .done) (Store.ltrim e key i j d)) := by
  simp only [ltrim, hi, hj]
  exact answer_matches (shrinkAs_matches .done .wrongType fun _ => ⟨rfl, .done⟩)

theorem moved_matches {src dst : Bytes} {srcFrom dstTo : ListEnd} :
    Matches Eq Shows (Store.moveAs e.now src dst srcFrom dstTo (.ok .nil) wrongType bulk d)
      (answerWaking .value (Store.lmoveAtomic e src dst srcFrom dstTo d)) := by
  refine answerWaking_matches ?_
  exact Store.moveAs_matches (.value none) .wrongType fun v => .value (some v)

theorem lmove_matches {src dst srcFrom dstTo : Bytes} {a b : ListEnd}
    (ha : parseListEnd (fromUtf8Lossy srcFrom) = .ok a)
    (hb : parseListEnd (fromUtf8Lossy dstTo) = .ok b) :
    Matches Eq Shows (lmove e [src, dst, srcFrom, dstTo] d)
      (answerWaking .value (Store.lmoveAtomic e src dst a b d)) := by
  simp only [lmove, ha, hb]
  exact moved_matches

end Script

/-! ## All of them -/

section All

variable {S : Type} [Score S]

open Script

/-- A list command in a script leaves the data map as the store's method leaves it, and replies what
the method answers. -/
theorem list_command_matches (e : Env) (wall : UInt64) (walk : FinMap.WalkOrder) {cmd : String}
    {args : List Bytes} {call : ListCall} (h : ListCall.Decodes cmd args call) (d : Data S) :
    Matches Eq Shows (dispatchInner e cmd args d) (call.run ⟨e.now, wall, walk⟩ d) := by
  cases h with
  | lpush key value values => exact pushAs_matches "lpush" _
  | rpush key value values => exact pushAs_matches "rpush" _
  | lpop key hc => exact popAs_matches "lpop" hc
  | rpop key hc => exact popAs_matches "rpop" hc
  | lrange key hi hj => exact lrange_matches hi hj
  | llen key => exact llen_matches
  | lindex key hi => exact lindex_matches hi
  | linsert key pivot value hp => exact linsert_matches hp
  | lrem key value hn => exact lrem_matches hn
  | lset key value hi => exact lset_matches hi
  | ltrim key hi hj => exact ltrim_matches hi hj
  | lmove src dst ha hb => exact lmove_matches ha hb
  | rpoplpush src dst => exact moved_matches

/-- Two elements popped from a list of three, in a script and by the method. -/
theorem lpopTwo_matches :
    Matches Eq Shows
      (dispatchInner ⟨5, 0, .byKey⟩ "LPOP" [[107], ascii "2"]
        ((∅ : Data ℤ).insert [107] ⟨.list [[1], [2], [3]], some 9⟩))
      ((ListCall.lpop [107] (some 2)).run ⟨5, 0, .byKey⟩
        ((∅ : Data ℤ).insert [107] ⟨.list [[1], [2], [3]], some 9⟩)) :=
  list_command_matches ⟨5, 0, .byKey⟩ 0 .byKey (.lpop [107] (.many (by decide))) _

end All

end BurnerRedis
