import BurnerRedis.ListElements
import BurnerRedis.Script.Dispatch

/-!
# List elements are neither lost nor duplicated

The list commands of the store and of the scripts with the elements their replies speak of, and the
ledger of a run: the store, and beside it what successful pushes have taken in and what successful
pops have given out. Between the commands anything may happen that leaves the lists alone.
-/

namespace BurnerRedis

open Script (Reply)

/-! ## Commands -/

/-- The list commands a script can call. -/
inductive ListVerb where
  | lpush
  | rpush
  | lpop
  | rpop
  | lmove
  | rpoplpush

def ListVerb.name : ListVerb → String
  | .lpush => "LPUSH"
  | .rpush => "RPUSH"
  | .lpop => "LPOP"
  | .rpop => "RPOP"
  | .lmove => "LMOVE"
  | .rpoplpush => "RPOPLPUSH"

/-- One command on lists: a method of the store, or a call from a script. -/
inductive ListCommand where
  | lpush (key : Bytes) (values : List Bytes)
  | rpush (key : Bytes) (values : List Bytes)
  | lpop (key : Bytes) (count : Option ℕ)
  | rpop (key : Bytes) (count : Option ℕ)
  | lmoveAtomic (src dst : Bytes) (srcFrom dstTo : ListEnd)
  | rpoplpushAtomic (src dst : Bytes)
  | blpopPoll (keys : List Bytes)
  | brpopPoll (keys : List Bytes)
  | script (verb : ListVerb) (args : List Bytes)

/-! ## What the replies say -/

def pushTraffic (values : List Bytes) : Except StoreError ℤ → Traffic
  | .ok _ => .pushed values
  | .error _ => .idle

def popTraffic : Except StoreError LPopResult → Traffic
  | .ok r => .popped r.elements
  | .error _ => .idle

def moveTraffic : Except StoreError (Option Bytes) → Traffic
  | .ok (some v) => .moved v
  | _ => .idle

def pollTraffic : Except StoreError (Option (Bytes × Bytes)) → Traffic
  | .ok (some p) => .popped [p.2]
  | _ => .idle

/-- The element a reply is. -/
def bulkElement : RedisValue → Option Bytes
  | .bulkString v => some v
  | _ => none

/-- The elements in the reply to a pop from a script. -/
def replyElements : Reply → List Bytes
  | .ok (.bulkString v) => [v]
  | .ok (.array items) => items.filterMap bulkElement
  | _ => []

/-- What the reply to a call from a script says, the values of a push being all arguments after the
key. -/
def ListVerb.traffic (args : List Bytes) : ListVerb → Reply → Traffic
  | .lpush, .ok (.integer _) => .pushed args.tail
  | .rpush, .ok (.integer _) => .pushed args.tail
  | .lpop, r => .popped (replyElements r)
  | .rpop, r => .popped (replyElements r)
  | .lmove, .ok (.bulkString v) => .moved v
  | .rpoplpush, .ok (.bulkString v) => .moved v
  | _, _ => .idle

/-- The move asked for, where it is one. -/
def ListCommand.move? : ListCommand → Option ElementMove
  | .lmoveAtomic src dst srcFrom dstTo => some ⟨src, dst, srcFrom, dstTo⟩
  | .rpoplpushAtomic src dst => some ⟨src, dst, .right, .left⟩
  | .script .lmove [src, dst, srcFrom, dstTo] =>
    match parseListEnd (fromUtf8Lossy srcFrom), parseListEnd (fromUtf8Lossy dstTo) with
    | .ok srcFrom, .ok dstTo => some ⟨src, dst, srcFrom, dstTo⟩
    | _, _ => none
  | .script .rpoplpush [src, dst] => some ⟨src, dst, .right, .left⟩
  | _ => none

section Run

variable {S : Type} [Score S]

/-- The data after a command, and what its reply says. -/
def ListCommand.run (e : Env) (d : Data S) : ListCommand → Data S × Traffic
  | .lpush key values =>
    ((Store.lpush e key values d).1, pushTraffic values (Store.lpush e key values d).2.1)
  | .rpush key values =>
    ((Store.rpush e key values d).1, pushTraffic values (Store.rpush e key values d).2.1)
  | .lpop key count => ((Store.lpop e key count d).1, popTraffic (Store.lpop e key count d).2)
  | .rpop key count => ((Store.rpop e key count d).1, popTraffic (Store.rpop e key count d).2)
  | .lmoveAtomic src dst srcFrom dstTo =>
    ((Store.lmoveAtomic e src dst srcFrom dstTo d).1,
      moveTraffic (Store.lmoveAtomic e src dst srcFrom dstTo d).2.1)
  | .rpoplpushAtomic src dst =>
    ((Store.rpoplpushAtomic e src dst d).1, moveTraffic (Store.rpoplpushAtomic e src dst d).2.1)
  | .blpopPoll keys => ((Store.blpopPoll e keys d).1, pollTraffic (Store.blpopPoll e keys d).2)
  | .brpopPoll keys => ((Store.brpopPoll e keys d).1, pollTraffic (Store.brpopPoll e keys d).2)
  | .script verb args =>
    ((Script.dispatchInner e verb.name args d).1,
      verb.traffic args (Script.dispatchInner e verb.name args d).2)

variable {e : Env} {d : Data S}

/-! ## One command -/

theorem pushAs_change {side : ListEnd} {arity : String} {key : Bytes} {values : List Bytes} :
    Change (listAt e.now d) (listAt e.now (Store.pushAs side arity e key values d).1)
      (pushTraffic values (Store.pushAs side arity e key values d).2.1) := by
  unfold Store.pushAs
  split
  · exact .idle
  · apply upsertAs_change (t := fun r : Except StoreError ℤ × Wake => pushTraffic values r.1)
    · rfl
    · exact fun l => ⟨rfl, rfl⟩

theorem popAs_change {side : ListEnd} {key : Bytes} {count : Option ℕ} :
    Change (listAt e.now d) (listAt e.now (Store.popAs side e key count d).1)
      (popTraffic (Store.popAs side e key count d).2) := by
  unfold Store.popAs
  split
  · exact readAs_change rfl (.inl rfl) fun l => rfl
  · exact shrinkAs_change rfl (.inl rfl) fun l => ⟨_, coe_popList side count l, rfl⟩

theorem pollAs_change {side : ListEnd} {keys : List Bytes} :
    Change (listAt e.now d) (listAt e.now (Store.pollAs side e keys d).1)
      (pollTraffic (Store.pollAs side e keys d).2) := by
  rcases Store.pollAs_list e side keys d with ⟨hl, hr⟩ | ⟨k, v, rest, hr, hp, hl⟩
  · rw [hl]
    cases h : (Store.pollAs side e keys d).2 with
    | error err => exact .idle
    | ok r =>
      cases r with
      | none => exact .idle
      | some p => exact absurd h (hr p)
  · rw [hl, hr]
    apply Change.popped
    rw [coe_of_popEnd hp, Multiset.coe_singleton, Multiset.singleton_add]

/-- A move reports the element it has moved, or else nothing has changed. -/
theorem moveAs_change {ρ : Type} {t : ρ → Traffic} (nil wrong : ρ) (moved : Bytes → ρ)
    (m : ElementMove) (hn : t nil = .idle) (hw : t wrong = .idle) (hm : ∀ v, t (moved v) = .moved v) :
    Change (listAt e.now d)
        (listAt e.now (Store.moveAs e.now m.src m.dst m.srcFrom m.dstTo nil wrong moved d).1)
        (t (Store.moveAs e.now m.src m.dst m.srcFrom m.dstTo nil wrong moved d).2) ∨
      ∃ v, t (Store.moveAs e.now m.src m.dst m.srcFrom m.dstTo nil wrong moved d).2 = .moved v ∧
        m.Moves v (listAt e.now d)
          (listAt e.now (Store.moveAs e.now m.src m.dst m.srcFrom m.dstTo nil wrong moved d).1) := by
  rcases Store.moveAs_list e.now d m nil wrong moved with ⟨hl, hr⟩ | ⟨v, hr, hmove⟩
  · left
    rw [hl]
    rcases hr with hr | hr
    · rw [hr, hn]
      exact .idle
    · rw [hr, hw]
      exact .idle
  · right
    exact ⟨v, by rw [hr, hm], hmove⟩

theorem filterMap_bulkElement (l : List Bytes) :
    (l.map RedisValue.bulkString).filterMap bulkElement = l := by
  rw [List.filterMap_map]
  exact List.filterMap_some

theorem replyElements_popReply (r : LPopResult) :
    replyElements (Script.popReply r) = r.elements := by
  cases r with
  | nil => rfl
  | single v => rfl
  | array vs => exact filterMap_bulkElement vs

theorem popCount_change {side : ListEnd} {key : Bytes} {count : Option ℕ} :
    Change (listAt e.now d) (listAt e.now (Script.popCount side e key count d).1)
      (.popped (replyElements (Script.popCount side e key count d).2)) := by
  unfold Script.popCount
  split
  · exact readAs_change (t := fun r => .popped (replyElements r)) rfl (.inr rfl) fun _ => rfl
  · apply shrinkAs_change (t := fun r => .popped (replyElements r)) rfl (.inr rfl)
    intro l
    refine ⟨_, coe_popList side count l, ?_⟩
    rw [replyElements_popReply]

theorem script_popAs_change {name : String} {side : ListEnd} {args : List Bytes} :
    Change (listAt e.now d) (listAt e.now (Script.popAs name side e args d).1)
      (.popped (replyElements (Script.popAs name side e args d).2)) := by
  unfold Script.popAs
  split
  · exact popCount_change
  · split
    · exact .popped_nil _
    · split
      · exact .popped_nil _
      · exact popCount_change
  · exact .popped_nil _

theorem script_pushAs_change {name : String} {side : ListEnd} {args : List Bytes}
    {t : Reply → Traffic} (hi : ∀ n, t (Script.integer n) = .pushed args.tail)
    (he : ∀ m, t (.ok (.error m)) = .idle) :
    Change (listAt e.now d) (listAt e.now (Script.pushAs name side e args d).1)
      (t (Script.pushAs name side e args d).2) := by
  unfold Script.pushAs
  split
  · exact upsertAs_change (he _) fun l => ⟨rfl, hi _⟩
  · show Change (listAt e.now d) (listAt e.now d) (t (.ok (.error _)))
    rw [he]
    exact .idle

theorem lmove_change {args : List Bytes} :
    Change (listAt e.now d) (listAt e.now (Script.lmove e args d).1)
        (ListVerb.lmove.traffic args (Script.lmove e args d).2) ∨
      ∃ m v, (ListCommand.script .lmove args).move? = some m ∧
        ListVerb.lmove.traffic args (Script.lmove e args d).2 = .moved v ∧
        m.Moves v (listAt e.now d) (listAt e.now (Script.lmove e args d).1) := by
  unfold Script.lmove
  split
  · rename_i src dst srcFrom dstTo
    cases hfrom : parseListEnd (fromUtf8Lossy srcFrom) with
    | error err => left; exact .idle
    | ok a =>
      cases hto : parseListEnd (fromUtf8Lossy dstTo) with
      | error err => left; exact .idle
      | ok b =>
        have hm := moveAs_change (e := e) (d := d)
          (t := ListVerb.lmove.traffic [src, dst, srcFrom, dstTo])
          (.ok .nil) Script.wrongType Script.bulk ⟨src, dst, a, b⟩ rfl rfl fun _ => rfl
        refine hm.imp_right fun ⟨v, hv, hmove⟩ => ⟨⟨src, dst, a, b⟩, v, ?_, hv, hmove⟩
        rw [ListCommand.move?, hfrom, hto]
  · left; exact .idle

theorem rpoplpush_change {args : List Bytes} :
    Change (listAt e.now d) (listAt e.now (Script.rpoplpush e args d).1)
        (ListVerb.rpoplpush.traffic args (Script.rpoplpush e args d).2) ∨
      ∃ m v, (ListCommand.script .rpoplpush args).move? = some m ∧
        ListVerb.rpoplpush.traffic args (Script.rpoplpush e args d).2 = .moved v ∧
        m.Moves v (listAt e.now d) (listAt e.now (Script.rpoplpush e args d).1) := by
  unfold Script.rpoplpush
  split
  · rename_i src dst
    have hm := moveAs_change (e := e) (d := d) (t := ListVerb.rpoplpush.traffic [src, dst])
      (.ok .nil) Script.wrongType Script.bulk ⟨src, dst, .right, .left⟩ rfl rfl fun _ => rfl
    exact hm.imp_right fun ⟨v, hv, hmove⟩ => ⟨_, v, rfl, hv, hmove⟩
  · left; exact .idle

theorem lmoveAtomic_change (m : ElementMove) :
    Change (listAt e.now d)
        (listAt e.now (Store.lmoveAtomic e m.src m.dst m.srcFrom m.dstTo d).1)
        (moveTraffic (Store.lmoveAtomic e m.src m.dst m.srcFrom m.dstTo d).2.1) ∨
      ∃ v, moveTraffic (Store.lmoveAtomic e m.src m.dst m.srcFrom m.dstTo d).2.1 = .moved v ∧
        m.Moves v (listAt e.now d)
          (listAt e.now (Store.lmoveAtomic e m.src m.dst m.srcFrom m.dstTo d).1) :=
  moveAs_change (t := fun r : Except StoreError (Option Bytes) × Wake => moveTraffic r.1) _ _ _ m rfl
    rfl fun _ => rfl

/-- One command does to the lists what its reply says. -/
theorem ListCommand.change (c : ListCommand) :
    Change (listAt e.now d) (listAt e.now (c.run e d).1) (c.run e d).2 ∨
      ∃ m v, c.move? = some m ∧ (c.run e d).2 = .moved v ∧
        m.Moves v (listAt e.now d) (listAt e.now (c.run e d).1) := by
  cases c with
  | lpush key values => left; exact pushAs_change
  | rpush key values => left; exact pushAs_change
  | lpop key count => left; exact popAs_change
  | rpop key count => left; exact popAs_change
  | lmoveAtomic src dst srcFrom dstTo =>
    refine (lmoveAtomic_change ⟨src, dst, srcFrom, dstTo⟩).imp_right ?_
    exact fun ⟨v, hv, hmove⟩ => ⟨_, v, rfl, hv, hmove⟩
  | rpoplpushAtomic src dst =>
    refine (lmoveAtomic_change ⟨src, dst, .right, .left⟩).imp_right ?_
    exact fun ⟨v, hv, hmove⟩ => ⟨_, v, rfl, hv, hmove⟩
  | blpopPoll keys => left; exact pollAs_change
  | brpopPoll keys => left; exact pollAs_change
  | script verb args =>
    cases verb with
    | lpush =>
      left
      exact script_pushAs_change (t := ListVerb.lpush.traffic args) (fun _ => rfl) fun _ => rfl
    | rpush =>
      left
      exact script_pushAs_change (t := ListVerb.rpush.traffic args) (fun _ => rfl) fun _ => rfl
    | lpop => left; exact script_popAs_change
    | rpop => left; exact script_popAs_change
    | lmove => exact lmove_change
    | rpoplpush => exact rpoplpush_change

/-! ## Runs -/

/-- A store, and what pushes have brought to it and pops have taken from it so far. -/
structure Ledger (S : Type) [LinearOrder S] where
  now : Instant
  data : Data S
  pushed : Multiset Bytes
  popped : Multiset Bytes

namespace Ledger

/-- An empty store. -/
def start (now : Instant) : Ledger S := ⟨now, ∅, 0, 0⟩

/-- The ledger after a command of some client. -/
def command (g : Ledger S) (c : ListCommand) (wall : UInt64) (walk : FinMap.WalkOrder) : Ledger S :=
  let r := c.run ⟨g.now, wall, walk⟩ g.data
  ⟨g.now, r.1, g.pushed + r.2.taken, g.popped + r.2.given⟩

/-- One step of a run. Other commands, the sweep and the clock may do to the store whatever leaves
every list as it is: they delete, overwrite and expire other keys only. -/
inductive Step (g : Ledger S) : Ledger S → Prop
  | command (c : ListCommand) (wall : UInt64) (walk : FinMap.WalkOrder) :
      Step g (g.command c wall walk)
  | other (now : Instant) (data : Data S) (h : listAt now data = listAt g.now g.data) :
      Step g { g with now := now, data := data }

/-- The ledgers of the runs from an empty store. -/
inductive Reachable : Ledger S → Prop
  | start (now : Instant) : Reachable (start now)
  | step {g g' : Ledger S} (h : Reachable g) (hs : Step g g') : Reachable g'

/-- Everything pushed has been popped or is still there. -/
def Balanced (g : Ledger S) : Prop := g.pushed = g.popped + elements g.now g.data

theorem balanced_command {g : Ledger S} (hg : g.Balanced) (c : ListCommand) (wall : UInt64)
    (walk : FinMap.WalkOrder) : (g.command c wall walk).Balanced := by
  show g.pushed + (c.run ⟨g.now, wall, walk⟩ g.data).2.taken =
    g.popped + (c.run ⟨g.now, wall, walk⟩ g.data).2.given +
      elements g.now (c.run ⟨g.now, wall, walk⟩ g.data).1
  have hg' : g.pushed = g.popped + elements g.now g.data := hg
  rcases c.change (e := ⟨g.now, wall, walk⟩) (d := g.data) with hc | ⟨m, v, -, ht, hmove⟩
  · have hb := hc.balance
    dsimp only at hb
    rw [hg', add_assoc, ← hb, add_assoc, add_comm (Traffic.given _)]
  · have hm := hmove.elements_eq
    dsimp only at hm
    rw [ht, hm, hg']
    show g.popped + elements g.now g.data + 0 = g.popped + 0 + elements g.now g.data
    rw [add_zero, add_zero]

theorem Step.balanced {g g' : Ledger S} (hs : Step g g') (hg : g.Balanced) : g'.Balanced := by
  cases hs with
  | command c wall walk => exact balanced_command hg c wall walk
  | other now data h =>
    show g.pushed = g.popped + elements now data
    rw [elements_congr h]
    exact hg

theorem Reachable.balanced {g : Ledger S} (h : Reachable g) : g.Balanced := by
  induction h with
  | start now =>
    show (0 : Multiset Bytes) = 0 + elements now (∅ : Data S)
    have he : elements now (∅ : Data S) = 0 := by
      rw [elements, Std.ExtTreeMap.keys_eq_nil_iff.mpr rfl]
      rfl
    rw [he, add_zero]
  | step _ hs ih => exact hs.balanced ih

end Ledger

end Run

/-- In every run of list commands from an empty store, what successful pushes have brought is what
successful pops have returned and what is in the lists; a move that returns an element has moved it,
and all elements are still there. -/
theorem list_elements_conserved {S : Type} [Score S] {g : Ledger S} (h : g.Reachable) :
    g.pushed = g.popped + elements g.now g.data ∧
      ∀ (c : ListCommand) (wall : UInt64) (walk : FinMap.WalkOrder) (v : Bytes),
        (c.run ⟨g.now, wall, walk⟩ g.data).2 = .moved v →
          (∃ m, c.move? = some m ∧ m.Moves v (listAt g.now g.data)
            (listAt g.now (c.run ⟨g.now, wall, walk⟩ g.data).1)) ∧
          elements g.now (c.run ⟨g.now, wall, walk⟩ g.data).1 = elements g.now g.data := by
  refine ⟨h.balanced, fun c wall walk v hv => ?_⟩
  rcases c.change (e := ⟨g.now, wall, walk⟩) (d := g.data) with hc | ⟨m, w, hm, hw, hmove⟩
  · rw [hv] at hc
    exact absurd hc Change.not_moved
  · rw [hv, Traffic.moved.injEq] at hw
    subst hw
    exact ⟨⟨m, hm, hmove⟩, hmove.elements_eq⟩

/-- A queue that has been filled, turned by one, and popped from. -/
def turnedQueue : Ledger ℤ :=
  (((Ledger.start 0).command (.rpush [113] [[1], [2]]) 0 .byKey).command
    (.script .lmove [[113], [113], ascii "left", ascii "RIGHT"]) 0 .byKey).command
      (.lpop [113] none) 0 .byKey

theorem turnedQueue_reachable : turnedQueue.Reachable :=
  .step (.step (.step (.start 0) (.command ..)) (.command ..)) (.command ..)

theorem turnedQueue_conserved :
    turnedQueue.pushed = {[1], [2]} ∧ turnedQueue.popped = {[2]} ∧
      turnedQueue.pushed = turnedQueue.popped + elements turnedQueue.now turnedQueue.data :=
  ⟨by decide +kernel, by decide +kernel, (list_elements_conserved turnedQueue_reachable).1⟩

end BurnerRedis
