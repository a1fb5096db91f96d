import BurnerRedis.Lib.Deque
import BurnerRedis.ListConservation

/-!
# Lists as queues

What the replies of list commands report, in order, is what happens at the ends of the lists: each
list is a double-ended queue (`ListCommand.acts`). So a chain of lists that is filled with RPUSH,
handed on with LMOVE LEFT RIGHT and emptied with LPOP, BLPOP or their forms in scripts keeps the order
of its elements, whatever other clients do to other keys (`queues_hand_on_in_order`).
-/

namespace BurnerRedis

open Function (update)

/-! ## Reports -/

def ListEnd.toEnd : ListEnd → Deque.End
  | .left => .front
  | .right => .back

/-- Something a reply reports of a list. -/
abbrev Report : Type := Deque.Op Bytes Bytes

def pushReports (key : Bytes) (side : ListEnd) (values : List Bytes) :
    Except StoreError ℤ → List Report
  | .ok _ => values.map (.push key side.toEnd)
  | .error _ => []

def popReports (key : Bytes) (side : ListEnd) : Except StoreError LPopResult → List Report
  | .ok r => r.elements.map (.pop key side.toEnd)
  | .error _ => []

def ElementMove.report (m : ElementMove) (v : Bytes) : Report :=
  .move m.src m.srcFrom.toEnd m.dst m.dstTo.toEnd v

def moveReports (m : ElementMove) : Except StoreError (Option Bytes) → List Report
  | .ok (some v) => [m.report v]
  | _ => []

def pollReports (side : ListEnd) : Except StoreError (Option (Bytes × Bytes)) → List Report
  | .ok (some p) => [.pop p.1 side.toEnd p.2]
  | _ => []

/-- The reports in the reply to a call from a script. -/
def ListVerb.reports (args : List Bytes) (verb : ListVerb) (r : Script.Reply) : List Report :=
  match verb, args, r with
  | .lpush, key :: values, .ok (.integer _) => values.map (.push key .front)
  | .rpush, key :: values, .ok (.integer _) => values.map (.push key .back)
  | .lpop, key :: _, r => (replyElements r).map (.pop key .front)
  | .rpop, key :: _, r => (replyElements r).map (.pop key .back)
  | .lmove, args, .ok (.bulkString v) =>
    ((ListCommand.script .lmove args).move?.map fun m => m.report v).toList
  | .rpoplpush, args, .ok (.bulkString v) =>
    ((ListCommand.script .rpoplpush args).move?.map fun m => m.report v).toList
  | _, _, _ => []

section Reports

variable {S : Type} [Score S]

/-- What the reply to a command reports. -/
def ListCommand.reports (e : Env) (d : Data S) : ListCommand → List Report
  | .lpush key values => pushReports key .left values (Store.lpush e key values d).2.1
  | .rpush key values => pushReports key .right values (Store.rpush e key values d).2.1
  | .lpop key count => popReports key .left (Store.lpop e key count d).2
  | .rpop key count => popReports key .right (Store.rpop e key count d).2
  | .lmoveAtomic src dst srcFrom dstTo =>
    moveReports ⟨src, dst, srcFrom, dstTo⟩ (Store.lmoveAtomic e src dst srcFrom dstTo d).2.1
  | .rpoplpushAtomic src dst =>
    moveReports ⟨src, dst, .right, .left⟩ (Store.rpoplpushAtomic e src dst d).2.1
  | .blpopPoll keys => pollReports .left (Store.blpopPoll e keys d).2
  | .brpopPoll keys => pollReports .right (Store.brpopPoll e keys d).2
  | .script verb args => verb.reports args (Script.dispatchInner e verb.name args d).2

end Reports

/-! ## Ends of lists -/

section Ends

variable {f : Bytes → List Bytes} {key : Bytes} {side : ListEnd}

theorem pushEnd_eq (side : ListEnd) (v : Bytes) (l : List Bytes) :
    pushEnd side v l = Deque.push side.toEnd v l := by
  cases side <;> rfl

theorem eq_push_of_popEnd {l rest : List Bytes} {v : Bytes} (h : popEnd side l = some (v, rest)) :
    l = Deque.push side.toEnd v rest := by
  cases side with
  | left =>
    obtain ⟨w, hw, he⟩ := Option.map_eq_some_iff.mp h
    cases he
    exact (List.cons_head?_tail hw).symm
  | right =>
    obtain ⟨w, hw, he⟩ := Option.map_eq_some_iff.mp h
    cases he
    exact (List.dropLast_append_getLast? v hw).symm

theorem run_pushes (key : Bytes) (side : ListEnd) (vs : List Bytes) (f : Bytes → List Bytes) :
    Deque.Run f (vs.map (.push key side.toEnd))
      (update f key (vs.foldl (fun l v => pushEnd side v l) (f key))) := by
  simp only [pushEnd_eq]
  exact .pushes key side.toEnd vs f

/-- Pops, one after the other. -/
theorem run_popMany (n : ℕ) (f : Bytes → List Bytes) :
    Deque.Run f ((popMany side n (f key)).1.map (.pop key side.toEnd))
      (update f key (popMany side n (f key)).2) := by
  have hidle : Deque.Run f [] (update f key (f key)) := by
    rw [Function.update_eq_self]
    exact .nil f
  induction n generalizing f with
  | zero => exact hidle
  | succ n ih =>
    unfold popMany
    cases hp : popEnd side (f key) with
    | none => exact hidle
    | some p =>
      have hrest := ih (update f key p.2) (by rw [Function.update_eq_self]; exact .nil _)
      rw [Function.update_self, Function.update_idem] at hrest
      exact .cons (.pop key side.toEnd p.1 p.2 (eq_push_of_popEnd hp)) hrest

theorem run_popList (count : Option ℕ) (f : Bytes → List Bytes) :
    Deque.Run f ((popList side count (f key)).2.elements.map (.pop key side.toEnd))
      (update f key (popList side count (f key)).1) := by
  cases count with
  | some n => exact run_popMany n f
  | none =>
    unfold popList
    cases hp : popEnd side (f key) with
    | none =>
      dsimp only
      rw [Function.update_eq_self]
      exact .nil f
    | some p => exact .single (.pop key side.toEnd p.1 p.2 (eq_push_of_popEnd hp))

theorem ElementMove.Moves.run {m : ElementMove} {v : Bytes} {g : Bytes → List Bytes}
    (h : m.Moves v f g) : Deque.Run f [m.report v] g := by
  obtain ⟨rest, hpop, rfl⟩ := h
  rw [pushEnd_eq]
  exact .single (.move m.src m.srcFrom.toEnd m.dst m.dstTo.toEnd v rest (eq_push_of_popEnd hpop))

end Ends

/-! ## Shapes of commands -/

section Shapes

variable {S ρ : Type} [LinearOrder S] {now : Instant} {d : Data S} {key : Bytes} {absent wrong : ρ}
  {side : ListEnd}

theorem upsertAs_run {t : ρ → List Report} {f : List Bytes → List Bytes × ρ} {vs : List Bytes}
    (hw : t wrong = [])
    (hf : ∀ l, (f l).1 = vs.foldl (fun l v => pushEnd side v l) l ∧
      t (f l).2 = vs.map (.push key side.toEnd)) :
    Deque.Run (listAt now d) (t (upsertAs .list now key [] wrong f d).2)
      (listAt now (upsertAs .list now key [] wrong f d).1) := by
  have hrun := run_pushes key side vs (listAt now d)
  cases look .list now key d with
  | absent h =>
    obtain ⟨hl, hr⟩ := hf []
    rw [upsertAs_absent h, hr, hl, show Kind.list.wrap _ = ValueData.list _ from rfl,
      listAt_insert rfl]
    rwa [listAt_of_none h] at hrun
  | wrong en h hd =>
    rw [upsertAs_wrong h hd, hw, listAt_purge]
    exact .nil _
  | found l exp h =>
    obtain ⟨hl, hr⟩ := hf l
    rw [upsertAs_found h, hr, hl, show Kind.list.wrap _ = ValueData.list _ from rfl,
      listAt_insert (isExpired_of_live h _)]
    rwa [listAt_of_list h] at hrun

theorem shrinkAs_run {t : ρ → List Report} {f : List Bytes → List Bytes × ρ} (count : Option ℕ)
    (ha : t absent = []) (hw : t wrong = [])
    (hf : ∀ l, (f l).1 = (popList side count l).1 ∧
      t (f l).2 = (popList side count l).2.elements.map (.pop key side.toEnd)) :
    Deque.Run (listAt now d) (t (shrinkAs now key absent wrong f d).2)
      (listAt now (shrinkAs now key absent wrong f d).1) := by
  cases look Kind.list now key d with
  | absent h =>
    rw [shrinkAs_absent h, ha, listAt_purge]
    exact .nil _
  | wrong en h hd =>
    rw [shrinkAs_wrong h hd, hw, listAt_purge]
    exact .nil _
  | found l exp h =>
    obtain ⟨hl, hr⟩ := hf l
    have hrun : Deque.Run (listAt now d)
        ((popList side count (listAt now d key)).2.elements.map (.pop key side.toEnd)) _ :=
      run_popList count (listAt now d)
    rw [listAt_of_list h] at hrun
    rwa [shrinkAs_found h, hr, listAt_shrunk (isExpired_of_live h _), hl]

/-- A pop of no elements. -/
theorem readAs_run {t : ρ → List Report} {f : List Bytes → ρ} (ha : t absent = [])
    (hw : t wrong = []) (hf : ∀ l, t (f l) = []) :
    Deque.Run (listAt now d) (t (readAs .list now key absent wrong f d).2)
      (listAt now (readAs .list now key absent wrong f d).1) := by
  rw [show (readAs .list now key absent wrong f d).1 = purge now key d from rfl, listAt_purge]
  have hnone : t (readAs .list now key absent wrong f d).2 = [] := by
    cases look Kind.list now key d with
    | absent h => rw [readAs_absent h, ha]
    | wrong en h hd => rw [readAs_wrong h hd, hw]
    | found l exp h => rw [readAs_found h, hf l]
  rw [hnone]
  exact .nil _

theorem moveAs_run {t : ρ → List Report} (nil wrong : ρ) (moved : Bytes → ρ) (m : ElementMove)
    (hn : t nil = []) (hw : t wrong = []) (hm : ∀ v, t (moved v) = [m.report v]) :
    Deque.Run (listAt now d)
      (t (Store.moveAs now m.src m.dst m.srcFrom m.dstTo nil wrong moved d).2)
      (listAt now (Store.moveAs now m.src m.dst m.srcFrom m.dstTo nil wrong moved d).1) := by
  rcases Store.moveAs_list now d m nil wrong moved with ⟨hl, hr⟩ | ⟨v, hr, hmove⟩
  · have hnone : t (Store.moveAs now m.src m.dst m.srcFrom m.dstTo nil wrong moved d).2 = [] := by
      rcases hr with hr | hr
      · rw [hr, hn]
      · rw [hr, hw]
    rw [hl, hnone]
    exact .nil _
  · rw [hr, hm]
    exact hmove.run

end Shapes

/-! ## One command -/

section Commands

variable {S : Type} [Score S] {e : Env} {d : Data S} {side : ListEnd}

theorem pushAs_run {arity : String} {key : Bytes} {values : List Bytes} :
    Deque.Run (listAt e.now d)
      (pushReports key side values (Store.pushAs side arity e key values d).2.1)
      (listAt e.now (Store.pushAs side arity e key values d).1) := by
  unfold Store.pushAs
  split
  · exact .nil _
  · exact upsertAs_run (t := fun r : Except StoreError ℤ × Wake => pushReports key side values r.1)
      rfl fun l => ⟨rfl, rfl⟩

theorem popAs_run {key : Bytes} {count : Option ℕ} :
    Deque.Run (listAt e.now d) (popReports key side (Store.popAs side e key count d).2)
      (listAt e.now (Store.popAs side e key count d).1) := by
  unfold Store.popAs
  split
  · exact readAs_run rfl rfl fun l => rfl
  · exact shrinkAs_run _ rfl rfl fun l => ⟨rfl, rfl⟩

theorem pollAs_run {keys : List Bytes} :
    Deque.Run (listAt e.now d) (pollReports side (Store.pollAs side e keys d).2)
      (listAt e.now (Store.pollAs side e keys d).1) := by
  rcases Store.pollAs_list e side keys d with ⟨hl, hr⟩ | ⟨k, v, rest, hr, hp, hl⟩
  · rw [hl]
    cases h : (Store.pollAs side e keys d).2 with
    | error err => exact .nil _
    | ok r => cases r with
      | none => exact .nil _
      | some p => exact absurd h (hr p)
  · rw [hl, hr]
    exact .single (.pop k side.toEnd v rest (eq_push_of_popEnd hp))

theorem lmoveAtomic_run (m : ElementMove) :
    Deque.Run (listAt e.now d)
      (moveReports m (Store.lmoveAtomic e m.src m.dst m.srcFrom m.dstTo d).2.1)
      (listAt e.now (Store.lmoveAtomic e m.src m.dst m.srcFrom m.dstTo d).1) :=
  moveAs_run (t := fun r : Except StoreError (Option Bytes) × Wake => moveReports m r.1) _ _ _ m rfl
    rfl fun _ => rfl

/-! ### From scripts -/

theorem popCount_run {key : Bytes} {count : Option ℕ} :
    Deque.Run (listAt e.now d)
      ((replyElements (Script.popCount side e key count d).2).map (.pop key side.toEnd))
      (listAt e.now (Script.popCount side e key count d).1) := by
  unfold Script.popCount
  split
  · exact readAs_run (t := fun r => (replyElements r).map (.pop key side.toEnd)) rfl rfl fun _ => rfl
  · refine shrinkAs_run (t := fun r => (replyElements r).map (.pop key side.toEnd)) count rfl rfl
      fun l => ⟨rfl, ?_⟩
    dsimp only
    rw [replyElements_popReply]

theorem script_popAs_run {name : String} {args : List Bytes} {t : Script.Reply → List Report}
    (ht : ∀ key rest, args = key :: rest → ∀ r, t r = (replyElements r).map (.pop key side.toEnd))
    (hnil : ∀ r, replyElements r = [] → t r = []) :
    Deque.Run (listAt e.now d) (t (Script.popAs name side e args d).2)
      (listAt e.now (Script.popAs name side e args d).1) := by
  unfold Script.popAs
  split
  · rw [ht _ _ rfl]
    exact popCount_run
  · split
    · rw [hnil _ rfl]
      exact .nil _
    · split
      · rw [hnil _ rfl]
        exact .nil _
      · rw [ht _ _ rfl]
        exact popCount_run
  · rw [hnil _ rfl]
    exact .nil _

theorem script_pushAs_run {name : String} {args : List Bytes} {t : Script.Reply → List Report}
    (hi : ∀ key values n, args = key :: values →
      t (Script.integer n) = values.map (.push key side.toEnd))
    (he : ∀ m, t (.ok (.error m)) = []) :
    Deque.Run (listAt e.now d) (t (Script.pushAs name side e args d).2)
      (listAt e.now (Script.pushAs name side e args d).1) := by
  unfold Script.pushAs
  split
  · exact upsertAs_run (he _) fun l => ⟨rfl, hi _ _ _ rfl⟩
  · show Deque.Run (listAt e.now d) (t (.ok (.error _))) (listAt e.now d)
    rw [he]
    exact .nil _

theorem lmove_run {args : List Bytes} :
    Deque.Run (listAt e.now d) (ListVerb.lmove.reports args (Script.lmove e args d).2)
      (listAt e.now (Script.lmove e args d).1) := by
  unfold Script.lmove
  split
  · rename_i src dst srcFrom dstTo
    cases hfrom : parseListEnd (fromUtf8Lossy srcFrom) with
    | error err => exact .nil _
    | ok a => cases hto : parseListEnd (fromUtf8Lossy dstTo) with
      | error err => exact .nil _
      | ok b =>
        have hreport : ∀ v, ListVerb.lmove.reports [src, dst, srcFrom, dstTo] (Script.bulk v) =
            [ElementMove.report ⟨src, dst, a, b⟩ v] := by
          intro v
          simp only [ListVerb.reports, Script.bulk, ListCommand.move?, hfrom, hto]
          rfl
        exact moveAs_run (t := ListVerb.lmove.reports [src, dst, srcFrom, dstTo]) (.ok .nil)
          Script.wrongType Script.bulk ⟨src, dst, a, b⟩ rfl rfl hreport
  · exact .nil _

theorem rpoplpush_run {args : List Bytes} :
    Deque.Run (listAt e.now d) (ListVerb.rpoplpush.reports args (Script.rpoplpush e args d).2)
      (listAt e.now (Script.rpoplpush e args d).1) := by
  unfold Script.rpoplpush
  split
  · rename_i src dst
    exact moveAs_run (t := ListVerb.rpoplpush.reports [src, dst]) (.ok .nil) Script.wrongType
      Script.bulk ⟨src, dst, .right, .left⟩ rfl rfl fun _ => rfl
  · exact .nil _

/-- What a reply reports is what happens at the ends of the lists. -/
theorem ListCommand.acts (c : ListCommand) :
    Deque.Run (listAt e.now d) (c.reports e d) (listAt e.now (c.run e d).1) := by
  cases c with
  | lpush key values => exact pushAs_run
  | rpush key values => exact pushAs_run
  | lpop key count => exact popAs_run
  | rpop key count => exact popAs_run
  | lmoveAtomic src dst srcFrom dstTo => exact lmoveAtomic_run ⟨src, dst, srcFrom, dstTo⟩
  | rpoplpushAtomic src dst => exact lmoveAtomic_run ⟨src, dst, .right, .left⟩
  | blpopPoll keys => exact pollAs_run
  | brpopPoll keys => exact pollAs_run
  | script verb args =>
    cases verb with
    | lpush =>
      refine script_pushAs_run (t := ListVerb.lpush.reports args) ?_ fun m => by cases args <;> rfl
      rintro key values n rfl
      rfl
    | rpush =>
      refine script_pushAs_run (t := ListVerb.rpush.reports args) ?_ fun m => by cases args <;> rfl
      rintro key values n rfl
      rfl
    | lpop =>
      refine script_popAs_run (t := ListVerb.lpop.reports args) ?_ fun r hr => ?_
      · rintro key rest rfl r
        rfl
      · cases args with
        | nil => rfl
        | cons key rest => exact congrArg (List.map _) hr
    | rpop =>
      refine script_popAs_run (t := ListVerb.rpop.reports args) ?_ fun r hr => ?_
      · rintro key rest rfl r
        rfl
      · cases args with
        | nil => rfl
        | cons key rest => exact congrArg (List.map _) hr
    | lmove => exact lmove_run
    | rpoplpush => exact rpoplpush_run

end Commands

/-! ## Runs -/

section Runs

variable {S : Type} [Score S]

/-- The runs of a store in which a chain of lists is used as such, from its first state on: what has
been brought to the chain and what has been taken from it so far, as the replies say. Other commands,
the sweep, a restart and the clock may do to the store whatever leaves the lists of the chain. -/
inductive Handed (ks : List Bytes) (now₀ : Instant) (d₀ : Data S) :
    Instant → Data S → List Bytes → List Bytes → Prop where
  | start : Handed ks now₀ d₀ now₀ d₀ [] []
  | command {now : Instant} {d : Data S} {brought taken : List Bytes} (c : ListCommand)
      (wall : UInt64) (walk : FinMap.WalkOrder) (h : Handed ks now₀ d₀ now d brought taken)
      (hk : ∀ r ∈ c.reports ⟨now, wall, walk⟩ d, r.Keeps ks) :
      Handed ks now₀ d₀ now (c.run ⟨now, wall, walk⟩ d).1
        (brought ++ (c.reports ⟨now, wall, walk⟩ d).flatMap (Deque.Op.brought ks))
        (taken ++ (c.reports ⟨now, wall, walk⟩ d).flatMap (Deque.Op.taken ks))
  | other {now now' : Instant} {d d' : Data S} {brought taken : List Bytes}
      (h : Handed ks now₀ d₀ now d brought taken)
      (hl : ∀ k ∈ ks, listAt now' d' k = listAt now d k) :
      Handed ks now₀ d₀ now' d' brought taken

/-- A chain of lists hands its elements on in order: what was in it and what has come in since, in
that order, is what has left it and what is in it now. -/
theorem queues_hand_on_in_order {ks : List Bytes} (hn : ks.Nodup) {now₀ now : Instant}
    {d₀ d : Data S} {brought taken : List Bytes} (h : Handed ks now₀ d₀ now d brought taken) :
    Deque.contents (listAt now₀ d₀) ks ++ brought =
      taken ++ Deque.contents (listAt now d) ks := by
  induction h with
  | start => rw [List.append_nil, List.nil_append]
  | @command now d brought taken c wall walk _ hk ih =>
    have hc := (c.acts (e := ⟨now, wall, walk⟩) (d := d)).chain hn hk
    rw [← List.append_assoc, ih, List.append_assoc, hc, List.append_assoc]
  | other _ hl ih => rw [ih, Deque.contents_congr hl]

end Runs

/-- A job queue `a` of two workers: a job is handed on to `b` by a script, and taken there. -/
def handing (c : ListCommand) (d : Data ℤ) : Data ℤ := (c.run ⟨0, 0, .byKey⟩ d).1

def filled : Data ℤ := handing (.rpush [97] [[1], [2]]) ∅

def handedOn : Data ℤ := handing (.script .lmove [[97], [98], ascii "LEFT", ascii "right"]) filled

theorem handedOn_in_order :
    Deque.contents (listAt 0 (∅ : Data ℤ)) [[97], [98]] ++ [[1], [2]] =
      [[1]] ++ Deque.contents (listAt 0 (handing (.lpop [98] none) handedOn)) [[97], [98]] := by
  have hstart : Handed [[97], [98]] 0 (∅ : Data ℤ) 0 ∅ [] [] := .start
  have hpush := hstart.command (.rpush [97] [[1], [2]]) 0 .byKey (by decide +kernel)
  have hmove := hpush.command (.script .lmove [[97], [98], ascii "LEFT", ascii "right"]) 0 .byKey
    (by decide +kernel)
  have hpop := hmove.command (.lpop [98] none) 0 .byKey (by decide +kernel)
  exact queues_hand_on_in_order (by decide) hpop

end BurnerRedis
