import Mathlib.Data.List.Basic
import Mathlib.Data.List.Infix
import Mathlib.Logic.Function.Basic

/-!
# Double-ended queues

A family of lists that are pushed and popped at both ends, and between which elements are moved. A
chain of them takes elements in at the back of its first queue, hands each one on from the front of
a queue to the back of the next, and gives elements out at the front of its last one; it does so in
order (`Run.chain`). A chain of one queue is a queue.
-/

namespace Deque

variable {K α : Type*}

inductive End where
  | front
  | back
deriving DecidableEq

def push (side : End) (v : α) (l : List α) : List α :=
  match side with
  | .front => v :: l
  | .back => l ++ [v]

/-- What is done to a family of queues. -/
inductive Op (K α : Type*) where
  | push (key : K) (side : End) (v : α)
  | pop (key : K) (side : End) (v : α)
  | move (src : K) (takes : End) (dst : K) (puts : End) (v : α)

variable [DecidableEq K]

/-- The queues after an operation; a pop and a move find their element at its end. -/
inductive Op.Acts (f : K → List α) : Op K α → (K → List α) → Prop where
  | push (key : K) (side : End) (v : α) :
      Acts f (.push key side v) (Function.update f key (Deque.push side v (f key)))
  | pop (key : K) (side : End) (v : α) (rest : List α) (h : f key = Deque.push side v rest) :
      Acts f (.pop key side v) (Function.update f key rest)
  | move (src : K) (takes : End) (dst : K) (puts : End) (v : α) (rest : List α)
      (h : f src = Deque.push takes v rest) :
      Acts f (.move src takes dst puts v)
        (Function.update (Function.update f src rest) dst
          (Deque.push puts v (Function.update f src rest dst)))

/-- The queues after several operations. -/
inductive Run : (K → List α) → List (Op K α) → (K → List α) → Prop where
  | nil (f : K → List α) : Run f [] f
  | cons {f g h : K → List α} {op : Op K α} {ops : List (Op K α)} (ha : op.Acts f g)
      (hr : Run g ops h) : Run f (op :: ops) h

theorem Run.single {f g : K → List α} {op : Op K α} (h : op.Acts f g) : Run f [op] g :=
  .cons h (.nil g)

/-- Pushes to one queue. -/
theorem Run.pushes (key : K) (side : End) (vs : List α) (f : K → List α) :
    Run f (vs.map (.push key side))
      (Function.update f key (vs.foldl (fun l v => push side v l) (f key))) := by
  induction vs generalizing f with
  | nil =>
    rw [List.foldl_nil, Function.update_eq_self]
    exact .nil f
  | cons v vs ih =>
    have hrest := ih (Function.update f key (push side v (f key)))
    rw [Function.update_self, Function.update_idem] at hrest
    exact .cons (.push key side v) hrest

/-! ## Chains -/

/-- An operation that keeps to a chain of queues: elements come in at the back of the first, go from
the front of one to the back of the next, and leave at the front of the last. -/
def Op.Keeps (ks : List K) : Op K α → Prop
  | .push key side _ => key ∈ ks → ks.head? = some key ∧ side = .back
  | .pop key side _ => key ∈ ks → ks.getLast? = some key ∧ side = .front
  | .move src takes dst puts _ =>
    [src, dst] <:+: ks ∧ takes = .front ∧ puts = .back ∨
      (src ∈ ks → dst ∉ ks ∧ ks.getLast? = some src ∧ takes = .front) ∧
      (dst ∈ ks → src ∉ ks ∧ ks.head? = some dst ∧ puts = .back)

instance (ks : List K) (op : Op K α) : Decidable (op.Keeps ks) :=
  match op with
  | .push key side _ => inferInstanceAs (Decidable (key ∈ ks → ks.head? = some key ∧ side = .back))
  | .pop key side _ =>
    inferInstanceAs (Decidable (key ∈ ks → ks.getLast? = some key ∧ side = .front))
  | .move src takes dst puts _ =>
    inferInstanceAs (Decidable ([src, dst] <:+: ks ∧ takes = .front ∧ puts = .back ∨
      (src ∈ ks → dst ∉ ks ∧ ks.getLast? = some src ∧ takes = .front) ∧
      (dst ∈ ks → src ∉ ks ∧ ks.head? = some dst ∧ puts = .back)))

/-- What comes into a chain from outside. -/
def Op.brought (ks : List K) : Op K α → List α
  | .push key _ v => if key ∈ ks then [v] else []
  | .pop _ _ _ => []
  | .move src _ dst _ v => if dst ∈ ks ∧ src ∉ ks then [v] else []

/-- What leaves a chain. -/
def Op.taken (ks : List K) : Op K α → List α
  | .push _ _ _ => []
  | .pop key _ v => if key ∈ ks then [v] else []
  | .move src _ dst _ v => if src ∈ ks ∧ dst ∉ ks then [v] else []

/-- The elements of a chain, in the order in which they leave it. -/
def contents (f : K → List α) : List K → List α
  | [] => []
  | k :: ks => contents f ks ++ f k

omit [DecidableEq K] in
theorem contents_cons (f : K → List α) (k : K) (ks : List K) :
    contents f (k :: ks) = contents f ks ++ f k := rfl

omit [DecidableEq K] in
theorem contents_append (f : K → List α) (ks ks' : List K) :
    contents f (ks ++ ks') = contents f ks' ++ contents f ks := by
  induction ks with
  | nil => exact (List.append_nil _).symm
  | cons k ks ih => rw [List.cons_append, contents_cons, ih, List.append_assoc, contents_cons]

omit [DecidableEq K] in
theorem contents_congr {f g : K → List α} {ks : List K} (h : ∀ k ∈ ks, g k = f k) :
    contents g ks = contents f ks := by
  induction ks with
  | nil => rfl
  | cons k ks ih =>
    rw [contents_cons, contents_cons, ih fun k' hk' => h k' (List.mem_cons_of_mem k hk'), h k List.mem_cons_self]

theorem contents_update {f : K → List α} {key : K} {l : List α} {ks : List K} (h : key ∉ ks) :
    contents (Function.update f key l) ks = contents f ks := by
  apply contents_congr
  intro k hk
  rw [Function.update_of_ne]
  rintro rfl
  exact h hk

/-- The first queue of a chain changes. -/
theorem contents_head {ks : List K} (hn : ks.Nodup) {key : K} (h : ks.head? = some key)
    (f : K → List α) :
    ∃ rest, ∀ l, contents (Function.update f key l) ks = rest ++ l := by
  obtain ⟨ks', rfl⟩ : ∃ ks', ks = key :: ks' := ⟨_, List.eq_cons_of_mem_head? h⟩
  refine ⟨contents f ks', fun l => ?_⟩
  rw [contents_cons, contents_update (List.nodup_cons.mp hn).1, Function.update_self]

/-- The last queue of a chain changes. -/
theorem contents_last {ks : List K} (hn : ks.Nodup) {key : K} (h : ks.getLast? = some key)
    (f : K → List α) :
    ∃ rest, ∀ l, contents (Function.update f key l) ks = l ++ rest := by
  obtain ⟨ks', rfl⟩ : ∃ ks', ks = ks' ++ [key] :=
    ⟨_, (List.dropLast_append_getLast? key h).symm⟩
  have hkey : key ∉ ks' := fun hmem =>
    (List.nodup_append.mp hn).2.2 key hmem key List.mem_cons_self rfl
  refine ⟨contents f ks', fun l => ?_⟩
  rw [contents_append, contents_update hkey, contents_cons, Function.update_self]
  rfl

/-- Two queues of a chain that follow one another change. -/
theorem contents_pair {ks : List K} (hn : ks.Nodup) {src dst : K} (h : [src, dst] <:+: ks)
    (f : K → List α) :
    src ≠ dst ∧ ∃ first rest, ∀ l l',
      contents (Function.update (Function.update f src l) dst l') ks = first ++ (l' ++ l) ++ rest := by
  obtain ⟨before, after, rfl⟩ := h
  rw [List.append_assoc] at hn
  obtain ⟨-, hpair, hdisj⟩ := List.nodup_append.mp hn
  rw [List.cons_append, List.nodup_cons] at hpair
  obtain ⟨hsrc, hdst⟩ := hpair
  have hne : src ≠ dst := fun heq => hsrc (heq ▸ List.mem_cons_self)
  have hsrcB : src ∉ before := fun hb => hdisj src hb src List.mem_cons_self rfl
  have hdstB : dst ∉ before := fun hb =>
    hdisj dst hb dst (List.mem_cons_of_mem src List.mem_cons_self) rfl
  have hsrcA : src ∉ after := fun ha => hsrc (List.mem_cons_of_mem dst ha)
  have hdstA : dst ∉ after := (List.nodup_cons.mp hdst).1
  refine ⟨hne, contents f after, contents f before, fun l l' => ?_⟩
  rw [List.append_assoc, contents_append, contents_update hdstB, contents_update hsrcB,
    List.cons_append, contents_cons, List.cons_append, contents_cons, List.nil_append,
    contents_update hdstA, contents_update hsrcA, Function.update_self,
    Function.update_of_ne hne, Function.update_self, ← List.append_assoc (contents f after)]

/-- One operation: what was in a chain and what it has brought is what it has taken and what is in
the chain after it. -/
theorem Op.Acts.chain {f g : K → List α} {op : Op K α} (ha : op.Acts f g) {ks : List K}
    (hn : ks.Nodup) (hk : op.Keeps ks) :
    contents f ks ++ op.brought ks = op.taken ks ++ contents g ks := by
  cases ha with
  | push key side v =>
    dsimp only [brought, taken]
    by_cases hkey : key ∈ ks
    · obtain ⟨hhead, rfl⟩ := hk hkey
      obtain ⟨rest, hrest⟩ := contents_head hn hhead f
      have hf := hrest (f key)
      rw [Function.update_eq_self] at hf
      rw [if_pos hkey, hrest, hf, List.append_assoc]
      rfl
    · rw [if_neg hkey, contents_update hkey, List.append_nil]
      rfl
  | pop key side v rest h =>
    dsimp only [brought, taken]
    by_cases hkey : key ∈ ks
    · obtain ⟨hlast, rfl⟩ := hk hkey
      obtain ⟨others, hothers⟩ := contents_last hn hlast f
      have hf := hothers (f key)
      rw [Function.update_eq_self, h] at hf
      rw [if_pos hkey, hothers, hf, List.append_nil]
      rfl
    · rw [if_neg hkey, contents_update hkey, List.append_nil]
      rfl
  | move src takes dst puts v rest h =>
    dsimp only [brought, taken]
    rcases hk with ⟨hin, rfl, rfl⟩ | ⟨hsrc, hdst⟩
    · -- the element goes from one queue of the chain to the next
      obtain ⟨hne, first, last, heq⟩ := contents_pair hn hin f
      have hf := heq (f src) (f dst)
      rw [Function.update_eq_self, Function.update_eq_self, h] at hf
      have hmem : src ∈ ks ∧ dst ∈ ks := by
        have hsub := hin.subset
        exact ⟨hsub List.mem_cons_self, hsub (List.mem_cons_of_mem _ List.mem_cons_self)⟩
      rw [if_neg fun hc => hc.2 hmem.1, if_neg fun hc => hc.2 hmem.2, heq,
        Function.update_of_ne hne.symm, hf, List.append_nil]
      simp [Deque.push]
    · by_cases hs : src ∈ ks
      · obtain ⟨hd, hlast, rfl⟩ := hsrc hs
        obtain ⟨others, hothers⟩ := contents_last hn hlast f
        have hf := hothers (f src)
        rw [Function.update_eq_self, h] at hf
        rw [if_neg fun hc => hd hc.1, if_pos ⟨hs, hd⟩, contents_update hd, hothers, hf,
          List.append_nil]
        rfl
      · rw [if_neg (c := src ∈ ks ∧ dst ∉ ks) fun hc => hs hc.1]
        by_cases hd : dst ∈ ks
        · obtain ⟨-, hhead, rfl⟩ := hdst hd
          obtain ⟨others, hothers⟩ := contents_head hn hhead (Function.update f src rest)
          have hf := hothers (Function.update f src rest dst)
          rw [Function.update_eq_self, contents_update hs] at hf
          rw [if_pos ⟨hd, hs⟩, hothers, hf, List.append_assoc]
          rfl
        · rw [if_neg fun hc => hd hc.1, contents_update hd, contents_update hs, List.append_nil]
          rfl

/-- A chain hands its elements on in order. -/
theorem Run.chain {f g : K → List α} {ops : List (Op K α)} (hr : Run f ops g) {ks : List K}
    (hn : ks.Nodup) (hk : ∀ op ∈ ops, op.Keeps ks) :
    contents f ks ++ ops.flatMap (Op.brought ks) = ops.flatMap (Op.taken ks) ++ contents g ks := by
  induction hr with
  | nil f => simp
  | @cons f g h op ops ha _ ih =>
    have hop := ha.chain hn (hk op List.mem_cons_self)
    have hrest := ih fun op' hop' => hk op' (List.mem_cons_of_mem op hop')
    rw [List.flatMap_cons, List.flatMap_cons, ← List.append_assoc, hop, List.append_assoc, hrest,
      List.append_assoc]

end Deque
