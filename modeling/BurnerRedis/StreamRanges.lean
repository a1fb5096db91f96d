import BurnerRedis.Lib.Selection
import BurnerRedis.Lib.TreeRange
import BurnerRedis.ScriptStreams

/-!
# Ranges of a stream

XRANGE and XREVRANGE read two bounds from their texts, in opposite order, and ask the tree of the
stream's entries for what lies between. The tree panics on some pairs of bounds, with the data locked;
here the commands are run on a tree that does (`xrange?`, `xrevrange?`), and never meet such a pair.
-/

namespace BurnerRedis

/-! ## The texts of bounds -/

/-- What the text of a bound says: an id, and whether the id itself is left out. Milliseconds alone
stand for their first id as a lower bound and for their last as an upper one. -/
inductive BoundText (isLow : Bool) : Bytes → StreamId × Bool → Prop
  | least : BoundText isLow (ascii "-") (.zero, false)
  | greatest : BoundText isLow (ascii "+") (.max, false)
  | ms {text : Bytes} {ms : UInt64} (h : parseU64 text = some ms) :
      BoundText isLow text (⟨ms, if isLow then 0 else StreamId.max.seq⟩, false)
  | id {text : Bytes} {id : StreamId} (h : parseStreamId text = some id) :
      BoundText isLow text (id, false)
  | exclusive {text : Bytes} {id : StreamId} (h : BoundText isLow text (id, false)) :
      BoundText isLow (40 :: text) (id, true)

/-- A number is written without parentheses and dashes. -/
theorem not_mem_of_parseDigits {acc n : ℕ} {text : Bytes} (h : parseDigits acc text = some n) :
    ∀ b ∈ text, 48 ≤ b := by
  induction text generalizing acc with
  | nil => exact nofun
  | cons b text ih =>
    rw [parseDigits] at h
    split_ifs at h with hb
    rw [List.forall_mem_cons]
    exact ⟨hb.1, ih h⟩

theorem mem_of_parseU64 {text : Bytes} {n : UInt64} (h : parseU64 text = some n) :
    text ≠ [] ∧ ∀ b ∈ text, 48 ≤ b ∨ b = 43 := by
  obtain ⟨m, hm, -⟩ := Option.bind_eq_some_iff.mp h
  unfold parseNat at hm
  split_ifs at hm with hplus hnil hnil
  · cases text with
    | nil => cases hplus
    | cons b rest =>
      refine ⟨List.cons_ne_nil b rest, ?_⟩
      rw [List.forall_mem_cons]
      exact ⟨.inr (Option.some.inj hplus), fun b hb => .inl (not_mem_of_parseDigits hm b hb)⟩
  · exact ⟨hnil, fun b hb => .inl (not_mem_of_parseDigits hm b hb)⟩

/-- A text of bytes from `+` on, the dash left out, has no dash and does not begin with a
parenthesis. -/
theorem splitDash_of_parseU64 {text : Bytes} {n : UInt64} (h : parseU64 text = some n) :
    splitDash text = (text, none) := by
  have hdash : ∀ b ∈ text, decide (b ≠ 45) = true := by
    intro b hb
    rw [decide_eq_true_eq]
    rintro rfl
    rcases (mem_of_parseU64 h).2 45 hb with h48 | h43
    · exact absurd h48 (by decide)
    · exact absurd h43 (by decide)
  unfold splitDash
  rw [List.takeWhile_eq_self_iff.mpr hdash, List.dropWhile_eq_nil_iff.mpr hdash]
  rfl

theorem eq_of_splitDash_none {text ms : Bytes} (h : splitDash text = (ms, none)) : ms = text := by
  obtain ⟨rfl, hrest⟩ := Prod.mk.inj h
  have hnil : text.dropWhile (fun b => b ≠ 45) = [] := by
    cases hd : text.dropWhile (fun b => b ≠ 45) with
    | nil => rfl
    | cons b rest =>
      rw [hd] at hrest
      cases hrest
  have hsplit := List.takeWhile_append_dropWhile (p := fun b : UInt8 => decide (b ≠ 45)) (l := text)
  rwa [hnil, List.append_nil] at hsplit

theorem head?_ne_of_parseU64 {text : Bytes} {n : UInt64} (h : parseU64 text = some n) :
    text.head? ≠ some 40 := by
  intro hopen
  rcases (mem_of_parseU64 h).2 40 (List.mem_of_mem_head? hopen) with h48 | h43
  · exact absurd h48 (by decide)
  · exact absurd h43 (by decide)

theorem head?_ne_of_parseStreamId {text : Bytes} {id : StreamId}
    (h : parseStreamId text = some id) : text.head? ≠ some 40 := by
  intro hopen
  unfold parseStreamId at h
  split at h
  · cases h
  · rename_i ms seq hsplit
    obtain ⟨n, hn, -⟩ := Option.bind_eq_some_iff.mp h
    cases text with
    | nil => cases hopen
    | cons b rest =>
      obtain rfl : b = 40 := Option.some.inj hopen
      have hms : (40 :: rest.takeWhile fun b => b ≠ 45) = ms := congrArg Prod.fst hsplit
      exact head?_ne_of_parseU64 hn (by rw [← hms, List.head?_cons])

/-- What is left of a bound once its parenthesis is taken off. -/
def Script.plainBound (s : Bytes) (isLow : Bool) : Option StreamId :=
  if s = ascii "-" then some .zero
  else if s = ascii "+" then some .max
  else match splitDash s with
    | (_, some _) => parseStreamId s
    | (ms, none) => (parseU64 ms).map fun ms => ⟨ms, if isLow then 0 else StreamId.max.seq⟩

theorem Script.parseBound_eq (text : Bytes) (isLow : Bool) :
    parseBound text isLow =
      if text.head? = some 40 then (plainBound text.tail isLow).map fun id => (id, true)
      else (plainBound text isLow).map fun id => (id, false) := by
  have hmap : ∀ (s : Bytes) (exclusive : Bool),
      (plainBound s isLow).map (fun id => (id, exclusive)) =
        if s = ascii "-" then some (.zero, exclusive)
        else if s = ascii "+" then some (.max, exclusive)
        else match splitDash s with
          | (ms, some seq) => (parseU64 ms).bind fun ms => (parseU64 seq).map fun seq =>
              (⟨ms, seq⟩, exclusive)
          | (ms, none) => (parseU64 ms).map fun ms =>
              (⟨ms, if isLow then 0 else StreamId.max.seq⟩, exclusive) := by
    intro s exclusive
    unfold plainBound parseStreamId
    by_cases hleast : s = ascii "-"
    · rw [if_pos hleast, if_pos hleast, Option.map_some]
    · by_cases hgreatest : s = ascii "+"
      · rw [if_neg hleast, if_neg hleast, if_pos hgreatest, if_pos hgreatest, Option.map_some]
      · rw [if_neg hleast, if_neg hleast, if_neg hgreatest, if_neg hgreatest]
        rcases splitDash s with ⟨ms, _ | seq⟩
        · exact Option.map_map _ _ _
        · dsimp only
          cases parseU64 ms with
          | none => rfl
          | some n => exact Option.map_map _ _ _
  unfold parseBound
  by_cases hopen : text.head? = some 40
  · simp only [hopen, if_true, decide_true]
    exact (hmap text.tail true).symm
  · simp only [hopen, if_false, decide_false]
    exact (hmap text false).symm

theorem Script.plainBound_eq_some_iff {text : Bytes} {isLow : Bool} {id : StreamId} :
    plainBound text isLow = some id ↔ BoundText isLow text (id, false) := by
  constructor
  · intro h
    unfold plainBound at h
    by_cases hleast : text = ascii "-"
    · rw [if_pos hleast] at h
      cases h
      exact hleast ▸ .least
    · by_cases hgreatest : text = ascii "+"
      · rw [if_neg hleast, if_pos hgreatest] at h
        cases h
        exact hgreatest ▸ .greatest
      · rw [if_neg hleast, if_neg hgreatest] at h
        split at h
        · exact .id h
        · rename_i ms hsplit
          obtain ⟨n, hn, rfl⟩ := Option.map_eq_some_iff.mp h
          exact .ms (eq_of_splitDash_none hsplit ▸ hn)
  · intro h
    cases h with
    | least => rfl
    | greatest => rfl
    | ms h =>
      unfold plainBound
      have hleast : text ≠ ascii "-" := by
        rintro rfl
        cases h
      have hgreatest : text ≠ ascii "+" := by
        rintro rfl
        cases h
      rw [if_neg hleast, if_neg hgreatest, splitDash_of_parseU64 h]
      dsimp only
      rw [h, Option.map_some]
    | id h =>
      unfold plainBound
      have hleast : text ≠ ascii "-" := by
        rintro rfl
        cases h
      have hgreatest : text ≠ ascii "+" := by
        rintro rfl
        cases h
      rw [if_neg hleast, if_neg hgreatest]
      cases hsplit : splitDash text with
      | mk ms seq => cases seq with
        | some seq => exact h
        | none =>
          unfold parseStreamId at h
          rw [hsplit] at h
          cases h

/-- The parser accepts the texts of bounds and reads them as what they say. -/
theorem Script.parseBound_eq_some_iff {text : Bytes} {isLow : Bool} {b : StreamId × Bool} :
    parseBound text isLow = some b ↔ BoundText isLow text b := by
  obtain ⟨id, exclusive⟩ := b
  rw [parseBound_eq]
  constructor
  · intro h
    split_ifs at h with hopen
    · obtain ⟨i, hi, heq⟩ := Option.map_eq_some_iff.mp h
      cases heq
      obtain ⟨rest, rfl⟩ := List.head?_eq_some_iff.mp hopen
      exact .exclusive (plainBound_eq_some_iff.mp hi)
    · obtain ⟨i, hi, heq⟩ := Option.map_eq_some_iff.mp h
      cases heq
      exact plainBound_eq_some_iff.mp hi
  · intro h
    cases h with
    | exclusive h =>
      rw [if_pos (List.head?_cons), List.tail_cons, plainBound_eq_some_iff.mpr h, Option.map_some]
    | least => rfl
    | greatest => rfl
    | ms h =>
      rw [if_neg (head?_ne_of_parseU64 h), plainBound_eq_some_iff.mpr (.ms h), Option.map_some]
    | id h =>
      rw [if_neg (head?_ne_of_parseStreamId h), plainBound_eq_some_iff.mpr (.id h),
        Option.map_some]

/-! ## Reading from the tree -/

/-- A bound as it is passed to the tree. -/
def toBound (b : StreamId × Bool) : Bound StreamId := if b.2 then .excluded b.1 else .included b.1

/-- The tree range of XRANGE behind its guard, `none` where the tree panics. -/
def Script.treeRange (s : Stream) (lo hi : StreamId × Bool) : Option Entries :=
  if hi.1 < lo.1 ∨ lo.1 = hi.1 ∧ (lo.2 ∨ hi.2) then some []
  else s.entries.range? (toBound lo) (toBound hi)

/-- The tree range of the method behind its guard, `none` where the tree panics. -/
def Store.treeRange (s : Stream) (min max : StreamId) : Option Entries :=
  if max < min then some [] else s.entries.range? (.included min) (.included max)

@[simp] theorem key_toBound (b : StreamId × Bool) : (toBound b).key = b.1 := by
  unfold toBound
  split_ifs <;> rfl

@[simp] theorem isExcluded_toBound (b : StreamId × Bool) : (toBound b).isExcluded = b.2 := by
  obtain ⟨id, exclusive⟩ := b
  cases exclusive <;> rfl

theorem crossed_toBound_iff {lo hi : StreamId × Bool} :
    Bound.Crossed (toBound lo) (toBound hi) ↔ hi.1 < lo.1 ∨ lo.1 = hi.1 ∧ (lo.2 ∨ hi.2) := by
  unfold Bound.Crossed
  rw [key_toBound, key_toBound, isExcluded_toBound, isExcluded_toBound]

/-- The guard keeps the tree from a panic. -/
theorem Script.treeRange_eq (s : Stream) (lo hi : StreamId × Bool) :
    treeRange s lo hi = some (s.entries.toList.filter fun p =>
      (toBound lo).Above p.1 ∧ (toBound hi).Below p.1) := by
  unfold treeRange
  split_ifs with h
  · rw [FinMap.filter_between_of_crossed (crossed_toBound_iff.mpr h)]
  · exact FinMap.range?_eq_some (mt crossed_toBound_iff.mp h)

theorem Store.treeRange_eq (s : Stream) (min max : StreamId) :
    treeRange s min max = some (s.entries.toList.filter fun p =>
      (Bound.included min).Above p.1 ∧ (Bound.included max).Below p.1) := by
  have hcrossed : Bound.Crossed (.included min) (.included max) ↔ max < min := by
    unfold Bound.Crossed
    simp [Bound.key, Bound.isExcluded]
  unfold treeRange
  split_ifs with h
  · rw [FinMap.filter_between_of_crossed (hcrossed.mpr h)]
  · exact FinMap.range?_eq_some (mt hcrossed.mp h)

theorem Script.entriesBetween_eq (s : Stream) (lo hi : StreamId × Bool) :
    some (entriesBetween s lo hi) = treeRange s lo hi := by
  rw [treeRange_eq]
  unfold entriesBetween
  by_cases h : hi.1 < lo.1 ∨ lo.1 = hi.1 ∧ (lo.2 ∨ hi.2)
  · rw [if_pos h, FinMap.filter_between_of_crossed (crossed_toBound_iff.mpr h)]
  · rw [if_neg h, Option.some.injEq]
    apply List.filter_congr
    intro p _
    obtain ⟨lo, xlo⟩ := lo
    obtain ⟨hi, xhi⟩ := hi
    rw [decide_eq_decide]
    cases xlo <;> cases xhi <;> simp [toBound, Bound.Above, Bound.Below]

/-! ## The commands on the tree -/

section Commands

variable {S : Type} [LinearOrder S] {e : Env} {d : Data S} {key : Bytes}

/-- A reply worked on after a read is the reply of a read of what it is worked into. -/
theorem readAs_map {V ρ σ : Type} (t : Kind S V) (now : Instant) (key : Bytes) (absent wrong : ρ)
    (f : V → ρ) (g : ρ → σ) (d : Data S) :
    readAs t now key (g absent) (g wrong) (fun v => g (f v)) d =
      ((readAs t now key absent wrong f d).1, g (readAs t now key absent wrong f d).2) := by
  cases look t now key d with
  | absent h => rw [readAs_absent h, readAs_absent h]
  | wrong en h hd => rw [readAs_wrong h hd, readAs_wrong h hd]
  | found v exp h => rw [readAs_found h, readAs_found h]

/-- XRANGE and XREVRANGE with the tree's own range. -/
def Script.xrangeAs? (name : String) (reverse : Bool) (e : Env) :
    List Bytes → Data S → Option (Data S × Reply)
  | key :: first :: second :: rest => fun d =>
    match parseBound (if reverse then second else first) true,
      parseBound (if reverse then first else second) false with
    | some lo, some hi => match xrangeCount rest none with
      | .error r => some (d, r)
      | .ok count =>
        let r := readAs .stream e.now key (some (.ok (.array []))) (some wrongType) (fun stream =>
          (treeRange stream lo hi).map fun entries =>
            .ok (.array ((takeCount count (if reverse then entries.reverse else entries)).map
              (entryValue e.walk)))) d
        r.2.map fun reply => (r.1, reply)
    | _, _ => some (d, .ok (.error invalidId))
  | _ => fun d => some (d, wrongArity name)

/-- `XRANGE` -/
def Script.xrange? (e : Env) : List Bytes → Data S → Option (Data S × Reply) :=
  xrangeAs? "xrange" false e

/-- `XREVRANGE` -/
def Script.xrevrange? (e : Env) : List Bytes → Data S → Option (Data S × Reply) :=
  xrangeAs? "xrevrange" true e

/-- XRANGE with the tree's own range. -/
def Store.xrange? (e : Env) (key : Bytes) (min max : StreamId) (count : Option ℕ) (d : Data S) :
    Option (Data S × Except StoreError Entries) :=
  let r := readAs .stream e.now key (some (.ok [])) (some (.error .wrongType)) (fun stream =>
    (treeRange stream min max).map fun entries => .ok (takeCount count entries)) d
  r.2.map fun reply => (r.1, reply)

/-- No arguments and no data make the tree panic. -/
theorem Script.xrangeAs?_eq (name : String) (reverse : Bool) (args : List Bytes) (d : Data S) :
    xrangeAs? name reverse e args d = some (xrangeAs name reverse e args d) := by
  rcases args with _ | ⟨key, _ | ⟨first, _ | ⟨second, rest⟩⟩⟩
  · rfl
  · rfl
  · rfl
  · unfold xrangeAs? xrangeAs
    dsimp only
    cases parseBound (if reverse then second else first) true with
    | none => rfl
    | some lo => cases parseBound (if reverse then first else second) false with
      | none => rfl
      | some hi => cases xrangeCount rest none with
        | error r => rfl
        | ok count =>
          simp only [← entriesBetween_eq, Option.map_some]
          rw [readAs_map (g := some), Option.map_some]

theorem Store.xrange?_eq (key : Bytes) (min max : StreamId) (count : Option ℕ) (d : Data S) :
    xrange? e key min max count d = some (xrange e key min max count d) := by
  have hreply : ∀ s : Stream, (treeRange s min max).map (fun entries =>
      (Except.ok (takeCount count entries) : Except StoreError Entries)) =
        some (if max < min then .ok [] else
          .ok (takeCount count (s.entries.toList.filter fun p => min ≤ p.1 ∧ p.1 ≤ max))) := by
    intro s
    by_cases h : max < min
    · have hnil : takeCount count ([] : Entries) = [] := by
        cases count with
        | none => rfl
        | some n => exact List.take_nil
      rw [treeRange, if_pos h, if_pos h, Option.map_some, hnil]
    · rw [treeRange_eq, if_neg h, Option.map_some]
      rfl
  unfold xrange? xrange
  simp only [hreply]
  rw [readAs_map (g := some), Option.map_some]

/-- The entries of a stream between two bounds, in increasing order. -/
structure Between (s : Stream) (lo hi : StreamId × Bool) (l : Entries) : Prop where
  mem_iff : ∀ p, p ∈ l ↔
    s.entries[p.1]? = some p.2 ∧ (toBound lo).Above p.1 ∧ (toBound hi).Below p.1
  ordered : l.Pairwise fun a b => a.1 < b.1

theorem between_entriesBetween (s : Stream) (lo hi : StreamId × Bool) :
    Between s lo hi (Script.entriesBetween s lo hi) := by
  have heq := Script.entriesBetween_eq s lo hi
  rw [Script.treeRange_eq, Option.some.injEq] at heq
  rw [heq]
  exact ⟨fun _ => FinMap.mem_filter_between, FinMap.pairwise_filter_toList _⟩

theorem Between.unique {s : Stream} {lo hi : StreamId × Bool} {l l' : Entries}
    (h : Between s lo hi l) (h' : Between s lo hi l') : l = l' :=
  eq_of_pairwise_of_mem_iff (fun _ _ hab hba => lt_asymm hab hba) h.ordered h'.ordered
    fun p => (h.mem_iff p).trans (h'.mem_iff p).symm

open Script in
/-- XRANGE lists the entries `l`, XREVRANGE the same ones backwards, and the method does as XRANGE
where no bound is left out. -/
structure Mirrored (e : Env) (d : Data S) (key loText hiText : Bytes) (lo hi : StreamId × Bool)
    (l : Entries) : Prop where
  xrange : ∀ rest count, xrangeCount rest none = .ok count →
    xrange? e (key :: loText :: hiText :: rest) d =
      some (d, .ok (.array ((takeCount count l).map (entryValue e.walk))))
  xrevrange : ∀ rest count, xrangeCount rest none = .ok count →
    xrevrange? e (key :: hiText :: loText :: rest) d =
      some (d, .ok (.array ((takeCount count l.reverse).map (entryValue e.walk))))
  /-- a number in the arguments is the count -/
  count : ∀ n < 2 ^ 64, xrevrange? e [key, hiText, loText, ascii "COUNT", decimal n] d =
    some (d, .ok (.array ((l.reverse.take n).map (entryValue e.walk))))
  native : lo.2 = false → hi.2 = false → ∀ count,
    Store.xrange? e key lo.1 hi.1 count d = some (d, .ok (takeCount count l))

theorem Script.xrangeCount_decimal {n : ℕ} (h : n < 2 ^ 64) :
    xrangeCount [ascii "COUNT", decimal n] none = .ok (some n) := by
  have hword : optionWord (ascii "COUNT") = "COUNT" := by decide
  rw [xrangeCount, if_pos hword, parseUsize_decimal h]
  rfl

open Script in
theorem mirrored {s : Stream} {exp : Option Instant}
    (hl : live e.now d key = some ⟨.stream s, exp⟩) {loText hiText : Bytes}
    {lo hi : StreamId × Bool} (hlo : BoundText true loText lo) (hhi : BoundText false hiText hi) :
    Mirrored e d key loText hiText lo hi (entriesBetween s lo hi) := by
  have hrange : ∀ (name : String) (reverse : Bool) (rest : List Bytes) (count : Option ℕ),
      xrangeCount rest none = .ok count →
      xrangeAs? name reverse e (key :: (if reverse then hiText else loText) ::
          (if reverse then loText else hiText) :: rest) d =
        some (d, .ok (.array ((takeCount count (if reverse then (entriesBetween s lo hi).reverse
          else entriesBetween s lo hi)).map (entryValue e.walk)))) := by
    intro name reverse rest count hcount
    have hread : ∀ f : Stream → Reply,
        readAs .stream e.now key (.ok (.array [])) wrongType f d = (d, f s) := by
      intro f
      rw [readAs_found (t := Kind.stream) hl, purge_of_live hl]
    rw [xrangeAs?_eq, xrangeAs]
    cases reverse with
    | false =>
      simp only [Bool.false_eq_true, if_false]
      rw [parseBound_eq_some_iff.mpr hlo, parseBound_eq_some_iff.mpr hhi, hcount]
      exact congrArg some (hread _)
    | true =>
      simp only [if_true]
      rw [parseBound_eq_some_iff.mpr hlo, parseBound_eq_some_iff.mpr hhi, hcount]
      exact congrArg some (hread _)
  refine ⟨hrange "xrange" false, hrange "xrevrange" true, ?_, ?_⟩
  · intro n hn
    exact hrange "xrevrange" true _ _ (xrangeCount_decimal hn)
  · intro hxlo hxhi count
    have hlo : toBound lo = .included lo.1 := by rw [toBound, hxlo, if_neg Bool.false_ne_true]
    have hhi : toBound hi = .included hi.1 := by rw [toBound, hxhi, if_neg Bool.false_ne_true]
    have htree : Store.treeRange s lo.1 hi.1 = some (entriesBetween s lo hi) := by
      rw [entriesBetween_eq, treeRange_eq, Store.treeRange_eq, hlo, hhi]
    unfold Store.xrange?
    rw [readAs_found (t := Kind.stream) hl, purge_of_live hl, htree]
    rfl

end Commands

open Script in
/-- XRANGE and XREVRANGE list the entries between any two bounds in the two orders, and neither ever
asks the tree for a range it panics at. -/
theorem xrange_mirrored {S : Type} [LinearOrder S] {e : Env} {d : Data S} {key : Bytes} {s : Stream}
    {exp : Option Instant} (hl : live e.now d key = some ⟨.stream s, exp⟩) {loText hiText : Bytes}
    {lo hi : StreamId × Bool} (hlo : parseBound loText true = some lo)
    (hhi : parseBound hiText false = some hi) :
    (BoundText true loText lo ∧ BoundText false hiText hi) ∧
    (∃ l, Between s lo hi l ∧ Mirrored e d key loText hiText lo hi l) ∧
    (∀ (args : List Bytes) (d : Data S),
      (xrange? e args d).isSome = true ∧ (xrevrange? e args d).isSome = true) ∧
    ∀ key min max count (d : Data S), (Store.xrange? e key min max count d).isSome = true := by
  have hloText := parseBound_eq_some_iff.mp hlo
  have hhiText := parseBound_eq_some_iff.mp hhi
  refine ⟨⟨hloText, hhiText⟩, ⟨_, between_entriesBetween s lo hi, mirrored hl hloText hhiText⟩,
    ?_, ?_⟩
  · intro args d
    constructor
    · exact (congrArg Option.isSome (xrangeAs?_eq "xrange" false args d)).trans rfl
    · exact (congrArg Option.isSome (xrangeAs?_eq "xrevrange" true args d)).trans rfl
  · intro key min max count d
    rw [Store.xrange?_eq]
    rfl

/-- Three entries, of two different milliseconds. -/
def threeEntries : Stream :=
  ⟨(((∅ : FinMap StreamId Fields).insert ⟨1, 0⟩ ∅).insert ⟨1, 7⟩ ∅).insert ⟨2, 0⟩ ∅, ⟨2, 0⟩, ∅⟩

def threeEntriesData : Data ℤ := (∅ : Data ℤ).insert (ascii "s") ⟨.stream threeEntries, none⟩

/-- From the milliseconds 1 up to, and without, the entry `2-0`. -/
theorem threeEntries_mirrored :
    Between threeEntries (⟨1, 0⟩, false) (⟨2, 0⟩, true) [(⟨1, 0⟩, ∅), (⟨1, 7⟩, ∅)] ∧
      Mirrored ⟨0, 0, .byKey⟩ threeEntriesData (ascii "s") (ascii "1") (ascii "(2-0")
        (⟨1, 0⟩, false) (⟨2, 0⟩, true) [(⟨1, 0⟩, ∅), (⟨1, 7⟩, ∅)] := by
  obtain ⟨-, ⟨l, hb, hl⟩, -⟩ := @xrange_mirrored ℤ _ ⟨0, 0, .byKey⟩ threeEntriesData (ascii "s")
    threeEntries none rfl (ascii "1") (ascii "(2-0") (⟨1, 0⟩, false) (⟨2, 0⟩, true) (by decide)
    (by decide)
  have htwo : Script.entriesBetween threeEntries (⟨1, 0⟩, false) (⟨2, 0⟩, true) =
      [(⟨1, 0⟩, ∅), (⟨1, 7⟩, ∅)] := by decide +kernel
  obtain rfl := hb.unique (between_entriesBetween ..)
  rw [htwo] at hb hl
  exact ⟨hb, hl⟩

end BurnerRedis
