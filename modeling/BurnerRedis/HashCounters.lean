import BurnerRedis.LiveValues
import BurnerRedis.Script.Keys

/-!
# Counters in hashes

HINCRBY adds to the integer that a field of a hash is the text of. `Reads` says which integer that
is; the text is the one an integer is printed as and no other, so what a call stores is read by the
next one.
-/

namespace BurnerRedis

/-! ## The content of a field -/

/-- The integer that the content of a field counts as. -/
def Reads (content : Option Bytes) (n : ℤ) : Prop :=
  content = none ∧ n = 0 ∨ InI64 n ∧ content = some (decimalInt n)

theorem reads_decimalInt {n : ℤ} (h : InI64 n) : Reads (some (decimalInt n)) n := .inr ⟨h, rfl⟩

theorem reads_none_iff {n : ℤ} : Reads none n ↔ n = 0 := by
  unfold Reads
  simp

/-- A text is taken only in the form in which its integer is printed. -/
theorem reads_some_iff {value : Bytes} {n : ℤ} :
    Reads (some value) n ↔ ((parseI64 value).filter fun n => decimalInt n == value) = some n := by
  unfold Reads
  rw [Option.filter_eq_some_iff, beq_iff_eq, Option.some.injEq]
  constructor
  · rintro (⟨h, -⟩ | ⟨hn, rfl⟩)
    · cases h
    · exact ⟨parseI64_decimalInt hn, rfl⟩
  · rintro ⟨hparse, htext⟩
    exact .inr ⟨inI64_of_parseI64 hparse, htext.symm⟩

/-- A content counts as one integer. -/
theorem Reads.unique {content : Option Bytes} {n m : ℤ} (h : Reads content n)
    (h' : Reads content m) : n = m := by
  cases content with
  | none => rw [reads_none_iff.mp h, reads_none_iff.mp h']
  | some value =>
    rw [reads_some_iff] at h h'
    exact Option.some.inj (h.symm.trans h')

theorem hincrbyValue_add_ok_iff {increment n v : ℤ} :
    hincrbyValue.add increment n = .ok v ↔ InI64 (n + increment) ∧ v = n + increment := by
  unfold hincrbyValue.add
  split_ifs with h
  · rw [Except.ok.injEq, eq_comm, and_iff_right h]
  · simp [h]

/-- The sum is returned exactly when the content is an integer and the sum fits. -/
theorem hincrbyValue_ok_iff {content : Option Bytes} {increment v : ℤ} :
    hincrbyValue content increment = .ok v ↔
      ∃ n, Reads content n ∧ InI64 (n + increment) ∧ v = n + increment := by
  cases content with
  | none =>
    show hincrbyValue.add increment 0 = .ok v ↔ _
    simp only [hincrbyValue_add_ok_iff, reads_none_iff, exists_eq_left]
  | some value =>
    simp only [reads_some_iff]
    unfold hincrbyValue
    dsimp only
    cases (parseI64 value).filter fun n => decimalInt n == value with
    | none => simp
    | some n => simp only [hincrbyValue_add_ok_iff, Option.some.injEq, exists_eq_left']

/-! ## Calls -/

/-- A call of HINCRBY by the native method or by a script, with an increment that the caller can
give: a 64-bit integer, or a text that is read as one. -/
inductive IncrCall where
  | native (increment : ℤ) (fits : InI64 increment)
  | script (text : Bytes) (increment : ℤ) (parsed : parseI64 text = some increment)

namespace IncrCall

def increment : IncrCall → ℤ
  | native increment _ => increment
  | script _ increment _ => increment

theorem inI64_increment (c : IncrCall) : InI64 c.increment := by
  cases c with
  | native increment fits => exact fits
  | script text increment parsed => exact inI64_of_parseI64 parsed

end IncrCall

variable {S : Type} [LinearOrder S]

/-- The integer of a reply; none for an error. -/
def Script.integerOf : Script.Reply → Option ℤ
  | .ok (.integer n) => some n
  | _ => none

/-- What a call leaves and the integer it replies with, if it succeeds. -/
def IncrCall.run (e : Env) (key field : Bytes) (c : IncrCall) (d : Data S) : Data S × Option ℤ :=
  match c with
  | native increment _ =>
    ((Store.hincrby e key field increment d).1, (Store.hincrby e key field increment d).2.toOption)
  | script text _ _ =>
    ((Script.hincrby e [key, field, text] d).1,
      Script.integerOf (Script.hincrby e [key, field, text] d).2)

section Call

variable {e : Env} {d : Data S} {key field : Bytes} {map : FinMap Bytes Bytes}
  {exp : Option Instant}

/-- A call stores the sum in its field, or nothing. -/
theorem IncrCall.run_eq (c : IncrCall) (h : Finds .hash ∅ e.now d key map exp) (field : Bytes) :
    c.run e key field d = match hincrbyValue map[field]? c.increment with
      | .ok v => (d.insert key ⟨.hash (map.insert field (decimalInt v)), exp⟩, some v)
      | .error _ => (d.insert key ⟨.hash map, exp⟩, none) := by
  cases c with
  | native increment fits =>
    unfold IncrCall.run Store.hincrby
    dsimp only
    rw [h.upsertAs_eq]
    dsimp only [IncrCall.increment]
    cases hincrbyValue map[field]? increment <;> rfl
  | script text increment parsed =>
    unfold IncrCall.run Script.hincrby
    dsimp only
    rw [parsed]
    dsimp only
    rw [h.upsertAs_eq]
    dsimp only [IncrCall.increment]
    cases hincrbyValue map[field]? increment <;> rfl

/-- What a call does to a field of the hash under a key. -/
structure CallExact (e : Env) (d : Data S) (key field : Bytes) (map : FinMap Bytes Bytes)
    (exp : Option Instant) (c : IncrCall) : Prop where
  succeeds : (c.run e key field d).2.isSome = true ↔
    ∃ n, Reads map[field]? n ∧ InI64 (n + c.increment)
  stores : ∀ n, Reads map[field]? n → InI64 (n + c.increment) → c.run e key field d =
    (d.insert key ⟨.hash (map.insert field (decimalInt (n + c.increment))), exp⟩,
      some (n + c.increment))
  fails : (c.run e key field d).2 = none → (c.run e key field d).1 = d

theorem callExact (c : IncrCall) (h : Finds .hash ∅ e.now d key map exp) (field : Bytes) :
    CallExact e d key field map exp c := by
  have hrun := c.run_eq h field
  cases hval : hincrbyValue map[field]? c.increment with
  | ok v =>
    obtain ⟨n, hn, hfits, rfl⟩ := hincrbyValue_ok_iff.mp hval
    rw [hval] at hrun
    dsimp only at hrun
    refine ⟨?_, ?_, ?_⟩
    · rw [hrun]
      exact ⟨fun _ => ⟨n, hn, hfits⟩, fun _ => rfl⟩
    · intro m hm _
      rw [hrun, hn.unique hm]
    · intro hnone
      rw [hrun] at hnone
      cases hnone
  | error err =>
    have hno : ∀ n, Reads map[field]? n → ¬ InI64 (n + c.increment) := by
      intro n hn hfits
      have hok := hincrbyValue_ok_iff.mpr ⟨n, hn, hfits, rfl⟩
      rw [hval] at hok
      cases hok
    rw [hval] at hrun
    dsimp only at hrun
    refine ⟨?_, ?_, ?_⟩
    · rw [hrun]
      constructor
      · intro h
        cases h
      · rintro ⟨n, hn, hfits⟩
        exact absurd hfits (hno n hn)
    · intro n hn hfits
      exact absurd hfits (hno n hn)
    · intro _
      rw [hrun]
      rcases h with ⟨-, rfl, -⟩ | hl
      · -- a new field counts from zero, and every increment fits
        have hzero : Reads (∅ : FinMap Bytes Bytes)[field]? 0 := by
          rw [Std.ExtTreeMap.getElem?_empty, reads_none_iff]
        have hfits := hno 0 hzero
        rw [Int.zero_add] at hfits
        exact absurd c.inI64_increment hfits
      · exact FinMap.insert_self_of_getElem? (live_eq_some.mp hl).1

end Call

/-! ## Runs -/

/-- Calls one after the other, each at its own time: what they leave, and for each its increment
and its reply. -/
def runCalls (key field : Bytes) : List (Env × IncrCall) → Data S → Data S × List (ℤ × Option ℤ)
  | [], d => (d, [])
  | (e, c) :: calls, d =>
    let r := c.run e key field d
    let rest := runCalls key field calls r.1
    (rest.1, (c.increment, r.2) :: rest.2)

/-- The sum of the increments that succeeded. -/
def added (log : List (ℤ × Option ℤ)) : ℤ :=
  ((log.filter fun r => r.2.isSome).map Prod.fst).sum

/-- The content of a field of the hash under a key. -/
def liveField (now : Instant) (d : Data S) (key field : Bytes) : Option Bytes :=
  (liveAs Kind.hash now d key).bind fun map => map[field]?

section Runs

variable {d : Data S} {key field : Bytes} {map : FinMap Bytes Bytes} {exp : Option Instant}

theorem Finds.liveField_eq {now : Instant} (h : Finds .hash ∅ now d key map exp) (field : Bytes) :
    liveField now d key field = map[field]? := by
  unfold liveField
  rcases h with ⟨hl, rfl, -⟩ | hl
  · rw [liveAs_of_absent hl, Option.bind_none, Std.ExtTreeMap.getElem?_empty]
  · rw [liveAs_of_live hl, Option.bind_some]

theorem added_cons (i : ℤ) (r : Option ℤ) (log : List (ℤ × Option ℤ)) :
    added ((i, r) :: log) = (if r.isSome then i else 0) + added log := by
  unfold added
  rw [List.filter_cons]
  cases r <;> simp

/-- One call leaves a hash under the same expiry, its field counting what was added. -/
theorem run_step {e : Env} (c : IncrCall) (h : Finds .hash ∅ e.now d key map exp) (field : Bytes) :
    ∃ map' : FinMap Bytes Bytes,
      (∀ now, Finds .hash ∅ now d key map exp →
        Finds .hash ∅ now (c.run e key field d).1 key map' exp) ∧
      (∀ n, Reads map[field]? n → Reads map'[field]?
        (n + if (c.run e key field d).2.isSome then c.increment else 0)) ∧
      ((c.run e key field d).2.isSome = true ∨ map[field]?.isSome = true →
        map'[field]?.isSome = true) := by
  cases hval : hincrbyValue map[field]? c.increment with
  | ok v =>
    have hrun := c.run_eq h field
    rw [hval] at hrun
    obtain ⟨n, hn, hfits, rfl⟩ := hincrbyValue_ok_iff.mp hval
    refine ⟨map.insert field (decimalInt (n + c.increment)), ?_, ?_, ?_⟩
    · intro now hnow
      rw [hrun]
      exact hnow.insert _
    · intro m hm
      rw [hrun, hm.unique hn, FinMap.getElem?_insert', if_pos rfl]
      exact reads_decimalInt hfits
    · intro _
      rw [FinMap.getElem?_insert', if_pos rfl]
      rfl
  | error err =>
    have hnone : (c.run e key field d).2 = none := by rw [c.run_eq h field, hval]
    refine ⟨map, ?_, ?_, ?_⟩
    · rw [(callExact c h field).fails hnone]
      exact fun now hnow => hnow
    · intro n hn
      rw [hnone, Option.isSome_none, if_neg Bool.false_ne_true, Int.add_zero]
      exact hn
    · rw [hnone]
      intro hsome
      exact hsome.resolve_left Bool.false_ne_true

/-- A run leaves a hash under the same expiry, its field counting what was added. -/
theorem runCalls_spec {calls : List (Env × IncrCall)}
    (h : ∀ p ∈ calls, Finds .hash ∅ p.1.now d key map exp) (field : Bytes) :
    ∃ map' : FinMap Bytes Bytes,
      (∀ now, Finds .hash ∅ now d key map exp →
        Finds .hash ∅ now (runCalls key field calls d).1 key map' exp) ∧
      (∀ n, Reads map[field]? n →
        Reads map'[field]? (n + added (runCalls key field calls d).2)) ∧
      ((∃ r ∈ (runCalls key field calls d).2, r.2.isSome = true) ∨ map[field]?.isSome = true →
        map'[field]?.isSome = true) := by
  induction calls generalizing d map with
  | nil =>
    refine ⟨map, fun _ hnow => hnow, ?_, ?_⟩
    · intro n hn
      rw [show added (runCalls key field [] d).2 = 0 from rfl, Int.add_zero]
      exact hn
    · rintro (⟨r, hr, -⟩ | hsome)
      · cases hr
      · exact hsome
  | cons p calls ih =>
    obtain ⟨e, c⟩ := p
    obtain ⟨map₁, hfinds₁, hreads₁, hsome₁⟩ := run_step c (h _ List.mem_cons_self) field
    obtain ⟨map₂, hfinds₂, hreads₂, hsome₂⟩ :=
      ih fun p hp => hfinds₁ p.1.now (h p (List.mem_cons_of_mem _ hp))
    refine ⟨map₂, fun now hnow => hfinds₂ now (hfinds₁ now hnow), ?_, ?_⟩
    · intro n hn
      have hread := hreads₂ _ (hreads₁ n hn)
      rw [runCalls, added_cons, ← Int.add_assoc]
      exact hread
    · intro hany
      apply hsome₂
      rcases hany with ⟨r, hr, hs⟩ | hs
      · rcases List.mem_cons.mp hr with rfl | hr
        · exact .inr (hsome₁ (.inl hs))
        · exact .inl ⟨r, hr, hs⟩
      · exact .inr (hsome₁ (.inr hs))

/-- Where the content of the field is no integer, every call fails and nothing changes. -/
theorem runCalls_of_not_reads {calls : List (Env × IncrCall)}
    (h : ∀ p ∈ calls, Finds .hash ∅ p.1.now d key map exp) (hno : ∀ n, ¬ Reads map[field]? n) :
    (runCalls key field calls d).1 = d ∧ ∀ r ∈ (runCalls key field calls d).2, r.2 = none := by
  induction calls with
  | nil => exact ⟨rfl, fun _ hr => absurd hr List.not_mem_nil⟩
  | cons p calls ih =>
    obtain ⟨e, c⟩ := p
    have hcall := callExact c (h _ List.mem_cons_self) field
    have hnone : (c.run e key field d).2 = none := by
      rw [← Option.not_isSome_iff_eq_none, hcall.succeeds]
      rintro ⟨n, hn, -⟩
      exact hno n hn
    obtain ⟨hdata, hreplies⟩ := ih fun p hp => h p (List.mem_cons_of_mem _ hp)
    rw [runCalls]
    dsimp only
    rw [hcall.fails hnone]
    refine ⟨hdata, ?_⟩
    rintro r hr
    rcases List.mem_cons.mp hr with rfl | hr
    · exact hnone
    · exact hreplies r hr

/-- What a run of calls does to a field. -/
structure RunExact (d : Data S) (key field : Bytes) (map : FinMap Bytes Bytes)
    (exp : Option Instant) (calls : List (Env × IncrCall)) : Prop where
  each : ∀ before e c after, calls = before ++ (e, c) :: after → ∃ map' : FinMap Bytes Bytes,
    Finds .hash ∅ e.now (runCalls key field before d).1 key map' exp ∧
      CallExact e (runCalls key field before d).1 key field map' exp c
  counts : ∀ n, Reads map[field]? n → ∀ now, Finds .hash ∅ now d key map exp →
    Reads (liveField now (runCalls key field calls d).1 key field)
      (n + added (runCalls key field calls d).2)
  text : ∀ n, Reads map[field]? n → ∀ now, Finds .hash ∅ now d key map exp →
    (∃ r ∈ (runCalls key field calls d).2, r.2.isSome = true) →
      liveField now (runCalls key field calls d).1 key field =
        some (decimalInt (n + added (runCalls key field calls d).2))
  refused : (∀ n, ¬ Reads map[field]? n) →
    (runCalls key field calls d).1 = d ∧ ∀ r ∈ (runCalls key field calls d).2, r.2 = none

/-- HINCRBY is exact addition over runs of calls of either kind, as long as the key does not
expire between them. -/
theorem hincrby_exact {calls : List (Env × IncrCall)}
    (h : ∀ p ∈ calls, Finds .hash ∅ p.1.now d key map exp) :
    RunExact d key field map exp calls := by
  obtain ⟨map', hfinds, hreads, hsome⟩ := runCalls_spec h field
  refine ⟨?_, ?_, ?_, runCalls_of_not_reads h⟩
  · rintro before e c after rfl
    have hbefore : ∀ p ∈ before, Finds .hash ∅ p.1.now d key map exp :=
      fun p hp => h p (List.mem_append_left _ hp)
    obtain ⟨map₁, hfinds₁, -, -⟩ := runCalls_spec hbefore field
    have hnow := hfinds₁ e.now (h (e, c) (List.mem_append_right _ List.mem_cons_self))
    exact ⟨map₁, hnow, callExact c hnow field⟩
  · intro n hn now hnow
    rw [(hfinds now hnow).liveField_eq]
    exact hreads n hn
  · intro n hn now hnow hany
    rw [(hfinds now hnow).liveField_eq]
    obtain ⟨value, hvalue⟩ := Option.isSome_iff_exists.mp (hsome (.inl hany))
    rcases hreads n hn with ⟨hnone, -⟩ | ⟨-, htext⟩
    · rw [hvalue] at hnone
      cases hnone
    · exact htext

end Runs

/-- Three calls on a field that is not there, the second of which would overflow. -/
def threeIncrements : List (Env × IncrCall) :=
  [(⟨0, 0, .byKey⟩, .native (2 ^ 63 - 1) (by decide)),
    (⟨1, 0, .byKey⟩, .script (ascii "+1") 1 (by decide +kernel)),
    (⟨2, 0, .byKey⟩, .script (ascii "-7") (-7) (by decide +kernel))]

theorem threeIncrements_exact :
    RunExact (∅ : Data ℤ) (ascii "h") (ascii "f") ∅ none threeIncrements ∧
      (runCalls (ascii "h") (ascii "f") threeIncrements (∅ : Data ℤ)).2 =
        [(2 ^ 63 - 1, some (2 ^ 63 - 1)), (1, none), (-7, some (2 ^ 63 - 8))] := by
  constructor
  · apply hincrby_exact
    intro p _
    exact .inl ⟨rfl, rfl, rfl⟩
  · decide +kernel

end BurnerRedis
