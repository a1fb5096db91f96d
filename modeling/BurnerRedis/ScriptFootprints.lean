import BurnerRedis.Footprints

/-!
# The keys a script's command works on

A command of a script is confined to its keys as a method is (`Script.dispatchInner_touches`). Its
keys are found among its arguments: the first one, both keys of a move, all arguments of DEL and
EXISTS, and the first half of what follows the word STREAMS of XREAD (`Script.keysOf`).
-/

namespace BurnerRedis

open Locality

namespace Script

/-- The keys that a command of a script looks at. -/
def keysOf (cmd : String) (args : List Bytes) : List Bytes :=
  if cmd = "DEL" ∨ cmd = "EXISTS" then args
  else if cmd = "XREAD" then
    match xreadOptions args none with
    | .ok (_, remaining) => remaining.take (remaining.length / 2)
    | .error _ => []
  else if cmd = "LMOVE" ∨ cmd = "RPOPLPUSH" then args.take 2
  else args.take 1

variable {ρ : Type*} {P : Set Bytes} {e : Env} {args : List Bytes}

section Plain

variable {S : Type} [LinearOrder S]

/-- What is asked of the arguments does not look at the data. -/
theorem touches_ite {now : Instant} {c : Prop} [Decidable c] {f g : Data S → Data S × ρ}
    (hf : Touches now P f) (hg : Touches now P g) :
    Touches now P fun d => if c then f d else g d := by
  by_cases hc : c
  · simp only [if_pos hc]
    exact hf
  · simp only [if_neg hc]
    exact hg

/-- A reply that the data has no part in. -/
theorem reply_touches {now : Instant} (r : Reply) : Touches (S := S) now P fun d => (d, r) :=
  confined_pure r

/-! ## The commands with bodies of their own -/

/-- SET looks at its key twice, for NX and XX and for the write. -/
theorem set_touches (hk : ∀ k ∈ args.take 1, k ∈ P) : Touches (S := S) e.now P (set e args) := by
  unfold set
  split
  · rename_i key value rest
    cases setOptions rest {} with
    | error r => exact reply_touches r
    | ok o =>
      dsimp only
      refine
        { frame := fun d k hkP => ?_, answer := fun {d d'} h => ?_, result := fun {d d'} h => ?_ }
      · have hne : key ≠ k := fun he => hkP (he ▸ hk _ mem_first)
        rw [insert_purge]
        split_ifs
        · rfl
        · rfl
        · rw [live_insert, if_neg hne]
      · rw [h key (hk _ mem_first)]
        split_ifs <;> rfl
      · rw [insert_purge, insert_purge, h key (hk _ mem_first)]
        split_ifs
        · exact h
        · exact h
        · exact KeyEdit.sameOn_apply (.put _) h
  · exact reply_touches _

theorem del_touches (hk : ∀ k ∈ args, k ∈ P) : Touches (S := S) e.now P (del e args) := by
  unfold del
  refine touches_ite (reply_touches _) ?_
  exact (touches_foldl_count .drop (fun _ _ => rfl) hk 0).map integer

theorem existsKeys_touches (hk : ∀ k ∈ args, k ∈ P) :
    Touches (S := S) e.now P (existsKeys e args) := by
  unfold existsKeys
  refine touches_ite (reply_touches _) ?_
  exact (touches_foldl_count .keep (fun _ _ => rfl) hk 0).map integer

theorem expireAs_touches {name : String} {unit : ℕ → Duration} (hk : ∀ k ∈ args.take 1, k ∈ P) :
    Touches (S := S) e.now P (expireAs name unit e args) := by
  unfold expireAs
  split
  · rename_i key time
    cases parseI64 time with
    | none => exact reply_touches _
    | some n =>
      refine touches_look (hk _ mem_first) fun d d' hl => ?_
      simp only [getElem?_purge, insert_purge, erase_purge, hl]
      split
      · exact ⟨.drop, _, rfl, rfl⟩
      · cases live e.now d' key with
        | none => exact ⟨.keep, _, rfl, rfl⟩
        | some en => exact ⟨.put _, _, rfl, rfl⟩
  · exact reply_touches _

theorem xreadPairs_touches {count : Option ℕ} {pairs : List (Bytes × Bytes)}
    (hk : ∀ p ∈ pairs, p.1 ∈ P) : Touches (S := S) e.now P (xreadPairs e count pairs) := by
  induction pairs with
  | nil => exact confined_pure _
  | cons pair pairs ih =>
    have ih := ih fun p hp => hk p (List.mem_cons_of_mem _ hp)
    refine touches_look_then (hk pair List.mem_cons_self) fun d d' hl => ?_
    unfold xreadPairs
    simp only [getElem?_purge, hl]
    cases live e.now d' pair.1 with
    | none => exact ⟨.keep, _, ih, rfl, rfl⟩
    | some en =>
      dsimp only
      cases Kind.stream.get? en.data with
      | none => exact ⟨.keep, _, confined_pure _, rfl, rfl⟩
      | some stream => exact ⟨.keep, _, ih.map _, rfl, rfl⟩

/-- XREAD looks at the keys after STREAMS, one after the other. -/
theorem xread_touches (hk : ∀ k ∈ keysOf "XREAD" args, k ∈ P) :
    Touches (S := S) e.now P (xread e args) := by
  unfold xread
  refine touches_ite (reply_touches _) ?_
  unfold keysOf at hk
  simp only [String.reduceEq, or_self, if_false, if_true] at hk
  cases ho : xreadOptions args none with
  | error r => exact reply_touches r
  | ok o =>
    obtain ⟨count, remaining⟩ := o
    rw [ho] at hk
    dsimp only at hk ⊢
    let half := remaining.length / 2
    have hpairs : Touches (S := S) e.now P
        (xreadPairs e count ((remaining.take half).zip (remaining.drop half))) :=
      xreadPairs_touches fun p hp => hk p.1 (List.of_mem_zip hp).1
    refine touches_ite (reply_touches _) ⟨hpairs.frame, fun hs => ?_, hpairs.result⟩
    dsimp only
    rw [hpairs.answer hs]

/-- LMOVE works on its first two arguments. -/
theorem lmove_touches (hk : ∀ k ∈ args.take 2, k ∈ P) :
    Touches (S := S) e.now P (lmove e args) := by
  unfold lmove
  split
  · rename_i src dst srcFrom dstTo
    cases parseListEnd (fromUtf8Lossy srcFrom) with
    | error err => exact reply_touches _
    | ok srcFrom =>
      dsimp only
      cases parseListEnd (fromUtf8Lossy dstTo) with
      | error err => exact reply_touches _
      | ok dstTo => exact Store.moveAs_touches (hk _ (by simp)) (hk _ (by simp))
  · exact reply_touches _

theorem rpoplpush_touches (hk : ∀ k ∈ args.take 2, k ∈ P) :
    Touches (S := S) e.now P (rpoplpush e args) := by
  unfold rpoplpush
  split
  · exact Store.moveAs_touches (hk _ (by simp)) (hk _ (by simp))
  · exact reply_touches _

end Plain

/-! ## All commands -/

section Scores

variable {S : Type} [Score S]

/-- All other commands have one key, their first argument. -/
theorem keysOf_first {cmd : String} (hcmd : cmd ∉ ["DEL", "EXISTS", "XREAD", "LMOVE", "RPOPLPUSH"]) :
    keysOf cmd args = args.take 1 := by
  simp only [List.mem_cons, List.not_mem_nil, or_false, not_or] at hcmd
  simp [keysOf, hcmd]

/-- A command of a script is confined to its keys. -/
theorem dispatchInner_touches (e : Env) (cmd : String) (args : List Bytes)
    (hk : ∀ k ∈ keysOf cmd args, k ∈ P) :
    Touches (S := S) e.now P (dispatchInner e cmd args) := by
  have hone : cmd ∉ ["DEL", "EXISTS", "XREAD", "LMOVE", "RPOPLPUSH"] →
      ∀ k ∈ args.take 1, k ∈ P := by
    intro hcmd
    rw [← keysOf_first hcmd]
    exact hk
  apply dispatchInner_elim (motive := fun f => Touches e.now P f)
  case shape =>
    intro hown h
    have hsub : ["DEL", "EXISTS", "XREAD", "LMOVE", "RPOPLPUSH"] ⊆ ownBodies := by decide
    exact h.touches (hone fun hmem => hown (hsub hmem))
  case set => rintro rfl; exact set_touches (hone (by decide))
  case del => rintro rfl; exact del_touches (by simpa [keysOf] using hk)
  case existsKeys => rintro rfl; exact existsKeys_touches (by simpa [keysOf] using hk)
  case expireAs => rintro name unit (rfl | rfl) <;> exact expireAs_touches (hone (by decide))
  case xread => rintro rfl; exact xread_touches hk
  case lmove => rintro rfl; exact lmove_touches (by simpa [keysOf] using hk)
  case rpoplpush => rintro rfl; exact rpoplpush_touches (by simpa [keysOf] using hk)

end Scores

end Script

end BurnerRedis
