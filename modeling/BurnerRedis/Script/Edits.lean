import BurnerRedis.Script.Shapes

/-!
# What a script's commands edit

A command of a shape edits as its shape does; each of the eight bodies that are left has a lemma
here. `dispatchInner_edits` puts them together for every command, and `dispatchCommand_edits` adds
the clock that ends.
-/

namespace BurnerRedis

namespace Script

/-! ## The bodies of no shape -/

section Edits

variable {S : Type} [LinearOrder S] {e : Env} {p : Set Effect} {args : List Bytes} {d : Data S}

theorem set_edits : Edits e.now p d (set e args d).1 := by
  unfold set
  split
  · dsimp only
    split
    · exact .refl
    · split_ifs
      · exact .refl
      · exact .refl
      · rw [insert_purge]
        exact write_edits (.string _ _)
  · exact .refl

theorem del_edits : Edits e.now p d (del e args d).1 := by
  unfold del
  split
  · exact .refl
  · exact Store.delete_edits

theorem existsKeys_edits : Edits e.now p d (existsKeys e args d).1 := by
  unfold existsKeys
  split
  · exact .refl
  · dsimp only
    generalize (0 : ℤ) = n
    clear * -
    induction args generalizing d n with
    | nil => exact .refl
    | cons key args ih => exact purge_edits.trans (ih _)

theorem expireAs_edits {name : String} {unit : ℕ → Duration} :
    Edits e.now p d (expireAs name unit e args d).1 := by
  unfold expireAs
  split
  · rename_i key time
    split
    · exact .refl
    · split
      · rw [erase_purge]
        exact .single (.drop _ key)
      · rw [getElem?_purge]
        cases hl : live e.now d key with
        | none => exact purge_edits
        | some en =>
          dsimp only
          rw [insert_purge]
          exact write_edits (by rw [liveData, hl]; exact .refl p _)
  · exact .refl

theorem xreadPairs_edits {count : Option ℕ} {pairs : List (Bytes × Bytes)} :
    Edits e.now p d (xreadPairs e count pairs d).1 := by
  induction pairs generalizing d with
  | nil => exact .refl
  | cons pair pairs ih =>
    have hpurge : Edits e.now p d (purge e.now pair.1 d) := purge_edits
    refine hpurge.trans ?_
    unfold xreadPairs
    dsimp only
    split
    · exact ih
    · split
      · exact .refl
      · exact ih

theorem xread_edits : Edits e.now p d (xread e args d).1 := by
  unfold xread
  split
  · exact .refl
  · split
    · exact .refl
    · split
      · exact .refl
      · exact xreadPairs_edits

/-- A move grows its destination, and tells its reply so. -/
theorem moved_edits {cmd : String} {src dst : Bytes} {srcFrom dstTo : ListEnd}
    (hcmd : ∀ v, (wakes cmd (bulk v)).list = true) :
    Edits e.now
      (wakes cmd (Store.moveAs e.now src dst srcFrom dstTo (.ok .nil) wrongType bulk d).2).effects d
      (Store.moveAs e.now src dst srcFrom dstTo (.ok .nil) wrongType bulk d).1 :=
  Store.moveAs_edits (w := fun r => (wakes cmd r).effects) fun v => Wake.grow_mem (hcmd v)

theorem lmove_edits : Edits e.now (wakes "LMOVE" (lmove e args d).2).effects d (lmove e args d).1 := by
  unfold lmove
  split
  · split
    · exact .refl
    · split
      · exact .refl
      · exact moved_edits fun _ => rfl
  · exact .refl

theorem rpoplpush_edits :
    Edits e.now (wakes "RPOPLPUSH" (rpoplpush e args d).2).effects d (rpoplpush e args d).1 := by
  unfold rpoplpush
  split
  · exact moved_edits fun _ => rfl
  · exact .refl

end Edits

/-! ## All commands -/

section DispatchEdits

variable {S : Type} [Score S]

/-- Every command edits with the effects of scripts and those that it wakes clients for. -/
theorem dispatchInner_edits {p : Set Effect} (hack : .ack ∈ p) (hforce : .force ∈ p) (e : Env)
    (cmd : String) (args : List Bytes) (d : Data S) :
    Edits e.now ((wakes cmd (dispatchInner e cmd args d).2).effects ∪ p) d
      (dispatchInner e cmd args d).1 := by
  have hp : scriptEffects ⊆ p := Set.insert_subset hack (Set.singleton_subset_iff.mpr hforce)
  apply dispatchInner_elim
    (motive := fun f => Edits e.now ((wakes cmd (f d).2).effects ∪ p) d (f d).1)
  case shape =>
    intro _ h
    have hedits := (h.result d).edits fun hq => hq.evolves
    exact hedits.mono (Set.union_subset_union_right _ hp)
  case set => exact fun _ => set_edits
  case del => exact fun _ => del_edits
  case existsKeys => exact fun _ => existsKeys_edits
  case expireAs => exact fun _ _ _ => expireAs_edits
  case xread => exact fun _ => xread_edits
  case lmove => rintro rfl; exact lmove_edits.mono Set.subset_union_left
  case rpoplpush => rintro rfl; exact rpoplpush_edits.mono Set.subset_union_left

/-- The same with a clock that ends. -/
theorem dispatchCommand_edits {p : Set Effect} (hack : .ack ∈ p) (hforce : .force ∈ p) (e : Env)
    (cmd : String) (args : List Bytes) (d : Data S) :
    Edits e.now (((dispatchCommand e cmd args d).2.elim {} Prod.snd).effects ∪ p) d
      (dispatchCommand e cmd args d).1 := by
  unfold dispatchCommand
  rcases dispatchInner?_spec e cmd args d with ⟨-, h⟩ | ⟨-, key, h⟩
  · rw [h]
    exact dispatchInner_edits hack hforce e cmd args d
  · rw [h]
    exact purge_edits

end DispatchEdits

end Script

end BurnerRedis
