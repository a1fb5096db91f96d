import Mathlib

/-!
# Files, system calls and power failures

A disk has numbered files and a directory that names them. What is written to a file, and what
becomes of the directory, reaches the medium later: after a power failure a file that was not synced
holds anything, and the directory is the present one or any that came before it.

A program is a tree of system calls, each of which can fail. It can be killed at any of them.

A file is replaced safely by another that is written beside it, synced and renamed: the invariant is
`Intact`, with one rule for each system call.
-/

namespace FileSystem

/-- What a file holds, and whether the medium holds it too. -/
structure File (β : Type*) where
  content : List β
  synced : Bool

structure Disk (π β : Type*) where
  dir : π → Option ℕ
  /-- the directories that the medium may hold in place of `dir` -/
  older : List (π → Option ℕ)
  file : ℕ → File β
  /-- the number of the next new file -/
  next : ℕ

section Disk

variable {π β : Type*}

namespace Disk

def blank : Disk π β := ⟨fun _ => none, [], fun _ => ⟨[], true⟩, 0⟩

def read (d : Disk π β) (p : π) : Option (List β) := (d.dir p).map fun i => (d.file i).content

/-- After a power failure: some directory that the medium may hold, and anything where no file was
synced. -/
def powerLoss (i : ℕ) (junk : ℕ → List β) (d : Disk π β) : Disk π β where
  dir := ((d.dir :: d.older)[i]?).getD d.dir
  older := []
  file j := if (d.file j).synced then d.file j else ⟨junk j, true⟩
  next := d.next

/-- The file under this name now holds this. -/
def setFile (p : π) (f : File β → File β) (d : Disk π β) : Disk π β :=
  match d.dir p with
  | some i => { d with file := Function.update d.file i (f (d.file i)) }
  | none => d

/-- The directory is changed; the medium may go on to hold the one before. -/
def setDir (dir : π → Option ℕ) (d : Disk π β) : Disk π β :=
  { d with dir := dir, older := d.dir :: d.older }

/-- A new file, which has no name yet. -/
def alloc (f : File β) (d : Disk π β) : Disk π β :=
  { d with file := Function.update d.file d.next f, next := d.next + 1 }

variable [DecidableEq π]

/-- An empty file under this name: the file that has it is emptied. -/
def create (p : π) (d : Disk π β) : Disk π β :=
  match d.dir p with
  | some _ => d.setFile p fun _ => ⟨[], false⟩
  | none => (d.alloc ⟨[], false⟩).setDir (Function.update d.dir p (some d.next))

def rename (p q : π) (d : Disk π β) : Disk π β :=
  match d.dir p with
  | some i => d.setDir (Function.update (Function.update d.dir q (some i)) p none)
  | none => d

def remove (p : π) (d : Disk π β) : Disk π β := d.setDir (Function.update d.dir p none)

end Disk

section Files

variable {d : Disk π β} {p : π}

theorem Disk.setFile_dir (f : File β → File β) : (d.setFile p f).dir = d.dir := by
  unfold setFile
  split <;> rfl

theorem Disk.setFile_file (f : File β → File β) {i : ℕ} (hi : d.dir p = some i) :
    (d.setFile p f).file i = f (d.file i) := by
  simp only [setFile, hi, Function.update_self]

theorem Disk.create_opens [DecidableEq π] :
    ∃ i, (d.create p).dir p = some i ∧ ((d.create p).file i).content = [] := by
  unfold create
  cases hi : d.dir p with
  | some i => exact ⟨i, by rw [setFile_dir, hi], by rw [setFile_file _ hi]⟩
  | none => exact ⟨d.next, Function.update_self .., by simp [setDir, alloc]⟩

end Files

/-! ## Programs -/

inductive Syscall (π β : Type*) where
  | create (p : π)
  | writeAll (p : π) (bytes : List β)
  | sync (p : π)
  | rename (p q : π)
  | remove (p : π)

namespace Syscall

variable [DecidableEq π]

def effect : Syscall π β → Disk π β → Disk π β
  | create p => Disk.create p
  | writeAll p bytes => Disk.setFile p fun f => ⟨f.content ++ bytes, false⟩
  | sync p => Disk.setFile p fun f => ⟨f.content, true⟩
  | rename p q => Disk.rename p q
  | remove p => Disk.remove p

/-- What is left of a call that is cut short: of a write, the first bytes. -/
def cut (n : ℕ) : Syscall π β → Disk π β → Disk π β
  | writeAll p bytes => Disk.setFile p fun f => ⟨f.content ++ bytes.take n, false⟩
  | _ => id

/-- A call that succeeds, or fails with this error and so much written. -/
def perform {ε : Type*} (c : Syscall π β) (fault : Option (ε × ℕ)) (d : Disk π β) :
    Disk π β × Except ε Unit :=
  match fault with
  | none => (c.effect d, .ok ())
  | some (err, n) => (c.cut n d, .error err)

end Syscall

/-- A program that makes system calls one after the other. -/
inductive Prog (π β ε ρ : Type*) where
  | done (r : ρ)
  | call (c : Syscall π β) (next : Except ε Unit → Prog π β ε ρ)

namespace Prog

variable {ε ρ : Type*} [DecidableEq π]

/-- The next system call. -/
def step (fault : Option (ε × ℕ)) : Prog π β ε ρ → Disk π β → Prog π β ε ρ × Disk π β
  | done r, d => (done r, d)
  | call c next, d => (next (c.perform fault d).2, (c.perform fault d).1)

/-- The disk when the program is killed before its next system call, or in it. -/
def killed (cut : Option ℕ) : Prog π β ε ρ → Disk π β → Disk π β
  | done _, d => d
  | call c _, d => cut.elim d fun n => c.cut n d

end Prog

/-! ## Safe replacement -/

/-- Whatever the medium holds, the file at `path` is whole: it is synced, its content is good, and it
is not the file that is written beside it. -/
structure Intact (tmp path : π) (good : List β → Prop) (d : Disk π β) : Prop where
  bound : ∀ dir ∈ d.dir :: d.older, ∀ p i, dir p = some i → i < d.next
  whole : ∀ dir ∈ d.dir :: d.older, ∀ i, dir path = some i →
    (d.file i).synced = true ∧ good (d.file i).content
  apart : ∀ dir ∈ d.dir :: d.older, ∀ i, dir path = some i → d.dir tmp ≠ some i
  distinct : ∀ dir ∈ d.dir :: d.older, ∀ i, dir path = some i → dir tmp ≠ some i

section Intact

variable {tmp path : π} {good : List β → Prop} {d : Disk π β}

theorem intact_blank : Intact tmp path good (Disk.blank : Disk π β) := by
  have hnone : ∀ dir ∈ [fun _ : π => (none : Option ℕ)], ∀ p i, dir p ≠ some i := by
    intro dir hdir p i h
    rw [List.mem_singleton.mp hdir] at h
    cases h
  exact ⟨fun dir hdir p i h => absurd h (hnone dir hdir p i),
    fun dir hdir i h => absurd h (hnone dir hdir path i),
    fun dir hdir i h => absurd h (hnone dir hdir path i),
    fun dir hdir i h => absurd h (hnone dir hdir path i)⟩

theorem Intact.mono {good' : List β → Prop} (h : Intact tmp path good d)
    (hg : ∀ bytes, good bytes → good' bytes) : Intact tmp path good' d :=
  ⟨h.bound, fun dir hdir i hi => ⟨(h.whole dir hdir i hi).1, hg _ (h.whole dir hdir i hi).2⟩,
    h.apart, h.distinct⟩

theorem Intact.setFile (h : Intact tmp path good d) (f : File β → File β) :
    Intact tmp path good (d.setFile tmp f) := by
  unfold Disk.setFile
  cases hi : d.dir tmp with
  | none => exact h
  | some i =>
    refine ⟨h.bound, fun dir hdir j hj => ?_, h.apart, h.distinct⟩
    have hne : j ≠ i := fun he => h.apart dir hdir j hj (he ▸ hi)
    simpa only [Function.update_of_ne hne] using h.whole dir hdir j hj

theorem Intact.setDir (h : Intact tmp path good d) {dir' : π → Option ℕ}
    (hb : ∀ p i, dir' p = some i → i < d.next)
    (hw : ∀ i, dir' path = some i → (d.file i).synced = true ∧ good (d.file i).content)
    (ha : ∀ dir ∈ dir' :: d.dir :: d.older, ∀ i, dir path = some i → dir' tmp ≠ some i) :
    Intact tmp path good (d.setDir dir') where
  bound dir hdir p i hi := by
    rcases List.mem_cons.mp hdir with rfl | hdir
    · exact hb p i hi
    · exact h.bound dir hdir p i hi
  whole dir hdir i hi := by
    rcases List.mem_cons.mp hdir with rfl | hdir
    · exact hw i hi
    · exact h.whole dir hdir i hi
  apart := ha
  distinct dir hdir i hi := by
    rcases List.mem_cons.mp hdir with rfl | hdir
    · exact ha _ List.mem_cons_self i hi
    · exact h.distinct dir hdir i hi

theorem Intact.alloc (h : Intact tmp path good d) (f : File β) :
    Intact tmp path good (d.alloc f) where
  bound dir hdir p i hi := (h.bound dir hdir p i hi).trans (Nat.lt_succ_self _)
  whole dir hdir i hi := by
    have hne : i ≠ d.next := (h.bound dir hdir path i hi).ne
    simpa only [Disk.alloc, Function.update_of_ne hne] using h.whole dir hdir i hi
  apart := h.apart
  distinct := h.distinct

theorem Intact.powerLoss (h : Intact tmp path good d) (i : ℕ) (junk : ℕ → List β) :
    Intact tmp path good (d.powerLoss i junk) := by
  have hdir : ((d.dir :: d.older)[i]?).getD d.dir ∈ d.dir :: d.older := by
    cases hi : (d.dir :: d.older)[i]? with
    | none => exact List.mem_cons_self
    | some dir => exact List.mem_of_getElem? hi
  have hmem : ∀ {dir}, dir ∈ (d.powerLoss i junk).dir :: (d.powerLoss i junk).older →
      dir = ((d.dir :: d.older)[i]?).getD d.dir := List.mem_singleton.mp
  refine ⟨fun dir hd p j hj => ?_, fun dir hd j hj => ?_, fun dir hd j hj => ?_,
    fun dir hd j hj => ?_⟩
  all_goals rw [hmem hd] at hj
  · exact h.bound _ hdir p j hj
  · obtain ⟨hsynced, hgood⟩ := h.whole _ hdir j hj
    simp only [Disk.powerLoss, hsynced, if_true]
    exact ⟨trivial, hgood⟩
  · exact h.distinct _ hdir j hj
  · rw [hmem hd]
    exact h.distinct _ hdir j hj

/-- What is read at `path` is good. -/
theorem Intact.read (h : Intact tmp path good d) {bytes : List β} (hr : d.read path = some bytes) :
    good bytes := by
  obtain ⟨i, hi, rfl⟩ := Option.map_eq_some_iff.mp hr
  exact (h.whole _ List.mem_cons_self i hi).2

theorem Intact.read_setFile (h : Intact tmp path good d) (f : File β → File β) :
    (d.setFile tmp f).read path = d.read path := by
  unfold Disk.setFile
  cases hi : d.dir tmp with
  | none => rfl
  | some i =>
    refine Option.map_congr fun j hj => ?_
    have hne : j ≠ i := fun he => h.apart _ List.mem_cons_self j hj (he ▸ hi)
    exact congrArg File.content (Function.update_of_ne hne ..)

theorem Intact.read_alloc (h : Intact tmp path good d) (f : File β) :
    (d.alloc f).read path = d.read path := by
  refine Option.map_congr fun j hj => ?_
  have hne : j ≠ d.next := (h.bound _ List.mem_cons_self path j hj).ne
  exact congrArg File.content (Function.update_of_ne hne ..)

theorem read_setDir {dir' : π → Option ℕ} (hp : dir' path = d.dir path) :
    (d.setDir dir').read path = d.read path := by
  simp only [Disk.setDir, Disk.read, hp]

variable [DecidableEq π]

theorem Intact.create (h : Intact tmp path good d) (hne : path ≠ tmp) :
    Intact tmp path good (d.create tmp) ∧ (d.create tmp).read path = d.read path := by
  unfold Disk.create
  cases hi : d.dir tmp with
  | some i => exact ⟨h.setFile _, h.read_setFile _⟩
  | none =>
    have hp : Function.update d.dir tmp (some d.next) path = d.dir path :=
      Function.update_of_ne hne ..
    refine ⟨(h.alloc _).setDir (fun p i hi => ?_) (fun i hi => ?_) (fun dir hdir i hi => ?_),
      (read_setDir (d := d.alloc _) hp).trans (h.read_alloc _)⟩
    · by_cases hpt : p = tmp
      · rw [hpt, Function.update_self] at hi
        cases hi
        exact Nat.lt_succ_self _
      · rw [Function.update_of_ne hpt] at hi
        exact (h.bound _ List.mem_cons_self p i hi).trans (Nat.lt_succ_self _)
    · rw [hp] at hi
      exact (h.alloc _).whole _ List.mem_cons_self i hi
    · have hlt : i < d.next := by
        rcases List.mem_cons.mp hdir with rfl | hdir
        · rw [hp] at hi
          exact h.bound _ List.mem_cons_self path i hi
        · exact h.bound dir hdir path i hi
      rw [Function.update_self]
      exact fun he => hlt.ne (Option.some.inj he).symm

theorem Intact.remove (h : Intact tmp path good d) (hne : path ≠ tmp) :
    Intact tmp path good (d.remove tmp) ∧ (d.remove tmp).read path = d.read path := by
  have hp : Function.update d.dir tmp none path = d.dir path := Function.update_of_ne hne ..
  refine ⟨h.setDir (fun p i hi => ?_) (fun i hi => ?_) (fun dir hdir i hi => ?_), read_setDir hp⟩
  · by_cases hpt : p = tmp
    · rw [hpt, Function.update_self] at hi
      cases hi
    · rw [Function.update_of_ne hpt] at hi
      exact h.bound _ List.mem_cons_self p i hi
  · rw [hp] at hi
    exact h.whole _ List.mem_cons_self i hi
  · rw [Function.update_self]
    simp

/-- A whole file may take the place of the one at `path`. -/
theorem Intact.rename (h : Intact tmp path good d) (hne : path ≠ tmp) {i : ℕ}
    (hi : d.dir tmp = some i) (hs : (d.file i).synced = true) (hg : good (d.file i).content) :
    Intact tmp path good (d.rename tmp path) ∧
      (d.rename tmp path).read path = some (d.file i).content := by
  have hp : Function.update (Function.update d.dir path (some i)) tmp none path = some i := by
    rw [Function.update_of_ne hne, Function.update_self]
  simp only [Disk.rename, hi]
  refine ⟨h.setDir (fun p j hj => ?_) (fun j hj => ?_) (fun dir hdir j hj => ?_), ?_⟩
  · by_cases hpt : p = tmp
    · rw [hpt, Function.update_self] at hj
      cases hj
    · rw [Function.update_of_ne hpt] at hj
      by_cases hpp : p = path
      · rw [hpp, Function.update_self] at hj
        cases hj
        exact h.bound _ List.mem_cons_self tmp i hi
      · rw [Function.update_of_ne hpp] at hj
        exact h.bound _ List.mem_cons_self p j hj
  · rw [hp] at hj
    cases hj
    exact ⟨hs, hg⟩
  · rw [Function.update_self]
    simp
  · simp only [Disk.setDir, Disk.read, hp, Option.map_some]

end Intact

end Disk

end FileSystem
