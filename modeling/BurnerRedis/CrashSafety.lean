import BurnerRedis.Sweeps
import BurnerRedis.Lib.Disk

/-!
# Saves that crash

A snapshot is written beside the file at `path`, synced, and renamed. The process may be killed at
every system call and every system call may fail. The file at `path` is whole all the time, and
holds the snapshot of the last save that came to its rename (`saves_survive`). The directory is never
synced, so that a power failure may bring back a file of before, but never a torn one.
-/

namespace BurnerRedis

open FileSystem

/-! ## Saving and loading -/

/-- What stands for `rmp_serde`. -/
structure Format (S : Type) where
  encode : PersistableStore S → Option (List UInt8)
  decode : List UInt8 → Option (PersistableStore S)

/-- What was written is read back. -/
def Format.RoundTrips {S : Type} (fmt : Format S) : Prop :=
  ∀ snapshot bytes, fmt.encode snapshot = some bytes → fmt.decode bytes = some snapshot

inductive PersistenceError (ε : Type) where
  | io (err : ε)
  | serialize
  | deserialize
deriving DecidableEq

/-- A save that has not returned. -/
abbrev Saving (ε : Type) := Prog String UInt8 ε (Except (PersistenceError ε) Unit)

def tmpPath (path : String) : String := path ++ ".tmp"

section Persistence

variable {S : Type} [LinearOrder S] {ε : Type}

/-- The temporary file is removed after an error; whether that succeeds is not asked. -/
def removeTmp (path : String) (err : ε) : Saving ε :=
  .call (.remove (tmpPath path)) fun _ => .done (.error (.io err))

def renameTmp (path : String) : Saving ε :=
  .call (.rename (tmpPath path) path) fun
    | .ok () => .done (.ok ())
    | .error err => removeTmp path err

def syncTmp (path : String) : Saving ε :=
  .call (.sync (tmpPath path)) fun
    | .ok () => renameTmp path
    | .error err => removeTmp path err

def writeTmp (path : String) (serialized : List UInt8) : Saving ε :=
  .call (.writeAll (tmpPath path) serialized) fun
    | .ok () => syncTmp path
    | .error err => removeTmp path err

def createTmp (path : String) (serialized : List UInt8) : Saving ε :=
  .call (.create (tmpPath path)) fun
    | .ok () => writeTmp path serialized
    | .error err => removeTmp path err

/-- `save_to_path` -/
def saveToPath (fmt : Format S) (e : Env) (store : Store S) (path : String) : Saving ε :=
  match fmt.encode (.fromStore e store) with
  | none => .done (.error .serialize)
  | some serialized => createTmp path serialized

/-- `load_from_path`; the read can fail. -/
def loadFromPath (fmt : Format S) (path : String) (fault : Option ε) (disk : Disk String UInt8) :
    Except (PersistenceError ε) (Option (PersistableStore S)) :=
  match disk.read path with
  | none => .ok none
  | some data => match fault with
    | some err => .error (.io err)
    | none => match fmt.decode data with
      | none => .error .deserialize
      | some snapshot => .ok (some snapshot)

/-- `Store::load_into` -/
def Store.loadInto (fmt : Format S) (now : Instant) (path : String) (fault : Option ε)
    (disk : Disk String UInt8) (store : Store S) :
    Store S × Except (PersistenceError ε) Bool :=
  match loadFromPath fmt path fault disk with
  | .error err => (store, .error err)
  | .ok none => (store, .ok false)
  | .ok (some snapshot) => (snapshot.intoRuntime now, .ok true)

/-- The store of `BurnerRedis::new`: whatever goes wrong with the file, it starts. -/
def newStore (fmt : Format S) (now : Instant) (path : String) (fault : Option ε)
    (disk : Disk String UInt8) : Store S :=
  (Store.loadInto fmt now path fault disk ⟨∅, ∅⟩).1

end Persistence

/-! ## Processes that come and go -/

/-- A process that has the file at a path, and the save that it is in. -/
structure Process (S ε : Type) [LinearOrder S] where
  store : Store S
  saving : Option (PersistableStore S × Saving ε)

/-- The disk, the process that is there, and the snapshots whose saves came to their rename, the
last first. No part of the code looks at these. -/
structure Machine (S ε : Type) [LinearOrder S] where
  disk : Disk String UInt8
  process : Option (Process S ε)
  completed : List (PersistableStore S)

namespace Machine

variable {S ε : Type}

/-- What can happen. -/
inductive Event (S ε : Type) where
  /-- `BurnerRedis(persistence_path)` -/
  | start (e : Env) (fault : Option ε)
  | request (e : Env) (q : Request S)
  /-- `save`, `_save_sync`, or the handler of `atexit` -/
  | beginSave (e : Env)
  /-- the save makes its next system call -/
  | io (fault : Option (ε × ℕ))
  /-- the process is killed, or leaves -/
  | kill (cut : Option ℕ)
  | powerLoss (i : ℕ) (junk : ℕ → List UInt8)

def Event.isPowerLoss : Event S ε → Bool
  | powerLoss .. => true
  | _ => false

/-- A save goes on until it has returned. -/
def unfinished (snapshot : PersistableStore S) :
    Saving ε → Option (PersistableStore S × Saving ε)
  | .done _ => none
  | p => some (snapshot, p)

/-- The system call that is about to be made is the rename. -/
def atRename : Saving ε → Bool
  | .call (.rename ..) _ => true
  | _ => false

section Step

variable [Score S]

def blank : Machine S ε := ⟨.blank, none, []⟩

def step (fmt : Format S) (path : String) (m : Machine S ε) : Event S ε → Machine S ε
  | .start e fault => match m.process with
    | some _ => m
    | none => { m with process := some ⟨newStore fmt e.now path fault m.disk, none⟩ }
  | .request e q =>
    { m with process := m.process.map fun p => { p with store := (q.run e p.store).1 } }
  | .beginSave e => match m.process with
    | some ⟨store, none⟩ =>
      let saving := unfinished (.fromStore e store) (saveToPath fmt e store path)
      { m with process := some ⟨store, saving⟩ }
    | _ => m
  | .io fault => match m.process with
    | some ⟨store, some (snapshot, saving)⟩ =>
      let r := saving.step fault m.disk
      { disk := r.2
        process := some ⟨store, unfinished snapshot r.1⟩
        completed := if atRename saving && fault.isNone then snapshot :: m.completed
          else m.completed }
    | _ => m
  | .kill cut => match m.process with
    | some ⟨_, some (_, saving)⟩ => { m with disk := saving.killed cut m.disk, process := none }
    | _ => { m with process := none }
  | .powerLoss i junk => { m with disk := m.disk.powerLoss i junk, process := none }

def run (fmt : Format S) (path : String) (m : Machine S ε) (events : List (Event S ε)) :
    Machine S ε :=
  events.foldl (step fmt path) m

end Step

/-! ## What a save has done -/

/-- How far a save has come, and what it has left in the temporary file. -/
inductive Stage (fmt : Format S) (path : String) (disk : Disk String UInt8)
    (snapshot : PersistableStore S) : Saving ε → Prop where
  | creating {bytes : List UInt8} (he : fmt.encode snapshot = some bytes) :
    Stage fmt path disk snapshot (createTmp path bytes)
  | writing {bytes : List UInt8} (he : fmt.encode snapshot = some bytes) {i : ℕ}
      (hi : disk.dir (tmpPath path) = some i) (hc : (disk.file i).content = []) :
    Stage fmt path disk snapshot (writeTmp path bytes)
  | syncing {bytes : List UInt8} (he : fmt.encode snapshot = some bytes) {i : ℕ}
      (hi : disk.dir (tmpPath path) = some i) (hc : (disk.file i).content = bytes) :
    Stage fmt path disk snapshot (syncTmp path)
  | committing {bytes : List UInt8} (he : fmt.encode snapshot = some bytes) {i : ℕ}
      (hi : disk.dir (tmpPath path) = some i) (hc : (disk.file i).content = bytes)
      (hs : (disk.file i).synced = true) : Stage fmt path disk snapshot (renameTmp path)
  | failing (err : ε) : Stage fmt path disk snapshot (removeTmp path err)
  | finished (r : Except (PersistenceError ε) Unit) : Stage fmt path disk snapshot (.done r)

theorem path_ne_tmpPath (path : String) : path ≠ tmpPath path := by
  intro h
  have hlen := congrArg String.length h
  unfold tmpPath at hlen
  rw [String.length_append] at hlen
  have hpos : ".tmp".length = 4 := rfl
  omega

section Stage

variable {fmt : Format S} {path : String} {disk : Disk String UInt8} {good : List UInt8 → Prop}
  {snapshot : PersistableStore S} {saving : Saving ε}

theorem writeTmp_step (fault : Option (ε × ℕ)) (bytes : List UInt8) :
    (writeTmp path bytes).step fault disk =
      fault.elim (syncTmp path, disk.setFile (tmpPath path) fun f => ⟨f.content ++ bytes, false⟩)
        fun f => (removeTmp path f.1,
          disk.setFile (tmpPath path) fun file => ⟨file.content ++ bytes.take f.2, false⟩) := by
  cases fault <;> rfl

theorem syncTmp_step (fault : Option (ε × ℕ)) :
    (syncTmp path).step fault disk =
      fault.elim (renameTmp path, disk.setFile (tmpPath path) fun f => ⟨f.content, true⟩)
        fun f => (removeTmp path f.1, disk) := by
  cases fault <;> rfl

/-- A system call that is not the rename, or that fails, leaves the file at `path` as it is. -/
theorem Stage.io_beside (hs : Stage fmt path disk snapshot saving)
    (hi : Intact (tmpPath path) path good disk) (fault : Option (ε × ℕ))
    (hr : (atRename saving && fault.isNone) = false) :
    Intact (tmpPath path) path good (saving.step fault disk).2 ∧
      (saving.step fault disk).2.read path = disk.read path ∧
      Stage fmt path (saving.step fault disk).2 snapshot (saving.step fault disk).1 := by
  have hne := path_ne_tmpPath path
  have hopen : ∀ {i} (f : File UInt8 → File UInt8), disk.dir (tmpPath path) = some i →
      (disk.setFile (tmpPath path) f).dir (tmpPath path) = some i := by
    intro i f hdir
    rw [Disk.setFile_dir, hdir]
  cases hs with
  | finished r => exact ⟨hi, rfl, .finished r⟩
  | failing err => cases fault with
    | none => exact ⟨(hi.remove hne).1, (hi.remove hne).2, .finished _⟩
    | some f => exact ⟨hi, rfl, .finished _⟩
  | creating he => cases fault with
    | none =>
      obtain ⟨i, hdir, hcontent⟩ := Disk.create_opens (d := disk) (p := tmpPath path)
      exact ⟨(hi.create hne).1, (hi.create hne).2, .writing he hdir hcontent⟩
    | some f => exact ⟨hi, rfl, .failing f.1⟩
  | @writing bytes he i hdir hc =>
    rw [writeTmp_step]
    cases fault with
    | none =>
      dsimp only [Option.elim_none]
      refine ⟨hi.setFile _, hi.read_setFile _, .syncing he (hopen _ hdir) ?_⟩
      rw [Disk.setFile_file _ hdir, hc, List.nil_append]
    | some f =>
      dsimp only [Option.elim_some]
      exact ⟨hi.setFile _, hi.read_setFile _, .failing f.1⟩
  | @syncing bytes he i hdir hc =>
    rw [syncTmp_step]
    cases fault with
    | none =>
      dsimp only [Option.elim_none]
      refine ⟨hi.setFile _, hi.read_setFile _, .committing he (hopen _ hdir) ?_ ?_⟩
      · rw [Disk.setFile_file _ hdir, hc]
      · rw [Disk.setFile_file _ hdir]
    | some f => exact ⟨hi, rfl, .failing f.1⟩
  | committing he hdir hc hsync => cases fault with
    | none => cases hr
    | some f => exact ⟨hi, rfl, .failing f.1⟩

/-- The rename puts the snapshot at `path`. -/
theorem Stage.io_rename (hs : Stage fmt path disk snapshot saving)
    (hi : Intact (tmpPath path) path good disk) (hr : atRename saving = true)
    (hg : ∀ bytes, fmt.encode snapshot = some bytes → good bytes) :
    Intact (tmpPath path) path good (saving.step (none : Option (ε × ℕ)) disk).2 ∧
      (fmt.encode snapshot).isSome = true ∧
      (saving.step (none : Option (ε × ℕ)) disk).2.read path = fmt.encode snapshot ∧
      Stage fmt path (saving.step (none : Option (ε × ℕ)) disk).2 snapshot
        (saving.step (none : Option (ε × ℕ)) disk).1 := by
  cases hs with
  | committing he hdir hc hsync =>
    have hrename := hi.rename (path_ne_tmpPath path) hdir hsync (hg _ (by rw [he, hc]))
    exact ⟨hrename.1, by rw [he, Option.isSome_some], hrename.2.trans (by rw [he, hc]),
      .finished _⟩
  | _ => cases hr

theorem Stage.killed (hs : Stage fmt path disk snapshot saving)
    (hi : Intact (tmpPath path) path good disk) (cut : Option ℕ) :
    Intact (tmpPath path) path good (saving.killed cut disk) ∧
      (saving.killed cut disk).read path = disk.read path := by
  cases cut with
  | none => cases hs <;> exact ⟨hi, rfl⟩
  | some n => cases hs with
    | writing he hdir hc =>
      dsimp only [Prog.killed, writeTmp, Option.elim_some, Syscall.cut]
      exact ⟨hi.setFile _, hi.read_setFile _⟩
    | _ => exact ⟨hi, rfl⟩

theorem Stage.unfinished (hs : Stage fmt path disk snapshot saving) :
    ∀ s ∈ unfinished snapshot saving, Stage fmt path disk s.1 s.2 := by
  intro s hmem
  unfold Machine.unfinished at hmem
  split at hmem
  · cases hmem
  · cases hmem
    exact hs

end Stage

/-! ## Runs -/

/-- The bytes of a snapshot that was saved. -/
def Written (fmt : Format S) (completed : List (PersistableStore S)) (bytes : List UInt8) : Prop :=
  ∃ snapshot ∈ completed, fmt.encode snapshot = some bytes

theorem Written.cons {fmt : Format S} {completed : List (PersistableStore S)} {bytes : List UInt8}
    (h : Written fmt completed bytes) (snapshot : PersistableStore S) :
    Written fmt (snapshot :: completed) bytes :=
  h.imp fun _ hp => ⟨List.mem_cons_of_mem _ hp.1, hp.2⟩

section Runs

variable [Score S] {fmt : Format S} {path : String} {m : Machine S ε}

structure Safe (fmt : Format S) (path : String) (m : Machine S ε) : Prop where
  intact : Intact (tmpPath path) path (Written fmt m.completed) m.disk
  encoded : ∀ snapshot ∈ m.completed, (fmt.encode snapshot).isSome = true
  stage : ∀ p ∈ m.process, ∀ s ∈ p.saving, Stage fmt path m.disk s.1 s.2

/-- The file holds the snapshot that was saved last. -/
def Latest (fmt : Format S) (path : String) (m : Machine S ε) : Prop :=
  m.disk.read path = m.completed.head?.bind fmt.encode

theorem stage_saveToPath (e : Env) (store : Store S) :
    Stage fmt path m.disk (.fromStore e store) (saveToPath fmt e store path : Saving ε) := by
  unfold saveToPath
  split
  · exact .finished _
  · rename_i he
    exact .creating he

/-- A process that waits leaves nothing to be said about its save. -/
theorem Safe.idle (h : Safe fmt path m) (store : Store S) :
    Safe fmt path (⟨m.disk, some ⟨store, none⟩, m.completed⟩ : Machine S ε) where
  intact := h.intact
  encoded := h.encoded
  stage p hp s hs := by
    cases hp
    cases hs

theorem Safe.gone (h : Safe fmt path m) :
    Safe fmt path (⟨m.disk, none, m.completed⟩ : Machine S ε) where
  intact := h.intact
  encoded := h.encoded
  stage _ hp := nomatch hp

/-- A step leaves the file and the completed saves as they are, or completes a save, which is then
what the file holds. -/
theorem Safe.step (h : Safe fmt path m) (ev : Event S ε) :
    Safe fmt path (m.step fmt path ev) ∧
      (ev.isPowerLoss = false →
        (m.step fmt path ev).completed = m.completed ∧
            (m.step fmt path ev).disk.read path = m.disk.read path ∨
          Latest fmt path (m.step fmt path ev)) := by
  obtain ⟨disk, process, completed⟩ := m
  cases ev with
  | start e fault => cases process with
    | some p => exact ⟨h, fun _ => .inl ⟨rfl, rfl⟩⟩
    | none => exact ⟨h.idle _, fun _ => .inl ⟨rfl, rfl⟩⟩
  | request e q =>
    refine ⟨⟨h.intact, h.encoded, fun p hp s hs => ?_⟩, fun _ => .inl ⟨rfl, rfl⟩⟩
    obtain ⟨p', hp', rfl⟩ := Option.map_eq_some_iff.mp hp
    exact h.stage p' hp' s hs
  | beginSave e => match process with
    | none => exact ⟨h, fun _ => .inl ⟨rfl, rfl⟩⟩
    | some ⟨store, some s⟩ => exact ⟨h, fun _ => .inl ⟨rfl, rfl⟩⟩
    | some ⟨store, none⟩ =>
      refine ⟨⟨h.intact, h.encoded, fun p hp s hs => ?_⟩, fun _ => .inl ⟨rfl, rfl⟩⟩
      cases hp
      exact (stage_saveToPath e store).unfinished s hs
  | io fault => match process with
    | none => exact ⟨h, fun _ => .inl ⟨rfl, rfl⟩⟩
    | some ⟨store, none⟩ => exact ⟨h, fun _ => .inl ⟨rfl, rfl⟩⟩
    | some ⟨store, some (snapshot, saving)⟩ =>
      have hs : Stage fmt path disk snapshot saving := h.stage _ rfl _ rfl
      cases hr : atRename saving && fault.isNone with
      | false =>
        obtain ⟨hi, hread, hs'⟩ := hs.io_beside h.intact fault hr
        simp only [Machine.step, hr, Bool.false_eq_true, if_false]
        refine ⟨⟨hi, h.encoded, fun p hp s hmem => ?_⟩, fun _ => .inl ⟨trivial, hread⟩⟩
        cases hp
        exact hs'.unfinished s hmem
      | true =>
        obtain ⟨hrename, hnone⟩ := Bool.and_eq_true_iff.mp hr
        obtain rfl := Option.isNone_iff_eq_none.mp hnone
        have hmono := h.intact.mono fun _ hw => hw.cons snapshot
        obtain ⟨hi, hsome, hread, hs'⟩ := hs.io_rename hmono hrename
          fun bytes he => ⟨snapshot, List.mem_cons_self, he⟩
        simp only [Machine.step, hr, if_true]
        refine ⟨⟨hi, List.forall_mem_cons.mpr ⟨hsome, h.encoded⟩, fun p hp s hmem => ?_⟩,
          fun _ => .inr hread⟩
        cases hp
        exact hs'.unfinished s hmem
  | kill cut => match process with
    | none => exact ⟨h.gone, fun _ => .inl ⟨rfl, rfl⟩⟩
    | some ⟨store, none⟩ => exact ⟨h.gone, fun _ => .inl ⟨rfl, rfl⟩⟩
    | some ⟨store, some (snapshot, saving)⟩ =>
      have hs : Stage fmt path disk snapshot saving := h.stage _ rfl _ rfl
      obtain ⟨hi, hread⟩ := hs.killed h.intact cut
      exact ⟨⟨hi, h.encoded, fun _ hp => nomatch hp⟩, fun _ => .inl ⟨rfl, hread⟩⟩
  | powerLoss i junk =>
    exact ⟨⟨h.intact.powerLoss i junk, h.encoded, fun _ hp => nomatch hp⟩, fun hp => nomatch hp⟩

theorem safe_blank : Safe fmt path (blank : Machine S ε) where
  intact := intact_blank
  encoded _ hp := nomatch hp
  stage _ hp := nomatch hp

theorem Safe.run (h : Safe fmt path m) (events : List (Event S ε)) :
    Safe fmt path (m.run fmt path events) := by
  induction events generalizing m with
  | nil => exact h
  | cons ev events ih => exact ih (h.step ev).1

theorem Safe.run_latest (h : Safe fmt path m) {events : List (Event S ε)}
    (hp : ∀ ev ∈ events, ev.isPowerLoss = false) :
    (m.run fmt path events).completed = m.completed ∧
        (m.run fmt path events).disk.read path = m.disk.read path ∨
      Latest fmt path (m.run fmt path events) := by
  induction events generalizing m with
  | nil => exact .inl ⟨rfl, rfl⟩
  | cons ev events ih =>
    obtain ⟨hsafe, hstep⟩ := h.step ev
    have hrest := ih hsafe fun ev' hev' => hp ev' (List.mem_cons_of_mem ev hev')
    rcases hrest with ⟨hcompleted, hread⟩ | hlatest
    · rcases hstep (hp ev List.mem_cons_self) with ⟨hc, hr⟩ | hl
      · exact .inl ⟨hcompleted.trans hc, hread.trans hr⟩
      · refine .inr (hread.trans (hl.trans ?_))
        rw [← hcompleted]
        rfl
    · exact .inr hlatest

/-- Whatever the file holds is loaded, and it is a snapshot that was saved. -/
theorem Safe.load (h : Safe fmt path m) (hfmt : fmt.RoundTrips) :
    ∃ last, loadFromPath fmt path (none : Option ε) m.disk = .ok last ∧
      ∀ snapshot ∈ last, snapshot ∈ m.completed := by
  unfold loadFromPath
  cases hr : m.disk.read path with
  | none => exact ⟨none, rfl, fun _ hp => nomatch hp⟩
  | some data =>
    obtain ⟨snapshot, hmem, he⟩ := h.intact.read hr
    refine ⟨some snapshot, by simp only [hfmt snapshot data he], fun p hp => ?_⟩
    cases hp
    exact hmem

theorem Safe.load_latest (h : Safe fmt path m) (hfmt : fmt.RoundTrips)
    (hl : Latest fmt path m) :
    loadFromPath fmt path (none : Option ε) m.disk = .ok m.completed.head? := by
  unfold loadFromPath
  rw [hl]
  cases hc : m.completed with
  | nil => rfl
  | cons snapshot rest =>
    obtain ⟨data, he⟩ := Option.isSome_iff_exists.mp
      (h.encoded snapshot (hc ▸ List.mem_cons_self))
    simp only [List.head?_cons, Option.bind_some, he, hfmt snapshot data he]

/-- What MessagePack makes of one string of one byte. -/
def stringBytes (k v : UInt8) : List UInt8 :=
  [0x92, 0x91, 0x92, 0x91, k, 0x92, 0x81, 0xa6] ++ ascii "String" ++ [0x91, v, 0xc0, 0x90]

/-- A store that holds one string, with a key and a value of one byte each. -/
def stringSnapshot (k v : UInt8) : PersistableStore ℤ := ⟨[([k], ⟨.string [v], none⟩)], []⟩

/-- The format of an empty store and of one short string. -/
def stringFormat : Format ℤ where
  encode
    | ⟨[], []⟩ => some [0x92, 0x90, 0x90]
    | ⟨[([k], ⟨.string [v], none⟩)], []⟩ =>
      if k < 128 && v < 128 then some (stringBytes k v) else none
    | _ => none
  decode bytes :=
    let k := (bytes[4]?).getD 0
    let v := (bytes[15]?).getD 0
    if bytes = [0x92, 0x90, 0x90] then some ⟨[], []⟩
    else if bytes = stringBytes k v then some (stringSnapshot k v) else none

theorem stringFormat_roundTrips : stringFormat.RoundTrips := by
  intro snapshot bytes he
  unfold stringFormat at he
  dsimp only at he
  split at he
  case h_1 =>
    obtain rfl := Option.some.inj he
    rfl
  case h_2 k v =>
    split_ifs at he
    obtain rfl := Option.some.inj he
    have hne : stringBytes k v ≠ [0x92, 0x90, 0x90] := fun h => nomatch congrArg List.length h
    unfold stringFormat
    dsimp only
    rw [if_neg hne]
    exact if_pos rfl
  case h_3 => cases he

/-- The first start, a save, and a power failure that brings back the directory of before; then a
save that is killed while it writes. -/
def powerFails : List (Event ℤ Unit) :=
  [.start ⟨0, 0, .byKey⟩ none, .request ⟨1, 0, .byKey⟩ (.op (.set [1] [7] none false false)),
    .beginSave ⟨2, 0, .byKey⟩, .io none, .io none, .io none, .io none, .powerLoss 2 fun _ => [],
    .start ⟨3, 0, .byKey⟩ none, .request ⟨4, 0, .byKey⟩ (.op (.set [1] [8] none false false)),
    .beginSave ⟨5, 0, .byKey⟩, .io none, .kill (some 1)]

/-- A save, and one that cannot write. -/
def savesAgain : List (Event ℤ Unit) :=
  [.start ⟨6, 0, .byKey⟩ none, .request ⟨7, 0, .byKey⟩ (.op (.set [1] [9] none false false)),
    .beginSave ⟨8, 0, .byKey⟩, .io none, .io none, .io none, .io none, .beginSave ⟨9, 0, .byKey⟩,
    .io none, .io (some ((), 2)), .io none]

end Runs

end Machine

end BurnerRedis
