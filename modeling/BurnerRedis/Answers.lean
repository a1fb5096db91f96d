import BurnerRedis.Script.Dispatch

/-!
# What a method answers and what a script is told

`Answer` gathers the results of the store's methods in one type, and `Shows` relates a result to
the reply of the command of the same name in a script: a bulk string, an array, an integer, nil or
`OK`, and for an error an error value with the same text. What comes from the walk of a hash map is
compared without its order. A score is compared with the text that prints it.

`Matches` compares two implementations of a command on one data map, by what they leave of it and
by what they answer. There is one rule for each shape of `Access`.
-/

namespace BurnerRedis

variable {S : Type}

/-! ## Comparing two implementations -/

section Matching

variable {α β ρ σ : Type}

/-- The data that two implementations leave are related, and so are their answers. -/
structure Matches (D : α → β → Prop) (R : ρ → σ → Prop) (a : α × ρ) (b : β × σ) : Prop where
  data : D a.1 b.1
  answer : R a.2 b.2

theorem Matches.mono {D D' : α → β → Prop} {R : ρ → σ → Prop} {a : α × ρ} {b : β × σ}
    (hD : ∀ {x y}, D x y → D' x y) (h : Matches D R a b) : Matches D' R a b :=
  ⟨hD h.data, h.answer⟩

/-- The second answer is read off from more. -/
theorem Matches.map_answer {τ : Type} {D : α → β → Prop} {R : ρ → τ → Prop} {f : σ → τ}
    {a : α × ρ} {b : β × σ} (h : Matches D (fun r x => R r (f x)) a b) :
    Matches D R a (b.1, f b.2) :=
  ⟨h.data, h.answer⟩

end Matching

section Shapes

variable [LinearOrder S] {V ρ σ : Type} {R : ρ → σ → Prop} {t : Kind S V} {now : Instant}
  {key : Bytes} {d : Data S} {absent wrong : ρ} {absent' wrong' : σ}

theorem readAs_matches {f : V → ρ} {g : V → σ} (ha : R absent absent') (hw : R wrong wrong')
    (hf : ∀ v, R (f v) (g v)) :
    Matches Eq R (readAs t now key absent wrong f d) (readAs t now key absent' wrong' g d) := by
  cases look t now key d with
  | absent h =>
    rw [readAs_absent h, readAs_absent h]
    exact ⟨rfl, ha⟩
  | wrong en h hd =>
    rw [readAs_wrong h hd, readAs_wrong h hd]
    exact ⟨rfl, hw⟩
  | found v exp h =>
    rw [readAs_found h, readAs_found h]
    exact ⟨rfl, hf v⟩

theorem modifyAs_matches {f : V → V × ρ} {g : V → V × σ} (ha : R absent absent')
    (hw : R wrong wrong') (hf : ∀ v, Matches Eq R (f v) (g v)) :
    Matches Eq R (modifyAs t now key absent wrong f d) (modifyAs t now key absent' wrong' g d) := by
  cases look t now key d with
  | absent h =>
    rw [modifyAs_absent h, modifyAs_absent h]
    exact ⟨rfl, ha⟩
  | wrong en h hd =>
    rw [modifyAs_wrong h hd, modifyAs_wrong h hd]
    exact ⟨rfl, hw⟩
  | found v exp h =>
    rw [modifyAs_found h, modifyAs_found h, (hf v).data]
    exact ⟨rfl, (hf v).answer⟩

theorem upsertAs_matches {new : V} {f : V → V × ρ} {g : V → V × σ} (hw : R wrong wrong')
    (hf : ∀ v, Matches Eq R (f v) (g v)) :
    Matches Eq R (upsertAs t now key new wrong f d) (upsertAs t now key new wrong' g d) := by
  cases look t now key d with
  | absent h =>
    rw [upsertAs_absent h, upsertAs_absent h, (hf new).data]
    exact ⟨rfl, (hf new).answer⟩
  | wrong en h hd =>
    rw [upsertAs_wrong h hd, upsertAs_wrong h hd]
    exact ⟨rfl, hw⟩
  | found v exp h =>
    rw [upsertAs_found h, upsertAs_found h, (hf v).data]
    exact ⟨rfl, (hf v).answer⟩

theorem shrinkAs_matches {f : List Bytes → List Bytes × ρ} {g : List Bytes → List Bytes × σ}
    (ha : R absent absent') (hw : R wrong wrong') (hf : ∀ l, Matches Eq R (f l) (g l)) :
    Matches Eq R (shrinkAs now key absent wrong f d) (shrinkAs now key absent' wrong' g d) := by
  cases look Kind.list now key d with
  | absent h =>
    rw [shrinkAs_absent h, shrinkAs_absent h]
    exact ⟨rfl, ha⟩
  | wrong en h hd =>
    rw [shrinkAs_wrong h hd, shrinkAs_wrong h hd]
    exact ⟨rfl, hw⟩
  | found l exp h =>
    rw [shrinkAs_found h, shrinkAs_found h, (hf l).data]
    exact ⟨rfl, (hf l).answer⟩

theorem thenRemoveIfEmpty_matches {a : Data S × ρ} {b : Data S × σ} (h : Matches Eq R a b) :
    Matches Eq R (thenRemoveIfEmpty key a) (thenRemoveIfEmpty key b) :=
  ⟨congrArg (removeIfEmpty key) h.data, h.answer⟩

namespace Store

theorem pushMoved_matches {side : ListEnd} {v : Bytes} {moved : Bytes → ρ} {moved' : Bytes → σ}
    (hw : R wrong wrong') (hm : R (moved v) (moved' v)) :
    Matches Eq R (pushMoved key side v wrong moved d) (pushMoved key side v wrong' moved' d) := by
  unfold pushMoved
  split
  · exact ⟨rfl, hm⟩
  · split
    · exact ⟨rfl, hm⟩
    · exact ⟨rfl, hw⟩

theorem moveAs_matches {src dst : Bytes} {srcFrom dstTo : ListEnd} {moved : Bytes → ρ}
    {moved' : Bytes → σ} (ha : R absent absent') (hw : R wrong wrong')
    (hm : ∀ v, R (moved v) (moved' v)) :
    Matches Eq R (moveAs now src dst srcFrom dstTo absent wrong moved d)
      (moveAs now src dst srcFrom dstTo absent' wrong' moved' d) := by
  unfold moveAs
  dsimp only
  split
  · exact ⟨rfl, ha⟩
  · split
    · exact ⟨rfl, hw⟩
    · split
      · exact ⟨rfl, ha⟩
      · split
        · exact ⟨rfl, hw⟩
        · exact pushMoved_matches hw (hm _)

end Store

end Shapes

/-! ## Answers -/

/-- The results of the store's methods. -/
inductive Answer (S : Type) where
  | done
  | stored (b : Bool)
  | holds (b : Bool)
  | count (n : ℤ)
  | value (v : Option Bytes)
  | popped (r : LPopResult)
  | values (vs : List Bytes)
  | walked (vs : List Bytes)
  | fields (map : FinMap Bytes Bytes)
  | ranked (members : List (Bytes × Option S))

/-- A result of a method, taken as an answer. -/
def answer [LinearOrder S] {α : Type} (f : α → Answer S) (r : Data S × Except StoreError α) :
    Data S × Except StoreError (Answer S) :=
  (r.1, r.2.map f)

/-- A result of a method that may wake clients, taken as an answer. -/
def answerWaking [LinearOrder S] {α : Type} (f : α → Answer S)
    (r : Data S × Except StoreError α × Wake) : Data S × Except StoreError (Answer S) :=
  (r.1, r.2.1.map f)

/-- A result of a method that never fails, taken as an answer. -/
def answerAlways [LinearOrder S] {α : Type} (f : α → Answer S) (r : Data S × α) :
    Data S × Except StoreError (Answer S) :=
  (r.1, .ok (f r.2))

namespace Script

variable [Score S]

/-- The members of a range as a script sees them: each with the text of its score, if it has one. -/
def rankedBulks (members : List (Bytes × Option S)) : List Bytes :=
  members.flatMap fun p => p.1 :: (p.2.map Score.format).toList

/-- A reply in a script says what a method answers. -/
inductive Shows : Reply → Except StoreError (Answer S) → Prop where
  | error (err : StoreError) : Shows (.ok (.error err.toString)) (.error err)
  | done : Shows (.ok (.status "OK")) (.ok .done)
  | stored : Shows (.ok (.status "OK")) (.ok (.stored true))
  | notStored : Shows (.ok .nil) (.ok (.stored false))
  | holds (b : Bool) : Shows (flag b) (.ok (.holds b))
  | count (n : ℤ) : Shows (integer n) (.ok (.count n))
  | value (v : Option Bytes) : Shows (bulkOrNil v) (.ok (.value v))
  | popped (r : LPopResult) : Shows (popReply r) (.ok (.popped r))
  | values (vs : List Bytes) : Shows (bulks vs) (.ok (.values vs))
  | walked {l vs : List Bytes} (h : l.Perm vs) : Shows (bulks l) (.ok (.walked vs))
  | fields {l : List (Bytes × Bytes)} {map : FinMap Bytes Bytes} (h : l.Perm map.toList) :
      Shows (bulks (flattenPairs l)) (.ok (.fields map))
  | ranked (members : List (Bytes × Option S)) :
      Shows (bulks (rankedBulks members)) (.ok (.ranked members))

theorem Shows.wrongType : Shows (S := S) Script.wrongType (.error .wrongType) := .error .wrongType

section Taken

variable {α : Type} {D : Data S → Data S → Prop} {f : α → Answer S} {a : Data S × Reply}

theorem answer_matches {b : Data S × Except StoreError α}
    (h : Matches D (fun r x => Shows r (x.map f)) a b) : Matches D Shows a (answer f b) :=
  ⟨h.data, h.answer⟩

theorem answerWaking_matches {b : Data S × Except StoreError α × Wake}
    (h : Matches D (fun r x => Shows r (x.1.map f)) a b) : Matches D Shows a (answerWaking f b) :=
  ⟨h.data, h.answer⟩

end Taken

end Script

end BurnerRedis
