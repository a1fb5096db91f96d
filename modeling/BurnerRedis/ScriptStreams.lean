import BurnerRedis.StreamCalls

/-!
# Stream commands in scripts

`stream_command_matches` puts the two implementations side by side on one data map, with the same
clocks and the same order of walks: they leave the same data, and the reply tells what the method
answers (`Tells`). What an id is read as by each of the parsers comes first.
-/

namespace BurnerRedis

/-! ## Ids read from their text -/

section Ids

variable (id : StreamId)

/-- A text that is no id is not the text of an id. -/
theorem formatStreamId_ne {text : Bytes} (h : parseStreamId text = none) :
    formatStreamId id ≠ text := by
  rintro rfl
  rw [parseStreamId_formatStreamId] at h
  cases h

/-- The text of an id is not taken for an option. -/
theorem optionWord_formatStreamId_ne {c : Char} {cs : List Char} (hc : c.isDigit = false) :
    optionWord (formatStreamId id) ≠ String.ofList (c :: cs) := by
  obtain ⟨b, rest, htext, hb⟩ := formatStreamId_eq_cons id
  obtain ⟨c', cs', hword, hdigit⟩ := toList_optionWord_digit hb rest
  intro h
  rw [htext] at h
  rw [h, String.toList_ofList] at hword
  cases hword
  rw [hc] at hdigit
  cases hdigit

namespace Script

theorem newEntryId_star (e : Env) (lastId : StreamId) :
    newEntryId e (ascii "*") lastId =
      .ok (if lastId.ms < e.wall then ⟨e.wall, 0⟩ else ⟨lastId.ms, lastId.seq + 1⟩) :=
  if_pos rfl

theorem newEntryId_formatStreamId (e : Env) (lastId : StreamId) :
    newEntryId e (formatStreamId id) lastId =
      if id ≤ lastId then .error (.ok (.error
        "ERR The ID specified in XADD is equal or smaller than the target stream top item"))
      else .ok id := by
  unfold newEntryId
  rw [if_neg (formatStreamId_ne id (by decide)), splitDash_formatStreamId]
  dsimp only
  rw [parseU64_decimal, parseU64_decimal]

theorem lenientId_formatStreamId : lenientId (formatStreamId id) = some id := by
  unfold lenientId
  rw [splitDash_formatStreamId]
  dsimp only
  rw [parseU64_decimal, parseU64_decimal]
  rfl

theorem filterMap_lenientId (ids : List StreamId) :
    (ids.map formatStreamId).filterMap lenientId = ids := by
  have hid : lenientId ∘ formatStreamId = some := funext lenientId_formatStreamId
  rw [List.filterMap_map, hid, List.filterMap_some]

theorem startId_formatStreamId : startId (formatStreamId id) = id := by
  unfold startId
  split_ifs with h
  · rcases h with h | h
    · exact absurd h (formatStreamId_ne id (by decide))
    · have hzero : formatStreamId .zero = ascii "0-0" := by decide
      exact (formatStreamId_injective (h.trans hzero.symm)).symm
  · rw [splitDash_formatStreamId]
    dsimp only
    rw [parseU64_decimal, parseU64_decimal]
    rfl

theorem parseBound_formatStreamId (isLow : Bool) :
    parseBound (formatStreamId id) isLow = some (id, false) := by
  obtain ⟨b, rest, htext, hlo, -⟩ := formatStreamId_eq_cons id
  have hopen : (formatStreamId id).head? ≠ some 40 := by
    rw [htext, List.head?_cons]
    rintro h
    cases h
    exact absurd hlo (by decide)
  unfold parseBound
  simp only [hopen, if_false]
  rw [if_neg (formatStreamId_ne id (by decide)), if_neg (formatStreamId_ne id (by decide)),
    splitDash_formatStreamId]
  dsimp only
  rw [parseU64_decimal, parseU64_decimal]
  simp

end Script

end Ids

namespace Script

/-! ## Command by command -/

section Commands

variable {S : Type} [LinearOrder S] {e : Env} {d : Data S} {key : Bytes}

/-- The result of a method is compared as the answer it is. -/
theorem map_matches {α : Type} {f : α → StreamAnswer} {a : Data S × Reply}
    {b : Data S × Except StoreError α} (h : Matches Eq (fun r x => Tells r (x.map f)) a b) :
    Matches Eq Tells a (b.1, b.2.map f) :=
  ⟨h.data, h.answer⟩

/-- The command gathers the fields that its pairs give. -/
theorem named_fieldsOf (pairs : List (Bytes × Bytes)) : Named pairs (fieldsOf pairs) := by
  unfold fieldsOf
  induction pairs using List.reverseRecOn with
  | nil =>
    intro field value
    simp
  | append_singleton pairs p ih =>
    obtain ⟨f, v⟩ := p
    intro field value
    -- the last pair of a decomposition is the new one
    have hlast : ∀ {before after : List (Bytes × Bytes)},
        pairs ++ [(f, v)] = before ++ (field, value) :: after →
          before = pairs ∧ (field, value) = (f, v) ∧ after = [] ∨
            ∃ rest, after = rest ++ [(f, v)] ∧ pairs = before ++ (field, value) :: rest := by
      intro before after h
      rcases List.eq_nil_or_concat after with rfl | ⟨rest, q, rfl⟩
      · obtain ⟨hfront, hq⟩ := List.append_inj' h rfl
        exact .inl ⟨hfront.symm, (List.cons.inj hq).1.symm, rfl⟩
      · rw [List.concat_eq_append, ← List.cons_append, ← List.append_assoc] at h
        obtain ⟨hfront, hq⟩ := List.append_inj' h rfl
        exact .inr ⟨rest, by rw [List.concat_eq_append, (List.cons.inj hq).1], hfront⟩
    rw [List.foldl_concat, FinMap.getElem?_insert']
    split_ifs with hf
    · subst hf
      constructor
      · intro hv
        obtain rfl : v = value := Option.some.inj hv
        exact ⟨pairs, [], rfl, nofun⟩
      · rintro ⟨before, after, hpairs, hafter⟩
        rcases hlast hpairs with ⟨-, hp, -⟩ | ⟨rest, rfl, -⟩
        · exact congrArg (some ·.2) hp.symm
        · exact absurd rfl (hafter _ (List.mem_append_right _ (List.mem_singleton.mpr rfl)))
    · rw [ih]
      constructor
      · rintro ⟨before, after, rfl, hafter⟩
        refine ⟨before, after ++ [(f, v)], by rw [List.append_assoc, List.cons_append], ?_⟩
        intro q hq
        rcases List.mem_append.mp hq with hq | hq
        · exact hafter q hq
        · rw [List.mem_singleton.mp hq]
          exact hf
      · rintro ⟨before, after, hpairs, hafter⟩
        rcases hlast hpairs with ⟨-, hp, -⟩ | ⟨rest, rfl, hrest⟩
        · exact absurd (congrArg Prod.fst hp).symm hf
        · exact ⟨before, rest, hrest, fun q hq => hafter q (List.mem_append_left _ hq)⟩

/-- There are no other fields that the pairs give. -/
theorem fieldsOf_eq {pairs : List (Bytes × Bytes)} {fields : Fields} (h : Named pairs fields) :
    fieldsOf pairs = fields := by
  refine Std.ExtTreeMap.ext_getElem? fun field => Option.ext fun value => ?_
  rw [named_fieldsOf pairs field value, h field value]

/-- An entry with an id that the command takes goes into the stream in the same way. -/
theorem xadd_matches {idText : Bytes} {id : Option StreamId} {pairs : List (Bytes × Bytes)}
    {fields : Fields}
    (hid : ∀ lastId, match newStreamId e.wall lastId id with
      | some newId => newEntryId e idText lastId = .ok newId
      | none => ∃ message, newEntryId e idText lastId = .error (.ok (.error message)))
    (hne : pairs ≠ []) (hf : Named pairs fields) :
    Matches Eq Tells (xadd e (key :: idText :: flattenPairs pairs) d)
      ((StreamCall.xadd key fields id).run e d) := by
  simp only [xadd, if_neg (flattenPairs_arity hne), pairUp_flattenPairs, fieldsOf_eq hf]
  refine Matches.map_answer (f := fun x : Except StoreError StreamId × Wake =>
    x.1.map StreamAnswer.added) (b := Store.xadd e key fields id d) ?_
  refine upsertAs_matches .wrongType fun stream => ?_
  have hlast := hid stream.lastId
  cases hn : newStreamId e.wall stream.lastId id with
  | none =>
    rw [hn] at hlast
    obtain ⟨message, hm⟩ := hlast
    rw [hm]
    exact ⟨rfl, .refused message .wrongType⟩
  | some newId =>
    rw [hn] at hlast
    dsimp only at hlast
    rw [hlast]
    exact ⟨rfl, .added newId⟩

theorem newEntryId_explicit (id lastId : StreamId) :
    match newStreamId e.wall lastId (some id) with
    | some newId => newEntryId e (formatStreamId id) lastId = .ok newId
    | none => ∃ message, newEntryId e (formatStreamId id) lastId =
        .error (.ok (.error message)) := by
  have hnew : newStreamId e.wall lastId (some id) = if id ≤ lastId then none else some id := rfl
  rw [newEntryId_formatStreamId, hnew]
  by_cases hle : id ≤ lastId
  · rw [if_pos hle, if_pos hle]
    exact ⟨_, rfl⟩
  · rw [if_neg hle, if_neg hle]

theorem newEntryId_automatic (lastId : StreamId) :
    match newStreamId e.wall lastId none with
    | some newId => newEntryId e (ascii "*") lastId = .ok newId
    | none => ∃ message, newEntryId e (ascii "*") lastId = .error (.ok (.error message)) := by
  rw [newEntryId_star]
  unfold newStreamId
  by_cases hlt : lastId.ms < e.wall
  · simp only [if_pos hlt]
  · simp only [if_neg hlt]

/-- What the reading of several streams gives to the two replies. -/
inductive TellsStreams : Except Reply (List RedisValue) → Except StoreError ReadReply → Prop where
  | wrongType : TellsStreams (.error Script.wrongType) (.error .wrongType)
  | read {vs : List RedisValue} {r : ReadReply} (h : List.Forall₂ ShowsStream vs r) :
      TellsStreams (.ok vs) (.ok r)

/-- One stream in front of the others, unless it has nothing. -/
theorem TellsStreams.push (o : FinMap.WalkOrder) (key : Bytes) (entries : Entries)
    {x : Except Reply (List RedisValue)} {y : Except StoreError ReadReply}
    (h : TellsStreams x y) :
    TellsStreams (x.map fun vs => if (entries.map (entryValue o)).isEmpty then vs
      else .array [.bulkString key, .array (entries.map (entryValue o))] :: vs)
      (y.map (.push key entries)) := by
  cases h with
  | wrongType => exact .wrongType
  | read h =>
    refine .read ?_
    unfold ReadReply.push
    cases entries with
    | nil => exact h
    | cons entry entries => exact .cons (.mk key (forall₂_map_self (entryValue_shows o) _)) h

theorem xreadPairs_matches (count : Option ℕ) (pairs : List (Bytes × StreamId)) (d : Data S) :
    Matches Eq TellsStreams
      (xreadPairs e count (pairs.map fun p => (p.1, formatStreamId p.2)) d)
      (Store.xreadPairs e count pairs d) := by
  induction pairs generalizing d with
  | nil => exact ⟨rfl, .read .nil⟩
  | cons pair pairs ih =>
    obtain ⟨key, id⟩ := pair
    rw [List.map_cons]
    unfold xreadPairs Store.xreadPairs
    dsimp only
    cases (purge e.now key d)[key]? with
    | none => exact ih _
    | some en =>
      dsimp only
      cases Kind.stream.get? en.data with
      | none => exact ⟨rfl, .wrongType⟩
      | some stream =>
        dsimp only
        rw [startId_formatStreamId]
        exact ⟨(ih _).data, (ih _).answer.push e.walk key _⟩

/-- A word before STREAMS that takes no argument. -/
theorem xreadOptions_skip {word : Bytes} (hc : optionWord word ≠ "COUNT")
    (hs : optionWord word ≠ "STREAMS") (rest : List Bytes) (count : Option ℕ) :
    xreadOptions (word :: rest) count = xreadOptions rest count := by
  cases rest with
  | nil => exact (if_neg hc).trans (if_neg hs)
  | cons arg rest => exact (if_neg hc).trans (if_neg hs)

/-- The arguments of XREAD are read as the counts they spell, up to the word STREAMS. -/
theorem xreadOptions_words {words : List (Option ℕ)} {parts : List (List Bytes)}
    (h : List.Forall₂ SpelledReading words parts) {streams : Bytes}
    (hs : optionWord streams = "STREAMS") (rest : List Bytes) (count : Option ℕ) :
    xreadOptions (parts.flatten ++ streams :: rest) count =
      .ok (words.reduceOption.getLast?.or count, rest) := by
  induction h generalizing count with
  | nil =>
    have hc : optionWord streams ≠ "COUNT" := by
      rw [hs]
      decide
    cases rest with
    | nil => exact (if_neg hc).trans (if_pos hs)
    | cons arg rest => exact (if_neg hc).trans (if_pos hs)
  | @cons word part words parts hw _ ih =>
    rw [List.flatten_cons, List.append_assoc]
    cases hw with
    | @count n _ h =>
      obtain @⟨w, text, _, hword, hn⟩ := h
      have hread : xreadOptions (w :: text :: (parts.flatten ++ streams :: rest)) count =
          xreadOptions (parts.flatten ++ streams :: rest) (some n) :=
        (if_pos hword).trans (by rw [hn])
      rw [List.cons_append, List.singleton_append, hread, ih, List.reduceOption_cons_of_some,
        List.getLast?_cons]
      cases words.reduceOption.getLast? <;> rfl
    | skipped hw =>
      simp only [List.mem_cons, List.not_mem_nil, or_false, not_or] at hw
      rw [List.singleton_append, xreadOptions_skip hw.1 hw.2, ih, List.reduceOption_cons_of_none]

theorem xread_matches {words : List (Option ℕ)} {parts : List (List Bytes)} {streams : Bytes}
    {keys : List Bytes} {ids : List StreamId} (hw : List.Forall₂ SpelledReading words parts)
    (hs : optionWord streams = "STREAMS") (hlen : keys.length = ids.length) (hne : keys ≠ []) :
    Matches Eq Tells
      (xread e (parts.flatten ++ streams :: (keys ++ ids.map formatStreamId)) d)
      ((StreamCall.xread keys ids words.reduceOption.getLast?).run e d) := by
  have hargs : (parts.flatten ++ streams :: (keys ++ ids.map formatStreamId)).isEmpty = false := by
    simp
  have ho := xreadOptions_words hw hs (keys ++ ids.map formatStreamId) none
  rw [Option.or_none] at ho
  generalize words.reduceOption.getLast? = count at ho ⊢
  have hpos := List.length_pos_iff.mpr hne
  have hbalanced : ((keys ++ ids.map formatStreamId).isEmpty ||
      decide ((keys ++ ids.map formatStreamId).length % 2 ≠ 0)) = false := by
    rw [Bool.or_eq_false_iff, List.isEmpty_eq_false_iff, decide_eq_false_iff_not,
      List.length_append, List.length_map]
    refine ⟨?_, by omega⟩
    intro h
    exact hne (List.append_eq_nil_iff.mp h).1
  have hhalf : (keys ++ ids.map formatStreamId).length / 2 = keys.length := by
    rw [List.length_append, List.length_map]
    omega
  have hzip : keys.zip (ids.map formatStreamId) =
      (keys.zip ids).map fun p => (p.1, formatStreamId p.2) := by
    rw [List.zip_map_right]
    rfl
  unfold xread
  simp only [hargs, ho, hbalanced, hhalf, Bool.false_eq_true, if_false, List.take_left,
    List.drop_left, hzip]
  have hpairs := xreadPairs_matches (e := e) count (keys.zip ids) d
  refine ⟨hpairs.data, ?_⟩
  show Tells _ ((Store.xreadPairs e count (keys.zip ids) d).2.map StreamAnswer.streams)
  have hans := hpairs.answer
  generalize (xreadPairs e count ((keys.zip ids).map fun p => (p.1, formatStreamId p.2)) d).2 = x
    at hans ⊢
  generalize (Store.xreadPairs e count (keys.zip ids) d).2 = y at hans ⊢
  cases hans with
  | wrongType => exact .wrongType
  | read h => cases h with
    | nil => exact .noStreams
    | cons hv hvs => exact .streams (.cons hv hvs) (List.cons_ne_nil _ _)

theorem xdel_matches (id : StreamId) (ids : List StreamId) :
    Matches Eq Tells (xdel e (key :: (id :: ids).map formatStreamId) d)
      ((StreamCall.xdel key (id :: ids)).run e d) := by
  refine map_matches (modifyAs_matches (.count 0) .wrongType fun stream => ?_)
  have hids := filterMap_lenientId (id :: ids)
  rw [List.map_cons] at hids
  dsimp only
  rw [hids]
  exact ⟨rfl, .count _⟩

theorem modifyGroup_matches {ρ σ : Type} {R : ρ → σ → Prop} {group : Bytes} {missing wrong : ρ}
    {missing' wrong' : σ} {f : Stream → ConsumerGroup → ConsumerGroup × ρ}
    {g : Stream → ConsumerGroup → ConsumerGroup × σ} (hm : R missing missing')
    (hw : R wrong wrong') (hf : ∀ s cg, Matches Eq R (f s cg) (g s cg)) :
    Matches Eq R (Store.modifyGroup e.now key group missing wrong f d)
      (Store.modifyGroup e.now key group missing' wrong' g d) := by
  refine modifyAs_matches hm hw fun stream => ?_
  cases stream.groups[group]? with
  | none => exact ⟨rfl, hm⟩
  | some cg =>
    dsimp only
    rw [(hf stream cg).data]
    exact ⟨rfl, (hf stream cg).answer⟩

theorem xack_matches {group : Bytes} (id : StreamId) (ids : List StreamId) :
    Matches Eq Tells (xack e (key :: group :: (id :: ids).map formatStreamId) d)
      ((StreamCall.xack key group (id :: ids)).run e d) := by
  refine map_matches (modifyGroup_matches (.count 0) .wrongType fun _ cg => ?_)
  have hids := filterMap_lenientId (id :: ids)
  rw [List.map_cons] at hids
  rw [hids]
  exact ⟨rfl, .count _⟩

theorem xlen_matches : Matches Eq Tells (xlen e [key] d) ((StreamCall.xlen key).run e d) := by
  have h : Matches Eq (fun r (x : Except StoreError ℕ) =>
      Tells r (x.map fun n => StreamAnswer.count n)) (xlen e [key] d) (Store.xlen e key d) :=
    readAs_matches (.count 0) .wrongType fun _ => .count _
  exact ⟨h.data, h.answer⟩

/-- With inclusive bounds the two ranges are the same. -/
theorem entriesBetween_inclusive (s : Stream) (min max : StreamId) :
    entriesBetween s (min, false) (max, false) =
      if max < min then [] else s.entries.toList.filter fun p => min ≤ p.1 ∧ p.1 ≤ max := by
  unfold entriesBetween
  simp

/-- The arguments of XRANGE after its bounds are read as the counts they spell. -/
theorem xrangeCount_words {counts : List ℕ} {parts : List (List Bytes)}
    (h : List.Forall₂ SpelledCount counts parts) (count : Option ℕ) :
    xrangeCount parts.flatten count = .ok (counts.getLast?.or count) := by
  induction h generalizing count with
  | nil => rfl
  | @cons n part counts parts hn _ ih =>
    obtain @⟨w, text, _, hword, hn⟩ := hn
    have hread : xrangeCount (w :: text :: parts.flatten) count =
        xrangeCount parts.flatten (some n) := (if_pos hword).trans (by rw [hn])
    rw [List.flatten_cons, List.cons_append, List.singleton_append, hread, ih, List.getLast?_cons]
    cases counts.getLast? <;> rfl

theorem xrange_matches {min max : StreamId} {counts : List ℕ} {parts : List (List Bytes)}
    (hc : List.Forall₂ SpelledCount counts parts) :
    Matches Eq Tells
      (xrange e (key :: formatStreamId min :: formatStreamId max :: parts.flatten) d)
      ((StreamCall.xrange key min max counts.getLast?).run e d) := by
  have hread := xrangeCount_words hc none
  rw [Option.or_none] at hread
  generalize counts.getLast? = count at hread ⊢
  simp only [xrange, xrangeAs, Bool.false_eq_true, if_false, parseBound_formatStreamId, hread]
  refine map_matches (readAs_matches (.entries .nil) .wrongType fun stream => ?_)
  rw [entriesBetween_inclusive]
  split_ifs with hlt
  · cases count with
    | none => exact .entries .nil
    | some n =>
      simp only [takeCount, List.take_nil]
      exact .entries .nil
  · exact .entries (forall₂_map_self (entryValue_shows e.walk) _)

/-! ### Claims -/

/-- A word that takes no argument. -/
theorem claimArgs_cons {word : Bytes} (hidle : optionWord word ≠ "IDLE")
    (hretry : optionWord word ≠ "RETRYCOUNT") (rest : List Bytes) (o : XclaimOptions) :
    claimArgs (word :: rest) o =
      if optionWord word = "FORCE" then claimArgs rest { o with force := true }
      else if optionWord word = "JUSTID" then claimArgs rest { o with justid := true }
      else ((parseStreamId word).toList ++ (claimArgs rest o).1, (claimArgs rest o).2) := by
  cases rest with
  | nil => exact (if_neg hidle).trans (if_neg hretry)
  | cons arg rest => exact (if_neg hidle).trans (if_neg hretry)

theorem claimArgs_word {word : ClaimWord} {part : List Bytes} (h : word.Spelled part)
    (rest : List Bytes) (o : XclaimOptions) :
    claimArgs (part ++ rest) o =
      (word.id?.toList ++ (claimArgs rest (word.set o)).1, (claimArgs rest (word.set o)).2) := by
  cases h with
  | id i =>
    rw [List.singleton_append, claimArgs_cons (optionWord_formatStreamId_ne i rfl)
      (optionWord_formatStreamId_ne i rfl), if_neg (optionWord_formatStreamId_ne i rfl),
      if_neg (optionWord_formatStreamId_ne i rfl), parseStreamId_formatStreamId]
    rfl
  | @idle w text ms hw hn =>
    have hargs : claimArgs (w :: text :: rest) o =
        claimArgs rest { o with idle := some ((parseU64 text).getD 0) } := if_pos hw
    rw [List.cons_append, List.singleton_append, hargs, hn]
    rfl
  | @retrycount w text n hw hn =>
    have hidle : optionWord w ≠ "IDLE" := by
      rw [hw]
      decide
    have hargs : claimArgs (w :: text :: rest) o =
        claimArgs rest { o with retrycount := some ((parseU64 text).getD 0) } :=
      (if_neg hidle).trans (if_pos hw)
    rw [List.cons_append, List.singleton_append, hargs, hn]
    rfl
  | @force w hw =>
    have hidle : optionWord w ≠ "IDLE" := by
      rw [hw]
      decide
    have hretry : optionWord w ≠ "RETRYCOUNT" := by
      rw [hw]
      decide
    rw [List.singleton_append, claimArgs_cons hidle hretry, if_pos hw]
    rfl
  | @justid w hw =>
    have hidle : optionWord w ≠ "IDLE" := by
      rw [hw]
      decide
    have hretry : optionWord w ≠ "RETRYCOUNT" := by
      rw [hw]
      decide
    have hforce : optionWord w ≠ "FORCE" := by
      rw [hw]
      decide
    rw [List.singleton_append, claimArgs_cons hidle hretry, if_neg hforce, if_pos hw]
    rfl

/-- The arguments of XCLAIM are read as the ids and options they spell. -/
theorem claimArgs_words {words : List ClaimWord} {parts : List (List Bytes)}
    (h : List.Forall₂ ClaimWord.Spelled words parts) (o : XclaimOptions) :
    claimArgs parts.flatten o = (words.filterMap ClaimWord.id?, words.foldl ClaimWord.set o) := by
  induction h generalizing o with
  | nil => rfl
  | @cons word part words parts hw _ ih =>
    rw [List.flatten_cons, claimArgs_word hw, ih, List.foldl_cons, List.filterMap_cons]
    cases word.id? <;> rfl

theorem spelled_ne_nil {word : ClaimWord} {part : List Bytes} (h : word.Spelled part) :
    part ≠ [] := by
  cases h <;> exact List.cons_ne_nil _ _

theorem xclaim_matches {group consumer minIdle : Bytes} {ms : UInt64}
    (hm : parseU64 minIdle = some ms) {words : List ClaimWord} {parts : List (List Bytes)}
    (hw : List.Forall₂ ClaimWord.Spelled words parts) (hne : words ≠ []) :
    Matches Eq Tells (xclaim e (key :: group :: consumer :: minIdle :: parts.flatten) d)
      ((StreamCall.xclaim key group consumer ms (words.filterMap ClaimWord.id?)
        (words.foldl ClaimWord.set {})).run e d) := by
  have hargs := claimArgs_words hw {}
  have hflat : parts.flatten ≠ [] := by
    cases hw with
    | nil => exact absurd rfl hne
    | cons hword _ =>
      intro h
      exact spelled_ne_nil hword (List.flatten_eq_nil_iff.mp h _ List.mem_cons_self)
  generalize parts.flatten = args at hargs hflat ⊢
  cases args with
  | nil => exact absurd rfl hflat
  | cons arg rest =>
    simp only [xclaim, hm, hargs]
    refine map_matches (modifyGroup_matches (.refused _ _) .wrongType fun s cg => ⟨rfl, ?_⟩)
    exact .claimed (forall₂_map_self (claimedValue_shows e.walk) _)

end Commands

end Script

/-! ## All of them -/

section All

variable {S : Type} [Score S]

open Script

/-- A stream command in a script whose ids are well formed leaves the data map as the store's method
leaves it, and its reply tells what the method answers. -/
theorem stream_command_matches (e : Env) {cmd : String} {args : List Bytes} {call : StreamCall}
    (h : StreamCall.Decodes cmd args call) (d : Data S) :
    Matches Eq Tells (dispatchInner e cmd args d) (call.run e d) := by
  cases h with
  | xadd key id hne hf => exact xadd_matches (newEntryId_explicit id) hne hf
  | xaddAuto key hne hf => exact xadd_matches newEntryId_automatic hne hf
  | xread hw hs hlen hne => exact xread_matches hw hs hlen hne
  | xdel key id ids => exact xdel_matches id ids
  | xack key group id ids => exact xack_matches id ids
  | xlen key => exact xlen_matches
  | xrange key min max hc => exact xrange_matches hc
  | xclaim key group consumer hm hw hne => exact xclaim_matches hm hw hne

/-- An entry added with two values for a field, read with a count, and claimed for another consumer
with its retry count set. -/
theorem claimOne_matches :
    Matches Eq Tells
      (dispatchInner ⟨9, 0, .byKey⟩ "XADD"
        [[115], formatStreamId ⟨1, 0⟩, [102], [49], [102], [50]] (∅ : Data ℤ))
      ((StreamCall.xadd [115] (((∅ : Fields).insert [102] [49]).insert [102] [50])
        (some ⟨1, 0⟩)).run ⟨9, 0, .byKey⟩ (∅ : Data ℤ)) ∧
    Matches Eq Tells
      (dispatchInner ⟨9, 0, .byKey⟩ "XREAD"
        [ascii "count", ascii "2", ascii "streams", [115], formatStreamId ⟨1, 0⟩] (∅ : Data ℤ))
      ((StreamCall.xread [[115]] [⟨1, 0⟩] (some 2)).run ⟨9, 0, .byKey⟩ (∅ : Data ℤ)) ∧
    Matches Eq Tells
      (dispatchInner ⟨9, 0, .byKey⟩ "XCLAIM"
        [[115], [103], [99], ascii "0", formatStreamId ⟨1, 0⟩, ascii "retrycount", ascii "3"]
        (∅ : Data ℤ))
      ((StreamCall.xclaim [115] [103] [99] 0 [⟨1, 0⟩] { retrycount := some 3 }).run
        ⟨9, 0, .byKey⟩ (∅ : Data ℤ)) := by
  refine ⟨?_, ?_, ?_⟩
  · exact stream_command_matches ⟨9, 0, .byKey⟩
      (.xadd [115] ⟨1, 0⟩ (List.cons_ne_nil _ _)
        (named_fieldsOf [([102], [49]), ([102], [50])])) ∅
  · have hw : List.Forall₂ SpelledReading [some 2] [[ascii "count", ascii "2"]] :=
      .cons (.count (.mk (by decide) (by decide))) .nil
    have hd : StreamCall.Decodes "XREAD"
        [ascii "count", ascii "2", ascii "streams", [115], formatStreamId ⟨1, 0⟩]
        (.xread [[115]] [⟨1, 0⟩] (some 2)) :=
      @StreamCall.Decodes.xread _ _ (ascii "streams") [[115]] [⟨1, 0⟩] hw (by decide) rfl
        (List.cons_ne_nil _ _)
    exact stream_command_matches ⟨9, 0, .byKey⟩ hd ∅
  · exact stream_command_matches ⟨9, 0, .byKey⟩
      (.xclaim [115] [103] [99] (by decide)
        (.cons (.id ⟨1, 0⟩) (.cons (.retrycount (n := 3) (by decide) (by decide)) .nil))
        (List.cons_ne_nil _ _)) ∅

end All

end BurnerRedis
