import BurnerRedis.ScriptStreams
import BurnerRedis.StreamLog

/-!
# Runs on a log

The commands of a script do to the log of a stream what they mean (`Script.logs`): with ids and
counts spelled as such they read from it what the methods read. `stream_is_log` tells a run of
methods and commands from the log alone.
-/

namespace BurnerRedis

namespace StreamLog

/-- What XADD of a script does to the log: it adds an entry with the fields that its pairs give and
answers its id, or does nothing. -/
def ScriptAdds (L L' : StreamLog) (r : Script.Reply) (args : List Bytes) : Prop :=
  (∃ key idText pairs fields newId, args = key :: idText :: pairs.flatMap (fun p => [p.1, p.2]) ∧
    Named pairs fields ∧ L.lastId < newId ∧ (∀ id, idText = formatStreamId id → newId = id) ∧
    L' = L.add newId fields ∧
    r = Script.bulk (formatStreamId newId)) ∨
  L' = L ∧ ∀ text, r ≠ Script.bulk text

/-- What XDEL of a script does to the log. Of texts that are no ids it takes what is read from them
as one. -/
def ScriptDeletes (L L' : StreamLog) (r : Script.Reply) (args : List Bytes) : Prop :=
  (∃ key texts gone, args = key :: texts ∧ gone = texts.filterMap Script.lenientId ∧
    (∀ ids, texts = ids.map formatStreamId → gone = ids) ∧ L' = L.keep (· ∉ gone) ∧
    r = Script.integer (L.len - L'.len)) ∨
  args.length < 2 ∧ L' = L

/-- What the reading commands of a script answer, with ids and counts that are spelled as such. -/
structure ScriptReads (L : StreamLog) (r : Script.Reply) (cmd : String) (args : List Bytes) :
    Prop where
  xlen : cmd = "XLEN" → args.length = 1 → r = Script.integer L.len
  xread : ∀ key start count, StreamCall.Decodes cmd args (.xread [key] [start] count) →
    Script.Tells r (.ok (.streams (ReadReply.push key
      (takeCount count (L.entries.filter fun p => start < p.1)) [])))
  xrange : ∀ key min max count, StreamCall.Decodes cmd args (.xrange key min max count) →
    Script.Tells r (.ok (.entries (takeCount count
      (L.entries.filter fun p => min ≤ p.1 ∧ p.1 ≤ max))))
  xrevrange : cmd = "XREVRANGE" → ∀ key min max (counts : List ℕ) (parts : List (List Bytes)),
    args = key :: formatStreamId max :: formatStreamId min :: parts.flatten →
    List.Forall₂ SpelledCount counts parts →
    Script.Tells r (.ok (.entries (takeCount counts.getLast?
      (L.entries.filter fun p => min ≤ p.1 ∧ p.1 ≤ max).reverse)))

/-- What a command of a script does to the log of its stream, and what it answers. -/
def ScriptMeans (L L' : StreamLog) (r : Script.Reply) (cmd : String) (args : List Bytes) : Prop :=
  if cmd = "XADD" then L.ScriptAdds L' r args
  else if cmd = "XDEL" then L.ScriptDeletes L' r args
  else L' = L ∧ L.ScriptReads r cmd args

end StreamLog

/-! ## Commands of a script -/

section Script

variable {S : Type} [Score S] {e : Env} {key : Bytes} {d : Data S} {L : StreamLog}

theorem scriptXadd_logs (h : LogAt e.now key d L) {args : List Bytes}
    (hid : Script.IdFits e d "XADD" args) (hkey : args.take 1 = [key]) :
    ∃ L', LogAt e.now key (Script.xadd e args d).1 L' ∧
      L.ScriptAdds L' (Script.xadd e args d).2 args := by
  match args, hkey with
  | [k], _ =>
    refine ⟨L, h, .inr ⟨rfl, fun text => ?_⟩⟩
    simp [Script.xadd, Script.wrongArity, Script.bulk]
  | k :: idText :: fields, hkey =>
    obtain rfl : k = key := List.cons.inj hkey |>.1
    unfold Script.xadd
    dsimp only
    split_ifs with harity
    · exact ⟨L, h, .inr ⟨rfl, fun _ => by simp [Script.wrongArity, Script.bulk]⟩⟩
    · rw [not_or, not_lt, not_not] at harity
      refine h.upsertAs (P := fun L L' (r : Script.Reply) =>
        L.ScriptAdds L' r (k :: idText :: fields)) fun s hs hb => ?_
      cases hnew : Script.newEntryId e idText s.lastId with
      | error r =>
        refine ⟨hb, .inr ⟨rfl, ?_⟩⟩
        rintro text rfl
        exact Script.newEntryId_error hnew
      | ok newId =>
        have hlt : s.lastId < newId := by
          refine (Script.lt_of_newEntryId hnew).mpr fun hstar => ?_
          subst hstar hs
          exact hid k fields rfl rfl harity.1 harity.2
        have hspelled : ∀ id, idText = formatStreamId id → newId = id := by
          rintro id rfl
          rw [Script.newEntryId_formatStreamId] at hnew
          split_ifs at hnew
          exact (Except.ok.inj hnew).symm
        refine ⟨hb.add hlt _, .inl ⟨k, idText, Script.pairUp fields, _, newId, ?_,
          Script.named_fieldsOf _, hlt, hspelled, Stream.log_add hb hlt _, rfl⟩⟩
        rw [← Script.flattenPairs, Script.flattenPairs_pairUp harity.2]

theorem scriptXdel_logs (h : LogAt e.now key d L) {args : List Bytes} (hkey : args.take 1 = [key]) :
    ∃ L', LogAt e.now key (Script.xdel e args d).1 L' ∧
      L.ScriptDeletes L' (Script.xdel e args d).2 args := by
  match args, hkey with
  | [k], _ => exact ⟨L, h, .inr ⟨Nat.one_lt_two, rfl⟩⟩
  | k :: id :: ids, hkey =>
    obtain rfl : k = key := List.cons.inj hkey |>.1
    have hspelled : ∀ spelled, id :: ids = spelled.map formatStreamId →
        (id :: ids).filterMap Script.lenientId = spelled := by
      intro spelled hs
      rw [hs, Script.filterMap_lenientId]
    refine h.modifyAs (P := fun L L' (r : Script.Reply) =>
      L.ScriptDeletes L' r (k :: id :: ids))
      (.inl ⟨k, id :: ids, _, rfl, rfl, hspelled, rfl, rfl⟩) fun s hb => ?_
    exact ⟨hb.discard _, .inl ⟨k, id :: ids, _, rfl, rfl, hspelled, s.log_discard _,
      congrArg Script.integer (s.xdel_count _)⟩⟩

theorem scriptXlen_logs (h : LogAt e.now key d L) :
    (Script.xlen e [key] d).2 = Script.integer L.len := by
  refine (h.readAs (P := fun L (r : Script.Reply) => r = Script.integer L.len) rfl fun s => ?_).2
  rw [s.len_log]

/-- The key of a well-formed XREAD of one stream. -/
theorem Script.keysOf_xread {cmd : String} {args : List Bytes} {k : Bytes} {start : StreamId}
    {count : Option ℕ} (h : StreamCall.Decodes cmd args (.xread [k] [start] count)) :
    Script.keysOf cmd args = [k] := by
  cases h with
  | xread hw hs hlen hne =>
    have hother : ¬ ("XREAD" = "DEL" ∨ "XREAD" = "EXISTS") := by decide
    unfold Script.keysOf
    rw [if_neg hother, if_pos rfl, Script.xreadOptions_words hw hs]
    simp

theorem scriptXread_logs (h : LogAt e.now key d L) {cmd : String} {args : List Bytes}
    {start : StreamId} {count : Option ℕ}
    (hd : StreamCall.Decodes cmd args (.xread [key] [start] count)) :
    Script.Tells (Script.dispatchInner e cmd args d).2 (.ok (.streams (ReadReply.push key
      (takeCount count (L.entries.filter fun p => start < p.1)) []))) := by
  have hanswer := (stream_command_matches e hd d).answer
  have hread : ((StreamCall.xread [key] [start] count).run e d).2 =
      (Store.xread e [key] [start] count d).2.map StreamAnswer.streams := rfl
  rw [hread, xread_answer h] at hanswer
  exact hanswer

/-- A range of the log, forwards or backwards. -/
theorem xrangeAs_logs (h : LogAt e.now key d L) (name : String) (reverse : Bool)
    {min max : StreamId} {counts : List ℕ} {parts : List (List Bytes)}
    (hc : List.Forall₂ SpelledCount counts parts) :
    Script.Tells (Script.xrangeAs name reverse e (key ::
        formatStreamId (if reverse then max else min) ::
        formatStreamId (if reverse then min else max) :: parts.flatten) d).2
      (.ok (.entries (takeCount counts.getLast?
        (if reverse then (L.entries.filter fun p => min ≤ p.1 ∧ p.1 ≤ max).reverse
          else L.entries.filter fun p => min ≤ p.1 ∧ p.1 ≤ max)))) := by
  have hcount := Script.xrangeCount_words hc none
  rw [Option.or_none] at hcount
  have hlo : (if reverse then if reverse then min else max else if reverse then max else min) =
      min := by cases reverse <;> rfl
  have hhi : (if reverse then if reverse then max else min else if reverse then min else max) =
      max := by cases reverse <;> rfl
  unfold Script.xrangeAs
  simp only [← apply_ite formatStreamId, hlo, hhi, Script.parseBound_formatStreamId, hcount]
  refine (h.readAs (P := fun L (r : Script.Reply) => Script.Tells r (.ok (.entries
    (takeCount counts.getLast?
      (if reverse then (L.entries.filter fun p => min ≤ p.1 ∧ p.1 ≤ max).reverse
        else L.entries.filter fun p => min ≤ p.1 ∧ p.1 ≤ max))))) ?_ fun s => ?_).2
  · have hnone : takeCount counts.getLast? (if reverse then ([] : Entries).reverse else []) = [] := by
      rw [List.reverse_nil, ite_self, takeCount_nil]
    show Script.Tells _ (.ok (.entries
      (takeCount counts.getLast? (if reverse then ([] : Entries).reverse else []))))
    rw [hnone]
    exact .entries .nil
  · rw [Script.entriesBetween_inclusive, s.between_log]
    exact .entries (Script.forall₂_map_self (Script.entryValue_shows e.walk) _)

/-- The reading commands answer from the log. -/
theorem scriptReads_logs (h : LogAt e.now key d L) {cmd : String} {args : List Bytes}
    (hkey : Script.keysOf cmd args = [key]) :
    L.ScriptReads (Script.dispatchInner e cmd args d).2 cmd args where
  xlen := by
    rintro rfl hlen
    obtain ⟨k, rfl⟩ := List.length_eq_one_iff.mp hlen
    obtain rfl := List.cons.inj hkey |>.1
    exact scriptXlen_logs h
  xread k start count hd := by
    rw [Script.keysOf_xread hd] at hkey
    cases hkey
    exact scriptXread_logs h hd
  xrange k min max count hd := by
    cases hd with
    | xrange _ _ _ hc =>
      obtain rfl := List.cons.inj hkey |>.1
      exact xrangeAs_logs h "xrange" false hc
  xrevrange := by
    rintro rfl k min max counts parts rfl hc
    obtain rfl := List.cons.inj hkey |>.1
    exact xrangeAs_logs h "xrevrange" true hc

theorem scriptXack_logs (h : LogAt e.now key d L) {args : List Bytes} (hkey : args.take 1 = [key]) :
    LogAt e.now key (Script.xack e args d).1 L := by
  unfold Script.xack
  split
  · obtain rfl := List.cons.inj hkey |>.1
    exact modifyGroup_logs h
  · exact h

theorem scriptXclaim_logs (h : LogAt e.now key d L) {args : List Bytes}
    (hkey : args.take 1 = [key]) : LogAt e.now key (Script.xclaim e args d).1 L := by
  unfold Script.xclaim
  split
  · obtain rfl := List.cons.inj hkey |>.1
    split
    · exact h
    · exact modifyGroup_logs h
  · exact h

/-- The commands for streams that write. -/
theorem Script.writes_stream {cmd : String} (h : Script.type? cmd = some .stream)
    (hr : cmd ∉ Script.readCommands) :
    cmd = "XADD" ∨ cmd = "XDEL" ∨ cmd = "XACK" ∨ cmd = "XCLAIM" := by
  unfold Script.type? at h
  split at h <;> first | cases h; done | simp_all [Script.readCommands]

theorem Script.keysOf_written {cmd : String} {args : List Bytes}
    (h : Script.type? cmd = some .stream) (hw : key ∈ Script.written cmd args) :
    Script.keysOf cmd args = [key] := by
  unfold Script.written at hw
  split_ifs at hw with hr
  · cases hw
  · have htake : Script.keysOf cmd args = args.take 1 := by
      rcases Script.writes_stream h hr with rfl | rfl | rfl | rfl <;> rfl
    rw [htake] at hw ⊢
    cases args with
    | nil => cases hw
    | cons k args => rw [List.mem_singleton.mp hw]; rfl

/-- The other commands for streams leave the log. -/
theorem scriptOther_logs (h : LogAt e.now key d L) {cmd : String} {args : List Bytes}
    (hcmd : Script.type? cmd = some .stream) (hkey : Script.keysOf cmd args = [key])
    (hadd : cmd ≠ "XADD") (hdel : cmd ≠ "XDEL") :
    LogAt e.now key (Script.dispatchInner e cmd args d).1 L := by
  by_cases hr : cmd ∈ Script.readCommands
  · exact h.of_same (Script.dispatchInner_others e d (by simp [Script.written, hr]))
  · rcases Script.writes_stream hcmd hr with rfl | rfl | rfl | rfl
    · exact absurd rfl hadd
    · exact absurd rfl hdel
    · exact scriptXack_logs h hkey
    · exact scriptXclaim_logs h hkey

/-- A command of a script does to the log what it means. -/
theorem Script.logs (h : LogAt e.now key d L) {cmd : String} {args : List Bytes}
    (hcmd : Script.type? cmd = some .stream) (hkey : Script.keysOf cmd args = [key])
    (hid : Script.IdFits e d cmd args) :
    ∃ L', LogAt e.now key (Script.dispatchInner e cmd args d).1 L' ∧
      L.ScriptMeans L' (Script.dispatchInner e cmd args d).2 cmd args := by
  unfold StreamLog.ScriptMeans
  by_cases hadd : cmd = "XADD"
  · subst hadd
    simp only [if_true]
    exact scriptXadd_logs h hid (by simpa [Script.keysOf] using hkey)
  by_cases hdel : cmd = "XDEL"
  · subst hdel
    simp only [hadd, if_false, if_true]
    exact scriptXdel_logs h (by simpa [Script.keysOf] using hkey)
  · simp only [hadd, hdel, if_false]
    exact ⟨L, scriptOther_logs h hcmd hkey hadd hdel, rfl, scriptReads_logs h hkey⟩

theorem LogAt.dispatch_others (h : LogAt e.now key d L) {cmd : String} {args : List Bytes}
    (hcmd : Script.type? cmd = some .stream) (hkey : Script.keysOf cmd args ≠ [key]) :
    LogAt e.now key (Script.dispatchInner e cmd args d).1 L :=
  h.of_same (Script.dispatchInner_others e d fun hw => hkey (Script.keysOf_written hcmd hw))

end Script

/-! ## Runs -/

section Runs

variable {S : Type} [Score S] {now : Instant} {key : Bytes} {L : StreamLog}

/-- What a request does to the log of a key, and what it answers when it is a method or a command
for streams and for that key. -/
def Request.Logs (key : Bytes) (L L' : StreamLog) : Request S → Option (Response S) → Prop
  | .op o, r =>
    if o.type? = some .stream ∧ o.keys = [key]
      then ∃ out, r = some (.outcome out) ∧ L.Means L' out o
      else L' = L
  | .call cmd args, r =>
    if Script.type? cmd = some .stream ∧ Script.keysOf cmd args = [key]
      then ∃ reply, r = some (.reply reply) ∧ L.ScriptMeans L' reply cmd args
      else L' = L
  | _, _ => L' = L

/-- A run as its log tells it. -/
def StreamLog.Tells (key : Bytes) :
    StreamLog → List (Instant × Request S × Option (Response S)) → Prop
  | _, [] => True
  | L, (_, q, r) :: rest => ∃ L', q.Logs key L L' r ∧ Tells key L' rest

/-- The request does not write the key, or it is a method or a command for streams, and an automatic
id has a next one. -/
def Request.AsLog (key : Bytes) (e : Env) (st : Store S) (q : Request S) : Prop :=
  q.Spares {key} ∨ (∃ o, q = .op o ∧ o.type? = some .stream ∧ o.IdFits e st.data) ∨
    ∃ cmd args, q = .call cmd args ∧ Script.type? cmd = some .stream ∧
      Script.IdFits e st.data cmd args

def AllAsLog (key : Bytes) : Store S → List (Env × Request S) → Prop
  | _, [] => True
  | st, (e, q) :: steps => q.AsLog key e st ∧ AllAsLog key (q.run? e st).1 steps

omit [Score S] in
/-- A stream method that may write a key has it for its only one, unless it reads for a group. -/
theorem Op.keys_of_written {o : Op S} (ho : o.type? = some .stream) (hw : key ∈ o.written) :
    o.keys = [key] ∨
      ∃ group consumer keys ids count, o = .xreadgroup group consumer keys ids count := by
  have hone : ∀ {k : Bytes}, key ∈ [k] → [k] = [key] := fun h => by rw [List.mem_singleton.mp h]
  cases o with
  | xreadgroup group consumer keys ids count => exact .inr ⟨_, _, _, _, _, rfl⟩
  | xadd => exact .inl (hone hw)
  | xtrim => exact .inl (hone hw)
  | xdel => exact .inl (hone hw)
  | xgroupCreate => exact .inl (hone hw)
  | xgroupDestroy => exact .inl (hone hw)
  | xack => exact .inl (hone hw)
  | xautoclaim => exact .inl (hone hw)
  | xclaim => exact .inl (hone hw)
  | _ => first | exact absurd hw List.not_mem_nil | cases ho

/-- A stream method that is not of this key alone leaves its log. -/
theorem LogAt.exec_others {e : Env} {d : Data S} {o : Op S} (h : LogAt e.now key d L)
    (ho : o.type? = some .stream) (hk : o.keys ≠ [key]) : LogAt e.now key (o.exec e d).1 L := by
  by_cases hw : key ∈ o.written
  · rcases Op.keys_of_written ho hw with hkeys | ⟨group, consumer, keys, ids, count, rfl⟩
    · exact absurd hkeys hk
    · exact xreadgroupPairs_logs h (keys.zip ids)
  · exact h.of_same (Op.exec_others e d hw)

theorem Op.idFits_of_spares {e : Env} {d : Data S} {o : Op S} (hs : (Request.op o).Spares {key})
    (hk : o.keys = [key]) : o.IdFits e d := by
  cases o with
  | xadd k fields id =>
    cases hk
    exact absurd rfl (hs key (List.mem_singleton_self key))
  | _ => trivial

theorem Script.idFits_of_spares {e : Env} {d : Data S} {cmd : String} {args : List Bytes}
    (hs : (Request.call cmd args : Request S).Spares {key}) (hk : Script.keysOf cmd args = [key]) :
    Script.IdFits e d cmd args := by
  rintro k fields rfl rfl
  obtain rfl : k = key := List.cons.inj hk |>.1
  exact absurd rfl (hs k (List.mem_singleton_self k))

section Run

variable {e : Env} {st : Store S}

/-- No method for streams sets a deadline. -/
theorem Op.exec?_of_type {d : Data S} {o : Op S} (ho : o.type? = some .stream) :
    o.exec? e d = ((o.exec e d).1, some (o.exec e d).2) := by
  cases o <;> first | rfl | cases ho

/-- No command for streams sets a deadline. -/
theorem Script.dispatchInner?_of_type {d : Data S} {cmd : String} {args : List Bytes}
    (hcmd : Script.type? cmd = some .stream) :
    Script.dispatchInner? e cmd args d =
      ((Script.dispatchInner e cmd args d).1, some (Script.dispatchInner e cmd args d).2) := by
  unfold Script.dispatchInner?
  split <;> first | rfl | cases hcmd

theorem LogAt.run_op (h : LogAt e.now key st.data L) {o : Op S}
    (hid : o.type? = some .stream → o.keys = [key] → o.IdFits e st.data)
    (hkept : LogAt e.now key (o.exec? e st.data).1 L ∨ o.type? = some .stream) :
    ∃ L', LogAt e.now key (o.exec? e st.data).1 L' ∧
      (Request.op o).Logs key L L' ((o.exec? e st.data).2.map .outcome) := by
  unfold Request.Logs
  dsimp only
  by_cases hown : o.type? = some .stream ∧ o.keys = [key]
  · obtain ⟨L', hL', hmeans⟩ := Op.logs h hown.1 hown.2 (hid hown.1 hown.2)
    rw [Op.exec?_of_type hown.1]
    refine ⟨L', hL', ?_⟩
    rw [if_pos hown]
    exact ⟨_, rfl, hmeans⟩
  · have hsame : LogAt e.now key (o.exec? e st.data).1 L := by
      refine hkept.elim id fun ho => ?_
      rw [Op.exec?_of_type ho]
      exact h.exec_others ho fun hk => hown ⟨ho, hk⟩
    refine ⟨L, hsame, ?_⟩
    rw [if_neg hown]

theorem LogAt.run_call (h : LogAt e.now key st.data L) {cmd : String} {args : List Bytes}
    (hid : Script.keysOf cmd args = [key] → Script.IdFits e st.data cmd args)
    (hkept : LogAt e.now key (Script.dispatchInner? e cmd args st.data).1 L ∨
      Script.type? cmd = some .stream) :
    ∃ L', LogAt e.now key (Script.dispatchInner? e cmd args st.data).1 L' ∧
      (Request.call cmd args : Request S).Logs key L L'
        ((Script.dispatchInner? e cmd args st.data).2.map .reply) := by
  unfold Request.Logs
  dsimp only
  by_cases hown : Script.type? cmd = some .stream ∧ Script.keysOf cmd args = [key]
  · obtain ⟨L', hL', hmeans⟩ := Script.logs h hown.1 hown.2 (hid hown.2)
    rw [Script.dispatchInner?_of_type hown.1]
    refine ⟨L', hL', ?_⟩
    rw [if_pos hown]
    exact ⟨_, rfl, hmeans⟩
  · have hsame : LogAt e.now key (Script.dispatchInner? e cmd args st.data).1 L := by
      refine hkept.elim id fun hcmd => ?_
      rw [Script.dispatchInner?_of_type hcmd]
      exact h.dispatch_others hcmd fun hk => hown ⟨hcmd, hk⟩
    refine ⟨L, hsame, ?_⟩
    rw [if_neg hown]

/-- A request that does not write the key leaves its log, also when it panics. -/
theorem LogAt.run_spares {q : Request S} (h : LogAt e.now key st.data L) (hs : q.Spares {key}) :
    LogAt e.now key (q.run? e st).1.data L := by
  rcases Request.run?_cases e st q with hr | ⟨d', hd', hr⟩
  · rw [hr]
    exact h.of_same (Request.run_spares hs st key rfl)
  · rw [hr]
    exact h.of_same (hd'.live_eq key)

theorem LogAt.run {q : Request S} (h : LogAt e.now key st.data L) (hq : q.AsLog key e st) :
    ∃ L', LogAt e.now key (q.run? e st).1.data L' ∧ q.Logs key L L' (q.run? e st).2 := by
  rcases hq with hs | ⟨o, rfl, ho, hid⟩ | ⟨cmd, args, rfl, hcmd, hid⟩
  · have hsame := h.run_spares (e := e) hs
    cases q with
    | op o => exact h.run_op (fun _ hk => Op.idFits_of_spares hs hk) (.inl hsame)
    | call cmd args => exact h.run_call (Script.idFits_of_spares hs) (.inl hsame)
    | _ => exact ⟨L, hsame, rfl⟩
  · exact h.run_op (fun _ _ => hid) (.inr ho)
  · exact h.run_call (fun _ => hid) (.inr hcmd)

end Run

theorem tells_of_logAt {st : Store S} {steps : List (Env × Request S)}
    (h : LogAt now key st.data L) (ht : InTime steps) (hlater : ∀ x ∈ steps, now ≤ x.1.now)
    (hq : AllAsLog key st steps) : L.Tells key (trace st steps) := by
  induction steps generalizing now st L with
  | nil => trivial
  | cons x steps ih =>
    obtain ⟨e, q⟩ := x
    obtain ⟨hasLog, hrest⟩ := hq
    obtain ⟨hnext, ht⟩ := List.pairwise_cons.mp ht
    obtain ⟨L', hL', hlogs⟩ := (h.later (hlater _ List.mem_cons_self)).run hasLog
    exact ⟨L', hlogs, ih hL' ht hnext hrest⟩

/-- In every run in which a key that is not there yet is written by methods and commands for streams
only, they do what they mean to a log that begins empty, and answer from it. -/
theorem stream_is_log {st : Store S} {steps : List (Env × Request S)}
    (hnone : live now st.data key = none) (ht : InTime steps)
    (hlater : ∀ x ∈ steps, now ≤ x.1.now) (hq : AllAsLog key st steps) :
    StreamLog.empty.Tells key (trace st steps) :=
  tells_of_logAt (.inl ⟨hnone, rfl⟩) ht hlater hq

/-- An entry with an id, one with an automatic id, a removal and a range by a script, and a string
beside the stream, on which an expiry is tried that no clock can count. -/
def shortLog : List (Env × Request ℤ) :=
  [(⟨0, 5, .byKey⟩, .op (.xadd [1] ∅ (some ⟨5, 1⟩))),
    (⟨1, 5, .byKey⟩, .op (.xgroupCreate [1] [2] .zero false)),
    (⟨1, 5, .byKey⟩, .op (.xadd [1] ∅ none)),
    (⟨2, 5, .byKey⟩, .op (.set [3] [4] none false false)),
    (⟨2, 5, .byKey⟩, .op (.xreadgroup [2] [6] [[1]] [ascii ">"] none)),
    (⟨2000000000, 5, .byKey⟩, .call "XDEL" [[1], ascii "5-1"]),
    (⟨2000000000, 5, .byKey⟩, .op (.expire [3] (2 ^ 63 - 1))),
    (⟨2000000000, 5, .byKey⟩, .call "XRANGE" [[1], ascii "0-0", ascii "9-0"]),
    (⟨2000000000, 5, .byKey⟩, .op (.xlen [1]))]

theorem shortLog_is_log : StreamLog.empty.Tells [1] (trace (⟨∅, ∅⟩ : Store ℤ) shortLog) := by
  have hnone : live 0 (∅ : Data ℤ) [1] = none := rfl
  refine stream_is_log hnone ?_ ?_ ?_
  · simp [InTime, shortLog]
  · simp [shortLog]
  · refine ⟨.inr (.inl ⟨_, rfl, rfl, trivial⟩), .inr (.inl ⟨_, rfl, rfl, trivial⟩),
      .inr (.inl ⟨_, rfl, rfl, ?_⟩), .inl ?_, .inr (.inl ⟨_, rfl, rfl, trivial⟩),
      .inr (.inr ⟨_, _, rfl, rfl, ?_⟩), .inl ?_, .inr (.inr ⟨_, _, rfl, rfl, ?_⟩),
      .inr (.inl ⟨_, rfl, rfl, trivial⟩), trivial⟩
    · unfold Op.IdFits StreamId.HasNext
      decide +kernel
    · simp [Request.Spares, Op.written, Op.reads, Op.keys]
    · simp [Script.IdFits]
    · simp [Request.Spares, Op.written, Op.reads, Op.keys]
    · simp [Script.IdFits]

end Runs

end BurnerRedis
