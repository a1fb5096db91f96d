import BurnerRedis.Answers

/-!
# Calls on streams

For each stream command that a script and the store both have, `StreamCall` is a call of the method
with its typed arguments, and `StreamCall.Decodes` says which arguments of the command stand for it.
An id is given by its text, and that of XADD may also be an asterisk. `Tells` is what a script's
reply says of the method's answer.
-/

namespace BurnerRedis

/-! ## Calls -/

/-- The fields of an entry that pairs of a field and a value give: of two values for one field the
last. -/
def Named (pairs : List (Bytes × Bytes)) (fields : Fields) : Prop :=
  ∀ field value, fields[field]? = some value ↔
    ∃ before after, pairs = before ++ (field, value) :: after ∧ ∀ p ∈ after, p.1 ≠ field

/-- The arguments that stand for a count. -/
inductive SpelledCount : ℕ → List Bytes → Prop where
  | mk {word text : Bytes} {n : ℕ} (hw : optionWord word = "COUNT")
      (hn : parseUsize text = some n) : SpelledCount n [word, text]

/-- The arguments of XREAD before the word STREAMS: counts, and words that are skipped. -/
inductive SpelledReading : Option ℕ → List Bytes → Prop where
  | count {n : ℕ} {part : List Bytes} (h : SpelledCount n part) : SpelledReading (some n) part
  | skipped {word : Bytes} (hw : optionWord word ∉ ["COUNT", "STREAMS"]) :
      SpelledReading none [word]

/-- The ids and options of XCLAIM. -/
inductive ClaimWord where
  | id (id : StreamId)
  | idle (ms : UInt64)
  | retrycount (n : UInt64)
  | force
  | justid

namespace ClaimWord

/-- The arguments that stand for an id or an option. -/
inductive Spelled : ClaimWord → List Bytes → Prop where
  | id (i : StreamId) : Spelled (id i) [formatStreamId i]
  | idle {word text : Bytes} {ms : UInt64} (hw : optionWord word = "IDLE")
      (hn : parseU64 text = some ms) : Spelled (idle ms) [word, text]
  | retrycount {word text : Bytes} {n : UInt64} (hw : optionWord word = "RETRYCOUNT")
      (hn : parseU64 text = some n) : Spelled (retrycount n) [word, text]
  | force {word : Bytes} (hw : optionWord word = "FORCE") : Spelled force [word]
  | justid {word : Bytes} (hw : optionWord word = "JUSTID") : Spelled justid [word]

def id? : ClaimWord → Option StreamId
  | id i => some i
  | _ => none

/-- An option put beside those before it. -/
def set (o : XclaimOptions) : ClaimWord → XclaimOptions
  | id _ => o
  | idle ms => { o with idle := some ms }
  | retrycount n => { o with retrycount := some n }
  | force => { o with force := true }
  | justid => { o with justid := true }

end ClaimWord

/-- A call of a stream method. -/
inductive StreamCall where
  | xadd (key : Bytes) (fields : Fields) (id : Option StreamId)
  | xread (keys : List Bytes) (ids : List StreamId) (count : Option ℕ)
  | xdel (key : Bytes) (ids : List StreamId)
  | xack (key group : Bytes) (ids : List StreamId)
  | xlen (key : Bytes)
  | xrange (key : Bytes) (min max : StreamId) (count : Option ℕ)
  | xclaim (key group consumer : Bytes) (minIdleTimeMs : UInt64) (ids : List StreamId)
      (options : XclaimOptions)

/-- The results of the stream methods. -/
inductive StreamAnswer where
  | added (id : StreamId)
  | streams (r : ReadReply)
  | count (n : ℤ)
  | entries (l : Entries)
  | claimed (l : List (StreamId × Option Fields))

namespace StreamCall

/-- The call of the store. -/
def run {S : Type} [LinearOrder S] (e : Env) (d : Data S) :
    StreamCall → Data S × Except StoreError StreamAnswer
  | xadd key fields id =>
    ((Store.xadd e key fields id d).1, (Store.xadd e key fields id d).2.1.map .added)
  | xread keys ids count =>
    ((Store.xread e keys ids count d).1, (Store.xread e keys ids count d).2.map .streams)
  | xdel key ids => ((Store.xdel e key ids d).1, (Store.xdel e key ids d).2.map .count)
  | xack key group ids =>
    ((Store.xack e key group ids d).1, (Store.xack e key group ids d).2.map .count)
  | xlen key => ((Store.xlen e key d).1, (Store.xlen e key d).2.map fun n => .count n)
  | xrange key min max count =>
    ((Store.xrange e key min max count d).1, (Store.xrange e key min max count d).2.map .entries)
  | xclaim key group consumer minIdle ids o =>
    ((Store.xclaim e key group consumer minIdle ids o d).1,
      (Store.xclaim e key group consumer minIdle ids o d).2.map .claimed)

/-- The arguments of a command, and the call they stand for. Of several counts the last is meant. -/
inductive Decodes : String → List Bytes → StreamCall → Prop where
  | xadd (key : Bytes) (id : StreamId) {pairs : List (Bytes × Bytes)} {fields : Fields}
      (hne : pairs ≠ []) (hf : Named pairs fields) :
      Decodes "XADD" (key :: formatStreamId id :: pairs.flatMap fun p => [p.1, p.2])
        (xadd key fields (some id))
  | xaddAuto (key : Bytes) {pairs : List (Bytes × Bytes)} {fields : Fields} (hne : pairs ≠ [])
      (hf : Named pairs fields) :
      Decodes "XADD" (key :: ascii "*" :: pairs.flatMap fun p => [p.1, p.2]) (xadd key fields none)
  | xread {words : List (Option ℕ)} {parts : List (List Bytes)} {streams : Bytes}
      {keys : List Bytes} {ids : List StreamId} (hw : List.Forall₂ SpelledReading words parts)
      (hs : optionWord streams = "STREAMS") (hlen : keys.length = ids.length) (hne : keys ≠ []) :
      Decodes "XREAD" (parts.flatten ++ streams :: (keys ++ ids.map formatStreamId))
        (xread keys ids words.reduceOption.getLast?)
  | xdel (key : Bytes) (id : StreamId) (ids : List StreamId) :
      Decodes "XDEL" (key :: (id :: ids).map formatStreamId) (xdel key (id :: ids))
  | xack (key group : Bytes) (id : StreamId) (ids : List StreamId) :
      Decodes "XACK" (key :: group :: (id :: ids).map formatStreamId) (xack key group (id :: ids))
  | xlen (key : Bytes) : Decodes "XLEN" [key] (xlen key)
  | xrange (key : Bytes) (min max : StreamId) {counts : List ℕ} {parts : List (List Bytes)}
      (hc : List.Forall₂ SpelledCount counts parts) :
      Decodes "XRANGE" (key :: formatStreamId min :: formatStreamId max :: parts.flatten)
        (xrange key min max counts.getLast?)
  | xclaim (key group consumer : Bytes) {minIdle : Bytes} {ms : UInt64}
      (hm : parseU64 minIdle = some ms) {words : List ClaimWord} {parts : List (List Bytes)}
      (hw : List.Forall₂ ClaimWord.Spelled words parts) (hne : words ≠ []) :
      Decodes "XCLAIM" (key :: group :: consumer :: minIdle :: parts.flatten)
        (xclaim key group consumer ms (words.filterMap ClaimWord.id?) (words.foldl ClaimWord.set {}))

end StreamCall

namespace Script

/-! ## Replies -/

/-- An entry as an array of its id and of its fields with their values, in any order. -/
inductive ShowsEntry : RedisValue → StreamId × Fields → Prop where
  | mk (id : StreamId) {fields : Fields} {pairs : List (Bytes × Bytes)}
      (h : pairs.Perm fields.toList) :
      ShowsEntry (.array [.bulkString (formatStreamId id),
        .array ((flattenPairs pairs).map .bulkString)]) (id, fields)

/-- A stream as an array of its key and its entries. -/
inductive ShowsStream : RedisValue → Bytes × Entries → Prop where
  | mk (key : Bytes) {vs : List RedisValue} {entries : Entries}
      (h : List.Forall₂ ShowsEntry vs entries) :
      ShowsStream (.array [.bulkString key, .array vs]) (key, entries)

/-- A claimed entry, alone or with its fields. -/
inductive ShowsClaimed : RedisValue → StreamId × Option Fields → Prop where
  | alone (id : StreamId) : ShowsClaimed (.bulkString (formatStreamId id)) (id, none)
  | entry {v : RedisValue} {id : StreamId} {fields : Fields} (h : ShowsEntry v (id, fields)) :
      ShowsClaimed v (id, some fields)

/-- A reply in a script tells what a method answers; a failure is told by a failure. -/
inductive Tells : Reply → Except StoreError StreamAnswer → Prop where
  | refused (message : String) (err : StoreError) : Tells (.ok (.error message)) (.error err)
  | raised (message : String) (err : StoreError) : Tells (.error message) (.error err)
  | added (id : StreamId) : Tells (bulk (formatStreamId id)) (.ok (.added id))
  | noStreams : Tells (.ok .nil) (.ok (.streams []))
  | streams {vs : List RedisValue} {r : ReadReply} (h : List.Forall₂ ShowsStream vs r)
      (hne : r ≠ []) : Tells (.ok (.array vs)) (.ok (.streams r))
  | count (n : ℤ) : Tells (integer n) (.ok (.count n))
  | entries {vs : List RedisValue} {l : Entries} (h : List.Forall₂ ShowsEntry vs l) :
      Tells (.ok (.array vs)) (.ok (.entries l))
  | claimed {vs : List RedisValue} {l : List (StreamId × Option Fields)}
      (h : List.Forall₂ ShowsClaimed vs l) : Tells (.ok (.array vs)) (.ok (.claimed l))

theorem Tells.wrongType : Tells Script.wrongType (.error .wrongType) := .refused _ _

theorem entryValue_shows (o : FinMap.WalkOrder) (entry : StreamId × Fields) :
    ShowsEntry (entryValue o entry) entry :=
  .mk entry.1 (FinMap.walk_perm o entry.2)

theorem claimedValue_shows (o : FinMap.WalkOrder) (entry : StreamId × Option Fields) :
    ShowsClaimed (claimedValue o entry) entry := by
  obtain ⟨id, fields⟩ := entry
  cases fields with
  | none => exact .alone id
  | some fields => exact .entry (entryValue_shows o (id, fields))

/-- Values made one by one tell a list. -/
theorem forall₂_map_self {α β : Type} {R : β → α → Prop} {f : α → β} (h : ∀ x, R (f x) x)
    (l : List α) : List.Forall₂ R (l.map f) l := by
  induction l with
  | nil => exact .nil
  | cons x l ih => exact .cons (h x) ih

end Script

end BurnerRedis
