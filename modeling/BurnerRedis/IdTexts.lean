import BurnerRedis.PendingReads
import BurnerRedis.ScriptStreams
import BurnerRedis.StreamIds

/-!
# The text of an id

A stream id is printed as its two numbers with a dash between them, and read again by seven parsers
that split, shorten and forgive in ways of their own. `ReadsAs` is what they all make of one text;
the text that is printed for an id reads as that id (`readsAs_formatStreamId`).
-/

namespace BurnerRedis

open Script in
/-- Every parser of ids takes the text for the id. -/
structure ReadsAs (e : Env) (text : Bytes) (id : StreamId) : Prop where
  parse : parseStreamId text = some id
  /-- a new entry gets the id, unless the stream is past it -/
  xadd : ∀ lastId, newEntryId e text lastId =
    if id ≤ lastId then .error (.ok (.error
      "ERR The ID specified in XADD is equal or smaller than the target stream top item"))
    else .ok id
  xread : startId text = id
  /-- XDEL and XACK -/
  lenient : lenientId text = some id
  /-- XRANGE and XREVRANGE, at either end -/
  bound : ∀ isLow, parseBound text isLow = some (id, false)
  xclaim : ∀ rest o,
    claimArgs (text :: rest) o = (id :: (claimArgs rest o).1, (claimArgs rest o).2)
  /-- XREADGROUP of pending entries -/
  pending : pendingStart text = id

theorem readsAs_formatStreamId (e : Env) (id : StreamId) : ReadsAs e (formatStreamId id) id where
  parse := parseStreamId_formatStreamId id
  xadd := Script.newEntryId_formatStreamId id e
  xread := Script.startId_formatStreamId id
  lenient := Script.lenientId_formatStreamId id
  bound := Script.parseBound_formatStreamId id
  xclaim := Script.claimArgs_word (.id id)
  pending := pendingStart_formatStreamId id

section Printed

variable {S : Type} [Score S] {e : Env} {d : Data S} {key idText : Bytes} {fields : List Bytes}

/-- XADD prints the id of the entry it has put at the end of the stream. -/
theorem Script.xadd_prints {text : Bytes}
    (h : (Script.xadd e (key :: idText :: fields) d).2 = bulk text) :
    ∃ s, liveStream e.now (Script.xadd e (key :: idText :: fields) d).1 key = some s ∧
      s.lastId ∈ s.entries ∧ text = formatStreamId s.lastId := by
  obtain ⟨newId, rfl, -, -, -, hs⟩ := xadd_ok h
  refine ⟨_, hs, ?_, rfl⟩
  exact Std.ExtTreeMap.mem_insert_self

end Printed

open Script in
/-- An id that a command prints is understood by every other as the id it was printed for. -/
theorem id_text_codec {S : Type} [Score S] (e : Env) (d : Data S) :
    (∀ id, ReadsAs e (formatStreamId id) id) ∧
    (∀ key idText fields text, (xadd e (key :: idText :: fields) d).2 = bulk text →
      ∃ s, liveStream e.now (xadd e (key :: idText :: fields) d).1 key = some s ∧
        s.lastId ∈ s.entries ∧ text = formatStreamId s.lastId) ∧
    ∀ id entryFields, ∃ pairs, entryValue e.walk (id, entryFields) =
      .array [.bulkString (formatStreamId id), .array pairs] := by
  refine ⟨readsAs_formatStreamId e, ?_, ?_⟩
  · intro key idText fields text h
    exact xadd_prints h
  · intro id entryFields
    exact ⟨_, rfl⟩

end BurnerRedis
