import BurnerRedis.Script.Reply
import BurnerRedis.Store.Groups

/-!
# Streams in a script

The stream arms of `dispatch_command_inner`. XDEL, XACK and XREAD read their ids leniently: a part
that is no number counts as zero.
-/

namespace BurnerRedis.Script

variable {S : Type} [LinearOrder S]

/-! ## Ids -/

/-- The id of a new entry, or the reply that ends the command. -/
def newEntryId (e : Env) (idText : Bytes) (lastId : StreamId) : Except Reply StreamId :=
  if idText = ascii "*" then
    .ok (if lastId.ms < e.wall then ⟨e.wall, 0⟩ else ⟨lastId.ms, lastId.seq + 1⟩)
  else match splitDash idText with
    | (_, none) => .error (.ok (.error invalidId))
    | (ms, some seq) => match parseU64 ms, parseU64 seq with
      | some ms, some seq =>
        if (⟨ms, seq⟩ : StreamId) ≤ lastId then
          .error (.ok (.error
            "ERR The ID specified in XADD is equal or smaller than the target stream top item"))
        else .ok ⟨ms, seq⟩
      | _, _ => .error (.error invalidId)

/-- The id of XDEL and XACK; a text without a dash is skipped. -/
def lenientId (idText : Bytes) : Option StreamId :=
  match splitDash idText with
  | (ms, some seq) => some ⟨(parseU64 ms).getD 0, (parseU64 seq).getD 0⟩
  | (_, none) => none

/-- The start id of XREAD; a text without a dash is a number of milliseconds. -/
def startId (idText : Bytes) : StreamId :=
  if idText = ascii "0" ∨ idText = ascii "0-0" then .zero
  else match splitDash idText with
    | (ms, some seq) => ⟨(parseU64 ms).getD 0, (parseU64 seq).getD 0⟩
    | (ms, none) => ⟨(parseU64 ms).getD 0, 0⟩

/-- `parse_bound`: a bound of XRANGE and whether it is exclusive. -/
def parseBound (text : Bytes) (isLow : Bool) : Option (StreamId × Bool) :=
  let exclusive := text.head? = some 40
  let s := if exclusive then text.tail else text
  if s = ascii "-" then some (.zero, exclusive)
  else if s = ascii "+" then some (.max, exclusive)
  else match splitDash s with
    | (ms, some seq) => (parseU64 ms).bind fun ms => (parseU64 seq).map fun seq =>
        (⟨ms, seq⟩, exclusive)
    | (ms, none) => (parseU64 ms).map fun ms =>
        (⟨ms, if isLow then 0 else StreamId.max.seq⟩, exclusive)

/-! ## Commands -/

/-- The fields of a new entry; of two values for one field the last stays. -/
def fieldsOf (pairs : List (Bytes × Bytes)) : Fields :=
  pairs.foldl (fun map p => map.insert p.1 p.2) ∅

/-- `XADD` -/
def xadd (e : Env) : List Bytes → Data S → Data S × Reply
  | key :: idText :: fields => fun d =>
    if fields.length < 2 ∨ fields.length % 2 ≠ 0 then (d, wrongArity "xadd")
    else upsertAs .stream e.now key .new wrongType (fun stream =>
      match newEntryId e idText stream.lastId with
      | .error r => (stream, r)
      | .ok newId =>
        ({ stream with
            entries := stream.entries.insert newId (fieldsOf (pairUp fields)), lastId := newId },
          bulk (formatStreamId newId))) d
  | _ => fun d => (d, wrongArity "xadd")

/-- An entry as an array of its id and of its fields and values. -/
def entryValue (o : FinMap.WalkOrder) (entry : StreamId × Fields) : RedisValue :=
  .array [.bulkString (formatStreamId entry.1),
    .array ((flattenPairs (entry.2.walk o)).map .bulkString)]

/-- The count of XREAD and what follows the word STREAMS; other words before it are skipped. -/
def xreadOptions : List Bytes → Option ℕ → Except Reply (Option ℕ × List Bytes)
  | [], count => .ok (count, [])
  | arg :: rest, count =>
    if optionWord arg = "COUNT" then
      match rest with
      | [] => .error syntaxReply
      | n :: rest => match parseUsize n with
        | none => .error (.error notInteger)
        | some n => xreadOptions rest (some n)
    else if optionWord arg = "STREAMS" then .ok (count, rest)
    else xreadOptions rest count

/-- `XREAD` of the keys one after the other: the arrays of the streams that have something. -/
def xreadPairs (e : Env) (count : Option ℕ) :
    List (Bytes × Bytes) → Data S → Data S × Except Reply (List RedisValue)
  | [], d => (d, .ok [])
  | (key, idText) :: pairs, d₀ =>
    let d := purge e.now key d₀
    match d[key]? with
    | none => xreadPairs e count pairs d
    | some en => match Kind.stream.get? en.data with
      | none => (d, .error wrongType)
      | some stream =>
        let entries := (takeCount count (stream.entries.after (startId idText))).map
          (entryValue e.walk)
        let r := xreadPairs e count pairs d
        (r.1, r.2.map fun vs =>
          if entries.isEmpty then vs else .array [.bulkString key, .array entries] :: vs)

/-- `XREAD` -/
def xread (e : Env) (args : List Bytes) (d : Data S) : Data S × Reply :=
  if args.isEmpty then (d, wrongArity "xread")
  else match xreadOptions args none with
    | .error r => (d, r)
    | .ok (count, remaining) =>
      if remaining.isEmpty || remaining.length % 2 ≠ 0 then
        (d, .ok (.error ("ERR Unbalanced XREAD list of streams: " ++
          "for each stream key an ID must be specified")))
      else
        let half := remaining.length / 2
        let r := xreadPairs e count ((remaining.take half).zip (remaining.drop half)) d
        (r.1, match r.2 with
          | .error err => err
          | .ok [] => .ok .nil
          | .ok vs => .ok (.array vs))

/-- `XDEL` -/
def xdel (e : Env) : List Bytes → Data S → Data S × Reply
  | key :: id :: ids => modifyAs .stream e.now key (integer 0) wrongType fun stream =>
      let ids := (id :: ids).filterMap lenientId
      (stream.discard ids, integer (Store.removeAll stream.entries ids).2)
  | _ => fun d => (d, wrongArity "xdel")

/-- `XACK` -/
def xack (e : Env) : List Bytes → Data S → Data S × Reply
  | key :: group :: id :: ids =>
    Store.modifyGroup e.now key group (integer 0) wrongType fun _ cg =>
      let r := ((id :: ids).filterMap lenientId).foldl (ConsumerGroup.ackOne e.walk) (cg, 0)
      (r.1, integer r.2)
  | _ => fun d => (d, wrongArity "xack")

/-- `XLEN` -/
def xlen (e : Env) : List Bytes → Data S → Data S × Reply
  | [key] => readAs .stream e.now key (integer 0) wrongType fun stream =>
      integer stream.entries.size
  | _ => fun d => (d, wrongArity "xlen")

/-- The count of XRANGE; any other word is an error. -/
def xrangeCount : List Bytes → Option ℕ → Except Reply (Option ℕ)
  | [], count => .ok count
  | arg :: rest, _ =>
    if optionWord arg = "COUNT" then
      match rest with
      | [] => .error syntaxReply
      | n :: rest => match parseUsize n with
        | none => .error (.ok (.error notInteger))
        | some n => xrangeCount rest (some n)
    else .error syntaxReply

/-- The entries between two bounds; none when the tree range would be empty or inverted. -/
def entriesBetween (s : Stream) (lo hi : StreamId × Bool) : Entries :=
  if hi.1 < lo.1 ∨ lo.1 = hi.1 ∧ (lo.2 ∨ hi.2) then []
  else s.entries.toList.filter fun p =>
    (if lo.2 then lo.1 < p.1 else lo.1 ≤ p.1) ∧ (if hi.2 then p.1 < hi.1 else p.1 ≤ hi.1)

/-- `XRANGE` and `XREVRANGE` -/
def xrangeAs (name : String) (reverse : Bool) (e : Env) : List Bytes → Data S → Data S × Reply
  | key :: first :: second :: rest => fun d =>
    match parseBound (if reverse then second else first) true,
      parseBound (if reverse then first else second) false with
    | some lo, some hi => match xrangeCount rest none with
      | .error r => (d, r)
      | .ok count => readAs .stream e.now key (.ok (.array [])) wrongType (fun stream =>
          let entries := entriesBetween stream lo hi
          .ok (.array ((takeCount count (if reverse then entries.reverse else entries)).map
            (entryValue e.walk)))) d
    | _, _ => (d, .ok (.error invalidId))
  | _ => fun d => (d, wrongArity name)

/-- `XRANGE` -/
def xrange (e : Env) : List Bytes → Data S → Data S × Reply := xrangeAs "xrange" false e

/-- `XREVRANGE` -/
def xrevrange (e : Env) : List Bytes → Data S → Data S × Reply := xrangeAs "xrevrange" true e

/-- The ids and options of XCLAIM, in any order; a text that is no id is skipped. -/
def claimArgs : List Bytes → XclaimOptions → List StreamId × XclaimOptions
  | [], o => ([], o)
  | arg :: rest, o =>
    if optionWord arg = "IDLE" then
      match rest with
      | n :: rest => claimArgs rest { o with idle := some ((parseU64 n).getD 0) }
      | [] => ([], o)
    else if optionWord arg = "RETRYCOUNT" then
      match rest with
      | n :: rest => claimArgs rest { o with retrycount := some ((parseU64 n).getD 0) }
      | [] => ([], o)
    else if optionWord arg = "FORCE" then claimArgs rest { o with force := true }
    else if optionWord arg = "JUSTID" then claimArgs rest { o with justid := true }
    else ((parseStreamId arg).toList ++ (claimArgs rest o).1, (claimArgs rest o).2)

/-- An entry claimed, alone or with its fields. -/
def claimedValue (o : FinMap.WalkOrder) (entry : StreamId × Option Fields) : RedisValue :=
  match entry.2 with
  | none => .bulkString (formatStreamId entry.1)
  | some fields => entryValue o (entry.1, fields)

/-- `XCLAIM` -/
def xclaim (e : Env) : List Bytes → Data S → Data S × Reply
  | key :: group :: consumer :: minIdle :: id :: rest => fun d =>
    match parseU64 minIdle with
    | none => (d, .error "ERR Invalid min-idle-time argument for XCLAIM")
    | some minIdle =>
      let noGroup : Reply := .ok (.error ((noGroupError group key).toString ++ " in XCLAIM"))
      let parsed := claimArgs (id :: rest) {}
      Store.modifyGroup e.now key group noGroup wrongType (fun s cg =>
        let r := parsed.1.foldl
          (ConsumerGroup.claimOne e consumer (.fromMillis minIdle.toNat) parsed.2 s) (cg, [])
        (r.1, .ok (.array (r.2.map (claimedValue e.walk))))) d
  | _ => fun d => (d, wrongArity "xclaim")

end BurnerRedis.Script
