import LogSocket.DefaultRecords
import LogSocket.Segmentation

/-! What the server makes of a record, by each of the three Python handlers. A handler sends the
template of a message, not the message that it makes together with its arguments. -/

namespace LogSocket

open Lib ByteBuf

/-- The entries of `record.__dict__` that the server does not look at, but for the `double` that
`created` is. `more` stands behind `threadName`. -/
structure Attributes where
  args : Object
  levelname : Object
  filename : Object
  module : Object
  excInfo : Object
  excText : Object
  stackInfo : Object
  created : UInt64
  msecs : Object
  relativeCreated : Object
  thread : Object
  more : List (Object × Object)

/-- A `LogRecord` with the arguments of its message. -/
structure ArgRecord (α : Type) extends LogRecord where
  args : List α
  attributes : Attributes

/-- `LogRecord.getMessage()`, where `merge` stands for the operator `%`. -/
def ArgRecord.getMessage {α : Type} (merge : LogString → List α → LogString)
    (record : ArgRecord α) : LogString :=
  if record.args.isEmpty then record.msg else merge record.msg record.args

namespace MsgpackSocketHandler

/-- An `int`, for which there are at most 64 bits. -/
def packInt (value : Int) : Option Object :=
  if 0 ≤ value ∧ value < 2 ^ 64 then some (.positiveInteger (UInt64.ofNat value.toNat))
  else if -2 ^ 63 ≤ value ∧ value < 0 then some (.negativeInteger (Int64.ofInt value))
  else none

def key (name : String) : Object := .str name.toUTF8.toList

/-- `record.__dict__`, in the order in which `LogRecord.__init__` sets the attributes. -/
def dict (record : LogRecord) (attributes : Attributes) : Option (List (Object × Object)) := do
  let levelno ← packInt record.levelno
  let lineno ← packInt record.lineno
  pure ([
    (key "name", .str record.name),
    (key "msg", .str record.msg),
    (key "args", attributes.args),
    (key "levelname", attributes.levelname),
    (key "levelno", levelno),
    (key "pathname", .str record.pathname),
    (key "filename", attributes.filename),
    (key "module", attributes.module),
    (key "exc_info", attributes.excInfo),
    (key "exc_text", attributes.excText),
    (key "stack_info", attributes.stackInfo),
    (key "lineno", lineno),
    (key "funcName", .str record.funcName),
    (key "created", .float attributes.created),
    (key "msecs", attributes.msecs),
    (key "relativeCreated", attributes.relativeCreated),
    (key "thread", attributes.thread),
    (key "threadName", .str record.threadName)] ++ attributes.more)

end MsgpackSocketHandler

inductive SocketHandler
  | default
  | byte
  | msgpack
  deriving DecidableEq

namespace SocketHandler

def protocol : SocketHandler → Protocol
  | .default => .default
  | .byte => .bytes
  | .msgpack => .msgpack

variable {α : Type}

/-- `makePickle`, where `packb` stands for `msgpack.packb` of a `dict`. -/
def makePickle (packb : List (Object × Object) → List UInt8) (record : ArgRecord α) :
    SocketHandler → Option (List UInt8)
  | .default => DefaultSocketHandler.makePickle record.toLogRecord
  | .byte => ByteSocketHandler.makePickle record.toLogRecord
  | .msgpack => (MsgpackSocketHandler.dict record.toLogRecord record.attributes).map packb

/-- `msgpack::unpack` gives the map back that `msgpack.packb` packed. -/
structure Unpacks (host : Host) (packb : List (Object × Object) → List UInt8)
    (record : ArgRecord α) : Prop where
  nonempty {entries} : MsgpackSocketHandler.dict record.toLogRecord record.attributes = some entries →
    packb entries ≠ []
  unpack {entries} : MsgpackSocketHandler.dict record.toLogRecord record.attributes = some entries →
    host.unpack (packb entries) =
      .object (.map entries) (UInt64.ofNat (packb entries).length)

/-- The event that the server builds from what the handler sends for a record. -/
def Delivers (host : Host) (packb : List (Object × Object) → List UInt8) (handler : SocketHandler)
    (record : ArgRecord α) (event : LoggingEvent) : Prop :=
  ∃ byteBuf : ByteBuf, handler.makePickle packb record = some byteBuf.bytes ∧
    (handler.protocol.createLoggingEvent host byteBuf).1 = .ok event

/-- What every handler sends of a record arrives. -/
structure Arrives (record : LogRecord) (event : LoggingEvent) : Prop where
  logger : event.logger = record.name
  level : event.level = Level.toLevel (Int32.ofInt (record.levelno * 1000))
  message : event.message = record.msg

end SocketHandler

namespace MsgpackSocketHandler

open Msgpack

theorem asInt_packInt {value : Int} {object : Object} {i : Int32}
    (hPack : packInt value = some object) (hInt : asInt object = .ok i) :
    i = Int32.ofInt value := by
  unfold packInt at hPack
  split at hPack
  next hRange =>
    obtain rfl := Option.some.inj hPack
    rw [asInt] at hInt
    split at hInt
    · cases hInt
    · obtain rfl := Except.ok.inj hInt
      rw [UInt64.toUInt32_ofNat', UInt32.toInt32_ofNat', ← Int32.ofInt_eq_ofNat,
        Int.toNat_of_nonneg hRange.1]
  next =>
    split at hPack
    · obtain rfl := Option.some.inj hPack
      rw [asInt] at hInt
      split at hInt
      · cases hInt
      · obtain rfl := Except.ok.inj hInt
        exact Int64.toInt32_ofInt
    · cases hPack

/-- The entries that are read are those of the fields. -/
theorem readData_dict {host : Host} {byteBuf : ByteBuf} {record : LogRecord}
    {attributes : Attributes} {entries : List (Object × Object)} {readBytes pos : UInt64}
    {data : LoggingEventData} (hDict : dict record attributes = some entries)
    (hUnpack : host.unpack byteBuf.bytes = .object (.map entries) readBytes)
    (hRead : readData host byteBuf = .ok (data, pos)) :
    pos = readBytes ∧ data.loggerName = record.name ∧
      data.level = Int32.ofInt (record.levelno * 1000) ∧ data.message = record.msg := by
  simp only [dict, Option.bind_eq_bind, Option.bind_eq_some_iff] at hDict
  obtain ⟨levelno, hLevelno, lineno, -, hEntries⟩ := hDict
  obtain rfl := Option.some.inj hEntries
  rw [readData, hUnpack] at hRead
  dsimp only at hRead
  rw [assert_isMap, ok_bind, viaMap] at hRead
  change (asInt levelno >>= _) = _ at hRead
  obtain ⟨level, hLevel, hRead⟩ := bind_eq_ok.mp hRead
  change (asInt lineno >>= _) = _ at hRead
  obtain ⟨line, -, hRead⟩ := bind_eq_ok.mp hRead
  obtain ⟨rfl, rfl⟩ := Prod.mk.inj (Except.ok.inj hRead)
  refine ⟨rfl, rfl, ?_, rfl⟩
  rw [Int32.ofInt_mul, ← asInt_packInt hLevelno hLevel]
  rfl

end MsgpackSocketHandler

namespace SocketHandler

variable {α : Type} {host : Host} {packb : List (Object × Object) → List UInt8}
  {handler : SocketHandler} {record : ArgRecord α} {event : LoggingEvent} {byteBuf : ByteBuf}

/-- A buffer with what is sent for a record is used up, and the event has what every handler sends. -/
theorem createLoggingEvent_pickle (hMemory : 2 ^ 32 ≤ host.env.allocLimit)
    (hUnpacks : handler = .msgpack → Unpacks host packb record)
    (hPickle : handler.makePickle packb record = some byteBuf.bytes) {rest : ByteBuf}
    (hCall : handler.protocol.createLoggingEvent host byteBuf = (.ok event, rest)) :
    byteBuf.bytes ≠ [] ∧ rest.bytes = [] ∧ Arrives record.toLogRecord event := by
  cases handler with
  | default =>
    obtain ⟨-, hBytes⟩ := DefaultSocketHandler.makePickle_some hPickle
    obtain ⟨event', rest', hEvent, hCall', hRest⟩ :=
      DefaultSocketHandler.createLoggingEvent_pickle (Nat.le_trans (by decide) hMemory) hPickle
        (List.append_nil _).symm
    rw [protocol, Protocol.createLoggingEvent, hCall'] at hCall
    cases hCall
    refine ⟨by rw [hBytes]; exact nofun, hRest, ?_⟩
    obtain ⟨hLogger, hLevel, hMessage, -⟩ := createLoggingEvent_given hEvent
    exact ⟨hLogger, hLevel, hMessage⟩
  | byte =>
    obtain ⟨-, hBytes⟩ := ByteSocketHandler.makePickle_some hPickle
    have hAhead : byteBuf.Ahead 0 (byteBuf.bytes ++ []) := by
      rw [List.append_nil]
      exact Ahead.start byteBuf
    obtain ⟨pos, hRead, hLeft⟩ := ByteSocketHandler.readData_pickle hMemory hPickle hAhead
    have hLoad : Bytes.createLoggingEvent host.env byteBuf = _ := load_ok hRead hLeft.1
    rw [protocol, Protocol.createLoggingEvent, hLoad] at hCall
    cases hCall
    refine ⟨?_, hLeft.2, ⟨rfl, rfl, rfl⟩⟩
    rw [hBytes]
    exact nofun
  | msgpack =>
    obtain ⟨entries, hDict, hBytes⟩ := Option.map_eq_some_iff.mp hPickle
    have hUnpack := (hUnpacks rfl).unpack hDict
    rw [hBytes] at hUnpack
    refine ⟨hBytes ▸ (hUnpacks rfl).nonempty hDict, ?_⟩
    rw [protocol, Protocol.createLoggingEvent, Msgpack.createLoggingEvent] at hCall
    cases hRead : Msgpack.readData host byteBuf with
    | error e =>
      rw [load_error hRead] at hCall
      cases hCall
    | ok r =>
      rcases r with ⟨data, pos⟩
      obtain ⟨rfl, hLogger, hLevel, hMessage⟩ :=
        MsgpackSocketHandler.readData_dict hDict hUnpack hRead
      have hSize : (UInt64.ofNat byteBuf.bytes.length).toNat = byteBuf.bytes.length :=
        byteBuf.size_toNat
      rw [load_ok hRead hSize.le] at hCall
      cases hCall
      refine ⟨?_, ⟨hLogger, by rw [← hLevel]; rfl, hMessage⟩⟩
      rw [ByteBuf.drop_bytes, hSize, List.drop_length]

theorem Delivers.arrives (hMemory : 2 ^ 32 ≤ host.env.allocLimit)
    (hUnpacks : handler = .msgpack → Unpacks host packb record)
    (h : Delivers host packb handler record event) : Arrives record.toLogRecord event := by
  obtain ⟨byteBuf, hPickle, hEvent⟩ := h
  exact (createLoggingEvent_pickle hMemory hUnpacks hPickle (Prod.ext hEvent rfl)).2.2

/-- The message of the event is the template, so it is the message of the record exactly if there are
no arguments or merging them changes nothing. -/
theorem message_eq_getMessage_iff (merge : LogString → List α → LogString)
    (hMemory : 2 ^ 32 ≤ host.env.allocLimit) (hUnpacks : handler = .msgpack → Unpacks host packb record)
    (h : Delivers host packb handler record event) :
    event.message = record.getMessage merge ↔
      record.args = [] ∨ merge record.msg record.args = record.msg := by
  rw [(h.arrives hMemory hUnpacks).message, ArgRecord.getMessage]
  split
  next hArgs => simp [List.isEmpty_iff.mp hArgs]
  next hArgs =>
    rw [List.isEmpty_iff] at hArgs
    rw [or_iff_right hArgs, eq_comm]

/-- A record for which there is room is delivered by the Bytes protocol. -/
theorem delivers_byte (packb : List (Object × Object) → List UInt8)
    (hMemory : 2 ^ 32 ≤ host.env.allocLimit) (hPacks : record.PacksBytes)
    (hSize : (ByteSocketHandler.pickleBytes record.toLogRecord).length ≤ maxSize) :
    ∃ event, Delivers host packb .byte record event := by
  let byteBuf : ByteBuf := ⟨ByteSocketHandler.pickleBytes record.toLogRecord, hSize⟩
  have hAhead : byteBuf.Ahead 0 (byteBuf.bytes ++ []) := by
    rw [List.append_nil]
    exact Ahead.start byteBuf
  obtain ⟨pos, hRead, hLeft⟩ := ByteSocketHandler.readData_ahead hMemory hPacks hAhead
  exact ⟨_, byteBuf, ByteSocketHandler.makePickle_eq hPacks, congrArg Prod.fst (load_ok hRead hLeft.1)⟩

/-- The operator `%` of a template whose conversions are all `%s`. -/
def mergeTexts : LogString → List LogString → LogString
  | 0x25 :: 0x73 :: msg, arg :: args => arg ++ mergeTexts msg args
  | c :: msg, args => c :: mergeTexts msg args
  | [], _ => []

/-- A record of a call with the template `%s` and the argument `b`. -/
def sampleArgRecord : ArgRecord LogString where
  toLogRecord := { ByteSocketHandler.sampleRecord with msg := [0x25, 0x73] }
  args := [[0x62]]
  attributes := ⟨.array [.str [0x62]], .nil, .nil, .nil, .nil, .nil, .nil, 0, .nil, .nil, .nil, []⟩

theorem sampleArgRecord_delivers :
    ∃ event, Delivers byteHost (fun _ => []) .byte sampleArgRecord event :=
  delivers_byte _ (by decide)
    ⟨by decide, by decide, by decide, by decide, by decide, by decide, by decide, by decide⟩
    (by decide)

theorem message_eq_getMessage_iff_sample :
    ∃ event, Delivers byteHost (fun _ => []) .byte sampleArgRecord event ∧
      (event.message = sampleArgRecord.getMessage mergeTexts ↔ sampleArgRecord.args = [] ∨
        mergeTexts sampleArgRecord.msg sampleArgRecord.args = sampleArgRecord.msg) := by
  obtain ⟨event, h⟩ := sampleArgRecord_delivers
  exact ⟨event, h, message_eq_getMessage_iff _ (by decide) (fun hMsgpack => by cases hMsgpack) h⟩

/-- The argument of a message is lost. -/
theorem not_message_eq_getMessage : ¬∀ (host : Host) (packb : List (Object × Object) → List UInt8)
    (handler : SocketHandler) (record : ArgRecord LogString) (event : LoggingEvent)
    (merge : LogString → List LogString → LogString), 2 ^ 32 ≤ host.env.allocLimit →
      (handler = .msgpack → Unpacks host packb record) →
      Delivers host packb handler record event → event.message = record.getMessage merge := by
  intro hAll
  obtain ⟨event, h⟩ := sampleArgRecord_delivers
  have hMessage := hAll _ _ _ _ event mergeTexts (by decide) (fun hMsgpack => by cases hMsgpack) h
  rw [(h.arrives (by decide) fun hMsgpack => by cases hMsgpack).message] at hMessage
  revert hMessage
  decide

end SocketHandler

end LogSocket
