import LogSocket.MsgpackEntries
import LogSocket.Senders

/-! What the keys of a Msgpack map are worth. The loader takes the entries by their positions, which
are those of the fields in some versions of `record.__dict__` and not in others. -/

namespace LogSocket.Msgpack

open Lib MsgpackSocketHandler

/-- The fields of a record that an event is made of. -/
inductive Field
  | name
  | levelno
  | msg
  | created
  | threadName
  | pathname
  | funcName
  | lineno
  deriving DecidableEq

namespace Field

/-- The key that the Python side stores and looks up the field under. -/
def key : Field → Object
  | name => MsgpackSocketHandler.key "name"
  | levelno => MsgpackSocketHandler.key "levelno"
  | msg => MsgpackSocketHandler.key "msg"
  | created => MsgpackSocketHandler.key "created"
  | threadName => MsgpackSocketHandler.key "threadName"
  | pathname => MsgpackSocketHandler.key "pathname"
  | funcName => MsgpackSocketHandler.key "funcName"
  | lineno => MsgpackSocketHandler.key "lineno"

/-- `enum msgIndex` -/
def index : Field → Nat
  | name => msgIndexName
  | levelno => msgIndexLevelno
  | msg => msgIndexMsg
  | created => msgIndexCreated
  | threadName => msgIndexThreadName
  | pathname => msgIndexPathname
  | funcName => msgIndexFuncName
  | lineno => msgIndexLineno

end Field

/-- Equality of keys: only texts are equal here. -/
def sameText : Object → Object → Bool
  | .str bytes, .str bytes' => bytes == bytes'
  | _, _ => false

/-- The value under the key of a field, which has to be there once. -/
def under (entries : List (Object × Object)) (field : Field) : Except Fail Object :=
  match entries.filter fun entry => sameText field.key entry.1 with
  | [entry] => pure entry.2
  | _ => throw (.invalid .data)

/-- What is made of the values that a lookup finds for the fields. -/
def dataOf (host : Host) (lookup : Field → Except Fail Object) : Except Fail LoggingEventData := do
  let loggerName ← asString (← lookup .name)
  let level ← asInt (← lookup .levelno)
  let message ← asString (← lookup .msg)
  let created ← asFloat (← lookup .created)
  let threadName ← asString (← lookup .threadName)
  let pathName ← asString (← lookup .pathname)
  let funcName ← asString (← lookup .funcName)
  let lineno ← asInt (← lookup .lineno)
  pure {
    loggerName, message, threadName, pathName, funcName
    level := level * 1000
    timestamp := host.microseconds created
    lineNumber := decimal lineno.toInt }

def eventOf (host : Host) (lookup : Field → Except Fail Object) : Except Fail LoggingEvent := do
  let data ← dataOf host lookup
  pure data.createLoggingEvent

/-- What an event has of a field. -/
inductive Kept
  | text (value : LogString)
  | level (value : Level)
  | time (value : Int64)
  | line (value : Int32)
  deriving DecidableEq

/-- What the event has of a field with this value. -/
def Field.kept (host : Host) (value : Object) : Field → Except Fail Kept
  | name | msg | threadName => (asString value).map .text
  | pathname | funcName => (asString value).map fun text => .text (cString text)
  | levelno => (asInt value).map fun levelno => .level (Level.toLevel (levelno * 1000))
  | created => (asFloat value).map fun created => .time (host.microseconds created)
  | lineno => (asInt value).map fun lineno => .line (atoi (decimal lineno.toInt))

/-- The value is of the type of the field. -/
def Field.OfType (field : Field) (value : Object) : Prop :=
  match field with
  | name | msg | threadName | pathname | funcName => (asString value).isOk
  | levelno | lineno => (asInt value).isOk
  | created => (asFloat value).isOk

/-- Each of the fields is there once, with a value of its type. -/
def Keyed (entries : List (Object × Object)) : Prop :=
  ∀ field, ∃ value, under entries field = .ok value ∧ field.OfType value

/-- At the position of each field there is an entry that is worth what the entry under its key is. -/
def InPlace (host : Host) (entries : List (Object × Object)) : Prop :=
  ∀ field, ∃ entry, entries[field.index]? = some entry ∧
    ∃ value, under entries field = .ok value ∧ field.kept host entry.2 = field.kept host value

/-- What an event has of the fields. -/
def keptBy (event : LoggingEvent) : Field → Kept
  | .name => .text event.logger
  | .levelno => .level event.level
  | .msg => .text event.message
  | .created => .time event.timeStamp
  | .threadName => .text event.threadName
  | .pathname => .text event.locationInfo.fileName
  | .funcName => .text event.locationInfo.methodName
  | .lineno => .line event.locationInfo.lineNumber

section

variable {host : Host} {lookup lookup' : Field → Except Fail Object} {event : LoggingEvent}
  {entries entries' : List (Object × Object)}

/-- A value that is worth something is of its type. -/
theorem Field.ofType_iff {field : Field} {value : Object} :
    field.OfType value ↔ ∃ kept, field.kept host value = .ok kept := by
  cases field <;> simp only [OfType, kept, map_eq_ok] <;>
    simp [Except.isOk, Except.toBool] <;> split <;> simp_all

/-- An event is one of the values that it has of the fields. -/
theorem eventOf_eq_ok : eventOf host lookup = .ok event ↔
    ∀ field, ∃ value, lookup field = .ok value ∧ field.kept host value = .ok (keptBy event field) := by
  constructor
  · intro h
    obtain ⟨data, hData, hEvent⟩ := bind_eq_ok.mp h
    obtain rfl := Except.ok.inj hEvent
    obtain ⟨name, hName, h⟩ := bind_eq_ok.mp hData
    obtain ⟨loggerName, hLogger, h⟩ := bind_eq_ok.mp h
    obtain ⟨levelno, hLevelno, h⟩ := bind_eq_ok.mp h
    obtain ⟨level, hLevel, h⟩ := bind_eq_ok.mp h
    obtain ⟨msg, hMsg, h⟩ := bind_eq_ok.mp h
    obtain ⟨message, hMessage, h⟩ := bind_eq_ok.mp h
    obtain ⟨created, hCreated, h⟩ := bind_eq_ok.mp h
    obtain ⟨time, hTime, h⟩ := bind_eq_ok.mp h
    obtain ⟨thread, hThread, h⟩ := bind_eq_ok.mp h
    obtain ⟨threadName, hThreadName, h⟩ := bind_eq_ok.mp h
    obtain ⟨path, hPath, h⟩ := bind_eq_ok.mp h
    obtain ⟨pathName, hPathName, h⟩ := bind_eq_ok.mp h
    obtain ⟨func, hFunc, h⟩ := bind_eq_ok.mp h
    obtain ⟨funcName, hFuncName, h⟩ := bind_eq_ok.mp h
    obtain ⟨line, hLine, h⟩ := bind_eq_ok.mp h
    obtain ⟨lineno, hLineno, h⟩ := bind_eq_ok.mp h
    obtain rfl := Except.ok.inj h
    intro field
    cases field with
    | name => exact ⟨name, hName, map_eq_ok.mpr ⟨loggerName, hLogger, rfl⟩⟩
    | levelno => exact ⟨levelno, hLevelno, map_eq_ok.mpr ⟨level, hLevel, rfl⟩⟩
    | msg => exact ⟨msg, hMsg, map_eq_ok.mpr ⟨message, hMessage, rfl⟩⟩
    | created => exact ⟨created, hCreated, map_eq_ok.mpr ⟨time, hTime, rfl⟩⟩
    | threadName => exact ⟨thread, hThread, map_eq_ok.mpr ⟨threadName, hThreadName, rfl⟩⟩
    | pathname => exact ⟨path, hPath, map_eq_ok.mpr ⟨pathName, hPathName, rfl⟩⟩
    | funcName => exact ⟨func, hFunc, map_eq_ok.mpr ⟨funcName, hFuncName, rfl⟩⟩
    | lineno => exact ⟨line, hLine, map_eq_ok.mpr ⟨lineno, hLineno, rfl⟩⟩
  · intro h
    obtain ⟨logger, level, message, time, ⟨line, file, method⟩, thread⟩ := event
    obtain ⟨name, hName, hKept⟩ := h .name
    obtain ⟨_, hLogger, ⟨⟩⟩ := map_eq_ok.mp hKept
    obtain ⟨levelno, hLevelno, hKept⟩ := h .levelno
    obtain ⟨_, hLevel, ⟨⟩⟩ := map_eq_ok.mp hKept
    obtain ⟨msg, hMsg, hKept⟩ := h .msg
    obtain ⟨_, hMessage, ⟨⟩⟩ := map_eq_ok.mp hKept
    obtain ⟨created, hCreated, hKept⟩ := h .created
    obtain ⟨_, hTime, ⟨⟩⟩ := map_eq_ok.mp hKept
    obtain ⟨threadName, hThreadName, hKept⟩ := h .threadName
    obtain ⟨_, hThread, ⟨⟩⟩ := map_eq_ok.mp hKept
    obtain ⟨pathname, hPathname, hKept⟩ := h .pathname
    obtain ⟨_, hPath, ⟨⟩⟩ := map_eq_ok.mp hKept
    obtain ⟨funcName, hFuncName, hKept⟩ := h .funcName
    obtain ⟨_, hFunc, ⟨⟩⟩ := map_eq_ok.mp hKept
    obtain ⟨lineno, hLineno, hKept⟩ := h .lineno
    obtain ⟨_, hLine, ⟨⟩⟩ := map_eq_ok.mp hKept
    rw [eventOf, dataOf, hName, ok_bind, hLogger, ok_bind, hLevelno, ok_bind, hLevel, ok_bind,
      hMsg, ok_bind, hMessage, ok_bind, hCreated, ok_bind, hTime, ok_bind, hThreadName, ok_bind,
      hThread, ok_bind, hPathname, ok_bind, hPath, ok_bind, hFuncName, ok_bind, hFunc, ok_bind,
      hLineno, ok_bind, hLine, ok_bind]
    rfl

/-- A value that is found and is of the type that is asked for. -/
theorem lookup_ok {α : Type} {field : Field} {convert : Object → Except Fail α}
    (h : ∃ value, lookup field = .ok value ∧ (convert value).isOk) :
    ∃ a, ∀ next : α → Except Fail LoggingEventData,
      (lookup field >>= fun value => convert value >>= next) = next a := by
  obtain ⟨value, hValue, hType⟩ := h
  cases hConvert : convert value with
  | ok a => exact ⟨a, fun next => by rw [hValue, ok_bind, hConvert, ok_bind]⟩
  | error e =>
    rw [hConvert] at hType
    cases hType

/-- Values of the types of the fields make an event. -/
theorem eventOf_ok (host : Host)
    (h : ∀ field, ∃ value, lookup field = .ok value ∧ field.OfType value) :
    ∃ event, eventOf host lookup = .ok event := by
  obtain ⟨_, hName⟩ := lookup_ok (h .name)
  obtain ⟨_, hLevel⟩ := lookup_ok (h .levelno)
  obtain ⟨_, hMessage⟩ := lookup_ok (h .msg)
  obtain ⟨_, hCreated⟩ := lookup_ok (h .created)
  obtain ⟨_, hThread⟩ := lookup_ok (h .threadName)
  obtain ⟨_, hPath⟩ := lookup_ok (h .pathname)
  obtain ⟨_, hFunc⟩ := lookup_ok (h .funcName)
  obtain ⟨_, hLine⟩ := lookup_ok (h .lineno)
  rw [eventOf, dataOf, hName, hLevel, hMessage, hCreated, hThread, hPath, hFunc, hLine]
  exact ⟨_, rfl⟩

/-- The loader looks the fields up by their positions. -/
theorem readData_map {byteBuf : ByteBuf} {readBytes : UInt64}
    (hUnpack : host.unpack byteBuf.bytes = .object (.map entries) readBytes) :
    readData host byteBuf =
      dataOf host (fun field => value entries field.index) >>= fun data => pure (data, readBytes) := by
  rw [readData, hUnpack]
  dsimp only
  rw [assert_isMap, ok_bind, viaMap, dataOf]
  simp only [bind_assoc, pure_bind]
  rfl

theorem createLoggingEvent_map {byteBuf : ByteBuf} {readBytes : UInt64}
    (hUnpack : host.unpack byteBuf.bytes = .object (.map entries) readBytes)
    (hSize : readBytes.toNat ≤ byteBuf.bytes.length) :
    (createLoggingEvent host byteBuf).1 = eventOf host fun field => value entries field.index := by
  have hRead := readData_map hUnpack
  rw [createLoggingEvent, eventOf]
  cases hData : dataOf host fun field => value entries field.index with
  | ok data =>
    rw [hData, ok_bind] at hRead
    rw [load_ok hRead hSize]
    rfl
  | error e =>
    rw [hData, error_bind] at hRead
    rw [load_error hRead]
    rfl

/-- An event that is returned is one of those values, whatever was erased from the buffer. -/
theorem createLoggingEvent_event {byteBuf : ByteBuf} {readBytes : UInt64}
    (hUnpack : host.unpack byteBuf.bytes = .object (.map entries) readBytes)
    (hEvent : (createLoggingEvent host byteBuf).1 = .ok event) :
    eventOf host (fun field => value entries field.index) = .ok event := by
  have hRead := readData_map hUnpack
  rw [eventOf]
  cases hData : dataOf host fun field => value entries field.index with
  | ok data =>
    rw [hData, ok_bind] at hRead
    rw [createLoggingEvent, load, hRead] at hEvent
    dsimp only [pure, Except.pure] at hEvent
    split at hEvent
    · cases hEvent
    · exact hEvent
  | error e =>
    rw [hData, error_bind] at hRead
    rw [createLoggingEvent, load_error hRead] at hEvent
    cases hEvent

/-- The values under the keys do not depend on the order of the entries. -/
theorem under_perm (h : entries.Perm entries') : under entries = under entries' := by
  funext field
  have hFilter := h.filter fun entry => sameText field.key entry.1
  unfold under
  revert hFilter
  generalize entries.filter _ = found
  generalize entries'.filter _ = found'
  intro hFound
  split
  next entry => rw [List.perm_singleton.mp hFound.symm]
  next hNone =>
    split
    next entry => exact absurd (List.perm_singleton.mp hFound) (hNone entry)
    next => rfl

theorem value_eq_ok {i : Nat} {object : Object} :
    value entries i = .ok object ↔ ∃ entry, entries[i]? = some entry ∧ entry.2 = object := by
  unfold value
  cases entries[i]? with
  | none => simp
  | some entry => simp [pure, Except.pure]

/-- A map with the fields, in whatever order, gives the event of their keys exactly if at the position
of each field there is an entry that is worth what the one under its key is. -/
theorem decodes_keys_iff {byteBuf : ByteBuf} {readBytes : UInt64} (hKeyed : Keyed entries)
    (hPerm : entries.Perm entries')
    (hUnpack : host.unpack byteBuf.bytes = .object (.map entries') readBytes)
    (hSize : readBytes.toNat ≤ byteBuf.bytes.length) :
    ∃ event, eventOf host (under entries) = .ok event ∧
      ((createLoggingEvent host byteBuf).1 = .ok event ↔ InPlace host entries') := by
  obtain ⟨event, hEvent⟩ := eventOf_ok host hKeyed
  refine ⟨event, hEvent, ?_⟩
  rw [under_perm hPerm] at hEvent
  have hUnder := eventOf_eq_ok.mp hEvent
  rw [createLoggingEvent_map hUnpack hSize, eventOf_eq_ok]
  refine forall_congr' fun field => ?_
  obtain ⟨value, hValue, hKept⟩ := hUnder field
  constructor
  · rintro ⟨object, hObject, hSame⟩
    obtain ⟨entry, hEntry, rfl⟩ := value_eq_ok.mp hObject
    exact ⟨entry, hEntry, value, hValue, hSame.trans hKept.symm⟩
  · rintro ⟨entry, hEntry, value', hValue', hSame⟩
    obtain rfl := Except.ok.inj (hValue.symm.trans hValue')
    exact ⟨entry.2, value_eq_ok.mpr ⟨entry, hEntry, rfl⟩, hSame.trans hKept⟩

end

/-- What `msgpack.packb` makes of the values in the samples. -/
def pack : Object → List UInt8
  | .positiveInteger u64 => [u64.toUInt8]
  | .float f64 => 0xCB :: beBytes 8 f64.toNat
  | .str bytes => UInt8.ofNat (0xA0 + bytes.length) :: bytes
  | _ => [0xC0]

def packMap (entries : List (Object × Object)) : List UInt8 :=
  0xDE :: beBytes 2 entries.length ++ entries.flatMap fun entry => pack entry.1 ++ pack entry.2

/-- A record whose first two attributes are given. -/
def sampleEntries (first second : Object × Object) : List (Object × Object) := [
  first,
  second,
  (key "args", .nil),
  (key "levelname", .nil),
  (key "levelno", .positiveInteger 20),
  (key "pathname", .str [0x70]),
  (key "filename", .nil),
  (key "module", .nil),
  (key "exc_info", .nil),
  (key "exc_text", .nil),
  (key "stack_info", .nil),
  (key "lineno", .positiveInteger 7),
  (key "funcName", .str [0x66]),
  (key "created", .float 0),
  (key "msecs", .nil),
  (key "relativeCreated", .nil),
  (key "thread", .nil),
  (key "threadName", .str [0x74])]

/-- The order of `LogRecord.__init__`. -/
def usualEntries : List (Object × Object) :=
  sampleEntries (key "name", .str [0x6C]) (key "msg", .str [0x6D])

/-- The same, but for a factory of records that sets the template before the name. -/
def swappedEntries : List (Object × Object) :=
  sampleEntries (key "msg", .str [0x6D]) (key "name", .str [0x6C])

/-- A host that knows one message. -/
def packedHost (entries : List (Object × Object)) : Host := { byteHost with
  unpack := fun bytes =>
    if bytes = packMap entries then .object (.map entries) (UInt64.ofNat bytes.length)
    else .insufficientBytes }

theorem keyed_of_isOk (host : Host) {entries : List (Object × Object)}
    (h : ∀ field, (under entries field >>= fun value => field.kept host value).isOk) :
    Keyed entries := by
  intro field
  have hField := h field
  cases hKept : (under entries field >>= fun value => field.kept host value) with
  | ok kept =>
    obtain ⟨value, hValue, hKept⟩ := bind_eq_ok.mp hKept
    exact ⟨value, hValue, Field.ofType_iff.mpr ⟨kept, hKept⟩⟩
  | error e =>
    rw [hKept] at hField
    cases hField

theorem swappedEntries_keyed : Keyed swappedEntries :=
  keyed_of_isOk byteHost fun field => by cases field <;> decide +kernel

theorem usualEntries_size : (packMap usualEntries).length ≤ maxSize := by
  decide +kernel

/-- The message that such a host knows. -/
def packedBuf (entries : List (Object × Object)) (h : (packMap entries).length ≤ maxSize) : ByteBuf :=
  ⟨packMap entries, h⟩

theorem packedHost_unpack (entries : List (Object × Object)) (h : (packMap entries).length ≤ maxSize) :
    (packedHost entries).unpack (packedBuf entries h).bytes =
      .object (.map entries) (UInt64.ofNat (packedBuf entries h).bytes.length) := if_pos rfl

theorem packedBuf_size (entries : List (Object × Object)) (h : (packMap entries).length ≤ maxSize) :
    (UInt64.ofNat (packedBuf entries h).bytes.length).toNat ≤ (packedBuf entries h).bytes.length :=
  (ByteBuf.size_toNat (packedBuf entries h)).le

/-- The usual order is one of the orders of the swapped entries. -/
theorem decodes_keys_iff_usual :
    ∃ event, eventOf (packedHost usualEntries) (under swappedEntries) = .ok event ∧
      ((createLoggingEvent (packedHost usualEntries)
          (packedBuf usualEntries (by decide +kernel))).1 = .ok event ↔
        InPlace (packedHost usualEntries) usualEntries) :=
  decodes_keys_iff swappedEntries_keyed (List.Perm.swap _ _ _) (packedHost_unpack _ _)
    (packedBuf_size _ _)

/-- The name is taken for the template, and the template for the name. -/
theorem not_decodes_keys : ¬∀ (host : Host) (entries : List (Object × Object)) (byteBuf : ByteBuf)
    (readBytes : UInt64), Keyed entries →
      host.unpack byteBuf.bytes = .object (.map entries) readBytes →
      readBytes.toNat ≤ byteBuf.bytes.length →
      (createLoggingEvent host byteBuf).1 = eventOf host (under entries) := by
  intro hAll
  have hEvent := hAll (packedHost swappedEntries) swappedEntries
    (packedBuf swappedEntries (by decide +kernel)) _ swappedEntries_keyed (packedHost_unpack _ _)
    (packedBuf_size _ _)
  have hTaken : (createLoggingEvent (packedHost swappedEntries)
      (packedBuf swappedEntries (by decide +kernel))).1.map (·.logger) = .ok [0x6D] := by
    decide +kernel
  have hKey : (eventOf (packedHost swappedEntries) (under swappedEntries)).map (·.logger) =
      .ok [0x6C] := by decide +kernel
  rw [hEvent, hKey] at hTaken
  cases hTaken

end LogSocket.Msgpack
