import LogSocket.Ahead
import LogSocket.SocketHandler
import LogSocket.BytesLoader

/-! What `ByteSocketHandler` sends for a list of records is read back, record by record, by the
loader of the Bytes protocol. -/

namespace LogSocket

open Lib ByteBuf

namespace Bytes

variable {env : Env} {byteBuf : ByteBuf} {pos : UInt64} {rest : List UInt8}

theorem readInt_ahead {value : Int32} (h : byteBuf.Ahead pos (intChars value ++ rest)) :
    readInt byteBuf pos = .ok (value, 4) ∧ byteBuf.Ahead (pos + 4) rest :=
  Default.readInt_ahead h

theorem readLong_ahead {value : Int64} (h : byteBuf.Ahead pos (longChars value ++ rest)) :
    readLong byteBuf pos = .ok (value, 8) ∧ byteBuf.Ahead (pos + 8) rest :=
  Default.readLong_ahead h

/-- A string with a length of four bytes in front. -/
def stringBytes (data : List UInt8) : List UInt8 := beBytes 4 data.length ++ data

section

variable (hAlloc : 2 ^ 32 ≤ env.allocLimit) {data : List UInt8} (hData : data.length < 2 ^ 32)
include hAlloc hData

theorem readString_ahead (h : byteBuf.Ahead pos (stringBytes data ++ rest)) :
    Reads byteBuf pos (readString env byteBuf pos) data rest := by
  have hLength : (Int32.ofNat data.length).toUInt32.toUInt64.toNat = data.length := by
    rw [Int32.toUInt32_ofNat', UInt32.toNat_toUInt64, UInt32.toNat_ofNat', Nat.mod_eq_of_lt hData]
  rw [stringBytes, ← intChars_ofNat, List.append_assoc] at h
  obtain ⟨hInt, h⟩ := readInt_ahead h
  have hRoom := env.alloc_of_le hAlloc (by decide) (hLength.trans_le hData.le)
  refine ⟨4 + (Int32.ofNat data.length).toUInt32.toUInt64, ?_, ?_⟩
  · rw [readString, hInt, ok_bind]
    dsimp only
    rw [hRoom, ok_bind, h.fetch hLength]
    rfl
  · rw [← UInt64.add_assoc]
    exact h.skip hLength

/-- A text is read up to its first NUL. -/
theorem readUTFString_cString (h : byteBuf.Ahead pos (stringBytes data ++ rest)) :
    Reads byteBuf pos (readUTFString env byteBuf pos) (cString data) rest := by
  obtain ⟨size, hRead, h⟩ := readString_ahead hAlloc hData h
  refine ⟨size, ?_, h⟩
  have hRoom : env.alloc (UInt64.ofNat (data.length + 1)) = .ok () := by
    refine env.alloc_of_le hAlloc (by decide) ?_
    rw [UInt64.toNat_ofNat']
    omega
  rw [readUTFString, hRead, ok_bind]
  dsimp only
  rw [hRoom]
  rfl

end

/-- The data of an event has what a record has. -/
structure Carries (data : LoggingEventData) (record : LogRecord) : Prop where
  loggerName : data.loggerName = record.name
  level : data.level.toInt = record.levelno * 1000
  message : data.message = record.msg
  timestamp : data.timestamp.toInt = record.createdMicros
  threadName : data.threadName = record.threadName
  pathName : data.pathName = record.pathname
  funcName : data.funcName = record.funcName
  lineNumber : data.lineNumber = decimal record.lineno

/-- The event that is built for a record. -/
structure Shows (event : LoggingEvent) (record : LogRecord) : Prop where
  logger : event.logger = record.name
  level : event.level = Level.toLevel (Int32.ofInt (record.levelno * 1000))
  message : event.message = record.msg
  timeStamp : event.timeStamp.toInt = record.createdMicros
  threadName : event.threadName = record.threadName
  fileName : event.locationInfo.fileName = record.pathname
  methodName : event.locationInfo.methodName = record.funcName
  lineNumber : event.locationInfo.lineNumber = atoi (decimal record.lineno)

/-- `createLoggingEvent`, called once for each record, reads it from the front of the buffer and
leaves the bytes behind it; the last call leaves `rest`. -/
inductive Records (env : Env) (rest : List UInt8) : ByteBuf → List LogRecord → Prop
  | done {byteBuf : ByteBuf} : byteBuf.bytes = rest → Records env rest byteBuf []
  | record {byteBuf next : ByteBuf} {record : LogRecord} {records : List LogRecord}
      {pickle : List UInt8} {data : LoggingEventData} {pos : UInt64} :
      ByteSocketHandler.makePickle record = some pickle → byteBuf.bytes = pickle ++ next.bytes →
      readData env byteBuf = .ok (data, pos) → Carries data record →
      createLoggingEvent env byteBuf = (.ok data.createLoggingEvent, next) →
      Shows data.createLoggingEvent record →
      Records env rest next records → Records env rest byteBuf (record :: records)

end Bytes

namespace LogRecord

/-- What the fields of the Bytes protocol have room for. -/
structure PacksBytes (record : LogRecord) : Prop where
  name : record.name.length < 2 ^ 32
  level : -2 ^ 31 ≤ record.levelno * 1000 ∧ record.levelno * 1000 < 2 ^ 31
  msg : record.msg.length < 2 ^ 32
  created : 0 ≤ record.createdMicros ∧ record.createdMicros < 2 ^ 64
  threadName : record.threadName.length < 2 ^ 32
  pathname : record.pathname.length < 2 ^ 32 ∧ 0 ∉ record.pathname
  funcName : record.funcName.length < 2 ^ 32 ∧ 0 ∉ record.funcName
  lineno : (decimal record.lineno).length < 2 ^ 32

/-- The texts have lengths of four bytes. -/
structure Short (record : LogRecord) : Prop where
  name : record.name.length < 2 ^ 32
  msg : record.msg.length < 2 ^ 32
  threadName : record.threadName.length < 2 ^ 32
  pathname : record.pathname.length < 2 ^ 32
  funcName : record.funcName.length < 2 ^ 32
  lineno : (decimal record.lineno).length < 2 ^ 32

/-- What the reader, for which the time is signed, has room for. -/
structure FitsBytes (record : LogRecord) : Prop extends PacksBytes record where
  signed : record.createdMicros < 2 ^ 63

/-- The data that is sent for a record. -/
def data (record : LogRecord) : LoggingEventData where
  loggerName := record.name
  level := Int32.ofInt (record.levelno * 1000)
  message := record.msg
  timestamp := Int64.ofInt record.createdMicros
  threadName := record.threadName
  pathName := record.pathname
  funcName := record.funcName
  lineNumber := decimal record.lineno

variable {record : LogRecord}

theorem FitsBytes.carries (h : record.FitsBytes) : Bytes.Carries record.data record where
  loggerName := rfl
  level := by
    have hRange := h.level
    rw [data, Int32.toInt_ofInt, Int32.size, Int.bmod_def]
    omega
  message := rfl
  timestamp := by
    have hRange := h.created
    have hSigned := h.signed
    rw [data, Int64.toInt_ofInt, Int64.size, Int.bmod_def]
    omega
  threadName := rfl
  pathName := rfl
  funcName := rfl
  lineNumber := rfl

theorem FitsBytes.shows (h : record.FitsBytes) :
    Bytes.Shows record.data.createLoggingEvent record where
  logger := rfl
  level := rfl
  message := rfl
  timeStamp := h.carries.timestamp
  threadName := rfl
  fileName := cString_eq h.pathname.2
  methodName := cString_eq h.funcName.2
  lineNumber := rfl

end LogRecord

namespace ByteSocketHandler

open Bytes

variable {env : Env} {byteBuf : ByteBuf} {record : LogRecord}

/-- The bytes that are sent for a record. -/
def pickleBytes (record : LogRecord) : List UInt8 :=
  Bytes.stringBytes record.name ++ (intChars (Int32.ofInt (record.levelno * 1000)) ++
    (Bytes.stringBytes record.msg ++ (longChars (Int64.ofInt record.createdMicros) ++
      (Bytes.stringBytes record.threadName ++ (Bytes.stringBytes record.pathname ++
        (Bytes.stringBytes record.funcName ++ Bytes.stringBytes (decimal record.lineno)))))))

theorem packText_eq {value : LogString} (h : value.length < 2 ^ 32) :
    packText value = some (Bytes.stringBytes value) := by
  rw [packText, packUnsigned_length h]
  rfl

theorem makePickle_eq (h : record.PacksBytes) : makePickle record = some (pickleBytes record) := by
  rw [makePickle, packText_eq h.name, packSigned_int h.level.1 h.level.2, packText_eq h.msg,
    packUnsigned_long h.created.1 h.created.2, packText_eq h.threadName,
    packText_eq h.pathname.1, packText_eq h.funcName.1, packText_eq h.lineno]
  rfl

theorem packText_some {value : LogString} {bytes : List UInt8} (h : packText value = some bytes) :
    value.length < 2 ^ 32 ∧ bytes = Bytes.stringBytes value := by
  simp only [packText, Option.bind_eq_bind, Option.bind_eq_some_iff] at h
  rcases h with ⟨length, hLength, hBytes⟩
  obtain ⟨-, hLt, rfl⟩ := packUnsigned_some hLength
  exact ⟨by omega, (Option.some.inj hBytes).symm⟩

/-- What can be packed of a record has room, and is packed in the order of `pickleBytes`. -/
theorem makePickle_some {pickle : List UInt8} (h : makePickle record = some pickle) :
    record.Short ∧ pickle = pickleBytes record := by
  simp only [makePickle, Option.bind_eq_bind, Option.bind_eq_some_iff] at h
  obtain ⟨_, hName, _, hLevel, _, hMsg, _, hCreated, _, hThread, _, hPath, _, hFunc, _, hLine, hAll⟩ := h
  obtain ⟨hNameLt, rfl⟩ := packText_some hName
  obtain ⟨hMsgLt, rfl⟩ := packText_some hMsg
  obtain ⟨hThreadLt, rfl⟩ := packText_some hThread
  obtain ⟨hPathLt, rfl⟩ := packText_some hPath
  obtain ⟨hFuncLt, rfl⟩ := packText_some hFunc
  obtain ⟨hLineLt, rfl⟩ := packText_some hLine
  obtain ⟨hLow, hHigh, -⟩ := packSigned_some hLevel
  obtain ⟨hCreatedLow, hCreatedHigh, -⟩ := packUnsigned_some hCreated
  rw [packSigned_int (by omega) (by omega)] at hLevel
  rw [packUnsigned_long hCreatedLow (by omega)] at hCreated
  obtain rfl := Option.some.inj hLevel
  obtain rfl := Option.some.inj hCreated
  exact ⟨⟨hNameLt, hMsgLt, hThreadLt, hPathLt, hFuncLt, hLineLt⟩, (Option.some.inj hAll).symm⟩

variable (hAlloc : 2 ^ 32 ≤ env.allocLimit)
include hAlloc

/-- What is sent for a record is read, whatever the texts are. -/
theorem readData_pickle {pickle rest : List UInt8} (hPickle : makePickle record = some pickle)
    (h : byteBuf.Ahead 0 (pickle ++ rest)) :
    ∃ pos, readData env byteBuf = .ok ({ record.data with
        pathName := cString record.pathname, funcName := cString record.funcName }, pos) ∧
      byteBuf.Ahead pos rest := by
  obtain ⟨hRecord, rfl⟩ := makePickle_some hPickle
  simp only [pickleBytes, List.append_assoc] at h
  obtain ⟨size1, hName, h⟩ := readString_ahead hAlloc hRecord.name h
  obtain ⟨hLevel, h⟩ := Bytes.readInt_ahead h
  obtain ⟨size2, hMsg, h⟩ := readString_ahead hAlloc hRecord.msg h
  obtain ⟨hCreated, h⟩ := Bytes.readLong_ahead h
  obtain ⟨size3, hThread, h⟩ := readString_ahead hAlloc hRecord.threadName h
  obtain ⟨size4, hPath, h⟩ := readUTFString_cString hAlloc hRecord.pathname h
  obtain ⟨size5, hFunc, h⟩ := readUTFString_cString hAlloc hRecord.funcName h
  obtain ⟨size6, hLine, h⟩ := readUTFString_cString hAlloc hRecord.lineno h
  have hDecimal : cString (decimal record.lineno) = decimal record.lineno :=
    cString_eq (notMem_decimal (by decide) (.inl (by decide)))
  refine ⟨_, ?_, h⟩
  rw [readData]
  dsimp only
  rw [readLogString, hName, ok_bind]
  dsimp only
  rw [hLevel, ok_bind]
  dsimp only
  rw [readLogString, hMsg, ok_bind]
  dsimp only
  rw [hCreated, ok_bind]
  dsimp only
  rw [readLogString, hThread, ok_bind]
  dsimp only
  rw [hPath, ok_bind]
  dsimp only
  rw [hFunc, ok_bind]
  dsimp only
  rw [hLine, hDecimal]
  rfl

theorem readData_ahead (hRecord : record.PacksBytes) {rest : List UInt8}
    (h : byteBuf.Ahead 0 (pickleBytes record ++ rest)) :
    ∃ pos, readData env byteBuf = .ok (record.data, pos) ∧ byteBuf.Ahead pos rest := by
  have hRead := readData_pickle hAlloc (makePickle_eq hRecord) h
  rwa [cString_eq hRecord.pathname.2, cString_eq hRecord.funcName.2] at hRead

/-- The records that are sent are read back one by one, whatever follows them. -/
theorem makePickle_records (records : List LogRecord) (hFit : ∀ record ∈ records, record.FitsBytes) :
    ∃ pickles, records.mapM makePickle = some pickles ∧
      ∀ (rest : List UInt8) (byteBuf : ByteBuf), byteBuf.bytes = pickles.flatten ++ rest →
        Records env rest byteBuf records := by
  induction records with
  | nil => exact ⟨[], rfl, fun rest byteBuf hBytes => .done hBytes⟩
  | cons record records ih =>
    have hRecord := hFit record List.mem_cons_self
    obtain ⟨pickles, hPickles, hRecords⟩ := ih fun r hr => hFit r (List.mem_cons_of_mem _ hr)
    have hPickle := makePickle_eq hRecord.toPacksBytes
    refine ⟨pickleBytes record :: pickles, ?_, fun rest byteBuf hBytes => ?_⟩
    · rw [List.mapM_cons, hPickle, hPickles]
      rfl
    · rw [List.flatten_cons, List.append_assoc] at hBytes
      have hAhead : byteBuf.Ahead 0 (pickleBytes record ++ (pickles.flatten ++ rest)) :=
        hBytes ▸ Ahead.start byteBuf
      obtain ⟨pos, hRead, hLeft⟩ := readData_ahead hAlloc hRecord.toPacksBytes hAhead
      have hNext : (byteBuf.drop pos.toNat).bytes = pickles.flatten ++ rest := hLeft.2
      refine .record hPickle (hBytes.trans (by rw [hNext])) hRead hRecord.carries ?_
        hRecord.shows (hRecords rest _ hNext)
      exact load_ok hRead hLeft.1

omit hAlloc

/-- A record of the function `main` in line 7 of the file `a.py`. -/
def sampleRecord : LogRecord where
  name := [0x6C]
  levelno := 20
  msg := [0xEA, 0xB0, 0x80]
  createdMillis := 1600000000000
  createdMicros := 1600000000000250
  threadName := [0x74]
  pathname := [0x61, 0x2E, 0x70, 0x79]
  funcName := [0x6D, 0x61, 0x69, 0x6E]
  lineno := 7

theorem makePickle_records_sample :
    ∃ pickles, [sampleRecord].mapM makePickle = some pickles ∧
      ∀ (rest : List UInt8) (byteBuf : ByteBuf), byteBuf.bytes = pickles.flatten ++ rest →
        Records .release rest byteBuf [sampleRecord] :=
  makePickle_records (by decide) [sampleRecord] (List.forall_mem_singleton.mpr
    ⟨⟨by decide, by decide, by decide, by decide, by decide, by decide, by decide, by decide⟩,
      by decide⟩)

end ByteSocketHandler

end LogSocket
