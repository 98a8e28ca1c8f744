import LogSocket.ObjectOutputStream
import LogSocket.ClassNames

/-! `saver::Default`, which writes an event to a file in the form of the Default protocol, and that
the loader takes it from there again. -/

namespace LogSocket.Saver

open Lib Default ByteBuf

def writeLong (byteBuf : List UInt8) (value : Int64) : List UInt8 := byteBuf ++ longChars value

def writeInt (byteBuf : List UInt8) (value : Int32) : List UInt8 := byteBuf ++ intChars value

def writeShort (byteBuf : List UInt8) (value : Int16) : List UInt8 :=
  byteBuf ++ [charAt value.toInt 8, charAt value.toInt 0]

def getFullInfo (funcName pathName lineNumber : LogString) : LogString :=
  let fullInfo := funcName
  let fullInfo :=
    match fullInfo.idxOf? 0x28, fullInfo.idxOf? 0x20 with
    | some openParen, some space => if space < openParen then fullInfo.drop (space + 1) else fullInfo
    | _, _ => fullInfo
  let fullInfo :=
    match fullInfo.idxOf? 0x28 with
    | some openParen =>
      match rfindColons fullInfo openParen with
      | some classSep => fullInfo.take classSep ++ 0x2E :: fullInfo.drop (classSep + 2)
      | none => 0x2E :: fullInfo
    | none => fullInfo
  fullInfo ++ [0x28] ++ pathName ++ [0x3A] ++ lineNumber ++ [0x29]

/-- A text as `createLoggingEvent` writes it, with `static_cast<short>` of its size. `toUTF8` has
nothing to do: a `LogString` is in UTF-8. -/
def writeText (byteBuf : List UInt8) (value : LogString) : List UInt8 :=
  writeShort (byteBuf ++ [tcString]) (Int16.ofNat value.length) ++ value

/-- `createLoggingEvent(eventData)` -/
def createLoggingEvent (eventData : LoggingEventData) : List UInt8 :=
  let byteBuf := [tcObject]
  let byteBuf := byteBuf ++ loggingEventDesc
  let byteBuf := byteBuf ++ [0, 0]
  let byteBuf := writeLong byteBuf (eventData.timestamp / 1000)
  let byteBuf := writeText byteBuf eventData.loggerName
  let byteBuf := byteBuf ++ [tcObject]
  let byteBuf := byteBuf ++ locationInfoDesc
  let fullInfo := getFullInfo eventData.funcName eventData.pathName eventData.lineNumber
  let byteBuf := writeText byteBuf fullInfo
  let byteBuf := byteBuf ++ [tcNull]
  let byteBuf := byteBuf ++ [tcNull]
  let byteBuf := writeText byteBuf eventData.message
  let byteBuf := writeText byteBuf eventData.threadName
  let byteBuf := byteBuf ++ [tcNull]
  let byteBuf := byteBuf ++ [tcBlockData]
  let byteBuf := byteBuf ++ [0x04]
  let byteBuf := writeInt byteBuf eventData.level
  let byteBuf := byteBuf ++ [tcNull]
  byteBuf ++ [tcEndBlockData]

/-- The low 16 bits of a size are written, whatever sign they have as a `short`. -/
theorem writeShort_ofNat (byteBuf : List UInt8) (n : Nat) :
    writeShort byteBuf (Int16.ofNat n) = byteBuf ++ beBytes 2 n := by
  have hValue : (Int16.ofNat n).toInt % 2 ^ 16 = (n % 2 ^ 16 : Nat) := by
    rw [Int16.toInt_ofNat', Int16.size, Int.bmod_def]
    omega
  have hLength : (n : Int) % 2 ^ 16 = (n % 2 ^ 16 : Nat) := by omega
  rw [writeShort, charAt_eq hValue (by decide), charAt_eq hValue (by decide), ← lengthChars_eq,
    charAt_eq hLength (by decide), charAt_eq hLength (by decide)]

@[simp] theorem writeText_eq (byteBuf : List UInt8) (value : LogString) :
    writeText byteBuf value = byteBuf ++ tcString :: stringBytes value := by
  simp [writeText, writeShort_ofNat, stringBytes]

variable {env : Env} {byteBuf : ByteBuf} {rest : List UInt8} {eventData : LoggingEventData}

/-- What the length fields of the protocol have room for. -/
structure Fits (eventData : LoggingEventData) : Prop where
  loggerName : eventData.loggerName.length ≤ 65535
  message : eventData.message.length ≤ 65535
  threadName : eventData.threadName.length ≤ 65535
  fullInfo :
    (getFullInfo eventData.funcName eventData.pathName eventData.lineNumber).length ≤ 65535
  nul : 0 ∉ getFullInfo eventData.funcName eventData.pathName eventData.lineNumber

/-- The message that is saved, in which both classes are described. -/
def message (eventData : LoggingEventData) : WireMessage where
  reset := false
  event := .described loggingEventClass
  millis := eventData.timestamp / 1000
  logger := eventData.loggerName
  location := some (.described locationInfoClass,
    getFullInfo eventData.funcName eventData.pathName eventData.lineNumber)
  mdc := none
  ndc := none
  message := eventData.message
  threadName := eventData.threadName
  level := eventData.level

theorem message_wellFormed (h : Fits eventData) : (message eventData).WellFormed where
  event := loggingEventClass_wellFormed
  logger := Nat.lt_succ_of_le h.loggerName
  location := by
    rintro _ ⟨⟩
    exact ⟨locationInfoClass_wellFormed, Nat.lt_succ_of_le h.fullInfo, h.nul⟩
  mdc := nofun
  ndc := nofun
  threadName := Nat.lt_succ_of_le h.threadName
  message := Nat.lt_succ_of_le h.message

theorem createLoggingEvent_eq (eventData : LoggingEventData) :
    createLoggingEvent eventData = (message eventData).bytes := by
  simp [createLoggingEvent, writeLong, writeInt, message, loggingEventClass_bytes,
    locationInfoClass_bytes, WireMessage.bytes, WireMessage.messageBytes, WireMessage.carried,
    ClassRef.bytes, locationBytes, mdcBytes, ndcBytes, MessageBytes.bytes, MessageBytes.beforeMDC,
    MessageBytes.afterMDC]

/-- The milliseconds of a time, also of one before the epoch. -/
theorem toInt_millis (timestamp : Int64) :
    (timestamp / 1000 * 1000).toInt = timestamp.toInt.tdiv 1000 * 1000 := by
  have hQuotient : -9223372036854775 ≤ timestamp.toInt.tdiv 1000 ∧
      timestamp.toInt.tdiv 1000 ≤ 9223372036854775 := by
    have hLow := timestamp.le_toInt
    have hHigh := timestamp.toInt_lt
    rw [Int.tdiv_eq_ediv]
    split
    · omega
    · rw [show Int.sign 1000 = 1 from rfl]
      omega
  have hDiv : (timestamp / 1000).toInt = timestamp.toInt.tdiv 1000 := by
    rw [Int64.toInt_div, show (1000 : Int64).toInt = 1000 from rfl, Int.bmod_def]
    omega
  rw [Int64.toInt_mul, hDiv, show (1000 : Int64).toInt = 1000 from rfl, Int.bmod_def]
  omega

/-- What a message gives back of an event. -/
structure Recovers (carried : Carried) (eventData : LoggingEventData) : Prop where
  logger : carried.logger = eventData.loggerName
  message : carried.message = eventData.message
  threadName : carried.threadName = eventData.threadName
  level : carried.level = eventData.level
  fullInfo :
    carried.fullInfo = getFullInfo eventData.funcName eventData.pathName eventData.lineNumber
  timeStamp : carried.timeStamp.toInt = eventData.timestamp.toInt.tdiv 1000 * 1000

theorem message_recovers (eventData : LoggingEventData) :
    Recovers (message eventData).carried eventData :=
  ⟨rfl, rfl, rfl, rfl, rfl, toInt_millis eventData.timestamp⟩

/-- A saved event is loaded again from the front of a buffer, whatever follows it. -/
theorem saved_loads (hAlloc : 65536 ≤ env.allocLimit) (h : Fits eventData)
    (hBytes : byteBuf.bytes = createLoggingEvent eventData ++ rest) :
    ∃ carried pos event, ∃ rest' : ByteBuf,
      readMessage env (byteBuf.bytes.length + 1) byteBuf = .ok (carried, pos) ∧
      Recovers carried eventData ∧ carried.createLoggingEvent = .ok event ∧ carried.Shown event ∧
      Default.createLoggingEvent env byteBuf = (.ok event, rest') ∧ rest'.bytes = rest := by
  rw [createLoggingEvent_eq] at hBytes
  rcases createLoggingEvent_ahead hAlloc (message_wellFormed h).messageBytes hBytes with
    ⟨pos, event, rest', hRead, hEvent, hCall, hRest⟩
  exact ⟨_, pos, event, rest', hRead, message_recovers eventData, hEvent, Carried.shown hEvent, hCall,
    hRest⟩

/-- An event of the function `__cdecl main(void)` in line 52 of the file `d:\a.cpp`, shortly before
the epoch. -/
def sampleEvent : LoggingEventData where
  loggerName := [0x72, 0x6F, 0x6F, 0x74]
  level := 50000
  message := [0xEA, 0xB0, 0x80]
  timestamp := -1500
  threadName := [0x74]
  pathName := [0x64, 0x3A, 0x5C, 0x61, 0x2E, 0x63, 0x70, 0x70]
  funcName := [0x5F, 0x5F, 0x63, 0x64, 0x65, 0x63, 0x6C, 0x20, 0x6D, 0x61, 0x69, 0x6E, 0x28, 0x76,
    0x6F, 0x69, 0x64, 0x29]
  lineNumber := [0x35, 0x32]

/-- The saved event, with a byte of the next message behind it. -/
def sampleBuf : ByteBuf := ⟨createLoggingEvent sampleEvent ++ [tcReset], by decide +kernel⟩

theorem saved_loads_sample :
    ∃ carried pos event, ∃ rest' : ByteBuf,
      readMessage .release (sampleBuf.bytes.length + 1) sampleBuf = .ok (carried, pos) ∧
      Recovers carried sampleEvent ∧ carried.createLoggingEvent = .ok event ∧ carried.Shown event ∧
      Default.createLoggingEvent .release sampleBuf = (.ok event, rest') ∧
      rest'.bytes = [tcReset] :=
  saved_loads (by decide) ⟨by decide, by decide, by decide, by decide, by decide⟩ rfl

end LogSocket.Saver
