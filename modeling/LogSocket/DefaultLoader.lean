import LogSocket.DefaultInput
import LogSocket.Loader

/-! The loader of the Default protocol, the stream that a log4j or log4cxx client serialises its
logging events to. -/

namespace LogSocket.Default

/-- `STREAM_MAGIC` and `STREAM_VERSION` -/
def start : List UInt8 := [0xAC, 0xED, 0x00, 0x05]

def readStart (env : Env) (byteBuf : ByteBuf) : Except Fail UInt64 := readFlag start env byteBuf

/-- What a message carries. The two maps of diagnostic contexts are read and then dropped. -/
structure Carried where
  logger : LogString
  level : Int32
  message : LogString
  timeStamp : Int64
  threadName : LogString
  fullInfo : LogString
  mdc : MDC
  ndc : LogString
  deriving DecidableEq

/-- `TC_OBJECT`, with or without a `TC_RESET` in front. -/
def readObjectTag (byteBuf : ByteBuf) : Except Fail UInt64 := do
  let (typeClass, size) ← readByte byteBuf 0
  require (typeClass == tcReset || typeClass == tcObject) (.invalid .resetOrObject)
  if typeClass = tcReset then do
    let (typeClass, more) ← readByte byteBuf (0 + size)
    require (typeClass == tcObject) (.invalid .typeObject)
    pure (size + more)
  else
    pure size

/-- The two flags, the time in milliseconds, which becomes microseconds, and the logger. -/
def readHeader (env : Env) (byteBuf : ByteBuf) (pos : UInt64) :
    Except Fail ((Int64 × LogString) × UInt64) := do
  let (lookupsRequired, size) ← readBytes env byteBuf pos 2
  env.assert (lookupsRequired == [0, 0])
  require (lookupsRequired == [0, 0]) (.invalid .lookupsRequired)
  let pos := pos + size
  let (timeStamp, size) ← readLong byteBuf pos
  let timeStamp := timeStamp * 1000
  let pos := pos + size
  let (logger, size) ← readLogString env byteBuf pos false
  pure ((timeStamp, logger), pos + size)

/-- A byte that can have only one value. -/
def readExpected (expected : UInt8) (what : Message) (byteBuf : ByteBuf) (pos : UInt64) :
    Except Fail UInt64 := do
  let (value, size) ← readByte byteBuf pos
  require (value == expected) (.invalid what)
  pure (pos + size)

/-- The throwable, which is never there, and the level. -/
def readTrailer (byteBuf : ByteBuf) (pos : UInt64) : Except Fail (Int32 × UInt64) := do
  let pos ← readExpected tcNull .null byteBuf pos
  let pos ← readExpected tcBlockData .blockData byteBuf pos
  let pos ← readExpected 0x04 .four byteBuf pos
  let (level, size) ← readInt byteBuf pos
  let pos := pos + size
  let pos ← readExpected tcNull .null byteBuf pos
  let pos ← readExpected tcEndBlockData .endBlockData byteBuf pos
  pure (level, pos)

/-- The message up to its logger. -/
def readBeforeLocation (env : Env) (fuel : Nat) (byteBuf : ByteBuf) :
    Except Fail ((Int64 × LogString) × UInt64) := do
  let pos ← readObjectTag byteBuf
  let (_, size) ← readProlog env fuel byteBuf pos loggingEventDesc
  readHeader env byteBuf (pos + size)

/-- The message up to its location. -/
def readBeforeMDC (env : Env) (fuel : Nat) (byteBuf : ByteBuf) :
    Except Fail (((Int64 × LogString) × LogString) × UInt64) := do
  let (header, pos) ← readBeforeLocation env fuel byteBuf
  let (fullInfo, size) ← readLocationInfo env fuel byteBuf pos
  pure ((header, fullInfo), pos + size)

/-- `createLoggingEvent` up to the end of the message, with `fuel` turns for each class descriptor.
The result is what the message carries and its length. -/
def readMessage (env : Env) (fuel : Nat) (byteBuf : ByteBuf) : Except Fail (Carried × UInt64) := do
  let (((timeStamp, logger), fullInfo), pos) ← readBeforeMDC env fuel byteBuf
  let (mdc, size) ← readMDC env fuel byteBuf pos
  let pos := pos + size
  let (ndc, size) ← readNDC env byteBuf pos
  let pos := pos + size
  let (message, size) ← readLogString env byteBuf pos false
  let pos := pos + size
  let (threadName, size) ← readLogString env byteBuf pos false
  let pos := pos + size
  let (level, pos) ← readTrailer byteBuf pos
  pure ({ logger, level, message, timeStamp, threadName, fullInfo, mdc, ndc }, pos)

def Carried.createLoggingEvent (carried : Carried) : Except Fail LoggingEvent :=
  LogSocket.createLoggingEvent carried.logger (Level.toLevel carried.level) carried.message
    carried.timeStamp carried.threadName carried.fullInfo

/-- The event that is built of what a message carries, with the location that its text says. -/
structure Carried.Shown (carried : Carried) (event : LoggingEvent) : Prop where
  logger : event.logger = carried.logger
  level : event.level = Level.toLevel carried.level
  message : event.message = carried.message
  timeStamp : event.timeStamp = carried.timeStamp
  threadName : event.threadName = carried.threadName
  location : ∃ fileName methodName lineNumber, getFileName carried.fullInfo = .ok fileName ∧
    getMethodName carried.fullInfo = .ok methodName ∧
    getLineNumber carried.fullInfo = .ok lineNumber ∧
    event.locationInfo = ⟨atoi lineNumber, cString fileName, cString methodName⟩

theorem Carried.shown {carried : Carried} {event : LoggingEvent}
    (h : carried.createLoggingEvent = .ok event) : carried.Shown event := by
  obtain ⟨fileName, hFile, h⟩ := Lib.bind_eq_ok.mp h
  obtain ⟨methodName, hMethod, h⟩ := Lib.bind_eq_ok.mp h
  obtain ⟨lineNumber, hLine, h⟩ := Lib.bind_eq_ok.mp h
  obtain rfl := Except.ok.inj h
  exact ⟨rfl, rfl, rfl, rfl, rfl, fileName, methodName, lineNumber, hFile, hMethod, hLine, rfl⟩

/-- `createLoggingEvent` with `fuel` turns for each class descriptor. -/
def createLoggingEventFuel (env : Env) (fuel : Nat) : LoggingEventFunc :=
  load env (readMessage env fuel) Carried.createLoggingEvent

/-- `createLoggingEvent(ByteBuf&)`. More turns than the buffer has bytes are never needed: a
descriptor that is not read to its end by then never is. -/
def createLoggingEvent (env : Env) : LoggingEventFunc := fun byteBuf =>
  createLoggingEventFuel env (byteBuf.bytes.length + 1) byteBuf

end LogSocket.Default
