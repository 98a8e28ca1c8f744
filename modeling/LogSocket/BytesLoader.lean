import LogSocket.Wire
import LogSocket.Loader

/-! The loader of the Bytes protocol: the fields of an event one after the other, each string with a
length of four bytes in front. -/

namespace LogSocket.Bytes

open Lib

def start : List UInt8 := [0xAC, 0xED, 0x01, 0x05]

def readStart (env : Env) (byteBuf : ByteBuf) : Except Fail UInt64 := readFlag start env byteBuf

def readInt (byteBuf : ByteBuf) (pos : UInt64) : Except Fail (Int32 × UInt64) := do
  let bytes ← byteBuf.fetch pos 4
  pure (swapInt (loadInt bytes), 4)

def readLong (byteBuf : ByteBuf) (pos : UInt64) : Except Fail (Int64 × UInt64) := do
  let bytes ← byteBuf.fetch pos 8
  pure (swapLong (loadLong bytes), 8)

/-- The data of a string. `readInt` fills the low half of the `size_t` that holds its length. -/
def readString (env : Env) (byteBuf : ByteBuf) (pos : UInt64) :
    Except Fail (List UInt8 × UInt64) := do
  let (length, readPos) ← readInt byteBuf pos
  let dataLen := length.toUInt32.toUInt64
  env.alloc dataLen
  let data ← byteBuf.fetch (pos + readPos) dataLen
  pure (data, readPos + dataLen)

def readUTFString (env : Env) (byteBuf : ByteBuf) (pos : UInt64) :
    Except Fail (LogString × UInt64) := do
  let (data, readPos) ← readString env byteBuf pos
  env.alloc (UInt64.ofNat (data.length + 1))
  pure (cString data, readPos)

def readLogString (env : Env) (byteBuf : ByteBuf) (pos : UInt64) :
    Except Fail (LogString × UInt64) :=
  readString env byteBuf pos

def readData (env : Env) (byteBuf : ByteBuf) : Except Fail (LoggingEventData × UInt64) := do
  let pos := 0
  let (loggerName, size) ← readLogString env byteBuf pos
  let pos := pos + size
  let (level, size) ← readInt byteBuf pos
  let pos := pos + size
  let (message, size) ← readLogString env byteBuf pos
  let pos := pos + size
  let (timestamp, size) ← readLong byteBuf pos
  let pos := pos + size
  let (threadName, size) ← readLogString env byteBuf pos
  let pos := pos + size
  let (pathName, size) ← readUTFString env byteBuf pos
  let pos := pos + size
  let (funcName, size) ← readUTFString env byteBuf pos
  let pos := pos + size
  let (lineNumber, size) ← readUTFString env byteBuf pos
  let pos := pos + size
  pure ({ loggerName, level, message, timestamp, threadName, pathName, funcName, lineNumber }, pos)

def createLoggingEvent (env : Env) : LoggingEventFunc :=
  load env (readData env) fun data => pure data.createLoggingEvent

end LogSocket.Bytes
