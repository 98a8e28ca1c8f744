import LogSocket.Lib.Loop
import LogSocket.Wire
import LogSocket.Event

/-! The readers of the Default protocol on a byte buffer. Each takes a buffer and an offset and
returns a value and the number of bytes that it consumed; an offset may be any 64-bit number, since
a class descriptor moves it by lengths that are read from the wire. -/

namespace LogSocket.Default

open Lib

def tcNull : UInt8 := 0x70
def tcReference : UInt8 := 0x71
def tcClassDesc : UInt8 := 0x72
def tcObject : UInt8 := 0x73
def tcString : UInt8 := 0x74
def tcBlockData : UInt8 := 0x77
def tcEndBlockData : UInt8 := 0x78
def tcReset : UInt8 := 0x79

/-- The descriptor of `org.apache.log4j.spi.LoggingEvent`. -/
def loggingEventDesc : List UInt8 := [
  0x72, 0x00, 0x21, 0x6F, 0x72, 0x67, 0x2E, 0x61, 0x70, 0x61, 0x63, 0x68, 0x65, 0x2E, 0x6C, 0x6F,
  0x67, 0x34, 0x6A, 0x2E, 0x73, 0x70, 0x69, 0x2E, 0x4C, 0x6F, 0x67, 0x67, 0x69, 0x6E, 0x67, 0x45,
  0x76, 0x65, 0x6E, 0x74, 0xF3, 0xF2, 0xB9, 0x23, 0x74, 0x0B, 0xB5, 0x3F, 0x03, 0x00, 0x0A, 0x5A,
  0x00, 0x15, 0x6D, 0x64, 0x63, 0x43, 0x6F, 0x70, 0x79, 0x4C, 0x6F, 0x6F, 0x6B, 0x75, 0x70, 0x52,
  0x65, 0x71, 0x75, 0x69, 0x72, 0x65, 0x64, 0x5A, 0x00, 0x11, 0x6E, 0x64, 0x63, 0x4C, 0x6F, 0x6F,
  0x6B, 0x75, 0x70, 0x52, 0x65, 0x71, 0x75, 0x69, 0x72, 0x65, 0x64, 0x4A, 0x00, 0x09, 0x74, 0x69,
  0x6D, 0x65, 0x53, 0x74, 0x61, 0x6D, 0x70, 0x4C, 0x00, 0x0C, 0x63, 0x61, 0x74, 0x65, 0x67, 0x6F,
  0x72, 0x79, 0x4E, 0x61, 0x6D, 0x65, 0x74, 0x00, 0x12, 0x4C, 0x6A, 0x61, 0x76, 0x61, 0x2F, 0x6C,
  0x61, 0x6E, 0x67, 0x2F, 0x53, 0x74, 0x72, 0x69, 0x6E, 0x67, 0x3B, 0x4C, 0x00, 0x0C, 0x6C, 0x6F,
  0x63, 0x61, 0x74, 0x69, 0x6F, 0x6E, 0x49, 0x6E, 0x66, 0x6F, 0x74, 0x00, 0x23, 0x4C, 0x6F, 0x72,
  0x67, 0x2F, 0x61, 0x70, 0x61, 0x63, 0x68, 0x65, 0x2F, 0x6C, 0x6F, 0x67, 0x34, 0x6A, 0x2F, 0x73,
  0x70, 0x69, 0x2F, 0x4C, 0x6F, 0x63, 0x61, 0x74, 0x69, 0x6F, 0x6E, 0x49, 0x6E, 0x66, 0x6F, 0x3B,
  0x4C, 0x00, 0x07, 0x6D, 0x64, 0x63, 0x43, 0x6F, 0x70, 0x79, 0x74, 0x00, 0x15, 0x4C, 0x6A, 0x61,
  0x76, 0x61, 0x2F, 0x75, 0x74, 0x69, 0x6C, 0x2F, 0x48, 0x61, 0x73, 0x68, 0x74, 0x61, 0x62, 0x6C,
  0x65, 0x3B, 0x4C, 0x00, 0x03, 0x6E, 0x64, 0x63, 0x74, 0x00, 0x12, 0x4C, 0x6A, 0x61, 0x76, 0x61,
  0x2F, 0x6C, 0x61, 0x6E, 0x67, 0x2F, 0x53, 0x74, 0x72, 0x69, 0x6E, 0x67, 0x3B, 0x4C, 0x00, 0x0F,
  0x72, 0x65, 0x6E, 0x64, 0x65, 0x72, 0x65, 0x64, 0x4D, 0x65, 0x73, 0x73, 0x61, 0x67, 0x65, 0x74,
  0x00, 0x12, 0x4C, 0x6A, 0x61, 0x76, 0x61, 0x2F, 0x6C, 0x61, 0x6E, 0x67, 0x2F, 0x53, 0x74, 0x72,
  0x69, 0x6E, 0x67, 0x3B, 0x4C, 0x00, 0x0A, 0x74, 0x68, 0x72, 0x65, 0x61, 0x64, 0x4E, 0x61, 0x6D,
  0x65, 0x74, 0x00, 0x12, 0x4C, 0x6A, 0x61, 0x76, 0x61, 0x2F, 0x6C, 0x61, 0x6E, 0x67, 0x2F, 0x53,
  0x74, 0x72, 0x69, 0x6E, 0x67, 0x3B, 0x4C, 0x00, 0x0D, 0x74, 0x68, 0x72, 0x6F, 0x77, 0x61, 0x62,
  0x6C, 0x65, 0x49, 0x6E, 0x66, 0x6F, 0x74, 0x00, 0x2B, 0x4C, 0x6F, 0x72, 0x67, 0x2F, 0x61, 0x70,
  0x61, 0x63, 0x68, 0x65, 0x2F, 0x6C, 0x6F, 0x67, 0x34, 0x6A, 0x2F, 0x73, 0x70, 0x69, 0x2F, 0x54,
  0x68, 0x72, 0x6F, 0x77, 0x61, 0x62, 0x6C, 0x65, 0x49, 0x6E, 0x66, 0x6F, 0x72, 0x6D, 0x61, 0x74,
  0x69, 0x6F, 0x6E, 0x3B, 0x78, 0x70]

/-- The descriptor of `org.apache.log4j.spi.LocationInfo`. -/
def locationInfoDesc : List UInt8 := [
  0x72, 0x00, 0x21, 0x6F, 0x72, 0x67, 0x2E, 0x61, 0x70, 0x61, 0x63, 0x68, 0x65, 0x2E, 0x6C, 0x6F,
  0x67, 0x34, 0x6A, 0x2E, 0x73, 0x70, 0x69, 0x2E, 0x4C, 0x6F, 0x63, 0x61, 0x74, 0x69, 0x6F, 0x6E,
  0x49, 0x6E, 0x66, 0x6F, 0xED, 0x99, 0xBB, 0xE1, 0x4A, 0x91, 0xA5, 0x7C, 0x02, 0x00, 0x01, 0x4C,
  0x00, 0x08, 0x66, 0x75, 0x6C, 0x6C, 0x49, 0x6E, 0x66, 0x6F, 0x74, 0x00, 0x12, 0x4C, 0x6A, 0x61,
  0x76, 0x61, 0x2F, 0x6C, 0x61, 0x6E, 0x67, 0x2F, 0x53, 0x74, 0x72, 0x69, 0x6E, 0x67, 0x3B, 0x78,
  0x70]

/-- The descriptor of `java.util.Hashtable`. -/
def hashTableDesc : List UInt8 := [
  0x72, 0x00, 0x13, 0x6A, 0x61, 0x76, 0x61, 0x2E, 0x75, 0x74, 0x69, 0x6C, 0x2E, 0x48, 0x61, 0x73,
  0x68, 0x74, 0x61, 0x62, 0x6C, 0x65, 0x13, 0xBB, 0x0F, 0x25, 0x21, 0x4A, 0xE4, 0xB8, 0x03, 0x00,
  0x02, 0x46, 0x00, 0x0A, 0x6C, 0x6F, 0x61, 0x64, 0x46, 0x61, 0x63, 0x74, 0x6F, 0x72, 0x49, 0x00,
  0x09, 0x74, 0x68, 0x72, 0x65, 0x73, 0x68, 0x6F, 0x6C, 0x64, 0x78, 0x70]

def readByte (byteBuf : ByteBuf) (pos : UInt64) : Except Fail (UInt8 × UInt64) := do
  let bytes ← byteBuf.fetch pos 1
  pure (bytes.headD 0, 1)

def readBytes (env : Env) (byteBuf : ByteBuf) (pos bytes : UInt64) :
    Except Fail (List UInt8 × UInt64) := do
  byteBuf.check pos bytes
  env.alloc bytes
  let value ← byteBuf.copy pos bytes
  pure (value, bytes)

def readShort (byteBuf : ByteBuf) (pos : UInt64) : Except Fail (Int16 × UInt64) := do
  let bytes ← byteBuf.fetch pos 2
  pure (loadShort bytes.reverse, 2)

def readInt (byteBuf : ByteBuf) (pos : UInt64) : Except Fail (Int32 × UInt64) := do
  let bytes ← byteBuf.fetch pos 4
  pure (swapInt (loadInt bytes), 4)

def readLong (byteBuf : ByteBuf) (pos : UInt64) : Except Fail (Int64 × UInt64) := do
  let bytes ← byteBuf.fetch pos 8
  pure (swapLong (loadLong bytes), 8)

/-- The tag in front of a string or an object, unless `skipTypeClass` says that it has been read. -/
def readTypeClass (tag : UInt8) (what : Message) (byteBuf : ByteBuf) (pos : UInt64)
    (skipTypeClass : Bool) : Except Fail UInt64 :=
  if skipTypeClass then pure 0
  else do
    let (typeClass, size) ← readByte byteBuf pos
    require (typeClass == tag) (.invalid what)
    pure size

@[simp] theorem readTypeClass_skip (tag : UInt8) (what : Message) (byteBuf : ByteBuf)
    (pos : UInt64) : readTypeClass tag what byteBuf pos true = .ok 0 := rfl

/-- The data of a string: a length of two bytes, unsigned here, and that many bytes. -/
def readString (env : Env) (byteBuf : ByteBuf) (pos : UInt64) (skipTypeClass : Bool) :
    Except Fail (List UInt8 × UInt64) := do
  let readPos ← readTypeClass tcString .typeString byteBuf pos skipTypeClass
  let bytes ← byteBuf.fetch (pos + readPos) 2
  let dataLen := UInt64.ofNat (le bytes.reverse)
  let readPos := readPos + 2
  env.alloc dataLen
  let data ← byteBuf.fetch (pos + readPos) dataLen
  pure (data, readPos + dataLen)

/-- `data` gets a final NUL and is then read as a `const char*`. -/
def readUTFString (env : Env) (byteBuf : ByteBuf) (pos : UInt64) (skipTypeClass : Bool) :
    Except Fail (LogString × UInt64) := do
  let (data, readPos) ← readString env byteBuf pos skipTypeClass
  env.alloc (UInt64.ofNat (data.length + 1))
  pure (cString data, readPos)

def readLogString (env : Env) (byteBuf : ByteBuf) (pos : UInt64) (skipTypeClass : Bool) :
    Except Fail (LogString × UInt64) :=
  readString env byteBuf pos skipTypeClass

/-- The fields of a class descriptor. A length is a signed `short`, which the addition to `readPos`
extends to 64 bits. -/
def readFields (byteBuf : ByteBuf) (pos : UInt64) : Nat → UInt64 → Except Fail UInt64
  | 0, readPos => pure readPos
  | count + 1, readPos => do
    let readPos := readPos + 1
    let (dataLen, size) ← readShort byteBuf (pos + readPos)
    readFields byteBuf pos count (readPos + size + extendShort dataLen)

/-- A turn of the `while (true)` loop of `readProlog`. -/
def tagTurn (env : Env) (byteBuf : ByteBuf) (pos readPos : UInt64) :
    Except Fail (UInt64 ⊕ UInt64) := do
  let (typeClass, size) ← readByte byteBuf (pos + readPos)
  let readPos := readPos + size
  if typeClass = tcEndBlockData then
    pure (.inr readPos)
  else if typeClass = tcReference then do
    let (_, size) ← readInt byteBuf (pos + readPos)
    pure (.inl (readPos + size))
  else if typeClass = 0x4C ∨ typeClass = tcString then do
    let (dataLen, size) ← readShort byteBuf (pos + readPos)
    pure (.inl (readPos + size + extendShort dataLen))
  else do
    env.assert false
    throw (.invalid .classDesc)

def readTags (env : Env) (fuel : Nat) (byteBuf : ByteBuf) (pos readPos : UInt64) :
    Except Fail UInt64 :=
  loop (tagTurn env byteBuf pos) .hang fuel readPos

/-- The class name in `value` stays empty, and `classDesc` is not looked at. -/
def readProlog (env : Env) (fuel : Nat) (byteBuf : ByteBuf) (pos : UInt64)
    (_classDesc : List UInt8) : Except Fail ((LogString × UInt32) × UInt64) := do
  let (typeClass, readPos) ← readByte byteBuf pos
  if typeClass = tcClassDesc then do
    let (dataLen, size) ← readShort byteBuf (pos + readPos)
    let readPos := readPos + size + extendShort dataLen + 8 + 1
    let (fieldLen, size) ← readShort byteBuf (pos + readPos)
    let readPos ← readFields byteBuf pos fieldLen.toInt.toNat (readPos + size)
    let readPos ← readTags env fuel byteBuf pos readPos
    let (typeClass, size) ← readByte byteBuf (pos + readPos)
    env.assert (typeClass == tcNull)
    require (typeClass == tcNull) (.invalid .classDesc)
    pure (([], 0), readPos + size)
  else if typeClass = tcReference then do
    let (val, size) ← readInt byteBuf (pos + readPos)
    pure (([], val.toUInt32), readPos + size)
  else do
    env.assert false
    throw (.invalid .type)

/-- The load factor, the threshold and the header of the block data of a `Hashtable`. -/
def hashTableData : List UInt8 := [
  0x3F, 0x40, 0x00, 0x00, 0x00, 0x00, 0x00, 0x05, tcBlockData, 0x08, 0x00, 0x00, 0x00, 0x07]

/-- The keys and values of a map of the given size. -/
def readEntries (env : Env) (byteBuf : ByteBuf) (pos : UInt64) :
    Nat → UInt64 → MDC → Except Fail (MDC × UInt64)
  | 0, readPos, value => pure (value, readPos)
  | mapSize + 1, readPos, value => do
    let (first, size) ← readLogString env byteBuf (pos + readPos) false
    let readPos := readPos + size
    let (second, size) ← readLogString env byteBuf (pos + readPos) false
    readEntries env byteBuf pos mapSize (readPos + size) (value.insert first second)

/-- A map. The descriptor is looked for at `pos`, not at `pos + readPos`. -/
def readObject (env : Env) (fuel : Nat) (byteBuf : ByteBuf) (pos : UInt64) (value : MDC)
    (skipTypeClass : Bool) : Except Fail (MDC × UInt64) := do
  let readPos ← readTypeClass tcObject .typeObject byteBuf pos skipTypeClass
  let (_, size) ← readProlog env fuel byteBuf pos hashTableDesc
  let readPos := readPos + size
  let data ← byteBuf.fetch (pos + readPos) 14
  env.assert (data == hashTableData)
  require (data == hashTableData) (.invalid .data)
  let readPos := readPos + 14
  let (mapSize, size) ← readInt byteBuf (pos + readPos)
  let (value, readPos) ←
    readEntries env byteBuf pos mapSize.toInt.toNat (readPos + size) value
  let (endBlock, size) ← readByte byteBuf (pos + readPos)
  require (endBlock == tcEndBlockData) (.invalid .endBlockData)
  pure (value, readPos + size)

def readLocationInfo (env : Env) (fuel : Nat) (byteBuf : ByteBuf) (pos : UInt64) :
    Except Fail (LogString × UInt64) := do
  let (typeClass, readPos) ← readByte byteBuf pos
  if typeClass = tcNull then
    pure ([], readPos)
  else if typeClass = tcObject then do
    let (_, size) ← readProlog env fuel byteBuf (pos + readPos) locationInfoDesc
    let readPos := readPos + size
    let (fullInfo, size) ← readUTFString env byteBuf (pos + readPos) false
    pure (fullInfo, readPos + size)
  else do
    env.assert false
    throw (.invalid .type)

def readMDC (env : Env) (fuel : Nat) (byteBuf : ByteBuf) (pos : UInt64) :
    Except Fail (MDC × UInt64) := do
  let (typeClass, readPos) ← readByte byteBuf pos
  if typeClass = tcNull then
    pure (.empty, readPos)
  else if typeClass = tcObject then do
    let (mdcMap, size) ← readObject env fuel byteBuf (pos + readPos) .empty true
    pure (mdcMap, readPos + size)
  else do
    env.assert false
    throw (.invalid .type)

/-- Any other tag is answered with `return false`: no error, and no byte consumed. -/
def readNDC (env : Env) (byteBuf : ByteBuf) (pos : UInt64) : Except Fail (LogString × UInt64) := do
  let (typeClass, readPos) ← readByte byteBuf pos
  if typeClass = tcNull then
    pure ([], readPos)
  else if typeClass = tcString then do
    let (ndc, size) ← readLogString env byteBuf (pos + readPos) true
    pure (ndc, readPos + size)
  else do
    env.assert false
    pure ([], 0)

end LogSocket.Default
