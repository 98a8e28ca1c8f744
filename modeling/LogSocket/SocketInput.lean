import LogSocket.DefaultInput

/-! The readers of the Default protocol on a blocking socket, which read a stream once instead of
parsing a buffer again and again. A socket is the segments in which its bytes arrive, up to the close
of the peer. A reader returns a value and what is left of the socket, or `false`; all of them are
`noexcept`, so an exception inside of one ends the program. -/

namespace LogSocket.Default.Blocking

open Lib

abbrev Segments := List (List UInt8)

/-- `recv` with room for `len` bytes: at least one byte, or none at the close of the peer. -/
def recv (len : Nat) : Segments → Option (List UInt8 × Segments)
  | [] => none
  | segment :: segments =>
    if segment = [] then recv len segments
    else some (segment.take len, segment.drop len :: segments)

/-- How a reader ends that does not return `true`. -/
inductive Stop
  /-- It returns `false`. -/
  | unread
  | terminate (e : Fail)
  deriving DecidableEq, Repr

/-- An exception leaves a `noexcept` function. -/
def noexcept {α : Type} : Except Fail α → Except Stop α
  | .ok a => .ok a
  | .error e => .error (.terminate e)

/-- `if (!condition) { return false; }` -/
def accept (condition : Bool) : Except Stop Unit :=
  if condition then pure () else throw .unread

/-- `_ASSERTE(!"…"); return false;` -/
def refuse {α : Type} (env : Env) : Except Stop α := do
  noexcept (env.assert false)
  throw .unread

theorem refuse_off {env : Env} (hAsserts : env.asserts = false) {α : Type} :
    (refuse env : Except Stop α) = .error .unread := by
  rw [refuse, env.assert_off hAsserts]
  rfl

/-- The loop of `read`, for at most `turns` turns, with `left` bytes to go. -/
def readTurns : Nat → Nat → Segments → Except Stop (List UInt8 × Segments)
  | 0, left, socket => if left = 0 then pure ([], socket) else throw (.terminate .hang)
  | turns + 1, left, socket =>
    if left = 0 then pure ([], socket)
    else
      match recv left socket with
      | none => throw .unread
      | some (bytes, socket) => do
        let (more, socket) ← readTurns turns (left - bytes.length) socket
        pure (bytes ++ more, socket)

/-- `read(socket, buf, len)`: every turn reads a byte at least. -/
def read (socket : Segments) (len : Nat) : Except Stop (List UInt8 × Segments) :=
  readTurns len len socket

def readByte (socket : Segments) : Except Stop (UInt8 × Segments) := do
  let (bytes, socket) ← read socket 1
  pure (bytes.headD 0, socket)

def readBytes (env : Env) (socket : Segments) (bytes : UInt64) :
    Except Stop (List UInt8 × Segments) := do
  noexcept (env.alloc bytes)
  read socket bytes.toNat

def readShort (socket : Segments) : Except Stop (Int16 × Segments) := do
  let (bytes, socket) ← read socket 2
  pure (swapShort (loadShort bytes), socket)

def readInt (socket : Segments) : Except Stop (Int32 × Segments) := do
  let (bytes, socket) ← read socket 4
  pure (swapInt (loadInt bytes), socket)

def readLong (socket : Segments) : Except Stop (Int64 × Segments) := do
  let (bytes, socket) ← read socket 8
  pure (swapLong (loadLong bytes), socket)

/-- The tag in front of a string or an object, unless `skipTypeClass` says that it has been read. -/
def readTypeClass (tag : UInt8) (socket : Segments) (skipTypeClass : Bool) :
    Except Stop Segments :=
  if skipTypeClass then pure socket
  else do
    let (typeClass, socket) ← readByte socket
    accept (typeClass == tag)
    pure socket

@[simp] theorem readTypeClass_skip (tag : UInt8) (socket : Segments) :
    readTypeClass tag socket true = .ok socket := rfl

/-- The data of a string: a length of two bytes and that many bytes. -/
def readString (env : Env) (socket : Segments) (skipTypeClass : Bool) :
    Except Stop (List UInt8 × Segments) := do
  let socket ← readTypeClass tcString socket skipTypeClass
  let (bytes, socket) ← read socket 2
  let dataLen := UInt64.ofNat (le bytes.reverse)
  noexcept (env.alloc dataLen)
  read socket dataLen.toNat

def readUTFString (env : Env) (socket : Segments) (skipTypeClass : Bool) :
    Except Stop (LogString × Segments) := do
  let (data, socket) ← readString env socket skipTypeClass
  noexcept (env.alloc (UInt64.ofNat (data.length + 1)))
  pure (cString data, socket)

def readLogString (env : Env) (socket : Segments) (skipTypeClass : Bool) :
    Except Stop (LogString × Segments) :=
  readString env socket skipTypeClass

/-- The fields of a class descriptor: a type code, and a name whose length is a signed `short`. -/
def readFields (env : Env) : Nat → Segments → Except Stop Segments
  | 0, socket => pure socket
  | count + 1, socket => do
    let (_, socket) ← readByte socket
    let (dataLen, socket) ← readShort socket
    let (_, socket) ← readBytes env socket (extendShort dataLen)
    readFields env count socket

/-- A turn of the `while (true)` loop of `readProlog`. -/
def tagTurn (env : Env) (socket : Segments) : Except Stop (Segments ⊕ Segments) := do
  let (typeClass, socket) ← readByte socket
  if typeClass = tcEndBlockData then
    pure (.inr socket)
  else if typeClass = tcReference then do
    let (_, socket) ← readInt socket
    pure (.inl socket)
  else if typeClass = 0x4C ∨ typeClass = tcString then do
    let (dataLen, socket) ← readShort socket
    let (_, socket) ← readBytes env socket (extendShort dataLen)
    pure (.inl socket)
  else refuse env

def readTags (env : Env) (fuel : Nat) (socket : Segments) : Except Stop Segments :=
  loop (tagTurn env) (.terminate .hang) fuel socket

/-- The byte behind the tags. The assertion fails too when there is none. -/
def readLast (env : Env) (socket : Segments) : Except Stop ((LogString × UInt32) × Segments) :=
  match readByte socket with
  | .ok (typeClass, socket) =>
    if typeClass = tcNull then pure (([], 0), socket) else refuse env
  | .error .unread => refuse env
  | .error e => .error e

def readProlog (env : Env) (fuel : Nat) (socket : Segments) (_classDesc : List UInt8) :
    Except Stop ((LogString × UInt32) × Segments) := do
  let (typeClass, socket) ← readByte socket
  if typeClass = tcClassDesc then do
    let (dataLen, socket) ← readShort socket
    let (_, socket) ← readBytes env socket (extendShort dataLen)
    let (_, socket) ← readBytes env socket 8
    let (_, socket) ← readByte socket
    let (fieldLen, socket) ← readShort socket
    let socket ← readFields env fieldLen.toInt.toNat socket
    let socket ← readTags env fuel socket
    readLast env socket
  else if typeClass = tcReference then do
    let (val, socket) ← readInt socket
    pure (([], val.toUInt32), socket)
  else refuse env

/-- The keys and values of a map of the given size. -/
def readEntries (env : Env) : Nat → Segments → MDC → Except Stop (MDC × Segments)
  | 0, socket, value => pure (value, socket)
  | mapSize + 1, socket, value => do
    let (first, socket) ← readLogString env socket false
    let (second, socket) ← readLogString env socket false
    readEntries env mapSize socket (value.insert first second)

def readObject (env : Env) (fuel : Nat) (socket : Segments) (value : MDC)
    (skipTypeClass : Bool) : Except Stop (MDC × Segments) := do
  let socket ← readTypeClass tcObject socket skipTypeClass
  let (_, socket) ← readProlog env fuel socket hashTableDesc
  let (data, socket) ← readBytes env socket 14
  noexcept (env.assert (data == hashTableData))
  accept (data == hashTableData)
  let (mapSize, socket) ← readInt socket
  let (value, socket) ← readEntries env mapSize.toInt.toNat socket value
  let (endBlock, socket) ← readByte socket
  accept (endBlock == tcEndBlockData)
  pure (value, socket)

def readLocationInfo (env : Env) (fuel : Nat) (socket : Segments) :
    Except Stop (LogString × Segments) := do
  let (typeClass, socket) ← readByte socket
  if typeClass = tcNull then
    pure ([], socket)
  else if typeClass = tcObject then do
    let (_, socket) ← readProlog env fuel socket locationInfoDesc
    readUTFString env socket false
  else refuse env

def readMDC (env : Env) (fuel : Nat) (socket : Segments) : Except Stop (MDC × Segments) := do
  let (typeClass, socket) ← readByte socket
  if typeClass = tcNull then
    pure (.empty, socket)
  else if typeClass = tcObject then
    readObject env fuel socket .empty true
  else refuse env

/-- Any other tag is refused here. -/
def readNDC (env : Env) (socket : Segments) : Except Stop (LogString × Segments) := do
  let (typeClass, socket) ← readByte socket
  if typeClass = tcNull then
    pure ([], socket)
  else if typeClass = tcString then
    readLogString env socket true
  else refuse env

end LogSocket.Default.Blocking
