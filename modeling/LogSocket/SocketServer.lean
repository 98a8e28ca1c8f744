import LogSocket.Client
import LogSocket.SocketInput

/-! The loader of the Default protocol on a blocking socket, and the two bodies of `runClient` in
`log4cxxSocketServer`: the loop around a buffer, which is compiled, and the loop of blocking reads,
which is not. -/

namespace LogSocket.Default.Blocking

open Lib

/-- `readStart(SOCKET)` -/
def readStart (env : Env) (socket : Segments) : Except Stop Segments := do
  let (byteBuf, socket) ← readBytes env socket 4
  noexcept (env.assert (byteBuf == start))
  accept (byteBuf == start)
  pure socket

/-- `TC_OBJECT`, with or without a `TC_RESET` in front. -/
def readObjectTag (socket : Segments) : Except Stop Segments := do
  let (typeClass, socket) ← readByte socket
  accept (typeClass == tcReset || typeClass == tcObject)
  if typeClass = tcReset then do
    let (typeClass, socket) ← readByte socket
    accept (typeClass == tcObject)
    pure socket
  else
    pure socket

/-- The two flags, the time in milliseconds, which becomes microseconds, and the logger. -/
def readHeader (env : Env) (socket : Segments) :
    Except Stop ((Int64 × LogString) × Segments) := do
  let (lookupsRequired, socket) ← readBytes env socket 2
  noexcept (env.assert (lookupsRequired == [0, 0]))
  accept (lookupsRequired == [0, 0])
  let (timeStamp, socket) ← readLong socket
  let timeStamp := timeStamp * 1000
  let (logger, socket) ← readLogString env socket false
  pure ((timeStamp, logger), socket)

/-- A byte that can have only one value. -/
def readExpected (expected : UInt8) (socket : Segments) : Except Stop Segments := do
  let (value, socket) ← readByte socket
  accept (value == expected)
  pure socket

/-- The throwable, which is never there, and the level. -/
def readTrailer (socket : Segments) : Except Stop (Int32 × Segments) := do
  let socket ← readExpected tcNull socket
  let socket ← readExpected tcBlockData socket
  let socket ← readExpected 0x04 socket
  let (level, socket) ← readInt socket
  let socket ← readExpected tcNull socket
  let socket ← readExpected tcEndBlockData socket
  pure (level, socket)

/-- The message up to its logger. -/
def readBeforeLocation (env : Env) (fuel : Nat) (socket : Segments) :
    Except Stop ((Int64 × LogString) × Segments) := do
  let socket ← readObjectTag socket
  let (_, socket) ← readProlog env fuel socket loggingEventDesc
  readHeader env socket

/-- The message up to its location. -/
def readBeforeMDC (env : Env) (fuel : Nat) (socket : Segments) :
    Except Stop (((Int64 × LogString) × LogString) × Segments) := do
  let (header, socket) ← readBeforeLocation env fuel socket
  let (fullInfo, socket) ← readLocationInfo env fuel socket
  pure ((header, fullInfo), socket)

/-- `createLoggingEvent(SOCKET)` up to the end of the message, with `fuel` turns for each class
descriptor. -/
def readMessage (env : Env) (fuel : Nat) (socket : Segments) :
    Except Stop (Carried × Segments) := do
  let (((timeStamp, logger), fullInfo), socket) ← readBeforeMDC env fuel socket
  let (mdc, socket) ← readMDC env fuel socket
  let (ndc, socket) ← readNDC env socket
  let (message, socket) ← readLogString env socket false
  let (threadName, socket) ← readLogString env socket false
  let (level, socket) ← readTrailer socket
  pure ({ logger, level, message, timeStamp, threadName, fullInfo, mdc, ndc }, socket)

/-- `createLoggingEvent(SOCKET)`: an event, or null. A descriptor has fewer tags than the socket has
bytes. -/
def createLoggingEvent (env : Env) (socket : Segments) :
    Except Fail (Option (LoggingEvent × Segments)) :=
  match readMessage env (socket.flatten.length + 1) socket with
  | .error .unread => .ok none
  | .error (.terminate e) => .error e
  | .ok (carried, socket) =>
    match carried.createLoggingEvent with
    | .ok event => .ok (some (event, socket))
    | .error e => .error e

end LogSocket.Default.Blocking

namespace LogSocket.SocketServer

open Default.Blocking (Segments recv read)

/-- How serving a client came to its end, and the events that were given to appenders. -/
structure Served where
  ended : Except Fail Unit
  events : List LoggingEvent
  deriving DecidableEq

/-- Events in front of others. -/
def Served.after (events : List LoggingEvent) (served : Served) : Served :=
  ⟨served.ended, events ++ served.events⟩

def BUF_LEN : Nat := 4096

/-- The first four bytes in `recvBuf`, whose other bytes are zero. -/
def recvBuf (bytes : List UInt8) : ByteBuf where
  bytes := (bytes ++ List.replicate BUF_LEN 0).take BUF_LEN
  size_le := (List.length_take_le _ _).trans (by decide)

/-- The loop of `recv` and `forceLog`, which is that of a client that has chosen its loader. -/
def recvLoop (host : Host) : Nat → ByteBuf → Segments → Served
  | 0, _, _ => ⟨.error .hang, []⟩
  | fuel + 1, byteBuf, socket =>
    match recv BUF_LEN socket with
    | none => ⟨.ok (), []⟩
    | some (bytes, socket) =>
      match byteBuf.insert bytes with
      | .error e => ⟨.error e, []⟩
      | .ok byteBuf =>
        let call := decode host .default (byteBuf.bytes.length + 1) byteBuf
        match call.verdict with
        | .ok true => (recvLoop host fuel call.client.byteBuf socket).after call.events
        | .ok false => ⟨.ok (), call.events⟩
        | .error e => ⟨.error e, call.events⟩

/-- `runClient`: the start flag is collected as `read` does, and checked by the loader. -/
def runClient (host : Host) (socket : Segments) : Served :=
  match read socket 4 with
  | .error _ => ⟨.ok (), []⟩
  | .ok (bytes, socket) =>
    match Default.readStart host.env (recvBuf bytes) with
    | .ok _ => recvLoop host (socket.flatten.length + 1) .empty socket
    | .error (.small _) | .error (.invalid _) => ⟨.ok (), []⟩
    | .error e => ⟨.error e, []⟩

/-- The loop of blocking reads. -/
def readLoop (host : Host) : Nat → Segments → Served
  | 0, _ => ⟨.error .hang, []⟩
  | fuel + 1, socket =>
    match Default.Blocking.createLoggingEvent host.env socket with
    | .error e => ⟨.error e, []⟩
    | .ok none => ⟨.ok (), []⟩
    | .ok (some (event, socket)) =>
      match callAppenders host event with
      | .error e => ⟨.error e, []⟩
      | .ok logged => (readLoop host fuel socket).after logged.toList

/-- `runClient` with blocking reads. -/
def runClientBlocking (host : Host) (socket : Segments) : Served :=
  match Default.Blocking.readStart host.env socket with
  | .error .unread => ⟨.ok (), []⟩
  | .error (.terminate e) => ⟨.error e, []⟩
  | .ok socket => readLoop host (socket.flatten.length + 1) socket

end LogSocket.SocketServer
