import LogSocket.DefaultLoader
import LogSocket.BytesLoader
import LogSocket.MsgpackLoader

/-! The choice of a loader by the start flag of a stream, and `Client::forceLog`, which collects the
bytes of a connection and gives every event in them to the appenders. -/

namespace LogSocket

inductive Protocol
  | default
  | bytes
  | msgpack
  deriving DecidableEq, Repr

/-- The `first` of an entry of `sloggingEventFuncs`. -/
def Protocol.readStart (host : Host) : Protocol → ByteBuf → Except Fail UInt64
  | .default => Default.readStart host.env
  | .bytes => Bytes.readStart host.env
  | .msgpack => Msgpack.readStart host.env

/-- The `second` of an entry of `sloggingEventFuncs`. -/
def Protocol.createLoggingEvent (host : Host) : Protocol → LoggingEventFunc
  | .default => Default.createLoggingEvent host.env
  | .bytes => Bytes.createLoggingEvent host.env
  | .msgpack => Msgpack.createLoggingEvent host

def sloggingEventFuncs : List Protocol := [.default, .bytes, .msgpack]

/-- The `for` loop of `createLoggingEventFunc`. -/
def tryLoggingEventFuncs (host : Host) :
    List Protocol → ByteBuf → Except Fail (Option Protocol) × ByteBuf
  | [], byteBuf => (.ok none, byteBuf)
  | protocol :: protocols, byteBuf =>
    match protocol.readStart host byteBuf with
    | .ok readBytes =>
      match byteBuf.erase readBytes with
      | .ok rest => (.ok (some protocol), rest)
      | .error e => (.error e, byteBuf)
    | .error (.invalid _) => tryLoggingEventFuncs host protocols byteBuf
    | .error e => (.error e, byteBuf)

def createLoggingEventFunc (host : Host) (byteBuf : ByteBuf) :
    Except Fail (Option Protocol) × ByteBuf :=
  tryLoggingEventFuncs host sloggingEventFuncs byteBuf

/-- `Client`, without the socket by which a server finds it. -/
structure Client where
  loggingFunc : Option Protocol
  byteBuf : ByteBuf
  deriving DecidableEq

def Client.new : Client := ⟨none, .empty⟩

/-- What a call of `forceLog` returns, what it leaves and the events that it gave to appenders. -/
structure Call where
  verdict : Except Fail Bool
  client : Client
  events : List LoggingEvent

/-- The event, if it passes the level of its logger. A call for the logger may never return. -/
def callAppenders (host : Host) (event : LoggingEvent) : Except Fail (Option LoggingEvent) :=
  match host.effectiveLevel event.logger with
  | none => throw .hang
  | some level => pure (if level ≤ event.level.toInt then some event else none)

/-- The `catch` clauses around `createLoggingEventFunc`. -/
def Fail.caughtAtStart : Fail → Except Fail Bool
  | .small _ => .ok true
  | .invalid _ | .badAlloc | .outOfRange => .ok false
  | e => .error e

/-- The `catch` clauses in the `while` loop. -/
def Fail.caughtInLoop : Fail → Except Fail Bool
  | .small _ => .ok true
  | .invalid _ => .ok false
  | e => .error e

/-- The `while (!m_ByteBuf.empty())` loop of `forceLog`, for `fuel` turns. -/
def decode (host : Host) (protocol : Protocol) : Nat → ByteBuf → Call
  | 0, byteBuf => ⟨.error .hang, ⟨some protocol, byteBuf⟩, []⟩
  | fuel + 1, byteBuf =>
    if byteBuf.bytes = [] then ⟨.ok true, ⟨some protocol, byteBuf⟩, []⟩
    else
      match protocol.createLoggingEvent host byteBuf with
      | (.ok event, rest) =>
        match callAppenders host event with
        | .ok logged =>
          let call := decode host protocol fuel rest
          { call with events := logged.toList ++ call.events }
        | .error e => ⟨e.caughtInLoop, ⟨some protocol, rest⟩, []⟩
      | (.error e, rest) => ⟨e.caughtInLoop, ⟨some protocol, rest⟩, []⟩

/-- `Client::forceLog(bytes, size)` -/
def Client.forceLog (host : Host) (client : Client) (bytes : List UInt8) : Call :=
  match client.byteBuf.insert bytes with
  | .error e => ⟨.error e, client, []⟩
  | .ok byteBuf =>
    match client.loggingFunc with
    | some protocol => decode host protocol (byteBuf.bytes.length + 1) byteBuf
    | none =>
      match createLoggingEventFunc host byteBuf with
      | (.ok (some protocol), rest) => decode host protocol (rest.bytes.length + 1) rest
      | (.ok none, rest) => ⟨.ok false, ⟨none, rest⟩, []⟩
      | (.error e, rest) => ⟨e.caughtAtStart, ⟨none, rest⟩, []⟩

/-- What the repository makes of an event, or that it never returns. -/
theorem callAppenders_cases (host : Host) (event : LoggingEvent) :
    (∃ level, host.effectiveLevel event.logger = some level ∧ callAppenders host event =
      .ok (if level ≤ event.level.toInt then some event else none)) ∨
    host.effectiveLevel event.logger = none ∧ callAppenders host event = .error .hang := by
  unfold callAppenders
  cases host.effectiveLevel event.logger with
  | none => exact .inr ⟨rfl, rfl⟩
  | some level => exact .inl ⟨level, rfl, rfl⟩

theorem callAppenders_error {host : Host} {event : LoggingEvent} {e : Fail}
    (h : callAppenders host event = .error e) : e = .hang := by
  obtain ⟨level, -, hOk⟩ | ⟨-, hHang⟩ := callAppenders_cases host event
  · cases hOk.symm.trans h
  · exact (Except.error.inj (hHang.symm.trans h)).symm

/-- The chunks of a connection, one call after the other, until a call does not return `true`. -/
def Client.forceLogAll (host : Host) (client : Client) : List (List UInt8) → Call
  | [] => ⟨.ok true, client, []⟩
  | chunk :: chunks =>
    let call := client.forceLog host chunk
    match call.verdict with
    | .ok true =>
      let rest := call.client.forceLogAll host chunks
      { rest with events := call.events ++ rest.events }
    | _ => call

end LogSocket
