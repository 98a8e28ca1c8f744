import LogSocket.ObjectOutputStream

/-! The client: `SocketAppender`, which writes its events to an `ObjectOutputStream` over a socket, and
`SocketAppenderSkeleton`, which connects and would connect again. The bytes that an
`ObjectOutputStream` has written wait in the array of the `SocketOutputStream` below it until they
are flushed. -/

namespace LogSocket

/-- What a call of `apr_socket_send` does: how many bytes it takes, and whether it succeeds. -/
structure Send where
  written : Nat
  success : Bool

/-- How far the loop of `Socket::write` has come: to the end of the buffer, to an exception, or into a
call of `apr_socket_send` that has not returned. -/
inductive Progress
  | done
  | thrown
  | waiting
  deriving DecidableEq

/-- `Socket::write(buf)`: the bytes that leave. -/
def socketWrite : List UInt8 → List Send → List UInt8 × Progress
  | [], _ => ([], .done)
  | _ :: _, [] => ([], .waiting)
  | byte :: bytes, send :: sends =>
    let buf := byte :: bytes
    if send.success then
      let (sent, progress) := socketWrite (buf.drop send.written) sends
      (buf.take send.written ++ sent, progress)
    else (buf.take send.written, .thrown)

/-- A connected socket, with the bytes that it has taken. Once a send has failed it takes no more. -/
structure Wire where
  sent : List UInt8
  broken : Bool
  deriving DecidableEq

def Wire.write (wire : Wire) (buf : List UInt8) (sends : List Send) : Wire × Progress :=
  if wire.broken then (wire, if buf = [] then .done else .thrown)
  else
    let (sent, progress) := socketWrite buf sends
    (⟨wire.sent ++ sent, progress = .thrown⟩, progress)

/-- A `Thread`, which is null until it is run and is not again when it has ended. -/
inductive ThreadState
  | null
  | running
  | ended
  deriving DecidableEq

/-- `SocketAppender`. The stream `oos`, where there is one, leads to the socket that was connected last,
the first of `wires`. A call that waits holds the mutex. -/
structure SocketAppender where
  address : Bool
  reconnectionDelay : Int32
  closed : Bool
  thread : ThreadState
  oos : Option ObjectOutputStream
  wires : List Wire
  waits : Bool

namespace SocketAppender

/-- `SocketOutputStream::flush`, of a stream to the first of `wires`. -/
def flush (wires : List Wire) (oos : ObjectOutputStream) (sends : List Send) :
    List Wire × ObjectOutputStream × Progress :=
  match wires with
  | [] => ([], oos, .done)
  | wire :: wires =>
    let (wire, progress) := wire.write oos.written sends
    (wire :: wires, if progress = .done then { oos with written := [] } else oos, progress)

/-- `thread.run(monitor, this)`, which throws where there is a thread. -/
def runThread (self : SocketAppender) : Option SocketAppender :=
  if self.thread ≠ .null then none else some { self with thread := .running }

/-- `fireConnector`, which runs the thread if it `isActive`. -/
def fireConnector (self : SocketAppender) : Option SocketAppender :=
  if self.thread ≠ .null then self.runThread else some self

/-- `setSocket` with a new socket. -/
def setSocket (self : SocketAppender) : SocketAppender :=
  { self with oos := some .new, wires := ⟨[], false⟩ :: self.wires }

/-- `cleanUp`: a stream that cannot be closed is kept. -/
def cleanUp (self : SocketAppender) (sends : List Send) (closes : Bool) : SocketAppender :=
  match self.oos with
  | none => self
  | some oos =>
    let (wires, oos, progress) := flush self.wires oos sends
    match progress with
    | .waiting => { self with wires, oos := some oos, waits := true }
    | .thrown => { self with wires, oos := some oos }
    | .done => { self with wires, oos := if closes then none else some oos }

/-- What happens to an appender. `sends` says what the calls of `apr_socket_send` do, `closes` whether
`apr_socket_close` succeeds and `connects` whether a new socket is connected. -/
inductive Op
  | activateOptions (sends : List Send) (closes connects : Bool)
  | append (event : ClientEvent) (sends : List Send)
  | close (sends : List Send) (closes : Bool)
  /-- A turn of the loop of `monitor`, in the thread. -/
  | monitor (connects : Bool)

/-- `connect`, the last that `activateOptions` does -/
def connect (self : SocketAppender) (sends : List Send) (closes connects : Bool) :
    Option SocketAppender :=
  if self.address then
    let self := self.cleanUp sends closes
    if self.waits then some self
    else if connects then some self.setSocket else self.fireConnector
  else some self

/-- `doAppend(event)` of an event that passes the threshold and the filters. -/
def append (self : SocketAppender) (event : ClientEvent) (sends : List Send) :
    Option SocketAppender :=
  if self.closed then some self
  else
    match self.oos with
    | none => some self
    | some oos =>
      let (wires, oos, progress) := flush self.wires (event.write oos) sends
      match progress with
      | .waiting => some { self with wires, oos := some oos, waits := true }
      | .done => some { self with wires, oos := some oos }
      | .thrown =>
        let self := { self with wires, oos := none }
        if 0 < self.reconnectionDelay then self.fireConnector else some self

def close (self : SocketAppender) (sends : List Send) (closes : Bool) : SocketAppender :=
  if self.closed then self else { self with closed := true }.cleanUp sends closes

def monitor (self : SocketAppender) (connects : Bool) : SocketAppender :=
  if self.closed then { self with thread := .ended }
  else if connects then { self.setSocket with thread := .ended } else self

/-- A step, or none where an exception leaves the appender. -/
def step (self : SocketAppender) (op : Op) : Option SocketAppender :=
  if self.waits then some self
  else
    match op with
    | .activateOptions sends closes connects => self.connect sends closes connects
    | .append event sends => self.append event sends
    | .close sends closes => some (self.close sends closes)
    | .monitor connects => some (if self.thread = .running then self.monitor connects else self)

def run (self : SocketAppender) (ops : List Op) : Option SocketAppender := ops.foldlM step self

/-- `SocketAppender()` with its options set. -/
def new (address : Bool) (reconnectionDelay : Int32) : SocketAppender :=
  ⟨address, reconnectionDelay, false, .null, none, [], false⟩

/-- The events that a run is given. -/
def Op.events : Op → List ClientEvent
  | .append event _ => [event]
  | .activateOptions _ _ _ | .close _ _ | .monitor _ => []

end SocketAppender

end LogSocket
