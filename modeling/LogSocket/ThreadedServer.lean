import LogSocket.Lib.Threads
import LogSocket.Server
import LogSocket.SocketServer

/-! `log4cxxSocketServer` with its threads: `runServer` accepts clients and starts a thread for each,
whose `runClient` receives from the client's socket, logs its events and closes the socket. An
exception that leaves a thread ends the program. The threads share the repository of loggers, whose
lock a thread keeps for ever where `getLogger` does not return. -/

namespace LogSocket.ThreadedServer

open Lib SocketServer

/-- The calls of a thread. Those of `callAppenders` stand among its calls of the system. -/
inductive Request
  | socket
  | setReuseAddr (socket : Socket)
  | setTcpNodelay (socket : Socket)
  | bind (socket : Socket) (port : Int)
  | listen (socket : Socket) (backlog : Nat)
  | accept (socket : Socket)
  /-- `std::thread clientThread(runClient, …)` and `detach` -/
  | thread (clientSocket : Socket)
  | recv (socket : Socket) (size : Nat)
  /-- The `synchronized` of `Logger::getLogger` -/
  | lock
  /-- The rest of `Logger::getLogger(name)`, which gives the lock back, and `getEffectiveLevel()` -/
  | getEffectiveLevel (name : LogString)
  | callAppenders (event : LoggingEvent)
  | closesocket (socket : Socket)
  /-- An exception that nothing catches, or, with `hang`, a loop that does not end. -/
  | terminate (e : Fail)

/-- `recv` answers with no bytes where it returns nothing positive, and `thread` with whether a thread
could be started. -/
@[reducible] def Request.Answer : Request → Type
  | .socket | .setReuseAddr _ | .setTcpNodelay _ | .bind _ _ | .listen _ _ => Int
  | .accept _ => Socket
  | .thread _ => Bool
  | .recv _ _ => List UInt8
  | .getEffectiveLevel _ => Int
  | .lock | .callAppenders _ | .closesocket _ => Unit
  | .terminate _ => Empty

abbrev Program := Calls Request Request.Answer

def request (o : Request) : Program o.Answer := .ask _ o

def terminate {α : Type} (e : Fail) : Program α := .call (.terminate e) nofun

/-- The calls that make a socket a listening one, up to the first that fails. -/
def setUp (serverSocket : Socket) (port : Int) : Program Bool := do
  if (← request (.setReuseAddr serverSocket)) < 0 then return false
  if (← request (.setTcpNodelay serverSocket)) < 0 then return false
  if (← request (.bind serverSocket port)) < 0 then return false
  if (← request (.listen serverSocket 5)) < 0 then return false
  return true

/-- A turn of the loop of `runServer`, which goes on or leaves. -/
def acceptTurn (serverSocket : Socket) (_ : Unit) : Program (Unit ⊕ Unit) := do
  let clientSocket ← request (.accept serverSocket)
  if clientSocket < 0 then return .inr ()
  if ← request (.thread clientSocket) then return .inl ()
  else terminate .abort

/-- `runServer`: whether it has returned after at most the given number of turns. -/
def runServer (port : Int) (turns : Nat) : Program Bool := do
  let serverSocket ← request .socket
  if serverSocket = INVALID_SOCKET then return true
  if ← setUp serverSocket port then
    match ← Calls.loop (acceptTurn serverSocket) turns () with
    | .inl _ => return false
    | .inr _ =>
      request (.closesocket serverSocket)
      return true
  else
    request (.closesocket serverSocket)
    return true

/-- The loop that reads the four bytes of the start flag, at least one a turn. -/
def collect (clientSocket : Socket) : Nat → List UInt8 → Program (Option (List UInt8))
  | 0, recvBuf => return some recvBuf
  | turns + 1, recvBuf => do
    if recvBuf.length < 4 then
      let bytes ← request (.recv clientSocket (4 - recvBuf.length))
      if bytes = [] then return none
      collect clientSocket turns (recvBuf ++ bytes)
    else return some recvBuf

/-- The `forceLog` of `runClient`, for `fuel` turns: what it returns and the bytes that are left. -/
def forceLog (host : Host) : Nat → ByteBuf → Program (Except Fail Bool × ByteBuf)
  | 0, byteBuf => return (.error .hang, byteBuf)
  | fuel + 1, byteBuf =>
    if byteBuf.bytes = [] then return (.ok true, byteBuf)
    else
      match Default.createLoggingEvent host.env byteBuf with
      | (.ok event, rest) => do
        request .lock
        let level ← request (.getEffectiveLevel event.logger)
        if level ≤ event.level.toInt then request (.callAppenders event)
        forceLog host fuel rest
      | (.error e, rest) => return (e.caughtInLoop, rest)

/-- A turn of the loop of `runClient`, which goes on with what is left of the bytes, or leaves. -/
def recvTurn (host : Host) (clientSocket : Socket) (byteBuf : ByteBuf) :
    Program (ByteBuf ⊕ Unit) := do
  let bytes ← request (.recv clientSocket BUF_LEN)
  if bytes = [] then return .inr ()
  match byteBuf.insert bytes with
  | .error e => terminate e
  | .ok byteBuf =>
    match ← forceLog host (byteBuf.bytes.length + 1) byteBuf with
    | (.ok true, rest) => return .inl rest
    | (.ok false, _) => return .inr ()
    | (.error e, _) => terminate e

/-- `runClient` up to `CLEAN_UP`: whether it has come there. -/
def serve (host : Host) (clientSocket : Socket) (turns : Nat) : Program Bool := do
  match ← collect clientSocket 4 [] with
  | none => return true
  | some bytes =>
    match Default.readStart host.env (recvBuf bytes) with
    | .ok _ =>
      match ← Calls.loop (recvTurn host clientSocket) turns .empty with
      | .inl _ => return false
      | .inr _ => return true
    | .error (.small _) | .error (.invalid _) => return true
    | .error e => terminate e

/-- `runClient`: whether it has returned. -/
def runClient (host : Host) (clientSocket : Socket) (turns : Nat) : Program Bool := do
  if ← serve host clientSocket turns then
    request (.closesocket clientSocket)
    return true
  else return false

/-- What a thread runs. -/
inductive Role
  | server
  | client (socket : Socket)
  deriving DecidableEq

/-- The sockets that are open, the thread that has the lock of the repository, and the events that were
given to appenders, each with the number of its thread. -/
structure System where
  opens : Set Socket
  holder : Option Nat
  log : List (Nat × LoggingEvent)

/-- What the system answers: no number of an open socket is given again, `recv` returns no more than
there is room for, the lock is given to one thread at a time, and a logger is found or `getLogger`
does not return. -/
inductive Answers (host : Host) (thread : Nat) (k : System) :
    (o : Request) → o.Answer → System → Prop
  | socketFails : Answers host thread k .socket INVALID_SOCKET k
  | socket {s : Socket} : 0 ≤ s → s ∉ k.opens →
      Answers host thread k .socket s { k with opens := insert s k.opens }
  | setReuseAddr {s : Socket} {result : Int} : Answers host thread k (.setReuseAddr s) result k
  | setTcpNodelay {s : Socket} {result : Int} : Answers host thread k (.setTcpNodelay s) result k
  | bind {s : Socket} {port result : Int} : Answers host thread k (.bind s port) result k
  | listen {s : Socket} {backlog : Nat} {result : Int} :
      Answers host thread k (.listen s backlog) result k
  | acceptFails {s client : Socket} : client < 0 → Answers host thread k (.accept s) client k
  | accept {s client : Socket} : 0 ≤ client → client ∉ k.opens →
      Answers host thread k (.accept s) client { k with opens := insert client k.opens }
  | thread {s : Socket} {started : Bool} : Answers host thread k (.thread s) started k
  | recv {s : Socket} {size : Nat} {bytes : List UInt8} : bytes.length ≤ size →
      Answers host thread k (.recv s size) bytes k
  | lock : k.holder = none → Answers host thread k .lock () { k with holder := some thread }
  | getEffectiveLevel {name : LogString} {level : Int} : k.holder = some thread →
      host.effectiveLevel name = some level →
      Answers host thread k (.getEffectiveLevel name) level { k with holder := none }
  | callAppenders {event : LoggingEvent} :
      Answers host thread k (.callAppenders event) () { k with log := k.log ++ [(thread, event)] }
  | closesocket {s : Socket} :
      Answers host thread k (.closesocket s) () { k with opens := k.opens \ {s} }

/-- The thread that a call starts. -/
def starts : (o : Request) → o.Answer → Option Role
  | .thread clientSocket, true => some (.client clientSocket)
  | _, _ => none

/-- The program, whose loops take at most `turns` turns. -/
def process (host : Host) (port : Int) (turns : Nat) :
    Process System Role Request Request.Answer Bool where
  program
    | .server => runServer port turns
    | .client socket => runClient host socket turns
  answers := Answers host
  starts := starts
  fatal o := ∃ e, o = .terminate e ∧ e ≠ .hang

/-- A state that the server can come to. -/
def Reachable (host : Host) (port : Int) (turns : Nat)
    (pool : Pool System Role Request Request.Answer Bool) : Prop :=
  (process host port turns).Reachable .server ⟨∅, none, []⟩ pool

end LogSocket.ThreadedServer
