import LogSocket.Lib.Calls
import LogSocket.Client

/-! What the three event servers share: their calls of the operating system, on a POSIX build, and
the branches about one client's socket. The calls of `Client::forceLog`, with all that they did,
stand in the trace of a run among the system calls. -/

namespace LogSocket

open Lib

abbrev Socket := Int

def INVALID_SOCKET : Socket := -1

def SOMAXCONN : Nat := 4096

def DEFAULT_BUFFER_LEN : Nat := 8192

/-- What `recv` returns, with `getError` where that is negative. -/
inductive Received
  | wouldBlock
  | failed
  /-- No bytes at all mean that the peer has closed. -/
  | bytes (data : List UInt8)
  deriving DecidableEq

/-- What `epoll_wait` returns, with `errno` where that is negative. -/
inductive Waited
  | interrupted
  | failed
  | events (fds : List Socket)
  deriving DecidableEq

inductive Request
  | socket
  | setReuseAddr (socket : Socket)
  | setTcpNodelay (socket : Socket)
  | setNonblock (socket : Socket)
  | bind (socket : Socket) (port : Int)
  | listen (socket : Socket) (backlog : Nat)
  | accept (socket : Socket)
  | recv (socket : Socket) (size : Nat)
  | getTotalReadBytes (socket : Socket)
  | closesocket (socket : Socket)
  | poll (fds : List Socket)
  | select (nfds : Int) (fds : List Socket)
  | epollCreate (size : Nat)
  | epollCtlAdd (epollFd : Int) (socket : Socket) (edgeTrigger : Bool)
  | epollCtlDel (epollFd : Int) (socket : Socket)
  | epollWait (epollFd : Int)
  | close (epollFd : Int)
  /-- What a call of `forceLog` did for the client of a socket. -/
  | forceLog (socket : Socket) (call : Call)
  /-- An exception that nothing catches, or a call that does not return. -/
  | terminate (e : Fail)

/-- `poll` answers with a count and the `revents` of each entry, `select` with a count and the
sockets that are left in the set, and `getTotalReadBytes` with a result and the number of bytes. -/
@[reducible] def Request.Answer : Request → Type
  | .socket | .setReuseAddr _ | .setTcpNodelay _ | .setNonblock _ | .bind _ _ | .listen _ _ => Int
  | .accept _ => Socket
  | .recv _ _ => Received
  | .getTotalReadBytes _ => Int × Int
  | .poll _ => Int × (Nat → UInt16)
  | .select _ _ => Int × List Socket
  | .epollCreate _ | .epollCtlAdd _ _ _ => Int
  | .epollWait _ => Waited
  | .closesocket _ | .epollCtlDel _ _ | .close _ | .forceLog _ _ => Unit
  | .terminate _ => Empty

abbrev Server := Calls Request Request.Answer

def request (o : Request) : Server o.Answer := .ask _ o

def terminate {α : Type} (e : Fail) : Server α := .call (.terminate e) nofun

abbrev Clients := SortedMap Socket Client

/-- The calls that make a socket a listening one, up to the first that fails. -/
def setUp (serverSocket : Socket) (port : Int) (backlog : Nat) : Server Bool := do
  if (← request (.setReuseAddr serverSocket)) < 0 then return false
  if (← request (.setTcpNodelay serverSocket)) < 0 then return false
  if (← request (.setNonblock serverSocket)) < 0 then return false
  if (← request (.bind serverSocket port)) < 0 then return false
  if (← request (.listen serverSocket backlog)) < 0 then return false
  return true

/-- `accept` and `setNonblock`: the socket of a new client, if both succeed. -/
def acceptClient (serverSocket : Socket) : Server (Option Socket) := do
  let clientSocket ← request (.accept serverSocket)
  if clientSocket < 0 then return none
  if (← request (.setNonblock clientSocket)) < 0 then
    request (.closesocket clientSocket)
    return none
  return some clientSocket

/-- A client's socket is closed, by the calls `drop`, and its entry erased. -/
def evict (drop : Socket → Server Unit) (clientSocket : Socket) (clientSockets : Clients) :
    Server (Bool × Clients) := do
  drop clientSocket
  return (true, clientSockets.erase clientSocket)

/-- The branches about a client's socket that is ready: whether it was closed, and the clients.
`heeds` is whether the result of `forceLog` is looked at. -/
def receive (host : Host) (heeds : Bool) (drop : Socket → Server Unit) (size : Nat)
    (clientSocket : Socket) (clientSockets : Clients) : Server (Bool × Clients) := do
  match ← request (.recv clientSocket size) with
  | .wouldBlock => return (false, clientSockets)
  | .failed | .bytes [] => evict drop clientSocket clientSockets
  | .bytes data =>
    match clientSockets.find? clientSocket with
    | none => return (false, clientSockets)
    | some client =>
      let call := client.forceLog host data
      request (.forceLog clientSocket call)
      match call.verdict with
      | .error e => terminate e
      | .ok goesOn =>
        if heeds && !goesOn then evict drop clientSocket clientSockets
        else return (false, clientSockets.insert clientSocket call.client)

def closeAll : List Socket → Server Unit
  | [] => return
  | socket :: sockets => do
    request (.closesocket socket)
    closeAll sockets

/-- The clean-up of a server. A hash table is gone through in this order here, though in the code
the order is not specified. -/
def cleanUp (serverSocket : Socket) (clientSockets : Clients) : Server Unit := do
  closeAll (clientSockets.entries.map (·.1))
  request (.closesocket serverSocket)

end LogSocket
