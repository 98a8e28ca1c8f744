import LogSocket.Server

/-! The three event servers: `runServer` of `log4cxxPollSocketServer`, `log4cxxSelectSocketServer` and
`log4cxxEpollSocketServer`, on POSIX. Each makes at most a given number of passes of its
`while (true)` loop: what it ends with is its state at the head of the loop, or nothing once it has
left the loop and cleaned up. -/

namespace LogSocket

open Lib

namespace Poll

/-- An entry whose `events` are `POLLIN`. -/
structure Pollfd where
  fd : Socket
  revents : UInt16

structure State where
  pollfds : List Pollfd
  clientSockets : Clients

def POLLIN : UInt16 := 0x001

def isReadSet (fd : Pollfd) : Bool := fd.revents &&& POLLIN != 0

def addPollfd (socket : Socket) (s : State) : State where
  pollfds := if s.pollfds.any (·.fd = socket) then s.pollfds else s.pollfds ++ [⟨socket, 0⟩]
  clientSockets := s.clientSockets.emplace socket .new

def drop (clientSocket : Socket) : Server Unit := request (.closesocket clientSocket)

/-- The `while` loop from an entry of `pollfds` on: the entries that are kept, and the clients. -/
def serveClients (host : Host) : List Pollfd → Clients → Server (List Pollfd × Clients)
  | [], clientSockets => return ([], clientSockets)
  | it :: rest, clientSockets => do
    if isReadSet it then
      let (closed, clientSockets) ←
        receive host true drop DEFAULT_BUFFER_LEN it.fd clientSockets
      let (kept, clientSockets) ← serveClients host rest clientSockets
      return (if closed then kept else it :: kept, clientSockets)
    else
      let (kept, clientSockets) ← serveClients host rest clientSockets
      return (it :: kept, clientSockets)

/-- A pass of the loop, which goes on or leaves. -/
def pass (host : Host) (serverSocket : Socket) (s : State) : Server (State ⊕ State) := do
  let (eventCount, revents) ← request (.poll (s.pollfds.map (·.fd)))
  if eventCount ≤ 0 then return .inr s
  match s.pollfds.mapIdx fun i it => { it with revents := revents i } with
  | [] => terminate .fault
  | listening :: rest =>
    let (kept, clientSockets) ← serveClients host rest s.clientSockets
    let s : State := ⟨listening :: kept, clientSockets⟩
    if isReadSet listening then
      match ← acceptClient serverSocket with
      | none => return .inl s
      | some clientSocket => return .inl (addPollfd clientSocket s)
    else return .inl s

def runServer (host : Host) (port : Int) (passes : Nat) : Server (Option State) := do
  let serverSocket ← request .socket
  if serverSocket = INVALID_SOCKET then return none
  if ← setUp serverSocket port SOMAXCONN then
    match ← (Calls.loop (pass host serverSocket) passes (addPollfd serverSocket ⟨[], .empty⟩)) with
    | .inl s => return some s
    | .inr s =>
      cleanUp serverSocket s.clientSockets
      return none
  else
    cleanUp serverSocket .empty
    return none

end Poll

namespace Select

def FD_SETSIZE : Int := 1024

/-- The arguments of `FD_SET`, one after the other. A socket that is no bit of an `fd_set` is written
outside of it. -/
def FD_SET : List Socket → Server Unit
  | [] => return
  | socket :: sockets =>
    if 0 ≤ socket ∧ socket < FD_SETSIZE then FD_SET sockets else terminate .fault

def getMaxId (serverSocket : Socket) (clientSockets : List Socket) : Int :=
  match clientSockets.getLast? with
  | none => serverSocket
  | some last => max serverSocket last

def drop (clientSocket : Socket) : Server Unit := request (.closesocket clientSocket)

/-- The `while` loop from an entry of `clientSockets` on. `it` is what `receive` finds. -/
def serveClients (host : Host) (fds : List Socket) : List Socket → Clients → Server Clients
  | [], clientSockets => return clientSockets
  | clientSocket :: rest, clientSockets => do
    if clientSocket ∈ fds then
      let (_, clientSockets) ←
        receive host true drop DEFAULT_BUFFER_LEN clientSocket clientSockets
      serveClients host fds rest clientSockets
    else serveClients host fds rest clientSockets

/-- A pass of the loop, which goes on or leaves. -/
def pass (host : Host) (serverSocket : Socket) (clientSockets : Clients) :
    Server (Clients ⊕ Clients) := do
  let sockets := clientSockets.entries.map (·.1)
  FD_SET (serverSocket :: sockets)
  let maxId := getMaxId serverSocket sockets
  let (eventCount, fds) ← request (.select (maxId + 1) (serverSocket :: sockets))
  if eventCount ≤ 0 then return .inr clientSockets
  let clientSockets ← serveClients host fds sockets clientSockets
  if serverSocket ∈ fds then
    match ← acceptClient serverSocket with
    | none => return .inl clientSockets
    | some clientSocket => return .inl (clientSockets.emplace clientSocket .new)
  else return .inl clientSockets

def runServer (host : Host) (port : Int) (passes : Nat) : Server (Option Clients) := do
  let serverSocket ← request .socket
  if serverSocket = INVALID_SOCKET then return none
  if ← setUp serverSocket port SOMAXCONN then
    match ← (Calls.loop (pass host serverSocket) passes .empty) with
    | .inl clientSockets => return some clientSockets
    | .inr clientSockets =>
      cleanUp serverSocket clientSockets
      return none
  else
    cleanUp serverSocket .empty
    return none

end Select

namespace Epoll

def LISTEN_BACKLOG : Nat := 15

/-- `epoll_ctl_del`, but for the entry of the client. -/
def drop (epollFd : Int) (clientSocket : Socket) : Server Unit := do
  request (.epollCtlDel epollFd clientSocket)
  request (.closesocket clientSocket)

/-- An event of the listening socket. -/
def acceptOne (epollFd : Int) (edgeTrigger : Bool) (serverSocket : Socket)
    (clientSockets : Clients) : Server Clients := do
  match ← acceptClient serverSocket with
  | none => return clientSockets
  | some clientSocket =>
    if (← request (.epollCtlAdd epollFd clientSocket edgeTrigger)) < 0 then
      request (.closesocket clientSocket)
      return clientSockets
    return clientSockets.emplace clientSocket .new

/-- An event of a client's socket. With `EDGE_TRIGGER`, the buffer is as large as what can be read. -/
def serveClient (host : Host) (epollFd : Int) (edgeTrigger : Bool) (clientSocket : Socket)
    (clientSockets : Clients) : Server (Bool × Clients) := do
  if edgeTrigger then
    let (ioResult, readBytes) ← request (.getTotalReadBytes clientSocket)
    if ioResult < 0 then evict (drop epollFd) clientSocket clientSockets
    else
      let size := (max readBytes 1).toNat
      match host.env.alloc size.toUInt64 with
      | .error e => terminate e
      | .ok () => receive host false (drop epollFd) size clientSocket clientSockets
  else receive host false (drop epollFd) DEFAULT_BUFFER_LEN clientSocket clientSockets

/-- The `for` loop over the events. -/
def serve (host : Host) (epollFd : Int) (edgeTrigger : Bool) (serverSocket : Socket) :
    List Socket → Clients → Server Clients
  | [], clientSockets => return clientSockets
  | fd :: fds, clientSockets => do
    if fd = serverSocket then
      let clientSockets ← acceptOne epollFd edgeTrigger serverSocket clientSockets
      serve host epollFd edgeTrigger serverSocket fds clientSockets
    else
      let (_, clientSockets) ← serveClient host epollFd edgeTrigger fd clientSockets
      serve host epollFd edgeTrigger serverSocket fds clientSockets

/-- A pass of the loop, which goes on or leaves. -/
def pass (host : Host) (epollFd : Int) (edgeTrigger : Bool) (serverSocket : Socket)
    (clientSockets : Clients) : Server (Clients ⊕ Clients) := do
  match ← request (.epollWait epollFd) with
  | .interrupted => return .inl clientSockets
  | .failed => return .inr clientSockets
  | .events fds =>
    let clientSockets ← serve host epollFd edgeTrigger serverSocket fds clientSockets
    return .inl clientSockets

def runServer (host : Host) (edgeTrigger : Bool) (port : Int) (passes : Nat) :
    Server (Option Clients) := do
  let serverSocket ← request .socket
  if serverSocket < 0 then return none
  if ← setUp serverSocket port LISTEN_BACKLOG then
    let epollFd ← request (.epollCreate 1024)
    if epollFd < 0 then
      request (.closesocket serverSocket)
      return none
    if (← request (.epollCtlAdd epollFd serverSocket edgeTrigger)) < 0 then
      request (.closesocket serverSocket)
      request (.close epollFd)
      return none
    match ← (Calls.loop (pass host epollFd edgeTrigger serverSocket) passes .empty) with
    | .inl clientSockets => return some clientSockets
    | .inr clientSockets =>
      cleanUp serverSocket clientSockets
      request (.close epollFd)
      return none
  else
    request (.closesocket serverSocket)
    return none

end Epoll

/-- The event servers, `epoll` with and without `EDGE_TRIGGER`. -/
inductive EventServer
  | poll
  | select
  | epoll (edgeTrigger : Bool)
  deriving DecidableEq

/-- A server's run, with the clients at the head of its loop. -/
def EventServer.runServer (host : Host) (port : Int) (passes : Nat) :
    EventServer → Server (Option Clients)
  | .poll => do
    let s ← Poll.runServer host port passes
    return s.map (·.clientSockets)
  | .select => Select.runServer host port passes
  | .epoll edgeTrigger => Epoll.runServer host edgeTrigger port passes

end LogSocket
