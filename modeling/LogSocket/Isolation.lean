import LogSocket.Lib.Rely
import LogSocket.Connection
import LogSocket.Discipline

/-! Isolation of the clients of an event server: what is delivered on account of a connection depends
on the bytes received on it, whatever happens on others or happened under the same number before. -/

namespace LogSocket

open Lib

/-- What a socket number stands for. -/
inductive Held
  | closed
  | listening
  | connected (connection : Connection)
  deriving DecidableEq

def Held.received (data : List UInt8) : Held → Held
  | .connected connection => .connected ⟨connection.chunks ++ [data], connection.events⟩
  | held => held

def Held.delivered (events : List LoggingEvent) : Held → Held
  | .connected connection => .connected ⟨connection.chunks, connection.events ++ events⟩
  | held => held

/-- The socket of a connection that a call accepted. -/
def accepted : (Σ o : Request, o.Answer) → Option Socket
  | ⟨.accept _, s⟩ => if 0 ≤ s then some s else none
  | _ => none

/-- What the number `socket` stands for after one more call. -/
def Held.after (socket : Socket) (held : Held) : (Σ o : Request, o.Answer) → Held
  | ⟨.socket, s⟩ => if s = socket then .listening else held
  | ⟨.accept _, s⟩ => if s = socket ∧ 0 ≤ s then .connected ⟨[], []⟩ else held
  | ⟨.closesocket s, _⟩ => if s = socket then .closed else held
  | ⟨.recv s _, .bytes (byte :: data)⟩ =>
    if s = socket then held.received (byte :: data) else held
  | ⟨.forceLog s call, _⟩ => if s = socket then held.delivered call.events else held
  | _ => held

/-- What `socket` stands for after the calls of a run. -/
def held (socket : Socket) (past : ServerTrace) : Held := past.foldl (Held.after socket) .closed

@[simp] theorem held_append (socket : Socket) (past : ServerTrace) (e : Σ o : Request, o.Answer) :
    held socket (past ++ [e]) = (held socket past).after socket e := by
  simp [held]

/-- `accept` never returned the number of an open socket. -/
def FreshAccepts (t : ServerTrace) : Prop :=
  ∀ n, (h : n < t.length) → ∀ s ∈ accepted t[n], held s (t.take n) = .closed

instance (t : ServerTrace) : Decidable (FreshAccepts t) :=
  inferInstanceAs (Decidable (∀ n, (h : n < t.length) → ∀ s ∈ accepted t[n], _))

theorem FreshAccepts.before {past more : ServerTrace} (h : FreshAccepts (past ++ more)) :
    FreshAccepts past :=
  Always.before (P := fun past e => ∀ s ∈ accepted e, held s past = .closed) h

/-- The last call did not accept an open socket. -/
theorem FreshAccepts.last {past : ServerTrace} {e : Σ o : Request, o.Answer}
    (h : FreshAccepts (past ++ [e])) {s : Socket} (hs : s ∈ accepted e) :
    held s past = .closed :=
  Always.last (P := fun past e => ∀ s ∈ accepted e, held s past = .closed) h s hs

theorem Held.after_idle {o : Request} (ho : o.Idle) (a : o.Answer) (socket : Socket)
    (held : Held) : held.after socket ⟨o, a⟩ = held := by
  cases o <;> first | rfl | cases ho

/-- Of a connection, the events delivered are those of a client of its own. -/
def Delivered (host : Host) (past : ServerTrace) : Prop :=
  ∀ s connection, held s past = .connected connection →
    connection.events = (connection.fresh host).events

/-- A client is kept for every connection, and serves that one only. The Poll server has an entry
for the listening socket too. -/
def Agrees (host : Host) (server : EventServer) (l s : Socket) : Held → Option Client → Prop
  | .closed, client => client = none
  | .listening, client => s = l ∧ (server = .poll ∨ client = none)
  | .connected connection, client => ∃ c, client = some c ∧ Serves host connection c

def Isolated (host : Host) (server : EventServer) (l : Socket) (clientSockets : Clients)
    (past : ServerTrace) : Prop :=
  FreshAccepts past → ∀ s, Agrees host server l s (held s past) (clientSockets.find? s)

/-- The set-up of a server: its socket is the only one. -/
def Started (l : Socket) (past : ServerTrace) : Prop :=
  held l past = .listening ∧ ∀ s, s ≠ l → held s past = .closed

/-- `s` was accepted and has no client yet. -/
def Entering (host : Host) (server : EventServer) (l s : Socket) (clientSockets : Clients)
    (past : ServerTrace) : Prop :=
  FreshAccepts past → clientSockets.find? s = none ∧ held s past = .connected ⟨[], []⟩ ∧
    ∀ other, other ≠ s →
      Agrees host server l other (held other past) (clientSockets.find? other)

/-- A call of `forceLog` is made for a connection, and says no to a stream that is to be rejected;
when any other call is made, everything is delivered. -/
def MayCall (host : Host) (past : ServerTrace) (o : Request) : Prop :=
  FreshAccepts past → match o with
    | .forceLog s call => ∃ connection, held s past = .connected connection ∧
      (call.verdict = .ok false → (connection.fresh host).verdict = .ok false)
    | _ => Delivered host past

section

variable {host : Host} {server : EventServer} {l s : Socket} {clientSockets : Clients}
  {past : ServerTrace} {o : Request} {e : Σ o : Request, o.Answer}

theorem Agrees.delivered {connection : Connection} {client : Option Client}
    (h : Agrees host server l s (.connected connection) client) :
    connection.events = (connection.fresh host).events := by
  rcases h with ⟨_, -, hServes⟩
  exact hServes.events

theorem Isolated.delivered (h : Isolated host server l clientSockets past)
    (hFresh : FreshAccepts past) : Delivered host past := by
  intro s connection hHeld
  have hAgrees := h hFresh s
  rw [hHeld] at hAgrees
  exact hAgrees.delivered

theorem Started.delivered (h : Started l past) : Delivered host past := by
  intro s connection hHeld
  by_cases hEq : s = l
  · rw [hEq, h.1] at hHeld
    cases hHeld
  · rw [h.2 s hEq] at hHeld
    cases hHeld

theorem Entering.delivered (h : Entering host server l s clientSockets past)
    (hFresh : FreshAccepts past) : Delivered host past := by
  intro other connection hHeld
  rcases h hFresh with ⟨-, hNew, hOthers⟩
  by_cases hEq : other = s
  · rw [hEq, hNew] at hHeld
    cases hHeld
    rfl
  · have hAgrees := hOthers other hEq
    rw [hHeld] at hAgrees
    exact hAgrees.delivered

theorem mayCall_of_idle (ho : o.Idle) (h : FreshAccepts past → Delivered host past) :
    MayCall host past o := by
  cases o <;> first | exact h | cases ho

/-- A call that no socket is concerned by. -/
theorem Isolated.append (h : Isolated host server l clientSockets past)
    (he : ∀ s, (held s past).after s e = held s past) :
    Isolated host server l clientSockets (past ++ [e]) := by
  intro hFresh s
  rw [held_append, he]
  exact h hFresh.before s

/-- A socket is closed and its entry erased, or was not there. -/
theorem Isolated.closed {clientSockets' : Clients}
    (h : FreshAccepts past → clientSockets'.find? s = none ∧ ∀ other, other ≠ s →
      Agrees host server l other (held other past) (clientSockets'.find? other)) :
    Isolated host server l clientSockets' (past ++ [⟨.closesocket s, ()⟩]) := by
  intro hFresh other
  rcases h hFresh.before with ⟨hNone, hOthers⟩
  rw [held_append]
  by_cases hEq : other = s
  · simp [Held.after, hEq, Agrees, hNone]
  · simp only [Held.after, if_neg (Ne.symm hEq)]
    exact hOthers other hEq

/-- A client that is found serves the connection that a chunk was received on. -/
theorem Isolated.connected {client : Client} (h : Isolated host server l clientSockets past)
    (hFresh : FreshAccepts past) (hListening : server = .poll → s ≠ l)
    (hFind : clientSockets.find? s = some client) :
    ∃ connection, held s past = .connected connection ∧ Serves host connection client := by
  have hAgrees := h hFresh s
  rw [hFind] at hAgrees
  cases hHeld : held s past with
  | closed =>
    rw [hHeld] at hAgrees
    cases hAgrees
  | listening =>
    rw [hHeld] at hAgrees
    rcases hAgrees with ⟨hEq, hPoll | hNone⟩
    · exact absurd hEq (hListening hPoll)
    · cases hNone
  | connected connection =>
    rw [hHeld] at hAgrees
    rcases hAgrees with ⟨_, hSome, hServes⟩
    cases hSome
    exact ⟨connection, rfl, hServes⟩

/-- The call of `forceLog` for a chunk. -/
theorem Isolated.feed (hUnpack : host.UnpackLaws) {client : Client}
    (h : Isolated host server l clientSockets past) (hListening : server = .poll → s ≠ l)
    (hFind : clientSockets.find? s = some client) (size : Nat) (byte : UInt8)
    (data : List UInt8) :
    let call := client.forceLog host (byte :: data)
    let past' := past ++ [⟨.recv s size, .bytes (byte :: data)⟩]
    let past'' := past' ++ [⟨.forceLog s call, ()⟩]
    MayCall host past' (.forceLog s call) ∧ (FreshAccepts past'' → Delivered host past'') ∧
      ∀ goesOn, call.verdict = .ok goesOn →
        Isolated host server l (clientSockets.insert s call.client) past'' := by
  intro call past' past''
  have hHeld (hFresh : FreshAccepts past) : ∃ connection, Serves host connection client ∧
      held s past' = .connected ⟨connection.chunks ++ [byte :: data], connection.events⟩ ∧
      held s past'' = .connected (connection.fed (byte :: data) call) := by
    rcases h.connected hFresh hListening hFind with ⟨connection, hHeld, hServes⟩
    refine ⟨connection, hServes, ?_, ?_⟩
    · rw [held_append, hHeld]
      simp [Held.after, Held.received]
    · rw [held_append, held_append, hHeld]
      simp [Held.after, Held.received, Held.delivered, Connection.fed]
  have hOther {other : Socket} (hne : other ≠ s) : held other past'' = held other past := by
    rw [held_append, held_append]
    simp [Held.after, hne.symm]
  refine ⟨fun hFresh => ?_, fun hFresh other connection hConnected => ?_,
    fun goesOn hVerdict hFresh other => ?_⟩
  · rcases hHeld hFresh.before with ⟨connection, hServes, hReceived, -⟩
    exact ⟨_, hReceived, (hServes.forceLog hUnpack (byte :: data)).2.1⟩
  · rcases hHeld hFresh.before.before with ⟨_, hServes, -, hFed⟩
    by_cases hEq : other = s
    · rw [hEq, hFed] at hConnected
      cases hConnected
      exact (hServes.forceLog hUnpack (byte :: data)).1
    · rw [hOther hEq] at hConnected
      exact h.delivered hFresh.before.before other connection hConnected
  · rcases hHeld hFresh.before.before with ⟨_, hServes, -, hFed⟩
    by_cases hEq : other = s
    · rw [hEq, hFed, SortedMap.find?_insert_self]
      exact ⟨_, rfl, (hServes.forceLog hUnpack (byte :: data)).2.2 goesOn hVerdict⟩
    · rw [hOther hEq, SortedMap.find?_insert_of_ne hEq]
      exact h hFresh.before.before other

end

/-- Every event server isolates its clients. -/
def isolation {host : Host} (hUnpack : host.UnpackLaws) (server : EventServer) :
    Discipline host server where
  may := MayCall host
  starting := Started
  holds := Isolated host server
  entering := Entering host server
  start := by
    refine ⟨fun _ _ _ h => (by cases h), fun l => ?_⟩
    exact ⟨by simp [held, Held.after], fun s hne => by simp [held, Held.after, hne.symm]⟩
  startingIdle h ho := by
    refine ⟨mayCall_of_idle ho fun _ => h.delivered, fun a => ?_⟩
    refine ⟨?_, fun s hne => ?_⟩
    · rw [held_append, Held.after_idle ho, h.1]
    · rw [held_append, Held.after_idle ho, h.2 s hne]
  started {l _} h _ s := by
    by_cases hEq : s = l
    · rw [hEq, h.1]
      exact ⟨rfl, .inr rfl⟩
    · rw [h.2 s hEq]
      rfl
  polls {l _} hPoll h _ s := by
    by_cases hEq : s = l
    · rw [hEq, h.1]
      exact ⟨rfl, .inl hPoll⟩
    · rw [SortedMap.find?_emplace_of_ne hEq, h.2 s hEq]
      rfl
  idle h ho := ⟨mayCall_of_idle ho h.delivered,
    fun a => h.append fun s => Held.after_idle ho a s _⟩
  accept := by
    intro l clientSockets past h
    refine ⟨h.delivered, fun s => ⟨fun hNeg => ?_, fun hPos hFresh => ?_⟩⟩
    · exact h.append fun other => by simp [Held.after, hNeg]
    · have hNone := h hFresh.before s
      rw [hFresh.last (by simp [accepted, hPos])] at hNone
      refine ⟨hNone, by simp [Held.after, hPos], fun other hne => ?_⟩
      simp only [held_append, Held.after, hne.symm, false_and, if_false]
      exact h hFresh.before other
  enteringIdle := by
    intro l s clientSockets past o h ho
    refine ⟨mayCall_of_idle ho h.delivered, fun a hFresh => ?_⟩
    simp only [held_append, Held.after_idle ho]
    exact h hFresh.before
  enter := by
    intro l s clientSockets past h hFresh other
    rcases h hFresh with ⟨hNone, hNew, hOthers⟩
    by_cases hEq : other = s
    · rw [hEq, hNew, SortedMap.emplace_of_none hNone, SortedMap.find?_insert_self]
      exact ⟨_, rfl, .new host⟩
    · rw [SortedMap.find?_emplace_of_ne hEq]
      exact hOthers other hEq
  refuse h := ⟨h.delivered,
    .closed fun hFresh => ⟨(h hFresh).1, (h hFresh).2.2⟩⟩
  drop := by
    intro l s clientSockets past h
    refine ⟨h.delivered, .closed fun hFresh => ?_⟩
    refine ⟨SortedMap.find?_erase_self, fun other hne => ?_⟩
    rw [SortedMap.find?_erase_of_ne hne]
    exact h hFresh other
  recv := by
    intro l s clientSockets past size h _ hListening
    refine ⟨h.delivered, fun received hReceived hFresh other => ?_⟩
    have hAgrees := h hFresh.before other
    rcases received with _ | _ | _ | ⟨byte, data⟩
    · simpa [Held.after] using hAgrees
    · simpa [Held.after] using hAgrees
    · simpa [Held.after] using hAgrees
    · have hNone := hReceived.resolve_right fun h => h byte data rfl
      rw [held_append]
      by_cases hEq : other = s
      · subst hEq
        rw [hNone] at hAgrees ⊢
        cases hHeld : held other past with
        | closed => simp [Held.after, Held.received, Agrees]
        | listening =>
          rw [hHeld] at hAgrees
          simpa [Held.after, Held.received] using hAgrees
        | connected connection =>
          rw [hHeld] at hAgrees
          rcases hAgrees with ⟨_, hSome, -⟩
          cases hSome
      · simpa [Held.after, Ne.symm hEq] using hAgrees
  feed := by
    intro l s clientSockets past client size byte data h hListening hFind
    rcases h.feed hUnpack hListening hFind size byte data with ⟨hMay, hDelivered, hHolds⟩
    refine ⟨hMay, ?_⟩
    split
    next e hVerdict => exact hDelivered
    next goesOn hVerdict =>
      have hNext := hHolds goesOn hVerdict
      split
      · refine ⟨hDelivered, .closed fun hFresh => ?_⟩
        refine ⟨SortedMap.find?_erase_self, fun other hne => ?_⟩
        rw [SortedMap.find?_erase_of_ne hne]
        have hAgrees := hNext hFresh other
        rwa [SortedMap.find?_insert_of_ne hne] at hAgrees
      · exact hNext

/-- The events delivered on account of a connection are those of a new client that is given the
bytes received on it and nothing else, at every moment of every run of every event server. -/
theorem EventServer.delivers {host : Host} (hUnpack : host.UnpackLaws) (server : EventServer)
    (port : Int) (passes : Nat) {t : ServerTrace} {rest : Server (Option Clients)}
    (hRun : Reaches (server.runServer host port passes) t rest) (hFresh : FreshAccepts t)
    (hNext : ∀ s call, rest.next? ≠ some (.forceLog s call)) {s : Socket}
    {connection : Connection} (hHeld : held s t = .connected connection) :
    connection.events = (Client.new.forceLogAll host connection.chunks).events ∧
      (connection.chunks.flatten.length ≤ maxSize →
        connection.events =
          (Client.new.forceLog host connection.chunks.flatten).events) := by
  have hSpec := (runServer_spec (isolation hUnpack server) port passes).reaches hRun
  rw [List.nil_append] at hSpec
  have hEvents : connection.events = (connection.fresh host).events := by
    cases rest with
    | done r =>
      rcases hSpec with ⟨l, clientSockets, hHolds, -⟩
      exact hHolds.delivered hFresh s connection hHeld
    | call o next =>
      have hMay : MayCall host t o := hSpec.1
      cases o with
      | forceLog s call => exact absurd rfl (hNext s call)
      | _ => exact hMay hFresh s connection hHeld
  exact ⟨hEvents, fun hSize => hEvents.trans (connection.fresh_events hUnpack hSize)⟩

/-- The Epoll server is set up with socket 3 and event handle 4. -/
def epollSetUp : ServerTrace := [⟨.socket, 3⟩, ⟨.setReuseAddr 3, 0⟩, ⟨.setTcpNodelay 3, 0⟩,
  ⟨.setNonblock 3, 0⟩, ⟨.bind 3 9988, 0⟩, ⟨.listen 3 15, 0⟩, ⟨.epollCreate 1024, 4⟩,
  ⟨.epollCtlAdd 4 3 false, 0⟩, ⟨.epollWait 4, .events [3]⟩]

/-- It accepts socket 5. -/
def epollAccept : ServerTrace :=
  [⟨.accept 3, 5⟩, ⟨.setNonblock 5, 0⟩, ⟨.epollCtlAdd 4 5 false, 0⟩, ⟨.epollWait 4, .events [5]⟩]

/-- A run of the Epoll server in which a connection is closed by its peer in the middle of a message
and the next one, under the same number, sends a whole session. -/
def reuseTrace : ServerTrace :=
  let half := sampleStream.take 20
  let part := Client.new.forceLog byteHost half
  let whole := Client.new.forceLog byteHost sampleStream
  epollSetUp ++ epollAccept ++
    [⟨.recv 5 8192, .bytes half⟩, ⟨.forceLog 5 part, ()⟩, ⟨.epollWait 4, .events [5, 3]⟩,
      ⟨.recv 5 8192, .bytes []⟩, ⟨.epollCtlDel 4 5, ()⟩, ⟨.closesocket 5, ()⟩] ++ epollAccept ++
    [⟨.recv 5 8192, .bytes sampleStream⟩, ⟨.forceLog 5 whole, ()⟩]

theorem reuseTrace_reaches : ∃ rest, rest.next? = none ∧
    Reaches ((EventServer.epoll false).runServer byteHost 9988 4) reuseTrace rest := by
  refine ⟨?rest, ?next, ?run⟩
  case' run =>
    unfold reuseTrace epollSetUp epollAccept
    refine .call (.call (.call (.call (.call (.call (.call (.call (.call ?_))))))))
    refine .call (.call (.call (.call (.call (.call (.call (.call (.call ?_))))))))
    refine .call (.call (.call (.call (.call (.call (.call ?_))))))
    exact .here
  case next => rfl

theorem EventServer.delivers_reuse :
    let events := (Client.new.forceLog byteHost sampleStream).events
    held 5 reuseTrace = .connected ⟨[sampleStream], events⟩ ∧ events.length = 1 ∧
      events = (Client.new.forceLogAll byteHost [sampleStream]).events := by
  intro events
  have hHeld : held 5 reuseTrace = .connected ⟨[sampleStream], events⟩ := rfl
  refine ⟨hHeld, by decide, ?_⟩
  rcases reuseTrace_reaches with ⟨rest, hNext, hRun⟩
  exact (delivers byteHost_laws (.epoll false) 9988 4 hRun (by decide) (by simp [hNext]) hHeld).1

end LogSocket
