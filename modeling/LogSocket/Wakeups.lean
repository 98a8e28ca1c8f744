import LogSocket.Lib.Surroundings
import LogSocket.EventServers
import LogSocket.Segmentation

/-! The edge-triggered `epoll` server and the kernel under it. A socket becomes pending when something
arrives on it, and `epoll_wait` reports pending sockets once. What a handler leaves on a socket that
is no longer pending waits until something else arrives. -/

namespace LogSocket.Epoll

open Lib Relation

/-- A connection as the kernel holds it. -/
structure Connection where
  unread : List UInt8
  /-- The peer has closed. -/
  closed : Bool
  pending : Bool
  registered : Bool
  deriving DecidableEq

def Connection.new : Connection := ⟨[], false, false, false⟩

/-- What a peer can do. A receive buffer holds fewer bytes than an `int` counts. -/
inductive Connection.Arrives (c : Connection) : Connection → Prop
  | bytes (data : List UInt8) : c.closed = false → data ≠ [] →
      (c.unread ++ data).length < 2 ^ 31 →
      Arrives c { c with unread := c.unread ++ data, pending := true }
  | close : c.closed = false → Arrives c { c with closed := true, pending := true }

/-- What a non-blocking `recv` returns. -/
def Connection.receive (c : Connection) (size : Nat) : Received :=
  if c.unread = [] then if c.closed then .bytes [] else .wouldBlock
  else .bytes (c.unread.take size)

/-- The listening socket, with the connections that wait to be accepted, and the accepted ones. -/
structure Kernel where
  server : Socket
  queue : List Connection
  pending : Bool
  registered : Bool
  connections : Socket → Option Connection

namespace Kernel

def boot (server : Socket) : Kernel := ⟨server, [], false, false, fun _ => none⟩

def set (k : Kernel) (s : Socket) (c : Option Connection) : Kernel :=
  { k with connections := Function.update k.connections s c }

/-- A connection, bytes or a close arrive; the latter also on connections that are not accepted. -/
inductive Arrives (k : Kernel) : Kernel → Prop
  | connection : Arrives k { k with queue := k.queue ++ [.new], pending := true }
  | queued {left right : List Connection} {c c' : Connection} : k.queue = left ++ c :: right →
      c.Arrives c' → Arrives k { k with queue := left ++ c' :: right }
  | accepted {s : Socket} {c c' : Connection} : k.connections s = some c → c.Arrives c' →
      Arrives k (k.set s (some c'))

/-- `epoll_wait` may report the socket. -/
def Ready (k : Kernel) (s : Socket) : Prop :=
  if s = k.server then k.pending ∧ k.registered
  else ∃ c, k.connections s = some c ∧ c.pending ∧ c.registered

/-- The sockets have been reported. -/
def clear (k : Kernel) (fds : List Socket) : Kernel :=
  { k with
    pending := k.pending && !decide (k.server ∈ fds)
    connections := fun s =>
      (k.connections s).map fun c => { c with pending := c.pending && !decide (s ∈ fds) } }

/-- Whether `epoll` watches the socket. -/
def watch (k : Kernel) (s : Socket) (watched : Bool) : Kernel :=
  if s = k.server then { k with registered := watched }
  else k.set s ((k.connections s).map fun c => { c with registered := watched })

def close (k : Kernel) (s : Socket) : Kernel :=
  if s = k.server then { k with queue := [], pending := false, registered := false }
  else k.set s none

/-- What a call of the server can return, and what it leaves. Calls that concern no queue and no
buffer may return anything. -/
def Answers (k : Kernel) : (o : Request) → o.Answer → Kernel → Prop
  | .socket, s, k' => (s < 0 ∨ s = k.server) ∧ k' = k
  | .accept _, s, k' => s < 0 ∧ k' = k ∨
      0 ≤ s ∧ s ≠ k.server ∧ k.connections s = none ∧
        ∃ c rest, k.queue = c :: rest ∧ k' = { k with queue := rest }.set s (some c)
  | .getTotalReadBytes s, r, k' => k' = k ∧
      (r.1 < 0 ∨ ∃ c, k.connections s = some c ∧ r.2 = c.unread.length)
  | .recv s size, received, k' => received = .failed ∧ k' = k ∨
      ∃ c, k.connections s = some c ∧ received = c.receive size ∧
        k' = k.set s (some { c with unread := c.unread.drop size })
  | .epollCtlAdd _ s _, r, k' => r < 0 ∧ k' = k ∨ 0 ≤ r ∧ k' = k.watch s true
  | .epollCtlDel _ s, _, k' => k' = k.watch s false
  | .closesocket s, _, k' => k' = k.close s
  | .epollWait _, .events fds, k' => fds.Nodup ∧ (∀ fd ∈ fds, k.Ready fd) ∧ k' = k.clear fds
  | _, _, k' => k' = k

end Kernel

def linux : Surroundings Kernel Request Request.Answer where
  drifts := Kernel.Arrives
  answers := Kernel.Answers

/-- A socket that is not pending has nothing left to handle. -/
structure Kernel.Drained (k : Kernel) : Prop where
  listening : k.pending = false → k.queue = []
  clients : ∀ s c, k.connections s = some c → c.registered → c.pending = false →
    c.unread = [] ∧ c.closed = false

/-- An `accept` takes the only connection that waits, and a `recv` does not find both bytes and a
close, unless the socket has become pending again. -/
def Lossless (k : Kernel) : (o : Request) → o.Answer → Prop
  | .accept _, s => k.pending ∨ k.queue = [] ∨ ∃ c, k.queue = [c] ∧ 0 ≤ s
  | .recv s _, received => received = .failed ∨
      ∀ c, k.connections s = some c → c.pending ∨ c.unread = [] ∨ c.closed = false
  | _, _ => True

/-- The kernel where every answer is lossless. -/
def patient : Surroundings Kernel Request Request.Answer := linux.restrict Lossless

/-- What is left on a connection will be reported. -/
def Connection.Heard (c : Connection) : Prop := c.pending ∨ c.unread = [] ∧ c.closed = false

/-- Whatever is left on a socket will be reported, unless the socket is one of `fds`. -/
structure Kernel.HeardBut (l : Socket) (fds : List Socket) (k : Kernel) : Prop where
  server : k.server = l
  apart : k.connections l = none
  listening : l ∈ fds ∨ k.pending ∨ k.queue = []
  queued : ∀ c ∈ k.queue, c.Heard
  clients : ∀ s c, k.connections s = some c → s ∈ fds ∨ c.Heard

theorem Connection.Arrives.heard {c c' : Connection} (h : c.Arrives c') : c'.Heard := by
  cases h with
  | bytes => exact .inl rfl
  | close => exact .inl rfl

namespace Kernel

variable {k k' : Kernel} {l s : Socket} {fds : List Socket}

theorem set_eq (k : Kernel) (s other : Socket) (c : Option Connection) :
    (k.set s c).connections other = if other = s then c else k.connections other := by
  simp [set, Function.update_apply]

theorem HeardBut.set (h : k.HeardBut l fds) (hs : s ≠ l) {c : Option Connection}
    (hc : ∀ c', c = some c' → s ∈ fds ∨ c'.Heard) : (k.set s c).HeardBut l fds where
  server := h.server
  apart := by
    rw [set_eq, if_neg hs.symm]
    exact h.apart
  listening := h.listening
  queued := h.queued
  clients other c' hOther := by
    rw [set_eq] at hOther
    split at hOther
    next hEq => exact hEq ▸ hc c' hOther
    next => exact h.clients other c' hOther

theorem HeardBut.ne (h : k.HeardBut l fds) {c : Connection} (hs : k.connections s = some c) :
    s ≠ l := by
  intro hEq
  rw [hEq, h.apart] at hs
  cases hs

theorem HeardBut.stable (l : Socket) (fds : List Socket) : patient.Stable (HeardBut l fds) := by
  intro k k' hArrives h
  cases hArrives with
  | connection =>
    refine ⟨h.server, h.apart, .inr (.inl rfl), fun c hc => ?_, h.clients⟩
    rcases List.mem_append.mp hc with hc | hc
    · exact h.queued c hc
    · rw [List.mem_singleton.mp hc]
      exact .inr ⟨rfl, rfl⟩
  | @queued left right c c' hQueue hArrives =>
    have hQueued := h.queued
    refine ⟨h.server, h.apart, ?_, fun c'' hc => ?_, h.clients⟩
    · have := h.listening
      rw [hQueue] at this
      simpa using this
    · rw [hQueue] at hQueued
      simp only [List.mem_append, List.mem_cons] at hc hQueued
      rcases hc with hc | rfl | hc
      · exact hQueued c'' (.inl hc)
      · exact hArrives.heard
      · exact hQueued c'' (.inr (.inr hc))
  | accepted hSome hArrives =>
    refine h.set (h.ne hSome) fun c' hc' => .inr ?_
    cases hc'
    exact hArrives.heard

/-- What comes behind a query of the number of bytes makes the socket pending. -/
theorem sized_stable (s : Socket) (size : Nat) : patient.Stable fun k =>
    ∀ c, k.connections s = some c → c.pending ∨ c.unread.length ≤ size := by
  intro k k' hArrives h
  cases hArrives with
  | connection => exact h
  | queued => exact h
  | @accepted other c c' hSome hArrives =>
    intro c'' hc''
    rw [set_eq] at hc''
    split at hc''
    · cases hc''
      cases hArrives with
      | bytes => exact .inl rfl
      | close => exact .inl rfl
    · exact h c'' hc''

/-- A socket that has been handled. -/
theorem HeardBut.settle (h : k.HeardBut l (s :: fds)) (hs : s ≠ l) {c : Option Connection}
    (hc : ∀ c', c = some c' → c'.Heard) : (k.set s c).HeardBut l fds where
  server := h.server
  apart := by
    rw [set_eq, if_neg hs.symm]
    exact h.apart
  listening := by
    have hListening : l ∈ fds ∨ k.pending ∨ k.queue = [] := by simpa [hs.symm] using h.listening
    exact hListening
  queued := h.queued
  clients other c' hOther := by
    rw [set_eq] at hOther
    split at hOther
    · exact .inr (hc c' hOther)
    next hne =>
      have := h.clients other c' hOther
      simpa [hne] using this

theorem HeardBut.close (h : k.HeardBut l (s :: fds)) (hs : s ≠ l) : (k.close s).HeardBut l fds := by
  rw [Kernel.close, if_neg (by rw [h.server]; exact hs)]
  exact h.settle hs nofun

/-- A socket may be handled once more. -/
theorem HeardBut.weaken (h : k.HeardBut l fds) (s : Socket) : k.HeardBut l (s :: fds) where
  server := h.server
  apart := h.apart
  listening := h.listening.imp_left (List.mem_cons_of_mem s)
  queued := h.queued
  clients other c hOther := (h.clients other c hOther).imp_left (List.mem_cons_of_mem s)

theorem HeardBut.watch (h : k.HeardBut l fds) (s : Socket) (watched : Bool) :
    (k.watch s watched).HeardBut l fds := by
  unfold Kernel.watch
  split
  · exact ⟨h.server, h.apart, h.listening, h.queued, h.clients⟩
  next hs =>
    refine h.set (h.server ▸ hs) fun c' hc' => ?_
    rcases Option.map_eq_some_iff.mp hc' with ⟨c, hSome, rfl⟩
    exact h.clients s c hSome

theorem HeardBut.clear (h : k.HeardBut l []) (fds : List Socket) :
    (k.clear fds).HeardBut l fds := by
  refine ⟨h.server, by simp [Kernel.clear, h.apart], ?_, h.queued, fun s c hSome => ?_⟩
  · by_cases hIn : l ∈ fds
    · exact .inl hIn
    · have := h.listening
      simpa [Kernel.clear, h.server, hIn] using this
  · rcases Option.map_eq_some_iff.mp hSome with ⟨c', hSome', rfl⟩
    by_cases hIn : s ∈ fds
    · exact .inl hIn
    · have := h.clients s c' hSome'
      simpa [Connection.Heard, hIn] using this

theorem HeardBut.drained (h : k.HeardBut l []) : k.Drained where
  listening hPending := by
    have := h.listening
    simpa [hPending] using this
  clients s c hSome _ hPending := by
    have := h.clients s c hSome
    simpa [Connection.Heard, hPending] using this

end Kernel

/-- What the server may rely on when it is about to wait. -/
def AtWait (k : Kernel) : Request → Prop
  | .epollWait _ => k.Drained
  | _ => True

section

variable {host : Host} {l s : Socket} {fds : List Socket} {k : Kernel} {clientSockets : Clients}

open Kernel

/-- A call that concerns no queue and no buffer. -/
theorem idle_keeps {I : Kernel → Prop} (hI : patient.Stable I) (h : I k) {o : Request}
    (hWait : ∀ k, AtWait k o) (hAnswers : ∀ k a k', linux.answers k o a k' → k' = k) :
    patient.Keeps AtWait (fun _ => I) (request o) k := by
  refine .ask hI (fun _ => hI) h fun k' hk' => ⟨hWait k', fun a k'' hAnswer => ?_⟩
  rw [hAnswers k' a k'' hAnswer.1]
  exact hk'

theorem terminate_keeps {α : Type} {Q : α → Kernel → Prop} (e : Fail) :
    patient.Keeps AtWait Q (terminate e) k :=
  fun _ _ => ⟨True.intro, nofun⟩

theorem epollCtlAdd_keeps (h : k.HeardBut l fds) (epollFd : Int) (s : Socket)
    (edgeTrigger : Bool) :
    patient.Keeps AtWait (fun _ => HeardBut l fds)
      (request (.epollCtlAdd epollFd s edgeTrigger)) k := by
  refine .ask (HeardBut.stable l fds) (fun _ => HeardBut.stable l fds) h
    fun k' hk' => ⟨True.intro, fun r k'' hAnswer => ?_⟩
  rcases hAnswer.1 with ⟨-, rfl⟩ | ⟨-, rfl⟩
  · exact hk'
  · exact hk'.watch s true

theorem epollCtlDel_keeps (h : k.HeardBut l fds) (epollFd : Int) (s : Socket) :
    patient.Keeps AtWait (fun _ => HeardBut l fds) (request (.epollCtlDel epollFd s)) k := by
  refine .ask (HeardBut.stable l fds) (fun _ => HeardBut.stable l fds) h
    fun k' hk' => ⟨True.intro, fun r k'' hAnswer => ?_⟩
  rcases hAnswer with ⟨rfl, -⟩
  exact hk'.watch s false

theorem closesocket_keeps (h : k.HeardBut l (s :: fds)) (hs : s ≠ l) :
    patient.Keeps AtWait (fun _ => HeardBut l fds) (request (.closesocket s)) k := by
  refine .ask (HeardBut.stable l _) (fun _ => HeardBut.stable l fds) h
    fun k' hk' => ⟨True.intro, fun r k'' hAnswer => ?_⟩
  rcases hAnswer with ⟨rfl, -⟩
  exact hk'.close hs

/-- A client's socket is dropped with all that is left on it. -/
theorem evict_keeps (h : k.HeardBut l (s :: fds)) (hs : s ≠ l) (epollFd : Int)
    (clientSockets : Clients) :
    patient.Keeps AtWait (fun _ => HeardBut l fds) (evict (drop epollFd) s clientSockets) k := by
  refine Surroundings.Keeps.bind (Q := fun _ => HeardBut l fds) ?_ fun _ k h => ?_
  · exact (epollCtlDel_keeps h epollFd s).bind fun _ k h => closesocket_keeps h hs
  · exact .pure (HeardBut.stable l fds) h

/-- An accepted socket is none that was to be handled. -/
theorem accept_keeps (h : k.HeardBut l (l :: fds)) :
    patient.Keeps AtWait (fun s k => k.HeardBut l fds ∧ (0 ≤ s → s ≠ l))
      (request (.accept l)) k := by
  have hStable : ∀ s, patient.Stable fun k => k.HeardBut l fds ∧ (0 ≤ s → s ≠ l) :=
    fun s k k' hArrives h => ⟨HeardBut.stable l fds _ _ hArrives h.1, h.2⟩
  refine .ask (HeardBut.stable l _) hStable h fun k' hk' => ⟨True.intro, fun s k'' hAnswer => ?_⟩
  rcases hAnswer with ⟨hAnswer, hLossless⟩
  have hClients : ∀ s c, k'.connections s = some c → s ∈ fds ∨ c.Heard := by
    intro s c hSome
    have := hk'.clients s c hSome
    simpa [hk'.ne hSome] using this
  rcases hAnswer with ⟨hNeg, rfl⟩ | ⟨-, hNe, -, c, rest, hQueue, rfl⟩
  · refine ⟨⟨hk'.server, hk'.apart, .inr ?_, hk'.queued, hClients⟩,
      fun hPos => absurd hNeg (Int.not_lt.mpr hPos)⟩
    rcases hLossless with hPending | hEmpty | ⟨-, -, hPos⟩
    · exact .inl hPending
    · exact .inr hEmpty
    · exact absurd hNeg (Int.not_lt.mpr hPos)
  · rw [hk'.server] at hNe
    have hQueued := hk'.queued
    rw [hQueue] at hQueued
    have hRest : ({ k' with queue := rest } : Kernel).HeardBut l fds := by
      refine ⟨hk'.server, hk'.apart, .inr ?_, fun c' hc' => ?_, hClients⟩
      · rcases hLossless with hPending | hEmpty | ⟨c', hOne, -⟩
        · exact .inl hPending
        · rw [hQueue] at hEmpty
          cases hEmpty
        · rw [hQueue] at hOne
          exact .inr (List.cons.inj hOne).2
      · exact hQueued c' (List.mem_cons_of_mem c hc')
    refine ⟨hRest.set hNe fun c' hc' => ?_, fun _ => hNe⟩
    cases hc'
    exact .inr (hQueued c List.mem_cons_self)

theorem acceptOne_keeps (h : k.HeardBut l (l :: fds)) (epollFd : Int) (clientSockets : Clients) :
    patient.Keeps AtWait (fun _ => HeardBut l fds) (acceptOne epollFd true l clientSockets) k := by
  refine Surroundings.Keeps.bind
    (Q := fun r k => k.HeardBut l fds ∧ ∀ s, r = some s → s ≠ l) ?_ fun r k h => ?_
  · refine (accept_keeps h).bind fun s k h => ?_
    have hNone : patient.Stable fun k => k.HeardBut l fds ∧ ∀ s', none = some s' → s' ≠ l :=
      fun k k' hArrives h => ⟨HeardBut.stable l fds _ _ hArrives h.1, h.2⟩
    split
    · exact .pure hNone ⟨h.1, nofun⟩
    next hPos =>
      have hNe := h.2 (Int.not_lt.mp hPos)
      refine (idle_keeps (o := .setNonblock s) (HeardBut.stable l fds) h.1 (fun _ => True.intro)
        fun _ _ _ hAnswer => hAnswer).bind fun r k h => ?_
      split
      · refine (closesocket_keeps (h.weaken s) hNe).bind fun _ k h => ?_
        exact .pure hNone ⟨h, nofun⟩
      · refine .pure (fun k k' hArrives h => ⟨HeardBut.stable l fds _ _ hArrives h.1, h.2⟩) ⟨h, ?_⟩
        rintro _ ⟨⟩
        exact hNe
  · cases r with
    | none => exact .pure (HeardBut.stable l fds) h.1
    | some s =>
      refine (epollCtlAdd_keeps h.1 epollFd s true).bind fun r k' h' => ?_
      split
      · refine (closesocket_keeps (h'.weaken s) (h.2 s rfl)).bind fun _ k h => ?_
        exact .pure (HeardBut.stable l fds) h
      · exact .pure (HeardBut.stable l fds) h'

/-- What `recv` leaves: nothing, or a socket that is about to be dropped. -/
def AfterRecv (l s : Socket) (fds : List Socket) (k : Kernel) : Received → Prop
  | .failed | .bytes [] => k.HeardBut l (s :: fds)
  | _ => k.HeardBut l fds

theorem afterRecv_stable (received : Received) :
    patient.Stable fun k => AfterRecv l s fds k received := by
  intro k k' hArrives h
  rcases received with _ | _ | _ | ⟨byte, data⟩ <;> exact HeardBut.stable l _ _ _ hArrives h

/-- A `recv` of all that was there takes all that will not be reported. -/
theorem recv_keeps {size : Nat} (h : k.HeardBut l (s :: fds))
    (hSize : ∀ c, k.connections s = some c → c.pending ∨ c.unread.length ≤ size) :
    patient.Keeps AtWait (fun received k => AfterRecv l s fds k received)
      (request (.recv s size)) k := by
  have hStable : patient.Stable fun k => k.HeardBut l (s :: fds) ∧
      ∀ c, k.connections s = some c → c.pending ∨ c.unread.length ≤ size :=
    fun k k' hArrives h =>
      ⟨HeardBut.stable l _ _ _ hArrives h.1, sized_stable s size _ _ hArrives h.2⟩
  refine .ask hStable afterRecv_stable ⟨h, hSize⟩ ?_
  intro k' hk'
  rcases hk' with ⟨hk', hSize⟩
  refine ⟨True.intro, fun received k'' hAnswer => ?_⟩
  rcases hAnswer with ⟨⟨rfl, rfl⟩ | ⟨c, hSome, rfl, rfl⟩, hLossless⟩
  · exact hk'
  have hNe := hk'.ne hSome
  have hKept := hk'.set hNe (c := some { c with unread := c.unread.drop size })
    fun _ _ => .inl List.mem_cons_self
  unfold Connection.receive
  split
  next hEmpty =>
    split
    · exact hKept
    next hOpen =>
      refine hk'.settle hNe fun c' hc' => ?_
      cases hc'
      exact .inr ⟨by simp [hEmpty], by simpa using hOpen⟩
  next hUnread =>
    have hHeard : (k'.set s (some { c with unread := c.unread.drop size })).HeardBut l fds := by
      refine hk'.settle hNe fun c' hc' => ?_
      cases hc'
      rcases hSize c hSome with hPending | hLength
      · exact .inl hPending
      rcases hLossless.resolve_left (by simp [Connection.receive, hUnread]) c hSome with
        hPending | hEmpty | hOpen
      · exact .inl hPending
      · exact absurd hEmpty hUnread
      · exact .inr ⟨List.drop_eq_nil_of_le hLength, hOpen⟩
    generalize c.unread.take size = data
    cases data with
    | nil => exact hKept
    | cons byte data => exact hHeard

theorem receive_keeps {size : Nat} (h : k.HeardBut l (s :: fds)) (hs : s ≠ l)
    (hSize : ∀ c, k.connections s = some c → c.pending ∨ c.unread.length ≤ size) (epollFd : Int)
    (clientSockets : Clients) :
    patient.Keeps AtWait (fun _ => HeardBut l fds)
      (receive host false (drop epollFd) size s clientSockets) k := by
  have hPure : ∀ {k} (r : Bool × Clients), k.HeardBut l fds →
      patient.Keeps AtWait (fun _ => HeardBut l fds) (pure r) k :=
    fun _ h => .pure (HeardBut.stable l fds) h
  refine (recv_keeps h hSize).bind fun received k h => ?_
  rcases received with _ | _ | _ | ⟨byte, data⟩
  · exact hPure _ h
  · exact evict_keeps h hs epollFd clientSockets
  · exact evict_keeps h hs epollFd clientSockets
  dsimp only
  split
  · exact hPure _ h
  next client hFind =>
    refine (idle_keeps (o := .forceLog s _) (HeardBut.stable l fds) h (fun _ => True.intro)
      fun _ _ _ hAnswer => hAnswer).bind fun _ k h => ?_
    split
    · exact terminate_keeps _
    · exact hPure _ h

/-- What is there when the number of bytes is asked for is read, or will be reported. -/
theorem serveClient_keeps (h : k.HeardBut l (s :: fds)) (hs : s ≠ l) (epollFd : Int)
    (clientSockets : Clients) :
    patient.Keeps AtWait (fun _ => HeardBut l fds)
      (serveClient host epollFd true s clientSockets) k := by
  refine Surroundings.Keeps.bind (Q := fun r k => k.HeardBut l (s :: fds) ∧ (0 ≤ r.1 →
    ∀ c, k.connections s = some c → c.pending ∨ c.unread.length ≤ (max r.2 1).toNat)) ?_
    fun r k h => ?_
  · refine .ask (HeardBut.stable l _) (fun r k k' hArrives h =>
      ⟨HeardBut.stable l _ _ _ hArrives h.1,
        fun hOk => sized_stable s _ _ _ hArrives (h.2 hOk)⟩) h
      fun k' hk' => ⟨True.intro, fun r k'' hAnswer => ?_⟩
    rcases hAnswer.1 with ⟨rfl, hNeg | ⟨c, hSome, hBytes⟩⟩
    · exact ⟨hk', fun hOk => absurd hNeg (Int.not_lt.mpr hOk)⟩
    · refine ⟨hk', fun _ c' hSome' => .inr ?_⟩
      rw [hSome] at hSome'
      cases hSome'
      rw [hBytes]
      omega
  · dsimp only
    split
    · exact evict_keeps h.1 hs epollFd clientSockets
    next hOk =>
      split
      · exact terminate_keeps _
      · exact receive_keeps h.1 hs (h.2 (Int.not_lt.mp hOk)) epollFd clientSockets

theorem serve_keeps (h : k.HeardBut l fds) (epollFd : Int) (clientSockets : Clients) :
    patient.Keeps AtWait (fun _ => HeardBut l [])
      (serve host epollFd true l fds clientSockets) k := by
  induction fds generalizing k clientSockets with
  | nil => exact .pure (HeardBut.stable l []) h
  | cons fd fds ih =>
    unfold serve
    split
    next hEq =>
      subst hEq
      exact (acceptOne_keeps h epollFd clientSockets).bind fun _ k h => ih h _
    next hs => exact (serveClient_keeps h hs epollFd clientSockets).bind fun _ k h => ih h _

/-- What is yet to be looked at once `epoll_wait` has returned. -/
def HeardAfter (l : Socket) : Waited → Kernel → Prop
  | .events fds => HeardBut l fds
  | _ => HeardBut l []

theorem pass_keeps (h : k.HeardBut l []) (epollFd : Int) (clientSockets : Clients) :
    patient.Keeps AtWait (Sum.elim (fun _ => HeardBut l []) fun _ => HeardBut l [])
      (pass host epollFd true l clientSockets) k := by
  have hPure : ∀ {k} (r : Clients ⊕ Clients), k.HeardBut l [] →
      patient.Keeps AtWait (Sum.elim (fun _ => HeardBut l []) fun _ => HeardBut l []) (pure r) k := by
    intro k r h
    cases r <;> exact .pure (HeardBut.stable l []) h
  refine Surroundings.Keeps.bind (Q := HeardAfter l) ?_ fun r k h => ?_
  · refine .ask (HeardBut.stable l []) (fun r => ?_) h
      fun k' hk' => ⟨hk'.drained, fun r k'' hAnswer => ?_⟩
    · cases r <;> exact HeardBut.stable l _
    · cases r with
      | interrupted =>
        rcases hAnswer with ⟨rfl, -⟩
        exact hk'
      | failed =>
        rcases hAnswer with ⟨rfl, -⟩
        exact hk'
      | events fds =>
        rcases hAnswer with ⟨⟨-, -, rfl⟩, -⟩
        exact hk'.clear fds
  · cases r with
    | interrupted => exact hPure _ h
    | failed => exact hPure _ h
    | events fds => exact (serve_keeps h epollFd clientSockets).bind fun _ k h => hPure _ h

/-- Calls that set up a socket concern no queue and no buffer. -/
theorem setUp_keeps (h : k.HeardBut l fds) (port : Int) (backlog : Nat) :
    patient.Keeps AtWait (fun _ => HeardBut l fds) (setUp l port backlog) k := by
  have hPure : ∀ {k} (r : Bool), k.HeardBut l fds →
      patient.Keeps AtWait (fun _ => HeardBut l fds) (pure r) k :=
    fun _ h => .pure (HeardBut.stable l fds) h
  have hIdle : ∀ {k} (o : Request), k.HeardBut l fds → (∀ k, AtWait k o) →
      (∀ k a k', linux.answers k o a k' → k' = k) →
      patient.Keeps AtWait (fun _ => HeardBut l fds) (request o) k :=
    fun _ h => idle_keeps (HeardBut.stable l fds) h
  unfold setUp
  refine (hIdle (.setReuseAddr l) h (fun _ => True.intro) fun _ _ _ hAnswer => hAnswer).bind
    fun _ k h => ?_
  split
  · exact hPure _ h
  refine (hIdle (.setTcpNodelay l) h (fun _ => True.intro) fun _ _ _ hAnswer => hAnswer).bind
    fun _ k h => ?_
  split
  · exact hPure _ h
  refine (hIdle (.setNonblock l) h (fun _ => True.intro) fun _ _ _ hAnswer => hAnswer).bind
    fun _ k h => ?_
  split
  · exact hPure _ h
  refine (hIdle (.bind l port) h (fun _ => True.intro) fun _ _ _ hAnswer => hAnswer).bind
    fun _ k h => ?_
  split
  · exact hPure _ h
  refine (hIdle (.listen l backlog) h (fun _ => True.intro) fun _ _ _ hAnswer => hAnswer).bind
    fun _ k h => ?_
  split
  · exact hPure _ h
  · exact hPure _ h

/-- Nothing is asked of the kernel where the server no longer waits. -/
theorem closing_keeps (o : Request) (hWait : ∀ k, AtWait k o) :
    patient.Keeps AtWait (fun _ _ => True) (request o) k :=
  .ask (I := fun _ => True) (fun _ _ _ _ => True.intro) (fun _ _ _ _ _ => True.intro) True.intro
    fun k' _ => ⟨hWait k', fun _ _ _ => True.intro⟩

theorem cleanUp_keeps (l : Socket) (clientSockets : Clients) :
    patient.Keeps AtWait (fun _ _ => True) (cleanUp l clientSockets) k := by
  have hAll : ∀ (sockets : List Socket) (k : Kernel),
      patient.Keeps AtWait (fun _ _ => True) (closeAll sockets) k := by
    intro sockets
    induction sockets with
    | nil => exact fun k => .pure (fun _ _ _ _ => True.intro) True.intro
    | cons s sockets ih =>
      exact fun k => (closing_keeps (.closesocket s) fun _ => True.intro).bind fun _ k _ => ih k
  exact (hAll _ k).bind fun _ k _ => closing_keeps (.closesocket l) fun _ => True.intro

end

/-- Whenever the server is about to wait, the sockets that are not pending are drained. -/
theorem runServer_keeps (host : Host) (port : Int) (passes : Nat) (server : Socket) :
    patient.Keeps AtWait (fun _ _ => True) (runServer host true port passes) (.boot server) := by
  have hNone : ∀ {k} (r : Option Clients),
      patient.Keeps AtWait (fun _ _ => True) (pure r) k :=
    fun _ => .pure (fun _ _ _ _ => True.intro) True.intro
  have hBoot : (Kernel.boot server).HeardBut server [] :=
    ⟨rfl, rfl, .inr (.inr rfl), nofun, nofun⟩
  have hStable : ∀ l : Socket, patient.Stable fun k =>
      k.HeardBut server [] ∧ (0 ≤ l → l = server) :=
    fun l k k' hArrives h => ⟨Kernel.HeardBut.stable server [] _ _ hArrives h.1, h.2⟩
  unfold runServer
  refine Surroundings.Keeps.bind
    (Q := fun (l : Socket) k => k.HeardBut server [] ∧ (0 ≤ l → l = server)) ?_ fun l k h => ?_
  · refine .ask (Kernel.HeardBut.stable server []) hStable hBoot
      fun k' hk' => ⟨True.intro, fun l k'' hAnswer => ?_⟩
    rcases hAnswer with ⟨⟨hNeg | hServer, rfl⟩, -⟩
    · exact ⟨hk', fun hPos => absurd hNeg (Int.not_lt.mpr hPos)⟩
    · exact ⟨hk', fun _ => hServer.trans hk'.server⟩
  split
  · exact hNone _
  next hPos =>
    rcases h with ⟨h, hServer⟩
    obtain rfl := hServer (Int.not_lt.mp hPos)
    refine (setUp_keeps h port LISTEN_BACKLOG).bind fun ready k h => ?_
    split
    · refine (idle_keeps (o := .epollCreate 1024) (Kernel.HeardBut.stable l []) h
        (fun _ => True.intro) fun _ _ _ hAnswer => hAnswer).bind fun epollFd k h => ?_
      split
      · exact (closing_keeps (.closesocket l) fun _ => True.intro).bind fun _ k _ => hNone _
      refine (epollCtlAdd_keeps h epollFd l true).bind fun r k h => ?_
      split
      · refine (closing_keeps (.closesocket l) fun _ => True.intro).bind fun _ k _ => ?_
        exact (closing_keeps (.close epollFd) fun _ => True.intro).bind fun _ k _ => hNone _
      refine (Surroundings.Keeps.loop (fun _ => Kernel.HeardBut.stable l []) passes
        (fun _ _ h => pass_keeps h epollFd _) (fun _ => Kernel.HeardBut.stable l []) h).bind
        fun r k h => ?_
      split
      · exact hNone _
      · refine (cleanUp_keeps l _).bind fun _ k _ => ?_
        exact (closing_keeps (.close epollFd) fun _ => True.intro).bind fun _ k _ => hNone _
    · exact (closing_keeps (.closesocket l) fun _ => True.intro).bind fun _ k _ => hNone _

/-- In every run in which an `accept` takes the only connection that waits and a `recv` does not find
both bytes and a close, unless the socket has become pending again, a socket that is not pending when
the server is about to wait has nothing left to handle. -/
theorem no_lost_wakeup (host : Host) (port : Int) (passes : Nat) (server : Socket)
    {left : Server (Option Clients)} {k : Kernel}
    (hRun : patient.Runs (runServer host true port passes, .boot server) (left, k))
    {epollFd : Int} (hNext : left.next? = some (.epollWait epollFd)) : k.Drained :=
  ((runServer_keeps host port passes server).runs hRun).at_call hNext

/-- A server that has accepted a connection, waited, received two bytes from it and is about to wait
again. -/
theorem no_lost_wakeup_accepted : ∃ left k c,
    patient.Runs (runServer byteHost true 0 3, .boot 3) (left, k) ∧ k.connections 4 = some c ∧
      c.registered ∧ k.Drained := by
  have hReach : patient.CanReach (runServer byteHost true 0 3, .boot 3) fun s =>
      s.1.next? = some (.epollWait 5) ∧ ∃ c, s.2.connections 4 = some c ∧ c.registered := by
    refine .call (3 : Int) ⟨⟨.inr rfl, rfl⟩, True.intro⟩ ?_
    iterate 5 refine .call (0 : Int) ⟨rfl, True.intro⟩ ?_
    refine .call (5 : Int) ⟨rfl, True.intro⟩ ?_
    refine .call (0 : Int) ⟨.inr ⟨by decide, rfl⟩, True.intro⟩ ?_
    refine .drift .connection ?_
    refine .call (Waited.events [3]) ⟨⟨by decide, ?_, rfl⟩, True.intro⟩ ?_
    · simp [Kernel.Ready, Kernel.watch, Kernel.boot]
    refine .call (4 : Int) ⟨.inr ⟨by decide, by decide, rfl, _, _, rfl, rfl⟩,
      .inr (.inr ⟨_, rfl, by decide⟩)⟩ ?_
    refine .call (0 : Int) ⟨rfl, True.intro⟩ ?_
    refine .call (0 : Int) ⟨.inr ⟨by decide, rfl⟩, True.intro⟩ ?_
    refine .drift (.accepted (s := 4) rfl (.bytes [0xAC, 0xED] rfl (by decide) (by decide))) ?_
    refine .call (Waited.events [4]) ⟨⟨by decide, ?_, rfl⟩, True.intro⟩ ?_
    · simp [Kernel.Ready, Kernel.watch, Kernel.boot, Kernel.set, Kernel.clear, Connection.new]
    refine .call ((0 : Int), (2 : Int)) ⟨⟨rfl, .inr ⟨_, rfl, rfl⟩⟩, True.intro⟩ ?_
    refine .call (Received.bytes [0xAC, 0xED]) ⟨.inr ⟨_, rfl, rfl, rfl⟩, .inr ?_⟩ ?_
    · rintro c ⟨⟩
      exact .inr (.inr rfl)
    refine .call () ⟨rfl, True.intro⟩ ?_
    exact .here ⟨rfl, _, rfl, rfl⟩
  rcases hReach with ⟨⟨left, k⟩, hRun, hNext, c, hSome, hRegistered⟩
  exact ⟨left, k, c, hRun, hSome, hRegistered, no_lost_wakeup byteHost 0 3 3 hRun hNext⟩

/-- Of two connections that are reported together, only one is accepted. -/
theorem lost_wakeup : ¬∀ (host : Host) (port : Int) (passes : Nat) (server : Socket)
    (left : Server (Option Clients)) (k : Kernel) (epollFd : Int),
    linux.Runs (runServer host true port passes, .boot server) (left, k) →
      left.next? = some (.epollWait epollFd) → k.Drained := by
  intro hAll
  have hReach : linux.CanReach (runServer byteHost true 0 2, .boot 3) fun s =>
      s.1.next? = some (.epollWait 5) ∧ ¬s.2.Drained := by
    refine .call (3 : Int) ⟨.inr rfl, rfl⟩ ?_
    iterate 5 refine .call (0 : Int) rfl ?_
    refine .call (5 : Int) rfl ?_
    refine .call (0 : Int) (.inr ⟨by decide, rfl⟩) ?_
    refine .drift .connection ?_
    refine .drift .connection ?_
    refine .call (Waited.events [3]) ⟨by decide, ?_, rfl⟩ ?_
    · simp [Kernel.Ready, Kernel.watch, Kernel.boot]
    refine .call (4 : Int) (.inr ⟨by decide, by decide, rfl, _, _, rfl, rfl⟩) ?_
    refine .call (0 : Int) rfl ?_
    refine .call (0 : Int) (.inr ⟨by decide, rfl⟩) ?_
    refine .here ⟨rfl, fun hDrained => ?_⟩
    cases hDrained.listening rfl
  rcases hReach with ⟨⟨left, k⟩, hRun, hNext, hLost⟩
  exact hLost (hAll byteHost 0 2 3 left k 5 hRun hNext)

end LogSocket.Epoll
