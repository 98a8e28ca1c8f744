import LogSocket.Discipline
import LogSocket.Segmentation

/-! The passes of the Poll server. Its `pollfds` and its `clientSockets` have the same sockets at
all times, and a pass receives once from each client that is ready, in the order of `pollfds`,
whichever of them it closes and erases on the way. -/

namespace LogSocket

open Lib

/-- The socket that a call received from. -/
def received : (Σ o : Request, o.Answer) → Option Socket
  | ⟨.recv s _, _⟩ => some s
  | _ => none

/-- The socket that a call closed. -/
def closed : (Σ o : Request, o.Answer) → Option Socket
  | ⟨.closesocket s, _⟩ => some s
  | _ => none

/-- The last call received bytes from the socket. -/
def Fed (s : Socket) (t : ServerTrace) : Prop :=
  ∃ size byte data, t.getLast? = some ⟨.recv s size, .bytes (byte :: data)⟩

theorem fed_append {s : Socket} {t : ServerTrace} {e : Σ o : Request, o.Answer} :
    Fed s (t ++ [e]) ↔ ∃ size byte data, e = ⟨.recv s size, .bytes (byte :: data)⟩ := by
  simp [Fed]

theorem Fed.after {s : Socket} {t : ServerTrace} (h : Fed s t) (past : ServerTrace) :
    Fed s (past ++ t) := by
  obtain ⟨size, byte, data, hLast⟩ := h
  exact ⟨size, byte, data, by simp [hLast]⟩

theorem not_fed {t : ServerTrace} {o : Request} {a : o.Answer} (ho : ∀ s size, o ≠ .recv s size)
    (s : Socket) : ¬Fed s (t ++ [⟨o, a⟩]) := by
  rw [fed_append]
  rintro ⟨size, _, _, h⟩
  exact ho s size (congrArg Sigma.fst h)

/-- What `accept` and `setNonblock` did, and the socket that they gave. -/
inductive Accepting (l : Socket) : ServerTrace → Option Socket → Prop
  | idle : Accepting l [] none
  | failed {s : Socket} : s < 0 → Accepting l [⟨.accept l, s⟩] none
  | refused {s r : Int} : 0 ≤ s → r < 0 →
      Accepting l [⟨.accept l, s⟩, ⟨.setNonblock s, r⟩, ⟨.closesocket s, ()⟩] none
  | accepted {s r : Int} : 0 ≤ s → 0 ≤ r →
      Accepting l [⟨.accept l, s⟩, ⟨.setNonblock s, r⟩] (some s)

namespace Poll

/-- The entries as `poll` leaves them. -/
def polled (s : State) (revents : Nat → UInt16) : List Pollfd :=
  s.pollfds.mapIdx fun i it => { it with revents := revents i }

/-- The call of `poll` in a pass from the state. -/
abbrev pollCall (s : State) (answer : Int × (Nat → UInt16)) : Σ o : Request, o.Answer :=
  ⟨.poll (s.pollfds.map (·.fd)), answer⟩

/-- The clients that the answer to `poll` at the start of a pass shows to be ready. -/
def ready (s : State) : ServerTrace → List Socket
  | ⟨.poll _, (_, revents)⟩ :: _ => ((polled s revents).tail.filter isReadSet).map (·.fd)
  | _ => []

/-- The listening socket comes first, none comes twice, and they are those that have a client. -/
structure Represents (l : Socket) (s : State) : Prop where
  listening : (s.pollfds.map (·.fd)).head? = some l
  nodup : (s.pollfds.map (·.fd)).Nodup
  clients : ∀ fd, fd ∈ s.pollfds.map (·.fd) ↔ (s.clientSockets.find? fd).isSome

/-- A pass receives from the clients that are ready one after the other, and gives what it received
to the client that it found. -/
structure MayServe (s : State) (t : ServerTrace) (o : Request) : Prop where
  recv : ∀ fd size, o = .recv fd size → t.filterMap received ++ [fd] <+: ready s t
  feed : ∀ fd, Fed fd t → ∃ call, o = .forceLog fd call

/-- A pass to its end: what becomes of the state `s` by the calls. -/
inductive Passes (l : Socket) (s : State) : State ⊕ State → ServerTrace → Prop
  | leaves {eventCount : Int} {revents : Nat → UInt16} : eventCount ≤ 0 →
      Passes l s (.inr s) [pollCall s (eventCount, revents)]
  /-- Bytes received are given to a client, those that were not closed stay, and at most one is
  new. -/
  | serves {eventCount : Int} {revents : Nat → UInt16} {served accepting : ServerTrace}
      {new : Option Socket} {s' : State} : 0 < eventCount →
      served.filterMap received = ((polled s revents).tail.filter isReadSet).map (·.fd) →
      (∀ fd, ¬Fed fd served) → Accepting l accepting new → Represents l s' →
      (let kept := l :: (s.pollfds.map (·.fd)).tail.filter (· ∉ served.filterMap closed)
       s'.pollfds.map (·.fd) = kept ++ new.toList.filter (· ∉ kept)) →
      Passes l s (.inl s') (pollCall s (eventCount, revents) :: (served ++ accepting))

section

variable {host : Host} {l fd : Socket} {s : State} {clientSockets : Clients} {past : ServerTrace}
  {o : Request}

theorem ready_append (h : past ≠ []) (more : ServerTrace) :
    ready s (past ++ more) = ready s past := by
  cases past with
  | nil => exact absurd rfl h
  | cons e past =>
    rcases e with ⟨o, a⟩
    cases o <;> rfl

/-- A call that does not receive. -/
theorem MayServe.other (hFed : ∀ fd, ¬Fed fd past) (ho : ∀ fd size, o ≠ .recv fd size) :
    MayServe s past o :=
  ⟨fun fd size h => absurd h (ho fd size), fun fd h => absurd h (hFed fd)⟩

/-- What is done about a client that is ready. -/
structure Handles (fd : Socket) (before : Clients) (served : ServerTrace) (r : Bool × Clients) :
    Prop where
  received : served.filterMap received = [fd]
  closed : served.filterMap closed = if r.1 then [fd] else []
  found : (r.2.find? fd).isSome = !r.1
  others : ∀ other, other ≠ fd → r.2.find? other = before.find? other

/-- The calls for a client, after those of the pass so far. -/
def HandlesAfter (past : ServerTrace) (fd : Socket) (before : Clients) (r : Bool × Clients)
    (past' : ServerTrace) : Prop :=
  (∀ other, ¬Fed other past') ∧ ∃ served, past' = past ++ served ∧ Handles fd before served r

theorem evict_spec {served : ServerTrace} (hFed : ∀ other, ¬Fed other (past ++ served))
    (hReceived : served.filterMap received = [fd]) (hClosed : served.filterMap closed = []) :
    Spec (MayServe s) (HandlesAfter past fd clientSockets) (evict drop fd clientSockets)
      (past ++ served) := by
  refine Spec.bind (Q := fun _ past' => past' = past ++ served ++ [⟨.closesocket fd, ()⟩])
    (Spec.ask (.other hFed nofun) fun _ => rfl) ?_
  rintro _ _ rfl
  refine .pure ⟨not_fed nofun, served ++ [⟨.closesocket fd, ()⟩], List.append_assoc _ _ _, ?_⟩
  exact ⟨by simp [hReceived, received], by simp [hClosed, closed], by simp,
    fun _ hne => SortedMap.find?_erase_of_ne hne⟩

/-- One client that is ready is received from once, and kept or closed and erased. -/
theorem receive_spec (hFed : ∀ other, ¬Fed other past)
    (hReady : past.filterMap received ++ [fd] <+: ready s past)
    (hFound : (clientSockets.find? fd).isSome) (size : Nat) :
    Spec (MayServe s) (HandlesAfter past fd clientSockets)
      (receive host true drop size fd clientSockets) past := by
  have hMay : MayServe s past (.recv fd size) :=
    ⟨by rintro _ _ ⟨⟩; exact hReady, fun other h => absurd h (hFed other)⟩
  unfold receive
  refine Spec.bind (Q := fun answer past' => past' = past ++ [⟨.recv fd size, answer⟩])
    (Spec.ask hMay fun _ => rfl) ?_
  rintro answer _ rfl
  have hKept (served : ServerTrace) (clientSockets' : Clients)
      (hFed : ∀ other, ¬Fed other (past ++ served)) (hReceived : served.filterMap received = [fd])
      (hClosed : served.filterMap closed = []) (hKept : (clientSockets'.find? fd).isSome)
      (hOther : ∀ other, other ≠ fd → clientSockets'.find? other = clientSockets.find? other) :
      HandlesAfter past fd clientSockets (false, clientSockets') (past ++ served) :=
    ⟨hFed, served, rfl, hReceived, hClosed, hKept, hOther⟩
  rcases answer with _ | _ | _ | ⟨byte, data⟩
  · exact .pure (hKept _ _ (by simp [fed_append]) rfl rfl hFound fun _ _ => rfl)
  · exact evict_spec (by simp [fed_append]) rfl rfl
  · exact evict_spec (by simp [fed_append]) rfl rfl
  dsimp only
  cases hFind : clientSockets.find? fd with
  | none =>
    rw [hFind] at hFound
    cases hFound
  | some client =>
    dsimp only
    have hFeed : MayServe s (past ++ [⟨.recv fd size, .bytes (byte :: data)⟩])
        (.forceLog fd (client.forceLog host (byte :: data))) := by
      refine ⟨by simp, fun other h => ?_⟩
      obtain ⟨_, _, _, hEq⟩ := fed_append.mp h
      cases hEq
      exact ⟨_, rfl⟩
    refine Spec.bind (Q := fun _ past' => past' = past ++ [⟨.recv fd size, .bytes (byte :: data)⟩,
      ⟨.forceLog fd (client.forceLog host (byte :: data)), ()⟩])
      (Spec.ask hFeed fun _ => List.append_assoc _ _ _) ?_
    rintro _ _ rfl
    have hFed' : ∀ other, ¬Fed other (past ++ [⟨.recv fd size, .bytes (byte :: data)⟩,
        ⟨.forceLog fd (client.forceLog host (byte :: data)), ()⟩]) := by
      rw [List.append_cons]
      exact not_fed (by simp)
    split
    · exact ⟨.other hFed' (by simp), fun a => a.elim⟩
    · split
      · exact evict_spec hFed' rfl rfl
      · exact .pure (hKept _ _ hFed' rfl rfl (by simp)
          fun _ hne => SortedMap.find?_insert_of_ne hne)

/-- What is done about the entries `rest`. -/
structure Served (rest : List Pollfd) (before : Clients) (served : ServerTrace)
    (r : List Pollfd × Clients) : Prop where
  received : served.filterMap received = (rest.filter isReadSet).map (·.fd)
  kept : r.1 = rest.filter (·.fd ∉ served.filterMap closed)
  closed : ∀ other ∈ served.filterMap closed, other ∈ rest.map (·.fd)
  clients : ∀ other, (r.2.find? other).isSome ↔
    (before.find? other).isSome ∧ other ∉ served.filterMap LogSocket.closed

/-- An entry that is ready, in front of others. -/
theorem Handles.served {it : Pollfd} {rest : List Pollfd} {served served' : ServerTrace}
    {r : Bool × Clients} {r' : List Pollfd × Clients} (h : Handles it.fd clientSockets served r)
    (hReady : isReadSet it) (hFound : (clientSockets.find? it.fd).isSome)
    (hNot : it.fd ∉ rest.map (·.fd)) (h' : Served rest r.2 served' r') :
    Served (it :: rest) clientSockets (served ++ served')
      (if r.1 then r'.1 else it :: r'.1, r'.2) := by
  obtain ⟨isClosed, clientSockets'⟩ := r
  have hReceived := h.received
  have hClosed := h.closed
  have hKept : it.fd ∉ served'.filterMap LogSocket.closed := fun hIn => hNot (h'.closed _ hIn)
  have hRest : ∀ entry ∈ rest, entry.fd ≠ it.fd := fun entry hEntry hEq =>
    hNot (hEq ▸ List.mem_map_of_mem hEntry)
  refine ⟨?_, ?_, ?_, fun other => ?_⟩
  · rw [List.filterMap_append, hReceived, h'.received, List.filter_cons_of_pos hReady]
    rfl
  · rw [List.filterMap_append, hClosed, h'.kept]
    cases isClosed
    · rw [List.filter_cons_of_pos (by simpa using hKept)]
      rfl
    · rw [List.filter_cons_of_neg (by simp)]
      exact List.filter_congr fun entry hEntry => by simp [hRest entry hEntry]
  · rw [List.filterMap_append, hClosed]
    intro other hOther
    rcases List.mem_append.mp hOther with hOther | hOther
    · cases isClosed
      · cases hOther
      · exact List.mem_singleton.mp hOther ▸ List.mem_cons_self
    · exact List.mem_cons_of_mem _ (h'.closed other hOther)
  · rw [List.filterMap_append, hClosed, h'.clients other, List.mem_append, not_or]
    by_cases hEq : other = it.fd
    · rw [hEq, h.found]
      cases isClosed <;> simp [hFound]
    · rw [h.others other hEq]
      cases isClosed <;> simp [hEq]

/-- An entry that is not ready, in front of others. -/
theorem Served.cons {it : Pollfd} {rest : List Pollfd} {served : ServerTrace}
    {r : List Pollfd × Clients} (h : Served rest clientSockets served r) (hReady : ¬isReadSet it)
    (hNot : it.fd ∉ rest.map (·.fd)) :
    Served (it :: rest) clientSockets served (it :: r.1, r.2) := by
  have hKept : it.fd ∉ served.filterMap LogSocket.closed := fun hIn => hNot (h.closed _ hIn)
  refine ⟨?_, ?_, ?_, h.clients⟩
  · rw [h.received, List.filter_cons_of_neg hReady]
  · rw [List.filter_cons_of_pos (by simpa using hKept), h.kept]
  · intro other hOther
    exact List.mem_cons_of_mem _ (h.closed other hOther)

/-- The calls for some entries, after those of the pass so far. -/
def ServedAfter (past : ServerTrace) (rest : List Pollfd) (before : Clients)
    (r : List Pollfd × Clients) (past' : ServerTrace) : Prop :=
  (∀ other, ¬Fed other past') ∧ ∃ served, past' = past ++ served ∧ Served rest before served r

/-- The loop over the clients receives once from each that is ready. -/
theorem serveClients_served {rest : List Pollfd} (hPast : past ≠ [])
    (hFed : ∀ other, ¬Fed other past)
    (hReady : past.filterMap received ++ (rest.filter isReadSet).map (·.fd) <+: ready s past)
    (hNodup : (rest.map (·.fd)).Nodup) (hFound : ∀ it ∈ rest, (clientSockets.find? it.fd).isSome) :
    Spec (MayServe s) (ServedAfter past rest clientSockets)
      (serveClients host rest clientSockets) past := by
  induction rest generalizing clientSockets past with
  | nil => exact .pure ⟨hFed, [], (List.append_nil _).symm, rfl, rfl, nofun, by simp⟩
  | cons it rest ih =>
    rw [List.map_cons, List.nodup_cons] at hNodup
    have hFoundIt := hFound it List.mem_cons_self
    have hFoundRest := fun entry hEntry => hFound entry (List.mem_cons_of_mem it hEntry)
    unfold serveClients
    split
    next hIt =>
      rw [List.filter_cons_of_pos hIt, List.map_cons] at hReady
      have hFirst : past.filterMap received ++ [it.fd] <+: ready s past := by
        refine List.IsPrefix.trans ?_ hReady
        exact ⟨(rest.filter isReadSet).map (·.fd), by simp⟩
      refine (receive_spec hFed hFirst hFoundIt DEFAULT_BUFFER_LEN).bind ?_
      rintro ⟨isClosed, clientSockets'⟩ _ ⟨hFed', served, rfl, hHandles⟩
      refine (ih (by simp [hPast]) hFed' ?_ hNodup.2 ?_).bind ?_
      · rw [List.filterMap_append, hHandles.received, ready_append hPast, List.append_assoc]
        exact hReady
      · intro entry hEntry
        rw [hHandles.others _ fun hEq => hNodup.1 (hEq ▸ List.mem_map_of_mem hEntry)]
        exact hFoundRest entry hEntry
      rintro ⟨kept, clientSockets''⟩ _ ⟨hFed'', served', rfl, hServed⟩
      refine .pure ⟨hFed'', served ++ served', List.append_assoc _ _ _, ?_⟩
      exact hHandles.served hIt hFoundIt hNodup.1 hServed
    next hIt =>
      rw [List.filter_cons_of_neg hIt] at hReady
      refine (ih hPast hFed hReady hNodup.2 hFoundRest).bind ?_
      rintro ⟨kept, clientSockets'⟩ _ ⟨hFed', served, rfl, hServed⟩
      exact .pure ⟨hFed', served, rfl, hServed.cons hIt hNodup.1⟩

/-- Whichever of the clients are closed, those that are kept have the entries that are left. -/
theorem Represents.serve {listening : Pollfd} {xs ys : List Pollfd} {served : ServerTrace}
    {r : List Pollfd × Clients} (h : Represents l ⟨listening :: (xs ++ ys), clientSockets⟩)
    (hServed : Served xs clientSockets served r) :
    Represents l ⟨listening :: (r.1 ++ ys), r.2⟩ := by
  have hNodup := h.nodup
  simp only [List.map_cons, List.map_append, List.nodup_cons, List.mem_append, not_or,
    List.nodup_append] at hNodup
  obtain ⟨⟨hXs, hYs⟩, -, -, hApart⟩ := hNodup
  constructor
  · exact h.listening
  · refine h.nodup.sublist (List.Sublist.map _ (List.Sublist.cons_cons _ ?_))
    rw [hServed.kept]
    exact List.filter_sublist.append_right ys
  · intro fd
    rw [hServed.clients, ← h.clients]
    simp only [List.map_cons, List.map_append, List.mem_cons, List.mem_append, hServed.kept]
    have hKept : fd ∈ (xs.filter (·.fd ∉ served.filterMap closed)).map (·.fd) ↔
        fd ∈ xs.map (·.fd) ∧ fd ∉ served.filterMap closed := by
      simp only [List.mem_map, List.mem_filter, decide_eq_true_eq]
      constructor
      · rintro ⟨it, ⟨hIt, hNot⟩, rfl⟩
        exact ⟨⟨it, hIt, rfl⟩, hNot⟩
      · rintro ⟨⟨it, hIt, rfl⟩, hNot⟩
        exact ⟨it, ⟨hIt, hNot⟩, rfl⟩
    rw [hKept]
    have hClosed := hServed.closed fd
    have hOther := hApart fd
    grind

theorem Represents.addPollfd (h : Represents l s) (socket : Socket) :
    Represents l (addPollfd socket s) := by
  have hFds := addPollfd_fds socket s
  have hMem (fd : Socket) : fd ∈ (Poll.addPollfd socket s).pollfds.map (·.fd) ↔
      fd = socket ∨ fd ∈ s.pollfds.map (·.fd) := by
    rw [hFds]
    split
    · grind
    · simp [or_comm]
  obtain ⟨fds, hHead⟩ := List.head?_eq_some_iff.mp h.listening
  constructor
  · rw [hFds]
    split
    · exact h.listening
    · simp [hHead]
  · rw [hFds]
    split
    · exact h.nodup
    next hNot => exact h.nodup.append (List.nodup_singleton _) (List.disjoint_singleton.mpr hNot)
  · intro fd
    rw [hMem, h.clients]
    by_cases hEq : fd = socket
    · simp only [hEq, true_or, true_iff]
      exact SortedMap.find?_emplace_isSome
    · simp [Poll.addPollfd, SortedMap.find?_emplace_of_ne hEq, hEq]

/-- The calls for a new connection, after those of the pass so far. -/
theorem acceptClient_accepting (hFed : ∀ other, ¬Fed other past) :
    Spec (MayServe s) (fun new past' => ∃ accepting, past' = past ++ accepting ∧
      Accepting l accepting new) (acceptClient l) past := by
  unfold acceptClient
  refine Spec.bind (Q := fun clientSocket past' => past' = past ++ [⟨.accept l, clientSocket⟩])
    (Spec.ask (.other hFed nofun) fun _ => rfl) ?_
  rintro clientSocket _ rfl
  split
  next hNeg => exact .pure ⟨_, rfl, .failed hNeg⟩
  next hPos =>
    rw [Int.not_lt] at hPos
    refine Spec.bind (Q := fun r past' => past' = past ++ [⟨.accept l, clientSocket⟩,
      ⟨.setNonblock clientSocket, r⟩])
      (Spec.ask (.other (not_fed nofun) nofun) fun _ => List.append_assoc _ _ _) ?_
    rintro r _ rfl
    split
    next hRefused =>
      have hFed' : ∀ other, ¬Fed other (past ++ [⟨.accept l, clientSocket⟩,
          ⟨.setNonblock clientSocket, r⟩]) := by
        rw [List.append_cons]
        exact not_fed nofun
      refine Spec.bind (Q := fun _ past' => past' = past ++ [⟨.accept l, clientSocket⟩,
        ⟨.setNonblock clientSocket, r⟩, ⟨.closesocket clientSocket, ()⟩])
        (Spec.ask (.other hFed' nofun) fun _ => List.append_assoc _ _ _) ?_
      rintro _ _ rfl
      exact .pure ⟨_, rfl, .refused hPos hRefused⟩
    next hReady => exact .pure ⟨_, rfl, .accepted hPos (Int.not_lt.mp hReady)⟩

/-- The state with the socket of a new client, if there is one. -/
def State.join (s : State) (new : Option Socket) : State :=
  new.elim s fun socket => addPollfd socket s

theorem State.join_fds (s : State) (new : Option Socket) :
    let fds := s.pollfds.map (·.fd)
    (s.join new).pollfds.map (·.fd) = fds ++ new.toList.filter (· ∉ fds) := by
  cases new with
  | none => exact (List.append_nil _).symm
  | some socket =>
    refine (addPollfd_fds socket s).trans ?_
    generalize s.pollfds.map (·.fd) = fds
    by_cases hIn : socket ∈ fds <;> simp [hIn]

theorem Represents.join (h : Represents l s) (new : Option Socket) : Represents l (s.join new) := by
  cases new with
  | none => exact h
  | some socket => exact h.addPollfd socket

theorem polled_fds (revents : Nat → UInt16) :
    (polled s revents).map (·.fd) = s.pollfds.map (·.fd) := by
  apply List.ext_getElem <;> simp [polled]

section

variable {revents : Nat → UInt16} {listening : Pollfd}

/-- `poll` leaves the sockets as they are. -/
theorem Represents.entries {entries : List Pollfd} (h : Represents l s)
    (hEntries : polled s revents = entries) : Represents l ⟨entries, s.clientSockets⟩ := by
  rw [← hEntries]
  constructor <;> rw [polled_fds]
  exacts [h.listening, h.nodup, h.clients]

/-- The loop over the clients, up to an entry of `ys`. -/
theorem Represents.serveClients_spec {xs ys : List Pollfd} (h : Represents l s)
    (hEntries : polled s revents = listening :: (xs ++ ys)) (eventCount : Int) :
    Spec (MayServe s) (ServedAfter [pollCall s (eventCount, revents)] xs s.clientSockets)
      (serveClients host xs s.clientSockets) [pollCall s (eventCount, revents)] := by
  have hPolled := h.entries hEntries
  have hNodup : (xs.map (·.fd)).Nodup := by
    have hAll := (List.nodup_cons.mp hPolled.nodup).2
    rw [List.map_append] at hAll
    exact hAll.of_append_left
  have hFound : ∀ it ∈ xs, (s.clientSockets.find? it.fd).isSome := fun it hIt =>
    (hPolled.clients it.fd).mp (by simp [List.mem_map_of_mem hIt])
  refine serveClients_served (by simp) (by simp [Fed]) ?_ hNodup hFound
  rw [ready, hEntries, List.tail_cons, List.filter_append, List.map_append]
  exact List.prefix_append _ _

/-- The clients are served and a connection may have been accepted. -/
theorem Represents.passes {eventCount : Int} {rest kept : List Pollfd} {clientSockets : Clients}
    {served accepting : ServerTrace} {new : Option Socket} (h : Represents l s)
    (hEntries : polled s revents = listening :: rest) (hStay : 0 < eventCount)
    (hServed : Served rest s.clientSockets served (kept, clientSockets))
    (hFed : ∀ fd, ¬Fed fd served) (hAccepting : Accepting l accepting new) :
    Passes l s (.inl (State.join ⟨listening :: kept, clientSockets⟩ new))
      (pollCall s (eventCount, revents) :: (served ++ accepting)) := by
  have hPolled := h.entries hEntries
  have hKept : Represents l ⟨listening :: kept, clientSockets⟩ := by
    rw [← List.append_nil rest] at hPolled
    simpa using hPolled.serve hServed
  have hReceived : served.filterMap received =
      ((polled s revents).tail.filter isReadSet).map (·.fd) := by
    rw [hServed.received, hEntries, List.tail_cons]
  refine .serves hStay hReceived hFed hAccepting (hKept.join new) ?_
  have hFds := polled_fds (s := s) revents
  have hListening : listening.fd = l := by simpa using hKept.listening
  have hRest : kept = rest.filter (·.fd ∉ served.filterMap closed) := hServed.kept
  have hKeptFds : (listening :: kept).map (·.fd) =
      l :: (s.pollfds.map (·.fd)).tail.filter (· ∉ served.filterMap closed) := by
    rw [← hFds, hEntries, List.map_cons, hListening, hRest, List.map_cons, List.tail_cons,
      List.filter_map]
    rfl
  rw [State.join_fds, hKeptFds]

end

/-- From a state at the head of the loop, a pass serves each client that is ready once. -/
theorem pass_passes (h : Represents l s) :
    Spec (MayServe s) (Passes l s) (pass host l s) [] := by
  unfold pass
  refine Spec.bind (Q := fun answer past => past = [pollCall s answer])
    (Spec.ask (.other (by simp [Fed]) nofun) fun _ => rfl) ?_
  rintro ⟨eventCount, revents⟩ _ rfl
  dsimp only
  split
  next hLeave => exact .pure (.leaves hLeave)
  next hStay =>
  rw [Int.not_le] at hStay
  rcases hEntries : polled s revents with _ | ⟨listening, rest⟩
  · cases (h.entries hEntries).listening
  have hSplit : polled s revents = listening :: (rest ++ []) := by rw [hEntries, List.append_nil]
  rw [show (s.pollfds.mapIdx fun i it => { it with revents := revents i }) = polled s revents
    from rfl, hEntries]
  refine (h.serveClients_spec hSplit eventCount).bind ?_
  rintro ⟨kept, clientSockets⟩ _ ⟨hFed, served, rfl, hServed⟩
  have hPasses {accepting : ServerTrace} {new : Option Socket}
      (hAccepting : Accepting l accepting new) :=
    h.passes hEntries hStay hServed (fun other hOther => hFed other (hOther.after _)) hAccepting
  dsimp only
  split
  · refine (acceptClient_accepting (l := l) hFed).bind ?_
    rintro (_ | clientSocket) _ ⟨accepting, rfl, hAccepting⟩
    · exact .pure (hPasses hAccepting)
    · exact .pure (hPasses hAccepting)
  · refine .pure ?_
    rw [← List.append_nil (_ ++ served)]
    exact hPasses .idle

theorem Represents.start (l : Socket) : Represents l (Poll.addPollfd l ⟨[], .empty⟩) := by
  refine ⟨by simp [Poll.addPollfd], by simp [Poll.addPollfd], fun fd => ?_⟩
  by_cases hEq : fd = l
  · simp [Poll.addPollfd, hEq, SortedMap.find?_emplace_isSome]
  · simp [Poll.addPollfd, hEq, SortedMap.find?_emplace_of_ne hEq]

/-- The head of the loop: the socket that was opened first is the listening one. -/
def AtHead (s : State) (past : ServerTrace) : Prop :=
  ∃ l, past.head? = some ⟨.socket, l⟩ ∧ Represents l s

/-- A pass keeps what holds at the head of the loop. -/
theorem pass_represents (h : Represents l s) :
    Spec (fun _ _ => True) (Sum.elim (fun s' _ => Represents l s') fun s' _ => Represents l s')
      (pass host l s) past := by
  have hPass : Spec _ _ (pass host l s) (past ++ []) := (pass_passes h).behind past
  rw [List.append_nil] at hPass
  refine hPass.weaken ?_
  rintro _ _ ⟨more, rfl, hPasses⟩
  cases hPasses with
  | leaves => exact h
  | serves _ _ _ _ hRepresents => exact hRepresents

theorem runServer_atHead (port : Int) (passes : Nat) :
    Spec (fun _ _ => True) (fun r past => ∀ s ∈ r, AtHead s past) (runServer host port passes)
      [] := by
  unfold runServer
  refine Spec.bind (Q := fun l past => past = [⟨.socket, l⟩]) (Spec.ask trivial fun _ => rfl) ?_
  rintro l _ rfl
  suffices h : Spec (fun _ _ => True) (fun r _ => ∀ s ∈ r, Represents l s) _ _ by
    refine h.grows.weaken ?_
    rintro r _ ⟨hRepresents, more, rfl⟩ s hs
    exact ⟨l, rfl, hRepresents s hs⟩
  split
  · exact .pure nofun
  refine (Spec.any (setUp l port SOMAXCONN)).bind fun isReady past _ => ?_
  split
  · refine (Spec.loop passes (fun _ _ => pass_represents) (.start l)).bind ?_
    rintro (s | s) past h
    · refine .pure ?_
      rintro _ ⟨⟩
      exact h
    · exact (Spec.any _).bind fun _ _ _ => .pure nofun
  · exact (Spec.any _).bind fun _ _ _ => .pure nofun

end

/-- What the server does in a pass from `s`, of which `xs` are the entries that the loop over the
clients is done with and `ys` those that it is not. -/
structure Serving (host : Host) (l : Socket) (s : State) : Prop where
  represents : Represents l s
  within : ∀ revents listening xs ys, polled s revents = listening :: (xs ++ ys) →
    ∀ t kept clientSockets,
      Reaches (serveClients host xs s.clientSockets) t (.done (kept, clientSockets)) →
        Represents l ⟨listening :: (kept ++ ys), clientSockets⟩
  mayServe : ∀ t o next, Reaches (pass host l s) t (.call o next) → MayServe s t o
  passes : ∀ t r, Reaches (pass host l s) t (.done r) → Passes l s r t

theorem Represents.serving {l : Socket} {s : State} (host : Host) (h : Represents l s) :
    Serving host l s := by
  refine ⟨h, fun revents listening xs ys hEntries t kept clientSockets hRun => ?_,
    fun t o next hRun => ?_, fun t r hRun => ?_⟩
  · obtain ⟨-, served, -, hServed⟩ := (h.serveClients_spec hEntries 1).reaches hRun
    exact (h.entries hEntries).serve hServed
  · exact ((pass_passes h).reaches hRun).1
  · exact (pass_passes h).reaches hRun

/-- The server represents its clients at the head of its loop, and serves them in a pass. -/
theorem runServer_serving {host : Host} {port : Int} {passes : Nat} {t : ServerTrace} {s : State}
    (hRun : Reaches (runServer host port passes) t (.done (some s))) :
    ∃ l, t.head? = some ⟨.socket, l⟩ ∧ Serving host l s := by
  obtain ⟨l, hHead, h⟩ := (runServer_atHead port passes).reaches hRun s rfl
  exact ⟨l, hHead, h.serving host⟩

/-- A run in which two clients are ready and the first of them is closed. -/
def neighbourTrace : ServerTrace := [⟨.socket, 3⟩, ⟨.setReuseAddr 3, 0⟩, ⟨.setTcpNodelay 3, 0⟩,
  ⟨.setNonblock 3, 0⟩, ⟨.bind 3 9988, 0⟩, ⟨.listen 3 4096, 0⟩, ⟨.poll [3], (1, fun _ => POLLIN)⟩,
  ⟨.accept 3, 5⟩, ⟨.setNonblock 5, 0⟩, ⟨.poll [3, 5], (1, fun i => if i = 0 then POLLIN else 0)⟩,
  ⟨.accept 3, 6⟩, ⟨.setNonblock 6, 0⟩, ⟨.poll [3, 5, 6], (2, fun i => if i = 0 then 0 else POLLIN)⟩,
  ⟨.recv 5 8192, .failed⟩, ⟨.closesocket 5, ()⟩, ⟨.recv 6 8192, .wouldBlock⟩]

theorem runServer_serving_neighbour :
    ∃ s, s.pollfds.map (·.fd) = [3, 6] ∧ ∃ l, neighbourTrace.head? = some ⟨.socket, l⟩ ∧
      Serving byteHost l s := by
  have hRun : ∃ s, s.pollfds.map (·.fd) = [3, 6] ∧
      Reaches (runServer byteHost 9988 3) neighbourTrace (.done (some s)) := by
    refine ⟨?s, ?fds, ?run⟩
    case' run =>
      unfold neighbourTrace
      refine .call (.call (.call (.call (.call (.call (.call (.call (.call ?_))))))))
      refine .call (.call (.call (.call (.call (.call (.call ?_))))))
      exact .here
    case fds => rfl
  obtain ⟨s, hFds, hRun⟩ := hRun
  exact ⟨s, hFds, runServer_serving hRun⟩

end Poll
end LogSocket
