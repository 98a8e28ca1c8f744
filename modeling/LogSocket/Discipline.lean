import LogSocket.EventServers

/-! The moves that an event server is made of. A `Discipline` is an invariant of the clients and the
calls made so far, with the calls that may be made after them, that every move keeps; every server
keeps every discipline in all of its runs. -/

namespace LogSocket

open Lib

abbrev ServerTrace := Trace Request Request.Answer

/-- Whether the server looks at the result of `forceLog`. -/
def EventServer.heeds : EventServer → Bool
  | .poll | .select => true
  | .epoll _ => false

/-- A call that opens or closes no socket and handles no bytes. -/
def Request.Idle : Request → Prop
  | .socket | .accept _ | .recv _ _ | .closesocket _ | .forceLog _ _ => False
  | _ => True

/-- `holds l clientSockets past` is the invariant of a server with the listening socket `l`,
`starting l past` that of its set-up, and `entering l s clientSockets past` the invariant with `s`
accepted but not yet among the clients. -/
structure Discipline (host : Host) (server : EventServer) where
  may : ServerTrace → Request → Prop
  starting : Socket → ServerTrace → Prop
  holds : Socket → Clients → ServerTrace → Prop
  entering : Socket → Socket → Clients → ServerTrace → Prop
  start : may [] .socket ∧ ∀ l, starting l [⟨.socket, l⟩]
  startingIdle {l past o} : starting l past → o.Idle →
    may past o ∧ ∀ a, starting l (past ++ [⟨o, a⟩])
  started {l past} : starting l past → holds l .empty past
  polls {l past} : server = .poll → starting l past →
    holds l (SortedMap.empty.emplace l .new) past
  idle {l clientSockets past o} : holds l clientSockets past → o.Idle →
    may past o ∧ ∀ a, holds l clientSockets (past ++ [⟨o, a⟩])
  accept {l clientSockets past} : holds l clientSockets past →
    may past (.accept l) ∧ ∀ s,
      (s < 0 → holds l clientSockets (past ++ [⟨.accept l, s⟩])) ∧
      (0 ≤ s → entering l s clientSockets (past ++ [⟨.accept l, s⟩]))
  enteringIdle {l s clientSockets past o} : entering l s clientSockets past → o.Idle →
    may past o ∧ ∀ a, entering l s clientSockets (past ++ [⟨o, a⟩])
  enter {l s clientSockets past} : entering l s clientSockets past →
    holds l (clientSockets.emplace s .new) past
  refuse {l s clientSockets past} : entering l s clientSockets past →
    may past (.closesocket s) ∧ holds l clientSockets (past ++ [⟨.closesocket s, ()⟩])
  drop {l s clientSockets past} : holds l clientSockets past →
    may past (.closesocket s) ∧ holds l (clientSockets.erase s) (past ++ [⟨.closesocket s, ()⟩])
  recv {l s clientSockets past} (size : Nat) : holds l clientSockets past →
    (server.heeds → (clientSockets.find? s).isSome) → (server = .poll → s ≠ l) →
    may past (.recv s size) ∧ ∀ received,
      (clientSockets.find? s = none ∨ ∀ byte data, received ≠ .bytes (byte :: data)) →
      holds l clientSockets (past ++ [⟨.recv s size, received⟩])
  feed {l s clientSockets past client} (size : Nat) (byte : UInt8) (data : List UInt8) :
    holds l clientSockets past → (server = .poll → s ≠ l) → clientSockets.find? s = some client →
    let call := client.forceLog host (byte :: data)
    let past' := past ++ [⟨.recv s size, .bytes (byte :: data)⟩]
    let past'' := past' ++ [⟨.forceLog s call, ()⟩]
    may past' (.forceLog s call) ∧
      match call.verdict with
      | .error e => may past'' (.terminate e)
      | .ok goesOn =>
        if server.heeds && !goesOn then
          may past'' (.closesocket s) ∧
            holds l (clientSockets.erase s) (past'' ++ [⟨.closesocket s, ()⟩])
        else holds l (clientSockets.insert s call.client) past''

namespace Discipline

variable {host : Host} {server : EventServer} (d : Discipline host server) {l s : Socket}
  {clientSockets : Clients} {past : ServerTrace}

theorem idle_spec (h : d.holds l clientSockets past) {o : Request} (ho : o.Idle) :
    Spec d.may (fun _ => d.holds l clientSockets) (request o) past :=
  .ask (d.idle h ho).1 (d.idle h ho).2

theorem terminate_spec {α : Type} {Q : α → ServerTrace → Prop} {e : Fail}
    (h : d.may past (.terminate e)) : Spec d.may Q (terminate e) past := ⟨h, nofun⟩

theorem accept_spec (h : d.holds l clientSockets past) :
    Spec d.may (fun s past' => (s < 0 → d.holds l clientSockets past') ∧
      (0 ≤ s → d.entering l s clientSockets past')) (request (.accept l)) past :=
  .ask (d.accept h).1 (d.accept h).2

theorem enteringIdle_spec (h : d.entering l s clientSockets past) {o : Request} (ho : o.Idle) :
    Spec d.may (fun _ => d.entering l s clientSockets) (request o) past :=
  .ask (d.enteringIdle h ho).1 (d.enteringIdle h ho).2

theorem refuse_spec (h : d.entering l s clientSockets past) :
    Spec d.may (fun _ => d.holds l clientSockets) (request (.closesocket s)) past :=
  .ask (d.refuse h).1 fun _ => (d.refuse h).2

theorem drop_spec (h : d.holds l clientSockets past) (s : Socket) :
    Spec d.may (fun _ => d.holds l (clientSockets.erase s)) (request (.closesocket s)) past :=
  .ask (d.drop h).1 fun _ => (d.drop h).2

theorem startingIdle_spec (h : d.starting l past) {o : Request} (ho : o.Idle) :
    Spec d.may (fun _ => d.starting l) (request o) past :=
  .ask (d.startingIdle h ho).1 (d.startingIdle h ho).2

theorem setUp_spec (h : d.starting l past) (port : Int) (backlog : Nat) :
    Spec d.may (fun _ => d.starting l) (setUp l port backlog) past := by
  unfold setUp
  refine (d.startingIdle_spec h (o := .setReuseAddr l) trivial).bind fun _ _ h => ?_
  split
  · exact .pure h
  refine (d.startingIdle_spec h (o := .setTcpNodelay l) trivial).bind fun _ _ h => ?_
  split
  · exact .pure h
  refine (d.startingIdle_spec h (o := .setNonblock l) trivial).bind fun _ _ h => ?_
  split
  · exact .pure h
  refine (d.startingIdle_spec h (o := .bind l port) trivial).bind fun _ _ h => ?_
  split
  · exact .pure h
  refine (d.startingIdle_spec h (o := .listen l backlog) trivial).bind fun _ _ h => ?_
  split
  · exact .pure h
  · exact .pure h

/-- A connection is refused or about to be entered. -/
theorem acceptClient_spec (h : d.holds l clientSockets past) :
    Spec d.may (fun r past' => match r with
      | none => d.holds l clientSockets past'
      | some s => d.entering l s clientSockets past') (acceptClient l) past := by
  unfold acceptClient
  refine (d.accept_spec h).bind fun s past' hs => ?_
  split
  next hNeg => exact .pure (hs.1 hNeg)
  next hNeg =>
    have hEnter := hs.2 (Int.not_lt.mp hNeg)
    refine (d.enteringIdle_spec hEnter (o := .setNonblock s) trivial).bind fun r past'' hEnter => ?_
    split
    · exact (d.refuse_spec hEnter).bind fun _ _ h => .pure h
    · exact .pure hEnter

theorem closeAll_spec (h : d.holds l clientSockets past) (sockets : List Socket) :
    Spec d.may (fun _ past' => ∃ clientSockets, d.holds l clientSockets past')
      (closeAll sockets) past := by
  induction sockets generalizing clientSockets past with
  | nil => exact .pure ⟨_, h⟩
  | cons s sockets ih => exact (d.drop_spec h s).bind fun _ _ h => ih h

theorem cleanUp_spec (h : d.holds l clientSockets past) :
    Spec d.may (fun _ past' => ∃ clientSockets, d.holds l clientSockets past')
      (cleanUp l clientSockets) past := by
  unfold cleanUp
  refine (d.closeAll_spec h _).bind fun _ _ h => ?_
  rcases h with ⟨_, h⟩
  exact (d.drop_spec h l).weaken fun _ _ h => ⟨_, h⟩

/-- The socket `s` of a client is closed or kept, and no other client is touched. -/
def Handled (d : Discipline host server) (l s : Socket) (before : Clients)
    (r : Bool × Clients) (past : ServerTrace) : Prop :=
  d.holds l r.2 past ∧ (∀ other, other ≠ s → r.2.find? other = before.find? other) ∧
    (r.1 = false → (before.find? s).isSome → (r.2.find? s).isSome)

/-- How a server closes the socket of a client. -/
def Drops (d : Discipline host server) (l : Socket) (drop : Socket → Server Unit) : Prop :=
  ∀ s clientSockets past, d.holds l clientSockets past →
    Spec d.may (fun _ => d.holds l (clientSockets.erase s)) (drop s) past

variable {drop : Socket → Server Unit}

theorem evict_spec (hDrops : d.Drops l drop) (h : d.holds l clientSockets past) (s : Socket) :
    Spec d.may (d.Handled l s clientSockets) (evict drop s clientSockets) past :=
  (hDrops s _ _ h).bind fun _ _ h =>
    .pure ⟨h, fun _ hne => SortedMap.find?_erase_of_ne hne, fun hFalse => by cases hFalse⟩

/-- Where a server heeds the result of `forceLog`, it drops a socket by closing it. -/
theorem receive_spec (hDrops : d.Drops l drop)
    (hDrop : server.heeds → drop = fun s => request (.closesocket s))
    (h : d.holds l clientSockets past) (hFound : server.heeds → (clientSockets.find? s).isSome)
    (hListening : server = .poll → s ≠ l) (size : Nat) :
    Spec d.may (d.Handled l s clientSockets)
      (receive host server.heeds drop size s clientSockets) past := by
  rcases d.recv size h hFound hListening with ⟨hMay, hRecv⟩
  have hKept {past'} (h' : d.holds l clientSockets past') :
      d.Handled l s clientSockets (false, clientSockets) past' :=
    ⟨h', fun _ _ => rfl, fun _ hSome => hSome⟩
  unfold receive
  refine Spec.bind (Q := fun received past' => past' = past ++ [⟨.recv s size, received⟩])
    (Spec.ask hMay fun _ => rfl) ?_
  rintro received _ rfl
  rcases received with _ | _ | _ | ⟨byte, data⟩
  · exact .pure (hKept (hRecv _ (.inr (by simp))))
  · exact d.evict_spec hDrops (hRecv _ (.inr (by simp))) s
  · exact d.evict_spec hDrops (hRecv _ (.inr (by simp))) s
  dsimp only
  cases hFind : clientSockets.find? s with
  | none => exact .pure (hKept (hRecv _ (.inl hFind)))
  | some client =>
    dsimp only
    rcases d.feed size byte data h hListening hFind with ⟨hMay, hFeed⟩
    refine Spec.bind (Q := fun _ past' => past' = past ++ [⟨.recv s size, .bytes (byte :: data)⟩] ++
      [⟨.forceLog s (client.forceLog host (byte :: data)), ()⟩]) (Spec.ask hMay fun _ => rfl) ?_
    rintro _ _ rfl
    split
    next e hVerdict =>
      rw [hVerdict] at hFeed
      exact d.terminate_spec hFeed
    next goesOn hVerdict =>
      rw [hVerdict] at hFeed
      dsimp only at hFeed
      split at hFeed
      next hHeeds =>
        rw [if_pos hHeeds, hDrop (Bool.and_eq_true_iff.mp hHeeds).1]
        refine Spec.bind (Spec.ask hFeed.1 fun _ => hFeed.2) fun _ _ h => ?_
        exact .pure ⟨h, fun _ hne => SortedMap.find?_erase_of_ne hne, fun hFalse => by cases hFalse⟩
      next hHeeds =>
        rw [if_neg hHeeds]
        exact .pure ⟨hFeed, fun _ hne => SortedMap.find?_insert_of_ne hne, fun _ _ => by simp⟩

end Discipline

namespace Poll

variable {host : Host} (d : Discipline host .poll) {l : Socket} {clientSockets : Clients}
  {past : ServerTrace}

theorem drops : d.Drops l drop := fun s _ _ h => d.drop_spec h s

/-- Every entry is that of a client, and not of the listening socket. -/
def Polled (l : Socket) (entries : List Pollfd) (clientSockets : Clients) : Prop :=
  ∀ it ∈ entries, (clientSockets.find? it.fd).isSome ∧ it.fd ≠ l

/-- The loop over the clients keeps the entries of those that are left, and touches no others. -/
theorem serveClients_spec {rest : List Pollfd} (h : d.holds l clientSockets past)
    (hNodup : (rest.map (·.fd)).Nodup) (hPolled : Polled l rest clientSockets) :
    Spec d.may (fun r past' => d.holds l r.2 past' ∧ r.1.Sublist rest ∧ Polled l r.1 r.2 ∧
        ∀ other, other ∉ rest.map (·.fd) → r.2.find? other = clientSockets.find? other)
      (serveClients host rest clientSockets) past := by
  induction rest generalizing clientSockets past with
  | nil => exact .pure ⟨h, .slnil, nofun, fun _ _ => rfl⟩
  | cons it rest ih =>
    rw [List.map_cons, List.nodup_cons] at hNodup
    rcases hPolled it List.mem_cons_self with ⟨hFound, hListening⟩
    have hPolled' : Polled l rest clientSockets := fun e he => hPolled e (List.mem_cons_of_mem _ he)
    unfold serveClients
    split
    · refine (d.receive_spec (drops d) (fun _ => rfl) h (fun _ => hFound) (fun _ => hListening)
        DEFAULT_BUFFER_LEN).bind ?_
      rintro ⟨closed, clientSockets'⟩ past' ⟨h', hOther, hKept⟩
      have hRest : Polled l rest clientSockets' := fun e he => by
        rw [hOther e.fd fun hEq => hNodup.1 (hEq ▸ List.mem_map_of_mem he)]
        exact hPolled' e he
      refine (ih h' hNodup.2 hRest).bind ?_
      rintro ⟨kept, clientSockets''⟩ past'' ⟨h'', hSub, hPolled'', hOther'⟩
      refine .pure ⟨h'', ?_, ?_, fun other hne => ?_⟩
      · cases closed
        · exact hSub.cons_cons it
        · exact hSub.cons it
      · cases closed
        · refine List.forall_mem_cons.mpr ⟨⟨?_, hListening⟩, hPolled''⟩
          rw [hOther' _ hNodup.1]
          exact hKept rfl hFound
        · exact hPolled''
      · simp only [List.map_cons, List.mem_cons, not_or] at hne
        exact (hOther' other hne.2).trans (hOther other hne.1)
    · refine (ih h hNodup.2 hPolled').bind ?_
      rintro ⟨kept, clientSockets''⟩ past'' ⟨h'', hSub, hPolled'', hOther'⟩
      refine .pure ⟨h'', hSub.cons_cons it, List.forall_mem_cons.mpr ⟨⟨?_, hListening⟩, hPolled''⟩,
        fun other hne => ?_⟩
      · rw [hOther' _ hNodup.1]
        exact hFound
      · simp only [List.map_cons, List.mem_cons, not_or] at hne
        exact hOther' other hne.2

/-- The entries are distinct, the listening socket's first, and the others are those of clients. -/
structure Ordered (l : Socket) (s : State) : Prop where
  listening : (s.pollfds.map (·.fd)).head? = some l
  nodup : (s.pollfds.map (·.fd)).Nodup
  clients : ∀ fd ∈ (s.pollfds.map (·.fd)).tail, (s.clientSockets.find? fd).isSome

theorem addPollfd_fds (socket : Socket) (s : State) :
    (addPollfd socket s).pollfds.map (·.fd) =
      if socket ∈ s.pollfds.map (·.fd) then s.pollfds.map (·.fd)
      else s.pollfds.map (·.fd) ++ [socket] := by
  have hMem : s.pollfds.any (·.fd = socket) = true ↔ socket ∈ s.pollfds.map (·.fd) := by
    simp
  unfold addPollfd
  split
  next h => rw [if_pos (hMem.mp h)]
  next h =>
    rw [if_neg (fun hIn => h (hMem.mpr hIn)), List.map_append]
    rfl

theorem Ordered.addPollfd {s : State} (h : Ordered l s) (socket : Socket) :
    Ordered l (addPollfd socket s) := by
  rcases List.head?_eq_some_iff.mp h.listening with ⟨fds, hFds⟩
  have hFound : ∀ fd, fd = socket ∨ (s.clientSockets.find? fd).isSome →
      ((Poll.addPollfd socket s).clientSockets.find? fd).isSome := by
    intro fd hfd
    by_cases hEq : fd = socket
    · rw [hEq]
      exact SortedMap.find?_emplace_isSome
    · exact (SortedMap.find?_emplace_of_ne hEq).symm ▸ hfd.resolve_left hEq
  have hClients := h.clients
  have hNodup := h.nodup
  constructor <;> rw [addPollfd_fds] <;> split
  · exact h.listening
  · simp [hFds]
  · exact h.nodup
  next hNot => exact hNodup.append (List.nodup_singleton _) (List.disjoint_singleton.mpr hNot)
  · exact fun fd hfd => hFound fd (.inr (hClients fd hfd))
  · intro fd hfd
    rw [hFds] at hfd hClients
    rcases List.mem_append.mp hfd with hfd | hfd
    · exact hFound fd (.inr (hClients fd hfd))
    · exact hFound fd (.inl (List.mem_singleton.mp hfd))

/-- The state at the head of the loop. -/
def Keeps (l : Socket) (s : State) (past : ServerTrace) : Prop :=
  d.holds l s.clientSockets past ∧ Ordered l s

theorem pass_spec {s : State} (h : Keeps d l s past) :
    Spec d.may (Sum.elim (Keeps d l) fun s' => d.holds l s'.clientSockets) (pass host l s) past := by
  rcases h with ⟨h, hOrdered⟩
  unfold pass
  refine (d.idle_spec h (o := .poll (s.pollfds.map (·.fd))) trivial).bind ?_
  rintro ⟨eventCount, revents⟩ past h
  dsimp only
  split
  · exact .pure h
  generalize hEntries : (s.pollfds.mapIdx fun i it => { it with revents := revents i }) = entries
  have hFds : entries.map (·.fd) = s.pollfds.map (·.fd) := by
    rw [← hEntries]
    apply List.ext_getElem <;> simp
  rcases hOrdered with ⟨hListening, hNodup, hClients⟩
  rw [← hFds] at hListening hNodup hClients
  rcases entries with _ | ⟨listening, rest⟩
  · cases hListening
  rw [List.map_cons, List.head?_cons, Option.some.injEq] at hListening
  subst hListening
  rw [List.map_cons, List.nodup_cons] at hNodup
  have hPolled : Polled listening.fd rest s.clientSockets := fun it hit =>
    ⟨hClients it.fd (List.mem_map_of_mem hit), fun hEq => hNodup.1 (hEq ▸ List.mem_map_of_mem hit)⟩
  refine (serveClients_spec d h hNodup.2 hPolled).bind ?_
  rintro ⟨kept, clientSockets⟩ past ⟨h, hSub, hPolled, -⟩
  have hKept : Ordered listening.fd ⟨listening :: kept, clientSockets⟩ := by
    refine ⟨rfl, ?_, ?_⟩
    · rw [List.map_cons, List.nodup_cons]
      exact ⟨fun hIn => hNodup.1 ((hSub.map _).subset hIn), hNodup.2.sublist (hSub.map _)⟩
    · intro fd hfd
      rcases List.mem_map.mp hfd with ⟨it, hit, rfl⟩
      exact (hPolled it hit).1
  dsimp only
  split
  · refine (d.acceptClient_spec h).bind ?_
    rintro (_ | clientSocket) past h
    · exact .pure ⟨h, hKept⟩
    · exact .pure ⟨d.enter h, hKept.addPollfd clientSocket⟩
  · exact .pure ⟨h, hKept⟩

theorem runServer_spec (port : Int) (passes : Nat) :
    Spec d.may (fun r past => ∃ l, match r with
      | some s => Keeps d l s past
      | none => ∃ clientSockets, d.holds l clientSockets past) (runServer host port passes) [] := by
  unfold runServer
  refine Spec.bind (Q := d.starting) (.ask d.start.1 d.start.2) fun l past h => ?_
  split
  · exact .pure ⟨l, .empty, d.started h⟩
  refine (d.setUp_spec h port SOMAXCONN).bind fun ready past h => ?_
  split
  · have hStart : Keeps d l (addPollfd l ⟨[], .empty⟩) past :=
      ⟨d.polls rfl h, by simp [addPollfd], by simp [addPollfd], by simp [addPollfd]⟩
    refine (Spec.loop passes (fun _ _ => pass_spec d) hStart).bind ?_
    rintro (s | s) past h
    · exact .pure ⟨l, h⟩
    · exact (d.cleanUp_spec h).bind fun _ _ h => .pure ⟨l, h⟩
  · exact (d.cleanUp_spec (d.started h)).bind fun _ _ h => .pure ⟨l, h⟩

end Poll

namespace Select

variable {host : Host} (d : Discipline host .select) {l : Socket} {clientSockets : Clients}
  {past : ServerTrace}

theorem drops : d.Drops l drop := fun s _ _ h => d.drop_spec h s

theorem FD_SET_spec (h : d.holds l clientSockets past) (sockets : List Socket) :
    Spec d.may (fun _ => d.holds l clientSockets) (FD_SET sockets) past := by
  induction sockets with
  | nil => exact .pure h
  | cons s sockets ih =>
    unfold FD_SET
    split
    · exact ih
    · exact d.terminate_spec (d.idle h (o := .terminate _) trivial).1

theorem serveClients_spec {sockets : List Socket} (fds : List Socket)
    (h : d.holds l clientSockets past) (hNodup : sockets.Nodup)
    (hFound : ∀ s ∈ sockets, (clientSockets.find? s).isSome) :
    Spec d.may (d.holds l) (serveClients host fds sockets clientSockets) past := by
  induction sockets generalizing clientSockets past with
  | nil => exact .pure h
  | cons s sockets ih =>
    rw [List.nodup_cons] at hNodup
    have hRest := fun e (he : e ∈ sockets) => hFound e (List.mem_cons_of_mem _ he)
    unfold serveClients
    split
    · refine (d.receive_spec (drops d) (fun _ => rfl) h (fun _ => hFound s List.mem_cons_self)
        nofun DEFAULT_BUFFER_LEN).bind ?_
      rintro ⟨closed, clientSockets'⟩ past ⟨h, hOther, -⟩
      refine ih h hNodup.2 fun e he => ?_
      rw [hOther e fun hEq => hNodup.1 (hEq ▸ he)]
      exact hRest e he
    · exact ih h hNodup.2 hRest

theorem pass_spec (h : d.holds l clientSockets past) :
    Spec d.may (Sum.elim (d.holds l) (d.holds l)) (pass host l clientSockets) past := by
  unfold pass
  refine (FD_SET_spec d h _).bind fun _ past h => ?_
  refine (d.idle_spec h (o := .select _ _) trivial).bind ?_
  rintro ⟨eventCount, fds⟩ past h
  dsimp only
  split
  · exact .pure h
  refine (serveClients_spec d fds h clientSockets.keys_nodup fun s hs => SortedMap.find?_isSome.mpr hs).bind
    fun clientSockets past h => ?_
  split
  · refine (d.acceptClient_spec h).bind ?_
    rintro (_ | clientSocket) past h
    · exact .pure h
    · exact .pure (d.enter h)
  · exact .pure h

theorem runServer_spec (port : Int) (passes : Nat) :
    Spec d.may (fun r past => ∃ l, match r with
      | some clientSockets => d.holds l clientSockets past
      | none => ∃ clientSockets, d.holds l clientSockets past) (runServer host port passes) [] := by
  unfold runServer
  refine Spec.bind (Q := d.starting) (.ask d.start.1 d.start.2) fun l past h => ?_
  split
  · exact .pure ⟨l, .empty, d.started h⟩
  refine (d.setUp_spec h port SOMAXCONN).bind fun ready past h => ?_
  split
  · refine (Spec.loop passes (fun _ _ => pass_spec d) (d.started h)).bind ?_
    rintro (s | s) past h
    · exact .pure ⟨l, h⟩
    · exact (d.cleanUp_spec h).bind fun _ _ h => .pure ⟨l, h⟩
  · exact (d.cleanUp_spec (d.started h)).bind fun _ _ h => .pure ⟨l, h⟩

end Select

namespace Epoll

variable {host : Host} {edgeTrigger : Bool} (d : Discipline host (.epoll edgeTrigger)) {l : Socket}
  {clientSockets : Clients} {past : ServerTrace}

theorem drops (epollFd : Int) : d.Drops l (drop epollFd) := fun s _ _ h =>
  (d.idle_spec h (o := .epollCtlDel epollFd s) trivial).bind fun _ _ h => d.drop_spec h s

theorem acceptOne_spec (epollFd : Int) (h : d.holds l clientSockets past) :
    Spec d.may (d.holds l) (acceptOne epollFd edgeTrigger l clientSockets) past := by
  unfold acceptOne
  refine (d.acceptClient_spec h).bind ?_
  rintro (_ | s) past h
  · exact .pure h
  refine (d.enteringIdle_spec h (o := .epollCtlAdd epollFd s edgeTrigger) trivial).bind
    fun r past h => ?_
  split
  · exact (d.refuse_spec h).bind fun _ _ h => .pure h
  · exact .pure (d.enter h)

theorem serveClient_spec (epollFd : Int) (h : d.holds l clientSockets past) (s : Socket) :
    Spec d.may (d.Handled l s clientSockets)
      (serveClient host epollFd edgeTrigger s clientSockets) past := by
  have hReceive {past} (h : d.holds l clientSockets past) (size : Nat) :=
    d.receive_spec (drops d epollFd) nofun h nofun (show _ → s ≠ l from nofun) size
  unfold serveClient
  split
  · refine (d.idle_spec h (o := .getTotalReadBytes s) trivial).bind ?_
    rintro ⟨ioResult, readBytes⟩ past h
    dsimp only
    split
    · exact d.evict_spec (drops d epollFd) h s
    · split
      · exact d.terminate_spec (d.idle h (o := .terminate _) trivial).1
      · exact hReceive h _
  · exact hReceive h _

theorem serve_spec (epollFd : Int) (h : d.holds l clientSockets past) (fds : List Socket) :
    Spec d.may (d.holds l) (serve host epollFd edgeTrigger l fds clientSockets) past := by
  induction fds generalizing clientSockets past with
  | nil => exact .pure h
  | cons fd fds ih =>
    unfold serve
    split
    · exact (acceptOne_spec d epollFd h).bind fun _ _ h => ih h
    · exact (serveClient_spec d epollFd h fd).bind fun _ _ h => ih h.1

theorem pass_spec (epollFd : Int) (h : d.holds l clientSockets past) :
    Spec d.may (Sum.elim (d.holds l) (d.holds l))
      (pass host epollFd edgeTrigger l clientSockets) past := by
  unfold pass
  refine (d.idle_spec h (o := .epollWait epollFd) trivial).bind ?_
  rintro (_ | _ | fds) past h
  · exact .pure h
  · exact .pure h
  · exact (serve_spec d epollFd h fds).bind fun _ _ h => .pure h

theorem runServer_spec (port : Int) (passes : Nat) :
    Spec d.may (fun r past => ∃ l, match r with
      | some clientSockets => d.holds l clientSockets past
      | none => ∃ clientSockets, d.holds l clientSockets past)
      (runServer host edgeTrigger port passes) [] := by
  unfold runServer
  refine Spec.bind (Q := d.starting) (.ask d.start.1 d.start.2) fun l past h => ?_
  split
  · exact .pure ⟨l, .empty, d.started h⟩
  refine (d.setUp_spec h port LISTEN_BACKLOG).bind fun ready past h => ?_
  have h := d.started h
  split
  · refine (d.idle_spec h (o := .epollCreate 1024) trivial).bind fun epollFd past h => ?_
    split
    · exact (d.drop_spec h l).bind fun _ _ h => .pure ⟨l, _, h⟩
    refine (d.idle_spec h (o := .epollCtlAdd epollFd l edgeTrigger) trivial).bind
      fun _ past h => ?_
    split
    · refine (d.drop_spec h l).bind fun _ _ h => ?_
      exact (d.idle_spec h (o := .close epollFd) trivial).bind fun _ _ h => .pure ⟨l, _, h⟩
    refine (Spec.loop passes (fun _ _ => pass_spec d epollFd) h).bind ?_
    rintro (s | s) past h
    · exact .pure ⟨l, h⟩
    · refine (d.cleanUp_spec h).bind fun _ past h => ?_
      rcases h with ⟨clientSockets, h⟩
      refine (d.idle_spec h (o := .close epollFd) trivial).bind fun _ _ h => ?_
      exact .pure ⟨l, clientSockets, h⟩
  · exact (d.drop_spec h l).bind fun _ _ h => .pure ⟨l, _, h⟩

end Epoll

/-- In every run a server makes calls that the discipline allows, and has clients that it allows at
the head of its loop. -/
theorem EventServer.runServer_spec {host : Host} {server : EventServer}
    (d : Discipline host server) (port : Int) (passes : Nat) :
    Spec d.may (fun r past => ∃ l clientSockets, d.holds l clientSockets past ∧
      ∀ clientSockets', r = some clientSockets' → clientSockets' = clientSockets)
      (server.runServer host port passes) [] := by
  cases server with
  | poll =>
    refine (Poll.runServer_spec d port passes).bind ?_
    rintro (_ | s) past ⟨l, h⟩
    · rcases h with ⟨clientSockets, h⟩
      exact .pure ⟨l, clientSockets, h, nofun⟩
    · exact .pure ⟨l, s.clientSockets, h.1, by rintro _ ⟨⟩; rfl⟩
  | select =>
    refine (Select.runServer_spec d port passes).weaken ?_
    rintro (_ | clientSockets) past ⟨l, h⟩
    · rcases h with ⟨clientSockets, h⟩
      exact ⟨l, clientSockets, h, nofun⟩
    · exact ⟨l, clientSockets, h, by rintro _ ⟨⟩; rfl⟩
  | epoll edgeTrigger =>
    refine (Epoll.runServer_spec d port passes).weaken ?_
    rintro (_ | clientSockets) past ⟨l, h⟩
    · rcases h with ⟨clientSockets, h⟩
      exact ⟨l, clientSockets, h, nofun⟩
    · exact ⟨l, clientSockets, h, by rintro _ ⟨⟩; rfl⟩

end LogSocket
