import LogSocket.Lib.Rely
import LogSocket.PollPasses

/-! Who closes which socket. The Select and the Epoll server close every socket that they open once,
and use none that is not open; their open sockets are at all times the listening one and the keys of
`clientSockets`. The Poll server has the listening socket among its clients and closes it twice. -/

namespace LogSocket

open Lib

/-- The socket that a call opened. -/
def opened : (Σ o : Request, o.Answer) → Option Socket
  | ⟨.socket, s⟩ => if 0 ≤ s then some s else none
  | ⟨.accept _, s⟩ => if 0 ≤ s then some s else none
  | _ => none

/-- The sockets that a call is given. -/
def Request.sockets : Request → List Socket
  | .setReuseAddr s | .setTcpNodelay s | .setNonblock s | .bind s _ | .listen s _ | .accept s
  | .recv s _ | .getTotalReadBytes s | .closesocket s | .epollCtlAdd _ s _ | .epollCtlDel _ s => [s]
  | .poll fds | .select _ fds => fds
  | .socket | .epollCreate _ | .epollWait _ | .close _ | .forceLog _ _ | .terminate _ => []

/-- How much more often a number was opened than closed. -/
def balance (s : Socket) (t : ServerTrace) : Int :=
  (t.filterMap opened).count s - (t.filterMap closed).count s

theorem count_filterMap_append {α : Type} (f : α → Option Socket) (s : Socket) (t : List α)
    (e : α) :
    ((t ++ [e]).filterMap f).count s = (t.filterMap f).count s + if f e = some s then 1 else 0 := by
  cases hf : f e with
  | none => simp [List.filterMap_append, hf]
  | some other => simp [List.filterMap_append, hf, List.count_singleton]

theorem balance_append (s : Socket) (t : ServerTrace) (e : Σ o : Request, o.Answer) :
    balance s (t ++ [e]) = balance s t + (if opened e = some s then 1 else 0) -
      if closed e = some s then 1 else 0 := by
  rw [balance, balance, count_filterMap_append, count_filterMap_append]
  push_cast
  omega

/-- A call is given open sockets. -/
def UsesOpen (past : ServerTrace) (o : Request) : Prop := ∀ s ∈ o.sockets, 0 < balance s past

/-- Every socket is closed as often as it is opened, and no call is given one that is not open. -/
structure ClosesOnce (t : ServerTrace) : Prop where
  closes (s : Socket) : (t.filterMap closed).count s = (t.filterMap opened).count s
  uses : Always (fun past e => UsesOpen past e.1) t

/-- Whether events of the socket are waited for after one more call. -/
def registeredAfter (s : Socket) (registered : Bool) : (Σ o : Request, o.Answer) → Bool
  | ⟨.epollCtlAdd _ fd _, r⟩ => if fd = s ∧ 0 ≤ r then true else registered
  | ⟨.epollCtlDel _ fd, _⟩ => if fd = s then false else registered
  | ⟨.closesocket fd, _⟩ => if fd = s then false else registered
  | _ => registered

def registered (s : Socket) (t : ServerTrace) : Bool := t.foldl (registeredAfter s) false

@[simp] theorem registered_append (s : Socket) (t : ServerTrace) (e : Σ o : Request, o.Answer) :
    registered s (t ++ [e]) = registeredAfter s (registered s t) e := by
  simp [registered]

/-- What the system answers after some calls: `socket` fails with `-1`, no number of an open socket
is given again, and `epoll_wait` has at most one event of each socket that is registered. -/
def Admits (past : ServerTrace) : (Σ o : Request, o.Answer) → Prop
  | ⟨.socket, s⟩ => s = INVALID_SOCKET ∨ 0 ≤ s ∧ balance s past = 0
  | ⟨.accept _, s⟩ => 0 ≤ s → balance s past = 0
  | ⟨.epollWait _, .events fds⟩ => fds.Nodup ∧ ∀ fd ∈ fds, registered fd past
  | _ => True

instance (past : ServerTrace) (e : Σ o : Request, o.Answer) : Decidable (Admits past e) := by
  unfold Admits
  split <;> infer_instance

abbrev Honest (t : ServerTrace) : Prop := Always Admits t

def honest : Rely Request Request.Answer := ⟨Honest, Always.before⟩

/-- Just the sockets of a set are open. -/
structure Owns (sockets : Set Socket) (past : ServerTrace) : Prop where
  opens : ∀ s ∈ sockets, balance s past = 1
  others : ∀ s ∉ sockets, balance s past = 0
  registers : ∀ s, registered s past → s ∈ sockets

/-- A call that opens and closes no socket. -/
def Request.Quiet : Request → Prop
  | .socket | .accept _ | .closesocket _ => False
  | _ => True

theorem registeredAfter_or {s : Socket} {b : Bool} {e : Σ o : Request, o.Answer}
    (h : registeredAfter s b e) : b ∨ s ∈ e.1.sockets := by
  rcases e with ⟨o, a⟩
  cases o <;> simp only [registeredAfter, Request.sockets] at h ⊢ <;> grind

section

variable {sockets : Set Socket} {past : ServerTrace} {s l : Socket} {o : Request}
  {clientSockets : Clients} {rely : Rely Request Request.Answer}

theorem Owns.uses (h : Owns sockets past) (hs : ∀ s ∈ o.sockets, s ∈ sockets) : UsesOpen past o :=
  fun s hMem => by rw [h.opens s (hs s hMem)]; exact Int.one_pos

theorem Owns.quiet (h : Owns sockets past) (ho : o.Quiet) (hs : ∀ s ∈ o.sockets, s ∈ sockets)
    (a : o.Answer) : Owns sockets (past ++ [⟨o, a⟩]) := by
  have hOpened : opened ⟨o, a⟩ = none := by cases o <;> first | rfl | cases ho
  have hClosed : closed ⟨o, a⟩ = none := by cases o <;> first | rfl | cases ho
  have hBalance (s : Socket) : balance s (past ++ [⟨o, a⟩]) = balance s past := by
    simp [balance_append, hOpened, hClosed]
  refine ⟨fun s hMem => ?_, fun s hNot => ?_, fun s hRegistered => ?_⟩
  · rw [hBalance, h.opens s hMem]
  · rw [hBalance, h.others s hNot]
  · rw [registered_append] at hRegistered
    exact (registeredAfter_or hRegistered).elim (h.registers s) (hs s)

/-- A new socket. -/
theorem Owns.opened {e : Σ o : Request, o.Answer} (h : Owns sockets past) (hNot : s ∉ sockets)
    (he : LogSocket.opened e = some s) : Owns (insert s sockets) (past ++ [e]) := by
  have hClosed : closed e = none := by
    rcases e with ⟨o, a⟩
    cases o <;> first | rfl | cases he
  have hAfter (other : Socket) (b : Bool) : registeredAfter other b e = b := by
    rcases e with ⟨o, a⟩
    cases o <;> first | rfl | cases he
  refine ⟨fun other hMem => ?_, fun other hNotMem => ?_, fun other hRegistered => ?_⟩
  · obtain rfl | hMem := hMem
    · simp [balance_append, he, hClosed, h.others _ hNot]
    · have hne : s ≠ other := fun hEq => hNot (hEq ▸ hMem)
      simp [balance_append, he, hClosed, h.opens _ hMem, hne]
  · rw [Set.mem_insert_iff, not_or] at hNotMem
    simp [balance_append, he, hClosed, h.others _ hNotMem.2, Ne.symm hNotMem.1]
  · rw [registered_append, hAfter] at hRegistered
    exact .inr (h.registers other hRegistered)

theorem Owns.closed (h : Owns sockets past) (hs : s ∈ sockets) :
    Owns (sockets \ {s}) (past ++ [⟨.closesocket s, ()⟩]) := by
  have hBalance (other : Socket) : balance other (past ++ [⟨.closesocket s, ()⟩]) =
      balance other past - if s = other then 1 else 0 := by
    simp [balance_append, LogSocket.opened, LogSocket.closed]
  refine ⟨fun other hMem => ?_, fun other hNot => ?_, fun other hRegistered => ?_⟩
  · rw [hBalance, h.opens other hMem.1, if_neg (Ne.symm hMem.2)]
    rfl
  · by_cases hEq : s = other
    · rw [hBalance, ← hEq, h.opens s hs, if_pos rfl]
      rfl
    · rw [hBalance, h.others other fun hMem => hNot ⟨hMem, Ne.symm hEq⟩, if_neg hEq]
      rfl
  · rw [registered_append, registeredAfter] at hRegistered
    split at hRegistered
    · cases hRegistered
    next hne => exact ⟨h.registers other hRegistered, Ne.symm hne⟩

theorem quiet_spec (h : Owns sockets past) (ho : o.Quiet) (hs : ∀ s ∈ o.sockets, s ∈ sockets) :
    SpecOn rely UsesOpen (fun _ => Owns sockets) (request o) past :=
  .ask (h.uses hs) fun a _ => h.quiet ho hs a

theorem close_spec (h : Owns sockets past) (hs : s ∈ sockets) :
    SpecOn rely UsesOpen (fun _ => Owns (sockets \ {s})) (request (.closesocket s)) past :=
  .ask (h.uses (by simpa [Request.sockets] using hs)) fun _ _ => h.closed hs

theorem ends_spec {α : Type} {Q : α → ServerTrace → Prop} (e : Fail) :
    SpecOn rely UsesOpen Q (terminate e) past := ⟨fun _ _ hMem => (nomatch hMem), nofun⟩

theorem closeAll_owns {closing : List Socket} (h : Owns sockets past) (hNodup : closing.Nodup)
    (hs : ∀ s ∈ closing, s ∈ sockets) :
    SpecOn rely UsesOpen (fun _ => Owns (sockets \ {s | s ∈ closing})) (closeAll closing) past := by
  induction closing generalizing sockets past with
  | nil => exact .pure fun _ => by simpa using h
  | cons s closing ih =>
    rw [List.nodup_cons] at hNodup
    refine (close_spec h (hs s List.mem_cons_self)).bind fun _ _ h => ?_
    refine (ih h hNodup.2 fun other hMem => ⟨hs other (List.mem_cons_of_mem s hMem), ?_⟩).weaken ?_
    · rintro rfl
      exact hNodup.1 hMem
    · rintro _ _ h
      rw [Set.sdiff_sdiff] at h
      have hCons : {s} ∪ {s | s ∈ closing} = {other | other ∈ s :: closing} := by
        ext other
        simp
      exact hCons ▸ h

/-- The listening socket and those of the clients. -/
def openSockets (l : Socket) (clientSockets : Clients) : Set Socket :=
  {s | s = l ∨ (clientSockets.find? s).isSome}

/-- The open sockets are the listening one, which is no client's, and those of the clients. -/
structure Owning (l : Socket) (clientSockets : Clients) (past : ServerTrace) : Prop where
  owns : Owns (openSockets l clientSockets) past
  listening : clientSockets.find? l = none

/-- A socket that is open has no client yet. -/
structure Opening (l s : Socket) (clientSockets : Clients) (past : ServerTrace) : Prop where
  owns : Owns (insert s (openSockets l clientSockets)) past
  listening : clientSockets.find? l = none
  new : s ∉ openSockets l clientSockets

theorem listening_mem : l ∈ openSockets l clientSockets := .inl rfl

theorem Opening.entered (h : Opening l s clientSockets past) :
    Owning l (clientSockets.emplace s .new) past := by
  have hne : l ≠ s := fun hEq => h.new (hEq ▸ listening_mem)
  refine ⟨?_, by rw [SortedMap.find?_emplace_of_ne hne, h.listening]⟩
  have hSockets : openSockets l (clientSockets.emplace s .new) =
      insert s (openSockets l clientSockets) := by
    ext other
    by_cases hEq : other = s
    · simp [openSockets, hEq, SortedMap.find?_emplace_isSome]
    · simp [openSockets, hEq, SortedMap.find?_emplace_of_ne hEq]
  exact hSockets ▸ h.owns

theorem Opening.refused_spec (h : Opening l s clientSockets past) :
    SpecOn rely UsesOpen (fun _ => Owning l clientSockets) (request (.closesocket s)) past := by
  refine (close_spec h.owns (Set.mem_insert _ _)).weaken fun _ _ hOwns => ⟨?_, h.listening⟩
  rwa [Set.insert_sdiff_self_of_notMem h.new] at hOwns

theorem Opening.quiet_spec (h : Opening l s clientSockets past) (ho : o.Quiet)
    (hs : ∀ other ∈ o.sockets, other = s) :
    SpecOn rely UsesOpen (fun _ => Opening l s clientSockets) (request o) past :=
  (LogSocket.quiet_spec h.owns ho fun other hMem => .inl (hs other hMem)).weaken
    fun _ _ hOwns => ⟨hOwns, h.listening, h.new⟩

theorem Owning.quiet_spec (h : Owning l clientSockets past) (ho : o.Quiet)
    (hs : ∀ s ∈ o.sockets, s ∈ openSockets l clientSockets) :
    SpecOn rely UsesOpen (fun _ => Owning l clientSockets) (request o) past :=
  (LogSocket.quiet_spec h.owns ho hs).weaken fun _ _ hOwns => ⟨hOwns, h.listening⟩

/-- The socket of a client is closed and erased. -/
theorem Owning.close_spec (h : Owning l clientSockets past)
    (hFound : (clientSockets.find? s).isSome) :
    SpecOn rely UsesOpen (fun _ => Owning l (clientSockets.erase s)) (request (.closesocket s))
      past := by
  have hne : l ≠ s := by
    rintro rfl
    rw [h.listening] at hFound
    cases hFound
  refine (LogSocket.close_spec h.owns (.inr hFound)).weaken fun _ _ hOwns => ⟨?_, ?_⟩
  · have hSockets : openSockets l (clientSockets.erase s) = openSockets l clientSockets \ {s} := by
      ext other
      by_cases hEq : other = s
      · simp [openSockets, hEq, hne.symm]
      · simp [openSockets, hEq, SortedMap.find?_erase_of_ne hEq]
    exact hSockets ▸ hOwns
  · rw [SortedMap.find?_erase_of_ne hne, h.listening]

/-- Other data is kept for a client. -/
theorem Owning.insert (h : Owning l clientSockets past) (hFound : (clientSockets.find? s).isSome)
    (client : Client) : Owning l (clientSockets.insert s client) past := by
  have hFind (other : Socket) : ((clientSockets.insert s client).find? other).isSome =
      (clientSockets.find? other).isSome := by
    by_cases hEq : other = s
    · simp [hEq, hFound]
    · rw [SortedMap.find?_insert_of_ne hEq]
  refine ⟨?_, ?_⟩
  · have hSockets :
        openSockets l (clientSockets.insert s client) = openSockets l clientSockets := by
      simp only [openSockets, hFind]
    exact hSockets ▸ h.owns
  · have hNone := hFind l
    rw [h.listening] at hNone
    exact Option.isNone_iff_eq_none.mp (by simpa using hNone)

theorem cleanUp_owns (h : Owning l clientSockets past) :
    SpecOn rely UsesOpen (fun _ => Owns ∅) (cleanUp l clientSockets) past := by
  have hKey (s : Socket) : s ∈ clientSockets.entries.map (·.1) ↔ (clientSockets.find? s).isSome :=
    SortedMap.find?_isSome.symm
  refine (closeAll_owns h.owns clientSockets.keys_nodup fun s hMem => .inr ((hKey s).mp hMem)).bind ?_
  intro _ _ hOwns
  have hListening : l ∉ clientSockets.entries.map (·.1) := by simp [hKey, h.listening]
  refine (LogSocket.close_spec hOwns ⟨listening_mem, hListening⟩).weaken fun _ _ hOwns => ?_
  have hNone : (openSockets l clientSockets \ {s | s ∈ clientSockets.entries.map (·.1)}) \ {l} =
      ∅ := by
    ext s
    simp only [openSockets, hKey, Set.mem_sdiff, Set.mem_ofPred_eq, Set.mem_singleton_iff]
    simp only [Set.mem_empty_iff_false]
    tauto
  exact hNone ▸ hOwns

/-- A connection is refused, or its socket is open. -/
theorem acceptClient_owning (h : Owning l clientSockets past) :
    SpecOn honest UsesOpen (fun r past' => match r with
      | none => Owning l clientSockets past'
      | some s => Opening l s clientSockets past') (acceptClient l) past := by
  have hMay : UsesOpen past (.accept l) := h.owns.uses (by simp [Request.sockets, listening_mem])
  unfold acceptClient
  refine SpecOn.bind (Q := fun s past' => (s < 0 → Owning l clientSockets past') ∧
    (0 ≤ s → Opening l s clientSockets past')) (SpecOn.ask hMay fun s hHonest => ?_) ?_
  · refine ⟨fun hNeg => ?_, fun hPos => ?_⟩
    · have hOpened : opened ⟨.accept l, s⟩ = none := if_neg (Int.not_le.mpr hNeg)
      refine ⟨⟨fun other hMem => ?_, fun other hNot => ?_, fun other hRegistered => ?_⟩,
        h.listening⟩
      · simp [balance_append, hOpened, closed, h.owns.opens other hMem]
      · simp [balance_append, hOpened, closed, h.owns.others other hNot]
      · exact h.owns.registers other (by simpa [registeredAfter] using hRegistered)
    · have hOpened : opened ⟨.accept l, s⟩ = some s := if_pos hPos
      have hNew : s ∉ openSockets l clientSockets := fun hMem => by
        have hFresh : balance s past = 0 := hHonest.last hPos
        rw [h.owns.opens s hMem] at hFresh
        cases hFresh
      exact ⟨h.owns.opened hNew hOpened, h.listening, hNew⟩
  rintro s past' ⟨hFailed, hOpening⟩
  split
  next hNeg => exact .pure fun _ => hFailed hNeg
  next hNeg =>
  refine ((hOpening (Int.not_lt.mp hNeg)).quiet_spec (o := .setNonblock s) trivial
    (by simp [Request.sockets])).bind fun r past' hOpening => ?_
  split
  · exact hOpening.refused_spec.bind fun _ _ h => .pure fun _ => h
  · exact .pure fun _ => hOpening

/-- How a server closes the socket of a client. -/
def Closes (l : Socket) (drop : Socket → Server Unit) : Prop :=
  ∀ s clientSockets past, Owning l clientSockets past → (clientSockets.find? s).isSome →
    SpecOn honest UsesOpen (fun _ => Owning l (clientSockets.erase s)) (drop s) past

/-- The client of `s` is closed or kept, and no other client is touched. -/
def Treated (l s : Socket) (before : Clients) (r : Bool × Clients) (past : ServerTrace) : Prop :=
  Owning l r.2 past ∧ ∀ other, other ≠ s → r.2.find? other = before.find? other

variable {host : Host} {drop : Socket → Server Unit}

theorem evict_owning (hDrop : Closes l drop) (h : Owning l clientSockets past)
    (hFound : (clientSockets.find? s).isSome) :
    SpecOn honest UsesOpen (Treated l s clientSockets) (evict drop s clientSockets) past :=
  (hDrop s _ _ h hFound).bind fun _ _ h =>
    .pure fun _ => ⟨h, fun _ hne => SortedMap.find?_erase_of_ne hne⟩

theorem receive_owning (heeds : Bool) (hDrop : Closes l drop) (h : Owning l clientSockets past)
    (hFound : (clientSockets.find? s).isSome) (size : Nat) :
    SpecOn honest UsesOpen (Treated l s clientSockets)
      (receive host heeds drop size s clientSockets) past := by
  unfold receive
  refine (h.quiet_spec (o := .recv s size) trivial
    (by simpa [Request.sockets, openSockets] using .inr hFound)).bind fun answer past h => ?_
  rcases answer with _ | _ | _ | ⟨byte, data⟩
  · exact .pure fun _ => ⟨h, fun _ _ => rfl⟩
  · exact evict_owning hDrop h hFound
  · exact evict_owning hDrop h hFound
  dsimp only
  cases hFind : clientSockets.find? s with
  | none => exact .pure fun _ => ⟨h, fun _ _ => rfl⟩
  | some client =>
    dsimp only
    refine (h.quiet_spec (o := .forceLog s (client.forceLog host (byte :: data))) trivial
      nofun).bind fun _ past h => ?_
    split
    · exact ends_spec _
    · split
      · exact evict_owning hDrop h hFound
      · exact .pure fun _ => ⟨h.insert hFound _, fun _ hne => SortedMap.find?_insert_of_ne hne⟩

/-- A call of the set-up failed. -/
def failed : (Σ o : Request, o.Answer) → Prop
  | ⟨.socket, r⟩ => r < 0
  | ⟨.setReuseAddr _, r⟩ => r < 0
  | ⟨.setTcpNodelay _, r⟩ => r < 0
  | ⟨.setNonblock _, r⟩ => r < 0
  | ⟨.bind _ _, r⟩ => r < 0
  | ⟨.listen _ _, r⟩ => r < 0
  | _ => False

instance (e : Σ o : Request, o.Answer) : Decidable (failed e) := by
  unfold failed
  split <;> infer_instance

/-- One of the six calls of the set-up failed. -/
def SetUpFails (t : ServerTrace) : Prop := ∃ e ∈ t.take 6, failed e

instance (t : ServerTrace) : Decidable (SetUpFails t) :=
  inferInstanceAs (Decidable (∃ e ∈ t.take 6, _))

theorem SetUpFails.append (h : SetUpFails past) (more : ServerTrace) :
    SetUpFails (past ++ more) := by
  obtain ⟨e, hMem, hFailed⟩ := h
  exact ⟨e, List.take_append.symm ▸ List.mem_append_left _ hMem, hFailed⟩

/-- The first `n` calls of the set-up succeeded. -/
def Succeeded (n : Nat) (past : ServerTrace) : Prop :=
  past.length = n ∧ ∀ e ∈ past, ¬failed e

theorem Succeeded.not_setUpFails (h : Succeeded 6 past) (more : ServerTrace) :
    ¬SetUpFails (past ++ more) := by
  rintro ⟨e, hMem, hFailed⟩
  rw [List.take_left' h.1] at hMem
  exact h.2 e hMem hFailed

theorem Succeeded.fails {n : Nat} (h : Succeeded n past) (hn : n < 6) {e : Σ o : Request, o.Answer}
    (he : failed e) : SetUpFails (past ++ [e]) := by
  refine ⟨e, ?_, he⟩
  rw [List.take_of_length_le (by simp [h.1]; omega)]
  exact List.mem_append_right _ List.mem_cons_self

theorem Succeeded.succ {n : Nat} (h : Succeeded n past) {e : Σ o : Request, o.Answer}
    (he : ¬failed e) : Succeeded (n + 1) (past ++ [e]) :=
  ⟨by simp [h.1], List.forall_mem_append.mpr ⟨h.2, List.forall_mem_singleton.mpr he⟩⟩

/-- A call of the set-up fails or leads on to the next. -/
theorem setUpCall_spec {n : Nat} (h : Owns sockets past ∧ Succeeded n past) (hn : n < 6)
    (ho : o.Quiet) (hs : ∀ s ∈ o.sockets, s ∈ sockets) :
    SpecOn rely UsesOpen (fun a past' =>
      (failed ⟨o, a⟩ → Owns sockets past' ∧ SetUpFails past') ∧
      (¬failed ⟨o, a⟩ → Owns sockets past' ∧ Succeeded (n + 1) past')) (request o) past :=
  .ask (h.1.uses hs) fun a _ =>
    ⟨fun hFailed => ⟨h.1.quiet ho hs a, h.2.fails hn hFailed⟩,
      fun hNot => ⟨h.1.quiet ho hs a, h.2.succ hNot⟩⟩

theorem setUp_owns (h : Owns sockets past ∧ Succeeded 1 past) (hl : l ∈ sockets) (port : Int)
    (backlog : Nat) :
    SpecOn rely UsesOpen (fun ready past' => Owns sockets past' ∧
      if ready then Succeeded 6 past' else SetUpFails past') (setUp l port backlog) past := by
  have hs : ∀ s ∈ [l], s ∈ sockets := List.forall_mem_singleton.mpr hl
  have hOut (past' : ServerTrace) (h : Owns sockets past' ∧ SetUpFails past') :
      SpecOn rely UsesOpen (fun ready past' => Owns sockets past' ∧
        if ready then Succeeded 6 past' else SetUpFails past') (pure false) past' :=
    .pure fun _ => h
  unfold setUp
  refine .guard (setUpCall_spec (o := .setReuseAddr l) h (by decide) trivial hs) hOut fun _ h => ?_
  refine .guard (setUpCall_spec (o := .setTcpNodelay l) h (by decide) trivial hs) hOut fun _ h => ?_
  refine .guard (setUpCall_spec (o := .setNonblock l) h (by decide) trivial hs) hOut fun _ h => ?_
  refine .guard (setUpCall_spec (o := .bind l port) h (by decide) trivial hs) hOut fun _ h => ?_
  refine .guard (setUpCall_spec (o := .listen l backlog) h (by decide) trivial hs) hOut ?_
  exact fun _ h => .pure fun _ => h

theorem openSockets_empty : openSockets l .empty = {l} := by
  ext s
  simp [openSockets]

/-- The socket that is to be the listening one is open or could not be opened. -/
theorem socket_spec (hRely : ∀ t, rely.holds t → Honest t) :
    SpecOn rely UsesOpen (fun l past =>
      l = INVALID_SOCKET ∧ Owns ∅ past ∧ SetUpFails past ∨
      0 ≤ l ∧ Owning l .empty past ∧ Succeeded 1 past) (request .socket) [] := by
  have hNone : Owns ∅ [] := ⟨nofun, fun _ _ => rfl, nofun⟩
  refine .ask nofun fun l hHolds => ?_
  have hStart : Succeeded 0 [] := ⟨rfl, nofun⟩
  have hAnswer : l = INVALID_SOCKET ∨ 0 ≤ l ∧ balance l [] = 0 := (hRely _ hHolds).last
  rcases hAnswer with rfl | ⟨hPos, -⟩
  · have hFailed : failed ⟨.socket, INVALID_SOCKET⟩ := by decide
    exact .inl ⟨rfl, ⟨nofun, fun _ _ => rfl, nofun⟩, hStart.fails (by decide) hFailed⟩
  · have hNot : ¬failed ⟨.socket, l⟩ := Int.not_lt.mpr hPos
    refine .inr ⟨hPos, ⟨?_, rfl⟩, hStart.succ hNot⟩
    have hOpened : opened ⟨.socket, l⟩ = some l := if_pos hPos
    have hOwns := hNone.opened (Set.notMem_empty l) hOpened
    rwa [insert_empty_eq, ← openSockets_empty] at hOwns

theorem close_listening (h : Owning l .empty past) :
    SpecOn rely UsesOpen (fun _ => Owns ∅) (request (.closesocket l)) past := cleanUp_owns h

end

namespace Select

variable {host : Host} {l : Socket} {clientSockets : Clients} {past : ServerTrace}

theorem closes : Closes l drop := fun _ _ _ h hFound => h.close_spec hFound

theorem FD_SET_owning (h : Owning l clientSockets past) (sockets : List Socket) :
    SpecOn honest UsesOpen (fun _ => Owning l clientSockets) (FD_SET sockets) past := by
  induction sockets with
  | nil => exact .pure fun _ => h
  | cons s sockets ih =>
    unfold FD_SET
    split
    · exact ih
    · exact ends_spec _

theorem serveClients_owning {sockets : List Socket} (fds : List Socket)
    (h : Owning l clientSockets past) (hNodup : sockets.Nodup)
    (hFound : ∀ s ∈ sockets, (clientSockets.find? s).isSome) :
    SpecOn honest UsesOpen (Owning l) (serveClients host fds sockets clientSockets) past := by
  induction sockets generalizing clientSockets past with
  | nil => exact .pure fun _ => h
  | cons s sockets ih =>
    rw [List.nodup_cons] at hNodup
    have hRest := fun e (he : e ∈ sockets) => hFound e (List.mem_cons_of_mem _ he)
    unfold serveClients
    split
    · refine (receive_owning true closes h (hFound s List.mem_cons_self) DEFAULT_BUFFER_LEN).bind ?_
      rintro ⟨isClosed, clientSockets'⟩ past ⟨h, hOther⟩
      refine ih h hNodup.2 fun e he => ?_
      rw [hOther e fun hEq => hNodup.1 (hEq ▸ he)]
      exact hRest e he
    · exact ih h hNodup.2 hRest

theorem pass_owning (h : Owning l clientSockets past) :
    SpecOn honest UsesOpen (Sum.elim (Owning l) (Owning l)) (pass host l clientSockets) past := by
  have hKey (s : Socket) : s ∈ clientSockets.entries.map (·.1) → (clientSockets.find? s).isSome :=
    SortedMap.find?_isSome.mpr
  unfold pass
  refine (FD_SET_owning h _).bind fun _ past h => ?_
  refine (h.quiet_spec (o := .select _ _) trivial fun s hMem => ?_).bind ?_
  · exact (List.mem_cons.mp hMem).imp id (hKey s)
  rintro ⟨eventCount, fds⟩ past h
  dsimp only
  split
  · exact .pure fun _ => h
  refine (serveClients_owning fds h clientSockets.keys_nodup hKey).bind fun clientSockets past h => ?_
  split
  · refine (acceptClient_owning h).bind ?_
    rintro (_ | clientSocket) past h
    · exact .pure fun _ => h
    · exact .pure fun _ => h.entered
  · exact .pure fun _ => h

theorem runServer_owns (port : Int) (passes : Nat) :
    SpecOn honest UsesOpen (fun r past => r = none → Owns ∅ past) (runServer host port passes)
      [] := by
  unfold runServer
  refine (socket_spec fun _ h => h).bind ?_
  rintro l past (⟨rfl, hNone, -⟩ | ⟨hPos, h, hSetUp⟩)
  · exact .pure fun _ _ => hNone
  split
  next hInvalid => exact absurd hPos (hInvalid ▸ by decide)
  refine (setUp_owns ⟨h.owns, hSetUp⟩ listening_mem port SOMAXCONN).bind ?_
  rintro ready past ⟨hOwns, -⟩
  have h : Owning l .empty past := ⟨hOwns, rfl⟩
  split
  · refine (SpecOn.loop passes (fun _ _ => pass_owning) h).bind ?_
    rintro (clientSockets | clientSockets) past h
    · exact .pure nofun
    · exact (cleanUp_owns h).bind fun _ _ hNone => .pure fun _ _ => hNone
  · exact (cleanUp_owns h).bind fun _ _ hNone => .pure fun _ _ => hNone

end Select

namespace Epoll

variable {host : Host} {edgeTrigger : Bool} {l : Socket} {clientSockets : Clients}
  {past : ServerTrace}

theorem closes (epollFd : Int) : Closes l (drop epollFd) := fun s _ _ h hFound =>
  (h.quiet_spec (o := .epollCtlDel epollFd s) trivial
    (by simpa [Request.sockets, openSockets] using .inr hFound)).bind
      fun _ _ h => h.close_spec hFound

/-- A new client may be added, and none is lost. -/
theorem acceptOne_owning (epollFd : Int) (h : Owning l clientSockets past) :
    SpecOn honest UsesOpen (fun r past' => Owning l r past' ∧
      openSockets l clientSockets ⊆ openSockets l r)
      (acceptOne epollFd edgeTrigger l clientSockets) past := by
  unfold acceptOne
  refine (acceptClient_owning h).bind ?_
  rintro (_ | s) past h
  · exact .pure fun _ => ⟨h, subset_rfl⟩
  refine (h.quiet_spec (o := .epollCtlAdd epollFd s edgeTrigger) trivial
    (by simp [Request.sockets])).bind fun r past h => ?_
  split
  · exact h.refused_spec.bind fun _ _ h => .pure fun _ => ⟨h, subset_rfl⟩
  · refine .pure fun _ => ⟨h.entered, fun other hMem => hMem.imp id fun hFound => ?_⟩
    have hne : other ≠ s := fun hEq => h.new (hEq ▸ .inr hFound)
    rwa [SortedMap.find?_emplace_of_ne hne]

theorem serveClient_owning (epollFd : Int) (h : Owning l clientSockets past) {s : Socket}
    (hFound : (clientSockets.find? s).isSome) :
    SpecOn honest UsesOpen (Treated l s clientSockets)
      (serveClient host epollFd edgeTrigger s clientSockets) past := by
  unfold serveClient
  split
  · refine (h.quiet_spec (o := .getTotalReadBytes s) trivial
      (by simpa [Request.sockets, openSockets] using .inr hFound)).bind ?_
    rintro ⟨ioResult, readBytes⟩ past h
    dsimp only
    split
    · exact evict_owning (closes epollFd) h hFound
    · split
      · exact ends_spec _
      · exact receive_owning false (closes epollFd) h hFound _
  · exact receive_owning false (closes epollFd) h hFound _

theorem serve_owning (epollFd : Int) {fds : List Socket} (h : Owning l clientSockets past)
    (hNodup : fds.Nodup) (hOpen : ∀ fd ∈ fds, fd ∈ openSockets l clientSockets) :
    SpecOn honest UsesOpen (Owning l) (serve host epollFd edgeTrigger l fds clientSockets)
      past := by
  induction fds generalizing clientSockets past with
  | nil => exact .pure fun _ => h
  | cons fd fds ih =>
    rw [List.nodup_cons] at hNodup
    have hRest := fun other (hMem : other ∈ fds) => hOpen other (List.mem_cons_of_mem fd hMem)
    unfold serve
    split
    · refine (acceptOne_owning epollFd h).bind ?_
      rintro clientSockets' past ⟨h, hKept⟩
      exact ih h hNodup.2 fun other hMem => hKept (hRest other hMem)
    next hne =>
      have hFound := (hOpen fd List.mem_cons_self).resolve_left hne
      refine (serveClient_owning epollFd h hFound).bind ?_
      rintro ⟨isClosed, clientSockets'⟩ past ⟨h, hOther⟩
      refine ih h hNodup.2 fun other hMem => (hRest other hMem).imp id fun hFound => ?_
      rwa [hOther other fun hEq => hNodup.1 (hEq ▸ hMem)]

theorem pass_owning (epollFd : Int) (h : Owning l clientSockets past) :
    SpecOn honest UsesOpen (Sum.elim (Owning l) (Owning l))
      (pass host epollFd edgeTrigger l clientSockets) past := by
  unfold pass
  refine SpecOn.bind (Q := fun answer past' => Owning l clientSockets past' ∧
      ∀ fds, answer = .events fds → fds.Nodup ∧ ∀ fd ∈ fds, fd ∈ openSockets l clientSockets)
    (SpecOn.ask nofun fun answer hHonest => ?_) ?_
  · refine ⟨⟨h.owns.quiet (o := .epollWait epollFd) trivial nofun answer, h.listening⟩, ?_⟩
    rintro fds rfl
    obtain ⟨hNodup, hRegistered⟩ := hHonest.last
    exact ⟨hNodup, fun fd hMem => h.owns.registers fd (hRegistered fd hMem)⟩
  rintro (_ | _ | fds) past ⟨h, hEvents⟩
  · exact .pure fun _ => h
  · exact .pure fun _ => h
  · obtain ⟨hNodup, hOpen⟩ := hEvents fds rfl
    exact (serve_owning epollFd h hNodup hOpen).bind fun _ _ h => .pure fun _ => h

theorem runServer_owns (port : Int) (passes : Nat) :
    SpecOn honest UsesOpen (fun r past => r = none → Owns ∅ past)
      (runServer host edgeTrigger port passes) [] := by
  unfold runServer
  refine (socket_spec fun _ h => h).bind ?_
  rintro l past (⟨rfl, hNone, -⟩ | ⟨hPos, h, hSetUp⟩)
  · exact .pure fun _ _ => hNone
  rw [if_neg (Int.not_lt.mpr hPos)]
  refine (setUp_owns ⟨h.owns, hSetUp⟩ listening_mem port LISTEN_BACKLOG).bind ?_
  rintro ready past ⟨hOwns, -⟩
  have h : Owning l .empty past := ⟨hOwns, rfl⟩
  split
  · refine (h.quiet_spec (o := .epollCreate 1024) trivial nofun).bind fun epollFd past h => ?_
    split
    · exact (close_listening h).bind fun _ _ hNone => .pure fun _ _ => hNone
    refine (h.quiet_spec (o := .epollCtlAdd epollFd l edgeTrigger) trivial
      (by simp [Request.sockets, listening_mem])).bind fun r past h => ?_
    split
    · refine (close_listening h).bind fun _ past hNone => ?_
      exact (quiet_spec (o := .close epollFd) hNone trivial nofun).bind
        fun _ _ hNone => .pure fun _ _ => hNone
    refine (SpecOn.loop passes (fun _ _ => pass_owning epollFd) h).bind ?_
    rintro (clientSockets | clientSockets) past h
    · exact .pure nofun
    · refine (cleanUp_owns h).bind fun _ past hNone => ?_
      exact (quiet_spec (o := .close epollFd) hNone trivial nofun).bind
        fun _ _ hNone => .pure fun _ _ => hNone
  · exact (close_listening h).bind fun _ _ hNone => .pure fun _ _ => hNone

end Epoll

namespace Poll

variable {host : Host} {past : ServerTrace}

/-- The set-up fails, if it gets to its end. -/
def failing : Rely Request Request.Answer where
  holds t := Honest t ∧ (6 ≤ t.length → SetUpFails t)
  before := by
    rintro past more ⟨hHonest, hFails⟩
    refine ⟨hHonest.before, fun hLength => ?_⟩
    obtain ⟨e, hMem, hFailed⟩ := hFails (by rw [List.length_append]; omega)
    rw [List.take_append_of_le_length hLength] at hMem
    exact ⟨e, hMem, hFailed⟩

/-- Without its loop, the server has no other socket to close than the listening one. -/
theorem runServer_owns (port : Int) (passes : Nat) :
    SpecOn failing UsesOpen (fun r past => r = none → Owns ∅ past) (runServer host port passes)
      [] := by
  unfold runServer
  refine (socket_spec fun t (h : failing.holds t) => h.1).bind ?_
  rintro l past (⟨rfl, hNone, -⟩ | ⟨hPos, h, hSetUp⟩)
  · exact .pure fun _ _ => hNone
  split
  next hInvalid => exact absurd hPos (hInvalid ▸ by decide)
  refine (setUp_owns ⟨h.owns, hSetUp⟩ listening_mem port SOMAXCONN).bind ?_
  rintro ready past ⟨hOwns, hSetUp⟩
  cases ready with
  | true =>
    refine .assuming fun hHolds => ?_
    have hSetUp : Succeeded 6 past := hSetUp
    have hNot := hSetUp.not_setUpFails []
    rw [List.append_nil] at hNot
    exact absurd (hHolds.2 hSetUp.1.ge) hNot
  | false => exact (cleanUp_owns ⟨hOwns, rfl⟩).bind fun _ _ hNone => .pure fun _ _ => hNone

def closing (sockets : List Socket) : ServerTrace := sockets.map fun s => ⟨.closesocket s, ()⟩

/-- A run that ends with the closing of sockets, the listening one among them, and of that one. -/
def ClosesTwice (t : ServerTrace) : Prop :=
  ∃ l sockets before, l ∈ sockets ∧ t = before ++ closing sockets ++ closing [l]

theorem closeAll_closing (sockets : List Socket) :
    Spec (fun _ _ => True) (fun _ past' => past' = past ++ closing sockets) (closeAll sockets)
      past := by
  induction sockets generalizing past with
  | nil => exact .pure (List.append_nil past).symm
  | cons s sockets ih =>
    have hClose : Spec (fun _ _ => True) (fun _ past' => past' = past ++ [⟨.closesocket s, ()⟩])
        (request (.closesocket s)) past := ⟨trivial, fun _ => rfl⟩
    refine hClose.bind ?_
    rintro _ _ rfl
    exact ih.weaken fun _ _ h => h.trans (List.append_assoc _ _ _)

theorem cleanUp_closesTwice {l : Socket} {s : State} (h : Represents l s) :
    Spec (fun _ _ => True) (fun _ => ClosesTwice) (cleanUp l s.clientSockets) past := by
  have hListening : l ∈ s.pollfds.map (·.fd) := by
    obtain ⟨fds, hFds⟩ := List.head?_eq_some_iff.mp h.listening
    exact hFds ▸ List.mem_cons_self
  have hMem := SortedMap.find?_isSome.mp ((h.clients l).mp hListening)
  refine (closeAll_closing (s.clientSockets.entries.map (·.1))).bind ?_
  rintro _ _ rfl
  exact ⟨trivial, fun _ => ⟨l, _, past, hMem, rfl⟩⟩

/-- A run that gets to its end has a set-up that fails, or closes the listening socket twice. -/
theorem runServer_closesTwice (port : Int) (passes : Nat) :
    SpecOn honest (fun _ _ => True) (fun r past => r = none → SetUpFails past ∨ ClosesTwice past)
      (runServer host port passes) [] := by
  unfold runServer
  refine ((socket_spec fun _ h => h).mono fun _ _ _ => trivial).bind ?_
  rintro l past (⟨rfl, -, hFails⟩ | ⟨hPos, h, hSetUp⟩)
  · exact .pure fun _ _ => .inl hFails
  split
  next hInvalid => exact absurd hPos (hInvalid ▸ by decide)
  refine ((setUp_owns ⟨h.owns, hSetUp⟩ listening_mem port SOMAXCONN).mono
    fun _ _ _ => trivial).bind ?_
  rintro ready past ⟨-, hSetUp⟩
  cases ready with
  | true =>
    have hLoop : Spec (fun _ _ => True) (Sum.elim (fun s _ => Represents l s)
        fun s _ => Represents l s) (Calls.loop (pass host l) passes (addPollfd l ⟨[], .empty⟩))
        past := Spec.loop passes (fun _ _ => pass_represents) (.start l)
    refine (SpecOn.of_spec hLoop).bind ?_
    rintro (s | s) past h
    · exact .pure nofun
    · exact (SpecOn.of_spec (cleanUp_closesTwice h)).bind
        fun _ _ hTwice => .pure fun _ _ => .inr hTwice
  | false =>
    refine (SpecOn.of_spec (Spec.any (cleanUp l .empty)).grows).bind ?_
    rintro _ _ ⟨-, more, rfl⟩
    have hFails : SetUpFails past := hSetUp
    exact .pure fun _ _ => .inl (hFails.append more)

theorem balance_closing (s : Socket) (past : ServerTrace) (sockets : List Socket) :
    balance s (past ++ closing sockets) = balance s past - sockets.count s := by
  induction sockets generalizing past with
  | nil => simp [closing]
  | cons other sockets ih =>
    have hClosed : closed ⟨.closesocket other, ()⟩ = some other := rfl
    have hOpened : opened ⟨.closesocket other, ()⟩ = none := rfl
    rw [closing, List.map_cons, List.append_cons, ← closing, ih, balance_append, hClosed, hOpened,
      List.count_cons]
    simp only [reduceCtorEq, if_false, Option.some.injEq, beq_iff_eq]
    split <;> omega

end Poll

theorem Admits.fresh {past : ServerTrace} {e : Σ o : Request, o.Answer} (h : Admits past e)
    {s : Socket} (he : opened e = some s) : balance s past = 0 := by
  rcases e with ⟨o, a⟩
  cases o with
  | socket =>
    simp only [opened, Option.ite_none_right_eq_some] at he
    obtain ⟨hPos, hEq⟩ := he
    cases hEq
    rcases h with rfl | h
    · cases hPos
    · exact h.2
  | accept l =>
    simp only [opened, Option.ite_none_right_eq_some] at he
    obtain ⟨hPos, hEq⟩ := he
    cases hEq
    exact h hPos
  | _ => cases he

/-- A number is that of one open socket at most. -/
theorem balance_le {t : ServerTrace} (h : Honest t) (s : Socket) : balance s t ≤ 1 := by
  induction t using List.reverseRecOn with
  | nil => simp [balance]
  | append_singleton past e ih =>
    have hPast := ih h.before
    have hFresh := h.last.fresh (s := s)
    rw [balance_append]
    split
    next hOpened =>
      rw [hFresh hOpened]
      split <;> decide
    next => split <;> omega

theorem Poll.ClosesTwice.not_once {t : ServerTrace} (h : Poll.ClosesTwice t)
    (hHonest : Honest t) : ¬ClosesOnce t := by
  rintro ⟨-, hUses⟩
  obtain ⟨l, sockets, before, hMem, rfl⟩ := h
  have hOpen : 0 < balance l _ := hUses.last l List.mem_cons_self
  have hOnce := balance_le hHonest.before.before l
  have hClosed := List.count_pos_iff.mpr hMem
  rw [Poll.balance_closing] at hOpen
  omega

theorem closesOnce_of_owns {rely : Rely Request Request.Answer} {p : Server (Option Clients)}
    (h : SpecOn rely UsesOpen (fun r past => r = none → Owns ∅ past) p []) {t : ServerTrace}
    (hRun : Reaches p t (.done none)) (hHolds : rely.holds t) : ClosesOnce t where
  closes s := by
    have hNone := (h.done hRun hHolds rfl).others s (Set.notMem_empty s)
    unfold balance at hNone
    omega
  uses := h.always hRun hHolds

/-- The Select and the Epoll server close every socket once in every run, and the Poll server does
where its set-up fails. -/
theorem EventServer.closesOnce_iff {host : Host} (server : EventServer) {port : Int} {passes : Nat}
    {t : ServerTrace} (hRun : Reaches (server.runServer host port passes) t (.done none))
    (hHonest : Honest t) : ClosesOnce t ↔ (server = .poll → SetUpFails t) := by
  cases server with
  | select =>
    exact iff_of_true (closesOnce_of_owns (Select.runServer_owns port passes) hRun hHonest) nofun
  | epoll edgeTrigger =>
    exact iff_of_true (closesOnce_of_owns (Epoll.runServer_owns port passes) hRun hHonest) nofun
  | poll =>
    constructor
    · intro hOnce _
      have hSpec : SpecOn honest _
          (fun r past => r = none → SetUpFails past ∨ Poll.ClosesTwice past)
          (EventServer.poll.runServer host port passes) [] :=
        (Poll.runServer_closesTwice port passes).bind fun s _ h =>
          .pure fun _ hNone => h (Option.map_eq_none_iff.mp hNone)
      exact (hSpec.done hRun hHonest rfl).resolve_right fun hTwice =>
        hTwice.not_once hHonest hOnce
    · intro hFails
      have hSpec : SpecOn Poll.failing UsesOpen (fun r past => r = none → Owns ∅ past)
          (EventServer.poll.runServer host port passes) [] :=
        (Poll.runServer_owns port passes).bind fun s _ h =>
          .pure fun _ hNone => h (Option.map_eq_none_iff.mp hNone)
      exact closesOnce_of_owns hSpec hRun ⟨hHonest, fun _ => hFails rfl⟩

/-- A run of the Select server in which a connection is closed by its peer and its number given
again. -/
def againTrace : ServerTrace := [⟨.socket, 3⟩, ⟨.setReuseAddr 3, 0⟩, ⟨.setTcpNodelay 3, 0⟩,
  ⟨.setNonblock 3, 0⟩, ⟨.bind 3 9988, 0⟩, ⟨.listen 3 4096, 0⟩, ⟨.select 4 [3], (1, [3])⟩,
  ⟨.accept 3, 5⟩, ⟨.setNonblock 5, 0⟩, ⟨.select 6 [3, 5], (2, [3, 5])⟩,
  ⟨.recv 5 8192, .bytes []⟩, ⟨.closesocket 5, ()⟩, ⟨.accept 3, 5⟩, ⟨.setNonblock 5, 0⟩,
  ⟨.select 6 [3, 5], (-1, [])⟩, ⟨.closesocket 5, ()⟩, ⟨.closesocket 3, ()⟩]

theorem EventServer.closesOnce_iff_again :
    Reaches (EventServer.select.runServer byteHost 9988 3) againTrace (.done none) ∧
      (ClosesOnce againTrace ↔ (EventServer.select = .poll → SetUpFails againTrace)) := by
  have hRun : Reaches (EventServer.select.runServer byteHost 9988 3) againTrace (.done none) := by
    unfold againTrace
    refine .call (.call (.call (.call (.call (.call (.call (.call (.call ?_))))))))
    refine .call (.call (.call (.call (.call (.call (.call (.call ?_)))))))
    exact .here
  exact ⟨hRun, closesOnce_iff .select hRun (by decide)⟩

/-- A run of the Poll server with one connection, at the end of which the listening socket is closed
among the clients and then once more. -/
def twiceTrace : ServerTrace := [⟨.socket, 3⟩, ⟨.setReuseAddr 3, 0⟩, ⟨.setTcpNodelay 3, 0⟩,
  ⟨.setNonblock 3, 0⟩, ⟨.bind 3 9988, 0⟩, ⟨.listen 3 4096, 0⟩,
  ⟨.poll [3], (1, fun _ => Poll.POLLIN)⟩, ⟨.accept 3, 5⟩, ⟨.setNonblock 5, 0⟩,
  ⟨.poll [3, 5], (-1, fun _ => 0)⟩, ⟨.closesocket 3, ()⟩, ⟨.closesocket 5, ()⟩,
  ⟨.closesocket 3, ()⟩]

theorem EventServer.not_closesOnce :
    Reaches (EventServer.poll.runServer byteHost 9988 2) twiceTrace (.done none) ∧
      Honest twiceTrace ∧ ¬ClosesOnce twiceTrace := by
  refine ⟨?_, by decide, fun h => absurd (h.closes 3) (by decide)⟩
  unfold twiceTrace
  refine .call (.call (.call (.call (.call (.call (.call (.call (.call ?_))))))))
  exact .call (.call (.call (.call .here)))

end LogSocket
