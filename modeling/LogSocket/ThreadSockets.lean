import LogSocket.Segmentation
import LogSocket.ThreadedServer

/-! Who has which socket in `log4cxxSocketServer`. The thread of `runServer` has the listening socket,
and a client's socket from `accept` until it starts the thread that has it from then on. At every
moment the open sockets are those of the threads, none is used by a thread that does not have it, and
a thread that has returned has closed all that it had. -/

namespace LogSocket.ThreadedServer

open Lib SocketServer

abbrev ThreadTrace := Trace Request Request.Answer

/-- The sockets that a call is given. -/
def Request.sockets : Request → List Socket
  | .setReuseAddr s | .setTcpNodelay s | .bind s _ | .listen s _ | .accept s | .thread s
  | .recv s _ | .closesocket s => [s]
  | .socket | .lock | .getEffectiveLevel _ | .callAppenders _ | .terminate _ => []

/-- The sockets that a thread has after one more call. -/
def ownsAfter (sockets : List Socket) : (Σ o : Request, o.Answer) → List Socket
  | ⟨.socket, s⟩ => if s = INVALID_SOCKET then sockets else sockets ++ [s]
  | ⟨.accept _, s⟩ => if 0 ≤ s then sockets ++ [s] else sockets
  | ⟨.thread s, true⟩ => sockets.erase s
  | ⟨.closesocket s, _⟩ => sockets.erase s
  | _ => sockets

/-- The sockets that a thread starts with. -/
def Role.sockets : Role → List Socket
  | .server => []
  | .client socket => [socket]

/-- The sockets that a thread has. -/
def owns (role : Role) (past : ThreadTrace) : List Socket := past.foldl ownsAfter role.sockets

@[simp] theorem owns_append (role : Role) (past : ThreadTrace) (e : Σ o : Request, o.Answer) :
    owns role (past ++ [e]) = ownsAfter (owns role past) e := by
  simp [owns]

/-- A call is given sockets that its thread has. -/
def UsesOwn (role : Role) (past : ThreadTrace) (o : Request) : Prop :=
  ∀ s ∈ o.sockets, s ∈ owns role past

/-- A thread that has returned has no socket any more. -/
def Returned (role : Role) (ended : Bool) (past : ThreadTrace) : Prop :=
  ended = true → owns role past = []

section

variable {role : Role} {past : ThreadTrace} {s : Socket}

/-- What a thread does that has one socket and keeps it. -/
def Has (role : Role) (s : Socket) (past : ThreadTrace) : Prop := owns role past = [s]

theorem Has.uses (h : Has role s past) {o : Request} (ho : o.sockets = [s]) :
    UsesOwn role past o := by
  intro s' hs'
  rw [ho] at hs'
  rw [h]
  exact hs'

theorem terminate_spec {α : Type} {Q : α → ThreadTrace → Prop} (e : Fail) :
    Spec (UsesOwn role) Q (terminate e) past :=
  ⟨fun _ h => absurd h List.not_mem_nil, fun a : Empty => a.elim⟩

/-- A call on the socket that leaves it open. -/
theorem Has.ask (h : Has role s past) {o : Request} (ho : o.sockets = [s])
    (hQuiet : ∀ a sockets, ownsAfter sockets ⟨o, a⟩ = sockets) :
    Spec (UsesOwn role) (fun _ past => Has role s past) (request o) past :=
  Spec.ask (h.uses ho) fun a => by rw [Has, owns_append, hQuiet, h]

theorem setUp_has (h : Has role s past) (port : Int) :
    Spec (UsesOwn role) (fun _ past => Has role s past) (setUp s port) past := by
  have hTest {p : Program Int} {next : Program Bool} {past : ThreadTrace}
      (hAsk : Spec (UsesOwn role) (fun _ past => Has role s past) p past)
      (hNext : ∀ past, Has role s past → Spec (UsesOwn role) (fun _ past => Has role s past) next past) :
      Spec (UsesOwn role) (fun _ past => Has role s past)
        (p >>= fun r => if r < 0 then pure false else next) past := by
    refine hAsk.bind fun r past h => ?_
    split
    · exact Spec.pure h
    · exact hNext past h
  refine hTest (h.ask rfl fun _ _ => rfl) fun _ h => ?_
  refine hTest (h.ask rfl fun _ _ => rfl) fun _ h => ?_
  refine hTest (h.ask rfl fun _ _ => rfl) fun _ h => ?_
  exact hTest (h.ask rfl fun _ _ => rfl) fun _ h => Spec.pure h

/-- Closing the socket leaves none. -/
theorem close_spec (h : Has role s past) : Spec (UsesOwn role) (Returned role)
    (request (.closesocket s) >>= fun _ => pure true) past := by
  refine Spec.bind (Q := fun _ past => owns role past = []) ?_ fun _ past h => ?_
  · refine Spec.ask (h.uses rfl) fun _ => ?_
    rw [owns_append, h]
    exact List.erase_cons_head s []
  · exact Spec.pure fun _ => h

theorem acceptTurn_has (h : Has role s past) (u : Unit) : Spec (UsesOwn role)
    (Sum.elim (fun _ past => Has role s past) fun _ past => Has role s past)
    (acceptTurn s u) past := by
  refine Spec.bind (Q := fun client past =>
    owns role past = if 0 ≤ client then [s, client] else [s]) ?_ fun client past h => ?_
  · refine Spec.ask (h.uses rfl) fun client => ?_
    rw [owns_append, h]
    change (if 0 ≤ client then [s] ++ [client] else [s]) = _
    split <;> rfl
  split
  next hFails =>
    rw [if_neg (Int.not_le.mpr hFails)] at h
    exact Spec.pure h
  next hAccepts =>
    rw [if_pos (Int.not_lt.mp hAccepts)] at h
    refine Spec.bind (Q := fun started past => started = true → Has role s past) ?_
      fun started past h => ?_
    · refine Spec.ask ?_ fun started hStarted => ?_
      · intro s' hs'
        rw [List.mem_singleton.mp hs', h]
        simp
      · subst hStarted
        rw [Has, owns_append, h]
        change [s, client].erase client = [s]
        by_cases hEq : s = client
        · simp [hEq]
        · simp [hEq]
    · split
      next hStarted => exact Spec.pure (h hStarted)
      next => exact terminate_spec _

theorem runServer_spec (port : Int) (turns : Nat) :
    Spec (UsesOwn .server) (Returned .server) (runServer port turns) [] := by
  refine Spec.bind (Q := fun s past =>
    owns .server past = if s = INVALID_SOCKET then [] else [s]) ?_ fun s past h => ?_
  · exact Spec.ask (fun _ h => absurd h List.not_mem_nil) fun s => rfl
  split
  next hFails =>
    rw [if_pos hFails] at h
    exact Spec.pure fun _ => h
  next hOpen =>
    rw [if_neg hOpen] at h
    refine (setUp_has h port).bind fun ready past h => ?_
    split
    · refine (Spec.loop turns (fun u _ h => acceptTurn_has h u) h).bind fun r past h => ?_
      cases r with
      | inl _ => exact Spec.pure fun hEnded => by cases hEnded
      | inr _ => exact close_spec h
    · exact close_spec h

theorem collect_has (h : Has role s past) (turns : Nat) (recvBuf : List UInt8) :
    Spec (UsesOwn role) (fun _ past => Has role s past) (collect s turns recvBuf) past := by
  induction turns generalizing recvBuf past with
  | zero => exact Spec.pure h
  | succ turns ih =>
    rw [collect]
    split
    · refine (h.ask rfl fun _ _ => rfl).bind fun bytes past h => ?_
      split
      · exact Spec.pure h
      · exact ih h _
    · exact Spec.pure h

theorem forceLog_has (host : Host) (h : Has role s past) (fuel : Nat) (byteBuf : ByteBuf) :
    Spec (UsesOwn role) (fun _ past => Has role s past) (forceLog host fuel byteBuf) past := by
  induction fuel generalizing byteBuf past with
  | zero => exact Spec.pure h
  | succ fuel ih =>
    rw [forceLog]
    split
    · exact Spec.pure h
    · cases Default.createLoggingEvent host.env byteBuf with
      | mk result rest =>
        cases result with
        | error e => exact Spec.pure h
        | ok event =>
          have hAsk {o : Request} {past : ThreadTrace} (h : Has role s past) (ho : o.sockets = [])
              (hQuiet : ∀ a sockets, ownsAfter sockets ⟨o, a⟩ = sockets) :
              Spec (UsesOwn role) (fun _ past => Has role s past) (request o) past := by
            refine Spec.ask (fun s' hs' => ?_) fun a => by rw [Has, owns_append, hQuiet, h]
            rw [ho] at hs'
            exact absurd hs' List.not_mem_nil
          refine (hAsk h rfl fun _ _ => rfl).bind fun _ past h => ?_
          refine (hAsk h rfl fun _ _ => rfl).bind fun level past h => ?_
          split
          · exact (hAsk h rfl fun _ _ => rfl).bind fun _ _ h => ih h rest
          · exact ih h rest

theorem recvTurn_has (host : Host) (h : Has role s past) (byteBuf : ByteBuf) :
    Spec (UsesOwn role) (Sum.elim (fun _ past => Has role s past) fun _ past => Has role s past)
      (recvTurn host s byteBuf) past := by
  refine (h.ask rfl fun _ _ => rfl).bind fun bytes past h => ?_
  split
  · exact Spec.pure h
  cases byteBuf.insert bytes with
  | error e => exact terminate_spec e
  | ok byteBuf =>
    refine (forceLog_has host h _ byteBuf).bind fun r past h => ?_
    obtain ⟨verdict, rest⟩ := r
    cases verdict with
    | error e => exact terminate_spec e
    | ok goesOn =>
      cases goesOn with
      | true => exact Spec.pure h
      | false => exact Spec.pure h

theorem serve_has (host : Host) (h : Has role s past) (turns : Nat) :
    Spec (UsesOwn role) (fun _ past => Has role s past) (serve host s turns) past := by
  refine (collect_has h 4 []).bind fun r past h => ?_
  cases r with
  | none => exact Spec.pure h
  | some bytes =>
    dsimp only
    cases Default.readStart host.env (recvBuf bytes) with
    | ok readBytes =>
      refine (Spec.loop turns (fun byteBuf _ h => recvTurn_has host h byteBuf) h).bind
        fun r past h => ?_
      cases r with
      | inl _ => exact Spec.pure h
      | inr _ => exact Spec.pure h
    | error e =>
      cases e with
      | small what => exact Spec.pure h
      | invalid what => exact Spec.pure h
      | _ => exact terminate_spec _

theorem runClient_spec (host : Host) (turns : Nat) :
    Spec (UsesOwn (.client s)) (Returned (.client s)) (runClient host s turns) [] := by
  refine (serve_has host (show Has (.client s) s [] from rfl) turns).bind fun cleansUp past h => ?_
  split
  · exact close_spec h
  · exact Spec.pure fun hEnded => by cases hEnded

end

/-- Every call keeps the balance of sockets, whatever other threads have. -/
theorem answers_transfers {host : Host} {thread : Nat} {k k' : System} {role : Role}
    {past : ThreadTrace} {o : Request} {a : o.Answer} (hUses : UsesOwn role past o)
    (h : Answers host thread k o a k') :
    Transfers (owns role past) k.opens
      (owns role (past ++ [⟨o, a⟩]) ++ ((starts o a).map fun role => owns role []).getD [])
      k'.opens := by
  rw [owns_append]
  cases h with
  | @socket s hPos hNew =>
    have hne : s ≠ INVALID_SOCKET := by
      rintro rfl
      exact absurd hPos (by decide)
    simpa [ownsAfter, starts, hne] using Transfers.acquire hNew
  | accept hPos hNew => simpa [ownsAfter, starts, hPos] using Transfers.acquire hNew
  | acceptFails hNeg => simpa [ownsAfter, starts, Int.not_le.mpr hNeg] using Transfers.refl
  | @thread s started =>
    cases started with
    | false => simpa [ownsAfter, starts] using Transfers.refl
    | true =>
      have hOwn : s ∈ owns role past := hUses s List.mem_cons_self
      exact .perm ((List.perm_cons_erase hOwn).trans (List.perm_append_singleton _ _).symm)
  | @closesocket s =>
    have hOwn : s ∈ owns role past := hUses s List.mem_cons_self
    simpa [ownsAfter, starts] using Transfers.release hOwn
  | _ => simpa [ownsAfter, starts] using Transfers.refl

/-- In every state that the server can come to, the open sockets are those that threads have, each one
thread; no call is made on another; and a thread that has returned has none. -/
theorem sockets_balanced {host : Host} {port : Int} {turns : Nat}
    {pool : Pool System Role Request Request.Answer Bool} (h : Reachable host port turns pool) :
    Balanced (Process.owned owns pool) pool.state.opens ∧
      ∀ th ∈ pool.threads,
        (∀ o, th.rest.next? = some o → ∀ s ∈ o.sockets, s ∈ owns th.role th.past) ∧
        (th.rest = .done true → owns th.role th.past = []) := by
  have hSpec (role : Role) : Spec (UsesOwn role) (Returned role)
      ((process host port turns).program role) [] := by
    cases role with
    | server => exact runServer_spec port turns
    | client socket => exact runClient_spec host turns
  refine ⟨Process.Reachable.balanced hSpec h ⟨List.nodup_nil, fun s => by simp [owns, Role.sockets]⟩
    fun _ _ _ _ _ _ _ hUses hAnswers => answers_transfers hUses hAnswers, fun th hMem => ?_⟩
  have hThread := Process.Reachable.spec hSpec h hMem
  refine ⟨fun o hNext => ?_, fun hDone => ?_⟩
  · obtain ⟨next, hRest⟩ := Calls.eq_call_of_next? hNext
    rw [hRest] at hThread
    exact hThread.1
  · rw [hDone] at hThread
    exact hThread rfl

theorem alive_cons {host : Host} {port : Int} {turns : Nat}
    {th : Thread Role Request Request.Answer Bool}
    {threads : List (Thread Role Request Request.Answer Bool)} {k : System}
    (hNext : ∀ e, th.rest.next? ≠ some (.terminate e))
    (h : (process host port turns).Alive ⟨threads, k⟩) :
    (process host port turns).Alive ⟨th :: threads, k⟩ := by
  intro th' hMem o ho
  obtain rfl | hMem := List.mem_cons.mp hMem
  · rintro ⟨e, rfl, -⟩
    exact hNext e ho
  · exact h th' hMem o ho

theorem alive_nil {host : Host} {port : Int} {turns : Nat} {k : System} :
    (process host port turns).Alive ⟨[], k⟩ := fun _ h => absurd h List.not_mem_nil

/-- A host on which no logger is found whose name starts with a dot. -/
def dottedHost : Host :=
  { byteHost with effectiveLevel := fun name => if name.head? = some 0x2E then none else some 0 }

/-- Two clients are accepted and their threads started. -/
theorem sample_start : ∃ server opens, (∀ e, server.rest.next? ≠ some (.terminate e)) ∧
    Reachable dottedHost 9988 2 ⟨[server, (process dottedHost 9988 2).start (.client 4),
      (process dottedHost 9988 2).start (.client 5)], ⟨opens, none, []⟩⟩ := by
  have h0 : Reachable dottedHost 9988 2
      ⟨[(process dottedHost 9988 2).start .server], ⟨∅, none, []⟩⟩ := .refl
  have alive {th : Thread Role Request Request.Answer Bool} {k : System}
      (hNext : ∀ e, th.rest.next? ≠ some (.terminate e)) :
      (process dottedHost 9988 2).Alive ⟨[th], k⟩ := alive_cons hNext alive_nil
  have h1 := h0.tail (.call (i := 0) (alive (by rintro e ⟨⟩)) rfl
    (@Answers.socket _ _ _ 3 (by decide) (Set.notMem_empty 3)))
  have h2 := h1.tail (.call (i := 0) (alive (by rintro e ⟨⟩)) rfl (@Answers.setReuseAddr _ _ _ _ 0))
  have h3 := h2.tail (.call (i := 0) (alive (by rintro e ⟨⟩)) rfl (@Answers.setTcpNodelay _ _ _ _ 0))
  have h4 := h3.tail (.call (i := 0) (alive (by rintro e ⟨⟩)) rfl (@Answers.bind _ _ _ _ _ 0))
  have h5 := h4.tail (.call (i := 0) (alive (by rintro e ⟨⟩)) rfl (@Answers.listen _ _ _ _ _ 0))
  have h6 := h5.tail (.call (i := 0) (alive (by rintro e ⟨⟩)) rfl
    (@Answers.accept _ _ _ _ 4 (by decide) (by simp [Process.after])))
  have h7 := h6.tail (.call (i := 0) (alive (by rintro e ⟨⟩)) rfl (@Answers.thread _ _ _ _ true))
  have h8 := h7.tail (.call (i := 0) (alive_cons (by rintro e ⟨⟩) (alive (by rintro e ⟨⟩))) rfl
    (@Answers.accept _ _ _ _ 5 (by decide) (by simp [Process.after])))
  have h9 := h8.tail (.call (i := 0) (alive_cons (by rintro e ⟨⟩) (alive (by rintro e ⟨⟩))) rfl
    (@Answers.thread _ _ _ _ true))
  exact ⟨_, _, by rintro e ⟨⟩, h9⟩

/-- The first of them closes its connection. -/
theorem sample_run : ∃ pool server other, Reachable dottedHost 9988 2 pool ∧
    pool.threads = [server, ⟨.client 4, [⟨.recv 4 4, []⟩, ⟨.closesocket 4, ()⟩], .done true⟩,
      other] := by
  obtain ⟨server, opens, hServer, h⟩ := sample_start
  have hRecv := h.tail (.call (i := 1)
    (alive_cons hServer (alive_cons (by rintro e ⟨⟩) (alive_cons (by rintro e ⟨⟩) alive_nil)))
    rfl (@Answers.recv _ _ _ _ _ [] (Nat.zero_le _)))
  have hClose := hRecv.tail (.call (i := 1)
    (alive_cons hServer (alive_cons (by rintro e ⟨⟩) (alive_cons (by rintro e ⟨⟩) alive_nil)))
    rfl Answers.closesocket)
  exact ⟨_, _, _, hClose, rfl⟩

theorem sockets_balanced_sample : ∃ pool server client other, Reachable dottedHost 9988 2 pool ∧
    pool.threads = [server, client, other] ∧
    Balanced (Process.owned owns pool) pool.state.opens ∧ owns client.role client.past = [] := by
  obtain ⟨pool, server, other, hRun, hThreads⟩ := sample_run
  obtain ⟨hBalanced, hOwn⟩ := sockets_balanced hRun
  refine ⟨pool, server, _, other, hRun, hThreads, hBalanced, (hOwn _ ?_).2 rfl⟩
  rw [hThreads]
  exact List.mem_cons_of_mem _ List.mem_cons_self

end LogSocket.ThreadedServer
