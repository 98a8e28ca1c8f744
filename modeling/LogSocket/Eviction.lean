import LogSocket.Isolation

/-! What becomes of a stream that `forceLog` says no to. The Poll and the Select server close the
socket and erase the client at once; the Epoll server does so only when no stream is to be
rejected. -/

namespace LogSocket

open Lib

/-- `forceLog` returned `false` for `s`, and no connection was accepted under that number since. -/
def Rejected (s : Socket) (past : ServerTrace) : Prop :=
  ∃ pre call post, past = pre ++ ⟨.forceLog s call, ()⟩ :: post ∧ call.verdict = .ok false ∧
    ∀ e ∈ post, accepted e ≠ some s

/-- A rejected connection is closed by the next call, nothing is received from it, and its client is
not there at the head of the loop. -/
structure Evicts (t : ServerTrace) (rest : Server (Option Clients)) : Prop where
  closes : ∀ pre s call post, t = pre ++ ⟨.forceLog s call, ()⟩ :: post →
    call.verdict = .ok false →
    (post.head?.map (·.1)).or rest.next? = some (.closesocket s)
  unread : ∀ pre s size received post, t = pre ++ ⟨.recv s size, received⟩ :: post →
    ¬Rejected s pre
  erased : ∀ clientSockets, rest = .done (some clientSockets) → ∀ s, Rejected s t →
    clientSockets.find? s = none

/-- The last call rejected the stream of `s`. -/
def JustRejected (s : Socket) (past : ServerTrace) : Prop :=
  ∃ call, past.getLast? = some ⟨.forceLog s call, ()⟩ ∧ call.verdict = .ok false

section

variable {s : Socket} {past : ServerTrace} {e : Σ o : Request, o.Answer}

theorem justRejected_append : JustRejected s (past ++ [e]) ↔
    ∃ call, e = ⟨.forceLog s call, ()⟩ ∧ call.verdict = .ok false := by
  simp [JustRejected]

theorem rejected_append : Rejected s (past ++ [e]) ↔
    JustRejected s (past ++ [e]) ∨ Rejected s past ∧ accepted e ≠ some s := by
  rw [justRejected_append]
  constructor
  · rintro ⟨pre, call, post, hEq, hVerdict, hPost⟩
    rcases List.eq_nil_or_concat post with rfl | ⟨post, e', rfl⟩
    · rcases List.append_inj' hEq rfl with ⟨-, hLast⟩
      cases hLast
      exact .inl ⟨call, rfl, hVerdict⟩
    · rw [List.concat_eq_append] at hEq hPost
      rw [← List.cons_append, ← List.append_assoc] at hEq
      rcases List.append_inj' hEq rfl with ⟨hPast, hLast⟩
      cases hLast
      rw [List.forall_mem_append] at hPost
      exact .inr ⟨⟨pre, call, post, hPast, hVerdict, hPost.1⟩, hPost.2 e List.mem_cons_self⟩
  · rintro (⟨call, rfl, hVerdict⟩ | ⟨⟨pre, call, post, rfl, hVerdict, hPost⟩, hLast⟩)
    · exact ⟨past, call, [], rfl, hVerdict, by simp⟩
    · refine ⟨pre, call, post ++ [e], by simp, hVerdict, ?_⟩
      rw [List.forall_mem_append]
      exact ⟨hPost, by simpa using hLast⟩

/-- A call that is not one of `forceLog`. -/
theorem not_justRejected (he : ∀ s call, e.1 ≠ .forceLog s call) :
    ¬JustRejected s (past ++ [e]) := by
  rw [justRejected_append]
  rintro ⟨call, rfl, -⟩
  exact he s call rfl

end

/-- What is rejected has no client, and its socket is closed. -/
def Evicted (clientSockets : Clients) (past : ServerTrace) : Prop :=
  (∀ s, ¬JustRejected s past) ∧ ∀ s, Rejected s past → clientSockets.find? s = none

/-- After a stream was rejected its socket is closed, and nothing is received from it. -/
def MayHandle (past : ServerTrace) (o : Request) : Prop :=
  (∀ s, JustRejected s past → o = .closesocket s) ∧
    ∀ s size, o = .recv s size → ¬Rejected s past

section

variable {s : Socket} {clientSockets : Clients} {past : ServerTrace} {o : Request}
  {e : Σ o : Request, o.Answer}

theorem Evicted.append (h : Evicted clientSockets past)
    (he : ∀ s call, e.1 ≠ .forceLog s call) : Evicted clientSockets (past ++ [e]) :=
  ⟨fun _ => not_justRejected he, fun s hs =>
    h.2 s ((rejected_append.mp hs).resolve_left (not_justRejected he)).1⟩

theorem Evicted.may (h : Evicted clientSockets past) (ho : ∀ s size, o ≠ .recv s size) :
    MayHandle past o :=
  ⟨fun s hs => absurd hs (h.1 s), fun s size hEq => absurd hEq (ho s size)⟩

theorem Evicted.erase (h : Evicted clientSockets past) (s : Socket) :
    Evicted (clientSockets.erase s) past := by
  refine ⟨h.1, fun other hs => ?_⟩
  by_cases hEq : other = s
  · rw [hEq, SortedMap.find?_erase_self]
  · rw [SortedMap.find?_erase_of_ne hEq]
    exact h.2 other hs

end

/-- A server that looks at the result of `forceLog` evicts what is rejected. -/
def eviction (host : Host) {server : EventServer} (hHeeds : server.heeds) :
    Discipline host server where
  may := MayHandle
  starting _ past := ∀ clientSockets, Evicted clientSockets past
  holds _ := Evicted
  entering _ s clientSockets past := Evicted clientSockets past ∧ ¬Rejected s past
  start := by
    have h (clientSockets : Clients) : Evicted clientSockets [] := by
      refine ⟨fun s hs => ?_, fun s hs => ?_⟩
      · rcases hs with ⟨_, hLast, -⟩
        cases hLast
      · rcases hs with ⟨pre, _, _, hEq, -⟩
        cases pre <;> cases hEq
    exact ⟨(h .empty).may (by simp), fun l clientSockets =>
      (h clientSockets).append (e := ⟨.socket, l⟩) (by simp)⟩
  startingIdle := by
    intro l past o h ho
    refine ⟨(h .empty).may ?_, fun a clientSockets => (h clientSockets).append ?_⟩
    · rintro _ _ rfl
      exact ho
    · rintro _ _ rfl
      exact ho
  started h := h _
  polls _ h := h _
  idle := by
    intro l clientSockets past o h ho
    refine ⟨h.may ?_, fun a => h.append ?_⟩
    · rintro _ _ rfl
      exact ho
    · rintro _ _ rfl
      exact ho
  accept h := by
    refine ⟨h.may (by simp), fun s => ⟨fun _ => h.append (by simp), fun hPos => ?_⟩⟩
    refine ⟨h.append (by simp), fun hs => ?_⟩
    rcases rejected_append.mp hs with hs | ⟨-, hNot⟩
    · exact not_justRejected (by simp) hs
    · exact hNot (if_pos hPos)
  enteringIdle := by
    rintro l s clientSockets past o ⟨h, hs⟩ ho
    have hNot : ∀ s call, o ≠ .forceLog s call := by
      rintro _ _ rfl
      exact ho
    refine ⟨h.may ?_, fun a => ⟨h.append hNot, fun hs' => hs ?_⟩⟩
    · rintro _ _ rfl
      exact ho
    · exact ((rejected_append.mp hs').resolve_left (not_justRejected hNot)).1
  enter := by
    rintro l s clientSockets past ⟨h, hs⟩
    refine ⟨h.1, fun other hOther => ?_⟩
    have hne : other ≠ s := fun hEq => hs (hEq ▸ hOther)
    rw [SortedMap.find?_emplace_of_ne hne]
    exact h.2 other hOther
  refuse h := ⟨h.1.may (by simp), h.1.append (by simp)⟩
  drop h := ⟨h.may (by simp), (h.append (by simp)).erase _⟩
  recv := by
    intro l s clientSockets past size h hFound _
    refine ⟨⟨fun other hs => absurd hs (h.1 other), ?_⟩, fun _ _ => h.append (by simp)⟩
    rintro _ _ ⟨⟩ hs
    have hSome := hFound hHeeds
    rw [h.2 s hs] at hSome
    cases hSome
  feed := by
    intro l s clientSockets past client size byte data h _ hFind call past' past''
    have hReceived : Evicted clientSockets past' := h.append (by simp)
    have hJust {other : Socket} (hs : JustRejected other past'') :
        other = s ∧ call.verdict = .ok false := by
      rcases justRejected_append.mp hs with ⟨_, hEq, hVerdict⟩
      cases hEq
      exact ⟨rfl, hVerdict⟩
    have hBefore {other : Socket} (hs : Rejected other past'') (hne : other ≠ s) :
        clientSockets.find? other = none :=
      hReceived.2 other ((rejected_append.mp hs).resolve_left fun hs => hne (hJust hs).1).1
    refine ⟨hReceived.may (by simp), ?_⟩
    split
    next e hVerdict =>
      refine ⟨fun other hs => ?_, by simp⟩
      rw [hVerdict] at hJust
      cases (hJust hs).2
    next goesOn hVerdict =>
      rw [hHeeds, Bool.true_and]
      cases goesOn with
      | false =>
        refine ⟨⟨fun other hs => by rw [(hJust hs).1], by simp⟩, ?_, fun other hs => ?_⟩
        · exact fun other => not_justRejected (by simp)
        · by_cases hEq : other = s
          · rw [hEq, SortedMap.find?_erase_self]
          · rw [SortedMap.find?_erase_of_ne hEq]
            refine hBefore ?_ hEq
            exact ((rejected_append.mp hs).resolve_left (not_justRejected (by simp))).1
      | true =>
        have hNot {other : Socket} : ¬JustRejected other past'' := fun hs => by
          rw [hVerdict] at hJust
          cases (hJust hs).2
        refine ⟨fun _ => hNot, fun other hs => ?_⟩
        have hOther := hReceived.2 other ((rejected_append.mp hs).resolve_left hNot).1
        by_cases hEq : other = s
        · rw [hEq, hFind] at hOther
          cases hOther
        · rw [SortedMap.find?_insert_of_ne hEq]
          exact hOther

/-- No connection brings a stream that a client of its own says no to. -/
def NoneRejected (host : Host) (t : ServerTrace) : Prop :=
  ∀ pre post s connection, t = pre ++ post → held s pre = .connected connection →
    (connection.fresh host).verdict ≠ .ok false

section

variable {host : Host} {server : EventServer} {port : Int} {passes : Nat} {t : ServerTrace}
  {rest : Server (Option Clients)}

theorem evicts_of_heeds (hHeeds : server.heeds)
    (hRun : Reaches (server.runServer host port passes) t rest) : Evicts t rest := by
  have hStart := server.runServer_spec (eviction host hHeeds) port passes
  have hSpec := hStart.reaches hRun
  rw [List.nil_append] at hSpec
  constructor
  · rintro pre s call post rfl hVerdict
    have hJust : JustRejected s (pre ++ [⟨.forceLog s call, ()⟩]) :=
      justRejected_append.mpr ⟨call, rfl, hVerdict⟩
    rcases post with _ | ⟨⟨o, a⟩, post⟩
    · cases rest with
      | done r =>
        rcases hSpec with ⟨_, _, hHolds, -⟩
        exact absurd hJust (hHolds.1 s)
      | call o next => exact congrArg some (hSpec.1.1 s hJust)
    · rw [List.append_cons] at hRun
      have hMay := hStart.may_of_reaches hRun
      exact congrArg some (hMay.1 s hJust)
  · rintro pre s size received post rfl
    exact (hStart.may_of_reaches hRun).2 s size rfl
  · rintro clientSockets rfl s hs
    rcases hSpec with ⟨_, clientSockets', hHolds, hSame⟩
    rw [hSame clientSockets rfl]
    exact hHolds.2 s hs

/-- A server in whose run no stream is to be rejected has nothing to evict. -/
theorem evicts_of_noneRejected (hUnpack : host.UnpackLaws)
    (hRun : Reaches (server.runServer host port passes) t rest) (hFresh : FreshAccepts t)
    (hNone : NoneRejected host t) : Evicts t rest := by
  have hStart := server.runServer_spec (isolation hUnpack server) port passes
  have hCall {pre post : ServerTrace} {s : Socket} {call : Call}
      (ht : t = pre ++ ⟨.forceLog s call, ()⟩ :: post) : call.verdict ≠ .ok false := by
    intro hVerdict
    subst ht
    rcases hStart.may_of_reaches hRun hFresh.before with ⟨connection, hHeld, hRejected⟩
    exact hNone pre _ s connection rfl hHeld (hRejected hVerdict)
  have hNot {pre post : ServerTrace} (ht : t = pre ++ post) (s : Socket) : ¬Rejected s pre := by
    rintro ⟨before, call, after, rfl, hVerdict, -⟩
    rw [List.append_assoc] at ht
    exact hCall ht hVerdict
  constructor
  · intro pre s call post ht hVerdict
    exact absurd hVerdict (hCall ht)
  · intro pre s size received post ht
    exact hNot ht s
  · intro clientSockets _ s hs
    exact absurd hs (hNot (List.append_nil t).symm s)

end

/-- Every server evicts what it rejects, and the Epoll server as long as it rejects nothing. -/
theorem EventServer.evicts {host : Host} (hUnpack : host.UnpackLaws) (server : EventServer)
    (port : Int) (passes : Nat) {t : ServerTrace} {rest : Server (Option Clients)}
    (hRun : Reaches (server.runServer host port passes) t rest)
    (hEpoll : ∀ edgeTrigger, server = .epoll edgeTrigger →
      FreshAccepts t ∧ NoneRejected host t) : Evicts t rest := by
  cases server with
  | poll => exact evicts_of_heeds rfl hRun
  | select => exact evicts_of_heeds rfl hRun
  | epoll edgeTrigger =>
    rcases hEpoll edgeTrigger rfl with ⟨hFresh, hNone⟩
    exact evicts_of_noneRejected hUnpack hRun hFresh hNone

/-- A run of the Select server in which a stream of no protocol is rejected. -/
def rejectTrace : ServerTrace := [⟨.socket, 3⟩, ⟨.setReuseAddr 3, 0⟩, ⟨.setTcpNodelay 3, 0⟩,
  ⟨.setNonblock 3, 0⟩, ⟨.bind 3 9988, 0⟩, ⟨.listen 3 4096, 0⟩, ⟨.select 4 [3], (1, [3])⟩,
  ⟨.accept 3, 5⟩, ⟨.setNonblock 5, 0⟩, ⟨.select 6 [3, 5], (1, [5])⟩,
  ⟨.recv 5 8192, .bytes [1, 2, 3, 4]⟩,
  ⟨.forceLog 5 (Client.new.forceLog byteHost [1, 2, 3, 4]), ()⟩, ⟨.closesocket 5, ()⟩]

theorem EventServer.evicts_sample :
    ∃ rest, Reaches (EventServer.select.runServer byteHost 9988 2) rejectTrace rest ∧
      Rejected 5 rejectTrace ∧ Evicts rejectTrace rest := by
  have hRun : ∃ rest, Reaches (EventServer.select.runServer byteHost 9988 2) rejectTrace rest := by
    refine ⟨?rest, ?run⟩
    case run =>
      unfold rejectTrace
      refine .call (.call (.call (.call (.call (.call (.call ?_))))))
      refine .call (.call (.call (.call (.call (.call ?_)))))
      exact .here
  rcases hRun with ⟨rest, hRun⟩
  refine ⟨rest, hRun, ?_, evicts byteHost_laws .select 9988 2 hRun nofun⟩
  exact ⟨rejectTrace.take 11, _, [⟨.closesocket 5, ()⟩], rfl, by decide, by decide⟩

/-- The Epoll server goes on with a connection whose stream it rejected. -/
def keepTrace : ServerTrace :=
  let first := Client.new.forceLog byteHost [1, 2, 3, 4]
  epollSetUp ++ epollAccept ++ [⟨.recv 5 8192, .bytes [1, 2, 3, 4]⟩, ⟨.forceLog 5 first, ()⟩,
    ⟨.epollWait 4, .events [5]⟩, ⟨.recv 5 8192, .bytes [5]⟩,
    ⟨.forceLog 5 (first.client.forceLog byteHost [5]), ()⟩]

theorem EventServer.not_evicts :
    ∃ clientSockets client,
      Reaches ((EventServer.epoll false).runServer byteHost 9988 3) keepTrace
        (.done (some clientSockets)) ∧
      FreshAccepts keepTrace ∧ clientSockets.find? 5 = some client ∧
      client.byteBuf.bytes = [1, 2, 3, 4, 5] ∧ ¬Evicts keepTrace (.done (some clientSockets)) := by
  refine ⟨?clientSockets, ?client, ?run, by decide, ?find, ?bytes, ?not⟩
  case' run =>
    unfold keepTrace epollSetUp epollAccept
    refine .call (.call (.call (.call (.call (.call (.call (.call (.call ?_))))))))
    refine .call (.call (.call (.call (.call (.call (.call (.call (.call ?_))))))))
    exact .here
  case' find => rfl
  case bytes => decide
  case not =>
    intro h
    have hNext := h.closes (keepTrace.take 14) 5 _ (keepTrace.drop 15) rfl (by decide)
    cases hNext

end LogSocket
