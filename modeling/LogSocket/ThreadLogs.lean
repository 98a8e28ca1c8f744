import LogSocket.Lib.Replies
import LogSocket.Drivers
import LogSocket.ThreadSockets

/-! What the threads of `log4cxxSocketServer` log. A thread by itself does what `runClient` does on
the bytes that the thread received; other threads change nothing about it, but may keep it waiting
for the lock of the repository. -/

namespace LogSocket.ThreadedServer

open Lib SocketServer
open Default.Blocking (Segments Stop readTurns read recv)

/-- What `recv` returned. -/
def answered : (Σ o : Request, o.Answer) → Option (List UInt8)
  | ⟨.recv _ _, bytes⟩ => some bytes
  | _ => none

/-- What was received, up to the first `recv` that returned nothing. -/
def received (past : Trace Request Request.Answer) : Segments :=
  (past.filterMap answered).takeWhile (· ≠ [])

/-- The event that a call gave to appenders. -/
def given : (Σ o : Request, o.Answer) → Option LoggingEvent
  | ⟨.callAppenders event, _⟩ => some event
  | _ => none

/-- The events that a thread gave to appenders. -/
def logged (past : Trace Request Request.Answer) : List LoggingEvent := past.filterMap given

/-- What a thread of a client meets if it is the only one: the segments that arrive on its socket. -/
structure Alone where
  arriving : Segments
  log : List LoggingEvent

def reply (host : Host) : (o : Request) → Alone → Except Fail (o.Answer × Alone)
  | .recv _ size, k =>
    match k.arriving with
    | [] => .ok ([], k)
    | segment :: segments =>
      if segment.length ≤ size then .ok (segment, { k with arriving := segments })
      else .ok (segment.take size, { k with arriving := segment.drop size :: segments })
  | .lock, k => .ok ((), k)
  | .getEffectiveLevel name, k =>
    match host.effectiveLevel name with
    | none => .error .hang
    | some level => .ok (level, k)
  | .callAppenders event, k => .ok ((), { k with log := k.log ++ [event] })
  | .terminate e, _ => .error e
  | .closesocket _, k => .ok ((), k)
  | .thread _, k => .ok (false, k)
  | .socket, k | .setReuseAddr _, k | .setTcpNodelay _, k | .bind _ _, k | .listen _ _, k =>
    .ok ((-1 : Int), k)
  | .accept _, k => .ok ((-1 : Int), k)

/-- The calls of a thread of a client. -/
def Request.OfClient : Request → Prop
  | .recv _ _ | .lock | .getEffectiveLevel _ | .callAppenders _ | .closesocket _ | .terminate _ => True
  | _ => False

section

variable {host : Host} {s : Socket} {k : Alone} {segments rest : Segments}

/-- The segments in front of the first without any bytes, behind which the client is done. -/
def upToClose (segments : Segments) : Segments := segments.takeWhile (· ≠ [])

/-- Nothing that was logged is taken back. -/
theorem reply_log {o : Request} {a : o.Answer} {k k' : Alone}
    (h : reply host o k = .ok (a, k')) : k.log <+: k'.log := by
  cases o with
  | recv s size =>
    rw [reply] at h
    split at h
    · cases h
      exact List.prefix_rfl
    · split at h
      · cases h
        exact List.prefix_rfl
      · cases h
        exact List.prefix_rfl
  | getEffectiveLevel name =>
    rw [reply] at h
    split at h <;> cases h
    exact List.prefix_rfl
  | callAppenders event =>
    cases h
    exact List.prefix_append _ _
  | terminate e => cases h
  | _ =>
    cases h
    exact List.prefix_rfl

/-- What is left of a socket, which may start with what is left of a segment that was all read. -/
def Left (rest segments : Segments) : Prop := rest = segments ∨ rest = [] :: segments

theorem Left.flatten (h : Left rest segments) : rest.flatten = segments.flatten := by
  obtain rfl | rfl := h <;> simp

theorem Left.recv (h : Left rest segments) (len : Nat) : recv len rest = recv len segments := by
  obtain rfl | rfl := h <;> simp [Default.Blocking.recv]

theorem Left.recvLoop (h : Left rest segments) (host : Host) (fuel : Nat) (byteBuf : ByteBuf) :
    recvLoop host fuel byteBuf rest = recvLoop host fuel byteBuf segments := by
  cases fuel with
  | zero => rfl
  | succ fuel => rw [SocketServer.recvLoop, SocketServer.recvLoop, h.recv]

/-- A thread receives what the server takes from its socket. -/
theorem recv_reply (host : Host) {size : Nat} (hSize : 0 < size) (s : Socket) (k : Alone) :
    (recv size (upToClose k.arriving) = none ∧
      ∃ k', reply host (.recv s size) k = .ok ([], k') ∧ k'.log = k.log) ∨
    ∃ bytes rest k', bytes ≠ [] ∧ recv size (upToClose k.arriving) = some (bytes, rest) ∧
      reply host (.recv s size) k = .ok (bytes, k') ∧ k'.log = k.log ∧
      Left rest (upToClose k'.arriving) := by
  rcases k with ⟨arriving, log⟩
  cases arriving with
  | nil => exact .inl ⟨rfl, _, rfl, rfl⟩
  | cons segment segments =>
    by_cases hEmpty : segment = []
    · subst hEmpty
      exact .inl ⟨by simp [upToClose, recv], ⟨segments, log⟩, by simp [reply], rfl⟩
    · right
      have hUp : upToClose (segment :: segments) = segment :: upToClose segments := by
        simp [upToClose, hEmpty]
      simp only [hUp, recv, hEmpty, if_false, reply]
      by_cases hFits : segment.length ≤ size
      · refine ⟨segment, _, ⟨segments, log⟩, hEmpty, ?_, by rw [if_pos hFits], rfl, .inr rfl⟩
        rw [List.take_of_length_le hFits, List.drop_of_length_le hFits]
      · refine ⟨segment.take size, _, ⟨segment.drop size :: segments, log⟩, ?_, rfl,
          by rw [if_neg hFits], rfl, .inl ?_⟩
        · simp [hEmpty]
          omega
        · simp [upToClose, hFits]

/-- A run of a thread behind what it has logged, and how the server comes to its end: the thread has
logged the same, or, where its loop was cut off, a part. -/
def Follows {α : Type} (finished : α → Bool) (log : List LoggingEvent) (r : Ending Fail Alone α)
    (served : Served) : Prop :=
  ∃ events, r.2.log = log ++ events ∧ events <+: served.events ∧
    (∀ a, r.1 = .ok a → finished a = true → served = ⟨.ok (), events⟩) ∧
    ∀ e, r.1 = .error e → served = ⟨.error e, events⟩

theorem Follows.ok {α : Type} {finished : α → Bool} {log events : List LoggingEvent} {a : α}
    {k : Alone} (hLog : k.log = log ++ events) :
    Follows finished log (.ok a, k) ⟨.ok (), events⟩ :=
  ⟨events, hLog, List.prefix_rfl, fun _ _ _ => rfl, fun _ h => (by cases h)⟩

theorem Follows.error {α : Type} {finished : α → Bool} {log events : List LoggingEvent} {e : Fail}
    {k : Alone} (hLog : k.log = log ++ events) :
    Follows finished log ((.error e, k) : Ending Fail Alone α) ⟨.error e, events⟩ :=
  ⟨events, hLog, List.prefix_rfl, fun _ h _ => (by cases h), fun _ h => (by cases h; rfl)⟩

theorem Follows.andThen {α β : Type} {finished : α → Bool} {finished' : β → Bool}
    {log : List LoggingEvent} {r : Ending Fail Alone α} {served : Served}
    {f : α → Alone → Ending Fail Alone β} (h : Follows finished log r served)
    (hf : ∀ a k, ∃ b k', f a k = (.ok b, k') ∧ k'.log = k.log ∧
      (finished' b = true → finished a = true)) :
    Follows finished' log (r.andThen f) served := by
  rcases r with ⟨result, k⟩
  cases result with
  | error e =>
    obtain ⟨events, hLog, hPrefix, -, hError⟩ := h
    exact ⟨events, hLog, hPrefix, fun _ h _ => (by cases h), fun e h => hError e (by cases h; rfl)⟩
  | ok a =>
    obtain ⟨events, hLog, hPrefix, hOk, -⟩ := h
    obtain ⟨b, k', hRun, hSame, hEnds⟩ := hf a k
    rw [Ending.andThen_ok, hRun]
    refine ⟨events, hSame.trans hLog, hPrefix, fun b' hb hEnd => ?_, fun _ h => (by cases h)⟩
    cases hb
    exact hOk a rfl (hEnds hEnd)

/-- A loop that was cut off before it logged anything -/
theorem Follows.cutOff {α : Type} {finished : α → Bool} {a : α} (ha : finished a = false) (k : Alone)
    (served : Served) : Follows finished k.log (.ok a, k) served := by
  refine ⟨[], (List.append_nil _).symm, List.nil_prefix, fun a' ha' hEnd => ?_, fun e he => ?_⟩
  · cases ha'
    rw [ha] at hEnd
    cases hEnd
  · cases he

theorem Follows.after {α : Type} {finished : α → Bool} {log events : List LoggingEvent}
    {r : Ending Fail Alone α} {served : Served} (h : Follows finished (log ++ events) r served) :
    Follows finished log r (served.after events) := by
  obtain ⟨more, hLog, hPrefix, hOk, hError⟩ := h
  refine ⟨events ++ more, by rw [hLog, List.append_assoc], ?_, fun a ha hEnd => ?_, fun e he => ?_⟩
  · exact (List.prefix_append_right_inj events).mpr hPrefix
  · rw [hOk a ha hEnd, Served.after]
  · rw [hError e he, Served.after]

/-- The loop over a buffer returns what it returns in the server, or never finds a logger. -/
theorem run_forceLog (host : Host) (fuel : Nat) (byteBuf : ByteBuf) (k : Alone) :
    let call := decode host .default fuel byteBuf
    ∃ r, (forceLog host fuel byteBuf).run (reply host) k =
        (r, { k with log := k.log ++ call.events }) ∧
      (r = .ok (call.verdict, call.client.byteBuf) ∨
        r = .error .hang ∧ call.verdict = .error .hang) := by
  induction fuel generalizing byteBuf k with
  | zero => exact ⟨_, by simp [forceLog, decode], .inl rfl⟩
  | succ fuel ih =>
    rw [forceLog, decode]
    split
    · exact ⟨_, by simp, .inl rfl⟩
    rw [Protocol.createLoggingEvent]
    cases Default.createLoggingEvent host.env byteBuf with
    | mk result rest =>
      cases result with
      | error e => exact ⟨_, by simp, .inl rfl⟩
      | ok event =>
        dsimp only
        rw [Calls.run_bind, request, Calls.run_ask (reply host) rfl, Ending.andThen_ok,
          Calls.run_bind, callAppenders]
        cases hLevel : host.effectiveLevel event.logger with
        | none =>
          refine ⟨.error .hang, ?_, .inr ⟨rfl, rfl⟩⟩
          simp [request, Calls.ask, Calls.run, reply, hLevel, throw, throwThe, MonadExceptOf.throw]
        | some level =>
          have hReply : reply host (.getEffectiveLevel event.logger) k = .ok (level, k) := by
            simp [reply, hLevel]
          rw [request, Calls.run_ask (reply host) hReply, Ending.andThen_ok]
          simp only [pure, Except.pure]
          split
          next hLe =>
            rw [Calls.run_bind, request, Calls.run_ask (reply host) rfl, Ending.andThen_ok]
            obtain ⟨r, hRun, hCases⟩ := ih rest { k with log := k.log ++ [event] }
            exact ⟨r, by rw [hRun]; simp, hCases⟩
          next hLe =>
            obtain ⟨r, hRun, hCases⟩ := ih rest k
            exact ⟨r, by rw [hRun]; simp, hCases⟩

/-- A turn of the loop of a thread does what a turn of the loop of the server does. -/
theorem run_recvTurn (host : Host) (s : Socket) (fuel : Nat) (byteBuf : ByteBuf) (k : Alone) :
    ∃ k' events, k'.log = k.log ++ events ∧
      ((∃ rest, (recvTurn host s byteBuf).run (reply host) k = (.ok (.inl rest), k') ∧
          (upToClose k'.arriving).flatten.length < (upToClose k.arriving).flatten.length ∧
          recvLoop host (fuel + 1) byteBuf (upToClose k.arriving) =
            (recvLoop host fuel rest (upToClose k'.arriving)).after events) ∨
        ((recvTurn host s byteBuf).run (reply host) k = (.ok (.inr ()), k') ∧
          recvLoop host (fuel + 1) byteBuf (upToClose k.arriving) = ⟨.ok (), events⟩) ∨
        ∃ e, (recvTurn host s byteBuf).run (reply host) k = (.error e, k') ∧
          recvLoop host (fuel + 1) byteBuf (upToClose k.arriving) = ⟨.error e, events⟩) := by
  rw [recvTurn, Calls.run_bind, recvLoop, request]
  obtain ⟨hRecv, k', hReply, hLog⟩ | ⟨bytes, rest, k', hBytes, hRecv, hReply, hLog, hLeft⟩ :=
    recv_reply host (show 0 < BUF_LEN by decide) s k
  · rw [Calls.run_ask (reply host) hReply, hRecv]
    exact ⟨k', [], by simpa using hLog, .inr (.inl ⟨by simp, rfl⟩)⟩
  rw [Calls.run_ask (reply host) hReply, hRecv, Ending.andThen_ok, if_neg hBytes]
  dsimp only
  cases byteBuf.insert bytes with
  | error e => exact ⟨k', [], by simpa using hLog, .inr (.inr ⟨e, rfl, rfl⟩)⟩
  | ok byteBuf =>
    dsimp only
    obtain ⟨r, hRun, hCases⟩ := run_forceLog host (byteBuf.bytes.length + 1) byteBuf k'
    rw [Calls.run_bind, hRun]
    generalize decode host .default (byteBuf.bytes.length + 1) byteBuf = call at hCases
    refine ⟨{ k' with log := k'.log ++ call.events }, call.events, by rw [hLog], ?_⟩
    rcases call with ⟨verdict, client, events⟩
    obtain rfl | ⟨rfl, rfl⟩ := hCases
    case inr => exact .inr (.inr ⟨.hang, rfl, rfl⟩)
    rw [Ending.andThen_ok]
    cases verdict with
    | error e => exact .inr (.inr ⟨e, rfl, rfl⟩)
    | ok goesOn =>
      cases goesOn with
      | false => exact .inr (.inl ⟨rfl, rfl⟩)
      | true =>
        refine .inl ⟨client.byteBuf, rfl, ?_, ?_⟩
        · obtain ⟨hPos, -, hFlat⟩ := Default.Blocking.recv_eq_some hRecv (by decide)
          rw [hFlat, List.length_append, hLeft.flatten]
          dsimp only
          omega
        · dsimp only
          rw [hLeft.recvLoop]

/-- The loop of a thread follows the loop of the server, however many turns it may take. -/
theorem run_recvLoop (host : Host) (s : Socket) (turns : Nat) {fuel : Nat} (byteBuf : ByteBuf)
    (k : Alone) (hFuel : (upToClose k.arriving).flatten.length < fuel) :
    Follows Sum.isRight k.log ((Calls.loop (recvTurn host s) turns byteBuf).run (reply host) k)
      (recvLoop host fuel byteBuf (upToClose k.arriving)) := by
  induction turns generalizing fuel byteBuf k with
  | zero => exact .cutOff rfl k _
  | succ turns ih =>
    obtain ⟨fuel, rfl⟩ : ∃ n, fuel = n + 1 := ⟨fuel - 1, by omega⟩
    rw [Calls.loop]
    change Follows _ _ ((recvTurn host s byteBuf >>= _).run (reply host) k) _
    rw [Calls.run_bind]
    obtain ⟨k', events, hLog, ⟨rest, hRun, hLess, hServed⟩ | ⟨hRun, hServed⟩ | ⟨e, hRun, hServed⟩⟩ :=
      run_recvTurn host s fuel byteBuf k
    · rw [hRun, hServed, Ending.andThen_ok]
      have hRest := @ih fuel rest k' (by omega)
      rw [hLog] at hRest
      exact hRest.after
    · rw [hRun, hServed, Ending.andThen_ok]
      exact .ok hLog
    · rw [hRun, hServed, Ending.andThen_error]
      exact .error hLog

/-- The bytes of the start flag are collected as the server reads them. -/
theorem run_collect (host : Host) (s : Socket) {turns left : Nat} (recvBuf : List UInt8) {socket : Segments}
    {k : Alone} (hBytes : recvBuf.length + left = 4) (hTurns : left ≤ turns)
    (hSocket : Left socket (upToClose k.arriving)) :
    ∃ k', k'.log = k.log ∧
      ((readTurns turns left socket = .error .unread ∧
          (collect s turns recvBuf).run (reply host) k = (.ok none, k')) ∨
        ∃ bytes rest, readTurns turns left socket = .ok (bytes, rest) ∧
          (collect s turns recvBuf).run (reply host) k = (.ok (some (recvBuf ++ bytes)), k') ∧
          Left rest (upToClose k'.arriving)) := by
  induction turns generalizing left recvBuf socket k with
  | zero =>
    obtain rfl := Nat.le_zero.mp hTurns
    refine ⟨k, rfl, .inr ⟨[], socket, rfl, ?_, hSocket⟩⟩
    rw [List.append_nil]
    rfl
  | succ turns ih =>
    rw [readTurns, collect]
    by_cases hDone : left = 0
    · rw [if_pos hDone, if_neg (show ¬recvBuf.length < 4 by omega)]
      refine ⟨k, rfl, .inr ⟨[], socket, rfl, ?_, hSocket⟩⟩
      rw [List.append_nil]
      rfl
    have hLeft : 4 - recvBuf.length = left := by omega
    rw [if_neg hDone, if_pos (show recvBuf.length < 4 by omega), Calls.run_bind, request, hLeft,
      hSocket.recv]
    obtain ⟨hRecv, k', hReply, hLog⟩ | ⟨bytes, rest, k', hNew, hRecv, hReply, hLog, hRest⟩ :=
      recv_reply host (Nat.pos_of_ne_zero hDone) s k
    · rw [hRecv, Calls.run_ask (reply host) hReply]
      exact ⟨k', hLog, .inl ⟨rfl, by simp⟩⟩
    obtain ⟨hPos, hLe, -⟩ := Default.Blocking.recv_eq_some hRecv (Nat.pos_of_ne_zero hDone)
    rw [hRecv, Calls.run_ask (reply host) hReply, Ending.andThen_ok, if_neg hNew]
    dsimp only
    obtain ⟨k'', hLog', ⟨hRead, hRun⟩ | ⟨more, rest, hRead, hRun, hRest⟩⟩ :=
      @ih (left - bytes.length) (recvBuf ++ bytes) rest k'
        (by rw [List.length_append]; omega) (by omega) hRest
    · rw [hRead, hRun]
      exact ⟨k'', hLog'.trans hLog, .inl ⟨rfl, rfl⟩⟩
    · rw [hRead, hRun]
      refine ⟨k'', hLog'.trans hLog, .inr ⟨bytes ++ more, rest, rfl, ?_, hRest⟩⟩
      rw [List.append_assoc]

theorem run_serve (host : Host) (s : Socket) (turns : Nat) (k : Alone) :
    Follows id k.log ((serve host s turns).run (reply host) k)
      (SocketServer.runClient host (upToClose k.arriving)) := by
  rw [serve, SocketServer.runClient, Calls.run_bind, Default.Blocking.read]
  obtain ⟨k', hLog, ⟨hRead, hRun⟩ | ⟨bytes, rest, hRead, hRun, hLeft⟩⟩ :=
    @run_collect host s 4 4 [] _ k rfl le_rfl (.inl rfl)
  · rw [hRead, hRun]
    exact .ok (by simpa using hLog)
  rw [hRead, hRun, ← hLog, Ending.andThen_ok, List.nil_append]
  dsimp only
  cases Default.readStart host.env (recvBuf bytes) with
  | ok readBytes =>
    dsimp only
    rw [Calls.run_bind, hLeft.recvLoop, hLeft.flatten]
    refine (run_recvLoop host s turns .empty k' (Nat.lt_succ_self _)).andThen fun r k => ?_
    cases r with
    | inl _ => exact ⟨false, k, rfl, rfl, id⟩
    | inr _ => exact ⟨true, k, rfl, rfl, id⟩
  | error e =>
    have hSame : k'.log = k'.log ++ [] := (List.append_nil _).symm
    cases e with
    | small what => exact .ok hSame
    | invalid what => exact .ok hSame
    | _ => exact .error hSame

/-- A thread by itself does what `runClient` does on the bytes in front of the close. -/
theorem run_runClient (host : Host) (s : Socket) (turns : Nat) (k : Alone) :
    Follows id k.log ((runClient host s turns).run (reply host) k)
      (SocketServer.runClient host (upToClose k.arriving)) := by
  rw [runClient, Calls.run_bind]
  refine (run_serve host s turns k).andThen fun cleansUp k => ?_
  cases cleansUp with
  | false => exact ⟨false, k, rfl, rfl, id⟩
  | true => exact ⟨true, k, rfl, rfl, id⟩

theorem spec_terminate {α : Type} (e : Fail) (past : Trace Request Request.Answer) :
    Spec (fun _ o => o.OfClient) (fun _ _ => True) (terminate e : Program α) past :=
  ⟨trivial, fun a : Empty => a.elim⟩

theorem forceLog_ofClient (host : Host) (fuel : Nat) (byteBuf : ByteBuf)
    (past : Trace Request Request.Answer) :
    Spec (fun _ o => o.OfClient) (fun _ _ => True) (forceLog host fuel byteBuf) past := by
  induction fuel generalizing byteBuf past with
  | zero => exact trivial
  | succ fuel ih =>
    rw [forceLog]
    split
    · exact trivial
    · cases Default.createLoggingEvent host.env byteBuf with
      | mk result rest =>
        cases result with
        | error e => exact trivial
        | ok event =>
          refine ⟨trivial, fun _ => ⟨trivial, fun level => ?_⟩⟩
          change Spec _ _ (if level ≤ event.level.toInt then _ else _) _
          split
          · exact ⟨trivial, fun _ => ih rest _⟩
          · exact ih rest _

theorem recvTurn_ofClient (host : Host) (s : Socket) (byteBuf : ByteBuf)
    (past : Trace Request Request.Answer) :
    Spec (fun _ o => o.OfClient) (fun _ _ => True) (recvTurn host s byteBuf) past := by
  refine Spec.bind (Q := fun _ _ => True) ⟨trivial, fun _ => trivial⟩ fun bytes past _ => ?_
  split
  · exact trivial
  · cases byteBuf.insert bytes with
    | error e => exact spec_terminate e _
    | ok byteBuf =>
      refine (forceLog_ofClient host _ byteBuf _).bind fun r past _ => ?_
      obtain ⟨verdict, rest⟩ := r
      cases verdict with
      | error e => exact spec_terminate e past
      | ok goesOn => cases goesOn <;> exact trivial

theorem collect_ofClient (s : Socket) (turns : Nat) (recvBuf : List UInt8)
    (past : Trace Request Request.Answer) :
    Spec (fun _ o => o.OfClient) (fun _ _ => True) (collect s turns recvBuf) past := by
  induction turns generalizing recvBuf past with
  | zero => exact trivial
  | succ turns ih =>
    rw [collect]
    split
    · refine Spec.bind (Q := fun _ _ => True) ⟨trivial, fun _ => trivial⟩ fun bytes past _ => ?_
      split
      · exact trivial
      · exact ih _ _
    · exact trivial

theorem serve_ofClient (host : Host) (s : Socket) (turns : Nat)
    (past : Trace Request Request.Answer) :
    Spec (fun _ o => o.OfClient) (fun _ _ => True) (serve host s turns) past := by
  refine (collect_ofClient s 4 [] past).bind fun r past _ => ?_
  cases r with
  | none => exact trivial
  | some bytes =>
    dsimp only
    cases Default.readStart host.env (recvBuf bytes) with
    | error e =>
      cases e with
      | small what => exact trivial
      | invalid what => exact trivial
      | _ => exact spec_terminate _ past
    | ok readBytes =>
      refine Spec.bind (Q := Sum.elim (fun _ _ => True) fun _ _ => True) ?_ fun r past _ => ?_
      · refine Spec.loop turns (fun byteBuf past _ => ?_) trivial
        exact (recvTurn_ofClient host s byteBuf past).weaken fun r _ _ => by cases r <;> exact trivial
      · cases r <;> exact trivial

/-- A thread of a client makes no other calls. -/
theorem runClient_ofClient (host : Host) (s : Socket) (turns : Nat)
    (past : Trace Request Request.Answer) :
    Spec (fun _ o => o.OfClient) (fun _ _ => True) (runClient host s turns) past := by
  refine (serve_ofClient host s turns past).bind fun cleansUp past _ => ?_
  cases cleansUp with
  | false => exact trivial
  | true => exact ⟨trivial, fun _ => trivial⟩

/-- No more than there was room for, and the level of a logger that is found -/
def Honest (host : Host) : (Σ o : Request, o.Answer) → Prop
  | ⟨.recv _ size, bytes⟩ => bytes.length ≤ size
  | ⟨.getEffectiveLevel name, level⟩ => host.effectiveLevel name = some level
  | _ => True

/-- The calls of a thread are answered as if it were alone on a socket on which what it received
arrives. -/
theorem replied {past : Trace Request Request.Answer} (hClient : ∀ e ∈ past, e.1.OfClient)
    (hHonest : ∀ e ∈ past, Honest host e) (log : List LoggingEvent) :
    Replied (reply host) ⟨past.filterMap answered, log⟩ past ⟨[], log ++ logged past⟩ := by
  induction past generalizing log with
  | nil =>
    rw [logged, List.filterMap_nil, List.filterMap_nil, List.append_nil]
    exact .nil
  | cons e past ih =>
    obtain ⟨hCall, hClient⟩ := List.forall_mem_cons.mp hClient
    obtain ⟨hRoom, hHonest⟩ := List.forall_mem_cons.mp hHonest
    have hRest := ih hClient hHonest
    rcases e with ⟨o, a⟩
    cases o with
    | recv s size => exact .cons (if_pos hRoom) (hRest log)
    | lock => exact .cons rfl (hRest log)
    | getEffectiveLevel name =>
      have hLevel : host.effectiveLevel name = some a := hRoom
      have hReply (k : Alone) : reply host (.getEffectiveLevel name) k = .ok (a, k) := by
        simp [reply, hLevel]
      exact .cons (hReply _) (hRest log)
    | callAppenders event =>
      have hMore := hRest (log ++ [event])
      rw [List.append_assoc] at hMore
      exact .cons rfl hMore
    | closesocket s => exact .cons rfl (hRest log)
    | terminate e => exact a.elim
    | _ => exact hCall.elim

end

/-- A call adds to the log what its thread gives to appenders. -/
theorem answers_view {host : Host} {thread : Nat} {k k' : System} {o : Request} {a : o.Answer}
    (h : Answers host thread k o a k') (i : Nat) :
    (k'.log.filter (·.1 = i)).map Prod.snd = (k.log.filter (·.1 = i)).map Prod.snd ++
      if i = thread then (given ⟨o, a⟩).toList else [] := by
  cases h with
  | callAppenders =>
    by_cases hEq : i = thread
    · simp [given, hEq]
    · simp [hEq, Ne.symm hEq]
  | _ => simp [given]

/-- In every state that the server can come to, each thread has logged its own events in its own
order, as `runClient` logs them from the bytes that were received on its socket alone; it returns,
ends the program or waits for ever for a logger that is never found where `runClient` does. -/
theorem logs_of_reachable {host : Host} {port : Int} {turns : Nat}
    {pool : Pool System Role Request Request.Answer Bool} (h : Reachable host port turns pool)
    {i : Nat} {th : Thread Role Request Request.Answer Bool} (hThread : pool.threads[i]? = some th)
    {s : Socket} (hRole : th.role = .client s) :
    let served := SocketServer.runClient host (received th.past)
    (pool.state.log.filter (·.1 = i)).map Prod.snd = logged th.past ∧
      logged th.past <+: served.events ∧
      (th.rest = .done true → served = ⟨.ok (), logged th.past⟩) ∧
      (∀ e, th.rest.next? = some (.terminate e) → served = ⟨.error e, logged th.past⟩) ∧
      ∀ name, th.rest.next? = some (.getEffectiveLevel name) → host.effectiveLevel name = none →
        served = ⟨.error .hang, logged th.past⟩ := by
  intro served
  have hMem := List.mem_of_getElem? hThread
  have hReaches := Process.Reachable.reaches h th hMem
  rw [hRole] at hReaches
  change Reaches (runClient host s turns) th.past th.rest at hReaches
  have hClient : ∀ e ∈ th.past, e.1.OfClient := by
    intro e he
    obtain ⟨pre, post, hSplit⟩ := List.append_of_mem he
    rw [hSplit] at hReaches
    exact Spec.may_of_reaches (runClient_ofClient host s turns []) hReaches
  have hHonest : ∀ e ∈ th.past, Honest host e := by
    refine Process.Reachable.answered h (P := Honest host) (fun i k o a k' hAnswer => ?_) th hMem
    cases hAnswer with
    | recv hRoom => exact hRoom
    | getEffectiveLevel _ hLevel => exact hLevel
    | _ => exact trivial
  have hRun := hReaches.run_eq (replied hClient hHonest [])
  have hFollows := run_runClient host s turns ⟨th.past.filterMap answered, []⟩
  rw [hRun, List.nil_append] at hFollows
  obtain ⟨events, hLog, hPrefix, hOk, hError⟩ := hFollows
  rw [List.nil_append] at hLog
  refine ⟨?_, ?_, fun hDone => ?_, fun e hNext => ?_, fun name hNext hNever => ?_⟩
  · have hView := Process.Reachable.view (fun k i => (k.log.filter (·.1 = i)).map Prod.snd) given h
      (fun _ => rfl) (fun _ _ _ _ _ hAnswer => answers_view hAnswer) i
    rw [hView, hThread]
    rfl
  · refine List.IsPrefix.trans ?_ hPrefix
    rw [← hLog]
    refine Calls.run_keeps (I := fun k => logged th.past <+: k.log) th.rest
      (fun o k a k' hReply hk => hk.trans (reply_log hReply)) ?_
    exact List.prefix_rfl
  · rw [hDone] at hLog hOk
    rw [show logged th.past = events from hLog]
    exact hOk true rfl rfl
  · obtain ⟨next, hRest⟩ := Calls.eq_call_of_next? hNext
    rw [hRest] at hLog hError
    rw [show logged th.past = events from hLog]
    exact hError e rfl
  · obtain ⟨next, hRest⟩ := Calls.eq_call_of_next? hNext
    have hHangs : (Calls.call (.getEffectiveLevel name) next).run (reply host)
        ⟨[], logged th.past⟩ = (.error .hang, ⟨[], logged th.past⟩) := by
      simp [Calls.run, reply, hNever]
    rw [hRest, hHangs] at hLog hError
    rw [show logged th.past = events from hLog]
    exact hError .hang rfl

section sample

variable {host : Host} {byteBuf rest : ByteBuf} {event : LoggingEvent} {level : Int}
  {t : ThreadTrace} {q : Program (Except Fail Bool × ByteBuf)}

/-- The calls for a message that is alone in the buffer. -/
theorem reaches_forceLog (hNe : byteBuf.bytes ≠ []) (hRest : rest.bytes = [])
    (hCall : Default.createLoggingEvent host.env byteBuf = (.ok event, rest))
    (hLevel : level ≤ event.level.toInt) (fuel : Nat) :
    Reaches (forceLog host (fuel + 2) byteBuf) [⟨.lock, ()⟩,
      ⟨.getEffectiveLevel event.logger, level⟩, ⟨.callAppenders event, ()⟩]
      (.done (.ok true, rest)) := by
  rw [forceLog, if_neg hNe, hCall]
  refine .call (.call ?_)
  change Reaches (if level ≤ event.level.toInt then _ else _) _ _
  rw [if_pos hLevel]
  refine .call ?_
  change Reaches (forceLog host (fuel + 1) rest) _ _
  rw [forceLog, if_pos hRest]
  exact .here

/-- The calls up to the one that finds the logger of a message. -/
theorem reaches_getEffectiveLevel (hNe : byteBuf.bytes ≠ [])
    (hCall : Default.createLoggingEvent host.env byteBuf = (.ok event, rest)) (fuel : Nat) :
    ∃ next, Reaches (forceLog host (fuel + 1) byteBuf) [⟨.lock, ()⟩]
      (.call (.getEffectiveLevel event.logger) next) := by
  rw [forceLog, if_neg hNe, hCall]
  exact ⟨_, .call .here⟩

/-- A turn of the loop up to some point of its `forceLog`. -/
theorem reaches_recvTurn (s : Socket) {bytes : List UInt8} (hNe : bytes ≠ [])
    (hSize : bytes.length ≤ maxSize)
    (h : Reaches (forceLog host (bytes.length + 1) ⟨bytes, hSize⟩) t q) :
    ∃ f : Except Fail Bool × ByteBuf → Program (ByteBuf ⊕ Unit),
      Reaches (recvTurn host s .empty) (⟨.recv s BUF_LEN, bytes⟩ :: t) (q >>= f) ∧
      ∀ rest, f (.ok true, rest) = .done (.inl rest) := by
  have hInsert : ByteBuf.empty.insert bytes = .ok ⟨bytes, hSize⟩ := dif_pos hSize
  refine ⟨?f, .call ?_, ?_⟩
  case refine_1 =>
    change Reaches (if bytes = [] then _ else _) _ _
    rw [if_neg hNe, hInsert]
    exact h.bind_left _
  exact fun _ => rfl

/-- A thread that has its start flag, up to some point of its loop. -/
theorem reaches_runClient (s : Socket) (turns : Nat) {q : Program (ByteBuf ⊕ Unit)}
    (h : Reaches (Calls.loop (recvTurn host s) turns .empty) t q) :
    ∃ f : ByteBuf ⊕ Unit → Program Bool,
      Reaches (runClient host s turns) (⟨.recv s 4, Default.start⟩ :: t) (q >>= f) ∧
      f (.inr ()) = (request (.closesocket s) >>= fun _ => pure true) := by
  have hFlag : Reaches (collect s 4 []) [⟨.recv s 4, Default.start⟩] (.done (some Default.start)) :=
    .call .here
  have hServe : ∃ f : ByteBuf ⊕ Unit → Program Bool,
      Reaches (serve host s turns) (⟨.recv s 4, Default.start⟩ :: t) (q >>= f) ∧
      f (.inr ()) = .done true := by
    refine ⟨?f, hFlag.bind ?_, ?_⟩
    on_goal 2 =>
      dsimp only
      rw [readStart_recvBuf]
      exact h.bind_left _
    rfl
  obtain ⟨f, hServe, hEnd⟩ := hServe
  have hRun := hServe.bind_left fun cleansUp =>
    if cleansUp then request (.closesocket s) >>= fun _ => pure true else pure false
  rw [bind_assoc] at hRun
  refine ⟨_, hRun, ?_⟩
  rw [hEnd]
  rfl

end sample

def sampleMessage : ByteBuf := ⟨sampleStream.drop 4, by decide⟩

/-- All calls of a client that sends a message and closes the connection. -/
theorem reaches_first : ∃ event, event.logger = [0x6C] ∧
    Reaches (runClient dottedHost 4 2)
      ([⟨.recv 4 4, Default.start⟩, ⟨.recv 4 BUF_LEN, sampleMessage.bytes⟩, ⟨.lock, ()⟩,
        ⟨.getEffectiveLevel [0x6C], (0 : Int)⟩, ⟨.callAppenders event, ()⟩] ++
        [⟨.recv 4 BUF_LEN, []⟩, ⟨.closesocket 4, ()⟩]) (.done true) := by
  obtain ⟨event, rest, hCall, hRest, hLogger, hLevel⟩ : ∃ event rest,
      Default.createLoggingEvent .release sampleMessage = (.ok event, rest) ∧ rest.bytes = [] ∧
        event.logger = [0x6C] ∧ (0 : Int) ≤ event.level.toInt :=
    ⟨_, _, Prod.ext (by rfl) (by rfl), by decide, by decide, by decide⟩
  have hForce := @reaches_forceLog dottedHost _ _ _ _ (by decide) hRest hCall hLevel 39
  obtain ⟨f, hTurn, hGoesOn⟩ := reaches_recvTurn 4 (by decide) sampleMessage.size_le hForce
  have hEnd : Reaches (Calls.loop (recvTurn dottedHost 4) 1 rest) [⟨.recv 4 BUF_LEN, []⟩]
      (.done (.inr ())) := .call .here
  change Reaches _ _ (f (.ok true, rest)) at hTurn
  rw [hGoesOn] at hTurn
  have hLoop : Reaches (Calls.loop (recvTurn dottedHost 4) 2 .empty) _ (.done (.inr ())) :=
    hTurn.bind hEnd
  obtain ⟨g, hRun, hClose⟩ := reaches_runClient 4 2 hLoop
  refine ⟨event, hLogger, ?_⟩
  have hLast : Reaches (g (.inr ())) [⟨.closesocket 4, ()⟩] (.done true) := by
    rw [hClose]
    exact .call .here
  have hAll := hRun.trans hLast
  rw [hLogger] at hAll
  exact hAll

/-- The calls of a client that sends a message of a logger that is never found. -/
theorem reaches_second : ∃ next, Reaches (runClient dottedHost 5 2)
      ([⟨.recv 5 4, Default.start⟩] ++ [⟨.recv 5 BUF_LEN, Default.dotted.bytes⟩, ⟨.lock, ()⟩])
      (.call (.getEffectiveLevel [0x2E]) next) := by
  obtain ⟨event, rest, hCall, hLogger⟩ : ∃ event rest,
      Default.createLoggingEvent .release Default.dotted = (.ok event, rest) ∧
        event.logger = [0x2E] :=
    ⟨_, _, Prod.ext (by rfl) (by rfl), by decide⟩
  obtain ⟨next, hForce⟩ := @reaches_getEffectiveLevel dottedHost _ _ _ (by decide) hCall 40
  obtain ⟨f, hTurn, -⟩ := reaches_recvTurn 5 (by decide) Default.dotted.size_le hForce
  obtain ⟨g, hRun, -⟩ := reaches_runClient 5 2 (hTurn.bind_left _)
  rw [hLogger] at hRun
  exact ⟨_, hRun⟩

/-- No thread of the three is at a fatal call. -/
theorem alive_three {a b c : Thread Role Request Request.Answer Bool} {k : System}
    (ha : ∀ e, a.rest.next? ≠ some (.terminate e)) (hb : ∀ e, b.rest.next? ≠ some (.terminate e))
    (hc : ∀ e, c.rest.next? ≠ some (.terminate e)) :
    (process dottedHost 9988 2).Alive ⟨[a, b, c], k⟩ :=
  alive_cons ha (alive_cons hb (alive_cons hc alive_nil))

/-- The first client is served while the second has sent its start flag only; then the second hangs
with the lock, and the first closes its connection. -/
theorem logs_of_reachable_sample : ∃ pool first second event, Reachable dottedHost 9988 2 pool ∧
    pool.threads[1]? = some first ∧ pool.threads[2]? = some second ∧ pool.state.holder = some 2 ∧
    received first.past = [Default.start, sampleMessage.bytes] ∧
    received second.past = [Default.start, Default.dotted.bytes] ∧
    pool.state.log = [(1, event)] ∧
    SocketServer.runClient dottedHost (received first.past) = ⟨.ok (), [event]⟩ ∧
    SocketServer.runClient dottedHost (received second.past) = ⟨.error .hang, []⟩ := by
  obtain ⟨server, opens, hServer, hStart⟩ := sample_start
  obtain ⟨event, hLogger, hFirst⟩ := reaches_first
  obtain ⟨next, hSecond⟩ := reaches_second
  obtain ⟨q, hFirst, hFirst'⟩ := hFirst.split
  obtain ⟨r, hSecond, hSecond'⟩ := hSecond.split
  have hq : ∀ e, q.next? ≠ some (.terminate e) := by
    rw [hFirst'.next?_eq]
    rintro e ⟨⟩
  have hr : ∀ e, r.next? ≠ some (.terminate e) := by
    rw [hSecond'.next?_eq]
    rintro e ⟨⟩
  have answered {i : Nat} {k k' k'' : System} {o : Request} {a : o.Answer} {t : ThreadTrace}
      (hCalm : ∀ e, o ≠ .terminate e) (hStarts : starts o a = none)
      (hAnswer : Answers dottedHost i k o a k')
      (hRest : (process dottedHost 9988 2).Serves i k' t k'') :
      (process dottedHost 9988 2).Serves i k (⟨o, a⟩ :: t) k'' :=
    .cons (fun ⟨e, h, _⟩ => hCalm e h) hStarts hAnswer hRest
  have hRun := Process.Reachable.goOn hStart (i := 2) rfl hSecond
    (answered (by rintro e ⟨⟩) rfl (.recv (by decide)) .nil)
    fun j th _ hj => alive_three hServer (by rintro e ⟨⟩) (by rintro e ⟨⟩) th
      (List.mem_of_getElem? hj)
  have hRun := Process.Reachable.goOn hRun (i := 1) rfl hFirst
    (answered (by rintro e ⟨⟩) rfl (.recv (by decide)) <|
      answered (by rintro e ⟨⟩) rfl (.recv (by decide)) <|
      answered (by rintro e ⟨⟩) rfl (.lock rfl) <|
      answered (by rintro e ⟨⟩) rfl (.getEffectiveLevel rfl rfl) <|
      answered (by rintro e ⟨⟩) rfl .callAppenders .nil)
    fun j th _ hj => alive_three hServer (by rintro e ⟨⟩) hr th (List.mem_of_getElem? hj)
  have hRun := Process.Reachable.goOn hRun (i := 2) rfl hSecond'
    (answered (by rintro e ⟨⟩) rfl (.recv (by decide)) <|
      answered (by rintro e ⟨⟩) rfl (.lock rfl) .nil)
    fun j th _ hj => alive_three hServer hq hr th (List.mem_of_getElem? hj)
  have hRun := Process.Reachable.goOn hRun (i := 1) rfl hFirst'
    (answered (by rintro e ⟨⟩) rfl (.recv (by decide)) <|
      answered (by rintro e ⟨⟩) rfl .closesocket .nil)
    fun j th _ hj => alive_three hServer hq (by rintro e ⟨⟩) th (List.mem_of_getElem? hj)
  refine ⟨_, _, _, event, hRun, rfl, rfl, rfl, rfl, rfl, rfl, ?_, ?_⟩
  · exact (logs_of_reachable hRun (i := 1) rfl rfl).2.2.1 rfl
  · exact (logs_of_reachable hRun (i := 2) rfl rfl).2.2.2.2 _ rfl rfl

end LogSocket.ThreadedServer
