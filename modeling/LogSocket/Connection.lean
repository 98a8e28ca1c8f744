import LogSocket.Segmentation

/-! One connection and the client that a server keeps for it: the chunks received so far, the events
delivered on account of them, and how the client stands to both, whatever the verdicts were. -/

namespace LogSocket

open Lib

/-- A call of `forceLog` that returns leaves its client where the decoder came to a halt. -/
theorem decode_halts {host : Host} (hUnpack : host.UnpackLaws) (protocol : Protocol) {fuel : Nat}
    (byteBuf : ByteBuf) (hFuel : byteBuf.bytes.length < fuel) :
    let call := decode host protocol fuel byteBuf
    call.verdict ≠ .error .hang →
      forceLogStep host call.client.loggingFunc call.client.byteBuf.bytes = halt call.verdict := by
  induction fuel generalizing byteBuf with
  | zero => exact absurd hFuel (Nat.not_lt_zero _)
  | succ fuel ih =>
    have hStep := forceLogStep_some host protocol byteBuf
    rw [decode]
    split
    next hEmpty =>
      rw [if_pos hEmpty] at hStep
      exact fun _ => hStep
    next hEmpty =>
      rw [if_neg hEmpty] at hStep
      rcases (Protocol.createLoggingEvent_sound hUnpack protocol).takes byteBuf with
        ⟨e, hf⟩ | ⟨event, n, hPos, hn, hf⟩
      · rw [hf] at hStep ⊢
        exact fun _ => hStep
      · rw [hf]
        dsimp only
        cases hLogged : callAppenders host event with
        | error e =>
          obtain rfl := callAppenders_error hLogged
          exact fun hHang => absurd rfl hHang
        | ok logged =>
          apply ih
          rw [ByteBuf.drop_bytes, List.length_drop]
          omega

variable {host : Host} {client : Client}

theorem forceLog_halts (hUnpack : host.UnpackLaws) {bytes : List UInt8}
    (h : (client.byteBuf.bytes ++ bytes).length ≤ maxSize) :
    let call := client.forceLog host bytes
    call.verdict ≠ .error .hang →
      forceLogStep host call.client.loggingFunc call.client.byteBuf.bytes = halt call.verdict := by
  have hInsert : client.byteBuf.insert bytes = .ok ⟨client.byteBuf.bytes ++ bytes, h⟩ := dif_pos h
  unfold Client.forceLog
  simp only [hInsert]
  cases client.loggingFunc with
  | some protocol => exact decode_halts hUnpack protocol _ (Nat.lt_succ_self _)
  | none =>
    generalize (⟨client.byteBuf.bytes ++ bytes, h⟩ : ByteBuf) = byteBuf
    have hStep := forceLogStep_none host byteBuf
    dsimp only [createLoggingEventFunc] at hStep ⊢
    rcases tryLoggingEventFuncs_settles host (List.prefix_refl byteBuf.bytes)
      sloggingEventFuncs with ⟨e, -, hTry⟩ | ⟨protocol, -, hTry, -⟩ | ⟨r, -, hr, hTry, -⟩
    · rw [hTry] at hStep ⊢
      exact fun _ => hStep
    · rw [hTry]
      exact decode_halts hUnpack protocol _ (Nat.lt_succ_self _)
    · rw [hTry] at hStep ⊢
      rcases r with e | _ | protocol
      · exact fun _ => hStep
      · exact fun _ => hStep
      · exact absurd rfl (hr protocol)

/-- A client that can deliver nothing more: the decoder has stopped with `false`. -/
def Client.Spent (host : Host) (client : Client) : Prop :=
  forceLogStep host client.loggingFunc client.byteBuf.bytes = .stop (.ok false)

/-- A spent client delivers nothing and stays spent, however many bytes it is given. -/
theorem Client.Spent.forceLog (hUnpack : host.UnpackLaws) (h : client.Spent host)
    (bytes : List UInt8) :
    let call := client.forceLog host bytes
    call.events = [] ∧ call.verdict ≠ .ok true ∧ call.client.Spent host := by
  intro call
  by_cases hSize : (client.byteBuf.bytes ++ bytes).length ≤ maxSize
  · have hMore : forceLogStep host client.loggingFunc client.byteBuf.bytes ≠ .more := by
      rw [h]
      simp
    have hStop' := (forceLogStep_stable hUnpack _ _ _ hSize hMore).trans h
    have hDrains := forceLog_drains hUnpack client.loggingFunc ⟨_, hSize⟩
    rw [← forceLog_eq client hSize] at hDrains
    rcases hDrains.det (.stop hStop') with ⟨hEvents, hRest⟩
    have hTrue : call.verdict ≠ .ok true := fun hTrue => by
      rw [rest_of_true hTrue] at hRest
      cases hRest
    have hFalse : call.verdict = .ok false := by
      rw [rest_of_ne_true hTrue] at hRest
      exact Sum.inr.inj hRest.symm
    refine ⟨hEvents.symm, hTrue, ?_⟩
    rw [Client.Spent, forceLog_halts hUnpack hSize (by rw [hFalse]; simp), hFalse]
    rfl
  · have hInsert : client.byteBuf.insert bytes = .error .badAlloc := dif_neg hSize
    have hCall : call = ⟨.error .badAlloc, client, []⟩ := by
      simp [call, Client.forceLog, hInsert]
    rw [hCall]
    exact ⟨rfl, by simp, h⟩

theorem spent_of_verdict (hUnpack : host.UnpackLaws) {bytes : List UInt8}
    (h : (client.forceLog host bytes).verdict = .ok false) :
    (client.forceLog host bytes).client.Spent host := by
  have hSize : (client.byteBuf.bytes ++ bytes).length ≤ maxSize := by
    by_contra hSize
    have hInsert : client.byteBuf.insert bytes = .error .badAlloc := dif_neg hSize
    simp [Client.forceLog, hInsert] at h
  rw [Client.Spent, forceLog_halts hUnpack hSize (by rw [h]; simp), h]
  rfl

section forceLogAll

variable {chunks : List (List UInt8)}

/-- Nothing is looked at after a call that did not return `true`. -/
theorem forceLogAll_append_of_ne_true (more : List (List UInt8))
    (h : (client.forceLogAll host chunks).verdict ≠ .ok true) :
    client.forceLogAll host (chunks ++ more) = client.forceLogAll host chunks := by
  induction chunks generalizing client with
  | nil => exact absurd rfl h
  | cons chunk chunks ih =>
    rw [Client.forceLogAll] at h
    rw [List.cons_append, Client.forceLogAll, Client.forceLogAll]
    dsimp only at h ⊢
    split
    next hTrue =>
      simp only [hTrue] at h
      rw [ih h]
    next => rfl

/-- Otherwise the client goes on with the next chunk. -/
theorem forceLogAll_append_of_true (data : List UInt8)
    (h : (client.forceLogAll host chunks).verdict = .ok true) :
    let before := client.forceLogAll host chunks
    let call := before.client.forceLog host data
    client.forceLogAll host (chunks ++ [data]) =
      ⟨call.verdict, call.client, before.events ++ call.events⟩ := by
  induction chunks generalizing client with
  | nil =>
    simp only [Client.forceLogAll, List.nil_append, List.append_nil]
    split
    next hTrue => rw [hTrue]
    next => rfl
  | cons chunk chunks ih =>
    rw [Client.forceLogAll] at h
    rw [List.cons_append, Client.forceLogAll, Client.forceLogAll]
    dsimp only at h ⊢
    split at h
    next hTrue =>
      have hRest := ih h
      dsimp only at hRest
      simp only [hRest, List.append_assoc]
    next hTrue => exact absurd h hTrue

end forceLogAll

/-- The chunks received on a connection and the events delivered on account of it. -/
structure Connection where
  chunks : List (List UInt8)
  events : List LoggingEvent
  deriving DecidableEq

/-- What a client of its own makes of the chunks of a connection. -/
def Connection.fresh (host : Host) (connection : Connection) : Call :=
  Client.new.forceLogAll host connection.chunks

/-- `client` has been given the chunks of the connection, one after the other and also after a call
returned `false`, and nothing else. -/
structure Serves (host : Host) (connection : Connection) (client : Client) : Prop where
  events : connection.events = (connection.fresh host).events
  client : (connection.fresh host).verdict = .ok true ∧ client = (connection.fresh host).client ∨
    (connection.fresh host).verdict = .ok false ∧ client.Spent host

theorem Serves.new (host : Host) : Serves host ⟨[], []⟩ .new := ⟨rfl, .inl ⟨rfl, rfl⟩⟩

/-- The connection after a chunk that `call` was made for. -/
def Connection.fed (connection : Connection) (data : List UInt8) (call : Call) : Connection :=
  ⟨connection.chunks ++ [data], connection.events ++ call.events⟩

variable {connection : Connection}

/-- The next chunk. -/
theorem Serves.forceLog (hUnpack : host.UnpackLaws) (h : Serves host connection client)
    (data : List UInt8) :
    let call := client.forceLog host data
    let after := connection.fed data call
    after.events = (after.fresh host).events ∧
      (call.verdict = .ok false → (after.fresh host).verdict = .ok false) ∧
      ∀ goesOn, call.verdict = .ok goesOn → Serves host after call.client := by
  intro call after
  rcases h with ⟨hEvents, ⟨hTrue, rfl⟩ | ⟨hFalse, hSpent⟩⟩
  · have hFresh : after.fresh host =
        ⟨call.verdict, call.client, (connection.fresh host).events ++ call.events⟩ :=
      forceLogAll_append_of_true data hTrue
    have hAfter : after.events = (after.fresh host).events := by
      rw [hFresh, ← hEvents]
      rfl
    refine ⟨hAfter, fun hFalse => by rw [hFresh, hFalse], fun goesOn hVerdict => ⟨hAfter, ?_⟩⟩
    rw [hFresh]
    cases goesOn with
    | true => exact .inl ⟨hVerdict, rfl⟩
    | false => exact .inr ⟨hVerdict, spent_of_verdict hUnpack hVerdict⟩
  · have hFresh : after.fresh host = connection.fresh host :=
      forceLogAll_append_of_ne_true [data] (by
        rw [show (Client.new.forceLogAll host connection.chunks).verdict = _ from hFalse]
        simp)
    rcases hSpent.forceLog hUnpack data with ⟨hNone, -, hSpent'⟩
    have hAfter : after.events = (after.fresh host).events := by
      rw [hFresh, ← hEvents]
      exact (congrArg _ hNone).trans (List.append_nil _)
    rw [hFresh] at hAfter ⊢
    refine ⟨hAfter, fun _ => hFalse, fun _ _ => ⟨?_, .inr ?_⟩⟩
    · rw [hFresh]; exact hAfter
    · rw [hFresh]; exact ⟨hFalse, hSpent'⟩

/-- The events of one connection are those of one call on all of its bytes. -/
theorem Connection.fresh_events (hUnpack : host.UnpackLaws) (connection : Connection)
    (hSize : connection.chunks.flatten.length ≤ maxSize) :
    (connection.fresh host).events =
      (Client.new.forceLog host connection.chunks.flatten).events :=
  (forceLogAll_rest hUnpack connection.chunks hSize).1

end LogSocket
