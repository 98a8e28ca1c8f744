import LogSocket.ClientWires
import LogSocket.Segmentation

/-! From a client's appender to a server's: what a server logs of a client is a part of what the
client appended, in the same order and with nothing twice, however often the connection is lost and
however the bytes are cut into pieces. -/

namespace LogSocket

open Lib Default ClientEvent

/-- The event that is logged for what a message carries, if it passes the level of its logger. -/
def Default.Carried.logged (host : Host) (carried : Carried) : Option LoggingEvent :=
  carried.createLoggingEvent.toOption.bind fun event => (callAppenders host event).toOption.join

/-- The event that a server logs for one of a client. -/
def loggedAs (host : Host) (event : ClientEvent) : Option LoggingEvent := event.carried.logged host

/-- A call that waits for more, or for ever for a logger that is never found. -/
def GoesOn (host : Host) (loggers : List LogString) (verdict : Except Fail Bool) : Prop :=
  verdict = .ok true ∨ verdict = .error .hang ∧ ∃ name ∈ loggers, host.effectiveLevel name = none

theorem GoesOn.mono {host : Host} {loggers loggers' : List LogString} {verdict : Except Fail Bool}
    (h : GoesOn host loggers verdict) (hSub : loggers ⊆ loggers') : GoesOn host loggers' verdict := by
  obtain h | ⟨h, name, hMem, hNone⟩ := h
  · exact .inl h
  · exact .inr ⟨h, name, hSub hMem, hNone⟩

/-- Decoding the front of a buffer gives the front of its events, and then waits for more. -/
theorem decode_front {host : Host} {whole byteBuf : ByteBuf} {carrieds : List Carried}
    (h : Decodes host.env whole carrieds) (hFront : byteBuf.bytes <+: whole.bytes) {fuel : Nat}
    (hFuel : byteBuf.bytes.length < fuel) :
    let call := decode host .default fuel byteBuf
    GoesOn host (carrieds.map (·.logger)) call.verdict ∧
      ∃ n, call.events = (carrieds.take n).filterMap (Carried.logged host) ∧
        (byteBuf.bytes = whole.bytes → call.verdict = .ok true → carrieds.length ≤ n) := by
  induction h generalizing byteBuf fuel with
  | done hNil =>
    rw [hNil, List.prefix_nil] at hFront
    obtain ⟨fuel, rfl⟩ := Nat.exists_eq_succ_of_ne_zero (Nat.ne_zero_of_lt hFuel)
    rw [decode, if_pos hFront]
    exact ⟨.inl rfl, 0, rfl, fun _ _ => Nat.le_refl _⟩
  | @message whole rest carried carrieds pos event hRead hEvent hShows hCall hRest ih =>
    obtain ⟨fuel, rfl⟩ := Nat.exists_eq_succ_of_ne_zero (Nat.ne_zero_of_lt hFuel)
    have hSound := Default.createLoggingEvent_sound host.env
    have hStep (result : Except Fail LoggingEvent × ByteBuf)
        (h : Default.createLoggingEvent host.env byteBuf = result) :
        Protocol.default.createLoggingEvent host byteBuf = result := h
    rw [decode]
    split
    next hNil =>
      refine ⟨.inl rfl, 0, rfl, fun hAll _ => ?_⟩
      obtain ⟨e, hError⟩ | ⟨event', n, hPos, hLe, -⟩ := hSound.takes whole
      · cases hError.symm.trans hCall
      · rw [← hAll, hNil, List.length_nil] at hLe
        omega
    next hNe =>
      obtain ⟨e, hMore, hError, hShort⟩ | ⟨left, hOk, hLess, hNext, hLeft⟩ :=
        hSound.front hCall hFront
      · -- the message has not come to its end
        rw [hStep _ hError]
        exact ⟨.inl (caughtInLoop_eq_true.mpr hMore), 0, rfl, fun hAll => absurd hAll hShort⟩
      · rw [hStep _ hOk]
        dsimp only
        obtain ⟨level, -, hShown⟩ | ⟨hNone, hHang⟩ := callAppenders_cases host event
        · obtain ⟨hVerdict, k, hEvents, hEnd⟩ :=
            ih hNext (Nat.lt_of_lt_of_le hLess (Nat.le_of_lt_succ hFuel))
          rw [hShown]
          refine ⟨hVerdict.mono (List.subset_cons_self _ _), k + 1, ?_, fun hAll hTrue => ?_⟩
          · have hLogged : carried.logged host =
                if level ≤ event.level.toInt then some event else none := by
              simp [Carried.logged, hEvent, hShown, Except.toOption]
            rw [List.take_succ_cons, List.filterMap_cons, hLogged]
            dsimp only
            rw [hEvents]
            split <;> simp
          · exact Nat.succ_le_succ (hEnd (hLeft hAll) hTrue)
        · rw [hHang]
          refine ⟨.inr ⟨rfl, carried.logger, List.mem_cons_self, hShows.logger ▸ hNone⟩, 0, rfl,
            fun _ hTrue => ?_⟩
          cases hTrue

/-- Without the whole start flag a stream has no loader yet. -/
theorem createLoggingEventFunc_short (host : Host) {byteBuf : ByteBuf}
    (h : byteBuf.bytes.length < 4) :
    createLoggingEventFunc host byteBuf = (.error (.small .small), byteBuf) := by
  have hFour : (0 : UInt64).toNat + (4 : UInt64).toNat = 4 := rfl
  have hFetch := @ByteBuf.fetch_small byteBuf 0 4 (by omega) (by omega)
  have hStart : Protocol.default.readStart host byteBuf = .error (.small .small) := by
    change readFlag Default.start host.env byteBuf = _
    rw [readFlag, hFetch, error_bind]
  simp only [createLoggingEventFunc, sloggingEventFuncs, tryLoggingEventFuncs, hStart]

/-- A server that has the front of a session has logged the front of its events. -/
theorem forceLog_front {host : Host} (hAlloc : 65536 ≤ host.env.allocLimit)
    {events : List ClientEvent} (hTexts : ∀ event ∈ events, event.TextsFit)
    (hSizes : ∀ event ∈ events, ∀ mdc ∈ event.mdcCopy, mdc.entries.length < 2 ^ 31)
    (hRoom : (session events).length ≤ maxSize) {bytes : List UInt8}
    (hFront : bytes <+: session events) :
    let call := Client.new.forceLog host bytes
    GoesOn host (events.map (·.carried.logger)) call.verdict ∧
      ∃ n, call.events = (events.take n).filterMap (loggedAs host) ∧
        (bytes = session events → call.verdict = .ok true → events.length ≤ n) := by
  obtain ⟨stream, hSession, hStream⟩ := messages_of_session hAlloc hTexts hSizes
  have hSize : bytes.length ≤ maxSize := hFront.length_le.trans hRoom
  have hInsert : ByteBuf.empty.insert bytes = .ok ⟨bytes, hSize⟩ := dif_pos hSize
  have hLoader : Client.new.loggingFunc = none := rfl
  have hStarts : Default.start.length = 4 := rfl
  rw [Client.forceLog, show Client.new.byteBuf = .empty from rfl, hInsert]
  dsimp only
  rw [hLoader]
  obtain hShort | hLong := Nat.lt_or_ge bytes.length 4
  · rw [createLoggingEventFunc_short host hShort]
    refine ⟨.inl rfl, 0, rfl, fun hAll _ => ?_⟩
    have hLe := congrArg List.length (hAll.trans hSession)
    rw [List.length_append, hStarts] at hLe
    omega
  · have hStart : Default.start <+: session events := ⟨stream, hSession.symm⟩
    obtain ⟨front, rfl⟩ := List.prefix_of_prefix_length_le hStart hFront hLong
    obtain ⟨left, hLeft, hFunc⟩ := createLoggingEventFunc_default host
      (show (⟨Default.start ++ front, hSize⟩ : ByteBuf).bytes = Default.start ++ front from rfl)
    rw [hSession] at hFront hRoom ⊢
    rw [List.length_append] at hRoom
    let whole : ByteBuf := ⟨stream, Nat.le_trans (Nat.le_add_left _ _) hRoom⟩
    have hPrefix : left.bytes <+: whole.bytes := by
      rw [hLeft]
      exact (List.prefix_append_right_inj _).mp hFront
    obtain ⟨hVerdict, n, hEvents, hAll⟩ :=
      decode_front (hStream whole rfl) hPrefix (Nat.lt_succ_self left.bytes.length)
    rw [List.map_map] at hVerdict
    rw [hFunc]
    refine ⟨hVerdict, n, hEvents.trans ?_, fun hSame hTrue => ?_⟩
    · rw [← List.map_take, List.filterMap_map]
      rfl
    · have hEnd := hAll
        (by rw [hLeft]; exact List.append_cancel_left hSame) hTrue
      rwa [List.length_map] at hEnd

section

variable {host : Host} (hUnpack : host.UnpackLaws) (hAlloc : 65536 ≤ host.env.allocLimit)
  {events : List ClientEvent} (hTexts : ∀ event ∈ events, event.TextsFit)
  (hSizes : ∀ event ∈ events, ∀ mdc ∈ event.mdcCopy, mdc.entries.length < 2 ^ 31)
  (hRoom : (session events).length ≤ maxSize)
include hUnpack hAlloc hTexts hSizes hRoom

/-- The same of a stream that comes in pieces. -/
theorem forceLogAll_front {chunks : List (List UInt8)} (hFront : chunks.flatten <+: session events) :
    let call := Client.new.forceLogAll host chunks
    GoesOn host (events.map (·.carried.logger)) call.verdict ∧
      ∃ n, call.events = (events.take n).filterMap (loggedAs host) ∧
        (chunks.flatten = session events → call.verdict = .ok true → events.length ≤ n) := by
  obtain ⟨hEvents, hRest⟩ := forceLogAll_rest hUnpack chunks (hFront.length_le.trans hRoom)
  dsimp only
  rw [hEvents, (rest_inj hRest).1]
  exact forceLog_front hAlloc hTexts hSizes hRoom hFront

end

/-- What a run of an appender is given: texts and maps that the format has room for, and no more events
than a stream can be collected of. -/
structure Sendable (events : List ClientEvent) : Prop where
  texts : ∀ event ∈ events, event.TextsFit
  sizes : ∀ event ∈ events, ∀ mdc ∈ event.mdcCopy, mdc.entries.length < 2 ^ 31
  room : ∀ part : List ClientEvent, part.Sublist events → (session part).length ≤ maxSize

theorem Sendable.part {events part : List ClientEvent} (h : Sendable events)
    (hPart : part.Sublist events) : Sendable part where
  texts event hEvent := h.texts event (hPart.subset hEvent)
  sizes event hEvent := h.sizes event (hPart.subset hEvent)
  room part' hPart' := h.room part' (hPart'.trans hPart)

open SocketAppender in
/-- Three events, the second of which is cut off, over two connections. -/
def reconnectOps : List Op := [
  .activateOptions [] true true,
  .append plainEvent [⟨20, true⟩, ⟨1000, true⟩],
  .append plainEvent [⟨10, false⟩],
  .activateOptions [] true true,
  .append plainEvent [⟨1000, true⟩]]

theorem sendable_replicate (n : Nat) (h : n ≤ 3) : Sendable (List.replicate n plainEvent) where
  texts event hEvent := by
    rw [List.eq_of_mem_replicate hEvent]
    exact ⟨by decide, by decide, by decide, nofun, nofun, nofun⟩
  sizes event hEvent := by
    rw [List.eq_of_mem_replicate hEvent]
    exact nofun
  room part hPart := by
    obtain ⟨m, hm, rfl⟩ := List.sublist_replicate_iff.mp hPart
    have hAll : ∀ m ≤ 3, (session (List.replicate m plainEvent)).length ≤ maxSize := by
      decide +kernel
    exact hAll m (hm.trans h)

open SocketAppender in
/-- While the connection lasts, a server that has received all that was sent has logged all that was
appended since it was made. -/
theorem logged_since_connect {host : Host} (hUnpack : host.UnpackLaws)
    (hAlloc : 65536 ≤ host.env.allocLimit) {address : Bool} {reconnectionDelay : Int32}
    {ops : List Op} {self connected self' : SocketAppender} {sends : List Send} {closes : Bool}
    {appends : List (ClientEvent × List Send)} (hSendable : Sendable (appends.map Prod.fst))
    (hFound : ∀ event ∈ appends.map Prod.fst, host.effectiveLevel event.carried.logger ≠ none)
    (hRun : (SocketAppender.new address reconnectionDelay).run ops = some self)
    (hAddress : self.address = true) (hOpen : self.closed = false)
    (hConnect : self.step (.activateOptions sends closes true) = some connected)
    (hAppends : connected.run (appends.map fun a => .append a.1 a.2) = some self')
    (hStream : self'.oos ≠ none) (hReturns : self'.waits = false) (hSome : appends ≠ [])
    {chunks : List (List UInt8)}
    (hArrives : ∀ wire ∈ self'.wires.head?, chunks.flatten = wire.sent) :
    (Client.new.forceLogAll host chunks).events =
      (appends.map Prod.fst).filterMap (loggedAs host) := by
  obtain ⟨wires, hWires⟩ :=
    sent_since_connect hRun hAddress hOpen hConnect hAppends hStream hReturns hSome
  rw [hWires] at hArrives
  have hAll : chunks.flatten = session (appends.map Prod.fst) := hArrives _ rfl
  obtain ⟨hVerdict, n, hEvents, hEnd⟩ :=
    forceLogAll_front hUnpack hAlloc hSendable.texts hSendable.sizes
      (hSendable.room _ (List.Sublist.refl _)) ⟨[], by rw [hAll, List.append_nil]⟩
  obtain hTrue | ⟨-, name, hMem, hNone⟩ := hVerdict
  · rw [hEvents, List.take_of_length_le (hEnd hAll hTrue)]
  · obtain ⟨event, hEvent, rfl⟩ := List.mem_map.mp hMem
    exact absurd hNone (hFound event hEvent)

open SocketAppender in
theorem logged_since_connect_sample : ∃ self connected self',
    (SocketAppender.new true 30000).run reconnectOps = some self ∧
    self.step (.activateOptions [] true true) = some connected ∧
    connected.run (([(plainEvent, [⟨1000, true⟩])] : List (ClientEvent × List Send)).map
      fun a => .append a.1 a.2) = some self' ∧
    (Client.new.forceLogAll byteHost [session [plainEvent]]).events =
      [plainEvent].filterMap (loggedAs byteHost) :=
  ⟨_, _, _, rfl, rfl, rfl, @logged_since_connect byteHost byteHost_laws (by decide) true 30000
    reconnectOps _ _ _ [] true [(plainEvent, [⟨1000, true⟩])] (sendable_replicate 1 (by decide))
    (fun _ _ => by simp [byteHost]) rfl rfl rfl rfl rfl (by simp) rfl (by simp) _ (by
      rintro _ ⟨⟩
      decide +kernel)⟩

end LogSocket
