import LogSocket.SocketAgreement
import LogSocket.Termination

/-! The three drivers of the Default protocol: `Client::forceLog`, the loop of `recv` in `runClient`
and the loop of blocking reads. A message that is read from a socket is the one that is read from a
buffer with the same bytes, so reading a stream once gives the events that parsing it again and again
does. -/

namespace LogSocket

open Lib ByteBuf

namespace Default.Blocking

variable {env : Env} {byteBuf : ByteBuf} {pos : UInt64} {socket : Segments} {fuel : Nat}

/-- The same value, with the offset behind it instead of its size. -/
def EndsAt {α : Type} (byteBuf : ByteBuf) (r : α × UInt64) (r' : α × Segments) : Prop :=
  r.1 = r'.1 ∧ At byteBuf r.2 r'.2

theorem At.readObjectTag (h : At byteBuf 0 socket) :
    Relates Refuses (At byteBuf) (Default.readObjectTag byteBuf)
      (Blocking.readObjectTag socket) := by
  apply h.readByte.bind
  rintro ⟨typeClass, size⟩ ⟨_, socket⟩ - - ⟨rfl, rfl, hNext⟩
  apply (require_accept _ .resetOrObject).bind
  intro _ _ _ _ _
  dsimp only at hNext ⊢
  by_cases hReset : typeClass = tcReset
  · rw [if_pos hReset, if_pos hReset]
    apply hNext.readByte.bind
    rintro ⟨typeClass, more⟩ ⟨_, socket⟩ - - ⟨rfl, rfl, hLast⟩
    apply (require_accept _ .typeObject).bind
    intro _ _ _ _ _
    rw [UInt64.zero_add] at hLast
    exact hLast
  · rw [if_neg hReset, if_neg hReset]
    rw [UInt64.zero_add] at hNext
    exact hNext

theorem At.readExpected (h : At byteBuf pos socket) (expected : UInt8) (what : Message) :
    Relates Refuses (At byteBuf) (Default.readExpected expected what byteBuf pos)
      (Blocking.readExpected expected socket) := by
  apply h.readByte.bind
  rintro ⟨value, size⟩ ⟨_, socket⟩ - - ⟨rfl, rfl, hNext⟩
  apply (require_accept _ what).bind
  intro _ _ _ _ _
  exact hNext

theorem At.readTrailer (h : At byteBuf pos socket) :
    Relates Refuses (EndsAt byteBuf) (Default.readTrailer byteBuf pos)
      (Blocking.readTrailer socket) := by
  apply (h.readExpected tcNull .null).bind
  intro pos socket _ _ h
  apply (h.readExpected tcBlockData .blockData).bind
  intro pos socket _ _ h
  apply (h.readExpected 0x04 .four).bind
  intro pos socket _ _ h
  apply h.readInt.bind
  rintro ⟨level, size⟩ ⟨_, socket⟩ - - ⟨rfl, rfl, h⟩
  apply (h.readExpected tcNull .null).bind
  intro pos socket _ _ h
  apply (h.readExpected tcEndBlockData .endBlockData).bind
  intro pos socket _ _ h
  exact ⟨rfl, h⟩

section

variable (hRoomy : Roomy env)
include hRoomy

theorem Roomy.readBytes_eq {size : UInt64} (hSize : size.toNat ≤ 65536) :
    Default.readBytes env byteBuf pos size =
      byteBuf.fetch pos size >>= fun value => pure (value, size) := by
  rw [Default.readBytes, hRoomy.alloc_eq hSize, fetch, bind_assoc]
  rfl

theorem At.readHeader (h : At byteBuf pos socket) :
    Relates Refuses (EndsAt byteBuf) (Default.readHeader env byteBuf pos)
      (Blocking.readHeader env socket) := by
  have hTwo : (2 : UInt64).toNat ≤ 65536 := by decide
  rw [Default.readHeader, hRoomy.readBytes_eq hTwo, bind_assoc]
  apply (h.fetchBytes hRoomy hTwo).bind
  rintro lookupsRequired ⟨_, socket⟩ - - ⟨rfl, hNext⟩
  rw [pure_bind]
  dsimp only
  rw [hRoomy.assert_eq]
  apply (require_accept _ .lookupsRequired).bind
  intro _ _ _ _ _
  apply hNext.readLong.bind
  rintro ⟨timeStamp, size⟩ ⟨_, socket⟩ - - ⟨rfl, rfl, hNext⟩
  apply (hNext.readLogString hRoomy.joint false).bind
  rintro ⟨logger, size⟩ ⟨_, socket⟩ - - ⟨rfl, hLast⟩
  exact ⟨rfl, hLast⟩

/-- Every length in a class descriptor of the message at the front of a buffer is below `0x8000`. -/
def MessageBelow (env : Env) (byteBuf : ByteBuf) : Prop :=
  ∀ pos, Descriptor env byteBuf pos → LengthsBelow byteBuf pos

/-- The message up to its logger, if the lengths in the descriptor of its event are below. -/
theorem At.readBeforeLocation_of (h : At byteBuf 0 socket)
    (hEvent : ∀ pos, Default.readObjectTag byteBuf = .ok pos → LengthsBelow byteBuf pos) :
    Relates Refuses (EndsAt byteBuf)
      (Default.readBeforeLocation env (byteBuf.bytes.length + 1) byteBuf)
      (Blocking.readBeforeLocation env (byteBuf.bytes.length + 1) socket) := by
  apply h.readObjectTag.bind
  intro pos socket hTag _ hNext
  apply (hNext.readProlog hRoomy (hEvent pos hTag) (Nat.lt_succ_self _) _).bind
  rintro ⟨_, size⟩ ⟨_, socket⟩ - - ⟨-, hProlog⟩
  exact hProlog.readHeader hRoomy

theorem At.readBeforeLocation (h : At byteBuf 0 socket) (hBelow : MessageBelow env byteBuf) :
    Relates Refuses (EndsAt byteBuf)
      (Default.readBeforeLocation env (byteBuf.bytes.length + 1) byteBuf)
      (Blocking.readBeforeLocation env (byteBuf.bytes.length + 1) socket) :=
  h.readBeforeLocation_of hRoomy fun pos hTag => hBelow pos (.event hTag)

/-- The message up to its location, if the lengths in the first two descriptors are below. -/
theorem At.readBeforeMDC_of (h : At byteBuf 0 socket)
    (hEvent : ∀ pos, Default.readObjectTag byteBuf = .ok pos → LengthsBelow byteBuf pos)
    (hLocation : ∀ header pos,
      Default.readBeforeLocation env (byteBuf.bytes.length + 1) byteBuf = .ok (header, pos) →
      Default.readByte byteBuf pos = .ok (tcObject, 1) → LengthsBelow byteBuf (pos + 1)) :
    Relates Refuses (EndsAt byteBuf)
      (Default.readBeforeMDC env (byteBuf.bytes.length + 1) byteBuf)
      (Blocking.readBeforeMDC env (byteBuf.bytes.length + 1) socket) := by
  apply (h.readBeforeLocation_of hRoomy hEvent).bind
  rintro ⟨header, pos⟩ ⟨_, socket⟩ hBefore - ⟨rfl, hNext⟩
  apply (hNext.readLocationInfo hRoomy (hLocation header pos hBefore) (Nat.lt_succ_self _)).bind
  rintro ⟨fullInfo, size⟩ ⟨_, socket⟩ - - ⟨rfl, hLast⟩
  exact ⟨rfl, hLast⟩

theorem At.readBeforeMDC (h : At byteBuf 0 socket) (hBelow : MessageBelow env byteBuf) :
    Relates Refuses (EndsAt byteBuf)
      (Default.readBeforeMDC env (byteBuf.bytes.length + 1) byteBuf)
      (Blocking.readBeforeMDC env (byteBuf.bytes.length + 1) socket) :=
  h.readBeforeMDC_of hRoomy (fun pos hTag => hBelow pos (.event hTag))
    fun _ _ hBefore hByte => hBelow _ (.location hBefore hByte)

/-- A message. -/
theorem At.readMessage (h : At byteBuf 0 socket) (hBelow : MessageBelow env byteBuf) :
    Relates Refuses (EndsAt byteBuf)
      (Default.readMessage env (byteBuf.bytes.length + 1) byteBuf)
      (Blocking.readMessage env (byteBuf.bytes.length + 1) socket) := by
  apply (h.readBeforeMDC hRoomy hBelow).bind
  rintro ⟨before, pos⟩ ⟨_, socket⟩ hBefore - ⟨rfl, hNext⟩
  have hDescriptor : Default.readByte byteBuf pos = .ok (tcObject, 1) →
      LengthsBelow byteBuf (pos + 1) := fun hByte => hBelow _ (.mdc hBefore hByte)
  apply (hNext.readMDC hRoomy hDescriptor (Nat.lt_succ_self _)).bind
  rintro ⟨mdc, size⟩ ⟨_, socket⟩ - - ⟨rfl, hMDC⟩
  dsimp only at hMDC ⊢
  rcases hMDC.readNDC hRoomy with hNDC | ⟨⟨ndc, size, hNDC, hString⟩, hUnread⟩
  · apply hNDC.bind
    rintro ⟨ndc, size⟩ ⟨_, socket⟩ - - ⟨rfl, hNext⟩
    apply (hNext.readLogString hRoomy.joint false).bind
    rintro ⟨message, size⟩ ⟨_, socket⟩ - - ⟨rfl, hNext⟩
    apply (hNext.readLogString hRoomy.joint false).bind
    rintro ⟨threadName, size⟩ ⟨_, socket⟩ - - ⟨rfl, hNext⟩
    apply hNext.readTrailer.bind
    rintro ⟨level, pos⟩ ⟨_, socket⟩ - - ⟨rfl, hLast⟩
    exact ⟨rfl, hLast⟩
  · rw [hNDC, hUnread, ok_bind]
    dsimp only
    rw [hString]
    exact ⟨trivial, rfl⟩

/-- The loader on a socket makes the event of the loader on a buffer with the same bytes, or none
where the other throws one of its two exceptions. -/
theorem createLoggingEvent_agrees (hSocket : socket.flatten = byteBuf.bytes)
    (hBelow : MessageBelow env byteBuf) :
    (∃ event n rest, 0 < n ∧ n ≤ byteBuf.bytes.length ∧
      Default.createLoggingEvent env byteBuf = (.ok event, byteBuf.drop n) ∧
      createLoggingEvent env socket = .ok (some (event, rest)) ∧
      rest.flatten = byteBuf.bytes.drop n) ∨
    ∃ e : Fail, e.documented ∧ Default.createLoggingEvent env byteBuf = (.error e, byteBuf) ∧
      createLoggingEvent env socket = .ok none := by
  have hAt : At byteBuf 0 socket := ⟨Nat.zero_le _, hSocket⟩
  rw [createLoggingEvent, hSocket]
  rcases (hAt.readMessage hRoomy hBelow).cases with
    ⟨⟨carried, pos⟩, ⟨_, rest⟩, hRead, hRead', rfl, hRest⟩ | ⟨e, e', hRead, hRead', hSmall, rfl⟩
  · rcases (readMessage_reads _).value hRead with ⟨hPos, hLe, event, hEvent⟩
    refine .inl ⟨event, pos.toNat, rest, hPos, hLe, ?_, ?_, hRest.bytes⟩
    · rw [Default.createLoggingEvent, createLoggingEventFuel, load_ok hRead hLe, hEvent]
    · simp only [hRead', hEvent]
  · refine .inr ⟨e, hSmall, ?_, ?_⟩
    · rw [Default.createLoggingEvent, createLoggingEventFuel, load_error hRead]
    · rw [hRead']

end

end Default.Blocking

namespace SocketServer

open Default (Comes Cursor Descriptor Reached)
open Default.Blocking

variable {host : Host}

/-- Every length in a class descriptor of the messages of a stream is below `0x8000`. -/
def StreamBelow (env : Env) (stream : ByteBuf) : Prop :=
  ∀ rest, Reached env stream rest → MessageBelow env rest

/-- How a driver ends after a call of `forceLog`. -/
def endedBy : Except Fail Bool → Except Fail Unit
  | .ok _ => .ok ()
  | .error e => .error e

/-- How it ends where the decoder does. -/
def endedAt : Rest (Option Protocol) UInt8 (Except Fail Bool) → Except Fail Unit
  | .inl _ => .ok ()
  | .inr verdict => endedBy verdict

theorem endedAt_rest (call : Call) : endedAt call.rest = endedBy call.verdict := by
  unfold Call.rest
  split
  next hTrue => rw [hTrue]; rfl
  next => rfl

/-- The loop of blocking reads runs the steps of the decoder and ends where that waits or stops, which
it does without an error but where a logger is never found. -/
theorem readLoop_drains (hRoomy : Roomy host.env) {stream : ByteBuf} {socket : Segments}
    (hSocket : socket.flatten = stream.bytes) (hBelow : StreamBelow host.env stream) {fuel : Nat}
    (hFuel : stream.bytes.length < fuel) :
    ∃ rest, Drains (forceLogStep host) (some .default) stream.bytes
        (readLoop host fuel socket).events rest ∧
      (∀ e, rest = .inr (.error e) → e = .hang ∧ ∃ name, host.effectiveLevel name = none) ∧
      (readLoop host fuel socket).ended = endedAt rest := by
  induction fuel generalizing stream socket with
  | zero => cases hFuel
  | succ fuel ih =>
    have hStep := forceLogStep_some host .default stream
    dsimp only [Protocol.createLoggingEvent] at hStep
    rcases createLoggingEvent_agrees hRoomy hSocket (hBelow stream .refl) with
      ⟨event, n, socket', hPos, hLe, hCall, hCall', hRest⟩ | ⟨e, hSmall, hCall, hCall'⟩
    · have hNe : stream.bytes ≠ [] := fun hNil => by
        rw [hNil, List.length_nil] at hLe
        omega
      have hTaken : stream.bytes.length - (stream.drop n).bytes.length = n := by
        rw [drop_bytes, List.length_drop]
        omega
      rw [if_neg hNe, hCall] at hStep
      dsimp only at hStep
      rw [hTaken] at hStep
      have hShorter : (stream.drop n).bytes.length < fuel := by
        rw [drop_bytes, List.length_drop]
        omega
      have hNext : socket'.flatten = (stream.drop n).bytes := hRest
      rcases ih hNext (fun rest hReached => hBelow rest (.message hNe hCall hReached)) hShorter with
        ⟨rest, hDrains, hError, hEnded⟩
      rcases callAppenders_cases host event with ⟨level, -, hLogged⟩ | ⟨hNever, hHang⟩
      · rw [hLogged] at hStep
        refine ⟨rest, ?_, hError, ?_⟩
        · simp only [readLoop, hCall', hLogged]
          exact .take hStep hDrains
        · simp only [readLoop, hCall', hLogged]
          exact hEnded
      · rw [hHang] at hStep
        refine ⟨.inr (.error .hang), ?_, ?_, ?_⟩
        · simp only [readLoop, hCall', hHang]
          exact .stop hStep
        · intro e hStop
          cases hStop
          exact ⟨rfl, event.logger, hNever⟩
        · simp only [readLoop, hCall', hHang]
          rfl
    · simp only [readLoop, hCall']
      by_cases hNil : stream.bytes = []
      · rw [if_pos hNil] at hStep
        exact ⟨_, .wait hStep, by simp, rfl⟩
      · rw [if_neg hNil, hCall] at hStep
        refine ⟨_, drains_halt hStep, ?_, ?_⟩
        · cases e with
          | small what => simp [Call.rest, Fail.caughtInLoop]
          | invalid what => simp [Call.rest, Fail.caughtInLoop]
          | _ => exact hSmall.elim
        · cases e with
          | small what => rfl
          | invalid what => rfl
          | _ => exact hSmall.elim

/-- The loop around a loader keeps the loader, and no more than it was given. -/
theorem decode_default (host : Host) (fuel : Nat) (byteBuf : ByteBuf) :
    let client := (decode host .default fuel byteBuf).client
    client.loggingFunc = some .default ∧
      client.byteBuf.bytes.length ≤ byteBuf.bytes.length := by
  induction fuel generalizing byteBuf with
  | zero => exact ⟨rfl, Nat.le_refl _⟩
  | succ fuel ih =>
    rw [decode]
    split
    · exact ⟨rfl, Nat.le_refl _⟩
    · have hSound := Default.createLoggingEvent_sound host.env
      rcases hSound.takes byteBuf with ⟨e, hCall⟩ | ⟨event, n, -, -, hCall⟩
      · rw [Protocol.createLoggingEvent, hCall]
        exact ⟨rfl, Nat.le_refl _⟩
      · rw [Protocol.createLoggingEvent, hCall]
        have hRest := (ih (byteBuf.drop n)).2
        rw [drop_bytes, List.length_drop] at hRest
        dsimp only
        cases callAppenders host event with
        | ok logged => exact ⟨(ih (byteBuf.drop n)).1, hRest.trans (Nat.sub_le _ _)⟩
        | error e =>
          refine ⟨rfl, ?_⟩
          rw [drop_bytes, List.length_drop]
          exact Nat.sub_le _ _

/-- A chunk that fits is given to the loop around the loader, and the loader is kept. -/
theorem forceLog_chunk (host : Host) (byteBuf : ByteBuf) (bytes : List UInt8)
    (hBytes : (byteBuf.bytes ++ bytes).length ≤ maxSize) :
    ∃ verdict left events, byteBuf.insert bytes = .ok ⟨byteBuf.bytes ++ bytes, hBytes⟩ ∧
      decode host .default ((byteBuf.bytes ++ bytes).length + 1) ⟨byteBuf.bytes ++ bytes, hBytes⟩ =
        ⟨verdict, ⟨some .default, left⟩, events⟩ ∧
      (⟨some .default, byteBuf⟩ : Client).forceLog host bytes =
        ⟨verdict, ⟨some .default, left⟩, events⟩ ∧
      left.bytes.length ≤ (byteBuf.bytes ++ bytes).length := by
  have hInsert : byteBuf.insert bytes = .ok ⟨byteBuf.bytes ++ bytes, hBytes⟩ := dif_pos hBytes
  rcases hDecode : decode host .default ((byteBuf.bytes ++ bytes).length + 1)
    ⟨byteBuf.bytes ++ bytes, hBytes⟩ with ⟨verdict, ⟨loggingFunc, left⟩, events⟩
  have hClient := decode_default host ((byteBuf.bytes ++ bytes).length + 1)
    ⟨byteBuf.bytes ++ bytes, hBytes⟩
  rw [hDecode] at hClient
  obtain ⟨rfl, hLeft⟩ := hClient
  refine ⟨verdict, left, events, hInsert, rfl, ?_, hLeft⟩
  simp only [Client.forceLog, hInsert, hDecode]

/-- The loop of `recv` is a client that has chosen its loader, whatever the segments are. -/
theorem recvLoop_eq {fuel : Nat} {byteBuf : ByteBuf} {socket : Segments}
    (hFuel : socket.flatten.length < fuel)
    (hSize : (byteBuf.bytes ++ socket.flatten).length ≤ maxSize) :
    ∃ chunks : List (List UInt8), chunks.flatten = socket.flatten ∧
      let call := (⟨some .default, byteBuf⟩ : Client).forceLogAll host chunks
      recvLoop host fuel byteBuf socket = ⟨endedBy call.verdict, call.events⟩ := by
  induction fuel generalizing byteBuf socket with
  | zero => cases hFuel
  | succ fuel ih =>
    cases hRecv : recv BUF_LEN socket with
    | none =>
      refine ⟨[], ?_, ?_⟩
      · rw [recv_eq_none hRecv]
        rfl
      · simp only [recvLoop, hRecv]
        rfl
    | some r =>
      rcases r with ⟨bytes, rest⟩
      rcases recv_eq_some hRecv (by decide) with ⟨hPos, -, hFlat⟩
      rw [hFlat, ← List.append_assoc, List.length_append] at hSize
      have hBytes : (byteBuf.bytes ++ bytes).length ≤ maxSize := by omega
      rcases forceLog_chunk host byteBuf bytes hBytes with
        ⟨verdict, left, events, hInsert, hDecode, hCall, hLeft⟩
      by_cases hTrue : verdict = .ok true
      · subst hTrue
        have hRestFuel : rest.flatten.length < fuel := by
          rw [hFlat, List.length_append] at hFuel
          omega
        rcases ih hRestFuel (show (left.bytes ++ rest.flatten).length ≤ maxSize by
          rw [List.length_append]
          omega) with ⟨chunks, hChunks, hLoop⟩
        refine ⟨bytes :: chunks, ?_, ?_⟩
        · rw [List.flatten_cons, hChunks, hFlat]
        · simp only [recvLoop, hRecv, hInsert, hDecode, Client.forceLogAll, hCall, hLoop]
          rfl
      · refine ⟨[bytes, rest.flatten], ?_, ?_⟩
        · rw [List.flatten_cons, List.flatten_cons, List.flatten_nil, List.append_nil, hFlat]
        · simp only [recvLoop, hRecv, hInsert, hDecode, Client.forceLogAll, hCall]
          rcases verdict with e | _ | _
          · rfl
          · rfl
          · exact absurd rfl hTrue

theorem readStart_recvBuf (env : Env) :
    Default.readStart env (recvBuf Default.start) = .ok 4 := by
  have hBytes : (recvBuf Default.start).bytes.length = BUF_LEN := by
    rw [recvBuf, List.length_take, List.length_append, List.length_replicate]
    exact Nat.min_eq_left (Nat.le_add_left _ _)
  have hFetch : (recvBuf Default.start).fetch 0 4 = .ok Default.start := by
    rw [fetch_ok (by rw [hBytes]; decide)]
    rfl
  rw [Default.readStart, readFlag, hFetch, ok_bind, beq_self_eq_true, Env.assert_true]
  rfl

section start

variable {socket : Segments} {bytes : List UInt8} (hSocket : socket.flatten = Default.start ++ bytes)
include hSocket

theorem read_start : ∃ rest, read socket 4 = .ok (Default.start, rest) ∧ rest.flatten = bytes := by
  have hFour : 4 ≤ socket.flatten.length := by
    rw [hSocket, List.length_append]
    exact Nat.le_add_right 4 _
  rcases read_ok hFour with ⟨rest, hRead, hRest⟩
  rw [hSocket] at hRead hRest
  exact ⟨rest, hRead, hRest⟩

/-- Behind the start flag, the loop of `recv` begins with an empty buffer. -/
theorem runClient_eq (host : Host) : ∃ rest, rest.flatten = bytes ∧
    runClient host socket = recvLoop host (rest.flatten.length + 1) .empty rest := by
  rcases read_start hSocket with ⟨rest, hRead, hRest⟩
  refine ⟨rest, hRest, ?_⟩
  simp only [runClient, hRead, readStart_recvBuf]

theorem runClientBlocking_eq (hRoomy : Roomy host.env) : ∃ rest, rest.flatten = bytes ∧
    runClientBlocking host socket = readLoop host (rest.flatten.length + 1) rest := by
  rcases read_start hSocket with ⟨rest, hRead, hRest⟩
  have hStart : Default.Blocking.readStart host.env socket = .ok rest := by
    rw [Default.Blocking.readStart, Default.Blocking.readBytes, hRoomy.alloc_eq (by decide)]
    show (read socket 4 >>= _) = _
    rw [hRead, ok_bind]
    dsimp only
    rw [beq_self_eq_true, hRoomy.assert_eq]
    rfl
  refine ⟨rest, hRest, ?_⟩
  simp only [runClientBlocking, hStart]

end start

section unpack

variable (host : Host) (unpack : List UInt8 → Unpacked)

theorem decode_unpack (fuel : Nat) (byteBuf : ByteBuf) :
    decode { host with unpack } .default fuel byteBuf = decode host .default fuel byteBuf := by
  induction fuel generalizing byteBuf with
  | zero => rfl
  | succ fuel ih =>
    rw [decode, decode]
    simp only [ih]
    rfl

theorem readLoop_unpack (fuel : Nat) (socket : Segments) :
    readLoop { host with unpack } fuel socket = readLoop host fuel socket := by
  induction fuel generalizing socket with
  | zero => rfl
  | succ fuel ih =>
    rw [readLoop, readLoop]
    simp only [ih]
    rfl

/-- The client has chosen the Default protocol, or will choose it. -/
def ExpectsDefault (client : Client) (bytes : List UInt8) : Prop :=
  client.loggingFunc = some .default ∨
    client.loggingFunc = none ∧ Default.start <+: client.byteBuf.bytes ++ bytes

theorem createLoggingEventFunc_short {byteBuf : ByteBuf} (h : byteBuf.bytes.length < 4) :
    createLoggingEventFunc host byteBuf = (.error (.small .small), byteBuf) := by
  have hFetch : byteBuf.fetch 0 4 = .error (.small .small) :=
    fetch_small (by simpa using h) (by decide)
  have hStart : Protocol.default.readStart host byteBuf = .error (.small .small) := by
    rw [Protocol.readStart, Default.readStart, readFlag, hFetch]
    rfl
  simp only [createLoggingEventFunc, sloggingEventFuncs, tryLoggingEventFuncs, hStart]

/-- A client of the Default protocol does not read objects. -/
theorem forceLog_unpack {client : Client} {chunk bytes : List UInt8}
    (h : ExpectsDefault client (chunk ++ bytes)) :
    client.forceLog { host with unpack } chunk = client.forceLog host chunk ∧
      ((client.forceLog host chunk).verdict = .ok true →
        ExpectsDefault (client.forceLog host chunk).client bytes) := by
  rcases client with ⟨loggingFunc, byteBuf⟩
  by_cases hSize : (byteBuf.bytes ++ chunk).length ≤ maxSize
  · have hInsert : byteBuf.insert chunk = .ok ⟨byteBuf.bytes ++ chunk, hSize⟩ := dif_pos hSize
    rcases h with hFunc | ⟨hFunc, hStart⟩
    · dsimp only at hFunc
      subst hFunc
      simp only [Client.forceLog, hInsert, decode_unpack, true_and]
      exact fun _ => .inl (decode_default host _ _).1
    · dsimp only at hFunc hStart
      subst hFunc
      rw [← List.append_assoc] at hStart
      have hSame : createLoggingEventFunc { host with unpack } = createLoggingEventFunc host := rfl
      by_cases hFour : 4 ≤ (byteBuf.bytes ++ chunk).length
      · rcases List.prefix_of_prefix_length_le hStart (List.prefix_append _ bytes) hFour with
          ⟨tail, hTail⟩
        let joined : ByteBuf := ⟨byteBuf.bytes ++ chunk, hSize⟩
        rcases createLoggingEventFunc_default host (show joined.bytes = _ from hTail.symm) with
          ⟨rest, -, hChoice⟩
        simp only [Client.forceLog, hInsert, hSame, hChoice, decode_unpack, joined, true_and]
        exact fun _ => .inl (decode_default host _ _).1
      · have hChoice := createLoggingEventFunc_short host
          (show (⟨byteBuf.bytes ++ chunk, hSize⟩ : ByteBuf).bytes.length < 4 by
            exact Nat.lt_of_not_le hFour)
        simp only [Client.forceLog, hInsert, hSame, hChoice, true_and]
        exact fun _ => .inr ⟨rfl, hStart⟩
  · have hInsert : byteBuf.insert chunk = .error .badAlloc := dif_neg hSize
    simp [Client.forceLog, hInsert]

theorem forceLogAll_unpack {client : Client} {chunks : List (List UInt8)}
    (h : ExpectsDefault client chunks.flatten) :
    client.forceLogAll { host with unpack } chunks = client.forceLogAll host chunks := by
  induction chunks generalizing client with
  | nil => rfl
  | cons chunk chunks ih =>
    rcases forceLog_unpack host unpack h with ⟨hCall, hNext⟩
    rw [Client.forceLogAll, Client.forceLogAll, hCall]
    dsimp only
    split
    next hTrue => rw [ih (hNext hTrue)]
    next => rfl

end unpack

/-- The events of a stream that is read once, given to a client in chunks. -/
theorem forceLogAll_reads {events : List LoggingEvent}
    {rest : Rest (Option Protocol) UInt8 (Except Fail Bool)}
    {loggingFunc : Option Protocol} {chunks : List (List UInt8)}
    (hDrains : Drains (forceLogStep { host with unpack := unpackByte }) loggingFunc chunks.flatten
      events rest) (hExpects : ExpectsDefault ⟨loggingFunc, .empty⟩ chunks.flatten)
    (hSize : chunks.flatten.length ≤ maxSize) :
    let call := (⟨loggingFunc, .empty⟩ : Client).forceLogAll host chunks
    call.events = events ∧ call.rest = rest := by
  intro call
  have hUnpack : ({ host with unpack := unpackByte } : Host).UnpackLaws :=
    ⟨byteHost_laws.repeats, byteHost_laws.takes⟩
  have hCall := forceLogAll_drains hUnpack loggingFunc chunks hSize
  rw [forceLogAll_unpack host unpackByte hExpects] at hCall
  exact hDrains.det hCall

/-- The three drivers give the same events to appenders and end alike, however a stream of the Default
protocol comes to each. None of them fails, unless a logger is never found. -/
theorem drivers_agree (hRoomy : Roomy host.env) {stream : ByteBuf}
    (hSize : (Default.start ++ stream.bytes).length ≤ maxSize)
    (hBelow : StreamBelow host.env stream) {chunks socket socket' : List (List UInt8)}
    (hChunks : chunks.flatten = Default.start ++ stream.bytes)
    (hSocket : socket.flatten = Default.start ++ stream.bytes)
    (hSocket' : socket'.flatten = Default.start ++ stream.bytes) :
    let call := Client.new.forceLogAll host chunks
    ((∃ goesOn, call.verdict = .ok goesOn) ∨
        call.verdict = .error .hang ∧ ∃ name, host.effectiveLevel name = none) ∧
      runClient host socket = ⟨endedBy call.verdict, call.events⟩ ∧
      runClientBlocking host socket' = ⟨endedBy call.verdict, call.events⟩ := by
  intro call
  rcases runClient_eq hSocket host with ⟨received, hReceived, hClient⟩
  rcases runClientBlocking_eq hSocket' hRoomy with ⟨unread, hUnread, hBlocking⟩
  have hStream : stream.bytes.length ≤ maxSize := stream.size_le
  -- Reading once is a run of the decoder, behind the start flag and so from it on.
  rcases @readLoop_drains { host with unpack := unpackByte } hRoomy stream unread hUnread hBelow
    (unread.flatten.length + 1) (by rw [hUnread]; exact Nat.lt_succ_self _) with
    ⟨rest, hDrains, hError, hEnded⟩
  rw [readLoop_unpack] at hDrains hEnded
  have hChoose : forceLogStep { host with unpack := unpackByte } none
      (Default.start ++ stream.bytes) = .take 4 none (some .default) := by
    let byteBuf : ByteBuf := ⟨Default.start ++ stream.bytes, hSize⟩
    rcases createLoggingEventFunc_default { host with unpack := unpackByte }
      (show byteBuf.bytes = Default.start ++ stream.bytes from rfl) with ⟨_, -, hChoice⟩
    dsimp only [byteBuf] at hChoice
    simp only [forceLogStep, dif_pos hSize, hChoice]
  have hWhole := Drains.take hChoose hDrains
  have hNew : call.events = (readLoop host (unread.flatten.length + 1) unread).events ∧
      call.rest = rest := by
    apply forceLogAll_reads (hChunks ▸ hWhole) _ (hChunks ▸ hSize)
    rw [hChunks]
    exact .inr ⟨rfl, List.prefix_append _ _⟩
  have hNewEnd : endedAt rest = endedBy call.verdict := by rw [← hNew.2, endedAt_rest]
  rcases @recvLoop_eq host _ .empty received (Nat.lt_succ_self _)
    (by rw [hReceived]; exact hStream) with ⟨parts, hParts, hLoop⟩
  rw [hReceived] at hParts
  have hChosen := forceLogAll_reads (hParts ▸ hDrains) (.inl rfl) (hParts ▸ hStream)
  refine ⟨?_, ?_, ?_⟩
  · cases hVerdict : call.verdict with
    | ok goesOn => exact .inl ⟨goesOn, rfl⟩
    | error e =>
      have hRest := hNew.2
      rw [rest_of_ne_true (by simp [hVerdict]), hVerdict] at hRest
      obtain ⟨rfl, hNever⟩ := hError e hRest.symm
      exact .inr ⟨rfl, hNever⟩
  · rw [hClient, hLoop, hChosen.1, ← hNew.1, ← hNewEnd, ← endedAt_rest, hChosen.2]
  · rw [hBlocking, hNew.1, ← hNewEnd, ← hEnded]

/-- A message with a class descriptor, of a class whose name has one byte and which has no fields. -/
def namedMessage : ByteBuf where
  bytes := [0x73, 0x72, 0x00, 0x01, 0x45, 0x00, 0x00, 0x00, 0x00, 0x00, 0x00, 0x00, 0x00, 0x02, 0x00,
    0x00, 0x78, 0x70] ++ sampleStream.drop 10
  size_le := by decide

theorem namedMessage_comes {cursor : Cursor} (h : Comes namedMessage 1 cursor) :
    cursor = .count 13 ∨ cursor = .field 0 15 ∨ cursor = .tag 15 := by
  induction h with
  | count _ hShort =>
    have hLen : Default.readShort namedMessage (1 + 1) = .ok (1, 2) := by decide
    cases hLen.symm.trans hShort
    exact .inl rfl
  | fields _ hShort ih =>
    have hNone : Default.readShort namedMessage (1 + 13) = .ok (0, 2) := by decide
    obtain rfl : _ = (13 : UInt64) := by simpa using ih
    cases hNone.symm.trans hShort
    exact .inr (.inl rfl)
  | field _ _ ih => simp at ih
  | tags _ ih =>
    obtain rfl : _ = (15 : UInt64) := by simpa using ih
    exact .inr (.inr rfl)
  | tag _ hNext ih =>
    have hLast : Default.readByte namedMessage (1 + 15) = .ok (0x78, 1) := by decide
    obtain rfl : _ = (15 : UInt64) := by simpa using ih
    cases hNext with
    | reference hByte _ => cases hLast.symm.trans hByte
    | text hByte hText _ =>
      cases hLast.symm.trans hByte
      exact absurd hText (by decide)

theorem namedMessage_lengths : LengthsBelow namedMessage 1 := by
  intro dataLen h
  cases h with
  | name _ hShort =>
    have hLen : Default.readShort namedMessage (1 + 1) = .ok (1, 2) := by decide
    cases hLen.symm.trans hShort
    decide
  | field hComes _ => simpa using namedMessage_comes hComes
  | text hComes hByte hText _ =>
    have hLast : Default.readByte namedMessage (1 + 15) = .ok (0x78, 1) := by decide
    obtain rfl : _ = (15 : UInt64) := by simpa using namedMessage_comes hComes
    cases hLast.symm.trans hByte
    exact absurd hText (by decide)

theorem namedMessage_descriptor {pos : UInt64}
    (h : Descriptor .release namedMessage pos) : pos = 1 := by
  cases h with
  | event hTag =>
    have hOne : Default.readObjectTag namedMessage = .ok 1 := by decide
    exact (Except.ok.inj (hOne.symm.trans hTag)).symm
  | location hBefore hByte =>
    have hHeader : Default.readBeforeLocation .release (namedMessage.bytes.length + 1)
        namedMessage = .ok ((1000, [0x6C]), 32) := by decide
    have hNull : Default.readByte namedMessage 32 = .ok (0x70, 1) := by decide
    cases hHeader.symm.trans hBefore
    cases hNull.symm.trans hByte
  | mdc hBefore hByte =>
    have hInfo : Default.readBeforeMDC .release (namedMessage.bytes.length + 1)
        namedMessage = .ok (((1000, [0x6C]), []), 33) := by decide
    have hNull : Default.readByte namedMessage 33 = .ok (0x70, 1) := by decide
    cases hInfo.symm.trans hBefore
    cases hNull.symm.trans hByte

theorem namedMessage_below : StreamBelow .release namedMessage := by
  intro rest hReached pos hDescriptor
  cases hReached with
  | refl =>
    rw [namedMessage_descriptor hDescriptor]
    exact namedMessage_lengths
  | message _ hCall hRest =>
    have hAll : (Default.createLoggingEvent .release namedMessage).2.bytes = [] := by decide
    rw [hCall] at hAll
    rw [hRest.eq_of_nil hAll]
    intro dataLen hLength
    have hPos := hLength.length_pos
    rw [hAll] at hPos
    cases hPos

theorem drivers_agree_namedMessage :
    let stream := Default.start ++ namedMessage.bytes
    let call := Client.new.forceLogAll byteHost [stream]
    call.events.length = 1 ∧ (∃ goesOn, call.verdict = .ok goesOn) ∧
      runClient byteHost (stream.map ([·])) = ⟨.ok (), call.events⟩ ∧
      runClientBlocking byteHost (stream.map ([·])) = ⟨.ok (), call.events⟩ := by
  intro stream call
  have hVerdict : call.verdict = .ok true := by decide
  obtain ⟨-, hClient, hBlocking⟩ := @drivers_agree byteHost ⟨rfl, by decide⟩ namedMessage
    (by decide) namedMessage_below [stream] (stream.map ([·])) (stream.map ([·]))
    List.flatten_singleton (by decide) (by decide)
  rw [show (Client.new.forceLogAll byteHost [stream]).verdict = _ from hVerdict]
    at hClient hBlocking
  exact ⟨by decide, ⟨true, hVerdict⟩, hClient, hBlocking⟩

end SocketServer

end LogSocket
