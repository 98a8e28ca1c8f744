import LogSocket.Lib.Transducer
import LogSocket.Soundness

/-! How a stream is cut into chunks does not matter to `Client::forceLog`: the choice of a loader and
the loaders themselves are the steps of a stable decoder. -/

namespace LogSocket

open Lib ByteBuf

variable (host : Host)

/-- A failed check of the start flag is the same with more bytes, and a flag takes four bytes. -/
theorem readStart_settles {byteBuf byteBuf' : ByteBuf} (h : byteBuf.bytes <+: byteBuf'.bytes)
    (protocol : Protocol) :
    Settles Fail.more (protocol.readStart host byteBuf) (protocol.readStart host byteBuf') := by
  cases protocol <;> exact readFlag_settles h host.env _

theorem readStart_reads (byteBuf : ByteBuf) (protocol : Protocol) :
    Ensures (fun _ => True) (fun n => n = 4 ∧ 4 ≤ byteBuf.bytes.length)
      (protocol.readStart host byteBuf) := by
  have key : ∀ start, Ensures (fun _ => True) (fun n => n = 4 ∧ 4 ≤ byteBuf.bytes.length)
      (readFlag start host.env byteBuf) := by
    intro start
    refine (Ensures.of_value fun _ h => (fetch_eq_ok.mp h).1).bind fun bytes hIn => ?_
    refine (Ensures.trivial _).bind fun _ _ => ?_
    refine (Ensures.trivial _).bind fun _ _ => ?_
    exact ⟨rfl, by simpa using hIn⟩
  cases protocol <;> exact key _

/-- The loader is chosen by the first four bytes, if there are as many. -/
theorem tryLoggingEventFuncs_settles {byteBuf byteBuf' : ByteBuf}
    (h : byteBuf.bytes <+: byteBuf'.bytes) (protocols : List Protocol) :
    (∃ e, e.more ∧ tryLoggingEventFuncs host protocols byteBuf = (.error e, byteBuf)) ∨
    (∃ protocol, 4 ≤ byteBuf.bytes.length ∧
      tryLoggingEventFuncs host protocols byteBuf = (.ok (some protocol), byteBuf.drop 4) ∧
      tryLoggingEventFuncs host protocols byteBuf' = (.ok (some protocol), byteBuf'.drop 4)) ∨
    (∃ r, (∀ e, r = .error e → ¬e.more) ∧ (∀ protocol, r ≠ .ok (some protocol)) ∧
      tryLoggingEventFuncs host protocols byteBuf = (r, byteBuf) ∧
      tryLoggingEventFuncs host protocols byteBuf' = (r, byteBuf')) := by
  induction protocols with
  | nil => exact .inr (.inr ⟨.ok none, by simp, by simp, rfl, rfl⟩)
  | cons protocol protocols ih =>
    have hSettles := readStart_settles host h protocol
    cases hStart : protocol.readStart host byteBuf with
    | ok readBytes =>
      obtain ⟨rfl, hIn⟩ := (readStart_reads host byteBuf protocol).value hStart
      refine .inr (.inl ⟨protocol, hIn, ?_, ?_⟩)
      · simp only [tryLoggingEventFuncs, hStart, erase_four hIn]
      · simp only [tryLoggingEventFuncs, hSettles.value hStart, erase_four (hIn.trans h.length_le)]
    | error e =>
      by_cases hMore : e.more
      · refine .inl ⟨e, hMore, ?_⟩
        cases e with
        | small what => simp only [tryLoggingEventFuncs, hStart]
        | _ => cases hMore
      · have hStart' := hSettles.failure hStart hMore
        cases e with
        | invalid what =>
          simp only [tryLoggingEventFuncs, hStart, hStart']
          exact ih
        | _ =>
          refine .inr (.inr ⟨.error _, by rintro _ ⟨⟩; exact hMore, by simp, ?_, ?_⟩)
          · simp only [tryLoggingEventFuncs, hStart]
          · simp only [tryLoggingEventFuncs, hStart']

/-- What is left of a client when a call returned: it waits for more, or the stream is over. -/
def Call.rest (call : Call) : Rest (Option Protocol) UInt8 (Except Fail Bool) :=
  match call.verdict with
  | .ok true => .inl (call.client.loggingFunc, call.client.byteBuf.bytes)
  | verdict => .inr verdict

/-- A step that ends with a verdict. -/
def halt : Except Fail Bool → Step (Option Protocol) LoggingEvent (Except Fail Bool)
  | .ok true => .more
  | verdict => .stop verdict

/-- What `forceLog` makes of the front of a stream: a start flag, or a message. -/
def forceLogStep (host : Host) (loggingFunc : Option Protocol) (bytes : List UInt8) :
    Step (Option Protocol) LoggingEvent (Except Fail Bool) :=
  if h : bytes.length ≤ maxSize then
    match loggingFunc with
    | none =>
      match (createLoggingEventFunc host ⟨bytes, h⟩).1 with
      | .ok (some protocol) => .take 4 none (some protocol)
      | .ok none => halt (.ok false)
      | .error e => halt e.caughtAtStart
    | some protocol =>
      if bytes = [] then .more
      else
        match protocol.createLoggingEvent host ⟨bytes, h⟩ with
        | (.ok event, rest) =>
          match callAppenders host event with
          | .ok logged => .take (bytes.length - rest.bytes.length) logged (some protocol)
          | .error e => halt e.caughtInLoop
        | (.error e, _) => halt e.caughtInLoop
  else halt (.error .badAlloc)

/-- At a message of the given protocol. -/
theorem forceLogStep_some (host : Host) (protocol : Protocol) (byteBuf : ByteBuf) :
    forceLogStep host (some protocol) byteBuf.bytes =
      if byteBuf.bytes = [] then .more
      else
        match protocol.createLoggingEvent host byteBuf with
        | (.ok event, rest) =>
          match callAppenders host event with
          | .ok logged => .take (byteBuf.bytes.length - rest.bytes.length) logged (some protocol)
          | .error e => halt e.caughtInLoop
        | (.error e, _) => halt e.caughtInLoop := dif_pos byteBuf.size_le

/-- At the start flag. -/
theorem forceLogStep_none (host : Host) (byteBuf : ByteBuf) :
    forceLogStep host none byteBuf.bytes =
      match (createLoggingEventFunc host byteBuf).1 with
      | .ok (some protocol) => .take 4 none (some protocol)
      | .ok none => halt (.ok false)
      | .error e => halt e.caughtAtStart := dif_pos byteBuf.size_le

theorem halt_stable {verdict : Except Fail Bool} (h : halt verdict ≠ .more) :
    verdict ≠ .ok true := by
  rintro rfl
  exact h rfl

@[simp] theorem caughtAtStart_eq_true {e : Fail} : e.caughtAtStart = .ok true ↔ e.more := by
  cases e <;> simp [Fail.caughtAtStart, Fail.more]

@[simp] theorem caughtInLoop_eq_true {e : Fail} : e.caughtInLoop = .ok true ↔ e.more := by
  cases e <;> simp [Fail.caughtInLoop, Fail.more]

theorem halt_ne_take {verdict : Except Fail Bool} {n : Nat} {out : Option LoggingEvent}
    {loggingFunc : Option Protocol} : halt verdict ≠ .take n out loggingFunc := by
  unfold halt
  split <;> simp

/-- Nothing is done about an empty buffer. -/
theorem forceLogStep_nil (loggingFunc : Option Protocol) :
    forceLogStep host loggingFunc [] = .more := by
  have hSize : ([] : List UInt8).length ≤ maxSize := Nat.zero_le _
  unfold forceLogStep
  rw [dif_pos hSize]
  cases loggingFunc <;> rfl

variable {host}

theorem forceLogStep_stable (hUnpack : host.UnpackLaws) : Stable maxSize (forceLogStep host) := by
  intro loggingFunc x y hxy hMore
  have hx : x.length ≤ maxSize := by
    rw [List.length_append] at hxy
    omega
  have hPrefix : (⟨x, hx⟩ : ByteBuf).bytes <+: (⟨x ++ y, hxy⟩ : ByteBuf).bytes :=
    List.prefix_append x y
  unfold forceLogStep at hMore ⊢
  rw [dif_pos hx] at hMore ⊢
  rw [dif_pos hxy]
  cases loggingFunc with
  | none =>
    dsimp only [createLoggingEventFunc] at hMore ⊢
    obtain ⟨e, he, hTry⟩ | ⟨protocol, -, hTry, hTry'⟩ | ⟨r, -, -, hTry, hTry'⟩ :=
      tryLoggingEventFuncs_settles host hPrefix sloggingEventFuncs
    · rw [hTry] at hMore
      exact absurd (caughtAtStart_eq_true.mpr he) (halt_stable hMore)
    · rw [hTry, hTry']
    · rw [hTry, hTry']
  | some protocol =>
    dsimp only at hMore ⊢
    split at hMore
    · exact absurd rfl hMore
    next hEmpty =>
      have hEmpty' : x ++ y ≠ [] := fun h => hEmpty (List.append_eq_nil_iff.mp h).1
      rw [if_neg hEmpty, if_neg hEmpty']
      have hSound := Protocol.createLoggingEvent_sound hUnpack protocol
      obtain ⟨e, hf⟩ | ⟨event, n, -, hn, hf⟩ := hSound.takes ⟨x, hx⟩
      · rw [hf] at hMore ⊢
        have he : ¬e.more := fun he => halt_stable hMore (caughtInLoop_eq_true.mpr he)
        rw [hSound.fails hPrefix he hf]
      · have hTaken : (x ++ y).length - ((x ++ y).length - n) = x.length - (x.length - n) := by
          simp only [List.length_append] at hn ⊢
          omega
        rw [hf, hSound.repeats hPrefix hn hf]
        simp only [drop_bytes, List.length_drop, hTaken]

theorem forceLogStep_productive (hUnpack : host.UnpackLaws) :
    Productive (forceLogStep host) := by
  intro loggingFunc x n out loggingFunc' hStep
  unfold forceLogStep at hStep
  split at hStep
  next hx =>
    cases loggingFunc with
    | none =>
      dsimp only [createLoggingEventFunc] at hStep
      obtain ⟨e, -, hTry⟩ | ⟨protocol, hIn, hTry, -⟩ | ⟨r, -, hr, hTry, -⟩ :=
        tryLoggingEventFuncs_settles host (List.prefix_refl (⟨x, hx⟩ : ByteBuf).bytes)
          sloggingEventFuncs
      · rw [hTry] at hStep
        exact absurd hStep halt_ne_take
      · rw [hTry] at hStep
        cases hStep
        exact ⟨by decide, hIn⟩
      · rw [hTry] at hStep
        cases r with
        | error e => exact absurd hStep halt_ne_take
        | ok r =>
          cases r with
          | none => exact absurd hStep halt_ne_take
          | some protocol => exact absurd rfl (hr protocol)
    | some protocol =>
      dsimp only at hStep
      split at hStep
      · cases hStep
      · obtain ⟨e, hf⟩ | ⟨event, m, hPos, hm, hf⟩ :=
          (Protocol.createLoggingEvent_sound hUnpack protocol).takes ⟨x, hx⟩
        · rw [hf] at hStep
          exact absurd hStep halt_ne_take
        · rw [hf] at hStep
          dsimp only at hStep
          split at hStep
          · cases hStep
            simp only [drop_bytes, List.length_drop] at hm ⊢
            omega
          · exact absurd hStep halt_ne_take
  next => exact absurd hStep halt_ne_take

theorem drains_halt {loggingFunc : Option Protocol} {byteBuf : ByteBuf}
    {verdict : Except Fail Bool}
    (hStep : forceLogStep host loggingFunc byteBuf.bytes = halt verdict) :
    Drains (forceLogStep host) loggingFunc byteBuf.bytes []
      (Call.rest ⟨verdict, ⟨loggingFunc, byteBuf⟩, []⟩) := by
  unfold halt at hStep
  unfold Call.rest
  split at hStep
  · exact .wait hStep
  · exact .stop hStep

/-- The decode loop runs the steps of the decoder, and has turns enough for all of them. -/
theorem decode_drains (hUnpack : host.UnpackLaws) (protocol : Protocol) {fuel : Nat}
    (byteBuf : ByteBuf) (hFuel : byteBuf.bytes.length < fuel) :
    Drains (forceLogStep host) (some protocol) byteBuf.bytes
      (decode host protocol fuel byteBuf).events (decode host protocol fuel byteBuf).rest := by
  induction fuel generalizing byteBuf with
  | zero => exact absurd hFuel (Nat.not_lt_zero _)
  | succ fuel ih =>
    have hStep := forceLogStep_some host protocol byteBuf
    rw [decode]
    split
    next hEmpty =>
      rw [if_pos hEmpty] at hStep
      exact .wait hStep
    next hEmpty =>
      rw [if_neg hEmpty] at hStep
      obtain ⟨e, hf⟩ | ⟨event, n, hPos, hn, hf⟩ :=
        (Protocol.createLoggingEvent_sound hUnpack protocol).takes byteBuf
      · rw [hf] at hStep ⊢
        exact drains_halt hStep
      · rw [hf] at hStep ⊢
        have hTaken : byteBuf.bytes.length - (byteBuf.drop n).bytes.length = n := by
          rw [drop_bytes, List.length_drop]
          omega
        dsimp only at hStep
        rw [hTaken] at hStep
        dsimp only
        cases hCall : callAppenders host event with
        | ok logged =>
          rw [hCall] at hStep
          refine .take hStep (ih (byteBuf.drop n) ?_)
          rw [drop_bytes, List.length_drop]
          omega
        | error e =>
          rw [hCall] at hStep
          obtain rfl := callAppenders_error hCall
          exact .stop hStep

/-- A call of `forceLog` is a run of the decoder on the buffer with the new bytes. -/
theorem forceLog_drains (hUnpack : host.UnpackLaws) (loggingFunc : Option Protocol)
    (byteBuf : ByteBuf) :
    Drains (forceLogStep host) loggingFunc byteBuf.bytes
      ((⟨loggingFunc, byteBuf⟩ : Client).forceLog host []).events
      ((⟨loggingFunc, byteBuf⟩ : Client).forceLog host []).rest := by
  have hInsert : byteBuf.insert [] = .ok byteBuf := by
    unfold ByteBuf.insert
    simp only [List.append_nil, byteBuf.size_le, dite_true]
    rfl
  unfold Client.forceLog
  simp only [hInsert]
  cases loggingFunc with
  | some protocol => exact decode_drains hUnpack protocol byteBuf (Nat.lt_succ_self _)
  | none =>
    have hStep := forceLogStep_none host byteBuf
    dsimp only [createLoggingEventFunc] at hStep ⊢
    obtain ⟨e, -, hTry⟩ | ⟨protocol, hIn, hTry, -⟩ | ⟨r, -, hr, hTry, -⟩ :=
      tryLoggingEventFuncs_settles host (List.prefix_refl byteBuf.bytes) sloggingEventFuncs
    · rw [hTry] at hStep ⊢
      exact drains_halt hStep
    · rw [hTry] at hStep ⊢
      exact .take hStep (decode_drains hUnpack protocol (byteBuf.drop 4) (Nat.lt_succ_self _))
    · rw [hTry] at hStep ⊢
      cases r with
      | error e => exact drains_halt hStep
      | ok r =>
        cases r with
        | none => exact drains_halt hStep
        | some protocol => exact absurd rfl (hr protocol)

theorem forceLog_eq (client : Client) {bytes : List UInt8}
    (h : (client.byteBuf.bytes ++ bytes).length ≤ maxSize) :
    client.forceLog host bytes =
      (⟨client.loggingFunc, ⟨client.byteBuf.bytes ++ bytes, h⟩⟩ : Client).forceLog host [] := by
  have hInsert : client.byteBuf.insert bytes = .ok ⟨client.byteBuf.bytes ++ bytes, h⟩ := dif_pos h
  have hAgain : (⟨client.byteBuf.bytes ++ bytes, h⟩ : ByteBuf).insert [] =
      .ok ⟨client.byteBuf.bytes ++ bytes, h⟩ := by
    unfold ByteBuf.insert
    simp only [List.append_nil, h, dite_true]
    rfl
  unfold Client.forceLog
  rw [hInsert, hAgain]

/-- `forceLog` on a client with the given loader and bytes. -/
def drain (host : Host) (loggingFunc : Option Protocol) (bytes : List UInt8) :
    List LoggingEvent × Rest (Option Protocol) UInt8 (Except Fail Bool) :=
  if h : bytes.length ≤ maxSize then
    let call := (⟨loggingFunc, ⟨bytes, h⟩⟩ : Client).forceLog host []
    (call.events, call.rest)
  else ([], .inr (.error .badAlloc))

theorem drain_drains (hUnpack : host.UnpackLaws) (loggingFunc : Option Protocol)
    (bytes : List UInt8) (h : bytes.length ≤ maxSize) :
    Drains (forceLogStep host) loggingFunc bytes (drain host loggingFunc bytes).1
      (drain host loggingFunc bytes).2 := by
  rw [drain, dif_pos h]
  exact forceLog_drains hUnpack loggingFunc ⟨bytes, h⟩

theorem rest_of_true {call : Call} (h : call.verdict = .ok true) :
    call.rest = .inl (call.client.loggingFunc, call.client.byteBuf.bytes) := by
  rw [Call.rest, h]

theorem rest_of_ne_true {call : Call} (h : call.verdict ≠ .ok true) :
    call.rest = .inr call.verdict := by
  unfold Call.rest
  split
  next hTrue => exact absurd hTrue h
  next => rfl

/-- Calls for chunk after chunk feed the decoder. -/
theorem forceLogAll_eq (hUnpack : host.UnpackLaws) (client : Client) (chunks : List (List UInt8))
    (h : (client.byteBuf.bytes ++ chunks.flatten).length ≤ maxSize) :
    ((client.forceLogAll host chunks).events, (client.forceLogAll host chunks).rest) =
      feedAll (drain host) client.loggingFunc client.byteBuf.bytes chunks := by
  induction chunks generalizing client with
  | nil => rfl
  | cons chunk chunks ih =>
    rw [List.flatten_cons, ← List.append_assoc, List.length_append] at h
    have hChunk : (client.byteBuf.bytes ++ chunk).length ≤ maxSize := by omega
    have hDrain : drain host client.loggingFunc (client.byteBuf.bytes ++ chunk) =
        ((client.forceLog host chunk).events, (client.forceLog host chunk).rest) := by
      rw [drain, dif_pos hChunk, forceLog_eq client hChunk]
    have hDrains := drain_drains hUnpack client.loggingFunc _ hChunk
    rw [hDrain] at hDrains
    rw [Client.forceLogAll, feedAll, hDrain]
    by_cases hTrue : (client.forceLog host chunk).verdict = .ok true
    · rw [rest_of_true hTrue] at hDrains ⊢
      have hLe := hDrains.length_le
      have hRest := ih (client.forceLog host chunk).client (by
        rw [List.length_append]
        omega)
      simp only [hTrue]
      rw [← hRest]
      rfl
    · rw [rest_of_ne_true hTrue]
      split
      next hTrue' => exact absurd hTrue' hTrue
      next => rw [rest_of_ne_true hTrue]

/-- Equal rests come from equal verdicts and, where the stream goes on, from equal clients. -/
theorem rest_inj {call call' : Call} (h : call.rest = call'.rest) :
    call.verdict = call'.verdict ∧ (call.verdict = .ok true → call.client = call'.client) := by
  by_cases hTrue : call.verdict = .ok true
  · rw [rest_of_true hTrue] at h
    by_cases hTrue' : call'.verdict = .ok true
    · rw [rest_of_true hTrue'] at h
      obtain ⟨hFunc, hBytes⟩ := Prod.mk.inj (Sum.inl.inj h)
      refine ⟨hTrue.trans hTrue'.symm, fun _ => ?_⟩
      cases hClient : call.client
      cases hClient' : call'.client
      rw [hClient, hClient'] at hFunc hBytes
      exact congr (congrArg Client.mk hFunc) (ByteBuf.ext hBytes)
    · rw [rest_of_ne_true hTrue'] at h
      cases h
  · rw [rest_of_ne_true hTrue] at h
    by_cases hTrue' : call'.verdict = .ok true
    · rw [rest_of_true hTrue'] at h
      cases h
    · rw [rest_of_ne_true hTrue'] at h
      exact ⟨Sum.inr.inj h, fun hVerdict => absurd hVerdict hTrue⟩

/-- The calls for the chunks of a stream are together a run of the decoder on the stream. -/
theorem forceLogAll_drains (hUnpack : host.UnpackLaws) (loggingFunc : Option Protocol)
    (chunks : List (List UInt8)) (hSize : chunks.flatten.length ≤ maxSize) :
    let call := (⟨loggingFunc, .empty⟩ : Client).forceLogAll host chunks
    Drains (forceLogStep host) loggingFunc chunks.flatten call.events call.rest := by
  intro call
  have hFeed := feedAll_drains (forceLogStep_stable hUnpack) (forceLogStep_productive hUnpack)
    (drain_drains hUnpack) chunks (forceLogStep_nil host loggingFunc) hSize
  have hEq := forceLogAll_eq hUnpack ⟨loggingFunc, .empty⟩ chunks hSize
  dsimp only [empty] at hEq
  rw [← hEq] at hFeed
  exact hFeed

/-- A stream in chunks leaves a new client as the stream in one piece does. -/
theorem forceLogAll_rest (hUnpack : host.UnpackLaws) (chunks : List (List UInt8))
    (hSize : chunks.flatten.length ≤ maxSize) :
    let parts := Client.new.forceLogAll host chunks
    let whole := Client.new.forceLog host chunks.flatten
    parts.events = whole.events ∧ parts.rest = whole.rest := by
  intro parts whole
  have hWhole : Drains (forceLogStep host) none chunks.flatten whole.events whole.rest := by
    rw [show whole = _ from forceLog_eq Client.new hSize]
    exact forceLog_drains hUnpack none ⟨chunks.flatten, hSize⟩
  exact hWhole.det (forceLogAll_drains hUnpack none chunks hSize)

/-- However a stream is cut into chunks, a new client delivers the same events, comes to the same
verdict and, while the stream goes on, has chosen the same loader and keeps the same bytes. -/
theorem forceLogAll_flatten (hUnpack : host.UnpackLaws) (chunks : List (List UInt8))
    (hSize : chunks.flatten.length ≤ maxSize) :
    let parts := Client.new.forceLogAll host chunks
    let whole := Client.new.forceLog host chunks.flatten
    parts.events = whole.events ∧ parts.verdict = whole.verdict ∧
      (parts.verdict = .ok true → parts.client = whole.client) := by
  intro parts whole
  obtain ⟨hEvents, hRest⟩ := forceLogAll_rest hUnpack chunks hSize
  exact ⟨hEvents, rest_inj hRest⟩

/-- `msgpack::unpack` on the objects of a single byte; it waits for ever for the longer ones. -/
def unpackByte : List UInt8 → Unpacked
  | [] => .insufficientBytes
  | byte :: _ =>
    if byte < 0x80 then .object (.positiveInteger byte.toUInt64) 1
    else if byte = 0x80 then .object (.map []) 1
    else if byte = 0x90 then .object (.array []) 1
    else if byte = 0xA0 then .object (.str []) 1
    else if byte = 0xC0 then .object .nil 1
    else if byte = 0xC1 then .parseError
    else if byte = 0xC2 then .object (.boolean false) 1
    else if byte = 0xC3 then .object (.boolean true) 1
    else if 0xE0 ≤ byte then .object (.negativeInteger byte.toInt8.toInt64) 1
    else .insufficientBytes

/-- A build without asserts, with every level enabled. -/
def byteHost : Host where
  env := .release
  unpack := unpackByte
  microseconds _ := 0
  effectiveLevel _ := some (-2147483648)

theorem byteHost_laws : byteHost.UnpackLaws where
  repeats bytes more h := by
    cases bytes with
    | nil => exact absurd rfl h
    | cons byte bytes => rfl
  takes {bytes msg readBytes} h := by
    cases bytes with
    | nil => cases h
    | cons byte bytes =>
      have hOne : readBytes = 1 := by
        simp only [byteHost, unpackByte] at h
        split_ifs at h <;> cases h <;> rfl
      subst hOne
      exact ⟨by decide, by simp⟩

/-- A stream of the Default protocol with one message, whose strings have one byte each. -/
def sampleStream : List UInt8 := [
  0xAC, 0xED, 0x00, 0x05, 0x73, 0x71, 0x00, 0x7E, 0x00, 0x00, 0x00, 0x00, 0x00, 0x00, 0x00, 0x00,
  0x00, 0x00, 0x00, 0x01, 0x74, 0x00, 0x01, 0x6C, 0x70, 0x70, 0x70, 0x74, 0x00, 0x01, 0x6D, 0x74,
  0x00, 0x01, 0x74, 0x70, 0x77, 0x04, 0x00, 0x00, 0x4E, 0x20, 0x70, 0x78]

theorem forceLogAll_flatten_sample :
    let parts := Client.new.forceLogAll byteHost [sampleStream.take 2, sampleStream.drop 2]
    let whole := Client.new.forceLog byteHost sampleStream
    whole.events.length = 1 ∧ parts.events = whole.events ∧ parts.verdict = whole.verdict ∧
      (parts.verdict = .ok true → parts.client = whole.client) :=
  ⟨by decide, forceLogAll_flatten byteHost_laws [sampleStream.take 2, sampleStream.drop 2]
    (by decide)⟩

end LogSocket
