import LogSocket.Segmentation
import LogSocket.Session

/-! Builds in which `_ASSERTE` is `assert`. The readers of the Default protocol assert only what holds
of every message that they would otherwise take. The probe of the start flag asserts more: that the
stream is of the Default protocol. -/

namespace LogSocket

open Lib ByteBuf

/-- The same machine with asserts compiled out. -/
def Env.quiet (env : Env) : Env := { env with asserts := false }

def Host.quiet (host : Host) : Host := { host with env := host.env.quiet }

/-- Every value of `x` is repeated by `x'`. -/
def Repeats {α : Type} (x x' : Except Fail α) : Prop := Settles (fun _ => True) x x'

theorem Repeats.refl {α : Type} (x : Except Fail α) : Repeats x x := .inr rfl

theorem Repeats.of_error {α : Type} (e : Fail) (x' : Except Fail α) : Repeats (.error e) x' :=
  .wants True.intro

theorem Repeats.bind {α β : Type} {x x' : Except Fail α} {f f' : α → Except Fail β}
    (hx : Repeats x x') (hf : ∀ a, Repeats (f a) (f' a)) : Repeats (x >>= f) (x' >>= f') :=
  Settles.bind hx fun a _ => hf a

namespace Default

variable (env : Env) (byteBuf : ByteBuf) (pos : UInt64) (fuel : Nat)

/-- The readers of strings have no assertions. -/
theorem readLogString_quiet : readLogString env.quiet = readLogString env := rfl

theorem readEntries_quiet (mapSize : Nat) (readPos : UInt64) (value : MDC) :
    readEntries env.quiet byteBuf pos mapSize readPos value =
      readEntries env byteBuf pos mapSize readPos value := by
  induction mapSize generalizing readPos value with
  | zero => rfl
  | succ mapSize ih => simp only [readEntries, readLogString_quiet, ih]

/-- An assertion of what is checked next. -/
theorem require_repeats {α : Type} (condition : Bool) (failure : Fail)
    {f f' : Unit → Except Fail α} (hf : Repeats (f ()) (f' ())) :
    Repeats (env.quiet.assert condition >>= fun _ => require condition failure >>= f)
      (env.assert condition >>= fun _ => require condition failure >>= f') := by
  cases condition with
  | false => exact .of_error failure _
  | true =>
    rw [Env.assert_true, Env.assert_true, ok_bind, ok_bind, require_true, ok_bind, ok_bind]
    exact hf

theorem tagTurn_repeats (readPos : UInt64) :
    Repeats (tagTurn env.quiet byteBuf pos readPos) (tagTurn env byteBuf pos readPos) := by
  refine (Repeats.refl _).bind fun r => ?_
  dsimp only
  split
  · exact .refl _
  split
  · exact .refl _
  split
  · exact .refl _
  · exact .of_error _ _

theorem readProlog_repeats (classDesc : List UInt8) :
    Repeats (readProlog env.quiet fuel byteBuf pos classDesc)
      (readProlog env fuel byteBuf pos classDesc) := by
  refine (Repeats.refl _).bind fun r => ?_
  dsimp only
  split
  · refine (Repeats.refl _).bind fun r => ?_
    refine (Repeats.refl _).bind fun r => ?_
    refine (Repeats.refl _).bind fun readPos => ?_
    apply Repeats.bind (loop_settles (tagTurn_repeats env byteBuf pos) _ _)
    intro readPos
    refine (Repeats.refl _).bind fun r => ?_
    exact require_repeats env _ _ (.refl _)
  split
  · exact .refl _
  · exact .of_error _ _

theorem readObject_repeats (value : MDC) (skipTypeClass : Bool) :
    Repeats (readObject env.quiet fuel byteBuf pos value skipTypeClass)
      (readObject env fuel byteBuf pos value skipTypeClass) := by
  refine (Repeats.refl _).bind fun readPos => ?_
  refine (readProlog_repeats env byteBuf pos fuel _).bind fun r => ?_
  refine (Repeats.refl _).bind fun data => ?_
  refine require_repeats env _ _ ?_
  simp only [readEntries_quiet]
  exact .refl _

theorem readLocationInfo_repeats :
    Repeats (readLocationInfo env.quiet fuel byteBuf pos)
      (readLocationInfo env fuel byteBuf pos) := by
  refine (Repeats.refl _).bind fun r => ?_
  dsimp only
  split
  · exact .refl _
  split
  · exact (readProlog_repeats env byteBuf _ fuel _).bind fun r => .refl _
  · exact .of_error _ _

theorem readMDC_repeats :
    Repeats (readMDC env.quiet fuel byteBuf pos) (readMDC env fuel byteBuf pos) := by
  refine (Repeats.refl _).bind fun r => ?_
  dsimp only
  split
  · exact .refl _
  split
  · exact (readObject_repeats env byteBuf _ fuel _ _).bind fun r => .refl _
  · exact .of_error _ _

theorem readHeader_repeats :
    Repeats (readHeader env.quiet byteBuf pos) (readHeader env byteBuf pos) := by
  refine (Repeats.refl _).bind fun r => ?_
  exact require_repeats env _ _ (.refl _)

theorem readBeforeMDC_repeats :
    Repeats (readBeforeMDC env.quiet fuel byteBuf) (readBeforeMDC env fuel byteBuf) := by
  have hBefore : Repeats (readBeforeLocation env.quiet fuel byteBuf)
      (readBeforeLocation env fuel byteBuf) := by
    refine (Repeats.refl _).bind fun pos => ?_
    refine (readProlog_repeats env byteBuf pos fuel _).bind fun r => ?_
    exact readHeader_repeats env byteBuf _
  refine hBefore.bind fun r => ?_
  exact (readLocationInfo_repeats env byteBuf _ fuel).bind fun r => .refl _

/-- Where `readNDC` asserts something else than it finds, it consumes nothing, and the string that
is read next fails on the same tag. -/
theorem readNDC_repeats {α : Type} {f f' : LogString × UInt64 → Except Fail α}
    (hf : ∀ r, Repeats (f r) (f' r))
    (hString : ∀ r e, readLogString env.quiet byteBuf (pos + r.2) false = .error e →
      f r = .error e) :
    Repeats (readNDC env.quiet byteBuf pos >>= f) (readNDC env byteBuf pos >>= f') := by
  unfold readNDC
  cases hByte : readByte byteBuf pos with
  | error e => exact .of_error _ _
  | ok r =>
    dsimp only [ok_bind]
    split
    · exact hf _
    split
    next =>
      simp only [bind_assoc, readLogString_quiet]
      exact (Repeats.refl _).bind fun r => hf _
    next hTag =>
      have hFalse : (r.1 == tcString) = false := beq_eq_false_iff_ne.mpr hTag
      have hFails : readLogString env.quiet byteBuf (pos + 0) false =
          .error (.invalid .typeString) := by
        rw [UInt64.add_zero, readLogString, readString, readTypeClass, if_neg (by decide), hByte,
          ok_bind]
        dsimp only
        rw [hFalse]
        rfl
      change Repeats (f ([], 0)) _
      rw [hString ([], 0) _ hFails]
      exact .of_error _ _

/-- A message that is read without asserts is read with them. -/
theorem readMessage_repeats :
    Repeats (readMessage env.quiet fuel byteBuf) (readMessage env fuel byteBuf) := by
  refine (readBeforeMDC_repeats env byteBuf fuel).bind fun r => ?_
  refine (readMDC_repeats env byteBuf _ fuel).bind fun r => ?_
  simp only [readLogString_quiet]
  refine readNDC_repeats env byteBuf _ (fun r => .refl _) fun r e hError => ?_
  rw [readLogString_quiet] at hError
  rw [hError]
  rfl

theorem createLoggingEvent_repeats {event : LoggingEvent} {rest : ByteBuf}
    (h : createLoggingEvent env.quiet byteBuf = (.ok event, rest)) :
    createLoggingEvent env byteBuf = (.ok event, rest) := by
  cases hRead : readMessage env.quiet (byteBuf.bytes.length + 1) byteBuf with
  | error e =>
    rw [createLoggingEvent, createLoggingEventFuel, load_error hRead] at h
    cases h
  | ok r =>
    have hSize := ((readMessage_reads _).value hRead).2.1
    have hAgain := (readMessage_repeats env byteBuf _).value hRead
    rw [createLoggingEvent, createLoggingEventFuel, load_ok hRead hSize] at h
    rw [createLoggingEvent, createLoggingEventFuel, load_ok hAgain hSize, h]

end Default

def Protocol.start : Protocol → List UInt8
  | .default => Default.start
  | .bytes => Bytes.start
  | .msgpack => Msgpack.start

/-- The loader of the protocol, without asserts, takes the whole message. -/
def Protocol.Valid (host : Host) (protocol : Protocol) (message : List UInt8) : Prop :=
  ∃ (h : message.length ≤ maxSize) (event : LoggingEvent) (rest : ByteBuf),
    protocol.createLoggingEvent host.quiet ⟨message, h⟩ = (.ok event, rest) ∧ rest.bytes = []

variable {host : Host}

/-- The messages that clients write are valid. -/
theorem Default.MessageBytes.WellFormed.valid {carried : Default.Carried}
    {message : Default.MessageBytes carried} (hMessage : message.WellFormed)
    (hAlloc : 65536 ≤ host.env.allocLimit) (hSize : message.bytes.length ≤ maxSize) :
    Protocol.default.Valid host message.bytes := by
  have hQuiet : 65536 ≤ host.env.quiet.allocLimit := hAlloc
  have hBytes : (⟨message.bytes, hSize⟩ : ByteBuf).bytes = message.bytes ++ [] := by simp
  obtain ⟨pos, event, rest, -, -, hCall, hRest⟩ := createLoggingEvent_ahead hQuiet hMessage hBytes
  exact ⟨hSize, event, rest, hCall, hRest⟩

/-- Valid messages of the Default protocol are decoded to the last one, or to one whose logger is never
found, asserts or not. -/
theorem decode_valid {messages : List (List UInt8)}
    (hMessages : ∀ message ∈ messages, Protocol.default.Valid host message) {byteBuf : ByteBuf}
    (hBytes : byteBuf.bytes = messages.flatten) {fuel : Nat} (hFuel : byteBuf.bytes.length < fuel) :
    (decode host .default fuel byteBuf).verdict = .ok true ∨
      (decode host .default fuel byteBuf).verdict = .error .hang := by
  induction messages generalizing byteBuf fuel with
  | nil =>
    obtain ⟨fuel, rfl⟩ := Nat.exists_eq_succ_of_ne_zero (Nat.ne_zero_of_lt hFuel)
    rw [decode, if_pos (show byteBuf.bytes = [] from hBytes)]
    exact .inl rfl
  | cons message messages ih =>
    obtain ⟨fuel, rfl⟩ := Nat.exists_eq_succ_of_ne_zero (Nat.ne_zero_of_lt hFuel)
    obtain ⟨hSize, event, empty, hCall, hEmpty⟩ := hMessages message List.mem_cons_self
    rw [List.flatten_cons] at hBytes
    have hSound := Default.createLoggingEvent_sound host.env.quiet
    obtain ⟨rest, hQuiet, hRest⟩ := hSound.takes_front hCall hEmpty hBytes
    have hLoud : Protocol.default.createLoggingEvent host byteBuf = (.ok event, rest) :=
      Default.createLoggingEvent_repeats host.env byteBuf hQuiet
    rw [decode]
    split
    · exact .inl rfl
    next hNe =>
      rw [hLoud]
      dsimp only
      obtain ⟨level, -, hLogged⟩ | ⟨-, hHang⟩ := callAppenders_cases host event
      case inr =>
        rw [hHang]
        exact .inr rfl
      rw [hLogged]
      refine ih (fun m hm => hMessages m (List.mem_cons_of_mem _ hm)) hRest ?_
      obtain ⟨e, hError⟩ | ⟨event', n, hPos, hLe, hOk⟩ := hSound.takes byteBuf
      · cases hQuiet.symm.trans hError
      · have hDrop : rest = byteBuf.drop n := congrArg Prod.snd (hQuiet.symm.trans hOk)
        rw [hDrop, drop_bytes, List.length_drop]
        omega

/-- The first probe asserts that the stream starts like one of the Default protocol. -/
theorem createLoggingEventFunc_other (hAsserts : host.env.asserts) {protocol : Protocol}
    (hOther : protocol ≠ .default) {byteBuf : ByteBuf} {rest : List UInt8}
    (hBytes : byteBuf.bytes = protocol.start ++ rest) :
    createLoggingEventFunc host byteBuf = (.error .abort, byteBuf) := by
  have hFetch : byteBuf.fetch 0 4 = .ok protocol.start := by
    have h : byteBuf.Ahead 0 (protocol.start ++ rest) := hBytes ▸ Ahead.start byteBuf
    cases protocol <;> exact h.fetch rfl
  have hDiffers : (protocol.start == Default.start) = false := by
    cases protocol with
    | default => exact absurd rfl hOther
    | bytes => decide
    | msgpack => decide
  have hProbe : Protocol.default.readStart host byteBuf = .error .abort := by
    change readFlag Default.start host.env byteBuf = _
    rw [readFlag, hFetch, ok_bind, hDiffers, Env.assert, hAsserts]
    rfl
  simp only [createLoggingEventFunc, sloggingEventFuncs, tryLoggingEventFuncs, hProbe]

/-- No assertion fails on a session of valid messages, however it is cut into chunks, exactly when it
is one of the Default protocol. -/
theorem asserts_hold_iff (hUnpack : host.UnpackLaws) (hAsserts : host.env.asserts)
    (protocol : Protocol) (messages : List (List UInt8))
    (hMessages : ∀ message ∈ messages, protocol.Valid host message) (chunks : List (List UInt8))
    (hChunks : chunks.flatten = protocol.start ++ messages.flatten)
    (hSize : chunks.flatten.length ≤ maxSize) :
    (Client.new.forceLogAll host chunks).verdict ≠ .error .abort ↔ protocol = .default := by
  rw [(rest_inj (forceLogAll_rest hUnpack chunks hSize).2).1]
  have hInsert : ByteBuf.empty.insert chunks.flatten = .ok ⟨chunks.flatten, hSize⟩ := dif_pos hSize
  rw [Client.forceLog, Client.new, hInsert]
  dsimp only
  constructor
  · intro hNone
    by_contra hOther
    rw [createLoggingEventFunc_other hAsserts hOther hChunks] at hNone
    exact hNone rfl
  · rintro rfl
    obtain ⟨rest, hRest, hFunc⟩ := createLoggingEventFunc_default host
      (show (⟨chunks.flatten, hSize⟩ : ByteBuf).bytes = _ from hChunks)
    rw [hFunc]
    dsimp only
    obtain hTrue | hHang := decode_valid hMessages hRest (Nat.lt_succ_self _)
    · simp [hTrue]
    · simp [hHang]

/-- `byteHost` in a build with asserts. -/
def assertingHost : Host := { byteHost with env := { byteHost.env with asserts := true } }

theorem assertingHost_laws : assertingHost.UnpackLaws where
  repeats := byteHost_laws.repeats
  takes := byteHost_laws.takes

theorem asserts_hold_iff_sample :
    (Client.new.forceLogAll assertingHost [sampleStream.take 2, sampleStream.drop 2]).verdict ≠
      .error .abort ↔ Protocol.default = .default :=
  asserts_hold_iff assertingHost_laws rfl .default [sampleStream.drop 4]
    (List.forall_mem_singleton.mpr ⟨by decide, _, _, Prod.ext (by rfl) (by rfl), by decide⟩)
    [sampleStream.take 2, sampleStream.drop 2] (by decide) (by decide)

/-- A message of the Bytes protocol in which every string is empty and every number zero. -/
def zeroMessage : List UInt8 := List.replicate 36 0

theorem not_asserts_hold : ¬∀ (host : Host) (protocol : Protocol)
    (messages chunks : List (List UInt8)), host.UnpackLaws → host.env.asserts →
      (∀ message ∈ messages, protocol.Valid host message) →
      chunks.flatten = protocol.start ++ messages.flatten → chunks.flatten.length ≤ maxSize →
      (Client.new.forceLogAll host chunks).verdict ≠ .error .abort := by
  intro hAll
  have hValid : Protocol.bytes.Valid assertingHost zeroMessage :=
    ⟨by decide, _, _, Prod.ext (by rfl) (by rfl), by decide⟩
  refine hAll assertingHost .bytes [zeroMessage] [Bytes.start, zeroMessage]
    assertingHost_laws rfl (List.forall_mem_singleton.mpr hValid) (by decide) (by decide) ?_
  rfl

end LogSocket
