import LogSocket.Delivery
import LogSocket.Outcomes
import LogSocket.Session

/-! When decoding ends. One call of the loader of the Default protocol ends with an event or one of
the two exceptions unless a class descriptor leads it astray; so does a call of `forceLog`, which
decodes one message after the other, unless `getLogger` never finds the logger of one. -/

namespace LogSocket

open Lib ByteBuf
open Hierarchy (AllFound Linked)

section decodeRouted

variable {host : Host} {protocol : Protocol}

/-- Messages are read from the front of a buffer, one after the other: `events` come out of them, and
`rest` is left. -/
inductive Protocol.Gives (protocol : Protocol) (host : Host) :
    ByteBuf → List LoggingEvent → ByteBuf → Prop
  | none {byteBuf : ByteBuf} : Gives protocol host byteBuf [] byteBuf
  | message {byteBuf next rest : ByteBuf} {event : LoggingEvent} {events : List LoggingEvent} :
      byteBuf.bytes ≠ [] → protocol.createLoggingEvent host byteBuf = (.ok event, next) →
      Gives protocol host next events rest → Gives protocol host byteBuf (event :: events) rest

/-- Nothing comes out of a buffer that a message cannot be read from. -/
theorem Protocol.gives_stuck {byteBuf rest : ByteBuf} {events : List LoggingEvent}
    (hStuck : byteBuf.bytes = [] ∨ ∃ e, (protocol.createLoggingEvent host byteBuf).1 = .error e) :
    protocol.Gives host byteBuf events rest ↔ events = [] ∧ rest = byteBuf := by
  constructor
  · intro h
    cases h with
    | none => exact ⟨rfl, rfl⟩
    | message hNe hOk _ =>
      obtain hNil | ⟨e, hError⟩ := hStuck
      · exact absurd hNil hNe
      · rw [hOk] at hError
        cases hError
  · rintro ⟨rfl, rfl⟩
    exact .none

theorem Protocol.gives_message {byteBuf next rest : ByteBuf} {event : LoggingEvent}
    {events : List LoggingEvent} (hNe : byteBuf.bytes ≠ [])
    (hOk : protocol.createLoggingEvent host byteBuf = (.ok event, next)) :
    protocol.Gives host byteBuf events rest ↔ events = [] ∧ rest = byteBuf ∨
      ∃ events', events = event :: events' ∧ protocol.Gives host next events' rest := by
  constructor
  · intro h
    cases h with
    | none => exact .inl ⟨rfl, rfl⟩
    | message _ hOk' hRest =>
      cases hOk.symm.trans hOk'
      exact .inr ⟨_, rfl, hRest⟩
  · rintro (⟨rfl, rfl⟩ | ⟨events', rfl, hRest⟩)
    · exact .none
    · exact .message hNe hOk hRest

/-- The loop of `forceLog` ends as it may exactly when the loader does on each message that is come to
and the logger of each event is found. -/
theorem decodeRouted_ends {ok : Fail → Prop}
    (hCaught : ∀ e : Fail, Ensures ok (fun _ => True) e.caughtInLoop ↔ ok e) (hHang : ¬ok .hang)
    (appenders : AppenderPtr → Appender)
    (hTakes : ∀ byteBuf, Takes (protocol.createLoggingEvent host) byteBuf)
    (hNames : protocol.NamesFit host) {names : List LogString} {h : Hierarchy}
    (hLinked : Linked names h) {byteBuf : ByteBuf} {fuel : Nat}
    (hFuel : byteBuf.bytes.length < fuel) :
    Ensures ok (fun _ => True) (decodeRouted host appenders protocol fuel byteBuf h).verdict ↔
      ∀ events rest, protocol.Gives host byteBuf events rest →
        AllFound names (events.map (·.logger)) ∧
        (rest.bytes ≠ [] → Ensures ok (fun _ => True) (protocol.createLoggingEvent host rest).1) := by
  induction fuel generalizing byteBuf names h with
  | zero => cases hFuel
  | succ fuel ih =>
    rw [decodeRouted]
    by_cases hNil : byteBuf.bytes = []
    · rw [if_pos hNil]
      refine iff_of_true True.intro fun events rest hGives => ?_
      obtain ⟨rfl, rfl⟩ := (Protocol.gives_stuck (.inl hNil)).mp hGives
      exact ⟨True.intro, fun hNe => absurd hNil hNe⟩
    rw [if_neg hNil]
    obtain ⟨e, hError⟩ | ⟨event, n, hPos, hLe, hOk⟩ := hTakes byteBuf
    · rw [hError]
      simp only [Protocol.gives_stuck (.inr ⟨e, congrArg Prod.fst hError⟩), and_imp,
        forall_eq_apply_imp_iff, forall_eq, hError]
      simp [AllFound, hCaught, hNil]
    · rw [hOk]
      dsimp only
      obtain ⟨hFound, delivery, h', hLog, hNext⟩ | ⟨hNot, hLog⟩ :=
        hLinked.log_cases appenders (hNames _ _ _ hOk)
      · have hShorter : (byteBuf.drop n).bytes.length < fuel := by
          rw [drop_bytes, List.length_drop]
          omega
        rw [hLog]
        refine (ih hNext hShorter).trans ⟨fun hAll events rest hGives => ?_, fun hAll => ?_⟩
        · obtain ⟨rfl, rfl⟩ | ⟨events', rfl, hRest⟩ := (Protocol.gives_message hNil hOk).mp hGives
          · rw [hOk]
            exact ⟨True.intro, fun _ => True.intro⟩
          · exact ⟨⟨hFound, (hAll _ _ hRest).1⟩, (hAll _ _ hRest).2⟩
        · intro events rest hRest
          have hMessage := hAll _ _ (.message hNil hOk hRest)
          exact ⟨hMessage.1.2, hMessage.2⟩
      · rw [hLog]
        refine iff_of_false (fun h => hHang ((hCaught .hang).mp h)) fun hAll => hNot ?_
        exact (hAll _ _ (.message hNil hOk .none)).1.1

end decodeRouted

namespace Default

variable {env : Env} {byteBuf : ByteBuf}

/-- A call ends with an event, or as it is allowed to. -/
def Finishes (env : Env) (byteBuf : ByteBuf) : Prop :=
  Ensures (Allowed env) (fun _ => True) (createLoggingEvent env byteBuf).1

/-- No class descriptor of the message at the front of a buffer has a length that leads its reader to
the end of the address space or round in a circle. -/
def Straight (env : Env) (byteBuf : ByteBuf) : Prop :=
  ∀ pos, Descriptor env byteBuf pos → ¬Underrun byteBuf pos ∧ ¬Cycle byteBuf pos

/-- The loader ends as it may exactly when no length in a descriptor leads it to the end of the
address space or round in a circle. -/
theorem finishes_iff_straight (env : Env) (byteBuf : ByteBuf) :
    Finishes env byteBuf ↔ Straight env byteBuf := by
  constructor
  · intro hFinishes pos hDescriptor
    constructor
    · intro hUnderrun
      have hError := createLoggingEvent_eq_error.mpr (hDescriptor.readMessage_eq fun _ =>
        hUnderrun.readProlog_eq (Nat.lt_succ_self _) _)
      exact (hFinishes.failure hError).ne_fault rfl
    · intro hCycle
      have hError := createLoggingEvent_eq_error.mpr (hDescriptor.readMessage_eq fun _ =>
        hCycle.readProlog_eq (Nat.lt_succ_self _) _)
      obtain h | ⟨h, -⟩ | ⟨h, -⟩ := hFinishes.failure hError <;> cases h
  · intro hNone
    unfold Finishes
    cases hCall : (createLoggingEvent env byteBuf).1 with
    | ok event => exact True.intro
    | error e =>
      obtain hAllowed | ⟨pos, hDescriptor, hBlames⟩ :=
        readMessage_outcome.failure (createLoggingEvent_eq_error.mp hCall)
      · exact hAllowed
      · obtain ⟨-, hUnderrun⟩ | ⟨-, hCycle⟩ := hBlames
        · exact absurd hUnderrun (hNone pos hDescriptor).1
        · exact absurd hCycle (hNone pos hDescriptor).2

/-- A buffer that is left after a number of messages have been read from another one. -/
inductive Reached (env : Env) : ByteBuf → ByteBuf → Prop
  | refl {byteBuf : ByteBuf} : Reached env byteBuf byteBuf
  | message {byteBuf next rest : ByteBuf} {event : LoggingEvent} : byteBuf.bytes ≠ [] →
      createLoggingEvent env byteBuf = (.ok event, next) → Reached env next rest →
      Reached env byteBuf rest

theorem Reached.eq_of_nil {rest : ByteBuf} (h : Reached env byteBuf rest)
    (hNil : byteBuf.bytes = []) : rest = byteBuf := by
  cases h with
  | refl => rfl
  | message hNe _ _ => exact absurd hNil hNe

end Default

theorem Fail.caughtInLoop_allowed {env : Env} {e : Fail} :
    Ensures (Default.Allowed env) (fun _ => True) e.caughtInLoop ↔ Default.Allowed env e := by
  cases e <;> simp [Fail.caughtInLoop, Default.Allowed]

/-- A call that returns, or fails as it is allowed to. -/
def RoutedCall.Returns (env : Env) (call : RoutedCall) : Prop :=
  Ensures (Default.Allowed env) (fun _ => True) call.verdict

/-- What a call has to decode: all of its bytes behind those of the buffer, or all but the start flag
of the protocol where the loader is not chosen yet. -/
def Client.Pending (client : Client) (bytes : List UInt8) (stream : ByteBuf) : Prop :=
  client.loggingFunc = some .default ∧ client.byteBuf.bytes ++ bytes = stream.bytes ∨
    client.loggingFunc = none ∧ client.byteBuf.bytes ++ bytes = Default.start ++ stream.bytes

theorem Client.Pending.forceLogRouted_eq {host : Host} {client : Client} {bytes : List UInt8}
    {stream : ByteBuf} (hPending : client.Pending bytes stream)
    (hSize : (client.byteBuf.bytes ++ bytes).length ≤ maxSize) (appenders : AppenderPtr → Appender)
    (h : Hierarchy) : client.forceLogRouted host appenders h bytes =
      decodeRouted host appenders .default (stream.bytes.length + 1) stream h := by
  have hInsert : client.byteBuf.insert bytes = .ok ⟨client.byteBuf.bytes ++ bytes, hSize⟩ :=
    dif_pos hSize
  rw [Client.forceLogRouted, hInsert]
  obtain ⟨hFunc, hBytes⟩ | ⟨hFunc, hBytes⟩ := hPending
  · rw [hFunc]
    dsimp only
    rw [show (⟨client.byteBuf.bytes ++ bytes, hSize⟩ : ByteBuf) = stream from ByteBuf.ext hBytes,
      hBytes]
  · let byteBuf : ByteBuf := ⟨client.byteBuf.bytes ++ bytes, hSize⟩
    obtain ⟨rest, hRest, hStart⟩ :=
      createLoggingEventFunc_default host (show byteBuf.bytes = _ from hBytes)
    rw [hFunc]
    dsimp only
    rw [hStart, show rest = stream from ByteBuf.ext hRest]

namespace Default

/-- Decoding ends exactly when the class descriptors are read straight through: those of one message
for the loader, and for a call of `forceLog`, after any calls on the repository of loggers, those of
each message that it comes to, if the logger of each of their events is found. -/
theorem terminates_iff (host : Host) (appenders : AppenderPtr → Appender)
    {ops : List Hierarchy.Op} {h : Hierarchy}
    (hSizes : ∀ n ∈ ops.flatMap Hierarchy.Op.asked, n.length < 2 ^ 32)
    (hRun : Hierarchy.new.run ops = .ok h) (byteBuf : ByteBuf) :
    (Finishes host.env byteBuf ↔ Straight host.env byteBuf) ∧
    ∀ (client : Client) (bytes : List UInt8),
      (client.byteBuf.bytes ++ bytes).length ≤ maxSize → client.Pending bytes byteBuf →
      ((client.forceLogRouted host appenders h bytes).Returns host.env ↔
        ∀ events rest, Protocol.default.Gives host byteBuf events rest →
          AllFound (ops.flatMap Hierarchy.Op.asked) (events.map (·.logger)) ∧
          (rest.bytes ≠ [] → Straight host.env rest)) := by
  have hLinked := Linked.new.run hSizes hRun
  rw [List.nil_append] at hLinked
  refine ⟨finishes_iff_straight host.env byteBuf, fun client bytes hSize hPending => ?_⟩
  have hHang : ¬Allowed host.env .hang := by rintro (h | ⟨h, -⟩ | ⟨h, -⟩) <;> cases h
  have hTakes : ∀ byteBuf, Takes (Protocol.default.createLoggingEvent host) byteBuf :=
    (createLoggingEvent_sound host.env).takes
  have hNames : Protocol.default.NamesFit host := Protocol.namesFit fun h => by cases h
  rw [hPending.forceLogRouted_eq hSize, RoutedCall.Returns,
    decodeRouted_ends (fun _ => Fail.caughtInLoop_allowed) hHang appenders hTakes hNames hLinked
      (Nat.lt_succ_self _)]
  simp only [← finishes_iff_straight]
  exact Iff.rfl

/-- A descriptor without a name or fields, whose one tag has the length `-3` and so leads back to
itself. -/
def circling : ByteBuf where
  bytes := [0x73, 0x72, 0x00, 0x00, 0x00, 0x00, 0x00, 0x00, 0x00, 0x00, 0x00, 0x00, 0x02, 0x00, 0x00,
    0x4C, 0xFF, 0xFD]
  size_le := by decide

/-- A message of the logger `.` -/
def dotted : ByteBuf where
  bytes := (sampleStream.set 23 0x2E).drop 4
  size_le := by decide

theorem terminates_iff_circling : ∃ h, Hierarchy.new.run Hierarchy.configOps = .ok h ∧
    ¬Straight .release circling ∧
    (∀ stream ∈ [circling, dotted],
      ¬(Client.new.forceLogRouted byteHost (fun _ => ⟨false, .all, []⟩) h
        (Default.start ++ stream.bytes)).Returns .release) := by
  obtain ⟨h, hRun⟩ : ∃ h, Hierarchy.new.run Hierarchy.configOps = .ok h := ⟨_, rfl⟩
  have hIff := terminates_iff byteHost (fun _ => ⟨false, .all, []⟩) Hierarchy.configOps_asked hRun
  have hCircling : ¬Straight .release circling := by
    intro hStraight
    have hHang : (createLoggingEvent .release circling).1 = .error .hang := by decide
    have hFinishes := ((hIff circling).1.mpr hStraight).failure hHang
    rcases hFinishes with h | ⟨h, -⟩ | ⟨h, -⟩ <;> cases h
  refine ⟨h, hRun, hCircling, ?_⟩
  simp only [List.forall_mem_cons, List.not_mem_nil, false_imp_iff, implies_true, and_true]
  constructor
  · intro hReturns
    have hAll := ((hIff circling).2 .new (start ++ circling.bytes) (by decide)
      (.inr ⟨rfl, rfl⟩)).mp hReturns
    exact hCircling ((hAll _ _ .none).2 (by decide))
  · intro hReturns
    have hAll := ((hIff dotted).2 .new (start ++ dotted.bytes) (by decide)
      (.inr ⟨rfl, rfl⟩)).mp hReturns
    have hGives : Protocol.default.Gives byteHost dotted _ _ :=
      .message (by decide) (Prod.ext (by rfl) (by rfl)) .none
    exact absurd (hAll _ _ hGives).1 (by decide)

theorem not_finishes : ¬∀ (env : Env) (byteBuf : ByteBuf), Finishes env byteBuf := by
  intro hAll
  have hHang : (createLoggingEvent .release circling).1 = .error .hang := by decide
  obtain h | ⟨h, -⟩ | ⟨h, -⟩ := (hAll .release circling).failure hHang <;> cases h

end Default

end LogSocket
