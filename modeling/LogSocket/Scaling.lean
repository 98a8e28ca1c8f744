import LogSocket.Contexts
import LogSocket.MsgpackKeys

/-! The numbers from the wire that a loader multiplies by 1000, the time of a message in milliseconds
and the level of a Python record. Nothing looks at them before the multiplication. -/

namespace LogSocket

open Lib

namespace Default

/-- The time in a message. -/
def readTimeStamp (env : Env) (fuel : Nat) (byteBuf : ByteBuf) : Except Fail Int64 := do
  let pos ← readObjectTag byteBuf
  let (_, size) ← readProlog env fuel byteBuf pos loggingEventDesc
  let pos := pos + size
  let (_, size) ← readBytes env byteBuf pos 2
  let (timeStamp, _) ← readLong byteBuf (pos + size)
  pure timeStamp

theorem readMessage_timeStamp {env : Env} {fuel : Nat} {byteBuf : ByteBuf} {carried : Carried}
    {size : UInt64} (h : readMessage env fuel byteBuf = .ok (carried, size)) :
    ∃ millis, readTimeStamp env fuel byteBuf = .ok millis ∧ carried.timeStamp = millis * 1000 := by
  obtain ⟨⟨⟨⟨timeStamp, logger⟩, fullInfo⟩, pos⟩, hBefore, h⟩ := bind_eq_ok.mp h
  obtain ⟨⟨⟨timeStamp', logger'⟩, _⟩, hHeader, hBefore⟩ := bind_eq_ok.mp hBefore
  obtain ⟨_, -, hBefore⟩ := bind_eq_ok.mp hBefore
  obtain ⟨pos, hTag, hHeader⟩ := bind_eq_ok.mp hHeader
  obtain ⟨⟨_, size⟩, hProlog, hHeader⟩ := bind_eq_ok.mp hHeader
  obtain ⟨⟨_, size'⟩, hFlags, hHeader⟩ := bind_eq_ok.mp hHeader
  obtain ⟨_, -, hHeader⟩ := bind_eq_ok.mp hHeader
  obtain ⟨_, -, hHeader⟩ := bind_eq_ok.mp hHeader
  obtain ⟨⟨millis, _⟩, hLong, hHeader⟩ := bind_eq_ok.mp hHeader
  obtain ⟨_, -, hHeader⟩ := bind_eq_ok.mp hHeader
  obtain ⟨_, -, h⟩ := bind_eq_ok.mp h
  obtain ⟨_, -, h⟩ := bind_eq_ok.mp h
  obtain ⟨_, -, h⟩ := bind_eq_ok.mp h
  obtain ⟨_, -, h⟩ := bind_eq_ok.mp h
  obtain ⟨_, -, h⟩ := bind_eq_ok.mp h
  cases h
  cases hBefore
  cases hHeader
  refine ⟨millis, ?_, rfl⟩
  rw [readTimeStamp, hTag, ok_bind, hProlog, ok_bind]
  dsimp only
  rw [hFlags, ok_bind, hLong]
  rfl

namespace Blocking

/-- The time in a message. -/
def readTimeStamp (env : Env) (fuel : Nat) (socket : Segments) : Except Stop Int64 := do
  let socket ← readObjectTag socket
  let (_, socket) ← readProlog env fuel socket loggingEventDesc
  let (_, socket) ← readBytes env socket 2
  let (timeStamp, _) ← readLong socket
  pure timeStamp

theorem readMessage_timeStamp {env : Env} {fuel : Nat} {socket rest : Segments} {carried : Carried}
    (h : readMessage env fuel socket = .ok (carried, rest)) :
    ∃ millis, readTimeStamp env fuel socket = .ok millis ∧ carried.timeStamp = millis * 1000 := by
  obtain ⟨⟨⟨⟨timeStamp, logger⟩, fullInfo⟩, _⟩, hBefore, h⟩ := bind_eq_ok.mp h
  obtain ⟨⟨⟨timeStamp', logger'⟩, _⟩, hHeader, hBefore⟩ := bind_eq_ok.mp hBefore
  obtain ⟨_, -, hBefore⟩ := bind_eq_ok.mp hBefore
  obtain ⟨_, hTag, hHeader⟩ := bind_eq_ok.mp hHeader
  obtain ⟨⟨_, _⟩, hProlog, hHeader⟩ := bind_eq_ok.mp hHeader
  obtain ⟨⟨_, _⟩, hFlags, hHeader⟩ := bind_eq_ok.mp hHeader
  obtain ⟨_, -, hHeader⟩ := bind_eq_ok.mp hHeader
  obtain ⟨_, -, hHeader⟩ := bind_eq_ok.mp hHeader
  obtain ⟨⟨millis, _⟩, hLong, hHeader⟩ := bind_eq_ok.mp hHeader
  obtain ⟨_, -, hHeader⟩ := bind_eq_ok.mp hHeader
  obtain ⟨_, -, h⟩ := bind_eq_ok.mp h
  obtain ⟨_, -, h⟩ := bind_eq_ok.mp h
  obtain ⟨_, -, h⟩ := bind_eq_ok.mp h
  obtain ⟨_, -, h⟩ := bind_eq_ok.mp h
  obtain ⟨_, -, h⟩ := bind_eq_ok.mp h
  cases h
  cases hBefore
  cases hHeader
  refine ⟨millis, ?_, rfl⟩
  rw [readTimeStamp, hTag, ok_bind, hProlog, ok_bind]
  dsimp only
  rw [hFlags, ok_bind]
  dsimp only
  rw [hLong]
  rfl

end Blocking

namespace Source

def readTimeStamp (env : Env) : Source → Option Int64
  | buffer byteBuf => (Default.readTimeStamp env (byteBuf.bytes.length + 1) byteBuf).toOption
  | socket segments =>
    (Blocking.readTimeStamp env (segments.flatten.length + 1) segments).toOption

theorem readMessage_timeStamp {env : Env} {source : Source} {carried : Carried}
    (h : source.readMessage env = some carried) :
    ∃ millis, source.readTimeStamp env = some millis ∧ carried.timeStamp = millis * 1000 := by
  cases source with
  | buffer byteBuf =>
    obtain ⟨read, hRead, rfl⟩ := Option.map_eq_some_iff.mp h
    obtain ⟨millis, hMillis, hTime⟩ := Default.readMessage_timeStamp (toOption_eq_some.mp hRead)
    exact ⟨millis, toOption_eq_some.mpr hMillis, hTime⟩
  | socket segments =>
    obtain ⟨read, hRead, rfl⟩ := Option.map_eq_some_iff.mp h
    obtain ⟨millis, hMillis, hTime⟩ := Blocking.readMessage_timeStamp (toOption_eq_some.mp hRead)
    exact ⟨millis, toOption_eq_some.mpr hMillis, hTime⟩

/-- The event of a message has its time in microseconds. -/
theorem createLoggingEvent_timeStamp {env : Env} {source : Source} {event : LoggingEvent}
    (h : source.createLoggingEvent env = some event) :
    ∃ millis, source.readTimeStamp env = some millis ∧ event.timeStamp = millis * 1000 := by
  obtain ⟨carried, hRead, hEvent⟩ := createLoggingEvent_carried h
  obtain ⟨millis, hMillis, hTime⟩ := readMessage_timeStamp hRead
  exact ⟨millis, hMillis, (createLoggingEvent_given hEvent).2.2.2.trans hTime⟩

end Source

end Default

namespace Msgpack

/-- The level in a message. -/
def readLevelno (host : Host) (byteBuf : ByteBuf) : Except Fail Int32 :=
  match host.unpack byteBuf.bytes with
  | .object msg _ => do
    let msgmap ← viaMap msg
    asInt (← value msgmap msgIndexLevelno)
  | _ => throw (.invalid .parseError)

/-- The data that an event is built from have its level, times 1000. -/
theorem createLoggingEvent_level {host : Host} {byteBuf : ByteBuf} {event : LoggingEvent}
    (h : (createLoggingEvent host byteBuf).1 = .ok event) :
    ∃ levelno data size, readLevelno host byteBuf = .ok levelno ∧
      readData host byteBuf = .ok (data, size) ∧ data.level = levelno * 1000 := by
  cases hRead : readData host byteBuf with
  | error e =>
    rw [createLoggingEvent, load_error hRead] at h
    cases h
  | ok read =>
    obtain ⟨data, size⟩ := read
    unfold readData at hRead
    split at hRead
    · cases hRead
    · cases hRead
    next msg readBytes hUnpack =>
      obtain ⟨_, -, hRead⟩ := bind_eq_ok.mp hRead
      obtain ⟨msgmap, hMap, hRead⟩ := bind_eq_ok.mp hRead
      obtain ⟨_, -, hRead⟩ := bind_eq_ok.mp hRead
      obtain ⟨_, -, hRead⟩ := bind_eq_ok.mp hRead
      obtain ⟨object, hObject, hRead⟩ := bind_eq_ok.mp hRead
      obtain ⟨levelno, hLevelno, hRead⟩ := bind_eq_ok.mp hRead
      iterate 12 obtain ⟨_, -, hRead⟩ := bind_eq_ok.mp hRead
      cases hRead
      refine ⟨levelno, _, _, ?_, rfl, rfl⟩
      rw [readLevelno, hUnpack]
      dsimp only
      rw [hMap, ok_bind, hObject, ok_bind, hLevelno]

end Msgpack

/-- A call of a loader that multiplies a number. -/
inductive Scaling
  | time (env : Env) (source : Default.Source)
  | level (host : Host) (byteBuf : ByteBuf)

namespace Scaling

def createLoggingEvent : Scaling → Option LoggingEvent
  | time env source => source.createLoggingEvent env
  | level host byteBuf => (Msgpack.createLoggingEvent host byteBuf).1.toOption

/-- The number from the wire. -/
def number : Scaling → Option Int
  | time env source => (source.readTimeStamp env).map Int64.toInt
  | level host byteBuf => (Msgpack.readLevelno host byteBuf).toOption.map Int32.toInt

/-- What it has become in the event, or in the data that the event is built from. -/
def product : Scaling → Option Int
  | time env source => (source.createLoggingEvent env).map (·.timeStamp.toInt)
  | level host byteBuf => (Msgpack.readData host byteBuf).toOption.map (·.1.level.toInt)

/-- The multiplication did not overflow. -/
def Exact (call : Scaling) : Prop := ∃ n, call.number = some n ∧ call.product = some (n * 1000)

/-- The largest number whose product fits. -/
def limit : Scaling → Int
  | time .. => 9223372036854775
  | level .. => 2147483

theorem int64_scaled (millis : Int64) : (millis * 1000).toInt = millis.toInt * 1000 ↔
    -9223372036854775 ≤ millis.toInt ∧ millis.toInt ≤ 9223372036854775 := by
  rw [Int64.toInt_mul, show (1000 : Int64).toInt = 1000 from rfl, Int.bmod_def]
  omega

theorem int32_scaled (levelno : Int32) : (levelno * 1000).toInt = levelno.toInt * 1000 ↔
    -2147483 ≤ levelno.toInt ∧ levelno.toInt ≤ 2147483 := by
  rw [Int32.toInt_mul, show (1000 : Int32).toInt = 1000 from rfl, Int.bmod_def]
  omega

/-- A multiplication does not overflow exactly if the number is within the limit. -/
theorem exact_iff {call : Scaling} {event : LoggingEvent}
    (h : call.createLoggingEvent = some event) :
    call.Exact ↔ ∃ n, call.number = some n ∧ -call.limit ≤ n ∧ n ≤ call.limit := by
  obtain ⟨n, product, hNumber, hProduct, hScaled⟩ : ∃ n product, call.number = some n ∧
      call.product = some product ∧ (product = n * 1000 ↔ -call.limit ≤ n ∧ n ≤ call.limit) := by
    cases call with
    | time env source =>
      obtain ⟨millis, hMillis, hTime⟩ := Default.Source.createLoggingEvent_timeStamp h
      refine ⟨millis.toInt, event.timeStamp.toInt, ?_, ?_, ?_⟩
      · rw [number, hMillis]; rfl
      · rw [createLoggingEvent] at h
        rw [product, h]; rfl
      · rw [hTime]
        exact int64_scaled millis
    | level host byteBuf =>
      obtain ⟨levelno, data, size, hLevelno, hData, hLevel⟩ :=
        Msgpack.createLoggingEvent_level (toOption_eq_some.mp h)
      refine ⟨levelno.toInt, data.level.toInt, ?_, ?_, ?_⟩
      · rw [number, hLevelno]; rfl
      · rw [product, hData]; rfl
      · rw [hLevel]
        exact int32_scaled levelno
  rw [Exact, hNumber, hProduct]
  simp [hScaled]

theorem exact_iff_nestedMessage :
    let call := time .release (.buffer Default.nestedMessage)
    call.Exact ↔ ∃ n, call.number = some n ∧ -call.limit ≤ n ∧ n ≤ call.limit := by
  intro call
  obtain ⟨event, h⟩ : ∃ event, call.createLoggingEvent = some event :=
    Option.isSome_iff_exists.mp (by decide)
  exact exact_iff h

/-- A message with the largest time that there is on the wire. -/
def lastMessage : ByteBuf where
  bytes := (sampleStream.take 12).drop 4 ++ 0x7F :: List.replicate 7 0xFF ++ sampleStream.drop 20
  size_le := by decide

/-- It is accepted, with a time before the epoch. -/
theorem not_exact : ¬∀ (call : Scaling) (event : LoggingEvent),
    call.createLoggingEvent = some event → call.Exact := by
  intro hAll
  let call := time .release (.buffer lastMessage)
  obtain ⟨event, h⟩ : ∃ event, call.createLoggingEvent = some event :=
    Option.isSome_iff_exists.mp (by decide)
  obtain ⟨n, hNumber, hProduct⟩ := hAll call event h
  have hLast : call.number = some 9223372036854775807 := by decide
  have hWrapped : call.product = some (-1000) := by decide
  rw [hLast] at hNumber
  rw [hWrapped] at hProduct
  obtain rfl := Option.some.inj hNumber
  exact absurd hProduct (by decide)

end Scaling

end LogSocket
