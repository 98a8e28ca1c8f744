import LogSocket.Ahead
import LogSocket.Soundness

/-! The messages of the Default protocol as their writers lay them out, and that
`createLoggingEvent` reads each of them from the front of a buffer. -/

namespace LogSocket.Default

open Lib ByteBuf

variable {env : Env} {byteBuf : ByteBuf} {pos : UInt64} {rest : List UInt8}

section

variable (hAlloc : 65536 ≤ env.allocLimit)
include hAlloc

/-- The texts of a map, keys and values in turn. -/
def entriesBytes (entries : List (LogString × LogString)) : List UInt8 :=
  entries.flatMap fun entry =>
    tcString :: (stringBytes entry.1 ++ tcString :: stringBytes entry.2)

theorem readEntries_ahead {entries : List (LogString × LogString)}
    (hEntries : ∀ entry ∈ entries, entry.1.length < 65536 ∧ entry.2.length < 65536)
    (value : MDC) {readPos : UInt64}
    (h : byteBuf.Ahead (pos + readPos) (entriesBytes entries ++ rest)) :
    ∃ readPos', readEntries env byteBuf pos entries.length readPos value =
        .ok (entries.foldl (fun m e => m.insert e.1 e.2) value, readPos') ∧
      byteBuf.Ahead (pos + readPos') rest := by
  induction entries generalizing readPos value with
  | nil => exact ⟨readPos, rfl, h⟩
  | cons entry entries ih =>
    obtain ⟨hKey, hValue⟩ := hEntries entry List.mem_cons_self
    simp only [entriesBytes, List.flatMap_cons, List.cons_append, List.append_assoc] at h
    obtain ⟨size, hFirst, h⟩ := readLogString_ahead hAlloc hKey h
    rw [UInt64.add_assoc] at h
    obtain ⟨size', hSecond, h⟩ := readLogString_ahead hAlloc hValue h
    rw [UInt64.add_assoc] at h
    obtain ⟨readPos', hRead, hRest⟩ :=
      ih (fun e he => hEntries e (List.mem_cons_of_mem _ he)) (value.insert entry.1 entry.2) h
    refine ⟨readPos', ?_, hRest⟩
    rw [List.length_cons, readEntries, hFirst, ok_bind]
    dsimp only
    rw [hSecond, ok_bind]
    exact hRead

/-- A map on the wire, behind its tag. -/
def mapBytes (prolog : List UInt8) (mdc : MDC) : List UInt8 :=
  prolog ++ (hashTableData ++ (beBytes 4 mdc.entries.length ++
    (entriesBytes mdc.entries ++ [tcEndBlockData])))

theorem readObject_ahead {prolog : List UInt8} (hProlog : Prolog prolog) {mdc : MDC}
    (hSize : mdc.entries.length < 2 ^ 31)
    (hEntries : ∀ entry ∈ mdc.entries, entry.1.length < 65536 ∧ entry.2.length < 65536)
    {fuel : Nat} (hFuel : byteBuf.bytes.length < fuel)
    (h : byteBuf.Ahead pos (mapBytes prolog mdc ++ rest)) :
    Reads byteBuf pos (readObject env fuel byteBuf pos .empty true) mdc rest := by
  simp only [mapBytes, List.append_assoc] at h
  obtain ⟨value, size, hRead, h⟩ := hProlog.ahead env hFuel hashTableDesc h
  have hData := h.fetch (show (14 : UInt64).toNat = hashTableData.length from rfl)
  have h := h.skip (show (14 : UInt64).toNat = hashTableData.length from rfl)
  rw [← intChars_ofNat] at h
  obtain ⟨hInt, h⟩ := readInt_ahead h
  simp only [UInt64.add_assoc] at hData hInt h
  obtain ⟨readPos, hEntries, h⟩ := readEntries_ahead hAlloc hEntries .empty h
  obtain ⟨hEnd, h⟩ := readByte_ahead h
  refine ⟨readPos + 1, ?_, by rwa [← UInt64.add_assoc]⟩
  rw [readObject, readTypeClass_skip, ok_bind, hRead, ok_bind]
  dsimp only
  rw [UInt64.zero_add, hData, ok_bind, beq_self_eq_true, Env.assert_true, ok_bind, require_true,
    ok_bind, hInt, ok_bind]
  dsimp only
  rw [intToInt_ofNat hSize, Int.toNat_natCast, UInt64.add_assoc, hEntries, SortedMap.foldl_insert,
    ok_bind]
  dsimp only
  rw [hEnd]
  rfl

omit hAlloc in
/-- A size from `2 ^ 31` on is read as a negative one, so no entry is looked for. -/
theorem readObject_many {prolog : List UInt8} (hProlog : Prolog prolog) {mdc : MDC}
    (hMany : 2 ^ 31 ≤ mdc.entries.length) (hBits : mdc.entries.length < 2 ^ 32) {fuel : Nat}
    (hFuel : byteBuf.bytes.length < fuel) (h : byteBuf.Ahead pos (mapBytes prolog mdc ++ rest)) :
    readObject env fuel byteBuf pos .empty true = .error (.invalid .endBlockData) := by
  cases hEntries : mdc.entries with
  | nil =>
    rw [hEntries] at hMany
    cases hMany
  | cons entry entries =>
    simp only [mapBytes, List.append_assoc] at h
    obtain ⟨value, size, hRead, h⟩ := hProlog.ahead env hFuel hashTableDesc h
    have hData := h.fetch (show (14 : UInt64).toNat = hashTableData.length from rfl)
    have h := h.skip (show (14 : UInt64).toNat = hashTableData.length from rfl)
    rw [← intChars_ofNat] at h
    obtain ⟨hInt, h⟩ := readInt_ahead h
    rw [hEntries, entriesBytes, List.flatMap_cons, List.cons_append] at h
    obtain ⟨hEnd, -⟩ := readByte_ahead h
    simp only [UInt64.add_assoc] at hData hInt hEnd
    rw [readObject, readTypeClass_skip, ok_bind, hRead, ok_bind]
    dsimp only
    rw [UInt64.zero_add, hData, ok_bind, beq_self_eq_true, Env.assert_true, ok_bind, require_true,
      ok_bind, hInt, ok_bind]
    dsimp only
    rw [intToInt_ofNat_negative hMany hBits, readEntries]
    change (readByte byteBuf (pos + (size + 14 + 4)) >>= _) = _
    rw [UInt64.add_assoc, hEnd]
    rfl

/-- A location on the wire. -/
inductive LocationBytes : LogString → List UInt8 → Prop
  | absent : LocationBytes [] [tcNull]
  | present {prolog : List UInt8} (hProlog : Prolog prolog) {fullInfo : LogString}
      (hLength : fullInfo.length < 65536) (hNul : 0 ∉ fullInfo) :
      LocationBytes fullInfo (tcObject :: (prolog ++ tcString :: stringBytes fullInfo))

theorem readLocationInfo_cString {prolog : List UInt8} (hProlog : Prolog prolog)
    {fullInfo : LogString} (hLength : fullInfo.length < 65536) {fuel : Nat}
    (hFuel : byteBuf.bytes.length < fuel)
    (h : byteBuf.Ahead pos (tcObject :: (prolog ++ tcString :: (stringBytes fullInfo ++ rest)))) :
    Reads byteBuf pos (readLocationInfo env fuel byteBuf pos) (cString fullInfo) rest := by
  obtain ⟨hByte, h⟩ := readByte_ahead h
  obtain ⟨value, size, hRead, h⟩ := hProlog.ahead env hFuel locationInfoDesc h
  rw [UInt64.add_assoc] at h
  obtain ⟨size', hText, h⟩ := readUTFString_cString hAlloc hLength h
  refine ⟨1 + size + size', ?_, by rwa [← UInt64.add_assoc]⟩
  rw [readLocationInfo, hByte, ok_bind]
  dsimp only
  rw [if_neg (by decide), if_pos rfl, hRead, ok_bind]
  dsimp only
  rw [hText]
  rfl

theorem readLocationInfo_ahead {fullInfo : LogString} {bytes : List UInt8}
    (hBytes : LocationBytes fullInfo bytes) {fuel : Nat} (hFuel : byteBuf.bytes.length < fuel)
    (h : byteBuf.Ahead pos (bytes ++ rest)) :
    Reads byteBuf pos (readLocationInfo env fuel byteBuf pos) fullInfo rest := by
  cases hBytes with
  | absent =>
    obtain ⟨hByte, h⟩ := readByte_ahead h
    refine ⟨1, ?_, h⟩
    rw [readLocationInfo, hByte]
    rfl
  | present hProlog hLength hNul =>
    rw [List.cons_append, List.append_assoc, List.cons_append] at h
    have hRead := readLocationInfo_cString hAlloc hProlog hLength hFuel h
    rwa [cString_eq hNul] at hRead

/-- A map of diagnostic contexts on the wire. -/
inductive MDCBytes : MDC → List UInt8 → Prop
  | absent : MDCBytes .empty [tcNull]
  | present {prolog : List UInt8} (hProlog : Prolog prolog) {mdc : MDC}
      (hSize : mdc.entries.length < 2 ^ 31)
      (hEntries : ∀ entry ∈ mdc.entries, entry.1.length < 65536 ∧ entry.2.length < 65536) :
      MDCBytes mdc (tcObject :: mapBytes prolog mdc)

theorem readMDC_ahead {mdc : MDC} {bytes : List UInt8} (hBytes : MDCBytes mdc bytes) {fuel : Nat}
    (hFuel : byteBuf.bytes.length < fuel) (h : byteBuf.Ahead pos (bytes ++ rest)) :
    Reads byteBuf pos (readMDC env fuel byteBuf pos) mdc rest := by
  cases hBytes with
  | absent =>
    obtain ⟨hByte, h⟩ := readByte_ahead h
    refine ⟨1, ?_, h⟩
    rw [readMDC, hByte]
    rfl
  | present hProlog hSize hEntries =>
    obtain ⟨hByte, h⟩ := readByte_ahead h
    obtain ⟨size, hRead, h⟩ := readObject_ahead hAlloc hProlog hSize hEntries hFuel h
    refine ⟨1 + size, ?_, by rwa [← UInt64.add_assoc]⟩
    rw [readMDC, hByte, ok_bind]
    dsimp only
    rw [if_neg (by decide), if_pos rfl, hRead]
    rfl

/-- A nested diagnostic context on the wire. -/
inductive NDCBytes : LogString → List UInt8 → Prop
  | absent : NDCBytes [] [tcNull]
  | present {ndc : LogString} (hLength : ndc.length < 65536) :
      NDCBytes ndc (tcString :: stringBytes ndc)

theorem readNDC_ahead {ndc : LogString} {bytes : List UInt8} (hBytes : NDCBytes ndc bytes)
    (h : byteBuf.Ahead pos (bytes ++ rest)) :
    Reads byteBuf pos (readNDC env byteBuf pos) ndc rest := by
  cases hBytes with
  | absent =>
    obtain ⟨hByte, h⟩ := readByte_ahead h
    refine ⟨1, ?_, h⟩
    rw [readNDC, hByte]
    rfl
  | present hLength =>
    obtain ⟨hByte, h⟩ := readByte_ahead h
    obtain ⟨size, hRead, h⟩ := readString_skip_ahead hAlloc hLength h
    refine ⟨1 + size, ?_, by rwa [← UInt64.add_assoc]⟩
    rw [readNDC, hByte, ok_bind]
    dsimp only
    rw [if_neg (by decide), if_pos rfl, readLogString, hRead]
    rfl

theorem readBytes_ahead {value : List UInt8} {bytes : UInt64} (hBytes : bytes.toNat = value.length)
    (hSize : value.length ≤ 65536) (h : byteBuf.Ahead pos (value ++ rest)) :
    readBytes env byteBuf pos bytes = .ok (value, bytes) := by
  obtain ⟨_, hCheck, hCopy⟩ := bind_eq_ok.mp (h.fetch hBytes)
  rw [readBytes, hCheck, ok_bind, env.alloc_ok hAlloc (by omega), ok_bind, hCopy]
  rfl

omit hAlloc in
theorem readExpected_ahead {expected : UInt8} (what : Message)
    (h : byteBuf.Ahead pos (expected :: rest)) :
    readExpected expected what byteBuf pos = .ok (pos + 1) := by
  rw [readExpected, (readByte_ahead h).1, ok_bind]
  dsimp only
  rw [beq_self_eq_true]
  rfl

/-- A message on the wire. Some clients reset their handles in front of it. -/
structure MessageBytes (carried : Carried) where
  reset : Bool
  prolog : List UInt8
  millis : Int64
  location : List UInt8
  mdc : List UInt8
  ndc : List UInt8

variable {carried : Carried}

def MessageBytes.beforeMDC (message : MessageBytes carried) : List UInt8 :=
  (if message.reset then [tcReset] else []) ++ tcObject :: (message.prolog ++ ([0, 0] ++
    (longChars message.millis ++ (tcString :: stringBytes carried.logger ++ message.location))))

def MessageBytes.afterMDC (message : MessageBytes carried) : List UInt8 :=
  message.ndc ++ (tcString :: stringBytes carried.message ++
    (tcString :: stringBytes carried.threadName ++ ([tcNull, tcBlockData, 0x04] ++
      (intChars carried.level ++ [tcNull, tcEndBlockData]))))

def MessageBytes.bytes (message : MessageBytes carried) : List UInt8 :=
  message.beforeMDC ++ (message.mdc ++ message.afterMDC)

structure MessageBytes.WellFormed (message : MessageBytes carried) : Prop where
  prolog : Prolog message.prolog
  timeStamp : carried.timeStamp = message.millis * 1000
  logger : carried.logger.length < 65536
  location : LocationBytes carried.fullInfo message.location
  mdc : MDCBytes carried.mdc message.mdc
  ndc : NDCBytes carried.ndc message.ndc
  message : carried.message.length < 65536
  threadName : carried.threadName.length < 65536

omit hAlloc in
theorem readObjectTag_ahead {reset : Bool}
    (h : byteBuf.Ahead 0 ((if reset then [tcReset] else []) ++ tcObject :: rest)) :
    ∃ pos, readObjectTag byteBuf = .ok pos ∧ byteBuf.Ahead pos rest := by
  cases reset with
  | false =>
    obtain ⟨hByte, h⟩ := readByte_ahead h
    refine ⟨1, ?_, h⟩
    rw [readObjectTag, hByte, ok_bind]
    rfl
  | true =>
    obtain ⟨hReset, h⟩ := readByte_ahead h
    obtain ⟨hByte, h⟩ := readByte_ahead h
    refine ⟨1 + 1, ?_, h⟩
    rw [readObjectTag, hReset, ok_bind]
    dsimp only
    rw [hByte]
    rfl

theorem readHeader_ahead {millis : Int64} {logger : LogString} (hLogger : logger.length < 65536)
    (h : byteBuf.Ahead pos ([0, 0] ++ (longChars millis ++
      (tcString :: (stringBytes logger ++ rest))))) :
    ∃ pos', readHeader env byteBuf pos = .ok ((millis * 1000, logger), pos') ∧
      byteBuf.Ahead pos' rest := by
  have hFlags := readBytes_ahead hAlloc (show (2 : UInt64).toNat = _ from rfl) (by decide) h
  have h := h.skip (show (2 : UInt64).toNat = _ from rfl)
  obtain ⟨hLong, h⟩ := readLong_ahead h
  obtain ⟨size, hText, h⟩ := readLogString_ahead hAlloc hLogger h
  refine ⟨_, ?_, h⟩
  rw [readHeader, hFlags, ok_bind]
  dsimp only
  rw [beq_self_eq_true, Env.assert_true, ok_bind, require_true, ok_bind, hLong, ok_bind]
  dsimp only
  rw [hText]
  rfl

omit hAlloc in
theorem readTrailer_ahead {level : Int32}
    (h : byteBuf.Ahead pos ([tcNull, tcBlockData, 0x04] ++
      (intChars level ++ ([tcNull, tcEndBlockData] ++ rest)))) :
    ∃ pos', readTrailer byteBuf pos = .ok (level, pos') ∧ byteBuf.Ahead pos' rest := by
  have h1 := (readByte_ahead h).2
  have h2 := (readByte_ahead h1).2
  obtain ⟨hInt, h3⟩ := readInt_ahead (readByte_ahead h2).2
  have h4 := (readByte_ahead h3).2
  refine ⟨_, ?_, (readByte_ahead h4).2⟩
  rw [readTrailer, readExpected_ahead _ h, ok_bind, readExpected_ahead _ h1, ok_bind,
    readExpected_ahead _ h2, ok_bind, hInt, ok_bind]
  dsimp only
  rw [readExpected_ahead _ h3, ok_bind, readExpected_ahead _ h4]
  rfl

/-- The location of a message, wherever it stands, is read as the one that is carried. -/
def MessageBytes.Located (message : MessageBytes carried) (env : Env) (fuel : Nat)
    (byteBuf : ByteBuf) : Prop :=
  ∀ pos rest, byteBuf.Ahead pos (message.location ++ rest) →
    Reads byteBuf pos (readLocationInfo env fuel byteBuf pos) carried.fullInfo rest

theorem readBeforeMDC_located {message : MessageBytes carried} (hProlog : Prolog message.prolog)
    (hTime : carried.timeStamp = message.millis * 1000) (hLogger : carried.logger.length < 65536)
    {fuel : Nat} (hFuel : byteBuf.bytes.length < fuel) (hLocated : message.Located env fuel byteBuf)
    (h : byteBuf.Ahead 0 (message.beforeMDC ++ rest)) :
    ∃ pos', readBeforeMDC env fuel byteBuf =
        .ok (((carried.timeStamp, carried.logger), carried.fullInfo), pos') ∧
      byteBuf.Ahead pos' rest := by
  simp only [MessageBytes.beforeMDC, List.append_assoc, List.cons_append] at h
  obtain ⟨pos, hTag, h⟩ := readObjectTag_ahead h
  obtain ⟨_, size, hRead, h⟩ := hProlog.ahead env hFuel loggingEventDesc h
  obtain ⟨pos1, hHeader, h⟩ := readHeader_ahead hAlloc hLogger h
  obtain ⟨size2, hText, h⟩ := hLocated _ _ h
  refine ⟨_, ?_, h⟩
  rw [readBeforeMDC, readBeforeLocation, hTag, ok_bind, hRead, ok_bind]
  dsimp only
  rw [hHeader, ok_bind]
  dsimp only
  rw [hText, hTime]
  rfl

theorem readBeforeMDC_ahead {message : MessageBytes carried} (hProlog : Prolog message.prolog)
    (hTime : carried.timeStamp = message.millis * 1000) (hLogger : carried.logger.length < 65536)
    (hLocation : LocationBytes carried.fullInfo message.location) {fuel : Nat}
    (hFuel : byteBuf.bytes.length < fuel) (h : byteBuf.Ahead 0 (message.beforeMDC ++ rest)) :
    ∃ pos', readBeforeMDC env fuel byteBuf =
        .ok (((carried.timeStamp, carried.logger), carried.fullInfo), pos') ∧
      byteBuf.Ahead pos' rest :=
  readBeforeMDC_located hAlloc hProlog hTime hLogger hFuel
    (fun _ _ => readLocationInfo_ahead hAlloc hLocation hFuel) h

/-- What a well-formed message has but for its location. -/
structure MessageBytes.Framed (message : MessageBytes carried) : Prop where
  prolog : Prolog message.prolog
  timeStamp : carried.timeStamp = message.millis * 1000
  logger : carried.logger.length < 65536
  mdc : MDCBytes carried.mdc message.mdc
  ndc : NDCBytes carried.ndc message.ndc
  message : carried.message.length < 65536
  threadName : carried.threadName.length < 65536

/-- A message is read from the front of a buffer, whatever follows it. -/
theorem readMessage_located {message : MessageBytes carried} (hMessage : message.Framed)
    {fuel : Nat} (hFuel : byteBuf.bytes.length < fuel) (hLocated : message.Located env fuel byteBuf)
    (h : byteBuf.Ahead 0 (message.bytes ++ rest)) :
    ∃ pos', readMessage env fuel byteBuf = .ok (carried, pos') ∧ byteBuf.Ahead pos' rest := by
  simp only [MessageBytes.bytes, MessageBytes.afterMDC, List.append_assoc, List.cons_append] at h
  obtain ⟨pos, hBefore, h⟩ := readBeforeMDC_located hAlloc hMessage.prolog hMessage.timeStamp
    hMessage.logger hFuel hLocated h
  obtain ⟨size3, hMDC, h⟩ := readMDC_ahead hAlloc hMessage.mdc hFuel h
  obtain ⟨size4, hNDC, h⟩ := readNDC_ahead hAlloc hMessage.ndc h
  obtain ⟨size5, hText, h⟩ := readLogString_ahead hAlloc hMessage.message h
  obtain ⟨size6, hThread, h⟩ := readLogString_ahead hAlloc hMessage.threadName h
  obtain ⟨pos', hTrailer, h⟩ := readTrailer_ahead h
  refine ⟨pos', ?_, h⟩
  rw [readMessage, hBefore, ok_bind]
  dsimp only
  rw [hMDC, ok_bind]
  dsimp only
  rw [hNDC, ok_bind]
  dsimp only
  rw [hText, ok_bind]
  dsimp only
  rw [hThread, ok_bind]
  dsimp only
  rw [hTrailer]
  rfl

/-- A message whose location is read is taken from the front of a buffer, whatever follows it. -/
theorem createLoggingEvent_located {message : MessageBytes carried} (hMessage : message.Framed)
    (hLocated : message.Located env (byteBuf.bytes.length + 1) byteBuf)
    (hBytes : byteBuf.bytes = message.bytes ++ rest) :
    ∃ pos event, ∃ rest' : ByteBuf,
      readMessage env (byteBuf.bytes.length + 1) byteBuf = .ok (carried, pos) ∧
      carried.createLoggingEvent = .ok event ∧
      createLoggingEvent env byteBuf = (.ok event, rest') ∧ rest'.bytes = rest := by
  have h : byteBuf.Ahead 0 (message.bytes ++ rest) := hBytes ▸ Ahead.start byteBuf
  obtain ⟨pos, hRead, hAhead⟩ := readMessage_located hAlloc hMessage (Nat.lt_succ_self _) hLocated h
  obtain ⟨-, -, event, hEvent⟩ := (readMessage_reads _).value hRead
  refine ⟨pos, event, byteBuf.drop pos.toNat, hRead, hEvent, ?_, hAhead.2⟩
  rw [← hEvent]
  exact load_ok hRead hAhead.1

omit hAlloc in
theorem MessageBytes.WellFormed.framed {message : MessageBytes carried} (h : message.WellFormed) :
    message.Framed :=
  ⟨h.prolog, h.timeStamp, h.logger, h.mdc, h.ndc, h.message, h.threadName⟩

theorem MessageBytes.WellFormed.located {message : MessageBytes carried} (h : message.WellFormed)
    {fuel : Nat} (hFuel : byteBuf.bytes.length < fuel) : message.Located env fuel byteBuf :=
  fun _ _ => readLocationInfo_ahead hAlloc h.location hFuel

/-- `createLoggingEvent` takes a message from the front of a buffer and leaves what follows it. -/
theorem createLoggingEvent_ahead {message : MessageBytes carried} (hMessage : message.WellFormed)
    (hBytes : byteBuf.bytes = message.bytes ++ rest) :
    ∃ pos event, ∃ rest' : ByteBuf,
      readMessage env (byteBuf.bytes.length + 1) byteBuf = .ok (carried, pos) ∧
      carried.createLoggingEvent = .ok event ∧
      createLoggingEvent env byteBuf = (.ok event, rest') ∧ rest'.bytes = rest :=
  createLoggingEvent_located hAlloc hMessage.framed
    (hMessage.located hAlloc (Nat.lt_succ_self _)) hBytes

end

/-- `createLoggingEvent`, called until nothing is left, reads messages that carry the values listed
and returns their events. -/
inductive Decodes (env : Env) : ByteBuf → List Carried → Prop
  | done {byteBuf : ByteBuf} : byteBuf.bytes = [] → Decodes env byteBuf []
  | message {byteBuf rest : ByteBuf} {carried : Carried} {carrieds : List Carried} {pos : UInt64}
      {event : LoggingEvent} :
      readMessage env (byteBuf.bytes.length + 1) byteBuf = .ok (carried, pos) →
      carried.createLoggingEvent = .ok event → carried.Shown event →
      createLoggingEvent env byteBuf = (.ok event, rest) →
      Decodes env rest carrieds → Decodes env byteBuf (carried :: carrieds)

end LogSocket.Default
