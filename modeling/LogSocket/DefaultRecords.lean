import LogSocket.BytesRecords
import LogSocket.ClassNames

/-! What `DefaultSocketHandler` sends for a record is read back by the loader of the Default protocol,
where it is sent at all: the handler packs the length of a text as a signed number of two bytes, the
loader reads an unsigned one. -/

namespace LogSocket

open Lib ByteBuf

/-- What the fields of the Default protocol have room for, in the handler and in the loader. -/
structure LogRecord.PacksDefault (record : LogRecord) : Prop where
  name : record.name.length ≤ 32767
  msg : record.msg.length ≤ 32767
  threadName : record.threadName.length ≤ 32767
  fullInfo : (DefaultSocketHandler.fullInfo record).length ≤ 32767
  nul : 0 ∉ DefaultSocketHandler.fullInfo record
  level : 0 ≤ record.levelno * 1000 ∧ record.levelno * 1000 < 2 ^ 31

/-- What the loader has room for. -/
structure LogRecord.ReadsDefault (record : LogRecord) : Prop where
  name : record.name.length ≤ 65535
  msg : record.msg.length ≤ 65535
  threadName : record.threadName.length ≤ 65535
  fullInfo : (DefaultSocketHandler.fullInfo record).length ≤ 65535
  nul : 0 ∉ DefaultSocketHandler.fullInfo record
  level : 0 ≤ record.levelno * 1000 ∧ record.levelno * 1000 < 2 ^ 31
  created : 0 ≤ record.createdMillis ∧ record.createdMillis * 1000 < 2 ^ 63

namespace DefaultSocketHandler

open Default

variable {record : LogRecord}

def carried (record : LogRecord) : Carried where
  logger := record.name
  level := Int32.ofInt (record.levelno * 1000)
  message := record.msg
  timeStamp := Int64.ofInt record.createdMillis * 1000
  threadName := record.threadName
  fullInfo := fullInfo record
  mdc := .empty
  ndc := []

def message (record : LogRecord) : MessageBytes (carried record) where
  reset := false
  prolog := loggingEventDesc
  millis := Int64.ofInt record.createdMillis
  location := tcObject :: (locationInfoDesc ++ tcString :: stringBytes (fullInfo record))
  mdc := [tcNull]
  ndc := [tcNull]

theorem packText_eq {value : LogString} (h : value.length ≤ 32767) :
    packText value = some (tcString :: stringBytes value) := by
  rw [packText, packSigned_length (by omega)]
  rfl

/-- A text that is packed has a length that is not negative as a `short`. -/
theorem packText_some {value : LogString} {bytes : List UInt8} (h : packText value = some bytes) :
    value.length ≤ 32767 := by
  simp only [packText, Option.bind_eq_bind, Option.bind_eq_some_iff] at h
  rcases h with ⟨length, hLength, -⟩
  have hRange := (packSigned_some hLength).2.1
  omega

theorem message_wellFormed (h : record.PacksDefault) : (message record).WellFormed where
  prolog := loggingEventDesc_prolog
  timeStamp := rfl
  logger := Nat.lt_of_le_of_lt h.name (by decide)
  location := .present locationInfoDesc_prolog (Nat.lt_of_le_of_lt h.fullInfo (by decide)) h.nul
  mdc := .absent
  ndc := .absent
  message := Nat.lt_of_le_of_lt h.msg (by decide)
  threadName := Nat.lt_of_le_of_lt h.threadName (by decide)

/-- A record is sent as a message when its time can be packed. -/
theorem makePickle_eq (h : record.PacksDefault) : makePickle record =
    if 0 ≤ record.createdMillis ∧ record.createdMillis < 2 ^ 64 then some (message record).bytes
    else none := by
  have hLevel := packUnsigned_int h.level.1 (by have := h.level.2; omega)
  rw [makePickle]
  split
  next hTime =>
    rw [packUnsigned_long hTime.1 hTime.2, packText_eq h.name, packText_eq h.fullInfo,
      packText_eq h.msg, packText_eq h.threadName, hLevel]
    simp [message, carried, MessageBytes.bytes, MessageBytes.beforeMDC, MessageBytes.afterMDC]
  next hTime =>
    have hNone : packUnsigned 8 record.createdMillis = none := by
      rw [packUnsigned, if_neg]
      omega
    rw [hNone]
    rfl

/-- Only short texts are sent, and what is sent is a message. -/
theorem makePickle_some {pickle : List UInt8} (h : makePickle record = some pickle) :
    (record.name.length ≤ 32767 ∧ record.msg.length ≤ 32767 ∧ record.threadName.length ≤ 32767 ∧
      (fullInfo record).length ≤ 32767) ∧ pickle = (message record).bytes := by
  simp only [makePickle, Option.bind_eq_bind, Option.bind_eq_some_iff] at h
  rcases h with ⟨_, hCreated, _, hName, _, hInfo, _, hMsg, _, hThread, _, hLevel, hAll⟩
  have hNameLe := packText_some hName
  have hInfoLe := packText_some hInfo
  have hMsgLe := packText_some hMsg
  have hThreadLe := packText_some hThread
  have hLevelRange := packUnsigned_some hLevel
  have hCreatedRange := packUnsigned_some hCreated
  rw [packText_eq hNameLe] at hName
  rw [packText_eq hInfoLe] at hInfo
  rw [packText_eq hMsgLe] at hMsg
  rw [packText_eq hThreadLe] at hThread
  rw [packUnsigned_int hLevelRange.1 (by omega)] at hLevel
  rw [packUnsigned_long hCreatedRange.1 (by omega)] at hCreated
  obtain rfl := Option.some.inj hName
  obtain rfl := Option.some.inj hInfo
  obtain rfl := Option.some.inj hMsg
  obtain rfl := Option.some.inj hThread
  obtain rfl := Option.some.inj hLevel
  obtain rfl := Option.some.inj hCreated
  refine ⟨⟨hNameLe, hMsgLe, hThreadLe, hInfoLe⟩, (Option.some.inj hAll).symm.trans ?_⟩
  simp [message, carried, MessageBytes.bytes, MessageBytes.beforeMDC, MessageBytes.afterMDC]

/-- What the loader reads of a record: the location ends at its first NUL. -/
def received (record : LogRecord) : Carried :=
  { carried record with fullInfo := cString (fullInfo record) }

/-- What is sent for a record is read, whatever the texts are. -/
theorem createLoggingEvent_pickle {env : Env} (hAlloc : 65536 ≤ env.allocLimit)
    {pickle rest : List UInt8} (hPickle : makePickle record = some pickle) {byteBuf : ByteBuf}
    (hBytes : byteBuf.bytes = pickle ++ rest) :
    ∃ event, ∃ rest' : ByteBuf, (received record).createLoggingEvent = .ok event ∧
      Default.createLoggingEvent env byteBuf = (.ok event, rest') ∧ rest'.bytes = rest := by
  obtain ⟨⟨hName, hMsg, hThread, hInfo⟩, rfl⟩ := makePickle_some hPickle
  let sent : MessageBytes (received record) :=
    ⟨(message record).reset, (message record).prolog, (message record).millis,
      (message record).location, (message record).mdc, (message record).ndc⟩
  have hFramed : sent.Framed := {
    prolog := loggingEventDesc_prolog
    timeStamp := rfl
    logger := Nat.lt_of_le_of_lt hName (by decide)
    mdc := .absent
    ndc := .absent
    message := Nat.lt_of_le_of_lt hMsg (by decide)
    threadName := Nat.lt_of_le_of_lt hThread (by decide) }
  have hLocated : sent.Located env (byteBuf.bytes.length + 1) byteBuf := by
    intro pos rest h
    refine readLocationInfo_cString hAlloc locationInfoDesc_prolog
      (Nat.lt_of_le_of_lt hInfo (by decide)) (Nat.lt_succ_self _) ?_
    simpa [sent, message] using h
  obtain ⟨_, event, rest', -, hEvent, hCall, hRest⟩ :=
    createLoggingEvent_located hAlloc hFramed hLocated hBytes
  exact ⟨event, rest', hEvent, hCall, hRest⟩

/-- A message carries what a record has. -/
structure Carries (carried : Carried) (record : LogRecord) : Prop where
  logger : carried.logger = record.name
  message : carried.message = record.msg
  threadName : carried.threadName = record.threadName
  level : carried.level.toInt = record.levelno * 1000
  fullInfo : carried.fullInfo = fullInfo record
  timeStamp : carried.timeStamp.toInt = record.createdMillis * 1000

/-- What is sent for a record is read back from the front of a buffer, whatever follows it. -/
def RoundTrips (env : Env) (record : LogRecord) : Prop :=
  ∃ pickle, makePickle record = some pickle ∧
    ∀ (rest : List UInt8) (byteBuf : ByteBuf), byteBuf.bytes = pickle ++ rest →
      ∃ carried pos event, ∃ rest' : ByteBuf,
        readMessage env (byteBuf.bytes.length + 1) byteBuf = .ok (carried, pos) ∧
        Carries carried record ∧ carried.createLoggingEvent = .ok event ∧ carried.Shown event ∧
        Default.createLoggingEvent env byteBuf = (.ok event, rest') ∧ rest'.bytes = rest

theorem carries (h : record.ReadsDefault) : Carries (carried record) record where
  logger := rfl
  message := rfl
  threadName := rfl
  level := by
    have hRange := h.level
    rw [carried, Int32.toInt_ofInt, Int32.size, Int.bmod_def]
    omega
  fullInfo := rfl
  timeStamp := by
    have hRange := h.created
    have hMillis : (Int64.ofInt record.createdMillis).toInt = record.createdMillis := by
      rw [Int64.toInt_ofInt, Int64.size, Int.bmod_def]
      omega
    rw [carried, Int64.toInt_mul, hMillis, show (1000 : Int64).toInt = 1000 from rfl, Int.bmod_def]
    omega

/-- A record is read back as it was exactly if no text of it is longer than 32767 bytes. -/
theorem roundTrips_iff {env : Env} (hAlloc : 65536 ≤ env.allocLimit) (h : record.ReadsDefault) :
    RoundTrips env record ↔
      record.name.length ≤ 32767 ∧ record.msg.length ≤ 32767 ∧ record.threadName.length ≤ 32767 ∧
        (fullInfo record).length ≤ 32767 := by
  constructor
  · rintro ⟨pickle, hPickle, -⟩
    exact (makePickle_some hPickle).1
  · rintro ⟨hName, hMsg, hThreadName, hInfo⟩
    have hPacks : record.PacksDefault := ⟨hName, hMsg, hThreadName, hInfo, h.nul, h.level⟩
    have hTime : 0 ≤ record.createdMillis ∧ record.createdMillis < 2 ^ 64 := by
      have hRange := h.created
      omega
    refine ⟨(message record).bytes, by rw [makePickle_eq hPacks, if_pos hTime], ?_⟩
    intro rest byteBuf hBytes
    rcases createLoggingEvent_ahead hAlloc (message_wellFormed hPacks) hBytes with
      ⟨pos, event, rest', hRead, hEvent, hCall, hRest⟩
    exact ⟨_, pos, event, rest', hRead, carries h, hEvent, Carried.shown hEvent, hCall, hRest⟩

open ByteSocketHandler (sampleRecord)

theorem sampleRecord_reads : sampleRecord.ReadsDefault :=
  ⟨by decide, by decide, by decide, by decide, by decide, by decide, by decide⟩

theorem roundTrips_iff_sampleRecord :
    RoundTrips .release sampleRecord ↔
      sampleRecord.name.length ≤ 32767 ∧ sampleRecord.msg.length ≤ 32767 ∧
        sampleRecord.threadName.length ≤ 32767 ∧ (fullInfo sampleRecord).length ≤ 32767 :=
  roundTrips_iff (by decide) sampleRecord_reads

/-- A record whose message has 32768 bytes. -/
def longRecord : LogRecord := { sampleRecord with msg := List.replicate 32768 0x61 }

theorem not_roundTrips :
    ¬∀ (env : Env) (record : LogRecord), 65536 ≤ env.allocLimit → record.ReadsDefault →
      RoundTrips env record := by
  intro hAll
  have hLength : longRecord.msg.length = 32768 := List.length_replicate
  have hReads : longRecord.ReadsDefault := { sampleRecord_reads with msg := by omega }
  rcases hAll .release longRecord (by decide) hReads with ⟨pickle, hPickle, -⟩
  have hMsg := (makePickle_some hPickle).1.2.1
  omega

end DefaultSocketHandler

end LogSocket
