import Mathlib.Data.Rat.Init
import Mathlib.Tactic.Linarith
import LogSocket.BytesRecords
import LogSocket.DefaultRecords
import LogSocket.LocationText

/-! The same record sent by the two Python clients: the events that the server builds differ in the
method, which the loader of the Default protocol looks for behind a dot that `DefaultSocketHandler`
does not write. -/

namespace LogSocket

open Lib ByteBuf

/-- What both protocols have room for. -/
structure LogRecord.FitsBoth (record : LogRecord) : Prop where
  name : record.name.length ≤ 32767
  msg : record.msg.length ≤ 32767
  threadName : record.threadName.length ≤ 32767
  fullInfo : (DefaultSocketHandler.fullInfo record).length ≤ 32767
  pathname : 0 ∉ record.pathname ∧ 0x28 ∉ record.pathname
  funcName : 0 ∉ record.funcName
  level : 0 ≤ record.levelno * 1000 ∧ record.levelno * 1000 < 2 ^ 31

/-- The two integers of a record are roundings of one time. -/
def LogRecord.Rounded (record : LogRecord) : Prop :=
  ∃ created : ℚ, |record.createdMillis - created * 1000| ≤ 1 / 2 ∧
    |record.createdMicros - created * 1000 * 1000| ≤ 1 / 2

/-- Both handlers can send the time, and it is read with the same sign from both. -/
def LogRecord.TimeFits (record : LogRecord) : Prop :=
  0 ≤ record.createdMillis ∧ 0 ≤ record.createdMicros ∧ record.createdMicros < 2 ^ 64 ∧
    (record.createdMillis * 1000 < 2 ^ 63 ↔ record.createdMicros < 2 ^ 63)

/-- The event that the server builds from what the handler sends for a record. -/
def DefaultSocketHandler.Delivers (env : Env) (record : LogRecord) (event : LoggingEvent) : Prop :=
  ∃ byteBuf : ByteBuf, makePickle record = some byteBuf.bytes ∧
    (Default.createLoggingEvent env byteBuf).1 = .ok event

@[inherit_doc DefaultSocketHandler.Delivers]
def ByteSocketHandler.Delivers (env : Env) (record : LogRecord) (event : LoggingEvent) : Prop :=
  ∃ byteBuf : ByteBuf, makePickle record = some byteBuf.bytes ∧
    (Bytes.createLoggingEvent env byteBuf).1 = .ok event

/-- Two events that differ in less than a millisecond. -/
structure SameEvent (event event' : LoggingEvent) : Prop where
  logger : event.logger = event'.logger
  level : event.level = event'.level
  message : event.message = event'.message
  threadName : event.threadName = event'.threadName
  fileName : event.locationInfo.fileName = event'.locationInfo.fileName
  methodName : event.locationInfo.methodName = event'.locationInfo.methodName
  lineNumber : event.locationInfo.lineNumber = event'.locationInfo.lineNumber
  timeStamp : |event.timeStamp.toInt - event'.timeStamp.toInt| < 1000

/-- A record comes to the same event by both protocols. -/
def LogRecord.Agrees (env : Env) (record : LogRecord) : Prop :=
  ∃ event event', DefaultSocketHandler.Delivers env record event ∧
    ByteSocketHandler.Delivers env record event' ∧ SameEvent event event'

namespace DefaultSocketHandler

open Default

variable {record : LogRecord}

theorem fullInfo_eq (record : LogRecord) :
    fullInfo record = locationText record.funcName record.pathname (decimal record.lineno) := by
  simp [fullInfo, locationText]

theorem fullInfo_length (record : LogRecord) : (fullInfo record).length =
    record.funcName.length + record.pathname.length + (decimal record.lineno).length + 3 := by
  rw [fullInfo_eq, locationText_length]

theorem packsDefault (h : record.FitsBoth) : record.PacksDefault where
  name := h.name
  msg := h.msg
  threadName := h.threadName
  fullInfo := h.fullInfo
  nul := by
    have hZero : 0 ∉ decimal record.lineno := notMem_decimal (by decide) (.inl (by decide))
    simp [fullInfo, h.pathname.1, h.funcName, hZero]
  level := h.level

theorem message_length (h : record.FitsBoth) : (message record).bytes.length ≤ maxSize := by
  have hEvent : loggingEventDesc.length = 390 := by decide +kernel
  have hLocation : locationInfoDesc.length = 81 := by decide
  have hName := h.name
  have hMsg := h.msg
  have hThread := h.threadName
  have hInfo := h.fullInfo
  simp only [message, carried, MessageBytes.bytes, MessageBytes.beforeMDC, MessageBytes.afterMDC,
    stringBytes, List.length_append, List.length_cons, List.length_nil, beBytes_length, hEvent,
    hLocation, longChars, intChars, Bool.false_eq_true, if_false]
  unfold maxSize
  omega

/-- The event that is built, with the method that is found in the location. -/
theorem delivers_iff {env : Env} (hAlloc : 65536 ≤ env.allocLimit) (h : record.FitsBoth)
    {event : LoggingEvent} : Delivers env record event ↔
      (0 ≤ record.createdMillis ∧ record.createdMillis < 2 ^ 64) ∧
      ∃ method, getMethodName (fullInfo record) = .ok method ∧
        event = loggingEventEx record.name (Level.toLevel (Int32.ofInt (record.levelno * 1000)))
          record.msg (Int64.ofInt record.createdMillis * 1000) record.threadName record.pathname
          method (decimal record.lineno) := by
  have hSize : (fullInfo record).length ≤ maxSize := h.fullInfo.trans (by decide)
  have hText := hSize
  rw [fullInfo_eq] at hText
  obtain ⟨method, hMethod, -⟩ := getMethodName_extracted (fullInfo record)
  have hFile : getFileName (fullInfo record) = .ok record.pathname := by
    rw [fullInfo_eq]
    exact getFileName_locationText hText h.pathname.2
      (notMem_decimal (by decide) (.inr (by decide)))
  have hLine : getLineNumber (fullInfo record) = .ok (decimal record.lineno) := by
    rw [fullInfo_eq]
    exact getLineNumber_locationText hText (notMem_decimal (by decide) (.inr (by decide)))
  have hCreate : (carried record).createLoggingEvent =
      .ok (loggingEventEx record.name (Level.toLevel (Int32.ofInt (record.levelno * 1000)))
        record.msg (Int64.ofInt record.createdMillis * 1000) record.threadName record.pathname
        method (decimal record.lineno)) := by
    unfold Carried.createLoggingEvent createLoggingEvent
    rw [show (carried record).fullInfo = fullInfo record from rfl, hFile, hMethod, hLine]
    rfl
  have hEvents : ∀ byteBuf : ByteBuf, byteBuf.bytes = (message record).bytes →
      (Default.createLoggingEvent env byteBuf).1 = (carried record).createLoggingEvent := by
    intro byteBuf hBytes
    obtain ⟨_, event, _, -, hEvent, hCall, -⟩ := createLoggingEvent_ahead hAlloc
      (message_wellFormed (packsDefault h)) (hBytes.trans (List.append_nil _).symm)
    rw [hCall, hEvent]
  unfold Delivers
  rw [makePickle_eq (packsDefault h)]
  constructor
  · rintro ⟨byteBuf, hPickle, hEvent⟩
    split at hPickle
    next hTime =>
      rw [hEvents byteBuf (Option.some.inj hPickle).symm, hCreate] at hEvent
      exact ⟨hTime, method, hMethod, (Except.ok.inj hEvent).symm⟩
    next => cases hPickle
  · rintro ⟨hTime, method', hMethod', rfl⟩
    obtain rfl := Except.ok.inj (hMethod.symm.trans hMethod')
    exact ⟨⟨(message record).bytes, message_length h⟩, if_pos hTime,
      (hEvents _ rfl).trans hCreate⟩

end DefaultSocketHandler

namespace ByteSocketHandler

variable {record : LogRecord}

theorem packsBytes (h : record.FitsBoth)
    (hTime : 0 ≤ record.createdMicros ∧ record.createdMicros < 2 ^ 64) : record.PacksBytes := by
  have hLength := DefaultSocketHandler.fullInfo_length record
  have hInfo := h.fullInfo
  exact {
    name := Nat.lt_of_le_of_lt h.name (by decide)
    level := ⟨by have := h.level.1; omega, h.level.2⟩
    msg := Nat.lt_of_le_of_lt h.msg (by decide)
    created := hTime
    threadName := Nat.lt_of_le_of_lt h.threadName (by decide)
    pathname := ⟨by omega, h.pathname.1⟩
    funcName := ⟨by omega, h.funcName⟩
    lineno := by omega }

theorem pickleBytes_length (h : record.FitsBoth) : (pickleBytes record).length ≤ maxSize := by
  have hLength := DefaultSocketHandler.fullInfo_length record
  have hInfo := h.fullInfo
  have hName := h.name
  have hMsg := h.msg
  have hThread := h.threadName
  simp only [pickleBytes, Bytes.stringBytes, List.length_append, beBytes_length, longChars,
    intChars, List.length_cons, List.length_nil]
  unfold maxSize
  omega

theorem delivers_iff {env : Env} (hAlloc : 2 ^ 32 ≤ env.allocLimit) (h : record.FitsBoth)
    {event : LoggingEvent} : Delivers env record event ↔
      (0 ≤ record.createdMicros ∧ record.createdMicros < 2 ^ 64) ∧
        event = record.data.createLoggingEvent := by
  unfold Delivers
  by_cases hTime : 0 ≤ record.createdMicros ∧ record.createdMicros < 2 ^ 64
  · have hPacks := packsBytes h hTime
    have hEvents : ∀ byteBuf : ByteBuf, byteBuf.bytes = pickleBytes record →
        (Bytes.createLoggingEvent env byteBuf).1 = .ok record.data.createLoggingEvent := by
      intro byteBuf hBytes
      have hAhead : byteBuf.Ahead 0 (pickleBytes record ++ []) := by
        rw [List.append_nil]
        exact hBytes ▸ Ahead.start byteBuf
      obtain ⟨pos, hRead, hLeft⟩ := readData_ahead hAlloc hPacks hAhead
      exact congrArg Prod.fst (load_ok hRead hLeft.1)
    rw [makePickle_eq hPacks]
    constructor
    · rintro ⟨byteBuf, hPickle, hEvent⟩
      rw [hEvents byteBuf (Option.some.inj hPickle).symm] at hEvent
      exact ⟨hTime, (Except.ok.inj hEvent).symm⟩
    · rintro ⟨-, rfl⟩
      exact ⟨⟨pickleBytes record, pickleBytes_length h⟩, rfl, hEvents _ rfl⟩
  · refine ⟨?_, fun hRight => absurd hRight.1 hTime⟩
    rintro ⟨byteBuf, hPickle, -⟩
    have hNone : packUnsigned 8 record.createdMicros = none := by
      rw [packUnsigned, if_neg]
      omega
    rw [makePickle, hNone] at hPickle
    simp at hPickle

end ByteSocketHandler

/-- Two roundings of one time differ by less than a millisecond. -/
theorem LogRecord.Rounded.close {record : LogRecord} (h : record.Rounded) :
    -500 ≤ record.createdMillis * 1000 - record.createdMicros ∧
      record.createdMillis * 1000 - record.createdMicros ≤ 500 := by
  obtain ⟨created, hMillis, hMicros⟩ := h
  rw [abs_le] at hMillis hMicros
  have hLow : ((-501 : Int) : ℚ) < (record.createdMillis * 1000 - record.createdMicros : Int) := by
    push_cast
    linarith [hMillis.1, hMicros.2]
  have hHigh : ((record.createdMillis * 1000 - record.createdMicros : Int) : ℚ) < (501 : Int) := by
    push_cast
    linarith [hMillis.2, hMicros.1]
  have hLow := Int.cast_lt.mp hLow
  have hHigh := Int.cast_lt.mp hHigh
  omega

/-- The method is found behind the last dot of the function's name, and is the name only where it
stands for a method that was not found. -/
theorem getMethodName_fullInfo {record : LogRecord} (h : record.FitsBoth) {method : LogString}
    (hMethod : getMethodName (DefaultSocketHandler.fullInfo record) = .ok method) :
    cString method = cString record.funcName ↔ record.funcName = locationNA := by
  have hSize : (locationText record.funcName record.pathname (decimal record.lineno)).length ≤
      maxSize := by
    rw [← DefaultSocketHandler.fullInfo_eq]
    exact h.fullInfo.trans (by decide)
  have hLine : 0x28 ∉ decimal record.lineno := notMem_decimal (by decide) (.inl (by decide))
  rw [DefaultSocketHandler.fullInfo_eq] at hMethod
  rw [cString_eq h.funcName]
  by_cases hDot : 0x2E ∈ record.funcName
  · obtain ⟨className, name, hName, hNone⟩ := exists_last_dot hDot
    rw [getMethodName_of_dot hSize h.pathname.2 hLine hName hNone] at hMethod
    obtain rfl := Except.ok.inj hMethod
    have hNul : 0 ∉ name := fun h0 => h.funcName (by simp [hName, h0])
    rw [cString_eq hNul]
    constructor
    · intro hEq
      have hLength := congrArg List.length hName
      rw [← hEq, List.length_append, List.length_cons] at hLength
      omega
    · intro hEq
      exact absurd hDot (by rw [hEq]; decide)
  · rw [getMethodName_of_notMem hSize h.pathname.2 hLine hDot] at hMethod
    obtain rfl := Except.ok.inj hMethod
    exact ⟨fun hEq => hEq.symm, fun hEq => hEq.symm⟩

/-- Two times that are closer than a millisecond are read as such, unless one is read as negative
and the other is not. -/
theorem timeStamp_close {millis micros : Int} (hMillis : 0 ≤ millis)
    (hMicros : 0 ≤ micros ∧ micros < 2 ^ 64)
    (hClose : -500 ≤ millis * 1000 - micros ∧ millis * 1000 - micros ≤ 500) :
    |(Int64.ofInt millis * 1000).toInt - (Int64.ofInt micros).toInt| < 1000 ↔
      (millis * 1000 < 2 ^ 63 ↔ micros < 2 ^ 63) := by
  have hProduct : Int64.ofInt millis * 1000 = Int64.ofInt (millis * 1000) :=
    (Int64.ofInt_mul millis 1000).symm
  rw [hProduct, Int64.toInt_ofInt, Int64.toInt_ofInt, Int64.size, Int.bmod_def, Int.bmod_def,
    abs_lt]
  omega

/-- The two protocols agree on a record exactly when its function is named `?`, what stands for a
method that is not found, and its time has room in both. -/
theorem agrees_iff {env : Env} (hAlloc : 2 ^ 32 ≤ env.allocLimit) {record : LogRecord}
    (hFits : record.FitsBoth) (hRounded : record.Rounded) :
    record.Agrees env ↔ record.funcName = locationNA ∧ record.TimeFits := by
  have hClose := hRounded.close
  constructor
  · rintro ⟨event, event', hDefault, hBytes, hSame⟩
    rw [DefaultSocketHandler.delivers_iff (by omega) hFits] at hDefault
    obtain ⟨hMillis, method, hMethod, rfl⟩ := hDefault
    rw [ByteSocketHandler.delivers_iff hAlloc hFits] at hBytes
    obtain ⟨hMicros, rfl⟩ := hBytes
    exact ⟨(getMethodName_fullInfo hFits hMethod).mp hSame.methodName, hMillis.1, hMicros.1,
      hMicros.2, (timeStamp_close hMillis.1 hMicros hClose).mp hSame.timeStamp⟩
  · rintro ⟨hFunc, hMillis, hMicros, hBits, hSign⟩
    obtain ⟨method, hMethod, -⟩ := getMethodName_extracted (DefaultSocketHandler.fullInfo record)
    refine ⟨_, _, (DefaultSocketHandler.delivers_iff (by omega) hFits).mpr
      ⟨⟨hMillis, by omega⟩, method, hMethod, rfl⟩,
      (ByteSocketHandler.delivers_iff hAlloc hFits).mpr ⟨⟨hMicros, hBits⟩, rfl⟩, ?_⟩
    exact {
      logger := rfl
      level := rfl
      message := rfl
      threadName := rfl
      fileName := rfl
      methodName := (getMethodName_fullInfo hFits hMethod).mpr hFunc
      lineNumber := rfl
      timeStamp := (timeStamp_close hMillis ⟨hMicros, hBits⟩ hClose).mpr hSign }

theorem sampleRecord_fitsBoth : ByteSocketHandler.sampleRecord.FitsBoth :=
  ⟨by decide, by decide, by decide, by decide, by decide, by decide, by decide⟩

theorem sampleRecord_rounded : ByteSocketHandler.sampleRecord.Rounded := by
  refine ⟨1600000000.00025, ?_, ?_⟩ <;> rw [abs_le] <;>
    norm_num [ByteSocketHandler.sampleRecord]

theorem agrees_iff_sample : ByteSocketHandler.sampleRecord.Agrees .release ↔
    ByteSocketHandler.sampleRecord.funcName = locationNA ∧
      ByteSocketHandler.sampleRecord.TimeFits :=
  agrees_iff (by decide) sampleRecord_fitsBoth sampleRecord_rounded

/-- The two events of a record of the function `main` differ. -/
theorem not_agrees_main : ¬∀ (env : Env) (record : LogRecord), 2 ^ 32 ≤ env.allocLimit →
    record.FitsBoth → record.Rounded → record.Agrees env := by
  intro hAll
  obtain ⟨event, event', hDefault, hBytes, hSame⟩ :=
    hAll .release _ (by decide) sampleRecord_fitsBoth sampleRecord_rounded
  rw [DefaultSocketHandler.delivers_iff (by decide) sampleRecord_fitsBoth] at hDefault
  obtain ⟨-, method, hMethod, rfl⟩ := hDefault
  rw [ByteSocketHandler.delivers_iff (by decide) sampleRecord_fitsBoth] at hBytes
  obtain ⟨-, rfl⟩ := hBytes
  have hName := (getMethodName_fullInfo sampleRecord_fitsBoth hMethod).mp hSame.methodName
  revert hName
  decide

end LogSocket
