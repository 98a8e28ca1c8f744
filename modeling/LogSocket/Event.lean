import Mathlib.Data.List.TakeWhile
import LogSocket.Lib.SortedMap
import LogSocket.Basic

/-! The event that a loader builds: `LoggingEventData` and the two `createLoggingEvent` functions of
`LoggingEventEx`, one that is given the location in three fields and one that takes it out of the
string `Class.method(file:line)` by searching for its delimiters. -/

namespace LogSocket

open Lib

/-- `MDC::Map` -/
abbrev MDC := SortedMap LogString LogString

inductive Level
  | all
  | trace
  | debug
  | info
  | warn
  | error
  | fatal
  | off
  deriving DecidableEq, Repr

def Level.toInt : Level → Int
  | .all => -2147483648
  | .trace => 5000
  | .debug => 10000
  | .info => 20000
  | .warn => 30000
  | .error => 40000
  | .fatal => 50000
  | .off => 2147483647

/-- `Level::toLevel(val)`: a value that names no level is read as `DEBUG`. -/
def Level.toLevel (val : Int32) : Level :=
  if val = -2147483648 then .all
  else if val = 10000 then .debug
  else if val = 5000 then .trace
  else if val = 20000 then .info
  else if val = 30000 then .warn
  else if val = 40000 then .error
  else if val = 50000 then .fatal
  else if val = 2147483647 then .off
  else .debug

/-- What a `const char*` shows of a string: the bytes before the first NUL. -/
def cString (value : LogString) : LogString := value.takeWhile (· ≠ 0)

structure LocationInfo where
  lineNumber : Int32
  fileName : LogString
  methodName : LogString
  deriving DecidableEq

/-- The members of `spi::LoggingEvent` that `LoggingEventEx` sets. -/
structure LoggingEvent where
  logger : LogString
  level : Level
  message : LogString
  timeStamp : Int64
  locationInfo : LocationInfo
  threadName : LogString
  deriving DecidableEq

structure LoggingEventData where
  loggerName : LogString
  level : Int32
  message : LogString
  timestamp : Int64
  threadName : LogString
  pathName : LogString
  funcName : LogString
  lineNumber : LogString
  deriving DecidableEq

/-- `std::string::npos` -/
def npos : UInt64 := 0xFFFFFFFFFFFFFFFF

def lastIndexOf (c : UInt8) : List UInt8 → Option Nat
  | [] => none
  | byte :: bytes =>
    match lastIndexOf c bytes with
    | some i => some (i + 1)
    | none => if byte = c then some 0 else none

/-- `value.find_last_of(c, pos)` -/
def findLastOf (value : LogString) (c : UInt8) (pos : UInt64) : UInt64 :=
  match lastIndexOf c (value.take (pos.toNat + 1)) with
  | some i => UInt64.ofNat i
  | none => npos

/-- `value.substr(pos, count)` -/
def substr (value : LogString) (pos count : UInt64) : Except Fail LogString :=
  if value.length < pos.toNat then throw .outOfRange
  else pure ((value.drop pos.toNat).take count.toNat)

/-- `LocationInfo::NA`, the text `?` -/
def locationNA : LogString := [0x3F]

def getClassName (fullInfo : LogString) : Except Fail LogString :=
  let iend := findLastOf fullInfo 0x28 npos
  if iend = npos then pure locationNA
  else
    let iend := findLastOf fullInfo 0x2E iend
    let ibegin := 0
    if iend = npos then pure locationNA
    else substr fullInfo ibegin (iend - ibegin)

def getMethodName (fullInfo : LogString) : Except Fail LogString :=
  let iend := findLastOf fullInfo 0x28 npos
  let ibegin := findLastOf fullInfo 0x2E iend
  if ibegin = npos then pure locationNA
  else substr fullInfo (ibegin + 1) (iend - (ibegin + 1))

def getFileName (fullInfo : LogString) : Except Fail LogString :=
  let iend := findLastOf fullInfo 0x3A npos
  if iend = npos then pure locationNA
  else
    let ibegin := findLastOf fullInfo 0x28 (iend - 1)
    substr fullInfo (ibegin + 1) (iend - (ibegin + 1))

def getLineNumber (fullInfo : LogString) : Except Fail LogString :=
  let iend := findLastOf fullInfo 0x29 npos
  let ibegin := findLastOf fullInfo 0x3A (iend - 1)
  if ibegin = npos then pure locationNA
  else substr fullInfo (ibegin + 1) (iend - (ibegin + 1))

def isSpace (c : UInt8) : Bool := c = 0x20 || 0x09 ≤ c && c ≤ 0x0D

def isDigit (c : UInt8) : Bool := 0x30 ≤ c && c ≤ 0x39

/-- The number that a list of decimal digits denotes. -/
def digits (value : LogString) : Nat := value.foldl (fun n c => 10 * n + (c.toNat - 0x30)) 0

/-- `std::atoi`: the leading white space is skipped, the digits after an optional sign are read as a
`long`, at most the largest one, and the low 32 bits are kept. -/
def atoi (value : LogString) : Int32 :=
  match (cString value).dropWhile isSpace with
  | 0x2D :: rest => Int32.ofInt (max (-(digits (rest.takeWhile isDigit) : Int)) (-(2 ^ 63)))
  | 0x2B :: rest => Int32.ofInt (min (digits (rest.takeWhile isDigit)) (2 ^ 63 - 1))
  | rest => Int32.ofInt (min (digits (rest.takeWhile isDigit)) (2 ^ 63 - 1))

/-- `std::to_string` -/
def decimal (value : Int) : LogString :=
  let text := (Nat.toDigits 10 value.natAbs).map fun c => UInt8.ofNat c.toNat
  if value < 0 then 0x2D :: text else text

/-- The constructor of `LoggingEventEx` that is given the location. -/
def loggingEventEx (logger : LogString) (level : Level) (message : LogString) (timeStamp : Int64)
    (threadName filePathName methodName lineNumber : LogString) : LoggingEvent where
  logger := logger
  level := level
  message := message
  timeStamp := timeStamp
  threadName := threadName
  locationInfo := {
    lineNumber := atoi lineNumber
    fileName := cString filePathName
    methodName := cString methodName }

/-- `createLoggingEvent(data)` -/
def LoggingEventData.createLoggingEvent (data : LoggingEventData) : LoggingEvent :=
  loggingEventEx data.loggerName (Level.toLevel data.level) data.message data.timestamp
    data.threadName data.pathName data.funcName data.lineNumber

/-- `createLoggingEvent(logger, level, message, timeStamp, threadName, fullInfo)` -/
def createLoggingEvent (logger : LogString) (level : Level) (message : LogString)
    (timeStamp : Int64) (threadName fullInfo : LogString) : Except Fail LoggingEvent := do
  let filePathName ← getFileName fullInfo
  let methodName ← getMethodName fullInfo
  let lineNumber ← getLineNumber fullInfo
  pure (loggingEventEx logger level message timeStamp threadName filePathName methodName lineNumber)

/-- An event that is built has what the call was given. -/
theorem createLoggingEvent_given {logger : LogString} {level : Level} {message : LogString}
    {timeStamp : Int64} {threadName fullInfo : LogString} {event : LoggingEvent}
    (h : createLoggingEvent logger level message timeStamp threadName fullInfo = .ok event) :
    event.logger = logger ∧ event.level = level ∧ event.message = message ∧
      event.timeStamp = timeStamp := by
  obtain ⟨_, -, h⟩ := bind_eq_ok.mp h
  obtain ⟨_, -, h⟩ := bind_eq_ok.mp h
  obtain ⟨_, -, h⟩ := bind_eq_ok.mp h
  obtain rfl := Except.ok.inj h
  exact ⟨rfl, rfl, rfl, rfl⟩

/-- A string without a NUL is shown as it is. -/
theorem cString_eq {value : LogString} (h : 0 ∉ value) : cString value = value := by
  refine List.takeWhile_eq_self_iff.mpr fun byte hByte => decide_eq_true fun h0 => h ?_
  rwa [h0] at hByte

/-- The digits of a number are decimal ones. -/
theorem mem_toDigits {n : Nat} {byte : UInt8}
    (h : byte ∈ (Nat.toDigits 10 n).map fun c => UInt8.ofNat c.toNat) :
    0x30 ≤ byte.toNat ∧ byte.toNat ≤ 0x39 := by
  obtain ⟨c, hc, rfl⟩ := List.mem_map.mp h
  obtain ⟨hLow, hHigh⟩ :=
    Char.isDigit_iff_toNat.mp (Nat.isDigit_of_mem_toDigits (by decide) (by decide) hc)
  rw [show '0'.toNat = 0x30 from rfl] at hLow
  rw [show '9'.toNat = 0x39 from rfl] at hHigh
  rw [UInt8.toNat_ofNat']
  omega

/-- The text of a number has digits and at most a sign. -/
theorem mem_decimal {value : Int} {byte : UInt8} (h : byte ∈ decimal value) :
    byte = 0x2D ∨ 0x30 ≤ byte.toNat ∧ byte.toNat ≤ 0x39 := by
  rw [decimal] at h
  split at h
  · obtain rfl | h := List.mem_cons.mp h
    · exact .inl rfl
    · exact .inr (mem_toDigits h)
  · exact .inr (mem_toDigits h)

theorem notMem_decimal {value : Int} {byte : UInt8} (hSign : byte ≠ 0x2D)
    (hDigit : byte.toNat < 0x30 ∨ 0x39 < byte.toNat) : byte ∉ decimal value := by
  intro h
  obtain h | h := mem_decimal h
  · exact hSign h
  · omega

theorem lastIndexOf_lt {c : UInt8} {value : LogString} {i : Nat} (h : lastIndexOf c value = some i) :
    i < value.length := by
  induction value generalizing i with
  | nil => cases h
  | cons byte bytes ih =>
    rw [lastIndexOf] at h
    split at h
    next j hj =>
      obtain rfl := Option.some.inj h
      rw [List.length_cons]
      exact Nat.succ_lt_succ (ih hj)
    next =>
      split at h
      · obtain rfl := Option.some.inj h
        exact Nat.succ_pos _
      · cases h

/-- The last of several occurrences is the one that nothing equal follows. -/
theorem lastIndexOf_append {c : UInt8} (left : LogString) {right : LogString} (h : c ∉ right) :
    lastIndexOf c (left ++ c :: right) = some left.length := by
  have hRight : lastIndexOf c right = none := by
    induction right with
    | nil => rfl
    | cons byte bytes ih =>
      rw [List.mem_cons, not_or] at h
      rw [lastIndexOf, ih h.2]
      exact if_neg (Ne.symm h.1)
  induction left with
  | nil => rw [List.nil_append, lastIndexOf, hRight]; exact if_pos rfl
  | cons byte bytes ih => rw [List.cons_append, lastIndexOf, ih]; rfl

theorem lastIndexOf_eq_none {c : UInt8} {value : LogString} (h : c ∉ value) :
    lastIndexOf c value = none := by
  induction value with
  | nil => rfl
  | cons byte bytes ih =>
    rw [List.mem_cons, not_or] at h
    rw [lastIndexOf, ih h.2]
    exact if_neg (Ne.symm h.1)

/-- A position that `find_last_of` returns is one of the string, unless it is `npos`; either way the
next one is not past the end, since `npos + 1` wraps to 0. -/
theorem findLastOf_add_one (value : LogString) (c : UInt8) (pos : UInt64) :
    (findLastOf value c pos + 1).toNat ≤ value.length := by
  rw [findLastOf]
  split
  next i hi =>
    have hLt := lastIndexOf_lt hi
    rw [List.length_take] at hLt
    rw [UInt64.toNat_add, UInt64.toNat_ofNat', UInt64.toNat_one]
    omega
  next => exact Nat.zero_le _

theorem substr_eq {value : LogString} {pos count : UInt64} (h : pos.toNat ≤ value.length) :
    substr value pos count = .ok ((value.drop pos.toNat).take count.toNat) :=
  if_neg (Nat.not_lt.mpr h)

/-- What `substr` takes from a start that is not past the end. -/
def Part (value text : LogString) : Prop :=
  ∃ start count : UInt64, start.toNat ≤ value.length ∧
    text = (value.drop start.toNat).take count.toNat

/-- The text that is taken out of a string, or the one that stands for a text that is not found. -/
def Extracted (fullInfo : LogString) (result : Except Fail LogString) : Prop :=
  ∃ text, result = .ok text ∧ (text = locationNA ∨ Part fullInfo text)

section

variable {fullInfo : LogString}

theorem Extracted.na : Extracted fullInfo (pure locationNA) := ⟨_, rfl, .inl rfl⟩

theorem Extracted.substr {start : UInt64} (h : start.toNat ≤ fullInfo.length) (count : UInt64) :
    Extracted fullInfo (substr fullInfo start count) :=
  ⟨_, substr_eq h, .inr ⟨start, count, h, rfl⟩⟩

variable (fullInfo)

theorem getClassName_extracted : Extracted fullInfo (getClassName fullInfo) := by
  unfold getClassName
  dsimp only
  split
  · exact .na
  split
  · exact .na
  · exact .substr (Nat.zero_le _) _

theorem getMethodName_extracted : Extracted fullInfo (getMethodName fullInfo) := by
  unfold getMethodName
  dsimp only
  split
  · exact .na
  · exact .substr (findLastOf_add_one _ _ _) _

theorem getFileName_extracted : Extracted fullInfo (getFileName fullInfo) := by
  unfold getFileName
  dsimp only
  split
  · exact .na
  · exact .substr (findLastOf_add_one _ _ _) _

theorem getLineNumber_extracted : Extracted fullInfo (getLineNumber fullInfo) := by
  unfold getLineNumber
  dsimp only
  split
  · exact .na
  · exact .substr (findLastOf_add_one _ _ _) _

/-- An event is built from every location string. -/
theorem createLoggingEvent_ok (logger : LogString) (level : Level) (message : LogString)
    (timeStamp : Int64) (threadName : LogString) :
    ∃ event, createLoggingEvent logger level message timeStamp threadName fullInfo = .ok event := by
  obtain ⟨fileName, hFile, -⟩ := getFileName_extracted fullInfo
  obtain ⟨methodName, hMethod, -⟩ := getMethodName_extracted fullInfo
  obtain ⟨lineNumber, hLine, -⟩ := getLineNumber_extracted fullInfo
  refine ⟨loggingEventEx logger level message timeStamp threadName fileName methodName lineNumber,
    ?_⟩
  rw [createLoggingEvent, hFile, hMethod, hLine]
  rfl

end

end LogSocket
