import LogSocket.DefaultLoader

/-! The Python clients: what `ByteSocketHandler` and `DefaultSocketHandler` make of a `LogRecord`.
A `str` is, like a `LogString`, the list of the bytes that `encode()` gives. -/

namespace LogSocket

open Lib Default

/-- The fields of a `LogRecord` that the handlers send. Of the time `created`, a `float`, a record
has what the two handlers compute: `round(created * 1000)` and `round(created * 1000 * 1000)`. -/
structure LogRecord where
  name : LogString
  levelno : Int
  msg : LogString
  createdMillis : Int
  createdMicros : Int
  threadName : LogString
  pathname : LogString
  funcName : LogString
  lineno : Int
  deriving DecidableEq

/-- `struct.pack` with `!` of an unsigned integer of `width` bytes, which raises `struct.error` when
the value is out of range. -/
def packUnsigned (width : Nat) (value : Int) : Option (List UInt8) :=
  if 0 ≤ value ∧ value < 256 ^ width then some (beBytes width value.toNat) else none

/-- `struct.pack` with `!` of a signed integer of `width` bytes. -/
def packSigned (width : Nat) (value : Int) : Option (List UInt8) :=
  if -256 ^ width ≤ 2 * value ∧ 2 * value < 256 ^ width then
    some (beBytes width (value % 256 ^ width).toNat)
  else none

theorem packUnsigned_length {width n : Nat} (h : n < 256 ^ width) :
    packUnsigned width n = some (beBytes width n) := by
  rw [packUnsigned, if_pos ⟨Int.natCast_nonneg n, by exact_mod_cast h⟩, Int.toNat_natCast]

theorem packSigned_length {width n : Nat} (h : 2 * n < 256 ^ width) :
    packSigned width n = some (beBytes width n) := by
  have hBound : (2 * n : Int) < 256 ^ width := by exact_mod_cast h
  rw [packSigned, if_pos ⟨by omega, hBound⟩, Int.emod_eq_of_lt (by omega) (by omega),
    Int.toNat_natCast]

theorem packUnsigned_some {width : Nat} {value : Int} {bytes : List UInt8}
    (h : packUnsigned width value = some bytes) :
    0 ≤ value ∧ value < 256 ^ width ∧ bytes = beBytes width value.toNat := by
  rw [packUnsigned] at h
  split at h
  · rename_i hRange
    exact ⟨hRange.1, hRange.2, (Option.some.inj h).symm⟩
  · cases h

theorem packSigned_some {width : Nat} {value : Int} {bytes : List UInt8}
    (h : packSigned width value = some bytes) :
    -256 ^ width ≤ 2 * value ∧ 2 * value < 256 ^ width ∧
      bytes = beBytes width (value % 256 ^ width).toNat := by
  rw [packSigned] at h
  split at h
  · rename_i hRange
    exact ⟨hRange.1, hRange.2, (Option.some.inj h).symm⟩
  · cases h

theorem packUnsigned_int {value : Int} (hLow : 0 ≤ value) (hHigh : value < 2 ^ 32) :
    packUnsigned 4 value = some (intChars (Int32.ofInt value)) := by
  rw [packUnsigned, if_pos ⟨hLow, hHigh⟩, intChars_eq]
  rw [Int32.toInt_ofInt, Int32.size, Int.bmod_def]
  omega

theorem packSigned_int {value : Int} (hLow : -2 ^ 31 ≤ value) (hHigh : value < 2 ^ 31) :
    packSigned 4 value = some (intChars (Int32.ofInt value)) := by
  rw [packSigned, if_pos ⟨by omega, by omega⟩, intChars_eq]
  rw [Int32.toInt_ofInt, Int32.size, Int.bmod_def]
  omega

theorem packUnsigned_long {value : Int} (hLow : 0 ≤ value) (hHigh : value < 2 ^ 64) :
    packUnsigned 8 value = some (longChars (Int64.ofInt value)) := by
  rw [packUnsigned, if_pos ⟨hLow, hHigh⟩, longChars_eq]
  rw [Int64.toInt_ofInt, Int64.size, Int.bmod_def]
  omega

namespace ByteSocketHandler

/-- `"I %ds" % len(value)` -/
def packText (value : LogString) : Option (List UInt8) := do
  pure ((← packUnsigned 4 value.length) ++ value)

def makePickle (record : LogRecord) : Option (List UInt8) := do
  let name ← packText record.name
  let levelno ← packSigned 4 (record.levelno * 1000)
  let msg ← packText record.msg
  let created ← packUnsigned 8 record.createdMicros
  let threadName ← packText record.threadName
  let pathname ← packText record.pathname
  let funcName ← packText record.funcName
  let lineno ← packText (decimal record.lineno)
  pure (name ++ (levelno ++ (msg ++ (created ++ (threadName ++ (pathname ++ (funcName ++ lineno)))))))

end ByteSocketHandler

namespace DefaultSocketHandler

/-- `"h %ds" % len(value)`, behind a `TC_STRING`. -/
def packText (value : LogString) : Option (List UInt8) := do
  pure (tcString :: ((← packSigned 2 value.length) ++ value))

/-- `record.funcName + "(" + record.pathname + ":" + str(record.lineno) + ")"` -/
def fullInfo (record : LogRecord) : LogString :=
  record.funcName ++ [0x28] ++ record.pathname ++ [0x3A] ++ decimal record.lineno ++ [0x29]

/-- The tables `LOGGING_EVENT` and `LOCATION_INFO` have the bytes of the loader's descriptors. -/
def makePickle (record : LogRecord) : Option (List UInt8) := do
  let created ← packUnsigned 8 record.createdMillis
  let name ← packText record.name
  let fullInfo ← packText (fullInfo record)
  let msg ← packText record.msg
  let threadName ← packText record.threadName
  let levelno ← packUnsigned 4 (record.levelno * 1000)
  pure (tcObject :: (loggingEventDesc ++ ([0, 0] ++ (created ++ (name ++
    (tcObject :: (locationInfoDesc ++ (fullInfo ++ (tcNull :: tcNull :: (msg ++ (threadName ++
      (tcNull :: tcBlockData :: 0x04 :: (levelno ++ [tcNull, tcEndBlockData])))))))))))))

end DefaultSocketHandler

end LogSocket
