import LogSocket.Loader

/-! The loader of the Msgpack protocol, a map whose entries are looked up by position. The unpacking
itself and the floating-point arithmetic of the time stamp are parameters. -/

namespace LogSocket

/-- `msgpack::object` -/
inductive Object
  | nil
  | boolean (value : Bool)
  | positiveInteger (u64 : UInt64)
  | negativeInteger (i64 : Int64)
  /-- The bits of a `double`. -/
  | float (f64 : UInt64)
  | str (bytes : List UInt8)
  | bin (bytes : List UInt8)
  | array (elements : List Object)
  | map (entries : List (Object × Object))
  | ext (type : UInt8) (bytes : List UInt8)
  /-- An `ext` whose size is `0xffffffff`, in memory that nothing was written to. -/
  | unwrittenExt

/-- A number that `as<float>()` rounds to a `float`. -/
inductive Number
  | unsigned (u64 : UInt64)
  | signed (i64 : Int64)
  | double (f64 : UInt64)
  deriving DecidableEq

/-- How `msgpack::unpack` ends. -/
inductive Unpacked
  | object (msg : Object) (readBytes : UInt64)
  | insufficientBytes
  | parseError

/-- The parts of the program that are not modelled. -/
structure Host where
  env : Env
  /-- `msgpack::unpack(data, len, readBytes)` -/
  unpack : List UInt8 → Unpacked
  /-- `static_cast<log4cxx_int64_t>(std::round(value * 1000 * 1000))`, with `value` as a `float`. -/
  microseconds : Number → Int64
  /-- `Logger::getLogger(name)->getEffectiveLevel()->toInt()`, where `getLogger` returns. In a run this
  is one answer a name: a logger that was found stays, and a call that does not return is the last. -/
  effectiveLevel : LogString → Option Int

namespace Msgpack

def start : List UInt8 := [0xAC, 0xED, 0x02, 0x05]

def readStart (env : Env) (byteBuf : ByteBuf) : Except Fail UInt64 := readFlag start env byteBuf

def isMap : Object → Bool
  | .map _ => true
  | _ => false

theorem assert_isMap (env : Env) (entries : List (Object × Object)) :
    env.assert (isMap (.map entries)) = .ok () := by
  simp [isMap, Env.assert]
  rfl

/-- `msg.via.map`, of a union whose other members are not maps. -/
def viaMap : Object → Except Fail (List (Object × Object))
  | .map entries => pure entries
  | _ => throw .fault

/-- `msgmap.ptr[i].val` -/
def value (msgmap : List (Object × Object)) (i : Nat) : Except Fail Object :=
  match msgmap[i]? with
  | some entry => pure entry.2
  | none => throw .fault

/-- `as<std::vector<char>>()` and `as<std::string>()`. A `type_error` ends in `catch (...)`. -/
def asString : Object → Except Fail LogString
  | .bin bytes => pure bytes
  | .str bytes => pure bytes
  | _ => throw (.invalid .data)

/-- `as<int>()` -/
def asInt : Object → Except Fail Int32
  | .positiveInteger u64 =>
    if 2147483647 < u64 then throw (.invalid .data) else pure u64.toUInt32.toInt32
  | .negativeInteger i64 =>
    if i64 < -2147483648 then throw (.invalid .data) else pure i64.toInt32
  | _ => throw (.invalid .data)

/-- `as<float>()` before the rounding. -/
def asFloat : Object → Except Fail Number
  | .float f64 => pure (.double f64)
  | .positiveInteger u64 => pure (.unsigned u64)
  | .negativeInteger i64 => pure (.signed i64)
  | _ => throw (.invalid .data)

def msgIndexName : Nat := 0
def msgIndexLevelno : Nat := 4
def msgIndexMsg : Nat := 1
def msgIndexCreated : Nat := 13
def msgIndexThreadName : Nat := 17
def msgIndexPathname : Nat := 5
def msgIndexFuncName : Nat := 12
def msgIndexLineno : Nat := 11

def readData (host : Host) (byteBuf : ByteBuf) : Except Fail (LoggingEventData × UInt64) :=
  match host.unpack byteBuf.bytes with
  | .insufficientBytes => throw (.small .insufficientBytes)
  | .parseError => throw (.invalid .parseError)
  | .object msg readBytes => do
    host.env.assert (isMap msg)
    let msgmap ← viaMap msg
    let loggerName ← asString (← value msgmap msgIndexName)
    let level ← asInt (← value msgmap msgIndexLevelno)
    let message ← asString (← value msgmap msgIndexMsg)
    let created ← asFloat (← value msgmap msgIndexCreated)
    let threadName ← asString (← value msgmap msgIndexThreadName)
    let pathName ← asString (← value msgmap msgIndexPathname)
    let funcName ← asString (← value msgmap msgIndexFuncName)
    let lineno ← asInt (← value msgmap msgIndexLineno)
    pure ({
      loggerName, message, threadName, pathName, funcName
      level := level * 1000
      timestamp := host.microseconds created
      lineNumber := decimal lineno.toInt }, readBytes)

def createLoggingEvent (host : Host) : LoggingEventFunc :=
  load host.env (readData host) fun data => pure data.createLoggingEvent

end Msgpack

end LogSocket
