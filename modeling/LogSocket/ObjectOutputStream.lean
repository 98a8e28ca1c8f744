import LogSocket.DefaultInput

/-! The client's side of the Default protocol: log4cxx's `ObjectOutputStream`, which writes the
descriptor of a class at its first use and a handle from then on, and `LoggingEvent::write`. -/

namespace LogSocket

open Lib Default

/-- The stream, with the bytes written so far. -/
structure ObjectOutputStream where
  written : List UInt8
  objectHandle : UInt32
  classDescriptions : List (String × UInt32)

namespace ObjectOutputStream

def new : ObjectOutputStream := ⟨[0xAC, 0xED, 0x00, 0x05], 0x7E0000, []⟩

def writeBytes (os : ObjectOutputStream) (bytes : List UInt8) : ObjectOutputStream :=
  { os with written := os.written ++ bytes }

def writeByte (os : ObjectOutputStream) (val : UInt8) : ObjectOutputStream := os.writeBytes [val]

def writeNull (os : ObjectOutputStream) : ObjectOutputStream := os.writeByte tcNull

def writeInt (os : ObjectOutputStream) (val : Int32) : ObjectOutputStream :=
  os.writeBytes (intChars val)

def writeLong (os : ObjectOutputStream) (val : Int64) : ObjectOutputStream :=
  os.writeBytes (longChars val)

/-- `writeObject(const LogString&)` and `writeUTFString`, which write the same. -/
def writeString (os : ObjectOutputStream) (val : LogString) : ObjectOutputStream :=
  let os := { os with objectHandle := os.objectHandle + 1 }
  let os := os.writeByte tcString
  let os := os.writeBytes [charAt val.length 8, charAt val.length 0]
  os.writeBytes val

def writeProlog (os : ObjectOutputStream) (className : String) (classDescIncrement : UInt32)
    (classDesc : List UInt8) : ObjectOutputStream :=
  match os.classDescriptions.lookup className with
  | some handle =>
    let os := os.writeBytes [tcObject, tcReference, charAt handle.toNat 24, charAt handle.toNat 16,
      charAt handle.toNat 8, charAt handle.toNat 0]
    { os with objectHandle := os.objectHandle + 1 }
  | none =>
    let os := { os with classDescriptions := (className, os.objectHandle) :: os.classDescriptions }
    let os := os.writeByte tcObject
    let os := os.writeBytes classDesc
    { os with objectHandle := os.objectHandle + (classDescIncrement + 1) }

/-- `writeObject(const MDC::Map&)` -/
def writeMap (os : ObjectOutputStream) (val : MDC) : ObjectOutputStream :=
  let os := os.writeProlog "java.util.Hashtable" 1 hashTableDesc
  let os := os.writeBytes hashTableData
  let sz : Nat := val.entries.length
  let os := os.writeBytes [charAt sz 24, charAt sz 16, charAt sz 8, charAt sz 0]
  let os := val.entries.foldl (fun os entry => (os.writeString entry.1).writeString entry.2) os
  os.writeByte tcEndBlockData

end ObjectOutputStream

/-- `value.rfind("::", pos)` -/
def rfindColons (value : LogString) (pos : Nat) : Option Nat :=
  ((List.range (pos + 1)).filter fun i => [0x3A, 0x3A].isPrefixOf (value.drop i)).getLast?

/-- The location string of `LocationInfo::write`, in the form that Java gives to it. -/
def LocationInfo.fullInfo (info : LocationInfo) : LogString :=
  let fullInfo := info.methodName
  let fullInfo :=
    match fullInfo.idxOf? 0x28, fullInfo.idxOf? 0x20 with
    | some openParen, some space => if space < openParen then fullInfo.drop (space + 1) else fullInfo
    | _, _ => fullInfo
  let fullInfo :=
    match fullInfo.idxOf? 0x28 with
    | some openParen =>
      match rfindColons fullInfo openParen with
      | some classSep => fullInfo.take classSep ++ 0x2E :: fullInfo.drop (classSep + 2)
      | none => 0x2E :: fullInfo
    | none => fullInfo
  fullInfo ++ [0x28] ++ info.fileName ++ [0x3A] ++ decimal info.lineNumber.toInt ++ [0x29]

/-- An event on the client's side. A location is absent where it is the unavailable one. -/
structure ClientEvent where
  logger : LogString
  level : Int32
  message : LogString
  timeStamp : Int64
  threadName : LogString
  location : Option LocationInfo
  mdcCopy : Option MDC
  ndc : Option LogString

namespace ClientEvent

open ObjectOutputStream

/-- `LocationInfo::write` -/
def writeLocation (location : Option LocationInfo) (os : ObjectOutputStream) :
    ObjectOutputStream :=
  match location with
  | none => os.writeNull
  | some info =>
    (os.writeProlog "org.apache.log4j.spi.LocationInfo" 2 locationInfoDesc).writeString info.fullInfo

def writeMDC (mdcCopy : Option MDC) (os : ObjectOutputStream) : ObjectOutputStream :=
  match mdcCopy with
  | none => os.writeNull
  | some mdc => if mdc.entries = [] then os.writeNull else os.writeMap mdc

def writeNDC (ndc : Option LogString) (os : ObjectOutputStream) : ObjectOutputStream :=
  match ndc with
  | none => os.writeNull
  | some ndc => os.writeString ndc

/-- `LoggingEvent::write` -/
def write (event : ClientEvent) (os : ObjectOutputStream) : ObjectOutputStream :=
  let os := os.writeProlog "org.apache.log4j.spi.LoggingEvent" 8 loggingEventDesc
  let os := os.writeBytes [0, 0]
  let os := os.writeLong (event.timeStamp / 1000)
  let os := os.writeString event.logger
  let os := writeLocation event.location os
  let os := writeMDC event.mdcCopy os
  let os := writeNDC event.ndc os
  let os := os.writeString event.message
  let os := os.writeString event.threadName
  let os := os.writeNull
  let os := os.writeByte tcBlockData
  let os := os.writeByte 0x04
  let os := os.writeInt event.level
  let os := os.writeNull
  os.writeByte tcEndBlockData

/-- A connection: the stream that a client sends its events to, one after the other. -/
def session (events : List ClientEvent) : List UInt8 :=
  (events.foldl (fun os (event : ClientEvent) => event.write os) ObjectOutputStream.new).written

end ClientEvent

end LogSocket
