import LogSocket.Event

/-! The log file of a server, a `DailyRollingFileAppender`. It writes to one file, and when the time
gives another name than the last one it renames the file to the last name and opens a new one. The
files of a disk are part of its state, and a moment says what the clock shows to it and what becomes
of its calls. -/

namespace LogSocket.Rolling

open Lib

/-- The order of bytes, and with it that of paths. -/
local instance byteOrder : Std.IsPreorder UInt8 := inferInstance

/-- The contents of the files, by their paths. -/
abbrev Disk := SortedMap LogString LogString

def Disk.contents (disk : Disk) (path : LogString) : LogString := (disk.find? path).getD []

structure Layout where
  format : LoggingEvent → LogString
  header : LogString
  footer : LogString

/-- What a configuration says, with the layout, and the name that `formatFileName` gives to a time in
microseconds since 1970. -/
structure Configuration where
  file : LogString
  append : Bool
  layout : Layout
  formatFileName : Nat → LogString

/-- What an operation meets: two readings of the clock, whether a rename and an open are done, whether
the directory was missing and could be made together with the file, and what the compressing process
leaves, if it could be started. -/
structure Moment where
  now : Nat
  later : Nat
  renames : Bool
  opens : Bool
  mkdirs : Bool
  compressed : Option LogString

/-- `File::getParent` -/
def getParent (path : LogString) : LogString :=
  ((path.reverse.dropWhile fun c => c ≠ 0x2F ∧ c ≠ 0x5C).drop 1).reverse

/-- Whether `setFile` comes to have the file open, at first or once its directory has been made. -/
def Moment.hasFile (m : Moment) (path : LogString) : Bool :=
  m.opens || (getParent path ≠ [] && m.mkdirs)

inductive Action
  | rename (source destination : LogString)
  | compress (source destination : LogString)
  deriving DecidableEq

/-- `Action::execute`: whether it was done and the files then, or an exception. -/
def Action.execute (m : Moment) (disk : Disk) : Action → Option (Bool × Disk)
  | .rename source destination =>
    match disk.find? source with
    | none => some (false, disk)
    | some contents =>
      if m.renames then some (true, (disk.erase source).insert destination contents)
      else some (false, disk)
  | .compress source destination =>
    match disk.find? source, m.compressed with
    | none, _ => some (false, disk)
    | some _, none => none
    | some _, some bytes => some (true, (disk.insert destination bytes).erase source)

/-- An action that need not be there. -/
def execute (m : Moment) (disk : Disk) : Option Action → Option (Bool × Disk)
  | none => some (true, disk)
  | some action => action.execute m disk

structure RolloverDescription where
  activeFileName : LogString
  append : Bool
  synchronous : Option Action
  asynchronous : Option Action

structure TimeBasedRollingPolicy where
  nextCheck : Nat
  lastFileName : LogString
  suffixLength : Nat
  deriving DecidableEq

namespace TimeBasedRollingPolicy

/-- The end of the second. -/
def checkAfter (n : Nat) : Nat := (n / 1000000 + 1) * 1000000

/-- The length of `.gz` or `.zip` at the end of a name. -/
def suffixLengthOf (name : LogString) : Nat :=
  if [0x2E, 0x67, 0x7A].isSuffixOf name then 3
  else if [0x2E, 0x7A, 0x69, 0x70].isSuffixOf name then 4
  else 0

/-- A name without its suffix. -/
def baseName (p : TimeBasedRollingPolicy) (name : LogString) : LogString :=
  if p.suffixLength ≤ name.length then name.take (name.length - p.suffixLength) else name

/-- `activateOptions`, and `initialize` a moment later. -/
def initializeAt (c : Configuration) (m : Moment) : TimeBasedRollingPolicy where
  nextCheck := checkAfter m.later
  lastFileName := c.formatFileName m.later
  suffixLength := suffixLengthOf (c.formatFileName m.now)

def rollover (c : Configuration) (p : TimeBasedRollingPolicy) (currentActiveFile : LogString)
    (n : Nat) : Option RolloverDescription × TimeBasedRollingPolicy :=
  let newFileName := c.formatFileName n
  let p' := { p with nextCheck := checkAfter n }
  if newFileName = p.lastFileName then (none, p')
  else
    let lastBaseName := p.baseName p.lastFileName
    let renames := currentActiveFile ≠ lastBaseName
    (some {
      activeFileName := if renames then currentActiveFile else p.baseName newFileName
      append := false
      synchronous := if renames then some (.rename currentActiveFile lastBaseName) else none
      asynchronous :=
        if p.suffixLength = 3 ∨ p.suffixLength = 4 then some (.compress lastBaseName p.lastFileName)
        else none }, { p' with lastFileName := newFileName })

def isTriggeringEvent (p : TimeBasedRollingPolicy) (now : Nat) : Bool := p.nextCheck < now

end TimeBasedRollingPolicy

/-- The appender, with the file on which its writer is open, and the disk. -/
structure Appender where
  fileName : LogString
  fileAppend : Bool
  writer : Option LogString
  closed : Bool
  policy : TimeBasedRollingPolicy
  disk : Disk

namespace Appender

def setDisk (s : Appender) (disk : Disk) : Appender := { s with disk }

def setPolicy (s : Appender) (policy : TimeBasedRollingPolicy) : Appender := { s with policy }

@[simp] theorem setDisk_disk (s : Appender) (disk : Disk) : (s.setDisk disk).disk = disk := rfl

@[simp] theorem setDisk_writer (s : Appender) (disk : Disk) :
    (s.setDisk disk).writer = s.writer := rfl

@[simp] theorem setPolicy_disk (s : Appender) (policy : TimeBasedRollingPolicy) :
    (s.setPolicy policy).disk = s.disk := rfl

@[simp] theorem setPolicy_writer (s : Appender) (policy : TimeBasedRollingPolicy) :
    (s.setPolicy policy).writer = s.writer := rfl

def write (s : Appender) (text : LogString) : Appender :=
  match s.writer with
  | none => s
  | some path => s.setDisk (s.disk.insert path (s.disk.contents path ++ text))

def closeWriter (c : Configuration) (s : Appender) : Appender :=
  match s.writer with
  | none => s
  | some _ => { s.write c.layout.footer with writer := none }

/-- `FileOutputStream::open`, which appends to a file or empties it. -/
def openStream (disk : Disk) (path : LogString) (append opens : Bool) : Option Disk :=
  if opens then some (disk.insert path (if append then disk.contents path else []))
  else none

/-- `FileAppender::setFile`, which an exception leaves where the file cannot be opened. -/
def setFile (c : Configuration) (m : Moment) (path : LogString) (append : Bool) (s : Appender) :
    Appender :=
  let s := s.closeWriter c
  match openStream s.disk path append (m.hasFile path) with
  | none => s
  | some disk =>
    { s with disk, writer := some path, fileName := path, fileAppend := append }.write
      c.layout.header

/-- `rollover` where the name of the active file stays. The exception of an action leaves the writer
closed. -/
def rolloverSame (c : Configuration) (m : Moment) (d : RolloverDescription) (s : Appender) :
    Appender :=
  let s := s.closeWriter c
  match (execute m s.disk d.synchronous).getD (false, s.disk) with
  | (true, disk) =>
    match execute m disk d.asynchronous with
    | none => s.setDisk disk
    | some (_, disk) => (s.setDisk disk).setFile c m d.activeFileName d.append
  | (false, disk) => (s.setDisk disk).setFile c m d.activeFileName true

/-- `rollover` where the active file has a new name. -/
def rolloverOther (c : Configuration) (m : Moment) (d : RolloverDescription) (s : Appender) :
    Appender :=
  match openStream s.disk d.activeFileName d.append m.opens with
  | none => s
  | some disk =>
    let s := { (s.setDisk disk).closeWriter c with
      fileName := d.activeFileName, writer := some d.activeFileName }
    match (execute m s.disk d.synchronous).getD (false, s.disk) with
    | (true, disk) =>
      match execute m disk d.asynchronous with
      | none => s.setDisk disk
      | some (_, disk) => (s.setDisk disk).write c.layout.header
    | (false, disk) => (s.setDisk disk).write c.layout.header

/-- `RollingFileAppenderSkeleton::rollover` -/
def rollover (c : Configuration) (m : Moment) (s : Appender) : Appender :=
  match s.policy.rollover c s.fileName m.later with
  | (none, policy) => s.setPolicy policy
  | (some d, policy) =>
    if d.activeFileName = s.fileName then (s.setPolicy policy).rolloverSame c m d
    else (s.setPolicy policy).rolloverOther c m d

/-- `RollingFileAppenderSkeleton::subAppend` -/
def subAppend (c : Configuration) (event : LoggingEvent) (m : Moment) (s : Appender) : Appender :=
  (if s.policy.isTriggeringEvent m.now then s.rollover c m else s).write (c.layout.format event)

/-- `WriterAppender::append` with `checkEntryConditions`. -/
def append (c : Configuration) (event : LoggingEvent) (m : Moment) (s : Appender) : Appender :=
  if s.closed ∨ s.writer = none then s else s.subAppend c event m

def close (c : Configuration) (s : Appender) : Appender :=
  if s.closed then s else { s with closed := true }.closeWriter c

/-- A new appender, with `activateOptions` of `RollingFileAppenderSkeleton` and of `FileAppender`. -/
def activateOptions (c : Configuration) (m : Moment) (disk : Disk) : Appender :=
  let policy := TimeBasedRollingPolicy.initializeAt c m
  let active := if c.file ≠ [] then c.file else policy.baseName policy.lastFileName
  let s : Appender := ⟨active, c.append, none, false, policy, disk⟩
  if active ≠ [] then s.setFile c m active c.append else s

end Appender

/-- What happens to the log of a server, whose process may end at any time and be started again. -/
inductive Op
  | append (event : LoggingEvent) (m : Moment)
  | close
  | restart (m : Moment)

def Op.event? : Op → Option LoggingEvent
  | .append event _ => some event
  | _ => none

/-- The file can be opened whenever it has to be, and the appender is not closed. -/
def Op.Opens (c : Configuration) : Op → Prop
  | .append _ m | .restart m => m.hasFile c.file = true
  | .close => False

/-- The clock does not go back after a time. -/
def Clock : Nat → List Op → Prop
  | _, [] => True
  | t, .append _ m :: ops | t, .restart m :: ops => t ≤ m.now ∧ m.now ≤ m.later ∧ Clock m.later ops
  | t, .close :: ops => Clock t ops

namespace Appender

def step (c : Configuration) (s : Appender) : Op → Appender
  | .append event m => s.append c event m
  | .close => s.close c
  | .restart m => activateOptions c m s.disk

def run (c : Configuration) (s : Appender) (ops : List Op) : Appender := ops.foldl (step c) s

end Appender

end LogSocket.Rolling
