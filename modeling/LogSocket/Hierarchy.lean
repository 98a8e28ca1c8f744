import LogSocket.Lib.Ancestors
import LogSocket.Lib.Loop
import LogSocket.Event

/-! The loggers of a repository, `Hierarchy`: each knows its parent, the nearest logger whose name is
in front of a dot of its own, or the root. A logger may be asked for before its ancestors are;
provision nodes remember who waits for them. Loggers are never removed while a server runs. -/

namespace LogSocket

open Lib

/-- A `LoggerPtr` of a repository: the root, or the one logger of a name. -/
inductive LoggerPtr
  | root
  | named (name : LogString)
  deriving DecidableEq, Repr

/-- The text `root` -/
def rootName : LogString := [0x72, 0x6F, 0x6F, 0x74]

/-- `logger->getName()` -/
def LoggerPtr.name : LoggerPtr → LogString
  | .root => rootName
  | .named name => name

/-- An `AppenderPtr` -/
abbrev AppenderPtr := Nat

/-- `Logger`, without the name that it is found by. -/
structure Logger where
  parent : LoggerPtr
  level : Option Level
  additive : Bool
  appenders : List AppenderPtr
  deriving DecidableEq

/-- `RootLogger`, whose level is never null. -/
structure RootLogger where
  level : Level
  appenders : List AppenderPtr
  deriving DecidableEq

/-- The order of bytes, and with it that of names. -/
local instance byteOrder : Std.IsPreorder UInt8 := inferInstance

abbrev ProvisionNodes := SortedMap LogString (List LogString)

structure Hierarchy where
  root : RootLogger
  loggers : SortedMap LogString Logger
  provisionNodes : ProvisionNodes
  deriving DecidableEq

namespace Hierarchy

def new : Hierarchy := ⟨⟨.debug, []⟩, .empty, .empty⟩

/-- A write to a field of a logger. -/
def modify (h : Hierarchy) (name : LogString) (f : Logger → Logger) : Hierarchy :=
  match h.loggers.find? name with
  | none => h
  | some logger => { h with loggers := h.loggers.insert name (f logger) }

def setParent (h : Hierarchy) (name : LogString) (parent : LoggerPtr) : Hierarchy :=
  h.modify name fun logger => { logger with parent }

/-- `length - 1`, where `length` is the size of a name as an `int`, as a `size_t`. -/
def lastPos (name : LogString) : UInt64 :=
  (Int32.ofNat name.length - 1).toInt64.toUInt64

/-- One turn of the loop of `updateParents`, for the dot at `i`: the logger in front of it is the
parent, or the name is put on the list of those that wait for it. -/
def updateParentsTurn (loggers : SortedMap LogString Logger) (name : LogString) :
    UInt64 × ProvisionNodes →
      Except Fail ((UInt64 × ProvisionNodes) ⊕ (Option LoggerPtr × ProvisionNodes))
  | (i, provisionNodes) =>
    if i = npos then pure (.inr (none, provisionNodes))
    else do
      let substr ← substr name 0 i
      match loggers.find? substr with
      | some _ => pure (.inr (some (.named substr), provisionNodes))
      | none =>
        let node := (provisionNodes.find? substr).getD []
        pure (.inl (findLastOf name 0x2E (i - 1), provisionNodes.insert substr (node ++ [name])))

/-- `updateParents`, with at most `turns` turns of its loop. -/
def updateParents (turns : Nat) (h : Hierarchy) (name : LogString) : Except Fail Hierarchy := do
  let (parent, provisionNodes) ← loop (updateParentsTurn h.loggers name) .hang turns
    (findLastOf name 0x2E (lastPos name), h.provisionNodes)
  pure { h.setParent name (parent.getD .root) with provisionNodes }

/-- The body of the loop of `updateChildren`: a child that points to a lower parent stays with it. -/
def updateChild (name : LogString) (h : Hierarchy) (child : LogString) : Hierarchy :=
  match h.loggers.find? child with
  | none => h
  | some logger =>
    if name.isPrefixOf logger.parent.name then h
    else (h.setParent name logger.parent).setParent child (.named name)

def updateChildren (h : Hierarchy) (node : List LogString) (name : LogString) : Hierarchy :=
  node.foldl (updateChild name) h

/-- `getLogger(name)`, with at most `turns` turns of the loop of `updateParents`. The parent of a new
logger is null until that sets it, and nothing looks at it before. -/
def getLoggerFor (turns : Nat) (h : Hierarchy) (name : LogString) : Except Fail Hierarchy :=
  match h.loggers.find? name with
  | some _ => pure h
  | none =>
    let h := { h with loggers := h.loggers.insert name ⟨.root, none, true, []⟩ }
    match h.provisionNodes.find? name with
    | none => h.updateParents turns name
    | some node =>
      let h := h.updateChildren node name
      { h with provisionNodes := h.provisionNodes.erase name }.updateParents turns name

/-- `getLogger(name)`. Where the loop ends it does so within a turn for each byte of the name. -/
def getLogger (h : Hierarchy) (name : LogString) : Except Fail Hierarchy :=
  h.getLoggerFor (name.length + 2) name

/-- `setLevel(level)`, which the root ignores where the level is null. -/
def setLevel (h : Hierarchy) (logger : LoggerPtr) (level : Option Level) : Hierarchy :=
  match logger with
  | .root => { h with root.level := level.getD h.root.level }
  | .named name => h.modify name fun logger => { logger with level }

/-- `setAdditivity(additive)`, which makes no difference for the root. -/
def setAdditivity (h : Hierarchy) (logger : LoggerPtr) (additive : Bool) : Hierarchy :=
  match logger with
  | .root => h
  | .named name => h.modify name fun logger => { logger with additive }

/-- `addAppender(newAppender)` of a list of appenders -/
def addTo (appenders : List AppenderPtr) (newAppender : AppenderPtr) : List AppenderPtr :=
  if newAppender ∈ appenders then appenders else appenders ++ [newAppender]

def addAppender (h : Hierarchy) (logger : LoggerPtr) (newAppender : AppenderPtr) : Hierarchy :=
  match logger with
  | .root => { h with root.appenders := addTo h.root.appenders newAppender }
  | .named name =>
    h.modify name fun logger => { logger with appenders := addTo logger.appenders newAppender }

/-- The loop of `getEffectiveLevel`. -/
def effectiveLevelFrom (h : Hierarchy) : Nat → LoggerPtr → Except Fail Level
  | 0, _ => throw .hang
  | _ + 1, .root => pure h.root.level
  | fuel + 1, .named name =>
    match h.loggers.find? name with
    | none => throw .fault
    | some logger =>
      match logger.level with
      | some level => pure level
      | none => h.effectiveLevelFrom fuel logger.parent

/-- `getEffectiveLevel()` of the logger of a name. The names of parents get shorter. -/
def getEffectiveLevel (h : Hierarchy) (name : LogString) : Except Fail Level :=
  h.effectiveLevelFrom (name.length + 2) (.named name)

/-- The loop of `callAppenders`: the appenders whose `doAppend` is called, in order. -/
def callAppendersFrom (h : Hierarchy) : Nat → LoggerPtr → Except Fail (List AppenderPtr)
  | 0, _ => throw .hang
  | _ + 1, .root => pure h.root.appenders
  | fuel + 1, .named name =>
    match h.loggers.find? name with
    | none => throw .fault
    | some logger =>
      if logger.additive then do
        pure (logger.appenders ++ (← h.callAppendersFrom fuel logger.parent))
      else pure logger.appenders

def callAppenders (h : Hierarchy) (name : LogString) : Except Fail (List AppenderPtr) :=
  h.callAppendersFrom (name.length + 2) (.named name)

/-- A call on a repository, or on a logger of it. -/
inductive Op
  | getLogger (name : LogString)
  | setLevel (logger : LoggerPtr) (level : Option Level)
  | setAdditivity (logger : LoggerPtr) (additive : Bool)
  | addAppender (logger : LoggerPtr) (newAppender : AppenderPtr)

def step (h : Hierarchy) : Op → Except Fail Hierarchy
  | .getLogger name => h.getLogger name
  | .setLevel logger level => pure (h.setLevel logger level)
  | .setAdditivity logger additive => pure (h.setAdditivity logger additive)
  | .addAppender logger newAppender => pure (h.addAppender logger newAppender)

def run (h : Hierarchy) (ops : List Op) : Except Fail Hierarchy := ops.foldlM step h

/-- The names that a call asks for. -/
def Op.asked : Op → List LogString
  | .getLogger name => [name]
  | .setLevel _ _ | .setAdditivity _ _ | .addAppender _ _ => []

end Hierarchy

end LogSocket
