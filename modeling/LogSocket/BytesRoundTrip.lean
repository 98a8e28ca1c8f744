import LogSocket.BytesServer

/-! From `ByteSocketHandler` to `BytesLogRecordStreamHandler`: which fields of a record the Python
server has as the Python client had them. The client packs the level as a signed number and the
server unpacks an unsigned one. -/

namespace LogSocket

namespace BytesLogRecordStreamHandler

/-- What `createLogRecord` sets of a `LogRecord`; `args`, `exc_info` and `stack_info` are `None`. Of
the time this is, as in `Unpacked`, the number that is divided. -/
structure CreatedRecord where
  name : LogString
  levelno : Int
  pathname : LogString
  lineno : Int
  msg : LogString
  funcName : LogString
  threadName : LogString
  created : Nat
  deriving DecidableEq

def createLogRecord (unpacked : Unpacked) : CreatedRecord where
  name := unpacked.name
  levelno := unpacked.levelno
  pathname := unpacked.pathname
  lineno := unpacked.lineno
  msg := unpacked.msg
  funcName := unpacked.funcName
  threadName := unpacked.threadName
  created := unpacked.created

/-- The server's record is the client's. -/
structure Same (created : CreatedRecord) (record : LogRecord) : Prop where
  name : created.name = record.name
  levelno : created.levelno = record.levelno
  msg : created.msg = record.msg
  threadName : created.threadName = record.threadName
  pathname : created.pathname = record.pathname
  funcName : created.funcName = record.funcName
  lineno : created.lineno = record.lineno

/-- The records that `handle` builds of what is sent, where every call gives all that it asks for, are
those that were sent, in their order. -/
def Keeps (records : List LogRecord) (pickles : List (List UInt8)) : Prop :=
  ∃ built, Builds .whole (session pickles) built ∧ List.Forall₂ Same (built.map createLogRecord) records

variable {record : LogRecord} {records : List LogRecord} {pickle : List UInt8}
  {pickles : List (List UInt8)}

/-- A negative level comes back as a positive one. -/
theorem received_levelno (h : ByteSocketHandler.makePickle record = some pickle) :
    ((received record).levelno : Int) =
      if 0 ≤ record.levelno then record.levelno else 4294967 + record.levelno := by
  simp only [ByteSocketHandler.makePickle, Option.bind_eq_bind, Option.bind_eq_some_iff] at h
  obtain ⟨_, -, _, hLevel, -⟩ := h
  obtain ⟨hLow, hHigh, -⟩ := packSigned_some hLevel
  simp only [received]
  split
  · omega
  · omega

theorem same_received_iff (h : ByteSocketHandler.makePickle record = some pickle) :
    Same (createLogRecord (received record)) record ↔ 0 ≤ record.levelno := by
  have hLevel := received_levelno h
  constructor
  · intro hSame
    have hEq : ((received record).levelno : Int) = record.levelno := hSame.levelno
    omega
  · intro hNonneg
    rw [if_pos hNonneg] at hLevel
    exact ⟨rfl, hLevel, rfl, rfl, rfl, rfl, rfl⟩

theorem exists_pickle (h : records.mapM ByteSocketHandler.makePickle = some pickles) :
    ∀ record ∈ records, ∃ pickle, ByteSocketHandler.makePickle record = some pickle := by
  induction records generalizing pickles with
  | nil => simp
  | cons record records ih =>
    simp only [List.mapM_cons, Option.bind_eq_bind, Option.bind_eq_some_iff] at h
    obtain ⟨pickle, hPickle, pickles, hPickles, -⟩ := h
    exact List.forall_mem_cons.mpr ⟨⟨pickle, hPickle⟩, ih hPickles⟩

/-- The server has the records that the client had exactly if no level is negative. -/
theorem keeps_iff (hPickles : records.mapM ByteSocketHandler.makePickle = some pickles)
    (hText : ∀ record ∈ records, Encoded record) :
    Keeps records pickles ↔ ∀ record ∈ records, 0 ≤ record.levelno := by
  have hBuilds := builds_whole hPickles hText
  have hKeeps : Keeps records pickles ↔
      List.Forall₂ Same ((records.map received).map createLogRecord) records :=
    ⟨fun ⟨built, h, hSame⟩ => h.unique hBuilds ▸ hSame, fun hSame => ⟨_, hBuilds, hSame⟩⟩
  rw [hKeeps, List.map_map, List.forall₂_map_left_iff, List.forall₂_same]
  refine forall₂_congr fun record hRecord => ?_
  obtain ⟨pickle, hPickle⟩ := exists_pickle hPickles record hRecord
  exact same_received_iff hPickle

open ByteSocketHandler (sampleRecord pickleBytes)

theorem keeps_iff_sampleRecord :
    Keeps [sampleRecord] [pickleBytes sampleRecord] ↔ ∀ record ∈ [sampleRecord], 0 ≤ record.levelno :=
  keeps_iff sampleRecord_pickles sampleRecord_encoded

/-- A record with a level below `NOTSET`. -/
def finerRecord : LogRecord := { sampleRecord with levelno := -5 }

/-- The level -5 comes back as 4294962. -/
theorem not_keeps :
    ¬ ∀ (records : List LogRecord) (pickles : List (List UInt8)),
      records.mapM ByteSocketHandler.makePickle = some pickles →
        (∀ record ∈ records, Encoded record) → Keeps records pickles := by
  intro h
  have hPickles : [finerRecord].mapM ByteSocketHandler.makePickle =
      some [pickleBytes finerRecord] := by
    decide
  have hSample := sampleRecord_encoded sampleRecord (by simp)
  have hText : ∀ record ∈ [finerRecord], Encoded record :=
    List.forall_mem_singleton.mpr
      ⟨hSample.name, hSample.msg, hSample.threadName, hSample.pathname, hSample.funcName⟩
  obtain ⟨built, hBuilds, hSame⟩ := h _ _ hPickles hText
  rw [hBuilds.unique (builds_whole hPickles hText)] at hSame
  obtain ⟨hFirst, -⟩ := List.forall₂_cons.mp hSame
  have hLevel := hFirst.levelno
  revert hLevel
  decide

end BytesLogRecordStreamHandler

end LogSocket
