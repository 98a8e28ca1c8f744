import LogSocket.Lib.Transducer
import LogSocket.PickleServer
import LogSocket.MsgpackSessions

/-! The Python server for the Msgpack protocol, `MsgpackLogRecordStreamHandler`. The start flag is read
by a single call, but what comes after it goes through an `Unpacker`, which keeps what is not complete
yet. So the cuts in a stream matter only inside of the flag. -/

namespace LogSocket

open Lib

namespace MsgpackLogRecordStreamHandler

/-- What may be raised while a record is read, built and handled. -/
inductive Raised
  | unpackError
  | typeError
  | keyError (key : String)
  | other
  deriving DecidableEq

/-- What a call raises. -/
def raises {β : Type} : Except Raised β → Option Raised
  | .error e => some e
  | .ok _ => none

theorem eq_error_of_raises {β : Type} {r : Except Raised β} {e : Raised} (h : raises r = some e) :
    r = .error e := by
  cases r with
  | error e' => exact congrArg _ (Option.some.inj h)
  | ok _ => cases h

/-- A `LogRecord` and the attributes that are set afterwards. -/
structure Record (ρ : Type) where
  base : ρ
  attributes : List (String × Object)

/-- What the handler uses of Python's libraries: `Unpacker`, by what it finds at the front of the bytes
that it has, `LogRecord` with its attribute `name`, and `Logger.handle` of the root logger or one with a
name. -/
structure Libraries (ρ : Type) where
  unpacker : Unit → List UInt8 → Step Unit Object Raised
  logRecord : List Object → Except Raised ρ
  name : ρ → Object
  handle : Option LogString → Record ρ → Except Raised Unit
  /-- `self.server.logname` -/
  logname : Option Object

def hasKey (key : String) : Object × Object → Bool
  | (.str bytes, _) => bytes == key.toUTF8.toList
  | _ => false

/-- `unpacked[key]`. Of two entries with one key a `dict` has the second. -/
def item (unpacked : Object) (key : String) : Except Raised Object :=
  match unpacked with
  | .map entries =>
    match entries.reverse.find? (hasKey key) with
    | some entry => pure entry.2
    | none => throw (.keyError key)
  | _ => throw .typeError

/-- The arguments of `LogRecord` -/
def given : List String :=
  ["name", "levelno", "pathname", "lineno", "msg", "args", "exc_info", "funcName", "stack_info"]

/-- The attributes that are set -/
def assigned : List String :=
  ["process", "processName", "thread", "threadName", "exc_text", "levelname", "filename", "module",
    "created", "msecs", "relativeCreated"]

/-- `logRecord.key = unpacked["key"]`, with the name of the attribute. -/
def assign (unpacked : Object) (key : String) : Except Raised (String × Object) := do
  pure (key, ← item unpacked key)

variable {ρ : Type}

def createLogRecord (py : Libraries ρ) (unpacked : Object) : Except Raised (Record ρ) := do
  let values ← given.mapM (item unpacked)
  let base ← py.logRecord values
  let attributes ← assigned.mapM (assign unpacked)
  pure ⟨base, attributes⟩

/-- `bool(value)` -/
def truth : Object → Bool
  | .nil => false
  | .boolean value => value
  | .positiveInteger u64 => u64 ≠ 0
  | .negativeInteger i64 => i64 ≠ 0
  | .float f64 => f64 ≠ 0 ∧ f64 ≠ 0x8000000000000000
  | .str bytes | .bin bytes => bytes ≠ []
  | .array elements => elements.length ≠ 0
  | .map entries => entries.length ≠ 0
  | .ext _ _ | .unwrittenExt => true

/-- `logging.getLogger(name)`, of a true name that must be a `str`. -/
def getLogger (name : Object) : Except Raised (Option LogString) :=
  if truth name then
    match name with
    | .str bytes => pure (some bytes)
    | _ => throw .typeError
  else pure none

def handleLogRecord (py : Libraries ρ) (record : Record ρ) : Except Raised Unit := do
  let logger ← getLogger (py.logname.getD (py.name record.base))
  py.handle logger record

/-- What is done with an object. -/
def handleUnpacked (py : Libraries ρ) (unpacked : Object) : Except Raised (Record ρ) := do
  let record ← createLogRecord py unpacked
  handleLogRecord py record
  pure record

/-- `for unpacked in unpacker`, for at most `fuel` objects: the records that are handled, and the bytes
that are left or what is raised. -/
def iterate (py : Libraries ρ) : Nat → List UInt8 → List (Record ρ) × (List UInt8 ⊕ Status Raised)
  | 0, _ => ([], .inr .running)
  | fuel + 1, fed =>
    match py.unpacker () fed with
    | .more => ([], .inl fed)
    | .stop e => ([], .inr (.raised e))
    | .take n none _ => iterate py fuel (fed.drop n)
    | .take n (some unpacked) _ =>
      match handleUnpacked py unpacked with
      | .error e => ([], .inr (.raised e))
      | .ok record =>
        let (records, rest) := iterate py fuel (fed.drop n)
        (record :: records, rest)

def MSGPACK_START_FLAG : List UInt8 := [0xAC, 0xED, 0x02, 0x05]

def MSGPACK_DEFAULT_BUFFER_LEN : Nat := 1024

/-- A turn of `handle`, with the bytes that the unpacker keeps and the records that were handled. -/
def turn (py : Libraries ρ) (s : List UInt8 × List (Record ρ)) :
    Reader UInt8 ((List UInt8 × List (Record ρ)) ⊕ List (Record ρ) × Status Raised) := do
  let data ← Reader.recv MSGPACK_DEFAULT_BUFFER_LEN
  if data = [] then pure (.inr (s.2, .returned))
  else
    let fed := s.1 ++ data
    match iterate py (fed.length + 1) fed with
    | (records, .inl rest) => pure (.inl (rest, s.2 ++ records))
    | (records, .inr status) => pure (.inr (s.2 ++ records, status))

/-- The records that are handled in at most `fuel` turns, and how `handle` stands then. -/
def handle (py : Libraries ρ) (fuel : Nat) : Reader UInt8 (List (Record ρ) × Status Raised) := do
  let data ← Reader.recv 4
  if data ≠ MSGPACK_START_FLAG then pure ([], .returned)
  else
    match ← Calls.loop (turn py) fuel ([], []) with
    | .inl (_, records) => pure (records, .running)
    | .inr result => pure result

/-- What the documentation of `Unpacker` says: it takes an object from the front of the bytes that it was
fed, and waits only where more of them are needed. -/
structure Libraries.Laws (py : Libraries ρ) : Prop where
  empty : py.unpacker () [] = .more
  stable (cap : Nat) : Stable cap py.unpacker
  productive : Productive py.unpacker

/-- The unpacker and what the handler does with an object. -/
def step (py : Libraries ρ) (s : Unit) (fed : List UInt8) : Step Unit (Record ρ) Raised :=
  match py.unpacker s fed with
  | .more => .more
  | .stop e => .stop e
  | .take n none s => .take n none s
  | .take n (some unpacked) s =>
    match handleUnpacked py unpacked with
    | .error e => .stop e
    | .ok record => .take n (some record) s

/-- What a turn goes on with. -/
def kept : Rest Unit UInt8 Raised → List UInt8 ⊕ Status Raised
  | .inl (_, rest) => .inl rest
  | .inr e => .inr (.raised e)

/-- How `handle` ends where the stream does. -/
def ended : Rest Unit UInt8 Raised → Status Raised
  | .inl _ => .returned
  | .inr e => .raised e

variable {py : Libraries ρ} {pieces : Pieces} {fed data : List UInt8} {records logged : List (Record ρ)}
  {left : Rest Unit UInt8 Raised} {fuel : Nat}

theorem step_stable (hLaws : py.Laws) (cap : Nat) : Stable cap (step py) := by
  intro s x y hCap h
  have hNext : py.unpacker s x ≠ .more := by
    intro hMore
    exact h (by rw [step, hMore])
  rw [step, hLaws.stable cap s x y hCap hNext, step]

theorem step_productive (hLaws : py.Laws) : Productive (step py) := by
  intro s x n out s' h
  unfold step at h
  split at h
  · cases h
  · cases h
  next hTake =>
    cases h
    exact hLaws.productive _ _ _ _ _ hTake
  next hTake =>
    split at h
    · cases h
    · cases h
      exact hLaws.productive _ _ _ _ _ hTake

/-- The loop runs the steps, and has turns enough for all of them. -/
theorem iterate_drains (hLaws : py.Laws) (hFuel : fed.length < fuel) :
    ∃ records left, Drains (step py) () fed records left ∧
      iterate py fuel fed = (records, kept left) := by
  induction fuel generalizing fed with
  | zero => exact absurd hFuel (Nat.not_lt_zero _)
  | succ fuel ih =>
    rw [iterate]
    cases hUnpack : py.unpacker () fed with
    | more =>
      have hStep : step py () fed = .more := by rw [step, hUnpack]
      exact ⟨_, _, .wait hStep, rfl⟩
    | stop e =>
      have hStep : step py () fed = .stop e := by rw [step, hUnpack]
      exact ⟨_, _, .stop hStep, rfl⟩
    | take n out s =>
      obtain ⟨hPos, hLe⟩ := hLaws.productive _ _ _ _ _ hUnpack
      have hLess : (fed.drop n).length < fuel := by
        rw [List.length_drop]
        omega
      obtain ⟨records, left, hDrains, hRest⟩ := ih hLess
      cases out with
      | none =>
        have hStep : step py () fed = .take n none () := by rw [step, hUnpack]
        exact ⟨_, _, .take hStep hDrains, hRest⟩
      | some unpacked =>
        cases hHandle : handleUnpacked py unpacked with
        | error e =>
          have hStep : step py () fed = .stop e := by simp only [step, hUnpack, hHandle]
          exact ⟨_, _, .stop hStep, by simp only [hHandle]; rfl⟩
        | ok record =>
          have hStep : step py () fed = .take n (some record) () := by simp only [step, hUnpack, hHandle]
          exact ⟨_, _, .take hStep hDrains, by simp only [hHandle, hRest]; rfl⟩

/-- A call where the stream goes on gives some of it. -/
theorem recv_split (pieces : Pieces) (place : Nat) {size : Nat} (hSize : 0 < size) (hData : data ≠ []) :
    ∃ chunk rest, data = chunk ++ rest ∧ chunk ≠ [] ∧
      pieces.run (.recv size) ⟨place, data⟩ = (chunk, ⟨place + chunk.length, rest⟩) := by
  refine ⟨data.take (pieces.count place size), data.drop (pieces.count place size),
    (List.take_append_drop _ _).symm, ?_, ?_⟩
  · have hPos := pieces.count_pos place size hSize
    rw [← List.length_pos_iff, List.length_take]
    have := List.length_pos_iff.mpr hData
    omega
  · have hSkip := Unread.skip_append place (data.take (pieces.count place size))
      (data.drop (pieces.count place size))
    rw [List.take_append_drop] at hSkip
    rw [Pieces.run_recv, Pieces.answer, hSkip]

/-- The turns up to the end of the stream. `fed` is what the unpacker has kept. -/
theorem run_turns (hLaws : py.Laws) (hWait : step py () fed = .more)
    (hDrains : Drains (step py) () (fed ++ data) records left) (hFuel : data.length < fuel)
    (place : Nat) (logged : List (Record ρ)) :
    (pieces.run (Calls.loop (turn py) fuel (fed, logged)) ⟨place, data⟩).1 =
      .inr (logged ++ records, ended left) := by
  induction fuel generalizing fed data records logged place with
  | zero => exact absurd hFuel (Nat.not_lt_zero _)
  | succ fuel ih =>
    by_cases hEnd : data = []
    · subst hEnd
      rw [List.append_nil] at hDrains
      obtain ⟨rfl, rfl⟩ := (Drains.wait hWait).det hDrains
      rw [List.append_nil]
      have hTurn : pieces.run (turn py (fed, logged)) ⟨place, []⟩ =
          (.inr (logged, .returned), ⟨place, []⟩) := by
        rw [turn, Pieces.run_bind, Pieces.run_recv, Pieces.answer_nil, if_pos rfl]
        rfl
      rw [Pieces.run_loop_stop hTurn]
      rfl
    · obtain ⟨chunk, rest, rfl, hChunk, hRecv⟩ :=
        recv_split pieces place (show 0 < MSGPACK_DEFAULT_BUFFER_LEN by decide) hEnd
      have hPos := List.length_pos_iff.mpr hChunk
      rw [← List.append_assoc] at hDrains
      rw [List.length_append] at hFuel
      obtain ⟨records', left', hDrains', hIterate⟩ :=
        iterate_drains hLaws (Nat.lt_succ_self (fed ++ chunk).length)
      have hTurn : pieces.run (turn py (fed, logged)) ⟨place, chunk ++ rest⟩ =
          (match kept left' with
            | .inl fed => .inl (fed, logged ++ records')
            | .inr status => .inr (logged ++ records', status), ⟨place + chunk.length, rest⟩) := by
        rw [turn, Pieces.run_bind, hRecv, if_neg hChunk]
        dsimp only
        rw [hIterate]
        cases left' <;> rfl
      cases left' with
      | inl s =>
        obtain ⟨⟨⟩, fed'⟩ := s
        obtain ⟨records'', left'', hRest, -⟩ :=
          iterate_drains hLaws (Nat.lt_succ_self (fed' ++ rest).length)
        obtain ⟨rfl, rfl⟩ := (hDrains'.append (step_stable hLaws _) (step_productive hLaws)
          (Nat.le_refl _) hRest).det hDrains
        rw [Pieces.run_loop_succ hTurn, ih hDrains'.waits hRest (by omega), List.append_assoc]
      | inr e =>
        obtain ⟨rfl, rfl⟩ := (hDrains'.stop_append (step_stable hLaws _) (step_productive hLaws)
          (Nat.le_refl (fed ++ chunk ++ rest).length)).det hDrains
        rw [Pieces.run_loop_stop hTurn]
        rfl

/-- With the flag in one piece, everything behind it is handled. -/
theorem run_handle (hLaws : py.Laws) (hDrains : Drains (step py) () data records left)
    (hFuel : data.length < fuel) (hFlag : pieces.count 0 4 = 4) :
    (pieces.run (handle py fuel) ⟨0, MSGPACK_START_FLAG ++ data⟩).1 = (records, ended left) := by
  have hWait : step py () [] = .more := by rw [step, hLaws.empty]
  have hLoop := @run_turns _ _ pieces _ _ _ _ _ hLaws hWait hDrains hFuel 4 []
  have hRecv : pieces.run (.recv 4) ⟨0, MSGPACK_START_FLAG ++ data⟩ =
      (MSGPACK_START_FLAG, ⟨4, data⟩) := by
    have hWhole : pieces.answer 4 ⟨0, MSGPACK_START_FLAG ++ data⟩ = MSGPACK_START_FLAG :=
      Pieces.answer_whole data rfl hFlag
    rw [Pieces.run_recv, hWhole, Unread.skip_append]
    rfl
  rw [handle, Pieces.run_bind, hRecv]
  dsimp only
  rw [if_neg (not_not_intro rfl), Pieces.run_bind, hLoop]
  rfl

/-- With a part of the flag, nothing is. -/
theorem run_handle_short (data : List UInt8) (fuel : Nat) (hFlag : pieces.count 0 4 ≠ 4) :
    (pieces.run (handle py fuel) ⟨0, MSGPACK_START_FLAG ++ data⟩).1 = ([], .returned) := by
  have hLength := pieces.answer_append_length 4 0 MSGPACK_START_FLAG data rfl
  have hShort : pieces.answer 4 ⟨0, MSGPACK_START_FLAG ++ data⟩ ≠ MSGPACK_START_FLAG := by
    intro hEq
    rw [hEq] at hLength
    exact hFlag hLength.symm
  rw [handle, Pieces.run_bind, Pieces.run_recv]
  dsimp only
  rw [if_pos hShort]
  rfl

/-- What is handled of a stream with a flag, and how `handle` ends, depends on the bytes alone exactly
if the first call gives the whole flag, or the bytes hold nothing to handle. -/
theorem logs_iff (hLaws : py.Laws) (hDrains : Drains (step py) () data records left)
    (hFuel : data.length < fuel) :
    (pieces.run (handle py fuel) ⟨0, MSGPACK_START_FLAG ++ data⟩).1 = (records, ended left) ↔
      pieces.count 0 4 = 4 ∨ records = [] ∧ ended left = .returned := by
  by_cases hFlag : pieces.count 0 4 = 4
  · rw [run_handle hLaws hDrains hFuel hFlag]
    exact ⟨fun _ => .inl hFlag, fun _ => rfl⟩
  · rw [run_handle_short data fuel hFlag, Prod.mk.injEq, or_iff_right hFlag, eq_comm (a := []),
      eq_comm (a := Status.returned)]

/-! What `MsgpackSocketHandler` sends. -/

open MsgpackSocketHandler (key dict packInt)

theorem hasKey_iff {name : String} {entry : Object × Object} :
    hasKey name entry = true ↔ entry.1 = key name := by
  obtain ⟨k, value⟩ := entry
  cases k <;> simp [hasKey, key]

/-- The entry of a key, where no two entries have one. -/
theorem item_of_mem {entries : List (Object × Object)} {name : String} {value : Object}
    (hKeys : (entries.map Prod.fst).Nodup) (hMem : (key name, value) ∈ entries) :
    item (.map entries) name = .ok value := by
  cases hFind : entries.reverse.find? (hasKey name) with
  | none =>
    rw [List.find?_eq_none] at hFind
    exact absurd (hasKey_iff.mpr rfl) (hFind _ (List.mem_reverse.mpr hMem))
  | some entry =>
    have hSame : entry = (key name, value) :=
      List.inj_on_of_nodup_map hKeys (List.mem_reverse.mp (List.mem_of_find?_eq_some hFind)) hMem
        (hasKey_iff.mp (List.find?_some hFind))
    rw [item, hFind, hSame]
    rfl

variable {α : Type}

/-- The record that is built from the `dict` of another, which also has its process. Neither `LogRecord`
nor the logger raises anything. -/
structure Builds (py : Libraries ρ) (record : ArgRecord α) (built : Record ρ) : Prop where
  entries : ∃ entries, dict record.toLogRecord record.attributes = some entries ∧
    (entries.map Prod.fst).Nodup
  handled : handleLogRecord py built = .ok ()
  built : ∃ levelno lineno process processName base, packInt record.levelno = some levelno ∧
    packInt record.lineno = some lineno ∧ (key "process", process) ∈ record.attributes.more ∧
    (key "processName", processName) ∈ record.attributes.more ∧
    py.logRecord [.str record.name, levelno, .str record.pathname, lineno, .str record.msg,
      record.attributes.args, record.attributes.excInfo, .str record.funcName,
      record.attributes.stackInfo] = .ok base ∧
    built = ⟨base, [("process", process), ("processName", processName),
      ("thread", record.attributes.thread), ("threadName", .str record.threadName),
      ("exc_text", record.attributes.excText), ("levelname", record.attributes.levelname),
      ("filename", record.attributes.filename), ("module", record.attributes.module),
      ("created", .float record.attributes.created), ("msecs", record.attributes.msecs),
      ("relativeCreated", record.attributes.relativeCreated)]⟩
theorem mapM_eq_ok {β γ : Type} {f : β → Except Raised γ} {xs : List β} {ys : List γ}
    (h : List.Forall₂ (fun x y => f x = .ok y) xs ys) : xs.mapM f = .ok ys := by
  induction h with
  | nil => rfl
  | cons hFirst _ ih =>
    rw [List.mapM_cons, hFirst, ih]
    rfl

theorem Builds.createLogRecord {record : ArgRecord α} {built : Record ρ} (h : Builds py record built) :
    ∃ entries, dict record.toLogRecord record.attributes = some entries ∧
      createLogRecord py (.map entries) = .ok built := by
  obtain ⟨⟨entries, hDict, hKeys⟩, -, levelno, lineno, process, processName, base, hLevelno, hLineno,
    hProcess, hProcessName, hBase, rfl⟩ := h
  refine ⟨entries, hDict, ?_⟩
  rw [dict, hLevelno, hLineno] at hDict
  have hEntries := Option.some.inj hDict
  have hItem {name : String} {value : Object} (hMem : (key name, value) ∈ entries) :
      item (.map entries) name = .ok value := item_of_mem hKeys hMem
  subst hEntries
  have hAt {name : String} {value : Object} (i : Nat) (h : _[i]? = some (key name, value)) :=
    hItem (List.mem_of_getElem? h)
  have hMore {name : String} {value : Object} (h : (key name, value) ∈ record.attributes.more) :=
    hItem (List.mem_append_right _ h)
  have hGiven := mapM_eq_ok (.cons (hAt 0 rfl) (.cons (hAt 4 rfl) (.cons (hAt 5 rfl) (.cons (hAt 11 rfl)
    (.cons (hAt 1 rfl) (.cons (hAt 2 rfl) (.cons (hAt 8 rfl) (.cons (hAt 12 rfl)
      (.cons (hAt 10 rfl) .nil)))))))))
  have hAssign {name : String} {value unpacked : Object} (h : item unpacked name = .ok value) :
      assign unpacked name = .ok (name, value) := by
    rw [assign, h]
    rfl
  have hAssigned := mapM_eq_ok (.cons (hAssign (hMore hProcess)) (.cons (hAssign (hMore hProcessName))
    (.cons (hAssign (hAt 16 rfl)) (.cons (hAssign (hAt 17 rfl)) (.cons (hAssign (hAt 9 rfl))
      (.cons (hAssign (hAt 3 rfl)) (.cons (hAssign (hAt 6 rfl)) (.cons (hAssign (hAt 7 rfl))
        (.cons (hAssign (hAt 13 rfl)) (.cons (hAssign (hAt 14 rfl))
          (.cons (hAssign (hAt 15 rfl)) .nil)))))))))))
  rw [MsgpackLogRecordStreamHandler.createLogRecord]
  rw [show given.mapM _ = _ from hGiven, ok_bind, hBase, ok_bind,
    show assigned.mapM _ = _ from hAssigned, ok_bind]
  rfl

theorem Builds.handleUnpacked {record : ArgRecord α} {built : Record ρ} (h : Builds py record built) :
    ∃ entries, dict record.toLogRecord record.attributes = some entries ∧
      handleUnpacked py (.map entries) = .ok built := by
  obtain ⟨entries, hDict, hCreate⟩ := h.createLogRecord
  refine ⟨entries, hDict, ?_⟩
  rw [MsgpackLogRecordStreamHandler.handleUnpacked, hCreate, ok_bind, h.handled]
  rfl

variable {packb : List (Object × Object) → List UInt8}

/-- The unpacker gives the `dict` of a record back that `packb` packed. -/
def Unpacks (py : Libraries ρ) (packb : List (Object × Object) → List UInt8) (record : ArgRecord α) :
    Prop :=
  ∀ entries, dict record.toLogRecord record.attributes = some entries → ∀ rest,
    py.unpacker () (packb entries ++ rest) = .take (packb entries).length (some (.map entries)) ()

theorem drains_pickles (hLaws : py.Laws) {records : List (ArgRecord α)} {built : List (Record ρ)}
    (hUnpacks : ∀ record ∈ records, Unpacks py packb record)
    (hBuilds : List.Forall₂ (Builds py) records built) :
    ∃ pickles, records.mapM (SocketHandler.makePickle packb · .msgpack) = some pickles ∧
      Drains (step py) () pickles.flatten built (.inl ((), [])) := by
  induction hBuilds with
  | nil => exact ⟨[], rfl, .wait (by rw [List.flatten_nil, step, hLaws.empty])⟩
  | @cons record built _ _ hBuild _ ih =>
    rw [List.forall_mem_cons] at hUnpacks
    obtain ⟨pickles, hPickles, hDrains⟩ := ih hUnpacks.2
    obtain ⟨entries, hDict, hHandle⟩ := hBuild.handleUnpacked
    have hUnpack := hUnpacks.1 entries hDict pickles.flatten
    refine ⟨packb entries :: pickles, ?_, ?_⟩
    · have hPickle : SocketHandler.makePickle packb record .msgpack = some (packb entries) := by
        rw [SocketHandler.makePickle, hDict]
        rfl
      rw [List.mapM_cons, hPickle, hPickles]
      rfl
    · have hStep : step py () (packb entries ++ pickles.flatten) =
          .take (packb entries).length (some built) () := by simp only [step, hUnpack, hHandle]
      have hDrop : (packb entries ++ pickles.flatten).drop (packb entries).length = pickles.flatten :=
        List.drop_left
      rw [← hDrop] at hDrains
      rw [List.flatten_cons]
      exact .take hStep hDrains

/-- For each record that the client sends, the server handles one with the same fields, in their order,
exactly if the flag comes in one piece or there are no records. -/
theorem session_logs_iff (hLaws : py.Laws) {records : List (ArgRecord α)} {built : List (Record ρ)}
    (hUnpacks : ∀ record ∈ records, Unpacks py packb record)
    (hBuilds : List.Forall₂ (Builds py) records built) :
    ∃ bytes, MsgpackSocketHandler.session packb records = some bytes ∧ ∀ fuel ≥ bytes.length,
      ((pieces.run (handle py fuel) ⟨0, bytes⟩).1 = (built, .returned) ↔
        pieces.count 0 4 = 4 ∨ records = []) := by
  obtain ⟨pickles, hPickles, hDrains⟩ := drains_pickles hLaws hUnpacks hBuilds
  refine ⟨MSGPACK_START_FLAG ++ pickles.flatten, by rw [MsgpackSocketHandler.session, hPickles]; rfl,
    fun fuel hFuel => ?_⟩
  rw [List.length_append] at hFuel
  have hFour : MSGPACK_START_FLAG.length = 4 := rfl
  have hEmpty : built = [] ↔ records = [] := by
    cases hBuilds <;> simp
  by_cases hFlag : pieces.count 0 4 = 4
  · rw [run_handle hLaws hDrains (by omega) hFlag]
    exact ⟨fun _ => .inl hFlag, fun _ => rfl⟩
  · rw [run_handle_short _ fuel hFlag, Prod.mk.injEq, or_iff_right hFlag, ← hEmpty, eq_comm (a := [])]
    exact and_iff_left rfl

/-! Libraries for which the assumptions hold: an unpacker that is made of the one in C++. -/

section

open Unpack

/-- `LogRecord` as its arguments. -/
def sampleLibraries : Libraries (List Object) where
  unpacker _ fed :=
    match unpack (.roomy fun _ => 0) {} fed with
    | .ok (unpacked, n) => .take n (some unpacked) ()
    | .error .insufficientBytes => .more
    | .error _ => .stop .unpackError
  logRecord := .ok
  name arguments := arguments.headD .nil
  handle _ _ := .ok ()
  logname := none

theorem sampleLibraries_laws : sampleLibraries.Laws where
  empty := rfl
  stable cap s x y _ h := by
    have hEnough : unpack (.roomy fun _ => 0) {} x ≠ .error .insufficientBytes := by
      intro hShort
      refine h ?_
      simp only [sampleLibraries, hShort]
    simp only [sampleLibraries, unpack_append y hEnough]
  productive s x n out s' h := by
    simp only [sampleLibraries] at h
    split at h
    next unpacked n' hUnpack =>
      cases h
      obtain ⟨front, rest, rfl, rfl, hSpells⟩ := spells_of_unpack hUnpack
      have hPos := (solid _ _).spells hSpells
      rw [List.length_append]
      omega
    · cases h
    · cases h

open MsgpackSocketHandler (samplePackb samplePackb_spells samplePacked samplePacked_packs)

/-- The `dict` of a record whose name is no text. -/
def sampleNumbered : List (Object × Object) :=
  (key "name", .positiveInteger 5) ::
    ((dict samplePacked.toLogRecord samplePacked.attributes).getD []).tail

theorem sampleNumbered_raises :
    handleUnpacked sampleLibraries (.map sampleNumbered) = .error .typeError :=
  eq_error_of_raises (by decide +kernel)

/-- Behind the flag comes a record for which there is no logger. -/
theorem logs_iff_sample :
    ((Pieces.atMost 2 (by decide)).run (handle sampleLibraries 1000)
        ⟨0, MSGPACK_START_FLAG ++ samplePackb sampleNumbered⟩).1 = ([], ended (.inr .typeError)) ↔
      (Pieces.atMost 2 (by decide)).count 0 4 = 4 ∨
        ([] : List (Record (List Object))) = [] ∧ ended (.inr .typeError) = .returned := by
  have hUnpack := unpack_spells
    (@samplePackb_spells sampleNumbered (by decide +kernel) (by decide +kernel)) []
  rw [List.append_nil] at hUnpack
  have hStep : step sampleLibraries () (samplePackb sampleNumbered) = .stop .typeError := by
    have hTake : sampleLibraries.unpacker () (samplePackb sampleNumbered) =
        .take (samplePackb sampleNumbered).length (some (.map sampleNumbered)) () := by
      simp only [sampleLibraries, hUnpack]
    simp only [step, hTake, sampleNumbered_raises]
  exact logs_iff sampleLibraries_laws (.stop hStep) (by decide +kernel)

theorem sampleLibraries_unpacks : Unpacks sampleLibraries samplePackb samplePacked := by
  intro entries hDict rest
  have hUnpack := unpack_spells (samplePacked_packs entries hDict) rest
  simp only [sampleLibraries, hUnpack]

theorem sampleLibraries_builds : ∃ built, Builds sampleLibraries samplePacked built := by
  refine ⟨_, ⟨_, rfl, ?_⟩, rfl, _, _, .positiveInteger 1, .str [0x70], _, rfl, rfl, ?_, ?_, rfl, rfl⟩
  · have hKeys : (["name", "msg", "args", "levelname", "levelno", "pathname", "filename", "module",
        "exc_info", "exc_text", "stack_info", "lineno", "funcName", "created", "msecs",
        "relativeCreated", "thread", "threadName", "processName", "process"].map
          fun name => name.toUTF8.toList).Nodup := by decide +kernel
    have hObjects := List.Nodup.map (f := Object.str) (fun _ _ h => Object.str.inj h) hKeys
    exact hObjects
  · exact List.mem_of_getElem? (i := 1) rfl
  · exact List.mem_of_getElem? (i := 0) rfl

/-- The server and a client with one record, which comes five bytes at a time. -/
theorem session_logs_iff_sample : ∃ built,
    ∃ bytes, MsgpackSocketHandler.session samplePackb [samplePacked] = some bytes ∧
      ∀ fuel ≥ bytes.length,
        (((Pieces.atMost 5 (by decide)).run (handle sampleLibraries fuel) ⟨0, bytes⟩).1 =
            ([built], .returned) ↔
          (Pieces.atMost 5 (by decide)).count 0 4 = 4 ∨ [samplePacked] = []) := by
  obtain ⟨built, hBuilds⟩ := sampleLibraries_builds
  exact ⟨built, session_logs_iff sampleLibraries_laws
    (List.forall_mem_singleton.mpr sampleLibraries_unpacks) (.cons hBuilds .nil)⟩

end

end MsgpackLogRecordStreamHandler

end LogSocket
