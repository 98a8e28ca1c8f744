import LogSocket.BytesRecords
import LogSocket.PickleServer

/-! The Python server for the Bytes protocol, `BytesLogRecordStreamHandler`. A record is read by
fourteen calls of `recv`, each of which is taken to give all the bytes that it asks for. -/

namespace LogSocket

open Lib

namespace BytesLogRecordStreamHandler

inductive Raised
  | structError
  | unicodeDecodeError
  | valueError
  deriving DecidableEq

abbrev Handler (α : Type) := ExceptT Raised (Reader UInt8) α

/-- `struct.unpack("! %ds" % size, self.connection.recv(size))` -/
def unpackBytes (size : Nat) : Handler (List UInt8) := do
  let data ← (Reader.recv size : Reader UInt8 (List UInt8))
  if data.length = size then pure data else throw .structError

/-- `struct.unpack` with `! I` or `! Q`, of as many bytes as are received. -/
def unpackUnsigned (size : Nat) : Handler Nat := do
  let data ← unpackBytes size
  pure (le data.reverse)

/-- `data.decode('utf-8')` -/
def decode (data : List UInt8) : Handler LogString :=
  if data.toByteArray.IsValidUTF8 then pure data else throw .unicodeDecodeError

/-- The number that `int` makes of the digits of a text, which single underscores may separate. -/
def parseDigits (text : LogString) : Option Nat :=
  if (text.splitOn 0x5F).all fun part => part ≠ [] ∧ part.all isDigit then
    some (digits (text.filter (· ≠ 0x5F)))
  else none

/-- The number that `int` makes of a text, if it makes one: white space around it is left out, and a
sign may stand in front. -/
def parseInt (data : List UInt8) : Option Int :=
  match ((data.dropWhile isSpace).reverse.dropWhile isSpace).reverse with
  | 0x2D :: text => (parseDigits text).map fun n : Nat => -(n : Int)
  | 0x2B :: text => (parseDigits text).map fun n : Nat => (n : Int)
  | text => (parseDigits text).map fun n : Nat => (n : Int)

/-- `int(data)` -/
def int (data : List UInt8) : Handler Int :=
  match parseInt data with
  | some n => pure n
  | none => throw .valueError

/-- What is read of a record. Of the time `created / 1000 / 1000` this is the number that is
divided; in `int(levelno / 1000)` the quotient is one of integers, which the division of floating
point numbers does not round up to the next. -/
structure Unpacked where
  name : LogString
  levelno : Nat
  msg : LogString
  created : Nat
  threadName : LogString
  pathname : LogString
  funcName : LogString
  lineno : Int
  deriving DecidableEq

def unpack : Handler Unpacked := do
  let nameLen ← unpackUnsigned 4
  let name ← decode (← unpackBytes nameLen)
  let levelno ← unpackUnsigned 4
  let msgLen ← unpackUnsigned 4
  let msg ← decode (← unpackBytes msgLen)
  let created ← unpackUnsigned 8
  let threadNameLen ← unpackUnsigned 4
  let threadName ← decode (← unpackBytes threadNameLen)
  let pathnameLen ← unpackUnsigned 4
  let pathname ← decode (← unpackBytes pathnameLen)
  let funcNameLen ← unpackUnsigned 4
  let funcName ← decode (← unpackBytes funcNameLen)
  let linenoLen ← unpackUnsigned 4
  let lineno ← int (← unpackBytes linenoLen)
  pure { name, levelno := levelno / 1000, msg, created, threadName, pathname, funcName, lineno }

/-- A turn of `handle`, with the records that were built before it. -/
def turn (records : List Unpacked) :
    Reader UInt8 (List Unpacked ⊕ List Unpacked × Status Raised) := do
  match ← unpack.run with
  | .ok unpacked => pure (.inl (records ++ [unpacked]))
  | .error e => pure (.inr (records, .raised e))

def BYTE_START_FLAG : List UInt8 := [0xAC, 0xED, 0x01, 0x05]

/-- The records that are built in at most `fuel` turns, and how `handle` stands then. -/
def handle (fuel : Nat) : Reader UInt8 (List Unpacked × Status Raised) := do
  let data ← Reader.recv 4
  if data ≠ BYTE_START_FLAG then pure ([], .returned)
  else
    match ← Calls.loop turn fuel [] with
    | .inl records => pure (records, .running)
    | .inr result => pure result

/-- `handle` builds exactly these records before it ends. -/
def Builds (pieces : Pieces) (stream : List UInt8) (records : List Unpacked) : Prop :=
  ∃ enough, ∀ fuel ≥ enough, ∃ status ≠ .running,
    (pieces.run (handle fuel) ⟨0, stream⟩).1 = (records, status)

/-! What `int` makes of the text of a number. -/

/-- The digits of a number. -/
def digitText (n : Nat) : LogString := (Nat.toDigits 10 n).map fun c => UInt8.ofNat c.toNat

theorem digits_digitText (n : Nat) : digits (digitText n) = n := by
  have hFold : ∀ (text : List Char) (init : Nat), (∀ c ∈ text, c.isDigit) →
      (text.map fun c => UInt8.ofNat c.toNat).foldl (fun n c => 10 * n + (c.toNat - 0x30)) init =
        Nat.ofDigitChars 10 text init := by
    intro text
    induction text with
    | nil => simp
    | cons c text ih =>
      intro init hText
      have hDigit := Char.isDigit_iff_toNat.mp (hText c (by simp))
      rw [show '9'.toNat = 0x39 from rfl] at hDigit
      have hByte : (UInt8.ofNat c.toNat).toNat = c.toNat := by
        rw [UInt8.toNat_ofNat']
        omega
      simp [Nat.ofDigitChars_cons, ih _ fun c' h => hText c' (by simp [h]), hByte]
  have hAll : ∀ c ∈ Nat.toDigits 10 n, c.isDigit :=
    fun c hc => Nat.isDigit_of_mem_toDigits (by decide) (by decide) hc
  rw [digits, digitText, hFold _ 0 hAll, Nat.ofDigitChars_ten_toDigits]

theorem mem_digitText {n : Nat} {c : UInt8} (h : c ∈ digitText n) : isDigit c := by
  have hRange := mem_toDigits h
  simp [isDigit, UInt8.le_iff_toNat_le, hRange]

theorem parseDigits_digitText (n : Nat) : parseDigits (digitText n) = some n := by
  have hDigits : ∀ c ∈ digitText n, c ≠ 0x5F := by
    intro c hc hEq
    subst hEq
    exact absurd (mem_digitText hc) (by decide)
  have hSplit : (digitText n).splitOn 0x5F = [digitText n] :=
    List.splitOnP_eq_singleton (by simpa using hDigits)
  have hNil : digitText n ≠ [] := by simp [digitText, Nat.toDigits_ne_nil]
  have hFilter : (digitText n).filter (· ≠ 0x5F) = digitText n := by simpa using hDigits
  have hAll : ∀ c ∈ digitText n, isDigit c := fun c hc => mem_digitText hc
  rw [parseDigits, hSplit, hFilter, digits_digitText]
  simp [hNil]
  exact hAll

/-- Nothing is left out of a text without white space. -/
theorem trim_eq {text : LogString} (h : ∀ c ∈ text, isSpace c = false) :
    ((text.dropWhile isSpace).reverse.dropWhile isSpace).reverse = text := by
  have hDrop : ∀ text : LogString, (∀ c ∈ text, isSpace c = false) → text.dropWhile isSpace = text := by
    intro text hText
    cases text with
    | nil => rfl
    | cons c text => simp [hText c]
  rw [hDrop text h, hDrop text.reverse (by simpa using h), List.reverse_reverse]

/-- `int` gives back the number that `str` made a text of. -/
theorem parseInt_decimal (n : Int) : parseInt (decimal n) = some n := by
  have hTrim : ((((decimal n).dropWhile isSpace).reverse).dropWhile isSpace).reverse = decimal n := by
    refine trim_eq fun c hc => ?_
    rcases mem_decimal hc with rfl | hDigit
    · rfl
    · simp [isSpace, UInt8.le_iff_toNat_le, ← UInt8.toNat_inj]
      omega
  have hParse := parseDigits_digitText n.natAbs
  rw [parseInt, hTrim]
  by_cases hNeg : n < 0
  · have hText : decimal n = 0x2D :: digitText n.natAbs := by simp [decimal, digitText, hNeg]
    rw [hText]
    simp only [hParse, Option.map_some, Option.some.injEq]
    omega
  · have hText : decimal n = digitText n.natAbs := by simp [decimal, digitText, hNeg]
    have hDigit : ∀ c ∈ digitText n.natAbs, isDigit c := fun c hc => mem_digitText hc
    rw [hText]
    split
    · rename_i hEq
      exact absurd (hDigit 0x2D (by simp [hEq])) (by decide)
    · rename_i hEq
      exact absurd (hDigit 0x2B (by simp [hEq])) (by decide)
    · simp only [hParse, Option.map_some, Option.some.injEq]
      omega

/-! What the calls for a record give. -/

section

variable {α β : Type} {pieces : Pieces} {p : Handler α} {f : α → Handler β} {s s' : Unread UInt8}

theorem run_bind_ok {a : α} (h : pieces.run p.run s = (.ok a, s')) :
    pieces.run (p >>= f).run s = pieces.run (f a).run s' := by
  rw [ExceptT.run_bind, Pieces.run_bind, h]

theorem run_bind_error {e : Raised} (h : pieces.run p.run s = (.error e, s')) :
    pieces.run (p >>= f).run s = (.error e, s') := by
  rw [ExceptT.run_bind, Pieces.run_bind, h]
  rfl

/-- With calls of these sizes, `p` reads `data` and gives `a` if every call gives all that it asks
for, and raises an exception otherwise. -/
structure Takes (p : Handler α) (sizes : List Nat) (data : List UInt8) (a : α) : Prop where
  length : data.length = sizes.sum
  whole {pieces : Pieces} {place : Nat} (rest : List UInt8) : pieces.Whole place sizes →
    pieces.run p.run ⟨place, data ++ rest⟩ = (.ok a, ⟨place + sizes.sum, rest⟩)
  short {pieces : Pieces} {place : Nat} (rest : List UInt8) : ¬ pieces.Whole place sizes →
    ∃ e s, pieces.run p.run ⟨place, data ++ rest⟩ = (.error e, s)

theorem Takes.pure (a : α) : Takes (pure a) [] [] a where
  length := rfl
  whole _ _ := rfl
  short _ h := absurd trivial h

theorem Takes.bind {sizes sizes' : List Nat} {data data' : List UInt8} {a : α} {b : β}
    (hp : Takes p sizes data a) (hf : Takes (f a) sizes' data' b) :
    Takes (p >>= f) (sizes ++ sizes') (data ++ data') b where
  length := by simp [hp.length, hf.length]
  whole {pieces place} rest h := by
    rcases Pieces.whole_append.mp h with ⟨hHere, hRest⟩
    rw [List.append_assoc, run_bind_ok (hp.whole (data' ++ rest) hHere), hf.whole rest hRest]
    simp [Nat.add_assoc]
  short {pieces place} rest h := by
    rw [List.append_assoc]
    by_cases hHere : pieces.Whole place sizes
    · rw [run_bind_ok (hp.whole (data' ++ rest) hHere)]
      exact hf.short rest fun hRest => h (Pieces.whole_append.mpr ⟨hHere, hRest⟩)
    · rcases hp.short (data' ++ rest) hHere with ⟨e, s, hRun⟩
      exact ⟨e, s, run_bind_error hRun⟩

theorem run_unpackBytes (pieces : Pieces) (size : Nat) (s : Unread UInt8) :
    pieces.run (unpackBytes size).run s =
      (if (pieces.answer size s).length = size then .ok (pieces.answer size s)
        else .error .structError, s.skip (pieces.answer size s).length) := by
  have hRecv : pieces.run (monadLift (Reader.recv size : Reader UInt8 _) : Handler _).run s =
      (.ok (pieces.answer size s), s.skip (pieces.answer size s).length) := rfl
  rw [unpackBytes, run_bind_ok hRecv]
  split
  · rfl
  · rfl

theorem takes_unpackBytes {size : Nat} {data : List UInt8} (h : data.length = size) :
    Takes (unpackBytes size) [size] data data where
  length := by simp [h]
  whole rest hWhole := by
    rw [run_unpackBytes, Pieces.answer_whole rest h hWhole.1]
    simp [h, Unread.skip]
  short {pieces place} rest hWhole := by
    have hNe : pieces.count place size ≠ size := fun hEq => hWhole ⟨hEq, trivial⟩
    rw [run_unpackBytes, pieces.answer_append_length size place data rest h, if_neg hNe]
    exact ⟨_, _, rfl⟩

theorem takes_unpackUnsigned {size n : Nat} (h : n < 256 ^ size) :
    Takes (unpackUnsigned size) [size] (beBytes size n) n := by
  have hValue : Takes (pure (le (beBytes size n).reverse)) [] [] n := by
    rw [le_reverse_beBytes h]
    exact .pure n
  have hAll : Takes (unpackUnsigned size) ([size] ++ []) (beBytes size n ++ []) n :=
    (takes_unpackBytes (beBytes_length size n)).bind hValue
  simpa using hAll

theorem takes_number {size n : Nat} {data : List UInt8} {sizes : List Nat} {b : β}
    {f : Nat → Handler β} (h : n < 256 ^ size) (hf : Takes (f n) sizes data b) :
    Takes (unpackUnsigned size >>= f) (size :: sizes) (beBytes size n ++ data) b :=
  (takes_unpackUnsigned h).bind hf

/-- Bytes behind their length. -/
theorem takes_bytes {data data' : List UInt8} {sizes : List Nat} {b : β}
    {f : List UInt8 → Handler β} (hLength : data.length < 2 ^ 32) (hf : Takes (f data) sizes data' b) :
    Takes (do let n ← unpackUnsigned 4; f (← unpackBytes n))
      (4 :: data.length :: sizes) (Bytes.stringBytes data ++ data') b := by
  have hBytes : Takes (unpackBytes data.length >>= f) ([data.length] ++ sizes) (data ++ data') b :=
    (takes_unpackBytes rfl).bind hf
  rw [Bytes.stringBytes, List.append_assoc]
  exact takes_number hLength hBytes

theorem takes_text {data data' : List UInt8} {sizes : List Nat} {b : β} {f : LogString → Handler β}
    (hLength : data.length < 2 ^ 32) (hText : data.toByteArray.IsValidUTF8)
    (hf : Takes (f data) sizes data' b) :
    Takes (do let n ← unpackUnsigned 4; let text ← decode (← unpackBytes n); f text)
      (4 :: data.length :: sizes) (Bytes.stringBytes data ++ data') b := by
  have hDecode : Takes (decode data) [] [] data := by
    rw [decode, if_pos hText]
    exact .pure data
  have hRest : Takes (decode data >>= f) sizes data' b := hDecode.bind hf
  exact takes_bytes hLength hRest

/-- The text of a number behind its length. -/
theorem takes_int {n : Int} {data : List UInt8} {sizes : List Nat} {b : β} {f : Int → Handler β}
    (hLength : (decimal n).length < 2 ^ 32) (hf : Takes (f n) sizes data b) :
    Takes (do let size ← unpackUnsigned 4; let n ← int (← unpackBytes size); f n)
      (4 :: (decimal n).length :: sizes) (Bytes.stringBytes (decimal n) ++ data) b := by
  have hInt : Takes (int (decimal n)) [] [] n := by
    rw [int, parseInt_decimal]
    exact .pure n
  have hRest : Takes (int (decimal n) >>= f) sizes data b := hInt.bind hf
  exact takes_bytes hLength hRest

end

/-- The sizes that are asked for on the way to a record. -/
def sizes (record : LogRecord) : List Nat :=
  [4, record.name.length, 4, 4, record.msg.length, 8, 4, record.threadName.length,
    4, record.pathname.length, 4, record.funcName.length, 4, (decimal record.lineno).length]

/-- What is read for a record. -/
def received (record : LogRecord) : Unpacked where
  name := record.name
  levelno := (record.levelno * 1000 % 2 ^ 32).toNat / 1000
  msg := record.msg
  created := record.createdMicros.toNat
  threadName := record.threadName
  pathname := record.pathname
  funcName := record.funcName
  lineno := record.lineno

/-- The texts of a record are what `encode()` gives. -/
structure Encoded (record : LogRecord) : Prop where
  name : record.name.toByteArray.IsValidUTF8
  msg : record.msg.toByteArray.IsValidUTF8
  threadName : record.threadName.toByteArray.IsValidUTF8
  pathname : record.pathname.toByteArray.IsValidUTF8
  funcName : record.funcName.toByteArray.IsValidUTF8

variable {record : LogRecord} {pickle : List UInt8}

theorem packText_some {value : LogString} (h : ByteSocketHandler.packText value = some pickle) :
    value.length < 2 ^ 32 ∧ pickle = Bytes.stringBytes value := by
  simp only [ByteSocketHandler.packText, Option.bind_eq_bind, Option.bind_eq_some_iff,
    Option.pure_def, Option.some.injEq] at h
  rcases h with ⟨length, hLength, rfl⟩
  rcases packUnsigned_some hLength with ⟨-, hLt, rfl⟩
  exact ⟨by exact_mod_cast hLt, rfl⟩

/-- What is sent for a record is read back, if every call gives all that it asks for. -/
theorem takes_unpack (hPickle : ByteSocketHandler.makePickle record = some pickle)
    (hText : Encoded record) : Takes unpack (sizes record) pickle (received record) := by
  simp only [ByteSocketHandler.makePickle, Option.bind_eq_bind, Option.bind_eq_some_iff,
    Option.pure_def, Option.some.injEq] at hPickle
  rcases hPickle with ⟨name, hName, levelno, hLevelno, msg, hMsg, created, hCreated, threadName,
    hThreadName, pathname, hPathname, funcName, hFuncName, lineno, hLineno, rfl⟩
  rcases packText_some hName with ⟨nameLen, rfl⟩
  rcases packSigned_some hLevelno with ⟨-, -, rfl⟩
  rcases packText_some hMsg with ⟨msgLen, rfl⟩
  rcases packUnsigned_some hCreated with ⟨-, hCreated, rfl⟩
  rcases packText_some hThreadName with ⟨threadNameLen, rfl⟩
  rcases packText_some hPathname with ⟨pathnameLen, rfl⟩
  rcases packText_some hFuncName with ⟨funcNameLen, rfl⟩
  rcases packText_some hLineno with ⟨linenoLen, rfl⟩
  have hTime : record.createdMicros.toNat < 256 ^ 8 := by omega
  have hLevel : (record.levelno * 1000 % 256 ^ 4).toNat < 256 ^ 4 := by omega
  have hAll : Takes unpack (sizes record) _ (received record) :=
    takes_text nameLen hText.name <| takes_number hLevel <| takes_text msgLen hText.msg <|
      takes_number hTime <| takes_text threadNameLen hText.threadName <|
        takes_text pathnameLen hText.pathname <| takes_text funcNameLen hText.funcName <|
          takes_int linenoLen <| .pure (received record)
  simpa using hAll

/-- At the end of the stream nothing is there for the length of a name. -/
theorem unpack_end (pieces : Pieces) (place : Nat) :
    ∃ e s, pieces.run unpack.run ⟨place, []⟩ = (.error e, s) := by
  have hBytes := run_unpackBytes pieces 4 ⟨place, []⟩
  rw [Pieces.answer_nil, if_neg (by simp)] at hBytes
  have hLength : pieces.run (unpackUnsigned 4).run ⟨place, []⟩ = _ := run_bind_error hBytes
  exact ⟨_, _, run_bind_error hLength⟩

/-- The records that are built from those that were sent from a place on. -/
def outcome (pieces : Pieces) : Nat → List LogRecord → List Unpacked
  | _, [] => []
  | place, record :: records =>
    if pieces.Whole place (sizes record) then
      received record :: outcome pieces (place + (sizes record).sum) records
    else []

theorem outcome_whole (place : Nat) (records : List LogRecord) :
    outcome .whole place records = records.map received := by
  induction records generalizing place with
  | nil => rfl
  | cons record records ih => simp [outcome, Pieces.whole_whole, ih]

/-- All records are built exactly if every call on the way gives all that it asks for. -/
theorem outcome_iff {pieces : Pieces} (place : Nat) (records : List LogRecord) :
    outcome pieces place records = records.map received ↔
      pieces.Whole place (records.flatMap sizes) := by
  induction records generalizing place with
  | nil => simp [outcome, Pieces.Whole]
  | cons record records ih =>
    rw [List.flatMap_cons, Pieces.whole_append, outcome]
    split
    · rename_i hWhole
      simp [hWhole, ih]
    · rename_i hShort
      simp [hShort]

variable {pieces : Pieces} {records : List LogRecord} {pickles : List (List UInt8)}

theorem run_turn_ok {unpacked : Unpacked} {s s' : Unread UInt8}
    (h : pieces.run unpack.run s = (.ok unpacked, s')) (built : List Unpacked) :
    pieces.run (turn built) s = (.inl (built ++ [unpacked]), s') := by
  rw [turn, Pieces.run_bind, h]
  rfl

theorem run_turn_error {e : Raised} {s s' : Unread UInt8}
    (h : pieces.run unpack.run s = (.error e, s')) (built : List Unpacked) :
    pieces.run (turn built) s = (.inr (built, .raised e), s') := by
  rw [turn, Pieces.run_bind, h]
  rfl

/-- The turns over the records from a place on. -/
theorem run_turns (pieces : Pieces)
    (hPickles : records.mapM ByteSocketHandler.makePickle = some pickles)
    (hText : ∀ record ∈ records, Encoded record) {fuel : Nat} (hFuel : records.length < fuel)
    (place : Nat) (built : List Unpacked) :
    ∃ e, (pieces.run (Calls.loop turn fuel built) ⟨place, pickles.flatten⟩).1 =
      .inr (built ++ outcome pieces place records, .raised e) := by
  induction records generalizing pickles fuel place built with
  | nil =>
    obtain ⟨fuel, rfl⟩ := Nat.exists_eq_succ_of_ne_zero (Nat.ne_zero_of_lt hFuel)
    have hNone : pickles = [] := (Option.some.inj hPickles).symm
    rcases unpack_end pieces place with ⟨e, s, hEnd⟩
    refine ⟨e, ?_⟩
    rw [hNone, List.flatten_nil, Pieces.run_loop_stop (run_turn_error hEnd built)]
    simp [outcome]
  | cons record records ih =>
    obtain ⟨fuel, rfl⟩ := Nat.exists_eq_succ_of_ne_zero (Nat.ne_zero_of_lt hFuel)
    simp only [List.mapM_cons, Option.bind_eq_bind, Option.bind_eq_some_iff, Option.pure_def,
      Option.some.injEq] at hPickles
    rcases hPickles with ⟨pickle, hPickle, pickles, hPickles, rfl⟩
    have hTakes := takes_unpack hPickle (hText record (by simp))
    rw [List.flatten_cons, outcome]
    by_cases hWhole : pieces.Whole place (sizes record)
    · have hTurn := run_turn_ok (hTakes.whole pickles.flatten hWhole) built
      rcases ih hPickles (fun r hr => hText r (by simp [hr])) (Nat.lt_of_succ_lt_succ hFuel)
        (place + (sizes record).sum) (built ++ [received record]) with ⟨e, hRest⟩
      refine ⟨e, ?_⟩
      rw [Pieces.run_loop_succ hTurn, hRest, if_pos hWhole]
      simp
    · rcases hTakes.short pickles.flatten hWhole with ⟨e, s, hShort⟩
      refine ⟨e, ?_⟩
      rw [Pieces.run_loop_stop (run_turn_error hShort built), if_neg hWhole]
      simp

/-- The start flag and the records. -/
def session (pickles : List (List UInt8)) : List UInt8 := BYTE_START_FLAG ++ pickles.flatten

theorem builds_outcome (hPickles : records.mapM ByteSocketHandler.makePickle = some pickles)
    (hText : ∀ record ∈ records, Encoded record) (hFlag : pieces.count 0 4 = 4) :
    Builds pieces (session pickles) (outcome pieces 4 records) := by
  refine ⟨records.length + 1, fun fuel hFuel => ?_⟩
  rcases run_turns pieces hPickles hText hFuel 4 [] with ⟨e, hTurns⟩
  have hAnswer : pieces.answer 4 ⟨0, BYTE_START_FLAG ++ pickles.flatten⟩ = BYTE_START_FLAG :=
    Pieces.answer_whole pickles.flatten rfl hFlag
  refine ⟨.raised e, by simp, ?_⟩
  have hSkip : (Unread.mk 0 (BYTE_START_FLAG ++ pickles.flatten)).skip BYTE_START_FLAG.length =
      ⟨4, pickles.flatten⟩ := Unread.skip_append _ _ _
  rw [handle, Pieces.run_bind, Pieces.run_recv, session, hAnswer, hSkip, if_neg (by simp),
    Pieces.run_bind, hTurns]
  simp

/-- A start flag that is cut is none. -/
theorem builds_nil (hFlag : pieces.count 0 4 ≠ 4) (pickles : List (List UInt8)) :
    Builds pieces (session pickles) [] := by
  refine ⟨0, fun fuel _ => ⟨.returned, by simp, ?_⟩⟩
  have hLength := pieces.answer_append_length 4 0 BYTE_START_FLAG pickles.flatten rfl
  have hCut : pieces.answer 4 ⟨0, session pickles⟩ ≠ BYTE_START_FLAG := by
    intro hEq
    rw [session] at hEq
    rw [hEq] at hLength
    exact hFlag hLength.symm
  rw [handle, Pieces.run_bind, Pieces.run_recv, if_pos hCut]
  rfl

theorem Builds.unique {stream : List UInt8} {built built' : List Unpacked}
    (h : Builds pieces stream built) (h' : Builds pieces stream built') : built = built' := by
  rcases h with ⟨enough, h⟩
  rcases h' with ⟨enough', h'⟩
  rcases h (max enough enough') (by omega) with ⟨status, -, hRun⟩
  rcases h' (max enough enough') (by omega) with ⟨status', -, hRun'⟩
  rw [hRun] at hRun'
  exact congrArg Prod.fst hRun'

/-- Every record is built if every call gives all that it asks for. -/
theorem builds_whole (hPickles : records.mapM ByteSocketHandler.makePickle = some pickles)
    (hText : ∀ record ∈ records, Encoded record) :
    Builds .whole (session pickles) (records.map received) := by
  rw [← outcome_whole 4]
  exact builds_outcome hPickles hText rfl

/-- The same records are built as when every call gives all that it asks for exactly if every call
up to the last record does so, or there are no records. -/
theorem builds_iff (hPickles : records.mapM ByteSocketHandler.makePickle = some pickles)
    (hText : ∀ record ∈ records, Encoded record) :
    (∃ built, Builds pieces (session pickles) built ∧ Builds .whole (session pickles) built) ↔
      records = [] ∨ pieces.Whole 0 (4 :: records.flatMap sizes) := by
  have hFull := builds_whole hPickles hText
  have hSame : (∃ built, Builds pieces (session pickles) built ∧
      Builds .whole (session pickles) built) ↔
        Builds pieces (session pickles) (records.map received) :=
    ⟨fun ⟨built, h, h'⟩ => h'.unique hFull ▸ h, fun h => ⟨_, h, hFull⟩⟩
  rw [hSame]
  by_cases hFlag : pieces.count 0 4 = 4
  · have hOutcome := builds_outcome hPickles hText hFlag
    have hWhole : pieces.Whole 0 (4 :: records.flatMap sizes) ↔
        outcome pieces 4 records = records.map received := by
      simp [outcome_iff, Pieces.Whole, hFlag]
    rw [hWhole]
    constructor
    · intro h
      exact .inr (hOutcome.unique h)
    · intro h
      rcases h with rfl | h
      · exact hOutcome
      · exact h ▸ hOutcome
  · have hNone := builds_nil hFlag pickles
    constructor
    · intro h
      exact .inl (List.map_eq_nil_iff.mp (h.unique hNone))
    · intro h
      rcases h with rfl | h
      · exact hNone
      · exact absurd h.1 hFlag

open ByteSocketHandler (sampleRecord pickleBytes)

theorem sampleRecord_pickles :
    [sampleRecord].mapM ByteSocketHandler.makePickle = some [pickleBytes sampleRecord] := by
  decide

theorem sampleRecord_encoded : ∀ record ∈ [sampleRecord], Encoded record := by
  intro record h
  rw [List.mem_singleton.mp h]
  exact ⟨.intro ['l'] rfl, .intro ['가'] rfl, .intro ['t'] rfl, .intro ['a', '.', 'p', 'y'] rfl,
    .intro ['m', 'a', 'i', 'n'] rfl⟩

/-- Two records, of which at most eight bytes arrive at once. -/
def sampleRecords : List LogRecord :=
  [sampleRecord, { sampleRecord with levelno := 30, msg := [0x6D], lineno := -1 }]

theorem builds_iff_sampleRecords :
    (∃ built, Builds (.atMost 8 (by decide)) (session (sampleRecords.map pickleBytes)) built ∧
      Builds .whole (session (sampleRecords.map pickleBytes)) built) ↔
      sampleRecords = [] ∨
        (Pieces.atMost 8 (by decide)).Whole 0 (4 :: sampleRecords.flatMap sizes) := by
  refine builds_iff (by decide) (List.forall_mem_cons.mpr
    ⟨sampleRecord_encoded sampleRecord List.mem_cons_self, List.forall_mem_singleton.mpr ?_⟩)
  exact ⟨.intro ['l'] rfl, .intro ['m'] rfl, .intro ['t'] rfl, .intro ['a', '.', 'p', 'y'] rfl,
    .intro ['m', 'a', 'i', 'n'] rfl⟩

/-- Where at most four bytes arrive at once, the record is lost in its time. -/
theorem not_builds :
    ¬ ∀ (pieces : Pieces) (records : List LogRecord) (pickles : List (List UInt8)),
      records.mapM ByteSocketHandler.makePickle = some pickles →
        (∀ record ∈ records, Encoded record) →
          ∃ built, Builds pieces (session pickles) built ∧
            Builds .whole (session pickles) built := by
  intro h
  rcases h (.atMost 4 (by decide)) _ _ sampleRecord_pickles sampleRecord_encoded with
    ⟨built, hParts, hWhole⟩
  have hNone := hParts.unique (builds_outcome sampleRecord_pickles sampleRecord_encoded rfl)
  have hOne := hWhole.unique (builds_whole sampleRecord_pickles sampleRecord_encoded)
  rw [hOne] at hNone
  exact absurd hNone (by decide)

end BytesLogRecordStreamHandler

end LogSocket
