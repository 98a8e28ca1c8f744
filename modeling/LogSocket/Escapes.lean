import LogSocket.Drivers

/-! The failures that escape the loaders, with asserts compiled out and room for the bytes that were
received. Only the two documented exceptions do, unless a length is taken for granted: one of four
bytes of the Bytes protocol that no vector can have, or one in a class descriptor. -/

namespace LogSocket

open Lib ByteBuf

/-- A build without asserts, where vectors of up to `limit` elements can be allocated. -/
def Env.limited (limit : Nat) : Env := ⟨false, limit⟩

/-- A value, or one of the two documented exceptions. -/
def Documented {α : Type} (x : Except Fail α) : Prop := Ensures Fail.documented (fun _ => True) x

namespace Bytes

/-- A part of a message: a string with its length in front, or a number of that many bytes. -/
inductive Part
  | string
  | number (size : UInt64)

/-- The parts that `createLoggingEvent` reads. -/
def parts : List Part :=
  [.string, .number 4, .string, .number 8, .string, .string, .string, .string]

/-- A length of a string that the loader comes to, with `parts` to read from `pos` on. -/
inductive Length (byteBuf : ByteBuf) : List Part → UInt64 → UInt32 → Prop
  | here {parts : List Part} {pos : UInt64} {length : Int32} :
      readInt byteBuf pos = .ok (length, 4) →
      Length byteBuf (.string :: parts) pos length.toUInt32
  | string {parts : List Part} {pos : UInt64} {length : Int32} {n : UInt32} :
      readInt byteBuf pos = .ok (length, 4) →
      pos.toNat + 4 + length.toUInt32.toNat ≤ byteBuf.bytes.length →
      Length byteBuf parts (pos + (4 + length.toUInt32.toUInt64)) n →
      Length byteBuf (.string :: parts) pos n
  | number {parts : List Part} {pos size : UInt64} {n : UInt32} :
      pos.toNat + size.toNat ≤ byteBuf.bytes.length → Length byteBuf parts (pos + size) n →
      Length byteBuf (.number size :: parts) pos n

/-- Every length that the loader comes to is one that a vector can have. -/
def Fits (limit : Nat) (byteBuf : ByteBuf) (parts : List Part) (pos : UInt64) : Prop :=
  ∀ n, Length byteBuf parts pos n → n.toNat ≤ limit

section

variable {limit : Nat} {byteBuf : ByteBuf} {pos : UInt64} {parts : List Part} {α : Type}

theorem readInt_within (hpos : pos.toNat ≤ byteBuf.bytes.length) :
    Ensures Fail.documented
      (fun r => r.2 = 4 ∧ pos.toNat + 4 ≤ byteBuf.bytes.length ∧ (pos + 4).toNat = pos.toNat + 4)
      (readInt byteBuf pos) := by
  refine (fetch_ensures hpos (show (4 : UInt64).toNat < 2 ^ 62 by decide)).bind fun bytes h => ?_
  exact ⟨rfl, h.2⟩

theorem alloc_limited (limit : Nat) {n : UInt64} (h : n.toNat ≤ maxSize) :
    (Env.limited limit).alloc n = if n.toNat ≤ limit then .ok () else .error .badAlloc := by
  have hLimit : (Env.limited limit).allocLimit = limit := rfl
  rw [Env.alloc, hLimit]
  by_cases hFits : n.toNat ≤ limit
  · rw [if_neg (by omega), if_pos hFits]
    rfl
  · rw [if_pos (by omega), if_neg hFits]
    rfl

/-- The length of a string is there: it has to fit, and so have those behind the string, if the buffer
goes that far. -/
theorem fits_string {length : Int32} (hInt : readInt byteBuf pos = .ok (length, 4)) :
    Fits limit byteBuf (.string :: parts) pos ↔ length.toUInt32.toNat ≤ limit ∧
      (pos.toNat + 4 + length.toUInt32.toNat ≤ byteBuf.bytes.length →
        Fits limit byteBuf parts (pos + (4 + length.toUInt32.toUInt64))) := by
  constructor
  · intro h
    exact ⟨h _ (.here hInt), fun hThere n hn => h n (.string hInt hThere hn)⟩
  · rintro ⟨hAlloc, hRest⟩ n hn
    cases hn with
    | here hInt' =>
      cases hInt.symm.trans hInt'
      exact hAlloc
    | string hInt' hThere hn =>
      cases hInt.symm.trans hInt'
      exact hRest hThere n hn

theorem fits_string_of_error {e : Fail} (hInt : readInt byteBuf pos = .error e) :
    Fits limit byteBuf (.string :: parts) pos := by
  intro n hn
  cases hn with
  | here hInt' => cases hInt.symm.trans hInt'
  | string hInt' => cases hInt.symm.trans hInt'

/-- A string is read, or reported as one that is not there, unless it is too long. -/
theorem readString_documented (hpos : pos.toNat ≤ byteBuf.bytes.length)
    {f : List UInt8 × UInt64 → Except Fail α}
    (hf : ∀ data size, data.length < byteBuf.bytes.length → (pos + size).toNat ≤ byteBuf.bytes.length →
      (Documented (f (data, size)) ↔ Fits limit byteBuf parts (pos + size))) :
    Documented (readString (.limited limit) byteBuf pos >>= f) ↔
      Fits limit byteBuf (.string :: parts) pos := by
  have hRead := readInt_within hpos
  rw [readString]
  cases hInt : readInt byteBuf pos with
  | error e =>
    rw [hInt] at hRead
    exact iff_of_true hRead (fits_string_of_error hInt)
  | ok r =>
    rcases r with ⟨length, size⟩
    rw [hInt] at hRead
    rcases hRead with ⟨rfl, hIn, hNext⟩
    have hSize := byteBuf.size_le
    unfold maxSize at hSize
    have hBits := length.toUInt32.toNat_lt
    have hLen : length.toUInt32.toUInt64.toNat = length.toUInt32.toNat := UInt32.toNat_toUInt64 _
    have hEnd := UInt64.toNat_add (pos + 4) length.toUInt32.toUInt64
    rw [hNext, hLen, UInt64.add_assoc] at hEnd
    dsimp only [ok_bind]
    rw [fits_string hInt, alloc_limited limit (by unfold maxSize; omega), hLen]
    by_cases hAlloc : length.toUInt32.toNat ≤ limit
    · rw [if_pos hAlloc, ok_bind]
      by_cases hThere : pos.toNat + 4 + length.toUInt32.toNat ≤ byteBuf.bytes.length
      · have hFetch : byteBuf.fetch (pos + 4) length.toUInt32.toUInt64 = .ok _ :=
          fetch_ok (by rw [hNext, hLen]; exact hThere)
        rw [hFetch, ok_bind]
        refine (hf _ _ ?_ (by omega)).trans (by simp [hAlloc, hThere])
        rw [List.length_take, List.length_drop, hLen]
        omega
      · have hFetch : byteBuf.fetch (pos + 4) length.toUInt32.toUInt64 = .error (.small .small) :=
          fetch_small (by rw [hNext, hLen]; omega) (by rw [hNext, hLen]; omega)
        rw [hFetch]
        exact iff_of_true trivial ⟨hAlloc, fun h => absurd h hThere⟩
    · rw [if_neg hAlloc]
      exact iff_of_false id fun h => hAlloc h.1

theorem readUTFString_documented (hLimit : byteBuf.bytes.length ≤ limit)
    (hpos : pos.toNat ≤ byteBuf.bytes.length) {f : LogString × UInt64 → Except Fail α}
    (hf : ∀ data size, (pos + size).toNat ≤ byteBuf.bytes.length →
      (Documented (f (data, size)) ↔ Fits limit byteBuf parts (pos + size))) :
    Documented (readUTFString (.limited limit) byteBuf pos >>= f) ↔
      Fits limit byteBuf (.string :: parts) pos := by
  rw [readUTFString, bind_assoc]
  refine readString_documented hpos fun data size hData hNext => ?_
  have hSize := byteBuf.size_le
  unfold maxSize at hSize
  have hLength : (UInt64.ofNat (data.length + 1)).toNat = data.length + 1 := by
    rw [UInt64.toNat_ofNat']
    omega
  dsimp only
  rw [alloc_limited limit (by unfold maxSize; omega), if_pos (by omega)]
  exact hf _ _ hNext

/-- A number is read, or reported as one that is not there. -/
theorem fetch_documented {size : UInt64} (hSize : size.toNat < 2 ^ 62)
    (hpos : pos.toNat ≤ byteBuf.bytes.length) {f : List UInt8 → Except Fail α}
    (hf : ∀ bytes, (pos + size).toNat ≤ byteBuf.bytes.length →
      (Documented (f bytes) ↔ Fits limit byteBuf parts (pos + size))) :
    Documented (byteBuf.fetch pos size >>= f) ↔
      Fits limit byteBuf (.number size :: parts) pos := by
  have hFetch := fetch_ensures hpos hSize
  cases hRead : byteBuf.fetch pos size with
  | error e =>
    rw [hRead] at hFetch
    refine iff_of_true hFetch fun n hn => ?_
    cases hn with
    | number hIn => cases hRead.symm.trans (fetch_ok hIn)
  | ok bytes =>
    rw [hRead] at hFetch
    rcases hFetch with ⟨-, hIn, hNext⟩
    refine (hf bytes (by omega)).trans ⟨fun hRest n hn => ?_, fun hAll n hn => ?_⟩
    · cases hn with
      | number _ hRest' => exact hRest n hRest'
    · exact hAll n (.number hIn hn)

theorem readData_documented (hLimit : byteBuf.bytes.length ≤ limit) :
    Documented (readData (.limited limit) byteBuf) ↔ Fits limit byteBuf Bytes.parts 0 := by
  unfold readData readLogString readInt readLong
  simp only [bind_assoc]
  refine readString_documented (Nat.zero_le _) fun loggerName size _ hpos => ?_
  refine fetch_documented (by decide) hpos fun level hpos => ?_
  refine readString_documented hpos fun message size _ hpos => ?_
  refine fetch_documented (by decide) hpos fun timestamp hpos => ?_
  refine readString_documented hpos fun threadName size _ hpos => ?_
  refine readUTFString_documented hLimit hpos fun pathName size hpos => ?_
  refine readUTFString_documented hLimit hpos fun funcName size hpos => ?_
  refine readUTFString_documented hLimit hpos fun lineNumber size _ => ?_
  exact iff_of_true trivial nofun

/-- Only the documented exceptions escape exactly when no length is more than a vector can have. -/
theorem createLoggingEvent_documented (hLimit : byteBuf.bytes.length ≤ limit) :
    Documented (createLoggingEvent (.limited limit) byteBuf).1 ↔
      Fits limit byteBuf Bytes.parts 0 := by
  rw [← readData_documented hLimit, createLoggingEvent]
  cases hRead : readData (.limited limit) byteBuf with
  | error e => rw [load_error hRead]; rfl
  | ok r =>
    have hSize := (readData_reads.value hRead).2
    rw [load_ok hRead hSize]
    exact iff_of_true trivial trivial

end

end Bytes

namespace Default

theorem allowed_limited {limit : Nat} (hLimit : 65536 ≤ limit) {e : Fail} :
    Allowed (.limited limit) e ↔ e.documented := by
  constructor
  · intro h
    rcases h with h | ⟨-, h⟩ | ⟨-, h⟩
    · exact h
    · cases h
    · simp only [Env.limited] at h
      omega
  · exact .inl

/-- The loader on a buffer ends as documented exactly when no length in a descriptor leads it to the
end of the address space or round in a circle. -/
theorem createLoggingEvent_documented {limit : Nat} (hLimit : 65536 ≤ limit) (byteBuf : ByteBuf) :
    Documented (createLoggingEvent (.limited limit) byteBuf).1 ↔
      Straight (.limited limit) byteBuf := by
  rw [← finishes_iff_straight]
  constructor
  · intro h
    exact h.weaken fun _ => (allowed_limited hLimit).mpr
  · intro h
    exact h.weaken fun _ => (allowed_limited hLimit).mp

namespace Blocking

variable {env : Env} {byteBuf : ByteBuf} {pos : UInt64} {socket : Segments} {fuel : Nat}

/-- What a negative length comes to: no vector is that long. -/
def tooLong : Stop := .terminate .badAlloc

theorem readBytes_negative (env : Env) (socket : Segments) {dataLen : Int16}
    (h : dataLen.toInt < 0) :
    readBytes env socket (extendShort dataLen) = .error tooLong := by
  have hLow := dataLen.le_toInt
  have hAlloc : env.alloc (extendShort dataLen) = .error .badAlloc := by
    refine if_pos ?_
    rw [extendShort, UInt64.ofInt, UInt64.toNat_ofNat']
    unfold maxSize
    omega
  rw [readBytes, hAlloc]
  rfl

theorem At.skipText (hRoomy : Roomy env) (h : At byteBuf pos socket) (dataLen : Int16) :
    readBytes env socket (extendShort dataLen) = .error tooLong ∨
    readBytes env socket (extendShort dataLen) = .error .unread ∧
      Beyond byteBuf (pos + extendShort dataLen) ∨
    0 ≤ dataLen.toInt ∧ ∃ bytes rest, readBytes env socket (extendShort dataLen) = .ok (bytes, rest) ∧
      At byteBuf (pos + extendShort dataLen) rest := by
  rcases Int.lt_or_le dataLen.toInt 0 with hNeg | hPos
  · exact .inl (readBytes_negative env socket hNeg)
  · rcases h.skipBytes hRoomy (extendShort_lt hPos) with hRead | hBeyond
    · exact .inr (.inr ⟨hPos, hRead⟩)
    · exact .inr (.inl hBeyond)

/-- The offset of a place. -/
def place : Cursor → UInt64
  | .count readPos => readPos
  | .field _ readPos => readPos
  | .tag readPos => readPos

/-- Nothing comes behind a place that lies behind the end of the buffer. -/
def Stuck (byteBuf : ByteBuf) (pos : UInt64) : Cursor → Prop
  | .count readPos => ∀ fieldLen, Default.readShort byteBuf (pos + readPos) ≠ .ok (fieldLen, 2)
  | .field _ readPos => Beyond byteBuf (pos + readPos)
  | .tag readPos => Beyond byteBuf (pos + readPos)

/-- The reader on a socket from a place on, to the end of the tags. -/
def resume (env : Env) (fuel : Nat) (socket : Segments) : Cursor → Except Stop Segments
  | .count _ => do
    let (fieldLen, socket) ← readShort socket
    let socket ← readFields env fieldLen.toInt.toNat socket
    readTags env fuel socket
  | .field left _ => do
    let socket ← readFields env left socket
    readTags env fuel socket
  | .tag _ => readTags env fuel socket

/-- What the reader on a socket has come to where the reader on a buffer comes to a place: the same
place, the end of the socket, or a negative length. -/
inductive Follows (env : Env) (byteBuf : ByteBuf) (pos : UInt64) (cursor : Cursor)
    (x : Except Stop ((LogString × UInt32) × Segments)) : Prop
  | tooLong : x = .error tooLong → Follows env byteBuf pos cursor x
  | stuck : Stuck byteBuf pos cursor → Follows env byteBuf pos cursor x
  | here {socket : Segments} {fuel : Nat} : At byteBuf (pos + place cursor) socket →
      byteBuf.bytes.length - (pos + place cursor).toNat < fuel →
      x = resume env fuel socket cursor >>= readLast env → Follows env byteBuf pos cursor x

/-- The number of the fields is not there where the bytes in front of it are not. -/
theorem stuck_count {readPos more : UInt64} (h : Beyond byteBuf (pos + readPos))
    (hMore : more.toNat ≤ 9) : Stuck byteBuf pos (.count (readPos + more)) := by
  intro fieldLen hShort
  have hSum := UInt64.toNat_add (pos + readPos) more
  rw [UInt64.add_assoc] at hSum
  rcases h with ⟨hOut, hWrap⟩
  rw [readShort_beyond (by omega) (by omega)] at hShort
  cases hShort

section

variable (hRoomy : Roomy env)
include hRoomy

/-- The name, the serial version and the flags. -/
theorem At.follows_name {readPos : UInt64} (h : At byteBuf (pos + readPos) socket) (dataLen : Int16)
    (hFuel : byteBuf.bytes.length < fuel) :
    Follows env byteBuf pos (.count (readPos + extendShort dataLen + 8 + 1)) (do
      let (_, socket) ← Blocking.readBytes env socket (extendShort dataLen)
      let (_, socket) ← Blocking.readBytes env socket 8
      let (_, socket) ← Blocking.readByte socket
      let (fieldLen, socket) ← Blocking.readShort socket
      let socket ← Blocking.readFields env fieldLen.toInt.toNat socket
      let socket ← Blocking.readTags env fuel socket
      Blocking.readLast env socket) := by
  rcases h.skipText hRoomy dataLen with hNeg | ⟨-, hBeyond⟩ | ⟨-, _, socket, hRead, hSerial⟩
  · rw [hNeg]
    exact .tooLong rfl
  · rw [UInt64.add_assoc pos] at hBeyond
    rw [UInt64.add_assoc _ 8 1]
    exact .stuck (stuck_count hBeyond (by decide))
  rw [UInt64.add_assoc pos] at hSerial
  rw [hRead, ok_bind]
  dsimp only
  rcases hSerial.skipBytes hRoomy (show (8 : UInt64).toNat < 2 ^ 15 by decide) with
    ⟨_, socket, hRead, hFlags⟩ | ⟨-, hBeyond⟩
  · rw [UInt64.add_assoc pos] at hFlags
    rw [hRead, ok_bind]
    dsimp only
    rcases hFlags.skipByte with ⟨_, socket, hRead, hCount⟩ | ⟨-, hBeyond⟩
    · rw [UInt64.add_assoc pos] at hCount
      rw [hRead, ok_bind]
      dsimp only
      refine @Follows.here _ _ _ _ _ _ fuel hCount (by omega) ?_
      simp only [resume, bind_assoc]
    · rw [UInt64.add_assoc pos] at hBeyond
      rw [← UInt64.add_zero (_ + 8 + 1)]
      exact .stuck (stuck_count hBeyond (by decide))
  · rw [UInt64.add_assoc pos] at hBeyond
    exact .stuck (stuck_count hBeyond (by decide))

end

theorem At.le_add (h : At byteBuf pos socket) {size : UInt64} (hSize : size.toNat < 2 ^ 62) :
    pos.toNat ≤ (pos + size).toNat := by
  have hSum := UInt64.toNat_add pos size
  have hWithin := h.within
  have hLe := byteBuf.size_le
  unfold maxSize at hLe
  omega

/-- A name is not there where the bytes in front of it are not. -/
theorem not_readShort_beyond {readPos : UInt64} {dataLen : Int16}
    (h : Beyond byteBuf (pos + readPos)) :
    Default.readShort byteBuf (pos + (readPos + 1)) ≠ .ok (dataLen, 2) := by
  intro hShort
  have hSum := UInt64.toNat_add (pos + readPos) 1
  rcases h with ⟨hOut, hWrap⟩
  rw [UInt64.add_assoc, UInt64.toNat_one] at hSum
  rw [readShort_beyond (by omega) (by omega)] at hShort
  cases hShort

/-- A field up to its name. -/
theorem At.field_eq {readPos : UInt64} (h : At byteBuf (pos + readPos) socket) {dataLen : Int16}
    (hShort : Default.readShort byteBuf (pos + (readPos + 1)) = .ok (dataLen, 2)) (left : Nat)
    (env : Env) (fuel : Nat) :
    ∃ rest, At byteBuf (pos + (readPos + 1 + 2)) rest ∧
      (pos + readPos).toNat ≤ (pos + (readPos + 1 + 2)).toNat ∧
      resume env fuel socket (.field (left + 1) readPos) =
        Blocking.readBytes env rest (extendShort dataLen) >>= fun r =>
          resume env fuel r.2 (.field left (readPos + 1 + 2 + extendShort dataLen)) := by
  rcases h.skipByte with ⟨_, socket', hByte, hNext⟩ | ⟨-, hOut, hWrap⟩
  · have hLeByte := h.le_add (show (1 : UInt64).toNat < 2 ^ 62 by decide)
    rw [UInt64.add_assoc] at hNext hLeByte
    rcases hNext.readShort_cases with ⟨_, rest, hShort', hRead, hName⟩ | ⟨e, -, hShort', -⟩
    · cases hShort.symm.trans hShort'
      have hLeShort := hNext.le_add (show (2 : UInt64).toNat < 2 ^ 62 by decide)
      rw [UInt64.add_assoc] at hName hLeShort
      refine ⟨rest, hName, hLeByte.trans hLeShort, ?_⟩
      rw [resume, Blocking.readFields, hByte, ok_bind]
      dsimp only
      rw [hRead, ok_bind]
      dsimp only
      rw [bind_assoc]
      rfl
    · cases hShort.symm.trans hShort'
  · rw [UInt64.add_assoc] at hOut hWrap
    rw [readShort_beyond (by omega) (by omega)] at hShort
    cases hShort

/-- A tag up to its text. -/
theorem At.text_eq {readPos : UInt64} (h : At byteBuf (pos + readPos) socket) {typeClass : UInt8}
    {dataLen : Int16} (hByte : Default.readByte byteBuf (pos + readPos) = .ok (typeClass, 1))
    (hText : typeClass = 0x4C ∨ typeClass = tcString)
    (hShort : Default.readShort byteBuf (pos + (readPos + 1)) = .ok (dataLen, 2)) (env : Env) :
    ∃ rest, At byteBuf (pos + (readPos + 1 + 2)) rest ∧
      tagTurn env socket = Blocking.readBytes env rest (extendShort dataLen) >>= fun r =>
        pure (.inl r.2) := by
  rcases h.readByte_cases with ⟨_, socket', hByte', hRead, hTag⟩ | ⟨e, -, hByte', -⟩
  · cases hByte.symm.trans hByte'
    rw [UInt64.add_assoc] at hTag
    rcases hTag.readShort_cases with ⟨_, rest, hShort', hRead', hName⟩ | ⟨e, -, hShort', -⟩
    · cases hShort.symm.trans hShort'
      rw [UInt64.add_assoc] at hName
      refine ⟨rest, hName, ?_⟩
      rw [tagTurn, hRead, ok_bind]
      dsimp only
      rcases hText with rfl | rfl
      · rw [if_neg (by decide), if_neg (by decide), if_pos (by decide), hRead']
        rfl
      · rw [if_neg (by decide), if_neg (by decide), if_pos (by decide), hRead']
        rfl
    · cases hShort.symm.trans hShort'
  · cases hByte.symm.trans hByte'

section

variable (hRoomy : Roomy env)
include hRoomy

/-- A field, and the places behind it. -/
theorem At.follows_field {readPos : UInt64} (h : At byteBuf (pos + readPos) socket) {left : Nat}
    {dataLen : Int16} (hShort : Default.readShort byteBuf (pos + (readPos + 1)) = .ok (dataLen, 2))
    (hFuel : byteBuf.bytes.length - (pos + readPos).toNat < fuel) :
    Follows env byteBuf pos (.field left (readPos + 1 + 2 + extendShort dataLen))
      (resume env fuel socket (.field (left + 1) readPos) >>= Blocking.readLast env) := by
  rcases h.field_eq hShort left env fuel with ⟨rest, hName, hLe, hEq⟩
  rw [hEq]
  rcases hName.skipText hRoomy dataLen with hNeg | ⟨-, hBeyond⟩ | ⟨hPos, _, rest, hText, hLast⟩
  · rw [hNeg]
    exact .tooLong rfl
  · rw [UInt64.add_assoc pos] at hBeyond
    exact .stuck hBeyond
  · have hLeText := hName.le_add ((extendShort_lt hPos).trans (by decide))
    rw [UInt64.add_assoc pos] at hLast hLeText
    rw [hText, ok_bind]
    exact @Follows.here _ _ _ _ _ _ fuel hLast (by rw [place]; omega) rfl

/-- A tag, and the tags behind it. -/
theorem At.follows_tag {readPos readPos' : UInt64} (h : At byteBuf (pos + readPos) socket)
    (hNext : TagNext byteBuf pos readPos readPos')
    (hFuel : byteBuf.bytes.length - (pos + readPos).toNat < fuel) :
    Follows env byteBuf pos (.tag readPos')
      (resume env fuel socket (.tag readPos) >>= Blocking.readLast env) := by
  rcases Nat.exists_eq_succ_of_ne_zero (Nat.ne_zero_of_lt hFuel) with ⟨fuel, rfl⟩
  rw [resume, Blocking.readTags]
  cases hNext with
  | @reference handle hByte hInt =>
    rcases h.readByte_cases with ⟨_, socket', hByte', hRead, hTag⟩ | ⟨e, -, hByte', -⟩
    · cases hByte.symm.trans hByte'
      rw [UInt64.add_assoc] at hTag
      rcases hTag.readInt.cases with ⟨_, ⟨_, rest⟩, hInt', hRead', -, rfl, hLast⟩ | ⟨e, _, hInt', -⟩
      · cases hInt.symm.trans hInt'
        rw [UInt64.add_assoc] at hLast
        have hShorter := shorter_of_lt (readByte_lt hByte) rfl
          (show (4 : UInt64).toNat < 2 ^ 16 by decide)
        have hTurn : tagTurn env socket = .ok (.inl rest) := by
          rw [tagTurn, hRead, ok_bind]
          dsimp only
          rw [if_neg (by decide), if_pos rfl, hRead']
          rfl
        rw [loop_succ_of_next hTurn]
        exact @Follows.here _ _ _ _ _ _ fuel hLast (by rw [place]; omega) rfl
      · cases hInt.symm.trans hInt'
    · cases hByte.symm.trans hByte'
  | @text typeClass dataLen hByte hText hShort =>
    rcases h.text_eq hByte hText hShort env with ⟨rest, hName, hTurn⟩
    rcases hName.skipText hRoomy dataLen with hNeg | ⟨-, hBeyond⟩ | ⟨hPos, _, rest, hBytes, hLast⟩
    · rw [hNeg] at hTurn
      rw [loop_succ_of_error hTurn]
      exact .tooLong rfl
    · rw [UInt64.add_assoc pos] at hBeyond
      exact .stuck hBeyond
    · have hSize := extendShort_lt hPos
      have hShorter := shorter_of_lt (readByte_lt hByte)
        (UInt64.add_assoc _ 2 (extendShort dataLen))
        (by rw [UInt64.toNat_add, show (2 : UInt64).toNat = 2 from rfl]; omega)
      rw [UInt64.add_assoc pos] at hLast
      rw [hBytes] at hTurn
      rw [loop_succ_of_next hTurn]
      exact @Follows.here _ _ _ _ _ _ fuel hLast (by rw [place]; omega) rfl

/-- Place by place the two readers follow each other. -/
theorem At.follows (h : At byteBuf pos socket) (hFuel : byteBuf.bytes.length < fuel)
    (classDesc : List UInt8) {cursor : Cursor} (hComes : Comes byteBuf pos cursor) :
    Follows env byteBuf pos cursor (Blocking.readProlog env fuel socket classDesc) := by
  induction hComes with
  | @count dataLen hByte hShort =>
    rcases h.readByte_cases with ⟨typeClass, socket, hByte', hRead, hNext⟩ | ⟨e, -, hByte', -⟩
    · cases hByte.symm.trans hByte'
      rcases hNext.readShort_cases with ⟨dataLen', socket, hShort', hRead', hName⟩ |
        ⟨e, -, hShort', -⟩
      · cases hShort.symm.trans hShort'
        rw [UInt64.add_assoc] at hName
        rw [Blocking.readProlog, hRead, ok_bind]
        dsimp only
        rw [if_pos rfl, hRead', ok_bind]
        exact hName.follows_name hRoomy dataLen hFuel
      · cases hShort.symm.trans hShort'
    · cases hByte.symm.trans hByte'
  | @fields readPos fieldLen hComes hShort ih =>
    rcases ih with hTooLong | hStuck | @⟨socket', fuel', hAt, hLeft, hEq⟩
    · exact .tooLong hTooLong
    · exact absurd hShort (hStuck fieldLen)
    · rcases hAt.readShort_cases with ⟨value, rest, hShort', hRead, hNext⟩ | ⟨e, -, hShort', -⟩
      · cases hShort.symm.trans hShort'
        have hLe := hAt.le_add (show (2 : UInt64).toNat < 2 ^ 62 by decide)
        rw [place, UInt64.add_assoc] at hNext hLe
        rw [place] at hLeft
        refine @Follows.here _ _ _ _ _ _ fuel' hNext (show _ < _ by rw [place]; omega) ?_
        rw [hEq, resume, hRead]
        rfl
      · cases hShort.symm.trans hShort'
  | @field left readPos dataLen hComes hShort ih =>
    rcases ih with hTooLong | hStuck | ⟨hAt, hLeft, hEq⟩
    · exact .tooLong hTooLong
    · exact absurd hShort (not_readShort_beyond hStuck)
    · rw [hEq]
      exact hAt.follows_field hRoomy hShort hLeft
  | @tags readPos hComes ih =>
    rcases ih with hTooLong | hStuck | ⟨hAt, hLeft, hEq⟩
    · exact .tooLong hTooLong
    · exact .stuck hStuck
    · exact .here hAt hLeft hEq
  | @tag readPos readPos' hComes hNext ih =>
    rcases ih with hTooLong | hStuck | ⟨hAt, hLeft, hEq⟩
    · exact .tooLong hTooLong
    · have hByte := hStuck.readByte_eq
      cases hNext with
      | reference hByte' _ => cases hByte.symm.trans hByte'
      | text hByte' _ _ => cases hByte.symm.trans hByte'
    · rw [hEq]
      exact hAt.follows_tag hRoomy hNext hLeft

/-- Where the reader on a buffer goes back, the one on a socket asks for a vector that is too long. -/
theorem At.readProlog_negative (h : At byteBuf pos socket) (hFuel : byteBuf.bytes.length < fuel)
    (classDesc : List UInt8) {dataLen : Int16} (hLength : Length byteBuf pos dataLen)
    (hNeg : dataLen.toInt < 0) :
    Blocking.readProlog env fuel socket classDesc = .error tooLong := by
  cases hLength with
  | name hByte hShort =>
    rcases h.readByte_cases with ⟨_, socket, hByte', hRead, hNext⟩ | ⟨e, -, hByte', -⟩
    · cases hByte.symm.trans hByte'
      rcases hNext.readShort_cases with ⟨_, socket, hShort', hRead', hName⟩ | ⟨e, -, hShort', -⟩
      · cases hShort.symm.trans hShort'
        rw [Blocking.readProlog, hRead, ok_bind]
        dsimp only
        rw [if_pos rfl, hRead', ok_bind]
        dsimp only
        rw [readBytes_negative env socket hNeg]
        rfl
      · cases hShort.symm.trans hShort'
    · cases hByte.symm.trans hByte'
  | @field left readPos _ hComes hShort =>
    rcases h.follows hRoomy hFuel classDesc hComes with hTooLong | hStuck |
      @⟨socket', fuel', hAt, hLeft, hEq⟩
    · exact hTooLong
    · exact absurd hShort (not_readShort_beyond hStuck)
    · have hAt : At byteBuf (pos + readPos) socket' := hAt
      rcases hAt.field_eq hShort left env fuel' with ⟨rest, -, -, hField⟩
      rw [hEq, hField, readBytes_negative env rest hNeg]
      rfl
  | @text readPos typeClass _ hComes hByte hText hShort =>
    rcases h.follows hRoomy hFuel classDesc hComes with hTooLong | hStuck |
      @⟨socket', fuel', hAt, hLeft, hEq⟩
    · exact hTooLong
    · have hStuckByte := hStuck.readByte_eq
      cases hByte.symm.trans hStuckByte
    · rcases Nat.exists_eq_succ_of_ne_zero (Nat.ne_zero_of_lt hLeft) with ⟨fuel', rfl⟩
      rcases hAt.text_eq hByte hText hShort env with ⟨rest, -, hTurn⟩
      rw [readBytes_negative env rest hNeg] at hTurn
      rw [hEq, resume, Blocking.readTags, loop_succ_of_error hTurn]
      rfl

/-- Where the descriptor of an optional part has a negative length, the part cannot be read. -/
theorem At.readLocationInfo_negative (h : At byteBuf pos socket)
    (hByte : Default.readByte byteBuf pos = .ok (tcObject, 1))
    (hFuel : byteBuf.bytes.length < fuel) {dataLen : Int16}
    (hLength : Length byteBuf (pos + 1) dataLen) (hNeg : dataLen.toInt < 0) :
    Blocking.readLocationInfo env fuel socket = .error tooLong := by
  rcases h.readByte_cases with ⟨_, rest, hByte', hRead, hNext⟩ | ⟨e, -, hByte', -⟩
  · cases hByte.symm.trans hByte'
    rw [Blocking.readLocationInfo, hRead, ok_bind]
    dsimp only
    rw [if_neg (by decide), if_pos rfl, hNext.readProlog_negative hRoomy hFuel _ hLength hNeg]
    rfl
  · cases hByte.symm.trans hByte'

theorem At.readMDC_negative (h : At byteBuf pos socket)
    (hByte : Default.readByte byteBuf pos = .ok (tcObject, 1))
    (hFuel : byteBuf.bytes.length < fuel) {dataLen : Int16}
    (hLength : Length byteBuf (pos + 1) dataLen) (hNeg : dataLen.toInt < 0) :
    Blocking.readMDC env fuel socket = .error tooLong := by
  rcases h.readByte_cases with ⟨_, rest, hByte', hRead, hNext⟩ | ⟨e, -, hByte', -⟩
  · cases hByte.symm.trans hByte'
    rw [Blocking.readMDC, hRead, ok_bind]
    dsimp only
    rw [if_neg (by decide), if_pos rfl, Blocking.readObject, Blocking.readTypeClass_skip, ok_bind,
      hNext.readProlog_negative hRoomy hFuel _ hLength hNeg]
    rfl
  · cases hByte.symm.trans hByte'

section

variable (hAt : At byteBuf 0 socket)
  (hNever : Blocking.readMessage env (byteBuf.bytes.length + 1) socket ≠ .error tooLong)
include hAt hNever

/-- The reader goes on past the event's descriptor only if no length in it is negative. -/
theorem At.event_below (hTag : Default.readObjectTag byteBuf = .ok pos) : LengthsBelow byteBuf pos := by
  intro dataLen hLength
  by_contra hNeg
  rcases hAt.readObjectTag.cases with ⟨_, rest, hTag', hRead, hNext⟩ | ⟨e, _, hTag', -⟩
  · cases hTag.symm.trans hTag'
    refine hNever ?_
    rw [Blocking.readMessage, Blocking.readBeforeMDC, Blocking.readBeforeLocation, hRead, ok_bind,
      hNext.readProlog_negative hRoomy (Nat.lt_succ_self _) _ hLength (Int.not_le.mp hNeg)]
    rfl
  · cases hTag.symm.trans hTag'

theorem At.location_below {header : Int64 × LogString}
    (hBefore : Default.readBeforeLocation env (byteBuf.bytes.length + 1) byteBuf = .ok (header, pos))
    (hByte : Default.readByte byteBuf pos = .ok (tcObject, 1)) : LengthsBelow byteBuf (pos + 1) := by
  intro dataLen hLength
  by_contra hNeg
  rcases (hAt.readBeforeLocation_of hRoomy fun _ => hAt.event_below hRoomy hNever).cases with
    ⟨_, ⟨_, rest⟩, hBefore', hRead, -, hNext⟩ | ⟨e, _, hBefore', -⟩
  · cases hBefore.symm.trans hBefore'
    refine hNever ?_
    rw [Blocking.readMessage, Blocking.readBeforeMDC, hRead, ok_bind]
    dsimp only
    rw [hNext.readLocationInfo_negative hRoomy hByte (Nat.lt_succ_self _) hLength
      (Int.not_le.mp hNeg)]
    rfl
  · cases hBefore.symm.trans hBefore'

theorem At.mdc_below {before : (Int64 × LogString) × LogString}
    (hBefore : Default.readBeforeMDC env (byteBuf.bytes.length + 1) byteBuf = .ok (before, pos))
    (hByte : Default.readByte byteBuf pos = .ok (tcObject, 1)) : LengthsBelow byteBuf (pos + 1) := by
  intro dataLen hLength
  by_contra hNeg
  rcases (hAt.readBeforeMDC_of hRoomy (fun _ => hAt.event_below hRoomy hNever)
    fun _ _ => hAt.location_below hRoomy hNever).cases with
    ⟨_, ⟨_, rest⟩, hBefore', hRead, -, hNext⟩ | ⟨e, _, hBefore', -⟩
  · cases hBefore.symm.trans hBefore'
    refine hNever ?_
    rw [Blocking.readMessage, hRead, ok_bind]
    dsimp only
    rw [hNext.readMDC_negative hRoomy hByte (Nat.lt_succ_self _) hLength (Int.not_le.mp hNeg)]
    rfl
  · cases hBefore.symm.trans hBefore'

end

/-- No exception is raised exactly when every length that the reader comes to is below `0x8000`. -/
theorem createLoggingEvent_returns (hSocket : socket.flatten = byteBuf.bytes) :
    (∃ r, createLoggingEvent env socket = .ok r) ↔ MessageBelow env byteBuf := by
  have hAt : At byteBuf 0 socket := ⟨Nat.zero_le _, hSocket⟩
  constructor
  · intro hReturns
    have hNever : readMessage env (byteBuf.bytes.length + 1) socket ≠ .error tooLong := by
      intro hMessage
      rcases hReturns with ⟨r, hReturns⟩
      rw [createLoggingEvent, hSocket, hMessage] at hReturns
      cases hReturns
    intro pos hDescriptor
    cases hDescriptor with
    | event hTag => exact hAt.event_below hRoomy hNever hTag
    | location hBefore hByte => exact hAt.location_below hRoomy hNever hBefore hByte
    | mdc hBefore hByte => exact hAt.mdc_below hRoomy hNever hBefore hByte
  · intro hBelow
    rcases createLoggingEvent_agrees hRoomy hSocket hBelow with
      ⟨event, n, rest, -, -, -, hCall, -⟩ | ⟨e, -, -, hCall⟩
    · exact ⟨_, hCall⟩
    · exact ⟨_, hCall⟩

end

end Blocking

end Default

/-- Only the documented exceptions escape, each loader by its own lengths: those of the strings of
the Bytes protocol, where they lead through the descriptors of the Default protocol, and whether they
are negative there for the reader on a socket. -/
theorem escapes_iff {limit : Nat} (hLimit : 65536 ≤ limit) (byteBuf : ByteBuf)
    (hBytes : byteBuf.bytes.length ≤ limit) :
    (Documented (Bytes.createLoggingEvent (.limited limit) byteBuf).1 ↔
      Bytes.Fits limit byteBuf Bytes.parts 0) ∧
    (Documented (Default.createLoggingEvent (.limited limit) byteBuf).1 ↔
      Default.Straight (.limited limit) byteBuf) ∧
    ∀ socket : Default.Blocking.Segments, socket.flatten = byteBuf.bytes →
      ((∃ r, Default.Blocking.createLoggingEvent (.limited limit) socket = .ok r) ↔
        Default.Blocking.MessageBelow (.limited limit) byteBuf) :=
  ⟨Bytes.createLoggingEvent_documented hBytes, Default.createLoggingEvent_documented hLimit byteBuf,
    fun _ hSocket => Default.Blocking.createLoggingEvent_returns ⟨rfl, hLimit⟩ hSocket⟩

/-- A string of the Bytes protocol that would have 2147483647 bytes. -/
def hugeLength : ByteBuf := ⟨[0x7F, 0xFF, 0xFF, 0xFF], by decide⟩

theorem escapes_iff_hugeLength :
    Documented (Bytes.createLoggingEvent (.limited 65536) hugeLength).1 ↔
      Bytes.Fits 65536 hugeLength Bytes.parts 0 :=
  (escapes_iff (Nat.le_refl 65536) hugeLength (by decide)).1

theorem not_documented : ¬∀ (limit : Nat) (byteBuf : ByteBuf), 65536 ≤ limit →
    byteBuf.bytes.length ≤ limit → Documented (Bytes.createLoggingEvent (.limited limit) byteBuf).1 ∧
      Documented (Default.createLoggingEvent (.limited limit) byteBuf).1 ∧
      ∀ socket : Default.Blocking.Segments, socket.flatten = byteBuf.bytes →
        ∃ r, Default.Blocking.createLoggingEvent (.limited limit) socket = .ok r := by
  intro hAll
  have hBad : (Bytes.createLoggingEvent (.limited 65536) hugeLength).1 = .error .badAlloc := by
    decide
  exact (hAll 65536 hugeLength (Nat.le_refl _) (by decide)).1.failure hBad

end LogSocket
