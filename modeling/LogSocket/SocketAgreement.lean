import LogSocket.SocketServer
import LogSocket.Outcomes

/-! The readers on a socket against the readers on a buffer with the same bytes: reader by reader,
both return the same value and leave off at the same byte, or one throws one of the two exceptions
where the other returns `false`. -/

namespace LogSocket.Default.Blocking

open Lib ByteBuf

section

variable {socket rest : Segments} {bytes : List UInt8} {len : Nat}

theorem recv_eq_none (h : recv len socket = none) : socket.flatten = [] := by
  induction socket with
  | nil => rfl
  | cons segment segments ih =>
    rw [recv] at h
    split at h
    next hNil =>
      rw [List.flatten_cons, hNil, List.nil_append]
      exact ih h
    next => cases h

theorem recv_eq_some (h : recv len socket = some (bytes, rest)) (hLen : 0 < len) :
    0 < bytes.length ∧ bytes.length ≤ len ∧ socket.flatten = bytes ++ rest.flatten := by
  induction socket with
  | nil => cases h
  | cons segment segments ih =>
    rw [recv] at h
    split at h
    next hNil =>
      rw [List.flatten_cons, hNil, List.nil_append]
      exact ih h
    next hNe =>
      rw [Option.some.injEq, Prod.mk.injEq] at h
      rcases h with ⟨rfl, rfl⟩
      have hPos := List.length_pos_iff.mpr hNe
      refine ⟨?_, List.length_take_le _ _, ?_⟩
      · rw [List.length_take]
        omega
      · rw [List.flatten_cons, List.flatten_cons, ← List.append_assoc, List.take_append_drop]

/-- There are turns enough for a `read`: it takes as many bytes as are asked for, if they come. -/
theorem readTurns_ok {turns left : Nat} (hTurns : left ≤ turns)
    (hLeft : left ≤ socket.flatten.length) :
    ∃ rest, readTurns turns left socket = .ok (socket.flatten.take left, rest) ∧
      rest.flatten = socket.flatten.drop left := by
  induction turns generalizing left socket with
  | zero =>
    rw [Nat.le_zero.mp hTurns]
    exact ⟨socket, rfl, rfl⟩
  | succ turns ih =>
    rw [readTurns]
    split
    next hZero =>
      rw [hZero]
      exact ⟨socket, rfl, rfl⟩
    next hPos =>
      cases hRecv : recv left socket with
      | none =>
        rw [recv_eq_none hRecv, List.length_nil] at hLeft
        omega
      | some r =>
        rcases r with ⟨bytes, rest⟩
        rcases recv_eq_some hRecv (Nat.pos_of_ne_zero hPos) with ⟨hRead, hLe, hFlat⟩
        rw [hFlat, List.length_append] at hLeft
        rcases ih (show left - bytes.length ≤ turns by omega)
          (show left - bytes.length ≤ rest.flatten.length by omega) with ⟨rest', hMore, hRest⟩
        refine ⟨rest', ?_, ?_⟩
        · dsimp only
          rw [hMore, hFlat, List.take_append, List.take_of_length_le hLe]
          rfl
        · rw [hRest, hFlat, List.drop_append, List.drop_of_length_le hLe, List.nil_append]

theorem readTurns_short {turns left : Nat} (hTurns : left ≤ turns)
    (hLeft : socket.flatten.length < left) : readTurns turns left socket = .error .unread := by
  induction turns generalizing left socket with
  | zero => omega
  | succ turns ih =>
    rw [readTurns, if_neg (by omega)]
    cases hRecv : recv left socket with
    | none => rfl
    | some r =>
      rcases r with ⟨bytes, rest⟩
      rcases recv_eq_some hRecv (by omega) with ⟨hRead, -, hFlat⟩
      rw [hFlat, List.length_append] at hLeft
      dsimp only
      rw [ih (by omega) (by omega)]
      rfl

theorem read_ok (h : len ≤ socket.flatten.length) :
    ∃ rest, read socket len = .ok (socket.flatten.take len, rest) ∧
      rest.flatten = socket.flatten.drop len := readTurns_ok (Nat.le_refl _) h

theorem read_short (h : socket.flatten.length < len) : read socket len = .error .unread :=
  readTurns_short (Nat.le_refl _) h

end

/-- A reader throws an exception that it documents, the other returns `false`. -/
def Refuses (e : Fail) (stop : Stop) : Prop := e.documented ∧ stop = .unread

/-- The bytes of a socket are those of a buffer from an offset on. -/
structure At (byteBuf : ByteBuf) (pos : UInt64) (socket : Segments) : Prop where
  within : pos.toNat ≤ byteBuf.bytes.length
  bytes : socket.flatten = byteBuf.bytes.drop pos.toNat

/-- The same value, and the same bytes behind it. -/
def SameAt {α : Type} (byteBuf : ByteBuf) (pos : UInt64) (r : α × UInt64) (r' : α × Segments) : Prop :=
  r.1 = r'.1 ∧ At byteBuf (pos + r.2) r'.2

variable {env : Env} {byteBuf : ByteBuf} {pos : UInt64} {socket : Segments} {fuel : Nat}

theorem At.length (h : At byteBuf pos socket) :
    socket.flatten.length = byteBuf.bytes.length - pos.toNat := by
  rw [h.bytes, List.length_drop]

theorem At.read_ok {size : UInt64} (h : At byteBuf pos socket)
    (hIn : pos.toNat + size.toNat ≤ byteBuf.bytes.length) :
    ∃ rest, read socket size.toNat = .ok ((byteBuf.bytes.drop pos.toNat).take size.toNat, rest) ∧
      At byteBuf (pos + size) rest := by
  have hLe := byteBuf.size_le
  have hLength := h.length
  have hNext := UInt64.toNat_add pos size
  unfold maxSize at hLe
  rcases Blocking.read_ok (show size.toNat ≤ socket.flatten.length by omega) with
    ⟨rest, hRead, hRest⟩
  rw [Nat.mod_eq_of_lt (by omega)] at hNext
  refine ⟨rest, ?_, by omega, ?_⟩
  · rw [hRead, h.bytes]
  · rw [hRest, h.bytes, List.drop_drop, hNext]

theorem At.read_short {size : UInt64} (h : At byteBuf pos socket)
    (hOut : byteBuf.bytes.length < pos.toNat + size.toNat) :
    read socket size.toNat = .error .unread := by
  have hLength := h.length
  have hWithin := h.within
  exact Blocking.read_short (by omega)

/-- A read against a checked copy. -/
theorem At.fetch {len : Nat} (h : At byteBuf pos socket) (size : UInt64) (hLen : size.toNat = len)
    (hSize : len < 2 ^ 62) :
    Relates Refuses (fun bytes r => bytes = r.1 ∧ bytes.length = len ∧
        At byteBuf (pos + size) r.2)
      (byteBuf.fetch pos size) (read socket len) := by
  subst hLen
  have hLe := byteBuf.size_le
  have hWithin := h.within
  unfold maxSize at hLe
  by_cases hIn : pos.toNat + size.toNat ≤ byteBuf.bytes.length
  · rcases h.read_ok hIn with ⟨rest, hRead, hRest⟩
    rw [fetch_ok hIn, hRead]
    refine ⟨rfl, ?_, hRest⟩
    rw [List.length_take, List.length_drop]
    omega
  · rw [fetch_small (by omega) (by omega), h.read_short (by omega)]
    exact ⟨trivial, rfl⟩

theorem At.readByte (h : At byteBuf pos socket) :
    Relates Refuses (fun r r' => r.2 = 1 ∧ SameAt byteBuf pos r r')
      (Default.readByte byteBuf pos) (readByte socket) := by
  apply (h.fetch 1 rfl (by decide)).bind
  rintro bytes ⟨_, rest⟩ - - ⟨rfl, -, hNext⟩
  exact ⟨rfl, rfl, hNext⟩

theorem At.readShort (h : At byteBuf pos socket) :
    Relates Refuses (fun r r' => r.2 = 2 ∧ SameAt byteBuf pos r r')
      (Default.readShort byteBuf pos) (readShort socket) := by
  apply (h.fetch 2 rfl (by decide)).bind
  rintro bytes ⟨_, rest⟩ - - ⟨rfl, hLength, hNext⟩
  exact ⟨rfl, (swapShort_loadShort hLength).symm, hNext⟩

theorem At.readInt (h : At byteBuf pos socket) :
    Relates Refuses (fun r r' => r.2 = 4 ∧ SameAt byteBuf pos r r')
      (Default.readInt byteBuf pos) (readInt socket) := by
  apply (h.fetch 4 rfl (by decide)).bind
  rintro bytes ⟨_, rest⟩ - - ⟨rfl, -, hNext⟩
  exact ⟨rfl, rfl, hNext⟩

theorem At.readLong (h : At byteBuf pos socket) :
    Relates Refuses (fun r r' => r.2 = 8 ∧ SameAt byteBuf pos r r')
      (Default.readLong byteBuf pos) (readLong socket) := by
  apply (h.fetch 8 rfl (by decide)).bind
  rintro bytes ⟨_, rest⟩ - - ⟨rfl, -, hNext⟩
  exact ⟨rfl, rfl, hNext⟩

theorem At.readByte_cases (h : At byteBuf pos socket) :
    (∃ byte rest, Default.readByte byteBuf pos = .ok (byte, 1) ∧
      Blocking.readByte socket = .ok (byte, rest) ∧ At byteBuf (pos + 1) rest) ∨
    ∃ e : Fail, e.documented ∧ Default.readByte byteBuf pos = .error e ∧
      Blocking.readByte socket = .error .unread := by
  rcases h.readByte.cases with ⟨r, r', hRead, hRead', hSame⟩ | ⟨e, e', hRead, hRead', hSmall, hStop⟩
  · rcases r with ⟨byte, size⟩
    rcases r' with ⟨byte', rest⟩
    rcases hSame with ⟨hSize, hByte, hNext⟩
    dsimp only at hSize hByte hNext
    subst hSize hByte
    exact .inl ⟨byte, rest, hRead, hRead', hNext⟩
  · subst hStop
    exact .inr ⟨e, hSmall, hRead, hRead'⟩

theorem At.readShort_cases (h : At byteBuf pos socket) :
    (∃ value rest, Default.readShort byteBuf pos = .ok (value, 2) ∧
      Blocking.readShort socket = .ok (value, rest) ∧ At byteBuf (pos + 2) rest) ∨
    ∃ e : Fail, e.documented ∧ Default.readShort byteBuf pos = .error e ∧
      Blocking.readShort socket = .error .unread := by
  rcases h.readShort.cases with ⟨r, r', hRead, hRead', hSame⟩ | ⟨e, e', hRead, hRead', hSmall, hStop⟩
  · rcases r with ⟨value, size⟩
    rcases r' with ⟨value', rest⟩
    rcases hSame with ⟨hSize, hValue, hNext⟩
    dsimp only at hSize hValue hNext
    subst hSize hValue
    exact .inl ⟨value, rest, hRead, hRead', hNext⟩
  · subst hStop
    exact .inr ⟨e, hSmall, hRead, hRead'⟩

/-- Asserts are compiled out, and what a string or a name may need can be allocated. -/
structure Roomy (env : Env) : Prop where
  asserts : env.asserts = false
  alloc : 65536 ≤ env.allocLimit

theorem Roomy.assert_eq (h : Roomy env) (condition : Bool) : env.assert condition = .ok () :=
  env.assert_off h.asserts condition

theorem Roomy.alloc_eq (h : Roomy env) {n : UInt64} (hn : n.toNat ≤ 65536) :
    env.alloc n = .ok () := by
  have hAlloc := h.alloc
  have hMin : ¬min env.allocLimit maxSize < n.toNat := by
    unfold maxSize
    omega
  simp [Env.alloc, hMin, pure, Except.pure]

theorem Roomy.refuse_eq (h : Roomy env) {α : Type} :
    (refuse env : Except Stop α) = .error .unread :=
  refuse_off h.asserts

/-- A condition on what was read. -/
theorem require_accept (condition : Bool) (what : Message) :
    Relates Refuses (fun _ _ => condition = true) (require condition (.invalid what))
      (accept condition) := by
  cases condition with
  | true => exact rfl
  | false => exact ⟨trivial, rfl⟩

theorem At.readTypeClass (h : At byteBuf pos socket) (tag : UInt8) (what : Message)
    (skipTypeClass : Bool) :
    Relates Refuses (fun size => At byteBuf (pos + size))
      (Default.readTypeClass tag what byteBuf pos skipTypeClass)
      (Blocking.readTypeClass tag socket skipTypeClass) := by
  unfold Default.readTypeClass Blocking.readTypeClass
  split
  · apply Relates.ok_iff.mpr
    rw [UInt64.add_zero]
    exact h
  · apply h.readByte.bind
    rintro ⟨typeClass, size⟩ ⟨_, socket⟩ - - ⟨-, rfl, hNext⟩
    apply (require_accept _ what).bind
    intro _ _ _ _ _
    exact hNext

/-- `Q` lets the two readers of a string end together, where it is cut and where it finds no room. -/
structure Joint (env : Env) (Q : Fail → Stop → Prop) : Prop where
  refuses : ∀ e stop, Refuses e stop → Q e stop
  alloc {n : UInt64} : n.toNat ≤ 65536 →
    Relates Q (fun _ _ => True) (env.alloc n) (noexcept (env.alloc n))

theorem Roomy.joint (h : Roomy env) : Joint env Refuses where
  refuses _ _ := id
  alloc hn := by
    rw [h.alloc_eq hn]
    exact trivial

section

variable {Q : Fail → Stop → Prop} (hJoint : Joint env Q)
include hJoint

theorem At.readString (h : At byteBuf pos socket) (skipTypeClass : Bool) :
    Relates Q (fun r r' => SameAt byteBuf pos r r' ∧ r.1.length < 65536)
      (Default.readString env byteBuf pos skipTypeClass)
      (Blocking.readString env socket skipTypeClass) := by
  apply ((h.readTypeClass tcString .typeString skipTypeClass).allow hJoint.refuses).bind
  intro readPos socket _ _ hTag
  apply ((hTag.fetch 2 rfl (by decide)).allow hJoint.refuses).bind
  rintro bytes ⟨_, socket⟩ - - ⟨rfl, hLength, hNext⟩
  have hLen : (UInt64.ofNat (le bytes.reverse)).toNat < 65536 := by
    have hLe := le_lt bytes.reverse
    rw [List.length_reverse, show bytes.length = 2 from hLength] at hLe
    rw [UInt64.toNat_ofNat']
    omega
  dsimp only
  rw [UInt64.add_assoc] at hNext
  apply (hJoint.alloc hLen.le).bind
  intro _ _ _ _ _
  apply ((hNext.fetch _ rfl (hLen.trans (by decide))).allow hJoint.refuses).map
  rintro data ⟨_, socket⟩ ⟨rfl, hData, hLast⟩
  rw [UInt64.add_assoc] at hLast
  exact ⟨⟨rfl, hLast⟩, hData.trans_lt hLen⟩

theorem At.readUTFString (h : At byteBuf pos socket) (skipTypeClass : Bool) :
    Relates Q (SameAt byteBuf pos) (Default.readUTFString env byteBuf pos skipTypeClass)
      (Blocking.readUTFString env socket skipTypeClass) := by
  apply (h.readString hJoint skipTypeClass).bind
  rintro ⟨data, readPos⟩ ⟨_, socket⟩ - - ⟨⟨rfl, hNext⟩, hLength⟩
  apply (hJoint.alloc ?_).bind
  · intro _ _ _ _ _
    exact ⟨rfl, hNext⟩
  · rw [UInt64.toNat_ofNat']
    dsimp only at hLength
    omega

theorem At.readLogString (h : At byteBuf pos socket) (skipTypeClass : Bool) :
    Relates Q (SameAt byteBuf pos) (Default.readLogString env byteBuf pos skipTypeClass)
      (Blocking.readLogString env socket skipTypeClass) :=
  (h.readString hJoint skipTypeClass).weaken fun _ _ hSame => hSame.1

end

/-- A length of a name or of a text that the reader of the descriptor at `pos` comes to. -/
inductive Length (byteBuf : ByteBuf) (pos : UInt64) : Int16 → Prop
  | name {dataLen : Int16} : Default.readByte byteBuf pos = .ok (tcClassDesc, 1) →
      Default.readShort byteBuf (pos + 1) = .ok (dataLen, 2) → Length byteBuf pos dataLen
  | field {left : Nat} {readPos : UInt64} {dataLen : Int16} :
      Comes byteBuf pos (.field (left + 1) readPos) →
      Default.readShort byteBuf (pos + (readPos + 1)) = .ok (dataLen, 2) →
      Length byteBuf pos dataLen
  | text {readPos : UInt64} {typeClass : UInt8} {dataLen : Int16} :
      Comes byteBuf pos (.tag readPos) →
      Default.readByte byteBuf (pos + readPos) = .ok (typeClass, 1) →
      typeClass = 0x4C ∨ typeClass = tcString →
      Default.readShort byteBuf (pos + (readPos + 1)) = .ok (dataLen, 2) →
      Length byteBuf pos dataLen

theorem Length.length_pos {dataLen : Int16} (h : Length byteBuf pos dataLen) :
    0 < byteBuf.bytes.length := by
  cases h with
  | name hByte _ => exact Nat.zero_lt_of_lt (readByte_lt hByte)
  | field hComes _ => exact hComes.length_pos
  | text hComes _ _ _ => exact hComes.length_pos

/-- Every length in the descriptor is below `0x8000`. -/
def LengthsBelow (byteBuf : ByteBuf) (pos : UInt64) : Prop :=
  ∀ dataLen, Length byteBuf pos dataLen → 0 ≤ dataLen.toInt

/-- An offset behind the end of the buffer, where the check of a copy does not wrap. -/
def Beyond (byteBuf : ByteBuf) (pos : UInt64) : Prop :=
  byteBuf.bytes.length < pos.toNat ∧ pos.toNat + 16 < 2 ^ 64

theorem Beyond.readByte_eq (h : Beyond byteBuf pos) :
    Default.readByte byteBuf pos = .error (.small .small) := by
  rcases h with ⟨hOut, hWrap⟩
  rw [Default.readByte, fetch_small (Nat.lt_add_right _ hOut) (show pos.toNat + 1 < _ by omega)]
  rfl

/-- Here two bytes may begin at the end of the buffer. -/
theorem readShort_beyond (hOut : byteBuf.bytes.length < pos.toNat + 2)
    (hWrap : pos.toNat + 2 < 2 ^ 64) :
    Default.readShort byteBuf pos = .error (.small .small) := by
  rw [Default.readShort, fetch_small hOut hWrap]
  rfl

theorem Beyond.tag (env : Env) {readPos : UInt64} (h : Beyond byteBuf (pos + readPos))
    (hFuel : 0 < fuel) :
    Default.readTags env fuel byteBuf pos readPos = .error (.small .small) := by
  rcases Nat.exists_eq_succ_of_ne_zero hFuel.ne' with ⟨fuel, rfl⟩
  apply loop_succ_of_error
  rw [Default.tagTurn, h.readByte_eq]
  rfl

theorem Beyond.field (env : Env) {readPos : UInt64} (h : Beyond byteBuf (pos + readPos))
    (hFuel : 0 < fuel) (left : Nat) :
    resume env fuel byteBuf pos (.field left readPos) = .error (.small .small) := by
  cases left with
  | zero => exact h.tag env hFuel
  | succ left =>
    have hNext := UInt64.toNat_add (pos + readPos) 1
    rw [UInt64.toNat_one, UInt64.add_assoc] at hNext
    rcases h with ⟨hOut, hWrap⟩
    rw [resume, Default.readFields]
    dsimp only
    rw [readShort_beyond (by omega) (by omega)]
    rfl

/-- The number of the fields stands a little behind. -/
theorem Beyond.count {readPos readPos' more : UInt64} (h : Beyond byteBuf (pos + readPos))
    (hNext : readPos' = readPos + more) (hMore : more.toNat ≤ 9) :
    resume env fuel byteBuf pos (.count readPos') = .error (.small .small) := by
  have hSum := UInt64.toNat_add (pos + readPos) more
  rw [UInt64.add_assoc, ← hNext] at hSum
  rcases h with ⟨hOut, hWrap⟩
  rw [resume, readShort_beyond (by omega) (by omega)]
  rfl

/-- The bytes behind a tag are fewer than those from it on. -/
theorem shorter_of_lt {readPos readPos' size : UInt64}
    (hLt : (pos + readPos).toNat < byteBuf.bytes.length) (hNext : readPos' = readPos + 1 + size)
    (hSize : size.toNat < 2 ^ 16) :
    byteBuf.bytes.length - (pos + readPos').toNat <
      byteBuf.bytes.length - (pos + readPos).toNat := by
  have hOne := UInt64.toNat_add (pos + readPos) 1
  have hMore := UInt64.toNat_add (pos + readPos + 1) size
  have hLe := byteBuf.size_le
  unfold maxSize at hLe
  rw [UInt64.toNat_one] at hOne
  rw [hNext, ← UInt64.add_assoc, ← UInt64.add_assoc]
  omega

/-- Bytes that the reader on a buffer does not look at. -/
theorem At.skip (h : At byteBuf pos socket) {size : UInt64} (hSize : size.toNat < 2 ^ 15) :
    (∃ bytes rest, read socket size.toNat = .ok (bytes, rest) ∧ At byteBuf (pos + size) rest) ∨
    read socket size.toNat = .error .unread ∧ Beyond byteBuf (pos + size) := by
  have hNext := UInt64.toNat_add pos size
  have hWithin := h.within
  have hLe := byteBuf.size_le
  unfold maxSize at hLe
  by_cases hIn : pos.toNat + size.toNat ≤ byteBuf.bytes.length
  · rcases h.read_ok hIn with ⟨rest, hRead, hRest⟩
    exact .inl ⟨_, rest, hRead, hRest⟩
  · exact .inr ⟨h.read_short (by omega), by omega, by omega⟩

theorem At.skipByte (h : At byteBuf pos socket) :
    (∃ byte rest, Blocking.readByte socket = .ok (byte, rest) ∧ At byteBuf (pos + 1) rest) ∨
    Blocking.readByte socket = .error .unread ∧ Beyond byteBuf (pos + 1) := by
  rw [Blocking.readByte]
  rcases h.skip (show (1 : UInt64).toNat < 2 ^ 15 by decide) with
    ⟨bytes, rest, hRead, hRest⟩ | ⟨hRead, hBeyond⟩
  · rw [UInt64.toNat_one] at hRead
    rw [hRead]
    exact .inl ⟨_, rest, rfl, hRest⟩
  · rw [UInt64.toNat_one] at hRead
    rw [hRead]
    exact .inr ⟨rfl, hBeyond⟩

section

variable (hRoomy : Roomy env)
include hRoomy

theorem At.skipBytes (h : At byteBuf pos socket) {size : UInt64} (hSize : size.toNat < 2 ^ 15) :
    (∃ bytes rest, Blocking.readBytes env socket size = .ok (bytes, rest) ∧
      At byteBuf (pos + size) rest) ∨
    Blocking.readBytes env socket size = .error .unread ∧ Beyond byteBuf (pos + size) := by
  rw [Blocking.readBytes, hRoomy.alloc_eq (by omega)]
  exact h.skip hSize

/-- The tags of a descriptor, one turn after the other. -/
theorem At.readTags {readPos : UInt64} (h : At byteBuf (pos + readPos) socket)
    (hComes : Comes byteBuf pos (.tag readPos)) (hBelow : LengthsBelow byteBuf pos)
    (hFuel : byteBuf.bytes.length - (pos + readPos).toNat < fuel) :
    Relates Refuses (fun readPos' rest => At byteBuf (pos + readPos') rest)
      (Default.readTags env fuel byteBuf pos readPos) (Blocking.readTags env fuel socket) := by
  induction fuel generalizing readPos socket with
  | zero => cases hFuel
  | succ fuel ih =>
    unfold Default.readTags Blocking.readTags at ih ⊢
    rw [loop, loop, Default.tagTurn, Blocking.tagTurn, bind_assoc, bind_assoc]
    apply h.readByte.bind
    rintro ⟨typeClass, size⟩ ⟨_, socket⟩ hByte - ⟨rfl, rfl, hNext⟩
    have hLt := readByte_lt hByte
    dsimp only at hNext ⊢
    rw [UInt64.add_assoc] at hNext
    by_cases hEnd : typeClass = tcEndBlockData
    · rw [if_pos hEnd, if_pos hEnd]
      exact hNext
    rw [if_neg hEnd, if_neg hEnd]
    by_cases hReference : typeClass = tcReference
    · rw [if_pos hReference, if_pos hReference, bind_assoc, bind_assoc]
      apply hNext.readInt.bind
      rintro ⟨handle, size⟩ ⟨_, socket⟩ hInt - ⟨rfl, rfl, hAfter⟩
      rw [UInt64.add_assoc] at hAfter
      have hShorter := shorter_of_lt hLt rfl (show (4 : UInt64).toNat < 2 ^ 16 by decide)
      exact ih hAfter (hComes.tag (.reference (hReference ▸ hByte) hInt))
        (hShorter.trans_le (Nat.le_of_lt_succ hFuel))
    rw [if_neg hReference, if_neg hReference]
    by_cases hText : typeClass = 0x4C ∨ typeClass = tcString
    · rw [if_pos hText, if_pos hText, bind_assoc, bind_assoc]
      apply hNext.readShort.bind
      rintro ⟨dataLen, size⟩ ⟨_, socket⟩ hShort - ⟨rfl, rfl, hAfter⟩
      have hSize := extendShort_lt (hBelow dataLen (.text hComes hByte hText hShort))
      have hShorter := shorter_of_lt hLt (UInt64.add_assoc _ 2 (extendShort dataLen))
        (by rw [UInt64.toNat_add, show (2 : UInt64).toNat = 2 from rfl]; omega)
      rw [UInt64.add_assoc] at hAfter
      dsimp only at hAfter ⊢
      rw [bind_assoc]
      rcases hAfter.skipBytes hRoomy hSize with ⟨bytes, socket', hRead, hLast⟩ | ⟨hRead, hBeyond⟩
      · rw [hRead]
        rw [UInt64.add_assoc pos] at hLast
        exact ih hLast (hComes.tag (.text hByte hText hShort))
          (hShorter.trans_le (Nat.le_of_lt_succ hFuel))
      · rw [hRead]
        rw [UInt64.add_assoc pos] at hBeyond
        have hSmall := hBeyond.tag env (show 0 < fuel by omega)
        rw [Default.readTags] at hSmall
        show Relates _ _ (loop _ _ fuel _) _
        rw [hSmall]
        exact ⟨trivial, rfl⟩
    · rw [if_neg hText, if_neg hText, hRoomy.assert_eq, hRoomy.refuse_eq]
      exact ⟨trivial, rfl⟩

/-- The fields of a descriptor, and the tags behind them. -/
theorem At.readFields {left : Nat} {readPos : UInt64} (h : At byteBuf (pos + readPos) socket)
    (hComes : Comes byteBuf pos (.field left readPos)) (hBelow : LengthsBelow byteBuf pos)
    (hFuel : byteBuf.bytes.length < fuel) :
    Relates Refuses (fun readPos' rest => At byteBuf (pos + readPos') rest)
      (resume env fuel byteBuf pos (.field left readPos))
      (Blocking.readFields env left socket >>= Blocking.readTags env fuel) := by
  induction left generalizing readPos socket with
  | zero => exact h.readTags hRoomy hComes.tags hBelow (by omega)
  | succ left ih =>
    rw [resume, Default.readFields, Blocking.readFields, bind_assoc, bind_assoc]
    rcases h.skipByte with ⟨typeCode, rest, hByte, hNext⟩ | ⟨hByte, hOut, hWrap⟩
    · rw [UInt64.add_assoc] at hNext
      rw [hByte]
      dsimp only [ok_bind]
      rw [bind_assoc]
      apply hNext.readShort.bind
      rintro ⟨dataLen, size⟩ ⟨_, socket⟩ hShort - ⟨rfl, rfl, hName⟩
      have hSize := extendShort_lt (hBelow dataLen (.field hComes hShort))
      rw [UInt64.add_assoc] at hName
      dsimp only at hName ⊢
      rw [bind_assoc]
      rcases hName.skipBytes hRoomy hSize with ⟨bytes, socket', hRead, hLast⟩ | ⟨hRead, hBeyond⟩
      · rw [hRead]
        rw [UInt64.add_assoc pos] at hLast
        exact ih hLast (hComes.field hShort)
      · rw [hRead]
        rw [UInt64.add_assoc pos] at hBeyond
        have hSmall := hBeyond.field env (Nat.zero_lt_of_lt hFuel) left
        rw [resume] at hSmall
        rw [hSmall]
        exact ⟨trivial, rfl⟩
    · rw [UInt64.add_assoc] at hOut hWrap
      rw [hByte, readShort_beyond (by omega) (by omega)]
      exact ⟨trivial, rfl⟩

theorem At.readLast {readPos : UInt64} (h : At byteBuf (pos + readPos) socket) :
    Relates Refuses (SameAt byteBuf pos) (finish env byteBuf pos readPos)
      (Blocking.readLast env socket) := by
  unfold finish Blocking.readLast
  rcases h.readByte_cases with ⟨typeClass, rest, hByte, hByte', hNext⟩ | ⟨e, hSmall, hByte, hByte'⟩
  · rw [hByte, hByte']
    dsimp only [ok_bind]
    rw [hRoomy.assert_eq]
    by_cases hTag : typeClass = tcNull
    · rw [if_pos hTag, hTag]
      rw [UInt64.add_assoc] at hNext
      exact ⟨rfl, hNext⟩
    · rw [if_neg hTag, hRoomy.refuse_eq, beq_eq_false_iff_ne.mpr hTag]
      exact ⟨trivial, rfl⟩
  · rw [hByte, hByte']
    dsimp only
    rw [hRoomy.refuse_eq]
    exact ⟨hSmall, rfl⟩

/-- The number of the fields, the fields and the tags. -/
theorem At.readCount {readPos : UInt64} (h : At byteBuf (pos + readPos) socket)
    (hComes : Comes byteBuf pos (.count readPos)) (hBelow : LengthsBelow byteBuf pos)
    (hFuel : byteBuf.bytes.length < fuel) :
    Relates Refuses (fun readPos' rest => At byteBuf (pos + readPos') rest)
      (resume env fuel byteBuf pos (.count readPos))
      (Blocking.readShort socket >>= fun r =>
        Blocking.readFields env r.1.toInt.toNat r.2 >>= Blocking.readTags env fuel) := by
  apply h.readShort.bind
  rintro ⟨fieldLen, size⟩ ⟨_, socket⟩ hShort - ⟨rfl, rfl, hNext⟩
  rw [UInt64.add_assoc] at hNext
  exact hNext.readFields hRoomy (hComes.fields hShort) hBelow hFuel

/-- The descriptor from the name of its class on. -/
theorem At.readName {readPos size : UInt64} (h : At byteBuf (pos + readPos) socket)
    (hSize : size.toNat < 2 ^ 15) (hComes : Comes byteBuf pos (.count (readPos + size + 8 + 1)))
    (hBelow : LengthsBelow byteBuf pos) (hFuel : byteBuf.bytes.length < fuel) :
    Relates Refuses (SameAt byteBuf pos)
      (resume env fuel byteBuf pos (.count (readPos + size + 8 + 1)) >>= finish env byteBuf pos)
      (do
        let (_, socket) ← Blocking.readBytes env socket size
        let (_, socket) ← Blocking.readBytes env socket 8
        let (_, socket) ← Blocking.readByte socket
        let (fieldLen, socket) ← Blocking.readShort socket
        let socket ← Blocking.readFields env fieldLen.toInt.toNat socket
        let socket ← Blocking.readTags env fuel socket
        Blocking.readLast env socket) := by
  rcases h.skipBytes hRoomy hSize with ⟨_, socket, hRead, hSerial⟩ | ⟨hRead, hBeyond⟩
  · rw [UInt64.add_assoc pos] at hSerial
    rw [hRead, ok_bind]
    dsimp only
    rcases hSerial.skipBytes hRoomy (show (8 : UInt64).toNat < 2 ^ 15 by decide) with
      ⟨_, socket, hRead, hFlags⟩ | ⟨hRead, hBeyond⟩
    · rw [UInt64.add_assoc pos] at hFlags
      rw [hRead, ok_bind]
      dsimp only
      rcases hFlags.skipByte with ⟨_, socket, hRead, hCount⟩ | ⟨hRead, hBeyond⟩
      · rw [UInt64.add_assoc pos] at hCount
        rw [hRead, ok_bind]
        dsimp only
        have hBody := (hCount.readCount hRoomy hComes hBelow hFuel).bind
          fun _ _ _ _ hLast => hLast.readLast hRoomy
        simpa only [bind_assoc] using hBody
      · rw [UInt64.add_assoc pos] at hBeyond
        rw [hRead, hBeyond.count (UInt64.add_zero _).symm (by decide)]
        exact ⟨trivial, rfl⟩
    · rw [UInt64.add_assoc pos] at hBeyond
      rw [hRead, hBeyond.count rfl (by decide)]
      exact ⟨trivial, rfl⟩
  · rw [UInt64.add_assoc pos] at hBeyond
    rw [hRead, hBeyond.count (UInt64.add_assoc _ 8 1) (by decide)]
    exact ⟨trivial, rfl⟩

/-- A class descriptor. -/
theorem At.readProlog (h : At byteBuf pos socket) (hBelow : LengthsBelow byteBuf pos)
    (hFuel : byteBuf.bytes.length < fuel) (classDesc : List UInt8) :
    Relates Refuses (SameAt byteBuf pos) (Default.readProlog env fuel byteBuf pos classDesc)
      (Blocking.readProlog env fuel socket classDesc) := by
  rcases h.readByte_cases with ⟨typeClass, socket, hByte, hByte', hNext⟩ | ⟨e, hSmall, hByte, hByte'⟩
  · by_cases hDesc : typeClass = tcClassDesc
    · rw [Blocking.readProlog, hByte', ok_bind]
      dsimp only
      rw [if_pos hDesc]
      subst hDesc
      rcases hNext.readShort_cases with ⟨dataLen, socket, hShort, hShort', hName⟩ |
        ⟨e, hSmall, hShort, hShort'⟩
      · have hComes := Comes.count hByte hShort
        have hSize := extendShort_lt (hBelow dataLen (.name hByte hShort))
        rw [hComes.readProlog_eq hFuel, hShort', ok_bind]
        dsimp only
        rw [UInt64.add_assoc] at hName
        exact hName.readName hRoomy hSize hComes hBelow hFuel
      · rw [Default.readProlog, hByte, ok_bind]
        dsimp only
        rw [if_pos rfl, hShort, hShort']
        exact ⟨hSmall, rfl⟩
    · rw [Default.readProlog, Blocking.readProlog, hByte, hByte', ok_bind, ok_bind]
      dsimp only
      rw [if_neg hDesc, if_neg hDesc]
      by_cases hReference : typeClass = tcReference
      · rw [if_pos hReference, if_pos hReference]
        apply hNext.readInt.bind
        rintro ⟨val, size⟩ ⟨_, socket⟩ - - ⟨rfl, rfl, hLast⟩
        rw [UInt64.add_assoc] at hLast
        exact ⟨rfl, hLast⟩
      · rw [if_neg hReference, if_neg hReference, hRoomy.assert_eq, hRoomy.refuse_eq]
        exact ⟨trivial, rfl⟩
  · rw [Default.readProlog, Blocking.readProlog, hByte, hByte']
    exact ⟨hSmall, rfl⟩

theorem At.fetchBytes (h : At byteBuf pos socket) {size : UInt64} (hSize : size.toNat ≤ 65536) :
    Relates Refuses (fun bytes r => bytes = r.1 ∧ At byteBuf (pos + size) r.2)
      (byteBuf.fetch pos size) (Blocking.readBytes env socket size) := by
  rw [Blocking.readBytes, hRoomy.alloc_eq hSize]
  apply (h.fetch size rfl (by omega)).weaken
  intro bytes r hSame
  exact ⟨hSame.1, hSame.2.2⟩

theorem At.readEntries (mapSize : Nat) {readPos : UInt64} (h : At byteBuf (pos + readPos) socket)
    (value : MDC) :
    Relates Refuses (SameAt byteBuf pos) (Default.readEntries env byteBuf pos mapSize readPos value)
      (Blocking.readEntries env mapSize socket value) := by
  induction mapSize generalizing readPos socket value with
  | zero => exact ⟨rfl, h⟩
  | succ mapSize ih =>
    apply (h.readLogString hRoomy.joint false).bind
    rintro ⟨first, size⟩ ⟨_, socket⟩ - - ⟨rfl, hFirst⟩
    rw [UInt64.add_assoc] at hFirst
    apply (hFirst.readLogString hRoomy.joint false).bind
    rintro ⟨second, size⟩ ⟨_, socket⟩ - - ⟨rfl, hSecond⟩
    rw [UInt64.add_assoc] at hSecond
    exact ih hSecond _

/-- A map behind its tag. -/
theorem At.readObject (h : At byteBuf pos socket) (hBelow : LengthsBelow byteBuf pos)
    (hFuel : byteBuf.bytes.length < fuel) (value : MDC) :
    Relates Refuses (SameAt byteBuf pos) (Default.readObject env fuel byteBuf pos value true)
      (Blocking.readObject env fuel socket value true) := by
  rw [Default.readObject, Blocking.readObject, Default.readTypeClass_skip,
    Blocking.readTypeClass_skip, ok_bind, ok_bind]
  apply (h.readProlog hRoomy hBelow hFuel hashTableDesc).bind
  rintro ⟨_, size⟩ ⟨_, socket⟩ - - ⟨-, hProlog⟩
  dsimp only at hProlog ⊢
  rw [UInt64.zero_add]
  apply (hProlog.fetchBytes hRoomy (show (14 : UInt64).toNat ≤ 65536 by decide)).bind
  rintro data ⟨_, socket⟩ - - ⟨rfl, hData⟩
  rw [UInt64.add_assoc] at hData
  dsimp only
  rw [hRoomy.assert_eq]
  apply (require_accept _ .data).bind
  intro _ _ _ _ _
  apply hData.readInt.bind
  rintro ⟨mapSize, size⟩ ⟨_, socket⟩ - - ⟨rfl, rfl, hSize⟩
  rw [UInt64.add_assoc] at hSize
  apply (hSize.readEntries hRoomy _ value).bind
  rintro ⟨value, readPos⟩ ⟨_, socket⟩ - - ⟨rfl, hEntries⟩
  apply hEntries.readByte.bind
  rintro ⟨endBlock, size⟩ ⟨_, socket⟩ - - ⟨rfl, rfl, hLast⟩
  rw [UInt64.add_assoc] at hLast
  apply (require_accept _ .endBlockData).bind
  intro _ _ _ _ _
  exact ⟨rfl, hLast⟩

/-- An optional part whose descriptor, if there is one, stands behind its tag. -/
theorem At.readLocationInfo (h : At byteBuf pos socket)
    (hBelow : Default.readByte byteBuf pos = .ok (tcObject, 1) → LengthsBelow byteBuf (pos + 1))
    (hFuel : byteBuf.bytes.length < fuel) :
    Relates Refuses (SameAt byteBuf pos) (Default.readLocationInfo env fuel byteBuf pos)
      (Blocking.readLocationInfo env fuel socket) := by
  apply h.readByte.bind
  rintro ⟨typeClass, size⟩ ⟨_, socket⟩ hByte - ⟨rfl, rfl, hNext⟩
  dsimp only at hNext ⊢
  by_cases hNull : typeClass = tcNull
  · rw [if_pos hNull, if_pos hNull]
    exact ⟨rfl, hNext⟩
  rw [if_neg hNull, if_neg hNull]
  by_cases hObject : typeClass = tcObject
  · rw [if_pos hObject, if_pos hObject]
    subst hObject
    apply (hNext.readProlog hRoomy (hBelow hByte) hFuel locationInfoDesc).bind
    rintro ⟨_, size⟩ ⟨_, socket⟩ - - ⟨-, hProlog⟩
    rw [UInt64.add_assoc] at hProlog
    apply (hProlog.readUTFString hRoomy.joint false).map
    rintro ⟨fullInfo, size⟩ ⟨_, socket⟩ ⟨rfl, hLast⟩
    rw [UInt64.add_assoc] at hLast
    exact ⟨rfl, hLast⟩
  · rw [if_neg hObject, if_neg hObject, hRoomy.assert_eq, hRoomy.refuse_eq]
    exact ⟨trivial, rfl⟩

theorem At.readMDC (h : At byteBuf pos socket)
    (hBelow : Default.readByte byteBuf pos = .ok (tcObject, 1) → LengthsBelow byteBuf (pos + 1))
    (hFuel : byteBuf.bytes.length < fuel) :
    Relates Refuses (SameAt byteBuf pos) (Default.readMDC env fuel byteBuf pos)
      (Blocking.readMDC env fuel socket) := by
  apply h.readByte.bind
  rintro ⟨typeClass, size⟩ ⟨_, socket⟩ hByte - ⟨rfl, rfl, hNext⟩
  dsimp only at hNext ⊢
  by_cases hNull : typeClass = tcNull
  · rw [if_pos hNull, if_pos hNull]
    exact ⟨rfl, hNext⟩
  rw [if_neg hNull, if_neg hNull]
  by_cases hObject : typeClass = tcObject
  · rw [if_pos hObject, if_pos hObject]
    subst hObject
    apply (hNext.readObject hRoomy (hBelow hByte) hFuel .empty).map
    rintro ⟨mdcMap, size⟩ ⟨_, socket⟩ ⟨rfl, hLast⟩
    rw [UInt64.add_assoc] at hLast
    exact ⟨rfl, hLast⟩
  · rw [if_neg hObject, if_neg hObject, hRoomy.assert_eq, hRoomy.refuse_eq]
    exact ⟨trivial, rfl⟩

/-- On a tag that the reader on a socket refuses the other returns without an error, but then the
next string is looked for at the same tag, which is not that of a string. -/
theorem At.readNDC (h : At byteBuf pos socket) :
    Relates Refuses (SameAt byteBuf pos) (Default.readNDC env byteBuf pos)
      (Blocking.readNDC env socket) ∨
    (∃ ndc size, Default.readNDC env byteBuf pos = .ok (ndc, size) ∧
      Default.readLogString env byteBuf (pos + size) false = .error (.invalid .typeString)) ∧
    Blocking.readNDC env socket = .error .unread := by
  rcases h.readByte_cases with ⟨typeClass, socket, hByte, hByte', hNext⟩ | ⟨e, hSmall, hByte, hByte'⟩
  · by_cases hNull : typeClass = tcNull
    · left
      rw [Default.readNDC, Blocking.readNDC, hByte, hByte', ok_bind, ok_bind]
      dsimp only
      rw [if_pos hNull, if_pos hNull]
      exact ⟨rfl, hNext⟩
    by_cases hString : typeClass = tcString
    · left
      rw [Default.readNDC, Blocking.readNDC, hByte, hByte', ok_bind, ok_bind]
      dsimp only
      rw [if_neg hNull, if_neg hNull, if_pos hString, if_pos hString]
      apply (hNext.readLogString hRoomy.joint true).map
      rintro ⟨ndc, size⟩ ⟨_, socket⟩ ⟨rfl, hLast⟩
      rw [UInt64.add_assoc] at hLast
      exact ⟨rfl, hLast⟩
    · right
      refine ⟨⟨[], 0, ?_, ?_⟩, ?_⟩
      · rw [Default.readNDC, hByte, ok_bind]
        dsimp only
        rw [if_neg hNull, if_neg hString, hRoomy.assert_eq]
        rfl
      · have hFalse : (typeClass == tcString) = false := beq_eq_false_iff_ne.mpr hString
        rw [UInt64.add_zero, Default.readLogString, Default.readString, Default.readTypeClass,
          if_neg (by decide), hByte, ok_bind]
        dsimp only
        rw [hFalse]
        rfl
      · rw [Blocking.readNDC, hByte', ok_bind]
        dsimp only
        rw [if_neg hNull, if_neg hString, hRoomy.refuse_eq]
  · left
    rw [Default.readNDC, Blocking.readNDC, hByte, hByte']
    exact ⟨hSmall, rfl⟩

end

end LogSocket.Default.Blocking
