import Mathlib.Tactic.Ring
import Mathlib.Tactic.NormNum
import LogSocket.Lib.Outcome

/-! What every loader is written in: the failures of the C++ code, the byte buffer that a loader
reads, `fetch`, the checked copy that each reader makes out of it, and the integers of the wire.
A `size_t` is a `UInt64`, so offsets wrap; a `char` is a `UInt8`; a `LogString` or a `std::string`
is the list of its UTF-8 bytes. -/

namespace LogSocket

open Lib

abbrev LogString := List UInt8

/-- The texts of the exceptions that the loaders throw. -/
inductive Message
  | small
  | start
  | typeString
  | typeObject
  | data
  | endBlockData
  | classDesc
  | type
  | resetOrObject
  | lookupsRequired
  | null
  | blockData
  | four
  | insufficientBytes
  | parseError
  deriving DecidableEq, Repr

def Message.text : Message → String
  | .small => "버퍼 사이즈가 작아 읽을 수가 없다."
  | .start => "시작 데이터가 잘못 되었다."
  | .typeString => "type이 TC_STRING이여야만 한다."
  | .typeObject => "type이 TC_OBJECT이여야만 한다."
  | .data => "data 정보가 잘못 되었다."
  | .endBlockData => "value는 TC_ENDBLOCKDATA 여야만 한다."
  | .classDesc => "TC_CLASSDESC의 클래스 정보가 잘못되었다."
  | .type => "type 정보를 처리 할수 없다."
  | .resetOrObject => "typeClass는 TC_RESET 또는 TC_OBJECT 여야만 한다."
  | .lookupsRequired => "lookupsRequired와 value는 같아야 한다."
  | .null => "value는 TC_NULL 여야만 한다."
  | .blockData => "value는 TC_BLOCKDATA 여야만 한다."
  | .four => "value는 0x04 여야만 한다."
  | .insufficientBytes => "insufficient bytes"
  | .parseError => "parse error"

/-- How a call ends when it does not return: an exception, a failed `_ASSERTE`, an access outside
an object (`fault`), or never (`hang`). -/
inductive Fail
  /-- `SmallBufferException` -/
  | small (what : Message)
  /-- `InvalidBufferException` -/
  | invalid (what : Message)
  /-- `std::bad_alloc` or `std::length_error` -/
  | badAlloc
  /-- `std::out_of_range` -/
  | outOfRange
  | abort
  | fault
  | hang
  deriving DecidableEq, Repr

/-- More bytes may cure the failure. -/
def Fail.more : Fail → Prop
  | .small _ => True
  | _ => False

/-- One of the two exceptions that a loader documents. -/
def Fail.documented : Fail → Prop
  | .small _ | .invalid _ => True
  | _ => False

@[simp] theorem Fail.more_small (what : Message) : (Fail.small what).more := trivial
@[simp] theorem Fail.more_invalid (what : Message) : ¬(Fail.invalid what).more := id
@[simp] theorem Fail.documented_small (what : Message) : (Fail.small what).documented := trivial
@[simp] theorem Fail.documented_invalid (what : Message) : (Fail.invalid what).documented := trivial
@[simp] theorem Fail.documented_fault : ¬Fail.fault.documented := id
@[simp] theorem Fail.documented_hang : ¬Fail.hang.documented := id

/-- `if (!condition) { throw failure; }` -/
def require (condition : Bool) (failure : Fail) : Except Fail Unit :=
  if condition then pure () else throw failure

theorem require_eq {condition : Bool} {failure : Fail} :
    require condition failure = if condition then .ok () else .error failure := rfl

@[simp] theorem require_true (failure : Fail) : require true failure = .ok () := rfl

@[simp] theorem require_false (failure : Fail) : require false failure = .error failure := rfl

/-- `std::vector<char>::max_size()` -/
def maxSize : Nat := 2 ^ 63 - 1

/-- The build and the machine: whether `_ASSERTE` is `assert`, and the largest vector that can be
allocated. -/
structure Env where
  asserts : Bool
  allocLimit : Nat

/-- Asserts compiled out, and every allocation succeeds. -/
def Env.release : Env := ⟨false, maxSize⟩

/-- `_ASSERTE(condition)` -/
def Env.assert (env : Env) (condition : Bool) : Except Fail Unit :=
  if env.asserts && !condition then throw .abort else pure ()

/-- `std::vector<char>(n, 0)` -/
def Env.alloc (env : Env) (n : UInt64) : Except Fail Unit :=
  if min env.allocLimit maxSize < n.toNat then throw .badAlloc else pure ()

@[simp] theorem Env.release_assert (condition : Bool) :
    Env.release.assert condition = pure () := rfl

theorem Env.assert_off (env : Env) (hAsserts : env.asserts = false) (condition : Bool) :
    env.assert condition = .ok () := by
  rw [Env.assert, hAsserts]
  rfl

/-- A `std::vector<char>`. -/
@[ext] structure ByteBuf where
  bytes : List UInt8
  size_le : bytes.length ≤ maxSize
  deriving DecidableEq

namespace ByteBuf

def empty : ByteBuf := ⟨[], Nat.zero_le _⟩

/-- `byteBuf.size()` -/
def size (byteBuf : ByteBuf) : UInt64 := UInt64.ofNat byteBuf.bytes.length

/-- `byteBuf.insert(byteBuf.end(), bytes, bytes + size)` -/
def insert (byteBuf : ByteBuf) (bytes : List UInt8) : Except Fail ByteBuf :=
  if h : (byteBuf.bytes ++ bytes).length ≤ maxSize then pure ⟨byteBuf.bytes ++ bytes, h⟩
  else throw .badAlloc

/-- The buffer without its first `n` bytes. -/
def drop (byteBuf : ByteBuf) (n : Nat) : ByteBuf :=
  ⟨byteBuf.bytes.drop n, by
    have := byteBuf.size_le
    simp only [List.length_drop]
    omega⟩

/-- `byteBuf.erase(byteBuf.begin(), byteBuf.begin() + n)` -/
def erase (byteBuf : ByteBuf) (n : UInt64) : Except Fail ByteBuf :=
  if n ≤ byteBuf.size then pure (byteBuf.drop n.toNat) else throw .fault

/-- `if (pos + size > byteBuf.size()) { throw SmallBufferException(…); }` -/
def check (byteBuf : ByteBuf) (pos size : UInt64) : Except Fail Unit :=
  require (pos + size ≤ byteBuf.size) (.small .small)

/-- The `size` bytes from `pos` on, for a `memcpy` or a `memcmp`. -/
def copy (byteBuf : ByteBuf) (pos size : UInt64) : Except Fail (List UInt8) :=
  if pos.toNat + size.toNat ≤ byteBuf.bytes.length then
    pure ((byteBuf.bytes.drop pos.toNat).take size.toNat)
  else throw .fault

/-- The check of a reader, in wrapping arithmetic, and the copy that it is meant to guard. -/
def fetch (byteBuf : ByteBuf) (pos size : UInt64) : Except Fail (List UInt8) := do
  byteBuf.check pos size
  byteBuf.copy pos size

@[simp] theorem size_toNat (byteBuf : ByteBuf) : byteBuf.size.toNat = byteBuf.bytes.length := by
  have := byteBuf.size_le
  rw [size, UInt64.toNat_ofNat', Nat.mod_eq_of_lt]
  unfold maxSize at this
  omega

@[simp] theorem drop_bytes (byteBuf : ByteBuf) (n : Nat) :
    (byteBuf.drop n).bytes = byteBuf.bytes.drop n := rfl

theorem check_eq (byteBuf : ByteBuf) (pos size : UInt64) :
    byteBuf.check pos size =
      if (pos.toNat + size.toNat) % 2 ^ 64 ≤ byteBuf.bytes.length then .ok ()
      else .error (.small .small) := by
  rw [check, require_eq]
  simp only [decide_eq_true_eq, UInt64.le_iff_toNat_le, size_toNat, UInt64.toNat_add]

/-- A copy of bytes that are there. -/
theorem fetch_ok {byteBuf : ByteBuf} {pos size : UInt64}
    (h : pos.toNat + size.toNat ≤ byteBuf.bytes.length) :
    byteBuf.fetch pos size = .ok ((byteBuf.bytes.drop pos.toNat).take size.toNat) := by
  have hle := byteBuf.size_le
  unfold maxSize at hle
  rw [fetch, check_eq, if_pos (by omega), copy, if_pos h]
  rfl

/-- A copy that ends past the end of the buffer and does not wrap. -/
theorem fetch_small {byteBuf : ByteBuf} {pos size : UInt64}
    (h : byteBuf.bytes.length < pos.toNat + size.toNat) (hwrap : pos.toNat + size.toNat < 2 ^ 64) :
    byteBuf.fetch pos size = .error (.small .small) := by
  rw [fetch, check_eq, if_neg (by omega)]
  rfl

/-- A copy whose end wraps past the end of the address space. -/
theorem fetch_wraps {byteBuf : ByteBuf} {pos size : UInt64}
    (h : 2 ^ 64 ≤ pos.toNat + size.toNat) :
    byteBuf.fetch pos size =
      if pos.toNat + size.toNat - 2 ^ 64 ≤ byteBuf.bytes.length then .error .fault
      else .error (.small .small) := by
  have hle := byteBuf.size_le
  have hp := pos.toNat_lt
  have hs := size.toNat_lt
  unfold maxSize at hle
  have hmod : (pos.toNat + size.toNat) % 2 ^ 64 = pos.toNat + size.toNat - 2 ^ 64 := by omega
  have hcopy : byteBuf.copy pos size = .error .fault := if_neg (by omega)
  rw [fetch, check_eq, hmod, hcopy]
  by_cases hin : pos.toNat + size.toNat - 2 ^ 64 ≤ byteBuf.bytes.length
  · rw [if_pos hin, if_pos hin]
    rfl
  · rw [if_neg hin, if_neg hin]
    rfl

/-- A copy faults exactly when its end wraps to an offset that passes the check. -/
theorem fetch_eq_fault_iff {byteBuf : ByteBuf} {pos size : UInt64} :
    byteBuf.fetch pos size = .error .fault ↔
      2 ^ 64 ≤ pos.toNat + size.toNat ∧ pos.toNat + size.toNat - 2 ^ 64 ≤ byteBuf.bytes.length := by
  constructor
  · intro h
    by_cases hwrap : 2 ^ 64 ≤ pos.toNat + size.toNat
    · refine ⟨hwrap, ?_⟩
      by_contra hout
      rw [fetch_wraps hwrap, if_neg hout] at h
      cases h
    · by_cases hin : pos.toNat + size.toNat ≤ byteBuf.bytes.length
      · rw [fetch_ok hin] at h
        cases h
      · rw [fetch_small (Nat.lt_of_not_le hin) (Nat.lt_of_not_le hwrap)] at h
        cases h
  · rintro ⟨hwrap, hin⟩
    rw [fetch_wraps hwrap, if_pos hin]

theorem fetch_eq_ok {byteBuf : ByteBuf} {pos size : UInt64} {bytes : List UInt8} :
    byteBuf.fetch pos size = .ok bytes ↔ pos.toNat + size.toNat ≤ byteBuf.bytes.length ∧
      bytes = (byteBuf.bytes.drop pos.toNat).take size.toNat := by
  by_cases hin : pos.toNat + size.toNat ≤ byteBuf.bytes.length
  · rw [fetch_ok hin, Except.ok.injEq, eq_comm, and_iff_right hin]
  · refine ⟨fun h => ?_, fun h => absurd h.1 hin⟩
    by_cases hwrap : 2 ^ 64 ≤ pos.toNat + size.toNat
    · rw [fetch_wraps hwrap] at h
      split at h <;> cases h
    · rw [fetch_small (Nat.lt_of_not_le hin) (Nat.lt_of_not_le hwrap)] at h
      cases h

/-- A copy takes bytes of the buffer, reports a small buffer or ends past the address space. -/
theorem fetch_touches (byteBuf : ByteBuf) (pos size : UInt64) :
    Ensures (fun e => e.documented ∨ e = .fault ∧ 2 ^ 64 ≤ pos.toNat + size.toNat)
      (fun bytes => pos.toNat + size.toNat ≤ byteBuf.bytes.length ∧ bytes.length = size.toNat)
      (byteBuf.fetch pos size) := by
  by_cases hin : pos.toNat + size.toNat ≤ byteBuf.bytes.length
  · rw [fetch_ok hin, Ensures.ok_iff, List.length_take, List.length_drop]
    omega
  by_cases hwrap : 2 ^ 64 ≤ pos.toNat + size.toNat
  · have hWraps : byteBuf.fetch pos size = _ := fetch_wraps hwrap
    split at hWraps
    · rw [hWraps]
      exact .inr ⟨rfl, hwrap⟩
    · rw [hWraps]
      exact .inl trivial
  · rw [fetch_small (by omega) (by omega)]
    exact .inl trivial

/-- What a buffer that holds more bytes changes for a check. -/
theorem check_settles {byteBuf byteBuf' : ByteBuf} (h : byteBuf.bytes <+: byteBuf'.bytes)
    (pos size : UInt64) :
    Settles Fail.more (byteBuf.check pos size) (byteBuf'.check pos size) := by
  have hlen := h.length_le
  rw [check_eq, check_eq]
  split
  next hle => exact .inr (if_pos (by omega))
  next => exact .wants trivial

/-- What a buffer that holds more bytes changes for a copy. -/
theorem fetch_settles {byteBuf byteBuf' : ByteBuf} (h : byteBuf.bytes <+: byteBuf'.bytes)
    (pos size : UInt64) :
    Settles Fail.more (byteBuf.fetch pos size) (byteBuf'.fetch pos size) := by
  have hlen := h.length_le
  have hle := byteBuf'.size_le
  unfold maxSize at hle
  by_cases hin : pos.toNat + size.toNat ≤ byteBuf.bytes.length
  · obtain ⟨extra, hextra⟩ := h
    refine .inr ?_
    rw [fetch_ok hin, fetch_ok (by omega), ← hextra, List.drop_append_of_le_length (by omega),
      List.take_append_of_le_length (by rw [List.length_drop]; omega)]
  by_cases hwrap : 2 ^ 64 ≤ pos.toNat + size.toNat
  · rw [fetch_wraps hwrap, fetch_wraps hwrap]
    split
    next hle => exact .inr (if_pos (by omega))
    next => exact .wants trivial
  · rw [fetch_small (by omega) (by omega)]
    exact .wants trivial

/-- A copy that starts inside the buffer reads bytes of the buffer or reports a small buffer. -/
theorem fetch_ensures {byteBuf : ByteBuf} {pos size : UInt64}
    (hpos : pos.toNat ≤ byteBuf.bytes.length) (hsize : size.toNat < 2 ^ 62) :
    Ensures Fail.documented (fun bytes => bytes = (byteBuf.bytes.drop pos.toNat).take size.toNat ∧
      pos.toNat + size.toNat ≤ byteBuf.bytes.length ∧ (pos + size).toNat = pos.toNat + size.toNat)
      (byteBuf.fetch pos size) := by
  have hle := byteBuf.size_le
  have hsum := UInt64.toNat_add pos size
  unfold maxSize at hle
  by_cases hin : pos.toNat + size.toNat ≤ byteBuf.bytes.length
  · rw [fetch_ok hin]
    exact ⟨rfl, hin, by omega⟩
  · rw [fetch_small (by omega) (by omega)]
    trivial

end ByteBuf

end LogSocket
