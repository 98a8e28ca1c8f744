import LogSocket.Lib.Endian
import LogSocket.Basic

/-! The integers of the wire. Every protocol writes them with the most significant byte first and
the readers turn them round on a little-endian machine: a `short` by `std::swap`, an `int` and a
`long` by shifts of the signed value. -/

namespace LogSocket

open Lib

/-- `memcpy(&value, bytes, 2)` -/
def loadShort (bytes : List UInt8) : Int16 := Int16.ofNat (le bytes)

/-- `memcpy(&value, bytes, 4)` -/
def loadInt (bytes : List UInt8) : Int32 := Int32.ofNat (le bytes)

/-- `memcpy(&value, bytes, 8)` -/
def loadLong (bytes : List UInt8) : Int64 := Int64.ofNat (le bytes)

/-- `(char)((value >> shift) & 0xFF)`, where the shift of a signed value keeps its sign. -/
def charAt (value : Int) (shift : Nat) : UInt8 := UInt8.ofNat ((value >>> shift) % 256).toNat

/-- `bytes[0]` to `bytes[3]` of an `int`, the most significant one first. -/
def intChars (value : Int32) : List UInt8 :=
  [charAt value.toInt 24, charAt value.toInt 16, charAt value.toInt 8, charAt value.toInt 0]

/-- `bytes[0]` to `bytes[7]` of a `long`, the most significant one first. -/
def longChars (value : Int64) : List UInt8 :=
  [charAt value.toInt 56, charAt value.toInt 48, charAt value.toInt 40, charAt value.toInt 32,
    charAt value.toInt 24, charAt value.toInt 16, charAt value.toInt 8, charAt value.toInt 0]

/-- `readShort` from a socket, after its `read`. -/
def swapShort (value : Int16) : Int16 := loadShort [charAt value.toInt 8, charAt value.toInt 0]

/-- `readInt` after its `memcpy`. -/
def swapInt (value : Int32) : Int32 := loadInt (intChars value)

/-- `readLong` after its `memcpy`. -/
def swapLong (value : Int64) : Int64 := loadLong (longChars value)

/-- The `size_t` that a `short` is converted to when it is added to one. -/
def extendShort (value : Int16) : UInt64 := UInt64.ofInt value.toInt

/-- A low byte of a signed value, from its residue. -/
theorem charAt_eq {value : Int} {n bits shift : Nat} (h : value % 2 ^ bits = n)
    (hShift : shift + 8 ≤ bits) : charAt value shift = UInt8.ofNat (n / 2 ^ shift) := by
  obtain ⟨more, rfl⟩ := Nat.exists_eq_add_of_le hShift
  have hByte : (value >>> shift) % 256 = ((n / 2 ^ shift : Nat) : Int) % 256 := by
    rw [Int.shiftRight_eq_div_pow]
    have hValue : value = n + 2 ^ shift * (256 * (2 ^ more * (value / 2 ^ (shift + 8 + more)))) := by
      rw [← h]
      conv_lhs => rw [← Int.emod_add_mul_ediv value (2 ^ (shift + 8 + more))]
      ring
    conv_lhs => rw [hValue]
    push_cast
    rw [Int.add_mul_ediv_left _ _ (by positivity), Int.add_mul_emod_self_left]
  rw [charAt, hByte]
  apply UInt8.toNat_inj.mp
  rw [UInt8.toNat_ofNat', UInt8.toNat_ofNat']
  omega

theorem intChars_eq {value : Int32} {n : Nat} (h : value.toInt % 2 ^ 32 = n) :
    intChars value = beBytes 4 n := by
  simp only [intChars, charAt_eq h, beBytes, leBytes, List.reverse_cons, List.reverse_nil,
    List.nil_append, List.cons_append, Nat.div_div_eq_div_mul, Nat.reduceAdd, Nat.reduceLeDiff,
    Nat.reducePow, Nat.reduceMul, Nat.div_one]

theorem longChars_eq {value : Int64} {n : Nat} (h : value.toInt % 2 ^ 64 = n) :
    longChars value = beBytes 8 n := by
  simp only [longChars, charAt_eq h, beBytes, leBytes, List.reverse_cons, List.reverse_nil,
    List.nil_append, List.cons_append, Nat.div_div_eq_div_mul, Nat.reduceAdd, Nat.reduceLeDiff,
    Nat.reducePow, Nat.reduceMul, Nat.div_one]

theorem intChars_loadInt {bytes : List UInt8} (h : bytes.length = 4) :
    intChars (loadInt bytes) = bytes.reverse := by
  have hLe := le_lt bytes
  rw [h] at hLe
  have hValue : (loadInt bytes).toInt % 2 ^ 32 = (le bytes : Int) := by
    rw [loadInt, Int32.toInt_ofNat', Int32.size, Int.bmod_def]
    omega
  rw [intChars_eq hValue, beBytes, ← h, leBytes_le]

theorem longChars_loadLong {bytes : List UInt8} (h : bytes.length = 8) :
    longChars (loadLong bytes) = bytes.reverse := by
  have hLe := le_lt bytes
  rw [h] at hLe
  have hValue : (loadLong bytes).toInt % 2 ^ 64 = (le bytes : Int) := by
    rw [loadLong, Int64.toInt_ofNat', Int64.size, Int.bmod_def]
    omega
  rw [longChars_eq hValue, beBytes, ← h, leBytes_le]

/-- The shifts of `readShort` turn two bytes round. -/
theorem swapShort_loadShort {bytes : List UInt8} (h : bytes.length = 2) :
    swapShort (loadShort bytes) = loadShort bytes.reverse := by
  have hLe := le_lt bytes
  rw [h] at hLe
  have hValue : (loadShort bytes).toInt % 2 ^ 16 = (le bytes : Int) := by
    rw [loadShort, Int16.toInt_ofNat', Int16.size, Int.bmod_def]
    omega
  have hChars : [charAt (loadShort bytes).toInt 8, charAt (loadShort bytes).toInt 0] =
      beBytes 2 (le bytes) := by
    simp [charAt_eq hValue, beBytes, leBytes]
  rw [swapShort, hChars, beBytes, ← h, leBytes_le]

/-- The shifts of `readInt` turn four bytes round. -/
theorem swapInt_loadInt {bytes : List UInt8} (h : bytes.length = 4) :
    swapInt (loadInt bytes) = loadInt bytes.reverse := by
  rw [swapInt, intChars_loadInt h]

/-- The shifts of `readLong` turn eight bytes round. -/
theorem swapLong_loadLong {bytes : List UInt8} (h : bytes.length = 8) :
    swapLong (loadLong bytes) = loadLong bytes.reverse := by
  rw [swapLong, longChars_loadLong h]

theorem loadInt_reverse_intChars (value : Int32) : loadInt (intChars value).reverse = value := by
  have hValue : value.toInt % 2 ^ 32 = ((value.toInt % 2 ^ 32).toNat : Int) := by omega
  rw [intChars_eq hValue, beBytes, List.reverse_reverse, loadInt, le_leBytes]
  apply Int32.toInt_inj.mp
  have hLow := value.le_toInt
  have hHigh := value.toInt_lt
  rw [Int32.toInt_ofNat', Int32.size, Int.bmod_def]
  omega

theorem loadLong_reverse_longChars (value : Int64) :
    loadLong (longChars value).reverse = value := by
  have hValue : value.toInt % 2 ^ 64 = ((value.toInt % 2 ^ 64).toNat : Int) := by omega
  rw [longChars_eq hValue, beBytes, List.reverse_reverse, loadLong, le_leBytes]
  apply Int64.toInt_inj.mp
  have hLow := value.le_toInt
  have hHigh := value.toInt_lt
  rw [Int64.toInt_ofNat', Int64.size, Int.bmod_def]
  omega

theorem shortToInt_ofNat {n : Nat} (h : n < 2 ^ 15) : (Int16.ofNat (n % 2 ^ 16)).toInt = n := by
  rw [Int16.toInt_ofNat', Int16.size, Int.bmod_def]
  omega

theorem extendShort_ofNat {n : Nat} (h : n < 2 ^ 15) :
    (extendShort (Int16.ofNat (n % 2 ^ 16))).toNat = n := by
  rw [extendShort, shortToInt_ofNat h, UInt64.ofInt, UInt64.toNat_ofNat']
  omega

theorem extendShort_lt {value : Int16} (h : 0 ≤ value.toInt) :
    (extendShort value).toNat < 2 ^ 15 := by
  have hLt := value.toInt_lt
  rw [extendShort, UInt64.ofInt, UInt64.toNat_ofNat']
  omega

theorem intChars_ofNat (n : Nat) : intChars (Int32.ofNat n) = beBytes 4 n := by
  have hValue : (Int32.ofNat n).toInt % 2 ^ 32 = (n % 256 ^ 4 : Nat) := by
    rw [Int32.toInt_ofNat', Int32.size, Int.bmod_def]
    omega
  rw [intChars_eq hValue, beBytes, leBytes_mod, beBytes]

theorem intToInt_ofNat {n : Nat} (h : n < 2 ^ 31) : (Int32.ofNat n).toInt = n := by
  rw [Int32.toInt_ofNat', Int32.size, Int.bmod_def]
  omega

/-- A size with the top bit set comes out of the signed field as one below zero. -/
theorem intToInt_ofNat_negative {n : Nat} (hMany : 2 ^ 31 ≤ n) (hBits : n < 2 ^ 32) :
    (Int32.ofNat n).toInt.toNat = 0 := by
  rw [Int32.toInt_ofNat', Int32.size, Int.bmod_def]
  omega

/-- The two bytes of a length, of which only 16 bits are written. -/
theorem lengthChars_eq (n : Nat) : [charAt n 8, charAt n 0] = beBytes 2 n := by
  have hValue : (n : Int) % 2 ^ 16 = (n % 2 ^ 16 : Nat) := by omega
  rw [charAt_eq hValue (by decide), charAt_eq hValue (by decide), beBytes, ← leBytes_mod]
  simp only [leBytes, List.reverse_cons, List.reverse_nil, List.nil_append, List.cons_append,
    Nat.reducePow, Nat.div_one]

/-- The four bytes of a size, of which only 32 bits are written. -/
theorem sizeChars_eq (n : Nat) :
    [charAt n 24, charAt n 16, charAt n 8, charAt n 0] = beBytes 4 n := by
  have hValue : (n : Int) % 2 ^ 32 = (n % 2 ^ 32 : Nat) := by omega
  rw [charAt_eq hValue (by decide), charAt_eq hValue (by decide), charAt_eq hValue (by decide),
    charAt_eq hValue (by decide), beBytes, ← leBytes_mod]
  simp only [leBytes, List.reverse_cons, List.reverse_nil, List.nil_append, List.cons_append,
    Nat.div_div_eq_div_mul, Nat.reducePow, Nat.reduceMul, Nat.div_one]

end LogSocket
