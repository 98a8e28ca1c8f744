import Mathlib.Algebra.Order.Ring.Nat

/-! Natural numbers as bytes: `le` reads a list of bytes with the least significant byte first,
and `leBytes` and `beBytes` write a fixed number of bytes in either order. -/

namespace LogSocket.Lib

/-- The number whose bytes, the least significant one first, are given. -/
def le : List UInt8 → Nat
  | [] => 0
  | byte :: bytes => byte.toNat + 256 * le bytes

/-- The low `width` bytes of `n`, the least significant one first. -/
def leBytes : Nat → Nat → List UInt8
  | 0, _ => []
  | width + 1, n => UInt8.ofNat n :: leBytes width (n / 256)

/-- The low `width` bytes of `n`, the most significant one first. -/
def beBytes (width n : Nat) : List UInt8 := (leBytes width n).reverse

@[simp] theorem leBytes_length (width n : Nat) : (leBytes width n).length = width := by
  induction width generalizing n with
  | zero => rfl
  | succ width ih => rw [leBytes, List.length_cons, ih]

@[simp] theorem beBytes_length (width n : Nat) : (beBytes width n).length = width := by
  rw [beBytes, List.length_reverse, leBytes_length]

theorem le_lt (bytes : List UInt8) : le bytes < 256 ^ bytes.length := by
  induction bytes with
  | nil => simp [le]
  | cons byte bytes ih =>
    have hByte := byte.toNat_lt
    rw [le, List.length_cons, pow_succ]
    omega

/-- What is written is read back, up to the bytes that do not fit. -/
theorem le_leBytes (width n : Nat) : le (leBytes width n) = n % 256 ^ width := by
  induction width generalizing n with
  | zero => simp [leBytes, le, Nat.mod_one]
  | succ width ih =>
    calc le (leBytes (width + 1) n)
        = n % 256 + 256 * (n / 256 % 256 ^ width) := by
          rw [leBytes, le, ih, UInt8.toNat_ofNat']
      _ = n % 256 ^ (width + 1) := by rw [pow_succ', Nat.mod_mul]

theorem leBytes_le (bytes : List UInt8) : leBytes bytes.length (le bytes) = bytes := by
  induction bytes with
  | nil => rfl
  | cons byte bytes ih =>
    have hByte := byte.toNat_lt
    have hRest : (byte.toNat + 256 * le bytes) / 256 = le bytes := by omega
    have hHead : UInt8.ofNat (byte.toNat + 256 * le bytes) = byte := by
      apply UInt8.toNat_inj.mp
      rw [UInt8.toNat_ofNat']
      omega
    rw [List.length_cons, leBytes, le, hRest, ih, hHead]

/-- Only the value modulo `256 ^ width` is written. -/
theorem leBytes_mod (width n : Nat) : leBytes width (n % 256 ^ width) = leBytes width n := by
  have h := leBytes_le (leBytes width n)
  rwa [leBytes_length, le_leBytes] at h

theorem le_reverse_beBytes {width n : Nat} (h : n < 256 ^ width) :
    le (beBytes width n).reverse = n := by
  rw [beBytes, List.reverse_reverse, le_leBytes, Nat.mod_eq_of_lt h]

/-- Of two lists of the same length that are in order, the extensions are in order. -/
theorem append_lt_append {left left' : List UInt8} (right right' : List UInt8) (h : left < left')
    (hLength : left.length = left'.length) : left ++ right < left' ++ right' := by
  induction h with
  | nil => cases hLength
  | rel h => exact .rel h
  | cons _ ih => exact .cons (ih (Nat.succ.inj hLength))

end LogSocket.Lib
