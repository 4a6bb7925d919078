/-
# Little-endian numbers

`binary.LittleEndian`, for numbers of any width.
-/

import Mathlib.Tactic.Ring

namespace Go

namespace Binary

/-- The low bytes of a number, least significant first. -/
def put : ℕ → ℕ → List UInt8
  | 0, _ => []
  | width + 1, value => UInt8.ofNat value :: put width (value / 256)

/-- The number that bytes stand for. -/
def get : List UInt8 → ℕ
  | [] => 0
  | b :: bytes => b.toNat + 256 * get bytes

@[simp]
theorem length_put (width value : ℕ) : (put width value).length = width := by
  induction width generalizing value with
  | zero => rfl
  | succ width ih => rw [put, List.length_cons, ih]

theorem get_put {width value : ℕ} (h : value < 256 ^ width) : get (put width value) = value := by
  induction width generalizing value with
  | zero =>
    rw [pow_zero, Nat.lt_one_iff] at h
    rw [h]
    rfl
  | succ width ih =>
    have hdiv : value / 256 < 256 ^ width := by
      rw [pow_succ, Nat.mul_comm] at h
      exact Nat.div_lt_of_lt_mul h
    have hbyte : (UInt8.ofNat value).toNat = value % 256 := by simp
    rw [put, get, ih hdiv, hbyte]
    omega

theorem get_lt (bytes : List UInt8) : get bytes < 256 ^ bytes.length := by
  induction bytes with
  | nil => decide
  | cons b bytes ih =>
    have hb := b.toNat_lt
    rw [get, List.length_cons, pow_succ]
    omega

theorem put_get (bytes : List UInt8) : put bytes.length (get bytes) = bytes := by
  induction bytes with
  | nil => rfl
  | cons b bytes ih =>
    have hb := b.toNat_lt
    have hdiv : (b.toNat + 256 * get bytes) / 256 = get bytes := by omega
    have hbyte : UInt8.ofNat (b.toNat + 256 * get bytes) = b := by
      apply UInt8.toNat_inj.mp
      rw [UInt8.toNat_ofNat']
      omega
    rw [List.length_cons, get, put, hdiv, hbyte, ih]

theorem ofNat_get_put_uint16 (value : UInt16) :
    UInt16.ofNat (get (put 2 value.toNat)) = value := by
  rw [get_put value.toNat_lt, UInt16.ofNat_toNat]

theorem ofNat_get_put_uint32 (value : UInt32) :
    UInt32.ofNat (get (put 4 value.toNat)) = value := by
  rw [get_put value.toNat_lt, UInt32.ofNat_toNat]

theorem put_ofNat_get_uint16 {bytes : List UInt8} (h : bytes.length = 2) :
    put 2 (UInt16.ofNat (get bytes)).toNat = bytes := by
  have hlt := get_lt bytes
  rw [h] at hlt
  rw [UInt16.toNat_ofNat_of_lt' hlt, ← h, put_get]

theorem put_ofNat_get_uint32 {bytes : List UInt8} (h : bytes.length = 4) :
    put 4 (UInt32.ofNat (get bytes)).toNat = bytes := by
  have hlt := get_lt bytes
  rw [h] at hlt
  rw [UInt32.toNat_ofNat_of_lt' hlt, ← h, put_get]

/-- Bytes written over a buffer, from an offset on. -/
def putAt (offset : ℕ) (bytes buf : List UInt8) : List UInt8 :=
  buf.take offset ++ (bytes ++ buf.drop (offset + bytes.length))

end Binary

end Go
