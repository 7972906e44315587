import Mathlib.Algebra.BigOperators.Group.List.Basic
import DpuBackend.Lib.MixedRadix
import DpuBackend.Lib.Simd

/-
  Numbers in bytes and the lanes of vector registers — the additions of AVX-512.

  `number w bytes x` is the number in the `w` bytes from `x` on, the lowest first. Lane `i`
  of a register is the number in its `w` bytes `i * w ..`. `addEpi w` adds lane by lane
  without a carry from one to the next (`lane_addEpi`), so a lane of a sum of registers
  is the sum of the lanes modulo `256 ^ w` (`lane_sum`).
-/

namespace DpuBackend.Lib

/-- The number in `w` bytes, little endian. -/
def number (w : Nat) (bytes : Nat → UInt8) (x : Nat) : Nat :=
  MixedRadix.value (fun _ => 256) (fun j => (bytes (x + j)).toNat) w

theorem weight_bytes (w : Nat) : MixedRadix.weight (fun _ => 256) w = 256 ^ w := by
  induction w with
  | zero => rfl
  | succ w ih => rw [MixedRadix.weight_succ, ih, Nat.pow_succ]

theorem number_lt (w : Nat) (bytes : Nat → UInt8) (x : Nat) : number w bytes x < 256 ^ w := by
  rw [← weight_bytes]
  exact MixedRadix.value_lt fun j _ => (bytes (x + j)).toNat_lt

theorem number_congr {w x y : Nat} {bytes bytes' : Nat → UInt8} (h : ∀ j < w, bytes (x + j) = bytes' (y + j)) :
    number w bytes x = number w bytes' y := by
  apply MixedRadix.value_congr
  intro j hj
  rw [h j hj]

/-- The bytes of a number. -/
theorem number_digits {w x v : Nat} {bytes : Nat → UInt8}
    (h : ∀ j < w, (bytes (x + j)).toNat = v / 256 ^ j % 256) : number w bytes x = v % 256 ^ w := by
  rw [← weight_bytes, ← MixedRadix.value_digit]
  apply MixedRadix.value_congr
  intro j hj
  rw [h j hj, MixedRadix.digit, weight_bytes]

namespace Simd

variable {n w i : Nat} [NeZero n]

/-- The bytes of a register, from byte 0 on. -/
def Reg.bytes (v : Reg n) (k : Nat) : UInt8 := v (Fin.ofNat n k)

/-- Lane `i` of `w` bytes. -/
def lane (w : Nat) (v : Reg n) (i : Nat) : Nat := number w v.bytes (i * w)

/-- `add_epi8`, `add_epi16`, `add_epi32` and `add_epi64`, by the bytes of a lane. -/
def addEpi (w : Nat) (u v : Reg n) : Reg n := fun k =>
  ((lane w u (k.val / w) + lane w v (k.val / w)) / 256 ^ (k.val % w)).toUInt8

theorem lane_addEpi (u v : Reg n) (hi : i * w + w ≤ n) :
    lane w (addEpi w u v) i = (lane w u i + lane w v i) % 256 ^ w := by
  apply number_digits
  intro j hj
  have hk : (Fin.ofNat n (i * w + j)).val = i * w + j := Nat.mod_eq_of_lt (by omega)
  have hlane : (i * w + j) / w = i := by
    rw [Nat.mul_comm, Nat.mul_add_div (by omega), Nat.div_eq_of_lt hj, Nat.add_zero]
  have hbyte : (i * w + j) % w = j := by
    rw [Nat.mul_comm, Nat.mul_add_mod, Nat.mod_eq_of_lt hj]
  show (addEpi w u v (Fin.ofNat n (i * w + j))).toNat = _
  rw [addEpi, hk, hlane, hbyte]
  exact UInt8.toNat_ofNat'

theorem lane_zero : lane w (fun _ => 0 : Reg n) i = 0 := by
  have hdigits : ∀ j < w, (Reg.bytes (fun _ => 0 : Reg n) (i * w + j)).toNat = 0 / 256 ^ j % 256 := by
    intro j _
    rw [Nat.zero_div]
    rfl
  exact (number_digits hdigits).trans (Nat.zero_mod _)

/-- The registers added up, from 0. -/
def sumEpi (w : Nat) (regs : List (Reg n)) : Reg n := regs.foldl (addEpi w) fun _ => 0

/-- No lane carries into the next, whatever is added. -/
theorem lane_sum (regs : List (Reg n)) (hi : i * w + w ≤ n) :
    lane w (sumEpi w regs) i = (regs.map fun v => lane w v i).sum % 256 ^ w := by
  have hfold : ∀ acc : Reg n, lane w (regs.foldl (addEpi w) acc) i =
      (lane w acc i + (regs.map fun v => lane w v i).sum) % 256 ^ w := by
    induction regs with
    | nil =>
      intro acc
      rw [List.map_nil, List.sum_nil, Nat.add_zero]
      exact (Nat.mod_eq_of_lt (number_lt _ _ _)).symm
    | cons v regs ih =>
      intro acc
      rw [List.foldl_cons, ih, lane_addEpi acc v hi, List.map_cons, List.sum_cons, Nat.mod_add_mod, Nat.add_assoc]
  rw [sumEpi, hfold, lane_zero, Nat.zero_add]

end Simd

end DpuBackend.Lib
