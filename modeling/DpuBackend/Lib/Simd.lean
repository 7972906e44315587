import Mathlib.Data.Fin.Basic
import Mathlib.Algebra.Order.Ring.Nat

/-
  Byte shuffles of vector registers — the data movement intrinsics of AVX2 and
  AVX-512, over registers of any number of bytes.

  A register of `n` bytes is a function on `Fin n`, byte 0 the lowest. Each
  intrinsic here moves bytes without computing on them: what it does is the map
  from destination byte to source byte. Lane numbers outside the register wrap,
  as the hardware uses only their low bits.
-/

namespace DpuBackend.Lib.Simd

/-- A vector register of `n` bytes. -/
abbrev Reg (n : Nat) := Fin n → UInt8

/-- A register of 64 bytes has a first one. -/
theorem neZero_sixtyFour : NeZero 64 := ⟨by decide⟩

/-- Byte `k` of a 64-bit constant, byte 0 the lowest. -/
def qwordByte (q : UInt64) (k : Nat) : UInt8 := (q.toNat / 256 ^ k % 256).toUInt8

/-- `_mm512_set_epi64`: eight 64-bit lanes, the highest first. -/
def set512Epi64 (q7 q6 q5 q4 q3 q2 q1 q0 : UInt64) : Reg 64 := fun k =>
  qwordByte ([q0, q1, q2, q3, q4, q5, q6, q7].getD (k.val / 8) 0) (k.val % 8)

/-- `_mm256_set_epi8`: thirty-two bytes, the highest first. -/
def set256Epi8 (bytes : List UInt8) : Reg 32 := fun k => bytes.reverse.getD k 0

/-- `_mm512_setr_epi32` and `_mm256_setr_epi32`: 32-bit lanes, the lowest first. -/
def setrEpi32 (lanes : List Nat) (k : Nat) : Nat := lanes.getD k 0

/-- `i32gather_epi32` with scale 1: 32-bit lane `k` is the four bytes at
`base + vindex k`. -/
def i32gatherEpi32 {m : Nat} (n : Nat) (vindex : Nat → Nat) (base : Fin m → UInt8) (offset : Nat)
    [NeZero m] : Reg n :=
  fun k => base (Fin.ofNat m (offset + vindex (k.val / 4) + k.val % 4))

/-- `shuffle_epi8`: within each group of sixteen bytes, byte `k` is the byte the
low four bits of the mask's byte `k` name, or 0 where its high bit is set. -/
def shuffleEpi8 {n : Nat} (v mask : Reg n) [NeZero n] : Reg n := fun k =>
  if (mask k).toNat / 128 = 1 then 0
  else v (Fin.ofNat n (k.val / 16 * 16 + (mask k).toNat % 16))

/-- `permutexvar_epi32`: 32-bit lane `k` is the source's lane `idx k`. -/
def permutexvarEpi32 {n : Nat} (idx : Nat → Nat) (v : Reg n) [NeZero n] : Reg n := fun k =>
  v (Fin.ofNat n (idx (k.val / 4) * 4 + k.val % 4))

/-- `rol_epi64` by `8 * r` bits: byte `k` of a 64-bit lane is the lane's byte `k - r`. -/
def rolEpi64Bytes {n : Nat} (r : Nat) (v : Reg n) [NeZero n] : Reg n := fun k =>
  v (Fin.ofNat n (k.val / 8 * 8 + (k.val % 8 + 8 - r % 8) % 8))

end DpuBackend.Lib.Simd
