import DpuBackend.Lib.Simd

/-
  The byte interleave of a cache line (`xeon_sp_translation.c`).

  A rank's memory bus spreads a 64-bit word over eight chips a byte at a time,
  so a cache line on the bus holds byte `b` of the word of control interface
  `ci` at `8 * b + ci`, where the host's array of eight words holds it at
  `8 * ci + b`. The transfers write with the AVX-512 code and read with the AVX2
  code. `byteInterleaveAvx512_apply` and `byteInterleaveAvx2_apply` prove that
  both are the transpose of the 8 x 8 matrix of bytes, so each undoes the other.

  Correspondence (C ↔ Lean):
    `byte_interleave_avx512` ↔ `byteInterleaveAvx512`
    `byte_interleave_avx2`   ↔ `byteInterleaveAvx2`
-/

namespace DpuBackend.Xeon

open DpuBackend.Lib.Simd

/-- An array of eight 64-bit words as its bytes, and a cache line. -/
abbrev Line := Fin 64 → UInt8

/-- Byte `b` of the 64-bit word of control interface `ci`. -/
def Line.byte (l : Line) (ci b : Fin 8) : UInt8 := l ⟨8 * ci + b, by omega⟩

/-- The mask of the AVX-512 shuffle. -/
def avx512Mask : Reg 64 :=
  set512Epi64 0x0f0b07030e0a0602 0x0d0905010c080400 0x0f0b07030e0a0602 0x0d0905010c080400
    0x0f0b07030e0a0602 0x0d0905010c080400 0x0f0b07030e0a0602 0x0d0905010c080400

def avx512Vindex : Nat → Nat :=
  setrEpi32 [0, 8, 16, 24, 32, 40, 48, 56, 4, 12, 20, 28, 36, 44, 52, 60]

def avx512Perm : Nat → Nat :=
  setrEpi32 [0, 4, 1, 5, 2, 6, 3, 7, 8, 12, 9, 13, 10, 14, 11, 15]

/-- `byte_interleave_avx512`. -/
def byteInterleaveAvx512 (input : Line) : Line :=
  let load := i32gatherEpi32 64 avx512Vindex input 0
  let transpose := shuffleEpi8 load avx512Mask
  permutexvarEpi32 avx512Perm transpose

def avx2Tm : Reg 32 :=
  set256Epi8 [15, 11, 7, 3, 14, 10, 6, 2, 13, 9, 5, 1, 12, 8, 4, 0,
    15, 11, 7, 3, 14, 10, 6, 2, 13, 9, 5, 1, 12, 8, 4, 0]

def avx2Vindex : Nat → Nat := setrEpi32 [0, 8, 16, 24, 32, 40, 48, 56]

def avx2Perm : Nat → Nat := setrEpi32 [0, 4, 1, 5, 2, 6, 3, 7]

/-- `byte_interleave_avx2`: one gather for the low half of every word and one for
the high half, stored to the two halves of the output. -/
def byteInterleaveAvx2 (input : Line) : Line :=
  let load0 := i32gatherEpi32 32 avx2Vindex input 0
  let load1 := i32gatherEpi32 32 avx2Vindex input 4
  let final0 := permutexvarEpi32 avx2Perm (shuffleEpi8 load0 avx2Tm)
  let final1 := permutexvarEpi32 avx2Perm (shuffleEpi8 load1 avx2Tm)
  fun k => if k.val < 32 then final0 (Fin.ofNat 32 k) else final1 (Fin.ofNat 32 (k - 32))

/-! ## Both are the transpose -/

/-- Where byte `k` of the transposed line comes from. -/
def transposeIndex (k : Fin 64) : Fin 64 := ⟨8 * (k.val % 8) + k.val / 8, by omega⟩

theorem transposeIndex_transposeIndex (k : Fin 64) : transposeIndex (transposeIndex k) = k := by
  apply Fin.ext
  simp only [transposeIndex]
  omega

/-- No byte of the mask asks for a zero. -/
theorem avx512Mask_lt (k : Fin 64) : (avx512Mask k).toNat / 128 ≠ 1 := by
  revert k; decide +kernel

theorem avx2Tm_lt (k : Fin 32) : (avx2Tm k).toNat / 128 ≠ 1 := by
  revert k; decide +kernel

theorem byteInterleaveAvx512_eq (input : Line) :
    byteInterleaveAvx512 input = fun k => input (transposeIndex k) := by
  funext k
  simp only [byteInterleaveAvx512, permutexvarEpi32, shuffleEpi8, avx512Mask_lt, if_false, i32gatherEpi32]
  congr 1
  revert k; decide +kernel

theorem byteInterleaveAvx2_eq (input : Line) :
    byteInterleaveAvx2 input = fun k => input (transposeIndex k) := by
  funext k
  simp only [byteInterleaveAvx2, permutexvarEpi32, shuffleEpi8, avx2Tm_lt, if_false, i32gatherEpi32]
  rw [← apply_ite input]
  congr 1
  revert k; decide +kernel

/-- What was interleaved on a write is put back in order on a read. -/
theorem byteInterleaveAvx2_avx512 (input : Line) :
    byteInterleaveAvx2 (byteInterleaveAvx512 input) = input := by
  rw [byteInterleaveAvx2_eq, byteInterleaveAvx512_eq]
  funext k
  simp only [transposeIndex_transposeIndex]

end DpuBackend.Xeon
