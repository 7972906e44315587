import Mathlib.Algebra.BigOperators.Fin
import DpuBackend.Lib.BlockGather
import DpuBackend.Lib.Lanes
import DpuBackend.Xeon.AllToAllRg
import DpuBackend.Xeon.Interleave

/-
  The reduce-scatter kernels of an entangled group (pid_comm.c): the words of several
  groups are added up into one.

  C ↔ Lean (src/hw/src/mappings/xeon_sp/pid_comm.c):
    permutexvar(vindex), shuffle(mask), permutexvar(perm) ↔ interleave
    the loop over the registers, either branch of size     ↔ sumRs
    RNS_SUM_RS, S_SUM_RS                                   ↔ rnsSumRs, sSumRs
    src_rank_addr_iter, filled for one word                ↔ ReduceScatterRg.srcLine
    the body of the loop of iter_length                    ↔ cpuWord, cpuYWord
    xeon_sp_trans_reduce_scatter_cpu_rg                    ↔ transReduceScatterCpuRg
    xeon_sp_trans_reduce_scatter_cpu_y_rg                  ↔ transReduceScatterCpuYRg

  A line has byte `k` of chip `c`'s word at `8 * k + c`, so elements of more than a byte are
  interleaved before they are added. `iteration` is 1 and fences and flushes move no data.
  Each element a kernel stores is the sum of those elements of its lines, modulo its size
  (`sumRs_element`).
-/

namespace DpuBackend.Xeon

open DpuBackend.Lib

attribute [local instance] Simd.neZero_sixtyFour

/-! ## The sums -/

def sumVindex : Nat → Nat := Simd.setrEpi32 [0, 2, 4, 6, 8, 10, 12, 14, 1, 3, 5, 7, 9, 11, 13, 15]

/-- The three instructions that bring the bytes of a chip's word together, and back. -/
def interleave (v : Line) : Line :=
  Simd.permutexvarEpi32 avx512Perm (Simd.shuffleEpi8 (Simd.permutexvarEpi32 sumVindex v) avx512Mask)

/-- The bytes of a lane of the addition that `size` selects. -/
def laneBytes (size : Nat) : Nat := if size = 1 then 1 else if size = 2 then 2 else if size = 4 then 4 else 8

/-- Bytes are added where they are. -/
def sumRs {n : Nat} (size : Nat) (regs : Fin n → Line) : Line :=
  if size = 1 then Simd.sumEpi 1 (List.ofFn regs)
  else interleave (Simd.sumEpi (laneBytes size) (List.ofFn fun p => interleave (regs p)))

/-- `RNS_SUM_RS`: of each eight lines, line `k` rotated by `k` bytes. -/
def rnsSumRs {n : Nat} (size : Nat) (lines : Fin n → Line) : Line :=
  sumRs size fun p => Simd.rolEpi64Bytes (p % 8) (lines p)

/-- `S_SUM_RS` -/
def sSumRs {n : Nat} (size : Nat) (lines : Fin n → Line) : Line := sumRs size lines

theorem interleave_eq (v : Line) : interleave v = fun k => v (transposeIndex k) := by
  funext k
  simp only [interleave, Simd.permutexvarEpi32, Simd.shuffleEpi8, avx512Mask_lt, if_false]
  apply congrArg v
  revert k
  decide +kernel

/-- Byte `k` of the word of chip `c`. -/
def chipByte (line : Line) (c k : Nat) : UInt8 := line (Fin.ofNat 64 (8 * k + c))

/-- Element `e` of the word of chip `c`. -/
def chipElement (size : Nat) (line : Line) (c e : Nat) : Nat := number size (chipByte line c) (e * size)

/-- What an addition may be asked for. -/
def ElementSize (size : Nat) : Prop := size = 1 ∨ size = 2 ∨ size = 4 ∨ size = 8

theorem ElementSize.pos {size : Nat} (h : ElementSize size) : 0 < size := by
  unfold ElementSize at h
  omega

theorem ElementSize.dvd {size : Nat} (h : ElementSize size) : size ∣ 8 := by
  obtain rfl | rfl | rfl | rfl := h <;> decide

theorem ElementSize.laneBytes_eq {size : Nat} (h : ElementSize size) : laneBytes size = size := by
  obtain rfl | rfl | rfl | rfl := h <;> rfl

/-- The word of element `e`, and its place there. -/
theorem ElementSize.split {size : Nat} (h : ElementSize size) (e : Nat) :
    e * size = 8 * (e / (8 / size)) + e % (8 / size) * size ∧ e % (8 / size) * size + size ≤ 8 := by
  have hwhole : 8 / size * size = 8 := Nat.div_mul_cancel h.dvd
  have hper : 0 < 8 / size := Nat.div_pos (Nat.le_of_dvd (by decide) h.dvd) h.pos
  constructor
  · have hdiv := Nat.div_add_mod e (8 / size)
    calc e * size = (8 / size * (e / (8 / size)) + e % (8 / size)) * size := by rw [hdiv]
      _ = 8 / size * size * (e / (8 / size)) + e % (8 / size) * size := by ring
      _ = 8 * (e / (8 / size)) + e % (8 / size) * size := by rw [hwhole]
  · have hle := Nat.mul_le_mul_right size (Nat.mod_lt e hper)
    rwa [Nat.succ_mul, hwhole] at hle

section Sums

variable {n size c e : Nat} (hsize : ElementSize size) (hc : c < 8) (he : e * size + size ≤ 8)
include hsize hc he

/-- Interleaved, the word of chip `c` is the eight bytes from `8 * c` on. -/
theorem lane_interleave (v : Line) :
    Simd.lane size (interleave v) (8 / size * c + e) = chipElement size v c e := by
  have hwhole : 8 / size * size = 8 := Nat.div_mul_cancel hsize.dvd
  have hstart : (8 / size * c + e) * size = 8 * c + e * size := by
    rw [Nat.add_mul, Nat.mul_right_comm, hwhole]
  apply number_congr
  intro j hj
  rw [hstart, interleave_eq]
  apply congrArg v
  apply Fin.ext
  show 8 * ((8 * c + e * size + j) % 64 % 8) + (8 * c + e * size + j) % 64 / 8 = (8 * (e * size + j) + c) % 64
  have hbyte : e * size + j < 8 := by omega
  rw [Nat.add_assoc]
  generalize e * size + j = k at hbyte
  have hline : (8 * c + k) % 64 = 8 * c + k := Nat.mod_eq_of_lt (by omega)
  have hline' : (8 * k + c) % 64 = 8 * k + c := Nat.mod_eq_of_lt (by omega)
  rw [hline, hline']
  omega

/-- The element of a register that is interleaved once more. -/
theorem chipElement_interleave (v : Line) :
    chipElement size (interleave v) c e = Simd.lane size v (8 / size * c + e) := by
  have hback : interleave (interleave v) = v := by
    rw [interleave_eq, interleave_eq]
    funext k
    exact congrArg v (transposeIndex_transposeIndex k)
  rw [← lane_interleave hsize hc he, hback]

omit hsize hc he in
theorem chipElement_one (v : Line) : chipElement 1 v c e = Simd.lane 1 v (8 * e + c) := by
  apply number_congr
  intro j hj
  obtain rfl : j = 0 := by omega
  apply congrArg v
  apply Fin.ext
  show (8 * (e * 1 + 0) + c) % 64 = ((8 * e + c) * 1 + 0) % 64
  rw [Nat.mul_one, Nat.mul_one, Nat.add_zero, Nat.add_zero]

/-- Every element of the sum is the sum of the elements. -/
theorem sumRs_element (regs : Fin n → Line) :
    chipElement size (sumRs size regs) c e = (∑ p, chipElement size (regs p) c e) % 256 ^ size := by
  unfold sumRs
  split
  · next hone =>
    subst hone
    have hbyte : (8 * e + c) * 1 + 1 ≤ 64 := by omega
    rw [chipElement_one, Simd.lane_sum _ hbyte, List.map_ofFn, List.sum_ofFn]
    simp only [Function.comp_apply, chipElement_one]
  · have hlane : (8 / size * c + e) * size + size ≤ 64 := by
      have hwhole : 8 / size * size = 8 := Nat.div_mul_cancel hsize.dvd
      rw [Nat.add_mul, Nat.mul_right_comm, hwhole]
      omega
    rw [chipElement_interleave hsize hc he, hsize.laneBytes_eq, Simd.lane_sum _ hlane, List.map_ofFn, List.sum_ofFn]
    simp only [Function.comp_apply, lane_interleave hsize hc he]

omit hsize in
/-- Chip `c` gets the element of chip `c - r`. -/
theorem chipElement_rotated (r : Nat) (v : Line) :
    chipElement size (Simd.rolEpi64Bytes r v) c e = chipElement size v ((c + 8 - r % 8) % 8) e := by
  apply number_congr
  intro j hj
  have hbyte : e * size + j < 8 := by omega
  generalize e * size + j = k at hbyte
  have hk : (Fin.ofNat 64 (8 * k + c)).val = 8 * k + c := Nat.mod_eq_of_lt (by omega)
  have hlane : (8 * k + c) / 8 * 8 = 8 * k := by omega
  have hchip : (8 * k + c) % 8 = c := by omega
  apply congrArg v
  apply Fin.ext
  show ((Fin.ofNat 64 (8 * k + c)).val / 8 * 8 + ((Fin.ofNat 64 (8 * k + c)).val % 8 + 8 - r % 8) % 8) % 64 =
    (8 * k + (c + 8 - r % 8) % 8) % 64
  rw [hk, hlane, hchip]

theorem rnsSumRs_element (lines : Fin n → Line) : chipElement size (rnsSumRs size lines) c e =
    (∑ p, chipElement size (lines p) ((c + 8 - p % 8) % 8) e) % 256 ^ size := by
  have hrotated : ∀ p, chipElement size (Simd.rolEpi64Bytes (p.val % 8) (lines p)) c e =
      chipElement size (lines p) ((c + 8 - p % 8) % 8) e := by
    intro p
    rw [chipElement_rotated hc he, Nat.mod_mod]
  rw [rnsSumRs, sumRs_element hsize hc he, Finset.sum_congr rfl fun p _ => hrotated p]

end Sums

/-! ## The kernels -/

/-- A call of one of the two kernels: a group of each source and of the destination, in their
ranks, and the offsets of words that are in the MRAM. -/
structure ReduceScatterRg where
  numIterSrc : Nat
  srcRank : Nat → Nat
  dstRank : Nat
  srcRgId : Nat → Nat
  dstRgId : Nat
  srcStartOffset : Nat
  dstStartOffset : Nat
  byteLength : Nat
  commType : Nat
  communicationBufferOffset : Nat
  size : Nat
  srcRgId_lt : ∀ j, srcRgId j < 8
  dstRgId_lt : dstRgId < 8
  src_aligned : 8 ∣ srcStartOffset
  dst_aligned : 8 ∣ dstStartOffset
  buffer_aligned : 8 ∣ communicationBufferOffset
  length_aligned : 8 ∣ byteLength
  src_fits : srcStartOffset + 1024 * 1024 + communicationBufferOffset + nrBlocks commType * byteLength ≤ 0x4000000
  dst_fits : dstStartOffset + 1024 * 1024 + byteLength ≤ 0x4000000

namespace ReduceScatterRg

variable (t : ReduceScatterRg)

/-- One word: `nr` lines of each source, `byte_length` apart in its MRAM. -/
def word (nr : Nat) (sum : ∀ n, (Fin n → Line) → Line) (srcMramOffset dstMramOffset : Nat) :
    BlockGather Nat UInt8 64 where
  sources := t.numIterSrc * nr
  srcRegion p := t.srcRank (p / nr)
  srcAddr p := wordLine (t.srcRgId (p / nr)) (srcMramOffset + t.byteLength * (p % nr))
  dstRegion := t.dstRank
  dstAddr := wordLine t.dstRgId dstMramOffset
  combine := sum _

def next (s : KernelState) (g : BlockGather Nat UInt8 64) : KernelState where
  srcMramOffset := s.srcMramOffset + 8
  dstMramOffset := s.dstMramOffset + 8
  regions := g.exec s.regions

def cpuWord (s : KernelState) : KernelState :=
  next s (t.word 8 (fun _ => rnsSumRs t.size) s.srcMramOffset s.dstMramOffset)

def cpuYWord (s : KernelState) : KernelState :=
  next s (t.word 1 (fun _ => sSumRs t.size) s.srcMramOffset s.dstMramOffset)

/-- The words from number `8 * share * thread_id` bytes on, `share` of them. -/
def transReduceScatterCpuRg (numThread threadId : Nat) (m : Regions) : Regions :=
  let iterLength := t.byteLength / 8
  ((List.range (iterLength / numThread)).foldl (fun s _ => t.cpuWord s)
    { srcMramOffset := t.srcStartOffset + 1024 * 1024 + t.communicationBufferOffset +
        8 * (iterLength / numThread) * threadId
      dstMramOffset := t.dstStartOffset + 1024 * 1024 + 8 * (iterLength / numThread) * threadId
      regions := m }).regions

def transReduceScatterCpuYRg (m : Regions) : Regions :=
  ((List.range (t.byteLength / 8)).foldl (fun s _ => t.cpuYWord s)
    { srcMramOffset := t.srcStartOffset + 1024 * 1024 + t.communicationBufferOffset
      dstMramOffset := t.dstStartOffset + 1024 * 1024
      regions := m }).regions

/-! ## Word by word -/

/-- The MRAM offset of word `w` of block `r` at a source. -/
def srcOffset (r w : Nat) : Nat :=
  t.srcStartOffset + 1024 * 1024 + t.communicationBufferOffset + 8 * w + t.byteLength * r

def dstOffset (w : Nat) : Nat := t.dstStartOffset + 1024 * 1024 + 8 * w

/-- The sum that `comm_type` selects. -/
def sumOf (n : Nat) (lines : Fin n → Line) : Line :=
  if t.commType = 0 then rnsSumRs t.size lines else sSumRs t.size lines

/-- Word `w` of the call. -/
def wordSum (w : Nat) : BlockGather Nat UInt8 64 :=
  t.word (nrBlocks t.commType) t.sumOf (t.srcOffset 0 w) (t.dstOffset w)

/-- The words of the call. -/
def wordSums : List (BlockGather Nat UInt8 64) := (List.range (t.byteLength / 8)).map t.wordSum

variable {t}

/-- A loop over words, of which each moves the two offsets on. -/
theorem words_loop (g : Nat → Nat → BlockGather Nat UInt8 64) (src dst count : Nat) (m : Regions) :
    ((List.range count).foldl (fun s _ => next s (g s.srcMramOffset s.dstMramOffset)) ⟨src, dst, m⟩) =
      ⟨src + 8 * count, dst + 8 * count,
        BlockGather.run ((List.range count).map fun w => g (src + 8 * w) (dst + 8 * w)) m⟩ := by
  induction count with
  | zero => rfl
  | succ count ih =>
    rw [List.range_succ, List.foldl_append, ih, List.map_append, BlockGather.run_append]
    rfl

/-- One thread does all words. -/
theorem transReduceScatterCpuRg_eq (hx : t.commType = 0) (m : Regions) :
    t.transReduceScatterCpuRg 1 0 m = BlockGather.run t.wordSums m := by
  have hword : t.wordSum = fun w => t.word 8 (fun _ => rnsSumRs t.size)
      (t.srcStartOffset + 1024 * 1024 + t.communicationBufferOffset + 8 * w)
      (t.dstStartOffset + 1024 * 1024 + 8 * w) := by
    funext w
    have hsum : t.sumOf = fun _ => rnsSumRs t.size := by
      funext n lines
      exact if_pos hx
    rw [wordSum, hsum, nrBlocks, if_pos hx]
    rfl
  simp only [transReduceScatterCpuRg, cpuWord, Nat.div_one, Nat.mul_zero, Nat.add_zero]
  rw [words_loop (fun src dst => t.word 8 (fun _ => rnsSumRs t.size) src dst), wordSums, hword]

theorem transReduceScatterCpuYRg_eq (hx : t.commType ≠ 0) (m : Regions) :
    t.transReduceScatterCpuYRg m = BlockGather.run t.wordSums m := by
  have hword : t.wordSum = fun w => t.word 1 (fun _ => sSumRs t.size)
      (t.srcStartOffset + 1024 * 1024 + t.communicationBufferOffset + 8 * w)
      (t.dstStartOffset + 1024 * 1024 + 8 * w) := by
    funext w
    have hsum : t.sumOf = fun _ => sSumRs t.size := by
      funext n lines
      exact if_neg hx
    rw [wordSum, hsum, nrBlocks, if_neg hx]
    rfl
  simp only [transReduceScatterCpuYRg, cpuYWord]
  rw [words_loop (fun src dst => t.word 1 (fun _ => sSumRs t.size) src dst), wordSums, hword]

/-- The element that a word's sum has for chip `c`. -/
theorem wordSum_element (hsize : ElementSize t.size) {c e w : Nat} (hc : c < 8) (he : e * t.size + t.size ≤ 8)
    (m : Regions) : chipElement t.size ((t.wordSum w).result m) c e =
      (∑ p : Fin (t.numIterSrc * nrBlocks t.commType), chipElement t.size
        ((m (t.srcRank (p / nrBlocks t.commType))).load (wordLine (t.srcRgId (p / nrBlocks t.commType))
          (t.srcOffset (p % nrBlocks t.commType) w)) 64) ((c + 8 - p % nrBlocks t.commType) % 8) e) % 256 ^ t.size := by
  have hblock : ∀ r, t.srcOffset 0 w + t.byteLength * r = t.srcOffset r w := by
    intro r
    rw [srcOffset, srcOffset, Nat.mul_zero, Nat.add_zero]
  show chipElement t.size (t.sumOf _ fun p => (m (t.srcRank (p / nrBlocks t.commType))).load
    (wordLine (t.srcRgId (p / nrBlocks t.commType)) (t.srcOffset 0 w + t.byteLength * (p % nrBlocks t.commType))) 64)
      c e = _
  simp only [hblock, sumOf]
  split
  · next hx =>
    have hnr : nrBlocks t.commType = 8 := if_pos hx
    rw [rnsSumRs_element hsize hc he]
    simp only [hnr]
  · next hx =>
    have hchip : ∀ p, (c + 8 - p % nrBlocks t.commType) % 8 = c := by
      intro p
      have hnr : nrBlocks t.commType = 1 := if_neg hx
      rw [hnr, Nat.mod_one, Nat.sub_zero, Nat.add_mod_right, Nat.mod_eq_of_lt hc]
    rw [sSumRs, sumRs_element hsize hc he]
    simp only [hchip]

end ReduceScatterRg

end DpuBackend.Xeon
