import DpuBackend.Lib.Barrier
import DpuBackend.Lib.Mem
import DpuBackend.PidComm.Hypercube

/-
  The relocation kernels that run in place, as programs of their tasklets.

  C ↔ Lean (src/pidcomm_lib):
    DPU_MRAM_HEAP_POINTER, sizeof(T)          ↔ Build.heap, Build.wordBytes
    where the linker puts the MRAM            ↔ Build.mram
    mram_read, mram_write with word_cache     ↔ Transfer, transfer, Sdk
    barrier_wait                              ↔ Instr.wait
    the loop over target_dpu_num, iteration   ↔ moveBlocks
    data_relocate_clockwise, main             ↔ relocateClockwise
    data_relocate_clockwise_short, main       ↔ relocateClockwiseShort
    data_relocate_modified_reverse_clockwise  ↔ relocateModifiedReverseClockwise

  What a tasklet does besides its transfers and its barriers depends on the arguments
  alone, so a program is a list. `max_words_per_dpu` is shared by the tasklets, but all
  of them store the same number before they use it; the second loop of the modified
  kernel stores a new one after a barrier past which the first loop reads none.

  Addresses are 32 bits wide, and so is `target_dpu_num - dpu_num`.

  mram_read and mram_write are the SDK's. It describes them for whole words of 8 bytes and
  for 2048 bytes at most (`Transfer.Documented`), and an `Sdk` may do anything else with the
  other calls. The kernels also call printf. Its text goes to a buffer of the SDK in the MRAM
  below the heap, which no transfer here touches; it is left out, and nothing is said of the
  memory below the heap after a launch (`AgreeFrom`).
-/

namespace DpuBackend.PidComm

open DpuBackend.Lib

/-- What is fixed when a kernel is built: where the MRAM and the heap in it begin, and `T`. The
types `T` of common.h have 1, 2, 4 or 8 bytes. -/
structure Build where
  mram : Nat
  heap : Nat
  wordBytes : Nat
  mram_dvd : 8 ∣ mram
  mram_low : mram ≤ 2 ^ 31
  mram_le_heap : mram ≤ heap
  word_dvd : wordBytes ∣ 8

/-- `NR_TASKLETS` -/
def nrTasklets : Nat := 16

inductive Transfer where
  | mramRead (addr len : Nat)
  | mramWrite (addr len : Nat)
deriving DecidableEq, Repr

/-- Whole words of 8 bytes inside the MRAM of 64 MB, 2048 bytes at most. -/
def WordBlock (b : Build) (addr len : Nat) : Prop :=
  8 ∣ addr ∧ 8 ∣ len ∧ 0 < len ∧ len ≤ 2048 ∧ b.mram ≤ addr ∧ addr + len ≤ b.mram + 2 ^ 26

instance (b : Build) (addr len : Nat) : Decidable (WordBlock b addr len) := inferInstanceAs (Decidable (_ ∧ _))

/-- The calls the SDK describes. -/
def Transfer.Documented (b : Build) : Transfer → Prop
  | .mramRead addr len => WordBlock b addr len
  | .mramWrite addr len => WordBlock b addr len

instance (b : Build) : DecidablePred (Transfer.Documented b)
  | .mramRead addr len => inferInstanceAs (Decidable (WordBlock b addr len))
  | .mramWrite addr len => inferInstanceAs (Decidable (WordBlock b addr len))

/-- A transfer between the MRAM and the cache of a tasklet, byte by byte. -/
def transfer : Transfer → Mem UInt8 → Mem UInt8 → Mem UInt8 × Mem UInt8
  | .mramRead addr len, mram, cache => (mram, cache.store 0 (mram.load addr len))
  | .mramWrite addr len, mram, cache => (mram.store addr (cache.load 0 len), cache)

/-- The transfers of an SDK: the bytes move where the call is as described. -/
structure Sdk (b : Build) where
  exec : Transfer → Mem UInt8 → Mem UInt8 → Mem UInt8 × Mem UInt8
  documented : ∀ t : Transfer, t.Documented b → exec t = transfer t

abbrev Program := List (Instr Transfer)

def addr32 (x : Nat) : Nat := x % 2 ^ 32

/-- Subtraction of `uint32_t`. -/
def sub32 (x y : Nat) : Nat := (x + (2 ^ 32 - y % 2 ^ 32)) % 2 ^ 32

/-! ## The loop over the blocks -/

/-- The values `tid, tid + step, ..` below `n`. -/
def strided (n step tid : Nat) : List Nat := (List.range ((n - tid + step - 1) / step)).map (tid + step * ·)

/-- `max_words_per_dpu` -/
def maxWords (b : Build) (total n : Nat) : Nat := total / (n * b.wordBytes)

/-- `iter`: the chunks of 2048 bytes in a block. -/
def chunks (b : Build) (words : Nat) : Nat :=
  if words * b.wordBytes % 2048 = 0 then words * b.wordBytes / 2048 else words * b.wordBytes / 2048 + 1

def chunkBytes (b : Build) (words iteration : Nat) : Nat :=
  if iteration = chunks b words - 1 then (words - 2048 / b.wordBytes * iteration) * b.wordBytes else 2048

/-- Where chunk `iteration` of block `t` begins. -/
def chunkAddr (b : Build) (offset words t iteration : Nat) : Nat :=
  addr32 (b.heap + offset + words * t * b.wordBytes + 2048 * iteration)

/-- The block `t` goes to: rotated by `shift` in its group of `width`. -/
def rotated (width shift t : Nat) : Nat := t / width * width + sub32 t shift % width

/-- The parameters in which the loops of the kernels differ. -/
structure Move where
  source : Nat
  target : Nat
  blocks : Nat
  width : Nat
  shift : Nat
  barrier : Option Nat

/-- `barrier_wait`, where the kernel has one. -/
def sync : Option Nat → Program
  | some count => [.wait count]
  | none => []

/-- One pass of the inner loop. -/
def moveChunk (b : Build) (total : Nat) (noRotate : Bool) (m : Move) (t iteration : Nat) : Program :=
  let words := maxWords b total m.blocks
  let place := if noRotate then t else rotated m.width m.shift t
  .run (.mramRead (chunkAddr b m.source words t iteration) (chunkBytes b words iteration)) :: sync m.barrier ++
    (.run (.mramWrite (chunkAddr b m.target words place iteration) (chunkBytes b words iteration)) :: sync m.barrier)

/-- The blocks tasklet `tid` moves. -/
def moveBlocks (b : Build) (total : Nat) (noRotate : Bool) (m : Move) (tid : Nat) : Program :=
  (strided m.blocks m.width tid).flatMap fun t =>
    (List.range (chunks b (maxWords b total m.blocks))).flatMap (moveChunk b total noRotate m t)

/-! ## The kernels -/

def relocateClockwise (b : Build) (a : Arguments) (tid : Nat) : Program :=
  if tid ≥ 8 then []
  else .wait 8 :: (
    if a.numCommDpu % 8 = 0 then
      .wait 8 :: moveBlocks b a.totalDataSize a.noRotate
        ⟨a.startOffset, a.targetOffset, a.numCommDpu, 8, a.eachDpu, some 8⟩ tid
    -- the x axis is shorter than 8
    else if a.numCommDpu = 4 ∨ a.numCommDpu = 2 then
      if tid ≥ a.numCommDpu then []
      else .wait (if a.numCommDpu = 4 then 4 else 2) :: moveBlocks b a.totalDataSize a.noRotate
        ⟨a.startOffset, a.targetOffset, a.numCommDpu, a.numCommDpu, a.eachDpu,
          some (if a.numCommDpu = 4 then 4 else 2)⟩ tid
    else [])

def relocateClockwiseShort (b : Build) (a : Arguments) (tid : Nat) : Program :=
  if tid ≥ 8 then []
  else .wait 8 :: (
    if tid ≥ a.numCommRg then []
    else if a.commType = 0 then
      moveBlocks b a.totalDataSize a.noRotate
        ⟨a.startOffset, a.targetOffset, a.numCommDpu, a.numCommRg, a.eachDpu,
          if a.numCommRg = 4 then some 4 else if a.numCommRg = 2 then some 2 else none⟩ tid
    else
      moveBlocks b a.totalDataSize a.noRotate
        ⟨a.startOffset, a.targetOffset, a.numCommDpu, a.numCommRg, a.eachDpu / (8 / a.numCommRg), none⟩ tid)

def relocateModifiedReverseClockwise (b : Build) (a : Arguments) (tid : Nat) : Program :=
  if tid ≥ 8 then []
  else .wait 8 :: (
    if tid ≥ a.numCommRg then []
    else if a.commType = 0 then
      moveBlocks b a.totalDataSize a.noRotate
        ⟨a.startOffset, a.startOffset, a.numCommDpu, a.numCommRg, a.eachDpu, some 2⟩ tid ++
      -- the extra rotation moves pairs of blocks
      moveBlocks b a.totalDataSize a.noRotate
        ⟨a.startOffset, a.targetOffset, a.numCommDpu / 2, a.numCommRg, a.eachDpu / 4, some 2⟩ tid
    else
      moveBlocks b a.totalDataSize a.noRotate
        ⟨a.startOffset, a.targetOffset, a.numCommDpu, a.numCommRg, a.eachDpu / 2, none⟩ tid)

def Kernel.main : Kernel → Build → Arguments → Nat → Program
  | .clockwise => relocateClockwise
  | .clockwiseShort => relocateClockwiseShort
  | .modifiedReverseClockwise => relocateModifiedReverseClockwise

/-- The tasklets of a launch, with whatever the caches hold. -/
def launched (k : Kernel) (b : Build) (a : Arguments) (mram : Mem UInt8) (caches : Nat → Mem UInt8) :
    Threads Transfer (Mem UInt8) (Mem UInt8) where
  program := k.main b a
  locals := caches
  shared := mram

/-! ## What a rotation is -/

/-- `mram'` is `mram` with block `t` of the region at `base` moved to place `place t`, and
nothing else changed. -/
def Relocated (base size n : Nat) (place : Nat → Nat) (mram mram' : Mem UInt8) : Prop :=
  (∀ t < n, ∀ o < size, mram' (base + size * place t + o) = mram (base + size * t + o))
    ∧ ∀ x, Mem.Outside base (n * size) x → mram' x = mram x

/-- The place of block `t` by the arithmetic of the kernel. -/
def Kernel.place : Kernel → Arguments → Nat → Nat
  | .clockwise, a, t => rotated (if a.numCommDpu % 8 = 0 then 8 else a.numCommDpu) a.eachDpu t
  | .clockwiseShort, a, t =>
    rotated a.numCommRg (if a.commType = 0 then a.eachDpu else a.eachDpu / (8 / a.numCommRg)) t
  | .modifiedReverseClockwise, a, t =>
    if a.commType = 0 then
      let u := rotated a.numCommRg a.eachDpu t
      2 * rotated a.numCommRg (a.eachDpu / 4) (u / 2) + u % 2
    else rotated a.numCommRg (a.eachDpu / 2) t

/-- Two memories that differ below the heap only. -/
def AgreeFrom (heap : Nat) (m m' : Mem UInt8) : Prop := ∀ x, heap ≤ x → m x = m' x

/-- With the transfers `exec` every interleaving of the tasklets ends, in one memory from the
heap on, and that is the rotation of the blocks of `size` bytes. -/
def Rotates (exec : Transfer → Mem UInt8 → Mem UInt8 → Mem UInt8 × Mem UInt8) (k : Kernel) (b : Build) (a : Arguments)
    (size : Nat) : Prop :=
  ∀ mram, ∃ mram', Relocated (b.heap + a.startOffset) size a.numCommDpu (k.place a) mram mram' ∧
    ∀ caches, Settles exec nrTasklets (launched k b a mram caches) fun s =>
      s.Done nrTasklets ∧ AgreeFrom b.heap s.shared mram'

/-- The launch rotates the blocks on every SDK that does what is described. -/
def RotatesInPlace (k : Kernel) (b : Build) (a : Arguments) (size : Nat) : Prop :=
  ∀ sdk : Sdk b, Rotates sdk.exec k b a size

end DpuBackend.PidComm
