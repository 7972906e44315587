import DpuBackend.Ufi.Rank

/-
  The MRAM transfers of the UFI layer (`ufi_memory.c`).

  The muxes of the two DPUs of a pair always switch together, and a transfer
  writes whole lines. A matrix that names only one DPU of a pair on some
  interface is split into its even and its odd lines, and the muxes are prepared
  for each part. What the backend does with a matrix is not decided here:
  `Rank.xferCalls` records the matrices it is handed and the muxes it finds.

  Correspondence (C ↔ Lean):
    `get_transfer_matrix_index`                      ↔ `Rank.xferIndex`
    `dpu_get(..)->enabled`                           ↔ `dpuGetEnabled`, `dpuGetBothEnabled`
    `duplicate_transfer_matrix`                      ↔ `scanPair`, `scanPairs`, `duplicationNeeded`, `Rank.halfMatrix`
    `is_transfer_matrix_full`                        ↔ `Rank.isTransferMatrixFull`
    `host_get_access_for_transfer_matrix`            ↔ `hostGetAccessForPair`, `hostGetAccessForTransferMatrix`
    `do_mram_transfer`                               ↔ `doMramTransfer`
    `copy_mram_for_dpus`                             ↔ `copyMramForDpus`
    `ci_copy_to_mrams`, `ci_copy_from_mrams`         ↔ `ciCopyToMrams`, `ciCopyFromMrams`
-/

namespace DpuBackend.Ufi

open DpuBackend.Xeon

/-- `get_transfer_matrix_index`. -/
def Rank.xferIndex (r : Rank) (sliceId dpuId : Nat) : Nat := dpuId * r.nrCis + sliceId

/-- Whether the matrix has a buffer for a DPU. -/
def Rank.hasTransfer (r : Rank) (m : DpuTransferMatrix) (sliceId dpuId : Nat) : Bool :=
  m.buffers.named (r.xferIndex sliceId dpuId)

/-- The `enabled` field of the DPU `dpu_get` returns. -/
def dpuGetEnabled (sliceId dpuId : Nat) : RankM Bool := do
  let r ← get
  if sliceId < r.nrCis ∧ dpuId < r.nrDpus then pure (r.dpuEnabled sliceId dpuId)
  else throw .nullDpu

/-- Whether both DPUs of a pair are enabled; the second is not looked at when the
first is disabled. -/
def dpuGetBothEnabled (sliceId dpuId : Nat) : RankM Bool := do
  let firstEnabled ← dpuGetEnabled sliceId dpuId
  if firstEnabled then dpuGetEnabled sliceId (dpuId + 1) else pure false

/-- The first DPU of each pair. -/
def Rank.pairs (r : Rank) : List Nat := (List.range ((r.nrDpus + 1) / 2)).map (2 * ·)

/-! ## Splitting the matrix -/

/-- The walk over the interfaces of the pair `(d, d + 1)`: whether each line has a
transfer as far as it was walked, and whether the walk ended at an interface
where only one DPU has one. Interfaces where a DPU is disabled are passed over. -/
def scanPair (m : DpuTransferMatrix) (d : Nat) : List Nat → Bool → Bool → RankM (Bool × Bool × Bool)
  | [], first, second => pure (first, second, false)
  | ci :: cis, first, second => do
    let bothEnabled ← dpuGetBothEnabled ci d
    let r ← get
    if !bothEnabled then scanPair m d cis first second
    else if r.hasTransfer m ci d ≠ r.hasTransfer m ci (d + 1) then
      pure (first || r.hasTransfer m ci d, second || r.hasTransfer m ci (d + 1), true)
    else scanPair m d cis (first || r.hasTransfer m ci d) (second || r.hasTransfer m ci (d + 1))

def scanPairs (m : DpuTransferMatrix) : List Nat → RankM Bool
  | [] => pure false
  | d :: ds => do
    let r ← get
    let scan ← scanPair m d (List.range r.nrCis) false false
    if scan.1 && scan.2.1 && scan.2.2 then pure true else scanPairs m ds

/-- `is_duplication_needed`. -/
def duplicationNeeded (m : DpuTransferMatrix) : RankM Bool := do
  let r ← get
  if r.nrDpus ≤ 1 then pure false
  else if r.apiMustSwitchMramMux then scanPairs m r.pairs
  else pure false

/-- The entries that satisfy `keep`; the others are null. -/
def XferBuffers.restrict (keep : Nat → Bool) : XferBuffers → XferBuffers
  | .ptr p => .ptr fun k => if keep k then p k else 0
  | .sgPtr p => .sgPtr fun k => if keep k then p k else none

/-- The lines of one parity: `even_transfer_matrix` (0) or `odd_transfer_matrix` (1). -/
def Rank.halfMatrix (r : Rank) (m : DpuTransferMatrix) (parity : Nat) : DpuTransferMatrix :=
  { m with
    buffers := XferBuffers.restrict (fun k => decide (k / r.nrCis < r.nrDpus) && decide (k / r.nrCis % 2 = parity)) m.buffers }

/-! ## Access -/

def Rank.isTransferMatrixFull (r : Rank) (m : DpuTransferMatrix) : Bool :=
  (List.range r.nrCis).all fun ci =>
    (List.range r.nrDpus).all fun d => !r.dpuEnabled ci d || r.hasTransfer m ci d

/-- The enabled DPUs of a line that have a transfer. -/
def Rank.xferMask (r : Rank) (m : DpuTransferMatrix) (dpuId : Nat) : Mask :=
  gatherMask r.nrCis fun ci => r.dpuEnabled ci dpuId && r.hasTransfer m ci dpuId

/-- The body of the loop of `host_get_access_for_transfer_matrix`. Its masks are
gathered through `dpu_get`, which finds no second DPU when the last pair has but
one. -/
def hostGetAccessForPair (m : DpuTransferMatrix) (d : Nat) : RankM PUnit := do
  let r ← get
  if 0 < r.nrCis ∧ ¬d + 1 < r.nrDpus then throw .nullDpu
  else
    let mask1 := r.xferMask m d
    let mask2 := r.xferMask m (d + 1)
    if mask1 = 0 ∧ mask2 = 0 then pure ⟨⟩
    else if ¬(mask1 = 0 ∨ mask2 = 0 ∨ mask1 = mask2) then throw .assertion
    else do
      dpuSwitchMuxForDpuLine d (mask1 ||| mask2)
      dpuSwitchMuxForDpuLine (d + 1) (mask1 ||| mask2)

def hostGetAccessForTransferMatrix (m : DpuTransferMatrix) : RankM PUnit := do
  let r ← get
  r.pairs.forM (hostGetAccessForPair m)

/-- `host_get_access_for_transfer`. -/
def hostGetAccessForTransfer (m : DpuTransferMatrix) : RankM PUnit := do
  let r ← get
  if r.isTransferMatrixFull m then dpuSwitchMuxForRank true
  else hostGetAccessForTransferMatrix m

/-! ## Transferring -/

/-- `MAX_NR_DPUS_PER_RANK`. -/
def maxNrDpusPerRank : Nat := 64

/-- `do_mram_transfer`: a matrix without any buffer is not handed to the backend. -/
def doMramTransfer (toMram : Bool) (m : DpuTransferMatrix) : RankM PUnit :=
  if (List.range maxNrDpusPerRank).any m.buffers.named then
    modify fun r => { r with xferCalls := ⟨toMram, m, r.hw.mux⟩ :: r.xferCalls }
  else pure ⟨⟩

/-- `copy_mram_for_dpus`. -/
def copyMramForDpus (toMram : Bool) (m : DpuTransferMatrix) : RankM PUnit := do
  let duplicate ← duplicationNeeded m
  if !duplicate then do
    hostGetAccessForTransfer m
    doMramTransfer toMram m
  else do
    let r ← get
    hostGetAccessForTransferMatrix (r.halfMatrix m 0)
    doMramTransfer toMram (r.halfMatrix m 0)
    hostGetAccessForTransferMatrix (r.halfMatrix m 1)
    doMramTransfer toMram (r.halfMatrix m 1)

def ciCopyToMrams (m : DpuTransferMatrix) : RankM PUnit := copyMramForDpus true m

def ciCopyFromMrams (m : DpuTransferMatrix) : RankM PUnit := copyMramForDpus false m

end DpuBackend.Ufi
