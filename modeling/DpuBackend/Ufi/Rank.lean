import DpuBackend.Lib.Hoare
import DpuBackend.Ufi.Slice
import DpuBackend.Xeon.Transfer

/-
  A rank as the host sees it, and the switching of its MRAM muxes
  (`ufi_config.c`).

  The host keeps records of the rank (which DPUs run, on which side each MRAM
  mux is) and the hardware goes its own way: between two commands DPUs may stop
  or fault. `Rank.schedule` lists what happens before each command, in the order
  the commands are sent; every command first lets that moment pass. Hardware
  commands succeed, so the status reads that wait for a mux are not modelled.

  A program stops early with an error code (`FF`), at an `assert` that fails, or
  at the null pointer `dpu_get` returns for a DPU the rank does not have.

  Correspondence (C ↔ Lean):
    `struct _dpu_run_context_t`                          ↔ `RunContext`
    `ufi_select_all` .. `ufi_select_dpu_even_disabled`   ↔ `ufiSelectAll` .. `ufiSelectDpuEvenDisabled`
    `ufi_read_dpu_run`, `ufi_read_dpu_fault`             ↔ `ufiReadDpuRun`, `ufiReadDpuFault`
    `ufi_thread_boot`, `ufi_thread_resume`               ↔ `ufiThreadBoot`, `ufiThreadResume`
    `ufi_set_mram_mux`                                   ↔ `ufiSetMramMux`
    `host_handle_access_for_dpu`, `.._for_rank`          ↔ `hostHandleAccessForDpu`, `hostHandleAccessForRank`
    `dpu_switch_mux_for_dpu_line`, `.._for_rank`         ↔ `dpuSwitchMuxForDpuLine`, `dpuSwitchMuxForRank`
-/

namespace DpuBackend.Ufi

open DpuBackend.Lib DpuBackend.Xeon

/-- What happens before a command. -/
structure Moment where
  /-- The DPUs that stop. -/
  stopped : Nat → Mask
  /-- The DPUs that fault. -/
  faulted : Nat → Mask
  /-- The DPUs whose fault a boot at this moment clears. -/
  recovered : Nat → Mask
  /-- What an array on the stack that is not yet written holds. -/
  stack : Nat → Mask

/-- The state of the DPUs themselves, for each control interface. -/
structure Hw where
  run : Nat → Mask
  fault : Nat → Mask
  /-- The DPUs whose MRAM mux is on the host side. -/
  mux : Nat → Mask

def Hw.elapse (m : Moment) (hw : Hw) : Hw :=
  { hw with
    run := fun ci => hw.run ci &&& ~~~m.stopped ci
    fault := fun ci => hw.fault ci ||| m.faulted ci }

structure RunContext where
  dpuRunning : Nat → Mask
  dpuInFault : Nat → Mask
  nbDpuRunning : Nat

/-- A transfer handed to the backend, and where the muxes were. -/
structure XferCall where
  toMram : Bool
  matrix : DpuTransferMatrix
  mux : Nat → Mask

structure Rank where
  nrCis : Nat
  nrDpus : Nat
  nrThreads : Nat
  apiMustSwitchMramMux : Bool
  initMramMux : Bool
  sliceInfo : Nat → SliceInfo
  runContext : RunContext
  hw : Hw
  schedule : Nat → Moment
  /-- The number of commands sent so far. -/
  clock : Nat
  /-- The transfers handed to the backend so far, the last one first. -/
  xferCalls : List XferCall

inductive DpuError where
  | invalidThreadId
  | dpuDisabled
  | mramBusy
  deriving DecidableEq

/-- How a program stops early. -/
inductive Stop where
  | error (e : DpuError)
  | assertion
  | nullDpu
  deriving DecidableEq

abbrev RankM := EStateM Stop Rank

/-- A program under a condition. -/
def onlyIf (b : Bool) (x : RankM PUnit) : RankM PUnit := if b then x else pure ⟨⟩

/-- The enabled bit of a DPU, which its `enabled` field repeats. -/
def Rank.dpuEnabled (r : Rank) (sliceId dpuId : Nat) : Bool := (r.sliceInfo sliceId).enabledDpus.getLsbD dpuId

/-! ## Commands -/

/-- Whether a loop over the interfaces of `mask` visits `ci`. -/
def Rank.visits (r : Rank) (mask : Mask) (ci : Nat) : Bool := decide (ci < r.nrCis) && mask.getLsbD ci

/-- A selection loop: the interfaces of the mask get the target they want, those
that want none leave the mask. -/
def Rank.select (r : Rank) (want : SliceInfo → Option SliceTarget) (mask : Mask) : Rank :=
  { r with
    sliceInfo := fun ci =>
      if r.visits mask ci then (r.sliceInfo ci).retarget (want (r.sliceInfo ci)) else r.sliceInfo ci }

def Rank.selected (r : Rank) (want : SliceInfo → Option SliceTarget) (mask : Mask) : Mask :=
  mask &&& ~~~gatherMask r.nrCis fun ci => r.visits mask ci && (want (r.sliceInfo ci)).isNone

/-- A `ufi_select_*` function: the mask it leaves. -/
def ufiSelect (want : SliceInfo → Option SliceTarget) (mask : Mask) : RankM Mask := do
  let r ← get
  set (r.select want mask)
  pure (r.selected want mask)

def ufiSelectAll : Mask → RankM Mask := ufiSelect SliceInfo.allTarget

def ufiSelectAllEvenDisabled : Mask → RankM Mask := ufiSelect SliceInfo.allEvenDisabledTarget

def ufiSelectDpu (mask : Mask) (dpu : Nat) : RankM Mask := ufiSelect (SliceInfo.dpuTarget · dpu) mask

def ufiSelectDpuEvenDisabled (mask : Mask) (dpu : Nat) : RankM Mask :=
  ufiSelect (SliceInfo.dpuEvenDisabledTarget · dpu) mask

/-- The moment before a command passes. -/
def Rank.elapse (r : Rank) : Rank :=
  { r with
    hw := r.hw.elapse (r.schedule r.clock)
    clock := r.clock + 1 }

/-- The results of a command that reads one byte of each interface of the mask. -/
def Rank.results (r : Rank) (mask : Mask) (read : Hw → Nat → Mask) : Nat → Mask :=
  fun ci => if r.visits mask ci then read r.elapse.hw ci else (r.schedule r.clock).stack ci

def ufiRead (read : Hw → Nat → Mask) (mask : Mask) : RankM (Nat → Mask) := do
  let r ← get
  set r.elapse
  pure (r.results mask read)

def ufiReadDpuRun : Mask → RankM (Nat → Mask) := ufiRead Hw.run

def ufiReadDpuFault : Mask → RankM (Nat → Mask) := ufiRead Hw.fault

/-- The DPUs a command reaches on an interface. -/
def Rank.reached (r : Rank) (mask : Mask) (ci : Nat) : Mask :=
  if r.visits mask ci then ((r.sliceInfo ci).selectedDpuMask r.nrDpus).getD 0 else 0

def Rank.boot (r : Rank) (mask : Mask) : Rank :=
  { r.elapse with
    hw :=
      { r.elapse.hw with
        run := fun ci => r.elapse.hw.run ci ||| r.reached mask ci
        fault := fun ci =>
          r.elapse.hw.fault ci &&& ~~~(r.reached mask ci &&& (r.schedule r.clock).recovered ci) } }

/-- `ufi_thread_boot` of one thread of the DPUs selected. -/
def ufiThreadBoot (mask : Mask) : RankM PUnit := modify (Rank.boot · mask)

/-- `ufi_thread_resume`: another frame, to the same DPUs. -/
def ufiThreadResume (mask : Mask) : RankM PUnit := modify (Rank.boot · mask)

def Rank.setMramMux (r : Rank) (mask pos : Mask) : Rank :=
  { r.elapse with
    hw :=
      { r.elapse.hw with
        mux := fun ci =>
          if pos.getLsbD ci then r.hw.mux ci ||| r.reached mask ci else r.hw.mux ci &&& ~~~r.reached mask ci } }

/-- `ufi_set_mram_mux`: bit `ci` of `pos` is set for the host side. -/
def ufiSetMramMux (mask pos : Mask) : RankM PUnit := modify (Rank.setMramMux · mask pos)

/-! ## Muxes -/

/-- `host_handle_access_for_dpu`. -/
def hostHandleAccessForDpu (dpuId : Nat) (ciMuxPos : Mask) : RankM PUnit := do
  let ciMask ← ufiSelectDpuEvenDisabled allCis dpuId
  ufiSetMramMux ciMask ciMuxPos

/-- `host_handle_access_for_rank`. -/
def hostHandleAccessForRank (setMuxForHost : Bool) : RankM PUnit := do
  let mask ← ufiSelectAllEvenDisabled allCis
  ufiSetMramMux mask (if setMuxForHost then 0xFF#8 else 0)

/-- `dpu_get_host_mux_mram_state`. -/
def Rank.hostMux (r : Rank) (ci dpuId : Nat) : Bool := (r.sliceInfo ci).hostMuxMramState.getLsbD dpuId

/-- The recorded mux state of a line: one bit for each interface. -/
def Rank.muxLine (r : Rank) (dpuId : Nat) : Mask := gatherMask r.nrCis fun ci => r.hostMux ci dpuId

/-- A sum over the interfaces. -/
def Rank.sumCis (r : Rank) (f : Nat → Nat) : Nat := (List.range r.nrCis).foldl (fun n ci => n + f ci) 0

/-- The running DPUs of `runMask`. -/
def Rank.nbRunning (r : Rank) (runMask : Mask) : Nat :=
  r.sumCis fun ci => dpuMaskCount (r.runContext.dpuRunning ci &&& runMask)

/-- Record a line's mux state. -/
def Rank.recordMuxLine (r : Rank) (dpuId : Nat) (mask : Mask) : Rank :=
  { r with
    sliceInfo := fun ci =>
      if ci < r.nrCis then (r.sliceInfo ci).setHostMux dpuId (mask.getLsbD ci) else r.sliceInfo ci }

/-- The first DPU of the pair, `dpu_id & ~1`. -/
def pairBase (dpuId : Nat) : Nat := dpuId - dpuId % 2

/-- `dpu_switch_mux_for_dpu_line`. -/
def dpuSwitchMuxForDpuLine (dpuId : Nat) (mask : Mask) : RankM PUnit := do
  let r ← get
  let base := pairBase dpuId
  let switchBaseLine := decide (r.muxLine base ≠ mask)
  let switchFriendLine := decide (base + 1 < r.nrDpus) && decide (r.muxLine (base + 1) ≠ mask)
  if !switchBaseLine && !switchFriendLine then pure ⟨⟩
  else
    let runMask := if switchBaseLine then dpuMaskSelect dpuMaskEmpty base else dpuMaskEmpty
    let runMask := if switchFriendLine then dpuMaskSelect runMask (base + 1) else runMask
    if r.nbRunning runMask > 0 then throw (.error .mramBusy)
    else do
      -- recorded before the hardware is switched
      modify fun r => if switchBaseLine then r.recordMuxLine base mask else r
      modify fun r => if switchFriendLine then r.recordMuxLine (base + 1) mask else r
      if !r.apiMustSwitchMramMux then pure ⟨⟩
      else do
        onlyIf switchBaseLine (hostHandleAccessForDpu base mask)
        onlyIf switchFriendLine (hostHandleAccessForDpu (base + 1) mask)

/-- At least one interface has a mux on the other side. -/
def Rank.mustSwitchRank (r : Rank) (setMuxForHost : Bool) : Bool :=
  (List.range r.nrCis).any fun ci =>
    let mux := (r.sliceInfo ci).hostMuxMramState
    (setMuxForHost && decide (dpuMaskCount mux < r.nrDpus)) || (!setMuxForHost && decide (mux ≠ 0))

/-- Record the mux state of the whole rank. -/
def Rank.recordMuxRank (r : Rank) (setMuxForHost : Bool) : Rank :=
  { r with
    sliceInfo := fun ci =>
      if ci < r.nrCis then
        { r.sliceInfo ci with hostMuxMramState := if setMuxForHost then dpuMaskAll r.nrDpus else 0 }
      else r.sliceInfo ci }

/-- `dpu_switch_mux_for_rank`. -/
def dpuSwitchMuxForRank (setMuxForHost : Bool) : RankM PUnit := do
  let r ← get
  if r.runContext.nbDpuRunning > 0 then throw (.error .mramBusy)
  else if !r.mustSwitchRank setMuxForHost then pure ⟨⟩
  else do
    modify (Rank.recordMuxRank · setMuxForHost)
    if !r.apiMustSwitchMramMux && !r.initMramMux then pure ⟨⟩
    else hostHandleAccessForRank setMuxForHost

end DpuBackend.Ufi
