import DpuBackend.Lib.Hoare
import DpuBackend.Ufi.CommandWords
import DpuBackend.Ufi.Slice

/-
  The operations of the UFI layer as sequences of packets (`ufi.c`, `ufi_ci.c`).

  All operations build their packets in the same buffer, `rank->cmds`, and leave
  it behind for the next one. A cell of the buffer carries, besides its word,
  whether the running call wrote it; the packets a call hands to the driver are
  logged. How each command ends is given: refused before it reaches the driver,
  failed (by the driver, or by the answer that never came), or done. What the
  commands read back is not modelled.

  Correspondence (C ↔ Lean):
    `rank->cmds`, `slice_info`                          ↔ `CmdRank.cmds`, `CmdRank.sliceInfo`
    `ci_prepare_mask`                                   ↔ `prepared`, `ciPrepareMask`
    `ci_commit_commands`, `exec_cmd`                    ↔ `ciCommitCommands`, `execCmd`
    `ci_exec_void_cmd`, `ci_exec_8bit_cmd`, `.._32bit`  ↔ `ciExecCmd`
    `ci_exec_wait_mask_cmd`                             ↔ `ciExecWaitMaskCmd`
    `UFI_exec_write_structure(s)`                       ↔ `execWriteStructure`, `execWriteStructures`
    `UFI_exec_void_frame`, `.._8bit_..`, `.._32bit_..`  ↔ `execFrame`
    `UFI_exec_void_frames`                              ↔ `execFrames`
    `ufi_<operation>`                                   ↔ `Op.<operation>`, `Op.program`
-/

namespace DpuBackend.Ufi

open DpuBackend.Lib

/-- An entry of a command buffer, and whether the running call wrote it. -/
structure Cell where
  word : Word
  ours : Bool

abbrev Packet := Nat → Cell

inductive CmdError where
  | driver
  | timeout
  | internal
  deriving DecidableEq

/-- How a command ends. -/
inductive CmdOutcome where
  | refused (e : CmdError)
  | failed (e : CmdError)
  | done

structure CmdRank where
  nrCis : Nat
  nrDpus : Nat
  sliceInfo : Nat → SliceInfo
  /-- `rank->cmds`. -/
  cmds : Packet
  /-- The packets the running call has handed to the driver, the last one first. -/
  commits : List Packet
  outcome : Nat → CmdOutcome
  /-- The number of commands of the running call so far. -/
  clock : Nat

abbrev CmdM := EStateM CmdError CmdRank

/-! ## Commands -/

/-- Whether a loop over the interfaces of `mask` visits `ci`. -/
def CmdRank.visits (r : CmdRank) (mask : Mask) (ci : Nat) : Bool := decide (ci < r.nrCis) && mask.getLsbD ci

/-- A buffer that the running call has prepared: `word` for the interfaces of the
mask, nothing for the others. -/
def prepared (mask : Mask) (word : Word) : Packet := fun ci => ⟨if mask.getLsbD ci then word else ciEmpty, true⟩

/-- `ci_prepare_mask` on `rank->cmds`. -/
def ciPrepareMask (mask : Mask) (word : Word) : CmdM PUnit :=
  modify fun r => { r with cmds := prepared mask word }

/-- A loop that writes a word of its own for each interface of the mask. -/
def writeCmds (mask : Mask) (word : Nat → Word) : CmdM PUnit :=
  modify fun r => { r with cmds := fun ci => if r.visits mask ci then ⟨word ci, true⟩ else r.cmds ci }

def ciCommitCommands (packet : Packet) : CmdM PUnit := do
  let r ← get
  match r.outcome r.clock with
  | .refused e => do
    set { r with clock := r.clock + 1 }
    throw e
  | .failed e => do
    set { r with clock := r.clock + 1, commits := packet :: r.commits }
    throw e
  | .done => set { r with clock := r.clock + 1, commits := packet :: r.commits }

/-- Some interface that gets a command has no target, so that the DPUs whose answer is
awaited are unknown: the error of `compute_masks`. -/
def CmdRank.lacksTarget (r : CmdRank) (packet : Packet) : Bool :=
  (List.range r.nrCis).any fun ci =>
    decide ((packet ci).word ≠ ciEmpty) && ((r.sliceInfo ci).selectedDpuMask r.nrDpus).isNone

def execCmd (addSelectMask : Bool) (packet : Packet) : CmdM PUnit := do
  let r ← get
  if addSelectMask && r.lacksTarget packet then throw .internal else ciCommitCommands packet

/-- `ci_exec_void_cmd` on `rank->cmds`; the variants that read results send the same. -/
def ciExecCmd : CmdM PUnit := do
  let r ← get
  execCmd false r.cmds

/-- `ci_exec_wait_mask_cmd` on `rank->cmds`. -/
def ciExecWaitMaskCmd : CmdM PUnit := do
  let r ← get
  execCmd true r.cmds

/-- `ci_prepare_mask` followed by the execution of the command. -/
def prepareAndExec (mask : Mask) (word : Word) : CmdM PUnit := do
  ciPrepareMask mask word
  ciExecCmd

/-! ## Structures and frames -/

/-- Some interface of the mask holds another structure. -/
def CmdRank.mustWriteStructure (r : CmdRank) (mask : Mask) (struct : Word) : Bool :=
  (List.range r.nrCis).any fun ci =>
    mask.getLsbD ci && decide ((r.sliceInfo ci).structureValue ≠ struct)

def CmdRank.setStructure (r : CmdRank) (mask : Mask) (struct : Word) : CmdRank :=
  { r with
    sliceInfo := fun ci =>
      if r.visits mask ci then { r.sliceInfo ci with structureValue := struct } else r.sliceInfo ci }

/-- `UFI_exec_write_structure`. -/
def execWriteStructure (mask : Mask) (struct : Word) : CmdM PUnit := do
  let r ← get
  set (r.setStructure mask struct)
  if r.mustWriteStructure mask struct then prepareAndExec mask struct else pure ⟨⟩

/-- The interface is in the mask and its entry is a structure it does not hold. -/
def CmdRank.takesStructure (r : CmdRank) (mask : Mask) (structures : Packet) (ci : Nat) : Bool :=
  r.visits mask ci && decide ((structures ci).word ≠ ciEmpty)
    && decide ((r.sliceInfo ci).structureValue ≠ (structures ci).word)

/-- `UFI_exec_write_structures`. -/
def execWriteStructures (mask : Mask) (structures : Packet) : CmdM PUnit := do
  let r ← get
  set { r with
    sliceInfo := fun ci =>
      if r.takesStructure mask structures ci then { r.sliceInfo ci with structureValue := (structures ci).word }
      else r.sliceInfo ci }
  if (List.range r.nrCis).any (r.takesStructure mask structures) then execCmd false structures else pure ⟨⟩

/-- `UFI_exec_void_frame`, and the variants that read results. -/
def execFrame (mask : Mask) (struct frame : Word) : CmdM PUnit := do
  execWriteStructure mask struct
  prepareAndExec mask frame

/-- `UFI_exec_void_frames` on `rank->cmds`. -/
def execFrames (mask : Mask) (structures : Packet) : CmdM PUnit := do
  execWriteStructures mask structures
  ciExecCmd

/-- Frames of their own for the interfaces of the mask, in a buffer that only the
structure, if it is sent, has prepared. -/
def execOwnFrames (mask : Mask) (struct : Word) (frame : Nat → Word) : CmdM PUnit := do
  execWriteStructure mask struct
  writeCmds mask frame
  ciExecCmd

/-! ## Selection -/

/-- The interface gets a new target. -/
def CmdRank.retargets (r : CmdRank) (want : SliceInfo → Option SliceTarget) (mask : Mask) (ci : Nat) : Bool :=
  r.visits mask ci && (want (r.sliceInfo ci)).isSome
    && decide (want (r.sliceInfo ci) ≠ some (r.sliceInfo ci).sliceTarget)

/-- The mask without the interfaces that have nothing to select. -/
def CmdRank.selected (r : CmdRank) (want : SliceInfo → Option SliceTarget) (mask : Mask) : Mask :=
  mask &&& ~~~gatherMask r.nrCis fun ci => r.visits mask ci && (want (r.sliceInfo ci)).isNone

def CmdRank.setTargets (r : CmdRank) (want : SliceInfo → Option SliceTarget) (mask : Mask) : CmdRank :=
  { r with
    sliceInfo := fun ci =>
      if r.visits mask ci then (r.sliceInfo ci).retarget (want (r.sliceInfo ci)) else r.sliceInfo ci }

/-- The structure and the frame that select a target. -/
def selectStruct : SliceTarget → Word
  | .all => plainStruct
  | .dpu _ => oneByteStruct
  | .group _ => oneByteStruct
  | .none => ciEmpty

def selectFrame : SliceTarget → Word
  | .all => selectAllFrame
  | .dpu d => selectDpuFrame (BitVec.ofNat 64 d)
  | .group g => selectGroupFrame (BitVec.ofNat 64 g)
  | .none => ciEmpty

/-- `ufi_select_group`, `ufi_select_dpu`, `ufi_select_dpu_even_disabled`: every
interface left in the mask is sent the selection when one of them needs it. -/
def selectOne (want : SliceInfo → Option SliceTarget) (target : SliceTarget) (mask : Mask) : CmdM PUnit := do
  let r ← get
  set (r.setTargets want mask)
  if (List.range r.nrCis).any (r.retargets want mask) then
    execFrame (r.selected want mask) (selectStruct target) (selectFrame target)
  else pure ⟨⟩

/-- The local array of `ufi_select_all` and `ufi_select_all_even_disabled`. -/
def CmdRank.selectStructs (r : CmdRank) (want : SliceInfo → Option SliceTarget) (mask : Mask) : Packet :=
  fun ci => ⟨if r.retargets want mask ci then selectStruct ((want (r.sliceInfo ci)).getD .none) else ciEmpty, true⟩

/-- The buffer after their loop: only the interfaces that get a new target are written. -/
def CmdRank.selectCmds (r : CmdRank) (want : SliceInfo → Option SliceTarget) (mask : Mask) : Packet :=
  fun ci => if r.retargets want mask ci then ⟨selectFrame ((want (r.sliceInfo ci)).getD .none), true⟩ else r.cmds ci

def CmdRank.writeSelection (r : CmdRank) (want : SliceInfo → Option SliceTarget) (mask : Mask) : CmdRank :=
  { r.setTargets want mask with cmds := r.selectCmds want mask }

/-- `ufi_select_all`, `ufi_select_all_even_disabled`. -/
def selectEach (want : SliceInfo → Option SliceTarget) (mask : Mask) : CmdM PUnit := do
  let r ← get
  set (r.writeSelection want mask)
  if (List.range r.nrCis).any (r.retargets want mask) then
    execFrames (r.selected want mask) (r.selectStructs want mask)
  else pure ⟨⟩

/-- `ufi_select_all_uncached`, `ufi_select_group_uncached`, `ufi_select_dpu_uncached`. -/
def selectUncached (target : SliceTarget) (mask : Mask) : CmdM PUnit := do
  modify fun r => r.setTargets (fun _ => some target) mask
  execFrame mask (selectStruct target) (selectFrame target)

/-! ## Groups and reset -/

/-- `DPU_MAX_NR_GROUPS`. -/
def maxNrGroups : Nat := 8

def SliceInfo.moveToGroup (info : SliceInfo) (group : Nat) (dpus : Mask) : SliceInfo :=
  { info with
    dpusPerGroup := fun g =>
      let kept := if g < maxNrGroups then info.dpusPerGroup g &&& ~~~dpus else info.dpusPerGroup g
      if g = group then kept ||| dpus else kept }

/-- The loop of `ufi_write_group`. -/
def moveToGroup (mask : Mask) (group : Nat) (ci : Nat) : CmdM PUnit := do
  let r ← get
  if r.visits mask ci then
    match (r.sliceInfo ci).selectedDpuMask r.nrDpus with
    | none => throw .internal
    | some dpus => set { r with sliceInfo := Function.update r.sliceInfo ci ((r.sliceInfo ci).moveToGroup group dpus) }
  else pure ⟨⟩

/-- `ufi_write_group`. -/
def writeGroup (mask : Mask) (group : Nat) : CmdM PUnit := do
  let r ← get
  (List.range r.nrCis).forM (moveToGroup mask group)
  execFrame mask oneByteStruct (writeGroupFrame (BitVec.ofNat 64 group))

/-- What a software reset does to the group and select information. -/
def CmdRank.resetSelection (r : CmdRank) : CmdRank :=
  { r with
    sliceInfo := fun ci =>
      { r.sliceInfo ci with
        sliceTarget := .none
        dpusPerGroup := fun g =>
          if g = 0 then dpuMaskAll r.nrDpus else if g < maxNrGroups then 0 else (r.sliceInfo ci).dpusPerGroup g } }

/-- `ci_exec_reset_cmd` on `rank->cmds`. -/
def ciExecResetCmd : CmdM PUnit := do
  ciExecCmd
  modify CmdRank.resetSelection

/-! ## Repair, memories and muxes -/

/-- `struct dpu_repair_config`. -/
structure RepairConfig where
  abMsbs : Word
  cdMsbs : Word
  aLsbs : Word
  bLsbs : Word
  cLsbs : Word
  dLsbs : Word
  evenIndex : Word
  oddIndex : Word

/-- `IRAM_TIMING_SAFE_VALUE`, `RFRAM_TIMING_SAFE_VALUE`, `WRAM_TIMING_SAFE_VALUE`. -/
def iramTimingSafeValue : Word := 0x02
def rframTimingSafeValue : Word := 0x01
def wramTimingSafeValue : Word := 0x02

/-- `ufi_iram_repair_config`. -/
def iramRepairConfig (mask : Mask) (config : Nat → RepairConfig) : CmdM PUnit := do
  execOwnFrames mask irepairConfigStruct fun ci =>
    irepairConfigAbFrame (config ci).abMsbs (config ci).aLsbs (config ci).bLsbs
  execOwnFrames mask irepairConfigStruct fun ci =>
    irepairConfigCdFrame (config ci).cdMsbs (config ci).cLsbs (config ci).dLsbs
  execOwnFrames mask irepairConfigStruct fun ci =>
    irepairConfigOeFrame (config ci).oddIndex (config ci).evenIndex iramTimingSafeValue
  execFrame mask registerFileTimingConfigStruct (registerFileTimingConfigFrame rframTimingSafeValue)

/-- The frame of `ufi_wram_repair_config` for one register. -/
def wramRepairFrame (bank b₁ b₂ b₃ : Word) : Word := dmaCtrlWriteFrame (0x60#64 ||| bank <<< 2) b₁ b₂ b₃ 0x60 0x40

def clearDmaCtrl (mask : Mask) : CmdM PUnit := execFrame mask dmaCtrlWriteStruct dmaCtrlClearFrame

/-- Another round of frames under the same structure. -/
def execNextFrames (mask : Mask) (frame : Nat → Word) : CmdM PUnit := do
  writeCmds mask frame
  ciExecCmd

/-- `ufi_wram_repair_config`. -/
def wramRepairConfig (mask : Mask) (bank : Word) (config : Nat → RepairConfig) : CmdM PUnit := do
  execOwnFrames mask dmaCtrlWriteStruct fun ci =>
    wramRepairFrame bank 0x60 (0x60#64 ||| (config ci).evenIndex >>> 1) (0x60#64 ||| (config ci).oddIndex >>> 1)
  execNextFrames mask fun ci =>
    wramRepairFrame bank 0x61 (0x60#64 ||| (config ci).abMsbs >>> 4) (0x60#64 ||| ((config ci).abMsbs &&& 0xF#64))
  execNextFrames mask fun ci => wramRepairFrame bank 0x62 (0x60#64 ||| (config ci).aLsbs) (0x60#64 ||| (config ci).bLsbs)
  execNextFrames mask fun ci =>
    wramRepairFrame bank 0x63 (0x60#64 ||| (config ci).cdMsbs >>> 4) (0x60#64 ||| ((config ci).cdMsbs &&& 0xF#64))
  execNextFrames mask fun ci => wramRepairFrame bank 0x64 (0x60#64 ||| (config ci).cLsbs) (0x60#64 ||| (config ci).dLsbs)
  execFrame mask dmaCtrlWriteStruct (wramRepairFrame bank 0x65 0x60 (0x60#64 ||| wramTimingSafeValue))
  clearDmaCtrl mask

/-- `ci_dma_ctrl_write_frame`. -/
def dmaCtrlFrame (address data : Word) : Word :=
  let nibble (w : Word) (k : Nat) : Word := 0x60#64 ||| (w >>> k &&& 0x0F#64)
  dmaCtrlWriteFrame (nibble address 4) (nibble address 0) (nibble data 4) (nibble data 0) 0x60 0x20

def writeDmaCtrl (mask : Mask) (address data : Word) : CmdM PUnit :=
  execFrame mask dmaCtrlWriteStruct (dmaCtrlFrame address data)

def writeDmaCtrlDatas (mask : Mask) (address : Word) (datas : Nat → Word) : CmdM PUnit :=
  execOwnFrames mask dmaCtrlWriteStruct fun ci => dmaCtrlFrame address (datas ci)

/-- `ufi_set_mram_mux`. -/
def setMramMux (mask ciMuxPos : Mask) : CmdM PUnit := do
  let muxValue (ci : Nat) : Word := if ciMuxPos.getLsbD ci then 0 else 1
  writeDmaCtrlDatas mask 0x80 muxValue
  writeDmaCtrl mask 0x81 0
  writeDmaCtrlDatas mask 0x82 muxValue
  writeDmaCtrlDatas mask 0x84 muxValue
  clearDmaCtrl mask

/-- One address of `ufi_iram_write` or `ufi_wram_write`. -/
def memoryWriteAt (mask : Mask) (struct : Word → Word) (frame : Word → Word → Word) (src : Nat → Nat → Word)
    (offset : BitVec 16) (k : Nat) : CmdM PUnit := do
  let addr := (offset + BitVec.ofNat 16 k).setWidth 64
  execWriteStructure mask (struct addr)
  writeCmds mask fun ci => frame (src ci k) addr
  ciExecWaitMaskCmd

def memoryWrite (mask : Mask) (struct : Word → Word) (frame : Word → Word → Word) (src : Nat → Nat → Word)
    (offset len : BitVec 16) : CmdM PUnit :=
  (List.range len.toNat).forM (memoryWriteAt mask struct frame src offset)

def iramWrite : Mask → (Nat → Nat → Word) → BitVec 16 → BitVec 16 → CmdM PUnit :=
  (memoryWrite · iramWriteInstructionStruct iramWriteInstructionFrame)

def wramWrite : Mask → (Nat → Nat → Word) → BitVec 16 → BitVec 16 → CmdM PUnit :=
  (memoryWrite · wramWriteWordStruct wramWriteWordFrame)

/-- The address of a read is not reduced to sixteen bits. -/
def readAddress (offset : BitVec 16) (k : Nat) : Word := offset.setWidth 64 + BitVec.ofNat 64 k

/-- `ufi_iram_read`: one frame for each of the six bytes of each instruction. -/
def iramRead (mask : Mask) (offset len : BitVec 16) : CmdM PUnit :=
  (List.range len.toNat).forM fun k =>
    (List.range 6).forM fun byte => execFrame mask iramReadStruct (iramReadByteFrame byte (readAddress offset k))

/-- `ufi_wram_read`. -/
def wramRead (mask : Mask) (offset len : BitVec 16) : CmdM PUnit :=
  (List.range len.toNat).forM fun k => execFrame mask instructionStruct (wramReadWordFrame (readAddress offset k))

/-- `struct dpu_carousel_config`. -/
structure CarouselConfig where
  cmdDuration : Word
  cmdSampling : Word
  resDuration : Word
  resSampling : Word

/-- `ufi_carousel_config`. -/
def carouselConfig (mask : Mask) (config : CarouselConfig) : CmdM PUnit := do
  prepareAndExec mask (ciCmdDurationFutur config.cmdDuration)
  execFrame mask oneByteStruct (cmdBusConfigDurationFrame config.cmdDuration)
  execFrame mask oneByteStruct (cmdBusConfigSamplingFrame config.cmdSampling)
  execFrame mask plainStruct cmdBusSyncFrame
  prepareAndExec mask (ciResDurationFutur config.resDuration)
  prepareAndExec mask (ciResSamplingFutur config.resSampling)
  execFrame mask resBusConfigDurationStruct (resBusConfigDurationFrame config.resDuration)
  execFrame mask plainStruct resBusSyncFrame

/-! ## Operations -/

/-- The operations that send one frame, the same to every interface of their mask. -/
inductive FrameOp where
  | clearDebugReplace
  | clearFaultPoison
  | clearFaultBkp
  | clearFaultDma
  | clearFaultMem
  | clearFaultDpu
  | clearFaultIntercept
  | clearRunBit (runBit : BitVec 8)
  | getPcMode
  | writeDmaCtrl (address data : BitVec 8)
  | readDmaCtrl
  | clearDmaCtrl
  | threadBoot (thread : BitVec 8)
  | threadResume (thread : BitVec 8)
  | readRunBit (runBit : BitVec 8)
  | readDpuRun
  | readDpuFault
  | setDpuFaultAndStep
  | setBkpFault
  | setPoisonFault
  | readBkpFault
  | readPoisonFault
  | readAndClearDmaFault
  | readAndClearMemFault
  | readBkpFaultThreadIndex
  | readDmaFaultThreadIndex
  | readMemFaultThreadIndex
  | debugReplaceStop
  | debugPcSample

/-- The structure and the frame of each of them. -/
def FrameOp.words : FrameOp → Word × Word
  | .clearDebugReplace => (plainStruct, debugStdReplaceClearFrame)
  | .clearFaultPoison => (plainStruct, poisonFaultClearFrame)
  | .clearFaultBkp => (plainStruct, bkpFaultClearFrame)
  | .clearFaultDma => (plainStruct, dmaFaultReadAndClrFrame)
  | .clearFaultMem => (plainStruct, memFaultReadAndClrFrame)
  | .clearFaultDpu => (plainStruct, dpuFaultStateClrFrame)
  | .clearFaultIntercept => (plainStruct, bkpFaultReadFrame)
  | .clearRunBit runBit => (instructionStruct, threadClrRunFrame (runBit.setWidth 64))
  | .getPcMode => (plainStruct, pcModeReadFrame)
  | .writeDmaCtrl address data => (dmaCtrlWriteStruct, dmaCtrlFrame (address.setWidth 64) (data.setWidth 64))
  | .readDmaCtrl => (plainStruct, dmaCtrlReadFrame)
  | .clearDmaCtrl => (dmaCtrlWriteStruct, dmaCtrlClearFrame)
  | .threadBoot thread => (instructionStruct, threadBootFrame (thread.setWidth 64))
  | .threadResume thread => (instructionStruct, threadResumeFrame (thread.setWidth 64))
  | .readRunBit runBit => (instructionStruct, threadReadRunFrame (runBit.setWidth 64))
  | .readDpuRun => (plainStruct, dpuRunStateReadFrame)
  | .readDpuFault => (plainStruct, dpuFaultStateReadFrame)
  | .setDpuFaultAndStep => (plainStruct, dpuFaultStateSetAndStepFrame)
  | .setBkpFault => (plainStruct, bkpFaultSetFrame)
  | .setPoisonFault => (plainStruct, poisonFaultSetFrame)
  | .readBkpFault => (plainStruct, bkpFaultReadFrame)
  | .readPoisonFault => (plainStruct, poisonFaultReadFrame)
  | .readAndClearDmaFault => (plainStruct, dmaFaultReadAndClrFrame)
  | .readAndClearMemFault => (plainStruct, memFaultReadAndClrFrame)
  | .readBkpFaultThreadIndex => (plainStruct, bkpFaultThreadIndexReadFrame)
  | .readDmaFaultThreadIndex => (plainStruct, dmaFaultThreadIndexReadFrame)
  | .readMemFaultThreadIndex => (plainStruct, memFaultThreadIndexReadFrame)
  | .debugReplaceStop => (instructionStruct, debugStdReplaceStopEnabledFrame)
  | .debugPcSample => (debugStdSamplePcStruct, debugStdSamplePcFrame)

/-- A call of the UFI layer. -/
inductive Op where
  | byteOrder (mask : Mask)
  | softReset (mask : Mask) (clockDivision cycleAccurate : BitVec 8)
  /-- The shuffling is given as `dpu_bit_config_dpu2cpu` leaves it. -/
  | bitConfig (mask : Mask) (nibbleSwap stutter cpu2dpu dpu2cpu : Word)
  | identity (mask : Mask)
  | thermalConfig (mask : Mask) (threshold : BitVec 8)
  | selectCis (mask : Mask)
  | selectAll (mask : Mask)
  | selectAllUncached (mask : Mask)
  | selectAllEvenDisabled (mask : Mask)
  | selectGroup (mask : Mask) (group : Nat)
  | selectGroupUncached (mask : Mask) (group : Nat)
  | selectDpu (mask : Mask) (dpu : Nat)
  | selectDpuUncached (mask : Mask) (dpu : Nat)
  | selectDpuEvenDisabled (mask : Mask) (dpu : Nat)
  | writeGroup (mask : Mask) (group : Nat)
  | carouselConfig (mask : Mask) (config : CarouselConfig)
  | frame (mask : Mask) (op : FrameOp)
  | iramRepairConfig (mask : Mask) (config : Nat → RepairConfig)
  | wramRepairConfig (mask : Mask) (bank : BitVec 8) (config : Nat → RepairConfig)
  | setPcMode (mask : Mask) (pcMode : Nat → Word)
  | setStackDirection (mask : Mask) (direction : Nat → Bool)
  | writeDmaCtrlDatas (mask : Mask) (address : BitVec 8) (datas : Nat → BitVec 8)
  | iramWrite (mask : Mask) (src : Nat → Nat → Word) (offset len : BitVec 16)
  | iramRead (mask : Mask) (offset len : BitVec 16)
  | wramWrite (mask : Mask) (src : Nat → Nat → BitVec 32) (offset len : BitVec 16)
  | wramRead (mask : Mask) (offset len : BitVec 16)
  | setMramMux (mask ciMuxPos : Mask)
  | debugPcRead (mask : Mask)

/-- What each call does. -/
def Op.program : Op → CmdM PUnit
  | .byteOrder mask => prepareAndExec mask ciByteOrder
  | .softReset mask clockDivision cycleAccurate => do
    ciPrepareMask mask (ciSoftwareReset (clockDivision.setWidth 64) (cycleAccurate.setWidth 64))
    ciExecResetCmd
  | .bitConfig mask nibbleSwap stutter cpu2dpu dpu2cpu =>
    prepareAndExec mask (ciBitOrder nibbleSwap stutter cpu2dpu dpu2cpu)
  | .identity mask => prepareAndExec mask ciIdentity
  | .thermalConfig mask threshold => prepareAndExec mask (ciThermalConfig (threshold.setWidth 64))
  | .selectCis _ => pure ⟨⟩
  | .selectAll mask => selectEach SliceInfo.allTarget mask
  | .selectAllUncached mask => selectUncached .all mask
  | .selectAllEvenDisabled mask => selectEach SliceInfo.allEvenDisabledTarget mask
  | .selectGroup mask group => selectOne (SliceInfo.groupTarget · group) (.group group) mask
  | .selectGroupUncached mask group => selectUncached (.group group) mask
  | .selectDpu mask dpu => selectOne (SliceInfo.dpuTarget · dpu) (.dpu dpu) mask
  | .selectDpuUncached mask dpu => selectUncached (.dpu dpu) mask
  | .selectDpuEvenDisabled mask dpu => selectOne (SliceInfo.dpuEvenDisabledTarget · dpu) (.dpu dpu) mask
  | .writeGroup mask group => Ufi.writeGroup mask group
  | .carouselConfig mask config => Ufi.carouselConfig mask config
  | .frame mask op => execFrame mask op.words.1 op.words.2
  | .iramRepairConfig mask config => Ufi.iramRepairConfig mask config
  | .wramRepairConfig mask bank config => Ufi.wramRepairConfig mask (bank.setWidth 64) config
  | .setPcMode mask pcMode => execOwnFrames mask pcModeWriteStruct fun ci => pcModeWriteFrame (pcMode ci)
  | .setStackDirection mask direction =>
    execOwnFrames mask plainStruct fun ci => if direction ci then stackUpReadAndSetFrame else stackUpReadAndClrFrame
  | .writeDmaCtrlDatas mask address datas =>
    Ufi.writeDmaCtrlDatas mask (address.setWidth 64) fun ci => (datas ci).setWidth 64
  | .iramWrite mask src offset len => Ufi.iramWrite mask src offset len
  | .iramRead mask offset len => Ufi.iramRead mask offset len
  | .wramWrite mask src offset len => Ufi.wramWrite mask (fun ci k => (src ci k).setWidth 64) offset len
  | .wramRead mask offset len => Ufi.wramRead mask offset len
  | .setMramMux mask ciMuxPos => Ufi.setMramMux mask ciMuxPos
  | .debugPcRead mask => do
    execFrame mask plainStruct pcLsbReadFrame
    execFrame mask plainStruct pcMsbReadFrame

/-- The interfaces a call is for: its mask, less those a selection drops. -/
def Op.effectiveMask (r : CmdRank) : Op → Mask
  | .byteOrder mask | .softReset mask _ _ | .bitConfig mask _ _ _ _ | .identity mask | .thermalConfig mask _
  | .selectAllUncached mask | .selectGroupUncached mask _ | .selectDpuUncached mask _ | .writeGroup mask _
  | .carouselConfig mask _ | .frame mask _ | .iramRepairConfig mask _ | .wramRepairConfig mask _ _ | .setPcMode mask _
  | .setStackDirection mask _ | .writeDmaCtrlDatas mask _ _ | .iramWrite mask _ _ _ | .iramRead mask _ _
  | .wramWrite mask _ _ _ | .wramRead mask _ _ | .setMramMux mask _ | .debugPcRead mask => mask
  | .selectCis mask => r.selected (fun info => if info.enabledDpus ≠ 0 then some info.sliceTarget else none) mask
  | .selectAll mask => r.selected SliceInfo.allTarget mask
  | .selectAllEvenDisabled mask => r.selected SliceInfo.allEvenDisabledTarget mask
  | .selectGroup mask group => r.selected (SliceInfo.groupTarget · group) mask
  | .selectDpu mask dpu => r.selected (SliceInfo.dpuTarget · dpu) mask
  | .selectDpuEvenDisabled mask dpu => r.selected (SliceInfo.dpuEvenDisabledTarget · dpu) mask

/-- The rank as a call finds it: nothing of the buffer is its own, and it has sent
nothing yet. -/
def CmdRank.begin (r : CmdRank) (outcome : Nat → CmdOutcome) : CmdRank :=
  { r with
    cmds := fun ci => { r.cmds ci with ours := false }
    commits := []
    outcome := outcome
    clock := 0 }

/-- The rank after a call. -/
def CmdRank.after (r : CmdRank) (op : Op) (outcome : Nat → CmdOutcome) : CmdRank :=
  finalState op.program (r.begin outcome)

end DpuBackend.Ufi
