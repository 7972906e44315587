import DpuBackend.Lib.FirstFailure
import DpuBackend.Ufi.Slice
import DpuBackend.Vpd.SramRepairs

/-
  The enabled DPUs of a rank over its reset (`ufi_config.c`).

  Correspondence (C ↔ Lean):
    `struct dpu_repair_config`                ↔ `MemoryRepairConfig`
    `extract_memory_repair_configuration`     ↔ `extractMemoryRepairConfiguration`
    `save_enabled_dpus`                       ↔ `saveEnabledDpus`
    `try_to_repair_iram`, `try_to_repair_wram` ↔ `tryToRepairIram`, `tryToRepairWram`
    `dpu_iram_repair_config`, `dpu_wram_repair_config` ↔ `dpuIramRepairConfig`, `dpuWramRepairConfig`
    `dpu_soft_reset`                          ↔ `dpuSoftReset`
    `dpu_thermal_config`                      ↔ `dpuThermalConfig`
    `dpu_init_groups`                         ↔ `dpuInitGroups`
    `ci_reset_rank`                           ↔ `ciResetRank`

  How each command of the reset ends is given. A command that neither changes nor
  reads which DPUs are enabled, or in which group they are, is its ending and
  nothing else. The soft resets and the thermal configuration drop how their
  command ends and go on. A selection that is done reaches the DPUs it names: what it sends
  for that, and what it may skip, is in `Ufi.Commands`. Of the hardware the model
  has the group of each DPU, which a soft reset and `ufi_write_group` change.
-/

namespace DpuBackend.Ufi

open DpuBackend.Lib DpuBackend.Vpd

/-! ## Repair configurations -/

structure MemoryRepairConfig where
  abMsbs : UInt8
  cdMsbs : UInt8
  aLsbs : UInt8
  bLsbs : UInt8
  cLsbs : UInt8
  dLsbs : UInt8
  evenIndex : UInt8
  oddIndex : UInt8
  deriving DecidableEq

/-- No address and no index is chosen yet. -/
def MemoryRepairConfig.unset : MemoryRepairConfig := ⟨0xFF, 0xFF, 0xFF, 0xFF, 0xFF, 0xFF, 0xFF, 0xFF⟩

/-- One corrupted address: it gets a place of its own, beside one with the same upper bits if there is one. -/
def MemoryRepairConfig.addAddress (config : MemoryRepairConfig) (address : UInt32) : Option MemoryRepairConfig :=
  let msbs := (address >>> 4).toUInt8
  let lsbs := (address &&& 0xF).toUInt8
  if config.aLsbs = 0xFF then some { config with abMsbs := msbs, aLsbs := lsbs }
  else if config.bLsbs = 0xFF ∧ config.abMsbs = msbs then some { config with bLsbs := lsbs }
  else if config.cLsbs = 0xFF then some { config with cdMsbs := msbs, cLsbs := lsbs }
  else if config.dLsbs = 0xFF ∧ config.cdMsbs = msbs then some { config with dLsbs := lsbs }
  else none

def countNrOfFaultyBits (data : UInt64) : Nat := (List.range 64).countP fun i => data.toBitVec.getLsbD i

def findIndexOfFirstFaultyBit (data : UInt64) : Nat := ((List.range 64).find? fun i => data.toBitVec.getLsbD i).getD 0

def findIndexOfLastFaultyBit (data : UInt64) : Nat :=
  ((List.range 64).reverse.find? fun i => data.toBitVec.getLsbD i).getD 0

/-- `case 2`. -/
def MemoryRepairConfig.setLastIndex (config : MemoryRepairConfig) (lastIndex : Nat) : MemoryRepairConfig :=
  if lastIndex % 2 = 1 then { config with oddIndex := UInt8.ofNat lastIndex }
  else { config with evenIndex := UInt8.ofNat lastIndex }

/-- `case 1`. -/
def MemoryRepairConfig.setFirstIndex (config : MemoryRepairConfig) (firstIndex : Nat) : Option MemoryRepairConfig :=
  if firstIndex % 2 = 1 then
    if config.oddIndex ≠ 0xFF then none else some { config with oddIndex := UInt8.ofNat firstIndex }
  else if config.evenIndex ≠ 0xFF then none else some { config with evenIndex := UInt8.ofNat firstIndex }

def MemoryRepairConfig.withDefaults (config : MemoryRepairConfig) : MemoryRepairConfig :=
  { config with
    aLsbs := if config.aLsbs = 0xFF then 0xF else config.aLsbs
    bLsbs := if config.bLsbs = 0xFF then 0xF else config.bLsbs
    cLsbs := if config.cLsbs = 0xFF then 0xF else config.cLsbs
    dLsbs := if config.dLsbs = 0xFF then 0xF else config.dLsbs
    evenIndex := if config.evenIndex = 0xFF then 0 else config.evenIndex
    oddIndex := if config.oddIndex = 0xFF then 1 else config.oddIndex }

/-- `none` if the memory cannot be repaired. -/
def extractMemoryRepairConfiguration (repairInfo : MemoryRepair) : Option MemoryRepairConfig :=
  if nbMaxRepairAddr < repairInfo.nrOfCorruptedAddresses.toNat then none
  else
    let corrupted := repairInfo.corruptedAddresses.toList.take repairInfo.nrOfCorruptedAddresses.toNat
    let faultyBits := corrupted.foldl (fun bits a => bits ||| a.faultyBits) 0
    let placed := corrupted.foldlM (fun (config : MemoryRepairConfig) a => config.addAddress a.address) .unset
    placed.bind fun config =>
      (match countNrOfFaultyBits faultyBits with
        | 0 => some config
        | 1 => config.setFirstIndex (findIndexOfFirstFaultyBit faultyBits)
        | 2 => (config.setLastIndex (findIndexOfLastFaultyBit faultyBits)).setFirstIndex
            (findIndexOfFirstFaultyBit faultyBits)
        | _ => none).map MemoryRepairConfig.withDefaults

/-! ## The rank -/

/-- What is fixed for a reset. -/
structure ResetConfig where
  nrCis : Nat
  nrCis_le : nrCis ≤ 8
  nrDpus : Nat
  nrDpus_pos : 0 < nrDpus
  nrDpus_le : nrDpus ≤ 8
  doIramRepair : Bool
  doWramRepair : Bool
  repair : Nat → Nat → DpuRepair

structure ResetRank where
  enabledDpus : Nat → Mask
  allDpusAreEnabled : Nat → Bool
  /-- `dpu->enabled`. -/
  dpuEnabled : Nat → Nat → Bool
  nrDpusEnabled : Nat
  /-- The group the hardware has each DPU in. -/
  group : Nat → Nat → Nat

inductive ResetError where
  | driver
  | timeout
  | internal
  | system
  | corruptedMemory
  deriving DecidableEq

/-- The commands of a reset in their order, and the checks of the two repairs. -/
inductive ResetStep where
  | byteOrder
  | softReset (second : Bool)
  | bitConfig
  | ciShufflingBoxConfig (second : Bool)
  | identity
  | thermalConfig
  | carouselConfig
  | iramSelect (dpu : Nat)
  | iramConfig (dpu : Nat)
  | iramCheck
  | iramSelectAll
  | iramConfigAll
  | wramSelect (dpu bank : Nat)
  | wramConfig (dpu bank : Nat)
  | wramCheck
  | wramSelectAll
  | wramConfigAll (bank : Nat)
  | dmaConfig
  | dmaShufflingBoxConfig
  | wavegenConfig
  | clearDebug
  | clearRunBits
  | setPcMode
  | setStackDirection
  | resetInternalState
  | switchMux
  | groupSelect (ci dpu : Nat)
  | groupWrite (ci dpu : Nat)
  | groupSelectAll
  | groupWriteAll
  | setSliceInfo
  deriving DecidableEq

/-- How the commands end: with an error, or done. A soft reset that fails may have reached a control interface. -/
structure ResetOutcomes where
  error : ResetStep → Option ResetError
  resets : Bool → Nat → Bool

abbrev ResetM := EStateM ResetError ResetRank

def disabledGroup : Nat := 1

/-- `all_dpus_are_enabled_save`, `enabled_dpus_save`. -/
structure SavedDpus where
  allDpusAreEnabled : Nat → Bool
  enabledDpus : Nat → Mask

variable (c : ResetConfig) (o : ResetOutcomes)

/-! ## The code -/

def command (step : ResetStep) : ResetM PUnit :=
  match o.error step with
  | none => pure ⟨⟩
  | some e => throw e

/-- Enable all DPUs of the interfaces that have an enabled one. -/
def ResetRank.enableAll (r : ResetRank) : ResetRank :=
  let talksTo ci := decide (ci < c.nrCis) && decide (r.enabledDpus ci ≠ 0)
  { r with
    allDpusAreEnabled := fun ci => if talksTo ci then true else r.allDpusAreEnabled ci
    enabledDpus := fun ci => if talksTo ci then dpuMaskAll c.nrDpus else r.enabledDpus ci
    dpuEnabled := fun ci dpu => if talksTo ci && decide (dpu < c.nrDpus) then true else r.dpuEnabled ci dpu }

/-- There is a save to update from the second call on. -/
def saveEnabledDpus (save : Option SavedDpus) : ResetM SavedDpus := do
  let r ← get
  modify (·.enableAll c)
  match save with
  | none => pure ⟨r.allDpusAreEnabled, r.enabledDpus⟩
  | some save =>
    pure
      { allDpusAreEnabled := fun ci => save.allDpusAreEnabled ci && r.allDpusAreEnabled ci
        enabledDpus := fun ci => save.enabledDpus ci &&& r.enabledDpus ci }

/-- The loop over the interfaces that disables a DPU of those where it cannot be repaired. -/
def ResetRank.disable (r : ResetRank) (dpu : Nat) (cannot : Nat → Bool) : ResetRank :=
  let drops ci := decide (ci < c.nrCis) && cannot ci
  { r with
    dpuEnabled := fun ci d => if drops ci && decide (d = dpu) then false else r.dpuEnabled ci d
    enabledDpus := fun ci => if drops ci then dpuMaskUnselect (r.enabledDpus ci) dpu else r.enabledDpus ci
    allDpusAreEnabled := fun ci => if drops ci then false else r.allDpusAreEnabled ci }

/-- The check at the end of a repair. -/
def checkSomeEnabled : ResetM PUnit := do
  let r ← get
  if (List.range c.nrCis).any fun ci => decide (r.enabledDpus ci ≠ 0) then pure ⟨⟩ else throw .corruptedMemory

def tryToRepairIram : ResetM PUnit := do
  (List.range c.nrDpus).forM fun dpu => do
    modify fun r => r.disable c dpu fun ci =>
      (extractMemoryRepairConfiguration (c.repair ci dpu).iramRepair).isNone
    command o (.iramSelect dpu)
    command o (.iramConfig dpu)
  checkSomeEnabled c

def tryToRepairWram : ResetM PUnit := do
  (List.range c.nrDpus).forM fun dpu =>
    (List.range nrOfWramBanks).forM fun bank => do
      modify fun r => r.disable c dpu fun ci =>
        ((c.repair ci dpu).wramRepair[bank]?.bind extractMemoryRepairConfiguration).isNone
      command o (.wramSelect dpu bank)
      command o (.wramConfig dpu bank)
  checkSomeEnabled c

def dpuIramRepairConfig : ResetM PUnit :=
  if c.doIramRepair then tryToRepairIram c o
  else do
    command o .iramSelectAll
    command o .iramConfigAll

def dpuWramRepairConfig : ResetM PUnit :=
  if c.doWramRepair then tryToRepairWram c o
  else do
    command o .wramSelectAll
    (List.range nrOfWramBanks).forM fun bank => command o (.wramConfigAll bank)

/-- The status of the soft reset itself is not looked at. Where it is done all DPUs of the interfaces it is sent
to are in the first group. -/
def dpuSoftReset (second : Bool) : ResetM PUnit :=
  modify fun r =>
    let resets ci := decide (ci < c.nrCis) && decide (r.enabledDpus ci ≠ 0)
      && (decide (o.error (.softReset second) = none) || o.resets second ci)
    { r with group := fun ci dpu => if resets ci then enabledGroup else r.group ci dpu }

/-- The status of the command is not looked at. -/
def dpuThermalConfig : ResetM PUnit := tryCatch (command o .thermalConfig) fun _ => pure ⟨⟩

/-- `ufi_write_group` for one DPU of an interface: the selection has dropped the interface if the DPU is not
enabled. -/
def ResetRank.writeGroup (r : ResetRank) (ci dpu group : Nat) : ResetRank :=
  { r with
    group := fun ci' dpu' =>
      if ci' = ci ∧ dpu' = dpu ∧ (r.enabledDpus ci).getLsbD dpu = true then group else r.group ci' dpu' }

/-- `ufi_write_group` after `ufi_select_all`: where not all DPUs are enabled the selection is the group itself. -/
def ResetRank.writeGroupAll (r : ResetRank) (ciMask : Nat → Bool) : ResetRank :=
  { r with
    group := fun ci dpu => if ciMask ci && r.allDpusAreEnabled ci then enabledGroup else r.group ci dpu }

/-- The saved context becomes the context of the rank. -/
def ResetRank.restore (r : ResetRank) (save : SavedDpus) : ResetRank :=
  { r with
    nrDpusEnabled := ((List.range c.nrCis).map fun ci : Nat => dpuMaskCount (save.enabledDpus ci)).sum
    allDpusAreEnabled := fun ci => if ci < c.nrCis then save.allDpusAreEnabled ci else r.allDpusAreEnabled ci
    enabledDpus := fun ci => if ci < c.nrCis then save.enabledDpus ci else r.enabledDpus ci
    dpuEnabled := fun ci dpu =>
      if ci < c.nrCis ∧ dpu < c.nrDpus then (save.enabledDpus ci).getLsbD dpu else r.dpuEnabled ci dpu }

/-- The DPUs of an interface of which only some are enabled. -/
def initGroupsOf (save : SavedDpus) (ci : Nat) : ResetM PUnit :=
  (List.range c.nrDpus).forM fun dpu => do
    command o (.groupSelect ci dpu)
    command o (.groupWrite ci dpu)
    modify (·.writeGroup ci dpu (if (save.enabledDpus ci).getLsbD dpu then enabledGroup else disabledGroup))

/-- The interfaces of which all DPUs are enabled. -/
def initGroupsOfAll (save : SavedDpus) : ResetM PUnit :=
  if (List.range c.nrCis).any save.allDpusAreEnabled then do
    command o .groupSelectAll
    command o .groupWriteAll
    modify (·.writeGroupAll fun ci => decide (ci < c.nrCis) && save.allDpusAreEnabled ci)
  else pure ⟨⟩

def dpuInitGroups (save : SavedDpus) : ResetM PUnit := do
  (List.range c.nrCis).forM fun ci =>
    if save.allDpusAreEnabled ci then pure ⟨⟩
    else if save.enabledDpus ci ≠ 0 then initGroupsOf c o save ci
    else pure ⟨⟩
  initGroupsOfAll c o save
  modify (·.restore c save)

def ciResetRank : ResetM PUnit := do
  let save ← saveEnabledDpus c none
  command o .byteOrder
  dpuSoftReset c o false
  command o .bitConfig
  command o (.ciShufflingBoxConfig false)
  dpuSoftReset c o true
  command o (.ciShufflingBoxConfig true)
  command o .identity
  dpuThermalConfig o
  command o .carouselConfig
  dpuIramRepairConfig c o
  let save ← saveEnabledDpus c (some save)
  dpuWramRepairConfig c o
  let save ← saveEnabledDpus c (some save)
  command o .dmaConfig
  command o .dmaShufflingBoxConfig
  command o .wavegenConfig
  command o .clearDebug
  command o .clearRunBits
  command o .setPcMode
  command o .setStackDirection
  command o .resetInternalState
  command o .switchMux
  dpuInitGroups c o save
  command o .setSliceInfo

theorem dpuThermalConfig_eq : dpuThermalConfig o = pure ⟨⟩ := by
  unfold dpuThermalConfig command
  cases o.error .thermalConfig with
  | none => rfl
  | some e => rfl

end DpuBackend.Ufi
