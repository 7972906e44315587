import DpuBackend.Ufi.Rank

/-
  Launching and polling (`dpu_runner.c`, `ufi_runner.c`).

  Profiling reads statistics from the DPUs and changes neither the run context
  nor the slices; it is left out. The rank's lock is recursive and held over
  each call.

  Correspondence (C ↔ Lean):
    `ci_poll_rank`, `dpu_poll_rank`, `dpu_poll_dpu`      ↔ `ciPollRank`, `dpuPollRank`, `dpuPollDpu`
    `ci_start_thread_rank`, `ci_start_thread_dpu`        ↔ `ciStartThreadRank`, `ciStartThreadDpu`
    `dpu_launch_thread_on_rank`, `.._on_dpu`             ↔ `dpuLaunchThreadOnRank`, `dpuLaunchThreadOnDpu`
-/

namespace DpuBackend.Ufi

/-! ## Polling -/

/-- `ci_poll_rank`: what it reads as running and in fault. -/
def ciPollRank : RankM ((Nat → Mask) × (Nat → Mask)) := do
  let mask ← ufiSelectAll allCis
  let run ← ufiReadDpuRun mask
  let fault ← ufiReadDpuFault mask
  pure (run, fault)

/-- The run context after a poll that read `run` and `fault`. -/
def Rank.recordPoll (r : Rank) (run fault : Nat → Mask) : Rank :=
  let inFault ci := if ci < r.nrCis then fault ci &&& (r.sliceInfo ci).enabledDpus else r.runContext.dpuInFault ci
  let running ci :=
    if ci < r.nrCis then run ci &&& (r.sliceInfo ci).enabledDpus &&& ~~~inFault ci else r.runContext.dpuRunning ci
  { r with
    runContext :=
      { dpuInFault := inFault
        dpuRunning := running
        nbDpuRunning := r.sumCis fun ci => dpuMaskCount (running ci) } }

/-- `dpu_poll_rank`. -/
def dpuPollRank : RankM PUnit := do
  let polled ← ciPollRank
  modify (Rank.recordPoll · polled.1 polled.2)

/-- `dpu_poll_dpu`: whether the DPU is running, and whether it is in fault. -/
def dpuPollDpu (sliceId dpuId : Nat) : RankM (Bool × Bool) := do
  let r ← get
  if !r.dpuEnabled sliceId dpuId then throw (.error .dpuDisabled)
  else do
    dpuPollRank
    let r ← get
    pure ((r.runContext.dpuRunning sliceId).getLsbD dpuId, (r.runContext.dpuInFault sliceId).getLsbD dpuId)

/-! ## Launching -/

/-- The mux state a launch asks for on a line: the interfaces of `ciMask` on the
DPU side, the others where they are recorded. -/
def Rank.launchMuxMask (r : Rank) (ciMask : Mask) (dpuId : Nat) : Mask :=
  gatherMask r.nrCis fun ci => !ciMask.getLsbD ci && r.hostMux ci dpuId

/-- The mux part of `ci_start_thread_rank`: the muxes of the interfaces of `ciMask`
to the DPU side. -/
def takeMuxes (ciMask : Mask) : RankM PUnit := do
  let r ← get
  if ciMask = allCis then dpuSwitchMuxForRank false
  else (List.range r.nrDpus).forM fun eachDpu => do
    let r ← get
    dpuSwitchMuxForDpuLine eachDpu (r.launchMuxMask ciMask eachDpu)

/-- `ci_start_thread_rank`. -/
def ciStartThreadRank (resume : Bool) : RankM PUnit := do
  let ciMask ← ufiSelectAll allCis
  takeMuxes ciMask
  let ciMask ← ufiSelectAll ciMask
  if resume then ufiThreadResume ciMask else ufiThreadBoot ciMask

/-- `ci_start_thread_dpu`. -/
def ciStartThreadDpu (sliceId dpuId : Nat) (resume : Bool) : RankM PUnit := do
  let ciMask := dpuMaskOne sliceId
  let r ← get
  dpuSwitchMuxForDpuLine dpuId (r.launchMuxMask ciMask dpuId)
  let ciMask ← ufiSelectDpu ciMask dpuId
  if resume then ufiThreadResume ciMask else ufiThreadBoot ciMask

/-- Every enabled DPU recorded as running. -/
def Rank.recordLaunch (r : Rank) : Rank :=
  { r with
    runContext :=
      { r.runContext with
        dpuRunning := fun ci => if ci < r.nrCis then (r.sliceInfo ci).enabledDpus else r.runContext.dpuRunning ci
        nbDpuRunning := r.sumCis fun ci => dpuMaskCount (r.sliceInfo ci).enabledDpus } }

/-- `dpu_launch_thread_on_rank`. -/
def dpuLaunchThreadOnRank (thread : Nat) (shouldResume : Bool) : RankM PUnit := do
  let r ← get
  if thread ≥ r.nrThreads then throw (.error .invalidThreadId)
  else do
    dpuPollRank
    ciStartThreadRank shouldResume
    modify Rank.recordLaunch

/-- One more DPU recorded as running. -/
def Rank.recordLaunchDpu (r : Rank) (sliceId dpuId : Nat) : Rank :=
  { r with
    runContext :=
      { r.runContext with
        dpuRunning :=
          Function.update r.runContext.dpuRunning sliceId (dpuMaskSelect (r.runContext.dpuRunning sliceId) dpuId)
        nbDpuRunning := r.runContext.nbDpuRunning + 1 } }

/-- `dpu_launch_thread_on_dpu`. -/
def dpuLaunchThreadOnDpu (sliceId dpuId thread : Nat) (shouldResume : Bool) : RankM PUnit := do
  let r ← get
  if !r.dpuEnabled sliceId dpuId then throw (.error .dpuDisabled)
  else if thread ≥ r.nrThreads then throw (.error .invalidThreadId)
  else do
    let polled ← dpuPollDpu sliceId dpuId
    ciStartThreadDpu sliceId dpuId shouldResume
    if !polled.1 then modify (Rank.recordLaunchDpu · sliceId dpuId) else pure ⟨⟩

end DpuBackend.Ufi
