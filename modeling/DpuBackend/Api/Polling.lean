import Mathlib.Data.Finset.Card
import DpuBackend.Lib.System

/-
  Waiting for DPUs to complete: one queue's polling thread, the workers that launch and
  wait, and other threads that poll or launch.

  C ↔ Lean (src/api/src/api/dpu_polling.c, dpu_thread_job.c, src/api/src/dpu_runner.c):
    run_context of a rank                            ↔ RunContext
    dpu_poll_rank                                    ↔ Rank.dpuPollRank
    dpu_launch_thread_on_rank, dpu_launch_thread_on_dpu ↔ Rank.dpuLaunchThread
    dpu_boot_rank, dpu_boot_dpu                      ↔ Rank.dpuBoot
    pthread_cond_broadcast(&rank->api.poll_cond)     ↔ State.broadcast
    the loops of dpu_sync_rank and dpu_sync_dpu      ↔ State.look, State.resume
    polling_thread_set_dpu_running                   ↔ State.setDpuRunning
    polling_thread_rank                              ↔ State.readRank, State.pollRank
    polling_thread_fct                               ↔ State.top, PollerPc

  A step is what a thread does between taking a lock and letting go of it, and the read of
  `nb_dpu_running` that the polling thread makes without one. A worker keeps `rank->mutex`
  from the job before its launch to the wait. The hardware is the set of the DPUs that run
  and are not in fault; any of them can leave it at any moment. Left out are launches inside
  a callback, the end of the polling thread and the statuses that are returned.
-/

namespace DpuBackend.Api.Polling

open DpuBackend.Lib

/-- A DPU of a rank: its slice and its member. -/
abbrev Dpu := Nat × Nat

abbrev Tid := Nat

/-- What a thread launches and waits for. -/
inductive Target where
  | rank
  | dpu (d : Dpu)
deriving DecidableEq

/-! ## A rank -/

structure RunContext where
  dpuRunning : Finset Dpu
  nbDpuRunning : Nat
  /-- whether `poll_status` is `DPU_OK` -/
  pollOk : Bool

/-- The wait condition of `dpu_sync_rank` and of `dpu_sync_dpu`. -/
def RunContext.runs (c : RunContext) : Target → Bool
  | .rank => c.nbDpuRunning != 0
  | .dpu d => decide (d ∈ c.dpuRunning)

structure Rank where
  context : RunContext
  /-- the thread that holds `rank->mutex` -/
  mutex : Option Tid
  /-- the DPUs that run and are not in fault -/
  hardware : Finset Dpu

/-- The ranks of the queue, and their enabled DPUs. -/
structure Config where
  nrRanks : Nat
  enabledDpus : Nat → Finset Dpu

/-- How the commands of a launch end. -/
inductive Launch where
  | preExecutionFails
  | pollFails
  /-- a later command fails; `started` are the DPUs that run nevertheless -/
  | bootFails (started : Finset Dpu)
  | done

namespace Rank

variable (enabled : Finset Dpu) (r : Rank)

/-- `dpu_poll_rank` that does not fail. -/
def dpuPollRank : Rank :=
  let running := r.hardware ∩ enabled
  { r with context := { r.context with dpuRunning := running, nbDpuRunning := running.card } }

/-- The record and the hardware of a launch that is done. -/
def start : Target → Rank
  | .rank =>
    { r with
      context := { r.context with dpuRunning := enabled, nbDpuRunning := enabled.card }
      hardware := r.hardware ∪ enabled }
  | .dpu d =>
    { r with
      context :=
        if d ∈ r.context.dpuRunning then r.context
        else { r.context with dpuRunning := insert d r.context.dpuRunning, nbDpuRunning := r.context.nbDpuRunning + 1 }
      hardware := insert d r.hardware }

/-- `dpu_launch_thread_on_rank` and `dpu_launch_thread_on_dpu`, and whether they succeed. -/
def dpuLaunchThread (target : Target) (answer : Launch) : Rank × Bool :=
  match target, answer with
  | .dpu d, .done => if d ∈ enabled then ((r.dpuPollRank enabled).start enabled (.dpu d), true) else (r, false)
  | .rank, .done => ((r.dpuPollRank enabled).start enabled .rank, true)
  | .dpu d, .bootFails started =>
    if d ∈ enabled then ({ r.dpuPollRank enabled with hardware := r.hardware ∪ started }, false) else (r, false)
  | .rank, .bootFails started => ({ r.dpuPollRank enabled with hardware := r.hardware ∪ started }, false)
  | _, _ => (r, false)

/-- `DPU_ERR_DPU_ALREADY_RUNNING` -/
def alreadyRunning (target : Target) : Bool := r.context.runs target

/-- `dpu_boot_rank` and `dpu_boot_dpu`. -/
def dpuBoot (target : Target) (answer : Launch) : Rank × Bool :=
  if r.alreadyRunning target = true then (r, false) else r.dpuLaunchThread enabled target answer

end Rank

/-! ## The threads -/

/-- Where a thread is. -/
inductive Pc where
  | idle
  /-- in a job of rank `r`, whose lock it holds -/
  | locked (r : Nat)
  /-- between `dpu_boot_*` and `polling_thread_set_dpu_running` -/
  | booted (r : Nat) (target : Target)
  /-- at the loop condition of `dpu_sync_*`, where the last poll seen was `ok` -/
  | check (r : Nat) (target : Target) (ok : Bool)
  /-- in `pthread_cond_wait` on `poll_cond` -/
  | waiting (r : Nat) (target : Target)
  /-- woken there, and without the lock -/
  | woken (r : Nat) (target : Target)
deriving DecidableEq

inductive PollerPc where
  | top
  /-- in `pthread_cond_wait` on its own condition -/
  | asleep
  /-- before rank `i` of the iteration -/
  | scan (i : Nat)
  /-- before `dpu_trylock_rank` of rank `i`, of which `nb` DPUs were running -/
  | polling (i nb : Nat)
deriving DecidableEq

structure Poller where
  pc : PollerPc
  isDpuRunning : Bool
  oneRankRunning : Bool

structure State where
  rank : Nat → Rank
  pc : Tid → Pc
  poller : Poller

/-- Nothing runs, nobody has come. -/
def State.start : State where
  rank _ := ⟨⟨∅, 0, true⟩, none, ∅⟩
  pc _ := .idle
  poller := ⟨.top, false, false⟩

inductive Label where
  | lock (t : Tid) (r : Nat)
  | unlock (t : Tid)
  /-- a launch job up to the end of `dpu_boot_*` -/
  | boot (t : Tid) (target : Target) (answer : Launch)
  | setDpuRunning (t : Tid)
  | look (t : Tid)
  | resume (t : Tid)
  /-- `pthread_cond_wait` ends on its own -/
  | spurious (t : Tid)
  /-- a thread polls a rank -/
  | poll (t : Tid) (r : Nat) (fails : Bool)
  /-- a thread launches by `dpu_launch_thread_on_*`, without a job -/
  | launch (t : Tid) (r : Nat) (target : Target) (answer : Launch)
  /-- a DPU stops or faults -/
  | halt (r : Nat) (d : Dpu)
  | top
  | wakePoller
  | readRank
  | pollRank (fails : Bool)

namespace State

variable (s : State)

def setRank (r : Nat) (rank : Rank) : State := { s with rank := Function.update s.rank r rank }

def setMutex (r : Nat) (holder : Option Tid) : State := s.setRank r { s.rank r with mutex := holder }

def setPc (t : Tid) (pc : Pc) : State := { s with pc := Function.update s.pc t pc }

def setPoller (pc : PollerPc) : State := { s with poller := { s.poller with pc := pc } }

/-- A thread is woken by a broadcast on rank `r`. -/
def wake (r : Nat) : Pc → Pc
  | .waiting r' target => if r' = r then .woken r target else .waiting r' target
  | pc => pc

def broadcast (r : Nat) : State := { s with pc := fun t => wake r (s.pc t) }

/-- A thread outside `dpu_sync_*` can enter rank `r`. -/
def mayEnter (t : Tid) (r : Nat) : Bool :=
  (match s.pc t with | .idle | .locked _ => true | _ => false)
    && ((s.rank r).mutex == none || (s.rank r).mutex == some t)

/-- `polling_thread_set_dpu_running` after a launch, and the first look at the condition. -/
def setDpuRunning (t : Tid) (r : Nat) (target : Target) : State :=
  { s with poller := { s.poller with isDpuRunning := true } }.setPc t (.check r target true)

/-- The loop condition: the thread waits and lets go of the lock, or has its result. -/
def look (t : Tid) (r : Nat) (target : Target) (ok : Bool) : State :=
  if ok = true ∧ (s.rank r).context.runs target = true then (s.setMutex r none).setPc t (.waiting r target)
  else s.setPc t (.locked r)

/-- A woken thread gets the lock; `dpu_sync_rank` takes over a `poll_status` that is an error. -/
def resume (t : Tid) (r : Nat) (target : Target) : State :=
  (s.setMutex r (some t)).setPc t (.check r target (target != .rank || (s.rank r).context.pollOk))

/-- `polling_thread_fct` before its iteration. -/
def top : State :=
  if s.poller.isDpuRunning = false ∧ s.poller.oneRankRunning = false then s.setPoller .asleep
  else { s with poller := ⟨.scan 0, false, false⟩ }

/-- The read at the begin of `polling_thread_rank`, or the end of the iteration. -/
def readRank (cfg : Config) (i : Nat) : State :=
  if i < cfg.nrRanks then
    if (s.rank i).context.nbDpuRunning = 0 then s.setPoller (.scan (i + 1))
    else s.setPoller (.polling i (s.rank i).context.nbDpuRunning)
  else s.setPoller .top

/-- The rest of `polling_thread_rank`, and what it returns. -/
def pollRank (cfg : Config) (i nb : Nat) (fails : Bool) : State :=
  if (s.rank i).mutex ≠ none then { s with poller := { s.poller with pc := .scan (i + 1), oneRankRunning := true } }
  else if fails = true then
    -- the DPUs stay recorded as running
    ((s.setRank i { s.rank i with context := { (s.rank i).context with pollOk := false } }).broadcast i).setPoller
      (.scan (i + 1))
  else
    let polled := (s.rank i).dpuPollRank (cfg.enabledDpus i)
    let rank := { polled with context := { polled.context with pollOk := true } }
    let s' := s.setRank i rank
    let s' := if nb > rank.context.nbDpuRunning then s'.broadcast i else s'
    { s' with poller :=
        ⟨.scan (i + 1), s.poller.isDpuRunning, s.poller.oneRankRunning || rank.context.nbDpuRunning != 0⟩ }

end State

def step (cfg : Config) (s : State) : Label → Option State
  | .lock t r =>
    if r < cfg.nrRanks ∧ s.pc t = .idle ∧ (s.rank r).mutex = none then some ((s.setMutex r (some t)).setPc t (.locked r))
    else none
  | .unlock t =>
    match s.pc t with
    | .locked r => some ((s.setMutex r none).setPc t .idle)
    | _ => none
  | .boot t target answer =>
    match s.pc t with
    | .locked r =>
      let booted := (s.rank r).dpuBoot (cfg.enabledDpus r) target answer
      some ((s.setRank r booted.1).setPc t (if booted.2 then .booted r target else .locked r))
    | _ => none
  | .setDpuRunning t =>
    match s.pc t with
    | .booted r target => some (s.setDpuRunning t r target)
    | _ => none
  | .look t =>
    match s.pc t with
    | .check r target ok => some (s.look t r target ok)
    | _ => none
  | .resume t =>
    match s.pc t with
    | .woken r target => if (s.rank r).mutex = none then some (s.resume t r target) else none
    | _ => none
  | .spurious t =>
    match s.pc t with
    | .waiting r target => some (s.setPc t (.woken r target))
    | _ => none
  | .poll t r fails =>
    if s.mayEnter t r = true then
      some (if fails = true then s else s.setRank r ((s.rank r).dpuPollRank (cfg.enabledDpus r)))
    else none
  | .launch t r target answer =>
    if s.mayEnter t r = true then some (s.setRank r ((s.rank r).dpuLaunchThread (cfg.enabledDpus r) target answer).1)
    else none
  | .halt r d => some (s.setRank r { s.rank r with hardware := (s.rank r).hardware.erase d })
  | .top => if s.poller.pc = .top then some s.top else none
  | .wakePoller => if s.poller.pc = .asleep then some (s.setPoller (.scan 0)) else none
  | .readRank =>
    match s.poller.pc with
    | .scan i => some (s.readRank cfg i)
    | _ => none
  | .pollRank fails =>
    match s.poller.pc with
    | .polling i nb => some (s.pollRank cfg i nb fails)
    | _ => none

/-- One queue, with any number of threads. -/
def machine (cfg : Config) : System State Label := System.ofStep (· = State.start) (step cfg)

/-- No thread waits, without a broadcast on its way, for what is recorded as stopped or
while the polling thread sleeps. -/
def NoLostWakeup (s : State) : Prop :=
  ∀ t r target, s.pc t = .waiting r target →
    (s.rank r).context.runs target = true ∧ ¬(s.poller.pc = .asleep ∧ s.poller.isDpuRunning = false)

end DpuBackend.Api.Polling
