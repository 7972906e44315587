import Mathlib.Data.BitVec
import Mathlib.Tactic.Common

/-
  The job lists of a rank.

  C ↔ Lean (src/api/src/api/dpu_thread_job.c, src/commons/include/dpu_rank.h):
    enum dpu_thread_job_type, the union of struct dpu_thread_job ↔ Op, Body, Body.type
    struct dpu_thread_job                          ↔ Job
    the job fields of rank->api                    ↔ RankApi
    the job fields set by dpu_thread_job_create    ↔ RankApi.create
    dpu_thread_release_job_slot_unlocked           ↔ RankApi.releaseJobSlot, releaseSignals
    dpu_thread_advance_to_next_job                 ↔ RankApi.advanceToNextJob
    dpu_thread_job_get_job_unlocked, one round     ↔ RankApi.getJobUnlocked
    dpu_thread_job_unget_jobs, for one rank        ↔ RankApi.ungetJobs
    the rank's part of dpu_thread_update_status    ↔ RankApi.updateStatus

  A slot of `jobs_table` is its index in the table of its rank. What a slot holds is written
  while one API call has it and stays until the slot is released, so an entry of a list
  carries it.
-/

namespace DpuBackend.Jobs

abbrev RankId := Nat
abbrev Tid := Nat

/-- `dpu_error_t`; `DPU_OK` is 0. -/
abbrev Status := BitVec 32

/-- The job types that touch nothing but the DPUs of the rank. -/
inductive Op where
  | launchRank
  | launchDpu
  | copyWramToMatrix
  | copyIramToMatrix
  | copyMramToMatrix
  | copyWramFromMatrix
  | copyIramFromMatrix
  | copyMramFromMatrix
  | copyWramToRank
  | copyIramToRank
  | copyMramToRank
  | load
  deriving DecidableEq, Repr

/-- Whether the job waits for DPUs, with the mutex of the rank released. -/
def Op.launches : Op → Bool
  | .launchRank | .launchDpu => true
  | _ => false

inductive Body where
  | op (o : Op)
  /-- `DPU_THREAD_JOB_SYNC`, with the `struct dpu_thread_job_sync` it points to -/
  | sync (id : Nat)
  /-- a callback without `master_job`; `ranks` are those of its `dpu_set` -/
  | callback (ranks : List RankId) (isNonblocking : Bool)
  /-- a callback whose `master_job` holds the sync `id` -/
  | member (id : Nat)
  deriving DecidableEq, Repr

/-- The value of `job->type`. -/
def Body.type : Body → Nat
  | .op .launchRank => 0
  | .op .launchDpu => 1
  | .sync _ => 2
  | .op .copyWramToMatrix => 3
  | .op .copyIramToMatrix => 4
  | .op .copyMramToMatrix => 5
  | .op .copyWramFromMatrix => 6
  | .op .copyIramFromMatrix => 7
  | .op .copyMramFromMatrix => 8
  | .op .copyWramToRank => 9
  | .op .copyIramToRank => 10
  | .op .copyMramToRank => 11
  | .callback .. | .member _ => 12
  | .op .load => 13

structure Job where
  rank : RankId
  /-- the slot: `job == &rank->jobs_table[idx]` -/
  idx : Nat
  body : Body
  /-- which API call put it there; no step reads it -/
  call : Nat
  deriving DecidableEq, Repr

structure RankApi where
  nrJobs : Nat
  available : List Nat
  availableLength : Nat
  /-- the FIFO -/
  jobs : List Job
  jobError : Status
  callbackTid : Tid
  callbackTidSet : Bool
  queueIdx : Nat

/-! ## Statuses -/

def dpuErrAsyncJobs : Status := 1#32 <<< 31

/-- The low half of a status, below `DPU_ERROR_ASYNC_JOB_TYPE_SHIFT`. -/
def Status.low (s : Status) : Status := s &&& 0xffff#32

/-- What `job_error` becomes when a job of type `type` returns `s`. -/
def asyncStatus (type : Nat) (s : Status) : Status :=
  dpuErrAsyncJobs ||| (BitVec.ofNat 32 type <<< 16) ||| Status.low s

theorem low_getLsbD (s : Status) (i : Nat) : (Status.low s).getLsbD i = (decide (i < 16) && s.getLsbD i) := by
  have hmask : (0xffff#32).getLsbD i = decide (i < 16) := by
    rw [show (0xffff#32) = BitVec.ofNat 32 (2 ^ 16 - 1) from rfl, BitVec.getLsbD_ofNat, Nat.testBit_two_pow_sub_one]
    by_cases h : i < 16
    · simp [h, show i < 32 by omega]
    · simp [h]
  rw [Status.low, BitVec.getLsbD_and, hmask, Bool.and_comm]

theorem asyncStatus_ne_zero (type : Nat) (s : Status) : asyncStatus type s ≠ 0 := by
  intro h
  have h31 := congrArg (BitVec.getLsbD · 31) h
  simp [asyncStatus, dpuErrAsyncJobs] at h31

/-- Of the status of a failed job, a synchronous call returns the low half of what the job
returned. -/
theorem low_asyncStatus (type : Nat) (s : Status) : Status.low (asyncStatus type s) = Status.low s := by
  apply BitVec.eq_of_getLsbD_eq
  intro i _
  rw [low_getLsbD, low_getLsbD]
  by_cases hlow : i < 16
  · have hflag : dpuErrAsyncJobs.getLsbD i = false := by
      rw [dpuErrAsyncJobs, BitVec.getLsbD_shiftLeft]
      simp [show i < 31 by omega]
    simp [asyncStatus, BitVec.getLsbD_or, hflag, hlow, low_getLsbD]
  · simp [hlow]

namespace RankApi

variable (r : RankApi)

/-! ## The lists -/

/-- The job fields after `dpu_thread_job_create`. -/
def create (nrJobs queueIdx : Nat) : RankApi where
  nrJobs := nrJobs
  available := (List.range nrJobs).reverse
  availableLength := nrJobs
  jobs := []
  jobError := 0
  callbackTid := 0
  callbackTidSet := false
  queueIdx := queueIdx

/-- `dpu_thread_release_job_slot_unlocked`: the slot goes to the tail. -/
def releaseJobSlot (idx : Nat) : RankApi :=
  { r with available := r.available ++ [idx], availableLength := r.availableLength + 1 }

/-- Whether `dpu_thread_release_job_slot_unlocked` signals `available_jobs_cond`. -/
def releaseSignals : Bool := r.available.isEmpty

/-- `dpu_thread_advance_to_next_job`, and the job it returns. There is no head to pop on an
empty FIFO. -/
def advanceToNextJob : Option (RankApi × Option Job) :=
  match r.jobs with
  | [] => none
  | job :: rest => some (({ r with jobs := rest } : RankApi).releaseJobSlot job.idx, rest.head?)

variable {r} in
theorem advanceToNextJob_eq_some {a : RankApi} {next : Option Job} (h : r.advanceToNextJob = some (a, next)) :
    ∃ job rest, r.jobs = job :: rest ∧ a = ({ r with jobs := rest } : RankApi).releaseJobSlot job.idx ∧
      next = rest.head? := by
  unfold advanceToNextJob at h
  split at h
  · cases h
  · next job rest hjobs =>
    cases h
    exact ⟨job, rest, hjobs, rfl, rfl⟩

variable {r} in
theorem advanceToNextJob_queueIdx {a : RankApi} {next : Option Job} (h : r.advanceToNextJob = some (a, next)) :
    a.queueIdx = r.queueIdx := by
  obtain ⟨job, rest, -, rfl, -⟩ := advanceToNextJob_eq_some h
  rfl

/-- How a round of the loop of `dpu_thread_job_get_job_unlocked` ends. -/
inductive Round where
  | error (status : Status)
  | got (idx : Nat) (r : RankApi)
  | wait

def getJobUnlocked : Round :=
  if r.jobError ≠ 0 then .error r.jobError
  else
    match r.available with
    | [] => .wait
    | idx :: rest => .got idx { r with available := rest, availableLength := r.availableLength - 1 }

variable {r}

theorem getJobUnlocked_error (h : r.jobError ≠ 0) : r.getJobUnlocked = .error r.jobError := if_pos h

theorem getJobUnlocked_wait (h : r.jobError = 0) (ha : r.available = []) : r.getJobUnlocked = .wait := by
  simp [getJobUnlocked, h, ha]

theorem getJobUnlocked_got {idx : Nat} {rest : List Nat} (h : r.jobError = 0) (ha : r.available = idx :: rest) :
    r.getJobUnlocked = .got idx { r with available := rest, availableLength := r.availableLength - 1 } := by
  simp [getJobUnlocked, h, ha]

variable (r)

/-- `dpu_thread_job_unget_jobs` on one rank: each slot goes to the head; a NULL entry is skipped. -/
def ungetJobs : RankApi → List (Option Nat) → RankApi
  | r, [] => r
  | r, none :: rest => r.ungetJobs rest
  | r, some idx :: rest =>
    ({ r with available := idx :: r.available, availableLength := r.availableLength + 1 } : RankApi).ungetJobs rest

theorem ungetJobs_of_none {r : RankApi} {jobs : List (Option Nat)} (h : ∀ job ∈ jobs, job = none) :
    r.ungetJobs jobs = r := by
  induction jobs with
  | nil => rfl
  | cons job rest ih =>
    rw [h job List.mem_cons_self, ungetJobs]
    exact ih fun job hjob => h job (List.mem_cons_of_mem _ hjob)

/-- The releases of `dpu_thread_update_status`, in the order of the FIFO. -/
def releaseAll : RankApi → List Job → RankApi
  | r, [] => r
  | r, job :: rest => (r.releaseJobSlot job.idx).releaseAll rest

/-- The rank's part of `dpu_thread_update_status`, for a job of type `type` that returned `status`. -/
def updateStatus (type : Nat) (status : Status) : RankApi :=
  ({ r with jobs := [], jobError := asyncStatus type status } : RankApi).releaseAll r.jobs

end RankApi

end DpuBackend.Jobs
