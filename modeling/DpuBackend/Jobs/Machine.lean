import DpuBackend.Jobs.Rank
import DpuBackend.Lib.System
import Mathlib.Logic.Function.Basic

/-
  The API calls and the worker threads of a set of ranks.

  C ↔ Lean (src/api/src/api/dpu_thread_job.c, include/dpu_thread_job.h, dpu_polling.c, dpu_set.c):
    struct dpu_thread_job_sync, the callback fields of a master job ↔ Sync, Master
    the arguments of dpu_sync, dpu_launch, dpu_copy_.., dpu_callback ↔ Kind, Request
    DPU_THREAD_JOB_GET_JOBS, dpu_thread_job_get_jobs ↔ Stage.begin, second, getting, ungetting
    the master slot of dpu_callback                ↔ Stage.mastering, Shared.takeMaster
    DPU_THREAD_JOB_SET_JOBS                        ↔ Stage.setting, fill, Request.body
    dpu_thread_job_do_jobs                         ↔ Stage.doing, locking, inline .., adding, waiting, clearing
    dpu_thread_job_add_jobs, for one rank          ↔ Shared.addJobs
    do_sync_job                                    ↔ Sync.arrive, Shared.arrive
    dpu_thread_job_fct                             ↔ WStage.idle, taken, next, unlock
    dpu_thread_compute_job                         ↔ WStage.run and the stages of a callback
    dpu_thread_handle_global_block                 ↔ WStage.block, Shared.requeueOther
    dpu_thread_update_status                       ↔ Shared.updateStatus

  A step is one critical section of a `jobs_mutex` or a queue mutex, one lock of a rank, one
  reading of `callback_tid_set`, or what a thread does between two of these. Calls and workers
  take their steps in any order. The two conditions that threads wait for, a slot and the end
  of a sync, are steps that are not possible before.

  The mutex of a queue that `dpu_thread_job_add_jobs` keeps until it has been to all ranks only
  keeps steps back, as does `jobs_mutex` of the rank where `dpu_thread_job_get_jobs` fails;
  here the others may go on.
-/

namespace DpuBackend.Jobs

open DpuBackend.Lib Function

/-! ## The shared state -/

/-- The callback of a master job. -/
structure Master where
  /-- `slot_owner`, and the slot there -/
  owner : RankId
  idx : Nat
  isNonblocking : Bool

structure Sync where
  nrRanks : Nat
  status : Status
  /-- the master job it belongs to, for a callback called once for its ranks -/
  master : Option Master
  /-- the ranks of the call -/
  ranks : List RankId
  /-- those that have counted, the last one first; no step reads it -/
  arrived : List RankId
  /-- the call that made it; no step reads it -/
  call : Nat

/-- The decrement of `nr_ranks` by the job on rank `r`. -/
def Sync.arrive (s : Sync) (r : RankId) : Sync := { s with nrRanks := s.nrRanks - 1, arrived := r :: s.arrived }

/-- The status a sync job gets when its FIFO is drained: the first one stays. -/
def Sync.fail (s : Sync) (e : Status) : Sync := if s.status = 0 then { s with status := e } else s

/-- Who has a rank, for the proofs: no step reads it. A worker has `taken` a rank whose first job
is not counted yet, and has `ran` it otherwise. -/
inductive Owner where
  | idle
  | queued
  | taken (w : Tid)
  | ran (w : Tid)
  /-- left by its worker at a callback that other ranks have not come to -/
  | parked
  deriving DecidableEq

/-- What became of a job, for the proofs. -/
inductive Outcome where
  | ok
  /-- a nonblocking callback, which leaves the FIFO before it runs -/
  | detached
  | failed
  /-- thrown away behind a job that failed -/
  | dropped
  deriving DecidableEq

structure Shared where
  rank : RankId → RankApi
  queue : Nat → List (Option Job)
  /-- the mutexes of the ranks, which are recursive: who has it, and how often -/
  lock : RankId → Option (Tid × Nat)
  syncs : List Sync
  owner : RankId → Owner
  /-- the jobs that have left the FIFO of a rank, in their order -/
  log : RankId → List Outcome
  /-- how many of them there were when a synchronous call last set `job_error` back -/
  base : RankId → Nat
  /-- what `base` was when a call took its slots on a rank -/
  since : Nat → RankId → Nat
  /-- the jobs of each call that have started: the rank, and how many jobs had left its FIFO -/
  ran : Nat → List (RankId × Nat)
  /-- the syncs whose master job has been given back -/
  released : Nat → Bool

namespace Shared

variable (sh : Shared)

def setRank (r : RankId) (a : RankApi) : Shared := { sh with rank := update sh.rank r a }

def push (q : Nat) (job : Option Job) : Shared := { sh with queue := update sh.queue q (sh.queue q ++ [job]) }

def setOwner (r : RankId) (o : Owner) : Shared := { sh with owner := update sh.owner r o }

def record (r : RankId) (outcomes : List Outcome) : Shared :=
  { sh with log := update sh.log r (sh.log r ++ outcomes) }

/-- A job of the call `call` starts on rank `r`. -/
def start (call : Nat) (r : RankId) : Shared :=
  { sh with ran := update sh.ran call (sh.ran call ++ [(r, (sh.log r).length)]) }

/-- The call `call` has found no error on rank `r`, and has its slots. -/
def see (call : Nat) (r : RankId) : Shared :=
  { sh with since := update sh.since call (update (sh.since call) r (sh.base r)) }

/-- `dpu_lock_rank`, `n` times; not possible while another thread has the mutex. -/
def lockRank (r : RankId) (t : Tid) (n : Nat) : Option Shared :=
  match sh.lock r with
  | none => some { sh with lock := update sh.lock r (some (t, n)) }
  | some (u, k) => if u = t then some { sh with lock := update sh.lock r (some (t, k + n)) } else none

/-- `dpu_unlock_rank`, `n` times. -/
def unlockRank (r : RankId) (n : Nat) : Shared :=
  match sh.lock r with
  | none => sh
  | some (t, k) => { sh with lock := update sh.lock r (if k ≤ n then none else some (t, k - n)) }

def unlockRanks (ranks : List RankId) : Shared := ranks.foldl (fun sh r => sh.unlockRank r 1) sh

/-- The ranks of a blocking callback get the id of its thread. -/
def setCallbackTid (ranks : List RankId) (t : Tid) : Shared :=
  { sh with rank := fun r =>
      if r ∈ ranks then { sh.rank r with callbackTid := t, callbackTidSet := true } else sh.rank r }

def clearCallbackTid (ranks : List RankId) : Shared :=
  { sh with rank := fun r => if r ∈ ranks then { sh.rank r with callbackTidSet := false } else sh.rank r }

def arrive (id : Nat) (r : RankId) : Shared := { sh with syncs := sh.syncs.modify id (·.arrive r) }

def failSync (id : Nat) (e : Status) : Shared := { sh with syncs := sh.syncs.modify id (·.fail e) }

/-- The sync jobs of a drained FIFO are notified. -/
def notify (r : RankId) (e : Status) : Shared → List Job → Shared
  | sh, [] => sh
  | sh, job :: rest =>
    match job.body with
    | .sync id => ((sh.failSync id e).arrive id r).notify r e rest
    | _ => sh.notify r e rest

/-- `dpu_thread_update_status`, after `job`, the first one of rank `r`, returned `status`. -/
def updateStatus (r : RankId) (job : Job) (status : Status) : Shared :=
  let a := sh.rank r
  let sh' := sh.notify r (asyncStatus job.body.type status) a.jobs
  ((sh'.setRank r (a.updateStatus job.body.type status)).record r
    (.failed :: a.jobs.tail.map fun _ => .dropped)).setOwner r .idle

/-- `dpu_thread_job_add_jobs` on one rank. -/
def addJobs (r : RankId) (jobs : List Job) : Shared :=
  let a := sh.rank r
  let sh' := sh.setRank r { a with jobs := a.jobs ++ jobs }
  if a.jobs = [] then (sh'.push a.queueIdx jobs.head?).setOwner r (if jobs = [] then .idle else .queued) else sh'

/-- The slot of a master job, and what `dpu_callback` writes there. -/
def newSync (s : Sync) : Shared := { sh with syncs := sh.syncs ++ [s] }

/-- The slot of the master job of sync `id` goes back to its owner. -/
def releaseMaster (id : Nat) (m : Master) : Shared :=
  { sh.setRank m.owner ((sh.rank m.owner).releaseJobSlot m.idx) with released := update sh.released id true }

end Shared

/-! ## API calls -/

/-- `DPU_CALLBACK_NONBLOCKING` is refused without `DPU_CALLBACK_ASYNC`. -/
inductive Kind where
  | sync
  | op (o : Op) (synchronous : Bool)
  | callback (isSingleCall : Bool)
  | callbackAsync (isNonblocking isSingleCall : Bool)

/-- A call of the API by thread `tid`, on the ranks of its set. -/
structure Request where
  tid : Tid
  kind : Kind
  set : List RankId
  nodup : set.Nodup
  ne_nil : set ≠ []

namespace Request

variable (q : Request)

/-- The ranks the call takes slots on: a synchronous callback that is called once runs on the first. -/
def ranks : List RankId :=
  match q.kind with
  | .callback true => q.set.take 1
  | _ => q.set

/-- `bool_sync` of the two macros. -/
def boolSync : Bool :=
  match q.kind with
  | .op _ synchronous => synchronous
  | .callback _ => true
  | .sync | .callbackAsync .. => false

/-- `synchronous` of `dpu_thread_job_do_jobs`. -/
def synchronous : Bool :=
  match q.kind with
  | .sync => true
  | _ => q.boolSync

/-- The nonblocking flag, where the call needs a master job. -/
def master : Option Bool :=
  match q.kind with
  | .callbackAsync isNonblocking true => if q.set.length ≠ 1 then some isNonblocking else none
  | _ => none

/-- What the call writes to its first job on rank `r`; `id` is its sync, or that of its master. -/
def body (id : Nat) (r : RankId) : Body :=
  match q.kind with
  | .sync => .sync id
  | .op o _ => .op o
  | .callback isSingleCall => .callback (if isSingleCall then q.set else [r]) false
  | .callbackAsync isNonblocking _ => if q.master.isSome then .member id else .callback [r] isNonblocking

/-- The test of `callback_tid_set`, as `DPU_THREAD_JOB_GET_JOBS` and `DPU_THREAD_JOB_SET_JOBS` make it. -/
def inCallback (sh : Shared) : Bool :=
  q.boolSync && (q.ranks.length == 1) && (q.ranks.any fun r => (sh.rank r).callbackTidSet)

end Request

/-- The slots a call has on a rank. -/
abbrev RankSlots := RankId × List Nat

/-- The jobs of rank `r`: `body` in the first slot, the sync in the second. -/
def fill (call : Nat) (r : RankId) (body : Body) (id : Nat) : List Nat → List Job
  | [] => []
  | idx :: rest => ⟨r, idx, body, call⟩ :: rest.map fun idx => ⟨r, idx, .sync id, call⟩

/-- Where a call is. `fast` is whether a test of `callback_tid_set` has found it set; `id` is the
sync of the call, or of its master job, if there is one. -/
inductive Stage where
  | begin
  /-- before the second test -/
  | second (fast : Bool) (id : Option Nat)
  | getting (fast : Bool) (id : Option Nat) (got : List RankSlots) (cur : List Nat) (todo : List RankId)
  | ungetting (status : Status) (todo : List RankSlots) (cur : List Nat)
  /-- `dpu_callback` takes the slot of the master job -/
  | mastering (got : List RankSlots)
  /-- before the third test, with slots or with `static_job` -/
  | setting (fast : Bool) (id : Option Nat) (got : Option (List RankSlots))
  /-- before the fourth test -/
  | doing (fast : Bool) (id : Option Nat) (got : Option (List RankSlots))
  | adding (id : Option Nat) (todo : List (RankId × List Job))
  /-- the job is run by the calling thread: the rank is to be locked -/
  | locking (r : RankId) (body : Body)
  | inline (r : RankId) (body : Body)
  | inlinePolling (r : RankId)
  | inlineFunction (r : RankId) (ranks : List RankId)
  | waiting (id : Nat)
  | clearing (status : Status) (todo : List RankId)
  | done (status : Status)
  /-- the call has used a job that was never set -/
  | undefined

structure Call where
  req : Request
  stage : Stage
  /-- how many jobs each rank had been given when the call was made -/
  before : RankId → Nat
  /-- whether its thread runs a callback on one of its ranks -/
  inside : Bool

/-- `nr_jobs_per_rank`. -/
def Request.nrJobs (q : Request) (fast : Bool) : Nat := if q.boolSync && !fast then 2 else 1

/-- The slots a critical section of `dpu_thread_job_get_jobs` takes, at most `n`. -/
def RankApi.getMany : Nat → RankApi → List Nat × RankApi
  | 0, a => ([], a)
  | n + 1, a =>
    match a.getJobUnlocked with
    | .got idx a' => ((idx :: (getMany n a').1), (getMany n a').2)
    | _ => ([], a)

/-- A step of call `i`. `x` is the status a job or a callback function returns, `pick` the rank
`dpu_callback` finds to have the most slots, reading their numbers without a lock. -/
def callStep (sh : Shared) (i : Nat) (q : Request) (x : Status) (pick : RankId) : Stage → Option (Shared × Stage)
  | .begin =>
    if q.inCallback sh then some (sh, .second true none)
    else if q.synchronous then
      some (sh.newSync ⟨q.ranks.length, 0, none, q.ranks, [], i⟩, .second false (some sh.syncs.length))
    else some (sh, .second false none)
  | .second fast id =>
    if q.inCallback sh then some (sh, .setting fast id none) else some (sh, .getting fast id [] [] q.ranks)
  | .getting fast id got cur (r :: todo) =>
    let a := sh.rank r
    if a.jobError ≠ 0 then some (sh, .ungetting a.jobError got cur)
    else
      let taken := a.getMany (q.nrJobs fast - cur.length)
      let cur' := cur ++ taken.1
      if cur'.length = q.nrJobs fast then
        some ((sh.setRank r taken.2).see i r, .getting fast id (got ++ [(r, cur')]) [] todo)
      else some (sh.setRank r taken.2, .getting fast id got cur' (r :: todo))
  | .getting fast id got _ [] =>
    if q.master.isSome then some (sh, .mastering got)
    else if q.boolSync then some (sh, .setting fast id (some got))
    else some (sh, .doing fast id (some got))
  | .ungetting status ((r, idxs) :: todo) cur =>
    some (sh.setRank r ((sh.rank r).ungetJobs (idxs.map some)), .ungetting status todo cur)
  | .ungetting status [] _ => some (sh, .done status)
  | .mastering got =>
    match q.master with
    | none => none
    | some isNonblocking =>
      -- the first rank, unless the callback is nonblocking
      if pick ∈ (if isNonblocking then q.ranks else q.ranks.take 1) then
        match (sh.rank pick).getJobUnlocked with
        | .error e => some (sh, .ungetting e got [])
        | .wait => none
        | .got idx a =>
          some ((sh.setRank pick a).newSync ⟨q.ranks.length, 0, some ⟨pick, idx, isNonblocking⟩, q.ranks, [], i⟩,
            .doing false (some sh.syncs.length) (some got))
      else none
  | .setting fast id got =>
    -- one job is set, or two where there may be the slot of one
    if q.inCallback sh then some (sh, .doing true id got)
    else if fast || got.isNone then some (sh, .undefined) else some (sh, .doing false id got)
  | .doing fast id got =>
    if q.inCallback sh then
      match q.ranks with
      | [] => none
      | r :: _ => some (sh, .locking r (q.body (id.getD 0) r))
    else
      match fast, got with
      | false, some got =>
        some (sh, .adding id (got.map fun g => (g.1, fill i g.1 (q.body (id.getD 0) g.1) (id.getD 0) g.2)))
      | _, _ => some (sh, .undefined)
  | .adding id ((r, jobs) :: todo) => some (sh.addJobs r jobs, .adding id todo)
  | .adding id [] =>
    match id with
    | some id => some (sh, if q.synchronous then .waiting id else .done 0)
    | none => some (sh, .done 0)
  | .locking r body => (sh.lockRank r q.tid 1).map fun sh => (sh, .inline r body)
  | .inline r body =>
    match body with
    | .op o =>
      if o.launches && x == 0 then
        some ((sh.start i r).unlockRank r (if (sh.rank r).callbackTidSet then 2 else 1), .inlinePolling r)
      else some ((sh.start i r).unlockRank r 1, .done x)
    | .callback ranks _ => some ((sh.start i r).setCallbackTid ranks q.tid, .inlineFunction r ranks)
    | _ => none
  | .inlinePolling r =>
    (sh.lockRank r q.tid (if (sh.rank r).callbackTidSet then 2 else 1)).map fun sh => (sh.unlockRank r 1, .done x)
  | .inlineFunction r ranks => some ((sh.clearCallbackTid ranks).unlockRank r 1, .done x)
  | .waiting id =>
    match sh.syncs[id]? with
    | none => none
    | some s =>
      if s.nrRanks = 0 then
        some (sh, if Status.low s.status = 0 then .done 0 else .clearing (Status.low s.status) q.ranks)
      else none
  | .clearing status (r :: todo) =>
    some ({ sh.setRank r { sh.rank r with jobError := 0 } with base := update sh.base r (sh.log r).length },
      .clearing status todo)
  | .clearing status [] => some (sh, .done status)
  | .done _ | .undefined => none

/-! ## Workers -/

/-- The callback a worker runs: the ranks of its set, and the sync of its master job if it has one. -/
structure Callback where
  ranks : List RankId
  master : Option Nat

/-- Where a worker is in `dpu_thread_job_fct`. -/
inductive WStage where
  | idle
  /-- the rank of the job is to be locked -/
  | taken (job : Job)
  | run (r : RankId) (job : Job)
  /-- the job waits for its DPUs, the mutex of the rank released -/
  | polling (r : RankId) (job : Job)
  /-- a nonblocking callback, which frees its FIFO before it runs -/
  | detaching (r : RankId) (job : Job) (cb : Callback)
  | requeueing (r : RankId) (next : Option Job) (cb : Callback)
  | detached (cb : Callback)
  | releasingDetached (id : Nat)
  /-- a callback that is called once locks all its ranks -/
  | lockAll (r : RankId) (job : Job) (id : Nat) (ranks todo : List RankId)
  | function (r : RankId) (job : Job) (cb : Callback)
  | block (r : RankId) (job : Job) (id : Nat) (others : List RankId) (status : Status)
  | releasing (r : RankId) (job : Job) (id : Nat) (status : Status)
  /-- `dpu_thread_compute_job` has returned, with `keep_job_list` set -/
  | next (r : RankId) (job : Job) (status : Status)
  | unlock (r : RankId)
  /-- the worker has been given no job -/
  | crashed

/-- `dpu_thread_compute_job` up to the first lock it takes. `x` is the status of the job. -/
def computeJob (sh : Shared) (w : Tid) (r : RankId) (job : Job) (x : Status) : Option (Shared × WStage) :=
  let sh := (sh.start job.call r).setOwner r (.ran w)
  match job.body with
  | .op o =>
    if o.launches && x == 0 then
      some (sh.unlockRank r (if (sh.rank r).callbackTidSet then 2 else 1), .polling r job)
    else some (sh, .next r job x)
  | .sync id => some (sh.arrive id r, .next r job 0)
  | .callback ranks isNonblocking =>
    if isNonblocking then some (sh.unlockRank r 1, .detaching r job ⟨ranks, none⟩)
    else some (sh.setCallbackTid ranks w, .function r job ⟨ranks, none⟩)
  | .member id =>
    match sh.syncs[id]? with
    | none => none
    | some s =>
      match s.master with
      | none => none
      | some m =>
        let sh' := sh.arrive id r
        if s.nrRanks = 1 then
          if m.isNonblocking then some (sh'.unlockRank r 1, .detaching r job ⟨s.ranks, some id⟩)
          else some (sh', .lockAll r job id s.ranks s.ranks)
        else if m.isNonblocking then some (sh', .next r job 0)
        else some ((sh'.unlockRank r 1).setOwner r .parked, .idle)

namespace Shared

variable (sh : Shared)

/-- `dpu_thread_advance_to_next_job` by worker `w`, after a job with the given outcome; `o` is who
has the rank if there is a next job. -/
def advance (r : RankId) (outcome : Outcome) (o : Owner) : Option (Shared × Option Job) :=
  match (sh.rank r).advanceToNextJob with
  | none => none
  | some (a, next) =>
    some (((sh.setRank r a).record r [outcome]).setOwner r (if next.isSome then o else .idle), next)

/-- `dpu_thread_insert_rank_list`. -/
def insertRankList (r : RankId) : Option Job → Shared
  | none => sh
  | some job => (sh.push (sh.rank r).queueIdx (some job)).setOwner r .queued

/-- One rank of `dpu_thread_handle_global_block`: the queue gets what there is. -/
def requeueOther (r : RankId) : Option Shared :=
  (sh.advance r .ok .queued).map fun (sh, next) => sh.push (sh.rank r).queueIdx next

/-- The master job of sync `id`. -/
def masterOf (id : Nat) : Option Master := (sh.syncs[id]?).bind (·.master)

end Shared

/-- A step of worker `w` of queue `q`. `x` is the status a job or a callback function returns. -/
def workerStep (sh : Shared) (w : Tid) (q : Nat) (x : Status) : WStage → Option (Shared × WStage)
  | .idle =>
    match sh.queue q with
    | [] => none
    | none :: rest => some ({ sh with queue := update sh.queue q rest }, .crashed)
    | some job :: rest =>
      some (({ sh with queue := update sh.queue q rest } : Shared).setOwner job.rank (.taken w), .taken job)
  | .taken job => (sh.lockRank job.rank w 1).map fun sh => (sh, .run job.rank job)
  | .run r job => computeJob sh w r job x
  | .polling r job =>
    (sh.lockRank r w (if (sh.rank r).callbackTidSet then 2 else 1)).map fun sh => (sh, .next r job x)
  | .detaching r _ cb => (sh.advance r .detached (.taken w)).map fun (sh, next) => (sh, .requeueing r next cb)
  | .requeueing r next cb => some (sh.insertRankList r next, .detached cb)
  | .detached cb =>
    match cb.master with
    | none => some (sh, .idle)
    | some id => some (sh, .releasingDetached id)
  | .releasingDetached id => (sh.masterOf id).map fun m => (sh.releaseMaster id m, .idle)
  | .lockAll r job id ranks (r' :: todo) => (sh.lockRank r' w 1).map fun sh => (sh, .lockAll r job id ranks todo)
  | .lockAll r job id ranks [] => some (sh.setCallbackTid ranks w, .function r job ⟨ranks, some id⟩)
  | .function r job cb =>
    let sh := sh.clearCallbackTid cb.ranks
    match cb.master with
    | none => some (sh, .next r job x)
    | some id => some (sh.unlockRanks cb.ranks, .block r job id (cb.ranks.filter (· ≠ r)) x)
  | .block r job id (other :: others) status =>
    (sh.requeueOther other).map fun sh => (sh, .block r job id others status)
  | .block r job id [] status => some (sh, .releasing r job id status)
  | .releasing r job id status => (sh.masterOf id).map fun m => (sh.releaseMaster id m, .next r job status)
  | .next r job status =>
    if status ≠ 0 then some (sh.updateStatus r job status, .unlock r)
    else
      (sh.advance r .ok (.taken w)).map fun (sh, next) =>
        (sh, match next with | some job' => .run r job' | none => .unlock r)
  | .unlock r => some (sh.unlockRank r 1, .idle)
  | .crashed => none

/-! ## The system -/

structure State where
  sh : Shared
  calls : List Call
  worker : Tid → WStage

namespace State

variable (s : State)

/-- Whether thread `t` runs a callback that has set `callback_tid` of rank `r`. -/
def runsCallback (t : Tid) (r : RankId) : Bool :=
  (match s.worker t with
    | .function _ _ cb => r ∈ cb.ranks
    | _ => false) ||
  s.calls.any fun c => c.req.tid == t &&
    match c.stage with
    | .inlineFunction _ ranks => r ∈ ranks
    | _ => false

/-- The call a thread makes now. -/
def newCall (q : Request) : Call where
  req := q
  stage := .begin
  before r := (s.sh.log r).length + (s.sh.rank r).jobs.length
  inside := q.ranks.any (s.runsCallback q.tid)

end State

inductive Action where
  | issue (q : Request)
  | call (i : Nat) (x : Status) (pick : RankId)
  | worker (w : Tid) (x : Status)

/-- The steps; worker `w` is one of queue `home w`. -/
def machineStep (home : Tid → Nat) (s : State) : Action → Option State
  | .issue q => some { s with calls := s.calls ++ [s.newCall q] }
  | .call i x pick =>
    match s.calls[i]? with
    | none => none
    | some c =>
      (callStep s.sh i c.req x pick c.stage).map fun (sh, stage) =>
        { s with sh := sh, calls := s.calls.set i { c with stage := stage } }
  | .worker w x =>
    (workerStep s.sh w (home w) x (s.worker w)).map fun (sh, stage) =>
      { s with sh := sh, worker := update s.worker w stage }

/-- After `dpu_thread_job_create`: every slot is available, nothing is queued, the workers wait. -/
def created (nrJobs queueIdx : RankId → Nat) : State where
  sh :=
    { rank := fun r => RankApi.create (nrJobs r) (queueIdx r)
      queue := fun _ => []
      lock := fun _ => none
      syncs := []
      owner := fun _ => .idle
      log := fun _ => []
      base := fun _ => 0
      since := fun _ _ => 0
      ran := fun _ => []
      released := fun _ => false }
  calls := []
  worker := fun _ => .idle

/-- Any number of workers and of API threads. -/
def machine (home : Tid → Nat) (nrJobs queueIdx : RankId → Nat) : System State Action :=
  System.ofStep (· = created nrJobs queueIdx) (machineStep home)

end DpuBackend.Jobs
