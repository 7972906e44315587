import DpuBackend.Jobs.Invariant

/-
  What a step can do to the FIFOs, the slots, the syncs and the records of jobs.

  Most steps lock something, or only move a call or a worker on: they are `Quiet`. The others
  are the cases of `WorkerEffect` and `CallEffect`, and what follows about the machine splits
  on these.
-/

namespace DpuBackend.Jobs

open DpuBackend.Lib Function

/-- The same FIFOs, slots, errors, syncs and records. What comes into a queue is a job. -/
structure Quiet (sh sh' : Shared) : Prop where
  available : ∀ r, (sh'.rank r).available = (sh.rank r).available
  availableLength : ∀ r, (sh'.rank r).availableLength = (sh.rank r).availableLength
  jobs : ∀ r, (sh'.rank r).jobs = (sh.rank r).jobs
  jobError : ∀ r, (sh'.rank r).jobError = (sh.rank r).jobError
  syncs : sh'.syncs = sh.syncs
  log : sh'.log = sh.log
  base : sh'.base = sh.base
  since : sh'.since = sh.since
  ran : sh'.ran = sh.ran
  released : sh'.released = sh.released
  queue : ∀ q, ∀ e ∈ sh'.queue q, e ∈ sh.queue q ∨ e ≠ none

namespace Quiet

variable {sh sh' sh'' : Shared} {r : RankId}

theorem refl (sh : Shared) : Quiet sh sh :=
  ⟨fun _ => rfl, fun _ => rfl, fun _ => rfl, fun _ => rfl, rfl, rfl, rfl, rfl, rfl, rfl, fun _ _ => .inl⟩

/-- The mutexes and who has a rank may change. -/
theorem rest (sh : Shared) (lock : RankId → Option (Tid × Nat)) (owner : RankId → Owner) :
    Quiet sh { sh with lock := lock, owner := owner } :=
  ⟨fun _ => rfl, fun _ => rfl, fun _ => rfl, fun _ => rfl, rfl, rfl, rfl, rfl, rfl, rfl, fun _ _ => .inl⟩

theorem setQueue (sh : Shared) {q : Nat} {entries : List (Option Job)}
    (hmem : ∀ e ∈ entries, e ∈ sh.queue q ∨ e ≠ none) : Quiet sh { sh with queue := update sh.queue q entries } where
  available _ := rfl
  availableLength _ := rfl
  jobs _ := rfl
  jobError _ := rfl
  syncs := rfl
  log := rfl
  base := rfl
  since := rfl
  ran := rfl
  released := rfl
  queue q' e he := by
    change e ∈ update sh.queue q entries q' at he
    by_cases hq : q' = q
    · subst hq
      rw [update_self] at he
      exact hmem e he
    · rw [update_of_ne hq] at he
      exact .inl he

/-- An entry is taken. -/
theorem pop {sh : Shared} {q : Nat} {entry : Option Job} {rest : List (Option Job)} (hq : sh.queue q = entry :: rest) :
    Quiet sh { sh with queue := update sh.queue q rest } :=
  setQueue sh fun _ he => .inl (hq ▸ List.mem_cons_of_mem _ he)

theorem push (sh : Shared) (q : Nat) (job : Job) : Quiet sh (sh.push q (some job)) := by
  refine setQueue sh fun e he => ?_
  rcases List.mem_append.1 he with he | he
  · exact .inl he
  · right
    rw [List.mem_singleton.1 he]
    nofun

theorem trans (h : Quiet sh sh') (h' : Quiet sh' sh'') : Quiet sh sh'' where
  available r := (h'.available r).trans (h.available r)
  availableLength r := (h'.availableLength r).trans (h.availableLength r)
  jobs r := (h'.jobs r).trans (h.jobs r)
  jobError r := (h'.jobError r).trans (h.jobError r)
  syncs := h'.syncs.trans h.syncs
  log := h'.log.trans h.log
  base := h'.base.trans h.base
  since := h'.since.trans h.since
  ran := h'.ran.trans h.ran
  released := h'.released.trans h.released
  queue q e he := (h'.queue q e he).elim (h.queue q e) .inr

theorem lockRank {t : Tid} {n : Nat} (h : sh.lockRank r t n = some sh') : Quiet sh sh' := by
  unfold Shared.lockRank at h
  split at h
  · cases h
    exact rest sh _ _
  · split at h
    · cases h
      exact rest sh _ _
    · cases h

theorem unlockRank (sh : Shared) (r : RankId) (n : Nat) : Quiet sh (sh.unlockRank r n) := by
  unfold Shared.unlockRank
  split
  · exact refl sh
  · exact rest sh _ _

theorem unlockRanks (sh : Shared) (ranks : List RankId) : Quiet sh (sh.unlockRanks ranks) := by
  induction ranks generalizing sh with
  | nil => exact refl sh
  | cons r rest ih => exact (unlockRank sh r 1).trans (ih (sh.unlockRank r 1))

/-- Only `callback_tid` and `callback_tid_set` of some ranks are written. -/
theorem ofRanks {rank' : RankId → RankApi} (hrank : ∀ r, ∃ t b,
    rank' r = { sh.rank r with callbackTid := t, callbackTidSet := b }) : Quiet sh { sh with rank := rank' } where
  available r := by
    obtain ⟨t, b, h⟩ := hrank r
    change (rank' r).available = _
    rw [h]
  availableLength r := by
    obtain ⟨t, b, h⟩ := hrank r
    change (rank' r).availableLength = _
    rw [h]
  jobs r := by
    obtain ⟨t, b, h⟩ := hrank r
    change (rank' r).jobs = _
    rw [h]
  jobError r := by
    obtain ⟨t, b, h⟩ := hrank r
    change (rank' r).jobError = _
    rw [h]
  syncs := rfl
  log := rfl
  base := rfl
  since := rfl
  ran := rfl
  released := rfl
  queue _ _ := .inl

theorem setCallbackTid (sh : Shared) (ranks : List RankId) (t : Tid) : Quiet sh (sh.setCallbackTid ranks t) := by
  apply ofRanks
  intro r
  split
  · exact ⟨t, true, rfl⟩
  · exact ⟨_, _, rfl⟩

theorem clearCallbackTid (sh : Shared) (ranks : List RankId) : Quiet sh (sh.clearCallbackTid ranks) := by
  apply ofRanks
  intro r
  split
  · exact ⟨_, false, rfl⟩
  · exact ⟨_, _, rfl⟩

theorem setOwner (sh : Shared) (r : RankId) (o : Owner) : Quiet sh (sh.setOwner r o) := rest sh _ _

theorem ofSetOwner {o : Owner} (h : Quiet (sh.setOwner r o) sh') : Quiet sh sh' := (setOwner sh r o).trans h

end Quiet

/-! ## Jobs that leave a FIFO -/

/-- The first job of rank `r` has left the FIFO, `rest` is left. -/
structure Pops (sh : Shared) (r : RankId) (job : Job) (rest : List Job) (outcome : Outcome) (sh' : Shared) : Prop where
  jobs : (sh.rank r).jobs = job :: rest
  rank : sh'.rank = update sh.rank r (({ sh.rank r with jobs := rest } : RankApi).releaseJobSlot job.idx)
  log : sh'.log = update sh.log r (sh.log r ++ [outcome])
  syncs : sh'.syncs = sh.syncs
  base : sh'.base = sh.base
  since : sh'.since = sh.since
  ran : sh'.ran = sh.ran
  released : sh'.released = sh.released

/-- Rank `r`, whose first job is `job` and failed, has lost its FIFO. -/
structure Drains (sh : Shared) (r : RankId) (job : Job) (status : Status) (sh' : Shared) : Prop where
  rank : sh'.rank = update sh.rank r ((sh.rank r).updateStatus job.body.type status)
  log : sh'.log = update sh.log r (sh.log r ++ .failed :: (sh.rank r).jobs.tail.map fun _ => .dropped)
  syncs : sh'.syncs = (sh.notify r (asyncStatus job.body.type status) (sh.rank r).jobs).syncs
  base : sh'.base = sh.base
  since : sh'.since = sh.since
  ran : sh'.ran = sh.ran
  released : sh'.released = sh.released

namespace Shared

variable {sh sh' : Shared} {r : RankId} {outcome : Outcome} {o : Owner} {next : Option Job}

theorem pops_of_advance (h : sh.advance r outcome o = some (sh', next)) :
    ∃ job rest, Pops sh r job rest outcome sh' := by
  unfold advance at h
  split at h
  · cases h
  · next a next' hadv =>
    obtain ⟨job, rest, hjobs, rfl, rfl⟩ := RankApi.advanceToNextJob_eq_some hadv
    cases h
    exact ⟨job, rest, hjobs, rfl, rfl, rfl, rfl, rfl, rfl, rfl⟩

theorem pops_of_requeueOther (h : sh.requeueOther r = some sh') : ∃ job rest, Pops sh r job rest .ok sh' := by
  obtain ⟨⟨sh₁, next⟩, hadv, rfl⟩ := Option.map_eq_some_iff.1 h
  obtain ⟨job, rest, hpops⟩ := pops_of_advance hadv
  exact ⟨job, rest, hpops.jobs, hpops.rank, hpops.log, hpops.syncs, hpops.base, hpops.since, hpops.ran, hpops.released⟩

/-- Only syncs are written. -/
theorem notify_eq (e : Status) (jobs : List Job) :
    sh.notify r e jobs = { sh with syncs := (sh.notify r e jobs).syncs } := by
  induction jobs generalizing sh with
  | nil => rfl
  | cons job rest ih =>
    rw [notify]
    split
    · next id hbody =>
      have hrest : ((sh.failSync id e).arrive id r).notify r e rest = _ := ih
      rw [hrest]
      rfl
    · exact ih

theorem drains_updateStatus (job : Job) (status : Status) : Drains sh r job status (sh.updateStatus r job status) := by
  unfold updateStatus
  dsimp only
  rw [notify_eq]
  exact ⟨rfl, rfl, rfl, rfl, rfl, rfl, rfl⟩

/-- What a rank is after a change to rank `r`, for a part of it that stays. -/
theorem setRank_field {α : Type} (f : RankApi → α) {a : RankApi} (ha : f a = f (sh.rank r)) (r' : RankId) :
    f ((sh.setRank r a).rank r') = f (sh.rank r') := by
  unfold setRank
  by_cases hr : r' = r
  · subst hr
    dsimp only
    rw [update_self, ha]
  · dsimp only
    rw [update_of_ne hr]

end Shared

/-! ## Workers -/

/-- The callback of a master job that a worker runs, until the master job is given back. -/
def WStage.callback : WStage → Option Nat
  | .detaching _ _ cb | .requeueing _ _ cb | .detached cb | .function _ _ cb => cb.master
  | .releasingDetached id | .lockAll _ _ id _ _ | .block _ _ id _ _ | .releasing _ _ id _ => some id
  | _ => none

inductive WorkerEffect (sh : Shared) (stage : WStage) (sh' : Shared) (stage' : WStage) : Prop
  | quiet (h : Quiet sh sh') (hcb : stage'.callback = stage.callback)
  /-- a job that counts for no sync starts -/
  | start (r : RankId) (job : Job) (hstage : stage = .run r job) (hticket : job.body.ticket = none)
      (h : Quiet (sh.start job.call r) sh') (hcb : stage'.callback = none)
  | sync (r : RankId) (job : Job) (id : Nat) (hstage : stage = .run r job) (hbody : job.body = .sync id)
      (h : Quiet ((sh.start job.call r).arrive id r) sh') (hcb : stage'.callback = none)
  | member (r : RankId) (job : Job) (id : Nat) (t : Sync) (hstage : stage = .run r job) (hbody : job.body = .member id)
      (ht : sh.syncs[id]? = some t) (hmaster : t.master.isSome = true)
      (h : Quiet ((sh.start job.call r).arrive id r) sh')
      (hcb : stage'.callback = if t.nrRanks = 1 then some id else none)
  | advance (r : RankId) (job : Job) (outcome : Outcome) (o : Owner) (next : Option Job)
      (hhold : stage.hold = some ⟨r, job, true⟩) (houtcome : outcome = .ok ∨ outcome = .detached)
      (h : sh.advance r outcome o = some (sh', next)) (hcb : stage'.callback = stage.callback)
  /-- a rank that waits for the callback goes on -/
  | putBack (r : RankId) (job : Job) (id : Nat) (other : RankId) (others : List RankId) (status : Status)
      (hstage : stage = .block r job id (other :: others) status) (h : sh.requeueOther other = some sh')
      (hstage' : stage' = .block r job id others status)
  | release (id : Nat) (m : Master) (hm : sh.masterOf id = some m) (h : sh' = sh.releaseMaster id m)
      (hcb : stage.callback = some id) (hcb' : stage'.callback = none)
  | fail (r : RankId) (job : Job) (status : Status) (hstage : stage = .next r job status) (hstatus : status ≠ 0)
      (h : sh' = sh.updateStatus r job status) (hstage' : stage' = .unlock r)

section

variable {sh sh' : Shared} {w : Tid} {q : Nat} {x : Status} {stage stage' : WStage} {r : RankId} {job : Job}

theorem computeJob_effect (hstep : computeJob sh w r job x = some (sh', stage')) :
    WorkerEffect sh (.run r job) sh' stage' := by
  unfold computeJob at hstep
  dsimp only at hstep
  split at hstep
  · next o hbody =>
    have hticket : job.body.ticket = none := by rw [hbody]; rfl
    split at hstep
    · cases hstep
      exact .start r job rfl hticket (.ofSetOwner (.unlockRank _ r _)) rfl
    · cases hstep
      exact .start r job rfl hticket (.setOwner _ r _) rfl
  · next id hbody =>
    cases hstep
    exact .sync r job id rfl hbody (.setOwner ((sh.start job.call r).arrive id r) r (.ran w)) rfl
  · next ranks isNonblocking hbody =>
    have hticket : job.body.ticket = none := by rw [hbody]; rfl
    split at hstep
    · cases hstep
      exact .start r job rfl hticket (.ofSetOwner (.unlockRank _ r _)) rfl
    · cases hstep
      exact .start r job rfl hticket (.ofSetOwner (.setCallbackTid _ ranks w)) rfl
  · next id hbody =>
    split at hstep
    · cases hstep
    next t ht =>
    split at hstep
    · cases hstep
    next m hm =>
    have hmaster : t.master.isSome = true := by rw [hm]; rfl
    have harrive : Quiet ((sh.start job.call r).arrive id r) (((sh.start job.call r).setOwner r (.ran w)).arrive id r) :=
      .setOwner ((sh.start job.call r).arrive id r) r (.ran w)
    split at hstep
    · next hone =>
      split at hstep
      · cases hstep
        exact .member r job id t rfl hbody ht hmaster (harrive.trans (.unlockRank _ r 1)) (if_pos hone).symm
      · cases hstep
        exact .member r job id t rfl hbody ht hmaster harrive (if_pos hone).symm
    · next hne =>
      split at hstep
      · cases hstep
        exact .member r job id t rfl hbody ht hmaster harrive (if_neg hne).symm
      · cases hstep
        exact .member r job id t rfl hbody ht hmaster ((harrive.trans (.unlockRank _ r 1)).trans (.setOwner _ r .parked))
          (if_neg hne).symm

theorem workerStep_effect (hstep : workerStep sh w q x stage = some (sh', stage')) :
    WorkerEffect sh stage sh' stage' := by
  unfold workerStep at hstep
  cases stage <;> dsimp only at hstep
  case idle =>
    split at hstep
    · cases hstep
    · next hq =>
      cases hstep
      exact .quiet (.pop hq) rfl
    · next job rest hq =>
      cases hstep
      exact .quiet ((Quiet.pop hq).trans (.setOwner _ job.rank (.taken w))) rfl
  case taken job =>
    obtain ⟨sh₁, hlock, heq⟩ := Option.map_eq_some_iff.1 hstep
    cases heq
    exact .quiet (.lockRank hlock) rfl
  case run r job => exact computeJob_effect hstep
  case polling r job =>
    obtain ⟨sh₁, hlock, heq⟩ := Option.map_eq_some_iff.1 hstep
    cases heq
    exact .quiet (.lockRank hlock) rfl
  case detaching r job cb =>
    obtain ⟨⟨sh₁, next⟩, hadv, heq⟩ := Option.map_eq_some_iff.1 hstep
    cases heq
    exact .advance r job .detached (.taken w) next rfl (.inr rfl) hadv rfl
  case requeueing r next cb =>
    cases hstep
    cases next with
    | none => exact .quiet (.refl sh) rfl
    | some job => exact .quiet ((Quiet.push sh _ job).trans (.setOwner _ r .queued)) rfl
  case detached cb =>
    split at hstep
    · next hnone =>
      cases hstep
      exact .quiet (.refl sh) hnone.symm
    · next id hid =>
      cases hstep
      exact .quiet (.refl sh) hid.symm
  case releasingDetached id =>
    obtain ⟨m, hm, heq⟩ := Option.map_eq_some_iff.1 hstep
    cases heq
    exact .release id m hm rfl rfl rfl
  case lockAll r job id ranks todo =>
    cases todo with
    | nil =>
      cases hstep
      exact .quiet (.setCallbackTid sh ranks w) rfl
    | cons r' todo =>
      obtain ⟨sh₁, hlock, heq⟩ := Option.map_eq_some_iff.1 hstep
      cases heq
      exact .quiet (.lockRank hlock) rfl
  case function r job cb =>
    split at hstep
    · next hnone =>
      cases hstep
      exact .quiet (.clearCallbackTid sh cb.ranks) hnone.symm
    · next id hid =>
      cases hstep
      exact .quiet ((Quiet.clearCallbackTid sh cb.ranks).trans (.unlockRanks _ cb.ranks)) hid.symm
  case block r job id others status =>
    cases others with
    | nil =>
      cases hstep
      exact .quiet (.refl sh) rfl
    | cons other others =>
      obtain ⟨sh₁, hother, heq⟩ := Option.map_eq_some_iff.1 hstep
      cases heq
      exact .putBack r job id other others status rfl hother rfl
  case releasing r job id status =>
    obtain ⟨m, hm, heq⟩ := Option.map_eq_some_iff.1 hstep
    cases heq
    exact .release id m hm rfl rfl rfl
  case next r job status =>
    split at hstep
    · next hne =>
      cases hstep
      exact .fail r job status rfl hne rfl rfl
    · obtain ⟨⟨sh₁, next⟩, hadv, heq⟩ := Option.map_eq_some_iff.1 hstep
      cases heq
      refine .advance r job .ok (.taken w) next rfl (.inl rfl) hadv ?_
      cases next with
      | none => rfl
      | some job' => rfl
  case unlock r =>
    cases hstep
    exact .quiet (.unlockRank sh r 1) rfl
  case crashed => cases hstep

end

/-! ## Calls -/

inductive CallEffect (sh : Shared) (i : Nat) (q : Request) (stage : Stage) (sh' : Shared) (stage' : Stage) : Prop
  | quiet (h : Quiet sh sh')
  /-- the calling thread starts its job itself -/
  | start (r : RankId) (body : Body) (hstage : stage = .inline r body) (h : Quiet (sh.start i r) sh')
  | sync (h : sh' = sh.newSync ⟨q.ranks.length, 0, none, q.ranks, [], i⟩) (hstage : stage = .begin)
      (hstage' : stage' = .second false (some sh.syncs.length))
  /-- slots are taken on a rank, not all yet, or given back -/
  | slots (r : RankId) (a : RankApi) (h : sh' = sh.setRank r a) (hjobs : a.jobs = (sh.rank r).jobs)
      (herror : a.jobError = (sh.rank r).jobError)
  | filled (fast : Bool) (id : Option Nat) (got : List RankSlots) (cur cur' : List Nat) (r : RankId) (todo : List RankId)
      (a : RankApi) (hstage : stage = .getting fast id got cur (r :: todo)) (h : sh' = (sh.setRank r a).see i r)
      (hjobs : a.jobs = (sh.rank r).jobs) (herror : a.jobError = 0) (hok : (sh.rank r).jobError = 0)
      (hstage' : stage' = .getting fast id (got ++ [(r, cur')]) [] todo)
  | master (r : RankId) (a : RankApi) (t : Sync) (got : List RankSlots) (h : sh' = (sh.setRank r a).newSync t)
      (hjobs : a.jobs = (sh.rank r).jobs) (herror : a.jobError = (sh.rank r).jobError) (hmaster : t.master.isSome = true)
      (hstage : stage = .mastering got) (hstage' : stage' = .doing false (some sh.syncs.length) (some got))
  | add (id : Option Nat) (r : RankId) (jobs : List Job) (todo : List (RankId × List Job)) (h : sh' = sh.addJobs r jobs)
      (hstage : stage = .adding id ((r, jobs) :: todo)) (hstage' : stage' = .adding id todo)
  | clear (status : Status) (r : RankId) (todo : List RankId) (hstage : stage = .clearing status (r :: todo))
      (h : sh' = { sh.setRank r { sh.rank r with jobError := 0 } with base := update sh.base r (sh.log r).length })

namespace RankApi

theorem getJobUnlocked_jobError {a a' : RankApi} {idx : Nat} (h : a.getJobUnlocked = .got idx a') :
    a'.jobError = a.jobError := by
  unfold getJobUnlocked at h
  split at h
  · cases h
  split at h
  · cases h
  · cases h
    rfl

theorem getMany_jobError (n : Nat) (a : RankApi) : (a.getMany n).2.jobError = a.jobError := by
  induction n generalizing a with
  | zero => rfl
  | succ n ih =>
    rw [getMany]
    split
    · next idx a' hround => exact (ih a').trans (getJobUnlocked_jobError hround)
    · rfl

theorem ungetJobs_jobError (a : RankApi) (slots : List (Option Nat)) : (a.ungetJobs slots).jobError = a.jobError := by
  induction slots generalizing a with
  | nil => rfl
  | cons slot rest ih =>
    cases slot with
    | none => exact ih a
    | some idx => exact ih { a with available := idx :: a.available, availableLength := a.availableLength + 1 }

end RankApi

section

variable {sh sh' : Shared} {i : Nat} {q : Request} {x : Status} {pick : RankId} {stage stage' : Stage}

theorem callStep_effect (hstep : callStep sh i q x pick stage = some (sh', stage')) :
    CallEffect sh i q stage sh' stage' := by
  cases stage
  case begin =>
    simp only [callStep] at hstep
    split at hstep
    · cases hstep
      exact .quiet (.refl sh)
    split at hstep
    · cases hstep
      exact .sync rfl rfl rfl
    · cases hstep
      exact .quiet (.refl sh)
  case second fast id =>
    simp only [callStep] at hstep
    split at hstep
    · cases hstep
      exact .quiet (.refl sh)
    · cases hstep
      exact .quiet (.refl sh)
  case getting fast id got cur todo =>
    cases todo with
    | nil =>
      simp only [callStep] at hstep
      split at hstep
      · cases hstep
        exact .quiet (.refl sh)
      split at hstep
      · cases hstep
        exact .quiet (.refl sh)
      · cases hstep
        exact .quiet (.refl sh)
    | cons r todo =>
      simp only [callStep] at hstep
      obtain ⟨hjobs, -⟩ := RankApi.getMany_jobs (q.nrJobs fast - cur.length) (sh.rank r)
      have herror := RankApi.getMany_jobError (q.nrJobs fast - cur.length) (sh.rank r)
      split at hstep
      · cases hstep
        exact .quiet (.refl sh)
      next hok =>
      have hok : (sh.rank r).jobError = 0 := by simpa using hok
      split at hstep
      · cases hstep
        exact .filled fast id got cur _ r todo _ rfl rfl hjobs (herror.trans hok) hok rfl
      · cases hstep
        exact .slots r _ rfl hjobs herror
  case ungetting status todo cur =>
    cases todo with
    | nil =>
      cases hstep
      exact .quiet (.refl sh)
    | cons g todo =>
      cases hstep
      exact .slots g.1 _ rfl (RankApi.ungetJobs_jobs _ _).1 (RankApi.ungetJobs_jobError _ _)
  case mastering got =>
    simp only [callStep] at hstep
    split at hstep
    · cases hstep
    rw [Option.ite_none_right_eq_some] at hstep
    obtain ⟨-, hstep⟩ := hstep
    split at hstep
    · cases hstep
      exact .quiet (.refl sh)
    · cases hstep
    · next idx a hround =>
      cases hstep
      exact .master pick a _ got rfl (RankApi.getJobUnlocked_jobs hround).1 (RankApi.getJobUnlocked_jobError hround) rfl
        rfl rfl
  case setting fast id got =>
    simp only [callStep] at hstep
    split at hstep
    · cases hstep
      exact .quiet (.refl sh)
    split at hstep
    · cases hstep
      exact .quiet (.refl sh)
    · cases hstep
      exact .quiet (.refl sh)
  case doing fast id got =>
    simp only [callStep] at hstep
    split at hstep
    · split at hstep
      · cases hstep
      · cases hstep
        exact .quiet (.refl sh)
    split at hstep
    · cases hstep
      exact .quiet (.refl sh)
    · cases hstep
      exact .quiet (.refl sh)
  case adding id todo =>
    cases todo with
    | nil =>
      cases id with
      | none =>
        cases hstep
        exact .quiet (.refl sh)
      | some id =>
        cases hstep
        exact .quiet (.refl sh)
    | cons e todo =>
      cases hstep
      exact .add id e.1 e.2 todo rfl rfl rfl
  case locking r body =>
    obtain ⟨sh₁, hlock, heq⟩ := Option.map_eq_some_iff.1 hstep
    cases heq
    exact .quiet (.lockRank hlock)
  case inline r body =>
    simp only [callStep] at hstep
    split at hstep
    · split at hstep
      · cases hstep
        exact .start r _ rfl (.unlockRank _ r _)
      · cases hstep
        exact .start r _ rfl (.unlockRank _ r _)
    · cases hstep
      exact .start r _ rfl (.setCallbackTid _ _ q.tid)
    · cases hstep
  case inlinePolling r =>
    obtain ⟨sh₁, hlock, heq⟩ := Option.map_eq_some_iff.1 hstep
    cases heq
    exact .quiet ((Quiet.lockRank hlock).trans (.unlockRank sh₁ r 1))
  case inlineFunction r ranks =>
    cases hstep
    exact .quiet ((Quiet.clearCallbackTid sh ranks).trans (.unlockRank _ r 1))
  case waiting id =>
    simp only [callStep] at hstep
    split at hstep
    · cases hstep
    rw [Option.ite_none_right_eq_some] at hstep
    obtain ⟨-, hstep⟩ := hstep
    cases hstep
    exact .quiet (.refl sh)
  case clearing status todo =>
    cases todo with
    | nil =>
      cases hstep
      exact .quiet (.refl sh)
    | cons r todo =>
      cases hstep
      exact .clear status r todo rfl rfl
  case done status => cases hstep
  case undefined => cases hstep

end

end DpuBackend.Jobs
