import DpuBackend.Jobs.Parking
import Mathlib.Algebra.BigOperators.Group.List.Basic

/-
  What holds in every state of the calls and the workers.

  Each step of a worker or of a call is one of the operations on `View`, or leaves it alone.
  `Inv` puts together what the operations keep (`Own`), what a worker knows of the job it
  has, and what a call knows of its slots and jobs.
-/

namespace DpuBackend.Jobs

open DpuBackend.Lib Function

/-! ## The view of the shared state -/

namespace Shared

def view (sh : Shared) : View where
  jobs r := (sh.rank r).jobs
  queueIdx r := (sh.rank r).queueIdx
  queue := sh.queue
  owner := sh.owner
  syncs := sh.syncs

variable {sh sh' : Shared} {r : RankId}

/-- A rank that keeps its queue. -/
theorem view_setRank {a : RankApi} (hidx : a.queueIdx = (sh.rank r).queueIdx) :
    (sh.setRank r a).view = sh.view.setJobs r a.jobs := by
  have hjobs : (fun r' => (update sh.rank r a r').jobs) = update (fun r' => (sh.rank r').jobs) r a.jobs := by
    funext r'
    by_cases hr : r' = r
    · rw [hr, update_self, update_self]
    · rw [update_of_ne hr, update_of_ne hr]
  have hqueue : (fun r' => (update sh.rank r a r').queueIdx) = fun r' => (sh.rank r').queueIdx := by
    funext r'
    by_cases hr : r' = r
    · rw [hr, update_self, hidx]
    · rw [update_of_ne hr]
  simp only [view, setRank, View.setJobs, hjobs, hqueue]

theorem view_setRank_same {a : RankApi} (hidx : a.queueIdx = (sh.rank r).queueIdx)
    (hjobs : a.jobs = (sh.rank r).jobs) : (sh.setRank r a).view = sh.view := by
  rw [view_setRank hidx, hjobs]
  exact congrArg (fun jobs => { sh.view with jobs := jobs }) (update_eq_self r sh.view.jobs)

@[simp] theorem view_start (call : Nat) : (sh.start call r).view = sh.view := rfl

@[simp] theorem view_see (call : Nat) : (sh.see call r).view = sh.view := rfl

@[simp] theorem view_record (outcomes : List Outcome) : (sh.record r outcomes).view = sh.view := rfl

@[simp] theorem view_setOwner (o : Owner) : (sh.setOwner r o).view = sh.view.setOwner r o := rfl

@[simp] theorem view_push (q : Nat) (job : Option Job) : (sh.push q job).view = sh.view.push q job := rfl

@[simp] theorem view_arrive (id : Nat) : (sh.arrive id r).view = sh.view.arrive id r := rfl

@[simp] theorem view_failSync (id : Nat) (e : Status) : (sh.failSync id e).view = sh.view.failSync id e := rfl

@[simp] theorem view_unlockRank (n : Nat) : (sh.unlockRank r n).view = sh.view := by
  unfold unlockRank
  split <;> rfl

@[simp] theorem view_unlockRanks (ranks : List RankId) : (sh.unlockRanks ranks).view = sh.view := by
  induction ranks generalizing sh with
  | nil => rfl
  | cons r rest ih => exact ih.trans (view_unlockRank 1)

theorem view_lockRank {t : Tid} {n : Nat} (h : sh.lockRank r t n = some sh') : sh'.view = sh.view := by
  unfold lockRank at h
  split at h
  · cases h
    rfl
  · split at h <;> cases h
    rfl

@[simp] theorem view_setCallbackTid (ranks : List RankId) (t : Tid) : (sh.setCallbackTid ranks t).view = sh.view := by
  have hjobs : ∀ r, (if r ∈ ranks then { sh.rank r with callbackTid := t, callbackTidSet := true }
      else sh.rank r).jobs = (sh.rank r).jobs := by
    intro r
    split <;> rfl
  have hidx : ∀ r, (if r ∈ ranks then { sh.rank r with callbackTid := t, callbackTidSet := true }
      else sh.rank r).queueIdx = (sh.rank r).queueIdx := by
    intro r
    split <;> rfl
  simp only [view, setCallbackTid, hjobs, hidx]

@[simp] theorem view_clearCallbackTid (ranks : List RankId) : (sh.clearCallbackTid ranks).view = sh.view := by
  have hjobs : ∀ r, (if r ∈ ranks then { sh.rank r with callbackTidSet := false }
      else sh.rank r).jobs = (sh.rank r).jobs := by
    intro r
    split <;> rfl
  have hidx : ∀ r, (if r ∈ ranks then { sh.rank r with callbackTidSet := false }
      else sh.rank r).queueIdx = (sh.rank r).queueIdx := by
    intro r
    split <;> rfl
  simp only [view, clearCallbackTid, hjobs, hidx]

@[simp] theorem view_releaseMaster (id : Nat) (m : Master) : (sh.releaseMaster id m).view = sh.view :=
  view_setRank_same (a := (sh.rank m.owner).releaseJobSlot m.idx) rfl rfl

@[simp] theorem view_notify (e : Status) (jobs : List Job) :
    (sh.notify r e jobs).view = sh.view.notify r e jobs := by
  induction jobs generalizing sh with
  | nil => rfl
  | cons job rest ih =>
    cases hbody : job.body with
    | sync id =>
      rw [notify, View.notify, hbody]
      exact ih
    | _ =>
      rw [notify, View.notify, hbody]
      exact ih

@[simp] theorem notify_rank (e : Status) (jobs : List Job) : (sh.notify r e jobs).rank = sh.rank := by
  induction jobs generalizing sh with
  | nil => rfl
  | cons job rest ih =>
    rw [notify]
    split
    · exact ih
    · exact ih

theorem view_advance {outcome : Outcome} {o : Owner} {next : Option Job}
    (h : sh.advance r outcome o = some (sh', next)) :
    sh'.view = sh.view.advance r o ∧ next = (sh.rank r).jobs.tail.head? := by
  unfold advance at h
  split at h
  · cases h
  next a next' hadv =>
  obtain ⟨job, rest, hjobs, rfl, rfl⟩ := RankApi.advanceToNextJob_eq_some hadv
  cases h
  refine ⟨?_, by rw [hjobs]; rfl⟩
  have hset : (sh.setRank r (({ sh.rank r with jobs := rest } : RankApi).releaseJobSlot job.idx)).view =
      sh.view.setJobs r rest := view_setRank rfl
  have htail : sh.view.jobs r = job :: rest := hjobs
  rw [view_setOwner, view_record, hset, View.advance, htail]
  cases rest <;> rfl

theorem view_requeueOther (h : sh.requeueOther r = some sh') :
    sh'.view = (sh.view.advance r .queued).push (sh.view.queueIdx r) (sh.view.jobs r).tail.head? := by
  obtain ⟨⟨sh₁, next⟩, hadv, rfl⟩ := Option.map_eq_some_iff.1 h
  obtain ⟨hview, hnext⟩ := view_advance hadv
  have hidx : (sh₁.rank r).queueIdx = sh.view.queueIdx r := congrFun (congrArg View.queueIdx hview) r
  simp only [view_push, hview, hidx, hnext]
  rfl

theorem view_addJobs (jobs : List Job) : (sh.addJobs r jobs).view = sh.view.addJobs r jobs := by
  unfold addJobs View.addJobs
  have hset : (sh.setRank r { sh.rank r with jobs := (sh.rank r).jobs ++ jobs }).view =
      sh.view.setJobs r ((sh.rank r).jobs ++ jobs) := view_setRank rfl
  by_cases hempty : (sh.rank r).jobs = []
  · have hempty' : sh.view.jobs r = [] := hempty
    rw [hempty, List.nil_append] at hset
    rw [if_pos hempty, if_pos hempty', view_setOwner, view_push, hempty, List.nil_append, hset]
    rfl
  · have hempty' : sh.view.jobs r ≠ [] := hempty
    rw [if_neg hempty, if_neg hempty', hset]
    rfl

theorem releaseAll_jobs (a : RankApi) (jobs : List Job) :
    (a.releaseAll jobs).jobs = a.jobs ∧ (a.releaseAll jobs).queueIdx = a.queueIdx := by
  induction jobs generalizing a with
  | nil => exact ⟨rfl, rfl⟩
  | cons job rest ih => exact ih (a.releaseJobSlot job.idx)

theorem view_updateStatus (job : Job) (status : Status) :
    (sh.updateStatus r job status).view =
      ((sh.view.notify r (asyncStatus job.body.type status) (sh.view.jobs r)).setJobs r []).setOwner r .idle := by
  obtain ⟨hjobs, hidx⟩ := releaseAll_jobs
    { sh.rank r with jobs := [], jobError := asyncStatus job.body.type status } (sh.rank r).jobs
  have hset : ((sh.notify r (asyncStatus job.body.type status) (sh.rank r).jobs).setRank r
      ((sh.rank r).updateStatus job.body.type status)).view = _ := view_setRank (by rw [notify_rank]; exact hidx)
  have hnil : ((sh.rank r).updateStatus job.body.type status).jobs = [] := hjobs
  rw [hnil, view_notify] at hset
  simp only [updateStatus, view_setOwner, view_record, hset]
  rfl

end Shared

/-! ## Workers -/

namespace WStage

/-- The rank and the first job a worker has at a stage. -/
def hold : WStage → Option Hold
  | .taken job => some ⟨job.rank, job, false⟩
  | .run r job => some ⟨r, job, false⟩
  | .polling r job | .detaching r job _ | .lockAll r job _ _ _ | .function r job _ | .block r job _ _ _
  | .releasing r job _ _ | .next r job _ => some ⟨r, job, true⟩
  | .requeueing r job _ => job.map fun job => ⟨r, job, false⟩
  | .idle | .detached _ | .releasingDetached _ | .unlock _ | .crashed => none

/-- The blocking callback of a master job that the worker runs, for as long as ranks are parked at it. -/
def fired : WStage → Option Fired
  | .lockAll r _ id ranks _ => some ⟨r, id, ranks.filter (· ≠ r)⟩
  | .function r _ cb => cb.master.map fun id => ⟨r, id, cb.ranks.filter (· ≠ r)⟩
  | .block r _ id others _ => some ⟨r, id, others⟩
  | _ => none

/-- A job that can fail is no sync job. -/
def Ok : WStage → Prop
  | .polling _ job | .lockAll _ job _ _ _ | .function _ job _ | .block _ job _ _ _ | .releasing _ job _ _ =>
    ∀ id, job.body ≠ .sync id
  | .next _ job status => status ≠ 0 → ∀ id, job.body ≠ .sync id
  | _ => True

end WStage

theorem update_eq_of_eq {α : Type} {f : Tid → Option α} {w : Tid} {x : Option α} (h : f w = x) : update f w x = f := by
  rw [← h, update_eq_self]

section

variable {hold : Tid → Option Hold} {fired : Tid → Option Fired} {tk : Ticket → RankId → Nat} {sh sh' : Shared}
  {w : Tid} {q : Nat} {x : Status} {stage stage' : WStage} {r : RankId} {job : Job}

/-- The worker goes on with the rank it has, or with none as before. -/
theorem Own.goOn {v v' : View} (h : Own v hold fired tk) (hview : v' = v) (hhold : hold w = stage'.hold)
    (hfired : stage'.fired = none ∨ stage'.fired = fired w) :
    Own v' (update hold w stage'.hold) (update fired w stage'.fired) tk := by
  rw [hview, update_eq_of_eq hhold]
  refine h.mono (fun _ _ => Nat.le_refl _) fun w' f hf => ?_
  by_cases hww : w' = w
  · subst hww
    rw [update_self] at hf
    rcases hfired with hnone | hsame
    · rw [hnone] at hf
      cases hf
    · rw [← hsame, hf]
  · rwa [update_of_ne hww] at hf

theorem Own.unfired {v : View} (h : Own v hold fired tk) (hf : fired w = none) (hnone : stage'.fired = none) :
    Own v hold (update fired w stage'.fired) tk := by
  rw [hnone, update_eq_of_eq hf]
  exact h

/-- The sync that a pending job counts on. -/
theorem Own.not_blocking {v : View} {hd : Hold} (h : Own v hold fired tk) (hw : hold w = some hd)
    (hc : hd.counted = false) {id : Nat} (hk : hd.job.body = .sync id) {t : Sync} (ht : v.syncs[id]? = some t) :
    ¬ t.Blocking := by
  have hpos : 0 < v.pending tk (id, false) hd.rank := h.pending_pos hw hc (by rw [hk]; rfl)
  obtain ⟨t', ht', hopen⟩ := h.seats.exists_open hpos
  rw [ht, Option.some.injEq] at ht'
  subst ht'
  rintro ⟨m, hm, -⟩
  have hmaster := hopen.1
  rw [hm] at hmaster
  cases hmaster

theorem computeJob_own (h : Own sh.view hold fired tk) (hw : hold w = some ⟨r, job, false⟩) (hf : fired w = none)
    (hstep : computeJob sh w r job x = some (sh', stage')) :
    Own sh'.view (update hold w stage'.hold) (update fired w stage'.fired) tk ∧ stage'.Ok := by
  have hcount := h.count hw rfl hf
  unfold computeJob at hstep
  dsimp only at hstep
  split at hstep
  · next o hbody =>
    have hok : ∀ id, job.body ≠ .sync id := by rw [hbody]; nofun
    split at hstep
    · cases hstep
      rw [Shared.view_unlockRank]
      exact ⟨hcount.unfired hf rfl, hok⟩
    · cases hstep
      exact ⟨hcount.unfired hf rfl, fun _ => hok⟩
  · next id hbody =>
    cases hstep
    have harrive := h.arrive hw rfl hf (k := (id, false)) (by rw [hbody]; rfl) fun t ht => h.not_blocking hw rfl hbody ht
    exact ⟨harrive.unfired hf rfl, fun hz => absurd rfl hz⟩
  · next ranks isNonblocking hbody =>
    have hok : ∀ id, job.body ≠ .sync id := by rw [hbody]; nofun
    split at hstep
    · cases hstep
      rw [Shared.view_unlockRank]
      exact ⟨hcount.unfired hf rfl, trivial⟩
    · cases hstep
      rw [Shared.view_setCallbackTid]
      exact ⟨hcount.unfired hf rfl, hok⟩
  · next id hbody =>
    have hok : ∀ id, job.body ≠ .sync id := by rw [hbody]; nofun
    have hticket : job.body.ticket = some (id, true) := by rw [hbody]; rfl
    split at hstep
    · cases hstep
    next t ht =>
    change sh.view.syncs[id]? = some t at ht
    split at hstep
    · cases hstep
    next m hm =>
    have harrive (hnb : m.isNonblocking = true) := h.arrive hw rfl hf (k := (id, true)) hticket (by
      rintro t' ht' ⟨m', hm', hblock⟩
      rw [ht, Option.some.injEq] at ht'
      rw [← ht', hm, Option.some.injEq] at hm'
      rw [← hm', hnb] at hblock
      cases hblock)
    split at hstep
    · next hone =>
      split at hstep
      · next hnb =>
        cases hstep
        rw [Shared.view_unlockRank]
        exact ⟨(harrive hnb).unfired hf rfl, trivial⟩
      · next hb =>
        cases hstep
        exact ⟨h.fire hw rfl hf hbody ht ⟨m, hm, by simpa using hb⟩ hone, hok⟩
    · split at hstep
      · next hnb =>
        cases hstep
        exact ⟨(harrive hnb).unfired hf rfl, fun hz => absurd rfl hz⟩
      · cases hstep
        have hpark := h.park hw rfl hf hbody
        refine ⟨?_, trivial⟩
        rw [Shared.view_setOwner, Shared.view_unlockRank]
        have hview : (((sh.start job.call r).setOwner r (.ran w)).arrive id r).view.setOwner r .parked =
            (sh.view.arrive id r).setOwner r .parked := by
          simp [View.setOwner, View.arrive]
        rw [hview]
        exact hpark.unfired hf rfl

/-- What `dpu_thread_advance_to_next_job` makes of the rank of a worker whose job is counted. -/
theorem Own.advanced (h : Own sh.view hold fired tk) (hw : hold w = some ⟨r, job, true⟩) (hf : fired w = none)
    {outcome : Outcome} {next : Option Job} (hadv : sh.advance r outcome (.taken w) = some (sh', next)) :
    Own sh'.view (update hold w (next.map fun job => ⟨r, job, false⟩)) fired tk := by
  obtain ⟨hview, rfl⟩ := Shared.view_advance hadv
  rw [hview]
  exact h.advance hw rfl hf

theorem workerStep_own (h : Own sh.view hold fired tk) (hw : hold w = stage.hold) (hf : fired w = stage.fired)
    (hok : stage.Ok) (hstep : workerStep sh w q x stage = some (sh', stage')) :
    Own sh'.view (update hold w stage'.hold) (update fired w stage'.fired) tk ∧ stage'.Ok := by
  unfold workerStep at hstep
  cases stage <;> dsimp only at hstep
  case idle =>
    split at hstep
    · cases hstep
    · next rest hq =>
      cases hstep
      have hrest : Own (sh.view.setQueue q rest) hold fired tk := h.setQueue (by
        change rest.Sublist (sh.queue q)
        rw [hq]
        exact List.sublist_cons_self _ _)
      exact ⟨hrest.goOn rfl hw (.inl rfl), trivial⟩
    · next job rest hq =>
      cases hstep
      exact ⟨(h.take hq hw hf).unfired hf rfl, trivial⟩
  case taken job =>
    obtain ⟨sh₁, hlock, heq⟩ := Option.map_eq_some_iff.1 hstep
    cases heq
    exact ⟨h.goOn (Shared.view_lockRank hlock) hw (.inl rfl), trivial⟩
  case run r job => exact computeJob_own h hw hf hstep
  case polling r job =>
    obtain ⟨sh₁, hlock, heq⟩ := Option.map_eq_some_iff.1 hstep
    cases heq
    exact ⟨h.goOn (Shared.view_lockRank hlock) hw (.inl rfl), fun _ => hok⟩
  case detaching r job cb =>
    obtain ⟨⟨sh₁, next⟩, hadv, heq⟩ := Option.map_eq_some_iff.1 hstep
    cases heq
    exact ⟨(h.advanced hw hf hadv).unfired hf rfl, trivial⟩
  case requeueing r next cb =>
    cases hstep
    cases next with
    | none => exact ⟨h.goOn rfl hw (.inl rfl), trivial⟩
    | some job => exact ⟨(h.requeue hw rfl hf).unfired hf rfl, trivial⟩
  case detached cb =>
    split at hstep
    · cases hstep
      exact ⟨h.goOn rfl hw (.inl rfl), trivial⟩
    · cases hstep
      exact ⟨h.goOn rfl hw (.inl rfl), trivial⟩
  case releasingDetached id =>
    obtain ⟨m, -, heq⟩ := Option.map_eq_some_iff.1 hstep
    cases heq
    exact ⟨h.goOn (Shared.view_releaseMaster _ m) hw (.inl rfl), trivial⟩
  case lockAll r job id ranks todo =>
    cases todo with
    | nil =>
      cases hstep
      exact ⟨h.goOn (Shared.view_setCallbackTid ranks w) hw (.inr hf.symm), hok⟩
    | cons r' todo =>
      obtain ⟨sh₁, hlock, heq⟩ := Option.map_eq_some_iff.1 hstep
      cases heq
      exact ⟨h.goOn (Shared.view_lockRank hlock) hw (.inr hf.symm), hok⟩
  case function r job cb =>
    split at hstep
    · cases hstep
      exact ⟨h.goOn (Shared.view_clearCallbackTid cb.ranks) hw (.inl rfl), fun _ => hok⟩
    · next id hid =>
      cases hstep
      refine ⟨h.goOn ?_ hw (.inr ?_), hok⟩
      · rw [Shared.view_unlockRanks, Shared.view_clearCallbackTid]
      · rw [hf, WStage.fired, hid]
        rfl
  case block r job id others status =>
    cases others with
    | nil =>
      cases hstep
      exact ⟨h.goOn rfl hw (.inl rfl), hok⟩
    | cons other others =>
      obtain ⟨sh₁, hother, heq⟩ := Option.map_eq_some_iff.1 hstep
      cases heq
      refine ⟨?_, hok⟩
      have hsame : update hold w (WStage.block r job id others status).hold = hold := update_eq_of_eq hw
      rw [Shared.view_requeueOther hother, hsame]
      exact h.unpark hf rfl
  case releasing r job id status =>
    obtain ⟨m, -, heq⟩ := Option.map_eq_some_iff.1 hstep
    cases heq
    exact ⟨h.goOn (Shared.view_releaseMaster _ m) hw (.inl rfl), fun _ => hok⟩
  case next r job status =>
    split at hstep
    · next hne =>
      cases hstep
      rw [Shared.view_updateStatus]
      exact ⟨(h.drain hw rfl hf (hok hne) _).unfired hf rfl, trivial⟩
    · obtain ⟨⟨sh₁, next⟩, hadv, heq⟩ := Option.map_eq_some_iff.1 hstep
      cases heq
      have hadvanced := h.advanced hw hf hadv
      cases next with
      | none => exact ⟨hadvanced.unfired hf rfl, trivial⟩
      | some job' => exact ⟨hadvanced.unfired hf rfl, trivial⟩
  case unlock r =>
    cases hstep
    exact ⟨h.goOn (Shared.view_unlockRank 1) hw (.inl rfl), trivial⟩
  case crashed => cases hstep

end

/-! ## Calls -/

/-- A call has been to the ranks of `got`, and has all slots of each. -/
structure Filled (q : Request) (fast : Bool) (got : List RankSlots) (todo : List RankId) : Prop where
  ranks : got.map (·.1) ++ todo = q.ranks
  slots : ∀ g ∈ got, g.2.length = q.nrJobs fast

/-- Jobs that call `i` has filled for a rank. -/
structure Added (i : Nat) (e : RankId × List Job) : Prop where
  ne_nil : e.2 ≠ []
  rank : ∀ job ∈ e.2, job.rank = e.1
  call : ∀ job ∈ e.2, job.call = i

namespace Stage

/-- The jobs for a sync that a call has, or is to fill. -/
def tickets (q : Request) (k : Ticket) (r : RankId) : Stage → Nat
  | .second _ (some id) | .getting _ (some id) _ _ _ | .setting _ (some id) _ | .doing _ (some id) _ =>
    if k = (id, q.master.isSome) ∧ r ∈ q.ranks then 1 else 0
  | .adding _ todo => ticketsIn k ((todo.filter (·.1 = r)).flatMap (·.2))
  | _ => 0

def Ok (i : Nat) (q : Request) : Stage → Prop
  | .second fast id => (fast = true → q.boolSync = true) ∧ (fast = false → id.isSome = q.synchronous)
  | .getting fast id got _ todo =>
    (fast = true → q.boolSync = true) ∧ (fast = false → id.isSome = q.synchronous) ∧ Filled q fast got todo
  | .mastering got => q.boolSync = false ∧ Filled q false got []
  | .setting fast id got =>
    q.boolSync = true ∧ (fast = false → id.isSome = q.synchronous) ∧ ∀ g, got = some g → Filled q fast g []
  | .doing fast id got =>
    fast = false → id.isSome = (q.synchronous || q.master.isSome) ∧ ∀ g, got = some g → Filled q false g []
  | .adding _ todo => ∀ e ∈ todo, Added i e
  | _ => True

end Stage

namespace Request

variable {q : Request}

theorem ranks_nodup (q : Request) : q.ranks.Nodup := by
  unfold ranks
  split
  · exact q.nodup.sublist (List.take_sublist 1 q.set)
  · exact q.nodup

theorem synchronous_of_boolSync (h : q.boolSync = true) : q.synchronous = true := by
  unfold synchronous
  split
  · rfl
  · exact h

/-- A call that waits for its jobs has no master job. -/
theorem master_of_synchronous (h : q.synchronous = true) : q.master = none := by
  unfold synchronous boolSync at h
  unfold master
  cases hkind : q.kind <;> simp_all

theorem inCallback_boolSync {sh : Shared} (h : q.inCallback sh = true) : q.boolSync = true := by
  rw [inCallback, Bool.and_assoc, Bool.and_eq_true] at h
  exact h.1

theorem nrJobs_of_not_boolSync (h : q.boolSync = false) (fast : Bool) : q.nrJobs fast = 1 := by
  rw [nrJobs, h]
  rfl

/-- The slots of a call that has found no callback: two where it is synchronous, but for `dpu_sync`. -/
theorem nrJobs_false : q.nrJobs false = if q.boolSync then 2 else 1 := by simp [nrJobs]

end Request

section

variable {q : Request} {i : Nat} {id : Option Nat} {r : RankId} {k : Ticket}

/-- Of the jobs a call fills for a rank one is for its sync, or for its master job. -/
theorem ticketsIn_fill {slots : List Nat} (hid : id.isSome = (q.synchronous || q.master.isSome))
    (hlen : slots.length = q.nrJobs false) :
    ticketsIn k (fill i r (q.body (id.getD 0) r) (id.getD 0) slots) =
      id.elim 0 fun id => if k = (id, q.master.isSome) then 1 else 0 := by
  rw [Request.nrJobs_false] at hlen
  by_cases hsync : q.boolSync = true
  · have hwaits := Request.synchronous_of_boolSync hsync
    have hmaster := Request.master_of_synchronous hwaits
    rw [if_pos hsync] at hlen
    rw [hwaits, Bool.true_or] at hid
    obtain ⟨id, rfl⟩ := Option.isSome_iff_exists.1 hid
    obtain ⟨a, b, rfl⟩ := List.length_eq_two.1 hlen
    have hbody : (q.body id r).ticket = none := by
      unfold Request.boolSync at hsync
      unfold Request.body
      cases hkind : q.kind <;> simp_all [Body.ticket]
    simp [fill, ticketsIn_cons, hbody, hmaster, Body.ticket_sync, eq_comm (a := k)]
  · rw [if_neg hsync] at hlen
    obtain ⟨a, rfl⟩ := List.length_eq_one_iff.1 hlen
    rw [fill, List.map_nil, ticketsIn_cons, ticketsIn_nil, Nat.zero_add]
    unfold Request.boolSync at hsync
    unfold Request.synchronous Request.boolSync at hid
    unfold Request.body
    cases hkind : q.kind with
    | sync =>
      have hmaster : q.master = none := by simp [Request.master, hkind]
      rw [hkind] at hid
      obtain ⟨id, rfl⟩ := Option.isSome_iff_exists.1 hid
      simp [hmaster, Body.ticket, eq_comm (a := k)]
    | op o synchronous =>
      have hmaster : q.master = none := by simp [Request.master, hkind]
      rw [hkind] at hid hsync
      simp only [hmaster, Option.isSome_none, Bool.or_false] at hid
      cases id with
      | none => simp [Body.ticket]
      | some id => exact absurd hid.symm hsync
    | callback isSingleCall => simp [hkind] at hsync
    | callbackAsync isNonblocking isSingleCall =>
      rw [hkind] at hid
      simp only [Bool.false_or] at hid
      cases id with
      | none => simp [← hid, Body.ticket]
      | some id =>
        simp [← hid, Body.ticket, eq_comm (a := k)]

theorem fill_added {slots : List Nat} (hlen : slots.length = q.nrJobs false) {body : Body} {id : Nat} :
    Added i (r, fill i r body id slots) := by
  have hpos : slots ≠ [] := by
    rintro rfl
    rw [Request.nrJobs_false, List.length_nil] at hlen
    split at hlen <;> cases hlen
  obtain ⟨idx, rest, rfl⟩ := List.exists_cons_of_ne_nil hpos
  refine ⟨nofun, ?_, ?_⟩
  · simp only [fill, List.mem_cons, List.mem_map]
    rintro job (rfl | ⟨idx', -, rfl⟩) <;> rfl
  · simp only [fill, List.mem_cons, List.mem_map]
    rintro job (rfl | ⟨idx', -, rfl⟩) <;> rfl

/-- Over all ranks of a call, one for each. -/
theorem ticketsIn_filled {got : List RankSlots} {f : RankSlots → List Job} {n : Nat} (hnodup : (got.map (·.1)).Nodup)
    (hn : ∀ g ∈ got, ticketsIn k (f g) = n) :
    ticketsIn k (((got.map fun g => (g.1, f g)).filter (·.1 = r)).flatMap (·.2)) =
      if r ∈ got.map (·.1) then n else 0 := by
  induction got with
  | nil => rfl
  | cons g rest ih =>
    rw [List.map_cons, List.nodup_cons] at hnodup
    have hrest := ih hnodup.2 fun g hg => hn g (List.mem_cons_of_mem _ hg)
    have hg := hn g List.mem_cons_self
    by_cases hr : g.1 = r
    · subst hr
      rw [if_neg hnodup.1] at hrest
      simp [ticketsIn_append, hrest, hg]
    · have hmem : r ∈ (g :: rest).map (·.1) ↔ r ∈ rest.map (·.1) := by simp [Ne.symm hr]
      simp only [hmem]
      rw [← hrest]
      simp [hr]

end

/-! ## The steps of a call -/

namespace RankApi

theorem getJobUnlocked_jobs {a a' : RankApi} {idx : Nat} (h : a.getJobUnlocked = .got idx a') :
    a'.jobs = a.jobs ∧ a'.queueIdx = a.queueIdx := by
  unfold getJobUnlocked at h
  split at h
  · cases h
  split at h
  · cases h
  · cases h
    exact ⟨rfl, rfl⟩

/-- Taking slots leaves the FIFO alone. -/
theorem getMany_jobs (n : Nat) (a : RankApi) : (a.getMany n).2.jobs = a.jobs ∧ (a.getMany n).2.queueIdx = a.queueIdx := by
  induction n generalizing a with
  | zero => exact ⟨rfl, rfl⟩
  | succ n ih =>
    rw [getMany]
    split
    · next idx a' hround =>
      obtain ⟨hjobs, hidx⟩ := getJobUnlocked_jobs hround
      exact ⟨(ih a').1.trans hjobs, (ih a').2.trans hidx⟩
    · exact ⟨rfl, rfl⟩

theorem ungetJobs_jobs (a : RankApi) (slots : List (Option Nat)) :
    (a.ungetJobs slots).jobs = a.jobs ∧ (a.ungetJobs slots).queueIdx = a.queueIdx := by
  induction slots generalizing a with
  | nil => exact ⟨rfl, rfl⟩
  | cons slot rest ih =>
    cases slot with
    | none => exact ih a
    | some idx => exact ih { a with available := idx :: a.available, availableLength := a.availableLength + 1 }

end RankApi

section

variable {hold : Tid → Option Hold} {fired : Tid → Option Fired} {tk : Ticket → RankId → Nat} {sh sh' : Shared}
  (tk' : Ticket → RankId → Nat) {i : Nat} {q : Request} {x : Status} {pick : RankId} {stage stage' : Stage}

/-- A step of a call that is none of a FIFO. -/
theorem Own.callGoOn {v v' : View} (h : Own v hold fired tk) (hview : v' = v)
    (htk : ∀ k r, tk' k r + stage.tickets q k r = tk k r + stage'.tickets q k r)
    (hle : ∀ k r, stage'.tickets q k r ≤ stage.tickets q k r) : Own v' hold fired tk' := by
  rw [hview]
  refine h.mono (fun k r => ?_) fun _ _ hf => hf
  have := htk k r
  have := hle k r
  omega

theorem callStep_own (h : Own sh.view hold fired tk) (hok : stage.Ok i q)
    (hstep : callStep sh i q x pick stage = some (sh', stage'))
    (htk : ∀ k r, tk' k r + stage.tickets q k r = tk k r + stage'.tickets q k r) :
    Own sh'.view hold fired tk' ∧ stage'.Ok i q := by
  cases stage
  case begin =>
    simp only [callStep] at hstep
    split at hstep
    · next hin =>
      cases hstep
      exact ⟨h.callGoOn tk' rfl htk fun _ _ => Nat.le_refl _, fun _ => Request.inCallback_boolSync hin, nofun⟩
    split at hstep
    · next hsync =>
      cases hstep
      refine ⟨?_, nofun, fun _ => hsync.symm⟩
      refine h.newSync rfl q.ranks_nodup rfl fun k r => ?_
      have := htk k r
      rw [Stage.tickets, Request.master_of_synchronous hsync] at this
      exact le_of_eq this
    · next hsync =>
      cases hstep
      exact ⟨h.callGoOn tk' rfl htk fun _ _ => Nat.le_refl _, nofun, fun _ => by simpa using hsync⟩
  case second fast id =>
    simp only [callStep] at hstep
    split at hstep
    · next hin =>
      cases hstep
      refine ⟨h.callGoOn tk' rfl htk fun _ _ => ?_, Request.inCallback_boolSync hin, hok.2, nofun⟩
      cases id <;> exact Nat.le_refl _
    · cases hstep
      refine ⟨h.callGoOn tk' rfl htk fun _ _ => ?_, hok.1, hok.2, rfl, nofun⟩
      cases id <;> exact Nat.le_refl _
  case getting fast id got cur todo =>
    obtain ⟨hfast, hid, hfilled⟩ := hok
    cases todo with
    | nil =>
      simp only [callStep] at hstep
      -- all ranks have given their slots: a master slot comes next, or the sync, or the jobs are filled
      split at hstep
      · next hmaster =>
        cases hstep
        have hsync : q.boolSync = false := by
          by_contra hsync
          rw [Request.master_of_synchronous (Request.synchronous_of_boolSync (by simpa using hsync))] at hmaster
          cases hmaster
        refine ⟨h.callGoOn tk' rfl htk fun _ _ => Nat.zero_le _, hsync, hfilled.ranks, ?_⟩
        rw [Request.nrJobs_of_not_boolSync hsync, ← Request.nrJobs_of_not_boolSync hsync fast]
        exact hfilled.slots
      split at hstep
      · next hsync =>
        cases hstep
        refine ⟨h.callGoOn tk' rfl htk fun _ _ => ?_, hsync, hid, ?_⟩
        · cases id <;> exact Nat.le_refl _
        · rintro g ⟨⟩
          exact hfilled
      · next hmaster _ =>
        cases hstep
        refine ⟨h.callGoOn tk' rfl htk fun _ _ => ?_, fun hf => ⟨?_, ?_⟩⟩
        · cases id <;> exact Nat.le_refl _
        · rw [hid hf, Bool.eq_false_iff.2 hmaster, Bool.or_false]
        · rintro g ⟨⟩
          exact hf ▸ hfilled
    | cons r todo =>
      simp only [callStep] at hstep
      obtain ⟨hjobs, hidx⟩ := RankApi.getMany_jobs (q.nrJobs fast - cur.length) (sh.rank r)
      split at hstep
      · cases hstep
        exact ⟨h.callGoOn tk' rfl htk fun _ _ => Nat.zero_le _, trivial⟩
      split at hstep
      · next hlen =>
        cases hstep
        have hsame := Shared.view_setRank_same hidx hjobs
        refine ⟨h.callGoOn tk' ((Shared.view_see i).trans hsame) htk fun _ _ => ?_, hfast, hid, ?_, ?_⟩
        · cases id <;> exact Nat.le_refl _
        · rw [List.map_append, List.append_assoc]
          exact hfilled.ranks
        · intro g hg
          rcases List.mem_append.1 hg with hg | hg
          · exact hfilled.slots g hg
          · rw [List.mem_singleton.1 hg]
            exact hlen
      · cases hstep
        refine ⟨h.callGoOn tk' (Shared.view_setRank_same hidx hjobs) htk fun _ _ => ?_, hfast, hid, hfilled⟩
        cases id <;> exact Nat.le_refl _
  case ungetting status todo cur =>
    cases todo with
    | nil =>
      cases hstep
      exact ⟨h.callGoOn tk' rfl htk fun _ _ => Nat.le_refl _, trivial⟩
    | cons g todo =>
      cases hstep
      obtain ⟨hjobs, hidx⟩ := RankApi.ungetJobs_jobs (sh.rank g.1) (g.2.map some)
      exact ⟨h.callGoOn tk' (Shared.view_setRank_same hidx hjobs) htk fun _ _ => Nat.le_refl _, trivial⟩
  case mastering got =>
    simp only [callStep] at hstep
    split at hstep
    · cases hstep
    next isNonblocking hmaster =>
    rw [Option.ite_none_right_eq_some] at hstep
    obtain ⟨-, hstep⟩ := hstep
    split at hstep
    · cases hstep
      exact ⟨h.callGoOn tk' rfl htk fun _ _ => Nat.le_refl _, trivial⟩
    · cases hstep
    · next idx a hround =>
      cases hstep
      obtain ⟨hjobs, hidx⟩ := RankApi.getJobUnlocked_jobs hround
      have hsame : (sh.setRank pick a).view = sh.view := Shared.view_setRank_same hidx hjobs
      have hview : ((sh.setRank pick a).newSync
          ⟨q.ranks.length, 0, some ⟨pick, idx, isNonblocking⟩, q.ranks, [], i⟩).view =
          { sh.view with
            syncs := sh.view.syncs ++ [⟨q.ranks.length, 0, some ⟨pick, idx, isNonblocking⟩, q.ranks, [], i⟩] } := by
        rw [← hsame]
        rfl
      rw [hview]
      refine ⟨h.newSync rfl q.ranks_nodup rfl fun k r => ?_, fun _ => ⟨?_, ?_⟩⟩
      · have := htk k r
        simp only [Stage.tickets, hmaster] at this
        exact le_of_eq this
      · simp [hmaster]
      · rintro g ⟨⟩
        exact hok.2
  case setting fast id got =>
    simp only [callStep] at hstep
    split at hstep
    · cases hstep
      refine ⟨h.callGoOn tk' rfl htk fun _ _ => ?_, nofun⟩
      cases id <;> exact Nat.le_refl _
    split at hstep
    · cases hstep
      exact ⟨h.callGoOn tk' rfl htk fun _ _ => Nat.zero_le _, trivial⟩
    · next hslots =>
      cases hstep
      have hfast : fast = false := by
        by_contra hne
        simp [hne] at hslots
      have hsync := Request.synchronous_of_boolSync hok.1
      refine ⟨h.callGoOn tk' rfl htk fun _ _ => ?_, fun _ => ⟨?_, ?_⟩⟩
      · cases id <;> exact Nat.le_refl _
      · rw [hok.2.1 hfast, hsync, Bool.true_or]
      · exact hfast ▸ hok.2.2
  case doing fast id got =>
    simp only [callStep] at hstep
    split at hstep
    · split at hstep
      · cases hstep
      · cases hstep
        exact ⟨h.callGoOn tk' rfl htk fun _ _ => Nat.zero_le _, trivial⟩
    split at hstep
    · next fast got =>
      cases hstep
      obtain ⟨hid, hfilled⟩ := hok rfl
      obtain ⟨hranks, hslots⟩ := hfilled got rfl
      rw [List.append_nil] at hranks
      -- the slots that were taken become the jobs of the call, one for its sync on each rank
      refine ⟨h.callGoOn tk' rfl htk fun k r => le_of_eq ?_, ?_⟩
      · have hnodup : (got.map (·.1)).Nodup := hranks ▸ q.ranks_nodup
        have hfill := ticketsIn_filled (k := k) (r := r) hnodup fun g hg =>
          ticketsIn_fill (i := i) (k := k) (r := g.1) hid (hslots g hg)
        rw [hranks] at hfill
        rw [Stage.tickets, hfill]
        cases id with
        | none => simp [Stage.tickets]
        | some id =>
          simp only [Stage.tickets, Option.elim_some]
          by_cases hr : r ∈ q.ranks <;> simp [hr]
      · intro e he
        obtain ⟨g, hg, rfl⟩ := List.mem_map.1 he
        exact fill_added (hslots g hg)
    · cases hstep
      exact ⟨h.callGoOn tk' rfl htk fun _ _ => Nat.zero_le _, trivial⟩
  case adding id todo =>
    cases todo with
    | nil =>
      cases id with
      | none =>
        cases hstep
        exact ⟨h.callGoOn tk' rfl htk fun _ _ => Nat.le_refl _, trivial⟩
      | some id =>
        simp only [callStep] at hstep
        split at hstep
        · cases hstep
          exact ⟨h.callGoOn tk' rfl htk fun _ _ => Nat.le_refl _, trivial⟩
        · cases hstep
          exact ⟨h.callGoOn tk' rfl htk fun _ _ => Nat.le_refl _, trivial⟩
    | cons e todo =>
      cases hstep
      have he : Added i e := hok e List.mem_cons_self
      -- the tickets of the rank go from the call to its FIFO
      rw [Shared.view_addJobs]
      refine ⟨h.addJobs he.rank fun k r => ?_, fun e' he' => hok e' (List.mem_cons_of_mem _ he')⟩
      have hsum := htk k r
      by_cases hr : e.1 = r
      · simp only [Stage.tickets, List.filter_cons, hr, decide_true, if_true, List.flatMap_cons, ticketsIn_append] at hsum
        simp only [hr, if_true]
        omega
      · simp only [Stage.tickets, List.filter_cons, hr, decide_false, Bool.false_eq_true, if_false] at hsum
        simp only [Ne.symm hr, if_false]
        omega
  case locking r body =>
    obtain ⟨sh₁, hlock, heq⟩ := Option.map_eq_some_iff.1 hstep
    cases heq
    exact ⟨h.callGoOn tk' (Shared.view_lockRank hlock) htk fun _ _ => Nat.le_refl _, trivial⟩
  case inline r body =>
    simp only [callStep] at hstep
    split at hstep
    · split at hstep
      · cases hstep
        exact ⟨h.callGoOn tk' (Shared.view_unlockRank _) htk fun _ _ => Nat.le_refl _, trivial⟩
      · cases hstep
        exact ⟨h.callGoOn tk' (Shared.view_unlockRank _) htk fun _ _ => Nat.le_refl _, trivial⟩
    · cases hstep
      exact ⟨h.callGoOn tk' (Shared.view_setCallbackTid _ _) htk fun _ _ => Nat.le_refl _, trivial⟩
    · cases hstep
  case inlinePolling r =>
    obtain ⟨sh₁, hlock, heq⟩ := Option.map_eq_some_iff.1 hstep
    cases heq
    refine ⟨h.callGoOn tk' ?_ htk fun _ _ => Nat.le_refl _, trivial⟩
    rw [Shared.view_unlockRank, Shared.view_lockRank hlock]
  case inlineFunction r ranks =>
    cases hstep
    refine ⟨h.callGoOn tk' ?_ htk fun _ _ => Nat.le_refl _, trivial⟩
    rw [Shared.view_unlockRank, Shared.view_clearCallbackTid]
  case waiting id =>
    simp only [callStep] at hstep
    split at hstep
    · cases hstep
    next t ht =>
    rw [Option.ite_none_right_eq_some] at hstep
    obtain ⟨-, hstep⟩ := hstep
    split at hstep
    · cases hstep
      exact ⟨h.callGoOn tk' rfl htk fun _ _ => Nat.le_refl _, trivial⟩
    · cases hstep
      exact ⟨h.callGoOn tk' rfl htk fun _ _ => Nat.le_refl _, trivial⟩
  case clearing status todo =>
    cases todo with
    | nil =>
      cases hstep
      exact ⟨h.callGoOn tk' rfl htk fun _ _ => Nat.le_refl _, trivial⟩
    | cons r todo =>
      cases hstep
      exact ⟨h.callGoOn tk' (Shared.view_setRank_same rfl rfl) htk fun _ _ => Nat.le_refl _, trivial⟩
  case done status => cases hstep
  case undefined => cases hstep

end

/-! ## Every state -/

section

variable {home : Tid → Nat} {nrJobs queueIdx : RankId → Nat} {ok : State → Action → Prop} {s s' : State}

/-- What each kind of step keeps holds in every state of the runs under `ok`. -/
theorem machine_invariant {P : State → Prop} (hinit : P (created nrJobs queueIdx))
    (hissue : ∀ s q, P s → ok s (.issue q) → P { s with calls := s.calls ++ [s.newCall q] })
    (hcall : ∀ s i c x pick sh stage, P s → ok s (.call i x pick) → s.calls[i]? = some c →
      callStep s.sh i c.req x pick c.stage = some (sh, stage) →
      P { s with sh := sh, calls := s.calls.set i { c with stage := stage } })
    (hworker : ∀ s w x sh stage, P s → ok s (.worker w x) → workerStep s.sh w (home w) x (s.worker w) = some (sh, stage) →
      P { s with sh := sh, worker := update s.worker w stage })
    (h : (machine home nrJobs queueIdx).Reach ok s) : P s := by
  induction h with
  | init h => exact h ▸ hinit
  | step _ hok hstep ih =>
    rename_i s s' a _
    change machineStep home s a = some s' at hstep
    unfold machineStep at hstep
    cases a with
    | issue q =>
      cases hstep
      exact hissue s q ih hok
    | call i x pick =>
      dsimp only at hstep
      split at hstep
      · cases hstep
      next c hc =>
      obtain ⟨⟨sh, stage⟩, hcs, heq⟩ := Option.map_eq_some_iff.1 hstep
      cases heq
      exact hcall s i c x pick sh stage ih hok hc hcs
    | worker w x =>
      obtain ⟨⟨sh, stage⟩, hws, heq⟩ := Option.map_eq_some_iff.1 hstep
      cases heq
      exact hworker s w x sh stage ih hok hws

def callTickets (calls : List Call) (k : Ticket) (r : RankId) : Nat :=
  (calls.map fun c => c.stage.tickets c.req k r).sum

/-- Where one of a list changes, a sum changes by as much. -/
theorem sum_map_set {α : Type} {l : List α} {i : Nat} {a a' : α} (f : α → Nat) (h : l[i]? = some a) :
    ((l.set i a').map f).sum + f a = (l.map f).sum + f a' := by
  induction l generalizing i with
  | nil => cases h
  | cons b l ih =>
    cases i with
    | zero =>
      rw [List.getElem?_cons_zero, Option.some.injEq] at h
      subst h
      simp only [List.set_cons_zero, List.map_cons, List.sum_cons]
      omega
    | succ i =>
      have hl := ih (i := i) h
      simp only [List.set_cons_succ, List.map_cons, List.sum_cons]
      omega

/-- The state of calls and workers. -/
structure Inv (s : State) : Prop where
  own : Own s.sh.view (WStage.hold ∘ s.worker) (WStage.fired ∘ s.worker) (callTickets s.calls)
  workers : ∀ w, (s.worker w).Ok
  calls : ∀ (i : Nat) (c : Call), s.calls[i]? = some c → c.stage.Ok i c.req

theorem inv_created : Inv (created nrJobs queueIdx) where
  own :=
    { places :=
        { home := fun _ _ hmem => absurd hmem List.not_mem_nil
          idle := fun _ => ⟨fun _ => rfl, fun _ => rfl⟩
          queued := fun _ _ hmem => absurd hmem List.not_mem_nil
          distinct := fun _ => List.nodup_nil
          held := fun _ _ hw => absurd hw.symm (Option.some_ne_none _) }
      seats := ⟨fun _ _ ht => absurd ht.symm (Option.some_ne_none _), fun _ _ => Nat.le_refl _⟩
      parked :=
        { waiting := fun _ _ ht => absurd ht.symm (Option.some_ne_none _)
          firedOk := fun _ _ hf => absurd hf.symm (Option.some_ne_none _) } }
  workers _ := trivial
  calls _ _ hc := absurd hc.symm (Option.some_ne_none _)

theorem Inv.issue (h : Inv s) (q : Request) : Inv { s with calls := s.calls ++ [s.newCall q] } where
  own := by
    have htickets : callTickets (s.calls ++ [s.newCall q]) = callTickets s.calls := by
      funext k r
      rw [callTickets, List.map_append, List.sum_append]
      rfl
    rw [htickets]
    exact h.own
  workers := h.workers
  calls i c hc := by
    rw [List.getElem?_append] at hc
    split at hc
    · exact h.calls i c hc
    · rw [List.getElem?_singleton, Option.ite_none_right_eq_some, Option.some.injEq] at hc
      have hbegin : (s.newCall q).stage.Ok i (s.newCall q).req := trivial
      exact hc.2 ▸ hbegin

theorem Inv.call (h : Inv s) {i : Nat} {c : Call} {x : Status} {pick : RankId} {sh : Shared} {stage : Stage}
    (hc : s.calls[i]? = some c) (hstep : callStep s.sh i c.req x pick c.stage = some (sh, stage)) :
    Inv { s with sh := sh, calls := s.calls.set i { c with stage := stage } } := by
  obtain ⟨hown, hok⟩ := callStep_own (callTickets (s.calls.set i { c with stage := stage })) h.own
    (h.calls i c hc) hstep fun k r => sum_map_set (fun c => c.stage.tickets c.req k r) hc
  refine ⟨hown, h.workers, fun j c' hc' => ?_⟩
  by_cases hij : i = j
  · subst hij
    rw [List.getElem?_set_self (List.getElem?_eq_some_iff.1 hc).1, Option.some.injEq] at hc'
    exact hc' ▸ hok
  · rw [List.getElem?_set_ne hij] at hc'
    exact h.calls j c' hc'

theorem Inv.worker (h : Inv s) {w : Tid} {q : Nat} {x : Status} {sh : Shared} {stage : WStage}
    (hstep : workerStep s.sh w q x (s.worker w) = some (sh, stage)) :
    Inv { s with sh := sh, worker := update s.worker w stage } := by
  obtain ⟨hown, hok⟩ := workerStep_own h.own rfl rfl (h.workers w) hstep
  refine ⟨?_, fun w' => ?_, h.calls⟩
  · rw [comp_update, comp_update]
    exact hown
  · by_cases hww : w' = w
    · subst hww
      simpa using hok
    · simpa [hww] using h.workers w'

end

end DpuBackend.Jobs
