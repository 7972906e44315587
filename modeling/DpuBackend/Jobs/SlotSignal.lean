import DpuBackend.Jobs.Rank
import DpuBackend.Lib.System

/-
  Threads that wait for a job slot of one rank.

  C ↔ Lean (src/api/src/api/dpu_thread_job.c):
    jobs_mutex and available_jobs_cond of a rank   ↔ Monitor
    pthread_cond_signal(&available_jobs_cond)      ↔ Monitor.signal
    the loop of dpu_thread_job_get_job_unlocked    ↔ Monitor.round
    dpu_thread_release_job_slot_unlocked           ↔ Monitor.release
    dpu_thread_update_status                       ↔ Monitor.fail
    what threads do under jobs_mutex               ↔ Event, step

  A step is what one thread does between taking `jobs_mutex` and letting go of it, or between
  two waits in between. Any thread can take the next step.

  The slot that goes on an empty list is signalled and no other: not the second of two
  releases, not those `dpu_thread_job_unget_jobs` puts back, and of the threads that wait when
  an error is reported at most one. `no_lost_wakeup` is about the runs in which nobody waits
  for such a signal.
-/

namespace DpuBackend.Jobs

open DpuBackend.Lib

structure Monitor where
  rank : RankApi
  /-- threads in `pthread_cond_wait` that have not been signalled -/
  waiting : List Tid
  /-- threads that have been, and have not taken `jobs_mutex` back yet -/
  woken : List Tid

namespace Monitor

variable (m : Monitor)

/-- `pthread_cond_signal` wakes thread `t` if it waits, or else another one that does. -/
def signal (t : Tid) : Monitor :=
  if t ∈ m.waiting then { m with waiting := m.waiting.erase t, woken := t :: m.woken }
  else
    match m.waiting with
    | [] => m
    | u :: rest => { m with waiting := rest, woken := u :: m.woken }

/-- One round of `dpu_thread_job_get_job_unlocked` by thread `t`. -/
def round (t : Tid) : Monitor :=
  match m.rank.getJobUnlocked with
  | .error _ => m
  | .got _ r => { m with rank := r }
  | .wait => { m with waiting := t :: m.waiting }

/-- `dpu_thread_release_job_slot_unlocked`; `t` is the thread a signal wakes. -/
def release (idx : Nat) (t : Tid) : Monitor :=
  let m' : Monitor := { m with rank := m.rank.releaseJobSlot idx }
  if m.rank.releaseSignals then m'.signal t else m'

/-- The releases of `dpu_thread_update_status`. -/
def releaseAll : Monitor → List Job → Tid → Monitor
  | m, [], _ => m
  | m, job :: rest, t => (m.release job.idx t).releaseAll rest t

/-- `dpu_thread_update_status` after the job at the head of the FIFO. -/
def fail (job : Job) (status : Status) (t : Tid) : Monitor :=
  ({ m with rank := { m.rank with jobs := [], jobError := asyncStatus job.body.type status } } : Monitor).releaseAll
    m.rank.jobs t

end Monitor

inductive Event where
  /-- `t` comes to `dpu_thread_job_get_job_unlocked` -/
  | call (t : Tid)
  /-- `t` comes out of `pthread_cond_wait` after a signal -/
  | resume (t : Tid)
  /-- `t` comes out of `pthread_cond_wait` on its own -/
  | spurious (t : Tid)
  /-- the slot of a master job is released -/
  | release (idx : Nat) (t : Tid)
  /-- `dpu_thread_advance_to_next_job` -/
  | advance (t : Tid)
  | unget (jobs : List (Option Nat))
  /-- `dpu_thread_job_add_jobs` -/
  | add (jobs : List Job)
  /-- the job at the head of the FIFO fails -/
  | fail (status : Status) (t : Tid)
  /-- `dpu_thread_job_do_jobs` sets `job_error` back -/
  | clear

open Monitor in
def slotStep (m : Monitor) : Event → Option Monitor
  | .call t => if t ∈ m.waiting ∨ t ∈ m.woken then none else some (m.round t)
  | .resume t =>
    if t ∈ m.woken then some (({ m with woken := m.woken.erase t } : Monitor).round t) else none
  | .spurious t =>
    if t ∈ m.waiting then some { m with waiting := m.waiting.erase t, woken := t :: m.woken } else none
  | .release idx t => some (m.release idx t)
  | .advance t =>
    match m.rank.jobs with
    | [] => none
    | job :: rest => some (({ m with rank := { m.rank with jobs := rest } } : Monitor).release job.idx t)
  | .unget jobs => some { m with rank := m.rank.ungetJobs jobs }
  | .add jobs => some { m with rank := { m.rank with jobs := m.rank.jobs ++ jobs } }
  | .fail status t =>
    match m.rank.jobs with
    | [] => none
    | job :: _ => some (m.fail job status t)
  | .clear => some { m with rank := { m.rank with jobError := 0 } }

/-- The threads and the slots of a rank of `nrJobs` slots. -/
def slotSystem (nrJobs : Nat) : System Monitor Event :=
  System.ofStep (· = ⟨RankApi.create nrJobs 0, [], []⟩) slotStep

/-- No thread waits, with no signal on its way, for what is there. -/
def NoLostWakeup (m : Monitor) : Prop :=
  m.waiting ≠ [] → m.woken = [] → m.rank.available = [] ∧ m.rank.jobError = 0

/-- A step that gives slots back or reports an error does so while no thread waits, or signals
all of those that do. -/
def Signals (m : Monitor) : Event → Prop
  | .release _ _ | .advance _ => m.waiting = [] ∨ m.rank.available = []
  | .unget jobs => m.waiting = [] ∨ ∀ job ∈ jobs, job = none
  | .fail _ _ => m.waiting = [] ∨ m.waiting.length = 1 ∧ m.rank.available = []
  | _ => True

/-! ## What a step keeps -/

/-- Whoever waits without a signal waits for no more than the slot of the last signal. -/
def Paired (m : Monitor) : Prop :=
  m.waiting ≠ [] →
    m.rank.jobError = 0 ∧ m.rank.available.length ≤ 1 ∧ (m.rank.available ≠ [] → m.woken ≠ [])

theorem Paired.noLostWakeup {m : Monitor} (h : Paired m) : NoLostWakeup m := by
  intro hw hn
  obtain ⟨herr, -, havail⟩ := h hw
  refine ⟨?_, herr⟩
  by_contra hne
  exact havail hne hn

theorem paired_of_waiting_nil {m : Monitor} (h : m.waiting = []) : Paired m := fun hw => absurd h hw

namespace Monitor

variable {m : Monitor}

@[simp] theorem signal_rank (t : Tid) : (m.signal t).rank = m.rank := by
  unfold signal
  split
  · rfl
  · split <;> rfl

/-- A signal is lost only if nobody waits. -/
theorem signal_woken (t : Tid) (h : m.waiting ≠ []) : (m.signal t).woken ≠ [] := by
  unfold signal
  split
  · exact List.cons_ne_nil _ _
  · split
    · next hnil => exact absurd hnil h
    · exact List.cons_ne_nil _ _

theorem signal_waiting_length (t : Tid) : (m.signal t).waiting.length = m.waiting.length - 1 := by
  unfold signal
  split
  · next hmem => exact List.length_erase_of_mem hmem
  · split
    · next hnil => rw [hnil]; rfl
    · next hcons => rw [hcons]; rfl

theorem signal_waiting_nil (t : Tid) (h : m.waiting.length ≤ 1) : (m.signal t).waiting = [] := by
  have := signal_waiting_length (m := m) t
  exact List.eq_nil_of_length_eq_zero (by omega)

theorem release_waiting_nil (idx : Nat) (t : Tid) (h : m.waiting = []) : (m.release idx t).waiting = [] := by
  unfold release
  dsimp only
  split
  · exact signal_waiting_nil t (by simp [h])
  · exact h

theorem releaseAll_waiting_nil (jobs : List Job) (t : Tid) (h : m.waiting = []) :
    (m.releaseAll jobs t).waiting = [] := by
  induction jobs generalizing m with
  | nil => exact h
  | cons job rest ih => exact ih (release_waiting_nil job.idx t h)

/-- A slot that goes on an empty list finds its waiter. -/
theorem release_paired (idx : Nat) (t : Tid) (h : Paired m)
    (hs : m.waiting = [] ∨ m.rank.available = []) : Paired (m.release idx t) := by
  rcases hs with hw | ha
  · exact paired_of_waiting_nil (release_waiting_nil idx t hw)
  · intro hwait
    have hsig : m.rank.releaseSignals = true := by simp [RankApi.releaseSignals, ha]
    have hrel : m.release idx t = ({ m with rank := m.rank.releaseJobSlot idx } : Monitor).signal t := by
      simp [release, hsig]
    rw [hrel] at hwait ⊢
    have hw : m.waiting ≠ [] := by
      intro hnil
      exact hwait (signal_waiting_nil t (by simp [hnil]))
    refine ⟨?_, ?_, fun _ => signal_woken t hw⟩
    · rw [signal_rank]
      exact (h hw).1
    · simp [RankApi.releaseJobSlot, ha]

/-- Whoever begins to wait finds nothing there; whoever takes a slot leaves none. -/
theorem round_paired (t : Tid) (h : m.waiting ≠ [] → m.rank.jobError = 0 ∧ m.rank.available.length ≤ 1) :
    Paired (m.round t) := by
  by_cases herr : m.rank.jobError = 0
  · cases ha : m.rank.available with
    | nil =>
      rw [round, RankApi.getJobUnlocked_wait herr ha]
      intro _
      exact ⟨herr, by simp [ha], fun hne => absurd ha hne⟩
    | cons idx rest =>
      rw [round, RankApi.getJobUnlocked_got herr ha]
      intro hw
      have hlen := (h hw).2
      rw [ha, List.length_cons] at hlen
      have hrest : rest = [] := List.eq_nil_of_length_eq_zero (by omega)
      exact ⟨herr, by simp [hrest], fun hne => absurd hrest hne⟩
  · rw [round, RankApi.getJobUnlocked_error herr]
    intro hw
    exact absurd (h hw).1 herr

/-- The drain reaches the one thread that waits for a slot. -/
theorem fail_waiting_nil {job : Job} {rest : List Job} (status : Status) (t : Tid) (hjobs : m.rank.jobs = job :: rest)
    (hs : m.waiting = [] ∨ m.waiting.length = 1 ∧ m.rank.available = []) : (m.fail job status t).waiting = [] := by
  rw [fail, hjobs, releaseAll]
  apply releaseAll_waiting_nil
  rcases hs with hw | ⟨hone, ha⟩
  · exact release_waiting_nil _ _ hw
  · rw [release, if_pos (by simp [RankApi.releaseSignals, ha])]
    exact signal_waiting_nil t (by simp [hone])

end Monitor

theorem slotStep_paired {m m' : Monitor} {a : Event} (h : Paired m) (hs : Signals m a)
    (hstep : slotStep m a = some m') : Paired m' := by
  have hbound : m.waiting ≠ [] → m.rank.jobError = 0 ∧ m.rank.available.length ≤ 1 := fun hw =>
    ⟨(h hw).1, (h hw).2.1⟩
  cases a with
  | call t =>
    simp only [slotStep, Option.ite_none_left_eq_some, Option.some.injEq] at hstep
    rw [← hstep.2]
    exact Monitor.round_paired t hbound
  | resume t =>
    simp only [slotStep, Option.ite_none_right_eq_some, Option.some.injEq] at hstep
    rw [← hstep.2]
    exact Monitor.round_paired t hbound
  | spurious t =>
    simp only [slotStep, Option.ite_none_right_eq_some, Option.some.injEq] at hstep
    rw [← hstep.2]
    intro hw
    have hm : m.waiting ≠ [] := by
      intro hnil
      exact hw (by simp [hnil])
    exact ⟨(h hm).1, (h hm).2.1, fun _ => List.cons_ne_nil _ _⟩
  | release idx t =>
    rw [← Option.some.inj hstep]
    exact Monitor.release_paired idx t h hs
  | advance t =>
    cases hjobs : m.rank.jobs with
    | nil => simp [slotStep, hjobs] at hstep
    | cons job rest =>
      simp only [slotStep, hjobs, Option.some.injEq] at hstep
      rw [← hstep]
      apply Monitor.release_paired
      · exact h
      · exact hs
  | unget jobs =>
    rw [← Option.some.inj hstep]
    rcases hs with hw | hnone
    · exact paired_of_waiting_nil hw
    · rw [RankApi.ungetJobs_of_none hnone]
      exact h
  | add jobs =>
    rw [← Option.some.inj hstep]
    exact h
  | fail status t =>
    cases hjobs : m.rank.jobs with
    | nil => simp [slotStep, hjobs] at hstep
    | cons job rest =>
      simp only [slotStep, hjobs, Option.some.injEq] at hstep
      rw [← hstep]
      exact paired_of_waiting_nil (Monitor.fail_waiting_nil status t hjobs hs)
  | clear =>
    rw [← Option.some.inj hstep]
    intro hw
    exact ⟨rfl, (h hw).2⟩

/-! ## Runs -/

/-- Where every slot and every error that a thread may wait for is signalled to it, no thread
waits in vain. -/
theorem no_lost_wakeup (nrJobs : Nat) {m : Monitor} (h : (slotSystem nrJobs).Reach Signals m) :
    NoLostWakeup m := by
  apply Paired.noLostWakeup
  refine h.invariant ?_ fun m a m' hm hok hstep => slotStep_paired hm hok hstep
  rintro m rfl
  exact paired_of_waiting_nil rfl

/-- One thread has both slots of the rank and two more wait. Both slots come back before the
first of these runs. -/
def twoWaiters : List Event :=
  [.call 1, .call 1, .call 2, .call 3, .add [⟨0, 1, .op .load, 0⟩, ⟨0, 0, .op .load, 0⟩], .advance 2, .advance 3,
    .resume 2]

def afterTwoWaiters : Monitor where
  rank := { RankApi.create 2 0 with available := [0], availableLength := 1 }
  waiting := [3]
  woken := []

theorem twoWaiters_lost : ¬ ∀ m, (slotSystem 2).Reachable m → NoLostWakeup m := by
  intro hall
  have hinit : (slotSystem 2).Reachable ⟨RankApi.create 2 0, [], []⟩ := .init rfl
  have hrun : System.runFrom slotStep ⟨RankApi.create 2 0, [], []⟩ twoWaiters = some afterTwoWaiters := rfl
  have hreach : (slotSystem 2).Reachable afterTwoWaiters := System.reach_of_runFrom twoWaiters hinit hrun
  have havail := (hall _ hreach (by simp [afterTwoWaiters]) rfl).1
  simp [afterTwoWaiters] at havail

/-- One thread has the only slot of the rank, and another one is signalled when it comes back. -/
def afterHandOver : Monitor where
  rank := RankApi.create 1 0
  waiting := []
  woken := [2]

theorem no_lost_wakeup_hand_over :
    (slotSystem 1).Reach Signals afterHandOver ∧ NoLostWakeup afterHandOver := by
  have hinit : (slotSystem 1).Reach Signals ⟨RankApi.create 1 0, [], []⟩ := .init rfl
  have hreach : (slotSystem 1).Reach Signals afterHandOver := by
    apply System.reach_of_run [.call 1, .call 2, .release 0 2] hinit
    exact ⟨trivial, _, rfl, trivial, _, rfl, .inr rfl, _, rfl, rfl⟩
  exact ⟨hreach, no_lost_wakeup 1 hreach⟩

end DpuBackend.Jobs
