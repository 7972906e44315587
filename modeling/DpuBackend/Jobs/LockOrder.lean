import DpuBackend.Jobs.Rank
import DpuBackend.Lib.System
import DpuBackend.Lib.WaitFor

/-
  The mutexes of the job lists: the `jobs_mutex` of each rank and the mutex of each queue.

  C ↔ Lean (src/api/src/api/dpu_thread_job.c):
    struct job_queue, jobs_mutex                   ↔ LockState
    signal_queue, queue_is_used                    ↔ Thread.taken
    dpu_thread_job_add_jobs                        ↔ Prog.addLock, addQueue, addInsert, unlocking
    dpu_thread_handle_global_block                 ↔ Prog.blockQueue, blockJobs, blockAdvance, unlocking
    dpu_thread_insert_rank_list                    ↔ Prog.insertLock, insertIn
    dpu_thread_advance_to_next_job                 ↔ Prog.advanceLock, advanceIn

  A step of a thread ends before its next `pthread_mutex_lock`. A thread can do any of the four
  calls at any time, on any ranks.

  `dpu_thread_job_add_jobs` takes `jobs_mutex` before a queue mutex, and with that queue mutex
  goes on to the `jobs_mutex` of the next rank. `no_deadlock` is about the runs in which no
  other call is then between the two locks of such a rank, and in which the queue mutexes are
  taken in one order.
-/

namespace DpuBackend.Jobs

open DpuBackend.Lib Function

def nrQueues : Nat := 4

inductive Mutex where
  | jobs (r : RankId)
  | queue (q : Nat)
  deriving DecidableEq

/-- The jobs a call adds to a rank. -/
abbrev RankJobs := RankId × List Job

/-- Where a thread is; what it is about to lock, or has just locked, comes first. -/
inductive Prog where
  | idle
  | addLock (todo : List RankJobs)
  /-- in the `jobs_mutex` of `r`, with the queue mutex to lock -/
  | addQueue (r : RankId) (jobs : List Job) (todo : List RankJobs)
  | addInsert (r : RankId) (jobs : List Job) (todo : List RankJobs)
  | blockQueue (others : List RankId)
  | blockJobs (r : RankId) (others : List RankId)
  | blockAdvance (r : RankId) (others : List RankId)
  /-- the last loop of the two: `each_queue` -/
  | unlocking (eachQueue : Nat)
  | insertLock (job : Job) (q : Fin nrQueues)
  | insertIn (job : Job) (q : Fin nrQueues)
  | advanceLock (r : RankId)
  | advanceIn (r : RankId)

structure Thread where
  prog : Prog
  /-- the queues whose mutex the call has locked -/
  taken : List Nat

structure LockState where
  rank : RankId → RankApi
  queue : Nat → List (Option Job)
  holder : Mutex → Option Tid
  thread : Tid → Thread

inductive LockEvent where
  | addJobs (t : Tid) (todo : List RankJobs)
  /-- `others`: the ranks of the callback but the one its worker runs -/
  | handleGlobalBlock (t : Tid) (others : List RankId)
  | insertRankList (t : Tid) (firstJob : Option Job) (q : Fin nrQueues)
  | advanceToNextJob (t : Tid) (r : RankId)
  /-- `t` goes on in its call -/
  | run (t : Tid)

namespace LockState

variable (s : LockState)

def queueOf (r : RankId) : Nat := (s.rank r).queueIdx

def goto (t : Tid) (prog : Prog) (taken : List Nat) : LockState :=
  { s with thread := update s.thread t ⟨prog, taken⟩ }

/-- `pthread_mutex_lock`, which has no step while another thread holds the mutex. -/
def lock (m : Mutex) (t : Tid) : Option LockState :=
  if s.holder m = none then some { s with holder := update s.holder m (some t) } else none

def unlock (m : Mutex) : LockState := { s with holder := update s.holder m none }

def setRank (r : RankId) (a : RankApi) : LockState := { s with rank := update s.rank r a }

def insert (q : Nat) (job : Option Job) : LockState := { s with queue := update s.queue q (s.queue q ++ [job]) }

/-- The insertions of `dpu_thread_job_add_jobs` for rank `r`. -/
def addTo (r : RankId) (jobs : List Job) : LockState :=
  { s with
    queue := if (s.rank r).jobs = [] then (s.insert (s.queueOf r) jobs.head?).queue else s.queue
    rank := update s.rank r { s.rank r with jobs := (s.rank r).jobs ++ jobs } }

/-- The call begins, if `t` is in none. -/
def begin (t : Tid) (prog : Prog) : Option LockState :=
  match (s.thread t).prog with
  | .idle => some (s.goto t prog [])
  | _ => none

def runThread (t : Tid) : Option LockState :=
  let taken := (s.thread t).taken
  match (s.thread t).prog with
  | .idle => none
  | .addLock [] => some (s.goto t (.unlocking 0) taken)
  | .addLock ((r, jobs) :: todo) =>
    if (s.rank r).jobs = [] ∧ s.queueOf r ∉ taken then
      (s.goto t (.addQueue r jobs todo) taken).lock (.jobs r) t
    else (s.goto t (.addInsert r jobs todo) taken).lock (.jobs r) t
  | .addQueue r jobs todo => (s.goto t (.addInsert r jobs todo) (s.queueOf r :: taken)).lock (.queue (s.queueOf r)) t
  | .addInsert r jobs todo => some (((s.addTo r jobs).goto t (.addLock todo) taken).unlock (.jobs r))
  | .blockQueue [] => some (s.goto t (.unlocking 0) taken)
  | .blockQueue (r :: others) =>
    if s.queueOf r ∈ taken then some (s.goto t (.blockJobs r others) taken)
    else (s.goto t (.blockJobs r others) (s.queueOf r :: taken)).lock (.queue (s.queueOf r)) t
  | .blockJobs r others => (s.goto t (.blockAdvance r others) taken).lock (.jobs r) t
  | .blockAdvance r others =>
    match (s.rank r).advanceToNextJob with
    | none => none
    | some (a, next) =>
      some ((((s.setRank r a).insert (s.queueOf r) next).goto t (.blockQueue others) taken).unlock (.jobs r))
  | .unlocking eachQueue =>
    if eachQueue < nrQueues then
      if eachQueue ∈ taken then
        some ((s.goto t (.unlocking (eachQueue + 1)) (taken.filter (· ≠ eachQueue))).unlock (.queue eachQueue))
      else some (s.goto t (.unlocking (eachQueue + 1)) taken)
    else some (s.goto t .idle [])
  | .insertLock job q => (s.goto t (.insertIn job q) [q.val]).lock (.queue q) t
  | .insertIn job q => some (((s.insert q (some job)).goto t .idle []).unlock (.queue q))
  | .advanceLock r => (s.goto t (.advanceIn r) taken).lock (.jobs r) t
  | .advanceIn r =>
    match (s.rank r).advanceToNextJob with
    | none => none
    | some (a, _) => some (((s.setRank r a).goto t .idle []).unlock (.jobs r))

def step (s : LockState) : LockEvent → Option LockState
  | .addJobs t todo => s.begin t (.addLock todo)
  | .handleGlobalBlock t others => s.begin t (.blockQueue others)
  | .insertRankList t (some job) q => s.begin t (.insertLock job q)
  | .insertRankList _ none _ => some s
  | .advanceToNextJob t r => s.begin t (.advanceLock r)
  | .run t => s.runThread t

end LockState

/-- What a thread is about to lock. -/
def LockState.wants (s : LockState) (t : Tid) : Option Mutex :=
  match (s.thread t).prog with
  | .addLock ((r, _) :: _) | .blockJobs r _ | .advanceLock r => some (.jobs r)
  | .addQueue r _ _ => some (.queue (s.queueOf r))
  | .blockQueue (r :: _) => if s.queueOf r ∈ (s.thread t).taken then none else some (.queue (s.queueOf r))
  | .insertLock _ q => some (.queue q)
  | _ => none

/-- A cycle of threads each holding a mutex that the next one waits for. -/
def LockState.Deadlocked (s : LockState) : Prop := Deadlock s.holder s.wants

/-- No thread is in a call; the FIFOs and the queues hold anything. -/
def LockState.Idle (s : LockState) : Prop :=
  (∀ r, s.queueOf r < nrQueues) ∧ (∀ m, s.holder m = none) ∧ ∀ t, s.thread t = ⟨.idle, []⟩

def lockSystem : System LockState LockEvent := System.ofStep LockState.Idle LockState.step

/-! ## The condition -/

namespace Prog

/-- The ranks `dpu_thread_job_add_jobs` still goes to. -/
def addRest : Prog → List RankId
  | .addLock todo | .addQueue _ _ todo | .addInsert _ _ todo => todo.map Prod.fst
  | _ => []

/-- The rank whose `jobs_mutex` the thread holds while it locks a queue mutex. -/
def between : Prog → Option RankId
  | .addQueue r _ _ => some r
  | _ => none

/-- The rank whose `jobs_mutex` the thread holds. -/
def inJobs : Prog → Option RankId
  | .addQueue r _ _ | .addInsert r _ _ | .blockAdvance r _ | .advanceIn r => some r
  | _ => none

/-- The ranks `dpu_thread_handle_global_block` is still to advance. -/
def blocks : Prog → List RankId
  | .blockQueue others => others
  | .blockJobs r others | .blockAdvance r others => r :: others
  | _ => []

/-- The ranks whose FIFO the thread is still to advance. -/
def pops : Prog → List RankId
  | .advanceLock r | .advanceIn r => [r]
  | p => p.blocks

/-- The ranks whose queue `dpu_thread_handle_global_block` has not looked at. -/
def unseen : Prog → List RankId
  | .blockQueue others | .blockJobs _ others | .blockAdvance _ others => others
  | _ => []

/-- The queues below are unlocked, if the thread has locked them. -/
def unlockedTo : Prog → Nat
  | .unlocking eachQueue => eachQueue
  | .idle | .insertLock .. | .advanceLock _ | .advanceIn _ => nrQueues
  | _ => 0

end Prog

/-- The queue mutexes the ranks of the list need, after those of `taken`, come in the order `ord`. -/
def Upward (ord : Nat → Nat) (queueOf : RankId → Nat) : List Nat → List RankId → Prop
  | _, [] => True
  | taken, r :: rest =>
    if queueOf r ∈ taken then Upward ord queueOf taken rest
    else (∀ q ∈ taken, ord q < ord (queueOf r)) ∧ Upward ord queueOf (queueOf r :: taken) rest

/-- One worker at a time advances a FIFO, and `dpu_thread_handle_global_block` finds a job on
each rank it advances, as its callers see to. The queue mutexes of a call come in the order
`ord`. And `dpu_thread_job_add_jobs` never has a queue mutex and goes to a rank for which
another call is between its two locks. -/
def LockState.Ordered (ord : Nat → Nat) (s : LockState) : LockEvent → Prop
  | .handleGlobalBlock _ others =>
    others.Nodup ∧ (∀ r ∈ others, (s.rank r).jobs ≠ [] ∧ ∀ u, r ∉ (s.thread u).prog.pops) ∧
      Upward ord s.queueOf [] others
  | .advanceToNextJob _ r => ∀ u, r ∉ (s.thread u).prog.pops
  | .run t =>
    match (s.thread t).prog with
    | .addLock ((r, _) :: _) =>
      (s.rank r).jobs = [] → s.queueOf r ∉ (s.thread t).taken →
        (∀ q ∈ (s.thread t).taken, ord q < ord (s.queueOf r)) ∧
          ∀ u, u ≠ t → (s.thread u).taken ≠ [] → r ∉ (s.thread u).prog.addRest
    | .addQueue _ _ todo => ∀ u, u ≠ t → ∀ r ∈ todo.map Prod.fst, (s.thread u).prog.between ≠ some r
    | _ => True
  | _ => True

/-! ## Who holds what -/

def Thread.Holds (th : Thread) : Mutex → Prop
  | .jobs r => th.prog.inJobs = some r
  | .queue q => q ∈ th.taken

/-- Each mutex is held by the thread that has locked it. -/
def HolderOk (holder : Mutex → Option Tid) (thread : Tid → Thread) : Prop :=
  ∀ m u, holder m = some u ↔ (thread u).Holds m

section

variable {holder : Mutex → Option Tid} {thread : Tid → Thread} {t : Tid} {th : Thread}

theorem HolderOk.stay (h : HolderOk holder thread) (hnew : ∀ m, th.Holds m ↔ (thread t).Holds m) :
    HolderOk holder (update thread t th) := by
  intro m u
  rw [h m u]
  by_cases hu : u = t
  · rw [hu, update_self, hnew]
  · rw [update_of_ne hu]

theorem HolderOk.lock (h : HolderOk holder thread) {m : Mutex} (hfree : holder m = none)
    (hnew : ∀ m', th.Holds m' ↔ m' = m ∨ (thread t).Holds m') :
    HolderOk (update holder m (some t)) (update thread t th) := by
  intro m' u
  have hnone : ∀ u, ¬ (thread u).Holds m := fun u hu => by simp [(h m u).2 hu] at hfree
  by_cases hu : u = t
  · subst hu
    rw [update_self, hnew]
    by_cases hm : m' = m
    · simp [hm]
    · simp [hm, h m' u]
  · rw [update_of_ne hu]
    by_cases hm : m' = m
    · subst hm
      simp [hnone u, Ne.symm hu]
    · rw [update_of_ne hm, h m' u]

theorem HolderOk.unlock (h : HolderOk holder thread) {m : Mutex} (hheld : (thread t).Holds m)
    (hnew : ∀ m', th.Holds m' ↔ m' ≠ m ∧ (thread t).Holds m') :
    HolderOk (update holder m none) (update thread t th) := by
  intro m' u
  by_cases hu : u = t
  · subst hu
    rw [update_self, hnew]
    by_cases hm : m' = m
    · simp [hm]
    · simp [hm, h m' u]
  · rw [update_of_ne hu]
    by_cases hm : m' = m
    · subst hm
      have hother : ¬ (thread u).Holds m' := by
        intro hu'
        have heq := ((h m' u).2 hu').symm.trans ((h m' t).2 hheld)
        exact hu (Option.some.inj heq)
      simp [hother]
    · rw [update_of_ne hm, h m' u]

end

/-! ## What a step keeps -/

/-- What a thread knows of the ranks it is about to use. -/
structure Local (ord : Nat → Nat) (s : LockState) (th : Thread) : Prop where
  between : ∀ r, th.prog.between = some r → (s.rank r).jobs = [] ∧ ∀ q ∈ th.taken, ord q < ord (s.queueOf r)
  nodup : th.prog.blocks.Nodup
  full : ∀ r ∈ th.prog.blocks, (s.rank r).jobs ≠ []
  upward : Upward ord s.queueOf th.taken th.prog.unseen
  small : ∀ q ∈ th.taken, q < nrQueues ∧ th.prog.unlockedTo ≤ q
  inserting : ∀ job q, th.prog = .insertIn job q → th.taken = [q.val]

structure LockInv (ord : Nat → Nat) (s : LockState) : Prop where
  queues : ∀ r, s.queueOf r < nrQueues
  holder : HolderOk s.holder s.thread
  own : ∀ u, Local ord s (s.thread u)
  apart : ∀ u v, u ≠ v → (s.thread u).taken ≠ [] → ∀ r ∈ (s.thread u).prog.addRest, (s.thread v).prog.between ≠ some r
  single : ∀ u v, u ≠ v → ∀ r ∈ (s.thread u).prog.pops, r ∉ (s.thread v).prog.pops

theorem Prog.inJobs_of_between {p : Prog} {r : RankId} (h : p.between = some r) : p.inJobs = some r := by
  cases p <;> first | exact h | cases h

theorem Prog.mem_pops_of_blocks {p : Prog} {r : RankId} (h : r ∈ p.blocks) : r ∈ p.pops := by
  cases p <;> first | exact h | cases h

/-- Thread `t` moves to `th`. The others know what they knew: a FIFO changes only under its
`jobs_mutex`, and is emptied only by the thread that advances it. -/
theorem LockInv.move {ord : Nat → Nat} {s s' : LockState} (h : LockInv ord s) (t : Tid) (th : Thread)
    (hthread : s'.thread = update s.thread t th) (hqueue : s'.queueOf = s.queueOf)
    (hjobs : ∀ r, (s'.rank r).jobs = (s.rank r).jobs ∨
      (s.thread t).prog.inJobs = some r ∧ ((s'.rank r).jobs ≠ [] ∨ r ∈ (s.thread t).prog.pops))
    (hholder : HolderOk s'.holder (update s.thread t th)) (hown : Local ord s' th)
    (hapart : ∀ u, u ≠ t → (th.taken ≠ [] → ∀ r ∈ th.prog.addRest, (s.thread u).prog.between ≠ some r) ∧
      ((s.thread u).taken ≠ [] → ∀ r ∈ (s.thread u).prog.addRest, th.prog.between ≠ some r))
    (hsingle : ∀ u, u ≠ t → ∀ r ∈ th.prog.pops, r ∉ (s.thread u).prog.pops) : LockInv ord s' where
  queues r := by
    rw [hqueue]
    exact h.queues r
  holder := hthread ▸ hholder
  own u := by
    rw [hthread]
    by_cases hu : u = t
    · rw [hu, update_self]
      exact hown
    rw [update_of_ne hu]
    have hu' := h.own u
    refine ⟨?_, hu'.nodup, ?_, hqueue ▸ hu'.upward, hu'.small, hu'.inserting⟩
    · intro r hr
      rw [hqueue]
      rcases hjobs r with heq | ⟨hin, -⟩
      · rw [heq]
        exact hu'.between r hr
      · -- both threads would be inside the `jobs_mutex` of `r`
        have hheld := (h.holder (.jobs r) u).2 (Prog.inJobs_of_between hr)
        have hheld' := (h.holder (.jobs r) t).2 hin
        exact absurd (Option.some.inj (hheld.symm.trans hheld')) hu
    · intro r hr
      rcases hjobs r with heq | ⟨-, hne | hpop⟩
      · rw [heq]
        exact hu'.full r hr
      · exact hne
      · exact absurd hpop (h.single u t hu r (Prog.mem_pops_of_blocks hr))
  apart u v huv := by
    rw [hthread]
    by_cases hu : u = t
    · subst hu
      rw [update_self, update_of_ne huv.symm]
      exact (hapart v huv.symm).1
    rw [update_of_ne hu]
    by_cases hv : v = t
    · subst hv
      rw [update_self]
      exact (hapart u hu).2
    · rw [update_of_ne hv]
      exact h.apart u v huv
  single u v huv := by
    rw [hthread]
    by_cases hu : u = t
    · subst hu
      rw [update_self, update_of_ne huv.symm]
      exact hsingle v huv.symm
    rw [update_of_ne hu]
    by_cases hv : v = t
    · subst hv
      rw [update_self]
      exact fun r hr hr' => hsingle u hu r hr' hr
    · rw [update_of_ne hv]
      exact h.single u v huv

/-- The same where the thread goes to fewer ranks than before. -/
theorem LockInv.goOn {ord : Nat → Nat} {s s' : LockState} (h : LockInv ord s) (t : Tid) (th : Thread)
    (hthread : s'.thread = update s.thread t th) (hqueue : s'.queueOf = s.queueOf)
    (hjobs : ∀ r, (s'.rank r).jobs = (s.rank r).jobs ∨
      (s.thread t).prog.inJobs = some r ∧ ((s'.rank r).jobs ≠ [] ∨ r ∈ (s.thread t).prog.pops))
    (hholder : HolderOk s'.holder (update s.thread t th)) (hown : Local ord s' th)
    (hadd : th.prog.addRest ≠ [] → th.taken ≠ [] →
      (s.thread t).taken ≠ [] ∧ th.prog.addRest ⊆ (s.thread t).prog.addRest)
    (hbetween : th.prog.between = none) (hpops : th.prog.pops ⊆ (s.thread t).prog.pops) : LockInv ord s' := by
  refine h.move t th hthread hqueue hjobs hholder hown ?_ ?_
  · intro u hu
    constructor
    · intro htaken r hr
      obtain ⟨hne, hsub⟩ := hadd (List.ne_nil_of_mem hr) htaken
      exact h.apart t u hu.symm hne r (hsub hr)
    · intro _ r _
      simp [hbetween]
  · intro u hu r hr
    exact h.single t u hu.symm r (hpops hr)

/-- A thread outside the two lists of ranks. -/
theorem Local.plain {ord : Nat → Nat} {s : LockState} {th : Thread} (hbetween : th.prog.between = none)
    (hblocks : th.prog.blocks = []) (hunseen : th.prog.unseen = [])
    (hinserting : ∀ job q, th.prog = .insertIn job q → th.taken = [q.val])
    (hsmall : ∀ q ∈ th.taken, q < nrQueues ∧ th.prog.unlockedTo ≤ q) : Local ord s th where
  between r hr := by simp [hbetween] at hr
  nodup := by simp [hblocks]
  full r hr := by simp [hblocks] at hr
  upward := by
    rw [hunseen]
    trivial
  small := hsmall
  inserting := hinserting

namespace LockState

variable {ord : Nat → Nat} {s s' : LockState} {t : Tid}

theorem lock_eq_some {m : Mutex} : s.lock m t = some s' ↔
    s.holder m = none ∧ { s with holder := update s.holder m (some t) } = s' := by
  rw [lock, Option.ite_none_right_eq_some, Option.some.injEq]

theorem begin_eq_some {prog : Prog} : s.begin t prog = some s' ↔
    (s.thread t).prog = .idle ∧ s.goto t prog [] = s' := by
  unfold begin
  cases (s.thread t).prog <;> simp

/-- A thread in no call has no mutex. -/
theorem taken_idle (h : LockInv ord s) (hp : (s.thread t).prog.unlockedTo = nrQueues) : (s.thread t).taken = [] := by
  apply List.eq_nil_iff_forall_not_mem.2
  intro q hq
  have := (h.own t).small q hq
  omega

/-- The calls that begin with nothing to advance. -/
theorem begin_inv (h : LockInv ord s) {prog : Prog} (hstep : s.begin t prog = some s')
    (hin : prog.inJobs = none) (hbetween : prog.between = none) (hown : Local ord s ⟨prog, []⟩)
    (hpops : ∀ r ∈ prog.pops, ∀ u, r ∉ (s.thread u).prog.pops) : LockInv ord s' := by
  obtain ⟨hidle, rfl⟩ := begin_eq_some.1 hstep
  have htaken : (s.thread t).taken = [] := taken_idle h (by rw [hidle]; rfl)
  refine h.move t ⟨prog, []⟩ rfl rfl (fun r => .inl rfl) ?_ ?_ ?_ ?_
  · apply h.holder.stay
    intro m
    cases m with
    | jobs r => simp [Thread.Holds, hin, hidle, show Prog.idle.inJobs = none from rfl]
    | queue q => simp [Thread.Holds, htaken]
  · exact ⟨hown.between, hown.nodup, hown.full, hown.upward, hown.small, hown.inserting⟩
  · intro u _
    exact ⟨fun hne => absurd rfl hne, fun _ r _ => by simp [hbetween]⟩
  · exact fun u _ r hr => hpops r hr u

theorem addLock_inv (h : LockInv ord s) {r : RankId} {jobs : List Job} {todo : List RankJobs}
    (hp : (s.thread t).prog = .addLock ((r, jobs) :: todo)) (hok : s.Ordered ord (.run t))
    (hstep : s.runThread t = some s') : LockInv ord s' := by
  simp only [runThread, hp] at hstep
  simp only [Ordered, hp] at hok
  have hsmall : ∀ q ∈ (s.thread t).taken, q < nrQueues ∧ 0 ≤ q := fun q hq =>
    ⟨((h.own t).small q hq).1, Nat.zero_le _⟩
  split at hstep
  · next hempty =>
    obtain ⟨hfree, rfl⟩ := lock_eq_some.1 hstep
    obtain ⟨hord, hclear⟩ := hok hempty.1 hempty.2
    refine h.move t ⟨.addQueue r jobs todo, (s.thread t).taken⟩ rfl rfl (fun r => .inl rfl) ?_ ?_ ?_ ?_
    · apply h.holder.lock hfree
      intro m
      cases m with
      | jobs r' => simp [Thread.Holds, hp, Prog.inJobs, eq_comm]
      | queue q => simp [Thread.Holds]
    · refine ⟨?_, List.nodup_nil, nofun, trivial, hsmall, nofun⟩
      rintro r' ⟨⟩
      exact ⟨hempty.1, hord⟩
    · intro u hu
      constructor
      · intro htaken r' hr'
        exact h.apart t u hu.symm htaken r' (by rw [hp]; exact List.mem_cons_of_mem _ hr')
      · rintro htaken r' hr' ⟨⟩
        exact hclear u hu htaken hr'
    · exact fun u _ r' hr' => nomatch hr'
  · obtain ⟨hfree, rfl⟩ := lock_eq_some.1 hstep
    refine h.goOn t ⟨.addInsert r jobs todo, (s.thread t).taken⟩ rfl rfl (fun r => .inl rfl) ?_ ?_ ?_ ?_ ?_
    · apply h.holder.lock hfree
      intro m
      cases m with
      | jobs r' => simp [Thread.Holds, hp, Prog.inJobs, eq_comm]
      | queue q => simp [Thread.Holds]
    · exact .plain rfl rfl rfl nofun hsmall
    · intro _ htaken
      exact ⟨htaken, by rw [hp]; exact List.subset_cons_self _ _⟩
    · rfl
    · exact List.nil_subset _

theorem addQueue_inv (h : LockInv ord s) {r : RankId} {jobs : List Job} {todo : List RankJobs}
    (hp : (s.thread t).prog = .addQueue r jobs todo) (hok : s.Ordered ord (.run t))
    (hstep : s.runThread t = some s') : LockInv ord s' := by
  simp only [runThread, hp] at hstep
  simp only [Ordered, hp] at hok
  obtain ⟨hfree, rfl⟩ := lock_eq_some.1 hstep
  refine h.move t ⟨.addInsert r jobs todo, s.queueOf r :: (s.thread t).taken⟩ rfl rfl (fun r => .inl rfl) ?_ ?_ ?_ ?_
  · apply h.holder.lock hfree
    intro m
    cases m with
    | jobs r' => simp [Thread.Holds, hp, Prog.inJobs]
    | queue q => simp [Thread.Holds]
  · refine .plain rfl rfl rfl nofun ?_
    intro q hq
    rcases List.mem_cons.1 hq with rfl | hq
    · exact ⟨h.queues r, Nat.zero_le _⟩
    · exact ⟨((h.own t).small q hq).1, Nat.zero_le _⟩
  · intro u hu
    exact ⟨fun _ r' hr' => hok u hu r' hr', fun _ r' _ => nofun⟩
  · exact fun u _ r' hr' => nomatch hr'

/-- What a FIFO holds is the thread's that is inside its `jobs_mutex`. -/
theorem jobs_update {r : RankId} {a : RankApi} (hin : (s.thread t).prog.inJobs = some r)
    (ha : a.jobs ≠ [] ∨ a.jobs = (s.rank r).jobs ∨ r ∈ (s.thread t).prog.pops) (r' : RankId) :
    (update s.rank r a r').jobs = (s.rank r').jobs ∨
      (s.thread t).prog.inJobs = some r' ∧ ((update s.rank r a r').jobs ≠ [] ∨ r' ∈ (s.thread t).prog.pops) := by
  by_cases hr : r' = r
  · subst hr
    rw [update_self]
    rcases ha with hne | heq | hpop
    · exact .inr ⟨hin, .inl hne⟩
    · exact .inl heq
    · exact .inr ⟨hin, .inr hpop⟩
  · rw [update_of_ne hr]
    exact .inl rfl

theorem queueOf_update {r : RankId} {a : RankApi} (ha : a.queueIdx = s.queueOf r) :
    (fun r' => (update s.rank r a r').queueIdx) = s.queueOf := by
  funext r'
  by_cases hr : r' = r
  · rw [hr, update_self]
    exact ha
  · rw [update_of_ne hr]
    rfl

theorem addInsert_inv (h : LockInv ord s) {r : RankId} {jobs : List Job} {todo : List RankJobs}
    (hp : (s.thread t).prog = .addInsert r jobs todo) (hstep : s.runThread t = some s') : LockInv ord s' := by
  simp only [runThread, hp, Option.some.injEq] at hstep
  subst hstep
  have hin : (s.thread t).prog.inJobs = some r := by rw [hp]; rfl
  have hadded : (s.rank r).jobs ++ jobs ≠ [] ∨ (s.rank r).jobs ++ jobs = (s.rank r).jobs := by
    cases jobs with
    | nil => exact .inr (List.append_nil _)
    | cons job rest => exact .inl (by simp)
  refine h.goOn t ⟨.addLock todo, (s.thread t).taken⟩ rfl (queueOf_update rfl)
    (jobs_update hin (by rcases hadded with h | h <;> simp [h])) ?_ ?_ ?_ ?_ ?_
  · apply h.holder.unlock (m := .jobs r) hin
    intro m
    cases m with
    | jobs r' => simp [Thread.Holds, hp, Prog.inJobs, eq_comm]
    | queue q => simp [Thread.Holds]
  · exact .plain rfl rfl rfl nofun fun q hq => ⟨((h.own t).small q hq).1, Nat.zero_le _⟩
  · intro _ htaken
    exact ⟨htaken, by rw [hp]; exact List.Subset.refl _⟩
  · rfl
  · exact List.nil_subset _

theorem blockQueue_inv (h : LockInv ord s) {r : RankId} {others : List RankId}
    (hp : (s.thread t).prog = .blockQueue (r :: others)) (hstep : s.runThread t = some s') : LockInv ord s' := by
  have hown := h.own t
  have hsub : r :: others ⊆ (s.thread t).prog.pops := by rw [hp]; exact List.Subset.refl _
  have hnodup : (r :: others).Nodup := by simpa [hp, Prog.blocks] using hown.nodup
  have hfull : ∀ r' ∈ r :: others, (s.rank r').jobs ≠ [] := by simpa [hp, Prog.blocks] using hown.full
  have hup : Upward ord s.queueOf (s.thread t).taken (r :: others) := by simpa [hp, Prog.unseen] using hown.upward
  simp only [runThread, hp] at hstep
  rw [Upward] at hup
  split at hstep
  · next hmem =>
    rw [if_pos hmem] at hup
    rw [Option.some.injEq] at hstep
    subst hstep
    refine h.goOn t ⟨.blockJobs r others, (s.thread t).taken⟩ rfl rfl (fun r => .inl rfl) ?_ ?_ ?_ ?_ ?_
    · apply h.holder.stay
      intro m
      cases m with
      | jobs r' => simp [Thread.Holds, hp, Prog.inJobs]
      | queue q => simp [Thread.Holds]
    · exact ⟨nofun, hnodup, hfull, hup, fun q hq => ⟨(hown.small q hq).1, Nat.zero_le _⟩, nofun⟩
    · exact fun hne => absurd rfl hne
    · rfl
    · exact hsub
  · next hmem =>
    rw [if_neg hmem] at hup
    obtain ⟨hfree, rfl⟩ := lock_eq_some.1 hstep
    refine h.goOn t ⟨.blockJobs r others, s.queueOf r :: (s.thread t).taken⟩ rfl rfl (fun r => .inl rfl) ?_ ?_ ?_ ?_ ?_
    · apply h.holder.lock hfree
      intro m
      cases m with
      | jobs r' => simp [Thread.Holds, hp, Prog.inJobs]
      | queue q => simp [Thread.Holds]
    · refine ⟨nofun, hnodup, hfull, hup.2, fun q hq => ?_, nofun⟩
      rcases List.mem_cons.1 hq with rfl | hq
      · exact ⟨h.queues r, Nat.zero_le _⟩
      · exact ⟨(hown.small q hq).1, Nat.zero_le _⟩
    · exact fun hne => absurd rfl hne
    · rfl
    · exact hsub

theorem blockJobs_inv (h : LockInv ord s) {r : RankId} {others : List RankId}
    (hp : (s.thread t).prog = .blockJobs r others) (hstep : s.runThread t = some s') : LockInv ord s' := by
  have hown := h.own t
  have hnodup : (r :: others).Nodup := by simpa [hp, Prog.blocks] using hown.nodup
  have hfull : ∀ r' ∈ r :: others, (s.rank r').jobs ≠ [] := by simpa [hp, Prog.blocks] using hown.full
  have hup : Upward ord s.queueOf (s.thread t).taken others := by simpa [hp, Prog.unseen] using hown.upward
  simp only [runThread, hp] at hstep
  obtain ⟨hfree, rfl⟩ := lock_eq_some.1 hstep
  refine h.goOn t ⟨.blockAdvance r others, (s.thread t).taken⟩ rfl rfl (fun r => .inl rfl) ?_ ?_ ?_ ?_ ?_
  · apply h.holder.lock hfree
    intro m
    cases m with
    | jobs r' => simp [Thread.Holds, hp, Prog.inJobs, eq_comm]
    | queue q => simp [Thread.Holds]
  · exact ⟨nofun, hnodup, hfull, hup, fun q hq => ⟨(hown.small q hq).1, Nat.zero_le _⟩, nofun⟩
  · exact fun hne => absurd rfl hne
  · rfl
  · rw [hp]
    exact List.Subset.refl _

theorem blockAdvance_inv (h : LockInv ord s) {r : RankId} {others : List RankId}
    (hp : (s.thread t).prog = .blockAdvance r others) (hstep : s.runThread t = some s') : LockInv ord s' := by
  have hown := h.own t
  have hin : (s.thread t).prog.inJobs = some r := by rw [hp]; rfl
  have hpop : r ∈ (s.thread t).prog.pops := by rw [hp]; exact List.mem_cons_self
  have hnodup : (r :: others).Nodup := by simpa [hp, Prog.blocks] using hown.nodup
  have hfull : ∀ r' ∈ r :: others, (s.rank r').jobs ≠ [] := by simpa [hp, Prog.blocks] using hown.full
  simp only [runThread, hp] at hstep
  split at hstep
  · cases hstep
  next a next hadv =>
  rw [Option.some.injEq] at hstep
  subst hstep
  have hqueue := RankApi.advanceToNextJob_queueIdx hadv
  refine h.goOn t ⟨.blockQueue others, (s.thread t).taken⟩ rfl (queueOf_update hqueue)
    (jobs_update hin (.inr (.inr hpop))) ?_ ?_ ?_ ?_ ?_
  · apply h.holder.unlock (m := .jobs r) hin
    intro m
    cases m with
    | jobs r' => simp [Thread.Holds, hp, Prog.inJobs, eq_comm]
    | queue q => simp [Thread.Holds]
  · refine ⟨nofun, (List.nodup_cons.1 hnodup).2, ?_, ?_, fun q hq => ⟨(hown.small q hq).1, Nat.zero_le _⟩, nofun⟩
    · intro r' hr'
      have hne : r' ≠ r := fun heq => (List.nodup_cons.1 hnodup).1 (heq ▸ hr')
      change (update s.rank r a r').jobs ≠ []
      rw [update_of_ne hne]
      exact hfull r' (List.mem_cons_of_mem _ hr')
    · change Upward ord (fun r' => (update s.rank r a r').queueIdx) _ _
      rw [queueOf_update hqueue]
      simpa [hp, Prog.unseen] using hown.upward
  · exact fun hne => absurd rfl hne
  · rfl
  · rw [hp]
    exact List.subset_cons_self _ _

/-- After the last rank. -/
theorem lastRank_inv (h : LockInv ord s) (hin : (s.thread t).prog.inJobs = none) :
    LockInv ord (s.goto t (.unlocking 0) (s.thread t).taken) := by
  refine h.goOn t ⟨.unlocking 0, (s.thread t).taken⟩ rfl rfl (fun r => .inl rfl) ?_ ?_ ?_ rfl (List.nil_subset _)
  · apply h.holder.stay
    intro m
    cases m with
    | jobs r' => simp [Thread.Holds, hin, show (Prog.unlocking 0).inJobs = none from rfl]
    | queue q => simp [Thread.Holds]
  · exact .plain rfl rfl rfl nofun fun q hq => ⟨((h.own t).small q hq).1, Nat.zero_le _⟩
  · exact fun hne => absurd rfl hne

theorem unlocking_inv (h : LockInv ord s) {eachQueue : Nat} (hp : (s.thread t).prog = .unlocking eachQueue)
    (hstep : s.runThread t = some s') : LockInv ord s' := by
  have hsmall : ∀ q ∈ (s.thread t).taken, q < nrQueues ∧ eachQueue ≤ q := by
    simpa [hp, Prog.unlockedTo] using (h.own t).small
  simp only [runThread, hp] at hstep
  split at hstep
  · split at hstep
    · next hmem =>
      rw [Option.some.injEq] at hstep
      subst hstep
      refine h.goOn t ⟨.unlocking (eachQueue + 1), (s.thread t).taken.filter (· ≠ eachQueue)⟩ rfl rfl
        (fun r => .inl rfl) ?_ ?_ ?_ rfl (List.nil_subset _)
      · apply h.holder.unlock (m := .queue eachQueue) hmem
        intro m
        cases m with
        | jobs r' => simp [Thread.Holds, hp, Prog.inJobs]
        | queue q => simp [Thread.Holds, and_comm]
      · refine .plain rfl rfl rfl nofun ?_
        intro q hq
        obtain ⟨hq, hne⟩ := List.mem_filter.1 hq
        have hne : q ≠ eachQueue := of_decide_eq_true hne
        obtain ⟨hlt, hle⟩ := hsmall q hq
        exact ⟨hlt, by show eachQueue + 1 ≤ q; omega⟩
      · exact fun hne => absurd rfl hne
    · next hmem =>
      rw [Option.some.injEq] at hstep
      subst hstep
      refine h.goOn t ⟨.unlocking (eachQueue + 1), (s.thread t).taken⟩ rfl rfl (fun r => .inl rfl) ?_ ?_ ?_ rfl
        (List.nil_subset _)
      · apply h.holder.stay
        intro m
        cases m with
        | jobs r' => simp [Thread.Holds, hp, Prog.inJobs]
        | queue q => simp [Thread.Holds]
      · refine .plain rfl rfl rfl nofun ?_
        intro q hq
        have hne : q ≠ eachQueue := fun heq => hmem (heq ▸ hq)
        obtain ⟨hlt, hle⟩ := hsmall q hq
        exact ⟨hlt, by show eachQueue + 1 ≤ q; omega⟩
      · exact fun hne => absurd rfl hne
  · rw [Option.some.injEq] at hstep
    subst hstep
    have htaken : (s.thread t).taken = [] := by
      apply List.eq_nil_iff_forall_not_mem.2
      intro q hq
      have := hsmall q hq
      omega
    refine h.goOn t ⟨.idle, []⟩ rfl rfl (fun r => .inl rfl) ?_ ?_ ?_ rfl (List.nil_subset _)
    · apply h.holder.stay
      intro m
      cases m with
      | jobs r' => simp [Thread.Holds, hp, Prog.inJobs]
      | queue q => simp [Thread.Holds, htaken]
    · exact .plain rfl rfl rfl nofun nofun
    · exact fun hne => absurd rfl hne

theorem insertLock_inv (h : LockInv ord s) {job : Job} {q : Fin nrQueues}
    (hp : (s.thread t).prog = .insertLock job q) (hstep : s.runThread t = some s') : LockInv ord s' := by
  have htaken : (s.thread t).taken = [] := taken_idle h (by rw [hp]; rfl)
  simp only [runThread, hp] at hstep
  obtain ⟨hfree, rfl⟩ := lock_eq_some.1 hstep
  refine h.goOn t ⟨.insertIn job q, [q.val]⟩ rfl rfl (fun r => .inl rfl) ?_ ?_ ?_ rfl (List.nil_subset _)
  · apply h.holder.lock hfree
    intro m
    cases m with
    | jobs r' => simp [Thread.Holds, hp, Prog.inJobs]
    | queue q => simp [Thread.Holds, htaken]
  · refine .plain rfl rfl rfl ?_ fun q' hq' => ?_
    · rintro job' q' ⟨⟩
      rfl
    · rw [List.mem_singleton.1 hq']
      exact ⟨q.isLt, Nat.zero_le _⟩
  · exact fun hne => absurd rfl hne

theorem insertIn_inv (h : LockInv ord s) {job : Job} {q : Fin nrQueues}
    (hp : (s.thread t).prog = .insertIn job q) (hstep : s.runThread t = some s') : LockInv ord s' := by
  have htaken := (h.own t).inserting job q hp
  simp only [runThread, hp, Option.some.injEq] at hstep
  subst hstep
  refine h.goOn t ⟨.idle, []⟩ rfl rfl (fun r => .inl rfl) ?_ ?_ ?_ rfl (List.nil_subset _)
  · apply h.holder.unlock (m := .queue q)
    · simp [Thread.Holds, htaken]
    intro m
    cases m with
    | jobs r' => simp [Thread.Holds, hp, Prog.inJobs]
    | queue q' => simp [Thread.Holds, htaken]
  · exact .plain rfl rfl rfl nofun nofun
  · exact fun hne => absurd rfl hne

theorem advanceLock_inv (h : LockInv ord s) {r : RankId} (hp : (s.thread t).prog = .advanceLock r)
    (hstep : s.runThread t = some s') : LockInv ord s' := by
  have htaken : (s.thread t).taken = [] := taken_idle h (by rw [hp]; rfl)
  simp only [runThread, hp] at hstep
  obtain ⟨hfree, rfl⟩ := lock_eq_some.1 hstep
  refine h.goOn t ⟨.advanceIn r, (s.thread t).taken⟩ rfl rfl (fun r => .inl rfl) ?_ ?_ ?_ rfl ?_
  · apply h.holder.lock hfree
    intro m
    cases m with
    | jobs r' => simp [Thread.Holds, hp, Prog.inJobs, eq_comm]
    | queue q => simp [Thread.Holds]
  · exact .plain rfl rfl rfl nofun (by simp [htaken])
  · exact fun hne => absurd rfl hne
  · rw [hp]
    exact List.Subset.refl _

theorem advanceIn_inv (h : LockInv ord s) {r : RankId} (hp : (s.thread t).prog = .advanceIn r)
    (hstep : s.runThread t = some s') : LockInv ord s' := by
  have htaken : (s.thread t).taken = [] := taken_idle h (by rw [hp]; rfl)
  have hin : (s.thread t).prog.inJobs = some r := by rw [hp]; rfl
  have hpop : r ∈ (s.thread t).prog.pops := by rw [hp]; exact List.mem_cons_self
  simp only [runThread, hp] at hstep
  split at hstep
  · cases hstep
  next a next hadv =>
  rw [Option.some.injEq] at hstep
  subst hstep
  refine h.goOn t ⟨.idle, []⟩ rfl (queueOf_update (RankApi.advanceToNextJob_queueIdx hadv))
    (jobs_update hin (.inr (.inr hpop))) ?_ ?_ ?_ rfl (List.nil_subset _)
  · apply h.holder.unlock (m := .jobs r) hin
    intro m
    cases m with
    | jobs r' => simp [Thread.Holds, hp, Prog.inJobs, eq_comm]
    | queue q => simp [Thread.Holds, htaken]
  · exact .plain rfl rfl rfl nofun nofun
  · exact fun hne => absurd rfl hne

theorem runThread_inv (h : LockInv ord s) (hok : s.Ordered ord (.run t)) (hstep : s.runThread t = some s') :
    LockInv ord s' := by
  cases hp : (s.thread t).prog with
  | idle => simp [runThread, hp] at hstep
  | addLock todo =>
    cases todo with
    | nil =>
      simp only [runThread, hp, Option.some.injEq] at hstep
      exact hstep ▸ lastRank_inv h (by rw [hp]; rfl)
    | cons head todo => exact addLock_inv h hp hok hstep
  | addQueue r jobs todo => exact addQueue_inv h hp hok hstep
  | addInsert r jobs todo => exact addInsert_inv h hp hstep
  | blockQueue others =>
    cases others with
    | nil =>
      simp only [runThread, hp, Option.some.injEq] at hstep
      exact hstep ▸ lastRank_inv h (by rw [hp]; rfl)
    | cons r others => exact blockQueue_inv h hp hstep
  | blockJobs r others => exact blockJobs_inv h hp hstep
  | blockAdvance r others => exact blockAdvance_inv h hp hstep
  | unlocking eachQueue => exact unlocking_inv h hp hstep
  | insertLock job q => exact insertLock_inv h hp hstep
  | insertIn job q => exact insertIn_inv h hp hstep
  | advanceLock r => exact advanceLock_inv h hp hstep
  | advanceIn r => exact advanceIn_inv h hp hstep

theorem step_inv (h : LockInv ord s) {a : LockEvent} (hok : s.Ordered ord a) (hstep : s.step a = some s') :
    LockInv ord s' := by
  cases a with
  | addJobs t todo => exact begin_inv h hstep rfl rfl (.plain rfl rfl rfl nofun nofun) nofun
  | handleGlobalBlock t others =>
    obtain ⟨hnodup, hfull, hup⟩ := hok
    apply begin_inv h hstep rfl rfl
    · exact ⟨nofun, hnodup, fun r hr => (hfull r hr).1, hup, nofun, nofun⟩
    · exact fun r hr => (hfull r hr).2
  | insertRankList t firstJob q =>
    cases firstJob with
    | none => exact Option.some.inj hstep ▸ h
    | some job => exact begin_inv h hstep rfl rfl (.plain rfl rfl rfl nofun nofun) nofun
  | advanceToNextJob t r =>
    apply begin_inv h hstep rfl rfl (.plain rfl rfl rfl nofun nofun)
    intro r' hr'
    rw [List.mem_singleton.1 hr']
    exact hok
  | run t => exact runThread_inv h hok hstep

theorem idle_inv (h : s.Idle) : LockInv ord s where
  queues := h.1
  holder m u := by cases m <;> simp [h.2.1, h.2.2, Thread.Holds, Prog.inJobs]
  own u := by
    rw [h.2.2]
    exact .plain rfl rfl rfl nofun nofun
  apart u v _ hne := by simp [h.2.2] at hne
  single u v _ r hr := by simp [h.2.2, Prog.pops, Prog.blocks] at hr

/-! ## Cycles -/

/-- A thread that waits inside a `jobs_mutex` waits for a queue mutex. -/
theorem between_of_wants {m : Mutex} {r : RankId} (hwants : s.wants t = some m)
    (hin : (s.thread t).prog.inJobs = some r) : (s.thread t).prog.between = some r := by
  cases hp : (s.thread t).prog with
  | addQueue r' jobs todo =>
    rw [hp] at hin
    exact hin
  | addInsert | blockAdvance | advanceIn => simp [wants, hp] at hwants
  | _ => simp [hp, Prog.inJobs] at hin

/-- On a cycle, threads wait for queue mutexes only, and have only earlier ones. -/
theorem wants_of_cycle (h : LockInv ord s) {v w : Tid} (htw : WaitsFor s.holder s.wants t w)
    (hw : ∃ u, WaitsFor s.holder s.wants w u) (hvt : WaitsFor s.holder s.wants v t) :
    ∃ q, s.wants t = some (.queue q) ∧ ∀ q' ∈ (s.thread t).taken, ord q' < ord q := by
  obtain ⟨m, hm, hheld⟩ := htw
  obtain ⟨u, m', hm', -⟩ := hw
  obtain ⟨m'', -, hheld''⟩ := hvt
  have hown := h.own t
  have htm : (s.thread t).Holds m'' := (h.holder m'' t).1 hheld''
  -- who holds the `jobs_mutex` another one waits for is between its two locks
  have hbetween : ∀ r, m = .jobs r → (s.thread w).prog.between = some r := by
    rintro r rfl
    exact between_of_wants hm' ((h.holder _ w).1 hheld)
  -- a thread inside no `jobs_mutex` has a queue mutex, for it is waited for
  have htaken : (s.thread t).prog.inJobs = none → (s.thread t).taken ≠ [] := by
    intro hin hnil
    cases m'' with
    | jobs r => simp [Thread.Holds, hin] at htm
    | queue q => simp [Thread.Holds, hnil] at htm
  cases hp : (s.thread t).prog with
  | addLock todo =>
    cases todo with
    | nil => simp [wants, hp] at hm
    | cons head todo =>
      have hmr : m = .jobs head.1 := by simpa [wants, hp] using hm.symm
      have htw : t ≠ w := by
        rintro rfl
        simpa [hp, Prog.between] using hbetween _ hmr
      exact absurd (hbetween _ hmr) (h.apart t w htw (htaken (by rw [hp]; rfl)) head.1 (by simp [hp, Prog.addRest]))
  | addQueue r jobs todo =>
    exact ⟨s.queueOf r, by simp [wants, hp], (hown.between r (by rw [hp]; rfl)).2⟩
  | blockQueue others =>
    cases others with
    | nil => simp [wants, hp] at hm
    | cons r others =>
      have hup : Upward ord s.queueOf (s.thread t).taken (r :: others) := by simpa [hp, Prog.unseen] using hown.upward
      by_cases hmem : s.queueOf r ∈ (s.thread t).taken
      · simp [wants, hp, hmem] at hm
      · rw [Upward, if_neg hmem] at hup
        exact ⟨s.queueOf r, by simp [wants, hp, hmem], hup.1⟩
  | blockJobs r others =>
    have hmr : m = .jobs r := by simpa [wants, hp] using hm.symm
    have hempty := ((h.own w).between r (hbetween r hmr)).1
    exact absurd hempty (hown.full r (by simp [hp, Prog.blocks]))
  | insertLock job q => exact absurd (taken_idle h (by rw [hp]; rfl)) (htaken (by rw [hp]; rfl))
  | advanceLock r => exact absurd (taken_idle h (by rw [hp]; rfl)) (htaken (by rw [hp]; rfl))
  | _ => simp [wants, hp] at hm

/-- The queue a thread waits for. -/
def wantedRank (ord : Nat → Nat) (s : LockState) (t : Tid) : Nat :=
  match s.wants t with
  | some (.queue q) => ord q
  | _ => 0

theorem not_deadlocked (h : LockInv ord s) : ¬ s.Deadlocked := by
  rintro ⟨t, hcycle⟩
  refine acyclic_of_rank (wantedRank ord s) (fun t w htw hwt => ?_) t hcycle
  obtain ⟨u, hwu, hut⟩ := Relation.TransGen.head'_iff.1 hwt
  obtain ⟨v, hvt⟩ := exists_of_trans_right hwt
  obtain ⟨x, hux⟩ := exists_of_trans_left (Relation.TransGen.tail' hut htw)
  obtain ⟨q, hq, -⟩ := wants_of_cycle h htw ⟨u, hwu⟩ hvt
  obtain ⟨q', hq', hlt⟩ := wants_of_cycle h hwu ⟨x, hux⟩ htw
  obtain ⟨m, hm, hheld⟩ := htw
  rw [hq, Option.some.injEq] at hm
  subst hm
  rw [wantedRank, wantedRank, hq, hq']
  exact hlt q ((h.holder _ w).1 hheld)

end LockState

/-- No cycle of threads forms in a run in which `dpu_thread_job_add_jobs` keeps clear of the ranks
where another call is between its two locks, and queue mutexes are taken in one order. -/
theorem no_deadlock (ord : Nat → Nat) {s : LockState} (h : lockSystem.Reach (LockState.Ordered ord) s) :
    ¬ s.Deadlocked := by
  have hinv : LockInv ord s :=
    h.invariant (fun s hs => LockState.idle_inv hs) fun s a s' hs hok hstep => LockState.step_inv hs hok hstep
  exact LockState.not_deadlocked hinv

/-! ## Sample runs -/

def sampleJob (r : RankId) : Job := ⟨r, 0, .op .load, 0⟩

/-- Every rank on queue 0, every FIFO empty. -/
def idleState : LockState where
  rank _ := RankApi.create 1 0
  queue _ := []
  holder _ := none
  thread _ := ⟨.idle, []⟩

theorem idleState_idle : idleState.Idle := ⟨fun _ => show 0 < 4 by decide, fun _ => rfl, fun _ => rfl⟩

/-- Thread 1 adds to the ranks 1 and 2, thread 2 adds to rank 2. Thread 2 has the `jobs_mutex` of
rank 2 before thread 1 comes to it, and thread 1 has the mutex of the queue. -/
def crossing : List LockEvent :=
  [.addJobs 1 [(1, [sampleJob 1]), (2, [sampleJob 2])], .addJobs 2 [(2, [sampleJob 2])], .run 1, .run 1, .run 1, .run 2]

theorem crossing_deadlocks : ¬ ∀ s, lockSystem.Reachable s → ¬ s.Deadlocked := by
  intro hall
  have hinit : lockSystem.Reachable idleState := .init idleState_idle
  obtain ⟨s, hrun, hone, htwo, hjobs, hqueue⟩ : ∃ s, System.runFrom LockState.step idleState crossing = some s ∧
      s.wants 1 = some (.jobs 2) ∧ s.wants 2 = some (.queue 0) ∧ s.holder (.jobs 2) = some 2 ∧
      s.holder (.queue 0) = some 1 := ⟨_, rfl, rfl, rfl, rfl, rfl⟩
  have hreach : lockSystem.Reachable s := System.reach_of_runFrom crossing hinit hrun
  apply hall s hreach
  exact ⟨1, .tail (.single ⟨_, hone, hjobs⟩) ⟨_, htwo, hqueue⟩⟩

/-- Thread 1 adds to the ranks 1 and 2 and has the mutex of their queue; thread 2 waits for it with
the `jobs_mutex` of rank 3, where thread 1 does not go. -/
def passing : List LockEvent :=
  [.addJobs 1 [(1, [sampleJob 1]), (2, [sampleJob 2])], .addJobs 2 [(3, [sampleJob 3])], .run 1, .run 1, .run 1, .run 2]

theorem no_deadlock_passing :
    ∃ s, lockSystem.Reach (LockState.Ordered id) s ∧ s.wants 2 = some (.queue 0) ∧
      s.holder (.queue 0) = some 1 ∧ ¬ s.Deadlocked := by
  have hinit : lockSystem.Reach (LockState.Ordered id) idleState := .init idleState_idle
  obtain ⟨s, hrun, htwo, hqueue⟩ : ∃ s, System.Run LockState.step (LockState.Ordered id) idleState passing s ∧
      s.wants 2 = some (.queue 0) ∧ s.holder (.queue 0) = some 1 := by
    refine ⟨_, ⟨trivial, _, rfl, trivial, _, rfl, ?_, _, rfl, ?_, _, rfl, trivial, _, rfl, ?_, _, rfl, rfl⟩, rfl, rfl⟩
    · intro _ _
      refine ⟨nofun, fun u _ hne => ?_⟩
      match u with
      | 0 | 1 | 2 | _ + 3 => exact absurd rfl hne
    · intro u hu r _
      match u with
      | 1 => exact absurd rfl hu
      | 0 | 2 | _ + 3 => show none ≠ some r; nofun
    · intro _ _
      refine ⟨nofun, fun u hu hne => ?_⟩
      match u with
      | 1 => show 3 ∉ [2]; decide
      | 0 | 2 | _ + 3 => exact absurd rfl hne
  have hreach : lockSystem.Reach (LockState.Ordered id) s := System.reach_of_run passing hinit hrun
  exact ⟨s, hreach, htwo, hqueue, no_deadlock id hreach⟩

end DpuBackend.Jobs
