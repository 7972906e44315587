import DpuBackend.Jobs.Machine

/-
  Who has a rank.

  A rank whose FIFO is not empty is in one place: once in the list of its queue, with one
  worker, or parked at a callback that waits for other ranks. `Places` says so, for the part
  of the state that decides it (`View`). The operations below are the ones a step makes of
  it; each keeps `Places`.
-/

namespace DpuBackend.Jobs

open DpuBackend.Lib Function

structure View where
  jobs : RankId → List Job
  queueIdx : RankId → Nat
  queue : Nat → List (Option Job)
  owner : RankId → Owner
  syncs : List Sync

/-- The rank and the first job a worker has, and whether the job is counted. -/
structure Hold where
  rank : RankId
  job : Job
  counted : Bool

def Hold.owner (h : Hold) (w : Tid) : Owner := if h.counted then .ran w else .taken w

/-- The ranks of a queue's list. -/
def queuedRanks (entries : List (Option Job)) : List RankId := entries.filterMap fun e => e.map (·.rank)

theorem mem_queuedRanks {entries : List (Option Job)} {r : RankId} :
    r ∈ queuedRanks entries ↔ ∃ job, some job ∈ entries ∧ job.rank = r := by
  simp only [queuedRanks, List.mem_filterMap, Option.map_eq_some_iff]
  constructor
  · rintro ⟨e, he, job, rfl, hr⟩
    exact ⟨job, he, hr⟩
  · rintro ⟨job, he, hr⟩
    exact ⟨some job, he, job, rfl, hr⟩

theorem queuedRanks_cons (job : Job) (entries : List (Option Job)) :
    queuedRanks (some job :: entries) = job.rank :: queuedRanks entries := rfl

namespace View

variable (v : View)

def setJobs (r : RankId) (jobs : List Job) : View := { v with jobs := update v.jobs r jobs }
def setOwner (r : RankId) (o : Owner) : View := { v with owner := update v.owner r o }
def setQueue (q : Nat) (entries : List (Option Job)) : View := { v with queue := update v.queue q entries }
def push (q : Nat) (job : Option Job) : View := v.setQueue q (v.queue q ++ [job])

section

variable {v} {r r' : RankId} {q q' : Nat}

@[simp] theorem setJobs_jobs (jobs : List Job) : (v.setJobs r jobs).jobs = update v.jobs r jobs := rfl
@[simp] theorem setJobs_owner (jobs : List Job) : (v.setJobs r jobs).owner = v.owner := rfl
@[simp] theorem setJobs_queue (jobs : List Job) : (v.setJobs r jobs).queue = v.queue := rfl
@[simp] theorem setJobs_queueIdx (jobs : List Job) : (v.setJobs r jobs).queueIdx = v.queueIdx := rfl
@[simp] theorem setOwner_owner (o : Owner) : (v.setOwner r o).owner = update v.owner r o := rfl
@[simp] theorem setOwner_jobs (o : Owner) : (v.setOwner r o).jobs = v.jobs := rfl
@[simp] theorem setOwner_queue (o : Owner) : (v.setOwner r o).queue = v.queue := rfl
@[simp] theorem setOwner_queueIdx (o : Owner) : (v.setOwner r o).queueIdx = v.queueIdx := rfl
@[simp] theorem setQueue_queue (entries : List (Option Job)) :
    (v.setQueue q entries).queue = update v.queue q entries := rfl
@[simp] theorem setQueue_jobs (entries : List (Option Job)) : (v.setQueue q entries).jobs = v.jobs := rfl
@[simp] theorem setQueue_owner (entries : List (Option Job)) : (v.setQueue q entries).owner = v.owner := rfl
@[simp] theorem push_queue (job : Option Job) :
    (v.push q job).queue = update v.queue q (v.queue q ++ [job]) := rfl
@[simp] theorem push_jobs (job : Option Job) : (v.push q job).jobs = v.jobs := rfl
@[simp] theorem push_owner (job : Option Job) : (v.push q job).owner = v.owner := rfl

end

/-- The first job leaves the FIFO; `o` has the rank if there is a next one. -/
def advance (r : RankId) (o : Owner) : View :=
  (v.setJobs r (v.jobs r).tail).setOwner r (if (v.jobs r).tail = [] then .idle else o)

def addJobs (r : RankId) (jobs : List Job) : View :=
  if v.jobs r = [] then
    ((v.setJobs r jobs).push (v.queueIdx r) jobs.head?).setOwner r (if jobs = [] then .idle else .queued)
  else v.setJobs r (v.jobs r ++ jobs)

end View

structure Places (v : View) (hold : Tid → Option Hold) : Prop where
  home : ∀ r, ∀ job ∈ v.jobs r, job.rank = r
  idle : ∀ r, v.owner r = .idle ↔ v.jobs r = []
  queued : ∀ q job, some job ∈ v.queue q →
    v.owner job.rank = .queued ∧ (v.jobs job.rank).head? = some job ∧ v.queueIdx job.rank = q
  distinct : ∀ q, (queuedRanks (v.queue q)).Nodup
  held : ∀ w h, hold w = some h → v.owner h.rank = h.owner w ∧ (v.jobs h.rank).head? = some h.job

namespace Places

variable {v : View} {hold : Tid → Option Hold} {w : Tid} {r : RankId}

theorem owner_of_held (h : Places v hold) {hd : Hold} (hw : hold w = some hd) : v.owner hd.rank = hd.owner w :=
  (h.held w hd hw).1

theorem ne_of_held (h : Places v hold) {w' : Tid} {hd hd' : Hold} (hw : hold w = some hd) (hw' : hold w' = some hd')
    (hne : w ≠ w') : hd.rank ≠ hd'.rank := by
  intro heq
  have howner := (h.owner_of_held hw).symm.trans (heq ▸ h.owner_of_held hw')
  simp only [Hold.owner] at howner
  split at howner <;> split at howner <;> simp_all

/-- A rank that no queue has, for who else has it. -/
theorem not_mem_queue (h : Places v hold) (hr : v.owner r ≠ .queued) (q : Nat) : r ∉ queuedRanks (v.queue q) := by
  intro hmem
  obtain ⟨job, hjob, rfl⟩ := mem_queuedRanks.1 hmem
  exact hr (h.queued q job hjob).1

theorem not_mem_queue_of_held (h : Places v hold) {hd : Hold} (hw : hold w = some hd) (q : Nat) :
    hd.rank ∉ queuedRanks (v.queue q) := by
  apply h.not_mem_queue
  rw [h.owner_of_held hw, Hold.owner]
  split <;> nofun

/-- Rank `r` gets a new FIFO and a new owner. The other places are as they were, if no queue had
the rank. -/
theorem change (h : Places v hold) (r : RankId) (jobs : List Job) (o : Owner) (hold' : Tid → Option Hold)
    (hnotin : ∀ q, r ∉ queuedRanks (v.queue q)) (hhome : ∀ job ∈ jobs, job.rank = r) (hidle : o = .idle ↔ jobs = [])
    (hheld : ∀ w hd, hold' w = some hd →
      hd.rank ≠ r ∧ hold w = some hd ∨ hd.rank = r ∧ o = hd.owner w ∧ jobs.head? = some hd.job) :
    Places ((v.setJobs r jobs).setOwner r o) hold' where
  home r' := by
    by_cases hr : r' = r
    · subst hr
      simpa [View.setJobs, View.setOwner] using hhome
    · simpa [View.setJobs, View.setOwner, hr] using h.home r'
  idle r' := by
    by_cases hr : r' = r
    · subst hr
      simpa [View.setJobs, View.setOwner] using hidle
    · simpa [View.setJobs, View.setOwner, hr] using h.idle r'
  queued q job hmem := by
    have hr : job.rank ≠ r := fun heq => hnotin q (mem_queuedRanks.2 ⟨job, hmem, heq⟩)
    simp only [View.setJobs, View.setOwner, update_of_ne hr]
    exact h.queued q job hmem
  distinct := h.distinct
  held w hd hw := by
    rcases hheld w hd hw with ⟨hr, hw⟩ | ⟨rfl, rfl, hhead⟩
    · simp only [View.setJobs, View.setOwner, update_of_ne hr]
      exact h.held w hd hw
    · simp [View.setJobs, View.setOwner, hhead]

/-- The same for a worker that has the rank, and gives it up or keeps it. -/
theorem change_held (h : Places v hold) {hd : Hold} (hw : hold w = some hd) (jobs : List Job) (o : Owner)
    (hd' : Option Hold) (hhome : ∀ job ∈ jobs, job.rank = hd.rank) (hidle : o = .idle ↔ jobs = [])
    (hheld : ∀ x, hd' = some x → x.rank = hd.rank ∧ o = x.owner w ∧ jobs.head? = some x.job) :
    Places ((v.setJobs hd.rank jobs).setOwner hd.rank o) (update hold w hd') := by
  apply h.change _ _ _ _ (h.not_mem_queue_of_held hw) hhome hidle
  intro w' x hx
  by_cases hww : w' = w
  · subst hww
    rw [update_self] at hx
    exact .inr (hheld x hx)
  · rw [update_of_ne hww] at hx
    exact .inl ⟨h.ne_of_held hx hw hww, hx⟩

/-- A shorter list in a queue. -/
theorem setQueue (h : Places v hold) {q : Nat} {entries : List (Option Job)} (hsub : entries.Sublist (v.queue q)) :
    Places (v.setQueue q entries) hold where
  home := h.home
  idle := h.idle
  queued q' job hmem := by
    apply h.queued q' job
    by_cases hq : q' = q
    · subst hq
      rw [View.setQueue_queue, update_self] at hmem
      exact hsub.subset hmem
    · simpa [View.setQueue, hq] using hmem
  distinct q' := by
    by_cases hq : q' = q
    · subst hq
      rw [View.setQueue_queue, update_self]
      exact (h.distinct q').sublist (hsub.filterMap _)
    · simpa [View.setQueue, hq] using h.distinct q'
  held := h.held

/-- A rank that has been given to its queue gets into the list. -/
theorem push (h : Places v hold) (job : Job) (howner : v.owner job.rank = .queued)
    (hhead : (v.jobs job.rank).head? = some job) (hnotin : ∀ q, job.rank ∉ queuedRanks (v.queue q)) :
    Places (v.push (v.queueIdx job.rank) (some job)) hold where
  home := h.home
  idle := h.idle
  queued q job' hmem := by
    by_cases hq : q = v.queueIdx job.rank
    · subst hq
      rw [View.push_queue, update_self, List.mem_append, List.mem_singleton, Option.some.injEq] at hmem
      rcases hmem with hmem | rfl
      · exact h.queued _ job' hmem
      · exact ⟨howner, hhead, rfl⟩
    · rw [View.push_queue, update_of_ne hq] at hmem
      exact h.queued q job' hmem
  distinct q := by
    by_cases hq : q = v.queueIdx job.rank
    · subst hq
      have happ : queuedRanks (v.queue (v.queueIdx job.rank) ++ [some job]) =
          queuedRanks (v.queue (v.queueIdx job.rank)) ++ [job.rank] := by simp [queuedRanks]
      rw [View.push_queue, update_self, happ]
      exact (h.distinct _).append (List.nodup_singleton _) (by simpa using hnotin _)
    · rw [View.push_queue, update_of_ne hq]
      exact h.distinct q
  held := h.held

theorem push_none (h : Places v hold) (q : Nat) : Places (v.push q none) hold where
  home := h.home
  idle := h.idle
  queued q' job hmem := by
    apply h.queued q' job
    by_cases hq : q' = q
    · subst hq
      simpa [View.push, View.setQueue] using hmem
    · simpa [View.push, View.setQueue, hq] using hmem
  distinct q' := by
    by_cases hq : q' = q
    · subst hq
      simpa [View.push, View.setQueue, queuedRanks] using h.distinct q'
    · simpa [View.push, View.setQueue, hq] using h.distinct q'
  held := h.held

/-! ## The operations -/

/-- A worker takes the first rank of a queue. -/
theorem take (h : Places v hold) {q : Nat} {job : Job} {rest : List (Option Job)} (hq : v.queue q = some job :: rest)
    (hw : hold w = none) :
    Places ((v.setQueue q rest).setOwner job.rank (.taken w)) (update hold w (some ⟨job.rank, job, false⟩)) := by
  have hmem : some job ∈ v.queue q := by rw [hq]; exact List.mem_cons_self
  obtain ⟨howner, hhead, hidx⟩ := h.queued q job hmem
  have hsub : Places (v.setQueue q rest) hold := h.setQueue (by rw [hq]; exact List.sublist_cons_self _ _)
  have hkeep : (v.setQueue q rest).setJobs job.rank (v.jobs job.rank) = v.setQueue q rest := by
    simp [View.setQueue, View.setJobs]
  rw [← hkeep]
  apply hsub.change
  · intro q' hmem'
    by_cases hqq : q' = q
    · subst hqq
      rw [View.setQueue_queue, update_self] at hmem'
      have hnodup := h.distinct q'
      rw [hq, queuedRanks_cons, List.nodup_cons] at hnodup
      exact hnodup.1 hmem'
    · rw [View.setQueue_queue, update_of_ne hqq] at hmem'
      obtain ⟨job', hjob', hrank⟩ := mem_queuedRanks.1 hmem'
      have hidx' := (h.queued q' job' hjob').2.2
      rw [hrank, hidx] at hidx'
      exact hqq hidx'.symm
  · exact h.home job.rank
  · have hne : v.jobs job.rank ≠ [] := fun hnil => by simp [hnil] at hhead
    simp [hne]
  · intro w' hd hd'
    by_cases hww : w' = w
    · subst hww
      rw [update_self, Option.some.injEq] at hd'
      subst hd'
      exact .inr ⟨rfl, rfl, hhead⟩
    · rw [update_of_ne hww] at hd'
      refine .inl ⟨fun heq => ?_, hd'⟩
      have howner' := h.owner_of_held hd'
      rw [heq, howner, Hold.owner] at howner'
      split at howner' <;> cases howner'

theorem head_mem {hd : Hold} (h : Places v hold) (hw : hold w = some hd) : hd.job ∈ v.jobs hd.rank :=
  List.mem_of_head? (h.held w hd hw).2

theorem jobs_ne_nil {hd : Hold} (h : Places v hold) (hw : hold w = some hd) : v.jobs hd.rank ≠ [] :=
  List.ne_nil_of_mem (h.head_mem hw)

/-- The first job is counted, or left to wait for the other ranks. -/
theorem keep (h : Places v hold) {hd : Hold} (hw : hold w = some hd) (o : Owner) (hd' : Option Hold) (ho : o ≠ .idle)
    (hheld : ∀ x, hd' = some x → x.rank = hd.rank ∧ o = x.owner w ∧ x.job = hd.job) :
    Places (v.setOwner hd.rank o) (update hold w hd') := by
  have hkeep : v.setJobs hd.rank (v.jobs hd.rank) = v := by simp [View.setJobs]
  have hchange := h.change_held hw (v.jobs hd.rank) o hd' (h.home hd.rank) (by simp [ho, h.jobs_ne_nil hw]) ?_
  · rwa [hkeep] at hchange
  · intro x hx
    obtain ⟨hr, ho, hjob⟩ := hheld x hx
    exact ⟨hr, ho, hjob ▸ (h.held w hd hw).2⟩

/-- The worker that has a rank gets to the next job. -/
theorem advance (h : Places v hold) {hd : Hold} (hw : hold w = some hd) :
    Places (v.advance hd.rank (.taken w))
      (update hold w ((v.jobs hd.rank).tail.head?.map fun job => ⟨hd.rank, job, false⟩)) := by
  apply h.change_held hw
  · exact fun job hjob => h.home hd.rank job (List.mem_of_mem_tail hjob)
  · split <;> simp_all
  · intro x hx
    obtain ⟨job, hjob, rfl⟩ := Option.map_eq_some_iff.1 hx
    have hne : (v.jobs hd.rank).tail ≠ [] := fun hnil => by simp [hnil] at hjob
    exact ⟨rfl, by simp [hne, Hold.owner], hjob⟩

/-- The worker gives the rank back to its queue. -/
theorem requeue (h : Places v hold) {hd : Hold} (hw : hold w = some hd) :
    Places ((v.push (v.queueIdx hd.rank) (some hd.job)).setOwner hd.rank .queued) (update hold w none) := by
  have hrank : hd.job.rank = hd.rank := h.home hd.rank hd.job (h.head_mem hw)
  have hgiven := h.keep hw .queued none nofun nofun
  have hpushed := hgiven.push hd.job (by simp [View.setOwner, hrank])
    (by rw [hrank]; exact (h.held w hd hw).2) (by rw [hrank]; exact h.not_mem_queue_of_held hw)
  rw [hrank] at hpushed
  exact hpushed

/-- A parked rank gets to the next job and goes to its queue. -/
theorem unpark (h : Places v hold) (hr : v.owner r = .parked) :
    Places ((v.advance r .queued).push (v.queueIdx r) (v.jobs r).tail.head?) hold := by
  have hnotin : ∀ q, r ∉ queuedRanks (v.queue q) := h.not_mem_queue (by rw [hr]; nofun)
  have hadvanced : Places (v.advance r .queued) hold := by
    apply h.change r _ _ hold hnotin
    · exact fun job hjob => h.home r job (List.mem_of_mem_tail hjob)
    · split <;> simp_all
    · intro w' hd hw'
      refine .inl ⟨fun heq => ?_, hw'⟩
      have howner := h.owner_of_held hw'
      rw [heq, hr, Hold.owner] at howner
      split at howner <;> cases howner
  cases hnext : (v.jobs r).tail.head? with
  | none => exact hadvanced.push_none _
  | some job =>
    have hmem : job ∈ (v.jobs r).tail := List.mem_of_head? hnext
    have hrank : job.rank = r := h.home r job (List.mem_of_mem_tail hmem)
    subst hrank
    apply hadvanced.push job
    · simp [View.advance, View.setOwner, List.ne_nil_of_mem hmem]
    · simpa [View.advance, View.setOwner, View.setJobs] using hnext
    · exact hnotin

/-- The FIFO of a failed job is drained. -/
theorem drain (h : Places v hold) {hd : Hold} (hw : hold w = some hd) :
    Places ((v.setJobs hd.rank []).setOwner hd.rank .idle) (update hold w none) :=
  h.change_held hw [] .idle none nofun (by simp) nofun

theorem addJobs (h : Places v hold) {jobs : List Job} (hjobs : ∀ job ∈ jobs, job.rank = r) :
    Places (v.addJobs r jobs) hold := by
  unfold View.addJobs
  split
  · next hempty =>
    have hidle : v.owner r = .idle := (h.idle r).2 hempty
    have hnotin : ∀ q, r ∉ queuedRanks (v.queue q) := h.not_mem_queue (by rw [hidle]; nofun)
    have hgiven : Places ((v.setJobs r jobs).setOwner r (if jobs = [] then .idle else .queued)) hold := by
      apply h.change r _ _ hold hnotin hjobs
      · split <;> simp_all
      · intro w' hd hw'
        refine .inl ⟨fun heq => ?_, hw'⟩
        exact h.jobs_ne_nil hw' (heq ▸ hempty)
    cases hjobs' : jobs with
    | nil => exact (hjobs' ▸ hgiven).push_none _
    | cons job rest =>
      have hrank : job.rank = r := hjobs job (by simp [hjobs'])
      subst hrank
      subst hjobs'
      exact hgiven.push job (by simp [View.setOwner]) (by simp [View.setOwner, View.setJobs]) hnotin
  · next hne =>
    refine ⟨?_, ?_, ?_, h.distinct, ?_⟩
    · intro r'
      by_cases hr : r' = r
      · subst hr
        intro job hjob
        rw [View.setJobs_jobs, update_self, List.mem_append] at hjob
        exact hjob.elim (h.home r' job) (hjobs job)
      · simpa [View.setJobs, hr] using h.home r'
    · intro r'
      by_cases hr : r' = r
      · subst hr
        simpa [View.setJobs, hne] using h.idle r'
      · simpa [View.setJobs, hr] using h.idle r'
    · intro q job hmem
      obtain ⟨howner, hhead, hidx⟩ := h.queued q job hmem
      refine ⟨howner, ?_, hidx⟩
      by_cases hr : job.rank = r
      · subst hr
        rw [View.setJobs_jobs, update_self]
        exact List.head?_append_of_ne_nil _ hne ▸ hhead
      · simpa [View.setJobs, hr] using hhead
    · intro w' hd hw'
      obtain ⟨howner, hhead⟩ := h.held w' hd hw'
      refine ⟨howner, ?_⟩
      by_cases hr : hd.rank = r
      · subst hr
        rw [View.setJobs_jobs, update_self]
        exact List.head?_append_of_ne_nil _ hne ▸ hhead
      · simpa [View.setJobs, hr] using hhead

end Places

end DpuBackend.Jobs
