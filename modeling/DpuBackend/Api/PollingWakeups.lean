import DpuBackend.Api.Polling

/-
  No wake-up is lost.

  The polling thread attends a rank (`Attended`) while it will still come to it: it was
  told of a launch, it has seen a DPU run, or its iteration has not passed the rank. The
  invariant `Inv` says that it attends every rank some thread waits on, or could wait on
  again once it has the lock.

  Three things lose a wake-up. A poll of the polling thread that fails leaves the DPUs
  recorded as running, and a thread in `dpu_sync_dpu` waits on while nobody polls. A poll
  of another thread records DPUs as stopped and broadcasts nothing. And a launch between
  the read of `nb_dpu_running` and the poll hides that a DPU stopped. `no_lost_completion` is
  about the runs whose steps do none of these (`Meets`).
-/

namespace DpuBackend.Api.Polling

open DpuBackend.Lib

/-- The polling thread will come to rank `r`, or stay awake. -/
def Attended (s : State) (r : Nat) : Prop :=
  s.poller.isDpuRunning = true ∨ s.poller.oneRankRunning = true ∨
    match s.poller.pc with
    | .scan i => i ≤ r
    | .polling i _ => i ≤ r
    | _ => False

/-- A woken thread would wait again. -/
def RunContext.again (c : RunContext) (target : Target) : Bool :=
  c.runs target && (target != .rank || c.pollOk)

/-! ## The condition -/

/-- A poll finds running what the threads in `pthread_cond_wait` wait for. -/
def PollKeeps (cfg : Config) (s : State) (r : Nat) : Prop :=
  ∀ t target, s.pc t = .waiting r target →
    ((s.rank r).dpuPollRank (cfg.enabledDpus r)).context.runs target = true

/-- A launch of a disabled DPU is refused. -/
def Target.Enabled (enabled : Finset Dpu) : Target → Prop
  | .rank => True
  | .dpu d => d ∈ enabled

/-- A launch that comes to its poll finds running what is waited for, and starts nothing
when it fails after it. -/
def LaunchKeeps (cfg : Config) (s : State) (r : Nat) (target : Target) (answer : Launch) : Prop :=
  target.Enabled (cfg.enabledDpus r) →
    match answer with
    | .bootFails started => started = ∅ ∧ PollKeeps cfg s r
    | .done => PollKeeps cfg s r
    | _ => True

def Meets (cfg : Config) (s : State) : Label → Prop
  | .boot t target answer =>
    ∀ r, s.pc t = .locked r → (s.rank r).alreadyRunning target = false → LaunchKeeps cfg s r target answer
  | .poll _ r fails => fails = false → PollKeeps cfg s r
  | .launch _ r target answer =>
    LaunchKeeps cfg s r target answer ∧
      -- nobody tells the polling thread of this launch
      (Attended s r ∨ ∀ t target', s.pc t = .woken r target' →
        ((s.rank r).dpuLaunchThread (cfg.enabledDpus r) target answer).1.context.again target' = false)
  | .pollRank fails =>
    ∀ i nb, s.poller.pc = .polling i nb → (s.rank i).mutex = none →
      if fails = true then
        s.poller.isDpuRunning = true ∨ s.poller.oneRankRunning = true ∨
          ∀ t d, s.pc t = .waiting i (.dpu d) ∨ s.pc t = .woken i (.dpu d) → d ∉ (s.rank i).context.dpuRunning
      else (s.rank i).context.nbDpuRunning ≤ nb ∨ PollKeeps cfg s i
  | _ => True

/-! ## The invariant -/

structure RankInv (enabled : Finset Dpu) (r : Rank) : Prop where
  count : r.context.nbDpuRunning = r.context.dpuRunning.card
  covers : r.hardware ⊆ r.context.dpuRunning
  enabled : r.hardware ⊆ enabled

/-- A worker that has booted and is about to tell the polling thread. -/
def Booted (s : State) (r : Nat) : Prop := ∃ t target, s.pc t = .booted r target

/-- What holds of a thread by where it is. -/
def ThreadInv (s : State) (t : Tid) : Pc → Prop
  | .idle => True
  | .locked r => (s.rank r).mutex = some t
  | .booted r _ => (s.rank r).mutex = some t
  | .check r target ok =>
    (s.rank r).mutex = some t ∧ (ok = true → (s.rank r).context.runs target = true → Attended s r)
  | .waiting r target => (s.rank r).context.runs target = true ∧ Attended s r
  | .woken r target => (s.rank r).context.again target = true → Attended s r ∨ Booted s r

structure Inv (cfg : Config) (s : State) : Prop where
  ranks : ∀ r, RankInv (cfg.enabledDpus r) (s.rank r)
  threads : ∀ t, ThreadInv s t (s.pc t)
  asleep : s.poller.pc = .asleep → s.poller.oneRankRunning = false

variable {cfg : Config} {s : State} {t : Tid} {r : Nat}

theorem Inv.noLostWakeup (h : Inv cfg s) : NoLostWakeup s := by
  intro t r target hpc
  have hthread := h.threads t
  rw [hpc] at hthread
  refine ⟨hthread.1, ?_⟩
  rintro ⟨hasleep, hflag⟩
  obtain hrunning | hone | hscan := hthread.2
  · rw [hflag] at hrunning
    cases hrunning
  · rw [h.asleep hasleep] at hone
    cases hone
  · rw [hasleep] at hscan
    exact hscan

theorem inv_start (cfg : Config) : Inv cfg State.start where
  ranks _ := ⟨rfl, Finset.empty_subset _, Finset.empty_subset _⟩
  threads _ := trivial
  asleep h := nomatch h

theorem RankInv.runs_ne_zero {enabled : Finset Dpu} {rank : Rank} (h : RankInv enabled rank) {target : Target}
    (hruns : rank.context.runs target = true) : rank.context.nbDpuRunning ≠ 0 := by
  cases target with
  | rank => simpa [RunContext.runs] using hruns
  | dpu d =>
    have hd : d ∈ rank.context.dpuRunning := by simpa [RunContext.runs] using hruns
    rw [h.count]
    exact Finset.card_ne_zero_of_mem hd

theorem RunContext.again_runs {c : RunContext} {target : Target} (h : c.again target = true) :
    c.runs target = true := by
  simp only [RunContext.again, Bool.and_eq_true] at h
  exact h.1

/-! ## What a step keeps of the other threads -/

/-- A thread that stays where it is keeps what holds of it: the locks it has, what it waits
for, and the attention of the polling thread. -/
theorem ThreadInv.keep {s s' : State} {pc : Pc} (h : ThreadInv s t pc)
    (hmutex : ∀ r, (s.rank r).mutex = some t → (s'.rank r).mutex = some t)
    (hwaiting : ∀ r target, pc = .waiting r target →
      (s.rank r).context.runs target = true → Attended s r → (s'.rank r).context.runs target = true ∧ Attended s' r)
    (hwoken : ∀ r target, pc = .woken r target →
      (s'.rank r).context.again target = true → Attended s' r ∨ Booted s' r ∨
        (s.rank r).context.again target = true ∧ (Attended s r → Attended s' r) ∧ (Booted s r → Booted s' r))
    (hcheck : ∀ r target ok, pc = .check r target ok → (s.rank r).mutex = some t →
      (s'.rank r).context.runs target = true → (s.rank r).context.runs target = true ∧ (Attended s r → Attended s' r)) :
    ThreadInv s' t pc := by
  cases pc with
  | idle => trivial
  | locked r => exact hmutex r h
  | booted r target => exact hmutex r h
  | check r target ok =>
    refine ⟨hmutex r h.1, fun hok hruns => ?_⟩
    obtain ⟨hruns', hattended⟩ := hcheck r target ok rfl h.1 hruns
    exact hattended (h.2 hok hruns')
  | waiting r target => exact hwaiting r target rfl h.1 h.2
  | woken r target =>
    intro hagain
    obtain hdone | hdone | ⟨hagain', hattended, hbooted⟩ := hwoken r target rfl hagain
    · exact .inl hdone
    · exact .inr hdone
    · exact (h hagain').imp hattended hbooted

/-- The same where no record changes. -/
theorem ThreadInv.same {s s' : State} {pc : Pc} (h : ThreadInv s t pc)
    (hmutex : ∀ r, (s.rank r).mutex = some t → (s'.rank r).mutex = some t)
    (hcontext : ∀ r, (s'.rank r).context = (s.rank r).context) (hattended : ∀ r, Attended s r → Attended s' r)
    (hbooted : ∀ r, Booted s r → Booted s' r ∨ Attended s' r) : ThreadInv s' t pc := by
  refine h.keep hmutex ?_ ?_ ?_
  · intro r target _ hruns hatt
    rw [hcontext]
    exact ⟨hruns, hattended r hatt⟩
  · intro r target hpc hagain
    rw [hcontext] at hagain
    rw [hpc] at h
    obtain hatt | hboot := h hagain
    · exact .inl (hattended r hatt)
    · exact (hbooted r hboot).elim (fun hboot => .inr (.inl hboot)) .inl
  · intro r target ok _ _ hruns
    rw [hcontext] at hruns
    exact ⟨hruns, hattended r⟩

/-- A thread `t` moves to `pc`, the others stay. -/
theorem threads_setPc {s : State} {pc : Pc} (hself : ThreadInv (s.setPc t pc) t pc)
    (hothers : ∀ t', t' ≠ t → ThreadInv (s.setPc t pc) t' (s.pc t')) :
    ∀ t', ThreadInv (s.setPc t pc) t' ((s.setPc t pc).pc t') := by
  intro t'
  by_cases heq : t' = t
  · subst heq
    simp only [State.setPc, Function.update_self]
    exact hself
  · have hpc : (s.setPc t pc).pc t' = s.pc t' := Function.update_of_ne heq _ _
    rw [hpc]
    exact hothers t' heq

theorem booted_setPc {s : State} {pc : Pc} (hpc : ∀ r target, s.pc t ≠ .booted r target) (h : Booted s r) :
    Booted (s.setPc t pc) r := by
  obtain ⟨t', target, ht'⟩ := h
  have hne : t' ≠ t := by
    rintro rfl
    exact hpc r target ht'
  exact ⟨t', target, (Function.update_of_ne hne _ _).trans ht'⟩

/-! ## The records -/

section Records

variable {enabled : Finset Dpu} {rank : Rank}

theorem RankInv.dpuPollRank (h : RankInv enabled rank) : RankInv enabled (rank.dpuPollRank enabled) where
  count := rfl
  covers := Finset.subset_inter (Finset.Subset.refl _) h.enabled
  enabled := h.enabled

theorem RankInv.poll_running (h : RankInv enabled rank) :
    (rank.dpuPollRank enabled).context.dpuRunning ⊆ rank.context.dpuRunning :=
  Finset.Subset.trans Finset.inter_subset_left h.covers

/-- A poll never records more. -/
theorem RankInv.poll_runs (h : RankInv enabled rank) {target : Target}
    (hruns : (rank.dpuPollRank enabled).context.runs target = true) : rank.context.runs target = true := by
  cases target with
  | rank =>
    have hne : (rank.dpuPollRank enabled).context.nbDpuRunning ≠ 0 := h.dpuPollRank.runs_ne_zero hruns
    have hle := Finset.card_le_card h.poll_running
    rw [h.dpuPollRank.count] at hne
    have hcount := h.count
    simp only [RunContext.runs, bne_iff_ne, ne_eq]
    omega
  | dpu d =>
    simp only [RunContext.runs, decide_eq_true_eq] at hruns ⊢
    exact h.poll_running hruns

/-- If it records less, the number is smaller. -/
theorem RankInv.poll_less (h : RankInv enabled rank) {target : Target} (hruns : rank.context.runs target = true)
    (hstopped : (rank.dpuPollRank enabled).context.runs target ≠ true) :
    (rank.dpuPollRank enabled).context.nbDpuRunning < rank.context.nbDpuRunning := by
  have hcount := h.count
  have hcount' := h.dpuPollRank.count
  rw [hcount, hcount']
  apply Finset.card_lt_card
  refine ⟨h.poll_running, fun hback => hstopped ?_⟩
  have heq : (rank.dpuPollRank enabled).context.dpuRunning = rank.context.dpuRunning :=
    Finset.Subset.antisymm h.poll_running hback
  cases target with
  | rank =>
    simp only [RunContext.runs, hcount'] at hruns ⊢
    rw [heq, ← hcount]
    exact hruns
  | dpu d =>
    simp only [RunContext.runs, heq] at hruns ⊢
    exact hruns

theorem RankInv.start (h : RankInv enabled rank) {target : Target} (henabled : target.Enabled enabled) :
    RankInv enabled (rank.start enabled target) := by
  cases target with
  | rank => exact ⟨rfl, Finset.union_subset h.enabled (Finset.Subset.refl _), Finset.union_subset h.enabled (Finset.Subset.refl _)⟩
  | dpu d =>
    refine ⟨?_, ?_, Finset.insert_subset henabled h.enabled⟩
    · simp only [Rank.start]
      split
      · exact h.count
      · next hd => rw [Finset.card_insert_of_notMem hd, ← h.count]
    · simp only [Rank.start]
      split
      · next hd => exact Finset.insert_subset hd h.covers
      · exact Finset.insert_subset_insert d h.covers

/-- A launch keeps what runs. -/
theorem RankInv.start_runs (h : RankInv enabled rank) (hrunning : rank.context.dpuRunning ⊆ enabled) {target target' : Target}
    (hruns : rank.context.runs target' = true) : (rank.start enabled target).context.runs target' = true := by
  have hne := h.runs_ne_zero hruns
  have hcount := h.count
  cases target with
  | rank =>
    cases target' with
    | rank =>
      have hle := Finset.card_le_card hrunning
      simp only [Rank.start, RunContext.runs, bne_iff_ne, ne_eq]
      omega
    | dpu d =>
      simp only [RunContext.runs, decide_eq_true_eq] at hruns
      exact decide_eq_true (hrunning hruns)
  | dpu d =>
    simp only [Rank.start]
    split
    · exact hruns
    · cases target' with
      | rank => simp [RunContext.runs]
      | dpu d' =>
        simp only [RunContext.runs, decide_eq_true_eq] at hruns ⊢
        exact Finset.mem_insert_of_mem hruns

/-- What a launch leaves of a rank: the record as it was, or a poll's and what was started. -/
structure Launched (enabled : Finset Dpu) (rank : Rank) (target : Target) (answer : Launch) (result : Rank × Bool) :
    Prop where
  inv : RankInv enabled result.1
  mutex : result.1.mutex = rank.mutex
  pollOk : result.1.context.pollOk = rank.context.pollOk
  runs : result.1.context = rank.context ∨ target.Enabled enabled ∧ (answer = .done ∨ ∃ started, answer = .bootFails started) ∧
    ∀ target', (rank.dpuPollRank enabled).context.runs target' = true → result.1.context.runs target' = true
  failed : result.2 = false → ∀ target', result.1.context.runs target' = true → rank.context.runs target' = true

theorem RankInv.launched (h : RankInv enabled rank) {target : Target} {answer : Launch}
    (hstarted : target.Enabled enabled → ∀ started, answer = .bootFails started → started = ∅) :
    Launched enabled rank target answer (rank.dpuLaunchThread enabled target answer) := by
  have hrefused : Launched enabled rank target answer (rank, false) :=
    ⟨h, rfl, rfl, .inl rfl, fun _ _ hruns => hruns⟩
  have hfailed : target.Enabled enabled → ∀ started, answer = .bootFails started →
      Launched enabled rank target answer ({ rank.dpuPollRank enabled with hardware := rank.hardware ∪ started }, false) := by
    intro henabled started hanswer
    obtain rfl := hstarted henabled started hanswer
    rw [Finset.union_empty]
    exact ⟨h.dpuPollRank, rfl, rfl, .inr ⟨henabled, .inr ⟨_, hanswer⟩, fun _ hruns => hruns⟩, fun _ _ hruns => h.poll_runs hruns⟩
  have hdone : target.Enabled enabled → answer = .done →
      Launched enabled rank target answer ((rank.dpuPollRank enabled).start enabled target, true) := by
    intro henabled hanswer
    refine ⟨h.dpuPollRank.start henabled, ?_, ?_, .inr ⟨henabled, .inl hanswer, fun target' hruns => ?_⟩, fun hfalse => nomatch hfalse⟩
    · cases target <;> rfl
    · cases target with
      | rank => rfl
      | dpu d =>
        simp only [Rank.start]
        split <;> rfl
    · exact h.dpuPollRank.start_runs Finset.inter_subset_right hruns
  unfold Rank.dpuLaunchThread
  split
  · split
    · next henabled => exact hdone henabled rfl
    · exact hrefused
  · exact hdone trivial rfl
  · split
    · next henabled => exact hfailed henabled _ rfl
    · exact hrefused
  · exact hfailed trivial _ rfl
  · exact hrefused

end Records

/-! ## The steps -/

namespace Inv

variable (h : Inv cfg s)

include h

/-- The thread of `t`, by where it is. -/
theorem thread {pc : Pc} (hpc : s.pc t = pc) : ThreadInv s t pc := by
  have hthread := h.threads t
  rwa [hpc] at hthread

theorem ranks_setMutex (r : Nat) (holder : Option Tid) :
    ∀ r', RankInv (cfg.enabledDpus r') ((s.setMutex r holder).rank r') := by
  intro r'
  by_cases heq : r' = r
  · subst heq
    have hrank := h.ranks r'
    simp only [State.setMutex, State.setRank, Function.update_self]
    exact ⟨hrank.count, hrank.covers, hrank.enabled⟩
  · simp only [State.setMutex, State.setRank, Function.update_of_ne heq]
    exact h.ranks r'

end Inv

theorem context_setMutex (s : State) (r r' : Nat) (holder : Option Tid) :
    ((s.setMutex r holder).rank r').context = (s.rank r').context := by
  by_cases heq : r' = r
  · subst heq
    simp only [State.setMutex, State.setRank, Function.update_self]
  · simp only [State.setMutex, State.setRank, Function.update_of_ne heq]

theorem mutex_setMutex (s : State) (r r' : Nat) (holder : Option Tid) :
    ((s.setMutex r holder).rank r').mutex = if r' = r then holder else (s.rank r').mutex := by
  by_cases heq : r' = r
  · subst heq
    simp only [State.setMutex, State.setRank, Function.update_self, if_true]
  · simp only [State.setMutex, State.setRank, Function.update_of_ne heq, if_neg heq]

/-- Thread `t` takes or gives back a lock and moves: the others keep what they have. -/
theorem Inv.move (h : Inv cfg s) {t : Tid} {r : Nat} {holder : Option Tid} {pc : Pc}
    (hholder : (s.rank r).mutex = none ∨ (s.rank r).mutex = some t)
    (hbooted : ∀ r target, s.pc t ≠ .booted r target)
    (hself : ThreadInv ((s.setMutex r holder).setPc t pc) t pc) : Inv cfg ((s.setMutex r holder).setPc t pc) where
  ranks := h.ranks_setMutex r holder
  threads := by
    refine threads_setPc hself fun t' hne => ?_
    refine (h.threads t').same ?_ (context_setMutex s r · holder) (fun _ hatt => hatt) ?_
    · intro r' hmutex
      show ((s.setMutex r holder).rank r').mutex = some t'
      rw [mutex_setMutex]
      split
      · next heq =>
        subst heq
        rw [hmutex] at hholder
        rcases hholder with hnone | hsome
        · cases hnone
        · exact absurd (Option.some.inj hsome) hne
      · exact hmutex
    · intro r' hboot
      exact .inl (booted_setPc (s := s.setMutex r holder) hbooted hboot)
  asleep := h.asleep

theorem Inv.lock (h : Inv cfg s) (hidle : s.pc t = .idle) (hfree : (s.rank r).mutex = none) :
    Inv cfg ((s.setMutex r (some t)).setPc t (.locked r)) := by
  apply h.move (.inl hfree)
  · intro r' target hpc
    rw [hidle] at hpc
    cases hpc
  · show ((s.setMutex r (some t)).rank r).mutex = some t
    rw [mutex_setMutex, if_pos rfl]

theorem Inv.unlock (h : Inv cfg s) (hpc : s.pc t = .locked r) : Inv cfg ((s.setMutex r none).setPc t .idle) := by
  apply h.move (.inr (h.thread hpc))
  · intro r' target hpc'
    rw [hpc] at hpc'
    cases hpc'
  · trivial

theorem Inv.look (h : Inv cfg s) {target : Target} {ok : Bool} (hpc : s.pc t = .check r target ok) :
    Inv cfg (s.look t r target ok) := by
  obtain ⟨hmutex, hattended⟩ := h.thread hpc
  have hbooted : ∀ r' target', s.pc t ≠ .booted r' target' := by
    intro r' target' hpc'
    rw [hpc] at hpc'
    cases hpc'
  unfold State.look
  split
  · next hwait =>
    apply h.move (.inr hmutex) hbooted
    refine ⟨?_, hattended hwait.1 hwait.2⟩
    show ((s.setMutex r none).rank r).context.runs target = true
    rw [context_setMutex]
    exact hwait.2
  · have hself : s.setMutex r (some t) = s := by
      unfold State.setMutex State.setRank
      rw [← hmutex, Function.update_eq_self]
    have hmove : Inv cfg ((s.setMutex r (some t)).setPc t (.locked r)) := by
      apply h.move (.inr hmutex) hbooted
      show ((s.setMutex r (some t)).rank r).mutex = some t
      rw [mutex_setMutex, if_pos rfl]
    rwa [hself] at hmove

theorem Inv.resume (h : Inv cfg s) {target : Target} (hpc : s.pc t = .woken r target)
    (hfree : (s.rank r).mutex = none) : Inv cfg (s.resume t r target) := by
  apply h.move (.inl hfree)
  · intro r' target' hpc'
    rw [hpc] at hpc'
    cases hpc'
  · refine ⟨?_, fun hok hruns => ?_⟩
    · show ((s.setMutex r (some t)).rank r).mutex = some t
      rw [mutex_setMutex, if_pos rfl]
    · change ((s.setMutex r (some t)).rank r).context.runs target = true at hruns
      rw [context_setMutex] at hruns
      have hagain : (s.rank r).context.again target = true := by
        simp only [RunContext.again, hruns, Bool.true_and]
        exact hok
      obtain hatt | ⟨t', target', hbooted⟩ := h.thread hpc hagain
      · exact hatt
      · -- a booted worker has the lock
        have hmutex : (s.rank r).mutex = some t' := h.thread hbooted
        rw [hfree] at hmutex
        cases hmutex

theorem Inv.setDpuRunning (h : Inv cfg s) {target : Target} (hpc : s.pc t = .booted r target) :
    Inv cfg (s.setDpuRunning t r target) where
  ranks := h.ranks
  threads := by
    apply threads_setPc
    · exact ⟨h.thread hpc, fun _ _ => .inl rfl⟩
    · intro t' _
      exact (h.threads t').same (fun _ hmutex => hmutex) (fun _ => rfl) (fun _ _ => .inl rfl) fun _ _ => .inr (.inl rfl)
  asleep := h.asleep

theorem Inv.spurious (h : Inv cfg s) {target : Target} (hpc : s.pc t = .waiting r target) :
    Inv cfg (s.setPc t (.woken r target)) where
  ranks := h.ranks
  threads := by
    apply threads_setPc
    · intro _
      exact .inl (h.thread hpc).2
    · intro t' _
      refine (h.threads t').same (fun _ hmutex => hmutex) (fun _ => rfl) (fun _ hatt => hatt) fun r' hboot => .inl ?_
      apply booted_setPc _ hboot
      intro r'' target' hpc'
      rw [hpc] at hpc'
      cases hpc'
  asleep := h.asleep

/-! ## The steps that change a record -/

theorem attended_congr {s s' : State} (hpoller : s'.poller = s.poller) (r : Nat) : Attended s' r ↔ Attended s r := by
  unfold Attended
  rw [hpoller]

/-- The record of rank `r` changes: whoever waits there finds running what it waits for, and
whoever could wait again is attended. -/
theorem ThreadInv.record {s s' : State} {pc : Pc} (h : ThreadInv s t pc) (hrank : ∀ r', r' ≠ r → s'.rank r' = s.rank r')
    (hmutex : (s'.rank r).mutex = (s.rank r).mutex) (hpoller : s'.poller = s.poller)
    (hbooted : ∀ r', Booted s r' → Booted s' r')
    (hwaiting : ∀ target, pc = .waiting r target → (s.rank r).context.runs target = true →
      (s'.rank r).context.runs target = true)
    (hwoken : ∀ target, pc = .woken r target → (s'.rank r).context.again target = true →
      Attended s r ∨ Booted s' r ∨ (s.rank r).context.again target = true)
    (hcheck : ∀ target ok, pc = .check r target ok → (s.rank r).mutex = some t →
      (s'.rank r).context.runs target = true → (s.rank r).context.runs target = true) : ThreadInv s' t pc := by
  refine h.keep ?_ ?_ ?_ ?_
  · intro r' hheld
    by_cases heq : r' = r
    · subst heq
      rw [hmutex]
      exact hheld
    · rw [hrank r' heq]
      exact hheld
  · intro r' target hpc hruns hatt
    refine ⟨?_, (attended_congr hpoller r').mpr hatt⟩
    by_cases heq : r' = r
    · subst heq
      exact hwaiting target hpc hruns
    · rw [hrank r' heq]
      exact hruns
  · intro r' target hpc hagain
    by_cases heq : r' = r
    · subst heq
      obtain hatt | hboot | hagain' := hwoken target hpc hagain
      · exact .inl ((attended_congr hpoller r').mpr hatt)
      · exact .inr (.inl hboot)
      · exact .inr (.inr ⟨hagain', (attended_congr hpoller r').mpr, hbooted r'⟩)
    · rw [hrank r' heq] at hagain
      exact .inr (.inr ⟨hagain, (attended_congr hpoller r').mpr, hbooted r'⟩)
  · intro r' target ok hpc hheld hruns
    refine ⟨?_, (attended_congr hpoller r').mpr⟩
    by_cases heq : r' = r
    · subst heq
      exact hcheck target ok hpc hheld hruns
    · rw [hrank r' heq] at hruns
      exact hruns

theorem rank_setRank_same (s : State) (r : Nat) (rank : Rank) : (s.setRank r rank).rank r = rank :=
  Function.update_self ..

theorem rank_setRank_other (s : State) {r r' : Nat} (rank : Rank) (hne : r' ≠ r) :
    (s.setRank r rank).rank r' = s.rank r' := Function.update_of_ne hne ..

theorem Inv.ranks_setRank (h : Inv cfg s) {rank : Rank} (hrank : RankInv (cfg.enabledDpus r) rank) :
    ∀ r', RankInv (cfg.enabledDpus r') ((s.setRank r rank).rank r') := by
  intro r'
  by_cases heq : r' = r
  · subst heq
    rw [rank_setRank_same]
    exact hrank
  · rw [rank_setRank_other s rank heq]
    exact h.ranks r'

/-- The record of a rank changes and no thread moves. -/
theorem Inv.setRank (h : Inv cfg s) {rank : Rank} (hrank : RankInv (cfg.enabledDpus r) rank)
    (hmutex : rank.mutex = (s.rank r).mutex)
    (hwaiting : ∀ t target, s.pc t = .waiting r target → (s.rank r).context.runs target = true →
      rank.context.runs target = true)
    (hwoken : ∀ t target, s.pc t = .woken r target → rank.context.again target = true →
      Attended s r ∨ (s.rank r).context.again target = true)
    (hcheck : ∀ t target ok, s.pc t = .check r target ok → (s.rank r).mutex = some t →
      rank.context.runs target = true → (s.rank r).context.runs target = true) : Inv cfg (s.setRank r rank) where
  ranks := h.ranks_setRank hrank
  threads := by
    intro t
    refine (h.threads t).record (r := r) (fun r' hne => rank_setRank_other s rank hne) ?_ rfl (fun _ hboot => hboot) ?_ ?_ ?_
    · rw [rank_setRank_same]
      exact hmutex
    · intro target hpc hruns
      rw [rank_setRank_same]
      exact hwaiting t target hpc hruns
    · intro target hpc hagain
      rw [rank_setRank_same] at hagain
      exact (hwoken t target hpc hagain).imp_right .inr
    · intro target ok hpc hheld hruns
      rw [rank_setRank_same] at hruns
      exact hcheck t target ok hpc hheld hruns
  asleep := h.asleep

theorem Inv.halt (h : Inv cfg s) (r : Nat) (d : Dpu) :
    Inv cfg (s.setRank r { s.rank r with hardware := (s.rank r).hardware.erase d }) := by
  have hrank := h.ranks r
  apply h.setRank
  · exact ⟨hrank.count, (Finset.erase_subset ..).trans hrank.covers, (Finset.erase_subset ..).trans hrank.enabled⟩
  · rfl
  · exact fun _ _ _ hruns => hruns
  · exact fun _ _ _ hagain => .inr hagain
  · exact fun _ _ _ _ _ hruns => hruns

/-- A thread that enters a rank finds none at its loop condition. -/
theorem Inv.no_check (h : Inv cfg s) (hmay : s.mayEnter t r = true) {t' : Tid} {target : Target} {ok : Bool}
    (hpc : s.pc t' = .check r target ok) : False := by
  have hmutex : (s.rank r).mutex = some t' := (h.thread hpc).1
  simp only [State.mayEnter, hmutex, Bool.and_eq_true, Bool.or_eq_true, beq_iff_eq, reduceCtorEq, false_or,
    Option.some.injEq] at hmay
  obtain ⟨hwhere, rfl⟩ := hmay
  rw [hpc] at hwhere
  cases hwhere

theorem Inv.poll (h : Inv cfg s) (hmay : s.mayEnter t r = true) (hkeeps : PollKeeps cfg s r) :
    Inv cfg (s.setRank r ((s.rank r).dpuPollRank (cfg.enabledDpus r))) := by
  have hrank := h.ranks r
  apply h.setRank hrank.dpuPollRank rfl
  · exact fun t' target hpc _ => hkeeps t' target hpc
  · intro t' target _ hagain
    right
    simp only [RunContext.again, Bool.and_eq_true] at hagain ⊢
    exact ⟨hrank.poll_runs hagain.1, hagain.2⟩
  · exact fun t' target ok hpc _ _ => (h.no_check hmay hpc).elim

/-- What is waited for runs after a launch that keeps it. -/
theorem Inv.launch_waiting (h : Inv cfg s) {target : Target} {answer : Launch}
    (hkeeps : LaunchKeeps cfg s r target answer) {result : Rank × Bool}
    (hlaunched : Launched (cfg.enabledDpus r) (s.rank r) target answer result) {target' : Target}
    (hpc : s.pc t = .waiting r target') : result.1.context.runs target' = true := by
  obtain hsame | ⟨henabled, hanswer, hruns⟩ := hlaunched.runs
  · rw [hsame]
    exact (h.thread hpc).1
  · apply hruns
    have hkeeps := hkeeps henabled
    obtain rfl | ⟨started, rfl⟩ := hanswer
    · exact hkeeps t target' hpc
    · exact hkeeps.2 t target' hpc

theorem LaunchKeeps.started {target : Target} {answer : Launch} (h : LaunchKeeps cfg s r target answer)
    (henabled : target.Enabled (cfg.enabledDpus r)) : ∀ started, answer = .bootFails started → started = ∅ := by
  rintro started rfl
  exact (h henabled).1

theorem Inv.launch (h : Inv cfg s) (hmay : s.mayEnter t r = true) {target : Target} {answer : Launch}
    (hkeeps : LaunchKeeps cfg s r target answer)
    (htold : Attended s r ∨ ∀ t target', s.pc t = .woken r target' →
      ((s.rank r).dpuLaunchThread (cfg.enabledDpus r) target answer).1.context.again target' = false) :
    Inv cfg (s.setRank r ((s.rank r).dpuLaunchThread (cfg.enabledDpus r) target answer).1) := by
  have hlaunched := (h.ranks r).launched hkeeps.started
  apply h.setRank hlaunched.inv hlaunched.mutex
  · exact fun t' target' hpc _ => h.launch_waiting hkeeps hlaunched hpc
  · intro t' target' hpc hagain
    obtain hatt | hnone := htold
    · exact .inl hatt
    · rw [hnone t' target' hpc] at hagain
      cases hagain
  · exact fun t' target' ok hpc _ _ => (h.no_check hmay hpc).elim

theorem Inv.boot (h : Inv cfg s) {target : Target} {answer : Launch} (hpc : s.pc t = .locked r)
    (hkeeps : (s.rank r).alreadyRunning target = false → LaunchKeeps cfg s r target answer) :
    Inv cfg ((s.setRank r ((s.rank r).dpuBoot (cfg.enabledDpus r) target answer).1).setPc t
      (if ((s.rank r).dpuBoot (cfg.enabledDpus r) target answer).2 then .booted r target else .locked r)) := by
  have hmutex : (s.rank r).mutex = some t := h.thread hpc
  have hbooted : ∀ r' target', s.pc t ≠ .booted r' target' := by
    intro r' target' hpc'
    rw [hpc] at hpc'
    cases hpc'
  cases halready : (s.rank r).alreadyRunning target with
  | true =>
    have hboot : (s.rank r).dpuBoot (cfg.enabledDpus r) target answer = (s.rank r, false) := if_pos halready
    have hset : s.setRank r (s.rank r) = s := by
      unfold State.setRank
      rw [Function.update_eq_self]
    have hpcs : s.setPc t (.locked r) = s := by
      unfold State.setPc
      rw [← hpc, Function.update_eq_self]
    rw [hboot]
    simp only [Bool.false_eq_true, if_false, hset, hpcs]
    exact h
  | false =>
    have hboot : (s.rank r).dpuBoot (cfg.enabledDpus r) target answer
        = (s.rank r).dpuLaunchThread (cfg.enabledDpus r) target answer := if_neg (by simp [halready])
    have hkeeps := hkeeps halready
    have hlaunched := (h.ranks r).launched hkeeps.started
    rw [hboot]
    generalize (s.rank r).dpuLaunchThread (cfg.enabledDpus r) target answer = result at hlaunched
    refine ⟨h.ranks_setRank hlaunched.inv, threads_setPc ?_ fun t' hne => ?_, h.asleep⟩
    · have hheld : ((s.setRank r result.1).rank r).mutex = some t := by
        rw [rank_setRank_same, hlaunched.mutex]
        exact hmutex
      split
      · exact hheld
      · exact hheld
    · refine (h.threads t').record (r := r) (fun r' hne => rank_setRank_other s result.1 hne) ?_ rfl ?_ ?_ ?_ ?_
      · exact (congrArg Rank.mutex (rank_setRank_same s r result.1)).trans hlaunched.mutex
      · exact fun r' hboot => booted_setPc (s := s.setRank r result.1) hbooted hboot
      · intro target' hpc' _
        refine (congrArg (fun rank => rank.context.runs target') (rank_setRank_same s r result.1)).trans ?_
        exact h.launch_waiting hkeeps hlaunched hpc'
      · intro target' _ hagain
        cases hdone : result.2 with
        | true => exact .inr (.inl ⟨t, target, by simp [State.setPc]⟩)
        | false =>
          right; right
          have hresult : result.1.context.again target' = true :=
            (congrArg (fun rank => rank.context.again target') (rank_setRank_same s r result.1)).symm.trans hagain
          simp only [RunContext.again, Bool.and_eq_true, hlaunched.pollOk] at hresult ⊢
          exact ⟨hlaunched.failed hdone target' hresult.1, hresult.2⟩
      · intro target' ok _ hheld
        rw [hmutex] at hheld
        exact absurd (Option.some.inj hheld).symm hne

/-! ## The polling thread -/

/-- A thread on a rank of the queue. -/
def Pc.On : Pc → Nat → Prop
  | .idle, _ => False
  | .locked r', r => r' = r
  | .booted r' _, r => r' = r
  | .check r' _ _, r => r' = r
  | .waiting r' _, r => r' = r
  | .woken r' _, r => r' = r

def InRange (cfg : Config) (s : State) : Prop := ∀ t r, (s.pc t).On r → r < cfg.nrRanks

theorem wake_on (i : Nat) (pc : Pc) (r : Nat) : (State.wake i pc).On r ↔ pc.On r := by
  cases pc with
  | waiting r' target =>
    simp only [State.wake]
    split
    · next heq =>
      subst heq
      rfl
    · rfl
  | _ => rfl

/-- Only who waits on the rank is woken. -/
theorem wake_other {i : Nat} {pc : Pc} (h : ∀ target, pc ≠ .waiting i target) : State.wake i pc = pc := by
  cases pc with
  | waiting r target =>
    refine if_neg ?_
    rintro rfl
    exact h target rfl
  | _ => rfl

theorem Inv.top (h : Inv cfg s) (hpc : s.poller.pc = .top) : Inv cfg s.top := by
  unfold State.top
  split
  · next hnone =>
    refine ⟨h.ranks, fun t => ?_, fun _ => hnone.2⟩
    refine (h.threads t).same (fun _ hmutex => hmutex) (fun _ => rfl) ?_ fun _ hboot => .inl hboot
    -- nobody is attended by a polling thread that goes to sleep
    intro r hatt
    rcases hatt with hflag | hone | hscan
    · exact .inl hflag
    · exact .inr (.inl hone)
    · rw [hpc] at hscan
      exact hscan.elim
  · refine ⟨h.ranks, fun t => ?_, fun hasleep => nomatch hasleep⟩
    exact (h.threads t).same (fun _ hmutex => hmutex) (fun _ => rfl) (fun r _ => .inr (.inr (Nat.zero_le r)))
      fun _ hboot => .inl hboot

theorem Inv.wakePoller (h : Inv cfg s) : Inv cfg (s.setPoller (.scan 0)) := by
  refine ⟨h.ranks, fun t => ?_, fun hasleep => nomatch hasleep⟩
  exact (h.threads t).same (fun _ hmutex => hmutex) (fun _ => rfl) (fun r _ => .inr (.inr (Nat.zero_le r)))
    fun _ hboot => .inl hboot

/-- The polling thread moves on, past ranks where nothing runs. -/
theorem Inv.pass (h : Inv cfg s) {pc : PollerPc} (hasleep : pc ≠ .asleep)
    (hpass : ∀ t r target, (s.pc t).On r → (s.rank r).context.runs target = true → Attended s r →
      Attended (s.setPoller pc) r) : Inv cfg (s.setPoller pc) := by
  refine ⟨h.ranks, fun t => ?_, fun heq => absurd heq hasleep⟩
  refine (h.threads t).keep (fun _ hmutex => hmutex) ?_ ?_ ?_
  · intro r target hpc hruns hatt
    exact ⟨hruns, hpass t r target (by rw [hpc]; rfl) hruns hatt⟩
  · intro r target hpc hagain
    exact .inr (.inr ⟨hagain, hpass t r target (by rw [hpc]; rfl) (RunContext.again_runs hagain), id⟩)
  · intro r target ok hpc _ hruns
    exact ⟨hruns, hpass t r target (by rw [hpc]; rfl) hruns⟩

theorem Inv.readRank (h : Inv cfg s) (hrange : InRange cfg s) {i : Nat} (hpc : s.poller.pc = .scan i) :
    Inv cfg (s.readRank cfg i) := by
  unfold State.readRank
  split
  · split
    · next hzero =>
      apply h.pass
      · exact fun heq => nomatch heq
      · intro t r target _ hruns hatt
        refine hatt.imp_right (Or.imp_right fun hscan => ?_)
        rw [hpc] at hscan
        have hne : r ≠ i := by
          rintro rfl
          exact (h.ranks r).runs_ne_zero hruns hzero
        show i + 1 ≤ r
        have : i ≤ r := hscan
        omega
    · apply h.pass
      · exact fun heq => nomatch heq
      · intro t r target _ _ hatt
        refine hatt.imp_right (Or.imp_right fun hscan => ?_)
        rw [hpc] at hscan
        exact hscan
  · next hend =>
    apply h.pass
    · exact fun heq => nomatch heq
    · intro t r target hon _ hatt
      refine hatt.imp_right (Or.imp_right fun hscan => ?_)
      rw [hpc] at hscan
      have hle : i ≤ r := hscan
      have hlt := hrange t r hon
      omega

/-- The polling thread has polled rank `i`: who waits there is woken or finds it running, and
who could wait again is attended. -/
theorem Inv.polled (h : Inv cfg s) {s' : State} {i nb : Nat} (hpc : s.poller.pc = .polling i nb)
    (hfree : (s.rank i).mutex = none) (hrank : ∀ r, r ≠ i → s'.rank r = s.rank r)
    (hranki : RankInv (cfg.enabledDpus i) (s'.rank i))
    (hpoller : s'.poller.pc = .scan (i + 1)) (hflag : s'.poller.isDpuRunning = s.poller.isDpuRunning)
    (hone : s.poller.oneRankRunning = true → s'.poller.oneRankRunning = true)
    (hpcs : ∀ t, s'.pc t = State.wake i (s.pc t) ∨ s'.pc t = s.pc t ∧ ∀ target, s.pc t = .waiting i target →
      (s'.rank i).context.runs target = true ∧ Attended s' i)
    (hagain : ∀ t target, s.pc t = .waiting i target ∨ s.pc t = .woken i target →
      (s'.rank i).context.again target = true → Attended s' i) : Inv cfg s' where
  ranks := by
    intro r
    by_cases heq : r = i
    · subst heq
      exact hranki
    · rw [hrank r heq]
      exact h.ranks r
  threads := by
    have hattended : ∀ r, r ≠ i → Attended s r → Attended s' r := by
      intro r hne hatt
      rcases hatt with hrunning | hseen | hscan
      · exact .inl (hflag.trans hrunning)
      · exact .inr (.inl (hone hseen))
      · refine .inr (.inr ?_)
        rw [hpc] at hscan
        rw [hpoller]
        have : i ≤ r := hscan
        show i + 1 ≤ r
        omega
    have hbooted : ∀ r, Booted s r → Booted s' r := by
      rintro r ⟨t, target, ht⟩
      refine ⟨t, target, ?_⟩
      rcases hpcs t with hwoken | ⟨hsame, -⟩
      · rw [hwoken, ht]
        rfl
      · rw [hsame, ht]
    intro t
    have hkeep : ∀ pc, s.pc t = pc → (∀ target, pc ≠ .waiting i target) → ThreadInv s' t pc := by
      intro pc ht hnot
      have hthread := h.thread ht
      have hheld : ∀ r, (s.rank r).mutex = some t → r ≠ i := by
        rintro r hmutex rfl
        rw [hfree] at hmutex
        cases hmutex
      refine hthread.keep ?_ ?_ ?_ ?_
      · intro r hmutex
        rw [hrank r (hheld r hmutex)]
        exact hmutex
      · intro r target heq hruns hatt
        have hne : r ≠ i := by
          rintro rfl
          exact hnot target heq
        rw [hrank r hne]
        exact ⟨hruns, hattended r hne hatt⟩
      · intro r target heq hagain'
        by_cases hi : r = i
        · subst hi
          exact .inl (hagain t target (.inr (ht.trans heq)) hagain')
        · rw [hrank r hi] at hagain'
          exact .inr (.inr ⟨hagain', hattended r hi, hbooted r⟩)
      · intro r target ok _ hmutex hruns
        rw [hrank r (hheld r hmutex)] at hruns
        exact ⟨hruns, hattended r (hheld r hmutex)⟩
    by_cases hwait : ∃ target, s.pc t = .waiting i target
    · obtain ⟨target, ht⟩ := hwait
      rcases hpcs t with hwoken | ⟨hsame, hruns⟩
      · rw [hwoken, ht]
        simp only [State.wake, if_true]
        exact fun hagain' => .inl (hagain t target (.inl ht) hagain')
      · rw [hsame, ht]
        exact hruns target ht
    · have hnot : ∀ target, s.pc t ≠ .waiting i target := fun target ht => hwait ⟨target, ht⟩
      have hsame : s'.pc t = s.pc t := (hpcs t).elim (fun hwoken => hwoken.trans (wake_other hnot)) And.left
      rw [hsame]
      exact hkeep _ rfl hnot
  asleep := by
    intro hasleep
    rw [hpoller] at hasleep
    cases hasleep

/-- What the record of rank `i` is after a poll that does not fail. -/
def polledRank (cfg : Config) (s : State) (i : Nat) : Rank :=
  { (s.rank i).dpuPollRank (cfg.enabledDpus i) with
    context := { ((s.rank i).dpuPollRank (cfg.enabledDpus i)).context with pollOk := true } }

theorem Inv.pollRank (h : Inv cfg s) {i nb : Nat} (hpc : s.poller.pc = .polling i nb) {fails : Bool}
    (hmeets : Meets cfg s (.pollRank fails)) : Inv cfg (s.pollRank cfg i nb fails) := by
  have hrank := h.ranks i
  unfold State.pollRank
  split
  · refine ⟨h.ranks, fun t => ?_, fun hasleep => nomatch hasleep⟩
    exact (h.threads t).same (fun _ hmutex => hmutex) (fun _ => rfl) (fun _ _ => .inr (.inl rfl)) fun _ hboot => .inl hboot
  · next hfree =>
    rw [not_not] at hfree
    have hmeets := hmeets i nb hpc hfree
    split
    · next hfails =>
      rw [if_pos hfails] at hmeets
      apply h.polled hpc hfree
      · exact fun r hne => rank_setRank_other s _ hne
      · have hsame := rank_setRank_same s i { s.rank i with context := { (s.rank i).context with pollOk := false } }
        exact (congrArg (RankInv (cfg.enabledDpus i)) hsame).mpr ⟨hrank.count, hrank.covers, hrank.enabled⟩
      · rfl
      · rfl
      · exact fun hone => hone
      · exact fun t => .inl rfl
      · intro t target hthread hagain
        change ((s.setRank i { s.rank i with context := { (s.rank i).context with pollOk := false } }).rank i).context.again
          target = true at hagain
        rw [rank_setRank_same] at hagain
        -- after a poll that failed only a thread in dpu_sync_dpu waits on
        cases target with
        | rank => simp [RunContext.again] at hagain
        | dpu d =>
          obtain hflag | hone | hnone := hmeets
          · exact .inl hflag
          · exact .inr (.inl hone)
          · have hruns := RunContext.again_runs hagain
            simp only [RunContext.runs, decide_eq_true_eq] at hruns
            exact absurd hruns (hnone t d hthread)
    · next hok =>
      rw [if_neg hok] at hmeets
      have hpolled : RankInv (cfg.enabledDpus i) (polledRank cfg s i) :=
        ⟨hrank.dpuPollRank.count, hrank.dpuPollRank.covers, hrank.dpuPollRank.enabled⟩
      have hseen : ∀ target, (polledRank cfg s i).context.runs target = true →
          (s.poller.oneRankRunning || (polledRank cfg s i).context.nbDpuRunning != 0) = true := by
        intro target hruns
        have hne := hpolled.runs_ne_zero hruns
        simp [hne]
      show Inv cfg
        { (if nb > (polledRank cfg s i).context.nbDpuRunning then (s.setRank i (polledRank cfg s i)).broadcast i
            else s.setRank i (polledRank cfg s i)) with
          poller := ⟨.scan (i + 1), s.poller.isDpuRunning,
            s.poller.oneRankRunning || (polledRank cfg s i).context.nbDpuRunning != 0⟩ }
      have hsame := rank_setRank_same s i (polledRank cfg s i)
      have hone : s.poller.oneRankRunning = true →
          (s.poller.oneRankRunning || (polledRank cfg s i).context.nbDpuRunning != 0) = true := fun hone => by
        rw [hone, Bool.true_or]
      split
      · apply h.polled hpc hfree
        · exact fun r hne => rank_setRank_other s _ hne
        · exact (congrArg (RankInv (cfg.enabledDpus i)) hsame).mpr hpolled
        · rfl
        · rfl
        · exact hone
        · exact fun t => .inl rfl
        · intro t target _ hagain
          have hruns := RunContext.again_runs hagain
          exact .inr (.inl (hseen target ((congrArg (fun rank => rank.context.runs target) hsame).symm.trans hruns)))
      · next hless =>
        apply h.polled hpc hfree
        · exact fun r hne => rank_setRank_other s _ hne
        · exact (congrArg (RankInv (cfg.enabledDpus i)) hsame).mpr hpolled
        · rfl
        · rfl
        · exact hone
        · refine fun t => .inr ⟨rfl, fun target ht => ?_⟩
          -- without a broadcast the number is the one before, and nothing has stopped
          have hruns : (polledRank cfg s i).context.runs target = true := by
            obtain hread | hkeeps := hmeets
            · by_contra hstopped
              have hlt := hrank.poll_less (h.thread ht).1 hstopped
              exact hless (Nat.lt_of_lt_of_le hlt hread)
            · exact hkeeps t target ht
          exact ⟨(congrArg (fun rank => rank.context.runs target) hsame).trans hruns, .inr (.inl (hseen target hruns))⟩
        · intro t target _ hagain
          have hruns := RunContext.again_runs hagain
          exact .inr (.inl (hseen target ((congrArg (fun rank => rank.context.runs target) hsame).symm.trans hruns)))

/-! ## The runs -/

/-- A thread that moves to `pc` is on a rank of the queue. -/
theorem InRange.setPc (h : InRange cfg s) {s' : State} {pc : Pc} (hpcs : s'.pc = Function.update s.pc t pc)
    (hlt : ∀ r, pc.On r → r < cfg.nrRanks) : InRange cfg s' := by
  intro t' r hon
  rw [hpcs] at hon
  by_cases heq : t' = t
  · subst heq
    rw [Function.update_self] at hon
    exact hlt r hon
  · rw [Function.update_of_ne heq] at hon
    exact h t' r hon

/-- The steps, with what they need. -/
inductive Stepped (cfg : Config) (s : State) : Label → State → Prop where
  | lock {t : Tid} {r : Nat} (hr : r < cfg.nrRanks) (hpc : s.pc t = .idle) (hfree : (s.rank r).mutex = none) :
      Stepped cfg s (.lock t r) ((s.setMutex r (some t)).setPc t (.locked r))
  | unlock {t : Tid} {r : Nat} (hpc : s.pc t = .locked r) :
      Stepped cfg s (.unlock t) ((s.setMutex r none).setPc t .idle)
  | boot {t : Tid} {r : Nat} {target : Target} {answer : Launch} (hpc : s.pc t = .locked r) :
      Stepped cfg s (.boot t target answer)
        ((s.setRank r ((s.rank r).dpuBoot (cfg.enabledDpus r) target answer).1).setPc t
          (if ((s.rank r).dpuBoot (cfg.enabledDpus r) target answer).2 then .booted r target else .locked r))
  | setDpuRunning {t : Tid} {r : Nat} {target : Target} (hpc : s.pc t = .booted r target) :
      Stepped cfg s (.setDpuRunning t) (s.setDpuRunning t r target)
  | look {t : Tid} {r : Nat} {target : Target} {ok : Bool} (hpc : s.pc t = .check r target ok) :
      Stepped cfg s (.look t) (s.look t r target ok)
  | resume {t : Tid} {r : Nat} {target : Target} (hpc : s.pc t = .woken r target) (hfree : (s.rank r).mutex = none) :
      Stepped cfg s (.resume t) (s.resume t r target)
  | spurious {t : Tid} {r : Nat} {target : Target} (hpc : s.pc t = .waiting r target) :
      Stepped cfg s (.spurious t) (s.setPc t (.woken r target))
  | pollFails {t : Tid} {r : Nat} : Stepped cfg s (.poll t r true) s
  | poll {t : Tid} {r : Nat} (hmay : s.mayEnter t r = true) :
      Stepped cfg s (.poll t r false) (s.setRank r ((s.rank r).dpuPollRank (cfg.enabledDpus r)))
  | launch {t : Tid} {r : Nat} {target : Target} {answer : Launch} (hmay : s.mayEnter t r = true) :
      Stepped cfg s (.launch t r target answer)
        (s.setRank r ((s.rank r).dpuLaunchThread (cfg.enabledDpus r) target answer).1)
  | halt {r : Nat} {d : Dpu} :
      Stepped cfg s (.halt r d) (s.setRank r { s.rank r with hardware := (s.rank r).hardware.erase d })
  | top (hpc : s.poller.pc = .top) : Stepped cfg s .top s.top
  | wakePoller : Stepped cfg s .wakePoller (s.setPoller (.scan 0))
  | readRank {i : Nat} (hpc : s.poller.pc = .scan i) : Stepped cfg s .readRank (s.readRank cfg i)
  | pollRank {i nb : Nat} {fails : Bool} (hpc : s.poller.pc = .polling i nb) :
      Stepped cfg s (.pollRank fails) (s.pollRank cfg i nb fails)

theorem stepped {s' : State} {label : Label} (hstep : step cfg s label = some s') : Stepped cfg s label s' := by
  cases label with
  | lock t r =>
    simp only [step] at hstep
    split at hstep
    · next hlock =>
      cases hstep
      exact .lock hlock.1 hlock.2.1 hlock.2.2
    · cases hstep
  | unlock t =>
    simp only [step] at hstep
    split at hstep
    · next hpc =>
      cases hstep
      exact .unlock hpc
    · cases hstep
  | boot t target answer =>
    simp only [step] at hstep
    split at hstep
    · next hpc =>
      cases hstep
      exact .boot hpc
    · cases hstep
  | setDpuRunning t =>
    simp only [step] at hstep
    split at hstep
    · next hpc =>
      cases hstep
      exact .setDpuRunning hpc
    · cases hstep
  | look t =>
    simp only [step] at hstep
    split at hstep
    · next hpc =>
      cases hstep
      exact .look hpc
    · cases hstep
  | resume t =>
    simp only [step] at hstep
    split at hstep
    · next hpc =>
      split at hstep
      · next hfree =>
        cases hstep
        exact .resume hpc hfree
      · cases hstep
    · cases hstep
  | spurious t =>
    simp only [step] at hstep
    split at hstep
    · next hpc =>
      cases hstep
      exact .spurious hpc
    · cases hstep
  | poll t r fails =>
    simp only [step] at hstep
    split at hstep
    · next hmay =>
      cases fails with
      | true =>
        cases hstep
        exact .pollFails
      | false =>
        cases hstep
        exact .poll hmay
    · cases hstep
  | launch t r target answer =>
    simp only [step] at hstep
    split at hstep
    · next hmay =>
      cases hstep
      exact .launch hmay
    · cases hstep
  | halt r d =>
    cases hstep
    exact .halt
  | top =>
    simp only [step] at hstep
    split at hstep
    · next hpc =>
      cases hstep
      exact .top hpc
    · cases hstep
  | wakePoller =>
    simp only [step] at hstep
    split at hstep
    · cases hstep
      exact .wakePoller
    · cases hstep
  | readRank =>
    simp only [step] at hstep
    split at hstep
    · next hpc =>
      cases hstep
      exact .readRank hpc
    · cases hstep
  | pollRank fails =>
    simp only [step] at hstep
    split at hstep
    · next hpc =>
      cases hstep
      exact .pollRank hpc
    · cases hstep

theorem Stepped.inRange (h : InRange cfg s) {s' : State} {label : Label} (hstep : Stepped cfg s label s') :
    InRange cfg s' := by
  have hon : ∀ {t : Tid} {r : Nat}, (s.pc t).On r → ∀ {r'}, r = r' → r' < cfg.nrRanks := by
    rintro t r hpc r' rfl
    exact h t r hpc
  have hwoken : ∀ i, InRange cfg (s.broadcast i) := fun i t r hr => h t r ((wake_on i (s.pc t) r).mp hr)
  cases hstep with
  | lock hr _ _ =>
    refine h.setPc rfl ?_
    rintro r' rfl
    exact hr
  | unlock _ => exact h.setPc rfl fun r hr => hr.elim
  | @boot t r target answer hpc =>
    refine h.setPc rfl fun r' hr => ?_
    split at hr
    · exact hon (t := t) (by rw [hpc]; rfl) hr
    · exact hon (t := t) (by rw [hpc]; rfl) hr
  | @setDpuRunning t r target hpc => exact h.setPc rfl fun r' hr => hon (t := t) (by rw [hpc]; rfl) hr
  | @look t r target ok hpc =>
    unfold State.look
    split
    · exact h.setPc rfl fun r' hr => hon (t := t) (by rw [hpc]; rfl) hr
    · exact h.setPc rfl fun r' hr => hon (t := t) (by rw [hpc]; rfl) hr
  | @resume t r target hpc _ => exact h.setPc rfl fun r' hr => hon (t := t) (by rw [hpc]; rfl) hr
  | @spurious t r target hpc => exact h.setPc rfl fun r' hr => hon (t := t) (by rw [hpc]; rfl) hr
  | pollFails => exact h
  | poll _ => exact h
  | launch _ => exact h
  | halt => exact h
  | top _ =>
    unfold State.top
    split
    · exact h
    · exact h
  | wakePoller => exact h
  | readRank _ =>
    unfold State.readRank
    split
    · split
      · exact h
      · exact h
    · exact h
  | @pollRank i nb fails _ =>
    unfold State.pollRank
    split
    · exact h
    · split
      · exact hwoken i
      · dsimp only
        split
        · exact hwoken i
        · exact h

/-- One step that meets the condition keeps the invariant. -/
theorem Stepped.inv (h : Inv cfg s) (hrange : InRange cfg s) {s' : State} {label : Label} (hmeets : Meets cfg s label)
    (hstep : Stepped cfg s label s') : Inv cfg s' := by
  cases hstep with
  | lock _ hpc hfree => exact h.lock hpc hfree
  | unlock hpc => exact h.unlock hpc
  | boot hpc => exact h.boot hpc (hmeets _ hpc)
  | setDpuRunning hpc => exact h.setDpuRunning hpc
  | look hpc => exact h.look hpc
  | resume hpc hfree => exact h.resume hpc hfree
  | spurious hpc => exact h.spurious hpc
  | pollFails => exact h
  | poll hmay => exact h.poll hmay (hmeets rfl)
  | launch hmay => exact h.launch hmay hmeets.1 hmeets.2
  | halt => exact h.halt _ _
  | top hpc => exact h.top hpc
  | wakePoller => exact h.wakePoller
  | readRank hpc => exact h.readRank hrange hpc
  | pollRank hpc => exact h.pollRank hpc hmeets

theorem inv_reach (h : (machine cfg).Reach (Meets cfg) s) : Inv cfg s ∧ InRange cfg s := by
  refine h.invariant (P := fun s => Inv cfg s ∧ InRange cfg s) ?_ ?_
  · rintro s rfl
    exact ⟨inv_start cfg, fun t r hon => hon.elim⟩
  · intro s label s' hinv hmeets hstep
    exact ⟨(stepped hstep).inv hinv.1 hinv.2 hmeets, (stepped hstep).inRange hinv.2⟩

/-- In the runs that meet the condition no wake-up is lost. -/
theorem no_lost_completion (cfg : Config) (s : State) (h : (machine cfg).Reach (Meets cfg) s) : NoLostWakeup s :=
  (inv_reach h).1.noLostWakeup

/-- One rank with two DPUs. -/
def sampleConfig : Config where
  nrRanks := 1
  enabledDpus _ := {(0, 0), (0, 1)}

/-- A thread that waits is woken by the first DPU that stops, and waits for the second. -/
def sampleRun : List Label :=
  [.lock 0 0, .boot 0 .rank .done, .setDpuRunning 0, .look 0, .top, .readRank, .halt 0 (0, 0), .pollRank false,
    .resume 0, .look 0]

def sampleState : State := (System.runFrom (step sampleConfig) State.start sampleRun).get rfl

theorem sampleRun_meets : System.Run (step sampleConfig) (Meets sampleConfig) State.start sampleRun sampleState := by
  refine ⟨trivial, _, rfl, ?_, _, rfl, trivial, _, rfl, trivial, _, rfl, trivial, _, rfl, trivial, _, rfl,
    trivial, _, rfl, ?_, _, rfl, trivial, _, rfl, trivial, _, rfl, rfl⟩
  · intro r _ _ _ t target hpc
    by_cases heq : t = 0
    · subst heq
      cases hpc
    · have hidle : (State.start.pc t) = .waiting r target := (Function.update_of_ne heq _ _).symm.trans hpc
      cases hidle
  · intro i nb hpc _
    cases hpc
    exact .inl (Nat.le_refl 2)

theorem no_lost_completion_sample : sampleState.pc 0 = .waiting 0 .rank ∧ NoLostWakeup sampleState :=
  ⟨rfl, no_lost_completion sampleConfig sampleState (System.reach_of_run sampleRun (.init rfl) sampleRun_meets)⟩

/-- The poll of the polling thread fails while a thread waits for one DPU. -/
def failedPoll : List Label :=
  [.lock 0 0, .boot 0 (.dpu (0, 0)) .done, .setDpuRunning 0, .look 0, .top, .readRank, .pollRank true, .resume 0,
    .look 0, .readRank, .top]

/-- The thread waits, and the polling thread sleeps. -/
theorem failed_poll_hangs : ∃ s, (machine sampleConfig).Reachable s ∧ s.pc 0 = .waiting 0 (.dpu (0, 0)) ∧
    s.poller.pc = .asleep ∧ ¬NoLostWakeup s := by
  refine ⟨(System.runFrom (step sampleConfig) State.start failedPoll).get rfl,
    System.reach_of_runFrom failedPoll (.init rfl) (Option.some_get rfl).symm, rfl, rfl, fun h => ?_⟩
  exact (h 0 0 (.dpu (0, 0)) rfl).2 ⟨rfl, rfl⟩

end DpuBackend.Api.Polling
