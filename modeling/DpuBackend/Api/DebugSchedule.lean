import DpuBackend.Api.Checkpoint
import DpuBackend.Api.DrainPipeline
import DpuBackend.Lib.Loops

/-
  The threads of a DPU in fault: who drains the pipeline, and who resumes the threads
  (ufi_debug.c, ufi_config.c, dpu_checkpoint.c).

  C ↔ Lean:
    ci_debug_init_dpu (ufi_debug.c)               ↔ ciDebugInitDpu
    scheduling_order                              ↔ schedulingOrder
    ci_debug_teardown_dpu, the threads resumed    ↔ teardownResumes
    ci_debug_step_dpu                             ↔ stepResumes, ciDebugStepDpu
    ci_reset_dpu (ufi_config.c), its context      ↔ resetContext
    dpu_checkpoint_save, its context              ↔ savedContext
    the three that drain                          ↔ Site

  Of the commands only those of a drain may fail here. The faults are found after the
  drains and change no entry of the schedule. An entry of `scheduling_order` that has
  not been written is `none`.

  `schedules_iff`: a drain leaves a bijection exactly when the count was 0 and the
  threads that do not run had no entry. `dpu_context_fill` leaves all entries 0.
-/

namespace DpuBackend.Api.Debug

open DpuBackend.Lib Checkpoint

/-- The DPU's description, as a context has it. `nr_of_threads` is a `uint8_t`. -/
structure Dpu where
  info : Info
  threads_lt : info.nrThreads.toNat < 256

def Dpu.nrOfThreads (dpu : Dpu) : Nat := dpu.info.nrThreads.toNat

/-! ## The contexts -/

def noEntry : UInt8 := 0xFF

/-- The loop over `scheduling`, and the count. -/
def Schedule.cleared (n : Nat) (c : Schedule) : Schedule :=
  { c with
    scheduling := fun t => if t < n then noEntry else c.scheduling t
    nrOfRunningThreads := 0 }

/-- `ci_reset_dpu`: its arrays hold what `malloc` found. -/
def resetContext (n : Nat) (allocated : Schedule) : Schedule := allocated.cleared n

/-- What the debugger reads of a context. -/
def scheduleOf (c : DpuContext) : Schedule where
  scheduling t := ((c.block .scheduling).getD []).getD t 0
  nrOfRunningThreads := c.nrOfRunningThreads
  pcs _ := 0

/-- `dpu_checkpoint_save`: the caller's context after `dpu_context_fill`, when there is memory. -/
def savedContext (dpu : Dpu) (caller : DpuContext) : Except Checkpoint.Stop Schedule :=
  match (dpuContextFill (fun _ => false) dpu.info).run ⟨[], ∅, caller⟩ with
  | .ok _ s => .ok (scheduleOf s.context)
  | .error e _ => .error e

/-! ## The calls -/

/-- The context, and the threads that were resumed between the two drains. -/
def ciDebugInitDpu (n : Nat) (first second : Replies) (c : Schedule) : Except Stop (Schedule × List Thread) := do
  let c ← drainPipeline n true first c
  if c.nrOfRunningThreads.toNat ≠ n then
    let c' ← drainPipeline n false second c
    .ok (c', (List.range n).filter fun t => c.scheduling t = noEntry)
  else .ok (c, [])

def schedulingOrder (n : Nat) (c : Schedule) : Nat → Option Thread :=
  (List.range n).foldl
    (fun order t => if c.scheduling t ≠ noEntry then Function.update order (c.scheduling t).toNat (some t) else order)
    fun _ => none

/-- The threads `ci_debug_teardown_dpu` resumes. -/
def teardownResumes (n : Nat) (c : Schedule) : List (Option Thread) :=
  (List.range c.nrOfRunningThreads.toNat).map (schedulingOrder n c)

/-- The threads `ci_debug_step_dpu` resumes. -/
def stepResumes (n : Nat) (c : Schedule) (thread : Thread) : List (Option Thread) :=
  some thread :: ((List.range c.nrOfRunningThreads.toNat).map (schedulingOrder n c)).filter (· ≠ some thread)

/-- `ci_debug_step_dpu`, what it resumes and what it leaves. -/
def ciDebugStepDpu (n : Nat) (replies : Replies) (c : Schedule) (thread : Thread) :
    List (Option Thread) × Except Stop Schedule :=
  (stepResumes n c thread, drainPipeline n true replies (c.cleared n))

/-! ## The property -/

/-- The entries number the threads in the order they were popped in. -/
structure Scheduled (n : Nat) (c : Schedule) (order : List Thread) : Prop where
  count : c.nrOfRunningThreads.toNat = order.length
  entry : ∀ t < n, ∀ i, c.scheduling t ≠ noEntry ∧ (c.scheduling t).toNat = i ↔ order[i]? = some t

/-- What is resumed from the schedule. -/
structure Resumes (n : Nat) (c : Schedule) (order : List Thread) : Prop where
  /-- No index of `scheduling_order` is behind its end. -/
  inBounds : ∀ t < n, c.scheduling t ≠ noEntry → (c.scheduling t).toNat < n
  teardown : teardownResumes n c = order.map some
  step : ∀ t ∈ order, stepResumes n c t = some t :: (order.filter (· ≠ t)).map some

/-- A call that drains the pipeline into a schedule. -/
inductive Site where
  | checkpointSave (caller : DpuContext)
  | resetDpu (allocated : Schedule)
  | stepDpu (context : Schedule) (thread : Thread)

/-- The schedule that the call leaves. -/
def Site.call (dpu : Dpu) (first second : Replies) : Site → Except Stop Schedule
  | .checkpointSave caller =>
    match savedContext dpu caller with
    | .ok c => (ciDebugInitDpu dpu.nrOfThreads first second c).map Prod.fst
    | .error _ => .error .command
  | .resetDpu allocated =>
    (ciDebugInitDpu dpu.nrOfThreads first second (resetContext dpu.nrOfThreads allocated)).map Prod.fst
  | .stepDpu context thread => (ciDebugStepDpu dpu.nrOfThreads first context thread).2

/-- The call ends, and the threads that ran are scheduled and resumed in the order of the pops. -/
def Schedules (dpu : Dpu) (site : Site) (first second : Draining dpu.nrOfThreads) : Prop :=
  ∃ c, site.call dpu first.replies second.replies = .ok c ∧ Scheduled dpu.nrOfThreads c first.order ∧
    Resumes dpu.nrOfThreads c first.order

/-! ## From a schedule to what is resumed -/

section Scheduled

variable {n : Nat} {c c' : Schedule} {order : List Thread} {d : Draining n}

theorem Scheduled.position (h : Scheduled n c order) {t : Thread} (ht : t < n) (hentry : c.scheduling t ≠ noEntry) :
    order[(c.scheduling t).toNat]? = some t :=
  (h.entry t ht _).1 ⟨hentry, rfl⟩

/-- The inverse: `scheduling_order` is the order. -/
theorem Scheduled.schedulingOrder_eq (h : Scheduled n c order) (hlt : ∀ t ∈ order, t < n) {i : Nat} {t : Thread}
    (hi : order[i]? = some t) : schedulingOrder n c i = some t := by
  have ht : t < n := hlt t (List.mem_of_getElem? hi)
  obtain ⟨hentry, hpos⟩ := (h.entry t ht i).2 hi
  refine foldl_reach (I := fun _ => True) (P := fun o : Nat → Option Thread => o i = some t) (List.mem_range.2 ht)
    (fun _ _ _ _ => trivial) ?_ ?_ trivial
  · intro o _
    rw [if_pos hentry, hpos, Function.update_self]
  · intro o t' ht' _ ho
    split
    · next hentry' =>
      by_cases hsame : (c.scheduling t').toNat = i
      · have hi' := (h.entry t' (List.mem_range.1 ht') i).1 ⟨hentry', hsame⟩
        rw [hi] at hi'
        rw [hsame, Function.update_self, hi']
      · rw [Function.update_of_ne (Ne.symm hsame)]
        exact ho
    · exact ho

theorem Scheduled.teardown (h : Scheduled n c order) (hlt : ∀ t ∈ order, t < n) :
    teardownResumes n c = order.map some := by
  unfold teardownResumes
  rw [h.count]
  apply List.ext_getElem?
  intro i
  by_cases hi : i < order.length
  · have hget : order[i]? = some order[i] := List.getElem?_eq_getElem hi
    simp [hi, h.schedulingOrder_eq hlt hget]
  · simp [Nat.le_of_not_lt hi]

theorem Scheduled.resumes (h : Scheduled n c d.order) : Resumes n c d.order := by
  have hlt : ∀ t ∈ d.order, t < n := fun t ht => ((d.pops.mem_order t).1 ht).1
  have hall := h.teardown hlt
  refine ⟨?_, hall, ?_⟩
  · intro t ht hentry
    obtain ⟨hindex, -⟩ := List.getElem?_eq_some_iff.1 (h.position ht hentry)
    exact hindex.trans_le d.pops.length_le
  · intro t _
    unfold stepResumes
    unfold teardownResumes at hall
    rw [hall, List.filter_map]
    congr 2
    apply List.filter_congr
    intro t' _
    simp

/-! ## When a drain schedules -/

/-- A drain schedules exactly when the count was 0 and the threads that do not run had no
entry. -/
theorem scheduled_iff (hn : n < 256) (hleaves : c.Leaves true d.order c') :
    Scheduled n c' d.order ↔
      c.nrOfRunningThreads = 0 ∧ ∀ t < n, d.run t = false → c.scheduling t = noEntry := by
  obtain ⟨hcount, hentries⟩ := hleaves
  have hlen : d.order.length < 256 := d.pops.length_le.trans_lt hn
  constructor
  · intro h
    have hsum := h.count
    rw [hcount, UInt8.toNat_add, UInt8.toNat_ofNat_of_lt' hlen] at hsum
    refine ⟨?_, fun t ht hidle => ?_⟩
    · have hbyte : c.nrOfRunningThreads.toNat < 256 := c.nrOfRunningThreads.toNat_lt
      apply UInt8.toNat_inj.1
      show c.nrOfRunningThreads.toNat = 0
      omega
    · by_contra hentry
      have hnot : t ∉ d.order := by
        intro hmem
        rw [((d.pops.mem_order t).1 hmem).2] at hidle
        cases hidle
      have hkept : c'.scheduling t = c.scheduling t := by rw [hentries, Schedule.entries, if_neg hnot]
      rw [← hkept] at hentry
      exact hnot (List.mem_of_getElem? (h.position ht hentry))
  · intro hstart
    obtain ⟨hzero, hidle⟩ := hstart
    rw [hzero, UInt8.zero_add] at hcount
    refine ⟨by rw [hcount, UInt8.toNat_ofNat_of_lt' hlen], fun t ht i => ?_⟩
    by_cases hmem : t ∈ d.order
    · have hidx : d.order.idxOf t < d.order.length := List.idxOf_lt_length_iff.2 hmem
      have hpos : c'.scheduling t = UInt8.ofNat (d.order.idxOf t) := by
        rw [hentries, Schedule.entries, if_pos hmem, hzero, UInt8.zero_add]
      have hnat : (c'.scheduling t).toNat = d.order.idxOf t := by
        rw [hpos, UInt8.toNat_ofNat_of_lt' (hidx.trans hlen)]
      have hle := d.pops.length_le
      have hentry : c'.scheduling t ≠ noEntry := by
        intro hff
        rw [hff] at hnat
        have hbyte : noEntry.toNat = 255 := rfl
        omega
      rw [hnat]
      constructor
      · intro hindex
        obtain ⟨_, hi⟩ := hindex
        rw [← hi]
        exact List.getElem?_idxOf hmem
      · intro hi
        obtain ⟨hlt, heq⟩ := List.getElem?_eq_some_iff.1 hi
        exact ⟨hentry, by rw [← heq, d.pops.nodup.idxOf_getElem]⟩
    · have hnone : c'.scheduling t = noEntry := by
        rw [hentries, Schedule.entries, if_neg hmem]
        apply hidle t ht
        by_contra hrun
        exact hmem ((d.pops.mem_order t).2 ⟨ht, Bool.eq_true_of_not_eq_false hrun⟩)
      constructor
      · intro hindex
        exact absurd hnone hindex.1
      · intro hi
        exact absurd (List.mem_of_getElem? hi) hmem

end Scheduled

/-! ## The three calls -/

theorem ciDebugInitDpu_spec {n : Nat} (first second : Draining n) (c : Schedule) :
    ∃ c' resumed, ciDebugInitDpu n first.replies second.replies c = .ok (c', resumed) ∧
      c.Leaves true first.order c' := by
  obtain ⟨c₁, hfirst, hleaves⟩ := drainPipeline_spec first true c
  obtain ⟨c₂, hsecond, hsame⟩ := drainPipeline_spec second false c₁
  unfold ciDebugInitDpu
  rw [hfirst]
  by_cases hall : c₁.nrOfRunningThreads.toNat ≠ n
  · -- the second drain fetches PCs and leaves the schedule
    refine ⟨c₂, (List.range n).filter fun t => c₁.scheduling t = noEntry, ?_, ?_⟩
    · show (if c₁.nrOfRunningThreads.toNat ≠ n then _ else _ : Except Stop _) = _
      rw [if_pos hall, hsecond]
      rfl
    · obtain ⟨hcount, hentries⟩ := hsame
      exact ⟨hcount.trans hleaves.1, hentries.trans hleaves.2⟩
  · refine ⟨c₁, [], ?_, hleaves⟩
    show (if c₁.nrOfRunningThreads.toNat ≠ n then _ else _ : Except Stop _) = _
    rw [if_neg hall]

theorem savedContext_eq (dpu : Dpu) (caller : DpuContext) :
    savedContext dpu caller = .ok ⟨fun _ => 0, caller.nrOfRunningThreads, fun _ => 0⟩ := by
  have hzero : ∀ t, (List.replicate dpu.info.nrThreads.toNat (0 : UInt8)).getD t 0 = 0 := by
    intro t
    by_cases ht : t < dpu.info.nrThreads.toNat
    · simp [List.getD, ht]
    · simp [List.getD, ht]
  have hfilled : savedContext dpu caller =
      .ok ⟨fun t => (List.replicate dpu.info.nrThreads.toNat (0 : UInt8)).getD t 0, caller.nrOfRunningThreads,
        fun _ => 0⟩ := rfl
  rw [hfilled]
  simp only [hzero]

theorem schedules_of_leaves {dpu : Dpu} {site : Site} {first second : Draining dpu.nrOfThreads} {c c' : Schedule}
    (hcall : site.call dpu first.replies second.replies = .ok c') (hleaves : c.Leaves true first.order c') :
    Schedules dpu site first second ↔ c.nrOfRunningThreads = 0 ∧
      ∀ t < dpu.nrOfThreads, first.run t = false → c.scheduling t = noEntry := by
  have hn : dpu.nrOfThreads < 256 := dpu.threads_lt
  rw [← scheduled_iff hn hleaves]
  constructor
  · intro ⟨c₁, hcall₁, hscheduled, _⟩
    rw [hcall] at hcall₁
    cases hcall₁
    exact hscheduled
  · intro hscheduled
    exact ⟨c', hcall, hscheduled, hscheduled.resumes⟩

/-- The context of a checkpoint is ready when its caller has set the count to 0 and every
thread of the DPU runs; the other two clear theirs. -/
def Site.Ready (dpu : Dpu) (first : Draining dpu.nrOfThreads) : Site → Prop
  | .checkpointSave caller => caller.nrOfRunningThreads = 0 ∧ ∀ t < dpu.nrOfThreads, first.run t = true
  | .resetDpu _ => True
  | .stepDpu _ _ => True

theorem cleared_ready (n : Nat) (c : Schedule) (run : Thread → Bool) :
    (c.cleared n).nrOfRunningThreads = 0 ∧ ∀ t < n, run t = false → (c.cleared n).scheduling t = noEntry :=
  ⟨rfl, fun _ ht _ => if_pos ht⟩

/-- A call that drains the pipeline schedules the threads in the order of the pops exactly when
its context is ready. -/
theorem schedules_iff (dpu : Dpu) (site : Site) (first second : Draining dpu.nrOfThreads) :
    Schedules dpu site first second ↔ site.Ready dpu first := by
  cases site with
  | checkpointSave caller =>
    obtain ⟨c', resumed, hinit, hleaves⟩ :=
      ciDebugInitDpu_spec first second ⟨fun _ => 0, caller.nrOfRunningThreads, fun _ => 0⟩
    have hcall : (Site.checkpointSave caller).call dpu first.replies second.replies = .ok c' := by
      simp only [Site.call, savedContext_eq, hinit]
      rfl
    rw [schedules_of_leaves hcall hleaves]
    apply and_congr_right
    intro _
    constructor
    · intro hidle t ht
      by_contra hrun
      have hzero : (0 : UInt8) = noEntry := hidle t ht (Bool.eq_false_of_not_eq_true hrun)
      exact absurd hzero (by decide)
    · intro hrun t ht hidle
      rw [hrun t ht] at hidle
      cases hidle
  | resetDpu allocated =>
    obtain ⟨c', resumed, hinit, hleaves⟩ := ciDebugInitDpu_spec first second (resetContext dpu.nrOfThreads allocated)
    have hcall : (Site.resetDpu allocated).call dpu first.replies second.replies = .ok c' := by
      simp only [Site.call, hinit]
      rfl
    rw [schedules_of_leaves hcall hleaves]
    exact iff_of_true (cleared_ready _ _ _) trivial
  | stepDpu context thread =>
    obtain ⟨c', hcall, hleaves⟩ := drainPipeline_spec first true (context.cleared dpu.nrOfThreads)
    have hcall' : (Site.stepDpu context thread).call dpu first.replies second.replies = .ok c' := hcall
    rw [schedules_of_leaves hcall' hleaves]
    exact iff_of_true (cleared_ready _ _ _) trivial

/-- A DPU of two threads. -/
def twoThreads : Dpu := ⟨⟨2, 0, 0, 0, 0, 0⟩, by decide⟩

/-- Thread 0 runs and is popped at once. -/
def firstThread : Draining twoThreads.nrOfThreads where
  run t := t == 0
  steps := [⟨0, Function.update (fun t => t == 0) 0 false⟩]
  order := [0]
  pops := .pop (by decide) rfl (.done (by decide))

/-- The context of a caller that has set it to zero. -/
def zeroContext : DpuContext := ⟨⟨0, 0, 0, 0, 0, 0⟩, fun _ => none, 0, 0, 0, 0, 0, 0, 0, 0⟩

/-- Thread 1 does not run and has the entry of thread 0. -/
theorem checkpoint_schedules_idle_thread :
    ¬ Schedules twoThreads (.checkpointSave zeroContext) firstThread firstThread := by
  intro ⟨c, hcall, hscheduled, _⟩
  have hentry : some (0 : UInt8) = some (c.scheduling 1) :=
    congrArg (fun result : Except Stop Schedule => result.toOption.map fun c : Schedule => c.scheduling 1) hcall
  have hlisted := (hscheduled.entry 1 (by decide) 0).1
  rw [← Option.some.inj hentry] at hlisted
  exact absurd (hlisted ⟨by decide, rfl⟩) (by decide)

end DpuBackend.Api.Debug
