import Mathlib.Data.List.Nodup
import Mathlib.Data.List.Perm.Subperm
import Mathlib.Logic.Function.Basic

/-
  The drain of a DPU's pipeline (dpu_internals.c).

  C ↔ Lean (src/api/src/dpu_internals.c):
    dpu_context_t, scheduling, nr_of_running_threads, pcs ↔ Schedule
    previous_run_register                    ↔ DrainState.previousRun
    the last loop over the threads           ↔ note
    do … while (still_draining)              ↔ drainLoop
    drain_pipeline, with a context           ↔ drainPipeline

  The run registers are those of one DPU. A drain is given what its commands show:
  `none` is a command that fails, and a drain whose replies are used up has not
  ended. `Pops` is what the hardware does: a step pops a running thread or none.
-/

namespace DpuBackend.Api.Debug

abbrev Thread := Nat

/-- What a debug context keeps of the threads. -/
structure Schedule where
  scheduling : Thread → UInt8
  nrOfRunningThreads : UInt8
  pcs : Thread → UInt16

inductive Stop where
  | command
  | stillDraining
  deriving DecidableEq

/-- What a step shows: the PC it has fetched and the run register after it. -/
structure Reply where
  pc : UInt16
  run : Thread → Bool

structure Replies where
  run : Option (Thread → Bool)
  steps : List (Option Reply)
  /-- `ufi_clear_debug_replace` succeeds. -/
  cleared : Bool

structure DrainState where
  context : Schedule
  previousRun : Thread → Bool

/-- A thread that has been popped, with the PC of its step. -/
def Schedule.popped (c : Schedule) (shouldAddToSchedule : Bool) (pc : UInt16) (thread : Thread) : Schedule :=
  let c := { c with pcs := Function.update c.pcs thread pc }
  if shouldAddToSchedule then
    { c with
      scheduling := Function.update c.scheduling thread c.nrOfRunningThreads
      nrOfRunningThreads := c.nrOfRunningThreads + 1 }
  else c

def note (shouldAddToSchedule : Bool) (reply : Reply) (s : DrainState) (thread : Thread) : DrainState :=
  if !reply.run thread && s.previousRun thread then
    { context := s.context.popped shouldAddToSchedule reply.pc thread
      previousRun := Function.update s.previousRun thread false }
  else s

def running (n : Nat) (run : Thread → Bool) : Bool := (List.range n).any run

def drainLoop (n : Nat) (shouldAddToSchedule : Bool) : List (Option Reply) → DrainState → Except Stop Schedule
  | [], _ => .error .stillDraining
  | none :: _, _ => .error .command
  | some reply :: replies, s =>
    let s := (List.range n).foldl (note shouldAddToSchedule reply) s
    if running n reply.run then drainLoop n shouldAddToSchedule replies s else .ok s.context

def drainPipeline (n : Nat) (shouldAddToSchedule : Bool) (replies : Replies) (c : Schedule) : Except Stop Schedule :=
  match replies.run with
  | none => .error .command
  | some run =>
    if running n run then do
      let c ← drainLoop n shouldAddToSchedule replies.steps ⟨c, run⟩
      if replies.cleared then .ok c else .error .command
    else .ok c

/-! ## What the hardware does -/

/-- The threads that run are popped one by one, in an order, with steps between that pop
none. -/
inductive Pops (n : Nat) : (Thread → Bool) → List Reply → List Thread → Prop where
  | done {run} : running n run = false → Pops n run [] []
  | idle {run pc steps order} : running n run = true → Pops n run steps order → Pops n run (⟨pc, run⟩ :: steps) order
  | pop {run pc steps order t} : t < n → run t = true → Pops n (Function.update run t false) steps order →
      Pops n run (⟨pc, Function.update run t false⟩ :: steps) (t :: order)

/-- A drain whose commands succeed. -/
structure Draining (n : Nat) where
  run : Thread → Bool
  steps : List Reply
  order : List Thread
  pops : Pops n run steps order

def Draining.replies {n : Nat} (d : Draining n) : Replies := ⟨some d.run, d.steps.map some, true⟩

variable {n : Nat} {run : Thread → Bool} {steps : List Reply} {order : List Thread}

theorem running_eq_false : running n run = false ↔ ∀ t < n, run t = false := by
  simp [running]

/-- The order is of the threads that run. -/
theorem Pops.mem_order (h : Pops n run steps order) : ∀ t, t ∈ order ↔ t < n ∧ run t = true := by
  induction h with
  | done hnone =>
    intro t
    have hrun := running_eq_false.1 hnone t
    simp only [List.not_mem_nil, false_iff, not_and]
    intro ht
    simp [hrun ht]
  | idle _ _ ih => exact ih
  | @pop run pc steps order t ht hrun _ ih =>
    intro t'
    rw [List.mem_cons, ih]
    by_cases heq : t' = t
    · simp [heq, ht, hrun]
    · simp [heq]

theorem Pops.nodup (h : Pops n run steps order) : order.Nodup := by
  induction h with
  | done _ => exact List.nodup_nil
  | idle _ _ ih => exact ih
  | @pop run pc steps order t ht hrun hrest ih =>
    apply List.nodup_cons.2 ⟨_, ih⟩
    intro hmem
    have hstill := ((hrest.mem_order t).1 hmem).2
    simp at hstill

theorem Pops.length_le (h : Pops n run steps order) : order.length ≤ n := by
  have hsub : order ⊆ List.range n := fun t ht => List.mem_range.2 ((h.mem_order t).1 ht).1
  have hle := (h.nodup.subperm hsub).length_le
  rwa [List.length_range] at hle

/-! ## What a drain does to the context -/

variable (add : Bool) (reply : Reply) {s : DrainState}

theorem foldl_note_idle {l : List Thread} (h : ∀ t ∈ l, reply.run t = true ∨ s.previousRun t = false) :
    l.foldl (note add reply) s = s := by
  induction l with
  | nil => rfl
  | cons t l ih =>
    have hskip : note add reply s t = s := by
      unfold note
      rw [if_neg]
      obtain hrun | hprev := h t List.mem_cons_self
      · simp [hrun]
      · simp [hprev]
    rw [List.foldl_cons, hskip]
    exact ih fun t' ht' => h t' (List.mem_cons_of_mem t ht')

/-- The loop over the threads notes the one that has been popped. -/
theorem foldl_note_pop (s : DrainState) {t : Thread} (ht : t < n) (hprev : s.previousRun t = true) (hrun : reply.run t = false)
    (hothers : ∀ t' < n, t' ≠ t → reply.run t' = s.previousRun t') :
    (List.range n).foldl (note add reply) s =
      ⟨s.context.popped add reply.pc t, Function.update s.previousRun t false⟩ := by
  obtain ⟨before, after, hsplit⟩ := List.append_of_mem (List.mem_range.2 ht)
  have hnodup : (before ++ t :: after).Nodup := hsplit ▸ List.nodup_range
  have hlt : ∀ t' ∈ before ++ t :: after, t' < n := fun t' ht' => List.mem_range.1 (hsplit ▸ ht')
  obtain ⟨-, hafter, hdisjoint⟩ := List.nodup_append.1 hnodup
  rw [hsplit, List.foldl_append, List.foldl_cons]
  have hfirst : before.foldl (note add reply) s = s := by
    apply foldl_note_idle
    intro t' ht'
    have hne : t' ≠ t := hdisjoint t' ht' t List.mem_cons_self
    rw [hothers t' (hlt t' (List.mem_append_left _ ht')) hne]
    exact (Bool.eq_false_or_eq_true _)
  have hnote : note add reply s t =
      ⟨s.context.popped add reply.pc t, Function.update s.previousRun t false⟩ := by
    simp [note, hrun, hprev]
  rw [hfirst, hnote]
  apply foldl_note_idle
  intro t' ht'
  have hne : t' ≠ t := by
    rintro rfl
    exact (List.nodup_cons.1 hafter).1 ht'
  show _ ∨ Function.update s.previousRun t false t' = false
  rw [Function.update_of_ne hne, hothers t' (hlt t' (List.mem_append_right _ (List.mem_cons_of_mem t ht'))) hne]
  exact Bool.eq_false_or_eq_true _

/-- The entries that a drain writes, from the count at its start on. -/
def Schedule.entries (c : Schedule) (order : List Thread) (t : Thread) : UInt8 :=
  if t ∈ order then c.nrOfRunningThreads + UInt8.ofNat (order.idxOf t) else c.scheduling t

/-- What a drain leaves of the schedule. -/
def Schedule.Leaves (c : Schedule) (add : Bool) (order : List Thread) (c' : Schedule) : Prop :=
  if add then c'.nrOfRunningThreads = c.nrOfRunningThreads + UInt8.ofNat order.length ∧ c'.scheduling = c.entries order
  else c'.nrOfRunningThreads = c.nrOfRunningThreads ∧ c'.scheduling = c.scheduling

variable {add reply}

theorem Schedule.leaves_nil (c : Schedule) (add : Bool) : c.Leaves add [] c := by
  unfold Leaves
  split
  · refine ⟨by simp, ?_⟩
    funext t
    simp [entries]
  · exact ⟨rfl, rfl⟩

theorem Schedule.leaves_cons {c c' : Schedule} {t : Thread} {pc : UInt16} (ht : t ∉ order)
    (h : (c.popped add pc t).Leaves add order c') : c.Leaves add (t :: order) c' := by
  cases add with
  | false => exact h
  | true =>
    obtain ⟨hcount, hentries⟩ := h
    constructor
    · rw [hcount, List.length_cons, UInt8.ofNat_add, UInt8.add_comm (UInt8.ofNat _), ← UInt8.add_assoc]
      rfl
    · rw [hentries]
      funext t'
      unfold entries
      by_cases heq : t' = t
      · subst heq
        simp [ht, popped]
      · have hidx : (t :: order).idxOf t' = order.idxOf t' + 1 := List.idxOf_cons_ne _ (Ne.symm heq)
        simp only [List.mem_cons, heq, false_or, hidx]
        split
        · rw [UInt8.ofNat_add, UInt8.add_comm (UInt8.ofNat _), ← UInt8.add_assoc]
          rfl
        · simp [popped, heq]

theorem drainLoop_spec (add : Bool) (hpops : Pops n run steps order) (hrun : running n run = true) (c : Schedule)
    {previous : Thread → Bool} (hprevious : ∀ t < n, previous t = run t) :
    ∃ c', drainLoop n add (steps.map some) ⟨c, previous⟩ = .ok c' ∧ c.Leaves add order c' := by
  induction hpops generalizing c previous with
  | done hnone =>
    rw [hnone] at hrun
    cases hrun
  | @idle run pc steps order _ _ ih =>
    have hloop : (List.range n).foldl (note add ⟨pc, run⟩) ⟨c, previous⟩ = ⟨c, previous⟩ := by
      apply foldl_note_idle
      intro t ht
      show run t = true ∨ previous t = false
      rw [hprevious t (List.mem_range.1 ht)]
      exact Bool.eq_false_or_eq_true _
    obtain ⟨c', hok, hleaves⟩ := ih hrun c hprevious
    refine ⟨c', ?_, hleaves⟩
    rw [List.map_cons, drainLoop, hloop, if_pos hrun]
    exact hok
  | @pop run pc steps order t ht hrunt hrest ih =>
    have hnotin : t ∉ order := by
      intro hmem
      have hstill := ((hrest.mem_order t).1 hmem).2
      simp at hstill
    have hothers : ∀ t' < n, t' ≠ t → Function.update run t false t' = previous t' := by
      intro t' ht' hne
      rw [Function.update_of_ne hne, hprevious t' ht']
    have hloop := foldl_note_pop add ⟨pc, Function.update run t false⟩ ⟨c, previous⟩ ht
      ((hprevious t ht).trans hrunt) (Function.update_self ..) hothers
    rw [List.map_cons, drainLoop, hloop]
    cases hmore : running n (Function.update run t false) with
    | true =>
      have hnext : ∀ t' < n, Function.update previous t false t' = Function.update run t false t' := by
        intro t' ht'
        by_cases hne : t' = t
        · rw [hne, Function.update_self, Function.update_self]
        · rw [Function.update_of_ne hne, Function.update_of_ne hne, hprevious t' ht']
      obtain ⟨c', hok, hleaves⟩ := ih hmore _ hnext
      exact ⟨c', hok, Schedule.leaves_cons hnotin hleaves⟩
    | false =>
      have hnil : order = [] := by
        apply List.eq_nil_iff_forall_not_mem.2
        intro t' ht'
        obtain ⟨hlt, hstill⟩ := (hrest.mem_order t').1 ht'
        rw [running_eq_false.1 hmore t' hlt] at hstill
        cases hstill
      subst hnil
      exact ⟨_, rfl, Schedule.leaves_cons hnotin (Schedule.leaves_nil _ _)⟩

/-- A drain whose commands succeed ends and enters the popped threads in their order. -/
theorem drainPipeline_spec (d : Draining n) (add : Bool) (c : Schedule) :
    ∃ c', drainPipeline n add d.replies c = .ok c' ∧ c.Leaves add d.order c' := by
  unfold drainPipeline Draining.replies
  cases hrun : running n d.run with
  | true =>
    obtain ⟨c', hok, hleaves⟩ := drainLoop_spec add d.pops hrun c fun _ _ => rfl
    refine ⟨c', ?_, hleaves⟩
    simp only [hrun, hok, if_true]
    rfl
  | false =>
    have hnil : d.order = [] := by
      apply List.eq_nil_iff_forall_not_mem.2
      intro t ht
      obtain ⟨hlt, hstill⟩ := (d.pops.mem_order t).1 ht
      rw [running_eq_false.1 hrun t hlt] at hstill
      cases hstill
    rw [hnil]
    refine ⟨c, ?_, c.leaves_nil add⟩
    simp [hrun]

end DpuBackend.Api.Debug
