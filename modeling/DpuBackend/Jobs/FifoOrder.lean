import DpuBackend.Jobs.Requeue

/-
  The order of the jobs of a rank.

  A call on rank `r` is made when `before r` jobs have been given to it, by it or by others; its own
  job is to start when as many have left the FIFO. What `dpu_thread_job_add_jobs` appends keeps to
  that, for a worker runs only the first job of a FIFO.

  `dpu_thread_job_do_jobs` runs a job in the calling thread where `callback_tid_set` is set. It
  does not compare `callback_tid` with its own id, as the transfer matrices do, so any thread can
  come there while a callback runs, and overtake what is in the FIFO.
-/

namespace DpuBackend.Jobs

open DpuBackend.Lib Function

/-- A synchronous call on one rank, by a thread that runs no callback on it. -/
structure Foreign (c : Call) : Prop where
  synchronous : c.req.synchronous = true
  oneRank : c.req.set.length = 1
  outside : c.inside = false

/-- The job of such a call starts when all jobs that were there have left the FIFO. -/
def InOrder (s : State) : Prop :=
  ∀ (i : Nat) (c : Call), s.calls[i]? = some c → Foreign c → ∀ e ∈ s.sh.ran i, c.before e.1 ≤ e.2

/-- Whether the next step of a call reads `callback_tid_set`. -/
def Stage.readsFlag : Stage → Bool
  | .begin | .second .. | .setting .. | .doing .. => true
  | _ => false

/-- No such call finds `callback_tid_set` set. -/
def FlagClear (s : State) : Action → Prop
  | .call i _ _ => ∀ c, s.calls[i]? = some c → Foreign c → c.stage.readsFlag = true → c.req.inCallback s.sh = false
  | _ => True

/-! ## FIFOs and records -/

/-- Jobs have left FIFOs, and as many at least are recorded. -/
def Popped (sh sh' : Shared) : Prop :=
  ∀ r, ∃ d, (sh.rank r).jobs = d ++ (sh'.rank r).jobs ∧ (sh.log r).length + d.length ≤ (sh'.log r).length

section

variable {sh sh' : Shared} {r : RankId} {job : Job} {rest : List Job} {outcome : Outcome}

theorem Popped.ofSame (hjobs : ∀ r, (sh'.rank r).jobs = (sh.rank r).jobs) (hlog : sh'.log = sh.log) : Popped sh sh' :=
  fun r => ⟨[], by rw [hjobs r, List.nil_append], by rw [hlog]; exact Nat.le_refl _⟩

theorem Quiet.popped (h : Quiet sh sh') : Popped sh sh' := .ofSame h.jobs h.log

theorem Pops.popped (h : Pops sh r job rest outcome sh') : Popped sh sh' := by
  intro r'
  by_cases hr : r' = r
  · subst hr
    refine ⟨[job], ?_, ?_⟩
    · rw [h.rank, update_self, h.jobs]
      rfl
    · rw [h.log, update_self, List.length_append]
      exact Nat.le_refl _
  · refine ⟨[], ?_, ?_⟩
    · rw [h.rank, update_of_ne hr, List.nil_append]
    · rw [h.log, update_of_ne hr]
      exact Nat.le_refl _

theorem Drains.popped {status : Status} (h : Drains sh r job status sh') (hne : (sh.rank r).jobs ≠ []) :
    Popped sh sh' := by
  intro r'
  by_cases hr : r' = r
  · subst hr
    have hnil : ((sh.rank r').updateStatus job.body.type status).jobs = [] := (Shared.releaseAll_jobs _ _).1
    refine ⟨(sh.rank r').jobs, ?_, ?_⟩
    · rw [h.rank, update_self, hnil, List.append_nil]
    · rw [h.log, update_self, List.length_append, List.length_cons, List.length_map, List.length_tail]
      have := List.length_pos_iff.2 hne
      omega
  · refine ⟨[], ?_, ?_⟩
    · rw [h.rank, update_of_ne hr, List.nil_append]
    · rw [h.log, update_of_ne hr]
      exact Nat.le_refl _

theorem workerStep_popped {w : Tid} {q : Nat} {x : Status} {stage stage' : WStage}
    (hhead : ∀ hd, stage.hold = some hd → (sh.rank hd.rank).jobs ≠ [])
    (hstep : workerStep sh w q x stage = some (sh', stage')) : Popped sh sh' := by
  cases workerStep_effect hstep with
  | quiet h => exact h.popped
  | start _ _ _ _ h => exact h.popped
  | sync _ _ _ _ _ h => exact h.popped
  | member _ _ _ _ _ _ _ _ h => exact h.popped
  | advance _ _ _ _ _ _ _ h =>
    obtain ⟨_, _, hpops⟩ := Shared.pops_of_advance h
    exact hpops.popped
  | putBack _ _ _ _ _ _ _ h =>
    obtain ⟨_, _, hpops⟩ := Shared.pops_of_requeueOther h
    exact hpops.popped
  | release id m _ h =>
    subst h
    exact .ofSame (Shared.setRank_field (·.jobs) rfl) rfl
  | fail r job status hstage _ h =>
    subst h hstage
    exact (Shared.drains_updateStatus job status).popped (hhead ⟨r, job, true⟩ rfl)

/-- What a worker starts is the first job of a FIFO. -/
theorem workerStep_ran {w : Tid} {q : Nat} {x : Status} {stage stage' : WStage}
    (hstep : workerStep sh w q x stage = some (sh', stage')) :
    sh'.ran = sh.ran ∨ ∃ r job, stage.hold = some ⟨r, job, false⟩ ∧ sh'.ran = (sh.start job.call r).ran := by
  cases workerStep_effect hstep with
  | quiet h => exact .inl h.ran
  | start r job hstage _ h => exact .inr ⟨r, job, by rw [hstage]; rfl, h.ran⟩
  | sync r job _ hstage _ h => exact .inr ⟨r, job, by rw [hstage]; rfl, h.ran⟩
  | member r job _ _ hstage _ _ _ h => exact .inr ⟨r, job, by rw [hstage]; rfl, h.ran⟩
  | advance _ _ _ _ _ _ _ h =>
    obtain ⟨_, _, hpops⟩ := Shared.pops_of_advance h
    exact .inl hpops.ran
  | putBack _ _ _ _ _ _ _ h =>
    obtain ⟨_, _, hpops⟩ := Shared.pops_of_requeueOther h
    exact .inl hpops.ran
  | release id m _ h => exact .inl (by rw [h]; rfl)
  | fail r job status _ _ h =>
    subst h
    exact .inl (Shared.drains_updateStatus job status).ran

/-- A call appends to a FIFO, or starts its job itself, or neither. -/
theorem callStep_popped {i : Nat} {q : Request} {x : Status} {pick : RankId} {stage stage' : Stage}
    (hstep : callStep sh i q x pick stage = some (sh', stage')) :
    (Popped sh sh' ∧ (sh'.ran = sh.ran ∨ ∃ r body, stage = .inline r body ∧ sh'.ran = (sh.start i r).ran)) ∨
      ∃ id r jobs todo, stage = .adding id ((r, jobs) :: todo) ∧ sh' = sh.addJobs r jobs := by
  cases callStep_effect hstep with
  | quiet h => exact .inl ⟨h.popped, .inl h.ran⟩
  | start r body hstage h => exact .inl ⟨h.popped, .inr ⟨r, body, hstage, h.ran⟩⟩
  | sync h =>
    subst h
    exact .inl ⟨.ofSame (fun _ => rfl) rfl, .inl rfl⟩
  | slots r a h hjobs _ =>
    subst h
    exact .inl ⟨.ofSame (Shared.setRank_field (·.jobs) hjobs) rfl, .inl rfl⟩
  | filled _ _ _ _ _ r _ a _ h hjobs _ =>
    subst h
    exact .inl ⟨.ofSame (Shared.setRank_field (·.jobs) hjobs) rfl, .inl rfl⟩
  | master r a t _ h hjobs _ =>
    subst h
    exact .inl ⟨.ofSame (Shared.setRank_field (·.jobs) hjobs) rfl, .inl rfl⟩
  | add id r jobs todo h hstage => exact .inr ⟨id, r, jobs, todo, hstage, h⟩
  | clear _ r _ _ h =>
    subst h
    exact .inl ⟨.ofSame (Shared.setRank_field (·.jobs) rfl) rfl, .inl rfl⟩

end

/-! ## Places in the order -/

/-- How many jobs rank `r` had been given when call `i` was made. -/
def State.before (s : State) (i : Nat) (r : RankId) : Nat := (s.calls[i]?.map fun c => c.before r).getD 0

/-- The jobs of a FIFO stand behind those that were there before their calls were made. -/
structure Lines (before : Nat → RankId → Nat) (n : Nat) (sh : Shared) : Prop where
  room : ∀ i < n, ∀ r, before i r ≤ (sh.log r).length + (sh.rank r).jobs.length
  behind : ∀ r (k : Nat) (job : Job), (sh.rank r).jobs[k]? = some job →
    job.call < n ∧ before job.call r ≤ (sh.log r).length + k

namespace Lines

variable {before : Nat → RankId → Nat} {n : Nat} {sh sh' : Shared}

theorem popped (h : Lines before n sh) (hp : Popped sh sh') : Lines before n sh' where
  room i hi r := by
    obtain ⟨d, hjobs, hlog⟩ := hp r
    have hroom := h.room i hi r
    rw [hjobs, List.length_append] at hroom
    omega
  behind r k job hk := by
    obtain ⟨d, hjobs, hlog⟩ := hp r
    have hold : (sh.rank r).jobs[d.length + k]? = some job := by
      rw [hjobs, List.getElem?_append_right (by omega), Nat.add_sub_cancel_left]
      exact hk
    obtain ⟨hcall, hbefore⟩ := h.behind r _ job hold
    exact ⟨hcall, by omega⟩

theorem addJobs_jobs (r r' : RankId) (jobs : List Job) :
    ((sh.addJobs r jobs).rank r').jobs = (sh.rank r').jobs ++ if r' = r then jobs else [] := by
  have hview : (sh.addJobs r jobs).view.jobs r' = _ := congrFun (congrArg View.jobs (Shared.view_addJobs jobs)) r'
  refine hview.trans ?_
  unfold View.addJobs
  by_cases hr : r' = r
  · subst hr
    split
    · next hempty =>
      have hempty : (sh.rank r').jobs = [] := hempty
      simp [hempty]
    · simp [Shared.view]
  · split <;> simp [hr, Shared.view]

theorem addJobs_log (r : RankId) (jobs : List Job) : (sh.addJobs r jobs).log = sh.log := by
  unfold Shared.addJobs
  dsimp only
  split <;> rfl

theorem addJobs_ran (r : RankId) (jobs : List Job) : (sh.addJobs r jobs).ran = sh.ran := by
  unfold Shared.addJobs
  dsimp only
  split <;> rfl

/-- A call appends behind all that is there. -/
theorem add (h : Lines before n sh) {i : Nat} (hi : i < n) {r : RankId} {jobs : List Job} (hjobs : ∀ job ∈ jobs, job.call = i) :
    Lines before n (sh.addJobs r jobs) where
  room i' hi' r' := by
    have hroom := h.room i' hi' r'
    rw [addJobs_jobs, addJobs_log, List.length_append]
    omega
  behind r' k job hk := by
    rw [addJobs_jobs, List.getElem?_append] at hk
    rw [addJobs_log]
    split at hk
    · exact h.behind r' k job hk
    · next hlen =>
      by_cases hr : r' = r
      · rw [if_pos hr] at hk
        have hcall := hjobs job (List.mem_of_getElem? hk)
        have hroom := h.room i hi r'
        rw [hcall]
        exact ⟨hi, by omega⟩
      · rw [if_neg hr] at hk
        cases hk

end Lines

/-! ## The runs -/

structure Ordered (s : State) : Prop where
  inv : Inv s
  lines : Lines s.before s.calls.length s.sh
  inOrder : InOrder s
  /-- no job starts before its call is made -/
  started : ∀ i, s.calls.length ≤ i → s.sh.ran i = []
  queued : ∀ (i : Nat) (c : Call), s.calls[i]? = some c → Foreign c → ∀ r body,
    c.stage ≠ .locking r body ∧ c.stage ≠ .inline r body

section

variable {home : Tid → Nat} {nrJobs queueIdx : RankId → Nat} {s : State}

theorem State.before_of_getElem? {i : Nat} {c : Call} (hc : s.calls[i]? = some c) (r : RankId) :
    s.before i r = c.before r := by rw [State.before, hc]; rfl

theorem mem_start_ran {sh : Shared} {call : Nat} {r : RankId} {j : Nat} {e : RankId × Nat}
    (he : e ∈ (sh.start call r).ran j) : e ∈ sh.ran j ∨ j = call ∧ e = (r, (sh.log r).length) := by
  by_cases hj : j = call
  · subst hj
    simp only [Shared.start, update_self, List.mem_append, List.mem_singleton] at he
    exact he.imp_right fun h => ⟨rfl, h⟩
  · simp only [Shared.start, update_of_ne hj] at he
    exact .inl he

theorem ordered_created : Ordered (created nrJobs queueIdx) where
  inv := inv_created
  lines := ⟨fun _ hi => absurd hi (Nat.not_lt_zero _), fun _ _ _ hk => absurd hk.symm (Option.some_ne_none _)⟩
  inOrder _ _ hc := absurd hc.symm (Option.some_ne_none _)
  started _ _ := rfl
  queued _ _ hc := absurd hc.symm (Option.some_ne_none _)

theorem Ordered.issue (h : Ordered s) (q : Request) : Ordered { s with calls := s.calls ++ [s.newCall q] } := by
  have hold : ∀ (i : Nat) (c : Call), (s.calls ++ [s.newCall q])[i]? = some c →
      s.calls[i]? = some c ∨ i = s.calls.length ∧ c = s.newCall q := by
    intro i c hc
    rw [List.getElem?_append] at hc
    split at hc
    · exact .inl hc
    · next hlen =>
      rw [List.getElem?_singleton, Option.ite_none_right_eq_some, Option.some.injEq] at hc
      exact .inr ⟨by omega, hc.2.symm⟩
  have hbefore : ∀ i < s.calls.length, ∀ r,
      State.before { s with calls := s.calls ++ [s.newCall q] } i r = s.before i r := by
    intro i hi r
    rw [State.before, List.getElem?_append_left hi]
    rfl
  refine ⟨h.inv.issue q, ⟨?_, ?_⟩, ?_, ?_, ?_⟩
  · intro i hi r
    by_cases hlen : i < s.calls.length
    · rw [hbefore i hlen]
      exact h.lines.room i hlen r
    · have hlast : i = s.calls.length := by
        rw [List.length_append, List.length_singleton] at hi
        omega
      subst hlast
      rw [State.before_of_getElem? (c := s.newCall q) (by simp)]
      exact Nat.le_refl _
  · intro r k job hk
    obtain ⟨hcall, hle⟩ := h.lines.behind r k job hk
    rw [hbefore _ hcall, List.length_append]
    exact ⟨by omega, hle⟩
  · intro i c hc hf e he
    rcases hold i c hc with hc | ⟨rfl, -⟩
    · exact h.inOrder i c hc hf e he
    · have hnil : s.sh.ran s.calls.length = [] := h.started _ (Nat.le_refl _)
      simp [hnil] at he
  · intro i hi
    rw [List.length_append] at hi
    exact h.started i (by omega)
  · intro i c hc hf r body
    rcases hold i c hc with hc | ⟨-, rfl⟩
    · exact h.queued i c hc hf r body
    · exact ⟨nofun, nofun⟩

/-- What holds of the calls of a state holds after one of them has gone on. -/
theorem call_after {i : Nat} {c : Call} {stage : Stage} (hc : s.calls[i]? = some c) {j : Nat} {c' : Call}
    (hc' : (s.calls.set i { c with stage := stage })[j]? = some c') :
    ∃ d, s.calls[j]? = some d ∧ c'.before = d.before ∧ (Foreign c' → Foreign d) ∧
      (c' = d ∨ j = i ∧ d = c ∧ c' = { c with stage := stage }) := by
  by_cases hij : i = j
  · subst hij
    rw [List.getElem?_set_self (List.getElem?_eq_some_iff.1 hc).1, Option.some.injEq] at hc'
    subst hc'
    exact ⟨c, hc, rfl, fun hf => ⟨hf.synchronous, hf.oneRank, hf.outside⟩, .inr ⟨rfl, rfl, rfl⟩⟩
  · rw [List.getElem?_set_ne hij] at hc'
    exact ⟨c', hc', rfl, id, .inl rfl⟩

theorem State.before_call {i : Nat} {c : Call} {stage : Stage} {sh : Shared} (hc : s.calls[i]? = some c) :
    State.before { s with sh := sh, calls := s.calls.set i { c with stage := stage } } = s.before := by
  funext j r
  by_cases hij : i = j
  · subst hij
    rw [s.before_of_getElem? hc, State.before, List.getElem?_set_self (List.getElem?_eq_some_iff.1 hc).1]
    rfl
  · rw [State.before, List.getElem?_set_ne hij]
    rfl

section

variable {sh sh' : Shared} {i : Nat} {q : Request} {x : Status} {pick r : RankId} {stage stage' : Stage} {body : Body}

/-- Only the last test of `callback_tid_set` sends a call to run its job itself. -/
theorem callStep_locking (hstep : callStep sh i q x pick stage = some (sh', .locking r body)) :
    stage.readsFlag = true ∧ q.inCallback sh = true := by
  revert hstep
  fun_cases callStep sh i q x pick stage <;> intro hstep <;> simp_all [Stage.readsFlag]
  -- where the stage after the step is one of two
  all_goals
    obtain ⟨-, hstage⟩ := hstep
    split at hstage <;> cases hstage

theorem callStep_inline (hstep : callStep sh i q x pick stage = some (sh', .inline r body)) :
    stage = .locking r body := by
  revert hstep
  fun_cases callStep sh i q x pick stage <;> intro hstep <;> simp_all
  all_goals
    obtain ⟨-, hstage⟩ := hstep
    split at hstage <;> cases hstage

theorem callStep_queued (hclear : stage.readsFlag = true → q.inCallback sh = false)
    (hqueued : ∀ r body, stage ≠ .locking r body ∧ stage ≠ .inline r body)
    (hstep : callStep sh i q x pick stage = some (sh', stage')) : stage' ≠ .locking r body ∧ stage' ≠ .inline r body := by
  constructor
  · rintro rfl
    obtain ⟨hreads, hin⟩ := callStep_locking hstep
    rw [hclear hreads] at hin
    cases hin
  · rintro rfl
    exact (hqueued r body).1 (callStep_inline hstep)

end

theorem Ordered.call (h : Ordered s) {i : Nat} {c : Call} {x : Status} {pick : RankId} {sh : Shared} {stage : Stage}
    (hok : FlagClear s (.call i x pick)) (hc : s.calls[i]? = some c)
    (hstep : callStep s.sh i c.req x pick c.stage = some (sh, stage)) :
    Ordered { s with sh := sh, calls := s.calls.set i { c with stage := stage } } := by
  have hlt : i < s.calls.length := (List.getElem?_eq_some_iff.1 hc).1
  have hlen : (s.calls.set i { c with stage := stage }).length = s.calls.length := List.length_set ..
  have hqueued : ∀ (j : Nat) (c' : Call), (s.calls.set i { c with stage := stage })[j]? = some c' → Foreign c' →
      ∀ r body, c'.stage ≠ .locking r body ∧ c'.stage ≠ .inline r body := by
    intro j c' hc' hf r body
    obtain ⟨d, hd, -, hforeign, rfl | ⟨rfl, rfl, rfl⟩⟩ := call_after hc hc'
    · exact h.queued j c' hd (hforeign hf) r body
    · exact callStep_queued (hok d hc (hforeign hf)) (h.queued j d hc (hforeign hf)) hstep
  refine ⟨h.inv.call hc hstep, ?_, ?_, ?_, hqueued⟩
  · rw [State.before_call hc, hlen]
    rcases callStep_popped hstep with ⟨hpopped, -⟩ | ⟨id, r, jobs, todo, hstage, rfl⟩
    · exact h.lines.popped hpopped
    · have hadded := h.inv.calls i c hc
      rw [hstage] at hadded
      exact h.lines.add hlt (hadded (r, jobs) List.mem_cons_self).call
  · intro j c' hc' hf e he
    obtain ⟨d, hd, hbefore, hforeign, hcase⟩ := call_after hc hc'
    rw [hbefore]
    rcases callStep_popped hstep with ⟨-, hran | ⟨r, body, hstage, hran⟩⟩ | ⟨id, r, jobs, todo, hstage, rfl⟩
    · exact h.inOrder j d hd (hforeign hf) e (hran ▸ he)
    · rw [hran] at he
      rcases mem_start_ran he with he | ⟨rfl, -⟩
      · exact h.inOrder j d hd (hforeign hf) e he
      · -- a call of another thread is not here
        rw [hc, Option.some.injEq] at hd
        subst hd
        exact absurd hstage (h.queued j c hc (hforeign hf) r body).2
    · rw [Lines.addJobs_ran] at he
      exact h.inOrder j d hd (hforeign hf) e he
  · intro j hj
    rw [hlen] at hj
    have hold := h.started j hj
    rcases callStep_popped hstep with ⟨-, hran | ⟨r, body, -, hran⟩⟩ | ⟨id, r, jobs, todo, -, rfl⟩
    · rw [hran, hold]
    · rw [hran]
      have hne : j ≠ i := by omega
      simp only [Shared.start, update_of_ne hne, hold]
    · rw [Lines.addJobs_ran, hold]

theorem Ordered.worker (h : Ordered s) {w : Tid} {q : Nat} {x : Status} {sh : Shared} {stage : WStage}
    (hstep : workerStep s.sh w q x (s.worker w) = some (sh, stage)) :
    Ordered { s with sh := sh, worker := update s.worker w stage } := by
  have hhead : ∀ hd, (s.worker w).hold = some hd → (s.sh.rank hd.rank).jobs.head? = some hd.job :=
    fun hd hw => (h.inv.own.places.held w hd hw).2
  have hpopped := workerStep_popped (fun hd hw => List.ne_nil_of_mem (List.mem_of_head? (hhead hd hw))) hstep
  refine ⟨h.inv.worker hstep, h.lines.popped hpopped, ?_, ?_, h.queued⟩
  · intro i c hc hf e he
    rcases workerStep_ran hstep with hran | ⟨r, job, hhold, hran⟩
    · exact h.inOrder i c hc hf e (hran ▸ he)
    · rw [hran] at he
      rcases mem_start_ran he with he | ⟨rfl, rfl⟩
      · exact h.inOrder i c hc hf e he
      · -- the first job of the FIFO is at place 0
        have hfirst : (s.sh.rank r).jobs[0]? = some job := by
          rw [← List.head?_eq_getElem?]
          exact hhead _ hhold
        have hbehind := (h.lines.behind r 0 job hfirst).2
        rwa [s.before_of_getElem? hc] at hbehind
  · intro i hi
    change s.calls.length ≤ i at hi
    rcases workerStep_ran hstep with hran | ⟨r, job, hhold, hran⟩
    · rw [hran]
      exact h.started i hi
    · have hfirst : (s.sh.rank r).jobs[0]? = some job := by
        rw [← List.head?_eq_getElem?]
        exact hhead _ hhold
      have hcall := (h.lines.behind r 0 job hfirst).1
      have hne : i ≠ job.call := by omega
      rw [hran]
      simp only [Shared.start, update_of_ne hne]
      exact h.started i hi

theorem ordered_of_reach (h : (machine home nrJobs queueIdx).Reach FlagClear s) : Ordered s :=
  machine_invariant ordered_created (fun _ q hs _ => hs.issue q) (fun _ _ _ _ _ _ _ hs hok hc hstep => hs.call hok hc hstep)
    (fun _ _ _ _ _ hs _ hstep => hs.worker hstep) h

/-- While no thread but that of the callback finds `callback_tid_set` set, the synchronous calls on a
rank come after the jobs that were there. -/
theorem fifo_order (h : (machine home nrJobs queueIdx).Reach FlagClear s) : InOrder s :=
  (ordered_of_reach h).inOrder

end

/-! ## Sample runs -/

/-- A blocking asynchronous callback on rank 0, by thread 10. -/
def callbackOnOne : Request where
  tid := 10
  kind := .callbackAsync false false
  set := [0]
  nodup := by decide
  ne_nil := by decide

/-- Asynchronous `dpu_launch` of rank 0, by thread 10. -/
def launchOnOne : Request where
  tid := 10
  kind := .op .launchRank false
  set := [0]
  nodup := by decide
  ne_nil := by decide

/-- A copy to rank 0 that waits for its end, by thread 11. -/
def copyOnOne : Request where
  tid := 11
  kind := .op .copyMramToRank true
  set := [0]
  nodup := by decide
  ne_nil := by decide

/-- Thread 10 has queued the callback and the launch, the worker runs the callback. -/
def callbackRuns : List Action :=
  callSteps 0 callbackOnOne 7 ++ callSteps 1 launchOnOne 7 ++ List.replicate 3 (.worker 0 0)

/-- The copy is made while the callback runs. The worker ends the callback and waits for the DPUs of
the launch, without the mutex of the rank; thread 11 gets it then. -/
def overtaking : List Action :=
  callbackRuns ++ callSteps 2 copyOnOne 4 ++ List.replicate 3 (.worker 0 0) ++ List.replicate 2 (.call 2 0 0)

/-- Two jobs were there before the copy, and it starts behind the first. -/
theorem copy_overtakes_launch :
    ∃ s, (machine (fun _ => 0) (fun _ => 4) (fun _ => 0)).Reachable s ∧ s.worker 0 = .polling 0 ⟨0, 2, .op .launchRank, 1⟩ ∧
      ¬ InOrder s := by
  obtain ⟨s, hrun, hworker, c, hc, hreq, hinside, hbefore, hran⟩ : ∃ s, System.runFrom (machineStep fun _ => 0)
      (created (fun _ => 4) fun _ => 0) overtaking = some s ∧ s.worker 0 = .polling 0 ⟨0, 2, .op .launchRank, 1⟩ ∧
      ∃ c, s.calls[2]? = some c ∧ c.req = copyOnOne ∧ c.inside = false ∧ c.before 0 = 2 ∧ s.sh.ran 2 = [(0, 1)] :=
    ⟨_, rfl, rfl, _, rfl, rfl, rfl, rfl, rfl⟩
  refine ⟨s, System.reach_of_runFrom _ (.init rfl) hrun, hworker, fun hall => ?_⟩
  have hforeign : Foreign c := ⟨by rw [hreq]; rfl, by rw [hreq]; rfl, hinside⟩
  have hle := hall 2 c hc hforeign (0, 1) (by rw [hran]; exact List.mem_cons_self)
  rw [hbefore] at hle
  exact absurd hle (by decide)

def checkFlagClear (s : State) : Action → Bool
  | .call i _ _ => (s.calls[i]?).all fun c => !(c.stage.readsFlag && c.req.inCallback s.sh)
  | _ => true

theorem flagClear_of_check (s : State) (a : Action) (h : checkFlagClear s a = true) : FlagClear s a := by
  cases a with
  | call i x pick =>
    intro c hc _ hreads
    rw [checkFlagClear, hc, Option.all_some, hreads, Bool.true_and, Bool.not_eq_true'] at h
    exact h
  | _ => exact trivial

/-- The copy is made behind a launch, and the worker comes to it. -/
def waitingTurn : List Action :=
  callSteps 0 launchOnOne 7 ++ callSteps 1 copyOnOne 8 ++ List.replicate 6 (.worker 0 0)

theorem fifo_order_copy :
    ∃ s c, (machine (fun _ => 0) (fun _ => 4) (fun _ => 0)).Reach FlagClear s ∧ s.calls[1]? = some c ∧ Foreign c ∧
      s.sh.ran 1 = [(0, 1)] ∧ c.before 0 ≤ 1 := by
  obtain ⟨s, hrun, c, hc, hreq, hinside, hran⟩ : ∃ s, System.runChecked checkFlagClear (machineStep fun _ => 0)
      (created (fun _ => 4) fun _ => 0) waitingTurn = some s ∧
      ∃ c, s.calls[1]? = some c ∧ c.req = copyOnOne ∧ c.inside = false ∧ s.sh.ran 1 = [(0, 1)] :=
    ⟨_, rfl, _, rfl, rfl, rfl, rfl⟩
  have hreach : (machine (fun _ => 0) (fun _ => 4) (fun _ => 0)).Reach FlagClear s :=
    System.reach_of_runChecked flagClear_of_check _ (.init rfl) hrun
  have hforeign : Foreign c := ⟨by rw [hreq]; rfl, by rw [hreq]; rfl, hinside⟩
  exact ⟨s, c, hreach, hc, hforeign, hran, fifo_order hreach 1 c hc hforeign (0, 1) (by rw [hran]; exact List.mem_cons_self)⟩

end DpuBackend.Jobs
