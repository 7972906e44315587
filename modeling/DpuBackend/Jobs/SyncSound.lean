import DpuBackend.Jobs.SlotCustody

/-
  What a `dpu_sync` that returns `DPU_OK` says of the jobs before it.

  The call reads `job_error` of a rank when it takes its slot there, and appends its sync job
  later. A failure between the two drains the FIFO before the sync job is in it, and the call
  does not see it. `Undisturbed i` is the runs where that does not happen to call `i`, and where
  the low half of the status of a job that failed is not 0, which is all a call returns of it.

  What is proved, for these runs (`sync_sound`): where call `i` is a `dpu_sync` and has returned
  `DPU_OK`, no job that was given to a rank of its set before the call was made has failed or was
  thrown away, but for those before `since`. These left the FIFO before a synchronous call, which
  had the error returned, has set `job_error` back.

  The invariant (`Sound`): a rank without an error has passed all jobs from `base` on; one that the
  call has its slot on, or its job in the FIFO of, has passed all from `since` on; and where the
  sync job has been counted without an error, all from `since` to the place of the call.
-/

namespace DpuBackend.Jobs

open DpuBackend.Lib Function

/-! ## Records of jobs -/

/-- The job has not failed, and was not thrown away. -/
def Outcome.passed : Outcome → Bool
  | .ok | .detached => true
  | .failed | .dropped => false

/-- All jobs from the `n`-th on have passed. -/
def PassedFrom (log : List Outcome) (n : Nat) : Prop :=
  ∀ (k : Nat) (o : Outcome), n ≤ k → log[k]? = some o → o.passed = true

/-- `m` jobs have left the FIFO, and those from the `n`-th on have passed. -/
structure PassedTo (log : List Outcome) (n m : Nat) : Prop where
  left : m ≤ log.length
  passed : ∀ (k : Nat) (o : Outcome), n ≤ k → k < m → log[k]? = some o → o.passed = true

namespace PassedFrom

variable {log outcomes : List Outcome} {n m : Nat}

theorem length (log : List Outcome) : PassedFrom log log.length := by
  intro k o hk ho
  have := (List.getElem?_eq_some_iff.1 ho).1
  omega

theorem append (h : PassedFrom log n) (houtcomes : ∀ o ∈ outcomes, o.passed = true) :
    PassedFrom (log ++ outcomes) n := by
  intro k o hk ho
  rw [List.getElem?_append] at ho
  split at ho
  · exact h k o hk ho
  · exact houtcomes o (List.mem_of_getElem? ho)

theorem passedTo (h : PassedFrom log n) (hm : m ≤ log.length) : PassedTo log n m :=
  ⟨hm, fun k o hk _ ho => h k o hk ho⟩

end PassedFrom

theorem PassedTo.append {log outcomes : List Outcome} {n m : Nat} (h : PassedTo log n m) :
    PassedTo (log ++ outcomes) n m where
  left := by
    have := h.left
    rw [List.length_append]
    omega
  passed k o hk hlt ho := by
    have hleft := h.left
    rw [List.getElem?_append_left (by omega)] at ho
    exact h.passed k o hk hlt ho

/-! ## Runs -/

/-- The ranks where a call has all its slots, and no job yet. -/
def Stage.holding : Stage → List RankId
  | .getting _ _ got _ _ | .mastering got | .setting _ _ (some got) | .doing _ _ (some got) => got.map (·.1)
  | .adding _ todo => todo.map (·.1)
  | _ => []

/-- No FIFO is drained while call `i` has its slots and no job there. -/
def Undisturbed (i : Nat) (s : State) : Action → Prop
  | .worker w _ => ∀ r job status, s.worker w = .next r job status → status ≠ 0 →
      Status.low status ≠ 0 ∧ ∀ c, s.calls[i]? = some c → r ∉ c.stage.holding
  | _ => True

/-- Call `i` is a `dpu_sync` that has returned `DPU_OK`. -/
def Request.returned (q : Request) : Stage → List RankId
  | .done status => match q.kind with
    | .sync => if status = 0 then q.ranks else []
    | _ => []
  | _ => []

/-! ## Syncs that change -/

theorem getElem?_modify_some {syncs : List Sync} {id id' : Nat} {f : Sync → Sync} {t' : Sync}
    (h : (syncs.modify id f)[id']? = some t') :
    ∃ t, syncs[id']? = some t ∧ (id' ≠ id ∧ t' = t ∨ id' = id ∧ t' = f t) := by
  by_cases hid : id' = id
  · subst hid
    rw [getElem?_modify_same] at h
    obtain ⟨t, ht, hf⟩ := Option.map_eq_some_iff.1 h
    exact ⟨t, ht, .inr ⟨rfl, hf.symm⟩⟩
  · refine ⟨t', ?_, .inl ⟨hid, rfl⟩⟩
    simpa [Ne.symm hid] using h

theorem getElem?_append_some {syncs : List Sync} {t u : Sync} {id : Nat} (h : (syncs ++ [t])[id]? = some u) :
    syncs[id]? = some u ∨ u = t := by
  rw [List.getElem?_append] at h
  split at h
  · exact .inl h
  · rw [List.getElem?_singleton, Option.ite_none_right_eq_some, Option.some.injEq] at h
    exact .inr h.2.symm

/-- A sync that may have been told of a failure. -/
structure Failed (t t' : Sync) : Prop where
  same : t'.status = 0 → t' = t
  low : (Status.low t.status = 0 → t.status = 0) → Status.low t'.status = 0 → t'.status = 0

theorem Failed.trans {t t' t'' : Sync} (h : Failed t t') (h' : Failed t' t'') : Failed t t'' := by
  refine ⟨fun hzero => ?_, fun hlow => h'.low (h.low hlow)⟩
  have heq := h'.same hzero
  rw [heq] at hzero ⊢
  exact h.same hzero

theorem failed_fail {t : Sync} {e : Status} (he : Status.low e ≠ 0) (r : RankId) : Failed t ((t.fail e).arrive r) := by
  have hne : e ≠ 0 := fun h => he (by rw [h]; rfl)
  unfold Sync.fail
  split
  · exact ⟨fun hzero => absurd hzero hne, fun _ hlow => absurd hlow he⟩
  · next hstatus => exact ⟨fun hzero => absurd hzero hstatus, fun hlow => hlow⟩

theorem notify_failed {r : RankId} {e : Status} (he : Status.low e ≠ 0) (jobs : List Job) {sh : Shared} {id : Nat}
    {t' : Sync} (h : (sh.notify r e jobs).syncs[id]? = some t') : ∃ t, sh.syncs[id]? = some t ∧ Failed t t' := by
  induction jobs generalizing sh with
  | nil => exact ⟨t', h, ⟨fun _ => rfl, fun hlow => hlow⟩⟩
  | cons job rest ih =>
    rw [Shared.notify] at h
    split at h
    · next id' _ =>
      obtain ⟨t₂, ht₂, hrest⟩ := ih h
      obtain ⟨t₁, ht₁, harrive⟩ := getElem?_modify_some ht₂
      obtain ⟨t, ht, hfail⟩ := getElem?_modify_some ht₁
      refine ⟨t, ht, Failed.trans ?_ hrest⟩
      rcases hfail with ⟨hne, rfl⟩ | ⟨hid, rfl⟩
      · rcases harrive with ⟨-, rfl⟩ | ⟨hid, -⟩
        · exact ⟨fun _ => rfl, fun hlow => hlow⟩
        · exact absurd hid hne
      · rcases harrive with ⟨hne, -⟩ | ⟨-, rfl⟩
        · exact absurd hid hne
        · exact failed_fail he r
    · exact ih h

theorem RankApi.releaseAll_jobError (a : RankApi) (jobs : List Job) : (a.releaseAll jobs).jobError = a.jobError := by
  induction jobs generalizing a with
  | nil => rfl
  | cons job rest ih => exact ih (a.releaseJobSlot job.idx)

theorem RankApi.error_ne_zero {a : RankApi} {e : Status} (h : a.getJobUnlocked = .error e) : e ≠ 0 := by
  unfold RankApi.getJobUnlocked at h
  split at h
  · next herror =>
    cases h
    exact herror
  split at h <;> cases h

/-! ## The invariant -/

/-- What call `i`, made behind `before r` jobs of rank `r`, may rely on: it has slots on the ranks of
`holding`, and has returned `DPU_OK` for those of `returned`. -/
structure Sound (i : Nat) (before : RankId → Nat) (holding returned : List RankId) (sh : Shared) : Prop where
  clean : ∀ r, (sh.rank r).jobError = 0 → PassedFrom (sh.log r) (sh.base r)
  held : ∀ r ∈ holding, PassedFrom (sh.log r) (sh.since i r)
  queued : ∀ r, ∀ job ∈ (sh.rank r).jobs, job.call = i → PassedFrom (sh.log r) (sh.since i r)
  counted : ∀ (id : Nat) (t : Sync), sh.syncs[id]? = some t → t.master = none → t.call = i → t.status = 0 →
    ∀ r ∈ t.arrived, PassedTo (sh.log r) (sh.since i r) (before r)
  low : ∀ (id : Nat) (t : Sync), sh.syncs[id]? = some t → Status.low t.status = 0 → t.status = 0
  returned : ∀ r ∈ returned, PassedTo (sh.log r) (sh.since i r) (before r)

/-- Jobs that pass have left FIFOs. -/
structure Passes (sh sh' : Shared) : Prop where
  jobError : ∀ r, (sh'.rank r).jobError = (sh.rank r).jobError
  base : sh'.base = sh.base
  since : sh'.since = sh.since
  log : ∀ r, ∃ outcomes, sh'.log r = sh.log r ++ outcomes ∧ ∀ o ∈ outcomes, o.passed = true
  jobs : ∀ r, ∀ job ∈ (sh'.rank r).jobs, job ∈ (sh.rank r).jobs
  syncs : sh'.syncs = sh.syncs

section

variable {sh sh' : Shared} {r : RankId} {job : Job} {rest : List Job} {outcome : Outcome}

theorem Quiet.passes (h : Quiet sh sh') : Passes sh sh' where
  jobError := h.jobError
  base := h.base
  since := h.since
  log r := ⟨[], by rw [h.log, List.append_nil], fun _ ho => absurd ho List.not_mem_nil⟩
  jobs r job hjob := h.jobs r ▸ hjob
  syncs := h.syncs

theorem Pops.passes (h : Pops sh r job rest outcome sh') (houtcome : outcome.passed = true) : Passes sh sh' where
  jobError r' := by
    rw [h.rank]
    by_cases hr : r' = r
    · subst hr
      rw [update_self]
      rfl
    · rw [update_of_ne hr]
  base := h.base
  since := h.since
  log r' := by
    rw [h.log]
    by_cases hr : r' = r
    · subst hr
      exact ⟨[outcome], by rw [update_self], fun o ho => List.mem_singleton.1 ho ▸ houtcome⟩
    · exact ⟨[], by rw [update_of_ne hr, List.append_nil], fun _ ho => absurd ho List.not_mem_nil⟩
  jobs r' job' hjob := by
    rw [h.rank] at hjob
    by_cases hr : r' = r
    · subst hr
      rw [update_self] at hjob
      rw [h.jobs]
      exact List.mem_cons_of_mem _ hjob
    · rwa [update_of_ne hr] at hjob
  syncs := h.syncs

end

namespace Sound

variable {i : Nat} {before : RankId → Nat} {holding returned : List RankId} {sh sh' : Shared} {r : RankId}

theorem passes (h : Sound i before holding returned sh) (hp : Passes sh sh') : Sound i before holding returned sh' := by
  have hfrom : ∀ r n, PassedFrom (sh.log r) n → PassedFrom (sh'.log r) n := by
    intro r n hn
    obtain ⟨outcomes, hlog, houtcomes⟩ := hp.log r
    rw [hlog]
    exact hn.append houtcomes
  have hto : ∀ r n m, PassedTo (sh.log r) n m → PassedTo (sh'.log r) n m := by
    intro r n m hn
    obtain ⟨outcomes, hlog, -⟩ := hp.log r
    rw [hlog]
    exact hn.append
  refine ⟨fun r herror => ?_, fun r hr => ?_, fun r job hjob hcall => ?_, fun id t ht hmaster hcall hstatus r hr => ?_,
    fun id t ht => h.low id t (hp.syncs ▸ ht), fun r hr => ?_⟩
  · rw [hp.base]
    exact hfrom r _ (h.clean r (hp.jobError r ▸ herror))
  · rw [hp.since]
    exact hfrom r _ (h.held r hr)
  · rw [hp.since]
    exact hfrom r _ (h.queued r job (hp.jobs r job hjob) hcall)
  · rw [hp.since]
    exact hto r _ _ (h.counted id t (hp.syncs ▸ ht) hmaster hcall hstatus r hr)
  · rw [hp.since]
    exact hto r _ _ (h.returned r hr)

/-- Rank `r` counts for a sync. If it is that of call `i`, its job was the first of the FIFO. -/
theorem arrive (h : Sound i before holding returned sh) (id : Nat)
    (hfirst : ∀ t, sh.syncs[id]? = some t → t.master = none → t.call = i →
      PassedTo (sh.log r) (sh.since i r) (before r)) : Sound i before holding returned (sh.arrive id r) where
  clean := h.clean
  held := h.held
  queued := h.queued
  counted id' t' ht' hmaster hcall hstatus r' hr' := by
    obtain ⟨t, ht, ⟨-, rfl⟩ | ⟨rfl, rfl⟩⟩ := getElem?_modify_some ht'
    · exact h.counted id' t' ht hmaster hcall hstatus r' hr'
    · rcases List.mem_cons.1 hr' with rfl | hr'
      · exact hfirst t ht hmaster hcall
      · exact h.counted id' t ht hmaster hcall hstatus r' hr'
  low id' t' ht' hlow := by
    obtain ⟨t, ht, ⟨-, rfl⟩ | ⟨rfl, rfl⟩⟩ := getElem?_modify_some ht'
    · exact h.low id' t' ht hlow
    · exact h.low id' t ht hlow
  returned := h.returned

/-- The FIFO of rank `r` is drained, while call `i` has no slot there. -/
theorem drains {status : Status} {job : Job} (h : Sound i before holding returned sh) (hd : Drains sh r job status sh')
    (hlow : Status.low status ≠ 0) (hholding : r ∉ holding) : Sound i before holding returned sh' := by
  have hrank : ∀ r', r' ≠ r → sh'.rank r' = sh.rank r' ∧ sh'.log r' = sh.log r' := by
    intro r' hr
    rw [hd.rank, hd.log, update_of_ne hr, update_of_ne hr]
    exact ⟨rfl, rfl⟩
  have hto : ∀ r' n m, PassedTo (sh.log r') n m → PassedTo (sh'.log r') n m := by
    intro r' n m hn
    rw [hd.log]
    by_cases hr : r' = r
    · subst hr
      rw [update_self]
      exact hn.append
    · rwa [update_of_ne hr]
  have hsyncs : ∀ (id : Nat) (t' : Sync), sh'.syncs[id]? = some t' → ∃ t, sh.syncs[id]? = some t ∧ Failed t t' := by
    intro id t' ht'
    rw [hd.syncs] at ht'
    exact notify_failed (by rw [low_asyncStatus]; exact hlow) _ ht'
  refine ⟨fun r' herror => ?_, fun r' hr' => ?_, fun r' job' hjob hcall => ?_,
    fun id t' ht' hmaster hcall hstatus r' hr' => ?_, fun id t' ht' hlow' => ?_, fun r' hr' => ?_⟩
  · by_cases hr : r' = r
    · -- the rank has an error now
      subst hr
      rw [hd.rank, update_self, RankApi.updateStatus, (RankApi.releaseAll_jobError _ _)] at herror
      exact absurd herror (asyncStatus_ne_zero _ _)
    · rw [(hrank r' hr).2, hd.base]
      exact h.clean r' ((hrank r' hr).1 ▸ herror)
  · have hr : r' ≠ r := fun heq => hholding (heq ▸ hr')
    rw [(hrank r' hr).2, hd.since]
    exact h.held r' hr'
  · by_cases hr : r' = r
    · -- nothing is left in the FIFO
      subst hr
      rw [hd.rank, update_self, RankApi.updateStatus, (Shared.releaseAll_jobs _ _).1] at hjob
      cases hjob
    · rw [(hrank r' hr).2, hd.since]
      exact h.queued r' job' ((hrank r' hr).1 ▸ hjob) hcall
  · obtain ⟨t, ht, hfailed⟩ := hsyncs id t' ht'
    have heq := hfailed.same hstatus
    subst heq
    rw [hd.since]
    exact hto r' _ _ (h.counted id t' ht hmaster hcall hstatus r' hr')
  · obtain ⟨t, ht, hfailed⟩ := hsyncs id t' ht'
    exact hfailed.low (h.low id t ht) hlow'
  · rw [hd.since]
    exact hto r' _ _ (h.returned r' hr')

/-- Call `j` has found no error on rank `r`, and goes on with its slots there. -/
theorem see (h : Sound i before holding returned sh) (j : Nat) (herror : (sh.rank r).jobError = 0) :
    Sound i before holding returned (sh.see j r) := by
  have hsince : ∀ r', (sh.see j r).since i r' = sh.since i r' ∨ r' = r ∧ (sh.see j r).since i r' = sh.base r := by
    intro r'
    by_cases hj : i = j
    · subst hj
      by_cases hr : r' = r
      · subst hr
        exact .inr ⟨rfl, by simp only [Shared.see, update_self]⟩
      · exact .inl (by simp only [Shared.see, update_self, update_of_ne hr])
    · exact .inl (by simp only [Shared.see, update_of_ne hj])
  have hclean := h.clean r herror
  have hfrom : ∀ r', PassedFrom (sh.log r') (sh.since i r') → PassedFrom (sh.log r') ((sh.see j r).since i r') := by
    intro r' hn
    rcases hsince r' with heq | ⟨rfl, heq⟩
    · rwa [heq]
    · rwa [heq]
  have hto : ∀ r', PassedTo (sh.log r') (sh.since i r') (before r') →
      PassedTo (sh.log r') ((sh.see j r).since i r') (before r') := by
    intro r' hn
    rcases hsince r' with heq | ⟨rfl, heq⟩
    · rwa [heq]
    · rw [heq]
      exact hclean.passedTo hn.left
  exact ⟨h.clean, fun r' hr' => hfrom r' (h.held r' hr'), fun r' job hjob hcall => hfrom r' (h.queued r' job hjob hcall),
    fun id t ht hmaster hcall hstatus r' hr' => hto r' (h.counted id t ht hmaster hcall hstatus r' hr'), h.low,
    fun r' hr' => hto r' (h.returned r' hr')⟩

theorem newSync (h : Sound i before holding returned sh) {t : Sync} (harrived : t.arrived = []) (hstatus : t.status = 0) :
    Sound i before holding returned (sh.newSync t) where
  clean := h.clean
  held := h.held
  queued := h.queued
  counted id u hu hmaster hcall hzero r hr := by
    rcases getElem?_append_some hu with hu | rfl
    · exact h.counted id u hu hmaster hcall hzero r hr
    · rw [harrived] at hr
      cases hr
  low id u hu hlow := by
    rcases getElem?_append_some hu with hu | rfl
    · exact h.low id u hu hlow
    · exact hstatus
  returned := h.returned

/-- Jobs are appended on rank `r`. -/
theorem addJobs (h : Sound i before holding returned sh) {jobs : List Job}
    (hjobs : ∀ job ∈ jobs, job.call = i → PassedFrom (sh.log r) (sh.since i r)) :
    Sound i before holding returned (sh.addJobs r jobs) := by
  have hrank := sh.addJobs_rank r jobs
  have hrest : (sh.addJobs r jobs).log = sh.log ∧ (sh.addJobs r jobs).base = sh.base ∧
      (sh.addJobs r jobs).since = sh.since ∧ (sh.addJobs r jobs).syncs = sh.syncs := by
    unfold Shared.addJobs
    dsimp only
    split <;> exact ⟨rfl, rfl, rfl, rfl⟩
  obtain ⟨hlog, hbase, hsince, hsyncs⟩ := hrest
  refine ⟨fun r' herror => ?_, ?_, fun r' job hjob hcall => ?_, ?_, ?_, ?_⟩
  · rw [hlog, hbase]
    apply h.clean r'
    rw [hrank] at herror
    by_cases hr : r' = r
    · subst hr
      rwa [update_self] at herror
    · rwa [update_of_ne hr] at herror
  · rw [hlog, hsince]
    exact h.held
  · rw [hlog, hsince]
    rw [Lines.addJobs_jobs, List.mem_append] at hjob
    rcases hjob with hjob | hjob
    · exact h.queued r' job hjob hcall
    · split at hjob
      · next hr =>
        subst hr
        exact hjobs job hjob hcall
      · cases hjob
  · rw [hlog, hsince, hsyncs]
    exact h.counted
  · rw [hsyncs]
    exact h.low
  · rw [hlog, hsince]
    exact h.returned

/-- A synchronous call sets `job_error` of rank `r` back. -/
theorem clear (h : Sound i before holding returned sh) (r : RankId) : Sound i before holding returned
    { sh.setRank r { sh.rank r with jobError := 0 } with base := update sh.base r (sh.log r).length } where
  clean r' herror := by
    change PassedFrom (sh.log r') (update sh.base r (sh.log r).length r')
    by_cases hr : r' = r
    · subst hr
      rw [update_self]
      exact .length _
    · rw [update_of_ne hr]
      apply h.clean r'
      change (update sh.rank r _ r').jobError = 0 at herror
      rwa [update_of_ne hr] at herror
  held := h.held
  queued r' job hjob hcall := by
    have hsame := Shared.setRank_field (r := r) (·.jobs) (a := { sh.rank r with jobError := 0 }) rfl r'
    change job ∈ ((sh.setRank r { sh.rank r with jobError := 0 }).rank r').jobs at hjob
    rw [hsame] at hjob
    exact h.queued r' job hjob hcall
  counted := h.counted
  low := h.low
  returned := h.returned

end Sound

/-! ## Syncs and their calls -/

/-- Sync `id` is that of call `j`. -/
def SyncOf (syncs : List Sync) (q : Request) (j id : Nat) : Prop :=
  ∃ t, syncs[id]? = some t ∧ t.call = j ∧ t.ranks = q.ranks ∧ (q.synchronous = true → t.master = none)

/-- The sync of a sync job is that of its call. -/
def SyncJob (syncs : List Sync) (job : Job) : Prop :=
  ∀ id, job.body = .sync id → ∃ t, syncs[id]? = some t ∧ t.call = job.call

namespace Stage

def syncId : Stage → Option Nat
  | .second _ id | .getting _ id _ _ _ | .setting _ id _ | .doing _ id _ | .adding id _ => id
  | .waiting id => some id
  | _ => none

/-- The jobs that are to be appended. -/
def filled : Stage → List (RankId × List Job)
  | .adding _ todo => todo
  | _ => []

end Stage

structure Linked (s : State) : Prop where
  made : ∀ (id : Nat) (t : Sync), s.sh.syncs[id]? = some t → t.call < s.calls.length
  calls : ∀ (j : Nat) (c : Call), s.calls[j]? = some c → ∀ id, c.stage.syncId = some id → SyncOf s.sh.syncs c.req j id
  filled : ∀ c ∈ s.calls, ∀ e ∈ c.stage.filled, ∀ job ∈ e.2, SyncJob s.sh.syncs job
  jobs : ∀ r, ∀ job ∈ (s.sh.rank r).jobs, SyncJob s.sh.syncs job

section

variable {syncs syncs' : List Sync} {q : Request} {j id : Nat} {job : Job}

theorem SyncOf.onward (h : SyncOf syncs q j id) (hsyncs : Onward syncs syncs') : SyncOf syncs' q j id := by
  obtain ⟨t, ht, hcall, hranks, hmaster⟩ := h
  obtain ⟨t', ht', honward⟩ := hsyncs id t ht
  exact ⟨t', ht', honward.call.trans hcall, honward.ranks.trans hranks, fun hq => honward.master.trans (hmaster hq)⟩

theorem SyncJob.onward (h : SyncJob syncs job) (hsyncs : Onward syncs syncs') : SyncJob syncs' job := by
  intro id hbody
  obtain ⟨t, ht, hcall⟩ := h id hbody
  obtain ⟨t', ht', honward⟩ := hsyncs id t ht
  exact ⟨t', ht', honward.call.trans hcall⟩

end

section

variable {sh sh' : Shared} {i : Nat} {q : Request} {x : Status} {pick : RankId} {stage stage' : Stage}

/-- A call goes on with its sync, or has a new one. -/
theorem callStep_syncId (hok : stage.Ok i q) (hstep : callStep sh i q x pick stage = some (sh', stage')) (id : Nat)
    (hid : stage'.syncId = some id) : stage.syncId = some id ∨ SyncOf sh'.syncs q i id := by
  revert hstep
  fun_cases callStep sh i q x pick stage <;> intro hstep
  all_goals first
    | cases hstep
      done
    | cases hstep
      exact .inl hid
    | cases hstep
      cases hid
    | skip
  case case2 => exact .inr ⟨_, List.getElem?_concat_length .., rfl, rfl, fun _ => rfl⟩
  case case17 hmaster _ _ _ _ =>
    refine .inr ⟨_, List.getElem?_concat_length .., rfl, rfl, fun hq => ?_⟩
    rw [Request.master_of_synchronous hq] at hmaster
    cases hmaster
  case case27 =>
    cases hstep
    split at hid
    · exact .inl hid
    · cases hid
  case case29 =>
    obtain ⟨_, _, heq⟩ := Option.map_eq_some_iff.1 hstep
    cases heq
    cases hid
  case case34 =>
    obtain ⟨_, _, heq⟩ := Option.map_eq_some_iff.1 hstep
    cases heq
    cases hid
  case case37 =>
    cases hstep
    split at hid
    · cases hid
    · cases hid

/-- The syncs there are stay, or the call makes one. -/
theorem callStep_syncs (hstep : callStep sh i q x pick stage = some (sh', stage')) :
    sh'.syncs = sh.syncs ∨ ∃ t : Sync, sh'.syncs = sh.syncs ++ [t] ∧ t.call = i ∧ t.arrived = [] ∧ t.status = 0 := by
  cases callStep_effect hstep with
  | quiet h => exact .inl h.syncs
  | start _ _ _ h => exact .inl h.syncs
  | sync h =>
    subst h
    exact .inr ⟨_, rfl, rfl, rfl, rfl⟩
  | slots _ _ h =>
    subst h
    exact .inl rfl
  | filled _ _ _ _ _ _ _ _ _ h =>
    subst h
    exact .inl rfl
  | master _ _ _ _ _ _ _ _ hstage =>
    subst hstage
    simp only [callStep] at hstep
    split at hstep
    · cases hstep
    rw [Option.ite_none_right_eq_some] at hstep
    obtain ⟨-, hstep⟩ := hstep
    split at hstep
    · cases hstep
      exact .inl rfl
    · cases hstep
    · cases hstep
      exact .inr ⟨_, rfl, rfl, rfl, rfl⟩
  | add _ r jobs _ h =>
    have hsame : (sh.addJobs r jobs).syncs = sh.syncs := by
      unfold Shared.addJobs
      dsimp only
      split <;> rfl
    exact .inl (h ▸ hsame)
  | clear _ _ _ _ h =>
    subst h
    exact .inl rfl

/-- A call has its slots on a rank since now, and finds no error there, or it had them before. -/
theorem callStep_holding (hstep : callStep sh i q x pick stage = some (sh', stage')) (r : RankId) (hr : r ∈ stage'.holding) :
    r ∈ stage.holding ∨ (sh'.rank r).jobError = 0 ∧ sh'.since i r = sh'.base r := by
  revert hstep
  fun_cases callStep sh i q x pick stage <;> intro hstep
  -- the next stage has what this one has, or nothing
  all_goals first
    | cases hstep
      done
    | cases hstep
      exact .inl hr
    | cases hstep
      cases hr
    | cases hstep
      split at hr <;> cases hr
    | obtain ⟨_, _, heq⟩ := Option.map_eq_some_iff.1 hstep
      cases heq
      cases hr
    | skip
  case case7 r' todo a hok taken cur' hlen =>
    cases hstep
    rw [Stage.holding, List.map_append, List.mem_append] at hr
    rcases hr with hr | hr
    · exact .inl hr
    · rw [List.map_singleton, List.mem_singleton] at hr
      subst hr
      refine .inr ⟨?_, ?_⟩
      · have herror : taken.2.jobError = a.jobError := RankApi.getMany_jobError _ _
        change (update sh.rank r taken.2 r).jobError = 0
        rw [update_self, herror]
        simpa using hok
      · simp only [Shared.see, Shared.setRank, update_self]
  case case19 got _ =>
    cases hstep
    cases got with
    | none => cases hr
    | some got => exact .inl hr
  case case21 got _ _ =>
    cases hstep
    cases got with
    | none => cases hr
    | some got => exact .inl hr
  case case24 =>
    cases hstep
    simp only [Stage.holding, List.map_map] at hr
    exact .inl hr
  case case26 =>
    cases hstep
    exact .inl (List.mem_cons_of_mem _ hr)

/-- The jobs that a call fills for its sync. -/
theorem syncJob_fill {id : Option Nat} {slots : List Nat} {r : RankId}
    (hid : id.isSome = (q.synchronous || q.master.isSome)) (hlen : slots.length = q.nrJobs false)
    (hlinked : ∀ k, id = some k → SyncOf sh.syncs q i k) :
    ∀ job ∈ fill i r (q.body (id.getD 0) r) (id.getD 0) slots, SyncJob sh.syncs job := by
  have hown : ∀ k, id = some k → ∀ job : Job, job.call = i → (∀ k', job.body = .sync k' → k' = k) →
      SyncJob sh.syncs job := by
    intro k hk job hcall hbody k' hk'
    obtain ⟨t, ht, htcall, -⟩ := hlinked k hk
    exact ⟨t, by rw [hbody k' hk']; exact ht, htcall.trans hcall.symm⟩
  have hbody : ∀ k k', q.body k r = .sync k' → q.kind = .sync ∧ k' = k := by
    intro k k' heq
    unfold Request.body at heq
    split at heq
    · next hkind =>
      cases heq
      exact ⟨hkind, rfl⟩
    · cases heq
    · cases heq
    · split at heq <;> cases heq
  intro job hjob
  cases slots with
  | nil => cases hjob
  | cons idx rest =>
    cases id with
    | none =>
      -- no sync: one job, which is not that of a sync
      rw [Option.isSome_none] at hid
      have hsync : q.synchronous = false := by
        cases hq : q.synchronous with
        | false => rfl
        | true => rw [hq, Bool.true_or] at hid; cases hid
      have hbool : q.boolSync = false := by
        cases hb : q.boolSync with
        | false => rfl
        | true => rw [Request.synchronous_of_boolSync hb] at hsync; cases hsync
      have hnil : rest = [] := by
        rw [Request.nrJobs_of_not_boolSync hbool, List.length_cons] at hlen
        exact List.eq_nil_of_length_eq_zero (by omega)
      subst hnil
      rw [fill, List.map_nil, List.mem_singleton] at hjob
      subst hjob
      intro k' hk'
      have hkind := (hbody _ k' hk').1
      rw [Request.synchronous, hkind] at hsync
      cases hsync
    | some k =>
      rw [fill, List.mem_cons, List.mem_map] at hjob
      rcases hjob with rfl | ⟨idx', -, rfl⟩
      · exact hown k rfl _ rfl fun k' hk' => (hbody k k' hk').2
      · refine hown k rfl _ rfl fun k' hk' => ?_
        cases hk'
        rfl

/-- What a call fills are jobs for its sync. -/
theorem callStep_filled (hok : stage.Ok i q) (hlinked : ∀ id, stage.syncId = some id → SyncOf sh.syncs q i id)
    (hstep : callStep sh i q x pick stage = some (sh', stage')) (e : RankId × List Job) (he : e ∈ stage'.filled) :
    e ∈ stage.filled ∨ ∀ job ∈ e.2, SyncJob sh.syncs job := by
  revert hstep
  fun_cases callStep sh i q x pick stage <;> intro hstep
  -- nothing is filled
  all_goals first
    | cases hstep
      done
    | cases hstep
      cases he
      done
    | cases hstep
      split at he <;> cases he
    | obtain ⟨_, _, heq⟩ := Option.map_eq_some_iff.1 hstep
      cases heq
      cases he
    | skip
  case case24 got =>
    cases hstep
    obtain ⟨g, hg, rfl⟩ := List.mem_map.1 he
    obtain ⟨hid, hfilled⟩ := hok rfl
    exact .inr (syncJob_fill hid ((hfilled got rfl).slots g hg) hlinked)
  case case26 =>
    cases hstep
    exact .inl (List.mem_cons_of_mem _ he)

/-- What a stage says of how the call will return: an error is one, and a `dpu_sync` has a sync. -/
def Stage.Fair (q : Request) : Stage → Prop
  | .ungetting status _ _ | .clearing status _ => status ≠ 0
  | .adding id _ => q.synchronous = true → id.isSome = true
  | .locking .. | .inline .. | .inlinePolling _ | .inlineFunction .. => q.boolSync = true
  | _ => True

theorem callStep_fair (hok : stage.Ok i q) (h : stage.Fair q) (hstep : callStep sh i q x pick stage = some (sh', stage')) :
    stage'.Fair q := by
  revert hstep
  fun_cases callStep sh i q x pick stage <;> intro hstep
  all_goals first
    | cases hstep
      done
    | cases hstep
      exact trivial
    | cases hstep
      exact h
    | obtain ⟨_, _, heq⟩ := Option.map_eq_some_iff.1 hstep
      cases heq
      first
        | exact trivial
        | exact h
    | skip
  case case6 herror =>
    cases hstep
    exact herror
  case case15 hround =>
    cases hstep
    exact RankApi.error_ne_zero hround
  case case23 hin _ _ _ =>
    cases hstep
    exact Request.inCallback_boolSync hin
  case case24 =>
    cases hstep
    intro hq
    rw [(hok rfl).1, hq, Bool.true_or]
  case case27 =>
    cases hstep
    split <;> exact trivial
  case case37 =>
    cases hstep
    split
    · exact trivial
    · next hlow => exact hlow

theorem mem_returned {status : Status} {r : RankId} (hr : r ∈ q.returned (.done status)) :
    q.kind = .sync ∧ status = 0 ∧ r ∈ q.ranks := by
  unfold Request.returned at hr
  dsimp only at hr
  split at hr
  · next hkind =>
    split at hr
    · next hzero => exact ⟨hkind, hzero, hr⟩
    · cases hr
  · cases hr

/-- A `dpu_sync` returns `DPU_OK` when its sync has no error. -/
theorem callStep_returned (h : stage.Fair q) (hstep : callStep sh i q x pick stage = some (sh', stage')) (r : RankId)
    (hr : r ∈ q.returned stage') : sh' = sh ∧ r ∈ q.ranks ∧ q.synchronous = true ∧
      ∃ id t, stage = .waiting id ∧ sh.syncs[id]? = some t ∧ t.nrRanks = 0 ∧ Status.low t.status = 0 := by
  -- a `dpu_sync` does not look at `callback_tid_set`
  have hnot : q.kind = .sync → q.boolSync ≠ true := by
    intro hkind
    rw [Request.boolSync, hkind]
    exact Bool.false_ne_true
  revert hstep
  fun_cases callStep sh i q x pick stage <;> intro hstep
  all_goals first
    | cases hstep
      done
    | cases hstep
      cases hr
    | skip
  case case13 =>
    cases hstep
    exact absurd (mem_returned hr).2.1 h
  case case27 =>
    cases hstep
    split at hr
    · cases hr
    · next hq =>
      have hkind := (mem_returned hr).1
      rw [Request.synchronous, hkind] at hq
      exact absurd rfl hq
  case case28 =>
    cases hstep
    have hkind := (mem_returned hr).1
    have hsome := h (by rw [Request.synchronous, hkind])
    cases hsome
  case case29 =>
    obtain ⟨_, _, heq⟩ := Option.map_eq_some_iff.1 hstep
    cases heq
    cases hr
  case case31 =>
    cases hstep
    exact absurd h (hnot (mem_returned hr).1)
  case case34 =>
    obtain ⟨_, _, heq⟩ := Option.map_eq_some_iff.1 hstep
    cases heq
    exact absurd h (hnot (mem_returned hr).1)
  case case35 =>
    cases hstep
    exact absurd h (hnot (mem_returned hr).1)
  case case37 ht hzero =>
    cases hstep
    split at hr
    · next hlow =>
      obtain ⟨hkind, -, hmem⟩ := mem_returned hr
      exact ⟨rfl, hmem, by rw [Request.synchronous, hkind], _, _, rfl, ht, hzero, hlow⟩
    · cases hr
  case case40 =>
    cases hstep
    exact absurd (mem_returned hr).2.1 h

end

/-! ## Places in the order, in every run -/

section

variable {home : Tid → Nat} {nrJobs queueIdx : RankId → Nat} {s : State}

theorem lines_issue (h : Lines s.before s.calls.length s.sh) (q : Request) :
    Lines (State.before { s with calls := s.calls ++ [s.newCall q] }) (s.calls ++ [s.newCall q]).length s.sh := by
  have hbefore : ∀ i < s.calls.length, ∀ r,
      State.before { s with calls := s.calls ++ [s.newCall q] } i r = s.before i r := by
    intro i hi r
    rw [State.before, List.getElem?_append_left hi]
    rfl
  refine ⟨fun i hi r => ?_, fun r k job hk => ?_⟩
  · by_cases hlen : i < s.calls.length
    · rw [hbefore i hlen]
      exact h.room i hlen r
    · have hlast : i = s.calls.length := by
        rw [List.length_append, List.length_singleton] at hi
        omega
      subst hlast
      rw [State.before_of_getElem? (c := s.newCall q) (by simp)]
      exact Nat.le_refl _
  · obtain ⟨hcall, hle⟩ := h.behind r k job hk
    rw [hbefore _ hcall, List.length_append]
    exact ⟨by omega, hle⟩

theorem lines_call (h : Lines s.before s.calls.length s.sh) (hinv : Inv s) {i : Nat} {c : Call} {x : Status} {pick : RankId}
    {sh : Shared} {stage : Stage} (hc : s.calls[i]? = some c)
    (hstep : callStep s.sh i c.req x pick c.stage = some (sh, stage)) :
    Lines (State.before { s with sh := sh, calls := s.calls.set i { c with stage := stage } })
      (s.calls.set i { c with stage := stage }).length sh := by
  rw [State.before_call hc, List.length_set]
  rcases callStep_popped hstep with ⟨hpopped, -⟩ | ⟨id, r, jobs, todo, hstage, rfl⟩
  · exact h.popped hpopped
  · have hadded := hinv.calls i c hc
    rw [hstage] at hadded
    exact h.add (List.getElem?_eq_some_iff.1 hc).1 (hadded (r, jobs) List.mem_cons_self).call

theorem lines_worker (h : Lines s.before s.calls.length s.sh) (hinv : Inv s) {w : Tid} {q : Nat} {x : Status} {sh : Shared}
    {stage : WStage} (hstep : workerStep s.sh w q x (s.worker w) = some (sh, stage)) :
    Lines s.before s.calls.length sh :=
  h.popped (workerStep_popped (fun hd hw => List.ne_nil_of_mem (List.mem_of_head? (hinv.own.places.held w hd hw).2)) hstep)

/-! ## The runs -/

theorem workerStep_syncs {sh sh' : Shared} {w : Tid} {q : Nat} {x : Status} {stage stage' : WStage}
    (hstep : workerStep sh w q x stage = some (sh', stage')) :
    Onward sh.syncs sh'.syncs ∧ sh'.syncs.length = sh.syncs.length := by
  have harrive : ∀ call id r, Quiet ((sh.start call r).arrive id r) sh' →
      Onward sh.syncs sh'.syncs ∧ sh'.syncs.length = sh.syncs.length := by
    intro call id r hq
    rw [hq.syncs]
    exact ⟨Onward.arrive (sh.start call r) id r, List.length_modify ..⟩
  have hsame : sh'.syncs = sh.syncs → Onward sh.syncs sh'.syncs ∧ sh'.syncs.length = sh.syncs.length := by
    intro heq
    rw [heq]
    exact ⟨.refl _, rfl⟩
  cases workerStep_effect hstep with
  | quiet hq => exact hsame hq.syncs
  | start _ _ _ _ hq => exact hsame hq.syncs
  | sync r job id _ _ hq => exact harrive _ id r hq
  | member r job id _ _ _ _ _ hq => exact harrive _ id r hq
  | advance _ _ _ _ _ _ _ hadv =>
    obtain ⟨_, _, hpops⟩ := Shared.pops_of_advance hadv
    exact hsame hpops.syncs
  | putBack _ _ _ _ _ _ _ hother =>
    obtain ⟨_, _, hpops⟩ := Shared.pops_of_requeueOther hother
    exact hsame hpops.syncs
  | release _ _ _ hsh =>
    subst hsh
    exact hsame rfl
  | fail r job status _ _ hsh =>
    subst hsh
    rw [(Shared.drains_updateStatus job status).syncs]
    exact Onward.notify sh r _ _

/-- A sync that is there after others went on was there before. -/
theorem Onward.back {syncs syncs' : List Sync} (h : Onward syncs syncs') (hlen : syncs'.length = syncs.length) {id : Nat}
    {t' : Sync} (ht' : syncs'[id]? = some t') : ∃ t, syncs[id]? = some t ∧ t.Onward t' := by
  have hlt : id < syncs.length := hlen ▸ (List.getElem?_eq_some_iff.1 ht').1
  obtain ⟨u, hu, honward⟩ := h id _ (List.getElem?_eq_getElem hlt)
  rw [ht', Option.some.injEq] at hu
  exact ⟨_, List.getElem?_eq_getElem hlt, hu ▸ honward⟩

theorem Popped.mem {sh sh' : Shared} (h : Popped sh sh') {r : RankId} {job : Job} (hjob : job ∈ (sh'.rank r).jobs) :
    job ∈ (sh.rank r).jobs := by
  obtain ⟨d, hd, -⟩ := h r
  rw [hd]
  exact List.mem_append_right _ hjob

theorem linked_created : Linked (created nrJobs queueIdx) where
  made _ _ ht := absurd ht.symm (Option.some_ne_none _)
  calls _ _ hc := absurd hc.symm (Option.some_ne_none _)
  filled _ hc := absurd hc List.not_mem_nil
  jobs _ _ hjob := absurd hjob List.not_mem_nil

theorem Linked.issue (h : Linked s) (q : Request) : Linked { s with calls := s.calls ++ [s.newCall q] } where
  made id t ht := by
    have := h.made id t ht
    simp only [List.length_append, List.length_singleton]
    omega
  calls j c hc id hid := by
    rw [List.getElem?_append] at hc
    split at hc
    · exact h.calls j c hc id hid
    · rw [List.getElem?_singleton, Option.ite_none_right_eq_some, Option.some.injEq] at hc
      rw [← hc.2] at hid
      cases hid
  filled c hc e he := by
    rcases List.mem_append.1 hc with hc | hc
    · exact h.filled c hc e he
    · rw [List.mem_singleton] at hc
      rw [hc] at he
      cases he
  jobs := h.jobs

theorem Linked.call (h : Linked s) (hinv : Inv s) {i : Nat} {c : Call} {x : Status} {pick : RankId} {sh : Shared}
    {stage : Stage} (hc : s.calls[i]? = some c) (hstep : callStep s.sh i c.req x pick c.stage = some (sh, stage)) :
    Linked { s with sh := sh, calls := s.calls.set i { c with stage := stage } } := by
  have hok := hinv.calls i c hc
  have hlt : i < s.calls.length := (List.getElem?_eq_some_iff.1 hc).1
  have honward : Onward s.sh.syncs sh.syncs := by
    rcases callStep_syncs hstep with heq | ⟨t, heq, -⟩
    · exact heq ▸ .refl _
    · exact heq ▸ .append _ t
  refine ⟨fun id t ht => ?_, fun j c' hc' id hid => ?_, fun c' hc' e he job hjob => ?_, fun r job hjob => ?_⟩
  · simp only [List.length_set]
    rcases callStep_syncs hstep with heq | ⟨u, heq, hcall, -⟩
    · exact h.made id t (heq ▸ ht)
    · rcases getElem?_append_some (heq ▸ ht) with ht | rfl
      · exact h.made id t ht
      · exact hcall ▸ hlt
  · by_cases hij : i = j
    · subst hij
      rw [List.getElem?_set_self hlt, Option.some.injEq] at hc'
      subst hc'
      rcases callStep_syncId hok hstep id hid with hid | hnew
      · exact (h.calls i c hc id hid).onward honward
      · exact hnew
    · rw [List.getElem?_set_ne hij] at hc'
      exact (h.calls j c' hc' id hid).onward honward
  · rcases List.mem_or_eq_of_mem_set hc' with hc' | rfl
    · exact (h.filled c' hc' e he job hjob).onward honward
    · rcases callStep_filled hok (h.calls i c hc) hstep e he with he | hnew
      · exact (h.filled c (List.mem_of_getElem? hc) e he job hjob).onward honward
      · exact (hnew job hjob).onward honward
  · rcases callStep_popped hstep with ⟨hpopped, -⟩ | ⟨id, r', jobs, todo, hstage, rfl⟩
    · exact (h.jobs r job (hpopped.mem hjob)).onward honward
    · rw [Lines.addJobs_jobs, List.mem_append] at hjob
      rcases hjob with hjob | hjob
      · exact (h.jobs r job hjob).onward honward
      · split at hjob
        · refine (h.filled c (List.mem_of_getElem? hc) (r', jobs) ?_ job hjob).onward honward
          rw [hstage]
          exact List.mem_cons_self
        · cases hjob

theorem Linked.worker (h : Linked s) (hinv : Inv s) {w : Tid} {q : Nat} {x : Status} {sh : Shared} {stage : WStage}
    (hstep : workerStep s.sh w q x (s.worker w) = some (sh, stage)) :
    Linked { s with sh := sh, worker := update s.worker w stage } := by
  obtain ⟨honward, hlen⟩ := workerStep_syncs hstep
  have hpopped := workerStep_popped
    (fun hd hw => List.ne_nil_of_mem (List.mem_of_head? (hinv.own.places.held w hd hw).2)) hstep
  refine ⟨fun id t' ht' => ?_, fun j c hc id hid => (h.calls j c hc id hid).onward honward,
    fun c hc e he job hjob => (h.filled c hc e he job hjob).onward honward,
    fun r job hjob => (h.jobs r job (hpopped.mem hjob)).onward honward⟩
  obtain ⟨t, ht, hon⟩ := honward.back hlen ht'
  exact hon.call ▸ h.made id t ht

/-! ## One call -/

namespace State

variable (s)

/-- The ranks where call `i` has its slots. -/
def holding (i : Nat) : List RankId := ((s.calls[i]?).map fun c => c.stage.holding).getD []

/-- The ranks for which call `i` has returned `DPU_OK`. -/
def returned (i : Nat) : List RankId := ((s.calls[i]?).map fun c => c.req.returned c.stage).getD []

end State

structure Synced (i : Nat) (s : State) : Prop where
  inv : Inv s
  lines : Lines s.before s.calls.length s.sh
  linked : Linked s
  fair : ∀ c, s.calls[i]? = some c → c.stage.Fair c.req
  sound : Sound i (s.before i) (s.holding i) (s.returned i) s.sh

theorem synced_created (i : Nat) : Synced i (created nrJobs queueIdx) where
  inv := inv_created
  lines := ⟨fun _ hi => absurd hi (Nat.not_lt_zero _), fun _ _ _ hk => absurd hk.symm (Option.some_ne_none _)⟩
  linked := linked_created
  fair _ hc := absurd hc.symm (Option.some_ne_none _)
  sound :=
    { clean := fun _ _ => .length []
      held := fun _ hr => absurd hr List.not_mem_nil
      queued := fun _ _ hjob => absurd hjob List.not_mem_nil
      counted := fun _ _ ht => absurd ht.symm (Option.some_ne_none _)
      low := fun _ _ ht => absurd ht.symm (Option.some_ne_none _)
      returned := fun _ hr => absurd hr List.not_mem_nil }

theorem Synced.issue {i : Nat} (h : Synced i s) (q : Request) : Synced i { s with calls := s.calls ++ [s.newCall q] } := by
  refine ⟨h.inv.issue q, lines_issue h.lines q, h.linked.issue q, fun c hc => ?_, ?_⟩
  · rw [List.getElem?_append] at hc
    split at hc
    · exact h.fair c hc
    · rw [List.getElem?_singleton, Option.ite_none_right_eq_some, Option.some.injEq] at hc
      rw [← hc.2]
      exact trivial
  by_cases hi : i < s.calls.length
  · have hsame : (s.calls ++ [s.newCall q])[i]? = s.calls[i]? := List.getElem?_append_left hi
    have hbefore : State.before { s with calls := s.calls ++ [s.newCall q] } i = s.before i := by
      funext r
      rw [State.before, hsame]
      rfl
    have hsound := h.sound
    simp only [State.holding, State.returned] at hsound ⊢
    rw [hsame, hbefore]
    exact hsound
  · -- the call is not made before, so it has no sync
    have hsound := h.sound
    have hempty : State.holding { s with calls := s.calls ++ [s.newCall q] } i = [] ∧
        State.returned { s with calls := s.calls ++ [s.newCall q] } i = [] := by
      simp only [State.holding, State.returned, List.getElem?_append_right (Nat.le_of_not_lt hi), List.getElem?_singleton]
      split <;> exact ⟨rfl, rfl⟩
    rw [hempty.1, hempty.2]
    refine ⟨hsound.clean, fun _ hr => absurd hr List.not_mem_nil, hsound.queued, fun id t ht _ hcall => ?_, hsound.low,
      fun _ hr => absurd hr List.not_mem_nil⟩
    have := h.linked.made id t ht
    omega

/-- A job that has started. -/
theorem Sound.start {i : Nat} {before : RankId → Nat} {holding returned : List RankId} {sh : Shared}
    (h : Sound i before holding returned sh) (call : Nat) (r : RankId) :
    Sound i before holding returned (sh.start call r) :=
  ⟨h.clean, h.held, h.queued, h.counted, h.low, h.returned⟩

theorem Synced.worker {i : Nat} (h : Synced i s) {w : Tid} {q : Nat} {x : Status} {sh : Shared} {stage : WStage}
    (hok : Undisturbed i s (.worker w x)) (hstep : workerStep s.sh w q x (s.worker w) = some (sh, stage)) :
    Synced i { s with sh := sh, worker := update s.worker w stage } := by
  refine ⟨h.inv.worker hstep, lines_worker h.lines h.inv hstep, h.linked.worker h.inv hstep, h.fair, ?_⟩
  change Sound i (s.before i) (s.holding i) (s.returned i) sh
  have hsound := h.sound
  cases workerStep_effect hstep with
  | quiet hq => exact hsound.passes hq.passes
  | start r job _ _ hq => exact (hsound.start job.call r).passes hq.passes
  | sync r job id hstage hbody hq =>
    refine ((hsound.start job.call r).arrive id fun t ht _ hcall => ?_).passes hq.passes
    -- the sync job is the first one of its FIFO
    have hfirst : (s.sh.rank r).jobs.head? = some job := (h.inv.own.places.held w ⟨r, job, false⟩ (by
      rw [comp_apply, hstage]
      rfl)).2
    obtain ⟨t', ht', hcall'⟩ := h.linked.jobs r job (List.mem_of_head? hfirst) id hbody
    change s.sh.syncs[id]? = some t at ht
    rw [ht', Option.some.injEq] at ht
    have hjob : job.call = i := by rw [← hcall', ht, hcall]
    have hbehind := (h.lines.behind r 0 job (by rw [← List.head?_eq_getElem?]; exact hfirst)).2
    rw [hjob] at hbehind
    exact (hsound.queued r job (List.mem_of_head? hfirst) hjob).passedTo hbehind
  | member r job id t _ _ ht hmaster hq =>
    refine ((hsound.start job.call r).arrive id fun u hu hnone => ?_).passes hq.passes
    change s.sh.syncs[id]? = some u at hu
    rw [ht, Option.some.injEq] at hu
    rw [hu, hnone] at hmaster
    cases hmaster
  | advance r job outcome o next _ houtcome hadv =>
    obtain ⟨_, _, hpops⟩ := Shared.pops_of_advance hadv
    refine hsound.passes (hpops.passes ?_)
    rcases houtcome with rfl | rfl <;> rfl
  | putBack _ _ _ _ _ _ _ hother =>
    obtain ⟨_, _, hpops⟩ := Shared.pops_of_requeueOther hother
    exact hsound.passes (hpops.passes rfl)
  | release id m _ hsh =>
    subst hsh
    refine hsound.passes ⟨Shared.setRank_field (·.jobError) rfl, rfl, rfl,
      fun r => ⟨[], (List.append_nil _).symm, fun _ ho => absurd ho List.not_mem_nil⟩, fun r job hjob => ?_, rfl⟩
    have hsame := s.sh.setRank_field (r := m.owner) (·.jobs)
      (a := (s.sh.rank m.owner).releaseJobSlot m.idx) rfl r
    exact hsame ▸ hjob
  | fail r job status hstage hstatus hsh =>
    subst hsh
    obtain ⟨hlow, hholding⟩ := hok r job status hstage hstatus
    refine hsound.drains (Shared.drains_updateStatus job status) hlow fun hr => ?_
    obtain ⟨ranks, hranks, hr⟩ : ∃ ranks, (s.calls[i]?).map (fun c => c.stage.holding) = some ranks ∧ r ∈ ranks := by
      unfold State.holding at hr
      cases hcall : (s.calls[i]?).map fun c => c.stage.holding with
      | none =>
        rw [hcall] at hr
        cases hr
      | some ranks =>
        rw [hcall] at hr
        exact ⟨ranks, rfl, hr⟩
    obtain ⟨c, hc, rfl⟩ := Option.map_eq_some_iff.1 hranks
    exact hholding c hc hr

/-- All ranks have come to a sync whose count is 0. -/
theorem Sync.Counts.all_arrived {t : Sync} (h : t.Counts) (hzero : t.nrRanks = 0) {r : RankId} (hr : r ∈ t.ranks) :
    r ∈ t.arrived := by
  by_contra hnot
  have := h.nrRanks_pos hr hnot
  omega

theorem Synced.call_sound {i : Nat} (h : Synced i s) {j : Nat} {c : Call} {x : Status} {pick : RankId} {sh : Shared}
    {stage : Stage} (hc : s.calls[j]? = some c) (hstep : callStep s.sh j c.req x pick c.stage = some (sh, stage)) :
    Sound i (s.before i) (s.holding i) (s.returned i) sh := by
  have hsound := h.sound
  have hcok := h.inv.calls j c hc
  have hrank : ∀ r a, a.jobs = (s.sh.rank r).jobs → a.jobError = (s.sh.rank r).jobError → Passes s.sh (s.sh.setRank r a) := by
    intro r a hjobs herror
    refine ⟨Shared.setRank_field (·.jobError) herror, rfl, rfl,
      fun r => ⟨[], (List.append_nil _).symm, fun _ ho => absurd ho List.not_mem_nil⟩, fun r' job hjob => ?_, rfl⟩
    have hsame := s.sh.setRank_field (·.jobs) hjobs r'
    exact hsame ▸ hjob
  cases callStep_effect hstep with
  | quiet hq => exact hsound.passes hq.passes
  | start r _ _ hq => exact (hsound.start j r).passes hq.passes
  | sync hsh =>
    subst hsh
    exact hsound.newSync rfl rfl
  | slots r a hsh hjobs herror =>
    subst hsh
    exact hsound.passes (hrank r a hjobs herror)
  | filled _ _ _ _ _ r _ a _ hsh hjobs herror hok =>
    subst hsh
    refine (hsound.passes (hrank r a hjobs (herror.trans hok.symm))).see j ?_
    exact (Shared.setRank_field (·.jobError) (herror.trans hok.symm) r).trans hok
  | master r a t _ hsh hjobs herror _ hstage _ =>
    rcases callStep_syncs hstep with heq | ⟨u, heq, -, harrived, hstatus⟩
    · have hlen := congrArg List.length heq
      simp [hsh, Shared.newSync, Shared.setRank] at hlen
    · have htu : t = u := by
        subst hsh
        have := List.append_cancel_left heq
        exact (List.cons.inj this).1
      subst hsh htu
      exact (hsound.passes (hrank r a hjobs herror)).newSync harrived hstatus
  | add id r jobs todo hsh hstage _ =>
    subst hsh
    refine hsound.addJobs fun job hjob hcall => ?_
    rw [hstage] at hcok
    have hji : j = i := ((hcok (r, jobs) List.mem_cons_self).call job hjob).symm.trans hcall
    subst hji
    apply hsound.held r
    rw [State.holding, hc, Option.map_some, Option.getD_some, hstage]
    exact List.mem_cons_self
  | clear _ r _ _ hsh =>
    subst hsh
    exact hsound.clear r

theorem Synced.call {i : Nat} (h : Synced i s) {j : Nat} {c : Call} {x : Status} {pick : RankId} {sh : Shared} {stage : Stage}
    (hc : s.calls[j]? = some c) (hstep : callStep s.sh j c.req x pick c.stage = some (sh, stage)) :
    Synced i { s with sh := sh, calls := s.calls.set j { c with stage := stage } } := by
  have hcok := h.inv.calls j c hc
  have hlt : j < s.calls.length := (List.getElem?_eq_some_iff.1 hc).1
  have hsound := h.call_sound hc hstep
  refine ⟨h.inv.call hc hstep, lines_call h.lines h.inv hc hstep, h.linked.call h.inv hc hstep, fun c' hc' => ?_, ?_⟩
  · by_cases hji : j = i
    · subst hji
      rw [List.getElem?_set_self hlt, Option.some.injEq] at hc'
      rw [← hc']
      exact callStep_fair hcok (h.fair c hc) hstep
    · rw [List.getElem?_set_ne hji] at hc'
      exact h.fair c' hc'
  rw [State.before_call hc]
  by_cases hji : j = i
  · subst hji
    simp only [State.holding, State.returned, List.getElem?_set_self hlt, Option.map_some, Option.getD_some]
    refine ⟨hsound.clean, fun r hr => ?_, hsound.queued, hsound.counted, hsound.low, fun r hr => ?_⟩
    · rcases callStep_holding hstep r hr with hold | ⟨herror, hsince⟩
      · apply hsound.held r
        rw [State.holding, hc]
        exact hold
      · rw [hsince]
        exact hsound.clean r herror
    · obtain ⟨rfl, hmem, hsync, id, t, hstage, ht, hzero, hlow⟩ := callStep_returned (h.fair c hc) hstep r hr
      obtain ⟨u, hu, hcall, hranks, hmaster⟩ := h.linked.calls j c hc id (by rw [hstage]; rfl)
      rw [ht, Option.some.injEq] at hu
      subst hu
      have harrived := (h.inv.own.seats.counts id t ht).all_arrived hzero (hranks ▸ hmem)
      exact hsound.counted id t ht (hmaster hsync) hcall (hsound.low id t ht hlow) r harrived
  · have hsame : (s.calls.set j { c with stage := stage })[i]? = s.calls[i]? := List.getElem?_set_ne hji
    simp only [State.holding, State.returned] at hsound ⊢
    rw [hsame]
    exact hsound

theorem synced_of_reach {i : Nat} (h : (machine home nrJobs queueIdx).Reach (Undisturbed i) s) : Synced i s :=
  machine_invariant (synced_created i) (fun _ q hs _ => hs.issue q) (fun _ _ _ _ _ _ _ hs _ hc hstep => hs.call hc hstep)
    (fun _ _ _ _ _ hs hok hstep => hs.worker hok hstep) h

/-- Where `dpu_sync` returns `DPU_OK`, the jobs that each rank of its set was given before it have left the
FIFO, and none of them has failed since a synchronous call last had an error returned. -/
theorem sync_sound {i : Nat} {c : Call} (h : (machine home nrJobs queueIdx).Reach (Undisturbed i) s)
    (hc : s.calls[i]? = some c) (hkind : c.req.kind = .sync) (hdone : c.stage = .done 0) :
    ∀ r ∈ c.req.set, PassedTo (s.sh.log r) (s.sh.since i r) (c.before r) := by
  intro r hr
  have hsound := (synced_of_reach h).sound
  have hranks : c.req.ranks = c.req.set := by rw [Request.ranks, hkind]
  rw [← s.before_of_getElem? hc]
  apply hsound.returned r
  rw [State.returned, hc, Option.map_some, Option.getD_some, hdone, Request.returned, hkind, hranks]
  exact hr

end

/-! ## Sample runs -/

/-- `dpu_sync` on rank 0, by thread 11. -/
def syncOnOne : Request := { launchOnOne with tid := 11, kind := .sync }

def checkUndisturbed (s : State) : Action → Bool
  | .worker w _ =>
    match s.worker w with
    | .next _ _ status => status == 0
    | _ => true
  | _ => true

theorem undisturbed_of_check (i : Nat) (s : State) (a : Action) (h : checkUndisturbed s a = true) : Undisturbed i s a := by
  cases a with
  | worker w x =>
    intro r job status hstage hne
    rw [checkUndisturbed, hstage] at h
    exact absurd (by simpa using h) hne
  | _ => exact trivial

/-- A launch, and a `dpu_sync` that comes back when it is done. -/
def launchThenSync : List Action :=
  callSteps 0 launchOnOne 7 ++ callSteps 1 syncOnOne 7 ++ List.replicate 8 (.worker 0 0) ++ [.call 1 0 0]

theorem sync_sound_launch :
    ∃ s c, (machine (fun _ => 0) (fun _ => 4) (fun _ => 0)).Reach (Undisturbed 1) s ∧ s.calls[1]? = some c ∧
      c.before 0 = 1 ∧ s.sh.since 1 0 = 0 ∧ PassedTo (s.sh.log 0) 0 1 := by
  obtain ⟨s, hrun, c, hc, hreq, hstage, hbefore, hsince⟩ : ∃ s, System.runChecked checkUndisturbed
      (machineStep fun _ => 0) (created (fun _ => 4) fun _ => 0) launchThenSync = some s ∧
      ∃ c, s.calls[1]? = some c ∧ c.req = syncOnOne ∧ c.stage = .done 0 ∧ c.before 0 = 1 ∧ s.sh.since 1 0 = 0 :=
    ⟨_, rfl, _, rfl, rfl, rfl, rfl, rfl⟩
  have hreach : (machine (fun _ => 0) (fun _ => 4) (fun _ => 0)).Reach (Undisturbed 1) s :=
    System.reach_of_runChecked (undisturbed_of_check 1) _ (.init rfl) hrun
  have hpassed := sync_sound hreach hc (by rw [hreq]; rfl) hstage 0 (by rw [hreq]; exact List.mem_cons_self)
  rw [hbefore, hsince] at hpassed
  exact ⟨s, c, hreach, hc, hbefore, hsince, hpassed⟩

/-- The launch fails when the `dpu_sync` has its slot and has not appended its job. -/
def failureBetween : List Action :=
  callSteps 0 launchOnOne 7 ++ callSteps 1 syncOnOne 4 ++ List.replicate 5 (.worker 0 5) ++
    List.replicate 3 (.call 1 0 0) ++ List.replicate 5 (.worker 0 0) ++ [.call 1 0 0]

/-- In other runs `dpu_sync` returns `DPU_OK` behind a job that has failed. -/
theorem sync_misses_failure :
    ∃ s c, (machine (fun _ => 0) (fun _ => 4) (fun _ => 0)).Reachable s ∧ s.calls[1]? = some c ∧ c.stage = .done 0 ∧
      ¬ PassedTo (s.sh.log 0) (s.sh.since 1 0) (c.before 0) := by
  obtain ⟨s, hrun, c, hc, hstage, hbefore, hsince, hlog⟩ : ∃ s, System.runFrom (machineStep fun _ => 0)
      (created (fun _ => 4) fun _ => 0) failureBetween = some s ∧ ∃ c, s.calls[1]? = some c ∧ c.stage = .done 0 ∧
      c.before 0 = 1 ∧ s.sh.since 1 0 = 0 ∧ s.sh.log 0 = [.failed, .ok] :=
    ⟨_, rfl, _, rfl, rfl, rfl, rfl, rfl⟩
  refine ⟨s, c, System.reach_of_runFrom _ (.init rfl) hrun, hc, hstage, fun hpassed => ?_⟩
  rw [hbefore, hsince, hlog] at hpassed
  exact absurd (hpassed.passed 0 .failed (Nat.le_refl _) (by decide) rfl) (by decide)

end DpuBackend.Jobs
