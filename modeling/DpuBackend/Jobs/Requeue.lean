import DpuBackend.Jobs.Effects

/-
  What is in the queues of the workers.

  `Placed` is what the queues are to keep: each entry is the first job of its rank's FIFO, and
  a rank is in one queue, once, or with one worker. Of the four places that insert an entry,
  `dpu_thread_job_add_jobs` has a job, `dpu_thread_insert_rank_list` tests for one, and a
  drained FIFO has none to insert. `dpu_thread_handle_global_block` does not test: it inserts
  what `dpu_thread_advance_to_next_job` returns, NULL where the callback was the last job of
  the rank.
-/

namespace DpuBackend.Jobs

open DpuBackend.Lib Function

/-- The rank whose FIFO a worker goes through. -/
def WStage.fifo (stage : WStage) : Option RankId := stage.hold.map (·.rank)

structure Placed (s : State) : Prop where
  entry : ∀ q, ∀ e ∈ s.sh.queue q, ∃ job, e = some job ∧ (s.sh.rank job.rank).jobs.head? = some job ∧
    (s.sh.rank job.rank).queueIdx = q
  once : ∀ q, (queuedRanks (s.sh.queue q)).Nodup
  oneQueue : ∀ q q' r, r ∈ queuedRanks (s.sh.queue q) → r ∈ queuedRanks (s.sh.queue q') → q = q'
  oneWorker : ∀ w w' r, (s.worker w).fifo = some r → (s.worker w').fifo = some r → w = w'
  apart : ∀ q w r, r ∈ queuedRanks (s.sh.queue q) → (s.worker w).fifo ≠ some r

/-- The rank that worker `w` puts back next, in `dpu_thread_handle_global_block`. -/
def State.putsBack (s : State) (w : Tid) : Option RankId :=
  match s.worker w with
  | .block _ _ _ (other :: _) _ => some other
  | _ => none

/-- A rank that is put back has a job behind the callback. -/
def NextQueued (s : State) : Action → Prop
  | .worker w _ => ∀ other, s.putsBack w = some other → (s.sh.rank other).jobs.tail ≠ []
  | _ => True

/-- Of a rank that is put back the queue gets the next job, if there is one. -/
def PutBack (s s' : State) (other : RankId) : Prop :=
  (s'.sh.rank other).jobs = (s.sh.rank other).jobs.tail ∧
    ∀ q, s'.sh.queue q = s.sh.queue q ++
      if q = (s.sh.rank other).queueIdx then (s.sh.rank other).jobs.tail.head?.toList.map some else []

/-! ## What a step inserts -/

section

variable {sh sh' : Shared} {e : Option Job} {q' : Nat}

theorem mem_push {v : View} {q : Nat} {entry : Option Job} (he : e ∈ (v.push q entry).queue q') :
    e ∈ v.queue q' ∨ e = entry := by
  by_cases hq : q' = q
  · subst hq
    simpa using he
  · rw [View.push_queue, update_of_ne hq] at he
    exact .inl he

theorem mem_addJobs {r : RankId} {jobs : List Job} (hne : jobs ≠ []) (he : e ∈ (sh.addJobs r jobs).queue q') :
    e ∈ sh.queue q' ∨ e ≠ none := by
  have hview : e ∈ (sh.view.addJobs r jobs).queue q' := by
    rw [← Shared.view_addJobs]
    exact he
  unfold View.addJobs at hview
  split at hview
  · rcases mem_push hview with hmem | hnew
    · exact .inl hmem
    · obtain ⟨job, rest, rfl⟩ := List.exists_cons_of_ne_nil hne
      exact .inr (by rw [hnew]; nofun)
  · exact .inl hview

theorem callStep_entry {i : Nat} {q : Request} {x : Status} {pick : RankId} {stage stage' : Stage}
    (hok : stage.Ok i q) (hstep : callStep sh i q x pick stage = some (sh', stage')) (he : e ∈ sh'.queue q') :
    e ∈ sh.queue q' ∨ e ≠ none := by
  cases callStep_effect hstep with
  | quiet h => exact h.queue q' e he
  | start _ _ _ h => exact h.queue q' e he
  | add id r jobs todo h hstage =>
    subst h hstage
    exact mem_addJobs (hok (r, jobs) List.mem_cons_self).ne_nil he
  | sync h | slots _ _ h | filled _ _ _ _ _ _ _ _ _ h | master _ _ _ _ h | clear _ _ _ _ h =>
    subst h
    exact .inl he

/-- Of all steps of a worker only those of `dpu_thread_handle_global_block` insert without a test. -/
theorem workerStep_entry {w : Tid} {q : Nat} {x : Status} {stage stage' : WStage}
    (hstep : workerStep sh w q x stage = some (sh', stage')) (he : e ∈ sh'.queue q') :
    e ∈ sh.queue q' ∨ e ≠ none ∨
      ∃ r job id other others status, stage = .block r job id (other :: others) status ∧
        e = (sh.rank other).jobs.tail.head? := by
  cases workerStep_effect hstep with
  | quiet h => exact (h.queue q' e he).imp_right .inl
  | start _ _ _ _ h => exact (h.queue q' e he).imp_right .inl
  | sync _ _ _ _ _ h => exact (h.queue q' e he).imp_right .inl
  | member _ _ _ _ _ _ _ _ h => exact (h.queue q' e he).imp_right .inl
  | advance _ _ _ _ _ _ _ h =>
    have hqueue : sh'.queue = sh.queue := congrArg View.queue (Shared.view_advance h).1
    exact .inl (hqueue ▸ he)
  | putBack r job id other others status hstage h =>
    have hview : e ∈ sh'.view.queue q' := he
    rw [Shared.view_requeueOther h] at hview
    rcases mem_push hview with hmem | hnew
    · exact .inl hmem
    · exact .inr (.inr ⟨r, job, id, other, others, status, hstage, hnew⟩)
  | release _ _ _ h =>
    subst h
    exact .inl he
  | fail r job status _ _ h =>
    subst h
    have hview : e ∈ (sh.updateStatus r job status).view.queue q' := he
    rw [Shared.view_updateStatus] at hview
    simp only [View.setOwner_queue, View.setJobs_queue, View.notify_queue] at hview
    exact .inl hview

end

/-! ## The runs -/

section

variable {home : Tid → Nat} {nrJobs queueIdx : RankId → Nat} {s : State}

theorem no_null_of_reach (h : (machine home nrJobs queueIdx).Reach NextQueued s) : Inv s ∧ ∀ q, none ∉ s.sh.queue q := by
  refine machine_invariant (P := fun s => Inv s ∧ ∀ q, none ∉ s.sh.queue q) ?_ ?_ ?_ ?_ h
  · exact ⟨inv_created, fun _ => List.not_mem_nil⟩
  · intro s q hs _
    exact ⟨hs.1.issue q, hs.2⟩
  · intro s i c x pick sh stage hs _ hc hstep
    refine ⟨hs.1.call hc hstep, fun q hmem => ?_⟩
    rcases callStep_entry (hs.1.calls i c hc) hstep hmem with hold | hnew
    · exact hs.2 q hold
    · exact hnew rfl
  · intro s w x sh stage hs hok hstep
    refine ⟨hs.1.worker hstep, fun q hmem => ?_⟩
    rcases workerStep_entry hstep hmem with hold | hnew | ⟨r, job, id, other, others, status, hstage, hnone⟩
    · exact hs.2 q hold
    · exact hnew rfl
    · have htail : (s.sh.rank other).jobs.tail ≠ [] := hok other (by rw [State.putsBack, hstage])
      exact htail (List.head?_eq_none_iff.1 hnone.symm)

/-- What is left for the queues to be as they should: that no entry is NULL. -/
theorem Inv.placed (h : Inv s) (hnone : ∀ q, none ∉ s.sh.queue q) : Placed s where
  entry q e he := by
    cases e with
    | none => exact absurd he (hnone q)
    | some job => exact ⟨job, rfl, (h.own.places.queued q job he).2⟩
  once := h.own.places.distinct
  oneQueue q q' r hr hr' := by
    obtain ⟨job, hjob, rfl⟩ := mem_queuedRanks.1 hr
    obtain ⟨job', hjob', hrank⟩ := mem_queuedRanks.1 hr'
    have hidx := (h.own.places.queued q job hjob).2.2
    have hidx' := (h.own.places.queued q' job' hjob').2.2
    rw [hrank] at hidx'
    exact hidx.symm.trans hidx'
  oneWorker w w' r hw hw' := by
    obtain ⟨hd, hhd, hrank⟩ := Option.map_eq_some_iff.1 hw
    obtain ⟨hd', hhd', hrank'⟩ := Option.map_eq_some_iff.1 hw'
    by_contra hne
    exact h.own.places.ne_of_held hhd hhd' hne (hrank.trans hrank'.symm)
  apart q w r hr hw := by
    obtain ⟨hd, hhd, rfl⟩ := Option.map_eq_some_iff.1 hw
    exact h.own.places.not_mem_queue_of_held hhd q hr

theorem machineStep_putsBack {s' : State} {w : Tid} {x : Status} {other : RankId} (hputs : s.putsBack w = some other)
    (hstep : machineStep home s (.worker w x) = some s') :
    (s'.sh.view = (s.sh.view.advance other .queued).push (s.sh.view.queueIdx other) (s.sh.view.jobs other).tail.head?) := by
  obtain ⟨⟨sh, stage⟩, hws, rfl⟩ := Option.map_eq_some_iff.1 hstep
  unfold State.putsBack at hputs
  split at hputs
  · next r job id other' others status hstage =>
    cases hputs
    rw [hstage] at hws
    obtain ⟨sh₁, hother, heq⟩ := Option.map_eq_some_iff.1 hws
    cases heq
    exact Shared.view_requeueOther hother
  · cases hputs

/-- The FIFO of a rank that is put back loses the callback, and its queue gets the next job. -/
theorem putBack_of_next {s' : State} {w : Tid} {x : Status} {other : RankId} (hputs : s.putsBack w = some other)
    (hnext : (s.sh.rank other).jobs.tail ≠ []) (hstep : machineStep home s (.worker w x) = some s') :
    PutBack s s' other := by
  have hview := machineStep_putsBack hputs hstep
  have hjobs : s'.sh.view.jobs other = (s.sh.rank other).jobs.tail := by
    rw [hview]
    exact update_self _ _ _
  have hqueue : s'.sh.view.queue = update s.sh.queue (s.sh.rank other).queueIdx
      (s.sh.queue (s.sh.rank other).queueIdx ++ [(s.sh.rank other).jobs.tail.head?]) := by
    rw [hview]
    rfl
  obtain ⟨next, rest, htail⟩ := List.exists_cons_of_ne_nil hnext
  refine ⟨hjobs, fun q => ?_⟩
  change s'.sh.view.queue q = _
  rw [hqueue, htail]
  by_cases hq : q = (s.sh.rank other).queueIdx
  · subst hq
    rw [update_self, if_pos rfl]
    rfl
  · rw [update_of_ne hq, if_neg hq, List.append_nil]

/-- While the ranks that wait for a callback have a job behind it, the queues hold what they should,
and `dpu_thread_handle_global_block` puts each of these ranks back with its next job. -/
theorem placed_of_next_queued (h : (machine home nrJobs queueIdx).Reach NextQueued s) :
    Placed s ∧ ∀ w x s' other, s.putsBack w = some other → NextQueued s (.worker w x) →
      machineStep home s (.worker w x) = some s' → PutBack s s' other := by
  obtain ⟨hinv, hnone⟩ := no_null_of_reach h
  exact ⟨hinv.placed hnone, fun w x s' other hputs hok hstep => putBack_of_next hputs (hok other hputs) hstep⟩

end

/-! ## Sample runs -/

/-- A blocking asynchronous callback, called once for the ranks 0 and 1. -/
def callbackOnTwo : Request where
  tid := 10
  kind := .callbackAsync false true
  set := [0, 1]
  nodup := by decide
  ne_nil := by decide

/-- `dpu_load` of the ranks 0 and 1, asynchronous. -/
def loadOnTwo : Request where
  tid := 10
  kind := .op .load false
  set := [0, 1]
  nodup := by decide
  ne_nil := by decide

/-- Call `i` is made, and takes `n` steps. -/
def callSteps (i : Nat) (q : Request) (n : Nat) : List Action := .issue q :: List.replicate n (.call i 0 0)

/-- Worker 0 comes to the callback with rank 0; worker 1 comes with rank 1, calls the function and
puts rank 0 back. -/
def lastComes : List Action := List.replicate 3 (.worker 0 0) ++ List.replicate 8 (.worker 1 0)

/-- Nothing is queued behind the callback. -/
theorem callbackOnTwo_inserts_null :
    ∃ s, (machine (fun _ => 0) (fun _ => 4) (fun _ => 0)).Reachable s ∧ none ∈ s.sh.queue 0 ∧ ¬ Placed s := by
  obtain ⟨s, hrun, hqueue⟩ : ∃ s, System.runFrom (machineStep fun _ => 0) (created (fun _ => 4) fun _ => 0)
      (callSteps 0 callbackOnTwo 10 ++ lastComes) = some s ∧ s.sh.queue 0 = [none] := ⟨_, rfl, rfl⟩
  have hmem : none ∈ s.sh.queue 0 := by rw [hqueue]; exact List.mem_cons_self
  refine ⟨s, System.reach_of_runFrom _ (.init rfl) hrun, hmem, fun hplaced => ?_⟩
  obtain ⟨job, hjob, -⟩ := hplaced.entry 0 none hmem
  cases hjob

def checkNextQueued (s : State) : Action → Bool
  | .worker w _ => (s.putsBack w).all fun other => !(s.sh.rank other).jobs.tail.isEmpty
  | _ => true

theorem nextQueued_of_check (s : State) (a : Action) (h : checkNextQueued s a = true) : NextQueued s a := by
  cases a with
  | worker w x =>
    intro other hother hnil
    rw [checkNextQueued, hother, Option.all_some, hnil] at h
    cases h
  | _ => exact trivial

/-- The load is queued behind the callback on both ranks. -/
theorem placed_load_behind :
    ∃ s job, (machine (fun _ => 0) (fun _ => 4) (fun _ => 0)).Reach NextQueued s ∧ s.sh.queue 0 = [some job] ∧
      Placed s := by
  obtain ⟨s, hrun, job, hqueue⟩ : ∃ s, System.runChecked checkNextQueued (machineStep fun _ => 0)
      (created (fun _ => 4) fun _ => 0) (callSteps 0 callbackOnTwo 10 ++ callSteps 1 loadOnTwo 9 ++ lastComes) = some s ∧
      ∃ job, s.sh.queue 0 = [some job] := ⟨_, rfl, _, rfl⟩
  have hreach : (machine (fun _ => 0) (fun _ => 4) (fun _ => 0)).Reach NextQueued s :=
    System.reach_of_runChecked nextQueued_of_check _ (.init rfl) hrun
  exact ⟨s, job, hreach, hqueue, (placed_of_next_queued hreach).1⟩

end DpuBackend.Jobs
