import DpuBackend.Jobs.FifoOrder

/-
  Where the slots of `jobs_table` are.

  A slot of a rank is in `available_jobs`, in the FIFO, with a call that has taken it, or it holds
  the master job of a callback that is not over. `State.places` counts how often it is in these.

  What is proved:
    1. `machineStep_places`: a step moves slots from one of these to another, and the only slots
       it loses are those of `State.leaks`, which two steps have. `dpu_thread_job_get_jobs` finds
       an error on a rank where it has a slot already: `dpu_thread_job_unget_jobs` is for the
       ranks before. And `dpu_thread_job_do_jobs` runs a job in the calling thread, where the
       slots were taken before `callback_tid_set` was set.
    2. `slot_custody`: in a run each slot of the table is in one place or was lost by one of its
       steps, and no other index is anywhere.
    3. `all_slots_back`: what a run without these two steps took is available again when nothing
       goes on.

  The count of the master jobs rests on `Masters`: a callback that is called once is called by
  one worker, when all its ranks have come, so its master job is given back once.
-/

namespace DpuBackend.Jobs

open DpuBackend.Lib Function

/-! ## Places -/

/-- The slots of rank `r` in a list of slots by rank. -/
def slotsOf (r : RankId) (got : List RankSlots) : List Nat := (got.filter (·.1 = r)).flatMap (·.2)

@[simp] theorem slotsOf_nil (r : RankId) : slotsOf r [] = [] := rfl

theorem count_slotsOf_cons (r : RankId) (g : RankSlots) (got : List RankSlots) (idx : Nat) :
    (slotsOf r (g :: got)).count idx = (if g.1 = r then g.2.count idx else 0) + (slotsOf r got).count idx := by
  unfold slotsOf
  by_cases hg : g.1 = r <;> simp [hg]

theorem count_slotsOf_append (r : RankId) (got got' : List RankSlots) (idx : Nat) :
    (slotsOf r (got ++ got')).count idx = (slotsOf r got).count idx + (slotsOf r got').count idx := by
  simp [slotsOf]

/-- The slots of the jobs for each rank. -/
def jobSlots (e : RankId × List Job) : RankSlots := (e.1, e.2.map (·.idx))

namespace Shared

variable (sh : Shared)

/-- The slot of rank `r` that has the master job of sync `id`, until it is given back. -/
def masterSlot (r : RankId) (id : Nat) : Option Nat :=
  if sh.released id then none else (sh.masterOf id).bind fun m => if m.owner = r then some m.idx else none

/-- How many master jobs have slot `idx` of rank `r`. -/
def masterCount (r : RankId) (idx : Nat) : Nat :=
  (List.range sh.syncs.length).countP fun id => sh.masterSlot r id == some idx

/-- How often slot `idx` of rank `r` is available, in the FIFO or with a master job. -/
def places (r : RankId) (idx : Nat) : Nat :=
  (sh.rank r).available.count idx + ((sh.rank r).jobs.map (·.idx)).count idx + sh.masterCount r idx

end Shared

/-- The slots of rank `r` that a call has, or is to give back. -/
def Stage.slots (r : RankId) : Stage → List Nat
  | .getting _ _ got cur (r' :: _) => slotsOf r got ++ if r' = r then cur else []
  | .getting _ _ got _ [] | .mastering got | .setting _ _ (some got) | .doing _ _ (some got) => slotsOf r got
  | .ungetting _ todo _ => slotsOf r todo
  | .adding _ todo => slotsOf r (todo.map jobSlots)
  | _ => []

/-- The slots of rank `r` that the next step of a call forgets. -/
def Stage.leaks (sh : Shared) (q : Request) (r : RankId) : Stage → List Nat
  -- an error behind the first of two slots
  | .getting _ _ _ cur (r' :: _) => if r' = r ∧ (sh.rank r').jobError ≠ 0 then cur else []
  | .setting fast _ (some got) => if !q.inCallback sh && fast then slotsOf r got else []
  -- the job is run by the calling thread
  | .doing fast _ (some got) => if q.inCallback sh || fast then slotsOf r got else []
  | _ => []

namespace State

variable (s : State)

/-- In how many places slot `idx` of rank `r` is. -/
def places (r : RankId) (idx : Nat) : Nat :=
  s.sh.places r idx + (s.calls.map fun c => (c.stage.slots r).count idx).sum

def leaks (r : RankId) : Action → List Nat
  | .call i _ _ =>
    match s.calls[i]? with
    | some c => c.stage.leaks s.sh c.req r
    | none => []
  | _ => []

end State

/-- What the steps of a run forget. -/
def leaked (home : Tid → Nat) (r : RankId) : State → List Action → List Nat
  | _, [] => []
  | s, a :: as =>
    s.leaks r a ++
      match machineStep home s a with
      | some s' => leaked home r s' as
      | none => []

/-- `available_jobs_length` is the length of `available_jobs`. -/
def Shared.LengthsRight (sh : Shared) : Prop := ∀ r, (sh.rank r).availableLength = (sh.rank r).available.length

/-! ## Master jobs -/

/-- A sync goes on: one that all ranks have counted for stays so. -/
structure Sync.Onward (t t' : Sync) : Prop where
  master : t'.master = t.master
  call : t'.call = t.call
  ranks : t'.ranks = t.ranks
  zero : t.nrRanks = 0 → t'.nrRanks = 0

theorem Sync.Onward.refl (t : Sync) : t.Onward t := ⟨rfl, rfl, rfl, fun h => h⟩

def Onward (syncs syncs' : List Sync) : Prop :=
  ∀ (id : Nat) (t : Sync), syncs[id]? = some t → ∃ t', syncs'[id]? = some t' ∧ t.Onward t'

namespace Onward

variable {syncs syncs' syncs'' : List Sync}

theorem refl (syncs : List Sync) : Onward syncs syncs := fun _ t ht => ⟨t, ht, .refl t⟩

theorem trans (h : Onward syncs syncs') (h' : Onward syncs' syncs'') : Onward syncs syncs'' := by
  intro id t ht
  obtain ⟨t₁, ht₁, h₁⟩ := h id t ht
  obtain ⟨t₂, ht₂, h₂⟩ := h' id t₁ ht₁
  exact ⟨t₂, ht₂, h₂.master.trans h₁.master, h₂.call.trans h₁.call, h₂.ranks.trans h₁.ranks,
    fun hz => h₂.zero (h₁.zero hz)⟩

theorem modify (syncs : List Sync) (id : Nat) {f : Sync → Sync} (hf : ∀ t : Sync, t.Onward (f t)) :
    Onward syncs (syncs.modify id f) := by
  intro id' t ht
  by_cases hid : id = id'
  · exact ⟨f t, by simp [hid, ht], hf t⟩
  · exact ⟨t, by simp [hid, ht], .refl t⟩

theorem append (syncs : List Sync) (t : Sync) : Onward syncs (syncs ++ [t]) := by
  intro id u hu
  refine ⟨u, ?_, .refl u⟩
  rw [List.getElem?_append_left (List.getElem?_eq_some_iff.1 hu).1]
  exact hu

theorem arrive (sh : Shared) (id : Nat) (r : RankId) : Onward sh.syncs (sh.arrive id r).syncs :=
  modify sh.syncs id fun t => ⟨rfl, rfl, rfl, fun ht => by rw [Sync.arrive, ht]⟩

theorem failSync (sh : Shared) (id : Nat) (e : Status) : Onward sh.syncs (sh.failSync id e).syncs := by
  refine modify sh.syncs id fun t => ?_
  unfold Sync.fail
  split
  · exact ⟨rfl, rfl, rfl, fun ht => ht⟩
  · exact .refl t

theorem notify (sh : Shared) (r : RankId) (e : Status) (jobs : List Job) :
    Onward sh.syncs (sh.notify r e jobs).syncs ∧ (sh.notify r e jobs).syncs.length = sh.syncs.length := by
  induction jobs generalizing sh with
  | nil => exact ⟨refl _, rfl⟩
  | cons job rest ih =>
    rw [Shared.notify]
    split
    · next id _ =>
      obtain ⟨honward, hlength⟩ := ih ((sh.failSync id e).arrive id r)
      refine ⟨((failSync sh id e).trans (arrive _ id r)).trans honward, hlength.trans ?_⟩
      simp only [Shared.arrive, Shared.failSync, List.length_modify]
    · exact ih sh

theorem masterOf {sh sh' : Shared} (h : Onward sh.syncs sh'.syncs) {id : Nat} (hid : id < sh.syncs.length) :
    sh'.masterOf id = sh.masterOf id := by
  obtain ⟨t', ht', honward⟩ := h id _ (List.getElem?_eq_getElem hid)
  rw [Shared.masterOf, Shared.masterOf, ht', List.getElem?_eq_getElem hid]
  exact honward.master

end Onward

/-- Each callback that is called once is with one worker, once all its ranks have counted, until its
master job is given back. -/
structure Masters (sh : Shared) (callback : Tid → Option Nat) : Prop where
  distinct : ∀ w w' id, callback w = some id → callback w' = some id → w = w'
  running : ∀ w id, callback w = some id → sh.released id = false ∧ ∃ t, sh.syncs[id]? = some t ∧ t.nrRanks = 0
  released : ∀ id, sh.released id = true → ∃ t, sh.syncs[id]? = some t ∧ t.nrRanks = 0

namespace Masters

variable {sh sh' : Shared} {callback callback' : Tid → Option Nat}

theorem onward (h : Masters sh callback) (hsyncs : Onward sh.syncs sh'.syncs) (hreleased : sh'.released = sh.released)
    (hcallback : ∀ w id, callback' w = some id → callback w = some id) : Masters sh' callback' where
  distinct w w' id hw hw' := h.distinct w w' id (hcallback w id hw) (hcallback w' id hw')
  running w id hw := by
    obtain ⟨hnot, t, ht, hzero⟩ := h.running w id (hcallback w id hw)
    obtain ⟨t', ht', honward⟩ := hsyncs id t ht
    exact ⟨by rw [hreleased]; exact hnot, t', ht', honward.zero hzero⟩
  released id hid := by
    rw [hreleased] at hid
    obtain ⟨t, ht, hzero⟩ := h.released id hid
    obtain ⟨t', ht', honward⟩ := hsyncs id t ht
    exact ⟨t', ht', honward.zero hzero⟩

/-- The last rank has counted for sync `id`, and worker `w` is to call the callback. -/
theorem last (h : Masters sh callback) {w : Tid} {id : Nat} {t : Sync} (ht : sh.syncs[id]? = some t)
    (hone : t.nrRanks = 1) {r : RankId} (hsyncs : sh'.syncs = (sh.arrive id r).syncs)
    (hreleased : sh'.released = sh.released) : Masters sh' (update callback w (some id)) := by
  have honward : Onward sh.syncs sh'.syncs := hsyncs ▸ Onward.arrive sh id r
  -- nobody has it yet: the count was not 0
  have hfree : ∀ w', callback w' ≠ some id := by
    intro w' hw'
    obtain ⟨-, u, hu, hzero⟩ := h.running w' id hw'
    rw [ht, Option.some.injEq] at hu
    rw [← hu, hone] at hzero
    cases hzero
  have hnot : sh.released id = false := by
    by_contra hrel
    obtain ⟨u, hu, hzero⟩ := h.released id (by simpa using hrel)
    rw [ht, Option.some.injEq] at hu
    rw [← hu, hone] at hzero
    cases hzero
  have hzero : ∃ t', sh'.syncs[id]? = some t' ∧ t'.nrRanks = 0 := by
    refine ⟨t.arrive r, ?_, by rw [Sync.arrive, hone]⟩
    simp [hsyncs, Shared.arrive, ht]
  have hold : Masters sh' callback := h.onward honward hreleased fun _ _ hw => hw
  have hcases : ∀ w' id', update callback w (some id) w' = some id' → callback w' = some id' ∨ w' = w ∧ id' = id := by
    intro w' id' hw'
    by_cases hww : w' = w
    · subst hww
      rw [update_self, Option.some.injEq] at hw'
      exact .inr ⟨rfl, hw'.symm⟩
    · rw [update_of_ne hww] at hw'
      exact .inl hw'
  refine ⟨fun w₁ w₂ id' h₁ h₂ => ?_, fun w' id' hw' => ?_, hold.released⟩
  · rcases hcases w₁ id' h₁ with hc₁ | ⟨hw₁, hid⟩
    · rcases hcases w₂ id' h₂ with hc₂ | ⟨-, hid⟩
      · exact h.distinct w₁ w₂ id' hc₁ hc₂
      · exact absurd (hid ▸ hc₁) (hfree w₁)
    · rcases hcases w₂ id' h₂ with hc₂ | ⟨hw₂, -⟩
      · exact absurd (hid ▸ hc₂) (hfree w₂)
      · exact hw₁.trans hw₂.symm
  · rcases hcases w' id' hw' with hw' | ⟨rfl, rfl⟩
    · exact hold.running w' id' hw'
    · exact ⟨by rw [hreleased]; exact hnot, hzero⟩

/-- Worker `w` gives the master job back. -/
theorem release (h : Masters sh callback) {w : Tid} {id : Nat} (hw : callback w = some id) (m : Master) :
    Masters (sh.releaseMaster id m) (update callback w none) := by
  have hothers : ∀ w' id', update callback w none w' = some id' → callback w' = some id' ∧ id' ≠ id := by
    intro w' id' hw'
    by_cases hww : w' = w
    · subst hww
      rw [update_self] at hw'
      cases hw'
    · rw [update_of_ne hww] at hw'
      exact ⟨hw', fun hid => hww (h.distinct w' w id (hid ▸ hw') hw)⟩
  refine ⟨fun w₁ w₂ id' h₁ h₂ => h.distinct w₁ w₂ id' (hothers w₁ id' h₁).1 (hothers w₂ id' h₂).1,
    fun w' id' hw' => ?_, fun id' hid' => ?_⟩
  · obtain ⟨hw', hne⟩ := hothers w' id' hw'
    obtain ⟨hnot, hzero⟩ := h.running w' id' hw'
    refine ⟨?_, hzero⟩
    change update sh.released id true id' = false
    rw [update_of_ne hne]
    exact hnot
  · change update sh.released id true id' = true at hid'
    by_cases hid : id' = id
    · subst hid
      exact (h.running w id' hw).2
    · rw [update_of_ne hid] at hid'
      exact h.released id' hid'

end Masters

/-! ## What an operation does to the places -/

namespace Shared

variable {sh sh' : Shared} {r : RankId} {idx : Nat}

/-- The syncs may go on. -/
theorem masterCount_onward (hsyncs : Onward sh.syncs sh'.syncs) (hlength : sh'.syncs.length = sh.syncs.length)
    (hreleased : sh'.released = sh.released) (r : RankId) (idx : Nat) : sh'.masterCount r idx = sh.masterCount r idx := by
  unfold masterCount
  rw [hlength]
  apply List.countP_congr
  intro id hid
  rw [masterSlot, masterSlot, hreleased, hsyncs.masterOf (List.mem_range.1 hid)]

/-- A change to the lists of rank `r`. -/
theorem places_rank {a : RankApi} (hrank : sh'.rank = update sh.rank r a)
    (hmasters : ∀ r' idx, sh'.masterCount r' idx = sh.masterCount r' idx)
    (hlists : ∀ idx, a.available.count idx + (a.jobs.map (·.idx)).count idx =
      (sh.rank r).available.count idx + ((sh.rank r).jobs.map (·.idx)).count idx) (r' : RankId) (idx : Nat) :
    sh'.places r' idx = sh.places r' idx := by
  rw [places, places, hmasters, hrank]
  by_cases hr : r' = r
  · subst hr
    rw [update_self, hlists]
  · rw [update_of_ne hr]

theorem lengths_rank {a : RankApi} (h : sh.LengthsRight) (hrank : sh'.rank = update sh.rank r a)
    (ha : (sh.rank r).availableLength = (sh.rank r).available.length → a.availableLength = a.available.length) :
    sh'.LengthsRight := by
  intro r'
  rw [hrank]
  by_cases hr : r' = r
  · subst hr
    rw [update_self]
    exact ha (h r')
  · rw [update_of_ne hr]
    exact h r'

end Shared

namespace Quiet

variable {sh sh' : Shared}

theorem places_of_onward {sh₁ : Shared} (h : Quiet sh₁ sh') (hsyncs : Onward sh.syncs sh₁.syncs)
    (hrank : sh₁.rank = sh.rank) (hlength : sh₁.syncs.length = sh.syncs.length)
    (hreleased : sh₁.released = sh.released) (r : RankId) (idx : Nat) : sh'.places r idx = sh.places r idx := by
  have hmasters : sh'.masterCount r idx = sh.masterCount r idx :=
    Shared.masterCount_onward (by rw [h.syncs]; exact hsyncs) (by rw [h.syncs, hlength])
      (by rw [h.released, hreleased]) r idx
  rw [Shared.places, Shared.places, h.available, h.jobs, hrank, hmasters]

theorem places (h : Quiet sh sh') (r : RankId) (idx : Nat) : sh'.places r idx = sh.places r idx :=
  h.places_of_onward (.refl sh.syncs) rfl rfl rfl r idx

theorem places_of_arrive {call id : Nat} {r : RankId} (h : Quiet ((sh.start call r).arrive id r) sh') (r' : RankId)
    (idx : Nat) : sh'.places r' idx = sh.places r' idx :=
  have honward : Onward sh.syncs ((sh.start call r).arrive id r).syncs := Onward.arrive (sh.start call r) id r
  h.places_of_onward honward rfl (List.length_modify ..) rfl r' idx

theorem lengthsRight (h : Quiet sh sh') (hlengths : sh.LengthsRight) : sh'.LengthsRight := by
  intro r
  rw [h.availableLength, h.available]
  exact hlengths r

end Quiet

section

variable {sh sh' : Shared} {r : RankId} {job : Job} {rest : List Job} {outcome : Outcome} {status : Status}

theorem Pops.places (h : Pops sh r job rest outcome sh') (r' : RankId) (idx : Nat) :
    sh'.places r' idx = sh.places r' idx := by
  refine Shared.places_rank h.rank (fun r' idx => ?_) (fun idx => ?_) r' idx
  · exact Shared.masterCount_onward (h.syncs ▸ .refl _) (by rw [h.syncs]) h.released r' idx
  · rw [h.jobs]
    simp only [RankApi.releaseJobSlot, List.count_append, List.map_cons, List.count_cons, List.count_nil]
    omega

theorem Pops.lengthsRight (h : Pops sh r job rest outcome sh') (hlengths : sh.LengthsRight) : sh'.LengthsRight := by
  refine Shared.lengths_rank hlengths h.rank fun hr => ?_
  simp [RankApi.releaseJobSlot, hr]

theorem RankApi.releaseAll_available (a : RankApi) (jobs : List Job) :
    (a.releaseAll jobs).available = a.available ++ jobs.map (·.idx) ∧
      (a.releaseAll jobs).availableLength = a.availableLength + jobs.length := by
  induction jobs generalizing a with
  | nil => exact ⟨(List.append_nil _).symm, rfl⟩
  | cons job rest ih =>
    obtain ⟨havailable, hlength⟩ := ih (a.releaseJobSlot job.idx)
    rw [RankApi.releaseAll, havailable, hlength]
    refine ⟨by simp [RankApi.releaseJobSlot], ?_⟩
    rw [RankApi.releaseJobSlot, List.length_cons]
    dsimp only
    omega

theorem Drains.places (h : Drains sh r job status sh') (r' : RankId) (idx : Nat) :
    sh'.places r' idx = sh.places r' idx := by
  obtain ⟨honward, hlength⟩ := Onward.notify sh r (asyncStatus job.body.type status) (sh.rank r).jobs
  refine Shared.places_rank h.rank (fun r' idx => ?_) (fun idx => ?_) r' idx
  · exact Shared.masterCount_onward (h.syncs ▸ honward) (h.syncs ▸ hlength) h.released r' idx
  · rw [RankApi.updateStatus, (Shared.releaseAll_jobs _ _).1, (RankApi.releaseAll_available _ _).1]
    simp

theorem Drains.lengthsRight (h : Drains sh r job status sh') (hlengths : sh.LengthsRight) : sh'.LengthsRight := by
  refine Shared.lengths_rank hlengths h.rank fun hr => ?_
  obtain ⟨havailable, hlength⟩ := RankApi.releaseAll_available
    { sh.rank r with jobs := [], jobError := asyncStatus job.body.type status } (sh.rank r).jobs
  rw [RankApi.updateStatus, havailable, hlength, List.length_append, List.length_map, hr]

end

/-- A predicate that is lost at one element. -/
theorem countP_lose (p p' : Nat → Bool) (id : Nat) (l : List Nat) (hid : p' id = false)
    (hother : ∀ x, x ≠ id → p' x = p x) : l.countP p = l.countP p' + if p id then l.count id else 0 := by
  induction l with
  | nil => simp
  | cons x rest ih =>
    rw [List.countP_cons, List.countP_cons, List.count_cons, ih]
    by_cases hx : x = id
    · subst hx
      rw [hid]
      by_cases hp : p x = true <;> simp [hp, Nat.add_assoc]
    · rw [hother x hx]
      by_cases hp : p id = true <;> simp [hp, hx, Nat.add_assoc, Nat.add_comm]

section

variable {sh : Shared} {id : Nat} {m : Master}

/-- The master job goes from its callback to `available_jobs`. -/
theorem releaseMaster_places (hm : sh.masterOf id = some m) (hnot : sh.released id = false) (r : RankId) (idx : Nat) :
    (sh.releaseMaster id m).places r idx = sh.places r idx := by
  have hlt : id < sh.syncs.length := by
    by_contra hge
    rw [Shared.masterOf, List.getElem?_eq_none (Nat.le_of_not_lt hge)] at hm
    cases hm
  have hother : ∀ id', id' ≠ id → (sh.releaseMaster id m).masterSlot r id' = sh.masterSlot r id' := by
    intro id' hne
    change (if update sh.released id true id' then none else _) = _
    rw [update_of_ne hne]
    rfl
  have hgone : (sh.releaseMaster id m).masterSlot r id = none := by
    change (if update sh.released id true id then none else _) = _
    rw [update_self, if_pos rfl]
  have hthere : sh.masterSlot r id = if m.owner = r then some m.idx else none := by
    rw [Shared.masterSlot, hnot, hm]
    rfl
  have hcount : sh.masterCount r idx =
      (sh.releaseMaster id m).masterCount r idx + if m.owner = r ∧ m.idx = idx then 1 else 0 := by
    have hlose := countP_lose (fun k => sh.masterSlot r k == some idx)
      (fun k => (sh.releaseMaster id m).masterSlot r k == some idx) id (List.range sh.syncs.length)
      (by rw [hgone]; rfl) fun k hne => by rw [hother k hne]
    have hone : (List.range sh.syncs.length).count id = 1 :=
      List.count_eq_one_of_mem List.nodup_range (List.mem_range.2 hlt)
    rw [hone, hthere] at hlose
    refine hlose.trans (congrArg ((sh.releaseMaster id m).masterCount r idx + ·) ?_)
    by_cases hr : m.owner = r <;> simp [hr]
  have hrank : ((sh.releaseMaster id m).rank r) =
      if m.owner = r then (sh.rank r).releaseJobSlot m.idx else sh.rank r := by
    change update sh.rank m.owner _ r = _
    by_cases hr : m.owner = r
    · subst hr
      rw [update_self, if_pos rfl]
    · rw [update_of_ne (Ne.symm hr), if_neg hr]
  rw [Shared.places, Shared.places, hcount, hrank]
  by_cases hr : m.owner = r
  · simp only [hr, if_true, true_and, RankApi.releaseJobSlot, List.count_append, List.count_singleton, beq_iff_eq]
    omega
  · simp [hr]

theorem releaseMaster_lengthsRight (h : sh.LengthsRight) : (sh.releaseMaster id m).LengthsRight := by
  refine Shared.lengths_rank h (r := m.owner) rfl fun hr => ?_
  simp [RankApi.releaseJobSlot, hr]

end

/-! ## Workers -/

section

variable {sh sh' : Shared} {w : Tid} {q : Nat} {x : Status} {stage stage' : WStage} {callback : Tid → Option Nat}

theorem Masters.worker (h : Masters sh callback) (hw : callback w = stage.callback)
    (hstep : workerStep sh w q x stage = some (sh', stage')) : Masters sh' (update callback w stage'.callback) := by
  -- the worker has no callback now, or the one it had
  have hkeep : stage'.callback = none ∨ stage'.callback = stage.callback →
      ∀ w' id, update callback w stage'.callback w' = some id → callback w' = some id := by
    intro hcases w' id hw'
    by_cases hww : w' = w
    · subst hww
      rw [update_self] at hw'
      rcases hcases with hnone | hsame
      · rw [hnone] at hw'
        cases hw'
      · rw [hw, ← hsame, hw']
    · rwa [update_of_ne hww] at hw'
  cases workerStep_effect hstep with
  | quiet hq hcb => exact h.onward (hq.syncs ▸ .refl _) hq.released (hkeep (.inr hcb))
  | start _ _ _ _ hq hcb => exact h.onward (hq.syncs ▸ .refl _) hq.released (hkeep (.inl hcb))
  | sync r job id _ _ hq hcb =>
    exact h.onward (hq.syncs ▸ Onward.arrive (sh.start job.call r) id r) hq.released (hkeep (.inl hcb))
  | member r job id t hstage _ ht _ hq hcb =>
    split at hcb
    · next hone =>
      rw [hcb]
      exact h.last ht hone hq.syncs hq.released
    · exact h.onward (hq.syncs ▸ Onward.arrive (sh.start job.call r) id r) hq.released (hkeep (.inl hcb))
  | advance _ _ _ _ _ _ _ hadv hcb =>
    obtain ⟨_, _, hpops⟩ := Shared.pops_of_advance hadv
    exact h.onward (hpops.syncs ▸ .refl _) hpops.released (hkeep (.inr hcb))
  | putBack r job id other others status hstage hother hstage' =>
    obtain ⟨_, _, hpops⟩ := Shared.pops_of_requeueOther hother
    exact h.onward (hpops.syncs ▸ .refl _) hpops.released (hkeep (.inr (by rw [hstage, hstage']; rfl)))
  | release id m _ hsh hcb hcb' =>
    subst hsh
    rw [hcb']
    exact h.release (hw.trans hcb) m
  | fail r job status _ _ hsh hstage' =>
    subst hsh
    have hdrains : Drains sh r job status _ := Shared.drains_updateStatus job status
    exact h.onward (hdrains.syncs ▸ (Onward.notify sh r _ _).1) hdrains.released (hkeep (.inl (by rw [hstage']; rfl)))

/-- A worker loses no slot. -/
theorem workerStep_places (h : Masters sh callback) (hw : callback w = stage.callback)
    (hstep : workerStep sh w q x stage = some (sh', stage')) (r : RankId) (idx : Nat) :
    sh'.places r idx = sh.places r idx := by
  cases workerStep_effect hstep with
  | quiet hq _ => exact hq.places r idx
  | start _ _ _ _ hq _ => exact hq.places r idx
  | sync _ _ _ _ _ hq _ => exact hq.places_of_arrive r idx
  | member _ _ _ _ _ _ _ _ hq _ => exact hq.places_of_arrive r idx
  | advance _ _ _ _ _ _ _ hadv _ =>
    obtain ⟨_, _, hpops⟩ := Shared.pops_of_advance hadv
    exact hpops.places r idx
  | putBack _ _ _ _ _ _ _ hother _ =>
    obtain ⟨_, _, hpops⟩ := Shared.pops_of_requeueOther hother
    exact hpops.places r idx
  | release id m hm hsh hcb _ =>
    subst hsh
    exact releaseMaster_places hm (h.running w id (hw.trans hcb)).1 r idx
  | fail r' job status _ _ hsh _ =>
    subst hsh
    exact (Shared.drains_updateStatus job status).places r idx

theorem workerStep_lengthsRight (h : sh.LengthsRight) (hstep : workerStep sh w q x stage = some (sh', stage')) :
    sh'.LengthsRight := by
  cases workerStep_effect hstep with
  | quiet hq _ => exact hq.lengthsRight h
  | start _ _ _ _ hq _ => exact hq.lengthsRight h
  | sync _ _ _ _ _ hq _ => exact hq.lengthsRight h
  | member _ _ _ _ _ _ _ _ hq _ => exact hq.lengthsRight h
  | advance _ _ _ _ _ _ _ hadv _ =>
    obtain ⟨_, _, hpops⟩ := Shared.pops_of_advance hadv
    exact hpops.lengthsRight h
  | putBack _ _ _ _ _ _ _ hother _ =>
    obtain ⟨_, _, hpops⟩ := Shared.pops_of_requeueOther hother
    exact hpops.lengthsRight h
  | release _ _ _ hsh _ _ =>
    subst hsh
    exact releaseMaster_lengthsRight h
  | fail _ job status _ _ hsh _ =>
    subst hsh
    exact (Shared.drains_updateStatus job status).lengthsRight h

end

/-! ## Calls -/

namespace RankApi

theorem available_of_got {a a' : RankApi} {idx : Nat} (h : a.getJobUnlocked = .got idx a') :
    a.available = idx :: a'.available := by
  unfold getJobUnlocked at h
  split at h
  · cases h
  split at h
  · cases h
  · next hlist =>
    cases h
    exact hlist

theorem lengths_of_got {a a' : RankApi} {idx : Nat} (h : a.getJobUnlocked = .got idx a')
    (ha : a.availableLength = a.available.length) : a'.availableLength = a'.available.length := by
  have havailable := available_of_got h
  unfold getJobUnlocked at h
  split at h
  · cases h
  split at h
  · cases h
  · cases h
    rw [ha, havailable, List.length_cons, Nat.add_sub_cancel]

theorem getMany_available (n : Nat) (a : RankApi) : (a.getMany n).1 ++ (a.getMany n).2.available = a.available := by
  induction n generalizing a with
  | zero => rfl
  | succ n ih =>
    rw [getMany]
    split
    · next idx a' hround => rw [List.cons_append, ih a', available_of_got hround]
    · rfl

theorem getMany_lengths (n : Nat) (a : RankApi) (ha : a.availableLength = a.available.length) :
    (a.getMany n).2.availableLength = (a.getMany n).2.available.length := by
  induction n generalizing a with
  | zero => exact ha
  | succ n ih =>
    rw [getMany]
    split
    · next idx a' hround => exact ih a' (lengths_of_got hround ha)
    · exact ha

theorem ungetJobs_available (a : RankApi) (slots : List Nat) :
    (a.ungetJobs (slots.map some)).available = slots.reverse ++ a.available ∧
      (a.ungetJobs (slots.map some)).availableLength = a.availableLength + slots.length := by
  induction slots generalizing a with
  | nil => exact ⟨rfl, rfl⟩
  | cons idx rest ih =>
    obtain ⟨havailable, hlength⟩ :=
      ih { a with available := idx :: a.available, availableLength := a.availableLength + 1 }
    rw [List.map_cons, ungetJobs, havailable, hlength]
    refine ⟨by simp, ?_⟩
    rw [List.length_cons]
    dsimp only
    omega

end RankApi

theorem fill_slots (call : Nat) (r : RankId) (body : Body) (id : Nat) (slots : List Nat) :
    (fill call r body id slots).map (·.idx) = slots := by
  cases slots with
  | nil => rfl
  | cons idx rest =>
    rw [fill, List.map_cons, List.map_map]
    exact congrArg (idx :: ·) (List.map_id' rest)

namespace Shared

variable {sh : Shared}

variable (sh) in
theorem newSync_masterCount (t : Sync) (hfree : sh.released sh.syncs.length = false) (r : RankId) (idx : Nat) :
    (sh.newSync t).masterCount r idx =
      sh.masterCount r idx + if t.master.any fun m => m.owner == r && m.idx == idx then 1 else 0 := by
  have hold : ∀ id ∈ List.range sh.syncs.length, (sh.newSync t).masterSlot r id = sh.masterSlot r id := by
    intro id hid
    have hmaster : (sh.newSync t).masterOf id = sh.masterOf id :=
      (Onward.append sh.syncs t).masterOf (List.mem_range.1 hid)
    rw [masterSlot, masterSlot, hmaster]
    rfl
  have hnew : (sh.newSync t).masterSlot r sh.syncs.length =
      t.master.bind fun m => if m.owner = r then some m.idx else none := by
    change (if sh.released sh.syncs.length then none else
      (((sh.syncs ++ [t])[sh.syncs.length]?).bind (·.master)).bind _) = _
    simp [hfree]
  rw [masterCount, masterCount, newSync, List.length_append, List.length_singleton, List.range_succ, List.countP_append,
    List.countP_singleton]
  refine congrArg₂ (· + ·) (List.countP_congr fun id hid => by rw [← hold id hid]; rfl) ?_
  change (if ((sh.newSync t).masterSlot r sh.syncs.length == some idx) = true then 1 else 0) = _
  rw [hnew]
  cases t.master with
  | none => rfl
  | some m => by_cases hr : m.owner = r <;> simp [hr]

theorem addJobs_rank (r : RankId) (jobs : List Job) :
    (sh.addJobs r jobs).rank = update sh.rank r { sh.rank r with jobs := (sh.rank r).jobs ++ jobs } := by
  unfold addJobs
  dsimp only
  split <;> rfl

theorem addJobs_places (r : RankId) (jobs : List Job) (r' : RankId) (idx : Nat) :
    (sh.addJobs r jobs).places r' idx = sh.places r' idx + if r = r' then (jobs.map (·.idx)).count idx else 0 := by
  have hmasters : (sh.addJobs r jobs).masterCount r' idx = sh.masterCount r' idx := by
    unfold addJobs
    dsimp only
    split <;> rfl
  rw [places, places, hmasters, addJobs_rank]
  by_cases hr : r = r'
  · subst hr
    rw [update_self, if_pos rfl]
    dsimp only
    rw [List.map_append, List.count_append]
    omega
  · rw [update_of_ne (Ne.symm hr), if_neg hr, Nat.add_zero]

/-- A change to `available_jobs` of rank `r`: the slots `gone` are taken, those of `back` are there again. -/
theorem setRank_places {a : RankApi} (hjobs : a.jobs = (sh.rank r).jobs) (gone back : List Nat) (idx : Nat)
    (havailable : a.available.count idx + gone.count idx = (sh.rank r).available.count idx + back.count idx)
    (r' : RankId) : (sh.setRank r a).places r' idx + (if r = r' then gone.count idx else 0) =
      sh.places r' idx + if r = r' then back.count idx else 0 := by
  have hmasters : (sh.setRank r a).masterCount r' idx = sh.masterCount r' idx := rfl
  have hrank : (sh.setRank r a).rank = update sh.rank r a := rfl
  rw [places, places, hmasters, hrank]
  by_cases hr : r = r'
  · subst hr
    rw [update_self, hjobs]
    simp only [if_true]
    omega
  · rw [update_of_ne (Ne.symm hr), if_neg hr, if_neg hr]

end Shared

section

variable {sh sh' : Shared} {i : Nat} {q : Request} {x : Status} {pick : RankId} {stage stage' : Stage}
  {callback : Tid → Option Nat}

/-- The next sync has no master job that was given back. -/
theorem Masters.fresh (h : Masters sh callback) : sh.released sh.syncs.length = false := by
  by_contra hrel
  obtain ⟨t, ht, -⟩ := h.released sh.syncs.length (by simpa using hrel)
  have := (List.getElem?_eq_some_iff.1 ht).1
  omega

/-- The slot of a new master job goes from `available_jobs` to its callback. -/
theorem Masters.newMaster_places (h : Masters sh callback) {a : RankApi} {slot n : Nat} {isNonblocking : Bool}
    {ranks : List RankId} (hround : (sh.rank pick).getJobUnlocked = .got slot a) (r : RankId) (idx : Nat) :
    ((sh.setRank pick a).newSync ⟨n, 0, some ⟨pick, slot, isNonblocking⟩, ranks, [], i⟩).places r idx =
      sh.places r idx := by
  have havailable := RankApi.available_of_got hround
  have hplaces := Shared.setRank_places (r := pick) (RankApi.getJobUnlocked_jobs hround).1 [slot] [] idx
    (by rw [havailable]; simp only [List.count_cons, List.count_nil]; omega) r
  rw [Shared.places] at hplaces
  rw [Shared.places, (sh.setRank pick a).newSync_masterCount _ h.fresh]
  change ((sh.setRank pick a).rank r).available.count idx + (((sh.setRank pick a).rank r).jobs.map (·.idx)).count idx + _ = _
  by_cases hr : pick = r
  · simp only [hr, if_true, List.count_singleton, List.count_nil] at hplaces
    simp only [hr, Option.any_some, beq_self_eq_true, Bool.true_and]
    omega
  · simp only [hr, if_false] at hplaces
    simp only [Option.any_some, beq_eq_false_iff_ne.2 hr, Bool.false_and, Bool.false_eq_true, if_false]
    omega

theorem count_slots_getting (r : RankId) (fast : Bool) (id : Option Nat) (got : List RankSlots) (todo : List RankId)
    (idx : Nat) : ((Stage.getting fast id got [] todo).slots r).count idx = (slotsOf r got).count idx := by
  cases todo with
  | nil => rfl
  | cons r' todo => simp [Stage.slots]

theorem callStep_places_getting {fast : Bool} {id : Option Nat} {got : List RankSlots} {cur : List Nat} {todo : List RankId}
    (hstep : callStep sh i q x pick (.getting fast id got cur todo) = some (sh', stage')) (r : RankId) (idx : Nat) :
    sh'.places r idx + (stage'.slots r).count idx + ((Stage.getting fast id got cur todo).leaks sh q r).count idx =
      sh.places r idx + ((Stage.getting fast id got cur todo).slots r).count idx := by
  cases todo with
  | nil =>
    simp only [callStep] at hstep
    split at hstep
    · cases hstep
      rfl
    split at hstep
    · cases hstep
      rfl
    · cases hstep
      rfl
  | cons r' todo =>
    simp only [callStep] at hstep
    split at hstep
    · next herror =>
      cases hstep
      simp only [Stage.slots, Stage.leaks, List.count_append, herror, ne_eq, not_false_eq_true, and_true]
      omega
    next hok =>
    -- what is taken goes from `available_jobs` to the call
    have hmany := RankApi.getMany_available (q.nrJobs fast - cur.length) (sh.rank r')
    have hplaces := Shared.setRank_places (r := r') (RankApi.getMany_jobs (q.nrJobs fast - cur.length) (sh.rank r')).1
      ((sh.rank r').getMany (q.nrJobs fast - cur.length)).1 [] idx
      (by rw [← hmany, List.count_append, List.count_nil]; omega) r
    have hnone : ((Stage.getting fast id got cur (r' :: todo)).leaks sh q r).count idx = 0 := by
      have hfalse : ¬(r' = r ∧ (sh.rank r').jobError ≠ 0) := fun hand => hok hand.2
      rw [Stage.leaks, if_neg hfalse, List.count_nil]
    rw [hnone, Nat.add_zero]
    split at hstep
    · cases hstep
      have hsee : ∀ sh : Shared, (sh.see i r').places r idx = sh.places r idx := fun _ => rfl
      rw [hsee, count_slots_getting, count_slotsOf_append, count_slotsOf_cons, slotsOf_nil, List.count_nil]
      simp only [Stage.slots, List.count_append]
      by_cases hr : r' = r
      · simp only [hr, if_true, List.count_nil] at hplaces ⊢
        omega
      · simp only [hr, if_false, List.count_nil] at hplaces ⊢
        omega
    · cases hstep
      simp only [Stage.slots, List.count_append]
      by_cases hr : r' = r
      · simp only [hr, if_true, List.count_append, List.count_nil] at hplaces ⊢
        omega
      · simp only [hr, if_false, List.count_nil] at hplaces ⊢
        omega

/-- Between the lists and the calls slots are moved, but for those a call forgets. -/
theorem callStep_places (h : Masters sh callback) (hstep : callStep sh i q x pick stage = some (sh', stage')) (r : RankId)
    (idx : Nat) : sh'.places r idx + (stage'.slots r).count idx + (stage.leaks sh q r).count idx =
      sh.places r idx + (stage.slots r).count idx := by
  cases stage
  case begin =>
    simp only [callStep] at hstep
    split at hstep
    · cases hstep
      rfl
    split at hstep
    · cases hstep
      have hplaces : ∀ t : Sync, t.master = none → (sh.newSync t).places r idx = sh.places r idx := by
        intro t ht
        rw [Shared.places, sh.newSync_masterCount t h.fresh, ht]
        rfl
      exact congrArg (· + 0 + 0) (hplaces _ rfl)
    · cases hstep
      rfl
  case second fast id =>
    simp only [callStep] at hstep
    split at hstep
    · cases hstep
      rfl
    · cases hstep
      rw [count_slots_getting]
      rfl
  case getting fast id got cur todo => exact callStep_places_getting hstep r idx
  case ungetting status todo cur =>
    cases todo with
    | nil =>
      cases hstep
      rfl
    | cons g todo =>
      cases hstep
      have hplaces := Shared.setRank_places (r := g.1) (RankApi.ungetJobs_jobs (sh.rank g.1) (g.2.map some)).1 [] g.2 idx
        (by rw [(RankApi.ungetJobs_available _ g.2).1, List.count_append, List.count_reverse, List.count_nil]; omega) r
      have hslots := count_slotsOf_cons r g todo idx
      simp only [Stage.slots, Stage.leaks, List.count_nil] at hplaces ⊢
      rw [hslots]
      by_cases hr : g.1 = r
      · simp only [hr, if_true] at hplaces ⊢
        omega
      · simp only [hr, if_false] at hplaces ⊢
        omega
  case mastering got =>
    simp only [callStep] at hstep
    split at hstep
    · cases hstep
    rw [Option.ite_none_right_eq_some] at hstep
    obtain ⟨-, hstep⟩ := hstep
    split at hstep
    · cases hstep
      rfl
    · cases hstep
    · next hround =>
      cases hstep
      exact congrArg (· + (slotsOf r got).count idx + 0) (h.newMaster_places hround r idx)
  case setting fast id got =>
    simp only [callStep] at hstep
    split at hstep
    · next hin =>
      cases hstep
      cases got <;> simp [Stage.slots, Stage.leaks, hin]
    next hin =>
    split at hstep
    · next hor =>
      cases hstep
      cases got <;> simp_all [Stage.slots, Stage.leaks]
    · next hor =>
      cases hstep
      cases got <;> simp_all [Stage.slots, Stage.leaks]
  case doing fast id got =>
    simp only [callStep] at hstep
    split at hstep
    · next hin =>
      split at hstep
      · cases hstep
      · cases hstep
        cases got <;> simp [Stage.slots, Stage.leaks, hin]
    next hin =>
    split at hstep
    · next got =>
      cases hstep
      have hfilled : (got.map fun g => (g.1, fill i g.1 (q.body (id.getD 0) g.1) (id.getD 0) g.2)).map jobSlots = got := by
        rw [List.map_map]
        have hid : ∀ g : RankSlots, jobSlots (g.1, fill i g.1 (q.body (id.getD 0) g.1) (id.getD 0) g.2) = g := by
          intro g
          rw [jobSlots, fill_slots]
        exact (List.map_congr_left fun g _ => hid g).trans (List.map_id got)
      simp only [Stage.slots, Stage.leaks, hfilled, hin, Bool.or_self, Bool.false_eq_true, if_false, List.count_nil,
        Nat.add_zero]
    · next hother =>
      cases hstep
      cases got <;> simp_all [Stage.slots, Stage.leaks]
  case adding id todo =>
    cases todo with
    | nil =>
      cases id with
      | none =>
        cases hstep
        rfl
      | some id =>
        cases hstep
        cases q.synchronous <;> rfl
    | cons e todo =>
      cases hstep
      -- the slots of the jobs go from the call to the FIFO
      have hslots := count_slotsOf_cons r (jobSlots e) (todo.map jobSlots) idx
      rw [Shared.addJobs_places]
      simp only [Stage.slots, Stage.leaks, List.count_nil, List.map_cons]
      rw [hslots]
      by_cases hr : e.1 = r
      · simp only [hr, jobSlots, if_true]
        omega
      · simp only [hr, jobSlots, if_false]
        omega
  case locking r' body =>
    obtain ⟨sh₁, hlock, heq⟩ := Option.map_eq_some_iff.1 hstep
    cases heq
    exact (Quiet.lockRank hlock).places r idx
  case inline r' body =>
    simp only [callStep] at hstep
    split at hstep
    · split at hstep
      · cases hstep
        exact (Quiet.unlockRank (sh.start i r') r' _).places r idx
      · cases hstep
        exact (Quiet.unlockRank (sh.start i r') r' _).places r idx
    · cases hstep
      exact (Quiet.setCallbackTid (sh.start i r') _ q.tid).places r idx
    · cases hstep
  case inlinePolling r' =>
    obtain ⟨sh₁, hlock, heq⟩ := Option.map_eq_some_iff.1 hstep
    cases heq
    exact ((Quiet.lockRank hlock).trans (.unlockRank sh₁ r' 1)).places r idx
  case inlineFunction r' ranks =>
    cases hstep
    exact ((Quiet.clearCallbackTid sh ranks).trans (.unlockRank _ r' 1)).places r idx
  case waiting id =>
    simp only [callStep] at hstep
    split at hstep
    · cases hstep
    rw [Option.ite_none_right_eq_some] at hstep
    obtain ⟨-, hstep⟩ := hstep
    cases hstep
    split <;> rfl
  case clearing status todo =>
    cases todo with
    | nil =>
      cases hstep
      rfl
    | cons r' todo =>
      cases hstep
      have hplaces := sh.setRank_places (r := r') (a := { sh.rank r' with jobError := 0 }) rfl [] [] idx rfl r
      simp only [List.count_nil, ite_self, Nat.add_zero] at hplaces
      exact congrArg (· + 0 + 0) hplaces
  case done status => cases hstep
  case undefined => cases hstep

theorem callStep_lengthsRight (h : sh.LengthsRight) (hstep : callStep sh i q x pick stage = some (sh', stage')) :
    sh'.LengthsRight := by
  revert hstep
  fun_cases callStep sh i q x pick stage <;> intro hstep
  -- most steps leave the lists of the ranks alone
  all_goals first
    | cases hstep
      exact h
    | cases hstep
      done
    | skip
  case case7 =>
    cases hstep
    exact Shared.lengths_rank h rfl (RankApi.getMany_lengths _ _)
  case case8 =>
    cases hstep
    exact Shared.lengths_rank h rfl (RankApi.getMany_lengths _ _)
  case case12 =>
    cases hstep
    refine Shared.lengths_rank h rfl fun hr => ?_
    obtain ⟨havailable, hlength⟩ := RankApi.ungetJobs_available _ _
    rw [havailable, hlength, hr, List.length_append, List.length_reverse, Nat.add_comm]
  case case17 =>
    cases hstep
    exact Shared.lengths_rank h rfl (RankApi.lengths_of_got ‹_›)
  case case26 =>
    cases hstep
    exact Shared.lengths_rank h (Shared.addJobs_rank _ _) fun hr => hr
  case case29 =>
    obtain ⟨sh₁, hlock, heq⟩ := Option.map_eq_some_iff.1 hstep
    cases heq
    exact (Quiet.lockRank hlock).lengthsRight h
  case case30 =>
    cases hstep
    exact (Quiet.unlockRank (sh.start i _) _ _).lengthsRight h
  case case31 =>
    cases hstep
    exact (Quiet.unlockRank (sh.start i _) _ _).lengthsRight h
  case case32 =>
    cases hstep
    exact (Quiet.setCallbackTid (sh.start i _) _ _).lengthsRight h
  case case34 =>
    obtain ⟨sh₁, hlock, heq⟩ := Option.map_eq_some_iff.1 hstep
    cases heq
    exact ((Quiet.lockRank hlock).trans (.unlockRank sh₁ _ _)).lengthsRight h
  case case35 =>
    cases hstep
    exact ((Quiet.clearCallbackTid sh _).trans (.unlockRank _ _ _)).lengthsRight h
  case case39 =>
    cases hstep
    exact Shared.lengths_rank h rfl fun hr => hr

theorem callStep_masters (h : Masters sh callback) (hstep : callStep sh i q x pick stage = some (sh', stage')) :
    Masters sh' callback := by
  cases callStep_effect hstep with
  | quiet hq => exact h.onward (hq.syncs ▸ .refl _) hq.released fun _ _ hw => hw
  | start _ _ _ hq => exact h.onward (hq.syncs ▸ .refl _) hq.released fun _ _ hw => hw
  | sync hsh =>
    subst hsh
    exact h.onward (.append _ _) rfl fun _ _ hw => hw
  | slots _ _ hsh =>
    subst hsh
    exact h.onward (.refl _) rfl fun _ _ hw => hw
  | filled _ _ _ _ _ _ _ _ _ hsh =>
    subst hsh
    exact h.onward (.refl _) rfl fun _ _ hw => hw
  | master _ _ _ _ hsh =>
    subst hsh
    exact h.onward (.append _ _) rfl fun _ _ hw => hw
  | add _ r jobs _ hsh =>
    have hsame : (sh.addJobs r jobs).syncs = sh.syncs ∧ (sh.addJobs r jobs).released = sh.released := by
      unfold Shared.addJobs
      dsimp only
      split <;> exact ⟨rfl, rfl⟩
    subst hsh
    exact h.onward (hsame.1 ▸ .refl _) hsame.2 fun _ _ hw => hw
  | clear _ _ _ _ hsh =>
    subst hsh
    exact h.onward (.refl _) rfl fun _ _ hw => hw

end

/-! ## Runs -/

/-- What the steps keep of the slots. -/
structure Custody (s : State) : Prop where
  masters : Masters s.sh (WStage.callback ∘ s.worker)
  lengths : s.sh.LengthsRight

section

variable {home : Tid → Nat} {nrJobs queueIdx : RankId → Nat} {s s' : State} {a : Action}

theorem custody_created : Custody (created nrJobs queueIdx) where
  masters :=
    { distinct := fun _ _ _ hw => absurd hw.symm (Option.some_ne_none _)
      running := fun _ _ hw => absurd hw.symm (Option.some_ne_none _)
      released := fun _ hid => absurd hid.symm (Bool.true_eq_false_eq_False) }
  lengths r := by simp [created, RankApi.create]

theorem created_places (r : RankId) (idx : Nat) :
    (created nrJobs queueIdx).places r idx = if idx < nrJobs r then 1 else 0 := by
  have hrange : (List.range (nrJobs r)).reverse.count idx = if idx < nrJobs r then 1 else 0 := by
    rw [List.count_reverse]
    by_cases hidx : idx < nrJobs r
    · rw [if_pos hidx]
      exact List.count_eq_one_of_mem List.nodup_range (List.mem_range.2 hidx)
    · rw [if_neg hidx]
      exact List.count_eq_zero.2 fun hmem => hidx (List.mem_range.1 hmem)
  exact hrange

theorem machineStep_custody (h : Custody s) (hstep : machineStep home s a = some s') : Custody s' := by
  cases a with
  | issue q =>
    cases hstep
    exact ⟨h.masters, h.lengths⟩
  | call i x pick =>
    simp only [machineStep] at hstep
    split at hstep
    · cases hstep
    obtain ⟨⟨sh, stage⟩, hcs, heq⟩ := Option.map_eq_some_iff.1 hstep
    cases heq
    exact ⟨callStep_masters h.masters hcs, callStep_lengthsRight h.lengths hcs⟩
  | worker w x =>
    obtain ⟨⟨sh, stage⟩, hws, heq⟩ := Option.map_eq_some_iff.1 hstep
    cases heq
    refine ⟨?_, workerStep_lengthsRight h.lengths hws⟩
    rw [comp_update]
    exact h.masters.worker rfl hws

/-- A step moves slots from place to place, but for those it loses. -/
theorem machineStep_places (h : Custody s) (hstep : machineStep home s a = some s') (r : RankId) (idx : Nat) :
    s'.places r idx + (s.leaks r a).count idx = s.places r idx := by
  cases a with
  | issue q =>
    cases hstep
    simp [State.places, State.leaks, State.newCall, Stage.slots]
  | call i x pick =>
    simp only [machineStep] at hstep
    split at hstep
    · cases hstep
    next c hc =>
    obtain ⟨⟨sh, stage⟩, hcs, heq⟩ := Option.map_eq_some_iff.1 hstep
    cases heq
    have hplaces := callStep_places h.masters hcs r idx
    have hsum : ((s.calls.set i { c with stage := stage }).map fun c => (c.stage.slots r).count idx).sum + _ = _ :=
      sum_map_set (fun c => (c.stage.slots r).count idx) hc
    simp only [State.places, State.leaks, hc]
    dsimp only at hsum
    omega
  | worker w x =>
    obtain ⟨⟨sh, stage⟩, hws, heq⟩ := Option.map_eq_some_iff.1 hstep
    cases heq
    have hplaces := workerStep_places h.masters rfl hws r idx
    simp only [State.places, State.leaks, hplaces, List.count_nil, Nat.add_zero]

theorem run_places (h : Custody s) (as : List Action) (hrun : System.runFrom (machineStep home) s as = some s') :
    Custody s' ∧ ∀ r idx, s'.places r idx + (leaked home r s as).count idx = s.places r idx := by
  induction as generalizing s with
  | nil =>
    cases hrun
    exact ⟨h, fun _ _ => rfl⟩
  | cons a as ih =>
    rw [System.runFrom, Option.bind_eq_some_iff] at hrun
    obtain ⟨t, hstep, hrest⟩ := hrun
    obtain ⟨hcustody, hplaces⟩ := ih (machineStep_custody h hstep) hrest
    refine ⟨hcustody, fun r idx => ?_⟩
    rw [leaked, hstep, List.count_append]
    dsimp only
    have hone := machineStep_places h hstep r idx
    have hall := hplaces r idx
    omega

/-- Each slot of the table of a rank is in one place, or one step of the run has lost it; no other index
is in any. -/
theorem slot_custody (as : List Action) (hrun : System.runFrom (machineStep home) (created nrJobs queueIdx) as = some s)
    (r : RankId) : (s.sh.rank r).availableLength = (s.sh.rank r).available.length ∧
      ∀ idx, s.places r idx + (leaked home r (created nrJobs queueIdx) as).count idx = if idx < nrJobs r then 1 else 0 := by
  obtain ⟨hcustody, hplaces⟩ := run_places custody_created as hrun
  exact ⟨hcustody.lengths r, fun idx => (hplaces r idx).trans (created_places r idx)⟩

/-- When nothing goes on, a rank has the slots it had, unless a step has lost one. -/
theorem all_slots_back (as : List Action)
    (hrun : System.runFrom (machineStep home) (created nrJobs queueIdx) as = some s) {r : RankId}
    (hleaked : leaked home r (created nrJobs queueIdx) as = []) (hjobs : (s.sh.rank r).jobs = [])
    (hcalls : ∀ c ∈ s.calls, c.stage.slots r = []) (hmasters : ∀ id, s.sh.masterSlot r id = none) :
    (s.sh.rank r).available.Perm (List.range (nrJobs r)) := by
  rw [List.perm_iff_count]
  intro idx
  have hplaces := (run_places custody_created as hrun).2 r idx
  have hnone : s.sh.masterCount r idx = 0 := List.countP_eq_zero.2 fun id _ => by simp [hmasters id]
  have hsum : (s.calls.map fun c => (c.stage.slots r).count idx).sum = 0 := by
    rw [List.sum_eq_zero]
    intro n hn
    obtain ⟨c, hc, rfl⟩ := List.mem_map.1 hn
    rw [hcalls c hc, List.count_nil]
  rw [hleaked, created_places, State.places, Shared.places, hjobs, hnone, hsum] at hplaces
  simp only [List.map_nil, List.count_nil, Nat.add_zero] at hplaces
  rw [hplaces]
  by_cases hidx : idx < nrJobs r
  · rw [if_pos hidx]
    exact (List.count_eq_one_of_mem List.nodup_range (List.mem_range.2 hidx)).symm
  · rw [if_neg hidx]
    exact (List.count_eq_zero.2 fun hmem => hidx (List.mem_range.1 hmem)).symm

end

/-- A rank of three slots: a copy takes two, and another one waits with the third when the first fails. -/
def failsBetween : List Action :=
  callSteps 0 copyOnOne 8 ++ callSteps 1 copyOnOne 3 ++ List.replicate 4 (.worker 0 5) ++ List.replicate 2 (.call 1 0 0)

/-- The second copy returns, and its slot is nowhere. -/
theorem slot_custody_failsBetween :
    ∃ s, System.runFrom (machineStep fun _ => 0) (created (fun _ => 3) fun _ => 0) failsBetween = some s ∧
      leaked (fun _ => 0) 0 (created (fun _ => 3) fun _ => 0) failsBetween = [0] ∧
      s.places 0 0 = 0 ∧ s.places 0 1 = 1 := by
  obtain ⟨s, hrun⟩ : ∃ s, System.runFrom (machineStep fun _ => 0) (created (fun _ => 3) fun _ => 0) failsBetween =
      some s := ⟨_, rfl⟩
  have hleaked : leaked (fun _ => 0) 0 (created (fun _ => 3) fun _ => 0) failsBetween = [0] := rfl
  have hall := (slot_custody failsBetween hrun 0).2
  rw [hleaked] at hall
  have hzero := hall 0
  have hone := hall 1
  simp only [List.count_singleton] at hzero hone
  refine ⟨s, hrun, hleaked, ?_, ?_⟩
  · simpa using hzero
  · simpa using hone

end DpuBackend.Jobs
