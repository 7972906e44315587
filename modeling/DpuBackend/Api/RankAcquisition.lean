import DpuBackend.Lib.FirstFailure
import Mathlib.Data.List.Count

/-
  Getting a rank: what is undone when a step fails (`dpu_management.c`,
  `dpu_rank_handler_allocator.c`).

  C ↔ Lean:
    dpu_rank_handler_dpu_rank_list, .._size, .._next_dpu_rank   ↔ State.slots, listSize, next
    dpu_rank_list_update_next, dpu_rank_list_add, .._remove     ↔ dpuRankListUpdateNext, dpuRankListAdd, dpuRankListRemove
    dpu_rank_handler_get_rank                                   ↔ dpuRankHandlerGetRank
    dpu_get_profiling_properties                                ↔ dpuGetProfilingProperties
    dpu_get_rank_of_type and its labels                         ↔ dpuGetRankOfType; freeCmdsBuffer, freeDpus and so on

  A call keeps a log of what it obtains and releases. How each of its steps ends
  is given, and so is what the profile and the backend say. A backend that fails
  to allocate has kept nothing.

  The rank is in the list before the last steps that can fail, and no label takes
  it out again: `allOrNothing_iff` says that this is the whole difference.
-/

namespace DpuBackend.Api.RankAcquisition

open DpuBackend.Lib

inductive Resource where
  | properties
  | rank
  | handler
  | rankId
  | description
  | dpus
  | backendRank
  | sampleStats
  | cmdsBuffer
  deriving DecidableEq

inductive Event where
  | obtained (r : Resource)
  | released (r : Resource)
  deriving DecidableEq

/-- The steps that can fail, in the order of the code. -/
inductive Step where
  | loadProperties
  | callocRank
  | backendProperty
  | knownBackend
  | instantiateHandler
  | rankId
  | mallocDescription
  | fillDescription
  | genericDescription
  | safeChecks
  | callocDpus
  | backendAllocate
  | allDisabled
  | growList
  | enableProfiling
  | profilingDpuId
  | profilingSliceId
  | sampleStats
  | knownProfiling
  | mcountAddress
  | retMcountAddress
  | threadProfilingAddress
  | muxSwitch
  | resetOnAlloc
  | nrJobs
  | nrThreads
  | nrThreadsMax
  | cmdsBufferSize
  | cmdsBuffer
  | mutexAttr
  | mutexInit
  deriving DecidableEq

/-- The values of `enable_profiling`. -/
inductive Profiling where
  | statistics
  | nop
  | mcount
  | samples
  | sections
  | unknown
  deriving DecidableEq

inductive Status where
  | invalidProfile
  | system
  | allocation
  | internal
  deriving DecidableEq

/-- What a call meets: the result of each step, the profile and the enabled DPUs of each slice. -/
structure Outcomes where
  fails : Step → Bool
  profiling : Option Profiling
  nrThreads : Nat
  logd : Bool
  enabledDpus : List UInt8

def nrThreadsPerRankMax : Nat := 8

structure State where
  /-- The list of ranks, by their addresses. -/
  slots : List (Option Nat)
  listSize : Nat
  /-- The index of `dpu_rank_handler_next_dpu_rank`. -/
  next : Nat
  log : List Event

abbrev RankM := EStateM Status State

def acquire (r : Resource) : RankM PUnit := modify fun s => { s with log := .obtained r :: s.log }

def release (r : Resource) : RankM PUnit := modify fun s => { s with log := .released r :: s.log }

/-- `if (failed) { status = ..; goto label; }` -/
def check (failed : Bool) (status : Status) (label : RankM PUnit) : RankM PUnit :=
  if failed then do
    label
    throw status
  else pure ()

/-! ## The list of ranks -/

/-- Whether the list has no place left. -/
def full (slots : List (Option Nat)) (listSize : Nat) : Bool := ((slots.take listSize).findIdx? (·.isNone)).isNone

def dpuRankListUpdateNext (o : Outcomes) : RankM Bool := do
  let s ← get
  match (s.slots.take s.listSize).findIdx? (·.isNone) with
  | some i =>
    set { s with next := i }
    return true
  | none =>
    let size := s.listSize * 2 + 1
    if o.fails .growList then
      -- the size is that of the list that could not be allocated
      set { s with listSize := size }
      return false
    else
      set { s with slots := s.slots ++ List.replicate (size - s.listSize) none, listSize := size, next := s.listSize }
      return true

def dpuRankListAdd (o : Outcomes) (rank : Nat) : RankM Bool := do
  modify fun s => { s with slots := s.slots.set s.next (some rank) }
  dpuRankListUpdateNext o

/-- The first entry of the rank becomes free. -/
def dpuRankListRemove (rank : Nat) (s : State) : State :=
  match (s.slots.take s.listSize).findIdx? (· = some rank) with
  | some i => { s with slots := s.slots.set i none }
  | none => s

/-! ## Getting a rank -/

def deleteProperties : RankM PUnit := release .properties

def freeLink : RankM PUnit := do
  release .rank
  deleteProperties

def releaseHandler : RankM PUnit := do
  release .handler
  freeLink

def freeDpus : RankM PUnit := do
  release .dpus
  releaseHandler

/-- The buffer is `NULL` if the commands are not logged. -/
def freeCmds (o : Outcomes) : RankM PUnit := if o.logd then release .cmdsBuffer else pure ()

def freeCmdsBuffer (o : Outcomes) : RankM PUnit := do
  freeCmds o
  freeDpus

/-- Where the function returns false its caller goes to `release_handler`. -/
def dpuRankHandlerGetRank (o : Outcomes) (rank : Nat) : RankM PUnit := do
  check (o.fails .rankId) .allocation releaseHandler
  acquire .rankId
  check (o.fails .mallocDescription) .allocation do
    release .rankId
    releaseHandler
  acquire .description
  check (o.fails .fillDescription) .allocation do
    release .description
    release .rankId
    releaseHandler
  check (o.fails .genericDescription) .allocation do
    release .description
    release .rankId
    releaseHandler
  check (o.fails .safeChecks) .allocation do
    release .description
    release .rankId
    releaseHandler
  check (o.fails .callocDpus) .allocation do
    release .description
    release .rankId
    releaseHandler
  acquire .dpus
  check (o.fails .backendAllocate) .allocation do
    release .dpus
    release .description
    release .rankId
    releaseHandler
  acquire .backendRank
  -- the memory of the DPUs is not freed here
  check (o.enabledDpus.all (· = 0)) .allocation do
    release .backendRank
    release .rankId
    release .description
    releaseHandler
  let added ← dpuRankListAdd o rank
  check (!added) .allocation releaseHandler

def callocSampleStats (o : Outcomes) (label : RankM PUnit) : RankM PUnit :=
  if o.profiling = some .samples then do
    check (o.fails .sampleStats) .system label
    acquire .sampleStats
  else pure ()

def dpuGetProfilingProperties (o : Outcomes) (label : RankM PUnit) : RankM PUnit := do
  check (o.fails .enableProfiling) .invalidProfile label
  check (o.fails .profilingDpuId) .invalidProfile label
  check (o.fails .profilingSliceId) .invalidProfile label
  if o.profiling.isSome then
    callocSampleStats o label
    check (o.profiling = some .unknown) .internal label
    check (o.fails .mcountAddress) .invalidProfile label
    check (o.fails .retMcountAddress) .invalidProfile label
    check (o.fails .threadProfilingAddress) .invalidProfile label

/-- This failure returns without going to a label. -/
def callocCmds (o : Outcomes) : RankM PUnit :=
  if o.logd then do
    check (o.fails .cmdsBuffer) .system (pure ())
    acquire .cmdsBuffer
  else pure ()

def dpuGetRankOfType (o : Outcomes) (rank : Nat) : RankM PUnit := do
  check (o.fails .loadProperties) .invalidProfile (pure ())
  acquire .properties
  check (o.fails .callocRank) .system deleteProperties
  acquire .rank
  check (o.fails .backendProperty) .system freeLink
  check (o.fails .knownBackend) .invalidProfile freeLink
  check (o.fails .instantiateHandler) .allocation freeLink
  acquire .handler
  dpuRankHandlerGetRank o rank
  dpuGetProfilingProperties o freeDpus
  check (o.fails .muxSwitch) .invalidProfile freeDpus
  check (o.fails .resetOnAlloc) .invalidProfile freeDpus
  check (o.fails .nrJobs) .invalidProfile freeDpus
  check (o.fails .nrThreads) .invalidProfile freeDpus
  check (nrThreadsPerRankMax < o.nrThreads) .invalidProfile freeDpus
  check (o.fails .cmdsBufferSize) .invalidProfile freeDpus
  callocCmds o
  check (o.fails .mutexAttr) .system (freeCmdsBuffer o)
  check (o.fails .mutexInit) .system (freeCmdsBuffer o)
  deleteProperties

/-! ## All or nothing -/

/-- What a call has to release when it fails. -/
def obtainedResources : List Resource := [.backendRank, .rankId, .handler, .description, .rank, .dpus]

/-- The list has the same ranks, and what the call has obtained it has released, once. -/
structure Undone (before after : State) : Prop where
  ranks : ∀ r, some r ∈ after.slots ↔ some r ∈ before.slots
  released : ∀ r ∈ obtainedResources, after.log.count (.obtained r) = after.log.count (.released r)
  once : ∀ r ∈ obtainedResources, after.log.count (.released r) ≤ 1

def AllOrNothing (o : Outcomes) (rank : Nat) (s : State) : Prop :=
  match (dpuGetRankOfType o rank).run { s with log := [] } with
  | .ok _ s' => s'.slots.count (some rank) = 1
  | .error _ s' => Undone s s'

/-- The steps before the rank is in the list, but for the one that forgets the memory of the DPUs. -/
def undoneSteps : List Step :=
  [.loadProperties, .callocRank, .backendProperty, .knownBackend, .instantiateHandler, .rankId, .mallocDescription,
    .fillDescription, .genericDescription, .safeChecks, .callocDpus, .backendAllocate]

/-- The steps from there on. -/
def otherSteps : List Step :=
  [.allDisabled, .growList, .enableProfiling, .profilingDpuId, .profilingSliceId, .sampleStats, .knownProfiling,
    .mcountAddress, .retMcountAddress, .threadProfilingAddress, .muxSwitch, .resetOnAlloc, .nrJobs, .nrThreads,
    .nrThreadsMax, .cmdsBufferSize, .cmdsBuffer, .mutexAttr, .mutexInit]

/-- Whether the call, if it comes to the step, goes through it and fails there. -/
def Outcomes.stops (o : Outcomes) (rank : Nat) (s : State) : Step → Bool
  | .allDisabled => o.enabledDpus.all (· = 0)
  | .growList => full (s.slots.set s.next (some rank)) s.listSize && o.fails .growList
  | .sampleStats => o.profiling = some .samples && o.fails .sampleStats
  | .knownProfiling => o.profiling = some .unknown
  | .mcountAddress => o.profiling.isSome && o.fails .mcountAddress
  | .retMcountAddress => o.profiling.isSome && o.fails .retMcountAddress
  | .threadProfilingAddress => o.profiling.isSome && o.fails .threadProfilingAddress
  | .nrThreadsMax => nrThreadsPerRankMax < o.nrThreads
  | .cmdsBuffer => o.logd && o.fails .cmdsBuffer
  | step => o.fails step

/-- A call that fails fails before the rank is in the list. -/
def FailsEarly (o : Outcomes) (rank : Nat) (s : State) : Prop :=
  (∃ step ∈ undoneSteps, o.stops rank s step = true) ∨ ∀ step ∈ otherSteps, o.stops rank s step = false

/-- The next place is free, and the size is that of the list. -/
structure ListInv (s : State) : Prop where
  size : s.listSize = s.slots.length
  free : s.slots[s.next]? = some none

/-! ## Single steps -/

section Steps

variable {fails : Step → Bool} {P : State → Prop} {E : Step → State → Prop}

theorem takes_check {i : Step} {failed : Bool} {status : Status} {label : RankM PUnit} (hfails : fails i = failed)
    (hlabel : ∀ s, P s → ∃ s', label.run s = .ok ⟨⟩ s' ∧ E i s') :
    Takes fails [i] P (check failed status label) (fun _ => P) E := by
  intro s hs
  rw [check]
  cases hf : failed with
  | true =>
    obtain ⟨s', hrun, he⟩ := hlabel s hs
    rw [if_pos rfl, EStateM.run_bind, hrun]
    exact ⟨i, List.find?_cons_of_pos (hfails.trans hf), he⟩
  | false =>
    have hpass : ¬ fails i = true := by
      rw [hfails, hf]
      exact Bool.false_ne_true
    exact ⟨by rw [List.find?_cons_of_neg hpass, List.find?_nil], hs⟩

/-- Steps that the call does not go through. -/
theorem takes_skip {l : List Step} (h : ∀ i ∈ l, fails i = false) :
    Takes fails l P (pure ⟨⟩ : RankM PUnit) (fun _ => P) E := by
  intro s hs
  refine ⟨List.find?_eq_none.2 fun i hi => ?_, hs⟩
  rw [h i hi]
  exact Bool.false_ne_true

end Steps

/-- What a step that fails leaves behind. -/
def Ends (s₀ : State) (i : Step) (s : State) : Prop :=
  if i ∈ undoneSteps then Undone s₀ s ∧ (ListInv s₀ → ListInv s) else ¬ Undone s₀ s

/-- Nothing but the log has changed. -/
def At (s₀ : State) (log : List Event) (s : State) : Prop := s = { s₀ with log := log }

/-- The rank is in the list. -/
structure Listed (rank : Nat) (s : State) : Prop where
  once : s.slots.count (some rank) = 1
  inv : ListInv s

variable {o : Outcomes} {rank : Nat} {s₀ : State}

theorem takes_acquire {fails : Step → Bool} {E : Step → State → Prop} (r : Resource) (log : List Event) :
    Takes fails [] (At s₀ log) (acquire r) (fun _ => At s₀ (.obtained r :: log)) E :=
  takes_modify fun s hs => by rw [hs]; rfl

/-- A log in which everything is released leaves nothing. -/
theorem undone_of_log {log : List Event}
    (hreleased : ∀ r ∈ obtainedResources, log.count (.obtained r) = log.count (.released r))
    (honce : ∀ r ∈ obtainedResources, log.count (.released r) ≤ 1) : Undone s₀ { s₀ with log := log } :=
  ⟨fun _ => Iff.rfl, hreleased, honce⟩

theorem not_undone {s : State} (honce : s.slots.count (some rank) = 1) (hfresh : some rank ∉ s₀.slots) :
    ¬ Undone s₀ s := by
  intro hundone
  have hmem : some rank ∈ s.slots := List.count_pos_iff.1 (by rw [honce]; exact Nat.one_pos)
  exact hfresh ((hundone.ranks rank).1 hmem)

/-- A failure once the rank is in the list: no label takes it out. -/
theorem takes_listedCheck {i : Step} {failed : Bool} {status : Status} {label : RankM PUnit}
    (hfresh : some rank ∉ s₀.slots) (hi : i ∉ undoneSteps) (hfails : o.stops rank s₀ i = failed)
    (hlabel : ∀ s, ∃ s', label.run s = .ok ⟨⟩ s' ∧ s'.slots = s.slots) :
    Takes (o.stops rank s₀) [i] (Listed rank) (check failed status label) (fun _ => Listed rank) (Ends s₀) := by
  apply takes_check hfails
  intro s hs
  obtain ⟨s', hrun, hslots⟩ := hlabel s
  refine ⟨s', hrun, ?_⟩
  rw [Ends, if_neg hi]
  apply not_undone _ hfresh
  rw [hslots]
  exact hs.once

/-- A failure before that, whose label releases all that the log has. -/
theorem takes_earlyCheck {i : Step} {failed : Bool} {status : Status} {label : RankM PUnit} {log : List Event}
    (released : List Resource) (hi : i ∈ undoneSteps) (hfails : o.stops rank s₀ i = failed)
    (hlabel : ∀ s, label.run s = .ok ⟨⟩ { s with log := released.map .released ++ s.log })
    (hreleased : ∀ r ∈ obtainedResources, (released.map Event.released ++ log).count (.obtained r) =
      (released.map Event.released ++ log).count (.released r))
    (honce : ∀ r ∈ obtainedResources, (released.map Event.released ++ log).count (.released r) ≤ 1) :
    Takes (o.stops rank s₀) [i] (At s₀ log) (check failed status label) (fun _ => At s₀ log) (Ends s₀) := by
  apply takes_check hfails
  intro s hs
  rw [hs]
  refine ⟨_, hlabel _, ?_⟩
  rw [Ends, if_pos hi]
  exact ⟨undone_of_log hreleased honce, fun hinv => ⟨hinv.size, hinv.free⟩⟩

theorem freeDpus_slots (s : State) : ∃ s', freeDpus.run s = .ok ⟨⟩ s' ∧ s'.slots = s.slots := ⟨_, rfl, rfl⟩

theorem freeCmdsBuffer_slots (o : Outcomes) (s : State) :
    ∃ s', (freeCmdsBuffer o).run s = .ok ⟨⟩ s' ∧ s'.slots = s.slots := by
  unfold freeCmdsBuffer freeCmds
  split
  · exact ⟨_, rfl, rfl⟩
  · exact ⟨_, rfl, rfl⟩

/-! ## The list -/

theorem dpuRankListAdd_run (hinv : ListInv s₀) (hfresh : some rank ∉ s₀.slots) {s : State} {log : List Event}
    (hs : At s₀ log s) :
    ∃ s', (dpuRankListAdd o rank).run s = .ok (!o.stops rank s₀ .growList) s' ∧ s'.slots.count (some rank) = 1 ∧
      (o.stops rank s₀ .growList = false → ListInv s') := by
  obtain rfl := hs
  have hnext : s₀.next < s₀.slots.length := (List.getElem?_eq_some_iff.1 hinv.free).1
  have hcount : (s₀.slots.set s₀.next (some rank)).count (some rank) = 1 := by
    have hnone : s₀.slots[s₀.next] = none := (List.getElem?_eq_some_iff.1 hinv.free).2
    rw [List.count_set hnext, hnone, List.count_eq_zero_of_not_mem hfresh]
    simp
  have hlength : s₀.listSize = (s₀.slots.set s₀.next (some rank)).length := by rw [hinv.size, List.length_set]
  have hrun : (dpuRankListAdd o rank).run { s₀ with log := log } = (dpuRankListUpdateNext o).run
      { s₀ with log := log, slots := s₀.slots.set s₀.next (some rank) } := rfl
  rw [hrun, dpuRankListUpdateNext, Outcomes.stops, full, EStateM.run_bind, EStateM.run_get]
  dsimp only
  cases hfind : ((s₀.slots.set s₀.next (some rank)).take s₀.listSize).findIdx? (·.isNone) with
  | some i =>
    rw [hlength, List.take_length] at hfind
    refine ⟨_, rfl, hcount, fun _ => ⟨hlength, ?_⟩⟩
    obtain ⟨hi, hnone, _⟩ := List.findIdx?_eq_some_iff_getElem.1 hfind
    exact List.getElem?_eq_some_iff.2 ⟨hi, Option.isNone_iff_eq_none.1 hnone⟩
  | none =>
    dsimp only [Option.isNone_none]
    rw [Bool.true_and]
    cases hgrow : o.fails .growList with
    | true => exact ⟨_, rfl, hcount, nofun⟩
    | false =>
      refine ⟨_, rfl, ?_, fun _ => ⟨?_, ?_⟩⟩
      · rw [List.count_append, hcount, List.count_replicate]
        rfl
      · dsimp only
        rw [List.length_append, List.length_replicate, ← hlength]
        omega
      · dsimp only
        rw [hlength, List.getElem?_append_right (Nat.le_refl _), Nat.sub_self]
        apply List.getElem?_replicate_of_lt
        omega

/-- Where the rank enters the list. -/
theorem takes_listAdd (hinv : ListInv s₀) (hfresh : some rank ∉ s₀.slots) (log : List Event) :
    Takes (o.stops rank s₀) [.growList] (At s₀ log)
      (dpuRankListAdd o rank >>= fun added => check (!added) .allocation releaseHandler) (fun _ => Listed rank)
      (Ends s₀) := by
  intro s hs
  obtain ⟨s', hrun, honce, hinv'⟩ := dpuRankListAdd_run (o := o) hinv hfresh hs
  have hcheck : Takes (o.stops rank s₀) [.growList]
      (fun s => s.slots.count (some rank) = 1 ∧ (o.stops rank s₀ .growList = false → ListInv s))
      (check (!!o.stops rank s₀ .growList) .allocation releaseHandler)
      (fun _ s => s.slots.count (some rank) = 1 ∧ (o.stops rank s₀ .growList = false → ListInv s)) (Ends s₀) := by
    apply takes_check (Bool.not_not _).symm
    intro s hs
    refine ⟨_, rfl, ?_⟩
    rw [Ends, if_neg (by decide)]
    exact not_undone hs.1 hfresh
  rw [EStateM.run_bind, hrun]
  have hend := hcheck s' ⟨honce, hinv'⟩
  dsimp only
  cases hx : (check (!!o.stops rank s₀ .growList) .allocation releaseHandler).run s' with
  | ok a s'' =>
    rw [hx] at hend
    have hpass : o.stops rank s₀ .growList = false :=
      Bool.eq_false_iff.2 (List.find?_eq_none.1 hend.1 _ (List.mem_singleton_self _))
    exact ⟨hend.1, hend.2.1, hend.2.2 hpass⟩
  | error e s'' =>
    rw [hx] at hend
    exact hend

/-! ## The whole call -/

/-- A rank without an enabled DPU: all is released but the memory of the DPUs. -/
theorem takes_disabled {log : List Event} (hlog : log.count (.obtained .dpus) = 1 ∧ log.count (.released .dpus) = 0) :
    Takes (o.stops rank s₀) [.allDisabled] (At s₀ log)
      (check (o.enabledDpus.all (· = 0)) .allocation do
        release .backendRank
        release .rankId
        release .description
        releaseHandler)
      (fun _ => At s₀ log) (Ends s₀) := by
  apply takes_check rfl
  intro s hs
  rw [hs]
  refine ⟨_, rfl, ?_⟩
  rw [Ends, if_neg (by decide)]
  intro hundone
  have hbalance := hundone.released .dpus (by decide)
  simp only [List.count_cons, hlog] at hbalance
  exact absurd hbalance (by decide)

theorem takes_handlerGetRank (hinv : ListInv s₀) (hfresh : some rank ∉ s₀.slots) :
    Takes (o.stops rank s₀)
      [.rankId, .mallocDescription, .fillDescription, .genericDescription, .safeChecks, .callocDpus, .backendAllocate,
        .allDisabled, .growList]
      (At s₀ [.obtained .handler, .obtained .rank, .obtained .properties]) (dpuRankHandlerGetRank o rank)
      (fun _ => Listed rank) (Ends s₀) := by
  unfold dpuRankHandlerGetRank
  apply takes_bind (takes_earlyCheck [.properties, .rank, .handler] (by decide) (by rfl) (fun _ => by rfl) (by decide) (by decide))
  intro _
  apply takes_bind (takes_acquire _ _)
  intro _
  apply takes_bind (takes_earlyCheck [.properties, .rank, .handler, .rankId] (by decide) (by rfl) (fun _ => by rfl) (by decide) (by decide))
  intro _
  apply takes_bind (takes_acquire _ _)
  intro _
  apply takes_bind (takes_earlyCheck [.properties, .rank, .handler, .rankId, .description] (by decide) (by rfl) (fun _ => by rfl) (by decide) (by decide))
  intro _
  apply takes_bind (takes_earlyCheck [.properties, .rank, .handler, .rankId, .description] (by decide) (by rfl) (fun _ => by rfl) (by decide) (by decide))
  intro _
  apply takes_bind (takes_earlyCheck [.properties, .rank, .handler, .rankId, .description] (by decide) (by rfl) (fun _ => by rfl) (by decide) (by decide))
  intro _
  apply takes_bind (takes_earlyCheck [.properties, .rank, .handler, .rankId, .description] (by decide) (by rfl) (fun _ => by rfl) (by decide) (by decide))
  intro _
  apply takes_bind (takes_acquire _ _)
  intro _
  apply takes_bind (takes_earlyCheck [.properties, .rank, .handler, .rankId, .description, .dpus] (by decide) (by rfl) (fun _ => by rfl) (by decide) (by decide))
  intro _
  apply takes_bind (takes_acquire _ _)
  intro _
  apply takes_bind (takes_disabled (by decide))
  intro _
  exact takes_listAdd hinv hfresh _

/-- Steps whose failure finds the rank in the list. -/
theorem takes_listed {i : Step} {failed : Bool} {status : Status} (hfresh : some rank ∉ s₀.slots) (hi : i ∉ undoneSteps)
    (hfails : o.stops rank s₀ i = failed) :
    Takes (o.stops rank s₀) [i] (Listed rank) (check failed status freeDpus) (fun _ => Listed rank) (Ends s₀) :=
  takes_listedCheck hfresh hi hfails freeDpus_slots

theorem takes_listedAcquire {fails : Step → Bool} {E : Step → State → Prop} (r : Resource) :
    Takes fails [] (Listed rank) (acquire r) (fun _ => Listed rank) E :=
  takes_modify fun _ hs => ⟨hs.once, hs.inv.size, hs.inv.free⟩

theorem takes_profiling (hfresh : some rank ∉ s₀.slots) :
    Takes (o.stops rank s₀)
      [.enableProfiling, .profilingDpuId, .profilingSliceId, .sampleStats, .knownProfiling, .mcountAddress,
        .retMcountAddress, .threadProfilingAddress]
      (Listed rank) (dpuGetProfilingProperties o freeDpus) (fun _ => Listed rank) (Ends s₀) := by
  unfold dpuGetProfilingProperties
  apply takes_bind (takes_listed hfresh (by decide) (by rfl))
  intro _
  apply takes_bind (takes_listed hfresh (by decide) (by rfl))
  intro _
  apply takes_bind (takes_listed hfresh (by decide) (by rfl))
  intro _
  by_cases hprofiling : o.profiling.isSome = true
  · rw [if_pos hprofiling]
    have hstats : Takes (o.stops rank s₀) [.sampleStats] (Listed rank) (callocSampleStats o freeDpus)
        (fun _ => Listed rank) (Ends s₀) := by
      unfold callocSampleStats
      by_cases hsamples : o.profiling = some .samples
      · rw [if_pos hsamples]
        have hstops : o.stops rank s₀ .sampleStats = o.fails .sampleStats := by
          rw [Outcomes.stops, decide_eq_true hsamples, Bool.true_and]
        exact takes_bind (takes_listed hfresh (by decide) hstops) fun _ => takes_listedAcquire _
      · rw [if_neg hsamples]
        apply takes_skip
        intro i hi
        obtain rfl := List.mem_singleton.1 hi
        rw [Outcomes.stops, decide_eq_false hsamples, Bool.false_and]
    apply takes_bind hstats
    intro _
    apply takes_bind (takes_listed hfresh (by decide) (by rfl))
    intro _
    apply takes_bind (takes_listed hfresh (by decide) (by rw [Outcomes.stops, hprofiling, Bool.true_and]))
    intro _
    apply takes_bind (takes_listed hfresh (by decide) (by rw [Outcomes.stops, hprofiling, Bool.true_and]))
    intro _
    exact takes_listed hfresh (by decide) (by rw [Outcomes.stops, hprofiling, Bool.true_and])
  · rw [if_neg hprofiling]
    apply takes_skip
    have hnone : o.profiling = none := Option.not_isSome_iff_eq_none.1 hprofiling
    simp [Outcomes.stops, hnone]

theorem takes_cmds (hfresh : some rank ∉ s₀.slots) :
    Takes (o.stops rank s₀) [.cmdsBuffer] (Listed rank) (callocCmds o) (fun _ => Listed rank) (Ends s₀) := by
  unfold callocCmds
  by_cases hlogd : o.logd = true
  · rw [if_pos hlogd]
    have hstops : o.stops rank s₀ .cmdsBuffer = o.fails .cmdsBuffer := by rw [Outcomes.stops, hlogd, Bool.true_and]
    exact takes_bind (takes_listedCheck hfresh (by decide) hstops fun s => ⟨s, rfl, rfl⟩) fun _ => takes_listedAcquire _
  · rw [if_neg hlogd]
    apply takes_skip
    intro i hi
    obtain rfl := List.mem_singleton.1 hi
    rw [Outcomes.stops, Bool.eq_false_iff.2 hlogd, Bool.false_and]

theorem takes_getRank (hinv : ListInv s₀) (hfresh : some rank ∉ s₀.slots) :
    Takes (o.stops rank s₀) (undoneSteps ++ otherSteps) (At s₀ []) (dpuGetRankOfType o rank) (fun _ => Listed rank)
      (Ends s₀) := by
  unfold dpuGetRankOfType
  apply takes_bind (takes_earlyCheck [] (by decide) (by rfl) (fun _ => by rfl) (by decide) (by decide))
  intro _
  apply takes_bind (takes_acquire _ _)
  intro _
  apply takes_bind (takes_earlyCheck [.properties] (by decide) (by rfl) (fun _ => by rfl) (by decide) (by decide))
  intro _
  apply takes_bind (takes_acquire _ _)
  intro _
  apply takes_bind (takes_earlyCheck [.properties, .rank] (by decide) (by rfl) (fun _ => by rfl) (by decide) (by decide))
  intro _
  apply takes_bind (takes_earlyCheck [.properties, .rank] (by decide) (by rfl) (fun _ => by rfl) (by decide) (by decide))
  intro _
  apply takes_bind (takes_earlyCheck [.properties, .rank] (by decide) (by rfl) (fun _ => by rfl) (by decide) (by decide))
  intro _
  apply takes_bind (takes_acquire _ _)
  intro _
  apply takes_bind (takes_handlerGetRank hinv hfresh)
  intro _
  apply takes_bind (takes_profiling hfresh)
  intro _
  apply takes_bind (takes_listed hfresh (by decide) (by rfl))
  intro _
  apply takes_bind (takes_listed hfresh (by decide) (by rfl))
  intro _
  apply takes_bind (takes_listed hfresh (by decide) (by rfl))
  intro _
  apply takes_bind (takes_listed hfresh (by decide) (by rfl))
  intro _
  apply takes_bind (takes_listed hfresh (by decide) (by rfl))
  intro _
  apply takes_bind (takes_listed hfresh (by decide) (by rfl))
  intro _
  apply takes_bind (takes_cmds hfresh)
  intro _
  apply takes_bind (takes_listedCheck hfresh (by decide) (by rfl) (freeCmdsBuffer_slots o))
  intro _
  apply takes_bind (takes_listedCheck hfresh (by decide) (by rfl) (freeCmdsBuffer_slots o))
  intro _
  exact takes_modify fun _ hs => ⟨hs.once, hs.inv.size, hs.inv.free⟩

theorem find_undone {p : Step → Bool} {i : Step} (h : (undoneSteps ++ otherSteps).find? p = some i)
    (hi : i ∉ undoneSteps) : (∀ step ∈ undoneSteps, p step = false) ∧ i ∈ otherSteps := by
  rw [List.find?_append] at h
  cases hfirst : undoneSteps.find? p with
  | some j =>
    rw [hfirst, Option.some_or] at h
    obtain rfl := Option.some.inj h
    exact absurd (List.mem_of_find?_eq_some hfirst) hi
  | none =>
    rw [hfirst, Option.none_or] at h
    exact ⟨fun step hstep => Bool.eq_false_iff.2 (List.find?_eq_none.1 hfirst step hstep), List.mem_of_find?_eq_some h⟩

/-- A call on a list with a free next place. -/
theorem allOrNothing_of_inv (hinv : ListInv s₀) (hfresh : some rank ∉ s₀.slots) :
    AllOrNothing o rank s₀ ↔ FailsEarly o rank s₀ := by
  have hend := (takes_getRank (o := o) hinv hfresh).run (s := { s₀ with log := [] }) rfl
  unfold AllOrNothing
  cases hfind : (undoneSteps ++ otherSteps).find? (o.stops rank s₀) with
  | none =>
    rw [hfind] at hend
    obtain ⟨_, s', hrun, hlisted⟩ := hend
    rw [hrun]
    refine ⟨fun _ => .inr fun step hstep => ?_, fun _ => hlisted.once⟩
    exact Bool.eq_false_iff.2 (List.find?_eq_none.1 hfind step (List.mem_append_right _ hstep))
  | some i =>
    rw [hfind] at hend
    obtain ⟨_, s', hrun, hends⟩ := hend
    rw [hrun]
    have hstops : o.stops rank s₀ i = true := List.find?_some hfind
    by_cases hi : i ∈ undoneSteps
    · rw [Ends, if_pos hi] at hends
      exact ⟨fun _ => .inl ⟨i, hi, hstops⟩, fun _ => hends.1⟩
    · rw [Ends, if_neg hi] at hends
      obtain ⟨hundone, hother⟩ := find_undone hfind hi
      refine ⟨fun h => absurd h hends, fun hearly => ?_⟩
      rcases hearly with ⟨step, hstep, htrue⟩ | hnone
      · rw [hundone step hstep] at htrue
        cases htrue
      · rw [hnone i hother] at hstops
        cases hstops

/-! ## Runs -/

/-- The state in which a call ends. -/
def after (r : EStateM.Result Status State PUnit) : State :=
  match r with
  | .ok _ s => s
  | .error _ s => s

/-- The states of the runs in which ranks are got and freed and every call that fails fails early. The address of a
rank is not that of a rank in the list. -/
inductive Reachable : State → Prop where
  | start : Reachable ⟨[none], 1, 0, []⟩
  | get {s : State} (o : Outcomes) (rank : Nat) : Reachable s → some rank ∉ s.slots → FailsEarly o rank s →
      Reachable (after ((dpuGetRankOfType o rank).run { s with log := [] }))
  | free {s : State} (rank : Nat) : Reachable s → some rank ∈ s.slots → Reachable (dpuRankListRemove rank s)

theorem ListInv.get (hinv : ListInv s₀) (hfresh : some rank ∉ s₀.slots) (hearly : FailsEarly o rank s₀) :
    ListInv (after ((dpuGetRankOfType o rank).run { s₀ with log := [] })) := by
  have hend := (takes_getRank (o := o) hinv hfresh).run (s := { s₀ with log := [] }) rfl
  cases hfind : (undoneSteps ++ otherSteps).find? (o.stops rank s₀) with
  | none =>
    rw [hfind] at hend
    obtain ⟨_, s', hrun, hlisted⟩ := hend
    rw [hrun]
    exact hlisted.inv
  | some i =>
    rw [hfind] at hend
    obtain ⟨_, s', hrun, hends⟩ := hend
    rw [hrun]
    by_cases hi : i ∈ undoneSteps
    · rw [Ends, if_pos hi] at hends
      exact hends.2 hinv
    · have hnot := (allOrNothing_of_inv hinv hfresh).2 hearly
      rw [AllOrNothing, hrun] at hnot
      rw [Ends, if_neg hi] at hends
      exact absurd hnot hends

theorem ListInv.remove {s : State} (h : ListInv s) (rank : Nat) : ListInv (dpuRankListRemove rank s) := by
  unfold dpuRankListRemove
  split
  · next i _ =>
    refine ⟨by rw [List.length_set]; exact h.size, ?_⟩
    have hnext : s.next < s.slots.length := (List.getElem?_eq_some_iff.1 h.free).1
    dsimp only
    rw [List.getElem?_set]
    split
    · next heq => rw [heq, if_pos hnext]
    · exact h.free
  · exact h

theorem Reachable.inv {s : State} (h : Reachable s) : ListInv s := by
  induction h with
  | start => exact ⟨rfl, rfl⟩
  | get o rank _ hfresh hearly ih => exact ih.get hfresh hearly
  | free rank _ _ ih => exact ih.remove rank

/-- A call is all or nothing exactly if it does not fail once the rank is in the list. -/
theorem allOrNothing_iff {s : State} (hs : Reachable s) (rank : Nat) (hfresh : some rank ∉ s.slots) (o : Outcomes) :
    AllOrNothing o rank s ↔ FailsEarly o rank s :=
  allOrNothing_of_inv hs.inv hfresh

/-- Nothing fails, with one DPU enabled. -/
def allWell : Outcomes := ⟨fun _ => false, none, 1, false, [1]⟩

theorem allOrNothing_first :
    AllOrNothing allWell 1 ⟨[none], 1, 0, []⟩ ↔ FailsEarly allWell 1 ⟨[none], 1, 0, []⟩ :=
  allOrNothing_iff .start 1 (by decide) allWell

/-- The profile asks for more threads than a rank may have: the rank is freed and stays in the list. -/
theorem tooManyThreads_not_allOrNothing : ¬ AllOrNothing { allWell with nrThreads := 9 } 1 ⟨[none], 1, 0, []⟩ := by
  intro h
  have hranks := (show Undone _ _ from h).ranks 1
  exact absurd (hranks.1 (by decide)) (by decide)

end DpuBackend.Api.RankAcquisition
