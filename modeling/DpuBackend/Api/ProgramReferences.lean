import DpuBackend.Lib.RefCount
import DpuBackend.Lib.System

/-
  Which DPUs and ranks refer to which program (`dpu_program.c`,
  `api/dpu_loader.c`, `dpu_profiler.c`).

  C ↔ Lean:
    dpu_free_program, dpu_take_program_ref  ↔ Store.releaseRef, Store.take
    dpu_fill_profiling_info                 ↔ dpuFillProfilingInfo
    dpu_load_rank                           ↔ dpuLoadRank
    dpu_load_dpu                            ↔ dpuLoadDpu
    dpu_load_generic                        ↔ dpuLoadGeneric, loadRanks, freeRuntime
    dpu_free_rank                           ↔ dpuFreeRank

  A program is known by a number that is never used again; its table of
  profiling symbols is known by the same number. A rank is named by its place
  among the live ones. The ranks of a set are loaded one after the other here:
  they share no more than the counts, which are atomic. A program that is used
  after it has been freed and a count below zero have no result.

  `dpu_fill_profiling_info` writes only what is still zero, and before the load
  can fail; nothing writes it again. `programReferences_iff` says what follows.
-/

namespace DpuBackend.Api.ProgramReferences

open DpuBackend.Lib

/-! ## Ranks and programs -/

inductive Field where
  | mcount
  | retMcount
  | threadProfiling
  | perfcounterEndValue
  deriving DecidableEq

/-- Addresses for the profiling; 0 for none. -/
abbrev Addresses := Field → UInt32

/-- The casts of `dpu_load_rank` and `dpu_load_dpu`: addresses in IRAM have 16 bits. -/
def castAddresses (addresses : Addresses) : Addresses
  | .mcount => (addresses .mcount).toUInt16.toUInt32
  | .retMcount => (addresses .retMcount).toUInt16.toUInt32
  | .threadProfiling => addresses .threadProfiling
  | .perfcounterEndValue => addresses .perfcounterEndValue

structure Dpu where
  enabled : Bool
  program : Option Nat

structure Rank where
  dpus : List Dpu
  /-- The addresses in the profile of the rank. -/
  fixed : Addresses
  /-- The addresses in its profiling context. -/
  context : Addresses
  profilingSymbols : Option Nat
  /-- Ghost: the program last loaded on the rank or a DPU of it, with its addresses. -/
  last : Option (Nat × Addresses)

structure State where
  programs : Store Nat
  next : Nat
  ranks : List Rank

def Rank.designators (r : Rank) : List (Option Nat) := r.dpus.map Dpu.program

/-- The DPUs whose program is `p`. -/
def references (ranks : List Rank) (p : Nat) : Nat := (ranks.flatMap Rank.designators).count (some p)

/-! ## Loading -/

def dpuFillProfilingInfo (program : Nat) (addresses : Addresses) (r : Rank) : Rank :=
  { r with
    context := fun f => if r.context f = 0 then addresses f else r.context f
    profilingSymbols := if r.profilingSymbols = none then some program else r.profilingSymbols }

def dpuSetProgram (program : Nat) (d : Dpu) : Dpu := { d with program := some program }

def Dpu.load (program : Nat) (d : Dpu) : Dpu := if d.enabled then dpuSetProgram program d else d

def Rank.setLoaded (program : Nat) (addresses : Addresses) (dpus : List Dpu) (r : Rank) : Rank :=
  { r with dpus := dpus, last := some (program, addresses) }

/-- The programs of the enabled DPUs. -/
def Rank.previousPrograms (r : Rank) : List (Option Nat) := (r.dpus.filter Dpu.enabled).map Dpu.program

def dpuLoadRank (program : Nat) (addresses : Addresses) (elfLoads : Bool) (r : Rank) (programs : Store Nat) :
    Option (Store Nat × Rank) := do
  let r := dpuFillProfilingInfo program (castAddresses addresses) r
  if elfLoads then
    let programs ← programs.redirectAll program r.previousPrograms
    some (programs, r.setLoaded program (castAddresses addresses) (r.dpus.map (Dpu.load program)))
  else some (programs, r)

/-- The job of a rank, unless it is not one of the set. -/
def loadJob (program : Nat) (addresses : Addresses) (outcome : Option Bool) (r : Rank) (programs : Store Nat) :
    Option (Store Nat × Rank) :=
  match outcome with
  | none => some (programs, r)
  | some elfLoads => dpuLoadRank program addresses elfLoads r programs

/-- The jobs of all ranks: `outcome` says which are in the set and where `dpu_elf_load` succeeds. -/
def loadRanks (program : Nat) (addresses : Addresses) :
    (Nat → Option Bool) → List Rank → Store Nat → Option (Store Nat × List Rank)
  | _, [], programs => some (programs, [])
  | outcome, r :: ranks, programs => do
    let (programs, r) ← loadJob program addresses (outcome 0) r programs
    let (programs, ranks) ← loadRanks program addresses (fun i => outcome (i + 1)) ranks programs
    some (programs, r :: ranks)

def freeRuntime (program : Nat) (programs : Store Nat) : Option (Store Nat) :=
  Store.releaseRef (Function.update programs program (some 1)) (some program)

def dpuLoadDpu (program : Nat) (addresses : Addresses) (elfLoads : Bool) (r : Rank) (i : Nat) (d : Dpu)
    (programs : Store Nat) : Option (Store Nat × Rank) := do
  if !d.enabled then
    let programs ← freeRuntime program programs
    some (programs, r)
  else
    let r := dpuFillProfilingInfo program (castAddresses addresses) r
    if elfLoads then
      let programs ← programs.redirect d.program program
      some (programs, r.setLoaded program (castAddresses addresses) (r.dpus.set i (dpuSetProgram program d)))
    else
      let programs ← freeRuntime program programs
      some (programs, r)

inductive Target where
  /-- A set of ranks; a job of one of them may have failed before. -/
  | ranks (jobError : Bool) (outcome : Nat → Option Bool)
  | dpu (rank i : Nat) (elfLoads : Bool)

/-- What fails before the program is loaded, if anything. -/
inductive Begin where
  | noMemory
  | badElf
  | tooManyTasklets
  | ok
  deriving DecidableEq

def dpuLoadGeneric (begin : Begin) (addresses : Addresses) (target : Target) (s : State) : Option State :=
  match begin with
  | .noMemory => some s
  | .badElf => some { s with next := s.next + 1 }
  | .tooManyTasklets => do
    let programs ← freeRuntime s.next (Function.update s.programs s.next (some 0))
    some { s with programs := programs, next := s.next + 1 }
  | .ok =>
    let programs := Function.update s.programs s.next (some 0)
    match target with
    | .ranks jobError outcome => do
      -- the macro that gets the jobs returns from the function
      if jobError then some { s with programs := programs, next := s.next + 1 }
      else
        let (programs, ranks) ← loadRanks s.next addresses outcome s.ranks programs
        some { programs := programs, next := s.next + 1, ranks := ranks }
    | .dpu rank i elfLoads =>
      match s.ranks[rank]? with
      | none => some s
      | some r =>
        match r.dpus[i]? with
        | none => some s
        | some d => do
          let (programs, r) ← dpuLoadDpu s.next addresses elfLoads r i d programs
          some { programs := programs, next := s.next + 1, ranks := s.ranks.set rank r }

/-! ## The calls -/

/-- A rank that is allocated has an enabled DPU; the profile may give three of the addresses. -/
structure Allocation where
  enabled : List Bool
  some_enabled : true ∈ enabled
  mcountAddress : UInt16
  retMcountAddress : UInt16
  threadProfilingAddress : UInt32

def Allocation.fixed (a : Allocation) : Addresses
  | .mcount => a.mcountAddress.toUInt32
  | .retMcount => a.retMcountAddress.toUInt32
  | .threadProfiling => a.threadProfilingAddress
  | .perfcounterEndValue => 0

def Allocation.rank (a : Allocation) : Rank where
  dpus := a.enabled.map fun enabled => ⟨enabled, none⟩
  fixed := a.fixed
  context := a.fixed
  profilingSymbols := none
  last := none

def dpuFreeRank (i : Nat) (s : State) : Option State :=
  match s.ranks[i]? with
  | none => some s
  | some r => do
    let programs ← s.programs.releaseAll r.designators
    some { s with programs := programs, ranks := s.ranks.eraseIdx i }

/-- What a poll reads of it all: the profiling symbols. -/
def dpuPollRank (i : Nat) (s : State) : Option State :=
  match s.ranks[i]? with
  | none => some s
  | some r =>
    match r.profilingSymbols with
    | none => some s
    | some p => if s.programs p = none then none else some s

inductive Call where
  | allocate (a : Allocation)
  | load (begin : Begin) (addresses : Addresses) (target : Target)
  | poll (i : Nat)
  | free (i : Nat)

def step (s : State) : Call → Option State
  | .allocate a => some { s with ranks := s.ranks ++ [a.rank] }
  | .load begin addresses target => dpuLoadGeneric begin addresses target s
  | .poll i => dpuPollRank i s
  | .free i => dpuFreeRank i s

def start : State := ⟨fun _ => none, 0, []⟩

def machine : System State Call := System.ofStep (· = start) step

/-! ## What should hold -/

/-- The profiling of the rank is that of its last program, where the profile does not fix it. -/
def Rank.Profiled (r : Rank) : Prop :=
  r.profilingSymbols = r.last.map Prod.fst ∧
    ∀ f, r.context f = if r.fixed f ≠ 0 then r.fixed f else (r.last.map Prod.snd).elim 0 fun addresses => addresses f

structure Sound (s : State) : Prop where
  /-- The counts are the numbers of DPUs, programs without any are freed, and no DPU has one that is freed. -/
  balanced : Balanced s.programs (references s.ranks) fun _ => False
  symbols : ∀ r ∈ s.ranks, ∀ p, r.profilingSymbols = some p → s.programs p ≠ none
  profiled : ∀ r ∈ s.ranks, r.Profiled

/-- The load of a set of ranks leaves no program that nothing refers to. -/
def NoLeak (s : State) : Call → Prop
  | .load .ok _ (.ranks jobError outcome) =>
    jobError = false ∧ ∃ (i : Nat) (r : Rank), s.ranks[i]? = some r ∧ outcome i = some true
  | _ => True

/-- The load finds a profiling context that it can use: an empty one if it succeeds, and if it fails one where it
writes nothing. -/
def ContextFits (addresses : Addresses) (elfLoads : Bool) (r : Rank) : Prop :=
  if elfLoads then r.profilingSymbols = none
  else r.profilingSymbols ≠ none ∧ ∀ f, r.context f = 0 → castAddresses addresses f = 0

/-- The calls that do what they should. -/
def Meets (s : State) : Call → Prop
  | .load .ok addresses (.ranks jobError outcome) =>
    NoLeak s (.load .ok addresses (.ranks jobError outcome)) ∧
      ∀ (i : Nat) r elfLoads, s.ranks[i]? = some r → outcome i = some elfLoads → ContextFits addresses elfLoads r
  | .load .ok addresses (.dpu rank i elfLoads) =>
    ∀ r d, s.ranks[rank]? = some r → r.dpus[i]? = some d → d.enabled = true → ContextFits addresses elfLoads r
  | _ => True

/-! ## The references of a rank -/

variable {s : State} {r : Rank} {ranks : List Rank} {program : Nat} {addresses : Addresses} {programs : Store Nat}

theorem references_cons (r : Rank) (ranks : List Rank) (p : Nat) :
    references (r :: ranks) p = r.designators.count (some p) + references ranks p := by
  unfold references
  rw [List.flatMap_cons, List.count_append]

theorem references_append (ranks ranks' : List Rank) (p : Nat) :
    references (ranks ++ ranks') p = references ranks p + references ranks' p := by
  unfold references
  rw [List.flatMap_append, List.count_append]

theorem references_eraseIdx {i : Nat} (h : ranks[i]? = some r) (p : Nat) :
    references (ranks.eraseIdx i) p + r.designators.count (some p) = references ranks p := by
  induction ranks generalizing i with
  | nil => cases h
  | cons r' ranks ih =>
    cases i with
    | zero =>
      obtain rfl : r' = r := by simpa using h
      rw [List.eraseIdx_cons_zero, references_cons, Nat.add_comm]
    | succ i =>
      have hrest := ih (i := i) (by simpa using h)
      rw [List.eraseIdx_cons_succ, references_cons, references_cons]
      omega

theorem references_set {i : Nat} (h : ranks[i]? = some r) (r' : Rank) (p : Nat) :
    references (ranks.set i r') p + r.designators.count (some p) =
      references ranks p + r'.designators.count (some p) := by
  induction ranks generalizing i with
  | nil => cases h
  | cons r'' ranks ih =>
    cases i with
    | zero =>
      obtain rfl : r'' = r := by simpa using h
      rw [List.set_cons_zero, references_cons, references_cons]
      omega
    | succ i =>
      have hrest := ih (i := i) (by simpa using h)
      rw [List.set_cons_succ, references_cons, references_cons]
      omega

theorem references_pos {p : Nat} : 0 < references ranks p ↔ ∃ r ∈ ranks, some p ∈ r.designators := by
  unfold references
  rw [List.count_pos_iff, List.mem_flatMap]

theorem references_getElem {i p : Nat} (h : ranks[i]? = some r) (hp : some p ∈ r.designators) :
    0 < references ranks p := references_pos.2 ⟨r, List.mem_of_getElem? h, hp⟩

theorem program_load {d : Dpu} (program : Nat) (h : d.enabled = true) : (d.load program).program = some program := by
  unfold Dpu.load
  rw [if_pos h]
  rfl

/-- What the enabled DPUs gain and lose. -/
theorem count_load (dpus : List Dpu) (program p : Nat) :
    ((dpus.map (Dpu.load program)).map Dpu.program).count (some p) +
        ((dpus.filter Dpu.enabled).map Dpu.program).count (some p) =
      (dpus.map Dpu.program).count (some p) +
        if p = program then ((dpus.filter Dpu.enabled).map Dpu.program).length else 0 := by
  induction dpus with
  | nil => simp
  | cons d dpus ih =>
    cases henabled : d.enabled with
    | true =>
      have hload := program_load program henabled
      simp only [List.map_cons, List.filter_cons, henabled, if_true, List.count_cons, List.length_cons, hload,
        beq_iff_eq, Option.some.injEq] at ih ⊢
      by_cases hp : p = program
      · rw [if_pos hp] at ih ⊢
        rw [if_pos hp.symm]
        omega
      · rw [if_neg hp] at ih ⊢
        rw [if_neg (Ne.symm hp)]
        omega
    | false =>
      have hload : Dpu.load program d = d := by
        unfold Dpu.load
        rw [henabled]
        rfl
      simp only [List.map_cons, List.filter_cons, henabled, Bool.false_eq_true, if_false, List.count_cons, hload] at ih ⊢
      omega

/-! ## What a load leaves -/

/-- The rank behind its job. -/
def Rank.afterLoad (program : Nat) (addresses : Addresses) (outcome : Option Bool) (r : Rank) : Rank :=
  match outcome with
  | none => r
  | some false => dpuFillProfilingInfo program (castAddresses addresses) r
  | some true =>
    (dpuFillProfilingInfo program (castAddresses addresses) r).setLoaded program (castAddresses addresses)
      (r.dpus.map (Dpu.load program))

def afterLoads (program : Nat) (addresses : Addresses) : (Nat → Option Bool) → List Rank → List Rank
  | _, [] => []
  | outcome, r :: ranks =>
    r.afterLoad program addresses (outcome 0) :: afterLoads program addresses (fun i => outcome (i + 1)) ranks

theorem getElem?_afterLoads (outcome : Nat → Option Bool) (ranks : List Rank) (i : Nat) :
    (afterLoads program addresses outcome ranks)[i]? =
      ranks[i]?.map fun r => r.afterLoad program addresses (outcome i) := by
  induction ranks generalizing outcome i with
  | nil => rfl
  | cons r ranks ih =>
    cases i with
    | zero => rfl
    | succ i => exact ih (fun i => outcome (i + 1)) i

theorem mem_previousPrograms {p : Option Nat} (h : p ∈ r.previousPrograms) : p ∈ r.designators := by
  obtain ⟨d, hd, rfl⟩ := List.mem_map.1 h
  exact List.mem_map.2 ⟨d, (List.mem_filter.1 hd).1, rfl⟩

variable {held : Nat → Prop} {rest : Nat → Nat}

theorem dpuLoadRank_spec (elfLoads : Bool)
    (h : Balanced programs (fun p => rest p + r.designators.count (some p)) held) (hlive : programs program ≠ none)
    (hnew : some program ∉ r.designators) :
    ∃ programs', dpuLoadRank program addresses elfLoads r programs =
        some (programs', r.afterLoad program addresses (some elfLoads)) ∧
      Balanced programs' (fun p => rest p + (r.afterLoad program addresses (some elfLoads)).designators.count (some p))
        held ∧
      programs' program ≠ none := by
  unfold dpuLoadRank
  cases elfLoads with
  | false => exact ⟨programs, rfl, h, hlive⟩
  | true =>
    have hrefs : ∀ p, (rest p + (r.afterLoad program addresses (some true)).designators.count (some p)) +
        r.previousPrograms.count (some p) =
        (rest p + r.designators.count (some p)) + if p = program then r.previousPrograms.length else 0 := by
      intro p
      have hcount := count_load r.dpus program p
      unfold Rank.designators Rank.previousPrograms Rank.afterLoad Rank.setLoaded
      dsimp only
      omega
    obtain ⟨programs', hrun, hbalanced, hlive'⟩ :=
      h.redirectAll (fun hmem => hnew (mem_previousPrograms hmem)) hlive hrefs
    refine ⟨programs', ?_, hbalanced, hlive'⟩
    rw [if_pos rfl]
    show ((programs.redirectAll program r.previousPrograms).bind fun programs => _) = _
    rw [hrun]
    rfl

theorem loadRanks_spec (outcome : Nat → Option Bool)
    (h : Balanced programs (fun p => rest p + references ranks p) held) (hlive : programs program ≠ none)
    (hnew : ∀ r ∈ ranks, some program ∉ r.designators) :
    ∃ programs', loadRanks program addresses outcome ranks programs =
        some (programs', afterLoads program addresses outcome ranks) ∧
      Balanced programs' (fun p => rest p + references (afterLoads program addresses outcome ranks) p) held ∧
      programs' program ≠ none := by
  induction ranks generalizing outcome programs rest with
  | nil => exact ⟨programs, rfl, h, hlive⟩
  | cons r ranks ih =>
    have hfirst : Balanced programs (fun p => (rest p + references ranks p) + r.designators.count (some p)) held := by
      refine h.congr fun p => ?_
      rw [references_cons]
      omega
    have hstep : ∃ programs', loadJob program addresses (outcome 0) r programs =
          some (programs', r.afterLoad program addresses (outcome 0)) ∧
        Balanced programs' (fun p => (rest p + references ranks p) +
          (r.afterLoad program addresses (outcome 0)).designators.count (some p)) held ∧ programs' program ≠ none := by
      cases outcome 0 with
      | none => exact ⟨programs, rfl, hfirst, hlive⟩
      | some elfLoads => exact dpuLoadRank_spec elfLoads hfirst hlive (hnew r (List.mem_cons_self ..))
    obtain ⟨programs₁, hrun, hbalanced, hlive₁⟩ := hstep
    have hrest : Balanced programs₁ (fun p => (rest p +
        (r.afterLoad program addresses (outcome 0)).designators.count (some p)) + references ranks p) held :=
      hbalanced.congr fun p => by omega
    obtain ⟨programs₂, hrun', hbalanced', hlive₂⟩ := ih (fun i => outcome (i + 1)) hrest hlive₁
      fun r' hr' => hnew r' (List.mem_cons_of_mem _ hr')
    refine ⟨programs₂, ?_, hbalanced'.congr fun p => ?_, hlive₂⟩
    · rw [loadRanks, hrun, Option.bind_eq_bind, Option.bind_some]
      dsimp only
      rw [hrun']
      rfl
    · rw [afterLoads, references_cons]
      omega

theorem freeRuntime_eq (program : Nat) (programs : Store Nat) :
    freeRuntime program programs = some (Function.update programs program none) := by
  unfold freeRuntime Store.releaseRef Store.release
  dsimp only
  rw [Function.update_self]
  show some (Function.update (Function.update programs program (some 1)) program none) = _
  rw [Function.update_idem]

/-- A program that is made and freed leaves nothing. -/
theorem freeRuntime_new (h : programs program = none) :
    freeRuntime program (Function.update programs program (some 0)) = some programs := by
  rw [freeRuntime_eq, Function.update_idem, ← h, Function.update_eq_self]

/-! ## The profiling of a rank -/

/-- A job leaves the profiling of the rank right exactly if the context fits. -/
theorem profiled_afterLoad_iff (hr : r.Profiled) (hnew : r.profilingSymbols ≠ some program) (elfLoads : Bool) :
    (r.afterLoad program addresses (some elfLoads)).Profiled ↔ ContextFits addresses elfLoads r := by
  obtain ⟨hsymbols, hcontext⟩ := hr
  cases elfLoads with
  | true =>
    show ((if r.profilingSymbols = none then some program else r.profilingSymbols) = some program ∧
      ∀ f, (if r.context f = 0 then castAddresses addresses f else r.context f) =
        if r.fixed f ≠ 0 then r.fixed f else castAddresses addresses f) ↔ r.profilingSymbols = none
    constructor
    · intro ⟨hafter, _⟩
      by_contra hsome
      rw [if_neg hsome] at hafter
      exact hnew hafter
    · intro hnone
      rw [hnone] at hsymbols
      have hlast : r.last = none := Option.map_eq_none_iff.1 hsymbols.symm
      refine ⟨if_pos hnone, fun f => ?_⟩
      have hf := hcontext f
      rw [hlast] at hf
      by_cases hfixed : r.fixed f ≠ 0
      · rw [if_pos hfixed] at hf ⊢
        rw [hf, if_neg hfixed]
      · rw [if_neg hfixed] at hf ⊢
        exact if_pos hf
  | false =>
    show ((if r.profilingSymbols = none then some program else r.profilingSymbols) = r.last.map Prod.fst ∧
      ∀ f, (if r.context f = 0 then castAddresses addresses f else r.context f) =
        if r.fixed f ≠ 0 then r.fixed f else (r.last.map Prod.snd).elim 0 fun addresses => addresses f) ↔
      r.profilingSymbols ≠ none ∧ ∀ f, r.context f = 0 → castAddresses addresses f = 0
    rw [← hsymbols]
    simp only [← hcontext]
    constructor
    · intro ⟨hafter, hfill⟩
      refine ⟨fun hnone => ?_, fun f hzero => ?_⟩
      · rw [if_pos hnone, hnone] at hafter
        exact Option.some_ne_none _ hafter
      · have hf := hfill f
        rwa [if_pos hzero, hzero] at hf
    · intro ⟨hsome, hzero⟩
      refine ⟨if_neg hsome, fun f => ?_⟩
      by_cases hf : r.context f = 0
      · rw [if_pos hf, hzero f hf, hf]
      · exact if_neg hf

/-! ## What every call keeps that leaks nothing -/

structure Base (s : State) : Prop where
  balanced : Balanced s.programs (references s.ranks) fun _ => False
  fresh : ∀ p, s.next ≤ p → s.programs p = none
  enabled : ∀ r ∈ s.ranks, ∃ d ∈ r.dpus, d.enabled = true

theorem start_base : Base start :=
  ⟨⟨nofun, fun _ h => absurd h (Nat.lt_irrefl 0), fun _ h => absurd rfl h⟩, fun _ _ => rfl, nofun⟩

/-- No DPU has a program that is still to come. -/
theorem Base.not_mem (h : Base s) {r : Rank} (hr : r ∈ s.ranks) : some s.next ∉ r.designators :=
  fun hmem => h.balanced.live s.next (references_pos.2 ⟨r, hr, hmem⟩) (h.fresh s.next (Nat.le_refl _))

/-- A new program is there and held. -/
theorem Base.create (h : Base s) : Balanced (Function.update s.programs s.next (some 0)) (references s.ranks)
    fun p => False ∨ p = s.next := h.balanced.create (h.fresh s.next (Nat.le_refl _))

theorem enabled_afterLoad {outcome : Option Bool} (h : ∃ d ∈ r.dpus, d.enabled = true) :
    ∃ d ∈ (r.afterLoad program addresses outcome).dpus, d.enabled = true := by
  unfold Rank.afterLoad
  cases outcome with
  | none => exact h
  | some elfLoads =>
    cases elfLoads with
    | false => exact h
    | true =>
      obtain ⟨d, hd, henabled⟩ := h
      refine ⟨d.load program, List.mem_map.2 ⟨d, hd, rfl⟩, ?_⟩
      unfold Dpu.load
      rw [if_pos henabled]
      exact henabled

theorem mem_afterLoad (h : ∃ d ∈ r.dpus, d.enabled = true) :
    some program ∈ (r.afterLoad program addresses (some true)).designators := by
  obtain ⟨d, hd, henabled⟩ := h
  exact List.mem_map.2 ⟨d.load program, List.mem_map.2 ⟨d, hd, rfl⟩, program_load program henabled⟩

theorem mem_afterLoads {outcome : Nat → Option Bool} {r' : Rank}
    (h : r' ∈ afterLoads program addresses outcome ranks) :
    ∃ (i : Nat) (r : Rank), ranks[i]? = some r ∧ r' = r.afterLoad program addresses (outcome i) := by
  obtain ⟨i, hi⟩ := List.getElem?_of_mem h
  rw [getElem?_afterLoads] at hi
  obtain ⟨r, hr, hafter⟩ := Option.map_eq_some_iff.1 hi
  exact ⟨i, r, hr, hafter.symm⟩

/-- The load of a set of ranks, up to the program that is still held. -/
theorem Base.loadSet (h : Base s) (addresses : Addresses) (outcome : Nat → Option Bool) :
    ∃ s', dpuLoadGeneric .ok addresses (.ranks false outcome) s = some s' ∧ s'.next = s.next + 1 ∧
      s'.ranks = afterLoads s.next addresses outcome s.ranks ∧
      Balanced s'.programs (references s'.ranks) (fun p => False ∨ p = s.next) ∧
      s'.programs s.next ≠ none := by
  have hstart : Balanced (Function.update s.programs s.next (some 0))
      (fun p => 0 + references s.ranks p) (fun p => False ∨ p = s.next) :=
    h.create.congr fun p => Nat.zero_add _
  have hlive : Function.update s.programs s.next (some 0) s.next ≠ none := by
    rw [Function.update_self]
    exact Option.some_ne_none _
  obtain ⟨programs, hrun, hbalanced, hlive'⟩ := @loadRanks_spec s.ranks s.next addresses _ _ _ outcome hstart hlive
    fun r hr => h.not_mem hr
  refine ⟨⟨programs, s.next + 1, afterLoads s.next addresses outcome s.ranks⟩, ?_, rfl, rfl,
    hbalanced.congr fun p => (Nat.zero_add _).symm, hlive'⟩
  unfold dpuLoadGeneric
  dsimp only
  rw [if_neg Bool.false_ne_true, hrun]
  rfl

theorem fresh_of_balanced {programs : Store Nat} {ranks : List Rank} {n : Nat} {held : Nat → Prop}
    (h : Balanced programs (references ranks) held) (hheld : ∀ p, n ≤ p → ¬ held p)
    (hranks : ∀ r ∈ ranks, ∀ p, n ≤ p → some p ∉ r.designators) : ∀ p, n ≤ p → programs p = none := by
  intro p hp
  by_contra hsome
  rcases h.used p hsome with hheld' | hpos
  · exact hheld p hp hheld'
  · obtain ⟨r, hr, hmem⟩ := references_pos.1 hpos
    exact hranks r hr p hp hmem

theorem Base.lt_next (h : Base s) {r : Rank} (hr : r ∈ s.ranks) {p : Nat} (hp : some p ∈ r.designators) : p < s.next := by
  by_contra hle
  exact h.balanced.live p (references_pos.2 ⟨r, hr, hp⟩) (h.fresh p (Nat.not_lt.1 hle))

/-- A load gives no DPU another program than the new one. -/
theorem mem_designators_afterLoad {outcome : Option Bool} {p : Nat}
    (h : some p ∈ (r.afterLoad program addresses outcome).designators) :
    (p = program ∧ outcome = some true) ∨ some p ∈ r.designators := by
  unfold Rank.afterLoad at h
  cases outcome with
  | none => exact .inr h
  | some elfLoads =>
    cases elfLoads with
    | false => exact .inr h
    | true =>
      obtain ⟨d', hd', hp⟩ := List.mem_map.1 h
      obtain ⟨d, hd, rfl⟩ := List.mem_map.1 hd'
      unfold Dpu.load at hp
      split at hp
      · exact .inl ⟨(Option.some.inj hp).symm, rfl⟩
      · exact .inr (List.mem_map.2 ⟨d, hd, hp⟩)

theorem Base.loadSet_base (h : Base s) (addresses : Addresses) {outcome : Nat → Option Bool}
    (hsome : ∃ (i : Nat) (r : Rank), s.ranks[i]? = some r ∧ outcome i = some true) :
    ∃ s', dpuLoadGeneric .ok addresses (.ranks false outcome) s = some s' ∧
      s'.ranks = afterLoads s.next addresses outcome s.ranks ∧ Base s' := by
  obtain ⟨s', hrun, hnext, hranks, hbalanced, _⟩ := h.loadSet addresses outcome
  refine ⟨s', hrun, hranks, ?_⟩
  have hpos : 0 < references s'.ranks s.next := by
    obtain ⟨i, r, hr, houtcome⟩ := hsome
    have hafter : s'.ranks[i]? = some (r.afterLoad s.next addresses (some true)) := by
      rw [hranks, getElem?_afterLoads, hr, houtcome]
      rfl
    exact references_getElem hafter (mem_afterLoad (h.enabled r (List.mem_of_getElem? hr)))
  have hreferences := hbalanced.handOut hpos
  refine ⟨hreferences, fresh_of_balanced hreferences (fun _ _ => id) fun r' hr' p hp hmem => ?_, fun r' hr' => ?_⟩
  · rw [hranks] at hr'
    obtain ⟨i, r, hr, rfl⟩ := mem_afterLoads hr'
    rw [hnext] at hp
    rcases mem_designators_afterLoad hmem with ⟨heq, _⟩ | hold
    · omega
    · have := h.lt_next (List.mem_of_getElem? hr) hold
      omega
  · rw [hranks] at hr'
    obtain ⟨i, r, hr, rfl⟩ := mem_afterLoads hr'
    exact enabled_afterLoad (h.enabled r (List.mem_of_getElem? hr))

/-- The rank behind the load of one of its DPUs. -/
def Rank.afterLoadDpu (program : Nat) (addresses : Addresses) (elfLoads : Bool) (i : Nat) (d : Dpu) (r : Rank) : Rank :=
  if d.enabled = false then r
  else if elfLoads then
    (dpuFillProfilingInfo program (castAddresses addresses) r).setLoaded program (castAddresses addresses)
      (r.dpus.set i (dpuSetProgram program d))
  else dpuFillProfilingInfo program (castAddresses addresses) r

theorem count_set {dpus : List Dpu} {i : Nat} {d : Dpu} (h : dpus[i]? = some d) (program p : Nat) :
    ((dpus.set i (dpuSetProgram program d)).map Dpu.program).count (some p) +
        (if d.program = some p then 1 else 0) =
      (dpus.map Dpu.program).count (some p) + if p = program then 1 else 0 := by
  induction dpus generalizing i with
  | nil => cases h
  | cons d' dpus ih =>
    cases i with
    | zero =>
      obtain rfl : d' = d := by simpa using h
      simp only [List.set_cons_zero, List.map_cons, List.count_cons, beq_iff_eq, dpuSetProgram, Option.some.injEq,
        @eq_comm _ program]
      omega
    | succ i =>
      have hrest := ih (i := i) (by simpa using h)
      simp only [List.set_cons_succ, List.map_cons, List.count_cons] at hrest ⊢
      omega

/-- A rank is replaced by one whose DPUs have the same programs. -/
theorem Base.replace (h : Base s) {rank : Nat} {r r' : Rank} (hr : s.ranks[rank]? = some r)
    (hsame : r'.designators = r.designators) (henabled : ∃ d ∈ r'.dpus, d.enabled = true) :
    Base ⟨s.programs, s.next + 1, s.ranks.set rank r'⟩ := by
  refine ⟨h.balanced.congr fun p => ?_, fun p hp => h.fresh p (Nat.le_of_succ_le hp), fun r'' hr'' => ?_⟩
  · have hset := references_set hr r' p
    rw [hsame] at hset
    exact Nat.add_right_cancel hset
  · rcases List.mem_or_eq_of_mem_set hr'' with hold | rfl
    · exact h.enabled r'' hold
    · exact henabled

theorem Base.loadDpu (h : Base s) (addresses : Addresses) (elfLoads : Bool) {rank i : Nat} {r : Rank} {d : Dpu}
    (hr : s.ranks[rank]? = some r) (hd : r.dpus[i]? = some d) :
    ∃ s', dpuLoadGeneric .ok addresses (.dpu rank i elfLoads) s = some s' ∧
      s'.ranks = s.ranks.set rank (r.afterLoadDpu s.next addresses elfLoads i d) ∧ Base s' := by
  have hmem := List.mem_of_getElem? hr
  have hnone : s.programs s.next = none := h.fresh s.next (Nat.le_refl _)
  have hfree := freeRuntime_new hnone
  unfold dpuLoadGeneric
  dsimp only
  rw [hr]
  dsimp only
  rw [hd]
  dsimp only
  unfold dpuLoadDpu
  cases henabled : d.enabled with
  | false =>
    have hafter : r.afterLoadDpu s.next addresses elfLoads i d = r := if_pos henabled
    rw [Bool.not_false, if_pos rfl, hfree, hafter]
    exact ⟨_, rfl, rfl, h.replace hr rfl (h.enabled r hmem)⟩
  | true =>
    have hne : d.enabled ≠ false := by
      rw [henabled]
      exact Bool.noConfusion
    rw [Bool.not_true, if_neg Bool.false_ne_true]
    unfold Rank.afterLoadDpu
    rw [if_neg hne]
    dsimp only
    cases elfLoads with
    | false =>
      rw [if_neg Bool.false_ne_true, if_neg Bool.false_ne_true, hfree]
      exact ⟨_, rfl, rfl, h.replace hr rfl (h.enabled r hmem)⟩
    | true =>
      rw [if_pos rfl, if_pos rfl]
      have hprevious : d.program ≠ some s.next := by
        intro heq
        exact h.not_mem hmem (List.mem_map.2 ⟨d, List.mem_of_getElem? hd, heq⟩)
      have hlive : Function.update s.programs s.next (some 0) s.next ≠ none := by
        rw [Function.update_self]
        exact Option.some_ne_none _
      have hrefs : ∀ p, references (s.ranks.set rank ((dpuFillProfilingInfo s.next (castAddresses addresses) r).setLoaded
            s.next (castAddresses addresses) (r.dpus.set i (dpuSetProgram s.next d)))) p +
            (if d.program = some p then 1 else 0) = references s.ranks p + if p = s.next then 1 else 0 := by
        intro p
        have hset := references_set hr ((dpuFillProfilingInfo s.next (castAddresses addresses) r).setLoaded s.next
          (castAddresses addresses) (r.dpus.set i (dpuSetProgram s.next d))) p
        have hcount := count_set hd s.next p
        unfold Rank.designators at hset
        rw [Rank.setLoaded] at hset ⊢
        dsimp only at hset
        omega
      obtain ⟨programs, hrun, hbalanced, _⟩ := h.create.redirect hprevious hlive hrefs
      have hi : i < r.dpus.length := (List.getElem?_eq_some_iff.1 hd).1
      have hin : dpuSetProgram s.next d ∈ r.dpus.set i (dpuSetProgram s.next d) := List.mem_set hi _
      have hrank : rank < s.ranks.length := (List.getElem?_eq_some_iff.1 hr).1
      have hnew : some s.next ∈ (r.dpus.set i (dpuSetProgram s.next d)).map Dpu.program :=
        List.mem_map.2 ⟨dpuSetProgram s.next d, hin, rfl⟩
      have hreferences := hbalanced.handOut (references_pos.2 ⟨_, List.mem_set hrank _, hnew⟩)
      refine ⟨_, by rw [hrun]; rfl, rfl, hreferences, ?_, fun r' hr' => ?_⟩
      · refine fresh_of_balanced hreferences (fun _ _ => id) fun r' hr' p hp hmem' => ?_
        rcases List.mem_or_eq_of_mem_set hr' with hold | rfl
        · have := h.lt_next hold hmem'
          dsimp only at hp
          omega
        · obtain ⟨d', hd', hprogram⟩ := List.mem_map.1 hmem'
          dsimp only at hp
          rcases List.mem_or_eq_of_mem_set hd' with hold | rfl
          · have := h.lt_next hmem (List.mem_map.2 ⟨d', hold, hprogram⟩)
            omega
          · have := Option.some.inj hprogram
            omega
      · rcases List.mem_or_eq_of_mem_set hr' with hold | rfl
        · exact h.enabled r' hold
        · exact ⟨_, hin, henabled⟩

theorem dpuFreeRank_base (h : Base s) (i : Nat) :
    ∃ s', dpuFreeRank i s = some s' ∧ s'.ranks = s.ranks.eraseIdx i ∧ Base s' := by
  unfold dpuFreeRank
  cases hr : s.ranks[i]? with
  | none =>
    refine ⟨s, rfl, ?_, h⟩
    rw [List.eraseIdx_of_length_le (List.getElem?_eq_none_iff.1 hr)]
  | some r =>
    obtain ⟨programs, hrun, hbalanced⟩ := h.balanced.releaseAll fun p => references_eraseIdx hr p
    refine ⟨⟨programs, s.next, s.ranks.eraseIdx i⟩, ?_, rfl, hbalanced, ?_, fun r' hr' => ?_⟩
    · dsimp only
      rw [hrun]
      rfl
    · exact fresh_of_balanced hbalanced (fun _ _ => id) fun r' hr' p hp hmem =>
        absurd (h.lt_next (List.mem_of_mem_eraseIdx hr') hmem) (Nat.not_lt.2 hp)
    · exact h.enabled r' (List.mem_of_mem_eraseIdx hr')

theorem count_allocation (a : Allocation) (p : Nat) : a.rank.designators.count (some p) = 0 := by
  rw [List.count_eq_zero]
  intro hmem
  obtain ⟨d, hd, hp⟩ := List.mem_map.1 hmem
  obtain ⟨enabled, _, rfl⟩ := List.mem_map.1 hd
  cases hp

theorem allocate_base (h : Base s) (a : Allocation) : Base { s with ranks := s.ranks ++ [a.rank] } := by
  refine ⟨h.balanced.congr fun p => ?_, h.fresh, fun r hr => ?_⟩
  · rw [references_append, references_cons, count_allocation]
    exact Nat.add_zero _
  · rcases List.mem_append.1 hr with hold | hnew
    · exact h.enabled r hold
    · obtain rfl := List.mem_singleton.1 hnew
      exact ⟨⟨true, none⟩, List.mem_map.2 ⟨true, a.some_enabled, rfl⟩, rfl⟩

/-- A load that does not come as far as the DPUs. -/
theorem load_before (h : Base s) {begin : Begin} (hbegin : begin ≠ .ok) (addresses : Addresses) (target : Target) :
    ∃ s', dpuLoadGeneric begin addresses target s = some s' ∧ s'.programs = s.programs ∧ s'.ranks = s.ranks ∧
      s.next ≤ s'.next := by
  cases begin with
  | noMemory => exact ⟨s, rfl, rfl, rfl, Nat.le_refl _⟩
  | badElf => exact ⟨_, rfl, rfl, rfl, Nat.le_succ _⟩
  | tooManyTasklets =>
    refine ⟨{ s with next := s.next + 1 }, ?_, rfl, rfl, Nat.le_succ _⟩
    unfold dpuLoadGeneric
    dsimp only
    rw [freeRuntime_new (h.fresh s.next (Nat.le_refl _))]
    rfl
  | ok => exact absurd rfl hbegin

/-- The state is the same but for the next number. -/
theorem Base.later (h : Base s) {s' : State} (hprograms : s'.programs = s.programs) (hranks : s'.ranks = s.ranks)
    (hnext : s.next ≤ s'.next) : Base s' := by
  refine ⟨?_, fun p hp => ?_, ?_⟩
  · rw [hprograms, hranks]
    exact h.balanced
  · rw [hprograms]
    exact h.fresh p (Nat.le_trans hnext hp)
  · rw [hranks]
    exact h.enabled

theorem dpuPollRank_eq {i : Nat} {s' : State} (h : dpuPollRank i s = some s') : s' = s := by
  unfold dpuPollRank at h
  split at h
  · exact (Option.some.inj h).symm
  · split at h
    · exact (Option.some.inj h).symm
    · split at h
      · cases h
      · exact (Option.some.inj h).symm

/-- A call that leaks nothing keeps the counts. -/
theorem step_base (h : Base s) {call : Call} (hleak : NoLeak s call) {s' : State} (hstep : step s call = some s') :
    Base s' := by
  cases call with
  | allocate a =>
    obtain rfl := Option.some.inj hstep
    exact allocate_base h a
  | poll i =>
    obtain rfl := dpuPollRank_eq hstep
    exact h
  | free i =>
    obtain ⟨s'', hrun, _, hbase⟩ := dpuFreeRank_base h i
    obtain rfl := Option.some.inj (hrun.symm.trans hstep)
    exact hbase
  | load begin addresses target =>
    by_cases hbegin : begin = .ok
    · subst hbegin
      cases target with
      | ranks jobError outcome =>
        obtain ⟨rfl, hsome⟩ := hleak
        obtain ⟨s'', hrun, _, hbase⟩ := h.loadSet_base addresses hsome
        obtain rfl := Option.some.inj (hrun.symm.trans hstep)
        exact hbase
      | dpu rank i elfLoads =>
        cases hr : s.ranks[rank]? with
        | none =>
          have hrun : dpuLoadGeneric .ok addresses (.dpu rank i elfLoads) s = some s := by
            unfold dpuLoadGeneric
            dsimp only
            rw [hr]
          obtain rfl := Option.some.inj (hrun.symm.trans hstep)
          exact h
        | some r =>
          cases hd : r.dpus[i]? with
          | none =>
            have hrun : dpuLoadGeneric .ok addresses (.dpu rank i elfLoads) s = some s := by
              unfold dpuLoadGeneric
              dsimp only
              rw [hr]
              dsimp only
              rw [hd]
            obtain rfl := Option.some.inj (hrun.symm.trans hstep)
            exact h
          | some d =>
            obtain ⟨s'', hrun, _, hbase⟩ := h.loadDpu addresses elfLoads hr hd
            obtain rfl := Option.some.inj (hrun.symm.trans hstep)
            exact hbase
    · obtain ⟨s'', hrun, hprograms, hranks, hnext⟩ := load_before h hbegin addresses target
      obtain rfl := Option.some.inj (hrun.symm.trans hstep)
      exact h.later hprograms hranks hnext

/-- While no load of a set of ranks leaks its program, the counts are right, every program that is there has a DPU and
no DPU has one that is freed. -/
theorem balanced_reach (h : machine.Reach NoLeak s) : Balanced s.programs (references s.ranks) fun _ => False := by
  have hbase : Base s := by
    apply h.invariant
    · intro s' hs'
      obtain rfl : s' = start := hs'
      exact start_base
    · intro s' call s'' hbase hleak hstep
      exact step_base hbase hleak hstep
  exact hbase.balanced

/-! ## The profiling contexts -/

structure Inv (s : State) : Prop where
  base : Base s
  profiled : ∀ r ∈ s.ranks, r.Profiled
  loaded : ∀ r ∈ s.ranks, ∀ last, r.last = some last → some last.1 ∈ r.designators

/-- The profiling symbols of a rank are those of a program of one of its DPUs. -/
theorem Inv.symbols (h : Inv s) {r : Rank} (hr : r ∈ s.ranks) {p : Nat} (hp : r.profilingSymbols = some p) :
    some p ∈ r.designators := by
  obtain ⟨hsymbols, _⟩ := h.profiled r hr
  rw [hp] at hsymbols
  obtain ⟨last, hlast, rfl⟩ := Option.map_eq_some_iff.1 hsymbols.symm
  exact h.loaded r hr last hlast

theorem Inv.sound (h : Inv s) : Sound s := by
  refine ⟨h.base.balanced, fun r hr p hp => ?_, h.profiled⟩
  exact h.base.balanced.live p (references_pos.2 ⟨r, hr, h.symbols hr hp⟩)

theorem start_inv : Inv start := ⟨start_base, nofun, nofun⟩

theorem allocation_profiled (a : Allocation) : a.rank.Profiled := by
  refine ⟨rfl, fun f => ?_⟩
  show a.fixed f = if a.fixed f ≠ 0 then a.fixed f else 0
  by_cases hf : a.fixed f ≠ 0
  · rw [if_pos hf]
  · rw [if_neg hf]
    exact not_not.1 hf

theorem loaded_afterLoad {outcome : Option Bool} (henabled : ∃ d ∈ r.dpus, d.enabled = true)
    (hr : ∀ last, r.last = some last → some last.1 ∈ r.designators) (last : Nat × Addresses)
    (hlast : (r.afterLoad program addresses outcome).last = some last) :
    some last.1 ∈ (r.afterLoad program addresses outcome).designators := by
  cases outcome with
  | none => exact hr last hlast
  | some elfLoads =>
    cases elfLoads with
    | false => exact hr last hlast
    | true =>
      obtain rfl : (program, castAddresses addresses) = last := Option.some.inj hlast
      exact mem_afterLoad henabled

/-- No rank has the symbols of a program that is still to come. -/
theorem Inv.symbols_ne (h : Inv s) {r : Rank} (hr : r ∈ s.ranks) : r.profilingSymbols ≠ some s.next :=
  fun hp => h.base.not_mem hr (h.symbols hr hp)

/-- The profiling of a rank behind the load of a DPU is that behind a job. -/
theorem profiled_afterLoadDpu_iff {elfLoads : Bool} {i : Nat} {d : Dpu} (henabled : d.enabled = true) :
    (r.afterLoadDpu program addresses elfLoads i d).Profiled ↔ (r.afterLoad program addresses (some elfLoads)).Profiled := by
  have hne : d.enabled ≠ false := by
    rw [henabled]
    exact Bool.noConfusion
  unfold Rank.afterLoadDpu
  rw [if_neg hne]
  cases elfLoads with
  | false => exact Iff.rfl
  | true => exact Iff.rfl

/-! ## Runs -/

theorem Meets.noLeak {call : Call} (h : Meets s call) : NoLeak s call := by
  cases call with
  | load begin addresses target =>
    cases begin with
    | ok =>
      cases target with
      | ranks jobError outcome => exact h.1
      | dpu rank i elfLoads => trivial
    | noMemory => trivial
    | badElf => trivial
    | tooManyTasklets => trivial
  | allocate a => trivial
  | poll i => trivial
  | free i => trivial

theorem profiled_afterLoads_iff (h : Inv s) (addresses : Addresses) (outcome : Nat → Option Bool) :
    (∀ r' ∈ afterLoads s.next addresses outcome s.ranks, r'.Profiled) ↔
      ∀ (i : Nat) r elfLoads, s.ranks[i]? = some r → outcome i = some elfLoads → ContextFits addresses elfLoads r := by
  constructor
  · intro hafter i r elfLoads hr houtcome
    have hmem := List.mem_of_getElem? hr
    apply (profiled_afterLoad_iff (h.profiled r hmem) (h.symbols_ne hmem) elfLoads).1
    apply hafter
    apply List.mem_of_getElem? (i := i)
    rw [getElem?_afterLoads, hr, houtcome]
    rfl
  · intro hfits r' hr'
    obtain ⟨i, r, hr, rfl⟩ := mem_afterLoads hr'
    have hmem := List.mem_of_getElem? hr
    cases houtcome : outcome i with
    | none => exact h.profiled r hmem
    | some elfLoads =>
      exact (profiled_afterLoad_iff (h.profiled r hmem) (h.symbols_ne hmem) elfLoads).2 (hfits i r elfLoads hr houtcome)

theorem loadSet_inv (h : Inv s) {addresses : Addresses} {outcome : Nat → Option Bool}
    (hmeets : Meets s (.load .ok addresses (.ranks false outcome))) :
    ∃ s', dpuLoadGeneric .ok addresses (.ranks false outcome) s = some s' ∧ Inv s' := by
  obtain ⟨⟨_, hsome⟩, hfits⟩ := hmeets
  obtain ⟨s', hrun, hranks, hbase⟩ := h.base.loadSet_base addresses hsome
  refine ⟨s', hrun, hbase, ?_, fun r' hr' last hlast => ?_⟩
  · rw [hranks]
    exact (profiled_afterLoads_iff h addresses outcome).2 hfits
  · rw [hranks] at hr'
    obtain ⟨i, r, hr, rfl⟩ := mem_afterLoads hr'
    have hmem := List.mem_of_getElem? hr
    exact loaded_afterLoad (h.base.enabled r hmem) (h.loaded r hmem) last hlast

theorem loadSet_good_iff (h : Inv s) (addresses : Addresses) (jobError : Bool) (outcome : Nat → Option Bool) :
    (∃ s', dpuLoadGeneric .ok addresses (.ranks jobError outcome) s = some s' ∧ Sound s') ↔
      Meets s (.load .ok addresses (.ranks jobError outcome)) := by
  constructor
  · intro ⟨s', hrun, hsound⟩
    cases jobError with
    | true =>
      have hleaked : dpuLoadGeneric .ok addresses (.ranks true outcome) s =
          some { s with programs := Function.update s.programs s.next (some 0), next := s.next + 1 } := rfl
      obtain rfl := Option.some.inj (hleaked.symm.trans hrun)
      have hlive : Function.update s.programs s.next (some 0) s.next ≠ none := by
        rw [Function.update_self]
        exact Option.some_ne_none _
      have hpos := (hsound.balanced.used s.next hlive).resolve_left id
      obtain ⟨r, hr, hmem⟩ := references_pos.1 hpos
      exact absurd hmem (h.base.not_mem hr)
    | false =>
      obtain ⟨s'', hrun', _, hranks, _, hlive⟩ := h.base.loadSet addresses outcome
      obtain rfl := Option.some.inj (hrun'.symm.trans hrun)
      refine ⟨⟨rfl, ?_⟩, (profiled_afterLoads_iff h addresses outcome).1 ?_⟩
      · have hpos := (hsound.balanced.used s.next hlive).resolve_left id
        obtain ⟨r', hr', hmem⟩ := references_pos.1 hpos
        rw [hranks] at hr'
        obtain ⟨i, r, hr, rfl⟩ := mem_afterLoads hr'
        rcases mem_designators_afterLoad hmem with ⟨_, houtcome⟩ | hold
        · exact ⟨i, r, hr, houtcome⟩
        · exact absurd hold (h.base.not_mem (List.mem_of_getElem? hr))
      · rw [← hranks]
        exact hsound.profiled
  · intro hmeets
    obtain rfl := hmeets.1.1
    obtain ⟨s', hrun, hinv⟩ := loadSet_inv h hmeets
    exact ⟨s', hrun, hinv.sound⟩

theorem loadDpu_inv (h : Inv s) {addresses : Addresses} {elfLoads : Bool} {rank i : Nat} {r : Rank} {d : Dpu}
    (hr : s.ranks[rank]? = some r) (hd : r.dpus[i]? = some d) {s' : State}
    (hrun : dpuLoadGeneric .ok addresses (.dpu rank i elfLoads) s = some s')
    (hprofiled : (r.afterLoadDpu s.next addresses elfLoads i d).Profiled) : Inv s' := by
  have hmem := List.mem_of_getElem? hr
  obtain ⟨s'', hrun', hranks, hbase⟩ := h.base.loadDpu addresses elfLoads hr hd
  obtain rfl := Option.some.inj (hrun'.symm.trans hrun)
  refine ⟨hbase, fun r' hr' => ?_, fun r' hr' last hlast => ?_⟩
  · rw [hranks] at hr'
    rcases List.mem_or_eq_of_mem_set hr' with hold | rfl
    · exact h.profiled r' hold
    · exact hprofiled
  · rw [hranks] at hr'
    rcases List.mem_or_eq_of_mem_set hr' with hold | rfl
    · exact h.loaded r' hold last hlast
    · unfold Rank.afterLoadDpu at hlast ⊢
      by_cases henabled : d.enabled = false
      · rw [if_pos henabled] at hlast ⊢
        exact h.loaded r hmem last hlast
      · rw [if_neg henabled] at hlast ⊢
        cases elfLoads with
        | false => exact h.loaded r hmem last hlast
        | true =>
          obtain rfl : (s.next, castAddresses addresses) = last := Option.some.inj hlast
          have hi : i < r.dpus.length := (List.getElem?_eq_some_iff.1 hd).1
          exact List.mem_map.2 ⟨dpuSetProgram s.next d, List.mem_set hi _, rfl⟩

theorem profiled_loadDpu_iff (h : Inv s) {addresses : Addresses} {elfLoads : Bool} {rank i : Nat} {r : Rank} {d : Dpu}
    (hr : s.ranks[rank]? = some r) :
    (r.afterLoadDpu s.next addresses elfLoads i d).Profiled ↔ (d.enabled = true → ContextFits addresses elfLoads r) := by
  have hmem := List.mem_of_getElem? hr
  cases henabled : d.enabled with
  | false =>
    have hafter : r.afterLoadDpu s.next addresses elfLoads i d = r := if_pos henabled
    rw [hafter]
    exact ⟨fun _ => nofun, fun _ => h.profiled r hmem⟩
  | true =>
    rw [profiled_afterLoadDpu_iff henabled, profiled_afterLoad_iff (h.profiled r hmem) (h.symbols_ne hmem)]
    exact ⟨fun hfits _ => hfits, fun hfits => hfits rfl⟩

/-- A load of a DPU that is not there does nothing. -/
theorem loadDpu_none {addresses : Addresses} {elfLoads : Bool} {rank i : Nat}
    (hnone : ∀ r d, s.ranks[rank]? = some r → r.dpus[i]? ≠ some d) :
    dpuLoadGeneric .ok addresses (.dpu rank i elfLoads) s = some s := by
  unfold dpuLoadGeneric
  dsimp only
  cases hr : s.ranks[rank]? with
  | none => rfl
  | some r =>
    dsimp only
    cases hd : r.dpus[i]? with
    | none => rfl
    | some d => exact absurd hd (hnone r d hr)

theorem loadDpu_good_iff (h : Inv s) (addresses : Addresses) (rank i : Nat) (elfLoads : Bool) :
    (∃ s', dpuLoadGeneric .ok addresses (.dpu rank i elfLoads) s = some s' ∧ Sound s') ↔
      Meets s (.load .ok addresses (.dpu rank i elfLoads)) := by
  by_cases hthere : ∃ r d, s.ranks[rank]? = some r ∧ r.dpus[i]? = some d
  · obtain ⟨r, d, hr, hd⟩ := hthere
    have hprofiled := @profiled_loadDpu_iff s h addresses elfLoads rank i r d hr
    obtain ⟨s', hrun, hranks, _⟩ := h.base.loadDpu addresses elfLoads hr hd
    constructor
    · intro ⟨s'', hrun', hsound⟩ r' d' hr' hd'
      obtain rfl := Option.some.inj (hrun.symm.trans hrun')
      obtain rfl := Option.some.inj (hr.symm.trans hr')
      obtain rfl := Option.some.inj (hd.symm.trans hd')
      apply hprofiled.1
      apply hsound.profiled
      rw [hranks]
      exact List.mem_set (List.getElem?_eq_some_iff.1 hr).1 _
    · intro hmeets
      exact ⟨s', hrun, (loadDpu_inv h hr hd hrun (hprofiled.2 (hmeets r d hr hd))).sound⟩
  · have hnone : ∀ r d, s.ranks[rank]? = some r → r.dpus[i]? ≠ some d := fun r d hr hd => hthere ⟨r, d, hr, hd⟩
    refine ⟨fun _ r d hr hd => absurd hd (hnone r d hr), fun _ => ⟨s, loadDpu_none hnone, h.sound⟩⟩

theorem dpuPollRank_inv (h : Inv s) (i : Nat) : dpuPollRank i s = some s := by
  unfold dpuPollRank
  cases hr : s.ranks[i]? with
  | none => rfl
  | some r =>
    dsimp only
    cases hsymbols : r.profilingSymbols with
    | none => rfl
    | some p => exact if_neg (h.sound.symbols r (List.mem_of_getElem? hr) p hsymbols)

theorem dpuFreeRank_inv (h : Inv s) (i : Nat) : ∃ s', dpuFreeRank i s = some s' ∧ Inv s' := by
  obtain ⟨s', hrun, hranks, hbase⟩ := dpuFreeRank_base h.base i
  refine ⟨s', hrun, hbase, fun r hr => ?_, fun r hr => ?_⟩
  · rw [hranks] at hr
    exact h.profiled r (List.mem_of_mem_eraseIdx hr)
  · rw [hranks] at hr
    exact h.loaded r (List.mem_of_mem_eraseIdx hr)

theorem allocate_inv (h : Inv s) (a : Allocation) : Inv { s with ranks := s.ranks ++ [a.rank] } := by
  refine ⟨allocate_base h.base a, fun r hr => ?_, fun r hr => ?_⟩
  · rcases List.mem_append.1 hr with hold | hnew
    · exact h.profiled r hold
    · obtain rfl := List.mem_singleton.1 hnew
      exact allocation_profiled a
  · rcases List.mem_append.1 hr with hold | hnew
    · exact h.loaded r hold
    · obtain rfl := List.mem_singleton.1 hnew
      exact nofun

theorem load_before_inv (h : Inv s) {begin : Begin} (hbegin : begin ≠ .ok) (addresses : Addresses) (target : Target) :
    ∃ s', dpuLoadGeneric begin addresses target s = some s' ∧ Inv s' := by
  obtain ⟨s', hrun, hprograms, hranks, hnext⟩ := load_before h.base hbegin addresses target
  refine ⟨s', hrun, h.base.later hprograms hranks hnext, ?_, ?_⟩
  · rw [hranks]
    exact h.profiled
  · rw [hranks]
    exact h.loaded

/-- The call has a result, and the programs and contexts behind it are as they should be. -/
def StepGood (s : State) (call : Call) : Prop := ∃ s', step s call = some s' ∧ Sound s'

theorem stepGood_iff (h : Inv s) (call : Call) : StepGood s call ↔ Meets s call := by
  cases call with
  | allocate a => exact ⟨fun _ => trivial, fun _ => ⟨_, rfl, (allocate_inv h a).sound⟩⟩
  | poll i => exact ⟨fun _ => trivial, fun _ => ⟨s, dpuPollRank_inv h i, h.sound⟩⟩
  | free i =>
    obtain ⟨s', hrun, hinv⟩ := dpuFreeRank_inv h i
    exact ⟨fun _ => trivial, fun _ => ⟨s', hrun, hinv.sound⟩⟩
  | load begin addresses target =>
    by_cases hbegin : begin = .ok
    · subst hbegin
      cases target with
      | ranks jobError outcome => exact loadSet_good_iff h addresses jobError outcome
      | dpu rank i elfLoads => exact loadDpu_good_iff h addresses rank i elfLoads
    · obtain ⟨s', hrun, hinv⟩ := load_before_inv h hbegin addresses target
      refine ⟨fun _ => ?_, fun _ => ⟨s', hrun, hinv.sound⟩⟩
      cases begin with
      | ok => exact absurd rfl hbegin
      | noMemory => trivial
      | badElf => trivial
      | tooManyTasklets => trivial

theorem step_inv (h : Inv s) {call : Call} (hmeets : Meets s call) {s' : State} (hstep : step s call = some s') :
    Inv s' := by
  cases call with
  | allocate a =>
    obtain rfl := Option.some.inj hstep
    exact allocate_inv h a
  | poll i =>
    obtain rfl := Option.some.inj ((dpuPollRank_inv h i).symm.trans hstep)
    exact h
  | free i =>
    obtain ⟨s'', hrun, hinv⟩ := dpuFreeRank_inv h i
    obtain rfl := Option.some.inj (hrun.symm.trans hstep)
    exact hinv
  | load begin addresses target =>
    by_cases hbegin : begin = .ok
    · subst hbegin
      cases target with
      | ranks jobError outcome =>
        obtain rfl := hmeets.1.1
        obtain ⟨s'', hrun, hinv⟩ := loadSet_inv h hmeets
        obtain rfl := Option.some.inj (hrun.symm.trans hstep)
        exact hinv
      | dpu rank i elfLoads =>
        by_cases hthere : ∃ r d, s.ranks[rank]? = some r ∧ r.dpus[i]? = some d
        · obtain ⟨r, d, hr, hd⟩ := hthere
          exact loadDpu_inv h hr hd hstep ((profiled_loadDpu_iff h hr).2 (hmeets r d hr hd))
        · have hrun : dpuLoadGeneric .ok addresses (.dpu rank i elfLoads) s = some s :=
            loadDpu_none fun r d hr hd => hthere ⟨r, d, hr, hd⟩
          obtain rfl := Option.some.inj (hrun.symm.trans hstep)
          exact h
    · obtain ⟨s'', hrun, hinv⟩ := load_before_inv h hbegin addresses target
      obtain rfl := Option.some.inj (hrun.symm.trans hstep)
      exact hinv

/-- While the calls meet the condition everything is as it should be, and a call leaves it so exactly if it meets the
condition too. -/
theorem programReferences_iff (h : machine.Reach Meets s) : Sound s ∧ ∀ call, StepGood s call ↔ Meets s call := by
  have hinv : Inv s := by
    apply h.invariant
    · intro s' hs'
      obtain rfl : s' = start := hs'
      exact start_inv
    · intro s' call s'' hinv hmeets hstep
      exact step_inv hinv hmeets hstep
  exact ⟨hinv.sound, fun call => stepGood_iff hinv call⟩

/-- A rank with one DPU and nothing in its profile. -/
def sampleAllocation : Allocation where
  enabled := [true]
  some_enabled := List.mem_singleton.2 rfl
  mcountAddress := 0
  retMcountAddress := 0
  threadProfilingAddress := 0

/-- The load of a program without profiling on all ranks. -/
def sampleLoad : Call := .load .ok (fun _ => 0) (.ranks false fun _ => some true)

def sampleState : State := (System.runFrom step start [.allocate sampleAllocation, sampleLoad]).get rfl

theorem programReferences_sample :
    Sound sampleState ∧ StepGood sampleState (.poll 0) ∧ ¬ StepGood sampleState sampleLoad := by
  have hallocated : machine.Reach Meets { start with ranks := [sampleAllocation.rank] } :=
    .step (.init rfl) (by exact trivial : Meets start (.allocate sampleAllocation)) rfl
  have hmeets : Meets { start with ranks := [sampleAllocation.rank] } sampleLoad := by
    refine ⟨⟨rfl, 0, sampleAllocation.rank, rfl, rfl⟩, fun i r elfLoads hr houtcome => ?_⟩
    obtain rfl := Option.some.inj houtcome
    obtain rfl := List.mem_singleton.1 (List.mem_of_getElem? hr)
    rfl
  have hreach : machine.Reach Meets sampleState := .step hallocated hmeets rfl
  obtain ⟨hsound, hcalls⟩ := programReferences_iff hreach
  refine ⟨hsound, (hcalls (.poll 0)).2 trivial, fun hgood => ?_⟩
  have hsymbols : (some 0 : Option Nat) = none := ((hcalls sampleLoad).1 hgood).2 0 _ true rfl rfl
  cases hsymbols

def reloadedState : State := (System.runFrom step start [.allocate sampleAllocation, sampleLoad, sampleLoad]).get rfl

/-- A second load frees the program whose profiling symbols the rank keeps. -/
theorem reload_not_sound : machine.Reachable reloadedState ∧ ¬ Sound reloadedState := by
  refine ⟨System.reach_of_runFrom _ (.init rfl) (Option.some_get rfl).symm, fun hsound => ?_⟩
  exact hsound.symbols _ (List.mem_singleton.2 rfl) 0 rfl rfl

end DpuBackend.Api.ProgramReferences
