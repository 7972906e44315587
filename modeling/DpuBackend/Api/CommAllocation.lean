import Mathlib.Data.Finset.Card
import Mathlib.Data.Fintype.Prod
import Mathlib.Data.List.FinRange
import Mathlib.Algebra.BigOperators.Group.List.Basic
import Mathlib.Algebra.Order.Ring.Nat

/-
  Allocating a set of complete ranks (`dpu_set.c`).

  C ↔ Lean:
    disable_one_dpu_comm       ↔ consider, searchRank, disableOneDpuComm
    disable_unused_dpus_comm   ↔ disableUnusedDpusComm
    dpu_alloc_comm             ↔ allocLoop, compact, finish, dpuAllocComm

  A rank has 8 control interfaces of 8 DPUs and is known by its place among the
  ranks that the call got. What the allocator offers is a list, behind which it
  has no rank left. Which of the other calls fail is given. An access outside
  an array, a null pointer that is read and an assertion that fails are faults.

  `commAllocation_iff` says when the call does what it should.
-/

namespace DpuBackend.Api.CommAllocation

/-- The DPUs that are enabled, by control interface and line. -/
abbrev Grid := Finset (Fin 8 × Fin 8)

/-- A rank that the allocator offers: some DPU is enabled. -/
structure OfferedRank where
  enabled : Grid
  nonempty : enabled.Nonempty
  disableResetOnAlloc : Bool
  resetFails : Bool

/-- What `dpu_get_rank_of_type` gives. -/
inductive Offer where
  | rank (r : OfferedRank)
  /-- `DPU_ERR_ALLOCATION`. -/
  | noRank
  | error

/-- Where `init_dpu_set` fails. -/
inductive Init where
  | ok
  | jobs
  | register
  | polling
  deriving DecidableEq

structure Call where
  nrDpus : UInt32
  commType : Nat
  /-- The property `dispatch_on_all_ranks`; `none` if the profile is refused. -/
  profile : Option Bool
  /-- The `realloc` of the array with so many ranks. -/
  growFails : Nat → Bool
  reallocFails : Bool
  disableFails : Nat → Bool
  init : Init
  nrThreads : Nat

def dpuAllocateAll : UInt32 := 0xFFFFFFFF

/-- The entries of `complete_rank_array`. -/
def completeRankArraySize : Nat := 40

def complete : Nat := 64

/-! ## Disabling DPUs -/

/-- What `disable_one_dpu_comm` has found so far. -/
structure Search where
  target : Option (Nat × Fin 8 × Fin 8)
  maxDisabled : Nat
  maxEnabled : Nat

/-- One line (or one control interface) of a rank; `cell` are its DPUs. -/
def consider (rank : Nat) (enabled : Grid) (s : Search) (cell : Fin 8 → Fin 8 × Fin 8) : Search :=
  let countDisabled := (List.finRange 8).countP fun i => cell i ∉ enabled
  match ((List.finRange 8).filter fun i => cell i ∈ enabled).getLast? with
  | none => s
  | some i =>
    if s.maxDisabled < countDisabled ∨ (countDisabled = s.maxDisabled ∧ s.maxEnabled ≤ enabled.card) then
      ⟨some (rank, cell i), countDisabled, enabled.card⟩
    else s

/-- A rank with one enabled DPU is left alone. -/
def searchRank (cells : List (Fin 8 → Fin 8 × Fin 8)) (s : Search) (rank : Grid × Nat) : Search :=
  if rank.1.card = 1 then s else cells.foldl (consider rank.2 rank.1) s

/-- The lines for `comm_type` 1, the control interfaces for 2. -/
def cellsOf (commType : Nat) : List (Fin 8 → Fin 8 × Fin 8) :=
  if commType = 1 then (List.finRange 8).map fun line ci => (ci, line)
  else if commType = 2 then (List.finRange 8).map fun ci line => (ci, line)
  else []

/-- The DPU to disable, by the index of its rank; `none` if the assertions fail. -/
def disableOneDpuComm (commType : Nat) (ranks : List Grid) : Option (Nat × Fin 8 × Fin 8) :=
  (ranks.zipIdx.foldl (searchRank (cellsOf commType)) ⟨none, 0, 0⟩).target

/-- How a part of the call ends that changes the enabled DPUs. -/
inductive Disabled where
  | fault
  | error
  | ok (ranks : List Grid)

/-- So many DPUs are still to be disabled, and so many have been. -/
def disableLoop (c : Call) : Nat → Nat → List Grid → Disabled
  | 0, _, ranks => .ok ranks
  | n + 1, k, ranks =>
    match disableOneDpuComm c.commType ranks with
    | none => .fault
    | some (i, dpu) =>
      if c.disableFails k then .error
      else disableLoop c n (k + 1) (ranks.modify i fun enabled => enabled.erase dpu)

def disableUnusedDpusComm (c : Call) (currentNrOfDpus nrDpus : Nat) (ranks : List Grid) : Disabled :=
  if ranks = [] ∨ currentNrOfDpus < nrDpus then .fault
  else disableLoop c (currentNrOfDpus - nrDpus) 0 ranks

/-! ## Getting ranks -/

structure LoopState where
  /-- The ranks that the call got. -/
  ranks : List Grid
  capacity : Nat
  currentNrOfDpus : Nat
  incompleteNrOfDpus : Nat
  completeRankArray : List Nat

inductive LoopEnd where
  | fault
  | error (ranks : List Grid)
  | done (s : LoopState)

def LoopState.grown (s : LoopState) : LoopState :=
  if s.ranks.length = s.capacity then { s with capacity := 2 * s.capacity + 2 } else s

/-- A rank that has been reset is marked. -/
def LoopState.marked (s : LoopState) (enabled : Grid) : LoopState :=
  { s with
    ranks := s.ranks ++ [enabled]
    currentNrOfDpus := s.currentNrOfDpus + enabled.card
    incompleteNrOfDpus := if enabled.card = complete then s.incompleteNrOfDpus else s.incompleteNrOfDpus + enabled.card
    completeRankArray := s.completeRankArray.set s.ranks.length (if enabled.card = complete then 1 else 2) }

/-- The condition of the loop, in 32 bits. It is not tested before the first rank. -/
def LoopState.asks (s : LoopState) (c : Call) (dispatch : Bool) : Bool :=
  s.ranks.isEmpty || dispatch || s.currentNrOfDpus < (c.nrDpus.toNat + s.incompleteNrOfDpus) % 2 ^ 32

/-- The allocator has no rank left. -/
def LoopState.exhausted (s : LoopState) (c : Call) (dispatch : Bool) : LoopEnd :=
  if !s.ranks.isEmpty && (c.nrDpus = dpuAllocateAll || dispatch) then
    if dispatch && s.currentNrOfDpus < c.nrDpus.toNat then .error s.ranks else .done s
  else .error s.ranks

def allocLoop (c : Call) (dispatch : Bool) (offers : List Offer) (s : LoopState) : LoopEnd :=
  if !s.asks c dispatch then .done s
  else if s.ranks.length = s.capacity && c.growFails s.ranks.length then .error s.ranks
  else
    match offers with
    | [] => s.grown.exhausted c dispatch
    | .noRank :: _ => s.grown.exhausted c dispatch
    | .error :: _ => .error s.ranks
    | .rank r :: offers =>
      if !r.disableResetOnAlloc && r.resetFails then .error (s.ranks ++ [r.enabled])
      else if completeRankArraySize ≤ s.ranks.length then .fault
      else allocLoop c dispatch offers (s.grown.marked r.enabled)

/-! ## The set -/

/-- The ranks in the array, the number of complete ones and what has been freed. -/
def compact : List Nat → Nat → List Nat → Nat → List Nat → Option (List Nat × Nat × List Nat)
  | [], _, currentRanks, index, freed => some (currentRanks, index, freed)
  | mark :: marks, i, currentRanks, index, freed =>
    if mark = 0 then some (currentRanks, index, freed)
    else do
      let rank ← currentRanks[i]?
      if mark = 1 then compact marks (i + 1) (currentRanks.set index rank) (index + 1) freed
      else compact marks (i + 1) currentRanks index (freed ++ [rank])

inductive Outcome where
  | fault
  /-- The ranks that were got and freed, and whether threads are left that work on them. -/
  | error (got : List Grid) (freed : List Nat) (workers : Bool)
  /-- The ranks that were got, the set with its enabled DPUs and what was freed. -/
  | ok (got : List Grid) (set : List (Nat × Grid)) (freed : List Nat)

/-- The entries that the array has room for. -/
def roomFor (nrDpus : Nat) : Nat := nrDpus / 64 + (nrDpus % 64 + 63) / 64

/-- Behind the loops, with the array of so many entries. -/
def finish (c : Call) (got : List Grid) (currentNrOfDpus : Nat) (currentRanks : List Nat) (nrRanks : Nat)
    (freed : List Nat) : Outcome :=
  let nrDpus := if c.nrDpus = dpuAllocateAll then currentNrOfDpus else c.nrDpus.toNat
  -- every rank is accessed below, whatever happens
  if currentRanks.length < nrRanks then .fault
  else
    let ranks := currentRanks.take nrRanks
    match disableUnusedDpusComm c currentNrOfDpus nrDpus (ranks.map fun id => got.getD id ∅) with
    | .fault => .fault
    | .error => .error got (freed ++ ranks) false
    | .ok enabled =>
      match c.init with
      | .ok => .ok got (ranks.zip enabled) freed
      | .jobs => .error got (freed ++ ranks) false
      -- the threads of the ranks are not stopped
      | .register | .polling => .error got (freed ++ ranks) (0 < c.nrThreads)

def dpuAllocComm (c : Call) (offers : List Offer) : Outcome :=
  if c.nrDpus = 0 then .error [] [] false
  else
    match c.profile with
    | none => .error [] [] false
    | some dispatchOnAllRanks =>
      let dispatch := dispatchOnAllRanks && c.nrDpus ≠ dpuAllocateAll
      match allocLoop c dispatch offers ⟨[], 0, 0, 0, List.replicate completeRankArraySize 0⟩ with
      | .fault => .fault
      | .error got => .error got (List.range got.length) false
      | .done s =>
        match compact s.completeRankArray 0 (List.range s.ranks.length) 0 [] with
        | none => .fault
        | some (currentRanks, nrRanks, freed) =>
          -- the label reads the ranks of the array that is gone
          if c.reallocFails then .fault
          else finish c s.ranks (s.currentNrOfDpus - s.incompleteNrOfDpus) (currentRanks.take (roomFor c.nrDpus.toNat))
            nrRanks freed

/-- What the call should do. -/
def Outcome.Good (c : Call) : Outcome → Prop
  | .fault => False
  | .error got freed workers => (∀ id < got.length, freed.count id = 1) ∧ workers = false
  | .ok got set freed =>
    (∀ entry ∈ set, ∃ enabled, got[entry.1]? = some enabled ∧ enabled.card = complete ∧ entry.2 ⊆ enabled) ∧
    (set.map Prod.fst).Nodup ∧ (∀ entry ∈ set, entry.1 ∉ freed) ∧
    (set.map fun entry => entry.2.card).sum =
      (if c.nrDpus = dpuAllocateAll then complete * set.length else c.nrDpus.toNat) ∧
    ∀ id enabled, got[id]? = some enabled → enabled.card ≠ complete → freed.count id = 1

/-! ## The DPU that is disabled -/

/-- A target is an enabled DPU of a rank that has not just one, and the maxima are those of the target. -/
structure Found (ranks : List Grid) (s : Search) : Prop where
  valid : ∀ i dpu, s.target = some (i, dpu) → ∃ g, ranks[i]? = some g ∧ dpu ∈ g ∧ g.card ≠ 1
  start : s.target = none → s.maxDisabled = 0 ∧ s.maxEnabled = 0

variable {ranks : List Grid} {s : Search} {g : Grid} {i : Nat}

theorem consider_found (hs : Found ranks s) (hi : ranks[i]? = some g) (hg : g.card ≠ 1) (cell : Fin 8 → Fin 8 × Fin 8) :
    Found ranks (consider i g s cell) := by
  unfold consider
  cases hlast : ((List.finRange 8).filter fun i => cell i ∈ g).getLast? with
  | none => exact hs
  | some j =>
    have hmem : cell j ∈ g := by
      have hfilter := List.mem_of_getLast? hlast
      simpa using (List.mem_filter.1 hfilter).2
    dsimp only
    split
    · refine ⟨fun i' dpu htarget => ?_, nofun⟩
      obtain ⟨rfl, rfl⟩ : i = i' ∧ cell j = dpu := by simpa using htarget
      exact ⟨g, hi, hmem, hg⟩
    · exact hs

theorem consider_keeps (h : s.target ≠ none) (cell : Fin 8 → Fin 8 × Fin 8) : (consider i g s cell).target ≠ none := by
  unfold consider
  split
  · exact h
  · dsimp only
    split
    · exact Option.some_ne_none _
    · exact h

/-- The first line with an enabled DPU is taken. -/
theorem consider_some (hs : Found ranks s) {cell : Fin 8 → Fin 8 × Fin 8} (h : ∃ j, cell j ∈ g) :
    (consider i g s cell).target ≠ none := by
  by_cases hnone : s.target = none
  · obtain ⟨j, hj⟩ := h
    have hmem : j ∈ (List.finRange 8).filter fun i => cell i ∈ g :=
      List.mem_filter.2 ⟨List.mem_finRange j, by simpa using hj⟩
    unfold consider
    cases hlast : ((List.finRange 8).filter fun i => cell i ∈ g).getLast? with
    | none =>
      rw [List.getLast?_eq_none_iff] at hlast
      rw [hlast] at hmem
      cases hmem
    | some k =>
      dsimp only
      obtain ⟨hdisabled, henabled⟩ := hs.start hnone
      rw [if_pos]
      · exact Option.some_ne_none _
      · omega
  · exact consider_keeps hnone cell

theorem considerAll_found {cells : List (Fin 8 → Fin 8 × Fin 8)} (hs : Found ranks s) (hi : ranks[i]? = some g)
    (hg : g.card ≠ 1) : Found ranks (cells.foldl (consider i g) s) := by
  induction cells generalizing s with
  | nil => exact hs
  | cons cell cells ih => exact ih (consider_found hs hi hg cell)

theorem considerAll_keeps {cells : List (Fin 8 → Fin 8 × Fin 8)} (h : s.target ≠ none) :
    (cells.foldl (consider i g) s).target ≠ none := by
  induction cells generalizing s with
  | nil => exact h
  | cons cell cells ih => exact ih (consider_keeps h cell)

theorem considerAll_some {cells : List (Fin 8 → Fin 8 × Fin 8)} (hs : Found ranks s) (hi : ranks[i]? = some g)
    (hg : g.card ≠ 1) (h : ∃ cell ∈ cells, ∃ j, cell j ∈ g) : (cells.foldl (consider i g) s).target ≠ none := by
  induction cells generalizing s with
  | nil =>
    obtain ⟨cell, hcell, _⟩ := h
    cases hcell
  | cons cell cells ih =>
    rw [List.foldl_cons]
    obtain ⟨cell', hcell', hj⟩ := h
    rcases List.mem_cons.1 hcell' with rfl | hmem
    · exact considerAll_keeps (consider_some hs hj)
    · exact ih (consider_found hs hi hg cell) ⟨cell', hmem, hj⟩

theorem searchRank_found {cells : List (Fin 8 → Fin 8 × Fin 8)} (hs : Found ranks s) (hi : ranks[i]? = some g) :
    Found ranks (searchRank cells s (g, i)) := by
  unfold searchRank
  by_cases hg : g.card = 1
  · rw [if_pos hg]
    exact hs
  · rw [if_neg hg]
    exact considerAll_found hs hi hg

theorem searchRank_keeps {cells : List (Fin 8 → Fin 8 × Fin 8)} (h : s.target ≠ none) (rank : Grid × Nat) :
    (searchRank cells s rank).target ≠ none := by
  unfold searchRank
  split
  · exact h
  · exact considerAll_keeps h

theorem search_found {cells : List (Fin 8 → Fin 8 × Fin 8)} {l : List (Grid × Nat)} (hs : Found ranks s)
    (hl : ∀ rank ∈ l, ranks[rank.2]? = some rank.1) : Found ranks (l.foldl (searchRank cells) s) := by
  induction l generalizing s with
  | nil => exact hs
  | cons rank l ih =>
    exact ih (searchRank_found hs (hl rank (List.mem_cons_self ..))) fun r hr => hl r (List.mem_cons_of_mem _ hr)

theorem search_keeps {cells : List (Fin 8 → Fin 8 × Fin 8)} {l : List (Grid × Nat)} (h : s.target ≠ none) :
    (l.foldl (searchRank cells) s).target ≠ none := by
  induction l generalizing s with
  | nil => exact h
  | cons rank l ih => exact ih (searchRank_keeps h rank)

/-- A rank with two enabled DPUs or more gives a target. -/
theorem search_some {cells : List (Fin 8 → Fin 8 × Fin 8)} {l : List (Grid × Nat)} (hs : Found ranks s)
    (hl : ∀ rank ∈ l, ranks[rank.2]? = some rank.1) (hcells : ∀ dpu, ∃ cell ∈ cells, ∃ j, cell j = dpu)
    (h : ∃ rank ∈ l, 2 ≤ rank.1.card) : (l.foldl (searchRank cells) s).target ≠ none := by
  induction l generalizing s with
  | nil =>
    obtain ⟨_, hrank, _⟩ := h
    cases hrank
  | cons rank l ih =>
    rw [List.foldl_cons]
    have hi := hl rank (List.mem_cons_self ..)
    obtain ⟨rank', hrank', htwo⟩ := h
    rcases List.mem_cons.1 hrank' with rfl | hmem
    · apply search_keeps
      have hne : rank'.1.card ≠ 1 := by omega
      obtain ⟨dpu, hdpu⟩ := Finset.card_pos.1 (by omega : 0 < rank'.1.card)
      obtain ⟨cell, hcell, j, hj⟩ := hcells dpu
      unfold searchRank
      rw [if_neg hne]
      exact considerAll_some hs hi hne ⟨cell, hcell, j, by rw [hj]; exact hdpu⟩
    · exact ih (searchRank_found hs hi) (fun r hr => hl r (List.mem_cons_of_mem _ hr)) ⟨rank', hmem, htwo⟩

theorem cellsOf_cover {commType : Nat} (h : commType = 1 ∨ commType = 2) (dpu : Fin 8 × Fin 8) :
    ∃ cell ∈ cellsOf commType, ∃ j, cell j = dpu := by
  rcases h with rfl | rfl
  · exact ⟨fun ci => (ci, dpu.2), List.mem_map.2 ⟨dpu.2, List.mem_finRange _, rfl⟩, dpu.1, rfl⟩
  · exact ⟨fun line => (dpu.1, line), List.mem_map.2 ⟨dpu.1, List.mem_finRange _, rfl⟩, dpu.2, rfl⟩

theorem disableOneDpuComm_some {commType : Nat} (hcomm : commType = 1 ∨ commType = 2) (h : ∃ g ∈ ranks, 2 ≤ g.card) :
    ∃ i dpu g, disableOneDpuComm commType ranks = some (i, dpu) ∧ ranks[i]? = some g ∧ dpu ∈ g ∧ g.card ≠ 1 := by
  have hstart : Found ranks ⟨none, 0, 0⟩ := ⟨nofun, fun _ => ⟨rfl, rfl⟩⟩
  have hidx : ∀ rank ∈ ranks.zipIdx, ranks[rank.2]? = some rank.1 := fun rank hrank =>
    List.mem_zipIdx_iff_getElem?.1 hrank
  obtain ⟨g, hg, htwo⟩ := h
  obtain ⟨n, hn⟩ := List.getElem?_of_mem hg
  have hsome := search_some hstart hidx (cellsOf_cover hcomm)
    ⟨(g, n), List.mem_zipIdx_iff_getElem?.2 hn, htwo⟩
  obtain ⟨⟨i, dpu⟩, htarget⟩ := Option.ne_none_iff_exists'.1 hsome
  obtain ⟨g', hi, hdpu, hne⟩ := (search_found hstart hidx).valid i dpu htarget
  exact ⟨i, dpu, g', htarget, hi, hdpu, hne⟩

/-! ## Disabling all that is too much -/

/-- The enabled DPUs of some ranks. -/
def total (ranks : List Grid) : Nat := (ranks.map Finset.card).sum

theorem total_modify {f : Grid → Grid} (hi : ranks[i]? = some g) :
    total (ranks.modify i f) + g.card = total ranks + (f g).card := by
  induction ranks generalizing i with
  | nil => cases hi
  | cons r ranks ih =>
    cases i with
    | zero =>
      obtain rfl : r = g := by simpa using hi
      simp only [total, List.modify_zero_cons, List.map_cons, List.sum_cons]
      omega
    | succ i =>
      have hrest := ih (i := i) (by simpa using hi)
      simp only [total, List.modify_succ_cons, List.map_cons, List.sum_cons] at hrest ⊢
      omega

theorem total_le_length (h : ∀ g ∈ ranks, g.card ≤ 1) : total ranks ≤ ranks.length := by
  induction ranks with
  | nil => exact Nat.le_refl 0
  | cons g ranks ih =>
    have hhead := h g (List.mem_cons_self ..)
    have hrest := ih fun g' hg' => h g' (List.mem_cons_of_mem _ hg')
    simp only [total, List.map_cons, List.sum_cons, List.length_cons] at hrest ⊢
    omega

/-- More DPUs than ranks: some rank has two. -/
theorem exists_two (hpos : ranks.length < total ranks) : ∃ g ∈ ranks, 2 ≤ g.card := by
  by_contra hnone
  have hle : total ranks ≤ ranks.length := total_le_length fun g hg => by
    by_contra hgt
    exact hnone ⟨g, hg, by omega⟩
  omega

/-- What is left of some ranks when DPUs have been disabled. -/
structure SubRanks (ranks' ranks : List Grid) : Prop where
  length : ranks'.length = ranks.length
  sub : ∀ (i : Nat) g', ranks'[i]? = some g' → ∃ g, ranks[i]? = some g ∧ g' ⊆ g

theorem SubRanks.refl (ranks : List Grid) : SubRanks ranks ranks := ⟨rfl, fun _ g' hg' => ⟨g', hg', Finset.Subset.refl g'⟩⟩

theorem SubRanks.trans {a b c : List Grid} (h : SubRanks a b) (h' : SubRanks b c) : SubRanks a c := by
  refine ⟨h.length.trans h'.length, fun i g hg => ?_⟩
  obtain ⟨g', hg', hsub⟩ := h.sub i g hg
  obtain ⟨g'', hg'', hsub'⟩ := h'.sub i g' hg'
  exact ⟨g'', hg'', hsub.trans hsub'⟩

theorem SubRanks.erase (ranks : List Grid) (i : Nat) (dpu : Fin 8 × Fin 8) :
    SubRanks (ranks.modify i fun enabled => enabled.erase dpu) ranks := by
  refine ⟨List.length_modify .., fun j g hg => ?_⟩
  rw [List.getElem?_modify] at hg
  obtain ⟨g', hg', rfl⟩ := Option.map_eq_some_iff.1 hg
  refine ⟨g', hg', ?_⟩
  split
  · exact Finset.erase_subset ..
  · exact Finset.Subset.refl _

theorem disableLoop_spec {c : Call} (hcomm : c.commType = 1 ∨ c.commType = 2) {n k : Nat} {ranks : List Grid}
    (htotal : ranks.length + n ≤ total ranks) :
    match disableLoop c n k ranks with
    | .fault => False
    | .error => ∃ j < n, c.disableFails (k + j) = true
    | .ok ranks' => (∀ j < n, c.disableFails (k + j) = false) ∧ SubRanks ranks' ranks ∧ total ranks' + n = total ranks := by
  induction n generalizing k ranks with
  | zero => exact ⟨fun j hj => absurd hj (Nat.not_lt_zero j), .refl ranks, rfl⟩
  | succ n ih =>
    obtain ⟨i, dpu, g, hfind, hi, hdpu, _⟩ := disableOneDpuComm_some hcomm (exists_two (by omega : ranks.length < total ranks))
    rw [disableLoop, hfind]
    dsimp only
    cases hfails : c.disableFails k with
    | true =>
      rw [if_pos rfl]
      exact ⟨0, Nat.succ_pos n, hfails⟩
    | false =>
      rw [if_neg Bool.false_ne_true]
      have hmodify := total_modify (f := fun enabled => enabled.erase dpu) hi
      have hcard : (g.erase dpu).card + 1 = g.card := Finset.card_erase_add_one hdpu
      have hroom : (ranks.modify i fun enabled => enabled.erase dpu).length + n ≤
          total (ranks.modify i fun enabled => enabled.erase dpu) := by
        rw [List.length_modify]
        omega
      have hrest := ih (k := k + 1) hroom
      have hshift : ∀ j, k + 1 + j = k + (j + 1) := fun j => by omega
      cases hloop : disableLoop c n (k + 1) (ranks.modify i fun enabled => enabled.erase dpu) with
      | fault =>
        rw [hloop] at hrest
        exact hrest
      | error =>
        rw [hloop] at hrest
        obtain ⟨j, hj, hfail⟩ := hrest
        rw [hshift] at hfail
        exact ⟨j + 1, Nat.succ_lt_succ hj, hfail⟩
      | ok ranks' =>
        rw [hloop] at hrest
        obtain ⟨hnone, hsub, hsum⟩ := hrest
        refine ⟨fun j hj => ?_, hsub.trans (.erase ranks i dpu), by omega⟩
        cases j with
        | zero => exact hfails
        | succ j =>
          rw [← hshift]
          exact hnone j (Nat.lt_of_succ_lt_succ hj)

/-! ## The complete ranks -/

/-- The numbers, from `i` on, of the ranks with a property. -/
def numbered (p : Grid → Bool) : Nat → List Grid → List Nat
  | _, [] => []
  | i, g :: ranks => if p g then i :: numbered p (i + 1) ranks else numbered p (i + 1) ranks

def isComplete (g : Grid) : Bool := g.card = complete

def isIncomplete (g : Grid) : Bool := g.card ≠ complete

theorem mem_numbered {p : Grid → Bool} {i id : Nat} {ranks : List Grid} :
    id ∈ numbered p i ranks ↔ ∃ j g, id = i + j ∧ ranks[j]? = some g ∧ p g = true := by
  induction ranks generalizing i with
  | nil => exact ⟨nofun, fun ⟨_, _, _, hj, _⟩ => by cases hj⟩
  | cons r ranks ih =>
    have hcons : id ∈ numbered p i (r :: ranks) ↔ (p r = true ∧ id = i) ∨ id ∈ numbered p (i + 1) ranks := by
      rw [numbered]
      split
      · next hp => simp [hp]
      · next hp => simp [hp]
    rw [hcons, ih]
    constructor
    · intro h
      rcases h with ⟨hp, rfl⟩ | ⟨j, g, rfl, hj, hp⟩
      · exact ⟨0, r, rfl, rfl, hp⟩
      · exact ⟨j + 1, g, by omega, hj, hp⟩
    · intro ⟨j, g, hid, hj, hp⟩
      cases j with
      | zero =>
        obtain rfl : r = g := by simpa using hj
        exact .inl ⟨hp, hid⟩
      | succ j => exact .inr ⟨j, g, by omega, hj, hp⟩

theorem numbered_nodup (p : Grid → Bool) (i : Nat) (ranks : List Grid) : (numbered p i ranks).Nodup := by
  induction ranks generalizing i with
  | nil => exact List.nodup_nil
  | cons r ranks ih =>
    rw [numbered]
    split
    · refine List.nodup_cons.2 ⟨fun hmem => ?_, ih (i + 1)⟩
      obtain ⟨j, _, hid, _⟩ := mem_numbered.1 hmem
      omega
    · exact ih (i + 1)

/-- The ranks of the numbers. -/
theorem map_numbered (p : Grid → Bool) (before ranks : List Grid) :
    (numbered p before.length ranks).map (fun id => (before ++ ranks).getD id ∅) = ranks.filter p := by
  induction ranks generalizing before with
  | nil => rfl
  | cons r ranks ih =>
    have hrest := ih (before ++ [r])
    rw [List.length_append, List.append_assoc] at hrest
    rw [numbered, List.filter_cons]
    split
    · rw [List.map_cons]
      congr 1
      rw [List.getD_eq_getElem?_getD, List.getElem?_append_right (Nat.le_refl _), Nat.sub_self]
      rfl
    · exact hrest

/-- The mark of a rank. -/
def markOf (g : Grid) : Nat := if g.card = complete then 1 else 2

/-- The complete ranks come to the front, the others are freed. -/
theorem compact_spec {ranks : List Grid} {i index zeros : Nat} {currentRanks freed : List Nat}
    (hcurrent : ∀ j, i ≤ j → j < currentRanks.length → currentRanks[j]? = some j)
    (hlength : i + ranks.length = currentRanks.length) (hindex : index ≤ i) :
    ∃ result, compact (ranks.map markOf ++ List.replicate zeros 0) i currentRanks index freed =
        some (result, index + (numbered isComplete i ranks).length, freed ++ numbered isIncomplete i ranks) ∧
      result.length = currentRanks.length ∧
      result.take (index + (numbered isComplete i ranks).length) =
        currentRanks.take index ++ numbered isComplete i ranks := by
  induction ranks generalizing i index currentRanks freed with
  | nil =>
    refine ⟨currentRanks, ?_, rfl, by rw [numbered, List.append_nil]; rfl⟩
    rw [numbered, numbered, List.append_nil]
    cases zeros with
    | zero => rfl
    | succ zeros =>
      rw [List.replicate_succ, List.map_nil, List.nil_append, compact, if_pos rfl]
      rfl
  | cons g ranks ih =>
    rw [List.length_cons] at hlength
    have hi : currentRanks[i]? = some i := hcurrent i (Nat.le_refl i) (by omega)
    rw [List.map_cons, List.cons_append, compact]
    by_cases hg : g.card = complete
    · have hmark : markOf g = 1 := if_pos hg
      have hcomplete : isComplete g = true := decide_eq_true hg
      have hnot : ¬ isIncomplete g = true := by
        rw [isIncomplete, decide_eq_true_iff]
        exact not_not_intro hg
      rw [hmark, if_neg (by decide), hi, numbered, if_pos hcomplete, numbered, if_neg hnot]
      have hset : ∀ j, i + 1 ≤ j → j < (currentRanks.set index i).length → (currentRanks.set index i)[j]? = some j := by
        intro j hj hlt
        rw [List.length_set] at hlt
        rw [List.getElem?_set_ne (by omega)]
        exact hcurrent j (by omega) hlt
      have hsame : i + 1 + ranks.length = (currentRanks.set index i).length := by
        rw [List.length_set]
        omega
      obtain ⟨result, hrun, hresult, htake⟩ := @ih (i + 1) (index + 1) (currentRanks.set index i) freed hset hsame
        (by omega)
      have hshift : index + 1 + (numbered isComplete (i + 1) ranks).length =
          index + (i :: numbered isComplete (i + 1) ranks).length := by
        rw [List.length_cons]
        omega
      rw [hshift] at hrun htake
      refine ⟨result, hrun, by rw [hresult, List.length_set], ?_⟩
      rw [htake, List.take_succ_eq_append_getElem (by rw [List.length_set]; omega), List.getElem_set_self,
        List.take_set_of_le (Nat.le_refl _), List.append_assoc]
      rfl
    · have hmark : markOf g = 2 := if_neg hg
      have hcomplete : ¬ isComplete g = true := by
        rw [isComplete, decide_eq_true_iff]
        exact hg
      have hnot : isIncomplete g = true := decide_eq_true hg
      rw [hmark, if_neg (by decide), hi, numbered, if_neg hcomplete, numbered, if_pos hnot]
      obtain ⟨result, hrun, hsame, htake⟩ := @ih (i + 1) index currentRanks (freed ++ [i])
        (fun j hj hlt => hcurrent j (by omega) hlt) (by omega) (by omega)
      rw [List.append_assoc] at hrun
      exact ⟨result, hrun, hsame, htake⟩

/-! ## The calls that do what they should -/

/-- The DPUs of the ranks that are not complete. -/
def incompleteDpus (ranks : List Grid) : Nat := total (ranks.filter isIncomplete)

/-- The call wants another rank behind these. -/
def Asks (c : Call) (dispatch : Bool) (ranks : List Grid) : Prop :=
  ranks = [] ∨ dispatch = true ∨ total ranks < (c.nrDpus.toNat + incompleteDpus ranks) % 2 ^ 32

/-- The array of ranks is full with so many. -/
def fullAt : List Nat := [0, 2, 6, 14, 30]

def GrowFails (c : Call) (ranks : List Grid) : Prop := ranks.length ∈ fullAt ∧ c.growFails ranks.length = true

/-- The call gets the rank and can use it. -/
def Usable (r : OfferedRank) : Prop := r.disableResetOnAlloc = true ∨ r.resetFails = false

/-- From some ranks and offers the call comes to other ones, with at most 40 ranks. -/
inductive Takes (c : Call) (dispatch : Bool) : List Grid → List Offer → List Grid → List Offer → Prop where
  | refl (ranks : List Grid) (offers : List Offer) : Takes c dispatch ranks offers ranks offers
  | rank {ranks ranks' : List Grid} {r : OfferedRank} {offers offers' : List Offer} :
      Asks c dispatch ranks → ¬ GrowFails c ranks → Usable r → ranks.length < completeRankArraySize →
      Takes c dispatch (ranks ++ [r.enabled]) offers ranks' offers' →
      Takes c dispatch ranks (.rank r :: offers) ranks' offers'

/-- The allocator has no rank left. -/
def NoRank (offers : List Offer) : Prop := offers = [] ∨ ∃ rest, offers = .noRank :: rest

/-- What the ranks are enough for when there is no other. -/
def Enough (c : Call) (dispatch : Bool) (ranks : List Grid) : Prop :=
  ranks ≠ [] ∧ (c.nrDpus = dpuAllocateAll ∨ dispatch = true) ∧ (dispatch = true → c.nrDpus.toNat ≤ total ranks)

/-- A failure while the call gets ranks. -/
def FailsWith (c : Call) (dispatch : Bool) (ranks : List Grid) (offers : List Offer) : Prop :=
  Asks c dispatch ranks ∧ (GrowFails c ranks ∨ (∃ rest, offers = .error :: rest) ∨
    (∃ r rest, offers = .rank r :: rest ∧ ¬ Usable r) ∨ (NoRank offers ∧ ¬ Enough c dispatch ranks))

/-- The call has got its ranks. -/
def EndsWith (c : Call) (dispatch : Bool) (ranks : List Grid) (offers : List Offer) : Prop :=
  ¬ Asks c dispatch ranks ∨ (¬ GrowFails c ranks ∧ NoRank offers ∧ Enough c dispatch ranks)

/-- The complete ranks are just as many as are needed, and no failure comes too late to be undone. -/
structure Suits (c : Call) (ranks : List Grid) : Prop where
  some : ranks.filter isComplete ≠ []
  number : c.nrDpus = dpuAllocateAll ∨ (ranks.filter isComplete).length = roomFor c.nrDpus.toNat
  realloc : c.reallocFails = false
  undone : c.init = .ok ∨ c.init = .jobs ∨ c.nrThreads = 0 ∨
    (c.nrDpus ≠ dpuAllocateAll ∧
      ∃ k < complete * (ranks.filter isComplete).length - c.nrDpus.toNat, c.disableFails k = true)

/-- No DPU is asked for, or the profile is refused, or of the ranks that the call takes the forty-first is not got:
either one of the steps fails, or the ranks are taken and suit the request. -/
inductive Meets (c : Call) (offers : List Offer) : Prop where
  | nothing : c.nrDpus = 0 → Meets c offers
  | refused : c.profile = none → Meets c offers
  | fails {dispatchOnAllRanks : Bool} {ranks : List Grid} {rest : List Offer} :
      c.profile = some dispatchOnAllRanks →
      Takes c (dispatchOnAllRanks && c.nrDpus ≠ dpuAllocateAll) [] offers ranks rest →
      FailsWith c (dispatchOnAllRanks && c.nrDpus ≠ dpuAllocateAll) ranks rest → Meets c offers
  | ends {dispatchOnAllRanks : Bool} {ranks : List Grid} {rest : List Offer} :
      c.profile = some dispatchOnAllRanks →
      Takes c (dispatchOnAllRanks && c.nrDpus ≠ dpuAllocateAll) [] offers ranks rest →
      EndsWith c (dispatchOnAllRanks && c.nrDpus ≠ dpuAllocateAll) ranks rest → Suits c ranks → Meets c offers

/-! ## The loop -/

/-- The capacity of the array with so many ranks in it, up to what `complete_rank_array` can hold. -/
def capacityAt (n : Nat) : Nat :=
  if n = 0 then 0 else if n ≤ 2 then 2 else if n ≤ 6 then 6 else if n ≤ 14 then 14 else if n ≤ 30 then 30 else 62

/-- The state of the loop with these ranks. -/
def stateOf (ranks : List Grid) : LoopState :=
  ⟨ranks, capacityAt ranks.length, total ranks, incompleteDpus ranks,
    ranks.map markOf ++ List.replicate (completeRankArraySize - ranks.length) 0⟩

theorem stateOf_ranks (ranks : List Grid) : (stateOf ranks).ranks = ranks := rfl

theorem capacityAt_eq {n : Nat} (h : n ≤ completeRankArraySize) : n = capacityAt n ↔ n ∈ fullAt := by
  unfold completeRankArraySize at h
  revert n
  decide

theorem capacityAt_succ {n : Nat} (h : n < completeRankArraySize) :
    capacityAt (n + 1) = if n = capacityAt n then 2 * capacityAt n + 2 else capacityAt n := by
  unfold completeRankArraySize at h
  revert n
  decide

theorem total_append (ranks : List Grid) (g : Grid) : total (ranks ++ [g]) = total ranks + g.card := by
  simp [total]

theorem grown_marked {ranks : List Grid} (h : ranks.length < completeRankArraySize) (g : Grid) :
    (stateOf ranks).grown.marked g = stateOf (ranks ++ [g]) := by
  have hcapacity := capacityAt_succ h
  have hgrown : (stateOf ranks).grown = { stateOf ranks with capacity := capacityAt (ranks.length + 1) } := by
    rw [hcapacity]
    unfold LoopState.grown stateOf
    dsimp only
    split
    · rfl
    · rfl
  rw [hgrown]
  unfold LoopState.marked stateOf
  dsimp only
  congr 1
  · rw [List.length_append]
    rfl
  · rw [total_append]
  · rw [incompleteDpus, incompleteDpus, List.filter_append, List.filter_cons, List.filter_nil]
    by_cases hg : g.card = complete
    · rw [if_pos hg, isIncomplete, decide_eq_false (not_not_intro hg), if_neg Bool.false_ne_true, List.append_nil]
    · rw [if_neg hg, isIncomplete, decide_eq_true hg, if_pos rfl, total_append]
  · obtain ⟨k, hk⟩ : ∃ k, completeRankArraySize - ranks.length = k + 1 := ⟨completeRankArraySize - ranks.length - 1, by omega⟩
    have hk' : completeRankArraySize - (ranks ++ [g]).length = k := by
      rw [List.length_append, List.length_singleton]
      omega
    rw [hk, hk', List.replicate_succ, List.set_append_right _ _ (by rw [List.length_map]), List.length_map, Nat.sub_self,
      List.set_cons_zero, List.map_append, List.append_assoc]
    rfl

variable {c : Call} {dispatch : Bool} {offers offers' : List Offer} {ranks' : List Grid}

theorem asks_iff : (stateOf ranks).asks c dispatch = true ↔ Asks c dispatch ranks := by
  unfold LoopState.asks Asks stateOf
  simp [or_assoc]

theorem growFails_iff (h : ranks.length ≤ completeRankArraySize) :
    ((stateOf ranks).ranks.length = (stateOf ranks).capacity && c.growFails (stateOf ranks).ranks.length) = true ↔
      GrowFails c ranks := by
  rw [Bool.and_eq_true, decide_eq_true_iff]
  exact and_congr_left fun _ => capacityAt_eq h

theorem usable_iff (r : OfferedRank) : (!r.disableResetOnAlloc && r.resetFails) = true ↔ ¬ Usable r := by
  unfold Usable
  cases r.disableResetOnAlloc <;> cases r.resetFails <;> decide

theorem exhausted_enough (h : Enough c dispatch ranks) :
    (stateOf ranks).grown.exhausted c dispatch = .done (stateOf ranks).grown := by
  obtain ⟨hne, hall, hdispatch⟩ := h
  have hranks : (stateOf ranks).grown.ranks = ranks := by
    unfold LoopState.grown
    split <;> rfl
  have htotal : (stateOf ranks).grown.currentNrOfDpus = total ranks := by
    unfold LoopState.grown
    split <;> rfl
  unfold LoopState.exhausted
  rw [hranks, htotal, if_pos, if_neg]
  · rw [Bool.and_eq_true, decide_eq_true_iff]
    intro ⟨hd, hlt⟩
    have := hdispatch hd
    omega
  · simpa [hne] using hall

theorem exhausted_short (h : ¬ Enough c dispatch ranks) :
    (stateOf ranks).grown.exhausted c dispatch = .error ranks := by
  have hranks : (stateOf ranks).grown.ranks = ranks := by
    unfold LoopState.grown
    split <;> rfl
  have htotal : (stateOf ranks).grown.currentNrOfDpus = total ranks := by
    unfold LoopState.grown
    split <;> rfl
  unfold LoopState.exhausted
  rw [hranks, htotal]
  by_cases hall : (!ranks.isEmpty && (c.nrDpus = dpuAllocateAll || dispatch)) = true
  · rw [if_pos hall]
    by_cases hshort : (dispatch && decide (total ranks < c.nrDpus.toNat)) = true
    · rw [if_pos hshort]
    · refine absurd ?_ h
      rw [Bool.and_eq_true, decide_eq_true_iff, not_and, Nat.not_lt] at hshort
      simp only [Bool.and_eq_true, Bool.not_eq_true', List.isEmpty_eq_false_iff, Bool.or_eq_true,
        decide_eq_true_iff] at hall
      exact ⟨hall.1, hall.2, hshort⟩
  · rw [if_neg hall]

/-- One round that gets a rank. -/
theorem allocLoop_rank {r : OfferedRank} (hasks : Asks c dispatch ranks) (hgrow : ¬ GrowFails c ranks) (hr : Usable r)
    (hlength : ranks.length < completeRankArraySize) :
    allocLoop c dispatch (.rank r :: offers) (stateOf ranks) =
      allocLoop c dispatch offers (stateOf (ranks ++ [r.enabled])) := by
  have husable : ¬ (!r.disableResetOnAlloc && r.resetFails) = true := fun h => (usable_iff r).1 h hr
  rw [allocLoop, asks_iff.2 hasks, if_neg (by decide), if_neg (mt (growFails_iff (Nat.le_of_lt hlength)).1 hgrow)]
  rw [if_neg husable, stateOf_ranks, if_neg (Nat.not_le.2 hlength), grown_marked hlength]

theorem Takes.loop (h : Takes c dispatch ranks offers ranks' offers') :
    allocLoop c dispatch offers (stateOf ranks) = allocLoop c dispatch offers' (stateOf ranks') := by
  induction h with
  | refl => rfl
  | rank hasks hgrow hr hlength _ ih => rw [allocLoop_rank hasks hgrow hr hlength, ih]

theorem Takes.length (h : Takes c dispatch ranks offers ranks' offers') (hranks : ranks.length ≤ completeRankArraySize) :
    ranks'.length ≤ completeRankArraySize := by
  induction h with
  | refl => exact hranks
  | rank _ _ _ hlength _ ih =>
    apply ih
    rw [List.length_append, List.length_singleton]
    exact hlength

theorem FailsWith.loop (h : FailsWith c dispatch ranks offers) (hlength : ranks.length ≤ completeRankArraySize) :
    ∃ got, allocLoop c dispatch offers (stateOf ranks) = .error got := by
  obtain ⟨hasks, hfails⟩ := h
  unfold allocLoop
  rw [asks_iff.2 hasks, if_neg (by decide)]
  by_cases hgrow : GrowFails c ranks
  · rw [if_pos ((growFails_iff hlength).2 hgrow)]
    exact ⟨_, rfl⟩
  · rw [if_neg (mt (growFails_iff hlength).1 hgrow)]
    rcases hfails with hfail | ⟨rest, rfl⟩ | ⟨r, rest, rfl, hr⟩ | ⟨rfl | ⟨rest, rfl⟩, hshort⟩
    · exact absurd hfail hgrow
    · exact ⟨_, rfl⟩
    · dsimp only
      rw [if_pos ((usable_iff r).2 hr)]
      exact ⟨_, rfl⟩
    · exact ⟨_, exhausted_short hshort⟩
    · exact ⟨_, exhausted_short hshort⟩

theorem EndsWith.loop (h : EndsWith c dispatch ranks offers) (hlength : ranks.length ≤ completeRankArraySize) :
    ∃ capacity, allocLoop c dispatch offers (stateOf ranks) = .done { stateOf ranks with capacity := capacity } := by
  have hgrown : ∃ capacity, (stateOf ranks).grown = { stateOf ranks with capacity := capacity } := by
    unfold LoopState.grown
    split
    · exact ⟨_, rfl⟩
    · exact ⟨_, rfl⟩
  unfold allocLoop
  by_cases hasks : Asks c dispatch ranks
  · rw [asks_iff.2 hasks, if_neg (by decide)]
    rcases h with hnot | ⟨hgrow, hnone, henough⟩
    · exact absurd hasks hnot
    · obtain ⟨capacity, hcapacity⟩ := hgrown
      rw [if_neg (mt (growFails_iff hlength).1 hgrow)]
      rcases hnone with rfl | ⟨rest, rfl⟩
      · exact ⟨capacity, by dsimp only; rw [exhausted_enough henough, hcapacity]⟩
      · exact ⟨capacity, by dsimp only; rw [exhausted_enough henough, hcapacity]⟩
  · have hfalse : (stateOf ranks).asks c dispatch = false := Bool.eq_false_iff.2 (mt asks_iff.1 hasks)
    rw [hfalse, Bool.not_false, if_pos rfl]
    exact ⟨_, rfl⟩

/-- The call would take another rank and has no entry left for it. -/
def Overruns (c : Call) (dispatch : Bool) (ranks : List Grid) (offers : List Offer) : Prop :=
  ranks.length = completeRankArraySize ∧ Asks c dispatch ranks ∧ ¬ GrowFails c ranks ∧
    ∃ r rest, offers = .rank r :: rest ∧ Usable r

theorem Overruns.loop (h : Overruns c dispatch ranks offers) :
    allocLoop c dispatch offers (stateOf ranks) = .fault := by
  obtain ⟨hlength, hasks, hgrow, r, rest, rfl, hr⟩ := h
  have husable : ¬ (!r.disableResetOnAlloc && r.resetFails) = true := fun h => (usable_iff r).1 h hr
  rw [allocLoop, asks_iff.2 hasks, if_neg (by decide), if_neg (mt (growFails_iff (Nat.le_of_eq hlength)).1 hgrow)]
  rw [if_neg husable, stateOf_ranks, if_pos (Nat.le_of_eq hlength.symm)]

/-- How the loop goes. -/
theorem loop_cases (c : Call) (dispatch : Bool) (offers : List Offer) {ranks : List Grid}
    (hlength : ranks.length ≤ completeRankArraySize) :
    ∃ ranks' rest, Takes c dispatch ranks offers ranks' rest ∧
      (FailsWith c dispatch ranks' rest ∨ EndsWith c dispatch ranks' rest ∨ Overruns c dispatch ranks' rest) := by
  induction offers generalizing ranks with
  | nil =>
    refine ⟨ranks, [], .refl .., ?_⟩
    by_cases hasks : Asks c dispatch ranks
    · by_cases hgrow : GrowFails c ranks
      · exact .inl ⟨hasks, .inl hgrow⟩
      · by_cases henough : Enough c dispatch ranks
        · exact .inr (.inl (.inr ⟨hgrow, .inl rfl, henough⟩))
        · exact .inl ⟨hasks, .inr (.inr (.inr ⟨.inl rfl, henough⟩))⟩
    · exact .inr (.inl (.inl hasks))
  | cons offer offers ih =>
    by_cases hasks : Asks c dispatch ranks
    · by_cases hgrow : GrowFails c ranks
      · exact ⟨ranks, _, .refl .., .inl ⟨hasks, .inl hgrow⟩⟩
      · cases offer with
        | error => exact ⟨ranks, _, .refl .., .inl ⟨hasks, .inr (.inl ⟨offers, rfl⟩)⟩⟩
        | noRank =>
          refine ⟨ranks, _, .refl .., ?_⟩
          by_cases henough : Enough c dispatch ranks
          · exact .inr (.inl (.inr ⟨hgrow, .inr ⟨offers, rfl⟩, henough⟩))
          · exact .inl ⟨hasks, .inr (.inr (.inr ⟨.inr ⟨offers, rfl⟩, henough⟩))⟩
        | rank r =>
          by_cases hr : Usable r
          · by_cases hroom : ranks.length < completeRankArraySize
            · have hlength' : (ranks ++ [r.enabled]).length ≤ completeRankArraySize := by
                rw [List.length_append, List.length_singleton]
                exact hroom
              obtain ⟨ranks', rest, htakes, hend⟩ := ih hlength'
              exact ⟨ranks', rest, .rank hasks hgrow hr hroom htakes, hend⟩
            · have hfull : ranks.length = completeRankArraySize := Nat.le_antisymm hlength (Nat.not_lt.1 hroom)
              exact ⟨ranks, _, .refl .., .inr (.inr ⟨hfull, hasks, hgrow, r, offers, rfl, hr⟩)⟩
          · exact ⟨ranks, _, .refl .., .inl ⟨hasks, .inr (.inr (.inl ⟨r, offers, rfl, hr⟩))⟩⟩
    · exact ⟨ranks, _, .refl .., .inr (.inl (.inl hasks))⟩

/-! ## The set -/

theorem total_split (ranks : List Grid) : total ranks = total (ranks.filter isComplete) + incompleteDpus ranks := by
  induction ranks with
  | nil => rfl
  | cons g ranks ih =>
    unfold incompleteDpus at ih ⊢
    have hcons : total (g :: ranks) = g.card + total ranks := List.sum_cons ..
    rw [hcons, ih, List.filter_cons, List.filter_cons]
    by_cases hg : g.card = complete
    · rw [isComplete, decide_eq_true hg, if_pos rfl, isIncomplete, decide_eq_false (not_not_intro hg),
        if_neg Bool.false_ne_true]
      exact (Nat.add_assoc ..).symm
    · have hcons' : ∀ l, total (g :: l) = g.card + total l := fun _ => List.sum_cons ..
      rw [isComplete, decide_eq_false hg, if_neg Bool.false_ne_true, isIncomplete, decide_eq_true hg, if_pos rfl, hcons']
      omega

theorem total_complete (ranks : List Grid) :
    total (ranks.filter isComplete) = complete * (ranks.filter isComplete).length := by
  have hall : ∀ g ∈ ranks.filter isComplete, g.card = complete := fun g hg =>
    of_decide_eq_true (List.mem_filter.1 hg).2
  generalize ranks.filter isComplete = l at hall
  induction l with
  | nil => rfl
  | cons g l ih =>
    have hcons : total (g :: l) = g.card + total l := List.sum_cons ..
    rw [hcons, hall g (List.mem_cons_self ..), ih fun g' hg' => hall g' (List.mem_cons_of_mem _ hg'), List.length_cons,
      Nat.mul_succ, Nat.add_comm]

theorem numbered_lookup (p : Grid → Bool) (ranks : List Grid) :
    (numbered p 0 ranks).map (fun id => ranks.getD id ∅) = ranks.filter p := map_numbered p [] ranks

theorem length_numbered (p : Grid → Bool) (ranks : List Grid) : (numbered p 0 ranks).length = (ranks.filter p).length := by
  rw [← numbered_lookup p ranks, List.length_map]

/-- Every rank is a complete one or one of the others, once. -/
theorem count_freed (ranks : List Grid) {id : Nat} (h : id < ranks.length) :
    (numbered isIncomplete 0 ranks ++ numbered isComplete 0 ranks).count id = 1 := by
  have hget : ranks[id]? = some ranks[id] := List.getElem?_eq_getElem h
  have hmem : ∀ p, id ∈ numbered p 0 ranks ↔ p ranks[id] = true := by
    intro p
    rw [mem_numbered]
    constructor
    · intro ⟨j, g, hid, hj, hp⟩
      rw [Nat.zero_add] at hid
      subst hid
      rw [hget] at hj
      rwa [Option.some.inj hj]
    · exact fun hp => ⟨id, _, (Nat.zero_add _).symm, hget, hp⟩
  rw [List.count_append]
  by_cases hg : ranks[id].card = complete
  · have hin : id ∈ numbered isComplete 0 ranks := (hmem _).2 (decide_eq_true hg)
    have hout : id ∉ numbered isIncomplete 0 ranks := fun hmem' =>
      of_decide_eq_true ((hmem _).1 hmem') hg
    rw [List.count_eq_zero_of_not_mem hout, List.count_eq_one_of_mem (numbered_nodup ..) hin]
  · have hin : id ∈ numbered isIncomplete 0 ranks := (hmem _).2 (decide_eq_true hg)
    have hout : id ∉ numbered isComplete 0 ranks := fun hmem' => hg (of_decide_eq_true ((hmem _).1 hmem'))
    rw [List.count_eq_zero_of_not_mem hout, List.count_eq_one_of_mem (numbered_nodup ..) hin]

theorem roomFor_le (n : Nat) : roomFor n ≤ n := by
  unfold roomFor
  omega

theorem le_roomFor {n m : Nat} (h : n ≤ complete * m) : roomFor n ≤ m := by
  unfold roomFor
  unfold complete at h
  omega

theorem le_complete_roomFor (n : Nat) : n ≤ complete * roomFor n := by
  unfold roomFor complete
  omega

/-- The complete ranks are some, and just as many as are needed. -/
def Fits (c : Call) (ranks : List Grid) : Prop :=
  ranks.filter isComplete ≠ [] ∧
    (c.nrDpus = dpuAllocateAll ∨ (ranks.filter isComplete).length = roomFor c.nrDpus.toNat)

/-- The DPUs that are disabled in the end. -/
def tooMany (c : Call) (ranks : List Grid) : Nat :=
  if c.nrDpus = dpuAllocateAll then 0 else complete * (ranks.filter isComplete).length - c.nrDpus.toNat

theorem disableUnused_eq (h : Fits c ranks) :
    disableUnusedDpusComm c (complete * (ranks.filter isComplete).length)
        (if c.nrDpus = dpuAllocateAll then complete * (ranks.filter isComplete).length else c.nrDpus.toNat)
        (ranks.filter isComplete) = disableLoop c (tooMany c ranks) 0 (ranks.filter isComplete) := by
  unfold disableUnusedDpusComm tooMany
  by_cases hall : c.nrDpus = dpuAllocateAll
  · rw [if_pos hall, if_pos hall, if_neg, Nat.sub_self]
    intro hfault
    exact hfault.elim h.1 (Nat.lt_irrefl _)
  · rw [if_neg hall, if_neg hall, if_neg]
    intro hfault
    refine hfault.elim h.1 fun hlt => ?_
    rw [h.2.resolve_left hall] at hlt
    exact absurd (le_complete_roomFor _) (Nat.not_le.2 hlt)

/-- What is behind the loops, on the array as they leave it. -/
def finishOf (c : Call) (ranks : List Grid) (array : List Nat) : Outcome :=
  finish c ranks (total ranks - incompleteDpus ranks) (array.take (roomFor c.nrDpus.toNat))
    (numbered isComplete 0 ranks).length (numbered isIncomplete 0 ranks)

theorem finishOf_unfit {array : List Nat} (h : ¬ Fits c ranks)
    (htake : array.take (numbered isComplete 0 ranks).length = numbered isComplete 0 ranks) :
    finishOf c ranks array = .fault := by
  have hcurrent : total ranks - incompleteDpus ranks = complete * (ranks.filter isComplete).length := by
    rw [total_split, total_complete, Nat.add_sub_cancel]
  unfold finishOf finish
  rw [hcurrent]
  by_cases hin : (array.take (roomFor c.nrDpus.toNat)).length < (numbered isComplete 0 ranks).length
  · rw [if_pos hin]
  · have hcount : (ranks.filter isComplete).length ≤ roomFor c.nrDpus.toNat := by
      rw [List.length_take, length_numbered] at hin
      omega
    have hset : (array.take (roomFor c.nrDpus.toNat)).take (numbered isComplete 0 ranks).length =
        numbered isComplete 0 ranks := by
      rw [List.take_take, Nat.min_eq_left (by rw [length_numbered]; exact hcount), htake]
    have hfault : ranks.filter isComplete = [] ∨ complete * (ranks.filter isComplete).length <
        (if c.nrDpus = dpuAllocateAll then complete * (ranks.filter isComplete).length else c.nrDpus.toNat) := by
      by_cases hnone : ranks.filter isComplete = []
      · exact .inl hnone
      · right
        have hall : c.nrDpus ≠ dpuAllocateAll := fun hall => h ⟨hnone, .inl hall⟩
        rw [if_neg hall]
        by_contra hle
        exact h ⟨hnone, .inr (Nat.le_antisymm hcount (le_roomFor (Nat.not_lt.1 hle)))⟩
    rw [if_neg hin]
    dsimp only
    rw [hset, numbered_lookup, disableUnusedDpusComm, if_pos hfault]

theorem finishOf_fit {array : List Nat} (h : Fits c ranks) (hlength : ranks.length ≤ completeRankArraySize)
    (htake : array.take (numbered isComplete 0 ranks).length = numbered isComplete 0 ranks) :
    finishOf c ranks array =
      match disableLoop c (tooMany c ranks) 0 (ranks.filter isComplete) with
      | .fault => .fault
      | .error => .error ranks (numbered isIncomplete 0 ranks ++ numbered isComplete 0 ranks) false
      | .ok enabled =>
        match c.init with
        | .ok => .ok ranks ((numbered isComplete 0 ranks).zip enabled) (numbered isIncomplete 0 ranks)
        | .jobs => .error ranks (numbered isIncomplete 0 ranks ++ numbered isComplete 0 ranks) false
        | .register | .polling =>
          .error ranks (numbered isIncomplete 0 ranks ++ numbered isComplete 0 ranks) (0 < c.nrThreads) := by
  have hcount : (ranks.filter isComplete).length ≤ roomFor c.nrDpus.toNat := by
    rcases h.2 with hall | hnumber
    · have hle : (ranks.filter isComplete).length ≤ ranks.length := List.length_filter_le ..
      rw [hall]
      have hroom : roomFor dpuAllocateAll.toNat = 67108864 := by decide
      unfold completeRankArraySize at hlength
      omega
    · exact Nat.le_of_eq hnumber
  have harray : (numbered isComplete 0 ranks).length ≤ array.length := by
    conv_lhs => rw [← htake]
    rw [List.length_take]
    exact Nat.min_le_right ..
  have hin : ¬ (array.take (roomFor c.nrDpus.toNat)).length < (numbered isComplete 0 ranks).length := by
    rw [List.length_take, length_numbered] at *
    omega
  have hset : (array.take (roomFor c.nrDpus.toNat)).take (numbered isComplete 0 ranks).length =
      numbered isComplete 0 ranks := by
    rw [List.take_take, Nat.min_eq_left (by rw [length_numbered]; exact hcount), htake]
  have hcurrent : total ranks - incompleteDpus ranks = complete * (ranks.filter isComplete).length := by
    rw [total_split, total_complete, Nat.add_sub_cancel]
  unfold finishOf finish
  rw [hcurrent, if_neg hin]
  dsimp only
  rw [hset, numbered_lookup, disableUnused_eq h]

/-- The entries of the set are the complete ranks with what is left of their DPUs. -/
theorem set_entries {enabled : List Grid} (hsub : SubRanks enabled (ranks.filter isComplete)) :
    ∀ entry ∈ (numbered isComplete 0 ranks).zip enabled,
      ∃ g, ranks[entry.1]? = some g ∧ g.card = complete ∧ entry.2 ⊆ g := by
  intro entry hentry
  obtain ⟨i, hi⟩ := List.getElem?_of_mem hentry
  obtain ⟨hid, henabled⟩ := List.getElem?_zip_eq_some.1 hi
  obtain ⟨g, hg, hsubset⟩ := hsub.sub i _ henabled
  have hlookup : (ranks.filter isComplete)[i]? = some (ranks.getD entry.1 ∅) := by
    rw [← numbered_lookup, List.getElem?_map, hid]
    rfl
  obtain ⟨j, g', hj, hget, _⟩ := mem_numbered.1 (List.mem_of_getElem? hid)
  rw [Nat.zero_add] at hj
  subst hj
  have hcomplete : g ∈ ranks.filter isComplete := List.mem_of_getElem? hg
  rw [hlookup, List.getD_eq_getElem?_getD, hget] at hg
  obtain rfl := Option.some.inj hg
  exact ⟨g', hget, of_decide_eq_true (List.mem_filter.1 hcomplete).2, hsubset⟩

/-- The result is good exactly if the ranks fit and no failure comes too late. -/
theorem finishOf_good {array : List Nat} (hcomm : c.commType = 1 ∨ c.commType = 2)
    (hlength : ranks.length ≤ completeRankArraySize)
    (htake : array.take (numbered isComplete 0 ranks).length = numbered isComplete 0 ranks) :
    (finishOf c ranks array).Good c ↔ Fits c ranks ∧ (c.init = .ok ∨ c.init = .jobs ∨ c.nrThreads = 0 ∨
      ∃ k < tooMany c ranks, c.disableFails k = true) := by
  by_cases hfits : Fits c ranks
  · have hall : ∀ id < ranks.length, (numbered isIncomplete 0 ranks ++ numbered isComplete 0 ranks).count id = 1 :=
      fun id hid => count_freed ranks hid
    have hroom : (ranks.filter isComplete).length + tooMany c ranks ≤ total (ranks.filter isComplete) := by
      rw [total_complete]
      unfold tooMany complete
      by_cases hallocate : c.nrDpus = dpuAllocateAll
      · rw [if_pos hallocate]
        omega
      · rw [if_neg hallocate, hfits.2.resolve_left hallocate]
        have := roomFor_le c.nrDpus.toNat
        have := le_complete_roomFor c.nrDpus.toNat
        unfold complete at this
        omega
    have hspec := disableLoop_spec (k := 0) hcomm hroom
    rw [finishOf_fit hfits hlength htake]
    cases hloop : disableLoop c (tooMany c ranks) 0 (ranks.filter isComplete) with
    | fault =>
      rw [hloop] at hspec
      exact hspec.elim
    | error =>
      rw [hloop] at hspec
      obtain ⟨k, hk, hfail⟩ := hspec
      rw [Nat.zero_add] at hfail
      exact ⟨fun _ => ⟨hfits, .inr (.inr (.inr ⟨k, hk, hfail⟩))⟩, fun _ => ⟨hall, rfl⟩⟩
    | ok enabled =>
      rw [hloop] at hspec
      obtain ⟨hnone, hsub, hsum⟩ := hspec
      have hno : ¬ ∃ k < tooMany c ranks, c.disableFails k = true := by
        intro ⟨k, hk, hfail⟩
        have := hnone k hk
        rw [Nat.zero_add, hfail] at this
        cases this
      have hzip : ((numbered isComplete 0 ranks).zip enabled).map Prod.fst = numbered isComplete 0 ranks := by
        apply List.map_fst_zip
        rw [hsub.length, length_numbered]
      have hzip' : ((numbered isComplete 0 ranks).zip enabled).map Prod.snd = enabled := by
        apply List.map_snd_zip
        rw [hsub.length, length_numbered]
      -- a failure behind the job threads frees the ranks and leaves the threads
      have hlate : (Outcome.error ranks (numbered isIncomplete 0 ranks ++ numbered isComplete 0 ranks)
          (0 < c.nrThreads)).Good c ↔ c.nrThreads = 0 := by
        constructor
        · intro hgood
          have hnot := of_decide_eq_false hgood.2
          omega
        · intro hzero
          exact ⟨hall, by rw [hzero]; rfl⟩
      have hlast : ∀ {init : Init}, init ≠ .ok → init ≠ .jobs →
          (c.nrThreads = 0 ↔ Fits c ranks ∧ (init = .ok ∨ init = .jobs ∨ c.nrThreads = 0 ∨
            ∃ k < tooMany c ranks, c.disableFails k = true)) := by
        intro init hok hjobs
        exact ⟨fun hzero => ⟨hfits, .inr (.inr (.inl hzero))⟩, fun h => (((h.2.resolve_left hok).resolve_left
          hjobs).resolve_right hno)⟩
      cases hinit : c.init with
      | ok =>
        refine ⟨fun _ => ⟨hfits, .inl rfl⟩, fun _ => ⟨set_entries hsub, ?_, ?_, ?_, ?_⟩⟩
        · rw [hzip]
          exact numbered_nodup ..
        · intro entry hentry hfreed
          obtain ⟨g, hget, hcard, _⟩ := set_entries hsub entry hentry
          obtain ⟨j, g', hj, hget', hp⟩ := mem_numbered.1 hfreed
          rw [Nat.zero_add] at hj
          rw [hj, hget'] at hget
          obtain rfl := Option.some.inj hget
          exact of_decide_eq_true hp hcard
        · have hlengthSet : ((numbered isComplete 0 ranks).zip enabled).length = (ranks.filter isComplete).length := by
            rw [← List.length_map (f := Prod.snd), hzip', hsub.length]
          have hcards : (((numbered isComplete 0 ranks).zip enabled).map fun entry => entry.2.card).sum = total enabled := by
            rw [total, ← hzip', List.map_map, hzip']
            rfl
          rw [hcards, hlengthSet]
          rw [total_complete] at hsum
          unfold tooMany at hsum
          by_cases hallocate : c.nrDpus = dpuAllocateAll
          · rw [if_pos hallocate] at hsum ⊢
            exact hsum
          · rw [if_neg hallocate] at hsum ⊢
            have hle := le_complete_roomFor c.nrDpus.toNat
            rw [← hfits.2.resolve_left hallocate] at hle
            omega
        · intro id g hget hcard
          have hid : id ∈ numbered isIncomplete 0 ranks :=
            mem_numbered.2 ⟨id, g, (Nat.zero_add id).symm, hget, decide_eq_true hcard⟩
          exact List.count_eq_one_of_mem (numbered_nodup ..) hid
      | jobs => exact ⟨fun _ => ⟨hfits, .inr (.inl rfl)⟩, fun _ => ⟨hall, rfl⟩⟩
      | register => exact hlate.trans (hlast nofun nofun)
      | polling => exact hlate.trans (hlast nofun nofun)
  · rw [finishOf_unfit hfits htake]
    exact ⟨False.elim, fun h => hfits h.1⟩

/-! ## The whole call -/

theorem start_eq : (⟨[], 0, 0, 0, List.replicate completeRankArraySize 0⟩ : LoopState) = stateOf [] := rfl

/-- What the call does behind a loop that ends well. -/
theorem compact_loop (ranks : List Grid) :
    ∃ array, compact (stateOf ranks).completeRankArray 0 (List.range ranks.length) 0 [] =
        some (array, (numbered isComplete 0 ranks).length, numbered isIncomplete 0 ranks) ∧
      array.take (numbered isComplete 0 ranks).length = numbered isComplete 0 ranks := by
  have hcurrent : ∀ j, 0 ≤ j → j < (List.range ranks.length).length → (List.range ranks.length)[j]? = some j := by
    intro j _ hj
    rw [List.length_range] at hj
    exact List.getElem?_range hj
  have hsame : 0 + ranks.length = (List.range ranks.length).length := by rw [List.length_range, Nat.zero_add]
  obtain ⟨array, hrun, _, htake⟩ := @compact_spec ranks 0 0 (completeRankArraySize - ranks.length)
    (List.range ranks.length) [] hcurrent hsame (Nat.le_refl 0)
  rw [Nat.zero_add, List.nil_append] at hrun
  rw [Nat.zero_add, List.take_zero, List.nil_append] at htake
  exact ⟨array, hrun, htake⟩

theorem count_range {n id : Nat} (h : id < n) : (List.range n).count id = 1 :=
  List.count_eq_one_of_mem List.nodup_range (List.mem_range.2 h)

theorem suits_iff : Suits c ranks ↔ c.reallocFails = false ∧ Fits c ranks ∧ (c.init = .ok ∨ c.init = .jobs ∨
    c.nrThreads = 0 ∨ ∃ k < tooMany c ranks, c.disableFails k = true) := by
  have htooMany : (c.nrDpus ≠ dpuAllocateAll ∧
      ∃ k < complete * (ranks.filter isComplete).length - c.nrDpus.toNat, c.disableFails k = true) ↔
      ∃ k < tooMany c ranks, c.disableFails k = true := by
    unfold tooMany
    by_cases hall : c.nrDpus = dpuAllocateAll
    · rw [if_pos hall]
      exact ⟨fun h => absurd hall h.1, fun ⟨k, hk, _⟩ => absurd hk (Nat.not_lt_zero k)⟩
    · rw [if_neg hall]
      exact ⟨fun h => h.2, fun h => ⟨hall, h⟩⟩
  rw [← htooMany]
  constructor
  · intro h
    exact ⟨h.realloc, ⟨h.some, h.number⟩, h.undone⟩
  · intro ⟨hrealloc, hfits, hundone⟩
    exact ⟨hfits.1, hfits.2, hrealloc, hundone⟩

section Calls

variable {dispatchOnAllRanks : Bool} {rest : List Offer}

/-- The call behind a loop that ends well. -/
theorem call_ends (hn : c.nrDpus ≠ 0) (hprofile : c.profile = some dispatchOnAllRanks)
    (hcomm : c.commType = 1 ∨ c.commType = 2)
    (htakes : Takes c (dispatchOnAllRanks && c.nrDpus ≠ dpuAllocateAll) [] offers ranks rest)
    (hend : EndsWith c (dispatchOnAllRanks && c.nrDpus ≠ dpuAllocateAll) ranks rest) :
    (dpuAllocComm c offers).Good c ↔ Suits c ranks := by
  have hlength := htakes.length (Nat.zero_le _)
  obtain ⟨capacity, hloop⟩ := hend.loop hlength
  obtain ⟨array, hcompact, htake⟩ := compact_loop ranks
  rw [suits_iff, ← finishOf_good hcomm hlength htake]
  unfold dpuAllocComm
  rw [if_neg hn, hprofile]
  dsimp only
  rw [start_eq, htakes.loop, hloop]
  dsimp only
  rw [stateOf_ranks, hcompact]
  dsimp only
  cases c.reallocFails with
  | true =>
    rw [if_pos rfl]
    exact ⟨False.elim, fun h => Bool.noConfusion h.1⟩
  | false =>
    rw [if_neg Bool.false_ne_true]
    exact ⟨fun h => ⟨rfl, h⟩, fun h => h.2⟩

theorem call_fails (hn : c.nrDpus ≠ 0) (hprofile : c.profile = some dispatchOnAllRanks)
    (htakes : Takes c (dispatchOnAllRanks && c.nrDpus ≠ dpuAllocateAll) [] offers ranks rest)
    (hfails : FailsWith c (dispatchOnAllRanks && c.nrDpus ≠ dpuAllocateAll) ranks rest) :
    (dpuAllocComm c offers).Good c := by
  obtain ⟨got, hloop⟩ := hfails.loop (htakes.length (Nat.zero_le _))
  unfold dpuAllocComm
  rw [if_neg hn, hprofile]
  dsimp only
  rw [start_eq, htakes.loop, hloop]
  exact ⟨fun id hid => count_range hid, rfl⟩

theorem call_overruns (hn : c.nrDpus ≠ 0) (hprofile : c.profile = some dispatchOnAllRanks)
    (htakes : Takes c (dispatchOnAllRanks && c.nrDpus ≠ dpuAllocateAll) [] offers ranks rest)
    (hover : Overruns c (dispatchOnAllRanks && c.nrDpus ≠ dpuAllocateAll) ranks rest) :
    ¬ (dpuAllocComm c offers).Good c := by
  unfold dpuAllocComm
  rw [if_neg hn, hprofile]
  dsimp only
  rw [start_eq, htakes.loop, hover.loop]
  exact id

end Calls

/-- The call does what it should exactly if the ranks that it takes suit the request or a step before that fails. -/
theorem commAllocation_iff (c : Call) (hcomm : c.commType = 1 ∨ c.commType = 2) (offers : List Offer) :
    (dpuAllocComm c offers).Good c ↔ Meets c offers := by
  by_cases hn : c.nrDpus = 0
  · have hgood : (dpuAllocComm c offers).Good c := by
      unfold dpuAllocComm
      rw [if_pos hn]
      exact ⟨fun id hid => absurd hid (Nat.not_lt_zero id), rfl⟩
    exact ⟨fun _ => .nothing hn, fun _ => hgood⟩
  · cases hprofile : c.profile with
    | none =>
      have hgood : (dpuAllocComm c offers).Good c := by
        unfold dpuAllocComm
        rw [if_neg hn, hprofile]
        exact ⟨fun id hid => absurd hid (Nat.not_lt_zero id), rfl⟩
      exact ⟨fun _ => .refused hprofile, fun _ => hgood⟩
    | some dispatchOnAllRanks =>
      constructor
      · intro hgood
        have hnone : ([] : List Grid).length ≤ completeRankArraySize := Nat.zero_le _
        obtain ⟨ranks, rest, htakes, hfails | hends | hover⟩ := loop_cases c
          (dispatchOnAllRanks && c.nrDpus ≠ dpuAllocateAll) offers hnone
        · exact .fails hprofile htakes hfails
        · exact .ends hprofile htakes hends ((call_ends hn hprofile hcomm htakes hends).1 hgood)
        · exact absurd hgood (call_overruns hn hprofile htakes hover)
      · intro hmeets
        cases hmeets with
        | nothing hzero => exact absurd hzero hn
        | refused hnone => exact absurd (hprofile.symm.trans hnone) (Option.some_ne_none _)
        | fails hprofile' htakes hfails => exact call_fails hn hprofile' htakes hfails
        | ends hprofile' htakes hends hsuits => exact (call_ends hn hprofile' hcomm htakes hends).2 hsuits

def fullRank : OfferedRank where
  enabled := Finset.univ
  nonempty := Finset.univ_nonempty
  disableResetOnAlloc := false
  resetFails := false

/-- A call of 64 DPUs in which nothing fails. -/
def sampleCall (dispatchOnAllRanks : Bool) : Call where
  nrDpus := 64
  commType := 1
  profile := some dispatchOnAllRanks
  growFails := fun _ => false
  reallocFails := false
  disableFails := fun _ => false
  init := .ok
  nrThreads := 8

theorem commAllocation_one_rank : (dpuAllocComm (sampleCall false) [.rank fullRank]).Good (sampleCall false) := by
  have hcard : isComplete fullRank.enabled = true := by decide +kernel
  have hfilter : [fullRank.enabled].filter isComplete = [fullRank.enabled] := by
    rw [List.filter_cons, if_pos hcard, List.filter_nil]
  have htakes : Takes (sampleCall false) false [] [.rank fullRank] [fullRank.enabled] [] := by
    apply Takes.rank (.inl rfl) (fun h => Bool.false_ne_true h.2) (.inr rfl) (by decide)
    exact .refl ..
  have hends : EndsWith (sampleCall false) false [fullRank.enabled] [] := by
    left
    unfold Asks
    decide +kernel
  have hsuits : Suits (sampleCall false) [fullRank.enabled] := by
    refine ⟨?_, ?_, rfl, .inl rfl⟩
    · rw [hfilter]
      exact List.cons_ne_nil _ _
    · rw [hfilter]
      exact .inr rfl
  exact (commAllocation_iff (sampleCall false) (.inl rfl) [.rank fullRank]).2 (.ends rfl htakes hends hsuits)

/-- With `dispatch_on_all_ranks` there can be more ranks than the array has entries in the end. -/
theorem dispatch_not_good :
    ¬ (dpuAllocComm (sampleCall true) [.rank fullRank, .rank fullRank, .noRank]).Good (sampleCall true) := by
  have hfault : dpuAllocComm (sampleCall true) [.rank fullRank, .rank fullRank, .noRank] = .fault := by rfl
  rw [hfault]
  exact id

end DpuBackend.Api.CommAllocation
