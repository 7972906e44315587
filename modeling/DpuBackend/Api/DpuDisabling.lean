import DpuBackend.Lib.Loops
import DpuBackend.Ufi.Slice
import Mathlib.Algebra.BigOperators.Group.Finset.Basic
import Mathlib.Algebra.Order.BigOperators.Group.Finset

/-
  Disabling the DPUs of an allocation that were not asked for (`dpu_set.c`, `dpu_internals.c`).

  A DPU is enabled in several places: its own field, the mask and the flag of its control
  interface, and the count of its rank. `dpu_get_nr_dpus` counts by the masks and flags.
  The search takes an enabled DPU of a rank that has more than one, on a line with the most
  disabled DPUs; the hardware commands succeed. A rank has at most 8 interfaces of at most
  8 DPUs, and the counts of fewer than 2^26 ranks fit their 32 bits.

  `disableUnusedDpus_spec` says that the search always finds a DPU and what is left at the end.
  The count of the rank is set at the allocation and at a reset, and not here
  (`disabling_iff`).

  Correspondence (C ↔ Lean):
    `get_nr_of_dpus_in_rank`, `dpu_get_nr_dpus` ↔ `Rank.getNrOfDpusInRank`, `dpuGetNrDpus`
    `disable_one_dpu`                           ↔ `considerLine`, `searchRank`, `disableOneDpu`
    `dpu_disable_one_dpu`                       ↔ `Rank.dpuDisableOneDpu`
    `disable_unused_dpus`                       ↔ `disableLoop`, `disableUnusedDpus`
-/

namespace DpuBackend.Api.DpuDisabling

open DpuBackend.Lib DpuBackend.Ufi

/-- What the API keeps for a control interface. -/
structure SliceInfo where
  enabledDpus : Mask
  allDpusAreEnabled : Bool

structure Rank where
  nrCis : Nat
  nrDpus : Nat
  nrCis_le : nrCis ≤ 8
  nrDpus_le : nrDpus ≤ 8
  sliceInfo : Nat → SliceInfo
  /-- `enabled`, by control interface and line. -/
  dpuEnabled : Nat → Nat → Bool
  nrDpusEnabled : Nat

/-! ## The program -/

namespace Rank

variable (r : Rank)

def getNrOfDpusInRank : Nat :=
  (List.range r.nrCis).foldl (fun count ci =>
    if (r.sliceInfo ci).allDpusAreEnabled then count + r.nrDpus else count + dpuMaskCount (r.sliceInfo ci).enabledDpus) 0

/-- `dpu_disable_one_dpu` of an enabled DPU. -/
def dpuDisableOneDpu (ci line : Nat) : Rank :=
  { r with
    sliceInfo := fun i =>
      if i = ci then ⟨dpuMaskUnselect (r.sliceInfo ci).enabledDpus line, false⟩ else r.sliceInfo i
    dpuEnabled := fun i l => if i = ci ∧ l = line then false else r.dpuEnabled i l }

end Rank

/-- For a set of ranks. -/
def dpuGetNrDpus (ranks : List Rank) : Nat := ranks.foldl (fun count r => count + r.getNrOfDpusInRank) 0

/-- The rank, interface and line found so far, and the maxima. -/
structure Search where
  target : Option (Nat × Nat × Nat)
  maxDisabledDpusOnLine : Nat
  maxEnabledDpusOnRank : Nat

def considerLine (rank : Nat) (r : Rank) (s : Search) (line : Nat) : Search :=
  let countDisabledOnLine := (List.range r.nrCis).countP fun ci => !r.dpuEnabled ci line
  -- the last interface with an enabled DPU
  match ((List.range r.nrCis).filter fun ci => r.dpuEnabled ci line).getLast? with
  | none => s
  | some ciEnabled =>
    if s.maxDisabledDpusOnLine < countDisabledOnLine ∨
        countDisabledOnLine = s.maxDisabledDpusOnLine ∧ s.maxEnabledDpusOnRank ≤ r.getNrOfDpusInRank then
      ⟨some (rank, ciEnabled, line), countDisabledOnLine, r.getNrOfDpusInRank⟩
    else s

def searchRank (s : Search) (rank : Rank × Nat) : Search :=
  if rank.1.getNrOfDpusInRank = 1 then s else (List.range rank.1.nrDpus).foldl (considerLine rank.2 rank.1) s

inductive Outcome where
  /-- An assertion fails. -/
  | fault
  /-- `DPU_ERR_DPU_DISABLED`. -/
  | error
  | ok (ranks : List Rank)

def disableOneDpu (ranks : List Rank) : Outcome :=
  match (ranks.zipIdx.foldl searchRank ⟨none, 0, 0⟩).target with
  | none => .fault
  | some (rank, ci, line) =>
    match ranks[rank]? with
    | none => .fault
    | some r => if r.dpuEnabled ci line then .ok (ranks.set rank (r.dpuDisableOneDpu ci line)) else .error

def disableLoop : Nat → List Rank → Outcome
  | 0, ranks => .ok ranks
  | n + 1, ranks =>
    match disableOneDpu ranks with
    | .ok ranks => disableLoop n ranks
    | end_ => end_

def disableUnusedDpus (currentNrOfDpus nrDpus : Nat) (currentRanks : List Rank) : Outcome :=
  if currentRanks = [] ∨ currentNrOfDpus < nrDpus then .fault else disableLoop (currentNrOfDpus - nrDpus) currentRanks

/-! ## What it should do -/

/-- The enabled DPUs. -/
def Rank.enabled (r : Rank) : Finset (Nat × Nat) :=
  (Finset.range r.nrCis ×ˢ Finset.range r.nrDpus).filter fun p => r.dpuEnabled p.1 p.2 = true

/-- The masks, flags and fields of a rank agree. -/
structure Rank.Agrees (r : Rank) : Prop where
  mask : ∀ ci < r.nrCis, ∀ line, (r.sliceInfo ci).enabledDpus.getLsbD line = true ↔
    line < r.nrDpus ∧ r.dpuEnabled ci line = true
  flag : ∀ ci < r.nrCis, (r.sliceInfo ci).allDpusAreEnabled = true ↔ ∀ line < r.nrDpus, r.dpuEnabled ci line = true

def total (ranks : List Rank) : Nat := (ranks.map fun r => r.enabled.card).sum

/-- The ranks as the allocator gives them, and the count asked for. -/
structure Setting where
  ranks : List Rank
  nrDpus : Nat
  agrees : ∀ r ∈ ranks, r.Agrees
  counted : ∀ r ∈ ranks, r.nrDpusEnabled = r.enabled.card
  enabled : ∀ r ∈ ranks, r.enabled.Nonempty
  nrDpus_ge : ranks.length ≤ nrDpus
  nrDpus_le : nrDpus ≤ total ranks

/-- Rank by rank no DPU is enabled that was not, some still are, and the fields agree. -/
structure Reduced (before after : List Rank) : Prop where
  length : after.length = before.length
  sub : ∀ (i : Nat) (r r' : Rank), before[i]? = some r → after[i]? = some r' → r'.enabled ⊆ r.enabled
  nonempty : ∀ r ∈ after, r.enabled.Nonempty
  agrees : ∀ r ∈ after, r.Agrees

/-- The count asked for is reached, and all counts say so. -/
def Disabled (x : Setting) : Prop :=
  ∃ ranks, disableUnusedDpus (dpuGetNrDpus x.ranks) x.nrDpus x.ranks = .ok ranks ∧ Reduced x.ranks ranks ∧
    total ranks = x.nrDpus ∧ dpuGetNrDpus ranks = x.nrDpus ∧ ∀ r ∈ ranks, r.nrDpusEnabled = r.enabled.card

/-- There are ranks, and nothing is to be disabled. -/
def HoldsWhen (x : Setting) : Prop := x.ranks ≠ [] ∧ x.nrDpus = total x.ranks

/-! ## Counting -/

section Count

variable {r : Rank}

theorem foldl_add_eq_sum (f : Nat → Nat) (n start : Nat) :
    (List.range n).foldl (fun count i => count + f i) start = start + ∑ i ∈ Finset.range n, f i := by
  induction n with
  | zero => simp
  | succ n ih => rw [List.range_succ, List.foldl_append, ih, Finset.sum_range_succ, List.foldl_cons, List.foldl_nil, Nat.add_assoc]

theorem Rank.card_enabled (r : Rank) :
    r.enabled.card = ∑ ci ∈ Finset.range r.nrCis, ((Finset.range r.nrDpus).filter fun line => r.dpuEnabled ci line = true).card := by
  rw [Rank.enabled, Finset.card_filter, Finset.sum_product]
  exact Finset.sum_congr rfl fun ci _ => (Finset.card_filter _ _).symm

/-- The count by masks and flags is the number of enabled DPUs. -/
theorem Rank.Agrees.getNrOfDpusInRank (h : r.Agrees) : r.getNrOfDpusInRank = r.enabled.card := by
  have hstep : ∀ ci count, (if (r.sliceInfo ci).allDpusAreEnabled then count + r.nrDpus
      else count + dpuMaskCount (r.sliceInfo ci).enabledDpus) =
      count + (if (r.sliceInfo ci).allDpusAreEnabled then r.nrDpus else dpuMaskCount (r.sliceInfo ci).enabledDpus) := by
    intro ci count
    split <;> rfl
  simp only [Rank.getNrOfDpusInRank, hstep]
  rw [foldl_add_eq_sum, Nat.zero_add, r.card_enabled]
  refine Finset.sum_congr rfl fun ci hci => ?_
  have hci := Finset.mem_range.mp hci
  split
  · next hall =>
    have hfull := (h.flag ci hci).mp hall
    rw [Finset.filter_true_of_mem fun line hline => hfull line (Finset.mem_range.mp hline), Finset.card_range]
  · rw [dpuMaskCount_eq_card]
    congr 1
    ext line
    have hle := r.nrDpus_le
    simp only [Finset.mem_filter, Finset.mem_range]
    rw [h.mask ci hci line]
    constructor
    · exact fun hline => hline.2
    · exact fun hline => ⟨Nat.lt_of_lt_of_le hline.1 hle, hline⟩

theorem dpuGetNrDpus_eq {ranks : List Rank} (h : ∀ r ∈ ranks, r.Agrees) : dpuGetNrDpus ranks = total ranks := by
  have hfold : ∀ start, ranks.foldl (fun count r => count + r.getNrOfDpusInRank) start = start + total ranks := by
    induction ranks with
    | nil => simp [total]
    | cons r ranks ih =>
      intro start
      rw [List.foldl_cons, ih fun r hr => h r (List.mem_cons_of_mem _ hr), (h r List.mem_cons_self).getNrOfDpusInRank]
      simp [total, Nat.add_assoc]
  rw [dpuGetNrDpus, hfold, Nat.zero_add]

end Count

/-! ## The DPU that is disabled -/

/-- A target is an enabled DPU of a rank with more than one; without a target the maxima are zero. -/
structure Found (ranks : List Rank) (s : Search) : Prop where
  valid : ∀ i ci line, s.target = some (i, ci, line) →
    ∃ r, ranks[i]? = some r ∧ (ci, line) ∈ r.enabled ∧ r.enabled.card ≠ 1
  start : s.target = none → s.maxDisabledDpusOnLine = 0 ∧ s.maxEnabledDpusOnRank = 0

section Search

variable {ranks : List Rank} {r : Rank} {i line : Nat} {s : Search}

theorem mem_enabled {p : Nat × Nat} : p ∈ r.enabled ↔ p.1 < r.nrCis ∧ p.2 < r.nrDpus ∧ r.dpuEnabled p.1 p.2 = true := by
  rw [Rank.enabled, Finset.mem_filter, Finset.mem_product, Finset.mem_range, Finset.mem_range, and_assoc]

/-- The last enabled DPU of a line, if there is one. -/
theorem getLast?_enabled (r : Rank) (line : Nat) :
    match ((List.range r.nrCis).filter fun ci => r.dpuEnabled ci line).getLast? with
    | none => ∀ ci < r.nrCis, ¬r.dpuEnabled ci line = true
    | some ci => ci < r.nrCis ∧ r.dpuEnabled ci line = true := by
  cases hlast : ((List.range r.nrCis).filter fun ci => r.dpuEnabled ci line).getLast? with
  | none =>
    rw [List.getLast?_eq_none_iff] at hlast
    intro ci hci hen
    have hmem : ci ∈ (List.range r.nrCis).filter fun ci => r.dpuEnabled ci line :=
      List.mem_filter.mpr ⟨List.mem_range.mpr hci, hen⟩
    rw [hlast] at hmem
    exact absurd hmem List.not_mem_nil
  | some ci =>
    have hmem := List.mem_filter.mp (List.mem_of_getLast? hlast)
    exact ⟨List.mem_range.mp hmem.1, hmem.2⟩

theorem considerLine_found (hi : ranks[i]? = some r) (hmany : r.enabled.card ≠ 1) (hline : line < r.nrDpus)
    (hs : Found ranks s) : Found ranks (considerLine i r s line) := by
  have hlast := getLast?_enabled r line
  unfold considerLine
  split
  · exact hs
  · next ci hci =>
    rw [hci] at hlast
    dsimp only
    split
    · refine ⟨fun i' ci' line' htarget => ?_, nofun⟩
      obtain ⟨rfl, rfl, rfl⟩ : i = i' ∧ ci = ci' ∧ line = line' := by simpa using htarget
      exact ⟨r, hi, mem_enabled.mpr ⟨hlast.1, hline, hlast.2⟩, hmany⟩
    · exact hs

theorem considerLine_keeps (line : Nat) (h : s.target ≠ none) : (considerLine i r s line).target ≠ none := by
  unfold considerLine
  split
  · exact h
  · dsimp only
    split
    · exact Option.some_ne_none _
    · exact h

/-- A line with an enabled DPU is taken if nothing else is. -/
theorem considerLine_some {ci : Nat} (hmem : (ci, line) ∈ r.enabled) (hs : Found ranks s) :
    (considerLine i r s line).target ≠ none := by
  by_cases hnone : s.target = none
  · obtain ⟨hci, -, hen⟩ := mem_enabled.mp hmem
    obtain ⟨hdisabled, henabled⟩ := hs.start hnone
    have hlast := getLast?_enabled r line
    unfold considerLine
    split
    · next hnil =>
      rw [hnil] at hlast
      exact absurd hen (hlast ci hci)
    · dsimp only
      rw [if_pos (by omega)]
      exact Option.some_ne_none _
  · exact considerLine_keeps line hnone

theorem searchRank_found (hagrees : r.Agrees) (hi : ranks[i]? = some r) (hs : Found ranks s) :
    Found ranks (searchRank s (r, i)) := by
  unfold searchRank
  split
  · exact hs
  · next hmany =>
    rw [hagrees.getNrOfDpusInRank] at hmany
    exact List.foldlRecOn _ _ hs fun s hs line hline => considerLine_found hi hmany (List.mem_range.mp hline) hs

theorem searchRank_keeps (rank : Rank × Nat) (h : s.target ≠ none) : (searchRank s rank).target ≠ none := by
  unfold searchRank
  split
  · exact h
  · exact List.foldlRecOn (motive := fun s : Search => s.target ≠ none) _ _ h fun s hs line _ => considerLine_keeps line hs

/-- In a rank with more than one enabled DPU one is found. -/
theorem searchRank_some (hagrees : r.Agrees) (hi : ranks[i]? = some r) (hmany : 1 < r.enabled.card) (hs : Found ranks s) :
    (searchRank s (r, i)).target ≠ none := by
  obtain ⟨⟨ci, line⟩, hmem⟩ := Finset.card_pos.mp (Nat.lt_of_succ_lt hmany)
  have hne : r.enabled.card ≠ 1 := Nat.ne_of_gt hmany
  rw [searchRank, hagrees.getNrOfDpusInRank, if_neg hne]
  exact foldl_reach (I := Found ranks) (P := fun s : Search => s.target ≠ none) (List.mem_range.mpr (mem_enabled.mp hmem).2.1)
    (fun s line hline hs => considerLine_found hi hne (List.mem_range.mp hline) hs)
    (fun s hs => considerLine_some hmem hs) (fun s line _ _ h => considerLine_keeps line h) hs

/-- Where a rank has more than one enabled DPU, one of such a rank is disabled. -/
theorem disableOneDpu_spec (hagrees : ∀ r ∈ ranks, r.Agrees) (hmany : ∃ r ∈ ranks, 1 < r.enabled.card) :
    ∃ i r ci line, ranks[i]? = some r ∧ (ci, line) ∈ r.enabled ∧ 1 < r.enabled.card ∧
      disableOneDpu ranks = .ok (ranks.set i (r.dpuDisableOneDpu ci line)) := by
  have hindex : ∀ rank ∈ ranks.zipIdx, ranks[rank.2]? = some rank.1 ∧ rank.1.Agrees := by
    intro rank hrank
    have hget := List.mem_zipIdx_iff_getElem?.mp hrank
    exact ⟨hget, hagrees _ (List.mem_of_getElem? hget)⟩
  have hinv : ∀ s, ∀ rank ∈ ranks.zipIdx, Found ranks s → Found ranks (searchRank s rank) := fun s rank hrank hs =>
    searchRank_found (hindex rank hrank).2 (hindex rank hrank).1 hs
  have hstart : Found ranks ⟨none, 0, 0⟩ := ⟨nofun, fun _ => ⟨rfl, rfl⟩⟩
  have hfound : Found ranks (ranks.zipIdx.foldl searchRank ⟨none, 0, 0⟩) :=
    List.foldlRecOn _ _ hstart fun s hs rank hrank => hinv s rank hrank hs
  obtain ⟨r, hr, hcard⟩ := hmany
  obtain ⟨j, hj⟩ := List.mem_iff_getElem?.mp hr
  have hsome : (ranks.zipIdx.foldl searchRank ⟨none, 0, 0⟩).target ≠ none :=
    foldl_reach (I := Found ranks) (P := fun s : Search => s.target ≠ none) (List.mem_zipIdx_iff_getElem?.mpr hj : (r, j) ∈ ranks.zipIdx)
      hinv (fun s hs => searchRank_some (hagrees r hr) hj hcard hs) (fun s rank _ _ h => searchRank_keeps rank h) hstart
  obtain ⟨⟨i, ci, line⟩, htarget⟩ := Option.ne_none_iff_exists'.mp hsome
  obtain ⟨r, hi, hmem, hne⟩ := hfound.valid i ci line htarget
  have hpos : 0 < r.enabled.card := Finset.card_pos.mpr ⟨_, hmem⟩
  refine ⟨i, r, ci, line, hi, hmem, by omega, ?_⟩
  simp only [disableOneDpu, htarget, hi]
  rw [if_pos (mem_enabled.mp hmem).2.2]

end Search

/-! ## A run -/

section Run

variable {ranks : List Rank} {r : Rank} {i ci line : Nat}

theorem dpuDisableOneDpu_enabled (r : Rank) (ci line : Nat) :
    (r.dpuDisableOneDpu ci line).enabled = r.enabled.erase (ci, line) := by
  ext ⟨i, l⟩
  rw [Finset.mem_erase, mem_enabled, mem_enabled]
  simp only [Rank.dpuDisableOneDpu, ne_eq, Prod.mk.injEq]
  by_cases h : i = ci ∧ l = line <;> simp [h]

/-- The masks, flags and fields still agree. -/
theorem Rank.Agrees.disable (h : r.Agrees) (hmem : (ci, line) ∈ r.enabled) : (r.dpuDisableOneDpu ci line).Agrees := by
  obtain ⟨hci, hline, -⟩ := mem_enabled.mp hmem
  constructor
  · intro i hi l
    have hmask := h.mask i hi l
    simp only [Rank.dpuDisableOneDpu]
    by_cases hic : i = ci
    · subst hic
      simp only [if_true, dpuMaskUnselect_bit, Bool.and_eq_true, Bool.not_eq_true', decide_eq_false_iff_not, true_and, hmask]
      by_cases hl : l = line <;> simp [hl]
    · simp only [hic, if_false, false_and, hmask]
  · intro i hi
    have hflag := h.flag i hi
    simp only [Rank.dpuDisableOneDpu]
    by_cases hic : i = ci
    · subst hic
      simp only [if_true, Bool.false_eq_true, true_and, false_iff]
      intro hall
      have hthis := hall line hline
      simp at hthis
    · simp only [hic, if_false, false_and, hflag]

theorem total_set (hi : ranks[i]? = some r) (r' : Rank) :
    total (ranks.set i r') + r.enabled.card = total ranks + r'.enabled.card := by
  induction ranks generalizing i with
  | nil => exact absurd hi nofun
  | cons a ranks ih =>
    cases i with
    | zero =>
      obtain rfl : a = r := by simpa using hi
      simp only [total, List.set_cons_zero, List.map_cons, List.sum_cons]
      omega
    | succ i =>
      have hrest := ih (i := i) (by simpa using hi)
      simp only [total, List.set_cons_succ, List.map_cons, List.sum_cons] at hrest ⊢
      omega

/-- With more enabled DPUs than ranks, some rank has two. -/
theorem exists_many (h : ranks.length < total ranks) : ∃ r ∈ ranks, 1 < r.enabled.card := by
  by_contra hno
  have hle : ∀ c ∈ ranks.map fun r => r.enabled.card, c ≤ 1 := by
    intro c hc
    obtain ⟨r, hr, rfl⟩ := List.mem_map.mp hc
    exact Nat.le_of_not_lt fun hlt => hno ⟨r, hr, hlt⟩
  have hsum := List.sum_le_card_nsmul _ 1 hle
  rw [List.length_map, smul_eq_mul, Nat.mul_one] at hsum
  exact absurd h (Nat.not_lt.mpr hsum)

/-- One DPU less. -/
theorem reduced_set {before : List Rank} (h : Reduced before ranks) (hi : ranks[i]? = some r) (hmem : (ci, line) ∈ r.enabled)
    (hmany : 1 < r.enabled.card) : Reduced before (ranks.set i (r.dpuDisableOneDpu ci line)) := by
  have hmemRank := List.mem_of_getElem? hi
  refine ⟨by rw [List.length_set, h.length], ?_, ?_, ?_⟩
  · intro j r₀ r' hbefore hafter
    rw [List.getElem?_set] at hafter
    split at hafter
    · next hij =>
      subst hij
      split at hafter
      · obtain rfl := Option.some.inj hafter
        rw [dpuDisableOneDpu_enabled]
        exact (Finset.erase_subset _ _).trans (h.sub i r₀ r hbefore hi)
      · exact absurd hafter nofun
    · exact h.sub j r₀ r' hbefore hafter
  · intro r' hr'
    rcases List.mem_or_eq_of_mem_set hr' with hr' | rfl
    · exact h.nonempty r' hr'
    · rw [dpuDisableOneDpu_enabled]
      exact (Finset.one_lt_card_iff_nontrivial.mp hmany).erase_nonempty
  · intro r' hr'
    rcases List.mem_or_eq_of_mem_set hr' with hr' | rfl
    · exact h.agrees r' hr'
    · exact (h.agrees r hmemRank).disable hmem

/-- The loop disables as many DPUs as it is to, and leaves the counts of the ranks. -/
theorem disableLoop_spec {before : List Rank} (n : Nat) (h : Reduced before ranks) (hroom : ranks.length + n ≤ total ranks) :
    ∃ after, disableLoop n ranks = .ok after ∧ Reduced before after ∧ total after + n = total ranks ∧
      after.map Rank.nrDpusEnabled = ranks.map Rank.nrDpusEnabled := by
  induction n generalizing ranks with
  | zero => exact ⟨ranks, rfl, h, rfl, rfl⟩
  | succ n ih =>
    obtain ⟨i, r, ci, line, hi, hmem, hmany, hone⟩ := disableOneDpu_spec h.agrees (exists_many (by omega))
    have htotal := total_set hi (r.dpuDisableOneDpu ci line)
    have hcard : (r.dpuDisableOneDpu ci line).enabled.card + 1 = r.enabled.card := by
      rw [dpuDisableOneDpu_enabled]
      exact Finset.card_erase_add_one hmem
    have hcounts : (ranks.set i (r.dpuDisableOneDpu ci line)).map Rank.nrDpusEnabled = ranks.map Rank.nrDpusEnabled := by
      obtain ⟨hlt, hget⟩ := List.getElem?_eq_some_iff.mp hi
      rw [List.map_set]
      have hlt' : i < (ranks.map Rank.nrDpusEnabled).length := by rwa [List.length_map]
      have hsame : (r.dpuDisableOneDpu ci line).nrDpusEnabled = (ranks.map Rank.nrDpusEnabled)[i] := by
        rw [List.getElem_map, hget]
        rfl
      rw [hsame, List.set_getElem_self hlt']
    obtain ⟨after, hrun, hreduced, hafter, hsame⟩ := ih (reduced_set h hi hmem hmany) (by rw [List.length_set]; omega)
    refine ⟨after, ?_, hreduced, by omega, hsame.trans hcounts⟩
    rw [disableLoop, hone]
    exact hrun

end Run

/-! ## The counts at the end -/

variable (x : Setting)

theorem reduced_refl : Reduced x.ranks x.ranks :=
  ⟨rfl, fun i r r' hr hr' => by rw [Option.some.inj (hr.symm.trans hr')], x.enabled, x.agrees⟩

/-- No assertion fails, and all but the counts of the ranks is as it should be. -/
theorem disableUnusedDpus_spec (hne : x.ranks ≠ []) :
    ∃ ranks, disableUnusedDpus (dpuGetNrDpus x.ranks) x.nrDpus x.ranks = .ok ranks ∧ Reduced x.ranks ranks ∧
      total ranks = x.nrDpus ∧ dpuGetNrDpus ranks = x.nrDpus ∧
      ranks.map Rank.nrDpusEnabled = x.ranks.map Rank.nrDpusEnabled := by
  have hge := x.nrDpus_ge
  have hle := x.nrDpus_le
  obtain ⟨ranks, hrun, hreduced, htotal, hsame⟩ := disableLoop_spec (total x.ranks - x.nrDpus) (reduced_refl x) (by omega)
  have hcount : total ranks = x.nrDpus := by omega
  refine ⟨ranks, ?_, hreduced, hcount, (dpuGetNrDpus_eq hreduced.agrees).trans hcount, hsame⟩
  rw [dpuGetNrDpus_eq x.agrees, disableUnusedDpus, if_neg]
  · exact hrun
  · rintro (hnil | hlt)
    · exact hne hnil
    · exact absurd hle (Nat.not_le.mpr hlt)

/-- The sum of the counts of the ranks. -/
theorem total_of_counted {ranks : List Rank} (h : ∀ r ∈ ranks, r.nrDpusEnabled = r.enabled.card) :
    (ranks.map Rank.nrDpusEnabled).sum = total ranks := by
  rw [total, List.map_congr_left h]

theorem disabling_iff : Disabled x ↔ HoldsWhen x := by
  constructor
  · rintro ⟨ranks, hrun, -, htotal, -, hcounted⟩
    have hne : x.ranks ≠ [] := fun hnil => by
      rw [disableUnusedDpus, if_pos (.inl hnil)] at hrun
      exact absurd hrun nofun
    obtain ⟨ranks', hrun', -, -, -, hsame⟩ := disableUnusedDpus_spec x hne
    obtain rfl : ranks' = ranks := Outcome.ok.inj (hrun'.symm.trans hrun)
    refine ⟨hne, ?_⟩
    rw [← htotal, ← total_of_counted hcounted, hsame, total_of_counted x.counted]
  · rintro ⟨hne, hall⟩
    refine ⟨x.ranks, ?_, reduced_refl x, hall.symm, (dpuGetNrDpus_eq x.agrees).trans hall.symm, x.counted⟩
    rw [dpuGetNrDpus_eq x.agrees, ← hall, disableUnusedDpus, if_neg, Nat.sub_self]
    · rfl
    · rintro (hnil | hlt)
      · exact hne hnil
      · exact Nat.lt_irrefl _ hlt

/-- One interface with two DPUs. -/
def twoDpus : Rank where
  nrCis := 1
  nrDpus := 2
  nrCis_le := by decide
  nrDpus_le := by decide
  sliceInfo _ := ⟨0b11, true⟩
  dpuEnabled _ line := decide (line < 2)
  nrDpusEnabled := 2

/-- One of them is asked for. -/
def oneOfTwo : Setting where
  ranks := [twoDpus]
  nrDpus := 1
  agrees := by
    intro r hr
    obtain rfl := List.mem_singleton.mp hr
    refine ⟨fun ci hci line => ?_, fun ci hci => ?_⟩
    · show (0b11 : Mask).getLsbD line = true ↔ line < 2 ∧ decide (line < 2) = true
      match line with
      | 0 => decide
      | 1 => decide
      | line + 2 =>
        refine ⟨fun h => ?_, fun h => absurd h.1 (by omega)⟩
        have hlt := BitVec.lt_of_getLsbD h
        have hall : ∀ i < 8, 2 ≤ i → (0b11 : Mask).getLsbD i = false := by decide
        rw [hall _ hlt (by omega)] at h
        exact absurd h nofun
    · exact ⟨fun _ line hline => decide_eq_true hline, fun _ => rfl⟩
  counted := by decide
  enabled := by decide
  nrDpus_ge := by decide
  nrDpus_le := by decide

theorem oneOfTwo_count : ¬Disabled oneOfTwo := by
  rw [disabling_iff]
  rintro ⟨-, h⟩
  exact absurd h (by decide)

end DpuBackend.Api.DpuDisabling
