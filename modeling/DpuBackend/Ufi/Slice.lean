import Mathlib.Algebra.BigOperators.Fin
import Mathlib.Logic.Function.Basic

/-
  The masks of the UFI layer and the per-slice information of a rank.

  A mask is eight bits: over the DPUs of a control interface (`dpu_bitfield_t`)
  or over the control interfaces of a rank (`dpu_ci_bitfield_t`). `enabled_dpus`
  and `dpus_per_group` are 32-bit fields that only ever hold such masks.

  The selection functions of `ufi.c` all walk the interfaces of a mask, drop
  those that have nothing to select and retarget the others; they differ in the
  target an interface should get, which is a function here.

  Correspondence (C ↔ Lean):
    `dpu_mask.h`, `__builtin_popcount`          ↔ `dpuMaskOne` .. `dpuMaskCount`
    `CI_MASK_ONE`, `CI_MASK_ON`                 ↔ `dpuMaskOne`, `BitVec.getLsbD`
    `struct dpu_slice_target`                   ↔ `SliceTarget`
    `struct dpu_configuration_slice_info_t`     ↔ `SliceInfo`
    `ci_fill_selected_dpu_mask`                 ↔ `SliceInfo.selectedDpuMask`
    the branches of the `ufi_select_*` loops    ↔ `SliceInfo.allTarget` .. `SliceInfo.dpuEvenDisabledTarget`
-/

namespace DpuBackend.Ufi

abbrev Mask := BitVec 8

/-- `ALL_CIS`. -/
def allCis : Mask := 0xFF#8

def dpuMaskEmpty : Mask := 0

def dpuMaskOne (dpuId : Nat) : Mask := 1#8 <<< dpuId

def dpuMaskAll (nbOfDpus : Nat) : Mask := BitVec.ofNat 8 (2 ^ nbOfDpus - 1)

def dpuMaskSelect (mask : Mask) (dpuId : Nat) : Mask := mask ||| dpuMaskOne dpuId

def dpuMaskUnselect (mask : Mask) (dpuId : Nat) : Mask := mask &&& ~~~dpuMaskOne dpuId

/-- The number of bits set. -/
def dpuMaskCount (mask : Mask) : Nat := (List.range 8).countP fun i => mask.getLsbD i

/-- The mask gathered by a loop `mask |= bit(ci) << ci` over `n` interfaces. -/
def gatherMask (n : Nat) (bit : Nat → Bool) : Mask :=
  (List.range n).foldl (fun mask ci => if bit ci then mask ||| dpuMaskOne ci else mask) 0

theorem mask_ext {m m' : Mask} (h : ∀ i < 8, m.getLsbD i = m'.getLsbD i) : m = m' :=
  BitVec.eq_of_getLsbD_eq fun i hi => h i hi

theorem mask_or_eq_zero {m m' : Mask} : m ||| m' = 0 ↔ m = 0 ∧ m' = 0 := BitVec.or_eq_zero_iff

theorem mask_zero_or (m : Mask) : 0 ||| m = m := BitVec.zero_or

theorem mask_or_zero (m : Mask) : m ||| 0 = m := BitVec.or_zero

@[simp] theorem dpuMaskOne_bit (d i : Nat) : (dpuMaskOne d).getLsbD i = decide (i < 8 ∧ i = d) := by
  simp only [dpuMaskOne, BitVec.getLsbD_shiftLeft, BitVec.getLsbD_one]
  rw [Bool.eq_iff_iff]
  simp only [Bool.and_eq_true, decide_eq_true_eq, Bool.not_eq_true', decide_eq_false_iff_not]
  omega

@[simp] theorem dpuMaskAll_bit (n i : Nat) : (dpuMaskAll n).getLsbD i = decide (i < 8 ∧ i < n) := by
  simp [dpuMaskAll, BitVec.getLsbD_ofNat, Nat.testBit_two_pow_sub_one]

@[simp] theorem dpuMaskSelect_bit (m : Mask) (d i : Nat) :
    (dpuMaskSelect m d).getLsbD i = (m.getLsbD i || decide (i < 8 ∧ i = d)) := by
  simp [dpuMaskSelect]

@[simp] theorem dpuMaskUnselect_bit (m : Mask) (d i : Nat) :
    (dpuMaskUnselect m d).getLsbD i = (m.getLsbD i && !decide (i = d)) := by
  rw [Bool.eq_iff_iff]
  have hlt : m.getLsbD i = true → i < 8 := fun h => BitVec.lt_of_getLsbD h
  simp only [dpuMaskUnselect, BitVec.getLsbD_and, BitVec.getLsbD_not, dpuMaskOne_bit, Bool.and_eq_true,
    decide_eq_true_eq, Bool.not_eq_true', decide_eq_false_iff_not]
  grind

theorem gatherMask_succ (n : Nat) (bit : Nat → Bool) :
    gatherMask (n + 1) bit = if bit n then gatherMask n bit ||| dpuMaskOne n else gatherMask n bit := by
  simp [gatherMask, List.range_succ]

@[simp] theorem gatherMask_bit (n : Nat) (bit : Nat → Bool) (i : Nat) :
    (gatherMask n bit).getLsbD i = (decide (i < 8 ∧ i < n) && bit i) := by
  induction n with
  | zero => simp [gatherMask]
  | succ n ih =>
    rw [gatherMask_succ]
    by_cases hin : i = n
    · subst hin
      cases hb : bit i <;> simp [ih, hb]
    · have hlt : i < n + 1 ↔ i < n := by omega
      split <;> simp [ih, hin, hlt]

theorem dpuMaskCount_eq_card (m : Mask) : dpuMaskCount m = ((Finset.range 8).filter fun i => m.getLsbD i).card := by
  rw [dpuMaskCount, List.countP_eq_length_filter, Finset.card_def, Finset.filter_val, Finset.range_val,
    Multiset.range, Multiset.filter_coe, Multiset.coe_card]
  simp only [Bool.decide_eq_true]

theorem dpuMaskCount_eq_zero {m : Mask} : dpuMaskCount m = 0 ↔ ∀ i < 8, m.getLsbD i = false := by
  simp [dpuMaskCount, List.countP_eq_zero]

/-- Adding a bit that was not set. -/
theorem dpuMaskCount_select {m : Mask} {d : Nat} (hd : d < 8) (h : m.getLsbD d = false) :
    dpuMaskCount (dpuMaskSelect m d) = dpuMaskCount m + 1 := by
  have hinsert : ((Finset.range 8).filter fun i => (dpuMaskSelect m d).getLsbD i)
      = insert d ((Finset.range 8).filter fun i => m.getLsbD i) := by
    ext i
    simp only [Finset.mem_filter, Finset.mem_range, dpuMaskSelect_bit, Bool.or_eq_true, decide_eq_true_eq,
      Finset.mem_insert]
    grind
  rw [dpuMaskCount_eq_card, dpuMaskCount_eq_card, hinsert, Finset.card_insert_of_notMem (by simp [h])]

/-- A mask of the first `n` DPUs with `n` bits set has them all. -/
theorem dpuMaskCount_all {m : Mask} {n : Nat} (hm : ∀ i, m.getLsbD i = true → i < n)
    (h : n ≤ dpuMaskCount m) {i : Nat} (hi : i < n) : m.getLsbD i = true := by
  have hsub : ((Finset.range 8).filter fun i => m.getLsbD i) ⊆ Finset.range n := by
    intro i hi
    exact Finset.mem_range.mpr (hm i (Finset.mem_filter.mp hi).2)
  have heq := Finset.eq_of_subset_of_card_le hsub (by rw [Finset.card_range, ← dpuMaskCount_eq_card]; exact h)
  have hmem : i ∈ (Finset.range 8).filter fun i => m.getLsbD i := heq ▸ Finset.mem_range.mpr hi
  exact (Finset.mem_filter.mp hmem).2

/-! ## Slices -/

/-- `struct dpu_slice_target`. The two identifiers share their storage and are
read only under their own type. -/
inductive SliceTarget where
  | none
  | all
  | dpu (dpuId : Nat)
  | group (groupId : Nat)
  deriving DecidableEq

/-- `DPU_ENABLED_GROUP`. -/
def enabledGroup : Nat := 0

structure SliceInfo where
  structureValue : BitVec 64
  sliceTarget : SliceTarget
  /-- The DPUs whose MRAM mux is recorded on the host side. -/
  hostMuxMramState : Mask
  dpusPerGroup : Nat → Mask
  enabledDpus : Mask
  allDpusAreEnabled : Bool

namespace SliceInfo

variable (info : SliceInfo)

/-- `dpu_set_host_mux_mram_state`. -/
def setHostMux (dpuId : Nat) (set : Bool) : SliceInfo :=
  { info with
    hostMuxMramState :=
      if set then dpuMaskSelect info.hostMuxMramState dpuId else dpuMaskUnselect info.hostMuxMramState dpuId }

/-- `ci_fill_selected_dpu_mask`; `none` is its error. -/
def selectedDpuMask (nrDpus : Nat) : Option Mask :=
  match info.sliceTarget with
  | .all => some (dpuMaskAll nrDpus)
  | .dpu d => some (dpuMaskOne d)
  | .group g => some (info.dpusPerGroup g)
  | .none => none

/-! ### The target each selection function wants, `none` where it drops the interface -/

/-- `ufi_select_all`. A slice that already targets the group of its enabled DPUs
is kept even when it has none. -/
def allTarget : Option SliceTarget :=
  if info.allDpusAreEnabled then some .all
  else if info.sliceTarget = .group enabledGroup then some (.group enabledGroup)
  else if info.enabledDpus ≠ 0 then some (.group enabledGroup)
  else none

/-- `ufi_select_all_even_disabled`. -/
def allEvenDisabledTarget : Option SliceTarget := if info.enabledDpus ≠ 0 then some .all else none

/-- `ufi_select_group`. -/
def groupTarget (group : Nat) : Option SliceTarget :=
  if info.dpusPerGroup group ≠ 0 then some (.group group) else none

/-- `ufi_select_dpu`. -/
def dpuTarget (dpu : Nat) : Option SliceTarget :=
  if info.enabledDpus &&& dpuMaskOne dpu ≠ 0 then some (.dpu dpu) else none

/-- `ufi_select_dpu_even_disabled`. -/
def dpuEvenDisabledTarget (dpu : Nat) : Option SliceTarget :=
  if info.enabledDpus ≠ 0 then some (.dpu dpu) else none

/-- A dropped interface keeps its target. -/
def retarget (want : Option SliceTarget) : SliceInfo :=
  { info with sliceTarget := want.getD info.sliceTarget }

@[simp] theorem retarget_hostMux (want : Option SliceTarget) :
    (info.retarget want).hostMuxMramState = info.hostMuxMramState := rfl
@[simp] theorem retarget_enabled (want : Option SliceTarget) : (info.retarget want).enabledDpus = info.enabledDpus := rfl
@[simp] theorem setHostMux_enabled (d : Nat) (set : Bool) : (info.setHostMux d set).enabledDpus = info.enabledDpus := rfl

@[simp] theorem setHostMux_bit (d : Nat) (set : Bool) (i : Nat) :
    (info.setHostMux d set).hostMuxMramState.getLsbD i =
      if i < 8 ∧ i = d then set else info.hostMuxMramState.getLsbD i := by
  have hlt : info.hostMuxMramState.getLsbD i = true → i < 8 := fun h => BitVec.lt_of_getLsbD h
  rw [Bool.eq_iff_iff]
  cases set <;> simp [setHostMux] <;> grind

end SliceInfo

end DpuBackend.Ufi
