import DpuBackend.Ufi.MatrixTransfer

/-
  The two loops over a matrix, whatever the access.

  Which DPUs a loop visits, and in which order, depends on the matrix and on the DPUs that are
  enabled only: it is a plan that can be read off before. An invariant that holds of the board
  after the visits that have been made, and that each visit keeps, holds after the plan.

  Correspondence (C ↔ Lean):
    the visits of `ci_copy_*_irams_matrix`  ↔ `iramPlan`, `ciCopyIramsMatrix_run`
    the visits of `ci_copy_*_wrams_matrix`  ↔ `wramPlan`, `ciCopyWramsMatrix_run`
-/

namespace DpuBackend.Ufi

open DpuBackend.Lib

/-- The mask and the DPU of an access. -/
abbrev Visit := Mask × Nat

namespace Board

variable {b s : Board} {m : CiMatrix} {ci dpu : Nat} {mask : Mask}

/-! ## The plans -/

/-- An enabled DPU that has a buffer. -/
def wanted (b : Board) (m : CiMatrix) (ci dpu : Nat) : Bool :=
  b.rank.dpuEnabled ci dpu && decide (m.ptr (b.rank.xferIndex ci dpu) ≠ 0)

def iramVisit (b : Board) (m : CiMatrix) (place : Nat × Nat) : Option Visit :=
  if b.wanted m place.1 place.2 then some (dpuMaskOne place.1, place.2) else none

def iramPlan (b : Board) (m : CiMatrix) : List Visit := b.dpus.filterMap (b.iramVisit m)

def wramVisit (b : Board) (m : CiMatrix) (dpu : Nat) : Option Visit :=
  if b.lineMask m dpu = 0 then none else some (b.lineMask m dpu, dpu)

def wramPlan (b : Board) (m : CiMatrix) : List Visit := (List.range b.rank.nrDpus).filterMap (b.wramVisit m)

/-- One of the visits accesses the DPU. -/
def Covers (b : Board) (visits : List Visit) (ci dpu : Nat) : Prop :=
  ci < b.rank.nrCis ∧ ∃ mask, (mask, dpu) ∈ visits ∧ (b.effective mask dpu).getLsbD ci = true

/-- The DPUs of the rank that a call is to access. -/
def Listed (b : Board) (m : CiMatrix) (ci dpu : Nat) : Prop :=
  ci < b.rank.nrCis ∧ dpu < b.rank.nrDpus ∧ b.wanted m ci dpu = true

theorem mem_iramPlan : (mask, dpu) ∈ b.iramPlan m ↔ ∃ ci, b.Listed m ci dpu ∧ dpuMaskOne ci = mask := by
  have hdpus : ∀ place, place ∈ b.dpus ↔ place.1 < b.rank.nrCis ∧ place.2 < b.rank.nrDpus := by
    intro place
    simp only [dpus, List.mem_flatMap, List.mem_map, List.mem_range]
    constructor
    · intro ⟨ci, hci, dpu, hdpu, heq⟩
      rw [← heq]
      exact ⟨hci, hdpu⟩
    · intro ⟨hci, hdpu⟩
      exact ⟨place.1, hci, place.2, hdpu, rfl⟩
  rw [iramPlan, List.mem_filterMap]
  constructor
  · intro ⟨⟨ci, dpu'⟩, hplace, hvisit⟩
    obtain ⟨hci, hdpu⟩ := (hdpus _).mp hplace
    unfold iramVisit at hvisit
    split at hvisit
    · next hwanted =>
      obtain ⟨rfl, rfl⟩ := Prod.mk.inj (Option.some.inj hvisit)
      exact ⟨ci, ⟨hci, hdpu, hwanted⟩, rfl⟩
    · cases hvisit
  · intro ⟨ci, ⟨hci, hdpu, hwanted⟩, hmask⟩
    exact ⟨(ci, dpu), (hdpus _).mpr ⟨hci, hdpu⟩, by rw [iramVisit, if_pos hwanted, hmask]⟩

theorem mem_wramPlan : (mask, dpu) ∈ b.wramPlan m ↔ dpu < b.rank.nrDpus ∧ b.lineMask m dpu ≠ 0 ∧ b.lineMask m dpu = mask := by
  rw [wramPlan, List.mem_filterMap]
  constructor
  · intro ⟨dpu', hrange, hvisit⟩
    unfold wramVisit at hvisit
    split at hvisit
    · cases hvisit
    · next hmask =>
      obtain ⟨hline, rfl⟩ := Prod.mk.inj (Option.some.inj hvisit)
      exact ⟨List.mem_range.mp hrange, hmask, hline⟩
  · intro ⟨hdpu, hmask, hline⟩
    exact ⟨dpu, List.mem_range.mpr hdpu, by rw [wramVisit, if_neg hmask, hline]⟩

theorem lineMask_bit (hcis : b.rank.nrCis ≤ 8) (hci : ci < b.rank.nrCis) :
    (b.lineMask m dpu).getLsbD ci = decide (m.ptr (b.rank.xferIndex ci dpu) ≠ 0) := by
  rw [lineMask, gatherMask_bit, decide_eq_true (by omega), Bool.true_and]

/-- A plan accesses the DPUs that are listed and enabled. -/
theorem covers_iramPlan (hcis : b.rank.nrCis ≤ 8) : b.Covers (b.iramPlan m) ci dpu ↔ b.Listed m ci dpu := by
  constructor
  · intro ⟨hci, mask, hmem, hbit⟩
    obtain ⟨ci', hlisted, rfl⟩ := mem_iramPlan.mp hmem
    rw [effective_bit hcis hci, Bool.and_eq_true, dpuMaskOne_bit, decide_eq_true_eq] at hbit
    rw [hbit.1.2]
    exact hlisted
  · intro hlisted
    have hci : ci < b.rank.nrCis := hlisted.1
    have h8 : ci < 8 := by omega
    have henabled : b.rank.dpuEnabled ci dpu = true := (Bool.and_eq_true _ _ ▸ hlisted.2.2).1
    refine ⟨hci, dpuMaskOne ci, mem_iramPlan.mpr ⟨ci, hlisted, rfl⟩, ?_⟩
    rw [effective_bit hcis hci, dpuMaskOne_bit, henabled, decide_eq_true ⟨h8, rfl⟩]
    rfl

theorem covers_wramPlan (hcis : b.rank.nrCis ≤ 8) : b.Covers (b.wramPlan m) ci dpu ↔ b.Listed m ci dpu := by
  constructor
  · intro ⟨hci, mask, hmem, hbit⟩
    obtain ⟨hdpu, -, rfl⟩ := mem_wramPlan.mp hmem
    rw [effective_bit hcis hci, lineMask_bit hcis hci, Bool.and_comm] at hbit
    exact ⟨hci, hdpu, hbit⟩
  · intro ⟨hci, hdpu, hwanted⟩
    have hbit : (b.effective (b.lineMask m dpu) dpu).getLsbD ci = true := by
      rw [effective_bit hcis hci, lineMask_bit hcis hci, Bool.and_comm]
      exact hwanted
    refine ⟨hci, b.lineMask m dpu, mem_wramPlan.mpr ⟨hdpu, fun hzero => ?_, rfl⟩, hbit⟩
    rw [effective_bit hcis hci, hzero] at hbit
    exact absurd hbit (by simp)

theorem covers_append {visits : List Visit} {dpu' : Nat} :
    b.Covers (visits ++ [(mask, dpu)]) ci dpu' ↔
      b.Covers visits ci dpu' ∨ ci < b.rank.nrCis ∧ dpu' = dpu ∧ (b.effective mask dpu).getLsbD ci = true := by
  constructor
  · intro ⟨hci, mask', hmem, hbit⟩
    obtain hbefore | hlast := List.mem_append.mp hmem
    · exact .inl ⟨hci, mask', hbefore, hbit⟩
    · obtain ⟨rfl, rfl⟩ := Prod.mk.inj (List.mem_singleton.mp hlast)
      exact .inr ⟨hci, rfl, hbit⟩
  · intro h
    obtain ⟨hci, mask', hmem, hbit⟩ | ⟨hci, rfl, hbit⟩ := h
    · exact ⟨hci, mask', List.mem_append_left _ hmem, hbit⟩
    · exact ⟨hci, mask, by simp, hbit⟩

theorem not_covers_nil : ¬b.Covers [] ci dpu := by
  intro ⟨_, _, hmem, _⟩
  cases hmem

theorem mask_of_effective (hcis : b.rank.nrCis ≤ 8) (hci : ci < b.rank.nrCis)
    (hbit : (b.effective mask dpu).getLsbD ci = true) : mask.getLsbD ci = true := by
  rw [effective_bit hcis hci, Bool.and_eq_true] at hbit
  exact hbit.1

/-! ## The loops -/

/-- What a plan is read off from does not change. -/
theorem Alike.xferIndex (h : b.Alike s) : s.rank.xferIndex ci dpu = b.rank.xferIndex ci dpu := by
  rw [CmdRank.xferIndex, CmdRank.xferIndex, h.nrCis]

theorem Alike.dpuEnabled (h : b.Alike s) : s.rank.dpuEnabled ci dpu = b.rank.dpuEnabled ci dpu := by
  rw [CmdRank.dpuEnabled, CmdRank.dpuEnabled, h.enabled]

theorem Alike.lineMask (h : b.Alike s) : s.lineMask m dpu = b.lineMask m dpu := by
  rw [Board.lineMask, Board.lineMask, h.nrCis]
  congr 1
  funext ci
  rw [h.xferIndex]

theorem Alike.effective (h : b.Alike s) : s.effective mask dpu = b.effective mask dpu := by
  simp only [Board.effective, CmdRank.selected, CmdRank.visits, dpuTarget_eq, h.enabled, h.nrCis]

/-- `Good s visits` holds after some visits of a plan, whose buffers are where the array says. -/
structure Sweep (access : Access) (m : CiMatrix) (b : Board) (plan : List Visit) (Good : Board → List Visit → Prop)
    (E : CmdError → Board → Prop) : Prop where
  alike : ∀ s visits, Good s visits → b.Alike s
  visit : ∀ s visits mask dpu array rest, plan = visits ++ (mask, dpu) :: rest → Good s visits →
    (∀ ci < b.rank.nrCis, mask.getLsbD ci = true → array ci = m.ptr (b.rank.xferIndex ci dpu)) →
    Triple (fun t => t = s) (accessDpu access m mask dpu array) (fun _ t => Good t (visits ++ [(mask, dpu)])) E

/-- What a loop returns. -/
def statusAfter (plan : List Visit) (status : Status) : Status := if plan = [] then status else .ok

theorem statusAfter_ok (plan : List Visit) : statusAfter plan .ok = .ok := by
  unfold statusAfter
  split <;> rfl

section Runs

variable {access : Access} {Good : Board → List Visit → Prop} {E : CmdError → Board → Prop} {visits : List Visit}
  {status : Status}

theorem iramDpus_run (h : Sweep access m b (b.iramPlan m) Good E) (stack : Nat → Nat) {places : List (Nat × Nat)}
    (hplan : b.iramPlan m = visits ++ places.filterMap (b.iramVisit m)) :
    Triple (fun s => Good s visits) (iramDpus access m stack places status)
      (fun status' s => Good s (b.iramPlan m) ∧ status' = statusAfter (places.filterMap (b.iramVisit m)) status) E := by
  induction places generalizing visits status with
  | nil =>
    rw [List.filterMap_nil, List.append_nil] at hplan
    exact triple_pure fun s hs => ⟨hplan ▸ hs, rfl⟩
  | cons place rest ih =>
    refine triple_get fun s hs => ?_
    have halike := h.alike s visits hs
    rw [halike.dpuEnabled, halike.xferIndex]
    by_cases hwanted : b.wanted m place.1 place.2 = true
    · have hvisit : b.iramVisit m place = some (dpuMaskOne place.1, place.2) := if_pos hwanted
      obtain ⟨henabled, hbuffer⟩ := Bool.and_eq_true_iff.mp hwanted
      rw [List.filterMap_cons_some hvisit] at hplan ⊢
      rw [if_neg (by rw [henabled]; decide), if_neg (of_decide_eq_true hbuffer)]
      have haccess := h.visit s visits _ _ (Function.update stack place.1 (m.ptr (b.rank.xferIndex place.1 place.2))) _ hplan hs
        fun ci hci hbit => by
          rw [dpuMaskOne_bit, decide_eq_true_eq] at hbit
          rw [hbit.2, Function.update_self]
      refine triple_bind haccess fun _ => (ih ?_).post fun status' t ht => ⟨ht.1, ?_⟩
      · rw [hplan, List.append_assoc]
        rfl
      · rw [ht.2, statusAfter_ok]
        rfl
    · -- a DPU that is disabled or has no buffer is passed over
      have hvisit : b.iramVisit m place = none := if_neg hwanted
      rw [List.filterMap_cons_none hvisit] at hplan ⊢
      have hrest := (@ih visits status hplan).pre fun t (ht : t = s) => ht ▸ hs
      split
      · exact hrest
      · next henabled =>
        split
        · exact hrest
        · next hbuffer =>
          rw [Bool.not_eq_false] at henabled
          rw [Board.wanted, henabled, decide_eq_true hbuffer] at hwanted
          exact absurd rfl hwanted

theorem ciCopyIramsMatrix_run (h : Sweep access m b (b.iramPlan m) Good E) (stack : Nat → Nat) (hstart : Good b []) :
    Triple (fun s => s = b) (ciCopyIramsMatrix access m stack)
      (fun status s => Good s (b.iramPlan m) ∧ status = statusAfter (b.iramPlan m) .uninitialised) E := by
  refine triple_get fun s hs => ?_
  rw [hs]
  exact (iramDpus_run h stack (List.nil_append _).symm).pre fun t ht => ht ▸ hstart

theorem wramLines_run (h : Sweep access m b (b.wramPlan m) Good E) {lines : List Nat} {array : Nat → Nat}
    (hplan : b.wramPlan m = visits ++ lines.filterMap (b.wramVisit m)) :
    Triple (fun s => Good s visits) (wramLines access m lines array status)
      (fun status' s => Good s (b.wramPlan m) ∧ status' = statusAfter (lines.filterMap (b.wramVisit m)) status) E := by
  induction lines generalizing visits status array with
  | nil =>
    rw [List.filterMap_nil, List.append_nil] at hplan
    exact triple_pure fun s hs => ⟨hplan ▸ hs, rfl⟩
  | cons dpu rest ih =>
    refine triple_get fun s hs => ?_
    have halike := h.alike s visits hs
    simp only [halike.lineMask]
    by_cases hmask : b.lineMask m dpu = 0
    · have hvisit : b.wramVisit m dpu = none := if_pos hmask
      rw [List.filterMap_cons_none hvisit] at hplan ⊢
      rw [if_pos hmask]
      exact (ih hplan).pre fun t (ht : t = s) => ht ▸ hs
    · have hvisit : b.wramVisit m dpu = some (b.lineMask m dpu, dpu) := if_neg hmask
      rw [List.filterMap_cons_some hvisit] at hplan ⊢
      rw [if_neg hmask]
      have haccess := h.visit s visits _ _ (s.lineArray m dpu array) _ hplan hs fun ci hci hbit => by
        rw [Board.lineMask, gatherMask_bit, Bool.and_eq_true, decide_eq_true_eq, decide_eq_true_eq] at hbit
        rw [lineArray, halike.nrCis, halike.xferIndex, if_pos ⟨hci, hbit.2⟩]
      refine triple_bind haccess fun _ => (ih ?_).post fun status' t ht => ⟨ht.1, ?_⟩
      · rw [hplan, List.append_assoc]
        rfl
      · rw [ht.2, statusAfter_ok]
        rfl

theorem ciCopyWramsMatrix_run (h : Sweep access m b (b.wramPlan m) Good E) (hstart : Good b []) :
    Triple (fun s => s = b) (ciCopyWramsMatrix access m)
      (fun status s => Good s (b.wramPlan m) ∧ status = statusAfter (b.wramPlan m) .uninitialised) E := by
  refine triple_get fun s hs => ?_
  rw [hs]
  exact (wramLines_run h (List.nil_append _).symm).pre fun t ht => ht ▸ hstart

end Runs

end Board

end DpuBackend.Ufi
