import Mathlib.Data.List.Basic
import Mathlib.Logic.Function.Basic
import DpuBackend.Lib.MixedRadix

/-
  The threads of the all-to-all: which pairs of entangled groups each one copies
  between (hw_dpu_rank.c).

  C ↔ Lean (src/hw/src/rank/hw_dpu_rank.c):
    st_thread_parameter                       ↔ AllToAll
    thread_all_to_all_rns, the two products   ↔ totalIterNum, totalAxisProduct
    share, remainder, start_point             ↔ share, remainder, startPoint
    the loop over the fixed axes, downwards   ↔ fixedLoop
    the loop over the communicating axes      ↔ commLoop
    the loop of the rank and group ids        ↔ idLoop
    one call of trans_all_to_all_rg           ↔ Iteration, iteration
    hw_all_to_all_rns, all threads            ↔ iterations

  An entangled group is eight consecutive DPUs of the x axis, so groups have
  `axis_len[0] / 8` for their first axis. Arithmetic is that of `uint32_t`; where a
  product or sum is below one already formed, it is written without the wrap.
-/

namespace DpuBackend.PidComm

open DpuBackend.Lib

def u32 (x : Nat) : Nat := x % 2 ^ 32

/-- What a call of `hw_all_to_all_rns` is given. The host (`pidcomm_alltoall`) passes
`comm_type` 0 exactly when the x axis communicates. -/
structure AllToAll where
  dimension : Nat
  axisLen : Nat → Nat
  commAxis : Nat → Bool
  commType : Nat
  srcStartOffset : Nat
  dstStartOffset : Nat
  dpuByteLength : Nat
  numThread : Nat
  numThread_pos : 0 < numThread
  commType_eq : commType = if commAxis 0 then 0 else 1
  whole_groups : 8 ∣ axisLen 0
  whole_ranks : 64 ∣ MixedRadix.weight axisLen dimension

/-- The locals of one iteration. -/
structure Locals where
  curIterNum : Nat
  curRemain : Nat
  curIterSrc : Nat
  curIterDst : Nat
  iterSrc : Nat → Nat
  iterDst : Nat → Nat

/-- The locals of the last loop. -/
structure Ids where
  tempTotalProduct : Nat
  srcRankId : Nat
  dstRankId : Nat
  srcRgId : Nat
  dstRgId : Nat
deriving DecidableEq, Repr

/-- One call of `trans_all_to_all_rg`, and the positions it was made for. -/
structure Iteration where
  iterSrc : Nat → Nat
  iterDst : Nat → Nat
  srcStartOffset : Nat
  dstStartOffset : Nat
  srcRankId : Nat
  dstRankId : Nat
  srcRgId : Nat
  dstRgId : Nat

namespace AllToAll

variable (a : AllToAll)

/-- `axis_len[dim]`, or `axis_len[0] / 8` for the first axis. -/
def groupsOf (dim : Nat) : Nat := if dim = 0 then a.axisLen 0 / 8 else a.axisLen dim

/-! ## The products -/

def lenProduct : Nat → Nat
  | 0 => 1
  | i + 1 => u32 (lenProduct i * a.axisLen i)

def commProduct : Nat → Nat
  | 0 => 1
  | i + 1 => if a.commAxis i then u32 (commProduct i * a.axisLen i) else commProduct i

def totalAxisProduct : Nat :=
  if a.commType = 0 then a.commProduct a.dimension / 8 else a.commProduct a.dimension

def totalIterNum : Nat := u32 (a.lenProduct a.dimension / 8 * a.totalAxisProduct)

/-! ## The share of a thread -/

def share : Nat := a.totalIterNum / a.numThread

def remainder : Nat := a.totalIterNum % a.numThread

def startPoint (threadId : Nat) : Nat :=
  a.share * threadId + if threadId < a.remainder then threadId else a.remainder

def iterCount (threadId : Nat) : Nat := a.share + if threadId < a.remainder then 1 else 0

/-! ## One iteration -/

def fixedStep (l : Locals) (dim : Nat) : Locals :=
  if a.commAxis dim then l
  else
    let num := l.curIterNum / a.groupsOf dim
    let digit := l.curRemain / num
    { l with
      curIterNum := num
      iterSrc := Function.update l.iterSrc dim digit
      iterDst := Function.update l.iterDst dim digit
      curRemain := l.curRemain - digit * num }

/-- `for (int dim = (int)dimension - 1; dim >= 0; dim--)` -/
def fixedLoop : Nat → Locals → Locals
  | 0, l => l
  | dim + 1, l => fixedLoop dim (a.fixedStep l dim)

def commStep (l : Locals) (dim : Nat) : Locals :=
  if a.commAxis dim then
    { l with
      iterSrc := Function.update l.iterSrc dim (l.curIterSrc % a.groupsOf dim)
      iterDst := Function.update l.iterDst dim (l.curIterDst % a.groupsOf dim)
      curIterSrc := l.curIterSrc / a.groupsOf dim
      curIterDst := l.curIterDst / a.groupsOf dim }
  else l

/-- `for (uint32_t dim = 0; dim < dimension; dim++)` -/
def commLoop : Nat → Locals → Locals
  | 0, l => l
  | dim + 1, l => a.commStep (commLoop dim l) dim

def idStep (iterSrc iterDst : Nat → Nat) (ids : Ids) (dim : Nat) : Ids :=
  let temp :=
    if dim = 1 then u32 (ids.tempTotalProduct * (a.axisLen 0 / 8))
    else if 1 < dim then u32 (ids.tempTotalProduct * a.axisLen (dim - 1))
    else ids.tempTotalProduct
  { tempTotalProduct := temp
    srcRankId := u32 (ids.srcRankId + u32 (iterSrc dim * temp) / 8)
    dstRankId := u32 (ids.dstRankId + u32 (iterDst dim * temp) / 8)
    srcRgId := u32 (ids.srcRgId + u32 (iterSrc dim * temp))
    dstRgId := u32 (ids.dstRgId + u32 (iterDst dim * temp)) }

def idLoop (iterSrc iterDst : Nat → Nat) : Nat → Ids
  | 0 => ⟨1, 0, 0, 0, 0⟩
  | dim + 1 => a.idStep iterSrc iterDst (idLoop iterSrc iterDst dim) dim

/-- The blocks of a call: eight when the x axis communicates, else one. -/
def blockBytes : Nat := (if a.commType = 0 then 8 else 1) * a.dpuByteLength

/-- Every entry of the two arrays is written, by one of the first two loops, before the
last one reads it: what an iteration finds in them does not matter. -/
def iteration (i : Nat) : Iteration :=
  let l := a.fixedLoop a.dimension ⟨a.totalIterNum, i, 0, 0, fun _ => 0, fun _ => 0⟩
  let curIterSrc := l.curRemain / a.totalAxisProduct
  let curIterDst := l.curRemain % a.totalAxisProduct
  let l' := a.commLoop a.dimension { l with curIterSrc := curIterSrc, curIterDst := curIterDst }
  let ids := a.idLoop l'.iterSrc l'.iterDst a.dimension
  { iterSrc := l'.iterSrc
    iterDst := l'.iterDst
    srcStartOffset := u32 (a.srcStartOffset + u32 (curIterDst * a.blockBytes))
    dstStartOffset := u32 (a.dstStartOffset + u32 (curIterSrc * a.blockBytes))
    srcRankId := ids.srcRankId
    dstRankId := ids.dstRankId
    srcRgId := ids.srcRgId % 8
    dstRgId := ids.dstRgId % 8 }

/-- `thread_all_to_all_rns` -/
def threadIterations (threadId : Nat) : List Iteration :=
  (List.range' (a.startPoint threadId) (a.iterCount threadId)).map a.iteration

/-- The calls of all threads. -/
def iterations : List Iteration := (List.range a.numThread).flatMap a.threadIterations

/-! ## The products are what they stand for -/

/-- How many entangled groups there are. -/
def groups : Nat := MixedRadix.weight a.groupsOf a.dimension

/-- How many ranks: eight groups each. -/
def nrRanks : Nat := MixedRadix.weight a.axisLen a.dimension / 64

/-- The radix of a fixed axis; 1 where the axis communicates. -/
def fixedLen (dim : Nat) : Nat := if a.commAxis dim then 1 else a.groupsOf dim

/-- The radix of a communicating axis; 1 where the axis is fixed. -/
def commLen (dim : Nat) : Nat := if a.commAxis dim then a.groupsOf dim else 1

/-- With how many groups a group communicates, itself included. -/
def commGroups : Nat := MixedRadix.weight a.commLen a.dimension

def fixedGroups : Nat := MixedRadix.weight a.fixedLen a.dimension

theorem fixed_mul_comm : a.fixedGroups * a.commGroups = a.groups := by
  rw [fixedGroups, commGroups, ← MixedRadix.weight_mul]
  apply MixedRadix.weight_congr
  intro k _
  by_cases h : a.commAxis k = true <;> simp [fixedLen, commLen, h]

theorem dimension_pos : 0 < a.dimension := by
  by_contra h
  have hdim : a.dimension = 0 := Nat.eq_zero_of_not_pos h
  have h64 := a.whole_ranks
  rw [hdim, MixedRadix.weight] at h64
  exact absurd h64 (by decide)

theorem weight_axisLen (n : Nat) : MixedRadix.weight a.axisLen (n + 1) = 8 * MixedRadix.weight a.groupsOf (n + 1) := by
  induction n with
  | zero =>
    have hfirst : 8 * (a.axisLen 0 / 8) = a.axisLen 0 := Nat.mul_div_cancel' a.whole_groups
    simp [MixedRadix.weight, groupsOf, hfirst]
  | succ n ih =>
    have hlen : a.groupsOf (n + 1) = a.axisLen (n + 1) := if_neg (Nat.succ_ne_zero n)
    rw [MixedRadix.weight_succ, ih, MixedRadix.weight_succ _ (n + 1), hlen, Nat.mul_assoc]

theorem axisLen_product : MixedRadix.weight a.axisLen a.dimension = 8 * a.groups := by
  obtain ⟨n, hn⟩ := Nat.exists_eq_succ_of_ne_zero a.dimension_pos.ne'
  rw [groups, hn, weight_axisLen]

theorem eight_dvd_groups : 8 ∣ a.groups := by
  have h64 := a.whole_ranks
  rw [axisLen_product] at h64
  omega

theorem nrRanks_eq : a.nrRanks * 8 = a.groups := by
  have h8 := a.eight_dvd_groups
  rw [nrRanks, axisLen_product]
  omega

theorem lenProduct_eq (n : Nat) : a.lenProduct n = u32 (MixedRadix.weight a.axisLen n) := by
  induction n with
  | zero => rfl
  | succ n ih => rw [lenProduct, ih, MixedRadix.weight, u32, u32, u32, Nat.mod_mul_mod]

/-- The product of the communicating axes. -/
theorem commProduct_eq (n : Nat) :
    a.commProduct n = u32 (MixedRadix.weight (fun k => if a.commAxis k then a.axisLen k else 1) n) := by
  induction n with
  | zero => rfl
  | succ n ih =>
    rw [commProduct, ih, MixedRadix.weight]
    split
    · rw [u32, u32, u32, Nat.mod_mul_mod]
    · rw [Nat.mul_one]

theorem weight_commAxis (n : Nat) :
    MixedRadix.weight (fun k => if a.commAxis k then a.axisLen k else 1) (n + 1) =
      (if a.commType = 0 then 8 else 1) * MixedRadix.weight a.commLen (n + 1) := by
  induction n with
  | zero =>
    have hfirst : 8 * (a.axisLen 0 / 8) = a.axisLen 0 := Nat.mul_div_cancel' a.whole_groups
    rw [a.commType_eq]
    by_cases h : a.commAxis 0 = true <;> simp [MixedRadix.weight, commLen, groupsOf, h, hfirst]
  | succ n ih =>
    have hlen : a.groupsOf (n + 1) = a.axisLen (n + 1) := if_neg (Nat.succ_ne_zero n)
    rw [MixedRadix.weight_succ, ih, MixedRadix.weight_succ _ (n + 1), commLen, hlen, Nat.mul_assoc]

theorem commAxis_product : MixedRadix.weight (fun k => if a.commAxis k then a.axisLen k else 1) a.dimension =
    (if a.commType = 0 then 8 else 1) * a.commGroups := by
  obtain ⟨n, hn⟩ := Nat.exists_eq_succ_of_ne_zero a.dimension_pos.ne'
  rw [commGroups, hn, weight_commAxis]

theorem totalAxisProduct_le : a.totalAxisProduct ≤ a.commGroups := by
  have hcomm := a.commProduct_eq a.dimension
  rw [commAxis_product] at hcomm
  rw [totalAxisProduct, hcomm, u32]
  split
  · exact Nat.div_le_of_le_mul (Nat.mod_le _ _)
  · exact (Nat.mod_le _ _).trans (Nat.one_mul _).le

/-- The two products fit. -/
def Fits : Prop := 8 * a.groups < 2 ^ 32 ∧ a.groups * a.commGroups < 2 ^ 32

instance : Decidable a.Fits := inferInstanceAs (Decidable (_ ∧ _))

variable {a}

theorem Fits.totalAxisProduct_eq (h : a.Fits) (hpos : 0 < a.groups) : a.totalAxisProduct = a.commGroups := by
  have hle : a.commGroups ≤ a.groups := Nat.le_of_dvd hpos ⟨a.fixedGroups, by rw [Nat.mul_comm, fixed_mul_comm]⟩
  have hcomm := a.commProduct_eq a.dimension
  have hfit := h.1
  rw [commAxis_product] at hcomm
  rw [totalAxisProduct, hcomm, u32]
  split
  · rw [Nat.mod_eq_of_lt (by omega)]
    omega
  · rw [Nat.one_mul, Nat.mod_eq_of_lt (by omega)]

theorem Fits.totalIterNum_eq (h : a.Fits) (hpos : 0 < a.groups) : a.totalIterNum = a.groups * a.commGroups := by
  rw [totalIterNum, h.totalAxisProduct_eq hpos, lenProduct_eq, axisLen_product, u32, u32, Nat.mod_eq_of_lt h.1,
    Nat.mul_div_cancel_left _ (by decide), Nat.mod_eq_of_lt h.2]

/-- Where a product wraps, there are too few iterations. -/
theorem totalIterNum_lt (h : ¬ a.Fits) (hpos : 0 < a.groups) : a.totalIterNum < a.groups * a.commGroups := by
  have hcomm : 0 < a.commGroups := by
    apply Nat.pos_of_ne_zero
    intro hzero
    rw [← fixed_mul_comm, hzero, Nat.mul_zero] at hpos
    exact absurd hpos (Nat.lt_irrefl 0)
  have hlen : a.lenProduct a.dimension = 8 * a.groups % 2 ^ 32 := by rw [lenProduct_eq, axisLen_product, u32]
  by_cases hbig : 2 ^ 32 ≤ a.groups * a.commGroups
  · exact (Nat.mod_lt _ (by decide)).trans_le hbig
  · have hwrap : 2 ^ 32 ≤ 8 * a.groups := by
      by_contra hfit
      exact h ⟨Nat.lt_of_not_le hfit, Nat.lt_of_not_le hbig⟩
    have hless : a.lenProduct a.dimension / 8 < a.groups := by
      have hmod : 8 * a.groups % 2 ^ 32 < 2 ^ 32 := Nat.mod_lt _ (by decide)
      rw [hlen]
      omega
    calc a.totalIterNum ≤ a.lenProduct a.dimension / 8 * a.totalAxisProduct := Nat.mod_le _ _
      _ ≤ a.lenProduct a.dimension / 8 * a.commGroups := Nat.mul_le_mul_left _ a.totalAxisProduct_le
      _ < a.groups * a.commGroups := Nat.mul_lt_mul_of_pos_right hless hcomm

theorem totalIterNum_zero (h : a.groups = 0) : a.totalIterNum = 0 := by
  rw [totalIterNum, lenProduct_eq, axisLen_product, h]
  simp [u32]

/-! ## The threads share the iterations out -/

variable (a)

theorem startPoint_succ (t : Nat) : a.startPoint (t + 1) = a.startPoint t + a.iterCount t := by
  simp only [startPoint, iterCount, Nat.mul_succ]
  split_ifs <;> omega

theorem shares_upTo (m : Nat) :
    (List.range m).flatMap (fun t => List.range' (a.startPoint t) (a.iterCount t)) = List.range (a.startPoint m) := by
  induction m with
  | zero =>
    have hstart : a.startPoint 0 = 0 := by
      simp only [startPoint]
      split_ifs <;> omega
    rw [hstart]
    rfl
  | succ m ih =>
    rw [List.range_succ, List.flatMap_append, ih, List.flatMap_singleton, startPoint_succ, List.range_eq_range',
      List.range_eq_range', ← List.range'_append_1, Nat.zero_add]

/-- Together the threads do each iteration once, in order. -/
theorem iterations_eq : a.iterations = (List.range a.totalIterNum).map a.iteration := by
  have hend : a.startPoint a.numThread = a.totalIterNum := by
    have hmod : a.remainder < a.numThread := Nat.mod_lt _ a.numThread_pos
    have hdiv : a.share * a.numThread + a.remainder = a.totalIterNum := Nat.div_add_mod' _ _
    simp only [startPoint]
    rw [if_neg (by omega)]
    exact hdiv
  have hall := a.shares_upTo a.numThread
  rw [hend] at hall
  rw [← hall, List.map_flatMap]
  rfl

/-! ## What the loops compute -/

section Loops

variable {a} {l : Locals} {q v : Nat}

/-- The fixed axes are decoded from `v / q`; what is left is `v % q`. -/
theorem fixedLoop_spec (n : Nat) (hpos : ∀ k < n, 0 < a.groupsOf k)
    (hnum : l.curIterNum = MixedRadix.weight a.fixedLen n * q)
    (hremain : l.curRemain = v % (MixedRadix.weight a.fixedLen n * q)) :
    (a.fixedLoop n l).curRemain = v % q ∧
      ∀ k, (a.fixedLoop n l).iterSrc k =
          (if k < n ∧ ¬ a.commAxis k then MixedRadix.digit a.fixedLen (v / q) k else l.iterSrc k) ∧
        (a.fixedLoop n l).iterDst k =
          (if k < n ∧ ¬ a.commAxis k then MixedRadix.digit a.fixedLen (v / q) k else l.iterDst k) := by
  induction n generalizing l with
  | zero =>
    rw [MixedRadix.weight, Nat.one_mul] at hremain
    refine ⟨hremain, fun k => ?_⟩
    simp [fixedLoop]
  | succ n ih =>
    have hlow : ∀ k < n, 0 < a.groupsOf k := fun k hk => hpos k (Nat.lt_succ_of_lt hk)
    by_cases hcomm : a.commAxis n = true
    · -- the axis is skipped and its radix is 1
      have hweight : MixedRadix.weight a.fixedLen (n + 1) = MixedRadix.weight a.fixedLen n := by
        rw [MixedRadix.weight_succ, fixedLen, if_pos hcomm, Nat.mul_one]
      rw [hweight] at hnum hremain
      obtain ⟨hrem, hiter⟩ := ih hlow hnum hremain
      have hskip : a.fixedLoop (n + 1) l = a.fixedLoop n l := by
        rw [fixedLoop, fixedStep, if_pos hcomm]
      rw [hskip]
      refine ⟨hrem, fun k => ?_⟩
      have hiff : (k < n ∧ ¬ a.commAxis k) ↔ (k < n + 1 ∧ ¬ a.commAxis k) := by
        constructor
        · intro h
          exact ⟨Nat.lt_succ_of_lt h.1, h.2⟩
        · intro h
          obtain hlt | rfl := Nat.lt_succ_iff_lt_or_eq.1 h.1
          · exact ⟨hlt, h.2⟩
          · exact absurd hcomm h.2
      simp only [← hiff]
      exact hiter k
    · have hlen : a.fixedLen n = a.groupsOf n := if_neg hcomm
      obtain ⟨hdigit, hrest⟩ := MixedRadix.remainder_step v q (r := a.fixedLen) (k := n)
      have hnum' : l.curIterNum / a.groupsOf n = MixedRadix.weight a.fixedLen n * q := by
        rw [hnum, MixedRadix.weight_succ, hlen, Nat.mul_right_comm,
          Nat.mul_div_cancel _ (hpos n (Nat.lt_succ_self n))]
      have hstep : a.fixedStep l n = { l with
          curIterNum := MixedRadix.weight a.fixedLen n * q
          iterSrc := Function.update l.iterSrc n (MixedRadix.digit a.fixedLen (v / q) n)
          iterDst := Function.update l.iterDst n (MixedRadix.digit a.fixedLen (v / q) n)
          curRemain := v % (MixedRadix.weight a.fixedLen n * q) } := by
        rw [fixedStep, if_neg hcomm]
        simp only [hnum', hremain, hdigit]
        rw [← hdigit, hrest]
      rw [fixedLoop, hstep]
      obtain ⟨hrem, hiter⟩ := ih (l := { l with
          curIterNum := MixedRadix.weight a.fixedLen n * q
          iterSrc := Function.update l.iterSrc n (MixedRadix.digit a.fixedLen (v / q) n)
          iterDst := Function.update l.iterDst n (MixedRadix.digit a.fixedLen (v / q) n)
          curRemain := v % (MixedRadix.weight a.fixedLen n * q) }) hlow rfl rfl
      refine ⟨hrem, fun k => ?_⟩
      rw [(hiter k).1, (hiter k).2]
      obtain hlt | rfl | hgt := Nat.lt_trichotomy k n
      · simp [hlt, Nat.lt_succ_of_lt hlt, Nat.ne_of_lt hlt]
      · simp [hcomm]
      · simp [Nat.not_lt_of_gt hgt, Nat.not_lt_of_ge (Nat.succ_le_of_lt hgt), Nat.ne_of_gt hgt]

/-- The communicating axes are decoded from the two quotients. -/
theorem commLoop_spec (n : Nat) (l : Locals) :
    (a.commLoop n l).curIterSrc = l.curIterSrc / MixedRadix.weight a.commLen n ∧
      (a.commLoop n l).curIterDst = l.curIterDst / MixedRadix.weight a.commLen n ∧
      ∀ k, (a.commLoop n l).iterSrc k =
          (if k < n ∧ a.commAxis k then MixedRadix.digit a.commLen l.curIterSrc k else l.iterSrc k) ∧
        (a.commLoop n l).iterDst k =
          (if k < n ∧ a.commAxis k then MixedRadix.digit a.commLen l.curIterDst k else l.iterDst k) := by
  induction n with
  | zero => simp [commLoop, MixedRadix.weight]
  | succ n ih =>
    obtain ⟨hsrc, hdst, hiter⟩ := ih
    by_cases hcomm : a.commAxis n = true
    · have hlen : a.groupsOf n = a.commLen n := (if_pos hcomm).symm
      obtain ⟨hdigitSrc, hnextSrc⟩ := MixedRadix.quotient_step l.curIterSrc n (r := a.commLen)
      obtain ⟨hdigitDst, hnextDst⟩ := MixedRadix.quotient_step l.curIterDst n (r := a.commLen)
      simp only [commLoop, commStep, hcomm, if_true, hlen, hsrc, hdst, hdigitSrc, hdigitDst, hnextSrc, hnextDst,
        true_and]
      intro k
      obtain hlt | rfl | hgt := Nat.lt_trichotomy k n
      · simp [hiter, hlt, Nat.lt_succ_of_lt hlt, Nat.ne_of_lt hlt]
      · simp [hcomm]
      · simp [hiter, Nat.not_lt_of_gt hgt, Nat.not_lt_of_ge (Nat.succ_le_of_lt hgt), Nat.ne_of_gt hgt]
    · have hweight : MixedRadix.weight a.commLen (n + 1) = MixedRadix.weight a.commLen n := by
        rw [MixedRadix.weight_succ, commLen, if_neg hcomm, Nat.mul_one]
      have hskip : a.commLoop (n + 1) l = a.commLoop n l := by rw [commLoop, commStep, if_neg hcomm]
      rw [hskip, hweight]
      refine ⟨hsrc, hdst, fun k => ?_⟩
      obtain hlt | rfl | hgt := Nat.lt_trichotomy k n
      · simp [hiter, hlt, Nat.lt_succ_of_lt hlt]
      · simp [hiter, hcomm]
      · simp [hiter, Nat.not_lt_of_gt hgt, Nat.not_lt_of_ge (Nat.succ_le_of_lt hgt)]

/-- The product that the last loop keeps is the weight of the axis. -/
theorem idStep_temp (src dst : Nat → Nat) (ids : Ids) (n : Nat) (hfit : MixedRadix.weight a.groupsOf n < 2 ^ 32)
    (htemp : ids.tempTotalProduct = MixedRadix.weight a.groupsOf (n - 1)) :
    (a.idStep src dst ids n).tempTotalProduct = MixedRadix.weight a.groupsOf n := by
  cases n with
  | zero => exact htemp
  | succ n =>
    have hwrap : u32 (MixedRadix.weight a.groupsOf n * a.groupsOf n) = MixedRadix.weight a.groupsOf (n + 1) :=
      Nat.mod_eq_of_lt hfit
    rw [Nat.add_sub_cancel] at htemp
    cases n with
    | zero => rw [← hwrap, ← htemp]; rfl
    | succ n => rw [← hwrap, ← htemp]; rfl

/-- The ids are the quotients axis by axis, and the whole position before its residue. -/
theorem idLoop_spec {src dst : Nat → Nat} (n : Nat) (hfit : MixedRadix.weight a.groupsOf n < 2 ^ 32)
    (hsrc : ∀ k < n, src k < a.groupsOf k) (hdst : ∀ k < n, dst k < a.groupsOf k) :
    a.idLoop src dst n =
      { tempTotalProduct := MixedRadix.weight a.groupsOf (n - 1)
        srcRankId := MixedRadix.quotients a.groupsOf src n
        dstRankId := MixedRadix.quotients a.groupsOf dst n
        srcRgId := MixedRadix.value a.groupsOf src n
        dstRgId := MixedRadix.value a.groupsOf dst n } := by
  induction n with
  | zero => rfl
  | succ n ih =>
    have hpos : ∀ k < n + 1, 0 < a.groupsOf k := fun k hk => Nat.zero_lt_of_lt (hsrc k hk)
    have hfit' : MixedRadix.weight a.groupsOf n < 2 ^ 32 :=
      (Nat.le_of_dvd (MixedRadix.weight_pos hpos) (MixedRadix.weight_dvd (Nat.le_succ n))).trans_lt hfit
    have hids := ih hfit' (fun k hk => hsrc k (Nat.lt_succ_of_lt hk)) fun k hk => hdst k (Nat.lt_succ_of_lt hk)
    have htemp := idStep_temp src dst (a.idLoop src dst n) n hfit' (by rw [hids])
    have hstep : a.idStep src dst (a.idLoop src dst n) n =
        { tempTotalProduct := (a.idStep src dst (a.idLoop src dst n) n).tempTotalProduct
          srcRankId := u32 ((a.idLoop src dst n).srcRankId +
            u32 (src n * (a.idStep src dst (a.idLoop src dst n) n).tempTotalProduct) / 8)
          dstRankId := u32 ((a.idLoop src dst n).dstRankId +
            u32 (dst n * (a.idStep src dst (a.idLoop src dst n) n).tempTotalProduct) / 8)
          srcRgId := u32 ((a.idLoop src dst n).srcRgId +
            u32 (src n * (a.idStep src dst (a.idLoop src dst n) n).tempTotalProduct))
          dstRgId := u32 ((a.idLoop src dst n).dstRgId +
            u32 (dst n * (a.idStep src dst (a.idLoop src dst n) n).tempTotalProduct)) } := rfl
    -- no product or sum here exceeds the position itself
    have hvalSrc : MixedRadix.value a.groupsOf src n + src n * MixedRadix.weight a.groupsOf n < 2 ^ 32 :=
      (MixedRadix.value_lt hsrc).trans hfit
    have hvalDst : MixedRadix.value a.groupsOf dst n + dst n * MixedRadix.weight a.groupsOf n < 2 ^ 32 :=
      (MixedRadix.value_lt hdst).trans hfit
    have hquoSrc := MixedRadix.quotients_residues a.groupsOf src n
    have hquoDst := MixedRadix.quotients_residues a.groupsOf dst n
    rw [idLoop, hstep, htemp, hids]
    simp only [u32, MixedRadix.quotients, MixedRadix.value, Nat.add_sub_cancel, Ids.mk.injEq, true_and]
    refine ⟨?_, ?_, ?_, ?_⟩ <;> omega

end Loops

end AllToAll

end DpuBackend.PidComm
