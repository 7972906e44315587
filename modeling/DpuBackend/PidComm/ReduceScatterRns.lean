import DpuBackend.Lib.Loops
import DpuBackend.PidComm.AllToAllPairs

/-
  The threads of the reduce-scatter: which entangled groups each call adds up (hw_dpu_rank.c).

  C ↔ Lean (src/hw/src/rank/hw_dpu_rank.c):
    st_thread_parameter, with size            ↔ ReduceScatter
    thread_reduce_scatter_rns, total_iter_num ↔ ReduceScatter.totalIterNum
    share, remainder, start_point             ↔ share, remainder, startPoint
    the loops over the axes                   ↔ fixedLoop, commLoop
    the loop of the ids, one source each `j`  ↔ sumIdStep, sumIdLoop
    one call of trans_reduce_scatter_cpu_rg   ↔ SumIteration, sumIteration

  There is one iteration for each destination. Its source `j` is the source of that
  iteration of the all-to-all which has the same destination and the source number `j`
  (`pairOf`): the two loops take the numbers apart in the same way, though with source
  and destination exchanged, so what is proved of the ids there holds here
  (`sumIteration_eq`).
-/

namespace DpuBackend.PidComm

open DpuBackend.Lib

/-- What a call of `hw_reduce_scatter_rns` is given. -/
structure ReduceScatter extends AllToAll where
  size : Nat

/-- The locals of the loop of the ids. -/
structure SumIds where
  tempTotalProduct : Nat
  tempCommProduct : Nat
  srcRankId : Nat → Nat
  dstRankId : Nat
  srcRgId : Nat → Nat
  dstRgId : Nat

/-- One call of `trans_reduce_scatter_cpu_rg`. -/
structure SumIteration where
  srcStartOffset : Nat
  dstStartOffset : Nat
  srcRankId : Nat → Nat
  dstRankId : Nat
  srcRgId : Nat → Nat
  dstRgId : Nat

/-- What the loop knows of source `j`. -/
def SumIds.source (ids : SumIds) (j : Nat) : Ids where
  tempTotalProduct := ids.tempTotalProduct
  srcRankId := ids.srcRankId j
  dstRankId := ids.dstRankId
  srcRgId := ids.srcRgId j
  dstRgId := ids.dstRgId

namespace ReduceScatter

variable (a : ReduceScatter)

def totalIterNum : Nat := a.lenProduct a.dimension / 8

/-! ## The share of a thread -/

def share : Nat := a.totalIterNum / a.numThread

def remainder : Nat := a.totalIterNum % a.numThread

def startPoint (threadId : Nat) : Nat :=
  a.share * threadId + if threadId < a.remainder then threadId else a.remainder

def iterCount (threadId : Nat) : Nat := a.share + if threadId < a.remainder then 1 else 0

/-! ## One iteration -/

/-- Position `dim` of source `j`. -/
def sumDigit (iterSrc : Nat → Nat) (tempCommProduct dim j : Nat) : Nat :=
  if a.commAxis dim then
    if dim = 0 then j % (a.axisLen 0 / 8) else j / tempCommProduct % a.axisLen dim
  else iterSrc dim

def sumIdStep (iterSrc iterDst : Nat → Nat) (ids : SumIds) (dim : Nat) : SumIds :=
  let temp :=
    if dim = 1 then u32 (ids.tempTotalProduct * (a.axisLen 0 / 8))
    else if 1 < dim then u32 (ids.tempTotalProduct * a.axisLen (dim - 1))
    else ids.tempTotalProduct
  let digit := a.sumDigit iterSrc ids.tempCommProduct dim
  { tempTotalProduct := temp
    tempCommProduct := if a.commAxis dim then u32 (ids.tempCommProduct * a.groupsOf dim) else ids.tempCommProduct
    srcRankId := fun j => u32 (ids.srcRankId j + u32 (digit j * temp) / 8)
    dstRankId := u32 (ids.dstRankId + u32 (iterDst dim * temp) / 8)
    srcRgId := fun j => u32 (ids.srcRgId j + u32 (digit j * temp))
    dstRgId := u32 (ids.dstRgId + u32 (iterDst dim * temp)) }

def sumIdLoop (iterSrc iterDst : Nat → Nat) : Nat → SumIds
  | 0 => ⟨1, 1, fun _ => 0, 0, fun _ => 0, 0⟩
  | dim + 1 => a.sumIdStep iterSrc iterDst (sumIdLoop iterSrc iterDst dim) dim

/-- The locals behind the loop over the fixed axes. -/
def fixedLocals (i : Nat) : Locals :=
  a.fixedLoop a.dimension
    ⟨u32 (a.totalIterNum * a.totalAxisProduct), u32 (i * a.totalAxisProduct), 0, 0, fun _ => 0, fun _ => 0⟩

def sumIteration (i : Nat) : SumIteration :=
  let l := a.fixedLocals i
  let curIterSrc := l.curRemain % a.totalAxisProduct
  let curIterDst := l.curRemain / a.totalAxisProduct
  let l' := a.commLoop a.dimension { l with curIterSrc := curIterSrc, curIterDst := curIterDst }
  let ids := a.sumIdLoop l'.iterSrc l'.iterDst a.dimension
  { srcStartOffset := u32 (a.srcStartOffset + u32 (curIterDst * a.blockBytes))
    dstStartOffset := u32 (a.dstStartOffset + u32 (curIterSrc * a.blockBytes))
    srcRankId := ids.srcRankId
    dstRankId := ids.dstRankId
    srcRgId := fun j => ids.srcRgId j % 8
    dstRgId := ids.dstRgId % 8 }

/-! ## The threads share the iterations out -/

theorem startPoint_succ (t : Nat) : a.startPoint (t + 1) = a.startPoint t + a.iterCount t := by
  simp only [startPoint, iterCount, Nat.mul_succ]
  split_ifs <;> omega

theorem startPoint_zero : a.startPoint 0 = 0 := by
  simp only [startPoint]
  split_ifs <;> omega

theorem startPoint_numThread : a.startPoint a.numThread = a.totalIterNum := by
  have hmod : a.remainder < a.numThread := Nat.mod_lt _ a.numThread_pos
  have hdiv : a.share * a.numThread + a.remainder = a.totalIterNum := Nat.div_add_mod' _ _
  rw [startPoint, if_neg (by omega)]
  exact hdiv

/-- Together the threads do each iteration once, in order. -/
theorem shares_eq : (List.range a.numThread).flatMap (fun t => List.range' (a.startPoint t) (a.iterCount t)) =
    List.range a.totalIterNum := by
  rw [← startPoint_numThread]
  exact flatMap_shares a.startPoint_zero a.startPoint_succ a.numThread

/-! ## The iteration of a pair -/

/-- The number in the all-to-all of source `j` and the destination of iteration `i`. -/
def pairOf (i j : Nat) : Nat := i / a.commGroups * (a.commGroups * a.commGroups) + (j * a.commGroups + i % a.commGroups)

variable {a} {i j : Nat}

theorem pairOf_parts (hj : j < a.commGroups) : a.pairOf i j / (a.commGroups * a.commGroups) = i / a.commGroups ∧
    a.pairOf i j / a.commGroups % a.commGroups = j ∧ a.pairOf i j % a.commGroups = i % a.commGroups := by
  have hpos : 0 < a.commGroups := Nat.zero_lt_of_lt hj
  have hmod : i % a.commGroups < a.commGroups := Nat.mod_lt _ hpos
  have hsplit : a.pairOf i j = i % a.commGroups + a.commGroups * (j + a.commGroups * (i / a.commGroups)) := by
    rw [pairOf]
    ring
  have hquot : a.pairOf i j / a.commGroups = j + a.commGroups * (i / a.commGroups) := by
    rw [hsplit, Nat.add_mul_div_left _ _ hpos, Nat.div_eq_of_lt hmod, Nat.zero_add]
  refine ⟨?_, ?_, ?_⟩
  · rw [← Nat.div_div_eq_div_mul, hquot, Nat.add_mul_div_left _ _ hpos, Nat.div_eq_of_lt hj, Nat.zero_add]
  · rw [hquot, Nat.add_mul_mod_self_left, Nat.mod_eq_of_lt hj]
  · rw [hsplit, Nat.add_mul_mod_self_left, Nat.mod_mod]

theorem pairOf_lt (hi : i < a.groups) (hj : j < a.commGroups) : a.pairOf i j < a.groups * a.commGroups := by
  have hpos : 0 < a.commGroups := Nat.zero_lt_of_lt hj
  have hfix : i / a.commGroups + 1 ≤ a.fixedGroups := by
    rw [← AllToAll.fixed_mul_comm] at hi
    exact (Nat.div_lt_iff_lt_mul hpos).2 hi
  have hmod : i % a.commGroups < a.commGroups := Nat.mod_lt _ hpos
  have hlow : j * a.commGroups + i % a.commGroups < a.commGroups * a.commGroups := by
    calc j * a.commGroups + i % a.commGroups
        < j * a.commGroups + a.commGroups := Nat.add_lt_add_left hmod _
      _ = (j + 1) * a.commGroups := (Nat.succ_mul _ _).symm
      _ ≤ a.commGroups * a.commGroups := Nat.mul_le_mul_right _ hj
  calc a.pairOf i j
      < i / a.commGroups * (a.commGroups * a.commGroups) + a.commGroups * a.commGroups := Nat.add_lt_add_left hlow _
    _ = (i / a.commGroups + 1) * (a.commGroups * a.commGroups) := (Nat.succ_mul _ _).symm
    _ ≤ a.fixedGroups * (a.commGroups * a.commGroups) := Nat.mul_le_mul_right _ hfix
    _ = a.groups * a.commGroups := by rw [← Nat.mul_assoc, AllToAll.fixed_mul_comm]

/-- The number of the iteration whose destination is at `x`. -/
def numberOf (a : ReduceScatter) (x : Nat → Nat) : Nat := a.fixedPart x * a.commGroups + a.commPart x

section Numbers

variable {s d : Nat → Nat} {j' : Nat}

theorem numberOf_parts (hd : a.IsGroup d) :
    a.numberOf d / a.commGroups = a.fixedPart d ∧ a.numberOf d % a.commGroups = a.commPart d := by
  have hlt := hd.commPart_lt
  have hpos : 0 < a.commGroups := Nat.zero_lt_of_lt hlt
  rw [numberOf, Nat.mul_comm]
  constructor
  · rw [Nat.mul_add_div hpos, Nat.div_eq_of_lt hlt, Nat.add_zero]
  · rw [Nat.mul_add_mod, Nat.mod_eq_of_lt hlt]

theorem numberOf_lt (hd : a.IsGroup d) : a.numberOf d < a.groups := by
  have hfix : a.fixedPart d + 1 ≤ a.fixedGroups := hd.fixedPart_lt
  calc a.numberOf d < a.fixedPart d * a.commGroups + a.commGroups := Nat.add_lt_add_left hd.commPart_lt _
    _ = (a.fixedPart d + 1) * a.commGroups := (Nat.succ_mul _ _).symm
    _ ≤ a.fixedGroups * a.commGroups := Nat.mul_le_mul_right _ hfix
    _ = a.groups := a.fixed_mul_comm

/-- The pairs of the iteration of `d` are those of `d` with each of its sources. -/
theorem pairOf_numberOf (hd : a.IsGroup d) (hagree : a.AgreeOnFixed s d) :
    a.pairOf (a.numberOf d) (a.commPart s) = a.indexOf s d := by
  obtain ⟨hfix, hcomm⟩ := numberOf_parts hd
  rw [pairOf, hfix, hcomm, AllToAll.indexOf, AllToAll.fixedPart_congr hagree]

/-- All pairs of an iteration have its destination. -/
theorem dstOf_pairOf (hj : j < a.commGroups) (hj' : j' < a.commGroups) :
    a.dstOf (a.pairOf i j) = a.dstOf (a.pairOf i j') := by
  obtain ⟨hfix, -, hdst⟩ := pairOf_parts (i := i) hj
  obtain ⟨hfix', -, hdst'⟩ := pairOf_parts (i := i) hj'
  funext k
  rw [AllToAll.dstOf, AllToAll.dstOf, hfix, hfix', hdst, hdst']

end Numbers

/-! ## The ids of one source -/

/-- The position that the loop of the ids takes for source `j`. -/
def sourceOf (a : ReduceScatter) (iterSrc : Nat → Nat) (j k : Nat) : Nat :=
  if a.commAxis k then MixedRadix.digit a.commLen j k else iterSrc k

theorem sumIdLoop_comm (src dst : Nat → Nat) (n : Nat) (hpos : ∀ k < n, 0 < a.commLen k)
    (hfit : MixedRadix.weight a.commLen n < 2 ^ 32) :
    (a.sumIdLoop src dst n).tempCommProduct = MixedRadix.weight a.commLen n := by
  induction n with
  | zero => rfl
  | succ n ih =>
    have hfit' : MixedRadix.weight a.commLen n < 2 ^ 32 :=
      (Nat.le_of_dvd (MixedRadix.weight_pos hpos) (MixedRadix.weight_dvd (Nat.le_succ n))).trans_lt hfit
    have hlow := ih (fun k hk => hpos k (Nat.lt_succ_of_lt hk)) hfit'
    show (if a.commAxis n then u32 ((a.sumIdLoop src dst n).tempCommProduct * a.groupsOf n) else
      (a.sumIdLoop src dst n).tempCommProduct) = _
    rw [MixedRadix.weight_succ, AllToAll.commLen] at hfit ⊢
    rw [hlow]
    split
    · next hcomm =>
      rw [if_pos hcomm] at hfit
      exact Nat.mod_eq_of_lt hfit
    · rw [Nat.mul_one]

/-- With the product that the loop keeps, the position is decoded from `j`. -/
theorem sumDigit_eq (src : Nat → Nat) (n j : Nat) :
    a.sumDigit src (MixedRadix.weight a.commLen n) n j = a.sourceOf src j n := by
  unfold sumDigit sourceOf
  split
  · next hcomm =>
    have hlen : a.commLen n = a.groupsOf n := if_pos hcomm
    rw [MixedRadix.digit, hlen]
    cases n with
    | zero =>
      rw [if_pos rfl, MixedRadix.weight, Nat.div_one]
      rfl
    | succ n =>
      rw [if_neg (Nat.succ_ne_zero n)]
      rfl
  · rfl

/-- For each source the loop is that of the all-to-all. -/
theorem sumIdLoop_source (src dst : Nat → Nat) (n j : Nat) (hpos : ∀ k < n, 0 < a.commLen k)
    (hfit : MixedRadix.weight a.commLen n < 2 ^ 32) :
    (a.sumIdLoop src dst n).source j = a.idLoop (a.sourceOf src j) dst n := by
  induction n with
  | zero => rfl
  | succ n ih =>
    have hfit' : MixedRadix.weight a.commLen n < 2 ^ 32 :=
      (Nat.le_of_dvd (MixedRadix.weight_pos hpos) (MixedRadix.weight_dvd (Nat.le_succ n))).trans_lt hfit
    have hlow : ∀ k < n, 0 < a.commLen k := fun k hk => hpos k (Nat.lt_succ_of_lt hk)
    have hdigit := sumDigit_eq (a := a) src n j
    rw [← sumIdLoop_comm src dst n hlow hfit'] at hdigit
    rw [AllToAll.idLoop, ← ih hlow hfit', sumIdLoop, sumIdStep, AllToAll.idStep, hdigit.symm]
    rfl

theorem idLoop_congr {src src' dst dst' : Nat → Nat} (n : Nat) (hsrc : ∀ k < n, src k = src' k)
    (hdst : ∀ k < n, dst k = dst' k) : a.idLoop src dst n = a.idLoop src' dst' n := by
  induction n with
  | zero => rfl
  | succ n ih =>
    have hlow := ih (fun k hk => hsrc k (Nat.lt_succ_of_lt hk)) fun k hk => hdst k (Nat.lt_succ_of_lt hk)
    rw [AllToAll.idLoop, AllToAll.idLoop, hlow, AllToAll.idStep, AllToAll.idStep, hsrc n (Nat.lt_succ_self n),
      hdst n (Nat.lt_succ_self n)]

/-! ## What an iteration adds up -/

section Iteration

variable (hpos : 0 < a.groups) (hfit : a.Fits)
include hpos hfit

omit hpos in
theorem totalIterNum_eq : a.totalIterNum = a.groups := by
  rw [totalIterNum, AllToAll.lenProduct_eq, AllToAll.axisLen_product, u32, Nat.mod_eq_of_lt hfit.1,
    Nat.mul_div_cancel_left _ (by decide)]

theorem commGroups_lt : a.commGroups < 2 ^ 32 := by
  have hle : a.commGroups ≤ a.groups :=
    Nat.le_of_dvd hpos ⟨a.fixedGroups, by rw [Nat.mul_comm, AllToAll.fixed_mul_comm]⟩
  have hlt : 8 * a.groups < 2 ^ 32 := hfit.1
  omega

/-- Of the number of a destination, the fixed axes and what is left. -/
theorem fixedLocals_spec (hi : i < a.groups) : (a.fixedLocals i).curRemain = i % a.commGroups * a.commGroups ∧
    ∀ k < a.dimension, ¬ a.commAxis k →
      (a.fixedLocals i).iterSrc k = MixedRadix.digit a.fixedLen (i / a.commGroups) k ∧
        (a.fixedLocals i).iterDst k = MixedRadix.digit a.fixedLen (i / a.commGroups) k := by
  have hproduct := hfit.totalAxisProduct_eq hpos
  have hcomm := AllToAll.commGroups_pos hpos
  have hwhole : a.groups * a.commGroups = MixedRadix.weight a.fixedLen a.dimension * (a.commGroups * a.commGroups) := by
    rw [← AllToAll.fixed_mul_comm, AllToAll.fixedGroups, Nat.mul_assoc]
  have hlt : i * a.commGroups < a.groups * a.commGroups := Nat.mul_lt_mul_of_pos_right hi hcomm
  have hnum : u32 (a.totalIterNum * a.totalAxisProduct) =
      MixedRadix.weight a.fixedLen a.dimension * (a.commGroups * a.commGroups) := by
    rw [totalIterNum_eq hfit, hproduct, ← hwhole]
    exact Nat.mod_eq_of_lt hfit.2
  have hstart : u32 (i * a.totalAxisProduct) =
      i * a.commGroups % (MixedRadix.weight a.fixedLen a.dimension * (a.commGroups * a.commGroups)) := by
    rw [hproduct, ← hwhole, Nat.mod_eq_of_lt hlt]
    exact Nat.mod_eq_of_lt (hlt.trans hfit.2)
  obtain ⟨hrem, hfixed⟩ := AllToAll.fixedLoop_spec
    (l := ⟨u32 (a.totalIterNum * a.totalAxisProduct), u32 (i * a.totalAxisProduct), 0, 0, fun _ => 0, fun _ => 0⟩)
    a.dimension (fun k hk => AllToAll.groupsOf_pos hpos hk) hnum hstart
  rw [Nat.mul_mod_mul_right] at hrem
  rw [Nat.mul_div_mul_right _ _ hcomm] at hfixed
  refine ⟨hrem, fun k hk hfix => ⟨(hfixed k).1.trans ?_, (hfixed k).2.trans ?_⟩⟩
  · exact if_pos ⟨hk, hfix⟩
  · exact if_pos ⟨hk, hfix⟩

/-- The iteration of a destination calls with it and, for each `j`, with the source of the pair. -/
theorem sumIteration_eq (hi : i < a.groups) (hj : j < a.commGroups) :
    (a.sumIteration i).srcRankId j = (a.iteration (a.pairOf i j)).srcRankId ∧
      (a.sumIteration i).srcRgId j = (a.iteration (a.pairOf i j)).srcRgId ∧
      (a.sumIteration i).dstRankId = (a.iteration (a.pairOf i j)).dstRankId ∧
      (a.sumIteration i).dstRgId = (a.iteration (a.pairOf i j)).dstRgId := by
  have hcomm := AllToAll.commGroups_pos hpos
  obtain ⟨hrem, hfixed⟩ := fixedLocals_spec hpos hfit hi
  let l : Locals := { a.fixedLocals i with
    curIterSrc := (a.fixedLocals i).curRemain % a.totalAxisProduct
    curIterDst := (a.fixedLocals i).curRemain / a.totalAxisProduct }
  obtain ⟨-, -, hcommLoop⟩ := AllToAll.commLoop_spec (a := a.toAllToAll) a.dimension l
  have hdstNumber : l.curIterDst = i % a.commGroups := by
    show (a.fixedLocals i).curRemain / _ = _
    rw [hrem, hfit.totalAxisProduct_eq hpos, Nat.mul_div_cancel _ hcomm]
  obtain ⟨hpairFix, hpairSrc, hpairDst⟩ := pairOf_parts (i := i) hj
  obtain ⟨hsrc, hdst, -⟩ := AllToAll.iteration_spec hpos hfit (pairOf_lt hi hj)
  have hsame : ∀ k < a.dimension,
      a.sourceOf (a.commLoop a.dimension l).iterSrc j k = (a.iteration (a.pairOf i j)).iterSrc k := by
    intro k hk
    rw [hsrc k hk, AllToAll.srcOf, hpairFix, hpairSrc, sourceOf]
    by_cases hc : a.commAxis k = true
    · rw [if_pos hc, if_pos hc]
    · rw [if_neg hc, if_neg hc, (hcommLoop k).1, if_neg (by simp [hc])]
      exact (hfixed k hk hc).1
  have hsame' : ∀ k < a.dimension, (a.commLoop a.dimension l).iterDst k = (a.iteration (a.pairOf i j)).iterDst k := by
    intro k hk
    rw [hdst k hk, AllToAll.dstOf, hpairFix, hpairDst, (hcommLoop k).2, hdstNumber]
    by_cases hc : a.commAxis k = true
    · rw [if_pos ⟨hk, hc⟩, if_pos hc]
    · rw [if_neg (by simp [hc]), if_neg hc]
      exact (hfixed k hk hc).2
  have hids := sumIdLoop_source (a.commLoop a.dimension l).iterSrc (a.commLoop a.dimension l).iterDst a.dimension j
    (fun k hk => AllToAll.commLen_pos hpos hk) (commGroups_lt hpos hfit)
  rw [idLoop_congr a.dimension hsame hsame'] at hids
  refine ⟨?_, ?_, ?_, ?_⟩
  · exact congrArg Ids.srcRankId hids
  · exact congrArg (fun ids => ids.srcRgId % 8) hids
  · exact congrArg Ids.dstRankId hids
  · exact congrArg (fun ids => ids.dstRgId % 8) hids

/-- It reads the blocks of the destination's number, and writes at the start. -/
theorem sumIteration_offsets (hi : i < a.groups) :
    (a.sumIteration i).srcStartOffset = u32 (a.srcStartOffset + u32 (i % a.commGroups * a.blockBytes)) ∧
      (a.sumIteration i).dstStartOffset = u32 a.dstStartOffset := by
  have hproduct := hfit.totalAxisProduct_eq hpos
  have hcomm := AllToAll.commGroups_pos hpos
  obtain ⟨hrem, -⟩ := fixedLocals_spec hpos hfit hi
  constructor
  · show u32 (a.srcStartOffset + u32 ((a.fixedLocals i).curRemain / a.totalAxisProduct * a.blockBytes)) = _
    rw [hrem, hproduct, Nat.mul_div_cancel _ hcomm]
  · show u32 (a.dstStartOffset + u32 ((a.fixedLocals i).curRemain % a.totalAxisProduct * a.blockBytes)) = _
    rw [hrem, hproduct, Nat.mul_mod_left, Nat.zero_mul, u32, u32, Nat.zero_mod, Nat.add_zero]
    rfl

end Iteration

end ReduceScatter

end DpuBackend.PidComm
