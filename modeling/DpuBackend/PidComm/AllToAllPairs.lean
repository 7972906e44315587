import Mathlib.Data.Finset.Card
import Mathlib.Data.List.Range
import DpuBackend.PidComm.AllToAllRns

/-
  The all-to-all decomposition — one iteration for each pair of groups.

  C ↔ Lean (src/hw/src/rank/hw_dpu_rank.c):
    iter_src, iter_dst                        ↔ srcOf, dstOf (of an iteration's number)
    src_rank_id * 8 + src_rg_id               ↔ linearIndex
    comm_dpu_set->list.ranks                  ↔ ranks below nrRanks
    what the loops are for                    ↔ Decomposition

  The decode of an iteration's number is right for all shapes (`indexOf`). The ids are
  not: `iter * temp_total_product / 8` is floored axis by axis, `% 8` is taken of the
  sum. `decomposition_iff` says for which shapes the two agree.
-/

namespace DpuBackend.PidComm.AllToAll

open DpuBackend.Lib

variable (a : AllToAll)

/-! ## What the decomposition is for -/

/-- The position of an entangled group, axis by axis. -/
def IsGroup (x : Nat → Nat) : Prop := ∀ k < a.dimension, x k < a.groupsOf k

/-- The two are in one communication group. -/
def AgreeOnFixed (s d : Nat → Nat) : Prop := ∀ k < a.dimension, ¬ a.commAxis k → s k = d k

def Same (x y : Nat → Nat) : Prop := ∀ k < a.dimension, x k = y k

def linearIndex (x : Nat → Nat) : Nat := MixedRadix.value a.groupsOf x a.dimension

/-- Two calls do not write the same bytes of a group. -/
def Apart (it it' : Iteration) : Prop :=
  it.dstRankId = it'.dstRankId → it.dstRgId = it'.dstRgId →
    it.dstStartOffset + a.blockBytes ≤ it'.dstStartOffset ∨ it'.dstStartOffset + a.blockBytes ≤ it.dstStartOffset

structure Decomposition : Prop where
  each : ∀ s d, a.IsGroup s → a.IsGroup d → a.AgreeOnFixed s d →
    ∃! i : Nat, ∃ it : Iteration, a.iterations[i]? = some it ∧ a.Same it.iterSrc s ∧ a.Same it.iterDst d
  only : ∀ it ∈ a.iterations, a.IsGroup it.iterSrc ∧ a.IsGroup it.iterDst ∧ a.AgreeOnFixed it.iterSrc it.iterDst
  linear : ∀ it ∈ a.iterations, it.srcRankId * 8 + it.srcRgId = a.linearIndex it.iterSrc ∧
    it.dstRankId * 8 + it.dstRgId = a.linearIndex it.iterDst
  ranks : ∀ it ∈ a.iterations, it.srcRankId < a.nrRanks ∧ it.dstRankId < a.nrRanks
  blocks : a.dstStartOffset + a.commGroups * a.blockBytes ≤ 2 ^ 32 → a.iterations.Pairwise a.Apart

/-! ## The number of a pair -/

def srcOf (i k : Nat) : Nat :=
  if a.commAxis k then MixedRadix.digit a.commLen (i / a.commGroups % a.commGroups) k
  else MixedRadix.digit a.fixedLen (i / (a.commGroups * a.commGroups)) k

def dstOf (i k : Nat) : Nat :=
  if a.commAxis k then MixedRadix.digit a.commLen (i % a.commGroups) k
  else MixedRadix.digit a.fixedLen (i / (a.commGroups * a.commGroups)) k

/-- The communicating part of a position. -/
def commPart (x : Nat → Nat) : Nat :=
  MixedRadix.value a.commLen (fun k => if a.commAxis k then x k else 0) a.dimension

/-- The fixed part of a position. -/
def fixedPart (x : Nat → Nat) : Nat :=
  MixedRadix.value a.fixedLen (fun k => if a.commAxis k then 0 else x k) a.dimension

def indexOf (s d : Nat → Nat) : Nat :=
  a.fixedPart s * (a.commGroups * a.commGroups) + (a.commPart s * a.commGroups + a.commPart d)

variable {a} {s d x y : Nat → Nat} {i j : Nat}

theorem IsGroup.comm (h : a.IsGroup x) : ∀ k < a.dimension, (if a.commAxis k then x k else 0) < a.commLen k := by
  intro k hk
  unfold commLen
  split
  · exact h k hk
  · exact Nat.one_pos

theorem IsGroup.fixed (h : a.IsGroup x) : ∀ k < a.dimension, (if a.commAxis k then 0 else x k) < a.fixedLen k := by
  intro k hk
  unfold fixedLen
  split
  · exact Nat.one_pos
  · exact h k hk

theorem IsGroup.commPart_lt (h : a.IsGroup x) : a.commPart x < a.commGroups := MixedRadix.value_lt h.comm

theorem IsGroup.fixedPart_lt (h : a.IsGroup x) : a.fixedPart x < a.fixedGroups := MixedRadix.value_lt h.fixed

theorem commPart_congr (h : a.Same x y) : a.commPart x = a.commPart y := by
  apply MixedRadix.value_congr
  intro k hk
  simp only [h k hk]

theorem fixedPart_congr (h : a.AgreeOnFixed x y) : a.fixedPart x = a.fixedPart y := by
  apply MixedRadix.value_congr
  intro k hk
  by_cases hcomm : a.commAxis k = true
  · simp only [hcomm, if_true]
  · simp only [if_neg hcomm, h k hk hcomm]

theorem Same.agree (h : a.Same x y) : a.AgreeOnFixed x y := fun k hk _ => h k hk

theorem indexOf_congr {s' d' : Nat → Nat} (hs : a.Same s s') (hd : a.Same d d') :
    a.indexOf s d = a.indexOf s' d' := by
  rw [indexOf, indexOf, commPart_congr hs, commPart_congr hd, fixedPart_congr hs.agree]

theorem indexOf_lt (hs : a.IsGroup s) (hd : a.IsGroup d) : a.indexOf s d < a.groups * a.commGroups := by
  have hlow : a.commPart s * a.commGroups + a.commPart d < a.commGroups * a.commGroups := by
    have hs' : a.commPart s + 1 ≤ a.commGroups := hs.commPart_lt
    have hd' := hd.commPart_lt
    calc a.commPart s * a.commGroups + a.commPart d
        < a.commPart s * a.commGroups + a.commGroups := Nat.add_lt_add_left hd' _
      _ = (a.commPart s + 1) * a.commGroups := (Nat.succ_mul _ _).symm
      _ ≤ a.commGroups * a.commGroups := Nat.mul_le_mul_right _ hs'
  have hfix : a.fixedPart s + 1 ≤ a.fixedGroups := hs.fixedPart_lt
  calc a.indexOf s d
      < a.fixedPart s * (a.commGroups * a.commGroups) + a.commGroups * a.commGroups := Nat.add_lt_add_left hlow _
    _ = (a.fixedPart s + 1) * (a.commGroups * a.commGroups) := (Nat.succ_mul _ _).symm
    _ ≤ a.fixedGroups * (a.commGroups * a.commGroups) := Nat.mul_le_mul_right _ hfix
    _ = a.groups * a.commGroups := by rw [← Nat.mul_assoc, fixed_mul_comm]

/-- The three parts of a pair's number. -/
theorem indexOf_parts (hs : a.IsGroup s) (hd : a.IsGroup d) :
    a.indexOf s d / (a.commGroups * a.commGroups) = a.fixedPart s ∧
      a.indexOf s d / a.commGroups % a.commGroups = a.commPart s ∧ a.indexOf s d % a.commGroups = a.commPart d := by
  have hs' := hs.commPart_lt
  have hd' := hd.commPart_lt
  have hpos : 0 < a.commGroups := Nat.zero_lt_of_lt hd'
  have hsplit : a.indexOf s d = a.commPart d + a.commGroups * (a.commPart s + a.commGroups * a.fixedPart s) := by
    rw [indexOf]
    ring
  have hquot : a.indexOf s d / a.commGroups = a.commPart s + a.commGroups * a.fixedPart s := by
    rw [hsplit, Nat.add_mul_div_left _ _ hpos, Nat.div_eq_of_lt hd', Nat.zero_add]
  refine ⟨?_, ?_, ?_⟩
  · rw [← Nat.div_div_eq_div_mul, hquot, Nat.add_mul_div_left _ _ hpos, Nat.div_eq_of_lt hs', Nat.zero_add]
  · rw [hquot, Nat.add_mul_mod_self_left, Nat.mod_eq_of_lt hs']
  · rw [hsplit, Nat.add_mul_mod_self_left, Nat.mod_eq_of_lt hd']

theorem srcOf_indexOf (hs : a.IsGroup s) (hd : a.IsGroup d) : a.Same (a.srcOf (a.indexOf s d)) s := by
  intro k hk
  obtain ⟨hfix, hsrc, -⟩ := indexOf_parts hs hd
  unfold srcOf
  rw [hfix, hsrc]
  split
  · next hcomm => rw [commPart, MixedRadix.digit_value hs.comm hk, if_pos hcomm]
  · next hcomm => rw [fixedPart, MixedRadix.digit_value hs.fixed hk, if_neg hcomm]

theorem dstOf_indexOf (hs : a.IsGroup s) (hd : a.IsGroup d) (hagree : a.AgreeOnFixed s d) :
    a.Same (a.dstOf (a.indexOf s d)) d := by
  intro k hk
  obtain ⟨hfix, -, hdst⟩ := indexOf_parts hs hd
  unfold dstOf
  rw [hfix, hdst]
  split
  · next hcomm => rw [commPart, MixedRadix.digit_value hd.comm hk, if_pos hcomm]
  · next hcomm => rw [fixedPart_congr hagree, fixedPart, MixedRadix.digit_value hd.fixed hk, if_neg hcomm]

theorem agree_of (i : Nat) : a.AgreeOnFixed (a.srcOf i) (a.dstOf i) := by
  intro k _ hcomm
  rw [srcOf, dstOf, if_neg hcomm, if_neg hcomm]

theorem commPart_eq {v : Nat} (hx : ∀ k < a.dimension, a.commAxis k → x k = MixedRadix.digit a.commLen v k)
    (hv : v < a.commGroups) : a.commPart x = v := by
  have hdigits : ∀ k < a.dimension, (if a.commAxis k then x k else 0) = MixedRadix.digit a.commLen v k := by
    intro k hk
    by_cases hcomm : a.commAxis k = true
    · rw [if_pos hcomm, hx k hk hcomm]
    · rw [if_neg hcomm, MixedRadix.digit, commLen, if_neg hcomm, Nat.mod_one]
  rw [commPart, MixedRadix.value_congr hdigits, MixedRadix.value_digit]
  exact Nat.mod_eq_of_lt hv

theorem fixedPart_eq {v : Nat} (hx : ∀ k < a.dimension, ¬ a.commAxis k → x k = MixedRadix.digit a.fixedLen v k)
    (hv : v < a.fixedGroups) : a.fixedPart x = v := by
  have hdigits : ∀ k < a.dimension, (if a.commAxis k then 0 else x k) = MixedRadix.digit a.fixedLen v k := by
    intro k hk
    by_cases hcomm : a.commAxis k = true
    · rw [if_pos hcomm, MixedRadix.digit, fixedLen, if_pos hcomm, Nat.mod_one]
    · rw [if_neg hcomm, hx k hk hcomm]
  rw [fixedPart, MixedRadix.value_congr hdigits, MixedRadix.value_digit]
  exact Nat.mod_eq_of_lt hv

section Positive

variable (hpos : 0 < a.groups)
include hpos

theorem groupsOf_pos {k : Nat} (hk : k < a.dimension) : 0 < a.groupsOf k := by
  apply Nat.pos_of_ne_zero
  intro hzero
  have := MixedRadix.weight_zero_of hk hzero
  exact absurd this hpos.ne'

theorem commGroups_pos : 0 < a.commGroups := by
  apply Nat.pos_of_ne_zero
  intro hzero
  rw [← fixed_mul_comm, hzero, Nat.mul_zero] at hpos
  exact absurd hpos (Nat.lt_irrefl 0)

theorem commLen_pos {k : Nat} (hk : k < a.dimension) : 0 < a.commLen k := by
  unfold commLen
  split
  · exact groupsOf_pos hpos hk
  · exact Nat.one_pos

theorem fixedLen_pos {k : Nat} (hk : k < a.dimension) : 0 < a.fixedLen k := by
  unfold fixedLen
  split
  · exact Nat.one_pos
  · exact groupsOf_pos hpos hk

theorem digit_lt_groupsOf {k : Nat} (hk : k < a.dimension) (u v : Nat) :
    (if a.commAxis k then MixedRadix.digit a.commLen u k else MixedRadix.digit a.fixedLen v k) < a.groupsOf k := by
  split
  · next hcomm =>
    have hlt := MixedRadix.digit_lt (v := u) (commLen_pos hpos hk)
    rwa [commLen, if_pos hcomm] at hlt
  · next hcomm =>
    have hlt := MixedRadix.digit_lt (v := v) (fixedLen_pos hpos hk)
    rwa [fixedLen, if_neg hcomm] at hlt

theorem isGroup_srcOf (i : Nat) : a.IsGroup (a.srcOf i) := fun _ hk => digit_lt_groupsOf hpos hk _ _

theorem isGroup_dstOf (i : Nat) : a.IsGroup (a.dstOf i) := fun _ hk => digit_lt_groupsOf hpos hk _ _

theorem commPart_srcOf (i : Nat) : a.commPart (a.srcOf i) = i / a.commGroups % a.commGroups :=
  commPart_eq (fun k _ hcomm => by rw [srcOf, if_pos hcomm]) (Nat.mod_lt _ (commGroups_pos hpos))

theorem commPart_dstOf (i : Nat) : a.commPart (a.dstOf i) = i % a.commGroups :=
  commPart_eq (fun k _ hcomm => by rw [dstOf, if_pos hcomm]) (Nat.mod_lt _ (commGroups_pos hpos))

theorem fixedPart_srcOf (hi : i < a.groups * a.commGroups) :
    a.fixedPart (a.srcOf i) = i / (a.commGroups * a.commGroups) := by
  have hcomm := commGroups_pos hpos
  have hlt : i / (a.commGroups * a.commGroups) < a.fixedGroups := by
    rw [Nat.div_lt_iff_lt_mul (Nat.mul_pos hcomm hcomm), ← Nat.mul_assoc, fixed_mul_comm]
    exact hi
  exact fixedPart_eq (fun k _ hfix => by rw [srcOf, if_neg hfix]) hlt

/-- A number is that of the pair it decodes to. -/
theorem indexOf_of (hi : i < a.groups * a.commGroups) : a.indexOf (a.srcOf i) (a.dstOf i) = i := by
  rw [indexOf, fixedPart_srcOf hpos hi, commPart_srcOf hpos, commPart_dstOf hpos, ← Nat.div_div_eq_div_mul]
  have hlow := Nat.div_add_mod' (i / a.commGroups) a.commGroups
  calc i / a.commGroups / a.commGroups * (a.commGroups * a.commGroups) +
        (i / a.commGroups % a.commGroups * a.commGroups + i % a.commGroups)
      = (i / a.commGroups / a.commGroups * a.commGroups + i / a.commGroups % a.commGroups) * a.commGroups +
          i % a.commGroups := by ring
    _ = i := by rw [hlow, Nat.div_add_mod']

/-- Pairs and numbers correspond. -/
theorem eq_of_same (hi : i < a.groups * a.commGroups) (hj : j < a.groups * a.commGroups)
    (hsrc : a.Same (a.srcOf i) (a.srcOf j)) (hdst : a.Same (a.dstOf i) (a.dstOf j)) : i = j := by
  rw [← indexOf_of hpos hi, ← indexOf_of hpos hj]
  exact indexOf_congr hsrc hdst

end Positive

/-! ## What an iteration does -/

/-- The call of a number: its pair, and the block of the destination. -/
theorem iteration_spec (hpos : 0 < a.groups) (hfit : a.Fits) (hi : i < a.groups * a.commGroups) :
    a.Same (a.iteration i).iterSrc (a.srcOf i) ∧ a.Same (a.iteration i).iterDst (a.dstOf i) ∧
      (a.iteration i).dstStartOffset =
        u32 (a.dstStartOffset + u32 (i / a.commGroups % a.commGroups * a.blockBytes)) := by
  have hproduct := hfit.totalAxisProduct_eq hpos
  have hnum : a.totalIterNum = MixedRadix.weight a.fixedLen a.dimension * (a.commGroups * a.commGroups) := by
    rw [hfit.totalIterNum_eq hpos, ← fixed_mul_comm, fixedGroups, Nat.mul_assoc]
  have hstart : i = i % (MixedRadix.weight a.fixedLen a.dimension * (a.commGroups * a.commGroups)) := by
    rw [← hnum, hfit.totalIterNum_eq hpos, Nat.mod_eq_of_lt hi]
  obtain ⟨hrem, hfixed⟩ := fixedLoop_spec (l := ⟨a.totalIterNum, i, 0, 0, fun _ => 0, fun _ => 0⟩) a.dimension
    (fun k hk => groupsOf_pos hpos hk) hnum hstart
  have hquot : i % (a.commGroups * a.commGroups) / a.commGroups = i / a.commGroups % a.commGroups :=
    Nat.mod_mul_right_div_self ..
  have hmod : i % (a.commGroups * a.commGroups) % a.commGroups = i % a.commGroups := Nat.mod_mul_right_mod ..
  let l := a.fixedLoop a.dimension ⟨a.totalIterNum, i, 0, 0, fun _ => 0, fun _ => 0⟩
  obtain ⟨-, -, hcomm⟩ := commLoop_spec (a := a) a.dimension
    { l with curIterSrc := l.curRemain / a.totalAxisProduct, curIterDst := l.curRemain % a.totalAxisProduct }
  refine ⟨?_, ?_, ?_⟩
  · intro k hk
    apply (hcomm k).1.trans
    show (if k < a.dimension ∧ a.commAxis k then MixedRadix.digit a.commLen (l.curRemain / a.totalAxisProduct) k
      else l.iterSrc k) = a.srcOf i k
    rw [hrem, hproduct, hquot, (hfixed k).1, srcOf]
    by_cases hc : a.commAxis k = true <;> simp [hk, hc]
  · intro k hk
    apply (hcomm k).2.trans
    show (if k < a.dimension ∧ a.commAxis k then MixedRadix.digit a.commLen (l.curRemain % a.totalAxisProduct) k
      else l.iterDst k) = a.dstOf i k
    rw [hrem, hproduct, hmod, (hfixed k).2, dstOf]
    by_cases hc : a.commAxis k = true <;> simp [hk, hc]
  · show u32 (a.dstStartOffset + u32 (l.curRemain / a.totalAxisProduct * a.blockBytes)) = _
    rw [hrem, hproduct, hquot]

theorem IsGroup.of_same (h : a.IsGroup y) (hxy : a.Same x y) : a.IsGroup x := fun k hk => by
  rw [hxy k hk]
  exact h k hk

theorem linearIndex_lt (h : a.IsGroup x) : a.linearIndex x < a.groups := MixedRadix.value_lt h

/-- The ids of a call that is between two groups. -/
theorem iteration_ids (hfit : a.Fits) (hsrc : a.IsGroup (a.iteration i).iterSrc)
    (hdst : a.IsGroup (a.iteration i).iterDst) :
    (a.iteration i).srcRankId = MixedRadix.quotients a.groupsOf (a.iteration i).iterSrc a.dimension ∧
      (a.iteration i).dstRankId = MixedRadix.quotients a.groupsOf (a.iteration i).iterDst a.dimension ∧
      (a.iteration i).srcRgId = a.linearIndex (a.iteration i).iterSrc % 8 ∧
      (a.iteration i).dstRgId = a.linearIndex (a.iteration i).iterDst % 8 := by
  have hsmall : MixedRadix.weight a.groupsOf a.dimension < 2 ^ 32 := by
    have hlt : 8 * a.groups < 2 ^ 32 := hfit.1
    rw [groups] at hlt
    omega
  have hids := idLoop_spec a.dimension hsmall hsrc hdst
  refine ⟨?_, ?_, ?_, ?_⟩
  · exact congrArg Ids.srcRankId hids
  · exact congrArg Ids.dstRankId hids
  · exact congrArg (fun ids => ids.srcRgId % 8) hids
  · exact congrArg (fun ids => ids.dstRgId % 8) hids

/-! ## When the decomposition is right -/

variable (a)

/-- The weight of each axis divides 8 or is a multiple of it. -/
def NoCarry : Prop := ∀ k < a.dimension, MixedRadix.Even8 (MixedRadix.weight a.groupsOf k)

instance : Decidable a.NoCarry := inferInstanceAs (Decidable (∀ k < a.dimension, _))

variable {a}

theorem getElem?_iterations {it : Iteration} (i : Nat) :
    a.iterations[i]? = some it ↔ i < a.totalIterNum ∧ a.iteration i = it := by
  rw [iterations_eq, List.getElem?_map]
  by_cases h : i < a.totalIterNum
  · simp [h]
  · simp [h]

theorem mem_iterations {it : Iteration} : it ∈ a.iterations ↔ ∃ i < a.totalIterNum, a.iteration i = it := by
  rw [iterations_eq, List.mem_map]
  simp only [List.mem_range]

section Sufficient

variable (hpos : 0 < a.groups) (hfit : a.Fits)
include hpos hfit

theorem isGroup_iteration (hi : i < a.totalIterNum) :
    a.IsGroup (a.iteration i).iterSrc ∧ a.IsGroup (a.iteration i).iterDst := by
  rw [hfit.totalIterNum_eq hpos] at hi
  obtain ⟨hsrc, hdst, -⟩ := iteration_spec hpos hfit hi
  exact ⟨(isGroup_srcOf hpos i).of_same hsrc, (isGroup_dstOf hpos i).of_same hdst⟩

theorem each_of (hs : a.IsGroup s) (hd : a.IsGroup d) (hagree : a.AgreeOnFixed s d) :
    ∃! i : Nat, ∃ it : Iteration, a.iterations[i]? = some it ∧ a.Same it.iterSrc s ∧ a.Same it.iterDst d := by
  have hnum := hfit.totalIterNum_eq hpos
  have hi := indexOf_lt hs hd
  obtain ⟨hsrc, hdst, -⟩ := iteration_spec hpos hfit hi
  have hsrc' := srcOf_indexOf hs hd
  have hdst' := dstOf_indexOf hs hd hagree
  refine ⟨a.indexOf s d, ⟨_, (getElem?_iterations _).2 ⟨hnum ▸ hi, rfl⟩, ?_, ?_⟩, ?_⟩
  · exact fun k hk => (hsrc k hk).trans (hsrc' k hk)
  · exact fun k hk => (hdst k hk).trans (hdst' k hk)
  · intro j ⟨it, hget, hsame, hsame'⟩
    obtain ⟨hj, rfl⟩ := (getElem?_iterations j).1 hget
    rw [hnum] at hj
    obtain ⟨hsrcj, hdstj, -⟩ := iteration_spec hpos hfit hj
    apply eq_of_same hpos hj hi
    · exact fun k hk => (hsrcj k hk).symm.trans ((hsame k hk).trans (hsrc' k hk).symm)
    · exact fun k hk => (hdstj k hk).symm.trans ((hsame' k hk).trans (hdst' k hk).symm)

/-- Without a carry, the ids are the position of the group. -/
theorem linear_of (hcarry : a.NoCarry) (hi : i < a.totalIterNum) :
    (a.iteration i).srcRankId * 8 + (a.iteration i).srcRgId = a.linearIndex (a.iteration i).iterSrc ∧
      (a.iteration i).dstRankId * 8 + (a.iteration i).dstRgId = a.linearIndex (a.iteration i).iterDst := by
  obtain ⟨hsrc, hdst⟩ := isGroup_iteration hpos hfit hi
  obtain ⟨hrankSrc, hrankDst, hrgSrc, hrgDst⟩ := iteration_ids hfit hsrc hdst
  rw [hrankSrc, hrankDst, hrgSrc, hrgDst]
  constructor
  · exact (MixedRadix.quotients_value_iff ..).2 (MixedRadix.residues_lt hcarry hsrc)
  · exact (MixedRadix.quotients_value_iff ..).2 (MixedRadix.residues_lt hcarry hdst)

omit hfit in
/-- Of two calls for one destination, each has its own block there. -/
theorem block_ne (hi : i < a.groups * a.commGroups) (hj : j < a.groups * a.commGroups) (hij : i ≠ j)
    (hdst : a.Same (a.dstOf i) (a.dstOf j)) : i / a.commGroups % a.commGroups ≠ j / a.commGroups % a.commGroups := by
  intro hblock
  apply hij
  apply eq_of_same hpos hi hj _ hdst
  intro k hk
  by_cases hcomm : a.commAxis k = true
  · rw [srcOf, srcOf, if_pos hcomm, if_pos hcomm, hblock]
  · rw [agree_of i k hk hcomm, agree_of j k hk hcomm, hdst k hk]

omit hpos hfit in
theorem offset_of {b : Nat} (hroom : a.dstStartOffset + a.commGroups * a.blockBytes ≤ 2 ^ 32)
    (hb : b < a.commGroups) (hbytes : 0 < a.blockBytes) :
    u32 (a.dstStartOffset + u32 (b * a.blockBytes)) = a.dstStartOffset + b * a.blockBytes := by
  have hlast : b * a.blockBytes + a.blockBytes ≤ a.commGroups * a.blockBytes := by
    rw [← Nat.succ_mul]
    exact Nat.mul_le_mul_right _ hb
  have hlt : a.dstStartOffset + b * a.blockBytes < 2 ^ 32 := by omega
  have hlt' : b * a.blockBytes < 2 ^ 32 := by omega
  rw [u32, u32, Nat.mod_eq_of_lt hlt', Nat.mod_eq_of_lt hlt]

/-- Two calls that write one group write different blocks of it. -/
theorem apart_of (hcarry : a.NoCarry) (hroom : a.dstStartOffset + a.commGroups * a.blockBytes ≤ 2 ^ 32)
    (hi : i < a.totalIterNum) (hj : j < a.totalIterNum) (hij : i ≠ j) : a.Apart (a.iteration i) (a.iteration j) := by
  intro hrank hrg
  obtain ⟨-, hlinear⟩ := linear_of hpos hfit hcarry hi
  obtain ⟨-, hlinear'⟩ := linear_of hpos hfit hcarry hj
  have hsame : a.Same (a.iteration i).iterDst (a.iteration j).iterDst := by
    intro k hk
    apply MixedRadix.value_inj (isGroup_iteration hpos hfit hi).2 (isGroup_iteration hpos hfit hj).2 _ hk
    show a.linearIndex (a.iteration i).iterDst = a.linearIndex (a.iteration j).iterDst
    rw [← hlinear, ← hlinear', hrank, hrg]
  rw [hfit.totalIterNum_eq hpos] at hi hj
  obtain ⟨-, hdst, hoffset⟩ := iteration_spec hpos hfit hi
  obtain ⟨-, hdst', hoffset'⟩ := iteration_spec hpos hfit hj
  have hne := block_ne hpos hi hj hij fun k hk => by rw [← hdst k hk, ← hdst' k hk, hsame k hk]
  have hcomm := commGroups_pos hpos
  rw [hoffset, hoffset']
  obtain hzero | hbytes := Nat.eq_zero_or_pos a.blockBytes
  · left
    simp [hzero]
  · rw [offset_of hroom (Nat.mod_lt _ hcomm) hbytes, offset_of hroom (Nat.mod_lt _ hcomm) hbytes]
    obtain hlt | hlt := Nat.lt_or_gt_of_ne hne
    · left
      have hnext := Nat.mul_le_mul_right a.blockBytes (Nat.succ_le_of_lt hlt)
      rw [Nat.succ_mul] at hnext
      omega
    · right
      have hnext := Nat.mul_le_mul_right a.blockBytes (Nat.succ_le_of_lt hlt)
      rw [Nat.succ_mul] at hnext
      omega

theorem decomposition_of (hcarry : a.NoCarry) : a.Decomposition where
  each _ _ hs hd hagree := each_of hpos hfit hs hd hagree
  only it hit := by
    obtain ⟨i, hi, rfl⟩ := mem_iterations.1 hit
    obtain ⟨hsrc, hdst⟩ := isGroup_iteration hpos hfit hi
    rw [hfit.totalIterNum_eq hpos] at hi
    obtain ⟨hsame, hsame', -⟩ := iteration_spec hpos hfit hi
    refine ⟨hsrc, hdst, fun k hk hfix => ?_⟩
    rw [hsame k hk, hsame' k hk, agree_of i k hk hfix]
  linear it hit := by
    obtain ⟨i, hi, rfl⟩ := mem_iterations.1 hit
    exact linear_of hpos hfit hcarry hi
  ranks it hit := by
    obtain ⟨i, hi, rfl⟩ := mem_iterations.1 hit
    obtain ⟨hsrc, hdst⟩ := isGroup_iteration hpos hfit hi
    obtain ⟨hlinear, hlinear'⟩ := linear_of hpos hfit hcarry hi
    have hlt := linearIndex_lt hsrc
    have hlt' := linearIndex_lt hdst
    have hranks := a.nrRanks_eq
    omega
  blocks hroom := by
    rw [iterations_eq, List.pairwise_map]
    apply List.pairwise_lt_range.imp_of_mem
    intro i j hi hj hlt
    exact apart_of hpos hfit hcarry hroom (List.mem_range.1 hi) (List.mem_range.1 hj) (Nat.ne_of_lt hlt)

end Sufficient

/-! ## When it is not -/

/-- The iterations of a right decomposition are at least as many as the pairs. -/
theorem Decomposition.enough (h : a.Decomposition) (hpos : 0 < a.groups) :
    a.groups * a.commGroups ≤ a.totalIterNum := by
  have hcall : ∀ i, ∃ j < a.totalIterNum, a.Same (a.iteration j).iterSrc (a.srcOf i) ∧
      a.Same (a.iteration j).iterDst (a.dstOf i) := by
    intro i
    obtain ⟨j, ⟨it, hget, hsame⟩, -⟩ := h.each _ _ (isGroup_srcOf hpos i) (isGroup_dstOf hpos i) (agree_of i)
    obtain ⟨hj, rfl⟩ := (getElem?_iterations j).1 hget
    exact ⟨j, hj, hsame⟩
  choose call hlt hsrc hdst using hcall
  have hcard := Finset.card_le_card_of_injOn (s := Finset.range (a.groups * a.commGroups))
    (t := Finset.range a.totalIterNum) call (fun i _ => Finset.mem_coe.2 (Finset.mem_range.2 (hlt i))) ?_
  · rwa [Finset.card_range, Finset.card_range] at hcard
  · intro i hi j hj hij
    have hi' : i < a.groups * a.commGroups := Finset.mem_range.1 (Finset.mem_coe.1 hi)
    have hj' : j < a.groups * a.commGroups := Finset.mem_range.1 (Finset.mem_coe.1 hj)
    apply eq_of_same hpos hi' hj'
    · intro k hk
      rw [← hsrc i k hk, ← hsrc j k hk, hij]
    · intro k hk
      rw [← hdst i k hk, ← hdst j k hk, hij]

theorem Decomposition.fits (h : a.Decomposition) (hpos : 0 < a.groups) : a.Fits := by
  by_contra hwrap
  exact absurd (h.enough hpos) (Nat.not_le_of_gt (totalIterNum_lt hwrap hpos))

/-- Every group is the source of some call, so no position may carry. -/
theorem Decomposition.noCarry (h : a.Decomposition) (hpos : 0 < a.groups) : a.NoCarry := by
  have hfit := h.fits hpos
  have hres : ∀ x, (∀ k < a.dimension, x k < a.groupsOf k) → MixedRadix.residues a.groupsOf x a.dimension < 8 := by
    intro x hx
    obtain ⟨j, ⟨it, hget, hsame, -⟩, -⟩ := h.each x x hx hx fun _ _ _ => rfl
    obtain ⟨hj, rfl⟩ := (getElem?_iterations j).1 hget
    obtain ⟨hsrc, hdst⟩ := isGroup_iteration hpos hfit hj
    obtain ⟨hrank, -, hrg, -⟩ := iteration_ids hfit hsrc hdst
    have hlinear := (h.linear _ (mem_iterations.2 ⟨j, hj, rfl⟩)).1
    rw [hrank, hrg] at hlinear
    rw [← MixedRadix.residues_congr hsame]
    exact (MixedRadix.quotients_value_iff ..).1 hlinear
  intro k hk
  exact MixedRadix.even8_of_residues (fun j hj => groupsOf_pos hpos hj) hres (.inr a.eight_dvd_groups) hk.le

/-- An empty axis: no group and no call. -/
theorem decomposition_of_empty (hzero : a.groups = 0) : a.Decomposition := by
  have hnil : a.iterations = [] := by rw [iterations_eq, totalIterNum_zero hzero]; rfl
  have hnone : ∀ x, ¬ a.IsGroup x := by
    intro x hx
    have hlt := linearIndex_lt hx
    rw [hzero] at hlt
    exact Nat.not_lt_zero _ hlt
  constructor
  · intro s _ hs
    exact absurd hs (hnone s)
  all_goals simp [hnil]

/-- The decomposition is right when there is no group at all, or when no product wraps and
the number of groups below each axis divides 8 or is a multiple of 8. -/
theorem decomposition_iff (a : AllToAll) : a.Decomposition ↔ a.groups = 0 ∨ (a.Fits ∧ a.NoCarry) := by
  constructor
  · intro h
    obtain hzero | hpos := Nat.eq_zero_or_pos a.groups
    · exact .inl hzero
    · exact .inr ⟨h.fits hpos, h.noCarry hpos⟩
  · intro h
    obtain hzero | hpos := Nat.eq_zero_or_pos a.groups
    · exact decomposition_of_empty hzero
    · obtain hzero | ⟨hfit, hcarry⟩ := h
      · exact absurd hzero hpos.ne'
      · exact decomposition_of hpos hfit hcarry

/-- 192 DPUs as 24 × 8, the x axis communicating: 3 × 8 groups on 3 ranks. -/
def threeByEight : AllToAll where
  dimension := 2
  axisLen dim := if dim = 0 then 24 else 8
  commAxis dim := dim = 0
  commType := 0
  srcStartOffset := 0
  dstStartOffset := 0
  dpuByteLength := 64
  numThread := 32
  numThread_pos := by decide
  commType_eq := rfl
  whole_groups := by decide
  whole_ranks := by decide

/-- Group (2, 2) is the ninth, the first of rank 1: the ids say rank 0. -/
theorem second_rank_taken_for_first : ¬ threeByEight.Decomposition := by
  intro h
  have hcall : 24 < threeByEight.totalIterNum := by decide
  have hlinear := (h.linear _ (mem_iterations.2 ⟨24, hcall, rfl⟩)).1
  revert hlinear
  decide

end DpuBackend.PidComm.AllToAll
