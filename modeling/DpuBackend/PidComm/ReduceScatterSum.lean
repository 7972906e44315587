import DpuBackend.PidComm.Collective
import DpuBackend.PidComm.HostReduceScatter

/-
  `pidcomm_reduce_scatter` adds up the blocks of each communication group.

  C ↔ Lean (src/api/src/api/dpu_memory.c):
    a call of pidcomm_reduce_scatter          ↔ ReduceScatterCall
    the launch before the host adds up        ↔ Hypercube.reduceScatterBefore, before
    dpu_launch, then dpu_push_xfer            ↔ sumMuxes
    reduce_scatter                            ↔ the threads and the sums of `host`

  DPU `s` first turns each eight of its blocks into the buffer, so that the block for chip
  `c` is at place `c - s`; the host adds place `r` of every source, its chips rotated by
  `r`. So what DPU `d` gets is the sum of the blocks for `d` of all the DPUs of its group,
  each counted once, element by element and modulo the size of an element
  (`reduce_scatter_sums`).
-/

namespace DpuBackend.PidComm

open DpuBackend.Lib DpuBackend.Xeon

namespace Hypercube

variable (cube : Hypercube) (comm : List Nat)

/-- The arguments of a kernel that moves the blocks to the buffer. -/
def intoBuffer (start buffer total i rg a : Nat) (noRotate : Bool) : Arguments where
  startOffset := start
  targetOffset := start + buffer
  totalDataSize := total
  numCommDpu := cube.numCommDpu comm
  eachDpu := i
  noRotate := noRotate
  commType := commType comm
  aLength := a
  numCommRg := rg

/-- What `pidcomm_reduce_scatter` launches on DPU `i`; the last launch finds `num_comm_rg` as the
allocation left it, and does not read it. -/
def reduceScatterBefore (start buffer total i unset : Nat) : Kernel × Arguments :=
  if cube.axisLen 0 = 2 ∧ cube.axisLen 1 = 2 ∧ ((commAxis comm 0 = 0 ∧ commAxis comm 1 = 1 ∧ commAxis comm 2 = 0) ∨
      (commAxis comm 0 = 1 ∧ commAxis comm 1 = 0 ∧ commAxis comm 2 = 1)) then
    (.modifiedReverseClockwise, cube.intoBuffer comm start buffer total i 2 2 false)
  else if cube.axisLen 0 < 8 ∧ cube.numCommRg comm < 8 ∧ 1 < cube.numCommRg comm then
    (.clockwiseShort, cube.intoBuffer comm start buffer total i (cube.numCommRg comm) (cube.axisLen 0) false)
  else if commType comm = 0 then
    (.clockwise, cube.intoBuffer comm start buffer total i (cube.numCommRg comm) (cube.axisLen 0) false)
  else (.clockwise, cube.intoBuffer comm start buffer total i unset (cube.axisLen 0) true)

variable {cube comm}

/-- Which kernel it is, when the x axis holds whole entangled groups. -/
theorem reduceScatterBefore_eq (whole_groups : 8 ∣ cube.axisLen 0) (hdim : 0 < cube.dimension)
    (start buffer total i unset : Nat) : cube.reduceScatterBefore comm start buffer total i unset =
      if commType comm = 0 then
        (.clockwise, cube.intoBuffer comm start buffer total i (cube.numCommRg comm) (cube.axisLen 0) false)
      else (.clockwise, cube.intoBuffer comm start buffer total i unset (cube.axisLen 0) true) := by
  have h8 := eight_le_axisLen whole_groups hdim
  rw [reduceScatterBefore, if_neg (by omega), if_neg (by omega)]

end Hypercube

/-! ## The sources of a DPU -/

namespace HostReduceScatter

/-- The DPU whose block is added for DPU `d` as number `q`. -/
def sourceDpu (h : HostReduceScatter) (d q : Nat) : Nat :=
  8 * h.sourceGroup (h.numberOf (h.groupCoord (d / 8))) (q / nrBlocks h.commType) + h.sourceChip q (d % 8)

variable {h : HostReduceScatter} {d q q' s : Nat}

theorem sourceChip_lt (h : HostReduceScatter) (q c : Nat) : h.sourceChip q c < 8 := mod_eight_lt _

theorem sourceDpu_div (d q : Nat) : h.sourceDpu d q / 8 =
    h.sourceGroup (h.numberOf (h.groupCoord (d / 8))) (q / nrBlocks h.commType) := by
  have hchip := h.sourceChip_lt q (d % 8)
  unfold sourceDpu
  omega

theorem sourceDpu_mod (d q : Nat) : h.sourceDpu d q % 8 = h.sourceChip q (d % 8) := by
  have hchip := h.sourceChip_lt q (d % 8)
  unfold sourceDpu
  omega

theorem nrBlocks_pos : 0 < nrBlocks h.commType := by
  unfold nrBlocks
  split <;> decide

theorem source_lt (hq : q < h.commGroups * nrBlocks h.commType) : q / nrBlocks h.commType < h.commGroups :=
  Nat.div_lt_of_lt_mul (hq.trans_le (Nat.mul_comm _ _).le)

section Members

variable (hd : d < 8 * h.groups)
include hd

theorem groups_pos_of_dpu : 0 < h.groups := by omega

theorem isGroup_dpu : h.IsGroup (h.groupCoord (d / 8)) := AllToAll.isGroup_groupCoord (groups_pos_of_dpu hd) _

/-- All pairs of the iteration have `d`'s group as their destination. -/
theorem dstOf_same {j : Nat} (hj : j < h.commGroups) :
    h.Same (h.dstOf (h.pairOf (h.numberOf (h.groupCoord (d / 8))) j)) (h.groupCoord (d / 8)) := by
  have hgroup := isGroup_dpu hd
  have hself : h.AgreeOnFixed (h.groupCoord (d / 8)) (h.groupCoord (d / 8)) := fun _ _ _ => rfl
  rw [ReduceScatter.dstOf_pairOf hj hgroup.commPart_lt, ReduceScatter.pairOf_numberOf hgroup hself]
  exact AllToAll.dstOf_indexOf hgroup hgroup hself

theorem groupOf_numberOf : h.groupOf (h.numberOf (h.groupCoord (d / 8))) = d / 8 := by
  have hsame := dstOf_same hd (AllToAll.commGroups_pos (groups_pos_of_dpu hd))
  calc h.groupOf (h.numberOf (h.groupCoord (d / 8))) = h.linearIndex (h.groupCoord (d / 8)) :=
        MixedRadix.value_congr hsame
    _ = d / 8 := AllToAll.linearIndex_groupCoord (by omega)

theorem sourceGroup_coord (j : Nat) :
    h.Same (h.groupCoord (h.sourceGroup (h.numberOf (h.groupCoord (d / 8))) j))
      (h.srcOf (h.pairOf (h.numberOf (h.groupCoord (d / 8))) j)) := fun _ hk =>
  MixedRadix.digit_value (AllToAll.isGroup_srcOf (groups_pos_of_dpu hd) _) hk

theorem sourceDpu_lt (q : Nat) : h.sourceDpu d q < 8 * h.groups := by
  have hgroup : h.sourceDpu d q / 8 < h.groups := by
    rw [sourceDpu_div]
    exact AllToAll.linearIndex_lt (AllToAll.isGroup_srcOf (groups_pos_of_dpu hd) _)
  omega

/-- What is added comes from `d`'s group. -/
theorem sourceDpu_same (hq : q < h.commGroups * nrBlocks h.commType) : h.SameGroup (h.sourceDpu d q) d := by
  have hcoord : ∀ k < h.dimension, ¬ h.commAxis k → h.groupCoord (h.sourceDpu d q / 8) k = h.groupCoord (d / 8) k := by
    intro k hk hfix
    rw [sourceDpu_div, sourceGroup_coord hd _ k hk, AllToAll.agree_of _ k hk hfix]
    exact dstOf_same hd (source_lt hq) k hk
  intro k hk hfix
  cases k with
  | zero =>
    have hnr : nrBlocks h.commType = 1 := by
      rw [nrBlocks, h.commType_eq, if_neg hfix]
      rfl
    have hchip : h.sourceChip q (d % 8) = d % 8 := by
      rw [sourceChip, hnr]
      omega
    rw [AllToAll.coord_zero, AllToAll.coord_zero, hcoord 0 hk hfix, sourceDpu_mod, hchip]
  | succ k => rw [AllToAll.coord_succ, AllToAll.coord_succ, hcoord (k + 1) hk hfix]

/-- No DPU is counted twice. -/
theorem sourceDpu_inj (hq : q < h.commGroups * nrBlocks h.commType) (hq' : q' < h.commGroups * nrBlocks h.commType)
    (heq : h.sourceDpu d q = h.sourceDpu d q') : q = q' := by
  have hpos := groups_pos_of_dpu hd
  have hgroup : h.sourceGroup (h.numberOf (h.groupCoord (d / 8))) (q / nrBlocks h.commType) =
      h.sourceGroup (h.numberOf (h.groupCoord (d / 8))) (q' / nrBlocks h.commType) := by
    rw [← sourceDpu_div, ← sourceDpu_div, heq]
  have hchip : h.sourceChip q (d % 8) = h.sourceChip q' (d % 8) := by rw [← sourceDpu_mod, ← sourceDpu_mod, heq]
  have hsame : h.Same (h.srcOf (h.pairOf (h.numberOf (h.groupCoord (d / 8))) (q / nrBlocks h.commType)))
      (h.srcOf (h.pairOf (h.numberOf (h.groupCoord (d / 8))) (q' / nrBlocks h.commType))) := fun k hk =>
    MixedRadix.value_inj (AllToAll.isGroup_srcOf hpos _) (AllToAll.isGroup_srcOf hpos _) hgroup hk
  have hpart := AllToAll.commPart_congr hsame
  rw [AllToAll.commPart_srcOf hpos, AllToAll.commPart_srcOf hpos, (ReduceScatter.pairOf_parts (source_lt hq)).2.1,
    (ReduceScatter.pairOf_parts (source_lt hq')).2.1] at hpart
  have hblock := blockOf_lt (h := h) q
  have hblock' := blockOf_lt (h := h) q'
  have hle : nrBlocks h.commType ≤ 8 := HostAllToAll.nrBlocks_le _
  have hrest : q % nrBlocks h.commType = q' % nrBlocks h.commType := by
    unfold sourceChip at hchip
    omega
  rw [← Nat.div_add_mod q (nrBlocks h.commType), hpart, hrest, Nat.div_add_mod]

/-- Every DPU of the group is counted. -/
theorem sourceDpu_surj (hs : s < 8 * h.groups) (hsame : h.SameGroup s d) :
    ∃ q < h.commGroups * nrBlocks h.commType, h.sourceDpu d q = s := by
  have hpos := groups_pos_of_dpu hd
  have hsGroup : h.IsGroup (h.groupCoord (s / 8)) := AllToAll.isGroup_groupCoord hpos _
  have hpair := ReduceScatter.pairOf_numberOf (isGroup_dpu hd) hsame.agree
  have hsource : h.sourceGroup (h.numberOf (h.groupCoord (d / 8))) (h.commPart (h.groupCoord (s / 8))) = s / 8 := by
    calc h.linearIndex (h.srcOf (h.pairOf _ _)) = h.linearIndex (h.groupCoord (s / 8)) := by
          rw [hpair]
          exact MixedRadix.value_congr (AllToAll.srcOf_indexOf hsGroup (isGroup_dpu hd))
      _ = s / 8 := AllToAll.linearIndex_groupCoord (by omega)
  -- the block whose chips are rotated from `s` to `d`
  obtain ⟨r, hr, hchip⟩ : ∃ r < nrBlocks h.commType, (d % 8 + 8 - r) % 8 = s % 8 := by
    by_cases hx : h.commType = 0
    · refine ⟨(d % 8 + 8 - s % 8) % 8, ?_, by omega⟩
      rw [nrBlocks, if_pos hx]
      exact mod_eight_lt _
    · refine ⟨0, nrBlocks_pos, ?_⟩
      rw [hsame.chip hx]
      omega
  have hj := hsGroup.commPart_lt
  have hdiv : (h.commPart (h.groupCoord (s / 8)) * nrBlocks h.commType + r) / nrBlocks h.commType =
      h.commPart (h.groupCoord (s / 8)) := by
    rw [Nat.mul_comm, Nat.mul_add_div nrBlocks_pos, Nat.div_eq_of_lt hr, Nat.add_zero]
  have hmod : (h.commPart (h.groupCoord (s / 8)) * nrBlocks h.commType + r) % nrBlocks h.commType = r := by
    rw [Nat.mul_comm, Nat.mul_add_mod, Nat.mod_eq_of_lt hr]
  refine ⟨h.commPart (h.groupCoord (s / 8)) * nrBlocks h.commType + r, ?_, ?_⟩
  · calc h.commPart (h.groupCoord (s / 8)) * nrBlocks h.commType + r
        < h.commPart (h.groupCoord (s / 8)) * nrBlocks h.commType + nrBlocks h.commType := Nat.add_lt_add_left hr _
      _ = (h.commPart (h.groupCoord (s / 8)) + 1) * nrBlocks h.commType := (Nat.succ_mul _ _).symm
      _ ≤ h.commGroups * nrBlocks h.commType := Nat.mul_le_mul_right _ hj
  · rw [sourceDpu, hdiv, hsource, sourceChip, hmod, hchip]
    exact Nat.div_add_mod s 8

end Members

end HostReduceScatter

/-! ## The call -/

/-- A call of `pidcomm_reduce_scatter`, with the buffer apart from the target block. -/
structure ReduceScatterCall extends CollectiveCall where
  size : Nat
  size_eq : ElementSize size
  target_aligned : 8 ∣ targetOffset
  target_fits : targetOffset + 1024 * 1024 + blockBytes ≤ 0x4000000
  target_apart : Mem.Apart (startOffset + bufferOffset) (cube.numCommDpu comm * blockBytes) targetOffset blockBytes

instance (a : AllToAll) (s d : Nat) : Decidable (a.SameGroup s d) :=
  inferInstanceAs (Decidable (∀ k < a.dimension, ¬ a.commAxis k → a.coord s k = a.coord d k))

namespace ReduceScatterCall

open CollectiveCall

variable (p : ReduceScatterCall)

theorem host_src_fits : p.startOffset + 1024 * 1024 + p.bufferOffset +
    p.hostArguments.commGroups * p.hostArguments.blockBytes ≤ 0x4000000 := by
  have hfits : p.startOffset + p.bufferOffset + 1024 * 1024 + p.numCommDpu * p.blockBytes ≤ 0x4000000 := p.buffer_fits
  rw [total_eq]
  omega

theorem host_disjoint : Mem.Apart (p.startOffset + p.bufferOffset)
    (p.hostArguments.commGroups * p.hostArguments.blockBytes) p.targetOffset p.blockBytes :=
  p.total_eq.symm ▸ p.target_apart

/-- The arguments of `reduce_scatter`. -/
def host : HostReduceScatter where
  toAllToAll := { p.hostArguments with dstStartOffset := p.targetOffset }
  size := p.size
  bufferOffset := p.bufferOffset
  size_eq := p.size_eq
  src_aligned := p.start_aligned
  dst_aligned := p.target_aligned
  buffer_aligned := p.buffer_aligned
  length_aligned := p.block_aligned
  products_fit := p.products_fit
  src_fits := p.host_src_fits
  dst_fits := p.target_fits
  disjoint := p.host_disjoint

/-- The relocation before, on DPU `i`. -/
def before (sdk : Sdk p.build) (unset i : Nat) (mram mram' : Mem UInt8) : Prop :=
  match p.cube.reduceScatterBefore p.comm p.startOffset p.bufferOffset p.totalDataSize i unset with
  | (k, a) => EndsIn sdk (k.main p.build a) mram mram'

/-- The muxes when the host adds up: the call reads 8 bytes of each buffer before. -/
def sumMuxes (muxes : Muxes) : Muxes := muxes.launch.access

/-- From MRAMs `mrams` the call ends, and with MRAMs of `Q`: the tasklets of the launch may be
interleaved in any way, and so may the words that the threads of the host add up. -/
def Ends (sdk : Sdk p.build) (muxes : Muxes) (unset : Nat → Nat) (mrams : Nat → Mem UInt8)
    (Q : (Nat → Mem UInt8) → Prop) : Prop :=
  (sumMuxes muxes).HostReaches ∧ (∀ t m, p.host.thread t m = BlockGather.run (p.host.threadSums t) m) ∧
    ∃ mrams₁, (∀ i < p.nrDpus, p.before sdk (unset i) i (mrams i) (mrams₁ i)) ∧ (∃ regions, p.Shows regions mrams₁) ∧
      ∀ regions sums mrams₂, p.Shows regions mrams₁ → sums.Perm p.host.allSums →
        p.Shows (BlockGather.run sums regions) mrams₂ → Q mrams₂

/-- The DPUs of the group of `d`. -/
def members (d : Nat) : Finset Nat := (Finset.range p.nrDpus).filter fun s => p.hostArguments.SameGroup s d

/-- Every element of the target of `d` is the sum of that element of block `memberIndex d` over the
DPUs of its group; outside the buffer and the target nothing has changed from the heap on. -/
structure Reduced (mrams mrams' : Nat → Mem UInt8) : Prop where
  sums : ∀ d < p.nrDpus, ∀ e, e * p.size + p.size ≤ p.blockBytes →
    number p.size (mrams' d) (p.build.heap + p.targetOffset + e * p.size) =
      (∑ s ∈ p.members d, number p.size (mrams s)
        (p.build.heap + p.startOffset + p.blockBytes * p.hostArguments.memberIndex d + e * p.size)) % 256 ^ p.size
  others : ∀ i < p.nrDpus, ∀ x, 1024 * 1024 ≤ x → x < 2 ^ 26 →
    Mem.Outside (p.startOffset + p.bufferOffset + 1024 * 1024) p.totalDataSize x →
    Mem.Outside (p.targetOffset + 1024 * 1024) p.blockBytes x →
      mrams' i (p.build.mram + x) = mrams i (p.build.mram + x)

variable {p}

theorem outOfPlace (i rg a : Nat) (noRotate : Bool) : OutOfPlace p.build
    (p.cube.intoBuffer p.comm p.startOffset p.bufferOffset p.totalDataSize i rg a noRotate) p.blockBytes := by
  have hheap := p.heap_eq
  have hstart := p.start_fits
  have hbuffer := p.buffer_fits
  exact {
    blocks_pos := numCommDpu_pos
    total := rfl
    size_dvd := p.block_aligned
    source_dvd := heap_aligned p.start_aligned
    target_dvd := heap_aligned (Nat.dvd_add p.start_aligned p.buffer_aligned)
    source_fits := by
      show p.build.heap + p.startOffset + p.cube.numCommDpu p.comm * p.blockBytes ≤ _
      omega
    target_fits := by
      show p.build.heap + (p.startOffset + p.bufferOffset) + p.cube.numCommDpu p.comm * p.blockBytes ≤ _
      omega
    apart := p.start_apart }

/-- The relocation ends where the kernel knows the group size. -/
theorem before_ends (sdk : Sdk p.build) (hgroup : p.commType = 0 ∨ 8 ∣ p.numCommDpu ∨ p.numCommDpu = 4 ∨ p.numCommDpu = 2)
    (unset i : Nat) (mram : Mem UInt8) : ∃ mram', p.before sdk unset i mram mram' ∧
      Copied (p.build.heap + p.startOffset) (p.build.heap + (p.startOffset + p.bufferOffset)) p.blockBytes p.numCommDpu
        (p.turned i) mram mram' := by
  unfold before
  rw [Hypercube.reduceScatterBefore_eq p.whole_groups dimension_pos]
  by_cases hx : Hypercube.commType p.comm = 0
  · rw [if_pos hx]
    have h8 : 8 ∣ p.numCommDpu := eight_dvd_numCommDpu hx
    have heq : p.turned i = rotated 8 i := by
      funext t
      exact if_pos hx
    refine ⟨_, endsIn_of_settles (clockwise_turns sdk (outOfPlace i _ _ false) h8 rfl mram), ?_⟩
    rw [heq]
    exact copied_copied (rearrange_rotated (by decide) (by decide) h8)
  · rw [if_neg hx]
    have heq : p.turned i = fun t => t := by
      funext t
      exact if_neg hx
    refine ⟨_, endsIn_of_settles (clockwise_copies sdk (outOfPlace i unset _ true) (hgroup.resolve_left hx) rfl mram), ?_⟩
    rw [heq]
    exact copied_copied rearrange_id

/-! ## The sum of one element -/

theorem memberIndex_lt {d : Nat} (hd : d < p.nrDpus) : p.hostArguments.memberIndex d < p.numCommDpu := by
  rw [nrDpus_eq] at hd
  have hpart := (AllToAll.isGroup_groupCoord (a := p.hostArguments) (by omega) (d / 8)).commPart_lt
  have hnum := p.numCommDpu_eq
  have hmember := AllToAll.memberIndex_eq (a := p.hostArguments) d
  by_cases hx : p.commType = 0
  · rw [if_pos hx] at hnum
    rw [if_pos (show p.hostArguments.commType = 0 from hx)] at hmember
    omega
  · rw [if_neg hx] at hnum
    rw [if_neg (show ¬ p.hostArguments.commType = 0 from hx)] at hmember
    omega

/-- The first kernel puts the block for `d` where the host looks for it. -/
theorem turned_source {d : Nat} (hd : d < p.nrDpus) (q : Nat) :
    p.turned (p.host.sourceDpu d q) (p.hostArguments.memberIndex d) =
      nrBlocks p.commType * (p.host.numberOf (p.host.groupCoord (d / 8)) % p.host.commGroups) +
        q % nrBlocks p.commType := by
  rw [nrDpus_eq] at hd
  have hpart : p.host.numberOf (p.host.groupCoord (d / 8)) % p.host.commGroups =
      p.hostArguments.commPart (p.hostArguments.groupCoord (d / 8)) :=
    (ReduceScatter.numberOf_parts (HostReduceScatter.isGroup_dpu (h := p.host) hd)).2
  have hmember := AllToAll.memberIndex_eq (a := p.hostArguments) d
  have hchip : p.host.sourceDpu d q % 8 = (d % 8 + 8 - q % nrBlocks p.commType) % 8 :=
    HostReduceScatter.sourceDpu_mod d q
  rw [hpart, turned]
  by_cases hx : p.commType = 0
  · rw [if_pos (show p.hostArguments.commType = 0 from hx)] at hmember
    rw [nrBlocks_eq hx] at hchip ⊢
    rw [if_pos hx, hmember, rotated, sub32]
    omega
  · have hnr : nrBlocks p.commType = 1 := if_neg hx
    rw [if_neg (show ¬ p.hostArguments.commType = 0 from hx)] at hmember
    rw [if_neg hx, hmember, hnr]
    omega

section Phases

variable {mrams mrams₁ mrams₂ : Nat → Mem UInt8} {regions : Regions} {sums : List (BlockGather Nat UInt8 64)}

/-- What the host adds for `d` is what the source had for it at the start. -/
theorem summand {d e : Nat} (hd : d < p.nrDpus) (he : e * p.size + p.size ≤ p.blockBytes) (q : Nat)
    (hshows : p.Shows regions mrams₁)
    (hbefore : ∀ i, Copied (p.build.heap + p.startOffset) (p.build.heap + (p.startOffset + p.bufferOffset)) p.blockBytes
      p.numCommDpu (p.turned i) (mrams i) (mrams₁ i)) :
    number p.size (mramByte regions (p.host.sourceDpu d q))
        (p.startOffset + 1024 * 1024 + p.bufferOffset +
          p.host.numberOf (p.host.groupCoord (d / 8)) % p.host.commGroups * p.host.blockBytes +
            (q % nrBlocks p.commType * p.blockBytes + e * p.size)) =
      number p.size (mrams (p.host.sourceDpu d q))
        (p.build.heap + p.startOffset + p.blockBytes * p.hostArguments.memberIndex d + e * p.size) := by
  have hheap := p.heap_eq
  have hbuffer : p.startOffset + p.bufferOffset + 1024 * 1024 + p.numCommDpu * p.blockBytes ≤ 0x4000000 := p.buffer_fits
  have hmember := memberIndex_lt hd
  have hplace := turned_source hd q
  have hsource : p.host.sourceDpu d q < p.nrDpus := by
    rw [nrDpus_eq] at hd ⊢
    exact HostReduceScatter.sourceDpu_lt (h := p.host) hd q
  have hin := turned_lt (p := p.toCollectiveCall) (i := p.host.sourceDpu d q) hmember
  apply number_congr
  intro j hj
  have ho : e * p.size + j < p.blockBytes := by omega
  have hbyte : _ = p.host.numberOf (p.host.groupCoord (d / 8)) % p.host.commGroups * p.host.blockBytes + _ :=
    p.block_byte (p.host.numberOf (p.host.groupCoord (d / 8)) % p.host.commGroups) (q % nrBlocks p.commType)
      (e * p.size + j)
  have hmoved := (hbefore (p.host.sourceDpu d q)).1 _ hmember (e * p.size + j) ho
  have hend := byte_lt hin ho
  rw [hplace] at hmoved hend
  have hview := hshows _ hsource (p.startOffset + 1024 * 1024 + p.bufferOffset +
    p.host.numberOf (p.host.groupCoord (d / 8)) % p.host.commGroups * p.host.blockBytes +
      (q % nrBlocks p.commType * p.blockBytes + e * p.size) + j) (by omega) (by omega)
  have haddr : p.build.mram + (p.startOffset + 1024 * 1024 + p.bufferOffset +
      p.host.numberOf (p.host.groupCoord (d / 8)) % p.host.commGroups * p.host.blockBytes +
        (q % nrBlocks p.commType * p.blockBytes + e * p.size) + j) =
      p.build.heap + (p.startOffset + p.bufferOffset) + p.blockBytes * (nrBlocks p.commType *
        (p.host.numberOf (p.host.groupCoord (d / 8)) % p.host.commGroups) + q % nrBlocks p.commType) +
          (e * p.size + j) := by omega
  rw [haddr, hmoved] at hview
  rw [← hview, Nat.add_assoc _ (e * p.size) j]

/-- An element of the target, through the two phases. -/
theorem target_element {d e : Nat} (hd : d < p.nrDpus) (he : e * p.size + p.size ≤ p.blockBytes)
    (hcarry : p.host.NoCarry) (hperm : sums.Perm p.host.allSums) (hshows : p.Shows regions mrams₁)
    (hshows' : p.Shows (BlockGather.run sums regions) mrams₂)
    (hbefore : ∀ i, Copied (p.build.heap + p.startOffset) (p.build.heap + (p.startOffset + p.bufferOffset)) p.blockBytes
      p.numCommDpu (p.turned i) (mrams i) (mrams₁ i)) :
    number p.size (mrams₂ d) (p.build.heap + p.targetOffset + e * p.size) =
      (∑ s ∈ p.members d, number p.size (mrams s)
        (p.build.heap + p.startOffset + p.blockBytes * p.hostArguments.memberIndex d + e * p.size)) % 256 ^ p.size := by
  have hheap := p.heap_eq
  have htarget := p.target_fits
  have hdpu : d < 8 * p.host.groups := by
    rw [nrDpus_eq] at hd
    exact hd
  have hpos : 0 < p.host.groups := HostReduceScatter.groups_pos_of_dpu hdpu
  have hproduct : p.host.totalAxisProduct = p.host.commGroups := p.host.products_fit.totalAxisProduct_eq hpos
  have hnumber : p.host.numberOf (p.host.groupCoord (d / 8)) < p.host.totalIterNum := by
    rw [ReduceScatter.totalIterNum_eq p.host.products_fit]
    exact ReduceScatter.numberOf_lt (HostReduceScatter.isGroup_dpu hdpu)
  have hgroup : 8 * p.host.groupOf (p.host.numberOf (p.host.groupCoord (d / 8))) + d % 8 = d := by
    rw [HostReduceScatter.groupOf_numberOf hdpu]
    exact Nat.div_add_mod d 8
  have hsums := HostReduceScatter.host_sums (m := regions) hcarry (fun g => hperm.mem_iff) ⟨_, hnumber⟩
    (mod_eight_lt d) (e := e) he
  -- what the DPU has in its target is what the host left in the region
  have hseen : number p.size (mrams₂ d) (p.build.heap + p.targetOffset + e * p.size) =
      number p.size (mramByte (BlockGather.run sums regions) d) (p.targetOffset + 1024 * 1024 + e * p.size) := by
    apply number_congr
    intro j hj
    have hview := hshows' d hd (p.targetOffset + 1024 * 1024 + e * p.size + j) (by omega) (by omega)
    rw [← hview]
    apply congrArg (mrams₂ d)
    omega
  rw [hgroup] at hsums
  have hmembers : ∀ q : Fin (p.host.totalAxisProduct * nrBlocks p.host.commType),
      q.val < p.host.commGroups * nrBlocks p.host.commType := fun q => q.isLt.trans_le (by rw [hproduct])
  rw [hseen]
  apply hsums.trans
  apply congrArg (· % 256 ^ p.size)
  -- the lines added up are those of the group's DPUs, one each
  apply Finset.sum_bij fun (q : Fin (p.host.totalAxisProduct * nrBlocks p.host.commType)) _ => p.host.sourceDpu d q
  · intro q _
    apply Finset.mem_filter.2
    refine ⟨Finset.mem_range.2 ?_, HostReduceScatter.sourceDpu_same hdpu (hmembers q)⟩
    rw [nrDpus_eq]
    exact HostReduceScatter.sourceDpu_lt hdpu q
  · intro q _ q' _ heq
    exact Fin.ext (HostReduceScatter.sourceDpu_inj hdpu (hmembers q) (hmembers q') heq)
  · intro s hs
    obtain ⟨hlt, hsame⟩ := Finset.mem_filter.1 hs
    have hs' := Finset.mem_range.1 hlt
    rw [nrDpus_eq] at hs'
    obtain ⟨q, hq, hdpu'⟩ := HostReduceScatter.sourceDpu_surj (h := p.host) hdpu hs' hsame
    exact ⟨⟨q, hq.trans_le (by rw [hproduct])⟩, Finset.mem_univ _, hdpu'⟩
  · intro q _
    exact summand hd he q hshows hbefore

/-- What is outside the buffer and the target, through the two phases. -/
theorem byte_kept {i x : Nat} (hi : i < p.nrDpus) (hlow : 1024 * 1024 ≤ x) (hx : x < 2 ^ 26)
    (hcarry : p.host.NoCarry) (hperm : sums.Perm p.host.allSums) (hshows : p.Shows regions mrams₁)
    (hshows' : p.Shows (BlockGather.run sums regions) mrams₂)
    (hbefore : Copied (p.build.heap + p.startOffset) (p.build.heap + (p.startOffset + p.bufferOffset)) p.blockBytes
      p.numCommDpu (p.turned i) (mrams i) (mrams₁ i))
    (hbuffer : Mem.Outside (p.startOffset + p.bufferOffset + 1024 * 1024) p.totalDataSize x)
    (htarget : Mem.Outside (p.targetOffset + 1024 * 1024) p.blockBytes x) :
    mrams₂ i (p.build.mram + x) = mrams i (p.build.mram + x) := by
  have hheap := p.heap_eq
  have hfirst : mrams₁ i (p.build.mram + x) = mrams i (p.build.mram + x) := by
    apply hbefore.2
    unfold totalDataSize at hbuffer
    unfold Mem.Outside at hbuffer ⊢
    omega
  have hhost : mramByte (BlockGather.run sums regions) i x = mramByte regions i x :=
    HostReduceScatter.host_keeps hcarry (fun g => hperm.mem_iff) hx fun _ => htarget
  rw [hshows' i hi x hlow hx, hhost, ← hshows i hi x hlow hx, hfirst]

end Phases

/-- Sums of 32 bits. -/
def wholeRank : ReduceScatterCall where
  toCollectiveCall := oneRank
  size := 4
  size_eq := .inr (.inr (.inl rfl))
  target_aligned := by decide
  target_fits := by decide
  target_apart := .inl (by decide)

end ReduceScatterCall

end DpuBackend.PidComm
