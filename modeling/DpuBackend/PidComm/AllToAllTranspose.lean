import DpuBackend.PidComm.Collective

/-
  `pidcomm_alltoall` transposes the blocks of each communication group.

  C ↔ Lean (src/api/src/api/dpu_memory.c):
    a call of pidcomm_alltoall                ↔ AllToAllCall
    relocate before, all_to_all, relocate after ↔ before, the host's copies, after

  DPU `s` first turns each eight of its blocks so that the block for chip `c` is at place
  `c - s`; the host takes place `r` to the chip `r` further; DPU `d` then reflects each
  eight, which puts the block from chip `c` at place `c`. Without the x axis in the
  communication there are no rotations and the last kernel copies.

  The call copies right behind its first launch: the transfer that would bring the muxes
  back to the host is commented out. So where the API switches the muxes and the x axis
  communicates, the host's copies are not of what the kernel left (`copyMuxes`).
-/

namespace DpuBackend.PidComm

open DpuBackend.Lib DpuBackend.Xeon

namespace Hypercube

variable {cube : Hypercube} {comm : List Nat}

/-- Which kernel the buffer is copied by, when the x axis holds whole entangled groups. -/
theorem alltoallAfter_eq (whole_groups : 8 ∣ cube.axisLen 0) (hdim : 0 < cube.dimension)
    (start target buffer total i unset : Nat) : cube.alltoallAfter comm start target buffer total i unset =
      if commType comm = 0 then (.reverseClockwise, cube.outOfBuffer comm start target buffer total i 8 false)
      else (.clockwise, cube.outOfBuffer comm start target buffer total i unset true) := by
  have h8 := eight_le_axisLen whole_groups hdim
  have hproduct : cube.axisLen 0 * cube.axisLen 1 % 2 ^ 32 ≠ 4 := by
    have hdvd : 8 ∣ cube.axisLen 0 * cube.axisLen 1 := Nat.dvd_mul_right_of_dvd whole_groups _
    omega
  rw [alltoallAfter, if_neg (by omega)]
  by_cases hx : commType comm = 0
  · rw [if_pos (.inl hx), if_pos hx, numCommRg_eq whole_groups hdim hx]
  · rw [if_neg (by omega), if_neg hx]

end Hypercube

/-- A call of `pidcomm_alltoall`, with the buffer apart from the target. -/
structure AllToAllCall extends CollectiveCall where
  target_aligned : 8 ∣ targetOffset
  target_fits : targetOffset + 1024 * 1024 + cube.numCommDpu comm * blockBytes ≤ 0x4000000
  target_apart : Mem.Apart (startOffset + bufferOffset) (cube.numCommDpu comm * blockBytes)
    targetOffset (cube.numCommDpu comm * blockBytes)

namespace AllToAllCall

open CollectiveCall

variable (p : AllToAllCall)

theorem host_src_fits : p.startOffset + 1024 * 1024 + p.hostArguments.commGroups * p.hostArguments.blockBytes ≤
    0x4000000 := p.total_eq.symm ▸ p.start_fits

theorem host_dst_fits : p.startOffset + 1024 * 1024 + p.bufferOffset +
    p.hostArguments.commGroups * p.hostArguments.blockBytes ≤ 0x4000000 := by
  have hfits : p.startOffset + p.bufferOffset + 1024 * 1024 + p.numCommDpu * p.blockBytes ≤ 0x4000000 := p.buffer_fits
  rw [total_eq]
  omega

theorem host_disjoint : Mem.Apart p.startOffset (p.hostArguments.commGroups * p.hostArguments.blockBytes)
    (p.startOffset + p.bufferOffset) (p.hostArguments.commGroups * p.hostArguments.blockBytes) :=
  p.total_eq.symm ▸ p.start_apart

def host : HostAllToAll where
  toAllToAll := p.hostArguments
  bufferOffset := p.bufferOffset
  src_aligned := p.start_aligned
  dst_aligned := p.start_aligned
  buffer_aligned := p.buffer_aligned
  length_aligned := p.block_aligned
  products_fit := p.products_fit
  src_fits := p.host_src_fits
  dst_fits := p.host_dst_fits
  disjoint := p.host_disjoint

/-! ## The three phases -/

/-- The relocation before, on DPU `i`. -/
def before (sdk : Sdk p.build) (unset i : Nat) (mram mram' : Mem UInt8) : Prop :=
  match p.cube.alltoallBefore p.comm p.startOffset p.totalDataSize i unset with
  | some (k, a) => EndsIn sdk (k.main p.build a) mram mram'
  | none => mram' = mram

/-- The relocation after, on DPU `i`. -/
def after (sdk : Sdk p.build) (unset i : Nat) (mram mram' : Mem UInt8) : Prop :=
  match p.cube.alltoallAfter p.comm p.startOffset p.targetOffset p.bufferOffset p.totalDataSize i unset with
  | (k, a) => EndsIn sdk (k.main p.build a) mram mram'

/-- The muxes when the host copies: the first launch has handed the MRAMs to the DPUs. -/
def copyMuxes (muxes : Muxes) : Muxes := if p.commType = 0 then muxes.launch else muxes

/-- From MRAMs `mrams` the call ends, and with MRAMs of `Q`: the tasklets of each launch may be
interleaved in any way, and the threads of the host. The host's copies are of the MRAMs when it
reaches them. -/
def Ends (sdk : Sdk p.build) (muxes : Muxes) (unset : Nat → Nat) (mrams : Nat → Mem UInt8)
    (Q : (Nat → Mem UInt8) → Prop) : Prop :=
  (p.copyMuxes muxes).HostReaches ∧
    ∃ mrams₁, (∀ i < p.nrDpus, p.before sdk (unset i) i (mrams i) (mrams₁ i)) ∧ (∃ regions, p.Shows regions mrams₁) ∧
      ∀ regions copies mrams₂, p.Shows regions mrams₁ → copies.Perm p.host.allCopies →
        p.Shows (BlockCopy.run copies regions) mrams₂ →
          ∃ mrams₃, (∀ i < p.nrDpus, p.after sdk (unset i) i (mrams₂ i) (mrams₃ i)) ∧ Q mrams₃

/-- Block `memberIndex s` of the target of `d` is block `memberIndex d` of the source of `s`;
outside the three regions nothing has changed from the heap on. -/
structure Transposed (mrams mrams' : Nat → Mem UInt8) : Prop where
  blocks : ∀ s < p.nrDpus, ∀ d < p.nrDpus, p.hostArguments.SameGroup s d → ∀ o < p.blockBytes,
    mrams' d (p.build.heap + p.targetOffset + p.blockBytes * p.hostArguments.memberIndex s + o) =
      mrams s (p.build.heap + p.startOffset + p.blockBytes * p.hostArguments.memberIndex d + o)
  others : ∀ i < p.nrDpus, ∀ x, 1024 * 1024 ≤ x → x < 2 ^ 26 →
    Mem.Outside (p.startOffset + 1024 * 1024) p.totalDataSize x →
    Mem.Outside (p.startOffset + p.bufferOffset + 1024 * 1024) p.totalDataSize x →
    Mem.Outside (p.targetOffset + 1024 * 1024) p.totalDataSize x →
      mrams' i (p.build.mram + x) = mrams i (p.build.mram + x)

/-- Where the last kernel puts block `t` of DPU `i`. -/
def reflection (i t : Nat) : Nat := if p.commType = 0 then reflected 8 i t else t

variable {p}

/-- The relocation before ends on every DPU, in whatever order its tasklets run. -/
theorem before_ends (sdk : Sdk p.build) (unset i : Nat) (mram : Mem UInt8) : ∃ mram', p.before sdk unset i mram mram' ∧
    Relocated (p.build.heap + p.startOffset) p.blockBytes p.numCommDpu (p.turned i) mram mram' := by
  unfold before Hypercube.alltoallBefore
  by_cases hx : Hypercube.commType p.comm = 0
  · rw [if_pos hx]
    have heq : p.turned i = rotated 8 i := by
      funext t
      exact if_pos hx
    obtain ⟨mram', hrelocated, hends⟩ := clockwise_rotates sdk (fits (p := p.toCollectiveCall) i unset)
      ⟨p.block_aligned, heap_aligned p.start_aligned⟩ (eight_dvd_numCommDpu hx) rfl rfl mram
    rw [heq]
    exact ⟨mram', endsIn_of_settles hends, hrelocated⟩
  · rw [if_neg hx]
    refine ⟨mram, rfl, fun t _ o _ => ?_, fun _ _ => rfl⟩
    rw [turned, commType, if_neg hx]

theorem outOfPlace (i rg : Nat) (noRotate : Bool) : OutOfPlace p.build
    (p.cube.outOfBuffer p.comm p.startOffset p.targetOffset p.bufferOffset p.totalDataSize i rg noRotate)
    p.blockBytes := by
  have hheap := p.heap_eq
  have hbuffer := p.buffer_fits
  have htarget := p.target_fits
  exact {
    blocks_pos := numCommDpu_pos
    total := rfl
    size_dvd := p.block_aligned
    source_dvd := heap_aligned (Nat.dvd_add p.start_aligned p.buffer_aligned)
    target_dvd := heap_aligned p.target_aligned
    source_fits := by
      show p.build.heap + (p.startOffset + p.bufferOffset) + p.cube.numCommDpu p.comm * p.blockBytes ≤ _
      omega
    target_fits := by
      show p.build.heap + p.targetOffset + p.cube.numCommDpu p.comm * p.blockBytes ≤ _
      omega
    apart := p.target_apart }

/-- The relocation after ends where the kernel knows the group size. -/
theorem after_ends (sdk : Sdk p.build) (hgroup : p.commType = 0 ∨ 8 ∣ p.numCommDpu ∨ p.numCommDpu = 4 ∨ p.numCommDpu = 2)
    (unset i : Nat) (mram : Mem UInt8) : ∃ mram', p.after sdk unset i mram mram' ∧
      Copied (p.build.heap + (p.startOffset + p.bufferOffset)) (p.build.heap + p.targetOffset) p.blockBytes p.numCommDpu
        (p.reflection i) mram mram' := by
  unfold after
  rw [Hypercube.alltoallAfter_eq p.whole_groups dimension_pos]
  by_cases hx : Hypercube.commType p.comm = 0
  · rw [if_pos hx]
    have h8 : 8 ∣ p.numCommDpu := eight_dvd_numCommDpu hx
    have heq : p.reflection i = reflected 8 i := by
      funext t
      exact if_pos hx
    refine ⟨_, endsIn_of_settles (reverseClockwise_copies sdk (outOfPlace i 8 false) h8 rfl rfl mram), ?_⟩
    rw [heq]
    exact copied_copied (rearrange_reflected (by decide) (by decide) h8)
  · rw [if_neg hx]
    have heq : p.reflection i = fun t => t := by
      funext t
      exact if_neg hx
    refine ⟨_, endsIn_of_settles (clockwise_copies sdk (outOfPlace i unset true) (hgroup.resolve_left hx) rfl mram), ?_⟩
    rw [heq]
    exact copied_copied rearrange_id

/-! ## The way of one block -/

/-- The call and the block of it that take the block of `s` for `d` to `d`: it starts where the first
kernel has put it, and the last kernel finds it where it arrives. -/
structure Route (p : AllToAllCall) (s d : Nat) (i : Fin p.host.totalIterNum) (r : Nat) : Prop where
  block : r < nrBlocks p.commType
  source : p.host.linearIndex (p.host.srcOf i) = s / 8
  destination : p.host.linearIndex (p.host.dstOf i) = d / 8
  chip : (d % 8 + 8 - r) % 8 = s % 8
  member_lt : p.hostArguments.memberIndex d < p.numCommDpu
  arrives_lt : nrBlocks p.commType * (i / p.host.commGroups % p.host.commGroups) + r < p.numCommDpu
  leaves : p.turned s (p.hostArguments.memberIndex d) = nrBlocks p.commType * (i % p.host.commGroups) + r
  arrives : p.reflection d (nrBlocks p.commType * (i / p.host.commGroups % p.host.commGroups) + r) =
    p.hostArguments.memberIndex s

theorem exists_route {s d : Nat} (hs : s < p.nrDpus) (hd : d < p.nrDpus) (h : p.hostArguments.SameGroup s d) :
    ∃ i r, p.Route s d i r := by
  rw [nrDpus_eq] at hs hd
  have hpos : 0 < p.hostArguments.groups := by omega
  have hfit : p.hostArguments.Fits := p.products_fit
  have hsGroup := AllToAll.isGroup_groupCoord hpos (s / 8)
  have hdGroup := AllToAll.isGroup_groupCoord hpos (d / 8)
  have hagree := h.agree
  have hi := AllToAll.indexOf_lt hsGroup hdGroup
  obtain ⟨-, hsrc, hdst⟩ := AllToAll.indexOf_parts hsGroup hdGroup
  have hsPart := hsGroup.commPart_lt
  have hdPart := hdGroup.commPart_lt
  have hsource : p.hostArguments.linearIndex (p.hostArguments.srcOf _) = s / 8 :=
    (MixedRadix.value_congr (AllToAll.srcOf_indexOf hsGroup hdGroup)).trans
      (AllToAll.linearIndex_groupCoord (by omega))
  have hdestination : p.hostArguments.linearIndex (p.hostArguments.dstOf _) = d / 8 :=
    (MixedRadix.value_congr (AllToAll.dstOf_indexOf hsGroup hdGroup hagree)).trans
      (AllToAll.linearIndex_groupCoord (by omega))
  have hnum := p.numCommDpu_eq
  have hsMember : p.hostArguments.memberIndex s = _ := AllToAll.memberIndex_eq s
  have hdMember : p.hostArguments.memberIndex d = _ := AllToAll.memberIndex_eq d
  refine ⟨⟨p.hostArguments.indexOf _ _, (hfit.totalIterNum_eq hpos).symm ▸ hi⟩,
    if p.commType = 0 then (d % 8 + 8 - s % 8) % 8 else 0, ?_⟩
  by_cases hx : p.commType = 0
  · -- the first kernel has put the block for chip `d % 8` at place `d - s`, which the host copies to that chip
    have hblocks := nrBlocks_eq hx
    have hx' : p.hostArguments.commType = 0 := hx
    rw [if_pos hx] at hnum ⊢
    rw [if_pos hx'] at hsMember hdMember
    exact {
      block := by omega
      source := hsource
      destination := hdestination
      chip := by omega
      member_lt := by omega
      arrives_lt := by
        show nrBlocks p.commType * (p.hostArguments.indexOf _ _ / p.hostArguments.commGroups %
          p.hostArguments.commGroups) + _ < _
        rw [hsrc, hblocks]
        omega
      leaves := by
        show _ = nrBlocks p.commType * (p.hostArguments.indexOf _ _ % p.hostArguments.commGroups) + _
        rw [hdst, turned, if_pos hx, hdMember, hblocks, rotated, sub32]
        omega
      arrives := by
        show p.reflection d (nrBlocks p.commType * (p.hostArguments.indexOf _ _ / p.hostArguments.commGroups %
          p.hostArguments.commGroups) + _) = _
        rw [hsrc, reflection, if_pos hx, hsMember, hblocks, reflected, sub32]
        omega }
  · -- a group has one DPU of each entangled group, of the same chip
    have hblocks : nrBlocks p.commType = 1 := if_neg hx
    have hx' : p.hostArguments.commType ≠ 0 := hx
    have hchip := h.chip hx'
    rw [if_neg hx] at hnum ⊢
    rw [if_neg hx'] at hsMember hdMember
    exact {
      block := by omega
      source := hsource
      destination := hdestination
      chip := by omega
      member_lt := by omega
      arrives_lt := by
        show nrBlocks p.commType * (p.hostArguments.indexOf _ _ / p.hostArguments.commGroups %
          p.hostArguments.commGroups) + _ < _
        rw [hsrc, hblocks]
        omega
      leaves := by
        show _ = nrBlocks p.commType * (p.hostArguments.indexOf _ _ % p.hostArguments.commGroups) + _
        rw [hdst, turned, if_neg hx, hdMember, hblocks]
        omega
      arrives := by
        show p.reflection d (nrBlocks p.commType * (p.hostArguments.indexOf _ _ / p.hostArguments.commGroups %
          p.hostArguments.commGroups) + _) = _
        rw [hsrc, reflection, if_neg hx, hsMember, hblocks]
        omega }

section Bytes

variable {s d : Nat} {i : Fin p.host.totalIterNum} {r : Nat}

/-- A byte of the block, through the three phases. -/
theorem Route.byte (hroute : p.Route s d i r) (hs : s < p.nrDpus) (hd : d < p.nrDpus)
    {mrams mrams₁ mrams₂ mrams₃ : Nat → Mem UInt8} {regions : Regions} {copies : List (BlockCopy Nat UInt8 64)}
    (hcarry : p.host.NoCarry) (hstay : p.host.StaysInside) (hperm : copies.Perm p.host.allCopies)
    (hshows : p.Shows regions mrams₁) (hshows' : p.Shows (BlockCopy.run copies regions) mrams₂)
    (hbefore : Relocated (p.build.heap + p.startOffset) p.blockBytes p.numCommDpu (p.turned s) (mrams s) (mrams₁ s))
    (hafter : Copied (p.build.heap + (p.startOffset + p.bufferOffset)) (p.build.heap + p.targetOffset) p.blockBytes
      p.numCommDpu (p.reflection d) (mrams₂ d) (mrams₃ d)) {o : Nat} (ho : o < p.blockBytes) :
    mrams₃ d (p.build.heap + p.targetOffset + p.blockBytes * p.hostArguments.memberIndex s + o) =
      mrams s (p.build.heap + p.startOffset + p.blockBytes * p.hostArguments.memberIndex d + o) := by
  have hheap := p.heap_eq
  have hstart : p.startOffset + 1024 * 1024 + p.numCommDpu * p.blockBytes ≤ 0x4000000 := p.start_fits
  have hbuffer : p.startOffset + p.bufferOffset + 1024 * 1024 + p.numCommDpu * p.blockBytes ≤ 0x4000000 := p.buffer_fits
  have hplace := hroute.leaves
  have hleaves := hbefore.1 _ hroute.member_lt o ho
  have harrives := hafter.1 _ hroute.arrives_lt o ho
  rw [hroute.arrives] at harrives
  rw [hplace] at hleaves
  have hsent : p.blockBytes * (nrBlocks p.commType * (i % p.host.commGroups) + r) + o <
      p.numCommDpu * p.blockBytes := by
    apply byte_lt _ ho
    rw [← hplace]
    exact turned_lt hroute.member_lt
  have hgot := byte_lt hroute.arrives_lt ho
  have hbyte : _ = i % p.host.commGroups * p.host.blockBytes + _ := p.block_byte (i % p.host.commGroups) r o
  have hbyte' : _ = i / p.host.commGroups % p.host.commGroups * p.host.blockBytes + _ :=
    p.block_byte (i / p.host.commGroups % p.host.commGroups) r o
  have hdelivers := HostAllToAll.host_delivers (m := regions) hcarry hstay (fun c => hperm.mem_iff) i hroute.block ho
    (Nat.mod_lt d (by decide))
  rw [hroute.source, hroute.destination, hroute.chip, ← dpu_eq, ← dpu_eq] at hdelivers
  -- the host's byte and the DPU's, before the copies and after them
  have hview := hshows s hs (p.startOffset + 1024 * 1024 + i % p.host.commGroups * p.host.blockBytes +
    (r * p.blockBytes + o)) (by omega) (by omega)
  have hview' := hshows' d hd (p.startOffset + 1024 * 1024 + p.bufferOffset +
    i / p.host.commGroups % p.host.commGroups * p.host.blockBytes + (r * p.blockBytes + o)) (by omega) (by omega)
  have haddr : p.build.mram + (p.startOffset + 1024 * 1024 + i % p.host.commGroups * p.host.blockBytes +
      (r * p.blockBytes + o)) =
      p.build.heap + p.startOffset + p.blockBytes * (nrBlocks p.commType * (i % p.host.commGroups) + r) + o := by omega
  have haddr' : p.build.mram + (p.startOffset + 1024 * 1024 + p.bufferOffset +
      i / p.host.commGroups % p.host.commGroups * p.host.blockBytes + (r * p.blockBytes + o)) =
      p.build.heap + (p.startOffset + p.bufferOffset) +
        p.blockBytes * (nrBlocks p.commType * (i / p.host.commGroups % p.host.commGroups) + r) + o := by omega
  rw [haddr] at hview
  rw [haddr'] at hview'
  calc mrams₃ d (p.build.heap + p.targetOffset + p.blockBytes * p.hostArguments.memberIndex s + o)
      = mrams₂ d (p.build.heap + (p.startOffset + p.bufferOffset) +
          p.blockBytes * (nrBlocks p.commType * (i / p.host.commGroups % p.host.commGroups) + r) + o) := harrives
    _ = mramByte (BlockCopy.run copies regions) d _ := hview'
    _ = mramByte regions s _ := hdelivers
    _ = mrams₁ s (p.build.heap + p.startOffset +
          p.blockBytes * (nrBlocks p.commType * (i % p.host.commGroups) + r) + o) := hview.symm
    _ = mrams s (p.build.heap + p.startOffset + p.blockBytes * p.hostArguments.memberIndex d + o) := hleaves

end Bytes

/-- What is outside the three regions, through the three phases. -/
theorem byte_kept {i x : Nat} (hi : i < p.nrDpus) (hlow : 1024 * 1024 ≤ x) (hx : x < 2 ^ 26)
    {mrams mrams₁ mrams₂ mrams₃ : Nat → Mem UInt8} {regions : Regions} {copies : List (BlockCopy Nat UInt8 64)}
    (hcarry : p.host.NoCarry) (hstay : p.host.StaysInside) (hperm : copies.Perm p.host.allCopies)
    (hshows : p.Shows regions mrams₁) (hshows' : p.Shows (BlockCopy.run copies regions) mrams₂)
    (hbefore : Relocated (p.build.heap + p.startOffset) p.blockBytes p.numCommDpu (p.turned i) (mrams i) (mrams₁ i))
    (hafter : Copied (p.build.heap + (p.startOffset + p.bufferOffset)) (p.build.heap + p.targetOffset) p.blockBytes
      p.numCommDpu (p.reflection i) (mrams₂ i) (mrams₃ i))
    (hstart : Mem.Outside (p.startOffset + 1024 * 1024) p.totalDataSize x)
    (hbuffer : Mem.Outside (p.startOffset + p.bufferOffset + 1024 * 1024) p.totalDataSize x)
    (htarget : Mem.Outside (p.targetOffset + 1024 * 1024) p.totalDataSize x) :
    mrams₃ i (p.build.mram + x) = mrams i (p.build.mram + x) := by
  have hheap := p.heap_eq
  unfold totalDataSize at hstart hbuffer htarget
  have hlast : mrams₃ i (p.build.mram + x) = mrams₂ i (p.build.mram + x) := by
    apply hafter.2
    unfold Mem.Outside at htarget ⊢
    omega
  have hfirst : mrams₁ i (p.build.mram + x) = mrams i (p.build.mram + x) := by
    apply hbefore.2
    unfold Mem.Outside at hstart ⊢
    omega
  have hhost : mramByte (BlockCopy.run copies regions) i x = mramByte regions i x := by
    apply HostAllToAll.host_keeps hcarry hstay (fun c => hperm.mem_iff) hx
    intro _
    have hbytes : p.host.commGroups * p.host.blockBytes = p.numCommDpu * p.blockBytes := p.total_eq
    show Mem.Outside (p.startOffset + 1024 * 1024 + p.bufferOffset) _ x
    rw [hbytes]
    unfold Mem.Outside at hbuffer ⊢
    omega
  rw [hlast, hshows' i hi x hlow hx, hhost, ← hshows i hi x hlow hx, hfirst]

/-- When the host reaches the MRAMs at its copies, no axis' weight carries from one rank to the
next, no loop of 64 bytes leaves its 8 KB and the last kernel knows the group size, the call ends
with the blocks transposed, on every SDK. -/
theorem alltoall_transposes (p : AllToAllCall) (sdk : Sdk p.build) (muxes : Muxes)
    (hmuxes : muxes.switched = true → muxes.hostSide = true ∧ p.commType ≠ 0) (hcarry : p.host.NoCarry)
    (hstay : p.host.StaysInside)
    (hgroup : p.commType = 0 ∨ 8 ∣ p.numCommDpu ∨ p.numCommDpu = 4 ∨ p.numCommDpu = 2) (unset : Nat → Nat)
    (mrams : Nat → Mem UInt8) : p.Ends sdk muxes unset mrams (p.Transposed mrams) := by
  have hreaches : (p.copyMuxes muxes).HostReaches := by
    unfold copyMuxes
    by_cases hx : p.commType = 0
    · rw [if_pos hx, Muxes.launch_hostReaches_iff]
      exact Bool.eq_false_iff.mpr fun hswitched => (hmuxes hswitched).2 hx
    · rw [if_neg hx]
      exact fun hswitched => (hmuxes hswitched).1
  choose mrams₁ hends hbefore using fun i => before_ends sdk (unset i) i (mrams i)
  refine ⟨hreaches, mrams₁, fun i _ => hends i, exists_shows mrams₁, fun regions copies mrams₂ hshows hperm hshows' => ?_⟩
  choose mrams₃ hends' hafter using fun i => after_ends sdk hgroup (unset i) i (mrams₂ i)
  refine ⟨mrams₃, fun i _ => hends' i, fun s hs d hd hsame o ho => ?_,
    fun i hi x hlow hx hstart hbuffer htarget => ?_⟩
  · obtain ⟨i, r, hroute⟩ := exists_route hs hd hsame
    exact hroute.byte hs hd hcarry hstay hperm hshows hshows' (hbefore s) (hafter d) ho
  · exact byte_kept hi hlow hx hcarry hstay hperm hshows hshows' (hbefore i) (hafter i) hstart hbuffer htarget

/-- Along the y axis, where no launch comes before the copies. -/
def alongTheYAxis : AllToAllCall where
  toCollectiveCall := eightByEight
  target_aligned := by decide
  target_fits := by decide
  target_apart := .inl (by decide)

theorem alltoall_transposes_alongTheYAxis : alongTheYAxis.Ends (Sdk.plain _) ⟨true, true⟩ (fun _ => 0)
    (fun i x => (i + x).toUInt8) (alongTheYAxis.Transposed fun i x => (i + x).toUInt8) := by
  apply alltoall_transposes alongTheYAxis _ _ (fun _ => ⟨rfl, by decide⟩) (by decide) _ (.inr (.inl (by decide)))
  -- blocks of 8 bytes have no loop of 64
  intro i _ _ r _ j hj
  have hnone : j < 8 / 64 := hj
  omega

end AllToAllCall

end DpuBackend.PidComm
