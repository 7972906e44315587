import DpuBackend.PidComm.HostAllToAll
import DpuBackend.PidComm.ReduceScatterRns
import DpuBackend.Xeon.ReduceScatterRg

/-
  The reduce-scatter of the host: the words that all threads add up, and the MRAM afterwards.

  C ↔ Lean (src/hw/src/rank/hw_dpu_rank.c, src/hw/src/mappings/xeon_sp/pid_comm.c):
    a call of hw_reduce_scatter_rns                    ↔ HostReduceScatter
    the arguments of one trans_reduce_scatter_cpu_rg   ↔ HostReduceScatter.call
    which of the two kernels a thread calls            ↔ HostReduceScatter.kernel
    thread_reduce_scatter_rns                          ↔ HostReduceScatter.thread
    the words one thread adds up                       ↔ HostReduceScatter.threadSums

  The kernels read the buffers and write the targets, which are apart, and no two words are
  written to the same line. So the words may be added up in any order, and every element at
  a destination is the sum over the lines of its sources (`host_sums`).
-/

namespace DpuBackend.PidComm

open DpuBackend.Lib DpuBackend.Xeon

attribute [local instance] Simd.neZero_sixtyFour

/-- A call of `hw_reduce_scatter_rns` with room in the MRAM for its blocks, and products of 32 bits. -/
structure HostReduceScatter extends ReduceScatter where
  bufferOffset : Nat
  size_eq : ElementSize size
  src_aligned : 8 ∣ srcStartOffset
  dst_aligned : 8 ∣ dstStartOffset
  buffer_aligned : 8 ∣ bufferOffset
  length_aligned : 8 ∣ dpuByteLength
  products_fit : toAllToAll.Fits
  src_fits : srcStartOffset + 1024 * 1024 + bufferOffset + toAllToAll.commGroups * toAllToAll.blockBytes ≤ 0x4000000
  dst_fits : dstStartOffset + 1024 * 1024 + dpuByteLength ≤ 0x4000000
  disjoint : Mem.Apart (srcStartOffset + bufferOffset) (toAllToAll.commGroups * toAllToAll.blockBytes)
    dstStartOffset dpuByteLength

namespace HostReduceScatter

variable (h : HostReduceScatter) {i : Nat}

theorem iteration_lt (hi : i < h.totalIterNum) : i < h.groups := by
  rwa [ReduceScatter.totalIterNum_eq h.products_fit] at hi

theorem groups_pos (hi : i < h.totalIterNum) : 0 < h.groups := Nat.zero_lt_of_lt (h.iteration_lt hi)

theorem block_lt (hi : i < h.totalIterNum) : i % h.commGroups < h.commGroups :=
  Nat.mod_lt _ (AllToAll.commGroups_pos (h.groups_pos hi))

theorem block_le (hi : i < h.totalIterNum) :
    i % h.commGroups * h.blockBytes + h.blockBytes ≤ h.commGroups * h.blockBytes :=
  AllToAll.blocks_le (h.block_lt hi)

/-- The offsets of a call do not wrap. -/
theorem iteration_offsets (hi : i < h.totalIterNum) :
    (h.sumIteration i).srcStartOffset = h.srcStartOffset + i % h.commGroups * h.blockBytes ∧
      (h.sumIteration i).dstStartOffset = h.dstStartOffset := by
  obtain ⟨hsrc, hdst⟩ := ReduceScatter.sumIteration_offsets (h.groups_pos hi) h.products_fit (h.iteration_lt hi)
  have hroom := h.block_le hi
  have hsrcFits := h.src_fits
  have hdstFits := h.dst_fits
  constructor
  · rw [hsrc, u32, u32]
    generalize i % h.commGroups * h.blockBytes = offset at hroom ⊢
    omega
  · rw [hdst, u32]
    exact Nat.mod_eq_of_lt (by omega)

theorem call_src_aligned (hi : i < h.totalIterNum) : 8 ∣ (h.sumIteration i).srcStartOffset := by
  rw [(h.iteration_offsets hi).1]
  exact Nat.dvd_add h.src_aligned (Nat.dvd_mul_left_of_dvd (Nat.dvd_mul_left_of_dvd h.length_aligned _) _)

theorem call_dst_aligned (hi : i < h.totalIterNum) : 8 ∣ (h.sumIteration i).dstStartOffset := by
  rw [(h.iteration_offsets hi).2]
  exact h.dst_aligned

theorem call_src_fits (hi : i < h.totalIterNum) : (h.sumIteration i).srcStartOffset + 1024 * 1024 + h.bufferOffset +
    nrBlocks h.commType * h.dpuByteLength ≤ 0x4000000 := by
  have hroom := h.block_le hi
  have hfits := h.src_fits
  have hbytes : nrBlocks h.commType * h.dpuByteLength = h.blockBytes := rfl
  rw [(h.iteration_offsets hi).1, hbytes]
  omega

theorem call_dst_fits (hi : i < h.totalIterNum) :
    (h.sumIteration i).dstStartOffset + 1024 * 1024 + h.dpuByteLength ≤ 0x4000000 := by
  rw [(h.iteration_offsets hi).2]
  exact h.dst_fits

/-- The arguments of call `i`. -/
def call (i : Fin h.totalIterNum) : ReduceScatterRg where
  numIterSrc := h.totalAxisProduct
  srcRank := (h.sumIteration i).srcRankId
  dstRank := (h.sumIteration i).dstRankId
  srcRgId := (h.sumIteration i).srcRgId
  dstRgId := (h.sumIteration i).dstRgId
  srcStartOffset := (h.sumIteration i).srcStartOffset
  dstStartOffset := (h.sumIteration i).dstStartOffset
  byteLength := h.dpuByteLength
  commType := h.commType
  communicationBufferOffset := h.bufferOffset
  size := h.size
  srcRgId_lt _ := mod_eight_lt _
  dstRgId_lt := mod_eight_lt _
  src_aligned := h.call_src_aligned i.isLt
  dst_aligned := h.call_dst_aligned i.isLt
  buffer_aligned := h.buffer_aligned
  length_aligned := h.length_aligned
  src_fits := h.call_src_fits i.isLt
  dst_fits := h.call_dst_fits i.isLt

/-- The kernel of call `i`; `num_inter_thread` is 1, and `thread_id % num_inter_thread` 0. -/
def kernel (i : Fin h.totalIterNum) (m : Regions) : Regions :=
  if h.commType = 0 then (h.call i).transReduceScatterCpuRg 1 0 m else (h.call i).transReduceScatterCpuYRg m

/-- The words that call `i` adds up. -/
def callSums (i : Nat) : List (BlockGather Nat UInt8 64) :=
  if hi : i < h.totalIterNum then (h.call ⟨i, hi⟩).wordSums else []

/-- Each call's kernel adds up its words. -/
theorem kernel_eq (i : Fin h.totalIterNum) (m : Regions) : h.kernel i m = BlockGather.run (h.callSums i) m := by
  unfold kernel
  rw [callSums, dif_pos i.isLt]
  split
  · next hx => exact ReduceScatterRg.transReduceScatterCpuRg_eq hx m
  · next hx => exact ReduceScatterRg.transReduceScatterCpuYRg_eq hx m

/-- `thread_reduce_scatter_rns`: the kernels of a thread's share. -/
def thread (threadId : Nat) (m : Regions) : Regions :=
  (List.range' (h.startPoint threadId) (h.iterCount threadId)).foldl
    (fun m i => if hi : i < h.totalIterNum then h.kernel ⟨i, hi⟩ m else m) m

/-- The words that a thread adds up, in its order. -/
def threadSums (threadId : Nat) : List (BlockGather Nat UInt8 64) :=
  (List.range' (h.startPoint threadId) (h.iterCount threadId)).flatMap h.callSums

theorem thread_eq (threadId : Nat) (m : Regions) : h.thread threadId m = BlockGather.run (h.threadSums threadId) m := by
  unfold thread threadSums
  generalize List.range' (h.startPoint threadId) (h.iterCount threadId) = is
  induction is generalizing m with
  | nil => rfl
  | cons i is ih =>
    have hcall : (if hi : i < h.totalIterNum then h.kernel ⟨i, hi⟩ m else m) = BlockGather.run (h.callSums i) m := by
      split
      · next hi => exact h.kernel_eq ⟨i, hi⟩ m
      · next hi =>
        rw [callSums, dif_neg hi]
        rfl
    rw [List.foldl_cons, hcall, ih, List.flatMap_cons, BlockGather.run_append]

/-- The words of all threads. -/
def allSums : List (BlockGather Nat UInt8 64) := (List.range h.numThread).flatMap h.threadSums

variable {h}

theorem mem_allSums {g : BlockGather Nat UInt8 64} : g ∈ h.allSums ↔
    ∃ (i : Fin h.totalIterNum) (w : Nat), w < h.dpuByteLength / 8 ∧ (h.call i).wordSum w = g := by
  have hall : h.allSums = (List.range h.totalIterNum).flatMap h.callSums := by
    rw [← ReduceScatter.shares_eq, List.flatMap_assoc]
    rfl
  rw [hall, List.mem_flatMap]
  constructor
  · intro ⟨i, hi, hg⟩
    have hlt := List.mem_range.1 hi
    rw [callSums, dif_pos hlt] at hg
    obtain ⟨w, hw, hword⟩ := List.mem_map.1 hg
    exact ⟨⟨i, hlt⟩, w, List.mem_range.1 hw, hword⟩
  · intro ⟨i, w, hw, hword⟩
    refine ⟨i, List.mem_range.2 i.isLt, ?_⟩
    rw [callSums, dif_pos i.isLt]
    exact List.mem_map.2 ⟨w, List.mem_range.2 hw, hword⟩

/-! ## The groups of a call -/

/-- The entangled group that iteration `i` writes. -/
def groupOf (h : HostReduceScatter) (i : Nat) : Nat := h.linearIndex (h.dstOf (h.pairOf i 0))

/-- The entangled group that is its source `j`. -/
def sourceGroup (h : HostReduceScatter) (i j : Nat) : Nat := h.linearIndex (h.srcOf (h.pairOf i j))

section Groups

variable {i i' : Fin h.totalIterNum} {j : Nat}

theorem call_source (hcarry : h.NoCarry) (i : Fin h.totalIterNum) (hj : j < h.commGroups) :
    (h.call i).srcRank j * 8 + (h.call i).srcRgId j = h.sourceGroup i j := by
  have hpos := h.groups_pos i.isLt
  have hlt := h.iteration_lt i.isLt
  have hpair := ReduceScatter.pairOf_lt hlt hj
  have hnum : h.pairOf i j < h.toAllToAll.totalIterNum := by rwa [h.products_fit.totalIterNum_eq hpos]
  obtain ⟨hrank, hrg, -, -⟩ := ReduceScatter.sumIteration_eq hpos h.products_fit hlt hj
  obtain ⟨hsrc, -⟩ := AllToAll.linear_of hpos h.products_fit hcarry hnum
  obtain ⟨hsame, -, -⟩ := AllToAll.iteration_spec hpos h.products_fit hpair
  show (h.sumIteration i).srcRankId j * 8 + (h.sumIteration i).srcRgId j = _
  rw [hrank, hrg, hsrc]
  exact MixedRadix.value_congr hsame

theorem call_destination (hcarry : h.NoCarry) (i : Fin h.totalIterNum) :
    (h.call i).dstRank * 8 + (h.call i).dstRgId = h.groupOf i := by
  have hpos := h.groups_pos i.isLt
  have hlt := h.iteration_lt i.isLt
  have hfirst : 0 < h.commGroups := AllToAll.commGroups_pos hpos
  have hpair := ReduceScatter.pairOf_lt hlt hfirst
  have hnum : h.pairOf i 0 < h.toAllToAll.totalIterNum := by rwa [h.products_fit.totalIterNum_eq hpos]
  obtain ⟨-, -, hrank, hrg⟩ := ReduceScatter.sumIteration_eq hpos h.products_fit hlt hfirst
  obtain ⟨-, hdst⟩ := AllToAll.linear_of hpos h.products_fit hcarry hnum
  obtain ⟨-, hsame, -⟩ := AllToAll.iteration_spec hpos h.products_fit hpair
  show (h.sumIteration i).dstRankId * 8 + (h.sumIteration i).dstRgId = _
  rw [hrank, hrg, hdst]
  exact MixedRadix.value_congr hsame

theorem groupOf_lt (i : Fin h.totalIterNum) : h.groupOf i < h.groups :=
  AllToAll.linearIndex_lt (AllToAll.isGroup_dstOf (h.groups_pos i.isLt) _)

/-- Two iterations write different groups. -/
theorem groupOf_inj (heq : h.groupOf i = h.groupOf i') : i = i' := by
  have hpos := h.groups_pos i.isLt
  have hfirst : 0 < h.commGroups := AllToAll.commGroups_pos hpos
  have hpair := ReduceScatter.pairOf_lt (h.iteration_lt i.isLt) hfirst
  have hpair' := ReduceScatter.pairOf_lt (h.iteration_lt i'.isLt) hfirst
  obtain ⟨-, hsrc, -⟩ := ReduceScatter.pairOf_parts (i := i) hfirst
  obtain ⟨-, hsrc', -⟩ := ReduceScatter.pairOf_parts (i := i') hfirst
  have hsame : h.Same (h.dstOf (h.pairOf i 0)) (h.dstOf (h.pairOf i' 0)) := fun k hk =>
    MixedRadix.value_inj (AllToAll.isGroup_dstOf hpos _) (AllToAll.isGroup_dstOf hpos _) heq hk
  -- both pairs have source 0, so they differ only if their destinations do
  have hpairs : h.pairOf i 0 = h.pairOf i' 0 := by
    by_contra hne
    exact AllToAll.block_ne hpos hpair hpair' hne hsame (hsrc.trans hsrc'.symm)
  obtain ⟨hfix, -, hdst⟩ := ReduceScatter.pairOf_parts (i := i) hfirst
  obtain ⟨hfix', -, hdst'⟩ := ReduceScatter.pairOf_parts (i := i') hfirst
  rw [hpairs] at hfix hdst
  apply Fin.ext
  rw [← Nat.div_add_mod i.val h.commGroups, ← Nat.div_add_mod i'.val h.commGroups, ← hfix, ← hdst, hfix', hdst']

end Groups

/-! ## No two words meet -/

section Places

variable {i i' : Fin h.totalIterNum} {p r w w' : Nat}

/-- Where a call reads and writes, as offsets of MRAM. -/
theorem word_offsets (i : Fin h.totalIterNum) (r w : Nat) :
    (h.call i).srcOffset r w = h.srcStartOffset + 1024 * 1024 + h.bufferOffset + i % h.commGroups * h.blockBytes +
        (r * h.dpuByteLength + 8 * w) ∧
      (h.call i).dstOffset w = h.dstStartOffset + 1024 * 1024 + 8 * w := by
  obtain ⟨hsrc, hdst⟩ := h.iteration_offsets i.isLt
  constructor
  · show (h.sumIteration i).srcStartOffset + 1024 * 1024 + h.bufferOffset + 8 * w + h.dpuByteLength * r = _
    rw [hsrc, Nat.mul_comm h.dpuByteLength]
    omega
  · show (h.sumIteration i).dstStartOffset + 1024 * 1024 + 8 * w = _
    rw [hdst]

theorem row_le (hr : r < nrBlocks h.commType) : r * h.dpuByteLength + h.dpuByteLength ≤ h.blockBytes :=
  AllToAll.blocks_le hr

theorem srcOffset_aligned (i : Fin h.totalIterNum) (r w : Nat) : 8 ∣ (h.call i).srcOffset r w := by
  have hsrc := h.src_aligned
  have hbuffer := h.buffer_aligned
  have hrow : 8 ∣ r * h.dpuByteLength := Nat.dvd_mul_left_of_dvd h.length_aligned _
  have hblock : 8 ∣ i % h.commGroups * h.blockBytes :=
    Nat.dvd_mul_left_of_dvd (Nat.dvd_mul_left_of_dvd h.length_aligned _) _
  rw [(word_offsets i r w).1]
  omega

theorem dstOffset_aligned (i : Fin h.totalIterNum) (w : Nat) : 8 ∣ (h.call i).dstOffset w := by
  have hdst := h.dst_aligned
  rw [(word_offsets i 0 w).2]
  omega

theorem srcOffset_lt (i : Fin h.totalIterNum) (hr : r < nrBlocks h.commType) (hw : w < h.dpuByteLength / 8) :
    (h.call i).srcOffset r w + 8 ≤ 2 ^ 26 := by
  have hroom := h.block_le i.isLt
  have hrow := row_le hr
  have hfits := h.src_fits
  rw [(word_offsets i r w).1]
  omega

theorem dstOffset_lt (i : Fin h.totalIterNum) (hw : w < h.dpuByteLength / 8) :
    (h.call i).dstOffset w + 8 ≤ 2 ^ 26 := by
  have hfits := h.dst_fits
  rw [(word_offsets i 0 w).2]
  omega

theorem blockOf_lt (p : Nat) : p % nrBlocks h.commType < nrBlocks h.commType := by
  apply Nat.mod_lt
  unfold nrBlocks
  split <;> decide

/-- The line of source `p`. -/
theorem srcAddr_eq (i : Fin h.totalIterNum) (hw : w < h.dpuByteLength / 8) (p : Fin ((h.call i).wordSum w).sources) :
    ((h.call i).wordSum w).srcAddr p = wordAddress ((h.call i).srcRgId (p / nrBlocks h.commType))
      ((h.call i).srcOffset (p % nrBlocks h.commType) w) := by
  have hlt := srcOffset_lt i (blockOf_lt p) hw
  have hline := wordLine_eq ((h.call i).srcRgId_lt (p / nrBlocks h.commType)) (by omega)
    (srcOffset_aligned i (p % nrBlocks h.commType) w)
  rw [← hline]
  apply congrArg (wordLine _)
  show (h.call i).srcOffset 0 w + h.dpuByteLength * _ = (h.call i).srcOffset (p % nrBlocks h.commType) w
  rw [ReduceScatterRg.srcOffset, ReduceScatterRg.srcOffset, Nat.mul_zero, Nat.add_zero]
  rfl

theorem dstAddr_eq (i : Fin h.totalIterNum) (hw : w < h.dpuByteLength / 8) :
    ((h.call i).wordSum w).dstAddr = wordAddress (h.call i).dstRgId ((h.call i).dstOffset w) := by
  have hlt := dstOffset_lt i hw
  exact wordLine_eq (h.call i).dstRgId_lt (by omega) (dstOffset_aligned i w)

/-- No line that is written is read. -/
theorem ends_apart (hw : w < h.dpuByteLength / 8) (hw' : w' < h.dpuByteLength / 8)
    (p : Fin ((h.call i').wordSum w').sources) :
    Mem.Apart ((h.call i).wordSum w).dstAddr 64 (((h.call i').wordSum w').srcAddr p) 64 := by
  have hroom := h.block_le i'.isLt
  have hrow := row_le (h := h) (blockOf_lt p)
  have hsrc := (word_offsets i' (p % nrBlocks h.commType) w').1
  have hdst := (word_offsets i 0 w).2
  have hsrcLt := srcOffset_lt i' (blockOf_lt p) hw'
  have hdstLt := dstOffset_lt i hw
  rw [dstAddr_eq i hw, srcAddr_eq i' hw' p]
  apply wordAddress_apart (h.call i).dstRgId_lt ((h.call i').srcRgId_lt _) (dstOffset_aligned i w)
    (srcOffset_aligned i' _ w')
  intro ⟨_, heq⟩
  obtain hbelow | habove := h.disjoint
  · omega
  · omega

/-- Different words are written to different lines. -/
theorem dst_apart (hcarry : h.NoCarry) (hw : w < h.dpuByteLength / 8) (hw' : w' < h.dpuByteLength / 8)
    (hne : ¬(i = i' ∧ w = w')) (hrank : (h.call i).dstRank = (h.call i').dstRank) :
    Mem.Apart ((h.call i).wordSum w).dstAddr 64 ((h.call i').wordSum w').dstAddr 64 := by
  have hdst := (word_offsets i 0 w).2
  have hdst' := (word_offsets i' 0 w').2
  have hdstLt := dstOffset_lt i hw
  have hdstLt' := dstOffset_lt i' hw'
  rw [dstAddr_eq i hw, dstAddr_eq i' hw']
  apply wordAddress_apart (h.call i).dstRgId_lt (h.call i').dstRgId_lt (dstOffset_aligned i w) (dstOffset_aligned i' w')
  intro ⟨hrg, heq⟩
  apply hne
  constructor
  · apply groupOf_inj
    rw [← call_destination hcarry i, ← call_destination hcarry i', hrank, hrg]
  · omega

end Places

/-! ## What is added up -/

section Run

variable {gs : List (BlockGather Nat UInt8 64)} {m : Regions}

/-- In whatever order the words are added up, each line is computed from the memory before. -/
theorem run_line (hcarry : h.NoCarry) (hgs : ∀ g, g ∈ gs ↔ g ∈ h.allSums) (i : Fin h.totalIterNum) {w : Nat}
    (hw : w < h.dpuByteLength / 8) : (BlockGather.run gs m (h.call i).dstRank).load
      (wordAddress (h.call i).dstRgId ((h.call i).dstOffset w)) 64 = ((h.call i).wordSum w).result m := by
  rw [← dstAddr_eq i hw]
  apply BlockGather.run_delivers ((hgs _).2 (mem_allSums.2 ⟨i, w, hw, rfl⟩))
  · intro g' hg' p _
    obtain ⟨i', w', hw', rfl⟩ := mem_allSums.1 ((hgs g').1 hg')
    exact ends_apart hw' hw p
  · intro g' hg'
    obtain ⟨i', w', hw', rfl⟩ := mem_allSums.1 ((hgs g').1 hg')
    by_cases hsame : i' = i ∧ w' = w
    · left
      obtain ⟨rfl, rfl⟩ := hsame
      rfl
    · right
      exact fun hrank => dst_apart hcarry hw' hw hsame hrank

/-- Element `e` of the word at `o`, of chip `c` of group `g`. -/
theorem number_mramByte {g c o e size : Nat} (hc : c < 8) (he : e * size + size ≤ 8) (ho : 8 ∣ o) :
    number size (mramByte m (8 * g + c)) (o + e * size) =
      chipElement size ((m (g / 8)).load (wordAddress (g % 8) o) 64) c e := by
  apply number_congr
  intro j hj
  have hk : e * size + j < 8 := by omega
  have hlt : 8 * (e * size + j) + c < 64 := by
    generalize e * size + j = k at hk
    omega
  rw [Nat.add_assoc, HostAllToAll.mramByte_word hc hk ho]
  apply congrArg ((m (g / 8)).load _ 64)
  exact Fin.ext (Nat.mod_eq_of_lt hlt).symm

/-- The chip that source `p` of chip `c` is. -/
def sourceChip (h : HostReduceScatter) (p c : Nat) : Nat := (c + 8 - p % nrBlocks h.commType) % 8

/-- The element that a call reads at source `q`, when `e` is element `e'` of word `w`. -/
theorem source_element (hcarry : h.NoCarry) (i : Fin h.totalIterNum) {q c e e' w : Nat}
    (hq : q < h.totalAxisProduct * nrBlocks h.commType) (hw : w < h.dpuByteLength / 8)
    (hsplit : e * h.size = 8 * w + e' * h.size) (hplace : e' * h.size + h.size ≤ 8) :
    number h.size (mramByte m (8 * h.sourceGroup i (q / nrBlocks h.commType) + h.sourceChip q c))
        (h.srcStartOffset + 1024 * 1024 + h.bufferOffset + i % h.commGroups * h.blockBytes +
          (q % nrBlocks h.commType * h.dpuByteLength + e * h.size)) =
      chipElement h.size ((m ((h.call i).srcRank (q / nrBlocks h.commType))).load
        (wordLine ((h.call i).srcRgId (q / nrBlocks h.commType))
          ((h.call i).srcOffset (q % nrBlocks h.commType) w)) 64) (h.sourceChip q c) e' := by
  have hproduct := h.products_fit.totalAxisProduct_eq (h.groups_pos i.isLt)
  have hj : q / nrBlocks h.commType < h.commGroups := by
    rw [← hproduct]
    exact Nat.div_lt_of_lt_mul (hq.trans_le (Nat.mul_comm _ _).le)
  have hchip : h.sourceChip q c < 8 := mod_eight_lt _
  have hlt := srcOffset_lt i (blockOf_lt q) hw
  have haligned := srcOffset_aligned i (q % nrBlocks h.commType) w
  have hgroup := call_source hcarry i hj
  have hrg := (h.call i).srcRgId_lt (q / nrBlocks h.commType)
  have hrank : h.sourceGroup i (q / nrBlocks h.commType) / 8 = (h.call i).srcRank (q / nrBlocks h.commType) := by
    omega
  have hline : h.sourceGroup i (q / nrBlocks h.commType) % 8 = (h.call i).srcRgId (q / nrBlocks h.commType) := by
    omega
  have hbyte : h.srcStartOffset + 1024 * 1024 + h.bufferOffset + i % h.commGroups * h.blockBytes +
      (q % nrBlocks h.commType * h.dpuByteLength + e * h.size) =
      (h.call i).srcOffset (q % nrBlocks h.commType) w + e' * h.size := by
    rw [(word_offsets i _ w).1]
    omega
  rw [hbyte, number_mramByte hchip hplace haligned, hrank, hline, wordLine_eq hrg (by omega) haligned]

/-- Element `e` of a destination is the sum over the blocks of its sources. -/
theorem host_sums (hcarry : h.NoCarry) (hgs : ∀ g, g ∈ gs ↔ g ∈ h.allSums) (i : Fin h.totalIterNum) {c e : Nat}
    (hc : c < 8) (he : e * h.size + h.size ≤ h.dpuByteLength) :
    number h.size (mramByte (BlockGather.run gs m) (8 * h.groupOf i + c))
        (h.dstStartOffset + 1024 * 1024 + e * h.size) =
      (∑ q : Fin (h.totalAxisProduct * nrBlocks h.commType), number h.size
        (mramByte m (8 * h.sourceGroup i (q / nrBlocks h.commType) + h.sourceChip q c))
          (h.srcStartOffset + 1024 * 1024 + h.bufferOffset + i % h.commGroups * h.blockBytes +
            (q % nrBlocks h.commType * h.dpuByteLength + e * h.size))) % 256 ^ h.size := by
  have h8 := h.length_aligned
  have hsizePos := h.size_eq.pos
  obtain ⟨hsplit, hplace⟩ := h.size_eq.split e
  have hw : e / (8 / h.size) < h.dpuByteLength / 8 := by omega
  generalize e / (8 / h.size) = w at hsplit hw
  generalize e % (8 / h.size) = e' at hsplit hplace
  obtain ⟨-, hdst⟩ := word_offsets i 0 w
  have hbyte : h.dstStartOffset + 1024 * 1024 + e * h.size = (h.call i).dstOffset w + e' * h.size := by omega
  have hgroup := call_destination hcarry i
  have hrg := (h.call i).dstRgId_lt
  have hrank : h.groupOf i / 8 = (h.call i).dstRank := by omega
  have hline : h.groupOf i % 8 = (h.call i).dstRgId := by omega
  rw [hbyte, number_mramByte hc hplace (dstOffset_aligned i w), hrank, hline, run_line hcarry hgs i hw,
    Finset.sum_congr rfl fun q _ => source_element hcarry i q.isLt hw hsplit hplace]
  exact ReduceScatterRg.wordSum_element h.size_eq hc hplace m

/-- What is not in the target of a DPU of the set stays. -/
theorem host_keeps (hcarry : h.NoCarry) (hgs : ∀ g, g ∈ gs ↔ g ∈ h.allSums) {i x : Nat} (hx : x < 2 ^ 26)
    (hout : i < 8 * h.groups → Mem.Outside (h.dstStartOffset + 1024 * 1024) h.dpuByteLength x) :
    mramByte (BlockGather.run gs m) i x = mramByte m i x := by
  apply BlockGather.run_keeps
  intro g hg hrank
  obtain ⟨j, w, hw, rfl⟩ := mem_allSums.1 ((hgs g).1 hg)
  rw [dstAddr_eq j hw]
  have hdst := (word_offsets j 0 w).2
  have hdstLt := dstOffset_lt j hw
  by_cases hsame : (h.call j).dstRgId = i / 8 % 8 ∧ (h.call j).dstOffset w % 2 ^ 32 = 8 * (x / 8) % 2 ^ 32
  · -- the word of the byte is written: then it is in a target
    exfalso
    have hgroup := call_destination hcarry j
    have hlt := groupOf_lt j
    have hrank' : (h.call j).dstRank = i / 64 := hrank
    have hin := hout (by omega)
    unfold Mem.Outside at hin
    omega
  · have hapart := wordAddress_apart (h.call j).dstRgId_lt (mod_eight_lt (i / 8)) (dstOffset_aligned j w)
      (Nat.dvd_mul_right 8 (x / 8)) hsame
    obtain hbelow | habove := hapart
    · exact .inr (by omega)
    · exact .inl (by omega)

end Run

end HostReduceScatter

end DpuBackend.PidComm
