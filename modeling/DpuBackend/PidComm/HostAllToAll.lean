import DpuBackend.PidComm.AllToAllPairs
import DpuBackend.Xeon.AllToAllRg

/-
  The all-to-all of the host: the lines that all threads copy, and the MRAM afterwards.

  C ↔ Lean (src/hw/src/rank/hw_dpu_rank.c, src/hw/src/mappings/xeon_sp/pid_comm.c):
    a call of hw_all_to_all_rns                    ↔ HostAllToAll
    the arguments of one trans_all_to_all_rg       ↔ HostAllToAll.call
    the lines one thread copies                    ↔ HostAllToAll.threadCopies
    MRAM byte `x` of DPU `i`, seen from the host   ↔ mramByte

  No thread writes a line that any thread reads, and no two write the same one. So the
  lines may be copied in any order: the threads' interleaving does not matter, and block
  `r` of a destination is the source's with its chips rotated by `r` (`host_delivers`).
-/

namespace DpuBackend.PidComm

open DpuBackend.Lib DpuBackend.Xeon

/-- A call of `hw_all_to_all_rns` with room in the MRAM for its blocks, and products of 32 bits. -/
structure HostAllToAll extends AllToAll where
  bufferOffset : Nat
  src_aligned : 8 ∣ srcStartOffset
  dst_aligned : 8 ∣ dstStartOffset
  buffer_aligned : 8 ∣ bufferOffset
  length_aligned : 8 ∣ dpuByteLength
  products_fit : toAllToAll.Fits
  src_fits : srcStartOffset + 1024 * 1024 + toAllToAll.commGroups * toAllToAll.blockBytes ≤ 0x4000000
  dst_fits : dstStartOffset + 1024 * 1024 + bufferOffset + toAllToAll.commGroups * toAllToAll.blockBytes ≤ 0x4000000
  disjoint : Mem.Apart srcStartOffset (toAllToAll.commGroups * toAllToAll.blockBytes)
    (dstStartOffset + bufferOffset) (toAllToAll.commGroups * toAllToAll.blockBytes)

/-- Byte `x` of the MRAM of the DPU at position `i`: eight DPUs to a line, eight lines to a rank;
the words of a line's eight chips are interleaved byte by byte. -/
def mramByte (regions : Regions) (i x : Nat) : UInt8 :=
  regions (i / 64) (wordAddress (i / 8 % 8) (8 * (x / 8)) + (8 * (x % 8) + i % 8))

/-- Different bytes of different DPUs are different bytes of the regions. -/
theorem mramByte_place_inj {i i' x x' : Nat} (hx : x < 2 ^ 26) (hx' : x' < 2 ^ 26) (hrank : i / 64 = i' / 64)
    (heq : wordAddress (i / 8 % 8) (8 * (x / 8)) + (8 * (x % 8) + i % 8) =
      wordAddress (i' / 8 % 8) (8 * (x' / 8)) + (8 * (x' % 8) + i' % 8)) : i = i' ∧ x = x' := by
  by_cases hsame : i / 8 % 8 = i' / 8 % 8 ∧ 8 * (x / 8) % 2 ^ 32 = 8 * (x' / 8) % 2 ^ 32
  · have hword : 8 * (x / 8) = 8 * (x' / 8) := by omega
    rw [hsame.1, hword] at heq
    omega
  · have hapart := wordAddress_apart (mod_eight_lt (i / 8)) (mod_eight_lt (i' / 8)) (Nat.dvd_mul_right 8 (x / 8))
      (Nat.dvd_mul_right 8 (x' / 8)) hsame
    unfold Mem.Apart at hapart
    omega

/-- Whatever the MRAMs hold, there are regions that show it. -/
theorem exists_regions (mrams : Nat → Nat → UInt8) :
    ∃ regions : Regions, ∀ i, ∀ x < 2 ^ 26, mramByte regions i x = mrams i x := by
  classical
  refine ⟨fun rank y => if h : ∃ e : Nat × Nat, e.2 < 2 ^ 26 ∧ e.1 / 64 = rank ∧
    wordAddress (e.1 / 8 % 8) (8 * (e.2 / 8)) + (8 * (e.2 % 8) + e.1 % 8) = y
    then mrams h.choose.1 h.choose.2 else 0, fun i x hx => ?_⟩
  have hplace : ∃ e : Nat × Nat, e.2 < 2 ^ 26 ∧ e.1 / 64 = i / 64 ∧
      wordAddress (e.1 / 8 % 8) (8 * (e.2 / 8)) + (8 * (e.2 % 8) + e.1 % 8) =
        wordAddress (i / 8 % 8) (8 * (x / 8)) + (8 * (x % 8) + i % 8) := ⟨(i, x), hx, rfl, rfl⟩
  obtain ⟨hlt, hrank, hbyte⟩ := hplace.choose_spec
  obtain ⟨hi, hx'⟩ := mramByte_place_inj hlt hx hrank hbyte
  rw [mramByte, dif_pos hplace, hi, hx']

namespace AllToAll

variable {a : AllToAll} {i : Nat}

theorem iteration_srcOffset (hpos : 0 < a.groups) (hfit : a.Fits) (hi : i < a.groups * a.commGroups) :
    (a.iteration i).srcStartOffset = u32 (a.srcStartOffset + u32 (i % a.commGroups * a.blockBytes)) := by
  have hproduct := hfit.totalAxisProduct_eq hpos
  have hnum : a.totalIterNum = MixedRadix.weight a.fixedLen a.dimension * (a.commGroups * a.commGroups) := by
    rw [hfit.totalIterNum_eq hpos, ← fixed_mul_comm, fixedGroups, Nat.mul_assoc]
  have hstart : i = i % (MixedRadix.weight a.fixedLen a.dimension * (a.commGroups * a.commGroups)) := by
    rw [← hnum, hfit.totalIterNum_eq hpos, Nat.mod_eq_of_lt hi]
  have hrem := (fixedLoop_spec (l := ⟨a.totalIterNum, i, 0, 0, fun _ => 0, fun _ => 0⟩) a.dimension
    (fun k hk => groupsOf_pos hpos hk) hnum hstart).1
  have hmod : i % (a.commGroups * a.commGroups) % a.commGroups = i % a.commGroups := Nat.mod_mul_right_mod ..
  rw [← hmod, ← hrem, ← hproduct]
  rfl

theorem groups_pos_of_iteration (hi : i < a.totalIterNum) : 0 < a.groups := by
  apply Nat.pos_of_ne_zero
  intro hzero
  rw [totalIterNum_zero hzero] at hi
  exact Nat.not_lt_zero _ hi

theorem blocks_le {b n size : Nat} (hb : b < n) : b * size + size ≤ n * size := by
  rw [← Nat.succ_mul]
  exact Nat.mul_le_mul_right _ hb

end AllToAll

namespace HostAllToAll

variable (h : HostAllToAll) {i : Nat}

theorem iteration_lt (hi : i < h.totalIterNum) : i < h.groups * h.commGroups := by
  rwa [h.products_fit.totalIterNum_eq (AllToAll.groups_pos_of_iteration hi)] at hi

/-- Block `i % commGroups` goes out and arrives as block `i / commGroups % commGroups`. -/
theorem iteration_offsets (hi : i < h.totalIterNum) :
    i % h.commGroups < h.commGroups ∧ i / h.commGroups % h.commGroups < h.commGroups ∧
      (h.iteration i).srcStartOffset = h.srcStartOffset + i % h.commGroups * h.blockBytes ∧
      (h.iteration i).dstStartOffset = h.dstStartOffset + i / h.commGroups % h.commGroups * h.blockBytes := by
  have hpos := AllToAll.groups_pos_of_iteration hi
  have hcomm := AllToAll.commGroups_pos hpos
  have hlt := h.iteration_lt hi
  have hsrc : i % h.commGroups < h.commGroups := Nat.mod_lt _ hcomm
  have hdst : i / h.commGroups % h.commGroups < h.commGroups := Nat.mod_lt _ hcomm
  have hsrcRoom : i % h.commGroups * h.blockBytes + h.blockBytes ≤ h.commGroups * h.blockBytes :=
    AllToAll.blocks_le hsrc
  have hdstRoom : i / h.commGroups % h.commGroups * h.blockBytes + h.blockBytes ≤ h.commGroups * h.blockBytes :=
    AllToAll.blocks_le hdst
  have hsrcFits := h.src_fits
  have hdstFits := h.dst_fits
  refine ⟨hsrc, hdst, ?_, ?_⟩
  · rw [AllToAll.iteration_srcOffset hpos h.products_fit hlt, u32, u32]
    generalize i % h.commGroups * h.blockBytes = offset at hsrcRoom ⊢
    omega
  · rw [(AllToAll.iteration_spec hpos h.products_fit hlt).2.2, u32, u32]
    generalize i / h.commGroups % h.commGroups * h.blockBytes = offset at hdstRoom ⊢
    omega

theorem block_aligned (b : Nat) : 8 ∣ b * h.blockBytes :=
  Nat.dvd_mul_left_of_dvd (Nat.dvd_mul_left_of_dvd h.length_aligned _) b

theorem call_src_aligned (hi : i < h.totalIterNum) : 8 ∣ (h.iteration i).srcStartOffset := by
  rw [(h.iteration_offsets hi).2.2.1]
  exact Nat.dvd_add h.src_aligned (h.block_aligned _)

theorem call_dst_aligned (hi : i < h.totalIterNum) : 8 ∣ (h.iteration i).dstStartOffset := by
  rw [(h.iteration_offsets hi).2.2.2]
  exact Nat.dvd_add h.dst_aligned (h.block_aligned _)

theorem call_src_fits (hi : i < h.totalIterNum) :
    (h.iteration i).srcStartOffset + 1024 * 1024 + nrBlocks h.commType * h.dpuByteLength ≤ 0x4000000 := by
  obtain ⟨hlt, -, hsrc, -⟩ := h.iteration_offsets hi
  have hroom : i % h.commGroups * h.blockBytes + h.blockBytes ≤ h.commGroups * h.blockBytes := AllToAll.blocks_le hlt
  have hfits := h.src_fits
  have hbytes : nrBlocks h.commType * h.dpuByteLength = h.blockBytes := rfl
  rw [hsrc, hbytes]
  omega

theorem call_dst_fits (hi : i < h.totalIterNum) : (h.iteration i).dstStartOffset + 1024 * 1024 + h.bufferOffset +
    nrBlocks h.commType * h.dpuByteLength ≤ 0x4000000 := by
  obtain ⟨-, hlt, -, hdst⟩ := h.iteration_offsets hi
  have hroom : i / h.commGroups % h.commGroups * h.blockBytes + h.blockBytes ≤ h.commGroups * h.blockBytes :=
    AllToAll.blocks_le hlt
  have hfits := h.dst_fits
  have hbytes : nrBlocks h.commType * h.dpuByteLength = h.blockBytes := rfl
  rw [hdst, hbytes]
  omega

theorem call_disjoint (hi : i < h.totalIterNum) :
    Mem.Apart (h.iteration i).srcStartOffset (nrBlocks h.commType * h.dpuByteLength)
      ((h.iteration i).dstStartOffset + h.bufferOffset) (nrBlocks h.commType * h.dpuByteLength) := by
  obtain ⟨hlt, hlt', hsrc, hdst⟩ := h.iteration_offsets hi
  have hroom : i % h.commGroups * h.blockBytes + h.blockBytes ≤ h.commGroups * h.blockBytes := AllToAll.blocks_le hlt
  have hroom' : i / h.commGroups % h.commGroups * h.blockBytes + h.blockBytes ≤ h.commGroups * h.blockBytes :=
    AllToAll.blocks_le hlt'
  have hbytes : nrBlocks h.commType * h.dpuByteLength = h.blockBytes := rfl
  rw [hsrc, hdst, hbytes]
  obtain hbelow | habove := h.disjoint
  · exact .inl (by omega)
  · exact .inr (by omega)

/-- The arguments of call `i`. -/
def call (i : Fin h.totalIterNum) : AllToAllRg where
  srcRank := (h.iteration i).srcRankId
  dstRank := (h.iteration i).dstRankId
  srcRgId := (h.iteration i).srcRgId
  dstRgId := (h.iteration i).dstRgId
  srcStartOffset := (h.iteration i).srcStartOffset
  dstStartOffset := (h.iteration i).dstStartOffset
  byteLength := h.dpuByteLength
  commType := h.commType
  communicationBufferOffset := h.bufferOffset
  srcRgId_lt := mod_eight_lt _
  dstRgId_lt := mod_eight_lt _
  src_aligned := h.call_src_aligned i.isLt
  dst_aligned := h.call_dst_aligned i.isLt
  buffer_aligned := h.buffer_aligned
  length_aligned := h.length_aligned
  src_fits := h.call_src_fits i.isLt
  dst_fits := h.call_dst_fits i.isLt
  disjoint _ _ := h.call_disjoint i.isLt

/-- The lines that call `i` copies: a call is their run (`AllToAllRg.transAllToAllRg_eq`). -/
def callCopies (i : Nat) : List (BlockCopy Nat UInt8 64) :=
  if hi : i < h.totalIterNum then (h.call ⟨i, hi⟩).copies (h.call ⟨i, hi⟩).kernelSrc (h.call ⟨i, hi⟩).kernelDst else []

/-- The lines that a thread copies, in its order. -/
def threadCopies (threadId : Nat) : List (BlockCopy Nat UInt8 64) :=
  (List.range' (h.startPoint threadId) (h.iterCount threadId)).flatMap h.callCopies

/-- The lines of all threads. -/
def allCopies : List (BlockCopy Nat UInt8 64) := (List.range h.numThread).flatMap h.threadCopies

/-- The loop of 64 bytes of no call leaves the 8 KB it translated. -/
def StaysInside : Prop := ∀ i : Fin h.totalIterNum, (h.call i).NoCrossing

variable {h}

theorem allCopies_eq : h.allCopies = (List.range h.totalIterNum).flatMap h.callCopies := by
  have hend : h.startPoint h.numThread = h.totalIterNum := by
    have hmod : h.remainder < h.numThread := Nat.mod_lt _ h.numThread_pos
    have hdiv : h.share * h.numThread + h.remainder = h.totalIterNum := Nat.div_add_mod' _ _
    rw [AllToAll.startPoint, if_neg (by omega)]
    exact hdiv
  have hall := h.shares_upTo h.numThread
  rw [hend] at hall
  rw [← hall, List.flatMap_assoc]
  rfl

theorem mem_allCopies {c : BlockCopy Nat UInt8 64} : c ∈ h.allCopies ↔ ∃ (i : Fin h.totalIterNum) (r w : Nat),
    (h.call i).IsWord r w ∧ (h.call i).rnsCopy r ((h.call i).kernelSrc r w) ((h.call i).kernelDst r w) = c := by
  rw [allCopies_eq, List.mem_flatMap]
  constructor
  · intro ⟨i, hi, hc⟩
    have hlt := List.mem_range.1 hi
    rw [callCopies, dif_pos hlt] at hc
    obtain ⟨r, w, hword, hcopy⟩ := AllToAllRg.mem_copies.1 hc
    exact ⟨⟨i, hlt⟩, r, w, hword, hcopy⟩
  · intro ⟨i, r, w, hword, hcopy⟩
    refine ⟨i, List.mem_range.2 i.isLt, ?_⟩
    rw [callCopies, dif_pos i.isLt]
    exact AllToAllRg.mem_copies.2 ⟨r, w, hword, hcopy⟩

/-! ## No two copies meet -/

section Places

variable {i j : Fin h.totalIterNum} {r w r' w' : Nat}

/-- Where the bytes of a word are in the blocks of its call. -/
theorem word_inside (hw : (h.call i).IsWord r w) : r * h.dpuByteLength + 8 * w + 8 ≤ h.blockBytes := hw.inside

/-- Where a call's word is read and written, as offsets of MRAM. -/
theorem word_offsets (i : Fin h.totalIterNum) (r w : Nat) :
    (h.call i).srcOffset r w = h.srcStartOffset + 1024 * 1024 + i % h.commGroups * h.blockBytes +
        (r * h.dpuByteLength + 8 * w) ∧
      (h.call i).dstOffset r w = h.dstStartOffset + 1024 * 1024 + h.bufferOffset +
        i / h.commGroups % h.commGroups * h.blockBytes + (r * h.dpuByteLength + 8 * w) := by
  obtain ⟨-, -, hsrc, hdst⟩ := h.iteration_offsets i.isLt
  constructor
  · show (h.iteration i).srcStartOffset + 1024 * 1024 + (r * h.dpuByteLength + 8 * w) = _
    rw [hsrc]
    omega
  · show (h.iteration i).dstStartOffset + 1024 * 1024 + h.bufferOffset + (r * h.dpuByteLength + 8 * w) = _
    rw [hdst]
    omega

/-- Two places in rows of `size` bytes. -/
theorem rows_inj {b b' x x' size : Nat} (hx : x < size) (hx' : x' < size) (heq : b * size + x = b' * size + x') :
    b = b' ∧ x = x' := by
  have hdiv : ∀ b x, x < size → (b * size + x) / size = b := by
    intro b x hx
    rw [Nat.mul_comm, Nat.mul_add_div (by omega), Nat.div_eq_of_lt hx, Nat.add_zero]
  have hb : b = b' := by rw [← hdiv b x hx, heq, hdiv b' x' hx']
  subst hb
  exact ⟨rfl, Nat.add_left_cancel heq⟩

/-- No line that is written is read. -/
theorem ends_apart (hw : (h.call i).IsWord r w) (hw' : (h.call j).IsWord r' w') :
    Mem.Apart ((h.call i).dstLine r w) 64 ((h.call j).srcLine r' w') 64 := by
  obtain ⟨hlt, -, -, -⟩ := h.iteration_offsets j.isLt
  obtain ⟨-, hlt', -, -⟩ := h.iteration_offsets i.isLt
  have hroom : j % h.commGroups * h.blockBytes + h.blockBytes ≤ h.commGroups * h.blockBytes := AllToAll.blocks_le hlt
  have hroom' : i / h.commGroups % h.commGroups * h.blockBytes + h.blockBytes ≤ h.commGroups * h.blockBytes :=
    AllToAll.blocks_le hlt'
  have hin := word_inside hw
  have hin' := word_inside hw'
  have hsrc := (word_offsets j r' w').1
  have hdst := (word_offsets i r w).2
  have hsrcLt := hw'.srcOffset_lt
  have hdstLt := hw.dstOffset_lt
  rw [hw.dstLine_eq, hw'.srcLine_eq]
  apply wordAddress_apart (h.call i).dstRgId_lt (h.call j).srcRgId_lt ((h.call i).dstOffset_aligned r w)
    ((h.call j).srcOffset_aligned r' w')
  intro ⟨_, heq⟩
  obtain hbelow | habove := h.disjoint
  · omega
  · omega

/-- The group that a call writes, and the one it reads. -/
theorem call_groups (hcarry : h.NoCarry) (i : Fin h.totalIterNum) :
    (h.call i).srcRank * 8 + (h.call i).srcRgId = h.linearIndex (h.srcOf i) ∧
      (h.call i).dstRank * 8 + (h.call i).dstRgId = h.linearIndex (h.dstOf i) := by
  have hpos := AllToAll.groups_pos_of_iteration i.isLt
  obtain ⟨hsrc, hdst⟩ := AllToAll.linear_of hpos h.products_fit hcarry i.isLt
  obtain ⟨hsame, hsame', -⟩ := AllToAll.iteration_spec hpos h.products_fit (h.iteration_lt i.isLt)
  refine ⟨hsrc.trans ?_, hdst.trans ?_⟩
  · exact MixedRadix.value_congr hsame
  · exact MixedRadix.value_congr hsame'

/-- Different words are written to different lines. -/
theorem dst_apart (hcarry : h.NoCarry) (hw : (h.call i).IsWord r w) (hw' : (h.call j).IsWord r' w')
    (hne : ¬(i = j ∧ r = r' ∧ w = w')) (hrank : (h.call i).dstRank = (h.call j).dstRank) :
    Mem.Apart ((h.call i).dstLine r w) 64 ((h.call j).dstLine r' w') 64 := by
  have hpos := AllToAll.groups_pos_of_iteration i.isLt
  have hin := word_inside hw
  have hin' := word_inside hw'
  have hdst := (word_offsets i r w).2
  have hdst' := (word_offsets j r' w').2
  have hdstLt := hw.dstOffset_lt
  have hdstLt' := hw'.dstOffset_lt
  rw [hw.dstLine_eq, hw'.dstLine_eq]
  apply wordAddress_apart (h.call i).dstRgId_lt (h.call j).dstRgId_lt ((h.call i).dstOffset_aligned r w)
    ((h.call j).dstOffset_aligned r' w')
  intro ⟨hrg, heq⟩
  have hrows : i / h.commGroups % h.commGroups * h.blockBytes + (r * h.dpuByteLength + 8 * w) =
      j / h.commGroups % h.commGroups * h.blockBytes + (r' * h.dpuByteLength + 8 * w') := by omega
  obtain ⟨hblock, hplace⟩ := rows_inj (by omega) (by omega) hrows
  have hij : i = j := by
    by_contra hij
    have hgroup := (call_groups hcarry i).2
    have hgroup' := (call_groups hcarry j).2
    rw [hrank, hrg, hgroup'] at hgroup
    have hval : i.val ≠ j.val := fun hval => hij (Fin.ext hval)
    apply AllToAll.block_ne hpos (h.iteration_lt i.isLt) (h.iteration_lt j.isLt) hval _ hblock
    exact fun k hk => MixedRadix.value_inj (AllToAll.isGroup_dstOf hpos i) (AllToAll.isGroup_dstOf hpos j)
      hgroup.symm hk
  subst hij
  by_contra _
  exact hw.place_ne hw' (fun hsame => hne ⟨rfl, hsame⟩) hplace

end Places

/-! ## What arrives -/

section Run

variable {cs : List (BlockCopy Nat UInt8 64)} {m : Regions}

/-- The copy of a word, as the kernel does it. -/
theorem word_copy (hstay : h.StaysInside) {i : Fin h.totalIterNum} {r w : Nat} (hw : (h.call i).IsWord r w) :
    (h.call i).rnsCopy r ((h.call i).kernelSrc r w) ((h.call i).kernelDst r w) =
      (h.call i).rnsCopy r ((h.call i).srcLine r w) ((h.call i).dstLine r w) := by
  obtain ⟨hsrc, hdst⟩ := (hstay i).inside hw.block
  rw [AllToAllRg.kernelSrc_inside hw hsrc, AllToAllRg.kernelDst_inside hw hdst]

/-- In whatever order the lines are copied, each arrives with its lanes rotated. -/
theorem run_line (hcarry : h.NoCarry) (hstay : h.StaysInside) (hcs : ∀ c, c ∈ cs ↔ c ∈ h.allCopies)
    {i : Fin h.totalIterNum} {r w : Nat} (hw : (h.call i).IsWord r w) :
    (BlockCopy.run cs m (h.call i).dstRank).load ((h.call i).dstLine r w) 64 =
      Simd.rolEpi64Bytes r ((m (h.call i).srcRank).load ((h.call i).srcLine r w) 64) := by
  have hmem : (h.call i).rnsCopy r ((h.call i).srcLine r w) ((h.call i).dstLine r w) ∈ cs := by
    rw [← word_copy hstay hw]
    exact (hcs _).2 (mem_allCopies.2 ⟨i, r, w, hw, rfl⟩)
  apply BlockCopy.run_delivers hmem
  · intro c' hc' _
    obtain ⟨j, r', w', hw', rfl⟩ := mem_allCopies.1 ((hcs c').1 hc')
    rw [word_copy hstay hw']
    exact ends_apart hw' hw
  · intro c' hc'
    obtain ⟨j, r', w', hw', rfl⟩ := mem_allCopies.1 ((hcs c').1 hc')
    rw [word_copy hstay hw']
    by_cases hsame : j = i ∧ r' = r ∧ w' = w
    · left
      obtain ⟨rfl, rfl, rfl⟩ := hsame
      rfl
    · right
      exact fun hrank => dst_apart hcarry hw' hw hsame hrank

/-- Byte `k` of the word at `o`, of chip `c` of group `g`. -/
theorem mramByte_word {g c o k : Nat} (hc : c < 8) (hk : k < 8) (ho : 8 ∣ o) :
    mramByte m (8 * g + c) (o + k) = (m (g / 8)).load (wordAddress (g % 8) o) 64 ⟨8 * k + c, by omega⟩ := by
  have hrank : (8 * g + c) / 64 = g / 8 := by omega
  have hline : (8 * g + c) / 8 % 8 = g % 8 := by omega
  have hchip : (8 * g + c) % 8 = c := by omega
  have hword : 8 * ((o + k) / 8) = o := by omega
  have hbyte : (o + k) % 8 = k := by omega
  rw [mramByte, hrank, hline, hchip, hword, hbyte]
  rfl

/-- Chip `c` gets from chip `c - r`. -/
theorem rotated_byte {r c k : Nat} (v : Simd.Reg 64) (hr : r < 8) (hc : c < 8) (hk : k < 8) :
    Simd.rolEpi64Bytes r v ⟨8 * k + c, by omega⟩ = v ⟨8 * k + (c + 8 - r) % 8, by omega⟩ := by
  have hlane : (8 * k + c) / 8 = k := by omega
  have hbyte : (8 * k + c) % 8 = c := by omega
  apply congrArg v
  apply Fin.ext
  show ((8 * k + c) / 8 * 8 + ((8 * k + c) % 8 + 8 - r % 8) % 8) % 64 = _
  rw [hlane, hbyte, Nat.mod_eq_of_lt hr, Nat.mul_comm k 8]
  apply Nat.mod_eq_of_lt
  omega

theorem nrBlocks_le (commType : Nat) : nrBlocks commType ≤ 8 := by
  unfold nrBlocks
  split <;> omega

/-- Byte `o` of block `r` of a call arrives at every chip. -/
theorem host_delivers (hcarry : h.NoCarry) (hstay : h.StaysInside) (hcs : ∀ c, c ∈ cs ↔ c ∈ h.allCopies)
    (i : Fin h.totalIterNum) {r o c : Nat} (hr : r < nrBlocks h.commType) (ho : o < h.dpuByteLength) (hc : c < 8) :
    mramByte (BlockCopy.run cs m) (8 * h.linearIndex (h.dstOf i) + c)
        (h.dstStartOffset + 1024 * 1024 + h.bufferOffset + i / h.commGroups % h.commGroups * h.blockBytes +
          (r * h.dpuByteLength + o)) =
      mramByte m (8 * h.linearIndex (h.srcOf i) + (c + 8 - r) % 8)
        (h.srcStartOffset + 1024 * 1024 + i % h.commGroups * h.blockBytes + (r * h.dpuByteLength + o)) := by
  have h8 := h.length_aligned
  have hr8 : r < 8 := hr.trans_le (nrBlocks_le _)
  have hw : (h.call i).IsWord r (o / 8) := by
    refine ⟨hr, ?_⟩
    show o / 8 < h.dpuByteLength / 8
    omega
  have hk : o % 8 < 8 := mod_eight_lt o
  obtain ⟨hsrc, hdst⟩ := word_offsets i r (o / 8)
  have hsrcByte : h.srcStartOffset + 1024 * 1024 + i % h.commGroups * h.blockBytes + (r * h.dpuByteLength + o) =
      (h.call i).srcOffset r (o / 8) + o % 8 := by omega
  have hdstByte : h.dstStartOffset + 1024 * 1024 + h.bufferOffset + i / h.commGroups % h.commGroups * h.blockBytes +
      (r * h.dpuByteLength + o) = (h.call i).dstOffset r (o / 8) + o % 8 := by omega
  obtain ⟨hsrcGroup, hdstGroup⟩ := call_groups hcarry i
  have hsrcRg := (h.call i).srcRgId_lt
  have hdstRg := (h.call i).dstRgId_lt
  have hsrcRank : h.linearIndex (h.srcOf i) / 8 = (h.call i).srcRank := by omega
  have hsrcLine : h.linearIndex (h.srcOf i) % 8 = (h.call i).srcRgId := by omega
  have hdstRank : h.linearIndex (h.dstOf i) / 8 = (h.call i).dstRank := by omega
  have hdstLine : h.linearIndex (h.dstOf i) % 8 = (h.call i).dstRgId := by omega
  have hrun := congrFun (run_line (m := m) hcarry hstay hcs hw) ⟨8 * (o % 8) + c, by omega⟩
  rw [rotated_byte _ hr8 hc hk, hw.dstLine_eq, hw.srcLine_eq] at hrun
  rw [hdstByte, hsrcByte, mramByte_word hc hk ((h.call i).dstOffset_aligned _ _),
    mramByte_word (mod_eight_lt _) hk ((h.call i).srcOffset_aligned _ _), hdstRank, hdstLine, hsrcRank, hsrcLine]
  exact hrun

/-- What is not in the buffer of a DPU of the set stays. -/
theorem host_keeps (hcarry : h.NoCarry) (hstay : h.StaysInside) (hcs : ∀ c, c ∈ cs ↔ c ∈ h.allCopies)
    {i x : Nat} (hx : x < 2 ^ 26)
    (hout : i < 8 * h.groups → Mem.Outside (h.dstStartOffset + 1024 * 1024 + h.bufferOffset)
      (h.commGroups * h.blockBytes) x) : mramByte (BlockCopy.run cs m) i x = mramByte m i x := by
  apply BlockCopy.run_keeps
  intro c hc hrank
  obtain ⟨j, r, w, hw, rfl⟩ := mem_allCopies.1 ((hcs c).1 hc)
  rw [word_copy hstay hw] at hrank ⊢
  show Mem.Outside ((h.call j).dstLine r w) 64 _
  have hbyte : 8 * (x % 8) + i % 8 < 64 := by omega
  by_cases hsame : (h.call j).dstRgId = i / 8 % 8 ∧ (h.call j).dstOffset r w % 2 ^ 32 = 8 * (x / 8) % 2 ^ 32
  · -- the word of the byte is written: then it is in a buffer
    exfalso
    have hpos := AllToAll.groups_pos_of_iteration j.isLt
    obtain ⟨-, hgroup⟩ := call_groups hcarry j
    have hlt : h.linearIndex (h.dstOf j) < h.groups := AllToAll.linearIndex_lt (AllToAll.isGroup_dstOf hpos j)
    have hrank' : (h.call j).dstRank = i / 64 := hrank
    have hin := hout (by omega)
    have hdst := (word_offsets j r w).2
    have hdstLt := hw.dstOffset_lt
    have hinside := word_inside hw
    have hblock := (h.iteration_offsets j.isLt).2.1
    have hroom : j / h.commGroups % h.commGroups * h.blockBytes + h.blockBytes ≤ h.commGroups * h.blockBytes :=
      AllToAll.blocks_le hblock
    unfold Mem.Outside at hin
    omega
  · have hapart := wordAddress_apart (h.call j).dstRgId_lt (mod_eight_lt (i / 8)) ((h.call j).dstOffset_aligned r w)
      (Nat.dvd_mul_right 8 (x / 8)) hsame
    rw [hw.dstLine_eq]
    obtain hbelow | habove := hapart
    · exact .inr (by omega)
    · exact .inl (by omega)

end Run

end HostAllToAll

end DpuBackend.PidComm
