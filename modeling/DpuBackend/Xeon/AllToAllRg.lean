import DpuBackend.Lib.BlockCopy
import DpuBackend.Lib.Simd
import DpuBackend.Xeon.Address

/-
  The all-to-all kernel between two entangled groups (pid_comm.c).

  C ↔ Lean (src/hw/src/mappings/xeon_sp/pid_comm.c):
    apply_address_translation_on_mram_offset_a2a  ↔ applyAddressTranslationOnMramOffsetA2a
    the three lines of each mram_…_offset_1mb_wise ↔ offset1mbWise
    src_rotate_group_offset_256_64                ↔ rotateGroupOffset
    RNS_COPY_a2a, S_COPY_a2a                      ↔ rnsCopy
    the body of the loop of iter_length           ↔ iter64
    the body of the loop of remain_length         ↔ iter8
    one rns_chip_id, or the second branch         ↔ block
    xeon_sp_trans_all_to_all_rg                   ↔ transAllToAllRg

  `num_thread` and `thread_id` are not used: `iter_length` is set from them and then
  set again. Fences and flushes move no data.

  The loop of 64 bytes translates the first of its eight words and takes the next
  ones 128 bytes further each. `wordByWord_iff` says when that is where they are.
-/

namespace DpuBackend.Xeon

open DpuBackend.Lib

attribute [local instance] Simd.neZero_sixtyFour

/-- A copy of the translation of the transfer routines. -/
def applyAddressTranslationOnMramOffsetA2a (byteOffset : UInt32) : UInt32 :=
  applyAddressTranslationOnMramOffset byteOffset

/-- The product by 16 is 32 bits wide. -/
def offset1mbWise (mramOffset : Nat) : Nat :=
  let mram64BitWordOffset := (applyAddressTranslationOnMramOffsetA2a (UInt32.ofNat mramOffset)).toNat
  let nextData := bankOffsetNextData mram64BitWordOffset % 2 ^ 32
  nextData % bankChunkSize + nextData / bankChunkSize * bankNextChunkOffset

def rotateGroupOffset (rgId : Nat) : Nat := rgId % 4 * (256 * 1024) + rgId / 4 * 64

/-- The blocks of one call: eight when the x axis communicates. -/
def nrBlocks (commType : Nat) : Nat := if commType = 0 then 8 else 1

/-- A call of `xeon_sp_trans_all_to_all_rg`: two ranks, a group of each, and the offsets of
two areas of MRAM that do not overlap. -/
structure AllToAllRg where
  srcRank : Nat
  dstRank : Nat
  srcRgId : Nat
  dstRgId : Nat
  srcStartOffset : Nat
  dstStartOffset : Nat
  byteLength : Nat
  commType : Nat
  communicationBufferOffset : Nat
  srcRgId_lt : srcRgId < 8
  dstRgId_lt : dstRgId < 8
  src_aligned : 8 ∣ srcStartOffset
  dst_aligned : 8 ∣ dstStartOffset
  buffer_aligned : 8 ∣ communicationBufferOffset
  length_aligned : 8 ∣ byteLength
  src_fits : srcStartOffset + 1024 * 1024 + nrBlocks commType * byteLength ≤ 0x4000000
  dst_fits : dstStartOffset + 1024 * 1024 + communicationBufferOffset + nrBlocks commType * byteLength ≤ 0x4000000
  disjoint : srcRank = dstRank → srcRgId = dstRgId →
    Mem.Apart srcStartOffset (nrBlocks commType * byteLength)
      (dstStartOffset + communicationBufferOffset) (nrBlocks commType * byteLength)

/-- The regions of the ranks. -/
abbrev Regions := Nat → Mem UInt8

/-- The running offsets and the memory. -/
structure KernelState where
  srcMramOffset : Nat
  dstMramOffset : Nat
  regions : Regions

/-- The line of one word, through the translation. -/
def wordLine (rgId mramOffset : Nat) : Nat := offset1mbWise mramOffset + rotateGroupOffset rgId

/-! ## The lines of eight consecutive words -/

theorem mramWord_eq {o : Nat} (ho : o < 2 ^ 32) :
    mramWord o = 2 ^ 19 * (o / 2 ^ 22) + (2 ^ 18 * (o / 2 ^ 14 % 2) + (2 ^ 11 * (o / 2 ^ 15 % 2 ^ 7) + o % 2 ^ 14 / 8)) := by
  have hto : (UInt32.ofNat o).toNat = o := UInt32.toNat_ofNat_of_lt' ho
  rw [mramWord, applyAddressTranslation_toNat, hto]
  omega

/-- The kernel finds a word where the transfer routines do. -/
theorem wordLine_eq {rg o : Nat} (hrg : rg < 8) (ho : o < 2 ^ 26) (h8 : 8 ∣ o) : wordLine rg o = wordAddress rg o := by
  have ho' : o < 2 ^ 32 := ho.trans (by decide)
  have hto : (UInt32.ofNat o).toNat = o := UInt32.toNat_ofNat_of_lt' ho'
  have htrans : (applyAddressTranslationOnMramOffset (UInt32.ofNat o)).toNat = 8 * mramWord o := by
    rw [mramWord, applyAddressTranslation_toNat, hto]
    omega
  have hword : mramWord o < 2 ^ 23 := by
    rw [mramWord_eq (by omega)]
    omega
  rw [wordAddress_eq hrg]
  simp only [wordLine, offset1mbWise, applyAddressTranslationOnMramOffsetA2a, htrans, rotateGroupOffset,
    bankOffsetNextData, bankChunkSize, bankNextChunkOffset]
  omega

/-- Within 8 KB of MRAM the lines of a group are 128 bytes apart. -/
theorem wordAddress_add {rg o j : Nat} (hrg : rg < 8) (ho : o + 8 * j < 2 ^ 32) (h8 : 8 ∣ o)
    (hin : o % 8192 + 8 * j < 8192) : wordAddress rg o + 128 * j = wordAddress rg (o + 8 * j) := by
  have hword : mramWord (o + 8 * j) = mramWord o + j := by
    rw [mramWord_eq ho, mramWord_eq (by omega)]
    omega
  have hcol : mramWord o % 1024 = o % 8192 / 8 := by
    rw [mramWord_eq (by omega)]
    omega
  rw [wordAddress_eq hrg, wordAddress_eq hrg, hword]
  omega

/-- The next line past 8 KB of MRAM is in the half of the bank that holds no word. -/
theorem wordAddress_past {rg d o o' j : Nat} (hrg : rg < 8) (hd : d < 8) (ho : o < 2 ^ 32) (hj : j < 8)
    (hpast : 8192 ≤ o % 8192 + 8 * j) : Mem.Apart (wordAddress rg o + 128 * j) 64 (wordAddress d o') 64 := by
  have hcol : mramWord o % 1024 = o % 8192 / 8 := by
    rw [mramWord_eq ho]
    omega
  rw [wordAddress_eq hrg, wordAddress_eq hd, hcol]
  unfold Mem.Apart
  omega

namespace AllToAllRg

variable (t : AllToAllRg)

/-- One cache line, with its 64-bit lanes rotated by `rns` bytes. `S_COPY_a2a` is the copy that
does not rotate. -/
def rnsCopy (rns srcAddr dstAddr : Nat) : BlockCopy Nat UInt8 64 where
  srcRegion := t.srcRank
  srcAddr := srcAddr
  dstRegion := t.dstRank
  dstAddr := dstAddr
  map := fun v => Simd.rolEpi64Bytes rns v

def iterLength : Nat := if t.srcStartOffset % 64 = 0 ∧ t.dstStartOffset % 64 = 0 then t.byteLength / 64 else 0

def remainLength : Nat :=
  if t.srcStartOffset % 64 = 0 ∧ t.dstStartOffset % 64 = 0 then (t.byteLength % 64 + 7) / 8 else t.byteLength / 8

/-- Eight lines, `src_off_gran` bytes apart at both ends. -/
def iter64 (rns : Nat) (s : KernelState) : KernelState :=
  let src := offset1mbWise s.srcMramOffset + rotateGroupOffset t.srcRgId
  let dst := offset1mbWise s.dstMramOffset + rotateGroupOffset t.dstRgId
  { srcMramOffset := s.srcMramOffset + 64
    dstMramOffset := s.dstMramOffset + 64
    regions := (List.range 8).foldl (fun m j => (t.rnsCopy rns (src + 128 * j) (dst + 128 * j)).exec m) s.regions }

def iter8 (rns : Nat) (s : KernelState) : KernelState :=
  let src := offset1mbWise s.srcMramOffset + rotateGroupOffset t.srcRgId
  let dst := offset1mbWise s.dstMramOffset + rotateGroupOffset t.dstRgId
  { srcMramOffset := s.srcMramOffset + 8
    dstMramOffset := s.dstMramOffset + 8
    regions := (t.rnsCopy rns src dst).exec s.regions }

def block (s : KernelState) (rns : Nat) : KernelState :=
  (List.range t.remainLength).foldl (fun s _ => t.iter8 rns s)
    ((List.range t.iterLength).foldl (fun s _ => t.iter64 rns s) s)

/-- `xeon_sp_trans_all_to_all_rg` -/
def transAllToAllRg (m : Regions) : Regions :=
  ((List.range (nrBlocks t.commType)).foldl t.block
    { srcMramOffset := t.srcStartOffset + 1024 * 1024
      dstMramOffset := t.dstStartOffset + 1024 * 1024 + t.communicationBufferOffset
      regions := m }).regions

/-! ## Word by word -/

/-- The MRAM offset of word `w` of block `r` at the source. -/
def srcOffset (r w : Nat) : Nat := t.srcStartOffset + 1024 * 1024 + (r * t.byteLength + 8 * w)

def dstOffset (r w : Nat) : Nat :=
  t.dstStartOffset + 1024 * 1024 + t.communicationBufferOffset + (r * t.byteLength + 8 * w)

def srcLine (r w : Nat) : Nat := wordLine t.srcRgId (t.srcOffset r w)

def dstLine (r w : Nat) : Nat := wordLine t.dstRgId (t.dstOffset r w)

/-- A copy for each word of each block, at the places `src` and `dst`. -/
def copies (src dst : Nat → Nat → Nat) : List (BlockCopy Nat UInt8 64) :=
  (List.range (nrBlocks t.commType)).flatMap fun r =>
    (List.range (t.byteLength / 8)).map fun w => t.rnsCopy r (src r w) (dst r w)

/-- Each word on its own. -/
def wordCopies : List (BlockCopy Nat UInt8 64) := t.copies t.srcLine t.dstLine

/-- The kernel does what the copies word by word do, and touches nothing else. -/
structure WordByWord : Prop where
  words : ∀ m, t.transAllToAllRg m = BlockCopy.run t.wordCopies m
  others : ∀ m rank x, (∀ r < nrBlocks t.commType, ∀ w < t.byteLength / 8, rank = t.dstRank →
    Mem.Outside (t.dstLine r w) 64 x) → t.transAllToAllRg m rank x = m rank x

/-! ## The kernel as a run of copies -/

/-- Where the loop of 64 bytes takes word `w` of block `r` from. -/
def wideSrc (r w : Nat) : Nat := wordLine t.srcRgId (t.srcOffset r (w - w % 8)) + 128 * (w % 8)

def wideDst (r w : Nat) : Nat := wordLine t.dstRgId (t.dstOffset r (w - w % 8)) + 128 * (w % 8)

def kernelSrc (r w : Nat) : Nat := if w < 8 * t.iterLength then t.wideSrc r w else t.srcLine r w

def kernelDst (r w : Nat) : Nat := if w < 8 * t.iterLength then t.wideDst r w else t.dstLine r w

theorem iterLength_add : 8 * t.iterLength + t.remainLength = t.byteLength / 8 := by
  have h8 := t.length_aligned
  unfold iterLength remainLength
  split <;> omega

variable {t} {s : KernelState} {r i : Nat}

/-- The running offsets are those of word `w` of block `r`. -/
structure At (t : AllToAllRg) (s : KernelState) (r w : Nat) : Prop where
  src : s.srcMramOffset = t.srcOffset r w
  dst : s.dstMramOffset = t.dstOffset r w

/-- A fold of copies over the words of a block. -/
def copyWords (t : AllToAllRg) (r : Nat) (src dst : Nat → Nat → Nat) (m : Regions) (w : Nat) : Regions :=
  (t.rnsCopy r (src r w) (dst r w)).exec m

theorem iter64_regions (h : t.At s r (8 * i)) :
    (t.iter64 r s).regions =
      (List.range 8).foldl (fun m j => t.copyWords r t.wideSrc t.wideDst m (8 * i + j)) s.regions := by
  apply List.foldl_ext
  intro m j hj
  have hlt : j < 8 := List.mem_range.1 hj
  have hrem : (8 * i + j) % 8 = j := by omega
  have hbase : 8 * i + j - j = 8 * i := Nat.add_sub_cancel _ _
  simp only [copyWords, wideSrc, wideDst, hrem, hbase, wordLine, h.src, h.dst]

theorem iter64_loop (h : t.At s r 0) (n : Nat) :
    t.At ((List.range n).foldl (fun s _ => t.iter64 r s) s) r (8 * n) ∧
      ((List.range n).foldl (fun s _ => t.iter64 r s) s).regions =
        (List.range (8 * n)).foldl (t.copyWords r t.wideSrc t.wideDst) s.regions := by
  induction n with
  | zero => exact ⟨h, rfl⟩
  | succ n ih =>
    obtain ⟨hat, hregions⟩ := ih
    rw [List.range_succ, List.foldl_append]
    refine ⟨⟨?_, ?_⟩, ?_⟩
    · show _ + 64 = _
      rw [hat.src, srcOffset, srcOffset]
      omega
    · show _ + 64 = _
      rw [hat.dst, dstOffset, dstOffset]
      omega
    · show (t.iter64 r _).regions = _
      rw [iter64_regions hat, hregions, Nat.mul_succ]
      exact foldl_range_add _ _ _ _

theorem iter8_regions {w : Nat} (h : t.At s r w) :
    (t.iter8 r s).regions = t.copyWords r t.srcLine t.dstLine s.regions w := by
  simp only [iter8, copyWords, srcLine, dstLine, wordLine, h.src, h.dst]

theorem iter8_loop {w : Nat} (h : t.At s r w) (n : Nat) :
    t.At ((List.range n).foldl (fun s _ => t.iter8 r s) s) r (w + n) ∧
      ((List.range n).foldl (fun s _ => t.iter8 r s) s).regions =
        (List.range n).foldl (fun m j => t.copyWords r t.srcLine t.dstLine m (w + j)) s.regions := by
  induction n with
  | zero => exact ⟨h, rfl⟩
  | succ n ih =>
    obtain ⟨hat, hregions⟩ := ih
    rw [List.range_succ, List.foldl_append, List.foldl_append]
    refine ⟨⟨?_, ?_⟩, ?_⟩
    · show _ + 8 = _
      rw [hat.src, srcOffset, srcOffset]
      omega
    · show _ + 8 = _
      rw [hat.dst, dstOffset, dstOffset]
      omega
    · rw [← hregions]
      exact iter8_regions hat

/-- One block: its words, and the offsets at the next block. -/
theorem block_spec (h : t.At s r 0) :
    t.At (t.block s r) (r + 1) 0 ∧
      (t.block s r).regions =
        (List.range (t.byteLength / 8)).foldl (t.copyWords r t.kernelSrc t.kernelDst) s.regions := by
  obtain ⟨hat64, hregions64⟩ := iter64_loop h t.iterLength
  obtain ⟨hat8, hregions8⟩ := iter8_loop hat64 t.remainLength
  have hwords := t.iterLength_add
  have h8 := t.length_aligned
  have hnext : (r + 1) * t.byteLength = r * t.byteLength + t.byteLength := Nat.succ_mul _ _
  rw [hwords] at hat8
  refine ⟨⟨?_, ?_⟩, ?_⟩
  · show KernelState.srcMramOffset _ = _
    rw [block, hat8.src, srcOffset, srcOffset, hnext]
    omega
  · show KernelState.dstMramOffset _ = _
    rw [block, hat8.dst, dstOffset, dstOffset, hnext]
    omega
  · rw [block, hregions8, hregions64, ← hwords, ← foldl_range_add]
    have hwide : (List.range (8 * t.iterLength)).foldl (t.copyWords r t.wideSrc t.wideDst) s.regions =
        (List.range (8 * t.iterLength)).foldl (t.copyWords r t.kernelSrc t.kernelDst) s.regions := by
      apply List.foldl_ext
      intro m w hw
      simp only [copyWords, kernelSrc, kernelDst, if_pos (List.mem_range.1 hw)]
    rw [hwide]
    apply List.foldl_ext
    intro m j _
    simp only [copyWords, kernelSrc, kernelDst, if_neg (Nat.not_lt.2 (Nat.le_add_right _ j))]

theorem transAllToAllRg_eq (m : Regions) :
    t.transAllToAllRg m = BlockCopy.run (t.copies t.kernelSrc t.kernelDst) m := by
  have hloop : ∀ n, t.At ((List.range n).foldl t.block ⟨t.srcOffset 0 0, t.dstOffset 0 0, m⟩) n 0 ∧
      ((List.range n).foldl t.block ⟨t.srcOffset 0 0, t.dstOffset 0 0, m⟩).regions =
        (List.range n).foldl (fun m r =>
          (List.range (t.byteLength / 8)).foldl (t.copyWords r t.kernelSrc t.kernelDst) m) m := by
    intro n
    induction n with
    | zero => exact ⟨⟨rfl, rfl⟩, rfl⟩
    | succ n ih =>
      obtain ⟨hat, hregions⟩ := ih
      rw [List.range_succ, List.foldl_append, List.foldl_append]
      obtain ⟨hnext, hblock⟩ := block_spec hat
      exact ⟨hnext, by rw [← hregions]; exact hblock⟩
  have hstart : t.transAllToAllRg m =
      ((List.range (nrBlocks t.commType)).foldl t.block ⟨t.srcOffset 0 0, t.dstOffset 0 0, m⟩).regions := by
    simp only [transAllToAllRg, srcOffset, dstOffset, Nat.zero_mul, Nat.mul_zero, Nat.add_zero]
  rw [hstart, (hloop _).2, BlockCopy.run, copies, List.foldl_flatMap]
  simp only [List.foldl_map]
  rfl

/-! ## When the two agree -/

section Places

variable {w r' w' : Nat}

/-- A word of the call. -/
structure IsWord (t : AllToAllRg) (r w : Nat) : Prop where
  block : r < nrBlocks t.commType
  word : w < t.byteLength / 8

/-- The bytes of a word are inside the area. -/
theorem IsWord.inside (h : t.IsWord r w) :
    r * t.byteLength + 8 * w + 8 ≤ nrBlocks t.commType * t.byteLength := by
  have hblocks : (r + 1) * t.byteLength ≤ nrBlocks t.commType * t.byteLength := Nat.mul_le_mul_right _ h.block
  have hword := h.word
  rw [Nat.add_mul, Nat.one_mul] at hblocks
  omega

/-- Different words have different places in the area. -/
theorem IsWord.place_ne (h : t.IsWord r w) (h' : t.IsWord r' w') (hne : ¬(r = r' ∧ w = w')) :
    r * t.byteLength + 8 * w ≠ r' * t.byteLength + 8 * w' := by
  intro heq
  have hw := h.word
  have hw' := h'.word
  obtain hlt | rfl | hgt := Nat.lt_trichotomy r r'
  · have hblocks : (r + 1) * t.byteLength ≤ r' * t.byteLength := Nat.mul_le_mul_right _ hlt
    rw [Nat.add_mul, Nat.one_mul] at hblocks
    omega
  · exact hne ⟨rfl, by omega⟩
  · have hblocks : (r' + 1) * t.byteLength ≤ r * t.byteLength := Nat.mul_le_mul_right _ hgt
    rw [Nat.add_mul, Nat.one_mul] at hblocks
    omega

theorem place_aligned (t : AllToAllRg) (r w : Nat) : 8 ∣ r * t.byteLength + 8 * w :=
  Nat.dvd_add (Nat.dvd_mul_left_of_dvd t.length_aligned r) (Nat.dvd_mul_right 8 w)

theorem srcOffset_aligned (t : AllToAllRg) (r w : Nat) : 8 ∣ t.srcOffset r w := by
  have hplace := t.place_aligned r w
  have hstart := t.src_aligned
  unfold srcOffset
  omega

theorem dstOffset_aligned (t : AllToAllRg) (r w : Nat) : 8 ∣ t.dstOffset r w := by
  have hplace := t.place_aligned r w
  have hstart := t.dst_aligned
  have hbuffer := t.buffer_aligned
  unfold dstOffset
  omega

theorem IsWord.srcOffset_lt (h : t.IsWord r w) : t.srcOffset r w + 8 ≤ 2 ^ 26 := by
  have hinside := h.inside
  have hfits := t.src_fits
  unfold srcOffset
  omega

theorem IsWord.dstOffset_lt (h : t.IsWord r w) : t.dstOffset r w + 8 ≤ 2 ^ 26 := by
  have hinside := h.inside
  have hfits := t.dst_fits
  unfold dstOffset
  omega

theorem IsWord.srcLine_eq (h : t.IsWord r w) : t.srcLine r w = wordAddress t.srcRgId (t.srcOffset r w) :=
  wordLine_eq t.srcRgId_lt (by have hlt := h.srcOffset_lt; omega) (t.srcOffset_aligned r w)

theorem IsWord.dstLine_eq (h : t.IsWord r w) : t.dstLine r w = wordAddress t.dstRgId (t.dstOffset r w) :=
  wordLine_eq t.dstRgId_lt (by have hlt := h.dstOffset_lt; omega) (t.dstOffset_aligned r w)

theorem IsWord.srcLine_apart (h : t.IsWord r w) (h' : t.IsWord r' w') (hne : ¬(r = r' ∧ w = w')) :
    Mem.Apart (t.srcLine r w) 64 (t.srcLine r' w') 64 := by
  have hlt := h.srcOffset_lt
  have hlt' := h'.srcOffset_lt
  have hplace := h.place_ne h' hne
  rw [h.srcLine_eq, h'.srcLine_eq]
  apply wordAddress_apart t.srcRgId_lt t.srcRgId_lt (t.srcOffset_aligned r w) (t.srcOffset_aligned r' w')
  intro heq
  unfold srcOffset at hlt hlt' heq
  omega

theorem IsWord.dstLine_apart (h : t.IsWord r w) (h' : t.IsWord r' w') (hne : ¬(r = r' ∧ w = w')) :
    Mem.Apart (t.dstLine r w) 64 (t.dstLine r' w') 64 := by
  have hlt := h.dstOffset_lt
  have hlt' := h'.dstOffset_lt
  have hplace := h.place_ne h' hne
  rw [h.dstLine_eq, h'.dstLine_eq]
  apply wordAddress_apart t.dstRgId_lt t.dstRgId_lt (t.dstOffset_aligned r w) (t.dstOffset_aligned r' w')
  intro heq
  unfold dstOffset at hlt hlt' heq
  omega

/-- No destination word is a source word. -/
theorem IsWord.ends_apart (h : t.IsWord r w) (h' : t.IsWord r' w') (hrank : t.srcRank = t.dstRank) :
    Mem.Apart (t.dstLine r w) 64 (t.srcLine r' w') 64 := by
  have hlt := h.dstOffset_lt
  have hlt' := h'.srcOffset_lt
  have hinside := h.inside
  have hinside' := h'.inside
  rw [h.dstLine_eq, h'.srcLine_eq]
  apply wordAddress_apart t.dstRgId_lt t.srcRgId_lt (t.dstOffset_aligned r w) (t.srcOffset_aligned r' w')
  intro heq
  obtain hbelow | habove := t.disjoint hrank heq.1.symm
  · unfold dstOffset srcOffset at *
    omega
  · unfold dstOffset srcOffset at *
    omega

/-- Word `w` is not past 8 KB from the first of its eight words. -/
def SrcInside (t : AllToAllRg) (r w : Nat) : Prop :=
  w < 8 * t.iterLength → t.srcOffset r (w - w % 8) % 8192 + 8 * (w % 8) < 8192

def DstInside (t : AllToAllRg) (r w : Nat) : Prop :=
  w < 8 * t.iterLength → t.dstOffset r (w - w % 8) % 8192 + 8 * (w % 8) < 8192

theorem IsWord.first (h : t.IsWord r w) : t.IsWord r (w - w % 8) :=
  ⟨h.block, (Nat.sub_le w _).trans_lt h.word⟩

theorem srcOffset_first (t : AllToAllRg) (r w : Nat) : t.srcOffset r (w - w % 8) + 8 * (w % 8) = t.srcOffset r w := by
  unfold srcOffset
  omega

theorem dstOffset_first (t : AllToAllRg) (r w : Nat) : t.dstOffset r (w - w % 8) + 8 * (w % 8) = t.dstOffset r w := by
  unfold dstOffset
  omega

theorem kernelSrc_inside (h : t.IsWord r w) (hin : t.SrcInside r w) : t.kernelSrc r w = t.srcLine r w := by
  unfold kernelSrc
  split
  · next hwide =>
    have hlt := h.srcOffset_lt
    have hfirst : t.wideSrc r w = t.srcLine r (w - w % 8) + 128 * (w % 8) := rfl
    rw [hfirst, h.first.srcLine_eq, h.srcLine_eq, ← srcOffset_first t r w]
    apply wordAddress_add t.srcRgId_lt _ (t.srcOffset_aligned r _) (hin hwide)
    rw [srcOffset_first]
    omega
  · rfl

theorem kernelDst_inside (h : t.IsWord r w) (hin : t.DstInside r w) : t.kernelDst r w = t.dstLine r w := by
  unfold kernelDst
  split
  · next hwide =>
    have hlt := h.dstOffset_lt
    have hfirst : t.wideDst r w = t.dstLine r (w - w % 8) + 128 * (w % 8) := rfl
    rw [hfirst, h.first.dstLine_eq, h.dstLine_eq, ← dstOffset_first t r w]
    apply wordAddress_add t.dstRgId_lt _ (t.dstOffset_aligned r _) (hin hwide)
    rw [dstOffset_first]
    omega
  · rfl

/-- A word that is past is not looked for in any word's line. -/
theorem kernelSrc_past {d o : Nat} (h : t.IsWord r w) (hpast : ¬ t.SrcInside r w) (hd : d < 8) :
    Mem.Apart (t.kernelSrc r w) 64 (wordAddress d o) 64 := by
  obtain ⟨hwide, hcross⟩ := Classical.not_imp.1 hpast
  have hlt := h.first.srcOffset_lt
  have hfirst : t.kernelSrc r w = t.srcLine r (w - w % 8) + 128 * (w % 8) := if_pos hwide
  rw [hfirst, h.first.srcLine_eq]
  exact wordAddress_past t.srcRgId_lt hd (by omega) (Nat.mod_lt _ (by decide)) (Nat.le_of_not_lt hcross)

theorem kernelDst_past {d o : Nat} (h : t.IsWord r w) (hpast : ¬ t.DstInside r w) (hd : d < 8) :
    Mem.Apart (t.kernelDst r w) 64 (wordAddress d o) 64 := by
  obtain ⟨hwide, hcross⟩ := Classical.not_imp.1 hpast
  have hlt := h.first.dstOffset_lt
  have hfirst : t.kernelDst r w = t.dstLine r (w - w % 8) + 128 * (w % 8) := if_pos hwide
  rw [hfirst, h.first.dstLine_eq]
  exact wordAddress_past t.dstRgId_lt hd (by omega) (Nat.mod_lt _ (by decide)) (Nat.le_of_not_lt hcross)

theorem mem_copies {src dst : Nat → Nat → Nat} {c : BlockCopy Nat UInt8 64} :
    c ∈ t.copies src dst ↔ ∃ r w, t.IsWord r w ∧ t.rnsCopy r (src r w) (dst r w) = c := by
  simp only [copies, List.mem_flatMap, List.mem_map, List.mem_range]
  constructor
  · intro ⟨r, hr, w, hw, hc⟩
    exact ⟨r, w, ⟨hr, hw⟩, hc⟩
  · intro ⟨r, w, h, hc⟩
    exact ⟨r, h.block, w, h.word, hc⟩

end Places

section Witness

variable {w : Nat}

/-- One source word is all ones, every other byte of every rank is 0. -/
def marked (t : AllToAllRg) (r w : Nat) : Regions := fun rank x =>
  if rank = t.srcRank ∧ t.srcLine r w ≤ x ∧ x < t.srcLine r w + 64 then 1 else 0

theorem marked_outside {rank x : Nat} (h : rank = t.srcRank → Mem.Outside (t.srcLine r w) 64 x) :
    t.marked r w rank x = 0 := by
  unfold marked
  rw [if_neg]
  rintro ⟨hrank, hlow, hhigh⟩
  obtain hbelow | habove := h hrank <;> omega

theorem marked_dst (h : t.IsWord r w) : (t.marked r w t.dstRank).load (t.dstLine r w) 64 = fun _ => 0 := by
  funext i
  apply marked_outside
  intro hrank
  obtain hbelow | habove := h.ends_apart h hrank.symm
  · exact .inl (by omega)
  · exact .inr (by omega)

/-- Word by word, the mark arrives. -/
theorem wordCopies_marked (h : t.IsWord r w) :
    (BlockCopy.run t.wordCopies (t.marked r w) t.dstRank).load (t.dstLine r w) 64 = fun _ => 1 := by
  have hload : (t.marked r w t.srcRank).load (t.srcLine r w) 64 = fun _ => 1 := by
    funext i
    apply if_pos
    exact ⟨rfl, Nat.le_add_right _ _, Nat.add_lt_add_left i.isLt _⟩
  have hrun := BlockCopy.run_delivers (c := t.rnsCopy r (t.srcLine r w) (t.dstLine r w)) (m := t.marked r w)
    (mem_copies.2 ⟨r, w, h, rfl⟩) ?_ ?_
  · have hmap : (t.rnsCopy r (t.srcLine r w) (t.dstLine r w)).map (fun _ => 1) = fun _ => 1 := rfl
    rw [← hmap, ← hload]
    exact hrun
  · intro c' hc' hrank
    obtain ⟨r', w', h', rfl⟩ := mem_copies.1 hc'
    exact h'.ends_apart h hrank.symm
  · intro c' hc'
    obtain ⟨r', w', h', rfl⟩ := mem_copies.1 hc'
    by_cases hsame : r' = r ∧ w' = w
    · left
      rw [hsame.1, hsame.2]
    · right
      intro _
      exact h'.dstLine_apart h hsame

/-- Past 8 KB at the source, the kernel does not read the word. -/
theorem kernel_marked_src (h : t.IsWord r w) (hpast : ¬ t.SrcInside r w) :
    (t.transAllToAllRg (t.marked r w) t.dstRank).load (t.dstLine r w) 64 = fun _ => 0 := by
  have hskips : ∀ c ∈ t.copies t.kernelSrc t.kernelDst, c.SkipsReading t.srcRank (t.srcLine r w) := by
    intro c hc _
    obtain ⟨r', w', h', rfl⟩ := mem_copies.1 hc
    show Mem.Apart (t.kernelSrc r' w') 64 (t.srcLine r w) 64
    by_cases hin : t.SrcInside r' w'
    · rw [kernelSrc_inside h' hin]
      apply h'.srcLine_apart h
      rintro ⟨rfl, rfl⟩
      exact hpast hin
    · rw [h.srcLine_eq]
      exact kernelSrc_past h' hin t.srcRgId_lt
  have hmap : ∀ c ∈ t.copies t.kernelSrc t.kernelDst, c.map (fun _ => 0) = fun _ => 0 := by
    intro c hc
    obtain ⟨r', w', -, rfl⟩ := mem_copies.1 hc
    rfl
  rw [transAllToAllRg_eq]
  funext i
  apply BlockCopy.run_ignores hmap hskips fun _ _ => marked_outside
  intro hrank
  obtain hbelow | habove := h.ends_apart h hrank.symm
  · exact .inl (by omega)
  · exact .inr (by omega)

/-- Past 8 KB at the destination, the kernel does not write the word. -/
theorem kernel_marked_dst (h : t.IsWord r w) (hpast : ¬ t.DstInside r w) :
    (t.transAllToAllRg (t.marked r w) t.dstRank).load (t.dstLine r w) 64 = fun _ => 0 := by
  have hskips : ∀ c ∈ t.copies t.kernelSrc t.kernelDst, c.SkipsWriting t.dstRank (t.dstLine r w) := by
    intro c hc _
    obtain ⟨r', w', h', rfl⟩ := mem_copies.1 hc
    show Mem.Apart (t.kernelDst r' w') 64 (t.dstLine r w) 64
    by_cases hin : t.DstInside r' w'
    · rw [kernelDst_inside h' hin]
      apply h'.dstLine_apart h
      rintro ⟨rfl, rfl⟩
      exact hpast hin
    · rw [h.dstLine_eq]
      exact kernelDst_past h' hin t.dstRgId_lt
  rw [transAllToAllRg_eq, BlockCopy.run_skips hskips, marked_dst h]

end Witness

variable (t)

/-- When the loop of 64 bytes is taken, none of its steps runs over a multiple of 8 KB of MRAM
at either end. -/
def NoCrossing : Prop :=
  t.srcStartOffset % 64 = 0 → t.dstStartOffset % 64 = 0 →
    ∀ r < nrBlocks t.commType, ∀ i < t.byteLength / 64,
      (t.srcStartOffset + 1024 * 1024 + r * t.byteLength + 64 * i) % 8192 ≤ 8192 - 64 ∧
        (t.dstStartOffset + 1024 * 1024 + t.communicationBufferOffset + r * t.byteLength + 64 * i) % 8192 ≤ 8192 - 64

variable {t}

theorem NoCrossing.inside (h : t.NoCrossing) {w : Nat} (hr : r < nrBlocks t.commType) :
    t.SrcInside r w ∧ t.DstInside r w := by
  have hstep : w < 8 * t.iterLength → t.srcOffset r (w - w % 8) % 8192 ≤ 8192 - 64 ∧
      t.dstOffset r (w - w % 8) % 8192 ≤ 8192 - 64 := by
    intro hwide
    unfold iterLength at hwide
    split at hwide
    · next haligned =>
      have hfirst : 64 * (w / 8) = 8 * (w - w % 8) := by omega
      obtain ⟨hsrc, hdst⟩ := h haligned.1 haligned.2 r hr (w / 8) (by omega)
      unfold srcOffset dstOffset
      rw [← hfirst, ← Nat.add_assoc, ← Nat.add_assoc]
      exact ⟨hsrc, hdst⟩
    · omega
  constructor
  · intro hwide
    have hle := (hstep hwide).1
    omega
  · intro hwide
    have hle := (hstep hwide).2
    omega

/-- Agreeing on all memories, no word is past. -/
theorem inside_of_words (h : ∀ m, t.transAllToAllRg m = BlockCopy.run t.wordCopies m) {w : Nat} (hw : t.IsWord r w) :
    t.SrcInside r w ∧ t.DstInside r w := by
  have hmark : (t.transAllToAllRg (t.marked r w) t.dstRank).load (t.dstLine r w) 64 = fun _ => 1 := by
    rw [h]
    exact wordCopies_marked hw
  constructor
  · by_contra hpast
    rw [kernel_marked_src hw hpast] at hmark
    exact absurd (congrFun hmark 0) (by decide)
  · by_contra hpast
    rw [kernel_marked_dst hw hpast] at hmark
    exact absurd (congrFun hmark 0) (by decide)

/-- A step is inside when its last word is. -/
theorem noCrossing_of_inside (h : ∀ r w, t.IsWord r w → t.SrcInside r w ∧ t.DstInside r w) : t.NoCrossing := by
  intro hsrc hdst r hr i hi
  have hiter : t.iterLength = t.byteLength / 64 := if_pos ⟨hsrc, hdst⟩
  have hlast : t.IsWord r (8 * i + 7) := ⟨hr, by omega⟩
  obtain ⟨hsrcIn, hdstIn⟩ := h r (8 * i + 7) hlast
  have hfirst : 8 * i + 7 - (8 * i + 7) % 8 = 8 * i := by omega
  have hrem : (8 * i + 7) % 8 = 7 := by omega
  have hsrcStep := hsrcIn (by omega)
  have hdstStep := hdstIn (by omega)
  have hsrc8 := t.srcOffset_aligned r (8 * i)
  have hdst8 := t.dstOffset_aligned r (8 * i)
  rw [hfirst, hrem] at hsrcStep hdstStep
  unfold srcOffset at hsrcStep hsrc8
  unfold dstOffset at hdstStep hdst8
  constructor <;> omega

/-- The kernel is the copies word by word exactly when the loop of 64 bytes is not taken or
stays within the 8 KB it translated. -/
theorem wordByWord_iff (t : AllToAllRg) : t.WordByWord ↔ t.NoCrossing := by
  constructor
  · intro h
    exact noCrossing_of_inside fun r w hw => inside_of_words h.words hw
  · intro h
    have hcopies : t.copies t.kernelSrc t.kernelDst = t.wordCopies := by
      apply List.flatMap_congr
      intro r hr
      apply List.map_congr_left
      intro w hw
      have hword : t.IsWord r w := ⟨List.mem_range.1 hr, List.mem_range.1 hw⟩
      obtain ⟨hsrc, hdst⟩ := h.inside hword.block
      rw [kernelSrc_inside hword hsrc, kernelDst_inside hword hdst]
    have hwords : ∀ m, t.transAllToAllRg m = BlockCopy.run t.wordCopies m := by
      intro m
      rw [transAllToAllRg_eq, hcopies]
    refine ⟨hwords, fun m rank x hout => ?_⟩
    rw [hwords]
    apply BlockCopy.run_keeps
    intro c hc hrank
    obtain ⟨r, w, hword, rfl⟩ := mem_copies.1 hc
    exact hout r hword.block w hword.word hrank.symm

/-- 64 bytes to a place 56 bytes before a multiple of 8 KB: both start offsets are
multiples of 64, the buffer offset is not. -/
def acrossChunk : AllToAllRg where
  srcRank := 0
  dstRank := 1
  srcRgId := 0
  dstRgId := 0
  srcStartOffset := 0
  dstStartOffset := 0
  byteLength := 64
  commType := 1
  communicationBufferOffset := 8136
  srcRgId_lt := by decide
  dstRgId_lt := by decide
  src_aligned := by decide
  dst_aligned := by decide
  buffer_aligned := by decide
  length_aligned := by decide
  src_fits := by decide
  dst_fits := by decide
  disjoint := nofun

/-- The last word goes to the window after the chunk instead of the next chunk. -/
theorem last_word_lost_across_chunk : ¬ acrossChunk.WordByWord := by
  intro h
  have hword : acrossChunk.IsWord 0 7 := ⟨by decide, by decide⟩
  have hpast : ¬ acrossChunk.DstInside 0 7 := by
    intro hin
    exact absurd (hin (by decide)) (by decide)
  exact hpast (inside_of_words h.words hword).2

end AllToAllRg

end DpuBackend.Xeon
