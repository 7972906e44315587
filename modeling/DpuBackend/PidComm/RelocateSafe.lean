import DpuBackend.PidComm.RelocateInPlace

/-
  Which launches in place are safe on an SDK of which only the description is known.

  A chunk is a call the SDK describes when the blocks are whole words of 8 bytes and their
  region begins at one, inside the MRAM (`wordBlock_chunk`); otherwise a chunk of the first
  block is not (`onWords_of_chunks`). A launch with such a call is at the mercy of the SDK:
  on `Sdk.spoiling` it changes a cell outside the region. So a launch rotates its blocks
  when it keeps to the description and its tasklets rotate them byte by byte
  (`rotatesInPlace_iff`).
-/

namespace DpuBackend.PidComm

open DpuBackend.Lib

/-! ## Chunks as calls of the SDK -/

section Chunks

variable {b : Build} {words size offset : Nat} (hwords : words * b.wordBytes = size)
include hwords

theorem wordBlock_chunk {t it : Nat} (hsize : 8 ∣ size) (hbase : 8 ∣ b.heap + offset)
    (hfit : b.heap + offset + size * (t + 1) ≤ b.mram + 2 ^ 26) (hit : 2048 * it < size) :
    WordBlock b (chunkAddr b offset words t it) (chunkBytes b words it) := by
  have hlow := b.mram_low
  have hheap := b.mram_le_heap
  rw [chunkAddr_eq hwords (by omega) hit, chunkBytes_eq hwords hit]
  have hblock : 8 ∣ size * t := Nat.dvd_mul_right_of_dvd hsize t
  rw [Nat.mul_succ] at hfit
  unfold WordBlock
  omega

/-- A chunk of block `t` of one region as it is read, and written as one of block `u` of another. -/
theorem documented_chunk {n target t u it : Nat} {x : Transfer} (hsize : 8 ∣ size) (hsource : 8 ∣ b.heap + offset)
    (htarget : 8 ∣ b.heap + target) (hreads : b.heap + offset + n * size ≤ b.mram + 2 ^ 26)
    (hwrites : b.heap + target + n * size ≤ b.mram + 2 ^ 26) (ht : t < n) (hu : u < n) (hit : it < chunks b words)
    (hx : x = .mramRead (chunkAddr b offset words t it) (chunkBytes b words it) ∨
      x = .mramWrite (chunkAddr b target words u it) (chunkBytes b words it)) : x.Documented b := by
  have hchunk := (lt_chunks_iff hwords).mp hit
  obtain rfl | rfl := hx
  · have hend : size * t + size ≤ n * size := block_le ht
    exact wordBlock_chunk hwords hsize hsource (by rw [Nat.mul_succ]; omega) hchunk
  · have hend : size * u + size ≤ n * size := block_le hu
    exact wordBlock_chunk hwords hsize htarget (by rw [Nat.mul_succ]; omega) hchunk

/-- The first chunk begins where the region does, and the last has what is left of the block. -/
theorem onWords_of_chunks (hpos : 0 < size) (hfit : b.heap + offset + size ≤ b.mram + 2 ^ 26)
    (h : ∀ it, 2048 * it < size → WordBlock b (chunkAddr b offset words 0 it) (chunkBytes b words it)) :
    8 ∣ size ∧ 8 ∣ b.heap + offset := by
  have hlow := b.mram_low
  have haddr : ∀ it, 2048 * it < size → chunkAddr b offset words 0 it = b.heap + offset + 2048 * it := by
    intro it hit
    rw [chunkAddr_eq hwords (by omega) hit]
    omega
  have hlast : 2048 * ((size - 1) / 2048) < size := by omega
  have hfirst := h 0 (by omega)
  have hrest := h _ hlast
  rw [haddr 0 (by omega)] at hfirst
  rw [haddr _ hlast, chunkBytes_eq hwords hlast] at hrest
  unfold WordBlock at hfirst hrest
  omega

end Chunks

/-! ## The transfers of a launch -/

/-- The transfers of a loop read a chunk and write it. -/
theorem run_mem_moveBlocks {b : Build} {total tid : Nat} {noRotate : Bool} {m : Move} {x : Transfer} :
    .run x ∈ moveBlocks b total noRotate m tid ↔ ∃ t ∈ strided m.blocks m.width tid,
      ∃ it < chunks b (maxWords b total m.blocks),
        x = .mramRead (chunkAddr b m.source (maxWords b total m.blocks) t it)
            (chunkBytes b (maxWords b total m.blocks) it) ∨
          x = .mramWrite (chunkAddr b m.target (maxWords b total m.blocks)
            (if noRotate then t else rotated m.width m.shift t) it) (chunkBytes b (maxWords b total m.blocks) it) := by
  have hsync : .run x ∉ sync m.barrier := by
    unfold sync
    split <;> simp
  simp [moveBlocks, moveChunk, hsync]

/-- The loops of a kernel. -/
def Kernel.loops : Kernel → Arguments → List Move
  | .clockwise, a =>
    if a.numCommDpu % 8 = 0 then [⟨a.startOffset, a.targetOffset, a.numCommDpu, 8, a.eachDpu, some 8⟩]
    else if a.numCommDpu = 4 ∨ a.numCommDpu = 2 then
      [⟨a.startOffset, a.targetOffset, a.numCommDpu, a.numCommDpu, a.eachDpu,
        some (if a.numCommDpu = 4 then 4 else 2)⟩]
    else []
  | .clockwiseShort, a =>
    if a.commType = 0 then
      [⟨a.startOffset, a.targetOffset, a.numCommDpu, a.numCommRg, a.eachDpu,
        if a.numCommRg = 4 then some 4 else if a.numCommRg = 2 then some 2 else none⟩]
    else [⟨a.startOffset, a.targetOffset, a.numCommDpu, a.numCommRg, a.eachDpu / (8 / a.numCommRg), none⟩]
  | .modifiedReverseClockwise, a =>
    if a.commType = 0 then
      [⟨a.startOffset, a.startOffset, a.numCommDpu, a.numCommRg, a.eachDpu, some 2⟩,
        ⟨a.startOffset, a.targetOffset, a.numCommDpu / 2, a.numCommRg, a.eachDpu / 4, some 2⟩]
    else [⟨a.startOffset, a.targetOffset, a.numCommDpu, a.numCommRg, a.eachDpu / 2, none⟩]

theorem run_mem_main {k : Kernel} {b : Build} {a : Arguments} {tid : Nat} {x : Transfer} :
    .run x ∈ k.main b a tid ↔ tid < 8 ∧ ∃ m ∈ k.loops a, tid < m.width ∧
      .run x ∈ moveBlocks b a.totalDataSize a.noRotate m tid := by
  by_cases htid : tid < 8
  · have hge : ¬tid ≥ 8 := Nat.not_le.mpr htid
    cases k with
    | clockwise =>
      simp only [Kernel.main, relocateClockwise, Kernel.loops, if_neg hge, htid, true_and, List.mem_cons, reduceCtorEq,
        false_or]
      by_cases h8 : a.numCommDpu % 8 = 0
      · simp [h8, htid]
      · by_cases h42 : a.numCommDpu = 4 ∨ a.numCommDpu = 2
        · by_cases hlt : tid < a.numCommDpu
          · simp [h8, h42, hlt, Nat.not_le.mpr hlt]
          · simp [h8, h42, hlt, Nat.not_lt.mp hlt]
        · simp [h8, h42]
    | clockwiseShort =>
      simp only [Kernel.main, relocateClockwiseShort, Kernel.loops, if_neg hge, htid, true_and, List.mem_cons,
        reduceCtorEq, false_or]
      by_cases hlt : tid < a.numCommRg
      · by_cases hx : a.commType = 0
        · simp [hx, hlt, Nat.not_le.mpr hlt]
        · simp [hx, hlt, Nat.not_le.mpr hlt]
      · by_cases hx : a.commType = 0
        · simp [hx, hlt, Nat.not_lt.mp hlt]
        · simp [hx, hlt, Nat.not_lt.mp hlt]
    | modifiedReverseClockwise =>
      simp only [Kernel.main, relocateModifiedReverseClockwise, Kernel.loops, if_neg hge, htid, true_and, List.mem_cons,
        reduceCtorEq, false_or]
      by_cases hlt : tid < a.numCommRg
      · by_cases hx : a.commType = 0
        · simp [hx, hlt, Nat.not_le.mpr hlt]
        · simp [hx, hlt, Nat.not_le.mpr hlt]
      · by_cases hx : a.commType = 0
        · simp [hx, hlt, Nat.not_lt.mp hlt]
        · simp [hx, hlt, Nat.not_lt.mp hlt]
  · rw [main_idle (Nat.not_lt.mp htid)]
    simp [htid]

/-! ## Launches on any SDK -/

/-- The launch keeps to the calls the SDK describes. -/
def Kernel.Documented (k : Kernel) (b : Build) (a : Arguments) : Prop :=
  ∀ tid < nrTasklets, ∀ x, .run x ∈ k.main b a tid → x.Documented b

/-- An SDK that moves the bytes of every call. -/
def Sdk.plain (b : Build) : Sdk b := ⟨transfer, fun _ _ => rfl⟩

/-- An SDK whose other calls change the cell behind the MRAM. -/
def Sdk.spoiling (b : Build) : Sdk b where
  exec x mram cache :=
    if x.Documented b then transfer x mram cache else (Function.update mram (b.mram + 2 ^ 26) 1, cache)
  documented x hx := by
    funext mram cache
    exact if_pos hx

theorem Sdk.spoiling_marks {b : Build} {x : Transfer} (h : ¬x.Documented b) (mram cache : Mem UInt8) :
    ((Sdk.spoiling b).exec x mram cache).1 (b.mram + 2 ^ 26) = 1 := by
  simp [Sdk.spoiling, h]

theorem Sdk.spoiling_keeps {b : Build} (x : Transfer) (mram cache : Mem UInt8) (h : mram (b.mram + 2 ^ 26) = 1) :
    ((Sdk.spoiling b).exec x mram cache).1 (b.mram + 2 ^ 26) = 1 := by
  by_cases hx : x.Documented b
  · rw [(Sdk.spoiling b).documented x hx]
    cases x with
    | mramRead addr len => exact h
    | mramWrite addr len =>
      obtain ⟨-, -, -, -, -, hend⟩ : WordBlock b addr len := hx
      exact (Mem.store_outside _ _ _ (.inr hend)).trans h
  · exact Sdk.spoiling_marks hx mram cache

section Launch

variable {k : Kernel} {b : Build} {a : Arguments} {size : Nat}

theorem Rotates.documented (hfit : Fits b a size) (h : Rotates (Sdk.spoiling b).exec k b a size) :
    k.Documented b a := by
  intro tid htid x hx
  by_contra hnot
  obtain ⟨mram', hrel, hsettles⟩ := h fun _ => 0
  have hmark : Settles (Sdk.spoiling b).exec nrTasklets (launched k b a (fun _ => 0) fun _ _ => 0) fun s =>
      s.Done nrTasklets → s.shared (b.mram + 2 ^ 26) = 1 :=
    settles_marked (P := fun mram : Mem UInt8 => mram (b.mram + 2 ^ 26) = 1) ⟨tid, htid, hx⟩
      (Sdk.spoiling_marks hnot) Sdk.spoiling_keeps
  obtain ⟨s, hreach, hstuck⟩ := exists_stuck (Sdk.spoiling b).exec nrTasklets
    (launched k b a (fun _ => 0) fun _ _ => 0)
  obtain ⟨hdone, hagree⟩ := hsettles _ s hreach hstuck
  have hmram := hfit.inMram
  have hcell := hagree (b.mram + 2 ^ 26) (by omega)
  rw [hmark s hreach hstuck hdone, hrel.2 (b.mram + 2 ^ 26) (.inr (by rw [← hfit.total]; exact hmram))] at hcell
  exact absurd (show (1 : UInt8) = 0 from hcell) (by decide)

theorem rotatesInPlace_iff (hfit : Fits b a size) :
    RotatesInPlace k b a size ↔ k.Documented b a ∧ Rotates transfer k b a size := by
  constructor
  · intro h
    exact ⟨(h (Sdk.spoiling b)).documented hfit, h (Sdk.plain b)⟩
  · intro ⟨hdoc, hrot⟩ sdk mram
    obtain ⟨mram', hrel, hsettles⟩ := hrot mram
    refine ⟨mram', hrel, fun caches => (hsettles caches).congr fun x hruns => ?_⟩
    obtain ⟨tid, htid, hx⟩ := hruns
    exact (sdk.documented x (hdoc tid htid x hx)).symm

/-! ## When a launch keeps to the description -/

/-- The blocks are whole words of 8 bytes and their region begins at one. -/
def OnWords (b : Build) (a : Arguments) (size : Nat) : Prop := 8 ∣ size ∧ 8 ∣ b.heap + a.startOffset

instance : Decidable (OnWords b a size) := inferInstanceAs (Decidable (_ ∧ _))

/-- Blocks of whole words that stay in a region of whole words. -/
theorem documented_moveBlocks {total tid words : Nat} {noRotate : Bool} {m : Move} {x : Transfer}
    (hwords : maxWords b total m.blocks * b.wordBytes = words) (hsize : 8 ∣ words) (hsource : 8 ∣ b.heap + m.source)
    (htarget : 8 ∣ b.heap + m.target) (hreads : b.heap + m.source + m.blocks * words ≤ b.mram + 2 ^ 26)
    (hwrites : b.heap + m.target + m.blocks * words ≤ b.mram + 2 ^ 26) (htid : tid < m.width)
    (hplace : ∀ t < m.blocks, (if noRotate then t else rotated m.width m.shift t) < m.blocks)
    (hx : .run x ∈ moveBlocks b total noRotate m tid) : x.Documented b := by
  obtain ⟨t, ht, it, hit, hx⟩ := run_mem_moveBlocks.mp hx
  have hlt := ((mem_strided (Nat.zero_lt_of_lt htid) htid).mp ht).1
  exact documented_chunk hwords hsize hsource htarget hreads hwrites hlt (hplace t hlt) hit hx

/-- A loop in place whose blocks, of `words` bytes, stay in the region. -/
structure Move.Inside (m : Move) (b : Build) (a : Arguments) (size words : Nat) : Prop where
  source : m.source = a.startOffset
  target : m.target = a.startOffset
  fills : maxWords b a.totalDataSize m.blocks * b.wordBytes = words
  size_dvd : size ∣ words
  region : m.blocks * words ≤ a.numCommDpu * size
  place_lt : ∀ t < m.blocks, rotated m.width m.shift t < m.blocks

/-- A loop over the blocks of the region. -/
theorem Fits.inside (hfit : Fits b a size) {m : Move} (hsource : m.source = a.startOffset)
    (htarget : m.target = a.startOffset) (hblocks : m.blocks = a.numCommDpu)
    (hplace : ∀ t < m.blocks, rotated m.width m.shift t < m.blocks) : m.Inside b a size size where
  source := hsource
  target := htarget
  fills := hblocks ▸ hfit.words
  size_dvd := Nat.dvd_refl _
  region := hblocks ▸ Nat.le_refl _
  place_lt := hplace

theorem Move.Inside.documented {m : Move} {words tid : Nat} {x : Transfer} (h : m.Inside b a size words)
    (hfit : Fits b a size) (hwords : OnWords b a size) (htid : tid < m.width)
    (hx : .run x ∈ moveBlocks b a.totalDataSize false m tid) : x.Documented b := by
  have hmram := hfit.inMram
  have hregion := h.region
  rw [hfit.total] at hmram
  refine documented_moveBlocks h.fills (hwords.1.trans h.size_dvd) ?_ ?_ ?_ ?_ htid ?_ hx
  · rw [h.source]
    exact hwords.2
  · rw [h.target]
    exact hwords.2
  · rw [h.source]
    omega
  · rw [h.target]
    omega
  · exact h.place_lt

theorem Kernel.Documented.onWords (hfit : Fits b a size) (hsize : size ≠ 0) (h : k.Documented b a) {m : Move}
    (hm : m ∈ k.loops a) (hw : 0 < m.width) (hsource : m.source = a.startOffset) (hblocks : m.blocks = a.numCommDpu) :
    OnWords b a size := by
  have hwords : maxWords b a.totalDataSize m.blocks * b.wordBytes = size := hblocks ▸ hfit.words
  have hmram := hfit.inMram
  have hone : size * 0 + size ≤ a.numCommDpu * size := block_le hfit.blocks_pos
  rw [hfit.total] at hmram
  unfold OnWords
  rw [← hsource] at hmram ⊢
  refine onWords_of_chunks hwords (Nat.pos_of_ne_zero hsize) (by omega) fun it hit => ?_
  have hfirst : 0 ∈ strided m.blocks m.width 0 :=
    (mem_strided hw hw).mpr ⟨hblocks ▸ hfit.blocks_pos, Nat.zero_mod _⟩
  refine h 0 (by decide) (.mramRead _ _) (run_mem_main.mpr ⟨by decide, m, hm, hw, ?_⟩)
  exact run_mem_moveBlocks.mpr ⟨0, hfirst, it, (lt_chunks_iff hwords).mpr hit, .inl rfl⟩

end Launch

/-! ## The launches of the collectives -/

/-- The tasklets of the launch wait for each other in step, or the rotation stands still. -/
def InStep (k : Kernel) (a : Arguments) : Prop :=
  match k with
  | .clockwise =>
    a.numCommDpu % 8 = 0 ∨ a.numCommDpu = 4 ∨ a.numCommDpu = 2 ∨ StandsStill a.numCommDpu a.numCommDpu a.eachDpu
  | .clockwiseShort =>
    if a.commType = 0 ∧ (a.numCommRg = 4 ∨ a.numCommRg = 2) then a.numCommRg ∣ a.numCommDpu
    else StandsStill a.numCommRg a.numCommDpu
      (if a.commType = 0 then a.eachDpu else a.eachDpu / (8 / a.numCommRg))
  | .modifiedReverseClockwise =>
    if a.commType = 0 then 4 ∣ a.numCommDpu else StandsStill 2 a.numCommDpu (a.eachDpu / 2)

/-- There is nothing to move, or the loops move whole words of 8 bytes, in step. -/
def SafeInPlace (b : Build) (k : Kernel) (a : Arguments) (size : Nat) : Prop :=
  a.totalDataSize = 0 ∨ ((k.loops a = [] ∨ OnWords b a size) ∧ InStep k a)

theorem standsStill_place_iff {a : Arguments} {k : Kernel} {w shift : Nat} (hn : a.numCommDpu ≤ 2 ^ 32)
    (hpos : 0 < a.numCommDpu) (hplace : k.place a = rotated w shift) :
    StandsStill w a.numCommDpu shift ↔ ∀ t < a.numCommDpu, k.place a t = t := by
  rw [hplace]
  exact standsStill_iff hn hpos

section Launches

variable {cube : Hypercube} {comm : List Nat} {k : Kernel} {b : Build} {a : Arguments} {size : Nat}

/-- A group is no larger than the data when there is any. -/
theorem Fits.blocks_le (hfit : Fits b a size) (hsize : size ≠ 0) : a.numCommDpu ≤ 2 ^ 32 := by
  have hmram := hfit.noWrap
  have hle : a.numCommDpu * 1 ≤ a.numCommDpu * size := Nat.mul_le_mul_left _ (Nat.pos_of_ne_zero hsize)
  omega

/-- Byte by byte the blocks are rotated when the tasklets keep step. -/
theorem rotates_iff_inStep (h : cube.LaunchesInPlace comm k a) (hfit : Fits b a size) (hsize : size ≠ 0) :
    Rotates transfer k b a size ↔ InStep k a := by
  obtain ⟨hplace, hrotate, hpos, hshort, hmodified⟩ := h.arguments
  have hn : a.numCommDpu ≤ 2 ^ 32 := hfit.blocks_le hsize
  unfold InStep
  cases k with
  | clockwise =>
    rw [relocateClockwise_rotates_iff hfit hrotate hplace]
    by_cases h8 : a.numCommDpu % 8 = 0
    · simp [h8]
    · rw [standsStill_place_iff (k := .clockwise) hn hpos (by funext t; simp [Kernel.place, h8])]
      exact or_iff_right hsize
  | clockwiseShort =>
    have hrg := hshort rfl
    rw [relocateClockwiseShort_rotates_iff hfit hrotate hplace hrg.1 hrg.2,
      standsStill_place_iff (k := .clockwiseShort) hn hpos rfl]
    exact or_iff_right hsize
  | modifiedReverseClockwise =>
    rw [relocateModifiedReverseClockwise_rotates_iff hfit hrotate hplace (hmodified rfl)]
    by_cases hx : a.commType = 0
    · simp [hx, hsize]
    · have hstill : StandsStill 2 a.numCommDpu (a.eachDpu / 2) ↔
          ∀ t < a.numCommDpu, Kernel.place .modifiedReverseClockwise a t = t :=
        standsStill_place_iff hn hpos (by funext t; simp [Kernel.place, hx, hmodified rfl])
      simp [hx, hsize, hstill]

theorem rotates_empty (h : cube.LaunchesInPlace comm k a) (hfit : Fits b a 0) : Rotates transfer k b a 0 := by
  obtain ⟨hplace, hrotate, -, hshort, hmodified⟩ := h.arguments
  cases k with
  | clockwise => exact (relocateClockwise_rotates_iff hfit hrotate hplace).mpr (.inl rfl)
  | clockwiseShort =>
    exact (relocateClockwiseShort_rotates_iff hfit hrotate hplace (hshort rfl).1 (hshort rfl).2).mpr (.inl rfl)
  | modifiedReverseClockwise =>
    exact (relocateModifiedReverseClockwise_rotates_iff hfit hrotate hplace (hmodified rfl)).mpr (.inl rfl)

/-- The first loop of a kernel is over the blocks of the region. -/
theorem loops_head (h : cube.LaunchesInPlace comm k a) {m : Move} {ms : List Move} (hm : k.loops a = m :: ms) :
    0 < m.width ∧ m.source = a.startOffset ∧ m.blocks = a.numCommDpu := by
  obtain ⟨hplace, hrotate, hpos, hshort, hmodified⟩ := h.arguments
  cases k with
  | clockwise =>
    simp only [Kernel.loops] at hm
    split at hm
    · cases hm
      exact ⟨Nat.succ_pos 7, rfl, rfl⟩
    · split at hm
      · cases hm
        exact ⟨hpos, rfl, rfl⟩
      · cases hm
  | clockwiseShort =>
    have hrg : 0 < a.numCommRg := Nat.zero_lt_of_lt (hshort rfl).1
    simp only [Kernel.loops] at hm
    split at hm
    · cases hm
      exact ⟨hrg, rfl, rfl⟩
    · cases hm
      exact ⟨hrg, rfl, rfl⟩
  | modifiedReverseClockwise =>
    have hrg : 0 < a.numCommRg := by
      rw [hmodified rfl]
      decide
    simp only [Kernel.loops] at hm
    split at hm
    · cases hm
      exact ⟨hrg, rfl, rfl⟩
    · cases hm
      exact ⟨hrg, rfl, rfl⟩

/-- A loop that keeps step, or stands still, stays in the region. -/
theorem loops_inside (h : cube.LaunchesInPlace comm k a) (hfit : Fits b a size) (hsize : size ≠ 0) (hstep : InStep k a)
    {m : Move} (hm : m ∈ k.loops a) : ∃ words, m.Inside b a size words := by
  obtain ⟨htarget, -, hpos, hshort, hmodified⟩ := h.arguments
  have hn : a.numCommDpu ≤ 2 ^ 32 := hfit.blocks_le hsize
  have hstill : ∀ w shift, StandsStill w a.numCommDpu shift → ∀ t < a.numCommDpu, rotated w shift t < a.numCommDpu := by
    intro w shift hw t ht
    rw [(standsStill_iff hn hpos).mp hw t ht]
    exact ht
  cases k with
  | clockwise =>
    simp only [Kernel.loops] at hm
    split at hm
    · rename_i h8
      obtain rfl := List.mem_singleton.mp hm
      exact ⟨size, hfit.inside rfl htarget rfl
        (regroup_rotated (by decide) (by decide) (Nat.dvd_of_mod_eq_zero h8)).place_lt⟩
    · split at hm
      · rename_i h42
        obtain rfl := List.mem_singleton.mp hm
        have hpow : a.numCommDpu ∣ 2 ^ 32 := by
          obtain h | h := h42 <;> rw [h] <;> decide
        exact ⟨size, hfit.inside rfl htarget rfl (regroup_rotated hpos hpow (Nat.dvd_refl _)).place_lt⟩
      · cases hm
  | clockwiseShort =>
    have hrg : 0 < a.numCommRg := Nat.zero_lt_of_lt (hshort rfl).1
    simp only [Kernel.loops] at hm
    simp only [InStep] at hstep
    split at hm
    · rename_i hx
      obtain rfl := List.mem_singleton.mp hm
      refine ⟨size, hfit.inside rfl htarget rfl ?_⟩
      by_cases h42 : a.numCommRg = 4 ∨ a.numCommRg = 2
      · have hpow : a.numCommRg ∣ 2 ^ 32 := by
          obtain h | h := h42 <;> rw [h] <;> decide
        rw [if_pos ⟨hx, h42⟩] at hstep
        exact (regroup_rotated hrg hpow hstep).place_lt
      · rw [if_neg fun hboth => h42 hboth.2, if_pos hx] at hstep
        exact hstill _ _ hstep
    · rename_i hx
      obtain rfl := List.mem_singleton.mp hm
      rw [if_neg fun hboth => hx hboth.1, if_neg hx] at hstep
      exact ⟨size, hfit.inside rfl htarget rfl (hstill _ _ hstep)⟩
  | modifiedReverseClockwise =>
    have hrg := hmodified rfl
    simp only [Kernel.loops, hrg] at hm
    simp only [InStep] at hstep
    split at hm
    · rename_i hx
      rw [if_pos hx] at hstep
      have heven : 2 ∣ a.numCommDpu := Nat.dvd_trans (by decide) hstep
      obtain rfl | hm := List.mem_cons.mp hm
      · exact ⟨size, hfit.inside rfl rfl rfl (regroup_rotated (by decide) (by decide) heven).place_lt⟩
      · -- the second loop moves pairs of blocks
        obtain rfl := List.mem_singleton.mp hm
        have hhalf : 2 ∣ a.numCommDpu / 2 := by omega
        refine ⟨2 * size, rfl, htarget, hfit.pairWords heven, Nat.dvd_mul_left size 2, ?_,
          (regroup_rotated (by decide) (by decide) hhalf).place_lt⟩
        show a.numCommDpu / 2 * (2 * size) ≤ _
        rw [← Nat.mul_assoc, Nat.div_mul_cancel heven]
    · rename_i hx
      obtain rfl := List.mem_singleton.mp hm
      rw [if_neg hx] at hstep
      exact ⟨size, hfit.inside rfl htarget rfl (hstill _ _ hstep)⟩

theorem documented_iff (h : cube.LaunchesInPlace comm k a) (hfit : Fits b a size) (hsize : size ≠ 0)
    (hstep : InStep k a) : k.Documented b a ↔ k.loops a = [] ∨ OnWords b a size := by
  obtain ⟨-, hrotate, -⟩ := h.arguments
  constructor
  · intro hdoc
    cases hloops : k.loops a with
    | nil => exact .inl rfl
    | cons m ms =>
      obtain ⟨hw, hsource, hblocks⟩ := loops_head h hloops
      exact .inr (hdoc.onWords hfit hsize (hloops ▸ List.mem_cons_self) hw hsource hblocks)
  · intro hcase tid _ x hx
    obtain ⟨-, m, hm, htid, hx⟩ := run_mem_main.mp hx
    obtain hnone | honwords := hcase
    · rw [hnone] at hm
      cases hm
    · obtain ⟨words, hin⟩ := loops_inside h hfit hsize hstep hm
      rw [hrotate] at hx
      exact hin.documented hfit honwords htid hx

/-- For every launch in place: on every SDK every interleaving of the tasklets rotates the
blocks, and in one memory, exactly when the launch is safe. -/
theorem relocation_in_place_iff (h : cube.LaunchesInPlace comm k a) (b : Build) (size : Nat)
    (htotal : a.totalDataSize = a.numCommDpu * size) (hword : b.wordBytes ∣ size)
    (hmram : b.heap + a.startOffset + a.totalDataSize ≤ b.mram + 2 ^ 26) :
    RotatesInPlace k b a size ↔ SafeInPlace b k a size := by
  obtain ⟨-, hrotate, hpos, -⟩ := h.arguments
  have hfit : Fits b a size := ⟨hpos, htotal, hword, hmram⟩
  unfold SafeInPlace
  rw [rotatesInPlace_iff hfit, htotal, Nat.mul_eq_zero, or_iff_right (Nat.ne_of_gt hpos)]
  by_cases hsize : size = 0
  · subst hsize
    simp only [true_or, iff_true]
    refine ⟨fun tid _ x hx => ?_, rotates_empty h hfit⟩
    obtain ⟨-, m, -, -, hx⟩ := run_mem_main.mp hx
    rw [hrotate, moveBlocks_empty (by simp [maxWords, htotal])] at hx
    cases hx
  · rw [rotates_iff_inStep h hfit hsize, or_iff_right hsize]
    exact and_congr_left fun hstep => documented_iff h hfit hsize hstep

end Launches

/-- DPUs in groups of 4 along the x axis and 16 along the y axis. -/
def fourBySixteen : Hypercube := ⟨[4, 16], by decide, by decide⟩

/-- What all-reduce along the y axis launches on DPU 4 for blocks of 8 bytes. -/
def alongY : Arguments := fourBySixteen.inPlace [0, 1] 0 128 4 2 4

theorem alongY_launched : fourBySixteen.LaunchesInPlace [0, 1] .clockwiseShort alongY :=
  ⟨0, 128, 4, 0, .inr (by decide)⟩

/-- A kernel for words of 8 bytes, with a heap behind the first 1 MB. -/
def eightByteWords : Build := ⟨0x8000000, 0x8100000, 8, by decide, by decide, by decide, by decide⟩

theorem relocation_in_place_iff_sample : RotatesInPlace .clockwiseShort eightByteWords alongY 8 ↔
    SafeInPlace eightByteWords .clockwiseShort alongY 8 :=
  relocation_in_place_iff alongY_launched eightByteWords 8 (by decide) (by decide) (by decide)

/-- The loop for a group without the x axis has no barrier: two tasklets exchange blocks, and
the one that runs first overwrites what the other has yet to read. -/
theorem short_rotation_along_y_loses_blocks : fourBySixteen.LaunchesInPlace [0, 1] .clockwiseShort alongY ∧
    ¬RotatesInPlace .clockwiseShort eightByteWords alongY 8 := by
  refine ⟨alongY_launched, fun hrotates => ?_⟩
  have hplain : Rotates transfer .clockwiseShort eightByteWords alongY 8 := hrotates (Sdk.plain eightByteWords)
  rw [relocateClockwiseShort_rotates_iff ⟨by decide, by decide, by decide, by decide⟩ rfl rfl (by decide)
    (by decide)] at hplain
  revert hplain
  decide

end DpuBackend.PidComm
