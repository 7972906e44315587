import DpuBackend.PidComm.RelocateRaces

/-
  Which launches in place rotate the blocks.

  After the first barrier a kernel runs one loop, or two. With a barrier of the loop's
  width in it and as many blocks for every tasklet, the blocks are rotated
  (`settles_synced`); with a barrier and unequal shares the tasklets never all end
  (`not_settles_of_waits_ne`); without one a block is lost (`race_not_settles`), unless the
  rotation moves none (`settles_still`). The cases are put together for each kernel, here
  with transfers that move any bytes.
-/

namespace DpuBackend.PidComm

open DpuBackend.Lib

/-! ## Rotations that move nothing -/

section Still

variable {w n shift : Nat}

/-- The rotation is by a multiple of the width, also where the difference wraps. -/
def StandsStill (w n shift : Nat) : Prop :=
  (0 < shift % 2 ^ 32 → w ∣ 2 ^ 32 - shift % 2 ^ 32) ∧ (shift % 2 ^ 32 < n → w ∣ shift % 2 ^ 32)

instance : Decidable (StandsStill w n shift) := inferInstanceAs (Decidable (_ ∧ _))

theorem rotated_eq_self_iff {t : Nat} : rotated w shift t = t ↔ sub32 t shift % w = t % w := by
  unfold rotated
  constructor
  · intro h
    have := Nat.div_add_mod t w
    rw [Nat.mul_comm] at this
    omega
  · intro h
    rw [h, Nat.mul_comm, Nat.div_add_mod]

theorem standsStill_iff (hn : n ≤ 2 ^ 32) (hpos : 0 < n) : StandsStill w n shift ↔ ∀ t < n, rotated w shift t = t := by
  have hlt := Nat.mod_lt shift (show 0 < 2 ^ 32 by decide)
  have hlow : ∀ t < n, t < shift % 2 ^ 32 → sub32 t shift = t + (2 ^ 32 - shift % 2 ^ 32) := fun t ht hts =>
    Nat.mod_eq_of_lt (by omega)
  have hhigh : ∀ t < n, shift % 2 ^ 32 ≤ t → sub32 t shift + shift % 2 ^ 32 = t := by
    intro t ht hts
    unfold sub32
    omega
  unfold StandsStill
  constructor
  · intro ⟨hneg, hadd⟩ t ht
    rw [rotated_eq_self_iff]
    by_cases hts : t < shift % 2 ^ 32
    · rw [hlow t ht hts]
      exact (Nat.modEq_zero_iff_dvd.mpr (hneg (by omega))).add_left t
    · have hdvd := Nat.modEq_zero_iff_dvd.mpr (hadd (by omega))
      have hback := hdvd.add_left (sub32 t shift)
      rw [hhigh t ht (by omega)] at hback
      exact hback.symm
  · intro h
    refine ⟨fun hs => ?_, fun hs => ?_⟩
    · have h0 := rotated_eq_self_iff.mp (h 0 hpos)
      rw [hlow 0 hpos hs, Nat.zero_add, Nat.zero_mod] at h0
      exact Nat.dvd_of_mod_eq_zero h0
    · have hself := rotated_eq_self_iff.mp (h _ hs)
      have hzero : sub32 (shift % 2 ^ 32) shift = 0 := by
        have := hhigh _ hs (Nat.le_refl _)
        omega
      rw [hzero, Nat.zero_mod] at hself
      exact Nat.dvd_of_mod_eq_zero hself.symm

variable {base size : Nat} {place : Nat → Nat}

theorem relocated_self (h : ∀ t < n, place t = t) (mram : Mem UInt8) : Relocated base size n place mram mram :=
  ⟨fun t ht o _ => by rw [h t ht], fun _ _ => rfl⟩

/-- A memory that shows whether block `t` has moved. -/
theorem relocated_ne {t : Nat} {mram' : Mem UInt8} (hsize : 0 < size) (ht : t < n) (h : place t ≠ t)
    (hrel : Relocated base size n place (marked (base + size * t)) mram') :
    mram' (base + size * place t) ≠ marked (base + size * t) (base + size * place t) := by
  have hmark := hrel.1 t ht 0 hsize
  simp only [marked, Nat.add_zero, if_true] at hmark
  rw [hmark, marked, if_neg]
  · decide
  · intro heq
    exact h (Nat.eq_of_mul_eq_mul_left hsize (by omega))

end Still

/-! ## The loops after the first barrier -/

section Loops

variable {b : Build} {total size : Nat} {m : Move} {s : Threads Transfer (Mem UInt8) (Mem UInt8)}

/-- The memory the rotation of `m` makes. -/
def Move.result (m : Move) (base size : Nat) (mram : Mem UInt8) : Mem UInt8 :=
  progress base size m.blocks m.width (unrotated m.width m.shift) mram (m.blocks / m.width) 0

theorem Move.result_relocated {base : Nat} {mram : Mem UInt8} (hw : 0 < m.width) (hpow : m.width ∣ 2 ^ 32)
    (hdvd : m.width ∣ m.blocks) :
    Relocated base size m.blocks (rotated m.width m.shift) mram (m.result base size mram) :=
  progress_end (regroup_rotated hw hpow hdvd) hw hdvd

theorem settles_synced (hw : 0 < m.width) (hwn : m.width ≤ nrTasklets) (hpow : m.width ∣ 2 ^ 32)
    (hdvd : m.width ∣ m.blocks) (hbarrier : m.barrier = some m.width) (hplace : m.target = m.source)
    (hwords : maxWords b total m.blocks * b.wordBytes = size)
    (hfit : b.heap + m.source + m.blocks * size ≤ 2 ^ 32)
    (hprog : ∀ t, s.program t = if t < m.width then moveBlocks b total false m t else []) :
    Settles transfer nrTasklets s fun s' => s'.Done nrTasklets ∧
      s'.shared = m.result (b.heap + m.source) size s.shared := by
  refine lockstep_settles (moveRounds b total m ++ []) hw hwn ?_ fun t => ?_
  · refine rounds_moveRounds (regroup_rotated hw hpow hdvd) hw hdvd hwords hplace hfit (fun _ => ?_) _
    exact rfl
  · rw [hprog t, List.append_nil]
    split
    · exact moveBlocks_eq hdvd hbarrier ‹_›
    · rfl

theorem settles_still (hbarrier : m.barrier = none) (hplace : m.target = m.source)
    (hstill : ∀ t < m.blocks, rotated m.width m.shift t = t) (hw : 0 < m.width)
    (hprog : ∀ t, s.program t = if t < m.width then moveBlocks b total false m t else []) :
    Settles transfer nrTasklets s fun s' => s'.Done nrTasklets ∧ s'.shared = s.shared := by
  refine settles_unmoved (fun t => if t < m.width then moveCopies b total m t else []) (fun t => ?_) fun t c hc => ?_
  · rw [hprog t]
    split
    · exact moveBlocks_unsynced hbarrier t
    · rfl
  · split at hc
    · rename_i htw
      simp only [moveCopies, List.mem_flatMap, List.mem_map, mem_strided hw htw] at hc
      obtain ⟨i, ⟨hi, -⟩, j, -, rfl⟩ := hc
      show Mem.store s.shared (chunkAddr b m.target _ (rotated m.width m.shift i) j) (s.shared.load _ _) = s.shared
      rw [hstill i hi, hplace, Mem.store_load_same]
    · cases hc

theorem moveBlocks_empty (hwords : maxWords b total m.blocks * b.wordBytes = 0) (tid : Nat) :
    moveBlocks b total false m tid = [] := by
  have hchunks : chunks b (maxWords b total m.blocks) = 0 := by
    simp [chunks, hwords]
  simp [moveBlocks, hchunks]

theorem waits_moveBlocks {c : Nat} (hbarrier : m.barrier = some c) (tid : Nat) :
    waits c (moveBlocks b total false m tid) =
      (strided m.blocks m.width tid).length * (chunks b (maxWords b total m.blocks) * 2) := by
  refine waits_flatMap _ fun t => ?_
  rw [waits_flatMap (k := 2), List.length_range]
  intro j
  simp [moveChunk, hbarrier, sync]

/-- The first tasklet has one block more than the last when the width does not divide. -/
theorem strided_shares {n w : Nat} (hw : 0 < w) :
    (strided n w 0).length = (strided n w (w - 1)).length + if w ∣ n then 0 else 1 := by
  have hlen : ∀ tid, (strided n w tid).length = (n - tid + w - 1) / w := fun tid => by simp [strided]
  have hlast : (n - (w - 1) + w - 1) / w = n / w := by
    by_cases h : w ≤ n
    · rw [show n - (w - 1) + w - 1 = n by omega]
    · rw [Nat.div_eq_of_lt (by omega), Nat.div_eq_of_lt (by omega)]
  rw [hlen, hlen, hlast, Nat.sub_zero]
  have hmod := Nat.div_add_mod n w
  have hlt := Nat.mod_lt n hw
  split
  · rename_i hdvd
    have h0 := Nat.mod_eq_zero_of_dvd hdvd
    have hzero : (w - 1) / w = 0 := Nat.div_eq_of_lt (by omega)
    rw [show n + w - 1 = w * (n / w) + (w - 1) by omega, Nat.mul_add_div hw, hzero]
  · rename_i hndvd
    have hpos : 0 < n % w := Nat.pos_of_ne_zero fun h0 => hndvd (Nat.dvd_of_mod_eq_zero h0)
    have hzero : (n % w - 1) / w = 0 := Nat.div_eq_of_lt (by omega)
    rw [show n + w - 1 = w * (n / w + 1) + (n % w - 1) by rw [Nat.mul_succ]; omega, Nat.mul_add_div hw, hzero]

end Loops

/-! ## From the launch to the loops -/

section Launch

variable {k : Kernel} {b : Build} {a : Arguments} {size : Nat}

/-- Past its barriers at the start the kernel is left with the programs `p`. -/
def Leads (k : Kernel) (b : Build) (a : Arguments) (p : Nat → Program) : Prop :=
  ∀ mram caches Q, Settles transfer nrTasklets (launched k b a mram caches) Q ↔
    Settles transfer nrTasklets ⟨p, caches, mram⟩ Q

theorem leads_past {c : Nat} {p : Nat → Program} (hc : 0 < c) (hcn : c ≤ nrTasklets)
    (h : Leads k b a fun t => if t < c then .wait c :: p t else []) :
    Leads k b a fun t => if t < c then p t else [] := by
  intro mram caches Q
  refine (h mram caches Q).trans ⟨fun hsettles => ?_, fun hsettles => settles_past hc hcn (fun _ => rfl) hsettles⟩
  have hstep : Step transfer nrTasklets ⟨fun t => if t < c then .wait c :: p t else [], caches, mram⟩
      ⟨fun t => if t < c then p t else [], caches, mram⟩ := (step_past hc hcn fun _ => rfl).1
  exact hsettles.of_reach (.single hstep)

theorem Leads.congr {p q : Nat → Program} (h : Leads k b a p) (heq : ∀ t, p t = q t) : Leads k b a q :=
  funext heq ▸ h

theorem main_idle {t : Nat} (ht : 8 ≤ t) : k.main b a t = [] := by
  cases k
  all_goals simp [Kernel.main, relocateClockwise, relocateClockwiseShort, relocateModifiedReverseClockwise, ht]

theorem leads_first {p : Nat → Program} (h : ∀ t < 8, k.main b a t = .wait 8 :: p t) :
    Leads k b a fun t => if t < 8 then p t else [] := by
  refine leads_past (by decide) (by decide) fun mram caches Q => ?_
  have hmain : k.main b a = fun t => if t < 8 then .wait 8 :: p t else [] := by
    funext t
    by_cases ht : t < 8
    · rw [if_pos ht, h t ht]
    · rw [if_neg ht, main_idle (Nat.not_lt.mp ht)]
  unfold launched
  rw [← hmain]

/-- The region of `a` is whole blocks of `size` bytes, inside the MRAM. -/
structure Fits (b : Build) (a : Arguments) (size : Nat) : Prop where
  blocks_pos : 0 < a.numCommDpu
  total : a.totalDataSize = a.numCommDpu * size
  word : b.wordBytes ∣ size
  inMram : b.heap + a.startOffset + a.totalDataSize ≤ b.mram + 2 ^ 26

/-- The loop of `m` is over the blocks of `a`, in place, and the kernel's rotation is that of `m`. -/
structure Move.Of (m : Move) (k : Kernel) (a : Arguments) : Prop where
  source : m.source = a.startOffset
  target : m.target = a.startOffset
  blocks : m.blocks = a.numCommDpu
  place : k.place a = rotated m.width m.shift

variable {m : Move}

/-- The addresses of the region do not wrap. -/
theorem Fits.noWrap (h : Fits b a size) : b.heap + a.startOffset + a.numCommDpu * size ≤ 2 ^ 32 := by
  have hmram := h.inMram
  have hlow := b.mram_low
  rw [h.total] at hmram
  omega

theorem Fits.words (h : Fits b a size) : maxWords b a.totalDataSize a.numCommDpu * b.wordBytes = size :=
  maxWords_mul h.blocks_pos h.total h.word

theorem rotates_of_leads {p : Nat → Program} (hlead : Leads k b a p) (h : ∀ mram, ∃ mram',
    Relocated (b.heap + a.startOffset) size a.numCommDpu (k.place a) mram mram' ∧ ∀ caches,
      Settles transfer nrTasklets ⟨p, caches, mram⟩ fun s => s.Done nrTasklets ∧ s.shared = mram') :
    Rotates transfer k b a size := fun mram =>
  (h mram).imp fun _ hmram' => ⟨hmram'.1, fun caches => (hlead mram caches _).mpr
    ((hmram'.2 caches).mono fun _ hs => ⟨hs.1, fun x _ => congrFun hs.2 x⟩)⟩

theorem Rotates.from_leads {p : Nat → Program} (hlead : Leads k b a p) (h : Rotates transfer k b a size)
    (mram : Mem UInt8) (caches : Nat → Mem UInt8) : ∃ mram',
    Relocated (b.heap + a.startOffset) size a.numCommDpu (k.place a) mram mram' ∧
      Settles transfer nrTasklets ⟨p, caches, mram⟩ fun s => s.Done nrTasklets ∧ AgreeFrom b.heap s.shared mram' :=
  (h mram).imp fun _ hmram' => ⟨hmram'.1, (hlead mram caches _).mp (hmram'.2 caches)⟩

/-- Tasklets without transfers rotate what stands still. -/
theorem rotates_iff_of_nothing (hlead : Leads k b a fun _ => []) :
    Rotates transfer k b a size ↔ size = 0 ∨ ∀ t < a.numCommDpu, k.place a t = t := by
  have hend : ∀ (mram : Mem UInt8) (caches : Nat → Mem UInt8), Settles transfer nrTasklets ⟨fun _ => [], caches, mram⟩
      fun s => s.Done nrTasklets ∧ s.shared = mram := fun mram caches =>
    settles_unmoved (fun _ => []) (fun _ => rfl) (by simp)
  constructor
  · intro h
    by_contra hnot
    simp only [not_or, not_forall] at hnot
    obtain ⟨hsize, t, ht, hmoves⟩ := hnot
    obtain ⟨mram', hrel, hsettles⟩ := h.from_leads hlead (marked (b.heap + a.startOffset + size * t)) fun _ _ => 0
    obtain ⟨s, hreach, hstuck⟩ := exists_stuck transfer nrTasklets ⟨fun _ => [], fun _ _ => 0,
      marked (b.heap + a.startOffset + size * t)⟩
    have hagree := (hsettles s hreach hstuck).2 (b.heap + a.startOffset + size * k.place a t) (by omega)
    rw [(hend _ _ s hreach hstuck).2] at hagree
    exact relocated_ne (Nat.pos_of_ne_zero hsize) ht hmoves hrel hagree.symm
  · intro h
    refine rotates_of_leads hlead fun mram => ⟨mram, ?_, hend mram⟩
    cases h with
    | inl hsize =>
      subst hsize
      exact ⟨fun _ _ _ ho => absurd ho (Nat.not_lt_zero _), fun _ _ => rfl⟩
    | inr hstill => exact relocated_self hstill mram

theorem rotates_of_empty (hlead : Leads k b a fun _ => []) (hsize : size = 0) : Rotates transfer k b a size :=
  (rotates_iff_of_nothing hlead).mpr (.inl hsize)

theorem leads_empty (hfit : Fits b a size) (hsize : size = 0) (hblocks : m.blocks = a.numCommDpu)
    (hlead : Leads k b a fun t => if t < m.width then moveBlocks b a.totalDataSize false m t else []) :
    Leads k b a fun _ => [] := by
  have hempty : ∀ t, moveBlocks b a.totalDataSize false m t = [] :=
    moveBlocks_empty (by rw [hblocks, hfit.words, hsize])
  simpa only [hempty, ite_self] using hlead

/-- With a barrier of the loop's width the blocks are rotated when all tasklets have as many. -/
theorem rotates_iff_of_synced (hfit : Fits b a size) (hm : m.Of k a) (hw : 0 < m.width) (hwn : m.width ≤ nrTasklets)
    (hpow : m.width ∣ 2 ^ 32) (hbarrier : m.barrier = some m.width)
    (hlead : Leads k b a fun t => if t < m.width then moveBlocks b a.totalDataSize false m t else []) :
    Rotates transfer k b a size ↔ size = 0 ∨ m.width ∣ a.numCommDpu := by
  obtain ⟨hsource, htarget, hblocks, hplace⟩ := hm
  have hwords : maxWords b a.totalDataSize m.blocks * b.wordBytes = size := hblocks ▸ hfit.words
  have hmram := hfit.noWrap
  constructor
  · intro h
    by_contra hnot
    obtain ⟨hsize, hndvd⟩ := not_or.mp hnot
    obtain ⟨mram', -, hsettles⟩ := h.from_leads hlead (fun _ => 0) fun _ _ => 0
    refine not_settles_of_waits_ne (fun _ hs => hs.1) (fun t ht => ?_) hwn hw (Nat.sub_one_lt_of_lt hw) ?_ hsettles
    · simp [Nat.not_lt.mpr ht]
    · have hlast : m.width - 1 < m.width := by omega
      have hchunks : 0 < chunks b (maxWords b a.totalDataSize m.blocks) :=
        (lt_chunks_iff hwords).mpr (by omega)
      simp only [if_pos hw, if_pos hlast, waits_moveBlocks hbarrier, strided_shares hw, hblocks, if_neg hndvd]
      rw [hblocks] at hchunks
      rw [Nat.succ_mul]
      omega
  · intro h
    by_cases hsize : size = 0
    · exact rotates_of_empty (leads_empty hfit hsize hblocks hlead) hsize
    · have hdvd := h.resolve_left hsize
      refine rotates_of_leads hlead fun mram => ⟨m.result (b.heap + a.startOffset) size mram, ?_, fun caches => ?_⟩
      · rw [hplace, ← hblocks]
        exact Move.result_relocated hw hpow (hblocks ▸ hdvd)
      · rw [← hsource]
        exact settles_synced hw hwn hpow (hblocks ▸ hdvd) hbarrier (htarget.trans hsource.symm) hwords
          (by rw [hsource, hblocks]; omega) fun _ => rfl

/-- Without a barrier they are only when none moves. -/
theorem rotates_iff_of_unsynced (hfit : Fits b a size) (hm : m.Of k a) (hw : 0 < m.width) (hw8 : m.width ≤ 8)
    (hbarrier : m.barrier = none)
    (hlead : Leads k b a fun t => if t < m.width then moveBlocks b a.totalDataSize false m t else []) :
    Rotates transfer k b a size ↔ size = 0 ∨ ∀ t < a.numCommDpu, k.place a t = t := by
  obtain ⟨hsource, htarget, hblocks, hplace⟩ := hm
  have hwords : maxWords b a.totalDataSize m.blocks * b.wordBytes = size := hblocks ▸ hfit.words
  have hmram := hfit.inMram
  rw [hfit.total] at hmram
  constructor
  · intro h
    by_contra hnot
    simp only [not_or, not_forall] at hnot
    obtain ⟨hsize, t, ht, hmoves⟩ := hnot
    rw [hplace] at hmoves
    obtain ⟨mram', hrel, hsettles⟩ := h.from_leads hlead
      (marked (b.heap + m.source + size * rotated m.width m.shift t)) fun _ _ => 0
    rw [hplace, ← hsource, ← hblocks] at hrel
    exact race_not_settles hbarrier hw hw8 (htarget.trans hsource.symm) hwords (Nat.pos_of_ne_zero hsize)
      (by rw [hsource, hblocks]; exact hmram) (hblocks ▸ ht) hmoves (fun _ => rfl) rfl hrel hsettles
  · intro h
    by_cases hsize : size = 0
    · exact rotates_of_empty (leads_empty hfit hsize hblocks hlead) hsize
    · have hstill := h.resolve_left hsize
      refine rotates_of_leads hlead fun mram => ⟨mram, relocated_self hstill mram, fun caches => ?_⟩
      rw [hplace, ← hblocks] at hstill
      exact settles_still hbarrier (htarget.trans hsource.symm) hstill hw fun _ => rfl

end Launch

/-! ## The kernels -/

section Kernels

variable {b : Build} {a : Arguments} {size : Nat}

theorem relocateClockwise_rotates_iff (hfit : Fits b a size) (hrotate : a.noRotate = false)
    (hplace : a.targetOffset = a.startOffset) :
    Rotates transfer .clockwise b a size ↔ size = 0 ∨ a.numCommDpu % 8 = 0 ∨ a.numCommDpu = 4 ∨ a.numCommDpu = 2 ∨
      ∀ t < a.numCommDpu, Kernel.place .clockwise a t = t := by
  have hpos := hfit.blocks_pos
  by_cases h8 : a.numCommDpu % 8 = 0
  · have hm : (⟨a.startOffset, a.targetOffset, a.numCommDpu, 8, a.eachDpu, some 8⟩ : Move).Of .clockwise a :=
      ⟨rfl, hplace, rfl, by funext t; simp [Kernel.place, h8]⟩
    have hlead := leads_past (by decide) (by decide) (leads_first (k := .clockwise) (b := b) (a := a)
      (p := fun t => .wait 8 :: moveBlocks b a.totalDataSize false
        ⟨a.startOffset, a.targetOffset, a.numCommDpu, 8, a.eachDpu, some 8⟩ t)
      (fun t ht => by simp [Kernel.main, relocateClockwise, Nat.not_le.mpr ht, h8, hrotate]))
    rw [rotates_iff_of_synced hfit hm (show 0 < 8 by decide) (show 8 ≤ nrTasklets by decide)
      (show 8 ∣ 2 ^ 32 by decide) rfl hlead]
    simp [h8, Nat.dvd_of_mod_eq_zero h8]
  · by_cases h42 : a.numCommDpu = 4 ∨ a.numCommDpu = 2
    · -- the kernel has a branch of its own for groups shorter than 8
      have hcount : (if a.numCommDpu = 4 then 4 else 2) = a.numCommDpu := by
        split <;> omega
      have hm : (⟨a.startOffset, a.targetOffset, a.numCommDpu, a.numCommDpu, a.eachDpu, some a.numCommDpu⟩ : Move).Of
          .clockwise a := ⟨rfl, hplace, rfl, by funext t; simp [Kernel.place, h8]⟩
      have hlead := leads_first (k := .clockwise) (b := b) (a := a)
        (p := fun t => if t < a.numCommDpu then .wait a.numCommDpu :: moveBlocks b a.totalDataSize false
          ⟨a.startOffset, a.targetOffset, a.numCommDpu, a.numCommDpu, a.eachDpu, some a.numCommDpu⟩ t else [])
        (fun t ht => by
          simp only [Kernel.main, relocateClockwise, Nat.not_le.mpr ht, ge_iff_le, h8, h42, hcount, hrotate, if_true,
            if_false]
          by_cases htn : t < a.numCommDpu
          · simp [htn, Nat.not_le.mpr htn]
          · simp [htn, Nat.not_lt.mp htn])
      have hpow : a.numCommDpu ∣ 2 ^ 32 := by
        obtain h | h := h42 <;> rw [h] <;> decide
      have hwide : a.numCommDpu ≤ nrTasklets := by
        unfold nrTasklets
        omega
      rw [rotates_iff_of_synced hfit hm hpos hwide hpow rfl (leads_past hpos hwide (hlead.congr fun t => ?_))]
      · simp only [Nat.dvd_refl, or_true, true_iff]
        obtain h | h := h42 <;> simp [h]
      · by_cases ht : t < 8
        · simp [ht]
        · have htn : ¬t < a.numCommDpu := by omega
          simp [ht, htn]
    · -- and none for other sizes
      have hlead := (leads_first (k := .clockwise) (b := b) (a := a) (p := fun _ => [])
        (fun t ht => by simp [Kernel.main, relocateClockwise, Nat.not_le.mpr ht, h8, h42])).congr fun t => ite_self _
      rw [rotates_iff_of_nothing hlead]
      have hnot := not_or.mp h42
      simp [h8, hnot.1, hnot.2]

/-- The loop after the first barrier, when a part of the tasklets runs it. -/
theorem leads_some {k : Kernel} {w : Nat} {p : Nat → Program} (hw : w ≤ 8)
    (h : ∀ t < 8, k.main b a t = .wait 8 :: if t ≥ w then [] else p t) :
    Leads k b a fun t => if t < w then p t else [] := by
  refine (leads_first h).congr fun t => ?_
  by_cases ht : t < w
  · have ht8 : t < 8 := by omega
    simp [ht, ht8, Nat.not_le.mpr ht]
  · simp [ht, Nat.not_lt.mp ht]

theorem relocateClockwiseShort_rotates_iff (hfit : Fits b a size) (hrotate : a.noRotate = false)
    (hplace : a.targetOffset = a.startOffset) (hrg : 1 < a.numCommRg) (hrg8 : a.numCommRg < 8) :
    Rotates transfer .clockwiseShort b a size ↔ size = 0 ∨
      if a.commType = 0 ∧ (a.numCommRg = 4 ∨ a.numCommRg = 2) then a.numCommRg ∣ a.numCommDpu
      else ∀ t < a.numCommDpu, Kernel.place .clockwiseShort a t = t := by
  have hpos : 0 < a.numCommRg := by omega
  by_cases hx : a.commType = 0
  · have hlead := leads_some (k := .clockwiseShort) (b := b) (a := a) (w := a.numCommRg)
      (p := moveBlocks b a.totalDataSize false ⟨a.startOffset, a.targetOffset, a.numCommDpu, a.numCommRg, a.eachDpu,
        if a.numCommRg = 4 then some 4 else if a.numCommRg = 2 then some 2 else none⟩) (Nat.le_of_lt hrg8)
      (fun t ht => by
        simp only [Kernel.main, relocateClockwiseShort, ge_iff_le, Nat.not_le.mpr ht, hx, hrotate, if_true, if_false])
    have hm : (⟨a.startOffset, a.targetOffset, a.numCommDpu, a.numCommRg, a.eachDpu,
        if a.numCommRg = 4 then some 4 else if a.numCommRg = 2 then some 2 else none⟩ : Move).Of .clockwiseShort a :=
      ⟨rfl, hplace, rfl, by funext t; simp [Kernel.place, hx]⟩
    by_cases h42 : a.numCommRg = 4 ∨ a.numCommRg = 2
    · have hbarrier : (if a.numCommRg = 4 then some 4 else if a.numCommRg = 2 then some 2 else none) =
          some a.numCommRg := by
        obtain h | h := h42 <;> rw [h] <;> rfl
      have hpow : a.numCommRg ∣ 2 ^ 32 := by
        obtain h | h := h42 <;> rw [h] <;> decide
      have hwide : a.numCommRg ≤ nrTasklets := by
        unfold nrTasklets
        omega
      apply (rotates_iff_of_synced hfit hm hpos hwide hpow hbarrier hlead).trans
      simp only [hx, h42, and_self, if_true]
    · have hbarrier : (if a.numCommRg = 4 then some 4 else if a.numCommRg = 2 then some 2 else none) = none := by
        rw [if_neg (not_or.mp h42).1, if_neg (not_or.mp h42).2]
      apply (rotates_iff_of_unsynced hfit hm hpos (Nat.le_of_lt hrg8) hbarrier hlead).trans
      simp only [hx, h42, and_false, if_false]
  · have hlead := leads_some (k := .clockwiseShort) (b := b) (a := a) (w := a.numCommRg)
      (p := moveBlocks b a.totalDataSize false ⟨a.startOffset, a.targetOffset, a.numCommDpu, a.numCommRg,
        a.eachDpu / (8 / a.numCommRg), none⟩) (Nat.le_of_lt hrg8)
      (fun t ht => by
        simp only [Kernel.main, relocateClockwiseShort, ge_iff_le, Nat.not_le.mpr ht, hx, hrotate, if_false])
    have hm : (⟨a.startOffset, a.targetOffset, a.numCommDpu, a.numCommRg, a.eachDpu / (8 / a.numCommRg),
        none⟩ : Move).Of .clockwiseShort a :=
      ⟨rfl, hplace, rfl, by funext t; simp [Kernel.place, hx]⟩
    apply (rotates_iff_of_unsynced hfit hm hpos (Nat.le_of_lt hrg8) rfl hlead).trans
    simp only [hx, false_and, if_false]

/-- Two rotations one after the other, the second of pairs of blocks. -/
theorem Relocated.pairs {base n : Nat} {place₁ place₂ : Nat → Nat} {mram₀ mram₁ mram₂ : Mem UInt8} (heven : 2 ∣ n)
    (hlt : ∀ t < n, place₁ t < n) (h₁ : Relocated base size n place₁ mram₀ mram₁)
    (h₂ : Relocated base (2 * size) (n / 2) place₂ mram₁ mram₂) :
    Relocated base size n (fun t => 2 * place₂ (place₁ t / 2) + place₁ t % 2) mram₀ mram₂ := by
  have hregion : n / 2 * (2 * size) = n * size := by
    rw [← Nat.mul_assoc, Nat.div_mul_cancel heven]
  refine ⟨fun t ht o ho => ?_, fun x hx => ?_⟩
  · have hu := hlt t ht
    have hoff : size * (place₁ t % 2) + o < 2 * size := by
      obtain h | h := Nat.mod_two_eq_zero_or_one (place₁ t) <;> rw [h] <;> omega
    have hpair := h₂.1 (place₁ t / 2) (by omega) _ hoff
    have hsplit : ∀ q, base + 2 * size * q + (size * (place₁ t % 2) + o) = base + size * (2 * q + place₁ t % 2) + o := by
      intro q
      rw [Nat.mul_add, Nat.mul_comm 2 size, Nat.mul_assoc]
      omega
    rw [hsplit, hsplit, Nat.div_add_mod] at hpair
    exact hpair.trans (h₁.1 t ht o ho)
  · exact (h₂.2 x (by rwa [hregion])).trans (h₁.2 x hx)

/-- The first loop of the modified kernel, over blocks. -/
def blocksMove (a : Arguments) : Move := ⟨a.startOffset, a.startOffset, a.numCommDpu, 2, a.eachDpu, some 2⟩

/-- The second, over pairs of blocks. -/
def pairsMove (a : Arguments) : Move := ⟨a.startOffset, a.startOffset, a.numCommDpu / 2, 2, a.eachDpu / 4, some 2⟩

def twoLoops (b : Build) (a : Arguments) (t : Nat) : Program :=
  moveBlocks b a.totalDataSize false (blocksMove a) t ++ moveBlocks b a.totalDataSize false (pairsMove a) t

theorem waits_twoLoops (t : Nat) : waits 2 (twoLoops b a t) =
    (strided a.numCommDpu 2 t).length * (chunks b (maxWords b a.totalDataSize a.numCommDpu) * 2) +
      (strided (a.numCommDpu / 2) 2 t).length * (chunks b (maxWords b a.totalDataSize (a.numCommDpu / 2)) * 2) := by
  rw [twoLoops, waits_append, waits_moveBlocks rfl, waits_moveBlocks rfl]
  rfl

theorem Fits.pairWords (h : Fits b a size) (heven : 2 ∣ a.numCommDpu) :
    maxWords b a.totalDataSize (a.numCommDpu / 2) * b.wordBytes = 2 * size := by
  have hpos := h.blocks_pos
  refine maxWords_mul (by omega) ?_ (Nat.dvd_mul_left_of_dvd h.word 2)
  rw [h.total, ← Nat.mul_assoc, Nat.div_mul_cancel heven]

theorem twoLoops_unequal (hfit : Fits b a size) (hsize : size ≠ 0) (h4 : ¬4 ∣ a.numCommDpu) :
    waits 2 (twoLoops b a 1) < waits 2 (twoLoops b a 0) := by
  have h₁ : 0 < chunks b (maxWords b a.totalDataSize a.numCommDpu) := (lt_chunks_iff hfit.words).mpr (by omega)
  rw [waits_twoLoops, waits_twoLoops, strided_shares (n := a.numCommDpu) (w := 2) (by decide),
    strided_shares (n := a.numCommDpu / 2) (w := 2) (by decide), Nat.add_mul, Nat.add_mul]
  by_cases h2 : 2 ∣ a.numCommDpu
  · have h₂ : 0 < chunks b (maxWords b a.totalDataSize (a.numCommDpu / 2)) :=
      (lt_chunks_iff (hfit.pairWords h2)).mpr (by omega)
    have hodd : ¬2 ∣ a.numCommDpu / 2 := by omega
    rw [if_pos h2, if_neg hodd, Nat.zero_mul, Nat.one_mul]
    exact Nat.add_lt_add_left (Nat.lt_add_of_pos_right (by omega)) _
  · rw [if_neg h2, Nat.one_mul]
    have hle : (strided (a.numCommDpu / 2) 2 (2 - 1)).length * (chunks b (maxWords b a.totalDataSize
        (a.numCommDpu / 2)) * 2) ≤ (strided (a.numCommDpu / 2) 2 (2 - 1)).length * (chunks b (maxWords b
        a.totalDataSize (a.numCommDpu / 2)) * 2) + (if 2 ∣ a.numCommDpu / 2 then 0 else 1) *
        (chunks b (maxWords b a.totalDataSize (a.numCommDpu / 2)) * 2) := Nat.le_add_right _ _
    exact Nat.add_lt_add_of_lt_of_le (Nat.lt_add_of_pos_right (by omega)) hle

theorem rotates_iff_of_twoLoops (hfit : Fits b a size) (hx : a.commType = 0) (hrg : a.numCommRg = 2)
    (hlead : Leads .modifiedReverseClockwise b a fun t => if t < 2 then twoLoops b a t else []) :
    Rotates transfer .modifiedReverseClockwise b a size ↔ size = 0 ∨ 4 ∣ a.numCommDpu := by
  constructor
  · intro h
    by_contra hnot
    obtain ⟨hsize, h4⟩ := not_or.mp hnot
    obtain ⟨mram', -, hsettles⟩ := h.from_leads hlead (fun _ => 0) fun _ _ => 0
    -- an odd number of pairs leaves one of the two tasklets at a barrier
    refine not_settles_of_waits_ne (w := 2) (fun _ hs => hs.1) (fun t ht => ?_) (by decide) (show 0 < 2 by decide)
      (show 1 < 2 by decide) (Nat.ne_of_gt (twoLoops_unequal hfit hsize h4)) hsettles
    simp [Nat.not_lt.mpr ht]
  · intro h
    by_cases hsize : size = 0
    · refine rotates_of_empty (hlead.congr fun t => ?_) hsize
      have htotal : a.totalDataSize = 0 := by rw [hfit.total, hsize, Nat.mul_zero]
      rw [twoLoops, moveBlocks_empty (by simp [maxWords, htotal]), moveBlocks_empty (by simp [maxWords, htotal])]
      exact ite_self _
    · have h4 := h.resolve_left hsize
      have heven : 2 ∣ a.numCommDpu := Nat.dvd_trans (by decide) h4
      have hhalf : 2 ∣ a.numCommDpu / 2 := by omega
      have hmram := hfit.noWrap
      have hregion : a.numCommDpu / 2 * (2 * size) = a.numCommDpu * size := by
        rw [← Nat.mul_assoc, Nat.div_mul_cancel heven]
      refine rotates_of_leads hlead fun mram => ⟨(pairsMove a).result (b.heap + a.startOffset) (2 * size)
        ((blocksMove a).result (b.heap + a.startOffset) size mram), ?_, fun caches => ?_⟩
      · have hplaces : Kernel.place .modifiedReverseClockwise a = fun t => 2 * rotated 2 (a.eachDpu / 4)
            (rotated 2 a.eachDpu t / 2) + rotated 2 a.eachDpu t % 2 := by
          funext t
          simp [Kernel.place, hx, hrg]
        rw [hplaces]
        exact Relocated.pairs heven (regroup_rotated (by decide) (by decide) heven).place_lt
          (Move.result_relocated (m := blocksMove a) (show 0 < 2 by decide) (show 2 ∣ 2 ^ 32 by decide) heven)
          (Move.result_relocated (m := pairsMove a) (show 0 < 2 by decide) (show 2 ∣ 2 ^ 32 by decide) hhalf)
      · refine lockstep_settles (w := 2) (moveRounds b a.totalDataSize (blocksMove a) ++
          (moveRounds b a.totalDataSize (pairsMove a) ++ [])) (by decide) (by decide) ?_ fun t => ?_
        · refine rounds_moveRounds (m := blocksMove a) (regroup_rotated (show 0 < 2 by decide) (show 2 ∣ 2 ^ 32 by decide)
            heven) (show 0 < 2 by decide) heven hfit.words rfl ?_ ?_ _
          · show b.heap + a.startOffset + a.numCommDpu * size ≤ _
            omega
          refine rounds_moveRounds (m := pairsMove a) (regroup_rotated (show 0 < 2 by decide) (show 2 ∣ 2 ^ 32 by decide)
            hhalf) (show 0 < 2 by decide) hhalf (hfit.pairWords heven) rfl ?_ fun _ => ?_
          · show b.heap + a.startOffset + a.numCommDpu / 2 * (2 * size) ≤ _
            omega
          · exact rfl
        · show (if t < 2 then twoLoops b a t else []) = _
          split
          · rename_i ht
            rw [List.append_nil, inLockstep_append, twoLoops, moveBlocks_eq (m := blocksMove a) heven rfl ht,
              moveBlocks_eq (m := pairsMove a) hhalf rfl ht]
            rfl
          · rfl

theorem relocateModifiedReverseClockwise_rotates_iff (hfit : Fits b a size) (hrotate : a.noRotate = false)
    (hplace : a.targetOffset = a.startOffset) (hrg : a.numCommRg = 2) :
    Rotates transfer .modifiedReverseClockwise b a size ↔ size = 0 ∨
      if a.commType = 0 then 4 ∣ a.numCommDpu
      else ∀ t < a.numCommDpu, Kernel.place .modifiedReverseClockwise a t = t := by
  by_cases hx : a.commType = 0
  · have hlead := leads_some (k := .modifiedReverseClockwise) (b := b) (a := a) (w := 2) (p := twoLoops b a)
      (by decide) (fun t ht => by
        simp only [Kernel.main, relocateModifiedReverseClockwise, ge_iff_le, Nat.not_le.mpr ht, hx, hrg, hrotate,
          hplace, if_true, if_false]
        rfl)
    apply (rotates_iff_of_twoLoops hfit hx hrg hlead).trans
    simp only [hx, if_true]
  · have hlead := leads_some (k := .modifiedReverseClockwise) (b := b) (a := a) (w := 2)
      (p := moveBlocks b a.totalDataSize false ⟨a.startOffset, a.targetOffset, a.numCommDpu, 2, a.eachDpu / 2, none⟩)
      (by decide) (fun t ht => by
        simp only [Kernel.main, relocateModifiedReverseClockwise, ge_iff_le, Nat.not_le.mpr ht, hx, hrg, hrotate,
          if_false])
    have hm : (⟨a.startOffset, a.targetOffset, a.numCommDpu, 2, a.eachDpu / 2, none⟩ : Move).Of
        .modifiedReverseClockwise a := ⟨rfl, hplace, rfl, by funext t; simp [Kernel.place, hx, hrg]⟩
    apply (rotates_iff_of_unsynced hfit hm (show 0 < 2 by decide) (show 2 ≤ 8 by decide) rfl hlead).trans
    simp only [hx, if_false]

end Kernels

end DpuBackend.PidComm
