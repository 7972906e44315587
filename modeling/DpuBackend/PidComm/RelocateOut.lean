import DpuBackend.PidComm.RelocateSafe

/-
  The relocation kernels that copy the blocks to another region.

  C ↔ Lean (src/pidcomm_lib, src/api/src/api/dpu_memory.c):
    the loop over target_dpu_num, iteration   ↔ copyBlocks
    offset = (dpu_num - target_dpu_num) % n   ↔ reflected
    data_relocate_reverse_clockwise, main     ↔ relocateReverseClockwise
    data_relocate_modified_clockwise, main    ↔ relocateModifiedClockwise
    pidcomm_alltoall, relocate after          ↔ alltoallAfter

  A loop whose target is apart from its source reads a memory that does not change: with
  a barrier of its stride after every transfer it ends, under every interleaving, with the
  blocks of the source at their places in the target and nothing else written. With whole
  words of 8 bytes it does so on every SDK (`settles_copied`). What the kernels print is
  left out, as in Relocate.
-/

namespace DpuBackend.PidComm

open DpuBackend.Lib

/-! ## The kernels -/

/-- The parameters in which the loops differ; `place` is the block a block goes to. -/
structure BlockLoop where
  source : Nat
  target : Nat
  blocks : Nat
  stride : Nat
  place : Nat → Nat
  barrier : Option Nat

def copyChunk (b : Build) (total : Nat) (l : BlockLoop) (t iteration : Nat) : Program :=
  let words := maxWords b total l.blocks
  .run (.mramRead (chunkAddr b l.source words t iteration) (chunkBytes b words iteration)) :: sync l.barrier ++
    (.run (.mramWrite (chunkAddr b l.target words (l.place t) iteration) (chunkBytes b words iteration)) ::
      sync l.barrier)

def copyBlocks (b : Build) (total : Nat) (l : BlockLoop) (tid : Nat) : Program :=
  (strided l.blocks l.stride tid).flatMap fun t =>
    (List.range (chunks b (maxWords b total l.blocks))).flatMap (copyChunk b total l t)

/-- The block `t` goes to: `dpu_num - target_dpu_num` in its group of `width`. -/
def reflected (width dpu t : Nat) : Nat := t / width * width + sub32 dpu t % width

def placed (noRotate : Bool) (place : Nat → Nat) (t : Nat) : Nat := if noRotate then t else place t

def relocateReverseClockwise (b : Build) (a : Arguments) (tid : Nat) : Program :=
  if tid ≥ 8 then []
  else .wait 8 :: (
    if a.numCommDpu % 8 = 0 ∧ a.numCommRg = 8 then
      .wait 8 :: copyBlocks b a.totalDataSize ⟨a.startOffset, a.targetOffset, a.numCommDpu, 8,
        placed a.noRotate (reflected 8 a.eachDpu), some 8⟩ tid
    -- the x axis is shorter than 8
    else if a.numCommRg < 8 ∧ a.commType = 0 then
      if tid ≥ a.numCommRg then []
      else copyBlocks b a.totalDataSize ⟨a.startOffset, a.targetOffset, a.numCommDpu, a.numCommRg,
        placed a.noRotate (reflected a.numCommRg a.eachDpu), none⟩ tid
    else if a.numCommRg < 8 then
      if tid ≥ 8 / a.numCommRg then []
      -- the stride is not the width of the groups
      else copyBlocks b a.totalDataSize ⟨a.startOffset, a.targetOffset, a.numCommDpu, 8 / a.numCommRg,
        placed a.noRotate (reflected a.numCommRg (a.eachDpu / (8 / a.numCommRg))), none⟩ tid
    else if a.numCommDpu = 4 ∨ a.numCommDpu = 2 then
      if tid ≥ a.numCommDpu then []
      else .wait (if a.numCommDpu = 4 then 4 else 2) :: copyBlocks b a.totalDataSize
        ⟨a.startOffset, a.targetOffset, a.numCommDpu, a.numCommDpu,
          placed a.noRotate (reflected a.numCommDpu a.eachDpu), some (if a.numCommDpu = 4 then 4 else 2)⟩ tid
    else [])

/-- The first loop reads and writes the region at the start offset, the second moves pairs of
blocks to the target. -/
def relocateModifiedClockwise (b : Build) (a : Arguments) (tid : Nat) : Program :=
  if tid ≥ 8 then []
  else .wait 8 :: (
    if a.numCommRg < 8 ∧ a.commType = 0 then
      if tid ≥ 4 then []
      else copyBlocks b a.totalDataSize ⟨a.startOffset, a.startOffset, a.numCommDpu, 4,
          placed a.noRotate (reflected 2 a.eachDpu), some 4⟩ tid ++ (
        if tid ≥ 2 then []
        else copyBlocks b a.totalDataSize ⟨a.startOffset, a.targetOffset, a.numCommDpu / 2, 2,
          placed a.noRotate (reflected 2 (a.eachDpu / 4)), none⟩ tid)
    else if a.numCommRg < 8 then
      if tid ≥ 2 then []
      else copyBlocks b a.totalDataSize ⟨a.startOffset, a.targetOffset, a.numCommDpu, 2,
        placed a.noRotate (reflected 2 (a.eachDpu / 2)), none⟩ tid
    else [])

/-- The kernels that are launched after the host has moved the data. -/
inductive AfterKernel where
  | clockwise
  | reverseClockwise
  | modifiedClockwise
deriving DecidableEq, Repr

def AfterKernel.main : AfterKernel → Build → Arguments → Nat → Program
  | .clockwise => relocateClockwise
  | .reverseClockwise => relocateReverseClockwise
  | .modifiedClockwise => relocateModifiedClockwise

/-- The tasklets of a launch, with whatever the caches hold. -/
def AfterKernel.launched (k : AfterKernel) (b : Build) (a : Arguments) (mram : Mem UInt8) (caches : Nat → Mem UInt8) :
    Threads Transfer (Mem UInt8) (Mem UInt8) where
  program := k.main b a
  locals := caches
  shared := mram

namespace Hypercube

variable (cube : Hypercube) (comm : List Nat)

/-- The arguments of a kernel that copies from the buffer to the target. -/
def outOfBuffer (start target buffer total i rg : Nat) (noRotate : Bool) : Arguments where
  startOffset := start + buffer
  targetOffset := target
  totalDataSize := total
  numCommDpu := cube.numCommDpu comm
  eachDpu := i
  noRotate := noRotate
  commType := commType comm
  aLength := cube.axisLen 0
  numCommRg := rg

/-- What `pidcomm_alltoall` launches on DPU `i` after the host has moved data; the last launch
finds `num_comm_rg` as the allocation left it, and does not read it. The axes behind the last are
read as 0. -/
def alltoallAfter (start target buffer total i unset : Nat) : AfterKernel × Arguments :=
  if cube.axisLen 0 = 2 ∧ cube.axisLen 1 = 2 ∧ ((commAxis comm 0 = 1 ∧ commAxis comm 1 = 0 ∧ commAxis comm 2 = 1) ∨
      (commAxis comm 0 = 0 ∧ commAxis comm 1 = 1 ∧ commAxis comm 2 = 0)) then
    (.modifiedClockwise, cube.outOfBuffer comm start target buffer total i 2 false)
  else if commType comm = 0 ∨ (cube.axisLen 0 < 8 ∧ commAxis comm 1 = 1) ∨
      (cube.axisLen 0 * cube.axisLen 1 % 2 ^ 32 = 4 ∧ (commAxis comm 1 = 1 ∨ commAxis comm 2 = 1)) then
    (.reverseClockwise, cube.outOfBuffer comm start target buffer total i (cube.numCommRg comm) false)
  else (.clockwise, cube.outOfBuffer comm start target buffer total i unset true)

end Hypercube

/-! ## Rounds of copies -/

/-- Every tasklet reads a chunk and writes it elsewhere. -/
structure CopyRound where
  src : Nat → Nat
  dst : Nat → Nat
  len : Nat

def copyRounds (cs : List CopyRound) : List (Nat → Transfer) :=
  cs.flatMap fun c => [fun t => .mramRead (c.src t) c.len, fun t => .mramWrite (c.dst t) c.len]

section Rounds

variable {w : Nat} {mram final : Mem UInt8}

/-- The memory after a round: what it writes is as it will be at the end. -/
def afterRound (w : Nat) (c : CopyRound) (mram final : Mem UInt8) : Mem UInt8 := fun x =>
  if ∃ t, t < w ∧ ¬Mem.Outside (c.dst t) c.len x then final x else mram x

theorem afterRound_outside {c : CopyRound} {x : Nat} (h : ∀ t < w, Mem.Outside (c.dst t) c.len x) :
    afterRound w c mram final x = mram x := by
  apply if_neg
  intro ⟨t, ht, hin⟩
  exact hin (h t ht)

/-- Rounds that never write what a later one reads lead to the memory that has at every
destination what was at its source. -/
theorem rounds_copies (cs : List CopyRound)
    (hmove : ∀ c ∈ cs, ∀ t < w, ∀ o < c.len, final (c.dst t + o) = mram (c.src t + o))
    (hapart : ∀ c ∈ cs, ∀ c' ∈ cs, ∀ t < w, ∀ t' < w, Mem.Apart (c.src t) c.len (c'.dst t') c'.len)
    (hkeep : ∀ x, (∀ c ∈ cs, ∀ t < w, Mem.Outside (c.dst t) c.len x) → final x = mram x) :
    ∀ caches, Rounds transfer w (copyRounds cs) mram caches final := by
  induction cs generalizing mram with
  | nil =>
    intro caches
    funext x
    exact hkeep x fun c hc => absurd hc List.not_mem_nil
  | cons c cs ih =>
    intro caches
    -- no later round reads what this one writes
    have hsrc : ∀ c' ∈ cs, ∀ t < w, ∀ o < c'.len,
        afterRound w c mram final (c'.src t + o) = mram (c'.src t + o) := by
      intro c' hc' t ht o ho
      apply afterRound_outside
      intro t' ht'
      obtain hbelow | habove := hapart c' (List.mem_cons_of_mem c hc') c List.mem_cons_self t ht t' ht'
      · exact .inl (by omega)
      · exact .inr (by omega)
    have hrest : ∀ caches, Rounds transfer w (copyRounds cs) (afterRound w c mram final) caches final := by
      apply ih
      · intro c' hc' t ht o ho
        rw [hsrc c' hc' t ht o ho]
        exact hmove c' (List.mem_cons_of_mem c hc') t ht o ho
      · intro c' hc' c'' hc''
        exact hapart c' (List.mem_cons_of_mem c hc') c'' (List.mem_cons_of_mem c hc'')
      · intro x hx
        unfold afterRound
        split
        · rfl
        · next hnone =>
          apply hkeep
          intro c' hc' t ht
          obtain rfl | hmem := List.mem_cons.1 hc'
          · by_contra hin
            exact hnone ⟨t, ht, hin⟩
          · exact hx c' hmem t ht
    apply rounds_readWrite _ _ hrest
    · intro t ht o ho
      have hin : afterRound w c mram final (c.dst t + o) = final (c.dst t + o) := by
        apply if_pos
        refine ⟨t, ht, ?_⟩
        unfold Mem.Outside
        omega
      rw [hin]
      exact hmove c List.mem_cons_self t ht o ho
    · intro x hx
      exact afterRound_outside hx

end Rounds

/-! ## A loop as rounds -/

/-- `place` permutes the blocks and `inv` undoes it. -/
structure Rearrange (n : Nat) (place inv : Nat → Nat) : Prop where
  place_lt : ∀ t < n, place t < n
  inv_lt : ∀ p < n, inv p < n
  inv_place : ∀ t < n, inv (place t) = t
  place_inv : ∀ p < n, place (inv p) = p

/-- `mram'` has block `t` of the region at `src` at place `place t` of the one at `dst`, and is
`mram` outside that. -/
def Copied (src dst size n : Nat) (place : Nat → Nat) (mram mram' : Mem UInt8) : Prop :=
  (∀ t < n, ∀ o < size, mram' (dst + size * place t + o) = mram (src + size * t + o))
    ∧ ∀ x, Mem.Outside dst (n * size) x → mram' x = mram x

/-- The memory with the blocks copied. -/
def copied (src dst size n : Nat) (inv : Nat → Nat) (mram : Mem UInt8) : Mem UInt8 := fun x =>
  if Mem.Outside dst (n * size) x then mram x
  else mram (src + size * inv ((x - dst) / size) + (x - dst) % size)

section Loop

variable {src dst size n : Nat} {place inv : Nat → Nat} {mram : Mem UInt8}

theorem copied_block {p o : Nat} (hp : p < n) (ho : o < size) :
    copied src dst size n inv mram (dst + size * p + o) = mram (src + size * inv p + o) := by
  have hoff : dst + size * p + o - dst = size * p + o := by omega
  have hdiv : (size * p + o) / size = p := by
    rw [Nat.mul_add_div (by omega), Nat.div_eq_of_lt ho, Nat.add_zero]
  have hmod : (size * p + o) % size = o := by
    rw [Nat.mul_add_mod, Nat.mod_eq_of_lt ho]
  rw [copied, if_neg (block_inside hp ho), hoff, hdiv, hmod]

theorem copied_copied (h : Rearrange n place inv) :
    Copied src dst size n place mram (copied src dst size n inv mram) := by
  refine ⟨fun t ht o ho => ?_, fun x hx => if_pos hx⟩
  rw [copied_block (h.place_lt t ht) ho, h.inv_place t ht]

variable (b : Build) (total : Nat) (l : BlockLoop)

/-- The copies of chunk `j` in group `k`. -/
def BlockLoop.round (k j : Nat) : CopyRound where
  src t := chunkAddr b l.source (maxWords b total l.blocks) (t + l.stride * k) j
  dst t := chunkAddr b l.target (maxWords b total l.blocks) (l.place (t + l.stride * k)) j
  len := chunkBytes b (maxWords b total l.blocks) j

def BlockLoop.rounds : List CopyRound :=
  (List.range (l.blocks / l.stride)).flatMap fun k =>
    (List.range (chunks b (maxWords b total l.blocks))).map (l.round b total k)

variable {b total l}

theorem mem_rounds {c : CopyRound} : c ∈ l.rounds b total ↔
    ∃ k < l.blocks / l.stride, ∃ j < chunks b (maxWords b total l.blocks), l.round b total k j = c := by
  simp only [BlockLoop.rounds, List.mem_flatMap, List.mem_map, List.mem_range]

theorem copyBlocks_eq {tid : Nat} (hdvd : l.stride ∣ l.blocks) (hbarrier : l.barrier = some l.stride)
    (htid : tid < l.stride) :
    copyBlocks b total l tid = inLockstep l.stride (copyRounds (l.rounds b total)) tid := by
  unfold copyBlocks copyRounds BlockLoop.rounds
  rw [strided_eq hdvd htid, List.flatMap_map, List.flatMap_assoc, inLockstep_flatMap]
  congr 1
  funext k
  rw [List.flatMap_map, inLockstep_flatMap]
  congr 1
  funext j
  simp [copyChunk, BlockLoop.round, inLockstep, hbarrier, sync]

/-- What a loop needs to copy its blocks of `size` bytes. -/
structure BlockLoop.Ready (b : Build) (total size : Nat) (inv : Nat → Nat) (l : BlockLoop) : Prop where
  rearrange : Rearrange l.blocks l.place inv
  stride_pos : 0 < l.stride
  stride_le : l.stride ≤ nrTasklets
  stride_dvd : l.stride ∣ l.blocks
  barrier : l.barrier = some l.stride
  words : maxWords b total l.blocks * b.wordBytes = size
  size_dvd : 8 ∣ size
  source_dvd : 8 ∣ b.heap + l.source
  target_dvd : 8 ∣ b.heap + l.target
  source_fits : b.heap + l.source + l.blocks * size ≤ b.mram + 2 ^ 26
  target_fits : b.heap + l.target + l.blocks * size ≤ b.mram + 2 ^ 26
  apart : Mem.Apart l.source (l.blocks * size) l.target (l.blocks * size)

namespace BlockLoop.Ready

variable (h : l.Ready b total size inv)
include h

/-- Tasklet `t` of group `k` has a block. -/
theorem block_lt {k t : Nat} (hk : k < l.blocks / l.stride) (ht : t < l.stride) : t + l.stride * k < l.blocks := by
  have hnext : l.stride * (k + 1) ≤ l.stride * (l.blocks / l.stride) := Nat.mul_le_mul_left _ hk
  rw [Nat.mul_div_cancel' h.stride_dvd, Nat.mul_succ] at hnext
  omega

theorem sourceAddr {t j : Nat} (ht : t < l.blocks) (hj : 2048 * j < size) :
    chunkAddr b l.source (maxWords b total l.blocks) t j = b.heap + l.source + size * t + 2048 * j := by
  apply chunkAddr_eq h.words _ hj
  have hfit := h.source_fits
  have hlow := b.mram_low
  have hend : size * t + size ≤ l.blocks * size := block_le ht
  rw [Nat.mul_succ]
  omega

theorem targetAddr {t j : Nat} (ht : t < l.blocks) (hj : 2048 * j < size) :
    chunkAddr b l.target (maxWords b total l.blocks) t j = b.heap + l.target + size * t + 2048 * j := by
  apply chunkAddr_eq h.words _ hj
  have hfit := h.target_fits
  have hlow := b.mram_low
  have hend : size * t + size ≤ l.blocks * size := block_le ht
  rw [Nat.mul_succ]
  omega

theorem rounds_copied (mram : Mem UInt8) : ∀ caches, Rounds transfer l.stride (copyRounds (l.rounds b total)) mram
    caches (copied (b.heap + l.source) (b.heap + l.target) size l.blocks inv mram) := by
  have hwords := h.words
  apply rounds_copies
  · intro c hc t ht o ho
    obtain ⟨k, hk, j, hj, rfl⟩ := mem_rounds.1 hc
    have hchunk := (lt_chunks_iff hwords).1 hj
    have hlt := h.block_lt hk ht
    have hlen : (l.round b total k j).len = min 2048 (size - 2048 * j) := chunkBytes_eq hwords hchunk
    have hsrc : (l.round b total k j).src t = _ := h.sourceAddr hlt hchunk
    have hdst : (l.round b total k j).dst t = _ := h.targetAddr (h.rearrange.place_lt _ hlt) hchunk
    rw [hsrc, hdst, Nat.add_assoc _ _ o, Nat.add_assoc _ _ o,
      copied_block (h.rearrange.place_lt _ hlt) (by omega), h.rearrange.inv_place _ hlt]
  · intro c hc c' hc' t ht t' ht'
    obtain ⟨k, hk, j, hj, rfl⟩ := mem_rounds.1 hc
    obtain ⟨k', hk', j', hj', rfl⟩ := mem_rounds.1 hc'
    have hchunk := (lt_chunks_iff hwords).1 hj
    have hchunk' := (lt_chunks_iff hwords).1 hj'
    have hlt := h.block_lt hk ht
    have hlt' := h.rearrange.place_lt _ (h.block_lt hk' ht')
    have hlen : (l.round b total k j).len = min 2048 (size - 2048 * j) := chunkBytes_eq hwords hchunk
    have hlen' : (l.round b total k' j').len = min 2048 (size - 2048 * j') := chunkBytes_eq hwords hchunk'
    have hsrc : (l.round b total k j).src t = _ := h.sourceAddr hlt hchunk
    have hdst : (l.round b total k' j').dst t' = _ := h.targetAddr hlt' hchunk'
    have hend : size * (t + l.stride * k) + size ≤ l.blocks * size := block_le hlt
    have hend' : size * l.place (t' + l.stride * k') + size ≤ l.blocks * size := block_le hlt'
    rw [hsrc, hdst, hlen, hlen']
    obtain hbelow | habove := h.apart
    · exact .inl (by omega)
    · exact .inr (by omega)
  · intro x hx
    by_cases hout : Mem.Outside (b.heap + l.target) (l.blocks * size) x
    · exact if_pos hout
    · -- the chunk of `x` is written by the tasklet of the block that goes there
      exfalso
      obtain ⟨p, hp, o, ho, rfl⟩ := exists_block hout
      have hinv := h.rearrange.inv_lt p hp
      have hgroup : inv p / l.stride < l.blocks / l.stride := by
        apply (Nat.div_lt_iff_lt_mul h.stride_pos).2
        rwa [Nat.div_mul_cancel h.stride_dvd]
      have hj : 2048 * (o / 2048) < size := by omega
      have hmem := mem_rounds.2 ⟨_, hgroup, o / 2048, (lt_chunks_iff hwords).2 hj, rfl⟩
      have hchunk := hx _ hmem (inv p % l.stride) (Nat.mod_lt _ h.stride_pos)
      have hlen : (l.round b total (inv p / l.stride) (o / 2048)).len = min 2048 (size - 2048 * (o / 2048)) :=
        chunkBytes_eq hwords hj
      have hdst : (l.round b total (inv p / l.stride) (o / 2048)).dst (inv p % l.stride) =
          b.heap + l.target + size * p + 2048 * (o / 2048) := by
        show chunkAddr b l.target _ (l.place (inv p % l.stride + l.stride * (inv p / l.stride))) _ = _
        rw [Nat.mod_add_div, h.rearrange.place_inv p hp]
        exact h.targetAddr hp hj
      rw [hdst, hlen] at hchunk
      unfold Mem.Outside at hchunk
      omega

/-- The loop keeps to the calls the SDK describes. -/
theorem documented {tid : Nat} {x : Transfer} (htid : tid < l.stride) (hx : .run x ∈ copyBlocks b total l tid) :
    x.Documented b := by
  have hsync : .run x ∉ sync l.barrier := by
    unfold sync
    split <;> simp
  simp only [copyBlocks, copyChunk, List.mem_flatMap, List.mem_range, List.cons_append, List.mem_cons, List.mem_append,
    hsync, false_or, or_false, Instr.run.injEq] at hx
  obtain ⟨t, ht, it, hit, hx⟩ := hx
  have hlt := ((mem_strided h.stride_pos htid).mp ht).1
  exact documented_chunk h.words h.size_dvd h.source_dvd h.target_dvd h.source_fits h.target_fits hlt
    (h.rearrange.place_lt t hlt) hit hx

/-- However the tasklets are interleaved, they end with the blocks copied. -/
theorem settles_copied (sdk : Sdk b) {s : Threads Transfer (Mem UInt8) (Mem UInt8)}
    (hprog : ∀ t, s.program t = if t < l.stride then copyBlocks b total l t else []) :
    Settles sdk.exec nrTasklets s fun s' => s'.Done nrTasklets ∧
      s'.shared = copied (b.heap + l.source) (b.heap + l.target) size l.blocks inv s.shared := by
  have hbytes : Settles transfer nrTasklets s fun s' => s'.Done nrTasklets ∧
      s'.shared = copied (b.heap + l.source) (b.heap + l.target) size l.blocks inv s.shared := by
    apply lockstep_settles (copyRounds (l.rounds b total)) h.stride_pos h.stride_le (h.rounds_copied s.shared s.locals)
    intro t
    rw [hprog t]
    split
    · next ht => exact copyBlocks_eq h.stride_dvd h.barrier ht
    · rfl
  apply hbytes.congr
  intro x hruns
  obtain ⟨t, -, hx⟩ := hruns
  rw [hprog t] at hx
  split at hx
  · next ht => exact (sdk.documented x (h.documented ht hx)).symm
  · cases hx

end BlockLoop.Ready

end Loop

/-! ## Two launches -/

section Launches

variable {w n dpu size : Nat}

theorem reflected_group (hw : 0 < w) (t : Nat) : reflected w dpu t / w = t / w :=
  (group_add (Nat.mod_lt _ hw)).1

theorem reflected_reflected (hw : 0 < w) (hpow : w ∣ 2 ^ 32) (t : Nat) : reflected w dpu (reflected w dpu t) = t := by
  have hsame : reflected w dpu t ≡ sub32 dpu t [MOD w] := (group_add (Nat.mod_lt _ hw)).2
  have hsum : sub32 dpu (reflected w dpu t) + sub32 dpu t ≡ t + sub32 dpu t [MOD w] := by
    calc sub32 dpu (reflected w dpu t) + sub32 dpu t
      _ ≡ sub32 dpu (reflected w dpu t) + reflected w dpu t [MOD w] := hsame.symm.add_left _
      _ ≡ dpu [MOD w] := sub32_add_modEq hpow dpu
      _ ≡ sub32 dpu t + t [MOD w] := (sub32_add_modEq hpow dpu).symm
      _ = t + sub32 dpu t := Nat.add_comm _ _
  have hback : sub32 dpu (reflected w dpu t) % w = t % w := Nat.ModEq.add_right_cancel' _ hsum
  calc reflected w dpu (reflected w dpu t)
      = reflected w dpu t / w * w + sub32 dpu (reflected w dpu t) % w := rfl
    _ = t / w * w + t % w := by rw [reflected_group hw, hback]
    _ = t := Nat.div_add_mod' t w

theorem rearrange_reflected (hw : 0 < w) (hpow : w ∣ 2 ^ 32) (hdvd : w ∣ n) :
    Rearrange n (reflected w dpu) (reflected w dpu) where
  place_lt t ht := lt_of_group hw hdvd ht (reflected_group hw t)
  inv_lt t ht := lt_of_group hw hdvd ht (reflected_group hw t)
  inv_place t _ := reflected_reflected hw hpow t
  place_inv t _ := reflected_reflected hw hpow t

theorem rearrange_rotated {shift : Nat} (hw : 0 < w) (hpow : w ∣ 2 ^ 32) (hdvd : w ∣ n) :
    Rearrange n (rotated w shift) (unrotated w shift) where
  place_lt := (regroup_rotated hw hpow hdvd).place_lt
  inv_lt := (regroup_rotated hw hpow hdvd).source_lt
  inv_place := (regroup_rotated hw hpow hdvd).source_place
  place_inv := (regroup_rotated hw hpow hdvd).place_source

theorem rearrange_id : Rearrange n (fun t => t) fun t => t where
  place_lt _ ht := ht
  inv_lt _ ht := ht
  inv_place _ _ := rfl
  place_inv _ _ := rfl

/-- Source and target are whole blocks of `size` bytes, on words of 8 bytes, apart and inside the
MRAM. -/
structure OutOfPlace (b : Build) (a : Arguments) (size : Nat) : Prop where
  blocks_pos : 0 < a.numCommDpu
  total : a.totalDataSize = a.numCommDpu * size
  size_dvd : 8 ∣ size
  source_dvd : 8 ∣ b.heap + a.startOffset
  target_dvd : 8 ∣ b.heap + a.targetOffset
  source_fits : b.heap + a.startOffset + a.numCommDpu * size ≤ b.mram + 2 ^ 26
  target_fits : b.heap + a.targetOffset + a.numCommDpu * size ≤ b.mram + 2 ^ 26
  apart : Mem.Apart a.startOffset (a.numCommDpu * size) a.targetOffset (a.numCommDpu * size)

variable {b : Build} {a : Arguments}

theorem OutOfPlace.ready (h : OutOfPlace b a size) {place inv : Nat → Nat} (hplace : Rearrange a.numCommDpu place inv)
    (hw : 0 < w) (hwn : w ≤ nrTasklets) (hdvd : w ∣ a.numCommDpu) :
    BlockLoop.Ready b a.totalDataSize size inv ⟨a.startOffset, a.targetOffset, a.numCommDpu, w, place, some w⟩ where
  rearrange := hplace
  stride_pos := hw
  stride_le := hwn
  stride_dvd := hdvd
  barrier := rfl
  words := maxWords_mul h.blocks_pos h.total (b.word_dvd.trans h.size_dvd)
  size_dvd := h.size_dvd
  source_dvd := h.source_dvd
  target_dvd := h.target_dvd
  source_fits := h.source_fits
  target_fits := h.target_fits
  apart := h.apart

/-- A kernel waits for its eight tasklets, then the `d` that copy wait for each other. -/
theorem settles_barriers {exec : Transfer → Mem UInt8 → Mem UInt8 → Mem UInt8 × Mem UInt8} {d : Nat}
    {copy : Nat → Program} {s : Threads Transfer (Mem UInt8) (Mem UInt8)}
    {Q : Threads Transfer (Mem UInt8) (Mem UInt8) → Prop} (hd : 0 < d) (hle : d ≤ 8)
    (hprog : ∀ t, s.program t = if t < 8 then .wait 8 :: (if t < d then .wait d :: copy t else []) else [])
    (h : Settles exec nrTasklets (s.past d copy) Q) : Settles exec nrTasklets s Q := by
  refine settles_past (by decide) (by decide) hprog ?_
  have hnext : ∀ t, (s.past 8 fun t => if t < d then .wait d :: copy t else []).program t =
      if t < d then .wait d :: copy t else [] := by
    intro t
    show (if t < 8 then _ else []) = _
    by_cases ht : t < 8
    · rw [if_pos ht]
    · rw [if_neg ht, if_neg (by omega)]
  exact settles_past hd (hle.trans (by decide)) hnext h

/-- The clockwise kernel on one region, where eight DPUs of an entangled group communicate. -/
theorem clockwise_rotates (sdk : Sdk b) (hfit : Fits b a size) (hwords : OnWords b a size) (h8 : 8 ∣ a.numCommDpu)
    (htarget : a.targetOffset = a.startOffset) (hrotate : a.noRotate = false) (mram : Mem UInt8) : ∃ mram',
    Relocated (b.heap + a.startOffset) size a.numCommDpu (rotated 8 a.eachDpu) mram mram' ∧ ∀ caches,
      Settles sdk.exec nrTasklets (launched .clockwise b a mram caches) fun s =>
        s.Done nrTasklets ∧ s.shared = mram' := by
  let m : Move := ⟨a.startOffset, a.targetOffset, a.numCommDpu, 8, a.eachDpu, some 8⟩
  have hw : 0 < m.width := Nat.succ_pos 7
  have hpow : m.width ∣ 2 ^ 32 := by
    show 8 ∣ 2 ^ 32
    decide
  have hinside : m.Inside b a size size := hfit.inside rfl htarget rfl (regroup_rotated hw hpow h8).place_lt
  refine ⟨m.result (b.heap + m.source) size mram, m.result_relocated hw hpow h8, fun caches => ?_⟩
  have hwn : m.width ≤ nrTasklets := Nat.le_add_right 8 8
  have hsettles := settles_synced (s := (launched .clockwise b a mram caches).past 8 (moveBlocks b a.totalDataSize false m))
    hw hwn hpow h8 rfl htarget hinside.fills hfit.noWrap fun _ => rfl
  apply settles_barriers (d := 8) (by decide) (by decide) _ (hsettles.congr fun x hruns => ?_)
  · intro t
    show relocateClockwise b a t = _
    unfold relocateClockwise
    by_cases ht : t < 8
    · rw [if_neg (Nat.not_le.2 ht), if_pos (Nat.mod_eq_zero_of_dvd h8), hrotate, if_pos ht, if_pos ht]
    · rw [if_pos (Nat.not_lt.1 ht), if_neg ht]
  · obtain ⟨t, -, hx⟩ := hruns
    simp only [Threads.past] at hx
    split at hx
    · next ht => exact (sdk.documented x (hinside.documented hfit hwords ht hx)).symm
    · cases hx

/-- The reverse kernel, where eight DPUs of an entangled group communicate. -/
theorem reverseClockwise_copies (sdk : Sdk b) (h : OutOfPlace b a size) (h8 : 8 ∣ a.numCommDpu) (hrg : a.numCommRg = 8)
    (hrotate : a.noRotate = false) (mram : Mem UInt8) (caches : Nat → Mem UInt8) :
    Settles sdk.exec nrTasklets (AfterKernel.reverseClockwise.launched b a mram caches) fun s => s.Done nrTasklets ∧
      s.shared = copied (b.heap + a.startOffset) (b.heap + a.targetOffset) size a.numCommDpu
        (reflected 8 a.eachDpu) mram := by
  have hplace : Rearrange a.numCommDpu (reflected 8 a.eachDpu) (reflected 8 a.eachDpu) :=
    rearrange_reflected (by decide) (by decide) h8
  have hready := h.ready hplace (w := 8) (by decide) (by decide) h8
  have hplaced : placed false (reflected 8 a.eachDpu) = reflected 8 a.eachDpu := rfl
  apply settles_barriers (d := 8) (by decide) (by decide) _ (hready.settles_copied sdk fun _ => rfl)
  intro t
  show relocateReverseClockwise b a t = _
  unfold relocateReverseClockwise
  by_cases ht : t < 8
  · rw [if_neg (Nat.not_le.2 ht), if_pos ⟨Nat.mod_eq_zero_of_dvd h8, hrg⟩, hrotate, hplaced, if_pos ht, if_pos ht]
  · rw [if_pos (Nat.not_lt.1 ht), if_neg ht]

/-- The clockwise kernel from one region to another, where eight DPUs of an entangled group
communicate. -/
theorem clockwise_turns (sdk : Sdk b) (h : OutOfPlace b a size) (h8 : 8 ∣ a.numCommDpu) (hrotate : a.noRotate = false)
    (mram : Mem UInt8) (caches : Nat → Mem UInt8) :
    Settles sdk.exec nrTasklets (launched .clockwise b a mram caches) fun s => s.Done nrTasklets ∧
      s.shared = copied (b.heap + a.startOffset) (b.heap + a.targetOffset) size a.numCommDpu
        (unrotated 8 a.eachDpu) mram := by
  have hplace : Rearrange a.numCommDpu (rotated 8 a.eachDpu) (unrotated 8 a.eachDpu) :=
    rearrange_rotated (by decide) (by decide) h8
  have hready := h.ready hplace (w := 8) (by decide) (by decide) h8
  apply settles_barriers (d := 8) (by decide) (by decide) _ (hready.settles_copied sdk fun _ => rfl)
  intro t
  show relocateClockwise b a t = _
  unfold relocateClockwise
  by_cases ht : t < 8
  · rw [if_neg (Nat.not_le.2 ht), if_pos (Nat.mod_eq_zero_of_dvd h8), hrotate, if_pos ht, if_pos ht]
    rfl
  · rw [if_pos (Nat.not_lt.1 ht), if_neg ht]

/-- The clockwise kernel without the rotation, for the group sizes it knows. -/
theorem clockwise_copies (sdk : Sdk b) (h : OutOfPlace b a size) (hsize : 8 ∣ a.numCommDpu ∨ a.numCommDpu = 4 ∨ a.numCommDpu = 2)
    (hrotate : a.noRotate = true) (mram : Mem UInt8) (caches : Nat → Mem UInt8) :
    Settles sdk.exec nrTasklets (AfterKernel.clockwise.launched b a mram caches) fun s => s.Done nrTasklets ∧
      s.shared = copied (b.heap + a.startOffset) (b.heap + a.targetOffset) size a.numCommDpu (fun t => t) mram := by
  by_cases h8 : a.numCommDpu % 8 = 0
  · have hready := h.ready rearrange_id (w := 8) (by decide) (by decide) (Nat.dvd_of_mod_eq_zero h8)
    apply settles_barriers (d := 8) (by decide) (by decide) _ (hready.settles_copied sdk fun _ => rfl)
    intro t
    show relocateClockwise b a t = _
    unfold relocateClockwise
    by_cases ht : t < 8
    · rw [if_neg (Nat.not_le.2 ht), if_pos h8, hrotate, if_pos ht, if_pos ht]
      rfl
    · rw [if_pos (Nat.not_lt.1 ht), if_neg ht]
  · have hshort : a.numCommDpu = 4 ∨ a.numCommDpu = 2 := by omega
    have hle : a.numCommDpu ≤ 8 := by omega
    have hready := h.ready rearrange_id h.blocks_pos (hle.trans (by decide)) (Nat.dvd_refl _)
    have hcount : (if a.numCommDpu = 4 then 4 else 2) = a.numCommDpu := by split <;> omega
    apply settles_barriers h.blocks_pos hle _ (hready.settles_copied sdk fun _ => rfl)
    intro t
    show relocateClockwise b a t = _
    unfold relocateClockwise
    by_cases ht : t < 8
    · rw [if_neg (Nat.not_le.2 ht), if_neg h8, if_pos hshort, hrotate, hcount, if_pos ht]
      by_cases hlt : t < a.numCommDpu
      · rw [if_neg (Nat.not_le.2 hlt), if_pos hlt]
        rfl
      · rw [if_pos (Nat.not_lt.1 hlt), if_neg hlt]
    · rw [if_pos (Nat.not_lt.1 ht), if_neg ht]

end Launches

end DpuBackend.PidComm
