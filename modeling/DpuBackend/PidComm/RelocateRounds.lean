import Mathlib.Data.Nat.ModEq
import DpuBackend.PidComm.Relocate

/-
  Relocation with barriers: the loop over the blocks, read as rounds.

  With a barrier of the loop's width after every transfer the tasklets keep step, when
  the width divides the number of blocks. A round of reads leaves the memory alone; a
  round of writes takes it from `progress .. k j` to `progress .. k (j + 1)`, the memory
  with the first `k` groups relocated and `j` chunks of each block of the next one
  (`rounds_chunk`). After all groups it is the relocated memory (`rounds_moveBlocks`).
-/

namespace DpuBackend.PidComm

open DpuBackend.Lib

/-! ## Sizes and addresses -/

section Sizes

variable {b : Build} {total n size : Nat}

theorem maxWords_mul (hn : 0 < n) (htotal : total = n * size) (hword : b.wordBytes ∣ size) :
    maxWords b total n * b.wordBytes = size := by
  unfold maxWords
  rw [htotal, Nat.mul_div_mul_left _ _ hn]
  exact Nat.div_mul_cancel hword

variable {words : Nat} (hsize : words * b.wordBytes = size)
include hsize

theorem lt_chunks_iff {it : Nat} : it < chunks b words ↔ 2048 * it < size := by
  unfold chunks
  rw [hsize]
  split <;> omega

/-- The last chunk is what is left of the block. -/
theorem chunkBytes_eq {it : Nat} (h : 2048 * it < size) : chunkBytes b words it = min 2048 (size - 2048 * it) := by
  have hit := (lt_chunks_iff hsize).mpr h
  have hlast := @lt_chunks_iff b size words hsize (it + 1)
  have hrest : (words - 2048 / b.wordBytes * it) * b.wordBytes = size - 2048 * it := by
    have hdvd : b.wordBytes ∣ 2048 := Nat.dvd_trans b.word_dvd (by decide)
    rw [Nat.sub_mul, hsize, Nat.mul_right_comm, Nat.div_mul_cancel hdvd]
  unfold chunkBytes
  rw [hrest]
  split <;> omega

theorem chunkAddr_eq {offset t it : Nat} (hfit : b.heap + offset + size * (t + 1) ≤ 2 ^ 32) (h : 2048 * it < size) :
    chunkAddr b offset words t it = b.heap + offset + size * t + 2048 * it := by
  have hblock : words * t * b.wordBytes = size * t := by
    rw [Nat.mul_right_comm, hsize]
  unfold chunkAddr addr32
  rw [hblock]
  rw [Nat.mul_add] at hfit
  exact Nat.mod_eq_of_lt (by omega)

end Sizes

/-! ## One round of reads and one of writes -/

section Rounds

/-- The memory while the first `w` tasklets write: the new contents where one has written. -/
def written (w len : Nat) (dst : Nat → Nat) (mram mram' : Mem UInt8) (acted : Nat → Bool) : Mem UInt8 := fun x =>
  if ∃ t, t < w ∧ acted t = true ∧ ¬Mem.Outside (dst t) len x then mram' x else mram x

variable {w len : Nat} {dst : Nat → Nat} {mram mram' final : Mem UInt8} {rs : List (Nat → Transfer)}

theorem written_none : written w len dst mram mram' (fun _ => false) = mram := by
  funext x
  simp [written]

theorem written_all (hkeep : ∀ x, (∀ t < w, Mem.Outside (dst t) len x) → mram' x = mram x) :
    written w len dst mram mram' (fun t => decide (t < w)) = mram' := by
  funext x
  unfold written
  split
  · rfl
  · rename_i hnone
    refine (hkeep x fun t ht => ?_).symm
    by_contra hx
    exact hnone ⟨t, ht, decide_eq_true ht, hx⟩

theorem written_step {acted : Nat → Bool} {t : Nat} (ht : t < w) {v : Fin len → UInt8}
    (hv : ∀ o : Fin len, mram' (dst t + o) = v o) :
    Mem.store (written w len dst mram mram' acted) (dst t) v =
      written w len dst mram mram' (Function.update acted t true) := by
  funext x
  by_cases hx : Mem.Outside (dst t) len x
  · have hsame : (∃ i, i < w ∧ Function.update acted t true i = true ∧ ¬Mem.Outside (dst i) len x) ↔
        ∃ i, i < w ∧ acted i = true ∧ ¬Mem.Outside (dst i) len x := by
      refine exists_congr fun i => and_congr_right fun _ => ?_
      by_cases hi : i = t
      · subst hi
        simp [hx]
      · simp [hi]
    rw [Mem.store_outside _ _ _ hx]
    simp only [written, hsame]
  · obtain ⟨o, ho, rfl⟩ : ∃ o < len, x = dst t + o := by
      simp only [Mem.Outside, not_or, not_lt, not_le] at hx
      exact ⟨x - dst t, by omega, by omega⟩
    have hin := Mem.store_inside (written w len dst mram mram' acted) (dst t) v ⟨o, ho⟩
    rw [hin, written, if_pos ⟨t, ht, by simp, hx⟩]
    exact (hv ⟨o, ho⟩).symm

/-- Every tasklet reads a chunk and, when all have, writes it elsewhere. -/
theorem rounds_readWrite {src : Nat → Nat} (hmove : ∀ t < w, ∀ o < len, mram' (dst t + o) = mram (src t + o))
    (hkeep : ∀ x, (∀ t < w, Mem.Outside (dst t) len x) → mram' x = mram x)
    (hrest : ∀ caches, Rounds transfer w rs mram' caches final) (caches : Nat → Mem UInt8) :
    Rounds transfer w ((fun t => .mramRead (src t) len) :: (fun t => .mramWrite (dst t) len) :: rs) mram caches
      final := by
  refine ⟨fun _ => mram, fun t => (caches t).store 0 (mram.load (src t) len), rfl, fun _ _ _ _ => rfl, ?_⟩
  refine ⟨written w len dst mram mram', fun t => (caches t).store 0 (mram.load (src t) len), written_none, ?_, ?_⟩
  · intro acted t ht _
    refine Prod.ext ?_ rfl
    rw [← written_step ht fun o => hmove t ht o o.isLt]
    simp only [transfer, Mem.load_store_same]
    rfl
  · rw [written_all hkeep]
    exact hrest _

end Rounds

/-! ## How far the loop is -/

/-- `place` moves the blocks within their groups of `w`, and `source` undoes it. -/
structure Regroup (w n : Nat) (place source : Nat → Nat) : Prop where
  place_lt : ∀ t < n, place t < n
  source_lt : ∀ p < n, source p < n
  place_group : ∀ t < n, place t / w = t / w
  source_place : ∀ t < n, source (place t) = t
  place_source : ∀ p < n, place (source p) = p

theorem block_le {size n t : Nat} (ht : t < n) : size * t + size ≤ n * size := by
  have hle : size * (t + 1) ≤ size * n := Nat.mul_le_mul_left size ht
  rwa [Nat.mul_succ, Nat.mul_comm size n] at hle

theorem exists_block {base size n x : Nat} (h : ¬Mem.Outside base (n * size) x) :
    ∃ p < n, ∃ o < size, x = base + size * p + o := by
  simp only [Mem.Outside, not_or, not_lt, not_le] at h
  have hsize : 0 < size := by
    apply Nat.pos_of_ne_zero
    rintro rfl
    omega
  refine ⟨(x - base) / size, ?_, (x - base) % size, Nat.mod_lt _ hsize, ?_⟩
  · apply Nat.div_lt_of_lt_mul
    rw [Nat.mul_comm]
    omega
  · rw [Nat.add_assoc, Nat.div_add_mod]
    omega

theorem block_inside {base size n p o : Nat} (hp : p < n) (ho : o < size) :
    ¬Mem.Outside base (n * size) (base + size * p + o) := by
  have hend : size * (p + 1) ≤ size * n := Nat.mul_le_mul_left _ hp
  rw [Nat.mul_add, Nat.mul_comm size n] at hend
  simp only [Mem.Outside, not_or, not_lt, not_le]
  omega

/-- The memory with the first `k` groups moved, and `j` chunks of each block of the next. -/
def progress (base size n w : Nat) (source : Nat → Nat) (mram : Mem UInt8) (k j : Nat) : Mem UInt8 := fun x =>
  if Mem.Outside base (n * size) x then mram x
  else if (x - base) / size / w < k ∨ (x - base) / size / w = k ∧ (x - base) % size < 2048 * j then
    mram (base + size * source ((x - base) / size) + (x - base) % size)
  else mram x

section Progress

variable {base size n w k j : Nat} {place source : Nat → Nat} {mram : Mem UInt8}

theorem progress_outside {x : Nat} (h : Mem.Outside base (n * size) x) :
    progress base size n w source mram k j x = mram x := if_pos h

theorem progress_block {p o : Nat} (hp : p < n) (ho : o < size) :
    progress base size n w source mram k j (base + size * p + o) =
      if p / w < k ∨ p / w = k ∧ o < 2048 * j then mram (base + size * source p + o)
      else mram (base + size * p + o) := by
  have hoff : base + size * p + o - base = size * p + o := by omega
  have hdiv : (size * p + o) / size = p := by
    rw [Nat.mul_add_div (by omega), Nat.div_eq_of_lt ho, Nat.add_zero]
  have hmod : (size * p + o) % size = o := by
    rw [Nat.mul_add_mod, Nat.mod_eq_of_lt ho]
  rw [progress, if_neg (block_inside hp ho), hoff, hdiv, hmod]

theorem progress_start : progress base size n w source mram 0 0 = mram := by
  funext x
  by_cases hx : Mem.Outside base (n * size) x
  · exact progress_outside hx
  · obtain ⟨p, hp, o, ho, rfl⟩ := exists_block hx
    rw [progress_block hp ho, if_neg (by simp)]

theorem progress_group (h : size ≤ 2048 * j) :
    progress base size n w source mram k j = progress base size n w source mram (k + 1) 0 := by
  funext x
  by_cases hx : Mem.Outside base (n * size) x
  · rw [progress_outside hx, progress_outside hx]
  · obtain ⟨p, hp, o, ho, rfl⟩ := exists_block hx
    rw [progress_block hp ho, progress_block hp ho]
    have hiff : (p / w < k ∨ p / w = k ∧ o < 2048 * j) ↔ (p / w < k + 1 ∨ p / w = k + 1 ∧ o < 2048 * 0) := by omega
    simp only [hiff]

theorem progress_end (hre : Regroup w n place source) (hw : 0 < w) (hdvd : w ∣ n) :
    Relocated base size n place mram (progress base size n w source mram (n / w) 0) := by
  refine ⟨fun t ht o ho => ?_, fun x hx => progress_outside hx⟩
  have hgroup : place t / w < n / w := by
    apply (Nat.div_lt_iff_lt_mul hw).mpr
    rw [Nat.div_mul_cancel hdvd]
    exact hre.place_lt t ht
  rw [progress_block (hre.place_lt t ht) ho, if_pos (.inl hgroup), hre.source_place t ht]

end Progress

/-! ## The rounds of a loop -/

section Loop

variable (b : Build) (total : Nat) (m : Move)

/-- The transfers of chunk `j` in group `k`. -/
def chunkRounds (k j : Nat) : List (Nat → Transfer) :=
  let words := maxWords b total m.blocks
  [fun t => .mramRead (chunkAddr b m.source words (t + m.width * k) j) (chunkBytes b words j),
    fun t => .mramWrite (chunkAddr b m.target words (rotated m.width m.shift (t + m.width * k)) j)
      (chunkBytes b words j)]

def moveRounds : List (Nat → Transfer) :=
  (List.range (m.blocks / m.width)).flatMap fun k =>
    (List.range (chunks b (maxWords b total m.blocks))).flatMap (chunkRounds b total m k)

variable {b total m}

theorem strided_eq {n w tid : Nat} (hdvd : w ∣ n) (htid : tid < w) :
    strided n w tid = (List.range (n / w)).map fun k => tid + w * k := by
  obtain ⟨q, rfl⟩ := hdvd
  have hcount : (w * q - tid + w - 1) / w = q := by
    cases q with
    | zero => exact Nat.div_eq_of_lt (by omega)
    | succ q =>
      rw [show w * (q + 1) - tid + w - 1 = w * (q + 1) + (w - 1 - tid) by rw [Nat.mul_succ]; omega,
        Nat.mul_add_div (by omega), Nat.div_eq_of_lt (by omega), Nat.add_zero]
  rw [strided, hcount, Nat.mul_div_cancel_left _ (by omega)]

theorem moveBlocks_eq {tid : Nat} (hdvd : m.width ∣ m.blocks) (hbarrier : m.barrier = some m.width)
    (htid : tid < m.width) : moveBlocks b total false m tid = inLockstep m.width (moveRounds b total m) tid := by
  unfold moveBlocks moveRounds
  rw [strided_eq hdvd htid, List.flatMap_map, inLockstep_flatMap]
  congr 1
  funext k
  rw [inLockstep_flatMap]
  congr 1
  funext j
  simp [moveChunk, chunkRounds, inLockstep, hbarrier, sync]

variable {size : Nat} {source : Nat → Nat} {mram final : Mem UInt8} {rs : List (Nat → Transfer)}

theorem rounds_chunk {k j : Nat} (hre : Regroup m.width m.blocks (rotated m.width m.shift) source)
    (hw : 0 < m.width) (hdvd : m.width ∣ m.blocks) (hwords : maxWords b total m.blocks * b.wordBytes = size)
    (hplace : m.target = m.source) (hfit : b.heap + m.source + m.blocks * size ≤ 2 ^ 32) (hk : k < m.blocks / m.width)
    (hj : 2048 * j < size)
    (hrest : ∀ caches, Rounds transfer m.width rs
      (progress (b.heap + m.source) size m.blocks m.width source mram k (j + 1)) caches final)
    (caches : Nat → Mem UInt8) :
    Rounds transfer m.width (chunkRounds b total m k j ++ rs)
      (progress (b.heap + m.source) size m.blocks m.width source mram k j) caches final := by
  have hgroup : ∀ t < m.width, t + m.width * k < m.blocks ∧ (t + m.width * k) / m.width = k := by
    intro t ht
    refine ⟨?_, by rw [Nat.add_mul_div_left _ _ (by omega), Nat.div_eq_of_lt ht, Nat.zero_add]⟩
    have := Nat.mul_le_mul_left m.width (Nat.succ_le_of_lt hk)
    rw [Nat.mul_div_cancel' hdvd, Nat.mul_succ] at this
    omega
  have haddr : ∀ t < m.blocks, chunkAddr b m.source (maxWords b total m.blocks) t j =
      b.heap + m.source + size * t + 2048 * j := by
    intro t ht
    apply chunkAddr_eq hwords _ hj
    have hend : size * (t + 1) ≤ size * m.blocks := Nat.mul_le_mul_left size ht
    rw [Nat.mul_comm size m.blocks] at hend
    omega
  have hlen := chunkBytes_eq hwords hj
  apply rounds_readWrite _ _ hrest
  · intro t ht o ho
    obtain ⟨hlt, hdiv⟩ := hgroup t ht
    have hto : 2048 * j + o < size := by omega
    rw [hplace, haddr _ hlt, haddr _ (hre.place_lt _ hlt), Nat.add_assoc _ _ o, Nat.add_assoc _ _ o,
      progress_block (hre.place_lt _ hlt) hto, progress_block hlt hto, hre.place_group _ hlt, hdiv,
      if_pos (by omega), if_neg (by omega), hre.source_place _ hlt]
  · intro x hx
    by_cases hin : Mem.Outside (b.heap + m.source) (m.blocks * size) x
    · rw [progress_outside hin, progress_outside hin]
    · obtain ⟨p, hp, o, ho, rfl⟩ := exists_block hin
      rw [progress_block hp ho, progress_block hp ho]
      by_cases hnow : p / m.width = k ∧ 2048 * j ≤ o ∧ o < 2048 * (j + 1)
      · -- the chunk that the tasklet of block `source p` writes
        exfalso
        obtain ⟨hpk, hlo, hhi⟩ := hnow
        have hsrc := hre.source_lt p hp
        have hdivmod : source p % m.width + m.width * k = source p := by
          have hgroup' := hre.place_group _ hsrc
          rw [hre.place_source p hp, hpk] at hgroup'
          rw [hgroup', Nat.mod_add_div]
        have hout := hx (source p % m.width) (Nat.mod_lt _ hw)
        rw [hdivmod, hre.place_source p hp, hplace, haddr p hp, hlen] at hout
        cases hout with
        | inl h => omega
        | inr h => omega
      · have hiff : (p / m.width < k ∨ p / m.width = k ∧ o < 2048 * (j + 1)) ↔
            (p / m.width < k ∨ p / m.width = k ∧ o < 2048 * j) := by omega
        simp only [hiff]

theorem rounds_moveRounds (hre : Regroup m.width m.blocks (rotated m.width m.shift) source) (hw : 0 < m.width)
    (hdvd : m.width ∣ m.blocks) (hwords : maxWords b total m.blocks * b.wordBytes = size)
    (hplace : m.target = m.source) (hfit : b.heap + m.source + m.blocks * size ≤ 2 ^ 32)
    (hrest : ∀ caches, Rounds transfer m.width rs
      (progress (b.heap + m.source) size m.blocks m.width source mram (m.blocks / m.width) 0) caches final) :
    ∀ caches, Rounds transfer m.width (moveRounds b total m ++ rs) mram caches final := by
  intro caches
  have hstart : progress (b.heap + m.source) size m.blocks m.width source mram 0 0 = mram := progress_start
  rw [← hstart]
  refine Rounds.range (m := fun k => progress (b.heap + m.source) size m.blocks m.width source mram k 0) _
    (fun k hk rs caches hnext => ?_) rs hrest caches
  refine Rounds.range (m := fun j => progress (b.heap + m.source) size m.blocks m.width source mram k j) _
    (fun j hj rs caches hnext => ?_) rs (fun caches => ?_) caches
  · exact rounds_chunk hre hw hdvd hwords hplace hfit hk ((lt_chunks_iff hwords).mp hj) hnext caches
  · have hend : size ≤ 2048 * chunks b (maxWords b total m.blocks) := by
      by_contra hlt
      exact Nat.lt_irrefl _ ((lt_chunks_iff hwords).mpr (by omega))
    rw [progress_group hend]
    exact hnext caches

end Loop

/-! ## Rotations by powers of two -/

section Rotate

variable {w n shift : Nat}

def unrotated (w shift p : Nat) : Nat := p / w * w + (p + shift) % w

theorem group_add {r q : Nat} (hr : r < w) : (q * w + r) / w = q ∧ (q * w + r) % w = r := by
  rw [Nat.mul_comm, Nat.mul_add_div (by omega), Nat.div_eq_of_lt hr, Nat.mul_add_mod, Nat.mod_eq_of_lt hr]
  exact ⟨rfl, rfl⟩

/-- The wrapped difference is the difference modulo every power of two. -/
theorem sub32_add_modEq (hw : w ∣ 2 ^ 32) (t : Nat) : sub32 t shift + shift ≡ t [MOD w] := by
  have hmod : sub32 t shift ≡ t + (2 ^ 32 - shift % 2 ^ 32) [MOD w] := by
    unfold sub32 Nat.ModEq
    rw [Nat.mod_mod_of_dvd _ hw]
  have hsum : t + (2 ^ 32 - shift % 2 ^ 32) + shift = t + 2 ^ 32 * (shift / 2 ^ 32 + 1) := by omega
  calc sub32 t shift + shift
    _ ≡ t + (2 ^ 32 - shift % 2 ^ 32) + shift [MOD w] := hmod.add_right shift
    _ = t + 2 ^ 32 * (shift / 2 ^ 32 + 1) := hsum
    _ ≡ t + 0 [MOD w] := Nat.ModEq.add_left t (Nat.modEq_zero_iff_dvd.mpr (Nat.dvd_mul_right_of_dvd hw _))
    _ = t := Nat.add_zero t

theorem lt_of_group (hw : 0 < w) (hdvd : w ∣ n) {t u : Nat} (ht : t < n) (h : u / w = t / w) : u < n := by
  have hgroup : u / w < n / w := by
    rw [h]
    exact (Nat.div_lt_iff_lt_mul hw).mpr (by rwa [Nat.div_mul_cancel hdvd])
  rw [Nat.div_lt_iff_lt_mul hw, Nat.div_mul_cancel hdvd] at hgroup
  exact hgroup

theorem rotated_group (hw : 0 < w) (t : Nat) : rotated w shift t / w = t / w :=
  (group_add (Nat.mod_lt _ hw)).1

theorem regroup_rotated (hw : 0 < w) (hpow : w ∣ 2 ^ 32) (hdvd : w ∣ n) :
    Regroup w n (rotated w shift) (unrotated w shift) where
  place_lt t ht := lt_of_group hw hdvd ht (rotated_group hw t)
  source_lt p hp := lt_of_group hw hdvd hp (group_add (Nat.mod_lt _ hw)).1
  place_group t _ := rotated_group hw t
  source_place t _ := by
    have hsame : rotated w shift t ≡ sub32 t shift [MOD w] := (group_add (Nat.mod_lt _ hw)).2
    have hback : (rotated w shift t + shift) % w = t % w := (hsame.add_right shift).trans (sub32_add_modEq hpow t)
    rw [unrotated, rotated_group hw, hback, Nat.mul_comm, Nat.div_add_mod]
  place_source p _ := by
    have hgroup : unrotated w shift p / w = p / w := (group_add (Nat.mod_lt _ hw)).1
    have hsame : unrotated w shift p ≡ p + shift [MOD w] := (group_add (Nat.mod_lt _ hw)).2
    have hforth : sub32 (unrotated w shift p) shift % w = p % w :=
      Nat.ModEq.add_right_cancel' shift ((sub32_add_modEq hpow _).trans hsame)
    rw [rotated, hgroup, hforth, Nat.mul_comm, Nat.div_add_mod]

end Rotate

end DpuBackend.PidComm
