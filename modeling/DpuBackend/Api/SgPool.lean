import DpuBackend.Lib.Loops
import DpuBackend.Lib.Regions

/-
  The pool of scatter/gather buffers, cut into regions.

  `sg_buffer_pool_create` allocates one array of block addresses and one of
  block lengths for a whole set, and gives each of the 64 DPUs of every rank a
  region of `1 + max_nr_blocks` entries of both. A transfer puts the blocks of
  a DPU in its region, and the rank handler one more entry behind the last.

  Sizes and positions are computed in 32 bits. `sound_iff` says when the regions
  are what they should be: both allocations have to succeed, which is not
  examined, and the number of entries has to fit in 32 bits. Where it does not,
  the arrays are smaller than the regions together. Within its region a
  transfer stays in any case (`transfer_stays`).

  A pointer is an array, or none, and an offset in entries; what stands in the
  arrays before a transfer is of no account.

  Model (Lean)              Source (C)
  sgBufferPoolCreate        sg_buffer_pool_create (api/src/api/dpu_set.c)
  addDpuBlock               dpu_transfer_matrix_add_dpu_block (api/src/dpu_memory.c)
  initIterator, goToNext    init_sg_xfer_buffer_iterator, go_to_next_block (hw, xeon_sp_translation.c)
-/

namespace DpuBackend.Api.SgPool

open DpuBackend.Lib

/-! ## The pool -/

/-- The two arrays of a pool. -/
inductive Which where
  | blocksAddr
  | blocksLength
deriving DecidableEq, Repr

/-- A pointer to an entry: `none` is the null pointer, with an offset all the same. -/
structure Ptr where
  array : Option Which
  offset : Nat
deriving DecidableEq, Repr

def Ptr.null : Ptr := ⟨none, 0⟩

/-- `struct sg_xfer_buffer`. -/
structure SgXferBuffer where
  maxNrBlocks : UInt32
  blocksAddr : Ptr
  blocksLength : Ptr
  nrBlocks : UInt32
deriving DecidableEq, Repr

/-- `DPU_ERR_INTERNAL`. -/
inductive Error where
  | internal
deriving DecidableEq, Repr

def maxNrDpusPerRank : UInt32 := 64

/-- What the functions read of a set of ranks: `sg_xfer_enabled` of the first
rank, and `sg_buffer_pool` of all of them. -/
structure DpuSet where
  nrRanks : UInt32
  nrRanks_pos : 0 < nrRanks.toNat
  sgXferEnabled : Bool
  sgBufferPool : Nat → Nat → SgXferBuffer

/-- The pools of the ranks, and the number of entries of the arrays. -/
structure Pool where
  entries : Which → Nat
  sgBufferPool : Nat → Nat → SgXferBuffer

/-- The product that both sizes have in common, in 32 bits. -/
def nrEntries (nrRanks dpuMaxNrBlocks : UInt32) : UInt32 := nrRanks * maxNrDpusPerRank * (1 + dpuMaxNrBlocks)

def dpuBufferPos (dpuMaxNrBlocks eachRank dpuIndex : UInt32) : UInt32 :=
  (eachRank * maxNrDpusPerRank + dpuIndex) * (1 + dpuMaxNrBlocks)

/-- What `malloc` returns. -/
def mallocPtr (succeeds : Which → Bool) (a : Which) : Option Which := if succeeds a then some a else none

/-- The buffer of one DPU. -/
def newBuffer (malloc : Which → Bool) (dpuMaxNrBlocks : UInt32) (eachRank dpuIndex : Nat) : SgXferBuffer :=
  let pos := (dpuBufferPos dpuMaxNrBlocks (.ofNat eachRank) (.ofNat dpuIndex)).toNat
  { maxNrBlocks := dpuMaxNrBlocks
    blocksAddr := ⟨mallocPtr malloc .blocksAddr, pos⟩
    blocksLength := ⟨mallocPtr malloc .blocksLength, pos⟩
    nrBlocks := 0 }

/-- The loop over the DPUs of a rank. -/
def fillRank (malloc : Which → Bool) (dpuMaxNrBlocks : UInt32) (eachRank : Nat) (pool : Nat → SgXferBuffer) :
    Nat → SgXferBuffer :=
  (List.range maxNrDpusPerRank.toNat).foldl (fun pool dpuIndex =>
    Function.update pool dpuIndex (newBuffer malloc dpuMaxNrBlocks eachRank dpuIndex)) pool

def sgBufferPoolCreate (malloc : Which → Bool) (set : DpuSet) (dpuMaxNrBlocks : UInt32) : Except Error Pool :=
  if set.sgXferEnabled = false then .error .internal
  else if (set.sgBufferPool 0 0).blocksAddr ≠ Ptr.null then .error .internal
  else if (set.sgBufferPool 0 0).blocksLength ≠ Ptr.null then .error .internal
  else .ok
    { entries := fun a => if malloc a then (nrEntries set.nrRanks dpuMaxNrBlocks).toNat else 0
      sgBufferPool :=
        (List.range set.nrRanks.toNat).foldl (fun pools eachRank =>
          Function.update pools eachRank (fillRank malloc dpuMaxNrBlocks eachRank (pools eachRank)))
          set.sgBufferPool }

/-! ## A transfer -/

/-- An access to entry `index` behind a pointer, with the value it writes. -/
structure Access where
  ptr : Ptr
  index : Nat
  written : Option Nat
deriving DecidableEq, Repr

/-- A block of a transfer. -/
structure Block where
  buffer : Nat
  length : UInt32

def addDpuBlock (b : SgXferBuffer) (block : Block) : Except Error (SgXferBuffer × List Access) :=
  if b.nrBlocks ≥ b.maxNrBlocks then .error .internal
  else .ok ({ b with nrBlocks := b.nrBlocks + 1 },
    [⟨b.blocksAddr, b.nrBlocks.toNat, some block.buffer⟩,
     ⟨b.blocksLength, b.nrBlocks.toNat, some block.length.toNat⟩])

/-- One block after another. -/
def addDpuBlocks : SgXferBuffer → List Block → Except Error (SgXferBuffer × List Access)
  | b, [] => .ok (b, [])
  | b, block :: blocks => do
    let (b, now) ← addDpuBlock b block
    let (b, later) ← addDpuBlocks b blocks
    .ok (b, now ++ later)

/-- The first block is read, and the padding put behind the last one. -/
def initIterator (zeros : Nat) (b : SgXferBuffer) : List Access :=
  [⟨b.blocksLength, 0, none⟩, ⟨b.blocksAddr, 0, none⟩,
   ⟨b.blocksLength, b.nrBlocks.toNat, some 4096⟩, ⟨b.blocksAddr, b.nrBlocks.toNat, some zeros⟩]

/-- The next block from the one at `here`: none behind the padding. -/
def goToNext (b : SgXferBuffer) (here : Nat) : Nat × List Access :=
  if b.nrBlocks.toNat - here = 0 then (here, [])
  else (here + 1, [⟨b.blocksAddr, here + 1, none⟩, ⟨b.blocksLength, here + 1, none⟩])

/-- The iterator going to the next block any number of times. -/
def walk (b : SgXferBuffer) : (steps here : Nat) → List Access
  | 0, _ => []
  | steps + 1, here => (goToNext b here).2 ++ walk b steps (goToNext b here).1

/-- A DPU's part of a transfer: its blocks, the padding, and the walk over them. -/
def transfer (b : SgXferBuffer) (blocks : List Block) (zeros steps : Nat) : Except Error (List Access) := do
  let (b, added) ← addDpuBlocks b blocks
  .ok (added ++ initIterator zeros b ++ walk b steps 0)

/-! ## Regions that are apart and inside the arrays -/

/-- The access is to the region of `1 + max_nr_blocks` entries of the buffer. -/
def InRegion (b : SgXferBuffer) (a : Access) : Prop :=
  (a.ptr = b.blocksAddr ∨ a.ptr = b.blocksLength) ∧ a.index < 1 + b.maxNrBlocks.toNat

/-- The region of `k` entries at a pointer is inside an array of the pool. -/
def Pool.Allocated (p : Pool) (ptr : Ptr) (k : Nat) : Prop :=
  ∃ a, ptr.array = some a ∧ ptr.offset + k ≤ p.entries a

/-- Two regions of `k` entries have no entry in common. -/
def Ptr.Separate (k : Nat) (ptr ptr' : Ptr) : Prop := ptr.offset + k ≤ ptr'.offset ∨ ptr'.offset + k ≤ ptr.offset

structure Sound (nrRanks dpuMaxNrBlocks : UInt32) (p : Pool) : Prop where
  allocated : ∀ r < nrRanks.toNat, ∀ d < 64,
    p.Allocated (p.sgBufferPool r d).blocksAddr (1 + dpuMaxNrBlocks.toNat) ∧
      p.Allocated (p.sgBufferPool r d).blocksLength (1 + dpuMaxNrBlocks.toNat)
  separate : ∀ r < nrRanks.toNat, ∀ d < 64, ∀ r' < nrRanks.toNat, ∀ d' < 64, (r, d) ≠ (r', d') →
    Ptr.Separate (1 + dpuMaxNrBlocks.toNat) (p.sgBufferPool r d).blocksAddr (p.sgBufferPool r' d').blocksAddr ∧
      Ptr.Separate (1 + dpuMaxNrBlocks.toNat) (p.sgBufferPool r d).blocksLength (p.sgBufferPool r' d').blocksLength
  stays : ∀ r < nrRanks.toNat, ∀ d < 64, ∀ blocks : List Block, blocks.length ≤ dpuMaxNrBlocks.toNat →
    ∀ zeros steps, ∃ accesses, transfer (p.sgBufferPool r d) blocks zeros steps = .ok accesses ∧
      ∀ a ∈ accesses, (a.ptr = (p.sgBufferPool r d).blocksAddr ∨ a.ptr = (p.sgBufferPool r d).blocksLength) ∧
        a.index < 1 + dpuMaxNrBlocks.toNat

/-- Both arrays are there, and the number of their entries fits in 32 bits. -/
def Fits (malloc : Which → Bool) (nrRanks dpuMaxNrBlocks : UInt32) : Prop :=
  (∀ a, malloc a = true) ∧ nrRanks.toNat * 64 * (1 + dpuMaxNrBlocks.toNat) < 2 ^ 32

/-! ## A transfer stays in its region -/

theorem addDpuBlocks_stays : ∀ (blocks : List Block) (b : SgXferBuffer),
    b.nrBlocks.toNat + blocks.length ≤ b.maxNrBlocks.toNat →
      ∃ accesses, addDpuBlocks b blocks =
          .ok ({ b with nrBlocks := .ofNat (b.nrBlocks.toNat + blocks.length) }, accesses) ∧
        ∀ a ∈ accesses, InRegion b a
  | [], b, _ => ⟨[], by simp [addDpuBlocks], by simp⟩
  | block :: blocks, b, hroom => by
    rw [List.length_cons] at hroom
    have h32 := b.maxNrBlocks.toNat_lt
    have hnext : (b.nrBlocks + 1).toNat = b.nrBlocks.toNat + 1 := by
      rw [UInt32.toNat_add]
      exact Nat.mod_eq_of_lt (by simp; omega)
    have hnot : ¬ b.nrBlocks ≥ b.maxNrBlocks := by
      rw [ge_iff_le, UInt32.le_iff_toNat_le]
      omega
    obtain ⟨later, hlater, hall⟩ := addDpuBlocks_stays blocks { b with nrBlocks := b.nrBlocks + 1 } (by
      simp only [hnext]
      omega)
    refine ⟨_, by
      rw [addDpuBlocks, addDpuBlock, if_neg hnot]
      simp only [bind, Except.bind, hlater, hnext, List.length_cons, Nat.add_assoc, Nat.add_comm 1]
      rfl, ?_⟩
    intro a ha
    rcases List.mem_append.mp ha with hnow | hrest
    · have hindex : b.nrBlocks.toNat < 1 + b.maxNrBlocks.toNat := by omega
      rcases List.mem_pair.mp hnow with rfl | rfl
      · exact ⟨Or.inl rfl, hindex⟩
      · exact ⟨Or.inr rfl, hindex⟩
    · exact hall a hrest

theorem initIterator_stays {b : SgXferBuffer} (zeros : Nat) (h : b.nrBlocks.toNat ≤ b.maxNrBlocks.toNat) :
    ∀ a ∈ initIterator zeros b, InRegion b a := by
  intro a ha
  simp only [initIterator, List.mem_cons, List.not_mem_nil, or_false] at ha
  have hlast : b.nrBlocks.toNat < 1 + b.maxNrBlocks.toNat := by omega
  rcases ha with rfl | rfl | rfl | rfl
  · exact ⟨Or.inr rfl, Nat.lt_add_right _ Nat.one_pos⟩
  · exact ⟨Or.inl rfl, Nat.lt_add_right _ Nat.one_pos⟩
  · exact ⟨Or.inr rfl, hlast⟩
  · exact ⟨Or.inl rfl, hlast⟩

/-- The iterator never gets behind the padding. -/
theorem walk_stays {b : SgXferBuffer} (h : b.nrBlocks.toNat ≤ b.maxNrBlocks.toNat) :
    ∀ steps here, here ≤ b.nrBlocks.toNat → ∀ a ∈ walk b steps here, InRegion b a
  | 0, _, _, a, ha => absurd ha (List.not_mem_nil)
  | steps + 1, here, hhere, a, ha => by
    rw [walk, goToNext] at ha
    by_cases hend : b.nrBlocks.toNat - here = 0
    · rw [if_pos hend] at ha
      exact walk_stays h steps here hhere a ha
    · rw [if_neg hend] at ha
      rcases List.mem_append.mp ha with hnow | hrest
      · have hnext : here + 1 < 1 + b.maxNrBlocks.toNat := by omega
        rcases List.mem_pair.mp hnow with rfl | rfl
        · exact ⟨Or.inl rfl, hnext⟩
        · exact ⟨Or.inr rfl, hnext⟩
      · exact walk_stays h steps (here + 1) (by omega) a hrest

theorem transfer_stays {b : SgXferBuffer} (hempty : b.nrBlocks = 0) {blocks : List Block}
    (hblocks : blocks.length ≤ b.maxNrBlocks.toNat) (zeros steps : Nat) :
    ∃ accesses, transfer b blocks zeros steps = .ok accesses ∧ ∀ a ∈ accesses, InRegion b a := by
  obtain ⟨added, hadded, hstays⟩ := addDpuBlocks_stays blocks b (by simpa [hempty] using hblocks)
  have h32 := b.maxNrBlocks.toNat_lt
  have hnr : (UInt32.ofNat (b.nrBlocks.toNat + blocks.length)).toNat ≤ b.maxNrBlocks.toNat := by
    rw [hempty, UInt32.toNat_ofNat']
    simpa using Nat.le_trans (Nat.mod_le _ _) hblocks
  refine ⟨_, by
    rw [transfer, hadded]
    rfl, ?_⟩
  intro a ha
  rcases List.mem_append.mp ha with hfront | hwalk
  · rcases List.mem_append.mp hfront with hadd | hinit
    · exact hstays a hadd
    · exact initIterator_stays (b := { b with nrBlocks := _ }) zeros hnr a hinit
  · exact walk_stays (b := { b with nrBlocks := _ }) hnr steps 0 (Nat.zero_le _) a hwalk

/-! ## The regions -/

theorem dpuBufferPos_toNat (m : UInt32) {r d : Nat} :
    (dpuBufferPos m (.ofNat r) (.ofNat d)).toNat = (r * 64 + d) * (1 + m.toNat) % 2 ^ 32 := by
  simp [dpuBufferPos, maxNrDpusPerRank, UInt32.toNat_mul, UInt32.toNat_add, Nat.mul_mod, Nat.add_mod]

theorem nrEntries_toNat (nrRanks m : UInt32) :
    (nrEntries nrRanks m).toNat = nrRanks.toNat * 64 * (1 + m.toNat) % 2 ^ 32 := by
  simp [nrEntries, maxNrDpusPerRank, UInt32.toNat_mul, UInt32.toNat_add, Nat.mul_mod]

section Created

variable {malloc : Which → Bool} {set : DpuSet} {m : UInt32} {p : Pool}

theorem create_eq (h : sgBufferPoolCreate malloc set m = .ok p) :
    p =
      { entries := fun a => if malloc a then (nrEntries set.nrRanks m).toNat else 0
        sgBufferPool := (List.range set.nrRanks.toNat).foldl (fun pools r =>
          Function.update pools r (fillRank malloc m r (pools r))) set.sgBufferPool } := by
  unfold sgBufferPoolCreate at h
  split at h
  · cases h
  · split at h
    · cases h
    · split at h
      · cases h
      · exact (Except.ok.inj h).symm

theorem fillRank_apply (r : Nat) (pool : Nat → SgXferBuffer) {d : Nat} (hd : d < 64) :
    fillRank malloc m r pool d = newBuffer malloc m r d := by
  rw [fillRank, foldl_range_update (fun d _ => newBuffer malloc m r d)]
  exact if_pos hd

/-- The buffer of every DPU of every rank. -/
theorem create_sgBufferPool (h : sgBufferPoolCreate malloc set m = .ok p) {r d : Nat} (hr : r < set.nrRanks.toNat)
    (hd : d < 64) : p.sgBufferPool r d = newBuffer malloc m r d := by
  rw [create_eq h]
  dsimp only
  rw [foldl_range_update (fillRank malloc m), if_pos hr, fillRank_apply _ _ hd]

theorem create_entries (h : sgBufferPoolCreate malloc set m = .ok p) (a : Which) :
    p.entries a = if malloc a then set.nrRanks.toNat * 64 * (1 + m.toNat) % 2 ^ 32 else 0 := by
  rw [create_eq h, nrEntries_toNat]

/-! ## When the regions are sound -/

/-- The start of region `i`, counting the DPUs of all the ranks. -/
def start (m : UInt32) (i : Nat) : Nat := i * (1 + m.toNat) % 2 ^ 32

theorem create_offset (h : sgBufferPoolCreate malloc set m = .ok p) {i : Nat} (hi : i < set.nrRanks.toNat * 64) :
    (p.sgBufferPool (i / 64) (i % 64)).blocksAddr.offset = start m i := by
  rw [create_sgBufferPool h (by omega) (Nat.mod_lt _ (by decide)), newBuffer]
  dsimp only
  rw [dpuBufferPos_toNat, start, Nat.div_add_mod' i 64]

theorem malloc_of_ptr {a a' : Which} (h : mallocPtr malloc a = some a') : malloc a = true := by
  by_contra hno
  simp [mallocPtr, hno] at h

/-- Regions that are apart and inside need as many entries as there are. -/
theorem Sound.fits (h : sgBufferPoolCreate malloc set m = .ok p) (hsound : Sound set.nrRanks m p) :
    Fits malloc set.nrRanks m := by
  have hpos := set.nrRanks_pos
  obtain ⟨⟨a₁, hfound₁, _⟩, ⟨a₂, hfound₂, _⟩⟩ := hsound.allocated 0 hpos 0 (by decide)
  rw [create_sgBufferPool h hpos (by decide)] at hfound₁ hfound₂
  have hmalloc : ∀ a, malloc a = true := by
    intro a
    cases a with
    | blocksAddr => exact malloc_of_ptr hfound₁
    | blocksLength => exact malloc_of_ptr hfound₂
  refine ⟨hmalloc, ?_⟩
  have hinside : RegionsInside (start m) (1 + m.toNat) (set.nrRanks.toNat * 64)
      (set.nrRanks.toNat * 64 * (1 + m.toNat) % 2 ^ 32) := by
    intro i hi
    obtain ⟨⟨a, _, hle⟩, _⟩ := hsound.allocated (i / 64) (by omega) (i % 64) (Nat.mod_lt _ (by decide))
    rw [create_offset h hi, create_entries h, if_pos (hmalloc a)] at hle
    exact hle
  have hapart : RegionsApart (start m) (1 + m.toNat) (set.nrRanks.toNat * 64) := by
    intro i hi j hj hij
    have hne : (i / 64, i % 64) ≠ (j / 64, j % 64) := by
      intro he
      have hdiv := congrArg Prod.fst he
      have hmod := congrArg Prod.snd he
      dsimp only at hdiv hmod
      omega
    have hsep := (hsound.separate (i / 64) (by omega) (i % 64) (Nat.mod_lt _ (by decide)) (j / 64) (by omega) (j % 64)
      (Nat.mod_lt _ (by decide)) hne).1
    rw [Ptr.Separate, create_offset h hi, create_offset h hj] at hsep
    exact hsep
  calc set.nrRanks.toNat * 64 * (1 + m.toNat)
      ≤ set.nrRanks.toNat * 64 * (1 + m.toNat) % 2 ^ 32 := mul_le_of_apart hapart hinside
    _ < 2 ^ 32 := Nat.mod_lt _ (by decide)

/-- Where nothing is lost of the product, nothing is lost of the positions. -/
theorem Fits.start_eq (hfits : Fits malloc set.nrRanks m) {i : Nat} (hi : i < set.nrRanks.toNat * 64) :
    start m i = i * (1 + m.toNat) := by
  apply Nat.mod_eq_of_lt
  calc i * (1 + m.toNat) ≤ set.nrRanks.toNat * 64 * (1 + m.toNat) := Nat.mul_le_mul_right _ (Nat.le_of_lt hi)
    _ < 2 ^ 32 := hfits.2

theorem Fits.sound (h : sgBufferPoolCreate malloc set m = .ok p) (hfits : Fits malloc set.nrRanks m) :
    Sound set.nrRanks m p := by
  have hmul : ∀ i < set.nrRanks.toNat * 64, start m i = i * (1 + m.toNat) := fun i hi => hfits.start_eq hi
  have hbuffer : ∀ r < set.nrRanks.toNat, ∀ d < 64, p.sgBufferPool r d =
      { maxNrBlocks := m, blocksAddr := ⟨some .blocksAddr, start m (r * 64 + d)⟩
        blocksLength := ⟨some .blocksLength, start m (r * 64 + d)⟩, nrBlocks := 0 } := by
    intro r hr d hd
    rw [create_sgBufferPool h hr hd, newBuffer]
    simp only [mallocPtr, hfits.1, if_true, dpuBufferPos_toNat, start]
  have hentries : ∀ a, p.entries a = set.nrRanks.toNat * 64 * (1 + m.toNat) := by
    intro a
    rw [create_entries h, if_pos (hfits.1 a), Nat.mod_eq_of_lt hfits.2]
  constructor
  · intro r hr d hd
    have hin := inside_mul hmul (r * 64 + d) (by omega)
    rw [hbuffer r hr d hd]
    exact ⟨⟨.blocksAddr, rfl, by rw [hentries]; exact hin⟩, ⟨.blocksLength, rfl, by rw [hentries]; exact hin⟩⟩
  · intro r hr d hd r' hr' d' hd' hne
    have hindex : r * 64 + d ≠ r' * 64 + d' := by
      intro he
      exact hne (Prod.ext (by dsimp only; omega) (by dsimp only; omega))
    have hsep := apart_mul hmul (r * 64 + d) (by omega) (r' * 64 + d') (by omega) hindex
    rw [hbuffer r hr d hd, hbuffer r' hr' d' hd']
    exact ⟨hsep, hsep⟩
  · intro r hr d hd blocks hblocks zeros steps
    have hmax : (p.sgBufferPool r d).maxNrBlocks = m := by rw [hbuffer r hr d hd]
    have hempty : (p.sgBufferPool r d).nrBlocks = 0 := by rw [hbuffer r hr d hd]
    have hroom : blocks.length ≤ (p.sgBufferPool r d).maxNrBlocks.toNat := by rw [hmax]; exact hblocks
    have hstays := transfer_stays hempty hroom zeros steps
    simpa only [InRegion, hmax] using hstays

end Created

/-- The regions of a pool that was created are sound if and only if both
allocations succeeded and the entries of all regions fit in 32 bits. -/
theorem sound_iff {malloc : Which → Bool} {set : DpuSet} {m : UInt32} {p : Pool}
    (h : sgBufferPoolCreate malloc set m = .ok p) : Sound set.nrRanks m p ↔ Fits malloc set.nrRanks m :=
  ⟨Sound.fits h, Fits.sound h⟩

/-- One rank, with no pool yet. -/
def oneRank : DpuSet where
  nrRanks := 1
  nrRanks_pos := by decide
  sgXferEnabled := true
  sgBufferPool := fun _ _ => { maxNrBlocks := 0, blocksAddr := .null, blocksLength := .null, nrBlocks := 0 }

/-- The pool of one rank with two blocks for each DPU: 192 entries of each array. -/
theorem sound_oneRank : ∃ p, sgBufferPoolCreate (fun _ => true) oneRank 2 = .ok p ∧ Sound 1 2 p := by
  have hcreate : sgBufferPoolCreate (fun _ => true) oneRank 2 = .ok _ := rfl
  exact ⟨_, hcreate, (sound_iff hcreate).mpr ⟨fun _ => rfl, by decide⟩⟩

/-- With `2 ^ 26 - 1` blocks for each DPU the product is `2 ^ 32`: nothing is
allocated, and the regions are not inside it. -/
theorem unsound_oneRank :
    ∃ p, sgBufferPoolCreate (fun _ => true) oneRank 67108863 = .ok p ∧ p.entries .blocksAddr = 0 ∧
      ¬ Sound 1 67108863 p := by
  have hcreate : sgBufferPoolCreate (fun _ => true) oneRank 67108863 = .ok _ := rfl
  refine ⟨_, hcreate, by decide, ?_⟩
  intro hsound
  exact absurd (Sound.fits hcreate hsound).2 (by decide)

end DpuBackend.Api.SgPool
