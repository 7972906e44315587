import Mathlib.Data.List.Nodup
import Mathlib.Data.Nat.Find
import DpuBackend.Lib.System
import DpuBackend.Api.SymbolAccess
import DpuBackend.Xeon.SgIterator
import Mathlib.Data.BitVec

/-
  The rank callback of a scatter/gather transfer, and the buffer pool it fills.

  C ↔ Lean (src/api/src/api/dpu_memory.c, src/api/src/dpu_memory.c, src/api/src/api/dpu_set.c):
    struct sg_block_info, struct sg_xfer_callback_args ↔ SgBlockInfo, SgXferCallbackArgs
    DPU_FOREACH over a rank                            ↔ SgRank.dpus
    dpu_transfer_matrix_add_dpu_block                  ↔ addDpuBlock
    the loop over the blocks of a DPU                  ↔ addBlocks
    the loop over the DPUs                             ↔ addDpus
    reset_sg_buffer_pool                               ↔ resetSgBufferPool
    sg_xfer_rank_handler                               ↔ sgXferRankHandler
    sg_buffer_pool_create                              ↔ FreshPool

  Blocks are put in the pool while `get_block` is asked for them, and the pool is reset on the
  last line only, so a call that fails after it has put a block leaves it there.
  `sgXferRankHandler_clean_iff` says exactly when a call leaves the pool as it found it.

  What a copy returns, and for which DPUs the rank handler got as far as putting its padding
  behind the blocks, is the environment's (`CopyOutcome`).
-/

namespace DpuBackend.Api

open DpuBackend.Lib DpuBackend.Xeon

structure SgBlockInfo where
  addr : Nat
  length : BitVec 32

structure SgXferCallbackArgs where
  /-- `get_block`, asked for block `j` of a DPU; `none` where it returns false. -/
  getBlock : BitVec 32 → Nat → Option SgBlockInfo
  xfer : Xfer
  symbolAddr : BitVec 32
  length : BitVec 64
  disableLengthCheck : Bool

/-- What the callback reads of the rank. -/
structure SgRank where
  nrCis : Nat
  nrDpusPerCi : Nat
  enabled : Nat → Bool
  dpuOffset : BitVec 32
  sgXferEnabled : Bool
  /-- `dpu_max_nr_blocks` of `sg_buffer_pool_create` -/
  maxNrBlocks : Nat
  cis_le : nrCis ≤ 8
  dpus_le : nrDpusPerCi ≤ 8

namespace SgRank

variable (r : SgRank)

/-- `get_transfer_matrix_index`, an 8-bit number, of the DPU at `idx` of `rank->dpus`. -/
def transferMatrixIndex (idx : Nat) : Nat := (idx % r.nrDpusPerCi * r.nrCis + idx / r.nrDpusPerCi) % 2 ^ 8

/-- The matrix indices of the enabled DPUs, as `DPU_FOREACH` visits them. -/
def dpus : List Nat := ((List.range (r.nrCis * r.nrDpusPerCi)).filter r.enabled).map r.transferMatrixIndex

/-- The number `get_block` knows the `i`th of them by. -/
def dpuIndex (i : Nat) : BitVec 32 := BitVec.ofNat 32 i + r.dpuOffset

end SgRank

/-! ## The callback -/

/-- The pool, and the entries of it the transfer matrix names. -/
structure SgCall where
  pool : Nat → SgXferBuffer
  named : Nat → Bool

/-- `sg_ptr` of the matrix. -/
def SgCall.sgPtr (st : SgCall) (k : Nat) : Option SgXferBuffer := if st.named k then some (st.pool k) else none

def addDpuBlock (st : SgCall) (k : Nat) (binfo : SgBlockInfo) : Except DpuError SgCall :=
  let sgPtr := st.pool k
  if sgPtr.nrBlocks ≥ sgPtr.maxNrBlocks then .error .internal
  else .ok
    { named := Function.update st.named k true
      pool := Function.update st.pool k
        { sgPtr with
          blocksAddr := Function.update sgPtr.blocksAddr sgPtr.nrBlocks binfo.addr
          blocksLength := Function.update sgPtr.blocksLength sgPtr.nrBlocks binfo.length.toNat
          nrBlocks := sgPtr.nrBlocks + 1 } }

namespace SgXferCallbackArgs

variable (args : SgXferCallbackArgs)

/-- No more block: the bytes have to be `length`. -/
def checkEnd (nrBytes : BitVec 32) : Except DpuError Unit :=
  if args.disableLengthCheck = false ∧ nrBytes.setWidth 64 ≠ args.length then .error .sgLengthMismatch else .ok ()

/-- One more block, which is not empty, is too many bytes. -/
def lengthReached (nrBytes : BitVec 32) : Prop := args.disableLengthCheck = false ∧ nrBytes.setWidth 64 ≥ args.length

instance (nrBytes : BitVec 32) : Decidable (args.lengthReached nrBytes) := inferInstanceAs (Decidable (_ ∧ _))

/-- The loop over the blocks of one DPU, from block `j` on; `room` is what `max_nr_blocks` leaves
from there, so that `block_index >= max_nr_blocks` is `room = 0`. -/
def addBlocks (i : BitVec 32) (k : Nat) : (room j : Nat) → BitVec 32 → SgCall → Except DpuError Unit × SgCall
  | 0, j, nrBytes, st =>
    match args.getBlock i j with
    | some _ => (.error .sgTooManyBlocks, st)
    | none => (args.checkEnd nrBytes, st)
  | room + 1, j, nrBytes, st =>
    match args.getBlock i j with
    | none => (args.checkEnd nrBytes, st)
    | some binfo =>
      if binfo.length = 0#32 then addBlocks i k room (j + 1) nrBytes st
      else if args.lengthReached nrBytes then (.error .sgLengthMismatch, st)
      else match args.xfer with
        | .other => (.error .invalidMemoryTransfer, st)
        | _ => match addDpuBlock st k binfo with
          | .error e => (.error e, st)
          | .ok st => addBlocks i k room (j + 1) (nrBytes + binfo.length) st

/-- The loop over the DPUs, from the `i`th on. -/
def addDpus (r : SgRank) : List Nat → Nat → SgCall → Except DpuError Unit × SgCall
  | [], _, st => (.ok (), st)
  | k :: ks, i, st =>
    match args.addBlocks (r.dpuIndex i) k (st.pool k).maxNrBlocks 0 0#32 st with
    | (.error e, st) => (.error e, st)
    | (.ok _, st) => addDpus r ks (i + 1) st

end SgXferCallbackArgs

def resetSgBufferPool (r : SgRank) (pool : Nat → SgXferBuffer) (k : Nat) : SgXferBuffer :=
  if k ∈ r.dpus then { pool k with nrBlocks := 0 } else pool k

/-- What `dpu_copy_to_mrams` or `dpu_copy_from_mrams` returns, and the lists the rank handler
has put its padding behind, with the address of the padding. -/
structure CopyOutcome where
  status : Except DpuError Unit
  padded : Nat → Bool
  zeros : Nat

/-- `init_sg_xfer_buffer_iterator` on the lists of the pool. -/
def CopyOutcome.pad (copy : CopyOutcome) (pool : Nat → SgXferBuffer) (k : Nat) : SgXferBuffer :=
  if copy.padded k then
    { pool k with
      blocksAddr := Function.update (pool k).blocksAddr (pool k).nrBlocks copy.zeros
      blocksLength := Function.update (pool k).blocksLength (pool k).nrBlocks 4096 }
  else pool k

/-- The matrix of the call: its type is `DPU_SG_XFER_MATRIX`. -/
def SgXferCallbackArgs.transferMatrix (args : SgXferCallbackArgs) (st : SgCall) : DpuTransferMatrix where
  buffers := .sgPtr st.sgPtr
  offset := (args.symbolAddr &&& ~~~mramMask).toNat
  size := (args.length.setWidth 32).toNat

/-- What a call of the callback does: its status, the matrix it has given to the copy, and the pool. -/
structure SgOutcome where
  status : Except DpuError Unit
  transfer : Option DpuTransferMatrix
  pool : Nat → SgXferBuffer

def sgXferRankHandler (r : SgRank) (args : SgXferCallbackArgs) (copy : CopyOutcome) (pool : Nat → SgXferBuffer) :
    SgOutcome :=
  if r.sgXferEnabled then
    match args.addDpus r r.dpus 0 ⟨pool, fun _ => false⟩ with
    | (.error e, st) => ⟨.error e, none, st.pool⟩
    | (.ok _, st) =>
      match args.xfer with
      | .other => ⟨.error .invalidMemoryTransfer, none, st.pool⟩
      | _ =>
        match copy.status with
        | .error e => ⟨.error e, some (args.transferMatrix st), copy.pad st.pool⟩
        | .ok _ => ⟨.ok (), some (args.transferMatrix st), resetSgBufferPool r (copy.pad st.pool)⟩
  else ⟨.error .sgNotActivated, none, pool⟩

/-! ## What `get_block` yields, and what the checks make of it -/

section Blocks

variable (args : SgXferCallbackArgs) (i : BitVec 32)

/-- The non-empty blocks among the first `n` answers for a DPU. -/
def SgXferCallbackArgs.blocks (n : Nat) : List SgBlockInfo :=
  ((List.range n).filterMap (args.getBlock i)).filter fun b => b.length ≠ 0#32

/-- The counter of bytes, of 32 bits. -/
def bytes (l : List SgBlockInfo) : BitVec 32 := (l.map SgBlockInfo.length).sum

/-- The answers before the `n`th all are blocks. -/
def SgXferCallbackArgs.Present (n : Nat) : Prop := ∀ j < n, (args.getBlock i j).isSome

/-- None of the non-empty blocks among the first `n` answers is one too many. -/
def SgXferCallbackArgs.Within (n : Nat) : Prop :=
  ∀ j < n, ∀ b, args.getBlock i j = some b → b.length ≠ 0#32 → ¬args.lengthReached (bytes (args.blocks i j))

/-- The answers end with the `n`th: there is room for the blocks, and they have the right length. -/
structure SgXferCallbackArgs.EndsAt (maxNrBlocks n : Nat) : Prop where
  room : n ≤ maxNrBlocks
  present : args.Present i n
  last : args.getBlock i n = none
  within : args.Within i n
  length : args.disableLengthCheck = false → (bytes (args.blocks i n)).setWidth 64 = args.length

def SgXferCallbackArgs.Accepted (maxNrBlocks : Nat) : Prop := ∃ n, args.EndsAt i maxNrBlocks n

variable {args i}

theorem blocks_zero : args.blocks i 0 = [] := rfl

theorem bytes_nil : bytes [] = 0#32 := rfl

theorem bytes_append (l l' : List SgBlockInfo) : bytes (l ++ l') = bytes l + bytes l' := by
  simp [bytes]

theorem blocks_succ_empty {n : Nat} {b : SgBlockInfo} (h : args.getBlock i n = some b) (h0 : b.length = 0#32) :
    args.blocks i (n + 1) = args.blocks i n := by
  simp [SgXferCallbackArgs.blocks, List.range_succ, List.filterMap_append, h, h0]

theorem blocks_succ {n : Nat} {b : SgBlockInfo} (h : args.getBlock i n = some b) (h0 : b.length ≠ 0#32) :
    args.blocks i (n + 1) = args.blocks i n ++ [b] := by
  simp [SgXferCallbackArgs.blocks, List.range_succ, List.filterMap_append, h, h0]

/-- A non-empty list has a first block. -/
theorem blocks_ne_nil {n : Nat} (h : args.blocks i n ≠ []) :
    ∃ j b, j < n ∧ args.getBlock i j = some b ∧ b.length ≠ 0#32 := by
  obtain ⟨b, hb⟩ := List.exists_mem_of_ne_nil _ h
  simp only [SgXferCallbackArgs.blocks, List.mem_filter, List.mem_filterMap, List.mem_range, decide_eq_true_eq] at hb
  obtain ⟨⟨j, hj, hjb⟩, h0⟩ := hb
  exact ⟨j, b, hj, hjb, h0⟩

theorem blocks_ne_nil_of {n j : Nat} {b : SgBlockInfo} (hj : j < n) (h : args.getBlock i j = some b)
    (h0 : b.length ≠ 0#32) : args.blocks i n ≠ [] := by
  refine List.ne_nil_of_mem (a := b) ?_
  simp only [SgXferCallbackArgs.blocks, List.mem_filter, List.mem_filterMap, List.mem_range, decide_eq_true_eq]
  exact ⟨⟨j, hj, h⟩, h0⟩

end Blocks

/-! ## One DPU -/

/-- The list holds the blocks `l`. -/
structure Holds (b : SgXferBuffer) (l : List SgBlockInfo) : Prop where
  nrBlocks : b.nrBlocks = l.length
  entries : ∀ j (h : j < l.length), b.blocksAddr j = l[j].addr ∧ b.blocksLength j = l[j].length.toNat

/-- The call `st` after the first `n` answers for the DPU with entry `k`, begun in `st₀`. -/
structure Collected (l : List SgBlockInfo) (k : Nat) (st₀ st : SgCall) : Prop where
  holds : Holds (st.pool k) l
  named : st.named k = true ↔ l ≠ []
  room : (st.pool k).maxNrBlocks = (st₀.pool k).maxNrBlocks
  length32 : (∀ j, (st₀.pool k).blocksLength j < 2 ^ 32) → ∀ j, (st.pool k).blocksLength j < 2 ^ 32
  others : ∀ k' ≠ k, st.pool k' = st₀.pool k' ∧ st.named k' = st₀.named k'

section OneDpu

variable {args : SgXferCallbackArgs} {i : BitVec 32} {k : Nat} {l : List SgBlockInfo} {st₀ st : SgCall}

theorem Collected.start (h0 : (st₀.pool k).nrBlocks = 0) (hn : st₀.named k = false) : Collected [] k st₀ st₀ where
  holds := ⟨h0, fun j h => absurd h (Nat.not_lt_zero j)⟩
  named := by simp [hn]
  room := rfl
  length32 h := h
  others _ _ := ⟨rfl, rfl⟩

/-- One more block, where there is room for it. -/
theorem Collected.add (h : Collected l k st₀ st) (hroom : l.length < (st₀.pool k).maxNrBlocks) (b : SgBlockInfo) :
    ∃ st', addDpuBlock st k b = .ok st' ∧ Collected (l ++ [b]) k st₀ st' := by
  have hnot : ¬(st.pool k).nrBlocks ≥ (st.pool k).maxNrBlocks := by
    rw [h.holds.nrBlocks, h.room]
    omega
  refine ⟨_, if_neg hnot, ?_⟩
  refine ⟨⟨?_, ?_⟩, ?_, ?_, ?_, ?_⟩
  · simp only [Function.update_self, h.holds.nrBlocks, List.length_append, List.length_cons, List.length_nil]
  · intro j hj
    simp only [Function.update_self, h.holds.nrBlocks]
    by_cases hlast : j = l.length
    · simp [hlast]
    · have hlt : j < l.length := by
        rw [List.length_append, List.length_singleton] at hj
        omega
      simp only [Function.update_of_ne hlast, List.getElem_append_left hlt]
      exact h.holds.entries j hlt
  · simp
  · simp only [Function.update_self, h.room]
  · intro h32 j
    simp only [Function.update_self]
    by_cases hj : j = (st.pool k).nrBlocks
    · rw [hj, Function.update_self]
      exact b.length.isLt
    · rw [Function.update_of_ne hj]
      exact h.length32 h32 j
  · intro k' hk'
    simp only [Function.update_of_ne hk']
    exact h.others k' hk'

/-- Where and why the loop over a DPU's blocks ends, `n` being the answer it ends at. -/
structure Ended (args : SgXferCallbackArgs) (i : BitVec 32) (maxNrBlocks n : Nat) (status : Except DpuError Unit) :
    Prop where
  room : n ≤ maxNrBlocks
  present : args.Present i n
  within : args.Within i n
  status : status = .ok () ∧ args.getBlock i n = none ∧
      (args.disableLengthCheck = false → (bytes (args.blocks i n)).setWidth 64 = args.length) ∨
    (∃ e, status = .error e) ∧
      (args.getBlock i n = none ∧ args.disableLengthCheck = false ∧
          (bytes (args.blocks i n)).setWidth 64 ≠ args.length ∨
        ∃ b, args.getBlock i n = some b ∧
          (n = maxNrBlocks ∨ b.length ≠ 0#32 ∧ args.lengthReached (bytes (args.blocks i n))))

theorem SgXferCallbackArgs.Present.succ {n : Nat} {b : SgBlockInfo} (h : args.Present i n) (hb : args.getBlock i n = some b) :
    args.Present i (n + 1) := by
  intro j hj
  rcases Nat.lt_succ_iff_lt_or_eq.mp hj with hlt | rfl
  · exact h j hlt
  · rw [hb]; rfl

theorem SgXferCallbackArgs.Within.succ {n : Nat} (h : args.Within i n) (hn : ∀ b, args.getBlock i n = some b → b.length ≠ 0#32 →
    ¬args.lengthReached (bytes (args.blocks i n))) : args.Within i (n + 1) := by
  intro j hj
  rcases Nat.lt_succ_iff_lt_or_eq.mp hj with hlt | rfl
  · exact h j hlt
  · exact hn

/-- No more block: accepted if the bytes are as many as they have to be. -/
theorem ended_checkEnd {maxNrBlocks n : Nat} (hroom : n ≤ maxNrBlocks) (hpresent : args.Present i n)
    (hwithin : args.Within i n) (hnone : args.getBlock i n = none) :
    Ended args i maxNrBlocks n (args.checkEnd (bytes (args.blocks i n))) := by
  refine ⟨hroom, hpresent, hwithin, ?_⟩
  by_cases hend : args.disableLengthCheck = false ∧ (bytes (args.blocks i n)).setWidth 64 ≠ args.length
  · exact .inr ⟨⟨_, if_pos hend⟩, .inl ⟨hnone, hend⟩⟩
  · refine .inl ⟨if_neg hend, hnone, fun hcheck => ?_⟩
    by_contra hne
    exact hend ⟨hcheck, hne⟩

/-- The loop collects the non-empty blocks up to the answer it ends at. -/
theorem addBlocks_ends (st₀ : SgCall) (hx : args.xfer ≠ .other) : ∀ (room n : Nat) (st : SgCall),
    n + room = (st₀.pool k).maxNrBlocks → args.Present i n → args.Within i n →
      Collected (args.blocks i n) k st₀ st →
      ∃ m, Ended args i (st₀.pool k).maxNrBlocks m
          (args.addBlocks i k room n (bytes (args.blocks i n)) st).1 ∧
        Collected (args.blocks i m) k st₀ (args.addBlocks i k room n (bytes (args.blocks i n)) st).2
  | 0, n, st, hroom, hpresent, hwithin, hcoll => by
    rw [SgXferCallbackArgs.addBlocks]
    refine ⟨n, ?_⟩
    cases hb : args.getBlock i n with
    | none => exact ⟨ended_checkEnd (by omega) hpresent hwithin hb, hcoll⟩
    | some b =>
      exact ⟨⟨by omega, hpresent, hwithin, .inr ⟨⟨_, rfl⟩, .inr ⟨b, hb, .inl (by omega)⟩⟩⟩, hcoll⟩
  | room + 1, n, st, hroom, hpresent, hwithin, hcoll => by
    rw [SgXferCallbackArgs.addBlocks]
    cases hb : args.getBlock i n with
    | none => exact ⟨n, ended_checkEnd (by omega) hpresent hwithin hb, hcoll⟩
    | some b =>
      simp only
      by_cases h0 : b.length = 0#32
      · -- an empty block is only counted
        have hsame := blocks_succ_empty hb h0
        rw [if_pos h0, ← hsame]
        exact addBlocks_ends st₀ hx room (n + 1) st (by omega) (hpresent.succ hb)
          (hwithin.succ fun b' hb' h0' => by rw [hb] at hb'; cases hb'; exact absurd h0 h0') (hsame ▸ hcoll)
      · rw [if_neg h0]
        by_cases hreach : args.lengthReached (bytes (args.blocks i n))
        · rw [if_pos hreach]
          exact ⟨n, ⟨by omega, hpresent, hwithin, .inr ⟨⟨_, rfl⟩, .inr ⟨b, hb, .inr ⟨h0, hreach⟩⟩⟩⟩, hcoll⟩
        · rw [if_neg hreach]
          have hlen : (args.blocks i n).length < (st₀.pool k).maxNrBlocks := by
            have hle : (args.blocks i n).length ≤ n := by
              refine (List.length_filter_le _ _).trans ((List.length_filterMap_le _ _).trans ?_)
              rw [List.length_range]
            omega
          obtain ⟨st', hadd, hcoll'⟩ := hcoll.add hlen b
          have hnext := blocks_succ hb h0
          have hbytes : bytes (args.blocks i n) + b.length = bytes (args.blocks i (n + 1)) := by
            rw [hnext, bytes_append]
            simp [bytes]
          cases hxfer : args.xfer with
          | other => exact absurd hxfer hx
          | toDpu =>
            simp only [hadd, hbytes]
            exact addBlocks_ends st₀ hx room (n + 1) st' (by omega) (hpresent.succ hb) (hwithin.succ fun _ _ _ => hreach)
              (hnext ▸ hcoll')
          | fromDpu =>
            simp only [hadd, hbytes]
            exact addBlocks_ends st₀ hx room (n + 1) st' (by omega) (hpresent.succ hb) (hwithin.succ fun _ _ _ => hreach)
              (hnext ▸ hcoll')

theorem Ended.endsAt {maxNrBlocks n : Nat} {status : Except DpuError Unit} (h : Ended args i maxNrBlocks n status)
    (hok : status = .ok ()) : args.EndsAt i maxNrBlocks n := by
  rcases h.status with ⟨-, hlast, hlen⟩ | ⟨⟨e, he⟩, -⟩
  · exact ⟨h.room, h.present, hlast, h.within, hlen⟩
  · rw [he] at hok
    cases hok

/-- The loop ends well exactly when the answers for the DPU are acceptable. -/
theorem Ended.ok_iff {maxNrBlocks n : Nat} {status : Except DpuError Unit} (h : Ended args i maxNrBlocks n status) :
    status = .ok () ↔ args.Accepted i maxNrBlocks := by
  refine ⟨fun hok => ⟨n, h.endsAt hok⟩, ?_⟩
  rintro ⟨m, hm⟩
  have hle : n ≤ m := by
    by_contra hlt
    have := h.present m (by omega)
    rw [hm.last] at this
    cases this
  rcases h.status with ⟨hok, -⟩ | ⟨-, hbad⟩
  · exact hok
  · rcases hbad with ⟨hlast, hcheck, hne⟩ | ⟨b, hb, hbad⟩
    · -- both end at the first answer that is no block
      have heq : n = m := by
        by_contra hne
        have := hm.present n (by omega)
        rw [hlast] at this
        cases this
      exact absurd (heq ▸ hm.length hcheck) hne
    · have hlt : n < m := by
        rcases Nat.lt_or_ge n m with hlt | hge
        · exact hlt
        · rw [Nat.le_antisymm hle hge, hm.last] at hb
          cases hb
      rcases hbad with heq | ⟨h0, hreach⟩
      · have := hm.room
        omega
      · exact absurd hreach (hm.within n hlt b hb h0)

/-- The answers for a DPU have a non-empty block that is put in the pool. -/
def SgXferCallbackArgs.Puts (args : SgXferCallbackArgs) (i : BitVec 32) (maxNrBlocks : Nat) : Prop :=
  ∃ j b, j < maxNrBlocks ∧ args.Present i j ∧ args.getBlock i j = some b ∧ b.length ≠ 0#32 ∧
    (args.disableLengthCheck = false → args.length ≠ 0#64)

theorem lengthReached_nil_iff : args.lengthReached (bytes []) ↔ args.disableLengthCheck = false ∧ args.length = 0#64 := by
  rw [SgXferCallbackArgs.lengthReached, bytes_nil]
  simp

/-- Whether the loop puts a block in the pool. -/
theorem Ended.blocks_ne_nil_iff {maxNrBlocks n : Nat} {status : Except DpuError Unit}
    (h : Ended args i maxNrBlocks n status) : args.blocks i n ≠ [] ↔ args.Puts i maxNrBlocks := by
  constructor
  · -- the first non-empty block passed the check against a counter of 0
    intro hne
    have hex := blocks_ne_nil hne
    classical
    obtain ⟨b, hj, hb, h0⟩ := Nat.find_spec hex
    have hmin := fun m hm => Nat.find_min hex (m := m) hm
    generalize Nat.find hex = j at hj hb hmin
    have hempty : args.blocks i j = [] := by
      by_contra hne'
      obtain ⟨j', b', hj', hb', h0'⟩ := blocks_ne_nil hne'
      exact hmin j' hj' ⟨b', by omega, hb', h0'⟩
    have hnot := h.within j hj b hb h0
    rw [hempty, lengthReached_nil_iff, not_and] at hnot
    have hroom := h.room
    exact ⟨j, b, by omega, fun j' hj' => h.present j' (by omega), hb, h0, hnot⟩
  · rintro ⟨j, b, hj, hpresent, hb, h0, hlen⟩ hnil
    have hle : n ≤ j := by
      by_contra hlt
      exact blocks_ne_nil_of (by omega) hb h0 hnil
    have hsome : ∀ a, args.getBlock i n = a → a ≠ none := by
      intro a ha hnone
      rcases Nat.lt_or_eq_of_le hle with hlt | rfl
      · have := hpresent n hlt
        rw [ha, hnone] at this
        cases this
      · rw [hb] at ha
        rw [← ha] at hnone
        cases hnone
    rcases h.status with ⟨-, hlast, -⟩ | ⟨-, ⟨hlast, -⟩ | ⟨b', -, heq | ⟨-, hreach⟩⟩⟩
    · exact hsome _ hlast rfl
    · exact hsome _ hlast rfl
    · omega
    · rw [hnil, lengthReached_nil_iff] at hreach
      exact hlen hreach.1 hreach.2

end OneDpu

/-! ## The DPUs of a rank -/

section Dpus

variable (args : SgXferCallbackArgs) (r : SgRank)

/-- The answers for `n` DPUs from the `i`th on are acceptable. -/
def SgXferCallbackArgs.AcceptedFrom (i n : Nat) : Prop := ∀ j < n, args.Accepted (r.dpuIndex (i + j)) r.maxNrBlocks

/-- One of `n` DPUs from the `i`th on has a block put in the pool, all before it being accepted. -/
def SgXferCallbackArgs.PutsFrom (i n : Nat) : Prop :=
  ∃ j < n, args.AcceptedFrom r i j ∧ args.Puts (r.dpuIndex (i + j)) r.maxNrBlocks

variable {args r}

theorem acceptedFrom_succ {i n : Nat} : args.AcceptedFrom r i (n + 1) ↔
    args.Accepted (r.dpuIndex i) r.maxNrBlocks ∧ args.AcceptedFrom r (i + 1) n := by
  constructor
  · intro h
    refine ⟨h 0 (Nat.succ_pos n), fun j hj => ?_⟩
    rw [Nat.add_right_comm, Nat.add_assoc]
    exact h (j + 1) (Nat.succ_lt_succ hj)
  · rintro ⟨h0, h⟩ j hj
    cases j with
    | zero => exact h0
    | succ j =>
      have := h j (Nat.lt_of_succ_lt_succ hj)
      rwa [Nat.add_right_comm, Nat.add_assoc] at this

theorem putsFrom_succ {i n : Nat} : args.PutsFrom r i (n + 1) ↔
    args.Puts (r.dpuIndex i) r.maxNrBlocks ∨
      args.Accepted (r.dpuIndex i) r.maxNrBlocks ∧ args.PutsFrom r (i + 1) n := by
  constructor
  · rintro ⟨j, hj, hacc, hputs⟩
    cases j with
    | zero => exact .inl hputs
    | succ j =>
      obtain ⟨h0, hrest⟩ := acceptedFrom_succ.mp hacc
      refine .inr ⟨h0, j, Nat.lt_of_succ_lt_succ hj, hrest, ?_⟩
      rwa [Nat.add_right_comm, Nat.add_assoc]
  · rintro (hputs | ⟨h0, j, hj, hacc, hputs⟩)
    · exact ⟨0, Nat.succ_pos n, fun j hj => absurd hj (Nat.not_lt_zero j), hputs⟩
    · refine ⟨j + 1, Nat.succ_lt_succ hj, acceptedFrom_succ.mpr ⟨h0, hacc⟩, ?_⟩
      rwa [Nat.add_right_comm, Nat.add_assoc] at hputs

/-- An entry no block has been put in yet. -/
structure Untouched (r : SgRank) (st : SgCall) (k : Nat) : Prop where
  nrBlocks : (st.pool k).nrBlocks = 0
  named : st.named k = false
  room : (st.pool k).maxNrBlocks = r.maxNrBlocks

/-- The entry `k` of the `i`th DPU after its loop: its list, and whether the matrix names it. -/
structure Listed (args : SgXferCallbackArgs) (r : SgRank) (i : Nat) (st : SgCall) (k : Nat) : Prop where
  holds : ∃ n, args.EndsAt (r.dpuIndex i) r.maxNrBlocks n ∧ Holds (st.pool k) (args.blocks (r.dpuIndex i) n) ∧
    (st.named k = true ↔ args.blocks (r.dpuIndex i) n ≠ [])

/-- What the loop over the DPUs `ks`, the first of them the `i`th, makes of `st`. -/
structure DpusAdded (args : SgXferCallbackArgs) (r : SgRank) (ks : List Nat) (i : Nat) (st : SgCall)
    (out : Except DpuError Unit × SgCall) : Prop where
  ok_iff : out.1 = .ok () ↔ args.AcceptedFrom r i ks.length
  listed : out.1 = .ok () → ∀ j k, ks[j]? = some k → Listed args r (i + j) out.2 k
  puts : (∃ k ∈ ks, (out.2.pool k).nrBlocks ≠ 0) ↔ args.PutsFrom r i ks.length
  others : ∀ k, k ∉ ks → out.2.pool k = st.pool k ∧ out.2.named k = st.named k
  room : ∀ k, (out.2.pool k).maxNrBlocks = (st.pool k).maxNrBlocks
  length32 : ∀ k, (∀ j, (st.pool k).blocksLength j < 2 ^ 32) → ∀ j, (out.2.pool k).blocksLength j < 2 ^ 32

theorem dpusAdded_nil (i : Nat) (st : SgCall) : DpusAdded args r [] i st (.ok (), st) where
  ok_iff := iff_of_true rfl fun j hj => absurd hj (Nat.not_lt_zero j)
  listed _ j k hk := by cases hk
  puts := by simp [SgXferCallbackArgs.PutsFrom]
  others _ _ := ⟨rfl, rfl⟩
  room _ := rfl
  length32 _ h := h

theorem holds_nrBlocks_iff {b : SgXferBuffer} {l : List SgBlockInfo} (h : Holds b l) : b.nrBlocks ≠ 0 ↔ l ≠ [] := by
  rw [h.nrBlocks]
  simp

theorem Collected.room_all {l : List SgBlockInfo} {k : Nat} {st₀ st : SgCall} (h : Collected l k st₀ st) (k' : Nat) :
    (st.pool k').maxNrBlocks = (st₀.pool k').maxNrBlocks := by
  by_cases hk : k' = k
  · rw [hk, h.room]
  · rw [(h.others k' hk).1]

theorem Collected.length32_all {l : List SgBlockInfo} {k : Nat} {st₀ st : SgCall} (h : Collected l k st₀ st) (k' : Nat)
    (h32 : ∀ j, (st₀.pool k').blocksLength j < 2 ^ 32) : ∀ j, (st.pool k').blocksLength j < 2 ^ 32 := by
  by_cases hk : k' = k
  · rw [hk] at h32 ⊢
    exact h.length32 h32
  · rw [(h.others k' hk).1]
    exact h32

theorem addDpus_added (hx : args.xfer ≠ .other) : ∀ (ks : List Nat) (i : Nat) (st : SgCall), ks.Nodup →
    (∀ k ∈ ks, Untouched r st k) → DpusAdded args r ks i st (args.addDpus r ks i st)
  | [], i, st, _, _ => dpusAdded_nil i st
  | k :: ks, i, st, hnodup, hclean => by
    obtain ⟨hk, hnodup'⟩ := List.nodup_cons.mp hnodup
    have h0 := hclean k List.mem_cons_self
    obtain ⟨m, hend, hcoll⟩ := addBlocks_ends (i := r.dpuIndex i) st hx (st.pool k).maxNrBlocks 0 st
      (Nat.zero_add _) (fun j hj => absurd hj (Nat.not_lt_zero j)) (fun j hj => absurd hj (Nat.not_lt_zero j))
      (Collected.start h0.nrBlocks h0.named)
    rw [blocks_zero, bytes_nil] at hend hcoll
    generalize hout : args.addBlocks (r.dpuIndex i) k (st.pool k).maxNrBlocks 0 0#32 st = out at hend hcoll
    rw [h0.room] at hend
    have hputs := hend.blocks_ne_nil_iff
    rw [← holds_nrBlocks_iff hcoll.holds] at hputs
    rw [SgXferCallbackArgs.addDpus, hout]
    obtain ⟨status, st'⟩ := out
    have hothers : ∀ k' ∈ ks, st'.pool k' = st.pool k' ∧ st'.named k' = st.named k' :=
      fun k' hk' => hcoll.others k' fun he => hk (he ▸ hk')
    cases status with
    | error e =>
      have hnot : ¬args.Accepted (r.dpuIndex i) r.maxNrBlocks := fun hacc => by cases hend.ok_iff.mpr hacc
      refine ⟨?_, ?_, ?_, ?_, hcoll.room_all, hcoll.length32_all⟩
      · exact iff_of_false (fun h => by cases h) fun h => hnot (acceptedFrom_succ.mp h).1
      · intro h
        cases h
      · -- the DPUs after the failing one are not visited
        rw [List.length_cons, putsFrom_succ, ← hputs]
        constructor
        · rintro ⟨k', hk', hne⟩
          rcases List.mem_cons.mp hk' with rfl | hk'
          · exact .inl hne
          · rw [(hothers k' hk').1] at hne
            exact absurd (hclean k' (List.mem_cons_of_mem _ hk')).nrBlocks hne
        · rintro (hne | ⟨hacc, -⟩)
          · exact ⟨k, List.mem_cons_self, hne⟩
          · exact absurd hacc hnot
      · intro k' hk'
        exact hcoll.others k' fun he => hk' (he ▸ List.mem_cons_self)
    | ok u =>
      have hacc : args.Accepted (r.dpuIndex i) r.maxNrBlocks := hend.ok_iff.mp rfl
      have ih := addDpus_added hx ks (i + 1) st' hnodup' fun k' hk' => by
        have hclean' := hclean k' (List.mem_cons_of_mem _ hk')
        refine ⟨?_, ?_, ?_⟩
        · rw [(hothers k' hk').1, hclean'.nrBlocks]
        · rw [(hothers k' hk').2, hclean'.named]
        · rw [(hothers k' hk').1, hclean'.room]
      obtain ⟨hpool, hnamed⟩ := ih.others k hk
      refine ⟨?_, ?_, ?_, ?_, fun k' => (ih.room k').trans (hcoll.room_all k'),
        fun k' h32 => ih.length32 k' (hcoll.length32_all k' h32)⟩
      · rw [List.length_cons, acceptedFrom_succ, ← ih.ok_iff]
        exact ⟨fun h => ⟨hacc, h⟩, fun h => h.2⟩
      · intro hok j k' hk'
        cases j with
        | zero =>
          obtain rfl : k = k' := by simpa using hk'
          refine ⟨m, hend.endsAt rfl, ?_, ?_⟩
          · rw [hpool]; exact hcoll.holds
          · rw [hnamed]; exact hcoll.named
        | succ j =>
          have := ih.listed hok j k' hk'
          rwa [Nat.add_right_comm, Nat.add_assoc] at this
      · rw [List.length_cons, putsFrom_succ, ← hputs, ← ih.puts]
        simp only [List.exists_mem_cons_iff, hpool]
        exact or_congr_right ⟨fun h => ⟨hacc, h⟩, fun h => h.2⟩
      · intro k' hk'
        obtain ⟨hne, hnot⟩ := not_or.mp fun h => hk' (List.mem_cons.mpr h)
        obtain ⟨hp, hn⟩ := ih.others k' hnot
        obtain ⟨hp', hn'⟩ := hcoll.others k' hne
        exact ⟨hp.trans hp', hn.trans hn'⟩

end Dpus

/-! ## One call -/

section Call

variable {args : SgXferCallbackArgs} {r : SgRank} {copy : CopyOutcome} {pool : Nat → SgXferBuffer}

/-- The pool as `sg_buffer_pool_create` makes it and as a call is to leave it; the lengths are
32-bit numbers, whatever the array held before. -/
structure FreshPool (r : SgRank) (pool : Nat → SgXferBuffer) : Prop where
  nrBlocks : ∀ k, (pool k).nrBlocks = 0
  room : ∀ k, (pool k).maxNrBlocks = r.maxNrBlocks
  length32 : ∀ k j, (pool k).blocksLength j < 2 ^ 32

/-- The condition: if one of the DPUs visited has a non-empty block put in the pool, the call
succeeds, that is, the answers for every DPU are acceptable and the copy does not fail. -/
def SgXferCallbackArgs.Whole (args : SgXferCallbackArgs) (r : SgRank) (copy : CopyOutcome) : Prop :=
  r.sgXferEnabled = true → args.xfer ≠ .other → args.PutsFrom r 0 r.dpus.length →
    args.AcceptedFrom r 0 r.dpus.length ∧ copy.status = .ok ()

theorem SgRank.dpus_nodup (r : SgRank) : r.dpus.Nodup := by
  refine List.Nodup.map_on ?_ (List.nodup_range.filter _)
  intro a ha b hb h
  have hlt : ∀ {a}, a ∈ (List.range (r.nrCis * r.nrDpusPerCi)).filter r.enabled →
      0 < r.nrDpusPerCi ∧ a / r.nrDpusPerCi < r.nrCis ∧
        r.transferMatrixIndex a = a % r.nrDpusPerCi * r.nrCis + a / r.nrDpusPerCi := by
    intro a ha
    have hlt : a < r.nrCis * r.nrDpusPerCi := List.mem_range.mp (List.mem_of_mem_filter ha)
    have hpos : 0 < r.nrDpusPerCi := Nat.pos_of_ne_zero fun h0 => by simp [h0] at hlt
    have hci : a / r.nrDpusPerCi < r.nrCis := (Nat.div_lt_iff_lt_mul hpos).mpr hlt
    have hdpu : a % r.nrDpusPerCi + 1 ≤ r.nrDpusPerCi := Nat.mod_lt a hpos
    have hle := Nat.mul_le_mul (hdpu.trans r.dpus_le) r.cis_le
    rw [Nat.succ_mul] at hle
    exact ⟨hpos, hci, Nat.mod_eq_of_lt (by omega)⟩
  obtain ⟨hpos, hci, hia⟩ := hlt ha
  obtain ⟨-, hci', hib⟩ := hlt hb
  have hcis : 0 < r.nrCis := Nat.zero_lt_of_lt hci
  rw [hia, hib] at h
  have hmod := congrArg (· % r.nrCis) h
  have hdiv := congrArg (· / r.nrCis) h
  simp only [Nat.mul_comm _ r.nrCis, Nat.mul_add_mod, Nat.mul_add_div hcis, Nat.mod_eq_of_lt hci, Nat.mod_eq_of_lt hci',
    Nat.div_eq_of_lt hci, Nat.div_eq_of_lt hci', Nat.add_zero] at hmod hdiv
  rw [← Nat.div_add_mod a r.nrDpusPerCi, ← Nat.div_add_mod b r.nrDpusPerCi, hmod, hdiv]

/-- With another direction no block is put in the pool. -/
theorem addBlocks_other (hx : args.xfer = .other) (i : BitVec 32) (k : Nat) : ∀ (room j : Nat) (n : BitVec 32)
    (st : SgCall), (args.addBlocks i k room j n st).2 = st
  | 0, j, n, st => by
    rw [SgXferCallbackArgs.addBlocks]
    split <;> rfl
  | room + 1, j, n, st => by
    rw [SgXferCallbackArgs.addBlocks]
    cases args.getBlock i j with
    | none => rfl
    | some b =>
      simp only [hx]
      split
      · exact addBlocks_other hx i k room (j + 1) n st
      · split <;> rfl

theorem addDpus_other (hx : args.xfer = .other) : ∀ (ks : List Nat) (i : Nat) (st : SgCall),
    (args.addDpus r ks i st).2 = st
  | [], _, _ => rfl
  | k :: ks, i, st => by
    have hsame := addBlocks_other hx (r.dpuIndex i) k (st.pool k).maxNrBlocks 0 0#32 st
    rw [SgXferCallbackArgs.addDpus]
    generalize args.addBlocks (r.dpuIndex i) k (st.pool k).maxNrBlocks 0 0#32 st = out at hsame
    obtain ⟨status, st'⟩ := out
    cases status with
    | error e => exact hsame
    | ok u => exact (addDpus_other hx ks (i + 1) st').trans hsame

theorem pad_nrBlocks (k : Nat) : (copy.pad pool k).nrBlocks = (pool k).nrBlocks := by
  unfold CopyOutcome.pad
  split <;> rfl

theorem pad_room (k : Nat) : (copy.pad pool k).maxNrBlocks = (pool k).maxNrBlocks := by
  unfold CopyOutcome.pad
  split <;> rfl

theorem pad_length32 {k : Nat} (h : ∀ j, (pool k).blocksLength j < 2 ^ 32) (j : Nat) :
    (copy.pad pool k).blocksLength j < 2 ^ 32 := by
  unfold CopyOutcome.pad
  split
  · simp only [Function.update_apply]
    split
    · decide
    · exact h j
  · exact h j

theorem FreshPool.added (hpool : FreshPool r pool) (hx : args.xfer ≠ .other) :
    DpusAdded args r r.dpus 0 ⟨pool, fun _ => false⟩ (args.addDpus r r.dpus 0 ⟨pool, fun _ => false⟩) :=
  addDpus_added hx r.dpus 0 _ r.dpus_nodup fun k _ => ⟨hpool.nrBlocks k, rfl, hpool.room k⟩

/-- The three ways a call of a direction ends. -/
theorem sgXferRankHandler_cases (copy : CopyOutcome) (hpool : FreshPool r pool) (hen : r.sgXferEnabled = true) (hx : args.xfer ≠ .other) :
    ∃ st : SgCall, ∃ status, DpusAdded args r r.dpus 0 ⟨pool, fun _ => false⟩ (status, st) ∧
      ((∃ e, status = .error e) ∧ sgXferRankHandler r args copy pool = ⟨status, none, st.pool⟩ ∨
        status = .ok () ∧ (∃ e, copy.status = .error e) ∧
          sgXferRankHandler r args copy pool = ⟨copy.status, some (args.transferMatrix st), copy.pad st.pool⟩ ∨
        status = .ok () ∧ copy.status = .ok () ∧ sgXferRankHandler r args copy pool =
          ⟨.ok (), some (args.transferMatrix st), resetSgBufferPool r (copy.pad st.pool)⟩) := by
  have hadded := hpool.added hx
  unfold sgXferRankHandler
  rw [if_pos hen]
  generalize args.addDpus r r.dpus 0 ⟨pool, fun _ => false⟩ = out at hadded
  obtain ⟨status, st⟩ := out
  refine ⟨st, status, hadded, ?_⟩
  cases status with
  | error e => exact .inl ⟨⟨e, rfl⟩, rfl⟩
  | ok u =>
    cases hxfer : args.xfer with
    | other => exact absurd hxfer hx
    | toDpu =>
      cases hcopy : copy.status with
      | error e => exact .inr (.inl ⟨rfl, ⟨e, rfl⟩, rfl⟩)
      | ok u => exact .inr (.inr ⟨rfl, rfl, rfl⟩)
    | fromDpu =>
      cases hcopy : copy.status with
      | error e => exact .inr (.inl ⟨rfl, ⟨e, rfl⟩, rfl⟩)
      | ok u => exact .inr (.inr ⟨rfl, rfl, rfl⟩)

theorem reset_nrBlocks_iff (k : Nat) : (resetSgBufferPool r pool k).nrBlocks ≠ 0 ↔ k ∉ r.dpus ∧ (pool k).nrBlocks ≠ 0 := by
  unfold resetSgBufferPool
  split <;> simp [*]

theorem reset_room (k : Nat) : (resetSgBufferPool r pool k).maxNrBlocks = (pool k).maxNrBlocks := by
  unfold resetSgBufferPool
  split <;> rfl

theorem reset_blocksLength (k : Nat) : (resetSgBufferPool r pool k).blocksLength = (pool k).blocksLength := by
  unfold resetSgBufferPool
  split <;> rfl

/-- A direction that is none leaves the pool alone. -/
theorem sgXferRankHandler_other (hx : args.xfer = .other) : (sgXferRankHandler r args copy pool).pool = pool := by
  have hsame := addDpus_other (r := r) hx r.dpus 0 ⟨pool, fun _ => false⟩
  unfold sgXferRankHandler
  split
  · generalize args.addDpus r r.dpus 0 ⟨pool, fun _ => false⟩ = out at hsame
    obtain ⟨status, st⟩ := out
    subst hsame
    cases status <;> simp only [hx]
  · rfl

/-- The loop over the DPUs leaves the pool empty exactly when it puts no block. -/
theorem DpusAdded.clean_iff (hpool : FreshPool r pool) {status : Except DpuError Unit} {st : SgCall}
    (h : DpusAdded args r r.dpus 0 ⟨pool, fun _ => false⟩ (status, st)) :
    (∀ k, (st.pool k).nrBlocks = 0) ↔ ¬args.PutsFrom r 0 r.dpus.length := by
  rw [← h.puts]
  constructor
  · rintro hclean ⟨k, -, hne⟩
    exact hne (hclean k)
  · intro hnone k
    by_cases hk : k ∈ r.dpus
    · by_contra hne
      exact hnone ⟨k, hk, hne⟩
    · exact congrArg SgXferBuffer.nrBlocks (h.others k hk).1 |>.trans (hpool.nrBlocks k)

/-- Blocks are left in the pool exactly when the condition is broken. -/
theorem sgXferRankHandler_clean_iff (hpool : FreshPool r pool) :
    (∀ k, ((sgXferRankHandler r args copy pool).pool k).nrBlocks = 0) ↔ args.Whole r copy := by
  by_cases hen : r.sgXferEnabled = true
  · by_cases hx : args.xfer = .other
    · rw [sgXferRankHandler_other hx]
      exact iff_of_true hpool.nrBlocks fun _ h => absurd hx h
    · obtain ⟨st, status, hadded, hcases⟩ := sgXferRankHandler_cases copy hpool hen hx
      have hok : status = .ok () ↔ args.AcceptedFrom r 0 r.dpus.length := hadded.ok_iff
      have hwhole : args.Whole r copy ↔
          (args.PutsFrom r 0 r.dpus.length → args.AcceptedFrom r 0 r.dpus.length ∧ copy.status = .ok ()) :=
        ⟨fun h => h hen hx, fun h _ _ => h⟩
      rw [hwhole, ← hok]
      rcases hcases with ⟨⟨e, rfl⟩, hout⟩ | ⟨rfl, ⟨e, he⟩, hout⟩ | ⟨rfl, hcopy, hout⟩
      · rw [hout, hadded.clean_iff hpool]
        exact ⟨fun h hp => absurd hp h, fun h hp => by cases (h hp).1⟩
      · rw [hout, he]
        simp only [pad_nrBlocks]
        rw [hadded.clean_iff hpool]
        exact ⟨fun h hp => absurd hp h, fun h hp => by cases (h hp).2⟩
      · rw [hout, hcopy]
        refine iff_of_true (fun k => ?_) fun _ => ⟨rfl, rfl⟩
        by_contra hne
        obtain ⟨hk, hne⟩ := (reset_nrBlocks_iff k).mp hne
        rw [pad_nrBlocks] at hne
        exact hne (congrArg SgXferBuffer.nrBlocks (hadded.others k hk).1 |>.trans (hpool.nrBlocks k))
  · have hsame : sgXferRankHandler r args copy pool = ⟨.error .sgNotActivated, none, pool⟩ := if_neg hen
    rw [hsame]
    exact iff_of_true hpool.nrBlocks fun h => absurd h hen

/-- A call keeps the sizes of the lists, and the lengths in them 32-bit numbers. -/
theorem sgXferRankHandler_room (hpool : FreshPool r pool) (k : Nat) :
    ((sgXferRankHandler r args copy pool).pool k).maxNrBlocks = r.maxNrBlocks ∧
      ∀ j, ((sgXferRankHandler r args copy pool).pool k).blocksLength j < 2 ^ 32 := by
  by_cases hen : r.sgXferEnabled = true
  · by_cases hx : args.xfer = .other
    · rw [sgXferRankHandler_other hx]
      exact ⟨hpool.room k, hpool.length32 k⟩
    · obtain ⟨st, status, hadded, hcases⟩ := sgXferRankHandler_cases copy hpool hen hx
      have hroom : (st.pool k).maxNrBlocks = r.maxNrBlocks := (hadded.room k).trans (hpool.room k)
      have h32 : ∀ j, (st.pool k).blocksLength j < 2 ^ 32 := hadded.length32 k (hpool.length32 k)
      rcases hcases with ⟨-, hout⟩ | ⟨-, -, hout⟩ | ⟨-, -, hout⟩
      · rw [hout]
        exact ⟨hroom, h32⟩
      · rw [hout]
        exact ⟨(pad_room k).trans hroom, pad_length32 h32⟩
      · rw [hout]
        simp only [reset_room, reset_blocksLength]
        exact ⟨(pad_room k).trans hroom, pad_length32 h32⟩
  · have hsame : sgXferRankHandler r args copy pool = ⟨.error .sgNotActivated, none, pool⟩ := if_neg hen
    rw [hsame]
    exact ⟨hpool.room k, hpool.length32 k⟩

/-- The entry of the `i`th DPU in the matrix is its own blocks: none where all are empty, else a
list whose bytes are those of its non-empty blocks in order. -/
def TransfersOwn (args : SgXferCallbackArgs) (r : SgRank) (i : Nat) (entry : Option SgXferBuffer) : Prop :=
  ∃ n, args.EndsAt (r.dpuIndex i) r.maxNrBlocks n ∧
    (args.blocks (r.dpuIndex i) n = [] ∧ entry = none ∨
      ∃ b, entry = some b ∧ b.Valid ∧ b.addresses =
        (args.blocks (r.dpuIndex i) n).flatMap fun x => (List.range x.length.toNat).map fun c => x.addr + c)

theorem Holds.addresses {b : SgXferBuffer} {l : List SgBlockInfo} (h : Holds b l) :
    b.addresses = l.flatMap fun x => (List.range x.length.toNat).map fun c => x.addr + c := by
  have hrange : l = (List.finRange l.length).map fun j => l[j] := by simp
  rw [SgXferBuffer.addresses, SgXferBuffer.addressesUpTo, h.nrBlocks]
  conv_rhs => rw [hrange]
  rw [← List.map_coe_finRange_eq_range, List.flatMap_map, List.flatMap_map]
  refine List.flatMap_congr fun j _ => ?_
  obtain ⟨haddr, hlen⟩ := h.entries j j.isLt
  rw [haddr, hlen]
  rfl

theorem Holds.valid {b : SgXferBuffer} {i : BitVec 32} {n : Nat} (h : Holds b (args.blocks i n))
    (hend : args.EndsAt i b.maxNrBlocks n) (h32 : ∀ j, b.blocksLength j < 2 ^ 32) : b.Valid where
  nrBlocks := by
    rw [h.nrBlocks]
    refine Nat.le_trans ?_ hend.room
    refine (List.length_filter_le _ _).trans ((List.length_filterMap_le _ _).trans ?_)
    rw [List.length_range]
  nonempty j hj := by
    rw [h.nrBlocks] at hj
    rw [(h.entries j hj).2]
    have hmem := List.getElem_mem hj
    have h0 : (args.blocks i n)[j].length ≠ 0#32 := by
      have := (List.mem_filter.mp hmem).2
      simpa using this
    exact Nat.pos_of_ne_zero fun he => h0 (BitVec.eq_of_toNat_eq he)
  length32 := h32

/-- What a call gives to the copy: for each DPU its own blocks, and no other entry. -/
theorem sgXferRankHandler_transfer (hpool : FreshPool r pool) {m : DpuTransferMatrix}
    (h : (sgXferRankHandler r args copy pool).transfer = some m) :
    ∃ sgPtr, m.buffers = .sgPtr sgPtr ∧ (∀ i k, r.dpus[i]? = some k → TransfersOwn args r i (sgPtr k)) ∧
      ∀ k, k ∉ r.dpus → sgPtr k = none := by
  by_cases hen : r.sgXferEnabled = true
  · by_cases hx : args.xfer = .other
    · unfold sgXferRankHandler at h
      rw [if_pos hen] at h
      simp only [hx] at h
      split at h <;> cases h
    · obtain ⟨st, status, hadded, hcases⟩ := sgXferRankHandler_cases copy hpool hen hx
      have hmatrix : status = .ok () ∧ m = args.transferMatrix st := by
        rcases hcases with ⟨-, hout⟩ | ⟨hst, -, hout⟩ | ⟨hst, -, hout⟩
        · rw [hout] at h
          cases h
        · rw [hout] at h
          exact ⟨hst, (Option.some.inj h).symm⟩
        · rw [hout] at h
          exact ⟨hst, (Option.some.inj h).symm⟩
      obtain ⟨rfl, rfl⟩ := hmatrix
      refine ⟨st.sgPtr, rfl, ?_, ?_⟩
      · intro i k hk
        obtain ⟨n, hend, hholds, hnamed⟩ := (hadded.listed rfl i k hk).holds
        rw [Nat.zero_add] at hend hholds hnamed
        refine ⟨n, hend, ?_⟩
        by_cases hnil : args.blocks (r.dpuIndex i) n = []
        · refine .inl ⟨hnil, if_neg fun ht => ?_⟩
          exact hnamed.mp ht hnil
        · have hroom : (st.pool k).maxNrBlocks = r.maxNrBlocks := (hadded.room k).trans (hpool.room k)
          refine .inr ⟨st.pool k, if_pos (hnamed.mpr hnil), ?_, hholds.addresses⟩
          exact hholds.valid (hroom ▸ hend) (hadded.length32 k (hpool.length32 k))
      · intro k hk
        exact if_neg fun ht => by rw [(hadded.others k hk).2] at ht; cases ht
  · rw [show sgXferRankHandler r args copy pool = ⟨.error .sgNotActivated, none, pool⟩ from if_neg hen] at h
    cases h

/-- A call that succeeds has transferred. -/
theorem transfer_of_ok (h : (sgXferRankHandler r args copy pool).status = .ok ()) :
    ∃ m, (sgXferRankHandler r args copy pool).transfer = some m := by
  unfold sgXferRankHandler at h ⊢
  by_cases hen : r.sgXferEnabled = true
  · rw [if_pos hen] at h ⊢
    generalize args.addDpus r r.dpus 0 ⟨pool, fun _ => false⟩ = out at h ⊢
    obtain ⟨status, st⟩ := out
    cases status with
    | error e => cases h
    | ok u =>
      cases hxfer : args.xfer with
      | other => simp only [hxfer] at h; cases h
      | toDpu => cases copy.status <;> exact ⟨_, rfl⟩
      | fromDpu => cases copy.status <;> exact ⟨_, rfl⟩
  · rw [if_neg hen] at h
    cases h

end Call

/-! ## Runs of calls -/

/-- The calls of the callback on a rank, from the creation of its pool on. -/
def handlerSystem (r : SgRank) : System (Nat → SgXferBuffer) (SgXferCallbackArgs × CopyOutcome) where
  init := FreshPool r
  step pool call pool' := pool' = (sgXferRankHandler r call.1 call.2 pool).pool

/-- Two DPUs, four blocks each. -/
def sampleRank : SgRank where
  nrCis := 2
  nrDpusPerCi := 1
  enabled _ := true
  dpuOffset := 0#32
  sgXferEnabled := true
  maxNrBlocks := 4
  cis_le := Nat.le_add_right 2 6
  dpus_le := Nat.le_add_left 1 7

/-- Eight bytes to each DPU, from the blocks of a list. -/
def sampleArgs (blocks : BitVec 32 → List SgBlockInfo) : SgXferCallbackArgs where
  getBlock i j := (blocks i)[j]?
  xfer := .toDpu
  symbolAddr := 0x08000000#32
  length := 8#64
  disableLengthCheck := false

def sampleCopy : CopyOutcome where
  status := .ok ()
  padded _ := true
  zeros := 65536

def samplePool (_ : Nat) : SgXferBuffer where
  maxNrBlocks := 4
  blocksAddr _ := 0
  blocksLength _ := 0
  nrBlocks := 0

theorem samplePool_fresh : FreshPool sampleRank samplePool :=
  ⟨fun _ => rfl, fun _ => rfl, fun _ _ => show 0 < 2 ^ 32 by decide⟩

/-- A block of eight bytes for the first DPU, none for the second. -/
def mismatchedArgs : SgXferCallbackArgs := sampleArgs fun i => if i = 0#32 then [⟨4096, 8#32⟩] else []

/-- A block of eight bytes for each DPU. -/
def matchedArgs : SgXferCallbackArgs := sampleArgs fun i => [⟨8192 + 4096 * i.toNat, 8#32⟩]

theorem matchedArgs_whole : matchedArgs.Whole sampleRank sampleCopy := by
  have hok : (matchedArgs.addDpus sampleRank sampleRank.dpus 0 ⟨samplePool, fun _ => false⟩).1 = .ok () := rfl
  have hx : matchedArgs.xfer ≠ .other := by decide
  exact fun _ _ _ => ⟨(samplePool_fresh.added hx).ok_iff.mp hok, rfl⟩

end DpuBackend.Api
