import Mathlib.Data.Nat.Bitwise
import Mathlib.Tactic.Common

/-
  Access to a symbol of the DPU program: from the checks of the API to the range the rank
  handler gets.

  C ↔ Lean (src/api/src/api/dpu_memory.c, src/api/src/dpu_memory.c, dpu_internals.h):
    struct dpu_symbol_t                               ↔ Symbol
    MEMORY_SWITCH                                     ↔ memorySwitch
    CHECK_SYMBOL                                      ↔ checkSymbol
    UPDATE_{MRAM,WRAM,IRAM}_COPY_PARAMETERS           ↔ updateCopyParameters
    dpu_push_xfer_symbol, dpu_broadcast_to_symbol     ↔ Request.job
    verify_{wram,iram,mram}_access                    ↔ verifyWramAccess, verifyIramAccess, ..
    dpu_copy_{to,from}_*_for_matrix, dpu_copy_*mrams  ↔ Job.range, kind `matrix`
    dpu_copy_to_{iram,wram}_for_rank                  ↔ Job.range, kind `rank`

  Widths are those of the source: addresses and offsets of 32 bits, `length` of 64, the
  job's fields of 32, the IRAM parameters of `dpu_copy_to_iram_for_rank` of 16. A `Range` is
  in exact integers, in the unit of its memory. `symbol_access_contained_iff` says for every
  request that is accepted when its range stays inside the symbol and the memory.
-/

namespace DpuBackend.Api

inductive DpuError where
  | dpuDisabled
  | invalidSymbolAccess
  | invalidIramAccess
  | invalidWramAccess
  | invalidMramAccess
  | invalidMemoryTransfer
  | sgTooManyBlocks
  | sgLengthMismatch
  | sgNotActivated
  | internal
  | system
deriving DecidableEq, Repr

structure Symbol where
  address : BitVec 32
  size : BitVec 32

inductive Memory where
  | iram
  | mram
  | wram
deriving DecidableEq, Repr

def iramMask : BitVec 32 := 0x80000000#32

def mramMask : BitVec 32 := 0x08000000#32

/-- `ALIGN_MASK(align)` -/
def alignMask (align : Nat) : BitVec 32 := ~~~((1#32 <<< align) - 1#32)

def iramAlign : Nat := 3

def wramAlign : Nat := 2

def memorySwitch (address : BitVec 32) : Memory :=
  if address &&& iramMask = iramMask then .iram
  else if address &&& mramMask = mramMask then .mram
  else .wram

/-- The alignment part of `CHECK_SYMBOL`. -/
def checkAlignment (align : Nat) (error : DpuError) (address : BitVec 32) (length : BitVec 64) : Except DpuError Unit :=
  if address &&& ~~~alignMask align ≠ 0#32 then .error error
  else if length &&& (~~~alignMask align).setWidth 64 ≠ 0#64 then .error error
  else .ok ()

def checkSymbol (symbol : Symbol) (symbolOffset : BitVec 32) (length : BitVec 64) : Except DpuError Unit :=
  let address := symbol.address + symbolOffset
  if symbolOffset.setWidth 64 + length > symbol.size.setWidth 64 then .error .invalidSymbolAccess
  else match memorySwitch address with
  | .iram => checkAlignment iramAlign .invalidIramAccess address length
  -- all alignments are allowed
  | .mram => .ok ()
  | .wram => checkAlignment wramAlign .invalidWramAccess address length

def updateCopyParameters (address : BitVec 32) (length : BitVec 64) : BitVec 32 × BitVec 64 :=
  match memorySwitch address with
  | .iram => ((address &&& ~~~iramMask) >>> iramAlign, length >>> iramAlign)
  | .mram => (address &&& ~~~mramMask, length)
  | .wram => (address >>> wramAlign, length >>> wramAlign)

/-! ## From the request to the job -/

inductive Xfer where
  | toDpu
  | fromDpu
  | other
deriving DecidableEq, Repr

/-- The calls: a transfer matrix or one buffer, for the ranks of a set or for one DPU. -/
inductive Call where
  | pushXferRanks (xfer : Xfer)
  | pushXferDpu (xfer : Xfer) (enabled : Bool)
  | broadcastRanks
  | broadcastDpu (enabled : Bool)
deriving DecidableEq, Repr

structure Request where
  call : Call
  symbol : Symbol
  symbolOffset : BitVec 32
  length : BitVec 64

inductive JobKind where
  | matrix
  | rank
deriving DecidableEq, Repr

/-- The type of a copy job and its fields. -/
structure Job where
  kind : JobKind
  memory : Memory
  address : BitVec 32
  length : BitVec 32

namespace Request

variable (r : Request)

/-- The request's address, in 32 bits. -/
def address : BitVec 32 := r.symbol.address + r.symbolOffset

/-- The job of a request that passes the checks, its length cut to 32 bits. -/
def checkedJob (kind : JobKind) (known : Bool) : Except DpuError Job :=
  match checkSymbol r.symbol r.symbolOffset r.length with
  | .error e => .error e
  | .ok _ =>
    if known then .ok
      { kind := kind
        memory := memorySwitch r.address
        address := (updateCopyParameters r.address r.length).1
        length := (updateCopyParameters r.address r.length).2.setWidth 32 }
    else .error .invalidMemoryTransfer

/-- `DPU_COPY_MATRIX_SET_JOB_TYPE` knows two directions. -/
def matrixJob (xfer : Xfer) : Except DpuError Job := r.checkedJob .matrix (xfer != .other)

/-- `dpu_copy_symbol_dpu` -/
def dpuJob (xfer : Xfer) (enabled : Bool) : Except DpuError Job :=
  if enabled then r.matrixJob xfer else .error .dpuDisabled

def job : Except DpuError Job :=
  match r.call with
  | .pushXferRanks xfer => r.matrixJob xfer
  | .pushXferDpu xfer enabled => r.dpuJob xfer enabled
  | .broadcastRanks => r.checkedJob .rank true
  | .broadcastDpu enabled => r.dpuJob .toDpu enabled

end Request

/-! ## From the job to the rank handler -/

/-- The sizes of the memories: instructions, words and bytes. -/
structure Memories where
  iramSize : BitVec 16
  wramSize : BitVec 32
  mramSize : BitVec 32

/-- What the rank handler is asked to access, in instructions, words or bytes. -/
structure Range where
  memory : Memory
  offset : Nat
  size : Nat
deriving DecidableEq, Repr

/-- `verify_wram_access`, and what it lets through. -/
def verifyWramAccess (o s : BitVec 32) (mem : Memories) : Except DpuError (Option Range) :=
  if s = 0#32 then .ok none
  else if o ≥ mem.wramSize ∨ o + s > mem.wramSize then .error .invalidWramAccess
  else .ok (some ⟨.wram, o.toNat, s.toNat⟩)

/-- `verify_iram_access` with 32-bit parameters. -/
def verifyIramAccess (o s : BitVec 32) (mem : Memories) : Except DpuError (Option Range) :=
  if s = 0#32 then .ok none
  else if o ≥ mem.iramSize.setWidth 32 ∨ o + s > mem.iramSize.setWidth 32 then .error .invalidIramAccess
  else .ok (some ⟨.iram, o.toNat, s.toNat⟩)

/-- `verify_iram_access` with 16-bit parameters, whose sum is an `int`. -/
def verifyIramAccess16 (o s : BitVec 16) (mem : Memories) : Except DpuError (Option Range) :=
  if s = 0#16 then .ok none
  else if o ≥ mem.iramSize ∨ o.toNat + s.toNat > mem.iramSize.toNat then .error .invalidIramAccess
  else .ok (some ⟨.iram, o.toNat, s.toNat⟩)

/-- `verify_mram_access_offset_and_size` -/
def verifyMramAccess (o s : BitVec 32) (mem : Memories) : Except DpuError (Option Range) :=
  if s % 8#32 ≠ 0#32 ∨ o % 8#32 ≠ 0#32 then .error .invalidMramAccess
  else if o ≥ mem.mramSize ∨ o + s > mem.mramSize then .error .invalidMramAccess
  else .ok (some ⟨.mram, o.toNat, s.toNat⟩)

/-- The range of a job; none where a size of 0 ends it early. -/
def Job.range (j : Job) (mem : Memories) : Except DpuError (Option Range) :=
  match j.memory, j.kind with
  | .iram, .matrix => verifyIramAccess j.address j.length mem
  | .iram, .rank => verifyIramAccess16 (j.address.setWidth 16) (j.length.setWidth 16) mem
  | .mram, _ => verifyMramAccess j.address j.length mem
  | .wram, _ => verifyWramAccess j.address j.length mem

/-- The range of an accepted request. -/
def Request.range (r : Request) (mem : Memories) : Except DpuError (Option Range) :=
  match r.job with
  | .error e => .error e
  | .ok j => j.range mem

/-! ## Containment -/

/-- The address of a memory's first byte in the symbols' address space. -/
def Memory.base : Memory → Nat
  | .iram => 2 ^ 31
  | .mram => 2 ^ 27
  | .wram => 0

/-- The bytes of an instruction, a byte of MRAM, a word. -/
def Memory.unit : Memory → Nat
  | .iram => 8
  | .mram => 1
  | .wram => 4

def Memories.sizeOf (mem : Memories) : Memory → Nat
  | .iram => mem.iramSize.toNat
  | .mram => mem.mramSize.toNat
  | .wram => mem.wramSize.toNat

/-- The bytes of the range are bytes of the symbol, and of the memory. -/
def Range.Contained (g : Range) (symbol : Symbol) (mem : Memories) : Prop :=
  symbol.address.toNat ≤ g.memory.base + g.memory.unit * g.offset
    ∧ g.memory.base + g.memory.unit * (g.offset + g.size) ≤ symbol.address.toNat + symbol.size.toNat
    ∧ g.offset + g.size ≤ mem.sizeOf g.memory

instance (g : Range) (symbol : Symbol) (mem : Memories) : Decidable (g.Contained symbol mem) :=
  inferInstanceAs (Decidable (_ ∧ _ ∧ _))

/-- No sum wraps, and 16 bits keep what they have to. -/
def Request.Exact (r : Request) : Prop :=
  r.symbol.address.toNat + r.symbolOffset.toNat < 2 ^ 32 ∧
    if r.call = .broadcastRanks ∧ memorySwitch r.address = .iram then
      let dropped := 2 ^ 19 * ((r.address.toNat - 2 ^ 31) / 2 ^ 19)
      dropped ≤ r.symbolOffset.toNat ∧ r.symbolOffset.toNat - dropped + r.length.toNat % 2 ^ 19 ≤ r.symbol.size.toNat
    else
      r.symbolOffset.toNat + r.length.toNat < 2 ^ 64 ∧
        (memorySwitch r.address = .mram → r.address.toNat - 2 ^ 27 + r.length.toNat < 2 ^ 32)

/-! ## The masks in exact integers -/

section Masks

variable (a : BitVec 32)

theorem and_iramMask : a &&& iramMask = iramMask ↔ 2 ^ 31 ≤ a.toNat := by
  have hpow : iramMask = BitVec.twoPow 32 31 := by decide
  have hbit : a.getLsbD 31 = decide (2 ^ 31 ≤ a.toNat) := BitVec.msb_eq_decide a
  rw [hpow, BitVec.and_twoPow, hbit]
  by_cases h : 2 ^ 31 ≤ a.toNat
  · rw [decide_eq_true h, if_pos rfl]
    exact iff_of_true rfl h
  · simp only [h, decide_false, Bool.false_eq_true, if_false, iff_false]
    decide

theorem and_mramMask : a &&& mramMask = mramMask ↔ 2 ^ 27 ≤ a.toNat % 2 ^ 28 := by
  have hpow : mramMask = BitVec.twoPow 32 27 := by decide
  have hbit : a.getLsbD 27 = decide (2 ^ 27 ≤ a.toNat % 2 ^ 28) := by
    rw [BitVec.getLsbD, Nat.testBit_eq_decide_div_mod_eq, decide_eq_decide]
    omega
  rw [hpow, BitVec.and_twoPow, hbit]
  by_cases h : 2 ^ 27 ≤ a.toNat % 2 ^ 28
  · rw [decide_eq_true h, if_pos rfl]
    exact iff_of_true rfl h
  · simp only [h, decide_false, Bool.false_eq_true, if_false, iff_false]
    decide

variable {a}

/-- A mask that is set in the address is taken off it. -/
theorem toNat_and_not {mask : BitVec 32} (h : a &&& mask = mask) : (a &&& ~~~mask).toNat = a.toNat - mask.toNat := by
  have hdisjoint : (a &&& ~~~mask) &&& mask = 0#32 := by
    rw [BitVec.and_assoc, BitVec.and_comm (~~~mask), BitVec.and_not_self]
    exact BitVec.and_zero
  have hsum : (a &&& ~~~mask) + mask = a := by
    rw [BitVec.add_eq_or_of_and_eq_zero _ _ hdisjoint]
    nth_rewrite 2 [← h]
    rw [← BitVec.and_or_distrib_left, BitVec.or_comm, BitVec.or_not_self, BitVec.and_allOnes]
  have hnat := BitVec.toNat_add_of_and_eq_zero hdisjoint
  rw [hsum] at hnat
  omega

/-- The low bits are clear exactly when the power of two divides. -/
theorem and_low_eq_zero {w n : Nat} {x mask : BitVec w} (hmask : mask.toNat = 2 ^ n - 1) :
    x &&& mask = 0#w ↔ x.toNat % 2 ^ n = 0 := by
  rw [← BitVec.toNat_inj, BitVec.toNat_and, hmask, Nat.and_two_pow_sub_one_eq_mod]
  simp

theorem memorySwitch_iram : memorySwitch a = .iram ↔ 2 ^ 31 ≤ a.toNat := by
  rw [memorySwitch, ← and_iramMask]
  split
  · simp [*]
  · split <;> simp [*]

theorem memorySwitch_mram : memorySwitch a = .mram ↔ a.toNat < 2 ^ 31 ∧ 2 ^ 27 ≤ a.toNat % 2 ^ 28 := by
  rw [memorySwitch, ← and_mramMask, ← Nat.not_le, ← and_iramMask]
  split
  · simp [*]
  · split <;> simp [*]

end Masks

/-! ## What the checks let through -/

theorem checkAlignment_ok {align : Nat} {error : DpuError} {address : BitVec 32} {length : BitVec 64}
    (hmask : (~~~alignMask align).toNat = 2 ^ align - 1) (h : checkAlignment align error address length = .ok ()) :
    address.toNat % 2 ^ align = 0 ∧ length.toNat % 2 ^ align = 0 := by
  have hwide : ((~~~alignMask align).setWidth 64).toNat = 2 ^ align - 1 := by
    rw [BitVec.toNat_setWidth, ← hmask]
    exact Nat.mod_eq_of_lt (Nat.lt_trans (~~~alignMask align).isLt (by decide))
  rw [← and_low_eq_zero hmask, ← and_low_eq_zero hwide]
  simpa [checkAlignment, ite_eq_iff] using h

/-- An accepted request: the sum as the macro forms it, and the alignment of the memory. -/
structure Request.Checked (r : Request) : Prop where
  size : (r.symbolOffset.toNat + r.length.toNat) % 2 ^ 64 ≤ r.symbol.size.toNat
  iram : memorySwitch r.address = .iram → r.address.toNat % 8 = 0 ∧ r.length.toNat % 8 = 0
  wram : memorySwitch r.address = .wram → r.address.toNat % 4 = 0 ∧ r.length.toNat % 4 = 0

theorem Request.checked {r : Request} (h : checkSymbol r.symbol r.symbolOffset r.length = .ok ()) : r.Checked := by
  unfold checkSymbol at h
  split at h
  · cases h
  · rename_i hsize
    have hoff : r.symbolOffset.toNat < 2 ^ 32 := r.symbolOffset.isLt
    have hsz : r.symbol.size.toNat < 2 ^ 32 := r.symbol.size.isLt
    refine ⟨?_, ?_, ?_⟩
    · rw [gt_iff_lt, BitVec.lt_def, BitVec.toNat_add, BitVec.toNat_setWidth, BitVec.toNat_setWidth] at hsize
      omega
    · intro hmem
      rw [Request.address] at hmem
      simp only [hmem] at h
      exact checkAlignment_ok (by decide) h
    · intro hmem
      rw [Request.address] at hmem
      simp only [hmem] at h
      exact checkAlignment_ok (by decide) h

/-- The kind of job a call makes. -/
def Call.jobKind : Call → JobKind
  | .broadcastRanks => .rank
  | _ => .matrix

theorem Request.checkedJob_ok {r : Request} {kind : JobKind} {known : Bool} {j : Job}
    (h : r.checkedJob kind known = .ok j) :
    r.Checked ∧ j =
      { kind := kind
        memory := memorySwitch r.address
        address := (updateCopyParameters r.address r.length).1
        length := (updateCopyParameters r.address r.length).2.setWidth 32 } := by
  unfold Request.checkedJob at h
  split at h
  · cases h
  · rename_i hchecked
    cases known with
    | false => cases h
    | true => exact ⟨Request.checked hchecked, (Except.ok.inj h).symm⟩

theorem Request.job_ok {r : Request} {j : Job} (h : r.job = .ok j) :
    r.Checked ∧ j =
      { kind := r.call.jobKind
        memory := memorySwitch r.address
        address := (updateCopyParameters r.address r.length).1
        length := (updateCopyParameters r.address r.length).2.setWidth 32 } := by
  have hdpu : ∀ {xfer enabled}, r.dpuJob xfer enabled = .ok j → r.matrixJob xfer = .ok j := by
    intro xfer enabled hj
    cases enabled with
    | false => cases hj
    | true => exact hj
  unfold Request.job at h
  cases hcall : r.call with
  | pushXferRanks xfer => rw [hcall] at h; exact Request.checkedJob_ok h
  | pushXferDpu xfer enabled => rw [hcall] at h; exact Request.checkedJob_ok (hdpu h)
  | broadcastRanks => rw [hcall] at h; exact Request.checkedJob_ok h
  | broadcastDpu enabled => rw [hcall] at h; exact Request.checkedJob_ok (hdpu h)

/-! ## What the lower checks let through -/

variable {mem : Memories} {g : Range}

theorem verifyWramAccess_ok {o s : BitVec 32} (h : verifyWramAccess o s mem = .ok (some g)) :
    g = ⟨.wram, o.toNat, s.toNat⟩ ∧ s.toNat ≠ 0
      ∧ o.toNat < mem.wramSize.toNat ∧ (o.toNat + s.toNat) % 2 ^ 32 ≤ mem.wramSize.toNat := by
  unfold verifyWramAccess at h
  split at h
  · cases h
  · rename_i hzero
    split at h
    · cases h
    · rename_i hin
      rw [not_or, ge_iff_le, gt_iff_lt, BitVec.not_le, BitVec.not_lt, BitVec.lt_def, BitVec.le_def,
        BitVec.toNat_add] at hin
      exact ⟨by cases h; rfl, fun h0 => hzero (BitVec.eq_of_toNat_eq h0), hin⟩

theorem verifyIramAccess_ok {o s : BitVec 32} (h : verifyIramAccess o s mem = .ok (some g)) :
    g = ⟨.iram, o.toNat, s.toNat⟩ ∧ s.toNat ≠ 0
      ∧ o.toNat < mem.iramSize.toNat ∧ (o.toNat + s.toNat) % 2 ^ 32 ≤ mem.iramSize.toNat := by
  have hsize : (mem.iramSize.setWidth 32).toNat = mem.iramSize.toNat := by
    rw [BitVec.toNat_setWidth]
    exact Nat.mod_eq_of_lt (Nat.lt_trans mem.iramSize.isLt (by decide))
  unfold verifyIramAccess at h
  split at h
  · cases h
  · rename_i hzero
    split at h
    · cases h
    · rename_i hin
      rw [not_or, ge_iff_le, gt_iff_lt, BitVec.not_le, BitVec.not_lt, BitVec.lt_def, BitVec.le_def,
        BitVec.toNat_add, hsize] at hin
      exact ⟨by cases h; rfl, fun h0 => hzero (BitVec.eq_of_toNat_eq h0), hin⟩

theorem verifyIramAccess16_ok {o s : BitVec 16} (h : verifyIramAccess16 o s mem = .ok (some g)) :
    g = ⟨.iram, o.toNat, s.toNat⟩ ∧ s.toNat ≠ 0
      ∧ o.toNat < mem.iramSize.toNat ∧ o.toNat + s.toNat ≤ mem.iramSize.toNat := by
  unfold verifyIramAccess16 at h
  split at h
  · cases h
  · rename_i hzero
    split at h
    · cases h
    · rename_i hin
      rw [not_or, ge_iff_le, gt_iff_lt, BitVec.not_le, BitVec.lt_def, Nat.not_lt] at hin
      exact ⟨by cases h; rfl, fun h0 => hzero (BitVec.eq_of_toNat_eq h0), hin⟩

theorem verifyMramAccess_ok {o s : BitVec 32} (h : verifyMramAccess o s mem = .ok (some g)) :
    g = ⟨.mram, o.toNat, s.toNat⟩
      ∧ o.toNat < mem.mramSize.toNat ∧ (o.toNat + s.toNat) % 2 ^ 32 ≤ mem.mramSize.toNat := by
  unfold verifyMramAccess at h
  split at h
  · cases h
  · split at h
    · cases h
    · rename_i hin
      rw [not_or, ge_iff_le, gt_iff_lt, BitVec.not_le, BitVec.not_lt, BitVec.lt_def, BitVec.le_def,
        BitVec.toNat_add] at hin
      exact ⟨by cases h; rfl, hin⟩

/-! ## Symbol containment -/

theorem Request.address_toNat (r : Request) :
    r.address.toNat = (r.symbol.address.toNat + r.symbolOffset.toNat) % 2 ^ 32 := by
  rw [Request.address, BitVec.toNat_add]

/-- The parameters of a copy in exact integers. -/
theorem updateCopyParameters_iram {a : BitVec 32} (length : BitVec 64) (h : memorySwitch a = .iram) :
    (updateCopyParameters a length).1.toNat = (a.toNat - 2 ^ 31) / 8
      ∧ (updateCopyParameters a length).2.toNat = length.toNat / 8 := by
  have hmask := toNat_and_not (and_iramMask a |>.mpr (memorySwitch_iram.mp h))
  simp only [updateCopyParameters, h, BitVec.toNat_ushiftRight, hmask, Nat.shiftRight_eq_div_pow, iramAlign]
  exact ⟨rfl, trivial⟩

theorem updateCopyParameters_mram {a : BitVec 32} (length : BitVec 64) (h : memorySwitch a = .mram) :
    (updateCopyParameters a length).1.toNat = a.toNat - 2 ^ 27 ∧ (updateCopyParameters a length).2 = length := by
  have hmask := toNat_and_not (and_mramMask a |>.mpr (memorySwitch_mram.mp h).2)
  simp only [updateCopyParameters, h, hmask]
  exact ⟨rfl, trivial⟩

theorem updateCopyParameters_wram {a : BitVec 32} (length : BitVec 64) (h : memorySwitch a = .wram) :
    (updateCopyParameters a length).1.toNat = a.toNat / 4
      ∧ (updateCopyParameters a length).2.toNat = length.toNat / 4 := by
  simp only [updateCopyParameters, h, BitVec.toNat_ushiftRight, Nat.shiftRight_eq_div_pow, wramAlign]
  exact ⟨trivial, trivial⟩

section Containment

variable {r : Request}

theorem contained_mk (m : Memory) (o s : Nat) (symbol : Symbol) : (Range.mk m o s).Contained symbol mem ↔
    symbol.address.toNat ≤ m.base + m.unit * o ∧ m.base + m.unit * (o + s) ≤ symbol.address.toNat + symbol.size.toNat
      ∧ o + s ≤ mem.sizeOf m :=
  Iff.rfl

/-- Words: a sum that wraps leaves a size of about `2 ^ 32` bytes. -/
theorem contained_wram (hchecked : r.Checked) (hmem : memorySwitch r.address = .wram)
    (h : verifyWramAccess (updateCopyParameters r.address r.length).1
      ((updateCopyParameters r.address r.length).2.setWidth 32) mem = .ok (some g)) :
    g.Contained r.symbol mem ↔ r.symbol.address.toNat + r.symbolOffset.toNat < 2 ^ 32
      ∧ r.symbolOffset.toNat + r.length.toNat < 2 ^ 64 := by
  obtain ⟨rfl, hsize, hlow, hhigh⟩ := verifyWramAccess_ok h
  obtain ⟨hoffset, hlength⟩ := updateCopyParameters_wram r.length hmem
  have haligned := hchecked.wram hmem
  have hchecked := hchecked.size
  have haddress := r.address_toNat
  rw [BitVec.toNat_setWidth, hlength] at hsize hhigh
  rw [hoffset] at hlow hhigh
  rw [contained_mk, BitVec.toNat_setWidth, hlength, hoffset]
  simp only [Memory.base, Memory.unit, Memories.sizeOf]
  have := r.symbol.address.isLt
  have := r.symbol.size.isLt
  have := r.symbolOffset.isLt
  have := r.length.isLt
  omega

/-- Instructions, in a matrix. -/
theorem contained_iram (hchecked : r.Checked) (hmem : memorySwitch r.address = .iram)
    (h : verifyIramAccess (updateCopyParameters r.address r.length).1
      ((updateCopyParameters r.address r.length).2.setWidth 32) mem = .ok (some g)) :
    g.Contained r.symbol mem ↔ r.symbol.address.toNat + r.symbolOffset.toNat < 2 ^ 32
      ∧ r.symbolOffset.toNat + r.length.toNat < 2 ^ 64 := by
  obtain ⟨rfl, hsize, hlow, hhigh⟩ := verifyIramAccess_ok h
  obtain ⟨hoffset, hlength⟩ := updateCopyParameters_iram r.length hmem
  have haligned := hchecked.iram hmem
  have hbase := memorySwitch_iram.mp hmem
  have hchecked := hchecked.size
  have haddress := r.address_toNat
  rw [BitVec.toNat_setWidth, hlength] at hsize hhigh
  rw [hoffset] at hlow hhigh
  rw [contained_mk, BitVec.toNat_setWidth, hlength, hoffset]
  simp only [Memory.base, Memory.unit, Memories.sizeOf]
  have := r.symbol.address.isLt
  have := r.symbol.size.isLt
  have := r.symbolOffset.isLt
  have := r.length.isLt
  omega

/-- Instructions, for a rank: 16 bits of the index and of the count reach the check. -/
theorem contained_iram16 (hchecked : r.Checked) (hmem : memorySwitch r.address = .iram)
    (h : verifyIramAccess16 ((updateCopyParameters r.address r.length).1.setWidth 16)
      (((updateCopyParameters r.address r.length).2.setWidth 32).setWidth 16) mem = .ok (some g)) :
    g.Contained r.symbol mem ↔ r.symbol.address.toNat + r.symbolOffset.toNat < 2 ^ 32
      ∧ 2 ^ 19 * ((r.address.toNat - 2 ^ 31) / 2 ^ 19) ≤ r.symbolOffset.toNat
      ∧ r.symbolOffset.toNat - 2 ^ 19 * ((r.address.toNat - 2 ^ 31) / 2 ^ 19) + r.length.toNat % 2 ^ 19
        ≤ r.symbol.size.toNat := by
  obtain ⟨rfl, hsize, hlow, hhigh⟩ := verifyIramAccess16_ok h
  obtain ⟨hoffset, hlength⟩ := updateCopyParameters_iram r.length hmem
  have haligned := hchecked.iram hmem
  have hbase := memorySwitch_iram.mp hmem
  have haddress := r.address_toNat
  rw [BitVec.toNat_setWidth, hoffset] at hlow hhigh
  rw [BitVec.toNat_setWidth, BitVec.toNat_setWidth, hlength] at hhigh
  rw [contained_mk, BitVec.toNat_setWidth, BitVec.toNat_setWidth, BitVec.toNat_setWidth, hlength, hoffset]
  simp only [Memory.base, Memory.unit, Memories.sizeOf]
  have := r.symbol.address.isLt
  have := r.symbol.size.isLt
  have := r.symbolOffset.isLt
  have := r.length.isLt
  omega

/-- Bytes of MRAM: the length cut to 32 bits has to be the length. -/
theorem contained_mram (hchecked : r.Checked) (hmem : memorySwitch r.address = .mram)
    (h : verifyMramAccess (updateCopyParameters r.address r.length).1
      ((updateCopyParameters r.address r.length).2.setWidth 32) mem = .ok (some g)) :
    g.Contained r.symbol mem ↔ r.symbol.address.toNat + r.symbolOffset.toNat < 2 ^ 32
      ∧ r.symbolOffset.toNat + r.length.toNat < 2 ^ 64 ∧ r.address.toNat - 2 ^ 27 + r.length.toNat < 2 ^ 32 := by
  obtain ⟨rfl, hlow, hhigh⟩ := verifyMramAccess_ok h
  obtain ⟨hoffset, hlength⟩ := updateCopyParameters_mram r.length hmem
  have hbase := (memorySwitch_mram.mp hmem).2
  have hchecked := hchecked.size
  have haddress := r.address_toNat
  rw [hlength, BitVec.toNat_setWidth, hoffset] at hhigh
  rw [hoffset] at hlow
  rw [contained_mk, hlength, BitVec.toNat_setWidth, hoffset]
  simp only [Memory.base, Memory.unit, Memories.sizeOf]
  have := mem.mramSize.isLt
  have := r.symbol.address.isLt
  have := r.symbol.size.isLt
  have := r.symbolOffset.isLt
  have := r.length.isLt
  omega

end Containment

theorem jobKind_rank_iff (call : Call) : call.jobKind = .rank ↔ call = .broadcastRanks := by
  cases call <;> simp [Call.jobKind]

/-- An accepted range is inside the symbol and its memory exactly when the request is exact. -/
theorem symbol_access_contained_iff {r : Request} (h : r.range mem = .ok (some g)) :
    g.Contained r.symbol mem ↔ r.Exact := by
  unfold Request.range at h
  split at h
  · cases h
  · rename_i j hj
    obtain ⟨hchecked, rfl⟩ := Request.job_ok hj
    rw [Request.Exact]
    cases hmem : memorySwitch r.address with
    | iram =>
      cases hkind : r.call.jobKind with
      | matrix =>
        -- every call but one: 32 bits
        have hcall : r.call ≠ .broadcastRanks := fun hc => by simp [← jobKind_rank_iff, hkind] at hc
        simp only [Job.range, hmem, hkind] at h
        simp [contained_iram hchecked hmem h, hcall]
      | rank =>
        have hcall := (jobKind_rank_iff _).mp hkind
        simp only [Job.range, hmem, hkind] at h
        rw [contained_iram16 hchecked hmem h, if_pos ⟨hcall, rfl⟩]
    | mram =>
      simp only [Job.range, hmem] at h
      simp [contained_mram hchecked hmem h]
    | wram =>
      simp only [Job.range, hmem] at h
      simp [contained_wram hchecked hmem h]

/-- 64 bytes of MRAM, of a symbol of 128 at `0x08000000`. -/
def mramRequest (symbolOffset : BitVec 32) (length : BitVec 64) : Request where
  call := .pushXferRanks .toDpu
  symbol := ⟨0x08000000#32, 128#32⟩
  symbolOffset := symbolOffset
  length := length

/-- The sizes of the memories of a DPU. -/
def dpuMemories : Memories := ⟨4096#16, 16384#32, 0x04000000#32⟩

theorem symbol_access_contained_sample :
    (mramRequest 16#32 64#64).range dpuMemories = .ok (some ⟨.mram, 16, 64⟩)
      ∧ (Range.Contained ⟨.mram, 16, 64⟩ (mramRequest 16#32 64#64).symbol dpuMemories
        ↔ (mramRequest 16#32 64#64).Exact) :=
  ⟨by decide, symbol_access_contained_iff (by decide)⟩

/-- `8 + (2 ^ 64 - 8)` is 0 in 64 bits, and so is `8 + (2 ^ 32 - 8)` in 32: both checks pass. -/
theorem wrapped_length_escapes :
    (mramRequest 8#32 (-8#64)).range dpuMemories = .ok (some ⟨.mram, 8, 4294967288⟩)
      ∧ ¬ Range.Contained ⟨.mram, 8, 4294967288⟩ (mramRequest 8#32 (-8#64)).symbol dpuMemories := by
  decide

end DpuBackend.Api
