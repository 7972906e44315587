import Mathlib.Tactic.IntervalCases
import DpuBackend.Ufi.FramedCalls

/-
  What the memory frames of a control interface say to the DPUs it has selected.

  The words are built by the macros of `ufi_ci_commands.h`; the address of a WRAM word is
  spread over the operands of a store, part of which is in the structure. `writeOf` and
  `readOf` read a frame back under the structure register, and the round trips below say
  that every word the host builds is read as it was meant.

  Correspondence (C ↔ Lean):
    `CI_IRAM_WRITE_INSTRUCTION_{STRUCT,FRAME}`   ↔ `MemKind.writeStruct`, `MemKind.writeFrame` of `iram`
    `CI_WRAM_WRITE_WORD_{STRUCT,FRAME}`          ↔ the same of `wram`
    `CI_IRAM_READ_BYTE<k>_FRAME`                 ↔ `readOf`, `MemRead.instructionByte`
    `CI_WRAM_READ_WORD_FRAME`                    ↔ `readOf`, `MemRead.word`
-/

namespace DpuBackend.Ufi

/-- The memories that are reached through the control interface. -/
inductive MemKind where
  | iram
  | wram
deriving DecidableEq, Repr

namespace MemKind

/-- The bits of an element. -/
def width : MemKind → Nat
  | iram => 48
  | wram => 32

/-- What a memory keeps of a host element. -/
def cut (kind : MemKind) (w : Word) : Word := (w.setWidth kind.width).setWidth 64

def writeStruct : MemKind → Word → Word
  | iram => iramWriteInstructionStruct
  | wram => wramWriteWordStruct

def writeFrame : MemKind → Word → Word → Word
  | iram => iramWriteInstructionFrame
  | wram => wramWriteWordFrame

end MemKind

/-- The memory, the address and the element of a write. -/
structure MemWrite where
  kind : MemKind
  address : BitVec 16
  value : Word
deriving DecidableEq

inductive MemRead where
  | instructionByte (byte : Nat) (address : BitVec 16)
  | word (address : BitVec 16)
deriving DecidableEq

/-! ## Reading the words back -/

/-- A number of sixteen bits, the lowest first. -/
def gatherBits (bits : List Bool) : BitVec 16 := (BitVec.ofBoolListLE bits).setWidth 16

def iramWriteAddress (struct frame : Word) : BitVec 16 :=
  ((byteOf struct 2) <<< 8 ||| byteOf frame 6).setWidth 16

/-- An instruction from its bytes. -/
def instructionOf (b₀ b₁ b₂ b₃ b₄ b₅ : Word) : Word :=
  b₀ ||| b₁ <<< 8 ||| b₂ <<< 16 ||| b₃ <<< 24 ||| b₄ <<< 32 ||| b₅ <<< 40

/-- The store of `CI_WRAM_WRITE_WORD`: the structure carries its bytes 0, 1 and 3. -/
def storeInstruction (struct frame : Word) : Word :=
  instructionOf (byteOf struct 2) (byteOf struct 3) (byteOf frame 4) (byteOf struct 4) (byteOf frame 6) (byteOf frame 5)

/-- The load of `CI_WRAM_READ_WORD`. -/
def loadInstruction (frame : Word) : Word :=
  instructionOf (byteOf frame 3) (byteOf frame 4) (byteOf frame 0) (byteOf frame 5) (byteOf frame 2) (byteOf frame 1)

/-- The places of the word address among the operands of a store. -/
def storeAddress (instruction : Word) : BitVec 16 :=
  gatherBits ([22, 23, 39, 40, 41, 24, 15, 14, 13, 12, 0, 1, 2, 3, 4, 5].map instruction.getLsbD)

def loadAddress (instruction : Word) : BitVec 16 :=
  gatherBits ([22, 23, 16, 17, 18, 19, 15, 14, 13, 12, 0, 1, 2, 3, 4, 5].map instruction.getLsbD)

def wramWriteAddress (struct frame : Word) : BitVec 16 := storeAddress (storeInstruction struct frame)

def wramReadAddress (frame : Word) : BitVec 16 := loadAddress (loadInstruction frame)

def MemKind.writeAddress : MemKind → Word → Word → BitVec 16
  | .iram => iramWriteAddress
  | .wram => wramWriteAddress

/-- The frame is a write of `kind`, whose own words it is compared with. -/
def MemKind.recognises (kind : MemKind) (struct frame : Word) : Bool :=
  let address := (kind.writeAddress struct frame).setWidth 64
  decide (struct = kind.writeStruct address ∧ frame = kind.writeFrame (kind.cut frame) address)

/-- What the DPUs selected write when `frame` comes under the structure `struct`. -/
def writeOf (struct frame : Word) : Option MemWrite :=
  if MemKind.iram.recognises struct frame then some ⟨.iram, iramWriteAddress struct frame, MemKind.iram.cut frame⟩
  else if MemKind.wram.recognises struct frame then some ⟨.wram, wramWriteAddress struct frame, MemKind.wram.cut frame⟩
  else none

/-- What a DPU answers to it. -/
def readOf (struct frame : Word) : Option MemRead :=
  if struct = iramReadStruct then some (.instructionByte ((byteOf frame 2).toNat - 0x40) (frame.setWidth 16))
  else if struct = instructionStruct ∧ frame = wramReadWordFrame ((wramReadAddress frame).setWidth 64) then
    some (.word (wramReadAddress frame))
  else none

/-! ## Round trips -/

section RoundTrips

theorem gatherBits_bit (bits : List Bool) {i : Nat} (h : i < 16) : (gatherBits bits).getLsbD i = bits.getD i false := by
  simp [gatherBits, h]

theorem byteOf_bit (w : Word) (k i : Nat) : (byteOf w k).getLsbD i = (decide (i < 8) && w.getLsbD (k * 8 + i)) := by
  have hmask : (0xFF#64).getLsbD i = decide (i < 8) := by
    have hpow : (0xFF#64) = BitVec.ofNat 64 (2 ^ 8 - 1) := rfl
    rw [hpow, BitVec.getLsbD_ofNat, Nat.testBit_two_pow_sub_one]
    by_cases h : i < 8
    · simp [h, show i < 64 by omega]
    · simp [h]
  rw [byteOf, BitVec.getLsbD_and, BitVec.getLsbD_ushiftRight, hmask, Bool.and_comm]

/-- Words that agree on a byte agree on its bits. -/
theorem bit_of_byte {w w' : Word} {i : Nat} (h : byteOf w (i / 8) = byteOf w' (i / 8)) : w.getLsbD i = w'.getLsbD i := by
  have hbit := congrArg (·.getLsbD (i % 8)) h
  simp only [byteOf_bit, decide_eq_true (Nat.mod_lt i (by decide : 0 < 8)), Bool.true_and] at hbit
  rwa [Nat.div_add_mod' i 8] at hbit

section Bytes

variable {b b₀ b₁ b₂ b₃ b₄ b₅ b₆ : Word}

/-- A byte that is shifted to its place shows nowhere else. -/
theorem shifted_bit (h : IsByte b) (m : Nat) {k j : Nat} (hk : k < 8) (hj : j < 8) :
    (b <<< (m * 8)).getLsbD (k * 8 + j) = (decide (k = m) && b.getLsbD j) := by
  rw [BitVec.getLsbD_shiftLeft, decide_eq_true (by omega : k * 8 + j < 64), Bool.true_and]
  obtain hlt | heq | hgt := Nat.lt_trichotomy k m
  · simp [show k ≠ m by omega, show k * 8 + j < m * 8 by omega]
  · subst heq
    simp
  · rw [h.bit (by omega), decide_eq_false (by omega : k ≠ m)]
    simp

/-- The bytes of a word that is put together from bytes. -/
theorem byteOf_bytes {type : Word} {k : Nat} (htype : byteOf type k = 0) (h₀ : IsByte b₀) (h₁ : IsByte b₁) (h₂ : IsByte b₂)
    (h₃ : IsByte b₃) (h₄ : IsByte b₄) (h₅ : IsByte b₅) (h₆ : IsByte b₆) (hk : k < 7) :
    byteOf (type ||| b₀ <<< (0 * 8) ||| b₁ <<< (1 * 8) ||| b₂ <<< (2 * 8) ||| b₃ <<< (3 * 8) ||| b₄ <<< (4 * 8)
      ||| b₅ <<< (5 * 8) ||| b₆ <<< (6 * 8)) k = [b₀, b₁, b₂, b₃, b₄, b₅, b₆].getD k 0 := by
  have hbyte : IsByte ([b₀, b₁, b₂, b₃, b₄, b₅, b₆].getD k 0) := by
    interval_cases k <;> assumption
  apply BitVec.eq_of_getLsbD_eq
  intro j _
  rw [byteOf_bit]
  by_cases hj : j < 8
  · have hk8 : k < 8 := by omega
    have hclear : type.getLsbD (k * 8 + j) = false := by
      have hbit := congrArg (·.getLsbD j) htype
      simpa [byteOf_bit, hj] using hbit
    simp only [BitVec.getLsbD_or, hclear, shifted_bit h₀ 0 hk8 hj, shifted_bit h₁ 1 hk8 hj, shifted_bit h₂ 2 hk8 hj,
      shifted_bit h₃ 3 hk8 hj, shifted_bit h₄ 4 hk8 hj, shifted_bit h₅ 5 hk8 hj, shifted_bit h₆ 6 hk8 hj]
    interval_cases k <;> simp [hj]
  · rw [decide_eq_false hj, Bool.false_and, hbyte.bit (by omega)]

theorem byteOf_frameWord (h₀ : IsByte b₀) (h₁ : IsByte b₁) (h₂ : IsByte b₂) (h₃ : IsByte b₃) (h₄ : IsByte b₄)
    (h₅ : IsByte b₅) (h₆ : IsByte b₆) {k : Nat} (hk : k < 7) :
    byteOf (frameWord b₀ b₁ b₂ b₃ b₄ b₅ b₆) k = [b₀, b₁, b₂, b₃, b₄, b₅, b₆].getD k 0 := by
  have htype : ∀ k < 7, byteOf 0x3300000000000000#64 k = 0 := by decide
  rw [← byteOf_bytes (htype k hk) h₀ h₁ h₂ h₃ h₄ h₅ h₆ hk, Nat.zero_mul, BitVec.shiftLeft_zero]
  rfl

theorem byteOf_structWord (h₀ : IsByte b₀) (h₁ : IsByte b₁) (h₂ : IsByte b₂) (h₃ : IsByte b₃) (h₄ : IsByte b₄)
    (h₅ : IsByte b₅) {k : Nat} (hk : k < 6) :
    byteOf (structWord b₀ b₁ b₂ b₃ b₄ b₅) k = [b₀, b₁, b₂, b₃, b₄, b₅, 0#64].getD k 0 := by
  have htype : ∀ k < 6, byteOf 0x1100000000000000#64 k = 0 := by decide
  have hlast : 0#64 <<< (6 * 8) = 0#64 := by decide
  rw [← byteOf_bytes (htype k hk) h₀ h₁ h₂ h₃ h₄ h₅ (by decide) (by omega), hlast, BitVec.or_zero, Nat.zero_mul,
    BitVec.shiftLeft_zero]
  rfl

theorem byteOf_instructionOf (h₀ : IsByte b₀) (h₁ : IsByte b₁) (h₂ : IsByte b₂) (h₃ : IsByte b₃) (h₄ : IsByte b₄)
    (h₅ : IsByte b₅) {k : Nat} (hk : k < 6) :
    byteOf (instructionOf b₀ b₁ b₂ b₃ b₄ b₅) k = [b₀, b₁, b₂, b₃, b₄, b₅, 0#64].getD k 0 := by
  have hempty : ∀ k < 6, byteOf 0#64 k = 0 := by decide
  have hlast : 0#64 <<< (6 * 8) = 0#64 := by decide
  rw [← byteOf_bytes (hempty k hk) h₀ h₁ h₂ h₃ h₄ h₅ (by decide) (by omega), hlast, BitVec.or_zero, Nat.zero_mul,
    BitVec.shiftLeft_zero, BitVec.zero_or]
  rfl

end Bytes

variable (a : BitVec 16) (w : Word)

/-- A frame gives the element back. -/
theorem MemKind.byteOf_writeFrame (kind : MemKind) (address : Word) {k : Nat} (hk : k * 8 < kind.width) :
    byteOf (kind.writeFrame w address) k = byteOf w k := by
  have hbyte := isByte_byteOf
  cases kind with
  | iram =>
    have hk6 : k < 6 := by
      simp only [MemKind.width] at hk
      omega
    show byteOf (frameWord _ _ _ _ _ _ _) k = _
    rw [byteOf_frameWord (hbyte _ _) (hbyte _ _) (hbyte _ _) (hbyte _ _) (hbyte _ _) (hbyte _ _) (hbyte _ _) (by omega)]
    interval_cases k <;> rfl
  | wram =>
    have hk4 : k < 4 := by
      simp only [MemKind.width] at hk
      omega
    show byteOf (frameWord _ _ _ _ _ _ _) k = _
    rw [byteOf_frameWord (hbyte _ _) (hbyte _ _) (hbyte _ _) (hbyte _ _) (hbyte _ _) (hbyte _ _) (hbyte _ _) (by omega)]
    interval_cases k <;> rfl

theorem MemKind.cut_bit (kind : MemKind) (i : Nat) : (kind.cut w).getLsbD i = (decide (i < kind.width) && w.getLsbD i) := by
  have hwidth : kind.width ≤ 64 := by cases kind <;> decide
  rw [MemKind.cut, BitVec.getLsbD_setWidth, BitVec.getLsbD_setWidth]
  by_cases h : i < kind.width
  · simp [h, show i < 64 by omega]
  · simp [h]

theorem MemKind.cut_writeFrame (kind : MemKind) (address : Word) : kind.cut (kind.writeFrame w address) = kind.cut w := by
  apply BitVec.eq_of_getLsbD_eq
  intro i _
  rw [kind.cut_bit, kind.cut_bit]
  by_cases h : i < kind.width
  · rw [bit_of_byte (kind.byteOf_writeFrame w address (by omega))]
  · rw [decide_eq_false h, Bool.false_and, Bool.false_and]

theorem MemKind.byteOf_cut (kind : MemKind) {k : Nat} (hk : k * 8 < kind.width) : byteOf (kind.cut w) k = byteOf w k := by
  have hwhole : kind.width % 8 = 0 := by cases kind <;> decide
  apply BitVec.eq_of_getLsbD_eq
  intro j _
  rw [byteOf_bit, byteOf_bit, kind.cut_bit]
  by_cases hj : j < 8
  · rw [decide_eq_true (by omega : k * 8 + j < kind.width), Bool.true_and]
  · rw [decide_eq_false hj, Bool.false_and, Bool.false_and]

/-- A byte that a memory does not keep. -/
theorem MemKind.byteOf_cut_high (kind : MemKind) {k : Nat} (hk : kind.width ≤ k * 8) : byteOf (kind.cut w) k = 0 := by
  apply BitVec.eq_of_getLsbD_eq
  intro j _
  rw [byteOf_bit, kind.cut_bit, decide_eq_false (by omega : ¬k * 8 + j < kind.width), Bool.false_and, Bool.and_false]
  simp

/-- The bits that a memory does not keep are not in the frame. -/
theorem MemKind.writeFrame_cut (kind : MemKind) (address : Word) :
    kind.writeFrame (kind.cut w) address = kind.writeFrame w address := by
  have hcut : ∀ k, k * 8 < kind.width → byteOf (kind.cut w) k = byteOf w k := fun k hk => kind.byteOf_cut w hk
  cases kind with
  | iram =>
    simp only [MemKind.writeFrame, iramWriteInstructionFrame, hcut 0 (by decide), hcut 1 (by decide), hcut 2 (by decide),
      hcut 3 (by decide), hcut 4 (by decide), hcut 5 (by decide)]
  | wram =>
    simp only [MemKind.writeFrame, wramWriteWordFrame, hcut 0 (by decide), hcut 1 (by decide), hcut 2 (by decide),
      hcut 3 (by decide)]

/-- An instruction is put together again from its bytes. -/
theorem instructionOf_bit {i : Nat} (hi : i < 48) :
    (instructionOf (byteOf w 0) (byteOf w 1) (byteOf w 2) (byteOf w 3) (byteOf w 4) (byteOf w 5)).getLsbD i = w.getLsbD i := by
  apply bit_of_byte
  have hk : i / 8 < 6 := by omega
  rw [byteOf_instructionOf (isByte_byteOf _ _) (isByte_byteOf _ _) (isByte_byteOf _ _) (isByte_byteOf _ _)
    (isByte_byteOf _ _) (isByte_byteOf _ _) hk]
  generalize i / 8 = k at hk
  interval_cases k <;> rfl

theorem storeAddress_instruction : storeAddress (wramWriteInstruction (a.setWidth 64)) = a := by
  apply BitVec.eq_of_getLsbD_eq
  intro i hi
  rw [storeAddress, gatherBits_bit _ hi]
  interval_cases i
  all_goals
    simp only [List.map_cons, List.getD_cons_zero, List.getD_cons_succ]
    simp [wramWriteInstruction, field]

theorem loadAddress_instruction : loadAddress (wramReadInstruction (a.setWidth 64)) = a := by
  apply BitVec.eq_of_getLsbD_eq
  intro i hi
  rw [loadAddress, gatherBits_bit _ hi]
  interval_cases i
  all_goals
    simp only [List.map_cons, List.getD_cons_zero, List.getD_cons_succ]
    simp [wramReadInstruction, field]

theorem storeAddress_congr {w w' : Word} (h : ∀ i < 48, w.getLsbD i = w'.getLsbD i) : storeAddress w = storeAddress w' := by
  unfold storeAddress
  congr 1
  apply List.map_congr_left
  intro i hi
  have hplaces : ∀ i ∈ [22, 23, 39, 40, 41, 24, 15, 14, 13, 12, 0, 1, 2, 3, 4, 5], i < 48 := by decide
  exact h i (hplaces i hi)

theorem loadAddress_congr {w w' : Word} (h : ∀ i < 48, w.getLsbD i = w'.getLsbD i) : loadAddress w = loadAddress w' := by
  unfold loadAddress
  congr 1
  apply List.map_congr_left
  intro i hi
  have hplaces : ∀ i ∈ [22, 23, 16, 17, 18, 19, 15, 14, 13, 12, 0, 1, 2, 3, 4, 5], i < 48 := by decide
  exact h i (hplaces i hi)

/-- Two bytes of an address. -/
theorem setWidth_bytes : ((byteOf w 1) <<< 8 ||| byteOf w 0).setWidth 16 = w.setWidth 16 := by
  apply BitVec.eq_of_getLsbD_eq
  intro i hi
  rw [BitVec.getLsbD_setWidth, BitVec.getLsbD_setWidth, BitVec.getLsbD_or, BitVec.getLsbD_shiftLeft, byteOf_bit, byteOf_bit]
  by_cases h8 : i < 8
  · simp [h8]
  · simp [h8, show i < 64 by omega, show i - 8 < 8 by omega, show 8 + (i - 8) = i by omega]

theorem MemKind.writeAddress_words (kind : MemKind) :
    kind.writeAddress (kind.writeStruct (a.setWidth 64)) (kind.writeFrame w (a.setWidth 64)) = a := by
  have hbyte := isByte_byteOf
  cases kind with
  | iram =>
    have hstruct : byteOf (iramWriteInstructionStruct (a.setWidth 64)) 2 = byteOf (a.setWidth 64) 1 :=
      byteOf_structWord (by decide) (by decide) (hbyte _ _) (by decide) (by decide) (by decide) (k := 2) (by decide)
    have hframe : byteOf (iramWriteInstructionFrame w (a.setWidth 64)) 6 = byteOf (a.setWidth 64) 0 :=
      byteOf_frameWord (hbyte _ _) (hbyte _ _) (hbyte _ _) (hbyte _ _) (hbyte _ _) (hbyte _ _) (hbyte _ _) (k := 6)
        (by decide)
    show ((byteOf (iramWriteInstructionStruct (a.setWidth 64)) 2) <<< 8
      ||| byteOf (iramWriteInstructionFrame w (a.setWidth 64)) 6).setWidth 16 = a
    rw [hstruct, hframe, setWidth_bytes]
    simp
  | wram =>
    have hstruct := fun k (hk : k < 6) => byteOf_structWord (by decide : IsByte 0b11111111) (by decide : IsByte 0b11)
      (hbyte (wramWriteInstruction (a.setWidth 64)) 0) (hbyte (wramWriteInstruction (a.setWidth 64)) 1)
      (hbyte (wramWriteInstruction (a.setWidth 64)) 3) (by decide : IsByte 0x99) hk
    have hframe := fun k (hk : k < 7) => byteOf_frameWord (hbyte w 0) (hbyte w 1) (hbyte w 2) (hbyte w 3)
      (hbyte (wramWriteInstruction (a.setWidth 64)) 2) (hbyte (wramWriteInstruction (a.setWidth 64)) 5)
      (hbyte (wramWriteInstruction (a.setWidth 64)) 4) hk
    show storeAddress (instructionOf (byteOf (wramWriteWordStruct _) 2) (byteOf (wramWriteWordStruct _) 3)
      (byteOf (wramWriteWordFrame w _) 4) (byteOf (wramWriteWordStruct _) 4) (byteOf (wramWriteWordFrame w _) 6)
      (byteOf (wramWriteWordFrame w _) 5)) = a
    simp only [wramWriteWordStruct, wramWriteWordFrame]
    rw [hstruct 2 (by decide), hstruct 3 (by decide), hstruct 4 (by decide), hframe 4 (by decide), hframe 5 (by decide),
      hframe 6 (by decide)]
    exact (storeAddress_congr fun i hi => instructionOf_bit _ hi).trans (storeAddress_instruction a)

theorem wramReadAddress_words : wramReadAddress (wramReadWordFrame (a.setWidth 64)) = a := by
  have hbyte := isByte_byteOf (wramReadInstruction (a.setWidth 64))
  have hframe := fun k (hk : k < 7) => byteOf_frameWord (hbyte 2) (hbyte 5) (hbyte 4) (hbyte 0) (hbyte 1) (hbyte 3)
    (by decide : IsByte 0x99) hk
  simp only [wramReadAddress, loadInstruction, wramReadWordFrame, instructionFrame]
  rw [hframe 0 (by decide), hframe 1 (by decide), hframe 2 (by decide), hframe 3 (by decide), hframe 4 (by decide),
    hframe 5 (by decide)]
  exact (loadAddress_congr fun i hi => instructionOf_bit _ hi).trans (loadAddress_instruction a)

theorem MemKind.recognises_words (kind : MemKind) :
    kind.recognises (kind.writeStruct (a.setWidth 64)) (kind.writeFrame w (a.setWidth 64)) = true := by
  simp only [MemKind.recognises, kind.writeAddress_words, kind.cut_writeFrame, kind.writeFrame_cut, and_self, decide_true]

/-- A write is no write of the other memory. -/
theorem iram_recognises_wram (frame : Word) : MemKind.iram.recognises (wramWriteWordStruct (a.setWidth 64)) frame = false := by
  have hbyte := isByte_byteOf
  rw [MemKind.recognises, decide_eq_false_iff_not]
  intro h
  have hiram := byteOf_structWord (by decide : IsByte 0b11111111) (by decide : IsByte 0)
    (hbyte ((MemKind.iram.writeAddress (wramWriteWordStruct (a.setWidth 64)) frame).setWidth 64) 1) (by decide : IsByte 0x47)
    (by decide : IsByte 2) (by decide : IsByte 0) (k := 1) (by decide)
  have hwram := byteOf_structWord (by decide : IsByte 0b11111111) (by decide : IsByte 0b11)
    (hbyte (wramWriteInstruction (a.setWidth 64)) 0) (hbyte (wramWriteInstruction (a.setWidth 64)) 1)
    (hbyte (wramWriteInstruction (a.setWidth 64)) 3) (by decide : IsByte 0x99) (k := 1) (by decide)
  have hsame : byteOf (wramWriteWordStruct (a.setWidth 64)) 1 = 0 := by
    rw [h.1]
    exact hiram
  rw [show byteOf (wramWriteWordStruct (a.setWidth 64)) 1 = 0b11 from hwram] at hsame
  exact absurd hsame (by decide)

theorem writeOf_words (kind : MemKind) :
    writeOf (kind.writeStruct (a.setWidth 64)) (kind.writeFrame w (a.setWidth 64)) = some ⟨kind, a, kind.cut w⟩ := by
  have hrecognised := kind.recognises_words a w
  have haddress := kind.writeAddress_words a w
  have hvalue := kind.cut_writeFrame w (a.setWidth 64)
  cases kind with
  | iram =>
    rw [writeOf, if_pos hrecognised]
    exact congrArg some (congrArg₂ (MemWrite.mk .iram) haddress hvalue)
  | wram =>
    rw [writeOf, if_neg (by rw [MemKind.writeStruct, iram_recognises_wram]; decide), if_pos hrecognised]
    exact congrArg some (congrArg₂ (MemWrite.mk .wram) haddress hvalue)

theorem readOf_word : readOf instructionStruct (wramReadWordFrame (a.setWidth 64)) = some (.word a) := by
  have hstruct : instructionStruct ≠ iramReadStruct := by decide
  simp only [readOf, hstruct, if_false, wramReadAddress_words, and_self, if_true]

theorem readOf_byte {byte : Nat} (h : byte < 6) (address : Word) :
    readOf iramReadStruct (iramReadByteFrame byte address) = some (.instructionByte byte (address.setWidth 16)) := by
  have hbyte := isByte_byteOf address
  have hnumber : ∀ byte < 6, IsByte (0x40#64 + BitVec.ofNat 64 byte) ∧ (0x40#64 + BitVec.ofNat 64 byte).toNat - 0x40 = byte := by
    decide
  have hframe := fun k (hk : k < 7) => byteOf_frameWord (hbyte 0) (hbyte 1) (hnumber byte h).1 (by decide : IsByte 2)
    (by decide : IsByte 0) (by decide : IsByte 0) (by decide : IsByte 0) hk
  have haddress : (iramReadByteFrame byte address).setWidth 16 = address.setWidth 16 := by
    rw [← setWidth_bytes, ← setWidth_bytes address, iramReadByteFrame, hframe 0 (by decide), hframe 1 (by decide)]
    rfl
  simp only [readOf, if_true, haddress]
  rw [iramReadByteFrame, hframe 2 (by decide)]
  exact congrArg some (congrArg₂ MemRead.instructionByte (hnumber byte h).2 rfl)

end RoundTrips

/-! ## Words that touch no memory -/

section NoWrite

variable {struct w : Word}

/-- The structures of the writes announce eight bytes. -/
theorem writeOf_of_byte (h : byteOf struct 0 ≠ 0xFF) : writeOf struct w = none := by
  have hbyte := isByte_byteOf
  have hiram : ∀ a, struct ≠ iramWriteInstructionStruct a := by
    intro a heq
    rw [heq, iramWriteInstructionStruct, byteOf_structWord (by decide) (by decide) (hbyte _ _) (by decide) (by decide)
      (by decide) (by decide)] at h
    exact h rfl
  have hwram : ∀ a, struct ≠ wramWriteWordStruct a := by
    intro a heq
    rw [heq, wramWriteWordStruct, byteOf_structWord (by decide) (by decide) (hbyte _ _) (hbyte _ _) (hbyte _ _)
      (by decide) (by decide)] at h
    exact h rfl
  simp [writeOf, MemKind.recognises, MemKind.writeStruct, hiram, hwram]

theorem MemKind.isStruct_writeStruct (kind : MemKind) (a : Word) : isStruct (kind.writeStruct a) = true := by
  cases kind with
  | iram => exact isStruct_iramWriteInstructionStruct a
  | wram => exact isStruct_wramWriteWordStruct a

theorem MemKind.quiet_writeFrame (kind : MemKind) (data a : Word) : QuietFrame (kind.writeStruct a) (kind.writeFrame data a) := by
  cases kind with
  | iram => exact quiet_iramWrite data a
  | wram => exact quiet_wramWrite data a

/-- A write comes in a frame under a structure of its own, and selects nothing. -/
theorem quiet_of_writeOf {write : MemWrite} (h : writeOf struct w = some write) : QuietFrame struct w := by
  have hrecognised : ∃ kind : MemKind, kind.recognises struct w = true := by
    unfold writeOf at h
    by_cases hiram : MemKind.iram.recognises struct w = true
    · exact ⟨.iram, hiram⟩
    · rw [if_neg hiram] at h
      by_cases hwram : MemKind.wram.recognises struct w = true
      · exact ⟨.wram, hwram⟩
      · rw [if_neg hwram] at h
        cases h
  obtain ⟨kind, hkind⟩ := hrecognised
  rw [MemKind.recognises, decide_eq_true_eq] at hkind
  have hquiet := kind.quiet_writeFrame (kind.cut w) ((kind.writeAddress struct w).setWidth 64)
  rwa [← hkind.1, ← hkind.2] at hquiet

theorem writeOf_struct (h : isStruct w = true) : writeOf struct w = none := by
  cases hwrite : writeOf struct w with
  | none => rfl
  | some write =>
    rw [(quiet_of_writeOf hwrite).noStruct] at h
    cases h

end NoWrite

end DpuBackend.Ufi
