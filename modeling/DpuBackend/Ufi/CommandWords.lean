import Mathlib.Logic.Basic
import Mathlib.Algebra.Order.Ring.Nat

/-
  The words the host sends to a control interface (`ufi_ci_commands.h`).

  A structure word says how the bytes of the next frame are to be read, a frame
  word carries them; their top bytes tell them apart from each other and from
  `CI_EMPTY`, which sends nothing. Many of the header's macros have the same
  value, and one definition stands for them all.

  Correspondence (C ↔ Lean):
    `CI_EMPTY`, `CI_IDENTITY`, `CI_BYTE_ORDER` ..     ↔ `ciEmpty`, `ciIdentity`, `ciByteOrder` ..
    `CI_<X>_STRUCT` without data bytes                ↔ `plainStruct`
    `CI_SELECT_DPU_STRUCT`, `CI_SELECT_GROUP_STRUCT`,
      `CI_WRITE_GROUP_STRUCT`, `CI_CMD_BUS_CONFIG_*`  ↔ `oneByteStruct`
    `CI_THREAD_*_STRUCT`, `CI_WRAM_READ_WORD_STRUCT`,
      `CI_DEBUG_STD_REPLACE_STOP_ENABLED_STRUCT`      ↔ `instructionStruct`
    `CI_<X>_FRAME`                                    ↔ the definition of that name
-/

namespace DpuBackend.Ufi

abbrev Word := BitVec 64

def ciEmpty : Word := 0#64

/-- Byte `k` of a word. -/
def byteOf (w : Word) (k : Nat) : Word := w >>> (k * 8) &&& 0xFF#64

def structWord (b₀ b₁ b₂ b₃ b₄ b₅ : Word) : Word :=
  0x1100000000000000#64 ||| b₀ ||| b₁ <<< 8 ||| b₂ <<< 16 ||| b₃ <<< 24 ||| b₄ <<< 32 ||| b₅ <<< 40

def frameWord (b₀ b₁ b₂ b₃ b₄ b₅ b₆ : Word) : Word :=
  0x3300000000000000#64 ||| b₀ ||| b₁ <<< 8 ||| b₂ <<< 16 ||| b₃ <<< 24 ||| b₄ <<< 32 ||| b₅ <<< 40 ||| b₆ <<< 48

theorem frameWord_ne_empty (b₀ b₁ b₂ b₃ b₄ b₅ b₆ : Word) : frameWord b₀ b₁ b₂ b₃ b₄ b₅ b₆ ≠ ciEmpty := by
  intro h
  simp only [frameWord, ciEmpty, BitVec.or_eq_zero_iff] at h
  exact absurd h.1.1.1.1.1.1.1 (by decide)

/-! ## Commands without a structure -/

def ciBitOrder (ne stutter c2d d2c : Word) : Word :=
  0x0100000000000000#64 ||| ne ||| stutter <<< 8 ||| c2d <<< 16 ||| d2c <<< 32

def ciIdentity : Word := 0x01FF000000000000

def ciSoftwareReset (factor cycleAccurate : Word) : Word := 0x01FF00000000FF00#64 ||| factor ||| cycleAccurate <<< 4

def ciThermalConfig (threshold : Word) : Word := 0x01FF000000FF0000#64 ||| threshold

def ciCmdDurationFutur (duration : Word) : Word := 0x01FF000000FFFF00#64 ||| duration

def ciResDurationFutur (duration : Word) : Word := 0x01FF0000FF000000#64 ||| duration

def ciResSamplingFutur (sampling : Word) : Word := 0x01FF0000FF00FF00#64 ||| sampling

def ciByteOrder : Word := 0x7777777777777777

/-! ## Structures -/

def plainStruct : Word := structWord 0 0 0 0 0 0

def oneByteStruct : Word := structWord 0b10 0 0 0 0 0

def instructionStruct : Word := structWord 0b111111 0 2 0 0 0

/-- Also `CI_DMA_CTRL_CLEAR_STRUCT`. -/
def dmaCtrlWriteStruct : Word := structWord 0b111111 0 0xFF 2 0 0

def pcModeWriteStruct : Word := structWord 0b10111111 0 0 0xFF 2 0

def iramWriteInstructionStruct (address : Word) : Word := structWord 0b11111111 0 (byteOf address 1) 0x47 2 0

/-- `CI_IRAM_READ_BYTE0_STRUCT` .. `CI_IRAM_READ_BYTE5_STRUCT`. -/
def iramReadStruct : Word := structWord 0b11 0 0 0 0 0

/-- `CI_IREPAIR_CONFIG_AB_STRUCT`, `.._CD_STRUCT`, `.._OE_STRUCT`. -/
def irepairConfigStruct : Word := structWord 0b1010 0 0 0 0 0

def registerFileTimingConfigStruct : Word := structWord 0b1111111 1 0xA5 0 0xFF 2

def resBusConfigDurationStruct : Word := structWord 0b10111111 0 0 2 0 0

def debugStdSamplePcStruct : Word := structWord 0b111111 0 0x9C 2 0 0

/-! ## Instructions carried by frames -/

/-- A field of an instruction. -/
def field (value : Word) (low width offset : Nat) : Word :=
  (value >>> low &&& BitVec.ofNat 64 (2 ^ width - 1)) <<< offset

/-- The bytes of an instruction in the order a frame carries them. -/
def instructionFrame (instruction last : Word) : Word :=
  frameWord (byteOf instruction 2) (byteOf instruction 5) (byteOf instruction 4) (byteOf instruction 0)
    (byteOf instruction 1) (byteOf instruction 3) last

def threadInstruction (base thread : Word) : Word :=
  base ||| field 24#64 0 5 34 ||| field thread 0 4 20 ||| field thread 4 4 16

def wramWriteInstruction (address : Word) : Word :=
  let a := address <<< 2
  0x7c0044000000#64 ||| field 24#64 0 5 34 ||| field a 0 4 20 ||| field a 4 3 39 ||| field a 7 1 24 ||| field a 8 1 15
    ||| field a 9 1 14 ||| field a 10 1 13 ||| field a 11 1 12 ||| field a 12 12 0

def wramReadInstruction (address : Word) : Word :=
  let a := address <<< 2
  0x700344000000#64 ||| field 24#64 0 5 34 ||| field a 0 4 20 ||| field a 4 4 16 ||| field a 8 1 15 ||| field a 9 1 14
    ||| field a 10 1 13 ||| field a 11 1 12 ||| field a 12 12 0

def wramWriteWordStruct (address : Word) : Word :=
  structWord 0b11111111 0b11 (byteOf (wramWriteInstruction address) 0) (byteOf (wramWriteInstruction address) 1)
    (byteOf (wramWriteInstruction address) 3) 0x99

/-! ## Frames -/

def selectDpuFrame (dpuId : Word) : Word := frameWord 0xA dpuId 0xFF 2 0 0 0
def selectGroupFrame (groupId : Word) : Word := frameWord 0x9 groupId 0xFF 2 0 0 0
def selectAllFrame : Word := frameWord 0x8 0xFF 2 0 0 0 0
def writeGroupFrame (groupId : Word) : Word := frameWord 0xC groupId 0xFF 2 0 0 0
def dmaCtrlReadFrame : Word := frameWord 0x10 2 0 0 0 0 0
def dmaCtrlWriteFrame (b₀ b₁ b₂ b₃ b₄ b₅ : Word) : Word := frameWord b₀ b₁ b₂ b₃ b₄ b₅ 0xA7
def dmaCtrlClearFrame : Word := frameWord 0 0 0 0 0 0 0xA6
def dmaFaultThreadIndexReadFrame : Word := frameWord 0x11 2 0 0 0 0 0
def bkpFaultThreadIndexReadFrame : Word := frameWord 0x12 2 0 0 0 0 0
def memFaultThreadIndexReadFrame : Word := frameWord 0x13 2 0 0 0 0 0
def pcLsbReadFrame : Word := frameWord 0x14 2 0 0 0 0 0
def pcMsbReadFrame : Word := frameWord 0x15 2 0 0 0 0 0
def pcModeReadFrame : Word := frameWord 0x16 2 0 0 0 0 0
def pcModeWriteFrame (pcMode : Word) : Word := frameWord pcMode 0 0 0 0 0 0xA4
def dpuFaultStateReadFrame : Word := frameWord 0x80 2 0 0 0 0 0
def dpuFaultStateClrFrame : Word := frameWord 0x86 0xFF 2 0 0 0 0
def dpuFaultStateSetAndStepFrame : Word := frameWord 0x87 0xFF 2 0 0 0 0
def dpuRunStateReadFrame : Word := frameWord 0x84 2 0 0 0 0 0
def bkpFaultReadFrame : Word := frameWord 0xB0 2 0 0 0 0 0
def bkpFaultClearFrame : Word := frameWord 0xB2 0xFF 2 0 0 0 0
def bkpFaultSetFrame : Word := frameWord 0xB3 0xFF 2 0 0 0 0
def poisonFaultReadFrame : Word := frameWord 0xB4 2 0 0 0 0 0
def poisonFaultClearFrame : Word := frameWord 0xB6 0xFF 2 0 0 0 0
def poisonFaultSetFrame : Word := frameWord 0xB7 0xFF 2 0 0 0 0
def dmaFaultReadAndClrFrame : Word := frameWord 0x82 2 0 0 0 0 0
def memFaultReadAndClrFrame : Word := frameWord 0xF4 2 0 0 0 0 0
def stackUpReadAndClrFrame : Word := frameWord 0xF0 2 0 0 0 0 0
def stackUpReadAndSetFrame : Word := frameWord 0xF2 2 0 0 0 0 0
def threadBootFrame (thread : Word) : Word := instructionFrame (threadInstruction 0x7d8320000000 thread) 0x98
def threadResumeFrame (thread : Word) : Word := instructionFrame (threadInstruction 0x7d0320000000 thread) 0x98
def threadClrRunFrame (thread : Word) : Word := instructionFrame (threadInstruction 0x7c8320000000 thread) 0x98
def threadReadRunFrame (thread : Word) : Word := instructionFrame (threadInstruction 0x7c0330000000 thread) 0x98
def debugStdReplaceStopEnabledFrame : Word := instructionFrame 0x7ef320000000 0x9E
def debugStdReplaceClearFrame : Word := frameWord 0x9C 2 0 0 0 0 0
def debugStdSamplePcFrame : Word := instructionFrame 0x7c6300000000 0x9E

def iramWriteInstructionFrame (data address : Word) : Word :=
  frameWord (byteOf data 0) (byteOf data 1) (byteOf data 2) (byteOf data 3) (byteOf data 4) (byteOf data 5)
    (byteOf address 0)

/-- `CI_IRAM_READ_BYTE<k>_FRAME`. -/
def iramReadByteFrame (k : Nat) (address : Word) : Word :=
  frameWord (byteOf address 0) (byteOf address 1) (0x40#64 + BitVec.ofNat 64 k) 2 0 0 0

def wramWriteWordFrame (data address : Word) : Word :=
  frameWord (byteOf data 0) (byteOf data 1) (byteOf data 2) (byteOf data 3) (byteOf (wramWriteInstruction address) 2)
    (byteOf (wramWriteInstruction address) 5) (byteOf (wramWriteInstruction address) 4)

def wramReadWordFrame (address : Word) : Word := instructionFrame (wramReadInstruction address) 0x99

def irepairConfigAbFrame (msb lsbA lsbB : Word) : Word := frameWord 0x90 msb 0x91 (lsbB ||| lsbA <<< 4) 0xFF 2 0
def irepairConfigCdFrame (msb lsbC lsbD : Word) : Word := frameWord 0x92 msb 0x93 (lsbD ||| lsbC <<< 4) 0xFF 2 0
def irepairConfigOeFrame (oddIndex evenIndex timing : Word) : Word :=
  frameWord 0x97 (oddIndex >>> 1) 0x96 (timing <<< 5 ||| evenIndex >>> 1) 0xFF 2 0
def registerFileTimingConfigFrame (rfTiming : Word) : Word := frameWord 0 rfTiming 0 0 0 0 0
def cmdBusConfigDurationFrame (duration : Word) : Word := frameWord 0x4 duration 0xFF 2 0 0 0
def cmdBusConfigSamplingFrame (sampling : Word) : Word := frameWord 0x5 sampling 0xFF 2 0 0 0
def cmdBusSyncFrame : Word := frameWord 0x7 0xFF 2 0 0 0 0
def resBusConfigDurationFrame (duration : Word) : Word := frameWord duration 0 0 0 0 0 0xF6
def resBusSyncFrame : Word := frameWord 0xF7 0xFF 2 0 0 0 0

end DpuBackend.Ufi
