import DpuBackend.Api.SymbolAccess
import DpuBackend.Lib.Mem

/-
  The ELF loader: from the program headers to the memories of the DPUs.

  C ↔ Lean (src/api/src/dpu_loader.c, src/api/src/dpu_memory.c, src/ufi/src/ufi.c):
    GElf_Phdr                                     ↔ GElfPhdr
    dpu_elf_load                                  ↔ dpuElfLoad, loadPhdrs
    load_segment                                  ↔ loadSegment
    extract_and_convert_memory_information        ↔ extractAndConvertMemoryInformation
    fetch_content                                 ↔ fetchContent
    patch_{dpu,rank}_iram                         ↔ patchIram, patchProfiling
    patch_wram_with_dpu_frequency                 ↔ patchWramWithDpuFrequency
    load_{dpu,rank}_{iram,wram,mram,regs}         ↔ loadIram, loadWram, loadMram, loadRegs
    dpu_copy_to_{iram,wram}_for_{rank,dpu}        ↔ dpuCopyToIram, dpuCopyToWram
    dpu_copy_to_mrams                             ↔ dpuCopyToMrams
    copy_to_mrams_using_dpu_program               ↔ accessMrams
    ufi_iram_write, ufi_wram_write                ↔ ufiIramWrite, ufiWramWrite

  The header fields have the 64 bits of `GElf_Phdr`; for a file of 32 bits, the only class
  that `dpu_elf_open` takes, they are below 2^32. `memcpy` stops the run where it would
  leave the file or the buffer. What the rank answers to a command is given by `Answers`,
  and so are the allocations. A transfer to the MRAMs stores the buffer or fails. Where
  the profile has the MRAMs accessed by the DPUs only, a program on each DPU stores what
  entry 0 of the matrix points to; what it moves, chunk by chunk, is in `MramAccess`, and
  the IRAM and the WRAM are put back behind it.
-/

namespace DpuBackend.Api.ElfLoad

open DpuBackend.Lib

/-! ## The file and the target -/

structure GElfPhdr where
  pType : BitVec 32
  pOffset : BitVec 64
  pVaddr : BitVec 64
  pFilesz : BitVec 64
  pMemsz : BitVec 64
deriving DecidableEq, Repr

def ptLoad : BitVec 32 := 1#32

def regsMask : BitVec 32 := 0xa0000000#32

/-- What libelf gives: the program headers and the raw bytes. -/
structure ElfFile where
  phdrs : List GElfPhdr
  image : List UInt8

/-- The sizes in the description of a chip. A WRAM has 16384 words in all of them
(`dpu_chip_description.c`), and its commands address 2^16. -/
structure ChipMemories extends Memories where
  wram_words : wramSize.toNat < 2 ^ 16

/-- The memories of a DPU, by bytes. -/
abbrev DpuMemory := Memory → Mem UInt8

/-- A rank or a DPU; a DPU is its index in a transfer matrix. -/
inductive Target where
  | rank (enabledDpus : List Nat)
  | dpu (dpu : Nat) (enabled : Bool)
deriving DecidableEq, Repr

/-- The enabled DPUs that a load writes. -/
def Target.reached : Target → List Nat
  | .rank enabledDpus => enabledDpus
  | .dpu d enabled => if enabled then [d] else []

/-- `dpu->enabled`, which a load into a rank does not ask. -/
def Target.enabled : Target → Bool
  | .rank _ => true
  | .dpu _ enabled => enabled

def Target.isRank : Target → Bool
  | .rank _ => true
  | .dpu _ _ => false

/-- The loader context, and what it finds in the rank. The functions take the index of a
program header. -/
structure Env where
  target : Target
  sizes : ChipMemories
  nbDpuRunning : Nat
  /-- `dpu_addresses.freq` -/
  freq : BitVec 32
  clocksPerSec : BitVec 32
  /-- What profiling puts in the place of an instruction at an address. -/
  profiling : Nat → BitVec 16 → (Fin 8 → UInt8) → Fin 8 → UInt8
  /-- Whether the transfer matrix on the stack of `load_rank_mram`, whose type is not set,
  is one of `DPU_SG_XFER_MATRIX`. -/
  matrixIsSg : Nat → Bool
  mramAccessByDpuOnly : Bool

inductive LoadError where
  | api (e : DpuError)
  | elfInvalidFile
  | mramBusy
  | rank (status : Nat)
deriving DecidableEq, Repr

/-- How the calls outside the loader end: `none` is `DPU_OK`. -/
structure Answers where
  eventStart : Option LoadError
  eventEnd : Option LoadError
  calloc : Nat → Bool
  rawfile : Nat → Bool
  patch : Nat → Bool → Option LoadError
  select : Nat → Option LoadError
  frame : Nat → Nat → Option LoadError
  transfer : Nat → Option LoadError
  /-- The access of the program on a DPU, up to its first read of the buffer. -/
  accessStart : Nat → Nat → Option LoadError
  /-- The rest of it. -/
  accessEnd : Nat → Nat → Option LoadError
  regs : Nat → Option LoadError

/-- A transfer that does not get the buffer: its entries are taken for lists of blocks, or
its entry 0 is `NULL`. -/
inductive MatrixFault where
  | blocksFromContent
  | nullBuffer
deriving DecidableEq, Repr

/-- Why a run ends early: with a status, or where the program leaves its memory. -/
inductive Stop where
  | status (e : LoadError)
  | readsOutsideFile
  | writesOutsideBuffer
  | matrix (fault : MatrixFault)
deriving DecidableEq, Repr

/-- The context of the loader and the memories of the DPUs. -/
structure LoadState where
  memory : Nat → DpuMemory
  nrOfInstructions : BitVec 32
  nrOfWramWords : BitVec 32
  nrOfMramBytes : BitVec 32
  dummy : BitVec 32

abbrev Result := Except Stop LoadState

/-! ## The segment -/

/-- What `extract_and_convert_memory_information` gives back; no memory for the registers. -/
structure Segment where
  memory : Option Memory
  addr : BitVec 32
  size : BitVec 32
deriving DecidableEq, Repr

/-- The address and the size in units of `2 ^ align` bytes. -/
def aligned (align : Nat) (error : DpuError) (memory : Memory) (addr base size : BitVec 32) : Except DpuError Segment :=
  if addr &&& ~~~alignMask align ≠ 0#32 then .error error
  else if size &&& ~~~alignMask align ≠ 0#32 then .error error
  else .ok ⟨some memory, base >>> align, size >>> align⟩

def extractAndConvertMemoryInformation (phdr : GElfPhdr) : Except DpuError Segment :=
  let addr := phdr.pVaddr.setWidth 32
  let size := phdr.pMemsz.setWidth 32
  if addr = regsMask then .ok ⟨none, addr, size⟩
  else match memorySwitch addr with
  | .iram => aligned iramAlign .invalidIramAccess .iram addr (addr &&& ~~~iramMask) size
  | .mram => .ok ⟨some .mram, addr &&& ~~~mramMask, size⟩
  | .wram => aligned wramAlign .invalidWramAccess .wram addr addr size

/-- The `p_filesz` bytes at `p_offset`, and zeros. -/
def ElfFile.content (file : ElfFile) (phdr : GElfPhdr) : Mem UInt8 := fun i =>
  if i < phdr.pFilesz.toNat then file.image.getD (phdr.pOffset.toNat + i) 0 else 0

def fetchContent (file : ElfFile) (phdr : GElfPhdr) (calloc rawfile : Bool) : Except Stop (Mem UInt8) :=
  if calloc = false then .error (.status (.api .system))
  else if rawfile = false then .error (.status .elfInvalidFile)
  -- `memcpy` into the `p_memsz` bytes of the buffer
  else if phdr.pMemsz.toNat < phdr.pFilesz.toNat then .error .writesOutsideBuffer
  else if phdr.pFilesz.toNat ≠ 0 ∧ file.image.length < phdr.pOffset.toNat + phdr.pFilesz.toNat then
    .error .readsOutsideFile
  else .ok (file.content phdr)

/-! ## The patches -/

/-- `dpu_patch_profiling_for_dpu`: the loop over the instructions, whose number and
addresses have 16 bits. -/
def patchProfiling (replace : BitVec 16 → (Fin 8 → UInt8) → Fin 8 → UInt8) (address size : BitVec 32)
    (content : Mem UInt8) : Mem UInt8 := fun i =>
  if i / 8 < (size.setWidth 16).toNat then
    replace (address.setWidth 16 + BitVec.ofNat 16 (i / 8)) (content.load (8 * (i / 8)) 8) ⟨i % 8, mod_eight_lt i⟩
  else content i

/-- `DPU_ADDRESSES_FREQ_UNSET` -/
def freqUnset : BitVec 32 := -1#32

/-- The bytes of a word. -/
def wordBytes (w : BitVec 32) (i : Nat) : UInt8 := UInt8.ofNat (w.toNat / 256 ^ i)

def patchWramWithDpuFrequency (env : Env) (addr size : BitVec 32) (content : Mem UInt8) : Mem UInt8 :=
  let freqAddr := env.freq >>> wramAlign
  if env.freq = freqUnset then content
  -- the frequency is not in between two segments
  else if freqAddr < addr ∨ freqAddr ≥ addr + size then content
  else content.put (4 * (freqAddr - addr).toNat) 4 (wordBytes env.clocksPerSec)

/-- The content as it is loaded. -/
def Segment.patched (env : Env) (k : Nat) (seg : Segment) (content : Mem UInt8) : Mem UInt8 :=
  match seg.memory with
  | some .iram => patchProfiling (env.profiling k) seg.addr seg.size content
  | some .wram => patchWramWithDpuFrequency env seg.addr seg.size content
  | _ => content

def patchIram (env : Env) (answer : Option LoadError) : Except Stop Unit :=
  if env.target.enabled = false then .error (.status (.api .dpuDisabled))
  else match answer with
  | some e => .error (.status e)
  | none => .ok ()

/-- `do_patch`; only the profiling of an IRAM can fail. -/
def doPatch (env : Env) (answers : Answers) (k : Nat) (init : Bool) (seg : Segment) : Except Stop Unit :=
  match seg.memory with
  | some .iram => patchIram env (answers.patch k init)
  | _ => .ok ()

/-! ## The loads -/

/-- The bytes `src` are put at an address of a memory of every DPU the load reaches. -/
def Target.store (t : Target) (memory : Memory) (a n : Nat) (src : Mem UInt8) (s : LoadState) : LoadState :=
  { s with memory := fun d =>
      if d ∈ t.reached then Function.update (s.memory d) memory ((s.memory d memory).put a n src) else s.memory d }

/-- The bytes that a memory keeps of those of a cell: the frame of an instruction carries 48
bits of the 64 (`CI_IRAM_WRITE_INSTRUCTION_FRAME`). -/
def cellBytes : Memory → Nat
  | .iram => 6
  | .mram => 1
  | .wram => 4

/-- What is kept of the bytes of a segment; where no byte is kept a 0 is read back. -/
def kept (memory : Memory) (src : Mem UInt8) : Mem UInt8 := fun i => if i % memory.unit < cellBytes memory then src i else 0

/-- The frames of a write, one for each cell of `unit` bytes; addresses have 16 bits. -/
def writeFrames (env : Env) (answers : Answers) (k : Nat) (memory : Memory) (offset : BitVec 16) (src : Mem UInt8) :
    List Nat → LoadState → Result
  | [], s => .ok s
  | i :: is, s =>
    match answers.frame k i with
    | some e => .error (.status e)
    | none =>
      let addr := offset + BitVec.ofNat 16 i
      writeFrames env answers k memory offset src is
        (env.target.store memory (memory.unit * addr.toNat) memory.unit (fun j => kept memory src (memory.unit * i + j)) s)

/-- Selecting the DPUs and the frames: `ci_copy_to_irams_*` and `ci_copy_to_wrams_*`. -/
def writeCells (env : Env) (answers : Answers) (k : Nat) (memory : Memory) (offset len : BitVec 16) (src : Mem UInt8)
    (s : LoadState) : Result :=
  match answers.select k with
  | some e => .error (.status e)
  | none => writeFrames env answers k memory offset src (List.range len.toNat) s

def ufiIramWrite (env : Env) (answers : Answers) (k : Nat) (offset len : BitVec 16) (src : Mem UInt8) (s : LoadState) :
    Result := writeCells env answers k .iram offset len src s

def ufiWramWrite (env : Env) (answers : Answers) (k : Nat) (offset len : BitVec 32) (src : Mem UInt8) (s : LoadState) :
    Result := writeCells env answers k .wram (offset.setWidth 16) (len.setWidth 16) src s

/-- A check that returns on its own, with an error or before an access of size 0. -/
def verified (check : Except DpuError (Option Range)) (s : LoadState) (access : Result) : Result :=
  match check with
  | .error e => .error (.status (.api e))
  | .ok none => .ok s
  | .ok (some _) => access

section

variable (env : Env) (answers : Answers) (k : Nat) (src : Mem UInt8) (s : LoadState)

/-- `dpu_copy_to_iram_for_rank` and `dpu_copy_to_iram_for_dpu`. -/
def dpuCopyToIram (index nb : BitVec 16) : Result :=
  if env.target.enabled = false then .error (.status (.api .dpuDisabled))
  else verified (verifyIramAccess16 index nb env.sizes.toMemories) s (ufiIramWrite env answers k index nb src s)

/-- `dpu_copy_to_wram_for_rank` and `dpu_copy_to_wram_for_dpu`. -/
def dpuCopyToWram (offset nb : BitVec 32) : Result :=
  if env.target.enabled = false then .error (.status (.api .dpuDisabled))
  else verified (verifyWramAccess offset nb env.sizes.toMemories) s (ufiWramWrite env answers k offset nb src s)

/-- The loop over the DPUs that the matrix lists. Offset and size are multiples of 8 here and
`calloc` aligns the buffer, so that an access gets the matrix as it is, and reads entry 0. -/
def accessMrams (offset size : BitVec 32) : List Nat → LoadState → Result
  | [], s => .ok s
  | d :: ds, s =>
    match answers.accessStart k d with
    | some e => .error (.status e)
    | none =>
      if size = 0#32 then accessMrams offset size ds s
      else if 0 ∉ env.target.reached then .error (.matrix .nullBuffer)
      else match answers.accessEnd k d with
      | some e => .error (.status e)
      | none => accessMrams offset size ds ((Target.dpu d true).store .mram offset.toNat size.toNat src s)

/-- The transfer of a matrix that has `src` for every DPU of the target. -/
def copyToMrams (isSg : Bool) (offset size : BitVec 32) : Result :=
  if env.nbDpuRunning > 0 then .error (.status .mramBusy)
  else if env.mramAccessByDpuOnly = true then accessMrams env answers k src offset size env.target.reached s
  else if isSg = true then .error (.matrix .blocksFromContent)
  else match answers.transfer k with
  | some e => .error (.status e)
  | none => .ok (env.target.store .mram offset.toNat size.toNat src s)

def dpuCopyToMrams (isSg : Bool) (offset size : BitVec 32) : Result :=
  verified (verifyMramAccess offset size env.sizes.toMemories) s (copyToMrams env answers k src s isSg offset size)

/-- `dpu_copy_to_mram`, whose matrix is cleared. -/
def dpuCopyToMram (offset size : BitVec 32) : Result :=
  if env.target.enabled = false then .error (.status (.api .dpuDisabled))
  else if size = 0#32 then .ok s
  else dpuCopyToMrams env answers k src s false offset size

def loadIram (address size : BitVec 32) : Result :=
  dpuCopyToIram env answers k src s (address.setWidth 16) (size.setWidth 16)

def loadWram (address size : BitVec 32) : Result :=
  match env.target with
  | .rank _ => dpuCopyToWram env answers k src s address size
  | .dpu _ _ => if size = 0#32 then .ok s else dpuCopyToWram env answers k src s address size

def loadMram (address size : BitVec 32) : Result :=
  match env.target with
  | .rank _ => dpuCopyToMrams env answers k src s (env.matrixIsSg k) address size
  | .dpu _ _ => dpuCopyToMram env answers k src s address size

/-- The registers of one DPU; its memories are put back as they were. -/
def loadRegs : Result :=
  match env.target with
  | .rank _ => .error (.status .elfInvalidFile)
  | .dpu _ _ =>
    match answers.regs k with
    | some e => .error (.status e)
    | none => .ok s

def doLoad (seg : Segment) : Result :=
  match seg.memory with
  | none => loadRegs env answers k s
  | some .iram => loadIram env answers k src s seg.addr seg.size
  | some .wram => loadWram env answers k src s seg.addr seg.size
  | some .mram => loadMram env answers k src s seg.addr seg.size

end

/-- The accumulator of a segment. -/
def Segment.accumulator (seg : Segment) (s : LoadState) : BitVec 32 :=
  match seg.memory with
  | none => s.dummy
  | some .iram => s.nrOfInstructions
  | some .wram => s.nrOfWramWords
  | some .mram => s.nrOfMramBytes

/-- `*size_accumulator += size` -/
def Segment.accumulate (seg : Segment) (s : LoadState) : LoadState :=
  match seg.memory with
  | none => { s with dummy := s.dummy + seg.size }
  | some .iram => { s with nrOfInstructions := s.nrOfInstructions + seg.size }
  | some .wram => { s with nrOfWramWords := s.nrOfWramWords + seg.size }
  | some .mram => { s with nrOfMramBytes := s.nrOfMramBytes + seg.size }

def loadSegment (file : ElfFile) (env : Env) (answers : Answers) (k : Nat) (phdr : GElfPhdr) (s : LoadState) : Result :=
  match extractAndConvertMemoryInformation phdr with
  | .error e => .error (.status (.api e))
  | .ok seg =>
    match fetchContent file phdr (answers.calloc k) (answers.rawfile k) with
    | .error e => .error e
    | .ok content =>
      match doPatch env answers k (seg.accumulator s == 0#32) seg with
      | .error e => .error e
      | .ok _ => (doLoad env answers k (seg.patched env k content) s seg).map seg.accumulate

/-- The program headers from index `k` on. -/
def loadPhdrs (file : ElfFile) (env : Env) (answers : Answers) : Nat → List GElfPhdr → LoadState → Result
  | _, [], s => .ok s
  | k, phdr :: phdrs, s =>
    if phdr.pType = ptLoad then
      match loadSegment file env answers k phdr s with
      | .error e => .error e
      | .ok s' => loadPhdrs file env answers (k + 1) phdrs s'
    else loadPhdrs file env answers (k + 1) phdrs s

/-- `dpu_custom_for_rank` and `dpu_custom_for_dpu`, for the path of the file and the events. -/
def dpuCustom (env : Env) (answer : Option LoadError) (s : LoadState) : Result :=
  if env.target.enabled = false then .error (.status (.api .dpuDisabled))
  else match answer with
  | some e => .error (.status e)
  | none => .ok s

def dpuElfLoad (file : ElfFile) (env : Env) (answers : Answers) (s : LoadState) : Result :=
  match dpuCustom env answers.eventStart s with
  | .error e => .error e
  | .ok s =>
    match loadPhdrs file env answers 0 file.phdrs s with
    | .error e => .error e
    | .ok s => dpuCustom env answers.eventEnd s

end DpuBackend.Api.ElfLoad
