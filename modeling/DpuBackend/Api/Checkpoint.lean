import DpuBackend.Lib.FirstFailure
import DpuBackend.Lib.Layout
import Mathlib.Data.Finset.Basic

/-
  The checkpoint of a DPU as bytes (`dpu_debug.c`).

  C ↔ Lean:
    struct dpu_context_t                                ↔ DpuContext
    dpu_context_fill, dpu_free_dpu_context              ↔ dpuContextFill, dpuFreeDpuContext
    DESERIALIZED_NEXT_ELEM, DESERIALIZED_ELEM           ↔ deserializedNextElem, deserializedBlock and the like
    dpu_checkpoint_deserialize                          ↔ dpuCheckpointDeserialize

  The pointers of a context are a map from the nine blocks to their bytes, which
  is what `memcpy` moves. A deserialisation has the bytes from its cursor to the
  end, the blocks that are allocated and not freed, and the context. Reading
  behind the end and writing behind a block are faults. Which allocations fail
  is given for each block, as each is allocated once.

  `deserializeSafe_iff` says for which bytes and failures nothing goes wrong.
-/

namespace DpuBackend.Api.Checkpoint

open DpuBackend.Lib

/-- The pointers of a `dpu_context_t`. -/
inductive Block where
  | iram
  | mram
  | wram
  | registers
  | pcs
  | atomicRegister
  | zeroFlags
  | carryFlags
  | scheduling
  deriving DecidableEq

structure Info where
  nrThreads : UInt32
  nrRegisters : UInt32
  nrAtomicBits : UInt32
  iramSize : UInt16
  mramSize : UInt32
  wramSize : UInt32
  deriving DecidableEq

structure DpuContext where
  info : Info
  /-- `none` is `NULL`. -/
  block : Block → Option (List UInt8)
  nrOfRunningThreads : UInt8
  bkpFault : UInt8
  dmaFault : UInt8
  memFault : UInt8
  bkpFaultThreadIndex : UInt8
  dmaFaultThreadIndex : UInt8
  memFaultThreadIndex : UInt8
  bkpFaultId : UInt32

def DpuContext.setBlock (c : DpuContext) (b : Block) (memory : Option (List UInt8)) : DpuContext :=
  { c with block := Function.update c.block b memory }

def serializedContextMagic : UInt32 := 0xFABDDBAF

def serializedContextChipVersion : UInt32 := 18

def serializedContextVersion : UInt32 := 3

/-- The words a checkpoint starts with. -/
def header : List UInt32 :=
  [serializedContextMagic, serializedContextChipVersion, serializedContextVersion, serializedContextMagic]

/-- The `uint32_t` that the first bytes are. -/
def wordOf (bytes : List UInt8) : UInt32 := UInt32.ofNat (Layout.ofBytes 4 bytes)

inductive Fault where
  | read
  | write
  deriving DecidableEq

/-- `DPU_ERR_ELF_INVALID_FILE`, `DPU_ERR_SYSTEM`. -/
inductive Status where
  | invalidFile
  | system
  deriving DecidableEq

inductive Stop where
  | fault (f : Fault)
  | status (e : Status)
  deriving DecidableEq

structure State where
  /-- The bytes from `serialized_context` to `serialized_context_end`. -/
  serialized : List UInt8
  live : Finset Block
  context : DpuContext

abbrev DeserializeM := EStateM Stop State

/-! ## Memory -/

/-- Which allocations fail. -/
abbrev AllocFails := Block → Bool

def State.allocated (s : State) (b : Block) (size : Nat) : State :=
  { s with live := insert b s.live, context := s.context.setBlock b (some (List.replicate size 0)) }

def State.freed (s : State) (b : Block) : State := { s with live := s.live.erase b }

def freeBlock (b : Block) : DeserializeM PUnit := modify fun s => s.freed b

def calloc (fails : AllocFails) (b : Block) (size : Nat) : DeserializeM PUnit :=
  modify fun s => if fails b then { s with context := s.context.setBlock b none } else s.allocated b size

def dpuFreeDpuContext : DeserializeM PUnit :=
  [Block.iram, .mram, .wram, .registers, .pcs, .atomicRegister, .zeroFlags, .carryFlags, .scheduling].forM freeBlock

def State.filled (s : State) (info : Info) : State :=
  { s with context := ({ s.context with info := info }.setBlock .iram none).setBlock .mram none |>.setBlock .wram none }

/-- The blocks that `dpu_context_fill` allocates. -/
def contextBlocks : List Block := [.registers, .pcs, .atomicRegister, .zeroFlags, .carryFlags, .scheduling]

def dpuContextFill (fails : AllocFails) (info : Info) : DeserializeM PUnit := do
  modify fun s => s.filled info
  calloc fails .registers ((info.nrThreads * info.nrRegisters).toNat * 4)
  calloc fails .pcs (info.nrThreads.toNat * 2)
  calloc fails .atomicRegister info.nrAtomicBits.toNat
  calloc fails .zeroFlags info.nrThreads.toNat
  calloc fails .carryFlags info.nrThreads.toNat
  calloc fails .scheduling info.nrThreads.toNat
  let s ← get
  if contextBlocks.any fun b => (s.context.block b).isNone then
    dpuFreeDpuContext
    throw (.status .system)

/-! ## The elements -/

/-- The source of a `memcpy` or of a word. -/
def readBytes (size : Nat) : DeserializeM (List UInt8) := do
  let s ← get
  if s.serialized.length < size then throw (.fault .read) else return s.serialized.take size

def State.next (s : State) (size : Nat) : State := { s with serialized := s.serialized.drop size }

def deserializedNextElem (size : Nat) : DeserializeM PUnit := do
  let s ← get
  if s.serialized.length < size then throw (.status .invalidFile)
  set (s.next size)

/-- The word is compared before the cursor. -/
def deserializedHeader (expected : UInt32) : DeserializeM PUnit := do
  let bytes ← readBytes 4
  if wordOf bytes ≠ expected then throw (.status .invalidFile)
  deserializedNextElem 4

def deserializedWord : DeserializeM UInt32 := do
  let bytes ← readBytes 4
  deserializedNextElem 4
  return wordOf bytes

/-- One of the fields of a byte. -/
def deserializedField (put : UInt8 → DpuContext → DpuContext) : DeserializeM PUnit := do
  let bytes ← readBytes 1
  modify fun s => { s with context := put (bytes.headD 0) s.context }
  deserializedNextElem 1

/-- `memcpy` to a block of the context. -/
def copyToBlock (b : Block) (bytes : List UInt8) : DeserializeM PUnit := do
  let s ← get
  match s.context.block b with
  | none => throw (.fault .write)
  | some memory =>
    if memory.length < bytes.length then throw (.fault .write)
    set { s with context := s.context.setBlock b (some (bytes ++ memory.drop bytes.length)) }

def deserializedBlock (b : Block) (size : Nat) : DeserializeM PUnit := do
  let bytes ← readBytes size
  copyToBlock b bytes
  deserializedNextElem size

/-- `malloc`, whose bytes nobody reads; `undo` are the blocks freed when it fails. -/
def malloc (fails : AllocFails) (b : Block) (size : Nat) (undo : List Block) : DeserializeM PUnit :=
  if fails b then do
    undo.forM freeBlock
    throw (.status .system)
  else modify fun s => s.allocated b size

/-- One of the memories, of which there are bytes only if its size is not 0. -/
def deserializedMemory (fails : AllocFails) (b : Block) (size : UInt32) (byteSize : UInt32) (undo : List Block) :
    DeserializeM PUnit :=
  if size ≠ 0 then do
    malloc fails b byteSize.toNat undo
    deserializedBlock b byteSize.toNat
  else pure ()

/-- The counts of a checkpoint, as they are in the buffer. -/
structure Counts where
  nrOfThreads : UInt32
  nrOfWorkRegistersPerThread : UInt32
  nrOfAtomicBits : UInt32
  iramSize : UInt32
  mramSize : UInt32
  wramSize : UInt32

def deserializedCounts : DeserializeM Counts := do
  let nrOfThreads ← deserializedWord
  let nrOfWorkRegistersPerThread ← deserializedWord
  let nrOfAtomicBits ← deserializedWord
  let iramSize ← deserializedWord
  let mramSize ← deserializedWord
  let wramSize ← deserializedWord
  return ⟨nrOfThreads, nrOfWorkRegistersPerThread, nrOfAtomicBits, iramSize, mramSize, wramSize⟩

/-- What is given to `dpu_context_fill`, whose `iram_size` has 16 bits. -/
def Counts.info (n : Counts) : Info :=
  ⟨n.nrOfThreads, n.nrOfWorkRegistersPerThread, n.nrOfAtomicBits, n.iramSize.toUInt16, n.mramSize, n.wramSize⟩

/-- What is deserialised once there is a context for it. -/
def deserializedElems (fails : AllocFails) (n : Counts) : DeserializeM PUnit := do
  deserializedMemory fails .iram n.iramSize (8 * n.iramSize) []
  deserializedMemory fails .mram n.mramSize n.mramSize [.iram]
  deserializedMemory fails .wram n.wramSize (4 * n.wramSize) [.iram, .mram]
  deserializedBlock .registers (4 * n.nrOfThreads * n.nrOfWorkRegistersPerThread).toNat
  deserializedBlock .pcs (2 * n.nrOfThreads).toNat
  deserializedBlock .atomicRegister n.nrOfAtomicBits.toNat
  deserializedBlock .zeroFlags n.nrOfThreads.toNat
  deserializedBlock .carryFlags n.nrOfThreads.toNat
  deserializedField fun v c => { c with nrOfRunningThreads := v }
  deserializedBlock .scheduling n.nrOfThreads.toNat
  deserializedField fun v c => { c with bkpFault := v }
  deserializedField fun v c => { c with dmaFault := v }
  deserializedField fun v c => { c with memFault := v }
  deserializedField fun v c => { c with bkpFaultThreadIndex := v }
  deserializedField fun v c => { c with dmaFaultThreadIndex := v }
  deserializedField fun v c => { c with memFaultThreadIndex := v }
  let bkpFaultId ← deserializedWord
  modify fun s => { s with context := { s.context with bkpFaultId } }

def dpuCheckpointDeserialize (fails : AllocFails) : DeserializeM PUnit := do
  header.forM deserializedHeader
  let n ← deserializedCounts
  dpuContextFill fails n.info
  deserializedElems fails n

/-- No fault, and no block is left when the context is discarded. -/
def DeserializeSafe (fails : AllocFails) (serialized : List UInt8) (context : DpuContext) : Prop :=
  match (dpuCheckpointDeserialize fails).run ⟨serialized, ∅, context⟩ with
  | .ok _ _ => True
  | .error (.fault _) _ => False
  | .error (.status _) s => s.live = ∅

/-! ## The bytes and failures for which it is safe -/

/-- The word at a number of words from the start. -/
def wordAt (serialized : List UInt8) (i : Nat) : UInt32 := wordOf (serialized.drop (4 * i))

/-- The header is the expected one up to a number of words, all of them in the buffer. -/
def HeaderUpTo (serialized : List UInt8) (expected : List UInt32) (n : Nat) : Prop :=
  4 * n ≤ serialized.length ∧ ∀ i (h : i < expected.length), i < n → wordAt serialized i = expected[i]

/-- A word of the header is in the buffer and is not the expected one. -/
def HeaderRefused (serialized : List UInt8) (expected : List UInt32) : Prop :=
  ∃ n, ∃ h : n < expected.length, HeaderUpTo serialized expected n ∧ 4 * (n + 1) ≤ serialized.length ∧
    wordAt serialized n ≠ expected[n]

/-- The counts that the buffer has behind its header. -/
def countsOf (serialized : List UInt8) : Counts :=
  ⟨wordAt serialized 4, wordAt serialized 5, wordAt serialized 6, wordAt serialized 7, wordAt serialized 8,
    wordAt serialized 9⟩

/-- The bytes of a checkpoint with these counts. -/
def Counts.checkpointSize (n : Counts) : Nat :=
  40 + (8 * n.iramSize).toNat + n.mramSize.toNat + (4 * n.wramSize).toNat
    + (4 * n.nrOfThreads * n.nrOfWorkRegistersPerThread).toNat + (2 * n.nrOfThreads).toNat + n.nrOfAtomicBits.toNat
    + n.nrOfThreads.toNat + n.nrOfThreads.toNat + 1 + n.nrOfThreads.toNat + 6 + 4

/-- The memories of a checkpoint with these counts. -/
def Counts.memories (n : Counts) : List Block :=
  (if n.iramSize ≠ 0 then [.iram] else []) ++ (if n.mramSize ≠ 0 then [.mram] else [])
    ++ (if n.wramSize ≠ 0 then [.wram] else [])

/-- The buffer is refused by its header, or its header and counts are there and either a block of the context cannot
be allocated or all blocks can be and the buffer is as long as the counts say. -/
inductive SafeCheckpoint (fails : AllocFails) (serialized : List UInt8) : Prop where
  | refused : HeaderRefused serialized header → SafeCheckpoint fails serialized
  | noContext : HeaderUpTo serialized header 4 → 40 ≤ serialized.length → (∃ b ∈ contextBlocks, fails b = true) →
      SafeCheckpoint fails serialized
  | complete : HeaderUpTo serialized header 4 →
      (∀ b ∈ contextBlocks ++ (countsOf serialized).memories, fails b = false) →
      (countsOf serialized).checkpointSize ≤ serialized.length → SafeCheckpoint fails serialized

/-! ## Single elements -/

theorem readBytes_run (size : Nat) (s : State) :
    (readBytes size).run s =
      if s.serialized.length < size then .error (.fault .read) s else .ok (s.serialized.take size) s := by
  by_cases h : s.serialized.length < size
  · rw [if_pos h]
    simp [readBytes, h]
    rfl
  · rw [if_neg h]
    simp [readBytes, h]

theorem deserializedNextElem_run {size : Nat} {s : State} (h : ¬ s.serialized.length < size) :
    (deserializedNextElem size).run s = .ok ⟨⟩ (s.next size) := by
  simp [deserializedNextElem, h]

/-- An element that is read, used and skipped. -/
theorem element_run {α : Type} {size : Nat} (s : State) {f : List UInt8 → DeserializeM α} :
    (readBytes size >>= f).run s =
      if s.serialized.length < size then .error (.fault .read) s else (f (s.serialized.take size)).run s := by
  rw [EStateM.run_bind, readBytes_run]
  by_cases h : s.serialized.length < size
  · rw [if_pos h, if_pos h]
  · rw [if_neg h, if_neg h]

theorem deserializedHeader_run (expected : UInt32) (s : State) :
    (deserializedHeader expected).run s =
      if s.serialized.length < 4 then .error (.fault .read) s
      else if wordOf (s.serialized.take 4) ≠ expected then .error (.status .invalidFile) s
      else .ok ⟨⟩ (s.next 4) := by
  rw [deserializedHeader, element_run]
  split
  · rfl
  · next hin =>
    split
    · simp
    · have hnext := deserializedNextElem_run hin
      simp [hnext]

theorem deserializedWord_run (s : State) :
    deserializedWord.run s =
      if s.serialized.length < 4 then .error (.fault .read) s else .ok (wordOf (s.serialized.take 4)) (s.next 4) := by
  rw [deserializedWord, element_run]
  split
  · rfl
  · next hin =>
    rw [EStateM.run_bind, deserializedNextElem_run hin]
    rfl

theorem deserializedField_run (put : UInt8 → DpuContext → DpuContext) (s : State) :
    (deserializedField put).run s =
      if s.serialized.length < 1 then .error (.fault .read) s
      else .ok ⟨⟩ { s.next 1 with context := put (s.serialized.headD 0) s.context } := by
  rw [deserializedField, element_run]
  split
  · rfl
  · next hin =>
    have hhead : (s.serialized.take 1).headD 0 = s.serialized.headD 0 := by
      cases s.serialized with
      | nil => rfl
      | cons _ _ => rfl
    have hnext := deserializedNextElem_run (s := { s with context := put (s.serialized.headD 0) s.context }) hin
    rw [hhead, EStateM.run_bind]
    exact hnext

def State.copied (s : State) (b : Block) (memory : List UInt8) : State :=
  { s with context := s.context.setBlock b (some memory) }

theorem deserializedBlock_run {b : Block} {size : Nat} {s : State} {memory : List UInt8}
    (hmemory : s.context.block b = some memory) (hroom : size ≤ memory.length) :
    (deserializedBlock b size).run s =
      if s.serialized.length < size then .error (.fault .read) s
      else .ok ⟨⟩ ((s.copied b (s.serialized.take size ++ memory.drop size)).next size) := by
  rw [deserializedBlock, element_run]
  split
  · rfl
  · next hin =>
    have hlength : (s.serialized.take size).length = size := by
      rw [List.length_take]
      omega
    have hcopy : (copyToBlock b (s.serialized.take size)).run s =
        .ok ⟨⟩ (s.copied b (s.serialized.take size ++ memory.drop size)) := by
      have hfits : ¬ memory.length < size := by omega
      simp [copyToBlock, hmemory, hlength, hfits, State.copied]
    rw [EStateM.run_bind, hcopy]
    exact deserializedNextElem_run hin

/-! ## Header and counts -/

theorem wordOf_take (bytes : List UInt8) : wordOf (bytes.take 4) = wordOf bytes := by
  match bytes with
  | [] | [_] | [_, _] | [_, _, _] | _ :: _ :: _ :: _ :: _ => rfl

theorem wordAt_next (bytes : List UInt8) (i : Nat) : wordAt (bytes.drop 4) i = wordAt bytes (i + 1) := by
  rw [wordAt, wordAt, List.drop_drop, Nat.mul_succ, Nat.add_comm]

theorem headerUpTo_next {serialized : List UInt8} {w : UInt32} {ws : List UInt32} {n : Nat}
    (hin : 4 ≤ serialized.length) (hw : wordOf serialized = w) :
    HeaderUpTo serialized (w :: ws) (n + 1) ↔ HeaderUpTo (serialized.drop 4) ws n := by
  unfold HeaderUpTo
  rw [List.length_drop]
  constructor
  · intro ⟨hlength, hwords⟩
    refine ⟨by omega, fun i hi hlt => ?_⟩
    rw [wordAt_next]
    exact hwords (i + 1) (Nat.succ_lt_succ hi) (Nat.succ_lt_succ hlt)
  · intro ⟨hlength, hwords⟩
    refine ⟨by omega, fun i hi hlt => ?_⟩
    cases i with
    | zero => exact hw
    | succ i =>
      rw [← wordAt_next]
      exact hwords i (Nat.lt_of_succ_lt_succ hi) (Nat.lt_of_succ_lt_succ hlt)

theorem headerRefused_next {serialized : List UInt8} {w : UInt32} {ws : List UInt32}
    (hin : 4 ≤ serialized.length) (hw : wordOf serialized = w) :
    HeaderRefused serialized (w :: ws) ↔ HeaderRefused (serialized.drop 4) ws := by
  constructor
  · intro ⟨n, hn, hupto, hlength, hne⟩
    cases n with
    | zero => exact absurd hw hne
    | succ n =>
      refine ⟨n, Nat.lt_of_succ_lt_succ hn, (headerUpTo_next hin hw).1 hupto, ?_, ?_⟩
      · rw [List.length_drop]
        omega
      · rw [wordAt_next]
        exact hne
  · intro ⟨n, hn, hupto, hlength, hne⟩
    rw [List.length_drop] at hlength
    refine ⟨n + 1, Nat.succ_lt_succ hn, (headerUpTo_next hin hw).2 hupto, by omega, ?_⟩
    rw [← wordAt_next]
    exact hne

/-- How the words of a header are taken. -/
theorem header_run (ws : List UInt32) (s : State) :
    (HeaderUpTo s.serialized ws ws.length ∧
        (ws.forM deserializedHeader).run s = .ok ⟨⟩ (s.next (4 * ws.length))) ∨
      (HeaderRefused s.serialized ws ∧ ∃ s', (ws.forM deserializedHeader).run s = .error (.status .invalidFile) s' ∧
        s'.live = s.live) ∨
      (¬ HeaderRefused s.serialized ws ∧ ¬ HeaderUpTo s.serialized ws ws.length ∧
        ∃ s', (ws.forM deserializedHeader).run s = .error (.fault .read) s') := by
  induction ws generalizing s with
  | nil => exact .inl ⟨⟨Nat.zero_le _, nofun⟩, rfl⟩
  | cons w ws ih =>
    have hcons : (w :: ws).forM deserializedHeader =
        deserializedHeader w >>= fun _ => ws.forM deserializedHeader := rfl
    rw [hcons, EStateM.run_bind, deserializedHeader_run, wordOf_take]
    by_cases hshort : s.serialized.length < 4
    · rw [if_pos hshort]
      refine .inr (.inr ⟨fun ⟨n, _, _, hlength, _⟩ => by omega, fun hupto => ?_, s, rfl⟩)
      have hlength := hupto.1
      rw [List.length_cons] at hlength
      omega
    · rw [if_neg hshort]
      have hin : 4 ≤ s.serialized.length := Nat.le_of_not_lt hshort
      by_cases hw : wordOf s.serialized = w
      · rw [if_neg (not_not_intro hw)]
        have hnext : (s.next 4).serialized = s.serialized.drop 4 := rfl
        have hskip : (s.next 4).next (4 * ws.length) = s.next (4 * (w :: ws).length) := by
          rw [State.next, State.next, State.next, List.drop_drop, List.length_cons, Nat.mul_succ, Nat.add_comm]
        have hrest := ih (s.next 4)
        rw [hnext, ← headerUpTo_next hin hw, ← headerRefused_next hin hw, hskip] at hrest
        exact hrest
      · rw [if_pos hw]
        exact .inr (.inl ⟨⟨0, Nat.succ_pos _, ⟨Nat.zero_le _, nofun⟩, hin, hw⟩, s, rfl, rfl⟩)

/-! ## The blocks of a context -/

@[simp] theorem DpuContext.setBlock_self (c : DpuContext) (b : Block) (memory : Option (List UInt8)) :
    (c.setBlock b memory).block b = memory := Function.update_self ..

theorem DpuContext.setBlock_other {b b' : Block} (h : b' ≠ b) (c : DpuContext) (memory : Option (List UInt8)) :
    (c.setBlock b memory).block b' = c.block b' := Function.update_of_ne h ..

/-- What `dpu_context_fill` has done when it looks at the pointers. -/
def State.calloced (s : State) (fails : AllocFails) (b : Block) (size : Nat) : State :=
  if fails b then { s with context := s.context.setBlock b none } else s.allocated b size

theorem State.calloced_block (s : State) (fails : AllocFails) (b b' : Block) (size : Nat) :
    (s.calloced fails b size).context.block b' =
      if b' = b then (if fails b then none else some (List.replicate size 0)) else s.context.block b' := by
  unfold State.calloced State.allocated
  by_cases hb : b' = b
  · rw [if_pos hb, hb]
    split <;> exact DpuContext.setBlock_self ..
  · rw [if_neg hb]
    split <;> exact DpuContext.setBlock_other hb ..

theorem State.calloced_live (s : State) (fails : AllocFails) (b : Block) (size : Nat) :
    (s.calloced fails b size).live = if fails b then s.live else insert b s.live := by
  unfold State.calloced State.allocated
  split <;> rfl

theorem State.calloced_serialized (s : State) (fails : AllocFails) (b : Block) (size : Nat) :
    (s.calloced fails b size).serialized = s.serialized := by
  unfold State.calloced State.allocated
  split <;> rfl

/-- The context when `dpu_context_fill` looks at its pointers. -/
def State.callocs (s : State) (fails : AllocFails) (info : Info) : State :=
  (((((((s.filled info).calloced fails .registers ((info.nrThreads * info.nrRegisters).toNat * 4)).calloced
    fails .pcs (info.nrThreads.toNat * 2)).calloced fails .atomicRegister info.nrAtomicBits.toNat).calloced
    fails .zeroFlags info.nrThreads.toNat).calloced fails .carryFlags info.nrThreads.toNat).calloced
    fails .scheduling info.nrThreads.toNat)

/-- The bytes of a block of the context. -/
def contextSize (info : Info) : Block → Nat
  | .registers => (info.nrThreads * info.nrRegisters).toNat * 4
  | .pcs => info.nrThreads.toNat * 2
  | .atomicRegister => info.nrAtomicBits.toNat
  | _ => info.nrThreads.toNat

theorem State.callocs_block (s : State) (fails : AllocFails) (info : Info) {b : Block} (hb : b ∈ contextBlocks) :
    (s.callocs fails info).context.block b =
      if fails b then none else some (List.replicate (contextSize info b) 0) := by
  simp only [contextBlocks, List.mem_cons, List.not_mem_nil, or_false] at hb
  rcases hb with rfl | rfl | rfl | rfl | rfl | rfl <;>
    simp [State.callocs, State.calloced_block, contextSize]

theorem State.filled_memories (s : State) (info : Info) {b : Block} (hb : b ∉ contextBlocks) :
    (s.filled info).context.block b = none := by
  cases b <;> first | rfl | exact absurd (by decide) hb

theorem State.callocs_memories (s : State) (fails : AllocFails) (info : Info) {b : Block} (hb : b ∉ contextBlocks) :
    (s.callocs fails info).context.block b = none := by
  rw [← s.filled_memories info hb]
  cases b <;> first | exact absurd (by decide) hb | simp [State.callocs, State.calloced_block]

theorem State.callocs_serialized (s : State) (fails : AllocFails) (info : Info) :
    (s.callocs fails info).serialized = s.serialized := by
  simp only [State.callocs, State.calloced_serialized]
  rfl

theorem State.mem_callocs_live (s : State) (fails : AllocFails) (info : Info) (h : fails .registers = false) :
    .registers ∈ (s.callocs fails info).live := by
  simp only [State.callocs, State.calloced_live, h]
  simp only [Bool.false_eq_true, if_false]
  repeat' split
  all_goals simp

theorem dpuFreeDpuContext_run (s : State) :
    ∃ s', dpuFreeDpuContext.run s = .ok ⟨⟩ s' ∧ s'.live = ∅ := by
  refine ⟨_, rfl, ?_⟩
  apply Finset.eq_empty_of_forall_notMem
  intro b
  cases b <;> simp [State.freed]

/-- The blocks are there, or one could not be allocated and all have been freed. -/
theorem dpuContextFill_run (fails : AllocFails) (info : Info) (s : State) :
    ((∀ b ∈ contextBlocks, fails b = false) ∧
        (dpuContextFill fails info).run s = .ok ⟨⟩ (s.callocs fails info)) ∨
      ((∃ b ∈ contextBlocks, fails b = true) ∧
        ∃ s', (dpuContextFill fails info).run s = .error (.status .system) s' ∧ s'.live = ∅) := by
  have hrun : (dpuContextFill fails info).run s =
      (if contextBlocks.any (fun b => ((s.callocs fails info).context.block b).isNone) then do
        dpuFreeDpuContext
        throw (.status .system)
      else pure ⟨⟩ : DeserializeM PUnit).run (s.callocs fails info) := by
    rfl
  rw [hrun]
  by_cases hany : ∃ b ∈ contextBlocks, fails b = true
  · obtain ⟨b, hb, hfail⟩ := hany
    have hnone : contextBlocks.any (fun b => ((s.callocs fails info).context.block b).isNone) = true := by
      apply List.any_eq_true.2
      exact ⟨b, hb, by rw [s.callocs_block fails info hb, if_pos hfail]; rfl⟩
    obtain ⟨s', hfree, hlive⟩ := dpuFreeDpuContext_run (s.callocs fails info)
    refine .inr ⟨⟨b, hb, hfail⟩, s', ?_, hlive⟩
    rw [if_pos hnone, EStateM.run_bind, hfree]
    rfl
  · have hall : ∀ b ∈ contextBlocks, fails b = false := fun b hb =>
      Bool.eq_false_iff.2 fun hfail => hany ⟨b, hb, hfail⟩
    have hsome : ¬ contextBlocks.any (fun b => ((s.callocs fails info).context.block b).isNone) = true := by
      intro htrue
      obtain ⟨b, hb, hnone⟩ := List.any_eq_true.1 htrue
      rw [s.callocs_block fails info hb, if_neg (by rw [hall b hb]; exact Bool.false_ne_true)] at hnone
      cases hnone
    refine .inl ⟨hall, ?_⟩
    rw [if_neg hsome]
    rfl

/-! ## Behind the counts -/

/-- The bytes that are copied to a block of the context. -/
def Counts.needs (n : Counts) : Block → Nat
  | .registers => (4 * n.nrOfThreads * n.nrOfWorkRegistersPerThread).toNat
  | .pcs => (2 * n.nrOfThreads).toNat
  | .atomicRegister => n.nrOfAtomicBits.toNat
  | _ => n.nrOfThreads.toNat

theorem Counts.needs_le (n : Counts) (b : Block) : n.needs b ≤ contextSize n.info b := by
  cases b with
  | registers =>
    have hmul : (4 * n.nrOfThreads * n.nrOfWorkRegistersPerThread).toNat =
        4 * (n.nrOfThreads * n.nrOfWorkRegistersPerThread).toNat % 2 ^ 32 := by
      rw [UInt32.mul_assoc, UInt32.toNat_mul]
      rfl
    show (4 * n.nrOfThreads * n.nrOfWorkRegistersPerThread).toNat ≤
      (n.nrOfThreads * n.nrOfWorkRegistersPerThread).toNat * 4
    omega
  | pcs =>
    have hmul : (2 * n.nrOfThreads).toNat = 2 * n.nrOfThreads.toNat % 2 ^ 32 := UInt32.toNat_mul ..
    show (2 * n.nrOfThreads).toNat ≤ n.nrOfThreads.toNat * 2
    omega
  | _ => exact Nat.le_refl _

/-- What a deserialisation with a context goes through. -/
inductive Step where
  | alloc (b : Block)
  /-- The buffer goes as far as the element. -/
  | upTo (n : Nat)

def Step.fails (fails : AllocFails) (serialized : List UInt8) : Step → Bool
  | .alloc b => fails b
  | .upTo n => decide (serialized.length < n)

/-- Between two elements: the cursor is at `k`, and the blocks of the context have the room they need. -/
structure Ready (serialized : List UInt8) (needs : Block → Nat) (k : Nat) (s : State) : Prop where
  cursor : s.serialized = serialized.drop k
  within : k ≤ serialized.length
  live : .registers ∈ s.live
  room : ∀ b ∈ contextBlocks, ∃ memory, s.context.block b = some memory ∧ needs b ≤ memory.length

/-- A block of the context has not been freed. -/
def Leaks (_ : Step) (s : State) : Prop := .registers ∈ s.live

variable {fails : AllocFails} {serialized : List UInt8} {needs : Block → Nat} {k : Nat}

theorem Ready.length {s : State} (h : Ready serialized needs k s) : s.serialized.length = serialized.length - k := by
  rw [h.cursor, List.length_drop]

/-- An element that is a read of some bytes and leaves the room. -/
theorem takes_element {α : Type} {x : DeserializeM α} {size : Nat} {P : State → Prop}
    (hP : ∀ s, P s → Ready serialized needs k s)
    (hshort : ∀ s, P s → s.serialized.length < size → x.run s = .error (.fault .read) s)
    (hok : ∀ s, P s → ¬ s.serialized.length < size →
      ∃ a s', x.run s = .ok a s' ∧ s'.serialized = s.serialized.drop size ∧ s'.live = s.live ∧
        ∀ b ∈ contextBlocks, ∃ memory, s'.context.block b = some memory ∧ needs b ≤ memory.length) :
    Takes (Step.fails fails serialized) [.upTo (k + size)] P x (fun _ => Ready serialized needs (k + size)) Leaks := by
  intro s hs
  have hready := hP s hs
  have hlength := hready.length
  have hwithin := hready.within
  by_cases h : s.serialized.length < size
  · have hfail : Step.fails fails serialized (.upTo (k + size)) = true := decide_eq_true (by omega)
    rw [hshort s hs h]
    exact ⟨_, List.find?_cons_of_pos hfail, hready.live⟩
  · have hfits : ¬ Step.fails fails serialized (.upTo (k + size)) = true := by
      rw [Step.fails, decide_eq_true_iff]
      omega
    obtain ⟨a, s', hrun, hcursor, hlive, hroom⟩ := hok s hs h
    rw [hrun]
    refine ⟨by rw [List.find?_cons_of_neg hfits, List.find?_nil], ?_, by omega, ?_, hroom⟩
    · rw [hcursor, hready.cursor, List.drop_drop]
    · rw [hlive]
      exact hready.live

/-- There is a block with room for some bytes. -/
def HasRoom (b : Block) (size : Nat) (s : State) : Prop :=
  ∃ memory, s.context.block b = some memory ∧ size ≤ memory.length

theorem takes_copy {b : Block} {size : Nat} (hneeds : b ∈ contextBlocks → needs b = size) :
    Takes (Step.fails fails serialized) [.upTo (k + size)] (fun s => Ready serialized needs k s ∧ HasRoom b size s)
      (deserializedBlock b size) (fun _ => Ready serialized needs (k + size)) Leaks := by
  apply takes_element
  · exact fun s hs => hs.1
  · intro s hs hshort
    obtain ⟨memory, hmemory, hroom⟩ := hs.2
    rw [deserializedBlock_run hmemory hroom, if_pos hshort]
  · intro s hs hin
    obtain ⟨memory, hmemory, hroom⟩ := hs.2
    have hrun := (deserializedBlock_run hmemory hroom).trans (if_neg hin)
    refine ⟨_, _, hrun, rfl, rfl, fun b' hb' => ?_⟩
    by_cases h : b' = b
    · subst h
      refine ⟨_, DpuContext.setBlock_self .., ?_⟩
      rw [hneeds hb', List.length_append, List.length_take, List.length_drop]
      omega
    · obtain ⟨memory', hmemory', hroom'⟩ := hs.1.room b' hb'
      exact ⟨memory', by rw [← hmemory']; exact DpuContext.setBlock_other h .., hroom'⟩

theorem takes_block {b : Block} (hb : b ∈ contextBlocks) :
    Takes (Step.fails fails serialized) [.upTo (k + needs b)] (Ready serialized needs k) (deserializedBlock b (needs b))
      (fun _ => Ready serialized needs (k + needs b)) Leaks :=
  (takes_copy fun _ => rfl).pre fun _ hs => ⟨hs, hs.room b hb⟩

theorem takes_field {put : UInt8 → DpuContext → DpuContext} (hput : ∀ v c, (put v c).block = c.block) :
    Takes (Step.fails fails serialized) [.upTo (k + 1)] (Ready serialized needs k) (deserializedField put)
      (fun _ => Ready serialized needs (k + 1)) Leaks := by
  apply takes_element fun _ hs => hs
  · intro s _ hshort
    rw [deserializedField_run, if_pos hshort]
  · intro s hs hin
    have hrun := (deserializedField_run put s).trans (if_neg hin)
    refine ⟨_, _, hrun, rfl, rfl, fun b hb => ?_⟩
    dsimp only
    rw [hput]
    exact hs.room b hb

theorem takes_word :
    Takes (Step.fails fails serialized) [.upTo (k + 4)] (Ready serialized needs k) deserializedWord
      (fun _ => Ready serialized needs (k + 4)) Leaks := by
  apply takes_element fun _ hs => hs
  · intro s _ hshort
    rw [deserializedWord_run, if_pos hshort]
  · intro s hs hin
    have hrun := (deserializedWord_run s).trans (if_neg hin)
    exact ⟨_, _, hrun, rfl, rfl, hs.room⟩

theorem takes_put {put : DpuContext → DpuContext} (hput : ∀ c, (put c).block = c.block) :
    Takes (Step.fails fails serialized) [] (Ready serialized needs k)
      (modify fun s => { s with context := put s.context } : DeserializeM PUnit)
      (fun _ => Ready serialized needs k) Leaks := by
  apply takes_modify
  intro s hs
  refine ⟨hs.cursor, hs.within, hs.live, fun b hb => ?_⟩
  dsimp only
  rw [hput]
  exact hs.room b hb

/-- The blocks that are freed when a memory cannot be allocated are memories. -/
theorem freeBlocks_run (undo : List Block) (s : State) (hundo : .registers ∉ undo) (hlive : .registers ∈ s.live) :
    ∃ s', (undo.forM freeBlock).run s = .ok ⟨⟩ s' ∧ .registers ∈ s'.live := by
  induction undo generalizing s with
  | nil => exact ⟨s, rfl, hlive⟩
  | cons b undo ih =>
    rw [List.mem_cons, not_or] at hundo
    have hcons : ((b :: undo).forM freeBlock).run s = (undo.forM freeBlock).run (s.freed b) := rfl
    rw [hcons]
    exact ih (s.freed b) hundo.2 (Finset.mem_erase.2 ⟨hundo.1, hlive⟩)

/-- A memory: its allocation, then its bytes. -/
theorem takes_memory {b : Block} {size byteSize : UInt32} {undo : List Block} (hb : b ∉ contextBlocks)
    (hundo : .registers ∉ undo) (hzero : size = 0 → byteSize.toNat = 0) :
    Takes (Step.fails fails serialized) (if size ≠ 0 then [.alloc b] ++ [.upTo (k + byteSize.toNat)] else [])
      (Ready serialized needs k) (deserializedMemory fails b size byteSize undo)
      (fun _ => Ready serialized needs (k + byteSize.toNat)) Leaks := by
  rw [deserializedMemory]
  apply takes_ite
  · intro _
    have hother : ∀ {b'}, b' ∈ contextBlocks → b' ≠ b := fun hb' heq => hb (heq ▸ hb')
    apply takes_bind (R := fun _ s => Ready serialized needs k s ∧ HasRoom b byteSize.toNat s)
    · intro s hs
      by_cases hfail : fails b = true
      · obtain ⟨s', hfree, hlive⟩ := freeBlocks_run undo s hundo hs.live
        have hrun : (malloc fails b byteSize.toNat undo).run s = .error (.status .system) s' := by
          rw [malloc, if_pos hfail, EStateM.run_bind, hfree]
          rfl
        rw [hrun]
        exact ⟨.alloc b, List.find?_cons_of_pos hfail, hlive⟩
      · have hrun : (malloc fails b byteSize.toNat undo).run s = .ok ⟨⟩ (s.allocated b byteSize.toNat) := by
          rw [malloc, if_neg hfail]
          rfl
        have hpass : ¬ Step.fails fails serialized (.alloc b) = true := hfail
        rw [hrun]
        refine ⟨by rw [List.find?_cons_of_neg hpass, List.find?_nil], ⟨hs.cursor, hs.within, ?_, ?_⟩, ?_⟩
        · exact Finset.mem_insert_of_mem hs.live
        · intro b' hb'
          obtain ⟨memory, hmemory, hroom⟩ := hs.room b' hb'
          exact ⟨memory, by rw [← hmemory]; exact DpuContext.setBlock_other (hother hb') .., hroom⟩
        · exact ⟨_, DpuContext.setBlock_self .., by rw [List.length_replicate]⟩
    · exact fun _ => takes_copy fun hmem => absurd hmem hb
  · intro h
    rw [not_ne_iff] at h
    rw [hzero h]
    exact takes_pure fun _ hs => hs

def memorySteps (b : Block) (size : UInt32) (last : Nat) : List Step :=
  if size ≠ 0 then [.alloc b, .upTo last] else []

/-- Elements of these sizes, from `k` on. -/
def elemSteps : Nat → List Nat → List Step
  | _, [] => []
  | k, size :: sizes => .upTo (k + size) :: elemSteps (k + size) sizes

/-- What is needed behind the counts, in the order in which it is. -/
def Counts.steps (n : Counts) : List Step :=
  let iramEnd := 40 + (8 * n.iramSize).toNat
  let mramEnd := iramEnd + n.mramSize.toNat
  let wramEnd := mramEnd + (4 * n.wramSize).toNat
  memorySteps .iram n.iramSize iramEnd ++ (memorySteps .mram n.mramSize mramEnd
    ++ (memorySteps .wram n.wramSize wramEnd ++ elemSteps wramEnd
      [n.needs .registers, n.needs .pcs, n.needs .atomicRegister, n.needs .zeroFlags, n.needs .carryFlags, 1,
        n.needs .scheduling, 1, 1, 1, 1, 1, 1, 4]))

theorem takes_elems (n : Counts) :
    Takes (Step.fails fails serialized) n.steps (Ready serialized n.needs 40) (deserializedElems fails n)
      (fun _ _ => True) Leaks := by
  unfold deserializedElems
  apply takes_bind (takes_memory (by decide) (by decide) fun h => by rw [h]; rfl)
  intro _
  apply takes_bind (takes_memory (by decide) (by decide) fun h => by rw [h]; rfl)
  intro _
  apply takes_bind (takes_memory (by decide) (by decide) fun h => by rw [h]; rfl)
  intro _
  apply takes_bind (takes_block (b := .registers) (by decide))
  intro _
  apply takes_bind (takes_block (b := .pcs) (by decide))
  intro _
  apply takes_bind (takes_block (b := .atomicRegister) (by decide))
  intro _
  apply takes_bind (takes_block (b := .zeroFlags) (by decide))
  intro _
  apply takes_bind (takes_block (b := .carryFlags) (by decide))
  intro _
  apply takes_bind (takes_field fun _ _ => by rfl)
  intro _
  apply takes_bind (takes_block (b := .scheduling) (by decide))
  intro _
  apply takes_bind (takes_field fun _ _ => by rfl)
  intro _
  apply takes_bind (takes_field fun _ _ => by rfl)
  intro _
  apply takes_bind (takes_field fun _ _ => by rfl)
  intro _
  apply takes_bind (takes_field fun _ _ => by rfl)
  intro _
  apply takes_bind (takes_field fun _ _ => by rfl)
  intro _
  apply takes_bind (takes_field fun _ _ => by rfl)
  intro _
  apply takes_bind takes_word
  intro _
  exact (takes_put fun _ => rfl).post fun _ _ _ => trivial

theorem upTo_passes {n : Nat} :
    Step.fails fails serialized (.upTo n) = false ↔ n ≤ serialized.length := by
  rw [Step.fails, decide_eq_false_iff_not]
  exact Nat.not_lt

theorem memorySteps_pass {b : Block} {size : UInt32} {last : Nat} :
    (∀ step ∈ memorySteps b size last, Step.fails fails serialized step = false) ↔
      (size ≠ 0 → fails b = false) ∧ (size ≠ 0 → last ≤ serialized.length) := by
  unfold memorySteps
  by_cases h : size ≠ 0
  · rw [if_pos h, List.forall_mem_cons, List.forall_mem_singleton, upTo_passes]
    exact ⟨fun hp => ⟨fun _ => hp.1, fun _ => hp.2⟩, fun hp => ⟨hp.1 h, hp.2 h⟩⟩
  · rw [if_neg h]
    exact ⟨fun _ => ⟨fun hne => absurd hne h, fun hne => absurd hne h⟩, fun _ => nofun⟩

theorem elemSteps_pass {sizes : List Nat} {k : Nat} (hk : sizes ≠ []) :
    (∀ step ∈ elemSteps k sizes, Step.fails fails serialized step = false) ↔
      k + sizes.sum ≤ serialized.length := by
  induction sizes generalizing k with
  | nil => exact absurd rfl hk
  | cons size sizes ih =>
    rw [elemSteps, List.forall_mem_cons, upTo_passes, List.sum_cons]
    cases sizes with
    | nil =>
      rw [List.sum_nil]
      exact ⟨fun h => h.1, fun h => ⟨h, nofun⟩⟩
    | cons size' sizes =>
      rw [ih (List.cons_ne_nil _ _)]
      omega

theorem steps_pass (n : Counts) :
    n.steps.find? (Step.fails fails serialized) = none ↔
      (∀ b ∈ n.memories, fails b = false) ∧ n.checkpointSize ≤ serialized.length := by
  have hsize : (n.steps.find? (Step.fails fails serialized) = none) ↔
      ∀ step ∈ n.steps, Step.fails fails serialized step = false := by
    rw [List.find?_eq_none]
    exact forall₂_congr fun _ _ => Bool.not_eq_true _ |>.to_iff
  have hmemories : (∀ b ∈ n.memories, fails b = false) ↔
      (n.iramSize ≠ 0 → fails .iram = false) ∧ (n.mramSize ≠ 0 → fails .mram = false) ∧
        (n.wramSize ≠ 0 → fails .wram = false) := by
    unfold Counts.memories
    split <;> split <;> split <;> simp_all
  rw [hsize, hmemories, Counts.steps]
  rw [List.forall_mem_append, List.forall_mem_append, List.forall_mem_append, memorySteps_pass, memorySteps_pass,
    memorySteps_pass, elemSteps_pass (List.cons_ne_nil _ _)]
  simp only [List.sum_cons, List.sum_nil, Counts.checkpointSize, Counts.needs]
  constructor
  · intro ⟨⟨hiram, _⟩, ⟨hmram, _⟩, ⟨hwram, _⟩, hall⟩
    exact ⟨⟨hiram, hmram, hwram⟩, by omega⟩
  · intro ⟨⟨hiram, hmram, hwram⟩, hall⟩
    exact ⟨⟨hiram, fun _ => by omega⟩, ⟨hmram, fun _ => by omega⟩, ⟨hwram, fun _ => by omega⟩, by omega⟩

/-! ## The counts -/

theorem deserializedWord_bind {α : Type} (f : UInt32 → DeserializeM α) (s : State) :
    (deserializedWord >>= f).run s =
      if s.serialized.length < 4 then .error (.fault .read) s else (f (wordOf s.serialized)).run (s.next 4) := by
  rw [EStateM.run_bind, deserializedWord_run, wordOf_take]
  by_cases h : s.serialized.length < 4
  · rw [if_pos h, if_pos h]
  · rw [if_neg h, if_neg h]

theorem State.length_next (s : State) (size : Nat) : (s.next size).serialized.length = s.serialized.length - size :=
  List.length_drop ..

theorem State.next_next (s : State) (m n : Nat) : (s.next m).next n = s.next (m + n) := by
  rw [State.next, State.next, State.next, List.drop_drop]

theorem deserializedCounts_short {s : State} (h : s.serialized.length < 24) :
    ∃ s', deserializedCounts.run s = .error (.fault .read) s' := by
  unfold deserializedCounts
  rw [deserializedWord_bind]
  split
  · exact ⟨_, rfl⟩
  rw [deserializedWord_bind]
  split
  · exact ⟨_, rfl⟩
  rw [deserializedWord_bind]
  split
  · exact ⟨_, rfl⟩
  rw [deserializedWord_bind]
  split
  · exact ⟨_, rfl⟩
  rw [deserializedWord_bind]
  split
  · exact ⟨_, rfl⟩
  rw [deserializedWord_bind]
  split
  · exact ⟨_, rfl⟩
  simp only [State.length_next] at *
  omega

theorem deserializedCounts_run {s : State} (h : 24 ≤ s.serialized.length) :
    deserializedCounts.run s = .ok ⟨wordAt s.serialized 0, wordAt s.serialized 1, wordAt s.serialized 2,
      wordAt s.serialized 3, wordAt s.serialized 4, wordAt s.serialized 5⟩ (s.next 24) := by
  have hword : ∀ i, wordOf (s.next (4 * i)).serialized = wordAt s.serialized i := fun _ => rfl
  have hin : ∀ {n}, n + 4 ≤ 24 → ¬ (s.next n).serialized.length < 4 := by
    intro n hn
    rw [State.length_next]
    omega
  unfold deserializedCounts
  rw [deserializedWord_bind, if_neg (by omega), deserializedWord_bind, if_neg (hin (by decide)),
    deserializedWord_bind, State.next_next, if_neg (hin (by decide)), deserializedWord_bind, State.next_next,
    if_neg (hin (by decide)), deserializedWord_bind, State.next_next, if_neg (hin (by decide)),
    deserializedWord_bind, State.next_next, if_neg (hin (by decide)), State.next_next]
  rfl

/-! ## The deserialisation -/

theorem headerUpTo_not_refused {expected : List UInt32} (h : HeaderUpTo serialized expected expected.length) :
    ¬ HeaderRefused serialized expected :=
  fun ⟨_, hn, _, _, hne⟩ => hne (h.2 _ hn hn)

theorem dpuCheckpointDeserialize_short (context : DpuContext) (hheader : HeaderUpTo serialized header 4)
    (hshort : serialized.length < 40) :
    ∃ s', (dpuCheckpointDeserialize fails).run ⟨serialized, ∅, context⟩ = .error (.fault .read) s' := by
  rw [dpuCheckpointDeserialize, EStateM.run_bind]
  obtain ⟨_, hrun⟩ | ⟨hrefused, _⟩ | ⟨_, hnot, _⟩ := header_run header ⟨serialized, ∅, context⟩
  · have hleft : ((⟨serialized, ∅, context⟩ : State).next 16).serialized.length < 24 := by
      rw [State.length_next]
      dsimp only
      omega
    obtain ⟨s', hcounts⟩ := deserializedCounts_short hleft
    rw [hrun]
    dsimp only
    rw [EStateM.run_bind]
    refine ⟨s', ?_⟩
    rw [show 4 * header.length = 16 from rfl, hcounts]
  · exact absurd hrefused (headerUpTo_not_refused hheader)
  · exact absurd hheader hnot

/-- What is left to do once the counts have been read. -/
theorem dpuCheckpointDeserialize_run {context : DpuContext} (hheader : HeaderUpTo serialized header 4)
    (hcounts : 40 ≤ serialized.length) :
    (dpuCheckpointDeserialize fails).run ⟨serialized, ∅, context⟩ =
      (dpuContextFill fails (countsOf serialized).info >>= fun _ => deserializedElems fails (countsOf serialized)).run
        ⟨serialized.drop 40, ∅, context⟩ := by
  rw [dpuCheckpointDeserialize, EStateM.run_bind]
  obtain ⟨_, hrun⟩ | ⟨hrefused, _⟩ | ⟨_, hnot, _⟩ := header_run header ⟨serialized, ∅, context⟩
  · have hleft : 24 ≤ ((⟨serialized, ∅, context⟩ : State).next 16).serialized.length := by
      rw [State.length_next]
      dsimp only
      omega
    have hwords : ∀ i, wordAt (serialized.drop 16) i = wordAt serialized (4 + i) := by
      intro i
      rw [wordAt, wordAt, List.drop_drop, Nat.mul_add]
    rw [hrun]
    dsimp only
    rw [EStateM.run_bind, show 4 * header.length = 16 from rfl, deserializedCounts_run hleft]
    dsimp only
    rw [State.next_next]
    show (dpuContextFill fails (Counts.info ⟨wordAt (serialized.drop 16) 0, _, _, _, _, _⟩) >>= _).run _ = _
    simp only [State.next, hwords]
    rfl
  · exact absurd hrefused (headerUpTo_not_refused hheader)
  · exact absurd hheader hnot

/-- With a context, all that is left must be there. -/
theorem elems_safe_iff {s : State} (n : Counts) (hs : Ready serialized n.needs 40 s) :
    (match (deserializedElems fails n).run s with
      | .ok _ _ => True
      | .error (.fault _) _ => False
      | .error (.status _) s' => s'.live = ∅) ↔
      (∀ b ∈ n.memories, fails b = false) ∧ n.checkpointSize ≤ serialized.length := by
  rw [← steps_pass]
  have hend := (@takes_elems fails serialized n).run hs
  cases hfind : n.steps.find? (Step.fails fails serialized) with
  | none =>
    rw [hfind] at hend
    obtain ⟨_, _, hrun, _⟩ := hend
    rw [hrun]
    exact ⟨fun _ => rfl, fun _ => trivial⟩
  | some step =>
    rw [hfind] at hend
    obtain ⟨stop, s', hrun, hlive⟩ := hend
    rw [hrun]
    refine ⟨fun hsafe => ?_, nofun⟩
    cases stop with
    | fault f => exact hsafe.elim
    | status e =>
      have hempty : s'.live = ∅ := hsafe
      rw [Leaks, hempty] at hlive
      exact absurd hlive (Finset.notMem_empty _)

theorem callocs_ready (n : Counts) {s : State} (hs : s.serialized = serialized.drop 40) (hcounts : 40 ≤ serialized.length)
    (hall : ∀ b ∈ contextBlocks, fails b = false) : Ready serialized n.needs 40 (s.callocs fails n.info) := by
  refine ⟨?_, hcounts, s.mem_callocs_live fails n.info (hall _ (by decide)), fun b hb => ?_⟩
  · rw [State.callocs_serialized, hs]
  · have hpass : ¬ fails b = true := Bool.eq_false_iff.1 (hall b hb)
    refine ⟨_, by rw [s.callocs_block fails n.info hb, if_neg hpass], ?_⟩
    rw [List.length_replicate]
    exact n.needs_le b

theorem checkpointSize_ge (n : Counts) : 40 ≤ n.checkpointSize := by
  unfold Counts.checkpointSize
  omega

theorem deserializeSafe_iff (fails : AllocFails) (serialized : List UInt8) (context : DpuContext) :
    DeserializeSafe fails serialized context ↔ SafeCheckpoint fails serialized := by
  by_cases hheader : HeaderUpTo serialized header 4
  · have hnot := @headerUpTo_not_refused serialized header hheader
    by_cases hcounts : 40 ≤ serialized.length
    · rw [DeserializeSafe, dpuCheckpointDeserialize_run hheader hcounts, EStateM.run_bind]
      obtain ⟨hall, hfill⟩ | ⟨hfail, s', hfill, hlive⟩ :=
        dpuContextFill_run fails (countsOf serialized).info ⟨serialized.drop 40, ∅, context⟩
      · rw [hfill]
        dsimp only
        rw [elems_safe_iff _ (callocs_ready _ rfl hcounts hall)]
        constructor
        · intro ⟨hmemories, hsize⟩
          apply SafeCheckpoint.complete hheader _ hsize
          intro b hb
          rcases List.mem_append.1 hb with hb | hb
          · exact hall b hb
          · exact hmemories b hb
        · intro hsafe
          cases hsafe with
          | refused h => exact absurd h hnot
          | noContext _ _ hfail =>
            obtain ⟨b, hb, hfail⟩ := hfail
            rw [hall b hb] at hfail
            cases hfail
          | complete _ hpass hsize => exact ⟨fun b hb => hpass b (List.mem_append_right _ hb), hsize⟩
      · rw [hfill]
        exact ⟨fun _ => .noContext hheader hcounts hfail, fun _ => hlive⟩
    · obtain ⟨s', hrun⟩ := @dpuCheckpointDeserialize_short fails serialized context hheader
        (Nat.lt_of_not_le hcounts)
      rw [DeserializeSafe, hrun]
      refine ⟨False.elim, fun hsafe => hcounts ?_⟩
      cases hsafe with
      | refused h => exact absurd h hnot
      | noContext _ hlength _ => exact hlength
      | complete _ _ hsize => exact Nat.le_trans (checkpointSize_ge _) hsize
  · rw [DeserializeSafe, dpuCheckpointDeserialize, EStateM.run_bind]
    obtain ⟨hupto, _⟩ | ⟨hrefused, s', hrun, hlive⟩ | ⟨hnot, _, s', hrun⟩ := header_run header ⟨serialized, ∅, context⟩
    · exact absurd hupto hheader
    · rw [hrun]
      exact ⟨fun _ => .refused hrefused, fun _ => hlive⟩
    · rw [hrun]
      refine ⟨False.elim, fun hsafe => ?_⟩
      cases hsafe with
      | refused h => exact absurd h hnot
      | noContext h _ _ => exact absurd h hheader
      | complete h _ _ => exact absurd h hheader

/-- A context of which nothing has been set. -/
def emptyContext : DpuContext := ⟨⟨0, 0, 0, 0, 0, 0⟩, fun _ => none, 0, 0, 0, 0, 0, 0, 0, 0⟩

/-- A buffer that ends behind the first word of the header. -/
theorem truncated_not_deserializeSafe :
    ¬ DeserializeSafe (fun _ => false) [0xAF, 0xDB, 0xBD, 0xFA] emptyContext := by
  have hfirst : wordOf [0xAF, 0xDB, 0xBD, 0xFA] = serializedContextMagic := by decide
  obtain ⟨hupto, _⟩ | ⟨hrefused, _⟩ | ⟨_, _, s', hrun⟩ :=
    header_run header ⟨[0xAF, 0xDB, 0xBD, 0xFA], ∅, emptyContext⟩
  · exact absurd hupto.1 (by decide)
  · obtain ⟨n, hn, _, hlength, hne⟩ := hrefused
    have hzero : n = 0 := by
      have hfour : 4 * (n + 1) ≤ 4 := hlength
      omega
    subst hzero
    exact absurd hfirst hne
  · rw [DeserializeSafe, dpuCheckpointDeserialize, EStateM.run_bind, hrun]
    exact id

end DpuBackend.Api.Checkpoint
