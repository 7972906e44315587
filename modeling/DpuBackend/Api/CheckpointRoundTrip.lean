import DpuBackend.Api.Checkpoint

/-
  The round trip of a checkpoint (`dpu_debug.c`).

  C ↔ Lean:
    dpu_checkpoint_get_serialized_context_size   ↔ dpuCheckpointGetSerializedContextSize
    SERIALIZED_ELEM                              ↔ serializedElem
    dpu_checkpoint_serialize                     ↔ dpuCheckpointSerialize

  A context whose arrays have the sizes that its info gives is written in as many
  bytes as it is said to have, and these bytes are read back to the same context.
  A memory of no bytes has no pointer afterwards, as if it had been absent.
-/

namespace DpuBackend.Api.Checkpoint

open DpuBackend.Lib

/-! ## The code -/

/-- The size of a memory in its own unit, which is 0 without a pointer. -/
def sizeIfPresent (c : DpuContext) (b : Block) (size : UInt32) : UInt32 := if (c.block b).isNone then 0 else size

def dpuCheckpointGetSerializedContextSize (c : DpuContext) : UInt32 :=
  let nrOfThreads := c.info.nrThreads
  let nrOfWorkRegistersPerThread := c.info.nrRegisters
  let nrOfAtomicBits := c.info.nrAtomicBits
  let iramSize := sizeIfPresent c .iram (8 * c.info.iramSize.toUInt32)
  let mramSize := sizeIfPresent c .mram c.info.mramSize
  let wramSize := sizeIfPresent c .wram (4 * c.info.wramSize)
  let registersSize := 4 * nrOfThreads * nrOfWorkRegistersPerThread
  let pcsSize := 2 * nrOfThreads
  let atomicRegisterSize := nrOfAtomicBits
  let zeroFlagsSize := nrOfThreads
  let carryFlagsSize := nrOfThreads
  let schedulingSize := nrOfThreads
  4 + 4 + 4 + 4 + 4 + 4 + 4 + 4 + 4 + 4 + iramSize + mramSize + wramSize + registersSize + pcsSize + atomicRegisterSize
    + zeroFlagsSize + carryFlagsSize + 1 + schedulingSize + 1 + 1 + 1 + 1 + 1 + 1 + 4

def bytesOf (w : UInt32) : List UInt8 := (Layout.word 4).encode w.toBitVec

/-- What is copied from a pointer, and how many bytes of it. -/
def serializedElems (c : DpuContext) : List (List UInt8 × Nat) :=
  let nrOfThreads := c.info.nrThreads
  let nrInstructions := sizeIfPresent c .iram c.info.iramSize.toUInt32
  let nrWramWords := sizeIfPresent c .wram c.info.wramSize
  let mramSize := sizeIfPresent c .mram c.info.mramSize
  let iramSize := 8 * nrInstructions
  let wramSize := 4 * nrWramWords
  let registersSize := 4 * nrOfThreads * c.info.nrRegisters
  let pcsSize := 2 * nrOfThreads
  let atomicRegisterSize := c.info.nrAtomicBits
  let zeroFlagsSize := nrOfThreads
  let carryFlagsSize := nrOfThreads
  let schedulingSize := nrOfThreads
  [(bytesOf serializedContextMagic, 4), (bytesOf serializedContextChipVersion, 4),
    (bytesOf serializedContextVersion, 4), (bytesOf serializedContextMagic, 4), (bytesOf c.info.nrThreads, 4),
    (bytesOf c.info.nrRegisters, 4), (bytesOf c.info.nrAtomicBits, 4), (bytesOf nrInstructions, 4),
    (bytesOf mramSize, 4), (bytesOf nrWramWords, 4), ((c.block .iram).getD [], iramSize.toNat),
    ((c.block .mram).getD [], mramSize.toNat), ((c.block .wram).getD [], wramSize.toNat),
    ((c.block .registers).getD [], registersSize.toNat), ((c.block .pcs).getD [], pcsSize.toNat),
    ((c.block .atomicRegister).getD [], atomicRegisterSize.toNat),
    ((c.block .zeroFlags).getD [], zeroFlagsSize.toNat), ((c.block .carryFlags).getD [], carryFlagsSize.toNat),
    ([c.nrOfRunningThreads], 1), ((c.block .scheduling).getD [], schedulingSize.toNat), ([c.bkpFault], 1),
    ([c.dmaFault], 1), ([c.memFault], 1), ([c.bkpFaultThreadIndex], 1), ([c.dmaFaultThreadIndex], 1),
    ([c.memFaultThreadIndex], 1), (bytesOf c.bkpFaultId, 4)]

def serializedElem (elem : List UInt8 × Nat) : Except Fault (List UInt8) :=
  if elem.1.length < elem.2 then .error .read else .ok (elem.1.take elem.2)

inductive Serialized where
  | fault (f : Fault)
  | systemError
  | invalidBufferSize
  | written (bytes : List UInt8)
  deriving DecidableEq

/-- The elements behind one another, in a buffer of `size` bytes. -/
def serializeTo (c : DpuContext) (size : Nat) : Serialized :=
  match (serializedElems c).mapM serializedElem with
  | .error f => .fault f
  | .ok elems => if size < elems.flatten.length then .fault .write else .written elems.flatten

/-- `buffer` is the size of the buffer that is given, if there is one. -/
def dpuCheckpointSerialize (mallocFails : Bool) (buffer : Option Nat) (c : DpuContext) : Serialized :=
  let serializedSize := (dpuCheckpointGetSerializedContextSize c).toNat
  match buffer with
  | none => if mallocFails then .systemError else serializeTo c serializedSize
  | some size => if size ≠ serializedSize then .invalidBufferSize else serializeTo c serializedSize

/-! ## The round trip -/

/-- The bytes of a memory: none without a pointer. -/
def memoryOf (c : DpuContext) (b : Block) : List UInt8 := (c.block b).getD []

def contextBytes (c : DpuContext) : Nat :=
  40 + (memoryOf c .iram).length + (memoryOf c .mram).length + (memoryOf c .wram).length
    + (memoryOf c .registers).length + (memoryOf c .pcs).length + (memoryOf c .atomicRegister).length
    + (memoryOf c .zeroFlags).length + (memoryOf c .carryFlags).length + 1 + (memoryOf c .scheduling).length + 6 + 4

/-- The arrays have the sizes that the info gives, and all of it has a size of 32 bits. -/
structure Sized (c : DpuContext) : Prop where
  iram : ∀ memory, c.block .iram = some memory → memory.length = 8 * c.info.iramSize.toNat
  mram : ∀ memory, c.block .mram = some memory → memory.length = c.info.mramSize.toNat
  wram : ∀ memory, c.block .wram = some memory → memory.length = 4 * c.info.wramSize.toNat
  present : ∀ b ∈ contextBlocks, (c.block b).isSome
  registers : (memoryOf c .registers).length = 4 * c.info.nrThreads.toNat * c.info.nrRegisters.toNat
  pcs : (memoryOf c .pcs).length = 2 * c.info.nrThreads.toNat
  atomicRegister : (memoryOf c .atomicRegister).length = c.info.nrAtomicBits.toNat
  zeroFlags : (memoryOf c .zeroFlags).length = c.info.nrThreads.toNat
  carryFlags : (memoryOf c .carryFlags).length = c.info.nrThreads.toNat
  scheduling : (memoryOf c .scheduling).length = c.info.nrThreads.toNat
  total : contextBytes c < 2 ^ 32

/-- What a context is after the round trip. -/
structure Restored (c d : DpuContext) : Prop where
  nrThreads : d.info.nrThreads = c.info.nrThreads
  nrRegisters : d.info.nrRegisters = c.info.nrRegisters
  nrAtomicBits : d.info.nrAtomicBits = c.info.nrAtomicBits
  blocks : ∀ b ∈ contextBlocks, d.block b = c.block b
  /-- The memories have the same bytes, with a pointer if there are any. -/
  memories : ∀ b ∉ contextBlocks, d.block b = c.block b ∨ (c.block b = some [] ∧ d.block b = none)
  iramSize : d.info.iramSize = if (c.block .iram).isNone then 0 else c.info.iramSize
  mramSize : d.info.mramSize = if (c.block .mram).isNone then 0 else c.info.mramSize
  wramSize : d.info.wramSize = if (c.block .wram).isNone then 0 else c.info.wramSize
  nrOfRunningThreads : d.nrOfRunningThreads = c.nrOfRunningThreads
  bkpFault : d.bkpFault = c.bkpFault
  dmaFault : d.dmaFault = c.dmaFault
  memFault : d.memFault = c.memFault
  bkpFaultThreadIndex : d.bkpFaultThreadIndex = c.bkpFaultThreadIndex
  dmaFaultThreadIndex : d.dmaFaultThreadIndex = c.dmaFaultThreadIndex
  memFaultThreadIndex : d.memFaultThreadIndex = c.memFaultThreadIndex
  bkpFaultId : d.bkpFaultId = c.bkpFaultId

/-! ## Sizes -/

theorem toNat_of_eq_ofNat {w : UInt32} {n : Nat} (h : w = UInt32.ofNat n) (hn : n < 2 ^ 32) : w.toNat = n := by
  rw [h]
  exact UInt32.toNat_ofNat_of_lt' hn

theorem sizeIfPresent_eq {c : DpuContext} {b : Block} {size : UInt32} (unit : Nat)
    (h : ∀ memory, c.block b = some memory → memory.length = unit * size.toNat) :
    UInt32.ofNat unit * sizeIfPresent c b size = UInt32.ofNat (memoryOf c b).length := by
  unfold sizeIfPresent memoryOf
  cases hb : c.block b with
  | none => simp
  | some memory => simp [h memory hb, UInt32.ofNat_mul]

theorem mul_sizeIfPresent (c : DpuContext) (b : Block) (unit size : UInt32) :
    sizeIfPresent c b (unit * size) = unit * sizeIfPresent c b size := by
  unfold sizeIfPresent
  split
  · rw [UInt32.mul_zero]
  · rfl

theorem Sized.iramBytes {c : DpuContext} (h : Sized c) :
    8 * sizeIfPresent c .iram c.info.iramSize.toUInt32 = UInt32.ofNat (memoryOf c .iram).length :=
  sizeIfPresent_eq 8 fun memory hm => by rw [h.iram memory hm, UInt16.toNat_toUInt32]

theorem Sized.mramBytes {c : DpuContext} (h : Sized c) :
    sizeIfPresent c .mram c.info.mramSize = UInt32.ofNat (memoryOf c .mram).length := by
  have hmram : UInt32.ofNat 1 * sizeIfPresent c .mram c.info.mramSize = UInt32.ofNat (memoryOf c .mram).length :=
    sizeIfPresent_eq 1 fun memory hm => by rw [h.mram memory hm, Nat.one_mul]
  rw [← hmram]
  exact (UInt32.one_mul _).symm

theorem Sized.wramBytes {c : DpuContext} (h : Sized c) :
    4 * sizeIfPresent c .wram c.info.wramSize = UInt32.ofNat (memoryOf c .wram).length :=
  sizeIfPresent_eq 4 h.wram

theorem Sized.registersBytes {c : DpuContext} (h : Sized c) :
    4 * c.info.nrThreads * c.info.nrRegisters = UInt32.ofNat (memoryOf c .registers).length := by
  rw [h.registers, UInt32.ofNat_mul, UInt32.ofNat_mul, UInt32.ofNat_toNat, UInt32.ofNat_toNat]
  rfl

theorem Sized.pcsBytes {c : DpuContext} (h : Sized c) :
    2 * c.info.nrThreads = UInt32.ofNat (memoryOf c .pcs).length := by
  rw [h.pcs, UInt32.ofNat_mul, UInt32.ofNat_toNat]
  rfl

theorem serializedContextSize {c : DpuContext} (h : Sized c) :
    (dpuCheckpointGetSerializedContextSize c).toNat = contextBytes c := by
  apply toNat_of_eq_ofNat _ h.total
  unfold dpuCheckpointGetSerializedContextSize contextBytes
  simp only [mul_sizeIfPresent, h.iramBytes, h.mramBytes, h.wramBytes, h.registersBytes, h.pcsBytes, h.atomicRegister,
    h.zeroFlags, h.carryFlags, h.scheduling, UInt32.ofNat_add, UInt32.ofNat_toNat]
  grind

/-! ## The bytes that are written -/

theorem length_bytesOf (w : UInt32) : (bytesOf w).length = 4 := (Layout.word 4).length_encode _

theorem wordOf_decode (bytes : List UInt8) : wordOf bytes = UInt32.ofBitVec ((Layout.word 4).decode bytes) := rfl

/-- The words that a buffer starts with. -/
theorem wordAt_words {ws : List UInt32} (rest : List UInt8) {i : Nat} (hi : i < ws.length) :
    wordAt (ws.flatMap bytesOf ++ rest) i = ws[i] := by
  have hall : ws.flatMap bytesOf = (Layout.word 4).encodeAll (ws.map UInt32.toBitVec) := by
    rw [Layout.encodeAll, List.flatMap_map]
    rfl
  have hmap : i < (ws.map UInt32.toBitVec).length := by rwa [List.length_map]
  have hdecode := (Layout.word 4).decode_encodeAll hmap rest
  rw [wordAt, wordOf_decode, hall]
  refine (congrArg UInt32.ofBitVec hdecode).trans ?_
  rw [List.getElem_map]

theorem length_words (ws : List UInt32) : (ws.flatMap bytesOf).length = 4 * ws.length := by
  induction ws with
  | nil => rfl
  | cons w ws ih =>
    rw [List.flatMap_cons, List.length_append, length_bytesOf, ih, List.length_cons]
    omega

/-- The words at the start of a checkpoint. -/
def headWords (c : DpuContext) : List UInt32 :=
  header ++ [c.info.nrThreads, c.info.nrRegisters, c.info.nrAtomicBits,
    sizeIfPresent c .iram c.info.iramSize.toUInt32, sizeIfPresent c .mram c.info.mramSize,
    sizeIfPresent c .wram c.info.wramSize]

/-- What follows these words. -/
def elemBytes (c : DpuContext) : List UInt8 :=
  memoryOf c .iram ++ (memoryOf c .mram ++ (memoryOf c .wram ++ (memoryOf c .registers ++ (memoryOf c .pcs ++
    (memoryOf c .atomicRegister ++ (memoryOf c .zeroFlags ++ (memoryOf c .carryFlags ++ ([c.nrOfRunningThreads] ++
    (memoryOf c .scheduling ++ ([c.bkpFault] ++ ([c.dmaFault] ++ ([c.memFault] ++ ([c.bkpFaultThreadIndex] ++
    ([c.dmaFaultThreadIndex] ++ ([c.memFaultThreadIndex] ++ bytesOf c.bkpFaultId)))))))))))))))

def checkpointOf (c : DpuContext) : List UInt8 := (headWords c).flatMap bytesOf ++ elemBytes c

theorem length_checkpointOf (c : DpuContext) : (checkpointOf c).length = contextBytes c := by
  rw [checkpointOf, List.length_append, length_words]
  simp only [elemBytes, List.length_append, length_bytesOf, List.length_cons, List.length_nil, contextBytes, headWords,
    header]
  omega

theorem serializedElem_mapM {elems : List (List UInt8 × Nat)} (h : ∀ elem ∈ elems, elem.1.length = elem.2) :
    elems.mapM serializedElem = .ok (elems.map Prod.fst) := by
  induction elems with
  | nil => rfl
  | cons elem elems ih =>
    have hhead : serializedElem elem = .ok elem.1 := by
      have hlength := h elem (List.mem_cons_self ..)
      rw [serializedElem, if_neg (by omega), ← hlength, List.take_length]
    rw [List.mapM_cons, hhead, ih fun e he => h e (List.mem_cons_of_mem _ he)]
    rfl

theorem Sized.elems {c : DpuContext} (h : Sized c) : ∀ elem ∈ serializedElems c, elem.1.length = elem.2 := by
  have htotal := h.total
  unfold contextBytes at htotal
  have hiram := toNat_of_eq_ofNat h.iramBytes (by omega)
  have hmram := toNat_of_eq_ofNat h.mramBytes (by omega)
  have hwram := toNat_of_eq_ofNat h.wramBytes (by omega)
  have hregisters := toNat_of_eq_ofNat h.registersBytes (by omega)
  have hpcs := toNat_of_eq_ofNat h.pcsBytes (by omega)
  simp only [serializedElems, List.forall_mem_cons, length_bytesOf, List.length_cons, List.length_nil, List.not_mem_nil,
    hiram, hmram, hwram, hregisters, hpcs, ← h.atomicRegister, Nat.zero_add, true_and, and_true, IsEmpty.forall_iff,
    implies_true, memoryOf]
  exact ⟨h.zeroFlags, h.carryFlags, h.scheduling⟩

theorem mapM_elems_flatten (c : DpuContext) : ((serializedElems c).map Prod.fst).flatten = checkpointOf c := by
  simp only [serializedElems, List.map_cons, List.map_nil, List.flatten_cons, List.flatten_nil, checkpointOf, headWords,
    header, elemBytes, List.flatMap_cons, List.flatMap_nil, List.cons_append, List.append_assoc, List.append_nil,
    List.nil_append, memoryOf]

theorem serializeTo_eq {c : DpuContext} (h : Sized c) :
    serializeTo c (dpuCheckpointGetSerializedContextSize c).toNat = .written (checkpointOf c) := by
  rw [serializeTo, serializedElem_mapM h.elems]
  dsimp only
  rw [mapM_elems_flatten, serializedContextSize h, length_checkpointOf, if_neg (Nat.lt_irrefl _)]

/-! ## The bytes that are read -/

/-- A step reads just these bytes, whatever is behind them, and takes one context to the other. -/
def Decodes (chunk : List UInt8) (c : DpuContext) (x : DeserializeM PUnit) (c' : DpuContext) : Prop :=
  ∀ live rest, ∃ live', x.run ⟨chunk ++ rest, live, c⟩ = .ok ⟨⟩ ⟨rest, live', c'⟩

theorem decodes_bind {chunk chunk' : List UInt8} {c c' c'' : DpuContext} {x y : DeserializeM PUnit}
    (hx : Decodes chunk c x c') (hy : Decodes chunk' c' y c'') :
    Decodes (chunk ++ chunk') c (x >>= fun _ => y) c'' := by
  intro live rest
  obtain ⟨live', hrun⟩ := hx live (chunk' ++ rest)
  obtain ⟨live'', hrun'⟩ := hy live' rest
  refine ⟨live'', ?_⟩
  rw [List.append_assoc, EStateM.run_bind, hrun]
  exact hrun'

theorem decodes_block {chunk : List UInt8} {c : DpuContext} {b : Block} {size : Nat} {memory : List UInt8}
    (hmemory : c.block b = some memory) (hroom : memory.length = size) (hsize : chunk.length = size) :
    Decodes chunk c (deserializedBlock b size) (c.setBlock b (some chunk)) := by
  intro live rest
  refine ⟨live, ?_⟩
  have hin : ¬ (chunk ++ rest).length < size := by
    rw [List.length_append]
    omega
  have hrun := (deserializedBlock_run (s := ⟨chunk ++ rest, live, c⟩) hmemory (Nat.le_of_eq hroom.symm)).trans
    (if_neg hin)
  rw [hrun]
  subst hsize
  have hrest : memory.drop chunk.length = [] := List.drop_eq_nil_of_le (Nat.le_of_eq hroom)
  simp only [State.next, State.copied, List.take_left, List.drop_left, hrest, List.append_nil]

theorem decodes_field {put : UInt8 → DpuContext → DpuContext} {v : UInt8} {c : DpuContext} :
    Decodes [v] c (deserializedField put) (put v c) := by
  intro live rest
  refine ⟨live, ?_⟩
  rw [deserializedField_run]
  rfl

theorem wordOf_bytesOf (w : UInt32) (rest : List UInt8) : wordOf (bytesOf w ++ rest) = w := by
  rw [wordOf_decode]
  exact congrArg UInt32.ofBitVec ((Layout.word 4).decode_append w.toBitVec rest)

/-- The pointer of a memory afterwards. -/
def restored (memory : Option (List UInt8)) : Option (List UInt8) := memory.filter fun m => m ≠ []

theorem decodes_memory {c : DpuContext} {b : Block} {size byteSize : UInt32} {undo : List Block}
    {memory : Option (List UInt8)} (hnull : c.block b = none) (hsize : (memory.getD []).length = byteSize.toNat)
    (hzero : size = 0 ↔ byteSize.toNat = 0) :
    Decodes (memory.getD []) c (deserializedMemory (fun _ => false) b size byteSize undo)
      (c.setBlock b (restored memory)) := by
  intro live rest
  by_cases hempty : memory.getD [] = []
  · have hsize0 : byteSize.toNat = 0 := by rw [← hsize, hempty, List.length_nil]
    have hrestored : restored memory = none := by
      cases memory with
      | none => rfl
      | some m =>
        obtain rfl : m = [] := hempty
        rfl
    have hsame : c.setBlock b none = c := by
      rw [DpuContext.setBlock, ← hnull, Function.update_eq_self]
    refine ⟨live, ?_⟩
    rw [deserializedMemory, if_neg (not_not_intro (hzero.2 hsize0)), hrestored, hsame, hempty]
    rfl
  · have hsize0 : byteSize.toNat ≠ 0 := by
      rw [← hsize]
      exact fun h => hempty (List.eq_nil_of_length_eq_zero h)
    have hrestored : restored memory = some (memory.getD []) := by
      cases memory with
      | none => exact absurd rfl hempty
      | some m => exact Option.filter_some_pos (decide_eq_true hempty)
    have hne : size ≠ 0 := fun h => hsize0 (hzero.1 h)
    have hcopy : Decodes (memory.getD []) (c.setBlock b (some (List.replicate byteSize.toNat 0)))
        (deserializedBlock b byteSize.toNat) _ :=
      decodes_block (DpuContext.setBlock_self ..) List.length_replicate hsize
    obtain ⟨live', hrun⟩ := hcopy (insert b live) rest
    refine ⟨live', ?_⟩
    rw [deserializedMemory, if_pos hne, hrestored]
    have hmalloc : (malloc (fun _ => false) b byteSize.toNat undo).run ⟨memory.getD [] ++ rest, live, c⟩ =
        .ok ⟨⟩ ⟨memory.getD [] ++ rest, insert b live, c.setBlock b (some (List.replicate byteSize.toNat 0))⟩ := rfl
    rw [EStateM.run_bind, hmalloc]
    refine hrun.trans ?_
    simp only [DpuContext.setBlock, Function.update_idem]

theorem decodes_bkpFaultId {w : UInt32} {c : DpuContext} :
    Decodes (bytesOf w) c
      (do
        let bkpFaultId ← deserializedWord
        modify fun s => { s with context := { s.context with bkpFaultId } }) { c with bkpFaultId := w } := by
  intro live rest
  refine ⟨live, ?_⟩
  have hin : ¬ (bytesOf w ++ rest).length < 4 := by
    rw [List.length_append, length_bytesOf]
    omega
  have hrest : (bytesOf w ++ rest).drop 4 = rest := by
    conv_lhs => rw [← length_bytesOf w, List.drop_left]
  rw [deserializedWord_bind, if_neg hin, wordOf_bytesOf, State.next, hrest]
  rfl

@[simp] theorem setBlock_block (c : DpuContext) (b b' : Block) (memory : Option (List UInt8)) :
    (c.setBlock b memory).block b' = if b' = b then memory else c.block b' := Function.update_apply ..

theorem sizeIfPresent_zero {c : DpuContext} {b : Block} {size : UInt32} (unit : Nat) (hunit : 0 < unit)
    (h : ∀ memory, c.block b = some memory → memory.length = unit * size.toNat) :
    sizeIfPresent c b size = 0 ↔ (memoryOf c b).length = 0 := by
  unfold sizeIfPresent memoryOf
  cases hb : c.block b with
  | none => simp
  | some memory =>
    have hlength := h memory hb
    simp only [Option.isNone_some, Bool.false_eq_true, if_false, Option.getD_some]
    rw [hlength, Nat.mul_eq_zero, ← UInt32.toNat_inj]
    exact ⟨.inr, fun hz => hz.resolve_left (Nat.ne_of_gt hunit)⟩

/-- The counts that a checkpoint starts with. -/
def countsOfContext (c : DpuContext) : Counts :=
  ⟨c.info.nrThreads, c.info.nrRegisters, c.info.nrAtomicBits, sizeIfPresent c .iram c.info.iramSize.toUInt32,
    sizeIfPresent c .mram c.info.mramSize, sizeIfPresent c .wram c.info.wramSize⟩

theorem present_block {c : DpuContext} (h : Sized c) {b : Block} (hb : b ∈ contextBlocks) :
    c.block b = some (memoryOf c b) :=
  (Option.getD_of_ne_none (Option.isSome_iff_ne_none.1 (h.present b hb)) []).symm

theorem restored_eq (memory : Option (List UInt8)) :
    restored memory = memory ∨ (memory = some [] ∧ restored memory = none) := by
  cases memory with
  | none => exact .inl rfl
  | some m =>
    by_cases hm : m = []
    · subst hm
      exact .inr ⟨rfl, rfl⟩
    · exact .inl (Option.filter_some_pos (decide_eq_true hm))

/-- What the elements of a checkpoint make of a context that has been filled. -/
def decoded (c c₀ : DpuContext) : DpuContext :=
  { c with info := c₀.info, block := fun b => if b ∈ contextBlocks then c.block b else restored (c.block b) }

theorem Decodes.to {chunk : List UInt8} {c d d' : DpuContext} {x : DeserializeM PUnit} (h : Decodes chunk c x d)
    (hd : d = d') : Decodes chunk c x d' := hd ▸ h

/-- A block of the context that has its size and is read in full. -/
theorem decodes_contextBlock {c c₀ : DpuContext} {b : Block} {size : Nat}
    (hroom : ∃ memory, c₀.block b = some memory ∧ memory.length = (memoryOf c b).length)
    (hsize : (memoryOf c b).length = size) :
    Decodes (memoryOf c b) c₀ (deserializedBlock b size) (c₀.setBlock b (some (memoryOf c b))) := by
  obtain ⟨memory, hmemory, hlength⟩ := hroom
  exact decodes_block hmemory (hlength.trans hsize) hsize

theorem elems_decodes {c c₀ : DpuContext} (h : Sized c)
    (hblocks : ∀ b ∈ contextBlocks, ∃ memory, c₀.block b = some memory ∧ memory.length = (memoryOf c b).length)
    (hmemories : ∀ b ∉ contextBlocks, c₀.block b = none) :
    Decodes (elemBytes c) c₀ (deserializedElems (fun _ => false) (countsOfContext c)) (decoded c c₀) := by
  have htotal := h.total
  unfold contextBytes at htotal
  have hiram := toNat_of_eq_ofNat h.iramBytes (by omega)
  have hmram := toNat_of_eq_ofNat h.mramBytes (by omega)
  have hwram := toNat_of_eq_ofNat h.wramBytes (by omega)
  have hregisters := toNat_of_eq_ofNat h.registersBytes (by omega)
  have hpcs := toNat_of_eq_ofNat h.pcsBytes (by omega)
  have hiram0 : sizeIfPresent c .iram c.info.iramSize.toUInt32 = 0 ↔
      (8 * sizeIfPresent c .iram c.info.iramSize.toUInt32).toNat = 0 := by
    rw [hiram]
    exact sizeIfPresent_zero 8 (by decide) fun memory hm => by rw [h.iram memory hm, UInt16.toNat_toUInt32]
  have hmram0 : sizeIfPresent c .mram c.info.mramSize = 0 ↔ (sizeIfPresent c .mram c.info.mramSize).toNat = 0 := by
    rw [← UInt32.toNat_inj]
    rfl
  have hwram0 : sizeIfPresent c .wram c.info.wramSize = 0 ↔
      (4 * sizeIfPresent c .wram c.info.wramSize).toNat = 0 := by
    rw [hwram]
    exact sizeIfPresent_zero 4 (by decide) h.wram
  apply Decodes.to
  · unfold deserializedElems
    apply decodes_bind (decodes_memory (hmemories .iram (by decide)) hiram.symm hiram0)
    apply decodes_bind (decodes_memory (by simpa using hmemories .mram (by decide)) hmram.symm hmram0)
    apply decodes_bind (decodes_memory (by simpa using hmemories .wram (by decide)) hwram.symm hwram0)
    apply decodes_bind (decodes_contextBlock (by simpa using hblocks .registers (by decide)) hregisters.symm)
    apply decodes_bind (decodes_contextBlock (by simpa using hblocks .pcs (by decide)) hpcs.symm)
    apply decodes_bind (decodes_contextBlock (by simpa using hblocks .atomicRegister (by decide)) h.atomicRegister)
    apply decodes_bind (decodes_contextBlock (by simpa using hblocks .zeroFlags (by decide)) h.zeroFlags)
    apply decodes_bind (decodes_contextBlock (by simpa using hblocks .carryFlags (by decide)) h.carryFlags)
    apply decodes_bind decodes_field
    apply decodes_bind (decodes_contextBlock (by simpa using hblocks .scheduling (by decide)) h.scheduling)
    apply decodes_bind decodes_field
    apply decodes_bind decodes_field
    apply decodes_bind decodes_field
    apply decodes_bind decodes_field
    apply decodes_bind decodes_field
    apply decodes_bind decodes_field
    exact decodes_bkpFaultId
  · unfold decoded
    congr 1
    funext b
    cases b <;> simp [contextBlocks]
    all_goals exact (present_block h (by decide)).symm

/-! ## Both ways -/

theorem checkpointOf_header (c : DpuContext) : HeaderUpTo (checkpointOf c) header 4 := by
  refine ⟨?_, fun i hi _ => ?_⟩
  · rw [length_checkpointOf, contextBytes]
    omega
  · have hin : i < (headWords c).length := Nat.lt_of_lt_of_le hi (by simp [headWords])
    rw [checkpointOf, wordAt_words _ hin]
    exact List.getElem_append_left hi

theorem countsOf_checkpointOf (c : DpuContext) : countsOf (checkpointOf c) = countsOfContext c := by
  have hword : ∀ i (hi : i < (headWords c).length), wordAt (checkpointOf c) i = (headWords c)[i] := fun _ hi =>
    wordAt_words _ hi
  rw [countsOf, hword 4 (Nat.le_of_ble_eq_true rfl), hword 5 (Nat.le_of_ble_eq_true rfl), hword 6 (Nat.le_of_ble_eq_true rfl), hword 7 (Nat.le_of_ble_eq_true rfl),
    hword 8 (Nat.le_of_ble_eq_true rfl), hword 9 (Nat.le_of_ble_eq_true rfl)]
  rfl

theorem checkpointOf_drop (c : DpuContext) : (checkpointOf c).drop 40 = elemBytes c := by
  have hlength : ((headWords c).flatMap bytesOf).length = 40 := length_words _
  rw [checkpointOf, ← hlength, List.drop_left]

/-- A context of these counts is filled with blocks of just the sizes that are copied. -/
theorem Sized.contextSize_eq {c : DpuContext} (h : Sized c) {b : Block} (hb : b ∈ contextBlocks) :
    contextSize (countsOfContext c).info b = (memoryOf c b).length := by
  have htotal := h.total
  unfold contextBytes at htotal
  cases b with
  | registers =>
    have hregisters := h.registers
    have hmul : (c.info.nrThreads * c.info.nrRegisters).toNat =
        c.info.nrThreads.toNat * c.info.nrRegisters.toNat := by
      rw [UInt32.toNat_mul]
      apply Nat.mod_eq_of_lt
      rw [Nat.mul_assoc] at hregisters
      omega
    show (c.info.nrThreads * c.info.nrRegisters).toNat * 4 = _
    rw [hmul, h.registers, Nat.mul_comm, ← Nat.mul_assoc]
  | pcs =>
    rw [h.pcs]
    exact Nat.mul_comm ..
  | atomicRegister => exact h.atomicRegister.symm
  | zeroFlags => exact h.zeroFlags.symm
  | carryFlags => exact h.carryFlags.symm
  | scheduling => exact h.scheduling.symm
  | _ => exact absurd hb (by decide)

/-- The checkpoint of a context is read back to it, into whatever context was there. -/
theorem deserialize_checkpointOf {c : DpuContext} (h : Sized c) (context : DpuContext) :
    ∃ s, (dpuCheckpointDeserialize fun _ => false).run ⟨checkpointOf c, ∅, context⟩ = .ok ⟨⟩ s ∧
      s.serialized = [] ∧ s.context.info = (countsOfContext c).info ∧
      ∃ c₀, s.context = decoded c c₀ := by
  have hcounts : 40 ≤ (checkpointOf c).length := by
    rw [length_checkpointOf, contextBytes]
    omega
  rw [dpuCheckpointDeserialize_run (checkpointOf_header c) hcounts, countsOf_checkpointOf, checkpointOf_drop,
    EStateM.run_bind]
  obtain ⟨_, hfill⟩ | ⟨⟨_, _, hfail⟩, _⟩ := dpuContextFill_run (fun _ => false) (countsOfContext c).info
    ⟨elemBytes c, ∅, context⟩
  · rw [hfill]
    dsimp only
    generalize hs : State.callocs ⟨elemBytes c, ∅, context⟩ (fun _ => false) (countsOfContext c).info = s
    have hserialized : s.serialized = elemBytes c := by rw [← hs, State.callocs_serialized]
    have hinfo : s.context.info = (countsOfContext c).info := by
      rw [← hs]
      rfl
    have hblocks : ∀ b ∈ contextBlocks, ∃ memory, s.context.block b = some memory ∧
        memory.length = (memoryOf c b).length := by
      intro b hb
      rw [← hs, State.callocs_block _ _ _ hb]
      exact ⟨_, rfl, by rw [List.length_replicate, h.contextSize_eq hb]⟩
    have hmemories : ∀ b ∉ contextBlocks, s.context.block b = none := by
      intro b hb
      rw [← hs, State.callocs_memories _ _ _ hb]
    obtain ⟨live, hrun⟩ := elems_decodes h hblocks hmemories s.live []
    rw [List.append_nil, ← hserialized] at hrun
    exact ⟨_, hrun, rfl, hinfo, _, rfl⟩
  · cases hfail

/-- A checkpoint has the size that was announced and is read back to the context that it was made from. -/
theorem checkpoint_roundTrip {c : DpuContext} (h : Sized c) {buffer : Option Nat}
    (hbuffer : ∀ size, buffer = some size → size = (dpuCheckpointGetSerializedContextSize c).toNat)
    (context : DpuContext) :
    ∃ bytes, dpuCheckpointSerialize false buffer c = .written bytes ∧
      bytes.length = (dpuCheckpointGetSerializedContextSize c).toNat ∧
      ∃ s, (dpuCheckpointDeserialize fun _ => false).run ⟨bytes, ∅, context⟩ = .ok ⟨⟩ s ∧ Restored c s.context := by
  refine ⟨checkpointOf c, ?_, by rw [length_checkpointOf, serializedContextSize h], ?_⟩
  · unfold dpuCheckpointSerialize
    cases buffer with
    | none => exact serializeTo_eq h
    | some size =>
      dsimp only
      rw [if_neg (not_not_intro (hbuffer size rfl)), serializeTo_eq h]
  · obtain ⟨s, hrun, _, hinfo, c₀, hcontext⟩ := deserialize_checkpointOf h context
    have hblock : ∀ b, s.context.block b = if b ∈ contextBlocks then c.block b else restored (c.block b) := by
      rw [hcontext]
      exact fun _ => rfl
    refine ⟨s, hrun, ?_⟩
    constructor
    case blocks => exact fun b hb => by rw [hblock, if_pos hb]
    case memories =>
      intro b hb
      rw [hblock, if_neg hb]
      exact restored_eq _
    case iramSize =>
      rw [hinfo]
      show (sizeIfPresent c .iram c.info.iramSize.toUInt32).toUInt16 = _
      unfold sizeIfPresent
      split
      · rfl
      · exact UInt16.toUInt16_toUInt32 _
    all_goals first | rw [hinfo]; rfl | rw [hcontext]; rfl

/-- Two threads with a register each, one atomic bit, an instruction memory and no other. -/
def sampleContext : DpuContext :=
  { info := ⟨2, 1, 1, 1, 64, 16⟩
    block := fun
      | .iram => some [1, 2, 3, 4, 5, 6, 7, 8]
      | .mram => none
      | .wram => none
      | .registers => some [1, 0, 0, 0, 2, 0, 0, 0]
      | .pcs => some [9, 0, 10, 0]
      | .atomicRegister => some [1]
      | .zeroFlags => some [0, 1]
      | .carryFlags => some [1, 0]
      | .scheduling => some [0, 0xFF]
    nrOfRunningThreads := 1
    bkpFault := 1
    dmaFault := 0
    memFault := 0
    bkpFaultThreadIndex := 1
    dmaFaultThreadIndex := 0
    memFaultThreadIndex := 0
    bkpFaultId := 0x12345678 }

theorem sampleContext_sized : Sized sampleContext := by
  constructor
  case iram | mram | wram => simp [sampleContext]
  all_goals decide

theorem checkpoint_roundTrip_sample :
    Sized sampleContext ∧ ∃ bytes, dpuCheckpointSerialize false none sampleContext = .written bytes ∧
      bytes.length = (dpuCheckpointGetSerializedContextSize sampleContext).toNat ∧
      ∃ s, (dpuCheckpointDeserialize fun _ => false).run ⟨bytes, ∅, emptyContext⟩ = .ok ⟨⟩ s ∧
        Restored sampleContext s.context :=
  ⟨sampleContext_sized, checkpoint_roundTrip sampleContext_sized (fun size (h : none = some size) => nomatch h) emptyContext⟩

end DpuBackend.Api.Checkpoint
