import DpuBackend.Lib.Hoare
import DpuBackend.Lib.Mem
import Mathlib.Algebra.Order.Ring.Nat

/-
  The image of the registers in WRAM (`ufi_debug.c`).

  A routine on the DPU leaves its registers in WRAM, or takes them from there: a byte for each
  atomic bit, then the work registers, then a word of flags for each thread. The registers of a
  pair are swapped, the pairs of the 24 threads lie side by side. The host has one loop for each
  direction. `Slot.index` is the place of a word, `Slot.index_inj` says that no two words share
  one, `Holds` that some of the words are in place: each loop is specified by it, and
  `register_image_round_trip` puts the two together.

  An access past the end of an array ends the model with the name of the array.

  Correspondence (C ↔ Lean):
    `ATOMIC_REG_SIZE_IN_WORDS`, `WORK_REGS_SIZE_IN_WORDS`, `FLAGS_SIZE_IN_WORDS`
                                              ↔ `atomicRegSizeInWords`, `workRegsSizeInWords`, `flagsSizeInWords`
    step 1 of `dpu_restore_context_for_dpu_routine` ↔ `formatRawContext`
    step 3 of `dpu_extract_context_for_dpu_routine` ↔ `formatContext`
-/

namespace DpuBackend.Ufi.RegisterImage

open DpuBackend.Lib DpuBackend.Lib.Mem

def dpuNrThreads : Nat := 24

def dpuNrAtomicBits : Nat := 256

def dpuNrWorkRegs : Nat := 24

/-- The 256 is a number of bytes here: `sizeof(dpuword_t)` is 4. -/
def atomicRegSizeInWords : Nat := dpuNrAtomicBits / 4

def workRegsSizeInWords : Nat := dpuNrThreads * dpuNrWorkRegs

def flagsSizeInWords : Nat := dpuNrThreads * 1

def contextSizeInWords : Nat := atomicRegSizeInWords + workRegsSizeInWords + flagsSizeInWords

def regsOffset : Nat := atomicRegSizeInWords

def flagsOffset : Nat := atomicRegSizeInWords + workRegsSizeInWords

/-- `hw.dpu` of the description. -/
structure HwDpu where
  nrOfThreads : Nat
  nrOfWorkRegistersPerThread : Nat
  nrOfAtomicBits : Nat
  threads_le : nrOfThreads ≤ dpuNrThreads
  registers_le : nrOfWorkRegistersPerThread ≤ dpuNrWorkRegs
  registers_even : 2 ∣ nrOfWorkRegistersPerThread
  atomicBits_le : nrOfAtomicBits ≤ dpuNrAtomicBits

inductive Block where
  | rawContext
  | atomicRegister
  | registers
  | flags
deriving DecidableEq

/-- The raw context, and the arrays of `struct dpu_context_t`. -/
structure State where
  rawContext : Mem UInt8
  atomicRegister : Nat → Bool
  registers : Nat → BitVec 32
  carryFlags : Nat → Bool
  zeroFlags : Nat → Bool

abbrev Routine := EStateM Block State

/-! ## The accesses -/

def bytesOfWord (w : BitVec 32) : Fin 4 → UInt8 := fun k => UInt8.ofNat (w.toNat / 256 ^ k.val)

def wordOfBytes (b : Fin 4 → UInt8) : BitVec 32 :=
  BitVec.ofNat 32 ((b 0).toNat + 256 * (b 1).toNat + 256 ^ 2 * (b 2).toNat + 256 ^ 3 * (b 3).toNat)

def within (i size : Nat) (block : Block) : Routine PUnit := if i < size then pure ⟨⟩ else throw block

/-- `((uint8_t *)raw_context)[i]`. -/
def loadRawByte (i : Nat) : Routine UInt8 := do
  within i (4 * contextSizeInWords) .rawContext
  let s ← get
  pure (s.rawContext i)

def storeRawByte (i : Nat) (b : UInt8) : Routine PUnit := do
  within i (4 * contextSizeInWords) .rawContext
  modify fun s => { s with rawContext := Function.update s.rawContext i b }

def wordAt (m : Mem UInt8) (i : Nat) : BitVec 32 := wordOfBytes (m.load (4 * i) 4)

/-- `raw_context[i]`. -/
def loadRaw (i : Nat) : Routine (BitVec 32) := do
  within i contextSizeInWords .rawContext
  let s ← get
  pure (wordAt s.rawContext i)

def storeRaw (i : Nat) (w : BitVec 32) : Routine PUnit := do
  within i contextSizeInWords .rawContext
  modify fun s => { s with rawContext := s.rawContext.store (4 * i) (bytesOfWord w) }

variable (hw : HwDpu)

/-- The length of `context->registers`. -/
def HwDpu.nrRegisters : Nat := hw.nrOfThreads * hw.nrOfWorkRegistersPerThread

def loadRegister (i : Nat) : Routine (BitVec 32) := do
  within i hw.nrRegisters .registers
  let s ← get
  pure (s.registers i)

def storeRegister (i : Nat) (w : BitVec 32) : Routine PUnit := do
  within i hw.nrRegisters .registers
  modify fun s => { s with registers := Function.update s.registers i w }

/-! ## The two loops -/

def evenRegisterIndex (thread register : Nat) : Nat := thread * hw.nrOfWorkRegistersPerThread + register

def oddRegisterContextIndex (thread register : Nat) : Nat := regsOffset + register * dpuNrThreads + 2 * thread

/-- The passes of the loop over the even registers. -/
def HwDpu.pairs : Nat := (hw.nrOfWorkRegistersPerThread + 1) / 2

def formatAtomicBit (bit : Nat) : Routine PUnit := do
  within bit hw.nrOfAtomicBits .atomicRegister
  let s ← get
  storeRawByte bit (if s.atomicRegister bit then 0xFF else 0x00)

def formatPair (thread register : Nat) : Routine PUnit := do
  let odd ← loadRegister hw (evenRegisterIndex hw thread register + 1)
  storeRaw (oddRegisterContextIndex thread register) odd
  let even ← loadRegister hw (evenRegisterIndex hw thread register)
  storeRaw (oddRegisterContextIndex thread register + 1) even

def flagsWord (carry zero : Bool) : BitVec 32 := (if carry then 1 else 0) + (if zero then 2 else 0)

def formatThread (thread : Nat) : Routine PUnit := do
  within thread hw.nrOfThreads .flags
  let s ← get
  let flags := flagsWord (s.carryFlags thread) (s.zeroFlags thread)
  (List.range hw.pairs).forM fun pair => formatPair hw thread (2 * pair)
  storeRaw (flagsOffset + thread) flags

/-- `dpu_restore_context_for_dpu_routine`, 1. -/
def formatRawContext : Routine PUnit := do
  (List.range hw.nrOfAtomicBits).forM (formatAtomicBit hw)
  (List.range hw.nrOfThreads).forM (formatThread hw)

def parseAtomicBit (bit : Nat) : Routine PUnit := do
  let b ← loadRawByte bit
  within bit hw.nrOfAtomicBits .atomicRegister
  modify fun s => { s with atomicRegister := Function.update s.atomicRegister bit (b != 0) }

def parsePair (thread register : Nat) : Routine PUnit := do
  let even ← loadRaw (oddRegisterContextIndex thread register + 1)
  storeRegister hw (evenRegisterIndex hw thread register) even
  let odd ← loadRaw (oddRegisterContextIndex thread register)
  storeRegister hw (evenRegisterIndex hw thread register + 1) odd

def parseThread (thread : Nat) : Routine PUnit := do
  let flags ← loadRaw (flagsOffset + thread)
  (List.range hw.pairs).forM fun pair => parsePair hw thread (2 * pair)
  within thread hw.nrOfThreads .flags
  modify fun s =>
    { s with
      carryFlags := Function.update s.carryFlags thread (flags &&& 1 != 0)
      zeroFlags := Function.update s.zeroFlags thread (flags &&& 2 != 0) }

/-- `dpu_extract_context_for_dpu_routine`, 3. -/
def formatContext : Routine PUnit := do
  (List.range hw.nrOfAtomicBits).forM (parseAtomicBit hw)
  (List.range hw.nrOfThreads).forM (parseThread hw)

/-! ## The words of the image -/

/-- A word of the image: a register of a thread, or its flags. -/
inductive Slot where
  | register (thread register : Nat)
  | flags (thread : Nat)

/-- The registers of a pair are swapped. -/
def registerIndex (thread register : Nat) : Nat :=
  oddRegisterContextIndex thread (register / 2 * 2) + (1 - register % 2)

def Slot.index : Slot → Nat
  | .register t r => registerIndex t r
  | .flags t => flagsOffset + t

/-- What the word holds for the context of a state. -/
def Slot.value (s : State) : Slot → BitVec 32
  | .register t r => s.registers (evenRegisterIndex hw t r)
  | .flags t => flagsWord (s.carryFlags t) (s.zeroFlags t)

def Slot.Valid : Slot → Prop
  | .register t r => t < hw.nrOfThreads ∧ r < hw.nrOfWorkRegistersPerThread
  | .flags t => t < hw.nrOfThreads

@[simp] theorem regsOffset_eq : regsOffset = 64 := rfl

@[simp] theorem flagsOffset_eq : flagsOffset = 640 := rfl

@[simp] theorem contextSizeInWords_eq : contextSizeInWords = 664 := rfl

theorem registerIndex_eq (thread register : Nat) :
    registerIndex thread register = 64 + (register / 2 * 48 + 2 * thread + (1 - register % 2)) := by
  simp only [registerIndex, oddRegisterContextIndex, regsOffset_eq, dpuNrThreads]
  omega

/-- The loops write the registers of a pair in swapped order. -/
theorem oddRegisterContextIndex_eq (thread pair : Nat) :
    oddRegisterContextIndex thread (2 * pair) = registerIndex thread (2 * pair + 1) ∧
      oddRegisterContextIndex thread (2 * pair) + 1 = registerIndex thread (2 * pair) := by
  simp only [registerIndex_eq, oddRegisterContextIndex, regsOffset_eq, dpuNrThreads]
  omega

/-- The work registers lie between the atomic bits and the flags. -/
theorem registerIndex_area {thread register : Nat} (ht : thread < dpuNrThreads) (hr : register < dpuNrWorkRegs) :
    regsOffset ≤ registerIndex thread register ∧ registerIndex thread register < flagsOffset := by
  rw [registerIndex_eq, regsOffset_eq, flagsOffset_eq]
  unfold dpuNrThreads at ht
  unfold dpuNrWorkRegs at hr
  omega

theorem registerIndex_inj {thread register thread' register' : Nat} (ht : thread < dpuNrThreads)
    (ht' : thread' < dpuNrThreads) (h : registerIndex thread register = registerIndex thread' register') :
    thread = thread' ∧ register = register' := by
  rw [registerIndex_eq, registerIndex_eq] at h
  unfold dpuNrThreads at ht ht'
  -- a pair of registers has 48 words, one pair of them for each thread
  have hpair : register / 2 = register' / 2 := by omega
  have hthread : thread = thread' := by omega
  exact ⟨hthread, by omega⟩

section Slots

variable {hw : HwDpu}

theorem Slot.index_area (x : Slot) (h : x.Valid hw) : regsOffset ≤ x.index ∧ x.index < contextSizeInWords := by
  have hthreads := hw.threads_le
  have hregisters := hw.registers_le
  cases x with
  | register t r =>
    have harea := registerIndex_area (Nat.lt_of_lt_of_le h.1 hthreads) (Nat.lt_of_lt_of_le h.2 hregisters)
    exact ⟨harea.1, Nat.lt_trans harea.2 (by decide)⟩
  | flags t =>
    have ht : t < 24 := Nat.lt_of_lt_of_le h hthreads
    simp only [Slot.index, regsOffset_eq, flagsOffset_eq, contextSizeInWords_eq]
    omega

/-- No two words of the image share a place. -/
theorem Slot.index_inj {x y : Slot} (hx : x.Valid hw) (hy : y.Valid hw) (h : x.index = y.index) : x = y := by
  have hthreads := hw.threads_le
  have hregisters := hw.registers_le
  cases x with
  | register t r =>
    have harea := registerIndex_area (Nat.lt_of_lt_of_le hx.1 hthreads) (Nat.lt_of_lt_of_le hx.2 hregisters)
    cases y with
    | register t' r' =>
      obtain ⟨rfl, rfl⟩ := registerIndex_inj (Nat.lt_of_lt_of_le hx.1 hthreads)
        (Nat.lt_of_lt_of_le hy.1 hthreads) h
      rfl
    | flags t' =>
      simp only [Slot.index] at h
      omega
  | flags t =>
    cases y with
    | register t' r' =>
      have harea := registerIndex_area (Nat.lt_of_lt_of_le hy.1 hthreads) (Nat.lt_of_lt_of_le hy.2 hregisters)
      simp only [Slot.index] at h
      omega
    | flags t' =>
      rw [Nat.add_left_cancel h]

end Slots

/-! ## Words as bytes -/

theorem wordOfBytes_bytesOfWord (w : BitVec 32) : wordOfBytes (bytesOfWord w) = w := by
  have hw := w.isLt
  apply BitVec.eq_of_toNat_eq
  simp only [wordOfBytes, bytesOfWord, UInt8.toNat_ofNat', BitVec.toNat_ofNat, Fin.val_zero, Fin.val_one,
    Fin.val_two, Nat.pow_zero, Nat.pow_one, Nat.div_one]
  have h3 : ((3 : Fin 4) : Nat) = 3 := rfl
  rw [h3]
  omega

theorem wordAt_store_same (m : Mem UInt8) (i : Nat) (w : BitVec 32) :
    wordAt (m.store (4 * i) (bytesOfWord w)) i = w := by
  rw [wordAt, load_store_same, wordOfBytes_bytesOfWord]

theorem wordAt_store_other (m : Mem UInt8) {i j : Nat} (h : i ≠ j) (w : BitVec 32) :
    wordAt (m.store (4 * i) (bytesOfWord w)) j = wordAt m j := by
  have happ : Apart (4 * i) 4 (4 * j) 4 := by
    unfold Apart
    omega
  rw [wordAt, wordAt, load_store_apart _ _ _ _ happ]

theorem wordAt_update_below (m : Mem UInt8) {i j : Nat} (h : i < 4 * j) (b : UInt8) :
    wordAt (Function.update m i b) j = wordAt m j := by
  have hload : Mem.load (Function.update m i b) (4 * j) 4 = m.load (4 * j) 4 := by
    funext k
    have hne : 4 * j + k.val ≠ i := by omega
    simp only [load_apply, Function.update_of_ne hne]
  rw [wordAt, wordAt, hload]

@[simp] theorem flagsWord_carry (carry zero : Bool) : (flagsWord carry zero &&& 1 != 0) = carry := by
  cases carry <;> cases zero <;> rfl

@[simp] theorem flagsWord_zero (carry zero : Bool) : (flagsWord carry zero &&& 2 != 0) = zero := by
  cases carry <;> cases zero <;> rfl

/-! ## The accesses stay inside -/

/-- No access is out of bounds. -/
def Inside : Block → State → Prop := fun _ _ => False

section Accesses

variable {P : State → Prop} {Q : PUnit → State → Prop} {i : Nat}

theorem within_spec {size : Nat} {block : Block} (hi : i < size) :
    Triple P (within i size block) (fun _ => P) Inside := by
  rw [within, if_pos hi]
  exact triple_pure fun _ hs => hs

theorem storeRawByte_spec {b : UInt8} (hi : i < 4 * contextSizeInWords)
    (h : ∀ s, P s → Q ⟨⟩ { s with rawContext := Function.update s.rawContext i b }) :
    Triple P (storeRawByte i b) Q Inside :=
  triple_bind (within_spec hi) fun _ => triple_modify h

theorem storeRaw_spec {w : BitVec 32} (hi : i < contextSizeInWords)
    (h : ∀ s, P s → Q ⟨⟩ { s with rawContext := s.rawContext.store (4 * i) (bytesOfWord w) }) :
    Triple P (storeRaw i w) Q Inside :=
  triple_bind (within_spec hi) fun _ => triple_modify h

theorem storeRegister_spec {hw : HwDpu} {w : BitVec 32} (hi : i < hw.nrRegisters)
    (h : ∀ s, P s → Q ⟨⟩ { s with registers := Function.update s.registers i w }) :
    Triple P (storeRegister hw i w) Q Inside :=
  triple_bind (within_spec hi) fun _ => triple_modify h

theorem loadRawByte_spec (hi : i < 4 * contextSizeInWords) :
    Triple P (loadRawByte i) (fun b s => P s ∧ b = s.rawContext i) Inside :=
  triple_bind (within_spec hi) fun _ => triple_get fun _ hs => triple_pure fun _ he => by
    subst he
    exact ⟨hs, rfl⟩

theorem loadRaw_spec (hi : i < contextSizeInWords) :
    Triple P (loadRaw i) (fun w s => P s ∧ w = wordAt s.rawContext i) Inside :=
  triple_bind (within_spec hi) fun _ => triple_get fun _ hs => triple_pure fun _ he => by
    subst he
    exact ⟨hs, rfl⟩

theorem loadRegister_spec {hw : HwDpu} (hi : i < hw.nrRegisters) :
    Triple P (loadRegister hw i) (fun w s => P s ∧ w = s.registers i) Inside :=
  triple_bind (within_spec hi) fun _ => triple_get fun _ hs => triple_pure fun _ he => by
    subst he
    exact ⟨hs, rfl⟩

end Accesses

/-- The registers of the threads are one array, a row for each thread. -/
theorem registers_row {hw : HwDpu} {thread register : Nat} (ht : thread < hw.nrOfThreads)
    (hr : register < hw.nrOfWorkRegistersPerThread) : evenRegisterIndex hw thread register < hw.nrRegisters :=
  calc thread * hw.nrOfWorkRegistersPerThread + register
      < thread * hw.nrOfWorkRegistersPerThread + hw.nrOfWorkRegistersPerThread := Nat.add_lt_add_left hr _
    _ = (thread + 1) * hw.nrOfWorkRegistersPerThread := (Nat.succ_mul ..).symm
    _ ≤ hw.nrRegisters := Nat.mul_le_mul_right _ ht

/-- The registers come in pairs. -/
theorem pairs_eq (hw : HwDpu) : 2 * hw.pairs = hw.nrOfWorkRegistersPerThread := by
  have heven := hw.registers_even
  unfold HwDpu.pairs
  omega

/-! ## Formatting the image -/

/-- In the raw context `raw`, `bits` atomic bits and the words of `S` are those of the context `c`. -/
structure Holds (hw : HwDpu) (c : State) (bits : Nat) (S : Slot → Prop) (raw : Mem UInt8) : Prop where
  atomicBits : ∀ i < bits, raw i = if c.atomicRegister i then 0xFF else 0x00
  words : ∀ x : Slot, x.Valid hw → S x → wordAt raw x.index = x.value hw c

/-- The words of the threads before `thread`, and its registers before `register`. -/
def Slot.Before (thread register : Nat) : Slot → Prop
  | .register t r => t < thread ∨ t = thread ∧ r < register
  | .flags t => t < thread

section Format

variable {hw : HwDpu} {c : State} {bits : Nat} {S : Slot → Prop} {raw : Mem UInt8}

theorem Holds.weaken {S' : Slot → Prop} (h : Holds hw c bits S raw) (hS : ∀ x : Slot, x.Valid hw → S' x → S x) :
    Holds hw c bits S' raw :=
  ⟨h.atomicBits, fun x hx hx' => h.words x hx (hS x hx hx')⟩

/-- The image grows by an atomic bit. -/
theorem Holds.bit (h : Holds hw c bits S raw) (hbits : bits < hw.nrOfAtomicBits) :
    Holds hw c (bits + 1) S (Function.update raw bits (if c.atomicRegister bits then 0xFF else 0x00)) := by
  have hle : bits < 256 := Nat.lt_of_lt_of_le hbits hw.atomicBits_le
  refine ⟨?_, ?_⟩
  · intro i hi
    by_cases he : i = bits
    · rw [he, Function.update_self]
    · rw [Function.update_of_ne he]
      exact h.atomicBits i (by omega)
  · intro x hx hS
    have harea := (Slot.index_area _ hx).1
    rw [regsOffset_eq] at harea
    rw [wordAt_update_below _ (by omega)]
    exact h.words x hx hS

/-- The image grows by a word. -/
theorem Holds.word (h : Holds hw c bits S raw) (hbits : bits ≤ hw.nrOfAtomicBits) {x : Slot} (hx : x.Valid hw) :
    Holds hw c bits (fun y => S y ∨ y = x) (raw.store (4 * x.index) (bytesOfWord (x.value hw c))) := by
  refine ⟨?_, ?_⟩
  · intro i hi
    have hle := hw.atomicBits_le
    have harea := (Slot.index_area _ hx).1
    rw [regsOffset_eq] at harea
    unfold dpuNrAtomicBits at hle
    rw [store_outside _ _ _ (.inl (by omega))]
    exact h.atomicBits i hi
  · rintro y hy hS
    by_cases he : y = x
    · rw [he, wordAt_store_same]
    · have hne : x.index ≠ y.index := fun e => he (Slot.index_inj hx hy e).symm
      rw [wordAt_store_other _ hne]
      exact h.words y hy (hS.resolve_right he)

/-- The loop has left the context alone, and some of the image is in place. -/
def Formatted (hw : HwDpu) (c : State) (bits : Nat) (S : Slot → Prop) (s : State) : Prop :=
  s = { c with rawContext := s.rawContext } ∧ Holds hw c bits S s.rawContext

theorem formatAtomicBit_spec (hbits : bits < hw.nrOfAtomicBits) :
    Triple (Formatted hw c bits S) (formatAtomicBit hw bits) (fun _ => Formatted hw c (bits + 1) S) Inside := by
  have hle : bits < 256 := Nat.lt_of_lt_of_le hbits hw.atomicBits_le
  refine triple_bind (within_spec hbits) fun _ => triple_get fun s₀ hs₀ => ?_
  refine storeRawByte_spec (by rw [contextSizeInWords_eq]; omega) ?_
  rintro s rfl
  obtain ⟨hc, hholds⟩ := hs₀
  have hbit : s.atomicRegister = c.atomicRegister := by rw [hc]
  rw [hbit]
  exact ⟨by rw [hc], hholds.bit hbits⟩

theorem storeSlot_spec (hbits : bits ≤ hw.nrOfAtomicBits) {x : Slot} (hx : x.Valid hw) {i : Nat} {w : BitVec 32}
    (hi : i = x.index) (hvalue : w = x.value hw c) :
    Triple (Formatted hw c bits S) (storeRaw i w) (fun _ => Formatted hw c bits fun y => S y ∨ y = x) Inside := by
  subst hi hvalue
  refine storeRaw_spec (Slot.index_area _ hx).2 ?_
  rintro s ⟨hc, hholds⟩
  exact ⟨by rw [hc], hholds.word hbits hx⟩

/-- One pass of the loop over the pairs adds the two registers. -/
theorem formatPair_spec (hbits : bits ≤ hw.nrOfAtomicBits) {thread pair : Nat} (ht : thread < hw.nrOfThreads)
    (hpair : pair < hw.pairs) :
    Triple (Formatted hw c bits (Slot.Before thread (2 * pair))) (formatPair hw thread (2 * pair))
      (fun _ => Formatted hw c bits (Slot.Before thread (2 * (pair + 1)))) Inside := by
  have hpairs := pairs_eq hw
  have hodd : 2 * pair + 1 < hw.nrOfWorkRegistersPerThread := by omega
  have heven : 2 * pair < hw.nrOfWorkRegistersPerThread := by omega
  obtain ⟨hoddIndex, hevenIndex⟩ := oddRegisterContextIndex_eq thread pair
  refine triple_bind (loadRegister_spec (registers_row ht hodd)) fun odd => ?_
  refine triple_each fun s₀ ⟨hs₀, hoddValue⟩ => ?_
  have hvalue : odd = (Slot.register thread (2 * pair + 1)).value hw c := by
    rw [hoddValue, hs₀.1]
    rfl
  refine triple_bind (R := fun _ => Formatted hw c bits fun y =>
    Slot.Before thread (2 * pair) y ∨ y = .register thread (2 * pair + 1)) ?_ fun _ => ?_
  · refine (storeSlot_spec hbits (x := .register thread (2 * pair + 1)) ⟨ht, hodd⟩ hoddIndex hvalue).pre ?_
    rintro s rfl
    exact hs₀
  refine triple_bind (loadRegister_spec (registers_row ht heven)) fun even => ?_
  refine triple_each fun s₁ ⟨hs₁, hevenValue⟩ => ?_
  have hvalue' : even = (Slot.register thread (2 * pair)).value hw c := by
    rw [hevenValue, hs₁.1]
    rfl
  refine (storeSlot_spec hbits (S := fun y => Slot.Before thread (2 * pair) y ∨ y = .register thread (2 * pair + 1))
    (x := .register thread (2 * pair)) ⟨ht, heven⟩ hevenIndex hvalue').weaken ?_ ?_ fun _ _ he => he
  · rintro s rfl
    exact hs₁
  · rintro - s ⟨hc, hholds⟩
    refine ⟨hc, hholds.weaken ?_⟩
    rintro (⟨t, r⟩ | t) - hbefore
    · simp only [Slot.Before, Slot.register.injEq] at hbefore ⊢
      omega
    · exact .inl (.inl hbefore)

theorem formatThread_spec (hbits : bits ≤ hw.nrOfAtomicBits) {thread : Nat} (ht : thread < hw.nrOfThreads) :
    Triple (Formatted hw c bits (Slot.Before thread 0)) (formatThread hw thread)
      (fun _ => Formatted hw c bits (Slot.Before (thread + 1) 0)) Inside := by
  refine triple_bind (within_spec ht) fun _ => triple_get fun s₀ hs₀ => ?_
  refine triple_bind (R := fun _ => Formatted hw c bits (Slot.Before thread (2 * hw.pairs))) ?_ fun _ => ?_
  · refine Triple.pre (triple_forM_range (I := fun pair => Formatted hw c bits (Slot.Before thread (2 * pair)))
      fun pair hpair => formatPair_spec hbits ht hpair) ?_
    rintro s rfl
    exact hs₀
  have hvalue : flagsWord (s₀.carryFlags thread) (s₀.zeroFlags thread) = (Slot.flags thread).value hw c := by
    rw [hs₀.1]
    rfl
  refine (storeSlot_spec hbits (S := Slot.Before thread (2 * hw.pairs)) (x := .flags thread) ht rfl hvalue).post ?_
  rintro - s ⟨hc, hholds⟩
  refine ⟨hc, hholds.weaken ?_⟩
  have hpairs := pairs_eq hw
  rintro (⟨t, r⟩ | t) hx hbefore
  · obtain ⟨-, hr⟩ := hx
    simp only [Slot.Before] at hbefore ⊢
    omega
  · simp only [Slot.Before, Slot.flags.injEq] at hbefore ⊢
    omega

/-- The whole image. -/
def Image (hw : HwDpu) (c : State) (raw : Mem UInt8) : Prop := Holds hw c hw.nrOfAtomicBits (fun _ => True) raw

/-- The loop leaves the image of the context, whatever the raw context held. -/
theorem formatRawContext_spec (c : State) :
    Triple (fun s => s = c) (formatRawContext hw)
      (fun _ s => s = { c with rawContext := s.rawContext } ∧ Image hw c s.rawContext) Inside := by
  refine triple_bind (R := fun _ => Formatted hw c hw.nrOfAtomicBits (Slot.Before 0 0)) ?_ fun _ => ?_
  · refine Triple.pre (triple_forM_range (I := fun k => Formatted hw c k (Slot.Before 0 0))
      fun k hk => formatAtomicBit_spec hk) ?_
    rintro s rfl
    refine ⟨rfl, ⟨fun i hi => absurd hi (Nat.not_lt_zero i), ?_⟩⟩
    rintro (⟨t, r⟩ | t) - hbefore
    · simp only [Slot.Before] at hbefore
      omega
    · exact absurd hbefore (Nat.not_lt_zero t)
  · refine Triple.post (triple_forM_range (I := fun k => Formatted hw c hw.nrOfAtomicBits (Slot.Before k 0))
      fun k hk => formatThread_spec (Nat.le_refl _) hk) ?_
    rintro - s ⟨hc, hholds⟩
    refine ⟨hc, hholds.weaken ?_⟩
    rintro (⟨t, r⟩ | t) hx -
    · exact .inl hx.1
    · exact hx

end Format

/-! ## Reading the image -/

/-- Of the context `c`, the first `bits` atomic bits, `regs` registers and the flags of `threads` threads are read. -/
structure Parsed (c : State) (raw : Mem UInt8) (bits regs threads : Nat) (s : State) : Prop where
  raw : s.rawContext = raw
  atomicBits : ∀ i < bits, s.atomicRegister i = c.atomicRegister i
  registers : ∀ i < regs, s.registers i = c.registers i
  flags : ∀ t < threads, s.carryFlags t = c.carryFlags t ∧ s.zeroFlags t = c.zeroFlags t

section Parse

variable {hw : HwDpu} {c : State} {raw : Mem UInt8} (himage : Image hw c raw) {bits regs threads : Nat}

include himage

theorem parseAtomicBit_spec (hbits : bits < hw.nrOfAtomicBits) :
    Triple (Parsed c raw bits regs threads) (parseAtomicBit hw bits)
      (fun _ => Parsed c raw (bits + 1) regs threads) Inside := by
  have hle : bits < 256 := Nat.lt_of_lt_of_le hbits hw.atomicBits_le
  refine triple_bind (loadRawByte_spec (by rw [contextSizeInWords_eq]; omega)) fun b => ?_
  refine triple_bind (within_spec hbits) fun _ => triple_modify ?_
  rintro s ⟨hs, rfl⟩
  refine ⟨hs.raw, ?_, hs.registers, hs.flags⟩
  intro i hi
  by_cases he : i = bits
  · subst he
    simp only [Function.update_self, hs.raw, himage.atomicBits i hbits]
    cases c.atomicRegister i <;> rfl
  · simp only [Function.update_of_ne he]
    exact hs.atomicBits i (by omega)

/-- A word of the image is read. -/
theorem loadSlot_spec {P : State → Prop} (hP : ∀ s, P s → s.rawContext = raw) {x : Slot} (hx : x.Valid hw) {i : Nat}
    (hi : i = x.index) : Triple P (loadRaw i) (fun w s => P s ∧ w = x.value hw c) Inside := by
  subst hi
  refine (loadRaw_spec (Slot.index_area _ hx).2).post ?_
  rintro w s ⟨hs, rfl⟩
  refine ⟨hs, ?_⟩
  rw [hP s hs]
  exact himage.words x hx trivial

omit himage in
/-- The registers are read in the order of the array. -/
theorem storeRegister_parsed {w : BitVec 32} (hregs : regs < hw.nrRegisters) :
    Triple (fun s => Parsed c raw bits regs threads s ∧ w = c.registers regs) (storeRegister hw regs w)
      (fun _ => Parsed c raw bits (regs + 1) threads) Inside := by
  refine storeRegister_spec hregs ?_
  rintro s ⟨hs, rfl⟩
  refine ⟨hs.raw, hs.atomicBits, ?_, hs.flags⟩
  intro i hi
  by_cases he : i = regs
  · simp [he]
  · simp only [Function.update_of_ne he]
    exact hs.registers i (by omega)

/-- One pass of the loop over the pairs reads the next two registers. -/
theorem parsePair_spec {thread pair : Nat} (ht : thread < hw.nrOfThreads) (hpair : pair < hw.pairs) :
    Triple (Parsed c raw bits (evenRegisterIndex hw thread (2 * pair)) threads) (parsePair hw thread (2 * pair))
      (fun _ => Parsed c raw bits (evenRegisterIndex hw thread (2 * (pair + 1))) threads) Inside := by
  have hpairs := pairs_eq hw
  have hodd : 2 * pair + 1 < hw.nrOfWorkRegistersPerThread := by omega
  have heven : 2 * pair < hw.nrOfWorkRegistersPerThread := by omega
  obtain ⟨hoddIndex, hevenIndex⟩ := oddRegisterContextIndex_eq thread pair
  refine triple_bind (loadSlot_spec himage (fun _ hs => hs.raw) (x := .register thread (2 * pair)) ⟨ht, heven⟩
    hevenIndex) fun even => ?_
  refine triple_bind (storeRegister_parsed (registers_row ht heven)) fun _ => ?_
  refine triple_bind (loadSlot_spec himage (fun _ hs => hs.raw) (x := .register thread (2 * pair + 1)) ⟨ht, hodd⟩
    hoddIndex) fun odd => ?_
  exact storeRegister_parsed (registers_row ht hodd)

theorem parseThread_spec {thread : Nat} (ht : thread < hw.nrOfThreads) :
    Triple (Parsed c raw bits (thread * hw.nrOfWorkRegistersPerThread) thread) (parseThread hw thread)
      (fun _ => Parsed c raw bits ((thread + 1) * hw.nrOfWorkRegistersPerThread) (thread + 1)) Inside := by
  have hrow : evenRegisterIndex hw thread (2 * hw.pairs) = (thread + 1) * hw.nrOfWorkRegistersPerThread := by
    rw [evenRegisterIndex, pairs_eq, Nat.succ_mul]
  refine triple_bind (loadSlot_spec himage (fun _ hs => hs.raw) (x := .flags thread) ht rfl) fun flags => ?_
  refine triple_each fun s₀ ⟨hs₀, hflags⟩ => ?_
  refine triple_bind
    (R := fun _ => Parsed c raw bits (evenRegisterIndex hw thread (2 * hw.pairs)) thread) ?_ fun _ => ?_
  · refine Triple.pre (triple_forM_range
      (I := fun pair => Parsed c raw bits (evenRegisterIndex hw thread (2 * pair)) thread)
      fun pair hpair => parsePair_spec himage ht hpair) ?_
    rintro s rfl
    exact hs₀
  rw [hrow]
  refine triple_bind (within_spec ht) fun _ => triple_modify ?_
  rintro s hs
  refine ⟨hs.raw, hs.atomicBits, hs.registers, ?_⟩
  intro t htt
  by_cases he : t = thread
  · subst he
    simp only [Function.update_self, hflags, Slot.value, flagsWord_carry, flagsWord_zero, and_self]
  · simp only [Function.update_of_ne he]
    exact hs.flags t (by omega)

/-- The loop reads the context of the image, whatever the arrays held. -/
theorem formatContext_spec :
    Triple (fun s => s.rawContext = raw) (formatContext hw)
      (fun _ => Parsed c raw hw.nrOfAtomicBits hw.nrRegisters hw.nrOfThreads) Inside := by
  refine triple_bind (R := fun _ => Parsed c raw hw.nrOfAtomicBits 0 0) ?_ fun _ => ?_
  · refine Triple.pre (triple_forM_range (I := fun k => Parsed c raw k 0 0)
      fun k hk => parseAtomicBit_spec himage hk) ?_
    intro s hs
    exact ⟨hs, fun i hi => absurd hi (Nat.not_lt_zero i), fun i hi => absurd hi (Nat.not_lt_zero i),
      fun t ht => absurd ht (Nat.not_lt_zero t)⟩
  · refine Triple.pre (triple_forM_range
      (I := fun k => Parsed c raw hw.nrOfAtomicBits (k * hw.nrOfWorkRegistersPerThread) k)
      fun k hk => parseThread_spec himage hk) ?_
    intro s hs
    rw [Nat.zero_mul]
    exact hs

end Parse

section Any

variable {hw : HwDpu}

theorem parsePair_inside {thread pair : Nat} (ht : thread < hw.nrOfThreads) (hpair : pair < hw.pairs) :
    Triple (fun _ => True) (parsePair hw thread (2 * pair)) (fun _ _ => True) Inside := by
  have hpairs := pairs_eq hw
  have hodd : 2 * pair + 1 < hw.nrOfWorkRegistersPerThread := by omega
  have heven : 2 * pair < hw.nrOfWorkRegistersPerThread := by omega
  obtain ⟨hoddIndex, hevenIndex⟩ := oddRegisterContextIndex_eq thread pair
  have hoddArea := (Slot.index_area (.register thread (2 * pair + 1)) ⟨ht, hodd⟩).2
  have hevenArea := (Slot.index_area (.register thread (2 * pair)) ⟨ht, heven⟩).2
  refine triple_bind (loadRaw_spec (by rw [hevenIndex]; exact hevenArea)) fun even => ?_
  refine triple_bind (storeRegister_spec (registers_row ht heven) (Q := fun _ _ => True) fun _ _ => trivial) fun _ => ?_
  refine triple_bind (loadRaw_spec (by rw [hoddIndex]; exact hoddArea)) fun odd => ?_
  exact storeRegister_spec (registers_row ht hodd) fun _ _ => trivial

theorem parseThread_inside {thread : Nat} (ht : thread < hw.nrOfThreads) :
    Triple (fun _ => True) (parseThread hw thread) (fun _ _ => True) Inside := by
  have harea := (Slot.index_area (.flags thread) ht).2
  refine triple_bind (loadRaw_spec harea) fun flags => ?_
  refine triple_bind (R := fun _ _ => True) ?_ fun _ => triple_bind (within_spec ht) fun _ => triple_modify fun _ _ => trivial
  exact Triple.pre (triple_forM_range (I := fun _ _ => True) fun pair hpair => parsePair_inside ht hpair) fun _ _ => trivial

/-- The loop stays inside whatever it reads. -/
theorem formatContext_inside : Triple (fun _ => True) (formatContext hw) (fun _ _ => True) Inside := by
  refine triple_bind (R := fun _ _ => True) (triple_forM_range (I := fun _ _ => True) fun bit hbit => ?_) fun _ =>
    triple_forM_range (I := fun _ _ => True) fun thread ht => parseThread_inside ht
  have hle : bit < 256 := Nat.lt_of_lt_of_le hbit hw.atomicBits_le
  refine triple_bind (loadRawByte_spec (by rw [contextSizeInWords_eq]; omega)) fun b => ?_
  exact triple_bind (within_spec hbit) fun _ => triple_modify fun _ _ => trivial

end Any

/-! ## Round trip -/

/-- A program that does not stop with an error. -/
theorem run_inside {α : Type} {P : State → Prop} {x : Routine α} {Q : α → State → Prop} (h : Triple P x Q Inside) {s : State}
    (hs : P s) : ∃ a s', x.run s = .ok a s' ∧ Q a s' := by
  have hx := h s hs
  cases hr : x.run s with
  | ok a s' =>
    rw [hr] at hx
    exact ⟨a, s', rfl, hx⟩
  | error b s' =>
    rw [hr] at hx
    exact absurd hx id

/-- The two contexts agree on the registers, flags and atomic bits of the DPU. -/
structure SameContext (hw : HwDpu) (c d : State) : Prop where
  atomicBits : ∀ i < hw.nrOfAtomicBits, d.atomicRegister i = c.atomicRegister i
  registers : ∀ i < hw.nrRegisters, d.registers i = c.registers i
  flags : ∀ t < hw.nrOfThreads, d.carryFlags t = c.carryFlags t ∧ d.zeroFlags t = c.zeroFlags t

/-- The context `c` is formatted; the image is read into the context `d`. -/
theorem register_image_round_trip (hw : HwDpu) (c d : State) :
    -- no access of either loop is out of bounds, and the context comes back
    (∃ s, (formatRawContext hw).run c = .ok ⟨⟩ s ∧
      ∃ d', (formatContext hw).run { d with rawContext := s.rawContext } = .ok ⟨⟩ d' ∧ SameContext hw c d') ∧
    -- each register has a place of its own, at which the loops leave it and look for it
    (∀ t pair, oddRegisterContextIndex t (2 * pair) = registerIndex t (2 * pair + 1) ∧
      oddRegisterContextIndex t (2 * pair) + 1 = registerIndex t (2 * pair)) ∧
    (∀ t r t' r', t < dpuNrThreads → t' < dpuNrThreads → r < dpuNrWorkRegs → r' < dpuNrWorkRegs →
      registerIndex t r = registerIndex t' r' → t = t' ∧ r = r') ∧
    -- the bytes of the atomic bits, the registers and the flags follow each other in the context
    (∀ i < hw.nrOfAtomicBits, i < 4 * regsOffset) ∧
    (∀ t r, t < hw.nrOfThreads → r < hw.nrOfWorkRegistersPerThread →
      regsOffset ≤ registerIndex t r ∧ registerIndex t r < flagsOffset) ∧
    (∀ t < hw.nrOfThreads, flagsOffset + t < contextSizeInWords) := by
  refine ⟨?_, oddRegisterContextIndex_eq, ?_, ?_, ?_, ?_⟩
  · have hspec : Triple (fun s => s = c) (formatRawContext hw)
        (fun _ s => s = { c with rawContext := s.rawContext } ∧ Image hw c s.rawContext) Inside := formatRawContext_spec c
    obtain ⟨⟨⟩, s, hformat, -, himage⟩ := run_inside hspec rfl
    obtain ⟨⟨⟩, d', hparse, hparsed⟩ :=
      run_inside (formatContext_spec himage) (s := { d with rawContext := s.rawContext }) rfl
    exact ⟨s, hformat, d', hparse, hparsed.atomicBits, hparsed.registers, hparsed.flags⟩
  · intro t r t' r' ht ht' _ _ h
    exact registerIndex_inj ht ht' h
  · intro i hi
    exact Nat.lt_of_lt_of_le hi hw.atomicBits_le
  · intro t r ht hr
    exact registerIndex_area (Nat.lt_of_lt_of_le ht hw.threads_le) (Nat.lt_of_lt_of_le hr hw.registers_le)
  · intro t ht
    exact Nat.add_lt_add_left (Nat.lt_of_lt_of_le ht hw.threads_le) flagsOffset

end DpuBackend.Ufi.RegisterImage
