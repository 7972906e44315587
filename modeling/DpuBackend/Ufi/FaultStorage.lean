import DpuBackend.Lib.Hoare
import DpuBackend.Lib.System
import DpuBackend.Ufi.Slice

/-
  The faults of a DPU from one session of a debugger to the next (`ufi_debug.c`).

  The DPU forgets a DMA or a memory fault when it is read. `ci_debug_init_dpu` keeps both kinds, each
  with its thread, in the word `error_storage` of the program, and a later session takes from there
  what it does not find itself.

  A session is given by what the registers show and by which of its commands fail. A write that fails
  may leave any word. Of a context only the faults are followed; the memories and PCs are not.

  Correspondence (C ↔ Lean):
    `error_storage_t`                               ↔ `ErrorStorage`, `ErrorStorage.uint32`, `ErrorStorage.ofUint32`
    `encode_error_storage`, `decode_error_storage`  ↔ `encodeErrorStorage`, `decodeErrorStorage`
    `dpu_get_symbol`                                ↔ `dpuGetSymbol`
    `get_error_store_symbol`                        ↔ `getErrorStoreSymbol`
    `ci_debug_init_dpu`                             ↔ `ciDebugInitDpu`

  `persists`: over every run each session reports the last fault of each kind that was found, while a
  session that finds one is of the first DPU of its interface, comes to its end, and has for a memory
  fault the thread of the DMA fault.
-/

namespace DpuBackend.Ufi.FaultStorage

open DpuBackend.Lib

/-- `dpu_thread_t`. -/
abbrev DpuThread := BitVec 8

/-! ## The word -/

/-- The bit-fields, from the lowest bit up. -/
structure ErrorStorage where
  dmaFault : BitVec 1
  dmaFaultThreadId : BitVec 5
  memFault : BitVec 1
  memFaultThreadId : BitVec 5
  magic : BitVec 20

namespace ErrorStorage

def uint32 (err : ErrorStorage) : BitVec 32 :=
  err.magic ++ err.memFaultThreadId ++ err.memFault ++ err.dmaFaultThreadId ++ err.dmaFault

def ofUint32 (storage : BitVec 32) : ErrorStorage where
  dmaFault := storage.extractLsb' 0 1
  dmaFaultThreadId := storage.extractLsb' 1 5
  memFault := storage.extractLsb' 6 1
  memFaultThreadId := storage.extractLsb' 7 5
  magic := storage.extractLsb' 12 20

@[simp] theorem ofUint32_uint32 (err : ErrorStorage) : ofUint32 err.uint32 = err := by
  unfold ofUint32 uint32
  simp (disch := decide) only [BitVec.extractLsb'_append_eq_of_le, BitVec.extractLsb'_append_eq_of_add_le]
  simp

end ErrorStorage

/-- `ERROR_STORAGE_GUARD`. -/
def errorStorageGuard : BitVec 20 := 0xFEFEB#20

/-- What a context holds of the DMA and the memory fault. -/
@[ext] structure Faults where
  dmaFault : Bool
  dmaFaultThreadIndex : DpuThread
  memFault : Bool
  memFaultThreadIndex : DpuThread

def encodeErrorStorage (dmaFault : Bool) (dmaFaultThreadId : DpuThread) (memFault : Bool)
    (memFaultThreadId : DpuThread) : BitVec 32 :=
  ErrorStorage.uint32
    { dmaFault := BitVec.ofBool dmaFault
      dmaFaultThreadId := dmaFaultThreadId.setWidth 5
      memFault := BitVec.ofBool memFault
      memFaultThreadId := memFaultThreadId.setWidth 5
      magic := errorStorageGuard }

def decodeErrorStorage (storage : BitVec 32) : Option Faults :=
  let err := ErrorStorage.ofUint32 storage
  if err.magic ≠ errorStorageGuard then none
  else
    some
      { dmaFault := decide (err.dmaFault ≠ 0)
        dmaFaultThreadIndex := err.dmaFaultThreadId.setWidth 8
        memFault := decide (err.memFault ≠ 0)
        memFaultThreadIndex := err.memFaultThreadId.setWidth 8 }

theorem ofBool_ne_zero (b : Bool) : decide (BitVec.ofBool b ≠ 0) = b := by cases b <;> rfl

/-- The flags come back, and of a thread its low five bits. -/
theorem decode_encode (dmaFault memFault : Bool) (dmaThread memThread : DpuThread) :
    decodeErrorStorage (encodeErrorStorage dmaFault dmaThread memFault memThread) =
      some ⟨dmaFault, (dmaThread.setWidth 5).setWidth 8, memFault, (memThread.setWidth 5).setWidth 8⟩ := by
  simp only [decodeErrorStorage, encodeErrorStorage, ErrorStorage.ofUint32_uint32, ofBool_ne_zero, ne_eq,
    not_true_eq_false, if_false]

/-! ## The symbol -/

structure ElfSymbol where
  name : String
  value : BitVec 32
  size : BitVec 32

structure DpuSymbol where
  address : BitVec 32
  size : BitVec 32
deriving DecidableEq

def dpuGetSymbol (program : List ElfSymbol) (symbolName : String) : Option DpuSymbol :=
  (program.find? fun elfSymbol => symbolName = elfSymbol.name).map fun elfSymbol => ⟨elfSymbol.value, elfSymbol.size⟩

def getErrorStoreSymbol (program : Option (List ElfSymbol)) (errorStoreAddr : BitVec 32) : Option DpuSymbol :=
  match program with
  | some program => dpuGetSymbol program "error_storage"
  | none => if errorStoreAddr ≠ 0 then some ⟨errorStoreAddr, 4⟩ else none

/-- The place of the word in the WRAM. -/
def DpuSymbol.wordOffset (symbol : DpuSymbol) : Nat := symbol.address.toNat / 4

/-! ## A session -/

structure Context extends Faults where
  bkpFault : Bool
  bkpFaultThreadIndex : DpuThread
  bkpFaultId : BitVec 32

/-- `DPU_FAULT_UNKNOWN_ID`. -/
def dpuFaultUnknownId : BitVec 32 := 0xFFFFFF#32

structure Dpu where
  member : Fin 8
  /-- there can be 24 different threads -/
  nrOfThreads : Fin 25
  program : Option (List ElfSymbol)

def Dpu.maskOne (dpu : Dpu) : BitVec 32 := (dpuMaskOne dpu.member).setWidth 32

inductive Kind where
  | bkp
  | dma
  | mem
deriving DecidableEq

inductive Command where
  /-- the breakpoint is read and the pipeline drained -/
  | drain
  | readFaultThreadIndex (kind : Kind)
  | clearFaultBkp
  | readAndClearFault (kind : Kind)
  | clearFaultDpu
  | extractBkpFaultId
  | decrementThreadPc (kind : Kind)
  | readStorage
  | writeStorage
deriving DecidableEq

/-- What the registers of one kind of fault show: the entry of `result_array`, and the thread. -/
structure Shown where
  result : BitVec 8
  thread : DpuThread

def Shown.faulted (shown : Shown) (dpu : Dpu) : Bool := decide (shown.result.setWidth 32 &&& dpu.maskOne ≠ 0)

structure Session (dpu : Dpu) where
  errorStoreAddr : BitVec 32
  /-- the context that is handed in -/
  context : Context
  fresh : context.bkpFault = false ∧ context.dmaFault = false ∧ context.memFault = false
  shown : Kind → Shown
  thread_lt : ∀ kind, (shown kind).faulted dpu = true → (shown kind).thread.toNat < dpu.nrOfThreads
  bkpFaultId : BitVec 32
  fails : Command → Bool
  /-- what a write that fails leaves -/
  torn : BitVec 32

structure CallState where
  context : Context
  wram : Nat → BitVec 32
  rememberFault : Bool

abbrev Call := EStateM Unit CallState

namespace Session

variable {dpu : Dpu} (s : Session dpu)

def issue (command : Command) : Call Unit := if s.fails command then throw () else pure ()

/-- The flag is 0 or 1. -/
def flag (kind : Kind) : BitVec 32 := if (s.shown kind).faulted dpu then 1 else 0

/-- The flag is compared with the bit of the DPU once more. -/
def taken (kind : Kind) : Bool := decide (s.flag kind &&& dpu.maskOne ≠ 0)

def takeBkpFault : Call Unit :=
  if s.taken .bkp then do
    modify fun st => { st with context := { st.context with
      bkpFault := true, bkpFaultThreadIndex := (s.shown .bkp).thread } }
    s.issue .extractBkpFaultId
    modify fun st => { st with context := { st.context with bkpFaultId := s.bkpFaultId } }
    if s.bkpFaultId = dpuFaultUnknownId then
      modify fun st => { st with context := { st.context with bkpFault := false } }
    else s.issue (.decrementThreadPc .bkp)
  else pure ()

/-- A fault that is kept. -/
def takeFault (kind : Kind) (record : DpuThread → Faults → Faults) : Call Unit :=
  if s.taken kind then do
    modify fun st => { st with
      rememberFault := true
      context := { st.context with toFaults := record (s.shown kind).thread st.context.toFaults } }
    s.issue (.decrementThreadPc kind)
  else pure ()

def takeDmaFault : Call Unit :=
  s.takeFault .dma fun thread f => { f with dmaFault := true, dmaFaultThreadIndex := thread }

def takeMemFault : Call Unit :=
  s.takeFault .mem fun thread f => { f with memFault := true, memFaultThreadIndex := thread }

/-- What is stored is added to what was found. -/
def updated (storage : BitVec 32) (f : Faults) : Faults :=
  match decodeErrorStorage storage with
  | none => f
  | some stored =>
    { dmaFault := f.dmaFault || stored.dmaFault
      dmaFaultThreadIndex := if s.taken .dma then f.dmaFaultThreadIndex else stored.dmaFaultThreadIndex
      memFault := f.memFault || stored.memFault
      memFaultThreadIndex := if s.taken .mem then f.memFaultThreadIndex else stored.memFaultThreadIndex }

/-- Both threads are that of the DMA fault. -/
def encoded (f : Faults) : BitVec 32 :=
  encodeErrorStorage f.dmaFault f.dmaFaultThreadIndex f.memFault f.dmaFaultThreadIndex

def store (symbol : DpuSymbol) : Call Unit := do
  s.issue .readStorage
  modify fun st => { st with context := { st.context with
    toFaults := s.updated (st.wram symbol.wordOffset) st.context.toFaults } }
  let st ← get
  if st.rememberFault then
    if s.fails .writeStorage then do
      set { st with wram := Function.update st.wram symbol.wordOffset s.torn }
      throw ()
    else set { st with wram := Function.update st.wram symbol.wordOffset (encoded st.context.toFaults) }
  else pure ()

/-- The commands until the DMA fault has been read and cleared, in their order. -/
def untilDma : List Command :=
  [.drain, .readFaultThreadIndex .dma, .readFaultThreadIndex .mem, .clearFaultBkp, .readAndClearFault .dma]

def untilMem : List Command := untilDma ++ [.readAndClearFault .mem]

def ciDebugInitDpu : Call Unit := do
  untilMem.forM s.issue
  s.issue .clearFaultDpu
  s.takeBkpFault
  s.takeDmaFault
  s.takeMemFault
  match getErrorStoreSymbol dpu.program s.errorStoreAddr with
  | some symbol => s.store symbol
  | none => pure ()

end Session

/-! ## What sessions find -/

/-- The thread of each kind of fault, where there is one. -/
structure Found where
  dma : Option DpuThread
  mem : Option DpuThread
deriving DecidableEq

namespace Found

def nothing : Found := ⟨none, none⟩

/-- The later of two, kind by kind. -/
def orEarlier (later earlier : Found) : Found := ⟨later.dma.or earlier.dma, later.mem.or earlier.mem⟩

/-- The last of each kind, in a list that begins with the last. -/
def latest (history : List Found) : Found := ⟨history.findSome? Found.dma, history.findSome? Found.mem⟩

@[simp] theorem nothing_orEarlier (f : Found) : nothing.orEarlier f = f := rfl

theorem latest_cons (f : Found) (history : List Found) : latest (f :: history) = f.orEarlier (latest history) := by
  cases f with
  | mk dma mem => cases dma <;> cases mem <;> rfl

@[simp] theorem latest_singleton (f : Found) : latest [f] = f := by
  cases f with
  | mk dma mem => cases dma <;> cases mem <;> rfl

end Found

def Faults.found (f : Faults) : Found where
  dma := if f.dmaFault then some f.dmaFaultThreadIndex else none
  mem := if f.memFault then some f.memFaultThreadIndex else none

/-- What a word keeps. -/
def keptIn (storage : BitVec 32) : Found := ((decodeErrorStorage storage).map Faults.found).getD .nothing

namespace Session

variable {dpu : Dpu} (s : Session dpu)

/-- The fault is there and the session comes to read it. -/
def finds (kind : Kind) (commands : List Command) : Option DpuThread :=
  if (s.shown kind).faulted dpu && commands.all fun command => !s.fails command then some (s.shown kind).thread
  else none

/-- A fault that has been read is found, however the session ends. -/
def found : Found where
  dma := s.finds .dma untilDma
  mem := s.finds .mem untilMem

end Session

/-! ## Runs -/

/-- A DPU whose program has the word. -/
structure Storing where
  dpu : Dpu
  symbols : List ElfSymbol
  loaded : dpu.program = some symbols
  symbol : DpuSymbol
  hasWord : dpuGetSymbol symbols "error_storage" = some symbol

structure State where
  wram : Nat → BitVec 32
  /-- what was found, the last first -/
  history : List Found
  /-- the context of the last session, if it came to its end -/
  reported : Option Context

inductive Action (dpu : Dpu) where
  | session (s : Session dpu)
  /-- a write to the WRAM -/
  | write (offset : Nat) (value : BitVec 32)

namespace Storing

variable (p : Storing)

/-- `error_storage`. -/
def word (st : State) : BitVec 32 := st.wram p.symbol.wordOffset

theorem errorStore (errorStoreAddr : BitVec 32) : getErrorStoreSymbol p.dpu.program errorStoreAddr = some p.symbol := by
  rw [p.loaded]
  exact p.hasWord

def step (st : State) : Action p.dpu → Option State
  | .session s =>
    match s.ciDebugInitDpu.run ⟨s.context, st.wram, false⟩ with
    | .ok _ t => some ⟨t.wram, s.found :: st.history, some t.context⟩
    | .error _ t => some ⟨t.wram, s.found :: st.history, none⟩
  | .write offset value =>
    -- nothing else writes the word
    if offset = p.symbol.wordOffset then none
    else some { st with wram := Function.update st.wram offset value }

/-- A word that is already kept counts as found. -/
def machine : System State (Action p.dpu) :=
  .ofStep (fun st => st.history = [keptIn (p.word st)] ∧ st.reported = none) p.step

end Storing

namespace Session

variable {dpu : Dpu} (s : Session dpu)

def remembers : Bool := s.taken .dma || s.taken .mem

/-- The commands that come up if none fails. -/
def issues : Command → Bool
  | .extractBkpFaultId => s.taken .bkp
  | .decrementThreadPc .bkp => s.taken .bkp && decide (s.bkpFaultId ≠ dpuFaultUnknownId)
  | .decrementThreadPc kind => s.taken kind
  | .writeStorage => s.remembers
  | _ => true

/-- The DMA thread of the context at the end: found, else kept, else as it was handed in. -/
def dmaThread (storage : BitVec 32) : DpuThread :=
  s.found.dma.getD (((decodeErrorStorage storage).map Faults.dmaFaultThreadIndex).getD s.context.dmaFaultThreadIndex)

/-- What a session that finds a fault has to meet. -/
structure Keepable (storage : BitVec 32) : Prop where
  firstDpu : dpu.member = 0
  succeeds : ∀ command, s.issues command = true → s.fails command = false
  sameThread : ∀ thread, (s.found.orEarlier (keptIn storage)).mem = some thread →
    (s.dmaThread storage).setWidth 5 = thread.setWidth 5

end Session

namespace Storing

variable (p : Storing)

def HoldsWhen (st : State) : Action p.dpu → Prop
  | .session s => s.found ≠ .nothing → s.Keepable (p.word st)
  | .write _ _ => True

end Storing

/-- The last session reports the faults found so far, each with the thread it was found with last. -/
def State.Reports (st : State) : Prop := ∀ context, st.reported = some context → context.found = .latest st.history

/-! ## What a session does -/

section Calls

variable {dpu : Dpu} {s : Session dpu} {w : Nat → BitVec 32} {P : CallState → Prop} {f : Faults} {remember : Bool}

/-- What is known between two commands. -/
structure CallState.At (f : Faults) (remember : Bool) (w : Nat → BitVec 32) (st : CallState) : Prop where
  faults : st.context.toFaults = f
  remember : st.rememberFault = remember
  wram : st.wram = w

namespace Session

variable (s)

def Reads : Prop := ∀ command ∈ untilMem, s.fails command = false

/-- A command has failed, and the word is as it was but for a write of what was found. -/
def Stopped (w : Nat → BitVec 32) (st : CallState) : Prop :=
  (∃ command, s.issues command = true ∧ s.fails command = true) ∧ (st.wram = w ∨ s.remembers = true ∧ s.Reads)

variable {s}

theorem issue_spec {command : Command} (hissues : s.issues command = true) (hP : ∀ st, P st → st.wram = w) :
    Triple P (s.issue command) (fun _ st => P st ∧ s.fails command = false) fun _ => s.Stopped w := by
  unfold issue
  refine triple_ite (fun hfails => triple_throw fun st hst => ⟨⟨command, hissues, hfails⟩, .inl (hP st hst)⟩)
    fun hfails => ?_
  exact triple_pure fun st hst => ⟨hst, Bool.eq_false_iff.mpr hfails⟩

theorem forM_issue_spec {commands : List Command} (hissues : ∀ command ∈ commands, s.issues command = true)
    (hP : ∀ st, P st → st.wram = w) :
    Triple P (commands.forM s.issue) (fun _ st => P st ∧ ∀ command ∈ commands, s.fails command = false)
      fun _ => s.Stopped w := by
  induction commands generalizing P with
  | nil => exact triple_pure fun st hst => ⟨hst, nofun⟩
  | cons command rest ih =>
    show Triple P (s.issue command >>= fun _ => rest.forM s.issue) _ _
    obtain ⟨hcommand, hrest⟩ := List.forall_mem_cons.mp hissues
    refine triple_bind (issue_spec hcommand hP) fun _ => ?_
    refine (ih hrest fun st hst => hP st hst.1).post fun _ st h => ?_
    exact ⟨h.1.1, List.forall_mem_cons.mpr ⟨h.1.2, h.2⟩⟩

/-- A breakpoint changes nothing of the other two. -/
theorem takeBkpFault_spec :
    Triple (CallState.At f remember w) s.takeBkpFault (fun _ => CallState.At f remember w) fun _ => s.Stopped w := by
  unfold takeBkpFault
  refine triple_ite (fun htaken => ?_) fun _ => triple_pure fun _ h => h
  refine triple_bind (R := fun _ => CallState.At f remember w)
    (triple_modify fun _ h => ⟨h.faults, h.remember, h.wram⟩) fun _ => ?_
  refine triple_bind (issue_spec htaken fun _ h => h.wram) fun _ => ?_
  refine triple_bind (R := fun _ => CallState.At f remember w)
    (triple_modify fun _ h => ⟨h.1.faults, h.1.remember, h.1.wram⟩) fun _ => ?_
  refine triple_ite (fun _ => triple_modify fun _ h => ⟨h.faults, h.remember, h.wram⟩) fun hid => ?_
  have hissues : s.issues (.decrementThreadPc .bkp) = true := Bool.and_eq_true_iff.mpr ⟨htaken, decide_eq_true hid⟩
  exact (issue_spec hissues fun _ h => h.wram).post fun _ _ h => h.1

theorem takeFault_spec {kind : Kind} (hkind : s.issues (.decrementThreadPc kind) = s.taken kind)
    (record : DpuThread → Faults → Faults) :
    Triple (CallState.At f remember w) (s.takeFault kind record)
      (fun _ => CallState.At (if s.taken kind then record (s.shown kind).thread f else f) (s.taken kind || remember) w)
      fun _ => s.Stopped w := by
  unfold takeFault
  refine triple_ite (fun htaken => ?_) fun htaken => triple_pure fun _ h => by simpa [htaken] using h
  rw [if_pos htaken, htaken, Bool.true_or]
  refine triple_bind (R := fun _ => CallState.At (record (s.shown kind).thread f) true w)
    (triple_modify fun _ h => ⟨congrArg _ h.faults, rfl, h.wram⟩) fun _ => ?_
  exact (issue_spec (hkind.trans htaken) fun _ h => h.wram).post fun _ _ h => h.1

variable (s)

/-- What the context holds once the faults are taken. -/
def taking : Faults where
  dmaFault := s.taken .dma
  dmaFaultThreadIndex := if s.taken .dma then (s.shown .dma).thread else s.context.dmaFaultThreadIndex
  memFault := s.taken .mem
  memFaultThreadIndex := if s.taken .mem then (s.shown .mem).thread else s.context.memFaultThreadIndex

theorem taking_eq :
    s.taking =
      let f := if s.taken .dma then { s.context.toFaults with
        dmaFault := true, dmaFaultThreadIndex := (s.shown .dma).thread } else s.context.toFaults
      if s.taken .mem then { f with memFault := true, memFaultThreadIndex := (s.shown .mem).thread } else f := by
  obtain ⟨-, hdma, hmem⟩ := s.fresh
  apply Faults.ext
  all_goals cases hd : s.taken .dma <;> cases hm : s.taken .mem <;> simp [taking, hd, hm, hdma, hmem]

/-- What the context holds at the end. -/
def reports (storage : BitVec 32) : Faults := s.updated storage s.taking

/-- The memory at the end. -/
def keeps (symbol : DpuSymbol) (w : Nat → BitVec 32) : Nat → BitVec 32 :=
  if s.remembers then Function.update w symbol.wordOffset (encoded (s.reports (w symbol.wordOffset))) else w

variable {s}

theorem store_spec (symbol : DpuSymbol) (hreads : s.Reads) :
    Triple (CallState.At s.taking s.remembers w) (s.store symbol)
      (fun _ st => st.context.toFaults = s.reports (w symbol.wordOffset) ∧ st.wram = s.keeps symbol w)
      fun _ => s.Stopped w := by
  unfold store
  refine triple_bind (issue_spec rfl fun _ h => h.wram) fun _ => ?_
  refine triple_bind (R := fun _ => CallState.At (s.reports (w symbol.wordOffset)) s.remembers w)
    (triple_modify fun st h => ?_) fun _ => triple_get fun st h => ?_
  · obtain ⟨⟨hfaults, hremember, rfl⟩, -⟩ := h
    exact ⟨by rw [hfaults]; rfl, hremember, rfl⟩
  obtain ⟨hfaults, hremember, rfl⟩ := h
  unfold keeps
  rw [hremember]
  cases hr : s.remembers with
  | false =>
    refine triple_pure fun t ht => ?_
    subst ht
    exact ⟨hfaults, rfl⟩
  | true =>
    rw [if_pos rfl, if_pos rfl]
    refine triple_ite (fun hfails => ?_) fun _ t ht => ⟨hfaults, by rw [hfaults]⟩
    exact fun t ht => ⟨⟨.writeStorage, hr, hfails⟩, .inr ⟨hr, hreads⟩⟩

/-- Every session comes to its end, with what it reports and keeps, or is stopped. -/
theorem ciDebugInitDpu_spec {symbol : DpuSymbol} (hsymbol : getErrorStoreSymbol dpu.program s.errorStoreAddr = some symbol) :
    Triple (fun st => st = ⟨s.context, w, false⟩) s.ciDebugInitDpu
      (fun _ st => s.Reads ∧ st.context.toFaults = s.reports (w symbol.wordOffset) ∧ st.wram = s.keeps symbol w)
      fun _ => s.Stopped w := by
  unfold ciDebugInitDpu
  rw [hsymbol]
  have hinit : ∀ st, st = ⟨s.context, w, false⟩ → CallState.At s.context.toFaults false w st := by
    rintro _ rfl
    exact ⟨rfl, rfl, rfl⟩
  have hissues : ∀ command ∈ untilMem, s.issues command = true := by simp [untilMem, untilDma, issues]
  refine triple_bind ((forM_issue_spec hissues fun _ h => h.wram).pre hinit) fun _ => ?_
  refine triple_each fun st hst => ?_
  obtain ⟨hat, hreads⟩ := hst
  refine Triple.pre (P := CallState.At s.context.toFaults false w) ?_ fun t ht => ht ▸ hat
  refine triple_bind (issue_spec rfl fun _ h => h.wram) fun _ => ?_
  refine triple_bind (takeBkpFault_spec.pre fun _ h => h.1) fun _ => ?_
  refine triple_bind (takeFault_spec rfl _) fun _ => ?_
  refine triple_bind (takeFault_spec rfl _) fun _ => ?_
  refine ((store_spec symbol hreads).pre fun st h => ?_).post fun _ _ h => ⟨hreads, h⟩
  have hremembers : (s.taken .mem || (s.taken .dma || false)) = s.remembers := by
    rw [Bool.or_false, remembers, Bool.or_comm]
  rw [taking_eq, ← hremembers]
  exact h

/-! ## What is kept is what was found -/

/-- The second comparison passes on the first DPU of an interface only. -/
theorem taken_iff (s : Session dpu) (kind : Kind) :
    s.taken kind = true ↔ (s.shown kind).faulted dpu = true ∧ dpu.member = 0 := by
  have hone : ∀ member : Fin 8, (1#32 &&& (dpuMaskOne member).setWidth 32 ≠ 0) ↔ member = 0 := by decide
  cases hfault : (s.shown kind).faulted dpu with
  | false => simp [taken, flag, hfault]
  | true => simpa [taken, flag, hfault, Dpu.maskOne] using hone dpu.member

theorem found_eq (hreads : s.Reads) :
    s.found = ⟨if (s.shown .dma).faulted dpu then some (s.shown .dma).thread else none,
      if (s.shown .mem).faulted dpu then some (s.shown .mem).thread else none⟩ := by
  have hall : ∀ commands, commands ⊆ untilMem → commands.all (fun command => !s.fails command) = true := by
    intro commands hsub
    rw [List.all_eq_true]
    intro command hcommand
    rw [hreads command (hsub hcommand), Bool.not_false]
  simp only [found, finds, hall untilDma (List.subset_append_left ..), hall untilMem (List.Subset.refl _), Bool.and_true]

/-- A fault that was found is taken, on the first DPU of an interface. -/
theorem found_taking (hreads : s.Reads) (hfirst : s.found ≠ .nothing → dpu.member = 0) : s.taking.found = s.found := by
  have htaken : ∀ kind, ((s.shown kind).faulted dpu = true → s.found ≠ .nothing) →
      s.taken kind = (s.shown kind).faulted dpu := by
    intro kind hfound
    rw [Bool.eq_iff_iff, taken_iff]
    exact ⟨And.left, fun h => ⟨h, hfirst (hfound h)⟩⟩
  have hdma := htaken .dma fun h hnone => by simp [found_eq hreads, h, Found.nothing] at hnone
  have hmem := htaken .mem fun h hnone => by simp [found_eq hreads, h, Found.nothing] at hnone
  rw [found_eq hreads, Faults.found, taking, hdma, hmem]
  cases (s.shown .dma).faulted dpu <;> cases (s.shown .mem).faulted dpu <;> rfl

/-- What is kept is reported where nothing was found. -/
theorem found_reports (storage : BitVec 32) : (s.reports storage).found = s.taking.found.orEarlier (keptIn storage) := by
  unfold reports updated keptIn
  cases decodeErrorStorage storage with
  | none => simp [Found.orEarlier, Found.nothing]
  | some kept =>
    cases hd : s.taken .dma <;> cases hm : s.taken .mem <;>
      simp [taking, hd, hm, Faults.found, Found.orEarlier]

end Session

/-- The threads fit the fields of the word. -/
def Found.Fits (f : Found) : Prop := ∀ thread, f.dma = some thread ∨ f.mem = some thread → thread.toNat < 32

theorem Found.Fits.orEarlier {f g : Found} (hf : f.Fits) (hg : g.Fits) : (f.orEarlier g).Fits := by
  intro thread h
  simp only [Found.orEarlier, Option.or_eq_some_iff] at h
  obtain (h | ⟨-, h⟩) | (h | ⟨-, h⟩) := h
  · exact hf thread (.inl h)
  · exact hg thread (.inl h)
  · exact hf thread (.inr h)
  · exact hg thread (.inr h)

theorem fits_keptIn (storage : BitVec 32) : (keptIn storage).Fits := by
  have hlt : ∀ field : BitVec 5, (field.setWidth 8).toNat < 32 := fun field => by
    rw [BitVec.toNat_setWidth]
    exact Nat.lt_of_le_of_lt (Nat.mod_le ..) field.isLt
  intro thread h
  unfold keptIn decodeErrorStorage at h
  dsimp only at h
  split at h
  · simp [Found.nothing] at h
  · simp only [Option.map_some, Option.getD_some, Faults.found, Option.ite_none_right_eq_some, Option.some.injEq] at h
    obtain ⟨-, rfl⟩ | ⟨-, rfl⟩ := h
    · exact hlt _
    · exact hlt _

theorem Session.fits_found (s : Session dpu) : s.found.Fits := by
  have hlt : ∀ kind commands thread, s.finds kind commands = some thread → thread.toNat < 32 := by
    intro kind commands thread h
    simp only [Session.finds, Option.ite_none_right_eq_some, Bool.and_eq_true, Option.some.injEq] at h
    obtain ⟨⟨hfault, -⟩, rfl⟩ := h
    have hthread := s.thread_lt kind hfault
    have hnr := dpu.nrOfThreads.isLt
    omega
  rintro thread (h | h)
  · exact hlt _ _ _ h
  · exact hlt _ _ _ h

theorem setWidth_five {thread : DpuThread} (hlt : thread.toNat < 32) : (thread.setWidth 5).setWidth 8 = thread := by
  apply BitVec.eq_of_toNat_eq
  simp only [BitVec.toNat_setWidth]
  omega

/-- The word keeps the faults, where the memory fault has the thread of the DMA fault. -/
theorem keptIn_encoded {f : Faults} (hfits : f.found.Fits)
    (hsame : ∀ thread, f.found.mem = some thread → f.dmaFaultThreadIndex.setWidth 5 = thread.setWidth 5) :
    keptIn (Session.encoded f) = f.found := by
  have hdma : f.dmaFault = true → (f.dmaFaultThreadIndex.setWidth 5).setWidth 8 = f.dmaFaultThreadIndex := fun h =>
    setWidth_five (hfits _ (.inl (if_pos h)))
  have hmem : f.memFault = true → (f.dmaFaultThreadIndex.setWidth 5).setWidth 8 = f.memFaultThreadIndex := fun h => by
    rw [hsame _ (if_pos h), setWidth_five (hfits _ (.inr (if_pos h)))]
  simp only [keptIn, Session.encoded, decode_encode, Option.map_some, Option.getD_some, Faults.found]
  congr 1
  · split
    · next h => rw [hdma h]
    · rfl
  · split
    · next h => rw [hmem h]
    · rfl

/-- The thread that is written for both. -/
theorem Session.reports_dmaThread {s : Session dpu} (hreads : s.Reads) (hfirst : s.found ≠ .nothing → dpu.member = 0)
    (storage : BitVec 32) : (s.reports storage).dmaFaultThreadIndex = s.dmaThread storage := by
  have htaking : s.taking.found.dma = s.found.dma := by rw [found_taking hreads hfirst]
  unfold reports updated dmaThread
  rw [← htaking]
  cases decodeErrorStorage storage <;> cases hd : s.taken .dma <;> simp [taking, Faults.found, hd]

/-- A session that finds a fault has it remembered, and one that finds nothing writes nothing. -/
theorem Session.remembers_iff {s : Session dpu} (hreads : s.Reads) (hfirst : s.found ≠ .nothing → dpu.member = 0) :
    s.remembers = true ↔ s.found ≠ .nothing := by
  rw [← found_taking hreads hfirst]
  cases hd : s.taken .dma <;> cases hm : s.taken .mem <;>
    simp [remembers, taking, Faults.found, Found.nothing, hd, hm]

end Calls

/-! ## Over a run -/

section Runs

variable {p : Storing} {st : State}

/-- The word keeps what the sessions have found, and the last one has reported it. -/
structure Kept (p : Storing) (st : State) : Prop where
  kept : keptIn (p.word st) = .latest st.history
  reports : st.Reports

/-- What a session leaves in the word, if it comes to its end. -/
theorem keptIn_keeps {s : Session p.dpu} (hreads : s.Reads)
    (hkeep : s.found ≠ .nothing → s.Keepable (p.word st)) :
    keptIn (s.keeps p.symbol st.wram p.symbol.wordOffset) = s.found.orEarlier (keptIn (p.word st)) := by
  have hfirst : s.found ≠ .nothing → p.dpu.member = 0 := fun h => (hkeep h).firstDpu
  have hreports : (s.reports (p.word st)).found = s.found.orEarlier (keptIn (p.word st)) := by
    rw [Session.found_reports, Session.found_taking hreads hfirst]
  by_cases hfound : s.found = .nothing
  · have hremembers : s.remembers = false := by
      rw [Bool.eq_false_iff, ne_eq, Session.remembers_iff hreads hfirst]
      exact not_not_intro hfound
    rw [Session.keeps, hremembers, hfound, Found.nothing_orEarlier]
    rfl
  · rw [Session.keeps, if_pos ((Session.remembers_iff hreads hfirst).mpr hfound), Function.update_self]
    change keptIn (Session.encoded (s.reports (p.word st))) = _
    rw [keptIn_encoded, hreports]
    · rw [hreports]
      exact s.fits_found.orEarlier (fits_keptIn _)
    · intro thread hthread
      rw [hreports] at hthread
      rw [Session.reports_dmaThread hreads hfirst]
      exact (hkeep hfound).sameThread thread hthread

/-- A session that is stopped has found nothing, and leaves the word. -/
theorem Session.Stopped.nothing {s : Session p.dpu} {w : Nat → BitVec 32} {t : CallState} (h : s.Stopped w t)
    (hkeep : s.found ≠ .nothing → s.Keepable (w p.symbol.wordOffset)) : s.found = .nothing ∧ t.wram = w := by
  obtain ⟨⟨command, hissues, hfails⟩, hwram⟩ := h
  have hnothing : s.found = .nothing := by
    by_contra hfound
    exact absurd ((hkeep hfound).succeeds command hissues) (by rw [hfails]; exact nofun)
  obtain hwram | ⟨hremembers, hreads⟩ := hwram
  · exact ⟨hnothing, hwram⟩
  · exact absurd hnothing ((remembers_iff hreads fun h => absurd hnothing h).mp hremembers)

/-- The two ways a session ends. -/
theorem session_cases {t : State} {s : Session p.dpu} (hstep : p.step st (.session s) = some t) :
    (∃ context : Context, s.Reads ∧ context.toFaults = s.reports (p.word st) ∧
      t = ⟨s.keeps p.symbol st.wram, s.found :: st.history, some context⟩) ∨
    ∃ u : CallState, s.Stopped st.wram u ∧ t = ⟨u.wram, s.found :: st.history, none⟩ := by
  have hspec := Session.ciDebugInitDpu_spec (s := s) (w := st.wram) (p.errorStore s.errorStoreAddr)
  rw [Storing.step] at hstep
  obtain ⟨_, u, hrun, hreads, hfaults, hwram⟩ | ⟨_, u, hrun, hstopped⟩ := hspec.run
  · rw [hrun] at hstep
    refine .inl ⟨u.context, hreads, hfaults, ?_⟩
    rw [← hwram]
    exact (Option.some.inj hstep).symm
  · rw [hrun] at hstep
    exact .inr ⟨u, hstopped, (Option.some.inj hstep).symm⟩

theorem Kept.session {t : State} {s : Session p.dpu} (h : Kept p st)
    (hkeep : s.found ≠ .nothing → s.Keepable (p.word st)) (hstep : p.step st (.session s) = some t) : Kept p t := by
  have hlatest : s.found.orEarlier (keptIn (p.word st)) = .latest (s.found :: st.history) := by
    rw [h.kept, Found.latest_cons]
  obtain ⟨context, hreads, hfaults, rfl⟩ | ⟨u, hstopped, rfl⟩ := session_cases hstep
  · refine ⟨(keptIn_keeps hreads hkeep).trans hlatest, fun c hc => ?_⟩
    obtain rfl := Option.some.inj hc
    rw [hfaults, Session.found_reports, Session.found_taking hreads fun hfound => (hkeep hfound).firstDpu]
    exact hlatest
  · obtain ⟨hnothing, hwram⟩ := hstopped.nothing hkeep
    rw [hnothing, Found.nothing_orEarlier] at hlatest
    rw [hnothing, hwram]
    exact ⟨hlatest, nofun⟩

theorem Kept.write {t : State} {offset : Nat} {value : BitVec 32} (h : Kept p st)
    (hstep : p.step st (.write offset value) = some t) : Kept p t := by
  rw [Storing.step] at hstep
  split at hstep
  · cases hstep
  · next hother =>
    obtain rfl := Option.some.inj hstep
    refine ⟨?_, h.reports⟩
    show keptIn (Function.update st.wram offset value p.symbol.wordOffset) = _
    rw [Function.update_of_ne (Ne.symm hother)]
    exact h.kept

/-- Over every run. -/
theorem persists (h : p.machine.Reach p.HoldsWhen st) : st.Reports := by
  refine Kept.reports (p := p) (h.invariant ?_ ?_)
  · intro s ⟨hhistory, hreported⟩
    refine ⟨?_, by rw [State.Reports, hreported]; exact nofun⟩
    rw [hhistory, Found.latest_singleton]
  · intro s a t hs hok hstep
    cases a with
    | session session => exact hs.session hok hstep
    | write offset value => exact hs.write hstep

end Runs

/-! ## Runs of the first two DPUs -/

/-- The program has the word at the start of its WRAM. -/
def crt0 (member : Fin 8) : Storing where
  dpu := ⟨member, 24, some [⟨"error_storage", 0, 4⟩]⟩
  symbols := [⟨"error_storage", 0, 4⟩]
  loaded := rfl
  symbol := ⟨0, 4⟩
  hasWord := by decide +kernel

/-- The DMA and the memory fault, and nothing fails. -/
def sessionWith (member : Fin 8) (dma mem : Option (Fin 24)) : Session (crt0 member).dpu where
  errorStoreAddr := 0
  context := ⟨⟨false, 0, false, 0⟩, false, 0, 0⟩
  fresh := ⟨rfl, rfl, rfl⟩
  shown kind :=
    let fault := match kind with
      | .bkp => none
      | .dma => dma
      | .mem => mem
    ⟨if fault.isSome then dpuMaskOne member else 0, BitVec.ofNat 8 (fault.getD 0).val⟩
  thread_lt kind _ := by
    show (_ % 256 : Nat) < 24
    omega
  bkpFaultId := 0
  fails _ := false
  torn := 0

def nothingKept : State := ⟨fun _ => 0, [.nothing], none⟩

/-- One session after the other, each with its DMA and its memory fault. -/
def sessions (member : Fin 8) (faults : List (Option (Fin 24) × Option (Fin 24))) : List (Action (crt0 member).dpu) :=
  faults.map fun f => .session (sessionWith member f.1 f.2)

theorem nothingKept_init (member : Fin 8) : (crt0 member).machine.init nothingKept :=
  ⟨by revert member; decide +kernel, rfl⟩

/-- What the last session has reported, and what has been found. -/
def State.outcome (st : State) : Option Found × List Found := (st.reported.map fun context => context.found, st.history)

theorem holdsWhen_sessionWith {st : State} {dma mem : Option (Fin 24)}
    (hsame : ∀ thread ∈ ((sessionWith 0 dma mem).found.orEarlier (keptIn ((crt0 0).word st))).mem,
      ((sessionWith 0 dma mem).dmaThread ((crt0 0).word st)).setWidth 5 = thread.setWidth 5) :
    (crt0 0).HoldsWhen st (.session (sessionWith 0 dma mem)) :=
  fun _ => ⟨rfl, fun _ _ => rfl, hsame⟩

/-- Thread 3 faults in one session and again, in the other way, in the next; the third finds nothing. -/
theorem persists_bothFaults :
    ∃ st, (crt0 0).machine.Reachable st ∧ st.Reports ∧
      st.outcome = (some ⟨some 3, some 3⟩, [.nothing, ⟨none, some 3⟩, ⟨some 3, none⟩, .nothing]) := by
  obtain ⟨st, hrun, houtcome⟩ : ∃ st, System.Run (crt0 0).step (crt0 0).HoldsWhen nothingKept
      (sessions 0 [(some 3, none), (none, some 3), (none, none)]) st ∧
        st.outcome = (some ⟨some 3, some 3⟩, [.nothing, ⟨none, some 3⟩, ⟨some 3, none⟩, .nothing]) :=
    ⟨_, ⟨holdsWhen_sessionWith (by decide +kernel), _, rfl, holdsWhen_sessionWith (by decide +kernel), _, rfl,
      holdsWhen_sessionWith (by decide +kernel), _, rfl, rfl⟩, by decide +kernel⟩
  have hreach : (crt0 0).machine.Reach (crt0 0).HoldsWhen st :=
    System.reach_of_run _ (.init (nothingKept_init 0)) hrun
  exact ⟨st, hreach.reachable, persists hreach, houtcome⟩

theorem not_reports_of_outcome (member : Fin 8) (faults : List (Option (Fin 24) × Option (Fin 24))) (found : Found)
    (history : List Found)
    (hrun : (System.runFrom (crt0 member).step nothingKept (sessions member faults)).map State.outcome =
      some (some found, history))
    (hother : found ≠ .latest history) : ∃ st, (crt0 member).machine.Reachable st ∧ ¬st.Reports := by
  obtain ⟨st, hst, houtcome⟩ := Option.map_eq_some_iff.mp hrun
  obtain ⟨hreported, rfl⟩ := Prod.mk.inj houtcome
  obtain ⟨context, hcontext, rfl⟩ := Option.map_eq_some_iff.mp hreported
  exact ⟨st, System.reach_of_runFrom _ (.init (nothingKept_init member)) hst, fun h => hother (h context hcontext)⟩

/-- After a memory fault on thread 3 the next session reports thread 0; of the second DPU of an interface not even the
session that reads the fault reports it. -/
theorem memThread_forgotten :
    (∃ st, (crt0 0).machine.Reachable st ∧ ¬st.Reports) ∧ ∃ st, (crt0 1).machine.Reachable st ∧ ¬st.Reports := by
  refine ⟨not_reports_of_outcome 0 [(none, some 3), (none, none)] ⟨none, some 0⟩
    [.nothing, ⟨none, some 3⟩, .nothing] (by decide +kernel) (by decide), ?_⟩
  exact not_reports_of_outcome 1 [(some 3, none)] .nothing [⟨some 3, none⟩, .nothing] (by decide +kernel) (by decide)

end DpuBackend.Ufi.FaultStorage
