import DpuBackend.Lib.FirstFailure
import DpuBackend.Ufi.RegisterImage

/-
  The routines of the debugger on a DPU (`ufi_debug.c`).

  A routine saves a part of the IRAM and of the WRAM, puts a program of its own in their place
  and lets the DPU run it; at the end it writes the two parts back. Every step but the writes
  back may fail, and each failure leaves the function at once: `leavesAsFound_iff` says what
  is left of the caller's memories then.

  How each allocation and each command ends is given. A selection, a switch of the muxes and a
  boot are one command each, an instruction is read a byte at a time. What the DPU does with its
  memories while the host polls it is given as well.

  Correspondence (C ↔ Lean):
    `set_pc_in_core_dump_or_restore_registers` ↔ `setPcInCoreDump`
    `dpu_thread_boot_safe_for_dpu`             ↔ `Setting.threadBoot`
    `dpu_boot_and_wait_for_dpu`                ↔ `Setting.bootAndWait`
    `dpu_extract_context_for_dpu_routine`      ↔ `Setting.extractContext`
    `dpu_restore_context_for_dpu_routine`      ↔ `Setting.restoreContext`
    `dpu_execute_routine_for_dpu`              ↔ `Setting.executeRoutine`
-/

namespace DpuBackend.Ufi.DebugRoutine

open DpuBackend.Lib DpuBackend.Ufi.RegisterImage

abbrev Instruction := BitVec 48

/-- The memories of the DPU. -/
structure Memories where
  iram : Nat → Instruction
  wram : Nat → BitVec 32

inductive Event where
  | start
  | stop
deriving DecidableEq

/-- The allocations and the commands of a routine, but for the writes back. -/
inductive Step where
  | eventStart
  | fetchProgram
  | allocIramBackup
  | select
  | readIram (address byte : Nat)
  | allocWramBackup
  | readWram (address : Nat)
  | writeIram (address : Nat)
  | allocRawContext
  | bootSelect
  | bootMux
  | bootThreadSelect
  | boot
  | readRunBit (read : Nat)
  | contextSelect
  | readContext (address : Nat)
  | writeContext (address : Nat)
  | eventEnd
deriving DecidableEq

/-- The steps before the program is loaded. -/
def Step.saves : Step → Bool
  | .fetchProgram | .allocIramBackup | .select | .readIram _ _ | .allocWramBackup | .readWram _ => true
  | _ => false

inductive Error where
  | driver
  | system
  | outOfBounds

/-- The DPU, the events sent so far, and the buffers of the host. -/
structure Machine where
  dpu : Memories
  events : List Event
  program : Nat → Instruction
  iramBackup : Nat → Instruction
  wramBackup : Nat → BitVec 32
  pcs : Nat → BitVec 16
  context : RegisterImage.State

abbrev DebugM := EStateM Error Machine

inductive Kind where
  | extract
  | restore
deriving DecidableEq

/-- What a call finds: the DPU, the program of the routine, and how its steps end. -/
structure Setting where
  hw : HwDpu
  kind : Kind
  program : Nat → Instruction
  programSize : Nat
  /-- The reads that still find the DPU running. -/
  polls : Nat
  /-- What the DPU does before each of the reads. -/
  execute : Nat → Memories → Memories
  fails : Step → Bool

/-- The 32-bit index wraps if the program is too short. -/
def setPcInCoreDump (thread : Nat) (pc : BitVec 16) (programSize : Nat) (program : Nat → Instruction) :
    Nat → Instruction :=
  let upperIndex := programSize + 2 ^ 32 - 12 * (dpuNrThreads - thread - 1)
  [1, 4, 7, 10].foldl (fun program k =>
    let i := (upperIndex - k) % 2 ^ 32
    Function.update program i (program i ||| pc.setWidth 48)) program

/-- A loop of `dpu_execute_routine_for_dpu` for the context. -/
def onContext (x : Routine PUnit) : DebugM PUnit := fun s =>
  match x.run s.context with
  | .ok _ c => .ok ⟨⟩ { s with context := c }
  | .error _ c => .error .outOfBounds { s with context := c }

namespace Setting

variable (x : Setting)

def step (i : Step) (e : Error) : DebugM PUnit := if x.fails i then throw e else pure ⟨⟩

def event (i : Step) (event : Event) : DebugM PUnit := do
  x.step i .driver
  modify fun s => { s with events := event :: s.events }

/-! ## The routines -/

def threadBoot : DebugM PUnit := do
  x.step .bootMux .driver
  x.step .bootThreadSelect .driver
  x.step .boot .driver

def pollRunBit (read : Nat) : DebugM PUnit := do
  modify fun s => { s with dpu := x.execute read s.dpu }
  x.step (.readRunBit read) .driver

def bootAndWait : DebugM PUnit := do
  x.step .bootSelect .driver
  x.threadBoot
  (List.range (x.polls + 1)).forM x.pollRunBit

def readContextWord (address : Nat) : DebugM PUnit := do
  x.step (.readContext address) .driver
  let s ← get
  onContext (storeRaw address (s.dpu.wram address))

def extractContext : DebugM PUnit := do
  x.bootAndWait
  x.step .contextSelect .driver
  (List.range contextSizeInWords).forM x.readContextWord
  onContext (formatContext x.hw)

def writeContextWord (address : Nat) : DebugM PUnit := do
  x.step (.writeContext address) .driver
  modify fun s =>
    { s with dpu := { s.dpu with wram := Function.update s.dpu.wram address (wordAt s.context.rawContext address) } }

def restoreContext : DebugM PUnit := do
  onContext (formatRawContext x.hw)
  x.step .contextSelect .driver
  (List.range contextSizeInWords).forM x.writeContextWord
  x.bootAndWait

def routine : DebugM PUnit :=
  match x.kind with
  | .extract => x.extractContext
  | .restore => x.restoreContext

/-! ## The call -/

/-- The bytes of the instruction are put together by the reads. -/
def saveInstruction (address : Nat) : DebugM PUnit := do
  (List.range 6).forM fun byte => x.step (.readIram address byte) .driver
  modify fun s => { s with iramBackup := Function.update s.iramBackup address (s.dpu.iram address) }

def saveWord (address : Nat) : DebugM PUnit := do
  x.step (.readWram address) .driver
  modify fun s => { s with wramBackup := Function.update s.wramBackup address (s.dpu.wram address) }

def insertPcs : DebugM PUnit :=
  (List.range x.hw.nrOfThreads).forM fun thread =>
    modify fun s => { s with program := setPcInCoreDump thread (s.pcs thread) x.programSize s.program }

def loadInstruction (address : Nat) : DebugM PUnit := do
  x.step (.writeIram address) .driver
  modify fun s =>
    { s with dpu := { s.dpu with iram := Function.update s.dpu.iram address (s.program address) } }

/-- The writes back do not fail. -/
def restoreWord (address : Nat) : DebugM PUnit :=
  modify fun s =>
    { s with dpu := { s.dpu with wram := Function.update s.dpu.wram address (s.wramBackup address) } }

def restoreInstruction (address : Nat) : DebugM PUnit :=
  modify fun s =>
    { s with dpu := { s.dpu with iram := Function.update s.dpu.iram address (s.iramBackup address) } }

/-- `dpu_execute_routine_for_dpu` once `EVENT_START` is sent; freeing the buffers leaves nothing to see. -/
def executeStarted : DebugM PUnit := do
  x.step .fetchProgram .system
  modify fun s => { s with program := x.program }
  x.step .allocIramBackup .system
  -- 1. Save IRAM
  x.step .select .driver
  (List.range x.programSize).forM x.saveInstruction
  -- 2. Save WRAM
  x.step .allocWramBackup .system
  (List.range contextSizeInWords).forM x.saveWord
  -- 3. Insert PCs in core dump program
  x.insertPcs
  -- 4. Load IRAM with core dump program
  (List.range x.programSize).forM x.loadInstruction
  -- 5. Execute routine
  x.step .allocRawContext .system
  x.routine
  -- 6. Restore WRAM
  (List.range contextSizeInWords).forM restoreWord
  -- 7. Restore IRAM
  (List.range x.programSize).forM restoreInstruction
  x.event .eventEnd .stop

def executeRoutine : DebugM PUnit := do
  x.event .eventStart .start
  x.executeStarted

/-! ## The steps of the call -/

def bootSteps : List Step :=
  [.bootSelect, .bootMux, .bootThreadSelect, .boot] ++ (List.range (x.polls + 1)).map .readRunBit

def routineSteps : List Step :=
  match x.kind with
  | .extract => x.bootSteps ++ .contextSelect :: (List.range contextSizeInWords).map .readContext
  | .restore => .contextSelect :: (List.range contextSizeInWords).map .writeContext ++ x.bootSteps

def saveSteps : List Step :=
  [.fetchProgram, .allocIramBackup, .select] ++
    (List.range x.programSize).flatMap (fun address => (List.range 6).map (.readIram address)) ++
    .allocWramBackup :: (List.range contextSizeInWords).map .readWram

/-- The steps after `EVENT_START`, in their order. -/
def steps : List Step :=
  x.saveSteps ++ ((List.range x.programSize).map .writeIram ++ (.allocRawContext :: x.routineSteps ++ [.eventEnd]))

end Setting

/-! ## Single steps -/

section Steps

variable {x : Setting} {P : Machine → Prop} {Q : PUnit → Machine → Prop} {E : Step → Machine → Prop}

theorem step_takes {i : Step} {e : Error} (h : ∀ s, P s → E i s) :
    Takes x.fails [i] P (x.step i e) (fun _ => P) E := by
  refine takes_step ?_ ?_
  · intro hi s hs
    rw [Setting.step, if_neg (by rw [hi]; exact Bool.false_ne_true)]
    exact ⟨⟨⟩, rfl, hs⟩
  · intro hi s hs
    rw [Setting.step, if_pos hi]
    exact ⟨e, rfl, h s hs⟩

theorem step_then {i : Step} {e : Error} {g : Machine → Machine} (h : ∀ s, P s → E i s) (hg : ∀ s, P s → Q ⟨⟩ (g s)) :
    Takes x.fails [i] P (do x.step i e; modify g) Q E :=
  takes_bind (step_takes h) fun _ => takes_modify hg

/-- A loop of one step each. -/
theorem each_takes {n : Nat} {i : Nat → Step} {f : Nat → DebugM PUnit} {I : Nat → Machine → Prop}
    (h : ∀ k < n, Takes x.fails [i k] (I k) (f k) (fun _ => I (k + 1)) E) :
    Takes x.fails ((List.range n).map i) (I 0) ((List.range n).forM f) (fun _ => I n) E :=
  (takes_forM_range h).steps List.map_eq_flatMap

theorem modify_takes {n : Nat} {f : Nat → Machine → Machine} {I : Nat → Machine → Prop}
    (h : ∀ k < n, ∀ s, I k s → I (k + 1) (f k s)) :
    Takes x.fails [] (I 0) ((List.range n).forM fun k => (modify (f k) : DebugM PUnit)) (fun _ => I n) E := by
  have hpass : ∀ k < n, Takes x.fails ((fun _ => []) k) (I k) (modify (f k) : DebugM PUnit) (fun _ => I (k + 1)) E :=
    fun k hk => takes_modify (h k hk)
  exact (takes_forM_range hpass).steps (by simp)

theorem onContext_takes {y : Routine PUnit} (hy : Triple (fun _ => True) y (fun _ _ => True) Inside)
    (h : ∀ s c, P s → Q ⟨⟩ { s with context := c }) : Takes x.fails [] P (onContext y) Q E := by
  intro s hs
  obtain ⟨a, c, hrun, -⟩ := run_inside hy (s := s.context) trivial
  have hcontext : (onContext y).run s = .ok ⟨⟩ { s with context := c } := by
    show (match y.run s.context with
      | .ok _ c => (.ok PUnit.unit { s with context := c } : EStateM.Result Error Machine PUnit)
      | .error _ c => .error .outOfBounds { s with context := c }) = _
    rw [hrun]
  rw [hcontext]
  exact ⟨rfl, h s c hs⟩

end Steps

/-! ## What the host has saved -/

/-- The program with the counters of the threads. -/
def Setting.patched (x : Setting) (s₀ : Machine) : Nat → Instruction :=
  (List.range x.hw.nrOfThreads).foldl (fun program thread => setPcInCoreDump thread (s₀.pcs thread) x.programSize program)
    x.program

/-- `EVENT_START` is sent; the backups hold the first words of the memories of `s₀`. -/
structure Saved (s₀ : Machine) (instructions words : Nat) (s : Machine) : Prop where
  events : s.events = .start :: s₀.events
  iram : ∀ a < instructions, s.iramBackup a = s₀.dpu.iram a
  wram : ∀ a < words, s.wramBackup a = s₀.dpu.wram a

/-- And nothing is changed on the DPU yet. -/
structure Saving (x : Setting) (s₀ : Machine) (instructions words : Nat) (s : Machine) : Prop extends
    Saved s₀ instructions words s where
  dpu : s.dpu = s₀.dpu
  program : s.program = x.program
  pcs : s.pcs = s₀.pcs

/-- What a step that fails leaves: no `EVENT_END`, and from the fourth part on a DPU that is changed. -/
structure Abandoned (x : Setting) (s₀ : Machine) (i : Step) (s : Machine) : Prop where
  events : s.events = .start :: s₀.events
  saving : i.saves = true → s.dpu = s₀.dpu
  loaded : i = .allocRawContext → ∀ a < x.programSize, s.dpu.iram a = x.patched s₀ a

section Phases

-- the loops over the context are not to be unrolled
attribute [local irreducible] contextSizeInWords

variable {x : Setting} {s₀ : Machine} {n m : Nat}

theorem Saving.abandoned {s : Machine} {i : Step} (h : Saving x s₀ n m s) (hi : i ≠ .allocRawContext) :
    Abandoned x s₀ i s :=
  ⟨h.events, fun _ => h.dpu, fun he => absurd he hi⟩

/-- From the fourth part on a step that fails leaves the DPU as it is then. -/
theorem Saved.abandoned {s : Machine} {i : Step} (h : Saved s₀ n m s) (hsave : i.saves = false)
    (hi : i ≠ .allocRawContext) : Abandoned x s₀ i s :=
  ⟨h.events, fun he => absurd (hsave.symm.trans he) nofun, fun he => absurd he hi⟩

theorem saveInstruction_takes {a : Nat} :
    Takes x.fails ((List.range 6).map (.readIram a)) (Saving x s₀ a 0) (x.saveInstruction a)
      (fun _ => Saving x s₀ (a + 1) 0) (Abandoned x s₀) := by
  have hbytes : Takes x.fails ((List.range 6).map (.readIram a)) (Saving x s₀ a 0)
      ((List.range 6).forM fun byte => x.step (.readIram a byte) .driver) (fun _ => Saving x s₀ a 0) (Abandoned x s₀) :=
    each_takes (I := fun _ => Saving x s₀ a 0) fun byte _ => step_takes fun s hs => hs.abandoned nofun
  refine (takes_bind hbytes fun _ => takes_modify fun s hs => ?_).steps (List.append_nil _).symm
  refine ⟨⟨hs.events, ?_, hs.wram⟩, hs.dpu, hs.program, hs.pcs⟩
  intro b hb
  by_cases he : b = a
  · simp only [he, Function.update_self, hs.dpu]
  · simp only [Function.update_of_ne he]
    exact hs.iram b (by omega)

theorem saveWord_takes {a : Nat} :
    Takes x.fails [.readWram a] (Saving x s₀ n a) (x.saveWord a) (fun _ => Saving x s₀ n (a + 1)) (Abandoned x s₀) := by
  refine step_then (fun s hs => hs.abandoned nofun) fun s hs => ?_
  refine ⟨⟨hs.events, hs.iram, ?_⟩, hs.dpu, hs.program, hs.pcs⟩
  intro b hb
  by_cases he : b = a
  · simp only [he, Function.update_self, hs.dpu]
  · simp only [Function.update_of_ne he]
    exact hs.wram b (by omega)

/-- The program with the counters of the first threads. -/
def Patching (x : Setting) (s₀ : Machine) (threads : Nat) (s : Machine) : Prop :=
  Saved s₀ x.programSize contextSizeInWords s ∧ s.pcs = s₀.pcs ∧
    s.program = (List.range threads).foldl
      (fun program thread => setPcInCoreDump thread (s₀.pcs thread) x.programSize program) x.program

theorem insertPcs_takes :
    Takes x.fails [] (Saving x s₀ x.programSize contextSizeInWords) x.insertPcs
      (fun _ => Patching x s₀ x.hw.nrOfThreads) (Abandoned x s₀) := by
  refine Takes.pre (modify_takes (I := Patching x s₀) ?_) fun s hs => ⟨hs.toSaved, hs.pcs, hs.program⟩
  rintro k - s ⟨hsaved, hpcs, hprogram⟩
  refine ⟨⟨hsaved.events, hsaved.iram, hsaved.wram⟩, hpcs, ?_⟩
  simp only [List.range_succ, List.foldl_append, List.foldl_cons, List.foldl_nil, hprogram, hpcs]

/-- The first instructions are loaded. -/
def Loading (x : Setting) (s₀ : Machine) (instructions : Nat) (s : Machine) : Prop :=
  Saved s₀ x.programSize contextSizeInWords s ∧ s.program = x.patched s₀ ∧
    ∀ a < instructions, s.dpu.iram a = x.patched s₀ a

theorem loadInstruction_takes {a : Nat} :
    Takes x.fails [.writeIram a] (Loading x s₀ a) (x.loadInstruction a) (fun _ => Loading x s₀ (a + 1))
      (Abandoned x s₀) := by
  refine step_then (fun s hs => hs.1.abandoned rfl nofun) ?_
  rintro s ⟨hsaved, hprogram, hloaded⟩
  refine ⟨⟨hsaved.events, hsaved.iram, hsaved.wram⟩, hprogram, ?_⟩
  intro b hb
  by_cases he : b = a
  · simp only [he, Function.update_self, hprogram]
  · simp only [Function.update_of_ne he]
    exact hloaded b (by omega)

/-- The backups survive the routine. -/
abbrev Kept (x : Setting) (s₀ : Machine) : Machine → Prop := Saved s₀ x.programSize contextSizeInWords

/-- A step of the routine. -/
theorem kept_step {i : Step} {e : Error} (hsave : i.saves = false) (hi : i ≠ .allocRawContext) :
    Takes x.fails [i] (Kept x s₀) (x.step i e) (fun _ => Kept x s₀) (Abandoned x s₀) :=
  step_takes fun _ hs => Saved.abandoned hs hsave hi

theorem bootAndWait_takes :
    Takes x.fails x.bootSteps (Kept x s₀) x.bootAndWait (fun _ => Kept x s₀) (Abandoned x s₀) := by
  have hboot : Takes x.fails [.bootMux, .bootThreadSelect, .boot] (Kept x s₀) x.threadBoot (fun _ => Kept x s₀)
      (Abandoned x s₀) :=
    takes_bind (l := [Step.bootMux]) (kept_step rfl nofun) fun _ =>
      takes_bind (l := [Step.bootThreadSelect]) (kept_step rfl nofun) fun _ => kept_step rfl nofun
  refine takes_bind (l := [Step.bootSelect]) (kept_step rfl nofun) fun _ => takes_bind hboot fun _ => ?_
  · refine each_takes (I := fun _ => Kept x s₀) fun k _ => ?_
    exact takes_bind (l := []) (takes_modify (Q := fun _ => Kept x s₀) fun s hs => ⟨hs.events, hs.iram, hs.wram⟩) fun _ =>
      kept_step rfl nofun

theorem onContext_kept {y : Routine PUnit} (hy : Triple (fun _ => True) y (fun _ _ => True) Inside) :
    Takes x.fails [] (Kept x s₀) (onContext y) (fun _ => Kept x s₀) (Abandoned x s₀) :=
  onContext_takes hy fun _ _ hs => ⟨hs.events, hs.iram, hs.wram⟩

theorem extractContext_takes :
    Takes x.fails (x.bootSteps ++ .contextSelect :: (List.range contextSizeInWords).map .readContext) (Kept x s₀)
      x.extractContext (fun _ => Kept x s₀) (Abandoned x s₀) := by
  refine takes_bind bootAndWait_takes fun _ => takes_bind (l := [.contextSelect]) (kept_step rfl nofun) fun _ => ?_
  have hread : Takes x.fails ((List.range contextSizeInWords).map .readContext) (Kept x s₀)
      ((List.range contextSizeInWords).forM x.readContextWord) (fun _ => Kept x s₀) (Abandoned x s₀) := by
    refine each_takes (f := x.readContextWord) (I := fun _ => Kept x s₀) fun a ha => ?_
    refine takes_bind (l := [.readContext a]) (kept_step rfl nofun) fun _ => takes_get fun s hs => ?_
    refine (onContext_kept (storeRaw_spec ha fun _ _ => trivial)).pre ?_
    rintro s' rfl
    exact hs
  exact (takes_bind hread fun _ => onContext_kept formatContext_inside).steps (List.append_nil _).symm

/-- The image is formatted in bounds. -/
theorem formatRawContext_inside (hw : HwDpu) : Triple (fun _ => True) (formatRawContext hw) (fun _ _ => True) Inside :=
  triple_each fun s _ => (formatRawContext_spec s).post fun _ _ _ => trivial

theorem restoreContext_takes :
    Takes x.fails (.contextSelect :: (List.range contextSizeInWords).map .writeContext ++ x.bootSteps) (Kept x s₀)
      x.restoreContext (fun _ => Kept x s₀) (Abandoned x s₀) := by
  have hwrite : Takes x.fails ((List.range contextSizeInWords).map .writeContext) (Kept x s₀)
      ((List.range contextSizeInWords).forM x.writeContextWord) (fun _ => Kept x s₀) (Abandoned x s₀) :=
    each_takes (f := x.writeContextWord) (I := fun _ => Kept x s₀) fun a _ =>
      step_then (fun _ hs => Saved.abandoned hs rfl nofun) fun _ hs => ⟨hs.events, hs.iram, hs.wram⟩
  refine takes_bind (l := []) (onContext_kept (formatRawContext_inside x.hw)) fun _ => ?_
  refine takes_bind (l := [.contextSelect]) (kept_step rfl nofun) fun _ => ?_
  exact takes_bind hwrite fun _ => bootAndWait_takes

/-- Both routines keep the backups. -/
theorem routine_takes :
    Takes x.fails x.routineSteps (Kept x s₀) x.routine (fun _ => Kept x s₀) (Abandoned x s₀) := by
  unfold Setting.routineSteps Setting.routine
  cases x.kind
  · exact extractContext_takes
  · exact restoreContext_takes

/-- The memories as far as they are written back. -/
def Restoring (x : Setting) (s₀ : Machine) (words instructions : Nat) (s : Machine) : Prop :=
  Kept x s₀ s ∧ (∀ a < words, s.dpu.wram a = s₀.dpu.wram a) ∧ ∀ a < instructions, s.dpu.iram a = s₀.dpu.iram a

theorem restoreWords_takes :
    Takes x.fails [] (Kept x s₀) ((List.range contextSizeInWords).forM Setting.restoreWord)
      (fun _ => Restoring x s₀ contextSizeInWords 0) (Abandoned x s₀) := by
  refine Takes.pre (modify_takes (I := fun k => Restoring x s₀ k 0) ?_) fun s hs =>
    ⟨hs, fun a ha => absurd ha (Nat.not_lt_zero a), fun a ha => absurd ha (Nat.not_lt_zero a)⟩
  rintro k hk s ⟨hkept, hwram, hiram⟩
  refine ⟨⟨hkept.events, hkept.iram, hkept.wram⟩, ?_, hiram⟩
  intro b hb
  by_cases he : b = k
  · simp only [he, Function.update_self]
    exact hkept.wram k hk
  · simp only [Function.update_of_ne he]
    exact hwram b (by omega)

theorem restoreInstructions_takes :
    Takes x.fails [] (Restoring x s₀ contextSizeInWords 0) ((List.range x.programSize).forM Setting.restoreInstruction)
      (fun _ => Restoring x s₀ contextSizeInWords x.programSize) (Abandoned x s₀) := by
  refine modify_takes (I := Restoring x s₀ contextSizeInWords) ?_
  rintro k hk s ⟨hkept, hwram, hiram⟩
  refine ⟨⟨hkept.events, hkept.iram, hkept.wram⟩, hwram, ?_⟩
  intro b hb
  by_cases he : b = k
  · simp only [he, Function.update_self]
    exact hkept.iram k hk
  · simp only [Function.update_of_ne he]
    exact hiram b (by omega)

theorem save_takes :
    Takes x.fails x.saveSteps (fun s => s = { s₀ with events := .start :: s₀.events })
      (do
        x.step .fetchProgram .system
        modify fun s => { s with program := x.program }
        x.step .allocIramBackup .system
        x.step .select .driver
        (List.range x.programSize).forM x.saveInstruction
        x.step .allocWramBackup .system
        (List.range contextSizeInWords).forM x.saveWord)
      (fun _ => Saving x s₀ x.programSize contextSizeInWords) (Abandoned x s₀) := by
  refine takes_bind (l := [Step.fetchProgram]) (step_takes ?_) fun _ => ?_
  · rintro s rfl
    exact ⟨rfl, fun _ => rfl, nofun⟩
  refine takes_bind (l := []) (takes_modify (Q := fun _ => Saving x s₀ 0 0) ?_) fun _ => ?_
  · rintro s rfl
    exact ⟨⟨rfl, fun a ha => absurd ha (Nat.not_lt_zero a), fun a ha => absurd ha (Nat.not_lt_zero a)⟩, rfl, rfl, rfl⟩
  refine takes_bind (l := [Step.allocIramBackup]) (step_takes fun s hs => hs.abandoned nofun) fun _ => ?_
  refine takes_bind (l := [Step.select]) (step_takes fun s hs => hs.abandoned nofun) fun _ => ?_
  refine takes_bind (takes_forM_range (I := fun k => Saving x s₀ k 0) fun k _ => saveInstruction_takes) fun _ => ?_
  refine takes_bind (l := [Step.allocWramBackup]) (step_takes fun s hs => hs.abandoned nofun) fun _ => ?_
  exact each_takes (I := Saving x s₀ x.programSize) fun k _ => saveWord_takes

/-- The memories and the events of a call that succeeds. -/
structure Restored (x : Setting) (s₀ s : Machine) : Prop where
  events : s.events = .stop :: .start :: s₀.events
  iram : ∀ a < x.programSize, s.dpu.iram a = s₀.dpu.iram a
  wram : ∀ a < contextSizeInWords, s.dpu.wram a = s₀.dpu.wram a

theorem executeStarted_takes :
    Takes x.fails x.steps (fun s => s = { s₀ with events := .start :: s₀.events }) x.executeStarted
      (fun _ => Restored x s₀) (Abandoned x s₀) := by
  have hend : Takes x.fails [.eventEnd] (Restoring x s₀ contextSizeInWords x.programSize) (x.event .eventEnd .stop)
      (fun _ => Restored x s₀) (Abandoned x s₀) :=
    step_then (fun s hs => Saved.abandoned hs.1 rfl nofun) fun s hs => ⟨by rw [hs.1.events], hs.2.2, hs.2.1⟩
  have hload : Takes x.fails ((List.range x.programSize).map .writeIram) (Patching x s₀ x.hw.nrOfThreads)
      ((List.range x.programSize).forM x.loadInstruction) (fun _ => Loading x s₀ x.programSize) (Abandoned x s₀) :=
    (each_takes (I := Loading x s₀) fun a _ => loadInstruction_takes).pre fun s hs =>
      ⟨hs.1, hs.2.2, fun a ha => absurd ha (Nat.not_lt_zero a)⟩
  have hraw : Takes x.fails [.allocRawContext] (Loading x s₀ x.programSize) (x.step .allocRawContext .system)
      (fun _ => Loading x s₀ x.programSize) (Abandoned x s₀) :=
    step_takes fun s hs => ⟨hs.1.events, nofun, fun _ => hs.2.2⟩
  have hlast := takes_bind (takes_bind restoreWords_takes fun _ => restoreInstructions_takes) fun _ => hend
  have hrun := takes_bind (hraw.post fun _ s hs => hs.1) fun _ => takes_bind routine_takes fun _ => hlast
  have hwhole := takes_bind save_takes fun _ => takes_bind insertPcs_takes fun _ => takes_bind hload fun _ => hrun
  simp only [bind_assoc] at hwhole
  exact hwhole.steps (by simp [Setting.steps])

end Phases

/-! ## What the caller finds -/

/-- The words the routine used are as before the call, and each `EVENT_START` has its `EVENT_END`. -/
structure LeavesAsFound (x : Setting) (s₀ s : Machine) : Prop where
  iram : ∀ a < x.programSize, s.dpu.iram a = s₀.dpu.iram a
  wram : ∀ a < contextSizeInWords, s.dpu.wram a = s₀.dpu.wram a
  events : s.events.count .start + s₀.events.count .stop = s.events.count .stop + s₀.events.count .start

variable (x : Setting) (s₀ : Machine)

/-- `EVENT_START` is refused, and nothing else happens. -/
theorem run_refused (h : x.fails .eventStart = true) : x.executeRoutine.run s₀ = .error .driver s₀ := by
  have hevent : (x.step .eventStart .driver).run s₀ = .error .driver s₀ := by
    rw [Setting.step, if_pos h]
    rfl
  unfold Setting.executeRoutine Setting.event
  simp only [EStateM.run_bind, hevent]

/-- Otherwise the call ends at the first step that fails. -/
theorem run_started (h : x.fails .eventStart = false) :
    match x.steps.find? x.fails with
    | none => Restored x s₀ (finalState x.executeRoutine s₀)
    | some i => Abandoned x s₀ i (finalState x.executeRoutine s₀) := by
  have hevent : (x.event .eventStart .start).run s₀ = .ok ⟨⟩ { s₀ with events := .start :: s₀.events } := by
    have hstep : (x.step .eventStart .driver).run s₀ = .ok ⟨⟩ s₀ := by
      rw [Setting.step, if_neg (by rw [h]; exact Bool.false_ne_true)]
      rfl
    unfold Setting.event
    rw [EStateM.run_bind, hstep]
    rfl
  have htakes : Takes x.fails x.steps (fun s => s = { s₀ with events := .start :: s₀.events }) x.executeStarted
      (fun _ => Restored x s₀) (Abandoned x s₀) := executeStarted_takes
  have hrest := htakes.run rfl
  unfold finalState Setting.executeRoutine
  rw [EStateM.run_bind, hevent]
  cases hfind : x.steps.find? x.fails with
  | none =>
    rw [hfind] at hrest
    obtain ⟨a, s', hrun, hrestored⟩ := hrest
    simp only [hrun]
    exact hrestored
  | some i =>
    rw [hfind] at hrest
    obtain ⟨e, s', hrun, habandoned⟩ := hrest
    simp only [hrun]
    exact habandoned

/-- No command of the call fails, or already the first. -/
def HoldsWhen : Prop := x.fails .eventStart = true ∨ ∀ i ∈ x.steps, x.fails i = false

theorem leavesAsFound_iff : LeavesAsFound x s₀ (finalState x.executeRoutine s₀) ↔ HoldsWhen x := by
  cases hstart : x.fails .eventStart with
  | true =>
    have hsame : finalState x.executeRoutine s₀ = s₀ := by
      unfold finalState
      rw [run_refused x s₀ hstart]
    rw [hsame]
    exact ⟨fun _ => .inl hstart, fun _ => ⟨fun _ _ => rfl, fun _ _ => rfl, Nat.add_comm _ _⟩⟩
  | false =>
    have hrun := run_started x s₀ hstart
    cases hfind : x.steps.find? x.fails with
    | none =>
      rw [hfind] at hrun
      have hall : ∀ i ∈ x.steps, x.fails i = false := by simpa using hfind
      refine ⟨fun _ => .inr hall, fun _ => ⟨hrun.iram, hrun.wram, ?_⟩⟩
      rw [hrun.events]
      simp
      omega
    | some i =>
      rw [hfind] at hrun
      refine ⟨fun h => ?_, fun h => ?_⟩
      · -- the step that failed has left a start without its end
        have hevents := h.events
        rw [hrun.events] at hevents
        simp at hevents
        omega
      · rcases h with h | h
        · rw [hstart] at h
          exact absurd h Bool.false_ne_true
        · have hi := List.find?_some hfind
          rw [h i (List.mem_of_find?_eq_some hfind)] at hi
          exact absurd hi Bool.false_ne_true

/-- The memories are the caller's as long as the backups are not complete. -/
theorem dpu_kept {i : Step} (h : x.fails .eventStart = false) (hi : x.steps.find? x.fails = some i) (hsave : i.saves = true) :
    (finalState x.executeRoutine s₀).dpu = s₀.dpu := by
  have hrun := run_started x s₀ h
  rw [hi] at hrun
  exact hrun.saving hsave

/-! ## An allocation that fails -/

def fullDpu : HwDpu where
  nrOfThreads := 24
  nrOfWorkRegistersPerThread := 24
  nrOfAtomicBits := 256
  threads_le := by decide
  registers_le := by decide
  registers_even := by decide
  atomicBits_le := by decide

/-- The raw context of an extraction cannot be allocated. -/
def noRawContext : Setting where
  hw := fullDpu
  kind := .extract
  program := fun _ => 1
  programSize := 300
  polls := 0
  execute := fun _ memories => memories
  fails := fun i => i == .allocRawContext

def emptyMachine : Machine :=
  ⟨⟨fun _ => 0, fun _ => 0⟩, [], fun _ => 0, fun _ => 0, fun _ => 0, fun _ => 0,
    ⟨fun _ => 0, fun _ => false, fun _ => 0, fun _ => false, fun _ => false⟩⟩

/-- A call of which one step alone fails ends there. -/
theorem abandoned_at {i : Step} (hi : i ∈ x.steps) (hstart : i ≠ .eventStart) (h : ∀ j, x.fails j = true ↔ j = i) :
    Abandoned x s₀ i (finalState x.executeRoutine s₀) := by
  have hno : x.fails .eventStart = false := Bool.eq_false_iff.mpr fun he => hstart ((h _).mp he).symm
  have hrun := run_started x s₀ hno
  cases hfind : x.steps.find? x.fails with
  | none => exact absurd ((h i).mpr rfl) (List.find?_eq_none.mp hfind i hi)
  | some j =>
    rw [hfind] at hrun
    rw [← (h j).mp (List.find?_some hfind)]
    exact hrun

/-- The program of the routine is left in the IRAM, and `EVENT_START` without its end. -/
theorem noRawContext_left :
    (finalState noRawContext.executeRoutine emptyMachine).dpu.iram 0 = 1 ∧
      ¬LeavesAsFound noRawContext emptyMachine (finalState noRawContext.executeRoutine emptyMachine) := by
  have hleft := abandoned_at noRawContext emptyMachine (i := .allocRawContext) (by simp [Setting.steps]) nofun
    (fun j => by simp [noRawContext])
  have hiram : (finalState noRawContext.executeRoutine emptyMachine).dpu.iram 0 = 1 := by
    rw [hleft.loaded rfl 0 (by decide)]
    decide +kernel
  refine ⟨hiram, fun h => ?_⟩
  have hfound := h.iram 0 (by decide)
  rw [hiram] at hfound
  exact absurd hfound (by decide)

end DpuBackend.Ufi.DebugRoutine
