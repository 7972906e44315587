import DpuBackend.Lib.Loops
import DpuBackend.Lib.Mem
import Mathlib.Algebra.Order.Ring.Nat

/-
  Access to the MRAM of one DPU by a program that runs on it.

  C ↔ Lean (src/api/src/dpu_memory.c):
    dpu_transfer_type_t                           ↔ DpuTransferType
    access_mram_using_dpu_program_individual      ↔ accessMramUsingDpuProgramIndividual
    program_context, the words 5, 6, 7 of the WRAM ↔ setWord
    the preconditions of its comment              ↔ Transfer.Aligned

  The transfer is cut in chunks that fit in the WRAM behind the program's context: the
  first run of the program starts at the offset of its context, each later run resumes it
  where it stopped, and word 7 tells it which run is the last.

  The program is a file of the SDK (`accessMramFromDpu.bin`) and not of the repository. It
  is a parameter here, and `AccessProgram.Copies` is what the function relies on: a run
  moves as many bytes as word 6 says between the WRAM from word 8 on and the MRAM, when
  place and number are multiples of 8, leaves words 6 and 7 alone, and, unless it was told
  that it is the last, can be resumed behind what it has moved. What a call does when one of
  its steps fails is left to the caller of this model: only calls that succeed are here.
-/

namespace DpuBackend.Api

open DpuBackend.Lib DpuBackend.Lib.Mem

inductive DpuTransferType where
  | toMram
  | fromMram
deriving DecidableEq, Repr

/-- What the access sees of a DPU; `regs` is what the program keeps from run to run. -/
structure DpuState (ρ : Type) where
  wram : Mem UInt8
  mram : Mem UInt8
  regs : ρ

/-- A pointer of the host: into the memory of the caller, or into the buffer `mram_buffer`. -/
inductive HostPtr where
  | user (a : Nat)
  | buffer (k : Nat)
deriving DecidableEq, Repr

namespace HostPtr

def add (n : Nat) : HostPtr → HostPtr
  | user a => user (a + n)
  | buffer k => buffer (k + n)

@[simp] theorem add_zero (p : HostPtr) : p.add 0 = p := by cases p <;> rfl

/-- The address modulo 4; what `malloc` returns is aligned. -/
def mod4 : HostPtr → Nat
  | user a => a % 4
  | buffer k => k % 4

end HostPtr

structure HostMemory where
  user : Mem UInt8
  buffer : Mem UInt8

namespace HostMemory

/-- The bytes from a pointer on. -/
def bytes (h : HostMemory) : HostPtr → Nat → UInt8
  | .user a, i => h.user (a + i)
  | .buffer k, i => h.buffer (k + i)

def put (h : HostMemory) (n : Nat) (src : Nat → UInt8) : HostPtr → HostMemory
  | .user a => { h with user := h.user.put a n src }
  | .buffer k => { h with buffer := h.buffer.put k n src }

theorem bytes_add (h : HostMemory) (p : HostPtr) (n i : Nat) : h.bytes (p.add n) i = h.bytes p (n + i) := by
  cases p <;> simp only [HostPtr.add, bytes, Nat.add_assoc]

theorem put_put (h : HostMemory) (p : HostPtr) {n k : Nat} (src : Nat → UInt8) :
    (h.put n src p).put k (fun i => src (n + i)) (p.add n) = h.put (n + k) src p := by
  cases p <;> simp only [HostPtr.add, put, Mem.put_put]

@[simp] theorem put_zero (h : HostMemory) (p : HostPtr) (src : Nat → UInt8) : h.put 0 src p = h := by
  cases p <;> simp only [put, Mem.put_zero]

theorem put_congr (h : HostMemory) (p : HostPtr) {n : Nat} {src src' : Nat → UInt8} (heq : ∀ i < n, src i = src' i) :
    h.put n src p = h.put n src' p := by
  cases p <;> simp only [put, Mem.put_congr _ _ heq]

end HostMemory

/-- What the access reads of its transfer matrix: entry 0, and the range. -/
structure Transfer where
  ptr : HostPtr
  offset : Nat
  size : Nat
deriving DecidableEq, Repr

/-- The preconditions on the alignment. -/
structure Transfer.Aligned (t : Transfer) : Prop where
  ptr : t.ptr.mod4 = 0
  size : 8 ∣ t.size
  offset : 8 ∣ t.offset

/-- The memories of a DPU: the WRAM in words of 32 bits, the MRAM of words of 64 bits, in bytes. -/
structure DpuSizes where
  wramSize : Nat
  mramSize : Nat
  wram_gt : 8 < wramSize
  wram_even : 2 ∣ wramSize
  mram_words : 8 ∣ mramSize
  mram_lt : mramSize < 2 ^ 32

/-! ## The program on the DPU -/

def wordByte (v k : Nat) : UInt8 := UInt8.ofNat (v / 256 ^ k)

def setWord (wram : Mem UInt8) (w v : Nat) : Mem UInt8 := wram.put (4 * w) 4 (wordByte v)

def HoldsWord (wram : Mem UInt8) (w v : Nat) : Prop := ∀ k < 4, wram (4 * w + k) = wordByte v k

/-- The runs of the program: `resume` is false for the first. -/
structure AccessProgram (ρ : Type) where
  boot : DpuTransferType → (resume : Bool) → DpuState ρ → DpuState ρ

section Program

variable {ρ : Type} (next : DpuState ρ → Nat)

/-- Where a run starts: at the offset of its context, or where the one before it stopped. -/
def StartsAt (resume : Bool) (s : DpuState ρ) (pos : Nat) : Prop :=
  if resume then next s = pos else HoldsWord s.wram 5 pos

/-- A run has moved `n` bytes at `pos`. -/
structure Ran (type : DpuTransferType) (pos n : Nat) (s s' : DpuState ρ) : Prop where
  mram : s'.mram = match type with
    | .toMram => s.mram.put pos n fun i => s.wram (32 + i)
    | .fromMram => s.mram
  wram : type = .fromMram → ∀ i < n, s'.wram (32 + i) = s.mram (pos + i)
  context : ∀ a, 24 ≤ a → a < 32 → s'.wram a = s.wram a

structure AccessProgram.Copies (prog : AccessProgram ρ) (hw : DpuSizes) : Prop where
  run : ∀ {type resume s pos n last}, StartsAt next resume s pos → HoldsWord s.wram 6 n → HoldsWord s.wram 7 last →
    8 ∣ pos → 8 ∣ n → 0 < n → pos + n ≤ hw.mramSize → 32 + n ≤ 4 * hw.wramSize →
      Ran type pos n s (prog.boot type resume s) ∧ (last = 0 → next (prog.boot type resume s) = pos + n)
  /-- Where the program goes on is kept in its registers or below word 6. -/
  next_wram : ∀ {s : DpuState ρ} {wram : Mem UInt8}, (∀ a < 24, wram a = s.wram a) → next { s with wram := wram } = next s

end Program

/-! ## The access -/

/-- The host's memory and the DPU's. -/
structure AccessState (ρ : Type) where
  host : HostMemory
  dpu : DpuState ρ

namespace AccessState

variable {ρ : Type}

def setContext (w v : Nat) (s : AccessState ρ) : AccessState ρ :=
  { s with dpu := { s.dpu with wram := setWord s.dpu.wram w v } }

def loadWram (type : DpuTransferType) (p : HostPtr) (n : Nat) (s : AccessState ρ) : AccessState ρ :=
  match type with
  | .toMram => { s with dpu := { s.dpu with wram := s.dpu.wram.put 32 n (s.host.bytes p) } }
  | .fromMram => s

def boot (prog : AccessProgram ρ) (type : DpuTransferType) (resume : Bool) (s : AccessState ρ) : AccessState ρ :=
  { s with dpu := prog.boot type resume s.dpu }

def fetchWram (type : DpuTransferType) (p : HostPtr) (n : Nat) (s : AccessState ρ) : AccessState ρ :=
  match type with
  | .toMram => s
  | .fromMram => { s with host := s.host.put n (fun i => s.dpu.wram (32 + i)) p }

end AccessState

/-- The body of the loop over the iterations, from the second on. -/
def accessIteration {ρ : Type} (prog : AccessProgram ρ) (type : DpuTransferType) (t : Transfer) (bytes : Nat)
    (s : AccessState ρ) (iteration : Nat) : AccessState ρ :=
  let p := t.ptr.add (iteration * bytes)
  let s := s.loadWram type p bytes
  let s := if iteration = t.size / bytes - 1 ∧ t.size % bytes = 0 then s.setContext 7 1 else s
  (s.boot prog type true).fetchWram type p bytes

/-- What is left after the complete iterations. -/
def accessRemaining {ρ : Type} (prog : AccessProgram ρ) (type : DpuTransferType) (t : Transfer) (bytes : Nat)
    (s : AccessState ρ) : AccessState ρ :=
  let remaining := t.size % bytes
  if remaining > 0 ∧ t.size / bytes > 0 then
    let p := t.ptr.add (t.size / bytes * bytes)
    let transferSize := remaining / 4
    let s := (s.setContext 6 remaining).setContext 7 1
    ((s.loadWram type p (4 * transferSize)).boot prog type true).fetchWram type p (4 * transferSize)
  else s

/-- The words of the WRAM that are saved. -/
def wramSaveSize (hw : DpuSizes) (t : Transfer) : Nat :=
  if t.size / 4 + 8 ≥ hw.wramSize then hw.wramSize else t.size / 4 + 8

/-- `access_mram_using_dpu_program_individual`, where all its steps succeed. -/
def accessMramUsingDpuProgramIndividual {ρ : Type} (prog : AccessProgram ρ) (hw : DpuSizes) (type : DpuTransferType)
    (t : Transfer) (s : AccessState ρ) : AccessState ρ :=
  if t.size = 0 then s
  else
    let save := s.dpu.wram
    let bytes := 4 * (wramSaveSize hw t - 8)
    let last := if t.size / bytes = 0 ∨ t.size / bytes = 1 ∧ t.size % bytes = 0 then 1 else 0
    let s := ((s.setContext 5 t.offset).setContext 6 bytes).setContext 7 last
    let s := ((s.loadWram type t.ptr bytes).boot prog type false).fetchWram type t.ptr bytes
    let s := (List.range' 1 (t.size / bytes - 1)).foldl (accessIteration prog type t bytes) s
    let s := accessRemaining prog type t bytes s
    { s with dpu := { s.dpu with wram := s.dpu.wram.put 0 (4 * wramSaveSize hw t) save } }

/-! ## Words of the WRAM -/

section Words

variable {wram : Mem UInt8} {w v : Nat}

theorem setWord_holds (wram : Mem UInt8) (w v : Nat) : HoldsWord (setWord wram w v) w v :=
  fun _ hk => put_inside wram (4 * w) (wordByte v) hk

theorem setWord_outside {x : Nat} (h : x < 4 * w ∨ 4 * w + 4 ≤ x) : setWord wram w v x = wram x :=
  put_outside wram (4 * w) (wordByte v) h

theorem HoldsWord.congr {wram' : Mem UInt8} (h : HoldsWord wram w v) (heq : ∀ k < 4, wram' (4 * w + k) = wram (4 * w + k)) :
    HoldsWord wram' w v := fun k hk => (heq k hk).trans (h k hk)

theorem HoldsWord.setWord_other {w' v' : Nat} (h : HoldsWord wram w v) (hne : w' ≠ w) :
    HoldsWord (setWord wram w' v') w v :=
  h.congr fun _ _ => setWord_outside (by omega)

/-- Data behind the context leaves the context alone. -/
theorem HoldsWord.put_data {n : Nat} {src : Nat → UInt8} (h : HoldsWord wram w v) (hw : w < 8) :
    HoldsWord (wram.put 32 n src) w v :=
  h.congr fun _ _ => put_outside wram 32 src (.inl (by omega))

end Words

/-! ## The chunks -/

/-- The number of bytes of a chunk. -/
structure ChunkSize (hw : DpuSizes) (t : Transfer) (bytes : Nat) : Prop where
  pos : 0 < bytes
  le : bytes ≤ t.size
  dvd : 8 ∣ bytes
  fits : 32 + bytes ≤ 4 * hw.wramSize

theorem chunkSize (hw : DpuSizes) {t : Transfer} (h8 : 8 ∣ t.size) (h0 : t.size ≠ 0) :
    ChunkSize hw t (4 * (wramSaveSize hw t - 8)) := by
  have hgt := hw.wram_gt
  obtain ⟨e, he⟩ := hw.wram_even
  obtain ⟨q, hq⟩ := h8
  unfold wramSaveSize
  split
  · exact ⟨by omega, by omega, ⟨e - 4, by omega⟩, by omega⟩
  · exact ⟨by omega, by omega, ⟨q, by omega⟩, by omega⟩

section Access

variable {ρ : Type} {next : DpuState ρ → Nat} {prog : AccessProgram ρ} {hw : DpuSizes} {type : DpuTransferType}
  {t : Transfer}

/-- The MRAM with the first `n` bytes of the transfer moved. -/
def movedMram (type : DpuTransferType) (t : Transfer) (n : Nat) (s : AccessState ρ) : Mem UInt8 :=
  match type with
  | .toMram => s.dpu.mram.put t.offset n (s.host.bytes t.ptr)
  | .fromMram => s.dpu.mram

/-- The host memory with the first `n` bytes of the transfer moved. -/
def movedHost (type : DpuTransferType) (t : Transfer) (n : Nat) (s : AccessState ρ) : HostMemory :=
  match type with
  | .toMram => s.host
  | .fromMram => s.host.put n (fun i => s.dpu.mram (t.offset + i)) t.ptr

/-- From `s₀` to `s` the first `n` bytes of the transfer have been moved. -/
structure Moved (type : DpuTransferType) (t : Transfer) (n : Nat) (s₀ s : AccessState ρ) : Prop where
  mram : s.dpu.mram = movedMram type t n s₀
  host : s.host = movedHost type t n s₀

theorem Moved.start (s : AccessState ρ) : Moved type t 0 s s := by
  cases type with
  | toMram => exact ⟨(put_zero _ _ _).symm, rfl⟩
  | fromMram => exact ⟨rfl, (HostMemory.put_zero _ _ _).symm⟩

theorem Moved.congr {n : Nat} {s₀ s s' : AccessState ρ} (h : Moved type t n s₀ s) (hhost : s'.host = s.host)
    (hmram : s'.dpu.mram = s.dpu.mram) : Moved type t n s₀ s' :=
  ⟨hmram.trans h.mram, hhost.trans h.host⟩

/-- One run with its data loaded moves the next `k` bytes. -/
theorem Moved.chunk (hprog : prog.Copies next hw) {n : Nat} {s₀ s : AccessState ρ} (hm : Moved type t n s₀ s)
    (resume : Bool) (k last : Nat) (s' : AccessState ρ) (hhost : s'.host = s.host) (hmram : s'.dpu.mram = s.dpu.mram)
    (hload : type = .toMram → ∀ i < k, s'.dpu.wram (32 + i) = s.host.bytes (t.ptr.add n) i)
    (hstart : StartsAt next resume s'.dpu (t.offset + n)) (h6 : HoldsWord s'.dpu.wram 6 k)
    (h7 : HoldsWord s'.dpu.wram 7 last) (hpos : 8 ∣ t.offset + n) (hk : 8 ∣ k) (hk0 : 0 < k)
    (hend : t.offset + n + k ≤ hw.mramSize) (hfits : 32 + k ≤ 4 * hw.wramSize) :
    Moved type t (n + k) s₀ ((s'.boot prog type resume).fetchWram type (t.ptr.add n) k) ∧
      (∀ a, 24 ≤ a → a < 32 →
        ((s'.boot prog type resume).fetchWram type (t.ptr.add n) k).dpu.wram a = s'.dpu.wram a) ∧
      (last = 0 → next ((s'.boot prog type resume).fetchWram type (t.ptr.add n) k).dpu = t.offset + n + k) := by
  obtain ⟨hran, hnext⟩ : Ran type (t.offset + n) k s'.dpu (prog.boot type resume s'.dpu) ∧ _ :=
    hprog.run hstart h6 h7 hpos hk hk0 hend hfits
  cases type with
  | toMram =>
    refine ⟨⟨?_, hhost.trans hm.host⟩, hran.context, hnext⟩
    have hran' : (prog.boot .toMram resume s'.dpu).mram = s'.dpu.mram.put (t.offset + n) k fun i => s'.dpu.wram (32 + i) :=
      hran.mram
    have hm' : s.dpu.mram = s₀.dpu.mram.put t.offset n (s₀.host.bytes t.ptr) := hm.mram
    have hh : s.host = s₀.host := hm.host
    calc (prog.boot .toMram resume s'.dpu).mram
        = s.dpu.mram.put (t.offset + n) k fun i => s'.dpu.wram (32 + i) := by rw [hran', hmram]
      _ = s.dpu.mram.put (t.offset + n) k fun i => s₀.host.bytes t.ptr (n + i) :=
        Mem.put_congr _ _ fun i hi => by rw [hload rfl i hi, HostMemory.bytes_add, hh]
      _ = s₀.dpu.mram.put t.offset (n + k) (s₀.host.bytes t.ptr) := by rw [hm', Mem.put_put]
  | fromMram =>
    refine ⟨⟨hran.mram.trans (hmram.trans hm.mram), ?_⟩, hran.context, hnext⟩
    have hm' : s.host = s₀.host.put n (fun i => s₀.dpu.mram (t.offset + i)) t.ptr := hm.host
    have hd : s'.dpu.mram = s₀.dpu.mram := hmram.trans hm.mram
    calc s'.host.put k (fun i => (prog.boot .fromMram resume s'.dpu).wram (32 + i)) (t.ptr.add n)
        = s.host.put k (fun i => s₀.dpu.mram (t.offset + (n + i))) (t.ptr.add n) := by
          rw [hhost]
          exact HostMemory.put_congr _ _ fun i hi => by rw [hran.wram rfl i hi, hd, Nat.add_assoc]
      _ = s₀.host.put (n + k) (fun i => s₀.dpu.mram (t.offset + i)) t.ptr := by
          rw [hm', HostMemory.put_put s₀.host t.ptr fun i => s₀.dpu.mram (t.offset + i)]

/-- After `i` of the complete iterations: unless it was the last run, it can be resumed. -/
structure Progress (next : DpuState ρ → Nat) (type : DpuTransferType) (t : Transfer) (bytes i : Nat)
    (s₀ s : AccessState ρ) : Prop where
  moved : Moved type t (i * bytes) s₀ s
  size : HoldsWord s.dpu.wram 6 bytes
  more : ¬(i = t.size / bytes ∧ t.size % bytes = 0) → HoldsWord s.dpu.wram 7 0 ∧ next s.dpu = t.offset + i * bytes

section Loop

variable {bytes : Nat} {s₀ s : AccessState ρ}

theorem loadWram_host (p : HostPtr) (n : Nat) (s : AccessState ρ) : (s.loadWram type p n).host = s.host := by
  cases type <;> rfl

theorem loadWram_mram (p : HostPtr) (n : Nat) (s : AccessState ρ) : (s.loadWram type p n).dpu.mram = s.dpu.mram := by
  cases type <;> rfl

theorem loadWram_holds {p : HostPtr} {n w v : Nat} (h : HoldsWord s.dpu.wram w v) (hw8 : w < 8) :
    HoldsWord (s.loadWram type p n).dpu.wram w v := by
  cases type with
  | toMram => exact h.put_data hw8
  | fromMram => exact h

theorem loadWram_next (hprog : prog.Copies next hw) (p : HostPtr) (n : Nat) (s : AccessState ρ) :
    next (s.loadWram type p n).dpu = next s.dpu := by
  cases type with
  | toMram => exact hprog.next_wram fun _ ha => put_outside s.dpu.wram 32 _ (.inl (by omega))
  | fromMram => rfl

theorem loadWram_data (p : HostPtr) {n : Nat} (s : AccessState ρ) (hto : type = .toMram) :
    ∀ i < n, (s.loadWram type p n).dpu.wram (32 + i) = s.host.bytes p i := by
  subst hto
  exact fun i hi => put_inside s.dpu.wram 32 (s.host.bytes p) hi

theorem setContext_next (hprog : prog.Copies next hw) {w v : Nat} (hw6 : 6 ≤ w) (s : AccessState ρ) :
    next (s.setContext w v).dpu = next s.dpu :=
  hprog.next_wram fun _ ha => setWord_outside (.inl (by omega))

theorem setContext_data {w v : Nat} (hw8 : w < 8) (i : Nat) (s : AccessState ρ) :
    (s.setContext w v).dpu.wram (32 + i) = s.dpu.wram (32 + i) :=
  setWord_outside (.inr (by omega))

/-- What is left of a run of the program in the words 6 and 7. -/
theorem holdsWord_of_context {wram wram' : Mem UInt8} {w v : Nat} (h : HoldsWord wram w v) (hw6 : 6 ≤ w) (hw8 : w < 8)
    (heq : ∀ a, 24 ≤ a → a < 32 → wram' a = wram a) : HoldsWord wram' w v :=
  h.congr fun _ _ => heq _ (by omega) (by omega)

/-- The first iteration: the program starts at the offset in its context. -/
theorem progress_first (hprog : prog.Copies next hw) (ht : t.Aligned) (hin : t.offset + t.size ≤ hw.mramSize)
    (hb : ChunkSize hw t bytes) (s₀ : AccessState ρ) :
    Progress next type t bytes 1 s₀
      (((((((s₀.setContext 5 t.offset).setContext 6 bytes).setContext 7
        (if t.size / bytes = 0 ∨ t.size / bytes = 1 ∧ t.size % bytes = 0 then 1 else 0)).loadWram type t.ptr bytes).boot
          prog type false).fetchWram type t.ptr bytes)) := by
  have hle := hb.le
  have hmul : bytes * (t.size / bytes) + t.size % bytes = t.size := Nat.div_add_mod t.size bytes
  have hnr : 0 < t.size / bytes := Nat.div_pos hle hb.pos
  generalize hlast : (if t.size / bytes = 0 ∨ t.size / bytes = 1 ∧ t.size % bytes = 0 then 1 else 0) = last
  generalize hs : ((s₀.setContext 5 t.offset).setContext 6 bytes).setContext 7 last = s
  have h5 : HoldsWord s.dpu.wram 5 t.offset := by
    rw [← hs]
    exact ((setWord_holds _ 5 t.offset).setWord_other (by decide)).setWord_other (by decide)
  have h6 : HoldsWord s.dpu.wram 6 bytes := by
    rw [← hs]
    exact (setWord_holds _ 6 bytes).setWord_other (by decide)
  have h7 : HoldsWord s.dpu.wram 7 last := by
    rw [← hs]
    exact setWord_holds _ 7 last
  have hhost : s.host = s₀.host := by rw [← hs]; rfl
  have hmram : s.dpu.mram = s₀.dpu.mram := by rw [← hs]; rfl
  have hnone : Moved type t 0 s₀ s := (Moved.start s₀).congr hhost hmram
  have hchunk := hnone.chunk hprog false bytes last (s.loadWram type t.ptr bytes) (loadWram_host _ _ _)
    (loadWram_mram _ _ _) (by rw [HostPtr.add_zero]; exact loadWram_data t.ptr s) (loadWram_holds h5 (by decide)) (loadWram_holds h6 (by decide)) (loadWram_holds h7 (by decide))
    ht.offset hb.dvd hb.pos (by omega) hb.fits
  rw [HostPtr.add_zero, Nat.zero_add] at hchunk
  obtain ⟨hmoved, hcontext, hnext⟩ := hchunk
  refine ⟨by rw [Nat.one_mul]; exact hmoved, ?_, ?_⟩
  · exact holdsWord_of_context (loadWram_holds h6 (by decide)) (by decide) (by decide) hcontext
  · intro hmore
    have h0 : last = 0 := by
      rw [← hlast, if_neg]
      rintro (h | ⟨h, h'⟩)
      · omega
      · exact hmore ⟨h.symm, h'⟩
    refine ⟨?_, by rw [Nat.one_mul]; exact hnext h0⟩
    rw [h0] at h7
    exact holdsWord_of_context (loadWram_holds h7 (by decide)) (by decide) (by decide) hcontext

/-- A further complete iteration: the program is resumed. -/
theorem Progress.step (hprog : prog.Copies next hw) (ht : t.Aligned) (hin : t.offset + t.size ≤ hw.mramSize)
    (hb : ChunkSize hw t bytes) {i : Nat} (hi : i < t.size / bytes) (h : Progress next type t bytes i s₀ s) :
    Progress next type t bytes (i + 1) s₀ (accessIteration prog type t bytes s i) := by
  have hdone : (i + 1) * bytes ≤ t.size := (Nat.le_div_iff_mul_le hb.pos).mp hi
  rw [Nat.succ_mul] at hdone
  obtain ⟨h7, hnext⟩ := h.more fun hend => by omega
  rw [accessIteration]
  -- the state the program is resumed in
  have hready : ∃ s' last, (if i = t.size / bytes - 1 ∧ t.size % bytes = 0 then
        (s.loadWram type (t.ptr.add (i * bytes)) bytes).setContext 7 1
        else s.loadWram type (t.ptr.add (i * bytes)) bytes) = s' ∧
      s'.host = s.host ∧ s'.dpu.mram = s.dpu.mram ∧
      (type = .toMram → ∀ j < bytes, s'.dpu.wram (32 + j) = s.host.bytes (t.ptr.add (i * bytes)) j) ∧
      StartsAt next true s'.dpu (t.offset + i * bytes) ∧ HoldsWord s'.dpu.wram 6 bytes ∧ HoldsWord s'.dpu.wram 7 last ∧
      (¬(i + 1 = t.size / bytes ∧ t.size % bytes = 0) → last = 0) := by
    have hload6 : HoldsWord (s.loadWram type (t.ptr.add (i * bytes)) bytes).dpu.wram 6 bytes :=
      loadWram_holds h.size (by decide)
    have hload7 : HoldsWord (s.loadWram type (t.ptr.add (i * bytes)) bytes).dpu.wram 7 _ := loadWram_holds h7 (by decide)
    have hload : next (s.loadWram type (t.ptr.add (i * bytes)) bytes).dpu = next s.dpu := loadWram_next hprog _ _ s
    have hstart := hload.trans hnext
    by_cases hlast : i = t.size / bytes - 1 ∧ t.size % bytes = 0
    · refine ⟨_, 1, if_pos hlast, loadWram_host _ _ _, loadWram_mram _ _ _, ?_, ?_, ?_, ?_, ?_⟩
      · intro hto j hj
        rw [setContext_data (by decide)]
        exact loadWram_data _ s hto j hj
      · exact (setContext_next hprog (by decide) _).trans hstart
      · exact hload6.setWord_other (by decide)
      · exact setWord_holds _ 7 1
      · exact fun hnot => absurd ⟨by omega, hlast.2⟩ hnot
    · exact ⟨_, 0, if_neg hlast, loadWram_host _ _ _, loadWram_mram _ _ _, loadWram_data _ s, hstart, hload6, hload7,
        fun _ => rfl⟩
  obtain ⟨s', last, hs', hhost, hmram, hdata, hstart, h6, h7', hzero⟩ := hready
  simp only [hs']
  have hpos : 8 ∣ t.offset + i * bytes := Nat.dvd_add ht.offset (Nat.dvd_mul_left_of_dvd hb.dvd i)
  obtain ⟨hmoved, hcontext, hnext'⟩ := h.moved.chunk hprog true bytes last s' hhost hmram hdata hstart h6 h7' hpos hb.dvd
    hb.pos (by omega) hb.fits
  refine ⟨by rw [Nat.succ_mul]; exact hmoved, holdsWord_of_context h6 (by decide) (by decide) hcontext, ?_⟩
  intro hmore
  have h0 := hzero hmore
  rw [h0] at h7'
  refine ⟨holdsWord_of_context h7' (by decide) (by decide) hcontext, ?_⟩
  rw [hnext' h0, Nat.succ_mul, Nat.add_assoc]

/-- The last run moves what the complete iterations left. -/
theorem Progress.remaining (hprog : prog.Copies next hw) (ht : t.Aligned) (hin : t.offset + t.size ≤ hw.mramSize)
    (hb : ChunkSize hw t bytes) (h : Progress next type t bytes (t.size / bytes) s₀ s) :
    Moved type t t.size s₀ (accessRemaining prog type t bytes s) := by
  have hsplit : t.size / bytes * bytes + t.size % bytes = t.size := Nat.div_add_mod' t.size bytes
  have hnr : 0 < t.size / bytes := Nat.div_pos hb.le hb.pos
  have hlt : t.size % bytes < bytes := Nat.mod_lt _ hb.pos
  rw [accessRemaining]
  by_cases hrem : t.size % bytes = 0
  · have hno : ¬(t.size % bytes > 0 ∧ t.size / bytes > 0) := by omega
    simp only [if_neg hno]
    have hmoved := h.moved
    rwa [show t.size / bytes * bytes = t.size by omega] at hmoved
  · have hyes : t.size % bytes > 0 ∧ t.size / bytes > 0 := by omega
    simp only [if_pos hyes]
    have hdvd : 8 ∣ t.size % bytes := (Nat.dvd_mod_iff hb.dvd).mpr ht.size
    have hwords : 4 * (t.size % bytes / 4) = t.size % bytes := by omega
    obtain ⟨h7, hnext⟩ := h.more fun hend => hrem hend.2
    rw [hwords]
    have hpos : 8 ∣ t.offset + t.size / bytes * bytes := Nat.dvd_add ht.offset (Nat.dvd_mul_left_of_dvd hb.dvd _)
    have hfits := hb.fits
    have hready : StartsAt next true (((s.setContext 6 (t.size % bytes)).setContext 7 1).loadWram type
        (t.ptr.add (t.size / bytes * bytes)) (t.size % bytes)).dpu (t.offset + t.size / bytes * bytes) := by
      rw [StartsAt, if_pos rfl, loadWram_next hprog, setContext_next hprog (by decide), setContext_next hprog (by decide)]
      exact hnext
    have hchunk := h.moved.chunk hprog true (t.size % bytes) 1
      (((s.setContext 6 (t.size % bytes)).setContext 7 1).loadWram type (t.ptr.add (t.size / bytes * bytes))
        (t.size % bytes)) (loadWram_host _ _ _) (loadWram_mram _ _ _) (loadWram_data _ _) hready
      (loadWram_holds ((setWord_holds _ 6 _).setWord_other (by decide)) (by decide))
      (loadWram_holds (setWord_holds _ 7 1) (by decide)) hpos hdvd (by omega) (by omega) (by omega)
    have hmoved := hchunk.1
    rwa [hsplit] at hmoved

/-- Under the preconditions an access moves the bytes of its range, and no others. -/
theorem access_moves (hprog : prog.Copies next hw) (ht : t.Aligned) (hin : t.offset + t.size ≤ hw.mramSize)
    (s : AccessState ρ) : Moved type t t.size s (accessMramUsingDpuProgramIndividual prog hw type t s) := by
  rw [accessMramUsingDpuProgramIndividual]
  by_cases h0 : t.size = 0
  · rw [if_pos h0, h0]
    exact .start s
  · rw [if_neg h0]
    have hb := chunkSize hw ht.size h0
    generalize 4 * (wramSaveSize hw t - 8) = bytes at hb
    have hnr : 0 < t.size / bytes := Nat.div_pos hb.le hb.pos
    have hfirst : Progress next type t bytes 1 s _ := progress_first hprog ht hin hb s
    have hloop : ∀ s₁, Progress next type t bytes 1 s s₁ → Progress next type t bytes (t.size / bytes) s
        ((List.range' 1 (t.size / bytes - 1)).foldl (accessIteration prog type t bytes) s₁) := by
      intro s₁ h₁
      rw [List.range'_eq_map_range, List.foldl_map]
      have hrun := foldl_range_inv (P := fun i (s₂ : AccessState ρ) => Progress next type t bytes (1 + i) s s₂)
        (f := fun s₂ i => accessIteration prog type t bytes s₂ (1 + i)) (s := s₁) (t.size / bytes - 1) h₁
        fun i hi s₂ h₂ => h₂.step hprog ht hin hb (show 1 + i < t.size / bytes by omega)
      rwa [show 1 + (t.size / bytes - 1) = t.size / bytes by omega] at hrun
    exact ((hloop _ hfirst).remaining hprog ht hin hb).congr rfl rfl

end Loop

end Access

end DpuBackend.Api
