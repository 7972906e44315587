import DpuBackend.Ufi.Completion

/-
  The control interfaces at the other end of a rank's packets.

  A control interface has a color that every command toggles, a structure register, the
  DPUs that are selected and the group of each DPU. A structure word goes to the
  register, and the frames that select DPUs or write their group are recognised under it;
  no other word changes any of these. A NOP, which only a debugger sends, puts back a
  result and is no command.

  `ufi_ci.c` and `ufi.c` keep copies of all this, `color` and `slice_info`, and decide
  with them what to send. `Link` is a rank with its interfaces, and `Link.call` a call of
  the UFI layer: the packets it hands to the driver are those of `Commands`, and for each
  of them `exec_cmd` has inverted the color of the interfaces that get a command, whether
  or not the packet reaches them.

  Correspondence (C ↔ Lean):
    `control_interface.color`               ↔ `Wire.color`
    `invert_color`, `ci_commit_commands`    ↔ `Wire.exec`
    `slice_info`, `rank->cmds`              ↔ `Link.rank`
    the status of a commit and of its polls ↔ `Answer`
-/

namespace DpuBackend.Ufi

open DpuBackend.Lib

/-! ## The words -/

/-- The type byte of a structure. -/
def isStruct (w : Word) : Bool := decide (w >>> 56 = 0x11#64)

/-- The type byte of a NOP. -/
def isNop (w : Word) : Bool := decide (w &&& ciNop = ciNop)

/-- The DPUs a frame selects. -/
def selection (struct frame : Word) : Option SliceTarget :=
  let number := byteOf frame 1
  if struct = plainStruct ∧ frame = selectAllFrame then some .all
  else if struct = oneByteStruct ∧ frame = selectDpuFrame number then some (.dpu number.toNat)
  else if struct = oneByteStruct ∧ frame = selectGroupFrame number then some (.group number.toNat)
  else none

/-- The group a frame writes. -/
def groupWritten (struct frame : Word) : Option Nat :=
  let number := byteOf frame 1
  if struct = oneByteStruct ∧ frame = writeGroupFrame number then some number.toNat else none

/-! ## Control interfaces -/

/-- What the words act on. -/
structure Decoder where
  structReg : Word
  target : SliceTarget
  group : Nat → Nat

namespace Decoder

variable (d : Decoder)

def selects (dpu : Nat) : Bool :=
  match d.target with
  | .all => true
  | .dpu dpu' => dpu == dpu'
  | .group g => d.group dpu == g
  | .none => false

def execute (w : Word) : Decoder :=
  if isStruct w = true then { d with structReg := w }
  else
    match selection d.structReg w with
    | some target => { d with target := target }
    | none =>
      match groupWritten d.structReg w with
      | some g => { d with group := fun dpu => if d.selects dpu then g else d.group dpu }
      | none => d

end Decoder

structure Ci where
  decoder : Decoder
  /-- as `ci_get_color` reads it -/
  color : Bool
  /-- the result a NOP has put back -/
  restored : Option (BitVec 32)

def Ci.receive (c : Ci) (w : Word) : Ci :=
  if w = ciEmpty then c
  else if isNop w = true then { c with restored := some (w.setWidth 32) }
  else { decoder := c.decoder.execute w, color := !c.color, restored := none }

/-! ## The link -/

/-- How a command ends: a failure of the commit or of the polls that follow, and the
interfaces the packet has reached all the same. -/
inductive Answer where
  | done
  | failed (e : CmdError) (reached : Nat → Bool)

namespace Answer

def reaches : Answer → Nat → Bool
  | .done, _ => true
  | .failed _ reached, ci => reached ci

def outcome : Answer → CmdOutcome
  | .done => .done
  | .failed e _ => .failed e

end Answer

/-- The colors the rank has noted, and its interfaces. -/
structure Wire where
  color : Mask
  ci : Nat → Ci

namespace Wire

/-- The interfaces that get a command. -/
def commanded (nrCis : Nat) (packet : Packet) : Mask := gatherMask nrCis fun ci => decide ((packet ci).word ≠ ciEmpty)

def exec (nrCis : Nat) (w : Wire) (packet : Packet) (answer : Answer) : Wire where
  color := w.color ^^^ commanded nrCis packet
  ci i := if answer.reaches i then (w.ci i).receive (packet i).word else w.ci i

/-- The packets of a call, the last one first. -/
def run (nrCis : Nat) (answers : Nat → Answer) (w : Wire) : List Packet → Wire
  | [] => w
  | packet :: earlier => (w.run nrCis answers earlier).exec nrCis packet (answers earlier.length)

end Wire

structure Link where
  rank : CmdRank
  wire : Wire

namespace Link

/-- A call that has left the rank as `rank`. -/
def after (l : Link) (answers : Nat → Answer) (rank : CmdRank) : Link :=
  ⟨rank, l.wire.run rank.nrCis answers rank.commits⟩

/-- A call of the UFI layer and its status. -/
def call (l : Link) (program : CmdM PUnit) (answers : Nat → Answer) : Except CmdError Unit × Link :=
  match program.run (l.rank.begin fun k => (answers k).outcome) with
  | .ok _ rank => (.ok (), l.after answers rank)
  | .error e rank => (.error e, l.after answers rank)

end Link

/-- Every packet reaches all interfaces. -/
def Delivered (answers : Nat → Answer) : Prop := ∀ k ci, (answers k).reaches ci = true

/-! ## Executing a word -/

section Words

/-- The value of a byte. -/
def IsByte (w : Word) : Prop := w.toNat < 256

instance (w : Word) : Decidable (IsByte w) := inferInstanceAs (Decidable (_ < _))

theorem IsByte.bit {w : Word} (h : IsByte w) {i : Nat} (hi : 8 ≤ i) : w.getLsbD i = false := by
  rw [BitVec.getLsbD]
  apply Nat.testBit_lt_two_pow
  calc w.toNat < 2 ^ 8 := h
    _ ≤ 2 ^ i := Nat.pow_le_pow_right (by decide) hi

theorem isByte_byteOf (w : Word) (k : Nat) : IsByte (byteOf w k) := by
  unfold IsByte byteOf
  rw [BitVec.toNat_and]
  exact Nat.lt_of_le_of_lt Nat.and_le_right (by decide)

theorem isByte_ofNat {k : Nat} (h : k < 256) : IsByte (BitVec.ofNat 64 k) := by
  unfold IsByte
  rw [BitVec.toNat_ofNat]
  exact Nat.lt_of_le_of_lt (Nat.mod_le _ _) h

/-- The words whose highest bit is clear are no NOP. -/
theorem isNop_of_bit {w : Word} (h : w.getLsbD 63 = false) : isNop w = false := by
  rw [isNop, decide_eq_false_iff_not]
  intro hnop
  have hbit : (w &&& ciNop).getLsbD 63 = ciNop.getLsbD 63 := by rw [hnop]
  rw [BitVec.getLsbD_and, h, Bool.false_and] at hbit
  exact absurd hbit (by decide)

variable {b₀ b₁ b₂ b₃ b₄ b₅ b₆ : Word}

/-- The type byte of a frame keeps the bits of `0x33`. -/
theorem isStruct_frameWord : isStruct (frameWord b₀ b₁ b₂ b₃ b₄ b₅ b₆) = false := by
  rw [isStruct, decide_eq_false_iff_not]
  intro hstruct
  have hbit : (frameWord b₀ b₁ b₂ b₃ b₄ b₅ b₆ >>> 56).getLsbD 5 = (0x11#64).getLsbD 5 := by rw [hstruct]
  simp only [frameWord, BitVec.getLsbD_ushiftRight, BitVec.getLsbD_or] at hbit
  have hframe : (0x3300000000000000#64).getLsbD (56 + 5) = true := by decide
  rw [hframe] at hbit
  simp at hbit

theorem isNop_frameWord (h₀ : IsByte b₀) (h₁ : IsByte b₁) (h₂ : IsByte b₂) (h₃ : IsByte b₃) (h₄ : IsByte b₄)
    (h₅ : IsByte b₅) (h₆ : IsByte b₆) : isNop (frameWord b₀ b₁ b₂ b₃ b₄ b₅ b₆) = false := by
  apply isNop_of_bit
  simp only [frameWord, BitVec.getLsbD_or, BitVec.getLsbD_shiftLeft]
  rw [h₀.bit (by decide), h₁.bit (by decide), h₂.bit (by decide), h₃.bit (by decide), h₄.bit (by decide),
    h₅.bit (by decide), h₆.bit (by decide)]
  decide

theorem isStruct_structWord (h₀ : IsByte b₀) (h₁ : IsByte b₁) (h₂ : IsByte b₂) (h₃ : IsByte b₃) (h₄ : IsByte b₄)
    (h₅ : IsByte b₅) : isStruct (structWord b₀ b₁ b₂ b₃ b₄ b₅) = true := by
  rw [isStruct, decide_eq_true_eq]
  apply BitVec.eq_of_getLsbD_eq
  intro i hi
  simp only [structWord, BitVec.getLsbD_ushiftRight, BitVec.getLsbD_or, BitVec.getLsbD_shiftLeft]
  have hconst : (0x1100000000000000#64).getLsbD (56 + i) = (0x11#64).getLsbD i := by
    have h64 : ∀ i < 64, (0x1100000000000000#64).getLsbD (56 + i) = (0x11#64).getLsbD i := by decide
    exact h64 i hi
  rw [hconst, h₀.bit (by omega), h₁.bit (by omega), h₂.bit (by omega), h₃.bit (by omega), h₄.bit (by omega),
    h₅.bit (by omega)]
  simp

/-- The structures are no NOP. -/
theorem isNop_of_isStruct {w : Word} (h : isStruct w = true) : isNop w = false := by
  rw [isStruct, decide_eq_true_eq] at h
  apply isNop_of_bit
  have hbit : (w >>> 56).getLsbD 7 = (0x11#64).getLsbD 7 := by rw [h]
  rw [BitVec.getLsbD_ushiftRight] at hbit
  exact hbit

end Words

namespace Decoder

variable {d : Decoder} {w : Word}

theorem execute_struct (h : isStruct w = true) : d.execute w = { d with structReg := w } := by
  unfold execute
  rw [if_pos h]

theorem execute_structReg (h : isStruct w = false) : (d.execute w).structReg = d.structReg := by
  unfold execute
  rw [if_neg (by rw [h]; decide)]
  split
  · rfl
  · split <;> rfl

/-- A word that selects nothing and writes no group. -/
theorem execute_inert (hstruct : isStruct w = false) (hselection : selection d.structReg w = none)
    (hgroup : groupWritten d.structReg w = none) : d.execute w = d := by
  unfold execute
  rw [if_neg (by rw [hstruct]; decide), hselection, hgroup]

/-- No frame that selects or writes a group is `w`. -/
theorem execute_other (hstruct : isStruct w = false) (hall : w ≠ selectAllFrame)
    (hdpu : w ≠ selectDpuFrame (byteOf w 1)) (hgroup : w ≠ selectGroupFrame (byteOf w 1))
    (hwrite : w ≠ writeGroupFrame (byteOf w 1)) : d.execute w = d := by
  apply execute_inert hstruct
  · simp only [selection, hall, hdpu, hgroup, and_false, if_false]
  · simp only [groupWritten, hwrite, and_false, if_false]

theorem execute_empty : d.execute ciEmpty = d := by
  apply execute_other
  · decide
  · exact (frameWord_ne_empty _ _ _ _ _ _ _).symm
  · exact (frameWord_ne_empty _ _ _ _ _ _ _).symm
  · exact (frameWord_ne_empty _ _ _ _ _ _ _).symm
  · exact (frameWord_ne_empty _ _ _ _ _ _ _).symm

theorem execute_nop (h : isNop w = true) : d.execute w = d := by
  have hne : ∀ w', isNop w' = false → w ≠ w' := by
    intro w' hw' heq
    rw [heq, hw'] at h
    cases h
  have hbyte := isByte_byteOf w 1
  apply execute_other
  · cases hstruct : isStruct w with
    | false => rfl
    | true => exact absurd rfl (hne w (isNop_of_isStruct hstruct))
  · exact hne _ (by decide)
  · apply hne
    exact isNop_frameWord (by decide) hbyte (by decide) (by decide) (by decide) (by decide) (by decide)
  · apply hne
    exact isNop_frameWord (by decide) hbyte (by decide) (by decide) (by decide) (by decide) (by decide)
  · apply hne
    exact isNop_frameWord (by decide) hbyte (by decide) (by decide) (by decide) (by decide) (by decide)

theorem execute_selection {target : SliceTarget} (hstruct : isStruct w = false)
    (h : selection d.structReg w = some target) : d.execute w = { d with target := target } := by
  unfold execute
  rw [if_neg (by rw [hstruct]; decide), h]

theorem execute_group {g : Nat} (hstruct : isStruct w = false) (hselection : selection d.structReg w = none)
    (h : groupWritten d.structReg w = some g) :
    d.execute w = { d with group := fun dpu => if d.selects dpu then g else d.group dpu } := by
  unfold execute
  rw [if_neg (by rw [hstruct]; decide), hselection, h]

/-- A DPU that is not selected and keeps its group is still not selected. -/
theorem selects_moved {group : Nat → Nat} {dpu : Nat} (hselects : d.selects dpu = false)
    (hgroup : group dpu = d.group dpu) : ({ d with group := group } : Decoder).selects dpu = false := by
  rw [← hselects]
  unfold selects
  cases d.target with
  | group g => simp only [hgroup]
  | all => rfl
  | dpu dpu' => rfl
  | none => rfl

/-- The DPUs that have left the selected group for `g` stay there. -/
theorem group_again (d : Decoder) (g dpu : Nat) :
    (if ({ d with group := fun dpu => if d.selects dpu then g else d.group dpu } : Decoder).selects dpu then g
      else if d.selects dpu then g else d.group dpu) = if d.selects dpu then g else d.group dpu := by
  cases hselects : d.selects dpu with
  | true => simp only [if_true, ite_self]
  | false =>
    rw [selects_moved hselects (by simp [hselects])]
    rfl

/-- A word that comes twice does what it does once. -/
theorem execute_execute (d : Decoder) (w : Word) : (d.execute w).execute w = d.execute w := by
  cases hstruct : isStruct w with
  | true => rw [execute_struct hstruct, execute_struct hstruct]
  | false =>
    cases hselection : selection d.structReg w with
    | some target =>
      rw [execute_selection hstruct hselection]
      exact execute_selection hstruct hselection
    | none =>
      cases hgroup : groupWritten d.structReg w with
      | some g =>
        rw [execute_group hstruct hselection hgroup]
        let moved : Decoder := { d with group := fun dpu => if d.selects dpu then g else d.group dpu }
        refine (execute_group (d := moved) hstruct hselection hgroup).trans ?_
        congr 1
        funext dpu
        exact group_again d g dpu
      | none => rw [execute_inert hstruct hselection hgroup, execute_inert hstruct hselection hgroup]

end Decoder

/-! ## The selections and the group writes -/

/-- The number of a target fits its field. -/
def SliceTarget.Typed : SliceTarget → Prop
  | .dpu dpuId => dpuId < 256
  | .group groupId => groupId < 256
  | _ => True

theorem selection_selectDpuFrame {k : Nat} (h : k < 256) :
    selection oneByteStruct (selectDpuFrame (BitVec.ofNat 64 k)) = some (.dpu k) := by
  have hall : ∀ k < 256, selection oneByteStruct (selectDpuFrame (BitVec.ofNat 64 k)) = some (.dpu k) := by
    decide +kernel
  exact hall k h

theorem selection_selectGroupFrame {k : Nat} (h : k < 256) :
    selection oneByteStruct (selectGroupFrame (BitVec.ofNat 64 k)) = some (.group k) := by
  have hall : ∀ k < 256, selection oneByteStruct (selectGroupFrame (BitVec.ofNat 64 k)) = some (.group k) := by
    decide +kernel
  exact hall k h

/-- What is sent for a target selects it. -/
theorem selection_selectFrame {target : SliceTarget} (h : target.Typed) (hne : target ≠ .none) :
    selection (selectStruct target) (selectFrame target) = some target := by
  cases target with
  | none => exact absurd rfl hne
  | all => decide
  | dpu dpuId => exact selection_selectDpuFrame h
  | group groupId => exact selection_selectGroupFrame h

theorem writeGroupFrame_writes {k : Nat} (h : k < 256) :
    selection oneByteStruct (writeGroupFrame (BitVec.ofNat 64 k)) = none ∧
      groupWritten oneByteStruct (writeGroupFrame (BitVec.ofNat 64 k)) = some k := by
  have hall : ∀ k < 256, selection oneByteStruct (writeGroupFrame (BitVec.ofNat 64 k)) = none ∧
      groupWritten oneByteStruct (writeGroupFrame (BitVec.ofNat 64 k)) = some k := by
    decide +kernel
  exact hall k h

/-- Under `struct` the word is no selection and no group write. -/
def Inert (struct w : Word) : Prop := selection struct w = none ∧ groupWritten struct w = none

theorem inert_of_struct {struct : Word} (hplain : struct ≠ plainStruct) (hbyte : struct ≠ oneByteStruct) (w : Word) :
    Inert struct w := by
  constructor
  · simp [selection, hplain, hbyte]
  · simp [groupWritten, hbyte]

/-- A frame that changes no target and no group under `struct`. -/
structure QuietFrame (struct frame : Word) : Prop where
  noStruct : isStruct frame = false
  command : isNop frame = false
  inert : Inert struct frame

theorem QuietFrame.execute {struct frame : Word} (h : QuietFrame struct frame) {d : Decoder} (hstruct : d.structReg = struct) :
    d.execute frame = d := by
  apply Decoder.execute_inert h.noStruct
  · rw [hstruct]
    exact h.inert.1
  · rw [hstruct]
    exact h.inert.2

theorem isStruct_selectStruct {target : SliceTarget} (hne : target ≠ .none) : isStruct (selectStruct target) = true := by
  cases target with
  | none => exact absurd rfl hne
  | all => decide
  | dpu dpuId => exact (by decide : isStruct oneByteStruct = true)
  | group groupId => exact (by decide : isStruct oneByteStruct = true)

theorem isStruct_selectFrame {target : SliceTarget} : isStruct (selectFrame target) = false := by
  cases target with
  | none => decide
  | all => exact isStruct_frameWord
  | dpu dpuId => exact isStruct_frameWord
  | group groupId => exact isStruct_frameWord

theorem isNop_selectFrame {target : SliceTarget} (h : target.Typed) : isNop (selectFrame target) = false := by
  have hbyte : ∀ {k : Nat}, k < 256 → IsByte (BitVec.ofNat 64 k) := isByte_ofNat
  cases target with
  | none => decide
  | all => decide
  | dpu dpuId => exact isNop_frameWord (by decide) (hbyte h) (by decide) (by decide) (by decide) (by decide) (by decide)
  | group groupId => exact isNop_frameWord (by decide) (hbyte h) (by decide) (by decide) (by decide) (by decide) (by decide)

/-- The frame of a target under its structure. -/
theorem execute_selectFrame {target : SliceTarget} (htyped : target.Typed) (hne : target ≠ .none) {d : Decoder}
    (hstruct : d.structReg = selectStruct target) : d.execute (selectFrame target) = { d with target := target } := by
  apply Decoder.execute_selection isStruct_selectFrame
  rw [hstruct]
  exact selection_selectFrame htyped hne

theorem groupWritten_selectFrame {target : SliceTarget} (h : target.Typed) (struct : Word) :
    groupWritten struct (selectFrame target) = none := by
  have hdpu : ∀ k < 256, selectDpuFrame (BitVec.ofNat 64 k) ≠ writeGroupFrame (byteOf (selectDpuFrame (BitVec.ofNat 64 k)) 1) := by
    decide +kernel
  have hgroup : ∀ k < 256,
      selectGroupFrame (BitVec.ofNat 64 k) ≠ writeGroupFrame (byteOf (selectGroupFrame (BitVec.ofNat 64 k)) 1) := by
    decide +kernel
  have hne : selectFrame target ≠ writeGroupFrame (byteOf (selectFrame target) 1) := by
    cases target with
    | none => decide
    | all => decide
    | dpu dpuId => exact hdpu dpuId h
    | group groupId => exact hgroup groupId h
  simp only [groupWritten, hne, and_false, if_false]

/-- Whatever the structure register holds, the frame of a target writes no group. -/
theorem execute_selectFrame_group {target : SliceTarget} (h : target.Typed) (d : Decoder) :
    (d.execute (selectFrame target)).group = d.group := by
  unfold Decoder.execute
  rw [if_neg (by rw [isStruct_selectFrame]; decide), groupWritten_selectFrame h]
  split
  · rfl
  · rfl

/-! ## Packets on the wire -/

namespace Wire

variable {nrCis : Nat} {w : Wire} {packet : Packet} {answer : Answer} {i : Nat}

theorem commanded_bit (h : nrCis ≤ 8) (hi : i < nrCis) :
    (commanded nrCis packet).getLsbD i = decide ((packet i).word ≠ ciEmpty) := by
  have hlt : i < 8 ∧ i < nrCis := ⟨by omega, hi⟩
  rw [commanded, gatherMask_bit, decide_eq_true hlt, Bool.true_and]

theorem receive_decoder (c : Ci) (word : Word) : (c.receive word).decoder = c.decoder.execute word := by
  unfold Ci.receive
  split
  · next hempty => rw [hempty, Decoder.execute_empty]
  · split
    · next hnop => rw [Decoder.execute_nop hnop]
    · rfl

theorem exec_decoder (h : answer.reaches i = true) :
    ((w.exec nrCis packet answer).ci i).decoder = (w.ci i).decoder.execute (packet i).word := by
  simp only [exec, h, if_true, receive_decoder]

/-- The noted color follows the interface. -/
theorem exec_color (hcis : nrCis ≤ 8) (hi : i < nrCis) (h : answer.reaches i = true)
    (hnop : isNop (packet i).word = false) (hcolor : w.color.getLsbD i = (w.ci i).color) :
    (w.exec nrCis packet answer).color.getLsbD i = ((w.exec nrCis packet answer).ci i).color := by
  simp only [exec, h, if_true, BitVec.getLsbD_xor, commanded_bit hcis hi, hcolor, Ci.receive, hnop]
  by_cases hempty : (packet i).word = ciEmpty
  · simp [hempty]
  · simp [hempty]

end Wire

end DpuBackend.Ufi
