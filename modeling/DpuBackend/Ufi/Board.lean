import DpuBackend.Ufi.MemoryFrames

/-
  A rank with the control interfaces it commands and the memories of their DPUs.

  A `Chip` is a control interface with its DPUs: the decoder of `ControlInterface`, the IRAM
  and WRAM of each DPU and the result of the last read. Here every command succeeds, so `send`
  runs a call of the UFI layer and hands each packet it commits to the chips.

  What happens is one thing for each interface, but for the question whether a packet is sent
  at all: a `Port` is what the rank notes of an interface, the chip, and what is left for it
  in the command buffer. An interface outside the mask of a call gets again what is left for
  it (`Port.resend`) unless a prepared packet has gone out before (`Port.clear`).

  Correspondence (C ↔ Lean):
    the DPUs behind a control interface          ↔ `Chip`
    `rank`, `rank->cmds` and the host's buffers  ↔ `Board`
    the packets of a call                        ↔ `send`
-/

namespace DpuBackend.Ufi

open DpuBackend.Lib

/-! ## Chips -/

/-- The memories of the DPUs of a chip. -/
abbrev DpuMemories := Nat → MemKind → BitVec 16 → Word

/-- The DPUs that are selected all write. -/
def DpuMemories.write (memory : DpuMemories) (selects : Nat → Bool) (w : MemWrite) : DpuMemories := fun dpu kind a =>
  if selects dpu = true ∧ kind = w.kind ∧ a = w.address then w.value else memory dpu kind a

def MemRead.answer (memory : MemKind → BitVec 16 → Word) : MemRead → Word
  | .instructionByte byte a => byteOf (memory .iram a) byte
  | .word a => memory .wram a

structure Chip where
  decoder : Decoder
  memory : DpuMemories
  result : Word

namespace Chip

def storing (c : Chip) (w : Word) : DpuMemories :=
  match writeOf c.decoder.structReg w with
  | some write => c.memory.write c.decoder.selects write
  | none => c.memory

/-- The result of a read; what several DPUs answer at once is not modelled. -/
def answering (c : Chip) (w : Word) : Word :=
  match c.decoder.target, readOf c.decoder.structReg w with
  | .dpu dpu, some read => read.answer (c.memory dpu)
  | _, _ => c.result

def receive (c : Chip) (w : Word) : Chip :=
  if w = ciEmpty then c else ⟨c.decoder.execute w, c.storing w, c.answering w⟩

variable (c : Chip) {w : Word}

@[simp] theorem receive_empty : c.receive ciEmpty = c := if_pos rfl

theorem receive_decoder (w : Word) : (c.receive w).decoder = c.decoder.execute w := by
  unfold receive
  split
  · next h => rw [h, Decoder.execute_empty]
  · rfl

theorem receive_memory (hne : w ≠ ciEmpty) : (c.receive w).memory = c.storing w := by
  rw [receive, if_neg hne]

/-- A word that is no write. -/
theorem receive_memory_none (h : writeOf c.decoder.structReg w = none) : (c.receive w).memory = c.memory := by
  unfold receive
  split
  · rfl
  · simp only [storing, h]

theorem receive_memory_some {write : MemWrite} (h : writeOf c.decoder.structReg w = some write) (hne : w ≠ ciEmpty) :
    (c.receive w).memory = c.memory.write c.decoder.selects write := by
  rw [c.receive_memory hne]
  simp only [storing, h]

theorem write_write (memory : DpuMemories) (selects : Nat → Bool) (write : MemWrite) :
    (memory.write selects write).write selects write = memory.write selects write := by
  funext dpu kind a
  simp only [DpuMemories.write]
  split <;> rfl

/-- A word that comes twice writes what it wrote. -/
theorem receive_again (h : (c.decoder.execute w).structReg = c.decoder.structReg) :
    ((c.receive w).receive w).memory = (c.receive w).memory := by
  by_cases hne : w = ciEmpty
  · rw [hne, receive_empty, receive_empty]
  · cases hwrite : writeOf c.decoder.structReg w with
    | none =>
      apply receive_memory_none
      rw [receive_decoder, h]
      exact hwrite
    | some write =>
      have hsame : (c.receive w).decoder = c.decoder := by
        rw [receive_decoder]
        exact (quiet_of_writeOf hwrite).execute rfl
      have hagain : writeOf (c.receive w).decoder.structReg w = some write := by
        rw [hsame]
        exact hwrite
      rw [receive_memory_some _ hagain hne, hsame, c.receive_memory_some hwrite hne, write_write]

end Chip

/-! ## The board -/

structure Board where
  rank : CmdRank
  chips : Nat → Chip
  /-- The host's buffers, by element. -/
  host : Nat → Nat → Word
  /-- The buffers that have been accessed. -/
  used : List Nat

abbrev BoardM := EStateM CmdError Board

def deliver (chips : Nat → Chip) (packet : Packet) : Nat → Chip := fun ci => (chips ci).receive (packet ci).word

/-- The board once a call has left the rank as `r`. -/
def Board.after (b : Board) (r : CmdRank) : Board :=
  { b with
    rank := r
    chips := r.commits.foldr (fun packet chips => deliver chips packet) b.chips }

/-- The rank as a call finds it, all of whose commands succeed. -/
def Board.begin (b : Board) : CmdRank := b.rank.begin fun _ => .done

def send (program : CmdM PUnit) : BoardM PUnit := fun b =>
  match program.run b.begin with
  | .ok _ r => .ok ⟨⟩ (b.after r)
  | .error e r => .error e (b.after r)

/-- An interface: what the rank notes of it, the chip, and what is left for it in the buffer. -/
structure Port where
  info : SliceInfo
  chip : Chip
  cmd : Word

def Board.port (b : Board) (ci : Nat) : Port := ⟨b.rank.sliceInfo ci, b.chips ci, (b.rank.cmds ci).word⟩

namespace Port

/-- What is left goes out once more. -/
def resend (p : Port) : Port := { p with chip := p.chip.receive p.cmd }

/-- A prepared packet that is for others. -/
def clear (p : Port) : Port := { p with cmd := ciEmpty }

/-- A structure, if it is sent, and a frame. -/
def frame (p : Port) (structSent : Bool) (struct frame : Word) : Port where
  info := { p.info with structureValue := struct }
  chip := (if structSent then p.chip.receive struct else p.chip).receive frame
  cmd := frame

/-- The target, once it is noted. -/
def noteTarget (p : Port) (target : SliceTarget) : Port := { p with info := { p.info with sliceTarget := target } }

end Port

/-! ## Calls whose commands succeed -/

section Runs

variable {r : CmdRank} {mask : Mask} {struct : Word}

/-- A prepared packet has gone out. -/
def CmdRank.sent (r : CmdRank) (mask : Mask) (word : Word) : CmdRank :=
  { r with cmds := prepared mask word }.logged (prepared mask word)

/-- The structure is held. -/
def CmdRank.structured (r : CmdRank) (mask : Mask) (struct : Word) : CmdRank :=
  if r.mustWriteStructure mask struct then (r.setStructure mask struct).sent mask struct else r.setStructure mask struct

/-- The frames are in the buffer. -/
def CmdRank.framed (r : CmdRank) (mask : Mask) (word : Nat → Word) : CmdRank :=
  { r with cmds := fun ci => if r.visits mask ci then ⟨word ci, true⟩ else r.cmds ci }

theorem run_execCmd (h : r.AllDone) (addSelectMask : Bool) (packet : Packet) :
    (execCmd addSelectMask packet).run r =
      if (addSelectMask && r.lacksTarget packet) = true then .error .internal r else .ok ⟨⟩ (r.logged packet) := by
  have hcommit : (ciCommitCommands packet).run r = .ok ⟨⟩ (r.logged packet) := by
    rw [ciCommitCommands, EStateM.run_bind]
    dsimp only [get, getThe, MonadStateOf.get, EStateM.get, EStateM.run]
    rw [h r.clock]
    rfl
  show (if (addSelectMask && r.lacksTarget packet) = true then (throw .internal : CmdM PUnit)
    else ciCommitCommands packet).run r = _
  split
  · rfl
  · exact hcommit

theorem run_prepareAndExec (h : r.AllDone) (word : Word) :
    (prepareAndExec mask word).run r = .ok ⟨⟩ (r.sent mask word) :=
  run_execCmd (r := { r with cmds := prepared mask word }) h false _

theorem run_execWriteStructure (h : r.AllDone) (struct : Word) :
    (execWriteStructure mask struct).run r = .ok ⟨⟩ (r.structured mask struct) := by
  show (if r.mustWriteStructure mask struct = true then prepareAndExec mask struct else pure ⟨⟩).run
    (r.setStructure mask struct) = _
  unfold CmdRank.structured
  split
  · exact run_prepareAndExec (r := r.setStructure mask struct) h struct
  · rfl

theorem allDone_structured (h : r.AllDone) : (r.structured mask struct).AllDone := by
  unfold CmdRank.structured
  split
  · exact h
  · exact h

theorem run_execFrame (h : r.AllDone) (struct frame : Word) :
    (execFrame mask struct frame).run r = .ok ⟨⟩ ((r.structured mask struct).sent mask frame) := by
  unfold execFrame
  rw [EStateM.run_bind, run_execWriteStructure h]
  exact run_prepareAndExec (allDone_structured h) frame

/-- The rank before the frames of an address go out. -/
def CmdRank.addressed (r : CmdRank) (mask : Mask) (struct : Word) (word : Nat → Word) : CmdRank :=
  (r.structured mask struct).framed mask word

theorem run_memoryWriteAt (h : r.AllDone) (mask : Mask) (struct : Word → Word) (frame : Word → Word → Word) (src : Nat → Nat → Word)
    (offset : BitVec 16) (k : Nat) :
    let addr : Word := (offset + BitVec.ofNat 16 k).setWidth 64
    let r' := r.addressed mask (struct addr) fun ci => frame (src ci k) addr
    (memoryWriteAt mask struct frame src offset k).run r =
      if r'.lacksTarget r'.cmds = true then .error .internal r' else .ok ⟨⟩ (r'.logged r'.cmds) := by
  intro addr r'
  unfold memoryWriteAt
  simp only [EStateM.run_bind]
  rw [run_execWriteStructure h]
  exact run_execCmd (r := r') (allDone_structured h) true r'.cmds

theorem run_selectOne (h : r.AllDone) (mask : Mask) (want : SliceInfo → Option SliceTarget) (target : SliceTarget) :
    (selectOne want target mask).run r =
      .ok ⟨⟩ (if (List.range r.nrCis).any (r.retargets want mask) = true then
        ((r.setTargets want mask).structured (r.selected want mask) (selectStruct target)).sent (r.selected want mask)
          (selectFrame target)
      else r.setTargets want mask) := by
  show (if (List.range r.nrCis).any (r.retargets want mask) = true then
    execFrame (r.selected want mask) (selectStruct target) (selectFrame target) else pure ⟨⟩).run
      (r.setTargets want mask) = _
  split
  · exact run_execFrame (r := r.setTargets want mask) h _ _
  · rfl

end Runs

/-! ## What a call does to each interface -/

/-- The rank has the same DPUs. -/
structure Board.Alike (b b' : Board) : Prop where
  nrCis : b'.rank.nrCis = b.rank.nrCis
  nrDpus : b'.rank.nrDpus = b.rank.nrDpus
  enabled : ∀ ci, (b'.rank.sliceInfo ci).enabledDpus = (b.rank.sliceInfo ci).enabledDpus

theorem Board.Alike.refl (b : Board) : b.Alike b := ⟨rfl, rfl, fun _ => rfl⟩

theorem Board.Alike.trans {b b' b'' : Board} (h : b.Alike b') (h' : b'.Alike b'') : b.Alike b'' :=
  ⟨h'.nrCis.trans h.nrCis, h'.nrDpus.trans h.nrDpus, fun ci => (h'.enabled ci).trans (h.enabled ci)⟩

section Ports

variable {b : Board} {mask : Mask} {ci : Nat}

theorem Board.begin_allDone (b : Board) : b.begin.AllDone := fun _ => rfl

theorem send_ok {program : CmdM PUnit} {r : CmdRank} (h : program.run b.begin = .ok ⟨⟩ r) :
    (send program).run b = .ok ⟨⟩ (b.after r) := by
  show (match program.run b.begin with
    | .ok _ r => (.ok PUnit.unit (b.after r) : EStateM.Result CmdError Board PUnit)
    | .error e r => .error e (b.after r)) = _
  rw [h]

theorem send_error {program : CmdM PUnit} {r : CmdRank} {e : CmdError} (h : program.run b.begin = .error e r) :
    (send program).run b = .error e (b.after r) := by
  show (match program.run b.begin with
    | .ok _ r => (.ok PUnit.unit (b.after r) : EStateM.Result CmdError Board PUnit)
    | .error e r => .error e (b.after r)) = _
  rw [h]

theorem visits_eq (r : CmdRank) (hci : ci < r.nrCis) : r.visits mask ci = mask.getLsbD ci := by
  simp [CmdRank.visits, hci]

@[simp] theorem Board.begin_nrCis (b : Board) : b.begin.nrCis = b.rank.nrCis := rfl
@[simp] theorem Board.begin_sliceInfo (b : Board) : b.begin.sliceInfo = b.rank.sliceInfo := rfl
@[simp] theorem Board.begin_commits (b : Board) : b.begin.commits = [] := rfl
@[simp] theorem Board.begin_cmds (b : Board) (ci : Nat) : (b.begin.cmds ci).word = (b.rank.cmds ci).word := rfl
@[simp] theorem Board.begin_visits (b : Board) (mask : Mask) : b.begin.visits mask = b.rank.visits mask := rfl
@[simp] theorem Board.begin_must (b : Board) (mask : Mask) (struct : Word) :
    b.begin.mustWriteStructure mask struct = b.rank.mustWriteStructure mask struct := rfl

theorem structured_nrCis (r : CmdRank) (struct : Word) : (r.structured mask struct).nrCis = r.nrCis := by
  unfold CmdRank.structured
  split <;> rfl

theorem structured_nrDpus (r : CmdRank) (struct : Word) : (r.structured mask struct).nrDpus = r.nrDpus := by
  unfold CmdRank.structured
  split <;> rfl

theorem structured_sliceInfo (r : CmdRank) (struct : Word) (ci : Nat) :
    (r.structured mask struct).sliceInfo ci =
      if r.visits mask ci then { r.sliceInfo ci with structureValue := struct } else r.sliceInfo ci := by
  unfold CmdRank.structured
  split <;> rfl

theorem structured_cmds (r : CmdRank) (struct : Word) :
    (r.structured mask struct).cmds = if r.mustWriteStructure mask struct then prepared mask struct else r.cmds := by
  unfold CmdRank.structured
  split <;> rfl

theorem structured_commits (r : CmdRank) (struct : Word) :
    (r.structured mask struct).commits =
      if r.mustWriteStructure mask struct then prepared mask struct :: r.commits else r.commits := by
  unfold CmdRank.structured
  split <;> rfl

theorem structured_visits (r : CmdRank) (struct : Word) : (r.structured mask struct).visits mask = r.visits mask := by
  funext ci
  simp only [CmdRank.visits, structured_nrCis]

/-- A structure and a frame, the same to all interfaces of the mask. -/
theorem port_execFrame (hci : ci < b.rank.nrCis) (mask : Mask) (struct frame : Word) :
    (b.after ((b.begin.structured mask struct).sent mask frame)).port ci =
      if mask.getLsbD ci then (b.port ci).frame (b.rank.mustWriteStructure mask struct) struct frame
      else (b.port ci).clear := by
  have hvisits : b.rank.visits mask ci = mask.getLsbD ci := visits_eq b.rank hci
  obtain hbit | hbit := Bool.eq_false_or_eq_true (mask.getLsbD ci) <;>
  obtain hmust | hmust := Bool.eq_false_or_eq_true (b.rank.mustWriteStructure mask struct) <;>
  simp [Board.port, Board.after, CmdRank.sent, CmdRank.logged, structured_sliceInfo, structured_commits, deliver, prepared,
    hvisits, hmust, hbit, Port.frame, Port.clear]

/-- The frames of one address: the others get what is left for them, unless the structure has gone out. -/
theorem port_addressed (hci : ci < b.rank.nrCis) (struct : Word) (word : Nat → Word) :
    let r := b.begin.addressed mask struct word
    (b.after (r.logged r.cmds)).port ci =
      if mask.getLsbD ci then (b.port ci).frame (b.rank.mustWriteStructure mask struct) struct (word ci)
      else if b.rank.mustWriteStructure mask struct then (b.port ci).clear else (b.port ci).resend := by
  have hvisits : b.rank.visits mask ci = mask.getLsbD ci := visits_eq b.rank hci
  obtain hbit | hbit := Bool.eq_false_or_eq_true (mask.getLsbD ci) <;>
  obtain hmust | hmust := Bool.eq_false_or_eq_true (b.rank.mustWriteStructure mask struct) <;>
  simp [Board.port, Board.after, CmdRank.addressed, CmdRank.framed, CmdRank.logged, structured_sliceInfo, structured_commits,
    structured_cmds, structured_visits, deliver, prepared, hvisits, hmust, hbit, Port.frame, Port.clear, Port.resend]

theorem alike_execFrame (b : Board) (mask : Mask) (struct frame : Word) :
    b.Alike (b.after ((b.begin.structured mask struct).sent mask frame)) := by
  refine ⟨structured_nrCis _ _, structured_nrDpus _ _, fun ci => ?_⟩
  show ((b.begin.structured mask struct).sliceInfo ci).enabledDpus = _
  rw [structured_sliceInfo]
  split <;> rfl

theorem alike_addressed (b : Board) (mask : Mask) (struct : Word) (word : Nat → Word) :
    b.Alike (b.after ((b.begin.addressed mask struct word).logged (b.begin.addressed mask struct word).cmds)) := by
  refine ⟨structured_nrCis _ _, structured_nrDpus _ _, fun ci => ?_⟩
  show ((b.begin.structured mask struct).sliceInfo ci).enabledDpus = _
  rw [structured_sliceInfo]
  split <;> rfl

/-- An interface that gets a frame has no target noted: the DPUs that answer are unknown. -/
theorem addressed_lacksTarget (mask : Mask) (struct : Word) {word : Nat → Word} (hword : ∀ ci, word ci ≠ ciEmpty) :
    (b.begin.addressed mask struct word).lacksTarget (b.begin.addressed mask struct word).cmds = true ↔
      ∃ ci < b.rank.nrCis, (b.port ci).info.sliceTarget = .none ∧
        (mask.getLsbD ci = true ∨ b.rank.mustWriteStructure mask struct = false ∧ (b.port ci).cmd ≠ ciEmpty) := by
  have hinfo : ∀ ci, ((b.begin.addressed mask struct word).sliceInfo ci).sliceTarget = (b.rank.sliceInfo ci).sliceTarget := by
    intro ci
    show ((b.begin.structured mask struct).sliceInfo ci).sliceTarget = _
    rw [structured_sliceInfo]
    split <;> rfl
  have hnone : ∀ (info : SliceInfo) (n : Nat), (info.selectedDpuMask n).isNone = decide (info.sliceTarget = .none) := by
    intro info n
    unfold SliceInfo.selectedDpuMask
    cases info.sliceTarget <;> rfl
  have hcmds : ∀ ci < b.rank.nrCis, ((b.begin.addressed mask struct word).cmds ci).word ≠ ciEmpty ↔
      (mask.getLsbD ci = true ∨ b.rank.mustWriteStructure mask struct = false ∧ (b.port ci).cmd ≠ ciEmpty) := by
    intro ci hci
    have hvisits : b.rank.visits mask ci = mask.getLsbD ci := visits_eq b.rank hci
    obtain hbit | hbit := Bool.eq_false_or_eq_true (mask.getLsbD ci) <;>
    obtain hmust | hmust := Bool.eq_false_or_eq_true (b.rank.mustWriteStructure mask struct) <;>
    simp [CmdRank.addressed, CmdRank.framed, structured_visits, structured_cmds, hvisits, hbit, hmust, hword, prepared,
      Board.port]
  have hcis : (b.begin.addressed mask struct word).nrCis = b.rank.nrCis := structured_nrCis _ _
  simp only [CmdRank.lacksTarget, List.any_eq_true, List.mem_range, hcis, Bool.and_eq_true, decide_eq_true_eq, hnone, hinfo]
  refine exists_congr fun ci => and_congr_right fun hci => ?_
  rw [hcmds ci hci, and_comm]
  rfl

end Ports

/-! ## What the rank notes -/

/-- The target that is noted, if one is, is that of the interface. -/
def targetNoted (noted : SliceTarget) (_ : Nat → Mask) (target : SliceTarget) (_ : Nat → Nat) : Prop :=
  noted ≠ .none → target = noted

namespace Port

/-- The notes of the rank are those of the interface, also if it gets once more what is left for it. -/
def Noted (p : Port) : Prop := Holds True targetNoted p.info p.chip.decoder p.cmd

variable {p : Port} {sent : Bool} {struct word : Word}

theorem Noted.clear (h : p.Noted) : p.clear.Noted := by
  refine ⟨h.struct, h.kept, ?_, ?_, (by decide : isNop ciEmpty = false)⟩
  · exact congrArg Decoder.structReg Decoder.execute_empty
  · show targetNoted _ _ (p.chip.decoder.execute ciEmpty).target (p.chip.decoder.execute ciEmpty).group
    rw [Decoder.execute_empty]
    exact h.kept

theorem Noted.resend (h : p.Noted) : p.resend.Noted := by
  have hdecoder : p.resend.chip.decoder = p.chip.decoder.execute p.cmd := p.chip.receive_decoder p.cmd
  unfold Noted
  rw [hdecoder]
  apply Holds.executed h.command
  · rw [h.structAgain]
    exact h.struct
  · exact h.keptAgain

/-- What is left writes nothing new the second time. -/
theorem Noted.resend_resend (h : p.Noted) : p.resend.resend.chip.memory = p.resend.chip.memory :=
  p.chip.receive_again h.structAgain

/-- The structure goes out, or the rank has it noted. -/
def Ready (p : Port) (sent : Bool) (struct : Word) : Prop := sent = true ∨ p.info.structureValue = struct

/-- The chip once it has the structure. -/
theorem Noted.structured (h : p.Noted) (hstruct : isStruct struct = true) (hready : p.Ready sent struct) :
    (if sent then p.chip.receive struct else p.chip).decoder = { p.chip.decoder with structReg := struct } ∧
      (if sent then p.chip.receive struct else p.chip).memory = p.chip.memory := by
  cases sent with
  | true =>
    constructor
    · show (p.chip.receive struct).decoder = _
      rw [Chip.receive_decoder, Decoder.execute_struct hstruct]
    · exact p.chip.receive_memory_none (writeOf_struct hstruct)
  | false =>
    have hnoted : p.info.structureValue = struct := hready.resolve_left (by decide)
    refine ⟨?_, rfl⟩
    obtain hreg | ⟨_, hempty⟩ := h.struct
    · show p.chip.decoder = _
      rw [← hnoted, hreg]
    · rw [← hnoted, hempty] at hstruct
      exact absurd hstruct (by decide)

theorem Noted.frame_decoder (h : p.Noted) (hstruct : isStruct struct = true) (hready : p.Ready sent struct)
    (hquiet : QuietFrame struct word) :
    (p.frame sent struct word).chip.decoder = { p.chip.decoder with structReg := struct } := by
  show (Chip.receive _ word).decoder = _
  rw [Chip.receive_decoder, (h.structured hstruct hready).1]
  exact hquiet.execute rfl

theorem Noted.frame_none (h : p.Noted) (hstruct : isStruct struct = true) (hready : p.Ready sent struct)
    (hnone : writeOf struct word = none) : (p.frame sent struct word).chip.memory = p.chip.memory := by
  obtain ⟨hdecoder, hmemory⟩ := h.structured hstruct hready
  rw [← hmemory]
  apply Chip.receive_memory_none
  rw [hdecoder]
  exact hnone

theorem Noted.frame_write (h : p.Noted) (hstruct : isStruct struct = true) (hready : p.Ready sent struct)
    (hne : word ≠ ciEmpty) {write : MemWrite} (hwrite : writeOf struct word = some write) :
    (p.frame sent struct word).chip.memory = p.chip.memory.write p.chip.decoder.selects write := by
  obtain ⟨hdecoder, hmemory⟩ := h.structured hstruct hready
  show (Chip.receive _ word).memory = _
  have hwrite' : writeOf (if sent then p.chip.receive struct else p.chip).decoder.structReg word = some write := by
    rw [hdecoder]
    exact hwrite
  rw [Chip.receive_memory_some _ hwrite' hne, hdecoder, hmemory]
  rfl

/-- One DPU is selected and answers. -/
theorem Noted.frame_read (h : p.Noted) (hstruct : isStruct struct = true) (hready : p.Ready sent struct)
    (hne : word ≠ ciEmpty) {dpu : Nat} (htarget : p.chip.decoder.target = .dpu dpu) {read : MemRead}
    (hread : readOf struct word = some read) :
    (p.frame sent struct word).chip.result = read.answer (p.chip.memory dpu) := by
  obtain ⟨hdecoder, hmemory⟩ := h.structured hstruct hready
  show (Chip.receive _ word).result = _
  rw [Chip.receive, if_neg hne]
  simp only [Chip.answering, hdecoder, hmemory, htarget, hread]

theorem Noted.frame (h : p.Noted) (hstruct : isStruct struct = true) (hready : p.Ready sent struct)
    (hquiet : QuietFrame struct word) : (p.frame sent struct word).Noted := by
  have hdecoder := h.frame_decoder hstruct hready hquiet
  have hagain : (p.frame sent struct word).chip.decoder.execute word = (p.frame sent struct word).chip.decoder :=
    hquiet.execute (by rw [hdecoder])
  refine ⟨.inl ?_, ?_, ?_, ?_, hquiet.command⟩
  · rw [hdecoder]
    rfl
  · rw [hdecoder]
    exact h.kept
  · exact congrArg Decoder.structReg hagain
  · show targetNoted _ _ ((p.frame sent struct word).chip.decoder.execute word).target _
    rw [hagain, hdecoder]
    exact h.kept

/-- The structure does not change the second time either. -/
theorem Noted.frame_again (h : p.Noted) (hstruct : isStruct struct = true) (hready : p.Ready sent struct)
    (hquiet : QuietFrame struct word) :
    (p.frame sent struct word).resend.chip.memory = (p.frame sent struct word).chip.memory := by
  apply Chip.receive_again
  rw [(h.structured hstruct hready).1]
  exact congrArg Decoder.structReg (hquiet.execute rfl)

/-- What is left for the interface may go out again: it has been executed, by DPUs that are known. -/
structure Settled (p : Port) : Prop where
  noted : p.Noted
  quiet : p.resend.chip.memory = p.chip.memory
  heard : p.cmd ≠ ciEmpty → p.info.sliceTarget ≠ .none

theorem Noted.clear_settled (h : p.Noted) : p.clear.Settled :=
  ⟨h.clear, congrArg Chip.memory p.chip.receive_empty, fun hne => absurd rfl hne⟩

theorem Noted.resend_settled (h : p.Noted) (hheard : p.cmd ≠ ciEmpty → p.info.sliceTarget ≠ .none) : p.resend.Settled :=
  ⟨h.resend, h.resend_resend, hheard⟩

/-- One DPU of the interface is selected, and noted to be. -/
structure At (p : Port) (dpu : Nat) : Prop where
  info : p.info.sliceTarget = .dpu dpu
  decoder : p.chip.decoder.target = .dpu dpu

theorem Noted.at (h : p.Noted) {dpu : Nat} (htarget : p.info.sliceTarget = .dpu dpu) : p.At dpu :=
  ⟨htarget, (h.kept (by rw [htarget]; exact fun hnone => nomatch hnone)).trans htarget⟩

theorem At.selects {dpu : Nat} (h : p.At dpu) : p.chip.decoder.selects = fun dpu' => dpu' == dpu := by
  funext dpu'
  simp only [Decoder.selects, h.decoder]

theorem At.frame {dpu : Nat} (h : p.At dpu) (hnoted : p.Noted) (hstruct : isStruct struct = true)
    (hready : p.Ready sent struct) (hquiet : QuietFrame struct word) : (p.frame sent struct word).At dpu :=
  ⟨h.info, by rw [hnoted.frame_decoder hstruct hready hquiet]; exact h.decoder⟩

/-- The selection of a DPU. -/
theorem Noted.select (h : p.Noted) {dpu : Nat} (hdpu : dpu < 256) (hready : p.Ready sent oneByteStruct) :
    let p' := (p.noteTarget (.dpu dpu)).frame sent oneByteStruct (selectDpuFrame (BitVec.ofNat 64 dpu))
    p'.Noted ∧ p'.At dpu ∧ p'.chip.memory = p.chip.memory := by
  intro p'
  have hstruct : isStruct oneByteStruct = true := by decide
  have htyped : (SliceTarget.dpu dpu).Typed := hdpu
  have hne : SliceTarget.dpu dpu ≠ .none := fun hnone => nomatch hnone
  obtain ⟨hdecoder, hmemory⟩ := h.structured hstruct hready
  have hselected : p'.chip.decoder = { p.chip.decoder with structReg := oneByteStruct, target := .dpu dpu } := by
    show (Chip.receive (if sent then p.chip.receive oneByteStruct else p.chip) (selectFrame (.dpu dpu))).decoder = _
    rw [Chip.receive_decoder, hdecoder, execute_selectFrame htyped hne (d := { p.chip.decoder with structReg := oneByteStruct }) rfl]
  have hagain : p'.chip.decoder.execute p'.cmd = p'.chip.decoder := by
    rw [hselected]
    exact execute_selectFrame htyped hne rfl
  have hkept : targetNoted p'.info.sliceTarget p'.info.dpusPerGroup p'.chip.decoder.target p'.chip.decoder.group := by
    rw [hselected]
    exact fun _ => rfl
  refine ⟨⟨.inl ?_, hkept, ?_, ?_, isNop_selectFrame htyped⟩, ⟨rfl, ?_⟩, ?_⟩
  · rw [hselected]
    rfl
  · rw [hagain]
  · rw [hagain]
    exact hkept
  · rw [hselected]
  · show (Chip.receive (if sent then p.chip.receive oneByteStruct else p.chip) _).memory = _
    rw [Chip.receive_memory_none, hmemory]
    rw [hdecoder]
    exact writeOf_of_byte (by decide : byteOf oneByteStruct 0 ≠ 0xFF)

end Port

end DpuBackend.Ufi
