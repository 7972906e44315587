import DpuBackend.Ufi.Confinement
import DpuBackend.Ufi.ControlInterface

/-
  What the calls of the UFI layer keep of the copies a rank has of its interfaces.

  `Holds` says it of one interface: the structure register is the one noted, and a
  relation `K`, left open here, holds between the noted target and groups
  and those of the interface. All of it still holds if the interface gets once more what
  is left for it in the command buffer, since the calls that do not write the whole
  buffer send that too.

  `Inv` carries this through a call. The lemmas are one for each function of `Commands`;
  a command that fails keeps the invariant when its packet is delivered all the same, so
  the triples promise it of an error only then (`Exchange.Late`).
-/

namespace DpuBackend.Ufi

open DpuBackend.Lib

/-- A relation between the noted target and groups of an interface and its own. -/
abbrev Kept := Nat → SliceTarget → (Nat → Mask) → SliceTarget → (Nat → Nat) → Prop

/-- The copy `info` of an interface with the decoder `d`, for which `cmd` is left in the buffer.
While the copy is `fresh`, nothing may be noted yet of the structure register. -/
structure Holds (fresh : Prop) (K : SliceTarget → (Nat → Mask) → SliceTarget → (Nat → Nat) → Prop) (info : SliceInfo)
    (d : Decoder) (cmd : Word) : Prop where
  struct : info.structureValue = d.structReg ∨ fresh ∧ info.structureValue = ciEmpty
  kept : K info.sliceTarget info.dpusPerGroup d.target d.group
  structAgain : (d.execute cmd).structReg = d.structReg
  keptAgain : K info.sliceTarget info.dpusPerGroup (d.execute cmd).target (d.execute cmd).group
  command : isNop cmd = false

/-- The interface has just executed what is left in the buffer. -/
theorem Holds.executed {fresh : Prop} {K : SliceTarget → (Nat → Mask) → SliceTarget → (Nat → Nat) → Prop}
    {info : SliceInfo} {d : Decoder} {cmd : Word} (hcommand : isNop cmd = false)
    (hstruct : info.structureValue = (d.execute cmd).structReg ∨ fresh ∧ info.structureValue = ciEmpty)
    (hkept : K info.sliceTarget info.dpusPerGroup (d.execute cmd).target (d.execute cmd).group) :
    Holds fresh K info (d.execute cmd) cmd := by
  refine ⟨hstruct, hkept, ?_, ?_, hcommand⟩
  · rw [Decoder.execute_execute]
  · rw [Decoder.execute_execute]
    exact hkept

/-- A call, from the wire it finds. -/
structure Exchange where
  fresh : Prop
  base : Wire
  answers : Nat → Answer
  nrCis : Nat
  nrDpus : Nat
  nrCis_le : nrCis ≤ 8

namespace Exchange

variable (c : Exchange)

/-- The wire in the course of the call. -/
def wire (s : CmdRank) : Wire := c.base.run c.nrCis c.answers s.commits

structure Runs (s : CmdRank) : Prop where
  nrCis : s.nrCis = c.nrCis
  nrDpus : s.nrDpus = c.nrDpus
  outcome : s.outcome = fun k => (c.answers k).outcome
  clock : s.clock = s.commits.length
  color : ∀ ci < c.nrCis, (c.wire s).color.getLsbD ci = ((c.wire s).ci ci).color

structure Inv (K : Kept) (s : CmdRank) : Prop where
  runs : c.Runs s
  cis : ∀ ci < c.nrCis, Holds c.fresh (K ci) (s.sliceInfo ci) ((c.wire s).ci ci).decoder (s.cmds ci).word

/-- The invariant, if every packet is delivered. -/
def Late (K : Kept) (s : CmdRank) : Prop := Delivered c.answers → c.Inv K s

/-- The interfaces of the mask hold the structure. -/
def Written (mask : Mask) (struct : Word) (s : CmdRank) : Prop :=
  ∀ ci < c.nrCis, mask.getLsbD ci = true → ((c.wire s).ci ci).decoder.structReg = struct

end Exchange

variable {c : Exchange} {K L : Kept} {r : CmdRank} {mask : Mask}

/-! ## Commands -/

/-- The rank once a packet has been handed to the driver. -/
def CmdRank.logged (r : CmdRank) (packet : Packet) : CmdRank :=
  { r with clock := r.clock + 1, commits := packet :: r.commits }

theorem ciCommitCommands_ends {answers : Nat → Answer} (houtcome : r.outcome = fun k => (answers k).outcome)
    (packet : Packet) :
    Triple (fun s => s = r) (ciCommitCommands packet) (fun _ s => s = r.logged packet ∧ answers r.clock = .done)
      fun _ s => s = r.logged packet ∧ answers r.clock ≠ .done := by
  refine triple_get fun s hs => ?_
  subst hs
  have hnow : s.outcome s.clock = (answers s.clock).outcome := congrFun houtcome _
  cases hanswer : answers s.clock with
  | done =>
    rw [hnow, hanswer]
    intro t ht
    subst ht
    exact ⟨rfl, rfl⟩
  | failed e reached =>
    rw [hnow, hanswer]
    intro t ht
    subst ht
    exact ⟨rfl, fun h => nomatch h⟩

theorem execCmd_ends {answers : Nat → Answer} (houtcome : r.outcome = fun k => (answers k).outcome)
    (addSelectMask : Bool) (packet : Packet) :
    Triple (fun s => s = r) (execCmd addSelectMask packet) (fun _ s => s = r.logged packet ∧ answers r.clock = .done)
      fun _ s => s = r ∧ addSelectMask = true ∨ s = r.logged packet ∧ answers r.clock ≠ .done := by
  refine triple_get fun s hs => ?_
  subst hs
  refine triple_ite (fun hlack => triple_throw fun t ht => .inl ⟨ht, ?_⟩) fun _ => ?_
  · exact (Bool.and_eq_true_iff.mp hlack).1
  · exact (ciCommitCommands_ends houtcome packet).weaken (fun _ h => h) (fun _ _ h => h) fun _ _ h => .inr h

namespace Exchange

theorem Runs.logged (h : c.Runs r) {packet : Packet} (hreach : ∀ ci, (c.answers r.clock).reaches ci = true)
    (hnop : ∀ ci < c.nrCis, isNop (packet ci).word = false) : c.Runs (r.logged packet) := by
  refine ⟨h.nrCis, h.nrDpus, h.outcome, congrArg (· + 1) h.clock, fun ci hci => ?_⟩
  rw [h.clock] at hreach
  exact Wire.exec_color c.nrCis_le hci (hreach ci) (hnop ci hci) (h.color ci hci)

/-- The decoders after a packet. -/
theorem decoder_logged (h : c.Runs r) {packet : Packet} (hreach : ∀ ci, (c.answers r.clock).reaches ci = true) (ci : Nat) :
    ((c.wire (r.logged packet)).ci ci).decoder = ((c.wire r).ci ci).decoder.execute (packet ci).word := by
  rw [h.clock] at hreach
  exact Wire.exec_decoder (hreach ci)

/-- A packet, and what holds of each interface once it has executed its word. -/
theorem Runs.inv_logged (h : c.Runs r) {packet : Packet} (hreach : ∀ ci, (c.answers r.clock).reaches ci = true)
    (hnop : ∀ ci < c.nrCis, isNop (packet ci).word = false)
    (hafter : ∀ ci < c.nrCis, Holds c.fresh (K ci) (r.sliceInfo ci)
      (((c.wire r).ci ci).decoder.execute (packet ci).word) (r.cmds ci).word) : c.Inv K (r.logged packet) := by
  refine ⟨h.logged hreach hnop, fun ci hci => ?_⟩
  rw [decoder_logged h hreach]
  exact hafter ci hci

theorem execCmd_inv (h : c.Runs r) {packet : Packet} (addSelectMask : Bool)
    (hnop : ∀ ci < c.nrCis, isNop (packet ci).word = false)
    (hafter : ∀ ci < c.nrCis, Holds c.fresh (K ci) (r.sliceInfo ci)
      (((c.wire r).ci ci).decoder.execute (packet ci).word) (r.cmds ci).word) :
    Triple (fun s => s = r) (execCmd addSelectMask packet)
      (fun _ s => c.Inv K s ∧ s = r.logged packet ∧ c.answers r.clock = .done)
      fun _ s => s = r ∧ addSelectMask = true ∨ c.answers r.clock ≠ .done ∧ c.Late K s := by
  refine (execCmd_ends h.outcome addSelectMask packet).weaken (fun _ h => h) ?_ ?_
  · rintro _ s ⟨hs, hdone⟩
    subst hs
    refine ⟨h.inv_logged (fun ci => ?_) hnop hafter, rfl, hdone⟩
    rw [hdone]
    rfl
  · rintro _ s (hs | ⟨hs, hfailed⟩)
    · exact .inl hs
    · subst hs
      exact .inr ⟨hfailed, fun hdelivered => h.inv_logged (hdelivered r.clock) hnop hafter⟩

/-- The buffer goes out as it is: nothing changes. -/
theorem execCmds_inv (h : c.Inv K r) (addSelectMask : Bool) :
    Triple (fun s => s = r) (execCmd addSelectMask r.cmds)
      (fun _ s => c.Inv K s ∧ s = r.logged r.cmds ∧ c.answers r.clock = .done) fun _ s => c.Late K s := by
  refine (execCmd_inv h.runs addSelectMask (fun ci hci => (h.cis ci hci).command) fun ci hci => ?_).weaken
    (fun _ h => h) (fun _ _ h => h) ?_
  · have hci := h.cis ci hci
    apply Holds.executed hci.command
    · rw [hci.structAgain]
      exact hci.struct
    · exact hci.keptAgain
  · rintro _ s (⟨hs, _⟩ | ⟨_, hlate⟩)
    · exact fun _ => hs ▸ h
    · exact hlate

/-- The structures that are held stay. -/
theorem Written.logged (hwritten : c.Written mask struct r) (h : c.Inv K r)
    (hreach : ∀ ci, (c.answers r.clock).reaches ci = true) : c.Written mask struct (r.logged r.cmds) := by
  intro ci hci hbit
  rw [decoder_logged h.runs hreach, (h.cis ci hci).structAgain]
  exact hwritten ci hci hbit

/-- A word for the interfaces of the mask. -/
theorem prepareAndExec_ends (h : c.Runs r) {word : Word} (hnop : isNop word = false)
    (hafter : ∀ ci < c.nrCis, Holds c.fresh (K ci) (r.sliceInfo ci)
      (((c.wire r).ci ci).decoder.execute (prepared mask word ci).word) (prepared mask word ci).word) :
    Triple (fun s => s = r) (prepareAndExec mask word)
      (fun _ s => c.Inv K s ∧
        ∀ ci, ((c.wire s).ci ci).decoder = ((c.wire r).ci ci).decoder.execute (prepared mask word ci).word)
      fun _ s => c.answers r.clock ≠ .done ∧ c.Late K s := by
  have hprepared : c.Runs { r with cmds := prepared mask word } := ⟨h.nrCis, h.nrDpus, h.outcome, h.clock, h.color⟩
  refine triple_bind (R := fun _ s => s = { r with cmds := prepared mask word }) (triple_modify fun s hs => ?_) fun _ => ?_
  · rw [hs]
  · refine triple_get fun s hs => ?_
    subst hs
    refine (execCmd_inv hprepared false (fun ci _ => ?_) hafter).weaken (fun _ h => h) ?_ ?_
    · show isNop (if mask.getLsbD ci then word else ciEmpty) = false
      split
      · exact hnop
      · decide
    · intro _ s hs
      obtain ⟨hinv, hs, hdone⟩ := hs
      have hreach : ∀ ci, (c.answers r.clock).reaches ci = true := by
        rw [hdone]
        exact fun _ => rfl
      subst hs
      exact ⟨hinv, decoder_logged hprepared hreach⟩
    · intro _ s hs
      obtain ⟨_, hfalse⟩ | hfailed := hs
      · cases hfalse
      · exact hfailed

/-- A command that is no structure, and what it does to the interfaces of the mask. -/
theorem prepareAndExec_inv (h : c.Inv K r) {word : Word} (hnop : isNop word = false) (hword : isStruct word = false)
    (hin : ∀ ci < c.nrCis, mask.getLsbD ci = true → ∀ t g, K ci t g ((c.wire r).ci ci).decoder.target
      ((c.wire r).ci ci).decoder.group → L ci t g (((c.wire r).ci ci).decoder.execute word).target
        (((c.wire r).ci ci).decoder.execute word).group)
    (hout : ∀ ci < c.nrCis, mask.getLsbD ci = false → ∀ t g T G, K ci t g T G → L ci t g T G) :
    Triple (fun s => s = r) (prepareAndExec mask word) (fun _ s => c.Inv L s) fun _ s => c.Late L s := by
  refine (prepareAndExec_ends (K := L) h.runs hnop fun ci hci => ?_).weaken (fun _ h => h) (fun _ _ h => h.1)
    fun _ _ h => h.2
  have hold := h.cis ci hci
  cases hbit : mask.getLsbD ci with
  | true =>
    have hprepared : (prepared mask word ci).word = word := by simp [prepared, hbit]
    rw [hprepared]
    apply Holds.executed hnop
    · rw [Decoder.execute_structReg hword]
      exact hold.struct
    · exact hin ci hci hbit _ _ hold.kept
  | false =>
    have hprepared : (prepared mask word ci).word = ciEmpty := by simp [prepared, hbit]
    rw [hprepared]
    apply Holds.executed (by decide)
    · rw [Decoder.execute_empty]
      exact hold.struct
    · rw [Decoder.execute_empty]
      exact hout ci hci hbit _ _ _ _ hold.kept

/-! ## Structures and frames -/

/-- A structure that is noted goes out if some interface of the mask lacks it. -/
theorem execWriteStructure_inv (h : c.Inv K r) {struct : Word} (hstruct : isStruct struct = true) :
    Triple (fun s => s = r) (execWriteStructure mask struct) (fun _ s => c.Inv K s ∧ c.Written mask struct s)
      fun _ s => r.mustWriteStructure mask struct = true ∧ c.answers r.clock ≠ .done ∧ c.Late K s := by
  have hset : c.Runs (r.setStructure mask struct) :=
    ⟨h.runs.nrCis, h.runs.nrDpus, h.runs.outcome, h.runs.clock, h.runs.color⟩
  have hvisits : ∀ ci < c.nrCis, r.visits mask ci = mask.getLsbD ci := by
    intro ci hci
    have hlt : ci < r.nrCis := h.runs.nrCis ▸ hci
    simp [CmdRank.visits, hlt]
  refine triple_get fun s hs => ?_
  subst hs
  refine triple_bind (R := fun _ t => t = s.setStructure mask struct) (fun _ _ => rfl) fun _ => ?_
  refine triple_ite (fun hmust => ?_) fun hcached => triple_pure fun t ht => ?_
  · refine (prepareAndExec_ends (K := K) hset (isNop_of_isStruct hstruct) fun ci hci => ?_).weaken (fun _ h => h) ?_
      fun _ _ hfailed => ⟨hmust, hfailed⟩
    · have hold := h.cis ci hci
      cases hbit : mask.getLsbD ci with
      | true =>
        have hprepared : (prepared mask struct ci).word = struct := by simp [prepared, hbit]
        have hinfo : (s.setStructure mask struct).sliceInfo ci = { s.sliceInfo ci with structureValue := struct } := by
          simp [CmdRank.setStructure, hvisits ci hci, hbit]
        rw [hprepared, hinfo]
        apply Holds.executed (isNop_of_isStruct hstruct)
        · rw [Decoder.execute_struct hstruct]
          exact .inl rfl
        · rw [Decoder.execute_struct hstruct]
          exact hold.kept
      | false =>
        have hprepared : (prepared mask struct ci).word = ciEmpty := by simp [prepared, hbit]
        have hinfo : (s.setStructure mask struct).sliceInfo ci = s.sliceInfo ci := by
          simp [CmdRank.setStructure, hvisits ci hci, hbit]
        rw [hprepared, hinfo]
        apply Holds.executed (by decide)
        · rw [Decoder.execute_empty]
          exact hold.struct
        · rw [Decoder.execute_empty]
          exact hold.kept
    · intro _ t ht
      obtain ⟨hinv, hdecoder⟩ := ht
      refine ⟨hinv, fun ci hci hbit => ?_⟩
      have hprepared : (prepared mask struct ci).word = struct := by simp [prepared, hbit]
      rw [hdecoder ci, hprepared, Decoder.execute_struct hstruct]
  · -- every interface of the mask has the structure noted
    have hsame : ∀ ci < c.nrCis, mask.getLsbD ci = true → (s.sliceInfo ci).structureValue = struct := by
      intro ci hci hbit
      by_contra hne
      exact hcached (mustWriteStructure_iff.mpr ⟨ci, h.runs.nrCis ▸ hci, hbit, hne⟩)
    have hinfo : ∀ ci < c.nrCis, (s.setStructure mask struct).sliceInfo ci = s.sliceInfo ci := by
      intro ci hci
      cases hbit : mask.getLsbD ci with
      | true => simp [CmdRank.setStructure, hvisits ci hci, hbit, ← hsame ci hci hbit]
      | false => simp [CmdRank.setStructure, hvisits ci hci, hbit]
    subst ht
    refine ⟨⟨hset, fun ci hci => ?_⟩, fun ci hci hbit => ?_⟩
    · rw [hinfo ci hci]
      exact h.cis ci hci
    · obtain hreg | ⟨_, hempty⟩ := (h.cis ci hci).struct
      · exact hreg.symm.trans (hsame ci hci hbit)
      · rw [hsame ci hci hbit] at hempty
        rw [hempty] at hstruct
        exact absurd hstruct (by decide)

/-- A structure and a frame. An error before the frame leaves what was kept before. -/
theorem execFrame_inv (h : c.Inv K r) {struct frame : Word} (hstruct : isStruct struct = true)
    (hnop : isNop frame = false) (hframe : isStruct frame = false)
    (hin : ∀ ci < c.nrCis, mask.getLsbD ci = true → ∀ t g (d : Decoder), d.structReg = struct →
      K ci t g d.target d.group → L ci t g (d.execute frame).target (d.execute frame).group)
    (hout : ∀ ci < c.nrCis, mask.getLsbD ci = false → ∀ t g T G, K ci t g T G → L ci t g T G) :
    Triple (fun s => s = r) (execFrame mask struct frame) (fun _ s => c.Inv L s)
      fun _ s => c.Late L s ∨ r.mustWriteStructure mask struct = true ∧ c.answers r.clock ≠ .done ∧ c.Late K s := by
  refine triple_bind ((execWriteStructure_inv h hstruct).weaken (fun _ h => h) (fun _ _ h => h) fun _ _ h => .inr h)
    fun _ => triple_each fun s hs => ?_
  obtain ⟨hinv, hwritten⟩ := hs
  refine (prepareAndExec_inv hinv hnop hframe (fun ci hci hbit t g hkept => ?_) hout).weaken (fun _ h => h)
    (fun _ _ h => h) fun _ _ h => .inl h
  exact hin ci hci hbit t g _ (hwritten ci hci hbit) hkept

/-! ## Words that change no target and no group -/

theorem execFrame_keeps {struct frame : Word} (hstruct : isStruct struct = true) (hframe : QuietFrame struct frame) :
    Triple (fun s => c.Inv K s) (execFrame mask struct frame) (fun _ s => c.Inv K s) fun _ s => c.Late K s := by
  refine triple_each fun s hs => ?_
  refine (execFrame_inv hs hstruct hframe.command hframe.noStruct ?_ ?_).weaken (fun _ h => h) (fun _ _ h => h) ?_
  · intro ci _ _ t g d hreg hkept
    rw [hframe.execute hreg]
    exact hkept
  · exact fun _ _ _ _ _ _ _ hkept => hkept
  · intro _ s hs
    obtain hlate | ⟨_, _, hlate⟩ := hs
    · exact hlate
    · exact hlate

theorem execWriteStructure_keeps {struct : Word} (hstruct : isStruct struct = true) :
    Triple (fun s => c.Inv K s) (execWriteStructure mask struct) (fun _ s => c.Inv K s ∧ c.Written mask struct s)
      fun _ s => c.Late K s :=
  triple_each fun _ hs => (execWriteStructure_inv hs hstruct).weaken (fun _ h => h) (fun _ _ h => h) fun _ _ h => h.2.2

/-- Frames written into the buffer under the structure their interfaces hold. -/
theorem writeCmds_keeps {struct : Word} {frame : Nat → Word} (hframe : ∀ ci, QuietFrame struct (frame ci))
    {E : CmdError → CmdRank → Prop} :
    Triple (fun s => c.Inv K s ∧ c.Written mask struct s) (writeCmds mask frame)
      (fun _ s => c.Inv K s ∧ c.Written mask struct s) E := by
  refine triple_modify fun s hs => ?_
  obtain ⟨h, hwritten⟩ := hs
  refine ⟨⟨⟨h.runs.nrCis, h.runs.nrDpus, h.runs.outcome, h.runs.clock, h.runs.color⟩, fun ci hci => ?_⟩, hwritten⟩
  have hold := h.cis ci hci
  have hlt : ci < s.nrCis := h.runs.nrCis ▸ hci
  cases hbit : mask.getLsbD ci with
  | true =>
    have hvisits : s.visits mask ci = true := by simp [CmdRank.visits, hlt, hbit]
    have hsame := (hframe ci).execute (hwritten ci hci hbit)
    show Holds c.fresh (K ci) (s.sliceInfo ci) ((c.wire s).ci ci).decoder
      (if s.visits mask ci = true then (⟨frame ci, true⟩ : Cell) else s.cmds ci).word
    rw [if_pos hvisits]
    refine ⟨hold.struct, hold.kept, ?_, ?_, (hframe ci).command⟩
    · rw [hsame]
    · rw [hsame]
      exact hold.kept
  | false =>
    have hvisits : ¬s.visits mask ci = true := by simp [CmdRank.visits, hbit]
    show Holds c.fresh (K ci) (s.sliceInfo ci) ((c.wire s).ci ci).decoder
      (if s.visits mask ci = true then (⟨frame ci, true⟩ : Cell) else s.cmds ci).word
    rw [if_neg hvisits]
    exact hold

/-- The buffer goes out, and the structures that are held stay. -/
theorem execCmds_keeps {struct : Word} (addSelectMask : Bool) :
    Triple (fun s => c.Inv K s ∧ c.Written mask struct s) (do let r ← get; execCmd addSelectMask r.cmds)
      (fun _ s => c.Inv K s ∧ c.Written mask struct s) fun _ s => c.Late K s := by
  refine triple_get fun s hs => ?_
  obtain ⟨h, hwritten⟩ := hs
  refine (execCmds_inv h addSelectMask).weaken (fun _ h => h) ?_ fun _ _ h => h
  intro _ t ht
  obtain ⟨hinv, ht, hdone⟩ := ht
  refine ⟨hinv, ?_⟩
  rw [ht]
  apply hwritten.logged h
  rw [hdone]
  exact fun _ => rfl

theorem execNextFrames_keeps {struct : Word} {frame : Nat → Word} (hframe : ∀ ci, QuietFrame struct (frame ci)) :
    Triple (fun s => c.Inv K s ∧ c.Written mask struct s) (execNextFrames mask frame)
      (fun _ s => c.Inv K s ∧ c.Written mask struct s) fun _ s => c.Late K s :=
  triple_bind (writeCmds_keeps hframe) fun _ => execCmds_keeps false

theorem execOwnFrames_keeps {struct : Word} {frame : Nat → Word} (hstruct : isStruct struct = true)
    (hframe : ∀ ci, QuietFrame struct (frame ci)) :
    Triple (fun s => c.Inv K s) (execOwnFrames mask struct frame) (fun _ s => c.Inv K s ∧ c.Written mask struct s)
      fun _ s => c.Late K s :=
  triple_bind (execWriteStructure_keeps hstruct) fun _ => execNextFrames_keeps hframe

theorem memoryWrite_keeps {struct : Word → Word} {frame : Word → Word → Word} {src : Nat → Nat → Word}
    {offset len : BitVec 16} (hstruct : ∀ addr, isStruct (struct addr) = true)
    (hframe : ∀ data addr, QuietFrame (struct addr) (frame data addr)) :
    Triple (fun s => c.Inv K s) (memoryWrite mask struct frame src offset len) (fun _ s => c.Inv K s)
      fun _ s => c.Late K s := by
  refine triple_forM (I := fun _ s => c.Inv K s) fun k _ _ => ?_
  refine triple_bind (execWriteStructure_keeps (hstruct _)) fun _ => ?_
  refine triple_bind (writeCmds_keeps fun ci => hframe _ _) fun _ => ?_
  exact (execCmds_keeps true).post fun _ _ h => h.1

/-! ## Selections -/

section Selections

variable {M : Kept} {want : SliceInfo → Option SliceTarget} {target : SliceTarget}

/-- New targets are noted, and nothing else. -/
theorem Inv.setTargets (h : c.Inv K r)
    (hmid : ∀ ci < c.nrCis, ∀ g T G, K ci (r.sliceInfo ci).sliceTarget g T G →
      M ci ((r.setTargets want mask).sliceInfo ci).sliceTarget g T G) : c.Inv M (r.setTargets want mask) := by
  refine ⟨⟨h.runs.nrCis, h.runs.nrDpus, h.runs.outcome, h.runs.clock, h.runs.color⟩, fun ci hci => ?_⟩
  have hold := h.cis ci hci
  have hinfo : ((r.setTargets want mask).sliceInfo ci).structureValue = (r.sliceInfo ci).structureValue ∧
      ((r.setTargets want mask).sliceInfo ci).dpusPerGroup = (r.sliceInfo ci).dpusPerGroup := by
    simp only [CmdRank.setTargets]
    split
    · exact ⟨rfl, rfl⟩
    · exact ⟨rfl, rfl⟩
  refine ⟨?_, ?_, hold.structAgain, ?_, hold.command⟩
  · rw [hinfo.1]
    exact hold.struct
  · rw [hinfo.2]
    exact hmid ci hci _ _ _ hold.kept
  · rw [hinfo.2]
    exact hmid ci hci _ _ _ hold.keptAgain

/-- The interfaces of the mask are sent the selection of `target`. -/
theorem execSelect_inv (h : c.Inv M r) (htyped : target.Typed) (hne : target ≠ .none)
    (hin : ∀ ci < c.nrCis, mask.getLsbD ci = true → ∀ t g T G, M ci t g T G → L ci t g target G)
    (hout : ∀ ci < c.nrCis, mask.getLsbD ci = false → ∀ t g T G, M ci t g T G → L ci t g T G) :
    Triple (fun s => s = r) (execFrame mask (selectStruct target) (selectFrame target)) (fun _ s => c.Inv L s)
      fun _ s => c.Late L s ∨
        r.mustWriteStructure mask (selectStruct target) = true ∧ c.answers r.clock ≠ .done ∧ c.Late M s := by
  refine execFrame_inv h (isStruct_selectStruct hne) (isNop_selectFrame htyped) isStruct_selectFrame ?_ hout
  intro ci hci hbit t g d hreg hkept
  rw [execute_selectFrame htyped hne hreg]
  exact hin ci hci hbit t g _ _ hkept

theorem selectUncached_inv (h : c.Inv K r) (htyped : target.Typed) (hne : target ≠ .none)
    (hmid : ∀ ci < c.nrCis, ∀ g T G, K ci (r.sliceInfo ci).sliceTarget g T G →
      M ci ((r.setTargets (fun _ => some target) mask).sliceInfo ci).sliceTarget g T G)
    (hin : ∀ ci < c.nrCis, mask.getLsbD ci = true → ∀ t g T G, M ci t g T G → L ci t g target G)
    (hout : ∀ ci < c.nrCis, mask.getLsbD ci = false → ∀ t g T G, M ci t g T G → L ci t g T G) :
    Triple (fun s => s = r) (selectUncached target mask) (fun _ s => c.Inv L s)
      fun _ s => c.Late L s ∨ (r.setTargets (fun _ => some target) mask).mustWriteStructure mask (selectStruct target) = true ∧
        c.answers r.clock ≠ .done ∧ c.Late M s := by
  refine triple_bind (R := fun _ s => s = r.setTargets (fun _ => some target) mask) (triple_modify fun s hs => ?_) fun _ => ?_
  · rw [hs]
  · exact execSelect_inv (h.setTargets hmid) htyped hne hin hout

/-- `ufi_select_group`, `ufi_select_dpu`, `ufi_select_dpu_even_disabled`. -/
theorem selectOne_inv (h : c.Inv K r) (htyped : target.Typed) (hne : target ≠ .none)
    (hmid : ∀ ci < c.nrCis, ∀ g T G, K ci (r.sliceInfo ci).sliceTarget g T G →
      M ci ((r.setTargets want mask).sliceInfo ci).sliceTarget g T G)
    (hin : ∀ ci < c.nrCis, (r.selected want mask).getLsbD ci = true → ∀ t g T G, M ci t g T G → L ci t g target G)
    (hout : ∀ ci < c.nrCis, (r.selected want mask).getLsbD ci = false → ∀ t g T G, M ci t g T G → L ci t g T G)
    (hnone : (∀ ci < c.nrCis, r.retargets want mask ci = false) → ∀ ci < c.nrCis, ∀ g T G,
      K ci (r.sliceInfo ci).sliceTarget g T G → L ci ((r.setTargets want mask).sliceInfo ci).sliceTarget g T G) :
    Triple (fun s => s = r) (selectOne want target mask) (fun _ s => c.Inv L s)
      fun _ s => c.Late L s ∨ (∃ ci < c.nrCis, r.retargets want mask ci = true) ∧
        (r.setTargets want mask).mustWriteStructure (r.selected want mask) (selectStruct target) = true ∧
        c.answers r.clock ≠ .done ∧ c.Late M s := by
  refine triple_get fun s hs => ?_
  subst hs
  have hcis : s.nrCis = c.nrCis := h.runs.nrCis
  refine triple_bind (R := fun _ t => t = s.setTargets want mask) (fun _ _ => rfl) fun _ => ?_
  refine triple_ite (fun hany => ?_) fun hno => triple_pure fun t ht => ?_
  · refine (execSelect_inv (h.setTargets hmid) htyped hne hin hout).weaken (fun _ h => h) (fun _ _ h => h) ?_
    intro _ t ht
    refine ht.imp_right fun ⟨hmust, hfailed⟩ => ⟨?_, hmust, hfailed⟩
    obtain ⟨ci, hci, hre⟩ := List.any_eq_true.mp hany
    exact ⟨ci, hcis ▸ List.mem_range.mp hci, hre⟩
  · subst ht
    apply h.setTargets
    apply hnone
    intro ci hci
    cases hre : s.retargets want mask ci with
    | false => rfl
    | true => exact absurd (List.any_eq_true.mpr ⟨ci, List.mem_range.mpr (hcis ▸ hci), hre⟩) hno

/-- The rank once the structures are noted. -/
def noted (r : CmdRank) (mask : Mask) (structures : Packet) : CmdRank :=
  { r with
    sliceInfo := fun ci =>
      if r.takesStructure mask structures ci then { r.sliceInfo ci with structureValue := (structures ci).word }
      else r.sliceInfo ci }

/-- Structures for some interfaces of the mask, for which a frame is left in the buffer. -/
theorem execWriteStructures_inv (h : c.Inv K r) {structures : Packet}
    (hvisit : ∀ ci < c.nrCis, (structures ci).word ≠ ciEmpty →
      mask.getLsbD ci = true ∧ isStruct (structures ci).word = true)
    (hnop : ∀ ci < c.nrCis, isNop (structures ci).word = false)
    (hcmd : ∀ ci < c.nrCis, (structures ci).word ≠ ciEmpty → isStruct (r.cmds ci).word = false ∧
      ∀ t g (d : Decoder), K ci t g d.target d.group →
        K ci t g (d.execute (r.cmds ci).word).target (d.execute (r.cmds ci).word).group) :
    Triple (fun s => s = r) (execWriteStructures mask structures)
      (fun _ s => c.Inv K s ∧ s.cmds = r.cmds ∧ ∀ ci < c.nrCis, (structures ci).word ≠ ciEmpty →
        ((c.wire s).ci ci).decoder.structReg = (structures ci).word)
      fun _ s => (∃ ci < c.nrCis, r.takesStructure mask structures ci = true) ∧ c.answers r.clock ≠ .done ∧ c.Late K s := by
  have hcis : r.nrCis = c.nrCis := h.runs.nrCis
  have hnoted : c.Runs (noted r mask structures) :=
    ⟨h.runs.nrCis, h.runs.nrDpus, h.runs.outcome, h.runs.clock, h.runs.color⟩
  have htargets : ∀ ci, ((noted r mask structures).sliceInfo ci).sliceTarget = (r.sliceInfo ci).sliceTarget ∧
      ((noted r mask structures).sliceInfo ci).dpusPerGroup = (r.sliceInfo ci).dpusPerGroup := by
    intro ci
    simp only [noted]
    split
    · exact ⟨rfl, rfl⟩
    · exact ⟨rfl, rfl⟩
  have hvalue : ∀ ci < c.nrCis, (structures ci).word ≠ ciEmpty →
      ((noted r mask structures).sliceInfo ci).structureValue = (structures ci).word := by
    intro ci hci hne
    have hvisits : r.visits mask ci = true := by simp [CmdRank.visits, hcis, hci, (hvisit ci hci hne).1]
    simp only [noted, CmdRank.takesStructure, hvisits, decide_eq_true hne, Bool.true_and]
    split
    · rfl
    · next hsame => simpa using hsame
  refine triple_get fun s hs => ?_
  subst hs
  refine triple_bind (R := fun _ t => t = noted s mask structures) (fun _ _ => rfl) fun _ => ?_
  refine triple_ite (fun hany => ?_) fun hno => triple_pure fun t ht => ?_
  · have htakes : ∃ ci < c.nrCis, s.takesStructure mask structures ci = true := by
      obtain ⟨ci, hci, htake⟩ := List.any_eq_true.mp hany
      exact ⟨ci, hcis ▸ List.mem_range.mp hci, htake⟩
    refine (execCmd_inv (K := K) hnoted false hnop fun ci hci => ?_).weaken (fun _ h => h) ?_ ?_
    · have hold := h.cis ci hci
      by_cases hempty : (structures ci).word = ciEmpty
      · have hinfo : (noted s mask structures).sliceInfo ci = s.sliceInfo ci := by
          simp [noted, CmdRank.takesStructure, hempty]
        rw [hinfo, hempty, Decoder.execute_empty]
        exact hold
      · obtain ⟨_, hstruct⟩ := hvisit ci hci hempty
        obtain ⟨hnoStruct, hagain⟩ := hcmd ci hci hempty
        rw [Decoder.execute_struct hstruct]
        refine ⟨.inl (hvalue ci hci hempty), ?_, Decoder.execute_structReg hnoStruct, ?_, hold.command⟩
        · rw [(htargets ci).1, (htargets ci).2]
          exact hold.kept
        · rw [(htargets ci).1, (htargets ci).2]
          exact hagain _ _ { ((c.wire s).ci ci).decoder with structReg := (structures ci).word } hold.kept
    · intro _ t ht
      obtain ⟨hinv, ht, hdone⟩ := ht
      have hreach : ∀ ci, (c.answers (noted s mask structures).clock).reaches ci = true := by
        rw [hdone]
        exact fun _ => rfl
      refine ⟨hinv, by rw [ht]; rfl, fun ci hci hne => ?_⟩
      rw [ht, decoder_logged hnoted hreach, Decoder.execute_struct (hvisit ci hci hne).2]
    · intro _ t ht
      obtain ⟨_, hfalse⟩ | hfailed := ht
      · cases hfalse
      · exact ⟨htakes, hfailed⟩
  · -- all the structures are noted already
    have hinfo : ∀ ci < c.nrCis, (noted s mask structures).sliceInfo ci = s.sliceInfo ci := by
      intro ci hci
      simp only [noted]
      split
      · next htake => exact absurd (List.any_eq_true.mpr ⟨ci, List.mem_range.mpr (hcis ▸ hci), htake⟩) hno
      · rfl
    subst ht
    refine ⟨⟨hnoted, fun ci hci => ?_⟩, rfl, fun ci hci hne => ?_⟩
    · rw [hinfo ci hci]
      exact h.cis ci hci
    · have hsame := hvalue ci hci hne
      rw [hinfo ci hci] at hsame
      obtain hreg | ⟨_, hempty⟩ := (h.cis ci hci).struct
      · exact hreg.symm.trans hsame
      · exact absurd (hsame.symm.trans hempty) hne

/-- `ufi_select_all`, `ufi_select_all_even_disabled`. -/
theorem selectEach_inv (h : c.Inv K r) (hwant : ∀ info t, want info = some t → t.Typed ∧ t ≠ .none)
    (hmid : ∀ ci < c.nrCis, ∀ g T G, K ci (r.sliceInfo ci).sliceTarget g T G →
      M ci ((r.setTargets want mask).sliceInfo ci).sliceTarget g T G)
    (hfree : ∀ ci < c.nrCis, r.retargets want mask ci = true → ∀ t g T T' G, M ci t g T G → M ci t g T' G)
    (hin : ∀ ci < c.nrCis, r.retargets want mask ci = true → ∀ t g T G, M ci t g T G →
      L ci t g ((want (r.sliceInfo ci)).getD .none) G)
    (hout : ∀ ci < c.nrCis, r.retargets want mask ci = false → ∀ t g T G, M ci t g T G → L ci t g T G) :
    Triple (fun s => s = r) (selectEach want mask) (fun _ s => c.Inv L s)
      fun _ s => c.Late L s ∨ (∃ ci < c.nrCis, (r.writeSelection want mask).takesStructure (r.selected want mask)
        (r.selectStructs want mask) ci = true) ∧ c.answers r.clock ≠ .done ∧ c.Late M s := by
  -- the target of an interface that gets a new one
  have hnew : ∀ ci, r.retargets want mask ci = true → ∃ t, want (r.sliceInfo ci) = some t ∧ t.Typed ∧ t ≠ .none ∧
      (r.selectCmds want mask ci).word = selectFrame t ∧ (r.selectStructs want mask ci).word = selectStruct t := by
    intro ci hre
    have hsome : (want (r.sliceInfo ci)).isSome = true := by
      simp only [CmdRank.retargets, Bool.and_eq_true] at hre
      exact hre.1.2
    obtain ⟨t, ht⟩ := Option.isSome_iff_exists.mp hsome
    refine ⟨t, ht, (hwant _ t ht).1, (hwant _ t ht).2, ?_, ?_⟩
    · simp [CmdRank.selectCmds, hre, ht]
    · simp [CmdRank.selectStructs, hre, ht]
  have hold : ∀ ci, r.retargets want mask ci = false →
      r.selectCmds want mask ci = r.cmds ci ∧ (r.selectStructs want mask ci).word = ciEmpty := by
    intro ci hre
    constructor
    · simp [CmdRank.selectCmds, hre]
    · simp [CmdRank.selectStructs, hre]
  have hfirst : c.Inv M (r.writeSelection want mask) := by
    have hset := h.setTargets hmid
    refine ⟨⟨hset.runs.nrCis, hset.runs.nrDpus, hset.runs.outcome, hset.runs.clock, hset.runs.color⟩, fun ci hci => ?_⟩
    have hci' := hset.cis ci hci
    show Holds c.fresh (M ci) ((r.setTargets want mask).sliceInfo ci) ((c.wire r).ci ci).decoder
      (r.selectCmds want mask ci).word
    cases hre : r.retargets want mask ci with
    | false =>
      rw [(hold ci hre).1]
      exact hci'
    | true =>
      obtain ⟨t, _, htyped, _, hcmd, _⟩ := hnew ci hre
      rw [hcmd]
      refine ⟨hci'.struct, hci'.kept, Decoder.execute_structReg isStruct_selectFrame, ?_, isNop_selectFrame htyped⟩
      rw [execute_selectFrame_group htyped]
      exact hfree ci hci hre _ _ _ _ _ hci'.kept
  refine triple_get fun s hs => ?_
  subst hs
  have hcis : s.nrCis = c.nrCis := h.runs.nrCis
  refine triple_bind (R := fun _ t => t = s.writeSelection want mask) (fun _ _ => rfl) fun _ => ?_
  -- a structure and a frame go out if some interface gets a new target, and nothing otherwise
  refine triple_ite (fun _ => ?_) fun hno => triple_pure fun t ht => ?_
  · have hretargeted : ∀ ci, (s.selectStructs want mask ci).word ≠ ciEmpty → s.retargets want mask ci = true := by
      intro ci hne
      cases hre : s.retargets want mask ci with
      | true => rfl
      | false => exact absurd (hold ci hre).2 hne
    refine triple_bind ((execWriteStructures_inv hfirst ?_ ?_ ?_).weaken (fun _ h => h) (fun _ _ h => h)
      fun _ _ h => .inr h) fun _ => triple_each fun u hu => ?_
    · intro ci _ hne
      obtain ⟨t, _, _, hnone, _, hstruct⟩ := hnew ci (hretargeted ci hne)
      refine ⟨retargets_selected (hretargeted ci hne), ?_⟩
      rw [hstruct]
      exact isStruct_selectStruct hnone
    · intro ci _
      cases hre : s.retargets want mask ci with
      | false =>
        rw [(hold ci hre).2]
        decide
      | true =>
        obtain ⟨t, _, _, hnone, _, hstruct⟩ := hnew ci hre
        rw [hstruct]
        exact isNop_of_isStruct (isStruct_selectStruct hnone)
    · intro ci hci hne
      obtain ⟨t, _, htyped, _, hcmd, _⟩ := hnew ci (hretargeted ci hne)
      show isStruct (s.selectCmds want mask ci).word = false ∧ ∀ t g (d : Decoder), M ci t g d.target d.group →
        M ci t g (d.execute (s.selectCmds want mask ci).word).target (d.execute (s.selectCmds want mask ci).word).group
      rw [hcmd]
      refine ⟨isStruct_selectFrame, fun t' g d hkept => ?_⟩
      rw [execute_selectFrame_group htyped]
      exact hfree ci hci (hretargeted ci hne) _ _ _ _ _ hkept
    · obtain ⟨hinv, hcmds, hreg⟩ := hu
      refine triple_get fun v hv => ?_
      subst hv
      refine (execCmd_inv hinv.runs false (fun ci hci => (hinv.cis ci hci).command) fun ci hci => ?_).weaken
        (fun _ h => h) (fun _ _ h => h.1) ?_
      · have hci' := hinv.cis ci hci
        apply Holds.executed hci'.command
        · rw [hci'.structAgain]
          exact hci'.struct
        · cases hre : s.retargets want mask ci with
          | false => exact hout ci hci hre _ _ _ _ hci'.keptAgain
          | true =>
            obtain ⟨t, ht, htyped, hnone, hcmd, hstruct⟩ := hnew ci hre
            have hne : (s.selectStructs want mask ci).word ≠ ciEmpty := by
              intro hempty
              have hstruct' := isStruct_selectStruct hnone
              rw [← hstruct, hempty] at hstruct'
              exact absurd hstruct' (by decide)
            have hframe : (v.cmds ci).word = selectFrame t := by
              rw [hcmds]
              exact hcmd
            rw [hframe, execute_selectFrame htyped hnone ((hreg ci hci hne).trans hstruct)]
            have hgiven := hin ci hci hre _ _ _ _ hci'.kept
            rw [ht] at hgiven
            exact hgiven
      · intro _ t ht
        obtain ⟨_, hfalse⟩ | ⟨_, hlate⟩ := ht
        · cases hfalse
        · exact .inl hlate
  · subst ht
    refine ⟨hfirst.runs, fun ci hci => ?_⟩
    have hci' := hfirst.cis ci hci
    have hre : s.retargets want mask ci = false := by
      cases hre : s.retargets want mask ci with
      | false => rfl
      | true => exact absurd (List.any_eq_true.mpr ⟨ci, List.mem_range.mpr (hcis ▸ hci), hre⟩) hno
    exact ⟨hci'.struct, hout ci hci hre _ _ _ _ hci'.kept, hci'.structAgain, hout ci hci hre _ _ _ _ hci'.keptAgain,
      hci'.command⟩

/-! ## Groups -/

/-- The rank once the interfaces of the mask, but those in `rest`, have moved their selected DPUs. -/
def moved (r : CmdRank) (mask : Mask) (group : Nat) (rest : List Nat) : CmdRank :=
  { r with
    sliceInfo := fun ci =>
      if ci ∈ rest ∨ r.visits mask ci = false then r.sliceInfo ci
      else (r.sliceInfo ci).moveToGroup group (((r.sliceInfo ci).selectedDpuMask r.nrDpus).getD 0) }

/-- The loop stops at an interface without a target, and those it has passed come before. -/
theorem moveToGroup_loop (r : CmdRank) (mask : Mask) (group : Nat) :
    Triple (fun s => s = r) ((List.range r.nrCis).forM (moveToGroup mask group))
      (fun _ s => s = moved r mask group [])
      fun _ s => ∃ ci rest, r.visits mask ci = true ∧ (r.sliceInfo ci).selectedDpuMask r.nrDpus = none ∧
        (∀ j < r.nrCis, j ∉ rest → j < ci) ∧ s = moved r mask group rest := by
  have hloop := triple_forM (l := List.range r.nrCis) (f := moveToGroup mask group)
    (I := fun rest s => (rest.Pairwise (· < ·) ∧ ∀ j < r.nrCis, j ∉ rest → ∀ i ∈ rest, j < i) ∧
      s = moved r mask group rest)
    (E := fun _ s => ∃ ci rest, r.visits mask ci = true ∧ (r.sliceInfo ci).selectedDpuMask r.nrDpus = none ∧
        (∀ j < r.nrCis, j ∉ rest → j < ci) ∧ s = moved r mask group rest) fun i rest _ => ?_
  · refine hloop.weaken (fun s hs => ⟨⟨List.pairwise_lt_range, fun j hj hout => ?_⟩, ?_⟩) (fun _ _ h => h.2) fun _ _ h => h
    · exact absurd (List.mem_range.mpr hj) hout
    rw [hs]
    -- nothing has been visited yet
    have hstart : (moved r mask group (List.range r.nrCis)).sliceInfo = r.sliceInfo := by
      funext ci
      by_cases hci : ci < r.nrCis
      · exact if_pos (.inl (List.mem_range.mpr hci))
      · exact if_pos (.inr (by simp [CmdRank.visits, hci]))
    show r = { r with sliceInfo := (moved r mask group (List.range r.nrCis)).sliceInfo }
    rw [hstart]
  · refine triple_get fun s hs => ?_
    obtain ⟨⟨hsorted, hpassed⟩, hs⟩ := hs
    obtain ⟨hlater, hsorted⟩ := List.pairwise_cons.mp hsorted
    have hvisits : s.visits mask i = r.visits mask i := by
      rw [hs]
      rfl
    have hinfo : s.sliceInfo i = r.sliceInfo i := by
      rw [hs]
      exact if_pos (.inl (List.mem_cons_self ..))
    have hnotMem : i ∉ rest := fun hmem => Nat.lt_irrefl i (hlater i hmem)
    have hnext : ∀ j < r.nrCis, j ∉ rest → ∀ k ∈ rest, j < k := by
      intro j hj hout k hk
      by_cases heq : j = i
      · exact heq ▸ hlater k hk
      · exact hpassed j hj (fun hmem => (List.mem_cons.mp hmem).elim heq hout) k (List.mem_cons_of_mem _ hk)
    refine triple_ite (fun hvisit => ?_) fun hskip => triple_pure fun t ht => ⟨⟨hsorted, hnext⟩, ?_⟩
    · rw [hvisits] at hvisit
      cases hmask : (s.sliceInfo i).selectedDpuMask s.nrDpus with
      | none =>
        refine triple_throw fun t ht => ⟨i, i :: rest, hvisit, ?_, fun j hj hout => ?_, ht.trans hs⟩
        swap
        · exact hpassed j hj hout i (List.mem_cons_self ..)
        rw [← hinfo]
        rw [hs] at hmask ⊢
        exact hmask
      | some dpus =>
        intro t _
        refine ⟨⟨hsorted, hnext⟩, ?_⟩
        have hdpus : (r.sliceInfo i).selectedDpuMask r.nrDpus = some dpus := by
          rw [← hinfo]
          rw [hs] at hmask ⊢
          exact hmask
        have hslices : Function.update s.sliceInfo i ((s.sliceInfo i).moveToGroup group dpus)
            = (moved r mask group rest).sliceInfo := by
          funext ci
          by_cases heq : ci = i
          · subst heq
            have hmove : ¬(ci ∈ rest ∨ r.visits mask ci = false) := by
              rw [hvisit]
              simp [hnotMem]
            show Function.update s.sliceInfo ci _ ci = if ci ∈ rest ∨ r.visits mask ci = false then _ else _
            rw [Function.update_self, if_neg hmove, hinfo, hdpus]
            rfl
          · rw [Function.update_of_ne heq, hs]
            simp only [moved, List.mem_cons, heq, false_or]
        show { s with sliceInfo := Function.update s.sliceInfo i ((s.sliceInfo i).moveToGroup group dpus) } = _
        rw [hslices, hs]
        rfl
    · have hno : r.visits mask i = false := by
        rw [← hvisits]
        exact Bool.eq_false_iff.mpr hskip
      rw [ht, hs]
      have hslices : (moved r mask group (i :: rest)).sliceInfo = (moved r mask group rest).sliceInfo := by
        funext ci
        by_cases heq : ci = i
        · subst heq
          simp only [moved, hno, or_true, if_true]
        · simp only [moved, List.mem_cons, heq, false_or]
      show { r with sliceInfo := (moved r mask group (i :: rest)).sliceInfo } = _
      rw [hslices]
      rfl

theorem Inv.moved (h : c.Inv K r) {group : Nat} {rest : List Nat}
    (hmid : ∀ ci < c.nrCis, ∀ T G, K ci (r.sliceInfo ci).sliceTarget (r.sliceInfo ci).dpusPerGroup T G →
      M ci (r.sliceInfo ci).sliceTarget ((Exchange.moved r mask group rest).sliceInfo ci).dpusPerGroup T G) :
    c.Inv M (Exchange.moved r mask group rest) := by
  refine ⟨⟨h.runs.nrCis, h.runs.nrDpus, h.runs.outcome, h.runs.clock, h.runs.color⟩, fun ci hci => ?_⟩
  have hold := h.cis ci hci
  have hinfo : ((Exchange.moved r mask group rest).sliceInfo ci).structureValue = (r.sliceInfo ci).structureValue ∧
      ((Exchange.moved r mask group rest).sliceInfo ci).sliceTarget = (r.sliceInfo ci).sliceTarget := by
    simp only [Exchange.moved]
    split
    · exact ⟨rfl, rfl⟩
    · exact ⟨rfl, rfl⟩
  refine ⟨?_, ?_, hold.structAgain, ?_, hold.command⟩
  · rw [hinfo.1]
    exact hold.struct
  · rw [hinfo.2]
    exact hmid ci hci _ _ hold.kept
  · rw [hinfo.2]
    exact hmid ci hci _ _ hold.keptAgain

/-- `ufi_write_group`. -/
theorem writeGroup_inv (h : c.Inv K r) {group : Nat} (hgroup : group < 256)
    (hmid : ∀ ci < c.nrCis, ∀ T G, K ci (r.sliceInfo ci).sliceTarget (r.sliceInfo ci).dpusPerGroup T G →
      M ci (r.sliceInfo ci).sliceTarget ((Exchange.moved r mask group []).sliceInfo ci).dpusPerGroup T G)
    (hin : ∀ ci < c.nrCis, mask.getLsbD ci = true → ∀ t g (d : Decoder), M ci t g d.target d.group →
      L ci t g d.target fun dpu => if d.selects dpu then group else d.group dpu)
    (hout : ∀ ci < c.nrCis, mask.getLsbD ci = false → ∀ t g T G, M ci t g T G → L ci t g T G) :
    Triple (fun s => s = r) (writeGroup mask group) (fun _ s => c.Inv L s)
      fun _ s => c.Late L s ∨
        ((Exchange.moved r mask group []).mustWriteStructure mask oneByteStruct = true ∧ c.answers r.clock ≠ .done ∧
          c.Late M s) ∨
        ∃ ci rest, r.visits mask ci = true ∧ (r.sliceInfo ci).selectedDpuMask r.nrDpus = none ∧
          (∀ j < r.nrCis, j ∉ rest → j < ci) ∧ s = Exchange.moved r mask group rest := by
  refine triple_get fun s hs => ?_
  subst hs
  refine triple_bind ((moveToGroup_loop s mask group).weaken (fun _ h => h) (fun _ _ h => h) fun _ _ h => .inr (.inr h))
    fun _ => ?_
  refine (execFrame_inv (h.moved hmid) (by decide) ?_ isStruct_frameWord ?_ hout).weaken (fun _ h => h) (fun _ _ h => h)
    fun _ _ h => h.imp_right .inl
  · exact isNop_frameWord (by decide) (isByte_ofNat hgroup) (by decide) (by decide) (by decide) (by decide) (by decide)
  · intro ci hci hbit t g d hreg hkept
    obtain ⟨hselection, hwritten⟩ := writeGroupFrame_writes hgroup
    rw [Decoder.execute_group isStruct_frameWord (by rw [hreg]; exact hselection) (by rw [hreg]; exact hwritten)]
    exact hin ci hci hbit t g d hkept

end Selections

end Exchange

/-! ## Links between the calls -/

/-- The copies of a rank, and what is kept of the targets and groups. -/
structure Link.Keeps (fresh : Prop) (K : Kept) (l : Link) : Prop where
  nrCis_le : l.rank.nrCis ≤ 8
  color : ∀ ci < l.rank.nrCis, l.wire.color.getLsbD ci = (l.wire.ci ci).color
  cis : ∀ ci < l.rank.nrCis,
    Holds fresh (K ci) (l.rank.sliceInfo ci) (l.wire.ci ci).decoder (l.rank.cmds ci).word

/-- A call on the link. -/
def Link.started (l : Link) (fresh : Prop) (answers : Nat → Answer) (h : l.rank.nrCis ≤ 8) : Exchange where
  fresh := fresh
  base := l.wire
  answers := answers
  nrCis := l.rank.nrCis
  nrDpus := l.rank.nrDpus
  nrCis_le := h

variable {l : Link} {fresh : Prop} {answers : Nat → Answer}

theorem Link.Keeps.inv (h : l.Keeps fresh K) :
    (l.started fresh answers h.nrCis_le).Inv K (l.rank.begin fun k => (answers k).outcome) :=
  ⟨⟨rfl, rfl, rfl, rfl, h.color⟩, h.cis⟩

theorem Link.Keeps.mono (h : l.Keeps fresh K)
    (hmono : ∀ ci < l.rank.nrCis, ∀ t g T G, K ci t g T G → L ci t g T G) : l.Keeps fresh L := by
  refine ⟨h.nrCis_le, h.color, fun ci hci => ?_⟩
  have hold := h.cis ci hci
  exact ⟨hold.struct, hmono ci hci _ _ _ _ hold.kept, hold.structAgain, hmono ci hci _ _ _ _ hold.keptAgain, hold.command⟩

theorem Exchange.Inv.keeps {hle : l.rank.nrCis ≤ 8} {s : CmdRank} (h : (l.started fresh answers hle).Inv K s) :
    (l.after answers s).Keeps fresh K ∧ (l.after answers s).rank.nrCis = l.rank.nrCis := by
  have hcis : s.nrCis = l.rank.nrCis := h.runs.nrCis
  have hwire : (l.after answers s).wire = (l.started fresh answers hle).wire s := by
    show l.wire.run s.nrCis answers s.commits = l.wire.run l.rank.nrCis answers s.commits
    rw [hcis]
  refine ⟨⟨hcis ▸ hle, fun ci hci => ?_, fun ci hci => ?_⟩, hcis⟩
  · rw [hwire]
    exact h.runs.color ci (Nat.lt_of_lt_of_eq hci hcis)
  · rw [hwire]
    exact h.cis ci (Nat.lt_of_lt_of_eq hci hcis)

/-- A call that succeeds. -/
theorem Link.call_ok {program : CmdM PUnit} {l' : Link} {Q : CmdRank → Prop}
    (h : Triple (fun s => s = l.rank.begin fun k => (answers k).outcome) program (fun _ s => Q s) fun _ _ => True)
    (hok : l.call program answers = (.ok (), l')) : ∃ s, l' = l.after answers s ∧ Q s := by
  unfold Link.call at hok
  obtain ⟨_, s, hrun, hs⟩ | ⟨e, s, hrun, _⟩ := h.run
  · rw [hrun] at hok
    cases hok
    exact ⟨s, rfl, hs⟩
  · rw [hrun] at hok
    cases hok

/-- A call ends as its triple says. -/
theorem Link.call_ends {program : CmdM PUnit} {Q : CmdRank → Prop} {E : CmdRank → Prop}
    (h : Triple (fun s => s = l.rank.begin fun k => (answers k).outcome) program (fun _ s => Q s) fun _ s => E s) :
    (∃ s, l.call program answers = (.ok (), l.after answers s) ∧ Q s) ∨
      ∃ e s, l.call program answers = (.error e, l.after answers s) ∧ E s := by
  unfold Link.call
  obtain ⟨_, s, hrun, hs⟩ | ⟨e, s, hrun, hs⟩ := h.run
  · rw [hrun]
    exact .inl ⟨s, rfl, hs⟩
  · rw [hrun]
    exact .inr ⟨e, s, rfl, hs⟩

end DpuBackend.Ufi
