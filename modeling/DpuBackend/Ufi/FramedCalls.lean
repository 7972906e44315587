import DpuBackend.Ufi.LinkInvariant

/-
  The calls that work with structures and frames.

  `Op.Framed` are the selections, the group writes and the calls whose commands are
  frames; the calls that reset or configure a rank are left out. Among them only the
  selections and the group writes touch a target or a group, whose frames are those of
  `selection` and `groupWritten`: the frames of the others are quiet (`FrameOp.quiet`
  and the lemmas after it), and `Exchange.plain_keeps` follows for any relation `K`.
-/

namespace DpuBackend.Ufi

open DpuBackend.Lib

/-- Made of selections, group writes and frames, with arguments that fit their types and their arrays. -/
def Op.Framed : Op → Prop
  | .byteOrder _ | .softReset _ _ _ | .bitConfig _ _ _ _ _ | .thermalConfig _ _ | .carouselConfig _ _
  | .iramRepairConfig _ _ | .wramRepairConfig _ _ _ => False
  | .selectGroup _ group | .selectGroupUncached _ group | .writeGroup _ group => group < maxNrGroups
  | .selectDpu _ dpu | .selectDpuUncached _ dpu | .selectDpuEvenDisabled _ dpu => dpu < 256
  | .setPcMode _ pcMode => ∀ ci, IsByte (pcMode ci)
  | _ => True

/-- Neither a selection nor a group write. -/
def Op.Plain : Op → Prop
  | .selectAll _ | .selectAllUncached _ | .selectAllEvenDisabled _ | .selectGroup _ _ | .selectGroupUncached _ _
  | .selectDpu _ _ | .selectDpuUncached _ _ | .selectDpuEvenDisabled _ _ | .writeGroup _ _ => False
  | _ => True

/-! ## QuietFrame frames -/

section QuietFrame

instance (struct w : Word) : Decidable (Inert struct w) := inferInstanceAs (Decidable (_ ∧ _))

variable {b₀ b₁ b₂ b₃ b₄ b₅ b₆ struct : Word}

theorem IsByte.or {w w' : Word} (h : IsByte w) (h' : IsByte w') : IsByte (w ||| w') := by
  unfold IsByte
  rw [BitVec.toNat_or]
  exact Nat.or_lt_two_pow (n := 8) h h'

theorem isByte_and (w : Word) {mask : Word} (h : IsByte mask) : IsByte (w &&& mask) := by
  unfold IsByte
  rw [BitVec.toNat_and]
  exact Nat.lt_of_le_of_lt Nat.and_le_right h

/-- A frame of bytes, under a structure that neither selects nor writes groups. -/
theorem quiet_frameWord (hplain : struct ≠ plainStruct) (hbyte : struct ≠ oneByteStruct) (h₀ : IsByte b₀)
    (h₁ : IsByte b₁) (h₂ : IsByte b₂) (h₃ : IsByte b₃) (h₄ : IsByte b₄) (h₅ : IsByte b₅) (h₆ : IsByte b₆) :
    QuietFrame struct (frameWord b₀ b₁ b₂ b₃ b₄ b₅ b₆) :=
  ⟨isStruct_frameWord, isNop_frameWord h₀ h₁ h₂ h₃ h₄ h₅ h₆, inert_of_struct hplain hbyte _⟩

theorem quiet_instructionFrame {instruction last : Word} (hplain : struct ≠ plainStruct)
    (hbyte : struct ≠ oneByteStruct) (hlast : IsByte last) : QuietFrame struct (instructionFrame instruction last) :=
  quiet_frameWord hplain hbyte (isByte_byteOf _ _) (isByte_byteOf _ _) (isByte_byteOf _ _) (isByte_byteOf _ _)
    (isByte_byteOf _ _) (isByte_byteOf _ _) hlast

theorem quiet_dmaCtrlFrame (address data : Word) : QuietFrame dmaCtrlWriteStruct (dmaCtrlFrame address data) := by
  have hnibble : ∀ (w : Word) (k : Nat), IsByte (0x60#64 ||| (w >>> k &&& 0x0F#64)) := by
    intro w k
    apply IsByte.or
    · decide
    · exact isByte_and _ (by decide)
  exact quiet_frameWord (by decide) (by decide) (hnibble _ _) (hnibble _ _) (hnibble _ _) (hnibble _ _) (by decide)
    (by decide) (by decide)

/-- What the structures with a wide instruction differ in from the others. -/
theorem wide_struct (h : struct.getLsbD 0 = true) : struct ≠ plainStruct ∧ struct ≠ oneByteStruct := by
  constructor
  · intro heq
    rw [heq] at h
    exact absurd h (by decide)
  · intro heq
    rw [heq] at h
    exact absurd h (by decide)

theorem iramWriteInstructionStruct_wide (addr : Word) : (iramWriteInstructionStruct addr).getLsbD 0 = true := by
  simp [iramWriteInstructionStruct, structWord]

theorem wramWriteWordStruct_wide (addr : Word) : (wramWriteWordStruct addr).getLsbD 0 = true := by
  simp [wramWriteWordStruct, structWord]

theorem isStruct_iramWriteInstructionStruct (addr : Word) : isStruct (iramWriteInstructionStruct addr) = true :=
  isStruct_structWord (by decide) (by decide) (isByte_byteOf _ _) (by decide) (by decide) (by decide)

theorem isStruct_wramWriteWordStruct (addr : Word) : isStruct (wramWriteWordStruct addr) = true :=
  isStruct_structWord (by decide) (by decide) (isByte_byteOf _ _) (isByte_byteOf _ _) (isByte_byteOf _ _) (by decide)

theorem quiet_iramWrite (data addr : Word) :
    QuietFrame (iramWriteInstructionStruct addr) (iramWriteInstructionFrame data addr) := by
  obtain ⟨hplain, hbyte⟩ := wide_struct (iramWriteInstructionStruct_wide addr)
  exact quiet_frameWord hplain hbyte (isByte_byteOf _ _) (isByte_byteOf _ _) (isByte_byteOf _ _) (isByte_byteOf _ _)
    (isByte_byteOf _ _) (isByte_byteOf _ _) (isByte_byteOf _ _)

theorem quiet_wramWrite (data addr : Word) : QuietFrame (wramWriteWordStruct addr) (wramWriteWordFrame data addr) := by
  obtain ⟨hplain, hbyte⟩ := wide_struct (wramWriteWordStruct_wide addr)
  exact quiet_frameWord hplain hbyte (isByte_byteOf _ _) (isByte_byteOf _ _) (isByte_byteOf _ _) (isByte_byteOf _ _)
    (isByte_byteOf _ _) (isByte_byteOf _ _) (isByte_byteOf _ _)

theorem quiet_iramRead {byte : Nat} (h : byte < 6) (addr : Word) :
    QuietFrame iramReadStruct (iramReadByteFrame byte addr) := by
  have hnumber : ∀ byte < 6, IsByte (0x40#64 + BitVec.ofNat 64 byte) := by decide
  exact quiet_frameWord (by decide) (by decide) (isByte_byteOf _ _) (isByte_byteOf _ _) (hnumber byte h) (by decide)
    (by decide) (by decide) (by decide)

/-- The frames that are the same for all interfaces. -/
theorem FrameOp.quiet (op : FrameOp) : isStruct op.words.1 = true ∧ QuietFrame op.words.1 op.words.2 := by
  have hthread : ∀ base thread, isStruct instructionStruct = true ∧
      QuietFrame instructionStruct (instructionFrame (threadInstruction base thread) 0x98) := fun base thread =>
    ⟨by decide, quiet_instructionFrame (by decide) (by decide) (by decide)⟩
  have hdma : isStruct dmaCtrlWriteStruct = true := by decide
  cases op with
  | clearRunBit runBit => exact hthread _ _
  | writeDmaCtrl address data => exact ⟨hdma, quiet_dmaCtrlFrame _ _⟩
  | threadBoot thread => exact hthread _ _
  | threadResume thread => exact hthread _ _
  | readRunBit runBit => exact hthread _ _
  | _ => exact ⟨by decide, by decide, by decide, by decide⟩

end QuietFrame

/-! ## The calls that change no target and no group -/

variable {c : Exchange} {K : Kept} {mask : Mask}

namespace Exchange

theorem writeDmaCtrlDatas_keeps (address : Word) (datas : Nat → Word) :
    Triple (fun s => c.Inv K s) (writeDmaCtrlDatas mask address datas) (fun _ s => c.Inv K s) fun _ s => c.Late K s :=
  (execOwnFrames_keeps (by decide) fun _ => quiet_dmaCtrlFrame _ _).post fun _ _ h => h.1

theorem writeDmaCtrl_keeps (address data : Word) :
    Triple (fun s => c.Inv K s) (writeDmaCtrl mask address data) (fun _ s => c.Inv K s) fun _ s => c.Late K s :=
  execFrame_keeps (by decide) (quiet_dmaCtrlFrame _ _)

theorem setMramMux_keeps (ciMuxPos : Mask) :
    Triple (fun s => c.Inv K s) (setMramMux mask ciMuxPos) (fun _ s => c.Inv K s) fun _ s => c.Late K s := by
  refine triple_bind (writeDmaCtrlDatas_keeps _ _) fun _ => triple_bind (writeDmaCtrl_keeps _ _) fun _ => ?_
  refine triple_bind (writeDmaCtrlDatas_keeps _ _) fun _ => triple_bind (writeDmaCtrlDatas_keeps _ _) fun _ => ?_
  exact execFrame_keeps (by decide) ⟨by decide, by decide, by decide⟩

theorem prepareAndExec_keeps {word : Word} (hnop : isNop word = false) (hword : isStruct word = false)
    (hsame : ∀ d : Decoder, d.execute word = d) :
    Triple (fun s => c.Inv K s) (prepareAndExec mask word) (fun _ s => c.Inv K s) fun _ s => c.Late K s := by
  refine triple_each fun s hs => prepareAndExec_inv hs hnop hword ?_ ?_
  · intro ci _ _ t g hkept
    rw [hsame]
    exact hkept
  · exact fun _ _ _ _ _ _ _ hkept => hkept

/-- The identity does nothing but change the color. -/
theorem execute_identity (d : Decoder) : d.execute ciIdentity = d := by
  apply Decoder.execute_other
  · decide
  · decide
  · decide
  · decide
  · decide

theorem identity_keeps : Triple (fun s => c.Inv K s) (prepareAndExec mask ciIdentity) (fun _ s => c.Inv K s)
    fun _ s => c.Late K s :=
  prepareAndExec_keeps (by decide) (by decide) execute_identity

/-- Whatever is kept of targets and groups, such a call keeps it. -/
theorem plain_keeps {op : Op} (hframed : op.Framed) (hplain : op.Plain) :
    Triple (fun s => c.Inv K s) op.program (fun _ s => c.Inv K s) fun _ s => c.Late K s := by
  have hloop : ∀ (l : List Nat) (f : Nat → CmdM PUnit),
      (∀ i ∈ l, Triple (fun s => c.Inv K s) (f i) (fun _ s => c.Inv K s) fun _ s => c.Late K s) →
        Triple (fun s => c.Inv K s) (l.forM f) (fun _ s => c.Inv K s) fun _ s => c.Late K s :=
    fun l f hf => triple_forM (I := fun _ s => c.Inv K s) fun i _ hi => hf i hi
  cases op with
  | byteOrder _ => exact hframed.elim
  | softReset _ _ _ => exact hframed.elim
  | bitConfig _ _ _ _ _ => exact hframed.elim
  | thermalConfig _ _ => exact hframed.elim
  | carouselConfig _ _ => exact hframed.elim
  | iramRepairConfig _ _ => exact hframed.elim
  | wramRepairConfig _ _ _ => exact hframed.elim
  | selectAll _ => exact hplain.elim
  | selectAllUncached _ => exact hplain.elim
  | selectAllEvenDisabled _ => exact hplain.elim
  | selectGroup _ _ => exact hplain.elim
  | selectGroupUncached _ _ => exact hplain.elim
  | selectDpu _ _ => exact hplain.elim
  | selectDpuUncached _ _ => exact hplain.elim
  | selectDpuEvenDisabled _ _ => exact hplain.elim
  | writeGroup _ _ => exact hplain.elim
  | identity _ => exact identity_keeps
  | selectCis _ => exact triple_pure fun _ h => h
  | frame _ op => exact execFrame_keeps op.quiet.1 op.quiet.2
  | setPcMode _ pcMode =>
    refine (execOwnFrames_keeps (by decide) fun ci => ?_).post fun _ _ h => h.1
    exact quiet_frameWord (by decide) (by decide) (hframed ci) (by decide) (by decide) (by decide) (by decide)
      (by decide) (by decide)
  | setStackDirection _ direction =>
    refine (execOwnFrames_keeps (by decide) fun ci => ?_).post fun _ _ h => h.1
    split
    · exact ⟨by decide, by decide, by decide⟩
    · exact ⟨by decide, by decide, by decide⟩
  | writeDmaCtrlDatas _ address datas => exact writeDmaCtrlDatas_keeps _ _
  | iramWrite _ src offset len => exact memoryWrite_keeps isStruct_iramWriteInstructionStruct quiet_iramWrite
  | wramWrite _ src offset len => exact memoryWrite_keeps isStruct_wramWriteWordStruct quiet_wramWrite
  | iramRead _ offset len =>
    refine hloop _ _ fun k _ => hloop _ _ fun byte hbyte => ?_
    exact execFrame_keeps (by decide) (quiet_iramRead (List.mem_range.mp hbyte) _)
  | wramRead _ offset len =>
    refine hloop _ _ fun k _ => ?_
    exact execFrame_keeps (by decide) (quiet_instructionFrame (by decide) (by decide) (by decide))
  | setMramMux _ ciMuxPos => exact setMramMux_keeps _
  | debugPcRead _ =>
    refine triple_bind (execFrame_keeps (by decide) ⟨by decide, by decide, by decide⟩) fun _ => ?_
    exact execFrame_keeps (by decide) ⟨by decide, by decide, by decide⟩

/-! ## All of them, where only the structure registers matter -/

/-- Nothing is said of targets and groups. -/
def anyKept : Kept := fun _ _ _ _ _ => True

theorem late_of_or {s : CmdRank} {P Q : Prop} (h : c.Late K s ∨ P ∧ Q ∧ c.Late K s) : c.Late K s := by
  obtain h | ⟨_, _, h⟩ := h
  · exact h
  · exact h

theorem allTarget_typed (info : SliceInfo) (t : SliceTarget) (h : info.allTarget = some t) : t.Typed ∧ t ≠ .none := by
  unfold SliceInfo.allTarget at h
  have hgroup : (SliceTarget.group enabledGroup).Typed ∧ SliceTarget.group enabledGroup ≠ .none :=
    ⟨(by decide : enabledGroup < 256), fun heq => nomatch heq⟩
  split at h
  · cases h
    exact ⟨trivial, fun heq => nomatch heq⟩
  · split at h
    · cases h
      exact hgroup
    · split at h
      · cases h
        exact hgroup
      · cases h

theorem allEvenDisabledTarget_typed (info : SliceInfo) (t : SliceTarget) (h : info.allEvenDisabledTarget = some t) :
    t.Typed ∧ t ≠ .none := by
  unfold SliceInfo.allEvenDisabledTarget at h
  split at h
  · cases h
    exact ⟨trivial, fun heq => nomatch heq⟩
  · cases h

theorem group_typed {group : Nat} (h : group < maxNrGroups) : (SliceTarget.group group).Typed :=
  Nat.lt_of_lt_of_le h (by decide)

/-- Any call of the family. -/
theorem framed_keeps {op : Op} (hframed : op.Framed) :
    Triple (fun s => c.Inv anyKept s) op.program (fun _ s => c.Inv anyKept s) fun _ s => c.Late anyKept s := by
  have hone : ∀ (want : SliceInfo → Option SliceTarget) (target : SliceTarget) (mask : Mask), target.Typed →
      target ≠ .none → Triple (fun s => c.Inv anyKept s) (selectOne want target mask) (fun _ s => c.Inv anyKept s)
        fun _ s => c.Late anyKept s := by
    intro want target mask htyped hne
    refine triple_each fun s hs => ?_
    refine (selectOne_inv (M := anyKept) (L := anyKept) hs htyped hne ?_ ?_ ?_ ?_).weaken (fun _ h => h) (fun _ _ h => h) ?_
    · exact fun _ _ _ _ _ _ => trivial
    · exact fun _ _ _ _ _ _ _ _ => trivial
    · exact fun _ _ _ _ _ _ _ _ => trivial
    · exact fun _ _ _ _ _ _ _ => trivial
    · intro _ s hs
      obtain h | ⟨_, h⟩ := hs
      · exact h
      · exact late_of_or (.inr h)
  have heach : ∀ (want : SliceInfo → Option SliceTarget) (mask : Mask),
      (∀ info t, want info = some t → t.Typed ∧ t ≠ .none) →
        Triple (fun s => c.Inv anyKept s) (selectEach want mask) (fun _ s => c.Inv anyKept s)
          fun _ s => c.Late anyKept s := by
    intro want mask hwant
    refine triple_each fun s hs => ?_
    refine (selectEach_inv (M := anyKept) (L := anyKept) hs hwant ?_ ?_ ?_ ?_).weaken (fun _ h => h) (fun _ _ h => h)
      fun _ _ h => late_of_or h
    · exact fun _ _ _ _ _ _ => trivial
    · exact fun _ _ _ _ _ _ _ _ _ => trivial
    · exact fun _ _ _ _ _ _ _ _ => trivial
    · exact fun _ _ _ _ _ _ _ _ => trivial
  have huncached : ∀ (target : SliceTarget) (mask : Mask), target.Typed → target ≠ .none →
      Triple (fun s => c.Inv anyKept s) (selectUncached target mask) (fun _ s => c.Inv anyKept s)
        fun _ s => c.Late anyKept s := by
    intro target mask htyped hne
    refine triple_each fun s hs => ?_
    refine (selectUncached_inv (M := anyKept) (L := anyKept) hs htyped hne ?_ ?_ ?_).weaken (fun _ h => h)
      (fun _ _ h => h) fun _ _ h => late_of_or h
    · exact fun _ _ _ _ _ _ => trivial
    · exact fun _ _ _ _ _ _ _ _ => trivial
    · exact fun _ _ _ _ _ _ _ _ => trivial
  cases op with
  | selectAll mask => exact heach _ _ allTarget_typed
  | selectAllUncached mask => exact huncached _ _ trivial fun heq => nomatch heq
  | selectAllEvenDisabled mask => exact heach _ _ allEvenDisabledTarget_typed
  | selectGroup mask group => exact hone _ _ _ (group_typed hframed) fun heq => nomatch heq
  | selectGroupUncached mask group => exact huncached _ _ (group_typed hframed) fun heq => nomatch heq
  | selectDpu mask dpu => exact hone _ _ _ hframed fun heq => nomatch heq
  | selectDpuUncached mask dpu => exact huncached _ _ hframed fun heq => nomatch heq
  | selectDpuEvenDisabled mask dpu => exact hone _ _ _ hframed fun heq => nomatch heq
  | writeGroup mask group =>
    refine triple_each fun s hs => ?_
    have hgroup : group < 256 := Nat.lt_of_lt_of_le hframed (by decide)
    refine (writeGroup_inv (M := anyKept) (L := anyKept) hs hgroup ?_ ?_ ?_).weaken (fun _ h => h) (fun _ _ h => h) ?_
    · exact fun _ _ _ _ _ => trivial
    · exact fun _ _ _ _ _ _ _ => trivial
    · exact fun _ _ _ _ _ _ _ _ => trivial
    · intro _ t ht
      obtain h | ⟨_, _, h⟩ | ⟨_, _, _, _, _, h⟩ := ht
      · exact h
      · exact h
      · rw [h]
        exact fun _ => hs.moved fun _ _ _ _ _ => trivial
  | _ => exact plain_keeps hframed trivial

end Exchange

/-- A call whose packets are all delivered keeps the colors and the structure registers noted. -/
theorem Link.Keeps.call {l : Link} {fresh : Prop} (h : l.Keeps fresh Exchange.anyKept) {op : Op} {answers : Nat → Answer}
    (hframed : op.Framed) (hdelivered : Delivered answers) :
    (l.call op.program answers).2.Keeps fresh Exchange.anyKept ∧ (l.call op.program answers).2.rank.nrCis = l.rank.nrCis := by
  have hstart : (l.started fresh answers h.nrCis_le).Inv Exchange.anyKept (l.rank.begin fun k => (answers k).outcome) := h.inv
  obtain ⟨s, hcall, hs⟩ | ⟨e, s, hcall, hs⟩ :=
    Link.call_ends ((Exchange.framed_keeps hframed).pre fun s hs => hs ▸ hstart)
  · rw [hcall]
    exact hs.keeps
  · rw [hcall]
    exact (hs hdelivered).keeps

end DpuBackend.Ufi
