import DpuBackend.Lib.Loops
import DpuBackend.Ufi.CacheCoherence
import DpuBackend.Ufi.DebugTransparency
import DpuBackend.Ufi.ResetRank

/-
  A command for all DPUs of an interface reaches the enabled ones.

  Which DPUs are enabled is noted by the rank; an interface knows groups. `dpu_init_groups`, at the
  end of a reset, puts the enabled DPUs into `DPU_ENABLED_GROUP` and the others into
  `DPU_DISABLED_GROUP`, and `ci_disable_dpu` moves a DPU from the one to the other.
  `ufi_select_all` selects all DPUs of an interface, or its enabled group.

  The calls are those of `Commands`, and what they do to the groups of an interface is what its
  decoder does. Their answers are given; `dpu_init_groups` stops at the first that fails.

  Correspondence (C ↔ Lean):
    `dpu_init_groups`                        ↔ `Link.initGroup`, `Link.initGroupsOf`, `Link.initGroupsOfAll`,
                                               `EnabledLink.restore`, `EnabledLink.dpuInitGroups`
    `ci_disable_dpu`, `dpu_disable_one_dpu`  ↔ `Link.selectAndMove`, `EnabledLink.dpuDisableOneDpu`
    `ci_reset_rank` up to `dpu_init_groups`  ↔ `untilGroups`

  What is proved: in every run of calls and disablings after `dpu_init_groups`, a selection of all
  that succeeds selects the enabled DPUs, and no other, of each interface it keeps of which
  `save_enabled_dpus` has saved an enabled DPU (`selectAll_reaches_enabled`). Of an interface without
  one `dpu_init_groups` writes no group, and after a reset all its DPUs are in the group that is
  selected. A disabling whose group write fails is left out: it has moved a DPU that stays enabled
  (`failed_disable_unreached`).

  `untilGroups_opens` links the state that `dpu_init_groups` starts from to the saves of `ResetRank`.
-/

namespace DpuBackend.Ufi

open DpuBackend.Lib

/-! ## The code -/

/-- The rank with its interfaces, and `dpu->enabled`. -/
structure EnabledLink where
  link : Link
  dpuEnabled : Nat → Nat → Bool

/-- A selection, and `ufi_write_group` for the mask it returns. -/
def Link.selectAndMove (l : Link) (op : Op) (group : Nat) (select write : Nat → Answer) : Except CmdError Unit × Link :=
  match l.call op.program select with
  | (.ok _, l') => l'.call (Op.writeGroup (op.effectiveMask l.rank) group).program write
  | (.error e, l') => (.error e, l')

structure GroupAnswers where
  select : Nat → Nat → Nat → Answer
  write : Nat → Nat → Nat → Answer
  selectAll : Nat → Answer
  writeAll : Nat → Answer

def SavedDpus.group (save : SavedDpus) (ci dpu : Nat) : Nat :=
  if (save.enabledDpus ci).getLsbD dpu then enabledGroup else disabledGroup

namespace Link

variable (save : SavedDpus) (a : GroupAnswers)

def initGroup (ci : Nat) (l : Link) (dpu : Nat) : Except CmdError Link :=
  succeeded (l.selectAndMove (.selectDpu (dpuMaskOne ci) dpu) (save.group ci dpu) (a.select ci dpu) (a.write ci dpu))

def initGroupsOf (l : Link) (ci : Nat) : Except CmdError Link :=
  if save.allDpusAreEnabled ci then .ok l
  else if save.enabledDpus ci ≠ 0 then (List.range l.rank.nrDpus).foldlM (initGroup save a ci) l
  else .ok l

def initGroupsOfAll (l : Link) : Except CmdError Link :=
  let ciMask := gatherMask l.rank.nrCis save.allDpusAreEnabled
  if ciMask ≠ 0 then succeeded (l.selectAndMove (.selectAll ciMask) enabledGroup a.selectAll a.writeAll) else .ok l

end Link

namespace EnabledLink

variable (s : EnabledLink)

/-- The saved context becomes the context of the rank. -/
def restore (save : SavedDpus) : EnabledLink where
  link :=
    { s.link with
      rank :=
        { s.link.rank with
          sliceInfo := fun ci =>
            if ci < s.link.rank.nrCis then
              { s.link.rank.sliceInfo ci with
                allDpusAreEnabled := save.allDpusAreEnabled ci
                enabledDpus := save.enabledDpus ci }
            else s.link.rank.sliceInfo ci } }
  dpuEnabled ci dpu :=
    if ci < s.link.rank.nrCis ∧ dpu < s.link.rank.nrDpus then (save.enabledDpus ci).getLsbD dpu else s.dpuEnabled ci dpu

def dpuInitGroups (save : SavedDpus) (a : GroupAnswers) : Except CmdError EnabledLink := do
  let l ← (List.range s.link.rank.nrCis).foldlM (Link.initGroupsOf save a) s.link
  let l ← Link.initGroupsOfAll save a l
  .ok ({ s with link := l }.restore save)

/-- `enabled_dpus`, `all_dpus_are_enabled` and `enabled`, once the DPU is disabled. -/
def disabled (ci dpu : Nat) : EnabledLink where
  link :=
    { s.link with
      rank :=
        { s.link.rank with
          sliceInfo := fun i =>
            if i = ci then
              { s.link.rank.sliceInfo i with
                enabledDpus := dpuMaskUnselect (s.link.rank.sliceInfo i).enabledDpus dpu
                allDpusAreEnabled := false }
            else s.link.rank.sliceInfo i } }
  dpuEnabled i d := if i = ci ∧ d = dpu then false else s.dpuEnabled i d

def dpuDisableOneDpu (ci dpu : Nat) (select write : Nat → Answer) : EnabledLink :=
  if s.dpuEnabled ci dpu then
    match s.link.selectAndMove (.selectDpu (dpuMaskOne ci) dpu) disabledGroup select write with
    | (.ok _, l) => { s with link := l }.disabled ci dpu
    | (.error _, l) => { s with link := l }
  else s

end EnabledLink

/-! ## What the calls note -/

/-- The rank has noted what `r` has, but for the structures. -/
structure CmdRank.Notes (r s : CmdRank) : Prop where
  nrCis : s.nrCis = r.nrCis
  nrDpus : s.nrDpus = r.nrDpus
  copies : ∀ ci, { s.sliceInfo ci with structureValue := 0 } = { r.sliceInfo ci with structureValue := 0 }

namespace CmdRank.Notes

variable {r s t : CmdRank}

theorem of_sliceInfo (h : r.Notes s) (hcis : t.nrCis = s.nrCis) (hdpus : t.nrDpus = s.nrDpus)
    (hinfo : ∀ ci, { t.sliceInfo ci with structureValue := 0 } = { s.sliceInfo ci with structureValue := 0 }) :
    r.Notes t :=
  ⟨hcis.trans h.nrCis, hdpus.trans h.nrDpus, fun ci => (hinfo ci).trans (h.copies ci)⟩

theorem target (h : r.Notes s) (ci : Nat) : (s.sliceInfo ci).sliceTarget = (r.sliceInfo ci).sliceTarget := by
  have hcopy := congrArg SliceInfo.sliceTarget (h.copies ci)
  exact hcopy

theorem groups (h : r.Notes s) (ci : Nat) : (s.sliceInfo ci).dpusPerGroup = (r.sliceInfo ci).dpusPerGroup := by
  have hcopy := congrArg SliceInfo.dpusPerGroup (h.copies ci)
  exact hcopy

theorem enabledDpus (h : r.Notes s) (ci : Nat) : (s.sliceInfo ci).enabledDpus = (r.sliceInfo ci).enabledDpus := by
  have hcopy := congrArg SliceInfo.enabledDpus (h.copies ci)
  exact hcopy

theorem allDpusAreEnabled (h : r.Notes s) (ci : Nat) :
    (s.sliceInfo ci).allDpusAreEnabled = (r.sliceInfo ci).allDpusAreEnabled := by
  have hcopy := congrArg SliceInfo.allDpusAreEnabled (h.copies ci)
  exact hcopy

end CmdRank.Notes

section Notes

variable {r : CmdRank} {mask : Mask}

theorem execCmd_notes (addSelectMask : Bool) (packet : Packet) : Keeps r.Notes (execCmd addSelectMask packet) := by
  refine triple_get fun s hs => triple_ite (fun _ => triple_throw fun t ht => ?_) fun _ => triple_get fun t ht => ?_
  · rw [ht]
    exact hs
  · rw [ht]
    split
    · exact fun _ _ => hs.of_sliceInfo rfl rfl fun _ => rfl
    · exact fun _ _ => hs.of_sliceInfo rfl rfl fun _ => rfl
    · exact fun _ _ => hs.of_sliceInfo rfl rfl fun _ => rfl

theorem cmds_notes (packet : CmdRank → Packet) (addSelectMask : Bool) :
    Keeps r.Notes (do let s ← get; execCmd addSelectMask (packet s)) :=
  triple_get fun _ hs => (execCmd_notes addSelectMask _).pre fun _ ht => ht ▸ hs

theorem prepareAndExec_notes (word : Word) : Keeps r.Notes (prepareAndExec mask word) :=
  triple_bind (R := fun _ => r.Notes) (triple_modify fun _ hs => hs.of_sliceInfo rfl rfl fun _ => rfl) fun _ =>
    cmds_notes _ false

theorem execWriteStructure_notes (struct : Word) : Keeps r.Notes (execWriteStructure mask struct) := by
  refine triple_get fun s hs => triple_bind (R := fun _ => r.Notes) (fun _ _ => ?_) fun _ =>
    triple_ite (fun _ => ?_) fun _ => ?_
  · refine hs.of_sliceInfo rfl rfl fun ci => ?_
    simp only [CmdRank.setStructure]
    split
    · rfl
    · rfl
  · exact prepareAndExec_notes _
  · exact triple_pure fun _ ht => ht

theorem execWriteStructures_notes (structures : Packet) : Keeps r.Notes (execWriteStructures mask structures) := by
  refine triple_get fun s hs => triple_bind (R := fun _ => r.Notes) (fun _ _ => ?_) fun _ =>
    triple_ite (fun _ => ?_) fun _ => ?_
  · refine hs.of_sliceInfo rfl rfl fun ci => ?_
    dsimp only
    split
    · rfl
    · rfl
  · exact execCmd_notes false _
  · exact triple_pure fun _ ht => ht

theorem execFrame_notes (struct frame : Word) : Keeps r.Notes (execFrame mask struct frame) :=
  (execWriteStructure_notes struct).bind fun _ => prepareAndExec_notes frame

theorem execNextFrames_notes (frame : Nat → Word) : Keeps r.Notes (execNextFrames mask frame) :=
  triple_bind (R := fun _ => r.Notes) (triple_modify fun _ hs => hs.of_sliceInfo rfl rfl fun _ => rfl) fun _ =>
    cmds_notes _ false

theorem execOwnFrames_notes (struct : Word) (frame : Nat → Word) : Keeps r.Notes (execOwnFrames mask struct frame) :=
  (execWriteStructure_notes struct).bind fun _ => execNextFrames_notes frame

theorem memoryWrite_notes {struct : Word → Word} {frame : Word → Word → Word} {src : Nat → Nat → Word}
    {offset len : BitVec 16} : Keeps r.Notes (memoryWrite mask struct frame src offset len) :=
  keeps_forM fun _ _ => (execWriteStructure_notes _).bind fun _ =>
    triple_bind (R := fun _ => r.Notes) (triple_modify fun _ hs => hs.of_sliceInfo rfl rfl fun _ => rfl) fun _ =>
      cmds_notes _ true

/-- The calls that change no target and no group note nothing else either. -/
theorem plain_notes {op : Op} (hframed : op.Framed) (hplain : op.Plain) : Keeps r.Notes op.program := by
  cases op with
  | byteOrder _ => exact hframed.elim
  | softReset _ _ _ => exact hframed.elim
  | bitConfig _ _ _ _ _ => exact hframed.elim
  | thermalConfig _ _ => exact hframed.elim
  | carouselConfig _ _ => exact hframed.elim
  | iramRepairConfig _ _ => exact hframed.elim
  | wramRepairConfig _ _ _ => exact hframed.elim
  | selectAll _ => exact hplain.elim
  | selectAllUncached _ => exact hplain.elim
  | selectAllEvenDisabled _ => exact hplain.elim
  | selectGroup _ _ => exact hplain.elim
  | selectGroupUncached _ _ => exact hplain.elim
  | selectDpu _ _ => exact hplain.elim
  | selectDpuUncached _ _ => exact hplain.elim
  | selectDpuEvenDisabled _ _ => exact hplain.elim
  | writeGroup _ _ => exact hplain.elim
  | identity _ => exact prepareAndExec_notes _
  | selectCis _ => exact keeps_pure _
  | frame _ _ => exact execFrame_notes _ _
  | setPcMode _ _ => exact execOwnFrames_notes _ _
  | setStackDirection _ _ => exact execOwnFrames_notes _ _
  | writeDmaCtrlDatas _ _ _ => exact execOwnFrames_notes _ _
  | iramWrite _ _ _ _ => exact memoryWrite_notes
  | wramWrite _ _ _ _ => exact memoryWrite_notes
  | iramRead _ _ _ => exact keeps_forM fun _ _ => keeps_forM fun _ _ => execFrame_notes _ _
  | wramRead _ _ _ => exact keeps_forM fun _ _ => execFrame_notes _ _
  | setMramMux _ _ =>
    refine (execOwnFrames_notes _ _).bind fun _ => (execFrame_notes _ _).bind fun _ => ?_
    exact (execOwnFrames_notes _ _).bind fun _ => (execOwnFrames_notes _ _).bind fun _ => execFrame_notes _ _
  | debugPcRead _ => exact (execFrame_notes _ _).bind fun _ => execFrame_notes _ _

/-- A selection notes its targets first. -/
theorem selectOne_notes (want : SliceInfo → Option SliceTarget) (target : SliceTarget) :
    Triple (fun s => s = r) (selectOne want target mask) (fun _ => (r.setTargets want mask).Notes)
      fun _ => (r.setTargets want mask).Notes := by
  refine triple_get fun s hs => ?_
  subst hs
  refine triple_bind (R := fun _ => (s.setTargets want mask).Notes) (fun _ _ => ⟨rfl, rfl, fun _ => rfl⟩) fun _ => ?_
  exact triple_ite (fun _ => execFrame_notes _ _) fun _ => triple_pure fun _ ht => ht

theorem selectEach_notes (want : SliceInfo → Option SliceTarget) :
    Triple (fun s => s = r) (selectEach want mask) (fun _ => (r.setTargets want mask).Notes)
      fun _ => (r.setTargets want mask).Notes := by
  refine triple_get fun s hs => ?_
  subst hs
  refine triple_bind (R := fun _ => (s.setTargets want mask).Notes) (fun _ _ => ⟨rfl, rfl, fun _ => rfl⟩) fun _ => ?_
  refine triple_ite (fun _ => ?_) fun _ => triple_pure fun _ ht => ht
  exact (execWriteStructures_notes _).bind fun _ => cmds_notes _ false

theorem selectUncached_notes (target : SliceTarget) :
    Triple (fun s => s = r) (selectUncached target mask) (fun _ => (r.setTargets (fun _ => some target) mask).Notes)
      fun _ => (r.setTargets (fun _ => some target) mask).Notes := by
  refine triple_bind (R := fun _ => (r.setTargets (fun _ => some target) mask).Notes) (triple_modify fun s hs => ?_)
    fun _ => execFrame_notes _ _
  rw [hs]
  exact ⟨rfl, rfl, fun _ => rfl⟩

/-- A group write that succeeds notes the groups of all interfaces of the mask. -/
theorem writeGroup_notes (group : Nat) :
    Triple (fun s => s = r) (writeGroup mask group) (fun _ => (Exchange.moved r mask group []).Notes)
      fun _ _ => True := by
  refine triple_get fun s hs => ?_
  subst hs
  refine triple_bind ((Exchange.moveToGroup_loop s mask group).weaken (fun _ h => h) (fun _ t ht => ?_)
    fun _ _ _ => trivial) fun _ =>
      (execFrame_notes (r := Exchange.moved s mask group []) _ _).weaken (fun _ h => h) (fun _ _ h => h)
        fun _ _ _ => trivial
  rw [ht]
  exact ⟨rfl, rfl, fun _ => rfl⟩

/-- Nothing is noted anew of groups and of enabled DPUs. -/
structure SameGroups (r s : CmdRank) : Prop where
  nrCis : s.nrCis = r.nrCis
  nrDpus : s.nrDpus = r.nrDpus
  groups : ∀ ci, (s.sliceInfo ci).dpusPerGroup = (r.sliceInfo ci).dpusPerGroup
  enabledDpus : ∀ ci, (s.sliceInfo ci).enabledDpus = (r.sliceInfo ci).enabledDpus
  allDpusAreEnabled : ∀ ci, (s.sliceInfo ci).allDpusAreEnabled = (r.sliceInfo ci).allDpusAreEnabled

theorem CmdRank.Notes.sameGroups {r s : CmdRank} (h : r.Notes s) : SameGroups r s :=
  ⟨h.nrCis, h.nrDpus, h.groups, h.enabledDpus, h.allDpusAreEnabled⟩

theorem sameGroups_setTargets {s : CmdRank} {want : SliceInfo → Option SliceTarget}
    (h : (r.setTargets want mask).Notes s) : SameGroups r s := by
  have hsame : ∀ ci, ((r.setTargets want mask).sliceInfo ci).dpusPerGroup = (r.sliceInfo ci).dpusPerGroup ∧
      ((r.setTargets want mask).sliceInfo ci).enabledDpus = (r.sliceInfo ci).enabledDpus ∧
      ((r.setTargets want mask).sliceInfo ci).allDpusAreEnabled = (r.sliceInfo ci).allDpusAreEnabled := by
    intro ci
    simp only [CmdRank.setTargets]
    split
    · exact ⟨rfl, rfl, rfl⟩
    · exact ⟨rfl, rfl, rfl⟩
  exact ⟨h.nrCis, h.nrDpus, fun ci => (h.groups ci).trans (hsame ci).1,
    fun ci => (h.enabledDpus ci).trans (hsame ci).2.1, fun ci => (h.allDpusAreEnabled ci).trans (hsame ci).2.2⟩

/-- Only a group write changes groups. -/
theorem op_sameGroups {op : Op} (hframed : op.Framed) (hwrite : ∀ mask group, op ≠ .writeGroup mask group) :
    Triple (fun s => s = r) op.program (fun _ => SameGroups r) fun _ => SameGroups r := by
  have hsets : ∀ {program : CmdM PUnit} {want : SliceInfo → Option SliceTarget} {mask : Mask},
      Triple (fun s => s = r) program (fun _ => (r.setTargets want mask).Notes)
        (fun _ => (r.setTargets want mask).Notes) →
        Triple (fun s => s = r) program (fun _ => SameGroups r) fun _ => SameGroups r :=
    fun h => h.weaken (fun _ h => h) (fun _ _ => sameGroups_setTargets) fun _ _ => sameGroups_setTargets
  have hplain : op.Plain → Triple (fun s => s = r) op.program (fun _ => SameGroups r) fun _ => SameGroups r := by
    intro hplain
    refine (plain_notes (r := r) hframed hplain).weaken (fun s hs => ?_) (fun _ _ h => h.sameGroups)
      fun _ _ h => h.sameGroups
    rw [hs]
    exact ⟨rfl, rfl, fun _ => rfl⟩
  cases op with
  | selectAll mask => exact hsets (selectEach_notes _)
  | selectAllEvenDisabled mask => exact hsets (selectEach_notes _)
  | selectGroup mask group => exact hsets (selectOne_notes _ _)
  | selectDpu mask dpu => exact hsets (selectOne_notes _ _)
  | selectDpuEvenDisabled mask dpu => exact hsets (selectOne_notes _ _)
  | selectAllUncached mask => exact hsets (selectUncached_notes _)
  | selectGroupUncached mask group => exact hsets (selectUncached_notes _)
  | selectDpuUncached mask dpu => exact hsets (selectUncached_notes _)
  | writeGroup mask group => exact absurd rfl (hwrite mask group)
  | _ => exact hplain trivial

end Notes

/-! ## Calls that succeed -/

section Calls

variable {l l' : Link} {answers : Nat → Answer}

/-- A call that succeeds keeps the agreement, with whatever it has sent. -/
theorem Link.Coherent.call_ok (h : l.Coherent) (op : Op) (hframed : op.Framed) (htargets : op.hasTargets l.rank = true)
    (hok : l.call op.program answers = (.ok (), l')) : l'.Coherent := by
  obtain ⟨hle, hkeeps⟩ := h
  have hstart : (l.started False answers hkeeps.nrCis_le).Inv (agrees l.rank.nrDpus)
      (l.rank.begin fun k => (answers k).outcome) := hkeeps.inv
  have hprogram := Exchange.op_coherent (c := l.started False answers hkeeps.nrCis_le) hle hstart hframed htargets
  obtain ⟨s, hs, hinv⟩ := Link.call_ok (hprogram.weaken (fun _ h => h) (fun _ _ h => h) fun _ _ _ => trivial) hok
  have hdpus : (l.after answers s).rank.nrDpus = l.rank.nrDpus := hinv.runs.nrDpus
  rw [hs]
  refine ⟨hdpus ▸ hle, ?_⟩
  rw [hdpus]
  exact hinv.keeps.1

/-- What a call that succeeds notes. -/
theorem Link.notes_ok {program : CmdM PUnit} {Q : CmdRank → Prop}
    (h : Triple (fun s => s = l.rank.begin fun k => (answers k).outcome) program (fun _ => Q) fun _ _ => True)
    (hok : l.call program answers = (.ok (), l')) : Q l'.rank := by
  obtain ⟨s, hs, hq⟩ := Link.call_ok h hok
  rw [hs]
  exact hq

theorem Link.notes_end {program : CmdM PUnit} {Q : CmdRank → Prop}
    (h : Triple (fun s => s = l.rank.begin fun k => (answers k).outcome) program (fun _ => Q) fun _ => Q) :
    Q (l.call program answers).2.rank := by
  obtain ⟨s, hcall, hq⟩ | ⟨e, s, hcall, hq⟩ := Link.call_ends h
  · rw [hcall]
    exact hq
  · rw [hcall]
    exact hq

/-- What has been noted decides what a group write notes. -/
theorem CmdRank.Notes.moved {r s : CmdRank} (h : r.Notes s) (mask : Mask) (group : Nat) :
    (Exchange.moved r mask group []).Notes (Exchange.moved s mask group []) := by
  refine ⟨h.nrCis, h.nrDpus, fun ci => ?_⟩
  have hvisits : s.visits mask ci = r.visits mask ci := by rw [CmdRank.visits, CmdRank.visits, h.nrCis]
  have hdpus : (s.sliceInfo ci).selectedDpuMask s.nrDpus = (r.sliceInfo ci).selectedDpuMask r.nrDpus := by
    unfold SliceInfo.selectedDpuMask
    rw [h.target ci, h.nrDpus, h.groups ci]
  have hcopy := h.copies ci
  simp only [Exchange.moved, hvisits, hdpus]
  split
  · exact hcopy
  · have hmove : ∀ info : SliceInfo, ∀ dpus, { info.moveToGroup group dpus with structureValue := 0 } =
        SliceInfo.moveToGroup { info with structureValue := 0 } group dpus := fun _ _ => rfl
    rw [hmove, hmove, hcopy]

/-- The selected interfaces have their new targets noted. -/
theorem setTargets_selected {r : CmdRank} {want : SliceInfo → Option SliceTarget} {mask : Mask} {ci : Nat}
    (hci : ci < r.nrCis) (h : (r.selected want mask).getLsbD ci = true) :
    want (r.sliceInfo ci) = some ((r.setTargets want mask).sliceInfo ci).sliceTarget := by
  obtain ⟨hvisit, hsome⟩ := Exchange.selected_wants hci h
  obtain ⟨t, ht⟩ := Option.isSome_iff_exists.mp hsome
  rw [ht]
  simp [CmdRank.setTargets, hvisit, ht, SliceInfo.retarget]

/-- The rank after a selection and a group write for the interfaces it keeps. -/
def CmdRank.movedBy (r : CmdRank) (want : SliceInfo → Option SliceTarget) (mask : Mask) (group : Nat) : CmdRank :=
  Exchange.moved (r.setTargets want mask) (r.selected want mask) group []

theorem selectAndMove_ok (h : l.Coherent) (op : Op) (hframed : op.Framed) {want : SliceInfo → Option SliceTarget}
    {mask : Mask}
    (hnotes : ∀ o, Triple (fun s => s = l.rank.begin o) op.program
      (fun _ => ((l.rank.begin o).setTargets want mask).Notes) fun _ => ((l.rank.begin o).setTargets want mask).Notes)
    (htargets : op.hasTargets l.rank = true) (hwant : ∀ info t, want info = some t → t ≠ .none)
    (hmask : op.effectiveMask l.rank = l.rank.selected want mask) {group : Nat} (hgroup : group < maxNrGroups)
    {select write : Nat → Answer} (hok : l.selectAndMove op group select write = (.ok (), l')) :
    l'.Coherent ∧ (l.rank.movedBy want mask group).Notes l'.rank := by
  unfold Link.selectAndMove at hok
  cases hselect : l.call op.program select with
  | mk result l₁ =>
    rw [hselect] at hok
    cases result with
    | error e => cases hok
    | ok _ =>
      rw [hmask] at hok
      have hcoherent := h.call_ok op hframed htargets hselect
      have hnoted : (l.rank.setTargets want mask).Notes l₁.rank := by
        have hbegun := Link.notes_ok ((hnotes _).weaken (fun _ h => h) (fun _ _ h => h) fun _ _ _ => trivial) hselect
        exact ⟨hbegun.nrCis, hbegun.nrDpus, hbegun.copies⟩
      have hhas : (Op.writeGroup (l.rank.selected want mask) group).hasTargets l₁.rank = true := by
        refine List.all_eq_true.mpr fun ci hci => ?_
        have hcis : ci < l.rank.nrCis := hnoted.nrCis ▸ List.mem_range.mp hci
        cases hbit : (l.rank.selected want mask).getLsbD ci with
        | false => rfl
        | true =>
          have hne := hwant _ _ (setTargets_selected hcis hbit)
          rw [← hnoted.target ci] at hne
          simp [hne]
      have hframed' : (Op.writeGroup (l.rank.selected want mask) group).Framed := hgroup
      refine ⟨hcoherent.call_ok _ hframed' hhas hok, ?_⟩
      have hwritten := Link.notes_ok (writeGroup_notes group) hok
      have hmoved := hnoted.moved (l.rank.selected want mask) group
      exact ⟨hwritten.nrCis.trans hmoved.nrCis, hwritten.nrDpus.trans hmoved.nrDpus,
        fun ci => (hwritten.copies ci).trans (hmoved.copies ci)⟩

/-! ## Moving DPUs -/

theorem setTargets_groups {r : CmdRank} {want : SliceInfo → Option SliceTarget} {mask : Mask} (ci : Nat) :
    ((r.setTargets want mask).sliceInfo ci).dpusPerGroup = (r.sliceInfo ci).dpusPerGroup := by
  simp only [CmdRank.setTargets]
  split
  · rfl
  · rfl

theorem movedBy_groups {r : CmdRank} {want : SliceInfo → Option SliceTarget} {mask : Mask} {group ci : Nat}
    {dpus : Mask} (hci : ci < r.nrCis) (hsel : (r.selected want mask).getLsbD ci = true)
    (hdpus : ((r.setTargets want mask).sliceInfo ci).selectedDpuMask r.nrDpus = some dpus) :
    ((r.movedBy want mask group).sliceInfo ci).dpusPerGroup =
      ((r.sliceInfo ci).moveToGroup group dpus).dpusPerGroup := by
  have hvisits : (r.setTargets want mask).visits (r.selected want mask) ci = true := by
    rw [CmdRank.visits, hsel, Bool.and_true]
    exact decide_eq_true hci
  have hnr : (r.setTargets want mask).nrDpus = r.nrDpus := rfl
  simp only [CmdRank.movedBy, Exchange.moved, List.not_mem_nil, hvisits, Bool.true_eq_false, or_false, if_false, hnr,
    hdpus, Option.getD_some, SliceInfo.moveToGroup, setTargets_groups]

/-- The groups of the interfaces that are dropped stay. -/
theorem movedBy_dropped {r : CmdRank} {want : SliceInfo → Option SliceTarget} {mask : Mask} {group ci : Nat}
    (hdrop : (r.selected want mask).getLsbD ci = false) :
    ((r.movedBy want mask group).sliceInfo ci).dpusPerGroup = (r.sliceInfo ci).dpusPerGroup := by
  have hvisits : (r.setTargets want mask).visits (r.selected want mask) ci = false := by
    rw [CmdRank.visits, hdrop, Bool.and_false]
  simp only [CmdRank.movedBy, Exchange.moved, hvisits, or_true, if_true, setTargets_groups]

theorem movedBy_enabled {r : CmdRank} {want : SliceInfo → Option SliceTarget} {mask : Mask} {group ci : Nat} :
    ((r.movedBy want mask group).sliceInfo ci).enabledDpus = (r.sliceInfo ci).enabledDpus ∧
      ((r.movedBy want mask group).sliceInfo ci).allDpusAreEnabled = (r.sliceInfo ci).allDpusAreEnabled := by
  have hmoved :
      ((r.movedBy want mask group).sliceInfo ci).enabledDpus = ((r.setTargets want mask).sliceInfo ci).enabledDpus ∧
      ((r.movedBy want mask group).sliceInfo ci).allDpusAreEnabled =
        ((r.setTargets want mask).sliceInfo ci).allDpusAreEnabled := by
    simp only [CmdRank.movedBy, Exchange.moved]
    split
    · exact ⟨rfl, rfl⟩
    · exact ⟨rfl, rfl⟩
  rw [hmoved.1, hmoved.2]
  simp only [CmdRank.setTargets]
  split
  · exact ⟨rfl, rfl⟩
  · exact ⟨rfl, rfl⟩

/-- The groups of an interface once the DPUs of `dpus` are in `group`. -/
theorem moveToGroup_bit {info : SliceInfo} {group group' : Nat} {dpus : Mask} {dpu : Nat}
    (hgroup : group' < maxNrGroups) (hlt : dpu < 8) : ((info.moveToGroup group dpus).dpusPerGroup group').getLsbD dpu =
      if dpus.getLsbD dpu then decide (group' = group) else (info.dpusPerGroup group').getLsbD dpu := by
  simp only [SliceInfo.moveToGroup, if_pos hgroup]
  by_cases hsame : group' = group
  · rw [if_pos hsame, BitVec.getLsbD_or, BitVec.getLsbD_and, BitVec.getLsbD_not]
    cases hbit : dpus.getLsbD dpu <;> simp [hlt, hsame]
  · rw [if_neg hsame, BitVec.getLsbD_and, BitVec.getLsbD_not]
    cases hbit : dpus.getLsbD dpu <;> simp [hlt, hsame]

/-- The `touched` DPUs that are enabled are in the group now, and the others where they were. -/
structure Moved (touched : Nat → Nat → Prop) (group : Nat) (l l' : Link) : Prop where
  coherent : l'.Coherent
  nrCis : l'.rank.nrCis = l.rank.nrCis
  nrDpus : l'.rank.nrDpus = l.rank.nrDpus
  enabledDpus : ∀ ci, (l'.rank.sliceInfo ci).enabledDpus = (l.rank.sliceInfo ci).enabledDpus
  allDpusAreEnabled : ∀ ci, (l'.rank.sliceInfo ci).allDpusAreEnabled = (l.rank.sliceInfo ci).allDpusAreEnabled
  others : ∀ ci < l.rank.nrCis, ∀ dpu < l.rank.nrDpus, ¬touched ci dpu → ∀ group' < maxNrGroups,
    ((l'.rank.sliceInfo ci).dpusPerGroup group').getLsbD dpu = ((l.rank.sliceInfo ci).dpusPerGroup group').getLsbD dpu
  moved : ∀ ci < l.rank.nrCis, ∀ dpu < l.rank.nrDpus, touched ci dpu →
    (l.rank.sliceInfo ci).enabledDpus.getLsbD dpu = true →
      ((l'.rank.sliceInfo ci).dpusPerGroup group).getLsbD dpu = true

theorem dpuTarget_isSome {info : SliceInfo} {dpu : Nat} (h : info.enabledDpus.getLsbD dpu = true) :
    info.dpuTarget dpu = some (.dpu dpu) := by
  have hlt : dpu < 8 := BitVec.lt_of_getLsbD h
  rw [SliceInfo.dpuTarget, if_pos]
  intro hzero
  have hbit : (info.enabledDpus &&& dpuMaskOne dpu).getLsbD dpu = true := by simp [h, hlt]
  rw [hzero] at hbit
  simp at hbit

/-- One DPU. -/
theorem moveOne_ok (h : l.Coherent) {ci dpu group : Nat} (hdpu : dpu < 256) (hgroup : group < maxNrGroups)
    {select write : Nat → Answer}
    (hok : l.selectAndMove (.selectDpu (dpuMaskOne ci) dpu) group select write = (.ok (), l')) :
    Moved (fun i d => i = ci ∧ d = dpu) group l l' := by
  have hwant : ∀ (info : SliceInfo) t, info.dpuTarget dpu = some t → t = .dpu dpu := by
    intro info t heq
    unfold SliceInfo.dpuTarget at heq
    split at heq
    · exact (Option.some.inj heq).symm
    · cases heq
  obtain ⟨hcoherent, hnotes⟩ := selectAndMove_ok h (.selectDpu (dpuMaskOne ci) dpu) hdpu
    (fun _ => selectOne_notes _ _) rfl (fun info t heq => by
      rw [hwant info t heq]
      exact fun hnone => nomatch hnone) rfl hgroup hok
  have hle := h.1
  have hcisle := h.2.nrCis_le
  -- the interfaces that are kept have the DPU selected
  have hselected : ∀ i < l.rank.nrCis, (l.rank.selected (SliceInfo.dpuTarget · dpu) (dpuMaskOne ci)).getLsbD i = true →
      (l'.rank.sliceInfo i).dpusPerGroup = ((l.rank.sliceInfo i).moveToGroup group (dpuMaskOne dpu)).dpusPerGroup := by
    intro i hi hsel
    have hnew := hwant _ _ (setTargets_selected hi hsel)
    rw [hnotes.groups i]
    apply movedBy_groups hi hsel
    rw [SliceInfo.selectedDpuMask, hnew]
  refine ⟨hcoherent, hnotes.nrCis, hnotes.nrDpus, fun i => (hnotes.enabledDpus i).trans movedBy_enabled.1,
    fun i => (hnotes.allDpusAreEnabled i).trans movedBy_enabled.2, ?_, ?_⟩
  · intro i hi d hd hother group' hgroup'
    cases hsel : (l.rank.selected (SliceInfo.dpuTarget · dpu) (dpuMaskOne ci)).getLsbD i with
    | false => rw [hnotes.groups i, movedBy_dropped hsel]
    | true =>
      have hsame : i = ci := by
        have hvisit := (Exchange.selected_wants hi hsel).1
        simp only [CmdRank.visits, dpuMaskOne_bit, Bool.and_eq_true, decide_eq_true_eq] at hvisit
        exact hvisit.2.2
      have hdiffer : d ≠ dpu := fun heq => hother ⟨hsame, heq⟩
      have hlt : d < 8 := by omega
      rw [hselected i hi hsel, moveToGroup_bit hgroup' hlt, dpuMaskOne_bit, if_neg]
      simp [hdiffer]
  · intro i hi d hd htouched henabled
    have hlt : i < 8 ∧ d < 8 := by omega
    rw [htouched.2] at henabled hd hlt ⊢
    have hsel : (l.rank.selected (SliceInfo.dpuTarget · dpu) (dpuMaskOne ci)).getLsbD i = true := by
      rw [CmdRank.selected, BitVec.getLsbD_and, BitVec.getLsbD_not, gatherMask_bit, dpuMaskOne_bit]
      simp [hlt.1, htouched.1.symm, dpuTarget_isSome henabled]
    rw [hselected i hi hsel, moveToGroup_bit hgroup hlt.2, dpuMaskOne_bit]
    simp [hlt.2]

/-- All DPUs of interfaces that have them all enabled. -/
theorem moveAll_ok (h : l.Coherent) {mask : Mask}
    (hopen : ∀ ci < l.rank.nrCis, mask.getLsbD ci = true → (l.rank.sliceInfo ci).allDpusAreEnabled = true)
    {select write : Nat → Answer} (hok : l.selectAndMove (.selectAll mask) enabledGroup select write = (.ok (), l')) :
    Moved (fun i _ => mask.getLsbD i = true) enabledGroup l l' := by
  obtain ⟨hcoherent, hnotes⟩ := selectAndMove_ok h (.selectAll mask) trivial (fun _ => selectEach_notes _) rfl
    (fun info t heq => (Exchange.allTarget_typed info t heq).2) rfl (by decide) hok
  have hle := h.1
  have hcisle := h.2.nrCis_le
  refine ⟨hcoherent, hnotes.nrCis, hnotes.nrDpus, fun i => (hnotes.enabledDpus i).trans movedBy_enabled.1,
    fun i => (hnotes.allDpusAreEnabled i).trans movedBy_enabled.2, ?_, ?_⟩
  · intro i _ d _ hother group' _
    have hdrop : (l.rank.selected SliceInfo.allTarget mask).getLsbD i = false := by
      rw [CmdRank.selected, BitVec.getLsbD_and, Bool.eq_false_iff.mpr hother, Bool.false_and]
    rw [hnotes.groups i, movedBy_dropped hdrop]
  · intro i hi d hd hbit _
    have hlt : i < 8 ∧ d < 8 := by omega
    have hwant : (l.rank.sliceInfo i).allTarget = some .all := if_pos (hopen i hi hbit)
    have hsel : (l.rank.selected SliceInfo.allTarget mask).getLsbD i = true := by
      rw [CmdRank.selected, BitVec.getLsbD_and, BitVec.getLsbD_not, gatherMask_bit, hbit]
      simp [hlt.1, hwant]
    have hnew := setTargets_selected hi hsel
    rw [hwant] at hnew
    have hmask : ((l.rank.setTargets SliceInfo.allTarget mask).sliceInfo i).selectedDpuMask l.rank.nrDpus =
        some (dpuMaskAll l.rank.nrDpus) := by
      rw [SliceInfo.selectedDpuMask, ← Option.some.inj hnew]
    rw [hnotes.groups i, movedBy_groups hi hsel hmask, moveToGroup_bit (by decide) hlt.2, dpuMaskAll_bit]
    simp [hlt.2, hd]

end Calls

/-! ## `dpu_init_groups` -/

/-- In the course of `dpu_init_groups`: the DPUs of `done` are in their group. -/
structure Opening (save : SavedDpus) (n m : Nat) (done : Nat → Nat → Prop) (l : Link) : Prop where
  coherent : l.Coherent
  nrCis : l.rank.nrCis = n
  nrDpus : l.rank.nrDpus = m
  opened : ∀ ci < n, save.allDpusAreEnabled ci = true ∨ save.enabledDpus ci ≠ 0 →
    (l.rank.sliceInfo ci).allDpusAreEnabled = true ∧ ∀ dpu < m, (l.rank.sliceInfo ci).enabledDpus.getLsbD dpu = true
  placed : ∀ ci < n, ∀ dpu < m, done ci dpu →
    ((l.rank.sliceInfo ci).dpusPerGroup (save.group ci dpu)).getLsbD dpu = true

section Opening

variable {save : SavedDpus} {n m : Nat} {done done' touched : Nat → Nat → Prop} {l l' : Link} {a : GroupAnswers}

theorem SavedDpus.group_lt (save : SavedDpus) (ci dpu : Nat) : save.group ci dpu < maxNrGroups := by
  unfold SavedDpus.group
  split
  · decide
  · decide

theorem Opening.mono (h : Opening save n m done l) (hdone : ∀ ci < n, ∀ dpu < m, done' ci dpu → done ci dpu) :
    Opening save n m done' l :=
  ⟨h.coherent, h.nrCis, h.nrDpus, h.opened,
    fun ci hci dpu hdpu hd => h.placed ci hci dpu hdpu (hdone ci hci dpu hdpu hd)⟩

theorem Opening.moved (h : Opening save n m done l) {group : Nat} (hmoved : Moved touched group l l')
    (htouched : ∀ ci < n, ∀ dpu < m, touched ci dpu →
      (save.allDpusAreEnabled ci = true ∨ save.enabledDpus ci ≠ 0) ∧ save.group ci dpu = group) :
    Opening save n m (fun ci dpu => done ci dpu ∨ touched ci dpu) l' := by
  refine ⟨hmoved.coherent, hmoved.nrCis.trans h.nrCis, hmoved.nrDpus.trans h.nrDpus, fun ci hci hopen => ?_,
    fun ci hci dpu hdpu hdone => ?_⟩
  · rw [hmoved.allDpusAreEnabled, hmoved.enabledDpus]
    exact h.opened ci hci hopen
  · have hci' : ci < l.rank.nrCis := h.nrCis.symm ▸ hci
    have hdpu' : dpu < l.rank.nrDpus := h.nrDpus.symm ▸ hdpu
    by_cases htouch : touched ci dpu
    · obtain ⟨hopen, hgroup⟩ := htouched ci hci dpu hdpu htouch
      rw [hgroup]
      exact hmoved.moved ci hci' dpu hdpu' htouch ((h.opened ci hci hopen).2 dpu hdpu)
    · rw [hmoved.others ci hci' dpu hdpu' htouch _ (save.group_lt ci dpu)]
      exact h.placed ci hci dpu hdpu (hdone.resolve_right htouch)

theorem initGroupsOf_opening (h : Opening save n m done l) {ci : Nat} (hok : Link.initGroupsOf save a l ci = .ok l') :
    Opening save n m
      (fun i dpu => done i dpu ∨ i = ci ∧ save.allDpusAreEnabled ci = false ∧ save.enabledDpus ci ≠ 0) l' := by
  unfold Link.initGroupsOf at hok
  split at hok
  · next hall =>
    cases hok
    exact h.mono fun i _ _ _ hdone => hdone.resolve_right fun hthis => absurd hall (by rw [hthis.2.1]; decide)
  · split at hok
    · next hnot hsome =>
      have hle : m ≤ 8 := h.nrDpus ▸ h.coherent.1
      rw [h.nrDpus] at hok
      have hloop := foldlM_range_inv (P := fun k => Opening save n m fun i dpu => done i dpu ∨ i = ci ∧ dpu < k) m
        (fun k hk t t' ht hstep => ?_)
        (h.mono fun i _ _ _ hdone => hdone.resolve_right fun hthis => Nat.not_lt_zero _ hthis.2) hok
      · exact hloop.mono fun i _ dpu hdpu hdone => hdone.imp_right fun hthis => ⟨hthis.1, hdpu⟩
      · have hmoved := moveOne_ok ht.coherent (by omega) (save.group_lt ci k) (succeeded_ok hstep)
        have hnext := ht.moved hmoved fun i _ dpu _ htouch => by
          rw [htouch.1, htouch.2]
          exact ⟨.inr hsome, rfl⟩
        refine hnext.mono fun i _ dpu _ hdone => ?_
        obtain hdone | ⟨hi, hlt⟩ := hdone
        · exact .inl (.inl hdone)
        · obtain hbefore | hthis := Nat.lt_succ_iff_lt_or_eq.mp hlt
          · exact .inl (.inr ⟨hi, hbefore⟩)
          · exact .inr ⟨hi, hthis⟩
    · next hnone =>
      cases hok
      exact h.mono fun i _ _ _ hdone => hdone.resolve_right fun hthis => hnone hthis.2.2

theorem initGroupsOfAll_opening (h : Opening save n m done l)
    (hfull : ∀ ci < n, save.allDpusAreEnabled ci = true → ∀ dpu < m, (save.enabledDpus ci).getLsbD dpu = true)
    (hok : Link.initGroupsOfAll save a l = .ok l') :
    Opening save n m (fun ci dpu => done ci dpu ∨ save.allDpusAreEnabled ci = true) l' := by
  have hle : n ≤ 8 := h.nrCis ▸ h.coherent.2.nrCis_le
  have hmask : ∀ ci < n, (gatherMask l.rank.nrCis save.allDpusAreEnabled).getLsbD ci = save.allDpusAreEnabled ci := by
    intro ci hci
    have hlt : ci < 8 ∧ ci < l.rank.nrCis := ⟨by omega, h.nrCis.symm ▸ hci⟩
    rw [gatherMask_bit, decide_eq_true hlt, Bool.true_and]
  unfold Link.initGroupsOfAll at hok
  dsimp only at hok
  split at hok
  · have hmoved := moveAll_ok h.coherent (fun ci hci hbit => ?_) (succeeded_ok hok)
    · refine (h.moved hmoved fun ci hci dpu hdpu hbit => ?_).mono fun ci hci dpu _ hdone => ?_
      · rw [hmask ci hci] at hbit
        refine ⟨.inl hbit, ?_⟩
        rw [SavedDpus.group, if_pos (hfull ci hci hbit dpu hdpu)]
      · rw [hmask ci hci]
        exact hdone
    · have hci' : ci < n := h.nrCis ▸ hci
      rw [hmask ci hci'] at hbit
      exact (h.opened ci hci' (.inl hbit)).1
  · next hzero =>
    cases hok
    refine h.mono fun ci hci dpu _ hdone => hdone.resolve_right fun hall => ?_
    rw [not_not] at hzero
    have hbit := hmask ci hci
    rw [hzero, hall] at hbit
    simp at hbit

/-- The copies agree, whatever is noted of enabled DPUs. -/
theorem Link.Coherent.of_copies {r : CmdRank} (h : l.Coherent) (hcis : r.nrCis = l.rank.nrCis)
    (hdpus : r.nrDpus = l.rank.nrDpus) (hcmds : r.cmds = l.rank.cmds)
    (hinfo : ∀ ci, (r.sliceInfo ci).structureValue = (l.rank.sliceInfo ci).structureValue ∧
      (r.sliceInfo ci).sliceTarget = (l.rank.sliceInfo ci).sliceTarget ∧
      (r.sliceInfo ci).dpusPerGroup = (l.rank.sliceInfo ci).dpusPerGroup) : Link.Coherent { l with rank := r } := by
  obtain ⟨hle, hkeeps⟩ := h
  refine ⟨hdpus ▸ hle, hcis ▸ hkeeps.nrCis_le, fun ci hci => hkeeps.color ci (hcis ▸ hci), fun ci hci => ?_⟩
  obtain ⟨hstruct, htarget, hgroups⟩ := hinfo ci
  have hold := hkeeps.cis ci (hcis ▸ hci)
  show Holds False (agrees r.nrDpus ci) (r.sliceInfo ci) (l.wire.ci ci).decoder (r.cmds ci).word
  rw [hdpus, hcmds]
  refine ⟨?_, ?_, hold.structAgain, ?_, hold.command⟩
  · rw [hstruct]
    exact hold.struct
  · rw [htarget, hgroups]
    exact hold.kept
  · rw [htarget, hgroups]
    exact hold.keptAgain

end Opening

/-! ## Runs -/

/-- The enabled DPUs of the `managed` interfaces are in one group, and the others of them in another. -/
structure EnabledLink.Grouped (managed : Nat → Prop) (s : EnabledLink) : Prop where
  coherent : s.link.Coherent
  full : ∀ ci < s.link.rank.nrCis, (s.link.rank.sliceInfo ci).allDpusAreEnabled = true →
    ∀ dpu < s.link.rank.nrDpus, (s.link.rank.sliceInfo ci).enabledDpus.getLsbD dpu = true
  group : ∀ ci < s.link.rank.nrCis, managed ci → ∀ dpu < s.link.rank.nrDpus,
    ((s.link.rank.sliceInfo ci).dpusPerGroup
      (if (s.link.rank.sliceInfo ci).enabledDpus.getLsbD dpu then enabledGroup else disabledGroup)).getLsbD dpu = true
  enabled : ∀ ci < s.link.rank.nrCis, managed ci → ∀ dpu < s.link.rank.nrDpus,
    s.dpuEnabled ci dpu = (s.link.rank.sliceInfo ci).enabledDpus.getLsbD dpu

section Grouped

variable {save : SavedDpus} {a : GroupAnswers} {managed : Nat → Prop} {s s' : EnabledLink}

/-- On the interfaces of which an enabled DPU is saved, all DPUs are enabled now. -/
structure EnabledLink.Opened (save : SavedDpus) (s : EnabledLink) : Prop where
  coherent : s.link.Coherent
  opened : ∀ ci < s.link.rank.nrCis, save.allDpusAreEnabled ci = true ∨ save.enabledDpus ci ≠ 0 →
    (s.link.rank.sliceInfo ci).allDpusAreEnabled = true ∧
      ∀ dpu < s.link.rank.nrDpus, (s.link.rank.sliceInfo ci).enabledDpus.getLsbD dpu = true
  full : ∀ ci < s.link.rank.nrCis, save.allDpusAreEnabled ci = true →
    ∀ dpu < s.link.rank.nrDpus, (save.enabledDpus ci).getLsbD dpu = true

theorem restore_grouped {n m : Nat} (s : EnabledLink)
    (h : Opening save n m (fun ci _ => save.enabledDpus ci ≠ 0) s.link)
    (hfull : ∀ ci < n, save.allDpusAreEnabled ci = true → ∀ dpu < m, (save.enabledDpus ci).getLsbD dpu = true) :
    (s.restore save).Grouped fun ci => save.enabledDpus ci ≠ 0 := by
  have hinfo : ∀ ci < s.link.rank.nrCis, (s.restore save).link.rank.sliceInfo ci =
      { s.link.rank.sliceInfo ci with
        allDpusAreEnabled := save.allDpusAreEnabled ci
        enabledDpus := save.enabledDpus ci } := fun ci hci => if_pos hci
  refine ⟨?_, fun ci hci hall dpu hdpu => ?_, fun ci hci hsome dpu hdpu => ?_, fun ci hci _ dpu hdpu => ?_⟩
  · refine h.coherent.of_copies rfl rfl rfl fun ci => ?_
    dsimp only
    split
    · exact ⟨rfl, rfl, rfl⟩
    · exact ⟨rfl, rfl, rfl⟩
  · rw [hinfo ci hci] at hall ⊢
    exact hfull ci (h.nrCis ▸ hci) hall dpu (h.nrDpus ▸ hdpu)
  · rw [hinfo ci hci]
    exact h.placed ci (h.nrCis ▸ hci) dpu (h.nrDpus ▸ hdpu) hsome
  · rw [hinfo ci hci]
    exact if_pos ⟨hci, hdpu⟩

theorem dpuInitGroups_grouped (h : s.Opened save) (hok : s.dpuInitGroups save a = .ok s') :
    s'.Grouped fun ci => save.enabledDpus ci ≠ 0 := by
  have hstart : Opening save s.link.rank.nrCis s.link.rank.nrDpus (fun _ _ => False) s.link :=
    ⟨h.coherent, rfl, rfl, h.opened, fun _ _ _ _ hdone => hdone.elim⟩
  unfold EnabledLink.dpuInitGroups at hok
  cases hloop : (List.range s.link.rank.nrCis).foldlM (Link.initGroupsOf save a) s.link with
  | error e =>
    rw [hloop] at hok
    cases hok
  | ok l₁ =>
    rw [hloop] at hok
    have hsome := foldlM_range_inv
      (P := fun k => Opening save s.link.rank.nrCis s.link.rank.nrDpus fun ci _ =>
        ci < k ∧ save.allDpusAreEnabled ci = false ∧ save.enabledDpus ci ≠ 0) _
      (fun k _ t t' ht hstep => (initGroupsOf_opening ht hstep).mono fun ci _ dpu _ hdone => ?_)
      (hstart.mono fun _ _ _ _ hdone => absurd hdone.1 (Nat.not_lt_zero _)) hloop
    · cases hall : Link.initGroupsOfAll save a l₁ with
      | error e =>
        change (Link.initGroupsOfAll save a l₁).bind _ = _ at hok
        rw [hall] at hok
        cases hok
      | ok l₂ =>
        change (Link.initGroupsOfAll save a l₁).bind _ = _ at hok
        rw [hall] at hok
        cases hok
        have hdone := initGroupsOfAll_opening hsome h.full hall
        exact restore_grouped { s with link := l₂ } (hdone.mono fun ci hci dpu _ henabled => by
          cases hfull : save.allDpusAreEnabled ci with
          | true => exact .inr rfl
          | false => exact .inl ⟨hci, rfl, henabled⟩) h.full
    · obtain ⟨hlt, hpart⟩ := hdone
      obtain hbefore | hthis := Nat.lt_succ_iff_lt_or_eq.mp hlt
      · exact .inl ⟨hbefore, hpart⟩
      · exact .inr ⟨hthis, hthis ▸ hpart⟩

/-! ### Steps -/

/-- A call, or the disabling of a DPU. -/
inductive GroupStep where
  | call (op : Op) (answers : Nat → Answer)
  | disable (ci dpu : Nat) (select write : Nat → Answer)

def EnabledLink.step (s : EnabledLink) : GroupStep → EnabledLink
  | .call op answers => { s with link := (s.link.call op.program answers).2 }
  | .disable ci dpu select write => s.dpuDisableOneDpu ci dpu select write

/-- Calls are as `Op.Heeded` says and write no group by themselves. A disabling that gets to its group write
succeeds. -/
def EnabledLink.Heeds (s : EnabledLink) : GroupStep → Prop
  | .call op answers => op.Heeded s.link.rank answers ∧ ∀ mask group, op ≠ .writeGroup mask group
  | .disable ci dpu select write =>
    ci < s.link.rank.nrCis ∧ dpu < s.link.rank.nrDpus ∧ (Op.selectDpu (dpuMaskOne ci) dpu).Heeded s.link.rank select ∧
      ((s.link.call (Op.selectDpu (dpuMaskOne ci) dpu).program select).1 = .ok () →
        (s.link.selectAndMove (.selectDpu (dpuMaskOne ci) dpu) disabledGroup select write).1 = .ok ())

theorem Grouped.of_sameGroups (h : s.Grouped managed) {l : Link} (hcoherent : l.Coherent)
    (hsame : SameGroups s.link.rank l.rank) : EnabledLink.Grouped managed { s with link := l } := by
  refine ⟨hcoherent, fun ci hci hall dpu hdpu => ?_, fun ci hci hmanaged dpu hdpu => ?_,
    fun ci hci hmanaged dpu hdpu => ?_⟩
  · rw [hsame.enabledDpus]
    exact h.full ci (hsame.nrCis ▸ hci) (hsame.allDpusAreEnabled ci ▸ hall) dpu (hsame.nrDpus ▸ hdpu)
  · rw [hsame.enabledDpus, hsame.groups]
    exact h.group ci (hsame.nrCis ▸ hci) hmanaged dpu (hsame.nrDpus ▸ hdpu)
  · rw [hsame.enabledDpus]
    exact h.enabled ci (hsame.nrCis ▸ hci) hmanaged dpu (hsame.nrDpus ▸ hdpu)

theorem call_sameGroups {l : Link} {op : Op} (hframed : op.Framed) (hwrite : ∀ mask group, op ≠ .writeGroup mask group)
    (answers : Nat → Answer) : SameGroups l.rank (l.call op.program answers).2.rank := by
  have hend := Link.notes_end (op_sameGroups (r := l.rank.begin fun k => (answers k).outcome) hframed hwrite)
  exact ⟨hend.nrCis, hend.nrDpus, hend.groups, hend.enabledDpus, hend.allDpusAreEnabled⟩

/-- The DPU has left the group of the enabled ones. -/
theorem disabled_grouped (h : s.Grouped managed) {ci dpu : Nat} {l : Link}
    (hmoved : Moved (fun i d => i = ci ∧ d = dpu) disabledGroup s.link l) (henabled : s.dpuEnabled ci dpu = true) :
    (EnabledLink.disabled { s with link := l } ci dpu).Grouped managed := by
  have hbits : ∀ i d, ((EnabledLink.disabled { s with link := l } ci dpu).link.rank.sliceInfo i).enabledDpus.getLsbD d =
      if i = ci ∧ d = dpu then false else (s.link.rank.sliceInfo i).enabledDpus.getLsbD d := by
    intro i d
    rw [← hmoved.enabledDpus i]
    simp only [EnabledLink.disabled]
    by_cases hi : i = ci
    · rw [if_pos hi, dpuMaskUnselect_bit]
      by_cases hd : d = dpu
      · simp [hi, hd]
      · simp [hi, hd]
    · rw [if_neg hi, if_neg fun hthis => hi hthis.1]
  have hgroups : ∀ i, ((EnabledLink.disabled { s with link := l } ci dpu).link.rank.sliceInfo i).dpusPerGroup =
      (l.rank.sliceInfo i).dpusPerGroup := by
    intro i
    simp only [EnabledLink.disabled]
    split
    · rfl
    · rfl
  refine ⟨?_, fun i hi hall d hd => ?_, fun i hi hmanaged d hd => ?_, fun i hi hmanaged d hd => ?_⟩
  · refine hmoved.coherent.of_copies rfl rfl rfl fun i => ?_
    dsimp only
    split
    · exact ⟨rfl, rfl, rfl⟩
    · exact ⟨rfl, rfl, rfl⟩
  · -- the interface of the DPU is not full any more
    have hother : i ≠ ci := by
      intro heq
      simp [EnabledLink.disabled, heq] at hall
    rw [hbits, if_neg fun hthis => hother hthis.1]
    have hflag : (s.link.rank.sliceInfo i).allDpusAreEnabled = true := by
      rw [← hmoved.allDpusAreEnabled i]
      simpa [EnabledLink.disabled, hother] using hall
    exact h.full i (hmoved.nrCis ▸ hi) hflag d (hmoved.nrDpus ▸ hd)
  · have hi' : i < s.link.rank.nrCis := hmoved.nrCis ▸ hi
    have hd' : d < s.link.rank.nrDpus := hmoved.nrDpus ▸ hd
    rw [hbits, hgroups]
    by_cases hthis : i = ci ∧ d = dpu
    · rw [if_pos hthis, if_neg (by decide)]
      apply hmoved.moved i hi' d hd' hthis
      rw [← h.enabled i hi' hmanaged d hd', hthis.1, hthis.2]
      exact henabled
    · rw [if_neg hthis, hmoved.others i hi' d hd' hthis _ (by split <;> decide)]
      exact h.group i hi' hmanaged d hd'
  · have hi' : i < s.link.rank.nrCis := hmoved.nrCis ▸ hi
    rw [hbits, ← h.enabled i hi' hmanaged d (hmoved.nrDpus ▸ hd)]
    rfl

theorem step_grouped (h : s.Grouped managed) {step : GroupStep} (hheeds : s.Heeds step) :
    (s.step step).Grouped managed := by
  cases step with
  | call op answers =>
    obtain ⟨hop, hwrite⟩ := hheeds
    exact Grouped.of_sameGroups h (h.coherent.call hop).1 (call_sameGroups hop.framed hwrite answers)
  | disable ci dpu select write =>
    obtain ⟨hci, hdpu, hselect, hwrite⟩ := hheeds
    show (s.dpuDisableOneDpu ci dpu select write).Grouped managed
    unfold EnabledLink.dpuDisableOneDpu
    split
    · next henabled =>
      split
      · next l hok =>
        have hle := h.coherent.1
        exact disabled_grouped h (moveOne_ok h.coherent (by omega) (by decide) hok) henabled
      · next e l herror =>
        -- the selection has failed
        cases hcall : s.link.call (Op.selectDpu (dpuMaskOne ci) dpu).program select with
        | mk result l₁ =>
          cases result with
          | ok _ =>
            rw [hcall, herror] at hwrite
            exact absurd (hwrite rfl) (fun heq => nomatch heq)
          | error e' =>
            have hl : l = l₁ := by
              rw [Link.selectAndMove, hcall] at herror
              exact (congrArg Prod.snd herror).symm
            have hcoherent := (h.coherent.call hselect).1
            have hsame := call_sameGroups hselect.framed (fun _ _ heq => nomatch heq) select (l := s.link)
            rw [hcall] at hcoherent hsame
            rw [hl]
            exact Grouped.of_sameGroups h hcoherent hsame
    · exact h

/-- The steps of a run, one after the other. -/
def EnabledLink.run (s : EnabledLink) : List GroupStep → EnabledLink
  | [] => s
  | step :: rest => (s.step step).run rest

def EnabledLink.AllHeeded (s : EnabledLink) : List GroupStep → Prop
  | [] => True
  | step :: rest => s.Heeds step ∧ (s.step step).AllHeeded rest

theorem run_grouped : ∀ (steps : List GroupStep) {s : EnabledLink}, s.Grouped managed → s.AllHeeded steps →
    (s.run steps).Grouped managed
  | [], _, h, _ => h
  | _ :: rest, _, h, hheeds => run_grouped rest (step_grouped h hheeds.1) hheeds.2

/-- A selection of all that succeeds. -/
theorem selectAll_selects (h : s.Grouped managed) {mask : Mask} {select : Nat → Answer} {l : Link}
    (hok : s.link.call (Op.selectAll mask).program select = (.ok (), l)) {ci : Nat} (hci : ci < s.link.rank.nrCis)
    (hkept : ((Op.selectAll mask).effectiveMask s.link.rank).getLsbD ci = true) (hmanaged : managed ci) {dpu : Nat}
    (hdpu : dpu < s.link.rank.nrDpus) : (l.wire.ci ci).decoder.selects dpu = s.dpuEnabled ci dpu := by
  have hle := h.coherent.1
  have hcoherent := h.coherent.call_ok (.selectAll mask) trivial rfl hok
  have hnotes : (s.link.rank.setTargets SliceInfo.allTarget mask).Notes l.rank := by
    have hbegun := Link.notes_ok ((selectEach_notes SliceInfo.allTarget).weaken (fun _ h => h) (fun _ _ h => h)
      fun _ _ _ => trivial) hok
    exact ⟨hbegun.nrCis, hbegun.nrDpus, hbegun.copies⟩
  have hwant := setTargets_selected hci hkept
  rw [← hnotes.target ci] at hwant
  have hgroups : (l.rank.sliceInfo ci).dpusPerGroup = (s.link.rank.sliceInfo ci).dpusPerGroup :=
    (hnotes.groups ci).trans (setTargets_groups ci)
  have hnr : l.rank.nrDpus = s.link.rank.nrDpus := hnotes.nrDpus
  have hci' : ci < l.rank.nrCis := hnotes.nrCis.symm ▸ hci
  have hdpu' : dpu < l.rank.nrDpus := hnr.symm ▸ hdpu
  have hagrees : Agrees _ _ _ _ _ := (hcoherent.2.cis ci hci').kept
  rw [h.enabled ci hci hmanaged dpu hdpu]
  cases hall : (s.link.rank.sliceInfo ci).allDpusAreEnabled with
  | true =>
    have htarget : (l.rank.sliceInfo ci).sliceTarget = .all := by
      rw [SliceInfo.allTarget, if_pos hall] at hwant
      exact (Option.some.inj hwant).symm
    have hlt : dpu < 8 ∧ dpu < l.rank.nrDpus := ⟨by omega, hdpu'⟩
    rw [hcoherent.reached hci' (by rw [SliceInfo.selectedDpuMask, htarget]) hdpu', dpuMaskAll_bit, decide_eq_true hlt,
      h.full ci hci hall dpu hdpu]
  | false =>
    have htarget : (l.rank.sliceInfo ci).sliceTarget = .group enabledGroup := by
      rw [SliceInfo.allTarget, if_neg (by rw [hall]; decide)] at hwant
      split at hwant
      · exact (Option.some.inj hwant).symm
      · split at hwant
        · exact (Option.some.inj hwant).symm
        · cases hwant
    -- the DPU is in one of the two groups, and the interface knows of one group only
    have hplace := h.group ci hci hmanaged dpu hdpu
    rw [hcoherent.reached hci' (by rw [SliceInfo.selectedDpuMask, htarget]) hdpu',
      hagrees.groups _ (by decide) dpu hdpu']
    rw [← hgroups] at hplace
    split at hplace
    · next henabled =>
      rw [hagrees.groups _ (by decide) dpu hdpu'] at hplace
      rw [hplace, henabled]
    · next hdisabled =>
      rw [hagrees.groups _ (by decide) dpu hdpu', decide_eq_true_eq] at hplace
      rw [hplace, Bool.eq_false_iff.mpr hdisabled]
      decide

/-- After `dpu_init_groups`, and whatever has been called and disabled since, a selection of all that succeeds selects
the enabled DPUs of every interface it keeps of which an enabled DPU was saved. -/
theorem selectAll_reaches_enabled {s₀ : EnabledLink} (h : s.Opened save) (hinit : s.dpuInitGroups save a = .ok s₀)
    {steps : List GroupStep} (hheeds : s₀.AllHeeded steps) {mask : Mask} {select : Nat → Answer} {l : Link}
    (hok : (s₀.run steps).link.call (Op.selectAll mask).program select = (.ok (), l)) :
    ∀ ci < (s₀.run steps).link.rank.nrCis,
      ((Op.selectAll mask).effectiveMask (s₀.run steps).link.rank).getLsbD ci = true →
      save.enabledDpus ci ≠ 0 → ∀ dpu < (s₀.run steps).link.rank.nrDpus,
        (l.wire.ci ci).decoder.selects dpu = (s₀.run steps).dpuEnabled ci dpu := by
  intro ci hci hkept hmanaged dpu hdpu
  have hgrouped := run_grouped steps (dpuInitGroups_grouped h hinit) hheeds
  exact selectAll_selects hgrouped hok hci hkept hmanaged hdpu

end Grouped

/-! ## The saves of a reset -/

section Saves

variable (c : ResetConfig) (o : ResetOutcomes)

/-- `ci_reset_rank` up to `dpu_init_groups`. -/
def untilGroups : ResetM SavedDpus := do
  let save ← saveEnabledDpus c none
  command o .byteOrder
  dpuSoftReset c o false
  command o .bitConfig
  command o (.ciShufflingBoxConfig false)
  dpuSoftReset c o true
  command o (.ciShufflingBoxConfig true)
  command o .identity
  dpuThermalConfig o
  command o .carouselConfig
  dpuIramRepairConfig c o
  let save ← saveEnabledDpus c (some save)
  dpuWramRepairConfig c o
  let save ← saveEnabledDpus c (some save)
  command o .dmaConfig
  command o .dmaShufflingBoxConfig
  command o .wavegenConfig
  command o .clearDebug
  command o .clearRunBits
  command o .setPcMode
  command o .setStackDirection
  command o .resetInternalState
  command o .switchMux
  pure save

theorem ciResetRank_eq : ciResetRank c o =
    (untilGroups c o >>= fun save => dpuInitGroups c o save >>= fun _ => command o .setSliceInfo) := by
  simp only [ciResetRank, untilGroups, bind_assoc, pure_bind]

/-- `all_dpus_are_enabled` is set of no interface that has a disabled DPU. -/
def FlagsFull (all : Nat → Bool) (enabled : Nat → Mask) : Prop :=
  ∀ ci < c.nrCis, all ci = true → ∀ dpu < c.nrDpus, (enabled ci).getLsbD dpu = true

def ResetRank.Full (r : ResetRank) : Prop := FlagsFull c r.allDpusAreEnabled r.enabledDpus

def SavedDpus.Full (save : SavedDpus) : Prop := FlagsFull c save.allDpusAreEnabled save.enabledDpus

/-- All DPUs are enabled of the interfaces that have a saved one. -/
def OpenedFor (save : SavedDpus) (r : ResetRank) : Prop :=
  ∀ ci < c.nrCis, save.allDpusAreEnabled ci = true ∨ save.enabledDpus ci ≠ 0 →
    r.allDpusAreEnabled ci = true ∧ ∀ dpu < c.nrDpus, (r.enabledDpus ci).getLsbD dpu = true

/-- The rank of the interfaces has noted what the rank of the reset has. -/
structure EnabledLink.Matches (s : EnabledLink) (r : ResetRank) : Prop where
  nrCis : s.link.rank.nrCis = c.nrCis
  nrDpus : s.link.rank.nrDpus = c.nrDpus
  enabledDpus : ∀ ci, (s.link.rank.sliceInfo ci).enabledDpus = r.enabledDpus ci
  allDpusAreEnabled : ∀ ci, (s.link.rank.sliceInfo ci).allDpusAreEnabled = r.allDpusAreEnabled ci

variable {c o} {r : ResetRank}

theorem OpenedFor.opened {save : SavedDpus} (h : OpenedFor c save r) (hfull : save.Full c) {s : EnabledLink}
    (hmatches : s.Matches c r) (hcoherent : s.link.Coherent) : s.Opened save := by
  refine ⟨hcoherent, fun ci hci hsaved => ?_, fun ci hci hall dpu hdpu => ?_⟩
  · rw [hmatches.allDpusAreEnabled, hmatches.enabledDpus, hmatches.nrDpus]
    exact h ci (hmatches.nrCis ▸ hci) hsaved
  · exact hfull ci (hmatches.nrCis ▸ hci) hall dpu (hmatches.nrDpus ▸ hdpu)

theorem FlagsFull.ne_zero {all : Nat → Bool} {enabled : Nat → Mask} (h : FlagsFull c all enabled) {ci : Nat}
    (hci : ci < c.nrCis) (hall : all ci = true) : enabled ci ≠ 0 := by
  intro hzero
  have hbit := h ci hci hall 0 c.nrDpus_pos
  rw [hzero] at hbit
  simp at hbit

/-- An interface that is talked to has all its DPUs enabled. -/
theorem enableAll_opened {ci : Nat} (hci : ci < c.nrCis) (hsome : r.enabledDpus ci ≠ 0) :
    (r.enableAll c).allDpusAreEnabled ci = true ∧
      ∀ dpu < c.nrDpus, ((r.enableAll c).enabledDpus ci).getLsbD dpu = true := by
  have hle := c.nrDpus_le
  have htalks : (decide (ci < c.nrCis) && decide (r.enabledDpus ci ≠ 0)) = true := by
    rw [decide_eq_true hci, decide_eq_true hsome, Bool.and_self]
  refine ⟨if_pos htalks, fun dpu hdpu => ?_⟩
  change (if _ then _ else _ : Mask).getLsbD dpu = true
  rw [if_pos htalks, dpuMaskAll_bit]
  exact decide_eq_true ⟨by omega, hdpu⟩

theorem ResetRank.Full.enableAll (h : r.Full c) : (r.enableAll c).Full c := by
  intro ci hci hall
  by_cases hsome : r.enabledDpus ci ≠ 0
  · exact (enableAll_opened hci hsome).2
  · have htalks : ¬(decide (ci < c.nrCis) && decide (r.enabledDpus ci ≠ 0)) = true := by
      rw [decide_eq_false hsome, Bool.and_false]
      decide
    have hflag : r.allDpusAreEnabled ci = true := (if_neg htalks).symm.trans hall
    exact absurd (FlagsFull.ne_zero h hci hflag) hsome

theorem ResetRank.Full.disable (h : r.Full c) (dpu : Nat) (cannot : Nat → Bool) : (r.disable c dpu cannot).Full c := by
  intro ci hci hall i hi
  simp only [ResetRank.disable] at hall ⊢
  split at hall
  · cases hall
  · next hkeeps =>
    rw [if_neg hkeeps]
    exact h ci hci hall i hi

theorem command_keeps (I : ResetRank → Prop) (step : ResetStep) : Keeps I (command o step) := by
  unfold command
  split
  · exact keeps_pure _
  · exact triple_throw fun _ hs => hs

theorem checkSomeEnabled_keeps (I : ResetRank → Prop) : Keeps I (checkSomeEnabled c) := by
  refine triple_get fun t ht => triple_ite (fun _ => triple_pure ?_) fun _ => triple_throw ?_
  · exact fun _ hs => hs ▸ ht
  · exact fun _ hs => hs ▸ ht

theorem disable_keeps (dpu : Nat) (cannot : Nat → Bool) :
    Keeps (ResetRank.Full c) (modify fun t => t.disable c dpu cannot : ResetM PUnit) :=
  triple_modify fun _ ht => ht.disable dpu cannot

theorem dpuIramRepairConfig_keeps : Keeps (ResetRank.Full c) (dpuIramRepairConfig c o) := by
  refine triple_ite (fun _ => ?_) fun _ => (command_keeps _ _).bind fun _ => command_keeps _ _
  refine Keeps.bind (keeps_forM fun dpu _ => ?_) fun _ => checkSomeEnabled_keeps _
  exact (disable_keeps dpu _).bind fun _ => (command_keeps _ _).bind fun _ => command_keeps _ _

theorem dpuWramRepairConfig_keeps : Keeps (ResetRank.Full c) (dpuWramRepairConfig c o) := by
  refine triple_ite (fun _ => ?_) fun _ => (command_keeps _ _).bind fun _ => keeps_forM fun _ _ => command_keeps _ _
  refine Keeps.bind (keeps_forM fun dpu _ => keeps_forM fun bank _ => ?_) fun _ => checkSomeEnabled_keeps _
  exact (disable_keeps dpu _).bind fun _ => (command_keeps _ _).bind fun _ => command_keeps _ _

theorem dpuSoftReset_keeps (second : Bool) : Keeps (ResetRank.Full c) (dpuSoftReset c o second) :=
  triple_modify fun _ ht => ht

theorem dpuThermalConfig_keeps (I : ResetRank → Prop) : Keeps I (dpuThermalConfig o) := by
  rw [dpuThermalConfig_eq]
  exact keeps_pure _

/-- A save that follows a full one is full, and the rank is opened for it. -/
theorem saveEnabledDpus_opens (save : Option SavedDpus) (hsave : ∀ old, save = some old → old.Full c)
    {E : ResetError → ResetRank → Prop} :
    Triple (ResetRank.Full c) (saveEnabledDpus c save) (fun new t => t.Full c ∧ new.Full c ∧ OpenedFor c new t) E := by
  refine triple_get fun t ht => triple_bind (R := fun _ t' => t' = t.enableAll c) (triple_modify ?_) fun _ => ?_
  · intro t' ht'
    rw [ht']
  · have hopen : ∀ {ci : Nat}, ci < c.nrCis → t.allDpusAreEnabled ci = true ∨ t.enabledDpus ci ≠ 0 →
        (t.enableAll c).allDpusAreEnabled ci = true ∧
          ∀ dpu < c.nrDpus, ((t.enableAll c).enabledDpus ci).getLsbD dpu = true :=
      fun hci hor => enableAll_opened hci (hor.elim (FlagsFull.ne_zero ht hci) id)
    cases save with
    | none =>
      refine triple_pure fun t' ht' => ?_
      rw [ht']
      exact ⟨ht.enableAll, ht, fun ci hci hor => hopen hci hor⟩
    | some old =>
      have hold := hsave old rfl
      refine triple_pure fun t' ht' => ?_
      rw [ht']
      refine ⟨ht.enableAll, fun ci hci hall dpu hdpu => ?_, fun ci hci hor => hopen hci ?_⟩
      · change (old.allDpusAreEnabled ci && t.allDpusAreEnabled ci) = true at hall
        rw [Bool.and_eq_true] at hall
        change (old.enabledDpus ci &&& t.enabledDpus ci).getLsbD dpu = true
        rw [BitVec.getLsbD_and, hold ci hci hall.1 dpu hdpu, ht ci hci hall.2 dpu hdpu, Bool.and_self]
      · obtain hall | hsome := hor
        · exact .inl (Bool.and_eq_true_iff.mp hall).2
        · refine .inr fun hzero => hsome ?_
          show old.enabledDpus ci &&& t.enabledDpus ci = 0
          rw [hzero]
          exact BitVec.and_zero

/-- A step that keeps what holds, whatever comes of one that fails. -/
theorem Keeps.before {α : Type} {I : ResetRank → Prop} {x : ResetM PUnit} {f : PUnit → ResetM α}
    {Q : α → ResetRank → Prop} (hx : Keeps I x) (hf : Triple I (f ⟨⟩) Q fun _ _ => True) :
    Triple I (x >>= f) Q fun _ _ => True :=
  triple_bind (hx.weaken (fun _ h => h) (fun _ _ h => h) fun _ _ _ => trivial) fun _ => hf

/-- What comes after the last save leaves the rank open. -/
theorem opened_untilGroups {save : SavedDpus} (hfull : save.Full c) :
    Triple (OpenedFor c save) (do
        command o .dmaConfig
        command o .dmaShufflingBoxConfig
        command o .wavegenConfig
        command o .clearDebug
        command o .clearRunBits
        command o .setPcMode
        command o .setStackDirection
        command o .resetInternalState
        command o .switchMux
        pure save)
      (fun save t => ∀ s : EnabledLink, s.Matches c t → s.link.Coherent → s.Opened save) fun _ _ => True := by
  iterate 9 apply Keeps.before (command_keeps _ _)
  exact triple_pure fun t ht s hmatches hcoherent => ht.opened hfull hmatches hcoherent

/-- A reset that gets to `dpu_init_groups` has opened the rank for what it has saved. -/
theorem untilGroups_opens : Triple (ResetRank.Full c) (untilGroups c o)
    (fun save t => ∀ s : EnabledLink, s.Matches c t → s.link.Coherent → s.Opened save) fun _ _ => True := by
  apply triple_bind (saveEnabledDpus_opens none fun _ h => nomatch h)
  intro first
  apply triple_each
  intro t ht
  refine Triple.pre (P := ResetRank.Full c) ?_ fun _ (heq : _ = t) => heq ▸ ht.1
  apply Keeps.before (command_keeps _ .byteOrder)
  apply Keeps.before (dpuSoftReset_keeps false)
  apply Keeps.before (command_keeps _ .bitConfig)
  apply Keeps.before (command_keeps _ (.ciShufflingBoxConfig false))
  apply Keeps.before (dpuSoftReset_keeps true)
  apply Keeps.before (command_keeps _ (.ciShufflingBoxConfig true))
  apply Keeps.before (command_keeps _ .identity)
  apply Keeps.before (dpuThermalConfig_keeps _)
  apply Keeps.before (command_keeps _ .carouselConfig)
  apply Keeps.before dpuIramRepairConfig_keeps
  -- the save after each repair
  apply triple_bind (saveEnabledDpus_opens (some first) fun _ h => Option.some.inj h ▸ ht.2.1)
  intro second
  apply triple_each
  intro u hu
  refine Triple.pre (P := ResetRank.Full c) ?_ fun _ (heq : _ = u) => heq ▸ hu.1
  apply Keeps.before dpuWramRepairConfig_keeps
  apply triple_bind (saveEnabledDpus_opens (some second) fun _ h => Option.some.inj h ▸ hu.2.1)
  intro third
  apply triple_each
  intro v hv
  exact (opened_untilGroups hv.2.1).pre fun _ heq => heq ▸ hv.2.2

end Saves

/-- The interface of `resetPair`, with both DPUs enabled. -/
def openPair : EnabledLink := ⟨resetPair, fun _ _ => true⟩

def bothEnabled : SavedDpus := ⟨fun _ => true, fun _ => 3⟩

def answered : GroupAnswers := ⟨fun _ _ _ => .done, fun _ _ _ => .done, fun _ => .done, fun _ => .done⟩

theorem openPair_opened : openPair.Opened bothEnabled := by
  refine ⟨resetPair_coherent, fun ci _ _ => ⟨rfl, ?_⟩, fun ci _ _ => ?_⟩
  · exact (by decide : ∀ dpu < 2, (3 : Mask).getLsbD dpu = true)
  · exact (by decide : ∀ dpu < 2, (3 : Mask).getLsbD dpu = true)

/-- The first DPU is disabled, with the second one selected. -/
def disableFirst : List GroupStep :=
  [.call (.selectDpu 1 1) fun _ => .done, .disable 0 0 (fun _ => .done) fun _ => .done]

/-- What `dpu_init_groups` leaves. -/
def groupedPair : EnabledLink := (openPair.dpuInitGroups bothEnabled answered).toOption.getD openPair

theorem eq_ok_of_isSome {α : Type} {x : Except CmdError α} {d : α} (h : x.toOption.isSome = true) :
    x = .ok (x.toOption.getD d) := by
  cases x with
  | error e => cases h
  | ok _ => rfl

theorem groupedPair_init : openPair.dpuInitGroups bothEnabled answered = .ok groupedPair :=
  eq_ok_of_isSome (by decide +kernel)

theorem disableFirst_heeded : groupedPair.AllHeeded disableFirst := by
  refine ⟨⟨⟨(by decide : 1 < 256), fun _ _ => rfl, fun _ => rfl, rfl⟩, fun _ _ heq => nomatch heq⟩,
    ⟨?_, ?_, ?_, fun _ => ?_⟩, trivial⟩
  · decide +kernel
  · decide +kernel
  · exact ⟨(by decide : 0 < 256), fun _ _ => rfl, fun _ => rfl, rfl⟩
  · exact eq_ok_of_isSome (d := ()) (by decide +kernel)

/-- The interface still has its second DPU selected, and the selection of all moves to the group that is left. -/
theorem selectAll_after_disable : ∃ l,
    (groupedPair.run disableFirst).link.call (Op.selectAll 1).program (fun _ => .done) = (.ok (), l) ∧
      (l.wire.ci 0).decoder.selects 0 = false ∧ (l.wire.ci 0).decoder.selects 1 = true := by
  have hok : ((groupedPair.run disableFirst).link.call (Op.selectAll 1).program fun _ => .done) =
      (.ok (), ((groupedPair.run disableFirst).link.call (Op.selectAll 1).program fun _ => .done).2) :=
    Prod.ext (eq_ok_of_isSome (d := ()) (by decide +kernel)) rfl
  have hreaches := selectAll_reaches_enabled openPair_opened groupedPair_init disableFirst_heeded hok 0
    (by decide +kernel) (by decide +kernel) (by decide)
  exact ⟨_, hok, (hreaches 0 (by decide +kernel)).trans (by decide +kernel),
    (hreaches 1 (by decide +kernel)).trans (by decide +kernel)⟩

/-- Then the second one too, whose group write is not answered in time. -/
def failSecond : List GroupStep :=
  [.disable 0 1 (fun _ => .done) fun _ => .failed .timeout fun _ => true]

/-- It stays enabled, and no selection of all reaches it. -/
theorem failed_disable_unreached : ((groupedPair.run disableFirst).run failSecond).dpuEnabled 0 1 = true ∧
    (((((groupedPair.run disableFirst).run failSecond).link.call (Op.selectAll 1).program fun _ => .done).2).wire.ci
      0).decoder.selects 1 = false := by
  constructor
  · decide +kernel
  · decide +kernel

end DpuBackend.Ufi
