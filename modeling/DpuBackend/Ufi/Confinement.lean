import DpuBackend.Ufi.Commands

/-
  Confinement of commands: which packets a call of the UFI layer sends.

  A packet is confined when every interface of the rank that gets a command in it
  belongs to the call's effective mask and the command was built by the call. The
  operations that prepare the whole buffer are confined always. Those that write
  only the entries of their mask are confined when the structure they send first
  has prepared the buffer, or nothing is left in it outside their mask.

  `Within` is the invariant of a call; that it fails once is never undone
  (`Keeps` of its negation), so the first bad packet decides. `run_confined_iff`
  says exactly which sequences of calls are confined.
-/

namespace DpuBackend.Ufi

open DpuBackend.Lib

def Confined (nrCis : Nat) (mask : Mask) (packet : Packet) : Prop :=
  ∀ ci < nrCis, (packet ci).word = ciEmpty ∨ (mask.getLsbD ci = true ∧ (packet ci).ours = true)

/-- Every packet the call has sent is confined. -/
def CmdRank.Within (r : CmdRank) (mask : Mask) : Prop := ∀ packet ∈ r.commits, Confined r.nrCis mask packet

/-- Nothing is left in the buffer for the interfaces outside the mask. -/
def CmdRank.EmptyOutside (r : CmdRank) (mask : Mask) : Prop :=
  ∀ ci < r.nrCis, mask.getLsbD ci = false → (r.cmds ci).word = ciEmpty

/-- The call is confined so far, and its buffer is. -/
structure CmdRank.Tidy (r : CmdRank) (mask : Mask) : Prop where
  within : r.Within mask
  buffer : Confined r.nrCis mask r.cmds

/-- The call is confined so far, and its buffer is but for the entries of the mask. -/
structure CmdRank.Cleared (r : CmdRank) (mask : Mask) : Prop where
  within : r.Within mask
  outside : r.EmptyOutside mask

theorem CmdRank.Tidy.cleared {r : CmdRank} {mask : Mask} (h : r.Tidy mask) : r.Cleared mask := by
  refine ⟨h.within, fun ci hci hout => ?_⟩
  obtain hempty | ⟨hin, -⟩ := h.buffer ci hci
  · exact hempty
  · rw [hout] at hin
    contradiction

theorem mustWriteStructure_iff {r : CmdRank} {mask : Mask} {struct : Word} :
    r.mustWriteStructure mask struct = true
      ↔ ∃ ci < r.nrCis, mask.getLsbD ci = true ∧ (r.sliceInfo ci).structureValue ≠ struct := by
  simp [CmdRank.mustWriteStructure]

/-! ## Commands -/

/-- What a command changes. -/
structure Sent (r : CmdRank) (packet : Packet) (s : CmdRank) : Prop where
  nrCis : s.nrCis = r.nrCis
  nrDpus : s.nrDpus = r.nrDpus
  sliceInfo : s.sliceInfo = r.sliceInfo
  cmds : s.cmds = r.cmds
  outcome : s.outcome = r.outcome
  commits : s.commits = r.commits ∨ s.commits = packet :: r.commits

theorem ciCommitCommands_spec (r : CmdRank) (packet : Packet) :
    Triple (fun s => s = r) (ciCommitCommands packet) (fun _ s => Sent r packet s ∧ s.commits = packet :: r.commits)
      fun _ s => Sent r packet s ∧ r.outcome r.clock ≠ .done := by
  refine triple_get fun s hs => ?_
  subst hs
  cases h : s.outcome s.clock with
  | refused e =>
    rintro t rfl
    exact ⟨⟨rfl, rfl, rfl, rfl, rfl, .inl rfl⟩, by simp⟩
  | failed e =>
    rintro t rfl
    exact ⟨⟨rfl, rfl, rfl, rfl, rfl, .inr rfl⟩, by simp⟩
  | done =>
    rintro t rfl
    exact ⟨⟨rfl, rfl, rfl, rfl, rfl, .inr rfl⟩, rfl⟩

theorem Sent.within {r s : CmdRank} {packet : Packet} {mask : Mask} (h : Sent r packet s) (hr : r.Within mask)
    (hp : Confined r.nrCis mask packet) : s.Within mask := by
  intro p hmem
  rw [h.nrCis]
  obtain hc | hc := h.commits
  · rw [hc] at hmem
    exact hr p hmem
  · rw [hc] at hmem
    obtain rfl | hmem := List.mem_cons.mp hmem
    · exact hp
    · exact hr p hmem

/-- What has been sent stays sent. -/
theorem Sent.not_within {r s : CmdRank} {packet : Packet} {mask : Mask} (h : Sent r packet s) (hr : ¬r.Within mask) :
    ¬s.Within mask := by
  intro hs
  refine hr fun p hmem => ?_
  rw [← h.nrCis]
  refine hs p ?_
  obtain hc | hc := h.commits
  · rwa [hc]
  · rw [hc]
    exact List.mem_cons_of_mem _ hmem

theorem Sent.tidy {r s : CmdRank} {mask : Mask} (h : Sent r r.cmds s) (hr : r.Tidy mask) : s.Tidy mask := by
  refine ⟨h.within hr.within hr.buffer, ?_⟩
  rw [h.nrCis, h.cmds]
  exact hr.buffer

theorem execCmd_spec (r : CmdRank) (addSelectMask : Bool) (packet : Packet) :
    Triple (fun s => s = r) (execCmd addSelectMask packet)
      (fun _ s => Sent r packet s ∧ s.commits = packet :: r.commits)
      fun _ s => Sent r packet s ∧ ((addSelectMask && r.lacksTarget packet) = true ∨ r.outcome r.clock ≠ .done) := by
  refine triple_get fun s hs => ?_
  subst hs
  refine triple_ite (fun hlack => triple_throw fun t ht => ?_) fun _ => ?_
  · subst ht
    exact ⟨⟨rfl, rfl, rfl, rfl, rfl, .inl rfl⟩, .inl hlack⟩
  · exact (ciCommitCommands_spec s packet).weaken (fun _ h => h) (fun _ _ h => h) fun _ _ h => ⟨h.1, .inr h.2⟩

variable {mask : Mask}

theorem execCmd_not_within (addSelectMask : Bool) (packet : Packet) :
    Keeps (fun s => ¬s.Within mask) (execCmd addSelectMask packet) := by
  refine triple_each fun s hs => ?_
  refine (execCmd_spec s addSelectMask packet).weaken (fun _ h => h) ?_ ?_
  · exact fun _ _ h => h.1.not_within hs
  · exact fun _ _ h => h.1.not_within hs

theorem execCmds_tidy (addSelectMask : Bool) :
    Triple (fun s => s.Tidy mask) (do let r ← get; execCmd addSelectMask r.cmds) (fun _ s => s.Tidy mask)
      fun _ s => s.Within mask := by
  refine triple_get fun s hs => ?_
  refine (execCmd_spec s addSelectMask s.cmds).weaken (fun _ h => h) ?_ ?_
  · exact fun _ _ h => h.1.tidy hs
  · exact fun _ _ h => (h.1.tidy hs).within

theorem ciExecCmd_tidy :
    Triple (fun s => s.Tidy mask) ciExecCmd (fun _ s => s.Tidy mask) fun _ s => s.Within mask := execCmds_tidy false

theorem ciExecWaitMaskCmd_tidy :
    Triple (fun s => s.Tidy mask) ciExecWaitMaskCmd (fun _ s => s.Tidy mask) fun _ s => s.Within mask :=
  execCmds_tidy true

theorem ciExecCmd_not_within : Keeps (fun s => ¬s.Within mask) ciExecCmd :=
  triple_get fun _ hs => (execCmd_not_within false _).pre fun _ h => h ▸ hs

theorem ciExecWaitMaskCmd_not_within : Keeps (fun s => ¬s.Within mask) ciExecWaitMaskCmd :=
  triple_get fun _ hs => (execCmd_not_within true _).pre fun _ h => h ▸ hs

theorem confined_prepared (nrCis : Nat) (word : Word) : Confined nrCis mask (prepared mask word) := by
  intro ci _
  cases h : mask.getLsbD ci
  · exact .inl (by simp [prepared, h])
  · exact .inr ⟨rfl, rfl⟩

theorem prepareAndExec_tidy (word : Word) :
    Triple (fun s => s.Within mask) (prepareAndExec mask word) (fun _ s => s.Tidy mask) fun _ s => s.Within mask := by
  refine triple_bind (R := fun _ s => s.Tidy mask) (triple_modify fun s hs => ?_) fun _ => ciExecCmd_tidy
  exact ⟨hs, confined_prepared _ word⟩

theorem prepareAndExec_not_within (word : Word) : Keeps (fun s => ¬s.Within mask) (prepareAndExec mask word) :=
  Keeps.bind (triple_modify fun _ hs => hs) fun _ => ciExecCmd_not_within

/-- Writing all entries of the mask. -/
theorem writeCmds_tidy (word : Nat → Word) :
    Triple (fun s => s.Cleared mask) (writeCmds mask word) (fun _ s => s.Tidy mask) fun _ s => s.Within mask := by
  refine triple_modify fun s hs => ⟨hs.within, fun ci hci => ?_⟩
  cases h : mask.getLsbD ci
  · have hvisits : s.visits mask ci = false := by simp [CmdRank.visits, h]
    simp only [hvisits, Bool.false_eq_true, if_false]
    exact .inl (hs.outside ci hci h)
  · have hvisits : s.visits mask ci = true := by simp [CmdRank.visits, h, show ci < s.nrCis from hci]
    simp [hvisits]

theorem writeCmds_not_within (word : Nat → Word) : Keeps (fun s => ¬s.Within mask) (writeCmds mask word) :=
  triple_modify fun _ hs => hs

/-! ## Structures and frames -/

/-- The structure is sent, and the buffer prepared for it, or nothing happens. -/
theorem execWriteStructure_within (struct : Word) :
    Triple (fun s => s.Within mask) (execWriteStructure mask struct) (fun _ s => s.Within mask)
      fun _ s => s.Within mask := by
  refine triple_get fun s hs => triple_bind (R := fun _ t => t = s.setStructure mask struct) ?_ fun _ => triple_ite ?_ ?_
  · exact fun _ _ => rfl
  · exact fun _ => ((prepareAndExec_tidy struct).post fun _ _ h => h.within).pre fun _ h => h ▸ hs
  · exact fun _ => triple_pure fun _ h => h ▸ hs

theorem execWriteStructure_cleared (struct : Word) :
    Triple (fun s => s.Within mask ∧ (s.mustWriteStructure mask struct = true ∨ s.EmptyOutside mask))
      (execWriteStructure mask struct) (fun _ s => s.Cleared mask) fun _ s => s.Within mask := by
  refine triple_get fun s hs => triple_bind (R := fun _ t => t = s.setStructure mask struct) ?_ fun _ => triple_ite ?_ ?_
  · exact fun _ _ => rfl
  · exact fun _ => ((prepareAndExec_tidy struct).post fun _ _ h => h.cleared).pre fun _ h => h ▸ hs.1
  · exact fun hno => triple_pure fun _ h => h ▸ ⟨hs.1, hs.2.resolve_left hno⟩

theorem execWriteStructure_not_within (struct : Word) :
    Keeps (fun s => ¬s.Within mask) (execWriteStructure mask struct) := by
  refine triple_get fun s hs => triple_bind (R := fun _ t => t = s.setStructure mask struct) ?_ fun _ => triple_ite ?_ ?_
  · exact fun _ _ => rfl
  · exact fun _ => (prepareAndExec_not_within struct).pre fun _ h => h ▸ hs
  · exact fun _ => triple_pure fun _ h => h ▸ hs

theorem execFrame_tidy (struct frame : Word) :
    Triple (fun s => s.Within mask) (execFrame mask struct frame) (fun _ s => s.Tidy mask) fun _ s => s.Within mask :=
  triple_bind (execWriteStructure_within struct) fun _ => prepareAndExec_tidy frame

theorem execFrame_within (struct frame : Word) : Keeps (fun s => s.Within mask) (execFrame mask struct frame) :=
  (execFrame_tidy struct frame).post fun _ _ h => h.within

theorem execFrame_not_within (struct frame : Word) : Keeps (fun s => ¬s.Within mask) (execFrame mask struct frame) :=
  Keeps.bind (execWriteStructure_not_within struct) fun _ => prepareAndExec_not_within frame

theorem execNextFrames_tidy (frame : Nat → Word) :
    Triple (fun s => s.Cleared mask) (execNextFrames mask frame) (fun _ s => s.Tidy mask) fun _ s => s.Within mask :=
  triple_bind (writeCmds_tidy frame) fun _ => ciExecCmd_tidy

theorem execNextFrames_not_within (frame : Nat → Word) : Keeps (fun s => ¬s.Within mask) (execNextFrames mask frame) :=
  Keeps.bind (writeCmds_not_within frame) fun _ => ciExecCmd_not_within

/-- What the operations that write only their own entries start from. -/
def CmdRank.Primed (r : CmdRank) (mask : Mask) (struct : Word) : Prop :=
  r.mustWriteStructure mask struct = true ∨ r.EmptyOutside mask

theorem execOwnFrames_tidy (struct : Word) (frame : Nat → Word) :
    Triple (fun s => s.Within mask ∧ s.Primed mask struct) (execOwnFrames mask struct frame) (fun _ s => s.Tidy mask)
      fun _ s => s.Within mask :=
  triple_bind (execWriteStructure_cleared struct) fun _ => execNextFrames_tidy frame

theorem execOwnFrames_not_within (struct : Word) (frame : Nat → Word) :
    Keeps (fun s => ¬s.Within mask) (execOwnFrames mask struct frame) :=
  Keeps.bind (execWriteStructure_not_within struct) fun _ => execNextFrames_not_within frame

/-! ## What is left over goes out -/

theorem execWriteStructure_cached {r : CmdRank} {struct : Word} (h : ¬r.mustWriteStructure mask struct = true) :
    Triple (fun s => s = r) (execWriteStructure mask struct) (fun _ s => s = r.setStructure mask struct)
      fun _ _ => False := by
  refine triple_get fun s hs => triple_bind (R := fun _ t => t = s.setStructure mask struct) ?_ fun _ => triple_ite ?_ ?_
  · exact fun _ _ => rfl
  · exact fun hmust => absurd hmust (hs ▸ h)
  · exact fun _ => triple_pure fun _ ht => hs ▸ ht

/-- The commands of a call all reach the driver and are answered. -/
def CmdRank.AllDone (r : CmdRank) : Prop := ∀ k, r.outcome k = .done

theorem execCmd_spills {r : CmdRank} {addSelectMask : Bool} (hdone : r.AllDone)
    (hlack : (addSelectMask && r.lacksTarget r.cmds) = false) (hbad : ¬Confined r.nrCis mask r.cmds) :
    Triple (fun s => s = r) (execCmd addSelectMask r.cmds) (fun _ s => ¬s.Within mask) fun _ s => ¬s.Within mask := by
  refine (execCmd_spec r addSelectMask r.cmds).weaken (fun _ h => h) ?_ ?_
  · rintro _ s ⟨hsent, hcommits⟩ hs
    refine hbad ?_
    rw [← hsent.nrCis]
    exact hs _ (hcommits ▸ List.mem_cons_self ..)
  · rintro _ s ⟨-, hlack' | hno⟩
    · rw [hlack] at hlack'
      contradiction
    · exact absurd (hdone _) hno

/-- An entry outside the mask that holds a command. -/
theorem not_emptyOutside {r : CmdRank} (h : ¬r.EmptyOutside mask) :
    ∃ ci < r.nrCis, mask.getLsbD ci = false ∧ (r.cmds ci).word ≠ ciEmpty := by
  simp only [CmdRank.EmptyOutside, not_forall] at h
  obtain ⟨ci, hci, hout, hne⟩ := h
  exact ⟨ci, hci, hout, hne⟩

/-- The rank once the frames are written, the structure being held. -/
def CmdRank.written (r : CmdRank) (mask : Mask) (struct : Word) (frame : Nat → Word) : CmdRank :=
  { r.setStructure mask struct with cmds := fun ci => if r.visits mask ci then ⟨frame ci, true⟩ else r.cmds ci }

theorem not_confined_written {r : CmdRank} {struct : Word} {frame : Nat → Word} (h : ¬r.EmptyOutside mask) :
    ¬Confined (r.written mask struct frame).nrCis mask (r.written mask struct frame).cmds := by
  obtain ⟨ci, hci, hout, hne⟩ := not_emptyOutside h
  intro hc
  have hvisits : r.visits mask ci = false := by simp [CmdRank.visits, hout]
  obtain hempty | ⟨hin, -⟩ := hc ci hci
  · simp only [CmdRank.written, hvisits, Bool.false_eq_true, if_false] at hempty
    exact hne hempty
  · rw [hout] at hin
    contradiction

theorem writeFrames_cached {r : CmdRank} {struct : Word} (frame : Nat → Word)
    (h : ¬r.mustWriteStructure mask struct = true) {rest : CmdM PUnit} {Q : PUnit → CmdRank → Prop}
    {E : CmdError → CmdRank → Prop} (hrest : Triple (fun s => s = r.written mask struct frame) rest Q E) :
    Triple (fun s => s = r)
      (do
        execWriteStructure mask struct
        writeCmds mask frame
        rest) Q E := by
  refine triple_bind ((execWriteStructure_cached h).weaken (fun _ h => h) (fun _ _ h => h) fun _ _ h => h.elim)
    fun _ => ?_
  refine triple_bind (R := fun _ s => s = r.written mask struct frame) (triple_modify fun s hs => ?_) fun _ => hrest
  subst hs
  rfl

theorem execOwnFrames_spills {r : CmdRank} {struct : Word} (frame : Nat → Word) (hdone : r.AllDone)
    (h : ¬r.Primed mask struct) :
    Triple (fun s => s = r) (execOwnFrames mask struct frame) (fun _ s => ¬s.Within mask) fun _ s => ¬s.Within mask := by
  rw [CmdRank.Primed, not_or] at h
  refine writeFrames_cached frame h.1 (triple_get fun s hs => ?_)
  subst hs
  exact execCmd_spills hdone (by simp) (not_confined_written h.2)

/-! ## Selections -/

theorem retargets_selected {r : CmdRank} {want : SliceInfo → Option SliceTarget} {ci : Nat}
    (h : r.retargets want mask ci = true) : (r.selected want mask).getLsbD ci = true := by
  simp only [CmdRank.retargets, CmdRank.visits, Bool.and_eq_true, decide_eq_true_eq] at h
  obtain ⟨⟨⟨-, hbit⟩, hsome⟩, -⟩ := h
  have h8 : ci < 8 := BitVec.lt_of_getLsbD hbit
  simp only [CmdRank.selected, BitVec.getLsbD_and, BitVec.getLsbD_not, gatherMask_bit, hbit, Bool.true_and]
  simp [h8, hsome]

theorem selectOne_within (r : CmdRank) (want : SliceInfo → Option SliceTarget) (target : SliceTarget)
    (hr : r.Within (r.selected want mask)) :
    Triple (fun s => s = r) (selectOne want target mask) (fun _ s => s.Within (r.selected want mask))
      fun _ s => s.Within (r.selected want mask) := by
  refine triple_get fun s hs => triple_bind (R := fun _ t => t = s.setTargets want mask) ?_ fun _ => triple_ite ?_ ?_
  · exact fun _ _ => rfl
  · subst hs
    exact fun _ => (execFrame_within _ _).pre fun _ h => h ▸ hr
  · subst hs
    exact fun _ => triple_pure fun _ h => h ▸ hr

theorem selectUncached_within (target : SliceTarget) : Keeps (fun s => s.Within mask) (selectUncached target mask) :=
  Keeps.bind (triple_modify fun _ hs => hs) fun _ => execFrame_within _ _

/-- Nothing has to be selected, or no other interface has a command left. -/
def CmdRank.SelectsCleanly (r : CmdRank) (want : SliceInfo → Option SliceTarget) (mask : Mask) : Prop :=
  (∀ ci < r.nrCis, r.retargets want mask ci = false)
    ∨ ∀ ci < r.nrCis, r.retargets want mask ci = false → (r.cmds ci).word = ciEmpty

theorem confined_selectStructs (r : CmdRank) (want : SliceInfo → Option SliceTarget) :
    Confined r.nrCis (r.selected want mask) (r.selectStructs want mask) := by
  intro ci _
  cases h : r.retargets want mask ci
  · exact .inl (by simp [CmdRank.selectStructs, h])
  · exact .inr ⟨retargets_selected h, rfl⟩

/-- The commands left are all that matters: those the call writes are its own. -/
theorem confined_selectCmds_iff {r : CmdRank} (hbegin : ∀ ci, (r.cmds ci).ours = false)
    (want : SliceInfo → Option SliceTarget) :
    Confined r.nrCis (r.selected want mask) (r.selectCmds want mask)
      ↔ ∀ ci < r.nrCis, r.retargets want mask ci = false → (r.cmds ci).word = ciEmpty := by
  refine forall_congr' fun ci => imp_congr_right fun _ => ?_
  cases h : r.retargets want mask ci
  · simp [CmdRank.selectCmds, h, hbegin ci]
  · simp [CmdRank.selectCmds, h, retargets_selected h]

theorem execWriteStructures_spec (r : CmdRank) (mask' : Mask) (structures : Packet) :
    Triple (fun s => s = r) (execWriteStructures mask' structures)
      (fun _ s => s.nrCis = r.nrCis ∧ s.cmds = r.cmds ∧ s.outcome = r.outcome
        ∧ (s.commits = r.commits ∨ s.commits = structures :: r.commits))
      fun _ s => s.nrCis = r.nrCis ∧ (s.commits = r.commits ∨ s.commits = structures :: r.commits) ∧ ¬r.AllDone := by
  refine triple_get fun s hs => ?_
  subst hs
  refine triple_bind (R := fun _ t => ∃ sliceInfo, t = { s with sliceInfo := sliceInfo }) (fun _ _ => ⟨_, rfl⟩) fun _ => ?_
  refine triple_each fun t ht => triple_ite (fun _ => ?_) fun _ => triple_pure fun u hu => ?_
  · obtain ⟨sliceInfo, rfl⟩ := ht
    refine (execCmd_spec _ false structures).weaken (fun _ h => h) ?_ ?_
    · exact fun _ u hu => ⟨hu.1.nrCis, hu.1.cmds, hu.1.outcome, hu.1.commits⟩
    · rintro _ u ⟨hsent, hlack | hno⟩
      · simp at hlack
      · exact ⟨hsent.nrCis, hsent.commits, fun hdone => hno (hdone _)⟩
  · obtain ⟨sliceInfo, rfl⟩ := ht
    subst hu
    exact ⟨rfl, rfl, rfl, .inl rfl⟩

/-- The structures are confined whatever is left over; the frames are when nothing is. -/
theorem selectEach_within {r : CmdRank} {want : SliceInfo → Option SliceTarget}
    (hbegin : ∀ ci, (r.cmds ci).ours = false) (hr : r.commits = []) (h : r.SelectsCleanly want mask) :
    Triple (fun s => s = r) (selectEach want mask) (fun _ s => s.Within (r.selected want mask))
      fun _ s => s.Within (r.selected want mask) := by
  have hwithin : ∀ s : CmdRank, s.nrCis = r.nrCis →
      (s.commits = r.commits ∨ s.commits = r.selectStructs want mask :: r.commits) → s.Within (r.selected want mask) := by
    rintro s hcis hcommits p hp
    rw [hr] at hcommits
    obtain hcommits | hcommits := hcommits
    · simp [hcommits] at hp
    · obtain rfl : p = r.selectStructs want mask := by simpa [hcommits] using hp
      rw [hcis]
      exact confined_selectStructs r want
  refine triple_get fun s hs => ?_
  subst hs
  refine triple_bind (R := fun _ t => t = s.writeSelection want mask) (fun _ _ => rfl)
    fun _ => triple_ite (fun hany => ?_) fun _ => triple_pure fun t ht => ?_
  · have hclean : ∀ ci < s.nrCis, s.retargets want mask ci = false → (s.cmds ci).word = ciEmpty := by
      refine h.resolve_left fun hnone => ?_
      obtain ⟨ci, hci, hre⟩ := List.any_eq_true.mp hany
      rw [hnone ci (List.mem_range.mp hci)] at hre
      contradiction
    refine triple_each fun t ht => ?_
    subst ht
    refine triple_bind ((execWriteStructures_spec _ _ _).weaken (fun _ h => h) (fun _ _ h => h)
      fun _ u hu => hwithin u hu.1 hu.2.1) fun _ => triple_each fun u hu => ?_
    obtain ⟨hcis, hcmds, -, hcommits⟩ := hu
    have htidy : u.Tidy (s.selected want mask) := by
      refine ⟨hwithin u hcis hcommits, ?_⟩
      rw [hcis, hcmds]
      exact (confined_selectCmds_iff hbegin want).mpr hclean
    exact (ciExecCmd_tidy.post fun _ _ h => h.within).pre fun _ h => h ▸ htidy
  · subst ht
    exact hwithin _ rfl (.inl rfl)

theorem selectEach_spills {r : CmdRank} {want : SliceInfo → Option SliceTarget}
    (hbegin : ∀ ci, (r.cmds ci).ours = false) (hdone : r.AllDone) (h : ¬r.SelectsCleanly want mask) :
    Triple (fun s => s = r) (selectEach want mask) (fun _ s => ¬s.Within (r.selected want mask))
      fun _ s => ¬s.Within (r.selected want mask) := by
  rw [CmdRank.SelectsCleanly, not_or] at h
  refine triple_get fun s hs => ?_
  subst hs
  refine triple_bind (R := fun _ t => t = s.writeSelection want mask) (fun _ _ => rfl)
    fun _ => triple_ite (fun _ => triple_each fun t ht => ?_) fun hnone => ?_
  · subst ht
    refine triple_bind ((execWriteStructures_spec _ _ _).weaken (fun _ h => h) (fun _ _ h => h)
      fun _ u hu => absurd hdone hu.2.2) fun _ => triple_get fun u hu => ?_
    obtain ⟨hcis, hcmds, hout, -⟩ := hu
    refine execCmd_spills (fun k => (congrFun hout k).trans (hdone k)) (by simp) ?_
    rw [hcis, hcmds]
    exact fun hc => h.2 ((confined_selectCmds_iff hbegin want).mp hc)
  · refine absurd (fun ci hci => ?_) h.1
    rw [List.any_eq_true] at hnone
    cases hre : s.retargets want mask ci
    · rfl
    · exact absurd ⟨ci, List.mem_range.mpr hci, hre⟩ hnone

end DpuBackend.Ufi
