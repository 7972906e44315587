import DpuBackend.Ufi.Confinement

/-
  Confinement of every call, and of every sequence of calls.

  `Op.Meets` is the condition on the rank before a call: what its buffer, its
  structure registers and its targets must be. `Op.within` and `Op.spills` prove
  it exact for one call, `runs_confined_iff` for sequences.
-/

namespace DpuBackend.Ufi

open DpuBackend.Lib

variable {mask : Mask}

/-! ## Memory writes -/

/-- Some interface that the first frame of a memory write would reach has no target. -/
def CmdRank.WantsTarget (r : CmdRank) (mask : Mask) : Prop :=
  ∃ ci < r.nrCis, (mask.getLsbD ci = true ∨ (r.cmds ci).word ≠ ciEmpty)
    ∧ (r.sliceInfo ci).selectedDpuMask r.nrDpus = none

theorem lacksTarget_written {r : CmdRank} {struct : Word} {frame : Nat → Word} (hframe : ∀ ci, frame ci ≠ ciEmpty) :
    (r.written mask struct frame).lacksTarget (r.written mask struct frame).cmds = true ↔ r.WantsTarget mask := by
  have htarget : ∀ ci, ((r.written mask struct frame).sliceInfo ci).selectedDpuMask r.nrDpus
      = (r.sliceInfo ci).selectedDpuMask r.nrDpus := by
    intro ci
    simp only [CmdRank.written, CmdRank.setStructure]
    split <;> rfl
  have hword : ∀ ci < r.nrCis, ((r.written mask struct frame).cmds ci).word ≠ ciEmpty
      ↔ mask.getLsbD ci = true ∨ (r.cmds ci).word ≠ ciEmpty := by
    intro ci hci
    cases hbit : mask.getLsbD ci
    · simp [CmdRank.written, CmdRank.visits, hbit]
    · simp [CmdRank.written, CmdRank.visits, hbit, hci, hframe ci]
  simp only [CmdRank.lacksTarget, List.any_eq_true, List.mem_range, Bool.and_eq_true, decide_eq_true_eq,
    Option.isNone_iff_eq_none]
  refine exists_congr fun ci => and_congr_right fun hci => ?_
  rw [hword ci hci]
  exact and_congr_right fun _ => Eq.congr_left (htarget ci)

section

variable {struct : Word → Word} {frame : Word → Word → Word} {src : Nat → Nat → Word} {offset : BitVec 16}

/-- The address of word `k`. -/
def writeAddress (offset : BitVec 16) (k : Nat) : Word := (offset + BitVec.ofNat 16 k).setWidth 64

theorem memoryWriteAt_tidy (k : Nat) :
    Triple (fun s => s.Within mask ∧ s.Primed mask (struct (writeAddress offset k)))
      (memoryWriteAt mask struct frame src offset k) (fun _ s => s.Tidy mask) fun _ s => s.Within mask :=
  triple_bind (execWriteStructure_cleared _) fun _ => triple_bind (writeCmds_tidy _) fun _ => ciExecWaitMaskCmd_tidy

theorem memoryWriteAt_not_within (k : Nat) :
    Keeps (fun s => ¬s.Within mask) (memoryWriteAt mask struct frame src offset k) :=
  Keeps.bind (execWriteStructure_not_within _) fun _ =>
    Keeps.bind (writeCmds_not_within _) fun _ => ciExecWaitMaskCmd_not_within

/-- Nothing is sent when a target is missing. -/
theorem memoryWriteAt_stops {r : CmdRank} (hframe : ∀ data addr, frame data addr ≠ ciEmpty) (k : Nat)
    (hcached : ¬r.mustWriteStructure mask (struct (writeAddress offset k)) = true) (hwants : r.WantsTarget mask)
    (hr : r.Within mask) :
    Triple (fun s => s = r) (memoryWriteAt mask struct frame src offset k) (fun _ _ => False)
      fun _ s => s.Within mask := by
  refine writeFrames_cached _ hcached (triple_get fun s hs => ?_)
  subst hs
  refine triple_get fun s hs => triple_ite (fun _ => triple_throw fun t ht => ?_) fun hno => absurd ?_ hno
  · exact ht ▸ hs ▸ hr
  · rw [hs, Bool.true_and]
    exact (lacksTarget_written fun ci => hframe _ _).mpr hwants

theorem memoryWriteAt_spills {r : CmdRank} (hframe : ∀ data addr, frame data addr ≠ ciEmpty) (k : Nat)
    (hdone : r.AllDone) (hunprimed : ¬r.Primed mask (struct (writeAddress offset k))) (hwants : ¬r.WantsTarget mask) :
    Triple (fun s => s = r) (memoryWriteAt mask struct frame src offset k) (fun _ s => ¬s.Within mask)
      fun _ s => ¬s.Within mask := by
  rw [CmdRank.Primed, not_or] at hunprimed
  refine writeFrames_cached _ hunprimed.1 (triple_get fun s hs => ?_)
  subst hs
  refine execCmd_spills hdone ?_ (not_confined_written hunprimed.2)
  rw [Bool.true_and, Bool.eq_false_iff]
  exact fun h => hwants ((lacksTarget_written fun ci => hframe _ _).mp h)

/-- What a memory write starts from. -/
def CmdRank.WritesCleanly (r : CmdRank) (mask : Mask) (struct : Word → Word) (offset len : BitVec 16) : Prop :=
  len = 0 ∨ r.Primed mask (struct (offset.setWidth 64)) ∨ r.WantsTarget mask

theorem writeAddress_zero (offset : BitVec 16) : writeAddress offset 0 = offset.setWidth 64 := by
  simp [writeAddress]

/-- The first word decides. -/
theorem range_eq_cons {len : BitVec 16} (h : len ≠ 0) : ∃ rest, List.range len.toNat = 0 :: rest := by
  obtain ⟨n, hn⟩ := Nat.exists_eq_succ_of_ne_zero (n := len.toNat) fun h0 => h (BitVec.eq_of_toNat_eq h0)
  rw [hn]
  exact ⟨_, List.range_succ_eq_map⟩

theorem memoryWrite_within {r : CmdRank} {len : BitVec 16} (hframe : ∀ data addr, frame data addr ≠ ciEmpty)
    (hr : r.Within mask) (h : r.WritesCleanly mask struct offset len) :
    Triple (fun s => s = r) (memoryWrite mask struct frame src offset len) (fun _ s => s.Within mask)
      fun _ s => s.Within mask := by
  by_cases hlen : len = 0
  · subst hlen
    exact triple_pure fun _ hs => hs ▸ hr
  obtain ⟨rest, hrange⟩ := range_eq_cons hlen
  rw [memoryWrite, hrange]
  have hrest : Triple (fun s => s.Tidy mask) (rest.forM (memoryWriteAt mask struct frame src offset))
      (fun _ s => s.Within mask) fun _ s => s.Within mask := by
    refine (triple_forM (I := fun _ (s : CmdRank) => s.Tidy mask) fun k _ _ => ?_).post fun _ _ hs => hs.within
    exact (memoryWriteAt_tidy k).pre fun _ hs => ⟨hs.within, .inr hs.cleared.outside⟩
  refine triple_bind (R := fun _ s => s.Tidy mask) ?_ fun _ => hrest
  by_cases hprimed : r.Primed mask (struct (writeAddress offset 0))
  · exact (memoryWriteAt_tidy 0).pre fun _ hs => hs ▸ ⟨hr, hprimed⟩
  · have hwants : r.WantsTarget mask := by
      rw [writeAddress_zero] at hprimed
      obtain h | h | h := h
      · contradiction
      · contradiction
      · exact h
    exact (memoryWriteAt_stops hframe 0 (fun h => hprimed (.inl h)) hwants hr).post fun _ _ hs => hs.elim

theorem memoryWrite_spills {r : CmdRank} {len : BitVec 16} (hframe : ∀ data addr, frame data addr ≠ ciEmpty)
    (hdone : r.AllDone) (h : ¬r.WritesCleanly mask struct offset len) :
    Triple (fun s => s = r) (memoryWrite mask struct frame src offset len) (fun _ s => ¬s.Within mask)
      fun _ s => ¬s.Within mask := by
  rw [CmdRank.WritesCleanly, not_or, not_or, ← writeAddress_zero] at h
  obtain ⟨hlen, hunprimed, hwants⟩ := h
  obtain ⟨rest, hrange⟩ := range_eq_cons hlen
  rw [memoryWrite, hrange]
  refine triple_bind (memoryWriteAt_spills hframe 0 hdone hunprimed hwants) fun _ => ?_
  exact keeps_forM fun k _ => memoryWriteAt_not_within k

end

/-! ## The other operations of several packets -/

theorem writeGroup_within (group : Nat) : Keeps (fun s => s.Within mask) (writeGroup mask group) := by
  refine triple_get fun s hs => Triple.pre (Keeps.bind (keeps_forM fun ci _ => ?_) fun _ => execFrame_within _ _)
    fun _ h => h ▸ hs
  refine triple_get fun t ht => triple_ite (fun _ => ?_) fun _ => triple_pure fun _ h => h ▸ ht
  cases (t.sliceInfo ci).selectedDpuMask t.nrDpus with
  | none => exact triple_throw fun _ h => h ▸ ht
  | some dpus => exact fun _ _ => ht

theorem carouselConfig_within (config : CarouselConfig) : Keeps (fun s => s.Within mask) (carouselConfig mask config) := by
  have hprepare : ∀ word, Keeps (fun s => s.Within mask) (prepareAndExec mask word) := fun word =>
    (prepareAndExec_tidy word).post fun _ _ h => h.within
  refine (hprepare _).bind fun _ => (execFrame_within _ _).bind fun _ => (execFrame_within _ _).bind fun _ => ?_
  refine (execFrame_within _ _).bind fun _ => (hprepare _).bind fun _ => (hprepare _).bind fun _ => ?_
  exact (execFrame_within _ _).bind fun _ => execFrame_within _ _

theorem ciExecResetCmd_within : Triple (fun s => s.Tidy mask) ciExecResetCmd (fun _ s => s.Within mask)
    fun _ s => s.Within mask :=
  triple_bind ciExecCmd_tidy fun _ => triple_modify fun _ hs => hs.within

theorem execOwnFrames_again (struct : Word) (frame : Nat → Word) :
    Triple (fun s => s.Tidy mask) (execOwnFrames mask struct frame) (fun _ s => s.Tidy mask) fun _ s => s.Within mask :=
  (execOwnFrames_tidy struct frame).pre fun _ h => ⟨h.within, .inr h.cleared.outside⟩

theorem execNextFrames_again (frame : Nat → Word) :
    Triple (fun s => s.Tidy mask) (execNextFrames mask frame) (fun _ s => s.Tidy mask) fun _ s => s.Within mask :=
  (execNextFrames_tidy frame).pre fun _ h => h.cleared

theorem execFrame_again (struct frame : Word) :
    Triple (fun s => s.Tidy mask) (execFrame mask struct frame) (fun _ s => s.Tidy mask) fun _ s => s.Within mask :=
  (execFrame_tidy struct frame).pre fun _ h => h.within

theorem iramRepairConfig_tidy (config : Nat → RepairConfig) :
    Triple (fun s => s.Within mask ∧ s.Primed mask irepairConfigStruct) (iramRepairConfig mask config)
      (fun _ s => s.Tidy mask) fun _ s => s.Within mask :=
  triple_bind (execOwnFrames_tidy _ _) fun _ => triple_bind (execOwnFrames_again _ _) fun _ =>
    triple_bind (execOwnFrames_again _ _) fun _ => execFrame_again _ _

theorem wramRepairConfig_tidy (bank : Word) (config : Nat → RepairConfig) :
    Triple (fun s => s.Within mask ∧ s.Primed mask dmaCtrlWriteStruct) (wramRepairConfig mask bank config)
      (fun _ s => s.Tidy mask) fun _ s => s.Within mask :=
  triple_bind (execOwnFrames_tidy _ _) fun _ => triple_bind (execNextFrames_again _) fun _ =>
    triple_bind (execNextFrames_again _) fun _ => triple_bind (execNextFrames_again _) fun _ =>
      triple_bind (execNextFrames_again _) fun _ => triple_bind (execFrame_again _ _) fun _ => execFrame_again _ _

theorem setMramMux_tidy (ciMuxPos : Mask) :
    Triple (fun s => s.Within mask ∧ s.Primed mask dmaCtrlWriteStruct) (setMramMux mask ciMuxPos)
      (fun _ s => s.Tidy mask) fun _ s => s.Within mask :=
  triple_bind (execOwnFrames_tidy _ _) fun _ => triple_bind (execFrame_again _ _) fun _ =>
    triple_bind (execOwnFrames_again _ _) fun _ => triple_bind (execOwnFrames_again _ _) fun _ => execFrame_again _ _

/-- A call that begins by writing its own entries spills at once. -/
theorem spills_then {r : CmdRank} {struct : Word} {frame : Nat → Word} {rest : CmdM PUnit} (hdone : r.AllDone)
    (h : ¬r.Primed mask struct) (hrest : Keeps (fun s => ¬s.Within mask) rest) :
    Triple (fun s => s = r)
      (do
        execOwnFrames mask struct frame
        rest) (fun _ s => ¬s.Within mask) fun _ s => ¬s.Within mask :=
  triple_bind (execOwnFrames_spills frame hdone h) fun _ => hrest

theorem iramRepairConfig_spills {r : CmdRank} (config : Nat → RepairConfig) (hdone : r.AllDone)
    (h : ¬r.Primed mask irepairConfigStruct) :
    Triple (fun s => s = r) (iramRepairConfig mask config) (fun _ s => ¬s.Within mask) fun _ s => ¬s.Within mask :=
  spills_then hdone h <| (execOwnFrames_not_within _ _).bind fun _ => (execOwnFrames_not_within _ _).bind fun _ =>
    execFrame_not_within _ _

theorem wramRepairConfig_spills {r : CmdRank} (bank : Word) (config : Nat → RepairConfig) (hdone : r.AllDone)
    (h : ¬r.Primed mask dmaCtrlWriteStruct) :
    Triple (fun s => s = r) (wramRepairConfig mask bank config) (fun _ s => ¬s.Within mask)
      fun _ s => ¬s.Within mask :=
  spills_then hdone h <| (execNextFrames_not_within _).bind fun _ => (execNextFrames_not_within _).bind fun _ =>
    (execNextFrames_not_within _).bind fun _ => (execNextFrames_not_within _).bind fun _ =>
      (execFrame_not_within _ _).bind fun _ => execFrame_not_within _ _

theorem setMramMux_spills {r : CmdRank} (ciMuxPos : Mask) (hdone : r.AllDone) (h : ¬r.Primed mask dmaCtrlWriteStruct) :
    Triple (fun s => s = r) (setMramMux mask ciMuxPos) (fun _ s => ¬s.Within mask) fun _ s => ¬s.Within mask :=
  spills_then hdone h <| (execFrame_not_within _ _).bind fun _ => (execOwnFrames_not_within _ _).bind fun _ =>
    (execOwnFrames_not_within _ _).bind fun _ => execFrame_not_within _ _

/-! ## One call -/

/-- What a call needs of the rank it finds. Most calls need nothing. -/
def Op.Meets (r : CmdRank) : Op → Prop
  | .selectAll mask => r.SelectsCleanly SliceInfo.allTarget mask
  | .selectAllEvenDisabled mask => r.SelectsCleanly SliceInfo.allEvenDisabledTarget mask
  | .iramRepairConfig mask _ => r.Primed mask irepairConfigStruct
  | .wramRepairConfig mask _ _ => r.Primed mask dmaCtrlWriteStruct
  | .setPcMode mask _ => r.Primed mask pcModeWriteStruct
  | .setStackDirection mask _ => r.Primed mask plainStruct
  | .writeDmaCtrlDatas mask _ _ => r.Primed mask dmaCtrlWriteStruct
  | .setMramMux mask _ => r.Primed mask dmaCtrlWriteStruct
  | .iramWrite mask _ offset len => r.WritesCleanly mask iramWriteInstructionStruct offset len
  | .wramWrite mask _ offset len => r.WritesCleanly mask wramWriteWordStruct offset len
  | _ => True

theorem begin_within (r : CmdRank) (outcome : Nat → CmdOutcome) (mask : Mask) : (r.begin outcome).Within mask :=
  fun _ h => absurd h List.not_mem_nil

theorem iramWriteInstructionFrame_ne_empty (data addr : Word) : iramWriteInstructionFrame data addr ≠ ciEmpty :=
  frameWord_ne_empty _ _ _ _ _ _ _

theorem wramWriteWordFrame_ne_empty (data addr : Word) : wramWriteWordFrame data addr ≠ ciEmpty :=
  frameWord_ne_empty _ _ _ _ _ _ _

/-- A call that finds what it needs is confined, however its commands end. -/
theorem Op.within (r : CmdRank) (op : Op) (outcome : Nat → CmdOutcome) (h : op.Meets r) :
    (r.after op outcome).Within (op.effectiveMask r) := by
  have hbegin := begin_within r outcome
  have hprepare : ∀ mask word, Keeps (fun s => s.Within mask) (prepareAndExec mask word) := fun mask word =>
    (prepareAndExec_tidy word).post fun _ _ h => h.within
  -- a program that ends within the mask, begun where the call begins
  have hfinal : ∀ (mask : Mask) (x : CmdM PUnit),
      Triple (fun s => s = r.begin outcome) x (fun _ s => s.Within mask) (fun _ s => s.Within mask) →
        (finalState x (r.begin outcome)).Within mask :=
    fun mask x hx => Triple.finalState (I := fun (s : CmdRank) => s.Within mask) hx rfl
  have hkeeps : ∀ (mask : Mask) (x : CmdM PUnit), Keeps (fun s => s.Within mask) x →
      (finalState x (r.begin outcome)).Within mask := fun mask x hx => hx.finalState (hbegin mask)
  have hprimed : ∀ (mask : Mask) (struct : Word) (x : CmdM PUnit), r.Primed mask struct →
      Triple (fun s => s.Within mask ∧ s.Primed mask struct) x (fun _ s => s.Tidy mask) (fun _ s => s.Within mask) →
        (finalState x (r.begin outcome)).Within mask := by
    intro mask struct x hp hx
    refine hfinal mask x ((hx.post fun _ _ h => h.within).pre ?_)
    rintro _ rfl
    exact ⟨hbegin mask, hp⟩
  cases op with
  | byteOrder mask => exact hkeeps _ _ (hprepare mask _)
  | softReset mask clockDivision cycleAccurate =>
    refine hkeeps mask _ (triple_bind (R := fun _ s => s.Tidy mask) (triple_modify fun s hs => ?_)
      fun _ => ciExecResetCmd_within)
    exact ⟨hs, confined_prepared _ _⟩
  | bitConfig mask _ _ _ _ => exact hkeeps _ _ (hprepare mask _)
  | identity mask => exact hkeeps _ _ (hprepare mask _)
  | thermalConfig mask _ => exact hkeeps _ _ (hprepare mask _)
  | selectCis mask => exact hkeeps _ _ (keeps_pure _)
  | selectAll mask => exact hfinal _ _ (selectEach_within (fun _ => rfl) rfl h)
  | selectAllUncached mask => exact hkeeps mask _ (selectUncached_within _)
  | selectAllEvenDisabled mask => exact hfinal _ _ (selectEach_within (fun _ => rfl) rfl h)
  | selectGroup mask group => exact hfinal _ _ (selectOne_within _ _ _ (hbegin _))
  | selectGroupUncached mask group => exact hkeeps mask _ (selectUncached_within _)
  | selectDpu mask dpu => exact hfinal _ _ (selectOne_within _ _ _ (hbegin _))
  | selectDpuUncached mask dpu => exact hkeeps mask _ (selectUncached_within _)
  | selectDpuEvenDisabled mask dpu => exact hfinal _ _ (selectOne_within _ _ _ (hbegin _))
  | writeGroup mask group => exact hkeeps mask _ (writeGroup_within group)
  | carouselConfig mask config => exact hkeeps mask _ (carouselConfig_within config)
  | frame mask op => exact hkeeps mask _ (execFrame_within _ _)
  | iramRepairConfig mask config => exact hprimed mask _ _ h (iramRepairConfig_tidy config)
  | wramRepairConfig mask bank config => exact hprimed mask _ _ h (wramRepairConfig_tidy _ config)
  | setPcMode mask pcMode => exact hprimed mask _ _ h (execOwnFrames_tidy _ _)
  | setStackDirection mask direction => exact hprimed mask _ _ h (execOwnFrames_tidy _ _)
  | writeDmaCtrlDatas mask address datas => exact hprimed mask _ _ h (execOwnFrames_tidy _ _)
  | iramWrite mask src offset len =>
    exact hfinal mask _ (memoryWrite_within iramWriteInstructionFrame_ne_empty (hbegin mask) h)
  | iramRead mask offset len =>
    exact hkeeps mask _ (keeps_forM fun _ _ => keeps_forM fun _ _ => execFrame_within _ _)
  | wramWrite mask src offset len =>
    exact hfinal mask _ (memoryWrite_within wramWriteWordFrame_ne_empty (hbegin mask) h)
  | wramRead mask offset len => exact hkeeps mask _ (keeps_forM fun _ _ => execFrame_within _ _)
  | setMramMux mask ciMuxPos => exact hprimed mask _ _ h (setMramMux_tidy ciMuxPos)
  | debugPcRead mask => exact hkeeps mask _ ((execFrame_within _ _).bind fun _ => execFrame_within _ _)

/-- A call that does not, and whose commands are all answered, sends what an earlier
call has left. -/
theorem Op.spills (r : CmdRank) (op : Op) (h : ¬op.Meets r) :
    ¬(r.after op fun _ => .done).Within (op.effectiveMask r) := by
  have hdone : (r.begin fun _ => .done).AllDone := fun _ => rfl
  have hfinal : ∀ (mask : Mask) (x : CmdM PUnit),
      Triple (fun s => s = r.begin fun _ => .done) x (fun _ s => ¬s.Within mask) (fun _ s => ¬s.Within mask) →
        ¬(finalState x (r.begin fun _ => .done)).Within mask :=
    fun mask x hx => Triple.finalState (I := fun (s : CmdRank) => ¬s.Within mask) hx rfl
  cases op with
  | selectAll mask => exact hfinal _ _ (selectEach_spills (fun _ => rfl) hdone h)
  | selectAllEvenDisabled mask => exact hfinal _ _ (selectEach_spills (fun _ => rfl) hdone h)
  | iramRepairConfig mask config => exact hfinal mask _ (iramRepairConfig_spills config hdone h)
  | wramRepairConfig mask bank config => exact hfinal mask _ (wramRepairConfig_spills _ config hdone h)
  | setPcMode mask pcMode => exact hfinal mask _ (execOwnFrames_spills _ hdone h)
  | setStackDirection mask direction => exact hfinal mask _ (execOwnFrames_spills _ hdone h)
  | writeDmaCtrlDatas mask address datas => exact hfinal mask _ (execOwnFrames_spills _ hdone h)
  | iramWrite mask src offset len => exact hfinal mask _ (memoryWrite_spills iramWriteInstructionFrame_ne_empty hdone h)
  | wramWrite mask src offset len => exact hfinal mask _ (memoryWrite_spills wramWriteWordFrame_ne_empty hdone h)
  | setMramMux mask ciMuxPos => exact hfinal mask _ (setMramMux_spills ciMuxPos hdone h)
  | _ => exact absurd trivial h

/-! ## Sequences of calls -/

/-- Calls one after the other, and how the commands of each end. -/
abbrev Run := List (Op × (Nat → CmdOutcome))

/-- Every call of the run is confined. -/
def Run.Confined : CmdRank → Run → Prop
  | _, [] => True
  | r, (op, outcome) :: run => (r.after op outcome).Within (op.effectiveMask r) ∧ Run.Confined (r.after op outcome) run

/-- Every call of the run finds what it needs. -/
def Run.Meets : CmdRank → Run → Prop
  | _, [] => True
  | r, (op, outcome) :: run => op.Meets r ∧ Run.Meets (r.after op outcome) run

theorem Run.confined_of_meets : ∀ (r : CmdRank) (run : Run), Run.Meets r run → Run.Confined r run
  | _, [], _ => trivial
  | r, (op, outcome) :: run, h => ⟨op.within r outcome h.1, Run.confined_of_meets (r.after op outcome) run h.2⟩

/-- A sequence of calls is confined, however the commands end, exactly when every call
finds what it needs, however those before it end. -/
theorem runs_confined_iff (r : CmdRank) (ops : List Op) :
    (∀ run : Run, run.map Prod.fst = ops → Run.Confined r run) ↔ ∀ run : Run, run.map Prod.fst = ops → Run.Meets r run := by
  refine ⟨fun h => ?_, fun h run hrun => Run.confined_of_meets r run (h run hrun)⟩
  induction ops generalizing r with
  | nil =>
    rintro run hrun
    obtain rfl := List.map_eq_nil_iff.mp hrun
    trivial
  | cons op ops ih =>
    rintro run hrun
    obtain ⟨⟨op, outcome⟩, rest, rfl, rfl, hrest⟩ := List.map_eq_cons_iff.mp hrun
    refine ⟨?_, ih (r.after op outcome) (fun rest' hrest' => ?_) rest hrest⟩
    · by_contra hunmet
      have hall := h ((op, fun _ => .done) :: ops.map fun op => (op, fun _ => .done)) (by simp [Function.comp_def])
      exact op.spills r hunmet hall.1
    · exact (h ((op, outcome) :: rest') (by rw [List.map_cons, hrest'])).2

/-! ### A command sent again -/

/-- A rank of two interfaces that has run nothing yet. -/
def idleRank : CmdRank where
  nrCis := 2
  nrDpus := 2
  sliceInfo _ :=
    { structureValue := 0
      sliceTarget := .none
      hostMuxMramState := 0
      dpusPerGroup := fun g => if g = 0 then 3 else 0
      enabledDpus := 3
      allDpusAreEnabled := true }
  cmds _ := ⟨ciEmpty, false⟩
  commits := []
  outcome _ := .done
  clock := 0

/-- A write to the DMA controllers of both interfaces, then one to the first alone. -/
def sampleRun : Run :=
  [(.frame 3 (.writeDmaCtrl 0x81 0), fun _ => .done), (.writeDmaCtrlDatas 1 0x80 fun _ => 1, fun _ => .done)]

/-- The first interface holds the structure already, so nothing clears the buffer, and
the second one gets the first call's frame again. -/
theorem left_over_frame_sent_again : ¬Run.Confined idleRank sampleRun := by
  rintro ⟨-, hsecond, -⟩
  have hfound : ((idleRank.after (.frame 3 (.writeDmaCtrl 0x81 0)) fun _ => .done).after
      (.writeDmaCtrlDatas 1 0x80 fun _ => 1) fun _ => .done).commits.all (fun packet => decide ((packet 1).word = ciEmpty))
        = false := by decide
  obtain ⟨packet, hmem, hne⟩ := List.all_eq_false.mp hfound
  obtain hempty | ⟨hmask, -⟩ := hsecond packet hmem 1 (by decide)
  · exact hne (decide_eq_true hempty)
  · exact absurd hmask (by decide)

end DpuBackend.Ufi
