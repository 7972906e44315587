import DpuBackend.Ufi.Rank

/-
  What the mux functions do to a rank.

  `Frame` is what every one of them leaves alone. `Quiet` adds the mux records:
  selections, reads and mux commands are quiet. `LineSwitch` and `RankSwitch`
  describe the two switching functions: where the records end up, and that no
  DPU recorded as running was on a line that moved. Neither lets the records of
  the muxes and the muxes come apart (`Rank.Synced`).
-/

namespace DpuBackend.Ufi

open DpuBackend.Lib

/-- A DPU that runs and has not faulted. -/
def Rank.live (r : Rank) (ci i : Nat) : Bool := (r.hw.run ci).getLsbD i && !(r.hw.fault ci).getLsbD i

def Rank.running (r : Rank) (ci i : Nat) : Bool := (r.runContext.dpuRunning ci).getLsbD i

/-- The mux of each DPU is where the records say, on the interfaces that have an
enabled DPU. -/
def Rank.Synced (r : Rank) : Prop :=
  r.apiMustSwitchMramMux = true → ∀ ci < r.nrCis, (r.sliceInfo ci).enabledDpus ≠ 0 →
    ∀ i < r.nrDpus, (r.hw.mux ci).getLsbD i = r.hostMux ci i

/-- The configuration and the run context are the same; a DPU that is live was. -/
structure Frame (r r' : Rank) : Prop where
  nrCis : r'.nrCis = r.nrCis
  nrDpus : r'.nrDpus = r.nrDpus
  apiMustSwitch : r'.apiMustSwitchMramMux = r.apiMustSwitchMramMux
  enabled : ∀ ci, (r'.sliceInfo ci).enabledDpus = (r.sliceInfo ci).enabledDpus
  runContext : r'.runContext = r.runContext
  xferCalls : r'.xferCalls = r.xferCalls
  live : ∀ ci i, r'.live ci i = true → r.live ci i = true

/-- The mux records are the same too. -/
structure Quiet (r r' : Rank) : Prop extends Frame r r' where
  hostMux : ∀ ci i, r'.hostMux ci i = r.hostMux ci i

theorem Frame.refl (r : Rank) : Frame r r := ⟨rfl, rfl, rfl, fun _ => rfl, rfl, rfl, fun _ _ h => h⟩

theorem Frame.trans {r r' r'' : Rank} (h : Frame r r') (h' : Frame r' r'') : Frame r r'' where
  nrCis := h'.nrCis.trans h.nrCis
  nrDpus := h'.nrDpus.trans h.nrDpus
  apiMustSwitch := h'.apiMustSwitch.trans h.apiMustSwitch
  enabled ci := (h'.enabled ci).trans (h.enabled ci)
  runContext := h'.runContext.trans h.runContext
  xferCalls := h'.xferCalls.trans h.xferCalls
  live ci i hl := h.live ci i (h'.live ci i hl)

theorem Frame.running {r r' : Rank} (h : Frame r r') (ci i : Nat) : r'.running ci i = r.running ci i := by
  rw [Rank.running, Rank.running, h.runContext]

theorem Frame.dpuEnabled {r r' : Rank} (h : Frame r r') (ci i : Nat) : r'.dpuEnabled ci i = r.dpuEnabled ci i := by
  rw [Rank.dpuEnabled, Rank.dpuEnabled, h.enabled]

theorem Quiet.trans {r r' r'' : Rank} (h : Quiet r r') (h' : Quiet r' r'') : Quiet r r'' :=
  ⟨h.toFrame.trans h'.toFrame, fun ci i => (h'.hostMux ci i).trans (h.hostMux ci i)⟩

/-! ## Commands -/

theorem Rank.select_quiet (r : Rank) (want : SliceInfo → Option SliceTarget) (mask : Mask) :
    Quiet r (r.select want mask) := by
  refine ⟨⟨rfl, rfl, rfl, ?_, rfl, rfl, fun _ _ h => h⟩, ?_⟩
  · intro ci
    simp only [Rank.select]
    split <;> rfl
  · intro ci i
    simp only [Rank.select, Rank.hostMux]
    split <;> rfl

theorem Rank.elapse_live (r : Rank) (ci i : Nat) (h : r.elapse.live ci i = true) : r.live ci i = true := by
  simp only [Rank.elapse, Rank.live, Hw.elapse, BitVec.getLsbD_and, BitVec.getLsbD_or, Bool.and_eq_true,
    Bool.not_eq_true', Bool.or_eq_false_iff] at h ⊢
  exact ⟨h.1.1, h.2.1⟩

theorem Rank.elapse_quiet (r : Rank) : Quiet r r.elapse :=
  ⟨⟨rfl, rfl, rfl, fun _ => rfl, rfl, rfl, r.elapse_live⟩, fun _ _ => rfl⟩

theorem Rank.setMramMux_quiet (r : Rank) (mask pos : Mask) : Quiet r (r.setMramMux mask pos) :=
  ⟨⟨rfl, rfl, rfl, fun _ => rfl, rfl, rfl, r.elapse_live⟩, fun _ _ => rfl⟩

theorem Rank.setMramMux_bit (r : Rank) (mask pos : Mask) (ci i : Nat) :
    ((r.setMramMux mask pos).hw.mux ci).getLsbD i =
      if (r.reached mask ci).getLsbD i then pos.getLsbD ci else (r.hw.mux ci).getLsbD i := by
  have hlt : (r.hw.mux ci).getLsbD i = true → i < 8 := fun h => BitVec.lt_of_getLsbD h
  have hlt' : (r.reached mask ci).getLsbD i = true → i < 8 := fun h => BitVec.lt_of_getLsbD h
  simp only [Rank.setMramMux]
  split
  all_goals
    rename_i hpos
    rw [Bool.eq_iff_iff]
    simp only [BitVec.getLsbD_or, BitVec.getLsbD_and, BitVec.getLsbD_not]
    grind

/-! ## Access of the host to a line or to the rank -/

/-- The state after `host_handle_access_for_dpu`. -/
def Rank.handleAccessForDpu (r : Rank) (dpuId : Nat) (pos : Mask) : Rank :=
  (r.select (SliceInfo.dpuEvenDisabledTarget · dpuId) allCis).setMramMux
    (r.selected (SliceInfo.dpuEvenDisabledTarget · dpuId) allCis) pos

/-- The state after `host_handle_access_for_rank`. -/
def Rank.handleAccessForRank (r : Rank) (setMuxForHost : Bool) : Rank :=
  (r.select SliceInfo.allEvenDisabledTarget allCis).setMramMux
    (r.selected SliceInfo.allEvenDisabledTarget allCis) (if setMuxForHost then 0xFF#8 else 0)

theorem Rank.handleAccessForDpu_quiet (r : Rank) (dpuId : Nat) (pos : Mask) :
    Quiet r (r.handleAccessForDpu dpuId pos) :=
  (r.select_quiet _ _).trans (Rank.setMramMux_quiet _ _ _)

theorem Rank.handleAccessForRank_quiet (r : Rank) (setMuxForHost : Bool) :
    Quiet r (r.handleAccessForRank setMuxForHost) :=
  (r.select_quiet _ _).trans (Rank.setMramMux_quiet _ _ _)

/-- After a selection that wants the same target on every interface with an enabled
DPU, a command reaches the DPUs of that target there. -/
theorem Rank.reached_select (r : Rank) {want : SliceInfo → Option SliceTarget} {t : SliceTarget} {ci : Nat}
    (hci : ci < r.nrCis) (h8 : ci < 8) (hwant : want (r.sliceInfo ci) = some t) :
    (r.select want allCis).reached (r.selected want allCis) ci
      = (((r.sliceInfo ci).retarget (some t)).selectedDpuMask r.nrDpus).getD 0 := by
  have hall : allCis.getLsbD ci = true := by
    have : ∀ k < 8, allCis.getLsbD k = true := by decide
    exact this ci h8
  have hvisits : r.visits allCis ci = true := by simp [Rank.visits, hci, hall]
  have hselected : (r.selected want allCis).getLsbD ci = true := by
    simp [Rank.selected, hall, h8, hwant, -BitVec.getLsbD_eq_getElem]
  simp only [Rank.reached, Rank.visits, Rank.select, hci, decide_true, hselected, Bool.and_self, if_true, hall, hwant]

theorem Rank.handleAccessForDpu_bit (r : Rank) (dpuId : Nat) (pos : Mask) {ci : Nat} (hci : ci < r.nrCis)
    (h8 : ci < 8) (hen : (r.sliceInfo ci).enabledDpus ≠ 0) {i : Nat} (hi : i < 8) :
    ((r.handleAccessForDpu dpuId pos).hw.mux ci).getLsbD i =
      if i = dpuId then pos.getLsbD ci else (r.hw.mux ci).getLsbD i := by
  rw [Rank.handleAccessForDpu, Rank.setMramMux_bit,
    r.reached_select hci h8 (t := .dpu dpuId) (if_pos hen)]
  simp [SliceInfo.selectedDpuMask, SliceInfo.retarget, hi, Rank.select, -BitVec.getLsbD_eq_getElem]

theorem Rank.handleAccessForRank_bit (r : Rank) (setMuxForHost : Bool) {ci : Nat} (hci : ci < r.nrCis)
    (h8 : ci < 8) (hen : (r.sliceInfo ci).enabledDpus ≠ 0) {i : Nat} (hi : i < r.nrDpus) (hi8 : i < 8) :
    ((r.handleAccessForRank setMuxForHost).hw.mux ci).getLsbD i = setMuxForHost := by
  rw [Rank.handleAccessForRank, Rank.setMramMux_bit,
    r.reached_select hci h8 (t := .all) (if_pos hen)]
  have hff : ∀ k < 8, (0xFF#8).getLsbD k = true := by decide
  cases setMuxForHost <;> simp [SliceInfo.selectedDpuMask, SliceInfo.retarget, hi, hi8, hff ci h8, -BitVec.getLsbD_eq_getElem]

/-! ## Switching a line -/

/-- The DPUs that switch with `dpuId`. -/
def Rank.OnPair (r : Rank) (dpuId i : Nat) : Prop :=
  i = pairBase dpuId ∨ (i = pairBase dpuId + 1 ∧ i < r.nrDpus)

instance (r : Rank) (dpuId i : Nat) : Decidable (r.OnPair dpuId i) :=
  inferInstanceAs (Decidable (_ ∨ _))

/-- `dpu_switch_mux_for_dpu_line` took the rank from `r` to `r'`. -/
structure LineSwitch (r : Rank) (dpuId : Nat) (mask : Mask) (r' : Rank) : Prop extends Frame r r' where
  hostMux : ∀ ci < r.nrCis, ∀ i < 8,
    r'.hostMux ci i = if r.OnPair dpuId i then mask.getLsbD ci else r.hostMux ci i
  idle : ∀ ci < r.nrCis, ∀ i < 8, r'.hostMux ci i ≠ r.hostMux ci i → ∀ ci' < r.nrCis, r.running ci' i = false
  synced : r.Synced → r'.Synced

theorem Rank.muxLine_bit (r : Rank) (dpuId : Nat) {ci : Nat} (hci : ci < r.nrCis) (h8 : ci < 8) :
    (r.muxLine dpuId).getLsbD ci = r.hostMux ci dpuId := by
  simp [Rank.muxLine, hci, h8, -BitVec.getLsbD_eq_getElem]

theorem Rank.sumCis_eq (r : Rank) (f : Nat → Nat) : r.sumCis f = ∑ ci ∈ Finset.range r.nrCis, f ci := by
  unfold Rank.sumCis
  induction r.nrCis with
  | zero => rfl
  | succ n ih => rw [List.range_succ, List.foldl_append, ih, Finset.sum_range_succ]; rfl

/-- No running DPU among `runMask`. -/
theorem Rank.idle_of_nbRunning (r : Rank) {runMask : Mask} (h : r.nbRunning runMask = 0) {i : Nat}
    (hi : runMask.getLsbD i = true) {ci : Nat} (hci : ci < r.nrCis) : r.running ci i = false := by
  have h8 : i < 8 := BitVec.lt_of_getLsbD hi
  rw [Rank.nbRunning, Rank.sumCis_eq, Finset.sum_eq_zero_iff] at h
  have hzero := dpuMaskCount_eq_zero.mp (h ci (Finset.mem_range.mpr hci)) i h8
  rw [BitVec.getLsbD_and, hi, Bool.and_true] at hzero
  exact hzero

/-- Some DPU is recorded as running. -/
def Rank.Busy (r : Rank) : Prop := ∃ ci < r.nrCis, ∃ i, r.running ci i = true

theorem Rank.busy_of_nbRunning (r : Rank) {runMask : Mask} (h : 0 < r.nbRunning runMask) : r.Busy := by
  by_contra hidle
  rw [Rank.nbRunning, Rank.sumCis_eq, Finset.sum_eq_zero] at h
  · contradiction
  · intro ci hci
    refine dpuMaskCount_eq_zero.mpr fun i _ => ?_
    rw [BitVec.getLsbD_and, Bool.and_eq_false_iff]
    refine .inl (Bool.eq_false_iff.mpr fun hrun => hidle ⟨ci, Finset.mem_range.mp hci, i, hrun⟩)

/-- Record a line if it is to be switched. -/
def Rank.recordIf (r : Rank) (switch : Bool) (dpuId : Nat) (mask : Mask) : Rank :=
  if switch then r.recordMuxLine dpuId mask else r

/-- Switch the hardware of a line if it is to be switched. -/
def Rank.accessIf (r : Rank) (switch : Bool) (dpuId : Nat) (mask : Mask) : Rank :=
  if switch then r.handleAccessForDpu dpuId mask else r

theorem Rank.recordIf_frame (r : Rank) (switch : Bool) (dpuId : Nat) (mask : Mask) :
    Frame r (r.recordIf switch dpuId mask) := by
  unfold Rank.recordIf
  split
  · refine ⟨rfl, rfl, rfl, fun ci => ?_, rfl, rfl, fun _ _ h => h⟩
    simp only [Rank.recordMuxLine]
    split <;> rfl
  · exact Frame.refl r

theorem Rank.recordIf_mux (r : Rank) (switch : Bool) (dpuId : Nat) (mask : Mask) :
    (r.recordIf switch dpuId mask).hw.mux = r.hw.mux := by
  unfold Rank.recordIf
  split <;> rfl

theorem Rank.recordIf_hostMux (r : Rank) (switch : Bool) (dpuId : Nat) (mask : Mask) {ci : Nat}
    (hci : ci < r.nrCis) {i : Nat} (hi : i < 8) :
    (r.recordIf switch dpuId mask).hostMux ci i =
      if switch = true ∧ i = dpuId then mask.getLsbD ci else r.hostMux ci i := by
  unfold Rank.recordIf
  split
  · simp [Rank.hostMux, Rank.recordMuxLine, *, -BitVec.getLsbD_eq_getElem]
  · simp [*]

theorem Rank.accessIf_quiet (r : Rank) (switch : Bool) (dpuId : Nat) (mask : Mask) :
    Quiet r (r.accessIf switch dpuId mask) := by
  unfold Rank.accessIf
  split
  · exact r.handleAccessForDpu_quiet dpuId mask
  · exact ⟨Frame.refl r, fun _ _ => rfl⟩

theorem Rank.accessIf_bit (r : Rank) (switch : Bool) (dpuId : Nat) (mask : Mask) {ci : Nat} (hci : ci < r.nrCis)
    (h8 : ci < 8) (hen : (r.sliceInfo ci).enabledDpus ≠ 0) {i : Nat} (hi : i < 8) :
    ((r.accessIf switch dpuId mask).hw.mux ci).getLsbD i =
      if switch = true ∧ i = dpuId then mask.getLsbD ci else (r.hw.mux ci).getLsbD i := by
  unfold Rank.accessIf
  split
  · rw [r.handleAccessForDpu_bit dpuId mask hci h8 hen hi]
    simp [*]
  · simp [*]

theorem triple_access (r : Rank) (switch : Bool) (dpuId : Nat) (mask : Mask) {Q : PUnit → Rank → Prop}
    {E : Stop → Rank → Prop} (h : Q ⟨⟩ (r.accessIf switch dpuId mask)) :
    Triple (fun s => s = r) (onlyIf switch (hostHandleAccessForDpu dpuId mask)) Q E := by
  rintro _ rfl
  cases switch <;> exact h

section

variable (r : Rank) (dpuId : Nat) (mask : Mask)

/-- `switch_base_line` and `switch_friend_line`. -/
def Rank.switchBase : Bool := decide (r.muxLine (pairBase dpuId) ≠ mask)
def Rank.switchFriend : Bool :=
  decide (pairBase dpuId + 1 < r.nrDpus) && decide (r.muxLine (pairBase dpuId + 1) ≠ mask)

/-- The lines recorded. -/
def Rank.recordPair : Rank :=
  (r.recordIf (r.switchBase dpuId mask) (pairBase dpuId) mask).recordIf (r.switchFriend dpuId mask)
    (pairBase dpuId + 1) mask

/-- The lines' hardware switched. -/
def Rank.accessPair (s : Rank) : Rank :=
  (s.accessIf (r.switchBase dpuId mask) (pairBase dpuId) mask).accessIf (r.switchFriend dpuId mask)
    (pairBase dpuId + 1) mask

theorem Rank.recordPair_frame : Frame r (r.recordPair dpuId mask) :=
  (r.recordIf_frame _ _ _).trans (Rank.recordIf_frame _ _ _ _)

theorem Rank.accessPair_quiet (s : Rank) : Quiet s (r.accessPair dpuId mask s) :=
  (s.accessIf_quiet _ _ _).trans (Rank.accessIf_quiet _ _ _ _)

variable {r dpuId mask}

theorem Rank.recordPair_hostMux {ci : Nat} (hci : ci < r.nrCis) {i : Nat} (hi : i < 8) :
    (r.recordPair dpuId mask).hostMux ci i =
      if (r.switchBase dpuId mask = true ∧ i = pairBase dpuId)
        ∨ (r.switchFriend dpuId mask = true ∧ i = pairBase dpuId + 1) then mask.getLsbD ci
      else r.hostMux ci i := by
  rw [Rank.recordPair, Rank.recordIf_hostMux _ _ _ _ (by rwa [(r.recordIf_frame _ _ _).nrCis]) hi,
    Rank.recordIf_hostMux _ _ _ _ hci hi]
  grind

theorem Rank.accessPair_bit {s : Rank} {ci : Nat} (hci : ci < s.nrCis) (h8 : ci < 8)
    (hen : (s.sliceInfo ci).enabledDpus ≠ 0) {i : Nat} (hi : i < 8) :
    ((r.accessPair dpuId mask s).hw.mux ci).getLsbD i =
      if (r.switchBase dpuId mask = true ∧ i = pairBase dpuId)
        ∨ (r.switchFriend dpuId mask = true ∧ i = pairBase dpuId + 1) then mask.getLsbD ci
      else (s.hw.mux ci).getLsbD i := by
  have hquiet := s.accessIf_quiet (r.switchBase dpuId mask) (pairBase dpuId) mask
  rw [Rank.accessPair, Rank.accessIf_bit _ _ _ _ (by rwa [hquiet.nrCis]) h8 (by rwa [hquiet.enabled]) hi,
    Rank.accessIf_bit _ _ _ _ hci h8 hen hi]
  grind

/-- A line that is not switched is where it should be. -/
theorem Rank.hostMux_of_not_switch (hcis : r.nrCis ≤ 8) {ci : Nat} (hci : ci < r.nrCis) {i : Nat}
    (hpair : r.OnPair dpuId i) (hbase : ¬(r.switchBase dpuId mask = true ∧ i = pairBase dpuId))
    (hfriend : ¬(r.switchFriend dpuId mask = true ∧ i = pairBase dpuId + 1)) :
    r.hostMux ci i = mask.getLsbD ci := by
  have hline : r.muxLine i = mask := by
    unfold Rank.OnPair at hpair
    simp only [Rank.switchBase, Rank.switchFriend, Bool.and_eq_true, decide_eq_true_eq, not_and] at hbase hfriend
    by_contra hne
    obtain rfl | ⟨rfl, hlt⟩ := hpair
    · exact hbase hne rfl
    · exact hfriend ⟨hlt, hne⟩ rfl
  rw [← r.muxLine_bit i hci (by omega), hline]

/-- A line that is switched is on the pair. -/
theorem Rank.onPair_of_switch {i : Nat}
    (h : (r.switchBase dpuId mask = true ∧ i = pairBase dpuId)
      ∨ (r.switchFriend dpuId mask = true ∧ i = pairBase dpuId + 1)) : r.OnPair dpuId i := by
  simp only [Rank.switchFriend, Bool.and_eq_true, decide_eq_true_eq] at h
  unfold Rank.OnPair
  omega

theorem Rank.recordPair_onPair (hcis : r.nrCis ≤ 8) {ci : Nat} (hci : ci < r.nrCis) {i : Nat} (hi : i < 8) :
    (r.recordPair dpuId mask).hostMux ci i = if r.OnPair dpuId i then mask.getLsbD ci else r.hostMux ci i := by
  rw [Rank.recordPair_hostMux hci hi]
  split
  · rw [if_pos (Rank.onPair_of_switch ‹_›)]
  · split
    · rename_i hnot hpair
      exact Rank.hostMux_of_not_switch hcis hci hpair (fun h => hnot (.inl h)) fun h => hnot (.inr h)
    · rfl

end

/-- The mask of the lines to switch. -/
theorem runMask_bit (base : Nat) (sb sf : Bool) {i : Nat} (hi : i < 8) :
    (let runMask := if sb then dpuMaskSelect dpuMaskEmpty base else dpuMaskEmpty
     if sf then dpuMaskSelect runMask (base + 1) else runMask).getLsbD i
      = decide ((sb = true ∧ i = base) ∨ (sf = true ∧ i = base + 1)) := by
  cases sb <;> cases sf <;> simp [dpuMaskEmpty, hi, -BitVec.getLsbD_eq_getElem]

/-- The two lines that move. -/
def Rank.Switched (r : Rank) (dpuId : Nat) (mask : Mask) (i : Nat) : Prop :=
  (r.switchBase dpuId mask = true ∧ i = pairBase dpuId)
    ∨ (r.switchFriend dpuId mask = true ∧ i = pairBase dpuId + 1)

/-- The records moved on idle lines, and then the hardware where the API switches
it. -/
theorem LineSwitch.of_record {r : Rank} (hcis : r.nrCis ≤ 8) (hdpus : r.nrDpus ≤ 8) {dpuId : Nat} {mask : Mask}
    {s : Rank} (hidle : ∀ i < 8, r.Switched dpuId mask i → ∀ ci < r.nrCis, r.running ci i = false)
    (hquiet : Quiet (r.recordPair dpuId mask) s)
    (hhw : r.apiMustSwitchMramMux = true → s = r.accessPair dpuId mask (r.recordPair dpuId mask)) :
    LineSwitch r dpuId mask s := by
  have hframe := r.recordPair_frame dpuId mask
  refine ⟨hframe.trans hquiet.toFrame, ?_, ?_, ?_⟩
  · intro ci hci i hi
    rw [hquiet.hostMux, Rank.recordPair_onPair hcis hci hi]
  · intro ci hci i hi hne
    rw [hquiet.hostMux, Rank.recordPair_hostMux hci hi] at hne
    apply hidle i hi
    by_contra hnot
    exact hne (if_neg hnot)
  · intro hsync hapi ci hci hen i hi
    rw [hquiet.apiMustSwitch, hframe.apiMustSwitch] at hapi
    rw [hquiet.nrCis, hframe.nrCis] at hci
    rw [hquiet.nrDpus, hframe.nrDpus] at hi
    rw [hquiet.enabled, hframe.enabled] at hen
    have hi8 : i < 8 := by omega
    rw [hquiet.hostMux, hhw hapi, Rank.accessPair_bit (by rwa [hframe.nrCis]) (by omega) (by rwa [hframe.enabled]) hi8,
      Rank.recordPair_hostMux hci hi8]
    split
    · rfl
    · rw [Rank.recordPair, Rank.recordIf_mux, Rank.recordIf_mux]
      exact hsync hapi ci hci hen i hi

theorem dpuSwitchMuxForDpuLine_spec {r : Rank} (hcis : r.nrCis ≤ 8) (hdpus : r.nrDpus ≤ 8) (dpuId : Nat) (mask : Mask) :
    Triple (fun s => s = r) (dpuSwitchMuxForDpuLine dpuId mask) (fun _ s => LineSwitch r dpuId mask s)
      (fun _ s => s = r ∧ r.Busy) := by
  refine triple_get fun s hs => ?_
  subst hs
  show Triple _ (if !s.switchBase dpuId mask && !s.switchFriend dpuId mask then _ else _) _ _
  refine triple_ite (fun hnone => triple_pure ?_) fun _ => triple_ite (fun hbusy => triple_throw ?_) ?_
  · rintro _ rfl
    rename_i s
    have hb : s.switchBase dpuId mask = false := by grind
    have hf : s.switchFriend dpuId mask = false := by grind
    have hrec : s.recordPair dpuId mask = s := by simp [Rank.recordPair, Rank.recordIf, hb, hf]
    refine LineSwitch.of_record hcis hdpus ?_ (by rw [hrec]; exact ⟨Frame.refl s, fun _ _ => rfl⟩) fun _ => ?_
    · rintro i _ (h | h)
      · simp [hb] at h
      · simp [hf] at h
    · simp [Rank.accessPair, Rank.accessIf, hb, hf, hrec]
  · exact fun _ h => ⟨h, s.busy_of_nbRunning hbusy⟩
  · intro hbusy
    have hidle : ∀ i < 8, s.Switched dpuId mask i → ∀ ci < s.nrCis, s.running ci i = false := by
      intro i hi hsw ci hci
      refine s.idle_of_nbRunning (Nat.eq_zero_of_not_pos hbusy) (i := i) ?_ hci
      show (let runMask := if s.switchBase dpuId mask then dpuMaskSelect dpuMaskEmpty (pairBase dpuId) else dpuMaskEmpty
        if s.switchFriend dpuId mask then dpuMaskSelect runMask (pairBase dpuId + 1) else runMask).getLsbD i = true
      rw [runMask_bit _ _ _ hi]
      exact decide_eq_true hsw
    refine triple_bind (R := fun _ t => t = s.recordIf (s.switchBase dpuId mask) (pairBase dpuId) mask)
      (triple_modify ?_) fun _ => ?_
    · rintro _ rfl
      rfl
    refine triple_bind (R := fun _ t => t = s.recordPair dpuId mask) (triple_modify ?_) fun _ => ?_
    · rintro _ rfl
      rfl
    refine triple_ite (fun hapi => triple_pure ?_) fun hapi => ?_
    · rintro _ rfl
      refine LineSwitch.of_record hcis hdpus hidle ⟨Frame.refl _, fun _ _ => rfl⟩ fun h => ?_
      simp [h] at hapi
    · refine triple_bind (triple_access _ (s.switchBase dpuId mask) _ _ rfl) fun _ =>
        triple_access _ (s.switchFriend dpuId mask) _ _ ?_
      exact LineSwitch.of_record hcis hdpus hidle (s.accessPair_quiet dpuId mask _) fun _ => rfl

/-! ## Switching the rank -/

/-- `dpu_switch_mux_for_rank` took the rank from `r` to `r'`. The records are left
alone when enough bits are already set. -/
structure RankSwitch (r : Rank) (setMuxForHost : Bool) (r' : Rank) : Prop extends Frame r r' where
  idle : r.runContext.nbDpuRunning = 0
  hostMux :
    (∀ ci < r.nrCis, ∀ i < 8, r'.hostMux ci i = (setMuxForHost && decide (i < r.nrDpus)))
      ∨ (setMuxForHost = true ∧ (∀ ci i, r'.hostMux ci i = r.hostMux ci i)
        ∧ ∀ ci < r.nrCis, r.nrDpus ≤ dpuMaskCount (r.sliceInfo ci).hostMuxMramState)
  synced : r.Synced → r'.Synced

theorem Rank.recordMuxRank_frame (r : Rank) (host : Bool) : Frame r (r.recordMuxRank host) := by
  refine ⟨rfl, rfl, rfl, fun ci => ?_, rfl, rfl, fun _ _ h => h⟩
  simp only [Rank.recordMuxRank]
  split <;> rfl

theorem Rank.recordMuxRank_hostMux (r : Rank) (host : Bool) {ci : Nat} (hci : ci < r.nrCis) {i : Nat} (hi : i < 8) :
    (r.recordMuxRank host).hostMux ci i = (host && decide (i < r.nrDpus)) := by
  cases host <;> simp [Rank.hostMux, Rank.recordMuxRank, hci, hi, -BitVec.getLsbD_eq_getElem]

theorem RankSwitch.of_not_must {r : Rank} {host : Bool} (hidle : r.runContext.nbDpuRunning = 0)
    (hnot : r.mustSwitchRank host = false) : RankSwitch r host r := by
  refine ⟨Frame.refl r, hidle, ?_, fun h => h⟩
  have hall : ∀ ci < r.nrCis,
      (host = true → r.nrDpus ≤ dpuMaskCount (r.sliceInfo ci).hostMuxMramState)
        ∧ (host = false → (r.sliceInfo ci).hostMuxMramState = 0) := by
    intro ci hci
    have h := List.any_eq_false.mp hnot ci (List.mem_range.mpr hci)
    simp only [Bool.or_eq_true, Bool.and_eq_true, decide_eq_true_eq, Bool.not_eq_true', not_or, not_and] at h
    exact ⟨fun hh => by have := h.1 hh; omega, fun hh => by simpa using h.2 hh⟩
  cases host with
  | true => exact .inr ⟨rfl, fun _ _ => rfl, fun ci hci => (hall ci hci).1 rfl⟩
  | false =>
    refine .inl fun ci hci i _ => ?_
    rw [Rank.hostMux, (hall ci hci).2 rfl]
    simp

theorem RankSwitch.of_record {r : Rank} (hcis : r.nrCis ≤ 8) (hdpus : r.nrDpus ≤ 8) {host : Bool} {s : Rank}
    (hidle : r.runContext.nbDpuRunning = 0) (hquiet : Quiet (r.recordMuxRank host) s)
    (hhw : r.apiMustSwitchMramMux = true → s = (r.recordMuxRank host).handleAccessForRank host) :
    RankSwitch r host s := by
  have hframe := r.recordMuxRank_frame host
  refine ⟨hframe.trans hquiet.toFrame, hidle, .inl fun ci hci i hi => ?_, ?_⟩
  · rw [hquiet.hostMux, r.recordMuxRank_hostMux host hci hi]
  · intro _ hapi ci hci hen i hi
    rw [hquiet.apiMustSwitch, hframe.apiMustSwitch] at hapi
    rw [hquiet.nrCis, hframe.nrCis] at hci
    rw [hquiet.nrDpus, hframe.nrDpus] at hi
    rw [hquiet.enabled] at hen
    rw [hquiet.hostMux, r.recordMuxRank_hostMux host hci (by omega), hhw hapi,
      Rank.handleAccessForRank_bit _ host (by rwa [hframe.nrCis]) (by omega) hen (by rwa [hframe.nrDpus]) (by omega)]
    simp [hi]

theorem dpuSwitchMuxForRank_spec {r : Rank} (hcis : r.nrCis ≤ 8) (hdpus : r.nrDpus ≤ 8) (host : Bool) :
    Triple (fun s => s = r) (dpuSwitchMuxForRank host) (fun _ s => RankSwitch r host s)
      (fun _ s => s = r ∧ 0 < r.runContext.nbDpuRunning) := by
  refine triple_get fun s hs => ?_
  subst hs
  refine triple_ite (fun hbusy => triple_throw fun _ h => ⟨h, hbusy⟩) fun hbusy => ?_
  have hidle : s.runContext.nbDpuRunning = 0 := Nat.eq_zero_of_not_pos hbusy
  refine triple_ite (fun hnot => triple_pure ?_) fun _ => ?_
  · rintro _ rfl
    exact RankSwitch.of_not_must hidle (by simpa using hnot)
  · refine triple_bind (R := fun _ t => t = s.recordMuxRank host) (triple_modify ?_) fun _ => ?_
    · rintro _ rfl
      rfl
    · refine triple_ite (fun hapi => triple_pure ?_) fun _ => ?_
      · rintro _ rfl
        refine RankSwitch.of_record hcis hdpus hidle ⟨Frame.refl _, fun _ _ => rfl⟩ fun h => ?_
        simp [h] at hapi
      · rintro _ rfl
        exact RankSwitch.of_record hcis hdpus hidle (Rank.handleAccessForRank_quiet _ host) fun _ => rfl

end DpuBackend.Ufi
