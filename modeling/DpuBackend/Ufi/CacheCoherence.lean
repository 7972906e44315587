import DpuBackend.Ufi.FramedCalls

/-
  What a rank notes of its interfaces agrees with them.

  `color`, `structure_value`, `slice_target` and `dpus_per_group` are written before the commands
  that make them true, and decide later which commands are sent at all. A selection that fails
  between its structure and its frame leaves a target noted that the interface does not have,
  and the next selection of it is skipped. A group write that fails there leaves groups noted
  that were not written; and one that comes to an interface without a target has moved the
  groups of the interfaces before it.

  `Op.Heeded` leaves out these: where the structure of a selection or of a group write goes out,
  its commit succeeds. All packets reach their interfaces; the commits of the other commands may
  fail all the same.

  What is proved, for every run of calls on structures and frames that meet this
  (`calls_coherent`): the copies agree with the interfaces in every state. So a structure or a
  selection that is left out would have changed nothing, and a command reaches the DPUs of
  `ci_fill_selected_dpu_mask` and no others (`Coherent.skip_structure`, `Coherent.skip_selection`,
  `Coherent.reached`).
-/

namespace DpuBackend.Ufi

open DpuBackend.Lib

/-! ## Agreement -/

/-- The noted target `t` and groups `g` of an interface with the target `T` and the groups `G`. -/
structure Agrees (nrDpus : Nat) (t : SliceTarget) (g : Nat → Mask) (T : SliceTarget) (G : Nat → Nat) : Prop where
  target : t ≠ .none → T = t
  bound : ∀ group, t = .group group → group < maxNrGroups
  groups : ∀ group < maxNrGroups, ∀ dpu < nrDpus, (g group).getLsbD dpu = decide (G dpu = group)

def agrees (nrDpus : Nat) : Kept := fun _ t g T G => Agrees nrDpus t g T G

/-- The copies agree with the interfaces. -/
def Link.Coherent (l : Link) : Prop := l.rank.nrDpus ≤ 8 ∧ l.Keeps False (agrees l.rank.nrDpus)

/-- The DPUs a command reaches are those of the noted target. -/
theorem Agrees.selects {nrDpus : Nat} {info : SliceInfo} {d : Decoder} (hle : nrDpus ≤ 8)
    (h : Agrees nrDpus info.sliceTarget info.dpusPerGroup d.target d.group) {dpus : Mask}
    (hdpus : info.selectedDpuMask nrDpus = some dpus) {dpu : Nat} (hdpu : dpu < nrDpus) :
    d.selects dpu = dpus.getLsbD dpu := by
  unfold SliceInfo.selectedDpuMask at hdpus
  have htarget := h.target
  cases hnoted : info.sliceTarget with
  | none =>
    rw [hnoted] at hdpus
    cases hdpus
  | all =>
    rw [hnoted] at hdpus htarget
    cases hdpus
    have hlt : dpu < 8 ∧ dpu < nrDpus := ⟨by omega, hdpu⟩
    rw [Decoder.selects, htarget (fun heq => nomatch heq), dpuMaskAll_bit, decide_eq_true hlt]
  | dpu d' =>
    rw [hnoted] at hdpus htarget
    cases hdpus
    have hlt : dpu < 8 := by omega
    rw [Decoder.selects, htarget (fun heq => nomatch heq), dpuMaskOne_bit]
    simp only [hlt, true_and]
    rfl
  | group group =>
    rw [hnoted] at hdpus htarget
    cases hdpus
    rw [Decoder.selects, htarget (fun heq => nomatch heq), h.groups group (h.bound group hnoted) dpu hdpu]
    rfl

/-! ## What a call must not come across -/

/-- A selection or a group write sends its structure. -/
def Op.sendsStructure (r : CmdRank) : Op → Bool
  | .selectAll mask => (List.range r.nrCis).any
      (r.takesStructure (r.selected SliceInfo.allTarget mask) (r.selectStructs SliceInfo.allTarget mask))
  | .selectAllEvenDisabled mask => (List.range r.nrCis).any
      (r.takesStructure (r.selected SliceInfo.allEvenDisabledTarget mask)
        (r.selectStructs SliceInfo.allEvenDisabledTarget mask))
  | .selectGroup mask group => (List.range r.nrCis).any (r.retargets (SliceInfo.groupTarget · group) mask) &&
      r.mustWriteStructure (r.selected (SliceInfo.groupTarget · group) mask) oneByteStruct
  | .selectDpu mask dpu => (List.range r.nrCis).any (r.retargets (SliceInfo.dpuTarget · dpu) mask) &&
      r.mustWriteStructure (r.selected (SliceInfo.dpuTarget · dpu) mask) oneByteStruct
  | .selectDpuEvenDisabled mask dpu =>
    (List.range r.nrCis).any (r.retargets (SliceInfo.dpuEvenDisabledTarget · dpu) mask) &&
      r.mustWriteStructure (r.selected (SliceInfo.dpuEvenDisabledTarget · dpu) mask) oneByteStruct
  | .selectAllUncached mask => r.mustWriteStructure mask plainStruct
  | .selectGroupUncached mask _ | .selectDpuUncached mask _ | .writeGroup mask _ =>
    r.mustWriteStructure mask oneByteStruct
  | _ => false

/-- The interfaces of a group write have a target. -/
def Op.hasTargets (r : CmdRank) : Op → Bool
  | .writeGroup mask _ => (List.range r.nrCis).all fun ci =>
      !mask.getLsbD ci || decide ((r.sliceInfo ci).sliceTarget ≠ .none)
  | _ => true

structure Op.Heeded (r : CmdRank) (answers : Nat → Answer) (op : Op) : Prop where
  framed : op.Framed
  delivered : Delivered answers
  structure_done : op.sendsStructure r = true → answers 0 = .done
  targets : op.hasTargets r = true

/-! ## Selections -/

namespace Exchange

variable {c : Exchange} {r : CmdRank} {mask : Mask} {target : SliceTarget} {want : SliceInfo → Option SliceTarget}
  {n : Nat}

/-- The interfaces of `sent` have a target noted that is on its way. -/
def selecting (n : Nat) (sent : Nat → Bool) (target : Nat → SliceTarget) : Kept := fun ci t g T G =>
  if sent ci then t = target ci ∧ (∀ group, t = .group group → group < maxNrGroups) ∧
    ∀ group < maxNrGroups, ∀ dpu < n, (g group).getLsbD dpu = decide (G dpu = group)
  else Agrees n t g T G

theorem selecting_arrived {sent : Nat → Bool} {target : Nat → SliceTarget} {ci : Nat} {t : SliceTarget} {g : Nat → Mask}
    {T : SliceTarget} {G : Nat → Nat} (hsent : sent ci = true) (h : selecting n sent target ci t g T G) :
    Agrees n t g (target ci) G := by
  rw [selecting, if_pos hsent] at h
  obtain ⟨ht, hbound, hgroups⟩ := h
  exact ⟨fun _ => ht.symm, hbound, hgroups⟩

theorem selecting_other {sent : Nat → Bool} {target : Nat → SliceTarget} {ci : Nat} {t : SliceTarget} {g : Nat → Mask}
    {T : SliceTarget} {G : Nat → Nat} (hsent : sent ci = false) (h : selecting n sent target ci t g T G) :
    Agrees n t g T G := by
  rw [selecting, if_neg (by rw [hsent]; decide)] at h
  exact h

/-- The new targets, and nothing else. -/
theorem setTargets_target (r : CmdRank) (want : SliceInfo → Option SliceTarget) (mask : Mask) (ci : Nat) :
    ((r.setTargets want mask).sliceInfo ci).sliceTarget =
      if r.retargets want mask ci then (want (r.sliceInfo ci)).getD .none else (r.sliceInfo ci).sliceTarget := by
  have hinfo : (r.setTargets want mask).sliceInfo ci =
      if r.visits mask ci then (r.sliceInfo ci).retarget (want (r.sliceInfo ci)) else r.sliceInfo ci := rfl
  rw [hinfo, CmdRank.retargets]
  by_cases hvisit : r.visits mask ci = true
  · rw [if_pos hvisit, hvisit, Bool.true_and]
    generalize want (r.sliceInfo ci) = wanted
    cases wanted with
    | none => simp [SliceInfo.retarget]
    | some t =>
      by_cases hsame : t = (r.sliceInfo ci).sliceTarget
      · simp [SliceInfo.retarget, hsame]
      · simp [SliceInfo.retarget, hsame]
  · rw [if_neg hvisit, if_neg]
    simp [hvisit]

theorem retargets_isSome {ci : Nat} (h : r.retargets want mask ci = true) : (want (r.sliceInfo ci)).isSome = true := by
  simp only [CmdRank.retargets, Bool.and_eq_true] at h
  exact h.1.2

theorem setTargets_structure (r : CmdRank) (want : SliceInfo → Option SliceTarget) (mask : Mask) (ci : Nat) :
    ((r.setTargets want mask).sliceInfo ci).structureValue = (r.sliceInfo ci).structureValue := by
  simp only [CmdRank.setTargets]
  split
  · rfl
  · rfl

/-- New targets call for no structure. -/
theorem setTargets_mustWriteStructure (r : CmdRank) (want : SliceInfo → Option SliceTarget) (mask mask' : Mask)
    (struct : Word) : (r.setTargets want mask).mustWriteStructure mask' struct = r.mustWriteStructure mask' struct := by
  have hcis : (r.setTargets want mask).nrCis = r.nrCis := rfl
  simp only [CmdRank.mustWriteStructure, hcis, setTargets_structure]

/-- An interface that stays in the mask wants its target. -/
theorem selected_wants {ci : Nat} (hci : ci < r.nrCis) (h : (r.selected want mask).getLsbD ci = true) :
    r.visits mask ci = true ∧ (want (r.sliceInfo ci)).isSome = true := by
  have h8 : ci < 8 := BitVec.lt_of_getLsbD h
  simp only [CmdRank.selected, BitVec.getLsbD_and, BitVec.getLsbD_not, gatherMask_bit, Bool.and_eq_true] at h
  obtain ⟨hbit, hkept⟩ := h
  have hvisit : r.visits mask ci = true := by simp [CmdRank.visits, hci, hbit]
  refine ⟨hvisit, ?_⟩
  simpa [h8, hci, hvisit, Option.isSome_iff_ne_none] using hkept

/-- The targets are noted before they are sent. -/
theorem selecting_noted {sent : Nat → Bool} {targets : Nat → SliceTarget} {ci : Nat} {t t' : SliceTarget}
    {g : Nat → Mask} {T : SliceTarget} {G : Nat → Nat}
    (hbound : ∀ group, targets ci = .group group → group < maxNrGroups) (h : Agrees n t g T G)
    (hsent : sent ci = true → t' = targets ci) (hother : sent ci = false → t' = t) :
    selecting n sent targets ci t' g T G := by
  rw [selecting]
  cases hbit : sent ci with
  | true =>
    rw [if_pos rfl]
    refine ⟨hsent hbit, fun group heq => hbound group ?_, h.groups⟩
    rw [← hsent hbit]
    exact heq
  | false =>
    rw [if_neg (by decide), hother hbit]
    exact h

/-- `ufi_select_group`, `ufi_select_dpu`, `ufi_select_dpu_even_disabled`. -/
theorem selectOne_coherent (h : c.Inv (agrees n) r) (htyped : target.Typed) (hne : target ≠ .none)
    (hbound : ∀ group, target = .group group → group < maxNrGroups) (hwant : ∀ info t, want info = some t → t = target)
    {Sends : Prop} (hsends : (∃ ci < c.nrCis, r.retargets want mask ci = true) →
      r.mustWriteStructure (r.selected want mask) (selectStruct target) = true → Sends) :
    Triple (fun s => s = r) (selectOne want target mask) (fun _ s => c.Inv (agrees n) s)
      fun _ s => (Sends → c.answers r.clock = .done) → c.Late (agrees n) s := by
  have hcis : r.nrCis = c.nrCis := h.runs.nrCis
  have hgiven : ∀ ci, r.retargets want mask ci = true → (want (r.sliceInfo ci)).getD .none = target := by
    intro ci hre
    obtain ⟨t, ht⟩ := Option.isSome_iff_exists.mp (retargets_isSome hre)
    rw [ht]
    exact hwant _ t ht
  have hmid : ∀ ci < c.nrCis, ∀ g T G, Agrees n (r.sliceInfo ci).sliceTarget g T G →
      selecting n (r.selected want mask).getLsbD (fun _ => target) ci
        ((r.setTargets want mask).sliceInfo ci).sliceTarget g T G := by
    intro ci hci g T G hkept
    apply selecting_noted hbound hkept
    · intro hsent
      obtain ⟨hvisit, hsome⟩ := selected_wants (hcis ▸ hci) hsent
      rw [setTargets_target]
      split
      · next hre => exact hgiven ci hre
      · next hre =>
        obtain ⟨t, ht⟩ := Option.isSome_iff_exists.mp hsome
        have hsame : t = (r.sliceInfo ci).sliceTarget := by
          simpa [CmdRank.retargets, hvisit, ht] using hre
        rw [← hsame]
        exact hwant _ t ht
    · intro hother
      rw [setTargets_target, if_neg]
      intro hre
      rw [retargets_selected hre] at hother
      cases hother
  refine (selectOne_inv (M := selecting n (r.selected want mask).getLsbD fun _ => target) h htyped hne hmid ?_ ?_
    ?_).weaken (fun _ h => h) (fun _ _ h => h) ?_
  · exact fun ci _ hsent t g T G hkept => selecting_arrived hsent hkept
  · exact fun ci _ hother t g T G hkept => selecting_other hother hkept
  · intro hnone ci hci g T G hkept
    rw [setTargets_target, if_neg (by rw [hnone ci hci]; decide)]
    exact hkept
  · intro _ s hs hdone
    obtain hlate | ⟨hre, hmust, hfailed, _⟩ := hs
    · exact hlate
    · rw [setTargets_mustWriteStructure] at hmust
      exact absurd (hdone (hsends hre hmust)) hfailed

/-- `ufi_select_all_uncached`, `ufi_select_group_uncached`, `ufi_select_dpu_uncached`. -/
theorem selectUncached_coherent (h : c.Inv (agrees n) r) (htyped : target.Typed) (hne : target ≠ .none)
    (hbound : ∀ group, target = .group group → group < maxNrGroups)
    {Sends : Prop} (hsends : r.mustWriteStructure mask (selectStruct target) = true → Sends) :
    Triple (fun s => s = r) (selectUncached target mask) (fun _ s => c.Inv (agrees n) s)
      fun _ s => (Sends → c.answers r.clock = .done) → c.Late (agrees n) s := by
  have hcis : r.nrCis = c.nrCis := h.runs.nrCis
  have hmid : ∀ ci < c.nrCis, ∀ g T G, Agrees n (r.sliceInfo ci).sliceTarget g T G →
      selecting n mask.getLsbD (fun _ => target) ci
        ((r.setTargets (fun _ => some target) mask).sliceInfo ci).sliceTarget g T G := by
    intro ci hci g T G hkept
    have hvisits : r.visits mask ci = mask.getLsbD ci := by
      rw [CmdRank.visits, decide_eq_true (hcis ▸ hci), Bool.true_and]
    apply selecting_noted hbound hkept
    · intro hsent
      simp [CmdRank.setTargets, hvisits, hsent, SliceInfo.retarget]
    · intro hother
      simp [CmdRank.setTargets, hvisits, hother]
  refine (selectUncached_inv (M := selecting n mask.getLsbD fun _ => target) h htyped hne hmid ?_ ?_).weaken
    (fun _ h => h) (fun _ _ h => h) ?_
  · exact fun ci _ hsent t g T G hkept => selecting_arrived hsent hkept
  · exact fun ci _ hother t g T G hkept => selecting_other hother hkept
  · intro _ s hs hdone
    obtain hlate | ⟨hmust, hfailed, _⟩ := hs
    · exact hlate
    · rw [setTargets_mustWriteStructure] at hmust
      exact absurd (hdone (hsends hmust)) hfailed

/-- `ufi_select_all`, `ufi_select_all_even_disabled`. -/
theorem selectEach_coherent (h : c.Inv (agrees n) r) (hwant : ∀ info t, want info = some t → t.Typed ∧ t ≠ .none)
    (hbound : ∀ info group, want info = some (.group group) → group < maxNrGroups)
    {Sends : Prop}
    (hsends : ∀ ci < c.nrCis, r.takesStructure (r.selected want mask) (r.selectStructs want mask) ci = true → Sends) :
    Triple (fun s => s = r) (selectEach want mask) (fun _ s => c.Inv (agrees n) s)
      fun _ s => (Sends → c.answers r.clock = .done) → c.Late (agrees n) s := by
  have hmid : ∀ ci < c.nrCis, ∀ g T G, Agrees n (r.sliceInfo ci).sliceTarget g T G →
      selecting n (r.retargets want mask) (fun ci => (want (r.sliceInfo ci)).getD .none) ci
        ((r.setTargets want mask).sliceInfo ci).sliceTarget g T G := by
    intro ci hci g T G hkept
    rw [setTargets_target]
    cases hre : r.retargets want mask ci with
    | true =>
      obtain ⟨t, ht⟩ := Option.isSome_iff_exists.mp (retargets_isSome hre)
      rw [if_pos rfl]
      refine selecting_noted (fun group heq => ?_) hkept (fun _ => rfl) fun hother => ?_
      · rw [ht] at heq
        exact hbound _ group (ht.trans (congrArg some heq))
      · rw [hre] at hother
        cases hother
    | false =>
      rw [if_neg (by decide), selecting, if_neg (by rw [hre]; decide)]
      exact hkept
  refine (selectEach_inv (M := selecting n (r.retargets want mask) fun ci => (want (r.sliceInfo ci)).getD .none) h hwant
    hmid ?_ ?_ ?_).weaken (fun _ h => h) (fun _ _ h => h) ?_
  · intro ci _ hre t g T T' G hkept
    rw [selecting, if_pos hre] at hkept ⊢
    exact hkept
  · exact fun ci _ hre t g T G hkept => selecting_arrived hre hkept
  · exact fun ci _ hre t g T G hkept => selecting_other hre hkept
  · intro _ s hs hdone
    obtain hlate | ⟨⟨ci, hci, htake⟩, hfailed, _⟩ := hs
    · exact hlate
    · have hsame : (r.writeSelection want mask).takesStructure (r.selected want mask) (r.selectStructs want mask) ci =
          r.takesStructure (r.selected want mask) (r.selectStructs want mask) ci := by
        have hvalue : ((r.writeSelection want mask).sliceInfo ci).structureValue = (r.sliceInfo ci).structureValue :=
          setTargets_structure r want mask ci
        unfold CmdRank.takesStructure
        rw [hvalue]
        rfl
      rw [hsame] at htake
      exact absurd (hdone (hsends ci hci htake)) hfailed

/-! ## Group writes -/

/-- The interfaces of the mask have the groups noted that their selected DPUs are on their way to. -/
def moving (n group : Nat) (mask : Mask) : Kept := fun ci t g T G =>
  if mask.getLsbD ci then
    Agrees n t g T fun dpu => if Decoder.selects ⟨0, T, G⟩ dpu then group else G dpu
  else Agrees n t g T G

theorem moveToGroup_agrees {info : SliceInfo} {T : SliceTarget} {G : Nat → Nat} (hle : n ≤ 8)
    (h : Agrees n info.sliceTarget info.dpusPerGroup T G) {dpus : Mask} (hdpus : info.selectedDpuMask n = some dpus)
    (group : Nat) :
    Agrees n info.sliceTarget (info.moveToGroup group dpus).dpusPerGroup T
      fun dpu => if Decoder.selects ⟨0, T, G⟩ dpu then group else G dpu := by
  refine ⟨h.target, h.bound, fun group' hgroup' dpu hdpu => ?_⟩
  have hselects : Decoder.selects ⟨0, T, G⟩ dpu = dpus.getLsbD dpu := Agrees.selects hle h hdpus hdpu
  have hlt : dpu < 8 := by omega
  have hold := h.groups group' hgroup' dpu hdpu
  simp only [SliceInfo.moveToGroup, hselects, if_pos hgroup']
  by_cases hsame : group' = group
  · rw [if_pos hsame, BitVec.getLsbD_or, BitVec.getLsbD_and, BitVec.getLsbD_not, hold, hsame]
    cases dpus.getLsbD dpu <;> simp [hlt]
  · rw [if_neg hsame, BitVec.getLsbD_and, BitVec.getLsbD_not, hold]
    cases hbit : dpus.getLsbD dpu with
    | true => simp [Ne.symm hsame]
    | false => simp [hlt]

/-- `ufi_write_group`. -/
theorem writeGroup_coherent (hle : c.nrDpus ≤ 8) (h : c.Inv (agrees c.nrDpus) r) {group : Nat}
    (hgroup : group < maxNrGroups)
    (htargets : ∀ ci < c.nrCis, mask.getLsbD ci = true → (r.sliceInfo ci).sliceTarget ≠ .none) :
    Triple (fun s => s = r) (writeGroup mask group) (fun _ s => c.Inv (agrees c.nrDpus) s)
      fun _ s => (r.mustWriteStructure mask oneByteStruct = true → c.answers r.clock = .done) →
        c.Late (agrees c.nrDpus) s := by
  have hcis : r.nrCis = c.nrCis := h.runs.nrCis
  have hsome : ∀ ci < c.nrCis, mask.getLsbD ci = true →
      ∃ dpus, (r.sliceInfo ci).selectedDpuMask c.nrDpus = some dpus := by
    intro ci hci hbit
    have hne := htargets ci hci hbit
    unfold SliceInfo.selectedDpuMask
    cases htarget : (r.sliceInfo ci).sliceTarget with
    | none => exact absurd htarget hne
    | all => exact ⟨_, rfl⟩
    | dpu _ => exact ⟨_, rfl⟩
    | group _ => exact ⟨_, rfl⟩
  have hmid : ∀ ci < c.nrCis, ∀ T G, Agrees c.nrDpus (r.sliceInfo ci).sliceTarget (r.sliceInfo ci).dpusPerGroup T G →
      moving c.nrDpus group mask ci (r.sliceInfo ci).sliceTarget ((moved r mask group []).sliceInfo ci).dpusPerGroup
        T G := by
    intro ci hci T G hkept
    have hvisits : r.visits mask ci = mask.getLsbD ci := by
      rw [CmdRank.visits, decide_eq_true (hcis ▸ hci), Bool.true_and]
    unfold moving moved
    cases hbit : mask.getLsbD ci with
    | true =>
      obtain ⟨dpus, hdpus⟩ := hsome ci hci hbit
      simp only [hvisits, hbit, List.not_mem_nil, Bool.true_eq_false, or_false, if_false, if_true, h.runs.nrDpus, hdpus,
        Option.getD_some]
      exact moveToGroup_agrees hle hkept hdpus group
    | false =>
      simp only [hvisits, hbit, or_true, if_true, Bool.false_eq_true, if_false]
      exact hkept
  have hbyte : group < 256 := Nat.lt_of_lt_of_le hgroup (by decide)
  refine (writeGroup_inv (M := moving c.nrDpus group mask) h hbyte hmid ?_ ?_).weaken (fun _ h => h) (fun _ _ h => h) ?_
  · intro ci _ hbit t g d hkept
    rw [moving, if_pos hbit] at hkept
    exact hkept
  · intro ci _ hbit t g T G hkept
    rw [moving, hbit, if_neg (by decide)] at hkept
    exact hkept
  · intro _ s hs hdone
    obtain hlate | ⟨hmust, hfailed, _⟩ | ⟨ci, rest, hvisit, hnone, _, _⟩ := hs
    · exact hlate
    · have hsame : (moved r mask group []).mustWriteStructure mask oneByteStruct =
          r.mustWriteStructure mask oneByteStruct := by
        have hvalue : ∀ ci,
            ((moved r mask group []).sliceInfo ci).structureValue = (r.sliceInfo ci).structureValue := by
          intro ci
          simp only [moved]
          split
          · rfl
          · rfl
        have hcis' : (moved r mask group []).nrCis = r.nrCis := rfl
        simp only [CmdRank.mustWriteStructure, hcis', hvalue]
      rw [hsame] at hmust
      exact absurd (hdone hmust) hfailed
    · simp only [CmdRank.visits, Bool.and_eq_true, decide_eq_true_eq] at hvisit
      obtain ⟨dpus, hdpus⟩ := hsome ci (hcis ▸ hvisit.1) hvisit.2
      rw [h.runs.nrDpus, hdpus] at hnone
      cases hnone

/-! ## Calls -/

theorem any_retargets {want : SliceInfo → Option SliceTarget} (hcis : r.nrCis = c.nrCis)
    (h : ∃ ci < c.nrCis, r.retargets want mask ci = true) :
    (List.range r.nrCis).any (r.retargets want mask) = true := by
  obtain ⟨ci, hci, hre⟩ := h
  exact List.any_eq_true.mpr ⟨ci, List.mem_range.mpr (hcis ▸ hci), hre⟩

theorem group_bound {group group' : Nat} (h : group < maxNrGroups) (heq : SliceTarget.group group = .group group') :
    group' < maxNrGroups := by
  cases heq
  exact h

/-- A call keeps the agreement, also one that fails after its structure. -/
theorem op_coherent (hle : c.nrDpus ≤ 8) (h : c.Inv (agrees c.nrDpus) r) {op : Op} (hframed : op.Framed)
    (htargets : op.hasTargets r = true) :
    Triple (fun s => s = r) op.program (fun _ s => c.Inv (agrees c.nrDpus) s)
      fun _ s => (op.sendsStructure r = true → c.answers r.clock = .done) → c.Late (agrees c.nrDpus) s := by
  have hcis : r.nrCis = c.nrCis := h.runs.nrCis
  have hplain : op.Plain → Triple (fun s => s = r) op.program (fun _ s => c.Inv (agrees c.nrDpus) s)
      fun _ s => (op.sendsStructure r = true → c.answers r.clock = .done) → c.Late (agrees c.nrDpus) s := by
    intro hplain
    refine (plain_keeps hframed hplain).weaken (fun s hs => ?_) (fun _ _ h => h) fun _ _ h _ => h
    rw [hs]
    exact h
  cases op with
  | selectAll mask =>
    refine selectEach_coherent h allTarget_typed (fun info group heq => ?_) fun ci hci htake => ?_
    · unfold SliceInfo.allTarget at heq
      split at heq
      · cases heq
      · split at heq
        · exact group_bound (by decide : enabledGroup < maxNrGroups) (Option.some.inj heq)
        · split at heq
          · exact group_bound (by decide : enabledGroup < maxNrGroups) (Option.some.inj heq)
          · cases heq
    · exact List.any_eq_true.mpr ⟨ci, List.mem_range.mpr (hcis ▸ hci), htake⟩
  | selectAllEvenDisabled mask =>
    refine selectEach_coherent h allEvenDisabledTarget_typed (fun info group heq => ?_) fun ci hci htake => ?_
    · unfold SliceInfo.allEvenDisabledTarget at heq
      split at heq
      · cases heq
      · cases heq
    · exact List.any_eq_true.mpr ⟨ci, List.mem_range.mpr (hcis ▸ hci), htake⟩
  | selectGroup mask group =>
    refine selectOne_coherent h (group_typed hframed) (fun heq => nomatch heq) (fun _ => group_bound hframed) ?_ ?_
    · intro info t heq
      unfold SliceInfo.groupTarget at heq
      split at heq
      · exact (Option.some.inj heq).symm
      · cases heq
    · exact fun hre hmust => Bool.and_eq_true_iff.mpr ⟨any_retargets hcis hre, hmust⟩
  | selectDpu mask dpu =>
    refine selectOne_coherent h (show (SliceTarget.dpu dpu).Typed from hframed) (fun heq => nomatch heq)
      (fun _ heq => nomatch heq) ?_ ?_
    · intro info t heq
      unfold SliceInfo.dpuTarget at heq
      split at heq
      · exact (Option.some.inj heq).symm
      · cases heq
    · exact fun hre hmust => Bool.and_eq_true_iff.mpr ⟨any_retargets hcis hre, hmust⟩
  | selectDpuEvenDisabled mask dpu =>
    refine selectOne_coherent h (show (SliceTarget.dpu dpu).Typed from hframed) (fun heq => nomatch heq)
      (fun _ heq => nomatch heq) ?_ ?_
    · intro info t heq
      unfold SliceInfo.dpuEvenDisabledTarget at heq
      split at heq
      · exact (Option.some.inj heq).symm
      · cases heq
    · exact fun hre hmust => Bool.and_eq_true_iff.mpr ⟨any_retargets hcis hre, hmust⟩
  | selectAllUncached mask =>
    exact selectUncached_coherent h (show SliceTarget.all.Typed from trivial) (fun heq => nomatch heq)
      (fun _ heq => nomatch heq) fun h => h
  | selectGroupUncached mask group =>
    exact selectUncached_coherent h (group_typed hframed) (fun heq => nomatch heq) (fun _ => group_bound hframed)
      fun h => h
  | selectDpuUncached mask dpu =>
    exact selectUncached_coherent h (show (SliceTarget.dpu dpu).Typed from hframed) (fun heq => nomatch heq)
      (fun _ heq => nomatch heq) fun h => h
  | writeGroup mask group =>
    refine writeGroup_coherent hle h hframed fun ci hci hbit => ?_
    have hci' := List.all_eq_true.mp htargets ci (List.mem_range.mpr (hcis ▸ hci))
    simpa [hbit] using hci'
  | _ => exact hplain trivial

end Exchange

theorem Link.Coherent.call {l : Link} (h : l.Coherent) {op : Op} {answers : Nat → Answer}
    (hop : op.Heeded l.rank answers) :
    (l.call op.program answers).2.Coherent ∧ (l.call op.program answers).2.rank.nrCis = l.rank.nrCis := by
  obtain ⟨hle, hkeeps⟩ := h
  have hstart : (l.started False answers hkeeps.nrCis_le).Inv (agrees l.rank.nrDpus)
      (l.rank.begin fun k => (answers k).outcome) := hkeeps.inv
  have hprogram := Exchange.op_coherent (c := l.started False answers hkeeps.nrCis_le) hle hstart hop.framed hop.targets
  have hends : ∀ s, (l.started False answers hkeeps.nrCis_le).Inv (agrees l.rank.nrDpus) s →
      (l.after answers s).Coherent ∧ (l.after answers s).rank.nrCis = l.rank.nrCis := by
    intro s hs
    have hdpus : s.nrDpus = l.rank.nrDpus := hs.runs.nrDpus
    obtain ⟨hkept, hcis⟩ := hs.keeps
    have hsame : (l.after answers s).rank.nrDpus = l.rank.nrDpus := hdpus
    refine ⟨⟨hsame ▸ hle, ?_⟩, hcis⟩
    rw [hsame]
    exact hkept
  obtain ⟨s, hcall, hs⟩ | ⟨e, s, hcall, hs⟩ := Link.call_ends hprogram
  · rw [hcall]
    exact hends s hs
  · rw [hcall]
    exact hends s (hs hop.structure_done hop.delivered)

/-- The calls of a run, one after the other. -/
def Link.calls (l : Link) : List (Op × (Nat → Answer)) → Link
  | [] => l
  | (op, answers) :: rest => (l.call op.program answers).2.calls rest

/-- Every call of the run is as `Heeded` says where it comes. -/
def Link.Heeds (l : Link) : List (Op × (Nat → Answer)) → Prop
  | [] => True
  | (op, answers) :: rest => op.Heeded l.rank answers ∧ (l.call op.program answers).2.Heeds rest

theorem Link.Coherent.calls : ∀ (calls : List (Op × (Nat → Answer))) {l : Link}, l.Coherent → l.Heeds calls →
    (l.calls calls).Coherent
  | [], _, h, _ => h
  | _ :: rest, _, h, hheeds => Link.Coherent.calls rest (h.call hheeds.1).1 hheeds.2

section Coherent

variable {l : Link} {ci : Nat}

/-- A structure that is left out would have changed nothing. -/
theorem Link.Coherent.skip_structure (h : l.Coherent) (hci : ci < l.rank.nrCis) {struct : Word}
    (hstruct : isStruct struct = true) (hnoted : (l.rank.sliceInfo ci).structureValue = struct) :
    (l.wire.ci ci).decoder.execute struct = (l.wire.ci ci).decoder := by
  have hreg : (l.wire.ci ci).decoder.structReg = struct := by
    obtain hreg | ⟨hfalse, _⟩ := (h.2.cis ci hci).struct
    · exact hreg.symm.trans hnoted
    · exact hfalse.elim
  rw [Decoder.execute_struct hstruct, ← hreg]

/-- A selection that is left out would have changed no target and no group. -/
theorem Link.Coherent.skip_selection (h : l.Coherent) (hci : ci < l.rank.nrCis) {target : SliceTarget}
    (htyped : target.Typed) (hne : target ≠ .none) (hnoted : (l.rank.sliceInfo ci).sliceTarget = target) :
    (((l.wire.ci ci).decoder.execute (selectStruct target)).execute (selectFrame target)).target =
        (l.wire.ci ci).decoder.target ∧
      (((l.wire.ci ci).decoder.execute (selectStruct target)).execute (selectFrame target)).group =
        (l.wire.ci ci).decoder.group := by
  have hkept : Agrees _ _ _ _ _ := (h.2.cis ci hci).kept
  have htarget : (l.wire.ci ci).decoder.target = target := by
    rw [← hnoted] at hne ⊢
    exact hkept.target hne
  rw [Decoder.execute_struct (isStruct_selectStruct hne), execute_selectFrame htyped hne rfl]
  exact ⟨htarget.symm, rfl⟩

/-- A command reaches the DPUs that `ci_fill_selected_dpu_mask` gives. -/
theorem Link.Coherent.reached (h : l.Coherent) (hci : ci < l.rank.nrCis) {dpus : Mask}
    (hdpus : (l.rank.sliceInfo ci).selectedDpuMask l.rank.nrDpus = some dpus) {dpu : Nat} (hdpu : dpu < l.rank.nrDpus) :
    (l.wire.ci ci).decoder.selects dpu = dpus.getLsbD dpu :=
  Agrees.selects h.1 (h.2.cis ci hci).kept hdpus hdpu

end Coherent

/-- The copies agree after every run of calls that keep to `Heeded`, and what is decided with them is right. -/
theorem calls_coherent {l : Link} (h : l.Coherent) (calls : List (Op × (Nat → Answer))) (hheeds : l.Heeds calls) :
    (l.calls calls).Coherent ∧ ∀ ci < (l.calls calls).rank.nrCis,
      (∀ struct, isStruct struct = true → ((l.calls calls).rank.sliceInfo ci).structureValue = struct →
        ((l.calls calls).wire.ci ci).decoder.execute struct = ((l.calls calls).wire.ci ci).decoder) ∧
      (∀ target : SliceTarget, target.Typed → target ≠ .none →
        ((l.calls calls).rank.sliceInfo ci).sliceTarget = target →
        ((((l.calls calls).wire.ci ci).decoder.execute (selectStruct target)).execute (selectFrame target)).target =
            ((l.calls calls).wire.ci ci).decoder.target ∧
          ((((l.calls calls).wire.ci ci).decoder.execute (selectStruct target)).execute (selectFrame target)).group =
            ((l.calls calls).wire.ci ci).decoder.group) ∧
      ∀ dpus, ((l.calls calls).rank.sliceInfo ci).selectedDpuMask (l.calls calls).rank.nrDpus = some dpus →
        ∀ dpu < (l.calls calls).rank.nrDpus, ((l.calls calls).wire.ci ci).decoder.selects dpu = dpus.getLsbD dpu := by
  have hafter := Link.Coherent.calls calls h hheeds
  refine ⟨hafter, fun ci hci => ⟨?_, ?_, ?_⟩⟩
  · exact fun struct hstruct hnoted => hafter.skip_structure hci hstruct hnoted
  · exact fun target htyped hne hnoted => hafter.skip_selection hci htyped hne hnoted
  · exact fun dpus hdpus dpu hdpu => hafter.reached hci hdpus hdpu

/-- One interface with two DPUs, as a reset leaves it. -/
def resetPair : Link where
  rank :=
    { nrCis := 1
      nrDpus := 2
      sliceInfo := fun _ => ⟨ciEmpty, .none, 0, fun g => if g = 0 then 3 else 0, 3, true⟩
      cmds := fun _ => ⟨ciEmpty, false⟩
      commits := []
      outcome := fun _ => .done
      clock := 0 }
  wire := ⟨0, fun _ => ⟨⟨ciEmpty, .none, fun _ => 0⟩, false, none⟩⟩

theorem resetPair_coherent : resetPair.Coherent := by
  have hagrees : Agrees 2 .none (fun g => if g = 0 then 3 else 0) .none fun _ => 0 :=
    ⟨fun hne => absurd rfl hne, (fun _ heq => nomatch heq), by decide⟩
  refine ⟨by decide, by decide, by decide, fun ci _ => ?_⟩
  have hstays : (resetPair.wire.ci ci).decoder.execute (resetPair.rank.cmds ci).word =
      (resetPair.wire.ci ci).decoder := Decoder.execute_empty
  refine ⟨.inl rfl, hagrees, ?_, ?_, (by decide : isNop ciEmpty = false)⟩
  · rw [hstays]
  · rw [hstays]
    exact hagrees

/-- The second DPU is put into a group and selected by it; the frame after the selection fails. -/
def groupCalls : List (Op × (Nat → Answer)) :=
  [(.selectDpu 1 1, fun _ => .done), (.writeGroup 1 3, fun _ => .done), (.selectAll 1, fun _ => .done),
    (.selectGroup 1 3, fun k => if k = 0 then .done else .failed .timeout fun _ => true)]

theorem groupCalls_coherent : resetPair.Heeds groupCalls ∧ (resetPair.calls groupCalls).Coherent := by
  have hheeds : resetPair.Heeds groupCalls := by
    refine ⟨⟨(by decide : 1 < 256), fun _ _ => rfl, fun _ => rfl, rfl⟩,
      ⟨(by decide : 3 < maxNrGroups), fun _ _ => rfl, fun _ => rfl, by decide⟩,
      ⟨trivial, fun _ _ => rfl, fun _ => rfl, rfl⟩,
      ⟨(by decide : 3 < maxNrGroups), fun k _ => ?_, fun _ => rfl, rfl⟩, trivial⟩
    show Answer.reaches (if k = 0 then Answer.done else .failed .timeout fun _ => true) _ = true
    split
    · rfl
    · rfl
  exact ⟨hheeds, (calls_coherent resetPair_coherent groupCalls hheeds).1⟩

/-- A selection whose structure is not answered in time leaves a target noted whose frame was never sent. -/
theorem failed_selection_not_coherent :
    ¬(resetPair.calls [(.selectDpu 1 1, fun _ => .failed .timeout fun _ => true)]).Coherent := by
  intro h
  have hkept : Agrees _ _ _ _ _ := (h.2.cis 0 (by decide)).kept
  have htarget := hkept.target (by decide)
  exact absurd htarget (by decide)

end DpuBackend.Ufi
