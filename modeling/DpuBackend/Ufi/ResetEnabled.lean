import DpuBackend.Ufi.ResetRank

/-
  Which DPUs are enabled after a reset.

  All DPUs of a rank are enabled while it is reset, the repairs disable some of
  them again, and only the last but one step restores what was enabled before,
  less what cannot be repaired. `ResetStep.working` is the set at each step, and
  `takes_ciResetRank` describes every run by the first step that fails. So a
  reset that fails leaves the set of that step, and one that does not takes care
  of the groups only on the interfaces that keep a DPU: `keepsEnabled_iff` says
  when that is right.
-/

namespace DpuBackend.Ufi

open DpuBackend.Lib DpuBackend.Vpd

/-- A set of DPUs, by control interface. -/
abbrev DpuSet := Nat → Nat → Bool

def ResetRank.enabledSet (r : ResetRank) : DpuSet := fun ci dpu => (r.enabledDpus ci).getLsbD dpu

variable (c : ResetConfig) (o : ResetOutcomes)

/-! ## What a reset keeps -/

def ResetConfig.iramFails (ci dpu : Nat) : Bool :=
  c.doIramRepair && (extractMemoryRepairConfiguration (c.repair ci dpu).iramRepair).isNone

def ResetConfig.wramFails (ci dpu bank : Nat) : Bool :=
  c.doWramRepair && ((c.repair ci dpu).wramRepair[bank]?.bind extractMemoryRepairConfiguration).isNone

/-- The IRAM of the DPU or one of its WRAM banks cannot be repaired, and should be. -/
def ResetConfig.unrepairable (ci dpu : Nat) : Bool :=
  c.iramFails ci dpu || (List.range nrOfWramBanks).any (c.wramFails ci dpu)

/-- The records of the enabled DPUs agree with each other. -/
structure ResetRank.Agree (r : ResetRank) : Prop where
  dpuEnabled : ∀ ci < c.nrCis, ∀ dpu < c.nrDpus, r.dpuEnabled ci dpu = r.enabledSet ci dpu
  allDpusAreEnabled : ∀ ci < c.nrCis,
    (r.allDpusAreEnabled ci = true ↔ ∀ dpu < c.nrDpus, r.enabledSet ci dpu = true)
  nrDpusEnabled : r.nrDpusEnabled =
    ((List.range c.nrCis).map fun ci : Nat => (List.range c.nrDpus).countP (r.enabledSet ci)).sum

/-- What is to hold after a reset that succeeds. -/
structure ResetDone (r r' : ResetRank) : Prop where
  enabled : ∀ ci < c.nrCis, ∀ dpu < c.nrDpus,
    r'.enabledSet ci dpu = (r.enabledSet ci dpu && !c.unrepairable ci dpu)
  nonempty : ∃ ci < c.nrCis, ∃ dpu < c.nrDpus, r'.enabledSet ci dpu = true
  agree : r'.Agree c
  group : ∀ ci < c.nrCis, ∀ dpu < c.nrDpus, (r'.group ci dpu = enabledGroup ↔ r'.enabledSet ci dpu = true)

/-- `r'` has no DPU enabled that `r` has not. -/
def ResetRank.Within (r' r : ResetRank) : Prop :=
  ∀ ci < c.nrCis, ∀ dpu < c.nrDpus, r'.enabledSet ci dpu = true → r.enabledSet ci dpu = true

def KeepsEnabled (r : ResetRank) : Prop :=
  match (ciResetRank c o).run r with
  | .error _ r' => r'.Within c r
  | .ok _ r' => r'.Within c r ∧ ResetDone c r r'

/-! ## The steps and the set at each of them -/

/-- All DPUs of the interfaces that have one in the set. -/
def refill (set : DpuSet) : DpuSet := fun ci dpu => (List.range 8).any (set ci) && decide (dpu < c.nrDpus)

/-- The DPUs before `n` whose IRAM cannot be repaired. -/
def ResetConfig.iramLost (n : Nat) : DpuSet := fun ci dpu => decide (dpu < n) && c.iramFails ci dpu

/-- The DPUs before `n` with a WRAM bank that cannot be repaired, and `n` itself for the banks before `bank`. -/
def ResetConfig.wramLost (n bank : Nat) : DpuSet := fun ci dpu =>
  (decide (dpu < n) && (List.range nrOfWramBanks).any (c.wramFails ci dpu))
    || (decide (dpu = n) && (List.range bank).any (c.wramFails ci dpu))

section

variable (r : ResetRank)

def duringIram (n : Nat) : DpuSet := fun ci dpu => refill c r.enabledSet ci dpu && !c.iramLost n ci dpu

def duringWram (n bank : Nat) : DpuSet := fun ci dpu =>
  refill c (duringIram c r c.nrDpus) ci dpu && !c.wramLost n bank ci dpu

/-- What is enabled when the groups are set up. -/
def afterRepairs : DpuSet := refill c (duringWram c r c.nrDpus 0)

/-- What was enabled and can be repaired. -/
def kept : DpuSet := fun ci dpu => r.enabledSet ci dpu && decide (dpu < c.nrDpus) && !c.unrepairable ci dpu

/-- `all_dpus_are_enabled` after the reset. -/
def recordedAll (ci : Nat) : Bool := r.allDpusAreEnabled ci && !(List.range c.nrDpus).any (c.unrepairable ci)

/-- The set at a step. -/
def ResetStep.working : ResetStep → DpuSet
  | .byteOrder | .softReset _ | .bitConfig | .ciShufflingBoxConfig _ | .identity | .thermalConfig | .carouselConfig
  | .iramSelectAll | .iramConfigAll => refill c r.enabledSet
  | .iramSelect dpu | .iramConfig dpu => duringIram c r (dpu + 1)
  | .iramCheck => duringIram c r c.nrDpus
  | .wramSelect dpu bank | .wramConfig dpu bank => duringWram c r dpu (bank + 1)
  | .wramCheck => duringWram c r c.nrDpus 0
  | .wramSelectAll | .wramConfigAll _ => refill c (duringIram c r c.nrDpus)
  | .dmaConfig | .dmaShufflingBoxConfig | .wavegenConfig | .clearDebug | .clearRunBits | .setPcMode
  | .setStackDirection | .resetInternalState | .switchMux | .groupSelect _ _ | .groupWrite _ _
  | .groupSelectAll | .groupWriteAll => afterRepairs c r
  | .setSliceInfo => kept c r

/-- A DPU is left on some interface. -/
def ResetConfig.leaves (set : DpuSet) : Bool := (List.range c.nrCis).any fun ci => (List.range 8).any (set ci)

/-- A step fails if its command does, and a check if no DPU is left. -/
def ResetStep.fails : ResetStep → Bool
  | .iramCheck => !c.leaves (duringIram c r c.nrDpus)
  | .wramCheck => !c.leaves (duringWram c r c.nrDpus 0)
  | step => (o.error step).isSome

def iramSteps : List ResetStep :=
  if c.doIramRepair then
    ((List.range c.nrDpus).flatMap fun dpu => [.iramSelect dpu, .iramConfig dpu]) ++ [.iramCheck]
  else [.iramSelectAll, .iramConfigAll]

def wramSteps : List ResetStep :=
  if c.doWramRepair then
    ((List.range c.nrDpus).flatMap fun dpu =>
      (List.range nrOfWramBanks).flatMap fun bank => [.wramSelect dpu bank, .wramConfig dpu bank]) ++ [.wramCheck]
  else .wramSelectAll :: (List.range nrOfWramBanks).flatMap fun bank => [.wramConfigAll bank]

def groupSteps : List ResetStep :=
  ((List.range c.nrCis).flatMap fun ci =>
    if recordedAll c r ci then []
    else if (List.range 8).any (kept c r ci) then
      (List.range c.nrDpus).flatMap fun dpu => [.groupSelect ci dpu, .groupWrite ci dpu]
    else []) ++
  if (List.range c.nrCis).any (recordedAll c r) then [.groupSelectAll, .groupWriteAll] else []

/-- The steps of a reset none of which fails; those whose status is dropped are not among them. -/
def resetSteps : List ResetStep :=
  [.byteOrder, .bitConfig, .ciShufflingBoxConfig false, .ciShufflingBoxConfig true, .identity, .carouselConfig] ++
  (iramSteps c ++ (wramSteps c ++
  ([.dmaConfig, .dmaShufflingBoxConfig, .wavegenConfig, .clearDebug, .clearRunBits, .setPcMode, .setStackDirection,
    .resetInternalState, .switchMux] ++ (groupSteps c r ++ [.setSliceInfo]))))

/-- The group of a DPU after the soft resets. -/
def resetGroup (ci dpu : Nat) : Nat :=
  let resets second := decide (o.error (.softReset second) = none) || o.resets second ci
  if (List.range 8).any (r.enabledSet ci) && (resets false || resets true) then enabledGroup else r.group ci dpu

/-- The step at which a reset fails has no DPU enabled that was not before; and if none fails, a DPU is left, the
record of the interfaces with all DPUs was right, and the interfaces that are left without one are not in the
first group. -/
def ResetHarmless : Prop :=
  match (resetSteps c r).find? (ResetStep.fails c o r) with
  | some step => ∀ ci < c.nrCis, ∀ dpu < c.nrDpus, step.working c r ci dpu = true → r.enabledSet ci dpu = true
  | none =>
    (∃ ci < c.nrCis, ∃ dpu < c.nrDpus, kept c r ci dpu = true) ∧
    ∀ ci < c.nrCis, (recordedAll c r ci = true ↔ ∀ dpu < c.nrDpus, kept c r ci dpu = true) ∧
      ((∀ dpu < c.nrDpus, kept c r ci dpu = false) →
        ∀ dpu < c.nrDpus, resetGroup o r ci dpu ≠ enabledGroup)

end

/-! ## The parts of a reset -/

theorem mask_ne_zero (m : Mask) : decide (m ≠ 0) = (List.range 8).any fun i => m.getLsbD i := by
  rw [Bool.eq_iff_iff, decide_eq_true_iff, List.any_eq_true]
  constructor
  · intro hm
    by_contra hnone
    apply hm
    apply mask_ext
    intro i hi
    change m.getLsbD i = (0#8).getLsbD i
    rw [BitVec.getLsbD_zero, Bool.eq_false_iff]
    exact fun hbit => hnone ⟨i, List.mem_range.2 hi, hbit⟩
  · intro h hm
    obtain ⟨i, -, hbit⟩ := h
    rw [hm] at hbit
    change (0#8).getLsbD i = true at hbit
    rw [BitVec.getLsbD_zero] at hbit
    cases hbit

theorem any_range_congr {n : Nat} {p q : Nat → Bool} (h : ∀ i < n, p i = q i) :
    (List.range n).any p = (List.range n).any q := by
  rw [Bool.eq_iff_iff, List.any_eq_true, List.any_eq_true]
  apply exists_congr
  intro i
  apply and_congr_right
  intro hi
  rw [h i (List.mem_range.1 hi)]

/-- What a state shows of the DPUs of the rank. -/
structure ResetRank.Shows (s : ResetRank) (set : DpuSet) (all : Nat → Bool) (group : Nat → Nat → Nat) : Prop where
  enabled : ∀ ci < c.nrCis, ∀ i, (s.enabledDpus ci).getLsbD i = set ci i
  all : ∀ ci < c.nrCis, s.allDpusAreEnabled ci = all ci
  group : ∀ ci < c.nrCis, ∀ dpu < c.nrDpus, s.group ci dpu = group ci dpu

structure SavedDpus.Shows (save : SavedDpus) (set : DpuSet) (all : Nat → Bool) : Prop where
  enabled : ∀ ci < c.nrCis, ∀ i, (save.enabledDpus ci).getLsbD i = set ci i
  all : ∀ ci < c.nrCis, save.allDpusAreEnabled ci = all ci

section

variable {c o} {s : ResetRank} {set : DpuSet} {all : Nat → Bool} {group : Nat → Nat → Nat}

theorem ResetRank.Shows.ne_zero (h : s.Shows c set all group) {ci : Nat} (hci : ci < c.nrCis) :
    decide (s.enabledDpus ci ≠ 0) = (List.range 8).any (set ci) := by
  rw [mask_ne_zero]
  congr 1
  funext i
  exact h.enabled ci hci i

theorem ResetRank.Shows.congr {set' : DpuSet} {all' : Nat → Bool} {group' : Nat → Nat → Nat}
    (h : s.Shows c set all group) (hset : ∀ ci < c.nrCis, ∀ i, set ci i = set' ci i)
    (hall : ∀ ci < c.nrCis, all ci = all' ci)
    (hgroup : ∀ ci < c.nrCis, ∀ dpu < c.nrDpus, group ci dpu = group' ci dpu) : s.Shows c set' all' group' where
  enabled ci hci i := by rw [h.enabled ci hci i, hset ci hci i]
  all ci hci := by rw [h.all ci hci, hall ci hci]
  group ci hci dpu hdpu := by rw [h.group ci hci dpu hdpu, hgroup ci hci dpu hdpu]

theorem ResetRank.Shows.enableAll (h : s.Shows c set all group) :
    (s.enableAll c).Shows c (refill c set) (fun ci => (List.range 8).any (set ci) || all ci) group where
  enabled ci hci i := by
    have hle := c.nrDpus_le
    simp only [ResetRank.enableAll, decide_eq_true hci, Bool.true_and, h.ne_zero hci]
    unfold refill
    cases hany : (List.range 8).any (set ci) with
    | true =>
      rw [if_pos rfl, dpuMaskAll_bit, Bool.true_and]
      apply decide_eq_decide.2
      omega
    | false =>
      rw [if_neg Bool.false_ne_true, h.enabled ci hci, Bool.false_and, Bool.eq_false_iff]
      intro hbit
      have hlt : i < 8 := BitVec.lt_of_getLsbD ((h.enabled ci hci i).trans hbit)
      exact Bool.false_ne_true (hany.symm.trans (List.any_eq_true.2 ⟨i, List.mem_range.2 hlt, hbit⟩))
  all ci hci := by
    simp only [ResetRank.enableAll, decide_eq_true hci, Bool.true_and, h.ne_zero hci]
    cases (List.range 8).any (set ci) with
    | true => rfl
    | false => exact h.all ci hci
  group := h.group

/-- The interfaces lose a DPU: `lost` collects what the loop has taken so far. -/
theorem ResetRank.Shows.disable {lost lost' : DpuSet} {dpu : Nat} {cannot : Nat → Bool} (hdpu : dpu < c.nrDpus)
    (h : s.Shows c (fun ci i => set ci i && !lost ci i)
      (fun ci => all ci && !(List.range c.nrDpus).any (lost ci)) group)
    (hlost : ∀ ci < c.nrCis, ∀ i, lost' ci i = (lost ci i || (decide (i = dpu) && cannot ci))) :
    (s.disable c dpu cannot).Shows c (fun ci i => set ci i && !lost' ci i)
      (fun ci => all ci && !(List.range c.nrDpus).any (lost' ci)) group where
  enabled ci hci i := by
    simp only [ResetRank.disable, decide_eq_true hci, Bool.true_and, hlost ci hci i]
    cases hcannot : cannot ci with
    | true =>
      rw [if_pos rfl, dpuMaskUnselect_bit, h.enabled ci hci, Bool.and_true, Bool.not_or, Bool.and_assoc]
    | false => rw [if_neg Bool.false_ne_true, h.enabled ci hci, Bool.and_false, Bool.or_false]
  all ci hci := by
    have hany : (List.range c.nrDpus).any (lost' ci) = ((List.range c.nrDpus).any (lost ci) || cannot ci) := by
      rw [Bool.eq_iff_iff, Bool.or_eq_true, List.any_eq_true, List.any_eq_true]
      constructor
      · intro hex
        obtain ⟨i, hi, hl⟩ := hex
        rw [hlost ci hci i, Bool.or_eq_true, Bool.and_eq_true] at hl
        exact hl.imp (fun hl => ⟨i, hi, hl⟩) And.right
      · intro hex
        rcases hex with ⟨i, hi, hl⟩ | hcannot
        · exact ⟨i, hi, by rw [hlost ci hci i, hl, Bool.true_or]⟩
        · refine ⟨dpu, List.mem_range.2 hdpu, ?_⟩
          rw [hlost ci hci dpu, hcannot, decide_eq_true rfl]
          exact Bool.or_true _
    simp only [ResetRank.disable, decide_eq_true hci, Bool.true_and, hany]
    cases hcannot : cannot ci with
    | true => rw [if_pos rfl, Bool.or_true, Bool.not_true, Bool.and_false]
    | false => rw [if_neg Bool.false_ne_true, h.all ci hci, Bool.or_false]
  group := h.group

/-- The state at a step that fails. -/
def AtStep (c : ResetConfig) (r : ResetRank) (step : ResetStep) (s : ResetRank) : Prop :=
  ∀ ci < c.nrCis, ∀ i, s.enabledSet ci i = step.working c r ci i

variable {r : ResetRank}

theorem takes_command {P : ResetRank → Prop} (step : ResetStep) (hstep : step.fails c o r = (o.error step).isSome)
    (hat : ∀ s, P s → AtStep c r step s) :
    Takes (ResetStep.fails c o r) [step] P (command o step) (fun _ => P) (AtStep c r) := by
  apply takes_step
  · intro hok s hs
    rw [hstep, Option.isSome_eq_false_iff, Option.isNone_iff_eq_none] at hok
    exact ⟨⟨⟩, by rw [command, hok]; rfl, hs⟩
  · intro herror s hs
    obtain ⟨e, he⟩ := Option.isSome_iff_exists.1 (hstep.symm.trans herror)
    exact ⟨e, by rw [command, he]; rfl, hat s hs⟩

/-- A command that finds the set of its step. -/
theorem takes_command_shows (step : ResetStep) (hstep : step.fails c o r = (o.error step).isSome)
    (hset : step.working c r = set) :
    Takes (ResetStep.fails c o r) [step] (·.Shows c set all group) (command o step) (fun _ s => s.Shows c set all group)
      (AtStep c r) :=
  takes_command step hstep fun s hs ci hci i => by rw [hset]; exact hs.enabled ci hci i

/-- One round of a repair loop. -/
theorem takes_repair {lost lost' : DpuSet} {dpu : Nat} {cannot : Nat → Bool} {select config : ResetStep}
    (hdpu : dpu < c.nrDpus)
    (hlost : ∀ ci < c.nrCis, ∀ i, lost' ci i = (lost ci i || (decide (i = dpu) && cannot ci)))
    (hselect : select.fails c o r = (o.error select).isSome) (hconfig : config.fails c o r = (o.error config).isSome)
    (hselectAt : select.working c r = fun ci i => set ci i && !lost' ci i)
    (hconfigAt : config.working c r = fun ci i => set ci i && !lost' ci i) :
    Takes (ResetStep.fails c o r) [select, config]
      (·.Shows c (fun ci i => set ci i && !lost ci i) (fun ci => all ci && !(List.range c.nrDpus).any (lost ci)) group)
      (do
        modify fun r => r.disable c dpu cannot
        command o select
        command o config)
      (fun _ s => s.Shows c (fun ci i => set ci i && !lost' ci i)
        (fun ci => all ci && !(List.range c.nrDpus).any (lost' ci)) group)
      (AtStep c r) := by
  apply takes_bind (l := []) (R := fun _ s => s.Shows c (fun ci i => set ci i && !lost' ci i)
    (fun ci => all ci && !(List.range c.nrDpus).any (lost' ci)) group)
  · exact takes_modify fun s hs => hs.disable hdpu hlost
  intro _
  apply takes_bind (takes_command_shows select hselect hselectAt)
  intro _
  exact takes_command_shows config hconfig hconfigAt

theorem takes_check {step : ResetStep} (hstep : step.fails c o r = !c.leaves set) (hset : step.working c r = set) :
    Takes (ResetStep.fails c o r) [step] (·.Shows c set all group) (checkSomeEnabled c)
      (fun _ s => s.Shows c set all group) (AtStep c r) := by
  have hleaves : ∀ s : ResetRank, s.Shows c set all group →
      ((List.range c.nrCis).any fun ci => decide (s.enabledDpus ci ≠ 0)) = c.leaves set := by
    intro s hs
    apply any_range_congr
    intro ci hci
    exact hs.ne_zero hci
  apply takes_step
  · intro hok s hs
    rw [hstep, Bool.not_eq_false'] at hok
    refine ⟨⟨⟩, ?_, hs⟩
    change (if (List.range c.nrCis).any fun ci => decide (s.enabledDpus ci ≠ 0) then pure ⟨⟩
      else throw .corruptedMemory : ResetM PUnit).run s = _
    rw [if_pos ((hleaves s hs).trans hok)]
    rfl
  · intro herror s hs
    rw [hstep, Bool.not_eq_true'] at herror
    refine ⟨.corruptedMemory, ?_, fun ci hci i => by rw [hset]; exact hs.enabled ci hci i⟩
    change (if (List.range c.nrCis).any fun ci => decide (s.enabledDpus ci ≠ 0) then pure ⟨⟩
      else throw .corruptedMemory : ResetM PUnit).run s = _
    rw [if_neg (by rw [hleaves s hs, herror]; exact Bool.false_ne_true)]
    rfl

/-! ## The repairs -/

theorem iramLost_succ (ci dpu i : Nat) :
    c.iramLost (dpu + 1) ci i = (c.iramLost dpu ci i || (decide (i = dpu) && c.iramFails ci dpu)) := by
  unfold ResetConfig.iramLost
  by_cases hi : i = dpu
  · simp [hi]
  · have hlt : i < dpu + 1 ↔ i < dpu := by omega
    simp [hi, hlt]

theorem wramLost_succ (ci dpu bank i : Nat) :
    c.wramLost dpu (bank + 1) ci i = (c.wramLost dpu bank ci i || (decide (i = dpu) && c.wramFails ci dpu bank)) := by
  unfold ResetConfig.wramLost
  rw [List.range_succ, List.any_append]
  by_cases hi : i = dpu <;> simp [hi]

theorem wramLost_last (ci dpu i : Nat) : c.wramLost dpu nrOfWramBanks ci i = c.wramLost (dpu + 1) 0 ci i := by
  unfold ResetConfig.wramLost
  by_cases hi : i = dpu
  · simp [hi]
  · have hlt : i < dpu + 1 ↔ i < dpu := by omega
    simp [hi, hlt]

theorem wramLost_zero (ci i : Nat) : c.wramLost 0 0 ci i = false := by simp [ResetConfig.wramLost]

theorem takes_iram (hset : set = refill c r.enabledSet) :
    Takes (ResetStep.fails c o r) (iramSteps c) (·.Shows c set all group) (dpuIramRepairConfig c o)
      (fun _ s => s.Shows c (duringIram c r c.nrDpus)
        (fun ci => all ci && !(List.range c.nrDpus).any (c.iramLost c.nrDpus ci)) group)
      (AtStep c r) := by
  subst hset
  unfold dpuIramRepairConfig iramSteps
  apply takes_ite
  · intro hrepair
    apply takes_bind (R := fun _ s => s.Shows c (duringIram c r c.nrDpus)
      (fun ci => all ci && !(List.range c.nrDpus).any (c.iramLost c.nrDpus ci)) group)
    · apply Takes.pre
        (takes_forM_range (I := fun dpu (s : ResetRank) => s.Shows c (duringIram c r dpu)
          (fun ci => all ci && !(List.range c.nrDpus).any (c.iramLost dpu ci)) group) ?_)
      · intro s hs
        exact hs.congr (fun ci _ i => by simp [duringIram, ResetConfig.iramLost])
          (fun ci _ => by simp [ResetConfig.iramLost]) fun _ _ _ _ => rfl
      · intro dpu hdpu
        refine takes_repair hdpu (fun ci _ i => ?_) rfl rfl rfl rfl
        rw [iramLost_succ, ResetConfig.iramFails, hrepair, Bool.true_and]
    · exact fun _ => takes_check rfl rfl
  · intro hrepair
    have hnone : ∀ ci i, c.iramLost c.nrDpus ci i = false := by
      intro ci i
      simp [ResetConfig.iramLost, ResetConfig.iramFails, hrepair]
    apply Takes.post (Q := fun _ s => s.Shows c (refill c r.enabledSet) all group)
    · apply takes_bind (takes_command_shows .iramSelectAll rfl rfl)
      exact fun _ => takes_command_shows .iramConfigAll rfl rfl
    · intro _ s hs
      exact hs.congr (fun ci _ i => by simp [duringIram, hnone]) (fun ci _ => by simp [hnone]) fun _ _ _ _ => rfl

theorem takes_wram (hset : set = refill c (duringIram c r c.nrDpus)) :
    Takes (ResetStep.fails c o r) (wramSteps c) (·.Shows c set all group) (dpuWramRepairConfig c o)
      (fun _ s => s.Shows c (duringWram c r c.nrDpus 0)
        (fun ci => all ci && !(List.range c.nrDpus).any (c.wramLost c.nrDpus 0 ci)) group)
      (AtStep c r) := by
  subst hset
  unfold dpuWramRepairConfig wramSteps
  apply takes_ite
  · intro hrepair
    apply takes_bind (R := fun _ s => s.Shows c (duringWram c r c.nrDpus 0)
      (fun ci => all ci && !(List.range c.nrDpus).any (c.wramLost c.nrDpus 0 ci)) group)
    · apply Takes.pre
        (takes_forM_range (I := fun dpu (s : ResetRank) => s.Shows c (duringWram c r dpu 0)
          (fun ci => all ci && !(List.range c.nrDpus).any (c.wramLost dpu 0 ci)) group) ?_)
      · intro s hs
        exact hs.congr (fun ci _ i => by simp [duringWram, wramLost_zero]) (fun ci _ => by simp [wramLost_zero])
          fun _ _ _ _ => rfl
      · intro dpu hdpu
        apply Takes.post
          (takes_forM_range (I := fun bank (s : ResetRank) => s.Shows c (duringWram c r dpu bank)
            (fun ci => all ci && !(List.range c.nrDpus).any (c.wramLost dpu bank ci)) group) ?_)
        · intro _ s hs
          refine hs.congr (fun ci _ i => ?_) (fun ci _ => ?_) fun _ _ _ _ => rfl
          · rw [duringWram, duringWram, wramLost_last]
          · congr 3
            funext i
            exact wramLost_last ..
        · intro bank hbank
          refine takes_repair hdpu (fun ci _ i => ?_) rfl rfl rfl rfl
          rw [wramLost_succ, ResetConfig.wramFails, hrepair, Bool.true_and]
    · exact fun _ => takes_check rfl rfl
  · intro hrepair
    have hnone : ∀ ci i, c.wramLost c.nrDpus 0 ci i = false := by
      intro ci i
      simp [ResetConfig.wramLost, ResetConfig.wramFails, hrepair]
    apply Takes.post (Q := fun _ s => s.Shows c (refill c (duringIram c r c.nrDpus)) all group)
    · apply takes_bind (l := [.wramSelectAll]) (takes_command_shows _ rfl rfl)
      intro _
      exact takes_forM_range (I := fun _ (s : ResetRank) => s.Shows c (refill c (duringIram c r c.nrDpus)) all group)
        fun bank _ => takes_command_shows (.wramConfigAll bank) rfl rfl
    · intro _ s hs
      exact hs.congr (fun ci _ i => by simp [duringWram, hnone]) (fun ci _ => by simp [hnone]) fun _ _ _ _ => rfl

/-! ## The saved sets -/

theorem takes_save (save : Option SavedDpus) {P : ResetRank → Prop} (hP : ∀ s, P s → s.Shows c set all group)
    {set' : DpuSet} {all' : Nat → Bool}
    (hsave : match save with
      | none => set' = set ∧ all' = all
      | some save => save.Shows c set' all') :
    Takes (ResetStep.fails c o r) [] P (saveEnabledDpus c save)
      (fun save s => save.Shows c (fun ci i => set' ci i && set ci i) (fun ci => all' ci && all ci) ∧
        s.Shows c (refill c set) (fun ci => (List.range 8).any (set ci) || all ci) group)
      (AtStep c r) := by
  intro s hs
  have hshows := hP s hs
  cases save with
  | none =>
    obtain ⟨rfl, rfl⟩ := hsave
    refine ⟨rfl, ⟨fun ci hci i => ?_, fun ci hci => ?_⟩, hshows.enableAll⟩
    · rw [Bool.and_self]
      exact hshows.enabled ci hci i
    · rw [Bool.and_self]
      exact hshows.all ci hci
  | some save =>
    refine ⟨rfl, ⟨fun ci hci i => ?_, fun ci hci => ?_⟩, hshows.enableAll⟩
    · change (save.enabledDpus ci &&& s.enabledDpus ci).getLsbD i = _
      rw [BitVec.getLsbD_and, hsave.enabled ci hci, hshows.enabled ci hci]
    · change (save.allDpusAreEnabled ci && s.allDpusAreEnabled ci) = _
      rw [hsave.all ci hci, hshows.all ci hci]

theorem refill_any (set : DpuSet) (ci : Nat) : (List.range 8).any (refill c set ci) = (List.range 8).any (set ci) := by
  unfold refill
  cases hany : (List.range 8).any (set ci) with
  | true =>
    apply List.any_eq_true.2
    have hpos := c.nrDpus_pos
    exact ⟨0, by decide, by simpa using hpos⟩
  | false => simp

/-- The saved set after both repairs. -/
theorem kept_eq (ci i : Nat) :
    ((r.enabledSet ci i && duringIram c r c.nrDpus ci i) && duringWram c r c.nrDpus 0 ci i) = kept c r ci i := by
  rw [Bool.eq_iff_iff]
  unfold kept duringWram
  constructor
  · intro h
    simp only [duringIram, refill, ResetConfig.iramLost, ResetConfig.wramLost, Bool.and_eq_true, decide_eq_true_eq,
      Bool.not_eq_true', Bool.and_eq_false_imp, Bool.or_eq_false_iff] at h
    obtain ⟨⟨hprev, ⟨-, hlt⟩, hiram⟩, -, hwram⟩ := h
    simp [hprev, hlt, ResetConfig.unrepairable, hiram hlt, hwram.1 hlt]
  · intro h
    simp only [ResetConfig.unrepairable, Bool.and_eq_true, decide_eq_true_eq, Bool.not_eq_true',
      Bool.or_eq_false_iff] at h
    obtain ⟨⟨hprev, hlt⟩, hiram, hwram⟩ := h
    have hmem : i ∈ List.range 8 := List.mem_range.2 (BitVec.lt_of_getLsbD hprev)
    have hduring : duringIram c r c.nrDpus ci i = true := by
      simp only [duringIram, refill, ResetConfig.iramLost, hiram, Bool.and_false, Bool.not_false, Bool.and_true,
        Bool.and_eq_true, decide_eq_true_eq]
      exact ⟨List.any_eq_true.2 ⟨i, hmem, hprev⟩, hlt⟩
    have hrefill : refill c (duringIram c r c.nrDpus) ci i = true := by
      simp only [refill, Bool.and_eq_true, decide_eq_true_eq]
      exact ⟨List.any_eq_true.2 ⟨i, hmem, hduring⟩, hlt⟩
    rw [hprev, hduring, hrefill]
    simp [ResetConfig.wramLost, hwram]

theorem recordedAll_eq (ci : Nat) :
    ((r.allDpusAreEnabled ci &&
        (((List.range 8).any (r.enabledSet ci) || r.allDpusAreEnabled ci)
          && !(List.range c.nrDpus).any (c.iramLost c.nrDpus ci))) &&
      (((List.range 8).any (duringIram c r c.nrDpus ci) ||
          (((List.range 8).any (r.enabledSet ci) || r.allDpusAreEnabled ci)
            && !(List.range c.nrDpus).any (c.iramLost c.nrDpus ci)))
        && !(List.range c.nrDpus).any (c.wramLost c.nrDpus 0 ci))) = recordedAll c r ci := by
  have hiram : (List.range c.nrDpus).any (c.iramLost c.nrDpus ci) = (List.range c.nrDpus).any (c.iramFails ci) := by
    apply any_range_congr
    intro i hi
    rw [ResetConfig.iramLost, decide_eq_true hi, Bool.true_and]
  have hwram : (List.range c.nrDpus).any (c.wramLost c.nrDpus 0 ci) =
      (List.range c.nrDpus).any fun dpu => (List.range nrOfWramBanks).any (c.wramFails ci dpu) := by
    apply any_range_congr
    intro i hi
    rw [ResetConfig.wramLost, decide_eq_true hi, Bool.true_and, List.range_zero, List.any_nil, Bool.and_false,
      Bool.or_false]
  have hboth : (List.range c.nrDpus).any (c.unrepairable ci) = ((List.range c.nrDpus).any (c.iramFails ci) ||
      (List.range c.nrDpus).any fun dpu => (List.range nrOfWramBanks).any (c.wramFails ci dpu)) := by
    rw [Bool.eq_iff_iff, Bool.or_eq_true]
    simp only [List.any_eq_true, ResetConfig.unrepairable, Bool.or_eq_true]
    constructor
    · intro hex
      obtain ⟨i, hi, hfails⟩ := hex
      exact hfails.imp (fun h => ⟨i, hi, h⟩) fun h => ⟨i, hi, h⟩
    · intro hex
      rcases hex with ⟨i, hi, h⟩ | ⟨i, hi, h⟩
      · exact ⟨i, hi, .inl h⟩
      · exact ⟨i, hi, .inr h⟩
  rw [recordedAll, hiram, hwram, hboth]
  cases r.allDpusAreEnabled ci <;> cases (List.range c.nrDpus).any (c.iramFails ci) <;> simp

/-! ## The groups -/

theorem takes_softReset (second : Bool) :
    Takes (ResetStep.fails c o r) [] (·.Shows c set all group) (dpuSoftReset c o second)
      (fun _ s => s.Shows c set all fun ci dpu =>
        if (List.range 8).any (set ci) && (decide (o.error (.softReset second) = none) || o.resets second ci) then
          enabledGroup
        else group ci dpu)
      (AtStep c r) := by
  apply takes_modify
  intro s hs
  refine ⟨hs.enabled, hs.all, fun ci hci dpu hdpu => ?_⟩
  change (if decide (ci < c.nrCis) && decide (s.enabledDpus ci ≠ 0) &&
    (decide (o.error (.softReset second) = none) || o.resets second ci) then enabledGroup else s.group ci dpu) = _
  rw [decide_eq_true hci, Bool.true_and, hs.ne_zero hci, hs.group ci hci dpu hdpu]

/-- The thermal configuration neither fails nor changes the rank. -/
theorem takes_thermalConfig {P : ResetRank → Prop} :
    Takes (ResetStep.fails c o r) [] P (dpuThermalConfig o) (fun _ => P) (AtStep c r) := by
  rw [dpuThermalConfig_eq]
  exact takes_pure fun _ hs => hs

/-- The groups once the interfaces before `ci'` have been set up, and of `ci'` itself the DPUs before `dpu'`. -/
def groupsBefore (c : ResetConfig) (r : ResetRank) (group : Nat → Nat → Nat) (ci' dpu' : Nat) : Nat → Nat → Nat :=
  fun ci dpu =>
    if (ci < ci' ∨ ci = ci' ∧ dpu < dpu') ∧ recordedAll c r ci = false ∧ (List.range 8).any (kept c r ci) = true then
      if kept c r ci dpu then enabledGroup else disabledGroup
    else group ci dpu

/-- The groups after a reset that succeeds. -/
def groupsAfter (c : ResetConfig) (r : ResetRank) (group : Nat → Nat → Nat) : Nat → Nat → Nat := fun ci dpu =>
  if recordedAll c r ci then enabledGroup else groupsBefore c r group c.nrCis 0 ci dpu

/-- An interface that keeps a DPU has all of them enabled while the groups are set up. -/
theorem afterRepairs_of_kept {ci dpu : Nat} (hkept : (List.range 8).any (kept c r ci) = true) (hdpu : dpu < c.nrDpus) :
    afterRepairs c r ci dpu = true := by
  obtain ⟨i, hi, h⟩ := List.any_eq_true.1 hkept
  rw [← kept_eq, Bool.and_eq_true] at h
  rw [afterRepairs, refill, decide_eq_true hdpu, Bool.and_true]
  exact List.any_eq_true.2 ⟨i, hi, h.2⟩

theorem takes_initGroupsOf {save : SavedDpus} (hsave : save.Shows c (kept c r) (recordedAll c r)) {ci : Nat}
    (hci : ci < c.nrCis) (hall : recordedAll c r ci = false) (hkept : (List.range 8).any (kept c r ci) = true) :
    Takes (ResetStep.fails c o r) ((List.range c.nrDpus).flatMap fun dpu => [.groupSelect ci dpu, .groupWrite ci dpu])
      (·.Shows c (afterRepairs c r) all (groupsBefore c r group ci 0)) (initGroupsOf c o save ci)
      (fun _ s => s.Shows c (afterRepairs c r) all (groupsBefore c r group ci c.nrDpus))
      (AtStep c r) := by
  apply takes_forM_range (I := fun dpu (s : ResetRank) =>
    s.Shows c (afterRepairs c r) all (groupsBefore c r group ci dpu))
  intro dpu hdpu
  apply takes_bind (takes_command_shows (.groupSelect ci dpu) rfl rfl)
  intro _
  apply takes_bind (l := [_]) (takes_command_shows (.groupWrite ci dpu) rfl rfl)
  intro _
  apply takes_modify
  intro s hs
  refine ⟨hs.enabled, hs.all, fun ci' hci' dpu' hdpu' => ?_⟩
  have hbit : (s.enabledDpus ci).getLsbD dpu = true :=
    (hs.enabled ci hci dpu).trans (afterRepairs_of_kept hkept hdpu)
  change (if ci' = ci ∧ dpu' = dpu ∧ (s.enabledDpus ci).getLsbD dpu = true then
    if (save.enabledDpus ci).getLsbD dpu then enabledGroup else disabledGroup else s.group ci' dpu') = _
  rw [hs.group ci' hci' dpu' hdpu']
  unfold groupsBefore
  by_cases hsame : ci' = ci ∧ dpu' = dpu
  · obtain ⟨rfl, rfl⟩ := hsame
    have hnow : (ci' < ci' ∨ ci' = ci' ∧ dpu' < dpu' + 1) ∧ recordedAll c r ci' = false ∧
        (List.range 8).any (kept c r ci') = true := ⟨.inr ⟨rfl, Nat.lt_succ_self _⟩, hall, hkept⟩
    rw [if_pos ⟨rfl, rfl, hbit⟩, hsave.enabled ci' hci, if_pos hnow]
  · rw [if_neg fun h => hsame ⟨h.1, h.2.1⟩]
    have hlt : (ci' < ci ∨ ci' = ci ∧ dpu' < dpu) ↔ (ci' < ci ∨ ci' = ci ∧ dpu' < dpu + 1) := by omega
    simp only [hlt]

theorem kept_lt {ci dpu : Nat} (h : kept c r ci dpu = true) : dpu < c.nrDpus := by
  simp only [kept, Bool.and_eq_true, decide_eq_true_eq] at h
  exact h.1.2

/-- `dpu_init_groups` counts the bits of the saved masks. -/
theorem count_saved {save : SavedDpus} (hsave : save.Shows c (kept c r) (recordedAll c r)) :
    ((List.range c.nrCis).map fun ci : Nat => dpuMaskCount (save.enabledDpus ci)).sum =
      ((List.range c.nrCis).map fun ci : Nat => (List.range c.nrDpus).countP (kept c r ci)).sum := by
  congr 1
  apply List.map_congr_left
  intro ci hci
  have hle := c.nrDpus_le
  have hsplit : List.range 8 = List.range c.nrDpus ++ (List.range (8 - c.nrDpus)).map (c.nrDpus + ·) := by
    rw [← List.range_add]
    congr 1
    omega
  have hrest : ((List.range (8 - c.nrDpus)).map (c.nrDpus + ·)).countP (kept c r ci) = 0 := by
    rw [List.countP_eq_zero]
    intro i hi hk
    obtain ⟨j, -, rfl⟩ := List.mem_map.1 hi
    have hlt := kept_lt hk
    omega
  rw [dpuMaskCount]
  have hbits : (fun i => (save.enabledDpus ci).getLsbD i) = kept c r ci := by
    funext i
    exact hsave.enabled ci (List.mem_range.1 hci) i
  rw [hbits, hsplit, List.countP_append, hrest, Nat.add_zero]

/-- The state after `dpu_init_groups`. -/
structure Restored (c : ResetConfig) (r : ResetRank) (group : Nat → Nat → Nat) (s : ResetRank) : Prop where
  shows : s.Shows c (kept c r) (recordedAll c r) (groupsAfter c r group)
  dpuEnabled : ∀ ci < c.nrCis, ∀ dpu < c.nrDpus, s.dpuEnabled ci dpu = kept c r ci dpu
  nrDpusEnabled : s.nrDpusEnabled =
    ((List.range c.nrCis).map fun ci : Nat => (List.range c.nrDpus).countP (kept c r ci)).sum

theorem takes_initGroupsOfAll {save : SavedDpus} (hsave : save.Shows c (kept c r) (recordedAll c r))
    (hall : ∀ ci < c.nrCis, recordedAll c r ci = true → all ci = true) :
    Takes (ResetStep.fails c o r)
      (if (List.range c.nrCis).any (recordedAll c r) then [.groupSelectAll, .groupWriteAll] else [])
      (·.Shows c (afterRepairs c r) all (groupsBefore c r group c.nrCis 0)) (initGroupsOfAll c o save)
      (fun _ s => s.Shows c (afterRepairs c r) all (groupsAfter c r group)) (AtStep c r) := by
  have hany : (List.range c.nrCis).any save.allDpusAreEnabled = (List.range c.nrCis).any (recordedAll c r) :=
    any_range_congr hsave.all
  unfold initGroupsOfAll
  rw [hany]
  apply takes_ite
  · intro _
    apply takes_bind (takes_command_shows .groupSelectAll rfl rfl)
    intro _
    apply takes_bind (l := [_]) (takes_command_shows .groupWriteAll rfl rfl)
    intro _
    apply takes_modify
    intro s hs
    refine ⟨hs.enabled, hs.all, fun ci hci dpu hdpu => ?_⟩
    change (if (decide (ci < c.nrCis) && save.allDpusAreEnabled ci) && s.allDpusAreEnabled ci then enabledGroup
      else s.group ci dpu) = _
    rw [decide_eq_true hci, Bool.true_and, hsave.all ci hci, hs.all ci hci, hs.group ci hci dpu hdpu, groupsAfter]
    cases hrecorded : recordedAll c r ci with
    | true => rw [hall ci hci hrecorded, Bool.and_self]
    | false => rfl
  · intro hnone
    apply takes_pure
    intro s hs
    refine hs.congr (fun _ _ _ => rfl) (fun _ _ => rfl) fun ci hci dpu _ => ?_
    have hrecorded : recordedAll c r ci ≠ true := fun h =>
      hnone (List.any_eq_true.2 ⟨ci, List.mem_range.2 hci, h⟩)
    rw [groupsAfter, if_neg hrecorded]

theorem takes_initGroups {save : SavedDpus} (hsave : save.Shows c (kept c r) (recordedAll c r))
    (hall : ∀ ci < c.nrCis, recordedAll c r ci = true → all ci = true) :
    Takes (ResetStep.fails c o r) (groupSteps c r) (·.Shows c (afterRepairs c r) all group) (dpuInitGroups c o save)
      (fun _ s => Restored c r group s) (AtStep c r) := by
  unfold dpuInitGroups groupSteps
  apply takes_bind (R := fun _ s => s.Shows c (afterRepairs c r) all (groupsBefore c r group c.nrCis 0))
  · apply Takes.pre (takes_forM_range (I := fun ci (s : ResetRank) =>
      s.Shows c (afterRepairs c r) all (groupsBefore c r group ci 0)) ?_)
    · intro s hs
      exact hs.congr (fun _ _ _ => rfl) (fun _ _ => rfl) fun ci _ dpu _ => by simp [groupsBefore]
    · intro ci hci
      have hnext : ∀ s : ResetRank, recordedAll c r ci = true ∨ (List.range 8).any (kept c r ci) = false →
          s.Shows c (afterRepairs c r) all (groupsBefore c r group ci 0) →
          s.Shows c (afterRepairs c r) all (groupsBefore c r group (ci + 1) 0) := by
        intro s hskip hs
        refine hs.congr (fun _ _ _ => rfl) (fun _ _ => rfl) fun ci' _ dpu _ => ?_
        unfold groupsBefore
        by_cases hsame : ci' = ci
        · subst hsame
          rcases hskip with hskip | hskip <;> simp [hskip]
        · have hlt : (ci' < ci ∨ ci' = ci ∧ dpu < 0) ↔ (ci' < ci + 1 ∨ ci' = ci + 1 ∧ dpu < 0) := by omega
          simp only [hlt]
      have hbits : (fun i => (save.enabledDpus ci).getLsbD i) = kept c r ci := funext (hsave.enabled ci hci)
      have hzero : (save.enabledDpus ci ≠ 0) = ((List.range 8).any (kept c r ci) = true) := by
        rw [← hbits, ← mask_ne_zero]
        exact decide_eq_true_eq.symm
      simp only [hsave.all ci hci, hzero]
      apply takes_ite
      · intro hrecorded
        exact takes_pure fun s hs => hnext s (.inl hrecorded) hs
      · intro hrecorded
        rw [Bool.not_eq_true] at hrecorded
        apply takes_ite
        · intro hkept
          apply (takes_initGroupsOf hsave hci hrecorded hkept).post
          intro _ s hs
          refine hs.congr (fun _ _ _ => rfl) (fun _ _ => rfl) fun ci' _ dpu hdpu => ?_
          have hlt : (ci' < ci ∨ ci' = ci ∧ dpu < c.nrDpus) ↔ (ci' < ci + 1 ∨ ci' = ci + 1 ∧ dpu < 0) := by omega
          simp only [groupsBefore, hlt]
        · intro hkept
          rw [Bool.not_eq_true] at hkept
          exact takes_pure fun s hs => hnext s (.inr hkept) hs
  intro _
  apply Takes.steps
  · apply takes_bind (takes_initGroupsOfAll hsave hall)
    intro _
    apply takes_modify
    intro s hs
    refine ⟨⟨fun ci hci i => ?_, fun ci hci => ?_, hs.group⟩, fun ci hci dpu hdpu => ?_, count_saved hsave⟩
    · change (if ci < c.nrCis then save.enabledDpus ci else s.enabledDpus ci).getLsbD i = _
      rw [if_pos hci, hsave.enabled ci hci]
    · change (if ci < c.nrCis then save.allDpusAreEnabled ci else s.allDpusAreEnabled ci) = _
      rw [if_pos hci, hsave.all ci hci]
    · change (if ci < c.nrCis ∧ dpu < c.nrDpus then (save.enabledDpus ci).getLsbD dpu else s.dpuEnabled ci dpu) = _
      rw [if_pos ⟨hci, hdpu⟩, hsave.enabled ci hci]
  · exact (List.append_nil _).symm

/-! ## A whole reset -/

/-- A command with what comes after it. -/
theorem takes_then {step : ResetStep} {rest : List ResetStep} {x : ResetM PUnit} {Q : PUnit → ResetRank → Prop}
    (hstep : step.fails c o r = (o.error step).isSome) (hset : step.working c r = set)
    (hrest : Takes (ResetStep.fails c o r) rest (·.Shows c set all group) x Q (AtStep c r)) :
    Takes (ResetStep.fails c o r) (step :: rest) (·.Shows c set all group) (command o step >>= fun _ => x) Q
      (AtStep c r) :=
  takes_bind (takes_command_shows step hstep hset) fun _ => hrest

/-- Both soft resets. -/
theorem resetGroup_eq (ci dpu : Nat) :
    (if (List.range 8).any (refill c r.enabledSet ci) &&
        (decide (o.error (.softReset true) = none) || o.resets true ci) then enabledGroup
      else if (List.range 8).any (refill c r.enabledSet ci) &&
        (decide (o.error (.softReset false) = none) || o.resets false ci) then enabledGroup
      else r.group ci dpu) = resetGroup o r ci dpu := by
  have hbool : ∀ (a first second : Bool) (g g' : Nat),
      (if a && second then g else if a && first then g else g') = if a && (first || second) then g else g' := by
    intro a first second g g'
    cases a <;> cases first <;> cases second <;> rfl
  rw [refill_any]
  exact hbool ..

theorem takes_ciResetRank (c : ResetConfig) (o : ResetOutcomes) (r : ResetRank) :
    Takes (ResetStep.fails c o r) (resetSteps c r) (fun s => s = r) (ciResetRank c o)
      (fun _ s => Restored c r (resetGroup o r) s) (AtStep c r) := by
  unfold ciResetRank
  have hstart : ∀ s, s = r → s.Shows c r.enabledSet r.allDpusAreEnabled r.group := by
    intro s hs
    rw [hs]
    exact ⟨fun _ _ _ => rfl, fun _ _ => rfl, fun _ _ _ _ => rfl⟩
  -- from here to the groups all DPUs of an interface with an enabled one are enabled
  apply takes_bind (l := []) (takes_save none hstart ⟨rfl, rfl⟩)
  intro save
  apply takes_assume
  intro hsave
  simp only [Bool.and_self] at hsave
  apply takes_then rfl rfl
  apply takes_bind (l := []) (takes_softReset false)
  intro _
  apply takes_then rfl rfl
  apply takes_then rfl rfl
  apply takes_bind (l := []) (takes_softReset true)
  intro _
  apply takes_then rfl rfl
  apply takes_then rfl rfl
  apply takes_bind (l := []) takes_thermalConfig
  intro _
  apply takes_then rfl rfl
  -- each repair disables DPUs of the temporary set, and the save behind it takes them out of the saved one
  apply takes_bind (takes_iram rfl)
  intro _
  apply takes_bind (l := []) (takes_save (some save) (fun _ hs => hs) hsave)
  intro save
  apply takes_assume
  intro hsave
  apply takes_bind (takes_wram rfl)
  intro _
  apply takes_bind (l := []) (takes_save (some save) (fun _ hs => hs) hsave)
  intro save
  apply takes_assume
  intro hsave
  have hkept : save.Shows c (kept c r) (recordedAll c r) :=
    ⟨fun ci hci i => by rw [hsave.enabled ci hci, kept_eq], fun ci hci => by rw [hsave.all ci hci, recordedAll_eq]⟩
  apply takes_then rfl rfl
  apply takes_then rfl rfl
  apply takes_then rfl rfl
  apply takes_then rfl rfl
  apply takes_then rfl rfl
  apply takes_then rfl rfl
  apply takes_then rfl rfl
  apply takes_then rfl rfl
  apply takes_then rfl rfl
  apply takes_bind (l := groupSteps c r) (R := fun _ s => Restored c r (resetGroup o r) s)
  · refine Takes.post (takes_initGroups hkept ?_) ?_
    · intro ci hci hrecorded
      rw [← recordedAll_eq, Bool.and_eq_true] at hrecorded
      rw [hrecorded.2, Bool.or_true]
    · intro _ s hs
      have hgroup := fun ci => funext (resetGroup_eq (o := o) (c := c) (r := r) ci)
      exact (congrArg (fun group => Restored c r group s) (funext hgroup)).mp hs
  · intro _
    exact takes_command .setSliceInfo rfl fun s hs ci hci i => hs.shows.enabled ci hci i

theorem any_kept_eq_false {ci : Nat} :
    (List.range 8).any (kept c r ci) = false ↔ ∀ dpu < c.nrDpus, kept c r ci dpu = false := by
  have hle := c.nrDpus_le
  rw [List.any_eq_false]
  constructor
  · intro h dpu hdpu
    exact Bool.eq_false_iff.2 (h dpu (List.mem_range.2 (by omega)))
  · intro h dpu _ hkept
    rw [h dpu (kept_lt hkept)] at hkept
    cases hkept

/-- The groups are right if the record is, and the interfaces without a DPU are out of the first group. -/
theorem groupsAfter_iff {ci : Nat} (hci : ci < c.nrCis)
    (hrecord : recordedAll c r ci = true ↔ ∀ dpu < c.nrDpus, kept c r ci dpu = true) :
    (∀ dpu < c.nrDpus, (groupsAfter c r group ci dpu = enabledGroup ↔ kept c r ci dpu = true)) ↔
      ((∀ dpu < c.nrDpus, kept c r ci dpu = false) → ∀ dpu < c.nrDpus, group ci dpu ≠ enabledGroup) := by
  cases hrecorded : recordedAll c r ci with
  | true =>
    have hkept := hrecord.1 hrecorded
    refine iff_of_true (fun dpu hdpu => ?_) fun hnone => ?_
    · rw [groupsAfter, if_pos hrecorded]
      exact iff_of_true rfl (hkept dpu hdpu)
    · have hfalse := (hnone 0 c.nrDpus_pos).symm.trans (hkept 0 c.nrDpus_pos)
      cases hfalse
  | false =>
    cases hany : (List.range 8).any (kept c r ci) with
    | true =>
      refine iff_of_true (fun dpu hdpu => ?_) fun hnone => ?_
      · rw [groupsAfter, if_neg (by rw [hrecorded]; exact Bool.false_ne_true), groupsBefore,
          if_pos ⟨.inl hci, hrecorded, hany⟩]
        cases kept c r ci dpu <;> simp [enabledGroup, disabledGroup]
      · rw [any_kept_eq_false.2 hnone] at hany
        cases hany
    | false =>
      have hnone := any_kept_eq_false.1 hany
      have hgroup : ∀ dpu, groupsAfter c r group ci dpu = group ci dpu := by
        intro dpu
        rw [groupsAfter, if_neg (by rw [hrecorded]; exact Bool.false_ne_true), groupsBefore,
          if_neg fun h => Bool.false_ne_true (hany.symm.trans h.2.2)]
      constructor
      · intro h _ dpu hdpu heq
        have hkept := (h dpu hdpu).1 ((hgroup dpu).trans heq)
        rw [hnone dpu hdpu] at hkept
        cases hkept
      · intro h dpu hdpu
        rw [hgroup dpu, hnone dpu hdpu]
        exact iff_of_false (h hnone dpu hdpu) Bool.false_ne_true

end

theorem keepsEnabled_iff (r : ResetRank) : KeepsEnabled c o r ↔ ResetHarmless c o r := by
  have hruns := (takes_ciResetRank c o r).run rfl
  unfold KeepsEnabled ResetHarmless
  cases hfind : (resetSteps c r).find? (ResetStep.fails c o r) with
  | some step =>
    -- the reset ends with an error, in the set of the step that fails
    rw [hfind] at hruns
    obtain ⟨e, r', hrun, hat⟩ := hruns
    rw [hrun]
    constructor
    · intro h ci hci dpu hdpu hworking
      exact h ci hci dpu hdpu ((hat ci hci dpu).trans hworking)
    · intro h ci hci dpu hdpu henabled
      exact h ci hci dpu hdpu ((hat ci hci dpu).symm.trans henabled)
  | none =>
    rw [hfind] at hruns
    obtain ⟨_, r', hrun, hs⟩ := hruns
    rw [hrun]
    -- the saved set is back, less what cannot be repaired
    have hset : ∀ ci < c.nrCis, ∀ dpu, r'.enabledSet ci dpu = kept c r ci dpu := hs.shows.enabled
    constructor
    · intro h
      obtain ⟨-, hdone⟩ := h
      obtain ⟨ci, hci, dpu, hdpu, henabled⟩ := hdone.nonempty
      refine ⟨⟨ci, hci, dpu, hdpu, (hset ci hci dpu).symm.trans henabled⟩, fun ci hci => ?_⟩
      have hrecord : recordedAll c r ci = true ↔ ∀ dpu < c.nrDpus, kept c r ci dpu = true := by
        rw [← hs.shows.all ci hci, hdone.agree.allDpusAreEnabled ci hci]
        simp only [hset ci hci]
      refine ⟨hrecord, (groupsAfter_iff hci hrecord).1 fun dpu hdpu => ?_⟩
      rw [← hs.shows.group ci hci dpu hdpu, hdone.group ci hci dpu hdpu, hset ci hci]
    · intro h
      obtain ⟨⟨ci, hci, dpu, hdpu, hkept⟩, hall⟩ := h
      refine ⟨fun ci hci dpu _ henabled => ?_, ?_⟩
      · rw [hset ci hci, kept, Bool.and_assoc, Bool.and_eq_true] at henabled
        exact henabled.1
      · refine ⟨fun ci hci dpu hdpu => ?_, ⟨ci, hci, dpu, hdpu, (hset ci hci dpu).trans hkept⟩,
          ⟨fun ci hci dpu hdpu => ?_, fun ci hci => ?_, ?_⟩, fun ci hci dpu hdpu => ?_⟩
        · rw [hset ci hci, kept, decide_eq_true hdpu, Bool.and_true]
        · rw [hset ci hci, hs.dpuEnabled ci hci dpu hdpu]
        · rw [hs.shows.all ci hci, (hall ci hci).1]
          simp only [hset ci hci]
        · rw [hs.nrDpusEnabled]
          congr 1
          apply List.map_congr_left
          intro ci hci
          rw [funext (hset ci (List.mem_range.1 hci))]
        · rw [hs.shows.group ci hci dpu hdpu, hset ci hci]
          exact (groupsAfter_iff hci (hall ci hci).1).2 (hall ci hci).2 dpu hdpu

/-! ## A failure right at the start -/

/-- A rank of one interface and two DPUs, the second of which is disabled. -/
def halfEnabled : ResetRank where
  enabledDpus _ := 0x01#8
  allDpusAreEnabled _ := false
  dpuEnabled _ dpu := decide (dpu = 0)
  nrDpusEnabled := 1
  group _ dpu := if dpu = 0 then enabledGroup else disabledGroup

def withoutRepairs : ResetConfig where
  nrCis := 1
  nrCis_le := Nat.le_of_ble_eq_true rfl
  nrDpus := 2
  nrDpus_pos := Nat.succ_pos 1
  nrDpus_le := Nat.le_of_ble_eq_true rfl
  doIramRepair := false
  doWramRepair := false
  repair _ _ := ⟨⟨Vector.replicate _ ⟨0, 0⟩, 0⟩, Vector.replicate _ ⟨Vector.replicate _ ⟨0, 0⟩, 0⟩⟩

/-- The first command fails. -/
def driverFails : ResetOutcomes where
  error step := if step = .byteOrder then some .driver else none
  resets _ _ := true

theorem driverFails_not_keepsEnabled : ¬ KeepsEnabled withoutRepairs driverFails halfEnabled := by
  intro h
  have hbit := h 0 (by decide) 1 (by decide) (by decide)
  exact absurd hbit (by decide)

end DpuBackend.Ufi
