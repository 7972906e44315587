import DpuBackend.Ufi.Slice

/-
  The read-back of a configuration (`ufi_config.c`).

  A mode is written to all DPUs and read back: a line of DPUs at a time for the mode of the
  program counter, a byte for each interface for the direction of the stack. Both functions are
  to fail if an enabled DPU answers with another value.

  `dpu_set_pc_mode` looks at the entry of `pc_modes` with the number of the line, not with that
  of the interface, and the check of a line forgets the status of the lines before.
  `setPcMode_ok_iff` says what is left of the check, `readBack_iff` when that is enough.

  All commands succeed; what the DPUs answer is given. The mask of a line has the interfaces
  whose DPU of that line is enabled: the others keep their entry.

  Correspondence (C ↔ Lean):
    `ufi_get_pc_mode`         ↔ `Setting.ufiGetPcMode`
    `dpu_set_pc_mode`         ↔ `Setting.checkLine`, `Setting.dpuSetPcMode`
    `dpu_set_stack_direction` ↔ `Setting.checkDpu`, `Setting.dpuSetStackDirection`
-/

namespace DpuBackend.Ufi.ConfigReadBack

inductive Status where
  | ok
  | errInternal
deriving DecidableEq

/-- The rank, the values asked for, and the answers. -/
structure Setting where
  nrCis : Nat
  nrDpus : Nat
  nrCis_le : nrCis ≤ 8
  nrDpus_le : nrDpus ≤ 8
  /-- By interface and DPU; the masks of the slices say the same. -/
  enabled : Nat → Nat → Bool
  pcMode : UInt8
  /-- The mode each DPU answers with. -/
  pcModeOf : Nat → Nat → UInt8
  stackIsUp : Bool
  /-- The directions each interface answers with, and what `previous_directions` holds for the others. -/
  directions : Nat → Mask

namespace Setting

variable (x : Setting)

/-! ## The mode of the program counter -/

def ufiGetPcMode (dpuId : Nat) (pcModes : Nat → UInt8) : Nat → UInt8 := fun ci =>
  if ci < x.nrCis ∧ x.enabled ci dpuId = true then x.pcModeOf ci dpuId else pcModes ci

/-- The loop over the slices; the first that is wrong leaves it. -/
def checkLine (pcModes : Nat → UInt8) (dpuId : Nat) : List Nat → Status → Status
  | [], status => status
  | sliceId :: slices, status =>
    if x.enabled sliceId dpuId = true ∧ pcModes dpuId ≠ x.pcMode then .errInternal
    else checkLine pcModes dpuId slices status

/-- The commands for a line set the status. -/
def pcModeLine (st : (Nat → UInt8) × Status) (dpuId : Nat) : (Nat → UInt8) × Status :=
  let pcModes := x.ufiGetPcMode dpuId st.1
  (pcModes, x.checkLine pcModes dpuId (List.range x.nrCis) .ok)

def dpuSetPcMode : Status := ((List.range x.nrDpus).foldl x.pcModeLine (fun _ => x.pcMode, .ok)).2

/-! ## The direction of the stack -/

/-- The loops do not leave. -/
def checkDpu (sliceId : Nat) (status : Status) (dpuId : Nat) : Status :=
  if x.enabled sliceId dpuId = true ∧ (x.directions sliceId).getLsbD dpuId ≠ x.stackIsUp then .errInternal else status

def checkSlice (status : Status) (sliceId : Nat) : Status :=
  (List.range x.nrDpus).foldl (x.checkDpu sliceId) status

def dpuSetStackDirection : Status := (List.range x.nrCis).foldl x.checkSlice .ok

/-! ## What a check is to say -/

def AllModes : Prop := ∀ ci < x.nrCis, ∀ dpu < x.nrDpus, x.enabled ci dpu = true → x.pcModeOf ci dpu = x.pcMode

def AllDirections : Prop :=
  ∀ ci < x.nrCis, ∀ dpu < x.nrDpus, x.enabled ci dpu = true → (x.directions ci).getLsbD dpu = x.stackIsUp

/-- Of the first lines, the last that is enabled on the interface answers with another mode. -/
def AnswersOther (ci lines : Nat) : Prop :=
  ∃ dpu < lines, x.enabled ci dpu = true ∧ x.pcModeOf ci dpu ≠ x.pcMode ∧
    ∀ dpu' < lines, dpu < dpu' → x.enabled ci dpu' = false

/-- The last line has an enabled DPU, and the last enabled DPU of the interface with the number of that line answers
with another mode. -/
def Noticed : Prop :=
  ∃ line, line + 1 = x.nrDpus ∧ (∃ ci < x.nrCis, x.enabled ci line = true) ∧ line < x.nrCis ∧ x.AnswersOther line x.nrDpus

end Setting

variable {x : Setting}

/-! ## The check of the mode -/

theorem checkLine_ok_iff (pcModes : Nat → UInt8) (dpuId : Nat) (slices : List Nat) :
    x.checkLine pcModes dpuId slices .ok = .ok ↔ ∀ ci ∈ slices, x.enabled ci dpuId = true → pcModes dpuId = x.pcMode := by
  induction slices with
  | nil => simp [Setting.checkLine]
  | cons ci slices ih =>
    unfold Setting.checkLine
    by_cases h : x.enabled ci dpuId = true ∧ pcModes dpuId ≠ x.pcMode
    · rw [if_pos h]
      simp only [reduceCtorEq, List.mem_cons, forall_eq_or_imp, false_iff, not_and]
      exact fun himp => absurd (himp h.1) h.2
    · rw [if_neg h, ih]
      simp only [List.mem_cons, forall_eq_or_imp, iff_and_self]
      intro _ hci
      exact Classical.not_not.mp fun hne => h ⟨hci, hne⟩

/-- The table after the first lines. -/
def modesAfter (x : Setting) (lines : Nat) : Nat → UInt8 :=
  ((List.range lines).foldl x.pcModeLine (fun _ => x.pcMode, .ok)).1

theorem modesAfter_succ (lines : Nat) : modesAfter x (lines + 1) = x.ufiGetPcMode lines (modesAfter x lines) := by
  simp only [modesAfter, List.range_succ, List.foldl_append, List.foldl_cons, List.foldl_nil, Setting.pcModeLine]

/-- The entry of an interface is the last answer on it. -/
theorem modesAfter_ne_iff (ci lines : Nat) :
    modesAfter x lines ci ≠ x.pcMode ↔ ci < x.nrCis ∧ x.AnswersOther ci lines := by
  induction lines with
  | zero => simp [modesAfter, Setting.AnswersOther]
  | succ lines ih =>
    rw [modesAfter_succ]
    unfold Setting.ufiGetPcMode
    by_cases h : ci < x.nrCis ∧ x.enabled ci lines = true
    · rw [if_pos h]
      refine ⟨fun hne => ⟨h.1, lines, Nat.lt_succ_self lines, h.2, hne, fun dpu' h' hlt => by omega⟩, ?_⟩
      rintro ⟨-, dpu, hdpu, -, hne, hlater⟩
      have hlast : dpu = lines := by
        by_contra hlt
        have hoff := hlater lines (Nat.lt_succ_self lines) (by omega)
        rw [h.2] at hoff
        exact absurd hoff.symm Bool.false_ne_true
      rw [← hlast]
      exact hne
    · rw [if_neg h, ih]
      refine and_congr_right fun hci => ?_
      have hoff : x.enabled ci lines = false := Bool.eq_false_iff.mpr fun he => h ⟨hci, he⟩
      constructor
      · rintro ⟨dpu, hdpu, hon, hne, hlater⟩
        refine ⟨dpu, by omega, hon, hne, fun dpu' hdpu' hlt => ?_⟩
        by_cases he : dpu' = lines
        · rw [he]
          exact hoff
        · exact hlater dpu' (by omega) hlt
      · rintro ⟨dpu, hdpu, hon, hne, hlater⟩
        have hdiff : dpu ≠ lines := by
          rintro rfl
          rw [hon] at hoff
          exact absurd hoff.symm Bool.false_ne_true
        exact ⟨dpu, by omega, hon, hne, fun dpu' hdpu' hlt => hlater dpu' (by omega) hlt⟩

/-- The check is that of the last line alone. -/
theorem setPcMode_ok_iff : x.dpuSetPcMode = .ok ↔ ¬x.Noticed := by
  unfold Setting.dpuSetPcMode Setting.Noticed
  cases hn : x.nrDpus with
  | zero => simp
  | succ line =>
    have hlast : ((List.range (line + 1)).foldl x.pcModeLine (fun _ => x.pcMode, .ok)).2 =
        x.checkLine (modesAfter x (line + 1)) line (List.range x.nrCis) .ok := by
      rw [modesAfter_succ]
      simp only [List.range_succ (n := line), List.foldl_append, List.foldl_cons, List.foldl_nil, Setting.pcModeLine,
        modesAfter]
    have hentry := modesAfter_ne_iff (x := x) line (line + 1)
    rw [hlast, checkLine_ok_iff]
    constructor
    · rintro hall ⟨_, he, ⟨ci, hci, hon⟩, hline, hother⟩
      obtain rfl : _ = line := Nat.succ.inj he
      exact hentry.mpr ⟨hline, hother⟩ (hall ci (List.mem_range.mpr hci) hon)
    · intro hno ci hci hon
      by_contra hne
      obtain ⟨hline, hother⟩ := hentry.mp hne
      exact hno ⟨line, rfl, ⟨ci, List.mem_range.mp hci, hon⟩, hline, hother⟩

/-- What is noticed is wrong. -/
theorem Setting.Noticed.not_allModes (h : x.Noticed) : ¬x.AllModes := by
  rintro hall
  obtain ⟨line, -, -, hline, dpu, hdpu, hon, hne, -⟩ := h
  exact hne (hall line hline dpu hdpu hon)

/-! ## The check of the direction -/

theorem checkDpu_ok_iff (sliceId : Nat) (status : Status) (dpu : Nat) :
    x.checkDpu sliceId status dpu = .ok ↔
      status = .ok ∧ (x.enabled sliceId dpu = true → (x.directions sliceId).getLsbD dpu = x.stackIsUp) := by
  unfold Setting.checkDpu
  by_cases h : x.enabled sliceId dpu = true ∧ (x.directions sliceId).getLsbD dpu ≠ x.stackIsUp
  · rw [if_pos h]
    simp only [reduceCtorEq, false_iff, not_and]
    exact fun _ himp => h.2 (himp h.1)
  · rw [if_neg h]
    simp only [iff_self_and]
    exact fun _ hon => Classical.not_not.mp fun hne => h ⟨hon, hne⟩

theorem checkSlice_ok_iff (sliceId : Nat) (status : Status) :
    x.checkSlice status sliceId = .ok ↔
      status = .ok ∧ ∀ dpu < x.nrDpus, x.enabled sliceId dpu = true → (x.directions sliceId).getLsbD dpu = x.stackIsUp := by
  unfold Setting.checkSlice
  induction x.nrDpus with
  | zero => simp
  | succ n ih =>
    rw [List.range_succ, List.foldl_append, List.foldl_cons, List.foldl_nil, checkDpu_ok_iff, ih, and_assoc]
    refine and_congr_right fun _ => ⟨?_, fun hall => ⟨fun dpu hdpu => hall dpu (by omega), hall n (Nat.lt_succ_self n)⟩⟩
    rintro ⟨hall, hlast⟩ dpu hdpu
    by_cases he : dpu = n
    · rw [he]
      exact hlast
    · exact hall dpu (by omega)

/-- No mismatch of a direction is missed. -/
theorem setStackDirection_ok_iff : x.dpuSetStackDirection = .ok ↔ x.AllDirections := by
  unfold Setting.dpuSetStackDirection Setting.AllDirections
  induction x.nrCis with
  | zero => simp
  | succ n ih =>
    rw [List.range_succ, List.foldl_append, List.foldl_cons, List.foldl_nil, checkSlice_ok_iff, ih]
    constructor
    · rintro ⟨hall, hlast⟩ ci hci
      by_cases he : ci = n
      · rw [he]
        exact hlast
      · exact hall ci (by omega)
    · intro hall
      exact ⟨fun ci hci => hall ci (by omega), hall n (Nat.lt_succ_self n)⟩

/-! ## Both checks -/

/-- Each function succeeds exactly if all enabled DPUs answer with the value asked for. -/
structure ReadsBack (x : Setting) : Prop where
  pcMode : x.dpuSetPcMode = .ok ↔ x.AllModes
  stackDirection : x.dpuSetStackDirection = .ok ↔ x.AllDirections

/-- All modes are right, or the last line shows a wrong one. -/
def HoldsWhen (x : Setting) : Prop := x.AllModes ∨ x.Noticed

theorem readsBack_iff (x : Setting) : ReadsBack x ↔ HoldsWhen x := by
  constructor
  · rintro ⟨hpc, -⟩
    rw [setPcMode_ok_iff] at hpc
    by_cases hnoticed : x.Noticed
    · exact .inr hnoticed
    · exact .inl (hpc.mp hnoticed)
  · intro h
    refine ⟨?_, setStackDirection_ok_iff⟩
    rw [setPcMode_ok_iff]
    rcases h with hall | hnoticed
    · exact ⟨fun _ => hall, fun _ hnoticed => hnoticed.not_allModes hall⟩
    · exact ⟨fun hno => absurd hnoticed hno, fun hall => absurd hall hnoticed.not_allModes⟩

/-- A full rank whose first DPU alone answers with mode 0 for mode 4. -/
def firstDpuOff : Setting where
  nrCis := 8
  nrDpus := 8
  nrCis_le := Nat.le_add_right 8 0
  nrDpus_le := Nat.le_add_right 8 0
  enabled := fun _ _ => true
  pcMode := 4
  pcModeOf := fun ci dpu => if ci = 0 ∧ dpu = 0 then 0 else 4
  stackIsUp := true
  directions := fun _ => 0xFF

theorem firstDpuOff_missed : firstDpuOff.dpuSetPcMode = .ok ∧ ¬ReadsBack firstDpuOff := by
  have hok : firstDpuOff.dpuSetPcMode = .ok := by decide +kernel
  refine ⟨hok, fun h => ?_⟩
  have hmode := h.pcMode.mp hok 0 (by decide) 0 (by decide) rfl
  exact absurd hmode (by decide)

end DpuBackend.Ufi.ConfigReadBack
