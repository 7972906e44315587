import DpuBackend.Ufi.DebugContext
import DpuBackend.Ufi.MuxSpec

/-
  The loops that read the interfaces until a condition holds, a bounded number of times.

  The loops count down after each read and decide by the count alone: where the last read allowed
  is the first that shows what the loop waits for, it is taken for a timeout. `right_iff` says this
  of each of the six loops: it reports what it has read unless only the last read succeeds.

  The check of the muxes of a rank looks at the interfaces of one mask and reads those of another.
  Both are the interfaces with an enabled DPU, whatever the targets are (`enabled_selected`), so
  that no entry is checked that has not been read.

  Correspondence (C ↔ Lean):
    `dpu_check_wavegen_mux_status_for_dpu`   ↔ `muxLoopForDpu`, `dpuCheckWavegenMuxStatusForDpu`
    `dpu_check_wavegen_mux_status_for_rank`  ↔ `muxLoopForRank`, `dpuCheckWavegenMuxStatusForRank`
    the loops of `ci_get_color` and of `ci_debug_restore_context_rank` ↔ `pollUntil` (`Ufi.DebugContext`)
-/

namespace DpuBackend.Ufi.PollingBudget

open DpuBackend.Lib

/-! ## The muxes -/

inductive Status where
  | ok
  | errTimeout
deriving DecidableEq

/-- `TIMEOUT_MUX_STATUS`. -/
def timeoutMuxStatus : Nat := 100

/-- A loop that counts down after each pass: what is left of the count, and the state. -/
def doWhile {σ : Type} (pass : Nat → σ → σ) (shouldRetry : σ → Bool) : Nat → Nat → σ → Nat × σ
  | 0, _, s => (0, s)
  | timeout + 1, k, s =>
    let s := pass k s
    if timeout ≠ 0 ∧ shouldRetry s = true then doWhile pass shouldRetry timeout (k + 1) s else (timeout, s)

/-- `ufi_read_dma_ctrl`: the entries of the other interfaces stay. -/
def readDmaCtrl (r : Rank) (mask : Mask) (answer resultArray : Nat → Mask) : Nat → Mask := fun ci =>
  if r.visits mask ci then answer ci else resultArray ci

/-- Some interface of the mask shows another status. -/
def muxMismatch (r : Rank) (ciMask : Mask) (expected resultArray : Nat → Mask) : Bool :=
  (List.range r.nrCis).any fun ci => ciMask.getLsbD ci && !decide (resultArray ci &&& 0x7B = expected ci)

/-- By read and interface. -/
abbrev MuxAnswers := Nat → Nat → Mask

def muxLoopForDpu (r : Rank) (ciMask : Mask) (expected : Nat → Mask) (answers : MuxAnswers) (resultArray : Nat → Mask) :
    Nat × (Nat → Mask) :=
  doWhile (fun k a => readDmaCtrl r ciMask (answers k) a) (muxMismatch r ciMask expected) timeoutMuxStatus 0 resultArray

/-- What the functions return for a count. -/
def timeoutStatus (disableApiSafeChecks : Bool) (timeout : Nat) : Status :=
  if timeout = 0 then if disableApiSafeChecks then .ok else .errTimeout else .ok

def dpuCheckWavegenMuxStatusForDpu (disableApiSafeChecks : Bool) (r : Rank) (dpuId : Nat) (expected : Nat → Mask)
    (answers : MuxAnswers) (resultArray : Nat → Mask) : Status :=
  timeoutStatus disableApiSafeChecks
    (muxLoopForDpu (r.select (SliceInfo.dpuEvenDisabledTarget · dpuId) allCis)
      (r.selected (SliceInfo.dpuEvenDisabledTarget · dpuId) allCis) expected answers resultArray).1

/-- A pass of the loop for a rank: the line is selected again, and read with the mask of that selection. -/
def muxPassForRank (dpuId : Nat) (answer : Nat → Mask) (s : Rank × (Nat → Mask)) : Rank × (Nat → Mask) :=
  let mask := s.1.selected (SliceInfo.dpuEvenDisabledTarget · dpuId) allCis
  let r := s.1.select (SliceInfo.dpuEvenDisabledTarget · dpuId) allCis
  (r, readDmaCtrl r mask answer s.2)

def muxLoopForRank (ciMask : Mask) (expected : Mask) (dpuId : Nat) (answers : MuxAnswers) (s : Rank × (Nat → Mask)) :
    Nat × (Rank × (Nat → Mask)) :=
  doWhile (fun k s => muxPassForRank dpuId (answers k) s) (fun s => muxMismatch s.1 ciMask (fun _ => expected) s.2)
    timeoutMuxStatus 0 s

/-- The loop over the lines. -/
def checkLines (disableApiSafeChecks : Bool) (ciMask expected : Mask) (answers : Nat → MuxAnswers) :
    List Nat → Rank × (Nat → Mask) → Status
  | [], _ => .ok
  | dpuId :: lines, s =>
    let (timeout, s) := muxLoopForRank ciMask expected dpuId (answers dpuId) s
    if timeout = 0 then timeoutStatus disableApiSafeChecks timeout
    else checkLines disableApiSafeChecks ciMask expected answers lines s

def dpuCheckWavegenMuxStatusForRank (disableApiSafeChecks : Bool) (r : Rank) (expected : Mask)
    (answers : Nat → MuxAnswers) (resultArray : Nat → Mask) : Status :=
  checkLines disableApiSafeChecks (r.selected SliceInfo.allEvenDisabledTarget allCis) expected answers
    (List.range r.nrDpus) (r.select SliceInfo.allEvenDisabledTarget allCis, resultArray)

/-! ## The loops -/

/-- The interfaces with an enabled DPU show what is expected, but for the bit of the refresh. -/
def MuxesShown (r : Rank) (expected answer : Nat → Mask) : Prop :=
  ∀ ci < r.nrCis, (r.sliceInfo ci).enabledDpus ≠ 0 → answer ci &&& 0x7B = expected ci

/-- The rank has other targets, and nothing else that the check looks at. -/
structure SameDpus (r now : Rank) : Prop where
  nrCis : now.nrCis = r.nrCis
  enabledDpus : ∀ ci, (now.sliceInfo ci).enabledDpus = (r.sliceInfo ci).enabledDpus

/-- The check for the line of a DPU. -/
structure MuxForDpu where
  rank : Rank
  nrCis_le : rank.nrCis ≤ 8
  dpuId : Nat
  expected : Nat → Mask
  answers : MuxAnswers
  resultArray : Nat → Mask

/-- The check for one line of a rank, in the state that the lines before have left. -/
structure MuxForRank where
  rank : Rank
  nrCis_le : rank.nrCis ≤ 8
  now : Rank
  same : SameDpus rank now
  dpuId : Nat
  expected : Mask
  answers : MuxAnswers
  resultArray : Nat → Mask

/-- The six loops with what they read, without an error of the driver and with the safe checks. -/
inductive Loop where
  | muxForDpu (x : MuxForDpu)
  | muxForRank (x : MuxForRank)
  | getColorFirst (nrCis : Nat) (reads : Nat → Packets)
  | getColorSecond (nrCis : Nat) (reads : Nat → Packets)
  | restoreFirst (nrCis : Nat) (reads : Nat → Packets)
  | restoreSecond (nrCis : Nat) (reads : Nat → Packets)

/-- A loop of the debugger ends with a timeout. -/
def PollTimesOut (stable noted : Packets → Bool) (reads : Nat → Packets) : Prop :=
  pollUntil stable noted (fun k => .ok (reads k)) timeoutColor 0 false = .error .timeout

/-- The loop reports a timeout. -/
def Loop.TimesOut : Loop → Prop
  | .muxForDpu x => dpuCheckWavegenMuxStatusForDpu false x.rank x.dpuId x.expected x.answers x.resultArray = .errTimeout
  | .muxForRank x =>
    timeoutStatus false
      (muxLoopForRank (x.rank.selected SliceInfo.allEvenDisabledTarget allCis) x.expected x.dpuId x.answers
        (x.now, x.resultArray)).1 = .errTimeout
  | .getColorFirst nrCis reads => PollTimesOut (resultsShown nrCis) (nopShown nrCis) reads
  | .getColorSecond nrCis reads => PollTimesOut (typesCleared nrCis) (fun _ => false) reads
  | .restoreFirst nrCis reads => PollTimesOut (typesCleared nrCis) (fun _ => false) reads
  | .restoreSecond nrCis reads => PollTimesOut (resultsValid nrCis) (fun _ => false) reads

/-- The number of reads. -/
def Loop.allowed : Loop → Nat
  | .muxForDpu _ => timeoutMuxStatus
  | .muxForRank _ => timeoutMuxStatus
  | _ => timeoutColor

/-- Read `k` shows what the loop waits for, on every interface it has to check. -/
def Loop.Shown : Loop → Nat → Prop
  | .muxForDpu x, k => MuxesShown x.rank x.expected (x.answers k)
  | .muxForRank x, k => MuxesShown x.rank (fun _ => x.expected) (x.answers k)
  | .getColorFirst nrCis reads, k => resultsShown nrCis (reads k) = true
  | .getColorSecond nrCis reads, k => typesCleared nrCis (reads k) = true
  | .restoreFirst nrCis reads, k => typesCleared nrCis (reads k) = true
  | .restoreSecond nrCis reads, k => resultsValid nrCis (reads k) = true

/-- A timeout is reported if no read that is allowed has succeeded. -/
def Right (l : Loop) : Prop := l.TimesOut ↔ ∀ k < l.allowed, ¬l.Shown k

/-- The last read is not the only one that succeeds. -/
def HoldsWhen (l : Loop) : Prop := l.Shown (l.allowed - 1) → ∃ k < l.allowed - 1, l.Shown k

/-! ## Counting down -/

section Count

variable {σ : Type} {f : Nat → σ → σ} {g : σ → Bool} {I : σ → Prop} {P : Nat → Prop}

/-- No read from `k` on, one by one. -/
theorem none_from_succ (n k : Nat) :
    (∀ i < n + 1, ¬P (k + i)) ↔ ¬P k ∧ ∀ i < n, ¬P (k + 1 + i) := by
  rw [Nat.forall_lt_succ_left]
  simp only [Nat.add_zero, Nat.add_right_comm k 1, Nat.add_assoc]

/-- The count is used up exactly if no read before the last one succeeds. -/
theorem doWhile_eq_zero_iff (hf : ∀ k s, I s → I (f k s) ∧ (g (f k s) = true ↔ ¬P k))
    (timeout k : Nat) {s : σ} (hs : I s) :
    (doWhile f g (timeout + 1) k s).1 = 0 ↔ ∀ i < timeout, ¬P (k + i) := by
  induction timeout generalizing k s with
  | zero => simp [doWhile]
  | succ timeout ih =>
    obtain ⟨hinv, hretry⟩ := hf k s hs
    rw [doWhile, none_from_succ]
    by_cases hshown : P k
    · have hstop : ¬(timeout + 1 ≠ 0 ∧ g (f k s) = true) := fun h => hretry.mp h.2 hshown
      rw [if_neg hstop]
      exact ⟨fun h => absurd h (Nat.succ_ne_zero timeout), fun h => absurd hshown h.1⟩
    · rw [if_pos ⟨Nat.succ_ne_zero timeout, hretry.mpr hshown⟩, ih (k + 1) hinv]
      exact (and_iff_right hshown).symm

/-- The invariant after the loop. -/
theorem doWhile_inv (hf : ∀ k s, I s → I (f k s)) (timeout k : Nat) {s : σ} (hs : I s) :
    I (doWhile f g timeout k s).2 := by
  induction timeout generalizing k s with
  | zero => exact hs
  | succ timeout ih =>
    rw [doWhile]
    split
    · exact ih (k + 1) (hf k s hs)
    · exact hf k s hs

/-- With a count left, the last pass needed no other. -/
theorem doWhile_done (timeout k : Nat) {s : σ} (h : (doWhile f g timeout k s).1 ≠ 0) :
    g (doWhile f g timeout k s).2 = false := by
  induction timeout generalizing k s with
  | zero => exact absurd rfl h
  | succ timeout ih =>
    rw [doWhile] at h ⊢
    split at h
    · next hretry =>
      rw [if_pos hretry]
      exact ih (k + 1) h
    · next hretry =>
      rw [if_neg hretry]
      exact Bool.eq_false_iff.mpr fun hg => hretry ⟨h, hg⟩

/-- The same of a loop of the debugger. -/
theorem pollUntil_timeout_iff (stable noted : Packets → Bool) (reads : Nat → Packets) (timeout k : Nat) (seen : Bool) :
    pollUntil stable noted (fun k => .ok (reads k)) (timeout + 1) k seen = .error .timeout ↔
      ∀ i < timeout, ¬stable (reads (k + i)) = true := by
  induction timeout generalizing k seen with
  | zero => simp [pollUntil]
  | succ timeout ih =>
    have hsucc := none_from_succ (P := fun k => stable (reads k) = true) timeout k
    rw [pollUntil, hsucc]
    simp only [Nat.add_one_ne_zero, if_false]
    by_cases hstable : stable (reads k) = true
    · rw [if_pos hstable]
      exact ⟨fun h => absurd h nofun, fun h => absurd hstable h.1⟩
    · rw [if_neg hstable, ih (k + 1)]
      exact (and_iff_right hstable).symm

/-- What the code reports against what was read: they differ in the last read. -/
theorem all_iff_all_succ (n : Nat) :
    ((∀ i < n, ¬P i) ↔ ∀ i < n + 1, ¬P i) ↔ (P n → ∃ i < n, P i) := by
  constructor
  · intro h hlast
    by_contra hno
    have hall : ∀ i < n, ¬P i := fun i hi hshown => hno ⟨i, hi, hshown⟩
    exact h.mp hall n (Nat.lt_succ_self n) hlast
  · intro h
    refine ⟨fun hall i hi => ?_, fun hall i hi => hall i (Nat.lt_succ_of_lt hi)⟩
    rcases Nat.lt_or_eq_of_le (Nat.le_of_lt_succ hi) with hlt | rfl
    · exact hall i hlt
    · intro hlast
      obtain ⟨j, hj, hshown⟩ := h hlast
      exact hall j hj hshown

end Count

/-! ## The loops on the muxes -/

section Muxes

variable {r now : Rank} {mask ciMask : Mask}

/-- The mask has the interfaces with an enabled DPU. -/
def Enabled (r : Rank) (mask : Mask) : Prop := ∀ ci < r.nrCis, (mask.getLsbD ci = true ↔ (r.sliceInfo ci).enabledDpus ≠ 0)

theorem SameDpus.refl (r : Rank) : SameDpus r r := ⟨rfl, fun _ => rfl⟩

theorem SameDpus.select (h : SameDpus r now) (want : SliceInfo → Option SliceTarget) (mask : Mask) :
    SameDpus r (now.select want mask) := by
  refine ⟨h.nrCis, fun ci => ?_⟩
  rw [← h.enabledDpus ci, Rank.select]
  dsimp only
  split <;> rfl

theorem SameDpus.enabled (h : SameDpus r now) (hmask : Enabled now mask) : Enabled r mask := fun ci hci => by
  rw [hmask ci (h.nrCis ▸ hci), h.enabledDpus]

/-- A selection that wants a target wherever a DPU is enabled leaves those interfaces. -/
theorem enabled_selected {want : SliceInfo → Option SliceTarget} (hle : r.nrCis ≤ 8)
    (hwant : ∀ info, (want info).isNone = true ↔ info.enabledDpus = 0) : Enabled r (r.selected want allCis) := by
  intro ci hci
  have hall : ∀ k < 8, allCis.getLsbD k = true := by decide
  have h8 : ci < 8 := Nat.lt_of_lt_of_le hci hle
  have hnone := hwant (r.sliceInfo ci)
  simp only [Rank.selected, Rank.visits, gatherMask_bit, BitVec.getLsbD_and, BitVec.getLsbD_not, hall ci h8, h8, hci,
    and_self, decide_true, Bool.true_and]
  rw [Bool.not_eq_true', ← Bool.not_eq_true, hnone]

theorem dpuEvenDisabled_isNone (dpu : Nat) (info : SliceInfo) :
    (info.dpuEvenDisabledTarget dpu).isNone = true ↔ info.enabledDpus = 0 := by
  unfold SliceInfo.dpuEvenDisabledTarget
  split <;> simp_all

theorem allEvenDisabled_isNone (info : SliceInfo) : info.allEvenDisabledTarget.isNone = true ↔ info.enabledDpus = 0 := by
  unfold SliceInfo.allEvenDisabledTarget
  split <;> simp_all

/-- What is checked has been read, whatever the array held before. -/
theorem muxMismatch_iff (hnow : SameDpus r now) (hmask : Enabled r mask) (hciMask : Enabled r ciMask)
    (expected answer resultArray : Nat → Mask) :
    muxMismatch now ciMask expected (readDmaCtrl now mask answer resultArray) = true ↔ ¬MuxesShown r expected answer := by
  have hentry : ∀ ci < r.nrCis, (r.sliceInfo ci).enabledDpus ≠ 0 → readDmaCtrl now mask answer resultArray ci = answer ci := by
    intro ci hci hen
    have hvisits : now.visits mask ci = true := by
      simp only [Rank.visits, hnow.nrCis, hci, decide_true, Bool.true_and]
      exact (hmask ci hci).mpr hen
    rw [readDmaCtrl, if_pos hvisits]
  simp only [muxMismatch, List.any_eq_true, List.mem_range, Bool.and_eq_true, Bool.not_eq_true', decide_eq_false_iff_not,
    hnow.nrCis, MuxesShown, not_forall]
  constructor
  · rintro ⟨ci, hci, hbit, hne⟩
    have hen := (hciMask ci hci).mp hbit
    rw [hentry ci hci hen] at hne
    exact ⟨ci, hci, hen, hne⟩
  · rintro ⟨ci, hci, hen, hne⟩
    refine ⟨ci, hci, (hciMask ci hci).mpr hen, ?_⟩
    rw [hentry ci hci hen]
    exact hne

theorem timeoutStatus_iff (timeout : Nat) : timeoutStatus false timeout = .errTimeout ↔ timeout = 0 := by
  unfold timeoutStatus
  by_cases h : timeout = 0 <;> simp [h]

theorem muxForDpu_timeout_iff (hle : r.nrCis ≤ 8) (dpuId : Nat) (expected : Nat → Mask) (answers : MuxAnswers)
    (resultArray : Nat → Mask) :
    dpuCheckWavegenMuxStatusForDpu false r dpuId expected answers resultArray = .errTimeout ↔
      ∀ k < timeoutMuxStatus - 1, ¬MuxesShown r expected (answers k) := by
  have hmask := enabled_selected hle (dpuEvenDisabled_isNone dpuId)
  have hcount := doWhile_eq_zero_iff (I := fun _ => True) (P := fun k => MuxesShown r expected (answers k))
    (fun k a _ => ⟨trivial, muxMismatch_iff ((SameDpus.refl r).select (SliceInfo.dpuEvenDisabledTarget · dpuId) allCis)
      hmask hmask expected (answers k) a⟩) 99 0 (s := resultArray) trivial
  rw [dpuCheckWavegenMuxStatusForDpu, timeoutStatus_iff]
  simp only [Nat.zero_add] at hcount
  exact hcount

theorem muxPass_spec (hle : r.nrCis ≤ 8) (hciMask : Enabled r ciMask) (dpuId : Nat) (expected : Mask) (answer : Nat → Mask)
    {s : Rank × (Nat → Mask)} (hs : SameDpus r s.1) :
    SameDpus r (muxPassForRank dpuId answer s).1 ∧
      (muxMismatch (muxPassForRank dpuId answer s).1 ciMask (fun _ => expected) (muxPassForRank dpuId answer s).2 = true ↔
        ¬MuxesShown r (fun _ => expected) answer) := by
  have hnow := hs.select (SliceInfo.dpuEvenDisabledTarget · dpuId) allCis
  have hmask := hs.enabled (enabled_selected (by rw [hs.nrCis]; exact hle) (dpuEvenDisabled_isNone dpuId))
  exact ⟨hnow, muxMismatch_iff hnow hmask hciMask _ _ _⟩

/-- The loop for a line, and what it leaves for the next. -/
theorem muxLoopForRank_spec (hle : r.nrCis ≤ 8) (hciMask : Enabled r ciMask) (dpuId : Nat) (expected : Mask)
    (answers : MuxAnswers) {s : Rank × (Nat → Mask)} (hs : SameDpus r s.1) :
    SameDpus r (muxLoopForRank ciMask expected dpuId answers s).2.1 ∧
      ((muxLoopForRank ciMask expected dpuId answers s).1 = 0 ↔
        ∀ k < timeoutMuxStatus - 1, ¬MuxesShown r (fun _ => expected) (answers k)) := by
  have hpass := fun k s hs => muxPass_spec (s := s) hle hciMask dpuId expected (answers k) hs
  have hcount := doWhile_eq_zero_iff (I := fun s : Rank × (Nat → Mask) => SameDpus r s.1)
    (f := fun k s => muxPassForRank dpuId (answers k) s) (g := fun s => muxMismatch s.1 ciMask (fun _ => expected) s.2)
    (P := fun k => MuxesShown r (fun _ => expected) (answers k)) hpass 99 0 hs
  simp only [Nat.zero_add] at hcount
  exact ⟨doWhile_inv (I := fun s : Rank × (Nat → Mask) => SameDpus r s.1) (fun k s hs => (hpass k s hs).1) _ 0 hs, hcount⟩

/-- The check of a rank fails at the first line whose loop does. -/
theorem muxForRank_timeout_iff (hle : r.nrCis ≤ 8) (expected : Mask) (answers : Nat → MuxAnswers) (resultArray : Nat → Mask) :
    dpuCheckWavegenMuxStatusForRank false r expected answers resultArray = .errTimeout ↔
      ∃ dpuId < r.nrDpus, ∀ k < timeoutMuxStatus - 1, ¬MuxesShown r (fun _ => expected) (answers dpuId k) := by
  have hciMask := enabled_selected hle allEvenDisabled_isNone
  have hlines : ∀ lines (s : Rank × (Nat → Mask)), SameDpus r s.1 →
      (checkLines false (r.selected SliceInfo.allEvenDisabledTarget allCis) expected answers lines s = .errTimeout ↔
        ∃ dpuId ∈ lines, ∀ k < timeoutMuxStatus - 1, ¬MuxesShown r (fun _ => expected) (answers dpuId k)) := by
    intro lines
    induction lines with
    | nil => simp [checkLines]
    | cons dpuId lines ih =>
      intro s hs
      obtain ⟨hnext, hcount⟩ := muxLoopForRank_spec hle hciMask dpuId expected (answers dpuId) hs
      rw [checkLines, List.exists_mem_cons_iff, ← hcount]
      dsimp only
      by_cases hzero : (muxLoopForRank (r.selected SliceInfo.allEvenDisabledTarget allCis) expected dpuId (answers dpuId) s).1 = 0
      · rw [if_pos hzero, timeoutStatus_iff]
        exact ⟨fun _ => .inl hzero, fun _ => hzero⟩
      · rw [if_neg hzero, ih _ hnext]
        exact (or_iff_right hzero).symm
  have hrun := hlines (List.range r.nrDpus) (r.select SliceInfo.allEvenDisabledTarget allCis, resultArray)
    ((SameDpus.refl r).select _ _)
  simp only [List.mem_range] at hrun
  exact hrun

end Muxes

/-! ## What the loops report -/

/-- A timeout is reported if no read before the last one succeeds. -/
theorem timesOut_iff (l : Loop) : l.TimesOut ↔ ∀ k < l.allowed - 1, ¬l.Shown k := by
  have hpoll : ∀ stable noted reads, PollTimesOut stable noted reads ↔ ∀ k < timeoutColor - 1, ¬stable (reads k) = true := by
    intro stable noted reads
    have hcount := pollUntil_timeout_iff stable noted reads 99999 0 false
    simp only [Nat.zero_add] at hcount
    exact hcount
  cases l with
  | muxForDpu x => exact muxForDpu_timeout_iff x.nrCis_le _ _ _ _
  | muxForRank x =>
    rw [Loop.TimesOut, timeoutStatus_iff]
    exact (muxLoopForRank_spec x.nrCis_le (enabled_selected x.nrCis_le allEvenDisabled_isNone) _ _ _ x.same).2
  | getColorFirst nrCis reads => exact hpoll _ _ _
  | getColorSecond nrCis reads => exact hpoll _ _ _
  | restoreFirst nrCis reads => exact hpoll _ _ _
  | restoreSecond nrCis reads => exact hpoll _ _ _

theorem allowed_pos (l : Loop) : l.allowed = l.allowed - 1 + 1 := by
  cases l <;> rfl

/-- A loop reports what it has read unless only the last read succeeds. -/
theorem right_iff (l : Loop) : Right l ↔ HoldsWhen l := by
  have hlast := all_iff_all_succ (P := l.Shown) (l.allowed - 1)
  rw [← allowed_pos] at hlast
  rw [Right, timesOut_iff]
  exact hlast

/-- One interface, and a type that is cleared in the last read. -/
def lastRead : Loop := .restoreFirst 1 fun k _ => if k = 99999 then 0 else unfinished

theorem lastRead_shown (k : Nat) : lastRead.Shown k ↔ k = 99999 := by
  show typesCleared 1 (fun _ => if k = 99999 then 0 else unfinished) = true ↔ k = 99999
  by_cases h : k = 99999
  · simp only [h, if_true, iff_true]
    decide
  · simp only [h, if_false, iff_false]
    decide

theorem lastRead_missed : ¬Right lastRead := by
  have hallowed : lastRead.allowed - 1 = 99999 := rfl
  rw [right_iff, HoldsWhen, hallowed]
  intro h
  obtain ⟨k, hk, hshown⟩ := h ((lastRead_shown _).mpr rfl)
  exact Nat.ne_of_lt hk ((lastRead_shown k).mp hshown)

end DpuBackend.Ufi.PollingBudget
