import DpuBackend.Ufi.PollingBudget
import Mathlib.Tactic.IntervalCases

/-
  The record of the muxes on a link whose commands may fail.

  A switch records the side of its lines, has the muxes switched and reads their
  control words back. The record is written first and stays as it is where one of
  the later parts fails, so that the next call for the same side finds nothing to
  do. `switches_confirmed` is about every run of calls, each with what becomes of
  its commands: as long as all of them are committed, a call that returns
  `DPU_OK` leaves the muxes of its lines on the requested side, if none of the
  lines that it leaves alone was recorded by a call that did not return `DPU_OK`.

  The side of a mux is what its control word says, by the bits that the checks
  compare. While every command is committed, the interfaces have the targets that
  the host has recorded, and the words of the DPUs that a switch does not reach
  stay. From the first command on that is not, what a command does is anything.

  Correspondence (C ↔ Lean):
    `MUX_DPU_BANK_CTRL` .. `WAVEGEN_MUX_DPU_EXPECTED`      ↔ `muxDpuBankCtrl` .. `wavegenMuxDpuExpected`
    `ufi_set_mram_mux`                                     ↔ `State.setMramMux`
    `dpu_check_wavegen_mux_status_for_dpu`, `.._for_rank`  ↔ `dpuCheckWavegenMuxStatusForDpu`, `.._ForRank`
    `host_handle_access_for_dpu`, `.._for_rank`            ↔ `hostHandleAccessForDpu`, `hostHandleAccessForRank`
    `dpu_switch_mux_for_dpu_line`, `.._for_rank`           ↔ `dpuSwitchMuxForDpuLine`, `dpuSwitchMuxForRank`
  with the safe checks, and with the records and the targets of `Ufi.Rank`, whose
  own muxes have no part here.
-/

namespace DpuBackend.Ufi.MuxRecord

open DpuBackend.Lib
open PollingBudget hiding Status dpuCheckWavegenMuxStatusForDpu dpuCheckWavegenMuxStatusForRank checkLines

/-! ## The control words -/

def muxDpuBankCtrl : Mask := 1
def muxDpuWriteCtrl : Mask := 2

def wavegenMuxHostExpected : Mask := 0
def wavegenMuxDpuExpected : Mask := muxDpuBankCtrl ||| muxDpuWriteCtrl

def muxExpected (host : Bool) : Mask := if host then wavegenMuxHostExpected else wavegenMuxDpuExpected

/-- The mux is on the side of the host, or on that of the DPU; between them it is on neither. -/
def OnSide (host : Bool) (word : Mask) : Prop := word &&& 0x7B = muxExpected host

instance (host : Bool) (word : Mask) : Decidable (OnSide host word) := inferInstanceAs (Decidable (_ = _))

inductive Status where
  | ok
  | mramBusy
  | timeout
  /-- The driver could not commit a command, or update the results. -/
  | driver
deriving DecidableEq, Repr

/-- The parts of an access that send commands; the check ends with a loop for each line. -/
inductive Stage where
  | select
  | switch
  | check
  | loop (dpuId : Nat)
deriving DecidableEq, Repr

/-- What becomes of an access: the part in which a command fails, the control
words behind the commands that switch the muxes, and what the check reads, for
each line and on top of what the stack held. -/
structure Access where
  fails : Option Stage
  switched : Nat → Nat → Mask
  answers : Nat → MuxAnswers
  resultArray : Nat → Mask

/-- The records of the host, whether every command so far was committed, and the
control word of each DPU of each interface. -/
structure State where
  rank : Rank
  committed : Bool
  word : Nat → Nat → Mask

/-! ## One access -/

/-- `do_select`: an interface that is visited gets another target. -/
def doSelect (r : Rank) (want : SliceInfo → Option SliceTarget) (mask : Mask) : Bool :=
  (List.range r.nrCis).any fun ci =>
    r.visits mask ci &&
      decide (((r.sliceInfo ci).retarget (want (r.sliceInfo ci))).sliceTarget ≠ (r.sliceInfo ci).sliceTarget)

/-- A command fails: the targets and structures recorded are no longer those of the interfaces. -/
def State.fail (s : State) : Status × State := (.driver, { s with committed := false })

/-- Commands to targets that are not known. -/
def State.stray (a : Access) (s : State) : State := if s.committed then s else { s with word := a.switched }

def State.setMramMux (a : Access) (mask : Mask) (s : State) : State :=
  { s with word := fun ci i => if (s.rank.reached mask ci).getLsbD i then a.switched ci i else s.word ci i }

/-- The words of a line are those last read, where the line is the one that was read. -/
def State.readBack (mask : Mask) (dpuId : Nat) (resultArray : Nat → Mask) (s : State) : State :=
  { s with
    word := fun ci i =>
      if s.committed && decide (i = dpuId) && s.rank.visits mask ci then resultArray ci else s.word ci i }

def dpuCheckWavegenMuxStatusForDpu (a : Access) (dpuId : Nat) (expected : Nat → Mask) (s : State) : Status × State :=
  let ciMask := s.rank.selected (SliceInfo.dpuEvenDisabledTarget · dpuId) allCis
  let s := { s with rank := s.rank.select (SliceInfo.dpuEvenDisabledTarget · dpuId) allCis }
  if a.fails = some .check ∨ a.fails = some (.loop dpuId) then s.fail
  else
    let (timeout, resultArray) := muxLoopForDpu s.rank ciMask expected (a.answers dpuId) a.resultArray
    (if timeout = 0 then .timeout else .ok, s.readBack ciMask dpuId resultArray)

/-- The loop over the lines. -/
def checkLines (a : Access) (ciMask expected : Mask) : List Nat → (Nat → Mask) → State → Status × State
  | [], _, s => (.ok, s)
  | dpuId :: lines, resultArray, s =>
    if a.fails = some (.loop dpuId) then
      { s with rank := s.rank.select (SliceInfo.dpuEvenDisabledTarget · dpuId) allCis }.fail
    else
      let (timeout, rank, resultArray) := muxLoopForRank ciMask expected dpuId (a.answers dpuId) (s.rank, resultArray)
      let s := { s with rank }.readBack ciMask dpuId resultArray
      if timeout = 0 then (.timeout, s) else checkLines a ciMask expected lines resultArray s

def dpuCheckWavegenMuxStatusForRank (a : Access) (expected : Mask) (s : State) : Status × State :=
  let ciMask := s.rank.selected SliceInfo.allEvenDisabledTarget allCis
  let s := { s with rank := s.rank.select SliceInfo.allEvenDisabledTarget allCis }
  if a.fails = some .check then s.fail
  else checkLines a ciMask expected (List.range s.rank.nrDpus) a.resultArray s

/-- The commands of both accesses up to the check. -/
def switchMuxes (a : Access) (want : SliceInfo → Option SliceTarget) (check : State → Status × State) (s : State) :
    Status × State :=
  let s := s.stray a
  let mask := s.rank.selected want allCis
  let selects := doSelect s.rank want allCis
  let s := { s with rank := s.rank.select want allCis }
  if selects ∧ a.fails = some .select then s.fail
  else
    let s := s.setMramMux a mask
    if a.fails = some .switch then s.fail else check s

def hostHandleAccessForDpu (a : Access) (dpuId : Nat) (ciMuxPos : Mask) : State → Status × State :=
  switchMuxes a (SliceInfo.dpuEvenDisabledTarget · dpuId)
    (dpuCheckWavegenMuxStatusForDpu a dpuId fun ci => muxExpected (ciMuxPos.getLsbD ci))

def hostHandleAccessForRank (a : Access) (setMuxForHost : Bool) : State → Status × State :=
  switchMuxes a SliceInfo.allEvenDisabledTarget (dpuCheckWavegenMuxStatusForRank a (muxExpected setMuxForHost))

/-! ## The calls -/

/-- `run_mask`: the lines to switch. -/
def runMask (r : Rank) (dpuId : Nat) (mask : Mask) : Mask :=
  let runMask := if r.switchBase dpuId mask then dpuMaskSelect dpuMaskEmpty (pairBase dpuId) else dpuMaskEmpty
  if r.switchFriend dpuId mask then dpuMaskSelect runMask (pairBase dpuId + 1) else runMask

/-- Switch the hardware of a line if it is to be switched. -/
def accessIf (switch : Bool) (a : Access) (dpuId : Nat) (mask : Mask) (s : State) : Status × State :=
  if switch then hostHandleAccessForDpu a dpuId mask s else (.ok, s)

def dpuSwitchMuxForDpuLine (dpuId : Nat) (mask : Mask) (base friend : Access) (s : State) : Status × State :=
  let switchBaseLine := s.rank.switchBase dpuId mask
  let switchFriendLine := s.rank.switchFriend dpuId mask
  if !switchBaseLine && !switchFriendLine then (.ok, s)
  else if s.rank.nbRunning (runMask s.rank dpuId mask) > 0 then (.mramBusy, s)
  else
    -- recorded before the hardware is switched
    let s := { s with rank := s.rank.recordPair dpuId mask }
    if !s.rank.apiMustSwitchMramMux then (.ok, s)
    else
      match accessIf switchBaseLine base (pairBase dpuId) mask s with
      | (.ok, s) => accessIf switchFriendLine friend (pairBase dpuId + 1) mask s
      | out => out

def dpuSwitchMuxForRank (setMuxForHost : Bool) (access : Access) (s : State) : Status × State :=
  if s.rank.runContext.nbDpuRunning > 0 then (.mramBusy, s)
  else if !s.rank.mustSwitchRank setMuxForHost then (.ok, s)
  else
    let s := { s with rank := s.rank.recordMuxRank setMuxForHost }
    if !s.rank.apiMustSwitchMramMux && !s.rank.initMramMux then (.ok, s)
    else hostHandleAccessForRank access setMuxForHost s

/-- A call, with what becomes of the accesses that it makes. -/
inductive Op where
  | line (dpuId : Nat) (mask : Mask) (base friend : Access)
  | rank (setMuxForHost : Bool) (access : Access)

def Op.run : Op → State → Status × State
  | .line dpuId mask base friend => dpuSwitchMuxForDpuLine dpuId mask base friend
  | .rank setMuxForHost access => dpuSwitchMuxForRank setMuxForHost access

/-! ## What a call names, records and leaves alone -/

namespace Op

/-- The lines that the call names. -/
def Names (r : Rank) : Op → Nat → Prop
  | line dpuId _ _ _, i => r.OnPair dpuId i
  | rank _ _, _ => True

/-- The side that it requests on an interface. -/
def side : Op → Nat → Bool
  | line _ mask _ _, ci => mask.getLsbD ci
  | rank setMuxForHost _, _ => setMuxForHost

/-- DPUs that run refuse the call. -/
def Refused (r : Rank) : Op → Prop
  | line dpuId mask _ _ => 0 < r.nbRunning (runMask r dpuId mask)
  | rank _ _ => 0 < r.runContext.nbDpuRunning

/-- The lines that are not recorded on the requested side. -/
def Switches (r : Rank) : Op → Nat → Prop
  | line dpuId mask _ _, i => r.Switched dpuId mask i
  | rank setMuxForHost _, _ => r.mustSwitchRank setMuxForHost = true

/-- The lines that it records. -/
def Records (r : Rank) (op : Op) (i : Nat) : Prop := ¬op.Refused r ∧ op.Switches r i

/-- Every command of the accesses is committed. -/
def Commits (r : Rank) : Op → Prop
  | line dpuId mask base friend =>
    (r.switchBase dpuId mask = true → base.fails = none) ∧ (r.switchFriend dpuId mask = true → friend.fails = none)
  | rank setMuxForHost access => r.mustSwitchRank setMuxForHost = true → access.fails = none

/-- The DPU of the call is one of the rank. -/
def Valid (r : Rank) : Op → Prop
  | line dpuId _ _ _ => dpuId < r.nrDpus
  | rank _ _ => True

/-- The lines recorded by a call that did not return `DPU_OK`, and not since by one that did. -/
def unsure (op : Op) (s : State) (before : Nat → Prop) (i : Nat) : Prop :=
  (op.Records s.rank i ∧ (op.run s).1 ≠ .ok) ∨ (¬op.Records s.rank i ∧ before i)

end Op

/-- A call that returns `DPU_OK` leaves the muxes of its lines on the requested
side, on the interfaces that have an enabled DPU. -/
def Right (s : State) (op : Op) : Prop :=
  (op.run s).1 = .ok → ∀ ci < s.rank.nrCis, (s.rank.sliceInfo ci).enabledDpus ≠ 0 →
    ∀ i < s.rank.nrDpus, op.Names s.rank i → OnSide (op.side ci) ((op.run s).2.word ci i)

/-- If a call is not refused, its commands are committed, and the lines that it
names and leaves alone are not unsure. -/
def Reliable (s : State) (unsure : Nat → Prop) (op : Op) : Prop :=
  ¬op.Refused s.rank →
    op.Commits s.rank ∧ ∀ i < s.rank.nrDpus, op.Names s.rank i → ¬op.Switches s.rank i → ¬unsure i

def AlwaysRight : State → List Op → Prop
  | _, [] => True
  | s, op :: ops => Right s op ∧ AlwaysRight (op.run s).2 ops

def AlwaysReliable : State → (Nat → Prop) → List Op → Prop
  | _, _, [] => True
  | s, unsure, op :: ops => Reliable s unsure op ∧ AlwaysReliable (op.run s).2 (op.unsure s unsure) ops

/-- A rank whose muxes are switched by the API and are where the records say, on
a link that has committed every command, and calls for its DPUs. -/
structure Run where
  start : State
  nrCis_le : start.rank.nrCis ≤ 8
  nrDpus_le : start.rank.nrDpus ≤ 8
  mustSwitch : start.rank.apiMustSwitchMramMux = true
  committed : start.committed = true
  recorded : ∀ ci < start.rank.nrCis, ∀ i, start.rank.hostMux ci i = true → i < start.rank.nrDpus
  synced : ∀ ci < start.rank.nrCis, (start.rank.sliceInfo ci).enabledDpus ≠ 0 →
    ∀ i < start.rank.nrDpus, OnSide (start.rank.hostMux ci i) (start.word ci i)
  ops : List Op
  valid : ∀ op ∈ ops, op.Valid start.rank

/-! ## One access -/

section Access

variable {s : State} {a : Access} {dpuId : Nat} {mask : Mask}

theorem stray_of_committed (hcommitted : s.committed = true) (a : Access) : s.stray a = s := by
  rw [State.stray, if_pos hcommitted]

/-- Behind the commands that switch, where they are committed. -/
def State.switched (a : Access) (want : SliceInfo → Option SliceTarget) (s : State) : State :=
  { s with rank := s.rank.select want allCis }.setMramMux a (s.rank.selected want allCis)

/-- An access whose commands are committed comes to its check. -/
theorem switchMuxes_of_commits (hcommitted : s.committed = true) (ha : a.fails = none)
    (want : SliceInfo → Option SliceTarget) (check : State → Status × State) :
    switchMuxes a want check s = check (s.switched a want) := by
  simp only [switchMuxes, State.switched, stray_of_committed hcommitted, ha, reduceCtorEq, and_false, if_false]

/-- No mismatch in what was read last: every interface with an enabled DPU shows the side. -/
theorem muxesShown_of_not_mismatch {r now : Rank} {ciMask : Mask} {expected resultArray : Nat → Mask}
    (hnow : SameDpus r now) (hciMask : Enabled r ciMask) (h : muxMismatch now ciMask expected resultArray = false) :
    MuxesShown r expected resultArray := by
  intro ci hci hen
  have hentry := List.any_eq_false.mp h ci (List.mem_range.mpr (hnow.nrCis ▸ hci))
  rw [(hciMask ci hci).mpr hen, Bool.true_and, Bool.not_eq_true', decide_eq_false_iff_not, not_not] at hentry
  exact hentry

theorem readBack_other {i : Nat} (hi : i ≠ dpuId) (mask : Mask) (resultArray : Nat → Mask) (ci : Nat) :
    (s.readBack mask dpuId resultArray).word ci i = s.word ci i := by
  simp [State.readBack, hi]

theorem readBack_line (hcommitted : s.committed = true) {ci : Nat} (hvisits : s.rank.visits mask ci = true)
    (resultArray : Nat → Mask) : (s.readBack mask dpuId resultArray).word ci dpuId = resultArray ci := by
  simp [State.readBack, hcommitted, hvisits]

theorem visits_of_enabled {r now : Rank} {ciMask : Mask} (hnow : SameDpus r now) (hciMask : Enabled r ciMask) {ci : Nat}
    (hci : ci < r.nrCis) (hen : (r.sliceInfo ci).enabledDpus ≠ 0) : now.visits ciMask ci = true := by
  rw [Rank.visits, hnow.nrCis, (hciMask ci hci).mpr hen, decide_eq_true hci]
  rfl

/-- What the accesses to some lines leave. -/
structure LineAccess (s : State) (lines : Nat → Prop) (mask : Mask) (out : Status × State) : Prop where
  quiet : Quiet s.rank out.2.rank
  committed : out.2.committed = true
  others : ∀ ci < s.rank.nrCis, (s.rank.sliceInfo ci).enabledDpus ≠ 0 → ∀ i, ¬lines i →
    out.2.word ci i = s.word ci i
  confirmed : out.1 = .ok → ∀ ci < s.rank.nrCis, (s.rank.sliceInfo ci).enabledDpus ≠ 0 → ∀ i, lines i →
    OnSide (mask.getLsbD ci) (out.2.word ci i)

theorem muxLoopForDpu_done {r now : Rank} {ciMask : Mask} (hnow : SameDpus r now) (hciMask : Enabled r ciMask)
    (expected : Nat → Mask) (answers : MuxAnswers) (resultArray : Nat → Mask)
    (h : (muxLoopForDpu now ciMask expected answers resultArray).1 ≠ 0) :
    MuxesShown r expected (muxLoopForDpu now ciMask expected answers resultArray).2 :=
  muxesShown_of_not_mismatch hnow hciMask (doWhile_done _ _ h)

theorem dpuCheckWavegenMuxStatusForDpu_spec (hcommitted : s.committed = true) (hcis : s.rank.nrCis ≤ 8)
    (ha : a.fails = none) (dpuId : Nat) (mask : Mask) :
    LineAccess s (· = dpuId) mask
      (dpuCheckWavegenMuxStatusForDpu a dpuId (fun ci => muxExpected (mask.getLsbD ci)) s) := by
  have hnow := (SameDpus.refl s.rank).select (SliceInfo.dpuEvenDisabledTarget · dpuId) allCis
  have hciMask := enabled_selected hcis (dpuEvenDisabled_isNone dpuId)
  have hquiet := s.rank.select_quiet (SliceInfo.dpuEvenDisabledTarget · dpuId) allCis
  have hdone := muxLoopForDpu_done hnow hciMask (fun ci => muxExpected (mask.getLsbD ci)) (a.answers dpuId)
    a.resultArray
  simp only [dpuCheckWavegenMuxStatusForDpu, ha, reduceCtorEq, or_self, if_false]
  generalize muxLoopForDpu _ _ _ _ _ = loop at hdone ⊢
  generalize s.rank.select _ _ = now at hnow hquiet ⊢
  generalize s.rank.selected _ _ = ciMask at hciMask ⊢
  obtain ⟨timeout, resultArray⟩ := loop
  refine ⟨hquiet, hcommitted, ?_, ?_⟩
  · intro ci _ _ i hi
    exact readBack_other hi _ _ _
  · intro hok ci hci hen i hi
    obtain rfl := hi
    have hcount : timeout ≠ 0 := by
      intro hzero
      dsimp only at hok
      rw [if_pos hzero] at hok
      cases hok
    dsimp only
    rw [readBack_line (s := { s with rank := now }) hcommitted (visits_of_enabled hnow hciMask hci hen)]
    exact hdone hcount ci hci hen

/-- A committed switch reaches the DPUs of the target that the interfaces are given. -/
theorem switched_word {want : SliceInfo → Option SliceTarget} {t : SliceTarget} {ci i : Nat} (hcis : s.rank.nrCis ≤ 8)
    (hci : ci < s.rank.nrCis) (hwant : want (s.rank.sliceInfo ci) = some t) :
    (s.switched a want).word ci i =
      if ((((s.rank.sliceInfo ci).retarget (some t)).selectedDpuMask s.rank.nrDpus).getD 0).getLsbD i then
        a.switched ci i
      else s.word ci i := by
  rw [State.switched, State.setMramMux]
  dsimp only
  rw [s.rank.reached_select hci (Nat.lt_of_lt_of_le hci hcis) hwant]

theorem switched_quiet (s : State) (a : Access) (want : SliceInfo → Option SliceTarget) :
    Quiet s.rank (s.switched a want).rank := s.rank.select_quiet want allCis

theorem hostHandleAccessForDpu_spec (hcommitted : s.committed = true) (hcis : s.rank.nrCis ≤ 8) (ha : a.fails = none)
    (dpuId : Nat) (mask : Mask) : LineAccess s (· = dpuId) mask (hostHandleAccessForDpu a dpuId mask s) := by
  have hquiet := switched_quiet s a (SliceInfo.dpuEvenDisabledTarget · dpuId)
  have hcheck := dpuCheckWavegenMuxStatusForDpu_spec (s := s.switched a (SliceInfo.dpuEvenDisabledTarget · dpuId))
    hcommitted (hquiet.nrCis ▸ hcis) ha dpuId mask
  rw [hostHandleAccessForDpu, switchMuxes_of_commits hcommitted ha]
  refine ⟨hquiet.trans hcheck.quiet, hcheck.committed, ?_, ?_⟩
  · intro ci hci hen i hi
    rw [hcheck.others ci (hquiet.nrCis ▸ hci) (hquiet.enabled ci ▸ hen) i hi,
      switched_word hcis hci (t := .dpu dpuId) (if_pos hen)]
    -- only the DPU selected is reached
    simp [SliceInfo.selectedDpuMask, SliceInfo.retarget, hi, -BitVec.getLsbD_eq_getElem]
  · intro hok ci hci hen
    exact hcheck.confirmed hok ci (hquiet.nrCis ▸ hci) (hquiet.enabled ci ▸ hen)

theorem accessIf_spec (hcommitted : s.committed = true) (hcis : s.rank.nrCis ≤ 8) {switch : Bool}
    (ha : switch = true → a.fails = none) (dpuId : Nat) (mask : Mask) :
    LineAccess s (fun i => switch = true ∧ i = dpuId) mask (accessIf switch a dpuId mask s) := by
  cases switch with
  | false =>
    refine ⟨⟨Frame.refl _, fun _ _ => rfl⟩, hcommitted, fun _ _ _ _ _ => rfl, ?_⟩
    intro _ _ _ _ i hi
    exact absurd hi.1 Bool.false_ne_true
  | true =>
    have haccess := hostHandleAccessForDpu_spec hcommitted hcis (ha rfl) dpuId mask
    refine ⟨haccess.quiet, haccess.committed, ?_, ?_⟩
    · intro ci hci hen i hi
      exact haccess.others ci hci hen i fun h => hi ⟨rfl, h⟩
    · intro hok ci hci hen i hi
      exact haccess.confirmed hok ci hci hen i hi.2

/-- Accesses that did not end well leave no line confirmed. -/
theorem LineAccess.of_failed {lines lines' : Nat → Prop} {out : Status × State} (h : LineAccess s lines mask out)
    (hsub : ∀ i, lines i → lines' i) (hfailed : out.1 ≠ .ok) : LineAccess s lines' mask out :=
  ⟨h.quiet, h.committed, fun ci hci hen i hi => h.others ci hci hen i fun hline => hi (hsub i hline),
    fun hok => absurd hok hfailed⟩

/-- Accesses that ended well, and then others. -/
theorem LineAccess.trans {lines lines' : Nat → Prop} {out out' : Status × State} (h : LineAccess s lines mask out)
    (hok : out.1 = .ok) (h' : LineAccess out.2 lines' mask out') :
    LineAccess s (fun i => lines i ∨ lines' i) mask out' := by
  refine ⟨h.quiet.trans h'.quiet, h'.committed, ?_, ?_⟩
  · intro ci hci hen i hi
    rw [not_or] at hi
    rw [h'.others ci (h.quiet.nrCis ▸ hci) (h.quiet.enabled ci ▸ hen) i hi.2]
    exact h.others ci hci hen i hi.1
  · intro hok' ci hci hen i hi
    by_cases hline : lines' i
    · exact h'.confirmed hok' ci (h.quiet.nrCis ▸ hci) (h.quiet.enabled ci ▸ hen) i hline
    · -- the later ones leave what the first have confirmed
      rw [h'.others ci (h.quiet.nrCis ▸ hci) (h.quiet.enabled ci ▸ hen) i hline]
      exact h.confirmed hok ci hci hen i (hi.resolve_right hline)

theorem sameDpus_of_quiet {r now : Rank} (h : Quiet r now) : SameDpus r now := ⟨h.nrCis, h.enabled⟩

theorem muxLoopForRank_done {r : Rank} {ciMask : Mask} (hciMask : Enabled r ciMask) (expected : Mask) (dpuId : Nat)
    (answers : MuxAnswers) (before : Rank × (Nat → Mask)) (hbefore : Quiet r before.1) :
    Quiet r (muxLoopForRank ciMask expected dpuId answers before).2.1 ∧
      ((muxLoopForRank ciMask expected dpuId answers before).1 ≠ 0 →
        MuxesShown r (fun _ => expected) (muxLoopForRank ciMask expected dpuId answers before).2.2) := by
  have hpass : ∀ k (s : Rank × (Nat → Mask)), Quiet r s.1 → Quiet r (muxPassForRank dpuId (answers k) s).1 :=
    fun _ s hs => hs.trans (s.1.select_quiet (SliceInfo.dpuEvenDisabledTarget · dpuId) allCis)
  have hquiet : Quiet r (muxLoopForRank ciMask expected dpuId answers before).2.1 :=
    doWhile_inv (I := fun s : Rank × (Nat → Mask) => Quiet r s.1) hpass _ _ hbefore
  exact ⟨hquiet, fun h => muxesShown_of_not_mismatch (sameDpus_of_quiet hquiet) hciMask (doWhile_done _ _ h)⟩

/-- Each line that the loop is done with has been read on the side expected. -/
theorem checkLines_spec {r : Rank} {ciMask : Mask} (hciMask : Enabled r ciMask) (ha : a.fails = none) (host : Bool) :
    ∀ (lines : List Nat) (resultArray : Nat → Mask) (s : State), lines.Nodup → s.committed = true → Quiet r s.rank →
      Quiet r (checkLines a ciMask (muxExpected host) lines resultArray s).2.rank ∧
      (checkLines a ciMask (muxExpected host) lines resultArray s).2.committed = true ∧
      (∀ ci, ∀ i, i ∉ lines → (checkLines a ciMask (muxExpected host) lines resultArray s).2.word ci i = s.word ci i) ∧
      ((checkLines a ciMask (muxExpected host) lines resultArray s).1 = .ok → ∀ i ∈ lines, ∀ ci < r.nrCis,
        (r.sliceInfo ci).enabledDpus ≠ 0 →
          OnSide host ((checkLines a ciMask (muxExpected host) lines resultArray s).2.word ci i))
  | [], _, s, _, hcommitted, hquiet => ⟨hquiet, hcommitted, fun _ _ _ => rfl, fun _ _ hi => by cases hi⟩
  | dpuId :: lines, resultArray, s, hnodup, hcommitted, hquiet => by
    obtain ⟨hnot, hrest⟩ := List.nodup_cons.mp hnodup
    obtain ⟨hafter, hdone⟩ := muxLoopForRank_done hciMask (muxExpected host) dpuId (a.answers dpuId)
      (s.rank, resultArray) hquiet
    rw [checkLines, if_neg (by simp [ha])]
    generalize muxLoopForRank _ _ _ _ _ = loop at hafter hdone ⊢
    obtain ⟨timeout, rank, resultArray⟩ := loop
    dsimp only at hafter hdone ⊢
    by_cases hzero : timeout = 0
    · rw [if_pos hzero]
      refine ⟨hafter, hcommitted, ?_, fun hok => by cases hok⟩
      intro ci i hi
      rw [List.mem_cons, not_or] at hi
      exact readBack_other (s := { s with rank }) hi.1 _ _ _
    · rw [if_neg hzero]
      obtain ⟨hq, hc, hothers, hconfirmed⟩ := checkLines_spec hciMask ha host lines resultArray
        ({ s with rank }.readBack ciMask dpuId resultArray) hrest hcommitted hafter
      refine ⟨hq, hc, ?_, ?_⟩
      · intro ci i hi
        rw [List.mem_cons, not_or] at hi
        rw [hothers ci i hi.2]
        exact readBack_other (s := { s with rank }) hi.1 _ _ _
      · intro hok i hi ci hci hen
        rcases List.mem_cons.mp hi with rfl | hi
        · -- the line just read is not among those that follow
          rw [hothers ci i hnot, readBack_line (s := { s with rank }) hcommitted
            (visits_of_enabled (sameDpus_of_quiet hafter) hciMask hci hen)]
          exact hdone hzero ci hci hen
        · exact hconfirmed hok i hi ci hci hen

/-- What an access to the rank leaves. -/
structure RankAccess (s : State) (host : Bool) (out : Status × State) : Prop where
  quiet : Quiet s.rank out.2.rank
  committed : out.2.committed = true
  confirmed : out.1 = .ok → ∀ ci < s.rank.nrCis, (s.rank.sliceInfo ci).enabledDpus ≠ 0 → ∀ i < s.rank.nrDpus,
    OnSide host (out.2.word ci i)

theorem hostHandleAccessForRank_spec (hcommitted : s.committed = true) (hcis : s.rank.nrCis ≤ 8) (ha : a.fails = none)
    (host : Bool) : RankAccess s host (hostHandleAccessForRank a host s) := by
  have hquiet := switched_quiet s a SliceInfo.allEvenDisabledTarget
  have hselected := (s.switched a SliceInfo.allEvenDisabledTarget).rank.select_quiet SliceInfo.allEvenDisabledTarget
    allCis
  have hciMask := (sameDpus_of_quiet hquiet).enabled (enabled_selected (hquiet.nrCis ▸ hcis) allEvenDisabled_isNone)
  have hcheck := checkLines_spec hciMask ha host (List.range (s.switched a SliceInfo.allEvenDisabledTarget).rank.nrDpus)
    a.resultArray
    { s.switched a SliceInfo.allEvenDisabledTarget with
      rank := (s.switched a SliceInfo.allEvenDisabledTarget).rank.select SliceInfo.allEvenDisabledTarget allCis }
    List.nodup_range hcommitted (hquiet.trans hselected)
  rw [hostHandleAccessForRank, switchMuxes_of_commits hcommitted ha, dpuCheckWavegenMuxStatusForRank,
    if_neg (by simp [ha])]
  obtain ⟨hq, hc, _, hconfirmed⟩ := hcheck
  refine ⟨hq, hc, ?_⟩
  intro hok ci hci hen i hi
  exact hconfirmed hok i (List.mem_range.mpr (hquiet.nrDpus ▸ hi)) ci hci hen

end Access

/-! ## One call -/

section Call

variable {s : State} {dpuId : Nat} {mask : Mask} {base friend : Access} {host : Bool} {access : Access}

/-- The state of the records and of the muxes, but for the lines that are unsure. -/
structure Good (s : State) (unsure : Nat → Prop) : Prop where
  nrCis_le : s.rank.nrCis ≤ 8
  nrDpus_le : s.rank.nrDpus ≤ 8
  mustSwitch : s.rank.apiMustSwitchMramMux = true
  committed : s.committed = true
  recorded : ∀ ci < s.rank.nrCis, ∀ i, s.rank.hostMux ci i = true → i < s.rank.nrDpus
  synced : ∀ ci < s.rank.nrCis, (s.rank.sliceInfo ci).enabledDpus ≠ 0 → ∀ i < s.rank.nrDpus, ¬unsure i →
    OnSide (s.rank.hostMux ci i) (s.word ci i)

/-- What a call that is not refused leaves: the lines that it switches are recorded
on the requested side, and confirmed where it returns `DPU_OK`; the others stay. -/
structure Called (s : State) (op : Op) (out : Status × State) : Prop where
  frame : Frame s.rank out.2.rank
  committed : out.2.committed = true
  recorded : ∀ ci < s.rank.nrCis, ∀ i, out.2.rank.hostMux ci i = true → i < s.rank.nrDpus
  onRecord : ∀ ci < s.rank.nrCis, ∀ i < s.rank.nrDpus, op.Names s.rank i → out.2.rank.hostMux ci i = op.side ci
  names : ∀ i, op.Switches s.rank i → op.Names s.rank i
  left : ∀ ci < s.rank.nrCis, (s.rank.sliceInfo ci).enabledDpus ≠ 0 → ∀ i < s.rank.nrDpus, ¬op.Switches s.rank i →
    out.2.rank.hostMux ci i = s.rank.hostMux ci i ∧ out.2.word ci i = s.word ci i
  confirmed : out.1 = .ok → ∀ ci < s.rank.nrCis, (s.rank.sliceInfo ci).enabledDpus ≠ 0 →
    ∀ i < s.rank.nrDpus, op.Switches s.rank i → OnSide (op.side ci) (out.2.word ci i)

/-- Such a call is right, and the lines that become unsure are all that may come apart. -/
theorem Called.good {op : Op} {unsure : Nat → Prop} (h : Called s op (op.run s)) (hgood : Good s unsure)
    (hrefused : ¬op.Refused s.rank)
    (hsure : ∀ i < s.rank.nrDpus, op.Names s.rank i → ¬op.Switches s.rank i → ¬unsure i) :
    Right s op ∧ Good (op.run s).2 (op.unsure s unsure) := by
  constructor
  · intro hok ci hci hen i hi hnames
    by_cases hswitches : op.Switches s.rank i
    · exact h.confirmed hok ci hci hen i hi hswitches
    · -- a line that is left alone is where it is recorded
      obtain ⟨hrecord, hword⟩ := h.left ci hci hen i hi hswitches
      rw [hword, ← h.onRecord ci hci i hi hnames, hrecord]
      exact hgood.synced ci hci hen i hi (hsure i hi hnames hswitches)
  · refine
      { nrCis_le := by rw [h.frame.nrCis]; exact hgood.nrCis_le
        nrDpus_le := by rw [h.frame.nrDpus]; exact hgood.nrDpus_le
        mustSwitch := by rw [h.frame.apiMustSwitch]; exact hgood.mustSwitch
        committed := h.committed
        recorded := ?_
        synced := ?_ }
    · intro ci hci i hi
      rw [h.frame.nrDpus]
      exact h.recorded ci (h.frame.nrCis ▸ hci) i hi
    · intro ci hci hen i hi hnot
      rw [h.frame.nrCis] at hci
      rw [h.frame.nrDpus] at hi
      rw [h.frame.enabled] at hen
      rw [Op.unsure, not_or] at hnot
      by_cases hswitches : op.Switches s.rank i
      · have hok : (op.run s).1 = .ok := by
          by_contra hne
          exact hnot.1 ⟨⟨hrefused, hswitches⟩, hne⟩
        rw [h.onRecord ci hci i hi (h.names i hswitches)]
        exact h.confirmed hok ci hci hen i hi hswitches
      · obtain ⟨hrecord, hword⟩ := h.left ci hci hen i hi hswitches
        have hsure : ¬unsure i := fun hunsure => hnot.2 ⟨fun hrecords => hswitches hrecords.2, hunsure⟩
        rw [hword, hrecord]
        exact hgood.synced ci hci hen i hi hsure

/-- The two lines of a call, recorded and then switched. -/
theorem dpuSwitchMuxForDpuLine_spec {unsure : Nat → Prop} (hgood : Good s unsure)
    (hrefused : ¬0 < s.rank.nbRunning (runMask s.rank dpuId mask))
    (hbase : s.rank.switchBase dpuId mask = true → base.fails = none)
    (hfriend : s.rank.switchFriend dpuId mask = true → friend.fails = none) :
    LineAccess { s with rank := s.rank.recordPair dpuId mask } (s.rank.Switched dpuId mask) mask
      (dpuSwitchMuxForDpuLine dpuId mask base friend s) := by
  have hframe := s.rank.recordPair_frame dpuId mask
  rw [dpuSwitchMuxForDpuLine]
  dsimp only
  by_cases hnone : (!s.rank.switchBase dpuId mask && !s.rank.switchFriend dpuId mask) = true
  · rw [if_pos hnone]
    rw [Bool.and_eq_true, Bool.not_eq_true', Bool.not_eq_true'] at hnone
    have hrecord : s.rank.recordPair dpuId mask = s.rank := by simp [Rank.recordPair, Rank.recordIf, hnone.1, hnone.2]
    rw [hrecord]
    refine ⟨⟨Frame.refl _, fun _ _ => rfl⟩, hgood.committed, fun _ _ _ _ _ => rfl, ?_⟩
    intro _ _ _ _ i hi
    rcases hi with ⟨hswitch, _⟩ | ⟨hswitch, _⟩
    · rw [hnone.1] at hswitch
      cases hswitch
    · rw [hnone.2] at hswitch
      cases hswitch
  · rw [if_neg hnone, if_neg hrefused, hframe.apiMustSwitch, hgood.mustSwitch]
    have hfirst := accessIf_spec (s := { s with rank := s.rank.recordPair dpuId mask }) hgood.committed
      (hframe.nrCis ▸ hgood.nrCis_le) hbase (pairBase dpuId) mask
    simp only [Bool.not_true, Bool.false_eq_true, if_false]
    generalize accessIf _ base _ _ _ = out at hfirst ⊢
    obtain ⟨status, s'⟩ := out
    cases status with
    | ok =>
      have hcis : s'.rank.nrCis ≤ 8 := by
        rw [hfirst.quiet.nrCis, hframe.nrCis]
        exact hgood.nrCis_le
      exact hfirst.trans rfl (accessIf_spec hfirst.committed hcis hfriend (pairBase dpuId + 1) mask)
    | mramBusy => exact hfirst.of_failed (fun _ h => Or.inl h) (fun hok => by cases hok)
    | timeout => exact hfirst.of_failed (fun _ h => Or.inl h) (fun hok => by cases hok)
    | driver => exact hfirst.of_failed (fun _ h => Or.inl h) (fun hok => by cases hok)

theorem hostMux_lt {r : Rank} {ci i : Nat} (h : r.hostMux ci i = true) : i < 8 := BitVec.lt_of_getLsbD h

theorem line_called {unsure : Nat → Prop} (hgood : Good s unsure) (hdpu : dpuId < s.rank.nrDpus)
    (hrefused : ¬(Op.line dpuId mask base friend).Refused s.rank)
    (hcommits : (Op.line dpuId mask base friend).Commits s.rank) :
    Called s (.line dpuId mask base friend) ((Op.line dpuId mask base friend).run s) := by
  have hpair := dpuSwitchMuxForDpuLine_spec hgood hrefused hcommits.1 hcommits.2
  have hframe := s.rank.recordPair_frame dpuId mask
  have hnames : ∀ i, s.rank.Switched dpuId mask i → s.rank.OnPair dpuId i := fun i h => Rank.onPair_of_switch h
  have hle := hgood.nrDpus_le
  rw [Op.run]
  refine
    { frame := hframe.trans hpair.quiet.toFrame
      committed := hpair.committed
      recorded := ?_
      onRecord := ?_
      names := hnames
      left := ?_
      confirmed := ?_ }
  · intro ci hci i hrecorded
    have hi8 := hostMux_lt hrecorded
    rw [hpair.quiet.hostMux, Rank.recordPair_hostMux hci hi8] at hrecorded
    split at hrecorded
    · next hswitched =>
      rcases hnames i hswitched with rfl | ⟨_, hlt⟩
      · exact Nat.lt_of_le_of_lt (Nat.sub_le dpuId _) hdpu
      · exact hlt
    · exact hgood.recorded ci hci i hrecorded
  · intro ci hci i hi hname
    rw [hpair.quiet.hostMux, Rank.recordPair_onPair hgood.nrCis_le hci (by omega)]
    exact if_pos hname
  · intro ci hci hen i hi hnot
    constructor
    · rw [hpair.quiet.hostMux, Rank.recordPair_hostMux hci (by omega)]
      exact if_neg hnot
    · exact hpair.others ci (hframe.nrCis ▸ hci) (hframe.enabled ci ▸ hen) i hnot
  · intro hok ci hci hen i hi hswitched
    exact hpair.confirmed hok ci (hframe.nrCis ▸ hci) (hframe.enabled ci ▸ hen) i hswitched

/-- Where no interface must switch, every line is recorded on the requested side. -/
theorem hostMux_of_not_must {unsure : Nat → Prop} (hgood : Good s unsure) (hmust : s.rank.mustSwitchRank host = false)
    {ci i : Nat} (hci : ci < s.rank.nrCis) (hi : i < s.rank.nrDpus) : s.rank.hostMux ci i = host := by
  have hci' := List.any_eq_false.mp hmust ci (List.mem_range.mpr hci)
  simp only [Bool.or_eq_true, Bool.and_eq_true, decide_eq_true_eq, Bool.not_eq_true', not_or, not_and, not_lt, ne_eq,
    not_not] at hci'
  cases host with
  | true => exact dpuMaskCount_all (hgood.recorded ci hci) (hci'.1 rfl) hi
  | false =>
    rw [Rank.hostMux, hci'.2 rfl]
    exact BitVec.getLsbD_zero

theorem rank_called {unsure : Nat → Prop} (hgood : Good s unsure) (hrefused : ¬(Op.rank host access).Refused s.rank)
    (hcommits : (Op.rank host access).Commits s.rank) : Called s (.rank host access) ((Op.rank host access).run s) := by
  have hle := hgood.nrDpus_le
  have hidle : ¬s.rank.runContext.nbDpuRunning > 0 := hrefused
  rw [Op.run, dpuSwitchMuxForRank, if_neg hidle]
  cases hmust : s.rank.mustSwitchRank host with
  | false =>
    simp only [Bool.not_false, if_true]
    refine
      { frame := Frame.refl _
        committed := hgood.committed
        recorded := hgood.recorded
        onRecord := fun ci hci i hi _ => hostMux_of_not_must hgood hmust hci hi
        names := fun _ _ => trivial
        left := fun _ _ _ _ _ _ => ⟨rfl, rfl⟩
        confirmed := ?_ }
    intro _ ci _ _ i _ hswitches
    rw [Op.Switches, hmust] at hswitches
    cases hswitches
  | true =>
    have hframe := s.rank.recordMuxRank_frame host
    have haccess := hostHandleAccessForRank_spec (s := { s with rank := s.rank.recordMuxRank host }) hgood.committed
      (hframe.nrCis ▸ hgood.nrCis_le) (hcommits hmust) host
    simp only [hframe.apiMustSwitch, hgood.mustSwitch, Bool.not_true, Bool.false_and, Bool.false_eq_true, if_false]
    refine
      { frame := hframe.trans haccess.quiet.toFrame
        committed := haccess.committed
        recorded := ?_
        onRecord := ?_
        names := fun _ _ => trivial
        left := fun _ _ _ _ _ hnot => absurd hmust hnot
        confirmed := ?_ }
    · intro ci hci i hrecorded
      have hi8 := hostMux_lt hrecorded
      rw [haccess.quiet.hostMux, s.rank.recordMuxRank_hostMux host hci hi8, Bool.and_eq_true, decide_eq_true_iff]
        at hrecorded
      exact hrecorded.2
    · intro ci hci i hi _
      rw [haccess.quiet.hostMux, s.rank.recordMuxRank_hostMux host hci (by omega), decide_eq_true hi, Bool.and_true]
      rfl
    · intro hok ci hci hen i hi _
      exact haccess.confirmed hok ci (hframe.nrCis ▸ hci) (hframe.enabled ci ▸ hen) i (hframe.nrDpus ▸ hi)

/-- A call that is refused changes nothing. -/
theorem run_refused {op : Op} (h : op.Refused s.rank) : (op.run s).1 ≠ .ok ∧ (op.run s).2 = s := by
  cases op with
  | line dpuId mask base friend =>
    have hbusy : 0 < s.rank.nbRunning (runMask s.rank dpuId mask) := h
    -- a DPU that runs is on a line to switch
    have hsome : ¬(!s.rank.switchBase dpuId mask && !s.rank.switchFriend dpuId mask) = true := by
      intro hnone
      rw [Bool.and_eq_true, Bool.not_eq_true', Bool.not_eq_true'] at hnone
      have hempty : runMask s.rank dpuId mask = 0 := by simp [runMask, hnone.1, hnone.2, dpuMaskEmpty]
      rw [hempty, Rank.nbRunning, Rank.sumCis_eq] at hbusy
      simp [dpuMaskCount] at hbusy
    rw [Op.run, dpuSwitchMuxForDpuLine]
    dsimp only
    rw [if_neg hsome, if_pos hbusy]
    exact ⟨(fun hok => by cases hok), rfl⟩
  | rank host access =>
    have hbusy : s.rank.runContext.nbDpuRunning > 0 := h
    rw [Op.run, dpuSwitchMuxForRank, if_pos hbusy]
    exact ⟨(fun hok => by cases hok), rfl⟩

/-- A reliable call is right, and keeps what is known of the muxes. -/
theorem step_good {unsure : Nat → Prop} (hgood : Good s unsure) {op : Op} (hvalid : op.Valid s.rank)
    (hreliable : Reliable s unsure op) :
    Right s op ∧ Good (op.run s).2 (op.unsure s unsure) ∧ (op.run s).2.rank.nrDpus = s.rank.nrDpus := by
  by_cases hrefused : op.Refused s.rank
  · obtain ⟨hnotOk, hsame⟩ := run_refused hrefused
    refine ⟨fun hok => absurd hok hnotOk, ?_, by rw [hsame]⟩
    rw [hsame]
    refine
      { nrCis_le := hgood.nrCis_le
        nrDpus_le := hgood.nrDpus_le
        mustSwitch := hgood.mustSwitch
        committed := hgood.committed
        recorded := hgood.recorded
        synced := ?_ }
    intro ci hci hen i hi hnot
    exact hgood.synced ci hci hen i hi fun hunsure => hnot (Or.inr ⟨fun hrecords => hrecords.1 hrefused, hunsure⟩)
  · obtain ⟨hcommits, hsure⟩ := hreliable hrefused
    have hcalled : Called s op (op.run s) := by
      cases op with
      | line dpuId mask base friend => exact line_called hgood hvalid hrefused hcommits
      | rank host access => exact rank_called hgood hrefused hcommits
    obtain ⟨hright, hnext⟩ := hcalled.good hgood hrefused hsure
    exact ⟨hright, hnext, hcalled.frame.nrDpus⟩

end Call

/-! ## Every run -/

theorem Op.Valid.congr {r r' : Rank} (hsame : r'.nrDpus = r.nrDpus) {op : Op} (h : op.Valid r) : op.Valid r' := by
  cases op with
  | line dpuId mask base friend => exact Nat.lt_of_lt_of_eq h hsame.symm
  | rank host access => trivial

theorem alwaysRight_of_good :
    ∀ (ops : List Op) {s : State} {unsure : Nat → Prop}, Good s unsure → (∀ op ∈ ops, op.Valid s.rank) →
      AlwaysReliable s unsure ops → AlwaysRight s ops
  | [], _, _, _, _, _ => trivial
  | op :: ops, s, unsure, hgood, hvalid, hreliable => by
    have hop := hvalid op List.mem_cons_self
    obtain ⟨hright, hnext, hsame⟩ := step_good hgood hop hreliable.1
    refine ⟨hright, alwaysRight_of_good ops hnext ?_ hreliable.2⟩
    exact fun op' hop' => (hvalid op' (List.mem_cons_of_mem op hop')).congr hsame

theorem Run.good (run : Run) : Good run.start fun _ => False :=
  { nrCis_le := run.nrCis_le
    nrDpus_le := run.nrDpus_le
    mustSwitch := run.mustSwitch
    committed := run.committed
    recorded := run.recorded
    synced := fun ci hci hen i hi _ => run.synced ci hci hen i hi }

/-- From a rank whose muxes are where the records say: as long as every command is
committed and no call relies on the record of a line whose last switch was not
confirmed, each call that returns `DPU_OK` leaves its muxes on the requested side,
whatever the checks have read and however many of them have timed out. -/
theorem switches_confirmed (run : Run) (h : AlwaysReliable run.start (fun _ => False) run.ops) :
    AlwaysRight run.start run.ops := alwaysRight_of_good run.ops run.good run.valid h

/-- One interface of two DPUs, all enabled and recorded on the DPU side. -/
def twoDpus : Rank where
  nrCis := 1
  nrDpus := 2
  nrThreads := 24
  apiMustSwitchMramMux := true
  initMramMux := true
  sliceInfo _ :=
    { structureValue := 0
      sliceTarget := .none
      hostMuxMramState := 0
      dpusPerGroup := fun g => if g = 0 then 3 else 0
      enabledDpus := 3
      allDpusAreEnabled := true }
  runContext := ⟨fun _ => 0, fun _ => 0, 0⟩
  hw := ⟨fun _ => 0, fun _ => 0, fun _ => 0⟩
  schedule _ := ⟨fun _ => 0, fun _ => 0, fun _ => 0, fun _ => 0⟩
  clock := 0
  xferCalls := []

/-- The muxes are there. -/
def onDpuSide : State := { rank := twoDpus, committed := true, word := fun _ _ => wavegenMuxDpuExpected }

/-- All commands are committed, and every word is the same from then on. -/
def answered (word : Mask) : Access :=
  { fails := none, switched := fun _ _ => word, answers := fun _ _ _ => word, resultArray := fun _ => 0 }

theorem twoDpus_record (ci i : Nat) : twoDpus.hostMux ci i = false := BitVec.getLsbD_zero

/-- A switch of the pair, with the same word from then on. -/
def answeredLine (mask word : Mask) : Op := .line 0 mask (answered word) (answered word)

/-- A switch to the host that times out, one back, and a call that finds nothing to do. -/
def timedOutAndBack : Run where
  start := onDpuSide
  nrCis_le := by decide
  nrDpus_le := by decide
  mustSwitch := rfl
  committed := rfl
  recorded ci _ i h := by
    rw [show onDpuSide.rank.hostMux ci i = false from twoDpus_record ci i] at h
    cases h
  synced ci _ _ i _ := by
    rw [show onDpuSide.rank.hostMux ci i = false from twoDpus_record ci i]
    exact (by decide : OnSide false wavegenMuxDpuExpected)
  ops := [answeredLine 1 3, answeredLine 0 3, .rank false (answered 3)]
  valid op hop := by
    rcases List.mem_cons.mp hop with rfl | hop
    · exact Nat.zero_lt_two
    rcases List.mem_cons.mp hop with rfl | hop
    · exact Nat.zero_lt_two
    rcases List.mem_singleton.mp hop with rfl
    trivial

theorem switches_confirmed_timedOut :
    AlwaysReliable timedOutAndBack.start (fun _ => False) timedOutAndBack.ops ∧
      AlwaysRight timedOutAndBack.start timedOutAndBack.ops := by
  -- the call back switches both lines, whatever the first one has left
  have hback : ∀ i < 2, (answeredLine 0 3).Switches ((answeredLine 1 3).run onDpuSide).2.rank i := by
    intro i hi
    interval_cases i
    · exact Or.inl ⟨by decide, rfl⟩
    · exact Or.inr ⟨by decide, rfl⟩
  have hidle : ¬(answeredLine 0 3).Refused ((answeredLine 1 3).run onDpuSide).2.rank :=
    (by decide : ¬0 < Rank.nbRunning _ _)
  have hreliable : AlwaysReliable timedOutAndBack.start (fun _ => False) timedOutAndBack.ops := by
    refine ⟨fun _ => ⟨⟨fun _ => rfl, fun _ => rfl⟩, fun _ _ _ _ h => h⟩,
      fun _ => ⟨⟨fun _ => rfl, fun _ => rfl⟩, fun i hi _ hnot => absurd (hback i hi) hnot⟩,
      fun _ => ⟨fun _ => rfl, ?_⟩, trivial⟩
    intro i hi _ _ hunsure
    rcases hunsure with ⟨_, hfailed⟩ | ⟨hnot, _⟩
    · exact hfailed (by decide)
    · exact hnot ⟨hidle, hback i hi⟩
  exact ⟨hreliable, switches_confirmed timedOutAndBack hreliable⟩

/-- A switch of the pair to the host whose commands fail and move no mux. -/
def failedSwitch : Op :=
  .line 0 1 { answered wavegenMuxDpuExpected with fails := some .switch } (answered wavegenMuxDpuExpected)

/-- The first call fails, and the second one finds nothing to do. -/
theorem failedSwitch_repeated :
    (failedSwitch.run onDpuSide).1 = .driver ∧ (failedSwitch.run (failedSwitch.run onDpuSide).2).1 = .ok ∧
      (failedSwitch.run (failedSwitch.run onDpuSide).2).2.word 0 0 = wavegenMuxDpuExpected ∧
      ¬AlwaysRight onDpuSide [failedSwitch, failedSwitch] := by
  refine ⟨by decide, by decide, by decide, ?_⟩
  intro h
  have hside := h.2.1 (by decide) 0 (by decide) (by decide) 0 (by decide) (Or.inl rfl)
  exact absurd hside (by decide)

end DpuBackend.Ufi.MuxRecord
