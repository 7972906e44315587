import DpuBackend.Ufi.Memory
import DpuBackend.Ufi.MuxSpec
import DpuBackend.Ufi.Runner

/-
  The run state of a rank and its muxes, over any sequence of calls.

  `RecordInv` is what the host's records satisfy between calls: the counter
  agrees with the masks, only enabled DPUs are recorded as running, the DPUs of a
  pair are recorded on one side, and no DPU recorded as running is on the host
  side. It does not survive on its own: a poll copies what the hardware says into
  the records. `RunInv` adds the link, that an enabled DPU that is live was
  recorded as running when its muxes were last decided; it holds because DPUs
  only start by a launch, and between launches only stop or fault.
-/

namespace DpuBackend.Ufi

open DpuBackend.Lib DpuBackend.Xeon

/-- What no call changes: the topology and the enabled DPUs. -/
structure Config where
  nrCis : Nat
  nrDpus : Nat
  enabledDpus : Nat → Mask

def Rank.config (r : Rank) : Config := ⟨r.nrCis, r.nrDpus, fun ci => (r.sliceInfo ci).enabledDpus⟩

/-- At most eight interfaces of eight DPUs, and only DPUs the rank has are enabled. -/
structure Rank.Valid (cfg : Config) (r : Rank) : Prop where
  config : r.config = cfg
  cis : r.nrCis ≤ 8
  dpus : r.nrDpus ≤ 8
  enabled : ∀ ci < r.nrCis, ∀ i, r.dpuEnabled ci i = true → i < r.nrDpus

structure RecordInv (cfg : Config) (r : Rank) : Prop where
  valid : r.Valid cfg
  count : r.runContext.nbDpuRunning = r.sumCis fun ci => dpuMaskCount (r.runContext.dpuRunning ci)
  enabled : ∀ ci < r.nrCis, ∀ i, r.running ci i = true → r.dpuEnabled ci i = true
  pairs : ∀ ci < r.nrCis, ∀ i, i % 2 = 0 → i + 1 < r.nrDpus → r.hostMux ci i = r.hostMux ci (i + 1)
  exclusion : ∀ ci < r.nrCis, ∀ i, r.running ci i = true → r.hostMux ci i = false

structure RunInv (cfg : Config) (r : Rank) : Prop extends RecordInv cfg r where
  live : ∀ ci < r.nrCis, ∀ i, r.live ci i = true → r.dpuEnabled ci i = true → r.running ci i = true

variable {cfg : Config}

/-! ## Steps that leave the run context alone -/

theorem Frame.config {r r' : Rank} (h : Frame r r') : r'.config = r.config := by
  simp only [Rank.config, h.nrCis, h.nrDpus, h.enabled]

theorem Frame.valid {r r' : Rank} (h : Frame r r') (hv : r.Valid cfg) : r'.Valid cfg := by
  refine ⟨h.config.trans hv.config, by rw [h.nrCis]; exact hv.cis, by rw [h.nrDpus]; exact hv.dpus, fun ci hci i => ?_⟩
  rw [h.dpuEnabled, h.nrDpus]
  exact hv.enabled ci (by rwa [← h.nrCis]) i

/-- A step that changes no more than the muxes has to care for the muxes only. -/
theorem RecordInv.frame {r r' : Rank} (hinv : RecordInv cfg r) (h : Frame r r')
    (hpairs : ∀ ci < r.nrCis, ∀ i, i % 2 = 0 → i + 1 < r.nrDpus → r'.hostMux ci i = r'.hostMux ci (i + 1))
    (hexcl : ∀ ci < r.nrCis, ∀ i, r.running ci i = true → r'.hostMux ci i = false) : RecordInv cfg r' where
  valid := h.valid hinv.valid
  count := by
    rw [Rank.sumCis_eq, h.runContext, h.nrCis, hinv.count, Rank.sumCis_eq]
  enabled ci hci i := by
    rw [h.running, h.dpuEnabled]
    exact hinv.enabled ci (by rwa [← h.nrCis]) i
  pairs := by
    rw [h.nrCis, h.nrDpus]
    exact hpairs
  exclusion ci hci i := by
    rw [h.running]
    exact hexcl ci (by rwa [← h.nrCis]) i

theorem RunInv.frame {r r' : Rank} (hinv : RunInv cfg r) (h : Frame r r')
    (hpairs : ∀ ci < r.nrCis, ∀ i, i % 2 = 0 → i + 1 < r.nrDpus → r'.hostMux ci i = r'.hostMux ci (i + 1))
    (hexcl : ∀ ci < r.nrCis, ∀ i, r.running ci i = true → r'.hostMux ci i = false) : RunInv cfg r' := by
  refine ⟨hinv.toRecordInv.frame h hpairs hexcl, fun ci hci i hl hen => ?_⟩
  rw [h.running]
  rw [h.dpuEnabled] at hen
  exact hinv.live ci (by rwa [← h.nrCis]) i (h.live ci i hl) hen

theorem RunInv.quiet {r r' : Rank} (hinv : RunInv cfg r) (h : Quiet r r') : RunInv cfg r' := by
  refine hinv.frame h.toFrame ?_ ?_
  · intro ci hci i hi hlt
    rw [h.hostMux, h.hostMux]
    exact hinv.pairs ci hci i hi hlt
  · intro ci hci i hrun
    rw [h.hostMux]
    exact hinv.exclusion ci hci i hrun

theorem onPair_friend {r : Rank} {dpuId i : Nat} (heven : i % 2 = 0) (hlt : i + 1 < r.nrDpus) :
    r.OnPair dpuId (i + 1) ↔ r.OnPair dpuId i := by
  unfold Rank.OnPair pairBase
  omega

/-- The lines that moved carried no running DPU, and they moved together. -/
theorem RunInv.lineSwitch {r r' : Rank} {dpuId : Nat} {mask : Mask} (hinv : RunInv cfg r)
    (h : LineSwitch r dpuId mask r') : RunInv cfg r' := by
  have hdpus := hinv.valid.dpus
  refine hinv.frame h.toFrame ?_ ?_
  · intro ci hci i heven hlt
    rw [h.hostMux ci hci i (by omega), h.hostMux ci hci (i + 1) (by omega)]
    simp only [onPair_friend heven hlt]
    split
    · rfl
    · exact hinv.pairs ci hci i heven hlt
  · intro ci hci i hrun
    have hi : i < 8 := BitVec.lt_of_getLsbD hrun
    by_contra hmux
    have hne : r'.hostMux ci i ≠ r.hostMux ci i := by
      rw [hinv.exclusion ci hci i hrun]
      exact hmux
    rw [h.idle ci hci i hi hne ci hci] at hrun
    contradiction

theorem Rank.idle_of_count {r : Rank} (hinv : RecordInv cfg r) (h : r.runContext.nbDpuRunning = 0) {ci : Nat}
    (hci : ci < r.nrCis) (i : Nat) : r.running ci i = false := by
  rw [hinv.count, Rank.sumCis_eq, Finset.sum_eq_zero_iff] at h
  have hzero := dpuMaskCount_eq_zero.mp (h ci (Finset.mem_range.mpr hci))
  by_cases hi : i < 8
  · exact hzero i hi
  · exact BitVec.getLsbD_of_ge _ _ (by omega)

theorem RunInv.rankSwitch {r r' : Rank} {host : Bool} (hinv : RunInv cfg r) (h : RankSwitch r host r') : RunInv cfg r' := by
  have hdpus := hinv.valid.dpus
  refine hinv.frame h.toFrame ?_ ?_
  · intro ci hci i heven hlt
    obtain hmux | ⟨_, hmux, _⟩ := h.hostMux
    · rw [hmux ci hci i (by omega), hmux ci hci (i + 1) (by omega)]
      simp only [decide_eq_true (show i < r.nrDpus by omega), decide_eq_true hlt]
    · rw [hmux, hmux]
      exact hinv.pairs ci hci i heven hlt
  · intro ci hci i hrun
    rw [Rank.idle_of_count hinv.toRecordInv h.idle hci i] at hrun
    contradiction

/-! ## The programs keep the invariant -/

theorem dpuSwitchMuxForDpuLine_keeps (dpuId : Nat) (mask : Mask) : Keeps (RunInv cfg) (dpuSwitchMuxForDpuLine dpuId mask) := by
  refine triple_each fun r hr => ?_
  refine (dpuSwitchMuxForDpuLine_spec hr.valid.cis hr.valid.dpus dpuId mask).weaken (fun _ h => h) ?_ ?_
  · exact fun _ _ h => hr.lineSwitch h
  · exact fun _ _ h => h.1 ▸ hr

theorem dpuSwitchMuxForRank_keeps (host : Bool) : Keeps (RunInv cfg) (dpuSwitchMuxForRank host) := by
  refine triple_each fun r hr => ?_
  refine (dpuSwitchMuxForRank_spec hr.valid.cis hr.valid.dpus host).weaken (fun _ h => h) ?_ ?_
  · exact fun _ _ h => hr.rankSwitch h
  · exact fun _ _ h => h.1 ▸ hr

theorem ufiSelect_spec (r : Rank) (want : SliceInfo → Option SliceTarget) (mask : Mask) {E : Stop → Rank → Prop} :
    Triple (fun s => s = r) (ufiSelect want mask) (fun m s => s = r.select want mask ∧ m = r.selected want mask) E := by
  rintro _ rfl
  exact ⟨rfl, rfl⟩

/-- `ufi_select_all` keeps every interface that has an enabled DPU. -/
theorem Rank.selected_all_bit {r : Rank} {mask : Mask} {ci : Nat} (h8 : ci < 8)
    (hmask : mask.getLsbD ci = true) {i : Nat} (hen : r.dpuEnabled ci i = true) :
    (r.selected SliceInfo.allTarget mask).getLsbD ci = true := by
  have hne : (r.sliceInfo ci).enabledDpus ≠ 0 := by
    intro h0
    rw [Rank.dpuEnabled, h0] at hen
    simp at hen
  have hsome : (SliceInfo.allTarget (r.sliceInfo ci)).isNone = false := by
    rw [SliceInfo.allTarget, if_pos hne]
    split
    · rfl
    · split <;> rfl
  simp only [Rank.selected, BitVec.getLsbD_and, BitVec.getLsbD_not, gatherMask_bit, hmask, hsome, h8]
  simp

theorem allCis_bit {ci : Nat} (h : ci < 8) : allCis.getLsbD ci = true := by
  have hall : ∀ k < 8, allCis.getLsbD k = true := by decide
  exact hall ci h

/-! ## Polling -/

/-- What a poll that started in `r` and ended in `r'` read of the enabled DPUs: one
read as running without a fault was live before, and one that is live after was
read so. -/
structure Polled (r : Rank) (run fault : Nat → Mask) (r' : Rank) : Prop where
  quiet : Quiet r r'
  before : ∀ ci < r.nrCis, ∀ i, r.dpuEnabled ci i = true → (run ci).getLsbD i = true →
    (fault ci).getLsbD i = false → r.live ci i = true
  after : ∀ ci < r.nrCis, ∀ i, r.dpuEnabled ci i = true → r'.live ci i = true →
    (run ci).getLsbD i = true ∧ (fault ci).getLsbD i = false

theorem ciPollRank_spec {r : Rank} (hcis : r.nrCis ≤ 8) {E : Stop → Rank → Prop} :
    Triple (fun s => s = r) ciPollRank (fun polled s => Polled r polled.1 polled.2 s) E := by
  rintro _ rfl
  rename_i r
  show Polled r ((r.select SliceInfo.allTarget allCis).results (r.selected SliceInfo.allTarget allCis) Hw.run)
    ((r.select SliceInfo.allTarget allCis).elapse.results (r.selected SliceInfo.allTarget allCis) Hw.fault)
    ((r.select SliceInfo.allTarget allCis).elapse.elapse)
  have hquiet : Quiet r (r.select SliceInfo.allTarget allCis) := r.select_quiet _ _
  generalize hs : r.select SliceInfo.allTarget allCis = s at hquiet ⊢
  have hvisits : ∀ ci < r.nrCis, ∀ i, r.dpuEnabled ci i = true →
      s.visits (r.selected SliceInfo.allTarget allCis) ci = true
        ∧ s.elapse.visits (r.selected SliceInfo.allTarget allCis) ci = true := by
    intro ci hci i hen
    have hbit := Rank.selected_all_bit (r := r) (show ci < 8 by omega) (allCis_bit (by omega)) hen
    have hlt : ci < s.nrCis := by rwa [hquiet.nrCis]
    have hlt' : ci < s.elapse.nrCis := hlt
    simp [Rank.visits, hlt, hlt', hbit]
  refine ⟨hquiet.trans (s.elapse_quiet.trans s.elapse.elapse_quiet), ?_, ?_⟩
  · intro ci hci i hen hrun hfault
    obtain ⟨hv, hv'⟩ := hvisits ci hci i hen
    rw [Rank.results, if_pos hv] at hrun
    rw [Rank.results, if_pos hv'] at hfault
    refine hquiet.live ci i (s.elapse_live ci i ?_)
    -- a fault is still there at the second read
    have hkeep : (s.elapse.hw.fault ci).getLsbD i = false := by
      simp only [Rank.elapse, Hw.elapse, BitVec.getLsbD_or, Bool.or_eq_false_iff] at hfault ⊢
      exact hfault.1
    simp [Rank.live, hrun, hkeep]
  · intro ci hci i hen hlive
    obtain ⟨hv, hv'⟩ := hvisits ci hci i hen
    rw [Rank.results, Rank.results, if_pos hv, if_pos hv']
    have hmid := s.elapse.elapse_live ci i hlive
    simp only [Rank.live, Bool.and_eq_true, Bool.not_eq_true'] at hlive hmid
    exact ⟨hmid.1, hlive.2⟩

theorem Polled.recordPoll {r r' : Rank} {run fault : Nat → Mask} (hinv : RunInv cfg r) (h : Polled r run fault r') :
    RunInv cfg (r'.recordPoll run fault) := by
  have hinv' := hinv.quiet h.quiet
  have hcis := h.quiet.nrCis
  -- a DPU recorded as running is enabled and was live when the poll began
  have hrec : ∀ ci < r'.nrCis, ∀ i, (r'.recordPoll run fault).running ci i =
      (r'.dpuEnabled ci i && (run ci).getLsbD i && !(fault ci).getLsbD i) := by
    intro ci hci i
    have hlt : (run ci).getLsbD i = true → i < 8 := fun hb => BitVec.lt_of_getLsbD hb
    simp only [Rank.running, Rank.recordPoll, hci, if_true, BitVec.getLsbD_and, BitVec.getLsbD_not, Rank.dpuEnabled]
    grind
  have hwas : ∀ ci < r'.nrCis, ∀ i, (r'.recordPoll run fault).running ci i = true → r.running ci i = true := by
    intro ci hci i hrun
    rw [hrec ci hci i] at hrun
    simp only [Bool.and_eq_true, Bool.not_eq_true', h.quiet.dpuEnabled] at hrun
    rw [hcis] at hci
    exact hinv.live ci hci i (h.before ci hci i hrun.1.1 hrun.1.2 hrun.2) hrun.1.1
  refine ⟨⟨⟨hinv'.valid.config, hinv'.valid.cis, hinv'.valid.dpus, hinv'.valid.enabled⟩, rfl, ?_, hinv'.pairs, ?_⟩, ?_⟩
  · intro ci hci i hrun
    rw [hrec ci hci i] at hrun
    simp only [Bool.and_eq_true] at hrun
    exact hrun.1.1
  · intro ci hci i hrun
    refine hinv'.exclusion ci hci i ?_
    rw [h.quiet.running]
    exact hwas ci hci i hrun
  · intro ci hci i hlive hen
    rw [hrec ci hci i]
    have hen' : r.dpuEnabled ci i = true := by rw [← h.quiet.dpuEnabled]; exact hen
    obtain ⟨hrun, hfault⟩ := h.after ci (by rwa [← hcis]) i hen' hlive
    simp [hrun, hfault, h.quiet.dpuEnabled, hen']

theorem dpuPollRank_keeps : Keeps (RunInv cfg) dpuPollRank := by
  refine triple_each fun r hr => triple_bind (ciPollRank_spec hr.valid.cis) fun polled => triple_modify ?_
  exact fun s hs => hs.recordPoll hr

/-! ## Launching -/

/-- Every enabled DPU of the rank is on the DPU side. -/
def DpuSide (r : Rank) : Prop := ∀ ci < r.nrCis, ∀ i, r.dpuEnabled ci i = true → r.hostMux ci i = false

theorem Quiet.dpuSide {r r' : Rank} (h : Quiet r r') (hside : DpuSide r) : DpuSide r' := by
  intro ci hci i hen
  rw [h.hostMux]
  rw [h.dpuEnabled] at hen
  exact hside ci (by rwa [← h.nrCis]) i hen

theorem Rank.launchMuxMask_bit (r : Rank) (ciMask : Mask) (d : Nat) {ci : Nat} (hon : ciMask.getLsbD ci = true) :
    (r.launchMuxMask ciMask d).getLsbD ci = false := by
  simp only [Rank.launchMuxMask, gatherMask_bit, hon]
  simp

theorem onPair_self {r : Rank} {d : Nat} (hd : d < r.nrDpus) : r.OnPair d d := by
  unfold Rank.OnPair pairBase
  omega

/-- Line by line: the lines still to come may be on either side. -/
structure LinesTaken (cfg : Config) (r₀ : Rank) (ciMask : Mask) (rest : List Nat) (r : Rank) : Prop where
  inv : RunInv cfg r
  frame : Frame r₀ r
  taken : ∀ ci < r₀.nrCis, ciMask.getLsbD ci = true → ∀ i < r₀.nrDpus, i ∉ rest → r.hostMux ci i = false

theorem LinesTaken.step {r₀ r r' : Rank} {ciMask : Mask} {d : Nat} {rest : List Nat}
    (h : LinesTaken cfg r₀ ciMask (d :: rest) r) (hd : d < r₀.nrDpus)
    (hsw : LineSwitch r d (r.launchMuxMask ciMask d) r') : LinesTaken cfg r₀ ciMask rest r' := by
  have hdpus := h.inv.valid.dpus
  have hnr := h.frame.nrDpus
  refine ⟨h.inv.lineSwitch hsw, h.frame.trans hsw.toFrame, fun ci hci hon i hi hrest => ?_⟩
  rw [hsw.hostMux ci (by rwa [h.frame.nrCis]) i (by omega)]
  split
  · exact r.launchMuxMask_bit ciMask d hon
  · rename_i hpair
    refine h.taken ci hci hon i hi ?_
    rintro (_ | ⟨_, hmem⟩)
    · exact hpair (onPair_self (by omega))
    · contradiction

theorem takeMuxes_spec {r : Rank} (hinv : RunInv cfg r) {ciMask : Mask}
    (hmask : ∀ ci < r.nrCis, ∀ i, r.dpuEnabled ci i = true → ciMask.getLsbD ci = true) :
    Triple (fun s => s = r) (takeMuxes ciMask) (fun _ s => RunInv cfg s ∧ DpuSide s) fun _ => RunInv cfg := by
  have hcis := hinv.valid.cis
  have hdpus := hinv.valid.dpus
  refine triple_get fun r' hr' => ?_
  subst hr'
  refine triple_ite (fun _ => ?_) fun _ => ?_
  · refine (dpuSwitchMuxForRank_spec hcis hdpus false).weaken (fun _ h => h) ?_ (fun _ _ h => h.1 ▸ hinv)
    intro _ s h
    refine ⟨hinv.rankSwitch h, fun ci hci i hen => ?_⟩
    have hi : i < 8 := BitVec.lt_of_getLsbD hen
    obtain hmux | ⟨hfalse, _⟩ := h.hostMux
    · rw [hmux ci (by rwa [← h.nrCis]) i hi]
      simp
    · contradiction
  · have hloop : Triple (LinesTaken cfg r' ciMask (List.range r'.nrDpus))
        ((List.range r'.nrDpus).forM fun eachDpu => do
          let r ← get
          dpuSwitchMuxForDpuLine eachDpu (r.launchMuxMask ciMask eachDpu))
        (fun _ => LinesTaken cfg r' ciMask []) fun _ => RunInv cfg := by
      refine triple_forM fun d rest hd => triple_get fun s hs => ?_
      have hv := hs.inv.valid
      refine (dpuSwitchMuxForDpuLine_spec hv.cis hv.dpus d _).weaken (fun _ h => h) ?_ (fun _ _ h => h.1 ▸ hs.inv)
      exact fun _ _ h => hs.step (List.mem_range.mp hd) h
    refine hloop.weaken ?_ ?_ fun _ _ h => h
    · rintro _ rfl
      exact ⟨hinv, Frame.refl _, fun _ _ _ i hi hrest => absurd (List.mem_range.mpr hi) hrest⟩
    · intro _ s h
      refine ⟨h.inv, fun ci hci i hen => ?_⟩
      have hlt := h.inv.valid.enabled ci hci i hen
      rw [h.frame.nrCis] at hci
      rw [h.frame.dpuEnabled] at hen
      exact h.taken ci hci (hmask ci hci i hen) i (by rwa [← h.frame.nrDpus]) (List.not_mem_nil)

/-- A boot starts DPUs and leaves the records alone. -/
theorem RecordInv.boot {r : Rank} (hinv : RecordInv cfg r) (mask : Mask) : RecordInv cfg (r.boot mask) :=
  ⟨⟨hinv.valid.config, hinv.valid.cis, hinv.valid.dpus, hinv.valid.enabled⟩, hinv.count, hinv.enabled, hinv.pairs, hinv.exclusion⟩

theorem Rank.boot_live (r : Rank) (mask : Mask) {ci i : Nat} (h : (r.boot mask).live ci i = true) :
    r.live ci i = true ∨ (r.reached mask ci).getLsbD i = true := by
  by_cases hreach : (r.reached mask ci).getLsbD i = true
  · exact .inr hreach
  · refine .inl (r.elapse_live ci i ?_)
    have hi : i < 8 := by
      simp only [Rank.live, Bool.and_eq_true] at h
      exact BitVec.lt_of_getLsbD h.1
    simp only [Rank.live, Rank.boot, BitVec.getLsbD_or, BitVec.getLsbD_and, BitVec.getLsbD_not] at h ⊢
    grind

/-- With every enabled DPU on the DPU side, they may all be recorded as running. -/
theorem RecordInv.recordLaunch {r : Rank} (hinv : RecordInv cfg r) (hside : DpuSide r) : RunInv cfg r.recordLaunch := by
  have hrun : ∀ ci < r.nrCis, ∀ i, r.recordLaunch.running ci i = r.dpuEnabled ci i := by
    intro ci hci i
    simp only [Rank.running, Rank.recordLaunch, hci, if_true, Rank.dpuEnabled]
  have hcount : r.recordLaunch.runContext.nbDpuRunning =
      r.recordLaunch.sumCis fun ci => dpuMaskCount (r.recordLaunch.runContext.dpuRunning ci) := by
    rw [Rank.sumCis_eq]
    simp only [Rank.recordLaunch, Rank.sumCis_eq]
    refine Finset.sum_congr rfl fun ci hci => ?_
    rw [if_pos (Finset.mem_range.mp hci)]
  refine ⟨⟨⟨hinv.valid.config, hinv.valid.cis, hinv.valid.dpus, hinv.valid.enabled⟩, hcount, ?_, hinv.pairs, ?_⟩, ?_⟩
  · intro ci hci i h
    rwa [hrun ci hci i] at h
  · intro ci hci i h
    rw [hrun ci hci i] at h
    exact hside ci hci i h
  · intro ci hci i _ hen
    rwa [hrun ci hci i]

theorem ciStartThreadRank_spec (resume : Bool) :
    Triple (RunInv cfg) (ciStartThreadRank resume) (fun _ s => RecordInv cfg s ∧ DpuSide s) fun _ => RunInv cfg := by
  refine triple_each fun r hr => triple_bind (ufiSelect_spec r SliceInfo.allTarget allCis) fun ciMask => ?_
  refine triple_each fun s hs => ?_
  obtain ⟨rfl, rfl⟩ := hs
  have hquiet := r.select_quiet SliceInfo.allTarget allCis
  have hcis := hr.valid.cis
  refine triple_bind (takeMuxes_spec (hr.quiet hquiet) ?_) fun _ => triple_each fun t ht => ?_
  · intro ci hci i hen
    rw [hquiet.dpuEnabled] at hen
    rw [hquiet.nrCis] at hci
    exact Rank.selected_all_bit (by omega) (allCis_bit (by omega)) hen
  · refine triple_bind (ufiSelect_spec t SliceInfo.allTarget _) fun ciMask' => triple_each fun u hu => ?_
    obtain ⟨rfl, rfl⟩ := hu
    have hquiet' := t.select_quiet SliceInfo.allTarget (r.selected SliceInfo.allTarget allCis)
    have hboot := fun mask => (ht.1.quiet hquiet').toRecordInv.boot mask
    refine triple_ite (fun _ => triple_modify ?_) fun _ => triple_modify ?_
    all_goals
      rintro _ rfl
      exact ⟨hboot _, hquiet'.dpuSide ht.2⟩

theorem dpuLaunchThreadOnRank_keeps (thread : Nat) (resume : Bool) :
    Keeps (RunInv cfg) (dpuLaunchThreadOnRank thread resume) := by
  refine triple_get fun r hr => triple_ite (fun _ => triple_throw ?_) fun _ => ?_
  · rintro _ rfl
    exact hr
  · refine triple_bind (R := fun _ => RunInv cfg) (dpuPollRank_keeps.pre fun _ h => h ▸ hr) fun _ => ?_
    exact triple_bind (ciStartThreadRank_spec resume) fun _ => triple_modify fun s hs => hs.1.recordLaunch hs.2

/-- One DPU on the DPU side, about to be booted: it alone may be live without being
recorded as running. -/
structure Booted (cfg : Config) (sliceId dpuId : Nat) (r : Rank) : Prop extends RecordInv cfg r where
  dpuSide : r.hostMux sliceId dpuId = false
  enabled₁ : r.dpuEnabled sliceId dpuId = true
  live : ∀ ci < r.nrCis, ∀ i, r.live ci i = true → r.dpuEnabled ci i = true →
    r.running ci i = true ∨ (ci = sliceId ∧ i = dpuId)

theorem Booted.running {sliceId dpuId : Nat} {r : Rank} (h : Booted cfg sliceId dpuId r)
    (hrun : r.running sliceId dpuId = true) : RunInv cfg r := by
  refine ⟨h.toRecordInv, fun ci hci i hl hen => ?_⟩
  obtain hr | ⟨rfl, rfl⟩ := h.live ci hci i hl hen
  · exact hr
  · exact hrun

theorem Booted.recordLaunchDpu {sliceId dpuId : Nat} {r : Rank} (h : Booted cfg sliceId dpuId r) (hci : sliceId < r.nrCis)
    (hrun : r.running sliceId dpuId = false) : RunInv cfg (r.recordLaunchDpu sliceId dpuId) := by
  have hd : dpuId < 8 := BitVec.lt_of_getLsbD h.enabled₁
  have hbits : ∀ ci i, (r.recordLaunchDpu sliceId dpuId).running ci i =
      (r.running ci i || decide (ci = sliceId ∧ i = dpuId)) := by
    intro ci i
    simp only [Rank.running, Rank.recordLaunchDpu, Function.update_apply]
    split
    · rename_i heq
      subst heq
      rw [dpuMaskSelect_bit]
      grind
    · simp [*]
  have hcount : (r.recordLaunchDpu sliceId dpuId).runContext.nbDpuRunning =
      (r.recordLaunchDpu sliceId dpuId).sumCis fun ci =>
        dpuMaskCount ((r.recordLaunchDpu sliceId dpuId).runContext.dpuRunning ci) := by
    have hmem : sliceId ∈ Finset.range r.nrCis := Finset.mem_range.mpr hci
    rw [Rank.sumCis_eq]
    simp only [Rank.recordLaunchDpu]
    rw [h.count, Rank.sumCis_eq, ← Finset.add_sum_erase _ _ hmem, ← Finset.add_sum_erase _ _ hmem,
      Function.update_self, dpuMaskCount_select hd hrun]
    have hrest : ∀ ci ∈ (Finset.range r.nrCis).erase sliceId,
        dpuMaskCount (Function.update r.runContext.dpuRunning sliceId
          (dpuMaskSelect (r.runContext.dpuRunning sliceId) dpuId) ci) = dpuMaskCount (r.runContext.dpuRunning ci) :=
      fun ci hmem => by rw [Function.update_of_ne (Finset.ne_of_mem_erase hmem)]
    rw [Finset.sum_congr rfl hrest]
    omega
  refine ⟨⟨⟨h.valid.config, h.valid.cis, h.valid.dpus, h.valid.enabled⟩, hcount, ?_, h.pairs, ?_⟩, ?_⟩
  · intro ci hci' i hr
    rw [hbits] at hr
    obtain hr | ⟨rfl, rfl⟩ : r.running ci i = true ∨ (ci = sliceId ∧ i = dpuId) := by simpa using hr
    · exact h.enabled ci hci' i hr
    · exact h.enabled₁
  · intro ci hci' i hr
    rw [hbits] at hr
    obtain hr | ⟨rfl, rfl⟩ : r.running ci i = true ∨ (ci = sliceId ∧ i = dpuId) := by simpa using hr
    · exact h.exclusion ci hci' i hr
    · exact h.dpuSide
  · intro ci hci' i hl hen
    rw [hbits]
    simpa using h.live ci hci' i hl hen

/-- The boot of one DPU reaches that DPU only. -/
theorem Rank.reached_dpu {r : Rank} {sliceId dpuId : Nat} (hen : r.dpuEnabled sliceId dpuId = true) {ci i : Nat}
    (h : ((r.select (SliceInfo.dpuTarget · dpuId) (dpuMaskOne sliceId)).reached
      (r.selected (SliceInfo.dpuTarget · dpuId) (dpuMaskOne sliceId)) ci).getLsbD i = true) :
    ci = sliceId ∧ i = dpuId := by
  have hd : dpuId < 8 := BitVec.lt_of_getLsbD hen
  unfold Rank.reached at h
  split at h
  · rename_i hv
    simp only [Rank.visits, Bool.and_eq_true, decide_eq_true_eq, Rank.selected, BitVec.getLsbD_and,
      dpuMaskOne_bit] at hv
    obtain ⟨hlt, ⟨_, rfl⟩, _⟩ := hv
    have hvisits : r.visits (dpuMaskOne ci) ci = true := by
      rw [(r.select_quiet _ _).nrCis] at hlt
      simp [Rank.visits, *, -BitVec.getLsbD_eq_getElem]
    have hwant : (r.sliceInfo ci).dpuTarget dpuId = some (.dpu dpuId) := by
      refine if_pos fun h0 => ?_
      have hbit := congrArg (fun m : Mask => m.getLsbD dpuId) h0
      simp only [BitVec.getLsbD_and, dpuMaskOne_bit] at hbit
      rw [Rank.dpuEnabled] at hen
      simp [hen, hd, -BitVec.getLsbD_eq_getElem] at hbit
    simp only [Rank.select, hvisits, if_true, hwant, SliceInfo.selectedDpuMask, SliceInfo.retarget,
      Option.getD_some, dpuMaskOne_bit, decide_eq_true_eq] at h
    exact ⟨rfl, h.2⟩
  · simp at h

theorem ciStartThreadDpu_spec {r : Rank} (hinv : RunInv cfg r) {sliceId dpuId : Nat} (hci : sliceId < r.nrCis)
    (hen : r.dpuEnabled sliceId dpuId = true) (resume : Bool) :
    Triple (fun s => s = r) (ciStartThreadDpu sliceId dpuId resume)
      (fun _ s => Booted cfg sliceId dpuId s ∧ s.runContext = r.runContext) fun _ => RunInv cfg := by
  have hcis := hinv.valid.cis
  have hd : dpuId < 8 := BitVec.lt_of_getLsbD hen
  refine triple_get fun r' hr' => ?_
  subst hr'
  refine triple_bind ((dpuSwitchMuxForDpuLine_spec hcis hinv.valid.dpus dpuId _).weaken (fun _ h => h)
    (fun _ _ h => h) (fun _ _ h => h.1 ▸ hinv)) fun _ => triple_each fun s hs => ?_
  have hside : s.hostMux sliceId dpuId = false := by
    rw [hs.hostMux sliceId hci dpuId hd, if_pos (onPair_self (hinv.valid.enabled sliceId hci dpuId hen))]
    exact r'.launchMuxMask_bit _ _ (by simp [show sliceId < 8 by omega, -BitVec.getLsbD_eq_getElem])
  have hen' : s.dpuEnabled sliceId dpuId = true := by rw [hs.dpuEnabled]; exact hen
  refine triple_bind (ufiSelect_spec s (SliceInfo.dpuTarget · dpuId) (dpuMaskOne sliceId)) fun _ =>
    triple_each fun t ht => ?_
  obtain ⟨rfl, rfl⟩ := ht
  have hquiet := s.select_quiet (SliceInfo.dpuTarget · dpuId) (dpuMaskOne sliceId)
  have hinv' := (hinv.lineSwitch hs).quiet hquiet
  have hbooted : Booted cfg sliceId dpuId ((s.select (SliceInfo.dpuTarget · dpuId) (dpuMaskOne sliceId)).boot
      (s.selected (SliceInfo.dpuTarget · dpuId) (dpuMaskOne sliceId))) := by
    refine ⟨hinv'.toRecordInv.boot _, ?_, ?_, fun ci hci' i hl hen'' => ?_⟩
    · exact (hquiet.hostMux sliceId dpuId).trans hside
    · exact (hquiet.dpuEnabled sliceId dpuId).trans hen'
    · obtain hl | hreach := Rank.boot_live _ _ hl
      · exact .inl (hinv'.live ci hci' i hl hen'')
      · exact .inr (Rank.reached_dpu hen' hreach)
  have hctx := hquiet.runContext.trans hs.runContext
  refine triple_ite (fun _ => triple_modify ?_) fun _ => triple_modify ?_
  all_goals
    rintro _ rfl
    exact ⟨hbooted, hctx⟩

theorem dpuPollDpu_spec (sliceId dpuId : Nat) :
    Triple (RunInv cfg) (dpuPollDpu sliceId dpuId)
      (fun polled s => RunInv cfg s ∧ polled.1 = s.running sliceId dpuId) fun _ => RunInv cfg := by
  refine triple_get fun r hr => triple_ite (fun _ => triple_throw fun _ h => h ▸ hr) fun _ => ?_
  refine triple_bind (R := fun _ => RunInv cfg) (dpuPollRank_keeps.pre fun _ h => h ▸ hr) fun _ => ?_
  refine triple_get fun s hs => triple_pure ?_
  rintro _ rfl
  exact ⟨hs, rfl⟩

theorem dpuLaunchThreadOnDpu_keeps {sliceId : Nat} (hci : sliceId < cfg.nrCis) (dpuId thread : Nat) (resume : Bool) :
    Keeps (RunInv cfg) (dpuLaunchThreadOnDpu sliceId dpuId thread resume) := by
  refine triple_get fun r hr => triple_ite (fun _ => triple_throw fun _ h => h ▸ hr) fun hen => ?_
  refine triple_ite (fun _ => triple_throw fun _ h => h ▸ hr) fun _ => ?_
  refine triple_bind ((dpuPollDpu_spec sliceId dpuId).pre fun _ h => h ▸ hr) fun polled => triple_each fun s hs => ?_
  -- neither the topology nor the enabled DPUs change
  have hcfg : s.config = r.config := hs.1.valid.config.trans hr.valid.config.symm
  have hci' : ∀ t, RecordInv cfg t → sliceId < t.nrCis := fun t ht => by
    have h := congrArg Config.nrCis ht.valid.config
    simp only [Rank.config] at h
    omega
  have hen' : s.dpuEnabled sliceId dpuId = true := by
    have h := congrFun (congrArg Config.enabledDpus hcfg) sliceId
    simp only [Rank.config] at h
    rw [Rank.dpuEnabled, h]
    simpa [Rank.dpuEnabled] using hen
  refine triple_bind (ciStartThreadDpu_spec hs.1 (hci' s hs.1.toRecordInv) hen' resume) fun _ => ?_
  have hsame : ∀ t : Rank, t.runContext = s.runContext → t.running sliceId dpuId = polled.1 := fun t ht => by
    rw [hs.2, Rank.running, Rank.running, ht]
  refine triple_ite (fun hnot => triple_modify ?_) fun hwas => triple_pure ?_
  · rintro t ⟨hb, hctx⟩
    exact hb.recordLaunchDpu (hci' t hb.toRecordInv) (by rw [hsame t hctx]; simpa using hnot)
  · rintro t ⟨hb, hctx⟩
    exact hb.running (by rw [hsame t hctx]; simpa using hwas)

/-! ## Transferring -/

theorem dpuGetEnabled_keeps (I : Rank → Prop) (sliceId dpuId : Nat) : Keeps I (dpuGetEnabled sliceId dpuId) :=
  triple_get fun _ hr => triple_ite (fun _ => triple_pure fun _ h => h ▸ hr) fun _ => triple_throw fun _ h => h ▸ hr

theorem dpuGetBothEnabled_keeps (I : Rank → Prop) (sliceId dpuId : Nat) : Keeps I (dpuGetBothEnabled sliceId dpuId) :=
  (dpuGetEnabled_keeps I sliceId dpuId).bind fun _ =>
    triple_ite (fun _ => dpuGetEnabled_keeps I sliceId (dpuId + 1)) fun _ => triple_pure fun _ h => h

theorem scanPair_keeps (I : Rank → Prop) (m : DpuTransferMatrix) (d : Nat) :
    ∀ (cis : List Nat) (first second : Bool), Keeps I (scanPair m d cis first second)
  | [], _, _ => triple_pure fun _ h => h
  | ci :: cis, first, second => by
    refine Keeps.bind (dpuGetBothEnabled_keeps I ci d) fun bothEnabled => ?_
    refine triple_get fun r hr => triple_ite (fun _ => ?_) fun _ => triple_ite (fun _ => triple_pure ?_) fun _ => ?_
    · exact (scanPair_keeps I m d cis _ _).pre fun _ h => h ▸ hr
    · exact fun _ h => h ▸ hr
    · exact (scanPair_keeps I m d cis _ _).pre fun _ h => h ▸ hr

theorem scanPairs_keeps (I : Rank → Prop) (m : DpuTransferMatrix) : ∀ ds, Keeps I (scanPairs m ds)
  | [] => triple_pure fun _ h => h
  | d :: ds => by
    refine triple_get fun r hr => ?_
    refine triple_bind (R := fun _ => I) ((scanPair_keeps I m d _ false false).pre fun _ h => h ▸ hr) fun _ => ?_
    exact triple_ite (fun _ => triple_pure fun _ h => h) fun _ => scanPairs_keeps I m ds

/-- The search for a pair to split reads the rank only. -/
theorem duplicationNeeded_keeps (I : Rank → Prop) (m : DpuTransferMatrix) : Keeps I (duplicationNeeded m) := by
  refine triple_get fun r hr => triple_ite (fun _ => triple_pure fun _ h => h ▸ hr) fun _ => ?_
  refine triple_ite (fun _ => ?_) fun _ => triple_pure fun _ h => h ▸ hr
  exact (scanPairs_keeps I m _).pre fun _ h => h ▸ hr

theorem hostGetAccessForPair_keeps (m : DpuTransferMatrix) (d : Nat) : Keeps (RunInv cfg) (hostGetAccessForPair m d) := by
  refine triple_get fun r hr => triple_ite (fun _ => triple_throw fun _ h => h ▸ hr) fun _ => ?_
  refine triple_ite (fun _ => triple_pure fun _ h => h ▸ hr) fun _ => ?_
  refine triple_ite (fun _ => triple_throw fun _ h => h ▸ hr) fun _ => ?_
  refine triple_bind (R := fun _ => RunInv cfg) ((dpuSwitchMuxForDpuLine_keeps d _).pre fun _ h => h ▸ hr) fun _ => ?_
  exact dpuSwitchMuxForDpuLine_keeps (d + 1) _

theorem hostGetAccessForTransferMatrix_keeps (m : DpuTransferMatrix) :
    Keeps (RunInv cfg) (hostGetAccessForTransferMatrix m) :=
  triple_get fun _ hr => (keeps_forM fun d _ => hostGetAccessForPair_keeps m d).pre fun _ h => h ▸ hr

theorem hostGetAccessForTransfer_keeps (m : DpuTransferMatrix) : Keeps (RunInv cfg) (hostGetAccessForTransfer m) := by
  refine triple_get fun r hr => triple_ite (fun _ => ?_) fun _ => ?_
  · exact (dpuSwitchMuxForRank_keeps true).pre fun _ h => h ▸ hr
  · exact (hostGetAccessForTransferMatrix_keeps m).pre fun _ h => h ▸ hr

/-- Handing a matrix to the backend changes no record of the rank. -/
theorem doMramTransfer_keeps (toMram : Bool) (m : DpuTransferMatrix) : Keeps (RunInv cfg) (doMramTransfer toMram m) := by
  refine triple_ite (fun _ => triple_modify fun r h => ?_) fun _ => triple_pure fun _ h => h
  exact ⟨⟨⟨h.valid.config, h.valid.cis, h.valid.dpus, h.valid.enabled⟩, h.count, h.enabled, h.pairs, h.exclusion⟩, h.live⟩

theorem copyMramForDpus_keeps (toMram : Bool) (m : DpuTransferMatrix) :
    Keeps (RunInv cfg) (copyMramForDpus toMram m) := by
  refine Keeps.bind (duplicationNeeded_keeps _ m) fun duplicate => triple_ite (fun _ => ?_) fun _ => ?_
  · exact (hostGetAccessForTransfer_keeps m).bind fun _ => doMramTransfer_keeps toMram m
  · refine triple_get fun r hr => ?_
    have hhalf : ∀ parity, Keeps (RunInv cfg) (hostGetAccessForTransferMatrix (r.halfMatrix m parity)) :=
      fun parity => hostGetAccessForTransferMatrix_keeps (r.halfMatrix m parity)
    have hdo : ∀ parity, Keeps (RunInv cfg) (doMramTransfer toMram (r.halfMatrix m parity)) :=
      fun parity => doMramTransfer_keeps toMram (r.halfMatrix m parity)
    refine Triple.pre ?_ fun _ h => h ▸ hr
    exact (hhalf 0).bind fun _ => (hdo 0).bind fun _ => (hhalf 1).bind fun _ => hdo 1

/-! ## Runs -/

inductive Call where
  | launchThreadOnRank (thread : Nat) (shouldResume : Bool)
  | launchThreadOnDpu (sliceId dpuId thread : Nat) (shouldResume : Bool)
  | pollRank
  | copyToMrams (m : DpuTransferMatrix)
  | copyFromMrams (m : DpuTransferMatrix)

def Call.program : Call → RankM PUnit
  | .launchThreadOnRank thread resume => dpuLaunchThreadOnRank thread resume
  | .launchThreadOnDpu sliceId dpuId thread resume => dpuLaunchThreadOnDpu sliceId dpuId thread resume
  | .pollRank => dpuPollRank
  | .copyToMrams m => ciCopyToMrams m
  | .copyFromMrams m => ciCopyFromMrams m

/-- A call on a DPU is on a DPU of the rank. -/
def Call.On (r : Rank) : Call → Prop
  | .launchThreadOnDpu sliceId dpuId _ _ => sliceId < r.nrCis ∧ dpuId < r.nrDpus
  | _ => True

/-- The calls one after the other, whatever each returns. -/
def Rank.runCalls (r : Rank) (calls : List Call) : Rank := calls.foldl (fun r c => finalState c.program r) r

theorem Call.program_keeps {c : Call} {r : Rank} (hon : c.On r) : Keeps (RunInv r.config) c.program := by
  cases c with
  | launchThreadOnRank thread resume => exact dpuLaunchThreadOnRank_keeps thread resume
  | launchThreadOnDpu sliceId dpuId thread resume => exact dpuLaunchThreadOnDpu_keeps hon.1 dpuId thread resume
  | pollRank => exact dpuPollRank_keeps
  | copyToMrams m => exact copyMramForDpus_keeps true m
  | copyFromMrams m => exact copyMramForDpus_keeps false m

theorem runCalls_inv {r₀ : Rank} (calls : List Call) (hon : ∀ c ∈ calls, c.On r₀) :
    ∀ r, RunInv r₀.config r → RunInv r₀.config (r.runCalls calls) := by
  induction calls with
  | nil => exact fun r h => h
  | cons c calls ih =>
    intro r h
    refine ih (fun c' hc' => hon c' (List.mem_cons_of_mem _ hc')) _ ?_
    exact (Call.program_keeps (hon c (List.mem_cons_self ..))).finalState h

/-- A rank as its allocation or its reset leaves it: nothing runs, and the muxes of an
interface are recorded on one side. Which one depends on the profile. -/
structure Rank.Allocated (r : Rank) : Prop where
  cis : r.nrCis ≤ 8
  dpus : r.nrDpus ≤ 8
  enabled : ∀ ci < r.nrCis, ∀ i, r.dpuEnabled ci i = true → i < r.nrDpus
  dpuRunning : ∀ ci, r.runContext.dpuRunning ci = 0
  nbDpuRunning : r.runContext.nbDpuRunning = 0
  hostMux : ∀ ci < r.nrCis, (r.sliceInfo ci).hostMuxMramState = 0 ∨ (r.sliceInfo ci).hostMuxMramState = dpuMaskAll r.nrDpus
  idle : ∀ ci < r.nrCis, ∀ i, r.dpuEnabled ci i = true → r.live ci i = false

theorem Rank.Allocated.inv {r : Rank} (h : r.Allocated) : RunInv r.config r := by
  have hrun : ∀ ci i, r.running ci i = false := by
    intro ci i
    rw [Rank.running, h.dpuRunning]
    simp
  refine ⟨⟨⟨rfl, h.cis, h.dpus, h.enabled⟩, ?_, ?_, ?_, ?_⟩, ?_⟩
  · rw [h.nbDpuRunning, Rank.sumCis_eq]
    symm
    refine Finset.sum_eq_zero fun ci _ => dpuMaskCount_eq_zero.mpr fun i _ => hrun ci i
  · intro ci _ i hr
    rw [hrun] at hr
    contradiction
  · intro ci hci i _ hlt
    have hdpus := h.dpus
    rw [Rank.hostMux, Rank.hostMux]
    obtain hside | hside := h.hostMux ci hci
    · rw [hside]
      simp
    · rw [hside]
      simp only [dpuMaskAll_bit, decide_eq_true (show i < 8 ∧ i < r.nrDpus by omega),
        decide_eq_true (show i + 1 < 8 ∧ i + 1 < r.nrDpus by omega)]
  · intro ci _ i hr
    rw [hrun] at hr
    contradiction
  · intro ci hci i hl hen
    rw [h.idle ci hci i hen] at hl
    contradiction

/-- After any sequence of calls, the counter is the number of DPUs recorded as
running, these are enabled, the DPUs of a pair are recorded on the same side, and
a DPU recorded as running is recorded on the DPU side. -/
theorem runs_keep_running_and_mux_apart (r₀ : Rank) (h₀ : r₀.Allocated) (calls : List Call)
    (hon : ∀ c ∈ calls, c.On r₀) (r : Rank) (hr : r = r₀.runCalls calls) :
    (r.nrCis = r₀.nrCis ∧ r.nrDpus = r₀.nrDpus) ∧
    r.runContext.nbDpuRunning = ∑ ci ∈ Finset.range r.nrCis, dpuMaskCount (r.runContext.dpuRunning ci) ∧
    (∀ ci < r.nrCis, r.runContext.dpuRunning ci &&& ~~~(r.sliceInfo ci).enabledDpus = 0) ∧
    (∀ ci < r.nrCis, ∀ i, i % 2 = 0 → i + 1 < r.nrDpus → r.hostMux ci i = r.hostMux ci (i + 1)) ∧
    (∀ ci < r.nrCis, r.runContext.dpuRunning ci &&& (r.sliceInfo ci).hostMuxMramState = 0) := by
  subst hr
  have h := runCalls_inv calls hon r₀ h₀.inv
  refine ⟨⟨congrArg Config.nrCis h.valid.config, congrArg Config.nrDpus h.valid.config⟩, ?_, ?_, h.pairs, ?_⟩
  · rw [h.count, Rank.sumCis_eq]
  · intro ci hci
    refine mask_ext fun i hi => ?_
    have hen := h.enabled ci hci i
    rw [Rank.running, Rank.dpuEnabled] at hen
    simp only [BitVec.getLsbD_and, BitVec.getLsbD_not]
    grind
  · intro ci hci
    refine mask_ext fun i hi => ?_
    have hexcl := h.exclusion ci hci i
    rw [Rank.running, Rank.hostMux] at hexcl
    simp only [BitVec.getLsbD_and]
    grind

/-- Two interfaces of two DPUs; DPU 1 of interface 1 is disabled. DPU 1 of interface 0
stops before command 6. -/
def sampleRank : Rank where
  nrCis := 2
  nrDpus := 2
  nrThreads := 24
  apiMustSwitchMramMux := true
  initMramMux := false
  sliceInfo ci :=
    { structureValue := 0
      sliceTarget := .none
      hostMuxMramState := 0
      dpusPerGroup := fun g => if g = 0 then (if ci = 0 then 3 else 1) else 0
      enabledDpus := if ci = 0 then 3 else 1
      allDpusAreEnabled := ci = 0 }
  runContext := ⟨fun _ => 0, fun _ => 0, 0⟩
  hw := ⟨fun _ => 0, fun _ => 0, fun _ => 0⟩
  schedule k := ⟨fun ci => if k = 6 ∧ ci = 0 then 2 else 0, fun _ => 0, fun _ => 0, fun _ => 0⟩
  clock := 0
  xferCalls := []

/-- A buffer for each enabled DPU. -/
def sampleMatrix : DpuTransferMatrix where
  buffers := .ptr fun k => if k < 3 then 4096 else 0
  offset := 0
  size := 8

def sampleCalls : List Call :=
  [.copyToMrams sampleMatrix, .launchThreadOnDpu 0 1 0 false, .copyToMrams sampleMatrix, .pollRank,
    .launchThreadOnRank 0 true]

theorem sampleRank_allocated : sampleRank.Allocated := by
  refine ⟨by decide, by decide, ?_, fun _ => rfl, rfl, fun _ _ => .inl rfl,
    fun _ _ _ _ => by simp [Rank.live, sampleRank]⟩
  intro ci _ i hen
  have hi : i < 8 := BitVec.lt_of_getLsbD hen
  have hall : ∀ i < 8, i < 2 ∨ (∀ m ∈ [(3 : Mask), 1], m.getLsbD i = false) := by decide
  obtain h | h := hall i hi
  · exact h
  · simp only [Rank.dpuEnabled, sampleRank] at hen
    split at hen
    · rw [h 3 (by simp)] at hen
      contradiction
    · rw [h 1 (by simp)] at hen
      contradiction

theorem runs_keep_running_and_mux_apart_sample :
    (sampleRank.runCalls sampleCalls).runContext.dpuRunning 0
      &&& ((sampleRank.runCalls sampleCalls).sliceInfo 0).hostMuxMramState = 0 :=
  (runs_keep_running_and_mux_apart sampleRank sampleRank_allocated sampleCalls
    (by simp [sampleCalls, Call.On, sampleRank]) _ rfl).2.2.2.2 0 (by decide)

/-- Both interfaces run in the end, all muxes on the DPU side; the transfer was
refused while DPU 1 of interface 0 ran. -/
example : (sampleRank.runCalls sampleCalls).runContext.nbDpuRunning = 3
    ∧ ((sampleRank.runCalls sampleCalls).sliceInfo 1).hostMuxMramState = 0
    ∧ (sampleRank.runCalls (sampleCalls.take 4)).xferCalls.length = 1
    ∧ (sampleRank.runCalls (sampleCalls.take 4)).runContext.nbDpuRunning = 0 := by decide

end DpuBackend.Ufi
