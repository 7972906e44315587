import DpuBackend.Ufi.Memory
import DpuBackend.Ufi.MuxSpec

/-
  Access to the MRAMs a transfer matrix names.

  `duplicationNeeded_spec` says which matrices are split, and
  `hostGetAccessForTransferMatrix_spec` where the muxes are once the access is
  taken, or that it stopped at the mux-conflict assertion.
-/

namespace DpuBackend.Ufi

open DpuBackend.Lib DpuBackend.Xeon

/-! ## When the matrix is split -/

/-- At interface `ci` of a walk that began at `k`, only one of two enabled DPUs has a
transfer, this is the first such interface, and each line has had a transfer. -/
def SplitsAt (both first second : Nat → Bool) (k : Nat) (seen₁ seen₂ : Bool) (ci : Nat) : Prop :=
  both ci = true ∧ first ci ≠ second ci
    ∧ (∀ ci', k ≤ ci' → ci' < ci → both ci' = true → first ci' = second ci')
    ∧ (seen₁ = true ∨ ∃ ci', k ≤ ci' ∧ ci' ≤ ci ∧ both ci' = true ∧ first ci' = true)
    ∧ (seen₂ = true ∨ ∃ ci', k ≤ ci' ∧ ci' ≤ ci ∧ both ci' = true ∧ second ci' = true)

section

variable {both first second : Nat → Bool} {k ci : Nat} {seen₁ seen₂ : Bool}

/-- An interface with a disabled DPU is passed over. -/
theorem splitsAt_disabled (h : both k = false) :
    (k ≤ ci ∧ SplitsAt both first second k seen₁ seen₂ ci)
      ↔ k + 1 ≤ ci ∧ SplitsAt both first second (k + 1) seen₁ seen₂ ci := by
  unfold SplitsAt
  grind

/-- The walk ends where the two differ. -/
theorem splitsAt_differ (h : both k = true) (hne : first k ≠ second k) :
    (k ≤ ci ∧ SplitsAt both first second k seen₁ seen₂ ci)
      ↔ ci = k ∧ (seen₁ || first k) = true ∧ (seen₂ || second k) = true := by
  unfold SplitsAt
  grind

/-- It goes on where they agree. -/
theorem splitsAt_agree (h : both k = true) (heq : first k = second k) :
    (k ≤ ci ∧ SplitsAt both first second k seen₁ seen₂ ci)
      ↔ k + 1 ≤ ci ∧ SplitsAt both first second (k + 1) (seen₁ || first k) (seen₂ || second k) ci := by
  unfold SplitsAt
  grind

end

def Rank.bothEnabled (r : Rank) (d ci : Nat) : Bool := r.dpuEnabled ci d && r.dpuEnabled ci (d + 1)

/-- The matrix is split: on some pair, an interface parts two enabled DPUs after
both lines have had a transfer. -/
def Rank.Split (r : Rank) (m : DpuTransferMatrix) : Prop :=
  ∃ d ∈ r.pairs, ∃ ci < r.nrCis,
    SplitsAt (r.bothEnabled d) (r.hasTransfer m · d) (r.hasTransfer m · (d + 1)) 0 false false ci

theorem mem_pairs {r : Rank} {d : Nat} : d ∈ r.pairs ↔ d % 2 = 0 ∧ d < r.nrDpus := by
  simp only [Rank.pairs, List.mem_map, List.mem_range]
  constructor
  · rintro ⟨i, hi, rfl⟩
    omega
  · rintro ⟨h0, hd⟩
    exact ⟨d / 2, by omega, by omega⟩

theorem run_dpuGetBothEnabled {r : Rank} {ci d : Nat} (hci : ci < r.nrCis) (hd : d + 1 < r.nrDpus) :
    (dpuGetBothEnabled ci d).run r = .ok (r.bothEnabled d ci) r := by
  have hget : ∀ i < r.nrDpus, (dpuGetEnabled ci i).run r = .ok (r.dpuEnabled ci i) r := by
    intro i hi
    show (if ci < r.nrCis ∧ i < r.nrDpus then pure (r.dpuEnabled ci i) else throw .nullDpu : RankM Bool).run r = _
    rw [if_pos ⟨hci, hi⟩]
    rfl
  rw [dpuGetBothEnabled, EStateM.run_bind, hget d (by omega)]
  cases h : r.dpuEnabled ci d
  · rw [Rank.bothEnabled, h]
    rfl
  · rw [Rank.bothEnabled, h, Bool.true_and]
    exact hget (d + 1) hd

theorem scanPair_spec {r : Rank} (m : DpuTransferMatrix) {d : Nat} (hd : d + 1 < r.nrDpus) :
    ∀ (n k : Nat) (seen₁ seen₂ : Bool), k + n = r.nrCis →
      Triple (fun s => s = r) (scanPair m d (List.range' k n) seen₁ seen₂)
        (fun scan s => s = r ∧ ((scan.1 && scan.2.1 && scan.2.2) = true ↔ ∃ ci < r.nrCis, k ≤ ci ∧
          SplitsAt (r.bothEnabled d) (r.hasTransfer m · d) (r.hasTransfer m · (d + 1)) k seen₁ seen₂ ci))
        fun _ _ => False
  | 0, k, seen₁, seen₂, hk => by
    refine triple_pure fun s hs => ⟨hs, ?_⟩
    simp only [Bool.and_false, Bool.false_eq_true, false_iff, not_exists, not_and]
    omega
  | n + 1, k, seen₁, seen₂, hk => by
    rw [List.range'_succ]
    refine triple_bind (R := fun b s => s = r ∧ b = r.bothEnabled d k) ?_ fun b => triple_each fun s hs => ?_
    · rintro _ rfl
      rw [run_dpuGetBothEnabled (by omega) hd]
      exact ⟨rfl, rfl⟩
    obtain ⟨rfl, rfl⟩ := hs
    refine triple_get fun _ hs => ?_
    subst hs
    rename_i s
    refine triple_ite (fun hb => ?_) fun hb => triple_ite (fun hne => ?_) fun heq => ?_
    · refine (scanPair_spec m hd n (k + 1) seen₁ seen₂ (by omega)).post fun scan t ht => ⟨ht.1, ht.2.trans ?_⟩
      refine exists_congr fun ci => and_congr_right fun _ => (splitsAt_disabled ?_).symm
      simpa using hb
    · refine triple_pure fun t ht => ⟨ht, ?_⟩
      have hdiff : ∀ ci, (k ≤ ci ∧ SplitsAt (s.bothEnabled d) (s.hasTransfer m · d) (s.hasTransfer m · (d + 1)) k seen₁
          seen₂ ci) ↔ ci = k ∧ (seen₁ || s.hasTransfer m k d) = true ∧ (seen₂ || s.hasTransfer m k (d + 1)) = true :=
        fun ci => splitsAt_differ (by simpa using hb) hne
      simp only [hdiff, Bool.and_true]
      constructor
      · exact fun h => ⟨k, by omega, rfl, by simpa using h⟩
      · rintro ⟨ci, -, -, h⟩
        simpa using h
    · refine (scanPair_spec m hd n (k + 1) _ _ (by omega)).post fun scan t ht => ⟨ht.1, ht.2.trans ?_⟩
      refine exists_congr fun ci => and_congr_right fun _ => (splitsAt_agree ?_ ?_).symm
      · simpa using hb
      · simpa using heq

theorem scanPairs_spec {r : Rank} (m : DpuTransferMatrix) :
    ∀ ds : List Nat, (∀ d ∈ ds, d + 1 < r.nrDpus) →
      Triple (fun s => s = r) (scanPairs m ds)
        (fun b s => s = r ∧ (b = true ↔ ∃ d ∈ ds, ∃ ci < r.nrCis,
          SplitsAt (r.bothEnabled d) (r.hasTransfer m · d) (r.hasTransfer m · (d + 1)) 0 false false ci))
        fun _ _ => False
  | [], _ => triple_pure fun _ hs => ⟨hs, by simp⟩
  | d :: ds, hds => by
    refine triple_get fun s hs => ?_
    subst hs
    have hscan := scanPair_spec m (hds d (List.mem_cons_self ..)) s.nrCis 0 false false (Nat.zero_add _)
    rw [← List.range_eq_range'] at hscan
    simp only [Nat.zero_le, true_and] at hscan
    refine triple_bind hscan fun scan => triple_each fun t ht => ?_
    obtain ⟨rfl, hiff⟩ := ht
    refine triple_ite (fun hit => triple_pure fun u hu => ⟨hu, ?_⟩) fun hmiss => ?_
    · simpa using Or.inl (hiff.mp hit)
    · refine (scanPairs_spec m ds fun d' hd' => hds d' (List.mem_cons_of_mem _ hd')).post fun b u hu => ⟨hu.1, ?_⟩
      rw [hu.2]
      have hnot := mt hiff.mpr hmiss
      simp only [List.mem_cons, exists_eq_or_imp, hnot, false_or]

theorem duplicationNeeded_spec {r : Rank} (heven : r.nrDpus % 2 = 0) (hapi : r.apiMustSwitchMramMux = true)
    (m : DpuTransferMatrix) :
    Triple (fun s => s = r) (duplicationNeeded m) (fun b s => s = r ∧ (b = true ↔ r.Split m)) fun _ _ => False := by
  refine triple_get fun s hs => ?_
  subst hs
  refine triple_ite (fun hle => triple_pure fun t ht => ⟨ht, ?_⟩) fun _ => triple_ite (fun _ => ?_) fun h => absurd hapi h
  · simp only [Bool.false_eq_true, false_iff, Rank.Split, not_exists, not_and]
    intro d hd
    have := mem_pairs.mp hd
    omega
  · refine scanPairs_spec m _ fun d hd => ?_
    have := mem_pairs.mp hd
    omega

/-! ## Where the muxes are after the access -/

/-- The enabled DPUs with a transfer, of both lines of the pair of `i`. -/
def Rank.pairMask (r : Rank) (m : DpuTransferMatrix) (i : Nat) : Mask :=
  r.xferMask m (pairBase i) ||| r.xferMask m (pairBase i + 1)

/-- The mux of a DPU once the access is taken: a pair without any transfer stays. -/
def Rank.muxFor (r : Rank) (m : DpuTransferMatrix) (ci i : Nat) : Bool :=
  if r.pairMask m i = 0 then r.hostMux ci i else (r.pairMask m i).getLsbD ci

/-- The lines of a pair that ask for muxes at all ask for the same. -/
def Rank.Compatible (r : Rank) (m : DpuTransferMatrix) (d : Nat) : Prop :=
  r.xferMask m d = 0 ∨ r.xferMask m (d + 1) = 0 ∨ r.xferMask m d = r.xferMask m (d + 1)

def Rank.NoConflict (r : Rank) (m : DpuTransferMatrix) : Prop := ∀ d ∈ r.pairs, r.Compatible m d

/-- A rank whose transfers are looked at: eight interfaces of an even number of
DPUs, whose muxes the API switches and has recorded; nothing runs. -/
structure Rank.Ready (r : Rank) : Prop where
  cis : r.nrCis = 8
  dpus : r.nrDpus ≤ 8
  even : r.nrDpus % 2 = 0
  api : r.apiMustSwitchMramMux = true
  idle : ∀ ci < r.nrCis, r.runContext.dpuRunning ci = 0
  nbDpuRunning : r.runContext.nbDpuRunning = 0
  synced : r.Synced

theorem Rank.Ready.not_busy {r : Rank} (h : r.Ready) : ¬r.Busy := by
  rintro ⟨ci, hci, i, hrun⟩
  rw [Rank.running, h.idle ci hci] at hrun
  simp at hrun

theorem Frame.hasTransfer {r r' : Rank} (h : Frame r r') (m : DpuTransferMatrix) (ci d : Nat) :
    r'.hasTransfer m ci d = r.hasTransfer m ci d := by
  simp only [Rank.hasTransfer, Rank.xferIndex, h.nrCis]

theorem Frame.xferMask {r r' : Rank} (h : Frame r r') (m : DpuTransferMatrix) (d : Nat) :
    r'.xferMask m d = r.xferMask m d := by
  simp only [Rank.xferMask, h.nrCis, h.dpuEnabled, h.hasTransfer]

theorem Frame.ready {r r' : Rank} (h : Frame r r') (hr : r.Ready) (hs : r'.Synced) : r'.Ready where
  cis := h.nrCis.trans hr.cis
  dpus := by rw [h.nrDpus]; exact hr.dpus
  even := by rw [h.nrDpus]; exact hr.even
  api := h.apiMustSwitch.trans hr.api
  idle := by rw [h.nrCis, h.runContext]; exact hr.idle
  nbDpuRunning := by rw [h.runContext]; exact hr.nbDpuRunning
  synced := hs

/-- The pairs of `rest` are still to come. -/
structure Prepared (r : Rank) (m : DpuTransferMatrix) (rest : List Nat) (s : Rank) : Prop extends Frame r s where
  synced : s.Synced
  done : ∀ ci < r.nrCis, ∀ i < r.nrDpus, pairBase i ∉ rest → s.hostMux ci i = r.muxFor m ci i
  same : ∀ ci < r.nrCis, ∀ i < r.nrDpus, r.pairMask m i = 0 → s.hostMux ci i = r.hostMux ci i
  compatible : ∀ d ∈ r.pairs, d ∉ rest → r.Compatible m d

theorem onPair_iff {r : Rank} {d i : Nat} (heven : d % 2 = 0) (hi : i < r.nrDpus) :
    r.OnPair d i ↔ pairBase i = d := by
  unfold Rank.OnPair pairBase
  omega

theorem onPair_succ {r : Rank} {d i : Nat} (heven : d % 2 = 0) : r.OnPair (d + 1) i ↔ r.OnPair d i := by
  unfold Rank.OnPair pairBase
  omega

/-- A pair without any transfer needs nothing. -/
theorem Prepared.skip {r s : Rank} {m : DpuTransferMatrix} {d : Nat} {rest : List Nat}
    (h : Prepared r m (d :: rest) s) (heven : d % 2 = 0) (h₁ : r.xferMask m d = 0) (h₂ : r.xferMask m (d + 1) = 0) :
    Prepared r m rest s := by
  refine ⟨h.toFrame, h.synced, fun ci hci i hi hrest => ?_, h.same, fun d' hd' hrest => ?_⟩
  · by_cases hpair : pairBase i = d
    · have h0 : r.pairMask m i = 0 := by
        rw [Rank.pairMask, hpair, h₁, h₂]
        rfl
      rw [h.same ci hci i hi h0, Rank.muxFor, if_pos h0]
    · exact h.done ci hci i hi (by simp [hpair, hrest])
  · by_cases hdd : d' = d
    · subst hdd
      exact .inl h₁
    · exact h.compatible d' hd' (by simp [hdd, hrest])

/-- A pair that was switched, twice over. -/
theorem Prepared.switch {r s s₁ s₂ : Rank} {m : DpuTransferMatrix} {d : Nat} {rest : List Nat} (hr : r.Ready)
    (h : Prepared r m (d :: rest) s) (heven : d % 2 = 0) (hcomp : r.Compatible m d)
    (hsome : ¬(r.xferMask m d = 0 ∧ r.xferMask m (d + 1) = 0))
    (hsw₁ : LineSwitch s d (r.xferMask m d ||| r.xferMask m (d + 1)) s₁)
    (hsw₂ : LineSwitch s₁ (d + 1) (r.xferMask m d ||| r.xferMask m (d + 1)) s₂) : Prepared r m rest s₂ := by
  have hdpus := hr.dpus
  have hframe := hsw₁.toFrame.trans hsw₂.toFrame
  have hmux : ∀ ci < r.nrCis, ∀ i < r.nrDpus, s₂.hostMux ci i =
      if pairBase i = d then (r.xferMask m d ||| r.xferMask m (d + 1)).getLsbD ci else s.hostMux ci i := by
    intro ci hci i hi
    rw [← h.nrCis] at hci
    rw [← h.nrDpus] at hi hdpus
    rw [hsw₂.hostMux ci (by rwa [hsw₁.nrCis]) i (by omega), hsw₁.hostMux ci hci i (by omega)]
    simp only [onPair_succ heven, onPair_iff heven hi, onPair_iff heven (show i < s₁.nrDpus by rwa [hsw₁.nrDpus])]
    split <;> rfl
  refine ⟨h.toFrame.trans hframe, hsw₂.synced (hsw₁.synced h.synced), ?_, ?_, fun d' hd' hrest => ?_⟩
  · intro ci hci i hi hrest
    rw [hmux ci hci i hi]
    split
    · rename_i hpair
      have hmask : r.pairMask m i = r.xferMask m d ||| r.xferMask m (d + 1) := by rw [Rank.pairMask, hpair]
      rw [Rank.muxFor, hmask, if_neg fun h0 => hsome (mask_or_eq_zero.mp h0)]
    · exact h.done ci hci i hi (by simp [*])
  · intro ci hci i hi h0
    rw [hmux ci hci i hi]
    split
    · rename_i hpair
      rw [Rank.pairMask, hpair] at h0
      exact absurd (mask_or_eq_zero.mp h0) hsome
    · exact h.same ci hci i hi h0
  · by_cases hdd : d' = d
    · subst hdd
      exact hcomp
    · exact h.compatible d' hd' (by simp [hdd, hrest])

theorem hostGetAccessForPair_spec {r : Rank} (hr : r.Ready) (m : DpuTransferMatrix) {d : Nat} (hd : d ∈ r.pairs)
    (rest : List Nat) :
    Triple (Prepared r m (d :: rest)) (hostGetAccessForPair m d) (fun _ => Prepared r m rest)
      fun e _ => e = .assertion ∧ ¬r.NoConflict m := by
  obtain ⟨heven, hlt⟩ := mem_pairs.mp hd
  have hdpus := hr.even
  refine triple_get fun s hs => triple_ite (fun hnull => ?_) fun _ => ?_
  · rw [hs.nrDpus] at hnull
    omega
  have hmask := hs.toFrame.xferMask m
  have hready := hs.toFrame.ready hr hs.synced
  refine triple_ite (fun hnone => triple_pure fun t ht => ?_) fun hsome => triple_ite (fun hconf => triple_throw ?_) ?_
  · rw [hmask, hmask] at hnone
    exact ht ▸ hs.skip heven hnone.1 hnone.2
  · refine fun _ _ => ⟨rfl, fun hno => hconf ?_⟩
    rw [hmask, hmask]
    exact hno d hd
  · intro hcomp
    rw [not_not] at hcomp
    rw [hmask, hmask] at hsome hcomp ⊢
    have hcis : s.nrCis ≤ 8 := Nat.le_of_eq hready.cis
    refine triple_bind ((dpuSwitchMuxForDpuLine_spec hcis hready.dpus d _).weaken (fun _ h => h) (fun _ _ h => h)
      fun _ _ h => absurd h.2 hready.not_busy) fun _ => triple_each fun s₁ hs₁ => ?_
    have hready₁ := hs₁.toFrame.ready hready (hs₁.synced hs.synced)
    refine (dpuSwitchMuxForDpuLine_spec (by rwa [hs₁.nrCis]) hready₁.dpus (d + 1) _).weaken (fun _ h => h) ?_ ?_
    · exact fun _ _ hs₂ => hs.switch hr heven hcomp hsome hs₁ hs₂
    · exact fun _ _ h => absurd h.2 hready₁.not_busy

/-- The muxes are ready for a transfer of `m`: `mux` says where each one is. -/
structure Accessed (r : Rank) (mux : Nat → Nat → Bool) (s : Rank) : Prop extends Frame r s where
  synced : s.Synced
  hostMux : ∀ ci < r.nrCis, ∀ i < r.nrDpus, s.hostMux ci i = mux ci i

theorem pairBase_mem {r : Rank} {i : Nat} (hi : i < r.nrDpus) : pairBase i ∈ r.pairs := by
  refine mem_pairs.mpr ?_
  unfold pairBase
  omega

theorem hostGetAccessForTransferMatrix_spec {r : Rank} (hr : r.Ready) (m : DpuTransferMatrix) :
    Triple (fun s => s = r) (hostGetAccessForTransferMatrix m)
      (fun _ s => Accessed r (r.muxFor m) s ∧ r.NoConflict m) fun e _ => e = .assertion ∧ ¬r.NoConflict m := by
  refine triple_get fun s hs => ?_
  subst hs
  refine (triple_forM fun d rest hd => hostGetAccessForPair_spec hr m hd rest).weaken ?_ ?_ fun _ _ h => h
  · rintro _ rfl
    refine ⟨Frame.refl _, hr.synced, ?_, fun _ _ _ _ _ => rfl, fun d hd hrest => absurd hd hrest⟩
    exact fun _ _ i hi hrest => absurd (pairBase_mem hi) hrest
  · intro _ t ht
    refine ⟨⟨ht.toFrame, ht.synced, fun ci hci i hi => ht.done ci hci i hi List.not_mem_nil⟩, fun d hd => ?_⟩
    exact ht.compatible d hd List.not_mem_nil

/-- Every enabled DPU has a buffer. -/
theorem isTransferMatrixFull_iff {r : Rank} {m : DpuTransferMatrix} :
    r.isTransferMatrixFull m = true
      ↔ ∀ ci < r.nrCis, ∀ d < r.nrDpus, r.dpuEnabled ci d = true → r.hasTransfer m ci d = true := by
  simp only [Rank.isTransferMatrixFull, List.all_eq_true, List.mem_range, Bool.or_eq_true, Bool.not_eq_true']
  grind

theorem dpuSwitchMuxForRank_access {r : Rank} (hr : r.Ready) (hbound : ∀ ci < r.nrCis, ∀ i, r.hostMux ci i = true → i < r.nrDpus) :
    Triple (fun s => s = r) (dpuSwitchMuxForRank true) (fun _ s => Accessed r (fun _ _ => true) s) fun _ _ => False := by
  have hdpus := hr.dpus
  refine (dpuSwitchMuxForRank_spec (Nat.le_of_eq hr.cis) hdpus true).weaken (fun _ h => h) ?_ ?_
  · intro _ s hs
    refine ⟨hs.toFrame, hs.synced hr.synced, fun ci hci i hi => ?_⟩
    obtain hmux | ⟨-, hmux, hcount⟩ := hs.hostMux
    · rw [hmux ci hci i (by omega)]
      simpa using hi
    · rw [hmux]
      exact dpuMaskCount_all (hbound ci hci) (hcount ci hci) hi
  · intro _ _ h
    have := hr.nbDpuRunning
    omega

end DpuBackend.Ufi
