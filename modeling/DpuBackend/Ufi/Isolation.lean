import DpuBackend.Ufi.LineWrite
import DpuBackend.Ufi.MatrixAccess

/-
  Isolation of MRAM transfers: which DPUs a transfer writes.

  A transfer is isolated when it ends without the mux-conflict assertion, each
  enabled DPU the matrix names holds its buffer, and the MRAM of every other
  enabled DPU is as before.

  `doMramTransfer_spec` says what one matrix does to the memory, given where the
  muxes are; `WriteOutcome` is the outcome of the whole transfer, in one piece or
  in its two halves. `transfer_isolated_iff` says which transfers are isolated.
-/

namespace DpuBackend.Ufi

open DpuBackend.Lib DpuBackend.Xeon

/-! ## One matrix handed to the backend -/

/-- What a write of `m`, with the muxes of the enabled DPUs at `mux`, does to the
memory. -/
structure PassEffect (b : Backend) (r : Rank) (m : DpuTransferMatrix) (ptr : Nat → Nat) (mux : Nat → Nat → Bool)
    (mem mem' : RankMemory) : Prop where
  host : mem'.host = mem.host
  named : ∀ ci < r.nrCis, ∀ d < r.nrDpus, ∀ o < 2 ^ 26, r.dpuEnabled ci d = true → ptr (d * 8 + ci) ≠ 0 →
    mux ci d = true → InRange m o → mem'.mram ci d o = mem.host (ptr (d * 8 + ci) + (o - m.offset))
  reached : ∀ ci < r.nrCis, ∀ d < r.nrDpus, ∀ o < 2 ^ 26, r.dpuEnabled ci d = true → LineNamed r.nrCis m d →
    mux ci d = true → InRange m o → mem'.mram ci d o = regionByte (b.run r.nrCis r.nrDpus m mem).region ci d o
  other : ∀ ci < r.nrCis, ∀ d < r.nrDpus, ∀ o < 2 ^ 26, r.dpuEnabled ci d = true →
    ¬(LineNamed r.nrCis m d ∧ InRange m o ∧ mux ci d = true) → mem'.mram ci d o = mem.mram ci d o

/-- Some matrix handed to the backend had the buffer of the DPU, while its mux was on the
host side. -/
def Transferred (calls : List XferCall) (m : DpuTransferMatrix) (ptr : Nat → Nat) (ci d : Nat) : Prop :=
  ∃ c ∈ calls, c.matrix.offset = m.offset ∧ c.matrix.size = m.size
    ∧ (∃ p, c.matrix.buffers = .ptr p ∧ p (d * 8 + ci) = ptr (d * 8 + ci)) ∧ (c.mux ci).getLsbD d = true

/-- The rank after `m` was handed to the backend: the records stay, and whatever the
threads do the memory changes as `PassEffect` says. -/
structure Passed (r : Rank) (m : DpuTransferMatrix) (ptr : Nat → Nat) (mux : Nat → Nat → Bool) (s : Rank) : Prop where
  ready : s.Ready
  nrCis : s.nrCis = r.nrCis
  nrDpus : s.nrDpus = r.nrDpus
  enabled : ∀ ci i, s.dpuEnabled ci i = r.dpuEnabled ci i
  hostMux : ∀ ci < r.nrCis, ∀ i < r.nrDpus, s.hostMux ci i = mux ci i
  kept : ∀ c ∈ r.xferCalls, c ∈ s.xferCalls
  transferred : ∀ ci < r.nrCis, ∀ d < r.nrDpus, r.dpuEnabled ci d = true → ptr (d * 8 + ci) ≠ 0 → mux ci d = true →
    Transferred s.xferCalls m ptr ci d
  effect : ∀ b : Nat → Backend, (∀ k, (b k).Valid) → ∃ k, ∀ mem,
    PassEffect (b k) r m ptr mux (memoryAfter b r.nrCis r.nrDpus r.xferCalls mem)
      (memoryAfter b r.nrCis r.nrDpus s.xferCalls mem)

theorem doMramTransfer_spec {r s : Rank} (hr : r.Ready) {m : DpuTransferMatrix} {ptr : Nat → Nat}
    (hbuf : m.buffers = .ptr ptr) (hm : ValidRange m) {mux : Nat → Nat → Bool} (hs : Accessed r mux s) (toMram : Bool) :
    Triple (fun t => t = s) (doMramTransfer toMram m) (fun _ t => Passed r m ptr mux t) fun _ _ => False := by
  have hcis := Nat.le_of_eq hr.cis
  have hready := hs.toFrame.ready hr hs.synced
  refine triple_ite (fun _ => triple_modify ?_) fun hnone => triple_pure ?_
  · intro t ht
    subst ht
    have hcalls : t.xferCalls = r.xferCalls := hs.xferCalls
    -- the mux of an enabled DPU is where it is recorded
    have hmux : ∀ ci < r.nrCis, ∀ d < r.nrDpus, r.dpuEnabled ci d = true → (t.hw.mux ci).getLsbD d = mux ci d := by
      intro ci hci d hd hen
      rw [← hs.hostMux ci hci d hd]
      refine hready.synced hready.api ci (by rwa [hs.nrCis]) ?_ d (by rwa [hs.nrDpus])
      intro h0
      rw [← hs.dpuEnabled, Rank.dpuEnabled, h0] at hen
      simp at hen
    refine ⟨⟨hready.cis, hready.dpus, hready.even, hready.api, hready.idle, hready.nbDpuRunning, hready.synced⟩,
      hs.nrCis, hs.nrDpus, hs.dpuEnabled, hs.hostMux, ?_, ?_, fun b hb => ⟨r.xferCalls.length, fun mem => ?_⟩⟩
    · intro c hc
      rw [← hcalls] at hc
      exact List.mem_cons_of_mem _ hc
    · intro ci hci d hd hen _ hon
      exact ⟨_, List.mem_cons_self .., rfl, rfl, ⟨ptr, hbuf, rfl⟩, (hmux ci hci d hd hen).trans hon⟩
    simp only [memoryAfter, hcalls]
    refine ⟨copyToRank_host hbuf, ?_, ?_, ?_⟩
    · intro ci hci d hd o ho hen hp hon hrange
      exact copyToRank_named hbuf (hb _) hcis hr.dpus hm hci hd ho hp ((hmux ci hci d hd hen).trans hon) hrange
    · intro ci hci d hd o ho hen hnamed hon hrange
      exact copyToRank_reached hbuf (hb _) hcis hr.dpus hm hd ho hnamed hrange ((hmux ci hci d hd hen).trans hon)
    · intro ci hci d hd o ho hen hnot
      refine copyToRank_other hbuf (hb _) hcis hr.dpus hm hd ho ?_
      rwa [hmux ci hci d hd hen]
  · intro t ht
    subst ht
    have hcalls : t.xferCalls = r.xferCalls := hs.xferCalls
    have hno : ∀ d < r.nrDpus, ¬LineNamed r.nrCis m d := by
      rintro d hd ⟨ci, hci, hnamed⟩
      refine hnone (List.any_eq_true.mpr ⟨d * 8 + ci, List.mem_range.mpr ?_, hnamed⟩)
      have hdpus := hr.dpus
      have hcis := hr.cis
      show d * 8 + ci < 64
      omega
    refine ⟨hready, hs.nrCis, hs.nrDpus, hs.dpuEnabled, hs.hostMux, fun c hc => hcalls ▸ hc, ?_,
      fun b _ => ⟨0, fun mem => ?_⟩⟩
    · intro ci hci d hd _ hp
      exact absurd ⟨ci, hci, by simp [hbuf, XferBuffers.named, hp]⟩ (hno d hd)
    rw [hcalls]
    refine ⟨rfl, ?_, fun ci _ d hd o _ _ hnamed => absurd hnamed (hno d hd), fun _ _ _ _ _ _ _ _ => rfl⟩
    intro ci hci d hd o ho hen hp
    exact absurd ⟨ci, hci, by simp [hbuf, XferBuffers.named, hp]⟩ (hno d hd)

/-! ## The whole transfer -/

/-- The other line of the pair. -/
def friendLine (d : Nat) : Nat := if d % 2 = 0 then d + 1 else d - 1

/-- Where the mux of a DPU is when its line is written, if the line has no enabled DPU
with a transfer: where its friend's transfers put it, unless the even lines are
written first, or where it was. -/
def Rank.OnHostSide (r : Rank) (m : DpuTransferMatrix) (ci d : Nat) : Prop :=
  if r.xferMask m (friendLine d) = 0 then r.hostMux ci d = true
  else (r.Split m ∧ d % 2 = 0 ∧ r.hostMux ci d = true)
    ∨ (¬(r.Split m ∧ d % 2 = 0) ∧ (r.xferMask m (friendLine d)).getLsbD ci = true)

/-- Where the mux of an enabled DPU is when its line is written. -/
def Rank.LineMux (r : Rank) (m : DpuTransferMatrix) (ci d : Nat) : Prop :=
  if r.xferMask m d = 0 then r.OnHostSide m ci d else (r.xferMask m d).getLsbD ci = true

/-- A line whose only transfers are those of disabled DPUs is written all the same: no
enabled DPU of it may then be on the host side. -/
def Rank.NoStray (r : Rank) (m : DpuTransferMatrix) : Prop :=
  ∀ d < r.nrDpus, LineNamed r.nrCis m d → r.xferMask m d = 0 →
    ∀ ci < r.nrCis, r.dpuEnabled ci d = true → ¬r.OnHostSide m ci d

/-- The conditions under which the mux-conflict assertion holds. -/
def Rank.Accessible (r : Rank) (m : DpuTransferMatrix) : Prop :=
  r.Split m ∨ r.isTransferMatrixFull m = true ∨ r.NoConflict m

section

variable {r : Rank} {m : DpuTransferMatrix}

theorem xferMask_bit (hr : r.Ready) {d ci : Nat} (hci : ci < r.nrCis) :
    (r.xferMask m d).getLsbD ci = (r.dpuEnabled ci d && r.hasTransfer m ci d) := by
  have h8 : ci < 8 := by
    have := hr.cis
    omega
  simp [Rank.xferMask, hci, h8, -BitVec.getLsbD_eq_getElem]

theorem xferMask_ne_zero (hr : r.Ready) {d ci : Nat} (hci : ci < r.nrCis) (hen : r.dpuEnabled ci d = true)
    (hhas : r.hasTransfer m ci d = true) : r.xferMask m d ≠ 0 := by
  intro h0
  have hbit := xferMask_bit (m := m) hr (d := d) hci
  rw [h0, hen, hhas] at hbit
  simp at hbit

/-- With a full matrix, the enabled DPUs of every line all ask for the host side. -/
theorem lineMux_of_full (hr : r.Ready) (hfull : r.isTransferMatrixFull m = true) {ci d : Nat} (hci : ci < r.nrCis)
    (hd : d < r.nrDpus) (hen : r.dpuEnabled ci d = true) : r.LineMux m ci d := by
  have hhas := isTransferMatrixFull_iff.mp hfull ci hci d hd hen
  rw [Rank.LineMux, if_neg (xferMask_ne_zero hr hci hen hhas), xferMask_bit hr hci, hen, hhas]
  rfl

theorem pairMask_eq (d : Nat) :
    r.pairMask m d = r.xferMask m d ||| r.xferMask m (friendLine d) := by
  unfold Rank.pairMask friendLine pairBase
  split
  · rename_i h
    rw [h, Nat.sub_zero]
  · rename_i h
    have h1 : d % 2 = 1 := by omega
    have h2 : d - 1 + 1 = d := by omega
    rw [h1, h2, BitVec.or_comm]

theorem compatible_friend (hr : r.Ready) (h : r.NoConflict m) {d : Nat} (hd : d < r.nrDpus) :
    r.xferMask m d = 0 ∨ r.xferMask m (friendLine d) = 0 ∨ r.xferMask m d = r.xferMask m (friendLine d) := by
  have heven := hr.even
  by_cases h0 : d % 2 = 0
  · have hc := h d (mem_pairs.mpr ⟨h0, hd⟩)
    rwa [friendLine, if_pos h0]
  · have hc := h (d - 1) (mem_pairs.mpr ⟨by omega, by omega⟩)
    rw [friendLine, if_neg h0]
    unfold Rank.Compatible at hc
    rw [show d - 1 + 1 = d by omega] at hc
    tauto

/-- In one pass, the access leaves each mux where its line is written. -/
theorem muxFor_iff (hr : r.Ready) (hsplit : ¬r.Split m) (h : r.NoConflict m) {ci d : Nat} (hd : d < r.nrDpus) :
    r.muxFor m ci d = true ↔ r.LineMux m ci d := by
  have hcomp := compatible_friend hr h hd
  unfold Rank.muxFor Rank.LineMux Rank.OnHostSide
  rw [pairMask_eq]
  simp only [mask_or_eq_zero]
  by_cases h₁ : r.xferMask m d = 0
  · by_cases h₂ : r.xferMask m (friendLine d) = 0
    · simp only [h₁, h₂, and_self, if_true]
    · rw [if_neg (fun hc => h₂ hc.2), if_pos h₁, if_neg h₂, h₁, mask_zero_or]
      simp [hsplit]
  · rw [if_neg (fun hc => h₁ hc.1), if_neg h₁]
    obtain hc | hc | hc := hcomp
    · contradiction
    · rw [hc, mask_or_zero]
    · rw [← hc, BitVec.or_self]

/-! ### The halves of a split matrix -/

/-- The buffers of a half. -/
def Rank.halfPtr (r : Rank) (ptr : Nat → Nat) (parity : Nat) : Nat → Nat := fun k =>
  if decide (k / r.nrCis < r.nrDpus) && decide (k / r.nrCis % 2 = parity) then ptr k else 0

variable {ptr : Nat → Nat} {parity : Nat}

theorem halfMatrix_buffers (hbuf : m.buffers = .ptr ptr) :
    (r.halfMatrix m parity).buffers = .ptr (r.halfPtr ptr parity) := by
  simp only [Rank.halfMatrix, hbuf, XferBuffers.restrict]
  rfl

theorem halfMatrix_validRange (hm : ValidRange m) : ValidRange (r.halfMatrix m parity) :=
  ⟨hm.offset8, hm.size8, hm.range⟩

theorem halfPtr_eq (hr : r.Ready) {ci d : Nat} (hci : ci < r.nrCis) (hd : d < r.nrDpus) :
    r.halfPtr ptr parity (d * 8 + ci) = if d % 2 = parity then ptr (d * 8 + ci) else 0 := by
  have hcis := hr.cis
  have hdiv : (d * 8 + ci) / r.nrCis = d := by rw [hcis]; omega
  simp only [Rank.halfPtr, hdiv, hd, decide_true, Bool.true_and, decide_eq_true_eq]

theorem hasTransfer_half (hr : r.Ready) (hbuf : m.buffers = .ptr ptr) {ci d : Nat} (hci : ci < r.nrCis)
    (hd : d < r.nrDpus) :
    r.hasTransfer (r.halfMatrix m parity) ci d = (decide (d % 2 = parity) && r.hasTransfer m ci d) := by
  simp only [Rank.hasTransfer, Rank.xferIndex, halfMatrix_buffers hbuf, hbuf, XferBuffers.named, hr.cis,
    halfPtr_eq hr hci hd]
  by_cases h : d % 2 = parity <;> simp [h]

theorem xferMask_half (hr : r.Ready) (hbuf : m.buffers = .ptr ptr) {d : Nat} (hd : d < r.nrDpus) :
    r.xferMask (r.halfMatrix m parity) d = if d % 2 = parity then r.xferMask m d else 0 := by
  refine mask_ext fun ci h8 => ?_
  have hci : ci < r.nrCis := by
    have := hr.cis
    omega
  rw [xferMask_bit hr hci, hasTransfer_half hr hbuf hci hd]
  split
  · rw [xferMask_bit hr hci]
    simp [*]
  · simp [*]

/-- A half has no conflict. -/
theorem noConflict_half (hr : r.Ready) (hbuf : m.buffers = .ptr ptr) : r.NoConflict (r.halfMatrix m parity) := by
  intro d hd
  have heven := hr.even
  obtain ⟨h0, hlt⟩ := mem_pairs.mp hd
  unfold Rank.Compatible
  rw [xferMask_half hr hbuf hlt, xferMask_half hr hbuf (show d + 1 < r.nrDpus by omega)]
  by_cases hp : d % 2 = parity
  · exact .inr (.inl (if_neg (by omega)))
  · exact .inl (if_neg hp)

theorem lineNamed_half (hr : r.Ready) (hbuf : m.buffers = .ptr ptr) {d : Nat} (hd : d < r.nrDpus) :
    LineNamed r.nrCis (r.halfMatrix m parity) d ↔ d % 2 = parity ∧ LineNamed r.nrCis m d := by
  have hhas : ∀ ci < r.nrCis, (r.halfMatrix m parity).buffers.named (d * 8 + ci) =
      (decide (d % 2 = parity) && m.buffers.named (d * 8 + ci)) := by
    intro ci hci
    have h : r.hasTransfer (r.halfMatrix m parity) ci d = _ := hasTransfer_half hr hbuf hci hd
    simpa only [Rank.hasTransfer, Rank.xferIndex, hr.cis] using h
  constructor
  · rintro ⟨ci, hci, h⟩
    rw [hhas ci hci, Bool.and_eq_true, decide_eq_true_eq] at h
    exact ⟨h.1, ci, hci, h.2⟩
  · rintro ⟨hp, ci, hci, h⟩
    refine ⟨ci, hci, ?_⟩
    rw [hhas ci hci, Bool.and_eq_true, decide_eq_true_eq]
    exact ⟨hp, h⟩

/-- The even lines are written where their own transfers, or nothing, put the muxes. -/
theorem muxFor_even_iff (hr : r.Ready) (hbuf : m.buffers = .ptr ptr) (hsplit : r.Split m) {ci d : Nat}
    (hd : d < r.nrDpus) (h0 : d % 2 = 0) : r.muxFor (r.halfMatrix m 0) ci d = true ↔ r.LineMux m ci d := by
  have heven := hr.even
  have hfriend : friendLine d = d + 1 := if_pos h0
  have hpair : r.pairMask (r.halfMatrix m 0) d = r.xferMask m d := by
    rw [pairMask_eq, hfriend, xferMask_half hr hbuf hd, xferMask_half hr hbuf (show d + 1 < r.nrDpus by omega),
      if_pos h0, if_neg (by omega), mask_or_zero]
  unfold Rank.muxFor Rank.LineMux Rank.OnHostSide
  rw [hpair]
  by_cases h₁ : r.xferMask m d = 0
  · rw [if_pos h₁, if_pos h₁]
    simp [hsplit, h0]
  · rw [if_neg h₁, if_neg h₁]

/-- The odd lines come second: where they ask for nothing, the even lines decided. -/
theorem muxFor_odd_iff {s : Rank} (hr : r.Ready) (hbuf : m.buffers = .ptr ptr) (hcis : s.nrCis = r.nrCis)
    (hen : ∀ ci i, s.dpuEnabled ci i = r.dpuEnabled ci i)
    (hmux : ∀ ci < r.nrCis, ∀ i < r.nrDpus, s.hostMux ci i = r.muxFor (r.halfMatrix m 0) ci i) {ci d : Nat}
    (hci : ci < r.nrCis) (hd : d < r.nrDpus) (h1 : d % 2 = 1) :
    s.muxFor (r.halfMatrix m 1) ci d = true ↔ r.LineMux m ci d := by
  have hfriend : friendLine d = d - 1 := if_neg (by omega)
  have hmask : ∀ i, s.xferMask (r.halfMatrix m 1) i = r.xferMask (r.halfMatrix m 1) i := by
    intro i
    simp only [Rank.xferMask, Rank.hasTransfer, Rank.xferIndex, hcis, hen]
  have hpair : s.pairMask (r.halfMatrix m 1) d = r.xferMask m d := by
    rw [pairMask_eq, hfriend, hmask, hmask, xferMask_half hr hbuf hd, xferMask_half hr hbuf (show d - 1 < r.nrDpus by omega),
      if_pos h1, if_neg (by omega), mask_or_zero]
  have hpair₀ : r.pairMask (r.halfMatrix m 0) d = r.xferMask m (d - 1) := by
    rw [pairMask_eq, hfriend, xferMask_half hr hbuf hd, xferMask_half hr hbuf (show d - 1 < r.nrDpus by omega),
      if_neg (by omega), if_pos (by omega), mask_zero_or]
  unfold Rank.LineMux Rank.OnHostSide
  rw [Rank.muxFor, hpair, hmux ci hci d hd, Rank.muxFor, hpair₀, hfriend]
  by_cases h₁ : r.xferMask m d = 0
  · rw [if_pos h₁, if_pos h₁]
    by_cases h₂ : r.xferMask m (d - 1) = 0
    · rw [if_pos h₂, if_pos h₂]
    · rw [if_neg h₂, if_neg h₂]
      simp [h1]
  · rw [if_neg h₁, if_neg h₁]

end

/-! ### The outcome -/

/-- What the writes of a transfer do to the MRAM of the enabled DPUs. -/
structure WriteOutcome (r : Rank) (m : DpuTransferMatrix) (ptr : Nat → Nat) (calls : List XferCall)
    (b : Nat → Backend) : Prop where
  transferred : ∀ ci < r.nrCis, ∀ d < r.nrDpus, r.dpuEnabled ci d = true → ptr (d * 8 + ci) ≠ 0 → r.LineMux m ci d →
    Transferred calls m ptr ci d
  named : ∀ ci < r.nrCis, ∀ d < r.nrDpus, ∀ o < 2 ^ 26, r.dpuEnabled ci d = true → ptr (d * 8 + ci) ≠ 0 →
    r.LineMux m ci d → InRange m o → ∀ mem,
      (memoryAfter b r.nrCis r.nrDpus calls mem).mram ci d o = mem.host (ptr (d * 8 + ci) + (o - m.offset))
  reached : ∀ ci < r.nrCis, ∀ d < r.nrDpus, ∀ o < 2 ^ 26, r.dpuEnabled ci d = true → LineNamed r.nrCis m d →
    r.LineMux m ci d → InRange m o → ∀ mem f,
      (memoryAfter b r.nrCis r.nrDpus calls { mem with mram := f }).mram ci d o
        = (memoryAfter b r.nrCis r.nrDpus calls mem).mram ci d o
  other : ∀ ci < r.nrCis, ∀ d < r.nrDpus, ∀ o < 2 ^ 26, r.dpuEnabled ci d = true →
    ¬(LineNamed r.nrCis m d ∧ InRange m o ∧ r.LineMux m ci d) → ∀ mem,
      (memoryAfter b r.nrCis r.nrDpus calls mem).mram ci d o = mem.mram ci d o

variable {r s : Rank} {m : DpuTransferMatrix} {ptr : Nat → Nat}

theorem WriteOutcome.of_passed {mux : Nat → Nat → Bool} (hcalls : r.xferCalls = []) (hp₀ : Passed r m ptr mux s)
    (hmux : ∀ ci < r.nrCis, ∀ d < r.nrDpus, r.dpuEnabled ci d = true → (mux ci d = true ↔ r.LineMux m ci d))
    {b : Nat → Backend} (hb : ∀ k, (b k).Valid) : WriteOutcome r m ptr s.xferCalls b := by
  obtain ⟨k, he⟩ := hp₀.effect b hb
  simp only [hcalls, memoryAfter] at he
  refine ⟨?_, ?_, ?_, ?_⟩
  · intro ci hci d hd hen hp hon
    exact hp₀.transferred ci hci d hd hen hp ((hmux ci hci d hd hen).mpr hon)
  · intro ci hci d hd o ho hen hp hon hrange mem
    exact (he mem).named ci hci d hd o ho hen hp ((hmux ci hci d hd hen).mpr hon) hrange
  · intro ci hci d hd o ho hen hnamed hon hrange mem f
    have hon' := (hmux ci hci d hd hen).mpr hon
    exact ((he _).reached ci hci d hd o ho hen hnamed hon' hrange).trans
      ((he mem).reached ci hci d hd o ho hen hnamed hon' hrange).symm
  · intro ci hci d hd o ho hen hnot mem
    refine (he mem).other ci hci d hd o ho hen ?_
    rwa [hmux ci hci d hd hen]

/-- The even lines first, then the odd lines. -/
theorem WriteOutcome.of_split {t : Rank} (hr : r.Ready) (hbuf : m.buffers = .ptr ptr) (hsplit : r.Split m)
    (hcalls : r.xferCalls = [])
    (hp₀ : Passed r (r.halfMatrix m 0) (r.halfPtr ptr 0) (r.muxFor (r.halfMatrix m 0)) s)
    (hp₁ : Passed s (r.halfMatrix m 1) (r.halfPtr ptr 1) (s.muxFor (r.halfMatrix m 1)) t)
    {b : Nat → Backend} (hb : ∀ k, (b k).Valid) : WriteOutcome r m ptr t.xferCalls b := by
  obtain ⟨k₀, he₀⟩ := hp₀.effect b hb
  obtain ⟨k₁, he₁⟩ := hp₁.effect b hb
  simp only [hcalls, memoryAfter] at he₀
  rw [hp₀.nrCis, hp₀.nrDpus] at he₁
  have hon₀ : ∀ {ci d}, d < r.nrDpus → d % 2 = 0 →
      (r.muxFor (r.halfMatrix m 0) ci d = true ↔ r.LineMux m ci d) :=
    fun hd h0 => muxFor_even_iff hr hbuf hsplit hd h0
  have hon₁ : ∀ {ci d}, ci < r.nrCis → d < r.nrDpus → d % 2 = 1 →
      (s.muxFor (r.halfMatrix m 1) ci d = true ↔ r.LineMux m ci d) :=
    fun hci hd h1 => muxFor_odd_iff hr hbuf hp₀.nrCis hp₀.enabled hp₀.hostMux hci hd h1
  -- a line is left alone by the pass of the other parity
  have hskip₁ : ∀ ci < r.nrCis, ∀ d < r.nrDpus, ∀ o < 2 ^ 26, r.dpuEnabled ci d = true → d % 2 = 0 → ∀ mem,
      (memoryAfter b r.nrCis r.nrDpus t.xferCalls mem).mram ci d o
        = (memoryAfter b r.nrCis r.nrDpus s.xferCalls mem).mram ci d o := by
    intro ci hci d hd o ho hen h0 mem
    refine (he₁ mem).other ci (by rwa [hp₀.nrCis]) d (by rwa [hp₀.nrDpus]) o ho (by rwa [hp₀.enabled]) fun h => ?_
    rw [hp₀.nrCis, lineNamed_half hr hbuf hd] at h
    omega
  have hskip₀ : ∀ ci < r.nrCis, ∀ d < r.nrDpus, ∀ o < 2 ^ 26, r.dpuEnabled ci d = true → d % 2 = 1 → ∀ mem,
      (memoryAfter b r.nrCis r.nrDpus s.xferCalls mem).mram ci d o = mem.mram ci d o := by
    intro ci hci d hd o ho hen h1 mem
    refine (he₀ mem).other ci hci d hd o ho hen fun h => ?_
    rw [lineNamed_half hr hbuf hd] at h
    omega
  have hptr : ∀ {ci d parity}, ci < r.nrCis → d < r.nrDpus → d % 2 = parity →
      r.halfPtr ptr parity (d * 8 + ci) = ptr (d * 8 + ci) :=
    fun hci hd h => by rw [halfPtr_eq hr hci hd, if_pos h]
  refine ⟨?_, ?_, ?_, ?_⟩
  · intro ci hci d hd hen hp hon
    obtain h0 | h1 := Nat.mod_two_eq_zero_or_one d
    · have hptr := hptr hci hd h0
      have ht := hp₀.transferred ci hci d hd hen (by rwa [hptr]) ((hon₀ hd h0).mpr hon)
      obtain ⟨c, hc, hoff, hsize, ⟨p, hbufs, he⟩, hmux⟩ := ht
      exact ⟨c, hp₁.kept c hc, hoff, hsize, ⟨p, hbufs, he.trans hptr⟩, hmux⟩
    · have hptr := hptr hci hd h1
      have ht := hp₁.transferred ci (by rwa [hp₀.nrCis]) d (by rwa [hp₀.nrDpus]) (by rwa [hp₀.enabled]) (by rwa [hptr])
        ((hon₁ hci hd h1).mpr hon)
      obtain ⟨c, hc, hoff, hsize, ⟨p, hbufs, he⟩, hmux⟩ := ht
      exact ⟨c, hc, hoff, hsize, ⟨p, hbufs, he.trans hptr⟩, hmux⟩
  · intro ci hci d hd o ho hen hp hon hrange mem
    obtain h0 | h1 := Nat.mod_two_eq_zero_or_one d
    · have hptr := hptr hci hd h0
      rw [hskip₁ ci hci d hd o ho hen h0 mem, ← hptr]
      exact (he₀ mem).named ci hci d hd o ho hen (by rwa [hptr]) ((hon₀ hd h0).mpr hon) hrange
    · have hptr := hptr hci hd h1
      rw [← hptr, ← (he₀ mem).host]
      exact (he₁ mem).named ci (by rwa [hp₀.nrCis]) d (by rwa [hp₀.nrDpus]) o ho (by rwa [hp₀.enabled]) (by rwa [hptr])
        ((hon₁ hci hd h1).mpr hon) hrange
  · intro ci hci d hd o ho hen hnamed hon hrange mem f
    obtain h0 | h1 := Nat.mod_two_eq_zero_or_one d
    · have hnamed₀ := (lineNamed_half hr hbuf hd).mpr ⟨h0, hnamed⟩
      have hon' := (hon₀ hd h0).mpr hon
      rw [hskip₁ ci hci d hd o ho hen h0, hskip₁ ci hci d hd o ho hen h0]
      exact ((he₀ _).reached ci hci d hd o ho hen hnamed₀ hon' hrange).trans
        ((he₀ mem).reached ci hci d hd o ho hen hnamed₀ hon' hrange).symm
    · have hnamed₁ : LineNamed s.nrCis (r.halfMatrix m 1) d := by
        rw [hp₀.nrCis]
        exact (lineNamed_half hr hbuf hd).mpr ⟨h1, hnamed⟩
      have hreach := fun mem => (he₁ mem).reached ci (by rwa [hp₀.nrCis]) d (by rwa [hp₀.nrDpus]) o ho
        (by rwa [hp₀.enabled]) hnamed₁ ((hon₁ hci hd h1).mpr hon) hrange
      have hbus := memoryAfter_bus b r.nrCis r.nrDpus s.xferCalls { mem with mram := f } mem rfl rfl
      rw [hreach, hreach, Backend.run, Backend.run, hbus.1, hbus.2]
  · intro ci hci d hd o ho hen hnot mem
    obtain h0 | h1 := Nat.mod_two_eq_zero_or_one d
    · rw [hskip₁ ci hci d hd o ho hen h0 mem]
      refine (he₀ mem).other ci hci d hd o ho hen fun h => hnot ?_
      rw [lineNamed_half hr hbuf hd, hon₀ hd h0] at h
      exact ⟨h.1.2, h.2⟩
    · rw [← hskip₀ ci hci d hd o ho hen h1 mem]
      refine (he₁ mem).other ci (by rwa [hp₀.nrCis]) d (by rwa [hp₀.nrDpus]) o ho (by rwa [hp₀.enabled])
        fun h => hnot ?_
      rw [hp₀.nrCis, lineNamed_half hr hbuf hd, hon₁ hci hd h1] at h
      exact ⟨h.1.2, h.2⟩

/-- The access in one piece: the whole rank for a full matrix, else pair by pair. -/
theorem hostGetAccessForTransfer_spec (hr : r.Ready) (hbound : ∀ ci < r.nrCis, ∀ i, r.hostMux ci i = true → i < r.nrDpus)
    (hsplit : ¬r.Split m) :
    Triple (fun s => s = r) (hostGetAccessForTransfer m)
      (fun _ s => r.Accessible m ∧ ∃ mux, Accessed r mux s
        ∧ ∀ ci < r.nrCis, ∀ d < r.nrDpus, r.dpuEnabled ci d = true → (mux ci d = true ↔ r.LineMux m ci d))
      fun e _ => e = .assertion ∧ ¬r.Accessible m := by
  refine triple_get fun s hs => ?_
  subst hs
  refine triple_ite (fun hfull => ?_) fun hfull => ?_
  · refine (dpuSwitchMuxForRank_access hr hbound).weaken (fun _ h => h) (fun _ t ht => ?_) fun _ _ h => h.elim
    refine ⟨.inr (.inl hfull), _, ht, fun ci hci d hd hen => ?_⟩
    simp only [lineMux_of_full hr hfull hci hd hen]
  · refine (hostGetAccessForTransferMatrix_spec hr m).weaken (fun _ h => h) (fun _ t ht => ?_) ?_
    · exact ⟨.inr (.inr ht.2), _, ht.1, fun ci _ d hd _ => muxFor_iff hr hsplit ht.2 hd⟩
    · rintro e t ⟨rfl, hconflict⟩
      exact ⟨rfl, by simp [Rank.Accessible, hsplit, hfull, hconflict]⟩

/-- A half of a split matrix: its access and its transfer. -/
theorem half_spec {q : Rank} (hq : q.Ready) (hr : r.Ready) (hcis : q.nrCis = r.nrCis) (hdpus : q.nrDpus = r.nrDpus)
    (hen : ∀ ci i, q.dpuEnabled ci i = r.dpuEnabled ci i) (hbuf : m.buffers = .ptr ptr) (hm : ValidRange m)
    (parity : Nat) (toMram : Bool) {rest : RankM PUnit} {Q : PUnit → Rank → Prop} {E : Stop → Rank → Prop}
    (h : ∀ s, Passed q (r.halfMatrix m parity) (r.halfPtr ptr parity) (q.muxFor (r.halfMatrix m parity)) s →
      Triple (fun t => t = s) rest Q E) :
    Triple (fun s => s = q)
      (do
        hostGetAccessForTransferMatrix (r.halfMatrix m parity)
        doMramTransfer toMram (r.halfMatrix m parity)
        rest) Q E := by
  have hno : q.NoConflict (r.halfMatrix m parity) := by
    have hmask : ∀ d, q.xferMask (r.halfMatrix m parity) d = r.xferMask (r.halfMatrix m parity) d := by
      intro d
      simp only [Rank.xferMask, Rank.hasTransfer, Rank.xferIndex, hcis, hen]
    intro d hd
    have hd' : d ∈ r.pairs := by rwa [Rank.pairs, ← hdpus]
    unfold Rank.Compatible
    rw [hmask, hmask]
    exact noConflict_half hr hbuf d hd'
  refine triple_bind ((hostGetAccessForTransferMatrix_spec hq _).weaken (fun _ h => h) (fun _ _ h => h)
    fun _ _ h => absurd hno h.2) fun _ => triple_each fun s hs => ?_
  refine triple_bind ((doMramTransfer_spec hq (halfMatrix_buffers hbuf) (halfMatrix_validRange hm) hs.1 toMram).weaken
    (fun _ h => h) (fun _ _ h => h) fun _ _ h => h.elim) fun _ => triple_each h

/-- Without a conflict the transfer ends as `WriteOutcome` says; with one it stops at
the assertion. -/
theorem copyMramForDpus_spec (hr : r.Ready) (hbound : ∀ ci < r.nrCis, ∀ i, r.hostMux ci i = true → i < r.nrDpus)
    (hcalls : r.xferCalls = []) (hbuf : m.buffers = .ptr ptr) (hm : ValidRange m)
    (toMram : Bool) :
    Triple (fun s => s = r) (copyMramForDpus toMram m)
      (fun _ s => r.Accessible m ∧ ∀ b : Nat → Backend, (∀ k, (b k).Valid) → WriteOutcome r m ptr s.xferCalls b)
      fun e _ => e = .assertion ∧ ¬r.Accessible m := by
  refine triple_bind ((duplicationNeeded_spec hr.even hr.api m).weaken (fun _ h => h) (fun _ _ h => h)
    fun _ _ h => h.elim) fun split => triple_each fun s hs => ?_
  obtain ⟨rfl, hsplit⟩ := hs
  refine triple_ite (fun hno => ?_) fun hyes => triple_get fun _ hs => ?_
  · have hnot : ¬s.Split m := by
      rw [← hsplit]
      simpa using hno
    refine triple_bind (hostGetAccessForTransfer_spec hr hbound hnot) fun _ => triple_each fun t ht => ?_
    obtain ⟨hacc, mux, haccessed, hmux⟩ := ht
    refine (doMramTransfer_spec hr hbuf hm haccessed toMram).weaken (fun _ h => h) (fun _ u hu => ⟨hacc, fun b hb => ?_⟩)
      fun _ _ h => h.elim
    exact WriteOutcome.of_passed hcalls hu hmux hb
  · subst hs
    rename_i s
    have hsplit : s.Split m := by
      rw [← hsplit]
      simpa using hyes
    refine half_spec hr hr rfl rfl (fun _ _ => rfl) hbuf hm 0 toMram fun t ht => ?_
    have hlast : ∀ x : RankM PUnit, x = (do x; pure ⟨⟩) := fun x => (bind_pure x).symm
    rw [hlast (doMramTransfer toMram _)]
    refine half_spec ht.ready hr ht.nrCis ht.nrDpus ht.enabled hbuf hm 1 toMram fun u hu => triple_pure fun v hv => ?_
    subst hv
    exact ⟨.inl hsplit, fun b hb => WriteOutcome.of_split hr hbuf hsplit hcalls ht hu hb⟩

/-! ## Which transfers are isolated -/

/-- A rank between two transfers. -/
structure Rank.AtRest (r : Rank) : Prop extends r.Ready where
  recorded : ∀ ci < r.nrCis, ∀ i, r.hostMux ci i = true → i < r.nrDpus
  xferCalls : r.xferCalls = []

/-- In either direction the transfer ends well and transfers each enabled DPU with a
buffer. When it writes, each of these holds its buffer at the range of the transfer,
and everything else of the enabled DPUs is as it was. -/
structure Isolated (r : Rank) (m : DpuTransferMatrix) (ptr : Nat → Nat) : Prop where
  transferred : ∀ toMram, ∃ r', (copyMramForDpus toMram m).run r = .ok ⟨⟩ r' ∧
    ∀ ci < r.nrCis, ∀ d < r.nrDpus, r.dpuEnabled ci d = true → ptr (d * 8 + ci) ≠ 0 → Transferred r'.xferCalls m ptr ci d
  written : ∃ r', (ciCopyToMrams m).run r = .ok ⟨⟩ r' ∧
    ∀ b : Nat → Backend, (∀ k, (b k).Valid) → ∀ mem : RankMemory,
      ∀ ci < r.nrCis, ∀ d < r.nrDpus, r.dpuEnabled ci d = true → ∀ o < 2 ^ 26,
        (memoryAfter b r.nrCis r.nrDpus r'.xferCalls mem).mram ci d o =
          if ptr (d * 8 + ci) ≠ 0 ∧ InRange m o then mem.host (ptr (d * 8 + ci) + (o - m.offset))
          else mem.mram ci d o

/-- One thread does all the work. -/
def soleBackend : Backend where
  nbThreadsForXfer := 1
  nbThreads := 1
  zeros := 0
  stack _ _ := 0
  order := [0]

theorem soleBackend_valid : soleBackend.Valid := ⟨Nat.le_refl _, Nat.le_refl _, List.Perm.refl _⟩

theorem hasTransfer_iff (hr : r.Ready) (hbuf : m.buffers = .ptr ptr) {ci d : Nat} :
    r.hasTransfer m ci d = true ↔ ptr (d * 8 + ci) ≠ 0 := by
  simp [Rank.hasTransfer, Rank.xferIndex, hbuf, XferBuffers.named, hr.cis]

/-- An enabled DPU without a buffer, on a line with one, is out of reach unless the
line strays. -/
theorem lineMux_of_noStray (hr : r.Ready) (hbuf : m.buffers = .ptr ptr) (hstray : r.NoStray m) {ci d : Nat}
    (hci : ci < r.nrCis) (hd : d < r.nrDpus) (hen : r.dpuEnabled ci d = true) (hnamed : LineNamed r.nrCis m d)
    (hmux : r.LineMux m ci d) : ptr (d * 8 + ci) ≠ 0 := by
  rw [Rank.LineMux] at hmux
  split at hmux
  · rename_i h0
    exact absurd hmux (hstray d hd hnamed h0 ci hci hen)
  · rw [xferMask_bit hr hci, hen, Bool.true_and] at hmux
    exact (hasTransfer_iff hr hbuf).mp hmux

theorem lineMux_of_named (hr : r.Ready) (hbuf : m.buffers = .ptr ptr) {ci d : Nat} (hci : ci < r.nrCis)
    (hen : r.dpuEnabled ci d = true) (hp : ptr (d * 8 + ci) ≠ 0) : r.LineMux m ci d := by
  have hhas := (hasTransfer_iff hr hbuf).mpr hp
  rw [Rank.LineMux, if_neg (xferMask_ne_zero hr hci hen hhas), xferMask_bit hr hci, hen, hhas]
  rfl

theorem WriteOutcome.isolated {calls : List XferCall} {b : Nat → Backend} (hr : r.Ready) (hbuf : m.buffers = .ptr ptr)
    (hstray : m.size = 0 ∨ r.NoStray m) (h : WriteOutcome r m ptr calls b) (mem : RankMemory) {ci d o : Nat}
    (hci : ci < r.nrCis) (hd : d < r.nrDpus) (hen : r.dpuEnabled ci d = true) (ho : o < 2 ^ 26) :
    (memoryAfter b r.nrCis r.nrDpus calls mem).mram ci d o =
      if ptr (d * 8 + ci) ≠ 0 ∧ InRange m o then mem.host (ptr (d * 8 + ci) + (o - m.offset))
      else mem.mram ci d o := by
  split
  · rename_i hp
    exact h.named ci hci d hd o ho hen hp.1 (lineMux_of_named hr hbuf hci hen hp.1) hp.2 mem
  · rename_i hnot
    refine h.other ci hci d hd o ho hen ?_ mem
    rintro ⟨hnamed, hrange, hmux⟩
    obtain hsize | hstray := hstray
    · unfold InRange at hrange
      omega
    · exact hnot ⟨lineMux_of_noStray hr hbuf hstray hci hd hen hnamed hmux, hrange⟩

/-- A line that strays overwrites a DPU without a buffer: what it leaves there does not
depend on what was there. -/
theorem WriteOutcome.noStray {calls : List XferCall} {b : Nat → Backend} (hr : r.Ready) (hbuf : m.buffers = .ptr ptr)
    (hm : ValidRange m) (hsize : m.size ≠ 0) (h : WriteOutcome r m ptr calls b)
    (hkept : ∀ mem : RankMemory, ∀ ci < r.nrCis, ∀ d < r.nrDpus, r.dpuEnabled ci d = true → ptr (d * 8 + ci) = 0 →
      (memoryAfter b r.nrCis r.nrDpus calls mem).mram ci d m.offset = mem.mram ci d m.offset) : r.NoStray m := by
  intro d hd hnamed h0 ci hci hen hside
  have hoff : m.offset < 2 ^ 26 := by
    have := hm.range
    omega
  have hrange : InRange m m.offset := ⟨Nat.le_refl _, by omega⟩
  have hmux : r.LineMux m ci d := by rwa [Rank.LineMux, if_pos h0]
  have hnull : ptr (d * 8 + ci) = 0 := by
    by_contra hp
    exact xferMask_ne_zero hr hci hen ((hasTransfer_iff hr hbuf).mpr hp) h0
  let mem : RankMemory := ⟨fun _ => 0, fun _ => 0, fun _ _ _ => 0⟩
  have hreached := h.reached ci hci d hd m.offset hoff hen hnamed hmux hrange mem fun _ _ _ => 1
  rw [hkept _ ci hci d hd hen hnull, hkept _ ci hci d hd hen hnull] at hreached
  exact absurd hreached (show (1 : UInt8) ≠ 0 by decide)

/-- A transfer is isolated exactly when it is accessible and, unless it is empty, no
line strays. -/
theorem transfer_isolated_iff (hr : r.AtRest) (hbuf : m.buffers = .ptr ptr) (hm : ValidRange m) :
    Isolated r m ptr ↔ r.Accessible m ∧ (m.size = 0 ∨ r.NoStray m) := by
  have hspec := fun toMram => (copyMramForDpus_spec hr.toReady hr.recorded hr.xferCalls hbuf hm toMram).run
  have hb : ∀ k : Nat, ((fun _ => soleBackend) k).Valid := fun _ => soleBackend_valid
  constructor
  · rintro ⟨-, r', hrun, hiso⟩
    rw [ciCopyToMrams] at hrun
    obtain ⟨_, s, hend, hacc, hout⟩ | ⟨_, s, hend, -⟩ := hspec true
    · rw [hrun] at hend
      cases hend
      refine ⟨hacc, ?_⟩
      by_cases hsize : m.size = 0
      · exact .inl hsize
      · refine .inr ((hout _ hb).noStray hr.toReady hbuf hm hsize fun mem ci hci d hd hen hnull => ?_)
        have hoff := hm.range
        rw [hiso _ hb mem ci hci d hd hen m.offset (by omega), if_neg (by simp [hnull])]
    · rw [hrun] at hend
      cases hend
  · rintro ⟨hacc, hstray⟩
    have hends : ∀ toMram, ∃ r', (copyMramForDpus toMram m).run r = .ok ⟨⟩ r' ∧
        ∀ b : Nat → Backend, (∀ k, (b k).Valid) → WriteOutcome r m ptr r'.xferCalls b := by
      intro toMram
      obtain ⟨_, r', hrun, -, hout⟩ | ⟨_, _, -, -, hnot⟩ := hspec toMram
      · exact ⟨r', hrun, hout⟩
      · exact absurd hacc hnot
    refine ⟨fun toMram => ?_, ?_⟩
    · obtain ⟨r', hrun, hout⟩ := hends toMram
      refine ⟨r', hrun, fun ci hci d hd hen hp => ?_⟩
      exact (hout _ hb).transferred ci hci d hd hen hp (lineMux_of_named hr.toReady hbuf hci hen hp)
    · obtain ⟨r', hrun, hout⟩ := hends true
      refine ⟨r', hrun, fun b hb mem ci hci d hd hen o ho => ?_⟩
      exact (hout b hb).isolated hr.toReady hbuf hstray mem hci hd hen ho

/-! ### A pair whose lines want different interfaces -/

/-- Eight interfaces of two DPUs, all enabled, all muxes on the DPU side. -/
def pairRank : Rank where
  nrCis := 8
  nrDpus := 2
  nrThreads := 24
  apiMustSwitchMramMux := true
  initMramMux := false
  sliceInfo _ :=
    { structureValue := 0
      sliceTarget := .none
      hostMuxMramState := 0
      dpusPerGroup := fun g => if g = 0 then 3 else 0
      enabledDpus := 3
      allDpusAreEnabled := true }
  runContext := ⟨fun _ => 0, fun _ => 0, 0⟩
  hw := ⟨fun _ => 0, fun _ => 0, fun _ => 0⟩
  schedule _ := ⟨fun _ => 0, fun _ => 0, fun _ => 0, fun _ => 0⟩
  clock := 0
  xferCalls := []

theorem pairRank_atRest : pairRank.AtRest where
  cis := rfl
  dpus := by decide
  even := rfl
  api := rfl
  idle _ _ := rfl
  nbDpuRunning := rfl
  synced _ _ _ _ _ _ := rfl
  recorded _ _ i h := by simp [Rank.hostMux, pairRank] at h
  xferCalls := rfl

def eightBytes (ptr : Nat → Nat) : DpuTransferMatrix := ⟨.ptr ptr, 0, 8⟩

theorem eightBytes_validRange (ptr : Nat → Nat) : ValidRange (eightBytes ptr) :=
  ⟨Nat.dvd_zero 8, Nat.dvd_refl 8, show 0 + 8 ≤ 2 ^ 26 by decide⟩

/-- DPU 0 of interface 0 and DPU 1 of interface 1. -/
def crossedPtr (k : Nat) : Nat := if k = 0 ∨ k = 9 then 4096 else 0

/-- Both DPUs of interface 0 and DPU 0 of interface 1. -/
def leaningPtr (k : Nat) : Nat := if k = 0 ∨ k = 1 ∨ k = 8 then 4096 else 0

theorem transfer_isolated_iff_sample : Isolated pairRank (eightBytes leaningPtr) leaningPtr := by
  refine (transfer_isolated_iff pairRank_atRest rfl (eightBytes_validRange _)).mpr ⟨.inl ?_, .inr ?_⟩
  · refine ⟨0, by decide, 1, by decide, by decide, by decide, ?_, .inr ⟨0, by decide⟩, .inr ⟨0, by decide⟩⟩
    intro ci _ hci _
    obtain rfl : ci = 0 := by omega
    decide
  · intro d hd _ h0
    have hall : ∀ d < 2, pairRank.xferMask (eightBytes leaningPtr) d ≠ 0 := by decide
    exact absurd h0 (hall d hd)

/-- The walk over the pair ends at interface 0, before it has seen the transfer of
DPU 1; the matrix is not split, and the two lines want different interfaces. -/
theorem crossed_pair_not_isolated :
    pairRank.AtRest ∧ ValidRange (eightBytes crossedPtr) ∧ ¬Isolated pairRank (eightBytes crossedPtr) crossedPtr := by
  refine ⟨pairRank_atRest, eightBytes_validRange _, ?_⟩
  rintro ⟨-, r', hrun, -⟩
  have hstop : (match (ciCopyToMrams (eightBytes crossedPtr)).run pairRank with
    | .ok _ _ => false
    | .error e _ => decide (e = .assertion)) = true := by decide
  rw [hrun] at hstop
  contradiction

end DpuBackend.Ufi
