import DpuBackend.Ufi.MatrixRuns

/-
  The writes to one DPU of each interface of a mask, word by word.

  A write sends its structure only if some interface of the mask has another one noted. If
  the structure goes out, so does a prepared buffer, and what was left for the interfaces
  outside the mask is gone; if none does, it goes out again with the first frame. After the
  first frame everything left has been executed (`Port.Settled`), and going out once more
  changes nothing.

  Correspondence (C ↔ Lean):
    an iteration of `ufi_iram_write`, `ufi_wram_write`  ↔ `writeAt_spec`
    the loop                                            ↔ `ufiMemoryWrite_spec`
    a selection and the loop                            ↔ `accessDpu_write`
-/

namespace DpuBackend.Ufi

open DpuBackend.Lib

/-- The first `k` words of a transfer are in the memory of a DPU. -/
def DpuMemories.fill (memory : DpuMemories) (dpu : Nat) (kind : MemKind) (offset : BitVec 16) (words : Nat → Word) (k : Nat) :
    DpuMemories := fun dpu' kind' a =>
  if dpu' = dpu ∧ kind' = kind ∧ (a - offset).toNat < k then words (a - offset).toNat else memory dpu' kind' a

namespace DpuMemories

variable (memory : DpuMemories) {dpu k : Nat} {kind : MemKind} {offset : BitVec 16} {words : Nat → Word}

theorem fill_zero : memory.fill dpu kind offset words 0 = memory := by
  funext dpu' kind' a
  simp [fill]

theorem fill_succ (hk : k < 2 ^ 16) :
    (memory.fill dpu kind offset words k).write (· == dpu) ⟨kind, offset + BitVec.ofNat 16 k, words k⟩ =
      memory.fill dpu kind offset words (k + 1) := by
  funext dpu' kind' a
  have haddress : a = offset + BitVec.ofNat 16 k ↔ (a - offset).toNat = k := by
    constructor
    · intro h
      rw [h, BitVec.add_comm, BitVec.add_sub_cancel, BitVec.toNat_ofNat, Nat.mod_eq_of_lt hk]
    · intro h
      rw [← h, BitVec.ofNat_toNat, BitVec.setWidth_eq, BitVec.add_comm, BitVec.sub_add_cancel]
  simp only [write, fill, beq_iff_eq, haddress]
  generalize (a - offset).toNat = i
  by_cases hplace : dpu' = dpu ∧ kind' = kind
  · obtain hlt | heq | hgt := Nat.lt_trichotomy i k
    · simp [hplace, hlt, Nat.lt_succ_of_lt hlt, Nat.ne_of_lt hlt]
    · simp [hplace, heq]
    · simp [hplace, show ¬i < k by omega, show ¬i < k + 1 by omega, Nat.ne_of_gt hgt]
  · have hnone : ∀ P : Prop, ¬(dpu' = dpu ∧ kind' = kind ∧ P) := fun P h => hplace ⟨h.1, h.2.1⟩
    rw [if_neg (hnone _), if_neg (hnone _), if_neg (hnone _)]

end DpuMemories

/-- What a selected DPU has got may go out again. -/
theorem Port.At.frame_settled {p : Port} {dpu : Nat} {sent : Bool} {struct word : Word} (h : p.At dpu) (hnoted : p.Noted)
    (hstruct : isStruct struct = true) (hready : p.Ready sent struct) (hquiet : QuietFrame struct word) :
    (p.frame sent struct word).Settled := by
  refine ⟨hnoted.frame hstruct hready hquiet, hnoted.frame_again hstruct hready hquiet, fun _ hnone => ?_⟩
  rw [(h.frame hnoted hstruct hready hquiet).info] at hnone
  cases hnone

namespace Board

variable {b b' : Board} {mask : Mask} {dpu k : Nat} {kind : MemKind} {array : Nat → Nat} {offset len : BitVec 16}

/-! ## One word -/

/-- Something is left for an interface outside the mask whose target is not noted. -/
def Lacking (b : Board) (mask : Mask) : Prop :=
  ∃ ci < b.rank.nrCis, mask.getLsbD ci = false ∧ (b.port ci).cmd ≠ ciEmpty ∧ (b.port ci).info.sliceTarget = .none

/-- The board after a word has been written; `again` says that what was left went out again. -/
structure Wrote (b b' : Board) (mask : Mask) (dpu : Nat) (again : Prop) (write : Nat → MemWrite) : Prop where
  alike : b.Alike b'
  host : b'.host = b.host
  used : b'.used = b.used
  settled : ∀ ci < b.rank.nrCis, (b'.port ci).Settled
  inside : ∀ ci < b.rank.nrCis, mask.getLsbD ci = true →
    (b'.port ci).At dpu ∧ (b'.port ci).chip.memory = (b.port ci).chip.memory.write (· == dpu) (write ci)
  outside : ∀ ci < b.rank.nrCis, mask.getLsbD ci = false →
    (again → (b'.port ci).chip.memory = (b.port ci).resend.chip.memory) ∧
      (¬again → (b'.port ci).chip.memory = (b.port ci).chip.memory)
  granted : again → ¬b.Lacking mask

/-- The structure a word is written under. -/
def writeStructAt (kind : MemKind) (offset : BitVec 16) (k : Nat) : Word :=
  kind.writeStruct ((offset + BitVec.ofNat 16 k).setWidth 64)

theorem writeFrame_ne_empty (w address : Word) : kind.writeFrame w address ≠ ciEmpty := by
  cases kind with
  | iram => exact frameWord_ne_empty _ _ _ _ _ _ _
  | wram => exact frameWord_ne_empty _ _ _ _ _ _ _

theorem writeAt_spec (kind : MemKind) (src : Nat → Nat → Word) (offset : BitVec 16) (k : Nat)
    (hnoted : ∀ ci < b.rank.nrCis, (b.port ci).Noted)
    (hat : ∀ ci < b.rank.nrCis, mask.getLsbD ci = true → (b.port ci).At dpu) :
    let again := b.rank.mustWriteStructure mask (writeStructAt kind offset k) = false
    let program := send (memoryWriteAt mask kind.writeStruct kind.writeFrame src offset k)
    (again ∧ b.Lacking mask ∧ ∃ b', program.run b = .error .internal b') ∨
      ∃ b', program.run b = .ok ⟨⟩ b' ∧
        b.Wrote b' mask dpu again fun ci => ⟨kind, offset + BitVec.ofNat 16 k, kind.cut (src ci k)⟩ := by
  intro again program
  let addr : Word := (offset + BitVec.ofNat 16 k).setWidth 64
  let word : Nat → Word := fun ci => kind.writeFrame (src ci k) addr
  let r := b.begin.addressed mask (writeStructAt kind offset k) word
  have hrun := run_memoryWriteAt b.begin_allDone mask kind.writeStruct kind.writeFrame src offset k
  have hword : ∀ ci, word ci ≠ ciEmpty := fun ci => writeFrame_ne_empty (src ci k) addr
  have hlacks := addressed_lacksTarget (b := b) mask (writeStructAt kind offset k) hword
  by_cases hlack : again ∧ b.Lacking mask
  · refine .inl ⟨hlack.1, hlack.2, _, send_error (hrun.trans (if_pos (hlacks.mpr ?_)))⟩
    obtain ⟨hagain, ci, hci, -, hcmd, hnone⟩ := hlack
    exact ⟨ci, hci, hnone, .inr ⟨hagain, hcmd⟩⟩
  · have hlacks' : ¬r.lacksTarget r.cmds = true := by
      intro h
      obtain ⟨ci, hci, hnone, hbit | ⟨hagain, hcmd⟩⟩ := hlacks.mp h
      · rw [(hat ci hci hbit).info] at hnone
        cases hnone
      · by_cases hbit : mask.getLsbD ci = true
        · rw [(hat ci hci hbit).info] at hnone
          cases hnone
        · exact hlack ⟨hagain, ci, hci, Bool.eq_false_iff.mpr hbit, hcmd, hnone⟩
    refine .inr ⟨b.after (r.logged r.cmds), send_ok (hrun.trans (if_neg hlacks')), ?_⟩
    have hport : ∀ ci < b.rank.nrCis, (b.after (r.logged r.cmds)).port ci =
        if mask.getLsbD ci then
          (b.port ci).frame (b.rank.mustWriteStructure mask (writeStructAt kind offset k)) (writeStructAt kind offset k) (word ci)
        else if b.rank.mustWriteStructure mask (writeStructAt kind offset k) then (b.port ci).clear
        else (b.port ci).resend :=
      fun ci hci => port_addressed hci (writeStructAt kind offset k) word
    have hready : ∀ ci < b.rank.nrCis, mask.getLsbD ci = true →
        (b.port ci).Ready (b.rank.mustWriteStructure mask (writeStructAt kind offset k)) (writeStructAt kind offset k) := by
      intro ci hci hbit
      by_cases hheld : (b.port ci).info.structureValue = writeStructAt kind offset k
      · exact .inr hheld
      · exact .inl (mustWriteStructure_iff.mpr ⟨ci, hci, hbit, hheld⟩)
    have hstruct := kind.isStruct_writeStruct addr
    have hquiet := fun ci => kind.quiet_writeFrame (src ci k) addr
    refine ⟨alike_addressed b mask _ word, rfl, rfl, fun ci hci => ?_, fun ci hci hbit => ?_, fun ci hci hbit => ?_, ?_⟩
    · rw [hport ci hci]
      by_cases hbit : mask.getLsbD ci = true
      · rw [if_pos hbit]
        exact (hat ci hci hbit).frame_settled (hnoted ci hci) hstruct (hready ci hci hbit) (hquiet ci)
      · rw [if_neg hbit]
        obtain hmust | hmust := Bool.eq_false_or_eq_true (b.rank.mustWriteStructure mask (writeStructAt kind offset k))
        · rw [if_pos hmust]
          exact (hnoted ci hci).clear_settled
        · rw [if_neg (Bool.eq_false_iff.mp hmust)]
          apply (hnoted ci hci).resend_settled
          intro hcmd hnone
          exact hlack ⟨hmust, ci, hci, Bool.eq_false_iff.mpr hbit, hcmd, hnone⟩
    · rw [hport ci hci, if_pos hbit]
      refine ⟨(hat ci hci hbit).frame (hnoted ci hci) hstruct (hready ci hci hbit) (hquiet ci), ?_⟩
      rw [← (hat ci hci hbit).selects]
      exact (hnoted ci hci).frame_write hstruct (hready ci hci hbit) (writeFrame_ne_empty _ _) (writeOf_words _ _ kind)
    · rw [hport ci hci, if_neg (Bool.eq_false_iff.mp hbit)]
      refine ⟨fun hagain => ?_, fun hmust => ?_⟩
      · rw [if_neg (Bool.eq_false_iff.mp hagain)]
      · rw [if_pos (Bool.not_eq_false _ ▸ hmust)]
        rfl
    · exact fun hagain hlacking => hlack ⟨hagain, hlacking⟩

/-! ## The loop -/

/-- The board after the first `k` words of a transfer, at least one. -/
structure Filled (b b' : Board) (mask : Mask) (dpu : Nat) (kind : MemKind) (array : Nat → Nat) (offset : BitVec 16)
    (again : Prop) (k : Nat) : Prop where
  alike : b.Alike b'
  host : b'.host = b.host
  used : ∀ p ∈ b'.used, p ∈ b.used ∨ ∃ ci < b.rank.nrCis, mask.getLsbD ci = true ∧ array ci = p
  settled : ∀ ci < b.rank.nrCis, (b'.port ci).Settled
  inside : ∀ ci < b.rank.nrCis, mask.getLsbD ci = true → (b'.port ci).At dpu ∧
    (b'.port ci).chip.memory =
      (b.port ci).chip.memory.fill dpu kind offset (fun i => kind.cut (b.host (array ci) i)) k
  outside : ∀ ci < b.rank.nrCis, mask.getLsbD ci = false →
    (again → (b'.port ci).chip.memory = (b.port ci).resend.chip.memory) ∧
      (¬again → (b'.port ci).chip.memory = (b.port ci).chip.memory)
  granted : again → ¬b.Lacking mask

/-- What is left of a settled board may go out again. -/
theorem not_lacking (h : ∀ ci < b.rank.nrCis, (b.port ci).Settled) : ¬b.Lacking mask := by
  intro hlacking
  obtain ⟨ci, hci, -, hcmd, hnone⟩ := hlacking
  exact (h ci hci).heard hcmd hnone

variable {again again' : Prop}

/-- The first word. -/
theorem Wrote.filled (h : (b.use mask array).Wrote b' mask dpu again fun ci =>
    ⟨kind, offset + BitVec.ofNat 16 0, kind.cut (b.host (array ci) 0)⟩) :
    b.Filled b' mask dpu kind array offset again 1 := by
  refine ⟨⟨h.alike.nrCis, h.alike.nrDpus, h.alike.enabled⟩, h.host, fun p hp => ?_, h.settled, fun ci hci hbit => ?_,
    h.outside, h.granted⟩
  · rw [h.used] at hp
    exact used_use hp
  · refine ⟨(h.inside ci hci hbit).1, ?_⟩
    rw [(h.inside ci hci hbit).2, ← DpuMemories.fill_succ _ (by decide : 0 < 2 ^ 16), DpuMemories.fill_zero]
    rfl

/-- Another word: what was left has been executed before. -/
theorem Filled.wrote {s : Board} (h : b.Filled s mask dpu kind array offset again k) (hk : k < 2 ^ 16)
    (hwrote : (s.use mask array).Wrote b' mask dpu again' fun ci =>
      ⟨kind, offset + BitVec.ofNat 16 k, kind.cut (s.host (array ci) k)⟩) :
    b.Filled b' mask dpu kind array offset again (k + 1) := by
  have hcis : s.rank.nrCis = b.rank.nrCis := h.alike.nrCis
  have hlt : ∀ ci < b.rank.nrCis, ci < (s.use mask array).rank.nrCis := fun ci hci => hcis ▸ hci
  have halike : s.Alike b' := ⟨hwrote.alike.nrCis, hwrote.alike.nrDpus, hwrote.alike.enabled⟩
  refine ⟨h.alike.trans halike, hwrote.host.trans h.host, fun p hp => ?_, fun ci hci => hwrote.settled ci (hlt ci hci),
    fun ci hci hbit => ?_, fun ci hci hbit => ?_, h.granted⟩
  · rw [hwrote.used] at hp
    obtain hmem | ⟨ci, hci, hbit, heq⟩ := used_use hp
    · exact h.used p hmem
    · exact .inr ⟨ci, hcis ▸ hci, hbit, heq⟩
  · obtain ⟨hat, hmemory⟩ := hwrote.inside ci (hlt ci hci) hbit
    refine ⟨hat, hmemory.trans ?_⟩
    show (s.port ci).chip.memory.write _ _ = _
    rw [(h.inside ci hci hbit).2, h.host, DpuMemories.fill_succ _ hk]
  · -- sent again or not, the memory is what it was
    have hsame : (b'.port ci).chip.memory = (s.port ci).chip.memory := by
      obtain ⟨hresent, hkept⟩ := hwrote.outside ci (hlt ci hci) hbit
      by_cases hagain : again'
      · exact (hresent hagain).trans (h.settled ci hci).quiet
      · exact hkept hagain
    rw [hsame]
    exact h.outside ci hci hbit

/-- The words of a transfer, written one by one. -/
theorem ufiMemoryWrite_spec (kind : MemKind) (array : Nat → Nat) (offset : BitVec 16) (hnoted : ∀ ci < b.rank.nrCis, (b.port ci).Noted)
    (hat : ∀ ci < b.rank.nrCis, mask.getLsbD ci = true → (b.port ci).At dpu) (hlen : len ≠ 0) :
    let again := b.rank.mustWriteStructure mask (writeStructAt kind offset 0) = false
    Triple (fun s => s = b) (ufiMemoryWrite kind mask array offset len)
      (fun _ b' => b.Filled b' mask dpu kind array offset again len.toNat)
      fun _ _ => again ∧ b.Lacking mask := by
  intro again
  let reached : Nat → Board → Prop
    | 0, s => s = b
    | k + 1, s => b.Filled s mask dpu kind array offset again (k + 1)
  have hpos : len.toNat ≠ 0 := fun h => hlen (BitVec.eq_of_toNat_eq h)
  have hloop : Triple (reached 0) (ufiMemoryWrite kind mask array offset len) (fun _ => reached len.toNat)
      fun _ _ => again ∧ b.Lacking mask := by
    apply triple_forM_range
    intro k hk
    refine triple_each fun s hs => triple_bind (R := fun _ s' => s' = s.use mask array) (triple_modify ?_) fun _ => triple_get ?_
    · intro s' hs'
      rw [hs']
    intro _ hused
    rw [hused]
    intro _ hstart
    rw [hstart]
    have hlen16 : k < 2 ^ 16 := by omega
    cases k with
    | zero =>
      obtain rfl : s = b := hs
      obtain ⟨hagain, hlacking, _, hrun⟩ | ⟨_, hrun, hwrote⟩ :=
        writeAt_spec (b := s.use mask array) kind (fun ci k => (s.use mask array).host (array ci) k) offset 0 hnoted hat
      · rw [hrun]
        exact ⟨hagain, hlacking⟩
      · rw [hrun]
        exact hwrote.filled
    | succ k =>
      have hs : b.Filled s mask dpu kind array offset again (k + 1) := hs
      have hcis : s.rank.nrCis = b.rank.nrCis := hs.alike.nrCis
      have hsettled : ∀ ci < (s.use mask array).rank.nrCis, ((s.use mask array).port ci).Settled :=
        fun ci hci => hs.settled ci (hcis ▸ hci)
      obtain ⟨_, hlacking, _⟩ | ⟨_, hrun, hwrote⟩ :=
        writeAt_spec (b := s.use mask array) kind (fun ci k => (s.use mask array).host (array ci) k) offset (k + 1)
          (fun ci hci => (hsettled ci hci).noted) fun ci hci hbit => (hs.inside ci (hcis ▸ hci) hbit).1
      · exact absurd hlacking (not_lacking hsettled)
      · rw [hrun]
        exact hs.wrote hlen16 hwrote
  obtain ⟨n, hn⟩ := Nat.exists_eq_succ_of_ne_zero hpos
  rw [hn] at hloop ⊢
  exact hloop

/-! ## A selection and the loop -/

/-- Nothing is sent before the first frame: the interfaces have the DPU and the structure noted. -/
def Held (b : Board) (mask : Mask) (kind : MemKind) (dpu : Nat) (offset : BitVec 16) : Prop :=
  ∀ ci < b.rank.nrCis, mask.getLsbD ci = true →
    (b.port ci).info.sliceTarget = .dpu dpu ∧ (b.port ci).info.structureValue = writeStructAt kind offset 0

variable {s : Board} {m : CiMatrix}

theorem Held.unsent (hheld : b.Held mask kind dpu offset) (h : b.Selected s mask dpu) {ci : Nat} (hci : ci < b.rank.nrCis) :
    s.port ci = b.port ci :=
  h.unsent (fun ci hci hbit => (hheld ci hci hbit).1) ci hci

theorem Held.lacking_iff (hheld : b.Held mask kind dpu offset) (h : b.Selected s mask dpu) :
    s.Lacking mask ↔ b.Lacking mask := by
  have hcis : s.rank.nrCis = b.rank.nrCis := h.alike.nrCis
  simp only [Lacking, hcis]
  refine exists_congr fun ci => and_congr_right fun hci => ?_
  rw [hheld.unsent h hci]

theorem writeStructAt_ne_oneByte : writeStructAt kind offset k ≠ oneByteStruct := by
  intro h
  have hwrite := writeOf_words (offset + BitVec.ofNat 16 k) 0 kind
  have hnone : writeOf oneByteStruct (kind.writeFrame 0 ((offset + BitVec.ofNat 16 k).setWidth 64)) = none :=
    writeOf_of_byte (by decide)
  rw [← h] at hnone
  rw [writeStructAt, hwrite] at hnone
  cases hnone

theorem Selected.held_iff (h : b.Selected s mask dpu) (kind : MemKind) (offset : BitVec 16) :
    s.rank.mustWriteStructure mask (writeStructAt kind offset 0) = false ↔ b.Held mask kind dpu offset := by
  have hcis : s.rank.nrCis = b.rank.nrCis := h.alike.nrCis
  rw [Bool.eq_false_iff, ne_eq, mustWriteStructure_iff, hcis]
  constructor
  · intro hnone
    have hstruct : ∀ ci < b.rank.nrCis, mask.getLsbD ci = true →
        (s.port ci).info.structureValue = writeStructAt kind offset 0 := by
      intro ci hci hbit
      by_contra hne
      exact hnone ⟨ci, hci, hbit, hne⟩
    have htarget : ∀ ci < b.rank.nrCis, mask.getLsbD ci = true → (b.port ci).info.sliceTarget = .dpu dpu := by
      intro ci hci hbit
      by_contra hne
      -- a selection leaves its own structure
      have hleft := h.sent ⟨ci, hci, hbit, hne⟩ ci hci
      rw [if_pos hbit, hstruct ci hci hbit] at hleft
      exact writeStructAt_ne_oneByte hleft
    intro ci hci hbit
    refine ⟨htarget ci hci hbit, ?_⟩
    rw [← h.unsent htarget ci hci]
    exact hstruct ci hci hbit
  · intro hheld hsome
    obtain ⟨ci, hci, hbit, hne⟩ := hsome
    apply hne
    show (s.port ci).info.structureValue = _
    rw [hheld.unsent h hci]
    exact (hheld ci hci hbit).2

theorem Filled.selected (hfilled : s.Filled b' mask dpu kind array offset again k) (h : b.Selected s mask dpu)
    (hagain : again ↔ b.Held mask kind dpu offset) :
    b.Filled b' mask dpu kind array offset (b.Held mask kind dpu offset) k := by
  have hcis : s.rank.nrCis = b.rank.nrCis := h.alike.nrCis
  refine ⟨h.alike.trans hfilled.alike, hfilled.host.trans h.host, fun p hp => ?_,
    fun ci hci => hfilled.settled ci (hcis.symm ▸ hci), fun ci hci hbit => ?_, fun ci hci hbit => ?_, fun hheld hlacking => ?_⟩
  · have hused := hfilled.used p hp
    rwa [h.used, hcis] at hused
  · have hinside := hfilled.inside ci (hcis.symm ▸ hci) hbit
    rwa [h.memory hci, h.host] at hinside
  · obtain ⟨hresent, hkept⟩ := hfilled.outside ci (hcis.symm ▸ hci) hbit
    constructor
    · intro hheld
      rw [hresent (hagain.mpr hheld), hheld.unsent h hci]
    · intro hnot
      rw [hkept (mt hagain.mp hnot), h.memory hci]
  · exact hfilled.granted (hagain.mpr hheld) ((hheld.lacking_iff h).mpr hlacking)

theorem accessDpu_write (kind : MemKind) (mask : Mask) (array : Nat → Nat) (hcis : b.rank.nrCis ≤ 8) (hdpu : dpu < 256) (hnoted : ∀ ci < b.rank.nrCis, (b.port ci).Noted)
    (hsize : m.size.setWidth 16 ≠ 0) :
    let eff := b.effective mask dpu
    let held := b.Held eff kind dpu (m.offset.setWidth 16)
    Triple (fun s => s = b) (accessDpu (ufiMemoryWrite kind) m mask dpu array)
      (fun _ b' => b.Filled b' eff dpu kind array (m.offset.setWidth 16) held (m.size.setWidth 16).toNat)
      fun _ _ => held ∧ b.Lacking eff := by
  intro eff held
  obtain ⟨s, hselect, hselected⟩ := ufiSelectDpu_spec mask hcis hdpu hnoted
  have hcis' : s.rank.nrCis = b.rank.nrCis := hselected.alike.nrCis
  have hwrite := ufiMemoryWrite_spec (b := s) kind array (m.offset.setWidth 16)
    (fun ci hci => hselected.noted ci (hcis' ▸ hci)) (fun ci hci hbit => (hselected.inside ci (hcis' ▸ hci) hbit).1) hsize
  have hagain := hselected.held_iff kind (m.offset.setWidth 16)
  refine triple_bind (R := fun mask' s' => mask' = eff ∧ s' = s) ?_ ?_
  · intro t ht
    rw [ht, hselect]
    exact ⟨rfl, rfl⟩
  · intro mask'
    refine triple_each fun t ht => ?_
    rw [ht.1, ht.2]
    refine hwrite.weaken (fun _ h => h) (fun _ b' hfilled => hfilled.selected hselected hagain) fun _ _ herror => ?_
    have hheld : held := hagain.mp herror.1
    exact ⟨hheld, (hheld.lacking_iff hselected).mp herror.2⟩

/-! ## The writes of a plan -/

/-- A cell of the memories that a plan writes. -/
def Transferred (b : Board) (kind : MemKind) (m : CiMatrix) (visits : List Visit) (ci dpu : Nat) (kind' : MemKind)
    (a : BitVec 16) : Prop :=
  b.Covers visits ci dpu ∧ kind' = kind ∧ (a - m.offset.setWidth 16).toNat < (m.size.setWidth 16).toNat

/-- The word of the host that goes there. -/
def hostWord (b : Board) (kind : MemKind) (m : CiMatrix) (ci dpu : Nat) (a : BitVec 16) : Word :=
  kind.cut (b.host (m.ptr (b.rank.xferIndex ci dpu)) (a - m.offset.setWidth 16).toNat)

/-- The first visit sends its frames at once, and with them what is left for the interface. -/
def Again (b : Board) (kind : MemKind) (m : CiMatrix) (first : Visit) (ci : Nat) : Prop :=
  b.Held (b.effective first.1 first.2) kind first.2 (m.offset.setWidth 16) ∧
    (b.effective first.1 first.2).getLsbD ci = false

/-- The first visit fails. -/
def Refused (b : Board) (kind : MemKind) (m : CiMatrix) (first : Visit) : Prop :=
  b.Held (b.effective first.1 first.2) kind first.2 (m.offset.setWidth 16) ∧ b.Lacking (b.effective first.1 first.2)

/-- The board after some visits, at least one. -/
structure WrittenSoFar (b s : Board) (kind : MemKind) (m : CiMatrix) (first : Visit) (visits : List Visit) : Prop where
  alike : b.Alike s
  host : s.host = b.host
  used : ∀ p ∈ s.used, p ∈ b.used ∨ ∃ ci dpu, b.Covers visits ci dpu ∧ m.ptr (b.rank.xferIndex ci dpu) = p
  settled : ∀ ci < b.rank.nrCis, (s.port ci).Settled
  transferred : ∀ ci dpu kind' a, b.Transferred kind m visits ci dpu kind' a →
    (s.port ci).chip.memory dpu kind' a = b.hostWord kind m ci dpu a
  kept : ∀ ci < b.rank.nrCis, ∀ dpu kind' a, ¬b.Transferred kind m visits ci dpu kind' a →
    (b.Again kind m first ci → (s.port ci).chip.memory dpu kind' a = (b.port ci).resend.chip.memory dpu kind' a) ∧
      (¬b.Again kind m first ci → (s.port ci).chip.memory dpu kind' a = (b.port ci).chip.memory dpu kind' a)
  accepted : ¬b.Refused kind m first

variable {visits plan : List Visit} {first : Visit} {ci : Nat}

theorem transferred_append {dpu' : Nat} {kind' : MemKind} {a : BitVec 16} :
    b.Transferred kind m (visits ++ [(mask, dpu)]) ci dpu' kind' a ↔
      b.Transferred kind m visits ci dpu' kind' a ∨
        (ci < b.rank.nrCis ∧ dpu' = dpu ∧ (b.effective mask dpu).getLsbD ci = true) ∧ kind' = kind ∧
          (a - m.offset.setWidth 16).toNat < (m.size.setWidth 16).toNat := by
  rw [Transferred, Transferred, covers_append, or_and_right]

theorem transferred_one {dpu' : Nat} {kind' : MemKind} {a : BitVec 16} :
    b.Transferred kind m [(mask, dpu)] ci dpu' kind' a ↔
      (ci < b.rank.nrCis ∧ dpu' = dpu ∧ (b.effective mask dpu).getLsbD ci = true) ∧ kind' = kind ∧
        (a - m.offset.setWidth 16).toNat < (m.size.setWidth 16).toNat := by
  rw [← List.nil_append [(mask, dpu)], transferred_append, or_iff_right fun h => not_covers_nil h.1]

theorem Filled.written (hcis : b.rank.nrCis ≤ 8)
    (harray : ∀ ci < b.rank.nrCis, mask.getLsbD ci = true → array ci = m.ptr (b.rank.xferIndex ci dpu))
    (h : b.Filled s (b.effective mask dpu) dpu kind array (m.offset.setWidth 16)
      (b.Held (b.effective mask dpu) kind dpu (m.offset.setWidth 16)) (m.size.setWidth 16).toNat) :
    b.WrittenSoFar s kind m (mask, dpu) [(mask, dpu)] := by
  have hptr : ∀ ci < b.rank.nrCis, (b.effective mask dpu).getLsbD ci = true → array ci = m.ptr (b.rank.xferIndex ci dpu) :=
    fun ci hci hbit => harray ci hci (mask_of_effective hcis hci hbit)
  refine ⟨h.alike, h.host, fun p hp => ?_, h.settled, fun ci dpu' kind' a htransferred => ?_,
    fun ci hci dpu' kind' a hnot => ?_, fun hrefused => h.granted hrefused.1 hrefused.2⟩
  · obtain hbefore | ⟨ci, hci, hbit, heq⟩ := h.used p hp
    · exact .inl hbefore
    · exact .inr ⟨ci, dpu, ⟨hci, mask, by simp, hbit⟩, (hptr ci hci hbit).symm.trans heq⟩
  · obtain ⟨⟨hci, rfl, hbit⟩, rfl, hlt⟩ := transferred_one.mp htransferred
    rw [(h.inside ci hci hbit).2, DpuMemories.fill, if_pos ⟨rfl, rfl, hlt⟩, hptr ci hci hbit]
    rfl
  · by_cases hbit : (b.effective mask dpu).getLsbD ci = true
    · have hfill : ¬(dpu' = dpu ∧ kind' = kind ∧ (a - m.offset.setWidth 16).toNat < (m.size.setWidth 16).toNat) :=
        fun hcell => hnot (transferred_one.mpr ⟨⟨hci, hcell.1, hbit⟩, hcell.2⟩)
      refine ⟨fun hagain => ?_, fun _ => ?_⟩
      · rw [hagain.2] at hbit
        cases hbit
      · rw [(h.inside ci hci hbit).2, DpuMemories.fill, if_neg hfill]
    · rw [Bool.not_eq_true] at hbit
      obtain ⟨hresent, hkept⟩ := h.outside ci hci hbit
      refine ⟨fun hagain => ?_, fun hagain => ?_⟩
      · rw [hresent hagain.1]
      · rw [hkept fun hheld => hagain ⟨hheld, hbit⟩]

/-- The board is settled after the first visit: the others touch their own DPUs only. -/
theorem WrittenSoFar.visit {t : Board} (hcis : b.rank.nrCis ≤ 8) (h : b.WrittenSoFar s kind m first visits)
    (harray : ∀ ci < b.rank.nrCis, mask.getLsbD ci = true → array ci = m.ptr (b.rank.xferIndex ci dpu))
    (hfilled : s.Filled t (b.effective mask dpu) dpu kind array (m.offset.setWidth 16) again (m.size.setWidth 16).toNat) :
    b.WrittenSoFar t kind m first (visits ++ [(mask, dpu)]) := by
  have hcis' : s.rank.nrCis = b.rank.nrCis := h.alike.nrCis
  have hptr : ∀ ci < b.rank.nrCis, (b.effective mask dpu).getLsbD ci = true → array ci = m.ptr (b.rank.xferIndex ci dpu) :=
    fun ci hci hbit => harray ci hci (mask_of_effective hcis hci hbit)
  have hcell : ∀ ci < b.rank.nrCis, ∀ dpu' kind' a,
      (t.port ci).chip.memory dpu' kind' a =
        if (dpu' = dpu ∧ (b.effective mask dpu).getLsbD ci = true) ∧ kind' = kind ∧
            (a - m.offset.setWidth 16).toNat < (m.size.setWidth 16).toNat then b.hostWord kind m ci dpu a
        else (s.port ci).chip.memory dpu' kind' a := by
    intro ci hci dpu' kind' a
    by_cases hbit : (b.effective mask dpu).getLsbD ci = true
    · rw [(hfilled.inside ci (hcis'.symm ▸ hci) hbit).2, DpuMemories.fill, hptr ci hci hbit, h.host]
      simp only [hbit, and_true]
      rfl
    · have hsame : (t.port ci).chip.memory = (s.port ci).chip.memory := by
        obtain ⟨hresent, hkept⟩ := hfilled.outside ci (hcis'.symm ▸ hci) (Bool.not_eq_true _ ▸ hbit)
        by_cases hagain : again
        · exact (hresent hagain).trans (h.settled ci hci).quiet
        · exact hkept hagain
      rw [hsame, if_neg fun hplace => hbit hplace.1.2]
  refine ⟨h.alike.trans hfilled.alike, hfilled.host.trans h.host, fun p hp => ?_,
    fun ci hci => hfilled.settled ci (hcis'.symm ▸ hci), fun ci dpu' kind' a htransferred => ?_,
    fun ci hci dpu' kind' a hnot => ?_, h.accepted⟩
  · obtain hbefore | ⟨ci, hci, hbit, heq⟩ := hfilled.used p hp
    · obtain hbefore | ⟨ci, dpu', hcovers, heq⟩ := h.used p hbefore
      · exact .inl hbefore
      · exact .inr ⟨ci, dpu', covers_append.mpr (.inl hcovers), heq⟩
    · rw [hcis'] at hci
      exact .inr ⟨ci, dpu, covers_append.mpr (.inr ⟨hci, rfl, hbit⟩), (hptr ci hci hbit).symm.trans heq⟩
  · rw [hcell ci htransferred.1.1]
    split
    · next hplace => rw [hplace.1.1]
    · next hplace =>
      obtain hbefore | ⟨⟨_, hdpu, hbit⟩, hrest⟩ := transferred_append.mp htransferred
      · exact h.transferred ci dpu' kind' a hbefore
      · exact absurd ⟨⟨hdpu, hbit⟩, hrest⟩ hplace
  · have hplace : ¬((dpu' = dpu ∧ (b.effective mask dpu).getLsbD ci = true) ∧ kind' = kind ∧
        (a - m.offset.setWidth 16).toNat < (m.size.setWidth 16).toNat) :=
      fun hplace => hnot (transferred_append.mpr (.inr ⟨⟨hci, hplace.1.1, hplace.1.2⟩, hplace.2⟩))
    rw [hcell ci hci, if_neg hplace]
    exact h.kept ci hci dpu' kind' a fun hbefore => hnot (transferred_append.mpr (.inl hbefore))

/-- The board after the visits of a plan of writes. -/
def WriteGood (b : Board) (kind : MemKind) (m : CiMatrix) (s : Board) : List Visit → Prop
  | [] => s = b
  | first :: rest => b.WrittenSoFar s kind m first (first :: rest)

/-- A plan of writes fails at its first visit or not at all. -/
theorem write_sweep (kind : MemKind) (hcis : b.rank.nrCis ≤ 8) (hdpu : ∀ visit ∈ plan, visit.2 < 256)
    (hnoted : ∀ ci < b.rank.nrCis, (b.port ci).Noted) (hsize : m.size.setWidth 16 ≠ 0) :
    Sweep (ufiMemoryWrite kind) m b plan (b.WriteGood kind m) fun _ _ =>
      ∃ first, plan.head? = some first ∧ b.Refused kind m first := by
  refine ⟨fun s visits h => ?_, fun s visits mask dpu array rest hplan h harray => ?_⟩
  · cases visits with
    | nil =>
      rw [show s = b from h]
      exact .refl b
    | cons first rest => exact WrittenSoFar.alike h
  · have hmem : (mask, dpu) ∈ plan := by
      rw [hplan]
      simp
    cases visits with
    | nil =>
      rw [show s = b from h]
      refine (accessDpu_write kind mask array hcis (hdpu _ hmem) hnoted hsize).weaken (fun _ ht => ht) (fun _ t ht => ht.written hcis harray) ?_
      intro _ _ hrefused
      exact ⟨(mask, dpu), by rw [hplan]; rfl, hrefused⟩
    | cons first before =>
      have h : b.WrittenSoFar s kind m first (first :: before) := h
      have hcis' : s.rank.nrCis = b.rank.nrCis := h.alike.nrCis
      have hsettled : ∀ ci < s.rank.nrCis, (s.port ci).Settled := fun ci hci => h.settled ci (hcis' ▸ hci)
      have haccess := accessDpu_write (b := s) kind mask array (hcis'.symm ▸ hcis) (hdpu _ hmem)
        (fun ci hci => (hsettled ci hci).noted) hsize
      rw [h.alike.effective] at haccess
      refine haccess.weaken (fun _ ht => ht) (fun _ t ht => h.visit hcis harray ht) fun _ _ hrefused => ?_
      exact absurd hrefused.2 (not_lacking hsettled)

/-- Nothing is transferred: the DPUs are selected. -/
structure Unwritten (b s : Board) : Prop where
  alike : b.Alike s
  host : s.host = b.host
  used : s.used = b.used
  noted : ∀ ci < b.rank.nrCis, (s.port ci).Noted
  memory : ∀ ci < b.rank.nrCis, (s.port ci).chip.memory = (b.port ci).chip.memory

theorem unwritten_sweep (kind : MemKind) (hcis : b.rank.nrCis ≤ 8) (hdpu : ∀ visit ∈ plan, visit.2 < 256) (hsize : m.size.setWidth 16 = 0) :
    Sweep (ufiMemoryWrite kind) m b plan (fun s _ => b.Unwritten s) fun _ _ => False := by
  refine ⟨fun _ _ h => h.alike, fun s visits mask dpu array rest hplan h harray => ?_⟩
  have hmem : (mask, dpu) ∈ plan := by
    rw [hplan]
    simp
  have hcis' : s.rank.nrCis = b.rank.nrCis := h.alike.nrCis
  obtain ⟨t, hselect, hselected⟩ := ufiSelectDpu_spec mask (hcis'.symm ▸ hcis) (hdpu _ hmem) fun ci hci =>
    h.noted ci (hcis' ▸ hci)
  intro s' hs'
  unfold accessDpu
  rw [hs', EStateM.run_bind, hselect, hsize]
  exact ⟨h.alike.trans hselected.alike, hselected.host.trans h.host, hselected.used.trans h.used,
    fun ci hci => hselected.noted ci (hcis'.symm ▸ hci), fun ci hci => by
      rw [hselected.memory (hcis'.symm ▸ hci), h.memory ci hci]⟩

end Board

end DpuBackend.Ufi
