import DpuBackend.Ufi.Board

/-
  The transfers between the host and the IRAMs and WRAMs a matrix lists (`ufi_memory.c`).

  A WRAM matrix goes by lines of DPUs: the interfaces that have a buffer on the line are
  gathered in a mask, their buffers in an array that is reused from line to line, and the
  selection of the line drops the interfaces whose DPU is disabled. An IRAM matrix goes DPU
  by DPU, each with an array of which only its own entry is set. `status` is set by the
  accesses and nowhere else: where there is none, it is returned as it was found.

  Correspondence (C ↔ Lean):
    `struct dpu_transfer_matrix`, of this path          ↔ `CiMatrix`
    `get_transfer_matrix_index`                         ↔ `CmdRank.xferIndex`
    `ufi_select_dpu`                                    ↔ `Board.ufiSelectDpu`
    `ufi_iram_write`, `ufi_wram_write`                  ↔ `Board.ufiMemoryWrite`
    `ufi_iram_read`, `ufi_wram_read`                    ↔ `Board.ufiIramRead`, `Board.ufiWramRead`
    `ci_copy_{to,from}_irams_dpu`                       ↔ `Board.accessDpu` for a mask of one interface
    `ci_copy_{to,from}_irams_matrix`                    ↔ `Board.ciCopyToIramsMatrix`, `Board.ciCopyFromIramsMatrix`
    `ci_copy_{to,from}_wrams_matrix`                    ↔ `Board.ciCopyToWramsMatrix`, `Board.ciCopyFromWramsMatrix`

  The engine of all four is one access to one line, `Board.accessDpu`. `Ufi.MatrixWrite` says
  what a write does, to the interfaces of the mask and to the others.
-/

namespace DpuBackend.Ufi

open DpuBackend.Lib

/-- The buffers by matrix index, 0 being `NULL`; offset and size in elements of the memory. -/
structure CiMatrix where
  ptr : Nat → Nat
  offset : BitVec 32
  size : BitVec 32

/-- `get_transfer_matrix_index` -/
def CmdRank.xferIndex (r : CmdRank) (sliceId dpuId : Nat) : Nat := dpuId * r.nrCis + sliceId

/-- `dpu->enabled`, which repeats the bit of the slice. -/
def CmdRank.dpuEnabled (r : CmdRank) (sliceId dpuId : Nat) : Bool := (r.sliceInfo sliceId).enabledDpus.getLsbD dpuId

/-- A `dpu_error_t` variable; errors leave the function at once. -/
inductive Status where
  | uninitialised
  | ok
deriving DecidableEq, Repr

/-- Byte `i` of an element. -/
def setByte (w : Word) (i : Nat) (b : Word) : Word := w &&& ~~~(0xFF#64 <<< (i * 8)) ||| (b &&& 0xFF#64) <<< (i * 8)

theorem byteOf_setByte (w v : Word) {i j : Nat} (hj : j < 8) :
    byteOf (setByte w i v) j = if j = i then v &&& 0xFF#64 else byteOf w j := by
  have hv : IsByte (v &&& 0xFF#64) := isByte_and v (by decide)
  apply BitVec.eq_of_getLsbD_eq
  intro n _
  rw [byteOf_bit]
  by_cases hn : n < 8
  · have hlt : j * 8 + n < 64 := by omega
    have hmask : (0xFF#64).getLsbD n = true := by
      interval_cases n <;> decide
    rw [setByte, BitVec.getLsbD_or, BitVec.getLsbD_and, BitVec.getLsbD_not, shifted_bit (by decide) i hj hn,
      shifted_bit hv i hj hn, hmask]
    by_cases hji : j = i
    · simp [hji, hn]
    · simp [hji, hn, hlt, byteOf_bit]
  · have hw : IsByte (byteOf w j) := isByte_byteOf w j
    rw [decide_eq_false hn, Bool.false_and]
    split
    · rw [hv.bit (by omega)]
    · rw [hw.bit (by omega)]

/-- Words are equal if their bytes are. -/
theorem eq_of_bytes {w w' : Word} (h : ∀ k < 8, byteOf w k = byteOf w' k) : w = w' :=
  BitVec.eq_of_getLsbD_eq fun i hi => bit_of_byte (h (i / 8) (by omega))

namespace Board

/-- `ufi_select_dpu`, and the mask it leaves. -/
def ufiSelectDpu (mask : Mask) (dpu : Nat) : BoardM Mask := do
  let b ← get
  send (selectOne (SliceInfo.dpuTarget · dpu) (.dpu dpu) mask)
  pure (b.rank.selected (SliceInfo.dpuTarget · dpu) mask)

/-- The interfaces a loop visits. -/
def visited (b : Board) (mask : Mask) : List Nat := (List.range b.rank.nrCis).filter (b.rank.visits mask)

/-- The buffers of the interfaces of the mask are accessed. -/
def use (b : Board) (mask : Mask) (array : Nat → Nat) : Board :=
  { b with used := (b.visited mask).map array ++ b.used }

/-- Element `k` of each of them is set. -/
def put (b : Board) (mask : Mask) (array : Nat → Nat) (k : Nat) (value : Nat → Word → Word) : Board :=
  { b.use mask array with
    host := (b.visited mask).foldl (fun host ci p i =>
      if p = array ci ∧ i = k then value ci (host p i) else host p i) b.host }

/-- `ufi_iram_write`, `ufi_wram_write` -/
def ufiMemoryWrite (kind : MemKind) (mask : Mask) (array : Nat → Nat) (offset len : BitVec 16) : BoardM PUnit :=
  (List.range len.toNat).forM fun k => do
    modify fun b => b.use mask array
    let b ← get
    send (memoryWriteAt mask kind.writeStruct kind.writeFrame (fun ci k => b.host (array ci) k) offset k)

def ufiWramRead (mask : Mask) (array : Nat → Nat) (offset len : BitVec 16) : BoardM PUnit :=
  (List.range len.toNat).forM fun k => do
    send (execFrame mask instructionStruct (wramReadWordFrame (readAddress offset k)))
    modify fun b => b.put mask array k fun ci _ => MemKind.wram.cut (b.chips ci).result

/-- Byte by byte; the last also clears the two bytes an instruction does not have. -/
def ufiIramRead (mask : Mask) (array : Nat → Nat) (offset len : BitVec 16) : BoardM PUnit :=
  (List.range len.toNat).forM fun k =>
    (List.range 6).forM fun byte => do
      send (execFrame mask iramReadStruct (iramReadByteFrame byte (readAddress offset k)))
      modify fun b => b.put mask array k fun ci w =>
        let w := setByte w byte (b.chips ci).result
        if byte = 5 then setByte (setByte w 6 0) 7 0 else w

/-- The accesses, by mask, array, offset and length. -/
abbrev Access := Mask → (Nat → Nat) → BitVec 16 → BitVec 16 → BoardM PUnit

/-- One DPU of each interface of the mask. -/
def accessDpu (access : Access) (m : CiMatrix) (mask : Mask) (dpu : Nat) (array : Nat → Nat) : BoardM PUnit := do
  let mask ← ufiSelectDpu mask dpu
  access mask array (m.offset.setWidth 16) (m.size.setWidth 16)

/-! ## IRAM -/

/-- The loops over interfaces and DPUs; `stack` is what the array of a call holds. -/
def iramDpus (access : Access) (m : CiMatrix) (stack : Nat → Nat) : List (Nat × Nat) → Status → BoardM Status
  | [], status => pure status
  | (ci, dpu) :: rest, status => do
    let b ← get
    if b.rank.dpuEnabled ci dpu = false then iramDpus access m stack rest status
    else if m.ptr (b.rank.xferIndex ci dpu) = 0 then iramDpus access m stack rest status
    else do
      accessDpu access m (dpuMaskOne ci) dpu (Function.update stack ci (m.ptr (b.rank.xferIndex ci dpu)))
      iramDpus access m stack rest .ok

/-- The DPUs of a rank, interface by interface. -/
def dpus (b : Board) : List (Nat × Nat) :=
  (List.range b.rank.nrCis).flatMap fun ci => (List.range b.rank.nrDpus).map fun dpu => (ci, dpu)

def ciCopyIramsMatrix (access : Access) (m : CiMatrix) (stack : Nat → Nat) : BoardM Status := do
  let b ← get
  iramDpus access m stack b.dpus .uninitialised

def ciCopyToIramsMatrix : CiMatrix → (Nat → Nat) → BoardM Status := ciCopyIramsMatrix (ufiMemoryWrite .iram)

def ciCopyFromIramsMatrix : CiMatrix → (Nat → Nat) → BoardM Status := ciCopyIramsMatrix ufiIramRead

/-! ## WRAM -/

/-- The array after the loop over the interfaces of a line. -/
def lineArray (b : Board) (m : CiMatrix) (dpu : Nat) (array : Nat → Nat) : Nat → Nat := fun ci =>
  if ci < b.rank.nrCis ∧ m.ptr (b.rank.xferIndex ci dpu) ≠ 0 then m.ptr (b.rank.xferIndex ci dpu) else array ci

/-- The mask after it. -/
def lineMask (b : Board) (m : CiMatrix) (dpu : Nat) : Mask :=
  gatherMask b.rank.nrCis fun ci => decide (m.ptr (b.rank.xferIndex ci dpu) ≠ 0)

/-- The loop over the lines. -/
def wramLines (access : Access) (m : CiMatrix) : List Nat → (Nat → Nat) → Status → BoardM Status
  | [], _, status => pure status
  | dpu :: rest, array, status => do
    let b ← get
    let array := b.lineArray m dpu array
    if b.lineMask m dpu = 0 then wramLines access m rest array status
    else do
      accessDpu access m (b.lineMask m dpu) dpu array
      wramLines access m rest array .ok

def ciCopyWramsMatrix (access : Access) (m : CiMatrix) : BoardM Status := do
  let b ← get
  wramLines access m (List.range b.rank.nrDpus) (fun _ => 0) .uninitialised

def ciCopyToWramsMatrix : CiMatrix → BoardM Status := ciCopyWramsMatrix (ufiMemoryWrite .wram)

def ciCopyFromWramsMatrix : CiMatrix → BoardM Status := ciCopyWramsMatrix ufiWramRead

/-! ## The interfaces of a mask -/

section Visits

variable {b : Board} {mask : Mask} {ci : Nat} {array : Nat → Nat}

theorem mem_visited : ci ∈ b.visited mask ↔ ci < b.rank.nrCis ∧ mask.getLsbD ci = true := by
  rw [visited, List.mem_filter, List.mem_range]
  refine and_congr_right fun hci => ?_
  rw [visits_eq b.rank hci]

theorem used_use {p : Nat} (hp : p ∈ (b.use mask array).used) :
    p ∈ b.used ∨ ∃ ci < b.rank.nrCis, mask.getLsbD ci = true ∧ array ci = p := by
  obtain hmem | hmem := List.mem_append.mp hp
  · obtain ⟨ci, hci, heq⟩ := List.mem_map.mp hmem
    exact .inr ⟨ci, (mem_visited.mp hci).1, (mem_visited.mp hci).2, heq⟩
  · exact .inl hmem

end Visits

/-! ## The selection of a line -/

/-- The interfaces of the mask whose DPU is enabled. -/
def effective (b : Board) (mask : Mask) (dpu : Nat) : Mask := b.rank.selected (SliceInfo.dpuTarget · dpu) mask

theorem dpuTarget_eq (info : SliceInfo) (dpu : Nat) :
    info.dpuTarget dpu = if info.enabledDpus.getLsbD dpu then some (.dpu dpu) else none := by
  have hone : info.enabledDpus &&& dpuMaskOne dpu ≠ 0 ↔ info.enabledDpus.getLsbD dpu = true := by
    constructor
    · intro hne
      by_contra hbit
      apply hne
      apply mask_ext
      intro i _
      rw [BitVec.getLsbD_and, dpuMaskOne_bit]
      by_cases heq : i = dpu
      · rw [heq, Bool.eq_false_iff.mpr hbit]
        simp
      · simp [heq]
    · intro hbit hzero
      have hlt : dpu < 8 := BitVec.lt_of_getLsbD hbit
      have hbits : (info.enabledDpus &&& dpuMaskOne dpu).getLsbD dpu = false := by rw [hzero]; exact BitVec.getLsbD_zero
      rw [BitVec.getLsbD_and, hbit, dpuMaskOne_bit, decide_eq_true ⟨hlt, rfl⟩] at hbits
      exact absurd hbits (by decide)
  simp only [SliceInfo.dpuTarget, hone]

variable {b b' : Board} {mask : Mask} {dpu ci : Nat}

theorem effective_bit (hcis : b.rank.nrCis ≤ 8) (hci : ci < b.rank.nrCis) :
    (b.effective mask dpu).getLsbD ci = (mask.getLsbD ci && b.rank.dpuEnabled ci dpu) := by
  have h8 : ci < 8 ∧ ci < b.rank.nrCis := ⟨by omega, hci⟩
  have hvisits : b.rank.visits mask ci = mask.getLsbD ci := visits_eq b.rank hci
  rw [effective, CmdRank.selected, BitVec.getLsbD_and, BitVec.getLsbD_not, gatherMask_bit, dpuTarget_eq, CmdRank.dpuEnabled,
    hvisits]
  cases mask.getLsbD ci <;> cases (b.rank.sliceInfo ci).enabledDpus.getLsbD dpu <;> simp [h8]

/-- What the selection of a DPU does. -/
structure Selected (b b' : Board) (eff : Mask) (dpu : Nat) : Prop where
  alike : b.Alike b'
  host : b'.host = b.host
  used : b'.used = b.used
  noted : ∀ ci < b.rank.nrCis, (b'.port ci).Noted
  inside : ∀ ci < b.rank.nrCis, eff.getLsbD ci = true →
    (b'.port ci).At dpu ∧ (b'.port ci).chip.memory = (b.port ci).chip.memory
  /-- Some interface has another target noted: the buffer is prepared. -/
  sent : (∃ ci < b.rank.nrCis, eff.getLsbD ci = true ∧ (b.port ci).info.sliceTarget ≠ .dpu dpu) → ∀ ci < b.rank.nrCis,
    if eff.getLsbD ci then (b'.port ci).info.structureValue = oneByteStruct else b'.port ci = (b.port ci).clear
  unsent : (∀ ci < b.rank.nrCis, eff.getLsbD ci = true → (b.port ci).info.sliceTarget = .dpu dpu) →
    ∀ ci < b.rank.nrCis, b'.port ci = b.port ci

/-- Selecting writes nothing. -/
theorem Selected.memory (h : b.Selected b' mask dpu) (hci : ci < b.rank.nrCis) :
    (b'.port ci).chip.memory = (b.port ci).chip.memory := by
  by_cases hbit : mask.getLsbD ci = true
  · exact (h.inside ci hci hbit).2
  · by_cases hsome : ∃ ci < b.rank.nrCis, mask.getLsbD ci = true ∧ (b.port ci).info.sliceTarget ≠ .dpu dpu
    · have hclear := h.sent hsome ci hci
      rw [if_neg hbit] at hclear
      rw [hclear]
      rfl
    · have hall : ∀ ci < b.rank.nrCis, mask.getLsbD ci = true → (b.port ci).info.sliceTarget = .dpu dpu := by
        intro ci hci hbit
        by_contra hne
        exact hsome ⟨ci, hci, hbit, hne⟩
      rw [h.unsent hall ci hci]

/-- The board once the targets are noted. -/
def retargeted (b : Board) (mask : Mask) (dpu : Nat) : Board :=
  { b with rank := b.rank.setTargets (SliceInfo.dpuTarget · dpu) mask }

theorem port_retargeted (hcis : b.rank.nrCis ≤ 8) (hci : ci < b.rank.nrCis) :
    (b.retargeted mask dpu).port ci =
      if (b.effective mask dpu).getLsbD ci then (b.port ci).noteTarget (.dpu dpu) else b.port ci := by
  have hvisits : b.rank.visits mask ci = mask.getLsbD ci := visits_eq b.rank hci
  rw [effective_bit hcis hci, CmdRank.dpuEnabled]
  simp only [retargeted, port, CmdRank.setTargets, hvisits, dpuTarget_eq]
  obtain hbit | hbit := Bool.eq_false_or_eq_true (mask.getLsbD ci) <;>
  obtain henabled | henabled := Bool.eq_false_or_eq_true ((b.rank.sliceInfo ci).enabledDpus.getLsbD dpu) <;>
  simp [hbit, henabled, Port.noteTarget, SliceInfo.retarget]

theorem retargets_iff (hcis : b.rank.nrCis ≤ 8) :
    (List.range b.begin.nrCis).any (b.begin.retargets (SliceInfo.dpuTarget · dpu) mask) = true ↔
      ∃ ci < b.rank.nrCis, (b.effective mask dpu).getLsbD ci = true ∧ (b.port ci).info.sliceTarget ≠ .dpu dpu := by
  simp only [List.any_eq_true, List.mem_range, begin_nrCis]
  refine exists_congr fun ci => and_congr_right fun hci => ?_
  have hvisits : b.rank.visits mask ci = mask.getLsbD ci := visits_eq b.rank hci
  rw [effective_bit hcis hci, CmdRank.dpuEnabled]
  simp only [CmdRank.retargets, begin_visits, hvisits, begin_sliceInfo, dpuTarget_eq, port]
  obtain henabled | henabled := Bool.eq_false_or_eq_true ((b.rank.sliceInfo ci).enabledDpus.getLsbD dpu) <;>
  simp [henabled, ne_comm (a := SliceTarget.dpu dpu)]

theorem ufiSelectDpu_spec (mask : Mask) (hcis : b.rank.nrCis ≤ 8) (hdpu : dpu < 256) (hnoted : ∀ ci < b.rank.nrCis, (b.port ci).Noted) :
    ∃ b', (ufiSelectDpu mask dpu).run b = .ok (b.effective mask dpu) b' ∧ b.Selected b' (b.effective mask dpu) dpu := by
  have hrun : ∀ b', (send (selectOne (SliceInfo.dpuTarget · dpu) (.dpu dpu) mask)).run b = .ok ⟨⟩ b' →
      (ufiSelectDpu mask dpu).run b = .ok (b.effective mask dpu) b' := by
    intro b' hsend
    show (send (selectOne (SliceInfo.dpuTarget · dpu) (.dpu dpu) mask) >>= fun _ => pure (b.effective mask dpu)).run b = _
    rw [EStateM.run_bind, hsend]
    rfl
  have hselect := run_selectOne b.begin_allDone mask (SliceInfo.dpuTarget · dpu) (.dpu dpu)
  have hretargeted : ∀ ci < b.rank.nrCis, (b.retargeted mask dpu).port ci =
      if (b.effective mask dpu).getLsbD ci then (b.port ci).noteTarget (.dpu dpu) else b.port ci :=
    fun ci hci => port_retargeted hcis hci
  have halike : b.Alike (b.retargeted mask dpu) := by
    refine ⟨rfl, rfl, fun ci => ?_⟩
    show ((b.rank.setTargets (SliceInfo.dpuTarget · dpu) mask).sliceInfo ci).enabledDpus = _
    simp only [CmdRank.setTargets]
    split <;> rfl
  by_cases hany : (List.range b.begin.nrCis).any (b.begin.retargets (SliceInfo.dpuTarget · dpu) mask) = true
  · rw [if_pos hany] at hselect
    have hsome := (retargets_iff hcis).mp hany
    refine ⟨_, hrun _ (send_ok hselect), ?_⟩
    -- the targets are noted first, and then a structure and a frame go out
    let b₁ := b.retargeted mask dpu
    let eff := b.effective mask dpu
    have hafter : b.after (((b.begin.setTargets (SliceInfo.dpuTarget · dpu) mask).structured
        (b.begin.selected (SliceInfo.dpuTarget · dpu) mask) (selectStruct (.dpu dpu))).sent
          (b.begin.selected (SliceInfo.dpuTarget · dpu) mask) (selectFrame (.dpu dpu)))
        = b₁.after ((b₁.begin.structured eff oneByteStruct).sent eff (selectFrame (.dpu dpu))) := rfl
    have hport := fun ci (hci : ci < b.rank.nrCis) =>
      port_execFrame (b := b₁) hci eff oneByteStruct (selectFrame (.dpu dpu))
    rw [hafter]
    have hready : ∀ ci < b.rank.nrCis, eff.getLsbD ci = true →
        (b.port ci).Ready (b₁.rank.mustWriteStructure eff oneByteStruct) oneByteStruct := by
      intro ci hci hbit
      by_cases hheld : (b.port ci).info.structureValue = oneByteStruct
      · exact .inr hheld
      · refine .inl (mustWriteStructure_iff.mpr ⟨ci, hci, hbit, ?_⟩)
        show (b₁.port ci).info.structureValue ≠ _
        rw [hretargeted ci hci, if_pos hbit]
        exact hheld
    have hin : ∀ ci < b.rank.nrCis, eff.getLsbD ci = true →
        (b₁.after ((b₁.begin.structured eff oneByteStruct).sent eff (selectFrame (.dpu dpu)))).port ci =
          ((b.port ci).noteTarget (.dpu dpu)).frame (b₁.rank.mustWriteStructure eff oneByteStruct) oneByteStruct
            (selectFrame (.dpu dpu)) := by
      intro ci hci hbit
      rw [hport ci hci, if_pos hbit, hretargeted ci hci, if_pos hbit]
    have hout : ∀ ci < b.rank.nrCis, ¬eff.getLsbD ci = true →
        (b₁.after ((b₁.begin.structured eff oneByteStruct).sent eff (selectFrame (.dpu dpu)))).port ci = (b.port ci).clear := by
      intro ci hci hbit
      rw [hport ci hci, if_neg hbit, hretargeted ci hci, if_neg hbit]
    refine ⟨halike.trans (alike_execFrame b₁ eff oneByteStruct _), rfl, rfl, fun ci hci => ?_, fun ci hci hbit => ?_,
      fun _ ci hci => ?_, fun hnone => ?_⟩
    · by_cases hbit : eff.getLsbD ci = true
      · rw [hin ci hci hbit]
        exact ((hnoted ci hci).select hdpu (hready ci hci hbit)).1
      · rw [hout ci hci hbit]
        exact (hnoted ci hci).clear
    · rw [hin ci hci hbit]
      exact ((hnoted ci hci).select hdpu (hready ci hci hbit)).2
    · split
      · next hbit =>
        rw [hin ci hci hbit]
        rfl
      · next hbit => exact hout ci hci hbit
    · obtain ⟨ci, hci, hbit, hne⟩ := hsome
      exact absurd (hnone ci hci hbit) hne
  · -- all targets are noted already, and nothing is sent
    rw [if_neg hany] at hselect
    have hall : ∀ ci < b.rank.nrCis, (b.effective mask dpu).getLsbD ci = true →
        (b.port ci).info.sliceTarget = .dpu dpu := by
      intro ci hci hbit
      by_contra hne
      exact hany ((retargets_iff hcis).mpr ⟨ci, hci, hbit, hne⟩)
    have hport : ∀ ci < b.rank.nrCis, (b.retargeted mask dpu).port ci = b.port ci := by
      intro ci hci
      rw [hretargeted ci hci]
      split
      · next hbit =>
        show { b.port ci with info := { (b.port ci).info with sliceTarget := .dpu dpu } } = _
        rw [← hall ci hci hbit]
      · rfl
    have hafter : ∀ ci, (b.after (b.begin.setTargets (SliceInfo.dpuTarget · dpu) mask)).port ci =
        (b.retargeted mask dpu).port ci := fun _ => rfl
    refine ⟨_, hrun _ (send_ok hselect), ⟨halike.nrCis, halike.nrDpus, halike.enabled⟩, rfl, rfl, fun ci hci => ?_,
      fun ci hci hbit => ?_, fun hsome => ?_, fun _ ci hci => ?_⟩
    · rw [hafter, hport ci hci]
      exact hnoted ci hci
    · rw [hafter, hport ci hci]
      exact ⟨(hnoted ci hci).at (hall ci hci hbit), rfl⟩
    · obtain ⟨ci, hci, hbit, hne⟩ := hsome
      exact absurd (hall ci hci hbit) hne
    · rw [hafter, hport ci hci]

end Board

end DpuBackend.Ufi
