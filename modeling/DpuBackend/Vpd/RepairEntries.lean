import DpuBackend.Vpd.ImageRoundTrip

/-
  The list of repairs of the VPD structure and its bitmaps.

  `dpu_vpd_add_repair_entry` keeps three things in step: the count, whose
  highest value says that there is none, the list of entries, and two bitmaps for
  each rank. `dpuVpdAddRepairEntry_cases` says all that a call can do and return;
  from it `Consistent` holds after any calls (`consistent_repaired`). An entry
  that is there already is accepted again and changes nothing, unless the list is
  full: then the call is refused before it looks (`bookkeeping_iff`).

  Correspondence (src/vpd/src/dpu_vpd.c ↔ Lean):
    `dpu_vpd_init(NULL)` and calls of `dpu_vpd_add_repair_entry` ↔ `DpuVpd.repaired`
    an entry that `__dpu_vpd_compare_repair_entry` finds         ↔ `DpuVpd.Stored`
-/

namespace DpuBackend.Vpd

/-- After `dpu_vpd_init(NULL)` and the entries, in memory that held `mem`. -/
def DpuVpd.repaired (mem : DpuVpd) (news : List NewEntry) : DpuVpd := DpuVpd.after mem (news.map .add)

/-- An entry that counts agrees with `entry` on the compared fields. -/
def DpuVpd.Stored (vpd : DpuVpd) (entry : RepairEntry) : Prop :=
  ∃ i < vpd.count, compareRepairEntry (vpd.entries i) entry = true

/-- An entry that counts repairs the IRAM (or the WRAM) of a DPU. -/
def DpuVpd.Repairs (vpd : DpuVpd) (iram : Bool) (rank : Fin vpdMaxRank) (ci dpu : Nat) : Prop :=
  ∃ i < vpd.count, ((vpd.entries i).iramWram = 0 ↔ iram = true) ∧ (vpd.entries i).rank.toNat = rank ∧
    (vpd.entries i).ci.toNat = ci ∧ (vpd.entries i).dpu.toNat = dpu

/-- `iram_repair` or `wram_repair`. -/
def RankData.repairBits (data : RankData) (iram : Bool) : Nat :=
  if iram then data.iramRepair.toNat else data.wramRepair.toNat

/-- The list and the bitmaps agree. -/
structure DpuVpd.Consistent (vpd : DpuVpd) : Prop where
  count_le : vpd.count ≤ nbMaxRepair
  distinct : ∀ i j, i < j → j < vpd.count → compareRepairEntry (vpd.entries i) (vpd.entries j) = false
  bits : ∀ iram, ∀ rank : Fin vpdMaxRank, ∀ ci < 8, ∀ dpu < 8,
    ((vpd.header.ranks[rank].repairBits iram).testBit (ci * 8 + dpu) = true ↔ vpd.Repairs iram rank ci dpu)

/-- And an entry that is stored is accepted again, without a change. -/
structure DpuVpd.Bookkeeping (vpd : DpuVpd) : Prop where
  consistent : vpd.Consistent
  again : ∀ new : NewEntry, vpd.Stored new.entry → dpuVpdAddRepairEntry vpd new = (vpd, .ok ())

/-! ## Bits -/

theorem toNat_dpuBit {ci dpu : UInt8} (hci : ci.toNat < 8) (hdpu : dpu.toNat < 8) :
    (dpuBit ci dpu).toNat = 2 ^ (ci.toNat * 8 + dpu.toNat) := by
  have hplace : (UInt64.ofNat ((ci.toNat * dpuMaxNrDpusPerCi + dpu.toNat) % 64)).toNat = ci.toNat * 8 + dpu.toNat := by
    rw [UInt64.toNat_ofNat']
    simp only [dpuMaxNrDpusPerCi]
    omega
  rw [dpuBit, UInt64.toNat_shiftLeft, hplace]
  have hlt : ci.toNat * 8 + dpu.toNat < 64 := by omega
  rw [Nat.mod_eq_of_lt hlt, Nat.shiftLeft_eq]
  show 1 * 2 ^ _ % 2 ^ 64 = _
  rw [Nat.one_mul, Nat.mod_eq_of_lt (Nat.pow_lt_pow_right (by decide) hlt)]

/-- The bit of the entry's DPU is set in the bitmap of its memory, and no other bit. -/
theorem setRepair_testBit (data : RankData) (new : NewEntry) (iram : Bool) {ci dpu : Nat} (hdpu : dpu < 8) :
    ((data.setRepair new.entry).repairBits iram).testBit (ci * 8 + dpu) = true ↔
      (data.repairBits iram).testBit (ci * 8 + dpu) = true ∨
        ((new.entry.iramWram = 0 ↔ iram = true) ∧ new.entry.ci.toNat = ci ∧ new.entry.dpu.toNat = dpu) := by
  have hci : new.entry.ci.toNat < 8 := UInt8.lt_iff_toNat_lt.1 new.ci_lt
  have hnew : new.entry.dpu.toNat < 8 := UInt8.lt_iff_toNat_lt.1 new.dpu_lt
  have hsame : new.entry.ci.toNat * 8 + new.entry.dpu.toNat = ci * 8 + dpu ↔
      new.entry.ci.toNat = ci ∧ new.entry.dpu.toNat = dpu := by omega
  have hbit : (dpuBit new.entry.ci new.entry.dpu).toNat.testBit (ci * 8 + dpu) = true ↔
      new.entry.ci.toNat = ci ∧ new.entry.dpu.toNat = dpu := by
    rw [toNat_dpuBit hci hnew, Nat.testBit_two_pow, decide_eq_true_iff, hsame]
  unfold RankData.setRepair
  by_cases hiram : new.entry.iramWram = 0 <;> cases iram <;> simp [RankData.repairBits, hiram, hbit]

/-! ## What a call does -/

/-- The call is refused, finds the entry, or adds it. -/
theorem dpuVpdAddRepairEntry_cases {vpd : DpuVpd} (hle : vpd.count ≤ nbMaxRepair) (new : NewEntry) :
    (vpd.count = nbMaxRepair ∧ dpuVpdAddRepairEntry vpd new = (vpd, .error .nbMaxRepair)) ∨
    (vpd.count < nbMaxRepair ∧ vpd.Stored new.entry ∧ dpuVpdAddRepairEntry vpd new = (vpd, .ok ())) ∨
    (vpd.count < nbMaxRepair ∧ ¬ vpd.Stored new.entry ∧
      dpuVpdAddRepairEntry vpd new = (vpd.append new, .ok ())) := by
  have hstored : ((List.range vpd.counted.toNat).any fun repair => compareRepairEntry (vpd.entries repair) new.entry) =
      true ↔ vpd.Stored new.entry := by
    simp [DpuVpd.Stored, toNat_counted]
  rw [dpuVpdAddRepairEntry]
  by_cases hfull : vpd.header.repairCount.toNat = nbMaxRepair
  · left
    rw [if_pos hfull]
    exact ⟨(count_of_repairCount rfl (Nat.le_of_eq hfull)).trans hfull, rfl⟩
  right
  have hroom : vpd.count < nbMaxRepair := by
    apply Nat.lt_of_le_of_ne hle
    rw [DpuVpd.count]
    split
    · exact hfull
    · decide
  rw [if_neg hfull]
  by_cases hin : vpd.Stored new.entry
  · left
    rw [if_pos (hstored.2 hin)]
    -- there is an entry, so the count is defined and stays
    obtain ⟨i, hi, hsame⟩ := hin
    have hcounted : vpd.counted = vpd.header.repairCount := by
      rw [DpuVpd.counted]
      split
      · next hundefined =>
        rw [DpuVpd.count, if_neg (not_not.2 hundefined)] at hi
        exact absurd hi (Nat.not_lt_zero i)
      · rfl
    refine ⟨hroom, ⟨i, hi, hsame⟩, ?_⟩
    rw [hcounted]
  · right
    rw [if_neg fun h => hin (hstored.1 h)]
    exact ⟨hroom, hin, rfl⟩

/-! ## What every call keeps -/

/-- The new entry stands behind the others. -/
theorem append_entries (vpd : DpuVpd) (new : NewEntry) (i : Nat) :
    (vpd.append new).entries i = if i = vpd.count then new.entry else vpd.entries i := by
  rw [← toNat_counted]
  rfl

theorem append_repairs {vpd : DpuVpd} (new : NewEntry) (hcount : (vpd.append new).count = vpd.count + 1) (iram : Bool)
    (rank : Fin vpdMaxRank) (ci dpu : Nat) :
    (vpd.append new).Repairs iram rank ci dpu ↔ vpd.Repairs iram rank ci dpu ∨
      ((new.entry.iramWram = 0 ↔ iram = true) ∧ new.entry.rank.toNat = rank ∧ new.entry.ci.toNat = ci ∧
        new.entry.dpu.toNat = dpu) := by
  constructor
  · intro h
    obtain ⟨i, hi, h⟩ := h
    rw [append_entries] at h
    split at h
    · exact .inr h
    · exact .inl ⟨i, by omega, h⟩
  · intro h
    obtain ⟨i, hi, h⟩ | h := h
    · refine ⟨i, by omega, ?_⟩
      rwa [append_entries, if_neg (by omega)]
    · refine ⟨vpd.count, by omega, ?_⟩
      rwa [append_entries, if_pos rfl]

/-- An entry that is not there yet is added. -/
theorem consistent_append {vpd : DpuVpd} (hwf : vpd.WellFormed) (h : vpd.Consistent) (hroom : vpd.count < nbMaxRepair)
    {new : NewEntry} (hnew : ¬ vpd.Stored new.entry) : (vpd.append new).Consistent := by
  obtain ⟨hwf', hcount⟩ := append_wellFormed hwf hroom new
  refine ⟨hwf'.count_le, ?_, ?_⟩
  · intro i j hij hj
    rw [append_entries, append_entries, if_neg (by omega)]
    split
    · apply Bool.eq_false_iff.2
      exact fun hsame => hnew ⟨i, by omega, hsame⟩
    · exact h.distinct i j hij (by omega)
  · intro iram rank ci hci dpu hdpu
    rw [append_repairs new hcount]
    have hget : (vpd.append new).header.ranks[rank] =
        if new.entry.rank.toNat = rank then vpd.header.ranks[rank].setRepair new.entry
        else vpd.header.ranks[rank] := by
      show (vpd.header.ranks.set new.entry.rank.toNat _ new.rank_lt)[rank.val] = _
      rw [Vector.getElem_set]
      split
      · next hrank => simp [Vector.get, hrank]
      · rfl
    rw [hget]
    split
    · next hrank => rw [setRepair_testBit _ _ _ hdpu, h.bits iram rank ci hci dpu hdpu]; simp [hrank]
    · next hrank => rw [h.bits iram rank ci hci dpu hdpu]; simp [hrank]

theorem consistent_init (mem : DpuVpd) : (dpuVpdInitNull mem).Consistent := by
  have hcount : (dpuVpdInitNull mem).count = 0 := rfl
  refine ⟨Nat.zero_le _, ?_, ?_⟩
  · intro i j _ hj
    exact absurd hj (Nat.not_lt_zero j)
  · intro iram rank ci _ dpu _
    have hempty : (dpuVpdInitNull mem).header.ranks[rank].repairBits iram = 0 := by
      simp [dpuVpdInitNull, RankData.repairBits]
    rw [hempty, Nat.zero_testBit]
    apply iff_of_false Bool.false_ne_true
    intro h
    obtain ⟨i, hi, -⟩ := h
    exact absurd hi (Nat.not_lt_zero i)

theorem repaired_append (mem : DpuVpd) (news : List NewEntry) (new : NewEntry) :
    DpuVpd.repaired mem (news ++ [new]) = (dpuVpdAddRepairEntry (DpuVpd.repaired mem news) new).1 := by
  rw [DpuVpd.repaired, DpuVpd.after, List.map_append, List.foldl_append]
  rfl

/-- The list and the bitmaps agree after any calls. -/
theorem consistent_repaired (mem : DpuVpd) (news : List NewEntry) : (DpuVpd.repaired mem news).Consistent := by
  induction news using List.reverseRecOn with
  | nil => exact consistent_init mem
  | append_singleton news new ih =>
    rw [repaired_append]
    have hwf : (DpuVpd.repaired mem news).WellFormed := after_wellFormed mem _
    obtain ⟨-, heq⟩ | ⟨-, -, heq⟩ | ⟨hroom, hnew, heq⟩ := dpuVpdAddRepairEntry_cases ih.count_le new
    · rwa [heq]
    · rwa [heq]
    · rw [heq]
      exact consistent_append hwf ih hroom hnew

/-- The entries that count were all given by the caller. -/
theorem repaired_entries (mem : DpuVpd) (news : List NewEntry) :
    ∀ i < (DpuVpd.repaired mem news).count, ∃ new : NewEntry, (DpuVpd.repaired mem news).entries i = new.entry := by
  induction news using List.reverseRecOn with
  | nil =>
    intro i hi
    exact absurd hi (Nat.not_lt_zero i)
  | append_singleton news new ih =>
    rw [repaired_append]
    have hwf : (DpuVpd.repaired mem news).WellFormed := after_wellFormed mem _
    obtain ⟨-, heq⟩ | ⟨-, -, heq⟩ | ⟨hroom, -, heq⟩ := dpuVpdAddRepairEntry_cases hwf.count_le new
    · rwa [heq]
    · rwa [heq]
    · rw [heq]
      intro i hi
      rw [(append_wellFormed hwf hroom new).2] at hi
      rw [append_entries]
      split
      · exact ⟨new, rfl⟩
      · exact ih i (by omega)

theorem compareRepairEntry_self (entry : RepairEntry) : compareRepairEntry entry entry = true := by
  simp [compareRepairEntry]

/-- The bookkeeping is right in every state but those with `NB_MAX_REPAIR` entries. -/
theorem bookkeeping_iff (mem : DpuVpd) (news : List NewEntry) :
    (DpuVpd.repaired mem news).Bookkeeping ↔ (DpuVpd.repaired mem news).count ≠ nbMaxRepair := by
  have hle := (consistent_repaired mem news).count_le
  constructor
  · intro h hfull
    -- an entry of the full list is refused when it comes again
    obtain ⟨new, hnew⟩ := repaired_entries mem news 0 (by rw [hfull]; decide)
    have hstored : (DpuVpd.repaired mem news).Stored new.entry := by
      refine ⟨0, by rw [hfull]; decide, ?_⟩
      rw [hnew]
      exact compareRepairEntry_self _
    have hok := h.again new hstored
    obtain ⟨-, heq⟩ | ⟨hroom, -⟩ | ⟨hroom, -⟩ := dpuVpdAddRepairEntry_cases hle new
    · cases congrArg Prod.snd (heq.symm.trans hok)
    · exact absurd hfull (Nat.ne_of_lt hroom)
    · exact absurd hfull (Nat.ne_of_lt hroom)
  · intro hroom
    refine ⟨consistent_repaired mem news, fun new hstored => ?_⟩
    obtain ⟨hfull, -⟩ | ⟨-, -, heq⟩ | ⟨-, hnot, -⟩ := dpuVpdAddRepairEntry_cases hle new
    · exact absurd hfull hroom
    · exact heq
    · exact absurd hstored hnot

/-- With 121 repairs stored, the first of them is refused when it is added again. -/
theorem stored_entry_refused_when_full :
    ¬ (DpuVpd.repaired ⟨Header.layout.decode [], fun _ => RepairEntry.layout.decode []⟩
      ((List.range nbMaxRepair).map addressEntry)).Bookkeeping := by
  intro h
  have hcalls : ((List.range nbMaxRepair).map addressEntry).map Call.add = addressCalls nbMaxRepair := by
    rw [List.map_map]
    rfl
  rw [DpuVpd.repaired, hcalls] at h
  obtain ⟨hcount, hentries⟩ := addressCalls_count ⟨Header.layout.decode [], fun _ => RepairEntry.layout.decode []⟩
    (Nat.le_refl nbMaxRepair)
  have hok := h.again (addressEntry 0) ⟨0, by rw [hcount]; decide, by rw [hentries 0 (by decide)]; rfl⟩
  obtain ⟨-, heq⟩ | ⟨hroom, -⟩ | ⟨hroom, -⟩ := dpuVpdAddRepairEntry_cases (Nat.le_of_eq hcount) (addressEntry 0)
  · cases congrArg Prod.snd (heq.symm.trans hok)
  · exact absurd hcount (Nat.ne_of_lt hroom)
  · exact absurd hcount (Nat.ne_of_lt hroom)

end DpuBackend.Vpd
