import DpuBackend.Lib.FirstFit
import DpuBackend.Ufi.ResetRank
import Mathlib.Data.Fintype.Basic

/-
  The repair plan of a memory (`ufi_config.c`, `hw_dpu_rank.c`).

  A record keeps four faulty addresses with the bits that fail there, and counts on past them.
  The plan has two pairs of addresses, each with its upper bits, one odd and one even bit.

  1. The record: what it holds after any calls (`Recorded`), one lemma for a call.
  2. The addresses are placed by first fit (`addAddress_encode`), which finds a plan if there
     is one (`Lib.FirstFit`).
  3. The bits: of two with the same parity the second finds its place taken (`indexes_spec`).

  The count has 32 bits. After 2^32 calls it may be zero again, and the record of a memory that
  cannot be repaired looks like that of a sound one (`wrapped_count`).
-/

namespace DpuBackend.Ufi.RepairPlan

open DpuBackend.Lib DpuBackend.Vpd

/-- The arguments of a call. -/
structure Fault where
  address : UInt16
  faultyBits : UInt64
  address_lt : address.toNat < 2 ^ 12

def zeroed : MemoryRepair := ⟨Vector.replicate nbMaxRepairAddr ⟨0, 0⟩, 0⟩

def record (faults : List Fault) : MemoryRepair :=
  faults.foldl (fun info f => addFaultyMemoryAddress info f.address f.faultyBits) zeroed

/-! ## What a plan is for -/

def addresses (faults : List Fault) : Finset UInt16 := (faults.map Fault.address).toFinset

def upperBits (address : UInt16) : Nat := address.toNat / 16

def lowerBits (address : UInt16) : Nat := address.toNat % 16

def HasBit (bits : UInt64) (i : Nat) : Prop := bits.toBitVec.getLsbD i = true

/-- The bit fails at some address. -/
def Faulty (faults : List Fault) (i : Nat) : Prop := ∃ f ∈ faults, HasBit f.faultyBits i

structure Repairable (faults : List Fault) : Prop where
  few : (addresses faults).card ≤ nbMaxRepairAddr
  divisible : FirstFit.Divisible upperBits (addresses faults)
  parity : ∀ i j, Faulty faults i → Faulty faults j → i % 2 = j % 2 → i = j

/-- The plan has a place for the address, and one for each of its bits. -/
structure Covers (config : MemoryRepairConfig) (f : Fault) : Prop where
  address :
    config.abMsbs.toNat = upperBits f.address ∧
        (config.aLsbs.toNat = lowerBits f.address ∨ config.bLsbs.toNat = lowerBits f.address) ∨
      config.cdMsbs.toNat = upperBits f.address ∧
        (config.cLsbs.toNat = lowerBits f.address ∨ config.dLsbs.toNat = lowerBits f.address)
  bits : ∀ i, HasBit f.faultyBits i → i = config.oddIndex.toNat ∨ i = config.evenIndex.toNat

/-- The plan made after these calls is the right one. -/
structure PlanRight (faults : List Fault) : Prop where
  succeeds_iff : (extractMemoryRepairConfiguration (record faults)).isSome = true ↔ Repairable faults
  covers : ∀ config, extractMemoryRepairConfiguration (record faults) = some config → ∀ f ∈ faults, Covers config f
  order : ∀ faults', faults'.Perm faults →
    (extractMemoryRepairConfiguration (record faults')).isSome =
      (extractMemoryRepairConfiguration (record faults)).isSome

/-! ## The record -/

/-- The entries in use are the addresses so far, each once, with their bits. -/
structure Held (faults : List Fault) (info : MemoryRepair) : Prop where
  count_le : info.nrOfCorruptedAddresses.toNat ≤ nbMaxRepairAddr
  inj : ∀ i j : Fin nbMaxRepairAddr, i < info.nrOfCorruptedAddresses.toNat → j < info.nrOfCorruptedAddresses.toNat →
    (info.corruptedAddresses.get i).address = (info.corruptedAddresses.get j).address → i = j
  mem : ∀ a, a ∈ addresses faults ↔ ∃ i : Fin nbMaxRepairAddr, i < info.nrOfCorruptedAddresses.toNat ∧
    (info.corruptedAddresses.get i).address = a.toUInt32
  bits : ∀ b, Faulty faults b ↔ ∃ i : Fin nbMaxRepairAddr, i < info.nrOfCorruptedAddresses.toNat ∧
    HasBit (info.corruptedAddresses.get i).faultyBits b
  clear : ∀ i : Fin nbMaxRepairAddr, info.nrOfCorruptedAddresses.toNat ≤ i →
    (info.corruptedAddresses.get i).faultyBits = 0
  known : ∀ i : Fin nbMaxRepairAddr, i < info.nrOfCorruptedAddresses.toNat →
    ∃ a : UInt16, (info.corruptedAddresses.get i).address = a.toUInt32

/-- There were too many addresses, and the count says so. -/
structure Full (faults : List Fault) (info : MemoryRepair) : Prop where
  count : nbMaxRepairAddr < info.nrOfCorruptedAddresses.toNat
  count_le : info.nrOfCorruptedAddresses.toNat ≤ faults.length
  many : nbMaxRepairAddr < (addresses faults).card

def Recorded (faults : List Fault) (info : MemoryRepair) : Prop := Held faults info ∨ Full faults info

section Record

theorem toUInt32_inj {a b : UInt16} : a.toUInt32 = b.toUInt32 ↔ a = b := by
  refine ⟨fun h => ?_, fun h => by rw [h]⟩
  apply UInt16.toNat_inj.mp
  rw [← UInt16.toNat_toUInt32, h, UInt16.toNat_toUInt32]

theorem hasBit_or {a b : UInt64} {i : Nat} : HasBit (a ||| b) i ↔ HasBit a i ∨ HasBit b i := by
  simp [HasBit]

theorem not_hasBit_zero (i : Nat) : ¬HasBit 0 i := by
  simp [HasBit]

theorem addresses_append (faults : List Fault) (f : Fault) :
    addresses (faults ++ [f]) = insert f.address (addresses faults) := by
  ext a
  simp [addresses]

theorem faulty_append {faults : List Fault} {f : Fault} {i : Nat} :
    Faulty (faults ++ [f]) i ↔ Faulty faults i ∨ HasBit f.faultyBits i := by
  simp [Faulty, or_and_right, exists_or]

variable {info : MemoryRepair} {faults : List Fault} {f : Fault}

/-- The record with the bits added to an entry. -/
def mark (info : MemoryRepair) (i : Fin nbMaxRepairAddr) (f : Fault) : Vector RepairAddress nbMaxRepairAddr :=
  info.corruptedAddresses.set i ⟨f.address.toUInt32, (info.corruptedAddresses.get i).faultyBits ||| f.faultyBits⟩
    i.isLt

theorem mark_get (i j : Fin nbMaxRepairAddr) :
    (mark info i f).get j =
      if i = j then ⟨f.address.toUInt32, (info.corruptedAddresses.get i).faultyBits ||| f.faultyBits⟩
      else info.corruptedAddresses.get j := by
  show (info.corruptedAddresses.set i _)[j.val] = _
  rw [Vector.getElem_set]
  simp only [Fin.val_inj]
  rfl

/-- A call finds the address in an entry, or there is none with it. -/
theorem add_cases (info : MemoryRepair) (f : Fault) :
    (∃ i : Fin nbMaxRepairAddr, i < info.nrOfCorruptedAddresses.toNat ∧
        (info.corruptedAddresses.get i).address = f.address.toUInt32 ∧
        addFaultyMemoryAddress info f.address f.faultyBits = ⟨mark info i f, info.nrOfCorruptedAddresses⟩) ∨
      (∀ i : Fin nbMaxRepairAddr, i < info.nrOfCorruptedAddresses.toNat →
        (info.corruptedAddresses.get i).address ≠ f.address.toUInt32) ∧
        addFaultyMemoryAddress info f.address f.faultyBits =
          ⟨if h : info.nrOfCorruptedAddresses.toNat < nbMaxRepairAddr then mark info ⟨_, h⟩ f
            else info.corruptedAddresses, info.nrOfCorruptedAddresses + 1⟩ := by
  cases hfind : (List.finRange nbMaxRepairAddr).find? fun i => decide (i.val < info.nrOfCorruptedAddresses.toNat) &&
      (info.corruptedAddresses.get i).address == f.address.toUInt32 with
  | some i =>
    have hi := List.find?_some hfind
    simp only [Bool.and_eq_true, decide_eq_true_eq, beq_iff_eq] at hi
    exact .inl ⟨i, hi.1, hi.2, by simp only [addFaultyMemoryAddress, hfind]; rfl⟩
  | none =>
    refine .inr ⟨fun i hlt haddress => ?_, by simp only [addFaultyMemoryAddress, hfind]; rfl⟩
    have hno := List.find?_eq_none.mp hfind i (List.mem_finRange i)
    simp only [Bool.and_eq_true, decide_eq_true_eq, beq_iff_eq, not_and] at hno
    exact hno hlt haddress

theorem held_zeroed : Held [] zeroed where
  count_le := Nat.zero_le _
  inj := fun i _ hi => absurd hi (Nat.not_lt_zero _)
  mem := fun a => ⟨fun h => absurd h (by simp [addresses]), fun ⟨i, hi, _⟩ => absurd hi (Nat.not_lt_zero _)⟩
  bits := fun b => ⟨fun h => absurd h (by simp [Faulty]), fun ⟨i, hi, _⟩ => absurd hi (Nat.not_lt_zero _)⟩
  clear := fun i _ => by
    show ((Vector.replicate nbMaxRepairAddr (⟨0, 0⟩ : RepairAddress))[i.val]).faultyBits = 0
    rw [Vector.getElem_replicate]
  known := fun i hi => absurd hi (Nat.not_lt_zero _)

/-- An address that is known gets more bits. -/
theorem Held.again (h : Held faults info) {i : Fin nbMaxRepairAddr} (hlt : i < info.nrOfCorruptedAddresses.toNat)
    (haddress : (info.corruptedAddresses.get i).address = f.address.toUInt32) :
    Held (faults ++ [f]) ⟨mark info i f, info.nrOfCorruptedAddresses⟩ := by
  have hsame : ∀ j, ((mark info i f).get j).address = (info.corruptedAddresses.get j).address := by
    intro j
    rw [mark_get]
    split
    · next hij => rw [← hij, haddress]
    · rfl
  have hmem : f.address ∈ addresses faults := (h.mem _).mpr ⟨i, hlt, haddress⟩
  refine ⟨h.count_le, ?_, ?_, ?_, ?_, ?_⟩
  · intro j k hj hk he
    rw [hsame, hsame] at he
    exact h.inj j k hj hk he
  · intro a
    rw [addresses_append, Finset.insert_eq_self.mpr hmem, h.mem]
    simp only [hsame]
  · intro b
    rw [faulty_append, h.bits]
    simp only [mark_get]
    constructor
    · rintro (⟨j, hj, hb⟩ | hb)
      · refine ⟨j, hj, ?_⟩
        split
        · next hij => exact hasBit_or.mpr (.inl (hij ▸ hb))
        · exact hb
      · exact ⟨i, hlt, by rw [if_pos rfl]; exact hasBit_or.mpr (.inr hb)⟩
    · rintro ⟨j, hj, hb⟩
      split at hb
      · exact (hasBit_or.mp hb).imp (fun hb => ⟨i, hlt, hb⟩) id
      · exact .inl ⟨j, hj, hb⟩
  · intro j hj
    have hne : i ≠ j := fun he => absurd hlt (Nat.not_lt.mpr (he ▸ hj))
    simp only [mark_get, if_neg hne]
    exact h.clear j hj
  · intro j hj
    simp only [hsame]
    exact h.known j hj

/-- A new address gets the next entry. -/
theorem Held.next (h : Held faults info) (hroom : info.nrOfCorruptedAddresses.toNat < nbMaxRepairAddr)
    (hnew : ∀ i : Fin nbMaxRepairAddr, i < info.nrOfCorruptedAddresses.toNat →
      (info.corruptedAddresses.get i).address ≠ f.address.toUInt32) :
    Held (faults ++ [f]) ⟨mark info ⟨_, hroom⟩ f, info.nrOfCorruptedAddresses + 1⟩ := by
  have hcount : (info.nrOfCorruptedAddresses + 1).toNat = info.nrOfCorruptedAddresses.toNat + 1 := by
    have hmax : nbMaxRepairAddr = 4 := rfl
    rw [UInt32.toNat_add]
    exact Nat.mod_eq_of_lt (by simp; omega)
  generalize hn : info.nrOfCorruptedAddresses.toNat = n at *
  have hclear : (info.corruptedAddresses.get ⟨n, hroom⟩).faultyBits = 0 := h.clear _ (Nat.le_of_eq hn)
  have hget : ∀ j : Fin nbMaxRepairAddr, j < n → (mark info ⟨n, hroom⟩ f).get j = info.corruptedAddresses.get j := by
    intro j hj
    rw [mark_get, if_neg]
    exact fun he => Nat.lt_irrefl n (by rw [← he] at hj; exact hj)
  have hlast : (mark info ⟨n, hroom⟩ f).get ⟨n, hroom⟩ = ⟨f.address.toUInt32, f.faultyBits⟩ := by
    rw [mark_get, if_pos rfl, hclear, UInt64.zero_or]
  have hsplit : ∀ {P : Fin nbMaxRepairAddr → Prop}, (∃ j : Fin nbMaxRepairAddr, j < n + 1 ∧ P j) ↔
      (∃ j : Fin nbMaxRepairAddr, j < n ∧ P j) ∨ P ⟨n, hroom⟩ := by
    intro P
    constructor
    · rintro ⟨j, hj, hP⟩
      rcases Nat.lt_or_eq_of_le (Nat.le_of_lt_succ hj) with hlt | rfl
      · exact .inl ⟨j, hlt, hP⟩
      · exact .inr hP
    · rintro (⟨j, hj, hP⟩ | hP)
      · exact ⟨j, Nat.lt_succ_of_lt hj, hP⟩
      · exact ⟨⟨n, hroom⟩, Nat.lt_succ_self n, hP⟩
  have hcases : ∀ j : Fin nbMaxRepairAddr, j < n + 1 → j < n ∨ j = ⟨n, hroom⟩ := fun j hj =>
    (Nat.lt_or_eq_of_le (Nat.le_of_lt_succ hj)).imp id fun he => Fin.ext he
  refine ⟨?_, ?_, ?_, ?_, ?_, ?_⟩ <;> simp only [hcount]
  · exact hroom
  · intro i j hi hj he
    rcases hcases i hi with hi | rfl <;> rcases hcases j hj with hj | rfl
    · rw [hget i hi, hget j hj] at he
      exact h.inj i j (hn ▸ hi) (hn ▸ hj) he
    · rw [hget i hi, hlast] at he
      exact absurd he (hnew i hi)
    · rw [hget j hj, hlast] at he
      exact absurd he.symm (hnew j hj)
    · rfl
  · intro a
    rw [addresses_append, Finset.mem_insert, h.mem, hn, hsplit, hlast, or_comm]
    refine or_congr (exists_congr fun j => and_congr_right fun hj => by rw [hget j hj]) ?_
    rw [toUInt32_inj, eq_comm]
  · intro b
    rw [faulty_append, h.bits, hn, hsplit, hlast]
    exact or_congr (exists_congr fun j => and_congr_right fun hj => by rw [hget j hj]) Iff.rfl
  · intro j hj
    have hne : (⟨n, hroom⟩ : Fin nbMaxRepairAddr) ≠ j := fun he => by
      rw [← he] at hj
      exact Nat.not_succ_le_self n hj
    rw [mark_get, if_neg hne]
    exact h.clear j (by rw [hn]; omega)
  · intro j hj
    rcases hcases j hj with hj | rfl
    · rw [hget j hj]
      exact h.known j (hn ▸ hj)
    · exact ⟨f.address, by rw [hlast]⟩

/-- The entries in use. -/
def used (info : MemoryRepair) : List RepairAddress :=
  info.corruptedAddresses.toList.take info.nrOfCorruptedAddresses.toNat

def usedAddresses (info : MemoryRepair) : List UInt16 := (used info).map fun e => e.address.toUInt16

theorem used_length (h : info.nrOfCorruptedAddresses.toNat ≤ nbMaxRepairAddr) :
    (used info).length = info.nrOfCorruptedAddresses.toNat := by
  rw [used, List.length_take, Vector.length_toList, Nat.min_eq_left h]

theorem used_getElem {k : Nat} (hk : k < (used info).length) :
    ∃ i : Fin nbMaxRepairAddr, i.val = k ∧ i < info.nrOfCorruptedAddresses.toNat ∧
      (used info)[k] = info.corruptedAddresses.get i := by
  have hlt := hk
  rw [used, List.length_take, Vector.length_toList, Nat.lt_min] at hlt
  refine ⟨⟨k, hlt.2⟩, rfl, hlt.1, ?_⟩
  simp only [used, List.getElem_take, Vector.getElem_toList]
  rfl

theorem mem_used {e : RepairAddress} :
    e ∈ used info ↔ ∃ i : Fin nbMaxRepairAddr, i < info.nrOfCorruptedAddresses.toNat ∧ info.corruptedAddresses.get i = e := by
  constructor
  · intro he
    obtain ⟨k, hk, rfl⟩ := List.mem_iff_getElem.mp he
    obtain ⟨i, -, hi, heq⟩ := used_getElem hk
    exact ⟨i, hi, heq.symm⟩
  · rintro ⟨i, hi, rfl⟩
    have hk : i.val < (used info).length := by
      rw [used, List.length_take, Vector.length_toList]
      exact Nat.lt_min.mpr ⟨hi, i.isLt⟩
    obtain ⟨j, hij, -, heq⟩ := used_getElem hk
    obtain rfl := Fin.ext hij
    rw [← heq]
    exact List.getElem_mem hk

theorem Held.address_eq (h : Held faults info) {e : RepairAddress} (he : e ∈ used info) :
    e.address = e.address.toUInt16.toUInt32 := by
  obtain ⟨i, hi, rfl⟩ := mem_used.mp he
  obtain ⟨a, ha⟩ := h.known i hi
  rw [ha, UInt16.toUInt16_toUInt32]

theorem Held.toFinset (h : Held faults info) : (usedAddresses info).toFinset = addresses faults := by
  ext a
  rw [List.mem_toFinset, usedAddresses, List.mem_map, h.mem]
  constructor
  · rintro ⟨e, he, rfl⟩
    obtain ⟨i, hi, rfl⟩ := mem_used.mp he
    exact ⟨i, hi, h.address_eq he⟩
  · rintro ⟨i, hi, ha⟩
    refine ⟨_, mem_used.mpr ⟨i, hi, rfl⟩, ?_⟩
    rw [ha, UInt16.toUInt16_toUInt32]

theorem Held.nodup (h : Held faults info) : (usedAddresses info).Nodup := by
  rw [usedAddresses, List.Nodup, List.pairwise_iff_getElem]
  intro j k hj hk hlt heq
  rw [List.length_map] at hj hk
  simp only [List.getElem_map] at heq
  have haddress : (used info)[j].address = (used info)[k].address := by
    rw [h.address_eq (List.getElem_mem hj), h.address_eq (List.getElem_mem hk), heq]
  obtain ⟨i, hi, hin, hget⟩ := used_getElem hj
  obtain ⟨i', hi', hin', hget'⟩ := used_getElem hk
  rw [hget, hget'] at haddress
  have hii := h.inj i i' hin hin' haddress
  rw [← hi, ← hi', hii] at hlt
  exact Nat.lt_irrefl _ hlt

/-- The entries in use are as many as there are addresses. -/
theorem Held.card (h : Held faults info) : (addresses faults).card = info.nrOfCorruptedAddresses.toNat := by
  rw [← h.toFinset, List.toFinset_card_of_nodup h.nodup, usedAddresses, List.length_map, used_length h.count_le]

/-- One call. -/
theorem Recorded.add (h : Recorded faults info) (hfew : faults.length + 1 < 2 ^ 32) :
    Recorded (faults ++ [f]) (addFaultyMemoryAddress info f.address f.faultyBits) := by
  have hmany : nbMaxRepairAddr < (addresses faults).card → nbMaxRepairAddr < (addresses (faults ++ [f])).card := by
    intro hmany
    rw [addresses_append]
    exact Nat.lt_of_lt_of_le hmany (Finset.card_le_card (Finset.subset_insert _ _))
  have hcount : info.nrOfCorruptedAddresses.toNat ≤ faults.length →
      (info.nrOfCorruptedAddresses + 1).toNat = info.nrOfCorruptedAddresses.toNat + 1 := by
    intro hle
    rw [UInt32.toNat_add]
    exact Nat.mod_eq_of_lt (by simp; omega)
  rcases add_cases info f with ⟨i, hlt, haddress, hadd⟩ | ⟨hnew, hadd⟩ <;> rw [hadd]
  · rcases h with h | h
    · exact .inl (h.again hlt haddress)
    · refine .inr ⟨h.count, ?_, hmany h.many⟩
      exact Nat.le_trans h.count_le (by simp)
  · rcases h with h | h
    · by_cases hroom : info.nrOfCorruptedAddresses.toNat < nbMaxRepairAddr
      · rw [dif_pos hroom]
        exact .inl (h.next hroom hnew)
      · have hfull : info.nrOfCorruptedAddresses.toNat = nbMaxRepairAddr :=
          Nat.le_antisymm h.count_le (Nat.le_of_not_lt hroom)
        have hle : info.nrOfCorruptedAddresses.toNat ≤ faults.length := by
          rw [← h.card]
          exact Nat.le_trans (List.toFinset_card_le _) (by simp)
        have hnot : f.address ∉ addresses faults := fun hmem => by
          obtain ⟨i, hi, he⟩ := (h.mem _).mp hmem
          exact hnew i hi he
        rw [dif_neg hroom]
        refine .inr ⟨?_, ?_, ?_⟩
        · show nbMaxRepairAddr < (info.nrOfCorruptedAddresses + 1).toNat
          rw [hcount hle]
          omega
        · show (info.nrOfCorruptedAddresses + 1).toNat ≤ (faults ++ [f]).length
          rw [hcount hle, List.length_append]
          exact Nat.succ_le_succ hle
        · rw [addresses_append, Finset.card_insert_of_notMem hnot, h.card]
          omega
    · have hcount := hcount h.count_le
      have hpos := h.count
      refine .inr ⟨?_, ?_, hmany h.many⟩
      · show nbMaxRepairAddr < (info.nrOfCorruptedAddresses + 1).toNat
        omega
      · show (info.nrOfCorruptedAddresses + 1).toNat ≤ (faults ++ [f]).length
        rw [hcount, List.length_append]
        exact Nat.succ_le_succ h.count_le

/-- The record after fewer than 2^32 calls. -/
theorem recorded (faults : List Fault) (hfew : faults.length < 2 ^ 32) : Recorded faults (record faults) := by
  induction faults using List.reverseRecOn with
  | nil => exact .inl held_zeroed
  | append_singleton faults f ih =>
    rw [List.length_append] at hfew
    have hrecord : record (faults ++ [f]) = addFaultyMemoryAddress (record faults) f.address f.faultyBits := by
      simp [record]
    rw [hrecord]
    exact (ih (Nat.lt_of_succ_lt hfew)).add hfew

end Record

/-! ## The addresses -/

def msbs (address : UInt32) : UInt8 := (address >>> 4).toUInt8

def lsbs (address : UInt32) : UInt8 := (address &&& 0xF).toUInt8

/-- The upper bits and the two addresses of a pair, as the configuration has them. -/
def encodePair (pair : List UInt32) : UInt8 × UInt8 × UInt8 :=
  match pair with
  | [] => (0xFF, 0xFF, 0xFF)
  | [a] => (msbs a, lsbs a, 0xFF)
  | a :: b :: _ => (msbs a, lsbs a, lsbs b)

def encode (p : FirstFit.Pairs UInt32) : MemoryRepairConfig :=
  let (abMsbs, aLsbs, bLsbs) := encodePair p.first
  let (cdMsbs, cLsbs, dLsbs) := encodePair p.second
  ⟨abMsbs, cdMsbs, aLsbs, bLsbs, cLsbs, dLsbs, 0xFF, 0xFF⟩

section Addresses

theorem lsbs_ne (address : UInt32) : lsbs address ≠ 0xFF := by
  intro h
  have hnat := congrArg UInt8.toNat h
  simp only [lsbs, UInt32.toNat_toUInt8, UInt32.toNat_and] at hnat
  have hle : address.toNat &&& (0xF : UInt32).toNat ≤ 15 := Nat.and_le_right
  have hff : (0xFF : UInt8).toNat = 255 := rfl
  omega

theorem addAddress_eq (config : MemoryRepairConfig) (x : UInt32) :
    config.addAddress x =
      if config.aLsbs = 0xFF then some { config with abMsbs := msbs x, aLsbs := lsbs x }
      else if config.bLsbs = 0xFF ∧ config.abMsbs = msbs x then some { config with bLsbs := lsbs x }
      else if config.cLsbs = 0xFF then some { config with cdMsbs := msbs x, cLsbs := lsbs x }
      else if config.dLsbs = 0xFF ∧ config.cdMsbs = msbs x then some { config with dLsbs := lsbs x }
      else none := rfl

/-- The code places an address by first fit. -/
theorem addAddress_encode (p : FirstFit.Pairs UInt32) (x : UInt32) :
    (encode p).addAddress x = (p.place msbs x).map encode := by
  obtain ⟨first, second⟩ := p
  have hlsbs := lsbs_ne
  rw [addAddress_eq]
  rcases first with _ | ⟨a, _ | ⟨b, _⟩⟩ <;> rcases second with _ | ⟨c, _ | ⟨d, _⟩⟩ <;>
  simp only [encode, encodePair, FirstFit.Pairs.place, FirstFit.add, hlsbs, if_true, if_false, true_and, false_and,
    Option.map_some, Option.map_none]
  -- where a pair has one address, the key decides
  case cons.nil.nil => by_cases ha : msbs a = msbs x <;> simp [encode, encodePair, ha]
  case cons.nil.cons.nil => by_cases ha : msbs a = msbs x <;> by_cases hc : msbs c = msbs x <;> simp [encode, encodePair, ha, hc]
  case cons.nil.cons.cons => by_cases ha : msbs a = msbs x <;> simp [encode, encodePair, ha]
  case cons.cons.cons.nil => by_cases hc : msbs c = msbs x <;> simp [encode, encodePair, hc]

theorem foldlM_addAddress (entries : List RepairAddress) (p : FirstFit.Pairs UInt32) :
    entries.foldlM (fun (config : MemoryRepairConfig) e => config.addAddress e.address) (encode p) =
      (FirstFit.fit msbs p (entries.map RepairAddress.address)).map encode := by
  induction entries generalizing p with
  | nil => rfl
  | cons e entries ih =>
    rw [List.foldlM_cons, addAddress_encode]
    cases hplace : p.place msbs e.address with
    | none => simp [FirstFit.fit, hplace]
    | some p' =>
      have hfit : FirstFit.fit msbs p ((e :: entries).map RepairAddress.address) =
          FirstFit.fit msbs p' (entries.map RepairAddress.address) := by
        simp [FirstFit.fit, hplace]
      rw [hfit]
      exact ih p'

theorem msbs_toNat {a : UInt16} (h : a.toNat < 2 ^ 12) : (msbs a.toUInt32).toNat = upperBits a := by
  simp only [msbs, upperBits, UInt32.toNat_toUInt8, UInt32.toNat_shiftRight, UInt16.toNat_toUInt32]
  show a.toNat >>> 4 % 2 ^ 8 = a.toNat / 16
  rw [Nat.shiftRight_eq_div_pow]
  omega

theorem lsbs_toNat (a : UInt16) : (lsbs a.toUInt32).toNat = lowerBits a := by
  simp only [lsbs, lowerBits, UInt32.toNat_toUInt8, UInt32.toNat_and, UInt16.toNat_toUInt32]
  have hand : a.toNat &&& (0xF : UInt32).toNat = a.toNat % 16 := Nat.and_two_pow_sub_one_eq_mod _ 4
  rw [hand]
  omega

theorem encodePair_covers {pair : List UInt32} (h : FirstFit.Holds msbs pair) {a : UInt32} (ha : a ∈ pair) :
    (encodePair pair).1 = msbs a ∧ ((encodePair pair).2.1 = lsbs a ∨ (encodePair pair).2.2 = lsbs a) := by
  have hkey := fun b hb => h.key_eq b hb a ha
  match pair, h.length with
  | [b], _ =>
    obtain rfl := List.mem_singleton.mp ha
    exact ⟨rfl, .inl rfl⟩
  | [b, c], _ =>
    refine ⟨hkey b (by simp), ?_⟩
    rcases List.mem_pair.mp ha with rfl | rfl
    · exact .inl rfl
    · exact .inr rfl

end Addresses

/-! ## The bits -/

def faultyIndexes (bits : UInt64) : List Nat := (List.range 64).filter fun i => bits.toBitVec.getLsbD i

/-- The indexes of the configuration, after the `switch`. -/
def indexes (config : MemoryRepairConfig) (bits : UInt64) : Option MemoryRepairConfig :=
  match faultyIndexes bits with
  | [] => some config
  | [i] => config.setFirstIndex i
  | [i, j] => (config.setLastIndex j).setFirstIndex i
  | _ => none

def AtMostOneEach (bits : UInt64) : Prop := ∀ i j, HasBit bits i → HasBit bits j → i % 2 = j % 2 → i = j

/-- The bit has a place in the configuration. -/
def Indexed (config : MemoryRepairConfig) (i : Nat) : Prop := i = config.oddIndex.toNat ∨ i = config.evenIndex.toNat

section Bits

theorem hasBit_lt {bits : UInt64} {i : Nat} (h : HasBit bits i) : i < 64 := by
  by_contra hno
  rw [HasBit, BitVec.getLsbD_of_ge _ _ (Nat.le_of_not_lt hno)] at h
  cases h

theorem mem_faultyIndexes {bits : UInt64} {i : Nat} : i ∈ faultyIndexes bits ↔ HasBit bits i := by
  rw [faultyIndexes, List.mem_filter, List.mem_range]
  exact ⟨fun h => h.2, fun h => ⟨hasBit_lt h, h⟩⟩

theorem faultyIndexes_nodup (bits : UInt64) : (faultyIndexes bits).Nodup := List.nodup_range.filter _

theorem ofNat_toNat {i : Nat} (h : i < 64) : (UInt8.ofNat i).toNat = i := by
  rw [UInt8.toNat_ofNat']
  omega

theorem ofNat_ne {i : Nat} (h : i < 64) : UInt8.ofNat i ≠ 0xFF := by
  intro he
  have hnat : (UInt8.ofNat i).toNat = 255 := congrArg UInt8.toNat he
  rw [ofNat_toNat h] at hnat
  omega

variable (config : MemoryRepairConfig) (bits : UInt64) (hodd : config.oddIndex = 0xFF) (heven : config.evenIndex = 0xFF)

include hodd heven

/-- One index takes the place of its parity. -/
theorem setFirstIndex_one (i : Nat) :
    config.setFirstIndex i =
      some (if i % 2 = 1 then { config with oddIndex := UInt8.ofNat i } else { config with evenIndex := UInt8.ofNat i }) := by
  simp only [MemoryRepairConfig.setFirstIndex, hodd, heven, ne_eq, not_true_eq_false, if_false]
  split <;> rfl

omit hodd heven in
/-- The place of the second index is taken. -/
theorem setFirstIndex_taken {i j : Nat} (hj : j < 64) (hparity : i % 2 = j % 2) :
    (config.setLastIndex j).setFirstIndex i = none := by
  simp only [MemoryRepairConfig.setFirstIndex, MemoryRepairConfig.setLastIndex, hparity]
  by_cases hp : j % 2 = 1 <;> simp [hp, ofNat_ne hj]

/-- Two indexes take a place each. -/
theorem setFirstIndex_two {i j : Nat} (hparity : i % 2 ≠ j % 2) :
    (config.setLastIndex j).setFirstIndex i =
      some (if i % 2 = 1 then { config with oddIndex := UInt8.ofNat i, evenIndex := UInt8.ofNat j }
        else { config with oddIndex := UInt8.ofNat j, evenIndex := UInt8.ofNat i }) := by
  simp only [MemoryRepairConfig.setFirstIndex, MemoryRepairConfig.setLastIndex]
  by_cases hp : i % 2 = 1
  · have hpj : ¬j % 2 = 1 := by omega
    simp [hp, hpj, hodd]
  · have hpj : j % 2 = 1 := by omega
    simp [hpj, hp, heven]

/-- The switch succeeds if no two bits have the same parity, and then each has a place. -/
theorem indexes_spec :
    ((indexes config bits).isSome = true ↔ AtMostOneEach bits) ∧
      ∀ c, indexes config bits = some c → c = { config with oddIndex := c.oddIndex, evenIndex := c.evenIndex } ∧
        ∀ i, HasBit bits i → Indexed c i := by
  have hnodup := faultyIndexes_nodup bits
  have hlt : ∀ i ∈ faultyIndexes bits, i < 64 := fun i hi => hasBit_lt (mem_faultyIndexes.mp hi)
  unfold AtMostOneEach indexes
  simp only [← mem_faultyIndexes]
  match faultyIndexes bits, hnodup, hlt with
  | [], _, _ =>
    refine ⟨⟨fun _ i _ hi => absurd hi List.not_mem_nil, fun _ => rfl⟩, fun c hc => ?_⟩
    obtain rfl := Option.some.inj hc
    exact ⟨rfl, fun i hi => absurd hi List.not_mem_nil⟩
  | [i], _, hlt =>
    have hi := hlt i (by simp)
    simp only [setFirstIndex_one config hodd heven, Option.isSome_some, Option.some.injEq, List.mem_singleton, true_iff]
    refine ⟨fun a b ha hb _ => ha.trans hb.symm, ?_⟩
    rintro c rfl
    split
    · refine ⟨rfl, ?_⟩
      rintro _ rfl
      exact .inl (ofNat_toNat hi).symm
    · refine ⟨rfl, ?_⟩
      rintro _ rfl
      exact .inr (ofNat_toNat hi).symm
  | [i, j], hnodup, hlt =>
    have hi := hlt i (by simp)
    have hj := hlt j (by simp)
    have hne : i ≠ j := by simpa using hnodup
    by_cases hparity : i % 2 = j % 2
    · simp only [setFirstIndex_taken config hj hparity]
      refine ⟨⟨fun h => absurd h nofun, fun h => ?_⟩, fun c hc => absurd hc nofun⟩
      exact absurd (h i j (by simp) (by simp) hparity) hne
    · simp only [setFirstIndex_two config hodd heven hparity, Option.isSome_some, Option.some.injEq, true_iff]
      constructor
      · intro a b ha hb hab
        rcases List.mem_pair.mp ha with rfl | rfl <;> rcases List.mem_pair.mp hb with rfl | rfl <;> omega
      · rintro c rfl
        split
        · refine ⟨rfl, fun a ha => ?_⟩
          rcases List.mem_pair.mp ha with rfl | rfl
          · exact .inl (ofNat_toNat hi).symm
          · exact .inr (ofNat_toNat hj).symm
        · refine ⟨rfl, fun a ha => ?_⟩
          rcases List.mem_pair.mp ha with rfl | rfl
          · exact .inr (ofNat_toNat hi).symm
          · exact .inl (ofNat_toNat hj).symm
  | i :: j :: k :: rest, hnodup, _ =>
    refine ⟨⟨fun h => absurd h nofun, fun h => ?_⟩, fun c hc => absurd hc nofun⟩
    -- of three indexes two have the same parity
    have hij := h i j (by simp) (by simp)
    have hik := h i k (by simp) (by simp)
    have hjk := h j k (by simp) (by simp)
    simp only [List.nodup_cons, List.mem_cons, not_or] at hnodup
    omega

end Bits

/-! ## The plan -/

section Plan

variable {info : MemoryRepair} {faults : List Fault}

def unionBits (entries : List RepairAddress) : UInt64 := entries.foldl (fun bits a => bits ||| a.faultyBits) 0

theorem hasBit_unionBits {entries : List RepairAddress} {i : Nat} :
    HasBit (unionBits entries) i ↔ ∃ e ∈ entries, HasBit e.faultyBits i := by
  have hfold : ∀ bits, HasBit (entries.foldl (fun bits a => bits ||| a.faultyBits) bits) i ↔
      HasBit bits i ∨ ∃ e ∈ entries, HasBit e.faultyBits i := by
    induction entries with
    | nil => simp
    | cons e entries ih =>
      intro bits
      rw [List.foldl_cons, ih, hasBit_or, or_assoc]
      simp
  rw [unionBits, hfold, or_iff_right (not_hasBit_zero i)]

theorem extract_eq (h : info.nrOfCorruptedAddresses.toNat ≤ nbMaxRepairAddr) :
    extractMemoryRepairConfiguration info =
      ((FirstFit.fit msbs ⟨[], []⟩ ((used info).map RepairAddress.address)).bind fun p =>
        (indexes (encode p) (unionBits (used info))).map MemoryRepairConfig.withDefaults) := by
  have hfold := foldlM_addAddress (used info) ⟨[], []⟩
  have hunset : MemoryRepairConfig.unset = encode ⟨[], []⟩ := rfl
  have hcount : ∀ bits, countNrOfFaultyBits bits = (faultyIndexes bits).length := fun _ => List.countP_eq_length_filter
  have hfirst : ∀ bits, findIndexOfFirstFaultyBit bits = (faultyIndexes bits).head?.getD 0 := by
    intro bits
    rw [faultyIndexes, List.head?_filter]
    rfl
  have hlast : ∀ bits, findIndexOfLastFaultyBit bits = (faultyIndexes bits).getLast?.getD 0 := by
    intro bits
    rw [faultyIndexes, ← List.head?_reverse, ← List.filter_reverse, List.head?_filter]
    rfl
  rw [extractMemoryRepairConfiguration, if_neg (Nat.not_lt.mpr h)]
  refine Eq.trans (b := ((used info).foldlM (fun (config : MemoryRepairConfig) a => config.addAddress a.address)
    .unset).bind fun config => (indexes config (unionBits (used info))).map MemoryRepairConfig.withDefaults) ?_ ?_
  · refine congrArg (Option.bind _) (funext fun config => congrArg (Option.map _) ?_)
    -- the switch over the number of faulty bits, as the list of their indexes
    rw [hcount, hfirst, hlast, indexes, unionBits, used]
    rcases faultyIndexes _ with _ | ⟨i, _ | ⟨j, _ | ⟨k, rest⟩⟩⟩
    · rfl
    · rfl
    · rfl
    · rfl
  · rw [hunset, hfold, Option.bind_map]
    rfl

/-- The addresses as the code compares them. -/
theorem Held.map_address (h : Held faults info) :
    (used info).map RepairAddress.address = (usedAddresses info).map UInt16.toUInt32 := by
  rw [usedAddresses, List.map_map]
  exact List.map_congr_left fun e he => h.address_eq he

theorem address_lt {a : UInt16} (ha : a ∈ addresses faults) : a.toNat < 2 ^ 12 := by
  rw [addresses, List.mem_toFinset, List.mem_map] at ha
  obtain ⟨f, -, rfl⟩ := ha
  exact f.address_lt

theorem Held.fit_iff (h : Held faults info) :
    (FirstFit.fit msbs ⟨[], []⟩ ((used info).map RepairAddress.address)).isSome = true ↔
      FirstFit.Divisible upperBits (addresses faults) := by
  have hinj : Function.Injective UInt16.toUInt32 := fun _ _ he => toUInt32_inj.mp he
  have hset : ((usedAddresses info).map UInt16.toUInt32).toFinset = (addresses faults).image UInt16.toUInt32 := by
    rw [← h.toFinset]
    ext a
    simp
  rw [h.map_address, FirstFit.fit_isSome_iff (h.nodup.map hinj), hset]
  refine FirstFit.divisible_image hinj fun a ha b hb => ?_
  rw [← UInt8.toNat_inj, msbs_toNat (address_lt ha), msbs_toNat (address_lt hb)]

theorem Held.bits_iff (h : Held faults info) (i : Nat) : HasBit (unionBits (used info)) i ↔ Faulty faults i := by
  rw [hasBit_unionBits, h.bits]
  constructor
  · rintro ⟨e, he, hbit⟩
    obtain ⟨j, hj, rfl⟩ := mem_used.mp he
    exact ⟨j, hj, hbit⟩
  · rintro ⟨j, hj, hbit⟩
    exact ⟨_, mem_used.mpr ⟨j, hj, rfl⟩, hbit⟩

theorem Held.succeeds_iff (h : Held faults info) :
    (extractMemoryRepairConfiguration info).isSome = true ↔ Repairable faults := by
  have hfit := h.fit_iff
  have hparity : AtMostOneEach (unionBits (used info)) ↔
      ∀ i j, Faulty faults i → Faulty faults j → i % 2 = j % 2 → i = j := by
    simp only [AtMostOneEach, h.bits_iff]
  have hfew : (addresses faults).card ≤ nbMaxRepairAddr := Nat.le_trans (Nat.le_of_eq h.card) h.count_le
  rw [extract_eq h.count_le]
  cases hp : FirstFit.fit msbs ⟨[], []⟩ ((used info).map RepairAddress.address) with
  | none =>
    rw [hp] at hfit
    exact ⟨fun hsome => absurd hsome nofun, fun hr => absurd (hfit.mpr hr.divisible) nofun⟩
  | some p =>
    rw [hp] at hfit
    have hspec := (indexes_spec (encode p) (unionBits (used info)) rfl rfl).1
    rw [Option.bind_some, Option.isSome_map, hspec, hparity]
    exact ⟨fun hpar => ⟨hfew, hfit.mp rfl, hpar⟩, fun hr => hr.parity⟩

/-- The defaults are for what has no value. -/
theorem withDefaults_covers {config : MemoryRepairConfig} {f : Fault} (h : Covers config f) :
    Covers config.withDefaults f := by
  have hsame : ∀ {v d : UInt8} {n : Nat}, n < 255 → v.toNat = n → (if v = 0xFF then d else v).toNat = n := by
    intro v d n hn hv
    rw [if_neg]
    · exact hv
    · rintro rfl
      exact absurd hv (by show ¬255 = n; omega)
  have hlower : lowerBits f.address < 255 := by
    unfold lowerBits
    omega
  obtain ⟨haddress, hbits⟩ := h
  refine ⟨?_, fun i hi => ?_⟩
  · exact haddress.imp (And.imp_right (Or.imp (hsame hlower) (hsame hlower)))
      (And.imp_right (Or.imp (hsame hlower) (hsame hlower)))
  · have hlt := hasBit_lt hi
    exact (hbits i hi).imp (fun he => (hsame (by omega) he.symm).symm) (fun he => (hsame (by omega) he.symm).symm)

theorem Held.covers (h : Held faults info) {config : MemoryRepairConfig}
    (hconfig : extractMemoryRepairConfiguration info = some config) {f : Fault} (hf : f ∈ faults) : Covers config f := by
  rw [extract_eq h.count_le] at hconfig
  obtain ⟨p, hp, hconfig⟩ := Option.bind_eq_some_iff.mp hconfig
  obtain ⟨c, hc, rfl⟩ := Option.map_eq_some_iff.mp hconfig
  obtain ⟨hsame, hindexed⟩ := (indexes_spec (encode p) (unionBits (used info)) rfl rfl).2 c hc
  have hplaced := FirstFit.placed_of_fit FirstFit.placed_nil hp
  have hmem : f.address.toUInt32 ∈ p.first ++ p.second := by
    rw [hplaced.perm.mem_iff, List.nil_append, h.map_address]
    refine List.mem_map_of_mem ?_
    rw [← List.mem_toFinset, h.toFinset, addresses, List.mem_toFinset]
    exact List.mem_map_of_mem hf
  refine withDefaults_covers ⟨?_, fun i hi => hindexed i ((h.bits_iff i).mpr ⟨f, hf, hi⟩)⟩
  rw [hsame, ← msbs_toNat f.address_lt, ← lsbs_toNat]
  simp only [UInt8.toNat_inj]
  rcases List.mem_append.mp hmem with hmem | hmem
  · exact .inl (encodePair_covers hplaced.first hmem)
  · exact .inr (encodePair_covers hplaced.second hmem)

theorem Full.fails (h : Full faults info) : extractMemoryRepairConfiguration info = none ∧ ¬Repairable faults :=
  ⟨if_pos h.count, fun hr => absurd hr.few (Nat.not_le.mpr h.many)⟩

theorem succeeds_iff (hfew : faults.length < 2 ^ 32) :
    (extractMemoryRepairConfiguration (record faults)).isSome = true ↔ Repairable faults := by
  rcases recorded faults hfew with h | h
  · exact h.succeeds_iff
  · rw [h.fails.1]
    exact ⟨fun hsome => absurd hsome nofun, fun hr => absurd hr h.fails.2⟩

/-- Whether there is a plan does not depend on the order. -/
theorem Repairable.perm {faults' : List Fault} (h : Repairable faults) (hperm : faults'.Perm faults) : Repairable faults' := by
  have haddresses : addresses faults' = addresses faults := List.toFinset_eq_of_perm _ _ (hperm.map _)
  have hfaulty : ∀ i, Faulty faults' i → Faulty faults i := fun i ⟨f, hf, hi⟩ => ⟨f, hperm.mem_iff.mp hf, hi⟩
  refine ⟨?_, ?_, fun i j hi hj => h.parity i j (hfaulty i hi) (hfaulty j hj)⟩
  · rw [haddresses]
    exact h.few
  · rw [haddresses]
    exact h.divisible

/-- After fewer than 2^32 calls the plan is the right one. -/
theorem plan_right (faults : List Fault) (hfew : faults.length < 2 ^ 32) : PlanRight faults where
  succeeds_iff := succeeds_iff hfew
  covers config hconfig f hf := by
    rcases recorded faults hfew with h | h
    · exact h.covers hconfig hf
    · rw [h.fails.1] at hconfig
      exact absurd hconfig nofun
  order faults' hperm := by
    have hfew' : faults'.length < 2 ^ 32 := by
      rw [hperm.length_eq]
      exact hfew
    rw [Bool.eq_iff_iff, succeeds_iff hfew, succeeds_iff hfew']
    exact ⟨fun h => h.perm hperm.symm, fun h => h.perm hperm⟩

/-- One fault, of two bits. -/
def oneFault : List Fault := [⟨0x123, 0x6, by decide⟩]

theorem plan_right_oneFault : oneFault.length < 2 ^ 32 ∧ PlanRight oneFault := ⟨by decide, plan_right oneFault (by decide)⟩

/-! ## The count -/

/-- Past the four entries a call only counts. -/
theorem record_replicate {faults : List Fault} {f : Fault} (n : Nat)
    (hnew : ∀ i, ((record faults).corruptedAddresses.get i).address ≠ f.address.toUInt32)
    (hfull : nbMaxRepairAddr ≤ (record faults).nrOfCorruptedAddresses.toNat)
    (hn : (record faults).nrOfCorruptedAddresses.toNat + n ≤ 2 ^ 32) :
    record (faults ++ List.replicate n f) =
      ⟨(record faults).corruptedAddresses, UInt32.ofNat ((record faults).nrOfCorruptedAddresses.toNat + n)⟩ := by
  induction n with
  | zero => simp
  | succ n ih =>
    have hrecord : record (faults ++ List.replicate (n + 1) f) =
        addFaultyMemoryAddress (record (faults ++ List.replicate n f)) f.address f.faultyBits := by
      rw [List.replicate_succ', ← List.append_assoc]
      simp only [record, List.foldl_append, List.foldl_cons, List.foldl_nil]
    rw [hrecord, ih (by omega)]
    rcases add_cases ⟨(record faults).corruptedAddresses,
      UInt32.ofNat ((record faults).nrOfCorruptedAddresses.toNat + n)⟩ f with ⟨i, -, haddress, -⟩ | ⟨-, hadd⟩
    · exact absurd haddress (hnew i)
    · have hcount : (UInt32.ofNat ((record faults).nrOfCorruptedAddresses.toNat + n)).toNat =
          (record faults).nrOfCorruptedAddresses.toNat + n := by
        rw [UInt32.toNat_ofNat']
        omega
      rw [hadd, dif_neg (by show ¬(UInt32.ofNat _).toNat < nbMaxRepairAddr; omega)]
      congr 1
      apply UInt32.toNat_inj.mp
      simp only [UInt32.toNat_add, UInt32.toNat_ofNat']
      show (_ + 1 % 2 ^ 32) % 2 ^ 32 = _
      omega

/-- Four addresses. -/
def fourFaults : List Fault := [⟨0, 1, by decide⟩, ⟨1, 1, by decide⟩, ⟨2, 1, by decide⟩, ⟨3, 1, by decide⟩]

/-- A fifth, again and again. -/
def tooManyFaults : List Fault := fourFaults ++ List.replicate (2 ^ 32 - 4) ⟨4, 1, by decide⟩

/-- After 2^32 calls the count is zero, and the plan is made for a memory without faults. -/
theorem wrapped_count : ¬PlanRight tooManyFaults := by
  intro h
  have hnew : ∀ i, ((record fourFaults).corruptedAddresses.get i).address ≠ (4 : UInt16).toUInt32 := by decide +kernel
  have hfour : (record fourFaults).nrOfCorruptedAddresses.toNat = nbMaxRepairAddr := by decide +kernel
  have hrecord := record_replicate (f := ⟨4, 1, by decide⟩) (2 ^ 32 - 4) hnew (Nat.le_of_eq hfour.symm)
    (by rw [hfour]; decide)
  have hsome : (extractMemoryRepairConfiguration (record tooManyFaults)).isSome = true := by
    rw [tooManyFaults, hrecord, hfour]
    rfl
  have hfew := (h.succeeds_iff.mp hsome).few
  have hsub : ([0, 1, 2, 3, 4] : List UInt16).toFinset ⊆ addresses tooManyFaults := by
    intro a ha
    rw [addresses, List.mem_toFinset, tooManyFaults, List.map_append, List.mem_append, List.map_replicate,
      List.mem_replicate]
    simp only [List.toFinset_cons, List.toFinset_nil, Finset.mem_insert, Finset.notMem_empty, or_false] at ha
    rcases ha with rfl | rfl | rfl | rfl | rfl <;> simp [fourFaults]
  exact absurd (Nat.le_trans (Finset.card_le_card hsub) hfew) (by decide)

end Plan

end DpuBackend.Ufi.RepairPlan
