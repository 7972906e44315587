import DpuBackend.Vpd.ImageRoundTrip

/-
  The repairs of a rank, taken from the VPD file of its DIMM.

  C ↔ Lean (src/hw/src/rank/hw_dpu_rank.c, src/commons/include/dpu_rank.h):
    struct dpu_memory_repair_t, dpu_t::repair         ↔ MemoryRepair, DpuRepair
    add_faulty_memory_address                         ↔ addFaultyMemoryAddress
    DPU_INDEX                                         ↔ Topology.dpuIndex
    fill_sram_repairs_and_update_enabled_dpus         ↔ fillSramRepairsAndUpdateEnabledDpus

  An access of the rank outside `repair_entries`, `ranks`, its DPUs or the WRAM
  banks of a DPU ends a run (`none`); what the reader stores behind
  `repair_entries` is in the memory that it returns. The reader checks neither
  the number of entries in the file nor the count in the header, and the rank
  checks none of the indexes; `ImageFits` says which files it can take.
-/

namespace DpuBackend.Vpd

open DpuBackend.Lib

def dpuMaxNrCis : Nat := 8

def nbMaxRepairAddr : Nat := 4

def nrOfWramBanks : Nat := 4

def dpuInvalidRankIndex : UInt8 := 255

/-- How the function fails. -/
inductive RepairError where
  | system
  | vpdInvalidFile
  | vpdNoRepair
  deriving DecidableEq

structure RepairAddress where
  address : UInt32
  faultyBits : UInt64

structure MemoryRepair where
  corruptedAddresses : Vector RepairAddress nbMaxRepairAddr
  nrOfCorruptedAddresses : UInt32

structure DpuRepair where
  iramRepair : MemoryRepair
  wramRepair : Vector MemoryRepair nrOfWramBanks

structure Topology where
  nrCis : UInt8
  nrDpus : UInt8
  nrCis_le : nrCis.toNat ≤ dpuMaxNrCis

/-- The enabled DPUs of a control interface. -/
structure EnabledDpus where
  enabledDpus : UInt32
  allDpusAreEnabled : Bool

/-- What the repairs change of a rank, and the properties of its profile. -/
structure RepairedRank (t : Topology) where
  dpus : Vector DpuRepair (t.nrCis.toNat * t.nrDpus.toNat)
  sliceInfo : Vector EnabledDpus dpuMaxNrCis
  doIramRepair : Bool
  doWramRepair : Bool

def Topology.dpuIndex (t : Topology) (ci dpu : UInt8) : Nat := t.nrDpus.toNat * ci.toNat + dpu.toNat

/-! ## The repairs of a DPU -/

def addFaultyMemoryAddress (info : MemoryRepair) (address : UInt16) (faultyBits : UInt64) : MemoryRepair :=
  let previous := info.nrOfCorruptedAddresses
  let known := (List.finRange nbMaxRepairAddr).find? fun i =>
    i.val < previous.toNat && (info.corruptedAddresses.get i).address == address.toUInt32
  let mark (i : Fin nbMaxRepairAddr) : Vector RepairAddress nbMaxRepairAddr :=
    info.corruptedAddresses.set i ⟨address.toUInt32, (info.corruptedAddresses.get i).faultyBits ||| faultyBits⟩
  match known with
  | some i => ⟨mark i, previous⟩
  | none =>
    ⟨if h : previous.toNat < nbMaxRepairAddr then mark ⟨_, h⟩ else info.corruptedAddresses, previous + 1⟩

/-- The repair of one entry; `none` if there is no such bank. -/
def DpuRepair.add (dpu : DpuRepair) (entry : RepairEntry) : Option DpuRepair :=
  if entry.iramWram = 0 then
    some { dpu with iramRepair := addFaultyMemoryAddress dpu.iramRepair entry.address entry.bits }
  else if h : entry.bank.toNat < nrOfWramBanks then
    some { dpu with
      wramRepair := dpu.wramRepair.set entry.bank.toNat
        (addFaultyMemoryAddress (dpu.wramRepair.get ⟨_, h⟩) entry.address entry.bits) h }
  else none

/-! ## The repairs of a rank -/

variable {t : Topology}

/-- One entry, which may be one of another rank: the repair, and the bit in `disabled_mask`. -/
def applyEntry (rankIndex : UInt8) (entry : RepairEntry) (rank : RepairedRank t) (disabledMask : UInt64) :
    Option (RepairedRank t × UInt64) :=
  if entry.rank ≠ rankIndex then some (rank, disabledMask)
  else if h : t.dpuIndex entry.ci entry.dpu < t.nrCis.toNat * t.nrDpus.toNat then
    ((rank.dpus.get ⟨_, h⟩).add entry).map fun dpu =>
      ({ rank with dpus := rank.dpus.set (t.dpuIndex entry.ci entry.dpu) dpu h },
        disabledMask ||| 1 <<< UInt64.ofNat ((entry.ci.toNat * t.nrDpus.toNat + entry.dpu.toNat) % 64))
  else none

/-- An entry of the array. -/
def DpuVpd.entryAt (vpd : DpuVpd) (i : Nat) : Option RepairEntry := if i < nbMaxRepair then some (vpd.entries i) else none

/-- The loop over the entries, for `left` more from `i` on. -/
def applyEntries (vpd : DpuVpd) (rankIndex : UInt8) :
    Nat → Nat → RepairedRank t → UInt64 → Option (RepairedRank t × UInt64)
  | 0, _, rank, disabledMask => some (rank, disabledMask)
  | left + 1, i, rank, disabledMask =>
    (vpd.entryAt i).bind fun entry =>
      (applyEntry rankIndex entry rank disabledMask).bind fun (rank, disabledMask) =>
        applyEntries vpd rankIndex left (i + 1) rank disabledMask

def dpuMaskAll (nrDpus : UInt8) : UInt8 := UInt8.ofNat (2 ^ (nrDpus.toNat % 64) - 1)

def dpuMaskDifference (mask1 mask2 : UInt8) : UInt8 := mask1 &&& ~~~mask2

/-- The loop over the control interfaces. -/
def updateEnabledDpus (rank : RepairedRank t) (disabledMask : UInt64) : RepairedRank t :=
  { rank with
    sliceInfo := Vector.ofFn fun ci =>
      let info := rank.sliceInfo.get ci
      if ci.val < t.nrCis.toNat then
        let disabledMaskForCi := (disabledMask >>> UInt64.ofNat (t.nrDpus.toNat * ci % 64) &&& 0xFF).toUInt8
        let enabledDpus := info.enabledDpus &&& (dpuMaskDifference (dpuMaskAll t.nrDpus) disabledMaskForCi).toUInt32
        { enabledDpus := enabledDpus
          allDpusAreEnabled := enabledDpus.toUInt8 &&& dpuMaskAll t.nrDpus = dpuMaskAll t.nrDpus }
      else info }

/-- The rank's index and whether the path of the file is found are given; `mem` is what the structure on the
stack holds before. -/
def fillSramRepairsAndUpdateEnabledDpus (rankIndex : UInt8) (pathFound : Bool) (file : List UInt8) (mem : DpuVpd)
    (rank : RepairedRank t) : Option (Except RepairError (RepairedRank t)) :=
  if rankIndex = dpuInvalidRankIndex then some (.error .system)
  else if !pathFound then some (.error .system)
  else
    match dpuVpdInit file mem with
    | .error _ => some (.error .vpdInvalidFile)
    | .ok (_, vpd) =>
      if vpd.header.repairCount = vpdUndefinedRepairCount then some (.error .vpdNoRepair)
      else
        -- `repair_cnt` counts the rounds, so that it is always the count of the header in the end
        let count := if rank.doIramRepair || rank.doWramRepair then vpd.header.repairCount.toNat else 0
        (applyEntries vpd rankIndex count 0 rank 0).bind fun (rank, disabledMask) =>
          (vpd.header.ranks[rankIndex.toNat]?).map fun data =>
            .ok (updateEnabledDpus rank (disabledMask ||| data.dpuDisabled))

/-! ## Runs without an access outside -/

/-- An entry of this rank has a DPU and a bank that exist. -/
def RepairEntry.Fits (entry : RepairEntry) (t : Topology) (rankIndex : UInt8) : Prop :=
  entry.rank = rankIndex → t.dpuIndex entry.ci entry.dpu < t.nrCis.toNat * t.nrDpus.toNat ∧
    (entry.iramWram ≠ 0 → entry.bank.toNat < nrOfWramBanks)

theorem add_isSome (dpu : DpuRepair) (entry : RepairEntry) :
    (dpu.add entry).isSome ↔ (entry.iramWram ≠ 0 → entry.bank.toNat < nrOfWramBanks) := by
  unfold DpuRepair.add
  split
  · next h => exact iff_of_true rfl fun hne => absurd h hne
  · next h =>
    split
    · next hbank => exact iff_of_true rfl fun _ => hbank
    · next hbank => exact iff_of_false nofun fun hall => hbank (hall h)

theorem applyEntry_isSome (rankIndex : UInt8) (entry : RepairEntry) (rank : RepairedRank t) (disabledMask : UInt64) :
    (applyEntry rankIndex entry rank disabledMask).isSome ↔ entry.Fits t rankIndex := by
  unfold applyEntry
  split
  · next hother => exact iff_of_true rfl fun heq => absurd heq hother
  · next hthis =>
    have hthis := not_not.1 hthis
    split
    · next hdpu =>
      rw [Option.isSome_map, add_isSome]
      exact ⟨fun hbank _ => ⟨hdpu, hbank⟩, fun hfits => (hfits hthis).2⟩
    · next hdpu => exact iff_of_false nofun fun hfits => hdpu (hfits hthis).1

/-- The loop goes to its end exactly if all entries are in the array and fit. -/
theorem applyEntries_isSome (vpd : DpuVpd) (rankIndex : UInt8) (left i : Nat) (rank : RepairedRank t)
    (disabledMask : UInt64) :
    (applyEntries vpd rankIndex left i rank disabledMask).isSome ↔
      ∀ j, i ≤ j → j < i + left → j < nbMaxRepair ∧ (vpd.entries j).Fits t rankIndex := by
  induction left generalizing i rank disabledMask with
  | zero => exact iff_of_true rfl fun j hlow hhigh => by omega
  | succ left ih =>
    rw [applyEntries, DpuVpd.entryAt]
    by_cases hin : i < nbMaxRepair
    · rw [if_pos hin, Option.bind_some]
      have hentry := applyEntry_isSome rankIndex (vpd.entries i) rank disabledMask
      cases hrun : applyEntry rankIndex (vpd.entries i) rank disabledMask with
      | none =>
        rw [hrun] at hentry
        exact iff_of_false nofun fun hall => nomatch hentry.2 (hall i (Nat.le_refl i) (by omega)).2
      | some next =>
        rw [hrun] at hentry
        obtain ⟨rank', disabledMask'⟩ := next
        rw [Option.bind_some, ih]
        constructor
        · intro hrest j hlow hhigh
          by_cases hthis : j = i
          · rw [hthis]
            exact ⟨hin, hentry.1 rfl⟩
          · exact hrest j (by omega) (by omega)
        · exact fun hall j hlow hhigh => hall j (by omega) (by omega)
    · rw [if_neg hin]
      exact iff_of_false nofun fun hall => hin (hall i (Nat.le_refl i) (by omega)).1

/-! ## Which files the rank can take -/

/-- The number of entries in a file. -/
def entriesIn (file : List UInt8) : Nat := (file.length - Header.layout.size) / RepairEntry.layout.size

/-- The entry with a number in a file. -/
def fileEntry (file : List UInt8) (i : Nat) : RepairEntry :=
  RepairEntry.layout.decode (file.drop (Header.layout.size + RepairEntry.layout.size * i))

/-- If the reader accepts the file and the count of its header is defined, the entries are in the array and the
memory behind it is as before, those that count come from the file, and the rank accesses nothing outside. -/
def ValidatesImage (file : List UInt8) (rankIndex : UInt8) (pathFound : Bool) (rank : RepairedRank t) : Prop :=
  ∀ mem stored vpd, dpuVpdInit file mem = .ok (stored, vpd) → vpd.header.repairCount ≠ vpdUndefinedRepairCount →
    stored ≤ nbMaxRepair ∧ (∀ i, nbMaxRepair ≤ i → vpd.entries i = mem.entries i) ∧
      vpd.header.repairCount.toNat ≤ nbMaxRepair ∧
      (∀ i < vpd.header.repairCount.toNat, i < stored ∧ vpd.entries i = fileEntry file i) ∧
      (fillSramRepairsAndUpdateEnabledDpus rankIndex pathFound file mem rank).isSome

/-- The file is refused or has no count, or it is not longer than a header and the array, has as many entries as
its header says, and those of this rank fit. -/
def ImageFits (file : List UInt8) (rankIndex : UInt8) (pathFound : Bool) (rank : RepairedRank t) : Prop :=
  Header.layout.size ≤ file.length → (Header.layout.decode file).structId = vpdStructId →
    (Header.layout.decode file).structVer = vpdStructVersion →
    (Header.layout.decode file).repairCount ≠ vpdUndefinedRepairCount →
      file.length ≤ vpdMaxSize ∧ (Header.layout.decode file).repairCount.toNat ≤ entriesIn file ∧
        (rankIndex ≠ dpuInvalidRankIndex → pathFound →
          rankIndex.toNat < vpdMaxRank ∧
            (rank.doIramRepair || rank.doWramRepair →
              ∀ i < (Header.layout.decode file).repairCount.toNat, (fileEntry file i).Fits t rankIndex))

/-- Without more bytes than there is room for, the memory behind the array is as before. -/
theorem readEntries_outside {file : List UInt8} {stored : Nat} {vpd : DpuVpd}
    (hroom : 16 * stored + file.length ≤ 16 * nbMaxRepair) {i : Nat} (hi : nbMaxRepair ≤ i) :
    (readEntries file stored vpd).2.entries i = vpd.entries i := by
  have hmax : nbMaxRepair = 121 := rfl
  fun_induction readEntries file stored vpd with
  | case1 file stored vpd index hshort =>
    have hindex : index = stored := Nat.mod_eq_of_lt (by omega)
    change (if i = index then _ else vpd.entries i) = vpd.entries i
    split
    · next hthis =>
      -- the first entry behind the array is met only at the end of the file, where nothing is stored in it
      have hempty : file = [] := List.length_eq_zero_iff.1 (by omega)
      rw [hthis, hempty, List.length_nil, List.drop_zero, List.nil_append,
        ← List.append_nil (RepairEntry.layout.encode _), Layout.decode_append]
    · rfl
  | case2 file stored vpd index hlong ih =>
    rw [size_entry] at hlong ih ⊢
    rw [List.length_drop] at ih
    have hindex : index = stored := Nat.mod_eq_of_lt (by omega)
    have hne : i ≠ index := by omega
    rw [ih (by omega)]
    exact if_neg hne

/-- The bytes of an entry that is not complete are stored behind the complete ones. -/
theorem readEntries_partial {file : List UInt8} {stored : Nat} {vpd : DpuVpd}
    (hsmall : stored + file.length / 16 < 2 ^ 16) :
    (readEntries file stored vpd).2.entries (stored + file.length / 16) =
      RepairEntry.layout.decode (file.drop (16 * (file.length / 16)) ++
        (RepairEntry.layout.encode (vpd.entries (stored + file.length / 16))).drop (file.length % 16)) := by
  fun_induction readEntries file stored vpd with
  | case1 file stored vpd index hshort =>
    rw [size_entry] at hshort
    have hnone : file.length / 16 = 0 := Nat.div_eq_of_lt hshort
    have hindex : index = stored := Nat.mod_eq_of_lt (by omega)
    rw [hnone, Nat.mod_eq_of_lt hshort, Nat.add_zero, Nat.mul_zero, List.drop_zero, ← hindex]
    exact if_pos rfl
  | case2 file stored vpd index hlong ih =>
    rw [size_entry] at hlong ih ⊢
    rw [List.length_drop] at ih
    have hindex : index = stored := Nat.mod_eq_of_lt (by omega)
    have hcount : stored + 1 + (file.length - 16) / 16 = stored + file.length / 16 := by omega
    have hplace : 16 + 16 * ((file.length - 16) / 16) = 16 * (file.length / 16) := by omega
    have hrest : (file.length - 16) % 16 = file.length % 16 := by omega
    have hother : stored + file.length / 16 ≠ index := by omega
    have hbefore : (vpd.store index (RepairEntry.layout.decode file)).entries (stored + file.length / 16) =
        vpd.entries (stored + file.length / 16) := if_neg hother
    rw [hcount, hrest, List.drop_drop, hplace, hbefore] at ih
    exact ih (by omega)

theorem iramWram_decode (b : UInt8) (rest : List UInt8) : (RepairEntry.layout.decode (b :: rest)).iramWram = b := by
  have hbyte : Layout.ofBytes 1 (b :: rest) = b.toNat := by
    rw [Layout.ofBytes, Layout.ofBytes, Nat.mul_zero, Nat.add_zero, List.headD_cons]
  change UInt8.ofBitVec (BitVec.ofNat 8 (Layout.ofBytes 1 (b :: rest))) = b
  rw [hbyte]
  exact UInt8.ofNat_toNat

/-- The entries of a file that the reader accepts. -/
theorem dpuVpdInit_run {file : List UInt8} (hsize : Header.layout.size ≤ file.length)
    (hid : (Header.layout.decode file).structId = vpdStructId)
    (hver : (Header.layout.decode file).structVer = vpdStructVersion)
    (hcount : (Header.layout.decode file).repairCount ≠ vpdUndefinedRepairCount) (mem : DpuVpd) :
    dpuVpdInit file mem =
      .ok (readEntries (file.drop Header.layout.size) 0 { mem with header := Header.layout.decode file }) := by
  rw [dpuVpdInit, if_neg (Nat.not_lt.2 hsize)]
  dsimp only
  rw [if_neg (not_not.2 hid), if_neg (not_not.2 hver), if_pos hcount]

theorem length_entries (file : List UInt8) : (file.drop Header.layout.size).length / 16 = entriesIn file := by
  rw [List.length_drop]
  rfl

/-- What the reader makes of a file that it accepts. -/
theorem dpuVpdInit_accepted {file : List UInt8} (hsize : Header.layout.size ≤ file.length)
    (hid : (Header.layout.decode file).structId = vpdStructId)
    (hver : (Header.layout.decode file).structVer = vpdStructVersion)
    (hcount : (Header.layout.decode file).repairCount ≠ vpdUndefinedRepairCount) (mem : DpuVpd) :
    ∃ vpd, dpuVpdInit file mem = .ok (entriesIn file, vpd) ∧ vpd.header = Header.layout.decode file ∧
      (entriesIn file ≤ nbMaxRepair → ∀ i < entriesIn file, vpd.entries i = fileEntry file i) ∧
      (file.length ≤ vpdMaxSize → ∀ i, nbMaxRepair ≤ i → vpd.entries i = mem.entries i) := by
  have hmax : nbMaxRepair = 121 := rfl
  have hlength := length_entries file
  refine ⟨(readEntries (file.drop Header.layout.size) 0 { mem with header := Header.layout.decode file }).2, ?_,
    readEntries_header _ _ _, fun hle i hi => ?_, fun hshort i hi => ?_⟩
  · rw [dpuVpdInit_run hsize hid hver hcount, ← hlength, ← Nat.zero_add ((file.drop Header.layout.size).length / 16),
      ← readEntries_stored]
  · rw [readEntries_entries (by omega) (by omega), if_neg (Nat.not_lt_zero i), List.drop_drop]
    rfl
  · have hsize' : vpdMaxSize = Header.layout.size + 16 * nbMaxRepair := rfl
    rw [readEntries_outside (by rw [List.length_drop]; omega) hi]

/-- If bytes are left behind the last entry of the array, memory with other bytes there is changed. -/
theorem dpuVpdInit_overflows {file : List UInt8} (hsize : Header.layout.size ≤ file.length)
    (hid : (Header.layout.decode file).structId = vpdStructId)
    (hver : (Header.layout.decode file).structVer = vpdStructVersion)
    (hcount : (Header.layout.decode file).repairCount ≠ vpdUndefinedRepairCount)
    (hentries : entriesIn file = nbMaxRepair) (hlong : vpdMaxSize < file.length) :
    ∃ mem vpd, dpuVpdInit file mem = .ok (entriesIn file, vpd) ∧ vpd.header = Header.layout.decode file ∧
      vpd.entries nbMaxRepair ≠ mem.entries nbMaxRepair := by
  have hmax : nbMaxRepair = 121 := rfl
  have hlength := length_entries file
  rw [hentries, hmax] at hlength
  obtain ⟨b, rest, hrest⟩ : ∃ b rest, (file.drop Header.layout.size).drop (16 * 121) = b :: rest := by
    rw [List.drop_drop]
    exact ⟨_, _, List.drop_eq_getElem_cons hlong⟩
  let mem : DpuVpd := ⟨Header.layout.decode [], fun _ => ⟨b + 1, 0, 0, 0, 0, 0, 0, 0⟩⟩
  obtain ⟨vpd, hrun, hheader, -⟩ := dpuVpdInit_accepted hsize hid hver hcount mem
  refine ⟨mem, vpd, hrun, hheader, fun hsame => ?_⟩
  have hvpd : (readEntries (file.drop Header.layout.size) 0 { mem with header := Header.layout.decode file }).2 = vpd := by
    rw [dpuVpdInit_run hsize hid hver hcount] at hrun
    exact congrArg Prod.snd (Except.ok.inj hrun)
  have hsmall : 0 + (file.drop Header.layout.size).length / 16 < 2 ^ 16 := by omega
  have hstored : vpd.entries _ = _ := hvpd ▸ readEntries_partial hsmall
  rw [hlength, Nat.zero_add, hrest, List.cons_append] at hstored
  have hfirst := congrArg RepairEntry.iramWram (hstored.symm.trans hsame)
  rw [iramWram_decode] at hfirst
  have hne : b ≠ b + 1 := by
    intro heq
    have hzero : (1 : UInt8) = 0 := by simpa using heq.symm
    exact absurd hzero (by decide)
  exact hne hfirst

/-- A file that is accepted and has a count. -/
theorem accepted_of_dpuVpdInit {file : List UInt8} {mem vpd : DpuVpd} {stored : Nat}
    (h : dpuVpdInit file mem = .ok (stored, vpd)) (hcount : vpd.header.repairCount ≠ vpdUndefinedRepairCount) :
    Header.layout.size ≤ file.length ∧ (Header.layout.decode file).structId = vpdStructId ∧
      (Header.layout.decode file).structVer = vpdStructVersion ∧
      (Header.layout.decode file).repairCount ≠ vpdUndefinedRepairCount := by
  rw [dpuVpdInit] at h
  dsimp only at h
  split at h
  · cases h
  next hsize =>
  split at h
  · cases h
  next hid =>
  split at h
  · cases h
  next hver =>
  split at h
  · next hdefined => exact ⟨Nat.not_lt.1 hsize, not_not.1 hid, not_not.1 hver, hdefined⟩
  · next hundefined =>
    cases h
    exact absurd hcount hundefined

theorem fillSramRepairs_isSome {file : List UInt8} {mem vpd : DpuVpd} {stored : Nat}
    (h : dpuVpdInit file mem = .ok (stored, vpd)) (hcount : vpd.header.repairCount ≠ vpdUndefinedRepairCount)
    (rankIndex : UInt8) (pathFound : Bool) (rank : RepairedRank t) :
    (fillSramRepairsAndUpdateEnabledDpus rankIndex pathFound file mem rank).isSome ↔
      (rankIndex ≠ dpuInvalidRankIndex → pathFound → rankIndex.toNat < vpdMaxRank ∧
        (rank.doIramRepair || rank.doWramRepair →
          ∀ i < vpd.header.repairCount.toNat, i < nbMaxRepair ∧ (vpd.entries i).Fits t rankIndex)) := by
  rw [fillSramRepairsAndUpdateEnabledDpus]
  split
  · next hinvalid => exact iff_of_true rfl fun hne => absurd hinvalid hne
  next hindex =>
  split
  · next hpath => exact iff_of_true rfl fun _ hfound => by simp [hfound] at hpath
  next hpath =>
  rw [h]
  dsimp only
  rw [if_neg hcount]
  have hfound : pathFound = true := by simpa using hpath
  have hrequested : ((rank.doIramRepair || rank.doWramRepair) = true →
      ∀ i < vpd.header.repairCount.toNat, i < nbMaxRepair ∧ (vpd.entries i).Fits t rankIndex) ↔
      (applyEntries vpd rankIndex (if rank.doIramRepair || rank.doWramRepair then vpd.header.repairCount.toNat else 0)
        0 rank 0).isSome := by
    rw [applyEntries_isSome, Nat.zero_add]
    split
    · next hyes => exact ⟨fun hall j _ hj => hall hyes j hj, fun hall _ j hj => hall j (Nat.zero_le j) hj⟩
    · next hno => exact iff_of_true (fun hyes => absurd hyes hno) fun j _ hj => absurd hj (Nat.not_lt_zero j)
  have hranks : rankIndex.toNat < vpdMaxRank ↔ (vpd.header.ranks[rankIndex.toNat]?).isSome := by
    constructor
    · intro hlt
      rw [Vector.getElem?_eq_getElem hlt]
      rfl
    · intro hsome
      by_contra hge
      rw [Vector.getElem?_eq_none (Nat.not_lt.1 hge)] at hsome
      cases hsome
  rw [hrequested, hranks]
  cases applyEntries vpd rankIndex (if rank.doIramRepair || rank.doWramRepair then vpd.header.repairCount.toNat else 0)
      0 rank 0 with
  | none => exact iff_of_false nofun fun hall => nomatch (hall hindex hfound).2
  | some next =>
    rw [Option.bind_some, Option.isSome_map]
    exact ⟨fun hsome _ _ => ⟨hsome, rfl⟩, fun hall => (hall hindex hfound).1⟩

theorem validatesImage_iff (file : List UInt8) (rankIndex : UInt8) (pathFound : Bool) (rank : RepairedRank t) :
    ValidatesImage file rankIndex pathFound rank ↔ ImageFits file rankIndex pathFound rank := by
  constructor
  · intro h hsize hid hver hcount
    obtain ⟨vpd, hrun, hheader, -⟩ := dpuVpdInit_accepted hsize hid hver hcount
      ⟨Header.layout.decode [], fun _ => RepairEntry.layout.decode []⟩
    rw [← hheader] at hcount ⊢
    obtain ⟨hstored, -, -, hread, hfill⟩ := h _ _ vpd hrun hcount
    have hle : vpd.header.repairCount.toNat ≤ entriesIn file := by
      by_contra hlt
      exact absurd (hread _ (Nat.not_le.1 hlt)).1 (Nat.lt_irrefl _)
    -- a longer file has a byte that is stored behind the array, whole entry or not
    have hlength : file.length ≤ vpdMaxSize := by
      by_contra hlong
      have hmax : vpdMaxSize = 112 + 16 * nbMaxRepair := rfl
      have hroom : entriesIn file = (file.length - 112) / 16 := rfl
      rw [hheader] at hcount
      obtain ⟨mem, vpd', hrun', hheader', hchanged⟩ :=
        dpuVpdInit_overflows hsize hid hver hcount (by omega) (Nat.not_le.1 hlong)
      exact hchanged ((h mem _ vpd' hrun' (by rwa [hheader'])).2.1 _ (Nat.le_refl _))
    refine ⟨hlength, hle, fun hindex hpath => ?_⟩
    obtain ⟨hranks, hfits⟩ := (fillSramRepairs_isSome hrun hcount rankIndex pathFound rank).1 hfill hindex hpath
    refine ⟨hranks, fun hrequested i hi => ?_⟩
    rw [← (hread i hi).2]
    exact (hfits hrequested i hi).2
  · intro h mem stored vpd hrun hcount
    obtain ⟨hsize, hid, hver, hcount'⟩ := accepted_of_dpuVpdInit hrun hcount
    obtain ⟨hlength, hle, hfits⟩ := h hsize hid hver hcount'
    have hstored : entriesIn file ≤ nbMaxRepair :=
      Nat.div_le_div_right (Nat.sub_le_sub_right hlength Header.layout.size)
    obtain ⟨vpd', hrun', hheader, hentries, houtside⟩ := dpuVpdInit_accepted hsize hid hver hcount' mem
    obtain ⟨rfl, rfl⟩ : entriesIn file = stored ∧ vpd' = vpd := by
      rw [hrun] at hrun'
      cases hrun'
      exact ⟨rfl, rfl⟩
    rw [← hheader] at hle hfits
    refine ⟨hstored, houtside hlength, Nat.le_trans hle hstored, fun i hi => ⟨Nat.lt_of_lt_of_le hi hle, ?_⟩, ?_⟩
    · exact hentries hstored i (Nat.lt_of_lt_of_le hi hle)
    · rw [fillSramRepairs_isSome hrun hcount]
      intro hindex hpath
      obtain ⟨hranks, hall⟩ := hfits hindex hpath
      refine ⟨hranks, fun hrequested i hi => ?_⟩
      have hin := Nat.lt_of_lt_of_le hi hle
      rw [hentries hstored i hin]
      exact ⟨Nat.lt_of_lt_of_le hin hstored, hall hrequested i hi⟩

/-- A header that says that 122 entries follow. -/
def claimsEntries : Header where
  structId := vpdStructId
  structVer := vpdStructVersion
  structSize := 112
  rankCount := 1
  padding0 := 0
  repairCount := 122
  padding1 := 0
  ranks := Vector.replicate vpdMaxRank ⟨0, 0, 0⟩

/-- A rank of eight interfaces of eight DPUs that has no repairs yet. -/
def freshRank : RepairedRank ⟨8, 8, by decide⟩ where
  dpus := Vector.replicate _ ⟨⟨Vector.replicate _ ⟨0, 0⟩, 0⟩, Vector.replicate _ ⟨Vector.replicate _ ⟨0, 0⟩, 0⟩⟩
  sliceInfo := Vector.replicate _ ⟨0xFF, true⟩
  doIramRepair := true
  doWramRepair := true

/-- The reader accepts a file that ends behind this header, and the rank goes over the end of the array. -/
theorem claimsEntries_not_validated :
    ¬ ValidatesImage (Header.layout.encode claimsEntries) 0 true freshRank ∧
      ∀ mem, fillSramRepairsAndUpdateEnabledDpus 0 true (Header.layout.encode claimsEntries) mem freshRank = none := by
  have hdecode : Header.layout.decode (Header.layout.encode claimsEntries) = claimsEntries := by
    rw [← List.append_nil (Header.layout.encode claimsEntries), Layout.decode_append]
  have hsize : (Header.layout.encode claimsEntries).length = Header.layout.size := Layout.length_encode ..
  have hrun := dpuVpdInit_accepted (Nat.le_of_eq hsize.symm) (by rw [hdecode]; rfl) (by rw [hdecode]; rfl)
    (by rw [hdecode]; decide)
  constructor
  · intro h
    obtain ⟨vpd, hrun, hheader, -⟩ := hrun ⟨Header.layout.decode [], fun _ => RepairEntry.layout.decode []⟩
    rw [hdecode] at hheader
    have hle := (h _ _ vpd hrun (by rw [hheader]; decide)).2.2.1
    rw [hheader] at hle
    exact absurd hle (by decide)
  · intro mem
    obtain ⟨vpd, hrun, hheader, -⟩ := hrun mem
    rw [hdecode] at hheader
    have hiff := fillSramRepairs_isSome hrun (by rw [hheader]; decide) 0 true freshRank
    rw [← Option.not_isSome_iff_eq_none, hiff, hheader]
    intro hall
    exact absurd ((hall (by decide) rfl).2 rfl 121 (by decide)).1 (by decide)

end DpuBackend.Vpd
