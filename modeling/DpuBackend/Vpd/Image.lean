import DpuBackend.Lib.Layout
import DpuBackend.Vpd.Container

/-
  The VPD structure of a DIMM and its file.

  C ↔ Lean (src/api/include/lowlevel/dpu_vpd_structures.h, src/vpd/src/dpu_vpd.c):
    VPD_MAX_RANK, VPD_STRUCT_VERSION, VPD_MAX_SIZE    ↔ vpdMaxRank, vpdStructVersion, vpdMaxSize
    VPD_UNDEFINED_REPAIR_COUNT, NB_MAX_REPAIR         ↔ vpdUndefinedRepairCount, nbMaxRepair
    struct dpu_vpd_rank_data, dpu_vpd_repair_entry    ↔ RankData, RepairEntry
    struct dpu_vpd_header, dpu_vpd                    ↔ Header, DpuVpd
    dpu_vpd_init                                      ↔ dpuVpdInitNull, dpuVpdInit
    dpu_vpd_write                                     ↔ dpuVpdWrite
    dpu_vpd_add_repair_entry                          ↔ dpuVpdAddRepairEntry
    dpu_vpd_disable_dpu, dpu_vpd_enable_dpu           ↔ dpuVpdDisableDpu, dpuVpdEnableDpu

  Structures have the layout of a 64-bit little-endian ABI, whose padding is spelled out in the source.
  The memory from `repair_entries` on goes further than the array. File operations do not fail; `fwrite`
  of no bytes returns 0, as it has written no element.
-/

namespace DpuBackend.Vpd

open DpuBackend.Lib

def vpdMaxRank : Nat := 4

def vpdStructId : Vector UInt8 4 := #v[0x55, 0x50, 0x4D, 0x56]

def vpdStructVersion : UInt32 := 0x0004000

def vpdMaxSize : Nat := 2048

def vpdUndefinedRepairCount : UInt16 := 0xFFFF

def vpdSizeChunkMultiple : Nat := 272

def dpuMaxNrDpusPerCi : Nat := 8

structure RankData where
  dpuDisabled : UInt64
  wramRepair : UInt64
  iramRepair : UInt64
  deriving DecidableEq

structure RepairEntry where
  iramWram : UInt8
  rank : UInt8
  ci : UInt8
  dpu : UInt8
  bank : UInt8
  padding : UInt8
  address : UInt16
  bits : UInt64
  deriving DecidableEq

structure Header where
  structId : Vector UInt8 4
  structVer : UInt32
  structSize : UInt16
  rankCount : UInt8
  padding0 : UInt8
  repairCount : UInt16
  padding1 : UInt16
  ranks : Vector RankData vpdMaxRank
  deriving DecidableEq

/-! ## Layout -/

def byte : Layout UInt8 := (Layout.word 1).map ⟨UInt8.ofBitVec, UInt8.toBitVec, fun _ => rfl, fun _ => rfl⟩

def half : Layout UInt16 := (Layout.word 2).map ⟨UInt16.ofBitVec, UInt16.toBitVec, fun _ => rfl, fun _ => rfl⟩

def single : Layout UInt32 := (Layout.word 4).map ⟨UInt32.ofBitVec, UInt32.toBitVec, fun _ => rfl, fun _ => rfl⟩

def double : Layout UInt64 := (Layout.word 8).map ⟨UInt64.ofBitVec, UInt64.toBitVec, fun _ => rfl, fun _ => rfl⟩

def RankData.layout : Layout RankData :=
  (double.seq (double.seq double)).map
    { toFun := fun (dpuDisabled, wramRepair, iramRepair) => ⟨dpuDisabled, wramRepair, iramRepair⟩
      invFun := fun data => (data.dpuDisabled, data.wramRepair, data.iramRepair)
      left_inv := fun _ => rfl
      right_inv := fun _ => rfl }

def RepairEntry.layout : Layout RepairEntry :=
  (byte.seq (byte.seq (byte.seq (byte.seq (byte.seq (byte.seq (half.seq double))))))).map
    { toFun := fun (iramWram, rank, ci, dpu, bank, padding, address, bits) =>
        ⟨iramWram, rank, ci, dpu, bank, padding, address, bits⟩
      invFun := fun e => (e.iramWram, e.rank, e.ci, e.dpu, e.bank, e.padding, e.address, e.bits)
      left_inv := fun _ => rfl
      right_inv := fun _ => rfl }

def Header.layout : Layout Header :=
  ((byte.rep 4).seq (single.seq (half.seq (byte.seq (byte.seq (half.seq (half.seq
      (RankData.layout.rep vpdMaxRank)))))))).map
    { toFun := fun (structId, structVer, structSize, rankCount, padding0, repairCount, padding1, ranks) =>
        ⟨structId, structVer, structSize, rankCount, padding0, repairCount, padding1, ranks⟩
      invFun := fun h =>
        (h.structId, h.structVer, h.structSize, h.rankCount, h.padding0, h.repairCount, h.padding1, h.ranks)
      left_inv := fun _ => rfl
      right_inv := fun _ => rfl }

def nbMaxRepair : Nat := (vpdMaxSize - Header.layout.size) / RepairEntry.layout.size

example : Header.layout.size = 112 ∧ RepairEntry.layout.size = 16 ∧ nbMaxRepair = 121 := by decide

/-- `entries` is the memory from `repair_entries` on. -/
structure DpuVpd where
  header : Header
  entries : Nat → RepairEntry

/-! ## Reading and writing the file -/

/-- With `NULL` for the path. -/
def dpuVpdInitNull (vpd : DpuVpd) : DpuVpd :=
  { vpd with
    header :=
      { structId := vpdStructId
        structVer := vpdStructVersion
        structSize := UInt16.ofNat Header.layout.size
        rankCount := 0
        padding0 := 0
        repairCount := vpdUndefinedRepairCount
        padding1 := 0
        ranks := Vector.replicate vpdMaxRank ⟨0, 0, 0⟩ } }

def DpuVpd.store (vpd : DpuVpd) (i : Nat) (entry : RepairEntry) : DpuVpd :=
  { vpd with entries := fun j => if j = i then entry else vpd.entries j }

/-- The loop to the end of the file, with `stored` entries read so far; the index is a `uint16_t`. The bytes
of an entry that is not complete are stored as well. -/
def readEntries (file : List UInt8) (stored : Nat) (vpd : DpuVpd) : Nat × DpuVpd :=
  let index := stored % 2 ^ 16
  if file.length < RepairEntry.layout.size then
    (stored, vpd.store index
      (RepairEntry.layout.decode (file ++ (RepairEntry.layout.encode (vpd.entries index)).drop file.length)))
  else
    readEntries (file.drop RepairEntry.layout.size) (stored + 1) (vpd.store index (RepairEntry.layout.decode file))
termination_by file.length
decreasing_by
  have hsize : RepairEntry.layout.size = 16 := rfl
  rw [List.length_drop]
  omega

/-- With the content of the file, and what the memory held before; the number of entries read is returned too. -/
def dpuVpdInit (file : List UInt8) (vpd : DpuVpd) : Except VpdError (Nat × DpuVpd) :=
  if file.length < Header.layout.size then .error .err
  else
    let header := Header.layout.decode file
    let vpd := { vpd with header := header }
    if header.structId ≠ vpdStructId then .error .headerFormat
    else if header.structVer ≠ vpdStructVersion then .error .headerVersion
    else if header.repairCount ≠ vpdUndefinedRepairCount then
      .ok (readEntries (file.drop Header.layout.size) 0 vpd)
    else .ok (0, vpd)

/-- A computation that writes a file. -/
abbrev FileM := EStateM VpdError (List UInt8)

/-- `fwrite` of one element, which must be written. -/
def fwrite (element : List UInt8) : FileM PUnit := do
  modify (· ++ element)
  if element.length = 0 then throw .err

/-- The loop over the entries, for `left` more. -/
def writeEntries (entries : Nat → RepairEntry) : Nat → Nat → FileM PUnit
  | 0, _ => pure ⟨⟩
  | left + 1, repair => do
    fwrite (RepairEntry.layout.encode (entries repair))
    writeEntries entries left (repair + 1)

/-- How many bytes follow, for `sizeWritten` so far: the smaller of two differences of `size_t`. -/
def sizeAlign (sizeWritten : Nat) : UInt64 :=
  min (UInt64.ofNat vpdMaxSize - UInt64.ofNat sizeWritten)
    (UInt64.ofNat vpdSizeChunkMultiple - UInt64.ofNat sizeWritten % UInt64.ofNat vpdSizeChunkMultiple)

/-- To a path where no file is. -/
def dpuVpdWrite (vpd : DpuVpd) : FileM PUnit := do
  fwrite (Header.layout.encode vpd.header)
  let count := if vpd.header.repairCount ≠ vpdUndefinedRepairCount then vpd.header.repairCount.toNat else 0
  writeEntries vpd.entries count 0
  fwrite (List.replicate (sizeAlign (Header.layout.size + count * RepairEntry.layout.size)).toNat 0)

/-! ## Changing the structure -/

/-- All fields but the padding. -/
def compareRepairEntry (a b : RepairEntry) : Bool :=
  a.iramWram = b.iramWram ∧ a.rank = b.rank ∧ a.ci = b.ci ∧ a.dpu = b.dpu ∧ a.bank = b.bank ∧ a.address = b.address ∧
    a.bits = b.bits

/-- The bit of a DPU; a shift takes the low six bits of its count. -/
def dpuBit (ci dpu : UInt8) : UInt64 := 1 <<< UInt64.ofNat ((ci.toNat * dpuMaxNrDpusPerCi + dpu.toNat) % 64)

/-- A repair entry of a rank, a control interface and a DPU that exist. -/
structure NewEntry where
  entry : RepairEntry
  rank_lt : entry.rank.toNat < vpdMaxRank
  ci_lt : entry.ci < 8
  dpu_lt : entry.dpu < 8

def RankData.setRepair (data : RankData) (entry : RepairEntry) : RankData :=
  if entry.iramWram = 0 then { data with iramRepair := data.iramRepair ||| dpuBit entry.ci entry.dpu }
  else { data with wramRepair := data.wramRepair ||| dpuBit entry.ci entry.dpu }

/-- The count that is set where none is defined. -/
def DpuVpd.counted (vpd : DpuVpd) : UInt16 :=
  if vpd.header.repairCount = vpdUndefinedRepairCount then 0 else vpd.header.repairCount

/-- An entry is put behind the others, and its DPU marked. -/
def DpuVpd.append (vpd : DpuVpd) (new : NewEntry) : DpuVpd :=
  let data := (vpd.header.ranks.get ⟨new.entry.rank.toNat, new.rank_lt⟩).setRepair new.entry
  let ranks := vpd.header.ranks.set new.entry.rank.toNat data new.rank_lt
  { vpd.store vpd.counted.toNat new.entry with
    header := { vpd.header with ranks := ranks, repairCount := vpd.counted + 1 } }

def dpuVpdAddRepairEntry (vpd : DpuVpd) (new : NewEntry) : DpuVpd × Except VpdError Unit :=
  if vpd.header.repairCount.toNat = nbMaxRepair then (vpd, .error .nbMaxRepair)
  else if (List.range vpd.counted.toNat).any fun repair => compareRepairEntry (vpd.entries repair) new.entry then
    ({ vpd with header := { vpd.header with repairCount := vpd.counted } }, .ok ())
  else (vpd.append new, .ok ())

/-- The same change to the bitmap of disabled DPUs of a rank. -/
def DpuVpd.setDisabled (vpd : DpuVpd) (rank : Fin vpdMaxRank) (mask : UInt64) : DpuVpd :=
  { vpd with header := { vpd.header with
    ranks := vpd.header.ranks.set rank { vpd.header.ranks[rank] with dpuDisabled := mask } } }

def dpuVpdDisableDpu (vpd : DpuVpd) (rank : Fin vpdMaxRank) (sliceId dpuId : UInt8) : DpuVpd × Except VpdError Unit :=
  let disabled := vpd.header.ranks[rank].dpuDisabled
  if disabled &&& dpuBit sliceId dpuId = 0 then (vpd.setDisabled rank (disabled ||| dpuBit sliceId dpuId), .ok ())
  else (vpd, .error .dpuAlreadyDisabled)

def dpuVpdEnableDpu (vpd : DpuVpd) (rank : Fin vpdMaxRank) (sliceId dpuId : UInt8) : DpuVpd × Except VpdError Unit :=
  let disabled := vpd.header.ranks[rank].dpuDisabled
  if disabled &&& dpuBit sliceId dpuId ≠ 0 then (vpd.setDisabled rank (disabled &&& ~~~ dpuBit sliceId dpuId), .ok ())
  else (vpd, .error .dpuAlreadyEnabled)

end DpuBackend.Vpd
