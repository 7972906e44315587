import DpuBackend.PidComm.AllToAllPairs
import DpuBackend.PidComm.HostAllToAll
import DpuBackend.PidComm.RelocateOut

/-
  Calls of the collectives whose x axis holds whole entangled groups.

  C ↔ Lean (src/api/src/api/dpu_memory.c):
    the coordinates of DPU `i`                ↔ coord
    a DPU's number within its group           ↔ memberIndex
    what the calls are given                  ↔ CollectiveCall
    api_must_switch_mram_mux                  ↔ Muxes.switched
    dpu_launch, dpu_push_xfer on the MRAMs    ↔ Muxes.launch, Muxes.access
    dimension, axis_len, comm_axis, comm_type
      as they are passed on to the handler    ↔ Hypercube.allToAll

  DPU `i` is chip `i % 8` of entangled group `i / 8`. When the x axis communicates, a
  DPU's number is eight times that of its entangled group, and the chip
  (`memberIndex_eq`).

  dpu_launch leaves the muxes of the MRAMs on the DPUs' side, and only a transfer through
  the control interfaces brings them back; the copies of the host's threads do not. The
  MRAM below the heap, its first 1 MB, is the programs' own: dpu_load and printf write
  there, and of what it holds nothing is said here.
-/

namespace DpuBackend.PidComm

open DpuBackend.Lib DpuBackend.Xeon

/-! ## DPUs and entangled groups -/

namespace AllToAll

variable (a : AllToAll)

/-- The coordinate of DPU `i` on an axis. -/
def coord (i k : Nat) : Nat := MixedRadix.digit a.axisLen i k

/-- The position of entangled group `g`. -/
def groupCoord (g k : Nat) : Nat := MixedRadix.digit a.groupsOf g k

/-- The radix of a communicating axis of DPUs; 1 where the axis is fixed. -/
def memberLen (k : Nat) : Nat := if a.commAxis k then a.axisLen k else 1

/-- The number of DPU `i` in its communication group, the x axis fastest. -/
def memberIndex (i : Nat) : Nat :=
  MixedRadix.value a.memberLen (fun k => if a.commAxis k then a.coord i k else 0) a.dimension

/-- The two DPUs are in one communication group. -/
def SameGroup (s d : Nat) : Prop := ∀ k < a.dimension, ¬ a.commAxis k → a.coord s k = a.coord d k

variable {a} {i g s d : Nat}

theorem coord_zero (i : Nat) : a.coord i 0 = 8 * a.groupCoord (i / 8) 0 + i % 8 := by
  have hfirst : 8 * (a.axisLen 0 / 8) = a.axisLen 0 := Nat.mul_div_cancel' a.whole_groups
  show i / 1 % a.axisLen 0 = 8 * (i / 8 / 1 % (a.axisLen 0 / 8)) + i % 8
  rw [Nat.div_one, Nat.div_one, ← hfirst, Nat.mod_mul, hfirst, Nat.add_comm]

theorem coord_succ (i k : Nat) : a.coord i (k + 1) = a.groupCoord (i / 8) (k + 1) := by
  show i / MixedRadix.weight a.axisLen (k + 1) % a.axisLen (k + 1) =
    i / 8 / MixedRadix.weight a.groupsOf (k + 1) % a.axisLen (k + 1)
  rw [weight_axisLen, Nat.div_div_eq_div_mul]

theorem isGroup_groupCoord (hpos : 0 < a.groups) (g : Nat) : a.IsGroup (a.groupCoord g) :=
  fun _ hk => MixedRadix.digit_lt (groupsOf_pos hpos hk)

theorem linearIndex_groupCoord (hg : g < a.groups) : a.linearIndex (a.groupCoord g) = g := by
  show MixedRadix.value a.groupsOf (MixedRadix.digit a.groupsOf g) a.dimension = g
  rw [MixedRadix.value_digit]
  exact Nat.mod_eq_of_lt hg

/-- The chip counts when the x axis communicates. -/
theorem memberIndex_eq (i : Nat) : a.memberIndex i =
    if a.commType = 0 then 8 * a.commPart (a.groupCoord (i / 8)) + i % 8 else a.commPart (a.groupCoord (i / 8)) := by
  have hvalue : ∀ n, MixedRadix.value a.memberLen (fun k => if a.commAxis k then a.coord i k else 0) (n + 1) =
      if a.commType = 0 then
        8 * MixedRadix.value a.commLen (fun k => if a.commAxis k then a.groupCoord (i / 8) k else 0) (n + 1) + i % 8
      else MixedRadix.value a.commLen (fun k => if a.commAxis k then a.groupCoord (i / 8) k else 0) (n + 1) := by
    intro n
    induction n with
    | zero =>
      rw [a.commType_eq]
      by_cases h : a.commAxis 0 = true <;> simp [MixedRadix.value, MixedRadix.weight, h, coord_zero]
    | succ n ih =>
      have hweight : MixedRadix.weight a.memberLen (n + 1) =
          (if a.commType = 0 then 8 else 1) * MixedRadix.weight a.commLen (n + 1) := a.weight_commAxis n
      have hsucc : ∀ r x : Nat → Nat, MixedRadix.value r x (n + 1 + 1) =
          MixedRadix.value r x (n + 1) + x (n + 1) * MixedRadix.weight r (n + 1) := fun _ _ => rfl
      rw [hsucc, ih, hsucc, hweight, coord_succ]
      split
      · ring
      · ring
  obtain ⟨n, hn⟩ := Nat.exists_eq_succ_of_ne_zero a.dimension_pos.ne'
  rw [memberIndex, commPart, hn]
  exact hvalue n

theorem SameGroup.agree (h : a.SameGroup s d) : a.AgreeOnFixed (a.groupCoord (s / 8)) (a.groupCoord (d / 8)) := by
  intro k hk hfix
  have hcoord := h k hk hfix
  cases k with
  | zero =>
    rw [coord_zero, coord_zero] at hcoord
    omega
  | succ k => rwa [coord_succ, coord_succ] at hcoord

/-- Without the x axis the two are the same chip of their groups. -/
theorem SameGroup.chip (h : a.SameGroup s d) (hx : a.commType ≠ 0) : s % 8 = d % 8 := by
  have hfix : ¬ a.commAxis 0 := by
    intro hcomm
    rw [a.commType_eq, if_pos hcomm] at hx
    exact hx rfl
  have hcoord := h 0 a.dimension_pos hfix
  rw [coord_zero, coord_zero] at hcoord
  omega

end AllToAll

/-! ## The call -/

theorem weight_getD (l : List Nat) : MixedRadix.weight (fun k => l.getD k 0) l.length = l.prod := by
  have htake : ∀ n ≤ l.length, MixedRadix.weight (fun k => l.getD k 0) n = (l.take n).prod := by
    intro n
    induction n with
    | zero => intro _; rfl
    | succ n ih =>
      intro hn
      rw [MixedRadix.weight, ih (Nat.le_of_succ_le hn), List.prod_take_succ l n hn, List.getD_eq_getElem l 0 hn]
  rw [htake l.length (Nat.le_refl _), List.take_length]

namespace Hypercube

variable (cube : Hypercube) (comm : List Nat)

/-- The arguments of `all_to_all`. -/
def allToAll (whole_groups : 8 ∣ cube.axisLen 0) (start blockBytes : Nat) : AllToAll where
  dimension := cube.dimension
  axisLen := cube.axisLen
  commAxis k := commAxis comm k = 1
  commType := commType comm
  srcStartOffset := start
  dstStartOffset := start
  dpuByteLength := blockBytes
  numThread := 32
  numThread_pos := Nat.succ_pos 31
  commType_eq := by simp [commType]
  whole_groups := whole_groups
  whole_ranks := (weight_getD cube.axes).symm ▸ cube.whole_ranks

variable {cube comm}

theorem numCommDpu_eq {whole_groups : 8 ∣ cube.axisLen 0} {start blockBytes : Nat} : cube.numCommDpu comm =
    (if commType comm = 0 then 8 else 1) * (cube.allToAll comm whole_groups start blockBytes).commGroups := by
  have hfold : ∀ n, (List.range n).foldl (fun n dim => if commAxis comm dim = 1 then n * cube.axisLen dim else n) 1 =
      MixedRadix.weight (fun k => if commAxis comm k = 1 then cube.axisLen k else 1) n := by
    intro n
    induction n with
    | zero => rfl
    | succ n ih =>
      rw [List.range_succ, List.foldl_append, ih, List.foldl_cons, List.foldl_nil, MixedRadix.weight]
      split
      · rfl
      · rw [Nat.mul_one]
  have hproduct := (cube.allToAll comm whole_groups start blockBytes).commAxis_product
  rw [numCommDpu, hfold]
  simp only [allToAll, decide_eq_true_eq] at hproduct
  exact hproduct

theorem eight_le_axisLen (whole_groups : 8 ∣ cube.axisLen 0) (hdim : 0 < cube.dimension) : 8 ≤ cube.axisLen 0 :=
  Nat.le_of_dvd (axisLen_pos hdim) whole_groups

/-- Where the x axis communicates, all of an entangled group does. -/
theorem numCommRg_eq (whole_groups : 8 ∣ cube.axisLen 0) (hdim : 0 < cube.dimension) (hx : commType comm = 0) :
    cube.numCommRg comm = 8 := by
  have h8 := eight_le_axisLen whole_groups hdim
  have hcomm : commAxis comm 0 = 1 := by
    by_contra hne
    rw [commType, if_neg hne] at hx
    exact absurd hx (by decide)
  have hstop : ∀ dims rg, cube.numCommRgFrom comm dims (1 * cube.axisLen 0) rg = rg := by
    intro dims rg
    cases dims with
    | nil => rfl
    | cons dim dims => rw [numCommRgFrom, if_neg (by omega)]
  obtain ⟨n, hn⟩ := Nat.exists_eq_succ_of_ne_zero hdim.ne'
  rw [numCommRg, hn, List.range_succ_eq_map, numCommRgFrom, if_pos (by decide), hstop, if_pos hcomm]
  split
  · omega
  · rfl

end Hypercube

/-! ## The muxes -/

/-- Which side reaches the MRAMs of a set: where the API must switch the muxes only the one they
are set to. Elsewhere it leaves them alone, and relies on both sides reaching the MRAMs. -/
structure Muxes where
  switched : Bool
  hostSide : Bool
deriving DecidableEq, Repr

namespace Muxes

/-- `dpu_launch` hands the MRAMs to the DPUs. -/
def launch (m : Muxes) : Muxes := { m with hostSide := false }

/-- `dpu_push_xfer` on the MRAMs takes them back. -/
def access (m : Muxes) : Muxes := { m with hostSide := true }

/-- What the threads of the host copy is in the MRAMs, and reaches them. -/
def HostReaches (m : Muxes) : Prop := m.switched = true → m.hostSide = true

theorem access_hostReaches (m : Muxes) : m.access.HostReaches := fun _ => rfl

theorem launch_hostReaches_iff (m : Muxes) : m.launch.HostReaches ↔ m.switched = false := by
  simp [HostReaches, launch]

end Muxes

/-- Blocks of whole words, and the source and the buffer of each MRAM apart. -/
structure CollectiveCall where
  cube : Hypercube
  comm : List Nat
  build : Build
  startOffset : Nat
  targetOffset : Nat
  bufferOffset : Nat
  /-- `total_data_size / num_comm_dpu` -/
  blockBytes : Nat
  comm_digits : ∀ x ∈ comm, x = 0 ∨ x = 1
  whole_groups : 8 ∣ cube.axisLen 0
  start_aligned : 8 ∣ startOffset
  buffer_aligned : 8 ∣ bufferOffset
  block_aligned : 8 ∣ blockBytes
  heap_eq : build.heap = build.mram + 1024 * 1024
  start_fits : startOffset + 1024 * 1024 + cube.numCommDpu comm * blockBytes ≤ 0x4000000
  buffer_fits : startOffset + bufferOffset + 1024 * 1024 + cube.numCommDpu comm * blockBytes ≤ 0x4000000
  start_apart : Mem.Apart startOffset (cube.numCommDpu comm * blockBytes)
    (startOffset + bufferOffset) (cube.numCommDpu comm * blockBytes)
  products_fit : (cube.allToAll comm whole_groups startOffset blockBytes).Fits

/-- However the tasklets of a program are interleaved, they end and leave `mram'` from the heap on. -/
def EndsIn {b : Build} (sdk : Sdk b) (program : Nat → Program) (mram mram' : Mem UInt8) : Prop :=
  ∀ caches : Nat → Mem UInt8, Settles sdk.exec nrTasklets ⟨program, caches, mram⟩ fun s =>
    s.Done nrTasklets ∧ AgreeFrom b.heap s.shared mram'

theorem endsIn_of_settles {b : Build} {sdk : Sdk b} {program : Nat → Program} {mram mram' : Mem UInt8}
    (h : ∀ caches : Nat → Mem UInt8, Settles sdk.exec nrTasklets ⟨program, caches, mram⟩ fun s =>
      s.Done nrTasklets ∧ s.shared = mram') : EndsIn sdk program mram mram' :=
  fun caches => (h caches).mono fun _ hs => ⟨hs.1, fun x _ => congrFun hs.2 x⟩

namespace CollectiveCall

variable (p : CollectiveCall)

def numCommDpu : Nat := p.cube.numCommDpu p.comm

def commType : Nat := Hypercube.commType p.comm

def nrDpus : Nat := p.cube.axes.prod

def totalDataSize : Nat := p.numCommDpu * p.blockBytes

/-- The arguments of `all_to_all`. -/
def hostArguments : AllToAll := p.cube.allToAll p.comm p.whole_groups p.startOffset p.blockBytes

/-- The host sees in its regions what the DPUs have in their MRAM from the heap on. -/
def Shows (regions : Regions) (mrams : Nat → Mem UInt8) : Prop :=
  ∀ i < p.nrDpus, ∀ x, 1024 * 1024 ≤ x → x < 2 ^ 26 → mrams i (p.build.mram + x) = mramByte regions i x

/-- Where the kernel before the host's copies puts block `t` of DPU `i`. -/
def turned (i t : Nat) : Nat := if p.commType = 0 then rotated 8 i t else t

theorem numCommDpu_eq : p.numCommDpu = (if p.commType = 0 then 8 else 1) * p.hostArguments.commGroups :=
  Hypercube.numCommDpu_eq

theorem total_eq : p.hostArguments.commGroups * p.hostArguments.blockBytes = p.numCommDpu * p.blockBytes := by
  rw [numCommDpu_eq, Nat.mul_comm (if p.commType = 0 then 8 else 1), Nat.mul_assoc]
  rfl

/-- A byte of block `b * nrBlocks + r` is a byte of block `r` of the calls' blocks `b`. -/
theorem block_byte (b r o : Nat) : p.blockBytes * (nrBlocks p.commType * b + r) + o =
    b * p.hostArguments.blockBytes + (r * p.blockBytes + o) := by
  have hbytes : p.hostArguments.blockBytes = nrBlocks p.commType * p.blockBytes := rfl
  rw [hbytes]
  ring

variable {p}

theorem eight_dvd_numCommDpu (hx : p.commType = 0) : 8 ∣ p.numCommDpu := by
  rw [numCommDpu_eq, if_pos hx]
  exact Nat.dvd_mul_right 8 _

theorem numCommDpu_pos : 0 < p.numCommDpu := Hypercube.numCommDpu_pos

theorem heap_aligned {offset : Nat} (h : 8 ∣ offset) : 8 ∣ p.build.heap + offset := by
  have hbase := p.build.mram_dvd
  have hheap := p.heap_eq
  omega

theorem fits (i rg : Nat) : Fits p.build
    (p.cube.inPlace p.comm p.startOffset p.totalDataSize i rg (p.cube.axisLen 0)) p.blockBytes where
  blocks_pos := Hypercube.numCommDpu_pos
  total := rfl
  word := p.build.word_dvd.trans p.block_aligned
  inMram := by
    have hheap := p.heap_eq
    have hstart := p.start_fits
    show p.build.heap + p.startOffset + p.cube.numCommDpu p.comm * p.blockBytes ≤ _
    omega

theorem dimension_pos : 0 < p.cube.dimension := p.hostArguments.dimension_pos

theorem nrDpus_eq : p.nrDpus = 8 * p.hostArguments.groups := by
  have hproduct := p.hostArguments.axisLen_product
  rw [← hproduct]
  exact (weight_getD p.cube.axes).symm

theorem nrBlocks_eq (hx : p.commType = 0) : nrBlocks p.commType = 8 := if_pos hx

theorem turned_lt {i t : Nat} (ht : t < p.numCommDpu) : p.turned i t < p.numCommDpu := by
  unfold turned
  split
  · next hx => exact (regroup_rotated (by decide) (by decide) (eight_dvd_numCommDpu hx)).place_lt t ht
  · exact ht

theorem dpu_eq (i : Nat) : i = 8 * (i / 8) + i % 8 := (Nat.div_add_mod i 8).symm

theorem byte_lt {b o : Nat} (hb : b < p.numCommDpu) (ho : o < p.blockBytes) :
    p.blockBytes * b + o < p.numCommDpu * p.blockBytes := by
  have hle : p.blockBytes * b + p.blockBytes ≤ p.numCommDpu * p.blockBytes := block_le hb
  omega

/-- What the regions show can be any MRAMs. -/
theorem exists_shows (mrams : Nat → Mem UInt8) : ∃ regions, p.Shows regions mrams := by
  obtain ⟨regions, hregions⟩ := exists_regions fun i x => mrams i (p.build.mram + x)
  exact ⟨regions, fun i _ x _ hx => (hregions i x hx).symm⟩

/-- A kernel for words of 4 bytes, with a heap behind the first 1 MB. -/
def fourByteWords : Build := ⟨0x8000000, 0x8100000, 4, ⟨0x1000000, rfl⟩, Nat.le_of_ble_eq_true rfl, Nat.le_of_ble_eq_true rfl, ⟨2, rfl⟩⟩

/-- One rank, blocks of 8 bytes. -/
def smallCall (cube : Hypercube) (comm : List Nat) (hdigits : ∀ x ∈ comm, x = 0 ∨ x = 1)
    (hgroups : 8 ∣ cube.axisLen 0) (hsmall : cube.numCommDpu comm ≤ 64)
    (hfit : (cube.allToAll comm hgroups 2048 8).Fits) : CollectiveCall where
  cube := cube
  comm := comm
  build := fourByteWords
  startOffset := 2048
  targetOffset := 4096
  bufferOffset := 512
  blockBytes := 8
  comm_digits := hdigits
  whole_groups := hgroups
  start_aligned := ⟨256, rfl⟩
  buffer_aligned := ⟨64, rfl⟩
  block_aligned := ⟨1, rfl⟩
  heap_eq := rfl
  start_fits := by omega
  buffer_fits := by omega
  start_apart := .inl (by omega)
  products_fit := hfit

/-- One axis of 64, along which the DPUs communicate. -/
def oneRank : CollectiveCall :=
  smallCall ⟨[64], by decide, by decide⟩ [1] (by decide) (by decide) (by decide) (by decide)

/-- Eight times eight DPUs that communicate along the y axis. -/
def eightByEight : CollectiveCall :=
  smallCall ⟨[8, 8], by decide, by decide⟩ [0, 1] (by decide) (by decide) (by decide) (by decide)

end CollectiveCall

end DpuBackend.PidComm
