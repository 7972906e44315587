import Mathlib.Algebra.BigOperators.Group.List.Basic
import Mathlib.Data.List.GetD
import Mathlib.Tactic.Common
import DpuBackend.Lib.Loops

/-
  The hypercube of DPUs and what the host hands to the relocation kernels before a
  collective (dpu_memory.c).

  C ↔ Lean (src/api/src/api/dpu_memory.c, src/pidcomm_lib/support/common.h):
    hypercube_manager                      ↔ Hypercube
    dpu_arguments_comm_t                   ↔ Arguments
    comm_axis, axis_len                    ↔ commAxis, Hypercube.axisLen
    num_comm_dpu, comm_type, num_comm_rg   ↔ numCommDpu, commType, numCommRg
    pidcomm_alltoall, relocate before      ↔ alltoallBefore
    pidcomm_all_reduce, relocate before    ↔ allReduceBefore

  A `Hypercube` is one the manager is meant for: no axis is empty and the DPUs fill
  whole ranks of 64. `init_hypercube_manager` itself checks nothing.
-/

namespace DpuBackend.PidComm

open DpuBackend.Lib

structure Hypercube where
  axes : List Nat
  axis_pos : ∀ len ∈ axes, 0 < len
  whole_ranks : 64 ∣ axes.prod

/-- The relocation kernels that run in place. -/
inductive Kernel where
  | clockwise
  | clockwiseShort
  | modifiedReverseClockwise
deriving DecidableEq, Repr

/-- `dpu_arguments_comm_t`, less `num_row`, which no kernel here reads. -/
structure Arguments where
  startOffset : Nat
  targetOffset : Nat
  totalDataSize : Nat
  numCommDpu : Nat
  eachDpu : Nat
  noRotate : Bool
  commType : Nat
  aLength : Nat
  numCommRg : Nat
deriving DecidableEq, Repr

/-- `comm_axis[dim]`: the digits of the string `comm`. -/
def commAxis (comm : List Nat) (dim : Nat) : Nat := comm.getD dim 0

namespace Hypercube

variable (cube : Hypercube) (comm : List Nat)

def dimension : Nat := cube.axes.length

/-- `axis_len[dim]` -/
def axisLen (dim : Nat) : Nat := cube.axes.getD dim 0

/-- The size of a group: the product of the communicating axes. -/
def numCommDpu : Nat :=
  (List.range cube.dimension).foldl (fun n dim => if commAxis comm dim = 1 then n * cube.axisLen dim else n) 1

/-- 0 when the x axis communicates. -/
def commType : Nat := if commAxis comm 0 = 1 then 0 else 1

/-- The loop of `num_comm_rg`; `len` is the product of the axes passed. -/
def numCommRgFrom : List Nat → Nat → Nat → Nat
  | [], _, rg => rg
  | dim :: dims, len, rg =>
    if len < 8 then
      numCommRgFrom dims (len * cube.axisLen dim) (min 8
        (if commAxis comm dim = 1 then rg * (if cube.axisLen dim ≤ 8 / len then cube.axisLen dim else 8 / len) else rg))
    else rg

/-- How many DPUs of one entangled group communicate. The loop of `pidcomm_all_reduce` does
not bound `dim`, but the axes of whole ranks reach 8 within the dimension. -/
def numCommRg : Nat := cube.numCommRgFrom comm (List.range cube.dimension) 1 1

/-- The arguments of a kernel that reads and writes the region at `start`. -/
def inPlace (start total i rg a : Nat) : Arguments where
  startOffset := start
  targetOffset := start
  totalDataSize := total
  numCommDpu := cube.numCommDpu comm
  eachDpu := i
  noRotate := false
  commType := commType comm
  aLength := a
  numCommRg := rg

/-- What `pidcomm_alltoall` launches on DPU `i` before the host moves data. It leaves
`num_comm_rg` unset there, which the kernel does not read. -/
def alltoallBefore (start total i unset : Nat) : Option (Kernel × Arguments) :=
  if commType comm = 0 then some (.clockwise, cube.inPlace comm start total i unset (cube.axisLen 0)) else none

/-- What `pidcomm_all_reduce` launches on DPU `i` before the host moves data. -/
def allReduceBefore (start total i : Nat) : Option (Kernel × Arguments) :=
  if cube.axisLen 0 = 2 ∧ cube.axisLen 1 = 2 ∧ ((commAxis comm 0 = 0 ∧ commAxis comm 1 = 1 ∧ commAxis comm 2 = 0) ∨
      (commAxis comm 0 = 1 ∧ commAxis comm 1 = 0 ∧ commAxis comm 2 = 1)) then
    some (.modifiedReverseClockwise, cube.inPlace comm start total i 2 2)
  else if cube.axisLen 0 < 8 ∧ cube.numCommRg comm < 8 ∧ 1 < cube.numCommRg comm then
    some (.clockwiseShort, cube.inPlace comm start total i (cube.numCommRg comm) (cube.axisLen 0))
  else if commType comm = 0 then
    some (.clockwise, cube.inPlace comm start total i (cube.numCommRg comm) (cube.axisLen 0))
  else none

/-- `a` are arguments with which one of the collectives launches `k` in place. -/
def LaunchesInPlace (k : Kernel) (a : Arguments) : Prop :=
  ∃ start total i unset, cube.alltoallBefore comm start total i unset = some (k, a)
    ∨ cube.allReduceBefore comm start total i = some (k, a)

variable {cube comm}

/-! ## What the kernels may rely on -/

theorem axisLen_pos {dim : Nat} (h : dim < cube.dimension) : 0 < cube.axisLen dim := by
  have hlt : dim < cube.axes.length := h
  rw [axisLen, List.getD_eq_getElem _ _ hlt]
  exact cube.axis_pos _ (List.getElem_mem hlt)

theorem numCommDpu_pos : 0 < cube.numCommDpu comm := by
  refine foldl_range_inv (P := fun _ n => 0 < n) cube.dimension Nat.one_pos fun dim hdim n hn => ?_
  split
  · exact Nat.mul_pos hn (axisLen_pos hdim)
  · exact hn

/-- Every launch in place rotates, over a group that is not empty; the short kernels get a
part of an entangled group. -/
theorem LaunchesInPlace.arguments {k : Kernel} {a : Arguments} (h : cube.LaunchesInPlace comm k a) :
    a.targetOffset = a.startOffset ∧ a.noRotate = false ∧ 0 < a.numCommDpu
      ∧ (k = .clockwiseShort → 1 < a.numCommRg ∧ a.numCommRg < 8)
      ∧ (k = .modifiedReverseClockwise → a.numCommRg = 2) := by
  obtain ⟨start, total, i, unset, h | h⟩ := h
  · unfold alltoallBefore at h
    split at h
    · cases h
      exact ⟨rfl, rfl, numCommDpu_pos, nofun, nofun⟩
    · cases h
  · unfold allReduceBefore at h
    split at h
    · cases h
      exact ⟨rfl, rfl, numCommDpu_pos, nofun, fun _ => rfl⟩
    · split at h
      · rename_i hrg
        cases h
        exact ⟨rfl, rfl, numCommDpu_pos, fun _ => ⟨hrg.2.2, hrg.2.1⟩, nofun⟩
      · split at h
        · cases h
          exact ⟨rfl, rfl, numCommDpu_pos, nofun, nofun⟩
        · cases h

end Hypercube

end DpuBackend.PidComm
