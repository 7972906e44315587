import DpuBackend.Lib.Loops
import DpuBackend.Lib.Mem

/-
  Runs of gathers — several blocks read, one written.

  A gather reads a block of `n` cells at each of its sources and writes one block computed
  from them. `run_keeps` says what no gather writes stays, `run_delivers` that a gather's
  block arrives, computed from the memory before the run, when nothing writes its sources
  and nothing else its destination.
-/

namespace DpuBackend.Lib

variable {ι α : Type} {n : Nat}

structure BlockGather (ι α : Type) (n : Nat) where
  sources : Nat
  srcRegion : Fin sources → ι
  srcAddr : Fin sources → Nat
  dstRegion : ι
  dstAddr : Nat
  combine : (Fin sources → Fin n → α) → (Fin n → α)

namespace BlockGather

/-- The gather does not write the block of `n` cells at `a`. -/
def SkipsWriting (g : BlockGather ι α n) (region : ι) (a : Nat) : Prop :=
  g.dstRegion = region → Mem.Apart g.dstAddr n a n

/-- What the gather computes from a memory. -/
def result (g : BlockGather ι α n) (m : ι → Mem α) : Fin n → α :=
  g.combine fun p => (m (g.srcRegion p)).load (g.srcAddr p) n

variable [DecidableEq ι]

def exec (g : BlockGather ι α n) (m : ι → Mem α) : ι → Mem α :=
  Function.update m g.dstRegion ((m g.dstRegion).store g.dstAddr (g.result m))

def run (gathers : List (BlockGather ι α n)) (m : ι → Mem α) : ι → Mem α := gathers.foldl (fun m g => g.exec m) m

variable {g : BlockGather ι α n} {gathers : List (BlockGather ι α n)} {m : ι → Mem α} {region : ι} {a : Nat}

theorem exec_outside {x : Nat} (h : g.dstRegion = region → Mem.Outside g.dstAddr n x) :
    g.exec m region x = m region x := by
  unfold exec
  by_cases hregion : g.dstRegion = region
  · subst hregion
    rw [Function.update_self]
    exact Mem.store_outside _ _ _ (h rfl)
  · rw [Function.update_of_ne (Ne.symm hregion)]

theorem exec_skips (h : g.SkipsWriting region a) : (g.exec m region).load a n = (m region).load a n := by
  funext i
  apply exec_outside
  intro hregion
  obtain hbelow | habove := h hregion
  · exact .inr (by omega)
  · exact .inl (by omega)

theorem exec_delivers (g : BlockGather ι α n) (m : ι → Mem α) :
    (g.exec m g.dstRegion).load g.dstAddr n = g.result m := by
  unfold exec
  rw [Function.update_self, Mem.load_store_same]

theorem run_append (gathers gathers' : List (BlockGather ι α n)) (m : ι → Mem α) :
    run (gathers ++ gathers') m = run gathers' (run gathers m) := List.foldl_append

/-- A cell that no gather writes stays. -/
theorem run_keeps {x : Nat} (h : ∀ g ∈ gathers, g.dstRegion = region → Mem.Outside g.dstAddr n x) :
    run gathers m region x = m region x := by
  induction gathers generalizing m with
  | nil => rfl
  | cons g gathers ih =>
    apply (ih fun g' hg' => h g' (List.mem_cons_of_mem g hg')).trans
    exact exec_outside (h g List.mem_cons_self)

/-- The block of a gather arrives, when no gather writes a source of it and only itself its
destination. -/
theorem run_delivers (hg : g ∈ gathers)
    (hsrc : ∀ g' ∈ gathers, ∀ p, g'.SkipsWriting (g.srcRegion p) (g.srcAddr p))
    (hdst : ∀ g' ∈ gathers, g' = g ∨ g'.SkipsWriting g.dstRegion g.dstAddr) :
    (run gathers m g.dstRegion).load g.dstAddr n = g.result m := by
  refine foldl_reach (f := fun m g => g.exec m) (I := fun m' => g.result m' = g.result m)
    (P := fun m' => (m' g.dstRegion).load g.dstAddr n = g.result m) hg ?_ ?_ ?_ rfl
  · intro m' g' hg' hsame
    rw [← hsame]
    apply congrArg g.combine
    funext p
    exact exec_skips (hsrc g' hg' p)
  · intro m' hsame
    rw [exec_delivers, hsame]
  · intro m' g' hg' hsame hdone
    obtain rfl | hskip := hdst g' hg'
    · rw [exec_delivers, hsame]
    · rw [exec_skips hskip, hdone]

end BlockGather

end DpuBackend.Lib
