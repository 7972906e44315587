import DpuBackend.Lib.Loops
import DpuBackend.Lib.Mem

/-
  Runs of block copies — memories of several regions.

  A copy reads a block of `n` cells in one region and writes it, through a map of
  blocks, to another place. A run does a list of copies in order. `run_keeps` says
  what no copy writes stays, `run_delivers` that a copy's block arrives when nothing
  else writes its two ends, `run_ignores` that a run cannot tell what a block holds
  that none of its copies reads.
-/

namespace DpuBackend.Lib

variable {ι α : Type} {n : Nat}

structure BlockCopy (ι α : Type) (n : Nat) where
  srcRegion : ι
  srcAddr : Nat
  dstRegion : ι
  dstAddr : Nat
  map : (Fin n → α) → (Fin n → α)

namespace BlockCopy

/-- The copy does not read the block of `n` cells at `a`. -/
def SkipsReading (c : BlockCopy ι α n) (region : ι) (a : Nat) : Prop :=
  c.srcRegion = region → Mem.Apart c.srcAddr n a n

/-- The copy does not write the block of `n` cells at `a`. -/
def SkipsWriting (c : BlockCopy ι α n) (region : ι) (a : Nat) : Prop :=
  c.dstRegion = region → Mem.Apart c.dstAddr n a n

variable [DecidableEq ι]

def exec (c : BlockCopy ι α n) (m : ι → Mem α) : ι → Mem α :=
  Function.update m c.dstRegion ((m c.dstRegion).store c.dstAddr (c.map ((m c.srcRegion).load c.srcAddr n)))

def run (copies : List (BlockCopy ι α n)) (m : ι → Mem α) : ι → Mem α := copies.foldl (fun m c => c.exec m) m

variable {c : BlockCopy ι α n} {copies : List (BlockCopy ι α n)} {m : ι → Mem α} {region : ι} {a : Nat}

theorem exec_outside {x : Nat} (h : c.dstRegion = region → Mem.Outside c.dstAddr n x) :
    c.exec m region x = m region x := by
  unfold exec
  by_cases hregion : c.dstRegion = region
  · subst hregion
    rw [Function.update_self]
    exact Mem.store_outside _ _ _ (h rfl)
  · rw [Function.update_of_ne (Ne.symm hregion)]

theorem exec_skips (h : c.SkipsWriting region a) : (c.exec m region).load a n = (m region).load a n := by
  funext i
  apply exec_outside
  intro hregion
  obtain hbelow | habove := h hregion
  · exact .inr (by omega)
  · exact .inl (by omega)

theorem exec_delivers (c : BlockCopy ι α n) (m : ι → Mem α) :
    (c.exec m c.dstRegion).load c.dstAddr n = c.map ((m c.srcRegion).load c.srcAddr n) := by
  unfold exec
  rw [Function.update_self, Mem.load_store_same]

/-- A cell that no copy writes stays. -/
theorem run_keeps {x : Nat} (h : ∀ c ∈ copies, c.dstRegion = region → Mem.Outside c.dstAddr n x) :
    run copies m region x = m region x := by
  induction copies generalizing m with
  | nil => rfl
  | cons c copies ih =>
    apply (ih fun c' hc' => h c' (List.mem_cons_of_mem c hc')).trans
    exact exec_outside (h c (List.mem_cons_self))

theorem run_skips (h : ∀ c ∈ copies, c.SkipsWriting region a) :
    (run copies m region).load a n = (m region).load a n := by
  funext i
  apply run_keeps
  intro c hc hregion
  obtain hbelow | habove := h c hc hregion
  · exact .inr (by omega)
  · exact .inl (by omega)

/-- The block of a copy arrives, when no copy writes its source and only itself its
destination. -/
theorem run_delivers (hc : c ∈ copies) (hsrc : ∀ c' ∈ copies, c'.SkipsWriting c.srcRegion c.srcAddr)
    (hdst : ∀ c' ∈ copies, c' = c ∨ c'.SkipsWriting c.dstRegion c.dstAddr) :
    (run copies m c.dstRegion).load c.dstAddr n = c.map ((m c.srcRegion).load c.srcAddr n) := by
  refine foldl_reach (f := fun m c => c.exec m)
    (I := fun m' => (m' c.srcRegion).load c.srcAddr n = (m c.srcRegion).load c.srcAddr n)
    (P := fun m' => (m' c.dstRegion).load c.dstAddr n = c.map ((m c.srcRegion).load c.srcAddr n)) hc ?_ ?_ ?_ rfl
  · intro m' c' hc' hsame
    rw [exec_skips (hsrc c' hc'), hsame]
  · intro m' hsame
    rw [exec_delivers, hsame]
  · intro m' c' hc' hsame hdone
    obtain rfl | hskip := hdst c' hc'
    · rw [exec_delivers, hsame]
    · rw [exec_skips hskip, hdone]

/-- Of a memory that holds `z` outside one block, a run that does not read the block
leaves `z` outside it. -/
theorem run_ignores {z : α} (hmap : ∀ c ∈ copies, c.map (fun _ => z) = fun _ => z)
    (hskip : ∀ c ∈ copies, c.SkipsReading region a)
    (hm : ∀ r x, (r = region → Mem.Outside a n x) → m r x = z) :
    ∀ r x, (r = region → Mem.Outside a n x) → run copies m r x = z := by
  induction copies generalizing m with
  | nil => exact hm
  | cons c copies ih =>
    apply ih (fun c' hc' => hmap c' (List.mem_cons_of_mem c hc')) fun c' hc' => hskip c' (List.mem_cons_of_mem c hc')
    have hread : (m c.srcRegion).load c.srcAddr n = fun _ => z := by
      funext i
      apply hm
      intro hregion
      obtain hbelow | habove := hskip c List.mem_cons_self hregion
      · exact .inl (by omega)
      · exact .inr (by omega)
    intro r x hx
    show c.exec m r x = z
    by_cases hout : c.dstRegion = r → Mem.Outside c.dstAddr n x
    · rw [exec_outside hout]
      exact hm r x hx
    · -- the cell is in the block just written, which is all `z`
      obtain ⟨rfl, hin⟩ := Classical.not_imp.1 hout
      simp only [Mem.Outside, not_or, Nat.not_lt, Nat.not_le] at hin
      obtain ⟨i, rfl⟩ := Nat.exists_eq_add_of_le hin.1
      have hcell := congrFun (exec_delivers c m) ⟨i, by omega⟩
      rw [hread, hmap c List.mem_cons_self] at hcell
      exact hcell

end BlockCopy

end DpuBackend.Lib
