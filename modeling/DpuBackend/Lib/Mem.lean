import Mathlib.Logic.Function.Basic
import Mathlib.Algebra.Order.Ring.Nat

/-
  Block memory — a total memory of cells, read and written a block at a time.

  A memory is a function from addresses to cells; a block of `n` cells is a
  function on `Fin n`. `store` replaces the `n` cells from an address on and
  `load` reads them back. The lemmas are the ones every client needs: a block
  reads back as it was stored, a store moves no cell outside its block, and a
  block apart from the stored one loads the same before and after.
-/

namespace DpuBackend.Lib

/-- A memory of cells of type `α`, one for each address. -/
abbrev Mem (α : Type) := Nat → α

/-- The place of a byte in its word. -/
theorem mod_eight_lt (o : Nat) : o % 8 < 8 := Nat.mod_lt o (by decide)

/-- For the literals of `Fin 8`. -/
theorem neZero_eight : NeZero 8 := ⟨by decide⟩

namespace Mem

variable {α : Type} {n k : Nat}

/-- The `n` cells from address `a` on. -/
def load (m : Mem α) (a n : Nat) : Fin n → α := fun i => m (a + i)

/-- The memory with the block `v` written from address `a` on. -/
def store (m : Mem α) (a : Nat) (v : Fin n → α) : Mem α := fun x =>
  if h : a ≤ x ∧ x < a + n then v ⟨x - a, by omega⟩ else m x

/-- Address `x` is not one of the `n` cells from `a` on. -/
def Outside (a n x : Nat) : Prop := x < a ∨ a + n ≤ x

/-- The blocks of `n` cells at `a` and of `k` cells at `b` share no address. -/
def Apart (a n b k : Nat) : Prop := a + n ≤ b ∨ b + k ≤ a

instance (a n x : Nat) : Decidable (Outside a n x) := inferInstanceAs (Decidable (_ ∨ _))

instance (a n b k : Nat) : Decidable (Apart a n b k) := inferInstanceAs (Decidable (_ ∨ _))

theorem load_apply (m : Mem α) (a : Nat) (i : Fin n) : m.load a n i = m (a + i) := rfl

theorem store_inside (m : Mem α) (a : Nat) (v : Fin n → α) (i : Fin n) :
    m.store a v (a + i) = v i := by
  have h : a ≤ a + i.val ∧ a + i.val < a + n := ⟨by omega, by omega⟩
  unfold store
  rw [dif_pos h]
  congr 1
  exact Fin.ext (by simp)

theorem store_outside (m : Mem α) (a : Nat) (v : Fin n → α) {x : Nat} (h : Outside a n x) :
    m.store a v x = m x := by
  have h' : ¬(a ≤ x ∧ x < a + n) := by rcases h with h | h <;> omega
  unfold store
  rw [dif_neg h']

@[simp] theorem load_store_same (m : Mem α) (a : Nat) (v : Fin n → α) :
    (m.store a v).load a n = v := by
  funext i
  exact store_inside m a v i

@[simp] theorem store_load_same (m : Mem α) (a n : Nat) : m.store a (m.load a n) = m := by
  funext x
  by_cases hx : Outside a n x
  · exact store_outside m a _ hx
  · simp only [Outside, not_or, Nat.not_lt, Nat.not_le] at hx
    obtain ⟨i, rfl⟩ := Nat.exists_eq_add_of_le hx.1
    exact store_inside m a _ ⟨i, by omega⟩

theorem load_store_apart (m : Mem α) (a b : Nat) (v : Fin n → α) (h : Apart a n b k) :
    (m.store a v).load b k = m.load b k := by
  funext i
  apply store_outside
  rcases h with h | h
  · exact .inr (by omega)
  · exact .inl (by omega)

/-! ## Copies -/

/-- The memory with the first `n` cells of `src` put at address `a`. -/
def put (m : Mem α) (a n : Nat) (src : Nat → α) : Mem α := fun x => if a ≤ x ∧ x < a + n then src (x - a) else m x

theorem put_inside (m : Mem α) (a : Nat) (src : Nat → α) {i : Nat} (h : i < n) : m.put a n src (a + i) = src i := by
  unfold put
  rw [if_pos ⟨by omega, by omega⟩, Nat.add_sub_cancel_left]

theorem put_outside (m : Mem α) (a : Nat) (src : Nat → α) {x : Nat} (h : Outside a n x) : m.put a n src x = m x := by
  unfold put
  rw [if_neg]
  rcases h with h | h <;> omega

@[simp] theorem put_zero (m : Mem α) (a : Nat) (src : Nat → α) : m.put a 0 src = m := by
  funext x
  exact put_outside m a src (by unfold Outside; omega)

theorem put_congr (m : Mem α) (a : Nat) {src src' : Nat → α} (h : ∀ i < n, src i = src' i) :
    m.put a n src = m.put a n src' := by
  funext x
  unfold put
  split
  · exact h _ (by omega)
  · rfl

/-- Two copies one behind the other are one. -/
theorem put_put (m : Mem α) (a : Nat) (src : Nat → α) :
    (m.put a n src).put (a + n) k (fun i => src (n + i)) = m.put a (n + k) src := by
  funext x
  simp only [put]
  split
  · rw [if_pos ⟨by omega, by omega⟩]
    congr 1
    omega
  · split
    · rw [if_pos ⟨by omega, by omega⟩]
    · rw [if_neg (by omega)]

end Mem

end DpuBackend.Lib
