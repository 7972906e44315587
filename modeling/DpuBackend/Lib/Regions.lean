import Mathlib.Data.Fintype.EquivFin
import Mathlib.Data.Fintype.Prod

/-
  Regions of one size in an array.

  `n` regions of `k` entries start at `pos 0`, `pos 1`, … of an array. Regions
  that are pairwise apart and inside an array of `entries` entries do not have
  more entries than it (`mul_le_of_apart`); regions laid out one behind the
  other need no more than that (`apart_mul`, `inside_mul`).
-/

namespace DpuBackend.Lib

variable {pos : Nat → Nat} {k n entries : Nat}

/-- No two regions have an entry in common. -/
def RegionsApart (pos : Nat → Nat) (k n : Nat) : Prop :=
  ∀ i < n, ∀ j < n, i ≠ j → pos i + k ≤ pos j ∨ pos j + k ≤ pos i

/-- Every region is inside the array. -/
def RegionsInside (pos : Nat → Nat) (k n entries : Nat) : Prop := ∀ i < n, pos i + k ≤ entries

theorem mul_le_of_apart (hapart : RegionsApart pos k n) (hinside : RegionsInside pos k n entries) : n * k ≤ entries := by
  -- entry `x` of region `i` is entry `pos i + x` of the array
  let place : Fin n × Fin k → Fin entries := fun e =>
    ⟨pos e.1 + e.2, Nat.lt_of_lt_of_le (Nat.add_lt_add_left e.2.isLt _) (hinside e.1 e.1.isLt)⟩
  have hplace : Function.Injective place := by
    intro ⟨i, x⟩ ⟨j, y⟩ he
    have hval : pos i + x = pos j + y := congrArg Fin.val he
    have hx := x.isLt
    have hy := y.isLt
    by_cases hij : i = j
    · subst hij
      have hxy : x = y := Fin.ext (by omega)
      rw [hxy]
    · have hsep := hapart i i.isLt j j.isLt (fun h => hij (Fin.ext h))
      omega
  have hcard := Fintype.card_le_of_injective place hplace
  simpa using hcard

theorem apart_mul (h : ∀ i < n, pos i = i * k) : RegionsApart pos k n := by
  intro i hi j hj hij
  rw [h i hi, h j hj]
  rcases Nat.lt_or_gt_of_ne hij with hlt | hlt
  · left
    calc i * k + k = (i + 1) * k := (Nat.succ_mul i k).symm
      _ ≤ j * k := Nat.mul_le_mul_right k hlt
  · right
    calc j * k + k = (j + 1) * k := (Nat.succ_mul j k).symm
      _ ≤ i * k := Nat.mul_le_mul_right k hlt

theorem inside_mul (h : ∀ i < n, pos i = i * k) : RegionsInside pos k n (n * k) := by
  intro i hi
  calc pos i + k = (i + 1) * k := by rw [h i hi, Nat.succ_mul]
    _ ≤ n * k := Nat.mul_le_mul_right k hi

end DpuBackend.Lib
