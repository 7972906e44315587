import Mathlib.Data.Nat.Basic

/-
  Words whose bits change places.

  A loop `acc |= f(i)` leaves `orAll n f`. Where the pieces are disjoint, a bit
  of the word is the bit of the one piece that reaches it. `Carries f x y` says
  that the bit of `x` at `p` stands in `y` at `f p`; two moves whose places are
  inverse to each other bring a word back.
-/

namespace DpuBackend.Lib

variable {w n p : Nat}

/-- What `for (i = 0; i < n; i++) acc |= f(i)` leaves of `acc = 0`. -/
def orAll (n : Nat) (f : Nat → BitVec w) : BitVec w := (List.range n).foldl (fun acc i => acc ||| f i) 0

theorem orAll_succ (f : Nat → BitVec w) : orAll (n + 1) f = orAll n f ||| f n := by
  simp [orAll, List.range_succ]

theorem getLsbD_orAll_false {f : Nat → BitVec w} (h : ∀ i < n, (f i).getLsbD p = false) :
    (orAll n f).getLsbD p = false := by
  induction n with
  | zero => simp [orAll]
  | succ n ih =>
    rw [orAll_succ, BitVec.getLsbD_or, ih fun i hi => h i (Nat.lt_succ_of_lt hi), h n (Nat.lt_succ_self n)]
    rfl

/-- Where no other piece has a bit, the word has the bit of piece `i`. -/
theorem getLsbD_orAll {f : Nat → BitVec w} {i : Nat} (hi : i < n)
    (hother : ∀ j < n, j ≠ i → (f j).getLsbD p = false) : (orAll n f).getLsbD p = (f i).getLsbD p := by
  induction n with
  | zero => exact absurd hi (Nat.not_lt_zero i)
  | succ n ih =>
    rw [orAll_succ, BitVec.getLsbD_or]
    by_cases hn : i = n
    · -- the last piece: all the earlier ones are others
      have hrest : (orAll n f).getLsbD p = false :=
        getLsbD_orAll_false fun j hj => hother j (Nat.lt_succ_of_lt hj) (by omega)
      rw [hrest, hn, Bool.false_or]
    · have hlast : (f n).getLsbD p = false := hother n (Nat.lt_succ_self n) (by omega)
      rw [ih (by omega) fun j hj hji => hother j (Nat.lt_succ_of_lt hj) hji, hlast, Bool.or_false]

/-- The bit of `x` at `p` stands in `y` at `f p`. -/
def Carries (f : Nat → Nat) (x y : BitVec w) : Prop := ∀ p < w, y.getLsbD (f p) = x.getLsbD p

/-- A move and the move back. -/
theorem Carries.eq_of_inverse {f g : Nat → Nat} {x y z : BitVec w} (hxy : Carries f x y) (hyz : Carries g y z)
    (hf : ∀ p < w, f p < w) (hgf : ∀ p < w, g (f p) = p) : z = x := by
  apply BitVec.eq_of_getLsbD_eq
  intro p hp
  calc z.getLsbD p = z.getLsbD (g (f p)) := by rw [hgf p hp]
    _ = y.getLsbD (f p) := hyz (f p) (hf p hp)
    _ = x.getLsbD p := hxy p hp

end DpuBackend.Lib
