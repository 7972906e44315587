import Mathlib.Tactic.Common
import Mathlib.Algebra.Order.Ring.Int

/-
  Arithmetic on words of a fixed size that notes whether a result has wrapped.

  A `Calc` is what a computation comes to and whether one of its operations has left the range
  of its word. `Gives x ok a` says that nothing wraps exactly if `ok` holds, and that the
  result is `a` then; the rules follow the operations, so that the condition of a whole
  computation is found along with the proof.
-/

namespace DpuBackend.Lib

structure Calc (α : Type) where
  val : α
  wrapped : Bool

namespace Calc

variable {α β : Type}

instance : Monad Calc where
  pure a := ⟨a, false⟩
  bind x f := ⟨(f x.val).val, x.wrapped || (f x.val).wrapped⟩

/-- The word with the value of `n`, if it has one. -/
def word (bits : Nat) (n : Int) : Calc Nat := ⟨(n % 2 ^ bits).toNat, !decide (0 ≤ n ∧ n < 2 ^ bits)⟩

def Gives (x : Calc α) (ok : Prop) (a : α) : Prop := (x.wrapped = false ↔ ok) ∧ (ok → x.val = a)

variable {x : Calc α} {ok ok' : Prop} {a a' : α}

theorem Gives.congr (h : Gives x ok a) (hok : ok' ↔ ok) (ha : ok → a' = a) : Gives x ok' a' :=
  ⟨h.1.trans hok.symm, fun h' => (h.2 (hok.mp h')).trans (ha (hok.mp h')).symm⟩

theorem Gives.of_ok (h : Gives x ok a) (hok : ok) : x = ⟨a, false⟩ := by
  have hval := h.2 hok
  have hwrapped := h.1.mpr hok
  cases x
  simp only at hval hwrapped
  rw [hval, hwrapped]

theorem Gives.wrapped (h : Gives x ok a) (hok : ¬ok) : x.wrapped = true := by
  cases hw : x.wrapped with
  | true => rfl
  | false => exact absurd (h.1.mp hw) hok

theorem gives_pure (a : α) : Gives (pure a) True a := ⟨⟨fun _ => trivial, fun _ => rfl⟩, fun _ => rfl⟩

theorem gives_word (bits : Nat) (n : Int) : Gives (word bits n) (0 ≤ n ∧ n < 2 ^ bits) n.toNat := by
  refine ⟨by simp [word], fun h => ?_⟩
  rw [word, Int.emod_eq_of_lt h.1 h.2]

theorem gives_bind {f : α → Calc β} {b : β} (hx : Gives x ok a) (hf : ok → Gives (f a) ok' b) :
    Gives (x >>= f) (ok ∧ ok') b := by
  by_cases h : ok
  · rw [hx.of_ok h]
    have hfa := hf h
    refine ⟨?_, fun h' => hfa.2 h'.2⟩
    show (false || (f a).wrapped) = false ↔ ok ∧ ok'
    rw [Bool.false_or, hfa.1]
    exact (and_iff_right h).symm
  · have hw := hx.wrapped h
    refine ⟨?_, fun h' => absurd h'.1 h⟩
    show (x.wrapped || (f x.val).wrapped) = false ↔ ok ∧ ok'
    rw [hw, Bool.true_or]
    exact ⟨fun he => absurd he.symm Bool.false_ne_true, fun h' => absurd h'.1 h⟩

/-- What follows a computation that has wrapped. -/
theorem wrapped_bind {f : α → Calc β} (hx : x.wrapped = true) : (x >>= f).wrapped = true := by
  show (x.wrapped || (f x.val).wrapped) = true
  rw [hx, Bool.true_or]

theorem bind_exact (f : α → Calc β) : ((⟨a, false⟩ : Calc α) >>= f) = f a := by
  show (⟨(f a).val, false || (f a).wrapped⟩ : Calc β) = f a
  rw [Bool.false_or]

end Calc

end DpuBackend.Lib
