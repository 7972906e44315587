import Mathlib.Logic.Function.Basic
import Mathlib.Logic.Relation

/-
  Threads that wait for mutexes other threads hold.

  A thread waits for the one that holds the mutex it is about to lock. A cycle of this relation
  is a deadlock. `acyclic_of_rank` is the rule to exclude one: only the edges between threads
  that are on a cycle have to go up.
-/

namespace DpuBackend.Lib

open Relation

universe u v

section

variable {T : Type u} {M : Type v} (holder : M → Option T) (wants : T → Option M)

/-- The next lock of `t` is one that `w` holds. -/
def WaitsFor (t w : T) : Prop := ∃ m, wants t = some m ∧ holder m = some w

/-- A cycle of threads each waiting for the next. -/
def Deadlock : Prop := ∃ t, TransGen (WaitsFor holder wants) t t

end

variable {α : Type u} {r : α → α → Prop}

theorem rank_lt_of_trans (f : α → Nat) (h : ∀ a b, r a b → TransGen r b a → f a < f b) {a b : α}
    (hab : TransGen r a b) (hba : TransGen r b a) : f a < f b := by
  induction hab with
  | single hstep => exact h _ _ hstep hba
  | @tail b c hab hbc ih => exact Nat.lt_trans (ih (.head hbc hba)) (h b c hbc (hba.trans hab))

/-- No cycle, where the edges between the members of one go up. -/
theorem acyclic_of_rank (f : α → Nat) (h : ∀ a b, r a b → TransGen r b a → f a < f b) (a : α) : ¬ TransGen r a a :=
  fun hcycle => Nat.lt_irrefl _ (rank_lt_of_trans f h hcycle hcycle)

theorem exists_of_trans_left {a b : α} (h : TransGen r a b) : ∃ c, r a c := by
  obtain ⟨c, hac, _⟩ := TransGen.head'_iff.1 h
  exact ⟨c, hac⟩

theorem exists_of_trans_right {a b : α} (h : TransGen r a b) : ∃ c, r c b := by
  obtain ⟨c, _, hcb⟩ := TransGen.tail'_iff.1 h
  exact ⟨c, hcb⟩

end DpuBackend.Lib
