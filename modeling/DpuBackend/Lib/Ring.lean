import Mathlib.Data.List.Basic

/-
  Rings of slots.

  A ring of `s` slots takes one element after another, element `i` in slot
  `i % s`, and so holds the last `s` of them. `RingHolds` says so of the list of all
  elements written; `RingHolds.push` is one more of them, and `RingHolds.window` reads
  the ring round once from its oldest element.
-/

namespace DpuBackend.Lib

variable {α : Type} {s : Nat} {slots slots' : Nat → α} {xs : List α}

/-- The slots hold the last `s` elements of `xs`, each in the slot of its number. -/
def RingHolds (s : Nat) (slots : Nat → α) (xs : List α) : Prop :=
  ∀ i < xs.length, xs.length ≤ i + s → xs[i]? = some (slots (i % s))

theorem ringHolds_nil : RingHolds s slots [] := by
  intro i hi
  exact absurd hi (Nat.not_lt_zero i)

/-- Fewer than `s` steps apart, two numbers have different slots. -/
theorem mod_ne_of_lt {i n : Nat} (hin : i < n) (hns : n < i + s) : i % s ≠ n % s := by
  intro he
  have hzero : (n - i) % s = 0 := Nat.sub_mod_eq_zero_of_mod_eq he.symm
  rw [Nat.mod_eq_of_lt (by omega)] at hzero
  omega

/-- The next element replaces the oldest one. -/
theorem RingHolds.push {x : α} (h : RingHolds s slots xs) (hnew : slots' (xs.length % s) = x)
    (hother : ∀ p, p ≠ xs.length % s → slots' p = slots p) : RingHolds s slots' (xs ++ [x]) := by
  intro i hi hlast
  rw [List.length_append, List.length_singleton] at hi hlast
  by_cases hin : i = xs.length
  · rw [hin, hnew]
    simp
  · have hne : i % s ≠ xs.length % s := mod_ne_of_lt (by omega) (by omega)
    rw [List.getElem?_append_left (by omega), hother _ hne]
    exact h i (by omega) (by omega)

/-- The slot of the oldest element held after `n` of them. -/
def oldest (s n : Nat) : Nat := if s ≤ n then n % s else 0

theorem oldest_add (s n j : Nat) : (oldest s n + j) % s = (n - s + j) % s := by
  by_cases hsn : s ≤ n
  · have hn : n = n - s + s := by omega
    calc (oldest s n + j) % s = (n % s + j) % s := by rw [oldest, if_pos hsn]
      _ = (n - s + s + j) % s := by rw [Nat.mod_add_mod, ← hn]
      _ = (n - s + j) % s := by rw [Nat.add_right_comm, Nat.add_mod_right]
  · rw [oldest, if_neg hsn, Nat.sub_eq_zero_of_le (by omega)]

/-- Once round the ring, from the oldest element: the last `s` elements in order. -/
theorem RingHolds.window (h : RingHolds s slots xs) :
    (List.range (min xs.length s)).map (fun j => slots ((oldest s xs.length + j) % s)) =
      xs.drop (xs.length - s) := by
  apply List.ext_getElem?
  intro j
  rw [List.getElem?_drop]
  by_cases hj : j < min xs.length s
  · rw [List.getElem?_map, List.getElem?_range hj, Option.map_some, oldest_add]
    exact (h _ (by omega) (by omega)).symm
  · rw [List.getElem?_eq_none (by simpa using by omega), List.getElem?_eq_none (by omega)]

end DpuBackend.Lib
