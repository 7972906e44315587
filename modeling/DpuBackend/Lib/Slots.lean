import Mathlib.Data.Multiset.AddSub

/-
  Arrays of slots.

  `scan p xs n i` is the loop that looks for the first of the `n` entries from
  `i` on with property `p`; an entry that the array does not have is a fault.
  `contents` of an array of slots are the elements in it, as a multiset: an
  empty slot that is filled adds one, a full slot that is emptied takes one out.
-/

namespace DpuBackend.Lib

variable {α : Type}

/-- The first entry with property `p` among the `n` from `i` on; `error` where
the loop leaves the array before it has found one. -/
def scan (p : α → Bool) (xs : List α) : (n i : Nat) → Except Unit (Option Nat)
  | 0, _ => .ok none
  | n + 1, i =>
    match xs[i]? with
    | none => .error ()
    | some x => if p x then .ok (some i) else scan p xs n (i + 1)

/-- Within the array the loop finds the first such entry, or there is none. -/
theorem scan_within (p : α → Bool) (xs : List α) : ∀ n i, i + n ≤ xs.length →
    (∃ j x, scan p xs n i = .ok (some j) ∧ j < i + n ∧ xs[j]? = some x ∧ p x = true) ∨
      (scan p xs n i = .ok none ∧ ∀ j x, i ≤ j → j < i + n → xs[j]? = some x → p x = false)
  | 0, i, _ => Or.inr ⟨rfl, fun j x hij hj _ => absurd hj (by omega)⟩
  | n + 1, i, h => by
    have hi : i < xs.length := by omega
    have hget : xs[i]? = some xs[i] := List.getElem?_eq_getElem hi
    by_cases hp : p xs[i] = true
    · left
      refine ⟨i, _, ?_, by omega, hget, hp⟩
      simp only [scan, hget, hp, if_true]
    · have hstep : scan p xs (n + 1) i = scan p xs n (i + 1) := by
        simp only [scan, hget, hp, if_false, Bool.false_eq_true]
      rw [hstep]
      rcases scan_within p xs n (i + 1) (by omega) with ⟨j, x, hfound, hj, hx⟩ | ⟨hnone, hall⟩
      · exact Or.inl ⟨j, x, hfound, by omega, hx⟩
      · right
        refine ⟨hnone, ?_⟩
        intro j x hij hj hx
        by_cases hji : j = i
        · rw [hji, hget] at hx
          rw [← Option.some.inj hx]
          simpa using hp
        · exact hall j x (by omega) (by omega) hx

/-! ## What is in the slots -/

/-- The elements in an array of slots. -/
def contents (xs : List (Option α)) : Multiset α := Multiset.ofList (xs.filterMap id)

theorem contents_append (xs ys : List (Option α)) : contents (xs ++ ys) = contents xs + contents ys := by
  rw [contents, List.filterMap_append, ← Multiset.coe_add]
  rfl

theorem contents_cons_some (x : α) (xs : List (Option α)) : contents (some x :: xs) = x ::ₘ contents xs := rfl

theorem contents_cons_none (xs : List (Option α)) : contents (none :: xs) = contents xs := rfl

theorem contents_replicate_none (n : Nat) : contents (List.replicate n (none : Option α)) = 0 := by
  induction n with
  | zero => rfl
  | succ n ih => rw [List.replicate_succ, contents_cons_none, ih]

/-- The array around one of its entries, and around what takes its place. -/
theorem split_at {xs : List α} {i : Nat} {x : α} (h : xs[i]? = some x) (y : α) :
    ∃ l₁ l₂, xs = l₁ ++ x :: l₂ ∧ xs.set i y = l₁ ++ y :: l₂ := by
  obtain ⟨hi, hx⟩ := List.getElem?_eq_some_iff.mp h
  obtain ⟨l₁, l₂, hxs, _, hset⟩ : ∃ l₁ l₂, xs = l₁ ++ xs[i] :: l₂ ∧ l₁.length = i ∧ xs.set i y = l₁ ++ y :: l₂ :=
    List.exists_of_set hi
  rw [hx] at hxs
  exact ⟨l₁, l₂, hxs, hset⟩

theorem contents_fill {xs : List (Option α)} {i : Nat} (h : xs[i]? = some none) (x : α) :
    contents (xs.set i (some x)) = x ::ₘ contents xs := by
  obtain ⟨l₁, l₂, hxs, hset⟩ := split_at h (some x)
  rw [hset, contents_append, contents_cons_some, Multiset.add_cons, hxs, contents_append, contents_cons_none]

theorem contents_empty [DecidableEq α] {xs : List (Option α)} {i : Nat} {x : α} (h : xs[i]? = some (some x)) :
    contents (xs.set i none) = (contents xs).erase x := by
  obtain ⟨l₁, l₂, hxs, hset⟩ := split_at h none
  rw [hset, contents_append, contents_cons_none, hxs, contents_append, contents_cons_some, Multiset.add_cons,
    Multiset.erase_cons_head]

theorem mem_contents {xs : List (Option α)} {x : α} : x ∈ contents xs ↔ some x ∈ xs := by
  rw [contents, Multiset.mem_coe, List.mem_filterMap]
  exact ⟨fun ⟨o, ho, hx⟩ => hx ▸ ho, fun h => ⟨_, h, rfl⟩⟩

/-- An entry taken out of a list, whichever of its kind it is. -/
theorem coe_eraseIdx [DecidableEq α] {xs : List α} {i : Nat} {x : α} (h : xs[i]? = some x) :
    Multiset.ofList (xs.eraseIdx i) = (Multiset.ofList xs).erase x := by
  obtain ⟨hi, hx⟩ := List.getElem?_eq_some_iff.mp h
  have hperm : Multiset.ofList (xs[i] :: xs.eraseIdx i) = Multiset.ofList xs :=
    Multiset.coe_eq_coe.mpr (List.getElem_cons_eraseIdx_perm hi)
  rw [← hperm, ← Multiset.cons_coe, hx, Multiset.erase_cons_head]

end DpuBackend.Lib
