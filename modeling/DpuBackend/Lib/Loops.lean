import Mathlib.Data.List.Basic
import Mathlib.Logic.Function.Basic

/-
  Rules for loops — folds over a list of indices.

  A `for` loop over indices is `List.foldl` of its body; `List.foldlRecOn`
  carries an invariant through it. `foldl_reach` is the rule for a fact that one
  iteration establishes and none undoes: it holds after the loop, wherever in
  the list the iteration stands and however often. `foldl_range_inv` and
  `foldl_range_rel` are for counted loops, whose invariant, or whose relation to
  another loop, speaks of the number of iterations done.
-/

namespace DpuBackend.Lib

variable {σ τ ι : Type}

/-- Under the invariant `I`, iteration `i` establishes `P` and every iteration
keeps it: a loop that runs iteration `i` establishes `P`. -/
theorem foldl_reach {f : σ → ι → σ} {I P : σ → Prop} {l : List ι} {s : σ} {i : ι} (hi : i ∈ l)
    (hinv : ∀ s, ∀ j ∈ l, I s → I (f s j))
    (hest : ∀ s, I s → P (f s i))
    (hkeep : ∀ s, ∀ j ∈ l, I s → P s → P (f s j))
    (h : I s) : P (l.foldl f s) := by
  obtain ⟨l₁, l₂, rfl⟩ := List.append_of_mem hi
  rw [List.foldl_append, List.foldl_cons]
  have hbefore : I (l₁.foldl f s) :=
    List.foldlRecOn l₁ f h fun s hs j hj => hinv s j (List.mem_append_left _ hj) hs
  -- from iteration `i` on, both the invariant and `P` are carried along
  have hafter : I (l₂.foldl f (f (l₁.foldl f s) i)) ∧ P (l₂.foldl f (f (l₁.foldl f s) i)) := by
    refine List.foldlRecOn l₂ f (motive := fun s => I s ∧ P s) ⟨hinv _ i hi hbefore, hest _ hbefore⟩ ?_
    intro s' hs j hj
    have hj' : j ∈ l₁ ++ i :: l₂ := List.mem_append_right _ (List.mem_cons_of_mem i hj)
    exact ⟨hinv s' j hj' hs.1, hkeep s' j hj' hs.1 hs.2⟩
  exact hafter.2

/-- A counted loop and an invariant indexed by the iterations done. -/
theorem foldl_range_inv {f : σ → Nat → σ} {P : Nat → σ → Prop} {s : σ} :
    ∀ n, P 0 s → (∀ i < n, ∀ s, P i s → P (i + 1) (f s i)) → P n ((List.range n).foldl f s)
  | 0, h, _ => h
  | n + 1, h, hstep => by
    rw [List.range_succ, List.foldl_append]
    exact hstep n (Nat.lt_succ_self n) _
      (foldl_range_inv n h fun i hi => hstep i (Nat.lt_succ_of_lt hi))

/-- Two counted loops in lock step. -/
theorem foldl_range_rel {f : σ → Nat → σ} {g : τ → Nat → τ} {R : Nat → σ → τ → Prop} {s : σ} {t : τ} :
    ∀ n, R 0 s t → (∀ i < n, ∀ s t, R i s t → R (i + 1) (f s i) (g t i)) →
      R n ((List.range n).foldl f s) ((List.range n).foldl g t)
  | 0, h, _ => h
  | n + 1, h, hstep => by
    rw [List.range_succ, List.foldl_append, List.foldl_append]
    exact hstep n (Nat.lt_succ_self n) _ _
      (foldl_range_rel n h fun i hi => hstep i (Nat.lt_succ_of_lt hi))

/-- The rule `foldl_reach` for a counted loop with an indexed invariant. -/
theorem foldl_range_reach {f : σ → Nat → σ} {J : Nat → σ → Prop} {P : σ → Prop} {s : σ} {n i : Nat} (hi : i < n)
    (h : J 0 s)
    (hinv : ∀ j < n, ∀ s, J j s → J (j + 1) (f s j))
    (hest : ∀ s, J i s → P (f s i))
    (hkeep : ∀ j < n, ∀ s, J j s → P s → P (f s j)) : P ((List.range n).foldl f s) := by
  have hall : J n ((List.range n).foldl f s) ∧ (i < n → P ((List.range n).foldl f s)) := by
    refine foldl_range_inv (P := fun m s => J m s ∧ (i < m → P s)) n ⟨h, fun hlt => absurd hlt (Nat.not_lt_zero i)⟩ ?_
    intro j hj s ⟨hJ, hP⟩
    refine ⟨hinv j hj s hJ, fun hlt => ?_⟩
    rcases Nat.lt_succ_iff_lt_or_eq.mp hlt with hij | rfl
    · exact hkeep j hj s hJ (hP hij)
    · exact hest s hJ
  exact hall.2 hi

/-- Two loops over the same list in lock step, in a relation that speaks of the elements
still to come. -/
theorem foldl_rel_rest {f : σ → ι → σ} {g : τ → ι → τ} {R : List ι → σ → τ → Prop}
    (hstep : ∀ i rest s t, R (i :: rest) s t → R rest (f s i) (g t i)) (l rest : List ι) {s : σ} {t : τ}
    (h : R (l ++ rest) s t) : R rest (l.foldl f s) (l.foldl g t) := by
  induction l generalizing s t with
  | nil => exact h
  | cons i l ih => exact ih (hstep i (l ++ rest) s t h)

/-! ## Loops that fill an array -/

/-- Each iteration sets the entry of its number, from what the entry held. -/
theorem foldl_range_update {β : Type} (F : Nat → β → β) (g : Nat → β) (n j : Nat) :
    ((List.range n).foldl (fun g i => Function.update g i (F i (g i))) g) j = if j < n then F j (g j) else g j := by
  induction n with
  | zero => rfl
  | succ n ih =>
    rw [List.range_succ, List.foldl_append, List.foldl_cons, List.foldl_nil]
    by_cases hj : j = n
    · -- the entry of the last iteration was not set before
      subst hj
      rw [Function.update_self, ih, if_neg (Nat.lt_irrefl j), if_pos (Nat.lt_succ_self j)]
    · rw [Function.update_of_ne hj, ih]
      by_cases hlt : j < n
      · rw [if_pos hlt, if_pos (Nat.lt_succ_of_lt hlt)]
      · rw [if_neg hlt, if_neg (by omega)]

/-! ## Loops that may fail -/

section Fail

variable {ε : Type} {f : σ → ι → Except ε σ} {P : σ → Prop} {l : List ι} {s s' : σ}

/-- An invariant of the iterations that succeed, in a loop that does. -/
theorem foldlM_inv (hstep : ∀ t, ∀ i ∈ l, ∀ t', P t → f t i = .ok t' → P t') (h : P s)
    (hrun : l.foldlM f s = .ok s') : P s' := by
  induction l generalizing s with
  | nil =>
    obtain rfl := Except.ok.inj hrun
    exact h
  | cons i l ih =>
    rw [List.foldlM_cons] at hrun
    cases hi : f s i with
    | error e =>
      rw [hi] at hrun
      cases hrun
    | ok t =>
      rw [hi] at hrun
      exact ih (fun t j hj => hstep t j (List.mem_cons_of_mem i hj)) (hstep s i List.mem_cons_self t h hi) hrun

/-- A counted loop that succeeds. -/
theorem foldlM_range_inv {f : σ → Nat → Except ε σ} {P : Nat → σ → Prop} : ∀ (n : Nat) {s s' : σ},
    (∀ i < n, ∀ t t', P i t → f t i = .ok t' → P (i + 1) t') → P 0 s → (List.range n).foldlM f s = .ok s' → P n s'
  | 0, _, _, _, h, hrun => by
    obtain rfl := Except.ok.inj hrun
    exact h
  | n + 1, s, s', hstep, h, hrun => by
    rw [List.range_succ, List.foldlM_append] at hrun
    cases hfirst : (List.range n).foldlM f s with
    | error e =>
      rw [hfirst] at hrun
      cases hrun
    | ok t =>
      have ht := foldlM_range_inv n (fun i hi => hstep i (Nat.lt_succ_of_lt hi)) h hfirst
      rw [hfirst] at hrun
      change [n].foldlM f t = .ok s' at hrun
      rw [List.foldlM_cons] at hrun
      cases hlast : f t n with
      | error e =>
        rw [hlast] at hrun
        cases hrun
      | ok t' =>
        rw [hlast] at hrun
        obtain rfl := Except.ok.inj hrun
        exact hstep n (Nat.lt_succ_self n) t t' ht hlast

/-- In a loop that succeeds each iteration has succeeded. -/
theorem foldlM_each (hstep : ∀ t, ∀ i ∈ l, ∀ t', P t → f t i = .ok t' → P t') (h : P s)
    (hrun : l.foldlM f s = .ok s') {i : ι} (hi : i ∈ l) : ∃ t t', P t ∧ f t i = .ok t' := by
  induction l generalizing s with
  | nil => cases hi
  | cons j l ih =>
    rw [List.foldlM_cons] at hrun
    cases hj : f s j with
    | error e =>
      rw [hj] at hrun
      cases hrun
    | ok t =>
      rw [hj] at hrun
      rcases List.mem_cons.mp hi with rfl | hi
      · exact ⟨s, t, h, hj⟩
      · exact ih (fun t j hj => hstep t j (List.mem_cons_of_mem _ hj)) (hstep s j List.mem_cons_self t h hj) hrun hi

/-- Iterations that succeed and keep an invariant: the loop does. -/
theorem foldlM_total (hstep : ∀ t, ∀ i ∈ l, P t → ∃ t', f t i = .ok t' ∧ P t') (h : P s) :
    ∃ s', l.foldlM f s = .ok s' ∧ P s' := by
  induction l generalizing s with
  | nil => exact ⟨s, rfl, h⟩
  | cons i l ih =>
    obtain ⟨t, hf, ht⟩ := hstep s i List.mem_cons_self h
    rw [List.foldlM_cons, hf]
    exact ih (fun t j hj => hstep t j (List.mem_cons_of_mem i hj)) ht

/-- A loop none of whose iterations changes the state. -/
theorem foldlM_same (h : ∀ i ∈ l, f s i = .ok s) : l.foldlM f s = .ok s := by
  induction l with
  | nil => rfl
  | cons i l ih =>
    rw [List.foldlM_cons, h i List.mem_cons_self]
    exact ih fun j hj => h j (List.mem_cons_of_mem i hj)

end Fail

/-! ## Loops in pieces -/

theorem foldl_range_add (f : σ → Nat → σ) (s : σ) (n k : Nat) :
    (List.range k).foldl (fun s j => f s (n + j)) ((List.range n).foldl f s) = (List.range (n + k)).foldl f s := by
  rw [List.range_add, List.foldl_append, List.foldl_map]

/-- Shares that begin where the one before ends. -/
theorem flatMap_shares {start count : Nat → Nat} (hzero : start 0 = 0) (hsucc : ∀ t, start (t + 1) = start t + count t)
    (n : Nat) : (List.range n).flatMap (fun t => List.range' (start t) (count t)) = List.range (start n) := by
  induction n with
  | zero =>
    rw [hzero]
    rfl
  | succ n ih =>
    rw [List.range_succ, List.flatMap_append, ih, List.flatMap_singleton, hsucc, List.range_eq_range',
      List.range_eq_range', ← List.range'_append_1, Nat.zero_add]

end DpuBackend.Lib
