import Mathlib.Data.List.Basic
import Mathlib.Logic.Function.Basic
import Mathlib.Tactic.Common

/-
  Counted references.

  A store has a count for each object that is allocated and nothing for the
  others. `release` counts down and frees at zero; it has no result on an object
  that is not there or whose count would be negative. `Balanced` says that the
  counts are the numbers of references, `refs`, that every object with a
  reference is there, and that every object there has a reference or is `held`,
  as one is that has been created and not been handed out.

  References are optional (`none` is a null reference) and stand in lists:
  `releaseAll` drops a list of them, `Store.redirect` points one of them elsewhere.
-/

namespace DpuBackend.Lib

variable {ι : Type}

abbrev Store (ι : Type) := ι → Option Int

structure Balanced (s : Store ι) (refs : ι → Nat) (held : ι → Prop) : Prop where
  count : ∀ i n, s i = some n → n = refs i
  live : ∀ i, 0 < refs i → s i ≠ none
  used : ∀ i, s i ≠ none → held i ∨ 0 < refs i

variable {s : Store ι} {refs refs' : ι → Nat} {held : ι → Prop} {i : ι}

theorem Balanced.congr (h : Balanced s refs held) (hrefs : ∀ j, refs' j = refs j) : Balanced s refs' held := by
  have heq : refs' = refs := funext hrefs
  rwa [heq]

theorem Balanced.lookup (h : Balanced s refs held) (hi : s i ≠ none) : s i = some (refs i : Int) := by
  obtain ⟨n, hn⟩ := Option.ne_none_iff_exists'.1 hi
  rw [hn, h.count i n hn]

/-- An object with a reference need not be held. -/
theorem Balanced.handOut (h : Balanced s refs fun j => held j ∨ j = i) (hi : 0 < refs i) : Balanced s refs held := by
  refine ⟨h.count, h.live, fun j hj => ?_⟩
  rcases h.used j hj with (hheld | rfl) | hpos
  · exact .inl hheld
  · exact .inr hi
  · exact .inr hpos

variable [DecidableEq ι]

def Store.release (s : Store ι) (i : ι) : Option (Store ι) :=
  match s i with
  | none => none
  | some n =>
    if n - 1 < 0 then none
    else if n - 1 = 0 then some (Function.update s i none)
    else some (Function.update s i (some (n - 1)))

def Store.take (s : Store ι) (i : ι) : Option (Store ι) :=
  match s i with
  | none => none
  | some n => some (Function.update s i (some (n + 1)))

/-- Nothing is done for a null reference. -/
def Store.releaseRef (s : Store ι) (r : Option ι) : Option (Store ι) :=
  match r with
  | none => some s
  | some i => s.release i

def Store.releaseAll (s : Store ι) : List (Option ι) → Option (Store ι)
  | [] => some s
  | r :: rs => (s.releaseRef r).bind fun s => s.releaseAll rs

/-- A reference is dropped and then points to `i`. -/
def Store.redirect (s : Store ι) (r : Option ι) (i : ι) : Option (Store ι) :=
  (s.releaseRef r).bind fun s => s.take i

def Store.redirectAll (s : Store ι) (i : ι) : List (Option ι) → Option (Store ι)
  | [] => some s
  | r :: rs => (s.redirect r i).bind fun s => s.redirectAll i rs

/-- A reference to `i` is dropped. -/
theorem Balanced.release (h : Balanced s refs held) (hrefs : ∀ j, refs' j + (if j = i then 1 else 0) = refs j) :
    ∃ s', s.release i = some s' ∧ Balanced s' refs' held ∧ ∀ j, j ≠ i → s' j = s j := by
  have hi := hrefs i
  rw [if_pos rfl] at hi
  have hother : ∀ j, j ≠ i → refs' j = refs j := by
    intro j hj
    have := hrefs j
    rwa [if_neg hj, Nat.add_zero] at this
  have hlookup := h.lookup (h.live i (by omega))
  unfold Store.release
  rw [hlookup]
  dsimp only
  rw [if_neg (by omega)]
  by_cases hzero : (refs i : Int) - 1 = 0
  · rw [if_pos hzero]
    refine ⟨_, rfl, ⟨fun j n hn => ?_, fun j hj => ?_, fun j hj => ?_⟩, fun j hj => Function.update_of_ne hj ..⟩
    · by_cases hji : j = i
      · subst hji
        rw [Function.update_self] at hn
        cases hn
      · rw [Function.update_of_ne hji] at hn
        rw [hother j hji]
        exact h.count j n hn
    · have hji : j ≠ i := fun hji => by
        subst hji
        omega
      rw [Function.update_of_ne hji]
      rw [hother j hji] at hj
      exact h.live j hj
    · have hji : j ≠ i := fun hji => by
        subst hji
        exact hj (Function.update_self ..)
      rw [Function.update_of_ne hji] at hj
      rw [hother j hji]
      exact h.used j hj
  · rw [if_neg hzero]
    refine ⟨_, rfl, ⟨fun j n hn => ?_, fun j hj => ?_, fun j hj => ?_⟩, fun j hj => Function.update_of_ne hj ..⟩
    · by_cases hji : j = i
      · subst hji
        rw [Function.update_self] at hn
        have := Option.some.inj hn
        omega
      · rw [Function.update_of_ne hji] at hn
        rw [hother j hji]
        exact h.count j n hn
    · by_cases hji : j = i
      · subst hji
        rw [Function.update_self]
        exact Option.some_ne_none _
      · rw [Function.update_of_ne hji]
        rw [hother j hji] at hj
        exact h.live j hj
    · by_cases hji : j = i
      · subst hji
        right
        omega
      · rw [Function.update_of_ne hji] at hj
        rw [hother j hji]
        exact h.used j hj

/-- A reference to `i`, which is there, is made. -/
theorem Balanced.take (h : Balanced s refs held) (hi : s i ≠ none)
    (hrefs : ∀ j, refs' j = refs j + (if j = i then 1 else 0)) :
    ∃ s', s.take i = some s' ∧ Balanced s' refs' held ∧ ∀ j, s' j = none ↔ s j = none := by
  have hother : ∀ j, j ≠ i → refs' j = refs j := by
    intro j hj
    rw [hrefs j, if_neg hj, Nat.add_zero]
  unfold Store.take
  rw [h.lookup hi]
  refine ⟨_, rfl, ⟨fun j n hn => ?_, fun j hj => ?_, fun j hj => ?_⟩, fun j => ?_⟩
  · by_cases hji : j = i
    · subst hji
      rw [Function.update_self] at hn
      have := Option.some.inj hn
      have hj := hrefs j
      rw [if_pos rfl] at hj
      omega
    · rw [Function.update_of_ne hji] at hn
      rw [hother j hji]
      exact h.count j n hn
  · by_cases hji : j = i
    · subst hji
      rw [Function.update_self]
      exact Option.some_ne_none _
    · rw [Function.update_of_ne hji]
      rw [hother j hji] at hj
      exact h.live j hj
  · by_cases hji : j = i
    · subst hji
      right
      rw [hrefs j, if_pos rfl]
      exact Nat.succ_pos _
    · rw [Function.update_of_ne hji] at hj
      rw [hother j hji]
      exact h.used j hj
  · by_cases hji : j = i
    · subst hji
      rw [Function.update_self]
      exact ⟨fun hnone => absurd hnone (Option.some_ne_none _), fun hnone => absurd hnone hi⟩
    · rw [Function.update_of_ne hji]

/-- A new object has no reference and is held. -/
theorem Balanced.create (h : Balanced s refs held) (hi : s i = none) :
    Balanced (Function.update s i (some 0)) refs fun j => held j ∨ j = i := by
  have hzero : refs i = 0 := by
    by_contra hpos
    exact h.live i (Nat.pos_of_ne_zero hpos) hi
  refine ⟨fun j n hn => ?_, fun j hj => ?_, fun j hj => ?_⟩
  · by_cases hji : j = i
    · subst hji
      rw [Function.update_self] at hn
      rw [hzero, ← Option.some.inj hn]
      rfl
    · rw [Function.update_of_ne hji] at hn
      exact h.count j n hn
  · have hji : j ≠ i := fun hji => by
      subst hji
      omega
    rw [Function.update_of_ne hji]
    exact h.live j hj
  · by_cases hji : j = i
    · exact .inl (.inr hji)
    · rw [Function.update_of_ne hji] at hj
      rcases h.used j hj with hheld | hpos
      · exact .inl (.inl hheld)
      · exact .inr hpos

theorem Balanced.releaseRef (h : Balanced s refs held) {r : Option ι}
    (hrefs : ∀ j, refs' j + (if r = some j then 1 else 0) = refs j) :
    ∃ s', s.releaseRef r = some s' ∧ Balanced s' refs' held ∧ ∀ j, r ≠ some j → s' j = s j := by
  cases r with
  | none =>
    refine ⟨s, rfl, h.congr fun j => ?_, fun _ _ => rfl⟩
    have := hrefs j
    rwa [if_neg (Option.some_ne_none j).symm, Nat.add_zero] at this
  | some i =>
    have hrefs' : ∀ j, refs' j + (if j = i then 1 else 0) = refs j := by
      intro j
      rw [← hrefs j]
      simp only [Option.some.injEq, eq_comm]
    obtain ⟨s', hrun, hbalanced, hother⟩ := h.release hrefs'
    refine ⟨s', hrun, hbalanced, fun j hj => hother j fun hji => hj ?_⟩
    rw [hji]

/-- A list of references is dropped. -/
theorem Balanced.releaseAll {rs : List (Option ι)} (h : Balanced s refs held)
    (hrefs : ∀ j, refs' j + rs.count (some j) = refs j) :
    ∃ s', s.releaseAll rs = some s' ∧ Balanced s' refs' held := by
  induction rs generalizing s refs with
  | nil => exact ⟨s, rfl, h.congr fun j => by rw [← hrefs j]; rfl⟩
  | cons r rs ih =>
    have hfirst : ∀ j, (refs' j + rs.count (some j)) + (if r = some j then 1 else 0) = refs j := by
      intro j
      rw [← hrefs j, List.count_cons]
      simp only [beq_iff_eq]
      omega
    obtain ⟨s₁, hrun, hbalanced, _⟩ := h.releaseRef hfirst
    obtain ⟨s₂, hrun', hbalanced'⟩ := ih hbalanced fun _ => rfl
    refine ⟨s₂, ?_, hbalanced'⟩
    rw [Store.releaseAll, hrun, Option.bind_some, hrun']

/-- A reference is pointed to another object, which is there. -/
theorem Balanced.redirect (h : Balanced s refs held) {r : Option ι} (hr : r ≠ some i) (hi : s i ≠ none)
    (hrefs : ∀ j, refs' j + (if r = some j then 1 else 0) = refs j + (if j = i then 1 else 0)) :
    ∃ s', s.redirect r i = some s' ∧ Balanced s' refs' held ∧ s' i ≠ none := by
  have hless : ∀ j, (refs j - (if r = some j then 1 else 0)) + (if r = some j then 1 else 0) = refs j := by
    intro j
    have hj := hrefs j
    by_cases hji : j = i
    · subst hji
      rw [if_neg hr]
      omega
    · rw [if_neg hji] at hj
      omega
  obtain ⟨s₁, hrun, hbalanced, hother⟩ := h.releaseRef hless
  have hi₁ : s₁ i ≠ none := by rwa [hother i hr]
  have hmore : ∀ j, refs' j = (refs j - (if r = some j then 1 else 0)) + (if j = i then 1 else 0) := by
    intro j
    have hj := hrefs j
    have hj' := hless j
    omega
  obtain ⟨s₂, hrun', hbalanced', hsame⟩ := hbalanced.take hi₁ hmore
  refine ⟨s₂, ?_, hbalanced', fun hnone => hi₁ ((hsame i).1 hnone)⟩
  rw [Store.redirect, hrun, Option.bind_some, hrun']

/-- A list of references is pointed to another object, which is there. -/
theorem Balanced.redirectAll {rs : List (Option ι)} (h : Balanced s refs held) (hrs : some i ∉ rs) (hi : s i ≠ none)
    (hrefs : ∀ j, refs' j + rs.count (some j) = refs j + if j = i then rs.length else 0) :
    ∃ s', s.redirectAll i rs = some s' ∧ Balanced s' refs' held ∧ s' i ≠ none := by
  induction rs generalizing s refs with
  | nil =>
    refine ⟨s, rfl, h.congr fun j => ?_, hi⟩
    have hj := hrefs j
    rw [List.count_nil, Nat.add_zero, List.length_nil, ite_self, Nat.add_zero] at hj
    exact hj
  | cons r rs ih =>
    have hr : r ≠ some i := fun hr => hrs (List.mem_cons.2 (.inl hr.symm))
    have hrest : some i ∉ rs := fun hmem => hrs (List.mem_cons_of_mem _ hmem)
    have hcount : ∀ j, refs' j + rs.count (some j) + (if r = some j then 1 else 0) =
        refs j + (if j = i then 1 else 0) + if j = i then rs.length else 0 := by
      intro j
      have hj := hrefs j
      rw [List.count_cons, List.length_cons] at hj
      simp only [beq_iff_eq] at hj
      by_cases hji : j = i
      · rw [if_pos hji] at hj ⊢
        rw [if_pos hji]
        omega
      · rw [if_neg hji] at hj ⊢
        rw [if_neg hji]
        omega
    have hfirst : ∀ j, (refs j + (if j = i then 1 else 0) - (if r = some j then 1 else 0)) +
        (if r = some j then 1 else 0) = refs j + (if j = i then 1 else 0) := by
      intro j
      have hj := hcount j
      by_cases hji : j = i
      · subst hji
        rw [if_neg hr]
        omega
      · rw [if_neg hji, if_neg hji] at hj
        rw [if_neg hji]
        omega
    obtain ⟨s₁, hrun, hbalanced, hi₁⟩ := h.redirect hr hi hfirst
    have hlast : ∀ j, refs' j + rs.count (some j) =
        (refs j + (if j = i then 1 else 0) - (if r = some j then 1 else 0)) + if j = i then rs.length else 0 := by
      intro j
      have hj := hcount j
      have hj' := hfirst j
      omega
    obtain ⟨s₂, hrun', hbalanced', hi₂⟩ := ih hbalanced hrest hi₁ hlast
    refine ⟨s₂, ?_, hbalanced', hi₂⟩
    rw [Store.redirectAll, hrun, Option.bind_some, hrun']

end DpuBackend.Lib
