import Mathlib.Data.List.Basic

/-
  Triples for stateful programs which may stop with an error.

  A program is an `EStateM ε σ α`: it keeps the state it had when it stopped.
  `Triple P x Q E` gives a postcondition for each of the two ways to end, and
  the rules follow the constructs the programs are written with: sequencing,
  reading and changing the state, stopping, a branch, a loop over a list.
-/

namespace DpuBackend.Lib

universe u

variable {ε σ α β : Type u}

/-- Run from a state of `P`, the program ends with a result in a state of `Q`, or
with an error in a state of `E`. -/
def Triple (P : σ → Prop) (x : EStateM ε σ α) (Q : α → σ → Prop) (E : ε → σ → Prop) : Prop :=
  ∀ s, P s → match x.run s with
    | .ok a s' => Q a s'
    | .error e s' => E e s'

/-- `I` holds again however the program ends. -/
def Keeps (I : σ → Prop) (x : EStateM ε σ α) : Prop := Triple I x (fun _ => I) fun _ => I

/-- The state a program ends in. -/
def finalState (x : EStateM ε σ α) (s : σ) : σ :=
  match x.run s with
  | .ok _ s' => s'
  | .error _ s' => s'

theorem Triple.finalState {P I : σ → Prop} {x : EStateM ε σ α} (h : Triple P x (fun _ => I) fun _ => I) {s : σ}
    (hs : P s) : I (finalState x s) := by
  have hx := h s hs
  unfold Lib.finalState
  split at hx
  all_goals exact hx

theorem Keeps.finalState {I : σ → Prop} {x : EStateM ε σ α} (h : Keeps I x) {s : σ} (hs : I s) :
    I (finalState x s) :=
  Triple.finalState h hs

variable {P P' : σ → Prop} {Q Q' : α → σ → Prop} {E E' : ε → σ → Prop} {x : EStateM ε σ α}

theorem Triple.weaken (h : Triple P x Q E) (hP : ∀ s, P' s → P s) (hQ : ∀ a s, Q a s → Q' a s)
    (hE : ∀ e s, E e s → E' e s) : Triple P' x Q' E' := by
  intro s hs
  have hx := h s (hP s hs)
  split at hx
  · exact hQ _ _ hx
  · exact hE _ _ hx

theorem Triple.pre (h : Triple P x Q E) (hP : ∀ s, P' s → P s) : Triple P' x Q E :=
  h.weaken hP (fun _ _ hq => hq) fun _ _ he => he

theorem Triple.post (h : Triple P x Q E) (hQ : ∀ a s, Q a s → Q' a s) : Triple P x Q' E :=
  h.weaken (fun _ hp => hp) hQ fun _ _ he => he

/-- How a program that starts in `s` ends. -/
theorem Triple.run {s : σ} (h : Triple (fun t => t = s) x Q E) :
    (∃ a s', x.run s = .ok a s' ∧ Q a s') ∨ ∃ e s', x.run s = .error e s' ∧ E e s' := by
  have hx := h s rfl
  cases hr : x.run s with
  | ok a s' =>
    rw [hr] at hx
    exact .inl ⟨a, s', rfl, hx⟩
  | error e s' =>
    rw [hr] at hx
    exact .inr ⟨e, s', rfl, hx⟩

theorem triple_pure {a : α} (h : ∀ s, P s → Q a s) : Triple P (pure a) Q E :=
  fun s hs => h s hs

theorem triple_throw {e : ε} (h : ∀ s, P s → E e s) : Triple P (throw e : EStateM ε σ α) Q E :=
  fun s hs => h s hs

theorem triple_bind {f : α → EStateM ε σ β} {R : α → σ → Prop} {Q : β → σ → Prop} (hx : Triple P x R E)
    (hf : ∀ a, Triple (R a) (f a) Q E) : Triple P (x >>= f) Q E := by
  intro s hs
  have h := hx s hs
  rw [EStateM.run_bind]
  cases hr : x.run s with
  | ok a s' =>
    rw [hr] at h
    exact hf a s' h
  | error e s' =>
    rw [hr] at h
    exact h

/-- Reading the state: what follows runs from the state that was read. -/
theorem triple_get {f : σ → EStateM ε σ β} {Q : β → σ → Prop}
    (h : ∀ s, P s → Triple (fun s' => s' = s) (f s) Q E) : Triple P (get >>= f) Q E :=
  fun s hs => h s hs s rfl

theorem triple_modify {g : σ → σ} {Q : PUnit → σ → Prop} (h : ∀ s, P s → Q ⟨⟩ (g s)) :
    Triple P (modify g : EStateM ε σ PUnit) Q E :=
  fun s hs => h s hs

theorem triple_ite {c : Prop} [Decidable c] {y : EStateM ε σ α} (hx : c → Triple P x Q E)
    (hy : ¬c → Triple P y Q E) : Triple P (if c then x else y) Q E := by
  split
  · exact hx ‹_›
  · exact hy ‹_›

/-- The initial state may be named. -/
theorem triple_each (h : ∀ s, P s → Triple (fun t => t = s) x Q E) : Triple P x Q E :=
  fun s hs => h s hs s rfl

/-- A loop: `I l` holds when the elements of `l` are still to come. -/
theorem triple_forM {ι : Type*} {l : List ι} {f : ι → EStateM ε σ PUnit} {I : List ι → σ → Prop}
    (h : ∀ i rest, i ∈ l → Triple (I (i :: rest)) (f i) (fun _ => I rest) E) :
    Triple (I l) (l.forM f) (fun _ => I []) E := by
  induction l with
  | nil => exact triple_pure fun _ hs => hs
  | cons i rest ih =>
    show Triple (I (i :: rest)) (f i >>= fun _ => rest.forM f) _ E
    refine triple_bind (h i rest (List.mem_cons_self ..)) fun _ => ih fun j rest' hj => ?_
    exact h j rest' (List.mem_cons_of_mem _ hj)

/-- A loop that counts. -/
theorem triple_forM_range {n : Nat} {f : Nat → EStateM ε σ PUnit} {I : Nat → σ → Prop}
    (h : ∀ k < n, Triple (I k) (f k) (fun _ => I (k + 1)) E) :
    Triple (I 0) ((List.range n).forM f) (fun _ => I n) E := by
  have hfrom : ∀ m k, k + m = n → Triple (I k) ((List.range' k m).forM f) (fun _ => I n) E := by
    intro m
    induction m with
    | zero =>
      intro k hk
      rw [Nat.add_zero] at hk
      rw [hk]
      exact triple_pure fun _ hs => hs
    | succ m ih =>
      intro k hk
      exact triple_bind (h k (by omega)) fun _ => ih (k + 1) (by omega)
  rw [List.range_eq_range']
  exact hfrom n 0 (Nat.zero_add n)

theorem Keeps.bind {I : σ → Prop} {f : α → EStateM ε σ β} (hx : Keeps I x) (hf : ∀ a, Keeps I (f a)) :
    Keeps I (x >>= f) :=
  triple_bind hx hf

theorem keeps_pure {I : σ → Prop} (a : α) : Keeps I (pure a : EStateM ε σ α) :=
  triple_pure fun _ hs => hs

theorem keeps_forM {ι : Type*} {I : σ → Prop} {l : List ι} {f : ι → EStateM ε σ PUnit}
    (h : ∀ i ∈ l, Keeps I (f i)) : Keeps I (l.forM f) :=
  triple_forM (I := fun _ => I) fun i _ hi => h i hi

end DpuBackend.Lib
