import DpuBackend.Lib.Hoare

/-
  Programs whose steps fail as given.

  A program goes through a list of steps, and `fails` says for each of them
  whether it fails. `Takes fails l P x Q E` states how the program `x` ends: at
  the first step of `l` that fails, with an error in a state of `E`, and if there
  is none with a result in a state of `Q`. The rules follow the constructs of the
  program and put the lists together, so that the list of a whole program is
  found along with the proof. `Takes.run` reads a run off it.
-/

namespace DpuBackend.Lib

universe u

variable {ε σ α β : Type u} {ι : Type*} {fails : ι → Bool}

def Takes (fails : ι → Bool) (l : List ι) (P : σ → Prop) (x : EStateM ε σ α) (Q : α → σ → Prop)
    (E : ι → σ → Prop) : Prop :=
  ∀ s, P s → match x.run s with
    | .ok a s' => l.find? fails = none ∧ Q a s'
    | .error _ s' => ∃ i, l.find? fails = some i ∧ E i s'

variable {P P' : σ → Prop} {Q Q' : α → σ → Prop} {E E' : ι → σ → Prop} {x : EStateM ε σ α} {l : List ι}

/-- How a run ends, from the first step that fails. -/
theorem Takes.run (h : Takes fails l P x Q E) {s : σ} (hs : P s) :
    match l.find? fails with
    | none => ∃ a s', x.run s = .ok a s' ∧ Q a s'
    | some i => ∃ e s', x.run s = .error e s' ∧ E i s' := by
  have hx := h s hs
  cases hr : x.run s with
  | ok a s' =>
    rw [hr] at hx
    rw [hx.1]
    exact ⟨a, s', rfl, hx.2⟩
  | error e s' =>
    rw [hr] at hx
    obtain ⟨i, hi, he⟩ := hx
    rw [hi]
    exact ⟨e, s', rfl, he⟩

theorem Takes.weaken (h : Takes fails l P x Q E) (hP : ∀ s, P' s → P s) (hQ : ∀ a s, Q a s → Q' a s)
    (hE : ∀ i ∈ l, ∀ s, E i s → E' i s) : Takes fails l P' x Q' E' := by
  intro s hs
  have hx := h s (hP s hs)
  cases hr : x.run s with
  | ok a s' =>
    rw [hr] at hx
    exact ⟨hx.1, hQ _ _ hx.2⟩
  | error e s' =>
    rw [hr] at hx
    obtain ⟨i, hi, he⟩ := hx
    exact ⟨i, hi, hE i (List.mem_of_find?_eq_some hi) _ he⟩

theorem Takes.pre (h : Takes fails l P x Q E) (hP : ∀ s, P' s → P s) : Takes fails l P' x Q E :=
  h.weaken hP (fun _ _ hq => hq) fun _ _ _ he => he

theorem Takes.post (h : Takes fails l P x Q E) (hQ : ∀ a s, Q a s → Q' a s) : Takes fails l P x Q' E :=
  h.weaken (fun _ hp => hp) hQ fun _ _ _ he => he

theorem Takes.steps {l' : List ι} (h : Takes fails l P x Q E) (hl : l' = l) : Takes fails l' P x Q E := by
  rw [hl]
  exact h

theorem takes_pure {a : α} (h : ∀ s, P s → Q a s) : Takes fails [] P (pure a : EStateM ε σ α) Q E :=
  fun s hs => ⟨rfl, h s hs⟩

theorem takes_modify {g : σ → σ} {Q : PUnit → σ → Prop} (h : ∀ s, P s → Q ⟨⟩ (g s)) :
    Takes fails [] P (modify g : EStateM ε σ PUnit) Q E :=
  fun s hs => ⟨rfl, h s hs⟩

/-- Reading the state: what follows runs from the state that was read. -/
theorem takes_get {f : σ → EStateM ε σ β} {Q : β → σ → Prop}
    (h : ∀ s, P s → Takes fails l (fun s' => s' = s) (f s) Q E) : Takes fails l P (get >>= f) Q E :=
  fun s hs => h s hs s rfl

/-- What is known of a value that was returned may be used for what follows. -/
theorem takes_assume {p : Prop} (h : p → Takes fails l P x Q E) : Takes fails l (fun s => p ∧ P s) x Q E :=
  fun s hs => h hs.1 s hs.2

/-- A step that leaves the state as it is. -/
theorem takes_step {i : ι} {x : EStateM ε σ α} (hok : fails i = false → ∀ s, P s → ∃ a, x.run s = .ok a s ∧ Q a s)
    (herror : fails i = true → ∀ s, P s → ∃ e, x.run s = .error e s ∧ E i s) : Takes fails [i] P x Q E := by
  intro s hs
  cases hi : fails i with
  | false =>
    obtain ⟨a, hr, hq⟩ := hok hi s hs
    rw [hr]
    exact ⟨by rw [List.find?_cons_of_neg (by rw [hi]; exact Bool.false_ne_true), List.find?_nil], hq⟩
  | true =>
    obtain ⟨e, hr, he⟩ := herror hi s hs
    rw [hr]
    exact ⟨i, List.find?_cons_of_pos hi, he⟩

theorem takes_bind {l' : List ι} {f : α → EStateM ε σ β} {R : α → σ → Prop} {Q : β → σ → Prop}
    (hx : Takes fails l P x R E) (hf : ∀ a, Takes fails l' (R a) (f a) Q E) :
    Takes fails (l ++ l') P (x >>= f) Q E := by
  intro s hs
  have h := hx s hs
  rw [EStateM.run_bind, List.find?_append]
  cases hr : x.run s with
  | ok a s' =>
    rw [hr] at h
    rw [h.1, Option.none_or]
    exact hf a s' h.2
  | error e s' =>
    rw [hr] at h
    obtain ⟨i, hi, he⟩ := h
    exact ⟨i, by rw [hi, Option.some_or], he⟩

theorem takes_ite {c : Prop} [Decidable c] {y : EStateM ε σ α} {l' : List ι} (hx : c → Takes fails l P x Q E)
    (hy : ¬c → Takes fails l' P y Q E) : Takes fails (if c then l else l') P (if c then x else y) Q E := by
  split
  · exact hx ‹_›
  · exact hy ‹_›

/-- A loop over the first numbers: `I k` holds before round `k`. -/
theorem takes_forM_range {n : Nat} {steps : Nat → List ι} {f : Nat → EStateM ε σ PUnit} {I : Nat → σ → Prop}
    (h : ∀ k < n, Takes fails (steps k) (I k) (f k) (fun _ => I (k + 1)) E) :
    Takes fails ((List.range n).flatMap steps) (I 0) ((List.range n).forM f) (fun _ => I n) E := by
  have hfrom : ∀ m k, k + m = n →
      Takes fails ((List.range' k m).flatMap steps) (I k) ((List.range' k m).forM f) (fun _ => I n) E := by
    intro m
    induction m with
    | zero =>
      intro k hk
      rw [Nat.add_zero] at hk
      rw [← hk]
      exact takes_pure fun _ hs => hs
    | succ m ih =>
      intro k hk
      rw [List.range'_succ, List.flatMap_cons]
      show Takes fails _ (I k) (f k >>= fun _ => (List.range' (k + 1) m).forM f) _ E
      exact takes_bind (h k (by omega)) fun _ => ih (k + 1) (by omega)
  rw [List.range_eq_range']
  exact hfrom n 0 (Nat.zero_add n)

end DpuBackend.Lib
