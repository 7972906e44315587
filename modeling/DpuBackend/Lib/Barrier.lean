import Mathlib.Algebra.BigOperators.Group.Finset.Basic
import Mathlib.Algebra.Order.BigOperators.Group.Finset
import Mathlib.Logic.Relation

/-
  Threads that share a state and wait for each other at barriers.

  A thread runs its actions one at a time, in any interleaving with the others.
  At a barrier of count `c` it waits until `c` threads do; these then go on
  together. What a family of threads does is read off the states in which no
  step is possible any more (`Settles`): threads that still have something to do
  there are deadlocked.

  What the threads do depends on the meaning of the actions they have before them
  (`Settles.congr`), and threads that end have run them all (`settles_marked`).
  `lockstep_settles` is the rule for threads that keep step: when the actions
  between two barriers do not disturb each other, every interleaving ends in the
  same state. `waits_balance` is the rule for threads that cannot finish together.
-/

namespace DpuBackend.Lib

universe u v w

inductive Instr (α : Type u) where
  | run (a : α)
  | wait (count : Nat)

/-- The state of the threads: what each has left to do, its own state, and the state
they share. -/
structure Threads (α : Type u) (S : Type v) (L : Type w) where
  program : Nat → List (Instr α)
  locals : Nat → L
  shared : S

variable {α : Type u} {S : Type v} {L : Type w} (exec : α → S → L → S × L) (n : Nat)

namespace Threads

def atBarrier (s : Threads α S L) (c t : Nat) : Bool :=
  match s.program t with
  | .wait d :: _ => d == c
  | _ => false

/-- The number of threads that wait at a barrier of count `c`. -/
def waiting (s : Threads α S L) (c : Nat) : Nat := (List.range n).countP (s.atBarrier c)

def release (s : Threads α S L) (c : Nat) : Threads α S L :=
  { s with program := fun t => if s.atBarrier c t then (s.program t).tail else s.program t }

def ran (s : Threads α S L) (t : Nat) (a : α) (rest : List (Instr α)) : Threads α S L where
  program := Function.update s.program t rest
  locals := Function.update s.locals t (exec a s.shared (s.locals t)).2
  shared := (exec a s.shared (s.locals t)).1

/-- Every thread is at its end. -/
def Done (s : Threads α S L) : Prop := ∀ t < n, s.program t = []

/-- How many steps are left. -/
def size (s : Threads α S L) : Nat := ∑ t ∈ Finset.range n, (s.program t).length

end Threads

/-- One step of `n` threads. -/
inductive Step : Threads α S L → Threads α S L → Prop where
  | run {s : Threads α S L} (t : Nat) (a : α) (rest : List (Instr α)) (ht : t < n)
      (h : s.program t = .run a :: rest) : Step s (s.ran exec t a rest)
  | release {s : Threads α S L} (c : Nat) (hc : 0 < c) (h : s.waiting n c = c) : Step s (s.release c)

def Reach : Threads α S L → Threads α S L → Prop := Relation.ReflTransGen (Step exec n)

def Stuck (s : Threads α S L) : Prop := ∀ s', ¬Step exec n s s'

/-- However the threads are interleaved, they end in a state of `Q`. -/
def Settles (s : Threads α S L) (Q : Threads α S L → Prop) : Prop :=
  ∀ s', Reach exec n s s' → Stuck exec n s' → Q s'

variable {exec n}

theorem atBarrier_iff {s : Threads α S L} {c t : Nat} :
    s.atBarrier c t = true ↔ ∃ rest, s.program t = .wait c :: rest := by
  unfold Threads.atBarrier
  split
  · rename_i h
    simp [h]
  · rename_i h
    simp only [Bool.false_eq_true, false_iff, not_exists]
    exact fun rest hrest => h c rest hrest

/-! ## Runs end -/

theorem Step.size_lt {s s' : Threads α S L} (h : Step exec n s s') : s'.size n < s.size n := by
  cases h with
  | run t a rest ht hprog =>
    refine Finset.sum_lt_sum (fun i _ => ?_) ⟨t, Finset.mem_range.mpr ht, ?_⟩
    · by_cases hi : i = t
      · subst hi
        simp [Threads.ran, hprog]
      · simp [Threads.ran, hi]
    · simp [Threads.ran, hprog]
  | release c hc hw =>
    obtain ⟨t, ht, hat⟩ : ∃ t < n, s.atBarrier c t = true := by
      by_contra hnone
      have h0 : s.waiting n c = 0 := List.countP_eq_zero.mpr fun t ht hat => hnone ⟨t, List.mem_range.mp ht, hat⟩
      omega
    refine Finset.sum_lt_sum (fun i _ => ?_) ⟨t, Finset.mem_range.mpr ht, ?_⟩
    · simp only [Threads.release]
      split
      · rw [List.length_tail]
        exact Nat.sub_le _ _
      · exact Nat.le_refl _
    · obtain ⟨rest, hrest⟩ := atBarrier_iff.mp hat
      simp [Threads.release, hat, hrest]

/-- From every state the threads come to a stop. -/
theorem exists_stuck (exec : α → S → L → S × L) (n : Nat) (s : Threads α S L) : ∃ s', Reach exec n s s' ∧ Stuck exec n s' := by
  induction hsize : s.size n using Nat.strong_induction_on generalizing s with
  | _ k ih =>
    by_cases hstuck : Stuck exec n s
    · exact ⟨s, .refl, hstuck⟩
    · simp only [Stuck, not_forall, not_not] at hstuck
      obtain ⟨s₁, hstep⟩ := hstuck
      obtain ⟨s₂, hreach, hend⟩ := ih (s₁.size n) (hsize ▸ hstep.size_lt) s₁ rfl
      exact ⟨s₂, .head hstep hreach, hend⟩

/-! ## Rules -/

/-- An invariant holds where the threads stop. -/
theorem settles_of_invariant {s : Threads α S L} (I : Threads α S L → Prop) {Q : Threads α S L → Prop} (h₀ : I s)
    (hstep : ∀ s s', I s → Step exec n s s' → I s') (hend : ∀ s, I s → Stuck exec n s → Q s) : Settles exec n s Q := by
  intro s' hreach hstuck
  refine hend s' ?_ hstuck
  clear hstuck
  induction hreach with
  | refl => exact h₀
  | tail _ hst ih => exact hstep _ _ ih hst

theorem Settles.of_reach {s s' : Threads α S L} {Q : Threads α S L → Prop} (h : Settles exec n s Q)
    (hreach : Reach exec n s s') : Settles exec n s' Q :=
  fun t ht hstuck => h t (.trans hreach ht) hstuck

theorem Settles.mono {s : Threads α S L} {P Q : Threads α S L → Prop} (h : Settles exec n s P) (himp : ∀ s', P s' → Q s') :
    Settles exec n s Q :=
  fun s' hreach hstuck => himp s' (h s' hreach hstuck)

/-- A step without an alternative may be taken. -/
theorem settles_of_only_step {s s' : Threads α S L} {Q : Threads α S L → Prop} (hstep : Step exec n s s')
    (honly : ∀ s'', Step exec n s s'' → s'' = s') (h : Settles exec n s' Q) : Settles exec n s Q := by
  intro t hreach hstuck
  obtain heq | ⟨s'', hfirst, hrest⟩ := Relation.ReflTransGen.cases_head hreach
  · subst heq
    exact absurd hstep (hstuck s')
  · rw [honly s'' hfirst] at hrest
    exact h t hrest hstuck

/-- The effect of a list of actions of one thread. -/
def execAll (exec : α → S → L → S × L) : List α → S → L → S × L
  | [], s, l => (s, l)
  | a :: as, s, l => execAll exec as (exec a s l).1 (exec a s l).2

/-- A thread may run alone. -/
theorem reach_alone (exec : α → S → L → S × L) {t : Nat} (ht : t < n) : ∀ (as : List α) (s : Threads α S L) (rest : List (Instr α)),
    s.program t = as.map .run ++ rest → Reach exec n s
      { program := Function.update s.program t rest
        locals := Function.update s.locals t (execAll exec as s.shared (s.locals t)).2
        shared := (execAll exec as s.shared (s.locals t)).1 }
  | [], s, rest, h => by
    have hp : Function.update s.program t rest = s.program := by
      rw [show rest = s.program t from h.symm]
      exact Function.update_eq_self t s.program
    rw [hp]
    simp only [execAll, Function.update_eq_self]
    exact .refl
  | a :: as, s, rest, h => by
    have hstep : Step exec n s (s.ran exec t a (as.map .run ++ rest)) := .run t a _ ht h
    have hrest := reach_alone exec ht as (s.ran exec t a (as.map .run ++ rest)) rest (by simp [Threads.ran])
    simp only [Threads.ran, Function.update_self, Function.update_idem] at hrest
    exact .head hstep hrest

/-! ## Actions the threads have yet to run -/

variable (n) in
/-- Some thread has `a` before it. -/
def Threads.Runs (s : Threads α S L) (a : α) : Prop := ∃ t < n, .run a ∈ s.program t

theorem Step.runs {s s' : Threads α S L} {a : α} (h : Step exec n s s') (hruns : s'.Runs n a) : s.Runs n a := by
  obtain ⟨t, ht, hmem⟩ := hruns
  refine ⟨t, ht, ?_⟩
  cases h with
  | run i b rest hi hprog =>
    by_cases hit : t = i
    · subst hit
      have hrest : .run a ∈ rest := by simpa [Threads.ran] using hmem
      rw [hprog]
      exact List.mem_cons_of_mem _ hrest
    · simpa [Threads.ran, hit] using hmem
  | release c hc hwait =>
    simp only [Threads.release] at hmem
    split at hmem
    · exact List.mem_of_mem_tail hmem
    · exact hmem

variable {exec' : α → S → L → S × L}

/-- What a step does depends on the meaning of the actions before the threads only. -/
theorem Step.congr {s s' : Threads α S L} (heq : ∀ a, s.Runs n a → exec a = exec' a) (h : Step exec n s s') :
    Step exec' n s s' := by
  cases h with
  | run t a rest ht hprog =>
    have hsame : s.ran exec t a rest = s.ran exec' t a rest := by
      unfold Threads.ran
      rw [heq a ⟨t, ht, by simp [hprog]⟩]
    rw [hsame]
    exact .run t a rest ht hprog
  | release c hc hwait => exact .release c hc hwait

theorem Reach.congr {s s' : Threads α S L} (heq : ∀ a, s.Runs n a → exec a = exec' a) (h : Reach exec n s s') :
    Reach exec' n s s' ∧ ∀ a, s'.Runs n a → s.Runs n a := by
  induction h with
  | refl => exact ⟨.refl, fun _ hruns => hruns⟩
  | tail _ hstep ih =>
    refine ⟨.tail ih.1 (hstep.congr fun a hruns => heq a (ih.2 a hruns)), fun a hruns => ?_⟩
    exact ih.2 a (hstep.runs hruns)

/-- Two meanings that agree on the actions of the threads settle them alike. -/
theorem Settles.congr {s : Threads α S L} {Q : Threads α S L → Prop} (heq : ∀ a, s.Runs n a → exec a = exec' a)
    (h : Settles exec n s Q) : Settles exec' n s Q := by
  intro s' hreach hstuck
  have hback : Reach exec n s s' ∧ ∀ a, s'.Runs n a → s.Runs n a :=
    hreach.congr fun a hruns => (heq a hruns).symm
  refine h s' hback.1 fun s'' hstep => hstuck s'' (hstep.congr fun a hruns => ?_)
  exact heq a (hback.2 a hruns)

/-- Threads that end have run each of their actions: what one of them establishes and none
destroys holds then. -/
theorem settles_marked {s : Threads α S L} {a : α} {P : S → Prop} (hruns : s.Runs n a) (hmark : ∀ s l, P (exec a s l).1)
    (hkeep : ∀ b s l, P s → P (exec b s l).1) : Settles exec n s fun s' => s'.Done n → P s'.shared := by
  refine settles_of_invariant (fun s' => P s'.shared ∨ s'.Runs n a) (.inr hruns) (fun s₁ s₂ hI hstep => ?_)
    fun s' hI _ hdone => ?_
  · cases hstep with
    | run t b rest ht hprog =>
      obtain hP | ⟨i, hi, hmem⟩ := hI
      · exact .inl (hkeep b _ _ hP)
      · by_cases hit : i = t
        · subst hit
          rw [hprog] at hmem
          obtain heq | hrest := List.mem_cons.mp hmem
          · obtain rfl := Instr.run.inj heq
            exact .inl (hmark _ _)
          · exact .inr ⟨i, hi, by simpa [Threads.ran] using hrest⟩
        · exact .inr ⟨i, hi, by simpa [Threads.ran, hit] using hmem⟩
    | release c hc hwait =>
      refine hI.imp (fun hP => hP) fun ⟨i, hi, hmem⟩ => ⟨i, hi, ?_⟩
      simp only [Threads.release]
      split
      · obtain ⟨rest, hrest⟩ := atBarrier_iff.mp ‹_›
        rw [hrest] at hmem ⊢
        simpa using hmem
      · exact hmem
  · obtain hP | ⟨i, hi, hmem⟩ := hI
    · exact hP
    · rw [hdone i hi] at hmem
      cases hmem

/-! ## Threads that keep step -/

/-- Rounds of one action for each thread, with a barrier after each. -/
def inLockstep (w : Nat) : List (Nat → α) → Nat → List (Instr α)
  | [], _ => []
  | a :: rs, t => .run (a t) :: .wait w :: inLockstep w rs t

/-- Rounds that take the shared state `s` to `final`: within a round the shared state
depends only on which threads have acted. -/
def Rounds (exec : α → S → L → S × L) (w : Nat) : List (Nat → α) → S → (Nat → L) → S → Prop
  | [], s, _, final => final = s
  | a :: rs, s, l, final => ∃ (mid : (Nat → Bool) → S) (after : Nat → L), mid (fun _ => false) = s
      ∧ (∀ acted t, t < w → acted t = false →
          exec (a t) (mid acted) (l t) = (mid (Function.update acted t true), after t))
      ∧ Rounds exec w rs (mid fun t => decide (t < w)) after final

/-- The threads in the middle of a round, or at their end. -/
inductive Locked (exec : α → S → L → S × L) (w : Nat) (final : S) : Threads α S L → Prop where
  | done {s : Threads α S L} (hprog : ∀ t, s.program t = []) (hshared : s.shared = final) : Locked exec w final s
  | round {s : Threads α S L} (a : Nat → α) (rs : List (Nat → α)) (mid : (Nat → Bool) → S) (l after : Nat → L)
      (acted : Nat → Bool) (hacted : ∀ t, acted t = true → t < w)
      (hexec : ∀ acted t, t < w → acted t = false →
        exec (a t) (mid acted) (l t) = (mid (Function.update acted t true), after t))
      (hrest : Rounds exec w rs (mid fun t => decide (t < w)) after final)
      (hprog : ∀ t, s.program t = if t < w then (if acted t then .wait w :: inLockstep w rs t
        else .run (a t) :: .wait w :: inLockstep w rs t) else [])
      (hlocals : ∀ t < w, s.locals t = if acted t then after t else l t) (hshared : s.shared = mid acted) :
      Locked exec w final s

variable {w : Nat} {final : S}

theorem locked_of_rounds {s : Threads α S L} {l : Nat → L} (rs : List (Nat → α)) (h : Rounds exec w rs s.shared l final)
    (hprog : ∀ t, s.program t = if t < w then inLockstep w rs t else []) (hlocals : ∀ t < w, s.locals t = l t) :
    Locked exec w final s := by
  cases rs with
  | nil => exact .done (fun t => by rw [hprog]; split <;> rfl) h.symm
  | cons a rs =>
    obtain ⟨mid, after, hstart, hexec, hrest⟩ := h
    exact .round a rs mid l after (fun _ => false) (by simp) hexec hrest hprog hlocals hstart.symm

/-- Barriers of count `w` release the first `w` threads together. -/
theorem all_of_waiting {p : Nat → Bool} (hp : ∀ t, p t = true → t < w) (h : (List.range n).countP p = w) {t : Nat}
    (ht : t < w) : p t = true := by
  have hcard : ((Finset.range n).filter fun t => p t).card = w := by
    rw [← h, List.countP_eq_length_filter, Finset.card_def, Finset.filter_val, Finset.range_val, Multiset.range,
      Multiset.filter_coe, Multiset.coe_card]
    simp only [Bool.decide_eq_true]
  have hsub : ((Finset.range n).filter fun t => p t) ⊆ Finset.range w := fun t ht =>
    Finset.mem_range.mpr (hp t (Finset.mem_filter.mp ht).2)
  have heq := Finset.eq_of_subset_of_card_le hsub (by rw [hcard, Finset.card_range])
  have hmem : t ∈ (Finset.range n).filter fun t => p t := heq ▸ Finset.mem_range.mpr ht
  exact (Finset.mem_filter.mp hmem).2

theorem countP_lt (hwn : w ≤ n) : (List.range n).countP (fun t => decide (t < w)) = w := by
  rw [List.countP_eq_length_filter]
  have hfilter : (List.range n).filter (fun t => decide (t < w)) = List.range w := by
    obtain ⟨k, rfl⟩ := Nat.exists_eq_add_of_le hwn
    rw [List.range_add, List.filter_append, List.filter_eq_self.mpr, List.filter_eq_nil_iff.mpr, List.append_nil]
    · intro t ht
      obtain ⟨i, -, rfl⟩ := List.mem_map.mp ht
      simp
    · intro t ht
      simpa using ht
  rw [hfilter, List.length_range]

theorem waiting_pos {s : Threads α S L} {c : Nat} (hc : 0 < c) (h : s.waiting n c = c) :
    ∃ t < n, s.atBarrier c t = true := by
  by_contra hnone
  have h0 : s.waiting n c = 0 := List.countP_eq_zero.mpr fun t ht hat => hnone ⟨t, List.mem_range.mp ht, hat⟩
  omega

theorem Locked.step {s s' : Threads α S L} (h : Locked exec w final s) (hstep : Step exec n s s') :
    Locked exec w final s' := by
  cases h with
  | done hprog hshared =>
    cases hstep with
    | run t a rest ht hrun => simp [hprog t] at hrun
    | release c hc hwait =>
      obtain ⟨t, -, hat⟩ := waiting_pos hc hwait
      obtain ⟨rest, hrest⟩ := atBarrier_iff.mp hat
      simp [hprog t] at hrest
  | round a rs mid l after acted hacted hexec hrest hprog hlocals hshared =>
    cases hstep with
    | run t a' rest ht hrun =>
      rw [hprog t] at hrun
      split at hrun
      · rename_i htw
        split at hrun
        · cases hrun
        · rename_i hnot
          obtain ⟨h₁, rfl⟩ := List.cons.inj hrun
          obtain rfl : a t = a' := Instr.run.inj h₁
          have hnot : acted t = false := by simpa using hnot
          have hact := hexec acted t htw hnot
          refine .round a rs mid l after (Function.update acted t true) (fun i hi => ?_) hexec hrest (fun i => ?_)
            (fun i hi => ?_) ?_
          · by_cases hit : i = t
            · exact hit ▸ htw
            · exact hacted i (by simpa [hit] using hi)
          · by_cases hit : i = t
            · subst hit
              simp [Threads.ran, htw]
            · simp [Threads.ran, hit, hprog i]
          · by_cases hit : i = t
            · subst hit
              simp [Threads.ran, hshared, hlocals i hi, hnot, hact]
            · simp [Threads.ran, hit, hlocals i hi]
          · simp [Threads.ran, hshared, hlocals t htw, hnot, hact]
      · cases hrun
    | release c hc hwait =>
      -- who waits at all has acted, and waits at a barrier of count `w`
      have hat : ∀ t, s.atBarrier c t = true → acted t = true ∧ c = w ∧ t < w := by
        intro t hat
        obtain ⟨rest, hrest⟩ := atBarrier_iff.mp hat
        rw [hprog t] at hrest
        split at hrest
        · split at hrest
          · rename_i hyes
            obtain ⟨h₁, -⟩ := List.cons.inj hrest
            exact ⟨hyes, (Instr.wait.inj h₁).symm, ‹_›⟩
          · cases hrest
        · cases hrest
      obtain ⟨t₀, -, hat₀⟩ := waiting_pos hc hwait
      obtain ⟨-, rfl, -⟩ := hat t₀ hat₀
      have hall : ∀ t < c, s.atBarrier c t = true := fun t ht => all_of_waiting (fun i hi => (hat i hi).2.2) hwait ht
      have hactedAll : acted = fun t => decide (t < c) := by
        funext t
        by_cases ht : t < c
        · simp [ht, (hat t (hall t ht)).1]
        · simp only [ht, decide_false]
          exact Bool.eq_false_iff.mpr fun h => ht (hacted t h)
      refine locked_of_rounds (s := s.release c) (l := after) rs ?_ (fun t => ?_) fun t ht => ?_
      · show Rounds exec c rs s.shared after final
        rw [hshared, hactedAll]
        exact hrest
      · by_cases ht : t < c
        · simp [Threads.release, hall t ht, hprog t, ht, (hat t (hall t ht)).1]
        · have hno : s.atBarrier c t = false := Bool.eq_false_iff.mpr fun h => ht (hat t h).2.2
          simp [Threads.release, hno, hprog t, ht]
      · show s.locals t = after t
        rw [hlocals t ht, (hat t (hall t ht)).1, if_pos rfl]

theorem Locked.done_of_stuck {s : Threads α S L} (hw : 0 < w) (hwn : w ≤ n) (h : Locked exec w final s)
    (hstuck : Stuck exec n s) : s.Done n ∧ s.shared = final := by
  cases h with
  | done hprog hshared => exact ⟨fun t _ => hprog t, hshared⟩
  | round a rs mid l after acted hacted hexec hrest hprog hlocals hshared =>
    exfalso
    by_cases hall : ∀ t < w, acted t = true
    · refine hstuck _ (Step.release w hw ?_)
      have hat : ∀ t, s.atBarrier w t = decide (t < w) := by
        intro t
        rw [Bool.eq_iff_iff, atBarrier_iff, decide_eq_true_eq, hprog t]
        by_cases ht : t < w
        · simp [ht, hall t ht]
        · simp [ht]
      rw [Threads.waiting, show s.atBarrier w = fun t => decide (t < w) from funext hat]
      exact countP_lt hwn
    · simp only [not_forall] at hall
      obtain ⟨t, ht, hnot⟩ := hall
      refine hstuck _ (Step.run t (a t) (.wait w :: inLockstep w rs t) (by omega) ?_)
      rw [hprog t, if_pos ht, if_neg hnot]

/-- Threads that keep step end together, in the state the rounds lead to. -/
theorem lockstep_settles {s : Threads α S L} (rs : List (Nat → α)) (hw : 0 < w) (hwn : w ≤ n)
    (h : Rounds exec w rs s.shared s.locals final)
    (hprog : ∀ t, s.program t = if t < w then inLockstep w rs t else []) :
    Settles exec n s fun s' => s'.Done n ∧ s'.shared = final :=
  settles_of_invariant (Locked exec w final) (locked_of_rounds rs h hprog fun _ _ => rfl)
    (fun _ _ hs hstep => hs.step hstep) fun _ hs hstuck => hs.done_of_stuck hw hwn hstuck

@[simp] theorem inLockstep_append (rs rs' : List (Nat → α)) (t : Nat) :
    inLockstep w (rs ++ rs') t = inLockstep w rs t ++ inLockstep w rs' t := by
  induction rs with
  | nil => rfl
  | cons a rs ih => simp [inLockstep, ih]

theorem inLockstep_flatMap {ι : Type*} (is : List ι) (f : ι → List (Nat → α)) (t : Nat) :
    inLockstep w (is.flatMap f) t = is.flatMap fun i => inLockstep w (f i) t := by
  induction is with
  | nil => rfl
  | cons i is ih => simp [ih]

/-- A counted loop of rounds. -/
theorem Rounds.range {f : Nat → List (Nat → α)} {m : Nat → S} : ∀ (k : Nat),
    (∀ j < k, ∀ rs l, (∀ l', Rounds exec w rs (m (j + 1)) l' final) → Rounds exec w (f j ++ rs) (m j) l final) →
    ∀ rs, (∀ l, Rounds exec w rs (m k) l final) → ∀ l, Rounds exec w ((List.range k).flatMap f ++ rs) (m 0) l final
  | 0, _, rs, h => by simpa using h
  | k + 1, hstep, rs, h => by
    rw [List.range_succ, List.flatMap_append, List.flatMap_singleton, List.append_assoc]
    exact Rounds.range k (fun j hj => hstep j (Nat.lt_succ_of_lt hj)) _ (hstep k (Nat.lt_succ_self k) rs · h)

/-! ## Threads that start at a barrier -/

def Threads.past (s : Threads α S L) (c : Nat) (rest : Nat → List (Instr α)) : Threads α S L :=
  { s with program := fun t => if t < c then rest t else [] }

variable {s : Threads α S L} {c : Nat} {rest : Nat → List (Instr α)}

theorem step_past (hc : 0 < c) (hcn : c ≤ n) (hprog : ∀ t, s.program t = if t < c then .wait c :: rest t else []) :
    Step exec n s (s.past c rest) ∧ ∀ s', Step exec n s s' → s' = s.past c rest := by
  have hat : ∀ d t, s.atBarrier d t = decide (t < c ∧ d = c) := by
    intro d t
    rw [Bool.eq_iff_iff, atBarrier_iff, decide_eq_true_eq, hprog t]
    split
    · simp [*, eq_comm]
    · simp [*]
  have hrelease : s.release c = s.past c rest := by
    unfold Threads.release Threads.past
    congr 1
    funext t
    rw [hat c t, hprog t]
    by_cases ht : t < c
    · simp [ht]
    · simp [ht]
  refine ⟨hrelease ▸ Step.release c hc ?_, fun s' hstep => ?_⟩
  · rw [Threads.waiting, show s.atBarrier c = fun t => decide (t < c) from funext fun t => by simp [hat]]
    exact countP_lt hcn
  · cases hstep with
    | run t a rest' ht hrun =>
      rw [hprog t] at hrun
      split at hrun <;> cases hrun
    | release d hd hwait =>
      obtain ⟨t, -, ht⟩ := waiting_pos hd hwait
      rw [hat, decide_eq_true_eq] at ht
      rw [ht.2, hrelease]

/-- Threads that all wait at one barrier go on from behind it. -/
theorem settles_past {Q : Threads α S L → Prop} (hc : 0 < c) (hcn : c ≤ n)
    (hprog : ∀ t, s.program t = if t < c then .wait c :: rest t else []) (h : Settles exec n (s.past c rest) Q) :
    Settles exec n s Q :=
  have hstep := step_past hc hcn hprog
  settles_of_only_step hstep.1 hstep.2 h

/-! ## Threads that cannot keep step -/

/-- The number of barriers of count `c` left in a program. -/
def waits (c : Nat) (p : List (Instr α)) : Nat :=
  p.countP fun i => match i with
    | .wait d => d == c
    | .run _ => false

@[simp] theorem waits_nil (c : Nat) : waits c ([] : List (Instr α)) = 0 := rfl

@[simp] theorem waits_run (c : Nat) (a : α) (p : List (Instr α)) : waits c (.run a :: p) = waits c p := by
  simp [waits]

@[simp] theorem waits_wait (c d : Nat) (p : List (Instr α)) :
    waits c (.wait d :: p) = waits c p + if d = c then 1 else 0 := by
  simp [waits, List.countP_cons]

@[simp] theorem waits_append (c : Nat) (p q : List (Instr α)) : waits c (p ++ q) = waits c p + waits c q := by
  simp [waits]

theorem waits_flatMap {ι : Type*} {c k : Nat} {f : ι → List (Instr α)} (is : List ι) (h : ∀ i, waits c (f i) = k) :
    waits c (is.flatMap f) = is.length * k := by
  induction is with
  | nil => rw [List.flatMap_nil, waits_nil, List.length_nil, Nat.zero_mul]
  | cons i is ih => rw [List.flatMap_cons, waits_append, h, ih, List.length_cons, Nat.succ_mul, Nat.add_comm]

/-- A barrier that only the first `w` threads use, `w` being its count, takes one away
from each of them. -/
theorem waits_balance {s s' : Threads α S L} (hreach : Reach exec n s s')
    (hout : ∀ t, w ≤ t → waits w (s.program t) = 0) :
    (∀ t, w ≤ t → waits w (s'.program t) = 0) ∧ ∀ t₁ < w, ∀ t₂ < w,
      waits w (s'.program t₁) + waits w (s.program t₂) = waits w (s'.program t₂) + waits w (s.program t₁) := by
  induction hreach with
  | refl => exact ⟨hout, fun _ _ _ _ => Nat.add_comm _ _⟩
  | tail _ hstep ih =>
    rename_i b c _
    obtain ⟨ihout, ih⟩ := ih
    cases hstep with
    | run t a rest ht hrun =>
      have hsame : ∀ i, waits w ((b.ran exec t a rest).program i) = waits w (b.program i) := by
        intro i
        by_cases hi : i = t
        · subst hi
          simp [Threads.ran, hrun]
        · simp [Threads.ran, hi]
      simp only [hsame]
      exact ⟨ihout, ih⟩
    | release c hc hwait =>
      have hafter : ∀ i, b.atBarrier c i = true →
          waits w ((b.release c).program i) + (if c = w then 1 else 0) = waits w (b.program i) := by
        intro i hi
        obtain ⟨rest, hrest⟩ := atBarrier_iff.mp hi
        simp [Threads.release, hi, hrest]
      have hstay : ∀ i, b.atBarrier c i = false → waits w ((b.release c).program i) = waits w (b.program i) := by
        intro i hi
        simp [Threads.release, hi]
      by_cases hcw : c = w
      · subst hcw
        have hin : ∀ i, b.atBarrier c i = true → i < c := by
          intro i hi
          by_contra hge
          obtain ⟨rest, hrest⟩ := atBarrier_iff.mp hi
          have h0 := ihout i (by omega)
          simp [hrest] at h0
        have hall : ∀ i < c, b.atBarrier c i = true := fun i hi => all_of_waiting hin hwait hi
        refine ⟨fun i hi => ?_, fun i hi j hj => ?_⟩
        · rw [hstay i (Bool.eq_false_iff.mpr fun h => absurd (hin i h) (by omega))]
          exact ihout i hi
        · have hi' := hafter i (hall i hi)
          have hj' := hafter j (hall j hj)
          have hij := ih i hi j hj
          rw [if_pos rfl] at hi' hj'
          omega
      · have hsame : ∀ i, waits w ((b.release c).program i) = waits w (b.program i) := by
          intro i
          cases hi : b.atBarrier c i
          · exact hstay i hi
          · have := hafter i hi
            rwa [if_neg hcw, Nat.add_zero] at this
        simp only [hsame]
        exact ⟨ihout, ih⟩

/-- Threads with different numbers of barriers never all finish. -/
theorem not_settles_of_waits_ne {s : Threads α S L} {Q : Threads α S L → Prop} (hQ : ∀ s', Q s' → s'.Done n)
    (hout : ∀ t, w ≤ t → waits w (s.program t) = 0) (hwn : w ≤ n) {t₁ t₂ : Nat} (h₁ : t₁ < w) (h₂ : t₂ < w)
    (hne : waits w (s.program t₁) ≠ waits w (s.program t₂)) : ¬Settles exec n s Q := by
  intro hsettles
  obtain ⟨s', hreach, hstuck⟩ := exists_stuck exec n s
  have hdone := hQ s' (hsettles s' hreach hstuck)
  have hbal := (waits_balance hreach hout).2 t₁ h₁ t₂ h₂
  rw [hdone t₁ (by omega), hdone t₂ (by omega)] at hbal
  simp at hbal
  exact hne hbal.symm

end DpuBackend.Lib
