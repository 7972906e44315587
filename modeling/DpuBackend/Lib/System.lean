import Mathlib.Tactic.Common

/-
  Systems that take labelled steps, and what holds in every state they reach.

  A run is a sequence of steps from an initial state. Properties that hold only while the
  steps keep to a condition are stated over `Reach ok`, the states of the runs whose steps
  all meet `ok`; `Reach.invariant` is the rule for them. A system whose steps are computed
  (`System.ofStep`) can be run on a list of labels (`runFrom`), which is how a sample run is
  shown to be one (`reach_of_runFrom`); `reach_of_runChecked` and `reach_of_run` show that it
  meets a condition.
-/

namespace DpuBackend.Lib

universe u v

structure System (σ : Type u) (ι : Type v) where
  init : σ → Prop
  step : σ → ι → σ → Prop

namespace System

variable {σ : Type u} {ι : Type v}

/-- The states of the runs whose steps all meet `ok`. -/
inductive Reach (S : System σ ι) (ok : σ → ι → Prop) : σ → Prop where
  | init {s : σ} (h : S.init s) : Reach S ok s
  | step {s s' : σ} {a : ι} (h : Reach S ok s) (hok : ok s a) (hstep : S.step s a s') : Reach S ok s'

/-- The states of all runs. -/
def Reachable (S : System σ ι) : σ → Prop := S.Reach fun _ _ => True

variable {S : System σ ι} {ok ok' : σ → ι → Prop}

theorem Reach.mono (hok : ∀ s a, ok s a → ok' s a) {s : σ} (h : S.Reach ok s) : S.Reach ok' s := by
  induction h with
  | init h => exact .init h
  | step _ ha hstep ih => exact .step ih (hok _ _ ha) hstep

theorem Reach.reachable {s : σ} (h : S.Reach ok s) : S.Reachable s := h.mono fun _ _ _ => trivial

/-- What holds initially and is kept by the steps that meet `ok` holds in every state. -/
theorem Reach.invariant {P : σ → Prop} (hinit : ∀ s, S.init s → P s)
    (hstep : ∀ s a s', P s → ok s a → S.step s a s' → P s') {s : σ} (h : S.Reach ok s) : P s := by
  induction h with
  | init h => exact hinit _ h
  | step _ ha hs ih => exact hstep _ _ _ ih ha hs

/-! ## Steps that are computed -/

/-- A system whose steps are a function of the label; `none` where it has no such step. -/
def ofStep (init : σ → Prop) (f : σ → ι → Option σ) : System σ ι where
  init := init
  step s a s' := f s a = some s'

/-- The state after the steps of a list. -/
def runFrom (f : σ → ι → Option σ) (s : σ) : List ι → Option σ
  | [] => some s
  | a :: as => (f s a).bind fun s' => runFrom f s' as

theorem reach_of_runFrom {init : σ → Prop} {f : σ → ι → Option σ} :
    ∀ (as : List ι) {s s' : σ}, (ofStep init f).Reachable s → runFrom f s as = some s' →
      (ofStep init f).Reachable s'
  | [], s, s', hs, h => by
    rw [runFrom, Option.some.injEq] at h
    exact h ▸ hs
  | a :: as, s, s', hs, h => by
    rw [runFrom, Option.bind_eq_some_iff] at h
    obtain ⟨t, hst, hrest⟩ := h
    exact reach_of_runFrom as (.step hs trivial hst) hrest

/-- The steps of a list, while each passes a check. -/
def runChecked (check : σ → ι → Bool) (f : σ → ι → Option σ) : σ → List ι → Option σ :=
  runFrom fun s a => if check s a then f s a else none

/-- A check of the condition shows that a run meets it. -/
theorem reach_of_runChecked {init : σ → Prop} {f : σ → ι → Option σ} {ok : σ → ι → Prop} {check : σ → ι → Bool}
    (hcheck : ∀ s a, check s a = true → ok s a) :
    ∀ (as : List ι) {s s' : σ}, (ofStep init f).Reach ok s → runChecked check f s as = some s' →
      (ofStep init f).Reach ok s'
  | [], s, s', hs, h => by
    rw [runChecked, runFrom, Option.some.injEq] at h
    exact h ▸ hs
  | a :: as, s, s', hs, h => by
    rw [runChecked, runFrom, Option.bind_eq_some_iff] at h
    obtain ⟨t, hst, hrest⟩ := h
    rw [Option.ite_none_right_eq_some] at hst
    exact reach_of_runChecked hcheck as (.step hs (hcheck s a hst.1) hst.2) hrest

/-- The steps of a list lead from `s` to `t`, and each meets `ok`. -/
def Run (f : σ → ι → Option σ) (ok : σ → ι → Prop) (s : σ) : List ι → σ → Prop
  | [], t => s = t
  | a :: as, t => ok s a ∧ ∃ s', f s a = some s' ∧ Run f ok s' as t

theorem reach_of_run {init : σ → Prop} {f : σ → ι → Option σ} {ok : σ → ι → Prop} :
    ∀ (as : List ι) {s t : σ}, (ofStep init f).Reach ok s → Run f ok s as t → (ofStep init f).Reach ok t
  | [], _, _, hs, h => h ▸ hs
  | _ :: as, _, _, hs, ⟨hok, _, hstep, hrest⟩ => reach_of_run as (.step hs hok hstep) hrest

end System

end DpuBackend.Lib
