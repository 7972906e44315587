import DpuBackend.Api.RankHandler

/-
  When the handlers of the backends stay alive.

  Three windows are open while a thread has no lock: between the test of the
  pointer and the increment, between the decrement to zero and the end of
  `dpu_rank_handler_free`, and between a failed initialisation and the store of
  `NULL`. `Meets` says that no thread gives back the last reference while another
  is in the first one, and that no thread tests the pointer while another is in
  one of the other two. In the runs whose steps all meet this, and where an `int`
  can count the contexts, the handlers stay alive (`handlers_live`).

  The invariant is one of each backend, in the stages that threads have reached
  in it (`Mode`): the backend is up, and the threads there have been told of a
  handler; or it is down, and nobody is there; or one thread, alone, is changing
  it. A step moves one thread in one backend, so the rest is a frame.
-/

namespace DpuBackend.Api.RankHandler

open DpuBackend.Lib

/-! ## The condition -/

/-- From the test that finds a handler, or its initialisation, to the increment. -/
def Stage.Entered : Stage → Prop
  | .resetting | .leaving | .getting => True
  | _ => False

/-- From a failed initialisation, or the decrement to zero, to the end of the call. -/
def Stage.Ending : Stage → Prop
  | .clearing | .freeing | .closing => True
  | _ => False

variable {Lib : Type}

def Meets (s : State Lib) : Label Lib → Prop
  | .check _ d => ∀ t stage, s.pc t = some (d, stage) → ¬ stage.Ending
  | .put _ d => (s.context d).handlerRefcount = 1 → ∀ t stage, s.pc t = some (d, stage) → ¬ stage.Entered
  | .get t => ∀ d, s.pc t = some (d, .getting) → (s.context d).held + 1 < 2 ^ 31
  | _ => True

/-! ## One backend -/

/-- The stages in which the lock is held. -/
def Stage.Inside : Stage → Prop
  | .opening | .finding | .resetting | .leaving | .failing => True
  | _ => False

/-- What a thread that changes the backend has found or made of it. -/
def Stage.Changing (c : HandlerContext Lib) : Stage → Prop
  | .opening | .closing => c.handler = false
  | .finding => c.handler = false ∧ c.IsOpen
  | .failing | .clearing | .freeing => True
  | .resetting | .leaving | .getting => False

/-- The state of a backend, where the threads are at `stages`. -/
inductive Mode (c : HandlerContext Lib) (stages : Tid → Option Stage) : Prop where
  | up (handler : c.handler = true) (isOpen : c.IsOpen) (entered : ∀ t x, stages t = some x → x.Entered)
      (alone : ∀ t, stages t = some .resetting → c.held = 0 ∧ ∀ t', t' ≠ t → stages t' = none)
  | down (handler : c.handler = false) (held : c.held = 0) (empty : ∀ t, stages t = none)
  | changing (t : Tid) (x : Stage) (at_t : stages t = some x) (inv : x.Changing c) (held : c.held = 0)
      (alone : ∀ t', t' ≠ t → stages t' = none)

structure BackendInv (c : HandlerContext Lib) (stages : Tid → Option Stage) : Prop where
  count : c.handlerRefcount = c.held
  bound : c.held < 2 ^ 31
  mode : Mode c stages

variable {c c' : HandlerContext Lib} {stages : Tid → Option Stage} {t : Tid} {x : Stage}

/-- A thread that changes the backend is alone. -/
theorem Mode.of_changing (h : Mode c stages) (ht : stages t = some x) (hx : ¬ x.Entered) :
    x.Changing c ∧ c.held = 0 ∧ ∀ t', t' ≠ t → stages t' = none := by
  cases h with
  | up _ _ entered _ => exact absurd (entered t x ht) hx
  | down _ _ empty =>
    rw [empty] at ht
    cases ht
  | changing t₀ x₀ at_t inv held alone =>
    have hsame : t = t₀ := by
      by_contra hne
      rw [alone t hne] at ht
      cases ht
    subst hsame
    rw [at_t] at ht
    cases ht
    exact ⟨inv, held, alone⟩

/-- Where a thread was told of a handler, or a context is held, the backend is up. -/
theorem Mode.of_entered (h : Mode c stages) (hin : 0 < c.held ∨ ∃ t x, stages t = some x ∧ x.Entered) :
    c.handler = true ∧ c.IsOpen ∧ (∀ t x, stages t = some x → x.Entered) ∧
      ∀ t, stages t = some .resetting → c.held = 0 ∧ ∀ t', t' ≠ t → stages t' = none := by
  cases h with
  | up handler isOpen entered alone => exact ⟨handler, isOpen, entered, alone⟩
  | down _ held empty =>
    obtain hpos | ⟨t, x, ht, -⟩ := hin
    · omega
    · rw [empty] at ht
      cases ht
  | changing t₀ x₀ at_t inv held alone =>
    obtain hpos | ⟨t, x, ht, hx⟩ := hin
    · omega
    · by_cases hsame : t = t₀
      · subst hsame
        rw [at_t] at ht
        cases ht
        cases x₀ <;> simp_all [Stage.Entered, Stage.Changing]
      · rw [alone t hsame] at ht
        cases ht

/-- The thread that changes the backend takes its next step. -/
theorem BackendInv.change (h : BackendInv c stages) (ht : stages t = some x) (hx : ¬ x.Entered) {y : Stage}
    (hy : y.Changing c') (hrefs : c'.handlerRefcount = c.handlerRefcount) (hheld : c'.held = c.held) :
    BackendInv c' (Function.update stages t (some y)) := by
  obtain ⟨-, hzero, halone⟩ := h.mode.of_changing ht hx
  refine ⟨by rw [hrefs, hheld]; exact h.count, by rw [hheld]; exact h.bound, ?_⟩
  refine .changing t y (Function.update_self ..) hy (hheld.trans hzero) fun t' hne => ?_
  rw [Function.update_of_ne hne]
  exact halone t' hne

/-- It leaves the backend down. -/
theorem BackendInv.shut (h : BackendInv c stages) (ht : stages t = some x) (hx : ¬ x.Entered)
    (hhandler : c'.handler = false) (hrefs : c'.handlerRefcount = c.handlerRefcount) (hheld : c'.held = c.held) :
    BackendInv c' (Function.update stages t none) := by
  obtain ⟨-, hzero, halone⟩ := h.mode.of_changing ht hx
  refine ⟨by rw [hrefs, hheld]; exact h.count, by rw [hheld]; exact h.bound, ?_⟩
  refine .down hhandler (hheld.trans hzero) fun t' => ?_
  by_cases hne : t' = t
  · rw [hne, Function.update_self]
  · rw [Function.update_of_ne hne]
    exact halone t' hne

/-- Nobody holds the lock and nobody is ending: a thread tests the pointer. -/
theorem BackendInv.check (h : BackendInv c stages) (hfree : ∀ t x, stages t = some x → ¬ x.Inside ∧ ¬ x.Ending) :
    BackendInv c (Function.update stages t (some (if c.handler then .leaving else .opening))) := by
  refine ⟨h.count, h.bound, ?_⟩
  cases h.mode with
  | up handler isOpen entered alone =>
    rw [if_pos handler]
    refine .up handler isOpen (fun t' x hx => ?_) fun t' hx => ?_
    · by_cases hne : t' = t
      · rw [hne, Function.update_self] at hx
        cases hx
        trivial
      · rw [Function.update_of_ne hne] at hx
        exact entered t' x hx
    · by_cases hne : t' = t
      · rw [hne, Function.update_self] at hx
        cases hx
      · rw [Function.update_of_ne hne] at hx
        exact absurd trivial (hfree t' _ hx).1
  | down handler held empty =>
    rw [if_neg (by simp [handler])]
    refine .changing t .opening (Function.update_self ..) handler held fun t' hne => ?_
    rw [Function.update_of_ne hne]
    exact empty t'
  | changing t₀ x₀ at_t inv held alone =>
    have hx := hfree t₀ x₀ at_t
    cases x₀ <;> simp_all [Stage.Inside, Stage.Ending, Stage.Changing]

/-- The handler is found: the backend is up, with nobody in it but the thread that initialises it. -/
theorem BackendInv.raise (h : BackendInv c stages) (ht : stages t = some .finding) :
    BackendInv { c with handler := true } (Function.update stages t (some .resetting)) := by
  obtain ⟨hinv, hzero, halone⟩ := h.mode.of_changing ht id
  refine ⟨h.count, h.bound, .up rfl hinv.2 (fun t' x hx => ?_) fun t' hx => ⟨hzero, fun t'' hne' => ?_⟩⟩
  · by_cases hne : t' = t
    · rw [hne, Function.update_self] at hx
      cases hx
      trivial
    · rw [Function.update_of_ne hne, halone t' hne] at hx
      cases hx
  · by_cases hne : t' = t
    · rw [Function.update_of_ne (hne ▸ hne')]
      exact halone t'' (hne ▸ hne')
    · rw [Function.update_of_ne hne, halone t' hne] at hx
      cases hx

/-- A thread that was told of a handler goes on, with its reference or without. -/
theorem BackendInv.proceed (h : BackendInv c stages) (ht : stages t = some x) (hx : x.Entered)
    {next : Option Stage} (hnext : ∀ y, next = some y → y.Entered ∧ y ≠ .resetting)
    (hhandler : c'.handler = c.handler) (hopen : c.IsOpen → c'.IsOpen) (hcount : c'.handlerRefcount = c'.held)
    (hbound : c'.held < 2 ^ 31) : BackendInv c' (Function.update stages t next) := by
  obtain ⟨hup, hisOpen, hentered, halone⟩ := h.mode.of_entered (.inr ⟨t, x, ht, hx⟩)
  refine ⟨hcount, hbound, .up (hhandler.trans hup) (hopen hisOpen) (fun t' y hy => ?_) fun t' hy => ?_⟩
  · by_cases hne : t' = t
    · rw [hne, Function.update_self] at hy
      exact (hnext y hy).1
    · rw [Function.update_of_ne hne] at hy
      exact hentered t' y hy
  · by_cases hne : t' = t
    · rw [hne, Function.update_self] at hy
      exact absurd rfl (hnext _ hy).2
    · -- the other thread is alone, so it is not another
      rw [Function.update_of_ne hne] at hy
      rw [(halone t' hy).2 t (Ne.symm hne)] at ht
      cases ht

/-- A context is given back that is not the last. -/
theorem BackendInv.keep (h : BackendInv c stages) (hheld : 1 < c.held) : BackendInv c.put stages := by
  obtain ⟨hup, hisOpen, hentered, halone⟩ := h.mode.of_entered (.inl (by omega))
  have hbound := h.bound
  refine ⟨?_, by show c.held - 1 < _; omega, .up hup hisOpen hentered fun t' hy => ?_⟩
  · show int32 (c.handlerRefcount - 1) = ((c.held - 1 : Nat) : Int)
    rw [h.count, int32, Int.bmod_eq_of_le (by omega) (by omega)]
    omega
  · have hzero := (halone t' hy).1
    omega

/-- The last context is given back while no thread waits for one. -/
theorem BackendInv.last (h : BackendInv c stages) (hheld : c.held = 1) (hnone : ∀ t x, stages t = some x → ¬ x.Entered) :
    BackendInv c.put (Function.update stages t (some .freeing)) := by
  obtain ⟨-, -, hentered, -⟩ := h.mode.of_entered (.inl (by omega))
  have hempty : ∀ t', stages t' = none := by
    intro t'
    cases hx : stages t' with
    | none => rfl
    | some x => exact absurd (hentered t' x hx) (hnone t' x hx)
  refine ⟨?_, by show c.held - 1 < _; omega, ?_⟩
  · show int32 (c.handlerRefcount - 1) = ((c.held - 1 : Nat) : Int)
    rw [h.count, hheld]
    rfl
  · refine .changing t .freeing (Function.update_self ..) trivial (by show c.held - 1 = 0; omega) fun t' hne => ?_
    rw [Function.update_of_ne hne]
    exact hempty t'

/-! ## All backends -/

/-- Where the threads are in backend `d`. -/
def State.stagesIn (s : State Lib) (d : DpuType) (t : Tid) : Option Stage :=
  match s.pc t with
  | some (d', x) => if d' = d then some x else none
  | none => none

structure Inv (s : State Lib) : Prop where
  lock : ∀ t d x, s.pc t = some (d, x) → x.Inside → s.lock = some t
  backends : ∀ d, BackendInv (s.context d) (s.stagesIn d)

variable {s s' : State Lib} {d : DpuType}

theorem stages_eq_some : s.stagesIn d t = some x ↔ s.pc t = some (d, x) := by
  unfold State.stagesIn
  cases s.pc t with
  | none => simp
  | some place =>
    obtain ⟨d', y⟩ := place
    by_cases h : d' = d <;> simp [h]

/-- A thread moves in one backend: the others are as they were. -/
theorem Inv.set (h : Inv s) (lock : Option Tid) {next : Option Stage} (hat : ∀ d' x, s.pc t = some (d', x) → d' = d)
    (hothers : ∀ t' d' x, t' ≠ t → s.pc t' = some (d', x) → x.Inside → lock = some t')
    (hself : ∀ x, next = some x → x.Inside → lock = some t)
    (hbackend : BackendInv c (Function.update (s.stagesIn d) t next)) :
    Inv (State.set { s with lock := lock } t d c next) := by
  constructor
  · intro t' d' x hx hinside
    by_cases hne : t' = t
    · subst hne
      simp only [State.set, Function.update_self] at hx
      cases hnext : next with
      | none => simp [hnext] at hx
      | some y =>
        simp only [hnext, Option.map_some, Option.some.injEq, Prod.mk.injEq] at hx
        exact hself y hnext (hx.2 ▸ hinside)
    · simp only [State.set, Function.update_of_ne hne] at hx
      exact hothers t' d' x hne hx hinside
  · intro d'
    by_cases hd : d' = d
    · subst hd
      have hstages : (State.set { s with lock := lock } t d' c next).stagesIn d' = Function.update (s.stagesIn d') t next := by
        funext t'
        by_cases hne : t' = t
        · subst hne
          cases next <;> simp [State.stagesIn, State.set]
        · simp [State.stagesIn, State.set, Function.update_of_ne hne]
      rw [hstages]
      simpa [State.set] using hbackend
    · have hstages : (State.set { s with lock := lock } t d c next).stagesIn d' = s.stagesIn d' := by
        funext t'
        by_cases hne : t' = t
        · subst hne
          have hnone : s.stagesIn d' t' = none := by
            cases hx : s.stagesIn d' t' with
            | none => rfl
            | some x => exact absurd (hat d' x (stages_eq_some.1 hx)) hd
          rw [hnone]
          cases next <;> simp [State.stagesIn, State.set, Ne.symm hd]
        · simp [State.stagesIn, State.set, Function.update_of_ne hne]
      rw [hstages]
      simpa [State.set, Function.update_of_ne hd] using h.backends d'

/-- A thread moves that does not take or give the lock. -/
theorem Inv.move (h : Inv s) {next : Option Stage} (ht : s.pc t = some (d, x))
    (hself : ∀ y, next = some y → y.Inside → x.Inside)
    (hbackend : BackendInv c (Function.update (s.stagesIn d) t next)) : Inv (s.set t d c next) := by
  apply h.set s.lock
  · intro d' y hy
    rw [ht] at hy
    cases hy
    rfl
  · intro t' d' y _ hy hinside
    exact h.lock t' d' y hy hinside
  · intro y hy hinside
    exact h.lock t d x ht (hself y hy hinside)
  · exact hbackend

/-- A thread gives the lock back. -/
theorem Inv.leave (h : Inv s) {y : Stage} (ht : s.pc t = some (d, x)) (hinside : x.Inside) (hy : ¬ y.Inside)
    (hbackend : BackendInv c (Function.update (s.stagesIn d) t (some y))) :
    Inv (s.exclusivelyEnd.set t d c (some y)) := by
  apply h.set none
  · intro d' z hz
    rw [ht] at hz
    cases hz
    rfl
  · intro t' d' z hne hz hin
    have hlock := h.lock t' d' z hz hin
    rw [h.lock t d x ht hinside] at hlock
    exact absurd (Option.some.inj hlock).symm hne
  · intro z hz hin
    cases hz
    exact absurd hin hy
  · exact hbackend

theorem inv_start : Inv (State.start : State Lib) where
  lock t d x h := by cases h
  backends d := ⟨rfl, by show 0 < _; decide, .down rfl rfl fun _ => rfl⟩

section Step

variable [DecidableEq Lib]

theorem inv_advance {label : Label Lib} (h : Inv s) (hok : Meets s label) (ht : s.pc t = some (d, x))
    (hthread : label.thread = t) (hstep : s.advance t d (s.context d) x label = some s') : Inv s' := by
  have hb := h.backends d
  have hst := stages_eq_some.2 ht
  unfold State.advance at hstep
  split at hstep
  · -- opening
    next found =>
    cases hstep
    have hinv := (hb.mode.of_changing hst id).1
    cases found with
    | none => exact h.move ht (fun _ _ _ => trivial) (hb.change hst id trivial rfl rfl)
    | some lib =>
      have hfound : Stage.finding.Changing ((s.context d).dlopen (some lib)) :=
        ⟨hinv, lib, rfl, by simp [HandlerContext.dlopen]⟩
      have hnext := hb.change hst id hfound rfl rfl
      exact h.move ht (fun _ _ _ => trivial) hnext
  · -- finding
    next found =>
    split at hstep
    · cases hstep
      exact h.move ht (fun _ _ _ => trivial) (hb.raise hst)
    · cases hstep
      exact h.move ht (fun _ _ _ => trivial) (hb.change hst id trivial (dlclose_refcount _) (dlclose_held _))
  · -- resetting
    cases hstep
    obtain ⟨-, -, -, halone⟩ := hb.mode.of_entered (.inr ⟨t, _, hst, trivial⟩)
    have hzero := (halone t hst).1
    have hnext : BackendInv { s.context d with handlerRefcount := 0 }
        (Function.update (s.stagesIn d) t (some .leaving)) := by
      refine hb.proceed hst trivial ?_ ?_ ?_ ?_ ?_
      · intro y hy
        cases hy
        exact ⟨trivial, nofun⟩
      · rfl
      · exact id
      · show (0 : Int) = ((s.context d).held : Int)
        rw [hzero]
        rfl
      · exact hb.bound
    exact h.move ht (fun _ _ _ => trivial) hnext
  · -- leaving
    cases hstep
    apply h.leave ht trivial id (hb.proceed hst trivial ?_ rfl id hb.count hb.bound)
    intro y hy
    cases hy
    exact ⟨trivial, nofun⟩
  · -- failing
    cases hstep
    exact h.leave ht trivial id (hb.change hst id trivial rfl rfl)
  · -- clearing
    cases hstep
    exact h.move ht nofun (hb.shut hst id rfl rfl rfl)
  · -- getting
    next t' =>
    obtain rfl : t' = t := hthread
    cases hstep
    have hroom : (s.context d).held + 1 < 2 ^ 31 := hok d ht
    have hnext : BackendInv (s.context d).get (Function.update (s.stagesIn d) t' none) := by
      refine hb.proceed hst trivial ?_ ?_ ?_ ?_ ?_
      · intro y hy
        cases hy
      · rfl
      · exact id
      · show int32 ((s.context d).handlerRefcount + 1) = (((s.context d).held + 1 : Nat) : Int)
        rw [hb.count, int32, Int.bmod_eq_of_le (by omega) (by omega)]
        rfl
      · exact hroom
    exact h.move ht nofun hnext
  · -- freeing
    cases hstep
    exact h.move ht (fun _ hy hin => by cases hy; exact hin) (hb.change hst id rfl rfl rfl)
  · -- closing
    cases hstep
    have hinv := (hb.mode.of_changing hst id).1
    exact h.move ht nofun (hb.shut hst id ((dlclose_handler _).trans hinv) (dlclose_refcount _) (dlclose_held _))
  · cases hstep

theorem inv_step {label : Label Lib} (h : Inv s) (hok : Meets s label) (hstep : s.step label = some s') : Inv s' := by
  unfold State.step at hstep
  split at hstep
  · next d x ht => exact inv_advance h hok ht rfl hstep
  · next hidle =>
    split at hstep
    · -- a thread takes the lock and tests the pointer
      next t d =>
      split at hstep
      · next hlock =>
        cases hstep
        have hfree : ∀ t' x, s.stagesIn d t' = some x → ¬ x.Inside ∧ ¬ x.Ending := by
          intro t' x hx
          have hpc := stages_eq_some.1 hx
          refine ⟨fun hin => ?_, hok t' x hpc⟩
          rw [h.lock t' d x hpc hin] at hlock
          cases hlock
        have hnext := (h.backends d).check (t := t) hfree
        have hif : (if (s.context d).handler = true then some Stage.leaving else some Stage.opening) =
            some (if (s.context d).handler = true then Stage.leaving else Stage.opening) := by
          split <;> rfl
        rw [hif]
        apply h.set (some t) ?_ ?_ ?_ hnext
        · intro d' x hx
          change s.pc t = none at hidle
          rw [hidle] at hx
          cases hx
        · intro t' d' x _ hx hin
          rw [h.lock t' d' x hx hin] at hlock
          cases hlock
        · intro x _ _
          rfl
      · cases hstep
    · -- a thread gives a context back
      next t d =>
      change s.pc t = none at hidle
      split at hstep
      · next hheld =>
        cases hstep
        have hb := h.backends d
        have hbound := hb.bound
        have hcount : ((s.context d).put).handlerRefcount = (((s.context d).held - 1 : Nat) : Int) := by
          show int32 ((s.context d).handlerRefcount - 1) = _
          rw [hb.count, int32, Int.bmod_eq_of_le (by omega) (by omega)]
          omega
        have hnext : BackendInv (s.context d).put (Function.update (s.stagesIn d) t
            (if (s.context d).put.handlerRefcount = 0 then some .freeing else none)) := by
          split
          · next hzero =>
            have hlast : (s.context d).held = 1 := by omega
            apply hb.last hlast
            intro t' x hx
            exact hok (by rw [hb.count, hlast]; rfl) t' x (stages_eq_some.1 hx)
          · next hmore =>
            have hsame : Function.update (s.stagesIn d) t none = s.stagesIn d := by
              have hnone : s.stagesIn d t = none := by simp [State.stagesIn, hidle]
              rw [← hnone, Function.update_eq_self]
            rw [hsame]
            exact hb.keep (by omega)
        apply h.set s.lock ?_ ?_ ?_ hnext
        · intro d' x hx
          rw [hidle] at hx
          cases hx
        · intro t' d' x _ hx hin
          exact h.lock t' d' x hx hin
        · intro x hx hin
          split at hx
          · cases hx
            exact absurd hin id
          · cases hx
      · cases hstep
    · cases hstep

end Step

variable [DecidableEq Lib]

/-- In the runs whose steps meet the condition every handler lives as long as a context of it. -/
theorem handlers_live {s : State Lib} (h : (machine Lib).Reach Meets s) : s.HandlersLive := by
  have hinv : Inv s := by
    apply h.invariant
    · intro s hs
      rw [hs]
      exact inv_start
    · intro s label s' hinv hok hstep
      exact inv_step hinv hok hstep
  intro d
  have hb := hinv.backends d
  refine ⟨hb.count, fun hheld => ?_⟩
  obtain ⟨hup, hisOpen, -, -⟩ := hb.mode.of_entered (.inl hheld)
  exact ⟨hup, hisOpen⟩

/-! ## Runs -/

/-- Thread `t` instantiates the handler of a backend that is down. -/
def instantiating (t : Tid) (d : DpuType) : List (Label Unit) :=
  [.check t d, .dlopen t (some ()), .symbol t true, .reset t, .unlock t, .get t]

/-- One thread takes and gives back a context of the hardware. -/
theorem handlers_live_sample :
    ∃ s : State Unit, (s.context .hw).held = 1 ∧ (s.context .hw).handler = true ∧ s.HandlersLive := by
  have hrun : ∃ s : State Unit, (s.context .hw).held = 1 ∧ (s.context .hw).handler = true ∧
      System.Run State.step Meets State.start (instantiating 0 .hw) s := by
    refine ⟨_, rfl, rfl, ?_, _, rfl, trivial, _, rfl, trivial, _, rfl, trivial, _, rfl, trivial, _, rfl, ?_, _, rfl, rfl⟩
    · intro t stage h
      cases h
    · intro d h
      cases d <;> decide
  obtain ⟨s, hheld, hup, hrun⟩ := hrun
  exact ⟨s, hheld, hup, handlers_live (System.reach_of_run _ (.init rfl) hrun)⟩

/-- Thread 1 has tested the pointer, and thread 0 gives the last reference back before thread 1 counts its own. -/
def lateReference : List (Label Unit) :=
  instantiating 0 .hw ++ [.check 1 .hw, .unlock 1, .put 0 .hw, .free 0, .close 0, .get 1]

/-- Thread 1 holds a context whose handler is `NULL` and whose library is closed. -/
theorem late_reference_finds_no_handler :
    ∃ s : State Unit, (machine Unit).Reachable s ∧ ¬ s.HandlersLive := by
  refine ⟨(System.runFrom State.step State.start lateReference).get rfl, ?_, fun h => ?_⟩
  · exact System.reach_of_runFrom lateReference (.init rfl) (Option.some_get rfl).symm
  · have hup := ((h .hw).2 (by decide)).1
    revert hup
    decide

end DpuBackend.Api.RankHandler
