import DpuBackend.Lib.System
import Mathlib.Algebra.Order.Ring.Nat

/-
  The handlers of the backends, which threads instantiate and release.

  A backend has one context: the pointer to its handler, a count of references
  and its library. `dpu_rank_handler_instantiate` tests the pointer and loads the
  library under a lock, but counts its reference after it; the last
  `dpu_rank_handler_release` clears the pointer and closes the library without
  the lock. Threads take the steps below in any order.

  Correspondence (src/api/src/dpu_rank_handler_allocator.c ↔ Lean):
    `struct _dpu_rank_handler_context_t`        ↔ `HandlerContext`
    `dpu_rank_handler_instantiate`              ↔ `Label.check` to `Label.get`
    `initialize_static_interface_for_target`    ↔ `Label.dlopen`, `Label.symbol`
    `dpu_rank_handler_get`, `_put`, `_free`     ↔ `Label.get`, `Label.put`, `Label.free` and `Label.close`
    `static_handler_lock`                       ↔ `State.lock`

  `determine_default_backend_type`, `dpu_get_profile_description` and the
  allocation and the release of ranks (`dpu_rank_handler_free_rank`) call these
  two, and read the handler in between. Which thread releases a context is left
  open; a context is released once. The libraries of two backends are different
  files. `dlopen` and the search for the symbol may fail each time.
-/

namespace DpuBackend.Api.RankHandler

open DpuBackend.Lib

abbrev Tid := Nat

/-- `dpu_type_t`. -/
inductive DpuType where
  | functionalSimulator
  | cycleAccurateSimulator
  | modelsim
  | hw
  | backupSpi
  | scenario
  deriving DecidableEq

/-- A computation in `int`. -/
def int32 (x : Int) : Int := x.bmod (2 ^ 32)

/-- `handler_context[type]`, and what it stands for. -/
structure HandlerContext (Lib : Type) where
  /-- whether `handler` is not `NULL` -/
  handler : Bool
  handlerRefcount : Int
  library : Option Lib
  /-- how often each library was opened and not closed -/
  opens : Lib → Nat
  /-- the contexts that were obtained and not released -/
  held : Nat

/-- Where a thread is in the two functions. -/
inductive Stage where
  /-- under the lock, where no handler was found -/
  | opening
  /-- under the lock, with the library open -/
  | finding
  /-- under the lock, in front of `handler_refcount = 0` -/
  | resetting
  /-- under the lock, with a handler -/
  | leaving
  /-- in front of `dpu_rank_handler_get`, without the lock -/
  | getting
  /-- under the lock, after a failure -/
  | failing
  /-- in front of `handler = NULL`, without the lock -/
  | clearing
  /-- in `dpu_rank_handler_free` -/
  | freeing
  /-- there, in front of `dlclose` -/
  | closing
  deriving DecidableEq

structure State (Lib : Type) where
  lock : Option Tid
  pc : Tid → Option (DpuType × Stage)
  context : DpuType → HandlerContext Lib

inductive Label (Lib : Type) where
  | check (t : Tid) (d : DpuType)
  | dlopen (t : Tid) (found : Option Lib)
  | symbol (t : Tid) (found : Bool)
  | reset (t : Tid)
  | unlock (t : Tid)
  | clear (t : Tid)
  | get (t : Tid)
  | put (t : Tid) (d : DpuType)
  | free (t : Tid)
  | close (t : Tid)

variable {Lib : Type} [DecidableEq Lib]

namespace HandlerContext

variable (c : HandlerContext Lib)

def dlopen (found : Option Lib) : HandlerContext Lib :=
  match found with
  | none => { c with library := none }
  | some lib => { c with library := some lib, opens := Function.update c.opens lib (c.opens lib + 1) }

/-- A library that is not open stays closed. -/
def dlclose : HandlerContext Lib :=
  match c.library with
  | none => c
  | some lib => { c with opens := Function.update c.opens lib (c.opens lib - 1) }

def get : HandlerContext Lib := { c with handlerRefcount := int32 (c.handlerRefcount + 1), held := c.held + 1 }

def put : HandlerContext Lib := { c with handlerRefcount := int32 (c.handlerRefcount - 1), held := c.held - 1 }

/-- The library is open. -/
def IsOpen : Prop := ∃ lib, c.library = some lib ∧ 0 < c.opens lib

end HandlerContext

@[simp] theorem dlclose_handler (c : HandlerContext Lib) : c.dlclose.handler = c.handler := by
  unfold HandlerContext.dlclose
  split <;> rfl

@[simp] theorem dlclose_refcount (c : HandlerContext Lib) : c.dlclose.handlerRefcount = c.handlerRefcount := by
  unfold HandlerContext.dlclose
  split <;> rfl

@[simp] theorem dlclose_held (c : HandlerContext Lib) : c.dlclose.held = c.held := by
  unfold HandlerContext.dlclose
  split <;> rfl

/-- Thread `t` goes on, with backend `d` changed. -/
def State.set (s : State Lib) (t : Tid) (d : DpuType) (c : HandlerContext Lib) (stage : Option Stage) : State Lib where
  lock := s.lock
  pc := Function.update s.pc t (stage.map fun stage => (d, stage))
  context := Function.update s.context d c

/-- `exclusively`. -/
def State.exclusively (s : State Lib) (t : Tid) : State Lib := { s with lock := some t }

/-- `exclusively_end`. -/
def State.exclusivelyEnd (s : State Lib) : State Lib := { s with lock := none }

/-- The step of a thread that is at a stage. -/
def State.advance (s : State Lib) (t : Tid) (d : DpuType) (c : HandlerContext Lib) :
    Stage → Label Lib → Option (State Lib)
  | .opening, .dlopen _ found =>
    some (s.set t d (c.dlopen found) (if found.isSome then some .finding else some .failing))
  | .finding, .symbol _ found =>
    -- the pointer is set before the search can fail
    if found then some (s.set t d { c with handler := true } (some .resetting))
    else some (s.set t d { c with handler := true }.dlclose (some .failing))
  | .resetting, .reset _ => some (s.set t d { c with handlerRefcount := 0 } (some .leaving))
  | .leaving, .unlock _ => some (s.exclusivelyEnd.set t d c (some .getting))
  | .failing, .unlock _ => some (s.exclusivelyEnd.set t d c (some .clearing))
  | .clearing, .clear _ => some (s.set t d { c with handler := false } none)
  | .getting, .get _ => some (s.set t d c.get none)
  | .freeing, .free _ => some (s.set t d { c with handler := false } (some .closing))
  | .closing, .close _ => some (s.set t d c.dlclose none)
  | _, _ => none

def Label.thread : Label Lib → Tid
  | .check t _ | .dlopen t _ | .symbol t _ | .reset t | .unlock t | .clear t | .get t | .put t _ | .free t | .close t => t

def State.step (s : State Lib) (label : Label Lib) : Option (State Lib) :=
  match s.pc label.thread with
  | some (d, stage) => s.advance label.thread d (s.context d) stage label
  | none =>
    match label with
    | .check t d =>
      if s.lock = none then
        some ((s.exclusively t).set t d (s.context d) (if (s.context d).handler then some .leaving else some .opening))
      else none
    | .put t d =>
      let c := (s.context d).put
      if 0 < (s.context d).held then
        some (s.set t d c (if c.handlerRefcount = 0 then some .freeing else none))
      else none
    | _ => none

/-- No backend is in use. -/
def State.start : State Lib where
  lock := none
  pc _ := none
  context _ := ⟨false, 0, none, fun _ => 0, 0⟩

/-- The threads, in any interleaving of their steps. -/
def machine (Lib : Type) [DecidableEq Lib] : System (State Lib) (Label Lib) :=
  System.ofStep (· = .start) State.step

/-- The count is that of the contexts not released, and while there is one the handler is there and its library
open. -/
def State.HandlersLive (s : State Lib) : Prop :=
  ∀ d, (s.context d).handlerRefcount = (s.context d).held ∧
    (0 < (s.context d).held → (s.context d).handler = true ∧ (s.context d).IsOpen)

end DpuBackend.Api.RankHandler
