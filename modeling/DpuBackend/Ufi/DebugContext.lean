import DpuBackend.Ufi.FramedCalls

/-
  A debugger on the rank of a running program (`ufi_debug.c`, `ci_get_color` of `ufi_ci.c`).

  The debugger has a rank of its own for the same interfaces: its own copies in `link`,
  and in `debug` what it has to put back. At the attach it reads the colors and the results
  and is told the targets and structures the program has noted (`Host`). The program does
  nothing meanwhile.

  A read of the interfaces fails, or shows for each of them its result or, until it is
  there, a command that is not finished; up to three bits of a color are those of the
  faults. A save or a restore that fails is not followed further.

  Correspondence (C ↔ Lean):
    the loops on `ci_update_commands`        ↔ `pollUntil`
    `ci_get_color`                           ↔ `Link.getColor`
    `ci_debug_save_context_rank`,
      `dpu_set_debug_slice_info`             ↔ `Debugger.attach`
    the calls of the debugger                ↔ `Debugger.calls`
    `ci_debug_restore_context_rank`          ↔ `Debugger.restoreContextRank`
-/

namespace DpuBackend.Ufi

open DpuBackend.Lib

/-! ## Reading -/

def typeByte (w : Word) : Word := w >>> 56 &&& 0xFF

def validByte (w : Word) : Word := (w &&& 0xFF00000000) >>> 32

/-- A command that is not finished still shows its type. -/
def unfinished : Word := 0x0100000000000000

/-- The bits of a color that faults have changed. -/
abbrev Faults := { mask : Mask // dpuMaskCount mask ≤ 3 }

/-- What an interface shows once its last command is finished. -/
def Ci.shows (c : Ci) (faults : Faults) (result : BitVec 32) : Word :=
  match c.restored with
  | some restored => ciNop ||| restored.setWidth 64
  | none =>
    ((if c.color then 0 else 0xFF#8) ^^^ faults.val).setWidth 64 <<< 48 ||| 0xFF00000000 ||| result.setWidth 64

/-- The reads after a packet. -/
structure Reading where
  fails : Nat → Bool
  /-- the reads until an interface has finished -/
  delay : Nat → Nat
  faults : Nat → Faults
  result : Nat → BitVec 32

def Reading.read (p : Reading) (ci : Nat → Ci) (k : Nat) : Except CmdError Packets :=
  if p.fails k then .error .driver
  else .ok fun i => if p.delay i ≤ k then (ci i).shows (p.faults i) (p.result i) else unfinished

/-- `TIMEOUT_COLOR`. -/
def timeoutColor : Nat := 100000

/-- Reads until all is `stable`, notes whether a read showed `noted`, and returns the number of reads and the last
one. The last read allowed is a failure whatever it shows. -/
def pollUntil (stable noted : Packets → Bool) (read : Nat → Except CmdError Packets) :
    Nat → Nat → Bool → Except CmdError (Nat × Packets × Bool)
  | 0, _, _ => .error .timeout
  | timeout + 1, k, seen =>
    match read k with
    | .error e => .error e
    | .ok data =>
      if timeout = 0 then .error .timeout
      else if stable data then .ok (k + 1, data, seen || noted data)
      else pollUntil stable noted read timeout (k + 1) (seen || noted data)

/-- Some interface shows a NOP. -/
def nopShown (nrCis : Nat) (data : Packets) : Bool := (List.range nrCis).any fun ci => decide (typeByte (data ci) = 0xFF)

/-- The interfaces show a NOP, or a result that is valid. -/
def resultsShown (nrCis : Nat) (data : Packets) : Bool :=
  (List.range nrCis).all fun ci =>
    decide (typeByte (data ci) = 0xFF ∨ typeByte (data ci) = 0 ∧ validByte (data ci) = 0xFF)

/-- No type is left. -/
def typesCleared (nrCis : Nat) (data : Packets) : Bool := (List.range nrCis).all fun ci => decide (typeByte (data ci) = 0)

/-- The interfaces show a result that is valid. -/
def resultsValid (nrCis : Nat) (data : Packets) : Bool :=
  (List.range nrCis).all fun ci => decide (typeByte (data ci) = 0 ∧ validByte (data ci) = 0xFF)

/-! ## The color -/

/-- The color of an interface by the bits that are set in its byte. -/
def colorsRead (data : Packets) : List Nat → Mask → Mask
  | [], color => color
  | ci :: rest, color =>
    colorsRead data rest
      (if dpuMaskCount (colorOf (data ci)) ≤ 3 then dpuMaskSelect color ci else dpuMaskUnselect color ci)

/-- A packet that is committed without a command of `exec_cmd`. -/
def Link.commit (l : Link) (data : Packets) (answer : Answer) : Except CmdError Link :=
  match answer with
  | .failed e _ => .error e
  | .done => .ok { l with wire := { l.wire with ci := fun i => (l.wire.ci i).receive (data i) } }

def Link.noteColors (l : Link) (data : Packets) : Link :=
  { l with wire := { l.wire with color := colorsRead data (List.range l.rank.nrCis) l.wire.color } }

/-- The reads and the commit of `ci_get_color`. -/
structure ColorAnswers where
  first : Reading
  commit : Answer
  second : Reading

/-- The identity that the interfaces with a NOP need to show a color. -/
def Link.dummyCommand (l : Link) (data : Packets) (a : ColorAnswers) : Except CmdError Link := do
  let l ← l.commit (fun ci => if typeByte (data ci) = 0xFF then ciIdentity else ciEmpty) a.commit
  let (_, data, _) ← pollUntil (typesCleared l.rank.nrCis) (fun _ => false) (a.second.read l.wire.ci) timeoutColor 0 false
  .ok (l.noteColors data)

/-- `ci_get_color`, with the results it has read. -/
def Link.getColor (l : Link) (a : ColorAnswers) : Except CmdError (Link × (Nat → BitVec 32)) := do
  let (k, _, dummyCommandIsNeeded) ← pollUntil (resultsShown l.rank.nrCis) (nopShown l.rank.nrCis)
    (a.first.read l.wire.ci) timeoutColor 0 false
  let data ← a.first.read l.wire.ci k
  let retData := fun ci => (data ci).setWidth 32
  if dummyCommandIsNeeded then (l.dummyCommand data a).map fun l => (l, retData)
  else .ok (l.noteColors data, retData)

/-! ## The debugger -/

/-- What a program has noted of its interfaces: structures are structure words. -/
structure Host where
  color : Mask
  structureValue : Nat → Word
  sliceTarget : Nat → SliceTarget
  structs : ∀ ci, structureValue ci = ciEmpty ∨ isStruct (structureValue ci) = true
  typed : ∀ ci, (sliceTarget ci).Typed

/-- `struct dpu_debug_context_t`. -/
structure DebugContext where
  debugColor : Mask
  debugResult : Nat → BitVec 32
  structureValue : Nat → Word
  sliceTarget : Nat → SliceTarget

structure Debugger where
  link : Link
  debug : DebugContext

/-- The answers of `ci_debug_restore_context_rank`. -/
structure RestoreAnswers where
  before : Reading
  selects : Nat → Nat → Answer
  identity : Nat → Answer
  structures : Answer
  after : Reading
  results : Answer

namespace Debugger

variable (d : Debugger)

/-- `ci_debug_save_context_rank`, and what the debugger is told of the program. -/
def attach (host : Host) (a : ColorAnswers) : Except CmdError Debugger :=
  (d.link.getColor a).map fun (link, results) =>
    ⟨link, ⟨link.wire.color, results, host.structureValue, host.sliceTarget⟩⟩

/-- The calls of the debugger, one after the other, whatever they return. -/
def calls : Debugger → List (Op × (Nat → Answer)) → Debugger
  | d, [] => d
  | d, (op, answers) :: rest => calls { d with link := (d.link.call op.program answers).2 } rest

end Debugger

/-- The link after a call that succeeds. -/
def succeeded : Except CmdError Unit × Link → Except CmdError Link
  | (.ok _, l) => .ok l
  | (.error e, _) => .error e

/-- The target of interface `ci`. -/
def DebugContext.restoreTarget (debug : DebugContext) (selects : Nat → Nat → Answer) (l : Link) (ci : Nat) :
    Except CmdError Link :=
  match debug.sliceTarget ci with
  | .none => .ok l
  | target => succeeded (l.call (selectUncached target (dpuMaskOne ci)) (selects ci))

/-- The interfaces whose color is the one expected, which have to change it once more. -/
def DebugContext.identityMask (debug : DebugContext) (l : Link) : Mask :=
  gatherMask l.rank.nrCis fun ci => l.wire.color.getLsbD ci == debug.debugColor.getLsbD ci

def DebugContext.restoreIdentity (debug : DebugContext) (identity : Nat → Answer) (l : Link) : Except CmdError Link :=
  if debug.identityMask l ≠ 0 then succeeded (l.call (prepareAndExec (debug.identityMask l) ciIdentity) identity)
  else .ok l

/-- The structures the program has written last are noted and sent. -/
def DebugContext.restoreStructures (debug : DebugContext) (answer : Answer) (l : Link) : Except CmdError Link :=
  Link.commit
    { l with
      rank := { l.rank with
        sliceInfo := fun ci =>
          if ci < l.rank.nrCis then { l.rank.sliceInfo ci with structureValue := debug.structureValue ci }
          else l.rank.sliceInfo ci } }
    (fun ci => if ci < l.rank.nrCis then debug.structureValue ci else ciEmpty) answer

/-- The structures have toggled the colors; the results are put back. -/
def DebugContext.restoreResults (debug : DebugContext) (answer : Answer) (l : Link) : Except CmdError Link :=
  Link.commit { l with wire := { l.wire with color := l.wire.color ^^^ dpuMaskAll l.rank.nrCis } }
    (fun ci => if ci < l.rank.nrCis then ciNop ||| (debug.debugResult ci).setWidth 64 else ciEmpty) answer

/-- `ci_debug_restore_context_rank`. -/
def Debugger.restoreContextRank (d : Debugger) (a : RestoreAnswers) : Except CmdError Debugger := do
  let _ ← pollUntil (typesCleared d.link.rank.nrCis) (fun _ => false) (a.before.read d.link.wire.ci) timeoutColor 0 false
  let l ← (List.range d.link.rank.nrCis).foldlM (d.debug.restoreTarget a.selects) d.link
  let l ← d.debug.restoreIdentity a.identity l
  let l ← d.debug.restoreStructures a.structures l
  let _ ← pollUntil (resultsValid l.rank.nrCis) (fun _ => false) (a.after.read l.wire.ci) timeoutColor 0 false
  let l ← d.debug.restoreResults a.results l
  .ok { d with link := l }

end DpuBackend.Ufi
