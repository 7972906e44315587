import DpuBackend.Lib.Ring
import Mathlib.Algebra.Order.Ring.Nat

/-
  The trace of the last command packets of a rank.

  `dpu_get_rank_of_type` allocates the trace with as many entries as the 64-bit
  property says and keeps that number in 32 bits; every packet sent or received
  is recorded in it, and a timeout dumps it. After `n` packets, with a size `s`
  other than 0, the cursor is `n % s`, the count `min n s`, the buffer has
  wrapped once `s ≤ n`, and the entries are a ring that holds the last `s`
  packets (`Traces`). That is what the property asked for as long as no bit of
  it is lost, or the trace has not yet wrapped round the 32-bit size; where the
  32 bits are all zero the first packet divides by zero, or is written behind
  the end of an empty buffer (`traced_iff`).

  Model (Lean)              Source (C)
  initCmdsBuffer            dpu_get_rank_of_type, debug commands buffer (api/src/dpu_management.c)
  debugRecordLastCmd        debug_record_last_cmd (ufi/src/ufi_rank_utils.h)
  logdLastCommands          LOGD_LAST_COMMANDS
  logPacket                 LOG_PACKET
-/

namespace DpuBackend.Ufi.CommandTrace

open Lib

/-! ## The source -/

/-- `struct dpu_command_t`. -/
structure DpuCommand where
  data : List UInt64
  direction : Char
deriving DecidableEq

/-- `struct dpu_circular_buffer_commands_t`, with the entries its `cmds` points to. -/
structure CmdsBuffer where
  allocated : Nat
  cmds : Nat → DpuCommand
  size : UInt32
  nb : UInt32
  idxLast : UInt32
  hasWrapped : Bool

inductive Fault where
  | outsideBuffer
  | divisionByZero
deriving DecidableEq, Repr

/-- The buffer of a rank that is zero everywhere else; `none` where the
allocation fails and the rank is refused. -/
def initCmdsBuffer (logdEnabled callocSucceeds : Bool) (debugCmdsBufferSize : UInt64) : Option CmdsBuffer :=
  let size := debugCmdsBufferSize.toUInt32
  let zeroes : DpuCommand := { data := List.replicate 8 0, direction := '\x00' }
  if logdEnabled then
    if callocSucceeds then
      some { allocated := debugCmdsBufferSize.toNat, cmds := fun _ => zeroes, size, nb := 0, idxLast := 0,
             hasWrapped := false }
    else none
  else
    -- no buffer: a null pointer has no entries
    some { allocated := 0, cmds := fun _ => zeroes, size, nb := 0, idxLast := 0, hasWrapped := false }

/-- A rank that `dpu_get_rank_of_type` returned. -/
structure Rank where
  logdEnabled : Bool
  callocSucceeds : Bool
  nrCis : Nat
  nrCis_le : nrCis ≤ 8
  cmdsBufferSize : UInt64
  cmdsBuffer : CmdsBuffer
  accepted : initCmdsBuffer logdEnabled callocSucceeds cmdsBufferSize = some cmdsBuffer

/-- The words of a packet, one for each control interface, and `WRITE_DIR` or `READ_DIR`. -/
structure Packet (nrCis : Nat) where
  commands : Vector UInt64 nrCis
  direction : Char

/-- What stands in a line of the log. -/
abbrev Line := List UInt64 × Char

def logPacket (nrCis : Nat) (command : DpuCommand) : Line := (command.data.take nrCis, command.direction)

def debugRecordLastCmd (rank : Rank) (p : Packet rank.nrCis) (debug : CmdsBuffer) : Except Fault CmdsBuffer :=
  if !rank.logdEnabled then .ok debug
  else if debug.idxLast.toNat < debug.allocated then
    let entry := debug.cmds debug.idxLast.toNat
    let entry : DpuCommand :=
      { data := p.commands.toList ++ entry.data.drop rank.nrCis, direction := p.direction }
    let debug := { debug with cmds := Function.update debug.cmds debug.idxLast.toNat entry }
    let debug := { debug with idxLast := debug.idxLast + 1 }
    let debug :=
      if !debug.hasWrapped then
        if debug.idxLast ≥ debug.size then { debug with hasWrapped := true, nb := debug.size }
        else { debug with nb := debug.nb + 1 }
      else debug
    if debug.size = 0 then .error .divisionByZero
    else .ok { debug with idxLast := debug.idxLast % debug.size }
  else .error .outsideBuffer

/-- The loop of the dump, with the packets it still has to list. -/
def dumpLoop (rank : Rank) (debug : CmdsBuffer) : Nat → UInt32 → Except Fault (List Line)
  | 0, _ => .ok []
  | nb + 1, idx =>
    if !rank.logdEnabled || decide (idx.toNat < debug.allocated) then
      if debug.size = 0 then .error .divisionByZero
      else do
        let rest ← dumpLoop rank debug nb ((idx + 1) % debug.size)
        .ok (if rank.logdEnabled then logPacket rank.nrCis (debug.cmds idx.toNat) :: rest else rest)
    else .error .outsideBuffer

def logdLastCommands (rank : Rank) (debug : CmdsBuffer) : Except Fault (List Line) :=
  dumpLoop rank debug debug.nb.toNat (if debug.hasWrapped then debug.idxLast else 0)

/-! ## A run -/

variable (rank : Rank) (packets : List (Packet rank.nrCis))

/-- One packet after another. -/
def record : Except Fault CmdsBuffer :=
  packets.foldlM (fun debug p => debugRecordLastCmd rank p debug) rank.cmdsBuffer

/-- The lines of the packets recorded: none where the log is off. -/
def recorded : List Line :=
  if rank.logdEnabled then packets.map fun p => (p.commands.toList, p.direction) else []

/-- No packet is written outside the buffer, nothing is divided by zero, and
the dump lists the last `min n size` packets recorded, oldest first. -/
def Traced : Prop :=
  ∃ debug, record rank packets = .ok debug ∧ logdLastCommands rank debug =
    .ok ((recorded rank packets).drop ((recorded rank packets).length - rank.cmdsBufferSize.toNat))

/-- Nothing is recorded, or the size has 32 bits that are not all zero, and
either these are all its bits or they are enough for the packets recorded. -/
def SizeSuffices : Prop :=
  recorded rank packets = [] ∨
    rank.cmdsBufferSize.toNat % 2 ^ 32 ≠ 0 ∧
      (rank.cmdsBufferSize.toNat < 2 ^ 32 ∨
        (recorded rank packets).length ≤ rank.cmdsBufferSize.toNat % 2 ^ 32)

variable {rank packets}

/-! ## The ring -/

/-- The size the buffer is used with. -/
def ringSize (rank : Rank) : Nat := rank.cmdsBufferSize.toNat % 2 ^ 32

/-- The buffer after the packets `xs`. -/
structure Ring (rank : Rank) (xs : List (Packet rank.nrCis)) (debug : CmdsBuffer) : Prop where
  allocated : debug.allocated = rank.cmdsBufferSize.toNat
  size : debug.size.toNat = ringSize rank
  nb : debug.nb.toNat = min xs.length (ringSize rank)
  idxLast : debug.idxLast.toNat = xs.length % ringSize rank
  hasWrapped : debug.hasWrapped = decide (ringSize rank ≤ xs.length)
  held : RingHolds (ringSize rank) (fun i => logPacket rank.nrCis (debug.cmds i))
    (xs.map fun p => (p.commands.toList, p.direction))

theorem ringSize_lt (rank : Rank) : ringSize rank < 2 ^ 32 := Nat.mod_lt _ (by decide)

theorem ringSize_le (rank : Rank) : ringSize rank ≤ rank.cmdsBufferSize.toNat := Nat.mod_le _ _

theorem cmdsBuffer_eq (rank : Rank) :
    rank.cmdsBuffer =
      { allocated := if rank.logdEnabled then rank.cmdsBufferSize.toNat else 0
        cmds := fun _ => { data := List.replicate 8 0, direction := '\x00' }
        size := rank.cmdsBufferSize.toUInt32, nb := 0, idxLast := 0, hasWrapped := false } := by
  have hbuffer := rank.accepted
  unfold initCmdsBuffer at hbuffer
  cases hlogd : rank.logdEnabled with
  | false =>
    rw [hlogd] at hbuffer
    exact (Option.some.inj hbuffer).symm
  | true =>
    cases hcalloc : rank.callocSucceeds with
    | false => simp [hlogd, hcalloc] at hbuffer
    | true =>
      rw [hlogd, hcalloc] at hbuffer
      exact (Option.some.inj hbuffer).symm

theorem Ring.init (hlogd : rank.logdEnabled = true) (hs : 0 < ringSize rank) : Ring rank [] rank.cmdsBuffer := by
  rw [cmdsBuffer_eq]
  exact
    { allocated := by simp [hlogd]
      size := by simp [ringSize]
      nb := by simp
      idxLast := by simp
      hasWrapped := by simp; omega
      held := ringHolds_nil }

section Step

variable {xs : List (Packet rank.nrCis)} {debug : CmdsBuffer}

theorem Ring.cursor_lt (h : Ring rank xs debug) (hs : 0 < ringSize rank) :
    debug.idxLast.toNat < ringSize rank := by
  rw [h.idxLast]
  exact Nat.mod_lt _ hs

theorem Ring.size_ne (h : Ring rank xs debug) (hs : 0 < ringSize rank) : debug.size ≠ 0 := by
  intro hzero
  have hsize := h.size
  simp [hzero] at hsize
  omega

theorem toNat_succ {a : UInt32} (h : a.toNat + 1 < 2 ^ 32) : (a + 1).toNat = a.toNat + 1 := by
  rw [UInt32.toNat_add]
  exact Nat.mod_eq_of_lt h

theorem Ring.cursor_succ (h : Ring rank xs debug) (hs : 0 < ringSize rank) :
    (debug.idxLast + 1).toNat = debug.idxLast.toNat + 1 := by
  have hlt := h.cursor_lt hs
  have h32 := ringSize_lt rank
  exact toNat_succ (by omega)

theorem Ring.cursor_next (h : Ring rank xs debug) (hs : 0 < ringSize rank) :
    ((debug.idxLast + 1) % debug.size).toNat = (xs.length + 1) % ringSize rank := by
  rw [UInt32.toNat_mod, h.cursor_succ hs, h.size, h.idxLast, Nat.mod_add_mod]

/-- The entry of the packet written, and no other one changed. -/
theorem Ring.held_next (h : Ring rank xs debug) (p : Packet rank.nrCis) :
    RingHolds (ringSize rank)
      (fun i => logPacket rank.nrCis (Function.update debug.cmds debug.idxLast.toNat
        { data := p.commands.toList ++ (debug.cmds debug.idxLast.toNat).data.drop rank.nrCis
          direction := p.direction } i))
      ((xs ++ [p]).map fun p => (p.commands.toList, p.direction)) := by
  rw [List.map_append, List.map_singleton]
  apply h.held.push
  · rw [List.length_map, ← h.idxLast, Function.update_self]
    simp [logPacket]
  · intro i hi
    rw [List.length_map, ← h.idxLast] at hi
    rw [Function.update_of_ne hi]

/-- One more packet, while no access leaves the buffer. -/
theorem Ring.record (h : Ring rank xs debug) (hlogd : rank.logdEnabled = true) (hs : 0 < ringSize rank)
    (p : Packet rank.nrCis) :
    ∃ debug', debugRecordLastCmd rank p debug = .ok debug' ∧ Ring rank (xs ++ [p]) debug' := by
  have hinside : debug.idxLast.toNat < debug.allocated := by
    rw [h.allocated]
    exact Nat.lt_of_lt_of_le (h.cursor_lt hs) (ringSize_le rank)
  have hsize := h.size_ne hs
  have hcursor := h.cursor_succ hs
  have hlength : (xs ++ [p]).length = xs.length + 1 := by simp
  by_cases hwrapped : ringSize rank ≤ xs.length
  · -- the buffer stays full
    have hflag : debug.hasWrapped = true := by simp [h.hasWrapped, hwrapped]
    refine ⟨_, by
      simp only [debugRecordLastCmd, hlogd, hinside, hsize, hflag, Bool.not_true, Bool.false_eq_true, if_true,
        if_false]
      rfl, ?_⟩
    exact
      { allocated := h.allocated
        size := h.size
        nb := by rw [hlength]; exact h.nb.trans (by omega)
        idxLast := by rw [hlength]; exact h.cursor_next hs
        hasWrapped := by rw [hlength]; simp; omega
        held := h.held_next p }
  · have hflag : debug.hasWrapped = false := by simp [h.hasWrapped, hwrapped]
    have hidx : debug.idxLast.toNat = xs.length := by
      rw [h.idxLast]
      exact Nat.mod_eq_of_lt (by omega)
    by_cases hfull : debug.size ≤ debug.idxLast + 1
    · -- the packet that fills the buffer
      have hlast : xs.length + 1 = ringSize rank := by
        rw [UInt32.le_iff_toNat_le, h.size, hcursor, hidx] at hfull
        omega
      refine ⟨_, by
        simp only [debugRecordLastCmd, hlogd, hinside, hsize, hflag, ge_iff_le, hfull, Bool.not_true, Bool.not_false,
          Bool.false_eq_true, if_true, if_false]
        rfl, ?_⟩
      exact
        { allocated := h.allocated
          size := h.size
          nb := by rw [hlength]; exact h.size.trans (by omega)
          idxLast := by rw [hlength]; exact h.cursor_next hs
          hasWrapped := by rw [hlength]; simp; omega
          held := h.held_next p }
    · have hroom : xs.length + 1 < ringSize rank := by
        rw [UInt32.le_iff_toNat_le, h.size, hcursor, hidx] at hfull
        omega
      have hnb : (debug.nb + 1).toNat = xs.length + 1 := by
        have h32 := ringSize_lt rank
        have hold := h.nb
        rw [toNat_succ (by omega)]
        omega
      refine ⟨_, by
        simp only [debugRecordLastCmd, hlogd, hinside, hsize, hflag, ge_iff_le, hfull, Bool.not_true, Bool.not_false,
          Bool.false_eq_true, if_true, if_false]
        rfl, ?_⟩
      exact
        { allocated := h.allocated
          size := h.size
          nb := by rw [hlength]; exact hnb.trans (by omega)
          idxLast := by rw [hlength]; exact h.cursor_next hs
          hasWrapped := by rw [hlength]; simp; omega
          held := h.held_next p }

end Step

/-- All packets, one after another. -/
theorem Ring.run (hlogd : rank.logdEnabled = true) (hs : 0 < ringSize rank) :
    ∀ (xs ys : List (Packet rank.nrCis)) (debug : CmdsBuffer), Ring rank xs debug →
      ∃ debug', ys.foldlM (fun debug p => debugRecordLastCmd rank p debug) debug = .ok debug' ∧
        Ring rank (xs ++ ys) debug'
  | xs, [], debug, h => ⟨debug, rfl, by simpa using h⟩
  | xs, p :: ys, debug, h => by
    obtain ⟨debug₁, hstep, hring⟩ := h.record hlogd hs p
    obtain ⟨debug₂, hrest, hall⟩ := Ring.run hlogd hs (xs ++ [p]) ys debug₁ hring
    refine ⟨debug₂, ?_, by simpa using hall⟩
    rw [List.foldlM_cons, hstep]
    exact hrest

/-! ## The dump -/

/-- From a cursor that stands for `a`, the loop lists the slots of `a`, `a + 1`, … -/
theorem dumpLoop_eq {debug : CmdsBuffer} (hlogd : rank.logdEnabled = true) (hs : 0 < ringSize rank)
    (hsize : debug.size.toNat = ringSize rank) (hallocated : debug.allocated = rank.cmdsBufferSize.toNat) :
    ∀ (nb a : Nat) (idx : UInt32), idx.toNat = a % ringSize rank →
      dumpLoop rank debug nb idx =
        .ok ((List.range nb).map fun j => logPacket rank.nrCis (debug.cmds ((a + j) % ringSize rank)))
  | 0, a, idx, _ => rfl
  | nb + 1, a, idx, hidx => by
    have hlt : idx.toNat < ringSize rank := by
      rw [hidx]
      exact Nat.mod_lt _ hs
    have hinside : idx.toNat < debug.allocated := by
      rw [hallocated]
      exact Nat.lt_of_lt_of_le hlt (ringSize_le rank)
    have hne : debug.size ≠ 0 := by
      intro hzero
      simp [hzero] at hsize
      omega
    have hnext : ((idx + 1) % debug.size).toNat = (a + 1) % ringSize rank := by
      have h32 := ringSize_lt rank
      rw [UInt32.toNat_mod, toNat_succ (by omega), hsize, hidx, Nat.mod_add_mod]
    rw [dumpLoop, dumpLoop_eq hlogd hs hsize hallocated nb (a + 1) _ hnext, List.range_succ_eq_map, List.map_cons,
      List.map_map, hidx]
    simp [hlogd, hidx ▸ hinside, hne, Nat.add_right_comm, Nat.add_assoc]
    rfl

theorem Ring.dump {xs : List (Packet rank.nrCis)} {debug : CmdsBuffer} (h : Ring rank xs debug)
    (hlogd : rank.logdEnabled = true) (hs : 0 < ringSize rank) :
    logdLastCommands rank debug =
      .ok ((xs.map fun p => (p.commands.toList, p.direction)).drop (xs.length - ringSize rank)) := by
  have hstart : (if debug.hasWrapped then debug.idxLast else 0 : UInt32).toNat =
      oldest (ringSize rank) xs.length % ringSize rank := by
    rw [h.hasWrapped, oldest]
    by_cases hwrapped : ringSize rank ≤ xs.length
    · simp [hwrapped, h.idxLast]
    · simp [hwrapped]
  have hwindow := h.held.window
  rw [List.length_map] at hwindow
  rw [logdLastCommands, dumpLoop_eq hlogd hs h.size h.allocated _ _ _ hstart, h.nb, ← hwindow]

/-! ## When the trace is right -/

theorem record_off (hlogd : rank.logdEnabled = false) : record rank packets = .ok rank.cmdsBuffer := by
  have hall : ∀ (ys : List (Packet rank.nrCis)) (debug : CmdsBuffer),
      ys.foldlM (fun debug p => debugRecordLastCmd rank p debug) debug = .ok debug := by
    intro ys debug
    induction ys with
    | nil => rfl
    | cons p ys ih =>
      rw [List.foldlM_cons, debugRecordLastCmd, hlogd]
      exact ih
  exact hall packets rank.cmdsBuffer

/-- Where nothing is recorded, nothing is listed. -/
theorem traced_of_nil (h : recorded rank packets = []) : Traced rank packets := by
  have hdump : logdLastCommands rank rank.cmdsBuffer = .ok [] := by
    rw [logdLastCommands, cmdsBuffer_eq]
    rfl
  refine ⟨rank.cmdsBuffer, ?_, by rw [hdump, h, List.drop_nil]⟩
  cases hlogd : rank.logdEnabled with
  | false => exact record_off hlogd
  | true =>
    rw [recorded, hlogd, if_pos rfl, List.map_eq_nil_iff] at h
    rw [h]
    rfl

/-- A size whose 32 bits are zero: the first packet. -/
theorem debugRecordLastCmd_zero (hlogd : rank.logdEnabled = true) {debug debug' : CmdsBuffer} (hsize : debug.size = 0)
    (p : Packet rank.nrCis) : debugRecordLastCmd rank p debug ≠ .ok debug' := by
  rw [debugRecordLastCmd, hlogd]
  by_cases hinside : debug.idxLast.toNat < debug.allocated
  · cases debug.hasWrapped with
    | false => simp [hinside, hsize]
    | true => simp [hinside, hsize]
  · simp [hinside]

theorem record_zero (hlogd : rank.logdEnabled = true) (hs : ringSize rank = 0) (p : Packet rank.nrCis)
    (ps : List (Packet rank.nrCis)) (debug : CmdsBuffer) : record rank (p :: ps) ≠ .ok debug := by
  have hsize : rank.cmdsBuffer.size = 0 := by
    rw [cmdsBuffer_eq, ← UInt32.toNat_inj]
    simpa [ringSize] using hs
  intro hrun
  rw [record, List.foldlM_cons] at hrun
  cases hstep : debugRecordLastCmd rank p rank.cmdsBuffer with
  | error fault => simp [hstep, bind, Except.bind] at hrun
  | ok debug₁ => exact debugRecordLastCmd_zero hlogd hsize p hstep

theorem record_ring (hlogd : rank.logdEnabled = true) (hs : 0 < ringSize rank) :
    ∃ debug, record rank packets = .ok debug ∧ Ring rank packets debug :=
  Ring.run hlogd hs [] packets rank.cmdsBuffer (Ring.init hlogd hs)

theorem drop_last_iff {α : Type} {xs : List α} {m n : Nat} :
    xs.drop (xs.length - m) = xs.drop (xs.length - n) ↔ min xs.length m = min xs.length n := by
  constructor
  · intro h
    have hlength := congrArg List.length h
    simp only [List.length_drop] at hlength
    omega
  · intro h
    rw [show xs.length - m = xs.length - n by omega]

/-- The trace is right if and only if the size in 32 bits suffices. -/
theorem traced_iff (rank : Rank) (packets : List (Packet rank.nrCis)) :
    Traced rank packets ↔ SizeSuffices rank packets := by
  by_cases hnil : recorded rank packets = []
  · exact ⟨fun _ => Or.inl hnil, fun _ => traced_of_nil hnil⟩
  have hlogd : rank.logdEnabled = true := by
    cases hlogd : rank.logdEnabled with
    | false => exact absurd (by simp [recorded, hlogd]) hnil
    | true => rfl
  have hrecorded : recorded rank packets = packets.map fun p => (p.commands.toList, p.direction) := by
    simp [recorded, hlogd]
  rw [SizeSuffices, or_iff_right hnil]
  by_cases hs : ringSize rank = 0
  · have hzero : rank.cmdsBufferSize.toNat % 2 ^ 32 = 0 := hs
    simp only [hzero, ne_eq, not_true_eq_false, false_and, iff_false]
    intro ⟨debug, hrun, _⟩
    cases packets with
    | nil => exact hnil (by rw [hrecorded]; rfl)
    | cons p ps => exact record_zero hlogd hs p ps debug hrun
  · obtain ⟨debug, hrun, hring⟩ : ∃ debug, record rank packets = .ok debug ∧ Ring rank packets debug :=
      record_ring hlogd (Nat.pos_of_ne_zero hs)
    have hdump := hring.dump hlogd (Nat.pos_of_ne_zero hs)
    have hlength : (recorded rank packets).length = packets.length := by rw [hrecorded, List.length_map]
    have hiff : Traced rank packets ↔
        (recorded rank packets).drop (packets.length - ringSize rank) =
          (recorded rank packets).drop (packets.length - rank.cmdsBufferSize.toNat) := by
      rw [Traced, hrun, hlength, hrecorded]
      constructor
      · intro ⟨debug', heq, hlisted⟩
        rw [← Except.ok.inj heq, hdump] at hlisted
        exact Except.ok.inj hlisted
      · intro hlisted
        exact ⟨debug, rfl, by rw [hdump, hlisted]⟩
    rw [hiff, ← hlength, drop_last_iff]
    have hle := ringSize_le rank
    have h32 := ringSize_lt rank
    rw [ringSize] at *
    omega

/-- A rank whose profile asks for a buffer of no entries; the allocation of
nothing succeeds. -/
def emptyBuffer : Rank where
  logdEnabled := true
  callocSucceeds := true
  nrCis := 8
  nrCis_le := Nat.sub_le 8 0
  cmdsBufferSize := 0
  cmdsBuffer :=
    { allocated := 0, cmds := fun _ => { data := List.replicate 8 0, direction := '\x00' }
      size := 0, nb := 0, idxLast := 0, hasWrapped := false }
  accepted := rfl

def firstPacket : Packet 8 where
  commands := #v[0, 0, 0, 0, 0, 0, 0, 0]
  direction := 'W'

/-- The first packet is written behind the end of the empty buffer. -/
theorem emptyBuffer_untraced :
    record emptyBuffer [firstPacket] = .error .outsideBuffer ∧ ¬ Traced emptyBuffer [firstPacket] := by
  have hrun : record emptyBuffer [firstPacket] = .error .outsideBuffer := rfl
  refine ⟨hrun, ?_⟩
  intro ⟨debug, hok, _⟩
  rw [hrun] at hok
  cases hok

end DpuBackend.Ufi.CommandTrace
