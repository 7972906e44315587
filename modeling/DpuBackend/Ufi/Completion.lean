import Mathlib.Data.BitVec
import DpuBackend.Ufi.Commands

/-
  How `exec_cmd` tells that a command is finished (`ufi_ci.c`).

  Correspondence (C ↔ Lean):
    `compute_masks`                         ↔ `computeMasks`
    `determine_if_commands_are_finished`    ↔ `determineIfCommandsAreFinished`
    `exec_cmd`, `invert_color`              ↔ `execCmdPolls`

  What the driver returns is given: whether the commit succeeds, and for each
  update an error or the packets of the control interfaces. A poll goes over the
  interfaces in order and stops at the first whose packet does not finish its
  command. Beside the code's own state a run notes the packet that each
  interface was marked done with.

  The polls of a rank whose packets are never ambiguous are described by
  `settle`, which knows nothing of fault bits or of the case of four differing
  bits; `poll_unambiguous` compares the two.
-/

namespace DpuBackend.Ufi

/-- `CI_NOP`. -/
def ciNop : Word := 0xFF00000000000000#64

/-- `NB_RETRY_FOR_VALID_RESULT`. -/
def nbRetryForValidResult : Nat := 100

/-- One packet for each control interface. -/
abbrev Packets := Nat → Word

/-- The part of a rank that `exec_cmd` uses. -/
structure CompletionRank where
  nrCis : Nat
  nrCis_le : nrCis ≤ 8
  nrDpus : Nat
  chipV14 : Bool
  sliceInfo : Nat → SliceInfo
  color : Mask
  faultDecode : Mask
  faultCollide : Mask

/-- `masks`, `expected` and `is_done`, and the interfaces that get a command. -/
structure CommandMasks where
  masks : Nat → Word
  expected : Nat → Word
  isDone : Nat → Bool
  cis : Mask

/-! ## The code -/

/-- The interfaces that get a command. -/
def CompletionRank.commanded (r : CompletionRank) (commands : Packets) (ci : Nat) : Bool :=
  decide (ci < r.nrCis) && decide (commands ci ≠ ciEmpty)

def computeMasks (r : CompletionRank) (commands : Packets) (addSelectMask : Bool) :
    Except CmdError CommandMasks :=
  if addSelectMask && (List.range r.nrCis).any fun ci =>
      r.commanded commands ci && ((r.sliceInfo ci).selectedDpuMask r.nrDpus).isNone then .error .internal
  else
    .ok
      { masks := fun ci =>
          if r.commanded commands ci then
            0xFF0000FF00000000#64 ||| if addSelectMask then BitVec.ofNat 64 (2 ^ r.nrDpus - 1) else 0
          else 0
        expected := fun ci =>
          if r.commanded commands ci then
            0x000000FF00000000#64 |||
              if addSelectMask then (((r.sliceInfo ci).selectedDpuMask r.nrDpus).getD 0).setWidth 64 else 0
          else 0
        isDone := fun ci => decide (ci < r.nrCis) && !r.commanded commands ci
        cis := gatherMask r.nrCis (r.commanded commands) }

/-- The color byte of a packet. -/
def colorOf (result : Word) : Mask := (result &&& 0x00FF000000000000#64) >>> 48 |>.setWidth 8

/-- The packet shows a result, or the debugger has restored one. -/
def CommandMasks.shows (m : CommandMasks) (ci : Nat) (result : Word) : Bool :=
  result &&& m.masks ci = m.expected ci ∨ result &&& ciNop = ciNop

structure PollState where
  isDone : Nat → Bool
  faultDecode : Mask
  faultCollide : Mask
  /-- The interfaces that were marked done, each with its packet, the last one first. -/
  completed : List (Nat × Word)

def PollState.markDone (s : PollState) (ci : Nat) (result : Word) : PollState :=
  { s with
    isDone := fun ci' => if ci' = ci then true else s.isDone ci'
    completed := (ci, result) :: s.completed }

def PollState.decodeError (s : PollState) (ci : Nat) : PollState :=
  { s with faultDecode := s.faultDecode ||| dpuMaskOne ci }

def PollState.collision (s : PollState) (ci : Nat) : PollState :=
  { s with faultCollide := s.faultCollide ||| dpuMaskOne ci }

/-- The loop over the control interfaces that are left: whether all are finished. -/
def determineIfCommandsAreFinished (m : CommandMasks) (expectedColor : Mask) (data : Packets) :
    List Nat → PollState → Bool × PollState
  | [], s => (true, s)
  | ci :: rest, s =>
    if s.isDone ci then determineIfCommandsAreFinished m expectedColor data rest s
    else if !m.shows ci (data ci) then (false, s)
    else
      let nbBitsSet := dpuMaskCount (colorOf (data ci))
      if (if expectedColor.getLsbD ci then decide (nbBitsSet ≤ 3) else decide (nbBitsSet ≥ 5)) then (false, s)
      else
        let s := s.markDone ci (data ci)
        match if expectedColor.getLsbD ci then 8 - nbBitsSet else nbBitsSet with
        | 0 => determineIfCommandsAreFinished m expectedColor data rest s
        | 1 => determineIfCommandsAreFinished m expectedColor data rest (s.decodeError ci)
        | 2 => determineIfCommandsAreFinished m expectedColor data rest (s.collision ci)
        | 3 => determineIfCommandsAreFinished m expectedColor data rest ((s.collision ci).decodeError ci)
        | _ => (false, s)

/-- The loop of `exec_cmd` with `nr_retries` left, where `k` packets have been read: the number of packets read
in the end. -/
def pollCommands (nrCis : Nat) (m : CommandMasks) (expectedColor : Mask) (reads : Nat → Except CmdError Packets) :
    Nat → Nat → PollState → Except CmdError Nat × PollState
  | nrRetries, k, s =>
    match reads k with
    | .error e => (.error e, s)
    | .ok data =>
      match determineIfCommandsAreFinished m expectedColor data (List.range nrCis) s with
      | (true, s) => (.ok (k + 1), s)
      | (false, s) =>
        match nrRetries with
        | 0 => (.error .timeout, s)
        | nrRetries + 1 => pollCommands nrCis m expectedColor reads nrRetries (k + 1) s

/-- What `exec_cmd` returns and leaves. -/
structure ExecResult where
  status : Except CmdError Unit
  color : Mask
  faultDecode : Mask
  faultCollide : Mask
  completed : List (Nat × Word)

def execCmdPolls (r : CompletionRank) (commands : Packets) (addSelectMask : Bool) (commit : Except CmdError Unit)
    (reads : Nat → Except CmdError Packets) : ExecResult :=
  match computeMasks r commands addSelectMask with
  | .error e => ⟨.error e, r.color, r.faultDecode, r.faultCollide, []⟩
  | .ok m =>
    let color := r.color ^^^ m.cis
    match commit with
    | .error e => ⟨.error e, color, r.faultDecode, r.faultCollide, []⟩
    | .ok _ =>
      match pollCommands r.nrCis m (r.color &&& m.cis) reads nbRetryForValidResult 0
          ⟨m.isDone, r.faultDecode, r.faultCollide, []⟩ with
      | (.error e, s) => ⟨.error e, color, s.faultDecode, s.faultCollide, s.completed⟩
      | (.ok k, s) =>
        -- the results are read once more, unless the chip is known to be right
        let status := if r.chipV14 then .ok () else (reads k).map fun _ => ()
        ⟨status, color, s.faultDecode, s.faultCollide, s.completed⟩

/-! ## What completion means -/

/-- The color byte that shows the end of a command. -/
def expectedByte (expectedColor : Mask) (ci : Nat) : Mask := if expectedColor.getLsbD ci then 0xFF#8 else 0#8

def differingBits (expectedColor : Mask) (ci : Nat) (result : Word) : Nat :=
  dpuMaskCount (colorOf result ^^^ expectedByte expectedColor ci)

/-- The packet finishes the command of the interface. -/
def Completes (m : CommandMasks) (expectedColor : Mask) (ci : Nat) (result : Word) : Prop :=
  m.shows ci result = true ∧ differingBits expectedColor ci result ≤ 3

/-- The packet shows a result, and as many bits of its color are as before. -/
def Ambiguous (m : CommandMasks) (expectedColor : Mask) (ci : Nat) (result : Word) : Prop :=
  m.shows ci result = true ∧ differingBits expectedColor ci result = 4

instance (m : CommandMasks) (expectedColor : Mask) (ci : Nat) (result : Word) :
    Decidable (Completes m expectedColor ci result) := inferInstanceAs (Decidable (_ ∧ _))

/-- The packets in `completed` finish their commands and were read; and after a success each command has one, and
the fault bits have gained the interfaces whose packet has the faults. -/
structure ExecResult.Sound (r : CompletionRank) (commands : Packets) (m : CommandMasks)
    (reads : Nat → Except CmdError Packets) (result : ExecResult) : Prop where
  completes : ∀ p ∈ result.completed, Completes m (r.color &&& m.cis) p.1 p.2
  read : ∀ p ∈ result.completed, ∃ k data, reads k = .ok data ∧ data p.1 = p.2
  finished : result.status = .ok () → ∀ ci < r.nrCis, commands ci ≠ ciEmpty → ∃ w, (ci, w) ∈ result.completed
  faultDecode : result.status = .ok () → ∀ ci, result.faultDecode.getLsbD ci = true ↔
    r.faultDecode.getLsbD ci = true ∨ ∃ w, (ci, w) ∈ result.completed ∧
      (differingBits (r.color &&& m.cis) ci w = 1 ∨ differingBits (r.color &&& m.cis) ci w = 3)
  faultCollide : result.status = .ok () → ∀ ci, result.faultCollide.getLsbD ci = true ↔
    r.faultCollide.getLsbD ci = true ∨ ∃ w, (ci, w) ∈ result.completed ∧
      (differingBits (r.color &&& m.cis) ci w = 2 ∨ differingBits (r.color &&& m.cis) ci w = 3)

/-- Completion is sound for a vector of commands: if the masks cannot be computed nothing is done. -/
def CompletionSound (r : CompletionRank) (commands : Packets) (addSelectMask : Bool)
    (commit : Except CmdError Unit) (reads : Nat → Except CmdError Packets) : Prop :=
  match computeMasks r commands addSelectMask with
  | .error e => (execCmdPolls r commands addSelectMask commit reads).status = .error e
  | .ok m => (execCmdPolls r commands addSelectMask commit reads).Sound r commands m reads

/-! ## When it is -/

/-- A poll that only looks for packets that finish a command: the interfaces done after it, and the one it
stops at. -/
def settle (m : CommandMasks) (expectedColor : Mask) (data : Packets) :
    List Nat → (Nat → Bool) → (Nat → Bool) × Option Nat
  | [], done => (done, none)
  | ci :: rest, done =>
    if done ci then settle m expectedColor data rest done
    else if Completes m expectedColor ci (data ci) then
      settle m expectedColor data rest fun ci' => if ci' = ci then true else done ci'
    else (done, some ci)

/-- The polls that such a run comes to, each with the interfaces that are done before it. -/
inductive CommandsPolled (nrCis : Nat) (m : CommandMasks) (expectedColor : Mask)
    (reads : Nat → Except CmdError Packets) : Nat → (Nat → Bool) → Prop where
  | first : CommandsPolled nrCis m expectedColor reads 0 m.isDone
  | next {k : Nat} {done : Nat → Bool} {data : Packets} : CommandsPolled nrCis m expectedColor reads k done →
      k < nbRetryForValidResult → reads k = .ok data →
      (settle m expectedColor data (List.range nrCis) done).2 ≠ none →
      CommandsPolled nrCis m expectedColor reads (k + 1) (settle m expectedColor data (List.range nrCis) done).1

/-- No poll stops at an ambiguous packet. -/
def Unambiguous (nrCis : Nat) (m : CommandMasks) (expectedColor : Mask)
    (reads : Nat → Except CmdError Packets) : Prop :=
  ∀ k done data ci, CommandsPolled nrCis m expectedColor reads k done → reads k = .ok data →
    (settle m expectedColor data (List.range nrCis) done).2 = some ci → ¬ Ambiguous m expectedColor ci (data ci)

/-- The packets are polled, and none that a poll stops at is ambiguous. -/
def PollsUnambiguous (r : CompletionRank) (commands : Packets) (addSelectMask : Bool) (commit : Except CmdError Unit)
    (reads : Nat → Except CmdError Packets) : Prop :=
  ∀ m, computeMasks r commands addSelectMask = .ok m → commit = .ok () →
    Unambiguous r.nrCis m (r.color &&& m.cis) reads

/-! ## One packet -/

theorem dpuMaskCount_le (mask : Mask) : dpuMaskCount mask ≤ 8 := List.countP_le_length

theorem dpuMaskCount_not (mask : Mask) : dpuMaskCount (mask ^^^ 0xFF#8) = 8 - dpuMaskCount mask := by
  have hsplit : (List.range 8).length = dpuMaskCount mask + (List.range 8).countP fun i => !mask.getLsbD i := by
    rw [List.length_eq_countP_add_countP fun i => mask.getLsbD i]
    simp [dpuMaskCount]
  have hflip : dpuMaskCount (mask ^^^ 0xFF#8) = (List.range 8).countP fun i => !mask.getLsbD i := by
    apply List.countP_congr
    intro i hi
    have hi : i < 8 := List.mem_range.1 hi
    have hones : (0xFF#8).getLsbD i = true := by
      change (BitVec.allOnes 8).getLsbD i = true
      rw [BitVec.getLsbD_allOnes, decide_eq_true hi]
    rw [BitVec.getLsbD_xor, hones, Bool.xor_true]
  rw [List.length_range] at hsplit
  omega

theorem differingBits_eq (expectedColor : Mask) (ci : Nat) (result : Word) :
    differingBits expectedColor ci result =
      if expectedColor.getLsbD ci then 8 - dpuMaskCount (colorOf result) else dpuMaskCount (colorOf result) := by
  unfold differingBits expectedByte
  split
  · exact dpuMaskCount_not _
  · rw [BitVec.xor_zero]

/-- The state after a packet that finishes the command of an interface. -/
def PollState.finish (s : PollState) (expectedColor : Mask) (ci : Nat) (result : Word) : PollState :=
  match differingBits expectedColor ci result with
  | 1 => (s.markDone ci result).decodeError ci
  | 2 => (s.markDone ci result).collision ci
  | 3 => ((s.markDone ci result).collision ci).decodeError ci
  | _ => s.markDone ci result

section

variable {m : CommandMasks} {expectedColor : Mask} {data : Packets} {ci : Nat} {rest : List Nat} {s : PollState}

theorem determine_done (h : s.isDone ci = true) :
    determineIfCommandsAreFinished m expectedColor data (ci :: rest) s =
      determineIfCommandsAreFinished m expectedColor data rest s := by
  rw [determineIfCommandsAreFinished, if_pos h]

/-- The check of the color byte. -/
theorem color_refused (result : Word) :
    (if expectedColor.getLsbD ci then decide (dpuMaskCount (colorOf result) ≤ 3)
      else decide (dpuMaskCount (colorOf result) ≥ 5)) = decide (5 ≤ differingBits expectedColor ci result) := by
  have hle := dpuMaskCount_le (colorOf result)
  rw [differingBits_eq]
  split
  · apply decide_eq_decide.2
    omega
  · rfl

theorem determine_shows (h : s.isDone ci = false) (hshows : m.shows ci (data ci) = true)
    (hbits : differingBits expectedColor ci (data ci) ≤ 4) :
    determineIfCommandsAreFinished m expectedColor data (ci :: rest) s =
      match differingBits expectedColor ci (data ci) with
      | 0 => determineIfCommandsAreFinished m expectedColor data rest (s.markDone ci (data ci))
      | 1 => determineIfCommandsAreFinished m expectedColor data rest ((s.markDone ci (data ci)).decodeError ci)
      | 2 => determineIfCommandsAreFinished m expectedColor data rest ((s.markDone ci (data ci)).collision ci)
      | 3 => determineIfCommandsAreFinished m expectedColor data rest
          (((s.markDone ci (data ci)).collision ci).decodeError ci)
      | _ => (false, s.markDone ci (data ci)) := by
  rw [determineIfCommandsAreFinished, if_neg (by rw [h]; exact Bool.false_ne_true), if_neg (by rw [hshows]; decide)]
  dsimp only
  rw [color_refused, ← differingBits_eq, if_neg (by rw [decide_eq_true_iff]; omega)]

theorem determine_completes (h : s.isDone ci = false) (hgood : Completes m expectedColor ci (data ci)) :
    determineIfCommandsAreFinished m expectedColor data (ci :: rest) s =
      determineIfCommandsAreFinished m expectedColor data rest (s.finish expectedColor ci (data ci)) := by
  have hle := hgood.2
  rw [determine_shows h hgood.1 (by omega), PollState.finish]
  generalize differingBits expectedColor ci (data ci) = n at hle
  match n, hle with
  | 0, _ | 1, _ | 2, _ | 3, _ => rfl

theorem determine_ambiguous (h : s.isDone ci = false) (hambiguous : Ambiguous m expectedColor ci (data ci)) :
    determineIfCommandsAreFinished m expectedColor data (ci :: rest) s = (false, s.markDone ci (data ci)) := by
  rw [determine_shows h hambiguous.1 (Nat.le_of_eq hambiguous.2), hambiguous.2]
  rfl

theorem determine_other (h : s.isDone ci = false) (hbad : ¬ Completes m expectedColor ci (data ci))
    (hclear : ¬ Ambiguous m expectedColor ci (data ci)) :
    determineIfCommandsAreFinished m expectedColor data (ci :: rest) s = (false, s) := by
  rw [determineIfCommandsAreFinished, if_neg (by rw [h]; exact Bool.false_ne_true)]
  by_cases hshows : m.shows ci (data ci) = true
  · have hmany : 5 ≤ differingBits expectedColor ci (data ci) := by
      by_contra hfew
      by_cases hfour : differingBits expectedColor ci (data ci) = 4
      · exact hclear ⟨hshows, hfour⟩
      · exact hbad ⟨hshows, by omega⟩
    rw [if_neg (by rw [hshows]; decide)]
    dsimp only
    rw [color_refused, if_pos (decide_eq_true hmany)]
  · rw [Bool.not_eq_true] at hshows
    rw [if_pos (by rw [hshows]; rfl)]

end

/-! ## One poll -/

theorem finish_isDone (s : PollState) (expectedColor : Mask) (ci : Nat) (result : Word) :
    (s.finish expectedColor ci result).isDone = fun ci' => if ci' = ci then true else s.isDone ci' := by
  unfold PollState.finish
  split <;> rfl

theorem finish_completed (s : PollState) (expectedColor : Mask) (ci : Nat) (result : Word) :
    (s.finish expectedColor ci result).completed = (ci, result) :: s.completed := by
  unfold PollState.finish
  split <;> rfl

/-- What the state of a poll says of the packets read so far. -/
structure PollState.Fits (m : CommandMasks) (expectedColor : Mask) (reads : Nat → Except CmdError Packets)
    (faultDecode faultCollide : Mask) (s : PollState) : Prop where
  completes : ∀ p ∈ s.completed, Completes m expectedColor p.1 p.2
  read : ∀ p ∈ s.completed, ∃ k data, reads k = .ok data ∧ data p.1 = p.2
  done : ∀ ci, s.isDone ci = true → m.isDone ci = true ∨ ∃ w, (ci, w) ∈ s.completed
  faultDecode : ∀ ci, s.faultDecode.getLsbD ci = true ↔ faultDecode.getLsbD ci = true ∨
    ∃ w, (ci, w) ∈ s.completed ∧ (differingBits expectedColor ci w = 1 ∨ differingBits expectedColor ci w = 3)
  faultCollide : ∀ ci, s.faultCollide.getLsbD ci = true ↔ faultCollide.getLsbD ci = true ∨
    ∃ w, (ci, w) ∈ s.completed ∧ (differingBits expectedColor ci w = 2 ∨ differingBits expectedColor ci w = 3)

theorem finish_faultDecode (s : PollState) (expectedColor : Mask) (ci : Nat) (result : Word) (ci' : Nat) :
    (s.finish expectedColor ci result).faultDecode.getLsbD ci' = true ↔
      s.faultDecode.getLsbD ci' = true ∨ (ci' < 8 ∧ ci' = ci) ∧
        (differingBits expectedColor ci result = 1 ∨ differingBits expectedColor ci result = 3) := by
  unfold PollState.finish
  split <;> simp_all [PollState.markDone, PollState.decodeError, PollState.collision]

theorem finish_faultCollide (s : PollState) (expectedColor : Mask) (ci : Nat) (result : Word) (ci' : Nat) :
    (s.finish expectedColor ci result).faultCollide.getLsbD ci' = true ↔
      s.faultCollide.getLsbD ci' = true ∨ (ci' < 8 ∧ ci' = ci) ∧
        (differingBits expectedColor ci result = 2 ∨ differingBits expectedColor ci result = 3) := by
  unfold PollState.finish
  split <;> simp_all [PollState.markDone, PollState.decodeError, PollState.collision]

/-- A fault bit after one more packet. -/
theorem fault_cons (faulty : Nat → Word → Prop) {old : Prop} {ci : Nat} (hci : ci < 8) (w : Word) (ci' : Nat)
    (completed : List (Nat × Word)) :
    (old ∨ ∃ w', (ci', w') ∈ completed ∧ faulty ci' w') ∨ (ci' < 8 ∧ ci' = ci) ∧ faulty ci w ↔
      old ∨ ∃ w', (ci', w') ∈ (ci, w) :: completed ∧ faulty ci' w' := by
  constructor
  · intro h
    rcases h with (hold | ⟨w', hmem, hfault⟩) | ⟨⟨-, rfl⟩, hfault⟩
    · exact .inl hold
    · exact .inr ⟨w', List.mem_cons_of_mem _ hmem, hfault⟩
    · exact .inr ⟨w, List.mem_cons_self .., hfault⟩
  · intro h
    rcases h with hold | ⟨w', hmem, hfault⟩
    · exact .inl (.inl hold)
    · rcases List.mem_cons.1 hmem with heq | hmem
      · obtain ⟨rfl, rfl⟩ : ci' = ci ∧ w' = w := by simpa using heq
        exact .inr ⟨⟨hci, rfl⟩, hfault⟩
      · exact .inl (.inr ⟨w', hmem, hfault⟩)

theorem PollState.Fits.finish {m : CommandMasks} {expectedColor : Mask} {reads : Nat → Except CmdError Packets}
    {faultDecode faultCollide : Mask} {s : PollState} (h : s.Fits m expectedColor reads faultDecode faultCollide)
    {k : Nat} {data : Packets} (hread : reads k = .ok data) {ci : Nat} (hci : ci < 8)
    (hgood : Completes m expectedColor ci (data ci)) :
    (s.finish expectedColor ci (data ci)).Fits m expectedColor reads faultDecode faultCollide where
  completes p hp := by
    rw [finish_completed] at hp
    rcases List.mem_cons.1 hp with rfl | hp
    · exact hgood
    · exact h.completes p hp
  read p hp := by
    rw [finish_completed] at hp
    rcases List.mem_cons.1 hp with rfl | hp
    · exact ⟨k, data, hread, rfl⟩
    · exact h.read p hp
  done ci' hdone := by
    rw [finish_isDone] at hdone
    rw [finish_completed]
    by_cases hci' : ci' = ci
    · exact .inr ⟨data ci, by rw [hci']; exact List.mem_cons_self ..⟩
    · change (if ci' = ci then true else s.isDone ci') = true at hdone
      rw [if_neg hci'] at hdone
      exact (h.done ci' hdone).imp_right fun ⟨w, hw⟩ => ⟨w, List.mem_cons_of_mem _ hw⟩
  faultDecode ci' := by
    rw [finish_faultDecode, h.faultDecode, finish_completed]
    exact fault_cons (fun ci w => differingBits expectedColor ci w = 1 ∨ differingBits expectedColor ci w = 3) hci ..
  faultCollide ci' := by
    rw [finish_faultCollide, h.faultCollide, finish_completed]
    exact fault_cons (fun ci w => differingBits expectedColor ci w = 2 ∨ differingBits expectedColor ci w = 3) hci ..

/-- The poll goes on as far as `settle`, and marks the interface done where it stops at an ambiguous packet. -/
theorem determine_settle {m : CommandMasks} {expectedColor : Mask} {reads : Nat → Except CmdError Packets} {k : Nat}
    {data : Packets} (hread : reads k = .ok data) {l : List Nat} (hl : ∀ ci ∈ l, ci < 8) (s : PollState) :
    ∃ s', s'.isDone = (settle m expectedColor data l s.isDone).1 ∧
      (∀ faultDecode faultCollide, s.Fits m expectedColor reads faultDecode faultCollide →
        s'.Fits m expectedColor reads faultDecode faultCollide) ∧
      match (settle m expectedColor data l s.isDone).2 with
      | none => determineIfCommandsAreFinished m expectedColor data l s = (true, s')
      | some ci =>
        (Ambiguous m expectedColor ci (data ci) →
          determineIfCommandsAreFinished m expectedColor data l s = (false, s'.markDone ci (data ci))) ∧
        (¬ Ambiguous m expectedColor ci (data ci) →
          determineIfCommandsAreFinished m expectedColor data l s = (false, s')) := by
  induction l generalizing s with
  | nil => exact ⟨s, rfl, fun _ _ h => h, rfl⟩
  | cons ci rest ih =>
    have hrest := fun ci hci => hl ci (List.mem_cons_of_mem _ hci)
    rw [settle]
    cases hdone : s.isDone ci with
    | true =>
      rw [if_pos rfl, determine_done hdone]
      exact ih hrest s
    | false =>
      rw [if_neg Bool.false_ne_true]
      by_cases hgood : Completes m expectedColor ci (data ci)
      · rw [if_pos hgood, determine_completes hdone hgood, ← finish_isDone s expectedColor ci (data ci)]
        obtain ⟨s', hisDone, hfits, hrun⟩ := ih hrest (s.finish expectedColor ci (data ci))
        exact ⟨s', hisDone, fun _ _ h => hfits _ _ (h.finish hread (hl ci (List.mem_cons_self ..)) hgood), hrun⟩
      · rw [if_neg hgood]
        exact ⟨s, rfl, fun _ _ h => h, determine_ambiguous hdone, determine_other hdone hgood⟩

theorem settle_none {m : CommandMasks} {expectedColor : Mask} {data : Packets} {l : List Nat} {done : Nat → Bool}
    (h : (settle m expectedColor data l done).2 = none) :
    (∀ ci ∈ l, (settle m expectedColor data l done).1 ci = true) ∧
      ∀ ci, done ci = true → (settle m expectedColor data l done).1 ci = true := by
  induction l generalizing done with
  | nil => exact ⟨nofun, fun _ h => h⟩
  | cons ci rest ih =>
    rw [settle] at h ⊢
    split at h
    · next hdone =>
      rw [if_pos hdone]
      obtain ⟨hrest, hkeep⟩ := ih h
      refine ⟨fun ci' hci' => ?_, hkeep⟩
      rcases List.mem_cons.1 hci' with rfl | hci'
      · exact hkeep _ hdone
      · exact hrest ci' hci'
    · next hdone =>
      rw [if_neg hdone]
      split at h
      · next hgood =>
        rw [if_pos hgood]
        obtain ⟨hrest, hkeep⟩ := ih h
        refine ⟨fun ci' hci' => ?_, fun ci' hci' => hkeep ci' ?_⟩
        · rcases List.mem_cons.1 hci' with rfl | hci'
          · exact hkeep _ (if_pos rfl)
          · exact hrest ci' hci'
        · split
          · rfl
          · exact hci'
      · cases h

/-- A poll takes nothing back. -/
theorem determine_completed (m : CommandMasks) (expectedColor : Mask) (data : Packets) (l : List Nat) (s : PollState) :
    s.completed ⊆ (determineIfCommandsAreFinished m expectedColor data l s).2.completed := by
  induction l generalizing s with
  | nil => exact List.Subset.refl _
  | cons ci rest ih =>
    cases hdone : s.isDone ci with
    | true =>
      rw [determine_done hdone]
      exact ih s
    | false =>
      by_cases hgood : Completes m expectedColor ci (data ci)
      · rw [determine_completes hdone hgood]
        apply List.Subset.trans _ (ih _)
        rw [finish_completed]
        exact List.subset_cons_self ..
      · by_cases hambiguous : Ambiguous m expectedColor ci (data ci)
        · rw [determine_ambiguous hdone hambiguous]
          exact List.subset_cons_self ..
        · rw [determine_other hdone hgood hambiguous]
          exact List.Subset.refl _

/-! ## The polls -/

section

variable {nrCis : Nat} {m : CommandMasks} {expectedColor : Mask} {reads : Nat → Except CmdError Packets}

theorem pollCommands_completed (n k : Nat) (s : PollState) :
    s.completed ⊆ (pollCommands nrCis m expectedColor reads n k s).2.completed := by
  have hpoll := fun data s => determine_completed m expectedColor data (List.range nrCis) s
  fun_induction pollCommands nrCis m expectedColor reads n k s with
  | case1 n k s e hread => exact List.Subset.refl _
  | case2 n k s data hread s' hrun => simpa only [hrun] using hpoll data s
  | case3 k s data hread s' hrun => simpa only [hrun] using hpoll data s
  | case4 k s data hread s' hrun n ih =>
    have hpoll := hpoll data s
    rw [hrun] at hpoll
    exact List.Subset.trans hpoll ih

/-- A poll that does not stop at an ambiguous packet does what `settle` does. -/
theorem poll_clear (h8 : nrCis ≤ 8) (hclear : Unambiguous nrCis m expectedColor reads) {k : Nat} {s : PollState}
    (hpolled : CommandsPolled nrCis m expectedColor reads k s.isDone) {data : Packets} (hread : reads k = .ok data)
    {all : Bool} {s' : PollState}
    (hrun : determineIfCommandsAreFinished m expectedColor data (List.range nrCis) s = (all, s')) :
    s'.isDone = (settle m expectedColor data (List.range nrCis) s.isDone).1 ∧
      (∀ faultDecode faultCollide, s.Fits m expectedColor reads faultDecode faultCollide →
        s'.Fits m expectedColor reads faultDecode faultCollide) ∧
      all = (settle m expectedColor data (List.range nrCis) s.isDone).2.isNone := by
  have hl : ∀ ci ∈ List.range nrCis, ci < 8 := fun ci hci => Nat.lt_of_lt_of_le (List.mem_range.1 hci) h8
  obtain ⟨s'', hisDone, hfits, hsettle⟩ := determine_settle hread hl s
  cases hstop : (settle m expectedColor data (List.range nrCis) s.isDone).2 with
  | none =>
    rw [hstop] at hsettle
    obtain ⟨rfl, rfl⟩ : all = true ∧ s' = s'' := by simpa using hrun.symm.trans hsettle
    exact ⟨hisDone, hfits, rfl⟩
  | some ci =>
    rw [hstop] at hsettle
    obtain ⟨rfl, rfl⟩ : all = false ∧ s' = s'' := by
      simpa using hrun.symm.trans (hsettle.2 (hclear k _ data ci hpolled hread hstop))
    exact ⟨hisDone, hfits, rfl⟩

/-- Without an ambiguous packet the polls end in a state that fits the packets, and after a success all are done. -/
theorem poll_unambiguous (h8 : nrCis ≤ 8) (hclear : Unambiguous nrCis m expectedColor reads) {n k : Nat}
    (hn : n + k = nbRetryForValidResult) {s : PollState}
    (hpolled : CommandsPolled nrCis m expectedColor reads k s.isDone)
    {faultDecode faultCollide : Mask} (hfits : s.Fits m expectedColor reads faultDecode faultCollide) :
    (pollCommands nrCis m expectedColor reads n k s).2.Fits m expectedColor reads faultDecode faultCollide ∧
      ∀ k', (pollCommands nrCis m expectedColor reads n k s).1 = .ok k' →
        ∀ ci < nrCis, (pollCommands nrCis m expectedColor reads n k s).2.isDone ci = true := by
  fun_induction pollCommands nrCis m expectedColor reads n k s with
  | case1 n k s e hread => exact ⟨hfits, nofun⟩
  | case2 n k s data hread s' hrun =>
    obtain ⟨hisDone, hfits', hall⟩ := poll_clear h8 hclear hpolled hread hrun
    refine ⟨hfits' _ _ hfits, fun _ _ ci hci => ?_⟩
    change s'.isDone ci = true
    rw [hisDone]
    exact (settle_none (Option.isNone_iff_eq_none.1 hall.symm)).1 ci (List.mem_range.2 hci)
  | case3 k s data hread s' hrun =>
    obtain ⟨-, hfits', -⟩ := poll_clear h8 hclear hpolled hread hrun
    exact ⟨hfits' _ _ hfits, nofun⟩
  | case4 k s data hread s' hrun n ih =>
    obtain ⟨hisDone, hfits', hall⟩ := poll_clear h8 hclear hpolled hread hrun
    have hmore : CommandsPolled nrCis m expectedColor reads (k + 1) s'.isDone := by
      rw [hisDone]
      apply hpolled.next (by omega) hread
      intro hnone
      rw [hnone] at hall
      cases hall
    exact ih (by omega) hmore (hfits' _ _ hfits)

/-- If a poll stops at an ambiguous packet, the interface is marked done with it. -/
theorem exists_incomplete (h8 : nrCis ≤ 8) {k : Nat} {s : PollState} {data : Packets} (hread : reads k = .ok data)
    {ci : Nat} (hstop : (settle m expectedColor data (List.range nrCis) s.isDone).2 = some ci)
    (hambiguous : Ambiguous m expectedColor ci (data ci)) (n : Nat) :
    ∃ p ∈ (pollCommands nrCis m expectedColor reads n k s).2.completed, ¬ Completes m expectedColor p.1 p.2 := by
  have hl : ∀ ci ∈ List.range nrCis, ci < 8 := fun ci hci => Nat.lt_of_lt_of_le (List.mem_range.1 hci) h8
  obtain ⟨s', -, -, hsettle⟩ := determine_settle hread hl s
  rw [hstop] at hsettle
  have hrun := hsettle.1 hambiguous
  refine ⟨(ci, data ci), ?_, fun hgood => ?_⟩
  · cases n with
    | zero =>
      rw [pollCommands, hread]
      dsimp only
      rw [hrun]
      exact List.mem_cons_self ..
    | succ n =>
      rw [pollCommands, hread]
      dsimp only
      rw [hrun]
      exact pollCommands_completed n (k + 1) _ (List.mem_cons_self ..)
  · have hle := hgood.2
    rw [hambiguous.2] at hle
    exact absurd hle (by decide)

/-- A fault of a poll that a run comes to is a fault of the run. -/
theorem incomplete_of_polled (h8 : nrCis ≤ 8) {k : Nat} {done : Nat → Bool}
    (hpolled : CommandsPolled nrCis m expectedColor reads k done)
    (hlater : ∀ s : PollState, s.isDone = done →
      ∃ p ∈ (pollCommands nrCis m expectedColor reads (nbRetryForValidResult - k) k s).2.completed,
        ¬ Completes m expectedColor p.1 p.2)
    {s : PollState} (hs : s.isDone = m.isDone) :
    ∃ p ∈ (pollCommands nrCis m expectedColor reads nbRetryForValidResult 0 s).2.completed,
      ¬ Completes m expectedColor p.1 p.2 := by
  induction hpolled with
  | first => exact hlater s hs
  | @next k done data _ hk hread hstop ih =>
    apply ih
    intro s hs
    obtain ⟨ci, hci⟩ := Option.ne_none_iff_exists'.1 hstop
    rw [← hs] at hci
    by_cases hambiguous : Ambiguous m expectedColor ci (data ci)
    · exact exists_incomplete h8 hread hci hambiguous _
    · have hl : ∀ ci ∈ List.range nrCis, ci < 8 := fun ci hci => Nat.lt_of_lt_of_le (List.mem_range.1 hci) h8
      obtain ⟨s', hisDone, -, hsettle⟩ := determine_settle hread hl s
      rw [hci] at hsettle
      have hrun := hsettle.2 hambiguous
      have hsucc : nbRetryForValidResult - k = nbRetryForValidResult - (k + 1) + 1 := by omega
      rw [hsucc, pollCommands, hread]
      dsimp only
      rw [hrun]
      exact hlater s' (by rw [hisDone, hs])

end

/-! ## The main result -/

/-- The state that the polls start with. -/
theorem fits_start (m : CommandMasks) (expectedColor : Mask) (reads : Nat → Except CmdError Packets)
    (faultDecode faultCollide : Mask) :
    PollState.Fits m expectedColor reads faultDecode faultCollide ⟨m.isDone, faultDecode, faultCollide, []⟩ where
  completes := nofun
  read := nofun
  done _ h := .inl h
  faultDecode ci := by simp
  faultCollide ci := by simp

/-- An interface that starts as done has no command. -/
theorem computeMasks_isDone {r : CompletionRank} {commands : Packets} {addSelectMask : Bool} {m : CommandMasks}
    (h : computeMasks r commands addSelectMask = .ok m) {ci : Nat} (hci : ci < r.nrCis) (hdone : m.isDone ci = true) :
    commands ci = ciEmpty := by
  unfold computeMasks at h
  split at h
  · cases h
  · obtain rfl := Except.ok.inj h
    simpa [CompletionRank.commanded, hci] using hdone

theorem sound_of_unambiguous {r : CompletionRank} {commands : Packets} {addSelectMask : Bool}
    {reads : Nat → Except CmdError Packets} {m : CommandMasks}
    (hmasks : computeMasks r commands addSelectMask = .ok m)
    (hclear : Unambiguous r.nrCis m (r.color &&& m.cis) reads) :
    (execCmdPolls r commands addSelectMask (.ok ()) reads).Sound r commands m reads := by
  have hstart := fits_start m (r.color &&& m.cis) reads r.faultDecode r.faultCollide
  obtain ⟨hfits, hall⟩ := poll_unambiguous r.nrCis_le hclear (Nat.add_zero _) .first hstart
  unfold execCmdPolls
  rw [hmasks]
  dsimp only
  split
  · next e s heq =>
    rw [heq] at hfits
    exact ⟨hfits.completes, hfits.read, nofun, nofun, nofun⟩
  · next k s heq =>
    rw [heq] at hfits hall
    refine ⟨hfits.completes, hfits.read, fun _ ci hci hcommand => ?_, fun _ => hfits.faultDecode,
      fun _ => hfits.faultCollide⟩
    exact (hfits.done ci (hall k rfl ci hci)).resolve_left fun hdone =>
      hcommand (computeMasks_isDone hmasks hci hdone)

/-- A command is only completed by packets that are clear exactly if no poll stops at one with four differing
color bits. -/
theorem completionSound_iff (r : CompletionRank) (commands : Packets) (addSelectMask : Bool)
    (commit : Except CmdError Unit) (reads : Nat → Except CmdError Packets) :
    CompletionSound r commands addSelectMask commit reads ↔ PollsUnambiguous r commands addSelectMask commit reads := by
  unfold CompletionSound PollsUnambiguous
  cases hmasks : computeMasks r commands addSelectMask with
  | error e =>
    refine iff_of_true ?_ nofun
    unfold execCmdPolls
    rw [hmasks]
  | ok m =>
    cases commit with
    | error e =>
      refine iff_of_true ?_ nofun
      unfold execCmdPolls
      rw [hmasks]
      exact ⟨nofun, nofun, nofun, nofun, nofun⟩
    | ok _ =>
      constructor
      · intro hsound m' hm' _ k done data ci hpolled hread hstop hambiguous
        obtain rfl := Except.ok.inj hm'
        obtain ⟨p, hp, hbad⟩ := incomplete_of_polled r.nrCis_le hpolled
          (fun s hs => exists_incomplete r.nrCis_le hread (by rw [hs]; exact hstop) hambiguous _)
          (s := ⟨m.isDone, r.faultDecode, r.faultCollide, []⟩) rfl
        apply hbad
        apply hsound.completes p
        unfold execCmdPolls
        rw [hmasks]
        dsimp only
        split
        · next heq => rwa [heq] at hp
        · next heq => rwa [heq] at hp
      · intro hclear
        exact sound_of_unambiguous hmasks (hclear m rfl rfl)

/-- A rank of eight interfaces whose command colors are all clear. -/
def clearRank : CompletionRank where
  nrCis := 8
  nrCis_le := Nat.le_add_left 8 0
  nrDpus := 8
  chipV14 := true
  sliceInfo _ := ⟨0, .none, 0, fun _ => 0, 0xFF, true⟩
  color := 0
  faultDecode := 0
  faultCollide := 0

/-- A command for the first interface. -/
def oneCommand : Packets := fun ci => if ci = 0 then plainStruct else ciEmpty

/-- A result that is shown with half of the color bits, and then read again. -/
def halfColored : Nat → Except CmdError Packets := fun _ => .ok fun _ => 0x000F00FF00000000#64

/-- The interface counts as done when the poll comes to it again. -/
theorem halfColored_not_completionSound :
    (execCmdPolls clearRank oneCommand false (.ok ()) halfColored).status = .ok () ∧
      ¬ CompletionSound clearRank oneCommand false (.ok ()) halfColored := by
  refine ⟨rfl, fun h => ?_⟩
  obtain ⟨m, hmasks, hbits⟩ : ∃ m, computeMasks clearRank oneCommand false = .ok m ∧
      differingBits (clearRank.color &&& m.cis) 0 0x000F00FF00000000#64 = 4 := ⟨_, rfl, by decide⟩
  have hmem : (0, 0x000F00FF00000000#64) ∈
      (execCmdPolls clearRank oneCommand false (.ok ()) halfColored).completed := by decide +kernel
  unfold CompletionSound at h
  rw [hmasks] at h
  have hle := (h.completes _ hmem).2
  rw [hbits] at hle
  exact absurd hle (by decide)

end DpuBackend.Ufi
