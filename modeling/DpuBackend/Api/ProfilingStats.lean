import DpuBackend.Lib.FilledTable
import DpuBackend.Lib.Loops
import Mathlib.Data.BitVec
import Mathlib.Tactic.IntervalCases

/-
  The counters of the statistics profiling.

  Each IRAM segment of a program is patched before it is copied: a first pass
  over it counts the calls, the arrays of the threads are reallocated for that
  many more entries, and a second pass rewrites the instructions and fills the
  entries. The first segment of a load starts the arrays anew.

  `statsSound_iff` is about every run of loads and polls, each allocation with
  its outcome: pointers, count and entries agree in every state, only calls to
  mcount and returns are rewritten and every poll reads initialised entries, if
  and only if each segment that holds a call gets its memory and the count stays
  within its 16 bits. Both passes meet the same calls, by the encodings alone
  (`length_entries`), and one segment appends the addresses that its patched
  calls report (`patchSegment_spec`).

  Model (Lean)                            Source (C, api/src)
  ProfilingContext                        struct _dpu_profiling_context_t (lowlevel/dpu_profiler.h)
  callri, callrr, jumpi, jumpr, shrii     the macros of dpu_instruction_encoder.h (commons)
  dpuFillProfilingInfo,                   dpu_fill_profiling_info,
  dpuPatchProfilingForDpu                 dpu_patch_profiling_for_dpu (dpu_profiler.c)
  resetStats, patchSegment                .. its part under `init`, and the part behind it
  dpuCollectStatisticsProfiling,          dpu_collect_statistics_profiling,
  dpuDumpStatisticsProfiling              dpu_dump_statistics_profiling
  patchIram, loadSegment                  patch_dpu_iram, patch_rank_iram, load_segment (dpu_loader.c)
  pollRank                                dpu_poll_rank (dpu_runner.c), its case of DPU_PROFILING_STATS

  The pointer of a thread is the list of the entries behind it, empty where it
  is NULL; an entry that was allocated and not written is `none`. What concerns
  the other profiling modes, the names of the symbols and the log is left out.
-/

namespace DpuBackend.Api.ProfilingStats

open DpuBackend.Lib

/-! ## Instructions -/

/-- `((v >> shift) & mask) << place`. -/
def field (v : BitVec 64) (shift : Nat) (mask : BitVec 64) (place : Nat) : BitVec 64 :=
  ((v >>> shift) &&& mask) <<< place

def callri (rc off : BitVec 64) : BitVec 64 :=
  0x806300000000 ||| field rc 0 0x1f 39 ||| field off 0 0xf 20 ||| field off 4 0xf 16 ||| field off 8 0x1 15 |||
    field off 9 0x1 14 ||| field off 10 0x1 13 ||| field off 11 0x1 12 ||| field off 12 0xfff 0

def callrr (rc ra : BitVec 64) : BitVec 64 := 0x800300000000 ||| field rc 0 0x1f 39 ||| field ra 0 0x1f 34

def jumpi (off : BitVec 64) : BitVec 64 :=
  0x8c6300000000 ||| field off 0 0xf 20 ||| field off 4 0xf 16 ||| field off 8 0x1 15 ||| field off 9 0x1 14 |||
    field off 10 0x1 13 ||| field off 11 0x1 12 ||| field off 12 0xfff 0 ||| field off 24 0x7 39 ||| field off 27 0x1 44

def jumpr (ra : BitVec 64) : BitVec 64 := 0x8c0300000000 ||| field ra 0 0x1f 34

def shrii (ra off imm : BitVec 64) : BitVec 64 :=
  0x7c0342000000 ||| field ra 0 0x1f 34 ||| field off 0 0xf 20 ||| field off 4 0x7 39 ||| field off 7 0x1 24 |||
    field off 8 0x1 15 ||| field off 9 0x1 14 ||| field off 10 0x1 13 ||| field off 11 0x1 12 ||| field imm 0 0xf 16 |||
    field imm 4 0xfff 0

def regR23 : BitVec 64 := 23
def regId4 : BitVec 64 := 30

/-- `INSN_SH_ID4`. -/
def insnShId4 (addr : BitVec 32) (imm : BitVec 16) : BitVec 64 := shrii regId4 (addr.setWidth 64) (imm.setWidth 64)

def insnCallR23Mask : BitVec 64 := callri regR23 0
def insnCallR23RxxMask : BitVec 64 := callrr regR23 0
def insnCallMcount (imm : BitVec 16) : BitVec 64 := callri regR23 (imm.setWidth 64)
def insnNop : BitVec 64 := 0x7c6300000000
def insnRet : BitVec 64 := jumpr regR23
def insnJumpRetMcount (imm : BitVec 16) : BitVec 64 := jumpi (imm.setWidth 64)

/-- The test of both passes: a call that leaves its return address in r23. -/
def isCall (insn : BitVec 64) : Bool :=
  insn &&& insnCallR23Mask = insnCallR23Mask || insn &&& insnCallR23RxxMask = insnCallR23RxxMask

/-! ## The context -/

/-- An access outside the memory allocated, or to what was never written. -/
inductive Fault where
  | outside
  | uninitialised
deriving DecidableEq, Repr

/-- `dpu_error_t`, as far as it is returned here. -/
inductive Status where
  | ok
  | dpuDisabled
  | system
deriving DecidableEq, Repr

/-- `enum dpu_profiling_type_e`. -/
inductive ProfilingType where
  | nop
  | mcount
  | stats
  | samples
  | sections
deriving DecidableEq, Repr

/-- An entry of the array of a thread. -/
structure Stat where
  address : BitVec 16
  count : BitVec 64
deriving DecidableEq, Repr

structure ProfilingContext where
  enableProfiling : ProfilingType
  dpu : Nat
  nrOfMcountStats : BitVec 16
  mcountStats : Option (List (List (Option Stat)))
  mcountAddress : BitVec 16
  retMcountAddress : BitVec 16
  threadProfilingAddress : BitVec 32
deriving DecidableEq, Repr

/-- The rank as far as it is read: its description's threads of a DPU, of which
there is one at least, and the DPUs that are enabled. -/
structure Rank where
  nrOfThreads : Nat
  threads_pos : 0 < nrOfThreads
  enabled : Nat → Bool

/-- The addresses that a program's symbols give. -/
structure ProfilingInfo where
  mcountAddress : BitVec 16
  retMcountAddress : BitVec 16
  threadProfilingAddress : BitVec 32

def dpuFillProfilingInfo (info : ProfilingInfo) (c : ProfilingContext) : ProfilingContext :=
  { c with
    threadProfilingAddress :=
      if c.threadProfilingAddress = 0 then info.threadProfilingAddress else c.threadProfilingAddress
    mcountAddress := if c.mcountAddress = 0 then info.mcountAddress else c.mcountAddress
    retMcountAddress := if c.retMcountAddress = 0 then info.retMcountAddress else c.retMcountAddress }

/-! ## Patching a segment -/

/-- What the allocations of one call do: `calloc`, and `realloc` for each thread. -/
structure Memory where
  calloc : Bool
  realloc : Nat → Bool

/-- The first pass. -/
def countCalls (nr : BitVec 16) (source : List (BitVec 64)) : BitVec 16 :=
  source.foldl (fun nr insn => if isCall insn then nr + 1 else nr) nr

/-- The reallocation for each thread from `thId` on; `none` where one fails. -/
def reallocThreads (memory : Memory) (n : Nat) : Nat → List (List (Option Stat)) → Option (List (List (Option Stat)))
  | _, [] => some []
  | thId, es :: stats =>
    if memory.realloc thId then (reallocThreads memory n (thId + 1) stats).map fun stats => regrow es n :: stats
    else none

/-- The body of the second pass: what the instruction becomes, and the address
entered for it. -/
def patchInstruction (c : ProfilingContext) (insnAddress : BitVec 16) (insn : BitVec 64) :
    BitVec 64 × Option (BitVec 16) :=
  if insn = insnCallMcount c.mcountAddress then
    match c.enableProfiling with
    | .nop => (insnNop, none)
    | .stats => (insnShId4 c.threadProfilingAddress insnAddress, some insnAddress)
    | _ => (insn, none)
  else if insn = insnRet ∧ insnAddress.toNat ≠ c.retMcountAddress.toNat + 1 then
    (if c.enableProfiling = .stats then insnJumpRetMcount c.retMcountAddress else insn, none)
  else if isCall insn then (insn, some (insnAddress + 1))
  else (insn, none)

/-- `(iram_addr_t)(address + insn)`. -/
def insnAddress (address : BitVec 32) (insn : Nat) : BitVec 16 := (address + BitVec.ofNat 32 insn).setWidth 16

/-- The entry `mcountIdx` of every thread. -/
def enter (mcountIdx : Nat) (address : BitVec 16) (stats : List (List (Option Stat))) :
    Except Fault (List (List (Option Stat))) :=
  stats.mapM fun es =>
    if mcountIdx < es.length then .ok (es.set mcountIdx (some { address, count := 0 })) else .error .outside

/-- The second pass, from instruction `insn` on. -/
def patchLoop (c : ProfilingContext) (address : BitVec 32) :
    List (BitVec 64) → Nat → Nat → List (List (Option Stat)) →
      Except Fault (List (BitVec 64) × List (List (Option Stat)))
  | [], _, _, stats => .ok ([], stats)
  | x :: source, insn, mcountIdx, stats =>
    match patchInstruction c (insnAddress address insn) x with
    | (y, none) => do
      let (patched, stats) ← patchLoop c address source (insn + 1) mcountIdx stats
      .ok (y :: patched, stats)
    | (y, some entry) => do
      let stats ← enter mcountIdx entry stats
      let (patched, stats) ← patchLoop c address source (insn + 1) (mcountIdx + 1) stats
      .ok (y :: patched, stats)

/-- The part under `init`; `none` where the array of pointers is not allocated. -/
def resetStats (rank : Rank) (memory : Memory) (c : ProfilingContext) : Option ProfilingContext :=
  match c.mcountStats with
  | some stats => some { c with mcountStats := some (stats.map fun _ => []), nrOfMcountStats := 0 }
  | none =>
    if memory.calloc then some { c with mcountStats := some (List.replicate rank.nrOfThreads []) } else none

/-- `(iram_size_t)size`. -/
def nbOfInstructions (source : List (BitVec 64)) : Nat := (BitVec.ofNat 16 source.length).toNat

/-- The second pass over a segment, with the count behind the first one. -/
def secondPass (source : List (BitVec 64)) (address : BitVec 32) (nrOfMcountStats : BitVec 16) (c : ProfilingContext)
    (stats : List (List (Option Stat))) : Except Fault (Status × ProfilingContext × List (BitVec 64)) := do
  let (patched, stats) ← patchLoop c address (source.take (nbOfInstructions source)) 0 c.nrOfMcountStats.toNat stats
  .ok (.ok, { c with nrOfMcountStats, mcountStats := some stats }, patched ++ source.drop (nbOfInstructions source))

/-- The part behind `init`. The loops of a context without arrays dereference NULL. -/
def patchSegment (memory : Memory) (source : List (BitVec 64)) (address : BitVec 32) (c : ProfilingContext) :
    Except Fault (Status × ProfilingContext × List (BitVec 64)) :=
  let instructions := source.take (nbOfInstructions source)
  let nrOfMcountStats := countCalls c.nrOfMcountStats instructions
  if nrOfMcountStats = 0 then .ok (.ok, { c with nrOfMcountStats }, source)
  else
    match c.mcountStats with
    | none =>
      if nrOfMcountStats = c.nrOfMcountStats then do
        let (patched, _) ← patchLoop c address instructions 0 c.nrOfMcountStats.toNat []
        .ok (.ok, { c with nrOfMcountStats }, patched ++ source.drop (nbOfInstructions source))
      else .error .outside
    | some stats =>
      let grown :=
        if nrOfMcountStats ≠ c.nrOfMcountStats then reallocThreads memory nrOfMcountStats.toNat 0 stats else some stats
      match grown with
      | none => .ok (.system, { c with nrOfMcountStats, mcountStats := none }, source)
      | some stats => secondPass source address nrOfMcountStats c stats

def dpuPatchProfilingForDpu (rank : Rank) (memory : Memory) (dpu : Nat) (source : List (BitVec 64))
    (address : BitVec 32) (init : Bool) (c : ProfilingContext) :
    Except Fault (Status × ProfilingContext × List (BitVec 64)) :=
  let missing := c.mcountAddress = 0 ∨ c.retMcountAddress = 0 ∨ c.threadProfilingAddress = 0
  if ¬ rank.enabled dpu then .ok (.dpuDisabled, c, source)
  else if dpu ≠ c.dpu then .ok (.ok, c, source)
  else if c.enableProfiling = .mcount ∨ c.enableProfiling = .samples ∨ c.enableProfiling = .sections then
    .ok (.ok, c, source)
  else if missing ∧ c.enableProfiling = .stats then .ok (.system, c, source)
  else if missing ∧ c.enableProfiling = .nop then .ok (.ok, c, source)
  else if init then
    match resetStats rank memory c with
    | none => .ok (.system, c, source)
    | some c => patchSegment memory source address c
  else patchSegment memory source address c

/-! ## Polling -/

def magicProfilingValue : BitVec 32 := 0xDEAD0000
def magicProfilingValueMask : BitVec 32 := 0xFFFF0000

/-- `mcount_stats[thread_id][insn]`. -/
def readStat (c : ProfilingContext) (threadId insn : Nat) : Except Fault Stat :=
  match c.mcountStats with
  | none => .error .outside
  | some stats =>
    match stats[threadId]? with
    | none => .error .outside
    | some es =>
      match es[insn]? with
      | none => .error .outside
      | some none => .error .uninitialised
      | some (some e) => .ok e

def writeStat (c : ProfilingContext) (threadId insn : Nat) (e : Stat) : ProfilingContext :=
  { c with mcountStats := c.mcountStats.map fun stats => stats.modify threadId fun es => es.set insn (some e) }

/-- The search for the entry of an address, among `n` entries from `insn` on. -/
def countAddress (threadId : Nat) (curProfiledAddress : BitVec 16) (c : ProfilingContext) :
    Nat → Nat → Except Fault ProfilingContext
  | 0, _ => .ok c
  | n + 1, insn =>
    match readStat c threadId insn with
    | .error e => .error e
    | .ok e =>
      if e.address = curProfiledAddress then .ok (writeStat c threadId insn { e with count := e.count + 1 })
      else countAddress threadId curProfiledAddress c n (insn + 1)

def collectThread (profiledAddress : Nat → BitVec 32) (c : ProfilingContext) (threadId : Nat) :
    Except Fault ProfilingContext :=
  if profiledAddress threadId &&& magicProfilingValueMask ≠ magicProfilingValue then .ok c
  else
    let curProfiledAddress := (profiledAddress threadId &&& ~~~ magicProfilingValueMask).setWidth 16
    if curProfiledAddress = 0 then .ok c
    else countAddress threadId curProfiledAddress c c.nrOfMcountStats.toNat 0

def dpuCollectStatisticsProfiling (rank : Rank) (profiledAddress : Nat → BitVec 32) (c : ProfilingContext) :
    Except Fault ProfilingContext :=
  if ¬ rank.enabled c.dpu then .ok c else (List.range rank.nrOfThreads).foldlM (collectThread profiledAddress) c

/-- The entries in the order in which they are logged. -/
def dpuDumpStatisticsProfiling (rank : Rank) (c : ProfilingContext) : Except Fault (List (List Stat)) :=
  if ¬ rank.enabled c.dpu then .ok []
  else (List.range rank.nrOfThreads).mapM fun threadId =>
    (List.range c.nrOfMcountStats.toNat).mapM fun insn => readStat c threadId insn

/-- With what the threads wrote, and whether the DPU has just stopped. -/
def pollRank (rank : Rank) (profiledAddress : Nat → BitVec 32) (stopped : Bool) (c : ProfilingContext) :
    Except Fault ProfilingContext :=
  match c.enableProfiling with
  | .stats => do
    let c ← dpuCollectStatisticsProfiling rank profiledAddress c
    if stopped then
      let _ ← dpuDumpStatisticsProfiling rank c
      .ok c
    else .ok c
  | _ => .ok c

/-! ## Loading -/

/-- What is loaded: every DPU of the rank, or one. -/
inductive Target where
  | rank
  | dpu (id : Nat)
deriving DecidableEq, Repr

/-- An IRAM segment, with what the allocations for it do and whether it is
copied. Its size is 32 bits wide. -/
structure Segment where
  address : BitVec 32
  source : List (BitVec 64)
  size_lt : source.length < 2 ^ 32
  memory : Memory
  copied : Bool

/-- `struct _dpu_loader_context_t` of a load that has not ended. -/
structure Loader where
  target : Target
  nrOfInstructions : BitVec 32
deriving DecidableEq, Repr

def patchIram (rank : Rank) (memory : Memory) (target : Target) (source : List (BitVec 64)) (address : BitVec 32)
    (init : Bool) (c : ProfilingContext) : Except Fault (Status × ProfilingContext × List (BitVec 64)) :=
  match target with
  | .dpu id => dpuPatchProfilingForDpu rank memory id source address init c
  | .rank =>
    if ¬ rank.enabled c.dpu then .ok (.ok, c, source)
    else dpuPatchProfilingForDpu rank memory c.dpu source address init c

/-- With the content that is copied; `none` for the loader where the load ends. -/
def loadSegment (rank : Rank) (seg : Segment) (loader : Loader) (c : ProfilingContext) :
    Except Fault (Option Loader × ProfilingContext × List (BitVec 64)) := do
  let (status, c, patched) ←
    patchIram rank seg.memory loader.target seg.source seg.address (loader.nrOfInstructions = 0) c
  if status = .ok ∧ seg.copied then
    let nrOfInstructions := loader.nrOfInstructions + BitVec.ofNat 32 seg.source.length
    .ok (some { loader with nrOfInstructions }, c, patched)
  else .ok (none, c, patched)

/-! ## Runs -/

/-- A load begins, it comes to an IRAM segment, or the rank is polled. -/
inductive Op where
  | load (target : Target) (info : ProfilingInfo)
  | segment (seg : Segment)
  | poll (profiledAddress : Nat → BitVec 32) (stopped : Bool)

/-- The immediate of a `shrii`. -/
def storedImmediate (insn : BitVec 64) : BitVec 16 := (field insn 16 0xf 0 ||| field insn 0 0xfff 4).setWidth 16

/-- What a call site reports: an instruction that is a call yet, the address it
returns to; one that was made a store, its immediate. -/
def reportedAddress (insnAddress : BitVec 16) (insn patched : BitVec 64) : Option (BitVec 16) :=
  if isCall insn then some (if isCall patched then insnAddress + 1 else storedImmediate patched) else none

/-- The addresses that the call sites from instruction `insn` on report. -/
def reportedFrom (address : BitVec 32) : Nat → List (BitVec 64) → List (BitVec 64) → List (BitVec 16)
  | insn, x :: source, y :: patched =>
    (reportedAddress (insnAddress address insn) x y).toList ++ reportedFrom address (insn + 1) source patched
  | _, _, _ => []

/-- The addresses that the segment reports as it was patched. -/
def Segment.reported (seg : Segment) (patched : List (BitVec 64)) : List (BitVec 16) :=
  reportedFrom seg.address 0 (seg.source.take (nbOfInstructions seg.source))
    (patched.take (nbOfInstructions seg.source))

/-- The load reaches the DPU that is profiled, in a mode that patches it. -/
def Patches (rank : Rank) (target : Target) (c : ProfilingContext) : Prop :=
  (rank.enabled c.dpu = true ∧ (target = .rank ∨ target = .dpu c.dpu)) ∧
    (c.enableProfiling = .nop ∨ c.enableProfiling = .stats) ∧
    c.mcountAddress ≠ 0 ∧ c.retMcountAddress ≠ 0 ∧ c.threadProfilingAddress ≠ 0

instance (rank : Rank) (target : Target) (c : ProfilingContext) : Decidable (Patches rank target c) :=
  inferInstanceAs (Decidable (_ ∧ _))

/-- The context, the load in progress, and the addresses reported by the call
sites of the segments patched since the arrays were started anew. -/
structure State where
  context : ProfilingContext
  loader : Option Loader
  sites : List (BitVec 16)

/-- A rank just allocated: no arrays, and the addresses of its profile. -/
def State.init (enableProfiling : ProfilingType) (dpu : Nat) (info : ProfilingInfo) : State where
  context :=
    { enableProfiling, dpu, nrOfMcountStats := 0, mcountStats := none, mcountAddress := info.mcountAddress
      retMcountAddress := info.retMcountAddress, threadProfilingAddress := info.threadProfilingAddress }
  loader := none
  sites := []

/-- A DPU that is disabled is not loaded. -/
def loads (rank : Rank) : Target → Bool
  | .rank => true
  | .dpu id => rank.enabled id

def step (rank : Rank) (s : State) : Op → Except Fault State
  | .load target info =>
    if loads rank target then
      .ok { s with context := dpuFillProfilingInfo info s.context, loader := some { target, nrOfInstructions := 0 } }
    else .ok { s with loader := none }
  | .segment seg =>
    match s.loader with
    | none => .ok s
    | some loader => do
      let (next, context, patched) ← loadSegment rank seg loader s.context
      let earlier := if loader.nrOfInstructions = 0 then [] else s.sites
      .ok { context, loader := next
            sites := if Patches rank loader.target s.context then earlier ++ seg.reported patched else s.sites }
  | .poll profiledAddress stopped => do
    let context ← pollRank rank profiledAddress stopped s.context
    .ok { s with context }

/-- Without arrays the count is 0, with arrays it is the length of each; in
statistics mode each array holds the addresses that the call sites report. -/
structure State.Sound (rank : Rank) (s : State) : Prop where
  absent : s.context.mcountStats = none → s.context.nrOfMcountStats = 0
  threads : ∀ stats, s.context.mcountStats = some stats → stats.length = rank.nrOfThreads
  allocated : ∀ stats, s.context.mcountStats = some stats → ∀ es ∈ stats, es.length = s.context.nrOfMcountStats.toNat
  initialised : s.context.enableProfiling = .stats → ∀ stats, s.context.mcountStats = some stats → ∀ es ∈ stats,
    es.map (Option.map Stat.address) = s.sites.map some

/-- Only calls to mcount and returns are rewritten. -/
def RewritesOnly (c : ProfilingContext) (source patched : List (BitVec 64)) : Prop :=
  patched.length = source.length ∧ ∀ (i : Nat) (x y : BitVec 64), source[i]? = some x → patched[i]? = some y →
    y = x ∨ x = insnCallMcount c.mcountAddress ∨ x = insnRet

/-- The content that a step copies to the IRAM. -/
def CopiesPatched (rank : Rank) (s : State) : Op → Prop
  | .segment seg => ∀ loader, s.loader = some loader → ∀ out, loadSegment rank seg loader s.context = .ok out →
      RewritesOnly s.context seg.source out.2.2
  | _ => True

/-- Every state of the run is sound, each segment is copied with only calls to
mcount and returns rewritten, and no step reads or writes outside the entries
allocated, or reads one that was never written. -/
def AlwaysSound (rank : Rank) : State → List Op → Prop
  | s, [] => s.Sound rank
  | s, op :: ops =>
    s.Sound rank ∧ CopiesPatched rank s op ∧ ∃ s', step rank s op = .ok s' ∧ AlwaysSound rank s' ops

/-- The calls that the first pass meets. -/
def Segment.calls (seg : Segment) : Nat := (seg.source.take (nbOfInstructions seg.source)).countP isCall

/-- The memory for the calls of a segment, and a count that stays within its 16
bits. Where nothing is entered, in nop mode with no call but to mcount, it may
also wrap to another count than 0. -/
def CallsFit (rank : Rank) (start : Nat) (seg : Segment) (c : ProfilingContext) : Prop :=
  (∀ thId < rank.nrOfThreads, seg.memory.realloc thId = true) ∧
    (start + seg.calls < 2 ^ 16 ∨ (c.enableProfiling = .nop ∧ start + seg.calls ≠ 2 ^ 16 ∧
      ∀ x ∈ seg.source.take (nbOfInstructions seg.source), isCall x = true → x = insnCallMcount c.mcountAddress))

/-- A segment that is patched has no call or gets its memory for a count that
fits; or the array of pointers was not allocated. -/
def Fits (rank : Rank) (s : State) : Op → Prop
  | .segment seg => ∀ loader, s.loader = some loader → Patches rank loader.target s.context →
      (loader.nrOfInstructions = 0 ∧ s.context.mcountStats = none ∧ seg.memory.calloc = false) ∨
        seg.calls = 0 ∨
        CallsFit rank (if loader.nrOfInstructions = 0 then 0 else s.context.nrOfMcountStats.toNat) seg s.context
  | _ => True

def AlwaysFits (rank : Rank) : State → List Op → Prop
  | _, [] => True
  | s, op :: ops => Fits rank s op ∧ ∀ s', step rank s op = .ok s' → AlwaysFits rank s' ops

/-! ## The encodings -/

theorem getLsbD_field (v mask : BitVec 64) (shift place i : Nat) :
    (field v shift mask place).getLsbD i =
      (decide (i < 64) && !decide (i < place) && (v.getLsbD (shift + (i - place)) && mask.getLsbD (i - place))) := by
  simp only [field, BitVec.getLsbD_shiftLeft, BitVec.getLsbD_and, BitVec.getLsbD_ushiftRight]

/-- A word of more bits than a mask passes its test. -/
theorem and_eq_of_or (m x : BitVec 64) : (m ||| x) &&& m = m := by
  apply BitVec.eq_of_getLsbD_eq
  intro i _
  rw [BitVec.getLsbD_and, BitVec.getLsbD_or]
  cases m.getLsbD i <;> simp

theorem isCall_insnCallMcount (imm : BitVec 16) : isCall (insnCallMcount imm) = true := by
  have hmask : insnCallR23Mask = 0x806300000000 ||| field regR23 0 0x1f 39 := by decide
  have hcall : insnCallMcount imm &&& insnCallR23Mask = insnCallR23Mask := by
    rw [insnCallMcount, callri, BitVec.or_assoc, BitVec.or_assoc, BitVec.or_assoc, BitVec.or_assoc, BitVec.or_assoc,
      BitVec.or_assoc, hmask, and_eq_of_or]
  simp [isCall, hcall]

theorem isCall_insnRet : isCall insnRet = false := by decide

/-- Both tests need bit 47. -/
theorem getLsbD_of_isCall {x : BitVec 64} (h : isCall x = true) : x.getLsbD 47 = true := by
  have hbit : ∀ m : BitVec 64, m.getLsbD 47 = true → x &&& m = m → x.getLsbD 47 = true := by
    intro m hm hx
    rw [← hx, BitVec.getLsbD_and, Bool.and_eq_true] at hm
    exact hm.1
  rw [isCall, Bool.or_eq_true, decide_eq_true_iff, decide_eq_true_iff] at h
  rcases h with h | h
  · exact hbit _ (by decide) h
  · exact hbit _ (by decide) h

theorem isCall_insnShId4 (addr : BitVec 32) (imm : BitVec 16) : isCall (insnShId4 addr imm) = false := by
  have hbit : (insnShId4 addr imm).getLsbD 47 = false := by
    simp only [insnShId4, shrii, BitVec.getLsbD_or, getLsbD_field]
    simp [regId4]
  cases hcall : isCall (insnShId4 addr imm) with
  | false => rfl
  | true => rw [getLsbD_of_isCall hcall] at hbit; cases hbit

theorem storedImmediate_insnShId4 (addr : BitVec 32) (imm : BitVec 16) :
    storedImmediate (insnShId4 addr imm) = imm := by
  apply BitVec.eq_of_getLsbD_eq
  intro i hi
  rw [storedImmediate, BitVec.getLsbD_setWidth, BitVec.getLsbD_or, getLsbD_field, getLsbD_field]
  simp only [insnShId4, shrii, BitVec.getLsbD_or, getLsbD_field]
  interval_cases i <;> simp [regId4]

/-! ## The two passes -/

theorem countCalls_eq (source : List (BitVec 64)) (nr : BitVec 16) :
    countCalls nr source = nr + BitVec.ofNat 16 (source.countP isCall) := by
  induction source generalizing nr with
  | nil => simp [countCalls]
  | cons x source ih =>
    have hstep : countCalls nr (x :: source) = countCalls (if isCall x then nr + 1 else nr) source := rfl
    rw [hstep, ih, List.countP_cons]
    by_cases hx : isCall x = true
    · rw [if_pos hx, if_pos hx, BitVec.ofNat_add, BitVec.add_assoc, BitVec.add_comm 1]
      rfl
    · rw [if_neg hx, if_neg hx, Nat.add_zero]

theorem reallocThreads_eq (memory : Memory) (n : Nat) (stats : List (List (Option Stat))) (thId : Nat) :
    reallocThreads memory n thId stats =
      if ∀ i < stats.length, memory.realloc (thId + i) = true then some (stats.map fun es => regrow es n)
      else none := by
  induction stats generalizing thId with
  | nil => simp [reallocThreads]
  | cons es stats ih =>
    rw [reallocThreads, ih]
    by_cases hfirst : memory.realloc thId = true
    · rw [if_pos hfirst]
      by_cases hrest : ∀ i < stats.length, memory.realloc (thId + 1 + i) = true
      · rw [if_pos hrest, if_pos]
        · rfl
        · intro i hi
          cases i with
          | zero => exact hfirst
          | succ i =>
            rw [← Nat.add_assoc, Nat.add_right_comm]
            exact hrest i (Nat.lt_of_succ_lt_succ hi)
      · rw [if_neg hrest, if_neg]
        · rfl
        · intro hall
          apply hrest
          intro i hi
          rw [Nat.add_right_comm]
          exact hall (i + 1) (Nat.succ_lt_succ hi)
    · rw [if_neg hfirst, if_neg fun hall => hfirst (hall 0 (Nat.succ_pos _))]

/-- The instructions that the second pass leaves. -/
def patchedFrom (c : ProfilingContext) (address : BitVec 32) : Nat → List (BitVec 64) → List (BitVec 64)
  | _, [] => []
  | insn, x :: source =>
    (patchInstruction c (insnAddress address insn) x).1 :: patchedFrom c address (insn + 1) source

/-- The addresses that the second pass enters. -/
def entriesFrom (c : ProfilingContext) (address : BitVec 32) : Nat → List (BitVec 64) → List (BitVec 16)
  | _, [] => []
  | insn, x :: source =>
    (patchInstruction c (insnAddress address insn) x).2.toList ++ entriesFrom c address (insn + 1) source

/-- An entry as it is written. -/
def newStat (address : BitVec 16) : Stat := { address, count := 0 }

theorem enter_eq (mcountIdx : Nat) (address : BitVec 16) (stats : List (List (Option Stat))) :
    enter mcountIdx address stats =
      if ∀ es ∈ stats, mcountIdx < es.length then .ok (stats.map fun es => es.set mcountIdx (some (newStat address)))
      else .error .outside :=
  mapM_guard _ _ stats

/-- Within the arrays, the second pass fills the entries of every thread. -/
theorem patchLoop_within (c : ProfilingContext) (address : BitVec 32) (source : List (BitVec 64)) :
    ∀ (insn mcountIdx : Nat) (stats : List (List (Option Stat))),
      (∀ es ∈ stats, ∀ i < (entriesFrom c address insn source).length, mcountIdx + i < es.length) →
      patchLoop c address source insn mcountIdx stats = .ok (patchedFrom c address insn source,
        stats.map (fillFrom mcountIdx ((entriesFrom c address insn source).map newStat))) := by
  induction source with
  | nil =>
    intro insn mcountIdx stats _
    simp [patchLoop, patchedFrom, entriesFrom, fillFrom]
  | cons x source ih =>
    intro insn mcountIdx stats hfits
    rw [patchLoop, patchedFrom]
    rw [entriesFrom] at hfits ⊢
    generalize patchInstruction c (insnAddress address insn) x = body at hfits ⊢
    obtain ⟨y, entry⟩ := body
    cases entry with
    | none =>
      dsimp only [Option.toList_none, List.nil_append] at hfits ⊢
      rw [ih _ _ _ hfits]
      rfl
    | some entry =>
      simp only [Option.toList_some, List.singleton_append, List.length_cons] at hfits ⊢
      have hroom : ∀ es ∈ stats, mcountIdx < es.length := fun es hes => hfits es hes 0 (Nat.succ_pos _)
      have hrest : ∀ es ∈ stats.map fun es => es.set mcountIdx (some (newStat entry)),
          ∀ i < (entriesFrom c address (insn + 1) source).length, mcountIdx + 1 + i < es.length := by
        intro es' hes' i hi
        obtain ⟨es, hes, rfl⟩ := List.mem_map.mp hes'
        rw [List.length_set, Nat.add_assoc, Nat.add_comm 1]
        exact hfits es hes (i + 1) (Nat.succ_lt_succ hi)
      rw [enter_eq, if_pos hroom]
      dsimp only [bind, Except.bind]
      rw [ih _ _ _ hrest, List.map_map]
      rfl

/-- Behind the end of the arrays, the first entry is written outside. -/
theorem patchLoop_outside (c : ProfilingContext) (address : BitVec 32) (source : List (BitVec 64)) :
    ∀ (insn mcountIdx : Nat) (stats : List (List (Option Stat))), stats ≠ [] → (∀ es ∈ stats, es.length ≤ mcountIdx) →
      entriesFrom c address insn source ≠ [] → patchLoop c address source insn mcountIdx stats = .error .outside := by
  induction source with
  | nil => exact fun _ _ _ _ _ hentries => absurd rfl hentries
  | cons x source ih =>
    intro insn mcountIdx stats hstats hend hentries
    rw [patchLoop]
    rw [entriesFrom] at hentries
    generalize patchInstruction c (insnAddress address insn) x = body at hentries ⊢
    obtain ⟨y, entry⟩ := body
    cases entry with
    | none =>
      dsimp only
      rw [ih _ _ _ hstats hend hentries]
      rfl
    | some entry =>
      have hnot : ¬ ∀ es ∈ stats, mcountIdx < es.length := by
        intro hall
        obtain ⟨es, hes⟩ := List.exists_mem_of_ne_nil stats hstats
        exact absurd (hall es hes) (Nat.not_lt.mpr (hend es hes))
      dsimp only
      rw [enter_eq, if_neg hnot]
      rfl

/-- Whatever the arrays, what the second pass leaves of the instructions. -/
theorem patchLoop_patched (c : ProfilingContext) (address : BitVec 32) (source : List (BitVec 64)) :
    ∀ (insn mcountIdx : Nat) (stats : List (List (Option Stat))) (out : List (BitVec 64) × List (List (Option Stat))),
      patchLoop c address source insn mcountIdx stats = .ok out → out.1 = patchedFrom c address insn source := by
  induction source with
  | nil =>
    intro insn mcountIdx stats out hout
    obtain rfl := Except.ok.inj hout
    rfl
  | cons x source ih =>
    intro insn mcountIdx stats out hout
    rw [patchLoop] at hout
    rw [patchedFrom]
    generalize patchInstruction c (insnAddress address insn) x = body at hout ⊢
    obtain ⟨y, entry⟩ := body
    cases entry with
    | none =>
      dsimp only at hout
      cases hrest : patchLoop c address source (insn + 1) mcountIdx stats with
      | error e =>
        rw [hrest] at hout
        cases hout
      | ok rest =>
        rw [hrest] at hout
        obtain rfl := Except.ok.inj hout
        rw [← ih _ _ _ _ hrest]
    | some entry =>
      dsimp only at hout
      cases henter : enter mcountIdx entry stats with
      | error e =>
        rw [henter] at hout
        cases hout
      | ok stats' =>
        rw [henter] at hout
        dsimp only [bind, Except.bind] at hout
        cases hrest : patchLoop c address source (insn + 1) (mcountIdx + 1) stats' with
        | error e =>
          rw [hrest] at hout
          cases hout
        | ok rest =>
          rw [hrest] at hout
          obtain rfl := Except.ok.inj hout
          rw [← ih _ _ _ _ hrest]

/-! ## One instruction -/

section Instruction

variable (c : ProfilingContext) (a : BitVec 16) (x : BitVec 64)

/-- Only a call to mcount or a return is rewritten. -/
theorem patchInstruction_rewrites :
    (patchInstruction c a x).1 = x ∨ x = insnCallMcount c.mcountAddress ∨ x = insnRet := by
  by_cases hmcount : x = insnCallMcount c.mcountAddress
  · exact Or.inr (Or.inl hmcount)
  · by_cases hret : x = insnRet ∧ a.toNat ≠ c.retMcountAddress.toNat + 1
    · exact Or.inr (Or.inr hret.1)
    · left
      rw [patchInstruction, if_neg hmcount, if_neg hret]
      split
      · rfl
      · rfl

/-- Nothing is entered for what the first pass does not count. -/
theorem entry_of_not_isCall (hx : isCall x = false) : (patchInstruction c a x).2 = none := by
  have hmcount : x ≠ insnCallMcount c.mcountAddress := by
    intro h
    rw [h, isCall_insnCallMcount] at hx
    cases hx
  rw [patchInstruction, if_neg hmcount]
  split
  · rfl
  · rw [if_neg (by rw [hx]; exact Bool.false_ne_true)]

/-- A call that is not to mcount is entered with the address behind it. -/
theorem patchInstruction_call (hx : isCall x = true) (hmcount : x ≠ insnCallMcount c.mcountAddress) :
    patchInstruction c a x = (x, some (a + 1)) := by
  have hret : ¬ (x = insnRet ∧ a.toNat ≠ c.retMcountAddress.toNat + 1) := by
    intro ⟨h, _⟩
    rw [h, isCall_insnRet] at hx
    cases hx
  rw [patchInstruction, if_neg hmcount, if_neg hret, if_pos hx]

theorem patchInstruction_mcount (hstats : c.enableProfiling = .stats) :
    patchInstruction c a (insnCallMcount c.mcountAddress) = (insnShId4 c.threadProfilingAddress a, some a) := by
  rw [patchInstruction, if_pos rfl, hstats]

theorem patchInstruction_mcount_nop (hnop : c.enableProfiling = .nop) :
    patchInstruction c a (insnCallMcount c.mcountAddress) = (insnNop, none) := by
  rw [patchInstruction, if_pos rfl, hnop]

/-- In statistics mode what is entered is what the patched instruction reports. -/
theorem reportedAddress_patched (hstats : c.enableProfiling = .stats) :
    reportedAddress a x (patchInstruction c a x).1 = (patchInstruction c a x).2 := by
  cases hx : isCall x with
  | false =>
    rw [entry_of_not_isCall c a x hx, reportedAddress, if_neg (by rw [hx]; exact Bool.false_ne_true)]
  | true =>
    rw [reportedAddress, if_pos hx]
    by_cases hmcount : x = insnCallMcount c.mcountAddress
    · rw [hmcount, patchInstruction_mcount c a hstats, isCall_insnShId4, storedImmediate_insnShId4]
      rfl
    · rw [patchInstruction_call c a x hx hmcount, if_pos hx]

end Instruction

/-! ## The instructions of a segment -/

section Segment

variable (c : ProfilingContext) (address : BitVec 32)

@[simp] theorem length_patchedFrom (source : List (BitVec 64)) :
    ∀ insn, (patchedFrom c address insn source).length = source.length := by
  induction source with
  | nil => exact fun _ => rfl
  | cons x source ih =>
    intro insn
    rw [patchedFrom, List.length_cons, ih, List.length_cons]

theorem patchedFrom_rewrites (source : List (BitVec 64)) :
    ∀ (insn i : Nat) (x y : BitVec 64), source[i]? = some x → (patchedFrom c address insn source)[i]? = some y →
      y = x ∨ x = insnCallMcount c.mcountAddress ∨ x = insnRet := by
  induction source with
  | nil =>
    intro insn i x y hx
    simp at hx
  | cons z source ih =>
    intro insn i x y hx hy
    cases i with
    | zero =>
      rw [patchedFrom] at hy
      obtain rfl := Option.some.inj hx
      obtain rfl := Option.some.inj hy
      exact patchInstruction_rewrites c _ _
    | succ i => exact ih (insn + 1) i x y hx hy

/-- In statistics mode the second pass meets the calls that the first one counted. -/
theorem length_entries (hstats : c.enableProfiling = .stats) (source : List (BitVec 64)) :
    ∀ insn, (entriesFrom c address insn source).length = source.countP isCall := by
  induction source with
  | nil => exact fun _ => rfl
  | cons x source ih =>
    intro insn
    rw [entriesFrom, List.length_append, ih, List.countP_cons, Nat.add_comm,
      ← reportedAddress_patched c _ x hstats, reportedAddress]
    by_cases hx : isCall x = true
    · rw [if_pos hx, if_pos hx]
      rfl
    · rw [if_neg hx, if_neg hx]
      rfl

/-- In any mode it meets no others. -/
theorem length_entries_le (source : List (BitVec 64)) :
    ∀ insn, (entriesFrom c address insn source).length ≤ source.countP isCall := by
  induction source with
  | nil => exact fun _ => Nat.le_refl 0
  | cons x source ih =>
    intro insn
    rw [entriesFrom, List.length_append, List.countP_cons, Nat.add_comm]
    apply Nat.add_le_add (ih (insn + 1))
    cases hx : isCall x with
    | false =>
      rw [entry_of_not_isCall c _ x hx]
      exact Nat.le_refl 0
    | true =>
      rw [if_pos rfl]
      cases (patchInstruction c (insnAddress address insn) x).2 with
      | none => exact Nat.zero_le 1
      | some entry => exact Nat.le_refl 1

/-- In nop mode nothing is entered if and only if every call is to mcount. -/
theorem entries_nil_iff (hnop : c.enableProfiling = .nop) (source : List (BitVec 64)) :
    ∀ insn, entriesFrom c address insn source = [] ↔
      ∀ x ∈ source, isCall x = true → x = insnCallMcount c.mcountAddress := by
  induction source with
  | nil => simp [entriesFrom]
  | cons x source ih =>
    intro insn
    have hfirst : (patchInstruction c (insnAddress address insn) x).2.toList = [] ↔
        (isCall x = true → x = insnCallMcount c.mcountAddress) := by
      by_cases hmcount : x = insnCallMcount c.mcountAddress
      · rw [hmcount, patchInstruction_mcount_nop c _ hnop]
        simp
      · cases hx : isCall x with
        | false => simp [entry_of_not_isCall c _ x hx]
        | true => simp [patchInstruction_call c _ x hx hmcount, hmcount]
    rw [entriesFrom, List.append_eq_nil_iff, ih, hfirst, List.forall_mem_cons]

theorem reportedFrom_patched (hstats : c.enableProfiling = .stats) (source : List (BitVec 64)) :
    ∀ insn, reportedFrom address insn source (patchedFrom c address insn source) =
      entriesFrom c address insn source := by
  induction source with
  | nil => exact fun _ => rfl
  | cons x source ih =>
    intro insn
    rw [patchedFrom, reportedFrom, entriesFrom, ih, reportedAddress_patched c _ x hstats]

end Segment

/-! ## One segment -/

theorem nbOfInstructions_le (source : List (BitVec 64)) : nbOfInstructions source ≤ source.length := by
  rw [nbOfInstructions, BitVec.toNat_ofNat]
  exact Nat.mod_le _ _

theorem calls_lt (seg : Segment) : seg.calls < 2 ^ 16 :=
  calc seg.calls
      ≤ (seg.source.take (nbOfInstructions seg.source)).length := List.countP_le_length
    _ ≤ nbOfInstructions seg.source := List.length_take_le _ _
    _ < 2 ^ 16 := BitVec.isLt _

theorem reportedFrom_noCalls (address : BitVec 32) (source : List (BitVec 64)) :
    ∀ (insn : Nat) (patched : List (BitVec 64)), source.countP isCall = 0 →
      reportedFrom address insn source patched = [] := by
  induction source with
  | nil => exact fun _ _ _ => by rw [reportedFrom]; simp
  | cons x source ih =>
    intro insn patched hcalls
    cases patched with
    | nil => rw [reportedFrom]; simp
    | cons y patched =>
      rw [List.countP_cons, Nat.add_eq_zero_iff] at hcalls
      have hx : ¬ isCall x = true := fun hx => by simp [hx] at hcalls
      rw [reportedFrom, ih _ _ hcalls.1, reportedAddress, if_neg hx]
      rfl

/-- The instructions as the second pass leaves them, in the whole segment. -/
def Segment.rewritten (seg : Segment) (c : ProfilingContext) : List (BitVec 64) :=
  patchedFrom c seg.address 0 (seg.source.take (nbOfInstructions seg.source)) ++
    seg.source.drop (nbOfInstructions seg.source)

/-- The entries of the segment. -/
def Segment.entries (seg : Segment) (c : ProfilingContext) : List (BitVec 16) :=
  entriesFrom c seg.address 0 (seg.source.take (nbOfInstructions seg.source))

theorem rewritten_rewrites (seg : Segment) (c : ProfilingContext) : RewritesOnly c seg.source (seg.rewritten c) := by
  have htake : seg.source.take (nbOfInstructions seg.source) ++ seg.source.drop (nbOfInstructions seg.source) =
      seg.source := List.take_append_drop _ _
  refine ⟨?_, ?_⟩
  · rw [Segment.rewritten, List.length_append, length_patchedFrom, ← List.length_append, htake]
  · intro i x y hx hy
    rw [← htake] at hx
    rw [Segment.rewritten] at hy
    by_cases hi : i < (seg.source.take (nbOfInstructions seg.source)).length
    · rw [List.getElem?_append_left hi] at hx
      rw [List.getElem?_append_left (by rw [length_patchedFrom]; exact hi)] at hy
      exact patchedFrom_rewrites c seg.address _ 0 i x y hx hy
    · rw [List.getElem?_append_right (Nat.le_of_not_lt hi)] at hx
      rw [List.getElem?_append_right (by rw [length_patchedFrom]; exact Nat.le_of_not_lt hi), length_patchedFrom, hx]
        at hy
      exact Or.inl (Option.some.inj hy).symm

theorem reported_rewritten (seg : Segment) {c : ProfilingContext} (hstats : c.enableProfiling = .stats) :
    seg.reported (seg.rewritten c) = seg.entries c := by
  have hvisited : (seg.rewritten c).take (nbOfInstructions seg.source) =
      patchedFrom c seg.address 0 (seg.source.take (nbOfInstructions seg.source)) := by
    apply List.take_left'
    rw [length_patchedFrom, List.length_take, Nat.min_eq_left (nbOfInstructions_le seg.source)]
  rw [Segment.reported, hvisited, reportedFrom_patched c seg.address hstats, Segment.entries]

theorem reported_noCalls {seg : Segment} (hcalls : seg.calls = 0) (patched : List (BitVec 64)) :
    seg.reported patched = [] := reportedFrom_noCalls _ _ _ _ hcalls

/-- The count behind the first pass. -/
def counted (seg : Segment) (c : ProfilingContext) : BitVec 16 := c.nrOfMcountStats + BitVec.ofNat 16 seg.calls

theorem toNat_counted (seg : Segment) (c : ProfilingContext) :
    (counted seg c).toNat = (c.nrOfMcountStats.toNat + seg.calls) % 2 ^ 16 := by
  rw [counted, BitVec.toNat_add, BitVec.toNat_ofNat, Nat.add_mod_mod]

theorem counted_ne {seg : Segment} (hcalls : seg.calls ≠ 0) (c : ProfilingContext) :
    counted seg c ≠ c.nrOfMcountStats := by
  intro h
  have hnat := congrArg BitVec.toNat h
  have hlt := calls_lt seg
  have hnr := c.nrOfMcountStats.isLt
  rw [toNat_counted] at hnat
  omega

section PatchSegment

variable {seg : Segment} {c : ProfilingContext} {stats : List (List (Option Stat))}

/-- A count of 0: the second pass is left out. -/
theorem patchSegment_zero (hzero : counted seg c = 0) :
    patchSegment seg.memory seg.source seg.address c = .ok (.ok, { c with nrOfMcountStats := 0 }, seg.source) := by
  have hcount : countCalls c.nrOfMcountStats (seg.source.take (nbOfInstructions seg.source)) = 0 := by
    rw [countCalls_eq]
    exact hzero
  simp only [patchSegment, hcount, if_true]

/-- Otherwise the arrays are reallocated for the calls, if there are any, and
the second pass runs. -/
theorem patchSegment_counted (hne : counted seg c ≠ 0) (hstats : c.mcountStats = some stats) :
    patchSegment seg.memory seg.source seg.address c =
      match if counted seg c ≠ c.nrOfMcountStats then reallocThreads seg.memory (counted seg c).toNat 0 stats
        else some stats with
      | none => .ok (.system, { c with nrOfMcountStats := counted seg c, mcountStats := none }, seg.source)
      | some stats => secondPass seg.source seg.address (counted seg c) c stats := by
  have hcount : countCalls c.nrOfMcountStats (seg.source.take (nbOfInstructions seg.source)) = counted seg c :=
    countCalls_eq _ _
  simp only [patchSegment, hcount, if_neg hne, hstats]

/-- Without a call the arrays stay as they are. -/
theorem patchSegment_noCalls (hcalls : seg.calls = 0) (hnr : c.nrOfMcountStats ≠ 0)
    (hstats : c.mcountStats = some stats) :
    patchSegment seg.memory seg.source seg.address c = .ok (.ok, c, seg.rewritten c) := by
  have hcount : counted seg c = c.nrOfMcountStats := by
    rw [counted, hcalls]
    exact BitVec.add_zero _
  have hentries : entriesFrom c seg.address 0 (seg.source.take (nbOfInstructions seg.source)) = [] :=
    List.length_eq_zero_iff.mp (Nat.le_zero.mp (hcalls ▸ length_entries_le c seg.address _ 0))
  have hloop := patchLoop_within c seg.address (seg.source.take (nbOfInstructions seg.source)) 0
    c.nrOfMcountStats.toNat stats (by simp [hentries])
  have hsame : stats.map (fillFrom c.nrOfMcountStats.toNat ([] : List Stat)) = stats := List.map_id _
  rw [hentries, List.map_nil, hsame] at hloop
  rw [patchSegment_counted (by rw [hcount]; exact hnr) hstats, hcount, if_neg (fun h => h rfl)]
  dsimp only
  rw [secondPass, hloop]
  dsimp only [bind, Except.bind]
  rw [← hstats]
  rfl

/-- With a call, the arrays of the threads grow and are filled. -/
theorem patchSegment_grown (hcalls : seg.calls ≠ 0) (hne : counted seg c ≠ 0) (hstats : c.mcountStats = some stats)
    (hrealloc : ∀ thId < stats.length, seg.memory.realloc thId = true)
    (hroom : ∀ i < (seg.entries c).length, c.nrOfMcountStats.toNat + i < (counted seg c).toNat) :
    patchSegment seg.memory seg.source seg.address c = .ok (.ok,
      { c with
        nrOfMcountStats := counted seg c
        mcountStats := some (stats.map fun es =>
          fillFrom c.nrOfMcountStats.toNat ((seg.entries c).map newStat) (regrow es (counted seg c).toNat)) },
      seg.rewritten c) := by
  have hall : ∀ i < stats.length, seg.memory.realloc (0 + i) = true := by simpa using hrealloc
  have hwithin : ∀ es ∈ stats.map fun es => regrow es (counted seg c).toNat,
      ∀ i < (seg.entries c).length, c.nrOfMcountStats.toNat + i < es.length := by
    intro es' hes' i hi
    obtain ⟨es, _, rfl⟩ := List.mem_map.mp hes'
    rw [length_regrow]
    exact hroom i hi
  rw [patchSegment_counted hne hstats, if_pos (counted_ne hcalls c), reallocThreads_eq, if_pos hall]
  dsimp only
  rw [secondPass, patchLoop_within c seg.address _ 0 c.nrOfMcountStats.toNat _ hwithin, List.map_map]
  rfl

/-- A reallocation that fails leaves the count without arrays. -/
theorem patchSegment_noMemory (hcalls : seg.calls ≠ 0) (hne : counted seg c ≠ 0) (hstats : c.mcountStats = some stats)
    (hrealloc : ¬ ∀ thId < stats.length, seg.memory.realloc thId = true) :
    patchSegment seg.memory seg.source seg.address c =
      .ok (.system, { c with nrOfMcountStats := counted seg c, mcountStats := none }, seg.source) := by
  have hnot : ¬ ∀ i < stats.length, seg.memory.realloc (0 + i) = true := by simpa using hrealloc
  rw [patchSegment_counted hne hstats, if_pos (counted_ne hcalls c), reallocThreads_eq, if_neg hnot]

/-- A count that wrapped leaves no room for what the second pass enters. -/
theorem patchSegment_wrapped (hcalls : seg.calls ≠ 0) (hne : counted seg c ≠ 0) (hstats : c.mcountStats = some stats)
    (hrealloc : ∀ thId < stats.length, seg.memory.realloc thId = true) (hthreads : stats ≠ [])
    (hwrap : (counted seg c).toNat ≤ c.nrOfMcountStats.toNat) (hentries : seg.entries c ≠ []) :
    patchSegment seg.memory seg.source seg.address c = .error .outside := by
  have hall : ∀ i < stats.length, seg.memory.realloc (0 + i) = true := by simpa using hrealloc
  have hend : ∀ es ∈ stats.map fun es => regrow es (counted seg c).toNat, es.length ≤ c.nrOfMcountStats.toNat := by
    intro es' hes'
    obtain ⟨es, _, rfl⟩ := List.mem_map.mp hes'
    rw [length_regrow]
    exact hwrap
  rw [patchSegment_counted hne hstats, if_pos (counted_ne hcalls c), reallocThreads_eq, if_pos hall]
  dsimp only
  rw [secondPass, patchLoop_outside c seg.address _ 0 _ _ (fun h => hthreads (List.map_eq_nil_iff.mp h)) hend hentries]
  rfl

theorem rewritesOnly_refl (c : ProfilingContext) (source : List (BitVec 64)) : RewritesOnly c source source := by
  refine ⟨rfl, ?_⟩
  intro i x y hx hy
  rw [hx] at hy
  exact Or.inl (Option.some.inj hy).symm

/-- The second pass over a segment, whatever the arrays. -/
theorem patchLoop_rewrites {mcountIdx : Nat} {out : List (BitVec 64) × List (List (Option Stat))}
    (hloop : patchLoop c seg.address (seg.source.take (nbOfInstructions seg.source)) 0 mcountIdx stats = .ok out) :
    RewritesOnly c seg.source (out.1 ++ seg.source.drop (nbOfInstructions seg.source)) := by
  rw [patchLoop_patched c seg.address _ _ _ _ _ hloop]
  exact rewritten_rewrites seg c

theorem secondPass_rewrites {nrOfMcountStats : BitVec 16} {out : Status × ProfilingContext × List (BitVec 64)}
    (hrun : secondPass seg.source seg.address nrOfMcountStats c stats = .ok out) :
    RewritesOnly c seg.source out.2.2 := by
  rw [secondPass] at hrun
  cases hloop : patchLoop c seg.address (seg.source.take (nbOfInstructions seg.source)) 0 c.nrOfMcountStats.toNat
      stats with
  | error e =>
    rw [hloop] at hrun
    cases hrun
  | ok passed =>
    rw [hloop] at hrun
    obtain rfl := Except.ok.inj hrun
    exact patchLoop_rewrites hloop

/-- However it ends, only calls to mcount and returns are rewritten. -/
theorem patchSegment_rewrites {out : Status × ProfilingContext × List (BitVec 64)}
    (hrun : patchSegment seg.memory seg.source seg.address c = .ok out) : RewritesOnly c seg.source out.2.2 := by
  by_cases hzero : counted seg c = 0
  · rw [patchSegment_zero hzero] at hrun
    obtain rfl := Except.ok.inj hrun
    exact rewritesOnly_refl c seg.source
  cases hstats : c.mcountStats with
  | some stats =>
    rw [patchSegment_counted hzero hstats] at hrun
    split at hrun
    · obtain rfl := Except.ok.inj hrun
      exact rewritesOnly_refl c seg.source
    · exact secondPass_rewrites hrun
  | none =>
    have hcount : countCalls c.nrOfMcountStats (seg.source.take (nbOfInstructions seg.source)) = counted seg c :=
      countCalls_eq _ _
    simp only [patchSegment, hcount, if_neg hzero, hstats] at hrun
    split at hrun
    · cases hloop : patchLoop c seg.address (seg.source.take (nbOfInstructions seg.source)) 0
          c.nrOfMcountStats.toNat [] with
      | error e =>
        rw [hloop] at hrun
        cases hrun
      | ok passed =>
        rw [hloop] at hrun
        obtain rfl := Except.ok.inj hrun
        exact patchLoop_rewrites hloop
    · cases hrun

end PatchSegment

/-! ## Soundness of one segment -/

section Sound

variable {rank : Rank} {seg : Segment} {c : ProfilingContext} {stats : List (List (Option Stat))} {l : Option Loader}
  {sites : List (BitVec 16)}

/-- Arrays for every thread, as long as the count, with the addresses of the sites. -/
theorem sound_of_arrays (hstats : c.mcountStats = some stats) (hthreads : stats.length = rank.nrOfThreads)
    (harrays : ∀ es ∈ stats, es.length = c.nrOfMcountStats.toNat ∧
      (c.enableProfiling = .stats → Filled Stat.address sites 0 es)) :
    State.Sound rank { context := c, loader := l, sites } := by
  have hsame : ∀ stats', c.mcountStats = some stats' → stats' = stats := by
    intro stats' hstats'
    rw [hstats] at hstats'
    exact (Option.some.inj hstats').symm
  constructor
  · intro hnone
    rw [show c.mcountStats = none from hnone] at hstats
    cases hstats
  · intro stats' hstats'
    obtain rfl := hsame stats' hstats'
    exact hthreads
  · intro stats' hstats' es hes
    obtain rfl := hsame stats' hstats'
    exact (harrays es hes).1
  · intro hmode stats' hstats' es hes
    obtain rfl := hsame stats' hstats'
    exact Filled.zero_iff.mp ((harrays es hes).2 hmode)

/-- In statistics mode every array is written throughout. -/
theorem State.Sound.filled (h : State.Sound rank { context := c, loader := l, sites })
    (hstats : c.mcountStats = some stats) (hmode : c.enableProfiling = .stats) {es : List (Option Stat)}
    (hes : es ∈ stats) :
    Filled Stat.address sites 0 es :=
  Filled.zero_iff.mpr (h.initialised hmode stats hstats es hes)

/-- The load in progress plays no part. -/
theorem State.Sound.withLoader (h : State.Sound rank { context := c, loader := l, sites }) (l' : Option Loader) :
    State.Sound rank { context := c, loader := l', sites } :=
  { absent := h.absent, threads := h.threads, allocated := h.allocated, initialised := h.initialised }

theorem State.Sound.threads_ne_nil (h : State.Sound rank { context := c, loader := l, sites })
    (hstats : c.mcountStats = some stats) : stats ≠ [] := by
  intro hnil
  have hlength := h.threads stats hstats
  have hpos := rank.threads_pos
  rw [hnil, List.length_nil] at hlength
  omega

/-- In statistics mode there are as many sites as entries. -/
theorem State.Sound.length_sites (h : State.Sound rank { context := c, loader := l, sites })
    (hstats : c.mcountStats = some stats) (hmode : c.enableProfiling = .stats) :
    sites.length = c.nrOfMcountStats.toNat := by
  obtain ⟨es, hes⟩ := List.exists_mem_of_ne_nil stats (h.threads_ne_nil hstats)
  have hlength : es.length = sites.length + 0 := (h.filled hstats hmode hes).length
  rw [Nat.add_zero] at hlength
  rw [← hlength]
  exact h.allocated stats hstats es hes

/-- The arrays grown and filled, with the addresses that the segment reports. -/
theorem grown_sound (h : State.Sound rank { context := c, loader := l, sites }) (hstats : c.mcountStats = some stats)
    (hcount : c.enableProfiling = .stats → (counted seg c).toNat = c.nrOfMcountStats.toNat + seg.calls) :
    State.Sound rank
      { context :=
          { c with
            nrOfMcountStats := counted seg c
            mcountStats := some (stats.map fun es =>
              fillFrom c.nrOfMcountStats.toNat ((seg.entries c).map newStat) (regrow es (counted seg c).toNat)) }
        loader := l
        sites := sites ++ seg.reported (seg.rewritten c) } := by
  apply sound_of_arrays rfl
  · rw [List.length_map]
    exact h.threads stats hstats
  intro es' hes'
  obtain ⟨es, hes, rfl⟩ := List.mem_map.mp hes'
  constructor
  · rw [length_fillFrom, length_regrow]
  · intro hmode
    replace hmode : c.enableProfiling = .stats := hmode
    have hsites := h.length_sites hstats hmode
    have hold : Filled Stat.address sites 0 es := h.filled hstats hmode hes
    -- the array grows by one entry for each address that is entered
    have hgrown : Filled Stat.address sites (((seg.entries c).map newStat).length + 0)
        (regrow es (counted seg c).toNat) := by
      have hentries : ((seg.entries c).map newStat).length = seg.calls := by
        rw [List.length_map]
        exact length_entries c seg.address hmode _ 0
      rw [Nat.add_zero, hentries, hcount hmode, ← hsites]
      exact hold.regrow seg.calls
    have hfilled := hgrown.fillFrom
    rw [hsites] at hfilled
    have hkeys : ((seg.entries c).map newStat).map Stat.address = seg.entries c := by
      rw [List.map_map]
      exact List.map_id _
    rw [hkeys] at hfilled
    rw [reported_rewritten seg hmode]
    exact hfilled

/-- A segment whose calls fit keeps the arrays sound. -/
theorem patchSegment_sound (h : State.Sound rank { context := c, loader := l, sites })
    (hstats : c.mcountStats = some stats) (hfits : seg.calls = 0 ∨ CallsFit rank c.nrOfMcountStats.toNat seg c) :
    ∃ nrOfMcountStats stats' patched,
      patchSegment seg.memory seg.source seg.address c =
        .ok (.ok, { c with nrOfMcountStats, mcountStats := some stats' }, patched) ∧
      State.Sound rank
        { context := { c with nrOfMcountStats, mcountStats := some stats' }, loader := l
          sites := sites ++ seg.reported patched } := by
  have hsame : c = { c with nrOfMcountStats := c.nrOfMcountStats, mcountStats := some stats } := by rw [← hstats]
  by_cases hcalls : seg.calls = 0
  · by_cases hnr : c.nrOfMcountStats = 0
    · refine ⟨c.nrOfMcountStats, stats, seg.source, ?_, ?_⟩
      · have hzero : counted seg c = 0 := by rw [counted, hnr, hcalls]; rfl
        rw [patchSegment_zero hzero, ← hsame, ← hnr]
      · rw [reported_noCalls hcalls, List.append_nil, ← hsame]
        exact h
    · refine ⟨c.nrOfMcountStats, stats, seg.rewritten c, ?_, ?_⟩
      · rw [patchSegment_noCalls hcalls hnr hstats, ← hsame]
      · rw [reported_noCalls hcalls, List.append_nil, ← hsame]
        exact h
  · obtain ⟨hrealloc, hcount⟩ := hfits.resolve_left hcalls
    have hlt := calls_lt seg
    have hnr := c.nrOfMcountStats.isLt
    have hnat := toNat_counted seg c
    have hne : counted seg c ≠ 0 := by
      intro hzero
      rw [hzero] at hnat
      rcases hcount with hcount | ⟨_, hcount, _⟩
      · rw [Nat.mod_eq_of_lt hcount] at hnat
        simp at hnat
        omega
      · simp at hnat
        omega
    refine ⟨counted seg c, _, seg.rewritten c, patchSegment_grown hcalls hne hstats ?_ ?_, grown_sound h hstats ?_⟩
    · rw [h.threads stats hstats]
      exact hrealloc
    · intro i hi
      rcases hcount with hcount | ⟨hnop, _, hmcount⟩
      · have hle : (seg.entries c).length ≤ seg.calls := length_entries_le c seg.address _ 0
        rw [hnat, Nat.mod_eq_of_lt hcount]
        omega
      · -- in nop mode nothing is entered for calls to mcount
        rw [Segment.entries, (entries_nil_iff c seg.address hnop _ 0).mpr hmcount] at hi
        exact absurd hi (Nat.not_lt_zero i)
    · intro hmode
      rcases hcount with hcount | ⟨hnop, _, _⟩
      · rw [hnat, Nat.mod_eq_of_lt hcount]
      · rw [hnop] at hmode
        cases hmode

/-- A segment that leaves the arrays sound fits. -/
theorem patchSegment_fits (h : State.Sound rank { context := c, loader := l, sites })
    (hstats : c.mcountStats = some stats) (hmode : c.enableProfiling = .nop ∨ c.enableProfiling = .stats)
    {out : Status × ProfilingContext × List (BitVec 64)}
    (hrun : patchSegment seg.memory seg.source seg.address c = .ok out) {l' : Option Loader} {sites' : List (BitVec 16)}
    (hsound : State.Sound rank { context := out.2.1, loader := l', sites := sites' }) :
    seg.calls = 0 ∨ CallsFit rank c.nrOfMcountStats.toNat seg c := by
  by_cases hcalls : seg.calls = 0
  · exact Or.inl hcalls
  right
  have hlt := calls_lt seg
  have hnr := c.nrOfMcountStats.isLt
  have hnat := toNat_counted seg c
  have hthreads := h.threads stats hstats
  by_cases hzero : counted seg c = 0
  · -- the count has wrapped to 0, the arrays have their entries yet
    rw [patchSegment_zero hzero] at hrun
    obtain rfl := Except.ok.inj hrun
    obtain ⟨es, hes⟩ := List.exists_mem_of_ne_nil stats (h.threads_ne_nil hstats)
    have hbefore := h.allocated stats hstats es hes
    have hafter : es.length = 0 := hsound.allocated stats hstats es hes
    have hwrapped : 0 = (c.nrOfMcountStats.toNat + seg.calls) % 2 ^ 16 := by rw [← hnat, hzero]; rfl
    dsimp only at hbefore
    omega
  by_cases hrealloc : ∀ thId < stats.length, seg.memory.realloc thId = true
  · refine ⟨by rw [← hthreads]; exact hrealloc, ?_⟩
    by_cases hfits : c.nrOfMcountStats.toNat + seg.calls < 2 ^ 16
    · exact Or.inl hfits
    by_cases hentries : seg.entries c = []
    · right
      rcases hmode with hnop | hmode
      · refine ⟨hnop, ?_, (entries_nil_iff c seg.address hnop _ 0).mp hentries⟩
        intro hcount
        rw [hcount, Nat.mod_self] at hnat
        exact hzero (BitVec.eq_of_toNat_eq hnat)
      · have hlength := length_entries c seg.address hmode (seg.source.take (nbOfInstructions seg.source)) 0
        rw [show entriesFrom c seg.address 0 _ = [] from hentries] at hlength
        exact absurd hlength.symm hcalls
    · rw [patchSegment_wrapped hcalls hzero hstats hrealloc (h.threads_ne_nil hstats) (by omega) hentries] at hrun
      cases hrun
  · rw [patchSegment_noMemory hcalls hzero hstats hrealloc] at hrun
    obtain rfl := Except.ok.inj hrun
    exact absurd (hsound.absent rfl) hzero

end Sound

/-! ## One load -/

section Load

variable {rank : Rank} {memory : Memory} {target : Target} {source : List (BitVec 64)} {address : BitVec 32}
  {c : ProfilingContext} {l : Option Loader} {sites : List (BitVec 16)}

/-- Behind all checks. -/
theorem patchIram_of_patches (h : Patches rank target c) (init : Bool) :
    patchIram rank memory target source address init c =
      if init then
        match resetStats rank memory c with
        | none => .ok (.system, c, source)
        | some c => patchSegment memory source address c
      else patchSegment memory source address c := by
  obtain ⟨⟨henabled, htarget⟩, hmode, hmcount, hret, hthread⟩ := h
  have hother : ¬ (c.enableProfiling = .mcount ∨ c.enableProfiling = .samples ∨ c.enableProfiling = .sections) := by
    rcases hmode with hmode | hmode <;> simp [hmode]
  have hfound : ¬ (c.mcountAddress = 0 ∨ c.retMcountAddress = 0 ∨ c.threadProfilingAddress = 0) :=
    not_or.mpr ⟨hmcount, not_or.mpr ⟨hret, hthread⟩⟩
  have hpatch : dpuPatchProfilingForDpu rank memory c.dpu source address init c =
      if init then
        match resetStats rank memory c with
        | none => .ok (.system, c, source)
        | some c => patchSegment memory source address c
      else patchSegment memory source address c := by
    simp only [dpuPatchProfilingForDpu, henabled, hother, hfound, false_and, ne_eq, not_true_eq_false, if_false]
  rcases htarget with rfl | rfl
  · simp only [patchIram, henabled, not_true_eq_false, if_false]
    exact hpatch
  · exact hpatch

/-- A load that is not patched leaves the context and the segment. -/
theorem patchIram_of_not (h : ¬ Patches rank target c) (init : Bool) :
    ∃ status, patchIram rank memory target source address init c = .ok (status, c, source) := by
  have hpatch : ∀ id, ¬ (rank.enabled id = true ∧ id = c.dpu ∧ (c.enableProfiling = .nop ∨ c.enableProfiling = .stats) ∧
      c.mcountAddress ≠ 0 ∧ c.retMcountAddress ≠ 0 ∧ c.threadProfilingAddress ≠ 0) →
      ∃ status, dpuPatchProfilingForDpu rank memory id source address init c = .ok (status, c, source) := by
    intro id hnot
    rw [dpuPatchProfilingForDpu]
    split
    · exact ⟨_, rfl⟩
    split
    · exact ⟨_, rfl⟩
    split
    · exact ⟨_, rfl⟩
    split
    · exact ⟨_, rfl⟩
    split
    · exact ⟨_, rfl⟩
    -- here every check has passed
    exfalso
    cases hmode : c.enableProfiling <;> simp_all
  cases target with
  | rank =>
    rw [patchIram]
    split
    · exact ⟨_, rfl⟩
    · exact hpatch c.dpu fun hall => h ⟨⟨hall.1, Or.inl rfl⟩, hall.2.2⟩
  | dpu id =>
    refine hpatch id fun hall => h ⟨⟨?_, Or.inr (by rw [hall.2.1])⟩, hall.2.2⟩
    rw [← hall.2.1]
    exact hall.1

/-- The arrays are started anew, unless there are none and none are allocated. -/
theorem resetStats_cases (h : State.Sound rank { context := c, loader := l, sites }) (memory : Memory) :
    (c.mcountStats = none ∧ memory.calloc = false ∧ resetStats rank memory c = none) ∨
      (¬ (c.mcountStats = none ∧ memory.calloc = false) ∧ ∃ stats,
        resetStats rank memory c = some { c with nrOfMcountStats := 0, mcountStats := some stats } ∧
        State.Sound rank
          { context := { c with nrOfMcountStats := 0, mcountStats := some stats }, loader := l, sites := [] }) := by
  have hempty : ∀ stats : List (List (Option Stat)), stats.length = rank.nrOfThreads → (∀ es ∈ stats, es = []) →
      State.Sound rank
        { context := { c with nrOfMcountStats := 0, mcountStats := some stats }, loader := l, sites := [] } := by
    intro stats hthreads hes
    apply sound_of_arrays rfl hthreads
    intro es hmem
    rw [hes es hmem]
    exact ⟨rfl, fun _ => Filled.empty Stat.address⟩
  cases hstats : c.mcountStats with
  | some stats =>
    right
    refine ⟨fun hnone => Option.some_ne_none stats hnone.1, stats.map fun _ => [], ?_, ?_⟩
    · rw [resetStats, hstats]
    · apply hempty
      · rw [List.length_map]
        exact h.threads stats hstats
      · intro es hes
        obtain ⟨_, _, rfl⟩ := List.mem_map.mp hes
        rfl
  | none =>
    have hnr : c.nrOfMcountStats = 0 := h.absent hstats
    cases hcalloc : memory.calloc with
    | false =>
      left
      refine ⟨rfl, rfl, ?_⟩
      rw [resetStats, hstats, hcalloc]
      rfl
    | true =>
      right
      refine ⟨fun hfails => Bool.false_ne_true hfails.2.symm, List.replicate rank.nrOfThreads [], ?_, ?_⟩
      · rw [resetStats, hstats, hcalloc, ← hnr]
        rfl
      · apply hempty
        · exact List.length_replicate
        · exact fun es hes => List.eq_of_mem_replicate hes

end Load

/-! ## One poll -/

section Poll

variable {rank : Rank} {c t : ProfilingContext} {l : Option Loader} {sites : List (BitVec 16)} {threadId insn : Nat}

/-- The context but for what is counted. -/
def OnlyCounts (c t : ProfilingContext) : Prop :=
  ∃ stats, t = { c with mcountStats := stats } ∧ (stats = none → c.mcountStats = none)

/-- Below the count every entry of every thread has been written. -/
theorem entry_written (h : State.Sound rank { context := c, loader := l, sites }) (hmode : c.enableProfiling = .stats)
    (hthread : threadId < rank.nrOfThreads) (hinsn : insn < c.nrOfMcountStats.toNat) :
    ∃ stats es e, c.mcountStats = some stats ∧ stats[threadId]? = some es ∧ es[insn]? = some (some e) := by
  cases hstats : c.mcountStats with
  | none =>
    rw [h.absent hstats] at hinsn
    exact absurd hinsn (Nat.not_lt_zero insn)
  | some stats =>
    have hlength : threadId < stats.length := by
      rw [h.threads stats hstats]
      exact hthread
    have hes : stats[threadId] ∈ stats := List.getElem_mem hlength
    obtain ⟨e, he, _⟩ := (h.filled hstats hmode hes).get (i := insn) (by rw [h.length_sites hstats hmode]; exact hinsn)
    exact ⟨stats, stats[threadId], e, rfl, List.getElem?_eq_getElem hlength, he⟩

theorem readStat_entry {stats : List (List (Option Stat))} {es : List (Option Stat)} {e : Stat}
    (hstats : c.mcountStats = some stats) (hes : stats[threadId]? = some es) (he : es[insn]? = some (some e)) :
    readStat c threadId insn = .ok e := by
  simp only [readStat, hstats, hes, he]

/-- A count changes, no address does. -/
theorem writeStat_sound (h : State.Sound rank { context := c, loader := l, sites })
    {stats : List (List (Option Stat))} {es : List (Option Stat)} {e e' : Stat}
    (hstats : c.mcountStats = some stats) (hes : stats[threadId]? = some es) (he : es[insn]? = some (some e))
    (haddress : e'.address = e.address) :
    State.Sound rank { context := writeStat c threadId insn e', loader := l, sites } := by
  have hwritten : (writeStat c threadId insn e').mcountStats =
      some (stats.modify threadId fun es => es.set insn (some e')) := by
    rw [writeStat, hstats]
    rfl
  -- an array after the write is one from before, or the one written to
  have hmem : ∀ xs ∈ stats.modify threadId fun es => es.set insn (some e'),
      xs ∈ stats ∨ (es ∈ stats ∧ xs = es.set insn (some e')) := by
    intro xs hxs
    obtain ⟨i, hi⟩ := List.mem_iff_getElem?.mp hxs
    rw [List.getElem?_modify] at hi
    by_cases hithread : threadId = i
    · subst hithread
      rw [hes] at hi
      simp only [if_true] at hi
      exact Or.inr ⟨List.mem_of_getElem? hes, (Option.some.inj hi).symm⟩
    · simp only [hithread, if_false, id_map'] at hi
      exact Or.inl (List.mem_of_getElem? hi)
  apply sound_of_arrays hwritten
  · rw [List.length_modify]
    exact h.threads stats hstats
  intro xs hxs
  rcases hmem xs hxs with hxs | ⟨hold, rfl⟩
  · exact ⟨h.allocated stats hstats xs hxs, fun hmode => h.filled hstats hmode hxs⟩
  · constructor
    · rw [List.length_set]
      exact h.allocated stats hstats es hold
    · intro hmode
      exact (h.filled hstats hmode hold).replace he haddress

theorem onlyCounts_refl (c : ProfilingContext) : OnlyCounts c c := ⟨c.mcountStats, rfl, fun h => h⟩

theorem OnlyCounts.enableProfiling (h : OnlyCounts c t) : t.enableProfiling = c.enableProfiling := by
  obtain ⟨_, rfl, _⟩ := h
  rfl

theorem OnlyCounts.writeStat (h : OnlyCounts c t) (threadId insn : Nat) (e : Stat) :
    OnlyCounts c (writeStat t threadId insn e) := by
  obtain ⟨stats, rfl, hnone⟩ := h
  refine ⟨stats.map fun stats => stats.modify threadId fun es => es.set insn (some e), rfl, ?_⟩
  intro hmap
  exact hnone (Option.map_eq_none_iff.mp hmap)

/-- The search reads below the count and counts in one entry at most. -/
theorem countAddress_sound (curProfiledAddress : BitVec 16) (hthread : threadId < rank.nrOfThreads)
    (h : State.Sound rank { context := t, loader := l, sites }) (hmode : t.enableProfiling = .stats)
    (honly : OnlyCounts c t) :
    ∀ n insn, insn + n ≤ t.nrOfMcountStats.toNat →
      ∃ t', countAddress threadId curProfiledAddress t n insn = .ok t' ∧
        State.Sound rank { context := t', loader := l, sites } ∧ OnlyCounts c t'
  | 0, _, _ => ⟨t, rfl, h, honly⟩
  | n + 1, insn, hn => by
    obtain ⟨stats, es, e, hstats, hes, he⟩ := entry_written h hmode hthread (show insn < _ by omega)
    rw [countAddress, readStat_entry hstats hes he]
    dsimp only
    split
    · exact ⟨_, rfl, writeStat_sound h hstats hes he rfl, honly.writeStat _ _ _⟩
    · exact countAddress_sound curProfiledAddress hthread h hmode honly n (insn + 1) (by omega)

theorem collectThread_sound (profiledAddress : Nat → BitVec 32) (hthread : threadId < rank.nrOfThreads)
    (h : State.Sound rank { context := t, loader := l, sites }) (hmode : t.enableProfiling = .stats)
    (honly : OnlyCounts c t) :
    ∃ t', collectThread profiledAddress t threadId = .ok t' ∧
      State.Sound rank { context := t', loader := l, sites } ∧ OnlyCounts c t' := by
  rw [collectThread]
  split
  · exact ⟨t, rfl, h, honly⟩
  dsimp only
  split
  · exact ⟨t, rfl, h, honly⟩
  · exact countAddress_sound _ hthread h hmode honly _ 0 (by omega)

/-- A poll of sound arrays reads entries that have been written. -/
theorem pollRank_sound (profiledAddress : Nat → BitVec 32) (stopped : Bool)
    (h : State.Sound rank { context := c, loader := l, sites }) :
    ∃ t, pollRank rank profiledAddress stopped c = .ok t ∧ State.Sound rank { context := t, loader := l, sites } ∧
      OnlyCounts c t := by
  cases hmode : c.enableProfiling with
  | stats =>
    have hcollect : ∃ t, dpuCollectStatisticsProfiling rank profiledAddress c = .ok t ∧
        State.Sound rank { context := t, loader := l, sites } ∧ OnlyCounts c t := by
      rw [dpuCollectStatisticsProfiling]
      split
      · exact ⟨c, rfl, h, onlyCounts_refl c⟩
      · apply foldlM_total
        · intro t threadId hthread ⟨hsound, honly⟩
          have hsame : t.enableProfiling = .stats := honly.enableProfiling.trans hmode
          exact collectThread_sound profiledAddress (List.mem_range.mp hthread) hsound hsame honly
        · exact ⟨h, onlyCounts_refl c⟩
    obtain ⟨t, hrun, hsound, honly⟩ := hcollect
    have hdump : ∃ entries, dpuDumpStatisticsProfiling rank t = .ok entries := by
      rw [dpuDumpStatisticsProfiling]
      split
      · exact ⟨[], rfl⟩
      · apply mapM_total
        intro threadId hthread
        apply mapM_total
        intro insn hinsn
        have hsame : t.enableProfiling = .stats := honly.enableProfiling.trans hmode
        obtain ⟨stats, es, e, hstats, hes, he⟩ :=
          entry_written hsound hsame (List.mem_range.mp hthread) (List.mem_range.mp hinsn)
        exact ⟨e, readStat_entry hstats hes he⟩
    obtain ⟨entries, hdump⟩ := hdump
    refine ⟨t, ?_, hsound, honly⟩
    rw [pollRank, hmode]
    dsimp only
    rw [hrun]
    dsimp only [bind, Except.bind]
    split
    · rw [hdump]
    · rfl
  | nop => exact ⟨c, by rw [pollRank, hmode], h, onlyCounts_refl c⟩
  | mcount => exact ⟨c, by rw [pollRank, hmode], h, onlyCounts_refl c⟩
  | samples => exact ⟨c, by rw [pollRank, hmode], h, onlyCounts_refl c⟩
  | sections => exact ⟨c, by rw [pollRank, hmode], h, onlyCounts_refl c⟩

end Poll

/-! ## One step -/

/-- Sound, and behind the first segment of a load that is patched there are arrays. -/
structure State.Good (rank : Rank) (s : State) : Prop where
  sound : s.Sound rank
  started : ∀ loader, s.loader = some loader → loader.nrOfInstructions ≠ 0 → Patches rank loader.target s.context →
    s.context.mcountStats ≠ none

section Step

variable {rank : Rank} {s : State}

/-- What the load's next segment makes of the loader. -/
def nextLoader (status : Status) (seg : Segment) (loader : Loader) : Option Loader :=
  if status = .ok ∧ seg.copied then
    some { loader with nrOfInstructions := loader.nrOfInstructions + BitVec.ofNat 32 seg.source.length }
  else none

theorem loadSegment_eq {seg : Segment} {loader : Loader} {c c' : ProfilingContext} {status : Status}
    {patched : List (BitVec 64)}
    (h : patchIram rank seg.memory loader.target seg.source seg.address (loader.nrOfInstructions = 0) c =
      .ok (status, c', patched)) :
    loadSegment rank seg loader c = .ok (nextLoader status seg loader, c', patched) := by
  rw [loadSegment, h]
  dsimp only [bind, Except.bind]
  rw [nextLoader]
  split
  · rfl
  · rfl

/-- A segment that is patched is patched from sound arrays, those of the
segments before it or empty ones; or the array of pointers is not allocated. -/
theorem patchIram_started (h : s.Good rank) (seg : Segment) {loader : Loader} (hl : s.loader = some loader)
    (hp : Patches rank loader.target s.context) :
    ((loader.nrOfInstructions = 0 ∧ s.context.mcountStats = none ∧ seg.memory.calloc = false) ∧
      patchIram rank seg.memory loader.target seg.source seg.address (loader.nrOfInstructions = 0) s.context =
        .ok (.system, s.context, seg.source)) ∨
    (¬ (loader.nrOfInstructions = 0 ∧ s.context.mcountStats = none ∧ seg.memory.calloc = false) ∧
      ∃ nrOfMcountStats stats,
        patchIram rank seg.memory loader.target seg.source seg.address (loader.nrOfInstructions = 0) s.context =
          patchSegment seg.memory seg.source seg.address
            { s.context with nrOfMcountStats, mcountStats := some stats } ∧
        nrOfMcountStats.toNat = (if loader.nrOfInstructions = 0 then 0 else s.context.nrOfMcountStats.toNat) ∧
        State.Sound rank
          { context := { s.context with nrOfMcountStats, mcountStats := some stats }, loader := none
            sites := if loader.nrOfInstructions = 0 then [] else s.sites }) := by
  have hsound : State.Sound rank { context := s.context, loader := none, sites := s.sites } := h.sound.withLoader none
  rw [patchIram_of_patches hp]
  by_cases hinit : loader.nrOfInstructions = 0
  · rw [if_pos (decide_eq_true hinit), if_pos hinit, if_pos hinit]
    rcases resetStats_cases hsound seg.memory with ⟨hnone, hcalloc, hreset⟩ | ⟨hnot, stats, hreset, hempty⟩
    · refine Or.inl ⟨⟨hinit, hnone, hcalloc⟩, ?_⟩
      rw [hreset]
    · refine Or.inr ⟨fun hfails => hnot hfails.2, 0, stats, ?_, rfl, hempty⟩
      rw [hreset]
  · rw [if_neg (by simpa using hinit), if_neg hinit, if_neg hinit]
    right
    refine ⟨fun hfails => hinit hfails.1, ?_⟩
    cases hstats : s.context.mcountStats with
    | none => exact absurd hstats (h.started loader hl hinit hp)
    | some stats =>
      have hsame : s.context =
          { s.context with nrOfMcountStats := s.context.nrOfMcountStats, mcountStats := some stats } := by rw [← hstats]
      refine ⟨s.context.nrOfMcountStats, stats, by rw [← hsame], rfl, ?_⟩
      rw [← hsame]
      exact hsound

/-- A segment whose calls fit. -/
theorem segment_good (h : s.Good rank) {seg : Segment} {loader : Loader} (hl : s.loader = some loader)
    (hp : Patches rank loader.target s.context) (hfits : Fits rank s (.segment seg)) :
    ∃ next c' patched, loadSegment rank seg loader s.context = .ok (next, c', patched) ∧
      State.Good rank
        { context := c', loader := next
          sites := (if loader.nrOfInstructions = 0 then [] else s.sites) ++ seg.reported patched } := by
  rcases patchIram_started h seg hl hp with ⟨⟨_, hnone, _⟩, hpatch⟩ | ⟨hnot, nr, stats, hpatch, hstart, hsound⟩
  · -- the load ends, without arrays as it began
    refine ⟨none, s.context, seg.source, loadSegment_eq hpatch, ?_⟩
    exact
      { sound :=
          { absent := h.sound.absent
            threads := fun stats hstats => absurd (hnone.symm.trans hstats) (Option.some_ne_none stats).symm
            allocated := fun stats hstats => absurd (hnone.symm.trans hstats) (Option.some_ne_none stats).symm
            initialised := fun _ stats hstats => absurd (hnone.symm.trans hstats) (Option.some_ne_none stats).symm }
        started := fun _ hnext => by cases hnext }
  · have hcalls := (hfits loader hl hp).resolve_left hnot
    rw [← hstart] at hcalls
    obtain ⟨nr', stats', patched, hrun, hsound'⟩ := patchSegment_sound hsound rfl hcalls
    rw [hrun] at hpatch
    refine ⟨_, _, patched, loadSegment_eq hpatch, hsound'.withLoader _, ?_⟩
    intro _ _ _ _ hstats
    cases hstats

/-- A segment that leaves the arrays sound fits. -/
theorem segment_fits (h : s.Good rank) {seg : Segment} {loader : Loader} (hl : s.loader = some loader)
    {out : Option Loader × ProfilingContext × List (BitVec 64)} (hrun : loadSegment rank seg loader s.context = .ok out)
    {l' : Option Loader} {sites' : List (BitVec 16)}
    (hsound : State.Sound rank { context := out.2.1, loader := l', sites := sites' }) :
    Fits rank s (.segment seg) := by
  intro loader' hl' hp
  obtain rfl : loader = loader' := Option.some.inj (hl.symm.trans hl')
  rcases patchIram_started h seg hl hp with ⟨hfails, _⟩ | ⟨_, nr, stats, hpatch, hstart, hbefore⟩
  · exact Or.inl hfails
  right
  rw [← hstart]
  cases hsegment : patchSegment seg.memory seg.source seg.address
      { s.context with nrOfMcountStats := nr, mcountStats := some stats } with
  | error e =>
    rw [loadSegment, hpatch, hsegment] at hrun
    cases hrun
  | ok patch =>
    obtain ⟨status, c', patched⟩ := patch
    rw [hsegment] at hpatch
    rw [loadSegment_eq hpatch] at hrun
    obtain rfl := Except.ok.inj hrun
    exact patchSegment_fits hbefore rfl hp.2.1 hsegment hsound

theorem mcountAddress_resetStats {memory : Memory} {c c' : ProfilingContext} (h : resetStats rank memory c = some c') :
    c'.mcountAddress = c.mcountAddress := by
  rw [resetStats] at h
  split at h
  · rw [← Option.some.inj h]
  · split at h
    · rw [← Option.some.inj h]
    · cases h

/-- Whatever the allocations do, only calls to mcount and returns are rewritten. -/
theorem patchIram_rewrites {seg : Segment} {target : Target} {init : Bool} {c : ProfilingContext}
    {out : Status × ProfilingContext × List (BitVec 64)}
    (hrun : patchIram rank seg.memory target seg.source seg.address init c = .ok out) :
    RewritesOnly c seg.source out.2.2 := by
  by_cases hp : Patches rank target c
  · rw [patchIram_of_patches hp] at hrun
    split at hrun
    · cases hreset : resetStats rank seg.memory c with
      | none =>
        rw [hreset] at hrun
        obtain rfl := Except.ok.inj hrun
        exact rewritesOnly_refl c seg.source
      | some c' =>
        rw [hreset] at hrun
        have hrewrites := patchSegment_rewrites hrun
        rw [RewritesOnly, mcountAddress_resetStats hreset] at hrewrites
        exact hrewrites
    · exact patchSegment_rewrites hrun
  · obtain ⟨status, hpatch⟩ := patchIram_of_not hp init
    rw [hpatch] at hrun
    obtain rfl := Except.ok.inj hrun
    exact rewritesOnly_refl c seg.source

theorem copiesPatched (rank : Rank) (s : State) (op : Op) : CopiesPatched rank s op := by
  cases op with
  | load target info => trivial
  | poll profiledAddress stopped => trivial
  | segment seg =>
    intro loader _ out hrun
    cases hpatch : patchIram rank seg.memory loader.target seg.source seg.address (loader.nrOfInstructions = 0)
        s.context with
    | error e =>
      rw [loadSegment, hpatch] at hrun
      cases hrun
    | ok patch =>
      obtain ⟨status, c', patched⟩ := patch
      rw [loadSegment_eq hpatch] at hrun
      obtain rfl := Except.ok.inj hrun
      exact patchIram_rewrites hpatch

/-- A step whose segment fits keeps the invariant. -/
theorem step_good (h : s.Good rank) {op : Op} (hfits : Fits rank s op) :
    ∃ s', step rank s op = .ok s' ∧ s'.Good rank := by
  cases op with
  | load target info =>
    rw [step]
    split
    · refine ⟨_, rfl, ?_, ?_⟩
      · -- the addresses are filled in; arrays, count and mode stay
        exact
          { absent := h.sound.absent
            threads := h.sound.threads
            allocated := h.sound.allocated
            initialised := h.sound.initialised }
      · intro loader hloader hinit
        obtain rfl := Option.some.inj hloader
        exact absurd rfl hinit
    · refine ⟨_, rfl, h.sound.withLoader none, ?_⟩
      intro loader hloader
      cases hloader
  | poll profiledAddress stopped =>
    obtain ⟨c, hpoll, hsound, stats, rfl, hnone⟩ := pollRank_sound profiledAddress stopped h.sound
    refine ⟨{ s with context := { s.context with mcountStats := stats } }, by rw [step, hpoll]; rfl, hsound, ?_⟩
    intro loader hloader hinit hp hstats
    exact h.started loader hloader hinit hp (hnone hstats)
  | segment seg =>
    cases hl : s.loader with
    | none => exact ⟨s, by rw [step, hl], h⟩
    | some loader =>
      by_cases hp : Patches rank loader.target s.context
      · obtain ⟨next, c', patched, hload, hgood⟩ := segment_good h hl hp hfits
        refine ⟨_, ?_, hgood⟩
        rw [step, hl]
        dsimp only
        rw [hload]
        dsimp only [bind, Except.bind]
        rw [if_pos hp]
      · obtain ⟨status, hpatch⟩ : ∃ status, patchIram rank seg.memory loader.target seg.source seg.address
            (loader.nrOfInstructions = 0) s.context = .ok (status, s.context, seg.source) := patchIram_of_not hp _
        refine ⟨{ s with loader := nextLoader status seg loader }, ?_, h.sound.withLoader _, ?_⟩
        · rw [step, hl]
          dsimp only
          rw [loadSegment_eq hpatch]
          dsimp only [bind, Except.bind]
          rw [if_neg hp]
        · intro loader' hloader' _ hp'
          refine absurd ?_ hp
          rw [nextLoader] at hloader'
          split at hloader'
          · obtain rfl := Option.some.inj hloader'
            exact hp'
          · cases hloader'

/-- A step that ends in a sound state fits. -/
theorem step_fits {s' : State} (h : s.Good rank) {op : Op} (hstep : step rank s op = .ok s') (hsound : s'.Sound rank) :
    Fits rank s op := by
  cases op with
  | load target info => trivial
  | poll profiledAddress stopped => trivial
  | segment seg =>
    cases hl : s.loader with
    | none =>
      intro loader hloader
      rw [hl] at hloader
      cases hloader
    | some loader =>
      rw [step, hl] at hstep
      cases hload : loadSegment rank seg loader s.context with
      | error e =>
        dsimp only at hstep
        rw [hload] at hstep
        cases hstep
      | ok out =>
        dsimp only at hstep
        rw [hload] at hstep
        obtain rfl := Except.ok.inj hstep
        exact segment_fits h hl hload hsound

end Step

/-! ## Every run -/

theorem good_init (rank : Rank) (enableProfiling : ProfilingType) (dpu : Nat) (info : ProfilingInfo) :
    (State.init enableProfiling dpu info).Good rank where
  sound :=
    { absent := fun _ => rfl
      threads := fun _ hstats => by cases hstats
      allocated := fun _ hstats => by cases hstats
      initialised := fun _ _ hstats => by cases hstats }
  started := fun _ hloader => by cases hloader

theorem alwaysSound_of_good {rank : Rank} :
    ∀ (ops : List Op) {s : State}, s.Good rank → (AlwaysSound rank s ops ↔ AlwaysFits rank s ops)
  | [], _, h => ⟨fun _ => trivial, fun _ => h.sound⟩
  | op :: ops, s, h => by
    constructor
    · intro ⟨_, _, s', hstep, hrest⟩
      have hsound : s'.Sound rank := by
        cases ops with
        | nil => exact hrest
        | cons => exact hrest.1
      have hfits := step_fits h hstep hsound
      obtain ⟨t, ht, hgood⟩ := step_good h hfits
      rw [ht] at hstep
      obtain rfl := Except.ok.inj hstep
      refine ⟨hfits, ?_⟩
      intro s'' hstep''
      rw [ht] at hstep''
      obtain rfl := Except.ok.inj hstep''
      exact (alwaysSound_of_good ops hgood).mp hrest
    · intro ⟨hfits, hrest⟩
      obtain ⟨s', hstep, hgood⟩ := step_good h hfits
      exact ⟨h.sound, copiesPatched rank s op, s', hstep, (alwaysSound_of_good ops hgood).mpr (hrest s' hstep)⟩

/-- From a rank just allocated, in any profiling mode: a run is sound throughout
if and only if each segment that is patched in it fits. -/
theorem statsSound_iff (rank : Rank) (enableProfiling : ProfilingType) (dpu : Nat) (info : ProfilingInfo)
    (ops : List Op) :
    AlwaysSound rank (State.init enableProfiling dpu info) ops ↔
      AlwaysFits rank (State.init enableProfiling dpu info) ops :=
  alwaysSound_of_good ops (good_init rank enableProfiling dpu info)

/-- A rank of enabled DPUs. -/
def enabledRank : Rank := { nrOfThreads := 24, threads_pos := by decide, enabled := fun _ => true }

def someAddresses : ProfilingInfo := { mcountAddress := 16, retMcountAddress := 32, threadProfilingAddress := 256 }

/-- One call to mcount, without memory for its entry. -/
def oneCall : Segment where
  address := 0
  source := [insnCallMcount 16]
  size_lt := by decide
  memory := { calloc := true, realloc := fun _ => false }
  copied := true

/-- The load fails and leaves a count of 1 without arrays: the next poll that
finds an address dereferences NULL. -/
theorem oneCall_unsound :
    (∃ s s', step enabledRank (State.init .stats 0 someAddresses) (.load .rank someAddresses) = .ok s ∧
      step enabledRank s (.segment oneCall) = .ok s' ∧
      s'.context.mcountStats = none ∧ s'.context.nrOfMcountStats = 1 ∧
      step enabledRank s' (.poll (fun _ => 0xDEAD0001) false) = .error .outside) ∧
    ¬ AlwaysSound enabledRank (State.init .stats 0 someAddresses) [.load .rank someAddresses, .segment oneCall] := by
  have hrun : ∃ s s', step enabledRank (State.init .stats 0 someAddresses) (.load .rank someAddresses) = .ok s ∧
      step enabledRank s (.segment oneCall) = .ok s' ∧
      s'.context.mcountStats = none ∧ s'.context.nrOfMcountStats = 1 ∧
      step enabledRank s' (.poll (fun _ => 0xDEAD0001) false) = .error .outside :=
    ⟨_, _, rfl, rfl, rfl, rfl, rfl⟩
  refine ⟨hrun, ?_⟩
  obtain ⟨s, s', hload, hsegment, hnone, hcount, _⟩ := hrun
  intro ⟨_, _, t, ht, _, _, t', ht', hsound⟩
  obtain rfl := Except.ok.inj (hload.symm.trans ht)
  obtain rfl := Except.ok.inj (hsegment.symm.trans ht')
  rw [hsound.absent hnone] at hcount
  exact absurd hcount (by decide)

end DpuBackend.Api.ProfilingStats
