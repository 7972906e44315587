import Mathlib.Data.List.Nodup
import DpuBackend.Lib.System
import DpuBackend.Xeon.FlatTransfer

/-
  The thread pools of the Xeon SP backend (`xeon_sp_translation.c`,
  `hw_dpu_rank.c`).

  C ↔ Lean:
    xeon_sp_set_configuration           ↔ setConfiguration
    channel_id_to_pool_id               ↔ channelIdToPoolId
    xeon_sp_init_rank                   ↔ xeonSpInitRank
    xeon_sp_destroy_rank                ↔ xeonSpDestroyRank
    xeon_sp_init_and_do_xfer            ↔ nbThreadsForXfer, initAndDoXfer
    xeon_sp_write_to_rank, _read_from_  ↔ xeonSpXfer
    hw_allocate, hw_free                ↔ hwAllocate, hwFree
    hw_copy_to_rank, hw_copy_from_rank  ↔ hwCopy

  The calls come one after the other. Creating a thread or a barrier succeeds.
  The description of every rank takes its topology from the first rank that the
  driver lists, so that it is the same for all. An access outside an array and a
  wait at a barrier that never opens have no result.

  A rank of channel 32 to 254 is counted on pool 30 and transfers on a pool that
  does not exist; a rank of channel 31 is counted nowhere; in hybrid mode nothing
  is counted down. The threads of a pool are those of the first rank on it, the
  threads of a transfer those of its own rank. `transferPools_iff` has the rest.
-/

namespace DpuBackend.Xeon.TransferPools

open DpuBackend.Lib

def maxThreadPerPool : UInt32 := 8

def maxNbPool : Nat := 31

def maxNbChannel : Nat := maxNbPool

def dpuXferThreadConfDefault : UInt32 := 0xFFFFFFFF

/-! ## The configuration of a rank -/

structure DpuTransferThreadConfiguration where
  nbThreadPerPool : UInt32
  threshold1Thread : UInt32
  threshold2Threads : UInt32
  threshold4Threads : UInt32

def defaultXferThreadConfiguration : DpuTransferThreadConfiguration where
  nbThreadPerPool := 4
  threshold1Thread := 1024
  threshold2Threads := 2048
  threshold4Threads := 32 * 1024

def orDefault (value default : UInt32) : UInt32 := if value = dpuXferThreadConfDefault then default else value

def setConfiguration (conf : DpuTransferThreadConfiguration) : DpuTransferThreadConfiguration where
  nbThreadPerPool :=
    if conf.nbThreadPerPool = dpuXferThreadConfDefault then defaultXferThreadConfiguration.nbThreadPerPool
    else if maxThreadPerPool < conf.nbThreadPerPool then maxThreadPerPool
    else conf.nbThreadPerPool
  threshold1Thread := orDefault conf.threshold1Thread defaultXferThreadConfiguration.threshold1Thread
  threshold2Threads := orDefault conf.threshold2Threads defaultXferThreadConfiguration.threshold2Threads
  threshold4Threads := orDefault conf.threshold4Threads defaultXferThreadConfiguration.threshold4Threads

/-! ## The pools -/

/-- What all ranks share. -/
structure Board where
  nbCis : Nat
  nbDpusPerCi : Nat
  pos : 0 < nbDpusPerCi
  /-- The address of the static padding block `zeros`. -/
  zeros : Nat

/-- A pool between two transfers. -/
structure Pool where
  nbDpusPerCi : Nat
  nbThreads : Nat
  /-- How many wait before the barrier opens. -/
  barrierThreads : Nat
  /-- The threads that have not been joined. -/
  live : Nat

structure XeonSpCtx where
  pool : Nat → Pool
  nbRegionPerChannel : Nat → UInt32

/-- The access to an entry of an array. -/
def entry (i size : Nat) : Option Nat := if i < size then some i else none

def channelIdToPoolId (channelId : Nat) : Nat := if channelId = 0xFF then maxNbChannel - 1 else channelId

/-- The channel that `xeon_sp_init_rank` and `xeon_sp_destroy_rank` count on. -/
def countedChannel (channelId : UInt8) : Nat :=
  if maxNbChannel < channelId.toNat then maxNbChannel - 1 else channelId.toNat

def XeonSpCtx.count (ctx : XeonSpCtx) (channel : Nat) (n : UInt32) : XeonSpCtx :=
  { ctx with nbRegionPerChannel := Function.update ctx.nbRegionPerChannel channel n }

def XeonSpCtx.setPool (ctx : XeonSpCtx) (poolId : Nat) (pool : Pool) : XeonSpCtx :=
  { ctx with pool := Function.update ctx.pool poolId pool }

def xeonSpInitRank (b : Board) (conf : DpuTransferThreadConfiguration) (channelId : UInt8) (ctx : XeonSpCtx) :
    Option XeonSpCtx := do
  let nbThreadPerPool := (setConfiguration conf).nbThreadPerPool
  let channel ← entry (countedChannel channelId) maxNbChannel
  let ctx' := ctx.count channel (ctx.nbRegionPerChannel channel + 1)
  if 0 < ctx.nbRegionPerChannel channel then some ctx'
  else
    let poolId ← entry (channelIdToPoolId channel) maxNbPool
    some (ctx'.setPool poolId
      { nbDpusPerCi := b.nbDpusPerCi
        nbThreads := nbThreadPerPool.toNat
        barrierThreads := nbThreadPerPool.toNat + 1
        live := nbThreadPerPool.toNat })

/-- The caller passes the barrier with the threads of the pool. -/
def Pool.opens (pool : Pool) : Bool := pool.live + 1 = pool.barrierThreads

def xeonSpDestroyRank (channelId : UInt8) (ctx : XeonSpCtx) : Option XeonSpCtx := do
  let channel ← entry (countedChannel channelId) maxNbChannel
  let ctx' := ctx.count channel (ctx.nbRegionPerChannel channel - 1)
  if ctx.nbRegionPerChannel channel - 1 ≠ 0 then some ctx'
  else
    let poolId ← entry (channelIdToPoolId channel) maxNbPool
    if (ctx.pool poolId).opens then some (ctx'.setPool poolId { ctx.pool poolId with live := 0 }) else none

/-! ## A transfer -/

inductive Mode where
  | perf
  | hybrid
  deriving DecidableEq

structure Rank where
  mode : Mode
  channelId : UInt8
  conf : DpuTransferThreadConfiguration

/-- `ptr_region`. -/
inductive Region where
  | mapped
  /-- Never assigned. -/
  | indeterminate

def Rank.region (r : Rank) : Region :=
  match r.mode with
  | .perf => .mapped
  | .hybrid => .indeterminate

def nbThreadsForXfer (conf : DpuTransferThreadConfiguration) (sizeTransfer : Nat) : Nat :=
  if sizeTransfer < conf.threshold1Thread.toNat then 1
  else if sizeTransfer < conf.threshold2Threads.toNat ∧ 2 ≤ conf.nbThreadPerPool.toNat then 2
  else if sizeTransfer < conf.threshold4Threads.toNat ∧ 4 ≤ conf.nbThreadPerPool.toNat then 4
  else conf.nbThreadPerPool.toNat

structure Xfer where
  rank : Rank
  region : Region
  poolId : Nat
  /-- The threads that pass the barrier. -/
  live : Nat
  xeonSpPrivate : XeonSpPrivate

/-- The lines that the threads go through. -/
def Xfer.lines (x : Xfer) : List Nat :=
  (List.range x.live).flatMap fun threadId =>
    if threadId < x.xeonSpPrivate.nbThreadsForXfer then threadLines x.xeonSpPrivate threadId else []

def initAndDoXfer (b : Board) (r : Rank) (direction : ThreadMramXfer) (xferMatrix : DpuTransferMatrix) (ctx : XeonSpCtx)
    (poolId : Nat) : Xfer where
  rank := r
  region := r.region
  poolId := poolId
  live := (ctx.pool poolId).live
  xeonSpPrivate :=
    { xferMatrix := xferMatrix
      direction := direction
      nbCis := b.nbCis
      nbDpusPerCi := (ctx.pool poolId).nbDpusPerCi
      nbThreadsForXfer := nbThreadsForXfer r.conf xferMatrix.size
      nbThreads := (ctx.pool poolId).nbThreads
      zeros := b.zeros }

def xeonSpXfer (b : Board) (r : Rank) (direction : ThreadMramXfer) (xferMatrix : DpuTransferMatrix)
    (ctx : XeonSpCtx) : Option Xfer := do
  let _ ← entry (if r.channelId.toNat < maxNbChannel then r.channelId.toNat else maxNbChannel - 1) maxNbChannel
  let poolId ← entry (channelIdToPoolId r.channelId.toNat) maxNbPool
  if (ctx.pool poolId).opens then some (initAndDoXfer b r direction xferMatrix ctx poolId) else none

/-! ## The calls -/

structure State where
  ctx : XeonSpCtx
  /-- The ranks that have been allocated and not freed. -/
  ranks : List Rank

/-- How `hw_allocate` ends: something fails before `init_rank`, or behind it, or nothing. -/
inductive AllocateEnd where
  | before
  | behind
  | ok

/-- A call; a rank is named by its place among the live ones. -/
inductive Call where
  | allocate (mode : Mode) (channelId : UInt8) (conf : DpuTransferThreadConfiguration) (e : AllocateEnd)
  | free (i : Nat)
  | copy (i : Nat) (direction : ThreadMramXfer) (xferMatrix : DpuTransferMatrix)

def hwAllocate (b : Board) (mode : Mode) (channelId : UInt8) (conf : DpuTransferThreadConfiguration) (s : State) :
    AllocateEnd → Option State
  | .before => some s
  | .behind => do
    let ctx ← xeonSpInitRank b conf channelId s.ctx
    let ctx ← xeonSpDestroyRank channelId ctx
    some { s with ctx := ctx }
  | .ok => do
    let ctx ← xeonSpInitRank b conf channelId s.ctx
    some { ctx := ctx, ranks := s.ranks ++ [⟨mode, channelId, setConfiguration conf⟩] }

/-- In hybrid mode the memory of the control interfaces is freed, no more. -/
def hwFree (i : Nat) (s : State) : Option State :=
  match s.ranks[i]? with
  | none => some s
  | some r =>
    match r.mode with
    | .perf => do
      let ctx ← xeonSpDestroyRank r.channelId s.ctx
      some { ctx := ctx, ranks := s.ranks.eraseIdx i }
    | .hybrid => some { s with ranks := s.ranks.eraseIdx i }

def isSg (xferMatrix : DpuTransferMatrix) : Bool :=
  match xferMatrix.buffers with
  | .ptr _ => false
  | .sgPtr _ => true

/-- `is_transfer_matrix_supported_by_region_mode`. -/
def isSupported (mode : Mode) (xferMatrix : DpuTransferMatrix) : Bool :=
  match mode with
  | .perf => true
  | .hybrid => !isSg xferMatrix

def hwCopy (b : Board) (i : Nat) (direction : ThreadMramXfer) (xferMatrix : DpuTransferMatrix) (s : State) :
    Option (Option Xfer) :=
  match s.ranks[i]? with
  | none => some none
  | some r =>
    if isSupported r.mode xferMatrix then (xeonSpXfer b r direction xferMatrix s.ctx).map some else some none

/-- The state behind a call, and the transfer that it did. -/
def step (b : Board) (s : State) : Call → Option (State × Option Xfer)
  | .allocate mode channelId conf e => (hwAllocate b mode channelId conf s e).map fun s' => (s', none)
  | .free i => (hwFree i s).map fun s' => (s', none)
  | .copy i direction xferMatrix => (hwCopy b i direction xferMatrix s).map fun x => (s, x)

def start : State where
  ctx :=
    { pool := fun _ => ⟨0, 0, 0, 0⟩
      nbRegionPerChannel := fun _ => 0 }
  ranks := []

def machine (b : Board) : System State Call :=
  System.ofStep (· = start) fun s call => (step b s call).map Prod.fst

/-! ## What should hold -/

/-- The pool that a rank is initialised on. -/
def Rank.pool (r : Rank) : Nat := channelIdToPoolId (countedChannel r.channelId)

/-- The live ranks on a pool. -/
def ranksOn (ranks : List Rank) (p : Nat) : Nat := ranks.countP fun r => r.pool = p

def Counted (s : State) : Prop := ∀ p < maxNbPool, (s.ctx.nbRegionPerChannel p).toNat = ranksOn s.ranks p

structure Xfer.Good (b : Board) (x : Xfer) : Prop where
  pool : x.poolId = x.rank.pool
  threads : 0 < x.live
  region : x.region = .mapped
  lines : ∀ line < b.nbDpusPerCi, x.lines.count line = 1

/-- The call has a result, its transfer is as it should be and the ranks are counted. -/
def StepGood (b : Board) (s : State) (call : Call) : Prop :=
  ∃ s' x, step b s call = some (s', x) ∧ Counted s' ∧ ∀ xfer, x = some xfer → xfer.Good b

/-- The threads of a pool can do the transfer of a rank. -/
def Served (conf : DpuTransferThreadConfiguration) (sizeTransfer nbThreads : Nat) : Prop :=
  if sizeTransfer < conf.threshold1Thread.toNat then 1 ≤ nbThreads
  else if sizeTransfer < conf.threshold2Threads.toNat ∧ 2 ≤ conf.nbThreadPerPool.toNat then 2 ≤ nbThreads
  else if sizeTransfer < conf.threshold4Threads.toNat ∧ 4 ≤ conf.nbThreadPerPool.toNat then 4 ≤ nbThreads
  else 1 ≤ conf.nbThreadPerPool.toNat ∧ conf.nbThreadPerPool.toNat ≤ nbThreads

/-- The calls that do what they should. -/
def Meets (s : State) : Call → Prop
  | .allocate _ _ _ .before => True
  | .allocate _ channelId _ .behind => channelId ≠ 31
  | .allocate mode channelId conf .ok =>
    channelId ≠ 31 ∧ ranksOn s.ranks (Rank.pool ⟨mode, channelId, conf⟩) + 1 < 2 ^ 32
  | .free i => ∀ r, s.ranks[i]? = some r → r.mode = .perf
  | .copy i _ xferMatrix => ∀ r, s.ranks[i]? = some r →
    (r.mode = .hybrid ∧ isSg xferMatrix = true) ∨
      (r.mode = .perf ∧ (r.channelId < 31 ∨ r.channelId = 255) ∧
        Served r.conf xferMatrix.size (s.ctx.pool r.pool).nbThreads)

/-! ## Lines and threads -/

theorem count_flatMap_of_one {ι : Type} {l : List ι} {f : ι → List Nat} {i : ι} {a : Nat} (hl : l.Nodup)
    (hi : i ∈ l) (hone : (f i).count a = 1) (hother : ∀ j ∈ l, j ≠ i → a ∉ f j) : (l.flatMap f).count a = 1 := by
  induction l with
  | nil => cases hi
  | cons j l ih =>
    obtain ⟨hj, hl⟩ := List.nodup_cons.1 hl
    rw [List.flatMap_cons, List.count_append]
    rcases List.mem_cons.1 hi with rfl | hmem
    · have hrest : a ∉ l.flatMap f := by
        intro ha
        obtain ⟨k, hk, hin⟩ := List.mem_flatMap.1 ha
        have hne : k ≠ i := fun h => hj (h ▸ hk)
        exact hother k (List.mem_cons_of_mem _ hk) hne hin
      rw [hone, List.count_eq_zero_of_not_mem hrest]
    · have hne : j ≠ i := fun h => hj (h ▸ hmem)
      rw [List.count_eq_zero_of_not_mem (hother j (List.mem_cons_self ..) hne), Nat.zero_add]
      exact ih hl hmem fun k hk => hother k (List.mem_cons_of_mem _ hk)

variable {b : Board} {x : Xfer}

theorem mem_lines {d : Nat} : d ∈ x.lines ↔ ∃ t < x.live, t < x.xeonSpPrivate.nbThreadsForXfer ∧
    d ∈ threadLines x.xeonSpPrivate t := by
  unfold Xfer.lines
  rw [List.mem_flatMap]
  constructor
  · intro ⟨t, ht, hd⟩
    split at hd
    · next hlt => exact ⟨t, List.mem_range.1 ht, hlt, hd⟩
    · cases hd
  · intro ⟨t, ht, hlt, hd⟩
    refine ⟨t, List.mem_range.2 ht, ?_⟩
    rw [if_pos hlt]
    exact hd

/-- The last line belongs to the last thread. -/
theorem last_line {p : XeonSpPrivate} (hpos : 0 < p.nbDpusPerCi) {t : Nat} (ht : t < p.nbThreadsForXfer)
    (hd : p.nbDpusPerCi - 1 ∈ threadLines p t) : t = p.nbThreadsForXfer - 1 := by
  obtain ⟨_, hstop⟩ := mem_threadLines.1 hd
  by_contra hlast
  unfold threadRange at hstop
  dsimp only at hstop
  rw [if_neg hlast] at hstop
  have hmul : (t + 1) * (p.nbDpusPerCi / p.nbThreadsForXfer) + p.nbDpusPerCi / p.nbThreadsForXfer ≤ p.nbDpusPerCi :=
    calc (t + 1) * (p.nbDpusPerCi / p.nbThreadsForXfer) + p.nbDpusPerCi / p.nbThreadsForXfer
        = (t + 2) * (p.nbDpusPerCi / p.nbThreadsForXfer) := by rw [Nat.succ_mul (t + 1)]
      _ ≤ p.nbThreadsForXfer * (p.nbDpusPerCi / p.nbThreadsForXfer) := Nat.mul_le_mul_right _ (by omega)
      _ ≤ p.nbDpusPerCi := Nat.mul_div_le _ _
  obtain hzero | hper := Nat.eq_zero_or_pos (p.nbDpusPerCi / p.nbThreadsForXfer)
  · rw [hzero] at hstop
    omega
  · omega

/-- All lines are done once exactly if the threads of the transfer are some, and there. -/
theorem lines_iff (hpos : 0 < x.xeonSpPrivate.nbDpusPerCi) :
    (∀ line < x.xeonSpPrivate.nbDpusPerCi, x.lines.count line = 1) ↔
      1 ≤ x.xeonSpPrivate.nbThreadsForXfer ∧ x.xeonSpPrivate.nbThreadsForXfer ≤ x.live := by
  constructor
  · intro hlines
    have hmem : x.xeonSpPrivate.nbDpusPerCi - 1 ∈ x.lines := by
      rw [← List.count_pos_iff, hlines _ (by omega)]
      exact Nat.one_pos
    obtain ⟨t, hlive, ht, hd⟩ := mem_lines.1 hmem
    have hlast := last_line hpos ht hd
    omega
  · intro ⟨hone, hlive⟩ line hline
    obtain ⟨t, ⟨ht, hrange⟩, hunique⟩ := threadRange_partition hone hline
    apply count_flatMap_of_one List.nodup_range (List.mem_range.2 (Nat.lt_of_lt_of_le ht hlive))
    · rw [if_pos ht]
      exact List.count_eq_one_of_mem List.nodup_range' (mem_threadLines.2 hrange)
    · intro t' _ hne
      split
      · next ht' => exact fun hd => hne (hunique t' ⟨ht', mem_threadLines.1 hd⟩)
      · exact List.not_mem_nil

theorem served_iff (conf : DpuTransferThreadConfiguration) (sizeTransfer nbThreads : Nat) :
    Served conf sizeTransfer nbThreads ↔
      1 ≤ nbThreadsForXfer conf sizeTransfer ∧ nbThreadsForXfer conf sizeTransfer ≤ nbThreads := by
  unfold Served nbThreadsForXfer
  split
  · omega
  · split
    · omega
    · split
      · omega
      · exact Iff.rfl

/-! ## Channels -/

theorem entry_lt {i size : Nat} (h : i < size) : entry i size = some i := if_pos h

theorem entry_ge {i size : Nat} (h : size ≤ i) : entry i size = none := if_neg (Nat.not_lt.2 h)

theorem countedChannel_lt {channelId : UInt8} (h : channelId ≠ 31) : countedChannel channelId < maxNbChannel := by
  have hne : channelId.toNat ≠ 31 := fun heq => h (UInt8.toNat_inj.1 heq)
  unfold countedChannel maxNbChannel maxNbPool
  split <;> omega

theorem countedChannel_31 : countedChannel 31 = maxNbChannel := rfl

theorem channelIdToPoolId_lt {channel : Nat} (h : channel < maxNbChannel) : channelIdToPoolId channel = channel := by
  unfold channelIdToPoolId
  unfold maxNbChannel maxNbPool at h
  exact if_neg (by omega)

theorem Rank.pool_eq {r : Rank} (h : r.channelId ≠ 31) : r.pool = countedChannel r.channelId :=
  channelIdToPoolId_lt (countedChannel_lt h)

/-- The pool of a transfer is the one that its rank is initialised on for channels up to 30 and the unknown one, and
there is none for the others. -/
theorem xferPool_cases (r : Rank) :
    ((r.channelId < 31 ∨ r.channelId = 255) ∧ channelIdToPoolId r.channelId.toNat = r.pool ∧ r.pool < maxNbPool) ∨
      (¬ (r.channelId < 31 ∨ r.channelId = 255) ∧ maxNbPool ≤ channelIdToPoolId r.channelId.toNat) := by
  unfold Rank.pool countedChannel channelIdToPoolId maxNbChannel maxNbPool
  rw [UInt8.lt_iff_toNat_lt, ← UInt8.toNat_inj]
  have h31 : (31 : UInt8).toNat = 31 := rfl
  have h255 : (255 : UInt8).toNat = 255 := rfl
  rw [h31, h255]
  have := r.channelId.toNat_lt
  split_ifs <;> omega

/-! ## The ranks on a pool -/

theorem ranksOn_append (ranks : List Rank) (r : Rank) (p : Nat) :
    ranksOn (ranks ++ [r]) p = ranksOn ranks p + if r.pool = p then 1 else 0 := by
  unfold ranksOn
  rw [List.countP_append, List.countP_singleton]
  simp only [decide_eq_true_eq]

theorem ranksOn_eraseIdx {ranks : List Rank} {i : Nat} {r : Rank} (h : ranks[i]? = some r) (p : Nat) :
    ranksOn (ranks.eraseIdx i) p + (if r.pool = p then 1 else 0) = ranksOn ranks p := by
  induction ranks generalizing i with
  | nil => cases h
  | cons r' ranks ih =>
    unfold ranksOn at ih ⊢
    cases i with
    | zero =>
      obtain rfl : r' = r := by simpa using h
      rw [List.eraseIdx_cons_zero, List.countP_cons]
      simp only [decide_eq_true_eq]
    | succ i =>
      have hrest := ih (i := i) (by simpa using h)
      rw [List.eraseIdx_cons_succ, List.countP_cons, List.countP_cons]
      omega

theorem ranksOn_pos {ranks : List Rank} {i : Nat} {r : Rank} (h : ranks[i]? = some r) : 0 < ranksOn ranks r.pool := by
  have herase := ranksOn_eraseIdx h r.pool
  rw [if_pos rfl] at herase
  omega

/-! ## What holds while the calls meet the condition -/

/-- The threads of the pool wait at its barrier. -/
structure Pool.Ready (b : Board) (pool : Pool) : Prop where
  live : pool.live = pool.nbThreads
  opens : pool.opens = true
  lines : pool.nbDpusPerCi = b.nbDpusPerCi

structure Inv (b : Board) (s : State) : Prop where
  counted : Counted s
  ready : ∀ p < maxNbPool, 0 < ranksOn s.ranks p → (s.ctx.pool p).Ready b
  channels : ∀ r ∈ s.ranks, r.channelId ≠ 31

theorem start_inv (b : Board) : Inv b start := ⟨fun _ _ => rfl, fun _ _ h => absurd h (Nat.lt_irrefl 0), nofun⟩

/-- The pools behind `xeon_sp_init_rank`. -/
theorem xeonSpInitRank_spec (conf : DpuTransferThreadConfiguration) {channelId : UInt8} (h : channelId ≠ 31)
    (ctx : XeonSpCtx) :
    ∃ ctx', xeonSpInitRank b conf channelId ctx = some ctx' ∧
      ctx'.nbRegionPerChannel = Function.update ctx.nbRegionPerChannel (countedChannel channelId)
        (ctx.nbRegionPerChannel (countedChannel channelId) + 1) ∧
      (∀ p ≠ countedChannel channelId, ctx'.pool p = ctx.pool p) ∧
      (0 < ctx.nbRegionPerChannel (countedChannel channelId) →
        ctx'.pool (countedChannel channelId) = ctx.pool (countedChannel channelId)) ∧
      (¬ 0 < ctx.nbRegionPerChannel (countedChannel channelId) → (ctx'.pool (countedChannel channelId)).Ready b) := by
  have hchannel := countedChannel_lt h
  have hpool : countedChannel channelId < maxNbPool := hchannel
  unfold xeonSpInitRank
  rw [entry_lt hchannel, Option.bind_eq_bind, Option.bind_some]
  by_cases hcount : 0 < ctx.nbRegionPerChannel (countedChannel channelId)
  · dsimp only
    rw [if_pos hcount]
    exact ⟨_, rfl, rfl, fun _ _ => rfl, fun _ => rfl, fun hnot => absurd hcount hnot⟩
  · dsimp only
    rw [if_neg hcount, channelIdToPoolId_lt hchannel, entry_lt hpool, Option.bind_some]
    refine ⟨_, rfl, rfl, fun p hp => Function.update_of_ne hp .., fun hpos => absurd hpos hcount, fun _ => ?_⟩
    unfold XeonSpCtx.setPool
    dsimp only
    rw [Function.update_self]
    exact ⟨rfl, decide_eq_true rfl, rfl⟩

/-- The pools behind `xeon_sp_destroy_rank`. -/
theorem xeonSpDestroyRank_spec {channelId : UInt8} (h : channelId ≠ 31) {ctx : XeonSpCtx}
    (hready : (ctx.pool (countedChannel channelId)).Ready b) :
    ∃ ctx', xeonSpDestroyRank channelId ctx = some ctx' ∧
      ctx'.nbRegionPerChannel = Function.update ctx.nbRegionPerChannel (countedChannel channelId)
        (ctx.nbRegionPerChannel (countedChannel channelId) - 1) ∧
      (∀ p ≠ countedChannel channelId, ctx'.pool p = ctx.pool p) ∧
      (ctx.nbRegionPerChannel (countedChannel channelId) - 1 ≠ 0 →
        ctx'.pool (countedChannel channelId) = ctx.pool (countedChannel channelId)) := by
  have hchannel := countedChannel_lt h
  have hpool : countedChannel channelId < maxNbPool := hchannel
  unfold xeonSpDestroyRank
  rw [entry_lt hchannel, Option.bind_eq_bind, Option.bind_some]
  by_cases hcount : ctx.nbRegionPerChannel (countedChannel channelId) - 1 ≠ 0
  · dsimp only
    rw [if_pos hcount]
    exact ⟨_, rfl, rfl, fun _ _ => rfl, fun _ => rfl⟩
  · dsimp only
    rw [if_neg hcount, channelIdToPoolId_lt hchannel, entry_lt hpool, Option.bind_some, if_pos hready.opens]
    exact ⟨_, rfl, rfl, fun p hp => Function.update_of_ne hp .., fun hne => absurd hne hcount⟩

theorem xeonSpInitRank_31 (conf : DpuTransferThreadConfiguration) (ctx : XeonSpCtx) :
    xeonSpInitRank b conf 31 ctx = none := by
  unfold xeonSpInitRank
  rw [countedChannel_31, entry_ge (Nat.le_refl _)]
  rfl

/-! ## The calls -/

variable {s : State} {mode : Mode} {channelId : UInt8} {conf : DpuTransferThreadConfiguration}

theorem Inv.count_pos (h : Inv b s) {p : Nat} (hp : p < maxNbPool) :
    0 < s.ctx.nbRegionPerChannel p ↔ 0 < ranksOn s.ranks p := by
  rw [← h.counted p hp]
  exact UInt32.lt_iff_toNat_lt

/-- A pool is ready behind `xeon_sp_init_rank`, and the others are as before. -/
theorem Inv.init (h : Inv b s) (conf : DpuTransferThreadConfiguration) (hchannel : channelId ≠ 31) :
    ∃ ctx, xeonSpInitRank b conf channelId s.ctx = some ctx ∧
      ctx.nbRegionPerChannel = Function.update s.ctx.nbRegionPerChannel (countedChannel channelId)
        (s.ctx.nbRegionPerChannel (countedChannel channelId) + 1) ∧
      (∀ p ≠ countedChannel channelId, ctx.pool p = s.ctx.pool p) ∧
      (ctx.pool (countedChannel channelId)).Ready b := by
  obtain ⟨ctx, hinit, hcount, hother, hkept, hnew⟩ := @xeonSpInitRank_spec b conf channelId hchannel s.ctx
  refine ⟨ctx, hinit, hcount, hother, ?_⟩
  by_cases hpos : 0 < s.ctx.nbRegionPerChannel (countedChannel channelId)
  · rw [hkept hpos]
    exact h.ready _ (countedChannel_lt hchannel) ((h.count_pos (countedChannel_lt hchannel)).1 hpos)
  · exact hnew hpos

theorem hwAllocate_behind (h : Inv b s) (hchannel : channelId ≠ 31) :
    ∃ s', hwAllocate b mode channelId conf s .behind = some s' ∧ Inv b s' := by
  obtain ⟨ctx, hinit, hcount, hother, hready⟩ := h.init conf hchannel
  obtain ⟨ctx', hdestroy, hcount', hother', hkept⟩ := xeonSpDestroyRank_spec hchannel hready
  have hsame : ctx'.nbRegionPerChannel = s.ctx.nbRegionPerChannel := by
    have hback : s.ctx.nbRegionPerChannel (countedChannel channelId) + 1 - 1 =
        s.ctx.nbRegionPerChannel (countedChannel channelId) := UInt32.add_sub_cancel ..
    rw [hcount', hcount, Function.update_self, Function.update_idem, hback, Function.update_eq_self]
  refine ⟨{ s with ctx := ctx' }, ?_, fun p hp => ?_, fun p hp hpos => ?_, h.channels⟩
  · unfold hwAllocate
    dsimp only
    rw [hinit, Option.bind_eq_bind, Option.bind_some, hdestroy]
    rfl
  · rw [hsame]
    exact h.counted p hp
  · by_cases hpool : p = countedChannel channelId
    · subst hpool
      have hne : ctx.nbRegionPerChannel (countedChannel channelId) - 1 ≠ 0 := by
        rw [hcount, Function.update_self, UInt32.add_sub_cancel]
        exact UInt32.pos_iff_ne_zero.1 ((h.count_pos hp).2 hpos)
      rw [hkept hne]
      exact hready
    · rw [hother' p hpool, hother p hpool]
      exact h.ready p hp hpos

theorem hwAllocate_ok (h : Inv b s) (hchannel : channelId ≠ 31) :
    ∃ s', hwAllocate b mode channelId conf s .ok = some s' ∧
      s'.ranks = s.ranks ++ [⟨mode, channelId, setConfiguration conf⟩] ∧
      s'.ctx.nbRegionPerChannel = Function.update s.ctx.nbRegionPerChannel (countedChannel channelId)
        (s.ctx.nbRegionPerChannel (countedChannel channelId) + 1) ∧
      ∀ p < maxNbPool, 0 < ranksOn s'.ranks p → (s'.ctx.pool p).Ready b := by
  obtain ⟨ctx, hinit, hcount, hother, hready⟩ := h.init conf hchannel
  refine ⟨⟨ctx, s.ranks ++ [⟨mode, channelId, setConfiguration conf⟩]⟩, ?_, rfl, hcount, fun p hp hpos => ?_⟩
  · unfold hwAllocate
    dsimp only
    rw [hinit]
    rfl
  · by_cases hpool : p = countedChannel channelId
    · rw [hpool]
      exact hready
    · have hnot : (⟨mode, channelId, setConfiguration conf⟩ : Rank).pool ≠ p := by
        rw [Rank.pool_eq hchannel]
        exact Ne.symm hpool
      rw [ranksOn_append, if_neg hnot] at hpos
      dsimp only
      rw [hother p hpool]
      exact h.ready p hp hpos

/-- The new rank is counted unless the counter wraps. -/
theorem counted_append_iff (h : Inv b s) (hchannel : channelId ≠ 31) {s' : State}
    (hranks : s'.ranks = s.ranks ++ [⟨mode, channelId, setConfiguration conf⟩])
    (hcount : s'.ctx.nbRegionPerChannel = Function.update s.ctx.nbRegionPerChannel (countedChannel channelId)
      (s.ctx.nbRegionPerChannel (countedChannel channelId) + 1)) :
    Counted s' ↔ ranksOn s.ranks (Rank.pool ⟨mode, channelId, conf⟩) + 1 < 2 ^ 32 := by
  have hpool : (⟨mode, channelId, conf⟩ : Rank).pool = countedChannel channelId := Rank.pool_eq hchannel
  have hpool' : (⟨mode, channelId, setConfiguration conf⟩ : Rank).pool = countedChannel channelId := Rank.pool_eq hchannel
  have hlt : countedChannel channelId < maxNbPool := countedChannel_lt hchannel
  have hnow := h.counted _ hlt
  have htoNat : (s.ctx.nbRegionPerChannel (countedChannel channelId) + 1).toNat =
      (ranksOn s.ranks (countedChannel channelId) + 1) % 2 ^ 32 := by
    rw [UInt32.toNat_add, hnow]
    rfl
  unfold Counted
  rw [hpool, hranks, hcount]
  constructor
  · intro hcounted
    have hthis := hcounted _ hlt
    rw [Function.update_self, ranksOn_append, hpool', if_pos rfl, htoNat] at hthis
    have := Nat.mod_lt (ranksOn s.ranks (countedChannel channelId) + 1) (Nat.two_pow_pos 32)
    omega
  · intro hbound p hp
    rw [ranksOn_append, hpool']
    by_cases hp' : countedChannel channelId = p
    · subst hp'
      rw [Function.update_self, if_pos rfl, htoNat, Nat.mod_eq_of_lt hbound]
    · rw [Function.update_of_ne (Ne.symm hp'), if_neg hp', h.counted p hp, Nat.add_zero]

theorem hwFree_perf (h : Inv b s) {i : Nat} {r : Rank} (hr : s.ranks[i]? = some r) (hmode : r.mode = .perf) :
    ∃ s', hwFree i s = some s' ∧ Inv b s' := by
  have hchannel : r.channelId ≠ 31 := h.channels r (List.mem_of_getElem? hr)
  have hlt : countedChannel r.channelId < maxNbPool := countedChannel_lt hchannel
  have hpos : 0 < ranksOn s.ranks (countedChannel r.channelId) := by
    rw [← Rank.pool_eq hchannel]
    exact ranksOn_pos hr
  obtain ⟨ctx, hdestroy, hcount, hother, hkept⟩ := xeonSpDestroyRank_spec hchannel (h.ready _ hlt hpos)
  have hcounted : ∀ p < maxNbPool, (ctx.nbRegionPerChannel p).toNat = ranksOn (s.ranks.eraseIdx i) p := by
    intro p hp
    have herase := ranksOn_eraseIdx hr p
    rw [Rank.pool_eq hchannel] at herase
    have hnow := h.counted p hp
    rw [hcount]
    by_cases hpool : countedChannel r.channelId = p
    · subst hpool
      rw [if_pos rfl] at herase
      have hone : (1 : UInt32) ≤ s.ctx.nbRegionPerChannel (countedChannel r.channelId) := by
        rw [UInt32.le_iff_toNat_le, hnow]
        exact hpos
      rw [Function.update_self, UInt32.toNat_sub_of_le _ _ hone, hnow]
      have : (1 : UInt32).toNat = 1 := rfl
      omega
    · rw [if_neg hpool] at herase
      rw [Function.update_of_ne (Ne.symm hpool), hnow]
      omega
  refine ⟨⟨ctx, s.ranks.eraseIdx i⟩, ?_, hcounted, fun p hp hleft => ?_, fun r' hr' => ?_⟩
  · unfold hwFree
    rw [hr]
    dsimp only
    rw [hmode]
    dsimp only
    rw [hdestroy]
    rfl
  · by_cases hpool : p = countedChannel r.channelId
    · subst hpool
      have hne : s.ctx.nbRegionPerChannel (countedChannel r.channelId) - 1 ≠ 0 := by
        intro hzero
        have hthis := hcounted _ hp
        rw [hcount, Function.update_self, hzero] at hthis
        dsimp only at hleft
        rw [← hthis] at hleft
        exact Nat.lt_irrefl 0 hleft
      dsimp only
      rw [hkept hne]
      exact h.ready _ hp hpos
    · dsimp only
      rw [hother p hpool]
      apply h.ready p hp
      have herase := ranksOn_eraseIdx hr p
      dsimp only at hleft
      omega
  · exact h.channels r' (List.mem_of_mem_eraseIdx hr')

/-- What a hybrid rank was counted for stays. -/
theorem hwFree_hybrid (h : Inv b s) {i : Nat} {r : Rank} (hr : s.ranks[i]? = some r) (hmode : r.mode = .hybrid) :
    ∃ s', hwFree i s = some s' ∧ ¬ Counted s' := by
  have hlt : r.pool < maxNbPool := by
    rw [Rank.pool_eq (h.channels r (List.mem_of_getElem? hr))]
    exact countedChannel_lt (h.channels r (List.mem_of_getElem? hr))
  refine ⟨{ s with ranks := s.ranks.eraseIdx i }, ?_, fun hcounted => ?_⟩
  · unfold hwFree
    rw [hr]
    dsimp only
    rw [hmode]
  · have herase := ranksOn_eraseIdx hr r.pool
    rw [if_pos rfl] at herase
    have hthis := hcounted _ hlt
    rw [h.counted _ hlt] at hthis
    dsimp only at hthis
    omega

/-! ## Transfers -/

variable {direction : ThreadMramXfer} {xferMatrix : DpuTransferMatrix}

/-- The transfer of a rank whose channel leads back to its pool. -/
theorem xeonSpXfer_good_iff {r : Rank} {ctx : XeonSpCtx} (hready : (ctx.pool r.pool).Ready b) :
    (∃ x, xeonSpXfer b r direction xferMatrix ctx = some x ∧ x.Good b) ↔
      r.mode = .perf ∧ (r.channelId < 31 ∨ r.channelId = 255) ∧
        Served r.conf xferMatrix.size (ctx.pool r.pool).nbThreads := by
  have hmutex : (if r.channelId.toNat < maxNbChannel then r.channelId.toNat else maxNbChannel - 1) < maxNbChannel := by
    unfold maxNbChannel maxNbPool
    split <;> omega
  unfold xeonSpXfer
  rw [entry_lt hmutex, Option.bind_eq_bind, Option.bind_some]
  obtain ⟨hchannel, hpool, hlt⟩ | ⟨hchannel, hge⟩ := xferPool_cases r
  · rw [hpool, entry_lt hlt, Option.bind_some, if_pos hready.opens]
    rw [served_iff, ← hready.live]
    constructor
    · intro ⟨x, hx, hgood⟩
      obtain rfl := Option.some.inj hx
      have hperf : r.mode = .perf := by
        cases hmode : r.mode with
        | perf => rfl
        | hybrid =>
          have hregion : r.region = .mapped := hgood.region
          unfold Rank.region at hregion
          rw [hmode] at hregion
          cases hregion
      have hlines := hgood.lines
      rw [← hready.lines] at hlines
      have hpos : 0 < (ctx.pool r.pool).nbDpusPerCi := by
        rw [hready.lines]
        exact b.pos
      exact ⟨hperf, hchannel, (lines_iff (x := initAndDoXfer b r direction xferMatrix ctx r.pool) hpos).1 hlines⟩
    · intro ⟨hperf, _, hthreads⟩
      have hpos : 0 < (ctx.pool r.pool).nbDpusPerCi := by
        rw [hready.lines]
        exact b.pos
      refine ⟨_, rfl, rfl, Nat.lt_of_lt_of_le hthreads.1 hthreads.2, ?_, ?_⟩
      · show r.region = .mapped
        unfold Rank.region
        rw [hperf]
      · rw [← hready.lines]
        exact (lines_iff (x := initAndDoXfer b r direction xferMatrix ctx r.pool) hpos).2 hthreads
  · rw [entry_ge hge]
    constructor
    · intro ⟨_, hx, _⟩
      cases hx
    · exact fun h => absurd h.2.1 hchannel

theorem hwCopy_good_iff (h : Inv b s) (i : Nat) :
    StepGood b s (.copy i direction xferMatrix) ↔ Meets s (.copy i direction xferMatrix) := by
  unfold StepGood Meets step hwCopy
  dsimp only
  cases hr : s.ranks[i]? with
  | none =>
    dsimp only
    exact ⟨fun _ => nofun, fun _ => ⟨s, none, rfl, h.counted, nofun⟩⟩
  | some r =>
    have hchannel := h.channels r (List.mem_of_getElem? hr)
    have hready : (s.ctx.pool r.pool).Ready b := by
      apply h.ready _ _ (ranksOn_pos hr)
      rw [Rank.pool_eq hchannel]
      exact countedChannel_lt hchannel
    have hxfer := @xeonSpXfer_good_iff b direction xferMatrix r s.ctx hready
    dsimp only
    by_cases hsupported : isSupported r.mode xferMatrix = true
    · rw [if_pos hsupported]
      have hnot : ¬ (r.mode = .hybrid ∧ isSg xferMatrix = true) := by
        intro ⟨hmode, hsg⟩
        unfold isSupported at hsupported
        rw [hmode] at hsupported
        dsimp only at hsupported
        rw [hsg] at hsupported
        cases hsupported
      constructor
      · intro ⟨s', x, hstep, _, hgood⟩ r' hr'
        obtain rfl := Option.some.inj hr'
        right
        obtain ⟨x', hx', hpair⟩ := Option.map_eq_some_iff.1 hstep
        obtain ⟨xfer, hxfer', rfl⟩ := Option.map_eq_some_iff.1 hx'
        exact hxfer.1 ⟨xfer, hxfer', hgood xfer (Prod.mk.inj hpair).2.symm⟩
      · intro hmeets
        obtain ⟨xfer, hrun, hgood⟩ := hxfer.2 ((hmeets r rfl).resolve_left hnot)
        refine ⟨s, some xfer, by rw [hrun]; rfl, h.counted, fun xfer' heq => ?_⟩
        obtain rfl := Option.some.inj heq
        exact hgood
    · rw [if_neg hsupported]
      refine ⟨fun _ r' hr' => ?_, fun _ => ⟨s, none, rfl, h.counted, nofun⟩⟩
      obtain rfl := Option.some.inj hr'
      left
      unfold isSupported at hsupported
      cases hmode : r.mode with
      | perf =>
        rw [hmode] at hsupported
        exact absurd rfl hsupported
      | hybrid =>
        rw [hmode] at hsupported
        dsimp only at hsupported
        exact ⟨rfl, by simpa using hsupported⟩

/-! ## Runs -/

theorem stepGood_iff (h : Inv b s) (call : Call) : StepGood b s call ↔ Meets s call := by
  cases call with
  | allocate mode channelId conf e =>
    cases e with
    | before => exact ⟨fun _ => trivial, fun _ => ⟨s, none, rfl, h.counted, nofun⟩⟩
    | behind =>
      constructor
      · intro ⟨s', x, hstep, _⟩ hchannel
        subst hchannel
        unfold step hwAllocate at hstep
        dsimp only at hstep
        rw [xeonSpInitRank_31] at hstep
        cases hstep
      · intro hchannel
        obtain ⟨s', hrun, hinv⟩ := @hwAllocate_behind b s mode channelId conf h hchannel
        exact ⟨s', none, by rw [step, hrun]; rfl, hinv.counted, nofun⟩
    | ok =>
      constructor
      · intro ⟨s', x, hstep, hcounted, _⟩
        have hchannel : channelId ≠ 31 := by
          intro hchannel
          subst hchannel
          unfold step hwAllocate at hstep
          dsimp only at hstep
          rw [xeonSpInitRank_31] at hstep
          cases hstep
        obtain ⟨s'', hrun, hranks, hcount, _⟩ := @hwAllocate_ok b s mode channelId conf h hchannel
        unfold step at hstep
        dsimp only at hstep
        rw [hrun] at hstep
        obtain rfl := (Prod.mk.inj (Option.some.inj hstep)).1
        exact ⟨hchannel, (counted_append_iff h hchannel hranks hcount).1 hcounted⟩
      · intro ⟨hchannel, hbound⟩
        obtain ⟨s', hrun, hranks, hcount, _⟩ := @hwAllocate_ok b s mode channelId conf h hchannel
        exact ⟨s', none, by rw [step, hrun]; rfl, (counted_append_iff h hchannel hranks hcount).2 hbound, nofun⟩
  | free i =>
    cases hr : s.ranks[i]? with
    | none =>
      have hrun : hwFree i s = some s := by
        unfold hwFree
        rw [hr]
      exact ⟨fun _ r hr' => absurd (hr.symm.trans hr') nofun,
        fun _ => ⟨s, none, by rw [step, hrun]; rfl, h.counted, nofun⟩⟩
    | some r =>
      cases hmode : r.mode with
      | perf =>
        obtain ⟨s', hrun, hinv⟩ := hwFree_perf h hr hmode
        refine ⟨fun _ r' hr' => ?_, fun _ => ⟨s', none, by rw [step, hrun]; rfl, hinv.counted, nofun⟩⟩
        obtain rfl := Option.some.inj (hr.symm.trans hr')
        exact hmode
      | hybrid =>
        obtain ⟨s', hrun, hnot⟩ := hwFree_hybrid h hr hmode
        constructor
        · intro ⟨s'', x, hstep, hcounted, _⟩
          unfold step at hstep
          dsimp only at hstep
          rw [hrun] at hstep
          obtain rfl := (Prod.mk.inj (Option.some.inj hstep)).1
          exact absurd hcounted hnot
        · intro hmeets
          have hperf := hmeets r hr
          rw [hmode] at hperf
          cases hperf
  | copy i direction xferMatrix => exact hwCopy_good_iff h i

/-- A call that meets the condition keeps the invariant. -/
theorem step_inv (h : Inv b s) {call : Call} (hmeets : Meets s call) {s' : State} {x : Option Xfer}
    (hstep : step b s call = some (s', x)) : Inv b s' := by
  cases call with
  | allocate mode channelId conf e =>
    unfold step at hstep
    dsimp only at hstep
    cases e with
    | before =>
      obtain rfl := (Prod.mk.inj (Option.some.inj hstep)).1
      exact h
    | behind =>
      obtain ⟨s'', hrun, hinv⟩ := @hwAllocate_behind b s mode channelId conf h hmeets
      rw [hrun] at hstep
      obtain rfl := (Prod.mk.inj (Option.some.inj hstep)).1
      exact hinv
    | ok =>
      obtain ⟨s'', hrun, hranks, hcount, hready⟩ := @hwAllocate_ok b s mode channelId conf h hmeets.1
      rw [hrun] at hstep
      obtain rfl := (Prod.mk.inj (Option.some.inj hstep)).1
      refine ⟨(counted_append_iff h hmeets.1 hranks hcount).2 hmeets.2, hready, fun r hr => ?_⟩
      rw [hranks] at hr
      rcases List.mem_append.1 hr with hr | hr
      · exact h.channels r hr
      · obtain rfl := List.mem_singleton.1 hr
        exact hmeets.1
  | free i =>
    unfold step at hstep
    dsimp only at hstep
    cases hr : s.ranks[i]? with
    | none =>
      have hrun : hwFree i s = some s := by
        unfold hwFree
        rw [hr]
      rw [hrun] at hstep
      obtain rfl := (Prod.mk.inj (Option.some.inj hstep)).1
      exact h
    | some r =>
      obtain ⟨s'', hrun, hinv⟩ := hwFree_perf h hr (hmeets r hr)
      rw [hrun] at hstep
      obtain rfl := (Prod.mk.inj (Option.some.inj hstep)).1
      exact hinv
  | copy i direction xferMatrix =>
    unfold step at hstep
    obtain ⟨_, _, hpair⟩ := Option.map_eq_some_iff.1 hstep
    obtain rfl := (Prod.mk.inj hpair).1
    exact h

theorem reach_inv (h : (machine b).Reach Meets s) : Inv b s := by
  apply h.invariant
  · intro s' hs'
    obtain rfl : s' = start := hs'
    exact start_inv b
  · intro s' call s'' hinv hmeets hstep
    obtain ⟨⟨t, x⟩, hrun, ht⟩ := Option.map_eq_some_iff.1 hstep
    obtain rfl : t = s'' := ht
    exact step_inv hinv hmeets hrun

/-- While the calls meet the condition the pools count their ranks, and a call is as it should be exactly if it meets
the condition too. -/
theorem transferPools_iff (b : Board) {s : State} (h : (machine b).Reach Meets s) :
    Counted s ∧ ∀ call, StepGood b s call ↔ Meets s call :=
  ⟨(reach_inv h).counted, fun call => stepGood_iff (reach_inv h) call⟩

/-- A rank with eight control interfaces of eight DPUs. -/
def sampleBoard : Board where
  nbCis := 8
  nbDpusPerCi := 8
  pos := Nat.succ_pos 7
  zeros := 0

def sampleConf : DpuTransferThreadConfiguration :=
  ⟨dpuXferThreadConfDefault, dpuXferThreadConfDefault, dpuXferThreadConfDefault, dpuXferThreadConfDefault⟩

def sampleMatrix (size : Nat) : DpuTransferMatrix := ⟨.ptr fun _ => 8, 0, size⟩

/-- One rank, on channel 2. -/
def sampleState : State := (hwAllocate sampleBoard .perf 2 sampleConf start .ok).get rfl

theorem transferPools_sample :
    Counted sampleState ∧ StepGood sampleBoard sampleState (.copy 0 .write (sampleMatrix 4096)) := by
  have hmeets : Meets start (.allocate .perf 2 sampleConf .ok) := ⟨by decide, by decide⟩
  have hreach : (machine sampleBoard).Reach Meets sampleState := .step (.init rfl) hmeets rfl
  have hpools := transferPools_iff sampleBoard hreach
  refine ⟨hpools.1, (hpools.2 _).2 fun r hr => ?_⟩
  obtain rfl : (⟨.perf, 2, setConfiguration sampleConf⟩ : Rank) = r := Option.some.inj hr
  exact .inr ⟨rfl, .inl (by decide), (served_iff ..).2 (by decide)⟩

/-- A rank of channel 31 is counted behind the array. -/
theorem channel31_not_good : (machine sampleBoard).Reach (fun _ _ => True) start ∧
    ¬ StepGood sampleBoard start (.allocate .perf 31 sampleConf .ok) := by
  refine ⟨.init rfl, fun ⟨s', x, hstep, _⟩ => ?_⟩
  have hnone : step sampleBoard start (.allocate .perf 31 sampleConf .ok) = none := by
    rw [step, hwAllocate, xeonSpInitRank_31]
    rfl
  rw [hnone] at hstep
  cases hstep

end DpuBackend.Xeon.TransferPools
