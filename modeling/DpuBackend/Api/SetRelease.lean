import DpuBackend.Lib.Hoare
import Mathlib.Logic.Function.Basic
import Mathlib.Tactic.Common

/-
  Freeing a set of DPUs (`dpu_set.c`).

  A set is a value: a copy of it, or a view that one of the iterators gives, is the same ranks by
  another value. `dpu_free` frees the scatter/gather pool that the first rank points to, and only
  then looks the value up in the registry, where its bytes have to be those of a set.

  A pointer is to a block and an offset in it. A read through one that is null or whose block has
  been freed, and a free of what is not the start of a live block, end the run (`fault`). In a set
  of one DPU the place of `list.ranks` has whatever was there. What `dpu_free_rank` frees of a
  rank goes with it; the threads of a rank are joined.

  `unchanged_iff` says when a failed call changes nothing, so that the sets of the registry can
  still be freed, each block once: a free that succeeds leaves `State.without`.

  Correspondence (C ↔ Lean):
    `struct dpu_set_t`                             ↔ `DpuSet`
    `sg_buffer_pool_free`                          ↔ `sgBufferPoolFree`
    `set_allocator_find`, `set_allocator_unregister` ↔ `setAllocatorUnregister`
    `dpu_thread_job_free`, `dpu_free_rank`         ↔ `dpuThreadJobFree`, `dpuFreeRank`
    `dpu_free`                                     ↔ `dpuFree`
-/

namespace DpuBackend.Api.SetRelease

open DpuBackend.Lib

/-! ## Sets and ranks -/

inductive Ptr where
  | null
  | block (id offset : Nat)
deriving DecidableEq

structure Rank where
  sgXferEnabled : Bool
  /-- `sg_buffer_pool[0].blocks_addr`. -/
  blocksAddr : Ptr
  blocksLength : Ptr
  /-- The worker threads that have not been joined. -/
  threads : Nat

inductive Kind where
  | ranks
  | dpu
deriving DecidableEq

/-- The bytes of a set. -/
structure DpuSet where
  kind : Kind
  /-- `list.nr_ranks` and the padding behind it, or `dpu`. -/
  union : UInt64
  ranks : Ptr
deriving DecidableEq

def DpuSet.nrRanks (d : DpuSet) : Nat := d.union.toUInt32.toNat

@[ext]
structure State where
  registry : List DpuSet
  /-- The arrays of ranks that have not been freed. -/
  arrays : Nat → Option (List Nat)
  /-- The blocks of the pools that have not been freed. -/
  blocks : Nat → Bool
  ranks : Nat → Option Rank

inductive Stop where
  | fault
  | errInternal
  | errInvalidDpuSet
deriving DecidableEq

abbrev FreeM := EStateM Stop State

/-! ## The program -/

namespace State

variable (s : State)

/-- `*list.ranks[i]`, with the name of the rank. -/
def rankAt (d : DpuSet) (i : Nat) : Option (Nat × Rank) :=
  match d.ranks with
  | .null => none
  | .block array offset => do
    let ids ← s.arrays array
    let id ← ids[offset + i]?
    let r ← s.ranks id
    some (id, r)

def setRank (id : Nat) (r : Option Rank) : State := { s with ranks := Function.update s.ranks id r }

def canFree (p : Ptr) : Bool :=
  match p with
  | .block id 0 => s.blocks id
  | _ => false

def dropBlock (p : Ptr) : State :=
  match p with
  | .block id _ => { s with blocks := Function.update s.blocks id false }
  | .null => s

variable {s} in
@[simp] theorem setRank_self {id : Nat} {r : Option Rank} : (s.setRank id r).ranks id = r := Function.update_self ..

variable {s} in
theorem setRank_other {id j : Nat} {r : Option Rank} (h : j ≠ id) : (s.setRank id r).ranks j = s.ranks j :=
  Function.update_of_ne h ..

end State

def rankAt (d : DpuSet) (i : Nat) : FreeM (Nat × Rank) := do
  match (← get).rankAt d i with
  | some x => pure x
  | none => throw .fault

def freeBlock (p : Ptr) : FreeM PUnit := do
  if (← get).canFree p then modify (State.dropBlock · p) else throw .fault

def sgBufferPoolFree (d : DpuSet) : FreeM PUnit := do
  let (id, r) ← rankAt d 0
  if r.sgXferEnabled = false then pure ⟨⟩
  else if r.blocksAddr = .null then throw .errInternal
  else do
    freeBlock r.blocksAddr
    if r.blocksLength = .null then throw .errInternal
    else do
      freeBlock r.blocksLength
      modify (State.setRank · id (some { r with sgXferEnabled := false }))

def setAllocatorUnregister (d : DpuSet) : FreeM PUnit := do
  let s ← get
  if d ∈ s.registry then set { s with registry := s.registry.erase d } else throw .errInvalidDpuSet

def dpuThreadJobFree (d : DpuSet) : FreeM PUnit :=
  (List.range d.nrRanks).forM fun i => do
    let (id, r) ← rankAt d i
    modify (State.setRank · id (some { r with threads := 0 }))

def dpuFreeRank (id : Nat) : FreeM PUnit := modify (State.setRank · id none)

/-- `free(list.ranks)`. -/
def freeArray (p : Ptr) : FreeM PUnit := do
  let s ← get
  match p with
  | .block array 0 =>
    if (s.arrays array).isSome then set { s with arrays := Function.update s.arrays array none } else throw .fault
  | _ => throw .fault

/-- Once the set is no longer registered. -/
def releaseRanks (d : DpuSet) : FreeM PUnit := do
  dpuThreadJobFree d
  (List.range d.nrRanks).forM fun i => do
    let (id, _) ← rankAt d i
    dpuFreeRank id
  freeArray d.ranks

def dpuFree (d : DpuSet) : FreeM PUnit := do
  sgBufferPoolFree d
  setAllocatorUnregister d
  releaseRanks d

/-! ## What a free should do -/

/-- The ranks of a set. -/
def State.idsOf (s : State) (d : DpuSet) : List Nat :=
  match d.ranks with
  | .block array _ => ((s.arrays array).getD []).take d.nrRanks
  | .null => []

/-- The blocks of its pool. -/
def State.poolOf (s : State) (d : DpuSet) : List Ptr :=
  match s.rankAt d 0 with
  | some (_, r) => if r.sgXferEnabled then [r.blocksAddr, r.blocksLength] else []
  | none => []

/-- The set is gone, with its array, its ranks and its pool, and nothing else. -/
def State.without (s : State) (d : DpuSet) : State where
  registry := s.registry.erase d
  arrays array := if d.ranks = .block array 0 then none else s.arrays array
  blocks id := if .block id 0 ∈ s.poolOf d then false else s.blocks id
  ranks id := if id ∈ s.idsOf d then none else s.ranks id

/-- A set of the registry: its array and its ranks are there, and of the blocks of its pool those that could be allocated. -/
structure Registered (s : State) (d : DpuSet) : Prop where
  array : ∃ array ids, d.ranks = .block array 0 ∧ s.arrays array = some ids ∧ d.nrRanks ≤ ids.length
  nrRanks_pos : 0 < d.nrRanks
  nodup : (s.idsOf d).Nodup
  live : ∀ id ∈ s.idsOf d, (s.ranks id).isSome = true
  pool : ∀ id r, s.rankAt d 0 = some (id, r) → r.sgXferEnabled = true →
    (r.blocksAddr = .null ∨ s.canFree r.blocksAddr = true) ∧ (r.blocksLength = .null ∨ s.canFree r.blocksLength = true) ∧
      (r.blocksAddr = r.blocksLength → r.blocksAddr = .null)

/-- Both blocks of the pool could be allocated, if there is a pool. -/
def Complete (s : State) (d : DpuSet) : Prop :=
  ∀ id r, s.rankAt d 0 = some (id, r) → r.sgXferEnabled = true → r.blocksAddr ≠ .null ∧ r.blocksLength ≠ .null

/-- A call, with whatever value. -/
structure Setting where
  state : State
  registered : ∀ d ∈ state.registry, Registered state d
  set : DpuSet

/-- A call that returns an error changes nothing, and the sets of the registry can be freed. -/
def Unchanged (x : Setting) : Prop :=
  ∀ e s', (dpuFree x.set).run x.state = .error e s' → e ≠ .fault →
    s' = x.state ∧ ∀ d ∈ x.state.registry, (dpuFree d).run s' = .ok ⟨⟩ (s'.without d)

/-- Where the first rank has a pool whose first block can be freed, the second is there and the set is registered; where the
call fails before it frees anything, no set of the registry lacks a block. -/
def HoldsWhen (x : Setting) : Prop :=
  ∀ id r, x.state.rankAt x.set 0 = some (id, r) →
    (r.sgXferEnabled = true → x.state.canFree r.blocksAddr = true → r.blocksLength ≠ .null ∧
      ((x.state.dropBlock r.blocksAddr).canFree r.blocksLength = true → x.set ∈ x.state.registry)) ∧
    (r.sgXferEnabled = true ∧ r.blocksAddr = .null ∨ r.sgXferEnabled = false ∧ x.set ∉ x.state.registry →
      ∀ d ∈ x.state.registry, Complete x.state d)

/-! ## The pool -/

section Pool

variable {s : State} {d : DpuSet} {id : Nat} {r : Rank}

theorem run_rankAt (d : DpuSet) (i : Nat) (s : State) :
    (rankAt d i).run s = match s.rankAt d i with
      | some x => .ok x s
      | none => .error .fault s := by
  simp only [rankAt, EStateM.run_bind, EStateM.run_get]
  split <;> rfl

theorem run_freeBlock (p : Ptr) (s : State) :
    (freeBlock p).run s = if s.canFree p then .ok ⟨⟩ (s.dropBlock p) else .error .fault s := by
  simp only [freeBlock, EStateM.run_bind, EStateM.run_get]
  split <;> rfl

theorem canFree_ne_null {p : Ptr} (h : s.canFree p = true) : p ≠ .null := by
  rintro rfl
  exact absurd h Bool.false_ne_true

/-- How the pool of the first rank is freed. -/
theorem run_sgBufferPoolFree (hfirst : s.rankAt d 0 = some (id, r)) :
    (sgBufferPoolFree d).run s =
      if r.sgXferEnabled = false then .ok ⟨⟩ s
      else if r.blocksAddr = .null then .error .errInternal s
      else if s.canFree r.blocksAddr then
        if r.blocksLength = .null then .error .errInternal (s.dropBlock r.blocksAddr)
        else if (s.dropBlock r.blocksAddr).canFree r.blocksLength then
          .ok ⟨⟩ (((s.dropBlock r.blocksAddr).dropBlock r.blocksLength).setRank id (some { r with sgXferEnabled := false }))
        else .error .fault (s.dropBlock r.blocksAddr)
      else .error .fault s := by
  unfold sgBufferPoolFree
  rw [EStateM.run_bind, run_rankAt, hfirst]
  dsimp only
  split
  · rfl
  · split
    · rfl
    · rw [EStateM.run_bind, run_freeBlock]
      by_cases haddr : s.canFree r.blocksAddr = true
      · rw [if_pos haddr, if_pos haddr]
        dsimp only
        split
        · rfl
        · rw [EStateM.run_bind, run_freeBlock]
          by_cases hlength : (s.dropBlock r.blocksAddr).canFree r.blocksLength = true
          · rw [if_pos hlength, if_pos hlength]
            rfl
          · rw [if_neg hlength, if_neg hlength]
      · rw [if_neg haddr, if_neg haddr]

/-- A block that is freed is live no more. -/
theorem dropBlock_ne {p : Ptr} (h : s.canFree p = true) {s' : State} (hs' : s'.blocks = (s.dropBlock p).blocks) : s' ≠ s := by
  rintro rfl
  unfold State.canFree at h
  split at h
  · next id =>
    have hfalse : s'.blocks id = Function.update s'.blocks id false id := congrFun hs' id
    rw [Function.update_self, h] at hfalse
    exact absurd hfalse nofun
  · exact absurd h nofun

end Pool

/-! ## The ranks -/

section Ranks

variable {s t : State} {d : DpuSet} {i : Nat}

/-- What is left of a set of which the first `k` ranks have been freed. -/
structure Releasing (s : State) (d : DpuSet) (registry : List DpuSet) (blocks : Nat → Bool) (k : Nat) (t : State) : Prop where
  registry_eq : t.registry = registry
  arrays_eq : t.arrays = s.arrays
  blocks_eq : t.blocks = blocks
  gone : ∀ id ∈ (s.idsOf d).take k, t.ranks id = none
  live : ∀ id ∈ (s.idsOf d).drop k, (t.ranks id).isSome = true
  other : ∀ id ∉ s.idsOf d, t.ranks id = s.ranks id

/-- No stop. -/
def Never (_ : Stop) (_ : State) : Prop := False

theorem Registered.idsOf_length (h : Registered s d) : (s.idsOf d).length = d.nrRanks := by
  obtain ⟨array, ids, hd, harray, hle⟩ := h.array
  simp only [State.idsOf, hd, harray, Option.getD_some, List.length_take]
  exact Nat.min_eq_left hle

/-- A read of a rank of the set. -/
theorem Registered.rankAt_eq (h : Registered s d) (harrays : t.arrays = s.arrays) (hi : i < (s.idsOf d).length) :
    t.rankAt d i = (t.ranks (s.idsOf d)[i]).map fun r => ((s.idsOf d)[i], r) := by
  obtain ⟨array, ids, hd, harray, hle⟩ := h.array
  have hlt : i < d.nrRanks := h.idsOf_length ▸ hi
  have hids : s.idsOf d = ids.take d.nrRanks := by simp only [State.idsOf, hd, harray, Option.getD_some]
  have hget : ids[0 + i]? = some (s.idsOf d)[i] := by
    simp only [hids, List.getElem_take, Nat.zero_add]
    exact List.getElem?_eq_getElem _
  simp only [State.rankAt, hd, harrays, harray, Option.bind_eq_bind, Option.bind_some, hget]
  cases t.ranks (s.idsOf d)[i] <;> rfl

variable {registry : List DpuSet} {blocks : Nat → Bool} {k : Nat}

/-- A rank that is still there is changed. -/
theorem Releasing.setRank (h : Releasing s d registry blocks 0 t) {id : Nat} (hid : id ∈ s.idsOf d) (r : Rank) :
    Releasing s d registry blocks 0 (t.setRank id (some r)) := by
  refine ⟨h.registry_eq, h.arrays_eq, h.blocks_eq, fun j hj => absurd hj List.not_mem_nil, fun j hj => ?_, fun j hj => ?_⟩
  · by_cases hji : j = id
    · rw [hji, State.setRank_self]
      rfl
    · rw [State.setRank_other hji]
      exact h.live j hj
  · have hji : j ≠ id := fun he => hj (he ▸ hid)
    rw [State.setRank_other hji]
    exact h.other j hj

/-- The next rank is freed. -/
theorem Releasing.next (h : Releasing s d registry blocks k t) (hnodup : (s.idsOf d).Nodup) (hk : k < (s.idsOf d).length) :
    Releasing s d registry blocks (k + 1) (t.setRank (s.idsOf d)[k] none) := by
  have hdrop : (s.idsOf d).drop k = (s.idsOf d)[k] :: (s.idsOf d).drop (k + 1) := List.drop_eq_getElem_cons hk
  have hnot : (s.idsOf d)[k] ∉ (s.idsOf d).drop (k + 1) := by
    have hsub := hnodup.sublist (List.drop_sublist k _)
    rw [hdrop] at hsub
    exact (List.nodup_cons.mp hsub).1
  refine ⟨h.registry_eq, h.arrays_eq, h.blocks_eq, fun j hj => ?_, fun j hj => ?_, fun j hj => ?_⟩
  · by_cases hji : j = (s.idsOf d)[k]
    · rw [hji, State.setRank_self]
    · rw [State.setRank_other hji]
      rw [List.take_succ_eq_append_getElem hk, List.mem_append, List.mem_singleton] at hj
      exact h.gone j (hj.resolve_right hji)
  · have hji : j ≠ (s.idsOf d)[k] := fun he => hnot (he ▸ hj)
    rw [State.setRank_other hji]
    exact h.live j (by rw [hdrop]; exact List.mem_cons_of_mem _ hj)
  · have hji : j ≠ (s.idsOf d)[k] := fun he => hj (he ▸ List.getElem_mem hk)
    rw [State.setRank_other hji]
    exact h.other j hj

/-- Reading the next rank. -/
theorem Registered.rankAt_spec (h : Registered s d) {j : Nat} (hk : k < (s.idsOf d).length) (hj : j ≤ k) :
    Triple (Releasing s d registry blocks j) (rankAt d k)
      (fun x t => x.1 = (s.idsOf d)[k] ∧ Releasing s d registry blocks j t) Never := by
  intro t ht
  have hmem : (s.idsOf d)[k] ∈ (s.idsOf d).drop j := by
    rw [List.mem_iff_getElem]
    refine ⟨k - j, by rw [List.length_drop]; omega, ?_⟩
    simp only [List.getElem_drop, Nat.add_sub_cancel' hj]
  obtain ⟨r, hr⟩ := Option.isSome_iff_exists.mp (ht.live _ hmem)
  rw [run_rankAt, h.rankAt_eq ht.arrays_eq hk, hr]
  exact ⟨rfl, ht⟩

theorem Registered.threads_spec (h : Registered s d) :
    Triple (Releasing s d registry blocks 0) (dpuThreadJobFree d) (fun _ => Releasing s d registry blocks 0) Never := by
  refine triple_forM_range (I := fun _ => Releasing s d registry blocks 0) fun k hk => ?_
  have hlt : k < (s.idsOf d).length := h.idsOf_length.symm ▸ hk
  refine triple_bind (h.rankAt_spec hlt (Nat.zero_le k)) fun x => triple_modify fun t ht => ?_
  exact ht.2.setRank (ht.1 ▸ List.getElem_mem hlt) _

theorem Registered.ranks_spec (h : Registered s d) :
    Triple (Releasing s d registry blocks 0)
      ((List.range d.nrRanks).forM fun i => do
        let (id, _) ← rankAt d i
        dpuFreeRank id)
      (fun _ => Releasing s d registry blocks d.nrRanks) Never := by
  refine triple_forM_range (I := fun k => Releasing s d registry blocks k) fun k hk => ?_
  have hlt : k < (s.idsOf d).length := h.idsOf_length.symm ▸ hk
  refine triple_bind (h.rankAt_spec hlt (Nat.le_refl k)) fun x => triple_modify fun t ht => ?_
  rw [ht.1]
  exact ht.2.next h.nodup hlt

/-- The ranks and the array of a set of the registry are freed. -/
theorem Registered.releaseRanks_spec (h : Registered s d) :
    Triple (Releasing s d registry blocks 0) (releaseRanks d)
      (fun _ t => t = ⟨registry, (s.without d).arrays, blocks, (s.without d).ranks⟩) Never := by
  refine triple_bind h.threads_spec fun _ => triple_bind h.ranks_spec fun _ => ?_
  intro t ht
  obtain ⟨array, ids, hd, harray, -⟩ := h.array
  have hsome : (t.arrays array).isSome = true := by
    rw [ht.arrays_eq, harray]
    rfl
  have hrun : (freeArray d.ranks).run t = .ok ⟨⟩ { t with arrays := Function.update t.arrays array none } := by
    simp only [freeArray, hd, EStateM.run_bind, EStateM.run_get, hsome, if_true]
    rfl
  rw [hrun]
  refine State.ext ht.registry_eq ?_ ht.blocks_eq ?_
  · funext a
    simp only [State.without, hd, Ptr.block.injEq, and_true, ht.arrays_eq, Function.update_apply, eq_comm]
  · funext id
    have hall : (s.idsOf d).take d.nrRanks = s.idsOf d := List.take_of_length_le (Nat.le_of_eq h.idsOf_length)
    have hgone := ht.gone
    rw [hall] at hgone
    simp only [State.without]
    split
    · next hid => exact hgone id hid
    · next hid => exact ht.other id hid

end Ranks

/-! ## A call for a set of the registry -/

section Call

variable {s : State} {d : DpuSet}

theorem Registered.first (h : Registered s d) : ∃ id r, s.rankAt d 0 = some (id, r) ∧ id ∈ s.idsOf d := by
  have hpos : 0 < (s.idsOf d).length := h.idsOf_length.symm ▸ h.nrRanks_pos
  obtain ⟨r, hr⟩ := Option.isSome_iff_exists.mp (h.live _ (List.getElem_mem hpos))
  refine ⟨_, r, ?_, List.getElem_mem hpos⟩
  rw [h.rankAt_eq rfl hpos, hr]
  rfl

/-- Before any rank is freed. -/
theorem Registered.start (h : Registered s d) (registry : List DpuSet) (blocks : Nat → Bool) :
    Releasing s d registry blocks 0 ⟨registry, s.arrays, blocks, s.ranks⟩ :=
  ⟨rfl, rfl, rfl, fun _ hid => absurd hid List.not_mem_nil, fun id hid => h.live id hid, fun _ _ => rfl⟩

theorem run_unregister {d : DpuSet} {s : State} :
    (setAllocatorUnregister d).run s =
      if d ∈ s.registry then .ok ⟨⟩ { s with registry := s.registry.erase d } else .error .errInvalidDpuSet s := by
  simp only [setAllocatorUnregister, EStateM.run_bind, EStateM.run_get]
  split <;> rfl

theorem run_dpuFree (d : DpuSet) (s : State) :
    (dpuFree d).run s = match (sgBufferPoolFree d).run s with
      | .ok _ s' =>
        if d ∈ s'.registry then (releaseRanks d).run { s' with registry := s'.registry.erase d }
        else .error .errInvalidDpuSet s'
      | .error e s' => .error e s' := by
  rw [dpuFree, EStateM.run_bind]
  cases (sgBufferPoolFree d).run s with
  | error e s' => rfl
  | ok a s' =>
    dsimp only
    rw [EStateM.run_bind, run_unregister]
    by_cases h : d ∈ s'.registry
    · rw [if_pos h, if_pos h]
    · rw [if_neg h, if_neg h]

/-- Once the set is no longer registered the call does not return an error. -/
theorem releaseRanks_fault (d : DpuSet) :
    Triple (fun _ => True) (releaseRanks d) (fun _ _ => True) fun e _ => e = .fault := by
  have hrank : ∀ i, Triple (fun _ => True) (rankAt d i) (fun _ _ => True) fun e _ => e = .fault := by
    intro i s _
    rw [run_rankAt]
    split
    · next hr =>
      split at hr <;> simp at hr
      trivial
    · next hr =>
      split at hr <;> simp at hr
      exact hr.1.symm
  refine triple_bind (R := fun _ _ => True) ?_ fun _ => triple_bind (R := fun _ _ => True) ?_ fun _ => ?_
  · exact triple_forM_range (I := fun _ _ => True) fun k _ => triple_bind (hrank k) fun _ => triple_modify fun _ _ => trivial
  · exact triple_forM_range (I := fun _ _ => True) fun k _ => triple_bind (hrank k) fun _ => triple_modify fun _ _ => trivial
  · refine triple_get fun s _ => ?_
    split
    · exact triple_ite (fun _ => fun _ _ => trivial) fun _ => triple_throw fun _ _ => rfl
    · exact triple_throw fun _ _ => rfl

theorem dropBlock_eq (p q : Ptr) (s : State) :
    (s.dropBlock p).dropBlock q = ⟨s.registry, s.arrays, ((s.dropBlock p).dropBlock q).blocks, s.ranks⟩ := by
  cases p <;> cases q <;> rfl

theorem canFree_block {p : Ptr} (h : s.canFree p = true) : ∃ id, p = .block id 0 ∧ s.blocks id = true := by
  unfold State.canFree at h
  split at h
  · next id => exact ⟨id, rfl, h⟩
  · exact absurd h nofun

/-- The second block is still there when the first is gone. -/
theorem canFree_dropBlock {p q : Ptr} (hp : s.canFree p = true) (hq : s.canFree q = true) (hne : p ≠ q) :
    (s.dropBlock p).canFree q = true := by
  obtain ⟨a, rfl, -⟩ := canFree_block hp
  obtain ⟨b, rfl, hb⟩ := canFree_block hq
  have hba : b ≠ a := fun he => hne (by rw [he])
  show Function.update s.blocks a false b = true
  rw [Function.update_of_ne hba]
  exact hb

theorem without_blocks {p q : Ptr} (hp : s.canFree p = true) (hq : s.canFree q = true) :
    ((s.dropBlock p).dropBlock q).blocks = fun id => if Ptr.block id 0 ∈ [p, q] then false else s.blocks id := by
  obtain ⟨a, rfl, -⟩ := canFree_block hp
  obtain ⟨b, rfl, -⟩ := canFree_block hq
  funext id
  show Function.update (Function.update s.blocks a false) b false id = _
  simp only [Function.update_apply, List.mem_cons, Ptr.block.injEq, and_true, List.not_mem_nil, or_false]
  by_cases ha : id = a <;> by_cases hb : id = b <;> simp [ha, hb]

/-- A set of the registry is freed, and each of its blocks once. -/
theorem Registered.dpuFree_ok (h : Registered s d) (hmem : d ∈ s.registry) (hcomplete : Complete s d) :
    (dpuFree d).run s = .ok ⟨⟩ (s.without d) := by
  obtain ⟨id, r, hfirst, hid⟩ := h.first
  have hrelease : ∀ blocks t, Releasing s d (s.registry.erase d) blocks 0 t →
      (releaseRanks d).run t = .ok ⟨⟩ ⟨s.registry.erase d, (s.without d).arrays, blocks, (s.without d).ranks⟩ := by
    intro blocks t ht
    have hspec := h.releaseRanks_spec t ht
    split at hspec
    · next hrun => rw [hrun, hspec]
    · exact hspec.elim
  rw [run_dpuFree, run_sgBufferPoolFree hfirst]
  cases hflag : r.sgXferEnabled with
  | false =>
    have hpool : s.poolOf d = [] := by simp only [State.poolOf, hfirst, hflag, Bool.false_eq_true, if_false]
    simp only [if_true, if_pos hmem]
    rw [hrelease s.blocks _ (h.start _ _)]
    congr 1
    simp only [State.without, hpool, List.not_mem_nil, if_false]
  | true =>
    obtain ⟨haddr, hlength⟩ := hcomplete id r hfirst hflag
    obtain ⟨hfreeAddr, hfreeLength, hdistinct⟩ := h.pool id r hfirst hflag
    replace hfreeAddr := hfreeAddr.resolve_left haddr
    replace hfreeLength := hfreeLength.resolve_left hlength
    have hboth := canFree_dropBlock hfreeAddr hfreeLength fun he => haddr (hdistinct he)
    have hpool : s.poolOf d = [r.blocksAddr, r.blocksLength] := by simp only [State.poolOf, hfirst, hflag, if_true]
    have hblocks := without_blocks hfreeAddr hfreeLength
    simp only [Bool.true_eq_false, if_false, if_neg haddr, if_pos hfreeAddr, if_neg hlength, if_pos hboth]
    rw [dropBlock_eq, hblocks]
    show (if d ∈ s.registry then (releaseRanks d).run (State.setRank ⟨s.registry.erase d, s.arrays, _, s.ranks⟩ id _)
      else _) = _
    rw [if_pos hmem, hrelease _ _ ((h.start _ _).setRank hid _), ← hpool]
    rfl

end Call

/-! ## When a failed call changes nothing -/

section Unchanged

variable {s : State} {d : DpuSet} {id : Nat} {r : Rank}

/-- The first block is not there: the call fails at once. -/
theorem run_noAddr (hfirst : s.rankAt d 0 = some (id, r)) (hflag : r.sgXferEnabled = true) (haddr : r.blocksAddr = .null) :
    (dpuFree d).run s = .error .errInternal s := by
  rw [run_dpuFree, run_sgBufferPoolFree hfirst]
  simp [hflag, haddr]

/-- The second is not there: the first has been freed. -/
theorem run_noLength (hfirst : s.rankAt d 0 = some (id, r)) (hflag : r.sgXferEnabled = true)
    (haddr : s.canFree r.blocksAddr = true) (hlength : r.blocksLength = .null) :
    (dpuFree d).run s = .error .errInternal (s.dropBlock r.blocksAddr) := by
  rw [run_dpuFree, run_sgBufferPoolFree hfirst]
  simp [hflag, canFree_ne_null haddr, haddr, hlength]

/-- A value without a pool that is not registered. -/
theorem run_unregistered (hfirst : s.rankAt d 0 = some (id, r)) (hflag : r.sgXferEnabled = false) (hmem : d ∉ s.registry) :
    (dpuFree d).run s = .error .errInvalidDpuSet s := by
  rw [run_dpuFree, run_sgBufferPoolFree hfirst]
  simp [hflag, hmem]

/-- With a pool, both blocks have been freed. -/
theorem run_poolFreed (hfirst : s.rankAt d 0 = some (id, r)) (hflag : r.sgXferEnabled = true)
    (haddr : s.canFree r.blocksAddr = true) (hlength : r.blocksLength ≠ .null)
    (hboth : (s.dropBlock r.blocksAddr).canFree r.blocksLength = true) (hmem : d ∉ s.registry) :
    (dpuFree d).run s = .error .errInvalidDpuSet
      (((s.dropBlock r.blocksAddr).dropBlock r.blocksLength).setRank id (some { r with sgXferEnabled := false })) := by
  have hregistry : (((s.dropBlock r.blocksAddr).dropBlock r.blocksLength).setRank id
      (some { r with sgXferEnabled := false })).registry = s.registry := by
    rw [dropBlock_eq]
    rfl
  rw [run_dpuFree, run_sgBufferPoolFree hfirst]
  simp only [hflag, Bool.true_eq_false, if_false, if_neg (canFree_ne_null haddr), if_pos haddr, if_neg hlength, if_pos hboth,
    hregistry, if_neg hmem]

/-- A block that has been freed is live no more. -/
theorem blocks_ne {p q : Ptr} (hp : s.canFree p = true) (hq : (s.dropBlock p).canFree q = true) {s' : State}
    (hs' : s'.blocks = ((s.dropBlock p).dropBlock q).blocks) : s' ≠ s := by
  obtain ⟨a, rfl, ha⟩ := canFree_block hp
  obtain ⟨b, rfl, -⟩ := canFree_block hq
  rintro rfl
  have hfalse : s'.blocks a = Function.update (Function.update s'.blocks a false) b false a := congrFun hs' a
  rw [ha] at hfalse
  by_cases hab : a = b
  · rw [hab, Function.update_self] at hfalse
    exact absurd hfalse nofun
  · rw [Function.update_of_ne hab, Function.update_self] at hfalse
    exact absurd hfalse nofun

/-- Where a set of the registry can be freed, no block of its pool is missing. -/
theorem Registered.complete (h : Registered s d) {s' : State} (hrun : (dpuFree d).run s = .ok ⟨⟩ s') : Complete s d := by
  intro id r hfirst hflag
  obtain ⟨hfreeAddr, -, -⟩ := h.pool id r hfirst hflag
  have haddr : r.blocksAddr ≠ .null := fun hnull => by
    rw [run_noAddr hfirst hflag hnull] at hrun
    exact absurd hrun nofun
  refine ⟨haddr, fun hnull => ?_⟩
  rw [run_noLength hfirst hflag (hfreeAddr.resolve_left haddr) hnull] at hrun
  exact absurd hrun nofun

/-- With its pool freed, or without one, a set of the registry is freed or the run ends. -/
theorem releaseRanks_error {e : Stop} {s' : State} (hrun : (releaseRanks d).run s = .error e s') : e = .fault := by
  have hspec := releaseRanks_fault d s trivial
  rw [hrun] at hspec
  exact hspec

theorem unchanged_iff (x : Setting) : Unchanged x ↔ HoldsWhen x := by
  constructor
  · intro h id r hfirst
    refine ⟨fun hflag haddr => ⟨fun hnull => ?_, fun hboth => ?_⟩, fun hcase d hd => ?_⟩
    · have hsame := (h _ _ (run_noLength hfirst hflag haddr hnull) nofun).1
      exact absurd hsame (dropBlock_ne haddr rfl)
    · by_contra hmem
      have hsame := (h _ _ (run_poolFreed hfirst hflag haddr (canFree_ne_null hboth) hboth hmem) nofun).1
      exact absurd hsame (blocks_ne haddr hboth rfl)
    · rcases hcase with ⟨hflag, haddr⟩ | ⟨hflag, hmem⟩
      · exact (x.registered d hd).complete ((h _ _ (run_noAddr hfirst hflag haddr) nofun).2 d hd)
      · exact (x.registered d hd).complete ((h _ _ (run_unregistered hfirst hflag hmem) nofun).2 d hd)
  · intro h e s' hrun hfault
    have hfrees : (∀ d ∈ x.state.registry, Complete x.state d) →
        ∀ d ∈ x.state.registry, (dpuFree d).run x.state = .ok ⟨⟩ (x.state.without d) := fun hcomplete d hd =>
      (x.registered d hd).dpuFree_ok hd (hcomplete d hd)
    cases hfirst : x.state.rankAt x.set 0 with
    | none =>
      rw [dpuFree, EStateM.run_bind, sgBufferPoolFree, EStateM.run_bind, run_rankAt, hfirst] at hrun
      obtain ⟨rfl, -⟩ := EStateM.Result.error.inj hrun
      exact absurd rfl hfault
    | some first =>
      obtain ⟨id, r⟩ := first
      obtain ⟨hpool, hkept⟩ := h id r hfirst
      cases hflag : r.sgXferEnabled with
      | false =>
        by_cases hmem : x.set ∈ x.state.registry
        · rw [run_dpuFree, run_sgBufferPoolFree hfirst, if_pos hflag] at hrun
          dsimp only at hrun
          rw [if_pos hmem] at hrun
          exact absurd (releaseRanks_error hrun) hfault
        · rw [run_unregistered hfirst hflag hmem] at hrun
          obtain ⟨-, rfl⟩ := EStateM.Result.error.inj hrun
          exact ⟨rfl, hfrees (hkept (.inr ⟨hflag, hmem⟩))⟩
      | true =>
        by_cases haddr : r.blocksAddr = .null
        · rw [run_noAddr hfirst hflag haddr] at hrun
          obtain ⟨-, rfl⟩ := EStateM.Result.error.inj hrun
          exact ⟨rfl, hfrees (hkept (.inl ⟨hflag, haddr⟩))⟩
        · -- once the first block is freed, the rest does not return an error
          have hpoolRun := run_sgBufferPoolFree hfirst
          rw [if_neg (by rw [hflag]; exact nofun), if_neg haddr] at hpoolRun
          rw [run_dpuFree, hpoolRun] at hrun
          by_cases hfree : x.state.canFree r.blocksAddr = true
          · obtain ⟨hlength, hregistered⟩ := hpool hflag hfree
            rw [if_pos hfree, if_neg hlength] at hrun
            by_cases hboth : (x.state.dropBlock r.blocksAddr).canFree r.blocksLength = true
            · rw [if_pos hboth, dropBlock_eq] at hrun
              change (if x.set ∈ x.state.registry then _ else _) = _ at hrun
              rw [if_pos (hregistered hboth)] at hrun
              exact absurd (releaseRanks_error hrun) hfault
            · rw [if_neg hboth] at hrun
              obtain ⟨rfl, -⟩ := EStateM.Result.error.inj hrun
              exact absurd rfl hfault
          · rw [if_neg hfree] at hrun
            obtain ⟨rfl, -⟩ := EStateM.Result.error.inj hrun
            exact absurd rfl hfault

/-- A set of two ranks, whose pool is one block for each array. -/
def twoRanks : DpuSet := ⟨.ranks, 2, .block 0 0⟩

def twoRanksState : State where
  registry := [twoRanks]
  arrays array := if array = 0 then some [0, 1] else none
  blocks id := decide (id < 2)
  ranks id :=
    match id with
    | 0 => some ⟨true, .block 0 0, .block 1 0, 8⟩
    | 1 => some ⟨true, .block 0 512, .block 1 256, 8⟩
    | _ => none

/-- The view of its first rank. -/
def firstRank : Setting where
  state := twoRanksState
  registered := by
    intro d hd
    obtain rfl := List.mem_singleton.mp hd
    refine ⟨⟨0, [0, 1], rfl, rfl, by decide⟩, by decide, by decide, by decide, fun id r hfirst _ => ?_⟩
    obtain ⟨rfl, rfl⟩ : 0 = id ∧ (⟨true, .block 0 0, .block 1 0, 8⟩ : Rank) = r := by simpa using Option.some.inj hfirst
    exact ⟨.inr rfl, .inr rfl, by decide⟩
  set := { twoRanks with union := 1 }

/-- The pool is freed before the view is looked up. -/
theorem firstRank_changed : ¬Unchanged firstRank := by
  rw [unchanged_iff]
  intro h
  have hmem := ((h 0 ⟨true, .block 0 0, .block 1 0, 8⟩ rfl).1 rfl rfl).2 rfl
  exact absurd hmem (by decide)

end Unchanged

end DpuBackend.Api.SetRelease
