import DpuBackend.Lib.Slots
import Mathlib.Algebra.Order.Ring.Nat

/-
  The two registries of the process: the global list of ranks and the sets.

  The list of ranks is an array of pointers with a cursor to an empty slot. An
  insertion writes the slot and then looks for the next empty one, or doubles
  the array. The registry of sets is an array with a size and a capacity; a
  registration that finds it full doubles it. Both record the new size before
  they know that the reallocation has succeeded, and in 32 bits.

  `alwaysSound_iff` is about every run of the four operations, each with the
  outcome of the reallocation it may do: the registries are sound in every
  state if and only if each step that grows one of them gets its memory, and the
  doubled size fits. One step from a good state keeps it good under that
  condition (`Good.rankListAdd`, ..), and is not sound without it
  (`rankListAdd_unsound`, ..).

  Model (Lean)                         Source (C, api/src)
  RankList, updateNext                 dpu_rank_handler_dpu_rank_list and its size and cursor,
                                       dpu_rank_list_update_next (dpu_rank_handler_allocator.c)
  rankListAdd, rankListRemove          dpu_rank_list_add, dpu_rank_list_remove
  SetAllocator, setAllocatorRegister,  set_allocator_sets and its size and capacity (api/dpu_set.c),
  setAllocatorUnregister               set_allocator_register, set_allocator_unregister

  A rank is its address and a set its bytes. The mutexes are left out: each
  operation holds its own from its first to its last access.
-/

namespace DpuBackend.Api.Registries

open DpuBackend.Lib

/-! ## The source -/

/-- An access outside the memory allocated. -/
inductive Fault where
  | outside
deriving DecidableEq, Repr

/-- What `realloc` does: it fails, or gives an array whose new entries hold anything. -/
abbrev Realloc (α : Type) := Option (Nat → α)

/-- The entries of an array that was reallocated. -/
def resize {α : Type} (xs : List α) (junk : Nat → α) (n : Nat) : List α :=
  (List.range n).map fun i => xs.getD i (junk i)

/-- A loop over the entries below `size`. -/
def search {α : Type} (p : α → Bool) (xs : List α) (size : UInt32) : Except Fault (Option Nat) :=
  match scan p xs size.toNat 0 with
  | .ok found => .ok found
  | .error _ => .error .outside

/-- The list of ranks; `list` has the entries that are allocated. -/
structure RankList where
  list : List (Option Nat)
  nextRank : Nat
  size : UInt32

/-- The list that the constructor leaves. -/
def RankList.init : RankList := { list := [none], nextRank := 0, size := 1 }

/-- `memset` of the entries from `i` to `n`. -/
def clearFrom (xs : List (Option Nat)) (i n : Nat) : Except Fault (List (Option Nat)) :=
  if i ≤ n ∧ n ≤ xs.length then .ok (xs.take i ++ List.replicate (n - i) none ++ xs.drop n) else .error .outside

def updateNext (realloc : Realloc (Option Nat)) (l : RankList) : Except Fault (RankList × Bool) := do
  match ← search (fun rank => decide (rank = none)) l.list l.size with
  | some eachRank => .ok ({ l with nextRank := eachRank }, true)
  | none =>
    let nextRankId := l.size
    let l := { l with size := l.size * 2 + 1 }
    match realloc with
    | none => .ok (l, false)
    | some junk =>
      let list ← clearFrom (resize l.list junk l.size.toNat) nextRankId.toNat l.size.toNat
      .ok ({ l with list, nextRank := nextRankId.toNat }, true)

def rankListAdd (rank : Nat) (realloc : Realloc (Option Nat)) (l : RankList) : Except Fault (RankList × Bool) :=
  if l.nextRank < l.list.length then updateNext realloc { l with list := l.list.set l.nextRank (some rank) }
  else .error .outside

def rankListRemove (rank : Nat) (l : RankList) : Except Fault RankList := do
  match ← search (fun entry => decide (entry = some rank)) l.list l.size with
  | some eachRank => .ok { l with list := l.list.set eachRank none }
  | none => .ok l

/-- The registry of sets; `sets` has the entries that are allocated. -/
structure SetAllocator where
  sets : List Nat
  size : UInt32
  capacity : UInt32

def SetAllocator.init : SetAllocator := { sets := [], size := 0, capacity := 0 }

/-- The copy of the set into the array. -/
def SetAllocator.put (set : Nat) (r : SetAllocator) : Except Fault SetAllocator :=
  if r.size.toNat < r.sets.length then .ok { r with sets := r.sets.set r.size.toNat set, size := r.size + 1 }
  else .error .outside

/-- With `DPU_ERR_SYSTEM` as `false`. -/
def setAllocatorRegister (set : Nat) (realloc : Realloc Nat) (r : SetAllocator) : Except Fault (SetAllocator × Bool) :=
  if r.size = r.capacity then
    let r := { r with capacity := 2 * r.capacity + 2 }
    match realloc with
    | none => .ok (r, false)
    | some junk => do
      let r ← ({ r with sets := resize r.sets junk r.capacity.toNat } : SetAllocator).put set
      .ok (r, true)
  else do
    let r ← r.put set
    .ok (r, true)

/-- `memmove` of the entries behind `idx` and below `size`. -/
def closeGap (xs : List Nat) (idx size : Nat) : Except Fault (List Nat) :=
  if size ≤ xs.length then
    .ok (xs.take idx ++ ((xs.drop (idx + 1)).take (size - 1 - idx) ++ xs.drop (size - 1)))
  else .error .outside

/-- With `DPU_ERR_INVALID_DPU_SET` as `false`. -/
def setAllocatorUnregister (set : Nat) (r : SetAllocator) : Except Fault (SetAllocator × Bool) := do
  match ← search (fun allocatedSet => decide (allocatedSet = set)) r.sets r.size with
  | none => .ok (r, false)
  | some idx =>
    let sets ← if idx ≠ r.size.toNat - 1 then closeGap r.sets idx r.size.toNat else .ok r.sets
    .ok ({ r with sets, size := r.size - 1 }, true)

/-! ## Runs -/

/-- One operation, with the outcome of a reallocation. -/
inductive Op where
  | rankListAdd (rank : Nat) (realloc : Realloc (Option Nat))
  | rankListRemove (rank : Nat)
  | setAllocatorRegister (set : Nat) (realloc : Realloc Nat)
  | setAllocatorUnregister (set : Nat)

/-- The registries, and the elements whose insertion succeeded and that have
not been removed. -/
structure State where
  rankList : RankList
  setAllocator : SetAllocator
  ranks : Multiset Nat
  sets : Multiset Nat

def State.init : State := { rankList := .init, setAllocator := .init, ranks := 0, sets := 0 }

def step (s : State) : Op → Except Fault State
  | .rankListAdd rank realloc => do
    let (rankList, ok) ← rankListAdd rank realloc s.rankList
    .ok { s with rankList, ranks := if ok then rank ::ₘ s.ranks else s.ranks }
  | .rankListRemove rank => do
    let rankList ← rankListRemove rank s.rankList
    .ok { s with rankList, ranks := s.ranks.erase rank }
  | .setAllocatorRegister set realloc => do
    let (setAllocator, ok) ← setAllocatorRegister set realloc s.setAllocator
    .ok { s with setAllocator, sets := if ok then set ::ₘ s.sets else s.sets }
  | .setAllocatorUnregister set => do
    let (setAllocator, _) ← setAllocatorUnregister set s.setAllocator
    .ok { s with setAllocator, sets := s.sets.erase set }

/-- The recorded size is not above what is allocated, the cursor is at an empty
slot of the list, and the list holds each element as often as it was added and
not removed. -/
structure RankList.Sound (l : RankList) (ranks : Multiset Nat) : Prop where
  size_le : l.size.toNat ≤ l.list.length
  next_lt : l.nextRank < l.size.toNat
  next_empty : l.list[l.nextRank]? = some none
  holds : contents (l.list.take l.size.toNat) = ranks

structure SetAllocator.Sound (r : SetAllocator) (sets : Multiset Nat) : Prop where
  size_le : r.size.toNat ≤ r.sets.length
  capacity_le : r.capacity.toNat ≤ r.sets.length
  holds : Multiset.ofList (r.sets.take r.size.toNat) = sets

def State.Sound (s : State) : Prop := s.rankList.Sound s.ranks ∧ s.setAllocator.Sound s.sets

/-- No access is outside the arrays, and the registries are sound before the
first operation and after each. -/
def AlwaysSound : State → List Op → Prop
  | s, [] => s.Sound
  | s, op :: ops => s.Sound ∧ ∃ s', step s op = .ok s' ∧ AlwaysSound s' ops

/-- The slot at the cursor is the only one that is empty. -/
def RankList.LastSlot (l : RankList) : Prop := ∀ i < l.size.toNat, l.list[i]? = some none → i = l.nextRank

/-- An operation that grows a registry: the reallocation succeeds, and twice the
size fits in 32 bits. (A registry of sets of 2^32 - 2 entries records the same
number again, so there nothing happens if the reallocation fails.) -/
def Grows (s : State) : Op → Prop
  | .rankListAdd _ realloc => s.rankList.LastSlot → realloc.isSome = true ∧ s.rankList.size.toNat * 2 + 1 < 2 ^ 32
  | .setAllocatorRegister _ realloc =>
    s.setAllocator.size = s.setAllocator.capacity →
      (realloc.isSome = true ↔ 2 * s.setAllocator.capacity.toNat + 2 < 2 ^ 32)
  | _ => True

/-- Every operation of the run grows its registry only so. -/
def AlwaysGrows : State → List Op → Prop
  | _, [] => True
  | s, op :: ops => Grows s op ∧ ∀ s', step s op = .ok s' → AlwaysGrows s' ops

/-! ## The arrays -/

theorem search_within {α : Type} (p : α → Bool) {xs : List α} {size : UInt32} (h : size.toNat ≤ xs.length) :
    (∃ j x, search p xs size = .ok (some j) ∧ j < size.toNat ∧ xs[j]? = some x ∧ p x = true) ∨
      (search p xs size = .ok none ∧ ∀ j x, j < size.toNat → xs[j]? = some x → p x = false) := by
  rcases scan_within p xs size.toNat 0 (by omega) with ⟨j, x, hfound, hj, hx⟩ | ⟨hnone, hall⟩
  · exact Or.inl ⟨j, x, by rw [search, hfound], by omega, hx⟩
  · exact Or.inr ⟨by rw [search, hnone], fun j x hj hx => hall j x (Nat.zero_le j) (by omega) hx⟩

theorem length_resize {α : Type} (xs : List α) (junk : Nat → α) (n : Nat) : (resize xs junk n).length = n := by
  simp [resize]

/-- A larger array begins with the old one. -/
theorem take_resize {α : Type} {xs : List α} (junk : Nat → α) {n : Nat} (h : xs.length ≤ n) :
    (resize xs junk n).take xs.length = xs := by
  apply List.ext_getElem?
  intro i
  by_cases hi : i < xs.length
  · rw [List.getElem?_take_of_lt hi, resize, List.getElem?_map, List.getElem?_range (by omega),
      List.getElem?_eq_getElem hi]
    simp [List.getD_eq_getElem?_getD, hi]
  · rw [List.getElem?_eq_none (by rw [List.length_take, length_resize]; omega), List.getElem?_eq_none (by omega)]

/-- The array of ranks, doubled and cleared behind the old entries. -/
theorem clearFrom_resize {xs : List (Option Nat)} (junk : Nat → Option Nat) {n : Nat} (h : xs.length ≤ n) :
    clearFrom (resize xs junk n) xs.length n = .ok (xs ++ List.replicate (n - xs.length) none) := by
  have hdrop : (resize xs junk n).drop n = [] := List.drop_eq_nil_of_le (by rw [length_resize])
  rw [clearFrom, if_pos ⟨h, by rw [length_resize]⟩, take_resize junk h, hdrop, List.append_nil]

theorem pow_top {n k : Nat} (h : n = 2 ^ k) (hlt : n < 2 ^ 33) (hge : 2 ^ 32 ≤ 2 * n - 1) : n = 2 ^ 32 := by
  have hhigh : k < 33 := (Nat.pow_lt_pow_iff_right (by decide)).mp (h ▸ hlt)
  have hlow : ¬ k ≤ 31 := by
    intro hk
    have hle : 2 ^ k ≤ 2 ^ 31 := Nat.pow_le_pow_right (by decide) hk
    omega
  have hk : k = 32 := by omega
  rw [h, hk]

/-! ## The list of ranks -/

/-- What keeps the list of ranks sound: all that is recorded is allocated. -/
structure RankList.Good (l : RankList) (ranks : Multiset Nat) : Prop where
  size_eq : l.size.toNat = l.list.length
  size_pow : ∃ k, l.size.toNat + 1 = 2 ^ k
  next_empty : l.list[l.nextRank]? = some none
  holds : contents l.list = ranks

namespace RankList

variable {l l' : RankList} {ranks : Multiset Nat} {rank : Nat} {realloc : Realloc (Option Nat)} {ok : Bool}

theorem Good.next_lt (h : l.Good ranks) : l.nextRank < l.list.length := (List.getElem?_eq_some_iff.mp h.next_empty).1

theorem Good.sound (h : l.Good ranks) : l.Sound ranks where
  size_le := Nat.le_of_eq h.size_eq
  next_lt := by
    rw [h.size_eq]
    exact h.next_lt
  next_empty := h.next_empty
  holds := by rw [h.size_eq, List.take_length, h.holds]

theorem good_init : RankList.init.Good 0 where
  size_eq := rfl
  size_pow := ⟨1, rfl⟩
  next_empty := rfl
  holds := rfl

/-- The three ways of an insertion: another slot is empty, the list grows, or it
fails to. -/
theorem Good.add_cases (h : l.Good ranks) (rank : Nat) (realloc : Realloc (Option Nat)) :
    (∃ i, ¬ l.LastSlot ∧ l.list[i]? = some none ∧ i ≠ l.nextRank ∧
      rankListAdd rank realloc l =
        .ok ({ l with list := l.list.set l.nextRank (some rank), nextRank := i }, true)) ∨
    (l.LastSlot ∧ realloc = none ∧
      rankListAdd rank realloc l =
        .ok ({ l with list := l.list.set l.nextRank (some rank), size := l.size * 2 + 1 }, false)) ∨
    (l.LastSlot ∧ ∃ junk, realloc = some junk ∧
      rankListAdd rank realloc l = (do
        let list ← clearFrom (resize (l.list.set l.nextRank (some rank)) junk (l.size * 2 + 1).toNat) l.size.toNat
          (l.size * 2 + 1).toNat
        .ok ({ list, nextRank := l.size.toNat, size := l.size * 2 + 1 }, true))) := by
  have hsize : l.size.toNat ≤ (l.list.set l.nextRank (some rank)).length := by
    rw [List.length_set]
    exact Nat.le_of_eq h.size_eq
  rw [rankListAdd, if_pos h.next_lt, updateNext]
  rcases search_within (fun entry => decide (entry = none)) hsize with ⟨i, x, hfound, hi, hx, hempty⟩ | ⟨hnone, hall⟩
  · left
    have hne : i ≠ l.nextRank := by
      intro he
      rw [he, List.getElem?_set_self h.next_lt] at hx
      rw [← Option.some.inj hx] at hempty
      simp at hempty
    rw [List.getElem?_set_ne (Ne.symm hne), of_decide_eq_true hempty] at hx
    refine ⟨i, fun hlast => hne (hlast i hi hx), hx, hne, ?_⟩
    rw [hfound]
    rfl
  · right
    have hlast : l.LastSlot := by
      intro i hi hx
      by_contra hne
      have hkept : (l.list.set l.nextRank (some rank))[i]? = some none := by
        rw [List.getElem?_set_ne (Ne.symm hne), hx]
      simpa using hall i none hi hkept
    rw [hnone]
    cases realloc with
    | none => exact Or.inl ⟨hlast, rfl, rfl⟩
    | some junk => exact Or.inr ⟨hlast, junk, rfl, rfl⟩

/-- Where the doubled size fits, the list grows. -/
theorem Good.grow (h : l.Good ranks) (rank : Nat) (junk : Nat → Option Nat) (hfits : l.size.toNat * 2 + 1 < 2 ^ 32) :
    ∃ list, clearFrom (resize (l.list.set l.nextRank (some rank)) junk (l.size * 2 + 1).toNat) l.size.toNat
        (l.size * 2 + 1).toNat = .ok list ∧
      ({ list, nextRank := l.size.toNat, size := l.size * 2 + 1 } : RankList).Good (rank ::ₘ ranks) := by
  have hsize : (l.size * 2 + 1).toNat = l.size.toNat * 2 + 1 := by
    rw [UInt32.toNat_add, UInt32.toNat_mul]
    simp
    omega
  have hlength : (l.list.set l.nextRank (some rank)).length = l.size.toNat := by rw [List.length_set, h.size_eq]
  have hlarger : (l.list.set l.nextRank (some rank)).length ≤ l.size.toNat * 2 + 1 := by omega
  have hclear := clearFrom_resize junk hlarger
  rw [hlength] at hclear
  rw [hsize]
  refine ⟨_, hclear, ?_⟩
  obtain ⟨k, hk⟩ := h.size_pow
  exact
    { size_eq := by
        rw [hsize, List.length_append, hlength, List.length_replicate]
        omega
      size_pow := ⟨k + 1, by rw [hsize, Nat.pow_succ, ← hk]; omega⟩
      next_empty := by
        dsimp only
        rw [List.getElem?_append_right (by omega), hlength, Nat.sub_self, List.getElem?_replicate, if_pos (by omega)]
      holds := by
        rw [contents_append, contents_replicate_none, Multiset.add_zero, contents_fill h.next_empty, h.holds] }

theorem rankListAdd_good (h : l.Good ranks)
    (hgrows : l.LastSlot → realloc.isSome = true ∧ l.size.toNat * 2 + 1 < 2 ^ 32) :
    ∃ l', rankListAdd rank realloc l = .ok (l', true) ∧ l'.Good (rank ::ₘ ranks) := by
  rcases h.add_cases rank realloc with ⟨i, _, hi, hne, hadd⟩ | ⟨hlast, hnone, _⟩ | ⟨hlast, junk, _, hadd⟩
  · refine ⟨_, hadd, ?_⟩
    exact
      { size_eq := by rw [List.length_set, h.size_eq]
        size_pow := h.size_pow
        next_empty := by rw [List.getElem?_set_ne (Ne.symm hne), hi]
        holds := by rw [contents_fill h.next_empty, h.holds] }
  · have hsome := (hgrows hlast).1
    simp [hnone] at hsome
  · obtain ⟨list, hclear, hgood⟩ := h.grow rank junk (hgrows hlast).2
    refine ⟨_, ?_, hgood⟩
    rw [hadd, hclear]
    rfl

/-- An insertion that leaves the list sound has grown it so. -/
theorem rankListAdd_unsound (h : l.Good ranks) (hadd : rankListAdd rank realloc l = .ok (l', ok))
    {ranks' : Multiset Nat} (hsound : l'.Sound ranks') (hlast : l.LastSlot) :
    realloc.isSome = true ∧ l.size.toNat * 2 + 1 < 2 ^ 32 := by
  rcases h.add_cases rank realloc with ⟨_, hnot, _⟩ | ⟨_, _, hfail⟩ | ⟨_, junk, hsome, hgrow⟩
  · exact absurd hlast hnot
  · -- the cursor is still at the slot that was filled
    rw [hfail] at hadd
    obtain ⟨rfl, _⟩ := Prod.mk.inj (Except.ok.inj hadd)
    have hempty := hsound.next_empty
    dsimp only at hempty
    rw [List.getElem?_set_self h.next_lt] at hempty
    cases hempty
  · refine ⟨by rw [hsome]; rfl, ?_⟩
    by_contra hover
    -- the doubled size is the old one, and the cursor behind the last entry
    obtain ⟨k, hk⟩ := h.size_pow
    have h32 := l.size.toNat_lt
    have htop := pow_top hk (by omega) (by omega)
    have hsize : l.size * 2 + 1 = l.size := by
      rw [← UInt32.toNat_inj, UInt32.toNat_add, UInt32.toNat_mul]
      simp
      omega
    rw [hgrow] at hadd
    cases hclear : clearFrom (resize (l.list.set l.nextRank (some rank)) junk (l.size * 2 + 1).toNat) l.size.toNat
        (l.size * 2 + 1).toNat with
    | error e =>
      rw [hclear] at hadd
      cases hadd
    | ok list =>
      rw [hclear] at hadd
      obtain ⟨rfl, _⟩ := Prod.mk.inj (Except.ok.inj hadd)
      have hlt := hsound.next_lt
      dsimp only at hlt
      rw [hsize] at hlt
      exact absurd hlt (Nat.lt_irrefl _)

theorem rankListRemove_good (h : l.Good ranks) (rank : Nat) :
    ∃ l', rankListRemove rank l = .ok l' ∧ l'.Good (ranks.erase rank) := by
  rw [rankListRemove]
  rcases search_within (fun entry => decide (entry = some rank)) (Nat.le_of_eq h.size_eq) with
    ⟨i, x, hfound, hi, hx, hrank⟩ | ⟨hnone, hall⟩
  · have hfull : l.list[i]? = some (some rank) := by rw [hx, of_decide_eq_true hrank]
    refine ⟨{ l with list := l.list.set i none }, by rw [hfound]; rfl, ?_⟩
    exact
      { size_eq := by rw [List.length_set, h.size_eq]
        size_pow := h.size_pow
        next_empty := by
          by_cases hne : i = l.nextRank
          · rw [← hne, List.getElem?_set_self (by rw [← h.size_eq]; exact hi)]
          · rw [List.getElem?_set_ne hne, h.next_empty]
        holds := by rw [contents_empty hfull, h.holds] }
  · -- no entry is the rank: there is none to take out
    have habsent : rank ∉ ranks := by
      intro hmem
      rw [← h.holds, mem_contents] at hmem
      obtain ⟨i, hi, hx⟩ := List.getElem_of_mem hmem
      have hnot := hall i (some rank) (by rw [h.size_eq]; exact hi) (by rw [List.getElem?_eq_getElem hi, hx])
      simp at hnot
    refine ⟨l, by rw [hnone]; rfl, ?_⟩
    rw [Multiset.erase_of_notMem habsent]
    exact h

end RankList

/-! ## The registry of sets -/

/-- What keeps the registry of sets sound. -/
structure SetAllocator.Good (r : SetAllocator) (sets : Multiset Nat) : Prop where
  capacity_eq : r.capacity.toNat = r.sets.length
  capacity_pow : ∃ k, r.capacity.toNat + 2 = 2 ^ k
  size_le : r.size.toNat ≤ r.sets.length
  holds : Multiset.ofList (r.sets.take r.size.toNat) = sets

namespace SetAllocator

variable {r r' : SetAllocator} {sets : Multiset Nat} {set : Nat} {realloc : Realloc Nat} {ok : Bool}

theorem Good.sound (h : r.Good sets) : r.Sound sets where
  size_le := h.size_le
  capacity_le := Nat.le_of_eq h.capacity_eq
  holds := h.holds

theorem good_init : SetAllocator.init.Good 0 where
  capacity_eq := rfl
  capacity_pow := ⟨1, rfl⟩
  size_le := Nat.le_refl 0
  holds := rfl

/-- The copy behind the sets that are there. -/
theorem Good.put (h : r.Good sets) (set : Nat) (hroom : r.size.toNat < r.sets.length) :
    ∃ r', r.put set = .ok r' ∧ r'.Good (set ::ₘ sets) := by
  have hsize : (r.size + 1).toNat = r.size.toNat + 1 := by
    have h32 := r.capacity.toNat_lt
    have hcapacity := h.capacity_eq
    rw [UInt32.toNat_add]
    exact Nat.mod_eq_of_lt (by simp; omega)
  refine ⟨_, by rw [SetAllocator.put, if_pos hroom], ?_⟩
  exact
    { capacity_eq := by rw [List.length_set, h.capacity_eq]
      capacity_pow := h.capacity_pow
      size_le := by
        rw [hsize, List.length_set]
        exact hroom
      holds := by
        dsimp only
        have hlast : (r.sets.set r.size.toNat set)[r.size.toNat]? = some set := List.getElem?_set_self hroom
        rw [hsize, List.take_add_one, hlast, List.take_set_of_le (Nat.le_refl _), Option.toList_some,
          ← Multiset.coe_add, Multiset.add_comm, h.holds]
        rfl }

theorem register_room (h : r.Good sets) (set : Nat) (realloc : Realloc Nat) (hroom : r.size ≠ r.capacity) :
    ∃ r', setAllocatorRegister set realloc r = .ok (r', true) ∧ r'.Good (set ::ₘ sets) := by
  have hlt : r.size.toNat < r.sets.length := by
    have hne : r.size.toNat ≠ r.capacity.toNat := fun he => hroom (UInt32.toNat_inj.mp he)
    have hle := h.size_le
    have hcapacity := h.capacity_eq
    omega
  obtain ⟨r', hput, hgood⟩ := h.put set hlt
  refine ⟨r', ?_, hgood⟩
  rw [setAllocatorRegister, if_neg hroom, hput]
  rfl

/-- The larger array holds the same sets. -/
theorem Good.grow (h : r.Good sets) (junk : Nat → Nat) (hfits : 2 * r.capacity.toNat + 2 < 2 ^ 32) :
    ({ r with sets := resize r.sets junk (2 * r.capacity + 2).toNat, capacity := 2 * r.capacity + 2 } :
      SetAllocator).Good sets := by
  have hcapacity : (2 * r.capacity + 2).toNat = 2 * r.sets.length + 2 := by
    rw [UInt32.toNat_add, UInt32.toNat_mul, h.capacity_eq]
    simp
    have heq := h.capacity_eq
    omega
  obtain ⟨k, hk⟩ := h.capacity_pow
  exact
    { capacity_eq := by rw [length_resize]
      capacity_pow := ⟨k + 1, by
        have heq := h.capacity_eq
        rw [hcapacity, Nat.pow_succ, ← hk]
        omega⟩
      size_le := by
        have hle := h.size_le
        rw [length_resize, hcapacity]
        exact Nat.le_trans hle (by omega)
      holds := by
        have hkeep := take_resize junk (show r.sets.length ≤ 2 * r.sets.length + 2 by omega)
        rw [hcapacity, ← h.holds]
        dsimp only
        conv_rhs => rw [← hkeep]
        rw [List.take_take, Nat.min_eq_left h.size_le] }

/-- Where twice the capacity does not fit, it is the capacity again. -/
theorem Good.top (h : r.Good sets) (hover : ¬ 2 * r.capacity.toNat + 2 < 2 ^ 32) :
    2 * r.capacity + 2 = r.capacity := by
  obtain ⟨k, hk⟩ := h.capacity_pow
  have h32 := r.capacity.toNat_lt
  have htop := pow_top hk (by omega) (by omega)
  rw [← UInt32.toNat_inj, UInt32.toNat_add, UInt32.toNat_mul]
  simp
  omega

theorem register_good (h : r.Good sets)
    (hgrows : r.size = r.capacity → (realloc.isSome = true ↔ 2 * r.capacity.toNat + 2 < 2 ^ 32)) :
    ∃ r' ok, setAllocatorRegister set realloc r = .ok (r', ok) ∧ r'.Good (if ok then set ::ₘ sets else sets) := by
  by_cases hfull : r.size = r.capacity
  · cases hrealloc : realloc with
    | none =>
      have hover : ¬ 2 * r.capacity.toNat + 2 < 2 ^ 32 := by
        intro hfits
        have hsome := (hgrows hfull).mpr hfits
        simp [hrealloc] at hsome
      refine ⟨{ r with capacity := 2 * r.capacity + 2 }, false, by rw [setAllocatorRegister, if_pos hfull], ?_⟩
      rw [h.top hover]
      exact h
    | some junk =>
      have hfits := (hgrows hfull).mp (by rw [hrealloc]; rfl)
      have hgrown := h.grow junk hfits
      have hroom : r.size.toNat < (2 * r.capacity + 2).toNat := by
        rw [UInt32.toNat_add, UInt32.toNat_mul, hfull]
        simp
        omega
      obtain ⟨r', hput, hgood⟩ := hgrown.put set (by rw [length_resize]; exact hroom)
      refine ⟨r', true, ?_, hgood⟩
      rw [setAllocatorRegister, if_pos hfull]
      dsimp only
      rw [hput]
      rfl
  · obtain ⟨r', hreg, hgood⟩ := register_room h set realloc hfull
    exact ⟨r', true, hreg, hgood⟩

theorem register_unsound (h : r.Good sets) (hreg : setAllocatorRegister set realloc r = .ok (r', ok))
    {sets' : Multiset Nat} (hsound : r'.Sound sets') (hfull : r.size = r.capacity) :
    realloc.isSome = true ↔ 2 * r.capacity.toNat + 2 < 2 ^ 32 := by
  rw [setAllocatorRegister, if_pos hfull] at hreg
  cases hrealloc : realloc with
  | none =>
    rw [hrealloc] at hreg
    obtain ⟨rfl, _⟩ := Prod.mk.inj (Except.ok.inj hreg)
    have hle := hsound.capacity_le
    dsimp only at hle
    rw [← h.capacity_eq, UInt32.toNat_add, UInt32.toNat_mul] at hle
    simp at hle
    simp
    omega
  | some junk =>
    rw [hrealloc] at hreg
    simp only [Option.isSome_some, true_iff]
    by_contra hover
    -- the array has the entries it had, and the set goes behind the last
    have hfault : ({ r with sets := resize r.sets junk (2 * r.capacity + 2).toNat, capacity := 2 * r.capacity + 2 } :
        SetAllocator).put set = .error .outside := by
      rw [SetAllocator.put, if_neg]
      dsimp only
      rw [length_resize, h.top hover, hfull]
      exact Nat.lt_irrefl _
    dsimp only at hreg
    rw [hfault] at hreg
    cases hreg

/-- The sets below the size, with the one at `idx` taken out. -/
theorem closeGap_take {xs : List Nat} {idx size : Nat} (hidx : idx < size) (hsize : size ≤ xs.length) :
    ∃ ys, closeGap xs idx size = .ok ys ∧ ys.length = xs.length ∧ ys.take (size - 1) = (xs.take size).eraseIdx idx := by
  refine ⟨_, if_pos hsize, ?_, ?_⟩
  · simp only [List.length_append, List.length_take, List.length_drop]
    omega
  · have hkept : (xs.take idx ++ (xs.drop (idx + 1)).take (size - 1 - idx)).length = size - 1 := by
      simp only [List.length_append, List.length_take, List.length_drop]
      omega
    calc (xs.take idx ++ ((xs.drop (idx + 1)).take (size - 1 - idx) ++ xs.drop (size - 1))).take (size - 1)
        = xs.take idx ++ (xs.drop (idx + 1)).take (size - 1 - idx) := by
          rw [← List.append_assoc, List.take_left' hkept]
      _ = (xs.take size).eraseIdx idx := by
          rw [List.eraseIdx_eq_take_drop_succ, List.take_take, Nat.min_eq_left (Nat.le_of_lt hidx), List.drop_take,
            Nat.sub_sub, Nat.add_comm 1 idx]

theorem unregister_good (h : r.Good sets) (set : Nat) :
    ∃ r' ok, setAllocatorUnregister set r = .ok (r', ok) ∧ r'.Good (sets.erase set) := by
  rw [setAllocatorUnregister]
  rcases search_within (fun allocatedSet => decide (allocatedSet = set)) h.size_le with
    ⟨idx, x, hfound, hidx, hx, hset⟩ | ⟨hnone, hall⟩
  · have hentry : r.sets[idx]? = some set := by rw [hx, of_decide_eq_true hset]
    have hsize : (r.size - 1).toNat = r.size.toNat - 1 := by
      rw [UInt32.toNat_sub_of_le]
      · rfl
      · rw [UInt32.le_iff_toNat_le]
        exact Nat.succ_le_of_lt (Nat.lt_of_le_of_lt (Nat.zero_le idx) hidx)
    have htaken : (r.sets.take r.size.toNat)[idx]? = some set := by rw [List.getElem?_take_of_lt hidx, hentry]
    have herase : Multiset.ofList ((r.sets.take r.size.toNat).eraseIdx idx) = sets.erase set := by
      rw [coe_eraseIdx htaken, h.holds]
    by_cases hlast : idx ≠ r.size.toNat - 1
    · obtain ⟨ys, hgap, hlength, htake⟩ := closeGap_take hidx h.size_le
      refine ⟨{ r with sets := ys, size := r.size - 1 }, true, ?_, ?_⟩
      · rw [hfound]
        dsimp only [bind, Except.bind]
        rw [if_pos hlast, hgap]
      · exact
          { capacity_eq := by rw [hlength, h.capacity_eq]
            capacity_pow := h.capacity_pow
            size_le := by
              have hle := h.size_le
              rw [hsize, hlength]
              omega
            holds := by rw [hsize, htake, herase] }
    · refine ⟨{ r with size := r.size - 1 }, true, ?_, ?_⟩
      · rw [hfound]
        dsimp only [bind, Except.bind]
        rw [if_neg hlast]
      · exact
          { capacity_eq := h.capacity_eq
            capacity_pow := h.capacity_pow
            size_le := by
              rw [hsize]
              exact Nat.le_trans (Nat.sub_le _ 1) h.size_le
            holds := by
              have hend : (r.sets.take r.size.toNat).length ≤ idx + 1 := by
                rw [List.length_take]
                omega
              rw [← herase, List.eraseIdx_eq_take_drop_succ, List.drop_eq_nil_of_le hend, List.append_nil,
                List.take_take, hsize]
              congr 2
              omega }
  · have habsent : set ∉ sets := by
      intro hmem
      rw [← h.holds, Multiset.mem_coe] at hmem
      obtain ⟨i, hi, hx⟩ := List.getElem_of_mem hmem
      rw [List.length_take] at hi
      have hnot := hall i set (by omega) (by
        rw [← List.getElem?_take_of_lt (show i < r.size.toNat by omega), List.getElem?_eq_some_iff]
        exact ⟨_, hx⟩)
      simp at hnot
    refine ⟨r, false, by rw [hnone]; rfl, ?_⟩
    rw [Multiset.erase_of_notMem habsent]
    exact h

end SetAllocator

/-! ## Runs -/

/-- The invariant of both. -/
structure State.Good (s : State) : Prop where
  rankList : s.rankList.Good s.ranks
  setAllocator : s.setAllocator.Good s.sets

theorem State.Good.sound {s : State} (h : s.Good) : s.Sound := ⟨h.rankList.sound, h.setAllocator.sound⟩

theorem good_init : State.init.Good := ⟨RankList.good_init, SetAllocator.good_init⟩

/-- A step that grows nothing, or grows it so, keeps the invariant. -/
theorem step_good {s : State} (h : s.Good) {op : Op} (hgrows : Grows s op) : ∃ s', step s op = .ok s' ∧ s'.Good := by
  cases op with
  | rankListAdd rank realloc =>
    obtain ⟨l', hadd, hgood⟩ := RankList.rankListAdd_good h.rankList hgrows
    exact ⟨{ s with rankList := l', ranks := rank ::ₘ s.ranks }, by rw [step, hadd]; rfl, ⟨hgood, h.setAllocator⟩⟩
  | rankListRemove rank =>
    obtain ⟨l', hremove, hgood⟩ := RankList.rankListRemove_good h.rankList rank
    exact ⟨{ s with rankList := l', ranks := s.ranks.erase rank }, by rw [step, hremove]; rfl, ⟨hgood, h.setAllocator⟩⟩
  | setAllocatorRegister set realloc =>
    obtain ⟨r', ok, hreg, hgood⟩ := SetAllocator.register_good h.setAllocator hgrows
    refine ⟨{ s with setAllocator := r', sets := if ok then set ::ₘ s.sets else s.sets }, ?_, ⟨h.rankList, hgood⟩⟩
    rw [step, hreg]
    rfl
  | setAllocatorUnregister set =>
    obtain ⟨r', ok, hunreg, hgood⟩ := SetAllocator.unregister_good h.setAllocator set
    refine ⟨{ s with setAllocator := r', sets := s.sets.erase set }, ?_, ⟨h.rankList, hgood⟩⟩
    rw [step, hunreg]
    rfl

/-- A step that leaves the registries sound grows nothing, or grows it so. -/
theorem step_grows {s s' : State} (h : s.Good) {op : Op} (hstep : step s op = .ok s') (hsound : s'.Sound) :
    Grows s op := by
  cases op with
  | rankListAdd rank realloc =>
    cases hadd : rankListAdd rank realloc s.rankList with
    | error e =>
      rw [step, hadd] at hstep
      cases hstep
    | ok out =>
      rw [step, hadd] at hstep
      obtain rfl := Except.ok.inj hstep
      exact RankList.rankListAdd_unsound h.rankList hadd hsound.1
  | rankListRemove rank => trivial
  | setAllocatorRegister set realloc =>
    cases hreg : setAllocatorRegister set realloc s.setAllocator with
    | error e =>
      rw [step, hreg] at hstep
      cases hstep
    | ok out =>
      rw [step, hreg] at hstep
      obtain rfl := Except.ok.inj hstep
      exact SetAllocator.register_unsound h.setAllocator hreg hsound.2
  | setAllocatorUnregister set => trivial

theorem alwaysSound_of_good : ∀ (ops : List Op) {s : State}, s.Good → (AlwaysSound s ops ↔ AlwaysGrows s ops)
  | [], _, h => ⟨fun _ => trivial, fun _ => h.sound⟩
  | op :: ops, s, h => by
    constructor
    · intro ⟨_, s', hstep, hrest⟩
      have hsound : s'.Sound := by
        cases ops with
        | nil => exact hrest
        | cons => exact hrest.1
      have hgrows := step_grows h hstep hsound
      refine ⟨hgrows, ?_⟩
      intro s'' hstep'
      obtain ⟨s₁, hstep₁, hgood⟩ := step_good h hgrows
      rw [hstep₁] at hstep hstep'
      rw [← Except.ok.inj hstep'] at *
      rw [← Except.ok.inj hstep] at hrest
      exact (alwaysSound_of_good ops hgood).mp hrest
    · intro ⟨hgrows, hrest⟩
      obtain ⟨s', hstep, hgood⟩ := step_good h hgrows
      exact ⟨h.sound, s', hstep, (alwaysSound_of_good ops hgood).mpr (hrest s' hstep)⟩

/-- From the registries of a new process: every run is sound throughout if and
only if each growth in it gets the memory for a size that fits. -/
theorem alwaysSound_iff (ops : List Op) : AlwaysSound State.init ops ↔ AlwaysGrows State.init ops :=
  alwaysSound_of_good ops good_init

/-- The first rank, with no memory for a second: the insertion fails, the rank
is in the list, and three entries are recorded where one is allocated. -/
theorem rankListAdd_failed :
    rankListAdd 7 none RankList.init = .ok ({ list := [some 7], nextRank := 0, size := 3 }, false) ∧
      ¬ AlwaysSound State.init [.rankListAdd 7 none] := by
  refine ⟨rfl, ?_⟩
  intro ⟨_, s', hstep, hsound⟩
  obtain rfl := Except.ok.inj hstep
  exact absurd hsound.1.size_le (by decide)

end DpuBackend.Api.Registries
