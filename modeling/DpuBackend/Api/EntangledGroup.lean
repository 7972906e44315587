import Mathlib.Data.List.Basic
import Mathlib.Data.List.Nodup
import Mathlib.Data.List.Sort
import Mathlib.Tactic.Common
import Mathlib.Algebra.Order.Ring.Nat

/-
  The DPUs of a set, in the order of the entangled groups.

  C ↔ Lean (src/api/src/api/dpu_set.c, src/api/include/api/dpu.h):
    struct dpu_set_t                               ↔ DpuSet
    the topology and `dpus[i].enabled` of a rank   ↔ SetRank
    dpu_set_rank_iterator_from, .._next            ↔ rankIteratorFrom, rankIteratorNext
    advance_to_next_dpu_in_rank_list               ↔ advanceToNextDpuInRankList
    advance_to_next_dpu_in_rank_list_rotate_group  ↔ advanceToNextDpuInRankListRotateGroup
    dpu_set_dpu_iterator_from                      ↔ dpuIteratorFrom
    dpu_set_dpu_iterator_next_entangled_group      ↔ dpuIteratorNextEntangledGroup
    DPU_FOREACH_ENTANGLED_GROUP                    ↔ forEachEntangledGroup

  A DPU is the place of its rank in the set and its index in `rank->dpus`. The two functions that
  advance differ in the index they read at position `dpu_idx`: the first reads `dpu_idx` itself,
  the second `(dpu_idx % 8) * 8 + dpu_idx / 8`. What the second computes from `cube_size` it
  does not use. Both compute the number of positions once, from the rank the search begins in, and
  keep it in the ranks behind, which may have more DPUs or fewer.
-/

namespace DpuBackend.Api

/-- The topology of a rank and which of its DPUs are enabled. -/
structure SetRank where
  nrCis : Nat
  nrDpusPerCi : Nat
  enabled : Nat → Bool
  /-- `DPU_MAX_NR_CIS` and `DPU_MAX_NR_DPUS_PER_CI` -/
  nrCis_le : nrCis ≤ 8
  nrDpusPerCi_le : nrDpusPerCi ≤ 8

def SetRank.nrDpus (r : SetRank) : Nat := r.nrCis * r.nrDpusPerCi

structure SetDpu where
  rank : Nat
  dpu : Nat
  deriving DecidableEq, Repr

inductive DpuSet where
  | ranks (list : List SetRank)
  | dpu (d : SetDpu)

structure RankIterator where
  count : Nat
  nextIdx : Nat
  hasNext : Bool
  /-- the place of `*next.list.ranks` -/
  next : Nat
  deriving DecidableEq, Repr

structure DpuIterator where
  rankIterator : RankIterator
  count : Nat
  nextIdx : Nat
  hasNext : Bool
  next : SetDpu
  deriving DecidableEq, Repr

/-! ## Ranks -/

def rankIteratorFrom : DpuSet → RankIterator
  | .ranks list => ⟨0, 1, list.length ≠ 0, 0⟩
  | .dpu d => ⟨0, 1, true, d.rank⟩

/-- `dpu_set_rank_iterator_next`, for a set of `nrRanks` ranks. -/
def rankIteratorNext (nrRanks : Nat) (it : RankIterator) : RankIterator :=
  let it := { it with count := (it.count + 1) % 2 ^ 32 }
  if !it.hasNext then it
  else if it.nextIdx < nrRanks then { it with hasNext := true, next := it.nextIdx, nextIdx := it.nextIdx + 1 }
  else { it with hasNext := false }

/-! ## DPUs -/

/-- The loop over `dpu_idx`, with `left` positions to go: the first one whose DPU is enabled, if there
is one; `none` where the loop reads behind `rank->dpus`. -/
def nextEnabled (order : Nat → Nat) (r : SetRank) (dpuIdx : Nat) : Nat → Option (Option Nat)
  | 0 => some none
  | left + 1 =>
    if r.nrDpus ≤ order dpuIdx then none
    else if r.enabled (order dpuIdx) then some (some dpuIdx)
    else nextEnabled order r (dpuIdx + 1) left

/-- The loop over the ranks, which ends with the last one: `nrDpus` is that of the rank where it begins, and
`fuel` bounds the rounds. -/
def advanceInRankList (order : Nat → Nat) (list : List SetRank) (nrDpus : Nat) :
    Nat → Nat → DpuIterator → Option DpuIterator
  | 0, _, _ => none
  | fuel + 1, dpuIdx, it =>
    match list[it.rankIterator.next]? with
    | none => none
    | some rank =>
      match nextEnabled order rank dpuIdx (nrDpus - dpuIdx) with
      | none => none
      | some (some idx) => some { it with hasNext := true, nextIdx := idx + 1, next := ⟨it.rankIterator.next, order idx⟩ }
      | some none =>
        let rankIterator := rankIteratorNext list.length it.rankIterator
        if rankIterator.hasNext then advanceInRankList order list nrDpus fuel 0 { it with rankIterator := rankIterator }
        else some { it with rankIterator := rankIterator, hasNext := false }

/-- What the two functions have in common. -/
def advanceToNext (order : Nat → Nat) (list : List SetRank) (it : DpuIterator) : Option DpuIterator :=
  (list[it.rankIterator.next]?).bind fun rank => advanceInRankList order list rank.nrDpus list.length it.nextIdx it

def advanceToNextDpuInRankList (list : List SetRank) (it : DpuIterator) : Option DpuIterator := advanceToNext id list it

/-- The index that is read at position `i`. -/
def transposed (i : Nat) : Nat := i % 8 * 8 + i / 8

def advanceToNextDpuInRankListRotateGroup (list : List SetRank) (it : DpuIterator) : Option DpuIterator :=
  advanceToNext transposed list it

/-- `next` and `next_idx` of the C iterator are not initialised where there is no DPU. -/
def dpuIteratorFrom (set : DpuSet) : Option DpuIterator :=
  let it : DpuIterator := ⟨rankIteratorFrom set, 0, 0, false, ⟨0, 0⟩⟩
  if !it.rankIterator.hasNext then some it
  else
    match set with
    | .ranks list => advanceToNextDpuInRankList list it
    | .dpu d => some { it with hasNext := true, next := d }

def dpuIteratorNextEntangledGroup (set : DpuSet) (it : DpuIterator) : Option DpuIterator :=
  let it := { it with count := (it.count + 1) % 2 ^ 32 }
  if !it.hasNext then some it
  else
    match set with
    | .ranks list => advanceToNextDpuInRankListRotateGroup list it
    | .dpu _ => some { it with hasNext := false }

/-- The DPUs that the body of the `for` sees from `it` on, if the loop ends within `fuel` rounds and
reads no more than the arrays hold. -/
def forEachFrom (set : DpuSet) : Nat → DpuIterator → Option (List SetDpu)
  | fuel, it =>
    if !it.hasNext then some []
    else
      match fuel with
      | 0 => none
      | fuel + 1 => (dpuIteratorNextEntangledGroup set it).bind fun it' => (forEachFrom set fuel it').map (it.next :: ·)

/-- `DPU_FOREACH_ENTANGLED_GROUP`, for `fuel` rounds at most. -/
def forEachEntangledGroup (set : DpuSet) (fuel : Nat) : Option (List SetDpu) :=
  (dpuIteratorFrom set).bind (forEachFrom set fuel)

/-! ## What the macro is for -/

/-- The enabled DPUs of a rank in the transposed order. -/
def SetRank.groups (r : SetRank) : List Nat :=
  ((List.range 64).map transposed).filter fun d => d < r.nrDpus && r.enabled d

/-- The same for a list of ranks, the first of which is at place `k`, rank by rank. -/
def groupsFrom : Nat → List SetRank → List SetDpu
  | _, [] => []
  | k, r :: rest => r.groups.map (SetDpu.mk k) ++ groupsFrom (k + 1) rest

/-- The macro ends, and its body has seen the DPUs in this order. -/
def VisitsGroups (list : List SetRank) : Prop :=
  ∃ fuel, forEachEntangledGroup (.ranks list) fuel = some (groupsFrom 0 list)

/-! ## The transposed order -/

theorem transposed_lt {i : Nat} (h : i < 64) : transposed i < 64 := by
  unfold transposed
  omega

theorem transposed_transposed {i : Nat} (h : i < 64) : transposed (transposed i) = i := by
  unfold transposed
  omega

/-- One index comes before another. -/
def Before (a b : Nat) : Prop := transposed a < transposed b

instance : Std.Irrefl Before := ⟨fun a => Nat.lt_irrefl (transposed a)⟩

instance : Std.Antisymm Before := ⟨fun _ _ hab hba => absurd hab (Nat.lt_asymm hba)⟩

theorem SetRank.nrDpus_le (r : SetRank) : r.nrDpus ≤ 64 := Nat.mul_le_mul r.nrCis_le r.nrDpusPerCi_le

/-- The indexes at a run of positions are in order. -/
theorem pairwise_transposed {a m : Nat} (h : a + m ≤ 64) : ((List.range' a m).map transposed).Pairwise Before := by
  rw [List.pairwise_map]
  refine (List.pairwise_lt_range' (s := a) (n := m)).imp_of_mem fun {i j} hi hj hij => ?_
  have hi := List.mem_range'_1.1 hi
  have hj := List.mem_range'_1.1 hj
  rw [Before, transposed_transposed (by omega), transposed_transposed (by omega)]
  exact hij

namespace SetRank

variable (r : SetRank) {d : Nat}

theorem mem_groups : d ∈ r.groups ↔ d < r.nrDpus ∧ r.enabled d = true := by
  have hle := r.nrDpus_le
  simp only [groups, List.mem_filter, List.mem_map, List.mem_range, Bool.and_eq_true, decide_eq_true_eq]
  constructor
  · exact fun h => h.2
  · exact fun h => ⟨⟨transposed d, transposed_lt (by omega), transposed_transposed (by omega)⟩, h⟩

theorem groups_pairwise : r.groups.Pairwise Before := by
  refine List.Pairwise.filter _ ?_
  rw [List.range_eq_range']
  exact pairwise_transposed (Nat.le_refl 64)

/-- `first` is the first enabled DPU in the transposed order, and the positions behind `p`, which are left
once it has been found there, are those of the other enabled DPUs and of no more. -/
structure LeadsGroups (p first : Nat) : Prop where
  before : ∀ d < r.nrDpus, r.enabled d = true → d ≠ first → Before first d
  behind : ∀ d < r.nrDpus, r.enabled d = true → d ≠ first → p < transposed d ∧ transposed d < r.nrDpus
  once : transposed first ≤ p ∨ r.nrDpus ≤ transposed first
  closed : ∀ i, p < i → i < r.nrDpus → transposed i < r.nrDpus

end SetRank

/-- The ranks behind one that has been visited, into which its number of DPUs is taken along as `n`: that
many positions are looked at until there is a DPU, and then as many as its own rank has DPUs. -/
def GroupsFollow : Nat → List SetRank → Prop
  | _, [] => True
  | n, r :: rest =>
    match r.groups with
    | [] => (∀ i < n, transposed i < r.nrDpus) ∧ GroupsFollow n rest
    | first :: _ =>
      transposed first < n ∧ (∀ i < transposed first, transposed i < r.nrDpus) ∧
        r.LeadsGroups (transposed first) first ∧ GroupsFollow r.nrDpus rest

/-- The ranks up to the first one with an enabled DPU, whose lowest one leads it, and those behind. -/
def GroupsLead (n : Nat) : List SetRank → Prop
  | [] => True
  | r :: rest =>
    match (List.range r.nrDpus).find? r.enabled with
    | none => n ≤ r.nrDpus ∧ GroupsLead n rest
    | some first => first < n ∧ r.LeadsGroups first first ∧ GroupsFollow r.nrDpus rest

/-- The number of positions that a search from the first of these ranks on looks at. -/
def positions : List SetRank → Nat
  | [] => 0
  | r :: _ => r.nrDpus

def GroupsAgree (list : List SetRank) : Prop := GroupsLead (positions list) list

/-! ## One rank -/

/-- The enabled DPUs at the `left` positions from `i` on; `none` where one is behind the array. -/
def SetRank.scan (r : SetRank) (i : Nat) : Nat → Option (List Nat)
  | 0 => some []
  | left + 1 =>
    if r.nrDpus ≤ transposed i then none
    else if r.enabled (transposed i) then (r.scan (i + 1) left).map (transposed i :: ·)
    else r.scan (i + 1) left

namespace SetRank

variable (r : SetRank) {first : Nat}

theorem scan_eq_some {i left : Nat} {l : List Nat} :
    r.scan i left = some l ↔ (∀ j, i ≤ j → j < i + left → transposed j < r.nrDpus) ∧
      l = ((List.range' i left).map transposed).filter r.enabled := by
  induction left generalizing i l with
  | zero =>
    rw [scan, Option.some.injEq]
    constructor
    · rintro rfl
      exact ⟨fun j _ _ => by omega, rfl⟩
    · exact fun h => h.2.symm
  | succ left ih =>
    have hstep : (∀ j, i ≤ j → j < i + (left + 1) → transposed j < r.nrDpus) ↔
        transposed i < r.nrDpus ∧ ∀ j, i + 1 ≤ j → j < i + 1 + left → transposed j < r.nrDpus := by
      constructor
      · exact fun h => ⟨h i (by omega) (by omega), fun j _ _ => h j (by omega) (by omega)⟩
      · intro h j _ _
        by_cases hj : j = i
        · exact hj ▸ h.1
        · exact h.2 j (by omega) (by omega)
    rw [scan, hstep, List.range'_succ, List.map_cons]
    by_cases hin : transposed i < r.nrDpus
    · rw [if_neg (by omega)]
      by_cases hen : r.enabled (transposed i) = true
      · rw [if_pos hen, List.filter_cons_of_pos hen, Option.map_eq_some_iff]
        constructor
        · rintro ⟨l, hl, rfl⟩
          obtain ⟨hall, rfl⟩ := ih.1 hl
          exact ⟨⟨hin, hall⟩, rfl⟩
        · rintro ⟨⟨-, hall⟩, rfl⟩
          exact ⟨_, ih.2 ⟨hall, rfl⟩, rfl⟩
      · rw [if_neg hen, List.filter_cons_of_neg hen, ih]
        exact ⟨fun h => ⟨⟨hin, h.1⟩, h.2⟩, fun h => ⟨h.1.2, h.2⟩⟩
    · rw [if_pos (by omega)]
      constructor
      · nofun
      · exact fun h => absurd h.1.1 hin

theorem pairwise_scan {i left : Nat} {l : List Nat} (hle : i + left ≤ 64) (h : r.scan i left = some l) :
    l.Pairwise Before := by
  rw [(r.scan_eq_some.1 h).2]
  exact (pairwise_transposed hle).filter _

theorem mem_scan {i left : Nat} {l : List Nat} (hle : i + left ≤ 64) (h : r.scan i left = some l) {d : Nat} :
    d ∈ l ↔ d < r.nrDpus ∧ r.enabled d = true ∧ i ≤ transposed d ∧ transposed d < i + left := by
  obtain ⟨hall, rfl⟩ := r.scan_eq_some.1 h
  have hn := r.nrDpus_le
  simp only [List.mem_filter, List.mem_map, List.mem_range'_1]
  constructor
  · rintro ⟨⟨j, ⟨hij, hj⟩, rfl⟩, hen⟩
    rw [transposed_transposed (by omega)]
    exact ⟨hall j hij hj, hen, hij, hj⟩
  · rintro ⟨hd, hen, hlow, hhigh⟩
    exact ⟨⟨transposed d, ⟨hlow, hhigh⟩, transposed_transposed (by omega)⟩, hen⟩

/-- The positions behind `p` give the other enabled DPUs in order if `first` leads the rank from there. -/
theorem scan_behind_iff {p : Nat} (hp : p < 64) (hfirst : first < r.nrDpus) (hen : r.enabled first = true) :
    (∃ l, r.scan (p + 1) (r.nrDpus - (p + 1)) = some l ∧ first :: l = r.groups) ↔ r.LeadsGroups p first := by
  have hn := r.nrDpus_le
  constructor
  · rintro ⟨l, hl, hgroups⟩
    have hpair := r.groups_pairwise
    rw [← hgroups, List.pairwise_cons] at hpair
    have hmem : ∀ d < r.nrDpus, r.enabled d = true → d ≠ first → d ∈ l := by
      intro d hd hden hne
      have hd' : d ∈ first :: l := hgroups ▸ r.mem_groups.2 ⟨hd, hden⟩
      exact (List.mem_cons.1 hd').resolve_left hne
    refine ⟨?_, ?_, ?_, ?_⟩
    · exact fun d hd hden hne => hpair.1 d (hmem d hd hden hne)
    · intro d hd hden hne
      have hd' := (r.mem_scan (by omega) hl).1 (hmem d hd hden hne)
      exact ⟨by omega, by omega⟩
    · by_contra hnot
      -- the first DPU would be seen a second time
      have hagain : first ∈ l := (r.mem_scan (by omega) hl).2 ⟨hfirst, hen, by omega, by omega⟩
      exact absurd (hpair.1 first hagain) (Nat.lt_irrefl _)
    · intro i hi hin
      exact (r.scan_eq_some.1 hl).1 i (by omega) (by omega)
  · intro hlead
    have hscan : r.scan (p + 1) (r.nrDpus - (p + 1)) =
        some (((List.range' (p + 1) (r.nrDpus - (p + 1))).map transposed).filter r.enabled) :=
      r.scan_eq_some.2 ⟨fun j hj hj' => hlead.closed j (by omega) (by omega), rfl⟩
    generalize ((List.range' (p + 1) (r.nrDpus - (p + 1))).map transposed).filter r.enabled = l at hscan
    have hmem : ∀ d, d ∈ l ↔ d < r.nrDpus ∧ r.enabled d = true ∧ d ≠ first := by
      intro d
      rw [r.mem_scan (by omega) hscan]
      constructor
      · rintro ⟨hd, hden, hlow, hhigh⟩
        refine ⟨hd, hden, ?_⟩
        rintro rfl
        have := hlead.once
        omega
      · rintro ⟨hd, hden, hne⟩
        have := hlead.behind d hd hden hne
        exact ⟨hd, hden, by omega, by omega⟩
    refine ⟨l, hscan, ?_⟩
    apply List.Pairwise.eq_of_mem_iff ?_ r.groups_pairwise
    · intro d
      rw [List.mem_cons, hmem, r.mem_groups]
      by_cases hd : d = first
      · subst hd
        simp [hfirst, hen]
      · simp [hd]
    · rw [List.pairwise_cons]
      refine ⟨fun d hd => ?_, r.pairwise_scan (by omega) hscan⟩
      obtain ⟨hd, hden, hne⟩ := (hmem d).1 hd
      exact hlead.before d hd hden hne

end SetRank

/-! ## The ranks -/

/-- The first position, from `a` in rank `k` on, whose DPU is enabled; `n` positions are looked at in each rank. -/
def firstFound (order : Nat → Nat) (n : Nat) : Nat → List SetRank → Nat → Option (Option (Nat × Nat))
  | _, [], _ => some none
  | k, r :: rest, a =>
    match nextEnabled order r a (n - a) with
    | none => none
    | some (some idx) => some (some (k, idx))
    | some none => firstFound order n (k + 1) rest 0

/-- The rank iterator is at its rank, and goes on with the next one. -/
structure DpuIterator.At (list : List SetRank) (it : DpuIterator) : Prop where
  hasNext : it.rankIterator.hasNext = true
  nextIdx : it.rankIterator.nextIdx = it.rankIterator.next + 1
  lt : it.rankIterator.next < list.length

/-- What comes of advancing, for what there is to find. -/
def Advanced (order : Nat → Nat) (list : List SetRank) (result : Option DpuIterator) :
    Option (Option (Nat × Nat)) → Prop
  | none => result = none
  | some none => ∃ it, result = some it ∧ it.hasNext = false
  | some (some (k, idx)) => ∃ it, result = some it ∧ it.At list ∧ it.hasNext = true ∧ it.rankIterator.next = k ∧
      it.next = ⟨k, order idx⟩ ∧ it.nextIdx = idx + 1

section

variable {order : Nat → Nat} {list : List SetRank}

theorem advance_spec {n fuel a : Nat} {it : DpuIterator} (hat : it.At list)
    (hfuel : list.length ≤ it.rankIterator.next + fuel) :
    Advanced order list (advanceInRankList order list n fuel a it)
      (firstFound order n it.rankIterator.next (list.drop it.rankIterator.next) a) := by
  induction fuel generalizing a it with
  | zero =>
    have := hat.lt
    omega
  | succ fuel ih =>
    have hlt := hat.lt
    rw [advanceInRankList, List.drop_eq_getElem_cons hlt, List.getElem?_eq_getElem hlt, firstFound]
    dsimp only
    generalize list[it.rankIterator.next] = rank
    generalize nextEnabled order rank a _ = found
    match found with
    | none => exact rfl
    | some (some idx) => exact ⟨_, rfl, ⟨hat.hasNext, hat.nextIdx, hlt⟩, rfl, rfl, rfl, rfl⟩
    | some none =>
      dsimp only
      have hnext : rankIteratorNext list.length it.rankIterator =
          if it.rankIterator.next + 1 < list.length then
            ⟨(it.rankIterator.count + 1) % 2 ^ 32, it.rankIterator.next + 1 + 1, true, it.rankIterator.next + 1⟩
          else ⟨(it.rankIterator.count + 1) % 2 ^ 32, it.rankIterator.next + 1, false, it.rankIterator.next⟩ := by
        simp [rankIteratorNext, hat.hasNext, hat.nextIdx]
      rw [hnext]
      by_cases hmore : it.rankIterator.next + 1 < list.length
      · rw [if_pos hmore, if_pos rfl]
        exact ih ⟨rfl, rfl, hmore⟩ (by dsimp only; omega)
      · rw [if_neg hmore, if_neg (by simp), List.drop_eq_nil_of_le (by omega), firstFound]
        exact ⟨_, rfl, rfl⟩

/-- A search from position `a` of rank `k`. -/
def search (order : Nat → Nat) (list : List SetRank) (k a : Nat) : Option (Option (Nat × Nat)) :=
  firstFound order (positions (list.drop k)) k (list.drop k) a

/-- A search takes along the number of DPUs of the rank that it begins in. -/
theorem advanceToNext_spec {it : DpuIterator} (hat : it.At list) :
    Advanced order list (advanceToNext order list it) (search order list it.rankIterator.next it.nextIdx) := by
  have hbegins : advanceToNext order list it =
      advanceInRankList order list (positions (list.drop it.rankIterator.next)) list.length it.nextIdx it := by
    rw [advanceToNext, List.getElem?_eq_getElem hat.lt, List.drop_eq_getElem_cons hat.lt]
    rfl
  rw [hbegins]
  exact advance_spec hat (Nat.le_add_left _ _)

/-- All DPUs from position `a` in rank `k` on, where the first one is looked for in this order and at `n`
positions of each rank. -/
def visitsFrom (order : Nat → Nat) (n : Nat) : Nat → List SetRank → Nat → Option (List SetDpu)
  | _, [], _ => some []
  | k, r :: rest, a =>
    (nextEnabled order r a (n - a)).bind fun found =>
      match found with
      | none => visitsFrom order n (k + 1) rest 0
      | some idx =>
        (r.scan (idx + 1) (r.nrDpus - (idx + 1))).bind fun l =>
          (visitsFrom transposed r.nrDpus (k + 1) rest 0).map ((order idx :: l).map (SetDpu.mk k) ++ ·)

theorem scan_nextEnabled (r : SetRank) (a left : Nat) :
    r.scan a left = (nextEnabled transposed r a left).bind fun found =>
      match found with
      | none => some []
      | some idx => (r.scan (idx + 1) (a + left - (idx + 1))).map (transposed idx :: ·) := by
  induction left generalizing a with
  | zero => rfl
  | succ left ih =>
    rw [SetRank.scan, nextEnabled]
    by_cases hout : r.nrDpus ≤ transposed a
    · rw [if_pos hout, if_pos hout]
      rfl
    · rw [if_neg hout, if_neg hout]
      by_cases hen : r.enabled (transposed a) = true
      · rw [if_pos hen, if_pos hen]
        have hleft : a + (left + 1) - (a + 1) = left := by omega
        simp only [Option.bind_some, hleft]
      · rw [if_neg hen, if_neg hen, ih, show a + 1 + left = a + (left + 1) by omega]

/-- The loop finds no DPU: all it has read are in the rank and disabled. -/
theorem nextEnabled_eq_none {r : SetRank} {a left : Nat} :
    nextEnabled order r a left = some none ↔
      ∀ i, a ≤ i → i < a + left → order i < r.nrDpus ∧ r.enabled (order i) = false := by
  induction left generalizing a with
  | zero => exact iff_of_true rfl fun i hlow hhigh => by omega
  | succ left ih =>
    rw [nextEnabled]
    by_cases hin : order a < r.nrDpus
    · rw [if_neg (by omega)]
      cases hen : r.enabled (order a) with
      | true =>
        rw [if_pos rfl]
        exact iff_of_false nofun fun h => Bool.noConfusion (hen.symm.trans (h a (Nat.le_refl a) (by omega)).2)
      | false =>
        rw [if_neg Bool.false_ne_true, ih]
        constructor
        · intro h i hlow hhigh
          by_cases hi : i = a
          · exact hi ▸ ⟨hin, hen⟩
          · exact h i (by omega) (by omega)
        · exact fun h i hlow hhigh => h i (by omega) (by omega)
    · rw [if_pos (by omega)]
      exact iff_of_false nofun fun h => hin (h a (Nat.le_refl a) (by omega)).1

/-- The loop finds a DPU: it is in the rank and enabled, and all read before are in the rank and disabled. -/
theorem nextEnabled_eq_some {r : SetRank} {a left idx : Nat} :
    nextEnabled order r a left = some (some idx) ↔
      (a ≤ idx ∧ idx < a + left ∧ order idx < r.nrDpus ∧ r.enabled (order idx) = true) ∧
        ∀ i, a ≤ i → i < idx → order i < r.nrDpus ∧ r.enabled (order i) = false := by
  induction left generalizing a with
  | zero => exact iff_of_false nofun fun h => by omega
  | succ left ih =>
    rw [nextEnabled]
    by_cases hin : order a < r.nrDpus
    · rw [if_neg (by omega)]
      cases hen : r.enabled (order a) with
      | true =>
        rw [if_pos rfl, Option.some.injEq, Option.some.injEq]
        constructor
        · intro h
          subst h
          exact ⟨⟨Nat.le_refl a, by omega, hin, hen⟩, fun i hlow hhigh => by omega⟩
        · intro h
          by_contra hne
          have hbefore := (h.2 a (Nat.le_refl a) (by omega)).2
          rw [hen] at hbefore
          cases hbefore
      | false =>
        rw [if_neg Bool.false_ne_true, ih]
        constructor
        · intro h
          refine ⟨⟨by omega, by omega, h.1.2.2⟩, fun i hlow hhigh => ?_⟩
          by_cases hi : i = a
          · exact hi ▸ ⟨hin, hen⟩
          · exact h.2 i (by omega) hhigh
        · intro h
          have hne : idx ≠ a := by
            intro heq
            rw [heq, hen] at h
            exact Bool.noConfusion h.1.2.2.2
          exact ⟨⟨by omega, by omega, h.1.2.2⟩, fun i hlow hhigh => h.2 i (by omega) hhigh⟩
    · rw [if_pos (by omega)]
      refine iff_of_false nofun fun h => ?_
      by_cases heq : idx = a
      · exact hin (heq ▸ h.1.2.2.1)
      · exact hin (h.2 a (Nat.le_refl a) (by omega)).1

/-- A search that begins in a rank goes over what is left of it. -/
theorem visitsFrom_begin (k : Nat) (r : SetRank) (rest : List SetRank) (a : Nat) :
    visitsFrom transposed r.nrDpus k (r :: rest) a =
      (r.scan a (r.nrDpus - a)).bind fun l =>
        (visitsFrom transposed r.nrDpus (k + 1) rest 0).map (l.map (SetDpu.mk k) ++ ·) := by
  rw [visitsFrom, scan_nextEnabled]
  cases hfound : nextEnabled transposed r a (r.nrDpus - a) with
  | none => rfl
  | some found =>
    cases found with
    | none => simp only [Option.bind_some, List.map_nil, List.nil_append, Option.map_id']
    | some idx =>
      have hlt := (nextEnabled_eq_some.1 hfound).1
      have hend : a + (r.nrDpus - a) - (idx + 1) = r.nrDpus - (idx + 1) := by omega
      simp only [Option.bind_some, hend]
      cases r.scan (idx + 1) (r.nrDpus - (idx + 1)) with
      | none => rfl
      | some l => rfl

theorem firstFound_le {n k a k' idx : Nat} {l : List SetRank} (h : firstFound order n k l a = some (some (k', idx))) :
    k ≤ k' := by
  induction l generalizing k a with
  | nil => cases h
  | cons r rest ih =>
    rw [firstFound] at h
    split at h
    · cases h
    · cases h
      exact Nat.le_refl _
    · have := ih h
      omega

/-- The DPU that is found, and then all behind it. -/
theorem visitsFrom_eq (n k : Nat) (l : List SetRank) (a : Nat) :
    visitsFrom order n k l a = (firstFound order n k l a).bind fun found =>
      match found with
      | none => some []
      | some (k', idx) =>
        (visitsFrom transposed (positions (l.drop (k' - k))) k' (l.drop (k' - k)) (idx + 1)).map
          (SetDpu.mk k' (order idx) :: ·) := by
  induction l generalizing k a with
  | nil => rfl
  | cons r rest ih =>
    rw [visitsFrom, firstFound]
    cases hfound : nextEnabled order r a (n - a) with
    | none => rfl
    | some found =>
      cases found with
      | none =>
        simp only [Option.bind_some]
        rw [ih (k + 1) 0]
        cases hrest : firstFound order n (k + 1) rest 0 with
        | none => rfl
        | some found =>
          match found with
          | none => rfl
          | some (k', idx) =>
            have hle := firstFound_le hrest
            simp only [Option.bind_some]
            rw [show k' - k = k' - (k + 1) + 1 by omega, List.drop_succ_cons]
      | some idx =>
        simp only [Option.bind_some, Nat.sub_self, List.drop_zero, positions, visitsFrom_begin]
        cases r.scan (idx + 1) (r.nrDpus - (idx + 1)) with
        | none => rfl
        | some l =>
          simp only [Option.bind_some, Option.map_map]
          rfl

/-- All DPUs from position `a` of rank `k` on, where the search begins. -/
def visits (order : Nat → Nat) (list : List SetRank) (k a : Nat) : Option (List SetDpu) :=
  visitsFrom order (positions (list.drop k)) k (list.drop k) a

theorem visits_eq (list : List SetRank) (k a : Nat) :
    visits order list k a = (search order list k a).bind fun found =>
      match found with
      | none => some []
      | some (k', idx) => (visits transposed list k' (idx + 1)).map (SetDpu.mk k' (order idx) :: ·) := by
  rw [visits, visitsFrom_eq]
  change (search order list k a).bind _ = _
  cases hfound : search order list k a with
  | none => rfl
  | some found =>
    match found with
    | none => rfl
    | some (k', idx) =>
      have hle : k ≤ k' := firstFound_le hfound
      have hplace : k + (k' - k) = k' := Nat.add_sub_cancel' hle
      simp only [Option.bind_some, List.drop_drop, hplace]
      rfl

theorem next_spec {it : DpuIterator} (hat : it.At list) (hnext : it.hasNext = true) :
    Advanced transposed list (dpuIteratorNextEntangledGroup (.ranks list) it)
      (search transposed list it.rankIterator.next it.nextIdx) := by
  have hcalls : dpuIteratorNextEntangledGroup (.ranks list) it =
      advanceToNext transposed list { it with count := (it.count + 1) % 2 ^ 32 } := by
    simp [dpuIteratorNextEntangledGroup, hnext, advanceToNextDpuInRankListRotateGroup]
  have hcounted : { it with count := (it.count + 1) % 2 ^ 32 }.At list := ⟨hat.hasNext, hat.nextIdx, hat.lt⟩
  rw [hcalls]
  exact advanceToNext_spec hcounted

/-- A round of the loop. -/
theorem forEachFrom_succ {set : DpuSet} {it : DpuIterator} (hnext : it.hasNext = true) (fuel : Nat) :
    forEachFrom set (fuel + 1) it =
      (dpuIteratorNextEntangledGroup set it).bind fun it' => (forEachFrom set fuel it').map (it.next :: ·) := by
  rw [forEachFrom, hnext]
  rfl

theorem forEachFrom_end {set : DpuSet} {it : DpuIterator} (hnext : it.hasNext = false) (fuel : Nat) :
    forEachFrom set fuel it = some [] := by
  unfold forEachFrom
  rw [hnext]
  rfl

/-- What is visited behind a DPU that is found. -/
theorem visits_found {k a k' idx : Nat} (h : search order list k a = some (some (k', idx))) :
    visits order list k a = (visits transposed list k' (idx + 1)).map (SetDpu.mk k' (order idx) :: ·) := by
  rw [visits_eq, h]
  rfl

/-- A call of the iterator reads behind an array, ends, or is at the first of the DPUs that are visited
from where it stood. -/
theorem next_cases {it : DpuIterator} (hat : it.At list) (hnext : it.hasNext = true) :
    (dpuIteratorNextEntangledGroup (.ranks list) it = none ∧
        visits transposed list it.rankIterator.next it.nextIdx = none) ∨
      (∃ it', dpuIteratorNextEntangledGroup (.ranks list) it = some it' ∧ it'.hasNext = false ∧
        visits transposed list it.rankIterator.next it.nextIdx = some []) ∨
      ∃ it', dpuIteratorNextEntangledGroup (.ranks list) it = some it' ∧ it'.At list ∧ it'.hasNext = true ∧
        visits transposed list it.rankIterator.next it.nextIdx =
          (visits transposed list it'.rankIterator.next it'.nextIdx).map (it'.next :: ·) := by
  have hspec := next_spec hat hnext
  cases hfound : search transposed list it.rankIterator.next it.nextIdx with
  | none =>
    rw [hfound] at hspec
    exact .inl ⟨hspec, by rw [visits_eq, hfound]; rfl⟩
  | some found =>
    rw [hfound] at hspec
    match found with
    | none =>
      obtain ⟨it', hit', hend⟩ := hspec
      exact .inr (.inl ⟨it', hit', hend, by rw [visits_eq, hfound]; rfl⟩)
    | some (k', idx) =>
      obtain ⟨it', hit', hat', hnext', hk', hdpu, hidx⟩ := hspec
      exact .inr (.inr ⟨it', hit', hat', hnext', by rw [visits_found hfound, hk', hidx, hdpu]⟩)

/-- The loop of the macro, at a DPU: it ends unless something is read behind an array, and has seen the
DPU and all that are found behind it. -/
theorem forEachFrom_iff {it : DpuIterator} (hat : it.At list) (hnext : it.hasNext = true) (l : List SetDpu) :
    (∃ fuel, forEachFrom (.ranks list) fuel it = some l) ↔
      (visits transposed list it.rankIterator.next it.nextIdx).map (it.next :: ·) = some l := by
  constructor
  · rintro ⟨fuel, h⟩
    induction fuel generalizing it l with
    | zero =>
      rw [forEachFrom, hnext] at h
      cases h
    | succ fuel ih =>
      rw [forEachFrom_succ hnext, Option.bind_eq_some_iff] at h
      obtain ⟨it', hit', hrest⟩ := h
      obtain ⟨l', hl', rfl⟩ := Option.map_eq_some_iff.1 hrest
      rcases next_cases hat hnext with ⟨hfail, -⟩ | ⟨_, hend, hlast, hvisits⟩ | ⟨_, hgo, hat', hnext', hvisits⟩
      · rw [hit'] at hfail
        cases hfail
      · obtain rfl := Option.some.inj (hit'.symm.trans hend)
        rw [forEachFrom_end hlast, Option.some.injEq] at hl'
        rw [hvisits, ← hl']
        rfl
      · obtain rfl := Option.some.inj (hit'.symm.trans hgo)
        rw [hvisits, ih hat' hnext' l' hl']
        rfl
  · -- as many rounds as DPUs that are still to be visited, and one that ends the loop
    intro h
    obtain ⟨l', hl', rfl⟩ := Option.map_eq_some_iff.1 h
    clear h
    induction l' generalizing it with
    | nil =>
      rcases next_cases hat hnext with ⟨-, hvisits⟩ | ⟨it', hend, hlast, -⟩ | ⟨_, -, -, -, hvisits⟩
      · rw [hvisits] at hl'
        cases hl'
      · refine ⟨1, ?_⟩
        rw [forEachFrom_succ hnext, hend, Option.bind_some, forEachFrom_end hlast]
        rfl
      · rw [hvisits] at hl'
        obtain ⟨_, -, hcons⟩ := Option.map_eq_some_iff.1 hl'
        cases hcons
    | cons d l'' ih =>
      rcases next_cases hat hnext with ⟨-, hvisits⟩ | ⟨_, -, -, hvisits⟩ | ⟨it', hgo, hat', hnext', hvisits⟩
      · rw [hvisits] at hl'
        cases hl'
      · rw [hvisits] at hl'
        cases hl'
      · rw [hvisits] at hl'
        obtain ⟨v, hv, hcons⟩ := Option.map_eq_some_iff.1 hl'
        cases hcons
        obtain ⟨fuel, hfuel⟩ := ih hat' hnext' hv
        refine ⟨fuel + 1, ?_⟩
        rw [forEachFrom_succ hnext, hgo, Option.bind_some, hfuel]
        rfl

end

/-! ## The whole set -/

theorem groups_eq_nil {r : SetRank} (h : (List.range r.nrDpus).find? r.enabled = none) : r.groups = [] := by
  rw [List.find?_eq_none] at h
  rw [List.eq_nil_iff_forall_not_mem]
  intro d hd
  have hd := r.mem_groups.1 hd
  exact h d (List.mem_range.2 hd.1) hd.2

theorem le_rank_of_mem_groupsFrom {k : Nat} {l : List SetRank} {d : SetDpu} (h : d ∈ groupsFrom k l) : k ≤ d.rank := by
  induction l generalizing k with
  | nil => cases h
  | cons r rest ih =>
    rcases List.mem_append.1 h with h | h
    · obtain ⟨_, -, rfl⟩ := List.mem_map.1 h
      exact Nat.le_refl k
    · exact Nat.le_of_succ_le (ih h)

theorem le_rank_of_mem_visitsFrom {order : Nat → Nat} {n k a : Nat} {l : List SetRank} {v : List SetDpu} {d : SetDpu}
    (hv : visitsFrom order n k l a = some v) (h : d ∈ v) : k ≤ d.rank := by
  induction l generalizing order n k a v with
  | nil =>
    cases hv
    cases h
  | cons r rest ih =>
    rw [visitsFrom] at hv
    obtain ⟨found, -, hrest⟩ := Option.bind_eq_some_iff.1 hv
    cases found with
    | none => exact Nat.le_of_succ_le (ih hrest h)
    | some idx =>
      obtain ⟨l, -, hmap⟩ := Option.bind_eq_some_iff.1 hrest
      obtain ⟨v', hv', rfl⟩ := Option.map_eq_some_iff.1 hmap
      rcases List.mem_append.1 h with h | h
      · obtain ⟨_, -, rfl⟩ := List.mem_map.1 h
        exact Nat.le_refl k
      · exact Nat.le_of_succ_le (ih hv' h)

/-- The DPUs of one rank end where those of later ranks begin. -/
theorem append_inj_of_rank {k : Nat} {a b : List Nat} {v w : List SetDpu} (hv : ∀ d ∈ v, k < d.rank)
    (hw : ∀ d ∈ w, k < d.rank) : a.map (SetDpu.mk k) ++ v = b.map (SetDpu.mk k) ++ w ↔ a = b ∧ v = w := by
  constructor
  · intro h
    induction a generalizing b with
    | nil =>
      cases b with
      | nil => exact ⟨rfl, h⟩
      | cons d b =>
        have hd := hv ⟨k, d⟩ (by rw [List.map_nil, List.nil_append] at h; simp [h])
        exact absurd hd (Nat.lt_irrefl k)
    | cons c a ih =>
      cases b with
      | nil =>
        have hc := hw ⟨k, c⟩ (by rw [List.map_nil, List.nil_append] at h; simp [← h])
        exact absurd hc (Nat.lt_irrefl k)
      | cons d b =>
        rw [List.map_cons, List.map_cons, List.cons_append, List.cons_append, List.cons.injEq] at h
        obtain ⟨hab, hvw⟩ := ih h.2
        have hcd : c = d := by injection h.1
        exact ⟨by rw [hcd, hab], hvw⟩
  · rintro ⟨rfl, rfl⟩
    rfl

section

variable {order : Nat → Nat} (n k : Nat) {r : SetRank} (rest : List SetRank)

/-- A rank without an enabled DPU is passed over unless the search leads out of it. -/
theorem visitsFrom_empty_iff (hgroups : r.groups = []) :
    visitsFrom order n k (r :: rest) 0 = some (groupsFrom k (r :: rest)) ↔
      (∀ i < n, order i < r.nrDpus) ∧ visitsFrom order n (k + 1) rest 0 = some (groupsFrom (k + 1) rest) := by
  have hnone : ∀ d < r.nrDpus, r.enabled d = false := by
    intro d hd
    rw [Bool.eq_false_iff]
    intro hen
    have hmem := r.mem_groups.2 ⟨hd, hen⟩
    rw [hgroups] at hmem
    cases hmem
  have hfrom : groupsFrom k (r :: rest) = groupsFrom (k + 1) rest := by
    rw [groupsFrom, hgroups]
    rfl
  rw [hfrom, visitsFrom]
  cases hfound : nextEnabled order r 0 (n - 0) with
  | none =>
    refine iff_of_false nofun fun h => ?_
    have hpassed : nextEnabled order r 0 (n - 0) = some none :=
      nextEnabled_eq_none.2 fun i _ hi => ⟨h.1 i (by omega), hnone _ (h.1 i (by omega))⟩
    rw [hfound] at hpassed
    cases hpassed
  | some found =>
    cases found with
    | none =>
      have hin : ∀ i < n, order i < r.nrDpus := fun i hi => (nextEnabled_eq_none.1 hfound i (Nat.zero_le i) (by omega)).1
      exact ⟨fun h => ⟨hin, h⟩, And.right⟩
    | some idx =>
      obtain ⟨⟨-, -, hin, hen⟩, -⟩ := nextEnabled_eq_some.1 hfound
      rw [hnone _ hin] at hen
      cases hen

/-- A rank with enabled DPUs is visited as it should be if the search finds the first of them, and what is
behind that position gives the others. -/
theorem visitsFrom_groups_iff {first : Nat} {others : List Nat} (hgroups : r.groups = first :: others) :
    visitsFrom order n k (r :: rest) 0 = some (groupsFrom k (r :: rest)) ↔
      ∃ p, nextEnabled order r 0 n = some (some p) ∧ order p = first ∧
        r.scan (p + 1) (r.nrDpus - (p + 1)) = some others ∧
        visitsFrom transposed r.nrDpus (k + 1) rest 0 = some (groupsFrom (k + 1) rest) := by
  have hbehind : ∀ d ∈ groupsFrom (k + 1) rest, k < d.rank := fun d hd => le_rank_of_mem_groupsFrom hd
  rw [visitsFrom, Nat.sub_zero, groupsFrom, hgroups]
  constructor
  · intro h
    obtain ⟨found, hfound, hrest⟩ := Option.bind_eq_some_iff.1 h
    cases found with
    | none =>
      -- the rank is not visited at all
      have hmem : SetDpu.mk k first ∈ (first :: others).map (SetDpu.mk k) ++ groupsFrom (k + 1) rest :=
        List.mem_append_left _ (List.mem_map_of_mem (List.mem_cons_self ..))
      exact absurd (le_rank_of_mem_visitsFrom hrest hmem) (Nat.not_succ_le_self k)
    | some p =>
      obtain ⟨l, hl, hmap⟩ := Option.bind_eq_some_iff.1 hrest
      obtain ⟨v, hv, heq⟩ := Option.map_eq_some_iff.1 hmap
      rw [append_inj_of_rank (fun d hd => le_rank_of_mem_visitsFrom hv hd) hbehind, List.cons.injEq] at heq
      obtain ⟨⟨hfirst, rfl⟩, rfl⟩ := heq
      exact ⟨p, hfound, hfirst, hl, hv⟩
  · intro h
    obtain ⟨p, hfound, hfirst, hl, hv⟩ := h
    rw [hfound, Option.bind_some]
    dsimp only
    rw [hl, Option.bind_some, hv, hfirst]
    rfl

end

/-- The ranks behind the first one. -/
theorem visitsFrom_follow_iff {n : Nat} (hn : n ≤ 64) (k : Nat) (l : List SetRank) :
    visitsFrom transposed n k l 0 = some (groupsFrom k l) ↔ GroupsFollow n l := by
  induction l generalizing n k with
  | nil => exact iff_of_true rfl trivial
  | cons r rest ih =>
    have hle := r.nrDpus_le
    rw [GroupsFollow]
    cases hgroups : r.groups with
    | nil => rw [visitsFrom_empty_iff n k rest hgroups, ih hn]
    | cons first others =>
      have hpair := r.groups_pairwise
      rw [hgroups, List.pairwise_cons] at hpair
      obtain ⟨hfirst, hen⟩ := r.mem_groups.1 (hgroups ▸ List.mem_cons_self ..)
      have hinv := transposed_transposed (i := first) (by omega)
      rw [visitsFrom_groups_iff n k rest hgroups, ih hle]
      constructor
      · intro h
        obtain ⟨p, hfound, hp, hl, hfollow⟩ := h
        obtain ⟨⟨-, hlt, -⟩, hbefore⟩ := nextEnabled_eq_some.1 hfound
        have hplace : transposed first = p := by rw [← hp, transposed_transposed (by omega)]
        refine ⟨by omega, fun i hi => (hbefore i (Nat.zero_le i) (by omega)).1, ?_, hfollow⟩
        rw [hplace, ← r.scan_behind_iff (by omega) hfirst hen]
        exact ⟨others, hl, hgroups.symm⟩
      · intro h
        obtain ⟨hreached, hin, hlead, hfollow⟩ := h
        obtain ⟨l, hl, hcons⟩ := (r.scan_behind_iff (by omega) hfirst hen).2 hlead
        rw [hgroups, List.cons.injEq] at hcons
        obtain ⟨-, rfl⟩ := hcons
        refine ⟨transposed first, nextEnabled_eq_some.2 ⟨⟨Nat.zero_le _, by omega, by rwa [hinv], by rwa [hinv]⟩, ?_⟩,
          hinv, hl, hfollow⟩
        intro i _ hi
        refine ⟨hin i hi, ?_⟩
        rw [Bool.eq_false_iff]
        intro hearlier
        -- an enabled DPU at an earlier position would be the first
        have hmem := r.mem_groups.2 ⟨hin i hi, hearlier⟩
        rw [hgroups] at hmem
        have hback := transposed_transposed (i := i) (by omega)
        rcases List.mem_cons.1 hmem with heq | hother
        · rw [heq] at hback
          omega
        · have hafter := hpair.1 _ hother
          rw [Before, hback] at hafter
          omega

/-- The ranks from the beginning. -/
theorem visitsFrom_lead_iff (n k : Nat) (l : List SetRank) :
    visitsFrom id n k l 0 = some (groupsFrom k l) ↔ GroupsLead n l := by
  induction l generalizing k with
  | nil => exact iff_of_true rfl trivial
  | cons r rest ih =>
    have hle := r.nrDpus_le
    rw [GroupsLead]
    cases hfind : (List.range r.nrDpus).find? r.enabled with
    | none =>
      have hin : (∀ i < n, id i < r.nrDpus) ↔ n ≤ r.nrDpus :=
        ⟨fun h => Nat.le_of_not_lt fun hlt => Nat.lt_irrefl _ (h _ hlt), fun h i hi => Nat.lt_of_lt_of_le hi h⟩
      rw [visitsFrom_empty_iff n k rest (groups_eq_nil hfind), hin, ih]
    | some lowest =>
      have hlt := List.mem_range.1 (List.mem_of_find?_eq_some hfind)
      have hen : r.enabled lowest = true := List.find?_some hfind
      have hbelow : ∀ i < lowest, r.enabled i = false := by
        intro i hi
        have hnot := (List.find?_range_eq_some.1 hfind).2.2 i hi
        simpa using hnot
      obtain ⟨first, others, hgroups⟩ : ∃ first others, r.groups = first :: others :=
        List.exists_cons_of_ne_nil (List.ne_nil_of_mem (r.mem_groups.2 ⟨hlt, hen⟩))
      rw [visitsFrom_groups_iff n k rest hgroups, visitsFrom_follow_iff hle]
      constructor
      · intro h
        obtain ⟨p, hfound, hp, hl, hfollow⟩ := h
        obtain ⟨⟨-, hpn, -, hpen⟩, hbefore⟩ := nextEnabled_eq_some.1 hfound
        have hplace : p = lowest := by
          by_contra hne
          by_cases hafter : lowest < p
          · have hskipped := (hbefore lowest (Nat.zero_le _) hafter).2
            rw [id, hen] at hskipped
            cases hskipped
          · rw [id, hbelow p (by omega)] at hpen
            cases hpen
        subst hplace
        refine ⟨by omega, (r.scan_behind_iff (by omega) hlt hen).1 ⟨others, hl, ?_⟩, hfollow⟩
        rw [hgroups, ← hp]
        rfl
      · intro h
        obtain ⟨hreached, hlead, hfollow⟩ := h
        obtain ⟨l, hl, hcons⟩ := (r.scan_behind_iff (by omega) hlt hen).2 hlead
        rw [hgroups, List.cons.injEq] at hcons
        obtain ⟨rfl, rfl⟩ := hcons
        exact ⟨lowest, nextEnabled_eq_some.2 ⟨⟨Nat.zero_le _, by omega, hlt, hen⟩,
          fun i _ hi => ⟨Nat.lt_trans hi hlt, hbelow i hi⟩⟩, rfl, hl, hfollow⟩

/-- A set is visited as it should be exactly if the two orders agree on where to begin, and no search leads out
of a rank or stops short of one. -/
theorem visits_groups_iff (list : List SetRank) : VisitsGroups list ↔ GroupsAgree list := by
  rw [GroupsAgree, ← visitsFrom_lead_iff _ 0]
  change VisitsGroups list ↔ visits id list 0 0 = some (groupsFrom 0 list)
  cases list with
  | nil => exact ⟨fun _ => rfl, fun _ => ⟨0, rfl⟩⟩
  | cons r rest =>
    have hfrom : dpuIteratorFrom (.ranks (r :: rest)) =
        advanceToNext id (r :: rest) ⟨⟨0, 1, true, 0⟩, 0, 0, false, ⟨0, 0⟩⟩ := by
      simp [dpuIteratorFrom, rankIteratorFrom, advanceToNextDpuInRankList]
    have hspec : Advanced id (r :: rest) (dpuIteratorFrom (.ranks (r :: rest))) (search id (r :: rest) 0 0) := by
      have hfirst : (⟨⟨0, 1, true, 0⟩, 0, 0, false, ⟨0, 0⟩⟩ : DpuIterator).At (r :: rest) := ⟨rfl, rfl, Nat.succ_pos _⟩
      rw [hfrom]
      exact advanceToNext_spec hfirst
    -- the search for the first DPU is the linear one, those behind it are transposed
    unfold VisitsGroups forEachEntangledGroup
    rw [visits_eq]
    cases hfound : search id (r :: rest) 0 0 with
    | none =>
      rw [hfound] at hspec
      have hstuck : dpuIteratorFrom (.ranks (r :: rest)) = none := hspec
      rw [hstuck]
      constructor
      · intro h
        obtain ⟨_, hrun⟩ := h
        cases hrun
      · intro h
        cases h
    | some found =>
      rw [hfound] at hspec
      match found with
      | none =>
        obtain ⟨it, hit, hend⟩ := hspec
        rw [hit]
        simp only [Option.bind_some, forEachFrom_end hend]
        exact ⟨fun h => h.choose_spec, fun h => ⟨0, h⟩⟩
      | some (k', idx) =>
        obtain ⟨it, hit, hat, hnext, hk', hdpu, hidx⟩ := hspec
        rw [hit]
        simp only [Option.bind_some]
        rw [forEachFrom_iff hat hnext, hk', hidx, hdpu]

/-! ## Full ranks -/

/-- The condition for ranks of 8 by 8 DPUs: only the first one that has an enabled DPU can go wrong. -/
def FirstLeads : List SetRank → Prop
  | [] => True
  | r :: rest =>
    match (List.range 64).find? r.enabled with
    | none => FirstLeads rest
    | some first => transposed first ≤ first ∧
        ∀ d < 64, r.enabled d = true → d ≠ first → first < transposed d ∧ transposed first < transposed d

theorem groupsFollow_full {l : List SetRank} (h : ∀ r ∈ l, r.nrDpus = 64) : GroupsFollow 64 l := by
  induction l with
  | nil => trivial
  | cons r rest ih =>
    have hfull := h r (List.mem_cons_self ..)
    have hrest := ih fun r' hr' => h r' (List.mem_cons_of_mem _ hr')
    rw [GroupsFollow]
    cases hgroups : r.groups with
    | nil => exact ⟨fun i hi => by rw [hfull]; exact transposed_lt hi, hrest⟩
    | cons first others =>
      have hpair := r.groups_pairwise
      rw [hgroups, List.pairwise_cons] at hpair
      have hfirst := (r.mem_groups.1 (hgroups ▸ List.mem_cons_self ..)).1
      have hafter : ∀ d < r.nrDpus, r.enabled d = true → d ≠ first → Before first d := by
        intro d hd hen hne
        have hmem := r.mem_groups.2 ⟨hd, hen⟩
        rw [hgroups] at hmem
        exact hpair.1 d ((List.mem_cons.1 hmem).resolve_left hne)
      rw [hfull] at hfirst
      refine ⟨transposed_lt hfirst, fun i hi => ?_, ⟨hafter, fun d hd hen hne => ⟨hafter d hd hen hne, ?_⟩,
        .inl (Nat.le_refl _), fun i _ hi => ?_⟩, by rwa [hfull]⟩
      · rw [hfull]
        exact transposed_lt (Nat.lt_trans hi (transposed_lt hfirst))
      · rw [hfull] at hd ⊢
        exact transposed_lt hd
      · rw [hfull] at hi ⊢
        exact transposed_lt hi

theorem groupsLead_full {l : List SetRank} (h : ∀ r ∈ l, r.nrDpus = 64) : GroupsLead 64 l ↔ FirstLeads l := by
  induction l with
  | nil => exact Iff.rfl
  | cons r rest ih =>
    have hfull := h r (List.mem_cons_self ..)
    have hrest : ∀ r' ∈ rest, r'.nrDpus = 64 := fun r' hr' => h r' (List.mem_cons_of_mem _ hr')
    rw [GroupsLead, FirstLeads, hfull]
    cases hfind : (List.range 64).find? r.enabled with
    | none =>
      dsimp only
      rw [ih hrest]
      exact ⟨And.right, fun hlead => ⟨Nat.le_refl 64, hlead⟩⟩
    | some first =>
      have hfirst := List.mem_range.1 (List.mem_of_find?_eq_some hfind)
      constructor
      · intro hlead
        obtain ⟨-, hlead, -⟩ := hlead
        have honce := hlead.once
        have hlt := transposed_lt hfirst
        refine ⟨by omega, fun d hd hen hne => ?_⟩
        exact ⟨(hlead.behind d (by omega) hen hne).1, hlead.before d (by omega) hen hne⟩
      · intro hlead
        refine ⟨hfirst, ⟨fun d hd hen hne => ?_, fun d hd hen hne => ⟨?_, ?_⟩, .inl hlead.1, fun i _ hi => ?_⟩,
          groupsFollow_full hrest⟩
        · exact (hlead.2 d (by omega) hen hne).2
        · exact (hlead.2 d (by omega) hen hne).1
        · rw [hfull] at hd ⊢
          exact transposed_lt hd
        · rw [hfull] at hi ⊢
          exact transposed_lt hi

theorem groupsAgree_full {list : List SetRank} (h : ∀ r ∈ list, r.nrDpus = 64) :
    GroupsAgree list ↔ FirstLeads list := by
  cases list with
  | nil => exact Iff.rfl
  | cons r rest =>
    rw [GroupsAgree, positions, h r (List.mem_cons_self ..)]
    exact groupsLead_full h

/-- A rank of 8 by 8 DPUs of which only numbers 1 and 8 are enabled. -/
def twoEnabled : SetRank := ⟨8, 8, fun d => d == 1 || d == 8, by decide, by decide⟩

/-- The linear search begins at DPU 1, which is at position 8 of the transposed order: it is seen again
there, and DPU 8, which is at position 1, is not seen. -/
theorem twoEnabled_repeats_and_skips :
    forEachEntangledGroup (.ranks [twoEnabled]) 3 = some [⟨0, 1⟩, ⟨0, 1⟩] ∧
      groupsFrom 0 [twoEnabled] = [⟨0, 8⟩, ⟨0, 1⟩] ∧ ¬ VisitsGroups [twoEnabled] := by
  refine ⟨rfl, by decide, ?_⟩
  rintro ⟨fuel, h⟩
  have hgroups : groupsFrom 0 [twoEnabled] = [⟨0, 8⟩, ⟨0, 1⟩] := by decide
  have hfrom : dpuIteratorFrom (.ranks [twoEnabled]) = some ⟨⟨0, 1, true, 0⟩, 0, 2, true, ⟨0, 1⟩⟩ := rfl
  rw [hgroups, forEachEntangledGroup, hfrom, Option.bind_some] at h
  -- whatever is visited, it begins with DPU 1
  cases fuel with
  | zero => cases h
  | succ fuel =>
    rw [forEachFrom_succ rfl] at h
    obtain ⟨it, -, hrest⟩ := Option.bind_eq_some_iff.1 h
    obtain ⟨l, -, hcons⟩ := Option.map_eq_some_iff.1 hrest
    cases hcons

end DpuBackend.Api
