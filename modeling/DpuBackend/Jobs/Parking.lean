import DpuBackend.Jobs.Ownership
import Mathlib.Data.List.Count
import Mathlib.Data.List.Nodup
import Mathlib.Data.List.Perm.Subperm

/-
  Syncs, and the ranks that are parked at one.

  A call puts one job for its sync, or for its master job, on each of its ranks. `Seats` says
  that no rank has more of these to come than it may still count: the jobs of a sync that are
  with the call or in a FIFO, not counted, are for ranks that have not arrived, one for each.

  A blocking callback parks the ranks that arrive before the last one. `Parked` says that they
  stay so until the worker of the last one puts them back in their queues.
-/

namespace DpuBackend.Jobs

open DpuBackend.Lib Function

/-- A sync, and whether it is that of a master job. -/
abbrev Ticket := Nat × Bool

def Body.ticket : Body → Option Ticket
  | .sync id => some (id, false)
  | .member id => some (id, true)
  | .op _ | .callback .. => none

@[simp] theorem Body.ticket_sync (id : Nat) : (Body.sync id).ticket = some (id, false) := rfl

def ticketsIn (k : Ticket) (jobs : List Job) : Nat := jobs.countP fun job => job.body.ticket = some k

structure Sync.Counts (t : Sync) : Prop where
  total : t.nrRanks + t.arrived.length = t.ranks.length
  nodup : t.arrived.Nodup
  subset : t.arrived ⊆ t.ranks
  ranks_nodup : t.ranks.Nodup

/-- Rank `r` may still count on the sync. -/
def Sync.Open (t : Sync) (b : Bool) (r : RankId) : Prop := t.master.isSome = b ∧ r ∈ t.ranks ∧ r ∉ t.arrived

instance (t : Sync) (b : Bool) (r : RankId) : Decidable (t.Open b r) :=
  inferInstanceAs (Decidable (_ ∧ _ ∧ _))

def seat (syncs : List Sync) (k : Ticket) (r : RankId) : Nat :=
  match syncs[k.1]? with
  | some t => if t.Open k.2 r then 1 else 0
  | none => 0

theorem getElem?_modify_same (syncs : List Sync) (id : Nat) (f : Sync → Sync) :
    (syncs.modify id f)[id]? = syncs[id]?.map f := List.getElem?_modify_eq f id syncs

/-- `pending k r` jobs of the ticket are still to count on rank `r`. -/
structure Seats (syncs : List Sync) (pending : Ticket → RankId → Nat) : Prop where
  counts : ∀ (id : Nat) (t : Sync), syncs[id]? = some t → t.Counts
  bound : ∀ k r, pending k r ≤ seat syncs k r

namespace Sync.Counts

variable {t : Sync}

/-- A rank that has not arrived is counted in `nr_ranks`. -/
theorem nrRanks_pos (h : t.Counts) {r : RankId} (hr : r ∈ t.ranks) (hnot : r ∉ t.arrived) : 0 < t.nrRanks := by
  have hnodup : (r :: t.arrived).Nodup := List.nodup_cons.2 ⟨hnot, h.nodup⟩
  have hsub : r :: t.arrived ⊆ t.ranks := List.cons_subset.2 ⟨hr, h.subset⟩
  have hlen := (hnodup.subperm hsub).length_le
  have htotal := h.total
  rw [List.length_cons] at hlen
  omega

theorem arrive (h : t.Counts) {r : RankId} (hr : r ∈ t.ranks) (hnot : r ∉ t.arrived) : (t.arrive r).Counts where
  total := by
    have hpos := h.nrRanks_pos hr hnot
    have htotal := h.total
    simp only [Sync.arrive, List.length_cons]
    omega
  nodup := List.nodup_cons.2 ⟨hnot, h.nodup⟩
  subset := List.cons_subset.2 ⟨hr, h.subset⟩
  ranks_nodup := h.ranks_nodup

theorem fail (h : t.Counts) (e : Status) : (t.fail e).Counts := by
  unfold Sync.fail
  split
  · exact ⟨h.total, h.nodup, h.subset, h.ranks_nodup⟩
  · exact h

/-- When the last rank arrives all others have. -/
theorem mem_arrived (h : t.Counts) {r r' : RankId} (hone : t.nrRanks = 1) (hr : r ∈ t.ranks) (hnot : r ∉ t.arrived)
    (hr' : r' ∈ t.ranks) (hne : r' ≠ r) : r' ∈ t.arrived := by
  have hnodup : (r :: t.arrived).Nodup := List.nodup_cons.2 ⟨hnot, h.nodup⟩
  have hsub : r :: t.arrived ⊆ t.ranks := List.cons_subset.2 ⟨hr, h.subset⟩
  have htotal := h.total
  have hperm : (r :: t.arrived).Perm t.ranks :=
    (hnodup.subperm hsub).perm_of_length_le (by rw [List.length_cons]; omega)
  rcases List.mem_cons.1 (hperm.mem_iff.2 hr') with heq | hmem
  · exact absurd heq hne
  · exact hmem

/-- No rank may count any more once `nr_ranks` is 0. -/
theorem not_open (h : t.Counts) (hzero : t.nrRanks = 0) {b : Bool} {r : RankId} : ¬ t.Open b r := by
  rintro ⟨-, hr, hnot⟩
  have := h.nrRanks_pos hr hnot
  omega

end Sync.Counts

theorem open_arrive {t : Sync} {b : Bool} {r r' : RankId} : (t.arrive r).Open b r' ↔ t.Open b r' ∧ r' ≠ r := by
  simp only [Sync.Open, Sync.arrive, List.mem_cons, not_or]
  tauto

theorem open_fail {t : Sync} {b : Bool} {r : RankId} (e : Status) : (t.fail e).Open b r ↔ t.Open b r := by
  unfold Sync.fail
  split <;> exact Iff.rfl

namespace Seats

variable {syncs : List Sync} {pending pending' : Ticket → RankId → Nat}

theorem mono (h : Seats syncs pending) (hle : ∀ k r, pending' k r ≤ pending k r) : Seats syncs pending' :=
  ⟨h.counts, fun k r => (hle k r).trans (h.bound k r)⟩

/-- Where a job is still to count, its rank may. -/
theorem exists_open (h : Seats syncs pending) {k : Ticket} {r : RankId} (hpos : 0 < pending k r) :
    ∃ t, syncs[k.1]? = some t ∧ t.Open k.2 r := by
  have hseat := h.bound k r
  unfold seat at hseat
  split at hseat
  · next t ht =>
    refine ⟨t, ht, ?_⟩
    by_contra hnot
    rw [if_neg hnot] at hseat
    omega
  · omega

/-- A job counts. -/
theorem arrive (h : Seats syncs pending) {k : Ticket} {r : RankId} (hpos : 0 < pending k r)
    (hle : ∀ k' r', pending' k' r' + (if k' = k ∧ r' = r then 1 else 0) ≤ pending k' r') :
    Seats (syncs.modify k.1 (·.arrive r)) pending' := by
  obtain ⟨t, ht, hopen⟩ := h.exists_open hpos
  constructor
  · intro id t' ht'
    by_cases hid : k.1 = id
    · subst hid
      rw [getElem?_modify_same, ht, Option.map_some, Option.some.injEq] at ht'
      exact ht' ▸ (h.counts _ t ht).arrive hopen.2.1 hopen.2.2
    · rw [List.getElem?_modify_ne _ _ hid] at ht'
      exact h.counts id t' ht'
  · intro k' r'
    have hbound := h.bound k' r'
    have hdec := hle k' r'
    unfold seat at hbound ⊢
    by_cases hid : k.1 = k'.1
    · rw [← hid, getElem?_modify_same, ht]
      rw [← hid, ht] at hbound
      simp only [Option.map_some, open_arrive] at hbound ⊢
      by_cases hr : r' = r
      · subst hr
        by_cases hk : k' = k
        · rw [if_pos ⟨hk, rfl⟩] at hdec
          split at hbound <;> omega
        · -- the other kind of ticket for the same sync
          have hkind : ¬ t.Open k'.2 r' := fun ho => hk (Prod.ext hid.symm (ho.1.symm.trans hopen.1))
          rw [if_neg hkind] at hbound
          omega
      · simp only [ne_eq, hr, not_false_eq_true, and_true]
        omega
    · rw [List.getElem?_modify_ne _ _ hid]
      omega

theorem fail (h : Seats syncs pending) (id : Nat) (e : Status) : Seats (syncs.modify id (·.fail e)) pending := by
  constructor
  · intro id' t' ht'
    by_cases hid : id = id'
    · subst hid
      rw [getElem?_modify_same] at ht'
      obtain ⟨t, ht, rfl⟩ := Option.map_eq_some_iff.1 ht'
      exact (h.counts _ t ht).fail e
    · rw [List.getElem?_modify_ne _ _ hid] at ht'
      exact h.counts id' t' ht'
  · intro k r
    refine (h.bound k r).trans (le_of_eq ?_)
    unfold seat
    by_cases hid : id = k.1
    · subst hid
      rw [getElem?_modify_same]
      cases syncs[k.1]? with
      | none => rfl
      | some t => simp only [Option.map_some, open_fail]
    · rw [List.getElem?_modify_ne _ _ hid]

/-- A new sync, for ranks none of which has arrived. -/
theorem newSync (h : Seats syncs pending) {t : Sync} (hlen : t.nrRanks = t.ranks.length) (hnodup : t.ranks.Nodup)
    (harrived : t.arrived = [])
    (hle : ∀ k r, pending' k r ≤ pending k r + if k = (syncs.length, t.master.isSome) ∧ r ∈ t.ranks then 1 else 0) :
    Seats (syncs ++ [t]) pending' := by
  constructor
  · intro id t' ht'
    rw [List.getElem?_append] at ht'
    split at ht'
    · exact h.counts id t' ht'
    · rw [List.getElem?_singleton, Option.ite_none_right_eq_some, Option.some.injEq] at ht'
      obtain ⟨-, rfl⟩ := ht'
      exact ⟨by simp [harrived, hlen], by simp [harrived], by simp [harrived], hnodup⟩
  · intro k r
    have hbound := h.bound k r
    have hadd := hle k r
    unfold seat at hbound ⊢
    rcases Nat.lt_trichotomy k.1 syncs.length with hlt | heq | hgt
    · rw [List.getElem?_append_left hlt]
      have hk : k ≠ (syncs.length, t.master.isSome) := fun hk => by simp [hk] at hlt
      simp only [hk, false_and, if_false] at hadd
      omega
    · rw [heq, List.getElem?_append_right (Nat.le_refl _), Nat.sub_self]
      rw [heq, List.getElem?_eq_none (Nat.le_refl _)] at hbound
      change pending k r ≤ 0 at hbound
      simp only [List.getElem?_cons_zero, Sync.Open, harrived, List.not_mem_nil, not_false_eq_true, and_true]
      have hk : (k = (syncs.length, t.master.isSome) ∧ r ∈ t.ranks) ↔ (t.master.isSome = k.2 ∧ r ∈ t.ranks) := by
        constructor
        · rintro ⟨rfl, hr⟩
          exact ⟨rfl, hr⟩
        · rintro ⟨hm, hr⟩
          exact ⟨Prod.ext heq hm.symm, hr⟩
      simp only [hk] at hadd
      omega
    · rw [List.getElem?_eq_none (by simp; omega)]
      rw [List.getElem?_eq_none (by omega)] at hbound
      change pending k r ≤ 0 at hbound
      change pending' k r ≤ 0
      have hk : k ≠ (syncs.length, t.master.isSome) := fun hk => by simp [hk] at hgt
      simp only [hk, false_and, if_false] at hadd
      omega

end Seats

/-! ## Parked ranks -/

/-- Rank `r` is parked at the callback whose master job has sync `id`. -/
def View.ParkedAt (v : View) (r : RankId) (id : Nat) : Prop :=
  v.owner r = .parked ∧ ∃ job, (v.jobs r).head? = some job ∧ job.body = .member id

theorem View.ParkedAt.unique {v : View} {r : RankId} {id id' : Nat} (h : v.ParkedAt r id) (h' : v.ParkedAt r id') :
    id = id' := by
  obtain ⟨-, job, hjob, hid⟩ := h
  obtain ⟨-, job', hjob', hid'⟩ := h'
  rw [hjob, Option.some.injEq] at hjob'
  rw [hjob', hid', Body.member.injEq] at hid
  exact hid.symm

/-- A rank stays parked when something happens to another one. -/
theorem View.ParkedAt.of_ne {v v' : View} {r r' : RankId} {id : Nat} (h : v.ParkedAt r' id) (hr : r' ≠ r)
    (hsame : ∀ r', r' ≠ r → v'.jobs r' = v.jobs r' ∧ v'.owner r' = v.owner r') : v'.ParkedAt r' id := by
  obtain ⟨hjobs, howner⟩ := hsame r' hr
  rw [View.ParkedAt, hjobs, howner]
  exact h

def Sync.Blocking (t : Sync) : Prop := ∃ m, t.master = some m ∧ m.isNonblocking = false

/-- The last rank of a blocking callback has arrived; its worker is to put the others back. -/
structure Fired where
  rank : RankId
  id : Nat
  others : List RankId

structure FiredOk (v : View) (hold : Tid → Option Hold) (w : Tid) (f : Fired) : Prop where
  held : ∃ hd, hold w = some hd ∧ hd.rank = f.rank
  last : ∃ t, v.syncs[f.id]? = some t ∧ t.nrRanks = 0 ∧ t.arrived.head? = some f.rank
  nodup : f.others.Nodup
  parked : ∀ r ∈ f.others, v.ParkedAt r f.id

structure Parked (v : View) (hold : Tid → Option Hold) (fired : Tid → Option Fired) : Prop where
  waiting : ∀ (id : Nat) (t : Sync), v.syncs[id]? = some t → t.Blocking → t.nrRanks ≠ 0 →
    ∀ r ∈ t.arrived, v.ParkedAt r id
  firedOk : ∀ w f, fired w = some f → FiredOk v hold w f

namespace Parked

variable {v v' : View} {hold hold' : Tid → Option Hold} {fired fired' : Tid → Option Fired} {r : RankId}

/-- Something happens to a rank that is not parked, and to no sync. -/
theorem change (h : Parked v hold fired) (hr : v.owner r ≠ .parked)
    (hsame : ∀ r', r' ≠ r → v'.jobs r' = v.jobs r' ∧ v'.owner r' = v.owner r') (hsyncs : v'.syncs = v.syncs)
    (hfired : ∀ w f, fired' w = some f → fired w = some f ∧ ∀ hd, hold w = some hd →
      ∃ hd', hold' w = some hd' ∧ hd'.rank = hd.rank) : Parked v' hold' fired' := by
  have hpark : ∀ r' id, v.ParkedAt r' id → v'.ParkedAt r' id := fun r' id hp =>
    hp.of_ne (by rintro rfl; exact hr hp.1) hsame
  constructor
  · intro id t ht hb hz r' hr'
    exact hpark r' id (h.waiting id t (hsyncs ▸ ht) hb hz r' hr')
  · intro w f hf
    obtain ⟨hf, hkeep⟩ := hfired w f hf
    obtain ⟨⟨hd, hhd, hrank⟩, hlast, hnodup, hparked⟩ := h.firedOk w f hf
    obtain ⟨hd', hhd', hrank'⟩ := hkeep hd hhd
    exact ⟨⟨hd', hhd', hrank'.trans hrank⟩, hsyncs ▸ hlast, hnodup, fun r' hr' => hpark _ _ (hparked r' hr')⟩

/-- A rank that may still count has not been waited for in vain. -/
theorem ne_of_fired (h : Parked v hold fired) {pending : Ticket → RankId → Nat} (hseats : Seats v.syncs pending)
    {w : Tid} {f : Fired} (hf : fired w = some f) {k : Ticket} (hpos : 0 < pending k r) : f.id ≠ k.1 := by
  obtain ⟨t, ht, hzero, -⟩ := (h.firedOk w f hf).last
  obtain ⟨t', ht', hopen⟩ := hseats.exists_open hpos
  intro hid
  rw [hid, ht', Option.some.injEq] at ht
  subst ht
  exact (hseats.counts _ _ ht').not_open hzero hopen

/-- A job counts, on a rank that is not parked before. If it was for a blocking callback that waits
for more, the rank is parked then. -/
theorem arrive (h : Parked v hold fired) {pending : Ticket → RankId → Nat} (hseats : Seats v.syncs pending)
    {k : Ticket} (hpos : 0 < pending k r) (hr : v.owner r ≠ .parked)
    (hsame : ∀ r', r' ≠ r → v'.jobs r' = v.jobs r' ∧ v'.owner r' = v.owner r')
    (hsyncs : v'.syncs = v.syncs.modify k.1 (·.arrive r))
    (hblock : ∀ t, v.syncs[k.1]? = some t → t.Blocking → t.nrRanks ≠ 1 → v'.ParkedAt r k.1)
    (hfired : ∀ w f, fired' w = some f → (fired w = some f ∧ ∀ hd, hold w = some hd →
      ∃ hd', hold' w = some hd' ∧ hd'.rank = hd.rank) ∨ FiredOk v' hold' w f) : Parked v' hold' fired' := by
  have hpark : ∀ r' id, v.ParkedAt r' id → v'.ParkedAt r' id := fun r' id hp =>
    hp.of_ne (by rintro rfl; exact hr hp.1) hsame
  obtain ⟨t, ht, hopen⟩ := hseats.exists_open hpos
  have hcounts := hseats.counts _ t ht
  constructor
  · intro id t' ht' hb hz r' hr'
    rw [hsyncs] at ht'
    by_cases hid : k.1 = id
    · subst hid
      rw [getElem?_modify_same, ht, Option.map_some, Option.some.injEq] at ht'
      subst ht'
      have hne : t.nrRanks ≠ 1 := fun hone => hz (by simp [Sync.arrive, hone])
      have hpos := hcounts.nrRanks_pos hopen.2.1 hopen.2.2
      rcases List.mem_cons.1 hr' with rfl | hr'
      · exact hblock t ht hb hne
      · exact hpark r' _ (h.waiting _ t ht hb (by omega) r' hr')
    · rw [List.getElem?_modify_ne _ _ hid] at ht'
      exact hpark r' id (h.waiting id t' ht' hb hz r' hr')
  · intro w f hf
    rcases hfired w f hf with ⟨hf, hkeep⟩ | hok
    · have hid := h.ne_of_fired hseats hf hpos
      obtain ⟨⟨hd, hhd, hrank⟩, hlast, hnodup, hparked⟩ := h.firedOk w f hf
      obtain ⟨hd', hhd', hrank'⟩ := hkeep hd hhd
      refine ⟨⟨hd', hhd', hrank'.trans hrank⟩, ?_, hnodup, fun r' hr' => hpark _ _ (hparked r' hr')⟩
      rw [hsyncs, List.getElem?_modify_ne _ _ (Ne.symm hid)]
      exact hlast
    · exact hok

/-- The last rank arrives: all others are parked. -/
theorem fire (h : Parked v hold fired) {pending : Ticket → RankId → Nat} (hseats : Seats v.syncs pending)
    {w : Tid} {id : Nat} (hpos : 0 < pending (id, true) r) {t : Sync}
    (ht : v.syncs[id]? = some t) (hblock : t.Blocking) (hone : t.nrRanks = 1)
    (hsame : ∀ r', r' ≠ r → v'.jobs r' = v.jobs r' ∧ v'.owner r' = v.owner r')
    (hsyncs : v'.syncs = v.syncs.modify id (·.arrive r)) (hheld : ∃ hd, hold' w = some hd ∧ hd.rank = r) :
    FiredOk v' hold' w ⟨r, id, t.ranks.filter (· ≠ r)⟩ := by
  obtain ⟨t', ht', hopen⟩ := hseats.exists_open hpos
  rw [ht, Option.some.injEq] at ht'
  subst ht'
  have hcounts := hseats.counts _ t ht
  refine ⟨hheld, ⟨t.arrive r, ?_, ?_, rfl⟩, hcounts.ranks_nodup.filter _, ?_⟩
  · rw [hsyncs, getElem?_modify_same, ht, Option.map_some]
  · simp [Sync.arrive, hone]
  · intro r' hr'
    obtain ⟨hmem, hne⟩ := List.mem_filter.1 hr'
    have hne : r' ≠ r := of_decide_eq_true hne
    have harrived := hcounts.mem_arrived hone hopen.2.1 hopen.2.2 hmem hne
    exact (h.waiting id t ht hblock (by omega) r' harrived).of_ne hne hsame

/-- The worker of the last rank puts another one back. -/
theorem unpark (h : Parked v hold fired) (hplaces : Places v hold) {w : Tid} {f : Fired} {others : List RankId}
    (hf : fired w = some f) (hothers : f.others = r :: others)
    (hsame : ∀ r', r' ≠ r → v'.jobs r' = v.jobs r' ∧ v'.owner r' = v.owner r') (hsyncs : v'.syncs = v.syncs)
    (hkeep : ∀ w hd, hold w = some hd → ∃ hd', hold' w = some hd' ∧ hd'.rank = hd.rank)
    (hfired : ∀ w' f', fired' w' = some f' → w' = w ∧ f' = { f with others := others } ∨
      w' ≠ w ∧ fired w' = some f') : Parked v' hold' fired' := by
  obtain ⟨⟨hd, hhd, hrank⟩, ⟨t, ht, hzero, hhead⟩, hnodup, hparked⟩ := h.firedOk w f hf
  rw [hothers] at hnodup hparked
  have hr : v.ParkedAt r f.id := hparked r List.mem_cons_self
  constructor
  · intro id t' ht' hb hz r' hr'
    have hp := h.waiting id t' (hsyncs ▸ ht') hb hz r' hr'
    refine hp.of_ne (fun heq => ?_) hsame
    -- the callback that rank `r` waited for has been called
    have hid := hr.unique (heq ▸ hp)
    rw [hsyncs, ← hid, ht, Option.some.injEq] at ht'
    exact hz (ht' ▸ hzero)
  · intro w' f' hf'
    rcases hfired w' f' hf' with ⟨rfl, rfl⟩ | ⟨hne, hf'⟩
    · obtain ⟨hd', hhd', hrank'⟩ := hkeep w' hd hhd
      refine ⟨⟨hd', hhd', hrank'.trans hrank⟩, ⟨t, hsyncs ▸ ht, hzero, hhead⟩, (List.nodup_cons.1 hnodup).2, ?_⟩
      intro r' hr'
      have hne : r' ≠ r := fun heq => (List.nodup_cons.1 hnodup).1 (heq ▸ hr')
      exact (hparked r' (List.mem_cons_of_mem _ hr')).of_ne hne hsame
    · obtain ⟨⟨hd₂, hhd₂, hrank₂⟩, ⟨t₂, ht₂, hzero₂, hhead₂⟩, hnodup₂, hparked₂⟩ := h.firedOk w' f' hf'
      obtain ⟨hd', hhd', hrank'⟩ := hkeep w' hd₂ hhd₂
      refine ⟨⟨hd', hhd', hrank'.trans hrank₂⟩, ⟨t₂, hsyncs ▸ ht₂, hzero₂, hhead₂⟩, hnodup₂, fun r' hr' => ?_⟩
      refine (hparked₂ r' hr').of_ne (fun heq => ?_) hsame
      -- two workers would have the rank that came last
      have hid := hr.unique (heq ▸ hparked₂ r' hr')
      rw [← hid, ht, Option.some.injEq] at ht₂
      rw [← ht₂, hhead, Option.some.injEq] at hhead₂
      exact hplaces.ne_of_held hhd₂ hhd hne (hrank₂.trans (hhead₂.symm.trans hrank.symm))

/-- Something happens to syncs only, and no rank counts. -/
theorem ofSyncs (h : Parked v hold fired) (hjobs : v'.jobs = v.jobs) (howner : v'.owner = v.owner)
    (hwaiting : ∀ (id : Nat) (t' : Sync), v'.syncs[id]? = some t' → t'.arrived = [] ∨
      ∃ t, v.syncs[id]? = some t ∧ t'.master = t.master ∧ t'.nrRanks = t.nrRanks ∧ t'.arrived = t.arrived)
    (hlast : ∀ (id : Nat) (t : Sync), v.syncs[id]? = some t →
      ∃ t', v'.syncs[id]? = some t' ∧ t'.nrRanks = t.nrRanks ∧ t'.arrived = t.arrived) : Parked v' hold fired := by
  have hpark : ∀ r id, v.ParkedAt r id → v'.ParkedAt r id := by
    intro r id hp
    rwa [View.ParkedAt, hjobs, howner]
  constructor
  · intro id t' ht' hb hz r hr
    rcases hwaiting id t' ht' with hnil | ⟨t, ht, hmaster, hnr, harrived⟩
    · simp [hnil] at hr
    · rw [Sync.Blocking, hmaster] at hb
      exact hpark r id (h.waiting id t ht hb (hnr ▸ hz) r (harrived ▸ hr))
  · intro w f hf
    obtain ⟨hheld, ⟨t, ht, hzero, hhead⟩, hnodup, hparked⟩ := h.firedOk w f hf
    obtain ⟨t', ht', hnr, harrived⟩ := hlast _ t ht
    exact ⟨hheld, ⟨t', ht', hnr.trans hzero, harrived ▸ hhead⟩, hnodup, fun r hr => hpark _ _ (hparked r hr)⟩

/-- Parked ranks stay parked, and nothing happens to syncs. -/
theorem congr (h : Parked v hold fired) (hpark : ∀ r id, v.ParkedAt r id → v'.ParkedAt r id)
    (hsyncs : v'.syncs = v.syncs) : Parked v' hold fired where
  waiting id t ht hb hz r hr := hpark r id (h.waiting id t (hsyncs ▸ ht) hb hz r hr)
  firedOk w f hf :=
    have hok := h.firedOk w f hf
    ⟨hok.held, hsyncs ▸ hok.last, hok.nodup, fun r hr => hpark _ _ (hok.parked r hr)⟩

end Parked

/-! ## The whole -/

def Owner.counted : Owner → Bool
  | .ran _ | .parked => true
  | _ => false

namespace View

variable (v : View)

/-- The jobs of a FIFO that are not counted. -/
def uncounted (r : RankId) : List Job := if (v.owner r).counted then (v.jobs r).tail else v.jobs r

/-- The jobs of a ticket that are still to count, where `tk` is those the calls have. -/
def pending (tk : Ticket → RankId → Nat) (k : Ticket) (r : RankId) : Nat := tk k r + ticketsIn k (v.uncounted r)

def arrive (id : Nat) (r : RankId) : View := { v with syncs := v.syncs.modify id (·.arrive r) }

def failSync (id : Nat) (e : Status) : View := { v with syncs := v.syncs.modify id (·.fail e) }

def notify (r : RankId) (e : Status) : View → List Job → View
  | v, [] => v
  | v, job :: rest =>
    match job.body with
    | .sync id => ((v.failSync id e).arrive id r).notify r e rest
    | _ => v.notify r e rest

end View

section

variable {v : View} {r : RankId} {e : Status}

@[simp] theorem View.notify_jobs (jobs : List Job) : (v.notify r e jobs).jobs = v.jobs := by
  induction jobs generalizing v with
  | nil => rfl
  | cons job rest ih =>
    rw [View.notify]
    split <;> exact ih

@[simp] theorem View.notify_owner (jobs : List Job) : (v.notify r e jobs).owner = v.owner := by
  induction jobs generalizing v with
  | nil => rfl
  | cons job rest ih =>
    rw [View.notify]
    split <;> exact ih

@[simp] theorem View.notify_queue (jobs : List Job) : (v.notify r e jobs).queue = v.queue := by
  induction jobs generalizing v with
  | nil => rfl
  | cons job rest ih =>
    rw [View.notify]
    split <;> exact ih

@[simp] theorem View.notify_queueIdx (jobs : List Job) : (v.notify r e jobs).queueIdx = v.queueIdx := by
  induction jobs generalizing v with
  | nil => rfl
  | cons job rest ih =>
    rw [View.notify]
    split <;> exact ih

end

structure Own (v : View) (hold : Tid → Option Hold) (fired : Tid → Option Fired) (tk : Ticket → RankId → Nat) : Prop where
  places : Places v hold
  seats : Seats v.syncs (v.pending tk)
  parked : Parked v hold fired

@[simp] theorem ticketsIn_nil (k : Ticket) : ticketsIn k [] = 0 := rfl

theorem ticketsIn_cons (k : Ticket) (job : Job) (jobs : List Job) :
    ticketsIn k (job :: jobs) = ticketsIn k jobs + if job.body.ticket = some k then 1 else 0 := by
  simp [ticketsIn, List.countP_cons]

theorem ticketsIn_append (k : Ticket) (jobs jobs' : List Job) :
    ticketsIn k (jobs ++ jobs') = ticketsIn k jobs + ticketsIn k jobs' := List.countP_append

theorem ticketsIn_tail_le (k : Ticket) (jobs : List Job) : ticketsIn k jobs.tail ≤ ticketsIn k jobs :=
  (List.tail_sublist jobs).countP_le

namespace Own

variable {v : View} {hold : Tid → Option Hold} {fired : Tid → Option Fired} {tk tk' : Ticket → RankId → Nat}
  {w : Tid} {hd : Hold}

theorem uncounted_of_held (h : Own v hold fired tk) (hw : hold w = some hd) :
    v.uncounted hd.rank = if hd.counted then (v.jobs hd.rank).tail else v.jobs hd.rank := by
  rw [View.uncounted, h.places.owner_of_held hw, Hold.owner]
  cases hd.counted <;> rfl

theorem jobs_of_held (h : Own v hold fired tk) (hw : hold w = some hd) :
    v.jobs hd.rank = hd.job :: (v.jobs hd.rank).tail :=
  (List.cons_head?_tail (h.places.held w hd hw).2).symm

theorem not_parked_of_held (h : Own v hold fired tk) (hw : hold w = some hd) : v.owner hd.rank ≠ .parked := by
  rw [h.places.owner_of_held hw, Hold.owner]
  split
  · intro hparked
    cases hparked
  · intro hparked
    cases hparked

/-- The first job of a rank that a worker has taken is still to count. -/
theorem pending_pos (h : Own v hold fired tk) (hw : hold w = some hd) (hc : hd.counted = false) {k : Ticket}
    (hk : hd.job.body.ticket = some k) : 0 < v.pending tk k hd.rank := by
  have hjobs := h.jobs_of_held hw
  rw [View.pending, h.uncounted_of_held hw, hc, if_neg (by simp), hjobs, ticketsIn_cons, if_pos hk]
  omega

/-- The calls have fewer tickets, and fewer workers put ranks back. -/
theorem mono (h : Own v hold fired tk) {fired' : Tid → Option Fired} (htk : ∀ k r, tk' k r ≤ tk k r)
    (hfired : ∀ w f, fired' w = some f → fired w = some f) : Own v hold fired' tk' where
  places := h.places
  seats := h.seats.mono fun k r => by
    have := htk k r
    simp only [View.pending]
    omega
  parked := ⟨h.parked.waiting, fun w f hf => h.parked.firedOk w f (hfired w f hf)⟩

/-- Only rank `r` is touched, and it has the same jobs to count. -/
theorem seats_of_uncounted (h : Own v hold fired tk) {v' : View} (r : RankId) (hsyncs : v'.syncs = v.syncs)
    (hsame : ∀ r', r' ≠ r → v'.jobs r' = v.jobs r' ∧ v'.owner r' = v.owner r')
    (hr : v'.uncounted r = v.uncounted r) : Seats v'.syncs (v'.pending tk) := by
  rw [hsyncs]
  refine h.seats.mono fun k r' => le_of_eq ?_
  rw [View.pending, View.pending]
  by_cases hrr : r' = r
  · rw [hrr, hr]
  · obtain ⟨hjobs, howner⟩ := hsame r' hrr
    rw [View.uncounted, View.uncounted, hjobs, howner]

/-- The worker of a rank keeps it. -/
theorem keep_rank (hd' : Hold) (hw : hold w = some hd) (hrank : hd'.rank = hd.rank) (w' : Tid) (x : Hold)
    (hx : hold w' = some x) : ∃ x', update hold w (some hd') w' = some x' ∧ x'.rank = x.rank := by
  by_cases hww : w' = w
  · subst hww
    rw [hw, Option.some.injEq] at hx
    exact ⟨hd', by rw [update_self], by rw [hrank, hx]⟩
  · exact ⟨x, by rw [update_of_ne hww, hx], rfl⟩

/-- The others keep their ranks. -/
theorem keep_others {hd' : Option Hold} {w' : Tid} (hne : w' ≠ w) (x : Hold) (hx : hold w' = some x) :
    ∃ x', update hold w hd' w' = some x' ∧ x'.rank = x.rank := ⟨x, by rw [update_of_ne hne, hx], rfl⟩

theorem fired_ne (hf : fired w = none) {w' : Tid} {f : Fired} (hf' : fired w' = some f) : w' ≠ w := by
  rintro rfl
  simp [hf] at hf'

theorem take (h : Own v hold fired tk) {q : Nat} {job : Job} {rest : List (Option Job)} (hq : v.queue q = some job :: rest)
    (hw : hold w = none) (hf : fired w = none) :
    Own ((v.setQueue q rest).setOwner job.rank (.taken w)) (update hold w (some ⟨job.rank, job, false⟩)) fired tk := by
  have howner := (h.places.queued q job (by rw [hq]; exact List.mem_cons_self)).1
  have hsame : ∀ r', r' ≠ job.rank → v.jobs r' = v.jobs r' ∧ update v.owner job.rank (.taken w) r' = v.owner r' :=
    fun r' hr => ⟨rfl, update_of_ne hr _ _⟩
  refine ⟨h.places.take hq hw, h.seats_of_uncounted job.rank rfl hsame ?_, ?_⟩
  · simp [View.uncounted, View.setOwner, View.setQueue, howner, Owner.counted]
  · have hqueued : v.owner job.rank ≠ .parked := by
      intro hparked
      rw [howner] at hparked
      cases hparked
    exact h.parked.change hqueued hsame rfl fun w' f hf' => ⟨hf', keep_others (fired_ne hf hf')⟩

theorem setQueue (h : Own v hold fired tk) {q : Nat} {entries : List (Option Job)} (hsub : entries.Sublist (v.queue q)) :
    Own (v.setQueue q entries) hold fired tk where
  places := h.places.setQueue hsub
  seats := h.seats
  parked := ⟨h.parked.waiting, fun w f hf =>
    have hok := h.parked.firedOk w f hf
    ⟨hok.held, hok.last, hok.nodup, hok.parked⟩⟩

/-- The first job is begun. -/
theorem count (h : Own v hold fired tk) (hw : hold w = some hd) (hc : hd.counted = false) (hf : fired w = none) :
    Own (v.setOwner hd.rank (.ran w)) (update hold w (some { hd with counted := true })) fired tk := by
  have hsame : ∀ r', r' ≠ hd.rank → v.jobs r' = v.jobs r' ∧ update v.owner hd.rank (.ran w) r' = v.owner r' :=
    fun r' hr => ⟨rfl, update_of_ne hr _ _⟩
  refine ⟨?_, ?_, ?_⟩
  · refine h.places.keep hw (.ran w) _ nofun ?_
    rintro x ⟨⟩
    exact ⟨rfl, rfl, rfl⟩
  · refine h.seats.mono fun k r => ?_
    by_cases hr : r = hd.rank
    · subst hr
      have hle := ticketsIn_tail_le k (v.jobs hd.rank)
      simp only [View.pending, View.uncounted, View.setOwner_owner, update_self, View.setOwner_jobs,
        h.places.owner_of_held hw, Hold.owner, hc, Owner.counted]
      simpa using hle
    · simp [View.pending, View.uncounted, hr]
  · exact h.parked.change (h.not_parked_of_held hw) hsame rfl fun w' f hf' =>
      ⟨hf', keep_others (fired_ne hf hf')⟩

/-- One less is pending once the first job has counted. -/
theorem pending_counted (h : Own v hold fired tk) (hw : hold w = some hd) (hc : hd.counted = false) {k : Ticket}
    (hk : hd.job.body.ticket = some k) (o : Owner) (ho : o.counted = true) (k' : Ticket) (r : RankId) :
    ((v.arrive k.1 hd.rank).setOwner hd.rank o).pending tk k' r + (if k' = k ∧ r = hd.rank then 1 else 0) =
      v.pending tk k' r := by
  by_cases hr : r = hd.rank
  · subst hr
    have hjobs := h.jobs_of_held hw
    have hold' : v.uncounted hd.rank = hd.job :: (v.jobs hd.rank).tail := by
      rw [h.uncounted_of_held hw, hc, if_neg (by simp)]
      exact hjobs
    have hnew : ((v.arrive k.1 hd.rank).setOwner hd.rank o).uncounted hd.rank = (v.jobs hd.rank).tail := by
      simp [View.uncounted, View.setOwner, View.arrive, ho]
    rw [View.pending, View.pending, hnew, hold', ticketsIn_cons, hk]
    simp only [and_true, Option.some.injEq, eq_comm (a := k)]
    omega
  · simp [View.pending, View.uncounted, View.setOwner, View.arrive, hr]

/-- A job counts for its sync, and the worker keeps the rank. -/
theorem arrive (h : Own v hold fired tk) (hw : hold w = some hd) (hc : hd.counted = false) (hf : fired w = none)
    {k : Ticket} (hk : hd.job.body.ticket = some k)
    (hblock : ∀ t, v.syncs[k.1]? = some t → ¬ t.Blocking) :
    Own ((v.arrive k.1 hd.rank).setOwner hd.rank (.ran w)) (update hold w (some { hd with counted := true })) fired tk := by
  have hpos := h.pending_pos hw hc hk
  have hpending := h.pending_counted hw hc hk (.ran w) rfl
  refine ⟨?_, h.seats.arrive hpos fun k' r' => le_of_eq (hpending k' r'), ?_⟩
  · have hkeep := h.places.keep hw (.ran w) (some { hd with counted := true }) nofun (by
      rintro x ⟨⟩
      exact ⟨rfl, rfl, rfl⟩)
    exact ⟨hkeep.home, hkeep.idle, hkeep.queued, hkeep.distinct, hkeep.held⟩
  · exact h.parked.arrive h.seats hpos (h.not_parked_of_held hw) (fun r' hr => ⟨rfl, update_of_ne hr _ _⟩) rfl
      (fun t ht hb => absurd hb (hblock t ht)) fun w' f hf' => .inl ⟨hf', keep_others (fired_ne hf hf')⟩

/-- A job counts for its master job, and its rank waits for others. -/
theorem park (h : Own v hold fired tk) (hw : hold w = some hd) (hc : hd.counted = false) (hf : fired w = none)
    {id : Nat} (hk : hd.job.body = .member id) :
    Own ((v.arrive id hd.rank).setOwner hd.rank .parked) (update hold w none) fired tk := by
  have hticket : hd.job.body.ticket = some (id, true) := by rw [hk]; rfl
  have hpos := h.pending_pos hw hc hticket
  have hpending := h.pending_counted hw hc hticket .parked rfl
  refine ⟨?_, h.seats.arrive hpos fun k' r' => le_of_eq (hpending k' r'), ?_⟩
  · have hkeep := h.places.keep hw .parked none nofun nofun
    exact ⟨hkeep.home, hkeep.idle, hkeep.queued, hkeep.distinct, hkeep.held⟩
  · refine h.parked.arrive h.seats hpos (h.not_parked_of_held hw) (fun r' hr => ⟨rfl, update_of_ne hr _ _⟩) rfl ?_
      fun w' f hf' => .inl ⟨hf', keep_others (fired_ne hf hf')⟩
    intro t _ _ _
    exact ⟨update_self _ _ _, hd.job, (h.places.held w hd hw).2, hk⟩

/-- The last job of a blocking callback counts. -/
theorem fire (h : Own v hold fired tk) (hw : hold w = some hd) (hc : hd.counted = false) (hf : fired w = none)
    {id : Nat} (hk : hd.job.body = .member id) {t : Sync} (ht : v.syncs[id]? = some t) (hblock : t.Blocking)
    (hone : t.nrRanks = 1) :
    Own ((v.arrive id hd.rank).setOwner hd.rank (.ran w)) (update hold w (some { hd with counted := true }))
      (update fired w (some ⟨hd.rank, id, t.ranks.filter (· ≠ hd.rank)⟩)) tk := by
  have hticket : hd.job.body.ticket = some (id, true) := by rw [hk]; rfl
  have hpos := h.pending_pos hw hc hticket
  have hpending := h.pending_counted hw hc hticket (.ran w) rfl
  have hsame : ∀ r', r' ≠ hd.rank → v.jobs r' = v.jobs r' ∧ update v.owner hd.rank (.ran w) r' = v.owner r' :=
    fun r' hr => ⟨rfl, update_of_ne hr _ _⟩
  have hkept := keep_rank { hd with counted := true } hw rfl
  refine ⟨?_, h.seats.arrive hpos fun k' r' => le_of_eq (hpending k' r'), ?_⟩
  · have hkeep := h.places.keep hw (.ran w) (some { hd with counted := true }) nofun (by
      rintro x ⟨⟩
      exact ⟨rfl, rfl, rfl⟩)
    exact ⟨hkeep.home, hkeep.idle, hkeep.queued, hkeep.distinct, hkeep.held⟩
  · refine h.parked.arrive h.seats hpos (h.not_parked_of_held hw) hsame rfl ?_ ?_
    · intro t' ht' _ hne
      rw [ht, Option.some.injEq] at ht'
      exact absurd (ht' ▸ hone) hne
    · intro w' f hf'
      by_cases hww : w' = w
      · subst hww
        rw [update_self, Option.some.injEq] at hf'
        subst hf'
        exact .inr (h.parked.fire h.seats hpos ht hblock hone hsame rfl (hkept w' hd hw))
      · rw [update_of_ne hww] at hf'
        exact .inl ⟨hf', hkept w'⟩

/-- The worker of a rank gets to the next job. -/
theorem advance (h : Own v hold fired tk) (hw : hold w = some hd) (hc : hd.counted = true) (hf : fired w = none) :
    Own (v.advance hd.rank (.taken w))
      (update hold w ((v.jobs hd.rank).tail.head?.map fun job => ⟨hd.rank, job, false⟩)) fired tk := by
  have hsame : ∀ r', r' ≠ hd.rank → (v.advance hd.rank (.taken w)).jobs r' = v.jobs r' ∧
      (v.advance hd.rank (.taken w)).owner r' = v.owner r' := fun r' hr =>
    ⟨update_of_ne hr _ _, update_of_ne hr _ _⟩
  refine ⟨h.places.advance hw, h.seats_of_uncounted hd.rank rfl hsame ?_, ?_⟩
  · rw [h.uncounted_of_held hw, hc, if_pos rfl]
    simp only [View.uncounted, View.advance, View.setOwner_owner, update_self, View.setOwner_jobs, View.setJobs_jobs]
    by_cases htail : (v.jobs hd.rank).tail = [] <;> simp [htail, Owner.counted]
  · exact h.parked.change (h.not_parked_of_held hw) hsame rfl fun w' f hf' => ⟨hf', keep_others (fired_ne hf hf')⟩

theorem requeue (h : Own v hold fired tk) (hw : hold w = some hd) (hc : hd.counted = false) (hf : fired w = none) :
    Own ((v.push (v.queueIdx hd.rank) (some hd.job)).setOwner hd.rank .queued) (update hold w none) fired tk := by
  have hsame : ∀ r', r' ≠ hd.rank → v.jobs r' = v.jobs r' ∧ update v.owner hd.rank .queued r' = v.owner r' :=
    fun r' hr => ⟨rfl, update_of_ne hr _ _⟩
  refine ⟨h.places.requeue hw, h.seats_of_uncounted hd.rank rfl hsame ?_, ?_⟩
  · rw [h.uncounted_of_held hw, hc, if_neg (by simp)]
    simp [View.uncounted, Owner.counted]
  · exact h.parked.change (h.not_parked_of_held hw) hsame rfl fun w' f hf' => ⟨hf', keep_others (fired_ne hf hf')⟩

/-- The worker of the last rank puts another one back. -/
theorem unpark (h : Own v hold fired tk) {f : Fired} {r : RankId} {others : List RankId} (hf : fired w = some f)
    (hothers : f.others = r :: others) :
    Own ((v.advance r .queued).push (v.queueIdx r) (v.jobs r).tail.head?) hold
      (update fired w (some { f with others := others })) tk := by
  have hparked := (h.parked.firedOk w f hf).parked r (by rw [hothers]; exact List.mem_cons_self)
  have hsame : ∀ r', r' ≠ r → (v.advance r .queued).jobs r' = v.jobs r' ∧
      (v.advance r .queued).owner r' = v.owner r' := fun r' hr => ⟨update_of_ne hr _ _, update_of_ne hr _ _⟩
  refine ⟨h.places.unpark hparked.1, h.seats_of_uncounted r rfl hsame ?_, ?_⟩
  · have hold : v.uncounted r = (v.jobs r).tail := by simp [View.uncounted, hparked.1, Owner.counted]
    rw [hold]
    simp only [View.uncounted, View.push_owner, View.push_jobs, View.advance, View.setOwner_owner, update_self,
      View.setOwner_jobs, View.setJobs_jobs]
    by_cases htail : (v.jobs r).tail = [] <;> simp [htail, Owner.counted]
  · refine h.parked.unpark h.places hf hothers hsame rfl (fun w hd hw => ⟨hd, hw, rfl⟩) fun w' f' hf' => ?_
    by_cases hww : w' = w
    · subst hww
      rw [update_self, Option.some.injEq] at hf'
      exact .inl ⟨rfl, hf'.symm⟩
    · rw [update_of_ne hww] at hf'
      exact .inr ⟨hww, hf'⟩

theorem addJobs (h : Own v hold fired tk) {r : RankId} {jobs : List Job} (hjobs : ∀ job ∈ jobs, job.rank = r)
    (htk : ∀ k r', tk' k r' + (if r' = r then ticketsIn k jobs else 0) ≤ tk k r') :
    Own (v.addJobs r jobs) hold fired tk' := by
  have hsyncs : (v.addJobs r jobs).syncs = v.syncs := by
    unfold View.addJobs
    split <;> rfl
  have hother : ∀ r', r' ≠ r → (v.addJobs r jobs).jobs r' = v.jobs r' ∧ (v.addJobs r jobs).owner r' = v.owner r' := by
    intro r' hr
    unfold View.addJobs
    split <;> simp [hr]
  have huncounted : (v.addJobs r jobs).uncounted r = v.uncounted r ++ jobs := by
    by_cases hempty : v.jobs r = []
    · have hnone : v.uncounted r = [] := by simp [View.uncounted, hempty]
      rw [hnone, View.addJobs, if_pos hempty]
      by_cases hnil : jobs = [] <;> simp [View.uncounted, hnil, Owner.counted]
    · rw [View.addJobs, if_neg hempty]
      simp only [View.uncounted, View.setJobs_owner, View.setJobs_jobs, update_self]
      split
      · exact List.tail_append_of_ne_nil hempty
      · rfl
  refine ⟨h.places.addJobs hjobs, ?_, h.parked.congr ?_ hsyncs⟩
  · rw [hsyncs]
    refine h.seats.mono fun k r' => ?_
    have hle := htk k r'
    rw [View.pending, View.pending]
    by_cases hr : r' = r
    · subst hr
      rw [if_pos rfl] at hle
      rw [huncounted, ticketsIn_append]
      omega
    · obtain ⟨hj, ho⟩ := hother r' hr
      rw [if_neg hr] at hle
      rw [View.uncounted, View.uncounted, hj, ho]
      omega
  · intro r' id hp
    by_cases hr : r' = r
    · subst hr
      obtain ⟨howner, job, hjob, hbody⟩ := hp
      have hne : v.jobs r' ≠ [] := fun hnil => by simp [hnil] at hjob
      rw [View.addJobs, if_neg hne]
      refine ⟨howner, job, ?_, hbody⟩
      rw [View.setJobs_jobs, update_self, List.head?_append_of_ne_nil _ hne]
      exact hjob
    · exact hp.of_ne hr hother

/-- A call makes a sync, for jobs it is to put on its ranks. -/
theorem newSync (h : Own v hold fired tk) {t : Sync} (hlen : t.nrRanks = t.ranks.length) (hnodup : t.ranks.Nodup)
    (harrived : t.arrived = [])
    (htk : ∀ k r, tk' k r ≤ tk k r + if k = (v.syncs.length, t.master.isSome) ∧ r ∈ t.ranks then 1 else 0) :
    Own { v with syncs := v.syncs ++ [t] } hold fired tk' where
  places := ⟨h.places.home, h.places.idle, h.places.queued, h.places.distinct, h.places.held⟩
  seats := by
    refine h.seats.newSync hlen hnodup harrived fun k r => ?_
    have hle := htk k r
    rw [View.pending, View.pending]
    change tk' k r + ticketsIn k (v.uncounted r) ≤ _
    omega
  parked := by
    refine h.parked.ofSyncs rfl rfl (fun id t' ht' => ?_) fun id t' ht' => ?_
    · rw [List.getElem?_append] at ht'
      split at ht'
      · exact .inr ⟨t', ht', rfl, rfl, rfl⟩
      · rw [List.getElem?_singleton, Option.ite_none_right_eq_some, Option.some.injEq] at ht'
        exact .inl (ht'.2 ▸ harrived)
    · have hlt : id < v.syncs.length := (List.getElem?_eq_some_iff.1 ht').1
      exact ⟨t', by rw [List.getElem?_append_left hlt, ht'], rfl, rfl⟩

/-- The syncs of the jobs of a drained FIFO: each has its rank counted. -/
theorem notify {r : RankId} {e : Status} (jobs : List Job) {v : View} {pending : Ticket → RankId → Nat}
    (pending' : Ticket → RankId → Nat) (hseats : Seats v.syncs pending) (hparked : Parked v hold fired) (hr : v.owner r ≠ .parked)
    (hle : ∀ k r', pending' k r' + (if r' = r then ticketsIn k jobs else 0) ≤ pending k r') :
    Seats (v.notify r e jobs).syncs pending' ∧ Parked (v.notify r e jobs) hold fired := by
  induction jobs generalizing v pending with
  | nil => exact ⟨hseats.mono fun k r' => by simpa using hle k r', hparked⟩
  | cons job rest ih =>
    cases hbody : job.body with
    | sync id =>
      have hrest : ∀ k r', (pending' k r' + if r' = r then ticketsIn k rest else 0) +
          (if k = (id, false) ∧ r' = r then 1 else 0) ≤ pending k r' := by
        intro k r'
        have hk := hle k r'
        rw [ticketsIn_cons, hbody] at hk
        by_cases hrr : r' = r
        · simp only [hrr, if_true, and_true, Body.ticket, Option.some.injEq, eq_comm (a := k)] at hk ⊢
          omega
        · simp only [hrr, if_false, and_false] at hk ⊢
          omega
      have hpos : 0 < pending (id, false) r := by
        have hk := hrest (id, false) r
        simp only [and_self, if_true] at hk
        omega
      have hfail : Seats (v.failSync id e).syncs pending := hseats.fail id e
      have hfailed : Parked (v.failSync id e) hold fired := by
        refine hparked.ofSyncs rfl rfl (fun id' t' ht' => .inr ?_) fun id' t ht => ?_
        · by_cases hid : id = id'
          · subst hid
            rw [View.failSync, getElem?_modify_same] at ht'
            obtain ⟨t, ht, rfl⟩ := Option.map_eq_some_iff.1 ht'
            refine ⟨t, ht, ?_⟩
            unfold Sync.fail
            split <;> exact ⟨rfl, rfl, rfl⟩
          · rw [View.failSync, List.getElem?_modify_ne _ _ hid] at ht'
            exact ⟨t', ht', rfl, rfl, rfl⟩
        · by_cases hid : id = id'
          · subst hid
            refine ⟨t.fail e, by rw [View.failSync, getElem?_modify_same, ht, Option.map_some], ?_⟩
            unfold Sync.fail
            split <;> exact ⟨rfl, rfl⟩
          · exact ⟨t, by rw [View.failSync, List.getElem?_modify_ne _ _ hid, ht], rfl, rfl⟩
      obtain ⟨t, ht, hopen⟩ := hfail.exists_open hpos
      have harrived : Parked ((v.failSync id e).arrive id r) hold fired := by
        refine hfailed.arrive hfail hpos hr (fun r' _ => ⟨rfl, rfl⟩) rfl ?_ fun w f hf => .inl ⟨hf, ?_⟩
        · rintro t' ht' ⟨m, hm, -⟩ _
          rw [ht, Option.some.injEq] at ht'
          have hmaster := hopen.1
          rw [ht', hm] at hmaster
          cases hmaster
        · exact fun hd hhd => ⟨hd, hhd, rfl⟩
      rw [View.notify, hbody]
      exact ih (hfail.arrive hpos hrest) harrived hr fun k r' => Nat.le_refl _
    | _ =>
      rw [View.notify, hbody]
      refine ih hseats hparked hr fun k r' => ?_
      have hk := hle k r'
      rw [ticketsIn_cons] at hk
      by_cases hrr : r' = r
      · simp only [hrr, if_true] at hk ⊢
        omega
      · simpa [hrr] using hk

/-- The FIFO of a failed job is drained. -/
theorem drain (h : Own v hold fired tk) (hw : hold w = some hd) (hc : hd.counted = true) (hf : fired w = none)
    (hsync : ∀ id, hd.job.body ≠ .sync id) (e : Status) :
    Own (((v.notify hd.rank e (v.jobs hd.rank)).setJobs hd.rank []).setOwner hd.rank .idle) (update hold w none) fired
      tk := by
  have hjobs := h.jobs_of_held hw
  have hskip : v.notify hd.rank e (v.jobs hd.rank) = v.notify hd.rank e (v.jobs hd.rank).tail := by
    conv_lhs => rw [hjobs]
    rw [View.notify]
    split
    · next id hid => exact absurd hid (hsync id)
    · rfl
  obtain ⟨hseats, hparked⟩ := notify (r := hd.rank) (e := e) (v.jobs hd.rank).tail
    (fun k r => tk k r + if r = hd.rank then 0 else ticketsIn k (v.uncounted r)) h.seats h.parked (h.not_parked_of_held hw) (by
      intro k r
      rw [View.pending]
      by_cases hr : r = hd.rank
      · subst hr
        rw [h.uncounted_of_held hw, hc]
        simp
      · simp [hr])
  rw [hskip]
  refine ⟨?_, hseats.mono fun k r => ?_, ?_⟩
  · have hdrain := h.places.drain hw
    refine ⟨?_, ?_, ?_, ?_, ?_⟩
    · simpa using hdrain.home
    · simpa using hdrain.idle
    · simpa using hdrain.queued
    · simpa using hdrain.distinct
    · simpa using hdrain.held
  · rw [View.pending]
    by_cases hr : r = hd.rank
    · subst hr
      simp [View.uncounted, Owner.counted]
    · simp [View.uncounted, hr]
  · refine hparked.change (r := hd.rank) ?_ (fun r' hr => ?_) rfl fun w' f hf' => ⟨hf', keep_others (fired_ne hf hf')⟩
    · rw [View.notify_owner]
      exact h.not_parked_of_held hw
    · simp [hr]

end Own

end DpuBackend.Jobs
