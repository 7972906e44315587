import Mathlib.Algebra.BigOperators.Group.List.Basic
import Mathlib.Data.Finset.Card
import Mathlib.Data.Finset.Prod
import Mathlib.Data.Nat.Prime.Basic
import Mathlib.Data.UInt

/-
  The share of an entangled group: `num_comm_rg`.

  The collectives ask how many of the 8 consecutive DPUs of an entangled group
  are in one communication group. The loop that answers clips every axis to what
  is left of 8 below it and multiplies what is left of the communicating ones
  (`share`). A count over the positions of the entangled group, axis by axis,
  gives the same product, since powers of two divide each other (`card_share`).

  The running length has 32 bits. Where the axis that completes 8 makes it
  2^32 or more, it is 0 from then on: the loops that separate their two
  conditions by a comma then have only `len<8` to stop them, and leave the
  axes. `shares_iff` says that nothing else goes wrong.

  Model (Lean)              Source (C, api/src/api/dpu_memory.c)
  numCommRgLoop             the loop of num_comm_rg
  alltoallShare             pidcomm_alltoall, `dim<dimension&&len<8`
  allgatherShare, allReduceShare, reduceScatterShare
                            the other three, `dim<dimension, len<8`
-/

namespace DpuBackend.PidComm.GroupShare

/-! ## The loops -/

/-- `axis_len[dim]` and `comm_axis[dim]`. -/
structure Axis where
  axisLen : UInt32
  commAxis : UInt32
deriving DecidableEq, Repr

inductive Fault where
  | outsideDimension
  | divisionByZero
deriving DecidableEq, Repr

/-- The body of the loop. -/
def numCommRgStep (a : Axis) (len numCommRg : UInt32) : Except Fault UInt32 := do
  let numCommRg ←
    if a.commAxis = 1 then
      if len = 0 then .error .divisionByZero
      else .ok (if a.axisLen ≤ 8 / len then numCommRg * a.axisLen else numCommRg * (8 / len))
    else .ok numCommRg
  .ok (if numCommRg ≥ 8 then 8 else numCommRg)

/-- The loop from `dim` on, with the axes from there; at the end of them `dim`
is `dimension`, where only a loop that is bounded by it stops. -/
def numCommRgLoop (bounded : Bool) : List Axis → UInt32 → UInt32 → Except Fault UInt32
  | [], len, numCommRg =>
    if bounded then .ok numCommRg
    else if len < 8 then .error .outsideDimension
    else .ok numCommRg
  | a :: axes, len, numCommRg =>
    if len < 8 then do
      let numCommRg ← numCommRgStep a len numCommRg
      numCommRgLoop bounded axes (len * a.axisLen) numCommRg
    else .ok numCommRg

def alltoallShare (axes : List Axis) : Except Fault UInt32 := numCommRgLoop true axes 1 1

def allgatherShare (axes : List Axis) : Except Fault UInt32 := numCommRgLoop false axes 1 1

def allReduceShare (axes : List Axis) : Except Fault UInt32 := numCommRgLoop false axes 1 1

def reduceScatterShare (axes : List Axis) : Except Fault UInt32 := numCommRgLoop false axes 1 1

/-! ## What the loops are for -/

def Axis.length (a : Axis) : Nat := a.axisLen.toNat

def nrDpus (axes : List Axis) : Nat := (axes.map Axis.length).prod

def PowersOfTwo (axes : List Axis) : Prop := ∀ a ∈ axes, ∃ k, a.length = 2 ^ k

/-- A hypercube of whole ranks, with axes that are powers of two. -/
structure Cube where
  axes : List Axis
  powersOfTwo : PowersOfTwo axes
  whole_ranks : 64 ∣ nrDpus axes

/-- The DPUs `u` and `v` are in one communication group: their positions on the
axes that do not communicate are the same. The first axis is the innermost. -/
def sameGroup : List Axis → Nat → Nat → Bool
  | [], _, _ => true
  | a :: axes, u, v =>
    (decide (a.commAxis = 1) || decide (u % a.length = v % a.length)) && sameGroup axes (u / a.length) (v / a.length)

/-- The members of the communication group of `v` among the `b` positions that
follow `b * (v / b)`. -/
def members (axes : List Axis) (b v : Nat) : Finset Nat :=
  (Finset.range b).filter fun t => sameGroup axes (b * (v / b) + t) v = true

/-- No loop reads an axis that does not exist or divides by zero, and all four
have the number of DPUs that a communication group has in an entangled group. -/
def Shares (axes : List Axis) : Prop :=
  ∃ numCommRg : UInt32,
    (alltoallShare axes = .ok numCommRg ∧ allgatherShare axes = .ok numCommRg ∧
      allReduceShare axes = .ok numCommRg ∧ reduceScatterShare axes = .ok numCommRg) ∧
    ∀ v < nrDpus axes, (members axes 8 v).card = numCommRg.toNat

/-- The length that the loop runs to, as an integer, has 32 bits. -/
def FitsFrom : List Axis → Nat → Prop
  | [], _ => True
  | a :: axes, len => len < 8 → len * a.length < 2 ^ 32 ∧ FitsFrom axes (len * a.length)

def Fits (axes : List Axis) : Prop := FitsFrom axes 1

/-- The product the loop computes, with `b` left of the 8 positions. -/
def share : List Axis → Nat → Nat
  | [], _ => 1
  | a :: axes, b => (if a.commAxis = 1 then min a.length b else 1) * share axes (b / min a.length b)

/-! ## Powers of two -/

theorem dvd_of_pow_le {a b : Nat} (ha : ∃ i, a = 2 ^ i) (hb : ∃ j, b = 2 ^ j) (h : a ≤ b) : a ∣ b := by
  obtain ⟨i, rfl⟩ := ha
  obtain ⟨j, rfl⟩ := hb
  exact Nat.pow_dvd_pow 2 ((Nat.pow_le_pow_iff_right (by decide)).mp h)

theorem pow_of_mul {a b c : Nat} (ha : ∃ i, a = 2 ^ i) (hb : ∃ j, b = 2 ^ j) (h : b = a * c) : ∃ k, c = 2 ^ k := by
  obtain ⟨i, rfl⟩ := ha
  obtain ⟨j, rfl⟩ := hb
  have hdvd : c ∣ 2 ^ j := Dvd.intro_left _ h.symm
  obtain ⟨k, _, hk⟩ := (Nat.dvd_prime_pow Nat.prime_two).mp hdvd
  exact ⟨k, hk⟩

/-- What an axis leaves of `b` positions divides the axes behind it. -/
theorem dvd_rest {a b n : Nat} (ha : ∃ i, a = 2 ^ i) (hb : ∃ j, b = 2 ^ j) (h : b ∣ a * n) : b / min a b ∣ n := by
  have hapos : 0 < a := by
    obtain ⟨i, rfl⟩ := ha
    exact Nat.pow_pos (by decide)
  have hbpos : 0 < b := by
    obtain ⟨j, rfl⟩ := hb
    exact Nat.pow_pos (by decide)
  rcases Nat.le_total a b with hle | hle
  · obtain ⟨c, rfl⟩ := dvd_of_pow_le ha hb hle
    rw [Nat.min_eq_left hle, Nat.mul_div_cancel_left _ hapos]
    exact Nat.dvd_of_mul_dvd_mul_left hapos h
  · rw [Nat.min_eq_right hle, Nat.div_self hbpos]
    exact Nat.one_dvd n

theorem Axis.length_pos {axes : List Axis} {a : Axis} (h : PowersOfTwo axes) (ha : a ∈ axes) : 0 < a.length := by
  obtain ⟨k, hk⟩ := h a ha
  rw [hk]
  exact Nat.pow_pos (by decide)

theorem PowersOfTwo.tail {a : Axis} {axes : List Axis} (h : PowersOfTwo (a :: axes)) : PowersOfTwo axes :=
  fun c hc => h c (List.mem_cons_of_mem a hc)

/-! ## Counting the members -/

theorem sameGroup_refl (axes : List Axis) (v : Nat) : sameGroup axes v v = true := by
  induction axes generalizing v with
  | nil => rfl
  | cons a axes ih => simp [sameGroup, ih]

theorem share_one (axes : List Axis) (h : PowersOfTwo axes) : share axes 1 = 1 := by
  induction axes with
  | nil => rfl
  | cons a axes ih =>
    have hmin : min a.length 1 = 1 := Nat.min_eq_right (Axis.length_pos h (List.mem_cons_self))
    rw [share, hmin, ih h.tail]
    simp

/-- The positions an axis leaves free: all `m` of them, or the one of `v`. -/
def free (a : Axis) (m v : Nat) : Finset Nat := if a.commAxis = 1 then Finset.range m else {v % m}

theorem card_free (a : Axis) (m v : Nat) : (free a m v).card = if a.commAxis = 1 then m else 1 := by
  rw [free]
  split
  · exact Finset.card_range m
  · exact Finset.card_singleton _

theorem mem_free {a : Axis} {m v x : Nat} (hm : 0 < m) :
    x ∈ free a m v ↔ x < m ∧ (a.commAxis = 1 ∨ x = v % m) := by
  have hlt := Nat.mod_lt v hm
  rw [free]
  split
  · simp [*]
  · simp only [Finset.mem_singleton, *, false_or]
    omega

/-- An axis that fits in what is left: a position on it, and one on the others. -/
theorem card_members_le {a : Axis} {axes : List Axis} {b c v : Nat} (hpos : 0 < a.length) (hb : b = a.length * c) :
    (members (a :: axes) b v).card = (free a a.length v).card * (members axes c (v / a.length)).card := by
  rw [← Finset.card_product]
  have hmem : ∀ t, t ∈ members (a :: axes) b v ↔
      t % a.length ∈ free a a.length v ∧ t / a.length ∈ members axes c (v / a.length) := by
    intro t
    have hindex : b * (v / b) + t = t + a.length * (c * (v / a.length / c)) := by
      rw [Nat.div_div_eq_div_mul, ← hb, ← Nat.mul_assoc, ← hb, Nat.add_comm]
    have hlt : t < b ↔ t / a.length < c := by rw [hb, Nat.div_lt_iff_lt_mul hpos, Nat.mul_comm]
    simp only [members, Finset.mem_filter, Finset.mem_range, sameGroup, hindex, Nat.add_mul_mod_self_left,
      Nat.add_mul_div_left _ _ hpos, Bool.and_eq_true, Bool.or_eq_true, decide_eq_true_eq, mem_free hpos, hlt,
      Nat.mod_lt t hpos, true_and, Nat.add_comm (c * _)]
    exact ⟨fun ⟨h₁, h₂, h₃⟩ => ⟨h₂, h₁, h₃⟩, fun ⟨h₂, h₁, h₃⟩ => ⟨h₁, h₂, h₃⟩⟩
  apply Finset.card_nbij' (fun t => (t % a.length, t / a.length)) (fun e => e.1 + a.length * e.2)
  · intro t ht
    exact Finset.mem_coe.mpr (Finset.mem_product.mpr ((hmem t).mp ht))
  · intro e he
    obtain ⟨hx, hy⟩ := Finset.mem_product.mp (Finset.mem_coe.mp he)
    have hlt := ((mem_free hpos).mp hx).1
    rw [Finset.mem_coe, hmem, Nat.add_mul_mod_self_left, Nat.add_mul_div_left _ _ hpos, Nat.mod_eq_of_lt hlt,
      Nat.div_eq_of_lt hlt, Nat.zero_add]
    exact ⟨hx, hy⟩
  · intro t _
    exact Nat.mod_add_div t a.length
  · intro e he
    have hlt := ((mem_free hpos).mp (Finset.mem_product.mp (Finset.mem_coe.mp he)).1).1
    dsimp only
    rw [Nat.add_mul_mod_self_left, Nat.add_mul_div_left _ _ hpos, Nat.mod_eq_of_lt hlt, Nat.div_eq_of_lt hlt,
      Nat.zero_add]

/-- An axis that reaches over what is left: the others are the same all along. -/
theorem card_members_gt {a : Axis} {axes : List Axis} {b c v : Nat} (hpos : 0 < b) (ha : a.length = b * c) :
    (members (a :: axes) b v).card = (free a b v).card := by
  have hall : members (a :: axes) b v = free a b v := by
    ext t
    have hdiv : t < b → (b * (v / b) + t) / a.length = v / a.length := by
      intro ht
      rw [ha, ← Nat.div_div_eq_div_mul, ← Nat.div_div_eq_div_mul, Nat.add_comm, Nat.add_mul_div_left _ _ hpos,
        Nat.div_eq_of_lt ht, Nat.zero_add]
    have hmod : t < b → ((b * (v / b) + t) % a.length = v % a.length ↔ t = v % b) := by
      intro ht
      rw [ha, Nat.mod_mul, Nat.mod_mul, Nat.mul_add_mod, Nat.mod_eq_of_lt ht, Nat.mul_add_div hpos,
        Nat.div_eq_of_lt ht, Nat.add_zero]
      exact Nat.add_right_cancel_iff
    simp only [members, Finset.mem_filter, Finset.mem_range, sameGroup, Bool.and_eq_true, Bool.or_eq_true,
      decide_eq_true_eq, mem_free hpos]
    constructor
    · intro ⟨ht, hgroup, _⟩
      rw [hmod ht] at hgroup
      exact ⟨ht, hgroup⟩
    · intro ⟨ht, hgroup⟩
      rw [hmod ht, hdiv ht]
      exact ⟨ht, hgroup, sameGroup_refl axes _⟩
  rw [hall]

/-- The members of a group in a block of `b` positions. -/
theorem card_members {axes : List Axis} (h : PowersOfTwo axes) :
    ∀ {b : Nat} (v : Nat), (∃ k, b = 2 ^ k) → b ∣ nrDpus axes → (members axes b v).card = share axes b := by
  induction axes with
  | nil =>
    intro b v _ hdvd
    have hone : b = 1 := Nat.dvd_one.mp hdvd
    subst hone
    simp [members, sameGroup, share]
  | cons a axes ih =>
    intro b v hb hdvd
    have hpos := Axis.length_pos h (List.mem_cons_self)
    have ha := h a List.mem_cons_self
    rcases Nat.le_total a.length b with hle | hle
    · obtain ⟨c, hc⟩ := dvd_of_pow_le ha hb hle
      have hquot : b / a.length = c := by rw [hc, Nat.mul_div_cancel_left _ hpos]
      have hdvd' := dvd_rest ha hb (by simpa [nrDpus] using hdvd)
      rw [Nat.min_eq_left hle, hquot] at hdvd'
      rw [card_members_le hpos hc, card_free, ih h.tail _ (pow_of_mul ha hb hc) hdvd', share, Nat.min_eq_left hle,
        hquot]
    · obtain ⟨c, hc⟩ := dvd_of_pow_le hb ha hle
      have hbpos : 0 < b := by
        obtain ⟨k, hk⟩ := hb
        rw [hk]
        exact Nat.pow_pos (by decide)
      rw [card_members_gt hbpos hc, card_free, share, Nat.min_eq_right hle, Nat.div_self hbpos,
        share_one axes h.tail, Nat.mul_one]

/-! ## What the loops compute -/

/-- What is left of the 8 positions above a running length. -/
def left (len : Nat) : Nat := if len < 8 then 8 / len else 1

theorem pow_lt_eight {n : Nat} (h : ∃ k, n = 2 ^ k) (hlt : n < 8) : n = 1 ∨ n = 2 ∨ n = 4 := by
  obtain ⟨k, rfl⟩ := h
  have hk : k < 3 := (Nat.pow_lt_pow_iff_right (by decide)).mp hlt
  have hcases : ∀ k < 3, 2 ^ k = 1 ∨ 2 ^ k = 2 ∨ 2 ^ k = 4 := by decide
  exact hcases k hk

theorem left_mul {len n : Nat} (hlen : ∃ k, len = 2 ^ k) (hn : ∃ k, n = 2 ^ k) (hlt : len < 8) :
    left (len * n) = left len / min n (left len) := by
  have hpos : 0 < len := by rcases pow_lt_eight hlen hlt with h | h | h <;> omega
  by_cases hsmall : n < 8
  · rcases pow_lt_eight hlen hlt with rfl | rfl | rfl <;> rcases pow_lt_eight hn hsmall with rfl | rfl | rfl <;> rfl
  · -- such an axis fills all of it
    have hover : ¬ len * n < 8 :=
      Nat.not_lt.mpr (Nat.le_trans (Nat.le_of_not_lt hsmall) (Nat.le_mul_of_pos_left n hpos))
    have hle : left len ≤ n := by
      rw [left, if_pos hlt]
      exact Nat.le_trans (Nat.div_le_self 8 len) (Nat.le_of_not_lt hsmall)
    have hleft : 0 < left len := by
      rw [left, if_pos hlt]
      exact Nat.div_pos (Nat.le_of_lt hlt) hpos
    rw [Nat.min_eq_right hle, Nat.div_self hleft, left, if_neg hover]

theorem left_pow {len : Nat} (hlen : ∃ k, len = 2 ^ k) : ∃ k, left len = 2 ^ k := by
  by_cases hlt : len < 8
  · rcases pow_lt_eight hlen hlt with rfl | rfl | rfl
    · exact ⟨3, rfl⟩
    · exact ⟨2, rfl⟩
    · exact ⟨1, rfl⟩
  · exact ⟨0, if_neg hlt⟩

theorem mul_left_le {len : Nat} (hlt : len < 8) : len * left len ≤ 8 := by
  rw [left, if_pos hlt]
  exact Nat.mul_div_le 8 len

/-- One axis: what it has of the positions left, if it communicates. -/
theorem numCommRgStep_ok {a : Axis} {len rg : UInt32} (hlen : 0 < len.toNat) (hlt : len.toNat < 8)
    (hrg : rg.toNat ≤ len.toNat) :
    ∃ rg', numCommRgStep a len rg = .ok rg' ∧
      rg'.toNat = rg.toNat * (if a.commAxis = 1 then min a.length (left len.toNat) else 1) := by
  have hne : len ≠ 0 := by
    intro h0
    simp [h0] at hlen
  have hdiv : (8 / len).toNat = left len.toNat := by
    rw [UInt32.toNat_div, left, if_pos hlt]
    rfl
  have hleft := mul_left_le hlt
  -- nothing is cut off at 8 that is not 8 already
  have hcap : ∀ r : UInt32, r.toNat ≤ 8 → (if r ≥ 8 then 8 else r) = r := by
    intro r hr
    split
    · rename_i hge
      rw [ge_iff_le, UInt32.le_iff_toNat_le] at hge
      exact UInt32.toNat_inj.mp (Nat.le_antisymm hge hr)
    · rfl
  by_cases hcomm : a.commAxis = 1
  · have hbound : rg.toNat * min a.length (left len.toNat) ≤ 8 :=
      Nat.le_trans (Nat.mul_le_mul hrg (Nat.min_le_right _ _)) hleft
    have hmul : ∀ x : UInt32, x.toNat = min a.length (left len.toNat) → (rg * x).toNat = rg.toNat * x.toNat := by
      intro x hx
      rw [UInt32.toNat_mul, Nat.mod_eq_of_lt]
      rw [hx]
      omega
    have hclip : (if a.axisLen ≤ 8 / len then rg * a.axisLen else rg * (8 / len)).toNat =
        rg.toNat * min a.length (left len.toNat) := by
      by_cases hle : a.axisLen ≤ 8 / len
      · have hlength : a.length ≤ left len.toNat := by
          rw [← hdiv]
          exact UInt32.le_iff_toNat_le.mp hle
        have hmin : a.axisLen.toNat = min a.length (left len.toNat) := (Nat.min_eq_left hlength).symm
        rw [if_pos hle, hmul _ hmin, hmin]
      · have hlength : left len.toNat ≤ a.length := by
          rw [← hdiv]
          exact Nat.le_of_not_le fun h => hle (UInt32.le_iff_toNat_le.mpr h)
        have hmin : (8 / len).toNat = min a.length (left len.toNat) := by rw [hdiv, Nat.min_eq_right hlength]
        rw [if_neg hle, hmul _ hmin, hmin]
    refine ⟨_, by
      rw [numCommRgStep, if_pos hcomm, if_neg hne]
      rfl, ?_⟩
    rw [hcap _ (by rw [hclip]; exact hbound), hclip, if_pos hcomm]
  · refine ⟨_, by
      rw [numCommRgStep, if_neg hcomm]
      rfl, ?_⟩
    rw [hcap _ (by omega), if_neg hcomm, Nat.mul_one]

/-- While the running length fits, the loop ends within the axes, bounded by
their number or not, with the product of what they share. -/
theorem numCommRgLoop_ok (bounded : Bool) : ∀ (axes : List Axis) (len rg : UInt32), PowersOfTwo axes →
    (∃ k, len.toNat = 2 ^ k) → rg.toNat ≤ len.toNat → FitsFrom axes len.toNat → left len.toNat ∣ nrDpus axes →
    ∃ rg', numCommRgLoop bounded axes len rg = .ok rg' ∧ rg'.toNat = rg.toNat * share axes (left len.toNat)
  | [], len, rg, _, hlen, _, _, hdvd => by
    have hdone : ¬ len.toNat < 8 := by
      intro hlt
      rw [nrDpus, List.map_nil, List.prod_nil, Nat.dvd_one, left, if_pos hlt] at hdvd
      rcases pow_lt_eight hlen hlt with h | h | h <;> simp [h] at hdvd
    have hstop : ¬ len < 8 := fun h => hdone (UInt32.lt_iff_toNat_lt.mp h)
    refine ⟨rg, ?_, (Nat.mul_one _).symm⟩
    rw [numCommRgLoop, if_neg hstop, ite_self]
  | a :: axes, len, rg, h, hlen, hrg, hfits, hdvd => by
    by_cases hlt : len.toNat < 8
    · have hpow := h a List.mem_cons_self
      have hpos := Axis.length_pos h (List.mem_cons_self)
      have hlenpos : 0 < len.toNat := by rcases pow_lt_eight hlen hlt with h | h | h <;> omega
      obtain ⟨h32, hrest⟩ := hfits hlt
      have hnext : (len * a.axisLen).toNat = len.toNat * a.length := by
        rw [UInt32.toNat_mul]
        exact Nat.mod_eq_of_lt h32
      obtain ⟨rg₁, hstep, hval⟩ := numCommRgStep_ok (a := a) hlenpos hlt hrg
      have hrg₁ : rg₁.toNat ≤ (len * a.axisLen).toNat := by
        rw [hval, hnext]
        apply Nat.mul_le_mul hrg
        split
        · exact Nat.min_le_left _ _
        · exact hpos
      have hleft : left (len * a.axisLen).toNat = left len.toNat / min a.length (left len.toNat) := by
        rw [hnext]
        exact left_mul hlen hpow hlt
      have hlen' : ∃ k, (len * a.axisLen).toNat = 2 ^ k := by
        obtain ⟨i, hi⟩ := hlen
        obtain ⟨j, hj⟩ := hpow
        exact ⟨i + j, by rw [hnext, hi, hj, Nat.pow_add]⟩
      have hdvd' : left (len * a.axisLen).toNat ∣ nrDpus axes := by
        rw [hleft]
        exact dvd_rest hpow (left_pow hlen) (by simpa [nrDpus] using hdvd)
      obtain ⟨rg₂, hloop, hval₂⟩ := numCommRgLoop_ok bounded axes (len * a.axisLen) rg₁ h.tail hlen' hrg₁
        (by rw [hnext]; exact hrest) hdvd'
      refine ⟨rg₂, ?_, ?_⟩
      · rw [numCommRgLoop, if_pos (UInt32.lt_iff_toNat_lt.mpr hlt), hstep]
        exact hloop
      · rw [hval₂, hval, hleft, share, Nat.mul_assoc]
    · have hstop : ¬ len < 8 := fun h => hlt (UInt32.lt_iff_toNat_lt.mp h)
      refine ⟨rg, ?_, ?_⟩
      · rw [numCommRgLoop, if_neg hstop]
      · rw [left, if_neg hlt, share_one _ h, Nat.mul_one]

/-- From a running length of 0 a loop that `len<8` alone stops does not stop. -/
theorem numCommRgLoop_zero : ∀ (axes : List Axis) (rg rg' : UInt32), numCommRgLoop false axes 0 rg ≠ .ok rg'
  | [], rg, rg' => by simp [numCommRgLoop]
  | a :: axes, rg, rg' => by
    intro hloop
    rw [numCommRgLoop, if_pos (by decide)] at hloop
    cases hstep : numCommRgStep a 0 rg with
    | error e => simp [hstep, bind, Except.bind] at hloop
    | ok rg₁ =>
      rw [hstep, UInt32.zero_mul] at hloop
      exact numCommRgLoop_zero axes rg₁ rg' hloop

/-- A running length that does not fit becomes 0. -/
theorem numCommRgLoop_unfit : ∀ (axes : List Axis) (len rg rg' : UInt32), PowersOfTwo axes →
    (∃ k, len.toNat = 2 ^ k) → numCommRgLoop false axes len rg = .ok rg' → FitsFrom axes len.toNat
  | [], _, _, _, _, _, _ => trivial
  | a :: axes, len, rg, rg', h, hlen, hloop => by
    intro hlt
    rw [numCommRgLoop, if_pos (UInt32.lt_iff_toNat_lt.mpr hlt)] at hloop
    cases hstep : numCommRgStep a len rg with
    | error e => simp [hstep, bind, Except.bind] at hloop
    | ok rg₁ =>
      rw [hstep] at hloop
      have hrest : numCommRgLoop false axes (len * a.axisLen) rg₁ = .ok rg' := hloop
      obtain ⟨i, hi⟩ := hlen
      obtain ⟨j, hj⟩ := h a List.mem_cons_self
      have hprod : len.toNat * a.length = 2 ^ (i + j) := by rw [hi, hj, Nat.pow_add]
      by_cases h32 : len.toNat * a.length < 2 ^ 32
      · have hnext : (len * a.axisLen).toNat = len.toNat * a.length := by
          rw [UInt32.toNat_mul]
          exact Nat.mod_eq_of_lt h32
        have hfits := numCommRgLoop_unfit axes _ rg₁ rg' h.tail ⟨i + j, hnext.trans hprod⟩ hrest
        rw [hnext] at hfits
        exact ⟨h32, hfits⟩
      · have hzero : len * a.axisLen = 0 := by
          rw [← UInt32.toNat_inj, UInt32.toNat_mul]
          have hge : 32 ≤ i + j := by
            rw [hprod] at h32
            exact (Nat.pow_le_pow_iff_right (by decide)).mp (Nat.le_of_not_lt h32)
          have hmod : len.toNat * a.axisLen.toNat = 2 ^ (i + j) := hprod
          rw [hmod]
          exact Nat.mod_eq_zero_of_dvd (Nat.pow_dvd_pow 2 hge)
        rw [hzero] at hrest
        exact absurd hrest (numCommRgLoop_zero axes rg₁ rg')

/-- The four loops have the share of every group if and only if the running
length fits in 32 bits. -/
theorem shares_iff (cube : Cube) : Shares cube.axes ↔ Fits cube.axes := by
  have hone : ∃ k, (1 : UInt32).toNat = 2 ^ k := ⟨0, rfl⟩
  constructor
  · intro ⟨rg, ⟨_, hgather, _, _⟩, _⟩
    exact numCommRgLoop_unfit cube.axes 1 1 rg cube.powersOfTwo hone hgather
  · intro hfits
    have hdvd : 8 ∣ nrDpus cube.axes := Nat.dvd_trans (by decide) cube.whole_ranks
    have hloop := fun bounded => numCommRgLoop_ok bounded cube.axes 1 1 cube.powersOfTwo hone (Nat.le_refl _) hfits hdvd
    obtain ⟨rg, hbounded, hval⟩ := hloop true
    obtain ⟨rg', hcomma, hval'⟩ := hloop false
    have hsame : rg' = rg := UInt32.toNat_inj.mp (hval'.trans hval.symm)
    rw [hsame] at hcomma
    refine ⟨rg, ⟨hbounded, hcomma, hcomma, hcomma⟩, ?_⟩
    intro v _
    calc (members cube.axes 8 v).card = share cube.axes 8 := card_members cube.powersOfTwo v ⟨3, rfl⟩ hdvd
      _ = 1 * share cube.axes 8 := (Nat.one_mul _).symm
      _ = rg.toNat := hval.symm

/-- A communicating axis of 4 in front of one of 2^30. -/
def wideCube : Cube where
  axes := [⟨4, 1⟩, ⟨2 ^ 30, 0⟩]
  powersOfTwo := by
    intro a ha
    rcases List.mem_pair.mp ha with rfl | rfl
    · exact ⟨2, rfl⟩
    · exact ⟨30, rfl⟩
  whole_ranks := by decide

/-- The loop that is bounded by the dimension ends, the others read a third axis. -/
theorem wideCube_unshared :
    alltoallShare wideCube.axes = .ok 4 ∧
      allgatherShare wideCube.axes = .error .outsideDimension ∧ ¬ Shares wideCube.axes := by
  have hgather : allgatherShare wideCube.axes = .error .outsideDimension := by decide
  refine ⟨by decide, hgather, ?_⟩
  intro ⟨rg, ⟨_, hok, _, _⟩, _⟩
  rw [hgather] at hok
  cases hok

end DpuBackend.PidComm.GroupShare
