import Mathlib.Algebra.Order.Ring.Nat
import Mathlib.Tactic.Common
import Mathlib.Tactic.Ring

/-
  Mixed radix numerals — positions with a radix each.

  `r k` is the radix of position `k`, `x k` a digit there. Position `k` weighs the
  product of the radices below it. `digit` reads a numeral by dividing from the
  bottom, `remainder_step` and `quotient_step` are the two ways a loop walks one:
  down from the top with a remainder, up from the bottom with a quotient.

  The last section is about residues modulo 8 taken position by position: their sum
  is the residue of the sum for every numeral exactly when each weight divides 8 or
  is a multiple of it.
-/

namespace DpuBackend.Lib.MixedRadix

variable (r : Nat → Nat) (x : Nat → Nat)

def weight : Nat → Nat
  | 0 => 1
  | k + 1 => weight k * r k

/-- The numeral of the `n` lowest digits. -/
def value : Nat → Nat
  | 0 => 0
  | k + 1 => value k + x k * weight r k

def digit (v k : Nat) : Nat := v / weight r k % r k

variable {r x} {s y : Nat → Nat} {n k v : Nat}

theorem weight_succ (r : Nat → Nat) (n : Nat) : weight r (n + 1) = weight r n * r n := rfl

theorem weight_pos (h : ∀ j < n, 0 < r j) : 0 < weight r n := by
  induction n with
  | zero => exact Nat.one_pos
  | succ n ih =>
    have hlow : 0 < weight r n := ih fun j hj => h j (Nat.lt_succ_of_lt hj)
    exact Nat.mul_pos hlow (h n (Nat.lt_succ_self n))

theorem weight_congr (h : ∀ j < n, r j = s j) : weight r n = weight s n := by
  induction n with
  | zero => rfl
  | succ n ih =>
    have hlow : weight r n = weight s n := ih fun j hj => h j (Nat.lt_succ_of_lt hj)
    show weight r n * r n = weight s n * s n
    rw [hlow, h n (Nat.lt_succ_self n)]

/-- Two interleaved radix systems. -/
theorem weight_mul (r s : Nat → Nat) (n : Nat) : weight (fun k => r k * s k) n = weight r n * weight s n := by
  induction n with
  | zero => rfl
  | succ n ih => simp only [weight, ih]; ring

theorem weight_dvd (h : k ≤ n) : weight r k ∣ weight r n := by
  induction n with
  | zero => rw [Nat.le_zero.1 h]
  | succ n ih =>
    obtain hlt | rfl := Nat.lt_or_eq_of_le h
    · exact Dvd.dvd.mul_right (ih (Nat.le_of_lt_succ hlt)) _
    · exact Nat.dvd_refl _

theorem weight_zero_of (h : k < n) (hk : r k = 0) : weight r n = 0 := by
  have hdvd : weight r (k + 1) ∣ weight r n := weight_dvd h
  simp only [weight, hk, Nat.mul_zero, Nat.zero_dvd] at hdvd
  exact hdvd

theorem value_congr (h : ∀ j < n, x j = y j) : value r x n = value r y n := by
  induction n with
  | zero => rfl
  | succ n ih =>
    have hlow : value r x n = value r y n := ih fun j hj => h j (Nat.lt_succ_of_lt hj)
    simp only [value, hlow, h n (Nat.lt_succ_self n)]

theorem value_lt (h : ∀ j < n, x j < r j) : value r x n < weight r n := by
  induction n with
  | zero => exact Nat.one_pos
  | succ n ih =>
    have hlow : value r x n < weight r n := ih fun j hj => h j (Nat.lt_succ_of_lt hj)
    have hn : x n + 1 ≤ r n := h n (Nat.lt_succ_self n)
    calc value r x n + x n * weight r n
        < weight r n + x n * weight r n := Nat.add_lt_add_right hlow _
      _ = weight r n * (x n + 1) := by ring
      _ ≤ weight r n * r n := Nat.mul_le_mul_left _ hn

theorem digit_lt (h : 0 < r k) : digit r v k < r k := Nat.mod_lt _ h

/-- The digits of a numeral are what it was made of. -/
theorem digit_value (h : ∀ j < n, x j < r j) (hk : k < n) : digit r (value r x n) k = x k := by
  have hpos : 0 < weight r k := weight_pos fun j hj => Nat.zero_lt_of_lt (h j (hj.trans hk))
  induction n with
  | zero => exact absurd hk (Nat.not_lt_zero k)
  | succ n ih =>
    obtain hlt | rfl := Nat.lt_succ_iff_lt_or_eq.1 hk
    · -- the top digit is a multiple of `r k` above position `k`
      have hlow := ih (fun j hj => h j (Nat.lt_succ_of_lt hj)) hlt
      obtain ⟨q, hq⟩ : weight r (k + 1) ∣ weight r n := weight_dvd hlt
      have htop : x n * weight r n = weight r k * (r k * (q * x n)) := by rw [hq, weight]; ring
      unfold digit at hlow ⊢
      rw [value, htop, Nat.add_mul_div_left _ _ hpos, Nat.add_mul_mod_self_left, hlow]
    · have hlow : value r x k < weight r k := value_lt fun j hj => h j (Nat.lt_succ_of_lt hj)
      unfold digit
      rw [value, Nat.add_mul_div_right _ _ hpos, Nat.div_eq_of_lt hlow, Nat.zero_add,
        Nat.mod_eq_of_lt (h k (Nat.lt_succ_self k))]

/-- A number is the numeral of its digits. -/
theorem value_digit (v n : Nat) : value r (digit r v) n = v % weight r n := by
  induction n with
  | zero => rw [value, weight, Nat.mod_one]
  | succ n ih =>
    rw [value, ih, weight, Nat.mod_mul, digit]
    ring

theorem value_inj (hx : ∀ j < n, x j < r j) (hy : ∀ j < n, y j < r j) (h : value r x n = value r y n) (hk : k < n) :
    x k = y k := by
  rw [← digit_value hx hk, h, digit_value hy hk]

/-! ## Walking a numeral -/

/-- Downwards: the remainder below position `k + 1`, above a lower part of size `q`,
splits into the digit of position `k` and the remainder below it. -/
theorem remainder_step (v q : Nat) :
    v % (weight r (k + 1) * q) / (weight r k * q) = digit r (v / q) k ∧
      v % (weight r (k + 1) * q) - v % (weight r (k + 1) * q) / (weight r k * q) * (weight r k * q) =
        v % (weight r k * q) := by
  have hsplit : weight r (k + 1) * q = weight r k * q * r k := by rw [weight]; ring
  constructor
  · rw [hsplit, Nat.mod_mul_right_div_self, digit, Nat.div_div_eq_div_mul, Nat.mul_comm q]
  · rw [Nat.mul_comm _ (weight r k * q), ← Nat.mod_eq_sub_mul_div, hsplit, Nat.mod_mul_right_mod]

/-- Upwards: the quotient by the weight of position `k` splits into its digit and the
quotient by the next weight. -/
theorem quotient_step (v k : Nat) :
    v / weight r k % r k = digit r v k ∧ v / weight r k / r k = v / weight r (k + 1) := by
  rw [weight, ← Nat.div_div_eq_div_mul]
  exact ⟨rfl, rfl⟩

/-! ## Residues modulo 8, position by position -/

/-- The sum of the residues. -/
def residues (r x : Nat → Nat) : Nat → Nat
  | 0 => 0
  | k + 1 => residues r x k + x k * weight r k % 8

/-- The sum of the quotients. -/
def quotients (r x : Nat → Nat) : Nat → Nat
  | 0 => 0
  | k + 1 => quotients r x k + x k * weight r k / 8

theorem residues_congr (h : ∀ j < n, x j = y j) : residues r x n = residues r y n := by
  induction n with
  | zero => rfl
  | succ n ih =>
    have hlow : residues r x n = residues r y n := ih fun j hj => h j (Nat.lt_succ_of_lt hj)
    simp only [residues, hlow, h n (Nat.lt_succ_self n)]

theorem quotients_residues (r x : Nat → Nat) (n : Nat) : quotients r x n * 8 + residues r x n = value r x n := by
  induction n with
  | zero => rfl
  | succ n ih =>
    have htop := Nat.div_add_mod (x n * weight r n) 8
    rw [quotients, residues, value, ← ih]
    omega

theorem residues_mod (r x : Nat → Nat) (n : Nat) : residues r x n % 8 = value r x n % 8 := by
  induction n with
  | zero => rfl
  | succ n ih => rw [residues, value, Nat.add_mod, ih, Nat.mod_mod, ← Nat.add_mod]

/-- Quotients position by position and the residue of the whole make up the numeral when
the residues do not carry, and only then. -/
theorem quotients_value_iff (r x : Nat → Nat) (n : Nat) :
    quotients r x n * 8 + value r x n % 8 = value r x n ↔ residues r x n < 8 := by
  have hsum := quotients_residues r x n
  have hmod := residues_mod r x n
  omega

/-- The weight is a power of two up to 8, or a multiple of 8. -/
def Even8 (w : Nat) : Prop := w ∣ 8 ∨ 8 ∣ w

instance (w : Nat) : Decidable (Even8 w) := inferInstanceAs (Decidable (_ ∨ _))

/-- With such weights, no residue carries. -/
theorem residues_lt (heven : ∀ j < n, Even8 (weight r j)) (h : ∀ j < n, x j < r j) : residues r x n < 8 := by
  induction n with
  | zero => exact Nat.succ_pos 7
  | succ n ih =>
    have hlow : residues r x n < 8 :=
      ih (fun j hj => heven j (Nat.lt_succ_of_lt hj)) fun j hj => h j (Nat.lt_succ_of_lt hj)
    obtain hdvd | hdvd := heven n (Nat.lt_succ_self n)
    · -- the lower part is below the weight, the new residue a multiple of it below 8
      have hval : value r x n < weight r n := value_lt fun j hj => h j (Nat.lt_succ_of_lt hj)
      have hsum : residues r x n = value r x n % 8 := by rw [← residues_mod, Nat.mod_eq_of_lt hlow]
      obtain ⟨q, hq⟩ := hdvd
      have hres : weight r n * (x n % q) = x n * weight r n % 8 := by
        rw [← Nat.mul_mod_mul_left, ← hq, Nat.mul_comm (x n)]
      have hq0 : 0 < q := Nat.pos_of_ne_zero fun h0 => by simp [h0] at hq
      have hfit : weight r n * (x n % q) + weight r n ≤ 8 := by
        calc weight r n * (x n % q) + weight r n = weight r n * (x n % q + 1) := by ring
          _ ≤ weight r n * q := Nat.mul_le_mul_left _ (Nat.mod_lt _ hq0)
          _ = 8 := hq.symm
      have hmod : value r x n % 8 ≤ value r x n := Nat.mod_le _ _
      rw [residues, ← hres]
      omega
    · have hzero : x n * weight r n % 8 = 0 := Nat.mod_eq_zero_of_dvd (Dvd.dvd.mul_left hdvd _)
      rw [residues, hzero]
      exact hlow

/-- Past any other weight, some digit there and some lower part carry. -/
theorem exists_carry {w l : Nat} (hw : 0 < w) (hl : 0 < l) (hodd : ¬ Even8 w) (heven : Even8 (w * l)) :
    ∃ t < l, ∃ v < w, 8 ≤ v % 8 + t * w % 8 := by
  obtain ⟨hsmall, hmul⟩ := not_or.1 hodd
  have htop : 8 ∣ w * l := heven.resolve_left fun h => hsmall (Dvd.dvd.trans ⟨l, rfl⟩ h)
  have hone : l ≠ 1 := by
    rintro rfl
    exact hmul (by rwa [Nat.mul_one] at htop)
  have h1 : w ≠ 1 := fun h => hsmall (by rw [h]; decide)
  have h2 : w ≠ 2 := fun h => hsmall (by rw [h]; decide)
  have h4 : w ≠ 4 := fun h => hsmall (by rw [h]; decide)
  by_cases h3 : w = 3
  · -- 3 is too small for one step; the next axes are long enough for two
    subst h3
    exact ⟨2, by omega, 2, by decide, by decide⟩
  · exact ⟨1, by omega, 8 - w % 8, by omega, by omega⟩

theorem residues_mono (r x : Nat → Nat) (h : k ≤ n) : residues r x k ≤ residues r x n := by
  induction n with
  | zero => rw [Nat.le_zero.1 h]
  | succ n ih =>
    obtain hlt | rfl := Nat.lt_or_eq_of_le h
    · exact (ih (Nat.le_of_lt_succ hlt)).trans (Nat.le_add_right _ _)
    · exact Nat.le_refl _

theorem even8_of_succ (hpos : ∀ j < n, 0 < r j) (h : ∀ x, (∀ j < n, x j < r j) → residues r x n < 8) (hk : k < n)
    (hnext : Even8 (weight r (k + 1))) : Even8 (weight r k) := by
  by_contra hodd
  have hw : 0 < weight r k := weight_pos fun j hj => hpos j (hj.trans hk)
  obtain ⟨t, ht, v, hv, hcarry⟩ := exists_carry hw (hpos k hk) hodd hnext
  let x : Nat → Nat := fun j => if j < k then digit r v j else if j = k then t else 0
  have hx : ∀ j < n, x j < r j := by
    intro j hj
    show (if j < k then digit r v j else if j = k then t else 0) < r j
    split_ifs with hlow heq
    · exact digit_lt (hpos j hj)
    · rw [heq]; exact ht
    · exact hpos j hj
  have hval : value r x k = v := by
    have hdigits : ∀ j < k, x j = digit r v j := fun j hj => if_pos hj
    rw [value_congr hdigits, value_digit, Nat.mod_eq_of_lt hv]
  have hxk : x k = t := by simp [x]
  have hlow : v % 8 ≤ residues r x k := by
    rw [← hval, ← residues_mod]
    exact Nat.mod_le _ _
  have hreach : residues r x k + t * weight r k % 8 ≤ residues r x n := by
    have hmono := residues_mono r x (Nat.succ_le_of_lt hk)
    rwa [residues, hxk] at hmono
  have hlt := h x hx
  omega

/-- If no numeral carries and the last weight is even, they all are. -/
theorem even8_of_residues (hpos : ∀ j < n, 0 < r j) (h : ∀ x, (∀ j < n, x j < r j) → residues r x n < 8)
    (htop : Even8 (weight r n)) (hk : k ≤ n) : Even8 (weight r k) := by
  induction hk using Nat.decreasingInduction with
  | of_succ k hk ih => exact even8_of_succ hpos h hk ih
  | self => exact htop

end DpuBackend.Lib.MixedRadix
