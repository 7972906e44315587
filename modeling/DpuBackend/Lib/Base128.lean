import Mathlib.Data.Nat.Digits.Lemmas

/-
  Numbers in groups of seven bits, the highest group first.

  A number is written in bytes: each carries one group, and every byte but the
  last has its top bit set, so that a reader knows where the number ends. `read`
  takes the first number of a list of bytes, however large it is.
-/

namespace DpuBackend.Lib.Base128

/-- The groups of a number, at least one. -/
def groups (n : Nat) : List Nat := if n = 0 then [0] else (Nat.digits 128 n).reverse

/-- The number that a list of groups adds to `acc`. -/
def value (acc : Nat) (ds : List Nat) : Nat := ds.foldl (fun v d => v * 128 + d) acc

/-- The bytes for a list of groups. -/
def marked : List Nat → List UInt8
  | [] => []
  | [d] => [UInt8.ofNat d]
  | d :: ds => UInt8.ofNat (128 + d) :: marked ds

/-- The first number of a list of bytes, behind `acc`, and the number of bytes read so far; `none` if the
list ends within it. -/
def read (acc count : Nat) : List UInt8 → Option (Nat × Nat)
  | [] => none
  | b :: rest =>
    if 128 ≤ b.toNat then read (acc * 128 + b.toNat % 128) (count + 1) rest
    else some (acc * 128 + b.toNat % 128, count + 1)

/-! ## Groups -/

theorem value_reverse (acc : Nat) (ds : List Nat) :
    value acc ds.reverse = acc * 128 ^ ds.length + Nat.ofDigits 128 ds := by
  unfold value
  rw [List.foldl_reverse]
  induction ds with
  | nil => simp
  | cons d ds ih =>
    rw [List.foldr_cons, ih, Nat.ofDigits_cons, List.length_cons, Nat.pow_succ]
    ring

theorem value_groups (n : Nat) : value 0 (groups n) = n := by
  unfold groups
  split
  · next h => rw [h]; rfl
  · rw [value_reverse, Nat.ofDigits_digits, Nat.zero_mul, Nat.zero_add]

theorem groups_ne_nil (n : Nat) : groups n ≠ [] := by
  unfold groups
  split
  · exact List.cons_ne_nil 0 []
  · next h => rwa [Ne, List.reverse_eq_nil_iff, Nat.digits_eq_nil_iff_eq_zero]

theorem lt_of_mem_groups {n d : Nat} (h : d ∈ groups n) : d < 128 := by
  unfold groups at h
  split at h
  · rw [List.mem_singleton] at h
    omega
  · exact Nat.digits_lt_base (by omega) (List.mem_reverse.1 h)

theorem length_groups (n : Nat) : (groups n).length = max 1 (Nat.digits 128 n).length := by
  unfold groups
  split
  · next h => rw [h]; rfl
  · next h =>
    have hpos : 0 < (Nat.digits 128 n).length := List.length_pos_of_ne_nil (Nat.digits_ne_nil_iff_ne_zero.2 h)
    rw [List.length_reverse]
    omega

theorem length_groups_le {n k : Nat} (hk : 0 < k) (h : n < 128 ^ k) : (groups n).length ≤ k := by
  have hdigits := (Nat.digits_length_le_iff (by omega : 1 < 128) n).2 h
  rw [length_groups]
  omega

/-! ## Bytes -/

theorem length_marked (ds : List Nat) : (marked ds).length = ds.length := by
  induction ds with
  | nil => rfl
  | cons d ds ih =>
    cases ds with
    | nil => rfl
    | cons e ds => rw [marked, List.length_cons, ih, List.length_cons, List.length_cons, List.length_cons]; simp

/-- What is written is read, whatever comes behind it. -/
theorem read_marked {ds : List Nat} (hne : ds ≠ []) (hlt : ∀ d ∈ ds, d < 128) (acc count : Nat) (rest : List UInt8) :
    read acc count (marked ds ++ rest) = some (value acc ds, count + ds.length) := by
  induction ds generalizing acc count with
  | nil => exact absurd rfl hne
  | cons d ds ih =>
    have hd : d < 128 := hlt d (List.mem_cons_self ..)
    cases ds with
    | nil =>
      have hbyte : (UInt8.ofNat d).toNat = d := by rw [UInt8.toNat_ofNat']; omega
      rw [marked, List.singleton_append, read, hbyte, if_neg (by omega), Nat.mod_eq_of_lt hd]
      rfl
    | cons e ds =>
      have hbyte : (UInt8.ofNat (128 + d)).toNat = 128 + d := by rw [UInt8.toNat_ofNat']; omega
      rw [marked, List.cons_append, read, hbyte, if_pos (by omega), ih (List.cons_ne_nil e ds)
        fun d hd => hlt d (List.mem_cons_of_mem _ hd)]
      · have hmod : (128 + d) % 128 = d := by omega
        have hcount : count + 1 + (e :: ds).length = count + (d :: e :: ds).length := by
          rw [List.length_cons, List.length_cons, List.length_cons]
          omega
        rw [hmod, hcount]
        rfl
      · exact nofun

theorem read_groups (n : Nat) (rest : List UInt8) :
    read 0 0 (marked (groups n) ++ rest) = some (n, (groups n).length) := by
  rw [read_marked (groups_ne_nil n) fun _ => lt_of_mem_groups, value_groups, Nat.zero_add]

/-- A number that is read lies within the list. -/
theorem read_count {acc count v k : Nat} {l : List UInt8} (h : read acc count l = some (v, k)) :
    count < k ∧ k ≤ count + l.length := by
  induction l generalizing acc count with
  | nil => cases h
  | cons b rest ih =>
    rw [read] at h
    rw [List.length_cons]
    split at h
    · have := ih h
      omega
    · cases h
      omega

end DpuBackend.Lib.Base128
