import DpuBackend.Lib.BitMoves

/-
  Bit shuffling of the bus — the configuration and its two directions.

  A board may wire the bits of each nibble, and the two nibbles of each byte, in
  another order than the DPU's. The BIT_ORDER command answers with a word from
  which `dpu_bit_config_compute` takes two permutation codes, one for the low
  and one for the high nibble of a byte, and whether the nibbles are swapped.
  The two codes reach the configuration through none, one or two inversions and
  change places when the nibbles are swapped. A shuffle carries the bit at place
  `t` of nibble `n` of a byte to the place its code gives, in nibble `n` or in
  the other one, so all that matters is that the code at the nibble where a bit
  arrives is the reciprocal of the code that sent it there.

  Model (Lean)              Source (C, ufi/src/ufi_bit_config.c)
  indexInNibble             index_in_nibble
  mSyndrome, lSyndrome      m_syndrome, l_syndrome
  getReciprocal             get_reciprocal
  dpuBitConfigCompute       dpu_bit_config_compute
  dpuBitConfigDpu2cpu       dpu_bit_config_dpu2cpu
  dpuBitConfigCpu2dpu       dpu_bit_config_cpu2dpu

  The two directions are one text that differs in the field it reads, so they
  are one definition, `transform`, applied to that field.
-/

namespace DpuBackend.Ufi.BitConfig

open Lib

/-! ## The source -/

/-- `struct dpu_bit_config`, as far as the bit order goes. -/
structure DpuBitConfig where
  cpu2dpu : BitVec 16
  dpu2cpu : BitVec 16
  nibbleSwap : BitVec 8
deriving DecidableEq, Repr

/-- The index of the bit of a one-hot nibble; 0 where there is none. -/
def indexInNibble (nibble : BitVec 4) : Nat :=
  [0, 0, 1, 0, 2, 0, 0, 0, 3, 0, 0, 0, 0, 0, 0, 0].getD nibble.toNat 0

/-- `(bit_order_result >> shift) & 0b1111`. -/
def nibbleAt (bitOrderResult : BitVec 32) (shift : Nat) : BitVec 4 := bitOrderResult.extractLsb' shift 4

/-- The places of bits 1, 2 and 3 of a nibble; bit 0 has the place left over. -/
def syndrome (bit1 bit2 bit3 : BitVec 4) : BitVec 8 :=
  0b01 <<< (indexInNibble bit1 <<< 1) ||| 0b10 <<< (indexInNibble bit2 <<< 1) ||| 0b11 <<< (indexInNibble bit3 <<< 1)

def mSyndrome (bitOrderResult : BitVec 32) : BitVec 8 :=
  syndrome (nibbleAt bitOrderResult 4) (nibbleAt bitOrderResult 12) (nibbleAt bitOrderResult 20)

def lSyndrome (bitOrderResult : BitVec 32) : BitVec 8 :=
  syndrome (nibbleAt bitOrderResult 0) (nibbleAt bitOrderResult 8) (nibbleAt bitOrderResult 16)

def getReciprocal (code : BitVec 8) : BitVec 8 :=
  ((List.range 4).foldl (fun (s : BitVec 8 × BitVec 8) i =>
    let index := s.1 &&& 0b11
    (s.1 >>> 2, s.2 ||| BitVec.ofNat 8 i <<< (index.toNat <<< 1))) (code, 0)).2

def dpuBitConfigCompute (bitOrderResult : BitVec 32) : DpuBitConfig :=
  let nibbleSwap : BitVec 8 := if nibbleAt bitOrderResult 28 ≠ 0 then 0xFF else 0x00
  let m := mSyndrome bitOrderResult
  let l := lSyndrome bitOrderResult
  let mm := if nibbleSwap ≠ 0 then getReciprocal l else getReciprocal m
  let ll := if nibbleSwap ≠ 0 then getReciprocal m else getReciprocal l
  let config3124 := if nibbleSwap ≠ 0 then getReciprocal ll else getReciprocal mm
  let config2316 := if nibbleSwap ≠ 0 then getReciprocal mm else getReciprocal ll
  let config4740 := if nibbleSwap ≠ 0 then getReciprocal l else getReciprocal m
  let config3932 := if nibbleSwap ≠ 0 then getReciprocal m else getReciprocal l
  { nibbleSwap
    cpu2dpu := config2316.setWidth 16 ||| config3124.setWidth 16 <<< 8
    dpu2cpu := config3932.setWidth 16 ||| config4740.setWidth 16 <<< 8 }

/-- `nibble_transformation`: the code of one nibble of a byte. -/
def nibbleTransformation (order : BitVec 16) (nibbleId : Nat) : BitVec 8 :=
  ((order >>> (nibbleId <<< 3)) &&& 0xFF).setWidth 8

/-- `id_bit`: where a code sends the bit at `transformationId`. -/
def idBit (code : BitVec 8) (transformationId : Nat) : Nat := ((code >>> (transformationId <<< 1)) &&& 0x3).toNat

def transformNibble (code nibble : BitVec 8) : BitVec 8 :=
  orAll 4 fun transformationId => ((nibble >>> transformationId) &&& 0x1) <<< idBit code transformationId

/-- `nibble_swap ? (nibble_id + 1) % 2 : nibble_id`. -/
def target (nibbleSwap : BitVec 8) (nibbleId : Nat) : Nat := if nibbleSwap ≠ 0 then (nibbleId + 1) % 2 else nibbleId

def transformByte (order : BitVec 16) (nibbleSwap byte : BitVec 8) : BitVec 8 :=
  orAll 2 fun nibbleId =>
    transformNibble (nibbleTransformation order nibbleId) ((byte >>> (nibbleId <<< 2)) &&& 0xF)
      <<< (target nibbleSwap nibbleId <<< 2)

/-- The body of both directions, with the order field it reads. -/
def transform (order : BitVec 16) (nibbleSwap : BitVec 8) (value : BitVec 32) : BitVec 32 :=
  orAll 4 fun byteId =>
    (transformByte order nibbleSwap (((value >>> (byteId <<< 3)) &&& 0xFF).setWidth 8)).setWidth 32 <<< (byteId <<< 3)

def dpuBitConfigDpu2cpu (config : DpuBitConfig) (value : BitVec 32) : BitVec 32 :=
  transform config.dpu2cpu config.nibbleSwap value

def dpuBitConfigCpu2dpu (config : DpuBitConfig) (value : BitVec 32) : BitVec 32 :=
  transform config.cpu2dpu config.nibbleSwap value

/-! ## Codes -/

/-- The code sends the four bits of a nibble to four places. -/
def IsPermutation (code : BitVec 8) : Prop := ∀ i < 4, ∀ j < 4, idBit code i = idBit code j → i = j

instance (code : BitVec 8) : Decidable (IsPermutation code) := inferInstanceAs (Decidable (∀ i < 4, ∀ j < 4, _))

theorem idBit_lt (code : BitVec 8) (t : Nat) : idBit code t < 4 := by
  rw [idBit, BitVec.toNat_and]
  exact Nat.lt_of_le_of_lt Nat.and_le_right (by decide)

/-- The reciprocal sends every bit back. -/
theorem idBit_getReciprocal {code : BitVec 8} (h : IsPermutation code) {t : Nat} (ht : t < 4) :
    idBit (getReciprocal code) (idBit code t) = t := by
  have hall : ∀ code : BitVec 8, IsPermutation code → ∀ t < 4, idBit (getReciprocal code) (idBit code t) = t := by
    decide +kernel
  exact hall code h t ht

theorem getReciprocal_getReciprocal {code : BitVec 8} (h : IsPermutation code) :
    getReciprocal (getReciprocal code) = code := by
  have hall : ∀ code : BitVec 8, IsPermutation code → getReciprocal (getReciprocal code) = code := by decide +kernel
  exact hall code h

theorem isPermutation_getReciprocal {code : BitVec 8} (h : IsPermutation code) :
    IsPermutation (getReciprocal code) := by
  have hall : ∀ code : BitVec 8, IsPermutation code → IsPermutation (getReciprocal code) := by decide +kernel
  exact hall code h

/-- The nibble has one bit. -/
def OneHot (nibble : BitVec 4) : Prop := nibble = 0b0001 ∨ nibble = 0b0010 ∨ nibble = 0b0100 ∨ nibble = 0b1000

instance (nibble : BitVec 4) : Decidable (OneHot nibble) := inferInstanceAs (Decidable (_ ∨ _))

/-- Three one-hot nibbles in three places: with the place left over for bit 0,
a permutation of the nibble. -/
structure Describes (bit1 bit2 bit3 : BitVec 4) : Prop where
  oneHot1 : OneHot bit1
  oneHot2 : OneHot bit2
  oneHot3 : OneHot bit3
  ne12 : bit1 ≠ bit2
  ne13 : bit1 ≠ bit3
  ne23 : bit2 ≠ bit3

theorem isPermutation_syndrome {a b c : BitVec 4} (h : Describes a b c) : IsPermutation (syndrome a b c) := by
  have hall : ∀ a b c : BitVec 4, OneHot a → OneHot b → OneHot c → a ≠ b → a ≠ c → b ≠ c →
      IsPermutation (syndrome a b c) := by
    decide +kernel
  exact hall a b c h.oneHot1 h.oneHot2 h.oneHot3 h.ne12 h.ne13 h.ne23

/-! ## What a transformation carries where -/

theorem getLsbD_bit (x : BitVec 8) (t q : Nat) :
    ((x >>> t) &&& (0x1 : BitVec 8)).getLsbD q = (decide (q = 0) && x.getLsbD t) := by
  rcases Nat.eq_zero_or_pos q with rfl | hq
  · simp
  · simp [BitVec.getLsbD_one, Nat.ne_of_gt hq]

theorem getElem_ff {i : Nat} (hi : i < 8) : (0xFF#8)[i] = true := by
  rw [← BitVec.getLsbD_eq_getElem]
  have hones : ∀ j : Fin 8, (0xFF#8).getLsbD j = true := by decide
  exact hones ⟨i, hi⟩

theorem getLsbD_transformNibble {code x : BitVec 8} (h : IsPermutation code) {t : Nat} (ht : t < 4) :
    (transformNibble code x).getLsbD (idBit code t) = x.getLsbD t := by
  have hlt := idBit_lt code t
  rw [transformNibble, getLsbD_orAll ht]
  · simp [Nat.lt_trans hlt (by decide : 4 < 8)]
  · -- another bit goes to another place
    intro j hj hjt
    have hne : idBit code j ≠ idBit code t := fun he => hjt (h j hj t ht he)
    rw [BitVec.getLsbD_shiftLeft, getLsbD_bit]
    simp
    omega

theorem getLsbD_transformNibble_high (code x : BitVec 8) {p : Nat} (hp : 4 ≤ p) :
    (transformNibble code x).getLsbD p = false := by
  apply getLsbD_orAll_false
  intro t _
  have hlt := idBit_lt code t
  rw [BitVec.getLsbD_shiftLeft, getLsbD_bit]
  simp
  omega

theorem target_lt (nibbleSwap : BitVec 8) {n : Nat} (hn : n < 2) : target nibbleSwap n < 2 := by
  unfold target
  split <;> omega

theorem target_target (nibbleSwap : BitVec 8) {n : Nat} (hn : n < 2) :
    target nibbleSwap (target nibbleSwap n) = n := by
  unfold target
  split <;> omega

theorem getLsbD_nibble (x : BitVec 8) (n : Nat) {t : Nat} (ht : t < 4) :
    ((x >>> (n <<< 2)) &&& (0xF : BitVec 8)).getLsbD t = x.getLsbD (4 * n + t) := by
  have hmask : ∀ t < 4, (0xF#8).getLsbD t = true := by decide
  simp [hmask t ht, Nat.shiftLeft_eq, Nat.mul_comm]

theorem getLsbD_transformByte {order : BitVec 16} (swap x : BitVec 8) {n t : Nat} (hn : n < 2) (ht : t < 4)
    (h : IsPermutation (nibbleTransformation order n)) :
    (transformByte order swap x).getLsbD (4 * target swap n + idBit (nibbleTransformation order n) t) =
      x.getLsbD (4 * n + t) := by
  have hlt := idBit_lt (nibbleTransformation order n) t
  have htarget := target_lt swap hn
  rw [transformByte, getLsbD_orAll hn, BitVec.getLsbD_shiftLeft]
  · rw [← getLsbD_nibble x n ht, ← getLsbD_transformNibble h ht]
    simp [Nat.shiftLeft_eq, Nat.mul_comm _ 4]
    omega
  · -- the other nibble goes to the other half of the byte
    intro j hj hjn
    have hne : target swap j ≠ target swap n := by
      intro he
      have hinv := congrArg (target swap) he
      rw [target_target swap hj, target_target swap hn] at hinv
      exact hjn hinv
    rw [BitVec.getLsbD_shiftLeft]
    by_cases hlow : 4 * target swap n + idBit (nibbleTransformation order n) t < target swap j <<< 2
    · simp [hlow]
    · rw [getLsbD_transformNibble_high]
      · simp
      · rw [Nat.shiftLeft_eq] at hlow ⊢
        omega

/-- The place a bit of a word is sent to. -/
def place (order : BitVec 16) (swap : BitVec 8) (p : Nat) : Nat :=
  8 * (p / 8) + (4 * target swap (p % 8 / 4) + idBit (nibbleTransformation order (p % 8 / 4)) (p % 4))

theorem transform_carries {order : BitVec 16} (swap : BitVec 8) (v : BitVec 32)
    (h : ∀ n < 2, IsPermutation (nibbleTransformation order n)) :
    Carries (place order swap) v (transform order swap v) := by
  intro p hp
  have hn : p % 8 / 4 < 2 := by omega
  have hlt := idBit_lt (nibbleTransformation order (p % 8 / 4)) (p % 4)
  have htarget := target_lt swap hn
  rw [transform, getLsbD_orAll (show p / 8 < 4 by omega), BitVec.getLsbD_shiftLeft]
  · have hbyte := getLsbD_transformByte swap (((v >>> ((p / 8) <<< 3)) &&& (0xFF : BitVec 32)).setWidth 8) hn
      (show p % 4 < 4 by omega) (h _ hn)
    have hsub : place order swap p - (p / 8) <<< 3 =
        4 * target swap (p % 8 / 4) + idBit (nibbleTransformation order (p % 8 / 4)) (p % 4) := by
      rw [place, Nat.shiftLeft_eq]
      omega
    have hge : ¬ place order swap p < (p / 8) <<< 3 := by
      rw [place, Nat.shiftLeft_eq]
      omega
    have h32 : place order swap p < 32 := by
      rw [place]
      omega
    have hat : 4 * (p % 8 / 4) + p % 4 < 8 := by omega
    have hwhole : (p / 8) <<< 3 + (4 * (p % 8 / 4) + p % 4) = p := by
      rw [Nat.shiftLeft_eq]
      omega
    rw [hsub, BitVec.getLsbD_setWidth, hbyte]
    have hbit : 4 * target swap (p % 8 / 4) + idBit (nibbleTransformation order (p % 8 / 4)) (p % 4) < 32 := by omega
    simp [hge, h32, hat, hbit, getElem_ff, hwhole]
  · -- the other bytes stay where they are
    intro j hj hjp
    rw [BitVec.getLsbD_shiftLeft, BitVec.getLsbD_setWidth]
    by_cases hlow : place order swap p < j <<< 3
    · simp [hlow]
    · have hhigh : 8 ≤ place order swap p - j <<< 3 := by
        rw [place, Nat.shiftLeft_eq] at *
        omega
      rw [BitVec.getLsbD_of_ge _ _ hhigh]
      simp

theorem place_lt (order : BitVec 16) (swap : BitVec 8) {p : Nat} (hp : p < 32) : place order swap p < 32 := by
  have hlt := idBit_lt (nibbleTransformation order (p % 8 / 4)) (p % 4)
  have htarget := target_lt swap (show p % 8 / 4 < 2 by omega)
  rw [place]
  omega

/-- `there` and `back` are orders such that the code of the nibble where a bit
arrives is the reciprocal of the code that sent it there. -/
structure Opposite (swap : BitVec 8) (there back : BitVec 16) : Prop where
  there_perm : ∀ n < 2, IsPermutation (nibbleTransformation there n)
  back_eq : ∀ n < 2, nibbleTransformation back (target swap n) = getReciprocal (nibbleTransformation there n)

theorem Opposite.back_perm {swap : BitVec 8} {there back : BitVec 16} (h : Opposite swap there back) :
    ∀ n < 2, IsPermutation (nibbleTransformation back n) := by
  intro n hn
  rw [← target_target swap hn, h.back_eq _ (target_lt swap hn)]
  exact isPermutation_getReciprocal (h.there_perm _ (target_lt swap hn))

theorem Opposite.symm {swap : BitVec 8} {there back : BitVec 16} (h : Opposite swap there back) :
    Opposite swap back there where
  there_perm := h.back_perm
  back_eq := by
    intro n hn
    have hback := h.back_eq _ (target_lt swap hn)
    rw [target_target swap hn] at hback
    rw [hback, getReciprocal_getReciprocal (h.there_perm _ (target_lt swap hn))]

theorem Opposite.place_place {swap : BitVec 8} {there back : BitVec 16} (h : Opposite swap there back) (p : Nat) :
    place back swap (place there swap p) = p := by
  have hn : p % 8 / 4 < 2 := by omega
  have hlt := idBit_lt (nibbleTransformation there (p % 8 / 4)) (p % 4)
  have htarget := target_lt swap hn
  have hbyte : place there swap p / 8 = p / 8 := by rw [place]; omega
  have hnibble : place there swap p % 8 / 4 = target swap (p % 8 / 4) := by rw [place]; omega
  have hbit : place there swap p % 4 = idBit (nibbleTransformation there (p % 8 / 4)) (p % 4) := by
    rw [place]
    omega
  calc place back swap (place there swap p)
      = 8 * (p / 8) + (4 * (p % 8 / 4) + p % 4) := by
        rw [place, hbyte, hnibble, hbit, target_target swap hn, h.back_eq _ hn,
          idBit_getReciprocal (h.there_perm _ hn) (by omega)]
    _ = p := by omega

/-- A transformation and the opposite one. -/
theorem Opposite.transform_transform {swap : BitVec 8} {there back : BitVec 16} (h : Opposite swap there back)
    (v : BitVec 32) : transform back swap (transform there swap v) = v :=
  (transform_carries swap v h.there_perm).eq_of_inverse (transform_carries swap _ h.back_perm)
    (fun _ hp => place_lt there swap hp) (fun p _ => h.place_place p)

/-! ## The configuration -/

theorem nibbleTransformation_low (lo hi : BitVec 8) :
    nibbleTransformation (lo.setWidth 16 ||| hi.setWidth 16 <<< 8) 0 = lo := by
  apply BitVec.eq_of_getLsbD_eq
  intro i hi
  simp [nibbleTransformation, getElem_ff, hi]

theorem nibbleTransformation_high (lo hi : BitVec 8) :
    nibbleTransformation (lo.setWidth 16 ||| hi.setWidth 16 <<< 8) 1 = hi := by
  apply BitVec.eq_of_getLsbD_eq
  intro i hlt
  have hin : 8 + i < 16 := by omega
  have hsmall : i < 16 := by omega
  simp [nibbleTransformation, getElem_ff, hlt, hin, hsmall]

/-- The used nibbles of the result of a BIT_ORDER command: one-hot, and a
permutation of the low and of the high nibble. -/
structure Permutes (bitOrderResult : BitVec 32) : Prop where
  low : Describes (nibbleAt bitOrderResult 0) (nibbleAt bitOrderResult 8) (nibbleAt bitOrderResult 16)
  high : Describes (nibbleAt bitOrderResult 4) (nibbleAt bitOrderResult 12) (nibbleAt bitOrderResult 20)

/-- On the way to the DPU the codes are the syndromes themselves, swapped or
not: an even number of inversions stands before each. -/
theorem compute_cpu2dpu {r : BitVec 32} (h : Permutes r) :
    (dpuBitConfigCompute r).cpu2dpu = (lSyndrome r).setWidth 16 ||| (mSyndrome r).setWidth 16 <<< 8 := by
  have hl : getReciprocal (getReciprocal (lSyndrome r)) = lSyndrome r :=
    getReciprocal_getReciprocal (isPermutation_syndrome h.low)
  have hm : getReciprocal (getReciprocal (mSyndrome r)) = mSyndrome r :=
    getReciprocal_getReciprocal (isPermutation_syndrome h.high)
  by_cases hswap : nibbleAt r 28 = 0#4
  · simp [dpuBitConfigCompute, hswap, hl, hm]
  · simp [dpuBitConfigCompute, hswap, hl, hm]

theorem compute_opposite {r : BitVec 32} (h : Permutes r) :
    Opposite (dpuBitConfigCompute r).nibbleSwap (dpuBitConfigCompute r).cpu2dpu (dpuBitConfigCompute r).dpu2cpu where
  there_perm := by
    intro n hn
    rw [compute_cpu2dpu h]
    obtain rfl | rfl : n = 0 ∨ n = 1 := by omega
    · rw [nibbleTransformation_low]
      exact isPermutation_syndrome h.low
    · rw [nibbleTransformation_high]
      exact isPermutation_syndrome h.high
  back_eq := by
    intro n hn
    rw [compute_cpu2dpu h]
    -- what is sent to the other nibble comes back with the code of the first
    obtain rfl | rfl : n = 0 ∨ n = 1 := by omega
    · by_cases hswap : nibbleAt r 28 = 0#4
      · simp [dpuBitConfigCompute, target, hswap, nibbleTransformation_low]
      · simp [dpuBitConfigCompute, target, hswap, nibbleTransformation_low, nibbleTransformation_high]
    · by_cases hswap : nibbleAt r 28 = 0#4
      · simp [dpuBitConfigCompute, target, hswap, nibbleTransformation_high]
      · simp [dpuBitConfigCompute, target, hswap, nibbleTransformation_low, nibbleTransformation_high]

/-- Each direction of the shuffling undoes the other. -/
theorem shuffle_roundTrip (r v : BitVec 32) (h : Permutes r) :
    dpuBitConfigCpu2dpu (dpuBitConfigCompute r) (dpuBitConfigDpu2cpu (dpuBitConfigCompute r) v) = v ∧
      dpuBitConfigDpu2cpu (dpuBitConfigCompute r) (dpuBitConfigCpu2dpu (dpuBitConfigCompute r) v) = v :=
  ⟨(compute_opposite h).symm.transform_transform v, (compute_opposite h).transform_transform v⟩

/-- A board that swaps the nibbles and wires each of them in an order of its
own, neither of which is its own reciprocal. -/
theorem shuffle_roundTrip_swapped :
    (dpuBitConfigCompute 0xF0422184).nibbleSwap ≠ 0 ∧
      (dpuBitConfigCpu2dpu (dpuBitConfigCompute 0xF0422184)
          (dpuBitConfigDpu2cpu (dpuBitConfigCompute 0xF0422184) 0x12345678) = 0x12345678 ∧
        dpuBitConfigDpu2cpu (dpuBitConfigCompute 0xF0422184)
          (dpuBitConfigCpu2dpu (dpuBitConfigCompute 0xF0422184) 0x12345678) = 0x12345678) :=
  ⟨by decide, shuffle_roundTrip 0xF0422184 0x12345678
    { low := ⟨by decide, by decide, by decide, by decide, by decide, by decide⟩
      high := ⟨by decide, by decide, by decide, by decide, by decide, by decide⟩ }⟩

end DpuBackend.Ufi.BitConfig
