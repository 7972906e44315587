import DpuBackend.Vpd.DecodeSafety

/-
  What a run of the encoder does.

  The bytes of a database are `encoded`. A run that has written them so far, one
  behind the other and within the buffer, `Holds` them. It ends in one of three
  ways: it holds all bytes, it fails, or its last string has taken `*generated`
  over the largest `int`, where the comparison with the size of the buffer no
  longer stops it: then it `Overran` the buffer, and no further string succeeds.
-/

namespace DpuBackend.Vpd

open DpuBackend.Lib

/-! ## Lengths -/

/-- The code of a length. -/
def lenCode (n : Nat) : List UInt8 := Base128.marked (Base128.groups n)

theorem length_lenCode (n : Nat) : (lenCode n).length = max 1 (Nat.digits 128 n).length := by
  rw [lenCode, Base128.length_marked, Base128.length_groups]

theorem shift_or_low (reversed shifting : Nat) (h : reversed * 128 + shifting % 128 < 2 ^ 32) :
    ((reversed <<< 7) ||| (shifting &&& 0x7f)) % 2 ^ 32 = reversed * 128 + shifting % 128 := by
  have hlow : shifting &&& 0x7f = shifting % 128 := Nat.and_two_pow_sub_one_eq_mod shifting 7
  have hshift : reversed <<< 7 = 2 ^ 7 * reversed := by rw [Nat.shiftLeft_eq, Nat.mul_comm]
  rw [hlow, hshift, ← Nat.two_pow_add_eq_or_of_lt (by omega), Nat.mod_eq_of_lt (by omega), Nat.mul_comm]

theorem reverseGroups_eq (shifting reversed encodedLen : Nat)
    (hroom : (reversed + 1) * 128 ^ (Nat.digits 128 shifting).length ≤ 2 ^ 32) :
    reverseGroups shifting reversed encodedLen =
      (Base128.value reversed (Nat.digits 128 shifting), encodedLen + (Nat.digits 128 shifting).length) := by
  induction shifting using Nat.strongRecOn generalizing reversed encodedLen with
  | ind shifting ih =>
    rw [reverseGroups]
    by_cases hzero : shifting = 0
    · rw [dif_pos hzero, hzero, Nat.digits_zero]
      rfl
    · rw [dif_neg hzero, Nat.shiftRight_eq_div_pow]
      have hdigits := Nat.digits_eq_cons_digits_div (by omega : 1 < 128) hzero
      rw [hdigits, List.length_cons, Nat.pow_succ, ← Nat.mul_assoc] at hroom
      rw [hdigits]
      generalize hpow : 128 ^ (Nat.digits 128 (shifting / 128)).length = p at hroom
      have hpos : 0 < p := by
        rw [← hpow]
        exact Nat.pow_pos (by omega)
      have hnext : (reversed * 128 + shifting % 128 + 1) * p ≤ (reversed + 1) * p * 128 := by
        calc (reversed * 128 + shifting % 128 + 1) * p ≤ ((reversed + 1) * 128) * p :=
              Nat.mul_le_mul_right p (by omega)
          _ = (reversed + 1) * p * 128 := by ring
      have hstay : reversed * 128 + shifting % 128 < 2 ^ 32 := by
        have := Nat.le_mul_of_pos_right (reversed * 128 + shifting % 128 + 1) hpos
        omega
      rw [shift_or_low _ _ hstay, ih (shifting / 128) (Nat.div_lt_self (Nat.pos_of_ne_zero hzero) (by omega)) _ _
        (by rw [hpow]; omega), List.length_cons, Nat.add_right_comm encodedLen 1, Nat.add_assoc]
      rfl

/-- The bytes with the MORE flag on all of them. -/
theorem outputGroups_value {ds : List Nat} (hlt : ∀ d ∈ ds, d < 128) :
    outputGroups ds.length (Base128.value 0 ds) = ds.reverse.map fun d => UInt8.ofNat (128 + d) := by
  induction ds using List.reverseRecOn with
  | nil => rfl
  | append_singleton ds d ih =>
    have hd : d < 128 := hlt d (by simp)
    have hvalue : Base128.value 0 (ds ++ [d]) = Base128.value 0 ds * 128 + d := by simp [Base128.value]
    have hlow : (Base128.value 0 ds * 128 + d) &&& 0x7f = d := by
      have hmod := Nat.and_two_pow_sub_one_eq_mod (Base128.value 0 ds * 128 + d) 7
      change (Base128.value 0 ds * 128 + d) &&& 0x7f = (Base128.value 0 ds * 128 + d) % 128 at hmod
      omega
    have hor : 0x80 ||| d = 128 + d := by
      exact (Nat.two_pow_add_eq_or_of_lt (i := 7) hd 1).symm
    have hrest : (Base128.value 0 ds * 128 + d) >>> 7 = Base128.value 0 ds := by
      rw [Nat.shiftRight_eq_div_pow]
      omega
    rw [List.length_append, List.length_singleton, hvalue, outputGroups, hlow, hor, hrest,
      ih fun d hd => hlt d (List.mem_append_left _ hd), List.reverse_append]
    rfl

theorem clearMore_flagged {ds : List Nat} (hne : ds ≠ []) (hlt : ∀ d ∈ ds, d < 128) :
    clearMore (ds.map fun d => UInt8.ofNat (128 + d)) = Base128.marked ds := by
  induction ds with
  | nil => exact absurd rfl hne
  | cons d ds ih =>
    cases ds with
    | nil =>
      have hd : d < 128 := hlt d (List.mem_cons_self ..)
      have hclear : UInt8.ofNat (128 + d) &&& 0x7f = UInt8.ofNat d := by
        apply UInt8.toNat_inj.1
        rw [toNat_low, UInt8.toNat_ofNat', UInt8.toNat_ofNat']
        omega
      change [UInt8.ofNat (128 + d) &&& 0x7f] = [UInt8.ofNat d]
      rw [hclear]
    | cons e ds =>
      rw [Base128.marked, ← ih (List.cons_ne_nil e ds) fun d hd => hlt d (List.mem_cons_of_mem _ hd)]
      · rfl
      · intro hnil
        cases hnil

/-- The code is written if its groups fit. -/
theorem vpdEncodeLen_eq {n : Nat} (h : n < 2 ^ 28) (maxLen : Int) :
    vpdEncodeLen n maxLen =
      if ((Nat.digits 128 n).length : Int) > maxLen then .error .overflow else .ok (lenCode n) := by
  have hlength : (Nat.digits 128 n).length ≤ 4 := (Nat.digits_length_le_iff (by omega : 1 < 128) n).2 (by omega)
  have hroom : (0 + 1) * 128 ^ (Nat.digits 128 n).length ≤ 2 ^ 32 := by
    calc (0 + 1) * 128 ^ (Nat.digits 128 n).length = 128 ^ (Nat.digits 128 n).length := by omega
      _ ≤ 128 ^ 4 := Nat.pow_le_pow_right (by omega) hlength
      _ ≤ 2 ^ 32 := by omega
  rw [vpdEncodeLen, if_neg (by omega), Int.toNat_natCast, reverseGroups_eq n 0 0 hroom, Nat.zero_add]
  dsimp only
  split
  · rfl
  · congr 1
    by_cases hzero : n = 0
    · rw [hzero]
      rfl
    · have hdigits : Nat.digits 128 n ≠ [] := Nat.digits_ne_nil_iff_ne_zero.2 hzero
      have hlt : ∀ d ∈ Nat.digits 128 n, d < 128 := fun d => Nat.digits_lt_base (by omega)
      rw [if_neg (by rwa [List.length_eq_zero_iff]), outputGroups_value hlt,
        clearMore_flagged (by rwa [Ne, List.reverse_eq_nil_iff]) fun d hd => hlt d (List.mem_reverse.1 hd), lenCode,
        Base128.groups, if_neg hzero]

/-! ## What is written -/

/-- A length and the data behind it. -/
def fieldBytes (data : List UInt8) : List UInt8 := lenCode data.length ++ data

def pairBytes (pair : StringPair) : List UInt8 :=
  pair.type.code :: (fieldBytes pair.key.bytes ++ fieldBytes pair.value)

def encoded (pairs : List StringPair) : List UInt8 := pairs.flatMap pairBytes

/-- All that was written lies in a buffer of `max` bytes. -/
def Output.Inside (max : Int) (o : Output) : Prop :=
  ∀ span ∈ o.spans, 0 < span.2 → 0 ≤ span.1 ∧ span.1 + span.2 ≤ max

/-- The bytes are in the buffer, and nothing was written outside. -/
structure Output.Holds (max : Int) (o : Output) (bs : List UInt8) : Prop where
  cursor : o.cursor = bs.length
  generated : o.generated = bs.length
  mem : ∀ i (h : i < bs.length), o.mem i = bs[i]
  fits : (bs.length : Int) ≤ max
  inside : o.Inside max

/-- Something was written outside, and the room that is computed is negative. -/
structure Output.Overran (max : Int) (o : Output) : Prop where
  outside : ¬ o.Inside max
  low : -2 ^ 31 ≤ o.generated
  room : 2 ^ 32 - 2 ^ 29 ≤ max - o.generated ∧ max - o.generated < 2 ^ 32

/-- A field at `p` that is written over the end: an empty one whose length has no room, as the check lets a
length of zero groups pass, or one that takes `*generated` over the largest `int`. -/
def Crosses (max : Int) (p : Nat) (data : List UInt8) : Prop :=
  if data = [] then (p : Int) = max
  else (p + (lenCode data.length).length : Int) ≤ max ∧ 2 ^ 31 ≤ p + (fieldBytes data).length

instance (max : Int) (p : Nat) (data : List UInt8) : Decidable (Crosses max p data) :=
  inferInstanceAs (Decidable (if data = [] then (p : Int) = max
    else (p + (lenCode data.length).length : Int) ≤ max ∧ 2 ^ 31 ≤ p + (fieldBytes data).length))

/-- The field crosses, and the error is not seen. -/
def Wraps (max : Int) (p : Nat) (data : List UInt8) : Prop :=
  Crosses max p data ∧ 2 ^ 31 ≤ p + (fieldBytes data).length

/-- The fields of the pairs, with the places they have if all before them are written from `p` on. -/
def fields (p : Nat) : List StringPair → List (Nat × List UInt8)
  | [] => []
  | pair :: rest =>
    (p + 1, pair.key.bytes) :: (p + 1 + (fieldBytes pair.key.bytes).length, pair.value) ::
      fields (p + (pairBytes pair).length) rest

theorem length_fieldBytes (data : List UInt8) :
    (fieldBytes data).length = (lenCode data.length).length + data.length := by
  rw [fieldBytes, List.length_append]

theorem length_pairBytes (pair : StringPair) :
    (pairBytes pair).length = 1 + (fieldBytes pair.key.bytes).length + (fieldBytes pair.value).length := by
  rw [pairBytes, List.length_cons, List.length_append]
  omega

theorem lenCode_pos (n : Nat) : 0 < (lenCode n).length := by
  rw [length_lenCode]
  omega

theorem lenCode_le {n : Nat} (h : n < 2 ^ 28) : (lenCode n).length ≤ 4 := by
  rw [lenCode, Base128.length_marked]
  exact Base128.length_groups_le (by omega) (by omega)

theorem Crosses.place_le {max : Int} {p : Nat} {data : List UInt8} (h : Crosses max p data) : (p : Int) ≤ max := by
  unfold Crosses at h
  split at h
  · exact Int.le_of_eq h
  · have := h.1
    omega

theorem not_crosses_of_fits {max : Int} (hmax : max < 2 ^ 31) {p : Nat} {data : List UInt8}
    (h : (p + (fieldBytes data).length : Int) ≤ max) : ¬ Crosses max p data := by
  have hlength := length_fieldBytes data
  have hpos := lenCode_pos data.length
  intro hcross
  unfold Crosses at hcross
  split at hcross <;> omega

theorem lt_of_mem_fields {p : Nat} {pairs : List StringPair} {f : Nat × List UInt8} (h : f ∈ fields p pairs) :
    p < f.1 := by
  induction pairs generalizing p with
  | nil => cases h
  | cons pair rest ih =>
    rcases List.mem_cons.1 h with rfl | h
    · exact Nat.lt_succ_self p
    · rcases List.mem_cons.1 h with rfl | h
      · change p < p + 1 + (fieldBytes pair.key.bytes).length
        omega
      · have := ih h
        omega

theorem not_crosses_of_past {max : Int} {p : Nat} (h : max < p) (pairs : List StringPair) :
    ∀ f ∈ fields p pairs, ¬ Crosses max f.1 f.2 := by
  intro f hf hcross
  have hplace := hcross.place_le
  have hlt := lt_of_mem_fields hf
  omega

/-- No field of bytes that fit crosses. -/
theorem not_crosses_of_encoded {max : Int} (hmax : max < 2 ^ 31) {p : Nat} {pairs : List StringPair}
    (h : (p + (encoded pairs).length : Int) ≤ max) : ∀ f ∈ fields p pairs, ¬ Crosses max f.1 f.2 := by
  induction pairs generalizing p with
  | nil => exact nofun
  | cons pair rest ih =>
    have htotal : (encoded (pair :: rest)).length = (pairBytes pair).length + (encoded rest).length :=
      List.length_append ..
    have hpair := length_pairBytes pair
    rw [fields, List.forall_mem_cons, List.forall_mem_cons]
    refine ⟨not_crosses_of_fits hmax ?_, not_crosses_of_fits hmax ?_, ih (by omega)⟩
    · dsimp only
      omega
    · dsimp only
      omega

/-! ## One write -/

theorem inside_put {max : Int} {o : Output} {bytes : List UInt8} :
    (o.put bytes).Inside max ↔
      (0 < bytes.length → 0 ≤ o.cursor ∧ o.cursor + bytes.length ≤ max) ∧ o.Inside max := by
  unfold Output.Inside
  change (∀ span ∈ (o.cursor, bytes.length) :: o.spans, _) ↔ _
  rw [List.forall_mem_cons]

theorem Output.Holds.put {max : Int} (hmax : max < 2 ^ 31) {o : Output} {bs : List UInt8} (h : o.Holds max bs)
    {bytes : List UInt8} (hfits : (bs.length + bytes.length : Int) ≤ max) : (o.put bytes).Holds max (bs ++ bytes) := by
  have hlength : ((bs ++ bytes).length : Int) = bs.length + bytes.length := by
    rw [List.length_append]
    omega
  refine ⟨?_, ?_, fun i hi => ?_, by omega, inside_put.2 ⟨fun _ => ?_, h.inside⟩⟩
  · rw [hlength, ← h.cursor]
    rfl
  · rw [hlength, ← h.generated]
    exact int32_of_range (by rw [h.generated]; omega) (by rw [h.generated]; omega)
  · have hput : (o.put bytes).mem i =
        if o.cursor ≤ i ∧ (i : Int) < o.cursor + bytes.length then bytes.getD (i - o.cursor).toNat 0 else o.mem i := rfl
    rw [hput, h.cursor]
    by_cases hbefore : i < bs.length
    · rw [if_neg (by omega), List.getElem_append_left hbefore]
      exact h.mem i hbefore
    · have hin : i - bs.length < bytes.length := by
        rw [List.length_append] at hi
        omega
      have hindex : ((i : Int) - bs.length).toNat = i - bs.length := by omega
      rw [if_pos (by omega), hindex, List.getElem_append_right (by omega), List.getD_eq_getElem?_getD,
        List.getElem?_eq_getElem hin, Option.getD_some]
  · rw [h.cursor]
    omega

/-! ## One field -/

/-- `encodeField` without the monad. -/
theorem encodeField_apply (data : List UInt8) (max : Int) (o : Output) :
    encodeField data max o =
      match vpdEncodeLen data.length (int32 (max - o.generated)) with
      | .error _ => .error .err o
      | .ok code =>
        if int32 ((o.put code).generated + data.length) > max then .error .overflow (o.put code)
        else .ok ⟨⟩ ((o.put code).put data) := by
  change (match vpdEncodeLen data.length (int32 (max - o.generated)) with
    | .error _ => (throw VpdError.err : EncodeM PUnit)
    | .ok code => do
      modify (Output.put code)
      let o ← get
      if int32 (o.generated + data.length) > max then throw VpdError.overflow
      else modify (Output.put data)) o = _
  cases vpdEncodeLen data.length (int32 (max - o.generated)) with
  | error _ => rfl
  | ok code =>
    change (if int32 ((o.put code).generated + data.length) > max then (throw VpdError.overflow : EncodeM PUnit)
      else modify (Output.put data)) (o.put code) = _
    dsimp only
    split <;> rfl

/-- The digits of a length that has a field of one byte and no data. -/
theorem length_digits_eq {data : List UInt8} (hne : data ≠ []) :
    (lenCode data.length).length = (Nat.digits 128 data.length).length := by
  have hpos : 0 < (Nat.digits 128 data.length).length :=
    List.length_pos_of_ne_nil (Nat.digits_ne_nil_iff_ne_zero.2 fun h => hne (List.length_eq_zero_iff.1 h))
  rw [length_lenCode]
  omega

theorem not_inside_put {max : Int} {o : Output} {bytes : List UInt8} (hne : bytes ≠ [])
    (h : max < o.cursor + bytes.length) : ¬ (o.put bytes).Inside max := by
  intro hinside
  have hbytes := (inside_put.1 hinside).1 (List.length_pos_of_ne_nil hne)
  omega

/-- Behind a length that is in the buffer. -/
theorem encodeData_cases {max : Int} (hmax : max < 2 ^ 31) {data bs : List UInt8} (hdata : data.length < 2 ^ 28)
    {o : Output} (h : o.Holds max bs) :
    (int32 (o.generated + data.length) ≤ max ∧ (o.put data).Holds max (bs ++ data)) ∨
    (max < int32 (o.generated + data.length) ∧ max < bs.length + data.length ∧ bs.length + data.length < 2 ^ 31) ∨
    (int32 (o.generated + data.length) ≤ max ∧ (o.put data).Overran max ∧ 2 ^ 31 ≤ bs.length + data.length) := by
  have hplace := h.fits
  have hgenerated : (o.put data).generated = int32 (o.generated + data.length) := rfl
  rw [h.generated] at hgenerated ⊢
  by_cases hover : 2 ^ 31 ≤ bs.length + data.length
  · have hwrapped : int32 ((bs.length : Int) + data.length) = bs.length + data.length - 2 ^ 32 :=
      int32_of_over (by omega) (by omega)
    have hne : data ≠ [] := by
      intro hnil
      rw [hnil, List.length_nil] at hover
      omega
    rw [hwrapped] at hgenerated ⊢
    exact .inr (.inr ⟨by omega, ⟨not_inside_put hne (by rw [h.cursor]; omega), by rw [hgenerated]; omega,
      by rw [hgenerated]; omega⟩, hover⟩)
  · have hexact : int32 ((bs.length : Int) + data.length) = bs.length + data.length :=
      int32_of_range (by omega) (by omega)
    rw [hexact]
    by_cases hfits : (bs.length + data.length : Int) ≤ max
    · exact .inl ⟨hfits, h.put hmax hfits⟩
    · exact .inr (.inl ⟨by omega, by omega, by omega⟩)

/-- The length of an empty field is written behind the last byte. -/
theorem encodeEmpty_overrun {max : Int} (hmax : max < 2 ^ 31) {bs : List UInt8} {o : Output} (h : o.Holds max bs)
    (hfull : (bs.length : Int) = max) :
    let o' := o.put (lenCode ([] : List UInt8).length)
    (max < int32 (o'.generated + ([] : List UInt8).length) ∧ ¬ o'.Inside max ∧ max + 1 < 2 ^ 31) ∨
      (int32 (o'.generated + ([] : List UInt8).length) ≤ max ∧ (o'.put []).Overran max ∧ max + 1 = 2 ^ 31) := by
  intro o'
  have houtside : ¬ o'.Inside max := not_inside_put (List.cons_ne_nil _ _) (by rw [h.cursor, hfull]; exact Int.lt_succ max)
  have hgenerated : o'.generated = int32 (max + 1) := by
    rw [← hfull, ← h.generated]
    rfl
  have hput : (o'.put []).generated = int32 (o'.generated + 0) := rfl
  have hzero : o'.generated + (([] : List UInt8).length : Nat) = o'.generated := Int.add_zero _
  rw [Int.add_zero] at hput
  rw [hzero]
  by_cases hlast : max + 1 = 2 ^ 31
  · have hwrapped : int32 (max + 1) = -2 ^ 31 := by
      rw [hlast]
      rfl
    have hagain : int32 (-2 ^ 31) = -2 ^ 31 := rfl
    rw [hgenerated, hwrapped, hagain] at hput ⊢
    exact .inr ⟨by omega, ⟨fun hinside => houtside (inside_put.1 hinside).2, by rw [hput], by rw [hput]; omega⟩, hlast⟩
  · have hexact : int32 (max + 1) = max + 1 := int32_of_range (by omega) (by omega)
    rw [hgenerated, hexact, hexact]
    exact .inl ⟨Int.lt_succ max, houtside, by omega⟩

/-- A field of data `data` at the end of `bs` is written, refused, or takes `*generated` over the largest `int`. -/
theorem encodeField_cases {max : Int} (hmax : max < 2 ^ 31) {data bs : List UInt8} (hdata : data.length < 2 ^ 28)
    {o : Output} (h : o.Holds max bs) :
    (∃ o', encodeField data max o = .ok ⟨⟩ o' ∧ o'.Holds max (bs ++ fieldBytes data)) ∨
    (∃ e o', encodeField data max o = .error e o' ∧ (o'.Inside max ↔ ¬ Crosses max bs.length data) ∧
      max < bs.length + (fieldBytes data).length ∧ ¬ Wraps max bs.length data) ∨
    ∃ o', encodeField data max o = .ok ⟨⟩ o' ∧ o'.Overran max ∧ Wraps max bs.length data := by
  have hplace := h.fits
  have htotal := length_fieldBytes data
  have hcodeLe := lenCode_le hdata
  have hroom : int32 (max - o.generated) = max - bs.length := by
    rw [h.generated]
    exact int32_of_range (by omega) (by omega)
  rw [encodeField_apply, hroom, vpdEncodeLen_eq hdata]
  by_cases hfits : (bs.length + (lenCode data.length).length : Int) ≤ max
  · have hheld := h.put hmax hfits
    have hdigits : ¬ ((Nat.digits 128 data.length).length : Int) > max - bs.length := by
      have := length_lenCode data.length
      omega
    have hend : (bs ++ lenCode data.length).length = bs.length + (lenCode data.length).length := List.length_append ..
    rw [if_neg hdigits]
    dsimp only
    rcases encodeData_cases hmax hdata hheld with ⟨hcheck, hdone⟩ | ⟨hcheck, hlong, hsmall⟩ | ⟨hcheck, hover, hlong⟩
    · rw [if_neg (Int.not_lt.2 hcheck)]
      rw [List.append_assoc] at hdone
      exact .inl ⟨_, rfl, hdone⟩
    · have hno : ¬ Crosses max bs.length data := by
        intro hcross
        unfold Crosses at hcross
        have := lenCode_pos data.length
        split at hcross <;> omega
      rw [if_pos hcheck]
      exact .inr (.inl ⟨_, _, rfl, iff_of_true hheld.inside hno, by omega, fun hwraps => hno hwraps.1⟩)
    · have hne : data ≠ [] := by
        intro hnil
        have hlength : data.length = 0 := List.length_eq_zero_iff.2 hnil
        omega
      rw [if_neg (Int.not_lt.2 hcheck)]
      refine .inr (.inr ⟨_, rfl, hover, ?_, by omega⟩)
      rw [Crosses, if_neg hne]
      exact ⟨hfits, by omega⟩
  rcases eq_or_ne data [] with rfl | hne
  · -- an empty field: its length has no groups and takes one byte
    have hcode : (lenCode ([] : List UInt8).length).length = 1 := rfl
    have hnone : ([] : List UInt8).length = 0 := rfl
    have hfull : (bs.length : Int) = max := by omega
    have hcross : Crosses max bs.length [] := by rwa [Crosses, if_pos rfl]
    have hdigits : ¬ ((Nat.digits 128 ([] : List UInt8).length).length : Int) > max - bs.length := by
      rw [List.length_nil, Nat.digits_zero, List.length_nil]
      omega
    rw [if_neg hdigits]
    dsimp only
    rcases encodeEmpty_overrun hmax h hfull with ⟨hcheck, houtside, hsmall⟩ | ⟨hcheck, hover, hlast⟩
    · rw [if_pos hcheck]
      refine .inr (.inl ⟨_, _, rfl, iff_of_false houtside (not_not.2 hcross), by omega, fun hwraps => ?_⟩)
      have := hwraps.2
      omega
    · rw [if_neg (Int.not_lt.2 hcheck)]
      exact .inr (.inr ⟨_, rfl, hover, hcross, by omega⟩)
  · have hdigits := length_digits_eq hne
    have hno : ¬ Crosses max bs.length data := by
      rw [Crosses, if_neg hne]
      exact fun hcrosses => hfits hcrosses.1
    rw [if_pos (by omega)]
    exact .inr (.inl ⟨_, _, rfl, iff_of_true h.inside hno, by omega, fun hwraps => hno hwraps.1⟩)

/-! ## One pair -/

/-- The lengths of a pair have at most four groups. -/
def StringPair.Short (pair : StringPair) : Prop := pair.key.bytes.length < 2 ^ 28 ∧ pair.value.length < 2 ^ 28

/-- The cursor goes to the end of what was generated. -/
def Output.toEnd (o : Output) : Output := { o with cursor := o.generated }

theorem vpdEncodeString_apply (pair : StringPair) (max : Int) (o : Output) :
    vpdEncodeString pair max o =
      if o.generated ≥ max then .error .overflow o.toEnd
      else match encodeField pair.key.bytes max (o.toEnd.put [pair.type.code]) with
        | .error e o => .error e o
        | .ok _ o => encodeField pair.value max o := by
  change (if o.generated ≥ max then (throw VpdError.overflow : EncodeM PUnit) else do
    modify (Output.put [pair.type.code])
    encodeField pair.key.bytes max
    encodeField pair.value max) o.toEnd = _
  split
  · rfl
  · change EStateM.bind (encodeField pair.key.bytes max) (fun _ => encodeField pair.value max)
      (o.toEnd.put [pair.type.code]) = _
    unfold EStateM.bind
    cases encodeField pair.key.bytes max (o.toEnd.put [pair.type.code]) <;> rfl

/-- Once the buffer was overrun no field is written. -/
theorem encodeField_overran {max : Int} {data : List UInt8} (hdata : data.length < 2 ^ 28) {o : Output}
    (h : 2 ^ 31 ≤ max - o.generated ∧ max - o.generated < 2 ^ 32) : encodeField data max o = .error .err o := by
  have hroom : int32 (max - o.generated) = max - o.generated - 2 ^ 32 := int32_of_over h.1 (by omega)
  rw [encodeField_apply, hroom, vpdEncodeLen_eq hdata, if_pos (by omega)]

theorem vpdEncodeString_overran {max : Int} (hmax : max < 2 ^ 31) {pair : StringPair} (hpair : pair.Short) {o : Output}
    (h : o.Overran max) : ∃ o', vpdEncodeString pair max o = .error .err o' ∧ ¬ o'.Inside max := by
  have hroom := h.room
  have hlow := h.low
  have hgenerated : (o.toEnd.put [pair.type.code]).generated = o.generated + 1 := by
    change int32 (o.generated + 1) = o.generated + 1
    exact int32_of_range (by omega) (by omega)
  rw [vpdEncodeString_apply, if_neg (by omega), encodeField_overran hpair.1 (by rw [hgenerated]; omega)]
  exact ⟨_, rfl, fun hinside => h.outside (inside_put.1 hinside).2⟩

/-- A pair at the end of `bs` is written, refused, or takes `*generated` over the largest `int`. -/
theorem vpdEncodeString_cases {max : Int} (hmax : max < 2 ^ 31) {pair : StringPair} (hpair : pair.Short)
    {bs : List UInt8} {o : Output} (h : o.Holds max bs) :
    (∃ o', vpdEncodeString pair max o = .ok ⟨⟩ o' ∧ o'.Holds max (bs ++ pairBytes pair)) ∨
    (∃ e o', vpdEncodeString pair max o = .error e o' ∧
      (o'.Inside max ↔ ¬ Crosses max (bs.length + 1) pair.key.bytes ∧
        ¬ Crosses max (bs.length + 1 + (fieldBytes pair.key.bytes).length) pair.value) ∧
      max < bs.length + (pairBytes pair).length ∧
      ¬ Wraps max (bs.length + 1 + (fieldBytes pair.key.bytes).length) pair.value) ∨
    ∃ o', vpdEncodeString pair max o = .ok ⟨⟩ o' ∧ o'.Overran max ∧
      Wraps max (bs.length + 1 + (fieldBytes pair.key.bytes).length) pair.value := by
  have hplace := h.fits
  have htotal := length_pairBytes pair
  have hgenerated := h.generated
  rw [vpdEncodeString_apply]
  by_cases hfull : o.generated ≥ max
  · have hkey : ¬ Crosses max (bs.length + 1) pair.key.bytes := fun hcross => by
      have := hcross.place_le
      omega
    have hvalue : ¬ Crosses max (bs.length + 1 + (fieldBytes pair.key.bytes).length) pair.value := fun hcross => by
      have := hcross.place_le
      omega
    rw [if_pos hfull]
    exact .inr (.inl ⟨_, _, rfl, iff_of_true h.inside ⟨hkey, hvalue⟩, by omega, fun hwraps => hvalue hwraps.1⟩)
  rw [if_neg hfull]
  have hend : o.toEnd.Holds max bs := ⟨hgenerated, hgenerated, h.mem, h.fits, h.inside⟩
  have htype : (o.toEnd.put [pair.type.code]).Holds max (bs ++ [pair.type.code]) :=
    hend.put hmax (by rw [List.length_singleton]; omega)
  have hstart : (bs ++ [pair.type.code]).length = bs.length + 1 := List.length_append ..
  rcases encodeField_cases hmax hpair.1 htype with
    ⟨o', hkey, hheld⟩ | ⟨e, o', hkey, hinside, hlong, -⟩ | ⟨o', hkey, hover, hwraps⟩
  · rw [hkey]
    dsimp only
    have hvalueAt : (bs ++ [pair.type.code] ++ fieldBytes pair.key.bytes).length =
        bs.length + 1 + (fieldBytes pair.key.bytes).length := by rw [List.length_append, hstart]
    have hnext := encodeField_cases hmax hpair.2 hheld
    rw [hvalueAt] at hnext
    have hkeyIn : ¬ Crosses max (bs.length + 1) pair.key.bytes :=
      not_crosses_of_fits hmax (by have := hheld.fits; omega)
    rcases hnext with ⟨o'', hvalue, hheld'⟩ | ⟨e, o'', hvalue, hinside, hlong, hno⟩ | ⟨o'', hvalue, hover, hwraps⟩
    · refine .inl ⟨o'', hvalue, ?_⟩
      simpa [pairBytes] using hheld'
    · exact .inr (.inl ⟨e, o'', hvalue, by rw [hinside, and_iff_right hkeyIn], by omega, hno⟩)
    · exact .inr (.inr ⟨o'', hvalue, hover, hwraps⟩)
  · rw [hkey]
    rw [hstart] at hinside hlong
    have hvalue : ¬ Crosses max (bs.length + 1 + (fieldBytes pair.key.bytes).length) pair.value := fun hcross => by
      have := hcross.place_le
      omega
    exact .inr (.inl ⟨e, o', rfl, by rw [hinside, and_iff_left hvalue], by omega, fun hwraps => hvalue hwraps.1⟩)
  · rw [hkey]
    dsimp only
    rw [hstart] at hwraps
    have hvalue : ¬ Crosses max (bs.length + 1 + (fieldBytes pair.key.bytes).length) pair.value := fun hcross => by
      have := hcross.place_le
      have := hwraps.2
      omega
    have hroom := hover.room
    rw [encodeField_overran hpair.2 (by omega)]
    have := hwraps.2
    exact .inr (.inl ⟨_, o', rfl, iff_of_false hover.outside fun hno => hno.1 hwraps.1, by omega,
      fun hwraps => hvalue hwraps.1⟩)

/-! ## All pairs -/

theorem encodePairs_cons (max : Int) (pair : StringPair) (rest : List StringPair) (o : Output) :
    encodePairs max (pair :: rest) o =
      match vpdEncodeString pair max o with
      | .error _ o => .error .err o
      | .ok _ o => encodePairs max rest o := by
  change EStateM.bind (EStateM.tryCatch (vpdEncodeString pair max) fun _ => throw VpdError.err)
    (fun _ => encodePairs max rest) o = _
  unfold EStateM.bind EStateM.tryCatch
  cases vpdEncodeString pair max o <;> rfl

/-- The last field wraps. -/
def LastWraps (max : Int) (p : Nat) (pairs : List StringPair) : Prop :=
  ∃ f ∈ (fields p pairs).getLast?, Wraps max f.1 f.2

theorem lastWraps_singleton {max : Int} {p : Nat} {pair : StringPair} :
    LastWraps max p [pair] ↔ Wraps max (p + 1 + (fieldBytes pair.key.bytes).length) pair.value := by
  simp [LastWraps, fields]

theorem lastWraps_cons {max : Int} {p : Nat} {pair : StringPair} {rest : List StringPair} (hne : rest ≠ []) :
    LastWraps max p (pair :: rest) ↔ LastWraps max (p + (pairBytes pair).length) rest := by
  cases rest with
  | nil => exact absurd rfl hne
  | cons next rest => simp [LastWraps, fields]

theorem not_lastWraps_of_past {max : Int} {p : Nat} (h : max < p) (pairs : List StringPair) :
    ¬ LastWraps max p pairs := by
  rintro ⟨f, hf, hwraps⟩
  exact not_crosses_of_past h pairs f (List.mem_of_getLast? hf) hwraps.1

theorem encodePairs_cases {max : Int} (hmax : max < 2 ^ 31) {pairs : List StringPair}
    (hpairs : ∀ pair ∈ pairs, pair.Short) {bs : List UInt8} {o : Output} (h : o.Holds max bs) :
    (∃ o', encodePairs max pairs o = .ok ⟨⟩ o' ∧ o'.Holds max (bs ++ encoded pairs)) ∨
    (∃ o', encodePairs max pairs o = .error .err o' ∧
      (o'.Inside max ↔ ∀ f ∈ fields bs.length pairs, ¬ Crosses max f.1 f.2) ∧ ¬ LastWraps max bs.length pairs) ∨
    ∃ o', encodePairs max pairs o = .ok ⟨⟩ o' ∧ o'.Overran max ∧ LastWraps max bs.length pairs := by
  induction pairs generalizing bs o with
  | nil => exact .inl ⟨o, rfl, by rwa [encoded, List.flatMap_nil, List.append_nil]⟩
  | cons pair rest ih =>
    have hpair := hpairs pair (List.mem_cons_self ..)
    have hrest := fun pair hpair => hpairs pair (List.mem_cons_of_mem _ hpair)
    rw [encodePairs_cons]
    have hstep : bs.length + (pairBytes pair).length = (bs ++ pairBytes pair).length := (List.length_append ..).symm
    have htotal := length_pairBytes pair
    rcases vpdEncodeString_cases hmax hpair h with
      ⟨o', hrun, hheld⟩ | ⟨e, o', hrun, hinside, hlong, hno⟩ | ⟨o', hrun, hover, hwraps⟩
    · -- the pair is in the buffer
      have hfits := hheld.fits
      have hkey : ¬ Crosses max (bs.length + 1) pair.key.bytes := not_crosses_of_fits hmax (by omega)
      have hvalue : ¬ Crosses max (bs.length + 1 + (fieldBytes pair.key.bytes).length) pair.value :=
        not_crosses_of_fits hmax (by omega)
      have hlast : LastWraps max bs.length (pair :: rest) ↔ LastWraps max (bs ++ pairBytes pair).length rest := by
        rcases eq_or_ne rest [] with rfl | hne
        · rw [lastWraps_singleton]
          exact iff_of_false (fun hwraps => hvalue hwraps.1) nofun
        · rw [lastWraps_cons hne, hstep]
      rw [hrun, hlast]
      have hnext := ih hrest hheld
      rw [List.append_assoc] at hnext
      rcases hnext with hnext | ⟨o'', hrun', hinside, hno⟩ | hnext
      · exact .inl hnext
      · refine .inr (.inl ⟨o'', hrun', ?_, hno⟩)
        rw [hinside, fields, List.forall_mem_cons, List.forall_mem_cons, hstep]
        exact ⟨fun hno => ⟨hkey, hvalue, hno⟩, fun hno => hno.2.2⟩
      · exact .inr (.inr hnext)
    · -- the pair is refused
      have hpast : max < (bs.length + (pairBytes pair).length : Nat) := by omega
      have hlast : ¬ LastWraps max bs.length (pair :: rest) := by
        rcases eq_or_ne rest [] with rfl | hne
        · rwa [lastWraps_singleton]
        · rw [lastWraps_cons hne]
          exact not_lastWraps_of_past hpast rest
      rw [hrun]
      refine .inr (.inl ⟨o', rfl, ?_, hlast⟩)
      rw [hinside, fields, List.forall_mem_cons, List.forall_mem_cons]
      exact ⟨fun hno => ⟨hno.1, hno.2, not_crosses_of_past hpast rest⟩, fun hno => ⟨hno.1, hno.2.1⟩⟩
    · -- the pair wraps: it is the last, or the next one is refused
      have hpast : max < (bs.length + (pairBytes pair).length : Nat) := by
        have := hwraps.2
        omega
      rw [hrun]
      cases rest with
      | nil => exact .inr (.inr ⟨o', rfl, hover, lastWraps_singleton.2 hwraps⟩)
      | cons next rest =>
        obtain ⟨o'', hrun', houtside⟩ := vpdEncodeString_overran hmax (hrest next (List.mem_cons_self ..)) hover
        refine .inr (.inl ⟨o'', ?_, iff_of_false houtside fun hno => ?_, ?_⟩)
        · dsimp only
          rw [encodePairs_cons, hrun']
        · exact hno _ (List.mem_cons_of_mem _ (List.mem_cons_self ..)) hwraps.1
        · rw [lastWraps_cons (List.cons_ne_nil next rest)]
          exact not_lastWraps_of_past hpast _

end DpuBackend.Vpd
