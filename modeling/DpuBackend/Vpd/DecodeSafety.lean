import DpuBackend.Vpd.Container

/-
  The decoder on any bytes.

  A record is one of the buffer if its two lengths, read as numbers of any size,
  stay within it. The decoder goes from record to record; the lengths it reads
  are `int`s, and none is compared with the room that is left. `Misread` says
  when this goes wrong at a place: the key's length takes `consumed` back or
  over the largest `int`, or a key or a value that does not fit is handed on.
-/

namespace DpuBackend.Vpd

open DpuBackend.Lib

theorem int32_of_range {x : Int} (hlow : -2 ^ 31 ≤ x) (hhigh : x < 2 ^ 31) : int32 x = x := by
  simp only [int32, Int.bmod_def]
  split <;> omega

theorem int32_of_over {x : Int} (hlow : 2 ^ 31 ≤ x) (hhigh : x < 2 ^ 32 + 2 ^ 31) : int32 x = x - 2 ^ 32 := by
  simp only [int32, Int.bmod_def]
  split <;> omega

theorem int32_range (x : Int) : -2 ^ 31 ≤ int32 x ∧ int32 x < 2 ^ 31 := by
  simp only [int32, Int.bmod_def]
  split <;> omega

theorem int32_natCast {n : Nat} (h : n < 2 ^ 31) : int32 n = n := int32_of_range (by omega) (by omega)

/-! ## Lengths -/

theorem more_iff (b : UInt8) : b &&& 0x80 ≠ 0 ↔ 128 ≤ b.toNat := by
  have hall : ∀ n : Fin 256, UInt8.ofNat n &&& 0x80 ≠ 0 ↔ 128 ≤ (UInt8.ofNat n).toNat := by decide +kernel
  have hb := hall ⟨b.toNat, b.toNat_lt⟩
  simpa using hb

theorem toNat_low (b : UInt8) : (b &&& 0x7f).toNat = b.toNat % 128 := by
  rw [UInt8.toNat_and]
  exact Nat.and_two_pow_sub_one_eq_mod b.toNat 7

/-- One more group of a length. -/
theorem shift_group (acc : Nat) (b : UInt8) :
    BitVec.ofNat 32 acc <<< 7 ||| (b &&& 0x7f).toBitVec.setWidth 32 = BitVec.ofNat 32 (acc * 128 + b.toNat % 128) := by
  have hlow : (b &&& 0x7f).toBitVec.toNat = b.toNat % 128 := toNat_low b
  apply BitVec.eq_of_toNat_eq
  rw [BitVec.toNat_or, BitVec.toNat_shiftLeft, BitVec.toNat_setWidth, hlow, BitVec.toNat_ofNat, BitVec.toNat_ofNat,
    Nat.shiftLeft_eq]
  have hshift : acc % 2 ^ 32 * 2 ^ 7 % 2 ^ 32 = 2 ^ 7 * (acc % 2 ^ 25) := by omega
  have hgroup : b.toNat % 128 % 2 ^ 32 = b.toNat % 128 := by omega
  rw [hshift, hgroup, ← Nat.two_pow_add_eq_or_of_lt (by omega)]
  omega

/-- The length whose code begins at a place, and the length of the code. -/
def Buffer.declared (buf : Buffer) (pos : Nat) : Option (Nat × Nat) := Base128.read 0 0 (buf.bytes.drop pos)

theorem Buffer.declared_bound {buf : Buffer} {pos len count : Nat} (h : buf.declared pos = some (len, count)) :
    0 < count ∧ pos + count ≤ buf.bytes.length := by
  have hcount := Base128.read_count h
  rw [List.length_drop] at hcount
  omega

theorem byteAt_ofNat (buf : Buffer) (pos : Nat) : buf.byteAt pos = buf.bytes[pos]? := by
  unfold Buffer.byteAt
  rw [if_neg (by omega), Int.toNat_natCast]

theorem decodeLenFrom_eq {buf : Buffer} {pos left : Nat} (acc i : Nat) (hleft : pos + i + left = buf.bytes.length) :
    decodeLenFrom buf pos left (BitVec.ofNat 32 acc) i =
      some (match Base128.read acc i (buf.bytes.drop (pos + i)) with
        | none => .error .overflow
        | some (len, count) => .ok (BitVec.ofNat 32 len, count)) := by
  induction left generalizing acc i with
  | zero =>
    rw [List.drop_eq_nil_of_le (by omega)]
    rfl
  | succ left ih =>
    have hlt : pos + i < buf.bytes.length := by omega
    have hcast : (pos : Int) + i = (pos + i : Nat) := by omega
    rw [decodeLenFrom, hcast, byteAt_ofNat, List.getElem?_eq_getElem hlt, List.drop_eq_getElem_cons hlt, Base128.read]
    dsimp only
    rw [shift_group]
    by_cases hmore : 128 ≤ buf.bytes[pos + i].toNat
    · rw [if_pos ((more_iff _).2 hmore), if_pos hmore, ih _ _ (by omega), Nat.add_assoc pos i 1]
    · rw [if_neg fun h => hmore ((more_iff _).1 h), if_neg hmore]

theorem vpdDecodeLen_eq {buf : Buffer} {pos : Nat} (hpos : pos < 2 ^ 31) :
    vpdDecodeLen buf (int32 (buf.maxLen - pos)) pos =
      some (match buf.declared pos with
        | none => .error .overflow
        | some (len, count) => .ok (BitVec.ofNat 32 len, count)) := by
  have hlength := buf.length_lt
  rw [int32_of_range (by unfold Buffer.maxLen; omega) (by unfold Buffer.maxLen; omega), vpdDecodeLen, Buffer.declared]
  by_cases hin : pos ≤ buf.bytes.length
  · exact decodeLenFrom_eq 0 0 (by unfold Buffer.maxLen; omega)
  · have hleft : (buf.maxLen - pos).toNat = 0 := by unfold Buffer.maxLen; omega
    rw [hleft, List.drop_eq_nil_of_le (by omega)]
    rfl

/-! ## What safe means -/

/-- All values of `*consumed`, the last one first. -/
def Cursor.trace (c : Cursor) : List Int := c.consumed :: c.past

/-- It never goes back and is never negative. -/
structure Cursor.Rising (c : Cursor) : Prop where
  sorted : c.trace.Pairwise (· ≥ ·)
  nonneg : ∀ x ∈ c.trace, 0 ≤ x

/-- The `len` bytes from `pos` on are in the buffer. -/
def Buffer.Inside (buf : Buffer) (pos len : Int) : Prop := 0 ≤ pos ∧ 0 ≤ len ∧ pos + len ≤ buf.maxLen

/-- A record: its type, the two lengths, and the number of bytes of their codes. -/
structure Record where
  type : DataType
  keyLen : Nat
  keyCode : Nat
  valueLen : Nat
  valueCode : Nat

namespace Record

variable (r : Record)

def valueAt (pos : Nat) : Nat := pos + 1 + r.keyCode + r.keyLen

/-- Where a record at `pos` ends. -/
def next (pos : Nat) : Nat := r.valueAt pos + r.valueCode + r.valueLen

def handed (pos : Nat) : Handed :=
  ⟨(pos + 1 + r.keyCode : Nat), r.keyLen, (r.valueAt pos + r.valueCode : Nat), r.valueLen, r.type⟩

end Record

def Buffer.typeAt (buf : Buffer) (pos : Nat) : Option DataType := buf.bytes[pos]? >>= DataType.ofCode

/-- The record is at `pos`: the lengths are those declared there, and fit. -/
structure Buffer.HasRecord (buf : Buffer) (pos : Nat) (r : Record) : Prop where
  type : buf.typeAt pos = some r.type
  key : buf.declared (pos + 1) = some (r.keyLen, r.keyCode)
  value : buf.declared (r.valueAt pos) = some (r.valueLen, r.valueCode)
  fits : r.next pos ≤ buf.bytes.length

/-- What a decoder has done is safe. -/
structure Decoding.Safe (buf : Buffer) (s : Decoding) : Prop where
  rising : s.cursor.Rising
  /-- Each record is behind the one before. -/
  strict : (s.cursor.consumed :: s.handed.map Prod.fst).Pairwise (· > ·)
  inside : ∀ p ∈ s.handed, buf.Inside p.2.key p.2.keyLen ∧ buf.Inside p.2.value p.2.valueLen
  /-- Nothing is handed on, and so nothing added, but records that fit. -/
  declared : ∀ p ∈ s.handed, ∃ r, buf.HasRecord p.1.toNat r ∧ p.2 = r.handed p.1.toNat

/-- The decoder ends and has been safe, whatever the database it adds to. -/
def DecodesSafely (buf : Buffer) : Prop := ∀ db, ∃ fuel s, vpdDecodeToContainer buf fuel db = some s ∧ s.Safe buf

/-! ## When it is -/

/-- The places of records that the decoder comes to if all before them fit. -/
inductive Buffer.Reaches (buf : Buffer) : Nat → Prop where
  | start : buf.Reaches 0
  | next {pos : Nat} {r : Record} : buf.Reaches pos → buf.HasRecord pos r → buf.Reaches (r.next pos)

/-- A record begins at `pos`, and its key's length is an `int` that takes the decoder back or over the largest
`int`, or a second length follows and one of the two is more than the room that is left. -/
def Buffer.Misread (buf : Buffer) (pos : Nat) : Prop :=
  ∃ type keyLen keyCode, buf.typeAt pos = some type ∧ buf.declared (pos + 1) = some (keyLen, keyCode) ∧
    pos + 1 + keyCode < buf.bytes.length ∧
    (int32 keyLen < 0 ∨ 2 ^ 31 ≤ (pos + 1 + keyCode : Nat) + int32 keyLen ∨
      ∃ valueLen valueCode,
        buf.declared (pos + 1 + keyCode + (int32 keyLen).toNat) = some (valueLen, valueCode) ∧
          (int32 keyLen ≠ keyLen ∨
            buf.bytes.length < pos + 1 + keyCode + (int32 keyLen).toNat + valueCode + valueLen))

/-! ## One field -/

@[simp] theorem advance_trace (c : Cursor) (k : Int) : (c.advance k).trace = int32 (c.consumed + k) :: c.trace := rfl

theorem Cursor.Rising.of_suffix {c c' : Cursor} (h : c'.Rising) (hsuffix : c.trace <:+ c'.trace) : c.Rising :=
  ⟨h.sorted.sublist hsuffix.sublist, fun x hx => h.nonneg x (hsuffix.subset hx)⟩

theorem Cursor.Rising.advance {c : Cursor} (h : c.Rising) {k : Int} (hk : 0 ≤ k) (hover : c.consumed + k < 2 ^ 31) :
    (c.advance k).Rising ∧ (c.advance k).consumed = c.consumed + k := by
  have hpos : 0 ≤ c.consumed := h.nonneg c.consumed (List.mem_cons_self ..)
  have hvalue : int32 (c.consumed + k) = c.consumed + k := int32_of_range (by omega) hover
  have hpast := (List.pairwise_cons.1 h.sorted).1
  refine ⟨⟨?_, ?_⟩, hvalue⟩
  · rw [advance_trace, hvalue, List.pairwise_cons]
    refine ⟨fun x hx => ?_, h.sorted⟩
    rcases List.mem_cons.1 hx with rfl | hx
    · omega
    · have := hpast x hx
      omega
  · intro x hx
    rw [advance_trace, hvalue] at hx
    rcases List.mem_cons.1 hx with rfl | hx
    · omega
    · exact h.nonneg x hx

theorem Cursor.Rising.advance_nat {c : Cursor} (h : c.Rising) {pos k : Nat} (hc : c.consumed = pos)
    (hover : pos + k < 2 ^ 31) : (c.advance k).Rising ∧ (c.advance k).consumed = (pos + k : Nat) := by
  obtain ⟨hrising, hat⟩ := h.advance (k := k) (by omega) (by omega)
  exact ⟨hrising, by omega⟩

theorem Cursor.Rising.advance_one {c : Cursor} (h : c.Rising) {pos : Nat} (hc : c.consumed = pos)
    (hover : pos + 1 < 2 ^ 31) : (c.advance 1).Rising ∧ (c.advance 1).consumed = (pos + 1 : Nat) :=
  h.advance_nat (k := 1) hc hover

/-- A step back shows. -/
theorem not_rising_of_advance {c : Cursor} {k : Int} (h : int32 (c.consumed + k) < c.consumed) :
    ¬ (c.advance k).Rising := by
  intro hrising
  have hlast := (List.pairwise_cons.1 hrising.sorted).1 c.consumed (List.mem_cons_self ..)
  change int32 (c.consumed + k) ≥ c.consumed at hlast
  omega

theorem decodeField_eq {buf : Buffer} {c : Cursor} {pos : Nat} (hpos : pos < 2 ^ 31) (hc : c.consumed = pos)
    (fits : Int → Bool) :
    decodeField buf c fits = some (match buf.declared pos with
      | none => (c, .error .overflow)
      | some (len, count) =>
        if fits (pos + count : Nat) then ((c.advance count).advance (int32 len), .ok ((pos + count : Nat), int32 len))
        else (c, .error .overflow)) := by
  have hlength := buf.length_lt
  rw [decodeField, hc, vpdDecodeLen_eq hpos, Option.bind_some]
  cases hdeclared : buf.declared pos with
  | none => rfl
  | some found =>
    obtain ⟨len, count⟩ := found
    have hbound := Buffer.declared_bound hdeclared
    have hsum : int32 ((pos : Int) + count) = (pos + count : Nat) := by
      rw [int32_of_range (by omega) (by omega)]
      omega
    have hlen : (BitVec.ofNat 32 len).toInt = int32 len := BitVec.toInt_ofNat' len
    have hat : (c.advance count).consumed = (pos + count : Nat) := by rw [← hsum, ← hc]; rfl
    dsimp only
    rw [hsum, hat, hlen]
    split <;> rfl

theorem decodeField_trace {buf : Buffer} {c c' : Cursor} {fits : Int → Bool} {result : Except VpdError (Int × Int)}
    (h : decodeField buf c fits = some (c', result)) : c.trace <:+ c'.trace := by
  obtain ⟨found, -, h⟩ := Option.bind_eq_some_iff.1 h
  split at h
  · cases h
    exact List.suffix_refl _
  · split at h
    · cases h
      exact (List.suffix_cons _ _).trans (List.suffix_cons _ _)
    · cases h
      exact List.suffix_refl _

theorem decodeValue_trace {buf : Buffer} {c c' : Cursor} {type : DataType} {key keyLen : Int}
    {result : Except VpdError Handed} (h : decodeValue buf type key keyLen c = some (c', result)) :
    c.trace <:+ c'.trace := by
  obtain ⟨found, hfield, h⟩ := Option.bind_eq_some_iff.1 h
  split at h
  · cases h
    exact decodeField_trace hfield
  · cases h
    exact decodeField_trace hfield

theorem decodeKey_trace {buf : Buffer} {c c' : Cursor} {type : DataType} {result : Except VpdError Handed}
    (h : decodeKey buf type c = some (c', result)) : c.trace <:+ c'.trace := by
  obtain ⟨found, hfield, h⟩ := Option.bind_eq_some_iff.1 h
  split at h
  · cases h
    exact decodeField_trace hfield
  · exact (decodeField_trace hfield).trans (decodeValue_trace h)

theorem vpdDecodeString_trace {buf : Buffer} {c c' : Cursor} {result : Except VpdError Handed}
    (h : vpdDecodeString buf c = some (c', result)) : c.trace <:+ c'.trace := by
  unfold vpdDecodeString at h
  split at h
  · cases h
    exact List.suffix_refl _
  obtain ⟨b, -, h⟩ := Option.bind_eq_some_iff.1 h
  split at h
  · cases h
    exact List.suffix_refl _
  · exact (List.suffix_cons _ _).trans (decodeKey_trace h)

/-! ## One record -/

theorem typeAt_lt {buf : Buffer} {pos : Nat} {type : DataType} (h : buf.typeAt pos = some type) :
    pos < buf.bytes.length := by
  obtain ⟨b, hb, -⟩ := Option.bind_eq_some_iff.1 h
  exact (List.getElem?_eq_some_iff.1 hb).1

/-- The decoder at a place in the buffer. -/
theorem vpdDecodeString_eq {buf : Buffer} {c : Cursor} {pos : Nat} (hc : c.consumed = pos)
    (hlt : pos < buf.bytes.length) :
    vpdDecodeString buf c =
      match buf.typeAt pos with
      | none => some (c, .error .err)
      | some type => decodeKey buf type (c.advance 1) := by
  have htype : buf.typeAt pos = DataType.ofCode buf.bytes[pos] := by
    rw [Buffer.typeAt, List.getElem?_eq_getElem hlt]
    rfl
  rw [vpdDecodeString, hc, if_neg (by unfold Buffer.maxLen; omega), byteAt_ofNat, List.getElem?_eq_getElem hlt, htype]
  rfl

/-- A field is refused, or its length is one that is declared. -/
theorem field_cases {buf : Buffer} {c : Cursor} {pos : Nat} (hpos : pos < 2 ^ 31) (hc : c.consumed = pos)
    (fits : Int → Bool) :
    (∃ e, decodeField buf c fits = some (c, .error e)) ∨
      ∃ len count, buf.declared pos = some (len, count) ∧ fits (pos + count : Nat) = true ∧
        decodeField buf c fits =
          some ((c.advance count).advance (int32 len), .ok ((pos + count : Nat), int32 len)) := by
  rw [decodeField_eq hpos hc]
  cases buf.declared pos with
  | none => exact .inl ⟨_, rfl⟩
  | some found =>
    obtain ⟨len, count⟩ := found
    dsimp only
    by_cases hfit : fits (pos + count : Nat) = true
    · rw [if_pos hfit]
      exact .inr ⟨len, count, rfl, hfit, rfl⟩
    · rw [if_neg hfit]
      exact .inl ⟨_, rfl⟩

/-- Past a field of `k` bytes. -/
theorem Cursor.Rising.skip {c : Cursor} (h : c.Rising) {pos n len k : Nat} (hc : c.consumed = pos)
    (hlen : int32 len = k) (hover : pos + n + k < 2 ^ 31) :
    ((c.advance n).advance (int32 len)).Rising ∧
      ((c.advance n).advance (int32 len)).consumed = (pos + n + k : Nat) := by
  rw [hlen]
  obtain ⟨hcode, hcodeAt⟩ := h.advance_nat hc (Nat.lt_of_le_of_lt (Nat.le_add_right _ k) hover)
  exact hcode.advance_nat hcodeAt hover

/-- A record of the buffer is handed on. -/
theorem round_record {buf : Buffer} {c : Cursor} {pos : Nat} {r : Record} (hc : c.consumed = pos) (hrising : c.Rising)
    (h : buf.HasRecord pos r) :
    ∃ c', vpdDecodeString buf c = some (c', .ok (r.handed pos)) ∧ c'.Rising ∧ c'.consumed = r.next pos := by
  have hlength := buf.length_lt
  have hfits := h.fits
  have hbound := Buffer.declared_bound h.value
  have hnextEq : r.next pos = r.valueAt pos + r.valueCode + r.valueLen := rfl
  have hvalueEq : r.valueAt pos = pos + 1 + r.keyCode + r.keyLen := rfl
  have hkeyRoom : ((pos + 1 + r.keyCode : Nat) : Int) < buf.maxLen := by unfold Buffer.maxLen; omega
  have hvalueRoom : ((r.valueAt pos + r.valueCode : Nat) : Int) ≤ buf.maxLen := by unfold Buffer.maxLen; omega
  have hstart : pos + 1 < 2 ^ 31 := by omega
  have hkeyEnd : pos + 1 + r.keyCode + r.keyLen < 2 ^ 31 := by omega
  have hvalueEnd : r.valueAt pos + r.valueCode + r.valueLen < 2 ^ 31 := by omega
  have hkeyLen := int32_natCast (Nat.lt_of_le_of_lt (Nat.le_add_left r.keyLen _) hkeyEnd)
  have hvalueLen := int32_natCast (Nat.lt_of_le_of_lt (Nat.le_add_left r.valueLen _) hvalueEnd)
  obtain ⟨hone, hat⟩ := hrising.advance_one hc hstart
  obtain ⟨hkey, hvalueAt⟩ := hone.skip (n := r.keyCode) hat hkeyLen hkeyEnd
  rw [← hvalueEq] at hvalueAt hkeyEnd
  obtain ⟨hvalue, hnext⟩ := hkey.skip (n := r.valueCode) hvalueAt hvalueLen hvalueEnd
  refine ⟨_, ?_, hvalue, hnext⟩
  rw [vpdDecodeString_eq hc (typeAt_lt h.type), h.type]
  dsimp only
  rw [decodeKey, decodeField_eq hstart hat, h.key, Option.bind_some]
  dsimp only
  rw [if_pos (decide_eq_true hkeyRoom)]
  dsimp only
  rw [decodeValue, decodeField_eq hkeyEnd hvalueAt, h.value, Option.bind_some]
  dsimp only
  rw [if_pos (decide_eq_true hvalueRoom), hkeyLen, hvalueLen]
  rfl

/-- A place that is not misread and has no record: what is there is refused. -/
theorem round_refused {buf : Buffer} {c : Cursor} {pos : Nat} (hc : c.consumed = pos) (hpos : pos ≤ buf.bytes.length)
    (hrising : c.Rising) (hok : ¬ buf.Misread pos) (hno : ∀ r, ¬ buf.HasRecord pos r) :
    ∃ c' e, vpdDecodeString buf c = some (c', .error e) ∧ c'.Rising ∧ (pos : Int) ≤ c'.consumed := by
  have hlength := buf.length_lt
  by_cases hend : pos = buf.bytes.length
  · refine ⟨c, .overflow, ?_, hrising, Int.le_of_eq hc.symm⟩
    rw [vpdDecodeString, hc, if_pos (by unfold Buffer.maxLen; omega)]
  rw [vpdDecodeString_eq hc (by omega)]
  cases htype : buf.typeAt pos with
  | none => exact ⟨c, .err, rfl, hrising, Int.le_of_eq hc.symm⟩
  | some type =>
    have hstart : pos + 1 < 2 ^ 31 := by omega
    obtain ⟨hone, hat⟩ := hrising.advance_one hc hstart
    dsimp only
    rcases field_cases hstart hat fun pos => pos < buf.maxLen with
      ⟨e, hfield⟩ | ⟨keyLen, keyCode, hkey, hroom, hfield⟩
    · rw [decodeKey, hfield]
      exact ⟨_, e, rfl, hone, by omega⟩
    have hroom : pos + 1 + keyCode < buf.bytes.length := by
      have := of_decide_eq_true hroom
      unfold Buffer.maxLen at this
      omega
    -- the place is not misread, so the key takes the decoder forward
    have hnonneg : 0 ≤ int32 keyLen := by
      by_contra hneg
      exact hok ⟨type, keyLen, keyCode, htype, hkey, hroom, .inl (Int.not_le.1 hneg)⟩
    obtain ⟨k, hk⟩ : ∃ k : Nat, int32 keyLen = k := ⟨_, (Int.toNat_of_nonneg hnonneg).symm⟩
    have hover : pos + 1 + keyCode + k < 2 ^ 31 := by
      by_contra hover
      refine hok ⟨type, keyLen, keyCode, htype, hkey, hroom, .inr (.inl ?_)⟩
      rw [hk, ← Int.natCast_add]
      exact Int.ofNat_le.2 (Nat.not_lt.1 hover)
    obtain ⟨hkeyRising, hvalueAt⟩ := hone.skip (n := keyCode) hat hk hover
    cases hvalue : buf.declared (pos + 1 + keyCode + k) with
    | none =>
      rw [decodeKey, hfield, Option.bind_some]
      dsimp only
      rw [decodeValue, decodeField_eq hover hvalueAt, hvalue]
      refine ⟨_, _, rfl, hkeyRising, ?_⟩
      rw [hvalueAt]
      exact Int.ofNat_le.2 (by omega)
    | some found =>
      obtain ⟨valueLen, valueCode⟩ := found
      have hdeclared : buf.declared (pos + 1 + keyCode + (int32 keyLen).toNat) = some (valueLen, valueCode) := by
        rw [hk, Int.toNat_natCast]
        exact hvalue
      have hexact : int32 keyLen = keyLen := by
        by_contra hne
        exact hok ⟨type, keyLen, keyCode, htype, hkey, hroom, .inr (.inr ⟨_, _, hdeclared, .inl hne⟩)⟩
      obtain rfl : k = keyLen := Int.ofNat.inj (hk.symm.trans hexact)
      refine absurd ⟨htype, hkey, hvalue, ?_⟩ (hno ⟨type, k, keyCode, valueLen, valueCode⟩)
      by_contra hout
      refine hok ⟨type, k, keyCode, htype, hkey, hroom, .inr (.inr ⟨_, _, hdeclared, .inr ?_⟩)⟩
      rw [hk, Int.toNat_natCast]
      exact Nat.not_le.1 hout

/-- A place that is not misread: the record is refused, or it is one of the buffer. -/
theorem round_cases {buf : Buffer} {c : Cursor} {pos : Nat} (hc : c.consumed = pos) (hpos : pos ≤ buf.bytes.length)
    (hrising : c.Rising) (hok : ¬ buf.Misread pos) :
    (∃ c' e, vpdDecodeString buf c = some (c', .error e) ∧ c'.Rising ∧ (pos : Int) ≤ c'.consumed) ∨
      ∃ r c', buf.HasRecord pos r ∧ vpdDecodeString buf c = some (c', .ok (r.handed pos)) ∧ c'.Rising ∧
        c'.consumed = r.next pos := by
  by_cases hrecord : ∃ r, buf.HasRecord pos r
  · obtain ⟨r, hrecord⟩ := hrecord
    obtain ⟨c', hround, hlast, hnext⟩ := round_record hc hrising hrecord
    exact .inr ⟨r, c', hrecord, hround, hlast, hnext⟩
  · exact .inl (round_refused hc hpos hrising hok fun r hr => hrecord ⟨r, hr⟩)

/-- The pair that a record holds. -/
def Buffer.pairOf (buf : Buffer) (pos : Nat) (r : Record) : StringPair :=
  ⟨CString.ofBytes ((buf.bytes.drop (pos + 1 + r.keyCode)).take r.keyLen),
    (buf.bytes.drop (r.valueAt pos + r.valueCode)).take r.valueLen, r.type⟩

theorem slice_ofNat {buf : Buffer} {pos len : Nat} (h : pos + len ≤ buf.bytes.length) :
    buf.slice pos len = some ((buf.bytes.drop pos).take len) := by
  rw [Buffer.slice, if_pos ⟨by omega, by omega, by unfold Buffer.maxLen; omega⟩, Int.toNat_natCast, Int.toNat_natCast]

/-- A record that fits is added. -/
theorem vpdDecodeCb_record {buf : Buffer} {pos : Nat} {r : Record} (h : buf.HasRecord pos r) (db : Database) :
    vpdDecodeCb buf (r.handed pos) db = some (.ok (vpdSetString db (buf.pairOf pos r))) := by
  have hlength := buf.length_lt
  have hfits := h.fits
  have hvalue := Buffer.declared_bound h.value
  unfold Record.next at hfits
  have hkeyEnd : pos + 1 + r.keyCode + r.keyLen ≤ buf.bytes.length := by
    unfold Record.valueAt at hvalue
    omega
  have hkeySize : ¬ int32 ((r.handed pos).keyLen + 1) < 0 := by
    have hexact : int32 ((r.keyLen : Int) + 1) = r.keyLen + 1 := int32_of_range (by omega) (by omega)
    change ¬ int32 ((r.keyLen : Int) + 1) < 0
    omega
  have hsize : ¬ (if (r.handed pos).type = .string then int32 ((r.handed pos).valueLen + 1)
      else (r.handed pos).valueLen) < 0 := by
    have hexact : int32 ((r.valueLen : Int) + 1) = r.valueLen + 1 := int32_of_range (by omega) (by omega)
    change ¬ (if r.type = .string then int32 ((r.valueLen : Int) + 1) else (r.valueLen : Int)) < 0
    split <;> omega
  have hkey : buf.slice (r.handed pos).key (r.handed pos).keyLen = some _ := slice_ofNat hkeyEnd
  have hvalue : buf.slice (r.handed pos).value (r.handed pos).valueLen = some _ := slice_ofNat hfits
  rw [vpdDecodeCb, if_neg hkeySize, hkey, Option.bind_some, if_neg hsize, hvalue]
  rfl

/-! ## All records -/

theorem Buffer.Reaches.le {buf : Buffer} {pos : Nat} (h : buf.Reaches pos) : pos ≤ buf.bytes.length := by
  induction h with
  | start => exact Nat.zero_le _
  | next _ hrecord _ => exact hrecord.fits

theorem Record.lt_next (r : Record) (pos : Nat) : pos < r.next pos := by
  unfold Record.next Record.valueAt
  omega

theorem Buffer.HasRecord.inside {buf : Buffer} {pos : Nat} {r : Record} (h : buf.HasRecord pos r) :
    buf.Inside (r.handed pos).key (r.handed pos).keyLen ∧ buf.Inside (r.handed pos).value (r.handed pos).valueLen := by
  have hfits := h.fits
  have hvalue := (Buffer.declared_bound h.value).2
  unfold Record.valueAt at hvalue
  unfold Record.next at hfits
  unfold Buffer.Inside Buffer.maxLen Record.handed
  dsimp only
  omega

/-- One more record leaves a safe decoder safe. -/
theorem Decoding.Safe.add {buf : Buffer} {s : Decoding} (hsafe : s.Safe buf) {pos : Nat} {r : Record} {c : Cursor}
    (hc : s.cursor.consumed = pos) (hrecord : buf.HasRecord pos r) (hrising : c.Rising)
    (hnext : c.consumed = r.next pos) (db : Database) :
    Decoding.Safe buf ⟨c, (s.cursor.consumed, r.handed pos) :: s.handed, db⟩ := by
  have hlt := r.lt_next pos
  refine ⟨hrising, ?_, ?_, ?_⟩
  · change (c.consumed :: s.cursor.consumed :: s.handed.map Prod.fst).Pairwise (· > ·)
    rw [List.pairwise_cons]
    refine ⟨fun x hx => ?_, hsafe.strict⟩
    have hbefore := (List.pairwise_cons.1 hsafe.strict).1
    rcases List.mem_cons.1 hx with rfl | hx
    · omega
    · have := hbefore x hx
      omega
  · intro p hp
    rcases List.mem_cons.1 hp with rfl | hp
    · exact hrecord.inside
    · exact hsafe.inside p hp
  · intro p hp
    rcases List.mem_cons.1 hp with rfl | hp
    · rw [hc, Int.toNat_natCast]
      exact ⟨r, hrecord, rfl⟩
    · exact hsafe.declared p hp

theorem decodeLoop_safe {buf : Buffer} (hok : ∀ pos, buf.Reaches pos → ¬ buf.Misread pos) {fuel pos : Nat}
    {s : Decoding} (hc : s.cursor.consumed = pos) (hreaches : buf.Reaches pos) (hsafe : s.Safe buf)
    (hfuel : buf.bytes.length < pos + fuel) : ∃ s', decodeLoop buf fuel s = some s' ∧ s'.Safe buf := by
  induction fuel generalizing s pos with
  | zero =>
    have := hreaches.le
    omega
  | succ fuel ih =>
    rw [decodeLoop]
    rcases round_cases hc hreaches.le hsafe.rising (hok pos hreaches) with
      ⟨c, e, hround, hrising, hle⟩ | ⟨r, c, hrecord, hround, hrising, hnext⟩
    · rw [hround]
      refine ⟨_, rfl, hrising, ?_, hsafe.inside, hsafe.declared⟩
      obtain ⟨hbefore, hhanded⟩ := List.pairwise_cons.1 hsafe.strict
      rw [List.pairwise_cons]
      refine ⟨fun x hx => ?_, hhanded⟩
      have := hbefore x hx
      dsimp only
      omega
    · rw [hround, Option.bind_some]
      dsimp only
      rw [vpdDecodeCb_record hrecord, Option.bind_some]
      have hlt := r.lt_next pos
      exact ih hnext (hreaches.next hrecord) (hsafe.add hc hrecord hrising hnext _) (by omega)

/-- What is done stays done. -/
theorem decodeLoop_extends {buf : Buffer} {fuel : Nat} {s s' : Decoding} (h : decodeLoop buf fuel s = some s') :
    s.cursor.trace <:+ s'.cursor.trace ∧ s.handed <:+ s'.handed := by
  induction fuel generalizing s with
  | zero => cases h
  | succ fuel ih =>
    obtain ⟨round, hround, h⟩ := Option.bind_eq_some_iff.1 h
    split at h
    · cases h
      exact ⟨vpdDecodeString_trace hround, List.suffix_refl _⟩
    · have htrace := vpdDecodeString_trace hround
      obtain ⟨result, -, h⟩ := Option.bind_eq_some_iff.1 h
      split at h
      · cases h
        exact ⟨htrace, List.suffix_cons _ _⟩
      · have hrest := ih h
        exact ⟨htrace.trans hrest.1, (List.suffix_cons _ _).trans hrest.2⟩

/-- The first round of the loop shows in the end. -/
theorem decodeLoop_first {buf : Buffer} {fuel : Nat} {s s' : Decoding} (h : decodeLoop buf fuel s = some s') :
    ∃ c result, vpdDecodeString buf s.cursor = some (c, result) ∧ c.trace <:+ s'.cursor.trace ∧
      ∀ handed, result = .ok handed → (s.cursor.consumed, handed) ∈ s'.handed := by
  cases fuel with
  | zero => cases h
  | succ fuel =>
    obtain ⟨round, hround, h⟩ := Option.bind_eq_some_iff.1 h
    split at h
    · cases h
      exact ⟨_, _, hround, List.suffix_refl _, nofun⟩
    · refine ⟨_, _, hround, ?_⟩
      obtain ⟨result, -, h⟩ := Option.bind_eq_some_iff.1 h
      split at h
      · cases h
        refine ⟨List.suffix_refl _, fun handed' heq => ?_⟩
        cases heq
        exact List.mem_cons_self ..
      · have hrest := decodeLoop_extends h
        refine ⟨hrest.1, fun handed' heq => ?_⟩
        cases heq
        exact hrest.2.subset (List.mem_cons_self ..)

/-- A field that leaves the cursor rising took it forward. -/
theorem Cursor.Rising.forward {c : Cursor} {pos count : Nat} {x : Int} (hc : c.consumed = pos)
    (hpos : pos + count < 2 ^ 31) (hlow : -2 ^ 31 ≤ x) (hhigh : x < 2 ^ 31)
    (h : ((c.advance count).advance x).Rising) : ∃ k : Nat, x = k ∧ pos + count + k < 2 ^ 31 := by
  have hat : (c.advance count).consumed = (pos + count : Nat) := by
    change int32 (c.consumed + count) = _
    rw [hc, ← Int.natCast_add]
    exact int32_natCast hpos
  have hforward : ¬ int32 ((c.advance count).consumed + x) < (c.advance count).consumed :=
    fun hback => not_rising_of_advance hback h
  rw [hat] at hforward
  have hnonneg : 0 ≤ x := by
    by_contra hneg
    rw [int32_of_range (by omega) (by omega)] at hforward
    omega
  refine ⟨x.toNat, (Int.toNat_of_nonneg hnonneg).symm, ?_⟩
  by_contra hover
  rw [int32_of_over (by omega) (by omega)] at hforward
  omega

theorem unsafe_of_misread {buf : Buffer} {pos fuel : Nat} {s s' : Decoding} (hmisread : buf.Misread pos)
    (hc : s.cursor.consumed = pos) (h : decodeLoop buf fuel s = some s') : ¬ s'.Safe buf := by
  intro hsafe
  have hlength := buf.length_lt
  obtain ⟨type, keyLen, keyCode, htype, hkey, hroom, hwrong⟩ := hmisread
  obtain ⟨c, result, hround, htrace, hhanded⟩ := decodeLoop_first h
  have hstart : pos + 1 < 2 ^ 31 := by omega
  have hcode : pos + 1 + keyCode < 2 ^ 31 := by omega
  have hkeyRoom : ((pos + 1 + keyCode : Nat) : Int) < buf.maxLen := by unfold Buffer.maxLen; omega
  have hat := (hsafe.rising.of_suffix (decodeLoop_extends h).1).advance_one hc hstart
  rw [vpdDecodeString_eq hc (typeAt_lt htype), htype] at hround
  dsimp only at hround
  rw [decodeKey, decodeField_eq hstart hat.2, hkey, Option.bind_some] at hround
  dsimp only at hround
  rw [if_pos (decide_eq_true hkeyRoom)] at hround
  dsimp only at hround
  -- the cursor behind the key is part of the trace
  have hrising := hsafe.rising.of_suffix ((decodeValue_trace hround).trans htrace)
  obtain ⟨k, hk, hover⟩ := hrising.forward hat.2 hcode (int32_range keyLen).1 (int32_range keyLen).2
  have hvalueAt := (hat.1.skip (n := keyCode) hat.2 hk hover).2
  rw [hk, Int.toNat_natCast] at hwrong
  rcases hwrong with hneg | hover' | ⟨valueLen, valueCode, hvalue, hwrong⟩
  · exact absurd hneg (Int.not_lt.2 (Int.natCast_nonneg k))
  · rw [← Int.natCast_add] at hover'
    exact absurd hover (Nat.not_lt.2 (Int.ofNat_le.1 hover'))
  · -- what is handed on is no record of the buffer
    have hvalueRoom : ((pos + 1 + keyCode + k + valueCode : Nat) : Int) ≤ buf.maxLen :=
      Int.ofNat_le.2 (Buffer.declared_bound hvalue).2
    rw [decodeValue, decodeField_eq hover hvalueAt, hvalue, Option.bind_some] at hround
    dsimp only at hround
    rw [if_pos (decide_eq_true hvalueRoom), Option.some.injEq, Prod.mk.injEq] at hround
    obtain ⟨r, hrecord, heq⟩ := hsafe.declared _ (hhanded _ hround.2.symm)
    rw [hc, Int.toNat_natCast] at hrecord heq
    rw [Record.handed, Handed.mk.injEq] at heq
    have hkey' := hrecord.key
    rw [hkey] at hkey'
    cases hkey'
    obtain rfl : k = r.keyLen := Int.ofNat.inj (hk.symm.trans heq.2.1)
    have hvalue' := hrecord.value
    unfold Record.valueAt at hvalue'
    rw [hvalue] at hvalue'
    cases hvalue'
    rcases hwrong with hne | hout
    · exact hne rfl
    · exact absurd hrecord.fits (Nat.not_le.2 hout)

/-! ## The condition -/

theorem safe_start (buf : Buffer) (db : Database) : Decoding.Safe buf ⟨⟨0, []⟩, [], db⟩ := by
  refine ⟨⟨List.pairwise_singleton _ _, fun x hx => ?_⟩, List.pairwise_singleton _ _, nofun, nofun⟩
  rw [List.mem_singleton.1 hx]

/-- What goes wrong at a place that the decoder reaches goes wrong from the start. -/
theorem unsafe_of_reaches {buf : Buffer} {pos : Nat} (hreaches : buf.Reaches pos)
    (hplace : ∀ fuel s s', s.cursor.consumed = (pos : Int) → decodeLoop buf fuel s = some s' → ¬ s'.Safe buf)
    {fuel : Nat} {s s' : Decoding} (hc : s.cursor.consumed = 0) (h : decodeLoop buf fuel s = some s') :
    ¬ s'.Safe buf := by
  induction hreaches generalizing fuel s s' with
  | start => exact hplace fuel s s' hc h
  | @next pos r hreaches hrecord ih =>
    refine ih (fun fuel s s' hc h hsafe => ?_) hc h
    cases fuel with
    | zero => cases h
    | succ fuel =>
      have hrising := hsafe.rising.of_suffix (decodeLoop_extends h).1
      obtain ⟨c, hround, -, hnext⟩ := round_record hc hrising hrecord
      rw [decodeLoop, hround, Option.bind_some] at h
      dsimp only at h
      rw [vpdDecodeCb_record hrecord, Option.bind_some] at h
      exact hplace fuel _ s' hnext h hsafe

/-- The decoder is safe exactly if it misreads no record that it comes to. -/
theorem decodes_safely_iff (buf : Buffer) : DecodesSafely buf ↔ ∀ pos, buf.Reaches pos → ¬ buf.Misread pos := by
  constructor
  · intro h pos hreaches hmisread
    obtain ⟨fuel, s, hrun, hsafe⟩ := h Database.empty
    exact unsafe_of_reaches hreaches (fun _ _ _ hc h => unsafe_of_misread hmisread hc h) rfl hrun hsafe
  · intro hok db
    obtain ⟨s, hrun, hsafe⟩ := decodeLoop_safe hok (s := ⟨⟨0, []⟩, [], db⟩) rfl .start (safe_start buf db)
      (by omega : buf.bytes.length < 0 + (buf.bytes.length + 1))
    exact ⟨_, s, hrun, hsafe⟩

/-- A string record whose key is one byte and whose value, of 127 bytes by its length, is missing. -/
def valueMissing : Buffer := ⟨[0x00, 0x01, 0x61, 0x7f], by decide⟩

/-- The callback is handed 127 bytes behind the four of the buffer. -/
theorem valueMissing_not_safe :
    vpdDecodeString valueMissing ⟨0, []⟩ = some (⟨131, [4, 3, 2, 1, 0]⟩, .ok ⟨2, 1, 4, 127, .string⟩) ∧
      ¬ DecodesSafely valueMissing := by
  refine ⟨rfl, fun h => ?_⟩
  obtain ⟨fuel, s, hrun, hsafe⟩ := h Database.empty
  have hmisread : valueMissing.Misread 0 :=
    ⟨.string, 1, 1, rfl, rfl, by decide, .inr (.inr ⟨127, 1, rfl, .inr (by decide)⟩)⟩
  exact unsafe_of_misread hmisread rfl hrun hsafe

end DpuBackend.Vpd
