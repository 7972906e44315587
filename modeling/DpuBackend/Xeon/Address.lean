import Mathlib.Tactic.Common
import DpuBackend.Lib.Mem
import Mathlib.Algebra.Order.Ring.Nat

/-
  Where a word of MRAM lives in the rank's address region (`xeon_sp_translation.c`).

  The 64-bit word at MRAM offset `o` of every DPU of line `d` is one cache line
  of the region. Its address composes a permutation of the offset's bits, a
  stride of two cache lines, chunks of 0x20000 bytes placed every 0x100000 and a
  bank start for the line. `wordAddress_injective` proves that no two words of
  MRAM share a cache line, for every 32-bit offset and not only for the 26 bits
  of one MRAM; `wordAddress_apart` that their cache lines do not overlap, and
  `wordAddress_off_windows` that none touches the command windows.

  Correspondence (C ↔ Lean):
    `apply_address_translation_on_mram_offset` ↔ `applyAddressTranslationOnMramOffset`
    `BANK_START`, `BANK_OFFSET_NEXT_DATA`      ↔ `bankStart`, `bankOffsetNextData`
    the three lines that compute `offset` in every transfer loop ↔ `lineOffset`
-/

namespace DpuBackend.Xeon

/-- `apply_address_translation_on_mram_offset`. -/
def applyAddressTranslationOnMramOffset (byteOffset : UInt32) : UInt32 :=
  let mask21To15 : UInt32 := (((1 : UInt32) <<< (21 - 15 + 1)) - 1) <<< 15
  let mask21To14 : UInt32 := (((1 : UInt32) <<< (21 - 14 + 1)) - 1) <<< 14
  let bits21To15 := (byteOffset &&& mask21To15) >>> 15
  let bit14 := (byteOffset >>> 14) &&& 1
  let unchangedBits := byteOffset &&& ~~~mask21To14
  unchangedBits ||| (bits21To15 <<< 14) ||| (bit14 <<< 21)

def bankChunkSize : Nat := 0x20000

def bankNextChunkOffset : Nat := 0x100000

/-- `BANK_START(dpu_id)`. -/
def bankStart (dpuId : Nat) : Nat := 0x40000 * (dpuId % 4) + (if dpuId ≥ 4 then 0x40 else 0)

/-- `BANK_OFFSET_NEXT_DATA(i)`. -/
def bankOffsetNextData (i : Nat) : Nat := i * 16

/-- The offset, within a line's bank, of the cache line that holds the 64-bit
word at MRAM offset `i * 8 + offset`, a 32-bit sum. -/
def lineOffset (i offset : Nat) : Nat :=
  let mram64BitWordOffset := (applyAddressTranslationOnMramOffset (UInt32.ofNat (i * 8 + offset))).toNat / 8
  let nextData := bankOffsetNextData (mram64BitWordOffset * 8)
  nextData % bankChunkSize + nextData / bankChunkSize * bankNextChunkOffset

/-- The address of the cache line of MRAM offset `o` on DPU line `d`. -/
def wordAddress (d o : Nat) : Nat := bankStart d + lineOffset 0 o

/-- The window `xeon_sp_write_to_cis` stores a command block to. -/
def writeCisWindow : Nat := 0x20000

/-- The window `xeon_sp_read_from_cis` loads the results from. -/
def readCisWindow : Nat := 0x20000 + 32 * 1024

/-! ## The permutation of the offset's bits, as arithmetic -/

theorem and_shiftLeft (b m k : Nat) : b &&& (m <<< k) = ((b >>> k) &&& m) <<< k := by
  apply Nat.eq_of_testBit_eq
  intro i
  simp only [Nat.testBit_and, Nat.testBit_shiftLeft, Nat.testBit_shiftRight]
  by_cases h : k ≤ i
  · simp [h]
  · simp [h]

theorem and_field (b w k : Nat) : b &&& ((2 ^ w - 1) <<< k) = b / 2 ^ k % 2 ^ w * 2 ^ k := by
  rw [and_shiftLeft, Nat.and_two_pow_sub_one_eq_mod, Nat.shiftRight_eq_div_pow, Nat.shiftLeft_eq]

/-- The bits the translation leaves in place are the fourteen low ones and the
ten high ones. -/
theorem and_unchanged {b : Nat} (hb : b < 2 ^ 32) :
    b &&& 0xffc03fff = 2 ^ 22 * (b / 2 ^ 22) ||| b % 2 ^ 14 := by
  have hmask : (0xffc03fff : Nat) = ((2 ^ 10 - 1) <<< 22) ||| (2 ^ 14 - 1) := by decide
  rw [hmask, Nat.and_or_distrib_left, and_field, Nat.and_two_pow_sub_one_eq_mod, Nat.mul_comm,
    Nat.mod_eq_of_lt (by omega : b / 2 ^ 22 < 2 ^ 10)]

/-- Bits 13..0 and 31..22 stay, bits 21..15 move down one place and bit 14 moves
to place 21. -/
theorem applyAddressTranslation_toNat (o : UInt32) :
    (applyAddressTranslationOnMramOffset o).toNat =
      2 ^ 22 * (o.toNat / 2 ^ 22) +
        (2 ^ 21 * (o.toNat / 2 ^ 14 % 2) + (2 ^ 14 * (o.toNat / 2 ^ 15 % 2 ^ 7) + o.toNat % 2 ^ 14)) := by
  have hb : o.toNat < 2 ^ 32 := o.toNat_lt
  generalize hn : o.toNat = b at hb
  have h1 : b &&& 4161536 = b / 2 ^ 15 % 2 ^ 7 * 2 ^ 15 := and_field b 7 15
  have hor : (applyAddressTranslationOnMramOffset o).toNat =
      ((2 ^ 22 * (b / 2 ^ 22) ||| b % 2 ^ 14) ||| 2 ^ 14 * (b / 2 ^ 15 % 2 ^ 7)) |||
        2 ^ 21 * (b / 2 ^ 14 % 2) := by
    have e1 : ((b &&& 4161536) >>> 15) <<< 14 % 2 ^ 32 = 2 ^ 14 * (b / 2 ^ 15 % 2 ^ 7) := by
      rw [h1, Nat.shiftRight_eq_div_pow, Nat.shiftLeft_eq]
      omega
    have e2 : ((b >>> 14) &&& 1) <<< 21 % 2 ^ 32 = 2 ^ 21 * (b / 2 ^ 14 % 2) := by
      rw [Nat.and_one_is_mod, Nat.shiftRight_eq_div_pow, Nat.shiftLeft_eq]
      omega
    rw [← e1, ← e2, ← and_unchanged hb, ← hn]
    rfl
  rw [hor, Nat.two_pow_add_eq_or_of_lt (by omega), Nat.two_pow_add_eq_or_of_lt (by omega),
    Nat.two_pow_add_eq_or_of_lt (by omega)]
  ac_rfl

/-- The fields of a word's number, from the top: they determine the number. -/
theorem fields_inj (h t m l h' t' m' l' : Nat) (ht : t < 2) (hm : m < 2 ^ 7) (hl : l < 2 ^ 11)
    (ht' : t' < 2) (hm' : m' < 2 ^ 7) (hl' : l' < 2 ^ 11)
    (e : 2 ^ 19 * h + (2 ^ 18 * t + (2 ^ 11 * m + l)) = 2 ^ 19 * h' + (2 ^ 18 * t' + (2 ^ 11 * m' + l'))) :
    h = h' ∧ t = t' ∧ m = m' ∧ l = l' := by
  have e1 : h = h' := by omega
  have e2 : t = t' := by omega
  have e3 : m = m' := by omega
  exact ⟨e1, e2, e3, by omega⟩

/-- The translation keeps the three low bits in place and permutes the rest, so
it permutes 64-bit words. -/
theorem applyAddressTranslation_div_eight {o o' : UInt32}
    (h : (applyAddressTranslationOnMramOffset o).toNat / 8 =
      (applyAddressTranslationOnMramOffset o').toNat / 8) : o.toNat / 8 = o'.toNat / 8 := by
  rw [applyAddressTranslation_toNat, applyAddressTranslation_toNat] at h
  generalize o.toNat = b at h
  generalize o'.toNat = b' at h
  obtain ⟨e1, e2, e3, e4⟩ := fields_inj
    (b / 2 ^ 22) (b / 2 ^ 14 % 2) (b / 2 ^ 15 % 2 ^ 7) (b % 2 ^ 14 / 8)
    (b' / 2 ^ 22) (b' / 2 ^ 14 % 2) (b' / 2 ^ 15 % 2 ^ 7) (b' % 2 ^ 14 / 8)
    (by omega) (by omega) (by omega) (by omega) (by omega) (by omega) (by omega)
  omega

/-! ## Cache lines of distinct words -/

/-- The number of the 64-bit word the translation sends MRAM offset `o` to. -/
def mramWord (o : Nat) : Nat := (applyAddressTranslationOnMramOffset (UInt32.ofNat o)).toNat / 8

theorem mramWord_inj {o o' : Nat} (h8 : 8 ∣ o) (h8' : 8 ∣ o') (h : mramWord o = mramWord o') :
    o % 2 ^ 32 = o' % 2 ^ 32 := by
  have e := applyAddressTranslation_div_eight h
  simp only [UInt32.toNat_ofNat'] at e
  omega

theorem lineOffset_eq (i offset : Nat) : lineOffset i offset = lineOffset 0 (i * 8 + offset) := by
  simp [lineOffset]

/-- The transfer loops reach the line of word `i` of the range. -/
theorem bankStart_add_lineOffset (d i offset : Nat) :
    bankStart d + lineOffset i offset = wordAddress d (i * 8 + offset) := by
  rw [lineOffset_eq, wordAddress]

/-- A word's address counted in cache lines: two lines interleaved, 1024 words to
a chunk, four banks to a chunk's row. -/
theorem wordAddress_eq {d : Nat} (hd : d < 8) (o : Nat) :
    wordAddress d o = 64 * (d / 4 + 2 * (mramWord o % 1024) + 0x1000 * (d % 4) + 0x4000 * (mramWord o / 1024)) := by
  have hbank : bankStart d = 64 * (d / 4) + 0x40000 * (d % 4) := by
    unfold bankStart
    split <;> omega
  have hline : lineOffset 0 o = 128 * (mramWord o % 1024) + 0x100000 * (mramWord o / 1024) := by
    simp only [lineOffset, bankOffsetNextData, bankChunkSize, bankNextChunkOffset, mramWord,
      Nat.zero_mul, Nat.zero_add]
    omega
  rw [wordAddress, hbank, hline]
  omega

/-- The fields of a cache line's number, from the bottom: they determine it. -/
theorem line_fields_inj (p c q r p' c' q' r' : Nat) (hp : p < 2) (hc : c < 1024) (hq : q < 4)
    (hp' : p' < 2) (hc' : c' < 1024) (hq' : q' < 4)
    (e : p + 2 * c + 0x1000 * q + 0x4000 * r = p' + 2 * c' + 0x1000 * q' + 0x4000 * r') :
    p = p' ∧ c = c' ∧ q = q' ∧ r = r' := by
  have e1 : r = r' := by omega
  have e2 : q = q' := by omega
  exact ⟨by omega, by omega, e2, e1⟩

/-- The map from line and MRAM offset to cache-line address is injective. -/
theorem wordAddress_inj {d d' o o' : Nat} (hd : d < 8) (hd' : d' < 8) (h8 : 8 ∣ o) (h8' : 8 ∣ o')
    (h : wordAddress d o = wordAddress d' o') : d = d' ∧ o % 2 ^ 32 = o' % 2 ^ 32 := by
  rw [wordAddress_eq hd, wordAddress_eq hd'] at h
  obtain ⟨hside, hcol, hbank, hrow⟩ := line_fields_inj
    (d / 4) (mramWord o % 1024) (d % 4) (mramWord o / 1024)
    (d' / 4) (mramWord o' % 1024) (d' % 4) (mramWord o' / 1024)
    (by omega) (by omega) (by omega) (by omega) (by omega) (by omega) (Nat.eq_of_mul_eq_mul_left (by decide) h)
  refine ⟨by omega, mramWord_inj h8 h8' ?_⟩
  calc mramWord o = 1024 * (mramWord o / 1024) + mramWord o % 1024 := (Nat.div_add_mod _ _).symm
    _ = 1024 * (mramWord o' / 1024) + mramWord o' % 1024 := by rw [hrow, hcol]
    _ = mramWord o' := Nat.div_add_mod _ _

/-- Distinct words have disjoint cache lines. -/
theorem wordAddress_apart {d d' o o' : Nat} (hd : d < 8) (hd' : d' < 8) (h8 : 8 ∣ o) (h8' : 8 ∣ o')
    (hne : ¬(d = d' ∧ o % 2 ^ 32 = o' % 2 ^ 32)) :
    Lib.Mem.Apart (wordAddress d o) 64 (wordAddress d' o') 64 := by
  have h : wordAddress d o ≠ wordAddress d' o' := fun e => hne (wordAddress_inj hd hd' h8 h8' e)
  rw [wordAddress_eq hd, wordAddress_eq hd'] at h ⊢
  unfold Lib.Mem.Apart
  omega

/-- No word of MRAM lives in the second half of a 0x40000 bank, where the command
windows are. -/
theorem wordAddress_off_windows {d : Nat} (hd : d < 8) (o : Nat) :
    Lib.Mem.Apart (wordAddress d o) 64 writeCisWindow 64 ∧
      Lib.Mem.Apart (wordAddress d o) 64 readCisWindow 64 := by
  rw [wordAddress_eq hd]
  unfold Lib.Mem.Apart writeCisWindow readCisWindow
  omega

end DpuBackend.Xeon
