import DpuBackend.Xeon.RoundTrip

/-
  The NIC's view of a rank (`pimnic/entities.cpp`).

  The NIC writes single bytes of MRAM to the address region of the rank. It computes their
  addresses on its own: the start of the word, the slice of the DPU, eight bytes for each byte
  of the word. The backend moves whole cache lines, whose bytes it interleaves. `getAddr_eq`
  says that the address is that of the byte in the interleaved line, `write_agrees` what
  follows for the transfers of the backend.

  `get_access` switches the mux of the line before the store. Its commands pass through the
  command windows of the region and nothing else of it: it is a parameter of the write.

  Correspondence (C++ ↔ Lean):
    `address_translation_on_mram` ↔ `addressTranslationOnMram`
    `DPU::get_word_start`         ↔ `Dpu.getWordStart`
    `DPU::get_addr`               ↔ `Dpu.getAddr`
    `DPU::get_access`             ↔ `GetAccess`
    `DPU::write`                  ↔ `Dpu.write`
-/

namespace DpuBackend.Pimnic

open DpuBackend.Lib DpuBackend.Lib.Mem DpuBackend.Xeon

/-- `address_translation_on_mram`. -/
def addressTranslationOnMram (byteOffset : UInt32) : UInt32 :=
  let mask21To15 : UInt32 := (((1 : UInt32) <<< (21 - 15 + 1)) - 1) <<< 15
  let mask21To14 : UInt32 := (((1 : UInt32) <<< (21 - 14 + 1)) - 1) <<< 14
  let bits21To15 := (byteOffset &&& mask21To15) >>> 15
  let bit14 := (byteOffset >>> 14) &&& 1
  let unchangedBits := byteOffset &&& ~~~mask21To14
  unchangedBits ||| (bits21To15 <<< 14) ||| (bit14 <<< 21)

/-- `DPU`; addresses count from `base_region_addr`. -/
structure Dpu where
  sliceId : Fin 8
  dpuId : Fin 8
deriving DecidableEq

/-- What `get_access` leaves in the region: it changes the command windows at most. -/
structure GetAccess where
  run : Mem UInt8 → Mem UInt8
  windows : ∀ m x, Outside writeCisWindow 64 x → Outside readCisWindow 64 x → run m x = m x

namespace Dpu

/-- The 64-bit sums do not wrap. -/
def getWordStart (d : Dpu) (offset : UInt32) : Nat :=
  let bankOffset := 0x40000 * (d.dpuId.val % 4) + (if d.dpuId.val ≥ 4 then 0x40 else 0)
  let transformedOffset := addressTranslationOnMram offset
  let wordOffset := transformedOffset.toNat / 8
  let trueWord := wordOffset * 16
  let trueByte := trueWord * 8
  let addr := trueByte % bankChunkSize + trueByte / bankChunkSize * bankNextChunkOffset
  addr + bankOffset

def getAddr (d : Dpu) (offset : UInt32) : Nat :=
  let sliceOffset := d.sliceId.val
  d.getWordStart offset + sliceOffset + offset.toNat % 8 * 8

/-- The status of `get_access` is not looked at; the cache line of the byte is flushed. -/
def write (d : Dpu) (getAccess : GetAccess) (offset : UInt32) (byte : UInt8) (s : XferState) : XferState :=
  let ptr := d.getAddr offset
  { s with
    region := Function.update (getAccess.run s.region) ptr byte
    touched := ptr / 64 * 64 :: s.touched }

end Dpu

/-! ## The address of a byte -/

theorem addressTranslationOnMram_eq : addressTranslationOnMram = applyAddressTranslationOnMramOffset := rfl

/-- The translation moves words. -/
theorem translation_word {o : Nat} (ho : o < 2 ^ 26) :
    (applyAddressTranslationOnMramOffset (UInt32.ofNat o)).toNat / 8 = mramWord (o / 8 * 8) := by
  have hword : o / 8 * 8 < 2 ^ 32 := by omega
  rw [mramWord, applyAddressTranslation_toNat, applyAddressTranslation_toNat, UInt32.toNat_ofNat',
    UInt32.toNat_ofNat', Nat.mod_eq_of_lt (by omega : o < 2 ^ 32), Nat.mod_eq_of_lt hword]
  omega

/-- The byte in the cache line of its word. -/
theorem getAddr_eq (d : Dpu) {o : Nat} (ho : o < 2 ^ 26) :
    d.getAddr (UInt32.ofNat o) = wordAddress d.dpuId (o / 8 * 8) + (8 * (o % 8) + d.sliceId) := by
  have hstart : d.getWordStart (UInt32.ofNat o) = wordAddress d.dpuId (o / 8 * 8) := by
    have hword := translation_word ho
    have hline : lineOffset 0 (o / 8 * 8) = mramWord (o / 8 * 8) * 8 * 16 % bankChunkSize +
        mramWord (o / 8 * 8) * 8 * 16 / bankChunkSize * bankNextChunkOffset := by
      simp only [lineOffset, bankOffsetNextData, mramWord, Nat.zero_mul, Nat.zero_add]
    rw [wordAddress, hline, Nat.add_comm]
    simp only [Dpu.getWordStart, addressTranslationOnMram_eq, hword, bankStart]
    rw [Nat.mul_right_comm (mramWord (o / 8 * 8)) 8 16]
  have hoffset : (UInt32.ofNat o).toNat = o := by
    rw [UInt32.toNat_ofNat', Nat.mod_eq_of_lt (by omega)]
  rw [Dpu.getAddr, hstart, hoffset]
  omega

/-- The byte at MRAM offset `o` of a DPU. -/
abbrev mramAddr (d : Dpu) (o : Nat) : Nat := d.getAddr (UInt32.ofNat o)

/-- The slice and the byte's place in its word determine the place in the cache line. -/
theorem line_place_inj {b s b' s' : Nat} (hs : s < 8) (hs' : s' < 8) (h : 8 * b + s = 8 * b' + s') :
    b = b' ∧ s = s' := by
  have hb : b = b' := by omega
  exact ⟨hb, by omega⟩

/-- Distinct bytes of MRAM have distinct addresses. -/
theorem mramAddr_inj {d d' : Dpu} {o o' : Nat} (ho : o < 2 ^ 26) (ho' : o' < 2 ^ 26)
    (h : mramAddr d o = mramAddr d' o') : d = d' ∧ o = o' := by
  rw [mramAddr, mramAddr, getAddr_eq d ho, getAddr_eq d' ho'] at h
  -- a cache line has 64 bytes, so equal bytes lie in the same line
  have hline : d.dpuId.val = d'.dpuId.val ∧ o / 8 * 8 = o' / 8 * 8 := by
    by_contra hne
    have happ := wordAddress_apart d.dpuId.isLt d'.dpuId.isLt (Nat.dvd_mul_left 8 (o / 8))
      (Nat.dvd_mul_left 8 (o' / 8)) (by omega)
    have hs := d.sliceId.isLt
    have hs' := d'.sliceId.isLt
    unfold Apart at happ
    omega
  obtain ⟨hdpu, hword⟩ := hline
  rw [hdpu, hword] at h
  obtain ⟨hbyte, hslice⟩ := line_place_inj d.sliceId.isLt d'.sliceId.isLt (Nat.add_left_cancel h)
  refine ⟨?_, by omega⟩
  cases d
  cases d'
  simp only [Dpu.mk.injEq]
  exact ⟨Fin.ext hslice, Fin.ext hdpu⟩

/-- No byte of MRAM is in a command window. -/
theorem mramAddr_off_windows (d : Dpu) {o : Nat} (ho : o < 2 ^ 26) :
    Outside writeCisWindow 64 (mramAddr d o) ∧ Outside readCisWindow 64 (mramAddr d o) := by
  obtain ⟨hw, hr⟩ := wordAddress_off_windows d.dpuId.isLt (o / 8 * 8)
  have hs := d.sliceId.isLt
  have hb : o % 8 < 8 := Nat.mod_lt _ (by decide)
  rw [mramAddr, getAddr_eq d ho]
  unfold Apart at hw hr
  unfold Outside
  omega

/-! ## The byte in the interleaved line -/

/-- Byte `b` of the word of slice `ci`, taken from the bus. -/
theorem interleaved_word (l : Line) {ci : Nat} (hci : ci < 8) (b : Fin 8) :
    (byteInterleaveAvx2 l).word ci b = l ⟨8 * b + ci, by omega⟩ := by
  rw [byteInterleaveAvx2_eq]
  simp only [Line.word, transposeIndex]
  congr 1
  apply Fin.ext
  simp only [Fin.val_ofNat]
  omega

/-- The place of a byte in its word. -/
def byteOf (o : Nat) : Fin 8 := ⟨o % 8, mod_eight_lt o⟩

/-- The byte at `mramAddr` is the one the transfers take for that DPU and offset. -/
theorem loaded_byte (region : Mem UInt8) (d : Dpu) {o : Nat} (ho : o < 2 ^ 26) :
    (byteInterleaveAvx2 (region.load (wordAddress d.dpuId (o / 8 * 8)) 64)).word d.sliceId (byteOf o) =
      region (mramAddr d o) := by
  rw [interleaved_word _ d.sliceId.isLt, load_apply, mramAddr, getAddr_eq d ho]
  rfl

/-! ## Transfers -/

/-- A flat transfer as the backend is given it, its threads in some order. -/
structure MramXfer (direction : ThreadMramXfer) where
  p : XeonSpPrivate
  ptr : Nat → Nat
  flat : p.xferMatrix.buffers = .ptr ptr
  directed : p.direction = direction
  valid : p.Valid
  inMram : p.xferMatrix.offset + p.xferMatrix.size ≤ 2 ^ 26
  /-- The buffers that are read into do not overlap. -/
  apart : direction = .read → BuffersApart p ptr
  stack : Nat → Line
  order : List Nat
  allThreads : ∀ t < p.nbThreadsForXfer, t ∈ order

namespace MramXfer

variable {direction : ThreadMramXfer} (x : MramXfer direction)

def run (s : XferState) : XferState := runThreads x.p x.stack x.order s

/-- The transfer moves the byte at offset `o` of the DPU. -/
structure Moves (d : Dpu) (o : Nat) : Prop where
  line : d.dpuId.val < x.p.nbDpusPerCi
  slice : d.sliceId.val < x.p.nbCis
  named : x.ptr (d.dpuId * 8 + d.sliceId) ≠ 0
  lower : x.p.xferMatrix.offset ≤ o
  upper : o < x.p.xferMatrix.offset + x.p.xferMatrix.size

/-- The byte's place in the DPU's buffer. -/
def hostPlace (d : Dpu) (o : Nat) : Nat :=
  x.ptr (d.dpuId * 8 + d.sliceId) + (o - x.p.xferMatrix.offset)

/-- The byte's word is one of the range. -/
theorem word_of_byte {d : Dpu} {o : Nat} (h : x.Moves d o) :
    ∃ i < x.p.words, i * 8 + x.p.xferMatrix.offset = o / 8 * 8 ∧
      x.hostPlace d o = x.ptr (d.dpuId * 8 + d.sliceId) + 8 * i + byteOf o := by
  have hoffset := x.valid.offset8
  have hsize := x.valid.size8
  have hlower := h.lower
  have hupper := h.upper
  refine ⟨(o - x.p.xferMatrix.offset) / 8, ?_, ?_, ?_⟩
  · unfold XeonSpPrivate.words
    omega
  · omega
  · simp only [hostPlace, byteOf]
    omega

/-- A write transfer puts the byte of the buffer at its address. -/
theorem write_byte (x : MramXfer .write) {d : Dpu} {o : Nat} (h : x.Moves d o) (s : XferState) :
    (x.run s).region (mramAddr d o) = s.host (x.hostPlace d o) := by
  obtain ⟨i, hi, hword, hplace⟩ := x.word_of_byte h
  have ho : o < 2 ^ 26 := Nat.lt_of_lt_of_le h.upper x.inMram
  have htakes : x.p.takesPart d.dpuId :=
    takesPart_of_named h.line h.slice (by simp [x.flat, XferBuffers.named, h.named])
  have hwritten := runThreads_written x.flat x.directed x.valid x.stack x.allThreads s htakes hi
  have hbyte := congrFun (hwritten.words d.sliceId h.slice h.named) (byteOf o)
  rw [XeonSpPrivate.wordLine, hword, loaded_byte _ d ho, load_apply] at hbyte
  rw [hplace]
  exact hbyte

/-- A read transfer takes the byte from its address. -/
theorem read_byte (x : MramXfer .read) {d : Dpu} {o : Nat} (h : x.Moves d o) (s : XferState) :
    (x.run s).host (x.hostPlace d o) = s.region (mramAddr d o) := by
  obtain ⟨i, hi, hword, hplace⟩ := x.word_of_byte h
  have ho : o < 2 ^ 26 := Nat.lt_of_lt_of_le h.upper x.inMram
  have hreceived := runThreads_received x.valid x.flat x.directed (x.apart rfl) x.stack x.allThreads s
    h.line h.slice hi h.named
  unfold Received at hreceived
  have hbyte := congrFun hreceived (byteOf o)
  rw [XeonSpPrivate.wordLine, hword, loaded_byte _ d ho, load_apply] at hbyte
  rw [hplace]
  exact hbyte

end MramXfer

/-! ## The write of the NIC -/

section Write

variable (getAccess : GetAccess) (d : Dpu) {o : Nat} (byte : UInt8) (s : XferState)

/-- Of the MRAM, only the byte written changes. -/
theorem write_mram (ho : o < 2 ^ 26) (d' : Dpu) {o' : Nat} (ho' : o' < 2 ^ 26) :
    (d.write getAccess (UInt32.ofNat o) byte s).region (mramAddr d' o') =
      if d' = d ∧ o' = o then byte else s.region (mramAddr d' o') := by
  by_cases h : d' = d ∧ o' = o
  · obtain ⟨rfl, rfl⟩ := h
    simp [Dpu.write]
  · have hne : mramAddr d' o' ≠ mramAddr d o := fun e => h (mramAddr_inj ho' ho e)
    obtain ⟨hw, hr⟩ := mramAddr_off_windows d' ho'
    rw [if_neg h]
    simp only [Dpu.write, Function.update_of_ne hne]
    exact getAccess.windows s.region _ hw hr

end Write

/-- The NIC's byte address is the backend's. -/
theorem write_agrees (getAccess : GetAccess) (d : Dpu) (o : Fin (2 ^ 26)) (byte : UInt8) (s : XferState) :
    -- the write stores the byte at its address and changes nothing else past the command windows
    (d.write getAccess (UInt32.ofNat o) byte s).region (mramAddr d o) = byte ∧
    (∀ a, a ≠ mramAddr d o → Outside writeCisWindow 64 a → Outside readCisWindow 64 a →
      (d.write getAccess (UInt32.ofNat o) byte s).region a = s.region a) ∧
    (Outside writeCisWindow 64 (mramAddr d o) ∧ Outside readCisWindow 64 (mramAddr d o)) ∧
    -- it is the byte a write transfer stores for the offset, and no other
    (∀ x : MramXfer .write, x.Moves d o → ∀ s', (x.run s').region (mramAddr d o) = s'.host (x.hostPlace d o)) ∧
    -- a read transfer sees the byte there, and everywhere else what it saw before
    (∀ (x : MramXfer .read) (d' : Dpu) (o' : Nat), x.Moves d' o' →
      (x.run (d.write getAccess (UInt32.ofNat o) byte s)).host (x.hostPlace d' o') =
        if d' = d ∧ o' = o then byte else (x.run s).host (x.hostPlace d' o')) ∧
    -- and so does a cache line loaded by either branch of the read
    (∀ (d' : Dpu) (o' : Fin (2 ^ 26)),
      ((d.write getAccess (UInt32.ofNat o) byte s).loadWords (wordAddress d'.dpuId (o' / 8 * 8))).word
          d'.sliceId (byteOf o') =
        if d' = d ∧ o' = o then byte
        else (s.loadWords (wordAddress d'.dpuId (o' / 8 * 8))).word d'.sliceId (byteOf o')) ∧
    -- distinct bytes have distinct addresses
    (∀ (d' : Dpu) (o' : Fin (2 ^ 26)), mramAddr d o = mramAddr d' o' → d = d' ∧ o = o') := by
  have hoffset := mramAddr_off_windows d o.isLt
  refine ⟨by simp [Dpu.write], ?_, hoffset, fun x h s' => x.write_byte h s', ?_, ?_, ?_⟩
  · intro a hne hw hr
    simp only [Dpu.write, Function.update_of_ne hne]
    exact getAccess.windows s.region a hw hr
  · intro x d' o' h
    have ho' : o' < 2 ^ 26 := Nat.lt_of_lt_of_le h.upper x.inMram
    rw [x.read_byte h, x.read_byte h, write_mram getAccess d byte s o.isLt d' ho']
  · intro d' o'
    rw [XferState.loadWords, XferState.loadWords, loaded_byte _ d' o'.isLt, loaded_byte _ d' o'.isLt,
      write_mram getAccess d byte s o.isLt d' o'.isLt]
    simp only [Fin.ext_iff]
  · intro d' o' h
    obtain ⟨hd, ho⟩ := mramAddr_inj o.isLt o'.isLt h
    exact ⟨hd, Fin.ext ho⟩

/-- Commands that leave all ones in the window they are written to. -/
def sampleAccess : GetAccess where
  run m x := if writeCisWindow ≤ x ∧ x < writeCisWindow + 64 then 255 else m x
  windows m x hw _ := by
    unfold Outside at hw
    exact if_neg (by omega)

/-- Sixteen bytes at offset 16 of two DPUs, in either direction. -/
def sampleMove (direction : ThreadMramXfer) : MramXfer direction where
  p := sampleXfer.inDirection direction
  ptr := samplePtr
  flat := rfl
  directed := rfl
  valid := XeonSpPrivate.Valid.inDirection ⟨by decide, by decide, by decide, by decide, by decide, by decide⟩ direction
  inMram := show 16 + 16 ≤ 2 ^ 26 by decide
  apart _ := sampleXfer_buffersApart
  stack _ _ := 255
  order := [3, 2, 1, 0]
  allThreads := show ∀ t < 3, t ∈ [3, 2, 1, 0] by decide

/-- The NIC's byte at offset 25 of DPU 1 of slice 1 comes back in the read transfer, at the place
from which the write transfer takes it. -/
theorem write_agrees_sample :
    ((sampleMove .read).run (Dpu.write ⟨1, 1⟩ sampleAccess 25 7 sampleState)).host (8192 + 9) = 7 ∧
      ((sampleMove .write).run sampleState).region (mramAddr ⟨1, 1⟩ 25) = sampleState.host (8192 + 9) := by
  have hmoves : ∀ direction, (sampleMove direction).Moves ⟨1, 1⟩ 25 := fun direction =>
    ⟨by change 1 < 8; decide, by change 1 < 8; decide, by change samplePtr 9 ≠ 0; decide, by change 16 ≤ 25; decide,
      by change 25 < 32; decide⟩
  obtain ⟨-, -, -, hwrite, hread, -, -⟩ := write_agrees sampleAccess ⟨1, 1⟩ 25 7 sampleState
  refine ⟨?_, hwrite (sampleMove .write) (hmoves .write) sampleState⟩
  refine (hread (sampleMove .read) ⟨1, 1⟩ 25 (hmoves .read)).trans ?_
  rw [if_pos ⟨rfl, rfl⟩]

end DpuBackend.Pimnic
