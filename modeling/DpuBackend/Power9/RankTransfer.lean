import Mathlib.Data.List.Basic
import DpuBackend.Lib.Loops
import DpuBackend.Lib.Mem
import Mathlib.Algebra.Order.Ring.Nat

/-
  Transfers of the Power9 backend between a matrix and a rank.

  Both functions take the size, the offset and the data of a DPU from
  `xfer_matrix[idx + ci_id]`, as if the one matrix they are given were an array
  of them. For index 0 that is the matrix, but its field `ptr` is the array of
  pointers and not a buffer: the pointers are what goes to the MRAM and comes
  back. For any other index it is memory behind the matrix.

  So no buffer is ever read or written (`readFromRank_buffers`), and a DPU with
  another index than 0 that is the first of its line ends the run in a fault
  (`lineTransfer_first`). `roundTrip_iff` draws the conclusion: the round trip
  holds where there is nothing to transfer and no field to look for.

  Model (Lean)                        Source (C, hw/src/mappings/power9/power9_translation.c)
  byteInterleave                      byte_interleave
  bankStart, lineAddress              BANK_START, BANK_OFFSET_NEXT_DATA
  lineTransfer, writeChunk, readChunk the loops of the two functions
  writeToRank, readFromRank           power9_write_to_rank, power9_read_from_rank

  A word of 64 bits is its bytes in memory order. The cache flushes are left
  out, the region being memory that keeps what is written.
-/

namespace DpuBackend.Power9

open DpuBackend.Lib

attribute [local instance] neZero_eight

/-! ## The host -/

/-- The bytes of a 64-bit word. -/
abbrev Word := Fin 8 → UInt8

inductive Fault where
  | outsideMatrix
deriving DecidableEq, Repr

/-- The number of words of a `struct dpu_transfer_matrix`: 64 pointers, offset
and size, type and padding. -/
def matrixWords : Nat := 66

/-- The matrix, word by word, and the buffers its pointers point to. -/
structure Host where
  matrix : Nat → Word
  buffers : Nat → Nat → UInt8

/-- The 32-bit number in four bytes. -/
def le32 (b₀ b₁ b₂ b₃ : UInt8) : UInt32 :=
  b₀.toUInt32 ||| b₁.toUInt32 <<< 8 ||| b₂.toUInt32 <<< 16 ||| b₃.toUInt32 <<< 24

namespace Host

variable (h : Host)

/-- `xfer_matrix->ptr[index]` is not null. -/
def named (index : Nat) : Prop := ¬ ∀ j : Fin 8, h.matrix index j = 0

instance (index : Nat) : Decidable (h.named index) := inferInstanceAs (Decidable (¬ ∀ _ : Fin 8, _))

/-- `*((uint64_t *)xfer_matrix[k].ptr + j)`: word `j` from the start of the
struct `k` places behind the matrix. -/
def word (k j : Nat) : Except Fault Word :=
  if matrixWords * k + j < matrixWords then .ok (h.matrix (matrixWords * k + j)) else .error .outsideMatrix

def setWord (k j : Nat) (w : Word) : Except Fault Host :=
  if matrixWords * k + j < matrixWords then
    .ok { h with matrix := Function.update h.matrix (matrixWords * k + j) w }
  else .error .outsideMatrix

/-- `xfer_matrix[k].offset` and `xfer_matrix[k].size`. -/
def fields (k : Nat) : Except Fault (UInt32 × UInt32) := do
  let w ← h.word k 64
  .ok (le32 (w 0) (w 1) (w 2) (w 3), le32 (w 4) (w 5) (w 6) (w 7))

end Host

/-- The matrix's own offset and size. -/
def Host.offset (h : Host) : UInt32 := le32 (h.matrix 64 0) (h.matrix 64 1) (h.matrix 64 2) (h.matrix 64 3)

def Host.size (h : Host) : UInt32 := le32 (h.matrix 64 4) (h.matrix 64 5) (h.matrix 64 6) (h.matrix 64 7)

/-! ## The rank -/

/-- Byte `j` of word `i` of the output is byte `i` of word `j` of the input. -/
def byteInterleave (input : Nat → Word) : Nat → Word := fun i j => input j (Fin.ofNat 8 i)

/-- Both halves of a cache line. -/
def interleaveLine (line : Nat → Word) : Nat → Word := fun k =>
  if k < 8 then byteInterleave line k else byteInterleave (fun k => line (8 + k)) (k - 8)

def bankStart (dpuId : Nat) : Nat := [0, 0x400, 0x200, 0x600, 0x100, 0x500, 0x300, 0x700].getD dpuId 0

/-- Where word `i` of a transfer from `offset` on is, behind the start of its bank. -/
def lineAddress (i offset : UInt32) : Nat :=
  let nextData := ((0x80 / 2) * (i + offset / 8)).toNat
  nextData % 0x80 + nextData / 0x80 * 0x800

/-- The first DPU of a line that is named. -/
def firstNamed (h : Host) (nbCis idx : Nat) : Option Nat := (List.range nbCis).find? fun ciId => h.named (idx + ciId)

/-- `size_transfer` and `offset` of a line. -/
def lineTransfer (h : Host) (nbCis idx : Nat) : Except Fault (UInt32 × UInt32) :=
  match firstNamed h nbCis idx with
  | none => .ok (0, 0)
  | some ciId => h.fields (idx + ciId)

/-- The first word of each chunk: 0, 2, 4, … below `size / 8`. -/
def chunks (size : UInt32) : List Nat := (List.range (((size / 8).toNat + 1) / 2)).map (2 * ·)

/-- The array `cache_line`, of which the words of DPUs that are not named stay
as they were. -/
def fillCacheLine (h : Host) (nbCis idx i : Nat) (cacheLine : Nat → Word) : Except Fault (Nat → Word) :=
  (List.range (nbCis * 2)).foldlM (fun line ciId =>
    if h.named (idx + ciId % nbCis) then do
      let w ← h.word (idx + ciId % nbCis) (i + ciId / nbCis)
      .ok (Function.update line ciId w)
    else .ok line) cacheLine

/-- `cache_line` and the region of the rank. -/
structure WriteState where
  cacheLine : Nat → Word
  region : Mem UInt8

def storeLine (region : Mem UInt8) (address : Nat) (line : Nat → Word) : Mem UInt8 :=
  region.store address fun b : Fin 128 => line (b / 8) (Fin.ofNat 8 b)

def loadLine (region : Mem UInt8) (address : Nat) : Nat → Word := fun k j => region (address + 8 * k + j)

def writeChunk (h : Host) (nbCis idx bank : Nat) (offset : UInt32) (s : WriteState) (i : Nat) :
    Except Fault WriteState := do
  let cacheLine ← fillCacheLine h nbCis idx i s.cacheLine
  .ok
    { cacheLine
      region := storeLine s.region (bank + lineAddress (.ofNat i) offset) (interleaveLine cacheLine) }

def writeLine (h : Host) (nbCis : Nat) (s : WriteState) (dpuId : Nat) : Except Fault WriteState := do
  let (offset, size) ← lineTransfer h nbCis (8 * dpuId)
  if size = 0 then .ok s
  else (chunks size).foldlM (writeChunk h nbCis (8 * dpuId) (bankStart dpuId) offset) s

/-- `stack` is what `cache_line` held before. -/
def writeToRank (h : Host) (nbCis nbDpusPerCi : Nat) (stack : Nat → Word) (region : Mem UInt8) :
    Except Fault (Mem UInt8) := do
  let s ← (List.range nbDpusPerCi).foldlM (writeLine h nbCis) { cacheLine := stack, region }
  .ok s.region

/-- The words of the named DPUs go where the matrix is taken to point. -/
def readChunk (region : Mem UInt8) (nbCis idx bank : Nat) (offset : UInt32) (h : Host) (i : Nat) :
    Except Fault Host :=
  let line := interleaveLine (loadLine region (bank + lineAddress (.ofNat i) offset))
  (List.range (2 * nbCis)).foldlM (fun h ciId =>
    if h.named (idx + ciId % nbCis) then h.setWord (idx + ciId % nbCis) (i + ciId / nbCis) (line ciId)
    else .ok h) h

def readLine (region : Mem UInt8) (nbCis : Nat) (h : Host) (dpuId : Nat) : Except Fault Host := do
  let (offset, size) ← lineTransfer h nbCis (8 * dpuId)
  if size = 0 then .ok h
  else (chunks size).foldlM (readChunk region nbCis (8 * dpuId) (bankStart dpuId) offset) h

def readFromRank (h : Host) (nbCis nbDpusPerCi : Nat) (region : Mem UInt8) : Except Fault Host :=
  (List.range nbDpusPerCi).foldlM (readLine region nbCis) h

/-! ## The memory of a rank -/

/-- Where word `w` of the DPUs of line `d` is: 64 bytes, 8 of each. -/
def wordAddress (d w : Nat) : Nat := bankStart d + (0x40 * w % 0x80 + 0x40 * w / 0x80 * 0x800)

theorem bankStart_bound {d : Nat} (hd : d < 8) : bankStart d % 0x100 = 0 ∧ bankStart d < 0x800 := by
  have hall : ∀ d < 8, bankStart d % 0x100 = 0 ∧ bankStart d < 0x800 := by decide
  exact hall d hd

theorem bankStart_inj {d d' : Nat} (hd : d < 8) (hd' : d' < 8) (h : bankStart d = bankStart d') : d = d' := by
  have hall : ∀ d < 8, ∀ d' < 8, bankStart d = bankStart d' → d = d' := by decide
  exact hall d hd d' hd' h

/-- No two words share a byte, of one line or of two. -/
theorem wordAddress_apart {d d' w w' : Nat} (hd : d < 8) (hd' : d' < 8) (hne : (d, w) ≠ (d', w')) :
    Mem.Apart (wordAddress d w) 64 (wordAddress d' w') 64 := by
  have hb := bankStart_bound hd
  have hb' := bankStart_bound hd'
  rw [Mem.Apart, wordAddress, wordAddress]
  by_cases hbank : bankStart d = bankStart d'
  · have hw : w ≠ w' := fun he => hne (Prod.ext (bankStart_inj hd hd' hbank) he)
    omega
  · omega

/-- What is stored of a cache line and loaded again is the cache line. -/
theorem loadLine_storeLine (region : Mem UInt8) (address : Nat) (line : Nat → Word) {k : Nat} (hk : k < 16) :
    loadLine (storeLine region address line) address k = line k := by
  funext j
  have hj := j.isLt
  have hinside :=
    Mem.store_inside region address (fun b : Fin 128 => line (b / 8) (Fin.ofNat 8 b)) ⟨8 * k + j, by omega⟩
  rw [loadLine, storeLine, Nat.add_assoc, hinside]
  have hword : (8 * k + j.val) / 8 = k := by omega
  have hbyte : Fin.ofNat 8 (8 * k + j.val) = j := Fin.ext (by rw [Fin.val_ofNat]; omega)
  dsimp only
  rw [hword, hbyte]

theorem byteInterleave_byteInterleave (input : Nat → Word) {i : Nat} (hi : i < 8) :
    byteInterleave (byteInterleave input) i = input i := by
  funext j
  have hbyte : (Fin.ofNat 8 i).val = i := Nat.mod_eq_of_lt hi
  simp only [byteInterleave, hbyte]
  congr 1
  exact Fin.ext (Nat.mod_eq_of_lt j.isLt)

theorem interleaveLine_interleaveLine (line : Nat → Word) {k : Nat} (hk : k < 16) :
    interleaveLine (interleaveLine line) k = line k := by
  by_cases hlow : k < 8
  · have hhalf : ∀ i : Fin 8, interleaveLine line i = byteInterleave line i := fun i => if_pos i.isLt
    rw [interleaveLine, if_pos hlow, ← byteInterleave_byteInterleave line hlow]
    funext j
    simp only [byteInterleave, hhalf]
  · have hhalf : ∀ i : Fin 8, interleaveLine line (8 + i) = byteInterleave (fun k => line (8 + k)) i := by
      intro i
      rw [interleaveLine, if_neg (by omega), Nat.add_sub_cancel_left]
    have hback := byteInterleave_byteInterleave (fun k => line (8 + k)) (show k - 8 < 8 by omega)
    rw [interleaveLine, if_neg hlow]
    calc byteInterleave (fun k => interleaveLine line (8 + k)) (k - 8)
        = byteInterleave (byteInterleave fun k => line (8 + k)) (k - 8) := by
          funext j
          simp only [byteInterleave, hhalf]
      _ = line (8 + (k - 8)) := hback
      _ = line k := by rw [Nat.add_sub_cancel' (by omega)]

theorem interleaveLine_congr {line line' : Nat → Word} (h : ∀ k < 16, line k = line' k) (k : Nat) :
    interleaveLine line k = interleaveLine line' k := by
  have hlow : ∀ j : Fin 8, line j = line' j := fun j => h j (by omega)
  have hhigh : ∀ j : Fin 8, line (8 + j) = line' (8 + j) := fun j => h (8 + j) (by omega)
  funext j
  by_cases hk : k < 8
  · simp only [interleaveLine, if_pos hk, byteInterleave, hlow]
  · simp only [interleaveLine, if_neg hk, byteInterleave, hhigh]

/-- On its own the way to a chunk of the MRAM and back loses nothing. -/
theorem chunk_roundTrip (region : Mem UInt8) (address : Nat) (line : Nat → Word) {k : Nat} (hk : k < 16) :
    interleaveLine (loadLine (storeLine region address (interleaveLine line)) address) k = line k := by
  calc interleaveLine (loadLine (storeLine region address (interleaveLine line)) address) k
      = interleaveLine (interleaveLine line) k :=
        interleaveLine_congr (fun _ hk => loadLine_storeLine region address _ hk) k
    _ = line k := interleaveLine_interleaveLine line hk

/-! ## What the functions leave alone -/

theorem setWord_buffers {h h' : Host} {k j : Nat} {w : Word} (hset : h.setWord k j w = .ok h') :
    h'.buffers = h.buffers := by
  rw [Host.setWord] at hset
  split at hset
  · rw [← Except.ok.inj hset]
  · cases hset

theorem readChunk_buffers {region : Mem UInt8} {nbCis idx bank : Nat} {offset : UInt32} {h h' : Host} {i : Nat}
    (hrun : readChunk region nbCis idx bank offset h i = .ok h') : h'.buffers = h.buffers := by
  refine foldlM_inv (P := fun t => t.buffers = h.buffers) ?_ rfl hrun
  intro t ciId _ t' ht hstep
  split at hstep
  · exact (setWord_buffers hstep).trans ht
  · rw [← Except.ok.inj hstep, ht]

theorem readLine_buffers {region : Mem UInt8} {nbCis : Nat} {h h' : Host} {dpuId : Nat}
    (hrun : readLine region nbCis h dpuId = .ok h') : h'.buffers = h.buffers := by
  rw [readLine] at hrun
  cases hline : lineTransfer h nbCis (8 * dpuId) with
  | error e =>
    rw [hline] at hrun
    cases hrun
  | ok transfer =>
    obtain ⟨offset, size⟩ := transfer
    rw [hline] at hrun
    dsimp only [bind, Except.bind] at hrun
    split at hrun
    · rw [← Except.ok.inj hrun]
    · refine foldlM_inv (P := fun t => t.buffers = h.buffers) ?_ rfl hrun
      intro t i _ t' ht hstep
      exact (readChunk_buffers hstep).trans ht

/-- No buffer is written by a read: what comes from the MRAM goes in the matrix. -/
theorem readFromRank_buffers {h h' : Host} {nbCis nbDpusPerCi : Nat} {region : Mem UInt8}
    (hrun : readFromRank h nbCis nbDpusPerCi region = .ok h') : h'.buffers = h.buffers := by
  refine foldlM_inv (P := fun t => t.buffers = h.buffers) ?_ rfl hrun
  intro t d _ t' ht hstep
  exact (readLine_buffers hstep).trans ht

/-! ## Which lines are looked up -/

/-- Only the fields of index 0 are in the matrix. -/
theorem fields_ok {h : Host} {k : Nat} {r : UInt32 × UInt32} (hfields : h.fields k = .ok r) : k = 0 := by
  rw [Host.fields, Host.word] at hfields
  by_cases hin : matrixWords * k + 64 < matrixWords
  · rw [matrixWords] at hin
    omega
  · rw [if_neg hin] at hfields
    cases hfields

theorem fields_zero (h : Host) : h.fields 0 = .ok (h.offset, h.size) := rfl

theorem firstNamed_of_named {h : Host} {nbCis idx ciId : Nat} (hci : ciId < nbCis) (hnamed : h.named (idx + ciId)) :
    ∃ first, firstNamed h nbCis idx = some first := by
  have hsome : ((List.range nbCis).find? fun ciId => h.named (idx + ciId)).isSome := by
    rw [List.find?_isSome]
    exact ⟨ciId, List.mem_range.mpr hci, decide_eq_true hnamed⟩
  exact Option.isSome_iff_exists.mp hsome

theorem firstNamed_some {h : Host} {nbCis idx first : Nat} (hfirst : firstNamed h nbCis idx = some first) :
    first < nbCis ∧ h.named (idx + first) := by
  rw [firstNamed] at hfirst
  have hnamed := List.find?_some hfirst
  exact ⟨List.mem_range.mp (List.mem_of_find?_eq_some hfirst), of_decide_eq_true hnamed⟩

/-- A line that is looked up without a fault has no DPU that is named, or is
the first line, with its first DPU. -/
theorem lineTransfer_first {h : Host} {nbCis idx ciId : Nat} {r : UInt32 × UInt32}
    (hline : lineTransfer h nbCis idx = .ok r) (hci : ciId < nbCis) (hnamed : h.named (idx + ciId)) :
    idx = 0 ∧ h.named 0 := by
  obtain ⟨first, hfirst⟩ := firstNamed_of_named hci hnamed
  rw [lineTransfer, hfirst] at hline
  have hzero := fields_ok hline
  have hnamed₀ := (firstNamed_some hfirst).2
  rw [hzero] at hnamed₀
  exact ⟨by omega, hnamed₀⟩

/-- A write that ends has looked up every line. -/
theorem lineTransfer_of_write {h : Host} {nbCis nbDpusPerCi : Nat} {stack : Nat → Word} {region region' : Mem UInt8}
    (hrun : writeToRank h nbCis nbDpusPerCi stack region = .ok region') {d : Nat} (hd : d < nbDpusPerCi) :
    ∃ r, lineTransfer h nbCis (8 * d) = .ok r := by
  rw [writeToRank] at hrun
  cases hloop : (List.range nbDpusPerCi).foldlM (writeLine h nbCis) { cacheLine := stack, region } with
  | error e =>
    rw [hloop] at hrun
    cases hrun
  | ok s =>
    obtain ⟨t, t', _, hstep⟩ := foldlM_each (P := fun _ => True) (fun _ _ _ _ _ _ => trivial) trivial hloop
      (List.mem_range.mpr hd)
    rw [writeLine] at hstep
    cases hline : lineTransfer h nbCis (8 * d) with
    | error e =>
      rw [hline] at hstep
      cases hstep
    | ok r => exact ⟨r, rfl⟩

/-! ## The round trip -/

/-- Byte `x` of the region is of a word in the range of a named DPU's line. -/
def InRange (h : Host) (x : Nat) : Prop :=
  ∃ d < 8, (∃ ciId < 8, h.named (8 * d + ciId)) ∧
    ∃ w, h.offset.toNat / 8 ≤ w ∧ w < (h.offset.toNat + h.size.toNat) / 8 ∧
      wordAddress d w ≤ x ∧ x < wordAddress d w + 64

/-- A write, and a read with whatever the buffers hold by then: no access is
outside the matrix, the write changes only the range, and the read gives each
named DPU's buffer the first `size` bytes it had and changes no other byte. -/
def RoundTrips (h : Host) : Prop :=
  ∀ (stack : Nat → Word) (region : Mem UInt8) (buffers : Nat → Nat → UInt8), ∃ region' h',
    writeToRank h 8 8 stack region = .ok region' ∧
    (∀ x, ¬ InRange h x → region' x = region x) ∧
    readFromRank { h with buffers } 8 8 region' = .ok h' ∧
    (∀ index < 64, ∀ b, h'.buffers index b =
      if h.named index ∧ b < h.size.toNat then h.buffers index b else buffers index b)

/-- A matrix for a rank of 8 control interfaces with 8 DPUs: offset and size
are multiples of 8, inside the MRAM. -/
structure Transfer where
  host : Host
  offset_dvd : 8 ∣ host.offset.toNat
  size_dvd : 8 ∣ host.size.toNat
  inside : host.offset.toNat + host.size.toNat ≤ 2 ^ 26

/-- No DPU is named; or none but of the first line, the first of it among them,
and the size is 0. -/
def NothingToDo (h : Host) : Prop := ∀ index < 64, h.named index → h.size = 0 ∧ index < 8 ∧ h.named 0

theorem NothingToDo.lineTransfer {h : Host} (hnothing : NothingToDo h) {d : Nat} (hd : d < 8) :
    ∃ offset, lineTransfer h 8 (8 * d) = .ok (offset, 0) := by
  cases hfirst : firstNamed h 8 (8 * d) with
  | none => exact ⟨0, by rw [Power9.lineTransfer, hfirst]⟩
  | some first =>
    obtain ⟨hlt, hnamed⟩ := firstNamed_some hfirst
    obtain ⟨hsize, hline, hzero⟩ := hnothing (8 * d + first) (by omega) hnamed
    have hd0 : d = 0 := by omega
    subst hd0
    have hfirst0 : firstNamed h 8 (8 * 0) = some 0 := by
      rw [firstNamed, show List.range 8 = 0 :: [1, 2, 3, 4, 5, 6, 7] from rfl, List.find?_cons_of_pos]
      exact decide_eq_true hzero
    refine ⟨h.offset, ?_⟩
    rw [Power9.lineTransfer, hfirst0]
    exact (fields_zero h).trans (by rw [hsize])

theorem NothingToDo.write {h : Host} (hnothing : NothingToDo h) (stack : Nat → Word) (region : Mem UInt8) :
    writeToRank h 8 8 stack region = .ok region := by
  have hloop : (List.range 8).foldlM (writeLine h 8) { cacheLine := stack, region } =
      .ok { cacheLine := stack, region } := by
    apply foldlM_same
    intro d hd
    obtain ⟨offset, hline⟩ := hnothing.lineTransfer (List.mem_range.mp hd)
    rw [writeLine, hline]
    rfl
  rw [writeToRank, hloop]
  rfl

theorem NothingToDo.read {h : Host} (hnothing : NothingToDo h) (region : Mem UInt8) :
    readFromRank h 8 8 region = .ok h := by
  apply foldlM_same
  intro d hd
  obtain ⟨offset, hline⟩ := hnothing.lineTransfer (List.mem_range.mp hd)
  rw [readLine, hline]
  rfl

/-- What a buffer holds when the read begins is what it holds at the end, so
there may be no byte to bring back. -/
theorem RoundTrips.size_zero {h : Host} (htrip : RoundTrips h) {index : Nat} (hindex : index < 64)
    (hnamed : h.named index) : h.size = 0 := by
  -- the buffers are changed between the write and the read
  obtain ⟨region', h', _, _, hread, hbuffers⟩ :=
    htrip (fun _ _ => 0) (fun _ => 0) (fun index b => h.buffers index b + 1)
  by_contra hne
  have hpos : 0 < h.size.toNat := Nat.pos_of_ne_zero fun h0 => hne (UInt32.toNat_inj.mp h0)
  have hback := hbuffers index hindex 0
  rw [if_pos ⟨hnamed, hpos⟩, readFromRank_buffers hread] at hback
  have hsucc := congrArg UInt8.toNat hback
  rw [UInt8.toNat_add] at hsucc
  have hlt := (h.buffers index 0).toNat_lt
  simp at hsucc
  omega

/-- The round trip holds if and only if there is nothing to do. -/
theorem roundTrip_iff (t : Transfer) : RoundTrips t.host ↔ NothingToDo t.host := by
  constructor
  · intro htrip index hindex hnamed
    have hsize := htrip.size_zero hindex hnamed
    obtain ⟨region', h', hwrite, _⟩ := htrip (fun _ _ => 0) (fun _ => 0) t.host.buffers
    obtain ⟨r, hline⟩ := lineTransfer_of_write hwrite (show index / 8 < 8 by omega)
    have hsplit : 8 * (index / 8) + index % 8 = index := Nat.div_add_mod index 8
    rw [← hsplit] at hnamed
    obtain ⟨hidx, hzero⟩ := lineTransfer_first hline (Nat.mod_lt index (by decide)) hnamed
    exact ⟨hsize, by omega, hzero⟩
  · intro hnothing stack region buffers
    have hread : NothingToDo { t.host with buffers } := hnothing
    refine ⟨region, { t.host with buffers }, hnothing.write stack region, fun _ _ => rfl, hread.read region, ?_⟩
    intro index hindex b
    by_cases hin : t.host.named index ∧ b < t.host.size.toNat
    · have hsize := (hnothing index hindex hin.1).1
      rw [hsize] at hin
      exact absurd hin.2 (Nat.not_lt_zero b)
    · rw [if_neg hin]

/-- 16 bytes from the start of the MRAM of the first DPU alone. -/
def firstDpu : Transfer where
  host :=
    { matrix := fun k =>
        if k = 0 then fun _ => 1 else if k = 64 then fun j => if j = 4 then 16 else 0 else fun _ => 0
      buffers := fun _ _ => 0 }
  offset_dvd := by decide
  size_dvd := by decide
  inside := by decide

/-- They do not come back. -/
theorem firstDpu_lost : firstDpu.host.size = 16 ∧ ¬ RoundTrips firstDpu.host := by
  have hsize : firstDpu.host.size = 16 := by decide
  refine ⟨hsize, ?_⟩
  intro htrip
  have hzero := htrip.size_zero (show 0 < 64 by decide) (show firstDpu.host.named 0 by decide)
  rw [hsize] at hzero
  exact absurd hzero (by decide)

end DpuBackend.Power9
