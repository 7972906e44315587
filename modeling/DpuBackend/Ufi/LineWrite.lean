import DpuBackend.Ufi.Memory
import DpuBackend.Xeon.RoundTrip

/-
  What a write of the Xeon backend does to the MRAMs behind the muxes.

  A cache line stored on a line of DPUs reaches the DPUs of that line whose mux
  is on the host side, and those only. The words of the DPUs the matrix does not
  name are whatever the thread's array held; they are written all the same where
  the mux lets them through.

  `copyToRank` runs the backend's threads on the matrix and then lets every cache
  line stored through the muxes. `copyToRank_named` and `copyToRank_other` say
  what becomes of each MRAM; `copyToRank_reached` says that what reaches an MRAM
  does not depend on what it held.
-/

namespace DpuBackend.Ufi

open DpuBackend.Lib DpuBackend.Xeon

@[ext] structure RankMemory where
  host : Mem UInt8
  region : Mem UInt8
  /-- The MRAM of each DPU, by interface and line. -/
  mram : Nat → Nat → Mem UInt8

/-- The threads of one transfer: how many take part and exist, what their stacks
hold, and the order they run in. -/
structure Backend where
  nbThreadsForXfer : Nat
  nbThreads : Nat
  zeros : Nat
  stack : Nat → Line
  order : List Nat

structure Backend.Valid (b : Backend) : Prop where
  threads : 1 ≤ b.nbThreadsForXfer
  pool : b.nbThreadsForXfer ≤ b.nbThreads
  order : b.order.Perm (List.range b.nbThreads)

def Backend.priv (b : Backend) (nrCis nrDpus : Nat) (m : DpuTransferMatrix) : XeonSpPrivate where
  xferMatrix := m
  direction := .write
  nbCis := nrCis
  nbDpusPerCi := nrDpus
  nbThreadsForXfer := b.nbThreadsForXfer
  nbThreads := b.nbThreads
  zeros := b.zeros

/-- The backend's run on the address region. -/
def Backend.run (b : Backend) (nrCis nrDpus : Nat) (m : DpuTransferMatrix) (mem : RankMemory) : XferState :=
  runThreads (b.priv nrCis nrDpus m) b.stack b.order (.start mem.host mem.region m.buffers.lists)

/-- Byte `o` of the word that line `d` of the region holds for interface `ci`. -/
def regionByte (region : Mem UInt8) (ci d o : Nat) : UInt8 :=
  (byteInterleaveAvx2 (region.load (wordAddress d (o / 8 * 8)) 64)).word ci ⟨o % 8, mod_eight_lt o⟩

/-- A write of the backend, and what passes the muxes. -/
def copyToRank (b : Backend) (nrCis nrDpus : Nat) (m : DpuTransferMatrix) (mux : Nat → Mask) (mem : RankMemory) :
    RankMemory :=
  let s := b.run nrCis nrDpus m mem
  { host := s.host
    region := s.region
    mram := fun ci d o =>
      if wordAddress d (o / 8 * 8) ∈ s.touched ∧ (mux ci).getLsbD d = true then regionByte s.region ci d o
      else mem.mram ci d o }

section

variable {b : Backend} {nrCis nrDpus : Nat} {m : DpuTransferMatrix} {mux : Nat → Mask} {mem : RankMemory}
  {ptr : Nat → Nat}

/-- The memory after a list of writes, the last one first; each has its own run of
the threads. -/
def memoryAfter (b : Nat → Backend) (nrCis nrDpus : Nat) : List XferCall → RankMemory → RankMemory
  | [], mem => mem
  | c :: calls, mem =>
    copyToRank (b calls.length) nrCis nrDpus c.matrix c.mux (memoryAfter b nrCis nrDpus calls mem)

/-- What the callers of a transfer give it: offset and size multiples of eight, a
range inside the MRAM. -/
structure ValidRange (m : DpuTransferMatrix) : Prop where
  offset8 : 8 ∣ m.offset
  size8 : 8 ∣ m.size
  range : m.offset + m.size ≤ 2 ^ 26

theorem Backend.Valid.priv (hb : b.Valid) (hcis : nrCis ≤ 8) (hdpus : nrDpus ≤ 8) (hm : ValidRange m) :
    (b.priv nrCis nrDpus m).Valid :=
  ⟨hcis, hdpus, hm.offset8, hm.size8, Nat.lt_of_le_of_lt (Nat.le_trans (Nat.le_add_left _ _) hm.range) (by decide),
    hb.threads⟩

/-- The line takes part in the transfer. -/
def LineNamed (nrCis : Nat) (m : DpuTransferMatrix) (d : Nat) : Prop :=
  ∃ ci < nrCis, m.buffers.named (d * 8 + ci) = true

theorem takesPart_iff {d : Nat} (hd : d < nrDpus) : (b.priv nrCis nrDpus m).takesPart d ↔ LineNamed nrCis m d := by
  simp only [XeonSpPrivate.takesPart, doDpuTransfer, Backend.priv, List.any_eq_true, List.mem_range, hd, true_and,
    LineNamed]

/-- Offset `o` lies in the range of the transfer. -/
def InRange (m : DpuTransferMatrix) (o : Nat) : Prop := m.offset ≤ o ∧ o < m.offset + m.size

instance (m : DpuTransferMatrix) (o : Nat) : Decidable (InRange m o) := inferInstanceAs (Decidable (_ ∧ _))

theorem wordLine_of_inRange (b : Backend) (nrCis nrDpus : Nat) (hm : ValidRange m) (d : Nat) {o : Nat} (ho : InRange m o) :
    (o - m.offset) / 8 < (b.priv nrCis nrDpus m).words
      ∧ wordAddress d (o / 8 * 8) = (b.priv nrCis nrDpus m).wordLine d ((o - m.offset) / 8) := by
  have h8 := hm.offset8
  have hs8 := hm.size8
  unfold InRange at ho
  have he : o / 8 * 8 = (o - m.offset) / 8 * 8 + m.offset := by omega
  refine ⟨?_, ?_⟩
  · show (o - m.offset) / 8 < m.size / 8
    omega
  · rw [he]
    rfl

variable (hbuf : m.buffers = .ptr ptr) (hv : b.Valid) (hcis : nrCis ≤ 8) (hdpus : nrDpus ≤ 8) (hm : ValidRange m)

include hbuf in
theorem run_frame : WriteFrame (b.priv nrCis nrDpus m) (.start mem.host mem.region m.buffers.lists) (b.run nrCis nrDpus m mem) :=
  runThreads_writeFrame hbuf rfl _ _ _

include hbuf hv hcis hdpus hm

/-- The cache lines stored are those of the range, on the lines named. -/
theorem stored_iff {d o : Nat} (hd : d < nrDpus) (ho : o < 2 ^ 26) :
    wordAddress d (o / 8 * 8) ∈ (b.run nrCis nrDpus m mem).touched ↔ LineNamed nrCis m d ∧ InRange m o := by
  have hpv := hv.priv hcis hdpus hm
  constructor
  · intro hmem
    obtain hold | ⟨d', i, hd', hi, he⟩ := (run_frame hbuf).touched _ hmem
    · simp at hold
    · have h8 := hm.offset8
      have hs8 := hm.size8
      have hr := hm.range
      have hi' : i < m.size / 8 := hi
      have hlt : d' < nrDpus := hd'.1
      obtain ⟨rfl, hmod⟩ := wordAddress_inj (show d < 8 by omega) (show d' < 8 by omega) (Nat.dvd_mul_left 8 _)
        (Nat.dvd_add (Nat.dvd_mul_left 8 i) hm.offset8) he
      refine ⟨(takesPart_iff hd).mp hd', ?_⟩
      have hmod' : o / 8 * 8 % 2 ^ 32 = (i * 8 + m.offset) % 2 ^ 32 := hmod
      unfold InRange
      omega
  · rintro ⟨hnamed, hrange⟩
    obtain ⟨hi, he⟩ := wordLine_of_inRange b nrCis nrDpus hm d hrange
    rw [he]
    exact (runThreads_written hbuf rfl hpv _ (fun t ht => mem_order hv.pool hv.order ht) _
      ((takesPart_iff hd).mpr hnamed) hi).stored

/-- What reaches an MRAM does not depend on the MRAMs. -/
theorem copyToRank_reached {ci d o : Nat} (hd : d < nrDpus) (ho : o < 2 ^ 26)
    (hnamed : LineNamed nrCis m d) (hrange : InRange m o) (hmux : (mux ci).getLsbD d = true) :
    (copyToRank b nrCis nrDpus m mux mem).mram ci d o = regionByte (b.run nrCis nrDpus m mem).region ci d o := by
  simp only [copyToRank]
  rw [if_pos ⟨(stored_iff hbuf hv hcis hdpus hm hd ho).mpr ⟨hnamed, hrange⟩, hmux⟩]

/-- A DPU with a buffer, its mux on the host side, holds the buffer. -/
theorem copyToRank_named {ci d o : Nat} (hci : ci < nrCis) (hd : d < nrDpus) (ho : o < 2 ^ 26)
    (hp : ptr (d * 8 + ci) ≠ 0) (hmux : (mux ci).getLsbD d = true) (hrange : InRange m o) :
    (copyToRank b nrCis nrDpus m mux mem).mram ci d o = mem.host (ptr (d * 8 + ci) + (o - m.offset)) := by
  have hpv := hv.priv hcis hdpus hm
  have hnamed : LineNamed nrCis m d := ⟨ci, hci, by simp [hbuf, XferBuffers.named, hp]⟩
  obtain ⟨hi, he⟩ := wordLine_of_inRange b nrCis nrDpus hm d hrange
  have hwritten := (runThreads_written hbuf rfl hpv b.stack (fun t ht => mem_order hv.pool hv.order ht)
    (.start mem.host mem.region m.buffers.lists) ((takesPart_iff hd).mpr hnamed) hi).words ci hci hp
  have hbyte := congrFun hwritten ⟨o % 8, Nat.mod_lt o (by decide)⟩
  rw [Mem.load_apply] at hbyte
  rw [copyToRank_reached hbuf hv hcis hdpus hm hd ho hnamed hrange hmux, regionByte, he]
  refine hbyte.trans (congrArg mem.host ?_)
  have h8 := hm.offset8
  unfold InRange at hrange
  simp only
  omega

/-- Any other MRAM, and any other byte, is left alone. -/
theorem copyToRank_other {ci d o : Nat} (hd : d < nrDpus) (ho : o < 2 ^ 26)
    (hother : ¬(LineNamed nrCis m d ∧ InRange m o ∧ (mux ci).getLsbD d = true)) :
    (copyToRank b nrCis nrDpus m mux mem).mram ci d o = mem.mram ci d o := by
  simp only [copyToRank]
  rw [if_neg]
  rw [stored_iff hbuf hv hcis hdpus hm hd ho]
  tauto

omit hv hcis hdpus hm in
theorem copyToRank_host : (copyToRank b nrCis nrDpus m mux mem).host = mem.host :=
  (run_frame hbuf).host

end

/-- The host's memory and the region do not depend on the MRAMs. -/
theorem memoryAfter_bus (b : Nat → Backend) (nrCis nrDpus : Nat) (calls : List XferCall) (mem mem' : RankMemory)
    (hhost : mem.host = mem'.host) (hregion : mem.region = mem'.region) :
    (memoryAfter b nrCis nrDpus calls mem).host = (memoryAfter b nrCis nrDpus calls mem').host
      ∧ (memoryAfter b nrCis nrDpus calls mem).region = (memoryAfter b nrCis nrDpus calls mem').region := by
  induction calls with
  | nil => exact ⟨hhost, hregion⟩
  | cons c calls ih => simp only [memoryAfter, copyToRank, Backend.run, ih.1, ih.2, and_self]

end DpuBackend.Ufi
