import DpuBackend.Xeon.FlatTransfer

/-
  Write, then read: the flat transfers of the Xeon SP backend give back what was
  written, change no other word, share no line between threads and stay off the
  command windows.

  The pool holds more threads than a transfer uses; `order` is any order in
  which all of them run. Between the write and the read the host's memory may
  have changed at will: only the region carries the words.
-/

namespace DpuBackend.Xeon

open DpuBackend.Lib DpuBackend.Lib.Mem

/-- The cache line at `a` is apart from both command windows. -/
def OffWindows (a : Nat) : Prop := Apart a 64 writeCisWindow 64 ∧ Apart a 64 readCisWindow 64

/-- The same transfer in a given direction. -/
def XeonSpPrivate.inDirection (p : XeonSpPrivate) (dir : ThreadMramXfer) : XeonSpPrivate :=
  { p with direction := dir }

variable {p : XeonSpPrivate} {ptr : Nat → Nat}

theorem XeonSpPrivate.Valid.inDirection (hv : p.Valid) (dir : ThreadMramXfer) : (p.inDirection dir).Valid :=
  ⟨hv.cis, hv.dpus, hv.offset8, hv.size8, hv.size32, hv.threads⟩

theorem mem_order {order : List Nat} (hle : p.nbThreadsForXfer ≤ p.nbThreads)
    (h : order.Perm (List.range p.nbThreads)) {t : Nat} (ht : t < p.nbThreadsForXfer) : t ∈ order :=
  h.mem_iff.mpr (List.mem_range.mpr (Nat.lt_of_lt_of_le ht hle))

/-- The cache lines a transfer touches hold MRAM words, so none is a command window. -/
theorem wordLine_offWindows (hv : p.Valid) {d : Nat} (hd : p.takesPart d) (i : Nat) : OffWindows (p.wordLine d i) :=
  wordAddress_off_windows (Nat.lt_of_lt_of_le hd.1 hv.dpus) _

/-- The cache line of a word outside the range, or of a line the matrix names no
DPU of, is apart from every line of the transfer. -/
theorem wordLine_apart_other (hv : p.Valid) (hrange : p.xferMatrix.offset + p.xferMatrix.size ≤ 2 ^ 26)
    {d d' i o : Nat} (hd : p.takesPart d) (hi : i < p.words) (hd' : d' < 8) (ho : o < 2 ^ 26) (h8 : 8 ∣ o)
    (hother : ¬p.takesPart d' ∨ o < p.xferMatrix.offset ∨ p.xferMatrix.offset + p.xferMatrix.size ≤ o) :
    Apart (p.wordLine d i) 64 (wordAddress d' o) 64 := by
  have hd8 := Nat.lt_of_lt_of_le hd.1 hv.dpus
  have hoff := hv.offset8
  unfold XeonSpPrivate.words at hi
  apply wordAddress_apart hd8 hd' (by omega) h8
  rintro ⟨rfl, he⟩
  rcases hother with hno | hout
  · exact hno hd
  · omega

/-- A word outside the range or on another line keeps its eight bytes of every DPU. -/
theorem WriteFrame.load_other {s₀ s : XferState} (h : WriteFrame p s₀ s) (hv : p.Valid)
    (hrange : p.xferMatrix.offset + p.xferMatrix.size ≤ 2 ^ 26) {d o : Nat} (hd : d < 8) (ho : o < 2 ^ 26)
    (h8 : 8 ∣ o)
    (hother : ¬p.takesPart d ∨ o < p.xferMatrix.offset ∨ p.xferMatrix.offset + p.xferMatrix.size ≤ o) :
    s.region.load (wordAddress d o) 64 = s₀.region.load (wordAddress d o) 64 := by
  funext k
  apply h.region
  intro d' i hd' hi
  rcases wordLine_apart_other hv hrange hd' hi hd ho h8 hother with hlo | hhi
  · exact .inr (by omega)
  · exact .inl (by omega)

theorem WriteFrame.offWindows {s₀ s : XferState} (h : WriteFrame p s₀ s) (hv : p.Valid) {a : Nat}
    (ha : a ∈ s.touched) : a ∈ s₀.touched ∨ OffWindows a := by
  rcases h.touched a ha with hold | ⟨d, i, hd, -, rfl⟩
  · exact .inl hold
  · exact .inr (wordLine_offWindows hv hd i)

theorem ReadFrame.offWindows {s₀ s : XferState} (h : ReadFrame p ptr s₀ s) (hv : p.Valid) {a : Nat}
    (ha : a ∈ s.touched) : a ∈ s₀.touched ∨ OffWindows a := by
  rcases h.touched a ha with hold | ⟨d, i, hd, -, rfl⟩
  · exact .inl hold
  · exact .inr (wordLine_offWindows hv hd i)

/-- Bytes of a buffer, from its words. -/
theorem byte_of_words {host host' : Mem UInt8} {a size : Nat} (h8 : 8 ∣ size)
    (h : ∀ i < size / 8, host'.load (a + 8 * i) 8 = host.load (a + 8 * i) 8) {k : Nat} (hk : k < size) :
    host' (a + k) = host (a + k) := by
  have hword := congrFun (h (k / 8) (by omega)) ⟨k % 8, Nat.mod_lt k (by decide)⟩
  simp only [load_apply] at hword
  rw [Nat.add_assoc, Nat.div_add_mod] at hword
  exact hword

/-- A write and then a read of the same range, by all threads in any order. -/
theorem write_then_read (p : XeonSpPrivate) (ptr : Nat → Nat) (hb : p.xferMatrix.buffers = .ptr ptr)
    (hv : p.Valid) (hrange : p.xferMatrix.offset + p.xferMatrix.size ≤ 2 ^ 26) (hapart : BuffersApart p ptr)
    (hpool : p.nbThreadsForXfer ≤ p.nbThreads) (stack stack' : Nat → Line) (order order' : List Nat)
    (horder : order.Perm (List.range p.nbThreads)) (horder' : order'.Perm (List.range p.nbThreads))
    (s s₁ s₂ s' : XferState) (hs₁ : s₁ = runThreads (p.inDirection .write) stack order s)
    (hregion : s₂.region = s₁.region) (hs' : s' = runThreads (p.inDirection .read) stack' order' s₂) :
    -- every named buffer holds again the bytes that were written
    (∀ d ci, d < p.nbDpusPerCi → ci < p.nbCis → ptr (d * 8 + ci) ≠ 0 → ∀ k < p.xferMatrix.size,
      s'.host (ptr (d * 8 + ci) + k) = s.host (ptr (d * 8 + ci) + k)) ∧
    -- the read stores to the named buffers only, the write to none, and the read leaves the MRAM alone
    (∀ x, (∀ d ci, d < p.nbDpusPerCi → ci < p.nbCis → ptr (d * 8 + ci) ≠ 0 →
      Outside (ptr (d * 8 + ci)) p.xferMatrix.size x) → s'.host x = s₂.host x) ∧
    s₁.host = s.host ∧ s'.region = s₂.region ∧
    -- distinct words of MRAM have distinct cache lines
    (∀ d o d' o', d < 8 → d' < 8 → o < 2 ^ 26 → o' < 2 ^ 26 → 8 ∣ o → 8 ∣ o' →
      wordAddress d o = wordAddress d' o' → d = d' ∧ o = o') ∧
    -- so no word of another line, or of an offset outside the range, changes
    (∀ d o, d < 8 → o < 2 ^ 26 → 8 ∣ o →
      (¬p.takesPart d ∨ o < p.xferMatrix.offset ∨ p.xferMatrix.offset + p.xferMatrix.size ≤ o) →
      s₁.region.load (wordAddress d o) 64 = s.region.load (wordAddress d o) 64) ∧
    -- the threads' ranges partition the lines
    (∀ d < p.nbDpusPerCi, ∃! t, t < p.nbThreadsForXfer ∧ (threadRange p t).1 ≤ d ∧ d < (threadRange p t).2) ∧
    (∀ t < p.nbThreadsForXfer, (threadRange p t).2 ≤ p.nbDpusPerCi) ∧
    -- no access touches a command window
    (∀ a ∈ s₁.touched, a ∈ s.touched ∨ OffWindows a) ∧ (∀ a ∈ s'.touched, a ∈ s₂.touched ∨ OffWindows a) := by
  subst hs₁ hs'
  have hvw := hv.inDirection .write
  have hvr := hv.inDirection .read
  have hbw : (p.inDirection .write).xferMatrix.buffers = .ptr ptr := hb
  have hbr : (p.inDirection .read).xferMatrix.buffers = .ptr ptr := hb
  have hframe : WriteFrame (p.inDirection .write) s (runThreads (p.inDirection .write) stack order s) :=
    runThreads_writeFrame hbw rfl stack order s
  have hframe' : ReadFrame (p.inDirection .read) ptr s₂ (runThreads (p.inDirection .read) stack' order' s₂) :=
    runThreads_readFrame hbr rfl stack' order' s₂
  refine ⟨?_, hframe'.host, hframe.host, hframe'.region, ?_, ?_, ?_, ?_, ?_, ?_⟩
  · intro d ci hd hci hp k hk
    refine byte_of_words hv.size8 (fun i hi => ?_) hk
    have htakes : p.takesPart d := takesPart_of_named hd hci (by simp [hb, XferBuffers.named, hp])
    have hsent := runThreads_written hbw rfl hvw stack
      (fun t ht => mem_order hpool horder ht) s htakes hi
    have hreceived := runThreads_received hvr hbr rfl hapart stack'
      (fun t ht => mem_order hpool horder' ht) s₂ hd hci hi hp
    unfold Received at hreceived
    rw [hreceived, hregion]
    exact hsent.words ci hci hp
  · intro d o d' o' hd hd' ho ho' h8 h8' h
    obtain ⟨hde, hoe⟩ := wordAddress_inj hd hd' h8 h8' h
    exact ⟨hde, by omega⟩
  · intro d o hd ho h8 hother
    exact hframe.load_other hvw hrange hd ho h8 hother
  · exact fun d hd => threadRange_partition hv.threads hd
  · exact fun t ht => threadRange_le ht
  · exact fun a ha => hframe.offWindows hvw ha
  · exact fun a ha => hframe'.offWindows hvr ha

def samplePtr (k : Nat) : Nat := if k = 0 then 4096 else if k = 9 then 8192 else 0

/-- Sixteen bytes at MRAM offset 16 of DPU 0 of line 0 and DPU 1 of line 1, three
threads of a pool of four. -/
def sampleXfer : XeonSpPrivate where
  xferMatrix :=
    { buffers := .ptr samplePtr
      offset := 16
      size := 16 }
  direction := .write
  nbCis := 8
  nbDpusPerCi := 8
  nbThreadsForXfer := 3
  nbThreads := 4
  zeros := 0

def sampleState : XferState := .start (fun x => x.toUInt8) (fun _ => 0) fun _ => default

theorem samplePtr_cases {k : Nat} (h : samplePtr k ≠ 0) :
    k = 0 ∧ samplePtr k = 4096 ∨ k = 9 ∧ samplePtr k = 8192 := by
  unfold samplePtr at h ⊢
  split at h <;> simp_all

theorem sampleXfer_buffersApart : BuffersApart sampleXfer samplePtr := by
  intro d ci d' ci' _ hci _ hci' hp hp' hne
  simp only [sampleXfer] at hci hci' ⊢
  unfold Apart
  have h := samplePtr_cases hp
  have h' := samplePtr_cases hp'
  omega

/-- The word at 8192 + 8 comes back, whatever the stacks held, the threads running
last to first and then first to last. -/
theorem write_then_read_sample :
    (runThreads (sampleXfer.inDirection .read) (fun _ _ => 1) [0, 1, 2, 3]
      (runThreads (sampleXfer.inDirection .write) (fun _ _ => 255) [3, 2, 1, 0] sampleState)).host (8192 + 9) = 9 :=
  (write_then_read sampleXfer _ rfl ⟨by decide, by decide, by decide, by decide, by decide, by decide⟩ (by decide)
    sampleXfer_buffersApart (by decide) (fun _ _ => 255) (fun _ _ => 1) [3, 2, 1, 0] [0, 1, 2, 3] (by decide)
    (by decide) sampleState _ _ _ rfl rfl rfl).1 1 1 (by decide) (by decide) (by decide) 9 (by decide)

end DpuBackend.Xeon
