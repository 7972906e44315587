import DpuBackend.Lib.Loops
import DpuBackend.Xeon.Transfer

/-
  The flat transfers — what a write leaves in the region and what a read leaves
  in the host's buffers.

  `WriteFrame` and `ReadFrame` say what a transfer may change; every store keeps
  them, so every loop does. `runThreads_write` and `runThreads_read` say what
  the transfer achieves: after the threads have run, in any order, each named
  word has been moved. Distinct words have disjoint cache lines and disjoint
  places in the buffers, so no iteration undoes another's.
-/

namespace DpuBackend.Xeon

open DpuBackend.Lib DpuBackend.Lib.Mem

/-! ## Words of a line -/

theorem Line.word_setWord_same (l : Line) {ci : Nat} (h : ci < 8) (w : Word) : (l.setWord ci w).word ci = w := by
  funext b
  have hmod : (8 * ci + b.val) % 64 = 8 * ci + b.val := Nat.mod_eq_of_lt (by omega)
  have hdiv : (8 * ci + b.val) / 8 = ci := by omega
  simp only [word, setWord, Fin.val_ofNat, hmod, hdiv, if_true]
  congr 1
  apply Fin.ext
  simp only [Fin.val_ofNat]
  omega

theorem Line.word_setWord_other (l : Line) {ci ci' : Nat} (h : ci' < 8) (hne : ci' ≠ ci) (w : Word) :
    (l.setWord ci w).word ci' = l.word ci' := by
  funext b
  have hmod : (8 * ci' + b.val) % 64 = 8 * ci' + b.val := Nat.mod_eq_of_lt (by omega)
  have hdiv : (8 * ci' + b.val) / 8 = ci' := by omega
  simp only [word, setWord, Fin.val_ofNat, hmod, hdiv, if_neg hne]

/-- The gathered line holds the next word of every named buffer. -/
theorem gatherFlat_word {nbCis : Nat} (hcis : nbCis ≤ 8) (host : Mem UInt8) (ptr : Nat → Nat) (idx i : Nat)
    (cl : Line) {ci : Nat} (hci : ci < nbCis) (hp : ptr (idx + ci) ≠ 0) :
    (gatherFlat nbCis host ptr idx i cl).word ci = host.load (ptr (idx + ci) + 8 * i) 8 := by
  have hci8 : ci < 8 := Nat.lt_of_lt_of_le hci hcis
  refine foldl_reach (I := fun _ => True)
    (P := fun l => Line.word l ci = host.load (ptr (idx + ci) + 8 * i) 8) (List.mem_range.mpr hci)
    (fun _ _ _ _ => trivial) ?_ ?_ trivial
  · intro l _
    rw [if_pos hp, Line.word_setWord_same l hci8]
  · intro l cj _ _ h
    split
    · by_cases hne : ci = cj
      · subst hne
        exact Line.word_setWord_same l hci8 _
      · rw [Line.word_setWord_other l hci8 hne]
        exact h
    · exact h

/-! ## The words of a transfer -/

/-- The number of 64-bit words of the range. -/
def XeonSpPrivate.words (p : XeonSpPrivate) : Nat := p.xferMatrix.size / 8

/-- The cache line of word `i` of the range on line `d`. -/
def XeonSpPrivate.wordLine (p : XeonSpPrivate) (d i : Nat) : Nat :=
  wordAddress d (i * 8 + p.xferMatrix.offset)

/-- Line `d` of the rank takes part: the matrix names one of its DPUs. -/
def XeonSpPrivate.takesPart (p : XeonSpPrivate) (d : Nat) : Prop :=
  d < p.nbDpusPerCi ∧ doDpuTransfer p (d * 8) = true

/-- What the callers of the backend give it: at most eight control interfaces of
at most eight DPUs, and 32-bit offset and size that are multiples of eight. -/
structure XeonSpPrivate.Valid (p : XeonSpPrivate) : Prop where
  cis : p.nbCis ≤ 8
  dpus : p.nbDpusPerCi ≤ 8
  offset8 : 8 ∣ p.xferMatrix.offset
  size8 : 8 ∣ p.xferMatrix.size
  size32 : p.xferMatrix.size < 2 ^ 32
  threads : 1 ≤ p.nbThreadsForXfer

variable {p : XeonSpPrivate}

theorem wordLine_apart (hv : p.Valid) {d d' i i' : Nat} (hd : d < p.nbDpusPerCi) (hd' : d' < p.nbDpusPerCi)
    (hi : i < p.words) (hi' : i' < p.words) (hne : ¬(d = d' ∧ i = i')) :
    Apart (p.wordLine d i) 64 (p.wordLine d' i') 64 := by
  have h8 := hv.offset8
  have h32 := hv.size32
  have hdpus := hv.dpus
  unfold XeonSpPrivate.words at hi hi'
  apply wordAddress_apart (by omega) (by omega) (by omega) (by omega)
  rintro ⟨rfl, h⟩
  exact hne ⟨rfl, by omega⟩

theorem takesPart_of_named {d ci : Nat} (hd : d < p.nbDpusPerCi) (hci : ci < p.nbCis)
    (h : p.xferMatrix.buffers.named (d * 8 + ci) = true) : p.takesPart d := by
  refine ⟨hd, ?_⟩
  unfold doDpuTransfer
  rw [List.any_eq_true]
  exact ⟨ci, List.mem_range.mpr hci, h⟩

/-! ## The threads' ranges partition the lines -/

theorem threadRange_le {t : Nat} (ht : t < p.nbThreadsForXfer) :
    (threadRange p t).2 ≤ p.nbDpusPerCi := by
  simp only [threadRange]
  split
  · exact Nat.le_refl _
  · calc (t + 1) * (p.nbDpusPerCi / p.nbThreadsForXfer)
        ≤ p.nbThreadsForXfer * (p.nbDpusPerCi / p.nbThreadsForXfer) := Nat.mul_le_mul_right _ ht
      _ ≤ p.nbDpusPerCi := Nat.mul_div_le _ _

/-- Every line belongs to the range of one thread, and of one only. -/
theorem threadRange_partition (hpos : 1 ≤ p.nbThreadsForXfer) {d : Nat} (hd : d < p.nbDpusPerCi) :
    ∃! t, t < p.nbThreadsForXfer ∧ (threadRange p t).1 ≤ d ∧ d < (threadRange p t).2 := by
  generalize hT : p.nbThreadsForXfer = T at *
  have hdef : ∀ t, threadRange p t = (t * (p.nbDpusPerCi / T),
      if t = T - 1 then p.nbDpusPerCi else (t + 1) * (p.nbDpusPerCi / T)) := by
    intro t; simp only [threadRange, hT]
  generalize hP : p.nbDpusPerCi / T = per at *
  obtain rfl | hper := Nat.eq_zero_or_pos per
  · -- more threads than lines: the last one takes them all
    refine ⟨T - 1, ⟨by omega, by rw [hdef]; omega, by rw [hdef, if_pos rfl]; exact hd⟩, ?_⟩
    rintro t ⟨ht, -, hhi⟩
    by_contra hlast
    rw [hdef, if_neg hlast] at hhi
    omega
  have hdiv : d / per * per ≤ d := Nat.div_mul_le_self _ _
  have hlt : d < (d / per + 1) * per := by
    rw [Nat.mul_comm]
    exact Nat.lt_mul_div_succ d hper
  -- the thread is `d / per`, or the last one, which takes what is left over
  refine ⟨min (d / per) (T - 1), ⟨by omega, ?_, ?_⟩, ?_⟩
  · rw [hdef]
    exact Nat.le_trans (Nat.mul_le_mul_right _ (Nat.min_le_left _ _)) hdiv
  · rw [hdef]
    by_cases h : d / per < T - 1
    · rw [Nat.min_eq_left (by omega), if_neg (by omega)]
      exact hlt
    · rw [Nat.min_eq_right (by omega), if_pos rfl]
      exact hd
  · rintro t ⟨ht, hlo, hhi⟩
    rw [hdef] at hlo hhi
    have hle : t ≤ d / per := (Nat.le_div_iff_mul_le hper).mpr hlo
    by_cases hlast : t = T - 1
    · omega
    · rw [if_neg hlast] at hhi
      have : d / per < t + 1 := (Nat.div_lt_iff_lt_mul hper).mpr hhi
      omega

/-! ## Writing -/

/-- What a write may do to the memory it started from: store cache lines of the
range, on lines that take part. -/
structure WriteFrame (p : XeonSpPrivate) (s₀ s : XferState) : Prop where
  host : s.host = s₀.host
  hostStores : s.hostStores = s₀.hostStores
  region : ∀ x, (∀ d i, p.takesPart d → i < p.words → Outside (p.wordLine d i) 64 x) → s.region x = s₀.region x
  touched : ∀ a ∈ s.touched, a ∈ s₀.touched ∨ ∃ d i, p.takesPart d ∧ i < p.words ∧ a = p.wordLine d i

theorem WriteFrame.refl (s : XferState) : WriteFrame p s s :=
  ⟨rfl, rfl, fun _ _ => rfl, fun _ h => .inl h⟩

theorem WriteFrame.storeRegion {s₀ s : XferState} (h : WriteFrame p s₀ s) {d i : Nat} (hd : p.takesPart d)
    (hi : i < p.words) (l : Line) : WriteFrame p s₀ (s.storeRegion (p.wordLine d i) l) := by
  refine ⟨by rw [storeRegion_host, h.host], by rw [storeRegion_hostStores, h.hostStores], ?_, ?_⟩
  · intro x hx
    rw [storeRegion_region, store_outside _ _ _ (hx d i hd hi)]
    exact h.region x hx
  · intro a ha
    rw [storeRegion_touched] at ha
    rcases List.mem_cons.mp ha with rfl | ha
    · exact .inr ⟨d, i, hd, hi, rfl⟩
    · exact h.touched a ha

/-- Word `i` of the named buffers of line `d` is in the region, in a cache line that
was stored. -/
structure Written (p : XeonSpPrivate) (host : Mem UInt8) (ptr : Nat → Nat) (d i : Nat) (s : XferState) : Prop where
  words : ∀ ci < p.nbCis, ptr (d * 8 + ci) ≠ 0 →
    (byteInterleaveAvx2 (s.region.load (p.wordLine d i) 64)).word ci = host.load (ptr (d * 8 + ci) + 8 * i) 8
  stored : p.wordLine d i ∈ s.touched

theorem writeFlatWord_fst {ptr : Nat → Nat} {d i : Nat} (st : XferState × Line) :
    (writeFlatWord p.nbCis ptr (bankStart d) p.xferMatrix.offset (d * 8) st i).1 =
      st.1.storeRegion (p.wordLine d i)
        (byteInterleaveAvx512 (gatherFlat p.nbCis st.1.host ptr (d * 8) i st.2)) := by
  simp only [writeFlatWord, bankStart_add_lineOffset, XeonSpPrivate.wordLine]

theorem writeFlatWord_frame {ptr : Nat → Nat} {s₀ : XferState} {st : XferState × Line} (h : WriteFrame p s₀ st.1)
    {d i : Nat} (hd : p.takesPart d) (hi : i < p.words) :
    WriteFrame p s₀ (writeFlatWord p.nbCis ptr (bankStart d) p.xferMatrix.offset (d * 8) st i).1 := by
  rw [writeFlatWord_fst]
  exact h.storeRegion hd hi _

/-- One iteration puts its own word in place. -/
theorem writeFlatWord_written (hv : p.Valid) {ptr : Nat → Nat} {d i : Nat} (st : XferState × Line) :
    Written p st.1.host ptr d i
      (writeFlatWord p.nbCis ptr (bankStart d) p.xferMatrix.offset (d * 8) st i).1 := by
  rw [writeFlatWord_fst]
  refine ⟨fun ci hci hp => ?_, List.mem_cons_self ..⟩
  rw [storeRegion_region, load_store_same, byteInterleaveAvx2_avx512]
  exact gatherFlat_word hv.cis _ _ _ _ _ hci hp

/-- A cache line stored elsewhere leaves a written word in place. -/
theorem Written.storeRegion {host : Mem UInt8} {ptr : Nat → Nat} {d i d' i' : Nat} {s : XferState}
    (h : Written p host ptr d i s) (l : Line)
    (happ : Apart (p.wordLine d' i') 64 (p.wordLine d i) 64) :
    Written p host ptr d i (s.storeRegion (p.wordLine d' i') l) := by
  refine ⟨fun ci hci hp => ?_, List.mem_cons_of_mem _ h.stored⟩
  rw [storeRegion_region, load_store_apart _ _ _ _ happ]
  exact h.words ci hci hp

theorem writeDpuLine_flat {ptr : Nat → Nat} (hb : p.xferMatrix.buffers = .ptr ptr) (st : XferState × Line)
    {d : Nat} (hd : doDpuTransfer p (d * 8) = true) :
    writeDpuLine p st d = (List.range p.words).foldl
      (writeFlatWord p.nbCis ptr (bankStart d) p.xferMatrix.offset (d * 8)) st := by
  simp only [writeDpuLine, hd, if_true, hb]
  rfl

theorem writeDpuLine_not {d : Nat} (st : XferState × Line) (hd : doDpuTransfer p (d * 8) = false) :
    writeDpuLine p st d = st := by
  simp [writeDpuLine, hd]

section FlatWrite

variable {ptr : Nat → Nat} (hv : p.Valid) (hb : p.xferMatrix.buffers = .ptr ptr)

include hb in
/-- The body of the loop over lines keeps the frame. -/
theorem writeDpuLine_frame {s₀ : XferState} {st : XferState × Line} (h : WriteFrame p s₀ st.1) {d : Nat}
    (hd : d < p.nbDpusPerCi) : WriteFrame p s₀ (writeDpuLine p st d).1 := by
  cases hp : doDpuTransfer p (d * 8)
  · rw [writeDpuLine_not st hp]
    exact h
  · rw [writeDpuLine_flat hb st hp]
    exact List.foldlRecOn _ _ (motive := fun st : XferState × Line => WriteFrame p s₀ st.1) h
      fun _ hst _ hi => writeFlatWord_frame hst ⟨hd, hp⟩ (List.mem_range.mp hi)

include hv in
/-- The words in place stay in place, whichever word is stored. -/
theorem writeFlatWord_keeps {s₀ : XferState} {st : XferState × Line} (h : WriteFrame p s₀ st.1) {d i d' i' : Nat}
    (hd : p.takesPart d) (hi : i < p.words) (hd' : d' < p.nbDpusPerCi) (hi' : i' < p.words)
    (hw : Written p s₀.host ptr d i st.1) :
    Written p s₀.host ptr d i
      (writeFlatWord p.nbCis ptr (bankStart d') p.xferMatrix.offset (d' * 8) st i').1 := by
  by_cases he : d' = d ∧ i' = i
  · obtain ⟨rfl, rfl⟩ := he
    rw [← h.host]
    exact writeFlatWord_written hv st
  · rw [writeFlatWord_fst]
    exact hw.storeRegion _ (wordLine_apart hv hd' hd.1 hi' hi he)

include hv hb in
theorem writeDpuLine_keeps {s₀ : XferState} {st : XferState × Line} (h : WriteFrame p s₀ st.1) {d d' i : Nat}
    (hd : p.takesPart d) (hi : i < p.words) (hd' : d' < p.nbDpusPerCi)
    (hw : Written p s₀.host ptr d i st.1) : Written p s₀.host ptr d i (writeDpuLine p st d').1 := by
  cases hp : doDpuTransfer p (d' * 8)
  · rw [writeDpuLine_not st hp]
    exact hw
  · rw [writeDpuLine_flat hb st hp]
    refine (List.foldlRecOn _ _
      (motive := fun st : XferState × Line => WriteFrame p s₀ st.1 ∧ Written p s₀.host ptr d i st.1)
      ⟨h, hw⟩ ?_).2
    intro st hst j hj
    exact ⟨writeFlatWord_frame hst.1 ⟨hd', hp⟩ (List.mem_range.mp hj),
      writeFlatWord_keeps hv hst.1 hd hi hd' (List.mem_range.mp hj) hst.2⟩

include hv hb in
/-- The body of the loop over lines puts every word of its line in place. -/
theorem writeDpuLine_written {s₀ : XferState} {st : XferState × Line} (h : WriteFrame p s₀ st.1) {d i : Nat}
    (hd : p.takesPart d) (hi : i < p.words) : Written p s₀.host ptr d i (writeDpuLine p st d).1 := by
  rw [writeDpuLine_flat hb st hd.2]
  refine foldl_reach (I := fun st : XferState × Line => WriteFrame p s₀ st.1)
    (P := fun st => Written p s₀.host ptr d i st.1) (List.mem_range.mpr hi) ?_ ?_ ?_ h
  · intro st j hj hst
    exact writeFlatWord_frame hst hd (List.mem_range.mp hj)
  · intro st hst
    rw [← hst.host]
    exact writeFlatWord_written hv st
  · intro st j hj hst hw
    exact writeFlatWord_keeps hv hst hd hi hd.1 (List.mem_range.mp hj) hw

include hb in
theorem writeDpuLines_frame {s₀ : XferState} {st : XferState × Line} (h : WriteFrame p s₀ st.1)
    {lines : List Nat} (hl : ∀ d ∈ lines, d < p.nbDpusPerCi) :
    WriteFrame p s₀ (lines.foldl (writeDpuLine p) st).1 :=
  List.foldlRecOn lines _ (motive := fun st : XferState × Line => WriteFrame p s₀ st.1) h
    fun _ hst d hd => writeDpuLine_frame hb hst (hl d hd)

end FlatWrite

/-! ## The threads of a write -/

/-- The lines a thread's range names. -/
def threadLines (p : XeonSpPrivate) (t : Nat) : List Nat :=
  List.range' (threadRange p t).1 ((threadRange p t).2 - (threadRange p t).1)

theorem mem_threadLines {t d : Nat} : d ∈ threadLines p t ↔ (threadRange p t).1 ≤ d ∧ d < (threadRange p t).2 := by
  rw [threadLines, List.mem_range'_1]
  omega

theorem threadLines_lt {t d : Nat} (ht : t < p.nbThreadsForXfer) (h : d ∈ threadLines p t) :
    d < p.nbDpusPerCi :=
  Nat.lt_of_lt_of_le (mem_threadLines.mp h).2 (threadRange_le ht)

/-- Threads past the ones the transfer uses do nothing. -/
theorem threadDoMramXfer_idle {t : Nat} (ht : ¬t < p.nbThreadsForXfer) (cl : Line) (s : XferState) :
    threadDoMramXfer p cl t s = s := by
  simp only [threadDoMramXfer]
  rw [if_pos ht]

theorem threadDoMramXfer_write (hdir : p.direction = .write) {t : Nat} (ht : t < p.nbThreadsForXfer)
    (hsize : p.xferMatrix.size ≠ 0) (cl : Line) (s : XferState) :
    threadDoMramXfer p cl t s = ((threadLines p t).foldl (writeDpuLine p) (s, cl)).1 := by
  simp only [threadDoMramXfer, hdir]
  rw [if_neg (not_not.mpr ht)]
  simp only [threadsWriteToRank, if_neg hsize, threadLines]

/-- A transfer of no byte does nothing. -/
theorem threadDoMramXfer_empty (hsize : p.xferMatrix.size = 0) (cl : Line) (t : Nat) (s : XferState) :
    threadDoMramXfer p cl t s = s := by
  cases hdir : p.direction <;> simp [threadDoMramXfer, hdir, threadsWriteToRank, threadsReadFromRank, hsize]

section Write

variable {ptr : Nat → Nat} (hb : p.xferMatrix.buffers = .ptr ptr) (hdir : p.direction = .write)

include hb hdir in
theorem threadDoMramXfer_writeFrame {s₀ s : XferState} (h : WriteFrame p s₀ s) (cl : Line) (t : Nat) :
    WriteFrame p s₀ (threadDoMramXfer p cl t s) := by
  by_cases hsize : p.xferMatrix.size = 0
  · rw [threadDoMramXfer_empty hsize]
    exact h
  by_cases ht : t < p.nbThreadsForXfer
  · rw [threadDoMramXfer_write hdir ht hsize]
    exact writeDpuLines_frame hb h (fun _ => threadLines_lt ht)
  · rw [threadDoMramXfer_idle ht]
    exact h

include hb hdir in
/-- In any order of the threads, a write changes only what its frame allows. -/
theorem runThreads_writeFrame (stack : Nat → Line) (order : List Nat) (s₀ : XferState) :
    WriteFrame p s₀ (runThreads p stack order s₀) :=
  List.foldlRecOn order _ (motive := fun s => WriteFrame p s₀ s) (WriteFrame.refl s₀)
    fun _ hs t _ => threadDoMramXfer_writeFrame hb hdir hs (stack t) t

include hb hdir in
/-- In any order of the threads, a write puts every named word in place. -/
theorem runThreads_written (hv : p.Valid) (stack : Nat → Line) {order : List Nat}
    (horder : ∀ t < p.nbThreadsForXfer, t ∈ order) (s₀ : XferState) {d i : Nat} (hd : p.takesPart d)
    (hi : i < p.words) : Written p s₀.host ptr d i (runThreads p stack order s₀) := by
  have hsize : p.xferMatrix.size ≠ 0 := by
    intro h
    simp [XeonSpPrivate.words, h] at hi
  obtain ⟨t, ⟨ht, hrange⟩, -⟩ := threadRange_partition hv.threads hd.1
  refine foldl_reach (I := fun s => WriteFrame p s₀ s) (P := fun s : XferState => Written p s₀.host ptr d i s)
    (horder t ht) ?_ ?_ ?_ (WriteFrame.refl s₀)
  · intro s t _ hs
    exact threadDoMramXfer_writeFrame hb hdir hs (stack t) t
  · intro s hs
    rw [threadDoMramXfer_write hdir ht hsize]
    refine foldl_reach (I := fun st : XferState × Line => WriteFrame p s₀ st.1)
      (P := fun st => Written p s₀.host ptr d i st.1) (mem_threadLines.mpr hrange) ?_ ?_ ?_ hs
    · exact fun st d' hd' hst => writeDpuLine_frame hb hst (threadLines_lt ht hd')
    · exact fun st hst => writeDpuLine_written hv hb hst hd hi
    · exact fun st d' hd' hst hw => writeDpuLine_keeps hv hb hst hd hi (threadLines_lt ht hd') hw
  · -- another thread's lines leave the word in place
    intro s t' _ hs hw
    by_cases ht' : t' < p.nbThreadsForXfer
    · rw [threadDoMramXfer_write hdir ht' hsize]
      refine (List.foldlRecOn (threadLines p t') (writeDpuLine p)
        (motive := fun st : XferState × Line => WriteFrame p s₀ st.1 ∧ Written p s₀.host ptr d i st.1)
        ⟨hs, hw⟩ ?_).2
      intro st hst d' hd'
      exact ⟨writeDpuLine_frame hb hst.1 (threadLines_lt ht' hd'),
        writeDpuLine_keeps hv hb hst.1 hd hi (threadLines_lt ht' hd') hst.2⟩
    · rw [threadDoMramXfer_idle ht']
      exact hw

end Write

/-! ## Reading -/

/-- What a flat read may do: store words of the named buffers, and touch cache
lines of the range on lines that take part. -/
structure ReadFrame (p : XeonSpPrivate) (ptr : Nat → Nat) (s₀ s : XferState) : Prop where
  region : s.region = s₀.region
  host : ∀ x, (∀ d ci, d < p.nbDpusPerCi → ci < p.nbCis → ptr (d * 8 + ci) ≠ 0 →
    Outside (ptr (d * 8 + ci)) p.xferMatrix.size x) → s.host x = s₀.host x
  hostStores : ∀ b ∈ s.hostStores, b ∈ s₀.hostStores ∨ ∃ d ci i, d < p.nbDpusPerCi ∧ ci < p.nbCis ∧
    ptr (d * 8 + ci) ≠ 0 ∧ i < p.words ∧ b = (ptr (d * 8 + ci) + 8 * i, 8)
  touched : ∀ a ∈ s.touched, a ∈ s₀.touched ∨ ∃ d i, p.takesPart d ∧ i < p.words ∧ a = p.wordLine d i

/-- The named buffers do not overlap. -/
def BuffersApart (p : XeonSpPrivate) (ptr : Nat → Nat) : Prop :=
  ∀ d ci d' ci', d < p.nbDpusPerCi → ci < p.nbCis → d' < p.nbDpusPerCi → ci' < p.nbCis →
    ptr (d * 8 + ci) ≠ 0 → ptr (d' * 8 + ci') ≠ 0 → ¬(d = d' ∧ ci = ci') →
    Apart (ptr (d * 8 + ci)) p.xferMatrix.size (ptr (d' * 8 + ci')) p.xferMatrix.size

/-- Word `i` of the buffer of DPU `ci` of line `d` is what the region holds. -/
def Received (p : XeonSpPrivate) (ptr : Nat → Nat) (region : Mem UInt8) (d ci i : Nat) (host : Mem UInt8) : Prop :=
  host.load (ptr (d * 8 + ci) + 8 * i) 8 = (byteInterleaveAvx2 (region.load (p.wordLine d i) 64)).word ci

theorem ReadFrame.refl (ptr : Nat → Nat) (s : XferState) : ReadFrame p ptr s s :=
  ⟨rfl, fun _ _ => rfl, fun _ h => .inl h, fun _ h => .inl h⟩

section Read

variable {ptr : Nat → Nat} {s₀ s : XferState}

theorem ReadFrame.touch (h : ReadFrame p ptr s₀ s) {d i : Nat} (hd : p.takesPart d) (hi : i < p.words) :
    ReadFrame p ptr s₀ (s.touch (p.wordLine d i)) := by
  refine ⟨h.region, h.host, h.hostStores, ?_⟩
  intro a ha
  rw [touch_touched] at ha
  rcases List.mem_cons.mp ha with rfl | ha
  · exact .inr ⟨d, i, hd, hi, rfl⟩
  · exact h.touched a ha

theorem ReadFrame.storeHost (h : ReadFrame p ptr s₀ s) {d ci i : Nat} (hd : d < p.nbDpusPerCi)
    (hci : ci < p.nbCis) (hp : ptr (d * 8 + ci) ≠ 0) (hi : i < p.words) (w : Word) :
    ReadFrame p ptr s₀ (s.storeHost (ptr (d * 8 + ci) + 8 * i) w) := by
  refine ⟨by rw [storeHost_region, h.region], ?_, ?_, by rw [storeHost_touched]; exact h.touched⟩
  · intro x hx
    have hout : Outside (ptr (d * 8 + ci) + 8 * i) 8 x := by
      unfold XeonSpPrivate.words at hi
      rcases hx d ci hd hci hp with hlt | hge
      · exact .inl (by omega)
      · exact .inr (by omega)
    rw [storeHost_host, store_outside _ _ _ hout]
    exact h.host x hx
  · intro b hb
    rw [storeHost_hostStores] at hb
    rcases List.mem_cons.mp hb with rfl | hb
    · exact .inr ⟨d, ci, i, hd, hci, hp, hi, rfl⟩
    · exact h.hostStores b hb

/-- Distinct words of the buffers are apart. -/
theorem bufferWords_apart (hapart : BuffersApart p ptr) {d ci i d' ci' i' : Nat}
    (hd : d < p.nbDpusPerCi) (hci : ci < p.nbCis) (hi : i < p.words) (hp : ptr (d * 8 + ci) ≠ 0)
    (hd' : d' < p.nbDpusPerCi) (hci' : ci' < p.nbCis) (hi' : i' < p.words) (hp' : ptr (d' * 8 + ci') ≠ 0)
    (hne : ¬(d = d' ∧ ci = ci' ∧ i = i')) :
    Apart (ptr (d * 8 + ci) + 8 * i) 8 (ptr (d' * 8 + ci') + 8 * i') 8 := by
  unfold XeonSpPrivate.words at hi hi'
  by_cases h : d = d' ∧ ci = ci'
  · obtain ⟨rfl, rfl⟩ := h
    have hne' : i ≠ i' := fun e => hne ⟨rfl, rfl, e⟩
    unfold Apart
    omega
  · have hbuf := hapart d ci d' ci' hd hci hd' hci' hp hp' h
    unfold Apart at hbuf ⊢
    omega

/-- A word received stays received whichever word is stored next. -/
theorem Received.storeHost (hapart : BuffersApart p ptr) {region : Mem UInt8} {d ci i d' ci' i' : Nat}
    (hd : d < p.nbDpusPerCi) (hci : ci < p.nbCis) (hi : i < p.words) (hp : ptr (d * 8 + ci) ≠ 0)
    (hd' : d' < p.nbDpusPerCi) (hci' : ci' < p.nbCis) (hi' : i' < p.words) (hp' : ptr (d' * 8 + ci') ≠ 0)
    (hr : Received p ptr region d ci i s.host) :
    Received p ptr region d ci i (s.storeHost (ptr (d' * 8 + ci') + 8 * i')
      ((byteInterleaveAvx2 (region.load (p.wordLine d' i') 64)).word ci')).host := by
  rw [storeHost_host]
  unfold Received at hr ⊢
  by_cases he : d' = d ∧ ci' = ci ∧ i' = i
  · obtain ⟨rfl, rfl, rfl⟩ := he
    exact load_store_same _ _ _
  · rw [load_store_apart _ _ _ _ (bufferWords_apart hapart hd' hci' hi' hp' hd hci hi hp he)]
    exact hr

theorem readFlatWord_eq (d i : Nat) : readFlatWord p.nbCis ptr (bankStart d) p.xferMatrix.offset (d * 8) s i =
    (List.range p.nbCis).foldl (fun s' ci =>
      if ptr (d * 8 + ci) ≠ 0 then
        s'.storeHost (ptr (d * 8 + ci) + 8 * i) ((byteInterleaveAvx2 (s.region.load (p.wordLine d i) 64)).word ci)
      else s') (s.touch (p.wordLine d i)) := by
  simp only [readFlatWord, bankStart_add_lineOffset, XeonSpPrivate.wordLine, XferState.loadWords]

theorem readFlatWord_frame (h : ReadFrame p ptr s₀ s) {d i : Nat} (hd : p.takesPart d) (hi : i < p.words) :
    ReadFrame p ptr s₀ (readFlatWord p.nbCis ptr (bankStart d) p.xferMatrix.offset (d * 8) s i) := by
  rw [readFlatWord_eq]
  refine List.foldlRecOn _ _ (motive := fun s => ReadFrame p ptr s₀ s) (h.touch hd hi) ?_
  intro s' hs' ci hci
  split
  · exact hs'.storeHost hd.1 (List.mem_range.mp hci) (by assumption) hi _
  · exact hs'

/-- Reading a word keeps the words received. -/
theorem readFlatWord_keeps (hapart : BuffersApart p ptr) (h : ReadFrame p ptr s₀ s) {d ci i d' i' : Nat}
    (hd : d < p.nbDpusPerCi) (hci : ci < p.nbCis) (hi : i < p.words) (hp : ptr (d * 8 + ci) ≠ 0)
    (hd' : d' < p.nbDpusPerCi) (hi' : i' < p.words) (hr : Received p ptr s₀.region d ci i s.host) :
    Received p ptr s₀.region d ci i
      (readFlatWord p.nbCis ptr (bankStart d') p.xferMatrix.offset (d' * 8) s i').host := by
  rw [readFlatWord_eq, h.region]
  refine List.foldlRecOn _ _ (motive := fun s : XferState => Received p ptr s₀.region d ci i s.host) hr ?_
  intro s' hs' ci' hci'
  split
  · exact hs'.storeHost hapart hd hci hi hp hd' (List.mem_range.mp hci') hi' (by assumption)
  · exact hs'

/-- Reading a word receives it in every named buffer of the line. -/
theorem readFlatWord_received (hapart : BuffersApart p ptr) (h : ReadFrame p ptr s₀ s) {d ci i : Nat}
    (hd : d < p.nbDpusPerCi) (hci : ci < p.nbCis) (hi : i < p.words) (hp : ptr (d * 8 + ci) ≠ 0) :
    Received p ptr s₀.region d ci i
      (readFlatWord p.nbCis ptr (bankStart d) p.xferMatrix.offset (d * 8) s i).host := by
  rw [readFlatWord_eq, h.region]
  refine foldl_reach (I := fun _ => True) (P := fun s : XferState => Received p ptr s₀.region d ci i s.host)
    (List.mem_range.mpr hci) (fun _ _ _ _ => trivial) ?_ ?_ trivial
  · intro s' _
    rw [if_pos hp, storeHost_host]
    exact load_store_same _ _ _
  · intro s' ci' hci' _ hs'
    split
    · exact hs'.storeHost hapart hd hci hi hp hd (List.mem_range.mp hci') hi (by assumption)
    · exact hs'

theorem flushLines_frame (h : ReadFrame p ptr s₀ s) {d : Nat} (hd : p.takesPart d) :
    ReadFrame p ptr s₀ (flushLines (bankStart d) p.xferMatrix.offset p.xferMatrix.size s) := by
  refine List.foldlRecOn _ _ (motive := fun s => ReadFrame p ptr s₀ s) h ?_
  intro s' hs' i hi
  rw [bankStart_add_lineOffset]
  exact hs'.touch hd (List.mem_range.mp hi)

theorem flushLines_host (dest offset size : Nat) : (flushLines dest offset size s).host = s.host := by
  refine List.foldlRecOn _ _ (motive := fun s' : XferState => s'.host = s.host) rfl ?_
  intro s' hs' i _
  exact hs'

theorem readDpuLine_not {d : Nat} (hd : doDpuTransfer p (d * 8) = false) : readDpuLine p s d = s := by
  simp [readDpuLine, hd]

theorem readDpuLine_flat (hb : p.xferMatrix.buffers = .ptr ptr) {d : Nat} (hd : doDpuTransfer p (d * 8) = true) :
    readDpuLine p s d = flushLines (bankStart d) p.xferMatrix.offset p.xferMatrix.size
      ((List.range p.words).foldl (readFlatWord p.nbCis ptr (bankStart d) p.xferMatrix.offset (d * 8))
        (flushLines (bankStart d) p.xferMatrix.offset p.xferMatrix.size s)) := by
  simp only [readDpuLine, hd, if_true, hb, XeonSpPrivate.words]

theorem readDpuLine_frame (hb : p.xferMatrix.buffers = .ptr ptr) (h : ReadFrame p ptr s₀ s) {d : Nat}
    (hd : d < p.nbDpusPerCi) : ReadFrame p ptr s₀ (readDpuLine p s d) := by
  cases hp : doDpuTransfer p (d * 8)
  · rw [readDpuLine_not hp]
    exact h
  · rw [readDpuLine_flat hb hp]
    refine flushLines_frame ?_ ⟨hd, hp⟩
    exact List.foldlRecOn _ _ (motive := fun s => ReadFrame p ptr s₀ s) (flushLines_frame h ⟨hd, hp⟩)
      fun _ hs _ hi => readFlatWord_frame hs ⟨hd, hp⟩ (List.mem_range.mp hi)

theorem readDpuLine_keeps (hb : p.xferMatrix.buffers = .ptr ptr) (hapart : BuffersApart p ptr)
    (h : ReadFrame p ptr s₀ s) {d ci i d' : Nat} (hd : d < p.nbDpusPerCi) (hci : ci < p.nbCis) (hi : i < p.words)
    (hp : ptr (d * 8 + ci) ≠ 0) (hd' : d' < p.nbDpusPerCi) (hr : Received p ptr s₀.region d ci i s.host) :
    Received p ptr s₀.region d ci i (readDpuLine p s d').host := by
  cases hp' : doDpuTransfer p (d' * 8)
  · rw [readDpuLine_not hp']
    exact hr
  · rw [readDpuLine_flat hb hp', flushLines_host]
    refine (List.foldlRecOn _ _
      (motive := fun s => ReadFrame p ptr s₀ s ∧ Received p ptr s₀.region d ci i s.host)
      ⟨flushLines_frame h ⟨hd', hp'⟩, by rw [flushLines_host]; exact hr⟩ ?_).2
    intro s' hs' j hj
    exact ⟨readFlatWord_frame hs'.1 ⟨hd', hp'⟩ (List.mem_range.mp hj),
      readFlatWord_keeps hapart hs'.1 hd hci hi hp hd' (List.mem_range.mp hj) hs'.2⟩

/-- The body of the loop over lines receives every word of its line. -/
theorem readDpuLine_received (hb : p.xferMatrix.buffers = .ptr ptr) (hapart : BuffersApart p ptr)
    (h : ReadFrame p ptr s₀ s) {d ci i : Nat} (hd : p.takesPart d) (hci : ci < p.nbCis) (hi : i < p.words)
    (hp : ptr (d * 8 + ci) ≠ 0) : Received p ptr s₀.region d ci i (readDpuLine p s d).host := by
  rw [readDpuLine_flat hb hd.2, flushLines_host]
  refine foldl_reach (I := fun s => ReadFrame p ptr s₀ s) (P := fun s : XferState => Received p ptr s₀.region d ci i s.host)
    (List.mem_range.mpr hi) ?_ ?_ ?_ (flushLines_frame h hd)
  · exact fun s' j hj hs' => readFlatWord_frame hs' hd (List.mem_range.mp hj)
  · exact fun s' hs' => readFlatWord_received hapart hs' hd.1 hci hi hp
  · exact fun s' j hj hs' hr => readFlatWord_keeps hapart hs' hd.1 hci hi hp hd.1 (List.mem_range.mp hj) hr

theorem threadDoMramXfer_read (hdir : p.direction = .read) {t : Nat} (ht : t < p.nbThreadsForXfer)
    (hsize : p.xferMatrix.size ≠ 0) (cl : Line) :
    threadDoMramXfer p cl t s = (threadLines p t).foldl (readDpuLine p) s := by
  simp only [threadDoMramXfer, hdir]
  rw [if_neg (not_not.mpr ht)]
  simp only [threadsReadFromRank, if_neg hsize, threadLines]

theorem threadDoMramXfer_readFrame (hb : p.xferMatrix.buffers = .ptr ptr) (hdir : p.direction = .read)
    (h : ReadFrame p ptr s₀ s) (cl : Line) (t : Nat) : ReadFrame p ptr s₀ (threadDoMramXfer p cl t s) := by
  by_cases hsize : p.xferMatrix.size = 0
  · rw [threadDoMramXfer_empty hsize]
    exact h
  by_cases ht : t < p.nbThreadsForXfer
  · rw [threadDoMramXfer_read hdir ht hsize]
    exact List.foldlRecOn _ _ (motive := fun s => ReadFrame p ptr s₀ s) h
      fun _ hs _ hd => readDpuLine_frame hb hs (threadLines_lt ht hd)
  · rw [threadDoMramXfer_idle ht]
    exact h

/-- In any order of the threads, a read changes only what its frame allows. -/
theorem runThreads_readFrame (hb : p.xferMatrix.buffers = .ptr ptr) (hdir : p.direction = .read)
    (stack : Nat → Line) (order : List Nat) (s₀ : XferState) :
    ReadFrame p ptr s₀ (runThreads p stack order s₀) :=
  List.foldlRecOn order _ (motive := fun s => ReadFrame p ptr s₀ s) (ReadFrame.refl ptr s₀)
    fun _ hs t _ => threadDoMramXfer_readFrame hb hdir hs (stack t) t

/-- In any order of the threads, a read receives every named word. -/
theorem runThreads_received (hv : p.Valid) (hb : p.xferMatrix.buffers = .ptr ptr) (hdir : p.direction = .read)
    (hapart : BuffersApart p ptr) (stack : Nat → Line) {order : List Nat}
    (horder : ∀ t < p.nbThreadsForXfer, t ∈ order) (s₀ : XferState) {d ci i : Nat} (hd : d < p.nbDpusPerCi)
    (hci : ci < p.nbCis) (hi : i < p.words) (hp : ptr (d * 8 + ci) ≠ 0) :
    Received p ptr s₀.region d ci i (runThreads p stack order s₀).host := by
  have hsize : p.xferMatrix.size ≠ 0 := by
    intro h
    simp [XeonSpPrivate.words, h] at hi
  have htakes : p.takesPart d := takesPart_of_named hd hci (by simp [hb, XferBuffers.named, hp])
  obtain ⟨t, ⟨ht, hrange⟩, -⟩ := threadRange_partition hv.threads hd
  refine foldl_reach (I := fun s => ReadFrame p ptr s₀ s) (P := fun s : XferState => Received p ptr s₀.region d ci i s.host)
    (horder t ht) ?_ ?_ ?_ (ReadFrame.refl ptr s₀)
  · intro s t _ hs
    exact threadDoMramXfer_readFrame hb hdir hs (stack t) t
  · intro s hs
    rw [threadDoMramXfer_read hdir ht hsize]
    refine foldl_reach (I := fun s => ReadFrame p ptr s₀ s) (P := fun s : XferState => Received p ptr s₀.region d ci i s.host)
      (mem_threadLines.mpr hrange) ?_ ?_ ?_ hs
    · exact fun s' d' hd' hs' => readDpuLine_frame hb hs' (threadLines_lt ht hd')
    · exact fun s' hs' => readDpuLine_received hb hapart hs' htakes hci hi hp
    · exact fun s' d' hd' hs' hr => readDpuLine_keeps hb hapart hs' hd hci hi hp (threadLines_lt ht hd') hr
  · intro s t' _ hs hr
    by_cases ht' : t' < p.nbThreadsForXfer
    · rw [threadDoMramXfer_read hdir ht' hsize]
      refine (List.foldlRecOn (threadLines p t') (readDpuLine p)
        (motive := fun s => ReadFrame p ptr s₀ s ∧ Received p ptr s₀.region d ci i s.host) ⟨hs, hr⟩ ?_).2
      intro s' hs' d' hd'
      exact ⟨readDpuLine_frame hb hs'.1 (threadLines_lt ht' hd'),
        readDpuLine_keeps hb hapart hs'.1 hd hci hi hp (threadLines_lt ht' hd') hs'.2⟩
    · rw [threadDoMramXfer_idle ht']
      exact hr

end Read

end DpuBackend.Xeon
