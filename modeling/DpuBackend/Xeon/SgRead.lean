import DpuBackend.Xeon.SgWrite

/-
  Scatter/gather reads against flat ones.

  `SgWordStored` says what serving one word of one DPU stores: the word's bytes
  at their addresses in the blocks, and, where the blocks end inside the word,
  the rest of it in the padding block. A fact every such store keeps is
  `Stable`; the loops keep stable facts and establish what their words establish.
  A list may have its padding entry before it is set up: for a read that makes no
  difference (`atRead_init`).
-/

namespace DpuBackend.Xeon

open DpuBackend.Lib DpuBackend.Lib.Mem

/-- Byte `q` of the range of DPU `ci` of line `d`, as the region holds it. -/
def mramByte (p : XeonSpPrivate) (region : Mem UInt8) (d ci q : Nat) : UInt8 :=
  (byteInterleaveAvx2 (region.load (p.wordLine d (q / 8)) 64)).word ci ⟨q % 8, mod_eight_lt q⟩

/-- The named DPUs' blocks: no byte belongs to two of them, or twice to one, and
none lies in the padding block. -/
structure BlocksApart (p : XeonSpPrivate) (sgPtr : Nat → Option SgXferBuffer) : Prop where
  inj : ∀ {d ci q d' ci' q' a : Nat} {b b' : SgXferBuffer}, d < p.nbDpusPerCi → ci < p.nbCis → d' < p.nbDpusPerCi → ci' < p.nbCis →
    sgPtr (d * 8 + ci) = some b → sgPtr (d' * 8 + ci') = some b' →
    b.addresses[q]? = some a → b'.addresses[q']? = some a → d = d' ∧ ci = ci' ∧ q = q'
  zeros : ∀ {d ci q a : Nat} {b : SgXferBuffer}, d < p.nbDpusPerCi → ci < p.nbCis → sgPtr (d * 8 + ci) = some b →
    b.addresses[q]? = some a → Outside p.zeros 4096 a

/-- What serving word `i` of DPU `ci` of line `d`, with blocks `b`, does. -/
structure SgWordStored (p : XeonSpPrivate) (b : SgXferBuffer) (mram : Mem UInt8) (d ci i : Nat) (s s' : XferState) :
    Prop where
  region : s'.region = s.region
  host_at : ∀ k < 8, ∀ a, b.addresses[8 * i + k]? = some a → s'.host a = mramByte p mram d ci (8 * i + k)
  host_off : ∀ x, (∀ k < 8, b.addresses[8 * i + k]? ≠ some x) → Outside p.zeros 4096 x → s'.host x = s.host x
  stored : ∀ x, Covered s'.hostStores x → Covered s.hostStores x ∨ (∃ k < 8, b.addresses[8 * i + k]? = some x) ∨
    8 * i < b.total ∧ b.total < 8 * i + 8 ∧ ¬Outside p.zeros 4096 x
  stored_mono : ∀ x, Covered s.hostStores x → Covered s'.hostStores x
  unstored : ∀ x, ¬Covered s'.hostStores x → s'.host x = s.host x
  spill : 8 * i < b.total → b.total < 8 * i + 8 → Covered s'.hostStores p.zeros

variable {p : XeonSpPrivate} {sgPtr : Nat → Option SgXferBuffer} {b : SgXferBuffer}

/-- The address of the `k`th byte from byte `q` on: in the blocks, or past their end in the padding block. -/
theorem At.byteAddr_cases {zeros q : Nat} {it : SgXferBufferIterator} (h : At zeros b q it) (hb : b.Valid)
    (hq : q < b.total) {k : Nat} (hk : k < 8) (h32 : q + 8 < 2 ^ 32) :
    b.addresses[q + k]? = some (byteAddr it k) ∨
      b.total ≤ q + k ∧ b.addresses[q + k]? = none ∧ byteAddr it k = zeros + (q + k - b.total) := by
  have hk' := h.advance hb k (by omega)
  rcases Nat.lt_or_ge (q + k) b.total with hlt | hge
  · exact .inl (InBlock.getElem (hk'.inBlock hlt))
  · have hne : b.nrBlocks ≠ 0 := by have := (h.inBlock hq).1; omega
    refine .inr ⟨hge, List.getElem?_eq_none hge, ?_⟩
    rw [byteAddr, hk'.byte_padding hne hge, Nat.mod_eq_of_lt (by omega)]

/-- The eight addresses of a word are distinct. -/
theorem At.byteAddr_ne {it : SgXferBufferIterator} (hapart : BlocksApart p sgPtr) {d ci q : Nat}
    (h : At p.zeros b q it) (hb : b.Valid) (hd : d < p.nbDpusPerCi) (hci : ci < p.nbCis)
    (hbk : sgPtr (d * 8 + ci) = some b) (hq : q < b.total) (h32 : q + 8 < 2 ^ 32) :
    ∀ k < 8, ∀ k' < k, byteAddr it k' ≠ byteAddr it k := by
  intro k hk k' hk' he
  rcases h.byteAddr_cases hb hq (Nat.lt_trans hk' hk) h32 with ha' | ⟨hge', -, ha'⟩ <;>
    rcases h.byteAddr_cases hb hq hk h32 with ha | ⟨hge, -, ha⟩
  · rw [he] at ha'
    have := (hapart.inj hd hci hd hci hbk hbk ha' ha).2.2
    omega
  · have hout := hapart.zeros hd hci hbk ha'
    unfold Outside at hout
    omega
  · have := lt_total_of_getElem ha
    omega
  · omega

theorem StoresBytes.sgWordStored {it : SgXferBufferIterator} {s s' : XferState} {d ci i : Nat}
    (hst : StoresBytes (byteAddr it) ((s.loadWords (p.wordLine d i)).word ci) 8 s s')
    (h : At p.zeros b (8 * i) it) (hb : b.Valid) (hq : 8 * i < b.total) (h32 : 8 * i + 8 < 2 ^ 32) :
    SgWordStored p b s.region d ci i s s' where
  region := hst.region
  host_at k hk a ha := by
    rcases h.byteAddr_cases hb hq hk h32 with he | ⟨-, hnone, -⟩
    · have haddr : a = byteAddr it k := by rw [ha] at he; exact Option.some.inj he
      have hdiv : (8 * i + k) / 8 = i := by omega
      have hmod : (8 * i + k) % 8 = k := by omega
      rw [haddr, hst.host_at ⟨k, hk⟩ hk]
      simp only [mramByte, XferState.loadWords, hdiv, hmod]
    · rw [hnone] at ha
      cases ha
  host_off x hx hz := by
    apply hst.host_off
    intro k hk he
    rcases h.byteAddr_cases hb hq hk h32 with ha | ⟨hge, -, ha⟩
    · exact hx k hk (he ▸ ha)
    · unfold Outside at hz
      omega
  stored x hx := by
    rcases (hst.stored x).mp hx with ⟨k, hk, rfl⟩ | hold
    · rcases h.byteAddr_cases hb hq hk h32 with ha | ⟨hge, -, ha⟩
      · exact .inr (.inl ⟨k, hk, ha⟩)
      · exact .inr (.inr ⟨hq, by omega, by unfold Outside; omega⟩)
    · exact .inl hold
  stored_mono x hx := (hst.stored x).mpr (.inr hx)
  unstored x hx := hst.host_off x fun k hk he => hx ((hst.stored x).mpr (.inl ⟨k, hk, he⟩))
  spill _ hlt := by
    refine (hst.stored _).mpr (.inl ⟨b.total - 8 * i, by omega, ?_⟩)
    rcases h.byteAddr_cases hb hq (k := b.total - 8 * i) (by omega) h32 with ha | ⟨-, -, ha⟩
    · have := lt_total_of_getElem ha
      omega
    · rw [ha]
      omega

/-- Serving a word past the end of the blocks stores nothing. -/
theorem sgWordStored_none (mram : Mem UInt8) (d ci : Nat) {i : Nat} (hge : b.total ≤ 8 * i) (s : XferState) :
    SgWordStored p b mram d ci i s s where
  region := rfl
  host_at k _ a ha := absurd (lt_total_of_getElem ha) (by omega)
  host_off _ _ _ := rfl
  stored _ hx := .inl hx
  stored_mono _ hx := hx
  unstored _ _ := rfl
  spill hlt := absurd hlt (by omega)

/-- `write_next_eight_bytes` serves a word, and its iterator stands at the next one. -/
theorem AtRead.writeNextEightBytes {it : SgXferBufferIterator} (hapart : BlocksApart p sgPtr) {s : XferState}
    {d ci i : Nat} (h : AtRead p.zeros b (8 * i) it) (hb : b.Valid) (hd : d < p.nbDpusPerCi) (hci : ci < p.nbCis)
    (hbk : sgPtr (d * 8 + ci) = some b) (h32 : 8 * i + 8 < 2 ^ 32) :
    SgWordStored p b s.region d ci i s
        (writeNextEightBytes s it ((s.loadWords (p.wordLine d i)).word ci)).1 ∧
      AtRead p.zeros b (8 * i + 8) (writeNextEightBytes s it ((s.loadWords (p.wordLine d i)).word ci)).2 := by
  rcases Nat.lt_or_ge (8 * i) b.total with hlt | hge
  · have hat := h.before hlt
    have hidx := hat.index_le
    have hend : it.blocksAddrPtr ≠ it.blocksAddrPtrEnd := fun e => by
      have := hat.atEnd_iff.mp e
      omega
    obtain ⟨hst, hit⟩ := writeNextEightBytes_eq (s := s) (by omega) hend
      (hat.byteAddr_ne hapart hb hd hci hbk hlt h32) ((s.loadWords (p.wordLine d i)).word ci)
    refine ⟨hst.sgWordStored hat hb hlt h32, ?_⟩
    rw [hit]
    exact (hat.advance hb 8 h32).toRead
  · rw [writeNextEightBytes_end (h.after hge)]
    exact ⟨sgWordStored_none _ _ _ hge s, ⟨fun hlt => absurd hlt (by omega), fun _ => h.after hge⟩⟩

/-! ## The loops of a read -/

/-- Kept by everything a scatter/gather read does. -/
structure Stable (p : XeonSpPrivate) (sgPtr : Nat → Option SgXferBuffer) (mram : Mem UInt8) (K : XferState → Prop) :
    Prop where
  touch : ∀ s a, K s → K (s.touch a)
  setUp : ∀ s lists listStores, K s → K { s with lists := lists, listStores := listStores }
  word : ∀ {s s' : XferState} {d ci i : Nat} {b : SgXferBuffer}, d < p.nbDpusPerCi → ci < p.nbCis → i < p.words →
    sgPtr (d * 8 + ci) = some b → SgWordStored p b mram d ci i s s' → K s → K s'

/-- The region is the one the read found. -/
theorem stable_region (mram : Mem UInt8) : Stable p sgPtr mram fun s => s.region = mram :=
  ⟨fun _ _ h => h, fun _ _ _ h => h, fun _ _ _ _ hw h => hw.region.trans h⟩

/-- The body of the loop over the DPUs of a line. -/
def serveStep (l : Line) (st : XferState × SgIterators) (ci : Nat) : XferState × SgIterators :=
  match st.2 ci with
  | some it =>
    ((writeNextEightBytes st.1 it (l.word ci)).1,
      Function.update st.2 ci (some (writeNextEightBytes st.1 it (l.word ci)).2))
  | none => st

theorem readSgWord_eq (d i : Nat) (st : XferState × SgIterators) :
    readSgWord p.nbCis (bankStart d) p.xferMatrix.offset st i =
      (List.range p.nbCis).foldl (serveStep (st.1.loadWords (p.wordLine d i)))
        (st.1.touch (p.wordLine d i), st.2) := by
  simp only [readSgWord, bankStart_add_lineOffset]
  rfl

theorem flushLines_stable {mram : Mem UInt8} {K : XferState → Prop} (hK : Stable p sgPtr mram K) {s : XferState}
    (h : K s) (dest offset size : Nat) : K (flushLines dest offset size s) :=
  List.foldlRecOn _ _ (motive := K) h fun _ hs _ _ => hK.touch _ _ hs

section Read

variable (hv : p.Valid) (hvalid : ∀ k b, sgPtr k = some b → b.Valid) (hapart : BlocksApart p sgPtr)
  {mram : Mem UInt8}

/-- The state of the loops over line `d`: the region as found, and the iterators at `pos`. -/
def Serving (p : XeonSpPrivate) (sgPtr : Nat → Option SgXferBuffer) (mram : Mem UInt8) (d : Nat) (pos : Nat → Nat)
    (st : XferState × SgIterators) : Prop :=
  st.1.region = mram ∧ ItersAt (AtRead p.zeros) p.nbCis sgPtr (d * 8) pos st.2

include hv hvalid hapart in
/-- One DPU served: nothing if the matrix does not name it, else its word is stored. -/
theorem serveStep_cases {d i c : Nat} (hd : d < p.nbDpusPerCi) (hi : i < p.words) (hc : c < p.nbCis)
    {st : XferState × SgIterators} (h : Serving p sgPtr mram d (servedPos i c) st) :
    Serving p sgPtr mram d (servedPos i (c + 1))
        (serveStep (byteInterleaveAvx2 (mram.load (p.wordLine d i) 64)) st c) ∧
      (sgPtr (d * 8 + c) = none ∧ serveStep (byteInterleaveAvx2 (mram.load (p.wordLine d i) 64)) st c = st ∨
        ∃ b, sgPtr (d * 8 + c) = some b ∧ SgWordStored p b mram d c i st.1
          (serveStep (byteInterleaveAvx2 (mram.load (p.wordLine d i) 64)) st c).1) := by
  obtain ⟨hregion, hits⟩ := h
  have h32 := hv.size32
  unfold XeonSpPrivate.words at hi
  cases hb : sgPtr (d * 8 + c) with
  | none =>
    have hstep : serveStep (byteInterleaveAvx2 (mram.load (p.wordLine d i) 64)) st c = st := by
      simp only [serveStep, (hits c hc).2 hb]
    rw [hstep]
    exact ⟨⟨hregion, hits.skip hb fun cj hne => servedPos_other i hne⟩, .inl ⟨rfl, rfl⟩⟩
  | some b =>
    obtain ⟨it, hit, hat⟩ := (hits c hc).1 b hb
    have hpos : servedPos i c c = 8 * i := by simp [servedPos]
    rw [hpos] at hat
    have hserve := hat.writeNextEightBytes hapart (s := st.1) (hvalid _ b hb) hd hc hb (by omega)
    have hload : st.1.loadWords (p.wordLine d i) = byteInterleaveAvx2 (mram.load (p.wordLine d i) 64) := by
      rw [XferState.loadWords, hregion]
    rw [hload, hregion] at hserve
    simp only [serveStep, hit]
    refine ⟨⟨hserve.1.region.trans hregion, ?_⟩, .inr ⟨b, rfl, hserve.1⟩⟩
    exact hits.update hb (by rw [servedPos_self, hpos]; exact hserve.2) fun cj hne => servedPos_other i hne

include hv hvalid hapart in
/-- One word of the range served: the iterators move on, and stable facts stay. -/
theorem readSgWord_stable {K : XferState → Prop} (hK : Stable p sgPtr mram K) {d i : Nat} (hd : d < p.nbDpusPerCi)
    (hi : i < p.words) {st : XferState × SgIterators} (h : Serving p sgPtr mram d (fun _ => 8 * i) st) (hk : K st.1) :
    Serving p sgPtr mram d (fun _ => 8 * (i + 1)) (readSgWord p.nbCis (bankStart d) p.xferMatrix.offset st i) ∧
      K (readSgWord p.nbCis (bankStart d) p.xferMatrix.offset st i).1 := by
  rw [readSgWord_eq, XferState.loadWords, h.1]
  have hrun := foldl_range_inv (P := fun c (st : XferState × SgIterators) =>
      Serving p sgPtr mram d (servedPos i c) st ∧ K st.1)
    (f := serveStep (byteInterleaveAvx2 (mram.load (p.wordLine d i) 64)))
    (s := (st.1.touch (p.wordLine d i), st.2)) p.nbCis ?_ ?_
  · exact ⟨⟨hrun.1.1, hrun.1.2.served⟩, hrun.2⟩
  · refine ⟨⟨h.1, ?_⟩, hK.touch _ _ hk⟩
    rw [servedPos_zero]
    exact h.2
  · intro c hc st' hst
    obtain ⟨hs, hk'⟩ := hst
    obtain ⟨hnext, ⟨-, hsame⟩ | ⟨b, hb, hw⟩⟩ := serveStep_cases hv hvalid hapart hd hi hc hs
    · exact ⟨hnext, by rw [hsame]; exact hk'⟩
    · exact ⟨hnext, hK.word hd hc hi hb hw hk'⟩

include hv hvalid hapart in
/-- What storing the word of a named DPU establishes, serving the word establishes. -/
theorem readSgWord_reach {K : XferState → Prop} (hK : Stable p sgPtr mram K) {d ci i : Nat} {b : SgXferBuffer}
    (hd : d < p.nbDpusPerCi) (hci : ci < p.nbCis) (hi : i < p.words) (hb : sgPtr (d * 8 + ci) = some b)
    (hest : ∀ s s', SgWordStored p b mram d ci i s s' → K s')
    {st : XferState × SgIterators} (h : Serving p sgPtr mram d (fun _ => 8 * i) st) :
    K (readSgWord p.nbCis (bankStart d) p.xferMatrix.offset st i).1 := by
  rw [readSgWord_eq, XferState.loadWords, h.1]
  refine foldl_range_reach (J := fun c (st : XferState × SgIterators) => Serving p sgPtr mram d (servedPos i c) st)
    (P := fun st => K st.1) hci ?_ ?_ ?_ ?_
  · refine ⟨h.1, ?_⟩
    rw [servedPos_zero]
    exact h.2
  · intro c hc st' hs
    exact (serveStep_cases hv hvalid hapart hd hi hc hs).1
  · intro st' hs
    obtain ⟨-, ⟨hnone, -⟩ | ⟨b', hb', hw⟩⟩ := serveStep_cases hv hvalid hapart hd hi hci hs
    · rw [hb] at hnone
      cases hnone
    · rw [hb] at hb'
      cases hb'
      exact hest _ _ hw
  · intro c hc st' hs hk
    obtain ⟨-, ⟨-, hsame⟩ | ⟨b', hb', hw⟩⟩ := serveStep_cases hv hvalid hapart hd hi hc hs
    · rw [hsame]
      exact hk
    · exact hK.word hd hc hi hb' hw hk

/-- A list the matrix names is as the matrix has it, or has got its padding entry since. -/
theorem MayPad.finds {s₀ s : XferState} (h : MayPad p sgPtr s₀ s) (hfinds : Finds sgPtr s₀) {k : Nat} {b : SgXferBuffer}
    (hb : sgPtr k = some b) : s.lists k = b ∨ s.lists k = b.padded p.zeros := by
  rw [← hfinds k b hb]
  exact (h.lists k).imp_right And.right

section Line

variable {s₀ s : XferState} (hfinds : Finds sgPtr s₀) (hpad : MayPad p sgPtr s₀ s) (hregion : s.region = mram)

include hvalid hfinds hpad in
/-- The iterators a line is read with, whether its lists have been set up before or not. -/
theorem readIters {flushed : XferState} (hflush : SameLists s flushed) (d : Nat) :
    PadsFrom p.zeros sgPtr (d * 8) p.nbCis flushed (initSgIterators p.nbCis p.zeros sgPtr (d * 8) flushed).1 ∧
      ItersAt (AtRead p.zeros) p.nbCis sgPtr (d * 8) (fun _ => 0)
        (initSgIterators p.nbCis p.zeros sgPtr (d * 8) flushed).2 := by
  refine initSgIterators_spec (AtRead p.zeros) fun ci _ b hb s' hs' => atRead_init p.zeros ?_ (hvalid _ b hb)
  rw [hs', hflush.1]
  exact hpad.finds hfinds hb

include hvalid hfinds hpad hregion in
/-- The iterators of a line set up: it can be served, and stable facts stay. -/
theorem serving_init {K : XferState → Prop} (hK : Stable p sgPtr mram K) (hk : K s) (d : Nat) :
    Serving p sgPtr mram d (fun _ => 8 * 0) (initSgIterators p.nbCis p.zeros sgPtr (d * 8)
        (flushLines (bankStart d) p.xferMatrix.offset p.xferMatrix.size s)) ∧
      K (initSgIterators p.nbCis p.zeros sgPtr (d * 8)
        (flushLines (bankStart d) p.xferMatrix.offset p.xferMatrix.size s)).1 := by
  have hflush := flushLines_lists (bankStart d) p.xferMatrix.offset p.xferMatrix.size s
  have hstable : Stable p sgPtr mram fun s => s.region = mram := stable_region mram
  have hregion' := flushLines_stable hstable hregion (bankStart d) p.xferMatrix.offset p.xferMatrix.size
  have hk' := flushLines_stable hK hk (bankStart d) p.xferMatrix.offset p.xferMatrix.size
  generalize flushLines (bankStart d) p.xferMatrix.offset p.xferMatrix.size s = flushed at hflush hregion' hk' ⊢
  obtain ⟨hpads, hits⟩ := readIters hvalid hfinds hpad hflush d
  generalize initSgIterators p.nbCis p.zeros sgPtr (d * 8) flushed = init at hpads hits ⊢
  refine ⟨⟨?_, hits⟩, ?_⟩
  · rw [hpads.rest]
    exact hregion'
  · rw [hpads.rest]
    exact hK.setUp _ _ _ hk'

include hv hvalid hapart hfinds hpad hregion in
theorem readDpuLine_stable (hbuf : p.xferMatrix.buffers = .sgPtr sgPtr) {K : XferState → Prop}
    (hK : Stable p sgPtr mram K) {d : Nat} (hd : d < p.nbDpusPerCi) (hk : K s) : K (readDpuLine p s d) := by
  cases hp : doDpuTransfer p (d * 8)
  · rw [readDpuLine_not hp]
    exact hk
  · rw [readDpuLine_sg hbuf hp]
    refine flushLines_stable hK ?_ _ _ _
    refine (foldl_range_inv (P := fun i (st : XferState × SgIterators) =>
      Serving p sgPtr mram d (fun _ => 8 * i) st ∧ K st.1) p.words
      (serving_init hvalid hfinds hpad hregion hK hk d) ?_).2
    intro i hi st hst
    exact readSgWord_stable hv hvalid hapart hK hd hi hst.1 hst.2

include hv hvalid hapart hfinds hpad hregion in
theorem readDpuLine_reach (hbuf : p.xferMatrix.buffers = .sgPtr sgPtr) {K : XferState → Prop}
    (hK : Stable p sgPtr mram K) {d ci i : Nat} {b : SgXferBuffer} (hd : d < p.nbDpusPerCi) (hci : ci < p.nbCis)
    (hi : i < p.words) (hb : sgPtr (d * 8 + ci) = some b)
    (hest : ∀ s s', SgWordStored p b mram d ci i s s' → K s') : K (readDpuLine p s d) := by
  have hp : p.takesPart d := takesPart_of_named hd hci (by simp [hbuf, XferBuffers.named, hb])
  rw [readDpuLine_sg hbuf hp.2]
  refine flushLines_stable hK ?_ _ _ _
  refine foldl_range_reach (J := fun i (st : XferState × SgIterators) => Serving p sgPtr mram d (fun _ => 8 * i) st)
    (P := fun st => K st.1) hi (serving_init hvalid hfinds hpad hregion (stable_region mram) hregion d).1 ?_ ?_ ?_
  · intro j hj st hst
    exact (readSgWord_stable hv hvalid hapart (stable_region mram) hd hj hst hst.1).1
  · intro st hst
    exact readSgWord_reach hv hvalid hapart hK hd hci hi hb hest hst
  · intro j hj st hst hk
    exact (readSgWord_stable hv hvalid hapart hK hd hj hst hk).2

end Line

/-- What the lines of a read keep: the region, and the lists but for their padding entries. -/
def ReadInv (p : XeonSpPrivate) (sgPtr : Nat → Option SgXferBuffer) (s₀ s : XferState) : Prop :=
  s.region = s₀.region ∧ MayPad p sgPtr s₀ s

section Threads

variable (hbuf : p.xferMatrix.buffers = .sgPtr sgPtr) (hdir : p.direction = .read) {s₀ : XferState}
  (hfinds : Finds sgPtr s₀) {K : XferState → Prop} (hK : Stable p sgPtr s₀.region K)

include hv hvalid hapart hbuf hdir hfinds in
theorem ReadInv.line (hsize : p.xferMatrix.size ≠ 0) {d : Nat} (hd : d < p.nbDpusPerCi) {s s' : XferState}
    (h : ReadInv p sgPtr s₀ s) (hstep : LineStep p d s s') : ReadInv p sgPtr s₀ s' := by
  refine ⟨?_, h.2.line hsize hd (hstep.pads hv.cis hbuf)⟩
  cases hstep with
  | write _ _ hwrite => rw [hdir] at hwrite; cases hwrite
  | read _ _ => exact readDpuLine_stable hv hvalid hapart hfinds h.2 h.1 hbuf (stable_region s₀.region) hd h.1

include hv hvalid hapart hbuf hdir hfinds hK in
theorem ReadInv.line_stable {d : Nat} (hd : d < p.nbDpusPerCi) {s s' : XferState} (h : ReadInv p sgPtr s₀ s)
    (hstep : LineStep p d s s') (hk : K s) : K s' := by
  cases hstep with
  | write _ _ hwrite => rw [hdir] at hwrite; cases hwrite
  | read _ _ => exact readDpuLine_stable hv hvalid hapart hfinds h.2 h.1 hbuf hK hd hk

include hv hvalid hapart hbuf hdir hfinds hK in
/-- In any order of the threads, a scatter/gather read keeps stable facts. -/
theorem runThreads_stable (stack : Nat → Line) (order : List Nat) (hk : K s₀) : K (runThreads p stack order s₀) := by
  by_cases hsize : p.xferMatrix.size = 0
  · rw [runThreads_empty hsize]
    exact hk
  refine (runThreads_inv (I := fun s => ReadInv p sgPtr s₀ s ∧ K s) ?_ stack order ⟨⟨rfl, .refl s₀⟩, hk⟩).2
  intro d hd s s' hstep hs
  exact ⟨hs.1.line hv hvalid hapart hbuf hdir hfinds hsize hd hstep,
    hs.1.line_stable hv hvalid hapart hbuf hdir hfinds hK hd hstep hs.2⟩

include hv hvalid hapart hbuf hdir hfinds hK in
/-- In any order of the threads, a scatter/gather read establishes the stable
facts that storing any of its words establishes. -/
theorem runThreads_reach (stack : Nat → Line) {order : List Nat} (horder : ∀ t < p.nbThreadsForXfer, t ∈ order)
    {d ci i : Nat} {b : SgXferBuffer} (hd : d < p.nbDpusPerCi) (hci : ci < p.nbCis) (hi : i < p.words)
    (hb : sgPtr (d * 8 + ci) = some b) (hest : ∀ s s', SgWordStored p b s₀.region d ci i s s' → K s') :
    K (runThreads p stack order s₀) := by
  have hsize : p.xferMatrix.size ≠ 0 := by
    intro h
    simp [XeonSpPrivate.words, h] at hi
  refine runThreads_establish (I := ReadInv p sgPtr s₀) (P := K)
    (fun d hd s s' hstep hs => hs.line hv hvalid hapart hbuf hdir hfinds hsize hd hstep) hv.threads hsize stack horder hd
    ?_ (fun d' hd' s s' hstep hs hk => hs.line_stable hv hvalid hapart hbuf hdir hfinds hK hd' hstep hk) ⟨rfl, .refl s₀⟩
  intro s s' hstep hs
  cases hstep with
  | write _ _ hwrite => rw [hdir] at hwrite; cases hwrite
  | read _ _ => exact readDpuLine_reach hv hvalid hapart hfinds hs.2 hs.1 hbuf hK hd hci hi hb hest

end Threads

end Read

end DpuBackend.Xeon
