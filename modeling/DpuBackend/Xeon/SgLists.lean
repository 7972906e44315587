import DpuBackend.Xeon.FlatTransfer
import DpuBackend.Xeon.SgIterator

/-
  The lists of blocks over a scatter/gather transfer.

  A line is served with iterators that are set up for it (`initSgIterators`), and
  setting one up stores the padding entry behind the blocks of its list. Nothing
  else of a transfer stores to a list, so after all threads have run the list of
  each DPU named has its padding entry, and no other entry of any list was stored
  to (`runThreads_padsLists`). The rules `runThreads_inv` and
  `runThreads_establish` see a run as lines served one after the other.
-/

namespace DpuBackend.Xeon

open DpuBackend.Lib

variable {p : XeonSpPrivate} {sgPtr : Nat → Option SgXferBuffer}

/-! ## A run, line by line -/

/-- Line `d` served, in the direction of the transfer; a write finds whatever the thread
has left in its cache line. -/
inductive LineStep (p : XeonSpPrivate) (d : Nat) : XferState → XferState → Prop where
  | write (cacheLine : Line) (s : XferState) (hdir : p.direction = .write) : LineStep p d s (writeDpuLine p (s, cacheLine) d).1
  | read (s : XferState) (hdir : p.direction = .read) : LineStep p d s (readDpuLine p s d)

section Run

variable {I P : XferState → Prop} (hinv : ∀ d < p.nbDpusPerCi, ∀ s s', LineStep p d s s' → I s → I s')

include hinv in
/-- What every line served keeps, a thread keeps. -/
theorem threadDoMramXfer_inv (cl : Line) (t : Nat) {s : XferState} (h : I s) : I (threadDoMramXfer p cl t s) := by
  by_cases hsize : p.xferMatrix.size = 0
  · rw [threadDoMramXfer_empty hsize]
    exact h
  by_cases ht : t < p.nbThreadsForXfer
  · cases hdir : p.direction with
    | write =>
      rw [threadDoMramXfer_write hdir ht hsize]
      refine List.foldlRecOn (threadLines p t) (writeDpuLine p) (motive := fun st : XferState × Line => I st.1) h ?_
      intro st hst d hd
      exact hinv d (threadLines_lt ht hd) _ _ (.write st.2 st.1 hdir) hst
    | read =>
      rw [threadDoMramXfer_read hdir ht hsize]
      refine List.foldlRecOn (threadLines p t) (readDpuLine p) (motive := I) h ?_
      intro s hs d hd
      exact hinv d (threadLines_lt ht hd) _ _ (.read s hdir) hs
  · rw [threadDoMramXfer_idle ht]
    exact h

include hinv in
/-- What every line served keeps, a run keeps, in any order of the threads. -/
theorem runThreads_inv (stack : Nat → Line) (order : List Nat) {s : XferState} (h : I s) :
    I (runThreads p stack order s) :=
  List.foldlRecOn order _ (motive := I) h fun _ hs t _ => threadDoMramXfer_inv hinv (stack t) t hs

include hinv in
/-- What serving line `d` establishes and no line served undoes, a run establishes. -/
theorem runThreads_establish (hpos : 1 ≤ p.nbThreadsForXfer) (hsize : p.xferMatrix.size ≠ 0) (stack : Nat → Line)
    {order : List Nat} (horder : ∀ t < p.nbThreadsForXfer, t ∈ order) {d : Nat} (hd : d < p.nbDpusPerCi)
    (hest : ∀ s s', LineStep p d s s' → I s → P s')
    (hkeep : ∀ d' < p.nbDpusPerCi, ∀ s s', LineStep p d' s s' → I s → P s → P s') {s : XferState} (h : I s) :
    P (runThreads p stack order s) := by
  obtain ⟨t, ⟨ht, hrange⟩, -⟩ := threadRange_partition hpos hd
  have hlt : ∀ d' ∈ threadLines p t, d' < p.nbDpusPerCi := fun d' hd' => threadLines_lt ht hd'
  refine foldl_reach (I := I) (P := P) (horder t ht) ?_ ?_ ?_ h
  · exact fun s t' _ hs => threadDoMramXfer_inv hinv (stack t') t' hs
  · -- the line is one of the thread's
    intro s hs
    cases hdir : p.direction with
    | write =>
      rw [threadDoMramXfer_write hdir ht hsize]
      refine foldl_reach (I := fun st : XferState × Line => I st.1) (P := fun st => P st.1)
        (mem_threadLines.mpr hrange) ?_ ?_ ?_ hs
      · exact fun st d' hd' hst => hinv d' (hlt d' hd') _ _ (.write st.2 st.1 hdir) hst
      · exact fun st hst => hest _ _ (.write st.2 st.1 hdir) hst
      · exact fun st d' hd' hst hp => hkeep d' (hlt d' hd') _ _ (.write st.2 st.1 hdir) hst hp
    | read =>
      rw [threadDoMramXfer_read hdir ht hsize]
      refine foldl_reach (I := I) (P := P) (mem_threadLines.mpr hrange) ?_ ?_ ?_ hs
      · exact fun s d' hd' hs => hinv d' (hlt d' hd') _ _ (.read s hdir) hs
      · exact fun s hs => hest _ _ (.read s hdir) hs
      · exact fun s d' hd' hs hp => hkeep d' (hlt d' hd') _ _ (.read s hdir) hs hp
  · -- another thread keeps it
    intro s t' _ hs hp
    refine (threadDoMramXfer_inv (I := fun s => I s ∧ P s) ?_ (stack t') t' ⟨hs, hp⟩).2
    intro d' hd' s s' hstep ⟨hs, hp⟩
    exact ⟨hinv d' hd' s s' hstep hs, hkeep d' hd' s s' hstep hs hp⟩

end Run

/-- A transfer of no byte does nothing. -/
theorem runThreads_empty (hsize : p.xferMatrix.size = 0) (stack : Nat → Line) (order : List Nat) (s : XferState) :
    runThreads p stack order s = s :=
  List.foldlRecOn order _ (motive := fun s' => s' = s) rfl fun s' hs t _ => by rw [threadDoMramXfer_empty hsize, hs]

/-- The lines the threads serve, in the order in which they do. -/
def servedLines (p : XeonSpPrivate) (order : List Nat) : List Nat :=
  order.flatMap fun t => if t < p.nbThreadsForXfer then threadLines p t else []

theorem mem_servedLines {order : List Nat} {d : Nat} :
    d ∈ servedLines p order ↔ ∃ t ∈ order, t < p.nbThreadsForXfer ∧ d ∈ threadLines p t := by
  rw [servedLines, List.mem_flatMap]
  refine exists_congr fun t => and_congr_right fun _ => ?_
  split
  · next ht => exact ⟨fun h => ⟨ht, h⟩, fun h => h.2⟩
  · next ht => exact ⟨fun h => absurd h List.not_mem_nil, fun h => absurd h.1 ht⟩

theorem servedLines_lt {order : List Nat} {d : Nat} (h : d ∈ servedLines p order) : d < p.nbDpusPerCi := by
  obtain ⟨t, -, ht, hd⟩ := mem_servedLines.mp h
  exact threadLines_lt ht hd

/-- Every line is served. -/
theorem servedLines_all (hpos : 1 ≤ p.nbThreadsForXfer) {order : List Nat}
    (horder : ∀ t < p.nbThreadsForXfer, t ∈ order) {d : Nat} (hd : d < p.nbDpusPerCi) : d ∈ servedLines p order := by
  obtain ⟨t, ⟨ht, hrange⟩, -⟩ := threadRange_partition hpos hd
  exact mem_servedLines.mpr ⟨t, horder t ht, ht, mem_threadLines.mpr hrange⟩

/-- No line is served twice. -/
theorem servedLines_nodup (hpos : 1 ≤ p.nbThreadsForXfer) {order : List Nat} (hnodup : order.Nodup) :
    (servedLines p order).Nodup := by
  induction order with
  | nil => exact List.nodup_nil
  | cons t order ih =>
    obtain ⟨hnew, hrest⟩ := List.nodup_cons.mp hnodup
    change ((if t < p.nbThreadsForXfer then threadLines p t else []) ++ servedLines p order).Nodup
    by_cases ht : t < p.nbThreadsForXfer
    · rw [if_pos ht]
      refine List.nodup_append.mpr ⟨List.nodup_range', ih hrest, ?_⟩
      -- a line of two threads' ranges would make them one thread
      intro d hd d' hd' he
      subst he
      obtain ⟨t', hmem, ht', hd'⟩ := mem_servedLines.mp hd'
      have heq := (threadRange_partition hpos (threadLines_lt ht hd)).unique
        ⟨ht, mem_threadLines.mp hd⟩ ⟨ht', mem_threadLines.mp hd'⟩
      rw [heq] at hnew
      exact hnew hmem
    · rw [if_neg ht]
      exact ih hrest

/-! ## The iterators of a line -/

/-- The iterator of each named DPU of the line at `idx` stands, in the sense of
`stands`, at `pos` of its DPU. -/
def ItersAt (stands : SgXferBuffer → Nat → SgXferBufferIterator → Prop) (nbCis : Nat)
    (sgPtr : Nat → Option SgXferBuffer) (idx : Nat) (pos : Nat → Nat) (its : SgIterators) : Prop :=
  ∀ ci < nbCis, (∀ b, sgPtr (idx + ci) = some b → ∃ it, its ci = some it ∧ stands b (pos ci) it) ∧
    (sgPtr (idx + ci) = none → its ci = none)

/-- The lists of the DPUs named, among the `c` from `idx` on, have got their padding entry, and
nothing else has changed. -/
structure PadsFrom (zeros : Nat) (sgPtr : Nat → Option SgXferBuffer) (idx c : Nat) (s s' : XferState) : Prop where
  rest : s' = { s with lists := s'.lists, listStores := s'.listStores }
  lists : ∀ k, s'.lists k =
    if idx ≤ k ∧ k < idx + c ∧ (sgPtr k).isSome = true then (s.lists k).padded zeros else s.lists k
  stored : ∀ e, e ∈ s'.listStores ↔ e ∈ s.listStores ∨
    idx ≤ e.1 ∧ e.1 < idx + c ∧ (sgPtr e.1).isSome = true ∧ e.2 = (s.lists e.1).nrBlocks

theorem PadsFrom.refl (zeros idx : Nat) (s : XferState) : PadsFrom zeros sgPtr idx 0 s s where
  rest := rfl
  lists k := by rw [if_neg (by omega)]
  stored e := by
    constructor
    · exact .inl
    · intro h
      cases h with
      | inl h => exact h
      | inr h => omega

/-- A DPU the matrix does not name has no list. -/
theorem PadsFrom.skip {zeros idx c : Nat} {s s' : XferState} (h : PadsFrom zeros sgPtr idx c s s')
    (hnone : sgPtr (idx + c) = none) : PadsFrom zeros sgPtr idx (c + 1) s s' := by
  have hiff : ∀ k, (sgPtr k).isSome = true → (k < idx + (c + 1) ↔ k < idx + c) := by
    intro k hk
    have hne : k ≠ idx + c := fun e => by rw [e, hnone] at hk; cases hk
    omega
  refine ⟨h.rest, fun k => ?_, fun e => ?_⟩
  · rw [h.lists k]
    congr 1
    exact propext (and_congr_right fun _ => and_congr_left fun hk => (hiff k hk).symm)
  · rw [h.stored e]
    apply or_congr_right
    exact and_congr_right fun _ => and_congr_left fun hk => (hiff e.1 hk.1).symm

/-- One more list has its padding entry. -/
theorem PadsFrom.next {zeros idx c : Nat} {s s' : XferState} (h : PadsFrom zeros sgPtr idx c s s')
    (hsome : (sgPtr (idx + c)).isSome = true) :
    PadsFrom zeros sgPtr idx (c + 1) s (initSgXferBufferIterator zeros s' (idx + c)).1 := by
  have hhere : s'.lists (idx + c) = s.lists (idx + c) := by rw [h.lists, if_neg (by omega)]
  refine ⟨?_, fun k => ?_, fun e => ?_⟩
  · rw [h.rest]
    rfl
  · change Function.update s'.lists (idx + c) ((s'.lists (idx + c)).padded zeros) k = _
    by_cases hk : k = idx + c
    · rw [hk, Function.update_self, hhere, if_pos ⟨by omega, by omega, hsome⟩]
    · rw [Function.update_of_ne hk, h.lists k]
      congr 1
      exact propext ⟨fun hc => ⟨hc.1, by omega, hc.2.2⟩, fun hc => ⟨hc.1, by omega, hc.2.2⟩⟩
  · change e ∈ (idx + c, (s'.lists (idx + c)).nrBlocks) :: s'.listStores ↔ _
    rw [List.mem_cons, h.stored e, hhere]
    constructor
    · intro he
      rcases he with rfl | hold | ⟨hlo, hhi, hnamed, hentry⟩
      · exact .inr ⟨by simp only; omega, by simp only; omega, hsome, rfl⟩
      · exact .inl hold
      · exact .inr ⟨hlo, by omega, hnamed, hentry⟩
    · intro he
      rcases he with hold | ⟨hlo, hhi, hnamed, hentry⟩
      · exact .inr (.inl hold)
      · by_cases hk : e.1 = idx + c
        · exact .inl (Prod.ext hk (by rw [hentry, hk]))
        · exact .inr (.inr ⟨hlo, by omega, hnamed, hentry⟩)

/-- The body of the loop that sets up the iterators of a line. -/
def setUpStep (zeros : Nat) (sgPtr : Nat → Option SgXferBuffer) (idx : Nat) (st : XferState × SgIterators) (ci : Nat) :
    XferState × SgIterators :=
  match sgPtr (idx + ci) with
  | some _ =>
    ((initSgXferBufferIterator zeros st.1 (idx + ci)).1,
      Function.update st.2 ci (some (initSgXferBufferIterator zeros st.1 (idx + ci)).2))
  | none => st

/-- Setting up the iterators of a line: each stands at the start of its list, and each list has its
padding entry. -/
theorem initSgIterators_spec (stands : SgXferBuffer → Nat → SgXferBufferIterator → Prop) {nbCis zeros idx : Nat}
    {s : XferState} (hinit : ∀ ci < nbCis, ∀ b, sgPtr (idx + ci) = some b → ∀ s' : XferState,
      s'.lists (idx + ci) = s.lists (idx + ci) → stands b 0 (initSgXferBufferIterator zeros s' (idx + ci)).2) :
    PadsFrom zeros sgPtr idx nbCis s (initSgIterators nbCis zeros sgPtr idx s).1 ∧
      ItersAt stands nbCis sgPtr idx (fun _ => 0) (initSgIterators nbCis zeros sgPtr idx s).2 := by
  have hrun := foldl_range_inv (P := fun c (st : XferState × SgIterators) =>
      PadsFrom zeros sgPtr idx c s st.1 ∧
        (∀ ci < c, ∀ b, sgPtr (idx + ci) = some b → ∃ it, st.2 ci = some it ∧ stands b 0 it) ∧
        ∀ ci, c ≤ ci ∨ sgPtr (idx + ci) = none → st.2 ci = none)
    (f := setUpStep zeros sgPtr idx) (s := (s, fun _ => none)) nbCis
    ⟨.refl zeros idx s, fun ci hci => absurd hci (Nat.not_lt_zero ci), fun _ _ => rfl⟩ ?_
  · exact ⟨hrun.1, fun ci hci => ⟨hrun.2.1 ci hci, fun hnone => hrun.2.2 ci (.inr hnone)⟩⟩
  · intro c hc st hst
    obtain ⟨hpads, hits, hnone⟩ := hst
    cases hb : sgPtr (idx + c) with
    | none =>
      simp only [setUpStep, hb]
      refine ⟨hpads.skip hb, fun ci hci b hbi => ?_, fun ci hci => hnone ci ?_⟩
      · have hne : ci ≠ c := fun e => by rw [e, hb] at hbi; cases hbi
        exact hits ci (by omega) b hbi
      · exact hci.imp_left fun h => by omega
    | some b =>
      have hlist : st.1.lists (idx + c) = s.lists (idx + c) := by rw [hpads.lists, if_neg (by omega)]
      simp only [setUpStep, hb]
      refine ⟨hpads.next (by rw [hb]; rfl), fun ci hci b' hbi => ?_, fun ci hci => ?_⟩
      · by_cases hne : ci = c
        · subst hne
          rw [hb] at hbi
          cases hbi
          exact ⟨_, Function.update_self .., hinit ci hc b hb st.1 hlist⟩
        · simp only [Function.update_of_ne hne]
          exact hits ci (by omega) b' hbi
      · have hne : ci ≠ c := by
          intro e
          cases hci with
          | inl hle => omega
          | inr hn => rw [e, hb] at hn; cases hn
        simp only [Function.update_of_ne hne]
        exact hnone ci (hci.imp_left fun h => by omega)

/-! ## What a line does to the lists -/

/-- No list has been stored to. -/
def SameLists (s s' : XferState) : Prop := s'.lists = s.lists ∧ s'.listStores = s.listStores

theorem SameLists.refl (s : XferState) : SameLists s s := ⟨rfl, rfl⟩

theorem storeRegion_lists (s : XferState) (a : Nat) (l : Line) : SameLists s (s.storeRegion a l) := ⟨rfl, rfl⟩

theorem SameLists.trans {s s' s'' : XferState} (h : SameLists s s') (h' : SameLists s' s'') : SameLists s s'' :=
  ⟨h'.1.trans h.1, h'.2.trans h.2⟩

theorem getNextEightBytes_lists (s : XferState) (it : SgXferBufferIterator) :
    SameLists s (getNextEightBytes s it).2.1 := by
  simp only [getNextEightBytes]
  split
  · exact ⟨rfl, rfl⟩
  · split
    · exact ⟨rfl, rfl⟩
    · refine List.foldlRecOn _ _ (motive := fun st : Word × XferState × SgXferBufferIterator => SameLists s st.2.1)
        (.refl s) ?_
      intro st hst i _
      exact hst.trans ⟨rfl, rfl⟩

theorem writeNextEightBytes_lists (s : XferState) (it : SgXferBufferIterator) (w : Word) :
    SameLists s (writeNextEightBytes s it w).1 := by
  simp only [writeNextEightBytes]
  split
  · exact .refl s
  · split
    · exact ⟨rfl, rfl⟩
    · split
      · exact ⟨rfl, rfl⟩
      · refine List.foldlRecOn _ _ (motive := fun st : XferState × SgXferBufferIterator => SameLists s st.1) (.refl s) ?_
        intro st hst i _
        exact hst.trans ⟨rfl, rfl⟩

theorem writeSgWord_lists (nbCis dest offset i : Nat) (st : XferState × Line × SgIterators) :
    SameLists st.1 (writeSgWord nbCis dest offset st i).1 := by
  have hgather : SameLists st.1 (gatherSg nbCis st).1 := by
    refine List.foldlRecOn _ _ (motive := fun st' : XferState × Line × SgIterators => SameLists st.1 st'.1) (.refl _) ?_
    intro st' hst ci _
    simp only
    split
    · exact hst.trans (getNextEightBytes_lists _ _)
    · exact hst
  simp only [writeSgWord]
  exact hgather.trans (storeRegion_lists ..)

theorem readSgWord_lists (nbCis dest offset i : Nat) (st : XferState × SgIterators) :
    SameLists st.1 (readSgWord nbCis dest offset st i).1 := by
  refine List.foldlRecOn _ _ (motive := fun st' : XferState × SgIterators => SameLists st.1 st'.1) ⟨rfl, rfl⟩ ?_
  intro st' hst ci _
  simp only
  split
  · exact hst.trans (writeNextEightBytes_lists _ _ _)
  · exact hst

theorem flushLines_lists (dest offset size : Nat) (s : XferState) : SameLists s (flushLines dest offset size s) :=
  List.foldlRecOn _ _ (motive := SameLists s) (.refl s) fun _ hs _ _ => hs.trans ⟨rfl, rfl⟩

/-- The lists of the DPUs named on line `d` have got their padding entry. -/
structure PadsLine (p : XeonSpPrivate) (sgPtr : Nat → Option SgXferBuffer) (d : Nat) (s s' : XferState) : Prop where
  lists : ∀ k, s'.lists k =
    if k / 8 = d ∧ k % 8 < p.nbCis ∧ (sgPtr k).isSome = true then (s.lists k).padded p.zeros else s.lists k
  stored : ∀ e, e ∈ s'.listStores ↔ e ∈ s.listStores ∨
    e.1 / 8 = d ∧ e.1 % 8 < p.nbCis ∧ (sgPtr e.1).isSome = true ∧ e.2 = (s.lists e.1).nrBlocks

theorem PadsFrom.line (hcis : p.nbCis ≤ 8) {d : Nat} {s s' : XferState}
    (h : PadsFrom p.zeros sgPtr (d * 8) p.nbCis s s') : PadsLine p sgPtr d s s' := by
  have hiff : ∀ k, (d * 8 ≤ k ∧ k < d * 8 + p.nbCis) ↔ (k / 8 = d ∧ k % 8 < p.nbCis) := fun k => by omega
  refine ⟨fun k => ?_, fun e => ?_⟩
  · rw [h.lists k]
    simp only [← and_assoc, hiff]
  · rw [h.stored e]
    simp only [← and_assoc, hiff]

theorem PadsLine.trans {d : Nat} {s s₁ s₂ s' : XferState} (h : PadsLine p sgPtr d s₁ s₂) (hs : SameLists s s₁)
    (hs' : SameLists s₂ s') : PadsLine p sgPtr d s s' := by
  obtain ⟨hl, hl'⟩ := hs
  obtain ⟨hr, hr'⟩ := hs'
  refine ⟨fun k => ?_, fun e => ?_⟩
  · rw [hr, h.lists k, hl]
  · rw [hr', h.stored e, hl, hl']

/-- A line the matrix does not name has no list. -/
theorem padsLine_not {d : Nat} (hbuf : p.xferMatrix.buffers = .sgPtr sgPtr) (hd : doDpuTransfer p (d * 8) = false)
    (s : XferState) : PadsLine p sgPtr d s s := by
  have hnone : ∀ k, k / 8 = d → k % 8 < p.nbCis → (sgPtr k).isSome ≠ true := by
    intro k hk hci hnamed
    have hany : doDpuTransfer p (d * 8) = true := by
      refine List.any_eq_true.mpr ⟨k % 8, List.mem_range.mpr hci, ?_⟩
      have hidx : d * 8 + k % 8 = k := by omega
      rw [hbuf, hidx]
      exact hnamed
    rw [hd] at hany
    cases hany
  refine ⟨fun k => ?_, fun e => ?_⟩
  · rw [if_neg fun h => hnone k h.1 h.2.1 h.2.2]
  · exact ⟨.inl, fun h => h.elim id fun he => absurd he.2.2.1 (hnone e.1 he.1 he.2.1)⟩

theorem writeDpuLine_sg (hbuf : p.xferMatrix.buffers = .sgPtr sgPtr) (st : XferState × Line) {d : Nat}
    (hd : doDpuTransfer p (d * 8) = true) :
    writeDpuLine p st d =
      (((List.range p.words).foldl (writeSgWord p.nbCis (bankStart d) p.xferMatrix.offset)
          ((initSgIterators p.nbCis p.zeros sgPtr (d * 8) st.1).1, st.2,
            (initSgIterators p.nbCis p.zeros sgPtr (d * 8) st.1).2)).1,
        ((List.range p.words).foldl (writeSgWord p.nbCis (bankStart d) p.xferMatrix.offset)
          ((initSgIterators p.nbCis p.zeros sgPtr (d * 8) st.1).1, st.2,
            (initSgIterators p.nbCis p.zeros sgPtr (d * 8) st.1).2)).2.1) := by
  simp only [writeDpuLine, hd, if_true, hbuf, XeonSpPrivate.words]

theorem readDpuLine_sg (hbuf : p.xferMatrix.buffers = .sgPtr sgPtr) {s : XferState} {d : Nat}
    (hd : doDpuTransfer p (d * 8) = true) :
    readDpuLine p s d = flushLines (bankStart d) p.xferMatrix.offset p.xferMatrix.size
      ((List.range p.words).foldl (readSgWord p.nbCis (bankStart d) p.xferMatrix.offset)
        (initSgIterators p.nbCis p.zeros sgPtr (d * 8)
          (flushLines (bankStart d) p.xferMatrix.offset p.xferMatrix.size s))).1 := by
  simp only [readDpuLine, hd, if_true, hbuf, XeonSpPrivate.words]

/-- A line served, in either direction, stores the padding entries of its lists. -/
theorem LineStep.pads (hcis : p.nbCis ≤ 8) (hbuf : p.xferMatrix.buffers = .sgPtr sgPtr) {d : Nat} {s s' : XferState}
    (h : LineStep p d s s') : PadsLine p sgPtr d s s' := by
  cases hd : doDpuTransfer p (d * 8) with
  | false =>
    cases h with
    | write cl _ _ =>
      rw [writeDpuLine_not _ hd]
      exact padsLine_not hbuf hd s
    | read _ _ =>
      rw [readDpuLine_not hd]
      exact padsLine_not hbuf hd s
  | true =>
    have hinit : ∀ s : XferState, PadsLine p sgPtr d s (initSgIterators p.nbCis p.zeros sgPtr (d * 8) s).1 := fun s =>
      PadsFrom.line hcis (initSgIterators_spec (fun _ _ _ => True) fun _ _ _ _ _ _ => trivial).1
    cases h with
    | write cl _ _ =>
      rw [writeDpuLine_sg hbuf _ hd]
      refine (hinit s).trans (.refl s) ?_
      refine List.foldlRecOn _ _ (motive := fun st : XferState × Line × SgIterators => SameLists _ st.1) (.refl _) ?_
      intro st hst i _
      exact hst.trans (writeSgWord_lists ..)
    | read _ _ =>
      rw [readDpuLine_sg hbuf hd]
      have hflush := flushLines_lists (bankStart d) p.xferMatrix.offset p.xferMatrix.size s
      refine (hinit _).trans hflush ?_
      refine SameLists.trans ?_ (flushLines_lists ..)
      refine List.foldlRecOn _ _ (motive := fun st : XferState × SgIterators => SameLists _ st.1) (.refl _) ?_
      intro st hst i _
      exact hst.trans (readSgWord_lists ..)

/-! ## What a transfer does to the lists -/

/-- The transfer serves list `k`: that of a DPU of the rank which the matrix names. -/
def Serves (p : XeonSpPrivate) (sgPtr : Nat → Option SgXferBuffer) (k : Nat) : Prop :=
  p.xferMatrix.size ≠ 0 ∧ k / 8 < p.nbDpusPerCi ∧ k % 8 < p.nbCis ∧ (sgPtr k).isSome = true

instance (p : XeonSpPrivate) (sgPtr : Nat → Option SgXferBuffer) (k : Nat) : Decidable (Serves p sgPtr k) :=
  inferInstanceAs (Decidable (_ ∧ _))

/-- The lists served have got their padding entry, and no other entry of any list was stored to. -/
structure PadsLists (p : XeonSpPrivate) (sgPtr : Nat → Option SgXferBuffer) (s s' : XferState) : Prop where
  lists : ∀ k, s'.lists k = if Serves p sgPtr k then (s.lists k).padded p.zeros else s.lists k
  stored : ∀ e, e ∈ s'.listStores ↔ e ∈ s.listStores ∨ Serves p sgPtr e.1 ∧ e.2 = (s.lists e.1).nrBlocks

/-- What a list may become while the threads run. -/
structure MayPad (p : XeonSpPrivate) (sgPtr : Nat → Option SgXferBuffer) (s₀ s : XferState) : Prop where
  lists : ∀ k, s.lists k = s₀.lists k ∨ Serves p sgPtr k ∧ s.lists k = (s₀.lists k).padded p.zeros
  stored : ∀ e ∈ s.listStores, e ∈ s₀.listStores ∨ Serves p sgPtr e.1 ∧ e.2 = (s₀.lists e.1).nrBlocks
  stored_mono : ∀ e ∈ s₀.listStores, e ∈ s.listStores

theorem MayPad.refl (s : XferState) : MayPad p sgPtr s s :=
  ⟨fun _ => .inl rfl, fun _ h => .inl h, fun _ h => h⟩

/-- Storing the padding entry does not change the number of blocks. -/
theorem MayPad.nrBlocks {s₀ s : XferState} (h : MayPad p sgPtr s₀ s) (k : Nat) :
    (s.lists k).nrBlocks = (s₀.lists k).nrBlocks := by
  cases h.lists k with
  | inl hsame => rw [hsame]
  | inr hpad => rw [hpad.2, SgXferBuffer.padded]

theorem MayPad.padded {s₀ s : XferState} (h : MayPad p sgPtr s₀ s) (k : Nat) :
    (s.lists k).padded p.zeros = (s₀.lists k).padded p.zeros := by
  cases h.lists k with
  | inl hsame => rw [hsame]
  | inr hpad => rw [hpad.2, padded_padded]

theorem MayPad.line (hsize : p.xferMatrix.size ≠ 0) {d : Nat} (hd : d < p.nbDpusPerCi) {s₀ s s' : XferState}
    (h : MayPad p sgPtr s₀ s) (hpads : PadsLine p sgPtr d s s') : MayPad p sgPtr s₀ s' := by
  refine ⟨fun k => ?_, fun e he => ?_, fun e he => (hpads.stored e).mpr (.inl (h.stored_mono e he))⟩
  · rw [hpads.lists k]
    by_cases hk : k / 8 = d ∧ k % 8 < p.nbCis ∧ (sgPtr k).isSome = true
    · rw [if_pos hk, h.padded k]
      exact .inr ⟨⟨hsize, by omega, hk.2⟩, rfl⟩
    · rw [if_neg hk]
      exact h.lists k
  · cases (hpads.stored e).mp he with
    | inl hold => exact h.stored e hold
    | inr hnew => exact .inr ⟨⟨hsize, by omega, hnew.2.1, hnew.2.2.1⟩, by rw [hnew.2.2.2, h.nrBlocks]⟩

/-- In either direction and in any order of the threads, a transfer stores the padding entry of each
list it serves, and no other entry. -/
theorem runThreads_padsLists (hv : p.Valid) (hbuf : p.xferMatrix.buffers = .sgPtr sgPtr) (stack : Nat → Line)
    {order : List Nat} (horder : ∀ t < p.nbThreadsForXfer, t ∈ order) (s : XferState) :
    PadsLists p sgPtr s (runThreads p stack order s) := by
  by_cases hsize : p.xferMatrix.size = 0
  · -- no thread does anything, and no list is served
    have hnone : ∀ k, ¬Serves p sgPtr k := fun k hk => hk.1 hsize
    rw [runThreads_empty hsize]
    exact ⟨fun k => by rw [if_neg (hnone k)], fun e => ⟨.inl, fun h => h.elim id fun he => absurd he.1 (hnone _)⟩⟩
  have hline : ∀ d < p.nbDpusPerCi, ∀ s₁ s₂, LineStep p d s₁ s₂ → MayPad p sgPtr s s₁ → MayPad p sgPtr s s₂ :=
    fun d hd s₁ s₂ hstep h => h.line hsize hd (hstep.pads hv.cis hbuf)
  have hframe : MayPad p sgPtr s (runThreads p stack order s) := runThreads_inv hline stack order (.refl s)
  -- the line of a list served stores its padding entry, and no line undoes it
  have hserved : ∀ k, Serves p sgPtr k → (runThreads p stack order s).lists k = (s.lists k).padded p.zeros ∧
      (k, (s.lists k).nrBlocks) ∈ (runThreads p stack order s).listStores := by
    intro k hk
    refine runThreads_establish (I := MayPad p sgPtr s)
      (P := fun s' => s'.lists k = (s.lists k).padded p.zeros ∧ (k, (s.lists k).nrBlocks) ∈ s'.listStores)
      hline hv.threads hsize stack horder hk.2.1 ?_ ?_ (.refl s)
    · intro s₁ s₂ hstep h
      have hpads := hstep.pads hv.cis hbuf
      refine ⟨?_, (hpads.stored _).mpr (.inr ⟨rfl, hk.2.2.1, hk.2.2.2, (h.nrBlocks k).symm⟩)⟩
      rw [hpads.lists k, if_pos ⟨rfl, hk.2.2⟩, h.padded k]
    · intro d hd s₁ s₂ hstep h ⟨hlist, hstored⟩
      have hpads := hstep.pads hv.cis hbuf
      refine ⟨?_, (hpads.stored _).mpr (.inl hstored)⟩
      rw [hpads.lists k]
      split
      · rw [hlist, padded_padded]
      · exact hlist
  refine ⟨fun k => ?_, fun e => ⟨hframe.stored e, fun he => ?_⟩⟩
  · split
    · next hk => exact (hserved k hk).1
    · next hk => exact (hframe.lists k).resolve_right fun h => hk h.1
  · rcases he with hold | ⟨hk, hentry⟩
    · exact hframe.stored_mono e hold
    · rw [show e = (e.1, (s.lists e.1).nrBlocks) from Prod.ext rfl hentry]
      exact (hserved e.1 hk).2

end DpuBackend.Xeon
