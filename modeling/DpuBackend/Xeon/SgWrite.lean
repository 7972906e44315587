import DpuBackend.Xeon.RoundTrip
import DpuBackend.Xeon.SgLists

/-
  Scatter/gather writes against flat ones.

  A scatter/gather write puts in the MRAM what a flat write of the bytes its
  iterators visit would (`runThreads_sgWrite`), and those are the concatenation
  of the blocks padded with zeros except where a list is empty: the iterator is
  set up from the first entry of the arrays before the padding is put there, so
  an empty list sends what that entry points to, if it can be read at all. That
  holds for the first time a list is set up; as no line is served twice, it is
  the only one.
-/

namespace DpuBackend.Xeon

open DpuBackend.Lib DpuBackend.Lib.Mem

/-- The flat transfer over the same range with buffers `ptr`. -/
def XeonSpPrivate.flat (p : XeonSpPrivate) (ptr : Nat → Nat) : XeonSpPrivate :=
  { p with xferMatrix := { p.xferMatrix with buffers := .ptr ptr } }

/-- `ptr` names the DPUs that `sgPtr` names. -/
def SameDpus (sgPtr : Nat → Option SgXferBuffer) (ptr : Nat → Nat) : Prop :=
  ∀ k, ptr k ≠ 0 ↔ (sgPtr k).isSome

/-- The flat buffer of each named DPU holds the first `size` bytes of `stream`. -/
def BuffersHold (p : XeonSpPrivate) (sgPtr : Nat → Option SgXferBuffer) (ptr : Nat → Nat) (host : Mem UInt8)
    (stream : SgXferBuffer → Nat → UInt8) : Prop :=
  ∀ d ci b, d < p.nbDpusPerCi → ci < p.nbCis → sgPtr (d * 8 + ci) = some b →
    ∀ q < p.xferMatrix.size, host (ptr (d * 8 + ci) + q) = stream b q

/-- The lists the matrix points to are those in memory. -/
def Finds (sgPtr : Nat → Option SgXferBuffer) (s : XferState) : Prop := ∀ k b, sgPtr k = some b → s.lists k = b

variable {p : XeonSpPrivate} {sgPtr : Nat → Option SgXferBuffer} {ptr : Nat → Nat}

theorem doDpuTransfer_flat (hb : p.xferMatrix.buffers = .sgPtr sgPtr) (hsame : SameDpus sgPtr ptr) (idx : Nat) :
    doDpuTransfer (p.flat ptr) idx = doDpuTransfer p idx := by
  have hnamed : ∀ k, XferBuffers.named (.ptr ptr) k = XferBuffers.named (.sgPtr sgPtr) k := by
    intro k
    rw [Bool.eq_iff_iff]
    simpa [XferBuffers.named] using hsame k
  simp only [doDpuTransfer, XeonSpPrivate.flat, hb, hnamed]

/-- One more DPU of the line served: its iterator moves, the others stay. -/
theorem ItersAt.update {stands : SgXferBuffer → Nat → SgXferBufferIterator → Prop} {nbCis idx : Nat} {pos pos' : Nat → Nat} {its : SgIterators} {ci : Nat}
    {it : SgXferBufferIterator} {b : SgXferBuffer} (h : ItersAt stands nbCis sgPtr idx pos its)
    (hb : sgPtr (idx + ci) = some b) (hit : stands b (pos' ci) it) (hpos : ∀ cj, cj ≠ ci → pos' cj = pos cj) :
    ItersAt stands nbCis sgPtr idx pos' (Function.update its ci (some it)) := by
  intro cj hcj
  by_cases hne : cj = ci
  · subst hne
    refine ⟨fun b' hb' => ⟨it, by rw [Function.update_self], ?_⟩, fun hnone => ?_⟩
    · rw [hb] at hb'
      cases hb'
      exact hit
    · rw [hb] at hnone
      exact absurd hnone (by simp)
  · rw [Function.update_of_ne hne, hpos cj hne]
    exact h cj hcj

/-- A DPU the matrix does not name has no iterator to move. -/
theorem ItersAt.skip {stands : SgXferBuffer → Nat → SgXferBufferIterator → Prop} {nbCis idx : Nat} {pos pos' : Nat → Nat} {its : SgIterators} {ci : Nat}
    (h : ItersAt stands nbCis sgPtr idx pos its) (hnone : sgPtr (idx + ci) = none)
    (hpos : ∀ cj, cj ≠ ci → pos' cj = pos cj) : ItersAt stands nbCis sgPtr idx pos' its := by
  intro cj hcj
  by_cases hne : cj = ci
  · subst hne
    exact ⟨fun b hb => by simp [hnone] at hb, fun _ => (h cj hcj).2 hnone⟩
  · rw [hpos cj hne]
    exact h cj hcj

/-- Positions while the DPUs below `c` have had word `i` and the others not yet. -/
def servedPos (i c ci : Nat) : Nat := if ci < c then 8 * (i + 1) else 8 * i

theorem servedPos_other (i : Nat) {c cj : Nat} (h : cj ≠ c) : servedPos i (c + 1) cj = servedPos i c cj := by
  unfold servedPos
  split <;> split <;> omega

theorem servedPos_self (i c : Nat) : servedPos i (c + 1) c = servedPos i c c + 8 := by
  unfold servedPos
  split <;> split <;> omega

theorem servedPos_zero (i : Nat) : servedPos i 0 = fun _ => 8 * i := by
  funext ci
  simp [servedPos]

theorem ItersAt.served {stands : SgXferBuffer → Nat → SgXferBufferIterator → Prop} {nbCis idx i : Nat} {its : SgIterators}
    (h : ItersAt stands nbCis sgPtr idx (servedPos i nbCis) its) :
    ItersAt stands nbCis sgPtr idx (fun _ => 8 * (i + 1)) its := by
  intro ci hci
  have hpos : servedPos i nbCis ci = 8 * (i + 1) := if_pos hci
  have h' := h ci hci
  rw [hpos] at h'
  exact h'

/-! ## The addresses loaded from -/

/-- The addresses of the first bytes of the lists of line `d`, `pos` of each, as the iterators
find them. -/
def LineLoads (p : XeonSpPrivate) (sgPtr : Nat → Option SgXferBuffer) (d : Nat) (pos : Nat → Nat) (x : Nat) : Prop :=
  ∃ ci < p.nbCis, ∃ b, sgPtr (d * 8 + ci) = some b ∧ ∃ q < pos ci, x = b.streamAddr p.zeros q

theorem lineLoads_zero {d x : Nat} : ¬LineLoads p sgPtr d (fun _ => 8 * 0) x := by
  intro ⟨_, _, _, _, q, hq, _⟩
  exact absurd hq (Nat.not_lt_zero q)

/-- Eight more bytes of one list. -/
theorem lineLoads_next {d c : Nat} {b : SgXferBuffer} {pos pos' : Nat → Nat} (hc : c < p.nbCis)
    (hb : sgPtr (d * 8 + c) = some b) (hpos : pos' c = pos c + 8) (hother : ∀ cj, cj ≠ c → pos' cj = pos cj) (x : Nat) :
    LineLoads p sgPtr d pos' x ↔ (∃ k < 8, x = b.streamAddr p.zeros (pos c + k)) ∨ LineLoads p sgPtr d pos x := by
  constructor
  · intro ⟨ci, hci, b', hb', q, hq, hx⟩
    by_cases hne : ci = c
    · subst hne
      rw [hb] at hb'
      cases hb'
      rw [hpos] at hq
      rcases Nat.lt_or_ge q (pos ci) with hlt | hge
      · exact .inr ⟨ci, hci, b, hb, q, hlt, hx⟩
      · exact .inl ⟨q - pos ci, by omega, by rw [Nat.add_sub_cancel' hge]; exact hx⟩
    · rw [hother ci hne] at hq
      exact .inr ⟨ci, hci, b', hb', q, hq, hx⟩
  · intro h
    cases h with
    | inl h =>
      obtain ⟨k, hk, hx⟩ := h
      exact ⟨c, hc, b, hb, pos c + k, by omega, hx⟩
    | inr h =>
      obtain ⟨ci, hci, b', hb', q, hq, hx⟩ := h
      refine ⟨ci, hci, b', hb', q, ?_, hx⟩
      by_cases hne : ci = c
      · rw [hne, hpos]
        rw [hne] at hq
        omega
      · rw [hother ci hne]
        exact hq

/-- A DPU the matrix does not name has no list to load from. -/
theorem lineLoads_skip {d c : Nat} {pos pos' : Nat → Nat} (hnone : sgPtr (d * 8 + c) = none)
    (hother : ∀ cj, cj ≠ c → pos' cj = pos cj) (x : Nat) : LineLoads p sgPtr d pos' x ↔ LineLoads p sgPtr d pos x := by
  refine exists_congr fun ci => and_congr_right fun _ => exists_congr fun b => and_congr_right fun hb => ?_
  have hne : ci ≠ c := fun e => by rw [e, hnone] at hb; cases hb
  rw [hother ci hne]

theorem lineLoads_congr {d : Nat} {pos pos' : Nat → Nat} (hpos : ∀ ci < p.nbCis, pos' ci = pos ci) (x : Nat) :
    LineLoads p sgPtr d pos' x ↔ LineLoads p sgPtr d pos x := by
  refine exists_congr fun ci => and_congr_right fun hci => ?_
  rw [hpos ci hci]

/-! ## Writing -/

/-- What the iterators visit. -/
def sgStream (host : Mem UInt8) (b : SgXferBuffer) (q : Nat) : UInt8 := b.streamByte host q

/-- On line `d`, before which the log of loads was `log`, the iterators stand at `pos` and have loaded
what comes before. -/
structure Gathering (p : XeonSpPrivate) (sgPtr : Nat → Option SgXferBuffer) (log : List (Nat × Nat)) (d : Nat)
    (pos : Nat → Nat) (s : XferState) (its : SgIterators) : Prop where
  iters : ItersAt (At p.zeros) p.nbCis sgPtr (d * 8) pos its
  loads : ∀ x, Covered s.blockLoads x ↔ Covered log x ∨ LineLoads p sgPtr d pos x

/-- Storing a cache line of the region loads nothing through the lists. -/
theorem Gathering.storeRegion {log : List (Nat × Nat)} {d : Nat} {pos : Nat → Nat} {s : XferState} {its : SgIterators}
    (h : Gathering p sgPtr log d pos s its) (a : Nat) (l : Line) : Gathering p sgPtr log d pos (s.storeRegion a l) its :=
  ⟨h.iters, h.loads⟩

section Write

variable {host host' : Mem UInt8} (hv : p.Valid) (hvalid : ∀ k b, sgPtr k = some b → b.Valid)
  (hzeros : ∀ z < 4096, host (p.zeros + z) = 0) (hsame : SameDpus sgPtr ptr)
  (hhold : BuffersHold p sgPtr ptr host' (sgStream host))

include hv hvalid hzeros hsame hhold in
/-- Word `i` taken from the iterators is word `i` of the flat buffers. -/
theorem gatherSg_sim {log : List (Nat × Nat)} {d i : Nat} (hd : d < p.nbDpusPerCi) (hi : i < p.words) (cl : Line)
    {s : XferState} {its : SgIterators} (hhost : s.host = host) (h : Gathering p sgPtr log d (fun _ => 8 * i) s its) :
    (gatherSg p.nbCis (s, cl, its)).1 = { s with blockLoads := (gatherSg p.nbCis (s, cl, its)).1.blockLoads } ∧
      (gatherSg p.nbCis (s, cl, its)).2.1 = gatherFlat p.nbCis host' ptr (d * 8) i cl ∧
      Gathering p sgPtr log d (fun _ => 8 * (i + 1)) (gatherSg p.nbCis (s, cl, its)).1
        (gatherSg p.nbCis (s, cl, its)).2.2 := by
  have h32 := hv.size32
  unfold XeonSpPrivate.words at hi
  have hsim : (gatherSg p.nbCis (s, cl, its)).1 = { s with blockLoads := (gatherSg p.nbCis (s, cl, its)).1.blockLoads } ∧
      (gatherSg p.nbCis (s, cl, its)).2.1 = gatherFlat p.nbCis host' ptr (d * 8) i cl ∧
      Gathering p sgPtr log d (servedPos i p.nbCis) (gatherSg p.nbCis (s, cl, its)).1
        (gatherSg p.nbCis (s, cl, its)).2.2 := by
    unfold gatherSg gatherFlat
    refine foldl_range_rel (R := fun c (st : XferState × Line × SgIterators) (cl' : Line) =>
      st.1 = { s with blockLoads := st.1.blockLoads } ∧ st.2.1 = cl' ∧
        Gathering p sgPtr log d (servedPos i c) st.1 st.2.2) p.nbCis
      ⟨rfl, rfl, by rw [servedPos_zero]; exact h⟩ ?_
    -- one DPU: its iterator moves by a word, the others stand where they were
    intro c hc ⟨s₁, cl₁, its₁⟩ cl₂ ⟨hlogged, hcl, hits, hloads⟩
    simp only at hlogged hcl hits hloads ⊢
    subst hcl
    cases hb : sgPtr (d * 8 + c) with
    | none =>
      have hp : ¬ptr (d * 8 + c) ≠ 0 := fun hp => by simpa [hb] using (hsame _).mp hp
      rw [if_neg hp, (hits c hc).2 hb]
      refine ⟨hlogged, rfl, hits.skip hb fun cj hne => servedPos_other i hne, fun x => ?_⟩
      rw [lineLoads_skip hb fun cj hne => servedPos_other i hne]
      exact hloads x
    | some b =>
      have hp : ptr (d * 8 + c) ≠ 0 := (hsame _).mpr (by simp [hb])
      obtain ⟨it, hit, hat⟩ := (hits c hc).1 b hb
      have hpos : servedPos i c c = 8 * i := by simp [servedPos]
      have hhost₁ : s₁.host = host := by rw [hlogged]; exact hhost
      obtain ⟨hword, htaken, hnext⟩ := hat.getNextEightBytes (hvalid _ b hb) (by rw [hpos]; omega) s₁
        (by rw [hhost₁]; exact hzeros)
      rw [if_pos hp, hit]
      refine ⟨?_, ?_, hits.update hb (by rw [servedPos_self]; exact hnext) fun cj hne => servedPos_other i hne, ?_⟩
      · rw [htaken.logged, hlogged]
      · simp only [hword, hpos, hhost₁]
        congr 1
        funext k
        rw [load_apply, Nat.add_assoc]
        exact (hhold d c b hd hc hb (8 * i + k) (by omega)).symm
      · intro x
        rw [htaken.loaded x, hloads x,
          lineLoads_next hc hb (servedPos_self i c) (fun cj hne => servedPos_other i hne) x]
        exact or_left_comm
  refine ⟨hsim.1, hsim.2.1, hsim.2.2.iters.served, fun x => ?_⟩
  rw [hsim.2.2.loads x, lineLoads_congr (fun ci hci => ?_)]
  exact if_pos hci

/-- The two transfers have written the same region, from their own host memories. -/
def SameRegion (host host' : Mem UInt8) (s s' : XferState) : Prop :=
  s.region = s'.region ∧ s.host = host ∧ s'.host = host'

theorem SameRegion.storeRegion {host host' : Mem UInt8} {s s' : XferState} (h : SameRegion host host' s s')
    (a : Nat) (l : Line) : SameRegion host host' (s.storeRegion a l) (s'.storeRegion a l) := by
  obtain ⟨hr, hh, hh'⟩ := h
  exact ⟨by rw [storeRegion_region, storeRegion_region, hr], by rw [storeRegion_host, hh],
    by rw [storeRegion_host, hh']⟩

theorem writeSgWord_eq (nbCis dest offset i : Nat) (st : XferState × Line × SgIterators) :
    writeSgWord nbCis dest offset st i =
      ((gatherSg nbCis st).1.storeRegion (dest + lineOffset i offset) (byteInterleaveAvx512 (gatherSg nbCis st).2.1),
        (gatherSg nbCis st).2.1, (gatherSg nbCis st).2.2) := by
  unfold writeSgWord
  generalize gatherSg nbCis st = gathered
  rfl

include hv hvalid hzeros hsame hhold in
/-- A line written from its lists is the line written from the flat buffers, and what it loads is what
the iterators visit. -/
theorem writeDpuLine_lists (hb : p.xferMatrix.buffers = .sgPtr sgPtr) {d : Nat} (hd : d < p.nbDpusPerCi)
    (hp : doDpuTransfer p (d * 8) = true) {st st' : XferState × Line}
    (hheld : ∀ ci < p.nbCis, ∀ b, sgPtr (d * 8 + ci) = some b → st.1.lists (d * 8 + ci) = b)
    (hregion : SameRegion host host' st.1 st'.1) (hcl : st.2 = st'.2) :
    SameRegion host host' (writeDpuLine p st d).1 (writeDpuLine (p.flat ptr) st' d).1 ∧
      (writeDpuLine p st d).2 = (writeDpuLine (p.flat ptr) st' d).2 ∧
      ∀ x, Covered (writeDpuLine p st d).1.blockLoads x ↔
        Covered st.1.blockLoads x ∨ LineLoads p sgPtr d (fun _ => 8 * p.words) x := by
  rw [writeDpuLine_sg hb st hp, writeDpuLine_flat (p := p.flat ptr) rfl st' (by rw [doDpuTransfer_flat hb hsame, hp])]
  have hspec : PadsFrom p.zeros sgPtr (d * 8) p.nbCis st.1 (initSgIterators p.nbCis p.zeros sgPtr (d * 8) st.1).1 ∧
      ItersAt (At p.zeros) p.nbCis sgPtr (d * 8) (fun _ => 0) (initSgIterators p.nbCis p.zeros sgPtr (d * 8) st.1).2 :=
    initSgIterators_spec (At p.zeros) fun ci hci b hbk s' hs' =>
      at_init p.zeros (hs'.trans (hheld ci hci b hbk)) (hvalid _ b hbk)
  obtain ⟨hpads, hits⟩ := hspec
  generalize initSgIterators p.nbCis p.zeros sgPtr (d * 8) st.1 = init at hpads hits ⊢
  have hinit : SameRegion host host' init.1 st'.1 ∧ init.1.blockLoads = st.1.blockLoads := by
    rw [hpads.rest]
    exact ⟨hregion, rfl⟩
  have hsim := foldl_range_rel (R := fun i (t : XferState × Line × SgIterators) (t' : XferState × Line) =>
      SameRegion host host' t.1 t'.1 ∧ t.2.1 = t'.2 ∧
        Gathering p sgPtr st.1.blockLoads d (fun _ => 8 * i) t.1 t.2.2)
    (f := writeSgWord p.nbCis (bankStart d) p.xferMatrix.offset)
    (g := writeFlatWord p.nbCis ptr (bankStart d) p.xferMatrix.offset (d * 8))
    (s := (init.1, st.2, init.2)) (t := st') p.words ⟨hinit.1, hcl, hits, fun x => ?_⟩ ?_
  · exact ⟨hsim.1, hsim.2.1, hsim.2.2.loads⟩
  · rw [hinit.2]
    exact ⟨.inl, fun h => h.elim id fun hx => absurd hx lineLoads_zero⟩
  · intro i hi ⟨s, cl, its⟩ ⟨s', cl'⟩ ⟨hs, hcl, hgathering⟩
    simp only at hs hcl hgathering
    subst hcl
    have hgather := gatherSg_sim hv hvalid hzeros hsame hhold hd hi cl hs.2.1 hgathering
    rw [writeSgWord_eq]
    generalize gatherSg p.nbCis (s, cl, its) = gathered at hgather ⊢
    obtain ⟨hlogged, hline, hnext⟩ := hgather
    have hsg : SameRegion host host' gathered.1 s' := by
      rw [hlogged]
      exact hs
    simp only [writeFlatWord, hs.2.2, hline]
    exact ⟨hsg.storeRegion _ _, trivial, hnext.storeRegion _ _⟩

/-- Both transfers with the lines of `rest` still to come: the regions are the same, the lists of these
lines are still as the matrix has them, and the other lines have loaded what their iterators visit. -/
structure WriteSim (p : XeonSpPrivate) (sgPtr : Nat → Option SgXferBuffer) (host host' : Mem UInt8) (rest : List Nat)
    (s s' : XferState) : Prop where
  lines : ∀ d ∈ rest, d < p.nbDpusPerCi
  nodup : rest.Nodup
  region : SameRegion host host' s s'
  held : ∀ d ∈ rest, ∀ ci < p.nbCis, ∀ b, sgPtr (d * 8 + ci) = some b → s.lists (d * 8 + ci) = b
  loads : ∀ x, Covered s.blockLoads x ↔
    ∃ d < p.nbDpusPerCi, d ∉ rest ∧ LineLoads p sgPtr d (fun _ => 8 * p.words) x

/-- The lines served, once one more is. -/
theorem loads_cons {A : Nat → Prop} {d n : Nat} {rest : List Nat} (hd : d < n) (hnew : d ∉ rest) :
    ((∃ d' < n, d' ∉ d :: rest ∧ A d') ∨ A d) ↔ ∃ d' < n, d' ∉ rest ∧ A d' := by
  constructor
  · intro h
    cases h with
    | inl h =>
      obtain ⟨d', hd', hmem, ha⟩ := h
      exact ⟨d', hd', fun h => hmem (List.mem_cons_of_mem d h), ha⟩
    | inr ha => exact ⟨d, hd, hnew, ha⟩
  · intro ⟨d', hd', hmem, ha⟩
    by_cases he : d' = d
    · rw [he] at ha
      exact .inr ha
    · exact .inl ⟨d', hd', fun h => (List.mem_cons.mp h).elim he hmem, ha⟩

include hv hvalid hzeros hsame hhold in
/-- One line served by both transfers. -/
theorem WriteSim.line (hb : p.xferMatrix.buffers = .sgPtr sgPtr) (hdir : p.direction = .write) {d : Nat}
    {rest : List Nat} {st st' : XferState × Line} (h : WriteSim p sgPtr host host' (d :: rest) st.1 st'.1)
    (hcl : st.2 = st'.2) :
    WriteSim p sgPtr host host' rest (writeDpuLine p st d).1 (writeDpuLine (p.flat ptr) st' d).1 ∧
      (writeDpuLine p st d).2 = (writeDpuLine (p.flat ptr) st' d).2 := by
  have hd := h.lines d List.mem_cons_self
  obtain ⟨hnew, hnodup⟩ := List.nodup_cons.mp h.nodup
  have hlines : ∀ d' ∈ rest, d' < p.nbDpusPerCi := fun d' hd' => h.lines d' (List.mem_cons_of_mem d hd')
  -- the lists of the other lines stay as they are
  have hheld : ∀ d' ∈ rest, ∀ ci < p.nbCis, ∀ b, sgPtr (d' * 8 + ci) = some b →
      (writeDpuLine p st d).1.lists (d' * 8 + ci) = b := by
    intro d' hd' ci hci b hbk
    have hcis := hv.cis
    have hne : ¬(d' * 8 + ci) / 8 = d := fun e => hnew (by rw [← e]; rwa [show (d' * 8 + ci) / 8 = d' by omega])
    rw [((LineStep.write st.2 st.1 hdir).pads hv.cis hb).lists, if_neg fun hc => hne hc.1]
    exact h.held d' (List.mem_cons_of_mem d hd') ci hci b hbk
  suffices hline : SameRegion host host' (writeDpuLine p st d).1 (writeDpuLine (p.flat ptr) st' d).1 ∧
      (writeDpuLine p st d).2 = (writeDpuLine (p.flat ptr) st' d).2 ∧
      ∀ x, Covered (writeDpuLine p st d).1.blockLoads x ↔
        Covered st.1.blockLoads x ∨ LineLoads p sgPtr d (fun _ => 8 * p.words) x by
    refine ⟨⟨hlines, hnodup, hline.1, hheld, fun x => ?_⟩, hline.2.1⟩
    rw [hline.2.2 x, h.loads x]
    exact loads_cons hd hnew
  cases hp : doDpuTransfer p (d * 8) with
  | false =>
    rw [writeDpuLine_not st hp, writeDpuLine_not st' (by rw [doDpuTransfer_flat hb hsame, hp])]
    refine ⟨h.region, hcl, fun x => ⟨.inl, fun hx => hx.elim id ?_⟩⟩
    intro ⟨ci, hci, b, hbk, _⟩
    have hany : p.takesPart d := takesPart_of_named hd hci (by simp [hb, XferBuffers.named, hbk])
    exact absurd (hp.symm.trans hany.2) Bool.false_ne_true
  | true =>
    exact writeDpuLine_lists hv hvalid hzeros hsame hhold hb hd hp (h.held d List.mem_cons_self) h.region hcl

include hv hvalid hzeros hsame hhold in
/-- A scatter/gather write, in any order of the threads, leaves the region as the flat write of the
bytes its iterators visit, and loads these bytes. -/
theorem runThreads_sgWrite (hb : p.xferMatrix.buffers = .sgPtr sgPtr) (hdir : p.direction = .write)
    (stack : Nat → Line) {order : List Nat} (hnodup : order.Nodup) (horder : ∀ t < p.nbThreadsForXfer, t ∈ order)
    {s s' : XferState} (hfinds : Finds sgPtr s) (hloads : s.blockLoads = []) (h : SameRegion host host' s s') :
    SameRegion host host' (runThreads p stack order s) (runThreads (p.flat ptr) stack order s') ∧
      ∀ x, Covered (runThreads p stack order s).blockLoads x ↔
        ∃ d < p.nbDpusPerCi, LineLoads p sgPtr d (fun _ => 8 * p.words) x := by
  by_cases hsize : p.xferMatrix.size = 0
  · have hwords : 8 * p.words = 8 * 0 := by rw [XeonSpPrivate.words, hsize]
    rw [runThreads_empty hsize, runThreads_empty (p := p.flat ptr) hsize, hwords, hloads]
    refine ⟨h, fun x => iff_of_false (not_covered_nil x) fun hx => ?_⟩
    obtain ⟨d, -, hline⟩ := hx
    exact lineLoads_zero hline
  have hstart : WriteSim p sgPtr host host' (servedLines p (order ++ [])) s s' := by
    rw [List.append_nil]
    refine ⟨fun d hd => servedLines_lt hd, servedLines_nodup hv.threads hnodup, h,
      fun d _ ci _ b hbk => hfinds _ b hbk, fun x => ?_⟩
    rw [hloads]
    refine iff_of_false (not_covered_nil x) fun hx => ?_
    obtain ⟨d, hd, hmem, -⟩ := hx
    exact hmem (servedLines_all hv.threads horder hd)
  have hend := foldl_rel_rest (R := fun rest s s' => WriteSim p sgPtr host host' (servedLines p rest) s s')
    (f := fun s t => threadDoMramXfer p (stack t) t s) (g := fun s t => threadDoMramXfer (p.flat ptr) (stack t) t s)
    ?_ order [] hstart
  · refine ⟨hend.region, fun x => (hend.loads x).trans ?_⟩
    have hdone : ∀ d, d ∉ servedLines p [] := fun d => List.not_mem_nil
    simp only [hdone, not_false_eq_true, true_and]
  · -- one thread: its lines one after the other, then those of the threads still to come
    intro t rest s s' hsim
    change WriteSim p sgPtr host host' ((if t < p.nbThreadsForXfer then threadLines p t else []) ++ servedLines p rest)
      s s' at hsim
    by_cases ht : t < p.nbThreadsForXfer
    · rw [if_pos ht] at hsim
      rw [threadDoMramXfer_write hdir ht hsize, threadDoMramXfer_write (p := p.flat ptr) hdir ht hsize]
      refine (foldl_rel_rest (R := fun rest (st st' : XferState × Line) =>
        WriteSim p sgPtr host host' rest st.1 st'.1 ∧ st.2 = st'.2) (s := (s, stack t)) (t := (s', stack t))
        ?_ (threadLines p t) (servedLines p rest) ⟨hsim, rfl⟩).1
      intro d rest st st' hst
      exact hst.1.line hv hvalid hzeros hsame hhold hb hdir hst.2
    · rw [if_neg ht] at hsim
      rw [threadDoMramXfer_idle ht, threadDoMramXfer_idle (p := p.flat ptr) ht]
      exact hsim

end Write

/-! ## When a write is the flat write of the padded concatenation -/

/-- A scatter/gather write leaves the MRAM as the flat write of the blocks'
concatenation, truncated or padded with zeros, would; and it gets that far, loading only from
addresses that are `mapped`. -/
structure SgWriteRefines (p : XeonSpPrivate) (ptr : Nat → Nat) (mapped : Nat → Prop) (stack : Nat → Line)
    (order : List Nat) (s s' : XferState) : Prop where
  region : (runThreads p stack order s).region = (runThreads (p.flat ptr) stack order s').region
  loads : ∀ x, Covered (runThreads p stack order s).blockLoads x → mapped x

/-- No empty list is named whose stale first entry cannot be read, or shows a byte other than
zero, in the range. -/
def StaleEntriesZero (p : XeonSpPrivate) (sgPtr : Nat → Option SgXferBuffer) (mapped : Nat → Prop) (host : Mem UInt8) :
    Prop :=
  ∀ d ci b, d < p.nbDpusPerCi → ci < p.nbCis → sgPtr (d * 8 + ci) = some b → b.nrBlocks = 0 →
    ∀ q < p.xferMatrix.size,
      mapped (b.blocksAddr 0 + q % b.blocksLength 0) ∧ host (b.blocksAddr 0 + q % b.blocksLength 0) = 0

/-- The blocks of the named DPUs and the padding block can be read. -/
structure BlocksMapped (p : XeonSpPrivate) (sgPtr : Nat → Option SgXferBuffer) (mapped : Nat → Prop) : Prop where
  blocks : ∀ d ci b, d < p.nbDpusPerCi → ci < p.nbCis → sgPtr (d * 8 + ci) = some b → ∀ a ∈ b.addresses, mapped a
  zeros : ∀ z < 4096, mapped (p.zeros + z)

/-- The iterator's bytes are the padded concatenation's where the list is not empty. -/
theorem streamByte_nonempty {b : SgXferBuffer} (h : b.nrBlocks ≠ 0) (host : Mem UInt8) (q : Nat) :
    b.streamByte host q = b.paddedByte host q := if_neg h

theorem streamByte_empty {b : SgXferBuffer} (h : b.nrBlocks = 0) (host : Mem UInt8) (q : Nat) :
    b.streamByte host q = host (b.blocksAddr 0 + q % b.blocksLength 0) := if_pos h

theorem paddedByte_empty {b : SgXferBuffer} (h : b.nrBlocks = 0) (host : Mem UInt8) (q : Nat) :
    b.paddedByte host q = 0 := by
  simp [SgXferBuffer.paddedByte, addresses_nil h]

/-- Buffers for the bytes the iterators visit, one every 2^32 bytes. -/
def streamPtr (sgPtr : Nat → Option SgXferBuffer) (k : Nat) : Nat :=
  if (sgPtr k).isSome then (k + 1) * 2 ^ 32 else 0

def streamHost (sgPtr : Nat → Option SgXferBuffer) (host : Mem UInt8) : Mem UInt8 := fun x =>
  match sgPtr (x / 2 ^ 32 - 1) with
  | some b => b.streamByte host (x % 2 ^ 32)
  | none => 0

theorem streamPtr_same : SameDpus sgPtr (streamPtr sgPtr) := by
  intro k
  unfold streamPtr
  split
  · next h => exact ⟨fun _ => h, fun _ => by omega⟩
  · next h => exact ⟨fun e => absurd rfl e, fun e => absurd e h⟩

theorem streamPtr_hold (hv : p.Valid) (host : Mem UInt8) :
    BuffersHold p sgPtr (streamPtr sgPtr) (streamHost sgPtr host) (sgStream host) := by
  intro d ci b _ _ hb q hq
  have h32 := hv.size32
  have hptr : streamPtr sgPtr (d * 8 + ci) = (d * 8 + ci + 1) * 2 ^ 32 := by simp [streamPtr, hb]
  have hdiv : ((d * 8 + ci + 1) * 2 ^ 32 + q) / 2 ^ 32 - 1 = d * 8 + ci := by omega
  have hmod : ((d * 8 + ci + 1) * 2 ^ 32 + q) % 2 ^ 32 = q := by omega
  simp only [hptr, streamHost, hdiv, hmod, hb, sgStream]

theorem streamRegion (sgPtr : Nat → Option SgXferBuffer) (s : XferState) :
    SameRegion s.host (streamHost sgPtr s.host) s { s with host := streamHost sgPtr s.host } := ⟨rfl, rfl, rfl⟩

/-- What a flat write put in the region for one byte of one DPU. -/
theorem Written.byte {host : Mem UInt8} {s : XferState} {d ci q : Nat} (h : Written p host ptr d (q / 8) s)
    (hci : ci < p.nbCis) (hp : ptr (d * 8 + ci) ≠ 0) :
    (byteInterleaveAvx2 (s.region.load (p.wordLine d (q / 8)) 64)).word ci ⟨q % 8, Nat.mod_lt q (by decide)⟩ =
      host (ptr (d * 8 + ci) + q) := by
  have hbyte := congrFun (h.words ci hci hp) ⟨q % 8, Nat.mod_lt q (by decide)⟩
  rw [load_apply] at hbyte
  rw [hbyte, Nat.add_assoc, Nat.div_add_mod]

/-- Where a list with blocks is loaded from: the blocks and the padding block. -/
theorem streamAddr_mapped {mapped : Nat → Prop} (hmapped : BlocksMapped p sgPtr mapped) {d ci : Nat} {b : SgXferBuffer}
    (hd : d < p.nbDpusPerCi) (hci : ci < p.nbCis) (hbk : sgPtr (d * 8 + ci) = some b) (h : b.nrBlocks ≠ 0) (q : Nat) :
    mapped (b.streamAddr p.zeros q) := by
  unfold SgXferBuffer.streamAddr
  rw [if_neg h]
  split
  · next a ha => exact hmapped.blocks d ci b hd hci hbk a (List.mem_of_getElem? ha)
  · exact hmapped.zeros _ (Nat.mod_lt _ (by decide))

theorem streamAddr_empty {b : SgXferBuffer} (h : b.nrBlocks = 0) (zeros q : Nat) :
    b.streamAddr zeros q = b.blocksAddr 0 + q % b.blocksLength 0 := if_pos h

/-- Where no stale entry is in the way, all that the iterators visit can be read. -/
theorem LineLoads.mapped {mapped : Nat → Prop} {host : Mem UInt8} (hmapped : BlocksMapped p sgPtr mapped)
    (hstale : StaleEntriesZero p sgPtr mapped host) (h8 : 8 ∣ p.xferMatrix.size) {d x : Nat} (hd : d < p.nbDpusPerCi)
    (h : LineLoads p sgPtr d (fun _ => 8 * p.words) x) : mapped x := by
  obtain ⟨ci, hci, b, hbk, q, hq, haddr⟩ := h
  have hwords : 8 * p.words = p.xferMatrix.size := by unfold XeonSpPrivate.words; omega
  rw [haddr]
  by_cases h0 : b.nrBlocks = 0
  · rw [streamAddr_empty h0]
    exact (hstale d ci b hd hci hbk h0 q (hwords ▸ hq)).1
  · exact streamAddr_mapped hmapped hd hci hbk h0 q

section Refines

variable (hv : p.Valid) (hb : p.xferMatrix.buffers = .sgPtr sgPtr) (hdir : p.direction = .write)
  (hvalid : ∀ k b, sgPtr k = some b → b.Valid) (stack : Nat → Line) {order : List Nat} (hnodup : order.Nodup)
  (horder : ∀ t < p.nbThreadsForXfer, t ∈ order) {s s' : XferState} (hfinds : Finds sgPtr s)
  (hloads : s.blockLoads = []) (hzeros : ∀ z < 4096, s.host (p.zeros + z) = 0)

include hv hb hdir hvalid hnodup horder hfinds hloads hzeros in
/-- A write leaves the host's bytes alone, and loads what its iterators visit. -/
theorem runThreads_sgWrite_loads : (runThreads p stack order s).host = s.host ∧
    ∀ x, Covered (runThreads p stack order s).blockLoads x ↔
      ∃ d < p.nbDpusPerCi, LineLoads p sgPtr d (fun _ => 8 * p.words) x := by
  have hsim := runThreads_sgWrite hv hvalid hzeros streamPtr_same (streamPtr_hold hv s.host) hb hdir stack hnodup horder
    hfinds hloads (streamRegion sgPtr s)
  exact ⟨hsim.1.2.1, hsim.2⟩

include hv hb hdir hvalid hnodup horder hfinds hloads hzeros in
/-- What a scatter/gather write put in the region for one byte of one DPU. -/
theorem runThreads_sgWrite_byte {d ci q : Nat} {b : SgXferBuffer} (hd : d < p.nbDpusPerCi) (hci : ci < p.nbCis)
    (hbk : sgPtr (d * 8 + ci) = some b) (hq : q < p.xferMatrix.size) :
    (byteInterleaveAvx2 ((runThreads p stack order s).region.load (p.wordLine d (q / 8)) 64)).word ci
      ⟨q % 8, Nat.mod_lt q (by decide)⟩ = b.streamByte s.host q := by
  have hlift : (runThreads p stack order s).region =
      (runThreads (p.flat (streamPtr sgPtr)) stack order { s with host := streamHost sgPtr s.host }).region :=
    (runThreads_sgWrite hv hvalid hzeros streamPtr_same (streamPtr_hold hv s.host) hb hdir stack hnodup horder hfinds
      hloads (streamRegion sgPtr s)).1.1
  have hsize8 := hv.size8
  have hi : q / 8 < p.words := by unfold XeonSpPrivate.words; omega
  have hp : streamPtr sgPtr (d * 8 + ci) ≠ 0 := (streamPtr_same _).mpr (by simp [hbk])
  have hstream := (runThreads_written (p := p.flat (streamPtr sgPtr)) rfl hdir
    ⟨hv.cis, hv.dpus, hv.offset8, hv.size8, hv.size32, hv.threads⟩ stack horder { s with host := streamHost sgPtr s.host }
    (takesPart_of_named hd hci (by simp [XferBuffers.named, XeonSpPrivate.flat, hp])) hi).byte hci hp
  rw [← hlift] at hstream
  exact hstream.trans (streamPtr_hold hv s.host d ci b hd hci hbk q hq)

include hv hb hdir hvalid hnodup horder hfinds hloads hzeros in
theorem sgWriteRefines_iff {mapped : Nat → Prop} (hmapped : BlocksMapped p sgPtr mapped) (hsame : SameDpus sgPtr ptr)
    (hregion : s.region = s'.region) (hhold : BuffersHold p sgPtr ptr s'.host fun b q => b.paddedByte s.host q) :
    SgWriteRefines p ptr mapped stack order s s' ↔ StaleEntriesZero p sgPtr mapped s.host := by
  have hsize8 := hv.size8
  have hwords : 8 * p.words = p.xferMatrix.size := by unfold XeonSpPrivate.words; omega
  have hload := (runThreads_sgWrite_loads hv hb hdir hvalid stack hnodup horder hfinds hloads hzeros).2
  constructor
  · -- both regions come from flat writes, so equal regions come from equal bytes
    intro hrefines d ci b hd hci hbk h0 q hq
    refine ⟨?_, ?_⟩
    · refine hrefines.loads _ ((hload _).mpr ⟨d, hd, ci, hci, b, hbk, q, by rw [hwords]; exact hq, ?_⟩)
      exact (streamAddr_empty h0 p.zeros q).symm
    · have hi : q / 8 < p.words := by omega
      have hp := (hsame (d * 8 + ci)).mpr (by simp [hbk])
      have hpad := (runThreads_written (p := p.flat ptr) rfl hdir
        ⟨hv.cis, hv.dpus, hv.offset8, hv.size8, hv.size32, hv.threads⟩ stack horder s'
        (takesPart_of_named hd hci (by simp [XferBuffers.named, XeonSpPrivate.flat, hp])) hi).byte hci hp
      have hstream := runThreads_sgWrite_byte hv hb hdir hvalid stack hnodup horder hfinds hloads hzeros hd hci hbk hq
      rw [hrefines.region] at hstream
      calc s.host (b.blocksAddr 0 + q % b.blocksLength 0)
          = b.streamByte s.host q := (streamByte_empty h0 s.host q).symm
        _ = s'.host (ptr (d * 8 + ci) + q) := hstream.symm.trans hpad
        _ = b.paddedByte s.host q := hhold d ci b hd hci hbk q hq
        _ = 0 := paddedByte_empty h0 s.host q
  · -- only the list that is empty sends other bytes than its blocks and zeros
    intro hstale
    refine ⟨?_, fun x hx => ?_⟩
    · refine (runThreads_sgWrite hv hvalid hzeros hsame ?_ hb hdir stack hnodup horder hfinds hloads
        ⟨hregion, rfl, rfl⟩).1.1
      intro d ci b hd hci hbk q hq
      refine (hhold d ci b hd hci hbk q hq).trans ?_
      change b.paddedByte s.host q = b.streamByte s.host q
      by_cases h0 : b.nrBlocks = 0
      · rw [paddedByte_empty h0, streamByte_empty h0, (hstale d ci b hd hci hbk h0 q hq).2]
      · rw [streamByte_nonempty h0]
    · obtain ⟨d, hd, hline⟩ := (hload x).mp hx
      exact hline.mapped hmapped hstale hsize8 hd

end Refines

end DpuBackend.Xeon
