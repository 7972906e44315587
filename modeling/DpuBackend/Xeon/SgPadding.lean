import DpuBackend.Lib.System
import DpuBackend.Xeon.ScatterGather

/-
  The padding block over a run of scatter/gather transfers.

  `zeros` is one static block, shared by the transfers of a process: every iterator puts it
  behind the blocks of its list. A write reads its padding from there. A read is not to
  store there, but `write_next_eight_bytes` looks for the end of the blocks once a word, so a
  list that ends inside a word has the rest of the word stored into `zeros`. What a transfer
  leaves in the lists, their padding entries, the next one finds there, unless the process
  has built them anew. Between the transfers the process and the DPUs may do anything that
  leaves `zeros` alone.
-/

namespace DpuBackend.Xeon

open DpuBackend.Lib DpuBackend.Lib.Mem

/-! ## Stores confined to a set of addresses -/

/-- From `s` to `s'` the host memory is stored to in `A` only. -/
structure StoresIn (A : Nat → Prop) (s s' : XferState) : Prop where
  host : ∀ x, ¬A x → s'.host x = s.host x
  stored : ∀ x, Covered s'.hostStores x → Covered s.hostStores x ∨ A x

section StoresIn

variable {A : Nat → Prop}

theorem StoresIn.refl (s : XferState) : StoresIn A s s := ⟨fun _ _ => rfl, fun _ h => .inl h⟩

theorem StoresIn.trans {s s' s'' : XferState} (h : StoresIn A s s') (h' : StoresIn A s' s'') : StoresIn A s s'' where
  host x hx := (h'.host x hx).trans (h.host x hx)
  stored x hx := (h'.stored x hx).elim (h.stored x) .inr

theorem StoresIn.touch {s s' : XferState} (h : StoresIn A s s') (a : Nat) : StoresIn A s (s'.touch a) :=
  ⟨h.host, h.stored⟩

theorem storesIn_storeHost {n a : Nat} (hA : ∀ k < n, A (a + k)) (s : XferState) (v : Fin n → UInt8) :
    StoresIn A s (s.storeHost a v) where
  host x hx := by
    rw [storeHost_host]
    apply store_outside
    by_contra hin
    unfold Outside at hin
    have hk := hA (x - a) (by omega)
    rw [Nat.add_sub_cancel' (by omega)] at hk
    exact hx hk
  stored x hx := by
    rw [storeHost_hostStores, covered_cons] at hx
    rcases hx with ⟨hlo, hhi⟩ | hold
    · have hk := hA (x - a) (by omega)
      rw [Nat.add_sub_cancel' hlo] at hk
      exact .inr hk
    · exact .inl hold

theorem flushLines_in {s s' : XferState} (h : StoresIn A s s') (dest offset size : Nat) :
    StoresIn A s (flushLines dest offset size s') :=
  List.foldlRecOn _ _ (motive := StoresIn A s) h fun _ hs _ _ => hs.touch _

theorem putBytes_in {it : SgXferBufferIterator} (hA : ∀ k < 8, A (byteAddr it k)) (w : Word) (s : XferState) :
    StoresIn A s ((List.range 8).foldl (putByteStep w) (s, it)).1 ∧
      ((List.range 8).foldl (putByteStep w) (s, it)).2 = advance 8 it := by
  have h : ∀ n ≤ 8, StoresIn A s ((List.range n).foldl (putByteStep w) (s, it)).1 ∧
      ((List.range n).foldl (putByteStep w) (s, it)).2 = advance n it := by
    intro n hn
    refine foldl_range_inv (P := fun n (st : XferState × SgXferBufferIterator) =>
      StoresIn A s st.1 ∧ st.2 = advance n it) n ⟨.refl s, (advance_zero it).symm⟩ ?_
    intro i hi st hst
    refine ⟨hst.1.trans (storesIn_storeHost ?_ _ _), by simp only [putByteStep, hst.2, advance_succ]⟩
    intro k hk
    obtain rfl : k = 0 := by omega
    rw [Nat.add_zero, hst.2]
    exact hA i (by omega)
  exact h 8 (Nat.le_refl 8)

/-- A word stored by `write_next_eight_bytes`, wherever its bytes go. -/
theorem writeNextEightBytes_in {it : SgXferBufferIterator} (h32 : it.currentBlockIndex + 8 < 2 ^ 32)
    (hend : it.blocksAddrPtr ≠ it.blocksAddrPtrEnd) (hA : ∀ k < 8, A (byteAddr it k)) (w : Word) (s : XferState) :
    StoresIn A s (writeNextEightBytes s it w).1 ∧ (writeNextEightBytes s it w).2 = advance 8 it := by
  have hmod : (8 + it.currentBlockIndex) % 2 ^ 32 = 8 + it.currentBlockIndex := Nat.mod_eq_of_lt (by omega)
  have hblock : 8 + it.currentBlockIndex ≤ it.currentBlockLength →
      ∀ k < 8, A (it.currentBlockAddr + it.currentBlockIndex + k) := by
    intro hle k hk
    rw [← byteAddr_inside (by omega) (by omega)]
    exact hA k hk
  simp only [writeNextEightBytes, if_neg hend, hmod]
  split
  · next h =>
    refine ⟨storesIn_storeHost (hblock (by omega)) s w, ?_⟩
    rw [advance_inside 8 (by omega) h32, Nat.mod_eq_of_lt h32]
  · split
    · next h => exact ⟨storesIn_storeHost (hblock (by omega)) s w, (advance_end h h32).symm⟩
    · exact putBytes_in hA w s

end StoresIn

/-! ## A read whose lists end on words -/

section Read

variable {p : XeonSpPrivate} {sgPtr : Nat → Option SgXferBuffer} (hv : p.Valid)
  (hvalid : ∀ k b, sgPtr k = some b → b.Valid) (hends : BlocksEndOnWords p sgPtr)

include hends in
/-- The eight addresses of a word are the caller's. -/
theorem At.byteAddr_target {b : SgXferBuffer} {d ci i : Nat} {it : SgXferBufferIterator} (h : At p.zeros b (8 * i) it)
    (hb : b.Valid) (hd : d < p.nbDpusPerCi) (hci : ci < p.nbCis) (hbk : sgPtr (d * 8 + ci) = some b)
    (hi : 8 * i + 8 ≤ p.xferMatrix.size) (hlt : 8 * i < b.total) (h32 : 8 * i + 8 < 2 ^ 32) :
    ∀ k < 8, Target p sgPtr (byteAddr it k) := by
  intro k hk
  rcases h.byteAddr_cases hb hlt hk h32 with ha | ⟨hge, -, -⟩
  · exact ⟨d, ci, b, 8 * i + k, hd, hci, hbk, by omega, ha⟩
  · have := hends d ci b hd hci hbk (by omega)
    omega

include hv hvalid hends in
/-- One DPU served: stores in its blocks, and its iterator moved. -/
theorem serveStep_in (l : Line) {d i c : Nat} (hd : d < p.nbDpusPerCi) (hi : i < p.words) (hc : c < p.nbCis)
    {st : XferState × SgIterators} (hits : ItersAt (AtRead p.zeros) p.nbCis sgPtr (d * 8) (servedPos i c) st.2) :
    StoresIn (Target p sgPtr) st.1 (serveStep l st c).1 ∧
      ItersAt (AtRead p.zeros) p.nbCis sgPtr (d * 8) (servedPos i (c + 1)) (serveStep l st c).2 := by
  have h32 := hv.size32
  have h8 := hv.size8
  unfold XeonSpPrivate.words at hi
  cases hb : sgPtr (d * 8 + c) with
  | none =>
    have hstep : serveStep l st c = st := by simp only [serveStep, (hits c hc).2 hb]
    rw [hstep]
    exact ⟨.refl _, hits.skip hb fun cj hne => servedPos_other i hne⟩
  | some b =>
    obtain ⟨it, hit, hat⟩ := (hits c hc).1 b hb
    have hpos : servedPos i c c = 8 * i := by simp [servedPos]
    rw [hpos] at hat
    have hserve : StoresIn (Target p sgPtr) st.1 (writeNextEightBytes st.1 it (l.word c)).1 ∧
        AtRead p.zeros b (8 * i + 8) (writeNextEightBytes st.1 it (l.word c)).2 := by
      rcases Nat.lt_or_ge (8 * i) b.total with hlt | hge
      · have hin := hat.before hlt
        have hidx := hin.index_le
        have hend : it.blocksAddrPtr ≠ it.blocksAddrPtrEnd := fun e => by
          have := hin.atEnd_iff.mp e
          omega
        obtain ⟨hst, hnext⟩ := writeNextEightBytes_in (by omega) hend
          (hin.byteAddr_target hends (hvalid _ b hb) hd hc hb (by omega) hlt (by omega)) (l.word c) st.1
        refine ⟨hst, ?_⟩
        rw [hnext]
        exact (hin.advance (hvalid _ b hb) 8 (by omega)).toRead
      · rw [writeNextEightBytes_end (hat.after hge)]
        exact ⟨.refl _, ⟨fun hlt => absurd hlt (by omega), fun _ => hat.after hge⟩⟩
    simp only [serveStep, hit]
    exact ⟨hserve.1, hits.update hb (by rw [servedPos_self, hpos]; exact hserve.2) fun cj hne => servedPos_other i hne⟩

include hv hvalid hends in
theorem readSgWord_in {d i : Nat} (hd : d < p.nbDpusPerCi) (hi : i < p.words) {st : XferState × SgIterators}
    (hits : ItersAt (AtRead p.zeros) p.nbCis sgPtr (d * 8) (fun _ => 8 * i) st.2) :
    StoresIn (Target p sgPtr) st.1 (readSgWord p.nbCis (bankStart d) p.xferMatrix.offset st i).1 ∧
      ItersAt (AtRead p.zeros) p.nbCis sgPtr (d * 8) (fun _ => 8 * (i + 1))
        (readSgWord p.nbCis (bankStart d) p.xferMatrix.offset st i).2 := by
  rw [readSgWord_eq]
  have hrun := foldl_range_inv (P := fun c (st' : XferState × SgIterators) =>
      StoresIn (Target p sgPtr) st.1 st'.1 ∧ ItersAt (AtRead p.zeros) p.nbCis sgPtr (d * 8) (servedPos i c) st'.2)
    (f := serveStep (st.1.loadWords (p.wordLine d i))) (s := (st.1.touch (p.wordLine d i), st.2)) p.nbCis ?_ ?_
  · exact ⟨hrun.1, hrun.2.served⟩
  · refine ⟨(StoresIn.refl _).touch _, ?_⟩
    rw [servedPos_zero]
    exact hits
  · intro c hc st' hst
    obtain ⟨hstores, hnext⟩ := serveStep_in hv hvalid hends (st.1.loadWords (p.wordLine d i)) hd hi hc hst.2
    exact ⟨hst.1.trans hstores, hnext⟩

include hv hvalid hends in
theorem readDpuLine_in (hbuf : p.xferMatrix.buffers = .sgPtr sgPtr) {s₀ s : XferState} (hfinds : Finds sgPtr s₀)
    (hpad : MayPad p sgPtr s₀ s) {d : Nat} (hd : d < p.nbDpusPerCi) : StoresIn (Target p sgPtr) s (readDpuLine p s d) := by
  cases hp : doDpuTransfer p (d * 8)
  · rw [readDpuLine_not hp]
    exact .refl s
  · rw [readDpuLine_sg hbuf hp]
    refine flushLines_in ?_ _ _ _
    have hflush := flushLines_lists (bankStart d) p.xferMatrix.offset p.xferMatrix.size s
    have hflushed : StoresIn (Target p sgPtr) s (flushLines (bankStart d) p.xferMatrix.offset p.xferMatrix.size s) :=
      flushLines_in (.refl s) _ _ _
    generalize flushLines (bankStart d) p.xferMatrix.offset p.xferMatrix.size s = flushed at hflush hflushed ⊢
    obtain ⟨hpads, hits⟩ := readIters hvalid hfinds hpad hflush d
    generalize initSgIterators p.nbCis p.zeros sgPtr (d * 8) flushed = init at hpads hits ⊢
    have hinit : StoresIn (Target p sgPtr) s init.1 := by
      rw [hpads.rest]
      exact ⟨hflushed.host, hflushed.stored⟩
    refine (foldl_range_inv (P := fun i (st : XferState × SgIterators) =>
      StoresIn (Target p sgPtr) s st.1 ∧ ItersAt (AtRead p.zeros) p.nbCis sgPtr (d * 8) (fun _ => 8 * i) st.2)
      p.words ⟨hinit, hits⟩ ?_).1
    intro i hi st hst
    obtain ⟨hstores, hnext⟩ := readSgWord_in hv hvalid hends hd hi hst.2
    exact ⟨hst.1.trans hstores, hnext⟩

include hv hvalid hends in
/-- A read whose lists end on words stores in the caller's blocks only. -/
theorem runThreads_in (hbuf : p.xferMatrix.buffers = .sgPtr sgPtr) (hdir : p.direction = .read)
    (stack : Nat → Line) (order : List Nat) {s : XferState} (hfinds : Finds sgPtr s) :
    StoresIn (Target p sgPtr) s (runThreads p stack order s) := by
  by_cases hsize : p.xferMatrix.size = 0
  · rw [runThreads_empty hsize]
    exact .refl s
  refine (runThreads_inv (I := fun s' => MayPad p sgPtr s s' ∧ StoresIn (Target p sgPtr) s s') ?_ stack order
    ⟨.refl s, .refl s⟩).2
  intro d hd s₁ s₂ hstep ⟨hpad, hin⟩
  refine ⟨hpad.line hsize hd (hstep.pads hv.cis hbuf), ?_⟩
  cases hstep with
  | write _ _ hwrite => rw [hdir] at hwrite; cases hwrite
  | read _ _ => exact hin.trans (readDpuLine_in hv hvalid hends hbuf hfinds hpad hd)

end Read

/-! ## Runs of transfers -/

/-- A scatter/gather transfer: what the pool gets, what its threads' stacks hold, the
order in which they run, and the addresses the process can read. -/
structure SgXfer where
  p : XeonSpPrivate
  sgPtr : Nat → Option SgXferBuffer
  stack : Nat → Line
  order : List Nat
  mapped : Nat → Prop

/-- A transfer of the process whose padding block is at `zeros`; the caller's blocks are
the caller's own. -/
structure SgXfer.Valid (t : SgXfer) (zeros : Nat) : Prop where
  buffers : t.p.xferMatrix.buffers = .sgPtr t.sgPtr
  valid : t.p.Valid
  lists : ∀ k b, t.sgPtr k = some b → b.Valid
  zeros_eq : t.p.zeros = zeros
  outside : ∀ x, Target t.p t.sgPtr x → Outside zeros 4096 x
  readable : BlocksMapped t.p t.sgPtr t.mapped
  pool : t.p.nbThreadsForXfer ≤ t.p.nbThreads
  threads : t.order.Perm (List.range t.p.nbThreads)

/-- The state after the transfer; the logs are its own. -/
def SgXfer.after (t : SgXfer) (s : XferState) : XferState :=
  runThreads t.p t.stack t.order (.start s.host s.region s.lists)

def PaddingZero (zeros : Nat) (host : Mem UInt8) : Prop := ∀ z < 4096, host (zeros + z) = 0

/-- What a write puts behind the blocks of a DPU is zero, and it reads nothing that it cannot. -/
def SgXfer.PadsWithZeros (t : SgXfer) (s : XferState) : Prop :=
  t.p.direction = .write →
    (∀ d ci b q, d < t.p.nbDpusPerCi → ci < t.p.nbCis → t.sgPtr (d * 8 + ci) = some b →
      b.total ≤ q → q < t.p.xferMatrix.size → mramByte t.p (t.after s).region d ci q = 0) ∧
    ∀ x, Covered (t.after s).blockLoads x → t.mapped x

/-- Of the lists, a transfer stores to the padding entries of those it serves. -/
def SgXfer.StoresPaddingEntries (t : SgXfer) (s : XferState) : Prop :=
  ∀ k j, (k, j) ∈ (t.after s).listStores ↔ PaddingEntry t.p t.sgPtr k j

/-- Of the host's bytes, a read stores to those of the caller's blocks only. -/
def SgXfer.StoresInBlocks (t : SgXfer) (s : XferState) : Prop :=
  t.p.direction = .read → ∀ x, ¬Target t.p t.sgPtr x →
    ¬Covered (t.after s).hostStores x ∧ (t.after s).host x = s.host x

/-- The condition: no read has a list that is shorter than the transfer and ends inside a
word, and no write an empty list whose stale first entry cannot be read or shows a byte
other than zero. -/
def SgXfer.EndsOnWords (t : SgXfer) (s : XferState) : Prop :=
  match t.p.direction with
  | .read => BlocksEndOnWords t.p t.sgPtr
  | .write => StaleEntriesZero t.p t.sgPtr t.mapped s.host

inductive SgEvent where
  | xfer (t : SgXfer)
  /-- Anything else that leaves the padding block alone. -/
  | other

/-- The transfers of a process, from its start on; a transfer's matrix points to the lists
in memory. -/
def sgSystem (zeros : Nat) : System XferState SgEvent where
  init s := PaddingZero zeros s.host
  step s e s' :=
    match e with
    | .xfer t => t.Valid zeros ∧ Finds t.sgPtr s ∧ s' = t.after s
    | .other => ∀ z < 4096, s'.host (zeros + z) = s.host (zeros + z)

def SgEvent.EndsOnWords (s : XferState) : SgEvent → Prop
  | .xfer t => t.EndsOnWords s
  | .other => True

section Runs

variable {zeros : Nat} {t : SgXfer} {s : XferState}

theorem SgXfer.storesInBlocks (ht : t.Valid zeros) (hfinds : Finds t.sgPtr s) (hok : t.EndsOnWords s) :
    t.StoresInBlocks s := by
  intro hdir x hx
  have hends : BlocksEndOnWords t.p t.sgPtr := by
    unfold SgXfer.EndsOnWords at hok
    rw [hdir] at hok
    exact hok
  have hin := runThreads_in ht.valid ht.lists hends ht.buffers hdir t.stack t.order
    (s := .start s.host s.region s.lists) hfinds
  refine ⟨fun hst => ?_, hin.host x hx⟩
  exact (hin.stored x hst).elim (not_covered_nil x) hx

theorem SgXfer.storesPaddingEntries (ht : t.Valid zeros) (hfinds : Finds t.sgPtr s) : t.StoresPaddingEntries s :=
  (runThreads_padsLists ht.valid ht.buffers t.stack (fun _ hk => mem_order ht.pool ht.threads hk)
    (.start s.host s.region s.lists)).stored_iff hfinds rfl

section Write

variable (ht : t.Valid zeros) (hdir : t.p.direction = .write) (hfinds : Finds t.sgPtr s) (hz : PaddingZero zeros s.host)

include ht hdir hfinds hz in
theorem SgXfer.after_write : (t.after s).host = s.host ∧ ∀ x, Covered (t.after s).blockLoads x ↔
    ∃ d < t.p.nbDpusPerCi, LineLoads t.p t.sgPtr d (fun _ => 8 * t.p.words) x :=
  runThreads_sgWrite_loads ht.valid ht.buffers hdir ht.lists t.stack (ht.threads.nodup_iff.mpr List.nodup_range)
    (fun _ hk => mem_order ht.pool ht.threads hk) (s := .start s.host s.region s.lists) hfinds rfl (ht.zeros_eq ▸ hz)

include ht hfinds hz in
theorem SgXfer.padsWithZeros (hok : t.EndsOnWords s) : t.PadsWithZeros s := by
  intro hdir
  have hstale : StaleEntriesZero t.p t.sgPtr t.mapped s.host := by
    unfold SgXfer.EndsOnWords at hok
    rw [hdir] at hok
    exact hok
  constructor
  · intro d ci b q hd hci hb hge hq
    have hbyte := runThreads_sgWrite_byte ht.valid ht.buffers hdir ht.lists t.stack
      (ht.threads.nodup_iff.mpr List.nodup_range) (fun _ hk => mem_order ht.pool ht.threads hk)
      (s := .start s.host s.region s.lists) hfinds rfl (ht.zeros_eq ▸ hz) hd hci hb hq
    refine hbyte.trans ?_
    by_cases h0 : b.nrBlocks = 0
    · rw [streamByte_empty h0]
      exact (hstale d ci b hd hci hb h0 q hq).2
    · rw [streamByte_nonempty h0, SgXferBuffer.paddedByte, List.getElem?_eq_none hge]
  · intro x hx
    obtain ⟨d, hd, hline⟩ := ((SgXfer.after_write ht hdir hfinds hz).2 x).mp hx
    exact hline.mapped ht.readable hstale ht.valid.size8 hd

end Write

/-- A transfer that meets the condition leaves the padding block as it is. -/
theorem SgXfer.paddingZero (ht : t.Valid zeros) (hfinds : Finds t.sgPtr s) (hok : t.EndsOnWords s)
    (hz : PaddingZero zeros s.host) : PaddingZero zeros (t.after s).host := by
  intro z hlt
  cases hdir : t.p.direction with
  | write => rw [(SgXfer.after_write ht hdir hfinds hz).1]; exact hz z hlt
  | read =>
    have hnot : ¬Target t.p t.sgPtr (zeros + z) := fun hx => by
      have hout := ht.outside _ hx
      unfold Outside at hout
      omega
    rw [(SgXfer.storesInBlocks ht hfinds hok hdir _ hnot).2]
    exact hz z hlt

/-- In every run whose transfers meet the condition the padding block is zero in every state,
the next write pads with zeros, and the next read stores in its caller's blocks only; in the
lists a transfer stores the padding entries and no other. -/
theorem padding_block_stays_zero (h : (sgSystem zeros).Reach (fun s e => e.EndsOnWords s) s) :
    PaddingZero zeros s.host ∧
      ∀ t : SgXfer, t.Valid zeros → Finds t.sgPtr s → t.EndsOnWords s →
        t.PadsWithZeros s ∧ t.StoresInBlocks s ∧ t.StoresPaddingEntries s := by
  have hz : PaddingZero zeros s.host := by
    refine h.invariant (P := fun s => PaddingZero zeros s.host) (fun _ hs => hs) ?_
    intro s e s' hs hok hstep
    cases e with
    | xfer t =>
      obtain ⟨ht, hfinds, rfl⟩ := hstep
      exact SgXfer.paddingZero ht hfinds hok hs
    | other => exact fun z hlt => (hstep z hlt).trans (hs z hlt)
  exact ⟨hz, fun t ht hfinds hok => ⟨SgXfer.padsWithZeros ht hfinds hz hok, SgXfer.storesInBlocks ht hfinds hok,
    SgXfer.storesPaddingEntries ht hfinds⟩⟩

end Runs

/-! ## Samples -/

/-- The transfer of `sgSample` as a transfer of a run. -/
def sgSampleXfer (b : SgXferBuffer) (dir : ThreadMramXfer) : SgXfer where
  p := (sgSample b noBlock).inDirection dir
  sgPtr := sgSamplePtr b noBlock
  stack _ _ := 255
  order := [0, 1]
  mapped := (4096 ≤ ·)

theorem sgSampleXfer_valid {b : SgXferBuffer} (hb : b.Valid) (hout : ∀ a ∈ b.addresses, Outside 65536 4096 a ∧ 4096 ≤ a)
    (dir : ThreadMramXfer) : (sgSampleXfer b dir).Valid 65536 where
  buffers := rfl
  valid := (sgSample_valid b noBlock).inDirection dir
  lists := sgSamplePtr_valid hb
  zeros_eq := rfl
  outside x := by
    rintro ⟨d, ci, c, q, -, -, hc, -, ha⟩
    rcases sgSamplePtr_cases hc with ⟨-, rfl⟩ | ⟨-, rfl⟩
    · exact (hout x (List.mem_of_getElem? ha)).1
    · rw [addresses_nil rfl] at ha; cases ha
  readable := ⟨(sgSample_mapped fun a ha => (hout a ha).2).blocks, (sgSample_mapped fun a ha => (hout a ha).2).zeros⟩
  pool := Nat.le_refl 2
  threads := show [0, 1].Perm (List.range 2) by decide

/-- The state a process starts from: host memory and MRAM hold ones, the padding block zeros. -/
def freshState (b : SgXferBuffer) : XferState :=
  .start (fun x => if x < 65536 then 1 else 0) (fun _ => 1) (sgSample b noBlock).xferMatrix.buffers.lists

theorem freshState_zero (b : SgXferBuffer) : PaddingZero 65536 (freshState b).host := by
  intro z _
  simp [freshState]

/-- After a read into blocks of three and five bytes, of a transfer of eight. -/
theorem padding_block_stays_zero_sample :
    PaddingZero 65536 ((sgSampleXfer twoBlocks .read).after (freshState twoBlocks)).host := by
  have hvalid := sgSampleXfer_valid twoBlocks_valid (by decide) .read
  refine (padding_block_stays_zero (.step (.init (freshState_zero twoBlocks)) (a := .xfer (sgSampleXfer twoBlocks .read))
    ?_ ⟨hvalid, finds_lists _ _ _, rfl⟩)).1
  intro d ci b _ _ hb _
  rcases sgSamplePtr_cases hb with ⟨-, rfl⟩ | ⟨-, rfl⟩
  · decide
  · exact ⟨0, rfl⟩

/-- After a read of eight bytes into a block of four the padding block holds ones. -/
theorem read_dirties_padding_block :
    ∃ s, (sgSystem 65536).Reachable s ∧ ¬PaddingZero 65536 s.host := by
  refine ⟨(sgSampleXfer shortBlock .read).after (freshState shortBlock), ?_, ?_⟩
  · exact .step (.init (freshState_zero shortBlock)) (a := .xfer (sgSampleXfer shortBlock .read)) trivial
      ⟨sgSampleXfer_valid shortBlock_valid (by decide) .read, finds_lists _ _ _, rfl⟩
  · intro h
    have hbyte := h 0 (by decide)
    revert hbyte
    decide

end DpuBackend.Xeon
