import DpuBackend.Xeon.SgRead

/-
  When scatter/gather transfers refine flat ones.

  A write does exactly when no named list is empty with a stale first entry that
  cannot be read or shows a byte other than zero; a read does exactly when no named
  DPU's blocks are shorter than the transfer and end inside a 64-bit word. Besides
  the blocks a read stores the padding entry of each list it serves, for which the
  arrays have room: without that entry, only a read that serves no list would do.
  The two samples are the two ways out: an empty list that sends a stale block, and
  a read that stores into the padding block.
-/

namespace DpuBackend.Xeon

open DpuBackend.Lib DpuBackend.Lib.Mem

/-- Address `x` is one of the first `size` bytes of the blocks of a named DPU. -/
def Target (p : XeonSpPrivate) (sgPtr : Nat → Option SgXferBuffer) (x : Nat) : Prop :=
  ∃ d ci b q, d < p.nbDpusPerCi ∧ ci < p.nbCis ∧ sgPtr (d * 8 + ci) = some b ∧ q < p.xferMatrix.size ∧
    b.addresses[q]? = some x

/-- No named DPU's blocks are shorter than the transfer and end inside a word. -/
def BlocksEndOnWords (p : XeonSpPrivate) (sgPtr : Nat → Option SgXferBuffer) : Prop :=
  ∀ d ci b, d < p.nbDpusPerCi → ci < p.nbCis → sgPtr (d * 8 + ci) = some b → b.total < p.xferMatrix.size →
    8 ∣ b.total

/-- Entry `j` of list `k` is the padding entry of a list the transfer serves. -/
def PaddingEntry (p : XeonSpPrivate) (sgPtr : Nat → Option SgXferBuffer) (k j : Nat) : Prop :=
  Serves p sgPtr k ∧ ∃ b, sgPtr k = some b ∧ j = b.nrBlocks

/-- A scatter/gather read stores in the blocks, in order, the first bytes of what
the flat read returns, and stores nowhere else but in the padding entries of the lists. -/
structure SgReadRefines (p : XeonSpPrivate) (sgPtr : Nat → Option SgXferBuffer) (ptr : Nat → Nat)
    (stack : Nat → Line) (order : List Nat) (s s' : XferState) : Prop where
  blocks : ∀ {d ci q a : Nat} {b : SgXferBuffer}, d < p.nbDpusPerCi → ci < p.nbCis → sgPtr (d * 8 + ci) = some b →
    q < p.xferMatrix.size → b.addresses[q]? = some a →
    (runThreads p stack order s).host a = (runThreads (p.flat ptr) stack order s').host (ptr (d * 8 + ci) + q)
  stores : ∀ x, Covered (runThreads p stack order s).hostStores x → Target p sgPtr x
  unchanged : ∀ x, ¬Target p sgPtr x → (runThreads p stack order s).host x = s.host x
  entries : ∀ k j, (k, j) ∈ (runThreads p stack order s).listStores → PaddingEntry p sgPtr k j
  counts : ∀ k, ((runThreads p stack order s).lists k).nrBlocks = (s.lists k).nrBlocks
  lists : ∀ k j, ¬PaddingEntry p sgPtr k j →
    ((runThreads p stack order s).lists k).blocksAddr j = (s.lists k).blocksAddr j ∧
      ((runThreads p stack order s).lists k).blocksLength j = (s.lists k).blocksLength j

variable {p : XeonSpPrivate} {sgPtr : Nat → Option SgXferBuffer} {ptr : Nat → Nat} {mram : Mem UInt8}

/-! ## Stable facts of a read -/

/-- A byte received in its block stays received. -/
theorem stable_received (hapart : BlocksApart p sgPtr) {d ci q a : Nat} {b : SgXferBuffer} (hd : d < p.nbDpusPerCi)
    (hci : ci < p.nbCis) (hb : sgPtr (d * 8 + ci) = some b) (ha : b.addresses[q]? = some a) :
    Stable p sgPtr mram fun s => s.host a = mramByte p mram d ci q := by
  refine ⟨fun _ _ h => h, fun _ _ _ h => h, ?_⟩
  intro s s' d' ci' i b' hd' hci' _ hb' hw h
  by_cases hmem : ∃ k < 8, b'.addresses[8 * i + k]? = some a
  · obtain ⟨k, hk, hak⟩ := hmem
    obtain ⟨rfl, rfl, rfl⟩ := hapart.inj hd hci hd' hci' hb hb' ha hak
    exact hw.host_at k hk a hak
  · rw [hw.host_off a (fun k hk hak => hmem ⟨k, hk, hak⟩) (hapart.zeros hd hci hb ha)]
    exact h

/-- What has not been stored to has not changed. -/
theorem stable_unstored (host : Mem UInt8) :
    Stable p sgPtr mram fun s => ∀ x, ¬Covered s.hostStores x → s.host x = host x := by
  refine ⟨fun _ _ h => h, fun _ _ _ h => h, ?_⟩
  intro s s' d ci i b _ _ _ _ hw h x hx
  rw [hw.unstored x hx]
  exact h x fun hold => hx (hw.stored_mono x hold)

/-- Where the blocks end on words, only the blocks are stored to. -/
theorem stable_target (hv : p.Valid) (hends : BlocksEndOnWords p sgPtr) :
    Stable p sgPtr mram fun s => ∀ x, Covered s.hostStores x → Target p sgPtr x := by
  refine ⟨fun _ _ h => h, fun _ _ _ h => h, ?_⟩
  intro s s' d ci i b hd hci hi hb hw h x hx
  have h8 := hv.size8
  unfold XeonSpPrivate.words at hi
  rcases hw.stored x hx with hold | ⟨k, hk, ha⟩ | ⟨hlo, hhi, -⟩
  · exact h x hold
  · exact ⟨d, ci, b, 8 * i + k, hd, hci, hb, by omega, ha⟩
  · have := hends d ci b hd hci hb (by omega)
    omega

theorem stable_covered (x : Nat) : Stable p sgPtr mram fun s => Covered s.hostStores x :=
  ⟨fun _ _ h => h, fun _ _ _ h => h, fun _ _ _ _ hw h => hw.stored_mono x h⟩

/-! ## Reads -/

/-- The bytes of a flat read. -/
theorem flatRead_byte (hv : p.Valid) (hdir : p.direction = .read) (hsame : SameDpus sgPtr ptr)
    (hflat : BuffersApart (p.flat ptr) ptr) (stack : Nat → Line) {order : List Nat}
    (horder : ∀ t < p.nbThreadsForXfer, t ∈ order) (s' : XferState) {d ci q : Nat} {b : SgXferBuffer}
    (hd : d < p.nbDpusPerCi) (hci : ci < p.nbCis) (hb : sgPtr (d * 8 + ci) = some b) (hq : q < p.xferMatrix.size) :
    (runThreads (p.flat ptr) stack order s').host (ptr (d * 8 + ci) + q) = mramByte p s'.region d ci q := by
  have h8 := hv.size8
  have hi : q / 8 < p.words := by unfold XeonSpPrivate.words; omega
  have hp : ptr (d * 8 + ci) ≠ 0 := (hsame _).mpr (by simp [hb])
  have hreceived := runThreads_received (p := p.flat ptr)
    ⟨hv.cis, hv.dpus, hv.offset8, hv.size8, hv.size32, hv.threads⟩ rfl hdir hflat stack horder s' hd hci hi hp
  have hbyte := congrFun hreceived ⟨q % 8, Nat.mod_lt q (by decide)⟩
  rw [load_apply, Nat.add_assoc, Nat.div_add_mod] at hbyte
  exact hbyte

/-- What a transfer does to the entries of the lists. -/
theorem PadsLists.entry {s s' : XferState} (h : PadsLists p sgPtr s s') (hfinds : Finds sgPtr s) {k j : Nat}
    (hj : ¬PaddingEntry p sgPtr k j) :
    (s'.lists k).blocksAddr j = (s.lists k).blocksAddr j ∧ (s'.lists k).blocksLength j = (s.lists k).blocksLength j := by
  rw [h.lists k]
  split
  · next hk =>
    obtain ⟨b, hb⟩ := Option.isSome_iff_exists.mp hk.2.2.2
    have hne : j ≠ (s.lists k).nrBlocks := fun e => hj ⟨hk, b, hb, by rw [e, hfinds k b hb]⟩
    exact ⟨Function.update_of_ne hne .., Function.update_of_ne hne ..⟩
  · exact ⟨rfl, rfl⟩

theorem PadsLists.counts {s s' : XferState} (h : PadsLists p sgPtr s s') (k : Nat) :
    (s'.lists k).nrBlocks = (s.lists k).nrBlocks := by
  rw [h.lists k]
  split <;> rfl

/-- From an empty log, the entries stored to are exactly the padding entries. -/
theorem PadsLists.stored_iff {s s' : XferState} (h : PadsLists p sgPtr s s') (hfinds : Finds sgPtr s)
    (hlog : s.listStores = []) (k j : Nat) : (k, j) ∈ s'.listStores ↔ PaddingEntry p sgPtr k j := by
  rw [h.stored, hlog]
  constructor
  · intro he
    obtain ⟨hk, hj⟩ := he.resolve_left List.not_mem_nil
    obtain ⟨b, hb⟩ := Option.isSome_iff_exists.mp hk.2.2.2
    exact ⟨hk, b, hb, by rw [← hfinds k b hb]; exact hj⟩
  · intro ⟨hk, b, hb, hj⟩
    exact .inr ⟨hk, by rw [hj, hfinds k b hb]⟩

section Reads

variable (hv : p.Valid) (hbuf : p.xferMatrix.buffers = .sgPtr sgPtr) (hdir : p.direction = .read)
  (hvalid : ∀ k b, sgPtr k = some b → b.Valid) (hsame : SameDpus sgPtr ptr) (hapart : BlocksApart p sgPtr)
  (hflat : BuffersApart (p.flat ptr) ptr) (stack : Nat → Line) {order : List Nat}
  (horder : ∀ t < p.nbThreadsForXfer, t ∈ order) {s s' : XferState} (hfinds : Finds sgPtr s)
  (hlog : s.hostStores = []) (hlists : s.listStores = []) (hregion : s.region = s'.region)

include hv hbuf hdir hvalid hsame hapart hflat horder hfinds hlog hlists hregion in
theorem sgReadRefines_iff : SgReadRefines p sgPtr ptr stack order s s' ↔ BlocksEndOnWords p sgPtr := by
  have h8 := hv.size8
  constructor
  · -- blocks that end inside a word make the read store into the padding block
    intro href d ci b hd hci hb hlt
    by_contra hndvd
    have hi : b.total / 8 < p.words := by unfold XeonSpPrivate.words; omega
    have hspill := runThreads_reach hv hvalid hapart hbuf hdir hfinds (stable_covered p.zeros) stack horder hd hci hi hb
      (fun _ _ hw => hw.spill (by omega) (by omega))
    obtain ⟨d', ci', b', q, hd', hci', hb', -, ha⟩ := href.stores p.zeros hspill
    have hout := hapart.zeros hd' hci' hb' ha
    unfold Outside at hout
    omega
  · intro hends
    have hstable : Stable p sgPtr s.region fun s => ∀ x, Covered s.hostStores x → Target p sgPtr x :=
      stable_target hv hends
    have hstores := runThreads_stable hv hvalid hapart hbuf hdir hfinds hstable stack order
      (fun x hx => absurd (hlog ▸ hx) (not_covered_nil x))
    have hpads := runThreads_padsLists hv hbuf stack horder s
    refine ⟨?_, hstores, ?_, fun k j => (hpads.stored_iff hfinds hlists k j).mp, hpads.counts,
      fun k j => hpads.entry hfinds⟩
    · intro d ci q a b hd hci hb hq ha
      have hi : q / 8 < p.words := by unfold XeonSpPrivate.words; omega
      rw [flatRead_byte hv hdir hsame hflat stack horder s' hd hci hb hq, ← hregion]
      refine runThreads_reach hv hvalid hapart hbuf hdir hfinds (stable_received hapart hd hci hb ha) stack horder hd hci
        hi hb (fun _ _ hw => ?_)
      have hat := hw.host_at (q % 8) (Nat.mod_lt q (by decide)) a
      rw [Nat.div_add_mod] at hat
      exact hat ha
    · intro x hx
      exact runThreads_stable hv hvalid hapart hbuf hdir hfinds (stable_unstored s.host) stack order (fun _ _ => rfl) x
        fun hst => hx (hstores x hst)

include hv hbuf hdir hvalid hsame hapart hflat horder hfinds hlog hlists hregion in
/-- With the padding entries counted as well, only a read that serves no list stores nothing but
the blocks. -/
theorem sgReadAlone_iff : SgReadRefines p sgPtr ptr stack order s s' ∧ (runThreads p stack order s).listStores = [] ↔
    ∀ k, ¬Serves p sgPtr k := by
  have hpads := runThreads_padsLists hv hbuf stack horder s
  constructor
  · intro ⟨_, hnil⟩ k hk
    obtain ⟨b, hb⟩ := Option.isSome_iff_exists.mp hk.2.2.2
    have hmem := (hpads.stored_iff hfinds hlists k b.nrBlocks).mpr ⟨hk, b, hb, rfl⟩
    rw [hnil] at hmem
    exact absurd hmem List.not_mem_nil
  · intro hnone
    refine ⟨(sgReadRefines_iff hv hbuf hdir hvalid hsame hapart hflat stack horder hfinds hlog hlists hregion).mpr ?_,
      List.eq_nil_iff_forall_not_mem.mpr fun e he => ?_⟩
    · intro d ci b hd hci hb hlt
      have hcis := hv.cis
      refine absurd ⟨by omega, by omega, by omega, by rw [hb]; rfl⟩ (hnone (d * 8 + ci))
    · exact hnone e.1 ((hpads.stored_iff hfinds hlists e.1 e.2).mp he).1

end Reads

/-! ## Both directions -/

/-- Nothing is in the logs. -/
structure XferState.Fresh (s : XferState) : Prop where
  hostStores : s.hostStores = []
  touched : s.touched = []
  listStores : s.listStores = []
  blockLoads : s.blockLoads = []

/-- Scatter/gather transfers, by all threads in any order, against the flat
transfers over the same range: `s` and `s'` are the states a write starts from,
`r` and `r'` those a read starts from, and `mapped` the addresses that can be read. -/
theorem scatter_gather_refines_flat (p : XeonSpPrivate) (sgPtr : Nat → Option SgXferBuffer) (ptr : Nat → Nat)
    (hbuf : p.xferMatrix.buffers = .sgPtr sgPtr) (hv : p.Valid) (hvalid : ∀ k b, sgPtr k = some b → b.Valid)
    (hsame : SameDpus sgPtr ptr) (hpool : p.nbThreadsForXfer ≤ p.nbThreads) (mapped : Nat → Prop)
    (hmapped : BlocksMapped p sgPtr mapped) (stack : Nat → Line) (order : List Nat)
    (horder : order.Perm (List.range p.nbThreads)) (s s' r r' : XferState)
    (hs : s.Fresh) (hfinds : Finds sgPtr s) (hregion : s.region = s'.region)
    (hzeros : ∀ z < 4096, s.host (p.zeros + z) = 0)
    (hhold : BuffersHold p sgPtr ptr s'.host fun b q => b.paddedByte s.host q)
    (hr : r.Fresh) (hfinds' : Finds sgPtr r) (hregion' : r.region = r'.region) (hapart : BlocksApart p sgPtr)
    (hflat : BuffersApart (p.flat ptr) ptr) :
    (SgWriteRefines (p.inDirection .write) ptr mapped stack order s s' ↔ StaleEntriesZero p sgPtr mapped s.host) ∧
      (SgReadRefines (p.inDirection .read) sgPtr ptr stack order r r' ↔ BlocksEndOnWords p sgPtr) ∧
      -- without the padding entries of the lists
      (SgReadRefines (p.inDirection .read) sgPtr ptr stack order r r' ∧
          (runThreads (p.inDirection .read) stack order r).listStores = [] ↔ ∀ k, ¬Serves p sgPtr k) := by
  have hmem : ∀ t < p.nbThreadsForXfer, t ∈ order := fun t ht => mem_order hpool horder ht
  have hnodup : order.Nodup := horder.nodup_iff.mpr List.nodup_range
  refine ⟨?_, ?_, ?_⟩
  · exact sgWriteRefines_iff (p := p.inDirection .write) (hv.inDirection .write) hbuf rfl hvalid stack hnodup hmem hfinds
      hs.blockLoads hzeros ⟨hmapped.blocks, hmapped.zeros⟩ hsame hregion hhold
  · exact sgReadRefines_iff (p := p.inDirection .read) (hv.inDirection .read) hbuf rfl hvalid hsame
      ⟨hapart.inj, hapart.zeros⟩ hflat stack hmem hfinds' hr.hostStores hr.listStores hregion'
  · exact sgReadAlone_iff (p := p.inDirection .read) (hv.inDirection .read) hbuf rfl hvalid hsame
      ⟨hapart.inj, hapart.zeros⟩ hflat stack hmem hfinds' hr.hostStores hr.listStores hregion'

/-! ## Samples -/

/-- Eight bytes at MRAM offset 0 of DPU 0 of line 0, from and to `b`, and of DPU 1
of line 1, from and to `b'`. -/
def sgSamplePtr (b b' : SgXferBuffer) (k : Nat) : Option SgXferBuffer :=
  if k = 0 then some b else if k = 9 then some b' else none

def sgSample (b b' : SgXferBuffer) : XeonSpPrivate where
  xferMatrix :=
    { buffers := .sgPtr (sgSamplePtr b b')
      offset := 0
      size := 8 }
  direction := .write
  nbCis := 8
  nbDpusPerCi := 8
  nbThreadsForXfer := 2
  nbThreads := 2
  zeros := 65536

/-- Blocks of three and five bytes. -/
def twoBlocks : SgXferBuffer where
  maxNrBlocks := 4
  blocksAddr j := 4096 + 64 * j
  blocksLength j := if j = 0 then 3 else 5
  nrBlocks := 2

/-- One block of four bytes. -/
def shortBlock : SgXferBuffer where
  maxNrBlocks := 4
  blocksAddr _ := 4096
  blocksLength _ := 4
  nrBlocks := 1

/-- No block; the arrays still hold a block of sixteen bytes. -/
def noBlock : SgXferBuffer where
  maxNrBlocks := 4
  blocksAddr _ := 8192
  blocksLength _ := 16
  nrBlocks := 0

/-- A host memory where the block list `noBlock` forgot holds `v`. -/
def sgSampleHost (v : UInt8) : Mem UInt8 := fun x =>
  if x < 8192 then x.toUInt8 else if x < 8208 then v else 0

/-- The state a transfer starts from, and the one of the flat transfer. -/
def sgSampleState (b : SgXferBuffer) (v : UInt8) : XferState :=
  .start (sgSampleHost v) (fun _ => 0) (sgSample b noBlock).xferMatrix.buffers.lists

def sgSampleFlatState (b : SgXferBuffer) (v : UInt8) : XferState :=
  .start (fun x => if x < 32768 then b.paddedByte (sgSampleHost v) (x - 16384) else 0) (fun _ => 0) fun _ => default

theorem start_fresh (host region : Mem UInt8) (lists : Nat → SgXferBuffer) : (XferState.start host region lists).Fresh :=
  ⟨rfl, rfl, rfl, rfl⟩

/-- The lists a matrix is built from. -/
theorem finds_lists (host region : Mem UInt8) (sgPtr : Nat → Option SgXferBuffer) :
    Finds sgPtr (.start host region (XferBuffers.sgPtr sgPtr).lists) := by
  intro k b hb
  simp only [start_lists, XferBuffers.lists, hb, Option.getD_some]

def sgSampleFlatPtr (k : Nat) : Nat := if k = 0 then 16384 else if k = 9 then 32768 else 0

theorem sgSamplePtr_cases {b b' c : SgXferBuffer} {k : Nat} (h : sgSamplePtr b b' k = some c) :
    k = 0 ∧ c = b ∨ k = 9 ∧ c = b' := by
  unfold sgSamplePtr at h
  split at h
  · next hk => exact .inl ⟨hk, (Option.some.inj h).symm⟩
  · split at h
    · next hk => exact .inr ⟨hk, (Option.some.inj h).symm⟩
    · cases h

theorem sgSample_valid (b b' : SgXferBuffer) : (sgSample b b').Valid :=
  ⟨Nat.le_refl 8, Nat.le_refl 8, ⟨0, rfl⟩, ⟨1, rfl⟩, (by decide : 8 < 2 ^ 32), (by decide : 1 ≤ 2)⟩

theorem twoBlocks_valid : twoBlocks.Valid := by
  refine ⟨by decide, ?_, ?_⟩
  · intro j _
    simp only [twoBlocks]
    split <;> decide
  · intro j
    simp only [twoBlocks]
    split <;> decide

theorem shortBlock_valid : shortBlock.Valid :=
  ⟨by decide, fun _ _ => (by decide : 0 < 4), fun _ => (by decide : 4 < 2 ^ 32)⟩

theorem noBlock_valid : noBlock.Valid :=
  ⟨by decide, fun j hj => absurd hj (Nat.not_lt_zero j), fun _ => (by decide : 16 < 2 ^ 32)⟩

theorem sgSamplePtr_valid {b : SgXferBuffer} (hb : b.Valid) (k : Nat) (c : SgXferBuffer)
    (h : sgSamplePtr b noBlock k = some c) : c.Valid := by
  rcases sgSamplePtr_cases h with ⟨-, rfl⟩ | ⟨-, rfl⟩
  · exact hb
  · exact noBlock_valid

theorem sgSample_same (b b' : SgXferBuffer) : SameDpus (sgSamplePtr b b') sgSampleFlatPtr := by
  intro k
  unfold sgSampleFlatPtr sgSamplePtr
  split
  · simp
  · split <;> simp

theorem sgSample_blocksApart {b : SgXferBuffer} (hnodup : b.addresses.Nodup)
    (hzeros : ∀ a ∈ b.addresses, Outside 65536 4096 a) :
    BlocksApart (sgSample b noBlock) (sgSamplePtr b noBlock) := by
  have hnone : noBlock.addresses = [] := addresses_nil rfl
  refine ⟨?_, ?_⟩
  · intro d ci q d' ci' q' a c c' _ hci _ hci' hc hc' ha ha'
    change ci < 8 at hci
    change ci' < 8 at hci'
    rcases sgSamplePtr_cases hc with ⟨hk, rfl⟩ | ⟨hk, rfl⟩ <;>
      rcases sgSamplePtr_cases hc' with ⟨hk', rfl⟩ | ⟨hk', rfl⟩
    · obtain ⟨hq, -⟩ := List.getElem?_eq_some_iff.mp ha
      exact ⟨by omega, by omega, (List.getElem?_inj hq hnodup).mp (ha.trans ha'.symm)⟩
    · rw [hnone] at ha'; cases ha'
    · rw [hnone] at ha; cases ha
    · rw [hnone] at ha; cases ha
  · intro d ci q a c _ _ hc ha
    rcases sgSamplePtr_cases hc with ⟨-, rfl⟩ | ⟨-, rfl⟩
    · exact hzeros a (List.mem_of_getElem? ha)
    · rw [hnone] at ha; cases ha

/-- The blocks can be read, as everything but the null page. -/
theorem sgSample_mapped {b : SgXferBuffer} (hb : ∀ a ∈ b.addresses, 4096 ≤ a) :
    BlocksMapped (sgSample b noBlock) (sgSamplePtr b noBlock) (4096 ≤ ·) := by
  refine ⟨?_, fun z _ => ?_⟩
  · intro d ci c _ _ hc a ha
    rcases sgSamplePtr_cases hc with ⟨-, rfl⟩ | ⟨-, rfl⟩
    · exact hb a ha
    · rw [addresses_nil rfl] at ha; cases ha
  · change 4096 ≤ 65536 + z
    omega

theorem sgSample_flatApart (b b' : SgXferBuffer) :
    BuffersApart ((sgSample b b').flat sgSampleFlatPtr) sgSampleFlatPtr := by
  intro d ci d' ci' _ hci _ hci' hp hp' hne
  change ci < 8 at hci
  change ci' < 8 at hci'
  change Apart _ 8 _ 8
  unfold sgSampleFlatPtr at hp hp' ⊢
  unfold Apart
  grind

theorem sgSample_hold (b : SgXferBuffer) (v : UInt8) :
    BuffersHold (sgSample b noBlock) (sgSamplePtr b noBlock) sgSampleFlatPtr (sgSampleFlatState b v).host
      fun c q => c.paddedByte (sgSampleHost v) q := by
  intro d ci c _ _ hc q hq
  change q < 8 at hq
  rcases sgSamplePtr_cases hc with ⟨hk, rfl⟩ | ⟨hk, rfl⟩
  · have hlt : 16384 + q < 32768 := by omega
    simp only [hk, sgSampleFlatPtr, if_true, sgSampleFlatState, start_host, if_pos hlt, Nat.add_sub_cancel_left]
  · have hge : ¬32768 + q < 32768 := by omega
    have hptr : sgSampleFlatPtr 9 = 32768 := by decide
    simp only [hk, hptr, sgSampleFlatState, start_host, if_neg hge]
    exact (paddedByte_empty (b := noBlock) rfl (sgSampleHost v) q).symm

theorem sgSampleHost_zeros (v : UInt8) : ∀ z < 4096, sgSampleHost v (65536 + z) = 0 := by
  intro z _
  have h1 : ¬65536 + z < 8192 := by omega
  have h2 : ¬65536 + z < 8208 := by omega
  simp only [sgSampleHost, if_neg h1, if_neg h2]

/-- Blocks of three and five bytes, and an empty list whose forgotten block is
zero: both transfers refine the flat ones. -/
theorem scatter_gather_refines_flat_sample :
    SgWriteRefines ((sgSample twoBlocks noBlock).inDirection .write) sgSampleFlatPtr (4096 ≤ ·) (fun _ _ => 255) [1, 0]
        (sgSampleState twoBlocks 0) (sgSampleFlatState twoBlocks 0) ∧
      SgReadRefines ((sgSample twoBlocks noBlock).inDirection .read) (sgSamplePtr twoBlocks noBlock) sgSampleFlatPtr
        (fun _ _ => 255) [1, 0] (sgSampleState twoBlocks 0) (sgSampleFlatState twoBlocks 0) := by
  have h := scatter_gather_refines_flat (sgSample twoBlocks noBlock) (sgSamplePtr twoBlocks noBlock) sgSampleFlatPtr rfl
    (sgSample_valid _ _) (sgSamplePtr_valid twoBlocks_valid) (sgSample_same _ _) (Nat.le_refl 2) (4096 ≤ ·)
    (sgSample_mapped (by decide)) (fun _ _ => 255) [1, 0] (by decide) (sgSampleState twoBlocks 0)
    (sgSampleFlatState twoBlocks 0) (sgSampleState twoBlocks 0) (sgSampleFlatState twoBlocks 0) (start_fresh ..)
    (finds_lists _ _ _) rfl (sgSampleHost_zeros 0) (sgSample_hold twoBlocks 0) (start_fresh ..) (finds_lists _ _ _) rfl
    (sgSample_blocksApart (by decide) (by decide)) (sgSample_flatApart _ _)
  refine ⟨h.1.mpr ?_, h.2.1.mpr ?_⟩
  · intro d ci b _ _ hb h0 q _
    rcases sgSamplePtr_cases hb with ⟨-, rfl⟩ | ⟨-, rfl⟩
    · cases h0
    · have hlo : ¬8192 + q % 16 < 8192 := by omega
      have hhi : 8192 + q % 16 < 8208 := by omega
      refine ⟨?_, ?_⟩
      · change 4096 ≤ 8192 + q % 16
        omega
      · simp only [noBlock, sgSampleState, start_host, sgSampleHost, if_neg hlo, if_pos hhi]
  · intro d ci b _ _ hb _
    rcases sgSamplePtr_cases hb with ⟨-, rfl⟩ | ⟨-, rfl⟩
    · decide
    · exact ⟨0, rfl⟩

/-- A block of four bytes, and an empty list whose forgotten block holds sevens:
the write sends the sevens, the read stores into the padding block. -/
theorem scatter_gather_not_flat :
    ¬SgWriteRefines ((sgSample shortBlock noBlock).inDirection .write) sgSampleFlatPtr (4096 ≤ ·) (fun _ _ => 255) [0, 1]
        (sgSampleState shortBlock 7) (sgSampleFlatState shortBlock 7) ∧
      ¬SgReadRefines ((sgSample shortBlock noBlock).inDirection .read) (sgSamplePtr shortBlock noBlock) sgSampleFlatPtr
        (fun _ _ => 255) [0, 1] (sgSampleState shortBlock 7) (sgSampleFlatState shortBlock 7) := by
  have hmem : ∀ t < 2, t ∈ [0, 1] := by decide
  have hapart : BlocksApart (sgSample shortBlock noBlock) (sgSamplePtr shortBlock noBlock) :=
    sgSample_blocksApart (by decide) (by decide)
  have hmapped : BlocksMapped (sgSample shortBlock noBlock) (sgSamplePtr shortBlock noBlock) (4096 ≤ ·) :=
    sgSample_mapped (by decide)
  have hv := sgSample_valid shortBlock noBlock
  have hfinds : Finds (sgSamplePtr shortBlock noBlock) (sgSampleState shortBlock 7) := finds_lists _ _ _
  constructor
  · intro hwrite
    have hiff := @sgWriteRefines_iff ((sgSample shortBlock noBlock).inDirection .write) _ sgSampleFlatPtr
      (hv.inDirection .write) rfl rfl (sgSamplePtr_valid shortBlock_valid) (fun _ _ => 255) [0, 1] (by decide) hmem
      (sgSampleState shortBlock 7) (sgSampleFlatState shortBlock 7) hfinds rfl (sgSampleHost_zeros 7) (4096 ≤ ·)
      ⟨hmapped.blocks, hmapped.zeros⟩ (sgSample_same _ _) rfl (sgSample_hold shortBlock 7)
    have h := (hiff.mp hwrite 1 1 noBlock (by decide) (by decide) rfl rfl 0 (by decide)).2
    revert h
    decide
  · intro hread
    have hiff := @sgReadRefines_iff ((sgSample shortBlock noBlock).inDirection .read) _ sgSampleFlatPtr
      (hv.inDirection .read) rfl rfl (sgSamplePtr_valid shortBlock_valid) (sgSample_same _ _) ⟨hapart.inj, hapart.zeros⟩
      (sgSample_flatApart _ _) (fun _ _ => 255) [0, 1] hmem (sgSampleState shortBlock 7) (sgSampleFlatState shortBlock 7)
      hfinds rfl rfl rfl
    have h := hiff.mp hread 0 0 shortBlock (by decide) (by decide) rfl (by decide)
    revert h
    decide

end DpuBackend.Xeon
