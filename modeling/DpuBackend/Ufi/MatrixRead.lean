import DpuBackend.Ufi.MatrixRuns

/-
  The reads from one DPU of each interface of a mask.

  A read prepares the whole buffer before every packet, so that nothing that was left for an
  interface goes out, whether the interface is in the mask or not. A word of WRAM comes in one
  answer; an instruction comes byte by byte, and its two highest bytes are cleared with the last.

  Correspondence (C ↔ Lean):
    `UFI_exec_8bit_frame`, `UFI_exec_32bit_frame`  ↔ `Reading.query`
    `ufi_wram_read`                                ↔ `ufiWramRead_spec`
    `ufi_iram_read`                                ↔ `ufiIramRead_spec`
-/

namespace DpuBackend.Ufi

open DpuBackend.Lib

namespace Board

variable {b s : Board} {mask : Mask} {dpu k : Nat} {array : Nat → Nat}

/-! ## One answer -/

/-- The board in the middle of a read. -/
structure Reading (b s : Board) (mask : Mask) (dpu : Nat) (array : Nat → Nat) : Prop where
  alike : b.Alike s
  used : ∀ p ∈ s.used, p ∈ b.used ∨ ∃ ci < b.rank.nrCis, mask.getLsbD ci = true ∧ array ci = p
  noted : ∀ ci < b.rank.nrCis, (s.port ci).Noted
  inside : ∀ ci < b.rank.nrCis, mask.getLsbD ci = true → (s.port ci).At dpu
  memory : ∀ ci < b.rank.nrCis, (s.port ci).chip.memory = (b.port ci).chip.memory

/-- The interfaces of the mask answer. -/
theorem Reading.query (h : b.Reading s mask dpu array) {struct frame : Word} (hstruct : isStruct struct = true)
    (hquiet : QuietFrame struct frame) (hnone : writeOf struct frame = none) (hne : frame ≠ ciEmpty) {read : MemRead}
    (hread : readOf struct frame = some read) :
    ∃ s', (send (execFrame mask struct frame)).run s = .ok ⟨⟩ s' ∧ b.Reading s' mask dpu array ∧ s'.host = s.host ∧
      ∀ ci < b.rank.nrCis, mask.getLsbD ci = true → (s'.chips ci).result = read.answer ((b.port ci).chip.memory dpu) := by
  have hcis : s.rank.nrCis = b.rank.nrCis := h.alike.nrCis
  let s' := s.after ((s.begin.structured mask struct).sent mask frame)
  have hport : ∀ ci < b.rank.nrCis, s'.port ci =
      if mask.getLsbD ci then (s.port ci).frame (s.rank.mustWriteStructure mask struct) struct frame
      else (s.port ci).clear :=
    fun ci hci => port_execFrame (hcis ▸ hci) mask struct frame
  have hready : ∀ ci < b.rank.nrCis, mask.getLsbD ci = true →
      (s.port ci).Ready (s.rank.mustWriteStructure mask struct) struct := by
    intro ci hci hbit
    by_cases hheld : (s.port ci).info.structureValue = struct
    · exact .inr hheld
    · exact .inl (mustWriteStructure_iff.mpr ⟨ci, hcis ▸ hci, hbit, hheld⟩)
  refine ⟨s', send_ok (run_execFrame s.begin_allDone struct frame), ⟨h.alike.trans (alike_execFrame s mask struct frame),
    h.used, fun ci hci => ?_, fun ci hci hbit => ?_, fun ci hci => ?_⟩, rfl, fun ci hci hbit => ?_⟩
  · rw [hport ci hci]
    split
    · next hbit => exact (h.noted ci hci).frame hstruct (hready ci hci hbit) hquiet
    · exact (h.noted ci hci).clear
  · rw [hport ci hci, if_pos hbit]
    exact (h.inside ci hci hbit).frame (h.noted ci hci) hstruct (hready ci hci hbit) hquiet
  · rw [hport ci hci, ← h.memory ci hci]
    split
    · next hbit => exact (h.noted ci hci).frame_none hstruct (hready ci hci hbit) hnone
    · rfl
  · show (s'.port ci).chip.result = _
    rw [hport ci hci, if_pos hbit, ← h.memory ci hci]
    exact (h.noted ci hci).frame_read hstruct (hready ci hci hbit) hne (h.inside ci hci hbit).decoder hread

theorem Reading.put (h : b.Reading s mask dpu array) (k : Nat) (value : Nat → Word → Word) :
    b.Reading (s.put mask array k value) mask dpu array := by
  refine ⟨⟨h.alike.nrCis, h.alike.nrDpus, h.alike.enabled⟩, fun p hp => ?_, h.noted, h.inside, h.memory⟩
  obtain hmem | ⟨ci, hci, hbit, heq⟩ := used_use hp
  · exact h.used p hmem
  · exact .inr ⟨ci, h.alike.nrCis ▸ hci, hbit, heq⟩

/-! ## Words of WRAM -/

/-- The element of a DPU's memory, as the host has it. -/
def element (b : Board) (kind : MemKind) (ci dpu : Nat) (a : BitVec 16) : Word :=
  kind.cut ((b.port ci).chip.memory dpu kind a)

/-- The first `k` elements are in the buffers; of interfaces that share one, some interface's are. -/
def Fetched (b s : Board) (mask : Mask) (dpu : Nat) (kind : MemKind) (array : Nat → Nat) (offset : BitVec 16) (k : Nat) :
    Prop :=
  ∀ p i, (s.host p i = b.host p i ∧ ∀ ci < b.rank.nrCis, mask.getLsbD ci = true → array ci = p → k ≤ i) ∨
    ∃ ci < b.rank.nrCis, mask.getLsbD ci = true ∧ array ci = p ∧ i < k ∧
      s.host p i = b.element kind ci dpu (offset + BitVec.ofNat 16 i)

theorem put_host (value : Nat → Word → Word) (p i : Nat) :
    (s.put mask array k value).host p i =
      if i = k then ((s.visited mask).filter (array · = p)).foldl (fun w ci => value ci w) (s.host p i) else s.host p i := by
  show (s.visited mask).foldl _ s.host p i = _
  generalize s.host = host
  induction s.visited mask generalizing host with
  | nil => simp
  | cons ci rest ih =>
    rw [List.foldl_cons, ih]
    by_cases hp : array ci = p
    · rw [List.filter_cons_of_pos (by simpa using hp), List.foldl_cons]
      by_cases hi : i = k
      · simp [hi, hp]
      · simp [hi]
    · rw [List.filter_cons_of_neg (by simpa using hp)]
      simp [Ne.symm hp]

/-- The last of several interfaces stays. -/
theorem foldl_last (value : Nat → Word) (w : Word) (l : List Nat) :
    l = [] ∧ l.foldl (fun _ ci => value ci) w = w ∨ ∃ ci ∈ l, l.foldl (fun _ ci => value ci) w = value ci := by
  obtain rfl | ⟨front, ci, rfl⟩ := List.eq_nil_or_concat l
  · exact .inl ⟨rfl, rfl⟩
  · refine .inr ⟨ci, by simp, ?_⟩
    rw [List.concat_eq_append, List.foldl_append]
    rfl

theorem fetched_zero {kind : MemKind} {offset : BitVec 16} (hhost : s.host = b.host) :
    b.Fetched s mask dpu kind array offset 0 :=
  fun p i => .inl ⟨congrFun (congrFun hhost p) i, fun _ _ _ _ => Nat.zero_le _⟩

theorem Fetched.put {kind : MemKind} {offset : BitVec 16} {s' : Board} (h : b.Fetched s mask dpu kind array offset k)
    (hcis : s'.rank.nrCis = b.rank.nrCis) (hhost : s'.host = s.host) {value : Nat → Word}
    (hvalue : ∀ ci < b.rank.nrCis, mask.getLsbD ci = true → value ci = b.element kind ci dpu (offset + BitVec.ofNat 16 k)) :
    b.Fetched (s'.put mask array k fun ci _ => value ci) mask dpu kind array offset (k + 1) := by
  intro p i
  rw [put_host, hhost]
  by_cases hi : i = k
  · rw [if_pos hi]
    obtain ⟨hnone, hfold⟩ | ⟨ci, hmem, hfold⟩ := foldl_last value (s.host p i) ((s'.visited mask).filter (array · = p))
    · rw [hfold]
      refine .inl ⟨?_, fun ci hci hbit hp => ?_⟩
      · obtain ⟨hsame, -⟩ | ⟨_, _, _, _, hlt, _⟩ := h p i
        · exact hsame
        · omega
      · have hmem : ci ∈ (s'.visited mask).filter (array · = p) :=
          List.mem_filter.mpr ⟨mem_visited.mpr ⟨hcis.symm ▸ hci, hbit⟩, by simpa using hp⟩
        rw [hnone] at hmem
        cases hmem
    · obtain ⟨hvisited, hp⟩ := List.mem_filter.mp hmem
      obtain ⟨hci, hbit⟩ := mem_visited.mp hvisited
      rw [hcis] at hci
      refine .inr ⟨ci, hci, hbit, of_decide_eq_true hp, by omega, ?_⟩
      rw [hfold, hi]
      exact hvalue ci hci hbit
  · rw [if_neg hi]
    obtain ⟨hsame, hlate⟩ | ⟨ci, hci, hbit, hp, hlt, hword⟩ := h p i
    · refine .inl ⟨hsame, fun ci hci hbit hp => ?_⟩
      have hle := hlate ci hci hbit hp
      omega
    · exact .inr ⟨ci, hci, hbit, hp, by omega, hword⟩

theorem readAddress_eq {offset : BitVec 16} (hk : offset.toNat + k < 2 ^ 16) :
    readAddress offset k = (offset + BitVec.ofNat 16 k).setWidth 64 := by
  apply BitVec.eq_of_toNat_eq
  simp only [readAddress, BitVec.toNat_add, BitVec.toNat_setWidth, BitVec.toNat_ofNat]
  omega

theorem ufiWramRead_spec {offset len : BitVec 16} (hfit : offset.toNat + len.toNat ≤ 2 ^ 16) :
    Triple (fun s => b.Reading s mask dpu array ∧ s.host = b.host) (ufiWramRead mask array offset len)
      (fun _ s => b.Reading s mask dpu array ∧ b.Fetched s mask dpu .wram array offset len.toNat) fun _ _ => False := by
  apply Triple.pre (P := fun s => b.Reading s mask dpu array ∧ b.Fetched s mask dpu .wram array offset 0)
  · refine triple_forM_range (I := fun k s => b.Reading s mask dpu array ∧ b.Fetched s mask dpu .wram array offset k) ?_
    intro k hk s hs
    have haddress : readAddress offset k = (offset + BitVec.ofNat 16 k).setWidth 64 := readAddress_eq (by omega)
    have hread : readOf instructionStruct (wramReadWordFrame (readAddress offset k)) =
        some (.word (offset + BitVec.ofNat 16 k)) := by
      rw [haddress]
      exact readOf_word _
    have hquiet : QuietFrame instructionStruct (wramReadWordFrame (readAddress offset k)) :=
      quiet_instructionFrame (by decide) (by decide) (by decide)
    obtain ⟨s', hrun, hreading, hhost, hresult⟩ := hs.1.query (by decide) hquiet (writeOf_of_byte (by decide))
      (frameWord_ne_empty _ _ _ _ _ _ _) hread
    rw [EStateM.run_bind, hrun]
    refine ⟨hreading.put k _, hs.2.put hreading.alike.nrCis hhost fun ci hci hbit => ?_⟩
    rw [hresult ci hci hbit]
    rfl
  · exact fun s hs => ⟨hs.1, fetched_zero hs.2⟩

/-! ## Instructions, byte by byte -/

/-- One buffer with another element in one place. -/
def withElement (host : Nat → Nat → Word) (q k : Nat) (w : Word) : Nat → Nat → Word := fun p i =>
  if p = q ∧ i = k then w else host p i

theorem put_one {ci : Nat} (hvisited : s.visited mask = [ci]) (value : Nat → Word → Word) :
    (s.put mask array k value).host = withElement s.host (array ci) k (value ci (s.host (array ci) k)) := by
  funext p i
  rw [put_host, hvisited, withElement]
  by_cases hp : array ci = p
  · by_cases hi : i = k
    · simp [hp, hi]
    · simp [hi]
  · simp [hp, Ne.symm hp]

theorem visited_one {ci : Nat} (hci : ci < s.rank.nrCis) (hone : ∀ ci' < s.rank.nrCis, mask.getLsbD ci' = decide (ci' = ci)) :
    s.visited mask = [ci] := by
  have hfilter : s.visited mask = (List.range s.rank.nrCis).filter (· == ci) := by
    apply List.filter_congr
    intro ci' hmem
    have hlt : ci' < s.rank.nrCis := List.mem_range.mp hmem
    rw [visits_eq s.rank hlt, hone ci' hlt]
    rfl
  rw [hfilter, List.filter_beq, List.count_eq_one_of_mem List.nodup_range (List.mem_range.mpr hci)]
  rfl

theorem Fetched.withElement {kind : MemKind} {offset : BitVec 16} {s' : Board} {ci : Nat} (hci : ci < b.rank.nrCis)
    (hone : ∀ ci' < b.rank.nrCis, mask.getLsbD ci' = decide (ci' = ci)) (h : b.Fetched s mask dpu kind array offset k)
    (hhost : s'.host = Board.withElement s.host (array ci) k (b.element kind ci dpu (offset + BitVec.ofNat 16 k))) :
    b.Fetched s' mask dpu kind array offset (k + 1) := by
  have hbit : mask.getLsbD ci = true := by rw [hone ci hci, decide_eq_true rfl]
  intro p i
  rw [hhost, Board.withElement]
  split
  · next hplace => exact .inr ⟨ci, hci, hbit, hplace.1.symm, by omega, by rw [hplace.2]⟩
  · next hplace =>
    obtain ⟨hsame, hlate⟩ | ⟨ci', hci', hbit', hp, hlt, hword⟩ := h p i
    · refine .inl ⟨hsame, fun ci' hci' hbit' hp => ?_⟩
      have hle := hlate ci' hci' hbit' hp
      rw [hone ci' hci', decide_eq_true_eq] at hbit'
      have hne : i ≠ k := fun hi => hplace ⟨by rw [← hp, hbit'], hi⟩
      omega
    · exact .inr ⟨ci', hci', hbit', hp, by omega, hword⟩

theorem withElement_withElement (host : Nat → Nat → Word) (q k : Nat) (w w' : Word) :
    withElement (withElement host q k w) q k w' = withElement host q k w' := by
  funext p i
  simp only [withElement]
  split <;> rfl

theorem withElement_at (host : Nat → Nat → Word) (q k : Nat) (w : Word) : withElement host q k w q k = w := by
  simp [withElement]

theorem withElement_self (host : Nat → Nat → Word) (q k : Nat) : withElement host q k (host q k) = host := by
  funext p i
  simp only [withElement]
  split
  · next hplace => rw [hplace.1, hplace.2]
  · rfl

/-- The word of the host after `bytes` bytes of an instruction. -/
structure Assembled (word w : Word) (bytes : Nat) : Prop where
  low : ∀ n < bytes, byteOf w n = byteOf word n
  high : bytes = 6 → byteOf w 6 = 0 ∧ byteOf w 7 = 0

theorem Assembled.eq_cut {word w : Word} (h : Assembled word w 6) : w = MemKind.iram.cut word := by
  apply eq_of_bytes
  intro n hn
  obtain ⟨h6, h7⟩ := h.high rfl
  by_cases hlow : n < 6
  · rw [h.low n hlow, MemKind.byteOf_cut word .iram (by simp only [MemKind.width]; omega)]
  · obtain rfl | rfl : n = 6 ∨ n = 7 := by omega
    · rw [h6, MemKind.byteOf_cut_high word .iram (by decide)]
    · rw [h7, MemKind.byteOf_cut_high word .iram (by decide)]

/-- The next byte; the last clears those an instruction does not have. -/
theorem Assembled.next {word w : Word} {bytes : Nat} (h : Assembled word w bytes) (hlt : bytes < 6) :
    let w' := setByte w bytes (byteOf word bytes)
    Assembled word (if bytes = 5 then setByte (setByte w' 6 0) 7 0 else w') (bytes + 1) := by
  intro w'
  have hbyte : byteOf word bytes &&& 0xFF#64 = byteOf word bytes := by
    rw [byteOf, BitVec.and_assoc, BitVec.and_self]
  have hlow : ∀ n < bytes + 1, byteOf w' n = byteOf word n := by
    intro n hn
    rw [byteOf_setByte _ _ (by omega), hbyte]
    split
    · next heq => rw [heq]
    · exact h.low n (by omega)
  split
  · next hlast =>
    refine ⟨fun n hn => ?_, fun _ => ⟨?_, ?_⟩⟩
    · rw [byteOf_setByte _ _ (by omega), if_neg (by omega), byteOf_setByte _ _ (by omega), if_neg (by omega)]
      exact hlow n hn
    · rw [byteOf_setByte _ _ (by decide), if_neg (by decide), byteOf_setByte _ _ (by decide), if_pos rfl]
      rfl
    · rw [byteOf_setByte _ _ (by decide), if_pos rfl]
      rfl
  · next hmore => exact ⟨hlow, fun hsix => by omega⟩

section Instruction

variable {ci : Nat} {offset : BitVec 16}

/-- The six frames of an instruction. -/
theorem iramRead_element (hci : ci < b.rank.nrCis) (hone : ∀ ci' < b.rank.nrCis, mask.getLsbD ci' = decide (ci' = ci))
    (hk : offset.toNat + k < 2 ^ 16) (h : b.Reading s mask dpu array) :
    Triple (fun t => t = s)
      ((List.range 6).forM fun byte => do
        send (execFrame mask iramReadStruct (iramReadByteFrame byte (readAddress offset k)))
        modify fun b => b.put mask array k fun ci w =>
          let w := setByte w byte (b.chips ci).result
          if byte = 5 then setByte (setByte w 6 0) 7 0 else w)
      (fun _ t => b.Reading t mask dpu array ∧
        t.host = withElement s.host (array ci) k (b.element .iram ci dpu (offset + BitVec.ofNat 16 k))) fun _ _ => False := by
  have hbit : mask.getLsbD ci = true := by rw [hone ci hci, decide_eq_true rfl]
  let word := (b.port ci).chip.memory dpu .iram (offset + BitVec.ofNat 16 k)
  let reached : Nat → Board → Prop := fun bytes t =>
    b.Reading t mask dpu array ∧ ∃ w, t.host = withElement s.host (array ci) k w ∧ Assembled word w bytes
  refine Triple.weaken (P := reached 0) (Q := fun _ => reached 6) (E := fun _ _ => False) (triple_forM_range ?_) ?_ ?_
    fun _ _ h => h
  · intro byte hbyte t ht
    obtain ⟨hreading, w, hhost, hassembled⟩ := ht
    have hread : readOf iramReadStruct (iramReadByteFrame byte (readAddress offset k)) =
        some (.instructionByte byte (offset + BitVec.ofNat 16 k)) := by
      rw [readOf_byte hbyte, readAddress_eq hk, BitVec.setWidth_setWidth_of_le _ (by decide), BitVec.setWidth_eq]
    obtain ⟨t', hrun, hreading', hhost', hresult⟩ := hreading.query (by decide) (quiet_iramRead hbyte _)
      (writeOf_of_byte (by decide)) (frameWord_ne_empty _ _ _ _ _ _ _) hread
    have hcis : t'.rank.nrCis = b.rank.nrCis := hreading'.alike.nrCis
    have hvisited : t'.visited mask = [ci] := visited_one (hcis.symm ▸ hci) fun ci' hci' => hone ci' (hcis ▸ hci')
    rw [EStateM.run_bind, hrun]
    refine ⟨hreading'.put k _, _, ?_, hassembled.next hbyte⟩
    show (t'.put mask array k _).host = _
    rw [put_one hvisited, hhost', hhost, withElement_withElement, withElement_at, hresult ci hci hbit]
    rfl
  · intro t ht
    rw [ht]
    exact ⟨h, s.host (array ci) k, (withElement_self _ _ _).symm, fun n hn => absurd hn (Nat.not_lt_zero n), fun hsix => by omega⟩
  · intro _ t ht
    obtain ⟨hreading, w, hhost, hassembled⟩ := ht
    refine ⟨hreading, ?_⟩
    rw [hhost, hassembled.eq_cut]
    rfl

theorem ufiIramRead_spec {len : BitVec 16} (hfit : offset.toNat + len.toNat ≤ 2 ^ 16) (hci : ci < b.rank.nrCis)
    (hone : ∀ ci' < b.rank.nrCis, mask.getLsbD ci' = decide (ci' = ci)) :
    Triple (fun s => b.Reading s mask dpu array ∧ s.host = b.host) (ufiIramRead mask array offset len)
      (fun _ s => b.Reading s mask dpu array ∧ b.Fetched s mask dpu .iram array offset len.toNat) fun _ _ => False := by
  apply Triple.pre (P := fun s => b.Reading s mask dpu array ∧ b.Fetched s mask dpu .iram array offset 0)
  · refine triple_forM_range (I := fun k s => b.Reading s mask dpu array ∧ b.Fetched s mask dpu .iram array offset k) ?_
    intro k hk
    refine triple_each fun s hs => ?_
    refine (iramRead_element hci hone (by omega) hs.1).post fun _ t ht => ⟨ht.1, ?_⟩
    exact hs.2.withElement hci hone ht.2
  · exact fun s hs => ⟨hs.1, fetched_zero hs.2⟩

end Instruction

/-! ## A selection and a read -/

theorem Selected.reading {b' : Board} (h : b.Selected b' mask dpu) : b.Reading b' mask dpu array :=
  ⟨h.alike, fun _ hp => .inl (h.used ▸ hp), h.noted, fun ci hci hbit => (h.inside ci hci hbit).1, fun _ hci => h.memory hci⟩

/-- An access that reads `kind` from the interfaces of a mask. -/
def Reads (access : Access) (kind : MemKind) (b : Board) (mask : Mask) (dpu : Nat) (array : Nat → Nat)
    (offset len : BitVec 16) : Prop :=
  Triple (fun s => b.Reading s mask dpu array ∧ s.host = b.host) (access mask array offset len)
    (fun _ s => b.Reading s mask dpu array ∧ b.Fetched s mask dpu kind array offset len.toNat) fun _ _ => False

theorem accessDpu_read {access : Access} {kind : MemKind} {m : CiMatrix} (array : Nat → Nat) (hcis : b.rank.nrCis ≤ 8) (hdpu : dpu < 256)
    (hnoted : ∀ ci < b.rank.nrCis, (b.port ci).Noted)
    (hreads : Reads access kind b (b.effective mask dpu) dpu array (m.offset.setWidth 16) (m.size.setWidth 16)) :
    Triple (fun s => s = b) (accessDpu access m mask dpu array)
      (fun _ s => b.Reading s (b.effective mask dpu) dpu array ∧
        b.Fetched s (b.effective mask dpu) dpu kind array (m.offset.setWidth 16) (m.size.setWidth 16).toNat)
      fun _ _ => False := by
  obtain ⟨s, hselect, hselected⟩ := ufiSelectDpu_spec mask hcis hdpu hnoted
  refine triple_bind (R := fun mask' s' => mask' = b.effective mask dpu ∧ s' = s) ?_ fun mask' => ?_
  · intro t ht
    rw [ht, hselect]
    exact ⟨rfl, rfl⟩
  · refine triple_each fun t ht => ?_
    rw [ht.1, ht.2]
    refine hreads.pre fun s' hs' => ?_
    rw [hs']
    exact ⟨hselected.reading, hselected.host⟩

/-! ## The reads of a plan -/

/-- The board after some visits: each element of a buffer is what it was, or that of a DPU visited. -/
structure ReadSoFar (b s : Board) (kind : MemKind) (m : CiMatrix) (visits : List Visit) : Prop where
  alike : b.Alike s
  used : ∀ p ∈ s.used, p ∈ b.used ∨ ∃ ci dpu, b.Covers visits ci dpu ∧ m.ptr (b.rank.xferIndex ci dpu) = p
  noted : ∀ ci < b.rank.nrCis, (s.port ci).Noted
  memory : ∀ ci < b.rank.nrCis, (s.port ci).chip.memory = (b.port ci).chip.memory
  host : ∀ p i,
    (s.host p i = b.host p i ∧
      ∀ ci dpu, b.Covers visits ci dpu → m.ptr (b.rank.xferIndex ci dpu) = p → (m.size.setWidth 16).toNat ≤ i) ∨
    ∃ ci dpu, b.Covers visits ci dpu ∧ m.ptr (b.rank.xferIndex ci dpu) = p ∧ i < (m.size.setWidth 16).toNat ∧
      s.host p i = b.element kind ci dpu (m.offset.setWidth 16 + BitVec.ofNat 16 i)

variable {m : CiMatrix} {kind : MemKind} {visits plan : List Visit}

theorem readSoFar_nil (hnoted : ∀ ci < b.rank.nrCis, (b.port ci).Noted) : b.ReadSoFar b kind m [] :=
  ⟨.refl b, fun _ hp => .inl hp, hnoted, fun _ _ => rfl,
    fun _ _ => .inl ⟨rfl, fun _ _ hcovers => absurd hcovers not_covers_nil⟩⟩

theorem ReadSoFar.visit {t : Board} (hcis : b.rank.nrCis ≤ 8) (h : b.ReadSoFar s kind m visits)
    (harray : ∀ ci < b.rank.nrCis, mask.getLsbD ci = true → array ci = m.ptr (b.rank.xferIndex ci dpu))
    (hreading : s.Reading t (b.effective mask dpu) dpu array)
    (hfetched : s.Fetched t (b.effective mask dpu) dpu kind array (m.offset.setWidth 16) (m.size.setWidth 16).toNat) :
    b.ReadSoFar t kind m (visits ++ [(mask, dpu)]) := by
  have hcis' : s.rank.nrCis = b.rank.nrCis := h.alike.nrCis
  have hptr : ∀ ci < b.rank.nrCis, (b.effective mask dpu).getLsbD ci = true → array ci = m.ptr (b.rank.xferIndex ci dpu) :=
    fun ci hci hbit => harray ci hci (mask_of_effective hcis hci hbit)
  refine ⟨h.alike.trans hreading.alike, fun p hp => ?_, fun ci hci => hreading.noted ci (hcis'.symm ▸ hci), fun ci hci => ?_,
    fun p i => ?_⟩
  · obtain hbefore | ⟨ci, hci, hbit, heq⟩ := hreading.used p hp
    · obtain hbefore | ⟨ci, dpu', hcovers, heq⟩ := h.used p hbefore
      · exact .inl hbefore
      · exact .inr ⟨ci, dpu', covers_append.mpr (.inl hcovers), heq⟩
    · rw [hcis'] at hci
      exact .inr ⟨ci, dpu, covers_append.mpr (.inr ⟨hci, rfl, hbit⟩), (hptr ci hci hbit).symm.trans heq⟩
  · rw [hreading.memory ci (hcis'.symm ▸ hci), h.memory ci hci]
  · obtain ⟨hsame, hlate⟩ | ⟨ci, hci, hbit, heq, hlt, hword⟩ := hfetched p i
    · rw [hsame]
      obtain ⟨hsame, hbefore⟩ | ⟨ci, dpu', hcovers, heq, hlt, hword⟩ := h.host p i
      · refine .inl ⟨hsame, fun ci dpu' hcovers heq => ?_⟩
        obtain hcovers | ⟨hci, rfl, hbit⟩ := covers_append.mp hcovers
        · exact hbefore ci dpu' hcovers heq
        · exact hlate ci (hcis'.symm ▸ hci) hbit ((hptr ci hci hbit).trans heq)
      · exact .inr ⟨ci, dpu', covers_append.mpr (.inl hcovers), heq, hlt, hword⟩
    · rw [hcis'] at hci
      refine .inr ⟨ci, dpu, covers_append.mpr (.inr ⟨hci, rfl, hbit⟩), (hptr ci hci hbit).symm.trans heq, hlt, ?_⟩
      rw [hword, element, element, h.memory ci hci]

/-- A plan of reads never fails. -/
theorem read_sweep {access : Access} (hcis : b.rank.nrCis ≤ 8) (hdpu : ∀ visit ∈ plan, visit.2 < 256)
    (hreads : ∀ s mask dpu array, b.Alike s → (mask, dpu) ∈ plan →
      Reads access kind s (b.effective mask dpu) dpu array (m.offset.setWidth 16) (m.size.setWidth 16)) :
    Sweep access m b plan (fun s visits => b.ReadSoFar s kind m visits) fun _ _ => False := by
  refine ⟨fun _ _ h => h.alike, fun s visits mask dpu array rest hplan h harray => ?_⟩
  have hmem : (mask, dpu) ∈ plan := by
    rw [hplan]
    simp
  have hcis' : s.rank.nrCis = b.rank.nrCis := h.alike.nrCis
  have haccess := accessDpu_read (b := s) (m := m) array (hcis'.symm ▸ hcis) (hdpu _ hmem)
    (fun ci hci => h.noted ci (hcis' ▸ hci))
    (by rw [h.alike.effective]; exact hreads s mask dpu array h.alike hmem)
  rw [h.alike.effective] at haccess
  exact haccess.post fun _ t ht => h.visit hcis harray ht.1 ht.2

end Board

end DpuBackend.Ufi
