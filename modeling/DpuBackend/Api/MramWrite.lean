import DpuBackend.Api.MramAccess
import DpuBackend.Api.SymbolAccess

/-
  A write to the MRAMs of a rank by the program that runs on its DPUs.

  C ↔ Lean (src/api/src/dpu_memory.c):
    copy_to_mrams_using_dpu_program          ↔ copyToMramsUsingDpuProgram
    its body for one DPU                     ↔ writeDpu
    aligned_size                             ↔ Matrix.alignedSize
    the reads of the first and last 8 bytes  ↔ readHead, readTail

  A range or a buffer that is not aligned goes through `mram_buffer`: the first and the last
  eight bytes of the aligned range are read, the data is put between them, and the whole is
  written back. `copy_to_mrams_exact_iff` says for which matrices that is an exact write.

  `idx` counts `dpu_id * nr_cis + slice_id` as the two loops do. The allocations, and what
  each access returns, are the environment's; `accesses` is a ghost log.
-/

namespace DpuBackend.Api

open DpuBackend.Lib DpuBackend.Lib.Mem

/-- The transfer matrix; 0 is `NULL`. -/
structure Matrix where
  ptr : Nat → Nat
  offset : Nat
  size : Nat

namespace Matrix

variable (m : Matrix)

def alignedSize : Nat := (m.size + m.offset % 8 + 7) % 2 ^ 32 / 8 * 8

/-- The write of a DPU goes through `mram_buffer`. -/
def copies (idx : Nat) : Prop := m.ptr idx % 4 ≠ 0 ∨ m.offset % 8 ≠ 0 ∨ m.size % 8 ≠ 0

instance (idx : Nat) : Decidable (m.copies idx) := inferInstanceAs (Decidable (_ ∨ _))

def head : Transfer := ⟨.buffer 0, m.offset / 8 * 8, 8⟩

def tail : Transfer := ⟨.buffer (m.alignedSize - 8), (m.offset + m.alignedSize - 8) % 2 ^ 32, 8⟩

def aligned : Transfer := ⟨.buffer 0, m.offset / 8 * 8, m.alignedSize⟩

/-- The matrix itself, of which an access reads entry 0. -/
def whole : Transfer := ⟨.user (m.ptr 0), m.offset, m.size⟩

end Matrix

/-- The topology of a rank, and which of its DPUs are enabled. -/
structure AccessRank where
  nrCis : Nat
  nrDpusPerCi : Nat
  enabled : Nat → Bool

/-- What the allocations and the accesses return; `realloc` with what the block holds. -/
structure AccessEnv where
  arrays : Except DpuError Unit
  realloc : Nat → Option (Mem UInt8)
  access : Nat → Except DpuError Unit

/-- An access: the DPU, the direction and the transfer. -/
structure AccessCall where
  idx : Nat
  type : DpuTransferType
  transfer : Transfer

structure CopyState (ρ : Type) where
  host : HostMemory
  dpus : Nat → DpuState ρ
  accesses : List AccessCall

section Copy

variable {ρ : Type} (prog : AccessProgram ρ) (hw : DpuSizes) (env : AccessEnv) (r : AccessRank) (m : Matrix)

/-- `access_mram_using_dpu_program_individual` on one DPU of the rank. -/
def accessDpu (idx : Nat) (type : DpuTransferType) (t : Transfer) (st : CopyState ρ) : Except DpuError (CopyState ρ) :=
  match env.access st.accesses.length with
  | .error e => .error e
  | .ok _ =>
    let s := accessMramUsingDpuProgramIndividual prog hw type t ⟨st.host, st.dpus idx⟩
    .ok
      { host := s.host
        dpus := Function.update st.dpus idx s.dpu
        accesses := ⟨idx, type, t⟩ :: st.accesses }

def readHead (idx : Nat) (st : CopyState ρ) : Except DpuError (CopyState ρ) :=
  if m.offset % 8 ≠ 0 then accessDpu prog hw env idx .fromMram m.head st else .ok st

def readTail (idx : Nat) (st : CopyState ρ) : Except DpuError (CopyState ρ) :=
  if (m.size + m.offset % 8) % 8 ≠ 0 then accessDpu prog hw env idx .fromMram m.tail st else .ok st

/-- The `memcpy` of the caller's data. -/
def copyData (idx : Nat) (st : CopyState ρ) : CopyState ρ :=
  { st with
    host :=
      { st.host with
        buffer := st.host.buffer.put (m.offset % 8) m.size fun i => st.host.user (m.ptr idx + i) } }

def writeDpu (idx : Nat) (st : CopyState ρ) : Except DpuError (CopyState ρ) :=
  if m.copies idx then
    match env.realloc idx with
    | none => .error .system
    | some buffer => do
      let st ← readHead prog hw env m idx { st with host := { st.host with buffer := buffer } }
      let st ← readTail prog hw env m idx st
      accessDpu prog hw env idx .toMram m.aligned (copyData m idx st)
  else accessDpu prog hw env idx .toMram m.whole st

/-- The body of the loops. -/
def visitDpu (st : CopyState ρ) (idx : Nat) : Except DpuError (CopyState ρ) :=
  if m.ptr idx = 0 then .ok st
  else if r.enabled idx = false then .ok st
  else match env.arrays with
    | .error e => .error e
    | .ok _ => writeDpu prog hw env m idx st

def copyToMramsUsingDpuProgram (st : CopyState ρ) : Except DpuError (CopyState ρ) :=
  (List.range (r.nrDpusPerCi * r.nrCis)).foldlM (visitDpu prog hw env r m) st

end Copy

/-! ## The accesses of a write -/

/-- The matrix lists the DPU, and it is enabled. -/
def Matrix.Writes (m : Matrix) (r : AccessRank) (idx : Nat) : Prop := m.ptr idx ≠ 0 ∧ r.enabled idx = true

/-- The accesses for one DPU, the latest first. -/
def Matrix.accesses (m : Matrix) (r : AccessRank) (idx : Nat) : List AccessCall :=
  if m.ptr idx = 0 then []
  else if r.enabled idx = false then []
  else if m.copies idx then
    ⟨idx, .toMram, m.aligned⟩ :: ((if (m.size + m.offset % 8) % 8 ≠ 0 then [⟨idx, .fromMram, m.tail⟩] else []) ++
      if m.offset % 8 ≠ 0 then [⟨idx, .fromMram, m.head⟩] else [])
  else [⟨idx, .toMram, m.whole⟩]

/-- The preconditions of an access: alignment, and an entry 0 that is the data of that DPU. -/
structure AccessCall.Meets (m : Matrix) (a : AccessCall) : Prop where
  aligned : a.transfer.Aligned
  data : ∀ p, a.transfer.ptr = .user p → p = m.ptr a.idx

/-- The condition on one DPU: where nothing has to be aligned its buffer is that of entry 0, and where
the range starts inside a word it ends on one. -/
def Matrix.ExactAt (m : Matrix) (idx : Nat) : Prop :=
  if m.copies idx then m.offset % 8 = 0 ∨ (m.size + m.offset % 8) % 8 = 0 else m.ptr 0 = m.ptr idx

section Accesses

variable {ρ : Type} {prog : AccessProgram ρ} {hw : DpuSizes} {env : AccessEnv} {r : AccessRank} {m : Matrix} {idx : Nat}

theorem accessDpu_ok {type : DpuTransferType} {t : Transfer} {st st' : CopyState ρ}
    (h : accessDpu prog hw env idx type t st = .ok st') :
    st'.accesses = ⟨idx, type, t⟩ :: st.accesses ∧
      st'.host = (accessMramUsingDpuProgramIndividual prog hw type t ⟨st.host, st.dpus idx⟩).host ∧
      st'.dpus = Function.update st.dpus idx
        (accessMramUsingDpuProgramIndividual prog hw type t ⟨st.host, st.dpus idx⟩).dpu := by
  unfold accessDpu at h
  split at h
  · cases h
  · cases h
    exact ⟨rfl, rfl, rfl⟩

theorem readHead_accesses {st st' : CopyState ρ} (h : readHead prog hw env m idx st = .ok st') :
    st'.accesses = (if m.offset % 8 ≠ 0 then [⟨idx, .fromMram, m.head⟩] else []) ++ st.accesses := by
  unfold readHead at h
  by_cases h8 : m.offset % 8 ≠ 0
  · rw [if_pos h8] at h ⊢
    exact (accessDpu_ok h).1
  · rw [if_neg h8] at h ⊢
    cases h
    rfl

theorem readTail_accesses {st st' : CopyState ρ} (h : readTail prog hw env m idx st = .ok st') :
    st'.accesses = (if (m.size + m.offset % 8) % 8 ≠ 0 then [⟨idx, .fromMram, m.tail⟩] else []) ++ st.accesses := by
  unfold readTail at h
  by_cases h8 : (m.size + m.offset % 8) % 8 ≠ 0
  · rw [if_pos h8] at h ⊢
    exact (accessDpu_ok h).1
  · rw [if_neg h8] at h ⊢
    cases h
    rfl

/-- A step that returns is followed by the next. -/
theorem bind_ok {α β : Type} {x : Except DpuError α} {f : α → Except DpuError β} {b : β} (h : x >>= f = .ok b) :
    ∃ a, x = .ok a ∧ f a = .ok b := by
  cases x with
  | error e => cases h
  | ok a => exact ⟨a, rfl, h⟩

/-- The three steps of a write through `mram_buffer`. -/
theorem writeDpu_copies (hc : m.copies idx) {st st' : CopyState ρ} (h : writeDpu prog hw env m idx st = .ok st') :
    ∃ buffer st₁ st₂, readHead prog hw env m idx { st with host := { st.host with buffer := buffer } } = .ok st₁ ∧
      readTail prog hw env m idx st₁ = .ok st₂ ∧
      accessDpu prog hw env idx .toMram m.aligned (copyData m idx st₂) = .ok st' := by
  unfold writeDpu at h
  rw [if_pos hc] at h
  split at h
  · cases h
  · rename_i buffer _
    obtain ⟨st₁, h₁, hrest⟩ := bind_ok h
    obtain ⟨st₂, h₂, h₃⟩ := bind_ok hrest
    exact ⟨buffer, st₁, st₂, h₁, h₂, h₃⟩

/-- What a visit does: nothing, or the write of a DPU that is listed and enabled. -/
theorem visitDpu_ok {st st' : CopyState ρ} (h : visitDpu prog hw env r m st idx = .ok st') :
    ¬m.Writes r idx ∧ st' = st ∧ m.accesses r idx = [] ∨
      m.Writes r idx ∧ writeDpu prog hw env m idx st = .ok st' := by
  unfold visitDpu at h
  by_cases hp : m.ptr idx = 0
  · rw [if_pos hp] at h
    cases h
    exact .inl ⟨fun hwrites => hwrites.1 hp, rfl, if_pos hp⟩
  · rw [if_neg hp] at h
    cases hen : r.enabled idx with
    | false =>
      rw [if_pos hen] at h
      cases h
      refine .inl ⟨fun hwrites => Bool.false_ne_true (hen.symm.trans hwrites.2), rfl, ?_⟩
      rw [Matrix.accesses, if_neg hp, if_pos hen]
    | true =>
      rw [if_neg (by rw [hen]; decide)] at h
      split at h
      · cases h
      · exact .inr ⟨⟨hp, hen⟩, h⟩

theorem visitDpu_accesses {st st' : CopyState ρ} (h : visitDpu prog hw env r m st idx = .ok st') :
    st'.accesses = m.accesses r idx ++ st.accesses := by
  rcases visitDpu_ok h with ⟨-, rfl, hnone⟩ | ⟨⟨hp, hen⟩, hwrite⟩
  · rw [hnone, List.nil_append]
  · have hen' : ¬r.enabled idx = false := by rw [hen]; decide
    rw [Matrix.accesses, if_neg hp, if_neg hen']
    by_cases hc : m.copies idx
    · rw [if_pos hc]
      obtain ⟨buffer, st₁, st₂, h₁, h₂, h₃⟩ := writeDpu_copies hc hwrite
      have h₃' : st'.accesses = _ :: st₂.accesses := (accessDpu_ok h₃).1
      rw [h₃', readTail_accesses h₂, readHead_accesses h₁, List.cons_append, List.append_assoc]
    · rw [if_neg hc]
      rw [writeDpu, if_neg hc] at hwrite
      exact (accessDpu_ok hwrite).1

theorem copy_accesses : ∀ (l : List Nat) {st st' : CopyState ρ}, l.foldlM (visitDpu prog hw env r m) st = .ok st' →
    ∀ a, a ∈ st'.accesses ↔ a ∈ st.accesses ∨ ∃ idx ∈ l, a ∈ m.accesses r idx
  | [], st, st', h, a => by
    cases h
    simp
  | idx :: l, st, st', h, a => by
    rw [List.foldlM_cons] at h
    obtain ⟨st₁, hvisit, hrest⟩ := bind_ok h
    rw [copy_accesses l hrest a, visitDpu_accesses hvisit, List.mem_append, List.exists_mem_cons_iff, or_comm (b := _ ∈ _),
      or_assoc]

/-- The accesses for a DPU meet the preconditions exactly under the condition. -/
theorem accesses_meet_iff (hin : m.offset + m.size ≤ hw.mramSize) (hwrites : m.Writes r idx) :
    (∀ a ∈ m.accesses r idx, a.Meets m) ↔ m.ExactAt idx := by
  have hlt := hw.mram_lt
  have hw8 := hw.mram_words
  have hen : ¬r.enabled idx = false := by rw [hwrites.2]; decide
  rw [Matrix.accesses, if_neg hwrites.1, if_neg hen, Matrix.ExactAt]
  by_cases hc : m.copies idx
  · rw [if_pos hc, if_pos hc]
    have hsize : m.alignedSize = (m.size + m.offset % 8 + 7) / 8 * 8 := by
      rw [Matrix.alignedSize, Nat.mod_eq_of_lt (by omega)]
    have haligned : AccessCall.Meets m ⟨idx, .toMram, m.aligned⟩ :=
      ⟨⟨rfl, Nat.dvd_mul_left 8 _, Nat.dvd_mul_left 8 _⟩, fun p hp => by cases hp⟩
    have hhead : AccessCall.Meets m ⟨idx, .fromMram, m.head⟩ :=
      ⟨⟨rfl, Nat.dvd_refl 8, Nat.dvd_mul_left 8 _⟩, fun p hp => by cases hp⟩
    constructor
    · intro hmeets
      by_contra hnot
      rw [not_or] at hnot
      have htail : AccessCall.mk idx .fromMram m.tail ∈ (if (m.size + m.offset % 8) % 8 ≠ 0 then
          [AccessCall.mk idx .fromMram m.tail] else []) := by
        rw [if_pos hnot.2]
        exact List.mem_singleton_self _
      have hoffset := (hmeets _ (List.mem_cons_of_mem _ (List.mem_append_left _ htail))).aligned.offset
      change 8 ∣ (m.offset + m.alignedSize - 8) % 2 ^ 32 at hoffset
      omega
    · intro hexact a ha
      rcases List.mem_cons.mp ha with rfl | ha
      · exact haligned
      · rcases List.mem_append.mp ha with ha | ha
        · split at ha
          · rename_i htail
            rw [List.mem_singleton.mp ha]
            refine ⟨⟨?_, Nat.dvd_refl 8, ?_⟩, fun p hp => by cases hp⟩
            · change (m.alignedSize - 8) % 4 = 0
              omega
            · change 8 ∣ (m.offset + m.alignedSize - 8) % 2 ^ 32
              omega
          · cases ha
        · split at ha
          · rw [List.mem_singleton.mp ha]
            exact hhead
          · cases ha
  · rw [if_neg hc, if_neg hc]
    simp only [Matrix.copies, not_or, not_not] at hc
    constructor
    · intro hmeets
      exact (hmeets _ (List.mem_singleton_self _)).data _ rfl
    · intro heq a ha
      rw [List.mem_singleton.mp ha]
      refine ⟨⟨?_, ?_, ?_⟩, fun p hp => ?_⟩
      · change m.ptr 0 % 4 = 0
        rw [heq]
        exact hc.1
      · exact Nat.dvd_of_mod_eq_zero hc.2.2
      · exact Nat.dvd_of_mod_eq_zero hc.2.1
      · cases hp
        exact heq

end Accesses

/-! ## What is written -/

section Exact

variable {ρ : Type} {prog : AccessProgram ρ} {hw : DpuSizes} {env : AccessEnv} {r : AccessRank} {m : Matrix} {idx : Nat}
  {next : DpuState ρ → Nat}

/-- An access under its preconditions. -/
theorem accessDpu_moves (hprog : prog.Copies next hw) {type : DpuTransferType} {t : Transfer} {st st' : CopyState ρ}
    (ht : t.Aligned) (hin : t.offset + t.size ≤ hw.mramSize) (h : accessDpu prog hw env idx type t st = .ok st') :
    st'.host = movedHost type t t.size ⟨st.host, st.dpus idx⟩ ∧
      (st'.dpus idx).mram = movedMram type t t.size ⟨st.host, st.dpus idx⟩ ∧ ∀ j, j ≠ idx → st'.dpus j = st.dpus j := by
  obtain ⟨-, hhost, hdpus⟩ := accessDpu_ok h
  have hmoved : Moved type t t.size ⟨st.host, st.dpus idx⟩ _ := access_moves hprog ht hin ⟨st.host, st.dpus idx⟩
  refine ⟨hhost.trans hmoved.host, ?_, fun j hj => ?_⟩
  · rw [hdpus, Function.update_self]
    exact hmoved.mram
  · rw [hdpus, Function.update_of_ne hj]

/-- After a read into the buffer: the caller's memory and the MRAM are as before. -/
structure ReadInto (idx : Nat) (buffer : Mem UInt8) (st st' : CopyState ρ) : Prop where
  user : st'.host.user = st.host.user
  mram : (st'.dpus idx).mram = (st.dpus idx).mram
  others : ∀ j, j ≠ idx → st'.dpus j = st.dpus j
  buffer : st'.host.buffer = buffer

/-- Eight bytes read into the buffer. -/
theorem accessDpu_read (hprog : prog.Copies next hw) {k offset : Nat} {st st' : CopyState ρ}
    (ht : Transfer.Aligned ⟨.buffer k, offset, 8⟩) (hin : offset + 8 ≤ hw.mramSize)
    (h : accessDpu prog hw env idx .fromMram ⟨.buffer k, offset, 8⟩ st = .ok st') :
    ReadInto idx (st.host.buffer.put k 8 fun i => (st.dpus idx).mram (offset + i)) st st' := by
  obtain ⟨hhost, hmram, hothers⟩ := accessDpu_moves hprog ht hin h
  exact ⟨by rw [hhost]; rfl, hmram, hothers, by rw [hhost]; rfl⟩

/-- The buffer with the first eight bytes of the aligned range. -/
def headBuffer (m : Matrix) (mram buffer : Mem UInt8) : Mem UInt8 :=
  if m.offset % 8 ≠ 0 then buffer.put 0 8 fun i => mram (m.offset / 8 * 8 + i) else buffer

def tailBuffer (m : Matrix) (mram buffer : Mem UInt8) : Mem UInt8 :=
  if (m.size + m.offset % 8) % 8 ≠ 0 then
    buffer.put (m.alignedSize - 8) 8 fun i => mram (m.offset + m.alignedSize - 8 + i)
  else buffer

theorem alignedSize_eq (hin : m.offset + m.size ≤ hw.mramSize) :
    m.alignedSize = (m.size + m.offset % 8 + 7) / 8 * 8 := by
  have hlt := hw.mram_lt
  have hw8 := hw.mram_words
  rw [Matrix.alignedSize, Nat.mod_eq_of_lt (by omega)]

theorem readHead_ok (hprog : prog.Copies next hw) (hin : m.offset + m.size ≤ hw.mramSize) {st st' : CopyState ρ}
    (h : readHead prog hw env m idx st = .ok st') :
    ReadInto idx (headBuffer m (st.dpus idx).mram st.host.buffer) st st' := by
  have hw8 := hw.mram_words
  unfold readHead at h
  unfold headBuffer
  by_cases h8 : m.offset % 8 ≠ 0
  · rw [if_pos h8] at h ⊢
    exact accessDpu_read hprog ⟨rfl, Nat.dvd_refl 8, Nat.dvd_mul_left 8 _⟩ (by omega) h
  · rw [if_neg h8] at h ⊢
    cases h
    exact ⟨rfl, rfl, fun _ _ => rfl, rfl⟩

/-- Where the range starts on a word, the last eight bytes of it are read. -/
theorem readTail_ok (hprog : prog.Copies next hw) (hin : m.offset + m.size ≤ hw.mramSize)
    (hexact : m.offset % 8 = 0 ∨ (m.size + m.offset % 8) % 8 = 0) {st st' : CopyState ρ}
    (h : readTail prog hw env m idx st = .ok st') :
    ReadInto idx (tailBuffer m (st.dpus idx).mram st.host.buffer) st st' := by
  have hw8 := hw.mram_words
  have hlt := hw.mram_lt
  have hsize := alignedSize_eq hin
  unfold readTail at h
  unfold tailBuffer
  by_cases h8 : (m.size + m.offset % 8) % 8 ≠ 0
  · rw [if_pos h8] at h ⊢
    have hoff : (m.offset + m.alignedSize - 8) % 2 ^ 32 = m.offset + m.alignedSize - 8 := Nat.mod_eq_of_lt (by omega)
    rw [Matrix.tail, hoff] at h
    refine accessDpu_read hprog ⟨?_, Nat.dvd_refl 8, ?_⟩ (by omega) h
    · change (m.alignedSize - 8) % 4 = 0
      omega
    · change 8 ∣ m.offset + m.alignedSize - 8
      omega
  · rw [if_neg h8] at h ⊢
    cases h
    exact ⟨rfl, rfl, fun _ _ => rfl, rfl⟩

/-- The bytes of the aligned range that are not the caller's are the MRAM's. -/
theorem tailBuffer_rest (hin : m.offset + m.size ≤ hw.mramSize)
    (hexact : m.offset % 8 = 0 ∨ (m.size + m.offset % 8) % 8 = 0) (mram buffer : Mem UInt8) {i : Nat}
    (hi : i < m.alignedSize) (hrest : i < m.offset % 8 ∨ m.offset % 8 + m.size ≤ i) :
    tailBuffer m mram (headBuffer m mram buffer) i = mram (m.offset / 8 * 8 + i) := by
  have hsize := alignedSize_eq hin
  rcases hrest with hlo | hhi
  · -- below the range: read with the head, and no tail was read
    have h8 : m.offset % 8 ≠ 0 := by omega
    have hno : ¬(m.size + m.offset % 8) % 8 ≠ 0 := by omega
    rw [tailBuffer, if_neg hno, headBuffer, if_pos h8]
    have hin8 := put_inside buffer 0 (fun i => mram (m.offset / 8 * 8 + i)) (show i < 8 by omega)
    rwa [Nat.zero_add] at hin8
  · -- above the range: read with the tail
    have hyes : (m.size + m.offset % 8) % 8 ≠ 0 := by omega
    rw [tailBuffer, if_pos hyes]
    have hsplit : i = m.alignedSize - 8 + (i - (m.alignedSize - 8)) := by omega
    rw [hsplit, put_inside _ _ _ (by omega)]
    congr 1
    omega

/-- Reading around the data and writing all of it back writes the data. -/
theorem put_aligned (hin : m.offset + m.size ≤ hw.mramSize)
    (hexact : m.offset % 8 = 0 ∨ (m.size + m.offset % 8) % 8 = 0) (mram buffer : Mem UInt8) (data : Nat → UInt8) :
    mram.put (m.offset / 8 * 8) m.alignedSize
        (fun i => (tailBuffer m mram (headBuffer m mram buffer)).put (m.offset % 8) m.size data (0 + i)) =
      mram.put m.offset m.size data := by
  have hsize := alignedSize_eq hin
  funext x
  by_cases hx : Outside m.offset m.size x
  · rw [put_outside _ _ _ hx]
    by_cases hx' : Outside (m.offset / 8 * 8) m.alignedSize x
    · rw [put_outside _ _ _ hx']
    · unfold Outside at hx hx'
      obtain ⟨i, rfl⟩ := Nat.exists_eq_add_of_le (show m.offset / 8 * 8 ≤ x by omega)
      rw [put_inside _ _ _ (by omega), Nat.zero_add, put_outside _ _ _ (by unfold Outside; omega)]
      exact tailBuffer_rest hin hexact mram buffer (by omega) (by omega)
  · unfold Outside at hx
    obtain ⟨i, rfl⟩ := Nat.exists_eq_add_of_le (show m.offset ≤ x by omega)
    rw [put_inside mram m.offset data (by omega)]
    have hsplit : m.offset + i = m.offset / 8 * 8 + (m.offset % 8 + i) := by omega
    rw [hsplit, put_inside _ _ _ (by omega), Nat.zero_add, put_inside _ _ _ (by omega)]

/-- The DPU `idx` has been written, and nothing else of MRAM and caller. -/
structure WroteDpu (m : Matrix) (idx : Nat) (st st' : CopyState ρ) : Prop where
  mram : (st'.dpus idx).mram = (st.dpus idx).mram.put m.offset m.size fun i => st.host.user (m.ptr idx + i)
  user : st'.host.user = st.host.user
  others : ∀ j, j ≠ idx → st'.dpus j = st.dpus j

theorem writeDpu_exact (hprog : prog.Copies next hw) (hin : m.offset + m.size ≤ hw.mramSize) (hexact : m.ExactAt idx)
    {st st' : CopyState ρ} (h : writeDpu prog hw env m idx st = .ok st') : WroteDpu m idx st st' := by
  unfold Matrix.ExactAt at hexact
  by_cases hc : m.copies idx
  · rw [if_pos hc] at hexact
    obtain ⟨buffer, st₁, st₂, h₁, h₂, h₃⟩ := writeDpu_copies hc h
    have hhead := readHead_ok hprog hin h₁
    have htail := readTail_ok hprog hin hexact h₂
    have hsize := alignedSize_eq hin
    have hw8 := hw.mram_words
    obtain ⟨hhost, hmram, hothers⟩ := accessDpu_moves hprog (t := m.aligned)
      ⟨rfl, Nat.dvd_mul_left 8 _, Nat.dvd_mul_left 8 _⟩
      (show m.offset / 8 * 8 + m.alignedSize ≤ hw.mramSize by omega) h₃
    have huser : st₂.host.user = st.host.user := htail.user.trans hhead.user
    have hbuffer : st₂.host.buffer = tailBuffer m (st.dpus idx).mram (headBuffer m (st.dpus idx).mram buffer) := by
      rw [htail.buffer, hhead.mram, hhead.buffer]
    refine ⟨?_, (congrArg HostMemory.user hhost).trans huser, fun j hj => ?_⟩
    · rw [hmram]
      show (st₂.dpus idx).mram.put (m.offset / 8 * 8) m.alignedSize (fun i =>
        (st₂.host.buffer.put (m.offset % 8) m.size fun i => st₂.host.user (m.ptr idx + i)) (0 + i)) = _
      rw [htail.mram, hhead.mram, hbuffer, huser]
      exact put_aligned hin hexact _ _ _
    · exact (hothers j hj).trans ((htail.others j hj).trans (hhead.others j hj))
  · rw [if_neg hc] at hexact
    rw [writeDpu, if_neg hc] at h
    simp only [Matrix.copies, not_or, not_not] at hc
    obtain ⟨hhost, hmram, hothers⟩ := accessDpu_moves hprog (t := m.whole)
      ⟨by rw [← hexact] at hc; exact hc.1, Nat.dvd_of_mod_eq_zero hc.2.2, Nat.dvd_of_mod_eq_zero hc.2.1⟩ hin h
    refine ⟨?_, congrArg HostMemory.user hhost, hothers⟩
    rw [hmram, ← hexact]
    rfl

/-- The write of the matrix: the listed, enabled DPUs of `l` have their data, the others are as
they were. -/
structure WroteDpus (r : AccessRank) (m : Matrix) (l : List Nat) (st st' : CopyState ρ) : Prop where
  listed : ∀ idx ∈ l, m.Writes r idx →
    (st'.dpus idx).mram = (st.dpus idx).mram.put m.offset m.size fun i => st.host.user (m.ptr idx + i)
  others : ∀ idx, ¬(idx ∈ l ∧ m.Writes r idx) → (st'.dpus idx).mram = (st.dpus idx).mram

theorem copy_exact (hprog : prog.Copies next hw) (hin : m.offset + m.size ≤ hw.mramSize) :
    ∀ (l : List Nat) {st st' : CopyState ρ}, l.Nodup → (∀ idx ∈ l, m.Writes r idx → m.ExactAt idx) →
      l.foldlM (visitDpu prog hw env r m) st = .ok st' → WroteDpus r m l st st'
  | [], st, st', _, _, h => by
    cases h
    exact ⟨fun _ hmem => absurd hmem List.not_mem_nil, fun _ _ => rfl⟩
  | idx :: l, st, st', hnodup, hexact, h => by
    obtain ⟨hnot, hnodup'⟩ := List.nodup_cons.mp hnodup
    obtain ⟨st₁, hvisit, hrest⟩ := bind_ok h
    have ih := copy_exact hprog hin l hnodup' (fun j hj => hexact j (List.mem_cons_of_mem _ hj)) hrest
    rcases visitDpu_ok hvisit with ⟨hno, rfl, -⟩ | ⟨hwrites, hwrite⟩
    · constructor
      · intro j hj hwj
        rcases List.mem_cons.mp hj with rfl | hj
        · exact absurd hwj hno
        · exact ih.listed j hj hwj
      · exact fun j hj => ih.others j fun hj' => hj ⟨List.mem_cons_of_mem _ hj'.1, hj'.2⟩
    · have hwrote := writeDpu_exact hprog hin (hexact idx List.mem_cons_self hwrites) hwrite
      constructor
      · intro j hj hwj
        rcases List.mem_cons.mp hj with rfl | hj
        · rw [ih.others j fun hj' => hnot hj'.1]
          exact hwrote.mram
        · have hne : j ≠ idx := fun he => hnot (he ▸ hj)
          rw [ih.listed j hj hwj, hwrote.others j hne, hwrote.user]
      · intro j hj
        have hne : j ≠ idx := fun he => hj ⟨he ▸ List.mem_cons_self, he ▸ hwrites⟩
        rw [ih.others j fun hj' => hj ⟨List.mem_cons_of_mem _ hj'.1, hj'.2⟩, hwrote.others j hne]

/-- A write that succeeds is exact, and its accesses meet their preconditions, exactly under the
condition on each of the DPUs that are listed and enabled. -/
theorem copy_to_mrams_exact_iff (hprog : prog.Copies next hw) (hin : m.offset + m.size ≤ hw.mramSize)
    {st st' : CopyState ρ} (hlog : st.accesses = []) (h : copyToMramsUsingDpuProgram prog hw env r m st = .ok st') :
    (WroteDpus r m (List.range (r.nrDpusPerCi * r.nrCis)) st st' ∧ ∀ a ∈ st'.accesses, a.Meets m) ↔
      ∀ idx < r.nrDpusPerCi * r.nrCis, m.Writes r idx → m.ExactAt idx := by
  have haccesses := copy_accesses _ h
  constructor
  · rintro ⟨-, hmeets⟩ idx hidx hwrites
    refine (accesses_meet_iff hin hwrites).mp fun a ha => hmeets a ?_
    exact (haccesses a).mpr (.inr ⟨idx, List.mem_range.mpr hidx, ha⟩)
  · intro hexact
    refine ⟨copy_exact hprog hin _ List.nodup_range (fun idx hidx => hexact idx (List.mem_range.mp hidx)) h, ?_⟩
    intro a ha
    rw [haccesses a, hlog] at ha
    obtain ⟨idx, hidx, ha⟩ := ha.resolve_left List.not_mem_nil
    by_cases hwrites : m.Writes r idx
    · exact (accesses_meet_iff hin hwrites).mpr (hexact idx (List.mem_range.mp hidx) hwrites) a ha
    · rw [Matrix.accesses] at ha
      split at ha
      · cases ha
      · rename_i hp
        split at ha
        · cases ha
        · rename_i hen
          exact absurd ⟨hp, by simpa using hen⟩ hwrites

end Exact

/-! ## Writes that succeed -/

/-- The allocations and the accesses succeed. -/
structure AccessEnv.Good (env : AccessEnv) : Prop where
  arrays : env.arrays = .ok ()
  realloc : ∀ idx, (env.realloc idx).isSome = true
  access : ∀ n, env.access n = .ok ()

section Good

variable {ρ : Type} (prog : AccessProgram ρ) (hw : DpuSizes) {env : AccessEnv} (r : AccessRank) (m : Matrix)

theorem accessDpu_good (hgood : env.Good) (idx : Nat) (type : DpuTransferType) (t : Transfer) (st : CopyState ρ) :
    ∃ st', accessDpu prog hw env idx type t st = .ok st' := by
  rw [accessDpu, hgood.access]
  exact ⟨_, rfl⟩

theorem writeDpu_good (hgood : env.Good) (idx : Nat) (st : CopyState ρ) :
    ∃ st', writeDpu prog hw env m idx st = .ok st' := by
  rw [writeDpu]
  split
  · obtain ⟨buffer, hbuffer⟩ := Option.isSome_iff_exists.mp (hgood.realloc idx)
    rw [hbuffer]
    have hhead : ∀ st, ∃ st', readHead prog hw env m idx st = .ok st' := by
      intro st
      rw [readHead]
      split
      · exact accessDpu_good prog hw hgood ..
      · exact ⟨st, rfl⟩
    have htail : ∀ st, ∃ st', readTail prog hw env m idx st = .ok st' := by
      intro st
      rw [readTail]
      split
      · exact accessDpu_good prog hw hgood ..
      · exact ⟨st, rfl⟩
    obtain ⟨st₁, h₁⟩ := hhead { st with host := { st.host with buffer := buffer } }
    obtain ⟨st₂, h₂⟩ := htail st₁
    obtain ⟨st₃, h₃⟩ := accessDpu_good prog hw hgood idx .toMram m.aligned (copyData m idx st₂)
    refine ⟨st₃, ?_⟩
    show (readHead prog hw env m idx _ >>= _) = _
    rw [h₁]
    show (readTail prog hw env m idx st₁ >>= _) = _
    rw [h₂]
    exact h₃
  · exact accessDpu_good prog hw hgood ..

/-- When every access succeeds the write does. -/
theorem copyToMrams_good (hgood : env.Good) (st : CopyState ρ) :
    ∃ st', copyToMramsUsingDpuProgram prog hw env r m st = .ok st' := by
  have h : ∀ (l : List Nat) (st : CopyState ρ), ∃ st', l.foldlM (visitDpu prog hw env r m) st = .ok st' := by
    intro l
    induction l with
    | nil => exact fun st => ⟨st, rfl⟩
    | cons idx l ih =>
      intro st
      have hvisit : ∃ st', visitDpu prog hw env r m st idx = .ok st' := by
        rw [visitDpu, hgood.arrays]
        split
        · exact ⟨st, rfl⟩
        · split
          · exact ⟨st, rfl⟩
          · exact writeDpu_good prog hw m hgood idx st
      obtain ⟨st₁, h₁⟩ := hvisit
      obtain ⟨st₂, h₂⟩ := ih st₁
      refine ⟨st₂, ?_⟩
      rw [List.foldlM_cons, h₁]
      exact h₂
  exact h _ st

end Good

/-! ## Samples -/

/-- The number in a word. -/
def wordOf (wram : Mem UInt8) (w : Nat) : Nat :=
  (wram (4 * w)).toNat + 256 * (wram (4 * w + 1)).toNat + 65536 * (wram (4 * w + 2)).toNat +
    16777216 * (wram (4 * w + 3)).toNat

theorem wordOf_eq {wram : Mem UInt8} {w v : Nat} (h : HoldsWord wram w v) (hv : v < 2 ^ 32) : wordOf wram w = v := by
  have h0 := h 0 (by decide)
  have h1 := h 1 (by decide)
  have h2 := h 2 (by decide)
  have h3 := h 3 (by decide)
  rw [Nat.add_zero] at h0
  rw [wordOf, h0, h1, h2, h3]
  simp only [wordByte, UInt8.toNat_ofNat']
  omega

/-- A program that does what it is told to, and keeps where it stopped. -/
def sampleProgram : AccessProgram Nat where
  boot type resume s :=
    let pos := if resume then s.regs else wordOf s.wram 5
    let n := wordOf s.wram 6
    match type with
    | .toMram => { s with mram := s.mram.put pos n fun i => s.wram (32 + i), regs := pos + n }
    | .fromMram => { s with wram := s.wram.put 32 n fun i => s.mram (pos + i), regs := pos + n }

theorem sampleProgram_copies (hw : DpuSizes) : sampleProgram.Copies (fun s => s.regs) hw where
  run {type resume s pos n last} hstart h6 _ _ _ _ hend _ := by
    have hlt := hw.mram_lt
    have hn : wordOf s.wram 6 = n := wordOf_eq h6 (by omega)
    have hpos : (if resume then s.regs else wordOf s.wram 5) = pos := by
      unfold StartsAt at hstart
      split
      · rename_i hres
        rwa [if_pos hres] at hstart
      · rename_i hres
        rw [if_neg hres] at hstart
        exact wordOf_eq hstart (by omega)
    cases type with
    | toMram =>
      refine ⟨⟨?_, nofun, fun _ _ _ => rfl⟩, fun _ => ?_⟩
      · simp only [sampleProgram, hpos, hn]
      · simp only [sampleProgram, hpos, hn]
    | fromMram =>
      refine ⟨⟨rfl, fun _ i hi => ?_, fun a hlo hhi => ?_⟩, fun _ => ?_⟩
      · simp only [sampleProgram, hpos, hn]
        exact put_inside s.wram 32 (fun i => s.mram (pos + i)) hi
      · simp only [sampleProgram]
        exact put_outside s.wram 32 _ (.inl (by omega))
      · simp only [sampleProgram, hpos, hn]
  next_wram _ := rfl

/-- WRAM of 16384 words, MRAM of 64 MB. -/
def sampleSizes : DpuSizes where
  wramSize := 16384
  mramSize := 67108864
  wram_gt := by decide
  wram_even := by decide
  mram_words := by decide
  mram_lt := by decide

def sampleEnv : AccessEnv where
  arrays := .ok ()
  realloc _ := some fun _ => 255
  access _ := .ok ()

theorem sampleEnv_good : sampleEnv.Good := ⟨rfl, fun _ => rfl, fun _ => rfl⟩

/-- Two DPUs; the first has ones in its buffer at 4096, the second twos at 8192. -/
def sampleAccessRank : AccessRank := ⟨2, 1, fun _ => true⟩

def sampleMatrix (shift offset : Nat) : Matrix where
  ptr idx := if idx = 0 then 4096 + shift else if idx = 1 then 8192 + shift else 0
  offset := offset
  size := 8

def sampleCopyState : CopyState Nat where
  host := ⟨fun a => if a < 8192 then 1 else 2, fun _ => 0⟩
  dpus _ := ⟨fun _ => 0, fun _ => 0, 0⟩
  accesses := []

/-- Eight bytes at an odd address: the write is exact. -/
theorem copy_to_mrams_exact_iff_sample : ∃ st', copyToMramsUsingDpuProgram sampleProgram sampleSizes sampleEnv
    sampleAccessRank (sampleMatrix 1 8) sampleCopyState = .ok st' ∧
      WroteDpus sampleAccessRank (sampleMatrix 1 8) (List.range 2) sampleCopyState st' := by
  obtain ⟨st', h⟩ := copyToMrams_good sampleProgram sampleSizes sampleAccessRank (sampleMatrix 1 8)
    sampleEnv_good sampleCopyState
  refine ⟨st', h, ((copy_to_mrams_exact_iff (sampleProgram_copies sampleSizes) (by decide) rfl h).mpr ?_).1⟩
  intro idx hidx _
  have hidx' : idx = 0 ∨ idx = 1 := by
    change idx < 2 at hidx
    omega
  rcases hidx' with rfl | rfl
  · exact Or.inl rfl
  · exact Or.inl rfl

/-- With nothing to align the second DPU gets the first one's data; with a range that starts and ends
inside a word the read of its end is at an offset that is not aligned. -/
theorem unaligned_write_not_exact :
    (∃ st', copyToMramsUsingDpuProgram sampleProgram sampleSizes sampleEnv sampleAccessRank (sampleMatrix 0 8)
        sampleCopyState = .ok st' ∧ (st'.dpus 1).mram 8 = 1 ∧
      ¬WroteDpus sampleAccessRank (sampleMatrix 0 8) (List.range 2) sampleCopyState st') ∧
    ∃ st', copyToMramsUsingDpuProgram sampleProgram sampleSizes sampleEnv sampleAccessRank (sampleMatrix 0 4)
        sampleCopyState = .ok st' ∧ ⟨1, .fromMram, (sampleMatrix 0 4).tail⟩ ∈ st'.accesses ∧
      (sampleMatrix 0 4).tail.offset = 12 := by
  constructor
  · refine ⟨_, rfl, by decide, fun h => ?_⟩
    have hbyte := congrFun (h.listed 1 (by decide) ⟨by decide, rfl⟩) 8
    revert hbyte
    decide
  · exact ⟨_, rfl, List.mem_cons_of_mem _ List.mem_cons_self, by decide⟩

end DpuBackend.Api
