import DpuBackend.Api.ElfLoad
import DpuBackend.Api.MramWrite

/-
  The load of one segment.

  A load whose answers are all good (`goodAnswers`) decides everything: with other answers
  the run is the same or ends with a status (`dpuElfLoad_answers`). With good answers a
  segment's load is decided by its checks: `Segment.range` is what they let through, and
  `doLoad_good` says that just this is stored. Where programs on the DPUs access the MRAMs,
  `copyToMrams_stores` says the same of the write of `MramWrite`.

  The checks work on 32 and on 16 bits of the header. `range_exact` says that a segment
  which lost no bit there (`GElfPhdr.Narrow`) lies in the memory that its address selects
  and is stored at its own bytes; a segment that lost one is not inside (`narrow_of_inside`).
-/

namespace DpuBackend.Api.ElfLoad

open DpuBackend.Lib

/-! ## The answers -/

/-- Nothing outside the loader fails. -/
def goodAnswers : Answers where
  eventStart := none
  eventEnd := none
  calloc _ := true
  rawfile _ := true
  patch _ _ := none
  select _ := none
  frame _ _ := none
  transfer _ := none
  accessStart _ _ := none
  accessEnd _ _ := none
  regs _ := none

/-- A run that is `y`, unless it ends with a status. -/
def StatusOr {α : Type} (x y : Except Stop α) : Prop := x = y ∨ ∃ e, x = .error (.status e)

theorem StatusOr.refl {α : Type} (x : Except Stop α) : StatusOr x x := .inl rfl

theorem StatusOr.status {α : Type} (e : LoadError) (y : Except Stop α) : StatusOr (.error (.status e)) y := .inr ⟨e, rfl⟩

theorem StatusOr.map {α β : Type} {x y : Except Stop α} (h : StatusOr x y) (f : α → β) : StatusOr (x.map f) (y.map f) := by
  obtain rfl | ⟨e, rfl⟩ := h
  · exact .refl _
  · exact .status e _

section Answers

variable (file : ElfFile) (env : Env) (answers : Answers) (k : Nat) (src : Mem UInt8)

theorem writeFrames_answers (memory : Memory) (offset : BitVec 16) : ∀ (is : List Nat) (s : LoadState),
    StatusOr (writeFrames env answers k memory offset src is s) (writeFrames env goodAnswers k memory offset src is s)
  | [], s => .refl _
  | i :: is, s => by
    unfold writeFrames
    cases answers.frame k i with
    | some e => exact .status e _
    | none => exact writeFrames_answers memory offset is _

theorem writeCells_answers (memory : Memory) (offset len : BitVec 16) (s : LoadState) :
    StatusOr (writeCells env answers k memory offset len src s) (writeCells env goodAnswers k memory offset len src s) := by
  unfold writeCells
  cases answers.select k with
  | some e => exact .status e _
  | none => exact writeFrames_answers env answers k src memory offset _ s

theorem verified_answers {x y : Result} (check : Except DpuError (Option Range)) (s : LoadState) (h : StatusOr x y) :
    StatusOr (verified check s x) (verified check s y) := by
  unfold verified
  split
  · exact .refl _
  · exact .refl _
  · exact h

theorem accessMrams_answers (offset size : BitVec 32) : ∀ (ds : List Nat) (s : LoadState),
    StatusOr (accessMrams env answers k src offset size ds s) (accessMrams env goodAnswers k src offset size ds s)
  | [], s => .refl _
  | d :: ds, s => by
    unfold accessMrams
    cases answers.accessStart k d with
    | some e => exact .status e _
    | none =>
      change StatusOr (if _ then _ else _) (if _ then _ else _)
      split
      · exact accessMrams_answers offset size ds s
      · split
        · exact .refl _
        · cases answers.accessEnd k d with
          | some e => exact .status e _
          | none => exact accessMrams_answers offset size ds _

theorem copyToMrams_answers (s : LoadState) (isSg : Bool) (offset size : BitVec 32) :
    StatusOr (copyToMrams env answers k src s isSg offset size) (copyToMrams env goodAnswers k src s isSg offset size) := by
  unfold copyToMrams
  split
  · exact .refl _
  · split
    · exact accessMrams_answers ..
    · split
      · exact .refl _
      · cases answers.transfer k with
        | some e => exact .status e _
        | none => exact .refl _

theorem doLoad_answers (s : LoadState) (seg : Segment) :
    StatusOr (doLoad env answers k src s seg) (doLoad env goodAnswers k src s seg) := by
  have hiram : StatusOr (loadIram env answers k src s seg.addr seg.size) (loadIram env goodAnswers k src s seg.addr seg.size) := by
    unfold loadIram dpuCopyToIram
    split
    · exact .refl _
    · exact verified_answers _ s (writeCells_answers ..)
  have hcopy : StatusOr (dpuCopyToWram env answers k src s seg.addr seg.size)
      (dpuCopyToWram env goodAnswers k src s seg.addr seg.size) := by
    unfold dpuCopyToWram
    split
    · exact .refl _
    · exact verified_answers _ s (writeCells_answers ..)
  have hmrams : ∀ isSg, StatusOr (dpuCopyToMrams env answers k src s isSg seg.addr seg.size)
      (dpuCopyToMrams env goodAnswers k src s isSg seg.addr seg.size) :=
    fun isSg => verified_answers _ s (copyToMrams_answers ..)
  unfold doLoad
  split
  · unfold loadRegs
    split
    · exact .refl _
    · cases answers.regs k with
      | some e => exact .status e _
      | none => exact .refl _
  · exact hiram
  · unfold loadWram
    split
    · exact hcopy
    · split
      · exact .refl _
      · exact hcopy
  · unfold loadMram
    split
    · exact hmrams _
    · unfold dpuCopyToMram
      split
      · exact .refl _
      · split
        · exact .refl _
        · exact hmrams false

theorem fetchContent_answers (phdr : GElfPhdr) (calloc rawfile : Bool) :
    StatusOr (fetchContent file phdr calloc rawfile) (fetchContent file phdr true true) := by
  cases calloc with
  | false => exact .status _ _
  | true =>
    cases rawfile with
    | false => exact .status _ _
    | true => exact .refl _

theorem doPatch_answers (init init' : Bool) (seg : Segment) :
    StatusOr (doPatch env answers k init seg) (doPatch env goodAnswers k init' seg) := by
  unfold doPatch
  split
  · unfold patchIram
    split
    · exact .refl _
    · cases answers.patch k init with
      | some e => exact .status e _
      | none => exact .refl _
  · exact .refl _

theorem loadSegment_answers (phdr : GElfPhdr) (s : LoadState) :
    StatusOr (loadSegment file env answers k phdr s) (loadSegment file env goodAnswers k phdr s) := by
  unfold loadSegment
  cases extractAndConvertMemoryInformation phdr with
  | error e => exact .refl _
  | ok seg =>
    obtain hfetch | ⟨e, hfetch⟩ := fetchContent_answers file phdr (answers.calloc k) (answers.rawfile k)
    · have hgood : fetchContent file phdr (goodAnswers.calloc k) (goodAnswers.rawfile k) =
          fetchContent file phdr true true := rfl
      simp only [hfetch, hgood]
      cases fetchContent file phdr true true with
      | error e => exact .refl _
      | ok content =>
        obtain hpatch | ⟨e, hpatch⟩ := doPatch_answers env answers k (seg.accumulator s == 0#32)
          (seg.accumulator s == 0#32) seg
        · simp only [hpatch]
          cases doPatch env goodAnswers k (seg.accumulator s == 0#32) seg with
          | error e => exact .refl _
          | ok u => exact (doLoad_answers env answers k _ s seg).map _
        · simp only [hpatch]
          exact .status e _
    · simp only [hfetch]
      exact .status e _

theorem loadPhdrs_answers : ∀ (phdrs : List GElfPhdr) (k : Nat) (s : LoadState),
    StatusOr (loadPhdrs file env answers k phdrs s) (loadPhdrs file env goodAnswers k phdrs s)
  | [], k, s => .refl _
  | phdr :: phdrs, k, s => by
    unfold loadPhdrs
    split
    · obtain hseg | ⟨e, hseg⟩ := loadSegment_answers file env answers k phdr s
      · rw [hseg]
        cases loadSegment file env goodAnswers k phdr s with
        | error e => exact .refl _
        | ok s' => exact loadPhdrs_answers phdrs (k + 1) s'
      · rw [hseg]
        exact .status e _
    · exact loadPhdrs_answers phdrs (k + 1) s

theorem dpuCustom_answers (answer : Option LoadError) (s : LoadState) :
    StatusOr (dpuCustom env answer s) (dpuCustom env none s) := by
  unfold dpuCustom
  split
  · exact .refl _
  · cases answer with
    | some e => exact .status e _
    | none => exact .refl _

/-- A load is the one of good answers, or ends with a status. -/
theorem dpuElfLoad_answers (s : LoadState) :
    StatusOr (dpuElfLoad file env answers s) (dpuElfLoad file env goodAnswers s) := by
  unfold dpuElfLoad
  obtain hstart | ⟨e, hstart⟩ := dpuCustom_answers env answers.eventStart s
  · have hgood : goodAnswers.eventStart = none := rfl
    rw [hstart, hgood]
    cases dpuCustom env none s with
    | error e => exact .refl _
    | ok s' =>
      obtain hload | ⟨e, hload⟩ := loadPhdrs_answers file env answers file.phdrs 0 s'
      · simp only [hload]
        cases loadPhdrs file env goodAnswers 0 file.phdrs s' with
        | error e => exact .refl _
        | ok s'' => exact dpuCustom_answers env answers.eventEnd s''
      · simp only [hload]
        exact .status e _
  · rw [hstart]
    exact .status e _

end Answers

/-! ## What is stored -/

section Stores

variable (env : Env) (k : Nat) (src : Mem UInt8) (s : LoadState)

theorem store_zero (t : Target) (memory : Memory) (a : Nat) : t.store memory a 0 src s = s := by
  unfold Target.store
  congr 1
  funext d
  rw [Mem.put_zero, Function.update_eq_self]
  exact ite_self _

/-- Two stores one behind the other are one. -/
theorem store_store (t : Target) (memory : Memory) (a n m : Nat) :
    t.store memory (a + n) m (fun i => src (n + i)) (t.store memory a n src s) = t.store memory a (n + m) src s := by
  unfold Target.store
  congr 1
  funext d
  by_cases h : d ∈ t.reached
  · simp only [h, if_true, Function.update_idem, Function.update_self, Mem.put_put]
  · simp only [h, if_false]

/-- The frames from cell `i` on complete the store of the first `i` cells. -/
theorem writeFrames_good (memory : Memory) (offset : BitVec 16) : ∀ n i : Nat, offset.toNat + (i + n) ≤ 2 ^ 16 →
    writeFrames env goodAnswers k memory offset src (List.range' i n)
        (env.target.store memory (memory.unit * offset.toNat) (memory.unit * i) (kept memory src) s)
      = .ok (env.target.store memory (memory.unit * offset.toNat) (memory.unit * (i + n)) (kept memory src) s)
  | 0, i, _ => rfl
  | n + 1, i, h => by
    have haddr : (offset + BitVec.ofNat 16 i).toNat = offset.toNat + i := by
      rw [BitVec.toNat_add, BitVec.toNat_ofNat]
      omega
    have hnext := writeFrames_good memory offset n (i + 1) (by omega)
    rw [List.range'_succ]
    show writeFrames env goodAnswers k memory offset src (List.range' (i + 1) n)
      (env.target.store memory (memory.unit * (offset + BitVec.ofNat 16 i).toNat) memory.unit
        (fun j => kept memory src (memory.unit * i + j)) _) = _
    rw [haddr, Nat.mul_add, store_store, ← Nat.mul_succ, hnext, Nat.succ_add_eq_add_succ]

theorem writeCells_good (memory : Memory) {offset len : BitVec 16} (h : offset.toNat + len.toNat ≤ 2 ^ 16) :
    writeCells env goodAnswers k memory offset len src s
      = .ok (env.target.store memory (memory.unit * offset.toNat) (memory.unit * len.toNat) (kept memory src) s) := by
  have hall := writeFrames_good env k src s memory offset len.toNat 0 (by omega)
  rw [Nat.mul_zero, store_zero, Nat.zero_add, ← List.range_eq_range'] at hall
  exact hall

/-- A byte of a byte is kept as it is. -/
theorem kept_mram : kept .mram src = src := by
  funext i
  exact if_pos (Nat.mod_lt i Nat.one_pos)

/-- Two stores of the same bytes are one. -/
theorem store_twice (memory : Memory) (a n d : Nat) (ds : List Nat) :
    (Target.rank ds).store memory a n src ((Target.dpu d true).store memory a n src s) =
      (Target.rank (d :: ds)).store memory a n src s := by
  have hput : ∀ m : Mem UInt8, (m.put a n src).put a n src = m.put a n src := by
    intro m
    funext x
    by_cases hx : Mem.Outside a n x
    · rw [Mem.put_outside _ _ _ hx]
    · unfold Mem.Outside at hx
      obtain ⟨i, rfl⟩ := Nat.exists_eq_add_of_le (show a ≤ x by omega)
      rw [Mem.put_inside _ _ _ (by omega), Mem.put_inside _ _ _ (by omega)]
  unfold Target.store
  congr 1
  funext x
  simp only [Target.reached, if_true, List.mem_cons, List.not_mem_nil, or_false]
  by_cases hd : x = d
  · by_cases hds : x ∈ ds
    · simp only [hd, true_or, if_true, Function.update_idem, Function.update_self, hput, ite_self]
    · rw [if_neg hds, if_pos hd, if_pos (.inl hd)]
  · simp only [hd, false_or, if_false]

/-- The accesses on the DPUs of a list. -/
theorem accessMrams_good (offset size : BitVec 32) (hlisted : size ≠ 0#32 → 0 ∈ env.target.reached) (ds : List Nat) :
    accessMrams env goodAnswers k src offset size ds s =
      .ok ((Target.rank ds).store .mram offset.toNat size.toNat src s) := by
  induction ds generalizing s with
  | nil => rfl
  | cons d ds ih =>
    change (if size = 0#32 then _ else if 0 ∉ env.target.reached then _ else accessMrams env goodAnswers k src offset
      size ds ((Target.dpu d true).store .mram offset.toNat size.toNat src s)) = _
    by_cases hzero : size = 0#32
    · have hnone : size.toNat = 0 := by rw [hzero]; rfl
      rw [if_pos hzero, ih, hnone, store_zero, store_zero]
    · rw [if_neg hzero, if_neg (not_not.mpr (hlisted hzero)), ih, store_twice]

/-- Without the DPU of entry 0 the first access of a transfer reads a `NULL` buffer. -/
theorem accessMrams_null (offset : BitVec 32) {size : BitVec 32} (hsize : size ≠ 0#32)
    (hlisted : 0 ∉ env.target.reached) (d : Nat) (ds : List Nat) :
    accessMrams env goodAnswers k src offset size (d :: ds) s = .error (.matrix .nullBuffer) := by
  change (if size = 0#32 then _ else if 0 ∉ env.target.reached then _ else _) = _
  rw [if_neg hsize, if_pos hlisted]

/-- What the checks decide: an error, no access, or the range stored. -/
def stored (env : Env) (src : Mem UInt8) (s : LoadState) (fault : Option MatrixFault) :
    Except LoadError (Option Range) → Result
  | .error e => .error (.status e)
  | .ok none => .ok s
  | .ok (some g) =>
    match fault with
    | some fault => .error (.matrix fault)
    | none => .ok (env.target.store g.memory (g.memory.unit * g.offset) (g.memory.unit * g.size) (kept g.memory src) s)

/-- What goes wrong with the matrix of an MRAM transfer. -/
def matrixFault (env : Env) (isSg : Bool) (size : BitVec 32) : Option MatrixFault :=
  if env.mramAccessByDpuOnly = true then
    if size ≠ 0#32 ∧ env.target.reached ≠ [] ∧ 0 ∉ env.target.reached then some .nullBuffer else none
  else if isSg = true then some .blocksFromContent
  else none

theorem dpuCopyToIram_good (henabled : env.target.enabled = true) (index nb : BitVec 16) :
    dpuCopyToIram env goodAnswers k src s index nb =
      stored env src s none ((verifyIramAccess16 index nb env.sizes.toMemories).mapError .api) := by
  have hne : env.target.enabled ≠ false := by simp [henabled]
  unfold dpuCopyToIram verified
  rw [if_neg hne]
  cases hcheck : verifyIramAccess16 index nb env.sizes.toMemories with
  | error e => rfl
  | ok r =>
    cases r with
    | none => rfl
    | some g =>
      obtain ⟨rfl, -, -, hhigh⟩ := verifyIramAccess16_ok hcheck
      have hiram := env.sizes.iramSize.isLt
      exact writeCells_good env k src s .iram (by omega)

/-- In a WRAM below 2^16 words the 16 bits of `ufi_wram_write` keep the offset and the length. -/
theorem dpuCopyToWram_good (henabled : env.target.enabled = true) (offset : BitVec 32) {nb : BitVec 32}
    (hnb : nb.toNat < 2 ^ 30) :
    dpuCopyToWram env goodAnswers k src s offset nb =
      stored env src s none ((verifyWramAccess offset nb env.sizes.toMemories).mapError .api) := by
  have hne : env.target.enabled ≠ false := by simp [henabled]
  unfold dpuCopyToWram verified
  rw [if_neg hne]
  cases hcheck : verifyWramAccess offset nb env.sizes.toMemories with
  | error e => rfl
  | ok r =>
    cases r with
    | none => rfl
    | some g =>
      obtain ⟨rfl, -, hlow, hhigh⟩ := verifyWramAccess_ok hcheck
      have hwords := env.sizes.wram_words
      have hoffset : (offset.setWidth 16).toNat = offset.toNat := by
        rw [BitVec.toNat_setWidth]
        omega
      have hlen : (nb.setWidth 16).toNat = nb.toNat := by
        rw [BitVec.toNat_setWidth]
        omega
      have hrange : (offset.setWidth 16).toNat + (nb.setWidth 16).toNat ≤ 2 ^ 16 := by omega
      have hwrite := writeCells_good env k src s .wram hrange
      rw [hoffset, hlen] at hwrite
      exact hwrite

/-- The checks of an MRAM access, and whether the rank runs. -/
def mramRange (env : Env) (offset size : BitVec 32) : Except LoadError (Option Range) :=
  match verifyMramAccess offset size env.sizes.toMemories with
  | .error e => .error (.api e)
  | .ok r => if env.nbDpuRunning > 0 then .error .mramBusy else .ok r

/-- Both ways to the MRAMs store the range, if the matrix is not at fault. -/
theorem copied_good (isSg : Bool) (offset size : BitVec 32) :
    (if env.mramAccessByDpuOnly = true then accessMrams env goodAnswers k src offset size env.target.reached s
      else if isSg = true then .error (.matrix .blocksFromContent)
      else .ok (env.target.store .mram offset.toNat size.toNat src s)) =
      stored env src s (matrixFault env isSg size) (.ok (some ⟨.mram, offset.toNat, size.toNat⟩)) := by
  have hstore : env.target.store .mram (Memory.unit .mram * offset.toNat) (Memory.unit .mram * size.toNat)
      (kept .mram src) s = env.target.store .mram offset.toNat size.toNat src s := by
    rw [kept_mram, Memory.unit, Nat.one_mul, Nat.one_mul]
  have hnone : ∀ fault, fault = none →
      stored env src s fault (.ok (some ⟨.mram, offset.toNat, size.toNat⟩)) =
        .ok (env.target.store .mram offset.toNat size.toNat src s) := by
    intro fault hfault
    rw [hfault]
    exact congrArg Except.ok hstore
  by_cases honly : env.mramAccessByDpuOnly = true
  · rw [if_pos honly]
    by_cases hnull : size ≠ 0#32 ∧ env.target.reached ≠ [] ∧ 0 ∉ env.target.reached
    · have hfault : matrixFault env isSg size = some .nullBuffer := by rw [matrixFault, if_pos honly, if_pos hnull]
      obtain ⟨hsize, hreached, hlisted⟩ := hnull
      obtain ⟨d, ds, hds⟩ := List.exists_cons_of_ne_nil hreached
      rw [hfault, hds, accessMrams_null env k src s offset hsize hlisted]
      rfl
    · rw [hnone _ (by rw [matrixFault, if_pos honly, if_neg hnull])]
      by_cases hreached : env.target.reached = []
      · have hsame : env.target.store .mram offset.toNat size.toNat src s = s := by simp [Target.store, hreached]
        rw [hsame, hreached]
        rfl
      · refine accessMrams_good env k src s offset size (fun hsize => ?_) _
        by_contra hlisted
        exact hnull ⟨hsize, hreached, hlisted⟩
  · have hfault : matrixFault env isSg size = if isSg = true then some .blocksFromContent else none := by
      rw [matrixFault, if_neg honly]
    rw [if_neg honly, hfault]
    cases isSg with
    | true => rfl
    | false => exact (hnone none rfl).symm

theorem dpuCopyToMrams_good (isSg : Bool) (offset size : BitVec 32) :
    dpuCopyToMrams env goodAnswers k src s isSg offset size =
      stored env src s (matrixFault env isSg size) (mramRange env offset size) := by
  unfold dpuCopyToMrams verified mramRange
  cases hcheck : verifyMramAccess offset size env.sizes.toMemories with
  | error e => rfl
  | ok r =>
    cases r with
    | none =>
      unfold verifyMramAccess at hcheck
      split at hcheck
      · cases hcheck
      · split at hcheck <;> cases hcheck
    | some g =>
      obtain ⟨rfl, -⟩ := verifyMramAccess_ok hcheck
      show copyToMrams env goodAnswers k src s isSg offset size = stored env src s _ (if _ then _ else _)
      unfold copyToMrams
      by_cases hrunning : env.nbDpuRunning > 0
      · rw [if_pos hrunning, if_pos hrunning]
        rfl
      · rw [if_neg hrunning, if_neg hrunning]
        exact copied_good env k src s isSg offset size

/-- What a segment's load asks to be stored, by the checks. -/
def Segment.range (env : Env) (seg : Segment) : Except LoadError (Option Range) :=
  match seg.memory with
  | none => if env.target.isRank = true then .error .elfInvalidFile else .ok none
  | some .iram => (verifyIramAccess16 (seg.addr.setWidth 16) (seg.size.setWidth 16) env.sizes.toMemories).mapError .api
  | some .wram => (verifyWramAccess seg.addr seg.size env.sizes.toMemories).mapError .api
  | some .mram => if env.target.isRank = false ∧ seg.size = 0#32 then .ok none else mramRange env seg.addr seg.size

/-- What goes wrong with the matrix of the load; that of a single DPU is cleared. -/
def Segment.fault (env : Env) (k : Nat) (seg : Segment) : Option MatrixFault :=
  match seg.memory with
  | some .mram => matrixFault env (env.target.isRank && env.matrixIsSg k) seg.size
  | _ => none

/-- With good answers a load is decided by its checks. -/
theorem doLoad_good (henabled : env.target.enabled = true) {seg : Segment}
    (hsize : seg.memory = some .wram → seg.size.toNat < 2 ^ 30) :
    doLoad env goodAnswers k src s seg = stored env src s (seg.fault env k) (seg.range env) := by
  obtain ⟨memory, addr, size⟩ := seg
  cases memory with
  | none =>
    cases htarget : env.target with
    | rank l => simp [doLoad, loadRegs, Segment.range, htarget, Target.isRank, stored]
    | dpu d e => simp [doLoad, loadRegs, Segment.range, htarget, Target.isRank, stored, goodAnswers]
  | some memory =>
    cases memory with
    | iram => exact dpuCopyToIram_good env k src s henabled _ _
    | wram =>
      have hcopy := dpuCopyToWram_good env k src s henabled addr (hsize rfl)
      show loadWram env goodAnswers k src s addr size = _
      unfold loadWram
      split
      · exact hcopy
      · split
        · next hzero =>
          simp only [Segment.range, verifyWramAccess, hzero, if_true]
          rfl
        · exact hcopy
    | mram =>
      show loadMram env goodAnswers k src s addr size = _
      cases htarget : env.target with
      | rank l =>
        have hcopy := dpuCopyToMrams_good env k src s (env.matrixIsSg k) addr size
        simpa [loadMram, Segment.range, Segment.fault, htarget, Target.isRank] using hcopy
      | dpu d e =>
        have hcopy := dpuCopyToMrams_good env k src s false addr size
        have hne : env.target.enabled ≠ false := by simp [henabled]
        simp only [loadMram, htarget, dpuCopyToMram, Segment.range, Segment.fault, Target.isRank,
          true_and, Bool.false_and]
        rw [htarget] at hne
        rw [if_neg hne]
        split
        · rfl
        · exact hcopy

end Stores

/-- What the accesses of a write leave in the MRAMs is one store of the buffer, where every
entry of the matrix points to it. -/
theorem copyToMrams_stores {ρ : Type} {prog : AccessProgram ρ} {next : DpuState ρ → Nat} {hw : DpuSizes}
    {env : AccessEnv} {r : AccessRank} {m : Matrix} (hprog : prog.Copies next hw) (hin : m.offset + m.size ≤ hw.mramSize)
    (hoffset : 8 ∣ m.offset) (hentries : ∀ d, m.Writes r d → m.ptr d = m.ptr 0) {st st' : CopyState ρ}
    (h : copyToMramsUsingDpuProgram prog hw env r m st = .ok st') {listed : List Nat}
    (hlisted : ∀ d, d ∈ listed ↔ d ∈ List.range (r.nrDpusPerCi * r.nrCis) ∧ m.Writes r d) {s : LoadState}
    (hs : ∀ d, s.memory d .mram = (st.dpus d).mram) (d : Nat) :
    (st'.dpus d).mram = ((Target.rank listed).store .mram m.offset m.size
      (fun i => st.host.user (m.ptr 0 + i)) s).memory d .mram := by
  have hexact : ∀ idx, m.Writes r idx → m.ExactAt idx := by
    intro idx hwrites
    unfold Matrix.ExactAt
    split
    · exact .inl (Nat.mod_eq_zero_of_dvd hoffset)
    · exact (hentries idx hwrites).symm
  have hwrote : WroteDpus r m _ st st' := copy_exact hprog hin _ List.nodup_range (fun idx _ => hexact idx) h
  simp only [Target.store]
  by_cases hd : d ∈ (Target.rank listed).reached
  · obtain ⟨hrange, hwrites⟩ := (hlisted d).mp hd
    rw [if_pos hd, Function.update_self, hs, hwrote.listed d hrange hwrites, hentries d hwrites]
  · rw [if_neg hd, hs]
    apply hwrote.others
    exact fun hlist => hd ((hlisted d).mpr hlist)

/-! ## The segment in exact integers -/

namespace GElfPhdr

variable (p : GElfPhdr)

/-- The memory the address selects. -/
def memory : Memory := memorySwitch (p.pVaddr.setWidth 32)

/-- The address in that memory, in bytes. -/
def start : Nat := p.pVaddr.toNat - p.memory.base

/-- A segment that is loaded, and is not that of the registers. -/
def Loads : Prop := p.pType = ptLoad ∧ p.pVaddr ≠ regsMask.setWidth 64

instance : Decidable p.Loads := inferInstanceAs (Decidable (_ ∧ _))

/-- Every byte of the segment is a byte of the memory. -/
def Inside (sizes : ChipMemories) : Prop :=
  ∀ i < p.pMemsz.toNat, p.start + i < p.memory.unit * sizes.sizeOf p.memory

/-- The bytes of the segment as they are loaded, patches included. -/
def bytes (file : ElfFile) (env : Env) (k : Nat) : Mem UInt8 :=
  match extractAndConvertMemoryInformation p with
  | .error _ => file.content p
  | .ok seg => seg.patched env k (file.content p)

/-- Byte `a` of memory `m` is one of the segment. -/
def Covers (m : Memory) (a : Nat) : Prop := p.memory = m ∧ p.start ≤ a ∧ a < p.start + p.pMemsz.toNat

instance (m : Memory) (a : Nat) : Decidable (p.Covers m a) := inferInstanceAs (Decidable (_ ∧ _ ∧ _))

/-- `memcpy` has the bytes of the segment in the file, and room for them. -/
def Fetchable (file : ElfFile) : Prop :=
  p.pFilesz.toNat ≤ p.pMemsz.toNat ∧
    (p.pFilesz.toNat = 0 ∨ p.pOffset.toNat + p.pFilesz.toNat ≤ file.image.length)

/-- The checks of the loader and of the copy let the segment through. -/
def Accepted (env : Env) : Prop :=
  ∃ seg r, extractAndConvertMemoryInformation p = .ok seg ∧ seg.range env = .ok r

/-- No bit of the address and the size is lost: the fields fit 32 bits, the index and the
number of instructions 16 bits, and the end of an MRAM access 32 bits. -/
def Narrow : Prop :=
  p.pMemsz.toNat ≠ 0 → p.pVaddr.toNat < 2 ^ 32 ∧ p.pMemsz.toNat < 2 ^ 32 ∧
    match p.memory with
    | .iram => p.start < 2 ^ 19 ∧ p.pMemsz.toNat < 2 ^ 19
    | .mram => p.start + p.pMemsz.toNat < 2 ^ 32
    | .wram => True

end GElfPhdr

section Exact

variable {p : GElfPhdr} {seg : Segment} {env : Env}

theorem low_vaddr (p : GElfPhdr) : (p.pVaddr.setWidth 32).toNat = p.pVaddr.toNat % 2 ^ 32 := BitVec.toNat_setWidth ..

theorem low_memsz (p : GElfPhdr) : (p.pMemsz.setWidth 32).toNat = p.pMemsz.toNat % 2 ^ 32 := BitVec.toNat_setWidth ..

theorem aligned_ok {align : Nat} {error : DpuError} {memory : Memory} {addr base size : BitVec 32}
    (hmask : (~~~alignMask align).toNat = 2 ^ align - 1) (h : aligned align error memory addr base size = .ok seg) :
    seg = ⟨some memory, base >>> align, size >>> align⟩ ∧ addr.toNat % 2 ^ align = 0 ∧ size.toNat % 2 ^ align = 0 := by
  unfold aligned at h
  split at h
  · cases h
  · next haddr =>
    split at h
    · cases h
    · next hsize =>
      refine ⟨(Except.ok.inj h).symm, ?_, ?_⟩
      · exact (and_low_eq_zero hmask).mp (not_not.mp haddr)
      · exact (and_low_eq_zero hmask).mp (not_not.mp hsize)

/-- The cells a segment is converted to are its bytes, as far as 32 bits have them. -/
theorem extract_ok (h : extractAndConvertMemoryInformation p = .ok seg)
    (hregs : p.pVaddr.setWidth 32 ≠ regsMask) :
    seg.memory = some p.memory
      ∧ p.memory.unit * seg.addr.toNat = p.pVaddr.toNat % 2 ^ 32 - p.memory.base
      ∧ p.memory.unit * seg.size.toNat = p.pMemsz.toNat % 2 ^ 32 := by
  have hvaddr := low_vaddr p
  have hmemsz := low_memsz p
  unfold extractAndConvertMemoryInformation at h
  simp only [if_neg hregs] at h
  cases hmemory : memorySwitch (p.pVaddr.setWidth 32) with
  | iram =>
    have hbase := memorySwitch_iram.mp hmemory
    have hmask := toNat_and_not ((and_iramMask _).mpr hbase)
    simp only [hmemory] at h
    obtain ⟨rfl, haddr, hsize⟩ := aligned_ok (by decide) h
    have hiram : iramMask.toNat = 2 ^ 31 := by decide
    simp only [GElfPhdr.memory, hmemory, Memory.unit, Memory.base, BitVec.toNat_ushiftRight, hmask, hiram,
      Nat.shiftRight_eq_div_pow, iramAlign] at haddr hsize ⊢
    refine ⟨trivial, ?_, ?_⟩
    · omega
    · omega
  | mram =>
    have hbase := (memorySwitch_mram.mp hmemory).2
    have hmask := toNat_and_not ((and_mramMask _).mpr hbase)
    have hmram : mramMask.toNat = 2 ^ 27 := by decide
    simp only [hmemory] at h
    cases h
    simp only [GElfPhdr.memory, hmemory, Memory.unit, Memory.base, hmask, hmram, Nat.one_mul]
    refine ⟨trivial, ?_, ?_⟩
    · omega
    · omega
  | wram =>
    simp only [hmemory] at h
    obtain ⟨rfl, haddr, hsize⟩ := aligned_ok (by decide) h
    simp only [GElfPhdr.memory, hmemory, Memory.unit, Memory.base, BitVec.toNat_ushiftRight,
      Nat.shiftRight_eq_div_pow, wramAlign] at haddr hsize ⊢
    refine ⟨trivial, ?_, ?_⟩
    · omega
    · omega

/-- The address of a memory is at or above its base. -/
theorem base_le (p : GElfPhdr) : p.memory.base ≤ p.pVaddr.toNat % 2 ^ 32 := by
  have hvaddr := low_vaddr p
  unfold GElfPhdr.memory
  cases hmemory : memorySwitch (p.pVaddr.setWidth 32) with
  | iram =>
    have := memorySwitch_iram.mp hmemory
    simp only [Memory.base]
    omega
  | mram =>
    have := (memorySwitch_mram.mp hmemory).2
    simp only [Memory.base]
    omega
  | wram => exact Nat.zero_le _

/-- A segment inside its memory has lost no bit. -/
theorem narrow_of_inside (h : p.Inside env.sizes) : p.Narrow := by
  intro hne
  have hlast := h (p.pMemsz.toNat - 1) (by omega)
  have hbase := base_le p
  have hiram := env.sizes.iramSize.isLt
  have hmram := env.sizes.mramSize.isLt
  have hwram := env.sizes.wram_words
  unfold GElfPhdr.start at hlast ⊢
  cases hmemory : p.memory with
  | iram =>
    simp only [hmemory, Memory.base, Memory.unit, Memories.sizeOf] at hlast hbase ⊢
    omega
  | mram =>
    simp only [hmemory, Memory.base, Memory.unit, Memories.sizeOf] at hlast hbase ⊢
    omega
  | wram =>
    simp only [hmemory, Memory.base, Memory.unit, Memories.sizeOf] at hlast hbase ⊢
    exact ⟨by omega, by omega, trivial⟩

theorem mapError_ok {x : Except DpuError (Option Range)} {r : Option Range}
    (h : x.mapError LoadError.api = .ok r) : x = .ok r := by
  cases x with
  | error e => cases h
  | ok r' => exact congrArg Except.ok (Except.ok.inj h)

/-- A check that ends early has a size of 0. -/
theorem verifyIramAccess16_none {o n : BitVec 16} {mem : Memories} (h : verifyIramAccess16 o n mem = .ok none) :
    n.toNat = 0 := by
  unfold verifyIramAccess16 at h
  split at h
  · next hzero => rw [hzero]; rfl
  · split at h <;> cases h

theorem verifyWramAccess_none {o n : BitVec 32} {mem : Memories} (h : verifyWramAccess o n mem = .ok none) :
    n.toNat = 0 := by
  unfold verifyWramAccess at h
  split at h
  · next hzero => rw [hzero]; rfl
  · split at h <;> cases h

theorem mramRange_ok {o n : BitVec 32} {r : Option Range} (h : mramRange env o n = .ok r) :
    r = some ⟨.mram, o.toNat, n.toNat⟩ ∧ (o.toNat + n.toNat) % 2 ^ 32 ≤ env.sizes.mramSize.toNat := by
  unfold mramRange at h
  split at h
  · cases h
  · next r' hcheck =>
    split at h
    · cases h
    · cases h
      cases r with
      | none =>
        unfold verifyMramAccess at hcheck
        split at hcheck
        · cases hcheck
        · split at hcheck <;> cases hcheck
      | some g =>
        obtain ⟨rfl, -, hhigh⟩ := verifyMramAccess_ok hcheck
        exact ⟨rfl, hhigh⟩

/-- What is asked to be stored for a segment that lost no bit is the segment, and it lies in its memory. -/
theorem range_exact {r : Option Range} (hseg : extractAndConvertMemoryInformation p = .ok seg)
    (hr : seg.range env = .ok r) (hnarrow : p.Narrow) (hregs : p.pVaddr ≠ regsMask.setWidth 64)
    (hne : p.pMemsz.toNat ≠ 0) :
    ∃ g, r = some g ∧ g.memory = p.memory ∧ g.memory.unit * g.offset = p.start
      ∧ g.memory.unit * g.size = p.pMemsz.toNat ∧ p.Inside env.sizes := by
  obtain ⟨hvaddr, hmemsz, hfits⟩ := hnarrow hne
  -- an address of 32 bits is the registers' only if all its 64 bits are
  have hlow : p.pVaddr.setWidth 32 ≠ regsMask := by
    intro heq
    apply hregs
    have := congrArg BitVec.toNat heq
    rw [low_vaddr, Nat.mod_eq_of_lt hvaddr] at this
    apply BitVec.eq_of_toNat_eq
    rw [this]
    rfl
  obtain ⟨hmem, haddr, hsize⟩ := extract_ok hseg hlow
  rw [Nat.mod_eq_of_lt hvaddr] at haddr
  rw [Nat.mod_eq_of_lt hmemsz] at hsize
  unfold GElfPhdr.Inside GElfPhdr.start
  unfold GElfPhdr.start at hfits
  unfold Segment.range at hr
  cases hmemory : p.memory with
  | iram =>
    simp only [hmem, hmemory] at hr
    simp only [hmemory, Memory.unit, Memory.base] at haddr hsize hfits ⊢
    -- index and count fit the 16 bits that the check looks at
    have hindex : (seg.addr.setWidth 16).toNat = seg.addr.toNat := by
      rw [BitVec.toNat_setWidth]
      omega
    have hnb : (seg.size.setWidth 16).toNat = seg.size.toNat := by
      rw [BitVec.toNat_setWidth]
      omega
    cases r with
    | none =>
      have := verifyIramAccess16_none (mapError_ok hr)
      omega
    | some g =>
      obtain ⟨rfl, -, -, hhigh⟩ := verifyIramAccess16_ok (mapError_ok hr)
      refine ⟨_, rfl, rfl, (congrArg (8 * ·) hindex).trans haddr, (congrArg (8 * ·) hnb).trans hsize, ?_⟩
      intro i hi
      show _ < 8 * env.sizes.iramSize.toNat
      omega
  | mram =>
    simp only [hmem, hmemory] at hr
    simp only [hmemory, Memory.unit, Memory.base] at haddr hsize hfits ⊢
    split at hr
    · next hzero =>
      rw [hzero.2] at hsize
      exact absurd hsize.symm hne
    · obtain ⟨rfl, hhigh⟩ := mramRange_ok hr
      refine ⟨_, rfl, rfl, haddr, hsize, ?_⟩
      intro i hi
      show _ < 1 * env.sizes.mramSize.toNat
      omega
  | wram =>
    simp only [hmem, hmemory] at hr
    simp only [hmemory, Memory.unit, Memory.base] at haddr hsize hfits ⊢
    cases r with
    | none =>
      have := verifyWramAccess_none (mapError_ok hr)
      omega
    | some g =>
      obtain ⟨rfl, -, -, hhigh⟩ := verifyWramAccess_ok (mapError_ok hr)
      refine ⟨_, rfl, rfl, haddr, hsize, ?_⟩
      intro i hi
      show _ < 4 * env.sizes.wramSize.toNat
      omega

/-- Nothing is stored for the registers. -/
theorem range_regs {r : Option Range} (hseg : extractAndConvertMemoryInformation p = .ok seg)
    (hr : seg.range env = .ok r) (hlow : p.pVaddr.setWidth 32 = regsMask) : r = none := by
  have hnone : seg.memory = none := by
    unfold extractAndConvertMemoryInformation at hseg
    simp only [if_pos hlow] at hseg
    rw [← Except.ok.inj hseg]
  unfold Segment.range at hr
  simp only [hnone] at hr
  split at hr
  · cases hr
  · exact (Except.ok.inj hr).symm

/-- Nothing is stored for a segment of size 0. -/
theorem range_empty {r : Option Range} (hseg : extractAndConvertMemoryInformation p = .ok seg)
    (hr : seg.range env = .ok r) (hzero : p.pMemsz.toNat = 0) : ∀ g, r = some g → g.size = 0 := by
  intro g hg
  subst hg
  by_cases hlow : p.pVaddr.setWidth 32 = regsMask
  · have hnone := range_regs hseg hr hlow
    cases hnone
  · obtain ⟨hmem, -, hsize⟩ := extract_ok hseg hlow
    have hunit : p.memory.unit ≠ 0 := by cases p.memory <;> decide
    have hsize : seg.size.toNat = 0 := by
      rw [hzero, Nat.zero_mod] at hsize
      exact (Nat.mul_eq_zero.mp hsize).resolve_left hunit
    unfold Segment.range at hr
    cases hmemory : p.memory with
    | iram =>
      simp only [hmem, hmemory] at hr
      obtain ⟨rfl, hne, -⟩ := verifyIramAccess16_ok (mapError_ok hr)
      rw [BitVec.toNat_setWidth, hsize] at hne
      exact absurd rfl hne
    | mram =>
      simp only [hmem, hmemory] at hr
      split at hr
      · cases hr
      · obtain ⟨hg, -⟩ := mramRange_ok hr
        cases hg
        exact hsize
    | wram =>
      simp only [hmem, hmemory] at hr
      obtain ⟨rfl, hne, -⟩ := verifyWramAccess_ok (mapError_ok hr)
      exact absurd hsize hne

theorem store_apply {t : Target} {d : Nat} (hd : d ∈ t.reached) (memory : Memory) (a n : Nat) (src : Mem UInt8)
    (s : LoadState) (m : Memory) (x : Nat) :
    (t.store memory a n src s).memory d m x =
      if memory = m ∧ a ≤ x ∧ x < a + n then src (x - a) else s.memory d m x := by
  simp only [Target.store, if_pos hd]
  by_cases hm : memory = m
  · subst hm
    simp only [Function.update_self, true_and]
    rfl
  · rw [Function.update_of_ne (Ne.symm hm), if_neg fun h => hm h.1]

/-- A load changes the bytes of its segment and no others. -/
theorem stored_memory {r : Option Range} (hseg : extractAndConvertMemoryInformation p = .ok seg)
    (hr : seg.range env = .ok r) (hnarrow : p.pVaddr ≠ regsMask.setWidth 64 → p.Narrow) {src : Mem UInt8}
    {fault : Option MatrixFault} {s s' : LoadState} (h : stored env src s fault (.ok r) = .ok s') {d : Nat}
    (hd : d ∈ env.target.reached) (m : Memory) (a : Nat) :
    s'.memory d m a =
      if p.pVaddr ≠ regsMask.setWidth 64 ∧ p.Covers m a then kept m src (a - p.start) else s.memory d m a := by
  by_cases hregs : p.pVaddr = regsMask.setWidth 64
  · rw [if_neg fun hcover => hcover.1 hregs]
    have hlow : p.pVaddr.setWidth 32 = regsMask := by rw [hregs]; rfl
    obtain rfl := range_regs hseg hr hlow
    cases h
    rfl
  · cases r with
    | none =>
      have hcover : ¬(p.pVaddr ≠ regsMask.setWidth 64 ∧ p.Covers m a) := by
        intro hcover
        have hne : p.pMemsz.toNat ≠ 0 := by
          have := hcover.2.2
          omega
        obtain ⟨g, hg, -⟩ := range_exact hseg hr (hnarrow hregs) hregs hne
        cases hg
      rw [if_neg hcover]
      cases h
      rfl
    | some g =>
      cases fault with
      | some fault => cases h
      | none =>
        cases h
        rw [store_apply hd]
        by_cases hne : p.pMemsz.toNat = 0
        · have hsize := range_empty hseg hr hne g rfl
          rw [if_neg (by rw [hsize]; omega), if_neg]
          intro hcover
          have := hcover.2.2
          omega
        · obtain ⟨g', hg, hmemory, hstart, hlen, -⟩ := range_exact hseg hr (hnarrow hregs) hregs hne
          cases hg
          rw [hstart, hlen, hmemory]
          simp only [GElfPhdr.Covers, ne_eq, hregs, not_false_eq_true, true_and]
          by_cases hm : p.memory = m
          · rw [hm]
          · rw [if_neg fun hcover => hm hcover.1, if_neg fun hcover => hm hcover.1]

end Exact

end DpuBackend.Api.ElfLoad
