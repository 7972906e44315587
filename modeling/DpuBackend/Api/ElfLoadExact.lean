import DpuBackend.Api.ElfLoadSegment

/-
  When a load is exact.

  `loadsExactly_iff` says for which files and targets every load, whatever the rank
  answers, stays inside the file and the buffer, and leaves every segment in its memory
  when it returns `DPU_OK`. Up to the first segment that the checks refuse, `memcpy` has
  to have its bytes and the matrix of an MRAM load its type, or its entry 0; and where
  they refuse none, no segment loses a bit of its address or size, segments that share a
  byte agree on it, and no instruction has a bit above the 48 of its frame.
-/

namespace DpuBackend.Api.ElfLoad

open DpuBackend.Lib

/-- A run that stayed inside its memory. -/
def NoFault {α : Type} : Except Stop α → Prop
  | .ok _ => True
  | .error (.status _) => True
  | .error _ => False

section Segments

variable {file : ElfFile} {env : Env} {k : Nat} {p : GElfPhdr}

/-- What the program does with a segment stays inside the file and the buffer, and the
transfer is of the buffer. -/
def GElfPhdr.Safe (p : GElfPhdr) (file : ElfFile) (env : Env) (k : Nat) : Prop :=
  ∀ seg, extractAndConvertMemoryInformation p = .ok seg →
    p.Fetchable file ∧ (p.Accepted env → seg.fault env k = none)

theorem fetchContent_good (file : ElfFile) (p : GElfPhdr) :
    (p.Fetchable file ∧ fetchContent file p true true = .ok (file.content p)) ∨
      (¬p.Fetchable file ∧ ¬NoFault (fetchContent file p true true)) := by
  unfold fetchContent GElfPhdr.Fetchable
  simp only [Bool.true_eq_false, if_false]
  split
  · exact .inr ⟨by omega, id⟩
  · split
    · exact .inr ⟨by omega, id⟩
    · exact .inl ⟨by omega, rfl⟩

theorem doPatch_good (henabled : env.target.enabled = true) (k : Nat) (init : Bool) (seg : Segment) :
    doPatch env goodAnswers k init seg = .ok () := by
  have hne : env.target.enabled ≠ false := by simp [henabled]
  unfold doPatch
  split
  · unfold patchIram
    rw [if_neg hne]
    rfl
  · rfl

/-- The size of a WRAM segment in words. -/
theorem extract_words {seg : Segment} (h : extractAndConvertMemoryInformation p = .ok seg) :
    seg.memory = some .wram → seg.size.toNat < 2 ^ 30 := by
  intro hmemory
  by_cases hlow : p.pVaddr.setWidth 32 = regsMask
  · unfold extractAndConvertMemoryInformation at h
    simp only [if_pos hlow] at h
    cases h
    cases hmemory
  · obtain ⟨hmem, -, hsize⟩ := extract_ok h hlow
    have hwram : p.memory = .wram := Option.some.inj (hmem.symm.trans hmemory)
    rw [hwram] at hsize
    simp only [Memory.unit] at hsize
    omega

/-- A load whose checks ask for no store has no matrix at fault. -/
theorem fault_of_range_none {seg : Segment} (hr : seg.range env = .ok none) : seg.fault env k = none := by
  unfold Segment.range at hr
  unfold Segment.fault
  split
  · next hmemory =>
    simp only [hmemory] at hr
    split at hr
    · next hempty =>
      -- a single DPU, whose matrix is cleared, and no byte
      obtain ⟨hrank, hsize⟩ := hempty
      rw [hrank, Bool.false_and, hsize]
      unfold matrixFault
      simp
    · cases (mramRange_ok hr).1
  · rfl

/-- A segment that can be fetched is decided by its checks. -/
theorem loadSegment_good (henabled : env.target.enabled = true) (k : Nat) {seg : Segment}
    (hseg : extractAndConvertMemoryInformation p = .ok seg) (hfetch : p.Fetchable file) (s : LoadState) :
    loadSegment file env goodAnswers k p s =
      (stored env (p.bytes file env k) s (seg.fault env k) (seg.range env)).map seg.accumulate := by
  have hbytes : p.bytes file env k = seg.patched env k (file.content p) := by
    unfold GElfPhdr.bytes
    rw [hseg]
  have hcontent : fetchContent file p (goodAnswers.calloc k) (goodAnswers.rawfile k) = .ok (file.content p) := by
    obtain ⟨-, h⟩ | ⟨h, -⟩ := fetchContent_good file p
    · exact h
    · exact absurd hfetch h
  unfold loadSegment
  simp only [hseg, hcontent, doPatch_good henabled, hbytes]
  rw [doLoad_good env k _ s henabled (extract_words hseg)]

/-- A load with good answers leaves its memory exactly where the segment is not safe. -/
theorem loadSegment_noFault (henabled : env.target.enabled = true) (k : Nat) (s : LoadState) :
    NoFault (loadSegment file env goodAnswers k p s) ↔ p.Safe file env k := by
  unfold GElfPhdr.Safe
  cases hseg : extractAndConvertMemoryInformation p with
  | error e =>
    unfold loadSegment
    rw [hseg]
    refine iff_of_true trivial ?_
    intro seg h
    cases h
  | ok seg =>
    by_cases hfetch : p.Fetchable file
    · rw [loadSegment_good henabled k hseg hfetch]
      simp only [Except.ok.injEq, forall_eq', hfetch, true_and]
      unfold GElfPhdr.Accepted
      simp only [hseg, Except.ok.injEq, exists_and_left, exists_eq_left']
      cases hrange : seg.range env with
      | error e => exact iff_of_true trivial fun h => by obtain ⟨r, hr⟩ := h; cases hr
      | ok r =>
        cases r with
        | none => exact iff_of_true trivial fun _ => fault_of_range_none hrange
        | some g =>
          cases hfault : seg.fault env k with
          | none => exact iff_of_true trivial fun _ => rfl
          | some fault =>
            refine iff_of_false id fun h => ?_
            cases h ⟨_, rfl⟩
    · obtain ⟨h, -⟩ | ⟨-, h⟩ := fetchContent_good file p
      · exact absurd h hfetch
      · refine iff_of_false ?_ fun hsafe => hfetch (hsafe seg rfl).1
        unfold loadSegment
        have hgood : fetchContent file p (goodAnswers.calloc k) (goodAnswers.rawfile k) =
            fetchContent file p true true := rfl
        simp only [hseg, hgood]
        cases hcontent : fetchContent file p true true with
        | error e =>
          rw [hcontent] at h
          cases e with
          | status e => exact absurd trivial h
          | readsOutsideFile => exact id
          | writesOutsideBuffer => exact id
          | matrix fault => exact id
        | ok content =>
          rw [hcontent] at h
          exact absurd trivial h

/-- A load that ended well: the segment passed the checks, and was stored. -/
theorem loadSegment_ok (henabled : env.target.enabled = true) {s s' : LoadState}
    (h : loadSegment file env goodAnswers k p s = .ok s') :
    p.Accepted env ∧ ∃ seg r t, extractAndConvertMemoryInformation p = .ok seg ∧ seg.range env = .ok r ∧
      stored env (p.bytes file env k) s (seg.fault env k) (.ok r) = .ok t ∧ s'.memory = t.memory := by
  cases hseg : extractAndConvertMemoryInformation p with
  | error e =>
    unfold loadSegment at h
    rw [hseg] at h
    cases h
  | ok seg =>
    have hnoFault : NoFault (loadSegment file env goodAnswers k p s) := by
      rw [h]
      trivial
    have hsafe := (loadSegment_noFault henabled k s).mp hnoFault
    rw [loadSegment_good henabled k hseg (hsafe seg hseg).1] at h
    cases hrange : seg.range env with
    | error e =>
      rw [hrange] at h
      cases h
    | ok r =>
      rw [hrange] at h
      cases hstored : stored env (p.bytes file env k) s (seg.fault env k) (.ok r) with
      | error e =>
        rw [hstored] at h
        cases h
      | ok t =>
        rw [hstored] at h
        refine ⟨⟨seg, r, hseg, hrange⟩, seg, r, t, rfl, hrange, hstored, ?_⟩
        have : seg.accumulate t = s' := Except.ok.inj h
        rw [← this]
        unfold Segment.accumulate
        split <;> rfl

/-- A safe segment that the checks accept is loaded. -/
theorem loadSegment_accepted (henabled : env.target.enabled = true) (hsafe : p.Safe file env k)
    (haccepted : p.Accepted env) (s : LoadState) : ∃ s', loadSegment file env goodAnswers k p s = .ok s' := by
  obtain ⟨seg, r, hseg, hrange⟩ := haccepted
  obtain ⟨hfetch, hfault⟩ := hsafe seg hseg
  rw [loadSegment_good henabled k hseg hfetch, hrange, hfault ⟨seg, r, hseg, hrange⟩]
  cases r with
  | none => exact ⟨_, rfl⟩
  | some g => exact ⟨_, rfl⟩

end Segments

/-! ## The whole load -/

section Runs

variable {file : ElfFile} {env : Env}

/-- Up to the first segment that the checks refuse, the segments from index `k` on are safe. -/
def SafeFrom (file : ElfFile) (env : Env) : Nat → List GElfPhdr → Prop
  | _, [] => True
  | k, p :: ps =>
    (p.pType = ptLoad → p.Safe file env k) ∧ ((p.pType = ptLoad → p.Accepted env) → SafeFrom file env (k + 1) ps)

theorem loadPhdrs_noFault (henabled : env.target.enabled = true) : ∀ (ps : List GElfPhdr) (k : Nat) (s : LoadState),
    NoFault (loadPhdrs file env goodAnswers k ps s) ↔ SafeFrom file env k ps
  | [], k, s => Iff.rfl
  | p :: ps, k, s => by
    unfold loadPhdrs SafeFrom
    by_cases hload : p.pType = ptLoad
    · simp only [hload, if_true, forall_const]
      have hsafe : NoFault (loadSegment file env goodAnswers k p s) ↔ p.Safe file env k :=
        loadSegment_noFault henabled k s
      cases hseg : loadSegment file env goodAnswers k p s with
      | error e =>
        rw [hseg] at hsafe
        have hrefused : p.Safe file env k → ¬p.Accepted env := by
          intro h haccepted
          obtain ⟨s', hs'⟩ := loadSegment_accepted henabled h haccepted s
          rw [hseg] at hs'
          cases hs'
        constructor
        · exact fun h => ⟨hsafe.mp h, fun haccepted => absurd haccepted (hrefused (hsafe.mp h))⟩
        · exact fun h => hsafe.mpr h.1
      | ok s' =>
        rw [hseg] at hsafe
        have haccepted := (loadSegment_ok henabled hseg).1
        rw [loadPhdrs_noFault henabled ps (k + 1) s']
        constructor
        · exact fun h => ⟨hsafe.mp trivial, fun _ => h⟩
        · exact fun h => h.2 haccepted
    · simp only [hload, if_false, false_implies, true_and, forall_const]
      exact loadPhdrs_noFault henabled ps (k + 1) s

/-- A load that ended well accepted every segment. -/
theorem loadPhdrs_ok (henabled : env.target.enabled = true) : ∀ (ps : List GElfPhdr) (k : Nat) (s s' : LoadState),
    loadPhdrs file env goodAnswers k ps s = .ok s' → ∀ p ∈ ps, p.pType = ptLoad → p.Accepted env
  | [], _, _, _, _ => fun p hp => nomatch hp
  | q :: ps, k, s, s', h => by
    unfold loadPhdrs at h
    intro p hp hload
    split at h
    · split at h
      · cases h
      · next hseg =>
        rcases List.mem_cons.mp hp with rfl | hp
        · exact (loadSegment_ok henabled hseg).1
        · exact loadPhdrs_ok henabled ps (k + 1) _ s' h p hp hload
    · next hskip =>
      rcases List.mem_cons.mp hp with rfl | hp
      · exact absurd hload hskip
      · exact loadPhdrs_ok henabled ps (k + 1) s s' h p hp hload

/-- Safe segments that the checks accept are loaded. -/
theorem loadPhdrs_accepted (henabled : env.target.enabled = true) : ∀ (ps : List GElfPhdr) (k : Nat) (s : LoadState),
    SafeFrom file env k ps → (∀ p ∈ ps, p.pType = ptLoad → p.Accepted env) →
      ∃ s', loadPhdrs file env goodAnswers k ps s = .ok s'
  | [], _, s, _, _ => ⟨s, rfl⟩
  | q :: ps, k, s, hsafe, haccepted => by
    unfold loadPhdrs
    have hrest : ∀ p ∈ ps, p.pType = ptLoad → p.Accepted env := fun p hp => haccepted p (List.mem_cons_of_mem _ hp)
    have hq := haccepted q (List.mem_cons_self ..)
    split
    · next hload =>
      obtain ⟨s', hs'⟩ := loadSegment_accepted henabled (hsafe.1 hload) (hq hload) s
      rw [hs']
      exact loadPhdrs_accepted henabled ps (k + 1) s' (hsafe.2 hq) hrest
    · exact loadPhdrs_accepted henabled ps (k + 1) s (hsafe.2 hq) hrest

/-- A byte that is what the memory keeps of all segments, and that one of them covers or
the memory had, is there after the load. -/
theorem loadPhdrs_memory (henabled : env.target.enabled = true) {d : Nat} (hd : d ∈ env.target.reached) {m : Memory}
    {a : Nat} {v : UInt8} : ∀ (ps : List GElfPhdr) (k : Nat) (s s' : LoadState),
    loadPhdrs file env goodAnswers k ps s = .ok s' → (∀ p ∈ ps, p.Loads → p.Narrow) →
    (∀ (i : Nat) (p : GElfPhdr), ps[i]? = some p → p.Loads → p.Covers m a →
      kept m (p.bytes file env (k + i)) (a - p.start) = v) →
    (s.memory d m a = v ∨ ∃ p ∈ ps, p.Loads ∧ p.Covers m a) → s'.memory d m a = v
  | [], _, s, s', h, _, _, hv => by
    cases h
    exact hv.elim id fun ⟨p, hp, _⟩ => nomatch hp
  | q :: ps, k, s, s', h, hnarrow, hagree, hv => by
    have hrest : ∀ (i : Nat) (p : GElfPhdr), ps[i]? = some p → p.Loads → p.Covers m a →
        kept m (p.bytes file env (k + 1 + i)) (a - p.start) = v := by
      intro i p hp hload hcover
      have := hagree (i + 1) p hp hload hcover
      rwa [Nat.add_right_comm, Nat.add_assoc]
    have hnarrow' : ∀ p ∈ ps, p.Loads → p.Narrow := fun p hp => hnarrow p (List.mem_cons_of_mem _ hp)
    unfold loadPhdrs at h
    split at h
    · next hload =>
      split at h
      · cases h
      · next t hseg =>
        refine loadPhdrs_memory henabled hd ps (k + 1) t s' h hnarrow' hrest ?_
        obtain ⟨-, seg, r, u, hextract, hrange, hstored, hmemory⟩ := loadSegment_ok henabled hseg
        have hq : q.pVaddr ≠ regsMask.setWidth 64 → q.Narrow := fun hregs => hnarrow q (List.mem_cons_self ..) ⟨hload, hregs⟩
        have hbyte := stored_memory hextract hrange hq hstored hd m a
        rw [hmemory, hbyte]
        split
        · next hcover => exact .inl (hagree 0 q rfl ⟨hload, hcover.1⟩ hcover.2)
        · next hcover =>
          refine hv.imp_right ?_
          rintro ⟨p, hp, hloads, hcovers⟩
          rcases List.mem_cons.mp hp with rfl | hp
          · exact absurd ⟨hloads.2, hcovers⟩ hcover
          · exact ⟨p, hp, hloads, hcovers⟩
    · next hskip =>
      refine loadPhdrs_memory henabled hd ps (k + 1) s s' h hnarrow' hrest (hv.imp_right ?_)
      rintro ⟨p, hp, hload, hcover⟩
      rcases List.mem_cons.mp hp with rfl | hp
      · exact absurd hload.1 hskip
      · exact ⟨p, hp, hload, hcover⟩

/-- After a load every DPU it reaches holds the byte that the segments agree on. -/
theorem loadPhdrs_holds (henabled : env.target.enabled = true) {d : Nat} (hd : d ∈ env.target.reached)
    {s s' : LoadState} (h : loadPhdrs file env goodAnswers 0 file.phdrs s = .ok s')
    (hnarrow : ∀ p ∈ file.phdrs, p.Loads → p.Narrow) {k : Nat} {p : GElfPhdr} (hp : file.phdrs[k]? = some p)
    (hload : p.Loads) {i : Nat} (hi : i < p.pMemsz.toNat)
    (hagree : ∀ (l : Nat) (q : GElfPhdr), file.phdrs[l]? = some q → q.Loads → q.Covers p.memory (p.start + i) →
      kept p.memory (q.bytes file env l) (p.start + i - q.start) = p.bytes file env k i) :
    s'.memory d p.memory (p.start + i) = p.bytes file env k i := by
  refine loadPhdrs_memory henabled hd file.phdrs 0 s s' h hnarrow ?_ (.inr ?_)
  · intro l q hq hloads hcovers
    rw [Nat.zero_add]
    exact hagree l q hq hloads hcovers
  · exact ⟨p, List.mem_of_getElem? hp, hload, rfl, Nat.le_add_right .., by omega⟩

end Runs

/-! ## Exact loads -/

/-- Segments of one memory have the same bytes at the addresses they share. -/
def Agree (file : ElfFile) (env : Env) : Prop :=
  ∀ (k l : Nat) (p q : GElfPhdr), file.phdrs[k]? = some p → file.phdrs[l]? = some q → p.Loads → q.Loads →
    ∀ i < p.pMemsz.toNat, q.Covers p.memory (p.start + i) →
      q.bytes file env l (p.start + i - q.start) = p.bytes file env k i

/-- The segments lie in their memories, and every DPU that the load reaches holds their bytes. -/
def Holds (file : ElfFile) (env : Env) (s : LoadState) : Prop :=
  ∀ (k : Nat) (p : GElfPhdr), file.phdrs[k]? = some p → p.Loads →
    p.Inside env.sizes ∧ ∀ d ∈ env.target.reached, ∀ i < p.pMemsz.toNat,
      s.memory d p.memory (p.start + i) = p.bytes file env k i

/-- Whatever the rank answers, the load stays inside the file and its buffer, and if it
returns `DPU_OK` the memories hold the segments. -/
def LoadsExactly (file : ElfFile) (env : Env) : Prop :=
  ∀ answers s, NoFault (dpuElfLoad file env answers s) ∧
    ∀ s', dpuElfLoad file env answers s = .ok s' → Holds file env s'

/-- No loaded instruction has a bit that its frame does not carry. -/
def Encodable (file : ElfFile) (env : Env) : Prop :=
  ∀ (k : Nat) (p : GElfPhdr), file.phdrs[k]? = some p → p.Loads → p.memory = .iram →
    ∀ i < p.pMemsz.toNat, 6 ≤ i % 8 → p.bytes file env k i = 0

/-- The condition, for a target that is enabled. -/
structure Loadable (file : ElfFile) (env : Env) : Prop where
  safe : SafeFrom file env 0 file.phdrs
  narrow : (∀ p ∈ file.phdrs, p.pType = ptLoad → p.Accepted env) → ∀ p ∈ file.phdrs, p.Loads → p.Narrow
  agree : (∀ p ∈ file.phdrs, p.pType = ptLoad → p.Accepted env) → env.target.reached ≠ [] → Agree file env
  encodable : (∀ p ∈ file.phdrs, p.pType = ptLoad → p.Accepted env) → env.target.reached ≠ [] → Encodable file env

variable {file : ElfFile} {env : Env}

theorem dpuElfLoad_good (henabled : env.target.enabled = true) (s : LoadState) :
    dpuElfLoad file env goodAnswers s = loadPhdrs file env goodAnswers 0 file.phdrs s := by
  have hcustom : ∀ s, dpuCustom env none s = .ok s := by
    intro s
    simp [dpuCustom, henabled]
  unfold dpuElfLoad
  have hstart : dpuCustom env goodAnswers.eventStart s = .ok s := hcustom s
  rw [hstart]
  dsimp only
  cases loadPhdrs file env goodAnswers 0 file.phdrs s with
  | error e => rfl
  | ok s' => exact hcustom s'

/-- Good answers decide whether a load is exact. -/
theorem loadsExactly_good : LoadsExactly file env ↔
    ∀ s, NoFault (dpuElfLoad file env goodAnswers s) ∧
      ∀ s', dpuElfLoad file env goodAnswers s = .ok s' → Holds file env s' := by
  constructor
  · exact fun h s => h goodAnswers s
  · intro h answers s
    obtain heq | ⟨e, heq⟩ := dpuElfLoad_answers file env answers s
    · rw [heq]
      exact h s
    · rw [heq]
      exact ⟨trivial, fun s' h => nomatch h⟩

/-- A loaded segment of the IRAM begins at an instruction. -/
theorem start_iram {p : GElfPhdr} (haccepted : p.Accepted env) (hnarrow : p.Narrow) (hload : p.Loads)
    (hiram : p.memory = .iram) (hne : p.pMemsz.toNat ≠ 0) : p.start % 8 = 0 := by
  obtain ⟨seg, r, hseg, hrange⟩ := haccepted
  obtain ⟨g, -, hmemory, hstart, -⟩ := range_exact hseg hrange hnarrow hload.2 hne
  rw [hmemory, hiram, Memory.unit] at hstart
  omega

/-- Of the bytes of an encodable segment nothing is lost. -/
theorem kept_bytes (hencodable : Encodable file env) {k : Nat} {p : GElfPhdr} (hp : file.phdrs[k]? = some p)
    (hload : p.Loads) {i : Nat} (hi : i < p.pMemsz.toNat) :
    kept p.memory (p.bytes file env k) i = p.bytes file env k i := by
  unfold kept
  split
  · rfl
  · next hlost =>
    cases hmemory : p.memory with
    | iram =>
      rw [hmemory, Memory.unit, cellBytes, Nat.not_lt] at hlost
      exact (hencodable k p hp hload hmemory i hi hlost).symm
    | mram => simp [hmemory, Memory.unit, cellBytes, Nat.mod_one] at hlost
    | wram =>
      rw [hmemory, Memory.unit, cellBytes] at hlost
      exact absurd (Nat.mod_lt i (by decide)) hlost

/-- The bytes above the 48 bits of an instruction are 0 where they were. -/
theorem loadPhdrs_lost (henabled : env.target.enabled = true) {d : Nat} (hd : d ∈ env.target.reached)
    {s s' : LoadState} (h : loadPhdrs file env goodAnswers 0 file.phdrs s = .ok s')
    (hnarrow : ∀ p ∈ file.phdrs, p.Loads → p.Narrow) {a : Nat} (ha : 6 ≤ a % 8) (hzero : s.memory d .iram a = 0) :
    s'.memory d .iram a = 0 := by
  refine loadPhdrs_memory henabled hd file.phdrs 0 s s' h hnarrow ?_ (.inl hzero)
  intro l q hq hload hcover
  have hmem := List.mem_of_getElem? hq
  have haccepted := loadPhdrs_ok henabled file.phdrs 0 s s' h q hmem hload.1
  obtain ⟨hiram, hlow, hhigh⟩ := hcover
  have hstart := start_iram haccepted (hnarrow q hmem hload) hload hiram (by omega)
  unfold kept
  rw [Memory.unit, cellBytes, if_neg (by omega)]

/-- A file is loaded into a target exactly when it is loadable. -/
theorem loadsExactly_iff (file : ElfFile) (env : Env) :
    LoadsExactly file env ↔ (env.target.enabled = true → Loadable file env) := by
  rw [loadsExactly_good]
  constructor
  · intro h henabled
    simp only [dpuElfLoad_good henabled] at h
    -- one state to start from shows each part of the condition
    let start : LoadState := ⟨fun _ _ _ => 0, 0#32, 0#32, 0#32, 0#32⟩
    have hsafe := (loadPhdrs_noFault henabled file.phdrs 0 start).mp (h start).1
    have hnarrow : (∀ p ∈ file.phdrs, p.pType = ptLoad → p.Accepted env) → ∀ p ∈ file.phdrs, p.Loads → p.Narrow := by
      intro haccepted p hp hload
      obtain ⟨s', hs'⟩ := loadPhdrs_accepted henabled file.phdrs 0 start hsafe haccepted
      obtain ⟨k, hk⟩ := List.mem_iff_getElem?.mp hp
      exact narrow_of_inside ((h start).2 s' hs' k p hk hload).1
    refine ⟨hsafe, hnarrow, fun haccepted hreached k l p q hp hq hloadp hloadq i hi hcover => ?_,
      fun haccepted hreached k p hp hload hiram i hi hhigh => ?_⟩
    · obtain ⟨s', hs'⟩ := loadPhdrs_accepted henabled file.phdrs 0 start hsafe haccepted
      obtain ⟨d, hd⟩ := List.exists_mem_of_ne_nil _ hreached
      have hholds := (h start).2 s' hs'
      have hbytep := (hholds k p hp hloadp).2 d hd i hi
      have hbyteq := (hholds l q hq hloadq).2 d hd (p.start + i - q.start) (by have := hcover.2; omega)
      rw [Nat.add_sub_cancel' hcover.2.1, hcover.1] at hbyteq
      exact hbyteq.symm.trans hbytep
    · obtain ⟨s', hs'⟩ := loadPhdrs_accepted henabled file.phdrs 0 start hsafe haccepted
      obtain ⟨d, hd⟩ := List.exists_mem_of_ne_nil _ hreached
      have hmem := List.mem_of_getElem? hp
      have hstart := start_iram (haccepted p hmem hload.1) (hnarrow haccepted p hmem hload) hload hiram (by omega)
      have hbyte := ((h start).2 s' hs' k p hp hload).2 d hd i hi
      rw [hiram] at hbyte
      rw [← hbyte]
      exact loadPhdrs_lost henabled hd hs' (hnarrow haccepted) (by omega) rfl
  · intro h s
    by_cases henabled : env.target.enabled = true
    · have hload := h henabled
      rw [dpuElfLoad_good henabled]
      refine ⟨(loadPhdrs_noFault henabled file.phdrs 0 s).mpr hload.safe, fun s' hs' k p hp hloads => ?_⟩
      have haccepted := loadPhdrs_ok henabled file.phdrs 0 s s' hs'
      have hnarrow := hload.narrow haccepted
      have hmem := List.mem_of_getElem? hp
      refine ⟨?_, fun d hd i hi => ?_⟩
      · obtain ⟨seg, r, hseg, hrange⟩ := haccepted p hmem hloads.1
        intro i hi
        obtain ⟨g, -, -, -, -, hinside⟩ := range_exact hseg hrange (hnarrow p hmem hloads) hloads.2 (by omega)
        exact hinside i hi
      · have hagree := hload.agree haccepted (List.ne_nil_of_mem hd)
        have hencodable := hload.encodable haccepted (List.ne_nil_of_mem hd)
        refine loadPhdrs_holds henabled hd hs' hnarrow hp hloads hi fun l q hq hloadq hcover => ?_
        have hkept := kept_bytes hencodable hq hloadq (show p.start + i - q.start < _ by have := hcover.2; omega)
        rw [hcover.1] at hkept
        exact hkept.trans (hagree k l p q hp hq hloads hloadq i hi hcover)
    · unfold dpuElfLoad dpuCustom
      simp only [Bool.not_eq_true] at henabled
      simp only [henabled, if_true]
      exact ⟨trivial, fun s' h => nomatch h⟩

/-! ## A file that is not loaded exactly -/

/-- A DPU of 4096 instructions, 16384 words and 64 MB, that nothing patches. -/
def sampleEnv : Env where
  target := .dpu 0 true
  sizes := { iramSize := 4096#16, wramSize := 16384#32, mramSize := 67108864#32, wram_words := by decide }
  nbDpuRunning := 0
  freq := freqUnset
  clocksPerSec := 0#32
  profiling _ _ insn := insn
  matrixIsSg _ := false
  mramAccessByDpuOnly := false

/-- One segment of WRAM, of 16 bytes in the file and 8 in memory. -/
def overlongFile : ElfFile where
  phdrs := [⟨ptLoad, 0#64, 0#64, 16#64, 8#64⟩]
  image := List.replicate 16 1

/-- `memcpy` puts 16 bytes into a buffer of 8. -/
theorem overlong_not_exact : ¬LoadsExactly overlongFile sampleEnv := by
  intro h
  have hrun := (h goodAnswers ⟨fun _ _ _ => 0, 0#32, 0#32, 0#32, 0#32⟩).1
  have hfault : dpuElfLoad overlongFile sampleEnv goodAnswers ⟨fun _ _ _ => 0, 0#32, 0#32, 0#32, 0#32⟩
      = .error .writesOutsideBuffer := rfl
  rw [hfault] at hrun
  exact hrun

/-- Of an instruction at index 2^16 the check and the copy see index 0. -/
example : (extractAndConvertMemoryInformation ⟨ptLoad, 0#64, 0x80080000#64, 8#64, 8#64⟩).toOption.map
    (fun seg => (seg.range sampleEnv).toOption) = some (some (some ⟨.iram, 0, 1⟩)) := by decide

end DpuBackend.Api.ElfLoad
