import DpuBackend.Ufi.MatrixWrite
import DpuBackend.Ufi.MatrixRead

/-
  When the matrix calls transfer what they are to transfer, and nothing else.

  The calls return `DPU_OK` only if they access some interface at all. A write whose first
  access finds the DPU and the structure noted sends its frames at once, and with them what
  other calls have left for the interfaces outside its mask: a call that is exact needs that
  these words write nothing new, and that the DPUs they go to are known. The reads leave
  nothing to chance but the buffers: those of two DPUs must not be the same.

  Correspondence (C ↔ Lean):
    the four calls                           ↔ `MatrixCall`
    `description->hw.memories.{iram,wram}_size`  ↔ `MemKind.size`
-/

namespace DpuBackend.Ufi

open DpuBackend.Lib Board

/-! ## What is left for an interface -/

/-- The word that is left for the interface is a write of another element to the cell. -/
def Port.Overwrites (p : Port) (dpu : Nat) (kind : MemKind) (a : BitVec 16) : Prop :=
  p.cmd ≠ ciEmpty ∧ p.chip.decoder.selects dpu = true ∧
    ∃ value, writeOf p.chip.decoder.structReg p.cmd = some ⟨kind, a, value⟩ ∧ value ≠ p.chip.memory dpu kind a

theorem Port.resend_memory_iff (p : Port) (dpu : Nat) (kind : MemKind) (a : BitVec 16) :
    p.resend.chip.memory dpu kind a = p.chip.memory dpu kind a ↔ ¬p.Overwrites dpu kind a := by
  show (p.chip.receive p.cmd).memory dpu kind a = _ ↔ _
  by_cases hempty : p.cmd = ciEmpty
  · rw [hempty, Chip.receive_empty]
    exact iff_of_true rfl fun h => h.1 hempty
  · cases hwrite : writeOf p.chip.decoder.structReg p.cmd with
    | none =>
      rw [p.chip.receive_memory_none hwrite]
      refine iff_of_true rfl fun h => ?_
      obtain ⟨_, _, _, hsome, _⟩ := h
      rw [hwrite] at hsome
      cases hsome
    | some write =>
      rw [p.chip.receive_memory_some hwrite hempty, DpuMemories.write]
      constructor
      · intro hsame hover
        obtain ⟨_, hselects, value, hsome, hne⟩ := hover
        obtain rfl := Option.some.inj (hwrite.symm.trans hsome)
        rw [if_pos ⟨hselects, rfl, rfl⟩] at hsame
        exact hne hsame
      · intro hnone
        split
        · next hcell =>
          by_contra hne
          refine hnone ⟨hempty, hcell.1, write.value, ?_, hne⟩
          rw [hwrite, hcell.2.1, hcell.2.2]
        · rfl

/-! ## The calls -/

inductive MatrixCall where
  | toIrams
  | fromIrams
  | toWrams
  | fromWrams
deriving DecidableEq, Repr

/-- The elements of a memory. -/
def MemKind.size : MemKind → Nat
  | .iram => 4096
  | .wram => 16384

namespace MatrixCall

def kind : MatrixCall → MemKind
  | toIrams | fromIrams => .iram
  | toWrams | fromWrams => .wram

def run (call : MatrixCall) (m : CiMatrix) (stack : Nat → Nat) : BoardM Status :=
  match call with
  | toIrams => ciCopyToIramsMatrix m stack
  | fromIrams => ciCopyFromIramsMatrix m stack
  | toWrams => ciCopyToWramsMatrix m
  | fromWrams => ciCopyFromWramsMatrix m

/-- The accesses of a call, in their order. -/
def plan (call : MatrixCall) (b : Board) (m : CiMatrix) : List Visit :=
  match call.kind with
  | .iram => b.iramPlan m
  | .wram => b.wramPlan m

def access : MatrixCall → Access
  | toIrams => ufiMemoryWrite .iram
  | fromIrams => ufiIramRead
  | toWrams => ufiMemoryWrite .wram
  | fromWrams => ufiWramRead

theorem run_triple (call : MatrixCall) {b : Board} {m : CiMatrix} {Good : Board → List Visit → Prop}
    {E : CmdError → Board → Prop} (h : Sweep call.access m b (call.plan b m) Good E) (stack : Nat → Nat)
    (hstart : Good b []) :
    Triple (fun s => s = b) (call.run m stack)
      (fun status s => Good s (call.plan b m) ∧ status = statusAfter (call.plan b m) .uninitialised) E := by
  cases call with
  | toIrams => exact ciCopyIramsMatrix_run h stack hstart
  | fromIrams => exact ciCopyIramsMatrix_run h stack hstart
  | toWrams => exact ciCopyWramsMatrix_run h hstart
  | fromWrams => exact ciCopyWramsMatrix_run h hstart

theorem covers_plan (call : MatrixCall) {b : Board} {m : CiMatrix} {ci dpu : Nat} (hcis : b.rank.nrCis ≤ 8) :
    b.Covers (call.plan b m) ci dpu ↔ b.Listed m ci dpu := by
  unfold plan
  cases call.kind with
  | iram => exact covers_iramPlan hcis
  | wram => exact covers_wramPlan hcis

theorem plan_dpu (call : MatrixCall) {b : Board} {m : CiMatrix} {visit : Visit} (hmem : visit ∈ call.plan b m) :
    visit.2 < b.rank.nrDpus := by
  unfold plan at hmem
  cases hkind : call.kind with
  | iram =>
    rw [hkind] at hmem
    obtain ⟨_, hlisted, _⟩ := mem_iramPlan.mp (show (visit.1, visit.2) ∈ b.iramPlan m from hmem)
    exact hlisted.2.1
  | wram =>
    rw [hkind] at hmem
    exact (mem_wramPlan.mp (show (visit.1, visit.2) ∈ b.wramPlan m from hmem)).1

end MatrixCall

/-! ## The property -/

/-- A call, from a state in which the rank has noted what its interfaces are set to. -/
structure MatrixSetting where
  call : MatrixCall
  board : Board
  matrix : CiMatrix
  stack : Nat → Nat
  nrCis_le : board.rank.nrCis ≤ 8
  nrDpus_le : board.rank.nrDpus ≤ 8
  noted : ∀ ci < board.rank.nrCis, (board.port ci).Noted
  inside : matrix.offset.toNat + matrix.size.toNat ≤ call.kind.size

namespace MatrixSetting

variable (S : MatrixSetting)

def listed (ci dpu : Nat) : Prop := S.board.Listed S.matrix ci dpu

def buffer (ci dpu : Nat) : Nat := S.matrix.ptr (S.board.rank.xferIndex ci dpu)

def address (k : Nat) : BitVec 16 := BitVec.ofNat 16 (S.matrix.offset.toNat + k)

/-- The words of the DPU. -/
def word (ci dpu k : Nat) : Word := S.call.kind.cut ((S.board.port ci).chip.memory dpu S.call.kind (S.address k))

/-- A cell the call is to transfer. -/
def Target (ci dpu : Nat) (kind : MemKind) (a : BitVec 16) : Prop :=
  S.listed ci dpu ∧ kind = S.call.kind ∧ ∃ k < S.matrix.size.toNat, a = S.address k

/-- How the call ends. -/
def outcome : EStateM.Result CmdError Board Status := (S.call.run S.matrix S.stack).run S.board

/-- The board after a call that writes. -/
structure Written (s : Board) : Prop where
  transferred : ∀ ci dpu k, S.listed ci dpu → k < S.matrix.size.toNat →
    (s.port ci).chip.memory dpu S.call.kind (S.address k) = S.call.kind.cut (S.board.host (S.buffer ci dpu) k)
  others : ∀ ci < S.board.rank.nrCis, ∀ dpu < S.board.rank.nrDpus, ∀ kind a, ¬S.Target ci dpu kind a →
    (s.port ci).chip.memory dpu kind a = (S.board.port ci).chip.memory dpu kind a
  host : s.host = S.board.host

/-- The board after a call that reads. -/
structure Read (s : Board) : Prop where
  transferred : ∀ ci dpu k, S.listed ci dpu → k < S.matrix.size.toNat → s.host (S.buffer ci dpu) k = S.word ci dpu k
  others : ∀ p k, (∀ ci dpu, S.listed ci dpu → S.buffer ci dpu = p → S.matrix.size.toNat ≤ k) →
    s.host p k = S.board.host p k
  memory : ∀ ci < S.board.rank.nrCis, ∀ dpu < S.board.rank.nrDpus, ∀ kind a,
    (s.port ci).chip.memory dpu kind a = (S.board.port ci).chip.memory dpu kind a

def Done (s : Board) : Prop :=
  match S.call with
  | .toIrams | .toWrams => S.Written s
  | .fromIrams | .fromWrams => S.Read s

/-- The call succeeds, transfers the words of the listed DPUs only, and accesses their buffers only. -/
def Exact : Prop :=
  ∃ s, S.outcome = .ok .ok s ∧ S.Done s ∧
    ∀ p ∈ s.used, p ∈ S.board.used ∨ ∃ ci dpu, S.listed ci dpu ∧ S.buffer ci dpu = p

/-! ## The condition -/

def plan : List Visit := S.call.plan S.board S.matrix

/-- The first frames of the access go out alone, or with words that write nothing new to DPUs that are known. -/
def Clean (first : Visit) : Prop :=
  let eff := S.board.effective first.1 first.2
  S.board.Held eff S.call.kind first.2 (S.address 0) → ¬S.board.Lacking eff ∧
    ∀ ci < S.board.rank.nrCis, eff.getLsbD ci = false → ∀ dpu < S.board.rank.nrDpus, ∀ kind a, ¬S.Target ci dpu kind a →
      ¬(S.board.port ci).Overwrites dpu kind a

/-- DPUs whose words differ have different buffers. -/
def Apart : Prop :=
  ∀ ci dpu ci' dpu', S.listed ci dpu → S.listed ci' dpu' → S.buffer ci dpu = S.buffer ci' dpu' →
    ∀ k < S.matrix.size.toNat, S.word ci dpu k = S.word ci' dpu' k

def HoldsWhen : Prop :=
  ∃ first, S.plan.head? = some first ∧
    match S.call with
    | .toIrams | .toWrams => S.matrix.size = 0 ∨ S.Clean first
    | .fromIrams | .fromWrams => S.Apart

/-! ## The transfers of a plan -/

theorem size_lt : S.matrix.offset.toNat + S.matrix.size.toNat < 2 ^ 16 := by
  have hsize : S.call.kind.size < 2 ^ 16 := by cases S.call <;> decide
  have hinside := S.inside
  omega

theorem size_toNat : (S.matrix.size.setWidth 16).toNat = S.matrix.size.toNat := by
  have hlt := S.size_lt
  rw [BitVec.toNat_setWidth, Nat.mod_eq_of_lt (by omega)]

theorem size_zero_iff : S.matrix.size.setWidth 16 = 0 ↔ S.matrix.size = 0 := by
  rw [BitVec.toNat_eq, BitVec.toNat_eq, size_toNat]
  rfl

theorem offset_toNat : (S.matrix.offset.setWidth 16).toNat = S.matrix.offset.toNat := by
  have hlt := S.size_lt
  rw [BitVec.toNat_setWidth, Nat.mod_eq_of_lt (by omega)]

theorem address_eq (k : Nat) : S.address k = S.matrix.offset.setWidth 16 + BitVec.ofNat 16 k := by
  apply BitVec.eq_of_toNat_eq
  rw [BitVec.toNat_add, offset_toNat, address, BitVec.toNat_ofNat, BitVec.toNat_ofNat, Nat.add_mod_mod]

theorem address_index {k : Nat} (hk : k < S.matrix.size.toNat) :
    (S.address k - S.matrix.offset.setWidth 16).toNat = k := by
  have hlt := S.size_lt
  rw [address_eq, BitVec.add_comm, BitVec.add_sub_cancel, BitVec.toNat_ofNat, Nat.mod_eq_of_lt (by omega)]

theorem address_range (a : BitVec 16) :
    (∃ k < S.matrix.size.toNat, a = S.address k) ↔
      (a - S.matrix.offset.setWidth 16).toNat < (S.matrix.size.setWidth 16).toNat := by
  rw [size_toNat]
  constructor
  · intro ⟨k, hk, ha⟩
    rw [ha, S.address_index hk]
    exact hk
  · intro hlt
    refine ⟨_, hlt, ?_⟩
    rw [address_eq, BitVec.ofNat_toNat, BitVec.setWidth_eq, BitVec.add_comm, BitVec.sub_add_cancel]

theorem transferred_iff (ci dpu : Nat) (kind : MemKind) (a : BitVec 16) :
    S.board.Transferred S.call.kind S.matrix S.plan ci dpu kind a ↔ S.Target ci dpu kind a := by
  rw [Transferred, Target, address_range, plan, S.call.covers_plan S.nrCis_le]
  rfl

theorem plan_dpu {visit : Visit} (hmem : visit ∈ S.plan) : visit.2 < 256 := by
  have hdpu := S.call.plan_dpu hmem
  have hdpus := S.nrDpus_le
  omega

theorem used_listed {s : Board} (h : ∀ p ∈ s.used, p ∈ S.board.used ∨
    ∃ ci dpu, S.board.Covers S.plan ci dpu ∧ S.matrix.ptr (S.board.rank.xferIndex ci dpu) = p) :
    ∀ p ∈ s.used, p ∈ S.board.used ∨ ∃ ci dpu, S.listed ci dpu ∧ S.buffer ci dpu = p := by
  intro p hp
  obtain hbefore | ⟨ci, dpu, hcovers, heq⟩ := h p hp
  · exact .inl hbefore
  · exact .inr ⟨ci, dpu, (S.call.covers_plan S.nrCis_le).mp hcovers, heq⟩

theorem run_cases {Good : Board → List Visit → Prop} {E : CmdError → Board → Prop}
    (h : Sweep S.call.access S.matrix S.board S.plan Good E) (hstart : Good S.board []) :
    (∃ s, S.outcome = .ok (statusAfter S.plan .uninitialised) s ∧ Good s S.plan) ∨
      ∃ e s, S.outcome = .error e s ∧ E e s := by
  obtain ⟨status, s, hrun, hgood, rfl⟩ | ⟨e, s, hrun, herror⟩ := (S.call.run_triple h S.stack hstart).run
  · exact .inl ⟨s, hrun, hgood⟩
  · exact .inr ⟨e, s, hrun, herror⟩

/-- A call that accesses nothing returns what it found. -/
theorem not_exact_of_idle (hidle : S.plan = []) : ¬S.Exact := by
  have hsweep : Sweep S.call.access S.matrix S.board S.plan (fun s _ => s = S.board) fun _ _ => False := by
    refine ⟨fun s _ hs => hs ▸ .refl _, fun s visits mask dpu array rest hplan => ?_⟩
    rw [hidle] at hplan
    exact absurd hplan (by simp)
  obtain ⟨s, hrun, _⟩ | ⟨_, _, _, hnever⟩ := S.run_cases hsweep rfl
  · intro ⟨s', hexact, _⟩
    rw [hrun, hidle] at hexact
    cases hexact
  · exact hnever.elim

/-! ## The writes -/

section Writes

variable {S} {first : Visit}

theorem status_ok (hfirst : S.plan.head? = some first) : statusAfter S.plan .uninitialised = .ok := by
  refine if_neg fun hidle => ?_
  rw [hidle] at hfirst
  cases hfirst

theorem written_of_unwritten {s : Board} (hsize : S.matrix.size = 0) (h : S.board.Unwritten s) : S.Written s := by
  have hnone : ∀ k, ¬k < S.matrix.size.toNat := by
    intro k
    rw [hsize]
    exact Nat.not_lt_zero k
  exact ⟨fun _ _ k _ hk => absurd hk (hnone k), fun ci hci _ _ _ _ _ => by rw [h.memory ci hci], h.host⟩

theorem address_zero : S.address 0 = S.matrix.offset.setWidth 16 := by
  rw [address_eq]
  simp

/-- What is left writes what it wrote, at the interfaces outside the first access. -/
theorem written_iff {s : Board} {visits : List Visit} (h : S.board.WrittenSoFar s S.call.kind S.matrix first visits)
    (hvisits : S.plan = visits) : S.Written s ↔ S.Clean first := by
  have hkept : ∀ ci < S.board.rank.nrCis, ∀ dpu kind a, ¬S.Target ci dpu kind a →
      ((s.port ci).chip.memory dpu kind a = (S.board.port ci).chip.memory dpu kind a ↔
        (S.board.Again S.call.kind S.matrix first ci → ¬(S.board.port ci).Overwrites dpu kind a)) := by
    intro ci hci dpu kind a hother
    rw [← transferred_iff, hvisits] at hother
    obtain ⟨hresent, hsame⟩ := h.kept ci hci dpu kind a hother
    by_cases hagain : S.board.Again S.call.kind S.matrix first ci
    · rw [hresent hagain, Port.resend_memory_iff]
      exact ⟨fun hnone _ => hnone, fun hnone => hnone hagain⟩
    · exact iff_of_true (hsame hagain) fun hagain' => absurd hagain' hagain
  constructor
  · intro hwritten hheld
    rw [address_zero] at hheld
    refine ⟨fun hlacking => h.accepted ⟨hheld, hlacking⟩, fun ci hci hbit dpu hdpu kind a hother => ?_⟩
    exact (hkept ci hci dpu kind a hother).mp (hwritten.others ci hci dpu hdpu kind a hother) ⟨hheld, hbit⟩
  · intro hclean
    refine ⟨fun ci dpu k hlisted hk => ?_, fun ci hci dpu hdpu kind a hother => ?_, h.host⟩
    · have htarget : S.Target ci dpu S.call.kind (S.address k) := ⟨hlisted, rfl, k, hk, rfl⟩
      rw [← transferred_iff, hvisits] at htarget
      rw [h.transferred ci dpu S.call.kind (S.address k) htarget, hostWord, S.address_index hk]
      rfl
    · refine (hkept ci hci dpu kind a hother).mpr fun hagain => ?_
      have hheld := hagain.1
      rw [← address_zero] at hheld
      exact (hclean hheld).2 ci hci hagain.2 dpu hdpu kind a hother

theorem exact_of_writes (hfirst : S.plan.head? = some first) (haccess : S.call.access = ufiMemoryWrite S.call.kind)
    (hdone : ∀ s, S.Done s ↔ S.Written s) : S.Exact ↔ S.matrix.size = 0 ∨ S.Clean first := by
  have hcis := S.nrCis_le
  have hdpu : ∀ visit ∈ S.plan, visit.2 < 256 := fun _ hmem => S.plan_dpu hmem
  have hstatus := status_ok hfirst
  by_cases hsize : S.matrix.size = 0
  · refine iff_of_true ?_ (.inl hsize)
    have hsweep := unwritten_sweep S.call.kind hcis hdpu (S.size_zero_iff.mpr hsize)
    rw [← haccess] at hsweep
    obtain ⟨s, hrun, hgood⟩ | ⟨_, _, _, hnever⟩ :=
      S.run_cases hsweep ⟨.refl _, rfl, rfl, S.noted, fun _ _ => rfl⟩
    · rw [hstatus] at hrun
      exact ⟨s, hrun, (hdone s).mpr (written_of_unwritten hsize hgood), fun p hp => .inl (hgood.used ▸ hp)⟩
    · exact hnever.elim
  · rw [or_iff_right hsize]
    have hsweep := write_sweep S.call.kind hcis hdpu S.noted (mt S.size_zero_iff.mp hsize)
    rw [← haccess] at hsweep
    obtain ⟨s, hrun, hgood⟩ | ⟨e, s, hrun, first', hfirst', hrefused⟩ := S.run_cases hsweep rfl
    · rw [hstatus] at hrun
      obtain ⟨rest, hplan⟩ := List.head?_eq_some_iff.mp hfirst
      rw [hplan] at hgood
      have hgood : S.board.WrittenSoFar s S.call.kind S.matrix first (first :: rest) := hgood
      have hused := hgood.used
      rw [← hplan] at hused
      constructor
      · intro ⟨s', hexact, hdone', _⟩
        obtain ⟨rfl⟩ : s = s' := by
          rw [hrun] at hexact
          exact (EStateM.Result.ok.inj hexact).2
        exact (written_iff hgood hplan).mp ((hdone s).mp hdone')
      · intro hclean
        exact ⟨s, hrun, (hdone s).mpr ((written_iff hgood hplan).mpr hclean), S.used_listed hused⟩
    · obtain rfl : first = first' := Option.some.inj (hfirst.symm.trans hfirst')
      refine iff_of_false (fun hexact => ?_) fun hclean => ?_
      · obtain ⟨_, hok, _⟩ := hexact
        rw [hrun] at hok
        cases hok
      · have hheld := hrefused.1
        rw [← address_zero] at hheld
        exact (hclean hheld).1 hrefused.2

end Writes

/-! ## The reads -/

section Reads

variable {S} {first : Visit}

theorem element_eq (ci dpu k : Nat) :
    S.board.element S.call.kind ci dpu (S.matrix.offset.setWidth 16 + BitVec.ofNat 16 k) = S.word ci dpu k := by
  rw [← address_eq]
  rfl

/-- A buffer holds the words of some DPU that has it: it must not matter of which. -/
theorem read_iff {s : Board} (h : S.board.ReadSoFar s S.call.kind S.matrix S.plan) : S.Read s ↔ S.Apart := by
  have hcovers : ∀ ci dpu, S.board.Covers S.plan ci dpu ↔ S.listed ci dpu := fun _ _ => S.call.covers_plan S.nrCis_le
  have hhost : ∀ p k,
      (s.host p k = S.board.host p k ∧ ∀ ci dpu, S.listed ci dpu → S.buffer ci dpu = p → S.matrix.size.toNat ≤ k) ∨
      ∃ ci dpu, S.listed ci dpu ∧ S.buffer ci dpu = p ∧ k < S.matrix.size.toNat ∧ s.host p k = S.word ci dpu k := by
    intro p k
    obtain ⟨hsame, hlate⟩ | ⟨ci, dpu, hcover, hp, hlt, hword⟩ := h.host p k
    · refine .inl ⟨hsame, fun ci dpu hlisted hp => ?_⟩
      have hle := hlate ci dpu ((hcovers ci dpu).mpr hlisted) hp
      rwa [S.size_toNat] at hle
    · rw [S.size_toNat] at hlt
      exact .inr ⟨ci, dpu, (hcovers ci dpu).mp hcover, hp, hlt, hword.trans (element_eq ci dpu k)⟩
  constructor
  · intro hread ci dpu ci' dpu' hlisted hlisted' hshared k hk
    rw [← hread.transferred ci dpu k hlisted hk, ← hread.transferred ci' dpu' k hlisted' hk, hshared]
  · intro hapart
    refine ⟨fun ci dpu k hlisted hk => ?_, fun p k hlate => ?_, fun ci hci _ _ _ _ => by rw [h.memory ci hci]⟩
    · obtain ⟨_, hnone⟩ | ⟨ci', dpu', hlisted', hshared, _, hword⟩ := hhost (S.buffer ci dpu) k
      · have hle := hnone ci dpu hlisted rfl
        omega
      · rw [hword]
        exact hapart ci' dpu' ci dpu hlisted' hlisted hshared k hk
    · obtain ⟨hsame, _⟩ | ⟨ci, dpu, hlisted, hp, hlt, _⟩ := hhost p k
      · exact hsame
      · have hle := hlate ci dpu hlisted hp
        omega

theorem exact_of_reads (hfirst : S.plan.head? = some first)
    (hreads : ∀ s mask dpu array, S.board.Alike s → (mask, dpu) ∈ S.plan →
      Reads S.call.access S.call.kind s (S.board.effective mask dpu) dpu array (S.matrix.offset.setWidth 16)
        (S.matrix.size.setWidth 16))
    (hdone : ∀ s, S.Done s ↔ S.Read s) : S.Exact ↔ S.Apart := by
  have hsweep := read_sweep S.nrCis_le (fun _ hmem => S.plan_dpu hmem) hreads
  obtain ⟨s, hrun, hgood⟩ | ⟨_, _, _, hnever⟩ := S.run_cases hsweep (readSoFar_nil S.noted)
  · rw [status_ok hfirst] at hrun
    constructor
    · intro ⟨s', hexact, hdone', _⟩
      obtain ⟨rfl⟩ : s = s' := by
        rw [hrun] at hexact
        exact (EStateM.Result.ok.inj hexact).2
      exact (read_iff hgood).mp ((hdone s).mp hdone')
    · intro hapart
      exact ⟨s, hrun, (hdone s).mpr ((read_iff hgood).mpr hapart), S.used_listed hgood.used⟩
  · exact hnever.elim

/-- The accesses to IRAM are to one interface. -/
theorem effective_one (hkind : S.call.kind = .iram) {mask : Mask} {dpu : Nat} (hmem : (mask, dpu) ∈ S.plan) :
    ∃ ci < S.board.rank.nrCis, ∀ ci' < S.board.rank.nrCis,
      (S.board.effective mask dpu).getLsbD ci' = decide (ci' = ci) := by
  have hcis := S.nrCis_le
  rw [plan, MatrixCall.plan, hkind] at hmem
  obtain ⟨ci, hlisted, rfl⟩ := mem_iramPlan.mp hmem
  have henabled : S.board.rank.dpuEnabled ci dpu = true := (Bool.and_eq_true_iff.mp hlisted.2.2).1
  refine ⟨ci, hlisted.1, fun ci' hci' => ?_⟩
  rw [effective_bit hcis hci', dpuMaskOne_bit]
  by_cases heq : ci' = ci
  · rw [heq, henabled, decide_eq_true (by have hlt := hlisted.1; exact ⟨by omega, rfl⟩ : ci < 8 ∧ ci = ci)]
    simp
  · simp [heq]

end Reads

/-- The calls transfer exactly what they are to transfer under the condition, and under no other. -/
theorem exact_iff : S.Exact ↔ S.HoldsWhen := by
  cases hplan : S.plan.head? with
  | none =>
    refine iff_of_false (S.not_exact_of_idle (List.head?_eq_none_iff.mp hplan)) fun hholds => ?_
    obtain ⟨first, hfirst, _⟩ := hholds
    rw [hplan] at hfirst
    cases hfirst
  | some first =>
    have hfit : (S.matrix.offset.setWidth 16).toNat + (S.matrix.size.setWidth 16).toNat ≤ 2 ^ 16 := by
      rw [offset_toNat, size_toNat]
      exact Nat.le_of_lt S.size_lt
    simp only [HoldsWhen, hplan, Option.some.injEq, exists_eq_left']
    cases hcall : S.call with
    | toIrams => exact exact_of_writes hplan (by rw [hcall]; rfl) fun s => by rw [Done, hcall]
    | toWrams => exact exact_of_writes hplan (by rw [hcall]; rfl) fun s => by rw [Done, hcall]
    | fromIrams =>
      refine exact_of_reads hplan (fun s mask dpu array halike hmem => ?_) fun s => by rw [Done, hcall]
      obtain ⟨ci, hci, hone⟩ := effective_one (by rw [hcall]; rfl) hmem
      rw [hcall]
      exact ufiIramRead_spec hfit (halike.nrCis.symm ▸ hci) fun ci' hci' => hone ci' (halike.nrCis ▸ hci')
    | fromWrams =>
      refine exact_of_reads hplan (fun s mask dpu array _ _ => ?_) fun s => by rw [Done, hcall]
      rw [hcall]
      exact ufiWramRead_spec hfit

end MatrixSetting

/-! ## A word for another DPU -/

/-- Two interfaces of one DPU, both of which have been written the word 5; one word has changed to 7 since. -/
def leftOverBoard : Board where
  rank :=
    { nrCis := 2
      nrDpus := 1
      sliceInfo := fun _ =>
        { structureValue := wramWriteWordStruct 0
          sliceTarget := .dpu 0
          hostMuxMramState := 0
          dpusPerGroup := fun _ => 0
          enabledDpus := 1
          allDpusAreEnabled := true }
      cmds := fun _ => ⟨wramWriteWordFrame 5 0, true⟩
      commits := []
      outcome := fun _ => .done
      clock := 0 }
  chips := fun ci =>
    { decoder := ⟨wramWriteWordStruct 0, .dpu 0, fun _ => 0⟩
      memory := fun _ _ _ => if ci = 0 then 5 else 7
      result := 0 }
  host := fun _ _ => 6
  used := []

theorem leftOverBoard_noted (ci : Nat) : (leftOverBoard.port ci).Noted := by
  have hagain : (leftOverBoard.chips ci).decoder.execute (wramWriteWordFrame 5 0) = (leftOverBoard.chips ci).decoder :=
    (quiet_wramWrite 5 0).execute rfl
  refine ⟨.inl rfl, fun _ => rfl, congrArg Decoder.structReg hagain, fun _ => ?_, (quiet_wramWrite 5 0).command⟩
  exact congrArg Decoder.target hagain

/-- A WRAM write of one word, to the DPUs whose buffers are `ptr`. -/
def leftOverCall (ptr : Nat → Nat) : MatrixSetting where
  call := .toWrams
  board := leftOverBoard
  matrix := ⟨ptr, 0, 1⟩
  stack := fun _ => 0
  nrCis_le := by decide
  nrDpus_le := by decide
  noted := fun ci _ => leftOverBoard_noted ci
  inside := (by decide : 0 + 1 ≤ 16384)

/-- A word of an interface after a call. -/
def MatrixSetting.wordAfter (S : MatrixSetting) (ci dpu : Nat) (kind : MemKind) (a : BitVec 16) : Option Word :=
  match S.outcome with
  | .ok _ s => some ((s.port ci).chip.memory dpu kind a)
  | .error _ _ => none

/-- No buffer: nothing is accessed and the status is what it was. A buffer for the first interface only: the
second one gets the word that was left for it. -/
theorem matrix_calls_inexact :
    ¬(leftOverCall fun _ => 0).Exact ∧ ¬(leftOverCall fun i => if i = 0 then 1 else 0).Exact := by
  constructor
  · exact (leftOverCall fun _ => 0).not_exact_of_idle (by decide)
  · intro ⟨s, hrun, hdone, _⟩
    have hword : (leftOverCall fun i => if i = 0 then 1 else 0).wordAfter 1 0 .wram 0 = some 5 := by decide +kernel
    have hkept := hdone.others 1 (by decide) 0 (by decide) .wram 0 fun htarget => absurd htarget.1.2.2 (by decide)
    rw [MatrixSetting.wordAfter, hrun] at hword
    exact absurd (hkept.symm.trans (Option.some.inj hword)) (by decide)

end DpuBackend.Ufi
