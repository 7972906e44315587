import DpuBackend.PidComm.RelocateRounds

/-
  Relocation without barriers.

  A tasklet then copies chunk after chunk, at its own pace. Where no copy changes the
  memory the pace does not matter (`settles_unmoved`). Where a block has another place,
  the tasklet that owns it may run before the one that reads what it overwrites: from a
  memory that is zero but for that place, everything is lost (`reach_lost`).
-/

namespace DpuBackend.PidComm

open DpuBackend.Lib

/-- A chunk that is read and then written. -/
structure Copy where
  src : Nat
  dst : Nat
  len : Nat

def Copy.transfers (c : Copy) : List Transfer := [.mramRead c.src c.len, .mramWrite c.dst c.len]

/-- A tasklet that only copies. -/
def copying (cs : List Copy) : Program := (cs.flatMap Copy.transfers).map .run

@[simp] theorem copying_nil : copying [] = [] := rfl

@[simp] theorem copying_cons (c : Copy) (cs : List Copy) :
    copying (c :: cs) = .run (.mramRead c.src c.len) :: .run (.mramWrite c.dst c.len) :: copying cs := rfl

/-! ## Copies that change nothing -/

section Unmoved

variable {n : Nat} {mram : Mem UInt8}

/-- A tasklet that copies what is there already, before a read or before a write. -/
def Idle (mram : Mem UInt8) (p : Program) (cache : Mem UInt8) : Prop :=
  ∃ cs : List Copy, (∀ c ∈ cs, mram.store c.dst (mram.load c.src c.len) = mram) ∧ (p = copying cs ∨
    ∃ dst len, p = .run (.mramWrite dst len) :: copying cs ∧ mram.store dst (cache.load 0 len) = mram)

theorem Idle.run {p rest : Program} {cache : Mem UInt8} {a : Transfer} (h : Idle mram p cache) (hp : p = .run a :: rest) :
    (transfer a mram cache).1 = mram ∧ Idle mram rest (transfer a mram cache).2 := by
  obtain ⟨cs, hcs, rfl | ⟨dst, len, rfl, hsame⟩⟩ := h
  · cases cs with
    | nil => cases hp
    | cons c cs =>
      rw [copying_cons] at hp
      obtain ⟨⟨⟩, rfl⟩ := List.cons.inj hp
      refine ⟨rfl, cs, fun d hd => hcs d (List.mem_cons_of_mem c hd), .inr ⟨c.dst, c.len, rfl, ?_⟩⟩
      show mram.store c.dst (Mem.load (cache.store 0 (mram.load c.src c.len)) 0 c.len) = mram
      rw [Mem.load_store_same]
      exact hcs c List.mem_cons_self
  · obtain ⟨⟨⟩, rfl⟩ := List.cons.inj hp
    exact ⟨hsame, cs, hcs, .inl rfl⟩

theorem settles_unmoved {s : Threads Transfer (Mem UInt8) (Mem UInt8)} (copies : Nat → List Copy)
    (hprog : ∀ t, s.program t = copying (copies t))
    (hsame : ∀ t, ∀ c ∈ copies t, s.shared.store c.dst (s.shared.load c.src c.len) = s.shared) :
    Settles transfer n s fun s' => s'.Done n ∧ s'.shared = s.shared := by
  refine settles_of_invariant (fun s' => s'.shared = s.shared ∧ ∀ t, Idle s.shared (s'.program t) (s'.locals t))
    ⟨rfl, fun t => ⟨copies t, hsame t, .inl (hprog t)⟩⟩ ?_ ?_
  · rintro s₁ s₂ ⟨hshared, hidle⟩ hstep
    cases hstep with
    | run t a rest ht hrun =>
      have hact := (hidle t).run hrun
      rw [← hshared] at hact
      refine ⟨hact.1.trans hshared, fun i => ?_⟩
      by_cases hi : i = t
      · subst hi
        simpa [Threads.ran, hshared] using hact.2
      · simpa [Threads.ran, hi] using hidle i
    | release c hc hwait =>
      obtain ⟨t, -, hat⟩ := waiting_pos hc hwait
      obtain ⟨rest, hrest⟩ := atBarrier_iff.mp hat
      exact absurd hrest (by
        obtain ⟨cs, -, hcs | ⟨dst, len, hcs, -⟩⟩ := hidle t
        · cases cs <;> simp [hcs]
        · simp [hcs])
  · rintro s' ⟨hshared, hidle⟩ hstuck
    refine ⟨fun t ht => ?_, hshared⟩
    obtain ⟨cs, -, hcs | ⟨dst, len, hcs, -⟩⟩ := hidle t
    · cases cs with
      | nil => exact hcs
      | cons c cs => exact absurd (Step.run t _ _ ht hcs) (hstuck _)
    · exact absurd (Step.run t _ _ ht hcs) (hstuck _)

end Unmoved

/-! ## A tasklet that runs ahead -/

section Lost

/-- Zero everywhere but at `x`. -/
def marked (x : Nat) : Mem UInt8 := fun y => if y = x then 1 else 0

variable {x : Nat} {mram : Mem UInt8}

theorem store_zero {dst len : Nat} {v : Fin len → UInt8} (hv : ∀ o, v o = 0) (y : Nat) :
    mram.store dst v y = if Mem.Outside dst len y then mram y else 0 := by
  split
  · exact Mem.store_outside _ _ _ ‹_›
  · rename_i hy
    simp only [Mem.Outside, not_or, not_lt, not_le] at hy
    obtain ⟨o, rfl⟩ := Nat.exists_eq_add_of_le hy.1
    exact (Mem.store_inside mram dst v ⟨o, by omega⟩).trans (hv _)

/-- Copies from elsewhere over `x` leave zeros only. -/
theorem execAll_copies (cs : List Copy) (mram cache : Mem UInt8) (hzero : ∀ y, y ≠ x → mram y = 0)
    (hsrc : ∀ c ∈ cs, Mem.Outside c.src c.len x) :
    (∀ y, y ≠ x → (execAll transfer (cs.flatMap Copy.transfers) mram cache).1 y = 0) ∧
      ((mram x = 0 ∨ ∃ c ∈ cs, ¬Mem.Outside c.dst c.len x) →
        (execAll transfer (cs.flatMap Copy.transfers) mram cache).1 x = 0) := by
  induction cs generalizing mram cache with
  | nil => exact ⟨hzero, by simp [execAll]⟩
  | cons c cs ih =>
    have hread : ∀ o : Fin c.len, Mem.load (cache.store 0 (mram.load c.src c.len)) 0 c.len o = 0 := by
      intro o
      rw [Mem.load_store_same]
      apply hzero
      have hout := hsrc c List.mem_cons_self
      intro heq
      cases hout with
      | inl h => omega
      | inr h => omega
    have hnext : ∀ y, mram.store c.dst (Mem.load (cache.store 0 (mram.load c.src c.len)) 0 c.len) y =
        if Mem.Outside c.dst c.len y then mram y else 0 := store_zero hread
    have hrest := ih (mram.store c.dst (Mem.load (cache.store 0 (mram.load c.src c.len)) 0 c.len))
      (cache.store 0 (mram.load c.src c.len)) (fun y hy => by rw [hnext, hzero y hy, ite_self])
      (fun d hd => hsrc d (List.mem_cons_of_mem c hd))
    refine ⟨hrest.1, fun hgone => hrest.2 ?_⟩
    rw [hnext]
    by_cases hx : Mem.Outside c.dst c.len x
    · rw [if_pos hx]
      apply hgone.imp_right
      intro hover
      obtain ⟨d, hd, hdst⟩ := hover
      exact ⟨d, (List.mem_cons.mp hd).resolve_left fun h => hdst (h ▸ hx), hdst⟩
    · rw [if_neg hx]
      exact .inl rfl

/-- One tasklet copies over `x` before any other has read it. -/
theorem reach_lost {n t : Nat} (ht : t < n) {s : Threads Transfer (Mem UInt8) (Mem UInt8)} (copies : Nat → List Copy)
    (hprog : ∀ t, s.program t = copying (copies t)) (hmarked : s.shared = marked x)
    (hsrc : ∀ c ∈ copies t, Mem.Outside c.src c.len x) (hdst : ∃ c ∈ copies t, ¬Mem.Outside c.dst c.len x) :
    ∃ s', Reach transfer n s s' ∧ Stuck transfer n s' ∧ s'.shared = fun _ => 0 := by
  have hcopies := execAll_copies (copies t) s.shared (s.locals t) (fun y hy => by rw [hmarked, marked, if_neg hy]) hsrc
  obtain ⟨s₁, halone, hprog₁, hshared₁⟩ : ∃ s₁, Reach transfer n s s₁ ∧ s₁.program = Function.update s.program t [] ∧
      s₁.shared = (execAll transfer ((copies t).flatMap Copy.transfers) s.shared (s.locals t)).1 :=
    ⟨_, reach_alone transfer ht ((copies t).flatMap Copy.transfers) s []
      (by rw [hprog t, List.append_nil]; rfl), rfl, rfl⟩
  have hzero : s₁.shared = fun _ => 0 := by
    funext y
    rw [hshared₁]
    by_cases hy : y = x
    · rw [hy]
      exact hcopies.2 (.inr hdst)
    · exact hcopies.1 y hy
  -- from zeros the others make zeros
  have hrest := settles_unmoved (n := n) (s := s₁) (Function.update copies t []) (fun i => ?_) (fun i c _ => ?_)
  · obtain ⟨s', hreach, hstuck⟩ := exists_stuck transfer n s₁
    exact ⟨s', .trans halone hreach, hstuck, (hrest s' hreach hstuck).2.trans hzero⟩
  · rw [hprog₁]
    by_cases hi : i = t
    · subst hi
      simp
    · simp [hi, hprog i]
  · rw [hzero]
    funext y
    exact (store_zero (v := Mem.load (fun _ => 0) c.src c.len) (fun _ => rfl) y).trans (ite_self _)

end Lost

/-! ## The loop without a barrier -/

section Loop

theorem mem_strided {n w tid t : Nat} (hw : 0 < w) (htid : tid < w) :
    t ∈ strided n w tid ↔ t < n ∧ t % w = tid := by
  have hlt : ∀ k, k < (n - tid + w - 1) / w ↔ tid + w * k < n := by
    intro k
    rw [Nat.lt_iff_add_one_le, Nat.le_div_iff_mul_le hw, Nat.mul_comm, Nat.mul_succ]
    omega
  simp only [strided, List.mem_map, List.mem_range, hlt]
  constructor
  · rintro ⟨k, hk, rfl⟩
    exact ⟨hk, by rw [Nat.add_mul_mod_self_left, Nat.mod_eq_of_lt htid]⟩
  · rintro ⟨ht, rfl⟩
    exact ⟨t / w, by rwa [Nat.mod_add_div], Nat.mod_add_div t w⟩

variable (b : Build) (total : Nat) (m : Move)

def moveCopies (tid : Nat) : List Copy :=
  let words := maxWords b total m.blocks
  (strided m.blocks m.width tid).flatMap fun t => (List.range (chunks b words)).map fun j =>
    { src := chunkAddr b m.source words t j
      dst := chunkAddr b m.target words (rotated m.width m.shift t) j
      len := chunkBytes b words j }

variable {b total m}

theorem copying_append (cs ds : List Copy) : copying (cs ++ ds) = copying cs ++ copying ds := by
  simp [copying]

theorem copying_flatMap {ι : Type} (is : List ι) (f : ι → List Copy) :
    copying (is.flatMap f) = is.flatMap fun i => copying (f i) := by
  induction is with
  | nil => rw [List.flatMap_nil, List.flatMap_nil, copying_nil]
  | cons i is ih => simp [copying_append, ih]

theorem moveBlocks_unsynced (h : m.barrier = none) (tid : Nat) :
    moveBlocks b total false m tid = copying (moveCopies b total m tid) := by
  unfold moveBlocks moveCopies
  rw [copying_flatMap]
  congr 1
  funext t
  rw [List.map_eq_flatMap, copying_flatMap]
  congr 1
  funext j
  simp [moveChunk, h, sync]

variable {size : Nat}

/-- A block with a place of its own is lost when its tasklet runs first. -/
theorem race_not_settles {t₀ : Nat} (hbarrier : m.barrier = none) (hw : 0 < m.width) (hw8 : m.width ≤ 8) (hplace : m.target = m.source)
    (hwords : maxWords b total m.blocks * b.wordBytes = size) (hsize : 0 < size)
    (hfit : b.heap + m.source + m.blocks * size ≤ b.mram + 2 ^ 26) (ht₀ : t₀ < m.blocks)
    (hmoves : rotated m.width m.shift t₀ ≠ t₀) {s : Threads Transfer (Mem UInt8) (Mem UInt8)} {mram' : Mem UInt8}
    (hprog : ∀ t, s.program t = if t < m.width then moveBlocks b total false m t else [])
    (hshared : s.shared = marked (b.heap + m.source + size * rotated m.width m.shift t₀))
    (hrel : Relocated (b.heap + m.source) size m.blocks (rotated m.width m.shift) s.shared mram') :
    ¬Settles transfer nrTasklets s fun s' => s'.Done nrTasklets ∧ AgreeFrom b.heap s'.shared mram' := by
  intro hsettles
  obtain ⟨p, hp⟩ : ∃ p, rotated m.width m.shift t₀ = p := ⟨_, rfl⟩
  rw [hp] at hmoves hshared
  have hgroup : p / m.width = t₀ / m.width := hp ▸ rotated_group hw t₀
  have hother : p % m.width ≠ t₀ % m.width := by
    intro heq
    apply hmoves
    rw [← Nat.div_add_mod p m.width, hgroup, heq, Nat.div_add_mod]
  have hpn : p < m.blocks + 8 := by
    have h₁ := Nat.div_add_mod p m.width
    have h₂ := Nat.div_add_mod t₀ m.width
    have h₃ := Nat.mod_lt p hw
    rw [hgroup] at h₁
    omega
  have hfits : ∀ t < m.blocks + 8, b.heap + m.source + size * (t + 1) ≤ 2 ^ 32 := by
    intro t ht
    have hlow := b.mram_low
    have hheap := b.mram_le_heap
    have hend : size * (t + 1) ≤ size * (m.blocks + 8) := Nat.mul_le_mul_left size ht
    have hone : 1 * size ≤ m.blocks * size := Nat.mul_le_mul_right size (by omega)
    rw [Nat.mul_comm size (m.blocks + 8), Nat.add_mul] at hend
    omega
  have hlen := fun (j : Nat) (h : 2048 * j < size) => chunkBytes_eq hwords h
  have hmod := Nat.mod_lt t₀ hw
  -- the tasklet of block `t₀` runs alone: it reads no byte of the marked block and writes over its mark
  obtain ⟨s', hreach, hstuck, hzero⟩ := reach_lost (n := nrTasklets) (t := t₀ % m.width)
    (by unfold nrTasklets; omega) (s := s) (fun t => if t < m.width then moveCopies b total m t else [])
    (fun t => by
      rw [hprog t, moveBlocks_unsynced hbarrier]
      split <;> rfl) hshared
    (by
      intro c hc
      simp only [if_pos hmod, moveCopies, List.mem_flatMap, List.mem_map, List.mem_range, mem_strided hw hmod,
        lt_chunks_iff hwords] at hc
      obtain ⟨t, ⟨ht, htmod⟩, j, hj, rfl⟩ := hc
      show Mem.Outside (chunkAddr b m.source (maxWords b total m.blocks) t j)
        (chunkBytes b (maxWords b total m.blocks) j) _
      rw [chunkAddr_eq hwords (hfits t (by omega)) hj, hlen j hj]
      obtain h | h | h := Nat.lt_trichotomy t p
      · have hbefore : size * (t + 1) ≤ size * p := Nat.mul_le_mul_left size h
        rw [Nat.mul_succ] at hbefore
        exact .inr (by omega)
      · exact absurd (h ▸ htmod) hother
      · have hafter : size * (p + 1) ≤ size * t := Nat.mul_le_mul_left size h
        rw [Nat.mul_succ] at hafter
        exact .inl (by omega))
    (by
      simp only [if_pos hmod, moveCopies, List.mem_flatMap, List.mem_map, List.mem_range, mem_strided hw hmod,
        lt_chunks_iff hwords]
      refine ⟨_, ⟨t₀, ⟨ht₀, rfl⟩, 0, hsize, rfl⟩, ?_⟩
      show ¬Mem.Outside (chunkAddr b m.target (maxWords b total m.blocks) (rotated m.width m.shift t₀) 0)
        (chunkBytes b (maxWords b total m.blocks) 0) _
      rw [hp, hplace, chunkAddr_eq hwords (hfits p hpn) hsize, hlen 0 hsize]
      simp only [Mem.Outside]
      omega)
  have hend : ∀ x, b.heap ≤ x → mram' x = 0 := by
    intro x hx
    rw [← (hsettles s' hreach hstuck).2 x hx, hzero]
  -- but the mark is to be found where block `p` belongs, or in place if there is no such block
  have hmark : s.shared (b.heap + m.source + size * p) = 1 := by rw [hshared, marked, if_pos rfl]
  by_cases hin : p < m.blocks
  · have hblock := hrel.1 p hin 0 hsize
    rw [hend _ (by omega), Nat.add_zero, hmark] at hblock
    exact absurd hblock (by decide)
  · have hout := hrel.2 (b.heap + m.source + size * p) (.inr (by
      rw [Nat.mul_comm m.blocks]
      exact Nat.add_le_add_left (Nat.mul_le_mul_left size (by omega)) _))
    rw [hend _ (by omega), hmark] at hout
    exact absurd hout (by decide)

end Loop

end DpuBackend.PidComm
