import DpuBackend.Lib.Loops
import DpuBackend.Xeon.Transfer

/-
  The scatter/gather iterator, as the sequence of bytes it visits.

  The three ways the iterator moves (eight bytes inside a block, exactly to its
  end, byte by byte across blocks) are one: eight moves of `getNextByte`
  (`getNextEightBytes_takes`, `writeNextEightBytes_eq`). `At q` is the iterator after `q` bytes:
  in a block, in the padding, or, when the list is empty, on whatever the
  arrays' first entry held before the padding replaced it.
-/

namespace DpuBackend.Xeon

open DpuBackend.Lib DpuBackend.Lib.Mem

attribute [local instance] neZero_eight

/-! ## Logs of accesses -/

/-- Some access of the log covers address `x`. -/
def Covered (log : List (Nat × Nat)) (x : Nat) : Prop := ∃ b ∈ log, ¬Outside b.1 b.2 x

theorem covered_cons {log : List (Nat × Nat)} {a n x : Nat} :
    Covered ((a, n) :: log) x ↔ (a ≤ x ∧ x < a + n) ∨ Covered log x := by
  unfold Covered Outside
  simp only [List.exists_mem_cons_iff]
  have h : ¬(x < a ∨ a + n ≤ x) ↔ a ≤ x ∧ x < a + n := by omega
  rw [h]

theorem not_covered_nil (x : Nat) : ¬Covered [] x := by
  intro ⟨b, hb, _⟩
  exact absurd hb List.not_mem_nil

/-- An access of eight bytes covers the eight addresses. -/
theorem covered_block {log : List (Nat × Nat)} {addr : Nat → Nat} {a : Nat} (haddr : ∀ b < 8, addr b = a + b) (x : Nat) :
    Covered ((a, 8) :: log) x ↔ (∃ b < 8, x = addr b) ∨ Covered log x := by
  rw [covered_cons]
  apply or_congr_left
  constructor
  · intro h
    exact ⟨x - a, by omega, by rw [haddr _ (by omega)]; omega⟩
  · intro ⟨b, hb, hx⟩
    rw [haddr b hb] at hx
    omega

/-- One more byte accessed. -/
theorem covered_succ {log log' : List (Nat × Nat)} {addr : Nat → Nat} {i : Nat}
    (h : ∀ x, Covered log' x ↔ (∃ b < i, x = addr b) ∨ Covered log x) (x : Nat) :
    Covered ((addr i, 1) :: log') x ↔ (∃ b < i + 1, x = addr b) ∨ Covered log x := by
  rw [covered_cons, h x, ← or_assoc]
  apply or_congr_left
  constructor
  · intro hx
    cases hx with
    | inl hx => exact ⟨i, Nat.lt_succ_self i, by omega⟩
    | inr hx =>
      obtain ⟨b, hb, hx⟩ := hx
      exact ⟨b, Nat.lt_succ_of_lt hb, hx⟩
  · intro ⟨b, hb, hx⟩
    rcases Nat.lt_succ_iff_lt_or_eq.mp hb with hlt | heq
    · exact .inr ⟨b, hlt, hx⟩
    · rw [heq] at hx
      exact .inl (by omega)

/-! ## Eight bytes are eight times one byte -/

/-- The iterator moved past `n` bytes. -/
def advance : Nat → SgXferBufferIterator → SgXferBufferIterator
  | 0, it => it
  | n + 1, it => (getNextByte (advance n it)).2

theorem advance_zero (it : SgXferBufferIterator) : advance 0 it = it := rfl

theorem advance_succ (n : Nat) (it : SgXferBufferIterator) :
    advance (n + 1) it = (getNextByte (advance n it)).2 := rfl

-- unfolding it in place doubles the term at every step
attribute [irreducible] advance

/-- The address of the `n`th byte from the iterator on. -/
def byteAddr (it : SgXferBufferIterator) (n : Nat) : Nat := (getNextByte (advance n it)).1

/-- Away from the block's end a byte only moves the index. -/
theorem getNextByte_inside {it : SgXferBufferIterator} (h : it.currentBlockIndex + 1 < it.currentBlockLength)
    (h32 : it.currentBlockIndex + 1 < 2 ^ 32) :
    getNextByte it =
      (it.currentBlockAddr + it.currentBlockIndex, { it with currentBlockIndex := it.currentBlockIndex + 1 }) := by
  have hne : ¬it.currentBlockIndex + 1 = it.currentBlockLength := by omega
  simp only [getNextByte, Nat.mod_eq_of_lt h32, if_neg hne]

/-- The byte at the block's end moves to the next block. -/
theorem getNextByte_end {it : SgXferBufferIterator} (h : it.currentBlockIndex + 1 = it.currentBlockLength)
    (h32 : it.currentBlockIndex + 1 < 2 ^ 32) :
    getNextByte it = (it.currentBlockAddr + it.currentBlockIndex, goToNextBlock it) := by
  simp only [getNextByte, Nat.mod_eq_of_lt h32, if_pos h]
  by_cases hend : it.blocksAddrPtr = it.blocksAddrPtrEnd
  · simp [hend, goToNextBlock]
  · simp [hend, goToNextBlock]

theorem advance_inside {it : SgXferBufferIterator} :
    ∀ n, it.currentBlockIndex + n < it.currentBlockLength → it.currentBlockIndex + n < 2 ^ 32 →
      advance n it = { it with currentBlockIndex := it.currentBlockIndex + n }
  | 0, _, _ => advance_zero it
  | n + 1, h, h32 => by
    rw [advance_succ, advance_inside n (by omega) (by omega), getNextByte_inside (by simp only; omega) (by simp only; omega)]
    rfl

theorem byteAddr_inside {it : SgXferBufferIterator} {n : Nat} (h : it.currentBlockIndex + n + 1 ≤ it.currentBlockLength)
    (h32 : it.currentBlockIndex + n + 1 < 2 ^ 32) :
    byteAddr it n = it.currentBlockAddr + it.currentBlockIndex + n := by
  rw [byteAddr, advance_inside n (by omega) (by omega)]
  rcases Nat.lt_or_ge (it.currentBlockIndex + n + 1) it.currentBlockLength with hlt | hge
  · rw [getNextByte_inside (by simpa using hlt) (by simpa using h32)]
    simp only
    omega
  · rw [getNextByte_end (by simp only; omega) (by simpa using h32)]
    simp only
    omega

/-- Moving by eight to exactly the block's end moves to the next block. -/
theorem advance_end {it : SgXferBufferIterator} (h : it.currentBlockLength = 8 + it.currentBlockIndex)
    (h32 : it.currentBlockIndex + 8 < 2 ^ 32) : advance 8 it = goToNextBlock it := by
  rw [advance_succ 7, advance_inside 7 (by omega) (by omega), getNextByte_end (by simp only; omega) (by simp only; omega)]
  rfl

/-- The next eight bytes of memory the iterator visits. -/
def nextWord (host : Mem UInt8) (it : SgXferBufferIterator) : Word := fun b => host (byteAddr it b)

/-- `s'` is `s` with the first `n` of the addresses `addr` loaded from. -/
structure LoadsBytes (addr : Nat → Nat) (n : Nat) (s s' : XferState) : Prop where
  logged : s' = { s with blockLoads := s'.blockLoads }
  loaded : ∀ x, Covered s'.blockLoads x ↔ (∃ b < n, x = addr b) ∨ Covered s.blockLoads x

theorem LoadsBytes.refl (addr : Nat → Nat) (s : XferState) : LoadsBytes addr 0 s s where
  logged := rfl
  loaded x := by simp

/-- A load of eight consecutive bytes. -/
theorem loadsBytes_block {addr : Nat → Nat} {a : Nat} (haddr : ∀ b < 8, addr b = a + b) (s : XferState) :
    LoadsBytes addr 8 s (s.loadBlock a 8) :=
  ⟨rfl, covered_block haddr⟩

theorem LoadsBytes.next {addr : Nat → Nat} {i : Nat} {s s' : XferState} (h : LoadsBytes addr i s s') :
    LoadsBytes addr (i + 1) s (s'.loadBlock (addr i) 1) where
  logged := by
    rw [h.logged]
    rfl
  loaded := covered_succ h.loaded

/-- The body of the byte-by-byte loop of `get_next_eight_bytes`. -/
def getByteStep (st : Word × XferState × SgXferBufferIterator) (i : Nat) : Word × XferState × SgXferBufferIterator :=
  (Function.update st.1 (Fin.ofNat 8 i) (st.2.1.host (getNextByte st.2.2).1), st.2.1.loadBlock (getNextByte st.2.2).1 1,
    (getNextByte st.2.2).2)

/-- What `get_next_eight_bytes` takes, loads and leaves. -/
structure TakesWord (s : XferState) (it : SgXferBufferIterator) (out : Word × XferState × SgXferBufferIterator) :
    Prop where
  word : out.1 = nextWord s.host it
  loads : LoadsBytes (byteAddr it) 8 s out.2.1
  iter : out.2.2 = advance 8 it

theorem getBytes_loop (s : XferState) (it : SgXferBufferIterator) (w : Word) :
    TakesWord s it ((List.range 8).foldl getByteStep (w, s, it)) := by
  have h : ∀ n ≤ 8, LoadsBytes (byteAddr it) n s ((List.range n).foldl getByteStep (w, s, it)).2.1 ∧
      ((List.range n).foldl getByteStep (w, s, it)).2.2 = advance n it ∧
      ∀ b : Fin 8, b.val < n → ((List.range n).foldl getByteStep (w, s, it)).1 b = nextWord s.host it b := by
    intro n hn
    refine foldl_range_inv (P := fun n (st : Word × XferState × SgXferBufferIterator) =>
      LoadsBytes (byteAddr it) n s st.2.1 ∧ st.2.2 = advance n it ∧ ∀ b : Fin 8, b.val < n → st.1 b = nextWord s.host it b) n
      ⟨.refl _ s, (advance_zero it).symm, fun b hb => absurd hb (Nat.not_lt_zero _)⟩ ?_
    intro i hi st ⟨hloads, hit, hword⟩
    have hi8 : i % 8 = i := Nat.mod_eq_of_lt (Nat.lt_of_lt_of_le hi hn)
    have hhost : st.2.1.host = s.host := by rw [hloads.logged]
    simp only [getByteStep, hit, hhost]
    refine ⟨hloads.next, by rw [advance_succ], ?_⟩
    intro b hb
    by_cases hbi : b = Fin.ofNat 8 i
    · have hval : b.val = i := by rw [hbi, Fin.val_ofNat, hi8]
      rw [← hbi, Function.update_self, nextWord, byteAddr, hval]
    · have hval : b.val ≠ i := fun e => hbi (Fin.ext (by rw [Fin.val_ofNat, hi8, e]))
      rw [Function.update_of_ne hbi]
      exact hword b (by omega)
  obtain ⟨hloads, hit, hword⟩ := h 8 (Nat.le_refl 8)
  exact ⟨funext fun b => hword b b.isLt, hloads, hit⟩

/-- `get_next_eight_bytes` takes the next eight bytes, whichever of its three ways it takes. -/
theorem getNextEightBytes_takes (s : XferState) {it : SgXferBufferIterator} (h32 : it.currentBlockIndex + 8 < 2 ^ 32) :
    TakesWord s it (getNextEightBytes s it) := by
  have hmod : (8 + it.currentBlockIndex) % 2 ^ 32 = 8 + it.currentBlockIndex := Nat.mod_eq_of_lt (by omega)
  have hblock : 8 + it.currentBlockIndex ≤ it.currentBlockLength →
      ∀ b < 8, byteAddr it b = it.currentBlockAddr + it.currentBlockIndex + b :=
    fun hle b hb => byteAddr_inside (by omega) (by omega)
  have hload : 8 + it.currentBlockIndex ≤ it.currentBlockLength →
      s.host.load (it.currentBlockAddr + it.currentBlockIndex) 8 = nextWord s.host it := by
    intro hle
    funext b
    rw [load_apply, nextWord, hblock hle b b.isLt]
  simp only [getNextEightBytes, hmod]
  split
  · next h =>
    refine ⟨hload (by omega), loadsBytes_block (hblock (by omega)) s, ?_⟩
    rw [advance_inside 8 (by omega) h32, Nat.mod_eq_of_lt h32]
  · split
    · next h => exact ⟨hload (by omega), loadsBytes_block (hblock (by omega)) s, (advance_end h h32).symm⟩
    · exact getBytes_loop s it _

/-! ## Eight bytes stored -/

/-- `s'` is `s` with the first `n` bytes of `w` stored at the addresses `addr`. -/
structure StoresBytes (addr : Nat → Nat) (w : Word) (n : Nat) (s s' : XferState) : Prop where
  region : s'.region = s.region
  host_at : ∀ b : Fin 8, b.val < n → s'.host (addr b) = w b
  host_off : ∀ x, (∀ b < n, x ≠ addr b) → s'.host x = s.host x
  stored : ∀ x, Covered s'.hostStores x ↔ (∃ b < n, x = addr b) ∨ Covered s.hostStores x

/-- A store of eight consecutive bytes. -/
theorem storesBytes_block {addr : Nat → Nat} {a : Nat} (haddr : ∀ b < 8, addr b = a + b) (w : Word) (s : XferState) :
    StoresBytes addr w 8 s (s.storeHost a w) where
  region := storeHost_region ..
  host_at b _ := by rw [storeHost_host, haddr b b.isLt, store_inside]
  host_off x hx := by
    rw [storeHost_host]
    apply store_outside
    by_contra hin
    unfold Outside at hin
    have hx' := hx (x - a) (by omega)
    rw [haddr _ (by omega)] at hx'
    omega
  stored := covered_block haddr

/-- One more byte. -/
theorem StoresBytes.next {addr : Nat → Nat} {w : Word} {i : Nat} {s s' : XferState} (h : StoresBytes addr w i s s')
    (hi : i < 8) (hinj : ∀ b < i, addr b ≠ addr i) :
    StoresBytes addr w (i + 1) s (s'.storeHost (addr i) (fun _ : Fin 1 => w (Fin.ofNat 8 i))) where
  region := by rw [storeHost_region, h.region]
  host_at b hb := by
    rw [storeHost_host]
    by_cases hbi : b.val = i
    · have hval : Fin.ofNat 8 i = b := Fin.ext (by rw [Fin.val_ofNat, Nat.mod_eq_of_lt hi, hbi])
      rw [hbi, hval]
      exact store_inside _ (addr i) (fun _ : Fin 1 => w b) 0
    · have hlt : b.val < i := by omega
      have hne := hinj b hlt
      rw [store_outside _ _ _ (by unfold Outside; omega)]
      exact h.host_at b hlt
  host_off x hx := by
    have hne := hx i (Nat.lt_succ_self i)
    rw [storeHost_host, store_outside _ _ _ (by unfold Outside; omega)]
    exact h.host_off x fun b hb => hx b (Nat.lt_succ_of_lt hb)
  stored := covered_succ h.stored

/-- The body of the byte-by-byte loop of `write_next_eight_bytes`. -/
def putByteStep (w : Word) (st : XferState × SgXferBufferIterator) (i : Nat) : XferState × SgXferBufferIterator :=
  (st.1.storeHost (getNextByte st.2).1 (fun _ : Fin 1 => w (Fin.ofNat 8 i)), (getNextByte st.2).2)

theorem putBytes_loop (w : Word) (s : XferState) (it : SgXferBufferIterator)
    (hinj : ∀ b < 8, ∀ b' < b, byteAddr it b' ≠ byteAddr it b) :
    StoresBytes (byteAddr it) w 8 s ((List.range 8).foldl (putByteStep w) (s, it)).1 ∧
      ((List.range 8).foldl (putByteStep w) (s, it)).2 = advance 8 it := by
  have h : ∀ n ≤ 8, StoresBytes (byteAddr it) w n s ((List.range n).foldl (putByteStep w) (s, it)).1 ∧
      ((List.range n).foldl (putByteStep w) (s, it)).2 = advance n it := by
    intro n hn
    refine foldl_range_inv (P := fun n (st : XferState × SgXferBufferIterator) =>
      StoresBytes (byteAddr it) w n s st.1 ∧ st.2 = advance n it) n ?_ ?_
    · refine ⟨⟨rfl, fun b hb => absurd hb (Nat.not_lt_zero _), fun _ _ => rfl, fun x => ?_⟩, (advance_zero it).symm⟩
      simp
    · intro i hi st hst
      have hi8 : i < 8 := Nat.lt_of_lt_of_le hi hn
      refine ⟨?_, by simp only [putByteStep, hst.2, advance_succ]⟩
      simp only [putByteStep, hst.2]
      exact hst.1.next hi8 (hinj i hi8)
  exact h 8 (Nat.le_refl 8)

/-- Once the padding is reached at the start of a word, nothing is stored. -/
theorem writeNextEightBytes_end {s : XferState} {it : SgXferBufferIterator} (hend : it.blocksAddrPtr = it.blocksAddrPtrEnd)
    (w : Word) : writeNextEightBytes s it w = (s, it) := by
  simp only [writeNextEightBytes, if_pos hend]

/-- `write_next_eight_bytes` stores to the next eight bytes, whichever of its three ways it takes. -/
theorem writeNextEightBytes_eq {s : XferState} {it : SgXferBufferIterator} (h32 : it.currentBlockIndex + 8 < 2 ^ 32)
    (hend : it.blocksAddrPtr ≠ it.blocksAddrPtrEnd) (hinj : ∀ b < 8, ∀ b' < b, byteAddr it b' ≠ byteAddr it b)
    (w : Word) : StoresBytes (byteAddr it) w 8 s (writeNextEightBytes s it w).1 ∧
      (writeNextEightBytes s it w).2 = advance 8 it := by
  have hmod : (8 + it.currentBlockIndex) % 2 ^ 32 = 8 + it.currentBlockIndex := Nat.mod_eq_of_lt (by omega)
  simp only [writeNextEightBytes, if_neg hend, hmod]
  split
  · next h =>
    refine ⟨storesBytes_block (fun b hb => byteAddr_inside (by omega) (by omega)) w s, ?_⟩
    rw [advance_inside 8 (by omega) h32, Nat.mod_eq_of_lt h32]
  · split
    · next h =>
      exact ⟨storesBytes_block (fun b hb => byteAddr_inside (by omega) (by omega)) w s, (advance_end h h32).symm⟩
    · exact putBytes_loop w s it hinj

/-! ## The concatenation of the blocks -/

/-- The addresses of the bytes of the first `n` blocks, in order. -/
def SgXferBuffer.addressesUpTo (b : SgXferBuffer) (n : Nat) : List Nat :=
  (List.range n).flatMap fun j => (List.range (b.blocksLength j)).map fun c => b.blocksAddr j + c

/-- The addresses of the bytes of the concatenation of the blocks. -/
def SgXferBuffer.addresses (b : SgXferBuffer) : List Nat := b.addressesUpTo b.nrBlocks

/-- The number of bytes in the blocks. -/
def SgXferBuffer.total (b : SgXferBuffer) : Nat := b.addresses.length

/-- The position of block `j` in the concatenation. -/
def SgXferBuffer.blockStart (b : SgXferBuffer) (j : Nat) : Nat := (b.addressesUpTo j).length

/-- Byte `q` of the concatenation of the blocks, padded with zeros. -/
def SgXferBuffer.paddedByte (b : SgXferBuffer) (host : Mem UInt8) (q : Nat) : UInt8 :=
  match b.addresses[q]? with
  | some a => host a
  | none => 0

/-- The list with the padding entry behind its blocks. -/
def SgXferBuffer.padded (b : SgXferBuffer) (zeros : Nat) : SgXferBuffer :=
  { b with
    blocksAddr := Function.update b.blocksAddr b.nrBlocks zeros
    blocksLength := Function.update b.blocksLength b.nrBlocks 4096 }

/-- What `init_sg_xfer_buffer_iterator` does to the lists. -/
theorem storeList_padded (s : XferState) (k zeros : Nat) : (s.storeList k (s.lists k).nrBlocks zeros 4096).lists =
    Function.update s.lists k ((s.lists k).padded zeros) := rfl

theorem padded_padded (b : SgXferBuffer) (zeros : Nat) : (b.padded zeros).padded zeros = b.padded zeros := by
  simp only [SgXferBuffer.padded, Function.update_idem]

/-- What the callers build: at most `maxNrBlocks` blocks, none empty. -/
structure SgXferBuffer.Valid (b : SgXferBuffer) : Prop where
  nrBlocks : b.nrBlocks ≤ b.maxNrBlocks
  nonempty : ∀ j < b.nrBlocks, 0 < b.blocksLength j
  length32 : ∀ j, b.blocksLength j < 2 ^ 32

section Blocks

variable {b : SgXferBuffer}

theorem addressesUpTo_succ (n : Nat) : b.addressesUpTo (n + 1) =
    b.addressesUpTo n ++ (List.range (b.blocksLength n)).map fun c => b.blocksAddr n + c := by
  simp [SgXferBuffer.addressesUpTo, List.range_succ]

theorem blockStart_succ (j : Nat) : b.blockStart (j + 1) = b.blockStart j + b.blocksLength j := by
  simp [SgXferBuffer.blockStart, addressesUpTo_succ]

theorem blockStart_nrBlocks : b.blockStart b.nrBlocks = b.total := rfl

/-- Byte `c` of block `j` sits at its block's position plus `c`. -/
theorem addressesUpTo_getElem {j c : Nat} (hc : c < b.blocksLength j) :
    ∀ n, j < n → (b.addressesUpTo n)[b.blockStart j + c]? = some (b.blocksAddr j + c)
  | 0, hj => absurd hj (Nat.not_lt_zero j)
  | n + 1, hj => by
    rw [addressesUpTo_succ]
    rcases Nat.lt_succ_iff_lt_or_eq.mp hj with hlt | rfl
    · have ih := addressesUpTo_getElem hc n hlt
      obtain ⟨hin, -⟩ := List.getElem?_eq_some_iff.mp ih
      rw [List.getElem?_append_left hin]
      exact ih
    · rw [SgXferBuffer.blockStart, List.getElem?_append_right (Nat.le_add_right _ _), Nat.add_sub_cancel_left,
        List.getElem?_map, List.getElem?_range hc]
      rfl

theorem lt_total_of_getElem {q a : Nat} (h : b.addresses[q]? = some a) : q < b.total :=
  (List.getElem?_eq_some_iff.mp h).1

theorem addresses_nil (h : b.nrBlocks = 0) : b.addresses = [] := by
  simp [SgXferBuffer.addresses, SgXferBuffer.addressesUpTo, h]

end Blocks

/-! ## Where the iterator stands -/

section Place

variable (zeros : Nat) (b : SgXferBuffer) (q : Nat) (it : SgXferBufferIterator)

/-- In a block, at byte `q` of the concatenation. -/
def InBlock : Prop :=
  it.blocksAddrPtr < b.nrBlocks ∧ it.currentBlockLength = b.blocksLength it.blocksAddrPtr ∧
    it.currentBlockAddr = b.blocksAddr it.blocksAddrPtr ∧ it.currentBlockIndex < it.currentBlockLength ∧
    q = b.blockStart it.blocksAddrPtr + it.currentBlockIndex

/-- Past the blocks, in the padding block. -/
def InPadding : Prop :=
  b.nrBlocks ≠ 0 ∧ it.blocksAddrPtr = b.nrBlocks ∧ it.currentBlockLength = 4096 ∧ it.currentBlockAddr = zeros ∧
    it.currentBlockIndex = (q - b.total) % 4096 ∧ b.total ≤ q

/-- No block at all: the iterator goes round the entry the arrays held before the
padding was put there. -/
def InStale : Prop :=
  b.nrBlocks = 0 ∧ it.blocksAddrPtr = 0 ∧ it.currentBlockLength = b.blocksLength 0 ∧
    it.currentBlockAddr = b.blocksAddr 0 ∧ it.currentBlockIndex = q % b.blocksLength 0

/-- The iterator over `b` after `q` bytes. -/
structure At : Prop where
  blocksAddr : it.blocksAddr = Function.update b.blocksAddr b.nrBlocks zeros
  blocksLength : it.blocksLength = Function.update b.blocksLength b.nrBlocks 4096
  ptrEnd : it.blocksAddrPtrEnd = b.nrBlocks
  lengthPtr : it.blocksLengthPtr = it.blocksAddrPtr
  index_le : it.currentBlockIndex ≤ q
  place : InBlock b q it ∨ InPadding zeros b q it ∨ InStale b q it

end Place

variable {zeros q : Nat} {b : SgXferBuffer} {it : SgXferBufferIterator}

theorem at_init (zeros : Nat) {s : XferState} {k : Nat} (hlist : s.lists k = b) (hb : b.Valid) :
    At zeros b 0 (initSgXferBufferIterator zeros s k).2 := by
  subst hlist
  simp only [initSgXferBufferIterator, storeList_padded, Function.update_self]
  refine ⟨rfl, rfl, rfl, rfl, Nat.le_refl 0, ?_⟩
  by_cases h : (s.lists k).nrBlocks = 0
  · exact .inr (.inr ⟨h, rfl, rfl, rfl, (Nat.zero_mod _).symm⟩)
  · exact .inl ⟨Nat.pos_of_ne_zero h, rfl, rfl, hb.nonempty 0 (Nat.pos_of_ne_zero h), rfl⟩

/-- Going on from a block is going to the next one, or to the padding after the last. -/
theorem At.goToNextBlock (h : At zeros b q it) (hb : b.Valid) (hin : InBlock b q it)
    (hlast : it.currentBlockIndex + 1 = it.currentBlockLength) : At zeros b (q + 1) (goToNextBlock it) := by
  obtain ⟨hptr, hlen, -, -, hq⟩ := hin
  have hne : ¬it.blocksAddrPtrEnd = it.blocksAddrPtr := by rw [h.ptrEnd]; omega
  have hnext : b.blockStart (it.blocksAddrPtr + 1) = q + 1 := by rw [blockStart_succ, ← hlen]; omega
  simp only [DpuBackend.Xeon.goToNextBlock, if_neg hne, h.lengthPtr, h.blocksAddr, h.blocksLength]
  refine ⟨rfl, rfl, h.ptrEnd, rfl, Nat.zero_le _, ?_⟩
  by_cases hend : it.blocksAddrPtr + 1 = b.nrBlocks
  · have htotal : b.total = q + 1 := by rw [← hnext, hend, blockStart_nrBlocks]
    refine .inr (.inl ⟨by omega, hend, ?_, ?_, ?_, by omega⟩)
    · simp only [hend, Function.update_self]
    · simp only [hend, Function.update_self]
    · simp only [htotal, Nat.sub_self, Nat.zero_mod]
  · refine .inl ⟨by simp only; omega, ?_, ?_, ?_, ?_⟩
    · simp only [Function.update_of_ne hend]
    · simp only [Function.update_of_ne hend]
    · simp only [Function.update_of_ne hend]
      exact hb.nonempty _ (by omega)
    · simp only [Nat.add_zero, hnext]

/-- One byte further. -/
theorem At.next (h : At zeros b q it) (hb : b.Valid) (h32 : q + 1 < 2 ^ 32) : At zeros b (q + 1) (getNextByte it).2 := by
  have hidx := h.index_le
  by_cases hlast : it.currentBlockIndex + 1 = it.currentBlockLength
  · rw [getNextByte_end hlast (by omega)]
    rcases h.place with hin | ⟨h0, hptr, hlen, haddr, hpad, hq⟩ | ⟨h0, hptr, hlen, haddr, hmod⟩
    · exact h.goToNextBlock hb hin hlast
    · have hend : it.blocksAddrPtrEnd = it.blocksAddrPtr := h.ptrEnd.trans hptr.symm
      simp only [DpuBackend.Xeon.goToNextBlock, if_pos hend]
      exact ⟨h.blocksAddr, h.blocksLength, h.ptrEnd, h.lengthPtr, Nat.zero_le _,
        .inr (.inl ⟨h0, hptr, hlen, haddr, by simp only; omega, by omega⟩)⟩
    · have hend : it.blocksAddrPtrEnd = it.blocksAddrPtr := by rw [h.ptrEnd, h0, hptr]
      simp only [DpuBackend.Xeon.goToNextBlock, if_pos hend]
      refine ⟨h.blocksAddr, h.blocksLength, h.ptrEnd, h.lengthPtr, Nat.zero_le _,
        .inr (.inr ⟨h0, hptr, hlen, haddr, ?_⟩)⟩
      simp only
      rw [Nat.add_mod, ← hmod, ← hlen, ← hlast]
      rcases Nat.eq_zero_or_pos it.currentBlockIndex with hz | hz
      · rw [hz]
      · rw [Nat.mod_eq_of_lt (by omega : 1 < it.currentBlockIndex + 1), Nat.mod_self]
  · have hbyte : (getNextByte it).2 = { it with currentBlockIndex := it.currentBlockIndex + 1 } := by
      simp only [getNextByte, Nat.mod_eq_of_lt (by omega : it.currentBlockIndex + 1 < 2 ^ 32), if_neg hlast]
    rw [hbyte]
    refine ⟨h.blocksAddr, h.blocksLength, h.ptrEnd, h.lengthPtr, by simp only; omega, ?_⟩
    rcases h.place with ⟨hptr, hlen, haddr, hlt, hq⟩ | ⟨h0, hptr, hlen, haddr, hlt, hq⟩ | ⟨h0, hptr, hlen, haddr, hmod⟩
    · exact .inl ⟨hptr, hlen, haddr, by simp only; omega, by simp only; omega⟩
    · exact .inr (.inl ⟨h0, hptr, hlen, haddr, by simp only; omega, by omega⟩)
    · refine .inr (.inr ⟨h0, hptr, hlen, haddr, ?_⟩)
      simp only
      rw [hlen, hmod] at hlast
      rcases Nat.eq_zero_or_pos (b.blocksLength 0) with hz | hz
      · rw [hmod, hz, Nat.mod_zero, Nat.mod_zero]
      · have hlt := Nat.mod_lt q hz
        rw [hmod, Nat.add_mod q 1, Nat.mod_eq_of_lt (by omega : 1 < b.blocksLength 0),
          Nat.mod_eq_of_lt (by omega : q % b.blocksLength 0 + 1 < b.blocksLength 0)]

theorem At.advance (h : At zeros b q it) (hb : b.Valid) : ∀ n, q + n < 2 ^ 32 → At zeros b (q + n) (advance n it)
  | 0, _ => by rw [advance_zero]; exact h
  | n + 1, h32 => by
    rw [advance_succ]
    exact (At.advance h hb n (by omega)).next hb h32

/-! ## The bytes visited -/

/-- The address a byte is taken from does not depend on whether it ends its block. -/
theorem getNextByte_fst (it : SgXferBufferIterator) : (getNextByte it).1 = it.currentBlockAddr + it.currentBlockIndex := by
  simp only [getNextByte]
  split
  · split <;> rfl
  · rfl

theorem InBlock.getElem (hin : InBlock b q it) : b.addresses[q]? = some (getNextByte it).1 := by
  obtain ⟨hptr, hlen, haddr, hlt, hq⟩ := hin
  rw [getNextByte_fst, hq, haddr]
  exact addressesUpTo_getElem (by omega) b.nrBlocks hptr

/-- Before the end of the concatenation the iterator is in a block. -/
theorem At.inBlock (h : At zeros b q it) (hq : q < b.total) : InBlock b q it := by
  rcases h.place with hin | ⟨-, -, -, -, -, hge⟩ | ⟨h0, -⟩
  · exact hin
  · omega
  · rw [SgXferBuffer.total, addresses_nil h0] at hq
    exact absurd hq (Nat.not_lt_zero q)

/-- From the end of the concatenation on the iterator's pointer is at the end. -/
theorem At.atEnd_iff (h : At zeros b q it) : it.blocksAddrPtr = it.blocksAddrPtrEnd ↔ b.total ≤ q := by
  rw [h.ptrEnd]
  constructor
  · intro hend
    by_contra hlt
    have hin := (h.inBlock (by omega)).1
    omega
  · intro hge
    rcases h.place with hin | ⟨-, hptr, -⟩ | ⟨h0, hptr, -⟩
    · have := lt_total_of_getElem (InBlock.getElem hin)
      omega
    · exact hptr
    · rw [hptr, h0]

/-- The address of byte `q` of the concatenation of the blocks followed by the padding, as
the iterator finds it: with an empty list, in the stale first entry. -/
def SgXferBuffer.streamAddr (b : SgXferBuffer) (zeros q : Nat) : Nat :=
  if b.nrBlocks = 0 then b.blocksAddr 0 + q % b.blocksLength 0
  else match b.addresses[q]? with
    | some a => a
    | none => zeros + (q - b.total) % 4096

/-- Byte `q` of what the iterator visits, the padding block being zero. -/
def SgXferBuffer.streamByte (b : SgXferBuffer) (host : Mem UInt8) (q : Nat) : UInt8 :=
  if b.nrBlocks = 0 then host (b.blocksAddr 0 + q % b.blocksLength 0) else b.paddedByte host q

theorem At.addr (h : At zeros b q it) : (getNextByte it).1 = b.streamAddr zeros q := by
  unfold SgXferBuffer.streamAddr
  rcases h.place with hin | ⟨h0, -, -, haddr, hpad, hge⟩ | ⟨h0, -, -, haddr, hmod⟩
  · have hne : b.nrBlocks ≠ 0 := by have := hin.1; omega
    simp only [if_neg hne, InBlock.getElem hin]
  · have hnone : b.addresses[q]? = none := List.getElem?_eq_none hge
    simp only [if_neg h0, hnone]
    rw [getNextByte_fst, haddr, hpad]
  · rw [if_pos h0, getNextByte_fst, haddr, hmod]

theorem streamByte_eq {host : Mem UInt8} (hzeros : ∀ z < 4096, host (zeros + z) = 0) (b : SgXferBuffer) (q : Nat) :
    host (b.streamAddr zeros q) = b.streamByte host q := by
  unfold SgXferBuffer.streamAddr SgXferBuffer.streamByte SgXferBuffer.paddedByte
  split
  · rfl
  · split
    · rfl
    · exact hzeros _ (Nat.mod_lt _ (by decide))

/-- The eight bytes taken at byte `q`, where they are loaded from, and the iterator after them. -/
theorem At.getNextEightBytes (h : At zeros b q it) (hb : b.Valid) (h32 : q + 8 < 2 ^ 32) (s : XferState)
    (hzeros : ∀ z < 4096, s.host (zeros + z) = 0) :
    (getNextEightBytes s it).1 = (fun k : Fin 8 => b.streamByte s.host (q + k)) ∧
      LoadsBytes (fun k => b.streamAddr zeros (q + k)) 8 s (getNextEightBytes s it).2.1 ∧
      At zeros b (q + 8) (getNextEightBytes s it).2.2 := by
  have hidx := h.index_le
  have haddr : ∀ k < 8, byteAddr it k = b.streamAddr zeros (q + k) :=
    fun k hk => (h.advance hb k (by omega)).addr
  have htakes : TakesWord s it (DpuBackend.Xeon.getNextEightBytes s it) := getNextEightBytes_takes s (by omega)
  refine ⟨?_, ⟨htakes.loads.logged, fun x => ?_⟩, ?_⟩
  · rw [htakes.word]
    funext k
    rw [nextWord, haddr k k.isLt]
    exact streamByte_eq hzeros b (q + k)
  · rw [htakes.loads.loaded x]
    apply or_congr_left
    exact exists_congr fun k => and_congr_right fun hk => by rw [haddr k hk]
  · rw [htakes.iter]
    exact h.advance hb 8 h32

/-- The address of a byte past the blocks, where the iterator entered the padding. -/
theorem At.byte_padding (h : At zeros b q it) (hne : b.nrBlocks ≠ 0) (hge : b.total ≤ q) :
    (getNextByte it).1 = zeros + (q - b.total) % 4096 := by
  rcases h.place with hin | ⟨-, -, -, haddr, hpad, -⟩ | ⟨h0, -⟩
  · have := lt_total_of_getElem (InBlock.getElem hin)
    omega
  · rw [getNextByte_fst, haddr, hpad]
  · exact absurd h0 hne

/-! ## The iterator of a read -/

/-- The iterator of a read after `q` bytes: it stops moving once it has reached
the end. -/
structure AtRead (zeros : Nat) (b : SgXferBuffer) (q : Nat) (it : SgXferBufferIterator) : Prop where
  before : q < b.total → At zeros b q it
  after : b.total ≤ q → it.blocksAddrPtr = it.blocksAddrPtrEnd

theorem At.toRead (h : At zeros b q it) : AtRead zeros b q it := ⟨fun _ => h, h.atEnd_iff.mpr⟩

/-- A list set up before has its first entry still, if it has a block at all: setting it up again
gives the same iterator, or one that is at the end. -/
theorem atRead_init (zeros : Nat) {s : XferState} {k : Nat} (hlist : s.lists k = b ∨ s.lists k = b.padded zeros)
    (hb : b.Valid) : AtRead zeros b 0 (initSgXferBufferIterator zeros s k).2 := by
  rcases hlist with hlist | hlist
  · exact (at_init zeros hlist hb).toRead
  · by_cases h0 : b.nrBlocks = 0
    · have htotal : b.total = 0 := by rw [SgXferBuffer.total, addresses_nil h0, List.length_nil]
      refine ⟨fun hlt => absurd hlt (by omega), fun _ => ?_⟩
      simp only [initSgXferBufferIterator, hlist, SgXferBuffer.padded, h0]
    · -- the padding entry is not the first one, and storing it again changes nothing
      have hat := at_init zeros (s := { s with lists := fun _ => b }) (k := k) rfl hb
      have hsame : (initSgXferBufferIterator zeros s k).2 =
          (initSgXferBufferIterator zeros { s with lists := fun _ => b } k).2 := by
        simp [initSgXferBufferIterator, XferState.storeList, hlist, SgXferBuffer.padded, Ne.symm h0]
      rw [hsame]
      exact hat.toRead

end DpuBackend.Xeon
