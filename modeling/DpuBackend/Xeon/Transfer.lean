import Mathlib.Data.List.Range
import DpuBackend.Lib.Mem
import DpuBackend.Xeon.Address
import DpuBackend.Xeon.Interleave

/-
  MRAM transfers of the Xeon SP backend (`xeon_sp_translation.c`).

  A transfer names, for each DPU of a rank, a host buffer (or a list of blocks,
  in the scatter/gather case) and moves `size` bytes between it and the DPU's
  MRAM at `offset`. The threads of the pool split the DPU lines between them;
  for each line a thread moves one cache line for each 64-bit word of the range,
  which carries that word of the eight DPUs of the line.

  Memory is bytes: the host's memory, and the rank's address region counted from
  its base. Apart from the bytes stand the lists of blocks that `sg_ptr` points
  to, which a transfer reads and stores to: a DPU's list is set up anew by every
  transfer that names it. Ghost logs record what no byte shows: the cache lines of
  the region that are touched (loads, stores and flushes), the host addresses and
  the entries of the lists that are stored to, and the addresses that are loaded
  from through the lists. DPU and thread numbers are at most 8 and 64, so their
  8-bit arithmetic is exact; the 32-bit sums keep their modulus.

  Correspondence (C ↔ Lean):
    `struct dpu_transfer_matrix` (`ptr` and `sg_ptr` a union) ↔ `DpuTransferMatrix`
    `struct sg_xfer_buffer`, `struct sg_xfer_buffer_iterator` ↔ `SgXferBuffer`, `SgXferBufferIterator`
    the loops of `threads_write_to_rank`  ↔ `writeFlatWord`, `writeSgWord`, `writeDpuLine`
    the loops of `threads_read_from_rank` ↔ `readFlatWord`, `readSgWord`, `readDpuLine`
    `thread_do_mram_xfer`                 ↔ `threadDoMramXfer`
-/

namespace DpuBackend.Xeon

open DpuBackend.Lib

attribute [local instance] Simd.neZero_sixtyFour

/-- A 64-bit word as its bytes in memory order. -/
abbrev Word := Fin 8 → UInt8

/-- Word `ci` of an array of eight. -/
def Line.word (l : Line) (ci : Nat) : Word := fun b => l (Fin.ofNat 64 (8 * ci + b))

/-- The array with word `ci` replaced. -/
def Line.setWord (l : Line) (ci : Nat) (w : Word) : Line := fun k =>
  if k.val / 8 = ci then w (Fin.ofNat 8 k) else l k

/-- `struct sg_xfer_buffer`: the arrays have room for `maxNrBlocks + 1` entries. -/
structure SgXferBuffer where
  maxNrBlocks : Nat
  blocksAddr : Nat → Nat
  blocksLength : Nat → Nat
  nrBlocks : Nat
deriving Inhabited

/-- The union of `ptr` and `sg_ptr`, tagged by the matrix's `type`. An address 0
is a null pointer; a pointer of `sg_ptr` stands with the list it points to when the
matrix is built. -/
inductive XferBuffers where
  | ptr (p : Nat → Nat)
  | sgPtr (p : Nat → Option SgXferBuffer)

/-- Whether the entry of a DPU is not null. -/
def XferBuffers.named : XferBuffers → Nat → Bool
  | .ptr p, k => p k != 0
  | .sgPtr p, k => (p k).isSome

/-- The lists behind the pointers of the matrix. -/
def XferBuffers.lists : XferBuffers → Nat → SgXferBuffer
  | .ptr _, _ => default
  | .sgPtr p, k => (p k).getD default

structure DpuTransferMatrix where
  buffers : XferBuffers
  offset : Nat
  size : Nat

inductive ThreadMramXfer where
  | read
  | write
  deriving DecidableEq

/-- What a transfer reads of `struct xeon_sp_private`: the topology's number of
control interfaces is reached through `tr`. -/
structure XeonSpPrivate where
  xferMatrix : DpuTransferMatrix
  direction : ThreadMramXfer
  nbCis : Nat
  nbDpusPerCi : Nat
  nbThreadsForXfer : Nat
  nbThreads : Nat
  /-- The address of the static padding block `zeros`. -/
  zeros : Nat

/-- The memory a transfer works on, with its logs. -/
structure XferState where
  host : Mem UInt8
  region : Mem UInt8
  /-- The lists `sg_ptr` points to, by the DPU's index in the matrix. -/
  lists : Nat → SgXferBuffer
  /-- Ghost: the blocks of host memory stored to, with their lengths. -/
  hostStores : List (Nat × Nat)
  /-- Ghost: the cache lines of the region touched. -/
  touched : List Nat
  /-- Ghost: the entries of the lists stored to, with their list's index. -/
  listStores : List (Nat × Nat)
  /-- Ghost: the blocks of host memory loaded from through the lists, with their lengths. -/
  blockLoads : List (Nat × Nat)

/-- A state whose logs are empty. -/
def XferState.start (host region : Mem UInt8) (lists : Nat → SgXferBuffer) : XferState :=
  ⟨host, region, lists, [], [], [], []⟩

def XferState.storeRegion (s : XferState) (a : Nat) (l : Line) : XferState :=
  { s with region := s.region.store a l, touched := a :: s.touched }

def XferState.touch (s : XferState) (a : Nat) : XferState := { s with touched := a :: s.touched }

def XferState.storeHost {n : Nat} (s : XferState) (a : Nat) (v : Fin n → UInt8) : XferState :=
  { s with host := s.host.store a v, hostStores := (a, n) :: s.hostStores }

/-- A load of `n` bytes through a list. -/
def XferState.loadBlock (s : XferState) (a n : Nat) : XferState := { s with blockLoads := (a, n) :: s.blockLoads }

/-- Entry `j` of list `k` set, its address and its length. -/
def XferState.storeList (s : XferState) (k j addr length : Nat) : XferState :=
  { s with
    lists := Function.update s.lists k
      { s.lists k with
        blocksAddr := Function.update (s.lists k).blocksAddr j addr
        blocksLength := Function.update (s.lists k).blocksLength j length }
    listStores := (k, j) :: s.listStores }

section

variable {n : Nat} (s : XferState) (a : Nat) (l : Line) (v : Fin n → UInt8)

@[simp] theorem storeRegion_region : (s.storeRegion a l).region = s.region.store a l := rfl
@[simp] theorem storeRegion_host : (s.storeRegion a l).host = s.host := rfl
@[simp] theorem storeRegion_hostStores : (s.storeRegion a l).hostStores = s.hostStores := rfl
@[simp] theorem storeRegion_touched : (s.storeRegion a l).touched = a :: s.touched := rfl
@[simp] theorem storeHost_region : (s.storeHost a v).region = s.region := rfl
@[simp] theorem storeHost_host : (s.storeHost a v).host = s.host.store a v := rfl
@[simp] theorem storeHost_hostStores : (s.storeHost a v).hostStores = (a, n) :: s.hostStores := rfl
@[simp] theorem storeHost_touched : (s.storeHost a v).touched = s.touched := rfl
@[simp] theorem touch_region : (s.touch a).region = s.region := rfl
@[simp] theorem touch_host : (s.touch a).host = s.host := rfl
@[simp] theorem touch_hostStores : (s.touch a).hostStores = s.hostStores := rfl
@[simp] theorem touch_touched : (s.touch a).touched = a :: s.touched := rfl

variable (host region : Mem UInt8) (lists : Nat → SgXferBuffer)

@[simp] theorem start_host : (XferState.start host region lists).host = host := rfl
@[simp] theorem start_lists : (XferState.start host region lists).lists = lists := rfl
@[simp] theorem start_touched : (XferState.start host region lists).touched = [] := rfl

end

/-! ## The iterator over the blocks of a scatter/gather buffer -/

/-- `struct sg_xfer_buffer_iterator`: the pointers into the two arrays are
indices. -/
structure SgXferBufferIterator where
  blocksAddr : Nat → Nat
  blocksLength : Nat → Nat
  currentBlockLength : Nat
  currentBlockAddr : Nat
  currentBlockIndex : Nat
  blocksAddrPtr : Nat
  blocksAddrPtrEnd : Nat
  blocksLengthPtr : Nat

/-- `init_sg_xfer_buffer_iterator` on list `k`: the first block's fields are read before
the padding entry is stored behind the blocks. The iterator's arrays are the list's, which
nothing else stores to as long as the iterator is in use. -/
def initSgXferBufferIterator (zeros : Nat) (s : XferState) (k : Nat) : XferState × SgXferBufferIterator :=
  let sgBuff := s.lists k
  let padded := s.storeList k sgBuff.nrBlocks zeros 4096
  (padded,
    { blocksAddr := (padded.lists k).blocksAddr
      blocksLength := (padded.lists k).blocksLength
      currentBlockLength := sgBuff.blocksLength 0
      currentBlockAddr := sgBuff.blocksAddr 0
      currentBlockIndex := 0
      blocksAddrPtr := 0
      blocksAddrPtrEnd := sgBuff.nrBlocks
      blocksLengthPtr := 0 })

/-- `go_to_next_block`. -/
def goToNextBlock (it : SgXferBufferIterator) : SgXferBufferIterator :=
  let it := { it with currentBlockIndex := 0 }
  if it.blocksAddrPtrEnd = it.blocksAddrPtr then it
  else
    { it with
      blocksAddrPtr := it.blocksAddrPtr + 1
      currentBlockAddr := it.blocksAddr (it.blocksAddrPtr + 1)
      blocksLengthPtr := it.blocksLengthPtr + 1
      currentBlockLength := it.blocksLength (it.blocksLengthPtr + 1) }

/-- `get_next_byte`: the byte's address, and the iterator moved past it. -/
def getNextByte (it : SgXferBufferIterator) : Nat × SgXferBufferIterator :=
  let byte := it.currentBlockAddr + it.currentBlockIndex
  let it := { it with currentBlockIndex := (it.currentBlockIndex + 1) % 2 ^ 32 }
  if it.currentBlockIndex = it.currentBlockLength then
    if it.blocksAddrPtr ≠ it.blocksAddrPtrEnd then (byte, goToNextBlock it)
    else (byte, { it with currentBlockIndex := 0 })
  else (byte, it)

/-- `get_next_eight_bytes`. -/
def getNextEightBytes (s : XferState) (it : SgXferBufferIterator) : Word × XferState × SgXferBufferIterator :=
  let length := it.currentBlockLength
  let current := it.currentBlockIndex
  let place := it.currentBlockAddr + current
  if length > (8 + current) % 2 ^ 32 then
    (s.host.load place 8, s.loadBlock place 8, { it with currentBlockIndex := (current + 8) % 2 ^ 32 })
  else if length = (8 + current) % 2 ^ 32 then
    (s.host.load place 8, s.loadBlock place 8, goToNextBlock it)
  else
    (List.range 8).foldl (fun (out, s, it) i =>
      let (byte, it) := getNextByte it
      (Function.update out (Fin.ofNat 8 i) (s.host byte), s.loadBlock byte 1, it)) (fun _ => 0, s, it)

/-- `write_next_eight_bytes`: nothing is stored once the padding block is reached
at the start of a word. -/
def writeNextEightBytes (s : XferState) (it : SgXferBufferIterator) (w : Word) :
    XferState × SgXferBufferIterator :=
  if it.blocksAddrPtr = it.blocksAddrPtrEnd then (s, it)
  else
    let length := it.currentBlockLength
    let current := it.currentBlockIndex
    if length > (8 + current) % 2 ^ 32 then
      (s.storeHost (it.currentBlockAddr + current) w,
        { it with currentBlockIndex := (current + 8) % 2 ^ 32 })
    else if length = (8 + current) % 2 ^ 32 then
      (s.storeHost (it.currentBlockAddr + current) w, goToNextBlock it)
    else
      (List.range 8).foldl (fun (s, it) i =>
        let (byte, it) := getNextByte it
        (s.storeHost byte (fun _ : Fin 1 => w (Fin.ofNat 8 i)), it)) (s, it)

/-- The iterators of a line, where the matrix names a DPU. -/
abbrev SgIterators := Nat → Option SgXferBufferIterator

/-- The loop that sets up the iterators of the line at `idx`. -/
def initSgIterators (nbCis zeros : Nat) (sgPtr : Nat → Option SgXferBuffer) (idx : Nat) (s : XferState) :
    XferState × SgIterators :=
  (List.range nbCis).foldl (fun (s, sgIt) ci =>
    match sgPtr (idx + ci) with
    | some _ =>
      let (s, it) := initSgXferBufferIterator zeros s (idx + ci)
      (s, Function.update sgIt ci (some it))
    | none => (s, sgIt)) (s, fun _ => none)

/-! ## Writing -/

/-- The words the flat branch gathers for word `i` of the range. -/
def gatherFlat (nbCis : Nat) (host : Mem UInt8) (ptr : Nat → Nat) (idx i : Nat) (cacheLine : Line) : Line :=
  (List.range nbCis).foldl (fun cacheLine ci =>
    if ptr (idx + ci) ≠ 0 then cacheLine.setWord ci (host.load (ptr (idx + ci) + 8 * i) 8)
    else cacheLine) cacheLine

/-- One iteration of the flat write loop. -/
def writeFlatWord (nbCis : Nat) (ptr : Nat → Nat) (dest offset idx : Nat) (st : XferState × Line) (i : Nat) :
    XferState × Line :=
  let cacheLine := gatherFlat nbCis st.1.host ptr idx i st.2
  (st.1.storeRegion (dest + lineOffset i offset) (byteInterleaveAvx512 cacheLine), cacheLine)

/-- The words the scatter/gather branch takes from the iterators. -/
def gatherSg (nbCis : Nat) (st : XferState × Line × SgIterators) : XferState × Line × SgIterators :=
  (List.range nbCis).foldl (fun (s, cacheLine, sgIt) ci =>
    match sgIt ci with
    | some it =>
      let (w, s, it) := getNextEightBytes s it
      (s, cacheLine.setWord ci w, Function.update sgIt ci (some it))
    | none => (s, cacheLine, sgIt)) st

/-- One iteration of the scatter/gather write loop. -/
def writeSgWord (nbCis dest offset : Nat) (st : XferState × Line × SgIterators) (i : Nat) :
    XferState × Line × SgIterators :=
  let (s, cacheLine, sgIt) := gatherSg nbCis st
  (s.storeRegion (dest + lineOffset i offset) (byteInterleaveAvx512 cacheLine), cacheLine, sgIt)

/-- Whether the matrix names a DPU of the line at `idx` (`do_dpu_transfer`). -/
def doDpuTransfer (p : XeonSpPrivate) (idx : Nat) : Bool :=
  (List.range p.nbCis).any fun ci => p.xferMatrix.buffers.named (idx + ci)

/-- The body of the loop over lines of `threads_write_to_rank`. `cache_line` is
declared outside it and keeps what the line before left there. -/
def writeDpuLine (p : XeonSpPrivate) (st : XferState × Line) (dpuId : Nat) : XferState × Line :=
  let idx := dpuId * 8
  let dest := bankStart dpuId
  if doDpuTransfer p idx then
    match p.xferMatrix.buffers with
    | .sgPtr sgPtr =>
      let (s, sgIt) := initSgIterators p.nbCis p.zeros sgPtr idx st.1
      let st := (List.range (p.xferMatrix.size / 8)).foldl
        (writeSgWord p.nbCis dest p.xferMatrix.offset) (s, st.2, sgIt)
      (st.1, st.2.1)
    | .ptr ptr =>
      (List.range (p.xferMatrix.size / 8)).foldl
        (writeFlatWord p.nbCis ptr dest p.xferMatrix.offset idx) st
  else st

/-- `threads_write_to_rank`; `cacheLine` is what the uninitialised array holds. -/
def threadsWriteToRank (p : XeonSpPrivate) (cacheLine : Line) (dpuIdStart dpuIdStop : Nat) (s : XferState) :
    XferState :=
  if p.xferMatrix.size = 0 then s
  else ((List.range' dpuIdStart (dpuIdStop - dpuIdStart)).foldl (writeDpuLine p) (s, cacheLine)).1

/-! ## Reading -/

/-- The eight words of a cache line of the region, put back in order. -/
def XferState.loadWords (s : XferState) (a : Nat) : Line := byteInterleaveAvx2 (s.region.load a 64)

/-- One iteration of the flat read loop. -/
def readFlatWord (nbCis : Nat) (ptr : Nat → Nat) (dest offset idx : Nat) (s : XferState) (i : Nat) : XferState :=
  let a := dest + lineOffset i offset
  let cacheLineInterleave := s.loadWords a
  (List.range nbCis).foldl (fun s ci =>
    if ptr (idx + ci) ≠ 0 then s.storeHost (ptr (idx + ci) + 8 * i) (cacheLineInterleave.word ci)
    else s) (s.touch a)

/-- One iteration of the scatter/gather read loop. -/
def readSgWord (nbCis dest offset : Nat) (st : XferState × SgIterators) (i : Nat) : XferState × SgIterators :=
  let a := dest + lineOffset i offset
  let cacheLineInterleave := st.1.loadWords a
  (List.range nbCis).foldl (fun (s, sgIt) ci =>
    match sgIt ci with
    | some it =>
      let (s, it) := writeNextEightBytes s it (cacheLineInterleave.word ci)
      (s, Function.update sgIt ci (some it))
    | none => (s, sgIt)) (st.1.touch a, st.2)

/-- The loops that flush the range's cache lines, before and after the reads. -/
def flushLines (dest offset size : Nat) (s : XferState) : XferState :=
  (List.range (size / 8)).foldl (fun s i => s.touch (dest + lineOffset i offset)) s

/-- The body of the loop over lines of `threads_read_from_rank`. -/
def readDpuLine (p : XeonSpPrivate) (s : XferState) (dpuId : Nat) : XferState :=
  let idx := dpuId * 8
  let dest := bankStart dpuId
  let offset := p.xferMatrix.offset
  let size := p.xferMatrix.size
  if doDpuTransfer p idx then
    let s := flushLines dest offset size s
    let s := match p.xferMatrix.buffers with
      | .sgPtr sgPtr =>
        ((List.range (size / 8)).foldl (readSgWord p.nbCis dest offset)
          (initSgIterators p.nbCis p.zeros sgPtr idx s)).1
      | .ptr ptr => (List.range (size / 8)).foldl (readFlatWord p.nbCis ptr dest offset idx) s
    flushLines dest offset size s
  else s

/-- `threads_read_from_rank`. -/
def threadsReadFromRank (p : XeonSpPrivate) (dpuIdStart dpuIdStop : Nat) (s : XferState) : XferState :=
  if p.xferMatrix.size = 0 then s
  else (List.range' dpuIdStart (dpuIdStop - dpuIdStart)).foldl (readDpuLine p) s

/-! ## The threads of the pool -/

/-- `dpu_id_start` and `dpu_id_stop` of a thread that takes part. -/
def threadRange (p : XeonSpPrivate) (threadId : Nat) : Nat × Nat :=
  let nbDpusPerThread := p.nbDpusPerCi / p.nbThreadsForXfer
  (threadId * nbDpusPerThread,
    if threadId = p.nbThreadsForXfer - 1 then p.nbDpusPerCi else (threadId + 1) * nbDpusPerThread)

/-- `thread_do_mram_xfer`; `cacheLine` is what the thread's stack holds. -/
def threadDoMramXfer (p : XeonSpPrivate) (cacheLine : Line) (threadId : Nat) (s : XferState) : XferState :=
  if ¬(p.nbThreadsForXfer > threadId) then s
  else
    let (dpuIdStart, dpuIdStop) := threadRange p threadId
    match p.direction with
    | .read => threadsReadFromRank p dpuIdStart dpuIdStop s
    | .write => threadsWriteToRank p cacheLine dpuIdStart dpuIdStop s

/-- The threads of the pool, one after the other in the order given. -/
def runThreads (p : XeonSpPrivate) (stack : Nat → Line) (order : List Nat) (s : XferState) : XferState :=
  order.foldl (fun s threadId => threadDoMramXfer p (stack threadId) threadId s) s

end DpuBackend.Xeon
