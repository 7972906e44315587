import DpuBackend.Vpd.Image

/-
  The VPD structure, written to a file and read again.

  What the calls that change a structure keep is `WellFormed`. The file of such
  a structure is its header, its entries and a filling of zeros that is the
  smaller of the room left and of what lacks to a multiple of 272 bytes. The
  reader takes the filling for entries too, but stores them behind those that
  count. With 121 entries there is no room left: the filling is empty, and its
  `fwrite` returns 0, as if it had failed.
-/

namespace DpuBackend.Vpd

open DpuBackend.Lib

/-! ## Reading -/

theorem size_header : Header.layout.size = 112 := rfl

theorem size_entry : RepairEntry.layout.size = 16 := rfl

theorem readEntries_stored (file : List UInt8) (stored : Nat) (vpd : DpuVpd) :
    (readEntries file stored vpd).1 = stored + file.length / 16 := by
  fun_induction readEntries file stored vpd with
  | case1 file stored vpd index hshort =>
    rw [size_entry] at hshort
    change stored = stored + file.length / 16
    omega
  | case2 file stored vpd index hlong ih =>
    rw [size_entry] at hlong ih ⊢
    rw [ih, List.length_drop]
    omega

theorem readEntries_header (file : List UInt8) (stored : Nat) (vpd : DpuVpd) :
    (readEntries file stored vpd).2.header = vpd.header := by
  fun_induction readEntries file stored vpd with
  | case1 => rfl
  | case2 file stored vpd index hlong ih => exact ih

/-- While the index does not wrap, an entry is stored where its number says, and stays there. -/
theorem readEntries_entries {file : List UInt8} {stored : Nat} {vpd : DpuVpd}
    (hsmall : stored + file.length / 16 < 2 ^ 16) {i : Nat} (hi : i < stored + file.length / 16) :
    (readEntries file stored vpd).2.entries i =
      if i < stored then vpd.entries i else RepairEntry.layout.decode (file.drop (16 * (i - stored))) := by
  fun_induction readEntries file stored vpd with
  | case1 file stored vpd index hshort =>
    rw [size_entry] at hshort
    have hindex : index = stored := Nat.mod_eq_of_lt (by omega)
    have hne : i ≠ index := by omega
    rw [if_pos (by omega)]
    exact if_neg hne
  | case2 file stored vpd index hlong ih =>
    rw [size_entry] at hlong ih ⊢
    rw [List.length_drop] at ih
    have hindex : index = stored := Nat.mod_eq_of_lt (by omega)
    rw [ih (by omega) (by omega)]
    by_cases hbefore : i < stored
    · have hne : i ≠ index := by omega
      rw [if_pos (by omega), if_pos hbefore]
      exact if_neg hne
    · rw [if_neg hbefore]
      by_cases hthis : i = stored
      · rw [if_pos (by omega), hthis, Nat.sub_self, Nat.mul_zero, List.drop_zero]
        exact if_pos hindex.symm
      · have hplace : 16 + 16 * (i - (stored + 1)) = 16 * (i - stored) := by omega
        rw [if_neg (by omega), List.drop_drop, hplace]

/-! ## Writing -/

/-- The number of entries that count. -/
def DpuVpd.count (vpd : DpuVpd) : Nat :=
  if vpd.header.repairCount ≠ vpdUndefinedRepairCount then vpd.header.repairCount.toNat else 0

/-- The entries that count. -/
def DpuVpd.listed (vpd : DpuVpd) : List RepairEntry := (List.range' 0 vpd.count).map vpd.entries

/-- The file without the filling. -/
def DpuVpd.body (vpd : DpuVpd) : List UInt8 :=
  Header.layout.encode vpd.header ++ RepairEntry.layout.encodeAll vpd.listed

theorem length_listed (vpd : DpuVpd) : vpd.listed.length = vpd.count := by
  rw [DpuVpd.listed, List.length_map, List.length_range']

theorem length_body (vpd : DpuVpd) : vpd.body.length = 112 + 16 * vpd.count := by
  rw [DpuVpd.body, List.length_append, Layout.length_encode, Layout.length_encodeAll, length_listed]
  rfl

theorem fwrite_run {element : List UInt8} (h : 0 < element.length) (file : List UInt8) :
    fwrite element file = .ok ⟨⟩ (file ++ element) := by
  change (if element.length = 0 then (throw VpdError.err : FileM PUnit) else pure ⟨⟩) (file ++ element) = _
  rw [if_neg (Nat.ne_of_gt h)]
  rfl

theorem bind_run {α β : Type} {x : FileM α} {f : α → FileM β} {a : α} {file file' : List UInt8}
    (h : x file = .ok a file') : (x >>= f) file = f a file' := by
  change EStateM.bind x f file = _
  unfold EStateM.bind
  rw [h]

theorem writeEntries_run (entries : Nat → RepairEntry) (left repair : Nat) (file : List UInt8) :
    writeEntries entries left repair file =
      .ok ⟨⟩ (file ++ RepairEntry.layout.encodeAll ((List.range' repair left).map entries)) := by
  induction left generalizing repair file with
  | zero =>
    rw [Layout.encodeAll]
    exact congrArg _ (List.append_nil file).symm
  | succ left ih =>
    have hpos : 0 < (RepairEntry.layout.encode (entries repair)).length := by
      rw [Layout.length_encode, size_entry]
      omega
    rw [writeEntries, bind_run (fwrite_run hpos file), ih, List.range'_succ, List.map_cons, List.append_assoc]
    rfl

theorem toNat_sizeAlign {w : Nat} (h : w ≤ 2048) : (sizeAlign w).toNat = min (2048 - w) (272 - w % 272) := by
  have hw : (UInt64.ofNat w).toNat = w := UInt64.toNat_ofNat_of_lt' (Nat.lt_of_le_of_lt h (by decide))
  have hmax : (UInt64.ofNat vpdMaxSize).toNat = 2048 := rfl
  have hchunk : (UInt64.ofNat vpdSizeChunkMultiple).toNat = 272 := rfl
  have hroom : (UInt64.ofNat vpdMaxSize - UInt64.ofNat w).toNat = 2048 - w := by
    rw [UInt64.toNat_sub_of_le _ _ (by rw [UInt64.le_iff_toNat_le, hw, hmax]; exact h), hw, hmax]
  have hlacks : (UInt64.ofNat vpdSizeChunkMultiple - UInt64.ofNat w % UInt64.ofNat vpdSizeChunkMultiple).toNat =
      272 - w % 272 := by
    have hmod : (UInt64.ofNat w % UInt64.ofNat vpdSizeChunkMultiple).toNat = w % 272 := by
      rw [UInt64.toNat_mod, hw, hchunk]
    rw [UInt64.toNat_sub_of_le _ _ (by rw [UInt64.le_iff_toNat_le, hmod, hchunk]; omega), hmod, hchunk]
  unfold sizeAlign
  generalize UInt64.ofNat vpdMaxSize - UInt64.ofNat w = room at hroom
  generalize UInt64.ofNat vpdSizeChunkMultiple - UInt64.ofNat w % UInt64.ofNat vpdSizeChunkMultiple = lacks at hlacks
  have hmin : min room lacks = if room ≤ lacks then room else lacks := rfl
  rw [hmin]
  split
  · next hle =>
    rw [UInt64.le_iff_toNat_le, hroom, hlacks] at hle
    omega
  · next hlt =>
    rw [UInt64.le_iff_toNat_le, hroom, hlacks] at hlt
    omega

theorem dpuVpdWrite_run {vpd : DpuVpd} (h : vpd.count ≤ 121) :
    dpuVpdWrite vpd [] =
      fwrite (List.replicate (min (2048 - (112 + 16 * vpd.count)) (272 - (112 + 16 * vpd.count) % 272)) 0) vpd.body := by
  have hpos : 0 < (Header.layout.encode vpd.header).length := by
    rw [Layout.length_encode, size_header]
    omega
  have hsize : Header.layout.size + vpd.count * RepairEntry.layout.size = 112 + 16 * vpd.count := by
    rw [size_header, size_entry]
    omega
  rw [← toNat_sizeAlign (by omega), ← hsize]
  unfold dpuVpdWrite
  rw [bind_run (fwrite_run hpos [])]
  exact bind_run (writeEntries_run _ _ _ _)

/-! ## Reachable structures -/

/-- The calls that change a structure. -/
inductive Call where
  | add (new : NewEntry)
  | disable (rank : Fin vpdMaxRank) (sliceId dpuId : UInt8)
  | enable (rank : Fin vpdMaxRank) (sliceId dpuId : UInt8)

/-- Whatever the call returns. -/
def DpuVpd.call (vpd : DpuVpd) : Call → DpuVpd
  | .add new => (dpuVpdAddRepairEntry vpd new).1
  | .disable rank sliceId dpuId => (dpuVpdDisableDpu vpd rank sliceId dpuId).1
  | .enable rank sliceId dpuId => (dpuVpdEnableDpu vpd rank sliceId dpuId).1

/-- After `dpu_vpd_init(NULL)` and some calls, in memory that held `mem`. -/
def DpuVpd.after (mem : DpuVpd) (calls : List Call) : DpuVpd := calls.foldl DpuVpd.call (dpuVpdInitNull mem)

structure DpuVpd.WellFormed (vpd : DpuVpd) : Prop where
  structId : vpd.header.structId = vpdStructId
  structVer : vpd.header.structVer = vpdStructVersion
  count_le : vpd.count ≤ nbMaxRepair

theorem toNat_counted (vpd : DpuVpd) : vpd.counted.toNat = vpd.count := by
  unfold DpuVpd.counted DpuVpd.count
  split
  · next h =>
    rw [if_neg (not_not.2 h)]
    rfl
  · rfl

/-- A structure has the count `n`. -/
theorem count_of_repairCount {vpd : DpuVpd} {n : UInt16} (h : vpd.header.repairCount = n) (hn : n.toNat ≤ nbMaxRepair) :
    vpd.count = n.toNat := by
  have hmax : nbMaxRepair = 121 := rfl
  have hne : n ≠ vpdUndefinedRepairCount := by
    rintro rfl
    revert hn
    decide
  rw [DpuVpd.count, h, if_pos hne]

theorem append_wellFormed {vpd : DpuVpd} (hwf : vpd.WellFormed) (hroom : vpd.count < nbMaxRepair) (new : NewEntry) :
    (vpd.append new).WellFormed ∧ (vpd.append new).count = vpd.count + 1 := by
  have hmax : nbMaxRepair = 121 := rfl
  have hnext : (vpd.counted + 1).toNat = vpd.count + 1 := by
    have hone : (1 : UInt16).toNat = 1 := rfl
    rw [UInt16.toNat_add, toNat_counted, hone]
    exact Nat.mod_eq_of_lt (by omega)
  have hcount : (vpd.append new).count = vpd.count + 1 := by
    rw [← hnext]
    exact count_of_repairCount rfl (by omega)
  exact ⟨⟨hwf.structId, hwf.structVer, by omega⟩, hcount⟩

/-- The call is refused, finds the entry, or adds it. -/
theorem add_cases {vpd : DpuVpd} (hwf : vpd.WellFormed) (new : NewEntry) :
    (vpd.count = nbMaxRepair ∧ vpd.call (.add new) = vpd) ∨
    ((∃ i < vpd.count, compareRepairEntry (vpd.entries i) new.entry) ∧ (vpd.call (.add new)).WellFormed) ∨
    (vpd.count < nbMaxRepair ∧ vpd.call (.add new) = vpd.append new) := by
  have hle := hwf.count_le
  change (_ ∧ (dpuVpdAddRepairEntry vpd new).1 = vpd) ∨ (_ ∧ (dpuVpdAddRepairEntry vpd new).1.WellFormed) ∨
    (_ ∧ (dpuVpdAddRepairEntry vpd new).1 = _)
  rw [dpuVpdAddRepairEntry]
  by_cases hfull : vpd.header.repairCount.toNat = nbMaxRepair
  · rw [if_pos hfull]
    exact .inl ⟨(count_of_repairCount rfl (Nat.le_of_eq hfull)).trans hfull, rfl⟩
  rw [if_neg hfull, toNat_counted]
  split
  · next hfound =>
    obtain ⟨i, hi, hsame⟩ := List.any_eq_true.1 hfound
    refine .inr (.inl ⟨⟨i, List.mem_range.1 hi, hsame⟩, hwf.structId, hwf.structVer, ?_⟩)
    rw [count_of_repairCount rfl (by rw [toNat_counted]; exact hle), toNat_counted]
    exact hle
  · refine .inr (.inr ⟨Nat.lt_of_le_of_ne hle fun heq => hfull ?_, rfl⟩)
    rw [← heq, DpuVpd.count]
    split
    · rfl
    · next hundefined =>
      rw [DpuVpd.count, if_neg hundefined] at heq
      cases heq

theorem call_wellFormed {vpd : DpuVpd} (hwf : vpd.WellFormed) (call : Call) : (vpd.call call).WellFormed := by
  cases call with
  | add new =>
    rcases add_cases hwf new with ⟨-, heq⟩ | ⟨-, hnext⟩ | ⟨hroom, heq⟩
    · rwa [heq]
    · exact hnext
    · rw [heq]
      exact (append_wellFormed hwf hroom new).1
  | disable rank sliceId dpuId =>
    change (dpuVpdDisableDpu vpd rank sliceId dpuId).1.WellFormed
    unfold dpuVpdDisableDpu
    dsimp only
    split
    · exact ⟨hwf.structId, hwf.structVer, hwf.count_le⟩
    · exact hwf
  | enable rank sliceId dpuId =>
    change (dpuVpdEnableDpu vpd rank sliceId dpuId).1.WellFormed
    unfold dpuVpdEnableDpu
    dsimp only
    split
    · exact ⟨hwf.structId, hwf.structVer, hwf.count_le⟩
    · exact hwf

theorem after_wellFormed (mem : DpuVpd) (calls : List Call) : (DpuVpd.after mem calls).WellFormed := by
  unfold DpuVpd.after
  induction calls using List.reverseRecOn with
  | nil => exact ⟨rfl, rfl, Nat.zero_le _⟩
  | append_singleton calls call ih =>
    rw [List.foldl_append]
    exact call_wellFormed ih call

/-! ## The round trip -/

/-- The file is written, is not too long, and is read as the same header and the same entries, whatever the memory
held before. -/
def FileRoundTrips (vpd : DpuVpd) : Prop :=
  ∃ file, dpuVpdWrite vpd [] = .ok ⟨⟩ file ∧ file.length ≤ vpdMaxSize ∧
    ∀ mem, ∃ stored read, dpuVpdInit file mem = .ok (stored, read) ∧ read.header = vpd.header ∧
      ∀ i < vpd.count, read.entries i = vpd.entries i

/-- The entries, with a filling that is not too long, are read again. -/
theorem dpuVpdInit_body {vpd : DpuVpd} (hwf : vpd.WellFormed) {filling : List UInt8}
    (hlength : (vpd.body ++ filling).length ≤ vpdMaxSize) (mem : DpuVpd) :
    ∃ stored read, dpuVpdInit (vpd.body ++ filling) mem = .ok (stored, read) ∧ read.header = vpd.header ∧
      ∀ i < vpd.count, read.entries i = vpd.entries i := by
  have hmax : vpdMaxSize = 2048 := rfl
  have hbody := length_body vpd
  rw [List.length_append] at hlength
  have hsplit : vpd.body ++ filling =
      Header.layout.encode vpd.header ++ (RepairEntry.layout.encodeAll vpd.listed ++ filling) := List.append_assoc ..
  have hheader : Header.layout.decode (vpd.body ++ filling) = vpd.header := by rw [hsplit, Layout.decode_append]
  have hrest : (vpd.body ++ filling).drop Header.layout.size = RepairEntry.layout.encodeAll vpd.listed ++ filling := by
    rw [hsplit, ← Header.layout.length_encode vpd.header, List.drop_left]
  rw [dpuVpdInit, if_neg (by rw [List.length_append, size_header]; omega)]
  dsimp only
  rw [hheader, if_neg (not_not.2 hwf.structId), if_neg (not_not.2 hwf.structVer)]
  split
  · next hcount =>
    refine ⟨_, _, rfl, readEntries_header _ _ _, fun i hi => ?_⟩
    have hlisted : (RepairEntry.layout.encodeAll vpd.listed ++ filling).length = 16 * vpd.count + filling.length := by
      rw [List.length_append, Layout.length_encodeAll, length_listed, size_entry]
    have hi' : i < vpd.listed.length := by rwa [length_listed]
    have hentry := RepairEntry.layout.decode_encodeAll hi' filling
    rw [size_entry] at hentry
    rw [hrest, readEntries_entries (by omega) (by omega), if_neg (Nat.not_lt_zero i), Nat.sub_zero, hentry]
    simp only [DpuVpd.listed, List.getElem_map, List.getElem_range', Nat.zero_add, Nat.one_mul]
  · next hcount =>
    refine ⟨0, _, rfl, rfl, fun i hi => ?_⟩
    rw [DpuVpd.count, if_neg hcount] at hi
    exact absurd hi (Nat.not_lt_zero i)

theorem fileRoundTrips_iff_of_wellFormed {vpd : DpuVpd} (hwf : vpd.WellFormed) :
    FileRoundTrips vpd ↔ vpd.count ≠ nbMaxRepair := by
  have hmax : nbMaxRepair = 121 := rfl
  have hle := hwf.count_le
  rw [FileRoundTrips, dpuVpdWrite_run (by omega)]
  constructor
  · intro h hfull
    obtain ⟨file, hwrite, -⟩ := h
    rw [hfull, hmax] at hwrite
    cases hwrite
  · intro hne
    generalize hfilling : List.replicate (min (2048 - (112 + 16 * vpd.count)) (272 - (112 + 16 * vpd.count) % 272))
      (0 : UInt8) = filling
    have hsize := congrArg List.length hfilling
    rw [List.length_replicate] at hsize
    have hlength : (vpd.body ++ filling).length ≤ vpdMaxSize := by
      rw [List.length_append, length_body]
      change _ ≤ 2048
      omega
    exact ⟨_, fwrite_run (by omega) vpd.body, hlength, dpuVpdInit_body hwf hlength⟩

/-- What is written comes back unless all 121 entries are used. -/
theorem fileRoundTrips_iff (mem : DpuVpd) (calls : List Call) :
    FileRoundTrips (DpuVpd.after mem calls) ↔ (DpuVpd.after mem calls).count ≠ nbMaxRepair :=
  fileRoundTrips_iff_of_wellFormed (after_wellFormed mem calls)

/-! ## A full structure -/

/-- The repair of an address. -/
def addressEntry (address : Nat) : NewEntry :=
  ⟨⟨0, 0, 0, 0, 0, 0, UInt16.ofNat address, 1⟩, Nat.zero_lt_succ 3, (by decide : (0 : UInt8) < 8),
    (by decide : (0 : UInt8) < 8)⟩

/-- The repairs of the addresses below `n`. -/
def addressCalls (n : Nat) : List Call := (List.range n).map fun address => .add (addressEntry address)

theorem addressCalls_count (mem : DpuVpd) {n : Nat} (h : n ≤ nbMaxRepair) :
    (DpuVpd.after mem (addressCalls n)).count = n ∧
      ∀ i < n, (DpuVpd.after mem (addressCalls n)).entries i = (addressEntry i).entry := by
  have hmax : nbMaxRepair = 121 := rfl
  induction n with
  | zero => exact ⟨rfl, nofun⟩
  | succ n ih =>
    obtain ⟨hcount, hentries⟩ := ih (by omega)
    have hnext : DpuVpd.after mem (addressCalls (n + 1)) =
        (DpuVpd.after mem (addressCalls n)).call (.add (addressEntry n)) := by
      simp [DpuVpd.after, addressCalls, List.range_succ]
    have hwf := after_wellFormed mem (addressCalls n)
    rcases add_cases hwf (addressEntry n) with ⟨hfull, -⟩ | ⟨⟨i, hi, hsame⟩, -⟩ | ⟨hroom, heq⟩
    · omega
    · -- no two of the addresses are the same
      rw [hcount] at hi
      rw [hentries i hi, compareRepairEntry, decide_eq_true_iff] at hsame
      have haddress := congrArg UInt16.toNat hsame.2.2.2.2.2.1
      change i % 2 ^ 16 = n % 2 ^ 16 at haddress
      omega
    · rw [hnext, heq]
      refine ⟨by rw [(append_wellFormed hwf hroom _).2, hcount], fun i hi => ?_⟩
      change (if i = (DpuVpd.after mem (addressCalls n)).counted.toNat then _ else _) = _
      rw [toNat_counted, hcount]
      split
      · next hlast => rw [hlast]
      · exact hentries i (by omega)

/-- The structure with 121 entries is valid, and is not written. -/
theorem full_not_fileRoundTrips :
    ¬ FileRoundTrips (DpuVpd.after ⟨Header.layout.decode [], fun _ => RepairEntry.layout.decode []⟩ (addressCalls 121)) := by
  intro h
  exact (fileRoundTrips_iff_of_wellFormed (after_wellFormed _ _)).1 h (addressCalls_count _ (Nat.le_refl 121)).1

end DpuBackend.Vpd
