import DpuBackend.Ufi.DebugContext

/-
  A debugger leaves the interfaces as the program had noted them.

  The save reads the colors, with an identity where a NOP was shown, and touches no
  decoder. What the debugger does afterwards keeps its own copies of the colors and of the
  structure registers right, if every packet it sends is delivered. The restore then
  selects the targets, makes every color the opposite of the one expected, and counts on
  the structures it sends to toggle them all: a structure `CI_EMPTY` toggles nothing.

  `debug_transparent` is about the sessions without that.
-/

namespace DpuBackend.Ufi

open DpuBackend.Lib

/-! ## Reading -/

section Reads

variable {stable noted : Packets → Bool} {read : Nat → Except CmdError Packets}

/-- What a poll that succeeds has read. -/
structure PolledUntil (stable noted : Packets → Bool) (read : Nat → Except CmdError Packets) (k : Nat) (data : Packets)
    (seen : Bool) : Prop where
  pos : 0 < k
  last : read (k - 1) = .ok data
  stable : stable data = true
  noted : noted data = true → seen = true

theorem pollUntil_ok : ∀ (timeout start : Nat) (before : Bool) {k : Nat} {data : Packets} {seen : Bool},
    pollUntil stable noted read timeout start before = .ok (k, data, seen) →
      PolledUntil stable noted read k data seen ∧
        (seen = true → before = true ∨ ∃ i data', read i = .ok data' ∧ noted data' = true)
  | 0, _, _, _, _, _, h => by
    cases h
  | timeout + 1, start, before, k, data, seen, h => by
    unfold pollUntil at h
    cases hread : read start with
    | error e =>
      rw [hread] at h
      cases h
    | ok data' =>
      rw [hread] at h
      simp only at h
      split at h
      · cases h
      · split at h
        · next hstable =>
          cases h
          refine ⟨⟨Nat.succ_pos _, hread, hstable, fun hnoted => ?_⟩, fun hseen => ?_⟩
          · rw [hnoted, Bool.or_true]
          · obtain hbefore | hnoted := (Bool.or_eq_true_iff ..).mp hseen
            · exact .inl hbefore
            · exact .inr ⟨start, data, hread, hnoted⟩
        · obtain ⟨hpolled, hseen⟩ := pollUntil_ok timeout (start + 1) _ h
          refine ⟨hpolled, fun htrue => ?_⟩
          obtain hbefore | hfound := hseen htrue
          · obtain hbefore | hnoted := (Bool.or_eq_true_iff ..).mp hbefore
            · exact .inl hbefore
            · exact .inr ⟨start, data', hread, hnoted⟩
          · exact .inr hfound

variable {c : Ci} {faults : Faults} {result : BitVec 32}

theorem typeByte_shows_nop {restored : BitVec 32} (h : c.restored = some restored) :
    typeByte (c.shows faults result) = 0xFF := by
  rw [Ci.shows, h]
  apply BitVec.eq_of_getLsbD_eq
  intro i hi
  have hconst : ∀ i < 64, (ciNop.getLsbD (56 + i) && (0xFF : Word).getLsbD i) = (0xFF : Word).getLsbD i := by decide
  simp only [typeByte, BitVec.getLsbD_and, BitVec.getLsbD_ushiftRight, BitVec.getLsbD_or, BitVec.getLsbD_setWidth]
  rw [BitVec.getLsbD_of_ge restored (56 + i) (by omega), Bool.and_false, Bool.or_false]
  exact hconst i hi

theorem typeByte_shows (h : c.restored = none) : typeByte (c.shows faults result) = 0 := by
  rw [Ci.shows, h]
  apply BitVec.eq_of_getLsbD_eq
  intro i hi
  have hconst : ∀ i < 64, (0xFF00000000 : Word).getLsbD (56 + i) = false := by decide
  simp only [typeByte, BitVec.getLsbD_and, BitVec.getLsbD_ushiftRight, BitVec.getLsbD_or, BitVec.getLsbD_setWidth,
    BitVec.getLsbD_shiftLeft]
  rw [BitVec.getLsbD_of_ge result (56 + i) (by omega), BitVec.getLsbD_of_ge _ (56 + i - 48) (by omega), hconst i hi]
  simp

theorem colorOf_shows (h : c.restored = none) :
    colorOf (c.shows faults result) = (if c.color then 0 else 0xFF#8) ^^^ faults.val := by
  rw [Ci.shows, h]
  apply BitVec.eq_of_getLsbD_eq
  intro i hi
  have hconst : ∀ i < 8, (0xFF00000000 : Word).getLsbD (48 + i) = false ∧ (0x00FF000000000000#64).getLsbD (48 + i) = true := by
    decide
  simp only [colorOf, BitVec.getLsbD_and, BitVec.getLsbD_ushiftRight, BitVec.getLsbD_or, BitVec.getLsbD_setWidth,
    BitVec.getLsbD_shiftLeft]
  rw [BitVec.getLsbD_of_ge result (48 + i) (by omega), (hconst i hi).1, (hconst i hi).2, Nat.add_sub_cancel_left]
  have h48 : 48 + i < 64 := by omega
  have hi64 : i < 64 := by omega
  simp [hi, h48, hi64]

/-- Three changed bits do not hide a color. -/
theorem count_faults (color : Bool) (faults : Faults) :
    dpuMaskCount ((if color then 0 else 0xFF#8) ^^^ faults.val) ≤ 3 ↔ color = true := by
  cases color with
  | true =>
    have hzero : (0 : Mask) ^^^ faults.val = faults.val := BitVec.zero_xor
    simp only [if_true, hzero]
    exact ⟨fun _ => trivial, fun _ => faults.property⟩
  | false =>
    simp only [Bool.false_eq_true, if_false, iff_false]
    have hfew := faults.property
    rw [BitVec.xor_comm, dpuMaskCount_not]
    omega

/-- A read that shows no unfinished command shows what the interface has to show. -/
theorem Reading.read_shows {p : Reading} {ci : Nat → Ci} {k i : Nat} {data : Packets} (h : p.read ci k = .ok data)
    (htype : typeByte (data i) = 0xFF ∨ typeByte (data i) = 0) :
    p.delay i ≤ k ∧ data i = (ci i).shows (p.faults i) (p.result i) := by
  unfold Reading.read at h
  split at h
  · cases h
  · cases h
    by_cases hdelay : p.delay i ≤ k
    · exact ⟨hdelay, if_pos hdelay⟩
    · simp only [hdelay, if_false] at htype
      exact absurd htype (by decide)

/-- Once it shows its result an interface goes on to show it. -/
theorem Reading.read_again {p : Reading} {ci : Nat → Ci} {k k' i : Nat} {data : Packets} (h : p.read ci k' = .ok data)
    (hdelay : p.delay i ≤ k) (hle : k ≤ k') : data i = (ci i).shows (p.faults i) (p.result i) := by
  unfold Reading.read at h
  split at h
  · cases h
  · cases h
    exact if_pos (Nat.le_trans hdelay hle)

theorem typeByte_nop_iff : typeByte (c.shows faults result) = 0xFF ↔ c.restored.isSome = true := by
  cases h : c.restored with
  | none =>
    rw [typeByte_shows h]
    simp
  | some restored =>
    rw [typeByte_shows_nop h]
    simp

end Reads

/-! ## The colors -/

theorem colorsRead_bit (data : Packets) {i : Nat} (hi : i < 8) : ∀ (l : List Nat) (color : Mask),
    (colorsRead data l color).getLsbD i =
      if i ∈ l then decide (dpuMaskCount (colorOf (data i)) ≤ 3) else color.getLsbD i
  | [], color => by simp [colorsRead]
  | ci :: rest, color => by
    rw [colorsRead, colorsRead_bit data hi rest]
    by_cases hmem : i ∈ rest
    · simp [hmem]
    · by_cases heq : i = ci
      · subst heq
        simp only [hmem, if_false, List.mem_cons_self, if_true]
        split
        · next hfew => simp [hi, hfew]
        · next hmany => simp [hmany]
      · simp only [hmem, if_false, List.mem_cons, heq, false_or]
        split
        · simp [heq]
        · simp [heq]

/-- The colors are noted as they are, where every interface shows a result. -/
theorem noteColors_bit {l : Link} (hcis : l.rank.nrCis ≤ 8) {data : Packets} {p : Reading}
    (hdata : ∀ ci < l.rank.nrCis, data ci = (l.wire.ci ci).shows (p.faults ci) (p.result ci))
    (hnone : ∀ ci < l.rank.nrCis, (l.wire.ci ci).restored = none) {ci : Nat} (hci : ci < l.rank.nrCis) :
    (l.noteColors data).wire.color.getLsbD ci = (l.wire.ci ci).color := by
  have hi : ci < 8 := Nat.lt_of_lt_of_le hci hcis
  show (colorsRead data (List.range l.rank.nrCis) l.wire.color).getLsbD ci = _
  rw [colorsRead_bit data hi, if_pos (List.mem_range.mpr hci), hdata ci hci, colorOf_shows (hnone ci hci)]
  rw [Bool.eq_iff_iff, decide_eq_true_eq]
  exact count_faults _ _

/-- What a save that succeeds has done. -/
structure Saved (l l' : Link) : Prop where
  rank : l'.rank = l.rank
  decoder : ∀ ci, (l'.wire.ci ci).decoder = (l.wire.ci ci).decoder
  toggled : ∀ ci < l.rank.nrCis, (l'.wire.ci ci).color = ((l.wire.ci ci).color != (l.wire.ci ci).restored.isSome)
  noted : ∀ ci < l.rank.nrCis, l'.wire.color.getLsbD ci = (l'.wire.ci ci).color

theorem receive_identity (c : Ci) : c.receive ciIdentity = { decoder := c.decoder, color := !c.color, restored := none } := by
  unfold Ci.receive
  rw [if_neg (by decide), if_neg (by decide), Exchange.execute_identity]

theorem dummyCommand_saved {l l' : Link} (hcis : l.rank.nrCis ≤ 8) {data : Packets} {a : ColorAnswers}
    (hdata : ∀ ci < l.rank.nrCis, typeByte (data ci) = 0xFF ↔ (l.wire.ci ci).restored.isSome = true)
    (h : l.dummyCommand data a = .ok l') : Saved l l' := by
  unfold Link.dummyCommand Link.commit at h
  cases hcommit : a.commit with
  | failed e reached =>
    rw [hcommit] at h
    cases h
  | done =>
    rw [hcommit] at h
    simp only [bind, Except.bind] at h
    split at h
    · cases h
    · next polled hpoll =>
      obtain ⟨k, data₂, seen⟩ := polled
      cases h
      obtain ⟨hpolled, -⟩ := pollUntil_ok _ _ _ hpoll
      have hreceived : ∀ ci < l.rank.nrCis, ∀ word, word = (if typeByte (data ci) = 0xFF then ciIdentity else ciEmpty) →
          ((l.wire.ci ci).receive word).restored = none ∧
            ((l.wire.ci ci).receive word).color = ((l.wire.ci ci).color != (l.wire.ci ci).restored.isSome) := by
        intro ci hci word hword
        rw [hword]
        by_cases hnop : typeByte (data ci) = 0xFF
        · rw [if_pos hnop, receive_identity, (hdata ci hci).mp hnop]
          exact ⟨rfl, by simp⟩
        · rw [if_neg hnop]
          have hnone : (l.wire.ci ci).restored.isSome = false := Bool.eq_false_iff.mpr fun hsome => hnop ((hdata ci hci).mpr hsome)
          rw [hnone]
          refine ⟨Option.not_isSome_iff_eq_none.mp (by simp [Ci.receive, hnone]), by simp [Ci.receive]⟩
      refine ⟨rfl, fun ci => ?_, fun ci hci => (hreceived ci hci _ rfl).2, fun ci hci => ?_⟩
      · show ((l.wire.ci ci).receive (if typeByte (data ci) = 0xFF then ciIdentity else ciEmpty)).decoder = _
        rw [Wire.receive_decoder]
        split
        · exact Exchange.execute_identity _
        · exact Decoder.execute_empty
      · let sent : Link :=
          { l with wire := { l.wire with
              ci := fun i => (l.wire.ci i).receive (if typeByte (data i) = 0xFF then ciIdentity else ciEmpty) } }
        refine noteColors_bit (l := sent) (p := a.second) hcis (fun ci hci => ?_)
          (fun ci hci => (hreceived ci hci _ rfl).1) hci
        have hcleared := List.all_eq_true.mp hpolled.stable ci (List.mem_range.mpr hci)
        exact (Reading.read_shows hpolled.last (.inr (of_decide_eq_true hcleared))).2

theorem getColor_saved {l l' : Link} (hcis : l.rank.nrCis ≤ 8) {a : ColorAnswers} {results : Nat → BitVec 32}
    (h : l.getColor a = .ok (l', results)) : Saved l l' := by
  unfold Link.getColor at h
  simp only [bind, Except.bind] at h
  split at h
  · cases h
  · next polled hpoll =>
    obtain ⟨k, data₁, needed⟩ := polled
    obtain ⟨hpolled, -⟩ := pollUntil_ok _ _ _ hpoll
    simp only at h
    split at h
    · cases h
    · next data hread =>
      -- the last read shows the results of all, and so does the one after it
      have hfirst : ∀ ci < l.rank.nrCis, a.first.delay ci ≤ k - 1 ∧
          data₁ ci = (l.wire.ci ci).shows (a.first.faults ci) (a.first.result ci) := by
        intro ci hci
        have hshown := of_decide_eq_true (List.all_eq_true.mp hpolled.stable ci (List.mem_range.mpr hci))
        exact Reading.read_shows hpolled.last (hshown.imp_right And.left)
      have hdata : ∀ ci < l.rank.nrCis, data ci = (l.wire.ci ci).shows (a.first.faults ci) (a.first.result ci) :=
        fun ci hci => Reading.read_again hread (hfirst ci hci).1 (Nat.sub_le k 1)
      split at h
      · unfold Except.map at h
        split at h
        · cases h
        · next l₁ hdummy =>
          cases h
          refine dummyCommand_saved hcis (fun ci hci => ?_) hdummy
          rw [hdata ci hci]
          exact typeByte_nop_iff
      · next hnot =>
        cases h
        have hnone : ∀ ci < l.rank.nrCis, (l.wire.ci ci).restored = none := by
          intro ci hci
          by_contra hsome
          refine hnot (hpolled.noted (List.any_eq_true.mpr ⟨ci, List.mem_range.mpr hci, ?_⟩))
          rw [decide_eq_true_eq, (hfirst ci hci).2, typeByte_nop_iff]
          exact Option.isSome_iff_ne_none.mpr hsome
        refine ⟨rfl, fun _ => rfl, fun ci hci => ?_, fun ci hci => noteColors_bit hcis hdata hnone hci⟩
        rw [hnone ci hci]
        show (l.wire.ci ci).color = ((l.wire.ci ci).color != false)
        rw [Bool.bne_false]

/-! ## The calls of the debugger -/

theorem Debugger.calls_keeps : ∀ (calls : List (Op × (Nat → Answer))) {d : Debugger}, d.link.Keeps True Exchange.anyKept →
    (∀ p ∈ calls, p.1.Framed ∧ Delivered p.2) → (d.calls calls).link.Keeps True Exchange.anyKept ∧
      (d.calls calls).link.rank.nrCis = d.link.rank.nrCis ∧ (d.calls calls).debug = d.debug
  | [], d, h, _ => ⟨h, rfl, rfl⟩
  | (op, answers) :: rest, d, h, hcalls => by
    obtain ⟨hframed, hdelivered⟩ := hcalls (op, answers) (List.mem_cons_self ..)
    obtain ⟨hkeeps, hcis⟩ := h.call hframed hdelivered
    obtain ⟨hlater, hcis', hdebug⟩ := calls_keeps rest (d := { d with link := (d.link.call op.program answers).2 }) hkeeps
      fun p hp => hcalls p (List.mem_cons_of_mem _ hp)
    exact ⟨hlater, hcis'.trans hcis, hdebug⟩

/-! ## The restore -/

/-- The targets that are none, and those that have been put `back`, are as expected. -/
structure Back (debug : DebugContext) (back : Nat → Prop) (l : Link) : Prop where
  keeps : l.Keeps True Exchange.anyKept
  targets : ∀ i < l.rank.nrCis, debug.sliceTarget i = .none ∨ back i → (l.wire.ci i).decoder.target = debug.sliceTarget i

/-- The same as a relation to keep. -/
def targetsBack (target : Nat → SliceTarget) (back : Nat → Prop) : Kept :=
  fun i _ _ T _ => target i = .none ∨ back i → T = target i

/-- The link with nothing left in the command buffer. -/
def Link.emptied (l : Link) : Link := { l with rank := { l.rank with cmds := fun _ => ⟨ciEmpty, false⟩ } }

theorem Link.Keeps.emptied {l : Link} {K L : Kept} (h : l.Keeps True K)
    (hkept : ∀ i < l.rank.nrCis, ∀ t g, L i t g (l.wire.ci i).decoder.target (l.wire.ci i).decoder.group) :
    l.emptied.Keeps True L := by
  refine ⟨h.nrCis_le, h.color, fun i hi => ⟨(h.cis i hi).struct, hkept i hi _ _, ?_, ?_, (by decide : isNop ciEmpty = false)⟩⟩
  · show ((l.wire.ci i).decoder.execute ciEmpty).structReg = (l.wire.ci i).decoder.structReg
    rw [Decoder.execute_empty]
  · show L i _ _ ((l.wire.ci i).decoder.execute ciEmpty).target ((l.wire.ci i).decoder.execute ciEmpty).group
    rw [Decoder.execute_empty]
    exact hkept i hi _ _

/-- A structure and a frame do not depend on what was left in the buffer. -/
theorem execFrame_forgets (r : CmdRank) (packet : Packet) (mask : Mask) (struct frame : Word) :
    (execFrame mask struct frame).run { r with cmds := packet } = (execFrame mask struct frame).run r := by
  have hrun : ∀ r : CmdRank, (execFrame mask struct frame).run r =
      if r.mustWriteStructure mask struct = true then
        (do prepareAndExec mask struct; prepareAndExec mask frame).run (r.setStructure mask struct)
      else (prepareAndExec mask frame).run (r.setStructure mask struct) := by
    intro r
    show (do execWriteStructure mask struct; prepareAndExec mask frame : CmdM PUnit).run r = _
    rw [EStateM.run_bind]
    by_cases hmust : r.mustWriteStructure mask struct = true
    · have hwrite : (execWriteStructure mask struct).run r = (prepareAndExec mask struct).run (r.setStructure mask struct) := by
        show (if r.mustWriteStructure mask struct = true then prepareAndExec mask struct else pure ⟨⟩ : CmdM PUnit).run _ = _
        rw [if_pos hmust]
      rw [hwrite, if_pos hmust, EStateM.run_bind]
    · have hwrite : (execWriteStructure mask struct).run r = .ok ⟨⟩ (r.setStructure mask struct) := by
        show (if r.mustWriteStructure mask struct = true then prepareAndExec mask struct else pure ⟨⟩ : CmdM PUnit).run _ = _
        rw [if_neg hmust]
        rfl
      rw [hwrite, if_neg hmust]
  rw [hrun, hrun]
  rfl

theorem selectUncached_forgets (l : Link) (target : SliceTarget) (mask : Mask) (answers : Nat → Answer) :
    l.emptied.call (selectUncached target mask) answers = l.call (selectUncached target mask) answers := by
  have hrun : (selectUncached target mask).run (l.emptied.rank.begin fun k => (answers k).outcome) =
      (selectUncached target mask).run (l.rank.begin fun k => (answers k).outcome) :=
    execFrame_forgets ((l.rank.begin fun k => (answers k).outcome).setTargets (fun _ => some target) mask) _ mask _ _
  unfold Link.call
  rw [hrun]
  rfl

theorem succeeded_ok {r : Except CmdError Unit × Link} {l : Link} (h : succeeded r = .ok l) : r = (.ok (), l) := by
  obtain ⟨_ | _, l'⟩ := r
  · cases h
  · cases h
    rfl

section Restore

variable {l l' : Link} {debug : DebugContext} {back : Nat → Prop}

theorem restoreTarget_back {selects : Nat → Nat → Answer} {ci : Nat} (htyped : ∀ ci, (debug.sliceTarget ci).Typed)
    (h : Back debug back l) (hok : debug.restoreTarget selects l ci = .ok l') :
    Back debug (fun i => back i ∨ i = ci) l' ∧ l'.rank.nrCis = l.rank.nrCis := by
  unfold DebugContext.restoreTarget at hok
  split at hok
  · next hnone =>
    cases hok
    refine ⟨⟨h.keeps, fun i hi hback => ?_⟩, rfl⟩
    obtain hno | hback | heq := hback
    · exact h.targets i hi (.inl hno)
    · exact h.targets i hi (.inr hback)
    · exact h.targets i hi (.inl (heq ▸ hnone))
  · next target hne =>
    have hbit : ∀ i < l.rank.nrCis, (dpuMaskOne ci).getLsbD i = decide (i = ci) := by
      intro i hi
      have h8 : i < 8 := Nat.lt_of_lt_of_le hi h.keeps.nrCis_le
      rw [dpuMaskOne_bit]
      simp only [h8, true_and]
    have hempty : l.emptied.Keeps True (targetsBack debug.sliceTarget back) :=
      h.keeps.emptied fun i hi _ _ hback => h.targets i hi hback
    have hstart : (l.emptied.started True (selects ci) h.keeps.nrCis_le).Inv (targetsBack debug.sliceTarget back)
      (l.emptied.rank.begin fun k => (selects ci k).outcome) := hempty.inv
    have hin : ∀ i < l.rank.nrCis, (dpuMaskOne ci).getLsbD i = true → ∀ t g T G,
        targetsBack debug.sliceTarget back i t g T G →
          targetsBack debug.sliceTarget (fun i => back i ∨ i = ci) i t g (debug.sliceTarget ci) G := by
      intro i hi hmask t g T G _ _
      have heq : i = ci := of_decide_eq_true ((hbit i hi).symm.trans hmask)
      rw [heq]
    have hout : ∀ i < l.rank.nrCis, (dpuMaskOne ci).getLsbD i = false → ∀ t g T G,
        targetsBack debug.sliceTarget back i t g T G →
          targetsBack debug.sliceTarget (fun i => back i ∨ i = ci) i t g T G := by
      intro i hi hmask t g T G hkept hback
      have hother : i ≠ ci := of_decide_eq_false ((hbit i hi).symm.trans hmask)
      obtain hno | hback | heq := hback
      · exact hkept (.inl hno)
      · exact hkept (.inr hback)
      · exact absurd heq hother
    have hselect := Exchange.selectUncached_inv hstart (htyped ci) hne (fun _ _ _ _ _ hkept => hkept) hin hout
    have hcall := (selectUncached_forgets l (debug.sliceTarget ci) (dpuMaskOne ci) (selects ci)).trans (succeeded_ok hok)
    obtain ⟨s, hs, hinv⟩ := Link.call_ok (hselect.weaken (fun _ h => h) (fun _ _ h => h) fun _ _ _ => trivial) hcall
    obtain ⟨hkeeps, hcis⟩ := hinv.keeps
    rw [← hs] at hkeeps hcis
    exact ⟨⟨hkeeps.mono fun _ _ _ _ _ _ _ => trivial, fun i hi => (hkeeps.cis i hi).kept⟩, hcis⟩

theorem restoreTargets_back {selects : Nat → Nat → Answer} (htyped : ∀ ci, (debug.sliceTarget ci).Typed) :
    ∀ (cis : List Nat) {l l' : Link} {back : Nat → Prop}, Back debug back l →
      cis.foldlM (debug.restoreTarget selects) l = .ok l' →
        Back debug (fun i => back i ∨ i ∈ cis) l' ∧ l'.rank.nrCis = l.rank.nrCis
  | [], l, l', back, h, hok => by
    cases hok
    refine ⟨⟨h.keeps, fun i hi hback => h.targets i hi (hback.imp_right fun hback => ?_)⟩, rfl⟩
    simpa using hback
  | ci :: cis, l, l', back, h, hok => by
    rw [List.foldlM_cons] at hok
    cases hfirst : debug.restoreTarget selects l ci with
    | error e =>
      rw [hfirst] at hok
      cases hok
    | ok l₁ =>
      rw [hfirst] at hok
      obtain ⟨hone, hcis₁⟩ := restoreTarget_back htyped h hfirst
      obtain ⟨hrest, hcis'⟩ := restoreTargets_back htyped cis hone hok
      refine ⟨⟨hrest.keeps, fun i hi hback => hrest.targets i hi (hback.imp_right fun hback => ?_)⟩, hcis'.trans hcis₁⟩
      simpa [or_assoc] using hback

/-- A command without a structure is one packet. -/
theorem prepareAndExec_logged {r : CmdRank} {answers : Nat → Answer} (houtcome : r.outcome = fun k => (answers k).outcome)
    (mask : Mask) (word : Word) :
    Triple (fun s => s = r) (prepareAndExec mask word)
      (fun _ s => s = { r with cmds := prepared mask word }.logged (prepared mask word) ∧ answers r.clock = .done)
      fun _ _ => True := by
  refine triple_bind (R := fun _ s => s = { r with cmds := prepared mask word }) (triple_modify fun s hs => ?_) fun _ => ?_
  · rw [hs]
  · refine triple_get fun s hs => ?_
    subst hs
    have hsame : ({ r with cmds := prepared mask word } : CmdRank).outcome = fun k => (answers k).outcome := houtcome
    exact (execCmd_ends hsame false (prepared mask word)).weaken (fun _ h => h) (fun _ _ h => h) fun _ _ _ => trivial

/-- Every color is the opposite of the one expected. -/
theorem restoreIdentity_keeps {identity : Nat → Answer} (h : l.Keeps True Exchange.anyKept)
    (hok : debug.restoreIdentity identity l = .ok l') :
    l'.Keeps True Exchange.anyKept ∧ l'.rank.nrCis = l.rank.nrCis ∧
      ∀ ci < l.rank.nrCis, (l'.wire.ci ci).decoder = (l.wire.ci ci).decoder ∧
        l'.wire.color.getLsbD ci = !debug.debugColor.getLsbD ci := by
  have hmask : ∀ ci < l.rank.nrCis,
      (debug.identityMask l).getLsbD ci = (l.wire.color.getLsbD ci == debug.debugColor.getLsbD ci) := by
    intro ci hci
    have h8 : ci < 8 ∧ ci < l.rank.nrCis := ⟨Nat.lt_of_lt_of_le hci h.nrCis_le, hci⟩
    rw [DebugContext.identityMask, gatherMask_bit, decide_eq_true h8, Bool.true_and]
  unfold DebugContext.restoreIdentity at hok
  split at hok
  · have hcall := succeeded_ok hok
    have hstart : (l.started True identity h.nrCis_le).Inv Exchange.anyKept (l.rank.begin fun k => (identity k).outcome) := h.inv
    obtain ⟨s, hs, hinv⟩ := Link.call_ok
      ((Exchange.identity_keeps.pre fun s hs => hs ▸ hstart).weaken (fun _ h => h) (fun _ _ h => h) fun _ _ _ => trivial) hcall
    obtain ⟨s', hs', hlogged, hdone⟩ := Link.call_ok (prepareAndExec_logged rfl _ _) hcall
    obtain ⟨hkeeps, hcis⟩ := hinv.keeps
    rw [← hs] at hkeeps hcis
    refine ⟨hkeeps, hcis, fun ci hci => ?_⟩
    have hpacket : decide ((prepared (debug.identityMask l) ciIdentity ci).word ≠ ciEmpty) =
        (debug.identityMask l).getLsbD ci := by
      unfold prepared
      cases (debug.identityMask l).getLsbD ci with
      | true => decide
      | false => decide
    have hcolor : l'.wire.color = l.wire.color ^^^ Wire.commanded l.rank.nrCis (prepared (debug.identityMask l) ciIdentity) := by
      rw [hs', hlogged]
      rfl
    have hdecoder : (l'.wire.ci ci).decoder =
        (l.wire.ci ci).decoder.execute (prepared (debug.identityMask l) ciIdentity ci).word := by
      have hreach : (identity 0).reaches ci = true := by
        rw [show identity 0 = .done from hdone]
        rfl
      rw [hs', hlogged]
      exact Wire.exec_decoder hreach
    refine ⟨?_, ?_⟩
    · rw [hdecoder]
      unfold prepared
      split
      · exact Exchange.execute_identity _
      · exact Decoder.execute_empty
    rw [hcolor, BitVec.getLsbD_xor, Wire.commanded_bit h.nrCis_le hci, hpacket, hmask ci hci]
    cases l.wire.color.getLsbD ci <;> cases debug.debugColor.getLsbD ci <;> rfl
  · next hzero =>
    cases hok
    refine ⟨h, rfl, fun ci hci => ⟨rfl, ?_⟩⟩
    have hbit := hmask ci hci
    rw [not_not] at hzero
    rw [hzero] at hbit
    have hdiffer : (l.wire.color.getLsbD ci == debug.debugColor.getLsbD ci) = false := by
      rw [← hbit]
      simp
    cases hl : l.wire.color.getLsbD ci <;> cases hd : debug.debugColor.getLsbD ci <;> simp [hl, hd] at hdiffer ⊢

/-- What is behind the replay of the structures. -/
theorem restoreStructures_ok {answer : Answer} (hok : debug.restoreStructures answer l = .ok l') :
    l'.rank.nrCis = l.rank.nrCis ∧ l'.wire.color = l.wire.color ∧
      ∀ ci < l.rank.nrCis, l'.wire.ci ci = (l.wire.ci ci).receive (debug.structureValue ci) := by
  unfold DebugContext.restoreStructures Link.commit at hok
  split at hok
  · cases hok
  · cases hok
    refine ⟨rfl, rfl, fun ci hci => ?_⟩
    show (l.wire.ci ci).receive (if ci < l.rank.nrCis then debug.structureValue ci else ciEmpty) = _
    rw [if_pos hci]

theorem isNop_restored (w : Word) : isNop (ciNop ||| w) = true := by
  rw [isNop, decide_eq_true_eq]
  apply BitVec.eq_of_getLsbD_eq
  intro i _
  rw [BitVec.getLsbD_and, BitVec.getLsbD_or]
  cases ciNop.getLsbD i <;> simp

theorem restoreResults_ok {answer : Answer} (hok : debug.restoreResults answer l = .ok l') :
    l'.rank = l.rank ∧ l'.wire.color = l.wire.color ^^^ dpuMaskAll l.rank.nrCis ∧
      ∀ ci < l.rank.nrCis, (l'.wire.ci ci).decoder = (l.wire.ci ci).decoder ∧ (l'.wire.ci ci).color = (l.wire.ci ci).color := by
  unfold DebugContext.restoreResults Link.commit at hok
  split at hok
  · cases hok
  · cases hok
    refine ⟨rfl, rfl, fun ci hci => ?_⟩
    show ((l.wire.ci ci).receive (if ci < l.rank.nrCis then ciNop ||| (debug.debugResult ci).setWidth 64 else ciEmpty)).decoder
        = _ ∧ ((l.wire.ci ci).receive (if ci < l.rank.nrCis then _ else ciEmpty)).color = _
    rw [if_pos hci, Wire.receive_decoder, Decoder.execute_nop (isNop_restored _)]
    refine ⟨rfl, ?_⟩
    unfold Ci.receive
    split
    · rfl
    · rw [if_pos (isNop_restored _)]

end Restore

/-! ## Sessions -/

/-- The interfaces are as the program had noted them, and the debugger has their colors. -/
def Transparent (host : Host) (nrCis : Nat) (d : Debugger) : Prop :=
  ∀ ci < nrCis, (d.link.wire.ci ci).decoder.target = host.sliceTarget ci ∧
    (d.link.wire.ci ci).decoder.structReg = host.structureValue ci ∧
    (d.link.wire.ci ci).color = host.color.getLsbD ci ∧
    d.link.wire.color.getLsbD ci = (d.link.wire.ci ci).color

/-- What the debugger finds. -/
structure Restorable (host : Host) (d : Debugger) : Prop where
  /-- an interface that shows a NOP changes its color at the attach -/
  color : ∀ ci < d.link.rank.nrCis,
    host.color.getLsbD ci = ((d.link.wire.ci ci).color != (d.link.wire.ci ci).restored.isSome)
  /-- a structure has been written -/
  structures : ∀ ci < d.link.rank.nrCis, host.structureValue ci ≠ ciEmpty
  /-- the debugger has noted nothing, or what the interface holds -/
  noted : ∀ ci < d.link.rank.nrCis, (d.link.rank.sliceInfo ci).structureValue = ciEmpty ∨
    (d.link.rank.sliceInfo ci).structureValue = (d.link.wire.ci ci).decoder.structReg
  /-- its buffer holds no other structure, and no NOP -/
  buffer : ∀ ci < d.link.rank.nrCis, isNop (d.link.rank.cmds ci).word = false ∧
    ((d.link.wire.ci ci).decoder.execute (d.link.rank.cmds ci).word).structReg = (d.link.wire.ci ci).decoder.structReg

/-- The copies of the debugger are right after the attach. -/
theorem attach_keeps {host : Host} {d d₁ : Debugger} {a : ColorAnswers} (hcis : d.link.rank.nrCis ≤ 8)
    (hfound : Restorable host d) (h : d.attach host a = .ok d₁) :
    d₁.link.Keeps True Exchange.anyKept ∧ Saved d.link d₁.link ∧ d₁.debug.debugColor = d₁.link.wire.color ∧
      d₁.debug.structureValue = host.structureValue ∧ d₁.debug.sliceTarget = host.sliceTarget := by
  unfold Debugger.attach Except.map at h
  split at h
  · cases h
  · next saved hcolor =>
    obtain ⟨l, results⟩ := saved
    cases h
    have hsaved := getColor_saved hcis hcolor
    have hrank : l.rank.nrCis = d.link.rank.nrCis := by rw [hsaved.rank]
    refine ⟨⟨hrank ▸ hcis, fun ci hci => hsaved.noted ci (hrank ▸ hci), fun ci hci => ?_⟩, hsaved, rfl, rfl, rfl⟩
    rw [hrank] at hci
    obtain ⟨hnop, hagain⟩ := hfound.buffer ci hci
    rw [hsaved.rank, hsaved.decoder]
    refine ⟨?_, trivial, hagain, trivial, hnop⟩
    exact (hfound.noted ci hci).elim (fun hempty => .inr ⟨trivial, hempty⟩) .inl

theorem restore_transparent {host : Host} {d d' : Debugger} {a : RestoreAnswers} (hkeeps : d.link.Keeps True Exchange.anyKept)
    (hstructures : d.debug.structureValue = host.structureValue) (htargets : d.debug.sliceTarget = host.sliceTarget)
    (hcolor : ∀ ci < d.link.rank.nrCis, d.debug.debugColor.getLsbD ci = host.color.getLsbD ci)
    (hwritten : ∀ ci < d.link.rank.nrCis, host.structureValue ci ≠ ciEmpty)
    (hnone : ∀ ci < d.link.rank.nrCis, host.sliceTarget ci = .none → (d.link.wire.ci ci).decoder.target = .none)
    (hok : d.restoreContextRank a = .ok d') : Transparent host d.link.rank.nrCis d' := by
  have htyped : ∀ ci, (d.debug.sliceTarget ci).Typed := fun ci => htargets ▸ host.typed ci
  have hback : Back d.debug (fun _ => False) d.link := by
    refine ⟨hkeeps, fun ci hci hor => ?_⟩
    rw [htargets] at hor ⊢
    obtain hno | hfalse := hor
    · exact (hnone ci hci hno).trans hno.symm
    · exact hfalse.elim
  unfold Debugger.restoreContextRank at hok
  simp only [bind, Except.bind] at hok
  -- each step of the restore has succeeded
  split at hok
  · cases hok
  split at hok
  · cases hok
  next l₁ hselects =>
  obtain ⟨hback₁, hcis₁⟩ := restoreTargets_back htyped _ hback hselects
  split at hok
  · cases hok
  next l₂ hidentity =>
  obtain ⟨hkeeps₂, hcis₂, hopposite⟩ := restoreIdentity_keeps hback₁.keeps hidentity
  split at hok
  · cases hok
  next l₃ hreplay =>
  obtain ⟨hcis₃, hcolor₃, hreceived⟩ := restoreStructures_ok hreplay
  split at hok
  · cases hok
  split at hok
  · cases hok
  next l₄ hresults =>
  obtain ⟨-, hcolor₄, hkept⟩ := restoreResults_ok hresults
  cases hok
  intro ci hci
  have h₁ : ci < l₁.rank.nrCis := hcis₁ ▸ hci
  have h₂ : ci < l₂.rank.nrCis := hcis₂ ▸ h₁
  have h₃ : ci < l₃.rank.nrCis := hcis₃ ▸ h₂
  obtain ⟨hdecoder₂, hcolor₂⟩ := hopposite ci h₁
  obtain ⟨hdecoder₄, hcolorCi⟩ := hkept ci h₃
  have hvalue : d.debug.structureValue ci = host.structureValue ci := by rw [hstructures]
  have hstruct : isStruct (host.structureValue ci) = true := (host.structs ci).resolve_left (hwritten ci hci)
  have hci₃ : l₃.wire.ci ci = (l₂.wire.ci ci).receive (host.structureValue ci) := by rw [hreceived ci h₂, hvalue]
  have hdecoder₃ : (l₃.wire.ci ci).decoder = { (l₁.wire.ci ci).decoder with structReg := host.structureValue ci } := by
    rw [hci₃, Wire.receive_decoder, Decoder.execute_struct hstruct, hdecoder₂]
  have htoggled : (l₃.wire.ci ci).color = !(l₂.wire.ci ci).color := by
    rw [hci₃]
    unfold Ci.receive
    rw [if_neg (hwritten ci hci), if_neg (by rw [isNop_of_isStruct hstruct]; decide)]
  have hexpected : (l₄.wire.ci ci).color = host.color.getLsbD ci := by
    rw [hcolorCi, htoggled, ← hkeeps₂.color ci h₂, hcolor₂, Bool.not_not]
    exact hcolor ci hci
  refine ⟨?_, ?_, hexpected, ?_⟩
  · rw [hdecoder₄, hdecoder₃, ← htargets]
    exact hback₁.targets ci h₁ (.inr (.inr (List.mem_range.mpr hci)))
  · rw [hdecoder₄, hdecoder₃]
  · have hall : (dpuMaskAll l₃.rank.nrCis).getLsbD ci = true := by
      rw [dpuMaskAll_bit, decide_eq_true_eq]
      exact ⟨Nat.lt_of_lt_of_le hci hkeeps.nrCis_le, h₃⟩
    rw [hcolor₄, BitVec.getLsbD_xor, hall, hcolor₃, hcolor₂, hexpected, Bool.xor_true, Bool.not_not]
    exact hcolor ci hci

/-- A debugger whose commands arrive, on a program that has written a structure to every interface, leaves no trace.
An interface on which the program has noted no target must have none selected when the debugger leaves. -/
theorem debug_transparent (host : Host) (d d₁ d₂ : Debugger) (a : ColorAnswers) (calls : List (Op × (Nat → Answer)))
    (b : RestoreAnswers) (hcis : d.link.rank.nrCis ≤ 8) (hfound : Restorable host d) (hattach : d.attach host a = .ok d₁)
    (hcalls : ∀ p ∈ calls, p.1.Framed ∧ Delivered p.2)
    (hnone : ∀ ci < d.link.rank.nrCis, host.sliceTarget ci = .none →
      ((d₁.calls calls).link.wire.ci ci).decoder.target = .none)
    (hrestore : (d₁.calls calls).restoreContextRank b = .ok d₂) : Transparent host d.link.rank.nrCis d₂ := by
  obtain ⟨hkeeps, hsaved, hcolor, hstructures, htargets⟩ := attach_keeps hcis hfound hattach
  have hcis₁ : d₁.link.rank.nrCis = d.link.rank.nrCis := by rw [hsaved.rank]
  obtain ⟨hlater, hcis₂, hdebug⟩ := Debugger.calls_keeps calls hkeeps hcalls
  have hsame : (d₁.calls calls).link.rank.nrCis = d.link.rank.nrCis := hcis₂.trans hcis₁
  rw [← hsame]
  refine restore_transparent hlater (hdebug ▸ hstructures) (hdebug ▸ htargets) (fun ci hci => ?_) (fun ci hci => ?_)
    (fun ci hci => hnone ci (hsame ▸ hci)) hrestore
  · have hci' : ci < d.link.rank.nrCis := hsame ▸ hci
    rw [hdebug, hcolor, hsaved.noted ci hci', hsaved.toggled ci hci', hfound.color ci hci']
  · exact hfound.structures ci (hsame ▸ hci)

/-- A rank of one interface with one DPU, of which nothing is noted. -/
def freshRank : CmdRank where
  nrCis := 1
  nrDpus := 1
  sliceInfo _ := ⟨ciEmpty, .none, 0, fun _ => 0, 1, true⟩
  cmds _ := ⟨ciEmpty, false⟩
  commits := []
  outcome _ := .done
  clock := 0

/-- A debugger that attaches to an interface with the structure register and the target given. -/
def freshDebugger (struct : Word) (target : SliceTarget) : Debugger where
  link := ⟨freshRank, 0, fun _ => ⟨⟨struct, target, fun _ => 0⟩, true, none⟩⟩
  debug := ⟨0, fun _ => 0, fun _ => 0, fun _ => .none⟩

def quickReading : Reading := ⟨fun _ => false, fun _ => 0, fun _ => ⟨0, by decide⟩, fun _ => 0⟩

def quickColors : ColorAnswers := ⟨quickReading, .done, quickReading⟩

def quickRestore : RestoreAnswers := ⟨quickReading, fun _ _ => .done, fun _ => .done, .done, quickReading, .done⟩

/-- A program that has selected all DPUs. -/
def selectingHost : Host where
  color := 1
  structureValue _ := plainStruct
  sliceTarget _ := .all
  structs _ := .inr (by decide)
  typed _ := trivial

/-- The debugger selects a DPU and reads its state. -/
def debuggerCalls : List (Op × (Nat → Answer)) :=
  [(.selectDpu 1 0, fun _ => .done), (.frame 1 .readDpuRun, fun _ => .done)]

theorem debug_transparent_sample : ∃ d₁ d₂, (freshDebugger plainStruct .all).attach selectingHost quickColors = .ok d₁ ∧
    (d₁.calls debuggerCalls).restoreContextRank quickRestore = .ok d₂ ∧ Transparent selectingHost 1 d₂ := by
  refine ⟨_, _, rfl, rfl, ?_⟩
  refine debug_transparent selectingHost (freshDebugger plainStruct .all) _ _ quickColors debuggerCalls quickRestore
    (by decide) ?_ rfl ?_ ?_ rfl
  · constructor
    · intro ci hci
      obtain rfl := Nat.lt_one_iff.mp hci
      rfl
    · exact fun _ _ => (by decide : plainStruct ≠ ciEmpty)
    · exact fun _ _ => .inl rfl
    · exact fun _ _ => ⟨(by decide : isNop ciEmpty = false), congrArg _ Decoder.execute_empty⟩
  · intro p hp
    obtain rfl | rfl := List.mem_pair.mp hp
    · exact ⟨(by decide : 0 < 256), fun _ _ => rfl⟩
    · exact ⟨trivial, fun _ _ => rfl⟩
  · intro _ _ hnone
    cases hnone

/-- A program that has just reset its rank. -/
def resetHost : Host where
  color := 1
  structureValue _ := ciEmpty
  sliceTarget _ := .none
  structs _ := .inl rfl
  typed _ := trivial

/-- A debugger that attaches to it and leaves at once inverts the color. -/
theorem empty_structure_not_transparent : ∃ d₁ d₂, (freshDebugger ciEmpty .none).attach resetHost quickColors = .ok d₁ ∧
    (d₁.calls []).restoreContextRank quickRestore = .ok d₂ ∧
    (d₂.link.wire.ci 0).color ≠ resetHost.color.getLsbD 0 ∧ ¬Transparent resetHost 1 d₂ := by
  refine ⟨_, _, rfl, rfl, by decide, fun h => ?_⟩
  have hcolor := (h 0 (by decide)).2.2.1
  exact absurd hcolor (by decide)

end DpuBackend.Ufi
