import DpuBackend.Vpd.EncodeRuns

/-
  The database, encoded and decoded.

  Behind the bytes of the pairs so far the decoder finds the record of the next
  pair, and adds the pair, whose key is new, at the end of its list. It stops at
  the end of the bytes, or at the byte 0xFF, which is no type. So a database
  comes back if the encoder `Holds` its bytes; what the encoder does otherwise
  is in `encodePairs_cases`.
-/

namespace DpuBackend.Vpd

open DpuBackend.Lib

/-! ## Reachable databases -/

/-- What `dpu_vpd_db_update` is called with. -/
abbrev Update := { pair : StringPair // pair.Short }

/-- The database after some updates of an empty one. -/
def databaseOf (updates : List Update) : Database :=
  updates.foldl (fun db update => vpdSetString db update.val) Database.empty

theorem mem_setPairs {new pair : StringPair} {pairs : List StringPair} (h : pair ∈ setPairs new pairs) :
    pair = new ∨ pair ∈ pairs := by
  induction pairs with
  | nil => exact .inl (List.mem_singleton.1 h)
  | cons first rest ih =>
    rw [setPairs] at h
    split at h
    · rcases List.mem_cons.1 h with h | h
      · exact .inl h
      · exact .inr (List.mem_cons_of_mem _ h)
    · rcases List.mem_cons.1 h with rfl | h
      · exact .inr (List.mem_cons_self ..)
      · exact (ih h).imp_right (List.mem_cons_of_mem _)

theorem databaseOf_short (updates : List Update) : ∀ pair ∈ (databaseOf updates).pairs, pair.Short := by
  unfold databaseOf
  induction updates using List.reverseRecOn with
  | nil => exact nofun
  | append_singleton updates update ih =>
    intro pair hpair
    rw [List.foldl_append] at hpair
    rcases mem_setPairs hpair with rfl | hpair
    · exact update.property
    · exact ih pair hpair

/-- A pair with a new key comes last. -/
theorem setPairs_new {new : StringPair} {pairs : List StringPair} (h : new.key ∉ pairs.map StringPair.key) :
    setPairs new pairs = pairs ++ [new] := by
  induction pairs with
  | nil => rfl
  | cons pair rest ih =>
    rw [List.map_cons, List.mem_cons, not_or] at h
    rw [setPairs, if_neg fun heq => h.1 heq.symm, ih h.2, List.cons_append]

theorem databaseOf_nodup {updates : List Update} (h : (updates.map fun update => update.val.key).Nodup) :
    (databaseOf updates).pairs = updates.map Subtype.val := by
  induction updates using List.reverseRecOn with
  | nil => rfl
  | append_singleton updates update ih =>
    rw [List.map_append, List.nodup_append] at h
    obtain ⟨hnodup, -, hnew⟩ := h
    have hbefore := ih hnodup
    have hpairs : (databaseOf (updates ++ [update])).pairs = setPairs update.val (databaseOf updates).pairs := by
      unfold databaseOf
      rw [List.foldl_append]
      rfl
    rw [hpairs, hbefore, setPairs_new, List.map_append, List.map_singleton]
    rw [List.map_map]
    intro hmem
    exact hnew _ hmem _ (List.mem_singleton_self _) rfl

/-! ## The record of a pair -/

def recordOf (pair : StringPair) : Record where
  type := pair.type
  keyLen := pair.key.bytes.length
  keyCode := (lenCode pair.key.bytes.length).length
  valueLen := pair.value.length
  valueCode := (lenCode pair.value.length).length

theorem next_recordOf (pair : StringPair) (pos : Nat) : (recordOf pair).next pos = pos + (pairBytes pair).length := by
  have hkey := length_fieldBytes pair.key.bytes
  have hvalue := length_fieldBytes pair.value
  rw [length_pairBytes]
  change pos + 1 + (lenCode pair.key.bytes.length).length + pair.key.bytes.length +
    (lenCode pair.value.length).length + pair.value.length = _
  omega

theorem ofCode_code (type : DataType) : DataType.ofCode type.code = some type := by
  cases type <;> rfl

theorem ofBytes_bytes (s : CString) : CString.ofBytes s.bytes = s := by
  obtain ⟨bytes, hnul⟩ := s
  unfold CString.ofBytes
  congr 1
  rw [List.takeWhile_eq_self_iff]
  intro b hb
  rw [bne_iff_ne]
  rintro rfl
  exact hnul hb

/-- The length in front of data. -/
theorem declared_of_drop {buf : Buffer} {pos : Nat} {data rest : List UInt8}
    (h : buf.bytes.drop pos = fieldBytes data ++ rest) :
    buf.declared pos = some (data.length, (lenCode data.length).length) := by
  rw [Buffer.declared, h, fieldBytes, List.append_assoc, lenCode, Base128.read_groups, Base128.length_marked]

theorem drop_field {data rest : List UInt8} :
    (fieldBytes data ++ rest).drop (lenCode data.length).length = data ++ rest := by
  rw [fieldBytes, List.append_assoc, List.drop_left]

variable {buf : Buffer} {pos : Nat} {pair : StringPair} {rest : List UInt8}

theorem drop_key (h : buf.bytes.drop pos = pairBytes pair ++ rest) :
    buf.bytes.drop (pos + 1) = fieldBytes pair.key.bytes ++ (fieldBytes pair.value ++ rest) := by
  rw [← List.drop_drop, h, pairBytes, List.cons_append, List.drop_succ_cons, List.drop_zero, List.append_assoc]

theorem drop_value (h : buf.bytes.drop pos = pairBytes pair ++ rest) :
    buf.bytes.drop ((recordOf pair).valueAt pos) = fieldBytes pair.value ++ rest := by
  have hplace : (recordOf pair).valueAt pos = pos + 1 + (fieldBytes pair.key.bytes).length := by
    rw [length_fieldBytes]
    exact Nat.add_assoc ..
  rw [hplace, ← List.drop_drop, drop_key h, List.drop_left]

theorem hasRecord_of_drop (h : buf.bytes.drop pos = pairBytes pair ++ rest) : buf.HasRecord pos (recordOf pair) where
  type := by
    have hfirst : buf.bytes[pos]? = some pair.type.code := by
      rw [← Nat.add_zero pos, ← List.getElem?_drop, h]
      rfl
    rw [Buffer.typeAt, hfirst]
    exact ofCode_code pair.type
  key := declared_of_drop (drop_key h)
  value := declared_of_drop (drop_value h)
  fits := by
    have hlength := congrArg List.length h
    rw [List.length_drop, List.length_append] at hlength
    have hpos : 0 < (pairBytes pair).length := List.length_pos_of_ne_nil (List.cons_ne_nil _ _)
    rw [next_recordOf]
    omega

theorem pairOf_of_drop (h : buf.bytes.drop pos = pairBytes pair ++ rest) : buf.pairOf pos (recordOf pair) = pair := by
  have hkey : (buf.bytes.drop (pos + 1 + (recordOf pair).keyCode)).take (recordOf pair).keyLen = pair.key.bytes := by
    rw [← List.drop_drop, drop_key h]
    exact (congrArg _ drop_field).trans List.take_left
  have hvalue : (buf.bytes.drop ((recordOf pair).valueAt pos + (recordOf pair).valueCode)).take (recordOf pair).valueLen =
      pair.value := by
    rw [← List.drop_drop, drop_value h]
    exact (congrArg _ drop_field).trans List.take_left
  rw [Buffer.pairOf, hkey, hvalue, ofBytes_bytes]
  rfl

/-! ## Decoding what was encoded -/

/-- The end of the bytes, or the byte that fills them up to an even number. -/
theorem round_end {c : Cursor} {tail : List UInt8} (hc : c.consumed = pos) (hpos : pos ≤ buf.bytes.length)
    (h : buf.bytes.drop pos = tail) (htail : tail = [] ∨ tail = [0xFF]) :
    ∃ e, vpdDecodeString buf c = some (c, .error e) := by
  rcases htail with rfl | rfl
  · have hend := List.drop_eq_nil_iff.1 h
    rw [vpdDecodeString, hc, if_pos (by unfold Buffer.maxLen; omega)]
    exact ⟨_, rfl⟩
  · have hlt : pos < buf.bytes.length := by
      by_contra hge
      rw [List.drop_eq_nil_of_le (by omega)] at h
      cases h
    have hnone : buf.typeAt pos = none := by
      have hfirst : buf.bytes[pos]? = some 0xFF := by
        rw [← Nat.add_zero pos, ← List.getElem?_drop, h]
        rfl
      rw [Buffer.typeAt, hfirst]
      rfl
    rw [vpdDecodeString_eq hc hlt, hnone]
    exact ⟨_, rfl⟩

theorem decodeLoop_encoded {pairs : List StringPair} {tail : List UInt8} (htail : tail = [] ∨ tail = [0xFF])
    (h : buf.bytes.drop pos = encoded pairs ++ tail) (hpos : pos ≤ buf.bytes.length) {s : Decoding}
    (hc : s.cursor.consumed = pos) (hrising : s.cursor.Rising)
    (hnodup : ((s.db.pairs ++ pairs).map StringPair.key).Nodup) :
    ∃ s', decodeLoop buf (pairs.length + 1) s = some s' ∧ s'.db.pairs = s.db.pairs ++ pairs := by
  induction pairs generalizing pos s with
  | nil =>
    obtain ⟨e, hround⟩ := round_end hc hpos h htail
    refine ⟨{ s with cursor := s.cursor }, ?_, (List.append_nil _).symm⟩
    rw [decodeLoop, hround]
    rfl
  | cons pair rest ih =>
    rw [encoded, List.flatMap_cons, List.append_assoc] at h
    have hrecord := hasRecord_of_drop h
    obtain ⟨c, hround, hrising', hnext⟩ := round_record hc hrising hrecord
    have hnew : pair.key ∉ s.db.pairs.map StringPair.key := by
      rw [List.map_append, List.map_cons, List.nodup_append] at hnodup
      exact fun hmem => hnodup.2.2 _ hmem _ (List.mem_cons_self ..) rfl
    have hadded : (vpdSetString s.db pair).pairs = s.db.pairs ++ [pair] := setPairs_new hnew
    have hplace := next_recordOf pair pos
    have hrest : buf.bytes.drop ((recordOf pair).next pos) = encoded rest ++ tail := by
      rw [hplace, ← List.drop_drop, h, List.drop_left, encoded]
    obtain ⟨s', hrun, hpairs⟩ := ih (s := ⟨c, (s.cursor.consumed, (recordOf pair).handed pos) :: s.handed,
      vpdSetString s.db pair⟩) hrest hrecord.fits hnext hrising' (by
        change (((vpdSetString s.db pair).pairs ++ rest).map StringPair.key).Nodup
        rwa [hadded, List.append_assoc])
    refine ⟨s', ?_, ?_⟩
    · rw [List.length_cons, decodeLoop, hround, Option.bind_some]
      dsimp only
      rw [vpdDecodeCb_record hrecord, Option.bind_some, pairOf_of_drop h]
      exact hrun
    · rw [hpairs]
      change (vpdSetString s.db pair).pairs ++ rest = _
      rw [hadded, List.append_assoc]
      rfl

/-! ## The round trip -/

/-- The bytes that were generated. -/
def Output.contents (o : Output) : List UInt8 := (List.range o.generated.toNat).map fun i : Nat => o.mem i

/-- Whenever the encoder succeeds it has stayed in its buffer, and its bytes, with or without the byte that
fills them up, are decoded to the same database. -/
def RoundTrips (db : Database) (max : Int) : Prop :=
  ∀ mem o, vpdEncodeContainer db max mem = .ok ⟨⟩ o →
    o.Inside max ∧ ∀ buf : Buffer, buf.bytes = o.contents ∨ buf.bytes = o.contents ++ [0xFF] →
      ∃ fuel s, vpdDecodeToContainer buf fuel Database.empty = some s ∧ s.db = db

/-- Whatever it returns, the encoder stays in its buffer. -/
def StaysInside (db : Database) (max : Int) : Prop :=
  ∀ mem o, vpdEncodeContainer db max mem = .ok ⟨⟩ o ∨ (∃ e, vpdEncodeContainer db max mem = .error e o) → o.Inside max

theorem contents_of_holds {max : Int} {o : Output} {bs : List UInt8} (h : o.Holds max bs) : o.contents = bs := by
  have hlength : o.generated.toNat = bs.length := by rw [h.generated, Int.toNat_natCast]
  unfold Output.contents
  rw [hlength]
  apply List.ext_getElem
  · simp
  · intro i hi hi'
    simpa using h.mem i hi'

theorem decodes_encoded {db : Database} {buf : Buffer}
    (h : buf.bytes = encoded db.pairs ∨ buf.bytes = encoded db.pairs ++ [0xFF]) :
    ∃ fuel s, vpdDecodeToContainer buf fuel Database.empty = some s ∧ s.db = db := by
  obtain ⟨tail, htail, hbytes⟩ : ∃ tail, (tail = [] ∨ tail = [0xFF]) ∧ buf.bytes = encoded db.pairs ++ tail := by
    rcases h with h | h
    · exact ⟨[], .inl rfl, by rw [h, List.append_nil]⟩
    · exact ⟨_, .inr rfl, h⟩
  have hdrop : buf.bytes.drop 0 = encoded db.pairs ++ tail := hbytes
  obtain ⟨s, hrun, hpairs⟩ := decodeLoop_encoded htail hdrop (Nat.zero_le _) (s := ⟨⟨0, []⟩, [], Database.empty⟩) rfl
    (safe_start buf Database.empty).rising db.nodup
  refine ⟨_, s, hrun, ?_⟩
  obtain ⟨pairs, hnodup⟩ := db
  obtain ⟨cursor, handed, ⟨pairs', hnodup'⟩⟩ := s
  obtain rfl : pairs' = pairs := hpairs
  rfl

/-- How a run of the encoder ends. -/
theorem vpdEncodeContainer_cases {db : Database} (hshort : ∀ pair ∈ db.pairs, pair.Short) (max : BitVec 32)
    (mem : Int → UInt8) :
    (∃ o, vpdEncodeContainer db max.toInt mem = .ok ⟨⟩ o ∧ o.contents = encoded db.pairs ∧ o.Inside max.toInt ∧
      ∀ f ∈ fields 0 db.pairs, ¬ Crosses max.toInt f.1 f.2) ∨
    (∃ o, vpdEncodeContainer db max.toInt mem = .error .err o ∧
      (o.Inside max.toInt ↔ ∀ f ∈ fields 0 db.pairs, ¬ Crosses max.toInt f.1 f.2) ∧ ¬ LastWraps max.toInt 0 db.pairs) ∨
    ∃ o, vpdEncodeContainer db max.toInt mem = .ok ⟨⟩ o ∧ ¬ o.Inside max.toInt ∧ LastWraps max.toInt 0 db.pairs := by
  have hmax : max.toInt < 2 ^ 31 := BitVec.toInt_lt
  have hstart : Output.Inside max.toInt ⟨mem, 0, 0, []⟩ := nofun
  by_cases hneg : max.toInt < 0
  · have hno : ∀ f ∈ fields 0 db.pairs, ¬ Crosses max.toInt f.1 f.2 := not_crosses_of_past hneg db.pairs
    cases hpairs : db.pairs with
    | nil =>
      refine .inl ⟨⟨mem, 0, 0, []⟩, ?_, rfl, hstart, nofun⟩
      rw [vpdEncodeContainer, hpairs]
      rfl
    | cons pair rest =>
      rw [hpairs] at hno
      refine .inr (.inl ⟨_, ?_, iff_of_true hstart hno, not_lastWraps_of_past hneg _⟩)
      rw [vpdEncodeContainer, hpairs]
      change encodePairs max.toInt (pair :: rest) ⟨mem, 0, 0, []⟩ = _
      rw [encodePairs_cons, vpdEncodeString_apply, if_pos (Int.le_of_lt hneg)]
      rfl
  · have hheld : Output.Holds max.toInt ⟨mem, 0, 0, []⟩ [] := ⟨rfl, rfl, nofun, Int.not_lt.1 hneg, hstart⟩
    rcases encodePairs_cases hmax hshort hheld with ⟨o, hrun, hheld⟩ | h | ⟨o, hrun, hover, hwraps⟩
    · have hfits := hheld.fits
      rw [List.nil_append] at hheld hfits
      exact .inl ⟨o, hrun, contents_of_holds hheld, hheld.inside, not_crosses_of_encoded hmax (by omega)⟩
    · exact .inr (.inl h)
    · exact .inr (.inr ⟨o, hrun, hover.outside, hwraps⟩)

theorem not_lastWraps_of_not_crosses {max : Int} {p : Nat} {pairs : List StringPair}
    (h : ∀ f ∈ fields p pairs, ¬ Crosses max f.1 f.2) : ¬ LastWraps max p pairs := by
  rintro ⟨f, hf, hwraps⟩
  exact h f (List.mem_of_getLast? hf) hwraps.1

theorem roundTrips_iff {db : Database} (hshort : ∀ pair ∈ db.pairs, pair.Short) (max : BitVec 32) :
    RoundTrips db max.toInt ↔ ¬ LastWraps max.toInt 0 db.pairs := by
  constructor
  · intro h hlast
    rcases vpdEncodeContainer_cases hshort max fun _ => 0 with
      ⟨o, -, -, -, hno⟩ | ⟨o, -, -, hno⟩ | ⟨o, hrun, houtside, -⟩
    · exact not_lastWraps_of_not_crosses hno hlast
    · exact hno hlast
    · exact houtside (h _ o hrun).1
  · intro hlast mem o hrun
    rcases vpdEncodeContainer_cases hshort max mem with
      ⟨o', hrun', hcontents, hinside, -⟩ | ⟨o', hrun', -⟩ | ⟨o', -, -, hwraps⟩
    · rw [hrun'] at hrun
      cases hrun
      rw [hcontents]
      exact ⟨hinside, fun buf => decodes_encoded⟩
    · rw [hrun'] at hrun
      cases hrun
    · exact absurd hwraps hlast

theorem staysInside_iff {db : Database} (hshort : ∀ pair ∈ db.pairs, pair.Short) (max : BitVec 32) :
    StaysInside db max.toInt ↔ ∀ f ∈ fields 0 db.pairs, ¬ Crosses max.toInt f.1 f.2 := by
  constructor
  · intro h
    rcases vpdEncodeContainer_cases hshort max fun _ => 0 with
      ⟨o, -, -, -, hno⟩ | ⟨o, hrun, hinside, -⟩ | ⟨o, hrun, houtside, -⟩
    · exact hno
    · exact hinside.1 (h _ o (.inr ⟨_, hrun⟩))
    · exact absurd (h _ o (.inl hrun)) houtside
  · intro hno mem o hrun
    rcases vpdEncodeContainer_cases hshort max mem with
      ⟨o', hrun', -, hinside, -⟩ | ⟨o', hrun', hinside, -⟩ | ⟨o', -, -, hwraps⟩
    · rw [hrun'] at hrun
      rcases hrun with hrun | ⟨e, hrun⟩
      · cases hrun
        exact hinside
      · cases hrun
    · rw [hrun'] at hrun
      rcases hrun with hrun | ⟨e, hrun⟩
      · cases hrun
      · cases hrun
        exact hinside.2 hno
    · exact absurd hwraps (not_lastWraps_of_not_crosses hno)

/-- A database comes back unless its last field wraps, and the encoder stays inside unless a field crosses. -/
theorem database_roundTrips_iff (updates : List Update) (max : BitVec 32) :
    (RoundTrips (databaseOf updates) max.toInt ↔ ¬ LastWraps max.toInt 0 (databaseOf updates).pairs) ∧
      (StaysInside (databaseOf updates) max.toInt ↔
        ∀ f ∈ fields 0 (databaseOf updates).pairs, ¬ Crosses max.toInt f.1 f.2) :=
  ⟨roundTrips_iff (databaseOf_short updates) max, staysInside_iff (databaseOf_short updates) max⟩

/-! ## Two databases that are written over the end -/

/-- Where the last pair's value is. -/
theorem lastWraps_append {max : Int} {p : Nat} (before : List StringPair) (last : StringPair) :
    LastWraps max p (before ++ [last]) ↔
      Wraps max (p + (encoded before).length + 1 + (fieldBytes last.key.bytes).length) last.value := by
  induction before generalizing p with
  | nil => exact lastWraps_singleton
  | cons pair rest ih =>
    have hlength : (encoded (pair :: rest)).length = (pairBytes pair).length + (encoded rest).length :=
      List.length_append ..
    rw [List.cons_append, lastWraps_cons (List.append_ne_nil_of_right_ne_nil _ (List.cons_ne_nil _ _)), ih, hlength,
      Nat.add_assoc p]

/-- The longest value that the length code has room for. -/
def longValue : List UInt8 := List.replicate (2 ^ 28 - 1) 0

theorem length_longValue : longValue.length = 2 ^ 28 - 1 := List.length_replicate ..

def longUpdate (key : UInt8) (hkey : key ≠ 0) : Update :=
  ⟨⟨⟨[key], fun h => hkey (List.mem_singleton.1 h).symm⟩, longValue, .byteArray⟩,
    ⟨by change 1 < 2 ^ 28; omega, by change longValue.length < 2 ^ 28; rw [length_longValue]; omega⟩⟩

/-- Eight entries that are together over the largest `int`. -/
def longUpdates : List Update :=
  [longUpdate 1 (by decide), longUpdate 2 (by decide), longUpdate 3 (by decide), longUpdate 4 (by decide),
    longUpdate 5 (by decide), longUpdate 6 (by decide), longUpdate 7 (by decide), longUpdate 8 (by decide)]

theorem length_longPair (key : UInt8) (hkey : key ≠ 0) :
    2 ^ 28 + 3 ≤ (pairBytes (longUpdate key hkey).val).length ∧
      (pairBytes (longUpdate key hkey).val).length ≤ 2 ^ 28 + 6 := by
  have hkeyField : (fieldBytes (longUpdate key hkey).val.key.bytes).length = 2 := rfl
  have hvalueField := length_fieldBytes (longUpdate key hkey).val.value
  have hvalue : (longUpdate key hkey).val.value.length = 2 ^ 28 - 1 := length_longValue
  have hlow := lenCode_pos (longUpdate key hkey).val.value.length
  have hhigh := lenCode_le (longUpdate key hkey).property.2
  rw [length_pairBytes, hkeyField]
  omega

theorem length_encoded {pairs : List StringPair} {low high : Nat}
    (h : ∀ pair ∈ pairs, low ≤ (pairBytes pair).length ∧ (pairBytes pair).length ≤ high) :
    pairs.length * low ≤ (encoded pairs).length ∧ (encoded pairs).length ≤ pairs.length * high := by
  induction pairs with
  | nil => simp [encoded]
  | cons pair rest ih =>
    have hpair := h pair (List.mem_cons_self ..)
    have hrest := ih fun pair hpair => h pair (List.mem_cons_of_mem _ hpair)
    have hlength : (encoded (pair :: rest)).length = (pairBytes pair).length + (encoded rest).length :=
      List.length_append ..
    rw [hlength, List.length_cons, Nat.succ_mul, Nat.succ_mul]
    omega

theorem longUpdates_lastWraps : LastWraps (2 ^ 31 - 1) 0 (databaseOf longUpdates).pairs := by
  have hpairs : (databaseOf longUpdates).pairs = longUpdates.map Subtype.val := databaseOf_nodup (by decide)
  have hsplit : longUpdates.map Subtype.val =
      (longUpdates.dropLast.map Subtype.val) ++ [(longUpdate 8 (by decide)).val] := rfl
  have hbefore : ∀ pair ∈ longUpdates.dropLast.map Subtype.val,
      2 ^ 28 + 3 ≤ (pairBytes pair).length ∧ (pairBytes pair).length ≤ 2 ^ 28 + 6 := by
    simp only [longUpdates, List.dropLast, List.map_cons, List.map_nil, List.forall_mem_cons]
    exact ⟨length_longPair _ _, length_longPair _ _, length_longPair _ _, length_longPair _ _, length_longPair _ _,
      length_longPair _ _, length_longPair _ _, nofun⟩
  obtain ⟨hlow, hhigh⟩ := length_encoded hbefore
  have hseven : (longUpdates.dropLast.map Subtype.val).length = 7 := rfl
  have hkeyField : (fieldBytes (longUpdate 8 (by decide)).val.key.bytes).length = 2 := rfl
  have hvalue : (longUpdate 8 (by decide)).val.value.length = 2 ^ 28 - 1 := length_longValue
  have hfield := length_fieldBytes (longUpdate 8 (by decide)).val.value
  have hcodeLow := lenCode_pos (longUpdate 8 (by decide)).val.value.length
  have hcodeHigh := lenCode_le (longUpdate 8 (by decide)).property.2
  have hne : (longUpdate 8 (by decide)).val.value ≠ [] := fun hnil => by
    rw [hnil] at hvalue
    cases hvalue
  rw [hpairs, hsplit, lastWraps_append, Wraps, Crosses, if_neg hne, hkeyField]
  rw [hseven] at hlow hhigh
  omega

def emptyUpdate : Update := ⟨⟨⟨[], nofun⟩, [], .string⟩, by decide, by decide⟩

/-- The encoder accepts eight entries that are too long for a buffer of the largest size, and writes over its
end; the length of an empty key it writes behind a buffer of one byte, before it fails. -/
theorem longUpdates_not_roundTrips :
    ¬ RoundTrips (databaseOf longUpdates) (2 ^ 31 - 1) ∧ ¬ StaysInside (databaseOf [emptyUpdate]) 1 := by
  have hlargest : (BitVec.ofNat 32 (2 ^ 31 - 1)).toInt = 2 ^ 31 - 1 := by decide
  have hone : (1 : BitVec 32).toInt = 1 := by decide
  constructor
  · have hiff := roundTrips_iff (databaseOf_short longUpdates) (BitVec.ofNat 32 (2 ^ 31 - 1))
    rw [hlargest] at hiff
    exact fun h => hiff.1 h longUpdates_lastWraps
  · have hiff := staysInside_iff (databaseOf_short [emptyUpdate]) 1
    rw [hone] at hiff
    exact fun h => hiff.1 h (1, []) (List.mem_cons_self ..) (by decide)

end DpuBackend.Vpd
