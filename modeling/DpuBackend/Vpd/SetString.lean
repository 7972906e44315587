import DpuBackend.Vpd.Container

/-
  `vpd_set_string` where memory can run out.

  The database of `Container` is a list of values. Here a pair is the structure
  the list links: pointers to a key and to a value, each of which may be null or
  point to memory that was freed. A pattern of allocation failures says of every
  `malloc` of a call, in order, whether it finds room. The function frees the
  key and the value of a pair it replaces before it allocates new ones, and
  leaves the pair in the list when that fails. `updatesAtomically_iff` says when
  a call is atomic.

  Correspondence (src/vpd/src/dpu_vpd_container.c ↔ Lean):
    `struct dpu_vpd_string_pair`, `dpu_vpd_database` ↔ `Pair`, `List Pair`
    `vpd_find_string`                                ↔ `vpdFindString`
    `vpd_fill_string_pair`                           ↔ `vpdFillStringPair`
    `vpd_set_string`                                 ↔ `vpdSetString`

  The key and the value that are given lie outside the database. A call that
  reads or frees memory that is not live ends with `none`.
-/

namespace DpuBackend.Vpd.Allocated

/-- What a pointer points to: nothing, freed memory, or memory that holds `a`. -/
inductive Pointer (α : Type) where
  | null
  | freed
  | live (a : α)
  deriving DecidableEq

/-- `struct dpu_vpd_string_pair`; the list is the `next` pointers. -/
structure Pair where
  key : Pointer CString
  value : Pointer (List UInt8)
  valueLen : Nat
  valueType : DataType
  deriving DecidableEq

/-- What is copied behind the pointer `value`: a string gets its final zero. -/
def valueBytes (new : StringPair) : List UInt8 :=
  if new.type = .string then new.value ++ [0] else new.value

/-- A pair with everything live. -/
def Pair.of (pair : StringPair) : Pair where
  key := .live pair.key
  value := .live (valueBytes pair)
  valueLen := pair.value.length
  valueType := pair.type

/-- The position of the first pair that has the key. -/
def vpdFindString (key : CString) : List Pair → Option (Option Nat)
  | [] => some none
  | pair :: rest =>
    match pair.key with
    | .live k => if k = key then some (some 0) else (vpdFindString key rest).map fun found => found.map (· + 1)
    | .null | .freed => none

/-- The pair, and what is returned; `room i` says whether the `i`-th `malloc` finds memory. -/
def vpdFillStringPair (room : Nat → Bool) (pair : Pair) (new : StringPair) : Pair × Except VpdError Unit :=
  if !room 0 then ({ pair with key := .null }, .error .err)
  else if !room 1 then
    -- `err_value` frees the key, and keeps the pointer to it
    ({ pair with key := .freed, value := .null }, .error .err)
  else (Pair.of new, .ok ())

/-- `free`, of memory that is live or of no memory. -/
def free {α : Type} : Pointer α → Option (Pointer α)
  | .null => some .null
  | .live _ => some .freed
  | .freed => none

/-- The branch for a key that exists. -/
def replacePair (room : Nat → Bool) (found : Pair) (new : StringPair) : Option (Pair × Except VpdError Unit) :=
  (free found.key).bind fun key =>
    (free found.value).map fun value =>
      vpdFillStringPair room { found with key := key, value := value, valueLen := 0 } new

/-- The branch for a key that does not: the new pair comes last. -/
def insertPair (room : Nat → Bool) (db : List Pair) (new : StringPair) : List Pair × Except VpdError Unit :=
  if !room 0 then (db, .error .err)
  else
    -- `memset`: two null pointers, no bytes and `VPD_TYPE_STRING`
    match vpdFillStringPair (fun i => room (i + 1)) ⟨.null, .null, 0, .string⟩ new with
    | (_, .error _) => (db, .error .err)
    | (pair, .ok ()) => (db ++ [pair], .ok ())

def vpdSetString (room : Nat → Bool) (db : List Pair) (new : StringPair) :
    Option (List Pair × Except VpdError Unit) :=
  (vpdFindString new.key db).bind fun found =>
    match found with
    | none => some (insertPair room db new)
    | some i =>
      db[i]?.bind fun pair =>
        (replacePair room pair new).map fun (pair, result) => (db.set i pair, result)

/-! ## What a call does -/

theorem vpdFindString_of (key : CString) (pairs : List StringPair) :
    (vpdFindString key (pairs.map Pair.of) = some none ∧ key ∉ pairs.map StringPair.key) ∨
    ∃ before old after, pairs = before ++ old :: after ∧ old.key = key ∧ key ∉ before.map StringPair.key ∧
      vpdFindString key (pairs.map Pair.of) = some (some before.length) := by
  induction pairs with
  | nil => exact .inl ⟨rfl, List.not_mem_nil⟩
  | cons pair rest ih =>
    by_cases hkey : pair.key = key
    · refine .inr ⟨[], pair, rest, rfl, hkey, List.not_mem_nil, ?_⟩
      simp [vpdFindString, Pair.of, hkey]
    · have hstep : vpdFindString key ((pair :: rest).map Pair.of) =
          (vpdFindString key (rest.map Pair.of)).map fun found => found.map (· + 1) := by
        simp [vpdFindString, Pair.of, hkey]
      have hne : key ≠ pair.key := fun h => hkey h.symm
      rw [hstep]
      obtain ⟨hnone, hnot⟩ | ⟨before, old, after, rfl, hold, hbefore, hfound⟩ := ih
      · left
        rw [hnone, List.map_cons, List.mem_cons, not_or]
        exact ⟨rfl, hne, hnot⟩
      · right
        refine ⟨pair :: before, old, after, rfl, hold, ?_, by rw [hfound]; rfl⟩
        simp only [List.map_cons, List.mem_cons, not_or]
        exact ⟨hne, hbefore⟩

theorem vpdFillStringPair_ok {room : Nat → Bool} (h0 : room 0 = true) (h1 : room 1 = true) (pair : Pair)
    (new : StringPair) : vpdFillStringPair room pair new = (Pair.of new, .ok ()) := by
  simp [vpdFillStringPair, h0, h1]

/-- Without room, the key of the pair is not live. -/
theorem vpdFillStringPair_error {room : Nat → Bool} (h : ¬(room 0 = true ∧ room 1 = true)) (pair : Pair)
    (new : StringPair) :
    (vpdFillStringPair room pair new).2 = .error .err ∧
      ∀ k, (vpdFillStringPair room pair new).1.key ≠ .live k := by
  cases h0 : room 0 <;> cases h1 : room 1 <;> simp_all [vpdFillStringPair]

/-- A new pair is appended whole, or the database stays as it is. -/
theorem insertPair_cases (room : Nat → Bool) (db : List Pair) (new : StringPair) :
    insertPair room db new = (db, .error .err) ∨ insertPair room db new = (db ++ [Pair.of new], .ok ()) := by
  unfold insertPair
  cases h0 : room 0 with
  | false => simp
  | true =>
    simp only [Bool.not_true, Bool.false_eq_true, if_false]
    by_cases h : room (0 + 1) = true ∧ room (1 + 1) = true
    · rw [vpdFillStringPair_ok h.1 h.2]
      exact .inr rfl
    · obtain ⟨herr, -⟩ := @vpdFillStringPair_error (fun i => room (i + 1)) h ⟨.null, .null, 0, .string⟩ new
      left
      split
      · rfl
      · next hok =>
        rw [hok] at herr
        cases herr

/-! ## When a call is atomic -/

/-- The pair of that key, and no other, was added or replaced in place. -/
def PutInPlace (new : StringPair) (pairs pairs' : List StringPair) : Prop :=
  (new.key ∉ pairs.map StringPair.key ∧ pairs' = pairs ++ [new]) ∨
    ∃ before old after, pairs = before ++ old :: after ∧ old.key = new.key ∧
      new.key ∉ before.map StringPair.key ∧ pairs' = before ++ new :: after

/-- On success only the pair of that key has changed; on failure the database holds what it held before. -/
def UpdatesAtomically (room : Nat → Bool) (pairs : List StringPair) (new : StringPair) : Prop :=
  ∃ db result, vpdSetString room (pairs.map Pair.of) new = some (db, result) ∧
    (result = .ok () → ∃ pairs', PutInPlace new pairs pairs' ∧ db = pairs'.map Pair.of) ∧
    (∀ e, result = .error e → db = pairs.map Pair.of)

theorem PutInPlace.eq_setPairs {new : StringPair} {pairs pairs' : List StringPair} (h : PutInPlace new pairs pairs') :
    pairs' = setPairs new pairs := by
  obtain ⟨hnot, rfl⟩ | ⟨before, old, after, rfl, hold, hbefore, rfl⟩ := h
  · induction pairs with
    | nil => rfl
    | cons pair rest ih =>
      rw [List.map_cons, List.mem_cons, not_or] at hnot
      rw [setPairs, if_neg fun heq => hnot.1 heq.symm, ← ih hnot.2, List.cons_append]
  · induction before with
    | nil => simp [setPairs, hold]
    | cons pair before ih =>
      rw [List.map_cons, List.mem_cons, not_or] at hbefore
      simp only [List.cons_append, setPairs]
      rw [if_neg fun heq => hbefore.1 heq.symm, ← ih hbefore.2]

/-- A key that is not there is added or nothing happens; one that is there is filled in its place. -/
theorem vpdSetString_of (room : Nat → Bool) (pairs : List StringPair) (new : StringPair) :
    (new.key ∉ pairs.map StringPair.key ∧
      vpdSetString room (pairs.map Pair.of) new = some (insertPair room (pairs.map Pair.of) new)) ∨
    ∃ before old after, pairs = before ++ old :: after ∧ old.key = new.key ∧ new.key ∉ before.map StringPair.key ∧
      vpdSetString room (pairs.map Pair.of) new =
        let filled := vpdFillStringPair room { Pair.of old with key := .freed, value := .freed, valueLen := 0 } new
        some (before.map Pair.of ++ filled.1 :: after.map Pair.of, filled.2) := by
  obtain ⟨hfound, hnot⟩ | ⟨before, old, after, rfl, hold, hbefore, hfound⟩ := vpdFindString_of new.key pairs
  · left
    rw [vpdSetString, hfound]
    exact ⟨hnot, rfl⟩
  · right
    refine ⟨before, old, after, rfl, hold, hbefore, ?_⟩
    have hget : ((before ++ old :: after).map Pair.of)[before.length]? = some (Pair.of old) := by simp
    rw [vpdSetString, hfound]
    simp only [Option.bind_some, hget]
    simp [replacePair, free, Pair.of]

/-- Atomic exactly if the key is new or both allocations for it succeed. -/
theorem updatesAtomically_iff (room : Nat → Bool) (pairs : List StringPair) (new : StringPair) :
    UpdatesAtomically room pairs new ↔
      (new.key ∈ pairs.map StringPair.key → room 0 = true ∧ room 1 = true) := by
  obtain ⟨hnot, hcall⟩ | ⟨before, old, after, rfl, hold, hbefore, hcall⟩ := vpdSetString_of room pairs new
  · refine iff_of_true ?_ fun hin => absurd hin hnot
    obtain hcase | hcase := insertPair_cases room (pairs.map Pair.of) new
    · refine ⟨_, _, hcall.trans (congrArg some hcase), ?_, fun _ _ => rfl⟩
      intro h
      cases h
    · refine ⟨_, _, hcall.trans (congrArg some hcase), fun _ => ⟨pairs ++ [new], .inl ⟨hnot, rfl⟩, by simp⟩, ?_⟩
      intro e h
      cases h
  · have hin : new.key ∈ (before ++ old :: after).map StringPair.key := by simp [hold]
    constructor
    · intro h _
      by_contra hroom
      obtain ⟨db, result, hsome, -, herror⟩ := h
      obtain ⟨herr, hdead⟩ := vpdFillStringPair_error hroom
        { Pair.of old with key := .freed, value := .freed, valueLen := 0 } new
      -- the pair in the list has a key that is not live, so it is not the old one
      rw [hcall] at hsome
      obtain ⟨rfl, rfl⟩ := Prod.mk.inj (Option.some.inj hsome)
      have hsame := herror _ herr
      simp only [List.map_append, List.map_cons, List.append_cancel_left_eq, List.cons.injEq] at hsame
      apply hdead old.key
      rw [hsame.1]
      rfl
    · intro hroom
      obtain ⟨h0, h1⟩ := hroom hin
      rw [vpdFillStringPair_ok h0 h1] at hcall
      refine ⟨_, _, hcall, fun _ => ⟨before ++ new :: after, ?_, by simp⟩, ?_⟩
      · exact .inr ⟨before, old, after, rfl, hold, hbefore, rfl⟩
      · intro e h
        cases h

/-- Where a call succeeds, the database is what `Container` says. -/
theorem vpdSetString_refines {room : Nat → Bool} {db : Database} {new : StringPair} {pairs : List Pair}
    (h : vpdSetString room (db.pairs.map Pair.of) new = some (pairs, .ok ())) :
    pairs = (Vpd.vpdSetString db new).pairs.map Pair.of := by
  have hatomic : UpdatesAtomically room db.pairs new := by
    rw [updatesAtomically_iff]
    intro hin
    by_contra hroom
    obtain ⟨hnot, -⟩ | ⟨before, old, after, -, -, -, hcall⟩ := vpdSetString_of room db.pairs new
    · exact hnot hin
    · obtain ⟨herr, -⟩ := vpdFillStringPair_error hroom
        { Pair.of old with key := .freed, value := .freed, valueLen := 0 } new
      rw [hcall] at h
      have hok := congrArg Prod.snd (Option.some.inj h)
      cases hok.symm.trans herr
  obtain ⟨_, _, hcall, hdone, -⟩ := hatomic
  rw [h] at hcall
  cases hcall
  obtain ⟨pairs', hput, hpairs⟩ := hdone rfl
  rw [hpairs, hput.eq_setPairs]
  rfl

/-- The key of the example. -/
def sampleKey : CString := ⟨[107], by decide⟩

/-- With one pair in the database and no memory left, the pair loses its key and its value. -/
theorem replacing_without_memory_loses_pair :
    ¬ UpdatesAtomically (fun _ => false) [⟨sampleKey, [1], .byte⟩] ⟨sampleKey, [2], .byte⟩ ∧
      vpdSetString (fun _ => false) [Pair.of ⟨sampleKey, [1], .byte⟩] ⟨sampleKey, [2], .byte⟩ =
        some ([⟨.null, .freed, 0, .byte⟩], .error .err) := by
  have hcall : vpdSetString (fun _ => false) [Pair.of ⟨sampleKey, [1], .byte⟩] ⟨sampleKey, [2], .byte⟩ =
      some ([⟨.null, .freed, 0, .byte⟩], .error .err) := rfl
  refine ⟨fun h => ?_, hcall⟩
  obtain ⟨db, result, hsome, -, herror⟩ := h
  cases hsome.symm.trans hcall
  have hsame := herror _ rfl
  cases hsame

end DpuBackend.Vpd.Allocated
