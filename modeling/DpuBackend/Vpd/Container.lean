import Mathlib.Data.List.Basic
import Mathlib.Data.List.Nodup
import Mathlib.Data.List.TakeWhile
import DpuBackend.Lib.Base128

/-
  The VPD database and its encoding.

  C ↔ Lean (src/vpd/src/dpu_vpd_container.c, dpu_vpd_encode.c, dpu_vpd_decode.c):
    enum vpd_data_type, enum dpu_vpd_error            ↔ DataType, VpdError
    struct dpu_vpd_string_pair, dpu_vpd_database      ↔ StringPair, Database
    vpd_find_string, vpd_set_string                   ↔ setPairs, vpdSetString
    vpd_encode_len, vpd_encode_string                 ↔ vpdEncodeLen, vpdEncodeString
    vpd_encode_container                              ↔ vpdEncodeContainer
    vpd_decode_len, vpd_decode_string                 ↔ vpdDecodeLen, vpdDecodeString
    vpd_decode_cb, vpd_decode_to_container            ↔ vpdDecodeCb, vpdDecodeToContainer

  An `int` is an integer that wraps to 32 bits. `malloc` succeeds unless its size is a negative `int`,
  which is no size that memory has. The encoder's buffer lies in a memory that goes on at both ends,
  and what it writes is noted; the decoder stops where it would read outside its buffer.
-/

namespace DpuBackend.Vpd

open DpuBackend.Lib

inductive VpdError where
  | headerFormat
  | headerVersion
  | repairEntries
  | nbMaxRepair
  | flash
  | dpuAlreadyEnabled
  | dpuAlreadyDisabled
  | overflow
  | err
  deriving DecidableEq, Repr

/-- The value of a computation in `int`. -/
def int32 (x : Int) : Int := x.bmod (2 ^ 32)

inductive DataType where
  | string
  | byte
  | short
  | int
  | long
  | byteArray
  deriving DecidableEq, Repr

def DataType.code : DataType → UInt8
  | .string => 0
  | .byte => 1
  | .short => 2
  | .int => 4
  | .long => 8
  | .byteArray => 9

/-- The `switch` over the type. -/
def DataType.ofCode (b : UInt8) : Option DataType :=
  [.string, .byte, .short, .int, .long, .byteArray].find? fun type => type.code == b

/-! ## The database -/

/-- A string, without the byte that ends it. -/
structure CString where
  bytes : List UInt8
  nul_free : 0 ∉ bytes
  deriving DecidableEq

/-- The string at an address: the bytes up to the first that is zero. -/
def CString.ofBytes (bytes : List UInt8) : CString :=
  ⟨bytes.takeWhile (· != 0), fun h => by simpa using List.mem_takeWhile_imp h⟩

/-- `value_len` is the length of `value`. -/
structure StringPair where
  key : CString
  value : List UInt8
  type : DataType
  deriving DecidableEq

/-- A pair replaces the one with its key, or comes last. -/
def setPairs (new : StringPair) : List StringPair → List StringPair
  | [] => [new]
  | pair :: rest => if pair.key = new.key then new :: rest else pair :: setPairs new rest

theorem mem_keys_setPairs {new : StringPair} {pairs : List StringPair} {key : CString} :
    key ∈ (setPairs new pairs).map StringPair.key ↔ key = new.key ∨ key ∈ pairs.map StringPair.key := by
  induction pairs with
  | nil => simp [setPairs]
  | cons pair rest ih =>
    rw [setPairs]
    split
    · next h => simp [h]
    · rw [List.map_cons, List.mem_cons, ih, List.map_cons, List.mem_cons]
      tauto

theorem nodup_setPairs {new : StringPair} {pairs : List StringPair} (h : (pairs.map StringPair.key).Nodup) :
    ((setPairs new pairs).map StringPair.key).Nodup := by
  induction pairs with
  | nil => simp [setPairs]
  | cons pair rest ih =>
    rw [List.map_cons, List.nodup_cons] at h
    rw [setPairs]
    split
    · next heq => rw [List.map_cons, List.nodup_cons, ← heq]; exact h
    · next hne =>
      rw [List.map_cons, List.nodup_cons, mem_keys_setPairs, not_or]
      exact ⟨⟨hne, h.1⟩, ih h.2⟩

/-- The pairs in order; no two have the same key. -/
structure Database where
  pairs : List StringPair
  nodup : (pairs.map StringPair.key).Nodup

def Database.empty : Database := ⟨[], List.nodup_nil⟩

def vpdSetString (db : Database) (new : StringPair) : Database := ⟨setPairs new db.pairs, nodup_setPairs db.nodup⟩

/-! ## Encoding -/

/-- The memory from the buffer on, by the distance from its start, and what was written: where, and how
many bytes, the last first. `cursor` is `output_buf`. -/
structure Output where
  mem : Int → UInt8
  cursor : Int
  generated : Int
  spans : List (Int × Nat)

abbrev EncodeM := EStateM VpdError Output

def Output.put (bytes : List UInt8) (o : Output) : Output :=
  { mem := fun x => if o.cursor ≤ x ∧ x < o.cursor + bytes.length then bytes.getD (x - o.cursor).toNat 0 else o.mem x
    cursor := o.cursor + bytes.length
    generated := int32 (o.generated + bytes.length)
    spans := (o.cursor, bytes.length) :: o.spans }

/-- The loop that reverses `shifting` for every 7 bits: `reversed_7bits` and `*encoded_len`. -/
def reverseGroups (shifting reversed encodedLen : Nat) : Nat × Nat :=
  if h : shifting = 0 then (reversed, encodedLen)
  else
    reverseGroups (shifting >>> 7) (((reversed <<< 7) ||| (shifting &&& 0x7f)) % 2 ^ 32) (encodedLen + 1)
termination_by shifting
decreasing_by
  rw [Nat.shiftRight_eq_div_pow]
  exact Nat.div_lt_self (Nat.pos_of_ne_zero h) (by decide)

/-- The loop that writes the groups, each with the MORE flag. -/
def outputGroups : Nat → Nat → List UInt8
  | 0, _ => []
  | left + 1, reversed => UInt8.ofNat (0x80 ||| (reversed &&& 0x7f)) :: outputGroups left (reversed >>> 7)

/-- `encode_buf[out_index - 1] &= 0x7f` -/
def clearMore (bytes : List UInt8) : List UInt8 := bytes.modify (bytes.length - 1) (· &&& 0x7f)

/-- The bytes that are written. -/
def vpdEncodeLen (len maxLen : Int) : Except VpdError (List UInt8) :=
  if len < 0 then .error .err
  else
    let (reversed, encodedLen) := reverseGroups len.toNat 0 0
    if encodedLen > maxLen then .error .overflow
    else
      let encodedLen := if encodedLen = 0 then 1 else encodedLen
      .ok (clearMore (outputGroups encodedLen reversed))

/-- A length and the bytes of a string behind it. -/
def encodeField (bytes : List UInt8) (maxBufferLen : Int) : EncodeM PUnit := do
  let o ← get
  match vpdEncodeLen bytes.length (int32 (maxBufferLen - o.generated)) with
  | .error _ => throw .err
  | .ok code => do
    modify (Output.put code)
    let o ← get
    if int32 (o.generated + bytes.length) > maxBufferLen then throw .overflow
    else modify (Output.put bytes)

def vpdEncodeString (pair : StringPair) (maxBufferLen : Int) : EncodeM PUnit := do
  modify fun o => { o with cursor := o.generated }
  let o ← get
  if o.generated ≥ maxBufferLen then throw .overflow
  else do
    modify (Output.put [pair.type.code])
    encodeField pair.key.bytes maxBufferLen
    encodeField pair.value maxBufferLen

/-- The loop over the pairs; every error is reported as `DPU_VPD_ERR`. -/
def encodePairs (maxBufLen : Int) : List StringPair → EncodeM PUnit
  | [] => pure ⟨⟩
  | pair :: rest => do
    tryCatch (vpdEncodeString pair maxBufLen) fun _ => throw .err
    encodePairs maxBufLen rest

/-- With a buffer in the memory `mem`. -/
def vpdEncodeContainer (db : Database) (maxBufLen : Int) (mem : Int → UInt8) : EStateM.Result VpdError Output PUnit :=
  (encodePairs maxBufLen db.pairs).run ⟨mem, 0, 0, []⟩

/-! ## Decoding -/

/-- A buffer whose length is an `int`. -/
structure Buffer where
  bytes : List UInt8
  length_lt : bytes.length < 2 ^ 31

/-- `max_buf_len` -/
def Buffer.maxLen (buf : Buffer) : Int := buf.bytes.length

def Buffer.byteAt (buf : Buffer) (pos : Int) : Option UInt8 := if pos < 0 then none else buf.bytes[pos.toNat]?

/-- The `len` bytes from `pos` on. -/
def Buffer.slice (buf : Buffer) (pos len : Int) : Option (List UInt8) :=
  if 0 ≤ pos ∧ 0 ≤ len ∧ pos + len ≤ buf.maxLen then some ((buf.bytes.drop pos.toNat).take len.toNat) else none

/-- The loop of `vpd_decode_len`, with `left` bytes to go: `*length` and `*decoded_len`. -/
def decodeLenFrom (buf : Buffer) (pos : Int) :
    Nat → BitVec 32 → Nat → Option (Except VpdError (BitVec 32 × Nat))
  | 0, _, _ => some (.error .overflow)
  | left + 1, length, i =>
    match buf.byteAt (pos + i) with
    | none => none
    | some b =>
      let length := length <<< 7 ||| (b &&& 0x7f).toBitVec.setWidth 32
      if b &&& 0x80 ≠ 0 then decodeLenFrom buf pos left length (i + 1) else some (.ok (length, i + 1))

def vpdDecodeLen (buf : Buffer) (maxLen pos : Int) : Option (Except VpdError (BitVec 32 × Nat)) :=
  decodeLenFrom buf pos maxLen.toNat 0 0

/-- `*consumed` and the values it had before, the last one first. -/
structure Cursor where
  consumed : Int
  past : List Int
  deriving DecidableEq, Repr

def Cursor.advance (c : Cursor) (k : Int) : Cursor := ⟨int32 (c.consumed + k), c.consumed :: c.past⟩

/-- What the callback is given: where key and value are in the buffer, and their lengths. -/
structure Handed where
  key : Int
  keyLen : Int
  value : Int
  valueLen : Int
  type : DataType
  deriving DecidableEq, Repr

/-- A length and the field behind it: where the field is, and its length. -/
def decodeField (buf : Buffer) (c : Cursor) (fits : Int → Bool) : Option (Cursor × Except VpdError (Int × Int)) :=
  (vpdDecodeLen buf (int32 (buf.maxLen - c.consumed)) c.consumed).bind fun found =>
    match found with
    | .error _ => some (c, .error .overflow)
    | .ok (len, decodedLen) =>
      if fits (int32 (c.consumed + decodedLen)) then
        let c := c.advance decodedLen
        some (c.advance len.toInt, .ok (c.consumed, len.toInt))
      else some (c, .error .overflow)

/-- The value, behind the key. -/
def decodeValue (buf : Buffer) (type : DataType) (key keyLen : Int) (c : Cursor) :
    Option (Cursor × Except VpdError Handed) :=
  (decodeField buf c fun pos => pos ≤ buf.maxLen).bind fun found =>
    match found with
    | (c, .error e) => some (c, .error e)
    | (c, .ok (value, valueLen)) => some (c, .ok ⟨key, keyLen, value, valueLen, type⟩)

/-- Key and value, behind the type. -/
def decodeKey (buf : Buffer) (type : DataType) (c : Cursor) : Option (Cursor × Except VpdError Handed) :=
  (decodeField buf c fun pos => pos < buf.maxLen).bind fun found =>
    match found with
    | (c, .error e) => some (c, .error e)
    | (c, .ok (key, keyLen)) => decodeValue buf type key keyLen c

/-- Up to the call of the callback. -/
def vpdDecodeString (buf : Buffer) (c : Cursor) : Option (Cursor × Except VpdError Handed) :=
  if c.consumed ≥ buf.maxLen then some (c, .error .overflow)
  else
    (buf.byteAt c.consumed).bind fun b =>
      match DataType.ofCode b with
      | none => some (c, .error .err)
      | some type => decodeKey buf type (c.advance 1)

/-- `vpd_set_string` where `malloc` fails for the value: a pair that has the key is left with memory that
is freed. -/
def setStringFails (db : Database) (key : CString) : Option (Except VpdError Database) :=
  if key ∈ db.pairs.map StringPair.key then none else some (.error .err)

def vpdDecodeCb (buf : Buffer) (h : Handed) (db : Database) : Option (Except VpdError Database) :=
  if int32 (h.keyLen + 1) < 0 then some (.error .err)
  else
    (buf.slice h.key h.keyLen).bind fun keyString =>
      if (if h.type = .string then int32 (h.valueLen + 1) else h.valueLen) < 0 then
        setStringFails db (CString.ofBytes keyString)
      else
        (buf.slice h.value h.valueLen).map fun value =>
          .ok (vpdSetString db ⟨CString.ofBytes keyString, value, h.type⟩)

/-- The decoder: what was handed to the callback, each with the place of its record, the last first, and
the database. -/
structure Decoding where
  cursor : Cursor
  handed : List (Int × Handed)
  db : Database

/-- The loop, for `fuel` rounds at most. -/
def decodeLoop (buf : Buffer) : Nat → Decoding → Option Decoding
  | 0, _ => none
  | fuel + 1, s =>
    (vpdDecodeString buf s.cursor).bind fun round =>
      match round with
      | (c, .error _) => some { s with cursor := c }
      | (c, .ok h) =>
        (vpdDecodeCb buf h s.db).bind fun result =>
          match result with
          | .error _ => some { s with cursor := c, handed := (s.cursor.consumed, h) :: s.handed }
          | .ok db => decodeLoop buf fuel ⟨c, (s.cursor.consumed, h) :: s.handed, db⟩

/-- Always returns `DPU_VPD_OK`. -/
def vpdDecodeToContainer (buf : Buffer) (fuel : Nat) (db : Database) : Option Decoding :=
  decodeLoop buf fuel ⟨⟨0, []⟩, [], db⟩

end DpuBackend.Vpd
