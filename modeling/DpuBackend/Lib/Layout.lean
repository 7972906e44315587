import Mathlib.Data.List.Basic
import Mathlib.Logic.Equiv.Defs
import Mathlib.Algebra.Order.Ring.Nat

/-
  Values as bytes of a fixed number.

  A `Layout` writes every value of a type in the same number of bytes and reads
  it back from the front of any bytes. Layouts are built from numbers, low byte
  first, by putting one behind the other (`seq`), by repeating one (`rep`) and
  by renaming the values (`map`): a packed record is a chain of these.
-/

namespace DpuBackend.Lib

structure Layout (α : Type) where
  size : Nat
  encode : α → List UInt8
  decode : List UInt8 → α
  length_encode (a : α) : (encode a).length = size
  decode_append (a : α) (rest : List UInt8) : decode (encode a ++ rest) = a

namespace Layout

variable {α β : Type}

/-! ## Numbers -/

/-- The low `n` bytes, the lowest first. -/
def lowBytes : Nat → Nat → List UInt8
  | 0, _ => []
  | n + 1, v => UInt8.ofNat v :: lowBytes n (v / 256)

/-- The number that the first `n` bytes are. -/
def ofBytes : Nat → List UInt8 → Nat
  | 0, _ => 0
  | n + 1, bytes => (bytes.headD 0).toNat + 256 * ofBytes n bytes.tail

theorem length_lowBytes (n v : Nat) : (lowBytes n v).length = n := by
  induction n generalizing v with
  | zero => rfl
  | succ n ih => rw [lowBytes, List.length_cons, ih]

theorem ofBytes_lowBytes (n v : Nat) (rest : List UInt8) : ofBytes n (lowBytes n v ++ rest) = v % 256 ^ n := by
  induction n generalizing v with
  | zero => rw [Nat.pow_zero, Nat.mod_one]; rfl
  | succ n ih =>
    have hbyte : (UInt8.ofNat v).toNat = v % 256 := UInt8.toNat_ofNat'
    rw [lowBytes, List.cons_append, ofBytes, List.headD_cons, List.tail_cons, ih, hbyte, Nat.pow_succ,
      Nat.mul_comm (256 ^ n), Nat.mod_mul]

/-- A number of `n` bytes, little endian. -/
def word (n : Nat) : Layout (BitVec (8 * n)) where
  size := n
  encode v := lowBytes n v.toNat
  decode bytes := BitVec.ofNat _ (ofBytes n bytes)
  length_encode v := length_lowBytes n v.toNat
  decode_append v rest := by
    have hpow : 256 ^ n = 2 ^ (8 * n) := by rw [Nat.pow_mul]
    rw [ofBytes_lowBytes, hpow, Nat.mod_eq_of_lt v.isLt, BitVec.ofNat_toNat, BitVec.setWidth_eq]

/-! ## Records -/

/-- The same bytes for other values. -/
def map (e : α ≃ β) (l : Layout α) : Layout β where
  size := l.size
  encode b := l.encode (e.symm b)
  decode bytes := e (l.decode bytes)
  length_encode b := l.length_encode (e.symm b)
  decode_append b rest := by rw [l.decode_append, e.apply_symm_apply]

/-- One value and another behind it. -/
def seq (l : Layout α) (l' : Layout β) : Layout (α × β) where
  size := l.size + l'.size
  encode p := l.encode p.1 ++ l'.encode p.2
  decode bytes := (l.decode bytes, l'.decode (bytes.drop l.size))
  length_encode p := by rw [List.length_append, l.length_encode, l'.length_encode]
  decode_append p rest := by
    have hskip : (l.encode p.1 ++ (l'.encode p.2 ++ rest)).drop l.size = l'.encode p.2 ++ rest := by
      rw [← l.length_encode p.1, List.drop_left]
    rw [List.append_assoc, l.decode_append, hskip, l'.decode_append]

/-- The bytes of values one behind the other. -/
def encodeAll (l : Layout α) (values : List α) : List UInt8 := values.flatMap l.encode

theorem length_encodeAll (l : Layout α) (values : List α) : (l.encodeAll values).length = l.size * values.length := by
  induction values with
  | nil => rfl
  | cons a rest ih =>
    have hlength : (l.encodeAll (a :: rest)).length = (l.encode a).length + (l.encodeAll rest).length :=
      List.length_append ..
    rw [hlength, l.length_encode, ih, List.length_cons, Nat.mul_succ, Nat.add_comm]

/-- Each value is where its number says. -/
theorem decode_encodeAll (l : Layout α) {values : List α} {i : Nat} (hi : i < values.length) (rest : List UInt8) :
    l.decode ((l.encodeAll values ++ rest).drop (l.size * i)) = values[i] := by
  induction values generalizing i with
  | nil => exact absurd hi (Nat.not_lt_zero i)
  | cons a values ih =>
    rw [encodeAll, List.flatMap_cons, List.append_assoc]
    cases i with
    | zero => exact l.decode_append a _
    | succ i =>
      rw [Nat.mul_succ, Nat.add_comm, ← List.drop_drop]
      conv_lhs => rw [← l.length_encode a, List.drop_left, l.length_encode a]
      exact ih (Nat.lt_of_succ_lt_succ hi)

/-- An array of `n` values. -/
def rep (l : Layout α) (n : Nat) : Layout (Vector α n) where
  size := l.size * n
  encode v := l.encodeAll v.toList
  decode bytes := Vector.ofFn fun i => l.decode (bytes.drop (l.size * i))
  length_encode v := by rw [length_encodeAll, Vector.length_toList]
  decode_append v rest := by
    apply Vector.ext
    intro i hi
    rw [Vector.getElem_ofFn, l.decode_encodeAll (by rwa [Vector.length_toList]), Vector.getElem_toList]

end Layout

end DpuBackend.Lib
