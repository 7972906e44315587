import Mathlib.Data.List.Basic

/-
  Tables that are allocated for a number of entries and then filled in order.

  An entry that was allocated and not yet written is `none`. `Filled key as k xs`
  says of a table `xs` that its first entries are written, with the keys `as`,
  and the `k` behind them are not. Growing the table, writing the next entry, and
  changing an entry without its key keep it so. `mapM_guard` is for the same
  write made to each of a family of tables.
-/

namespace DpuBackend.Lib

variable {α β ε : Type}

/-- A guarded operation on each of a list: all of them, or none. -/
theorem mapM_guard {p : α → Prop} [DecidablePred p] (f : α → β) (e : ε) (l : List α) :
    (l.mapM fun a => if p a then Except.ok (f a) else Except.error e) =
      if ∀ a ∈ l, p a then Except.ok (l.map f) else Except.error e := by
  induction l with
  | nil => simp [pure, Except.pure]
  | cons a l ih =>
    rw [List.mapM_cons, ih]
    by_cases ha : p a
    · by_cases hl : ∀ a ∈ l, p a
      · have hall : ∀ b ∈ a :: l, p b := List.forall_mem_cons.mpr ⟨ha, hl⟩
        rw [if_pos ha, if_pos hl, if_pos hall]
        rfl
      · have hall : ¬ ∀ b ∈ a :: l, p b := fun h => hl (List.forall_mem_cons.mp h).2
        rw [if_pos ha, if_neg hl, if_neg hall]
        rfl
    · have hall : ¬ ∀ b ∈ a :: l, p b := fun h => ha (List.forall_mem_cons.mp h).1
      rw [if_neg ha, if_neg hall]
      rfl

/-- A list of operations that all succeed. -/
theorem mapM_total {f : α → Except ε β} {l : List α} (h : ∀ a ∈ l, ∃ b, f a = .ok b) : ∃ bs, l.mapM f = .ok bs := by
  induction l with
  | nil => exact ⟨[], rfl⟩
  | cons a l ih =>
    obtain ⟨b, hb⟩ := h a List.mem_cons_self
    obtain ⟨bs, hbs⟩ := ih fun c hc => h c (List.mem_cons_of_mem a hc)
    refine ⟨b :: bs, ?_⟩
    rw [List.mapM_cons, hb, hbs]
    rfl

/-! ## One table -/

/-- The table reallocated for `n` entries. -/
def regrow (xs : List (Option α)) (n : Nat) : List (Option α) := xs.take n ++ List.replicate (n - xs.length) none

@[simp] theorem length_regrow (xs : List (Option α)) (n : Nat) : (regrow xs n).length = n := by
  simp only [regrow, List.length_append, List.length_take, List.length_replicate]
  omega

/-- The entries `items` written from position `i` on. -/
def fillFrom : Nat → List α → List (Option α) → List (Option α)
  | _, [], xs => xs
  | i, x :: items, xs => fillFrom (i + 1) items (xs.set i (some x))

@[simp] theorem length_fillFrom (items : List α) :
    ∀ i (xs : List (Option α)), (fillFrom i items xs).length = xs.length := by
  induction items with
  | nil => exact fun _ _ => rfl
  | cons x items ih =>
    intro i xs
    rw [fillFrom, ih, List.length_set]

/-- The first entries have the keys `as`, and `k` more are allocated. -/
def Filled (key : α → β) (as : List β) (k : Nat) (xs : List (Option α)) : Prop :=
  xs.map (Option.map key) = as.map some ++ List.replicate k none

namespace Filled

variable {key : α → β} {as : List β} {k : Nat} {xs : List (Option α)}

theorem length (h : Filled key as k xs) : xs.length = as.length + k := by
  have hlength := congrArg List.length h
  simpa using hlength

theorem empty (key : α → β) : Filled key [] 0 [] := rfl

/-- A table that is written throughout. -/
theorem zero_iff : Filled key as 0 xs ↔ xs.map (Option.map key) = as.map some := by
  rw [Filled, List.replicate_zero, List.append_nil]

/-- A full table that is given `k` more entries. -/
theorem regrow (h : Filled key as 0 xs) (k : Nat) : Filled key as k (regrow xs (as.length + k)) := by
  have hlength : xs.length = as.length := h.length
  have htake : xs.take (as.length + k) = xs := List.take_of_length_le (by omega)
  have hmore : as.length + k - xs.length = k := by omega
  rw [Filled, Lib.regrow, htake, hmore, List.map_append, h, List.map_replicate, List.replicate_zero, List.append_nil]
  rfl

/-- The next entry. -/
theorem set (h : Filled key as (k + 1) xs) (x : α) : Filled key (as ++ [key x]) k (xs.set as.length (some x)) := by
  have hnext : as.length = (as.map (some : β → Option β)).length := by rw [List.length_map]
  rw [Filled, List.map_set, h, hnext, List.set_append_right _ _ (Nat.le_refl _), Nat.sub_self, List.replicate_succ,
    List.set_cons_zero, List.map_append, List.append_assoc]
  rfl

theorem fillFrom {as : List β} {k : Nat} {xs : List (Option α)} :
    ∀ items : List α, Filled key as (items.length + k) xs →
      Filled key (as ++ items.map key) k (fillFrom as.length items xs)
  | [], h => by simpa [Lib.fillFrom] using h
  | x :: items, h => by
    have hnext : Filled key (as ++ [key x]) (items.length + k) (xs.set as.length (some x)) := by
      apply Filled.set
      rw [show items.length + k + 1 = (x :: items).length + k by rw [List.length_cons]; omega]
      exact h
    have hrest := Filled.fillFrom items hnext
    rw [List.length_append, List.append_assoc] at hrest
    exact hrest

/-- An entry below the ones that are not written. -/
theorem get (h : Filled key as k xs) {i : Nat} (hi : i < as.length) :
    ∃ x, xs[i]? = some (some x) ∧ as[i]? = some (key x) := by
  have hentry : (xs.map (Option.map key))[i]? = some (some as[i]) := by
    rw [h, List.getElem?_append_left (by rw [List.length_map]; exact hi), List.getElem?_map,
      List.getElem?_eq_getElem hi]
    rfl
  rw [List.getElem?_map, Option.map_eq_some_iff] at hentry
  obtain ⟨entry, hx, hkey⟩ := hentry
  obtain ⟨x, rfl, hkeyx⟩ := Option.map_eq_some_iff.mp hkey
  exact ⟨x, hx, by rw [List.getElem?_eq_getElem hi, hkeyx]⟩

/-- An entry replaced by one with the same key. -/
theorem replace (h : Filled key as k xs) {i : Nat} {x y : α} (hx : xs[i]? = some (some x)) (hkey : key y = key x) :
    Filled key as k (xs.set i (some y)) := by
  have hsame : (xs.map (Option.map key)).set i (some (key x)) = xs.map (Option.map key) := by
    apply List.ext_getElem?
    intro j
    rw [List.getElem?_set]
    by_cases hij : i = j
    · subst hij
      obtain ⟨hi, hxi⟩ := List.getElem?_eq_some_iff.mp hx
      simp [hi, hxi]
    · rw [if_neg hij]
  rw [Filled, List.map_set, Option.map_some, hkey, hsame]
  exact h

end Filled

end DpuBackend.Lib
