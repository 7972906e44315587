import Mathlib.Data.Finset.Card
import Mathlib.Data.Finset.Image

/-
  First fit over two pairs.

  Each element has a key. It is placed in the first pair that has room and holds no element with
  another key; there are two pairs. For distinct elements this finds places whenever the set of
  all of them is the union of two sets that pairs can hold: an element for which there is no
  place, with those placed before it, is not such a union (`not_divisible`).
-/

namespace DpuBackend.Lib.FirstFit

variable {α κ : Type} (key : α → κ)

/-! ## What a pair can hold -/

structure IsPair (s : Finset α) : Prop where
  card : s.card ≤ 2
  key_eq : ∀ a ∈ s, ∀ b ∈ s, key a = key b

/-- The elements of a pair. -/
structure Holds (pair : List α) : Prop where
  length : pair.length ≤ 2
  key_eq : ∀ a ∈ pair, ∀ b ∈ pair, key a = key b

def Divisible [DecidableEq α] (s : Finset α) : Prop := ∃ p q, s = p ∪ q ∧ IsPair key p ∧ IsPair key q

variable {key}

theorem holds_nil : Holds key ([] : List α) := ⟨Nat.zero_le _, fun _ h => absurd h List.not_mem_nil⟩

section Sets

variable [DecidableEq α]

theorem IsPair.two {s : Finset α} (h : IsPair key s) {a b c : α} (ha : a ∈ s) (hb : b ∈ s) (hc : c ∈ s) :
    a = b ∨ a = c ∨ b = c := by
  by_contra hno
  simp only [not_or] at hno
  have hcard := Finset.two_lt_card.mpr ⟨a, ha, b, hb, c, hc, hno.1, hno.2.1, hno.2.2⟩
  exact absurd h.card (Nat.not_le.mpr hcard)

theorem IsPair.inter {s t : Finset α} (h : IsPair key s) : IsPair key (t ∩ s) := by
  refine ⟨Nat.le_trans (Finset.card_le_card Finset.inter_subset_right) h.card, fun a ha b hb => ?_⟩
  exact h.key_eq a (Finset.mem_inter.mp ha).2 b (Finset.mem_inter.mp hb).2

theorem Divisible.mono {s t : Finset α} (h : Divisible key s) (hsub : t ⊆ s) : Divisible key t := by
  obtain ⟨p, q, rfl, hp, hq⟩ := h
  refine ⟨t ∩ p, t ∩ q, ?_, hp.inter, hq.inter⟩
  rw [← Finset.inter_union_distrib_left, Finset.inter_eq_left.mpr hsub]

/-- Other names for the elements, with other keys that tell them apart in the same way. -/
theorem divisible_image {β κ' : Type} [DecidableEq β] {key' : β → κ'} {g : β → α} {s : Finset β}
    (hinj : Function.Injective g) (hkey : ∀ a ∈ s, ∀ b ∈ s, key (g a) = key (g b) ↔ key' a = key' b) :
    Divisible key (s.image g) ↔ Divisible key' s := by
  constructor
  · rintro ⟨p, q, hunion, hp, hq⟩
    have hpart : ∀ t : Finset α, IsPair key t → IsPair key' (s.filter fun a => g a ∈ t) := by
      intro t ht
      refine ⟨Nat.le_trans (Finset.card_le_card_of_injOn g ?_ hinj.injOn) ht.card, ?_⟩
      · exact fun a ha => (Finset.mem_filter.mp ha).2
      · intro a ha b hb
        obtain ⟨has, hat⟩ := Finset.mem_filter.mp ha
        obtain ⟨hbs, hbt⟩ := Finset.mem_filter.mp hb
        exact (hkey a has b hbs).mp (ht.key_eq _ hat _ hbt)
    refine ⟨_, _, ?_, hpart p hp, hpart q hq⟩
    rw [← Finset.filter_or]
    refine (Finset.filter_true_of_mem fun a ha => ?_).symm
    have hmem := Finset.mem_image_of_mem g ha
    rw [hunion] at hmem
    exact Finset.mem_union.mp hmem
  · rintro ⟨p, q, rfl, hp, hq⟩
    have hpart : ∀ t : Finset β, t ⊆ p ∪ q → IsPair key' t → IsPair key (t.image g) := by
      intro t hsub ht
      refine ⟨Nat.le_trans Finset.card_image_le ht.card, ?_⟩
      intro x hx y hy
      obtain ⟨a, ha, rfl⟩ := Finset.mem_image.mp hx
      obtain ⟨b, hb, rfl⟩ := Finset.mem_image.mp hy
      exact (hkey a (hsub ha) b (hsub hb)).mpr (ht.key_eq a ha b hb)
    exact ⟨_, _, Finset.image_union p q, hpart p Finset.subset_union_left hp, hpart q Finset.subset_union_right hq⟩

theorem Holds.isPair {pair : List α} (h : Holds key pair) : IsPair key pair.toFinset := by
  refine ⟨Nat.le_trans (List.toFinset_card_le pair) h.length, fun a ha b hb => ?_⟩
  exact h.key_eq a (List.mem_toFinset.mp ha) b (List.mem_toFinset.mp hb)

end Sets

/-! ## First fit -/

section Place

variable [DecidableEq κ]

variable (key) in
/-- The pair with one element more, if there is room beside one with the same key. -/
def add (pair : List α) (x : α) : Option (List α) :=
  match pair with
  | [] => some [x]
  | [a] => if key a = key x then some [a, x] else none
  | _ => none

structure Pairs (α : Type) where
  first : List α
  second : List α

variable (key) in
def Pairs.place (p : Pairs α) (x : α) : Option (Pairs α) :=
  match add key p.first x with
  | some first => some ⟨first, p.second⟩
  | none => (add key p.second x).map fun second => ⟨p.first, second⟩

variable (key) in
def fit (p : Pairs α) (xs : List α) : Option (Pairs α) := xs.foldlM (Pairs.place key) p

/-- What is added, and that the pair can hold it. -/
theorem add_some {pair pair' : List α} {x : α} (h : add key pair x = some pair') (hpair : Holds key pair) :
    pair' = pair ++ [x] ∧ Holds key pair' := by
  unfold add at h
  split at h
  · obtain rfl := Option.some.inj h
    exact ⟨rfl, by simp, by simp⟩
  · next a =>
    split at h
    · next hkey =>
      obtain rfl := Option.some.inj h
      refine ⟨rfl, by simp, ?_⟩
      simp [hkey]
    · exact absurd h nofun
  · exact absurd h nofun

/-- There is no room, or the key is another. -/
theorem add_none {pair : List α} {x : α} (h : add key pair x = none) (hpair : Holds key pair) :
    (∃ a b, pair = [a, b]) ∨ ∃ a, pair = [a] ∧ key a ≠ key x := by
  match pair, hpair.length with
  | [], _ => exact absurd h nofun
  | [a], _ =>
    refine .inr ⟨a, rfl, fun hkey => ?_⟩
    rw [add, if_pos hkey] at h
    exact absurd h nofun
  | [a, b], _ => exact .inl ⟨a, b, rfl⟩

theorem add_none_append {pair : List α} {x : α} (y : α) (h : add key pair x = none) : add key (pair ++ [y]) x = none := by
  match pair with
  | [] => exact absurd h nofun
  | [_] => rfl
  | _ :: _ :: _ => rfl

/-! ## The placed elements -/

/-- The elements `done` are placed; those of the second pair have no place in the first. -/
structure Placed (key : α → κ) (done : List α) (p : Pairs α) : Prop where
  first : Holds key p.first
  second : Holds key p.second
  perm : (p.first ++ p.second).Perm done
  late : ∀ y ∈ p.second, add key p.first y = none

theorem placed_nil : Placed key [] (⟨[], []⟩ : Pairs α) :=
  ⟨holds_nil, holds_nil, List.Perm.refl _, fun _ h => absurd h List.not_mem_nil⟩

theorem Placed.place {done : List α} {p p' : Pairs α} {x : α} (h : Placed key done p) (hplace : p.place key x = some p') :
    Placed key (done ++ [x]) p' := by
  unfold Pairs.place at hplace
  split at hplace
  · next first hadd =>
    obtain rfl := Option.some.inj hplace
    obtain ⟨rfl, hfirst⟩ := add_some hadd h.first
    refine ⟨hfirst, h.second, ?_, fun y hy => add_none_append x (h.late y hy)⟩
    show (p.first ++ [x] ++ p.second).Perm (done ++ [x])
    rw [List.append_assoc]
    have hswap : ([x] ++ p.second).Perm (p.second ++ [x]) := List.perm_append_comm
    refine (hswap.append_left p.first).trans ?_
    rw [← List.append_assoc]
    exact h.perm.append_right _
  · next hnone =>
    obtain ⟨second, hadd, rfl⟩ := Option.map_eq_some_iff.mp hplace
    obtain ⟨rfl, hsecond⟩ := add_some hadd h.second
    refine ⟨h.first, hsecond, ?_, ?_⟩
    · show (p.first ++ (p.second ++ [x])).Perm (done ++ [x])
      rw [← List.append_assoc]
      exact h.perm.append_right _
    · intro y hy
      rcases List.mem_append.mp hy with hy | hy
      · exact h.late y hy
      · obtain rfl := List.mem_singleton.mp hy
        exact hnone

theorem placed_of_fit {xs done : List α} {p q : Pairs α} (h : Placed key done p) (hfit : fit key p xs = some q) :
    Placed key (done ++ xs) q := by
  induction xs generalizing done p with
  | nil =>
    obtain rfl : p = q := Option.some.inj hfit
    rw [List.append_nil]
    exact h
  | cons x xs ih =>
    cases hplace : p.place key x with
    | some p' =>
      have hrest : fit key p' xs = some q := by rw [← hfit]; simp [fit, hplace]
      have hplaced := ih (h.place hplace) hrest
      rwa [List.append_assoc] at hplaced
    | none => simp [fit, hplace] at hfit

variable [DecidableEq α]

/-- Where an element has no place there is none for it, whatever the order. -/
theorem not_divisible {done : List α} {p : Pairs α} {x : α} (h : Placed key done p) (hnone : p.place key x = none)
    (hnodup : (done ++ [x]).Nodup) : ¬Divisible key (done ++ [x]).toFinset := by
  have hperm : (p.first ++ p.second ++ [x]).Perm (done ++ [x]) := h.perm.append_right _
  rw [← List.toFinset_eq_of_perm _ _ hperm]
  replace hnodup := hperm.nodup_iff.mpr hnodup
  obtain ⟨hfirst, hsecond⟩ : add key p.first x = none ∧ add key p.second x = none := by
    unfold Pairs.place at hnone
    split at hnone
    · exact absurd hnone nofun
    · next hadd => exact ⟨hadd, Option.map_eq_none_iff.mp hnone⟩
  have hlate := h.late
  have hkeys := h.first.key_eq
  have hkeys' := h.second.key_eq
  rintro ⟨s, t, hunion, hs, ht⟩
  have hmem : ∀ y ∈ p.first ++ p.second ++ [x], y ∈ s ∨ y ∈ t := by
    intro y hy
    rw [← List.mem_toFinset, hunion, Finset.mem_union] at hy
    exact hy
  have hs' : ∀ a b c, a ∈ s → b ∈ s → c ∈ s → a = b ∨ a = c ∨ b = c := fun _ _ _ => hs.two
  have ht' : ∀ a b c, a ∈ t → b ∈ t → c ∈ t → a = b ∨ a = c ∨ b = c := fun _ _ _ => ht.two
  have hskey := hs.key_eq
  have htkey := ht.key_eq
  -- how full the pairs are: with both full there are five elements, else three keys or three of one key
  rcases add_none hfirst h.first with ⟨a, b, hab⟩ | ⟨a, hab, hax⟩ <;>
  rcases add_none hsecond h.second with ⟨c, d, hcd⟩ | ⟨c, hcd, hcx⟩ <;>
  · rw [hab, hcd] at hmem hnodup
    rw [hab] at hkeys hlate
    rw [hcd] at hkeys' hlate
    simp [add] at hmem hnodup hkeys hkeys' hlate
    grind

theorem fit_isSome_iff_of_placed {xs done : List α} {p : Pairs α} (h : Placed key done p) (hnodup : (done ++ xs).Nodup) :
    (fit key p xs).isSome = true ↔ Divisible key (done ++ xs).toFinset := by
  induction xs generalizing done p with
  | nil =>
    rw [List.append_nil]
    refine ⟨fun _ => ⟨p.first.toFinset, p.second.toFinset, ?_, h.first.isPair, h.second.isPair⟩, fun _ => rfl⟩
    rw [← List.toFinset_append, List.toFinset_eq_of_perm _ _ h.perm]
  | cons x xs ih =>
    have hassoc : done ++ x :: xs = done ++ [x] ++ xs := by simp
    rw [hassoc] at hnodup ⊢
    cases hplace : p.place key x with
    | some p' =>
      have hfit : fit key p (x :: xs) = fit key p' xs := by simp [fit, hplace]
      rw [hfit]
      exact ih (h.place hplace) hnodup
    | none =>
      have hfit : fit key p (x :: xs) = none := by simp [fit, hplace]
      rw [hfit]
      refine ⟨fun hsome => absurd hsome nofun, fun hdiv => ?_⟩
      refine absurd (hdiv.mono ?_) (not_divisible h hplace (List.Nodup.of_append_left hnodup))
      intro y hy
      simp only [List.mem_toFinset, List.mem_append] at hy ⊢
      exact .inl hy

/-- First fit finds places for distinct elements whenever there are places for them. -/
theorem fit_isSome_iff {xs : List α} (hnodup : xs.Nodup) :
    (fit key ⟨[], []⟩ xs).isSome = true ↔ Divisible key xs.toFinset :=
  fit_isSome_iff_of_placed placed_nil hnodup

end Place

end DpuBackend.Lib.FirstFit
