import DpuBackend.Commons.Properties
import Mathlib.Algebra.Order.Ring.Nat

/-
  Profiles: `name=value` items, separated by `,` or `&`.

  Three profiles, each of which may be missing, are joined with `,` and loaded as
  one. `items` is a homomorphism from profiles under the join to lists under
  append (`items_concat3`), and loading adds the properties of the items in order
  (`loadItems_eq`, `foldlM_loadItem`): so the joined profile loads if each part
  does, and the last value given to a name counts (`load_concat3`).

  Correspondence (src/commons/src/properties/dpu_properties_loader.c ↔ Lean):
    `strchr`                             ↔ `strchr`
    the search for the nearest separator ↔ `nextSeparator`
    `try_load_properties_from_profile`   ↔ `tryLoadPropertiesFromProfile`, `loadItems`, `loadItem`
    `dpu_profile_concat3`                ↔ `dpuProfileConcat3`
    `dpu_properties_load_from_profile`   ↔ `dpuPropertiesLoadFromProfile`

  The two environment variables are arguments. `asprintf` fails on a text whose
  length is not an `int`. An item is cut off in place, where its separator was;
  here it is the text in front of it.
-/

namespace DpuBackend.Commons

/-! ## The code -/

def propertySeparatorCharacter : UInt8 := 0x2C

def legacyPropertySeparatorCharacter : UInt8 := 0x26

/-- `'='`. -/
def equalCharacter : UInt8 := 0x3D

/-- The position of the first `c`. -/
def strchr (text : Text) (c : UInt8) : Option Nat := text.findIdx? (· == c)

def nextSeparator (text : Text) : Option Nat :=
  match strchr text propertySeparatorCharacter, strchr text legacyPropertySeparatorCharacter with
  | none, legacyPropertySeparator => legacyPropertySeparator
  | some propertySeparator, none => some propertySeparator
  | some propertySeparator, some legacyPropertySeparator =>
    if legacyPropertySeparator < propertySeparator then some legacyPropertySeparator else some propertySeparator

/-- One item, without its separator. -/
def loadItem (properties : Properties) (item : Text) : Option Properties :=
  (strchr item equalCharacter).map fun equalSeparator =>
    dpuPropertiesAdd properties (item.take equalSeparator) (item.drop (equalSeparator + 1))

theorem strchr_lt {text : Text} {c : UInt8} {i : Nat} (h : strchr text c = some i) : i < text.length :=
  (List.findIdx?_eq_some_iff_getElem.1 h).1

theorem nextSeparator_lt {text : Text} {i : Nat} (h : nextSeparator text = some i) : i < text.length := by
  unfold nextSeparator at h
  split at h
  · exact strchr_lt h
  · next hfound _ => exact strchr_lt (h ▸ hfound)
  · next hfound hlegacy =>
    split at h
    · exact strchr_lt (h ▸ hlegacy)
    · exact strchr_lt (h ▸ hfound)

/-- The loop; `none` if the text contains errors. -/
def loadItems (properties : Properties) (text : Text) : Option Properties :=
  match h : nextSeparator text with
  | none => loadItem properties text
  | some separator =>
    (loadItem properties (text.take separator)).bind fun properties => loadItems properties (text.drop (separator + 1))
termination_by text.length
decreasing_by
  have hlt := nextSeparator_lt h
  rw [List.length_drop]
  omega

def tryLoadPropertiesFromProfile (text : Text) (properties : Properties) : Option Properties :=
  if text = [] then some properties else loadItems properties text

/-- `none` where it returns -1. -/
def asprintf (text : Text) : Option Text := if text.length < 2 ^ 31 then some text else none

def dpuProfileConcat3 (first second third : Option Text) : Option Text :=
  let firstProfile := first.getD []
  let secondProfile := second.getD []
  let thirdProfile := third.getD []
  let firstSeparatorNeeded := !firstProfile.isEmpty && !secondProfile.isEmpty
  let secondSeparatorNeeded := !thirdProfile.isEmpty && (!firstProfile.isEmpty || !secondProfile.isEmpty)
  let firstSeparator := if firstSeparatorNeeded then [propertySeparatorCharacter] else []
  let secondSeparator := if secondSeparatorNeeded then [propertySeparatorCharacter] else []
  asprintf (firstProfile ++ firstSeparator ++ secondProfile ++ secondSeparator ++ thirdProfile)

/-- With `UPMEM_PROFILE_BASE` and `UPMEM_PROFILE`; `none` is `DPU_PROPERTIES_INVALID`. -/
def dpuPropertiesLoadFromProfile (base profile user : Option Text) : Option Properties :=
  match dpuProfileConcat3 base profile user with
  | none => some []
  | some fullProfile => tryLoadPropertiesFromProfile fullProfile []

/-! ## The items of a profile -/

def isSeparator (c : UInt8) : Bool := c == propertySeparatorCharacter || c == legacyPropertySeparatorCharacter

/-- The texts between the separators. -/
def items (profile : Text) : List Text := if profile = [] then [] else profile.splitOnP isSeparator

/-- Every item gives a property. -/
def WellFormedProfile (profile : Text) : Prop := ∀ item ∈ profile.splitOnP isSeparator, equalCharacter ∈ item

/-- An item, split at the first `=`. -/
def splitItem (item : Text) : Text × Text :=
  (item.takeWhile (· ≠ equalCharacter), (item.dropWhile (· ≠ equalCharacter)).tail)

/-- The properties that a profile gives, in order. -/
def givenBy (profile : Text) : List (Text × Text) := (items profile).map splitItem

theorem strchr_cons (first c : UInt8) (text : Text) :
    strchr (first :: text) c = if first = c then some 0 else (strchr text c).map (· + 1) := by
  by_cases h : first = c <;> simp [strchr, List.findIdx?_cons, h]

/-- The nearest separator is the first character that is one. -/
theorem nextSeparator_eq (text : Text) : nextSeparator text = text.findIdx? isSeparator := by
  induction text with
  | nil => rfl
  | cons first text ih =>
    rw [List.findIdx?_cons, ← ih]
    unfold nextSeparator
    rw [strchr_cons, strchr_cons]
    by_cases hnew : first = propertySeparatorCharacter
    · -- the legacy separator, if any, is further behind
      rw [if_pos hnew, hnew]
      cases (if propertySeparatorCharacter = legacyPropertySeparatorCharacter then some 0
        else (strchr text legacyPropertySeparatorCharacter).map (· + 1)) <;> simp [isSeparator]
    · rw [if_neg hnew]
      by_cases hold : first = legacyPropertySeparatorCharacter
      · rw [if_pos hold, hold]
        cases strchr text propertySeparatorCharacter <;> simp [isSeparator]
      · rw [if_neg hold]
        have hneither : isSeparator first = false := by simp [isSeparator, hnew, hold]
        cases strchr text propertySeparatorCharacter <;> cases strchr text legacyPropertySeparatorCharacter <;>
          simp [hneither]
        split <;> rfl

/-- Without a separator there is one item; else the first ends at the separator. -/
theorem nextSeparator_cases (text : Text) :
    (nextSeparator text = none ∧ text.splitOnP isSeparator = [text]) ∨
    ∃ separator, nextSeparator text = some separator ∧
      text.splitOnP isSeparator = text.take separator :: (text.drop (separator + 1)).splitOnP isSeparator := by
  rw [nextSeparator_eq]
  cases h : text.findIdx? isSeparator with
  | none =>
    left
    rw [List.findIdx?_eq_none_iff] at h
    exact ⟨rfl, List.splitOnP_eq_singleton h⟩
  | some separator =>
    right
    refine ⟨separator, rfl, ?_⟩
    obtain ⟨hlt, hsep, hbefore⟩ := List.findIdx?_eq_some_iff_getElem.1 h
    have htext : text = text.take separator ++ text[separator] :: text.drop (separator + 1) := by simp
    have hitem : ∀ c ∈ text.take separator, isSeparator c = false := by
      intro c hc
      obtain ⟨i, hi, rfl⟩ := List.mem_take_iff_getElem.1 hc
      simpa using hbefore i (by omega)
    have hsplit := List.splitOnP_append_cons_of_forall_mem hitem text[separator] hsep (text.drop (separator + 1))
    rwa [← htext] at hsplit

/-- The items are loaded one after the other. -/
theorem loadItems_eq (properties : Properties) (text : Text) :
    loadItems properties text = (text.splitOnP isSeparator).foldlM loadItem properties := by
  fun_induction loadItems properties text with
  | case1 properties text hnone =>
    obtain ⟨-, hsplit⟩ | ⟨separator, hsome, -⟩ := nextSeparator_cases text
    · rw [hsplit]
      simp
    · rw [hnone] at hsome
      cases hsome
  | case2 properties text separator hsome ih =>
    obtain ⟨hnone, -⟩ | ⟨separator', hsome', hsplit⟩ := nextSeparator_cases text
    · rw [hnone] at hsome
      cases hsome
    · obtain rfl : separator = separator' := Option.some.inj (hsome.symm.trans hsome')
      rw [hsplit, List.foldlM_cons]
      apply congrArg
      funext next
      exact ih next

/-! ## Loading the items -/

/-- The first `=` is where the item is split. -/
theorem strchr_splitItem {item : Text} (h : equalCharacter ∈ item) :
    ∃ equalSeparator, strchr item equalCharacter = some equalSeparator ∧
      (item.take equalSeparator, item.drop (equalSeparator + 1)) = splitItem item := by
  induction item with
  | nil => cases h
  | cons first item ih =>
    rw [strchr_cons]
    by_cases hfirst : first = equalCharacter
    · exact ⟨0, if_pos hfirst, by simp [splitItem, hfirst]⟩
    · rw [List.mem_cons] at h
      obtain ⟨separator, hsome, hsplit⟩ := ih (h.resolve_left fun heq => hfirst heq.symm)
      refine ⟨separator + 1, by rw [if_neg hfirst, hsome]; rfl, ?_⟩
      simp only [splitItem, Prod.mk.injEq] at hsplit
      simp [splitItem, hfirst, hsplit.1, hsplit.2]

theorem loadItem_some {item : Text} (h : equalCharacter ∈ item) (properties : Properties) :
    loadItem properties item = some (dpuPropertiesAdd properties (splitItem item).1 (splitItem item).2) := by
  obtain ⟨separator, hsome, hsplit⟩ := strchr_splitItem h
  rw [loadItem, hsome, ← hsplit]
  rfl

theorem loadItem_none {item : Text} (h : equalCharacter ∉ item) (properties : Properties) :
    loadItem properties item = none := by
  rw [loadItem, strchr, List.findIdx?_eq_none_iff.2]
  · rfl
  · intro c hc
    apply beq_eq_false_iff_ne.2
    exact fun heq => h (heq ▸ hc)

/-- All the items load, or one of them gives no property. -/
theorem foldlM_loadItem (list : List Text) (properties : Properties) :
    ((∀ item ∈ list, equalCharacter ∈ item) ∧
      list.foldlM loadItem properties = some (addAll properties (list.map splitItem))) ∨
    ((¬ ∀ item ∈ list, equalCharacter ∈ item) ∧ list.foldlM loadItem properties = none) := by
  induction list generalizing properties with
  | nil => exact .inl ⟨by simp, rfl⟩
  | cons item list ih =>
    by_cases hitem : equalCharacter ∈ item
    · rw [List.foldlM_cons, loadItem_some hitem]
      simpa [hitem, addAll] using ih (dpuPropertiesAdd properties (splitItem item).1 (splitItem item).2)
    · right
      rw [List.foldlM_cons, loadItem_none hitem]
      exact ⟨fun h => hitem (h item List.mem_cons_self), rfl⟩

/-- A profile that is not empty loads if it is well formed, and gives its properties in order. -/
theorem tryLoad_cases (text : Text) :
    ((text ≠ [] → WellFormedProfile text) ∧ tryLoadPropertiesFromProfile text [] = some (addAll [] (givenBy text))) ∨
    (¬ (text ≠ [] → WellFormedProfile text) ∧ tryLoadPropertiesFromProfile text [] = none) := by
  by_cases hempty : text = []
  · left
    simp [hempty, tryLoadPropertiesFromProfile, givenBy, items, addAll]
  · simp only [tryLoadPropertiesFromProfile, givenBy, items, loadItems_eq, ne_eq, hempty, not_false_eq_true,
      true_implies]
    exact foldlM_loadItem _ _

theorem wellFormed_iff_items (profile : Text) :
    (profile ≠ [] → WellFormedProfile profile) ↔ ∀ item ∈ items profile, equalCharacter ∈ item := by
  by_cases hempty : profile = [] <;> simp [items, WellFormedProfile, hempty]

/-! ## The join of three profiles -/

/-- Two profiles with a separator between them where both have one. -/
def join (first second : Text) : Text :=
  if first = [] then second else if second = [] then first else first ++ propertySeparatorCharacter :: second

theorem items_join (first second : Text) : items (join first second) = items first ++ items second := by
  by_cases hfirst : first = []
  · simp [join, items, hfirst]
  · by_cases hsecond : second = []
    · simp [join, items, hfirst, hsecond]
    · have hsep : isSeparator propertySeparatorCharacter = true := by decide
      simp [join, items, hfirst, hsecond, List.splitOnP_append_cons _ _ hsep]

theorem dpuProfileConcat3_eq (first second third : Option Text) :
    dpuProfileConcat3 first second third =
      asprintf (join (join (first.getD []) (second.getD [])) (third.getD [])) := by
  unfold dpuProfileConcat3
  generalize first.getD [] = a
  generalize second.getD [] = b
  generalize third.getD [] = c
  cases a <;> cases b <;> cases c <;> simp [join]

/-- Loading a profile is a homomorphism from the join: it loads if each part is empty or well formed, and then every
name has one entry, with the value that the last part to give one gives it last. -/
theorem load_concat3 (first second third : Option Text) (h : (dpuProfileConcat3 first second third).isSome) :
    ((dpuPropertiesLoadFromProfile first second third).isSome ↔
      ∀ part ∈ [first.getD [], second.getD [], third.getD []], part ≠ [] → WellFormedProfile part) ∧
    ∀ properties, dpuPropertiesLoadFromProfile first second third = some properties →
      properties.names.Nodup ∧
      ∀ name, properties.value name =
        ((lastValue (givenBy (third.getD [])) name).or (lastValue (givenBy (second.getD [])) name)).or
          (lastValue (givenBy (first.getD [])) name) := by
  obtain ⟨profile, hprofile⟩ := Option.isSome_iff_exists.1 h
  have hjoin : profile = join (join (first.getD []) (second.getD [])) (third.getD []) := by
    rw [dpuProfileConcat3_eq, asprintf, Option.ite_none_right_eq_some] at hprofile
    exact (Option.some.inj hprofile.2).symm
  have hitems : items profile = items (first.getD []) ++ items (second.getD []) ++ items (third.getD []) := by
    rw [hjoin, items_join, items_join]
  have hgiven : givenBy profile = givenBy (first.getD []) ++ givenBy (second.getD []) ++ givenBy (third.getD []) := by
    simp only [givenBy, hitems, List.map_append]
  have hformed : (profile ≠ [] → WellFormedProfile profile) ↔
      ∀ part ∈ [first.getD [], second.getD [], third.getD []], part ≠ [] → WellFormedProfile part := by
    simp [wellFormed_iff_items, hitems, or_imp, forall_and]
  rw [dpuPropertiesLoadFromProfile, hprofile, ← hformed]
  obtain ⟨hwf, hload⟩ | ⟨hwf, hload⟩ := tryLoad_cases profile
  · dsimp only
    rw [hload]
    refine ⟨iff_of_true rfl hwf, fun properties hsome => ?_⟩
    cases hsome
    refine ⟨nodup_addAll (show (Properties.names []).Nodup from List.nodup_nil) _, fun name => ?_⟩
    have hnothing : Properties.value [] name = none := rfl
    rw [value_addAll, hnothing, Option.or_none, hgiven, lastValue_append, lastValue_append, Option.or_assoc]
  · dsimp only
    rw [hload]
    exact ⟨iff_of_false nofun hwf, nofun⟩

/-- `a=1&b=2`, `a=3` and nothing. -/
theorem load_concat3_sample :
    (dpuProfileConcat3 (some [97, 61, 49, 38, 98, 61, 50]) (some [97, 61, 51]) none).isSome ∧
      (dpuPropertiesLoadFromProfile (some [97, 61, 49, 38, 98, 61, 50]) (some [97, 61, 51]) none).isSome := by
  have h : (dpuProfileConcat3 (some [97, 61, 49, 38, 98, 61, 50]) (some [97, 61, 51]) none).isSome := by decide
  refine ⟨h, (load_concat3 _ _ _ h).1.2 ?_⟩
  simp only [WellFormedProfile]
  decide

end DpuBackend.Commons
