import Mathlib.Data.List.Basic
import Mathlib.Data.List.Nodup

/-
  The properties of a configuration: names with values.

  A list of properties is searched from its start; `dpu_properties_add` changes
  the value of the first property with the name, or appends a new one. So every
  name has one entry (`nodup_add`) and the last value given to it counts
  (`value_addAll`).

  Correspondence (src/commons/src/properties/dpu_properties.c ↔ Lean):
    `struct _dpu_properties_property`, `_dpu_props` ↔ `Property`, `Properties`
    `lookup_for_property_called`                    ↔ `lookupForPropertyCalled`
    `add_properties`, `update_properties`           ↔ `addProperties`, `updateProperties`
    `dpu_properties_add`, `dpu_properties_get`      ↔ `dpuPropertiesAdd`, `dpuPropertiesGet`

  A string is the bytes in front of its final zero. Memory does not run out, so
  the branches for an allocation that fails are left out.
-/

namespace DpuBackend.Commons

abbrev Text := List UInt8

structure Property where
  name : Text
  value : Text
  used : Bool
  deriving DecidableEq

abbrev Properties := List Property

/-! ## The code -/

/-- The position of the first property with the name. -/
def lookupForPropertyCalled (properties : Properties) (name : Text) : Option Nat :=
  properties.findIdx? fun property => property.name == name

def addProperties (properties : Properties) (name value : Text) : Properties :=
  properties ++ [{ name := name, value := value, used := false }]

def updateProperties (properties : Properties) (property : Nat) (value : Text) : Properties :=
  properties.modify property fun p => { p with value := value }

def dpuPropertiesAdd (properties : Properties) (name value : Text) : Properties :=
  match lookupForPropertyCalled properties name with
  | some property => updateProperties properties property value
  | none => addProperties properties name value

/-- The properties, with the one that is found marked as used, and its value. -/
def dpuPropertiesGet (properties : Properties) (name : Text) : Properties × Option Text :=
  match lookupForPropertyCalled properties name with
  | some property =>
    (properties.modify property fun p => { p with used := true }, properties[property]?.map Property.value)
  | none => (properties, none)

/-! ## What a lookup finds -/

/-- The value that is looked up. -/
def Properties.value (properties : Properties) (name : Text) : Option Text := (dpuPropertiesGet properties name).2

def Properties.names (properties : Properties) : List Text := properties.map Property.name

theorem lookup_cases (properties : Properties) (name : Text) :
    (name ∉ properties.names ∧ lookupForPropertyCalled properties name = none) ∨
    ∃ before property after, properties = before ++ property :: after ∧ property.name = name ∧
      name ∉ Properties.names before ∧ lookupForPropertyCalled properties name = some before.length := by
  induction properties with
  | nil => exact .inl ⟨List.not_mem_nil, rfl⟩
  | cons property rest ih =>
    by_cases hname : property.name = name
    · refine .inr ⟨[], property, rest, rfl, hname, List.not_mem_nil, ?_⟩
      simp [lookupForPropertyCalled, List.findIdx?_cons, hname]
    · have hstep : lookupForPropertyCalled (property :: rest) name =
          (lookupForPropertyCalled rest name).map (· + 1) := by
        simp [lookupForPropertyCalled, List.findIdx?_cons, hname]
      have hne : name ≠ property.name := fun h => hname h.symm
      rw [hstep]
      obtain ⟨hnot, hnone⟩ | ⟨before, found, after, rfl, hfound, hbefore, hsome⟩ := ih
      · left
        rw [hnone]
        simp only [Properties.names, List.map_cons, List.mem_cons, not_or]
        exact ⟨⟨hne, hnot⟩, rfl⟩
      · right
        refine ⟨property :: before, found, after, rfl, hfound, ?_, by rw [hsome]; rfl⟩
        simp only [Properties.names, List.map_cons, List.mem_cons, not_or]
        exact ⟨hne, hbefore⟩

theorem find_name_none {properties : Properties} {name : Text} (h : name ∉ properties.names) :
    (properties.find? fun property => property.name == name) = none := by
  rw [List.find?_eq_none]
  intro property hin heq
  exact h (List.mem_map.2 ⟨property, hin, by simpa using heq⟩)

/-- The value of the first property with the name. -/
theorem value_eq_find (properties : Properties) (name : Text) :
    properties.value name = (properties.find? fun property => property.name == name).map Property.value := by
  obtain ⟨hnot, hnone⟩ | ⟨before, property, after, rfl, hname, hbefore, hsome⟩ := lookup_cases properties name
  · simp [Properties.value, dpuPropertiesGet, hnone, find_name_none hnot]
  · simp [Properties.value, dpuPropertiesGet, hsome, List.find?_append, find_name_none hbefore, hname]

/-! ## What an addition does -/

theorem modify_append_cons {α : Type} (before after : List α) (x : α) (f : α → α) :
    (before ++ x :: after).modify before.length f = before ++ f x :: after := by
  induction before with
  | nil => rfl
  | cons first before ih => simp [ih]

/-- The value of the first property with the name changes, or a property is appended. -/
theorem add_cases (properties : Properties) (name value : Text) :
    (name ∉ properties.names ∧ dpuPropertiesAdd properties name value = properties ++ [⟨name, value, false⟩]) ∨
    ∃ before property after, properties = before ++ property :: after ∧ property.name = name ∧
      name ∉ Properties.names before ∧
      dpuPropertiesAdd properties name value = before ++ { property with value := value } :: after := by
  obtain ⟨hnot, hnone⟩ | ⟨before, property, after, rfl, hname, hbefore, hsome⟩ := lookup_cases properties name
  · left
    simp [dpuPropertiesAdd, hnone, hnot, addProperties]
  · right
    refine ⟨before, property, after, rfl, hname, hbefore, ?_⟩
    simp [dpuPropertiesAdd, hsome, updateProperties, modify_append_cons]

theorem names_add (properties : Properties) (name value : Text) :
    (dpuPropertiesAdd properties name value).names =
      if name ∈ properties.names then properties.names else properties.names ++ [name] := by
  obtain ⟨hnot, hadd⟩ | ⟨before, property, after, rfl, hname, -, hadd⟩ := add_cases properties name value
  · rw [if_neg hnot, hadd]
    simp [Properties.names]
  · have hin : name ∈ Properties.names (before ++ property :: after) := by simp [Properties.names, hname]
    rw [if_pos hin, hadd]
    simp [Properties.names]

theorem nodup_add {properties : Properties} (h : properties.names.Nodup) (name value : Text) :
    (dpuPropertiesAdd properties name value).names.Nodup := by
  rw [names_add]
  split
  · exact h
  · next hnot =>
    rw [List.nodup_append]
    refine ⟨h, List.nodup_singleton name, fun x hx y hy heq => hnot ?_⟩
    rwa [← List.mem_singleton.1 hy, ← heq]

/-- The name has the new value, the others keep theirs. -/
theorem value_add (properties : Properties) (name value other : Text) :
    (dpuPropertiesAdd properties name value).value other =
      if name = other then some value else properties.value other := by
  rw [value_eq_find, value_eq_find]
  obtain ⟨hnot, hadd⟩ | ⟨before, property, after, rfl, hname, hbefore, hadd⟩ := add_cases properties name value
  · rw [hadd, List.find?_append]
    split
    · next heq => simp [← heq, find_name_none hnot]
    · next hne => simp [hne]
  · rw [hadd, List.find?_append, List.find?_append]
    split
    · next heq => simp [← heq, find_name_none hbefore, hname]
    · next hne => simp [hname, hne]

/-! ## One addition after another -/

/-- The additions of a list, the first one first. -/
def addAll (properties : Properties) (given : List (Text × Text)) : Properties :=
  given.foldl (fun properties pair => dpuPropertiesAdd properties pair.1 pair.2) properties

/-- The value given last to a name. -/
def lastValue (given : List (Text × Text)) (name : Text) : Option Text :=
  (given.reverse.find? fun pair => pair.1 == name).map Prod.snd

theorem lastValue_append (given more : List (Text × Text)) (name : Text) :
    lastValue (given ++ more) name = (lastValue more name).or (lastValue given name) := by
  rw [lastValue, List.reverse_append, List.find?_append, Option.map_or]
  rfl

theorem nodup_addAll {properties : Properties} (h : properties.names.Nodup) (given : List (Text × Text)) :
    (addAll properties given).names.Nodup := by
  induction given generalizing properties with
  | nil => exact h
  | cons pair given ih => exact ih (nodup_add h pair.1 pair.2)

theorem value_addAll (properties : Properties) (given : List (Text × Text)) (name : Text) :
    (addAll properties given).value name = (lastValue given name).or (properties.value name) := by
  induction given generalizing properties with
  | nil => rfl
  | cons pair given ih =>
    have hlast : lastValue (pair :: given) name = (lastValue given name).or (lastValue [pair] name) :=
      lastValue_append [pair] given name
    show (addAll (dpuPropertiesAdd properties pair.1 pair.2) given).value name = _
    rw [ih, value_add, hlast, Option.or_assoc]
    by_cases hname : pair.1 = name <;> simp [lastValue, hname]

end DpuBackend.Commons
