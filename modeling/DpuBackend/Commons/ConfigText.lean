import Mathlib.Data.List.DropRight
import DpuBackend.Commons.Profile

/-
  Configurations as lines of text, from a string and from a file.

  Both loaders hand their lines to `decode_properties_line`. The one for a file
  reads line after line and adds what they assign (`tryLoadPropertiesFrom_eq`).
  The one for a string looks for a newline once, in front of its loop: without
  one the loop is not entered, with one it is not left (`textLoop_none`).
  `loadsEveryLine_iff` says which texts it loads all the same.

  Correspondence (src/commons/src/properties/dpu_properties_loader.c ↔ Lean):
    `isprint`, `isspace` (in the "C" locale) ↔ `isprint`, `isspace`
    `trim_string`                            ↔ `trimString`
    `decode_properties_line`                 ↔ `decodePropertiesLine`
    `try_load_properties_from_text`          ↔ `tryLoadPropertiesFromText`, `textLoop`
    `dpu_properties_load_from_string`        ↔ `dpuPropertiesLoadFromString`
    `getline`, `try_load_properties_from`    ↔ `getline`, `tryLoadPropertiesFrom`

  A line fails only where memory runs out, which it does not here, so the status
  of the loops stays true and is left out.
-/

namespace DpuBackend.Commons

def newline : UInt8 := 0x0A

/-- `'/'`. -/
def slash : UInt8 := 0x2F

/-! ## The code -/

def isprint (c : UInt8) : Bool := 0x20 ≤ c && c ≤ 0x7E

def isspace (c : UInt8) : Bool := c == 0x20 || (0x09 ≤ c && c ≤ 0x0D)

/-- The loop over the end of the result, which does not come to its first character. -/
def trimEnd : Text → Text
  | [] => []
  | first :: rest => first :: rest.rdropWhile fun c => isspace c || !isprint c

def trimString (input : Text) : Text :=
  let start := input.dropWhile fun c => !(isprint c && !isspace c)
  trimEnd (start.filter isprint)

/-- The line after it, with the `=` overwritten, and the properties. -/
def decodePropertiesLine (line : Text) (properties : Properties) : Text × Properties :=
  let beginingOfLine := line.dropWhile fun c => isspace c || !isprint c
  if beginingOfLine = [] then (line, properties)
  else if beginingOfLine.take 2 = [slash, slash] then (line, properties)
  else
    match strchr beginingOfLine equalCharacter with
    | none => (line, properties)
    | some sep =>
      let propertyName := trimString (beginingOfLine.take sep)
      let propertyValue := trimString (beginingOfLine.drop (sep + 1))
      (line.set (line.length - beginingOfLine.length + sep) 0,
        if propertyName ≠ [] ∧ propertyValue ≠ [] then dpuPropertiesAdd properties propertyName propertyValue
        else properties)

/-- The string at a place of a buffer. -/
def stringAt (buffer : Text) (place : Nat) : Text := (buffer.drop place).takeWhile (· ≠ 0)

/-- `decode_properties_line` on the string at a place. -/
def decodeAt (buffer : Text) (place : Nat) (properties : Properties) : Text × Properties :=
  let (line, properties) := decodePropertiesLine (stringAt buffer place) properties
  (buffer.take place ++ line ++ buffer.drop (place + line.length), properties)

/-- The loop, for `fuel` rounds at most. -/
def textLoop (sep : Option Nat) : Nat → Nat → Text → Properties → Option Properties
  | 0, _, _, _ => none
  | fuel + 1, next, buffer, properties =>
    match sep with
    | none => some properties
    | some place =>
      let (buffer, properties) := decodeAt (buffer.set place 0) next properties
      -- `sep` stays what it is
      textLoop sep fuel (place + 1) buffer properties

def tryLoadPropertiesFromText (fuel : Nat) (text : Text) (properties : Properties) : Option Properties :=
  textLoop (strchr text newline) fuel 0 (text ++ [0]) properties

/-- `none` while it has not returned. -/
def dpuPropertiesLoadFromString (fuel : Nat) (config : Option Text) : Option Properties :=
  match config with
  | none => some []
  | some text => tryLoadPropertiesFromText fuel text []

/-- A line with its newline, and what follows. -/
def getline (file : Text) : Option (Text × Text) :=
  if file = [] then none
  else
    let rest := file.dropWhile (· ≠ newline)
    some (file.takeWhile (· ≠ newline) ++ rest.take 1, rest.drop 1)

/-- A file is empty, has a last line without a newline, or a line with one. -/
theorem getline_cases (file : Text) :
    (file = [] ∧ getline file = none) ∨
    (file ≠ [] ∧ newline ∉ file ∧ getline file = some (file, [])) ∨
    ∃ line rest, newline ∉ line ∧ file = line ++ newline :: rest ∧ getline file = some (line ++ [newline], rest) := by
  by_cases hempty : file = []
  · exact .inl ⟨hempty, if_pos hempty⟩
  right
  have hsplit := List.takeWhile_append_dropWhile (p := fun c => decide (c ≠ newline)) (l := file)
  have hline : newline ∉ file.takeWhile (· ≠ newline) := fun h => by simpa using List.mem_takeWhile_imp h
  cases hrest : file.dropWhile (· ≠ newline) with
  | nil =>
    rw [hrest, List.append_nil] at hsplit
    rw [hsplit] at hline
    refine .inl ⟨hempty, hline, ?_⟩
    rw [getline, if_neg hempty, hrest, hsplit]
    simp
  | cons c rest =>
    have hhead := List.head?_dropWhile_not (fun c => decide (c ≠ newline)) file
    rw [hrest] at hhead hsplit
    obtain rfl : c = newline := by simpa using hhead
    refine .inr ⟨_, rest, hline, hsplit.symm, ?_⟩
    rw [getline, if_neg hempty, hrest]
    rfl

theorem getline_lt {file line rest : Text} (h : getline file = some (line, rest)) : rest.length < file.length := by
  obtain ⟨-, hnone⟩ | ⟨hne, -, hlast⟩ | ⟨first, others, -, rfl, hsome⟩ := getline_cases file
  · rw [hnone] at h
    cases h
  · rw [hlast] at h
    cases h
    exact List.length_pos_iff.2 hne
  · rw [hsome] at h
    cases h
    rw [List.length_append, List.length_cons]
    omega

/-- With the content of the file. -/
def tryLoadPropertiesFrom (file : Text) (properties : Properties) : Properties :=
  match _h : getline file with
  | none => properties
  | some (line, rest) => tryLoadPropertiesFrom rest (decodePropertiesLine line properties).2
termination_by file.length
decreasing_by exact getline_lt _h

/-! ## What the lines assign -/

/-- A text without what is not printable, and without blanks at its ends. -/
def trimmed (text : Text) : Text := ((text.filter isprint).dropWhile isspace).rdropWhile isspace

/-- The name and the value of a line that assigns one. -/
def assignment (line : Text) : Option (Text × Text) :=
  let begun := line.dropWhile fun c => isspace c || !isprint c
  let name := trimmed (splitItem begun).1
  let value := trimmed (splitItem begun).2
  if begun.take 2 ≠ [slash, slash] ∧ equalCharacter ∈ begun ∧ name ≠ [] ∧ value ≠ [] then some (name, value) else none

/-- The assignments of the lines of a text, in order. -/
def assignments (text : Text) : List (Text × Text) := (text.splitOn newline).filterMap assignment

/-- The string is loaded: the last assignment to a name counts, and a file with the same content gives the same. -/
def LoadsEveryLine (text : Text) : Prop :=
  ∃ fuel properties, dpuPropertiesLoadFromString fuel (some text) = some properties ∧
    (∀ name, properties.value name = lastValue (assignments text) name) ∧
    tryLoadPropertiesFrom text [] = properties

/-! ## Trimming -/

/-- Blanks and what is not printable are dropped in front, then what is not printable; or the other way round. -/
theorem filter_dropWhile (input : Text) :
    (input.dropWhile fun c => !(isprint c && !isspace c)).filter isprint = (input.filter isprint).dropWhile isspace := by
  induction input with
  | nil => rfl
  | cons c input ih =>
    cases hprint : isprint c with
    | false => simpa [hprint] using ih
    | true =>
      cases hspace : isspace c with
      | false => simp [hprint, hspace]
      | true => simpa [hprint, hspace] using ih

theorem dropWhile_congr {p q : UInt8 → Bool} {text : Text} (h : ∀ c ∈ text, p c = q c) :
    text.dropWhile p = text.dropWhile q := by
  induction text with
  | nil => rfl
  | cons c text ih =>
    rw [List.dropWhile_cons, List.dropWhile_cons, h c List.mem_cons_self,
      ih fun c hc => h c (List.mem_cons_of_mem _ hc)]

theorem rdropWhile_cons {p : UInt8 → Bool} {first : UInt8} (h : p first = false) (rest : Text) :
    (first :: rest).rdropWhile p = first :: rest.rdropWhile p := by
  simp only [List.rdropWhile, List.reverse_cons, List.dropWhile_append]
  cases hrest : (rest.reverse.dropWhile p).isEmpty with
  | true => simp_all
  | false => simp

/-- The first character is not blank and all are printable, so it makes no difference that the loop leaves the first
alone. -/
theorem trimEnd_eq {text : Text} (hprint : ∀ c ∈ text, isprint c = true)
    (hfirst : ∀ first rest, text = first :: rest → isspace first = false) : trimEnd text = text.rdropWhile isspace := by
  cases text with
  | nil => rfl
  | cons first rest =>
    rw [rdropWhile_cons (hfirst first rest rfl), trimEnd, List.rdropWhile, List.rdropWhile]
    have hsame : rest.reverse.dropWhile (fun c => isspace c || !isprint c) = rest.reverse.dropWhile isspace := by
      apply dropWhile_congr
      intro c hc
      simp [hprint c (List.mem_cons_of_mem _ (List.mem_reverse.1 hc))]
    rw [hsame]

theorem trimString_eq (input : Text) : trimString input = trimmed input := by
  rw [trimString, trimmed, filter_dropWhile]
  apply trimEnd_eq
  · intro c hc
    exact (List.mem_filter.1 ((List.dropWhile_suffix _).subset hc)).2
  · intro first rest h
    have hhead := List.head?_dropWhile_not isspace (input.filter isprint)
    rw [h] at hhead
    simpa using hhead

theorem trimmed_newline (text : Text) : trimmed (text ++ [newline]) = trimmed text := by
  have hnl : isprint newline = false := by decide
  simp [trimmed, hnl]

/-! ## One line -/

theorem decodePropertiesLine_eq (line : Text) (properties : Properties) :
    (decodePropertiesLine line properties).2 = addAll properties (assignment line).toList := by
  unfold decodePropertiesLine assignment
  generalize (line.dropWhile fun c => isspace c || !isprint c) = begun
  by_cases hempty : begun = []
  · simp [hempty, addAll]
  by_cases hcomment : begun.take 2 = [slash, slash]
  · simp [hcomment, addAll]
  by_cases hequal : equalCharacter ∈ begun
  · obtain ⟨sep, hsome, hsplit⟩ := strchr_splitItem hequal
    simp only [if_neg hempty, if_neg hcomment, hsome, trimString_eq, ← hsplit]
    by_cases hassigns : trimmed (begun.take sep) ≠ [] ∧ trimmed (begun.drop (sep + 1)) ≠ []
    · rw [if_pos hassigns, if_pos ⟨hcomment, hequal, hassigns⟩]
      rfl
    · rw [if_neg hassigns, if_neg fun h => hassigns h.2.2]
      rfl
  · have hnone : strchr begun equalCharacter = none := by
      rw [strchr, List.findIdx?_eq_none_iff]
      intro c hc
      exact beq_eq_false_iff_ne.2 fun heq => hequal (heq ▸ hc)
    simp [hempty, hcomment, hequal, hnone, addAll]

theorem splitItem_append {item : Text} (h : equalCharacter ∈ item) (more : Text) :
    splitItem (item ++ more) = ((splitItem item).1, (splitItem item).2 ++ more) := by
  induction item with
  | nil => cases h
  | cons first item ih =>
    by_cases hfirst : first = equalCharacter
    · simp [splitItem, hfirst]
    · rw [List.mem_cons] at h
      have ih := ih (h.resolve_left fun heq => hfirst heq.symm)
      simp only [splitItem, Prod.mk.injEq] at ih
      simpa [splitItem, hfirst] using ih

/-- The newline of a line plays no role. -/
theorem assignment_newline (line : Text) : assignment (line ++ [newline]) = assignment line := by
  have hblank : (isspace newline || !isprint newline) = true := by decide
  unfold assignment
  cases hbegun : line.dropWhile fun c => isspace c || !isprint c with
  | nil =>
    have hbegun' : ((line ++ [newline]).dropWhile fun c => isspace c || !isprint c) = [] := by
      simp [List.dropWhile_append, hbegun, hblank]
    rw [hbegun']
  | cons first rest =>
    have hbegun' : ((line ++ [newline]).dropWhile fun c => isspace c || !isprint c) = (first :: rest) ++ [newline] := by
      simp [List.dropWhile_append, hbegun]
    have hcomment : ((first :: rest) ++ [newline]).take 2 = [slash, slash] ↔ (first :: rest).take 2 = [slash, slash] := by
      cases rest with
      | nil => simp [newline, slash]
      | cons second rest => simp
    have hequal : equalCharacter ∈ (first :: rest) ++ [newline] ↔ equalCharacter ∈ first :: rest := by
      simp [equalCharacter, newline]
    rw [hbegun']
    by_cases hin : equalCharacter ∈ first :: rest
    · simp only [ne_eq, hcomment, hequal, splitItem_append hin, trimmed_newline]
    · simp only [hequal, hin, false_and, and_false, if_false]

/-! ## Loading a file -/

theorem filterMap_assignment_cons (line : Text) (lines : List Text) (properties : Properties) :
    addAll properties ((line :: lines).filterMap assignment) =
      addAll (addAll properties (assignment line).toList) (lines.filterMap assignment) := by
  cases h : assignment line <;> simp [h, addAll]

/-- A file gives what its lines assign. -/
theorem tryLoadPropertiesFrom_eq (file : Text) (properties : Properties) :
    tryLoadPropertiesFrom file properties = addAll properties (assignments file) := by
  fun_induction tryLoadPropertiesFrom file properties with
  | case1 file properties hnone =>
    obtain ⟨rfl, -⟩ | ⟨-, -, hlast⟩ | ⟨first, others, -, -, hsome⟩ := getline_cases file
    · rfl
    · rw [hnone] at hlast
      cases hlast
    · rw [hnone] at hsome
      cases hsome
  | case2 file properties line rest hline ih =>
    rw [ih, decodePropertiesLine_eq]
    obtain ⟨-, hnone⟩ | ⟨-, hnot, hlast⟩ | ⟨first, others, hfirst, rfl, hsome⟩ := getline_cases file
    · rw [hnone] at hline
      cases hline
    · rw [hlast] at hline
      cases hline
      rw [assignments, assignments, List.splitOn_eq_singleton hnot, filterMap_assignment_cons]
      rfl
    · rw [hsome] at hline
      cases hline
      rw [assignment_newline, assignments, assignments, List.splitOn_append_cons_self_of_not_mem hfirst,
        filterMap_assignment_cons]

/-! ## Loading a string -/

/-- The loop is not left. -/
theorem textLoop_none (place fuel next : Nat) (buffer : Text) (properties : Properties) :
    textLoop (some place) fuel next buffer properties = none := by
  induction fuel generalizing next buffer properties with
  | zero => rfl
  | succ fuel ih => exact ih _ _ _

/-- A string is loaded as it should be exactly if it has no newline and assigns nothing. -/
theorem loadsEveryLine_iff (text : Text) : LoadsEveryLine text ↔ newline ∉ text ∧ assignment text = none := by
  by_cases hnewline : newline ∈ text
  · refine iff_of_false ?_ fun h => h.1 hnewline
    intro h
    obtain ⟨fuel, properties, hreturns, -⟩ := h
    have hsome : (strchr text newline).isSome := by
      rw [strchr, List.findIdx?_isSome, List.any_eq_true]
      exact ⟨newline, hnewline, by simp⟩
    obtain ⟨place, hplace⟩ := Option.isSome_iff_exists.1 hsome
    rw [dpuPropertiesLoadFromString, tryLoadPropertiesFromText, hplace, textLoop_none] at hreturns
    cases hreturns
  · have hnone : strchr text newline = none := by
      rw [strchr, List.findIdx?_eq_none_iff]
      intro c hc
      exact beq_eq_false_iff_ne.2 fun heq => hnewline (heq ▸ hc)
    have hassigns : assignments text = (assignment text).toList := by
      rw [assignments, List.splitOn_eq_singleton hnewline]
      cases h : assignment text <;> simp [h]
    have hreturns : ∀ fuel properties, dpuPropertiesLoadFromString fuel (some text) = some properties → properties = [] := by
      intro fuel properties h
      rw [dpuPropertiesLoadFromString, tryLoadPropertiesFromText, hnone] at h
      cases fuel with
      | zero => cases h
      | succ fuel => exact (Option.some.inj h).symm
    constructor
    · intro h
      obtain ⟨fuel, properties, hrun, hvalue, -⟩ := h
      refine ⟨hnewline, ?_⟩
      -- nothing is loaded, so nothing is assigned
      cases hpair : assignment text with
      | none => rfl
      | some pair =>
        have hlast := hvalue pair.1
        rw [hreturns fuel properties hrun, hassigns, hpair] at hlast
        simp [lastValue, Properties.value, dpuPropertiesGet, lookupForPropertyCalled] at hlast
    · intro h
      refine ⟨1, [], ?_, ?_, ?_⟩
      · rw [dpuPropertiesLoadFromString, tryLoadPropertiesFromText, hnone]
        rfl
      · intro name
        rw [hassigns, h.2]
        rfl
      · rw [tryLoadPropertiesFrom_eq, hassigns, h.2]
        rfl

/-- `a=1` and a newline: the loop goes on for ever. -/
theorem one_line_never_loaded :
    ¬ LoadsEveryLine [97, 61, 49, 10] ∧
      ∀ fuel, dpuPropertiesLoadFromString fuel (some [97, 61, 49, 10]) = none := by
  have hruns : ∀ fuel, dpuPropertiesLoadFromString fuel (some [97, 61, 49, 10]) = none := by
    intro fuel
    exact textLoop_none 3 fuel 0 _ []
  refine ⟨fun h => ?_, hruns⟩
  obtain ⟨fuel, properties, hreturns, -⟩ := h
  rw [hruns] at hreturns
  cases hreturns

end DpuBackend.Commons
