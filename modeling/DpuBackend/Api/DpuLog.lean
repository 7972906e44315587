import Mathlib.Data.List.Basic

/-
  Decoding the log of a DPU (`dpu_log.c`).

  Correspondence (C ↔ Lean):
    `dpulog_reader_t`                        ↔ the bytes left and the formats, passed along
    `parse_format_section`                   ↔ `parseFormatSection`, `parseFormats`
    `parse_and_print_argument_section`       ↔ `parseAndPrintArgumentSection`, `argumentOf`
    `dpulog_read_and_display_contents_of`    ↔ `dpulogReadAndDisplayContentsOf`

  The reader is given by the bytes from `buffer` to `buffer_end`: none of them
  are left as well when `buffer` has gone past the end. A read of a byte that is
  not there is a fault, and so is a store behind the formats or behind one of
  them. The print function returns a status and does nothing else; which one is
  a function of how often it has been called, the format and the argument.

  `Readable` is the grammar of the logs that are decoded without a fault:
  messages that are complete up to where the decoding ends.
-/

namespace DpuBackend.Api

/-- `MAX_FMT_ARGS`. -/
def maxFmtArgs : Nat := 64

/-- The characters that fit in a `format_t` before its terminator. -/
def maxFmtChars : Nat := 15

def percent : UInt8 := 0x25

/-- The characters of a `format_t`. -/
abbrev Format := List UInt8

/-- What a decoding must not do. -/
inductive LogFault where
  | read
  | formats
  | format
  deriving DecidableEq

/-- What the print function is given beside the format. -/
inductive LogArgument where
  | string (buffer : List UInt8)
  | value (bytes : List UInt8)
  | bit (b : Bool)
  | format (fmt : Format)
  deriving DecidableEq

/-- `dpu_log_print_fct_t`: `none` is `DPU_OK`. -/
abbrev PrintFct := Nat → Format → LogArgument → Option Nat

inductive LogError where
  | logFormat
  | print (status : Nat)
  deriving DecidableEq

inductive ParseFormatSectionRet where
  | success (buffer : List UInt8) (formats : List Format)
  | error
  | endOfBuffer

/-! ## The code -/

/-- The loop over the format section. The formats so far come last first, the first of them being `format`. -/
def parseFormats : List UInt8 → List Format → Except LogFault ParseFormatSectionRet
  -- the byte is read before `str` is compared with `buffer_end`
  | [], _ => .error .read
  | c :: str, formats =>
    if c = 0 then .ok (.success str formats.reverse)
    else if c ≠ percent then
      match formats with
      | [] => .ok .error
      | format :: before =>
        if format.length < maxFmtChars then parseFormats str ((format ++ [c]) :: before) else .error .format
    else if formats.length < maxFmtArgs then parseFormats str ([percent] :: formats)
    else .error .formats

def parseFormatSection (buffer : List UInt8) : Except LogFault ParseFormatSectionRet :=
  match buffer.dropWhile (· ≠ percent) with
  | [] => .ok .endOfBuffer
  | c :: str => parseFormats (c :: str) []

/-- How a format takes its argument from the buffer. -/
inductive ArgumentKind where
  | string
  | value (size : Nat) (shown : List UInt8 → List (Format × LogArgument))
  | unsupported

/-- `'%'`, `'u'`. -/
def formatUnsigned : Format := [0x25, 0x75]

/-- The switch over the last character. -/
def argumentOf (fmt : Format) : ArgumentKind :=
  let last := fmt.getLastD 0
  if last = 0x73 then .string -- 's'
  else if last = 0x63 then .value 1 fun bytes => [(fmt, .value bytes)] -- 'c'
  else if last = 0x62 then -- 'b'
    .value 4 fun bytes => (List.range 32).map fun bit =>
      (formatUnsigned, .bit ((bytes.getD (bit / 8) 0).toNat.testBit (bit % 8)))
  else if last ∈ [0x64, 0x69, 0x78, 0x58, 0x6F, 0x70, 0x75] then -- 'd', 'i', 'x', 'X', 'o', 'p', 'u'
    .value (if 0x6C ∈ fmt.dropLast then 8 else 4) fun bytes => [(fmt, .value bytes)]
  else if last ∈ [0x65, 0x45, 0x66] then .value 8 fun bytes => [(fmt, .value bytes)] -- 'e', 'E', 'f'
  else .unsupported

/-- Calls of the print function, up to the first that fails: the number of calls so far. -/
def printAll (print : PrintFct) : List (Format × LogArgument) → Nat → Except LogError Nat
  | [], calls => .ok calls
  | (fmt, arg) :: more, calls =>
    match print calls fmt arg with
    | some status => .error (.print status)
    | none => printAll print more (calls + 1)

/-- One round of the loop over the formats: the buffer behind the argument. -/
def parseAndPrintArgument (print : PrintFct) (fmt : Format) (buffer : List UInt8) (calls : Nat) :
    Except LogFault (Except LogError (List UInt8 × Nat)) :=
  match argumentOf fmt with
  | .string =>
    match printAll print [(fmt, .string buffer)] calls with
    | .error e => .ok (.error e)
    | .ok calls =>
      match buffer.dropWhile (· ≠ 0) with
      | [] => .error .read
      | _ :: buffer => .ok (.ok (buffer, calls))
  | .value size shown =>
    if buffer.length < size then .error .read
    else
      match printAll print (shown (buffer.take size)) calls with
      | .error e => .ok (.error e)
      | .ok calls => .ok (.ok (buffer.drop size, calls))
  | .unsupported =>
    match printAll print [([0x25, 0x73], .format fmt)] calls with
    | .error e => .ok (.error e)
    -- nothing is read, the buffer moves on by an `int`
    | .ok calls => .ok (.ok (buffer.drop 4, calls))

def parseAndPrintArgumentSection (print : PrintFct) :
    List Format → List UInt8 → Nat → Except LogFault (Except LogError (List UInt8 × Nat))
  | [], buffer, calls => .ok (.ok (buffer, calls))
  | fmt :: formats, buffer, calls =>
    match parseAndPrintArgument print fmt buffer calls with
    | .error fault => .error fault
    | .ok (.error e) => .ok (.error e)
    | .ok (.ok (buffer, calls)) => parseAndPrintArgumentSection print formats buffer calls

/-- How a decoding ends, if it does. -/
inductive LogOutcome where
  | running
  | fault (f : LogFault)
  | returned (status : Option LogError)
  deriving DecidableEq

/-- The loop over the messages. -/
def displayMessages (print : PrintFct) : Nat → List UInt8 → Nat → LogOutcome
  | 0, _, _ => .running
  | fuel + 1, buffer, calls =>
    match parseFormatSection buffer with
    | .error f => .fault f
    | .ok .error => .returned (some .logFormat)
    | .ok .endOfBuffer => .returned none
    | .ok (.success buffer formats) =>
      match parseAndPrintArgumentSection print formats buffer calls with
      | .error f => .fault f
      | .ok (.error e) => .returned (some e)
      | .ok (.ok (buffer, calls)) => displayMessages print fuel buffer calls

def dpulogReadAndDisplayContentsOf (print : PrintFct) (input : List UInt8) : LogOutcome :=
  displayMessages print (input.length + 1) input 0

/-- The decoding ends, and without a fault. -/
def SafeDecoding (print : PrintFct) (input : List UInt8) : Prop :=
  ∃ status, dpulogReadAndDisplayContentsOf print input = .returned status

/-! ## The logs that can be read -/

/-- The characters before the first `%`, and the formats from there on. -/
def splitFormats : List UInt8 → List UInt8 × List Format
  | [] => ([], [])
  | c :: str =>
    if c = percent then ([], (c :: (splitFormats str).1) :: (splitFormats str).2)
    else (c :: (splitFormats str).1, (splitFormats str).2)

/-- The section has few formats and they are short. -/
structure FormatsFit (formats : List Format) : Prop where
  few : formats.length ≤ maxFmtArgs
  short : ∀ format ∈ formats, format.length ≤ maxFmtChars

/-- The argument of a format lies in the buffer, and what is behind it; `none` if the print function fails. -/
inductive ArgumentFits (print : PrintFct) (fmt : Format) :
    List UInt8 → Nat → Option (List UInt8 × Nat) → Prop where
  | string {text buffer : List UInt8} {calls calls' : Nat} : argumentOf fmt = .string →
      printAll print [(fmt, .string (text ++ 0 :: buffer))] calls = .ok calls' → 0 ∉ text →
      ArgumentFits print fmt (text ++ 0 :: buffer) calls (some (buffer, calls'))
  | stringStops {buffer : List UInt8} {calls : Nat} {e : LogError} : argumentOf fmt = .string →
      printAll print [(fmt, .string buffer)] calls = .error e → ArgumentFits print fmt buffer calls none
  | value {size : Nat} {shown : List UInt8 → List (Format × LogArgument)} {bytes buffer : List UInt8}
      {calls calls' : Nat} : argumentOf fmt = .value size shown → bytes.length = size →
      printAll print (shown bytes) calls = .ok calls' →
      ArgumentFits print fmt (bytes ++ buffer) calls (some (buffer, calls'))
  | valueStops {size : Nat} {shown : List UInt8 → List (Format × LogArgument)} {bytes buffer : List UInt8}
      {calls : Nat} {e : LogError} : argumentOf fmt = .value size shown → bytes.length = size →
      printAll print (shown bytes) calls = .error e → ArgumentFits print fmt (bytes ++ buffer) calls none
  | unsupported {buffer : List UInt8} {calls calls' : Nat} : argumentOf fmt = .unsupported →
      printAll print [([0x25, 0x73], .format fmt)] calls = .ok calls' →
      ArgumentFits print fmt buffer calls (some (buffer.drop 4, calls'))
  | unsupportedStops {buffer : List UInt8} {calls : Nat} {e : LogError} : argumentOf fmt = .unsupported →
      printAll print [([0x25, 0x73], .format fmt)] calls = .error e → ArgumentFits print fmt buffer calls none

/-- The arguments of all formats, one behind the other. -/
inductive ArgumentsFit (print : PrintFct) : List Format → List UInt8 → Nat → Option (List UInt8 × Nat) → Prop where
  | none {buffer : List UInt8} {calls : Nat} : ArgumentsFit print [] buffer calls (some (buffer, calls))
  | stops {fmt : Format} {formats : List Format} {buffer : List UInt8} {calls : Nat} :
      ArgumentFits print fmt buffer calls none → ArgumentsFit print (fmt :: formats) buffer calls none
  | cons {fmt : Format} {formats : List Format} {buffer buffer' : List UInt8} {calls calls' : Nat}
      {rest : Option (List UInt8 × Nat)} : ArgumentFits print fmt buffer calls (some (buffer', calls')) →
      ArgumentsFit print formats buffer' calls' rest → ArgumentsFit print (fmt :: formats) buffer calls rest

/-- The buffer holds messages that are complete as far as they are read: a format section with a terminator, not
too many and not too long formats, and behind it the arguments. -/
inductive Readable (print : PrintFct) : List UInt8 → Nat → Prop where
  | done {buffer : List UInt8} {calls : Nat} : percent ∉ buffer → Readable print buffer calls
  | stops {junk section' buffer : List UInt8} {calls : Nat} : percent ∉ junk → 0 ∉ section' →
      FormatsFit (splitFormats (percent :: section')).2 →
      ArgumentsFit print (splitFormats (percent :: section')).2 buffer calls none →
      Readable print (junk ++ percent :: section' ++ 0 :: buffer) calls
  | message {junk section' buffer buffer' : List UInt8} {calls calls' : Nat} : percent ∉ junk → 0 ∉ section' →
      FormatsFit (splitFormats (percent :: section')).2 →
      ArgumentsFit print (splitFormats (percent :: section')).2 buffer calls (some (buffer', calls')) →
      Readable print buffer' calls' → Readable print (junk ++ percent :: section' ++ 0 :: buffer) calls

/-! ## The format section -/

theorem percent_ne_zero : percent ≠ 0 := by decide

theorem splitFormats_percent (str : List UInt8) :
    splitFormats (percent :: str) = ([], (percent :: (splitFormats str).1) :: (splitFormats str).2) := by
  rw [splitFormats, if_pos rfl]

theorem splitFormats_other {c : UInt8} (hc : c ≠ percent) (str : List UInt8) :
    splitFormats (c :: str) = (c :: (splitFormats str).1, (splitFormats str).2) := by
  rw [splitFormats, if_neg hc]

/-- The formats of a section of which some have been stored: `format` is the one that grows. -/
def storedFormats (before : List Format) (format : Format) (section' : List UInt8) : List Format :=
  before.reverse ++ (format ++ (splitFormats section').1) :: (splitFormats section').2

theorem storedFormats_nil (before : List Format) (format : Format) :
    storedFormats before format [] = (format :: before).reverse := by
  rw [storedFormats, splitFormats, List.append_nil, List.reverse_cons]

theorem storedFormats_percent (before : List Format) (format : Format) (str : List UInt8) :
    storedFormats before format (percent :: str) = storedFormats (format :: before) [percent] str := by
  rw [storedFormats, storedFormats, splitFormats_percent, List.reverse_cons, List.append_nil, List.append_assoc]
  rfl

theorem storedFormats_other {c : UInt8} (hc : c ≠ percent) (before : List Format) (format : Format) (str : List UInt8) :
    storedFormats before format (c :: str) = storedFormats before (format ++ [c]) str := by
  rw [storedFormats, storedFormats, splitFormats_other hc, List.append_assoc]
  rfl

/-- A loop that ends without a fault has found the terminator, and the formats fit. -/
theorem parseFormats_ok {str : List UInt8} {format : Format} {before : List Format} {ret : ParseFormatSectionRet}
    (hfit : FormatsFit (format :: before)) (h : parseFormats str (format :: before) = .ok ret) :
    ∃ section' rest, str = section' ++ 0 :: rest ∧ 0 ∉ section' ∧ FormatsFit (storedFormats before format section') ∧
      ret = .success rest (storedFormats before format section') := by
  induction str generalizing format before with
  | nil => cases h
  | cons c str ih =>
    rw [parseFormats] at h
    by_cases hzero : c = 0
    · rw [if_pos hzero] at h
      obtain rfl := Except.ok.inj h
      refine ⟨[], str, by rw [hzero]; rfl, nofun, ?_, by rw [storedFormats_nil]⟩
      rw [storedFormats_nil]
      exact ⟨by rw [List.length_reverse]; exact hfit.few, fun f hf => hfit.short f (List.mem_reverse.1 hf)⟩
    · rw [if_neg hzero] at h
      by_cases hpercent : c = percent
      · rw [if_neg (not_not_intro hpercent)] at h
        split at h
        · next hfew =>
          have hnew : FormatsFit ([percent] :: format :: before) := by
            refine ⟨hfew, fun f hf => ?_⟩
            rcases List.mem_cons.1 hf with rfl | hf
            · decide
            · exact hfit.short f hf
          obtain ⟨section', rest, rfl, hnul, hall, rfl⟩ := ih hnew h
          rw [hpercent]
          refine ⟨percent :: section', rest, rfl, ?_, ?_, ?_⟩
          · rw [List.mem_cons]
            exact fun hmem => hmem.elim (fun heq => percent_ne_zero heq.symm) hnul
          · rwa [storedFormats_percent]
          · rw [storedFormats_percent]
        · cases h
      · rw [if_pos hpercent] at h
        split at h
        · next hshort =>
          have hnew : FormatsFit ((format ++ [c]) :: before) := by
            refine ⟨hfit.few, fun f hf => ?_⟩
            rcases List.mem_cons.1 hf with rfl | hf
            · rw [List.length_append]
              exact hshort
            · exact hfit.short f (List.mem_cons_of_mem _ hf)
          obtain ⟨section', rest, rfl, hnul, hall, rfl⟩ := ih hnew h
          refine ⟨c :: section', rest, rfl, ?_, ?_, ?_⟩
          · rw [List.mem_cons]
            exact fun hmem => hmem.elim (fun heq => hzero heq.symm) hnul
          · rwa [storedFormats_other hpercent]
          · rw [storedFormats_other hpercent]
        · cases h

/-- With a terminator and formats that fit the loop ends there. -/
theorem parseFormats_success {section' : List UInt8} (rest : List UInt8) {format : Format} {before : List Format}
    (hnul : 0 ∉ section') (hfit : FormatsFit (storedFormats before format section')) :
    parseFormats (section' ++ 0 :: rest) (format :: before) =
      .ok (.success rest (storedFormats before format section')) := by
  induction section' generalizing format before with
  | nil =>
    rw [List.nil_append, parseFormats, if_pos rfl, storedFormats_nil]
  | cons c section' ih =>
    have hzero : c ≠ 0 := fun h => hnul (h ▸ List.mem_cons_self ..)
    have hrest : 0 ∉ section' := fun h => hnul (List.mem_cons_of_mem _ h)
    rw [List.cons_append, parseFormats, if_neg hzero]
    by_cases hpercent : c = percent
    · rw [hpercent, storedFormats_percent] at hfit ⊢
      have hfew : (format :: before).length < maxFmtArgs := by
        have hlength := hfit.few
        simp only [storedFormats, List.length_append, List.length_reverse, List.length_cons] at hlength ⊢
        omega
      rw [if_neg (not_not_intro rfl), if_pos hfew]
      exact ih hrest hfit
    · rw [storedFormats_other hpercent] at hfit ⊢
      have hshort : format.length < maxFmtChars := by
        have hlength := hfit.short _ (List.mem_append_right _ (List.mem_cons_self ..))
        rw [List.length_append, List.length_append] at hlength
        exact Nat.lt_of_lt_of_le (Nat.lt_succ_self _) (Nat.le_trans (Nat.le_add_right _ _) hlength)
      rw [if_pos hpercent, if_pos hshort]
      exact ih hrest hfit

theorem storedFormats_start (section' : List UInt8) :
    storedFormats [] [percent] section' = (splitFormats (percent :: section')).2 := by
  rw [splitFormats_percent]
  rfl

theorem formatsFit_start : FormatsFit [[percent]] := ⟨by decide, by decide⟩

theorem parseFormatSection_none {buffer : List UInt8} (h : percent ∉ buffer) :
    parseFormatSection buffer = .ok .endOfBuffer := by
  have hnil : buffer.dropWhile (· ≠ percent) = [] := by
    rw [← List.append_nil buffer, List.dropWhile_append_of_pos]
    · rfl
    · intro c hc
      rw [decide_eq_true_iff]
      exact fun heq => h (heq ▸ hc)
  rw [parseFormatSection, hnil]

theorem parseFormatSection_some {junk : List UInt8} (str : List UInt8) (h : percent ∉ junk) :
    parseFormatSection (junk ++ percent :: str) = parseFormats str [[percent]] := by
  have hdrop : (junk ++ percent :: str).dropWhile (· ≠ percent) = percent :: str := by
    rw [List.dropWhile_append_of_pos, List.dropWhile_cons_of_neg]
    · simp
    · intro c hc
      rw [decide_eq_true_iff]
      exact fun heq => h (heq ▸ hc)
  rw [parseFormatSection, hdrop]
  dsimp only
  rw [parseFormats, if_neg percent_ne_zero, if_neg (not_not_intro rfl), if_pos (by decide)]

theorem exists_percent {buffer : List UInt8} (h : percent ∈ buffer) :
    ∃ junk str, percent ∉ junk ∧ buffer = junk ++ percent :: str := by
  obtain ⟨junk, str, heq, hjunk⟩ := List.eq_append_cons_of_mem h
  exact ⟨junk, str, hjunk, heq⟩

/-! ## The arguments -/

/-- What is left after the text of a string. -/
theorem dropWhile_text {text : List UInt8} (buffer : List UInt8) (h : 0 ∉ text) :
    (text ++ 0 :: buffer).dropWhile (· ≠ 0) = 0 :: buffer := by
  rw [List.dropWhile_append_of_pos]
  · rfl
  · intro c hc
    rw [decide_eq_true_iff]
    exact fun heq => h (heq ▸ hc)

theorem argumentFits_iff {print : PrintFct} {fmt : Format} {buffer : List UInt8} {calls : Nat}
    {rest : Option (List UInt8 × Nat)} :
    ArgumentFits print fmt buffer calls rest ↔
      ∃ out, parseAndPrintArgument print fmt buffer calls = .ok out ∧ out.toOption = rest := by
  constructor
  · intro h
    unfold parseAndPrintArgument
    cases h with
    | string hkind hprint hnul => exact ⟨_, by rw [hkind]; dsimp only; rw [hprint, dropWhile_text _ hnul], rfl⟩
    | stringStops hkind hprint => exact ⟨_, by rw [hkind]; dsimp only; rw [hprint], rfl⟩
    | @value _ _ bytes buffer _ _ hkind hlength hprint =>
      have hle : ¬ (bytes ++ buffer).length < bytes.length := by
        rw [List.length_append]
        omega
      subst hlength
      exact ⟨_, by rw [hkind]; dsimp only; rw [if_neg hle, List.take_left, hprint, List.drop_left], rfl⟩
    | @valueStops _ _ bytes buffer _ _ hkind hlength hprint =>
      have hle : ¬ (bytes ++ buffer).length < bytes.length := by
        rw [List.length_append]
        omega
      subst hlength
      exact ⟨_, by rw [hkind]; dsimp only; rw [if_neg hle, List.take_left, hprint], rfl⟩
    | unsupported hkind hprint => exact ⟨_, by rw [hkind]; dsimp only; rw [hprint], rfl⟩
    | unsupportedStops hkind hprint => exact ⟨_, by rw [hkind]; dsimp only; rw [hprint], rfl⟩
  · intro h
    obtain ⟨out, hrun, rfl⟩ := h
    unfold parseAndPrintArgument at hrun
    cases hkind : argumentOf fmt with
    | string =>
      rw [hkind] at hrun
      dsimp only at hrun
      cases hprint : printAll print [(fmt, .string buffer)] calls with
      | error e =>
        rw [hprint] at hrun
        obtain rfl := Except.ok.inj hrun
        exact .stringStops hkind hprint
      | ok calls' =>
        rw [hprint] at hrun
        by_cases hnul : 0 ∈ buffer
        · obtain ⟨text, rest, rfl, htext⟩ := List.eq_append_cons_of_mem hnul
          rw [dropWhile_text _ htext] at hrun
          obtain rfl := Except.ok.inj hrun
          exact .string hkind hprint htext
        · have hnil : buffer.dropWhile (· ≠ 0) = [] := by
            rw [← List.append_nil buffer, List.dropWhile_append_of_pos]
            · rfl
            · intro c hc
              rw [decide_eq_true_iff]
              exact fun heq => hnul (heq ▸ hc)
          rw [hnil] at hrun
          cases hrun
    | value size shown =>
      rw [hkind] at hrun
      dsimp only at hrun
      split at hrun
      · cases hrun
      · next hle =>
        have hlength : (buffer.take size).length = size := by
          rw [List.length_take]
          omega
        have hsplit := List.take_append_drop size buffer
        cases hprint : printAll print (shown (buffer.take size)) calls with
        | error e =>
          rw [hprint] at hrun
          obtain rfl := Except.ok.inj hrun
          rw [← hsplit]
          exact .valueStops hkind hlength hprint
        | ok calls' =>
          rw [hprint] at hrun
          obtain rfl := Except.ok.inj hrun
          have hfits : ArgumentFits print fmt (buffer.take size ++ buffer.drop size) calls
              (some (buffer.drop size, calls')) := .value hkind hlength hprint
          rwa [hsplit] at hfits
    | unsupported =>
      rw [hkind] at hrun
      dsimp only at hrun
      cases hprint : printAll print [([0x25, 0x73], .format fmt)] calls with
      | error e =>
        rw [hprint] at hrun
        obtain rfl := Except.ok.inj hrun
        exact .unsupportedStops hkind hprint
      | ok calls' =>
        rw [hprint] at hrun
        obtain rfl := Except.ok.inj hrun
        exact .unsupported hkind hprint

theorem argumentsFit_iff {print : PrintFct} {formats : List Format} {buffer : List UInt8} {calls : Nat}
    {rest : Option (List UInt8 × Nat)} :
    ArgumentsFit print formats buffer calls rest ↔
      ∃ out, parseAndPrintArgumentSection print formats buffer calls = .ok out ∧ out.toOption = rest := by
  constructor
  · intro h
    induction h with
    | none => exact ⟨_, rfl, rfl⟩
    | stops hfits =>
      obtain ⟨out, hrun, hout⟩ := argumentFits_iff.1 hfits
      cases out with
      | ok r => cases hout
      | error e => exact ⟨.error e, by rw [parseAndPrintArgumentSection, hrun], rfl⟩
    | cons hfits _ ih =>
      obtain ⟨out, hrun, hout⟩ := argumentFits_iff.1 hfits
      cases out with
      | error e => cases hout
      | ok r =>
        obtain rfl := Option.some.inj hout
        rw [parseAndPrintArgumentSection, hrun]
        exact ih
  · intro h
    induction formats generalizing buffer calls with
    | nil =>
      obtain ⟨out, hrun, rfl⟩ := h
      obtain rfl := Except.ok.inj hrun
      exact .none
    | cons fmt formats ih =>
      obtain ⟨out, hrun, hout⟩ := h
      rw [parseAndPrintArgumentSection] at hrun
      cases harg : parseAndPrintArgument print fmt buffer calls with
      | error fault =>
        rw [harg] at hrun
        cases hrun
      | ok out' =>
        rw [harg] at hrun
        cases out' with
        | error e =>
          obtain rfl := Except.ok.inj hrun
          obtain rfl := hout
          exact .stops (argumentFits_iff.2 ⟨_, harg, rfl⟩)
        | ok r => exact .cons (argumentFits_iff.2 ⟨_, harg, rfl⟩) (ih ⟨out, hrun, hout⟩)

theorem ArgumentFits.length_le {print : PrintFct} {fmt : Format} {buffer buffer' : List UInt8} {calls calls' : Nat}
    (h : ArgumentFits print fmt buffer calls (some (buffer', calls'))) : buffer'.length ≤ buffer.length := by
  cases h with
  | string =>
    rw [List.length_append, List.length_cons]
    omega
  | value =>
    rw [List.length_append]
    omega
  | unsupported =>
    rw [List.length_drop]
    omega

theorem ArgumentsFit.length_le {print : PrintFct} {formats : List Format} {buffer buffer' : List UInt8}
    {calls calls' : Nat} (h : ArgumentsFit print formats buffer calls (some (buffer', calls'))) :
    buffer'.length ≤ buffer.length := by
  induction formats generalizing buffer calls with
  | nil =>
    cases h
    exact Nat.le_refl _
  | cons fmt formats ih =>
    cases h with
    | cons hfits hrest => exact Nat.le_trans (ih hrest) hfits.length_le

/-! ## A whole log -/

/-- A log that can be read is decoded without a fault, and any fuel beyond its length is enough. -/
theorem Readable.returns {print : PrintFct} {buffer : List UInt8} {calls : Nat} (h : Readable print buffer calls)
    {fuel : Nat} (hfuel : buffer.length < fuel) : ∃ status, displayMessages print fuel buffer calls = .returned status := by
  induction h generalizing fuel with
  | done hnone =>
    obtain ⟨fuel, rfl⟩ : ∃ n, fuel = n + 1 := ⟨fuel - 1, by omega⟩
    exact ⟨none, by rw [displayMessages, parseFormatSection_none hnone]⟩
  | @stops junk section' buffer calls hjunk hnul hfit hargs =>
    obtain ⟨fuel, rfl⟩ : ∃ n, fuel = n + 1 := ⟨fuel - 1, by omega⟩
    obtain ⟨out, hrun, hout⟩ := argumentsFit_iff.1 hargs
    rw [← storedFormats_start] at hfit hrun
    rw [displayMessages, List.append_assoc, List.cons_append, parseFormatSection_some _ hjunk,
      parseFormats_success buffer hnul hfit]
    dsimp only
    rw [hrun]
    cases out with
    | ok r => cases hout
    | error e => exact ⟨some e, rfl⟩
  | @message junk section' buffer buffer' calls calls' hjunk hnul hfit hargs _ ih =>
    obtain ⟨fuel, rfl⟩ : ∃ n, fuel = n + 1 := ⟨fuel - 1, by omega⟩
    obtain ⟨out, hrun, hout⟩ := argumentsFit_iff.1 hargs
    rw [← storedFormats_start] at hfit hrun
    rw [displayMessages, List.append_assoc, List.cons_append, parseFormatSection_some _ hjunk,
      parseFormats_success buffer hnul hfit]
    dsimp only
    rw [hrun]
    cases out with
    | error e => cases hout
    | ok r =>
      obtain rfl := Option.some.inj hout
      have hle := hargs.length_le
      simp only [List.length_append, List.length_cons] at hfuel
      exact ih (by omega)

theorem readable_of_returns {print : PrintFct} {fuel : Nat} {buffer : List UInt8} {calls : Nat}
    {status : Option LogError} (h : displayMessages print fuel buffer calls = .returned status) :
    Readable print buffer calls := by
  induction fuel generalizing buffer calls with
  | zero => cases h
  | succ fuel ih =>
    by_cases hpercent : percent ∈ buffer
    · obtain ⟨junk, str, hjunk, rfl⟩ := exists_percent hpercent
      rw [displayMessages, parseFormatSection_some _ hjunk] at h
      cases hparse : parseFormats str [[percent]] with
      | error f =>
        rw [hparse] at h
        cases h
      | ok ret =>
        obtain ⟨section', rest, rfl, hnul, hfit, rfl⟩ := parseFormats_ok formatsFit_start hparse
        rw [storedFormats_start] at hfit hparse
        rw [hparse] at h
        dsimp only at h
        have hshape : junk ++ percent :: (section' ++ 0 :: rest) = junk ++ percent :: section' ++ 0 :: rest := by
          rw [List.append_assoc, List.cons_append]
        rw [hshape]
        cases hrun : parseAndPrintArgumentSection print (splitFormats (percent :: section')).2 rest calls with
        | error f =>
          rw [hrun] at h
          cases h
        | ok out =>
          rw [hrun] at h
          cases out with
          | error e => exact .stops hjunk hnul hfit (argumentsFit_iff.2 ⟨_, hrun, rfl⟩)
          | ok r => exact .message hjunk hnul hfit (argumentsFit_iff.2 ⟨_, hrun, rfl⟩) (ih h)
    · exact .done hpercent

/-- The decoding of any bytes ends: each message takes at least its `%` and its terminator. -/
theorem displayMessages_ends (print : PrintFct) {fuel : Nat} {buffer : List UInt8} (hfuel : buffer.length < fuel)
    (calls : Nat) : displayMessages print fuel buffer calls ≠ .running := by
  induction fuel generalizing buffer calls with
  | zero => omega
  | succ fuel ih =>
    by_cases hpercent : percent ∈ buffer
    · obtain ⟨junk, str, hjunk, rfl⟩ := exists_percent hpercent
      rw [displayMessages, parseFormatSection_some _ hjunk]
      cases hparse : parseFormats str [[percent]] with
      | error f => nofun
      | ok ret =>
        obtain ⟨section', rest, rfl, hnul, hfit, rfl⟩ := parseFormats_ok formatsFit_start hparse
        dsimp only
        cases hrun : parseAndPrintArgumentSection print (storedFormats [] [percent] section') rest calls with
        | error f => nofun
        | ok out =>
          cases out with
          | error e => nofun
          | ok r =>
            have hargs : ArgumentsFit print (storedFormats [] [percent] section') rest calls (some (r.1, r.2)) :=
              argumentsFit_iff.2 ⟨_, hrun, rfl⟩
            have hle := hargs.length_le
            simp only [List.length_append, List.length_cons] at hfuel
            exact ih (by omega) r.2
    · rw [displayMessages, parseFormatSection_none hpercent]
      nofun

theorem decoding_ends (print : PrintFct) (input : List UInt8) :
    dpulogReadAndDisplayContentsOf print input ≠ .running :=
  displayMessages_ends print (Nat.lt_succ_self _) 0

/-- A log is decoded safely exactly if its messages are complete. -/
theorem safeDecoding_iff (print : PrintFct) (input : List UInt8) : SafeDecoding print input ↔ Readable print input 0 :=
  ⟨fun h => readable_of_returns h.choose_spec, fun h => h.returns (Nat.lt_succ_self _)⟩

/-- A buffer that ends within a message. -/
theorem truncated_not_safeDecoding : ¬ SafeDecoding (fun _ _ _ => none) [percent] := by
  intro h
  obtain ⟨status, hrun⟩ := h
  cases hrun

end DpuBackend.Api
