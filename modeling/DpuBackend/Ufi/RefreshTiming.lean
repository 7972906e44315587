import DpuBackend.Lib.Calc
import Mathlib.Algebra.Order.Ring.Nat

/-
  The timing of the refresh (`ufi_dma_wavegen_config.c`).

  From the frequency the code computes how many cycles a refresh takes and how many the DMA
  engine leaves for it, and shortens the refresh until it fits. All of it is 32-bit arithmetic,
  and each operation notes whether it wraps. The division by 20 drops a remainder, so that the
  comment on even frequencies does not hold, and a short refresh may run out of cycles to drop.

  `timing_iff` says for which frequencies nothing wraps and the values fit their fields: an
  interval or two for each division and mode.

  Correspondence (C ↔ Lean):
    `nr_cycles_for`                     ↔ `nrCyclesFor`
    the body of the loop                ↔ `refreshCycles`, `refreshDma`, `refreshCyclesTotal`, `dmaCycles`, `pass`
    `fill_timing_configuration`         ↔ `refreshLoop`, `fillTimingConfiguration`, `Timing.stored`
    `from_division_factor_to_dpu_enum`  ↔ `fromDivisionFactorToDpuEnum`
    the division that `fetch_dma_and_wavegen_configs` passes on ↔ `fckDivision`
-/

namespace DpuBackend.Ufi.RefreshTiming

open DpuBackend.Lib DpuBackend.Lib.Calc

/-! ## 32-bit operations -/

def add (a b : Nat) : Calc Nat := word 32 (a + b)

def sub (a b : Nat) : Calc Nat := word 32 (a - b)

def mul (a b : Nat) : Calc Nat := word 32 (a * b)

/-! ## The timing -/

def refreshStart : Nat := 2

def refreshEnd : Nat := 2

def refreshActivateDurationTenfoldNs : Nat := 512

def refreshPrechargeDurationTenfoldNs : Nat := 269

def refreshNrPulsesDefault : Nat := 4

/-- Rounded up; the product has 64 bits. -/
def nrCyclesFor (durationInNsTenfold frequencyInMhz : Nat) : Calc Nat :=
  word 32 ((durationInNsTenfold * frequencyInMhz + 1000 - 1) / 1000 : Nat)

def tRFC (refreshMode : Nat) : Nat :=
  match refreshMode with
  | 1 => 345
  | 2 => 255
  | _ => 155

def refreshModeLog2 (refreshMode : Nat) : Nat :=
  match refreshMode with
  | 1 => 0
  | 2 => 1
  | _ => 2

def refreshCycles (refreshNrPulses halfTenthFckFrequency refreshActivate refreshPrecharge : Nat) : Calc Nat := do
  let activates ← mul refreshNrPulses (← add refreshActivate 1)
  let precharges ← mul (← sub refreshNrPulses 1) (← add refreshPrecharge 1)
  add (← add (← add (← add refreshStart 1) activates) precharges) (← nrCyclesFor (14 * 10) halfTenthFckFrequency)

/-- The product is one of 32 bits. -/
def refreshDma (fckFrequency fckDivision refreshMode : Nat) : Calc Nat := do
  let cycles ← mul (tRFC refreshMode) fckFrequency
  word 32 ((cycles / (4 * fckDivision * 1000) : Nat) - 1)

def refreshCyclesTotal (refreshNrPulses refreshActivate refreshPrecharge : Nat) : Calc Nat := do
  let activates ← mul refreshNrPulses (← add refreshActivate 1)
  let precharges ← mul refreshNrPulses (← add refreshPrecharge 1)
  add (← add (← add (← add (← add (← add 1 refreshStart) 1) activates) precharges) refreshEnd) 1

def dmaCycles (refreshDma fckDivision : Nat) : Calc Nat := do
  let cycles ← mul (← mul (← add refreshDma 1) 4) fckDivision
  pure (cycles / 2)

/-- What the loop leaves. -/
structure Timing where
  refresh : Nat
  refreshDma : Nat
  refreshActivate : Nat
  refreshPrecharge : Nat

/-- The arguments of `fill_timing_configuration`. -/
structure Args where
  fckFrequency : Nat
  fckDivision : Nat
  refreshMode : Nat

namespace Args

variable (x : Args)

def halfTenthFckFrequency : Nat := x.fckFrequency / (2 * 10)

def refreshNrPulses : Nat := refreshNrPulsesDefault / x.refreshMode

/-- One pass of the loop: the timing, and `config_ok`. -/
def pass (refreshActivate refreshPrecharge : Nat) : Calc (Timing × Bool) := do
  let refresh ← refreshCycles x.refreshNrPulses x.halfTenthFckFrequency refreshActivate refreshPrecharge
  let refreshDma ← refreshDma x.fckFrequency x.fckDivision x.refreshMode
  let refreshCyclesTotal ← refreshCyclesTotal x.refreshNrPulses refreshActivate refreshPrecharge
  let dmaCycles ← dmaCycles refreshDma x.fckDivision
  pure (⟨refresh, refreshDma, refreshActivate, refreshPrecharge⟩, !decide (dmaCycles ≤ refreshCyclesTotal))

/-- `none` if the loop goes on after `fuel` passes. -/
def refreshLoop : Nat → Nat → Nat → Calc (Option Timing)
  | 0, _, _ => pure none
  | fuel + 1, refreshActivate, refreshPrecharge => do
    let (timing, configOk) ← x.pass refreshActivate refreshPrecharge
    if configOk then pure (some timing)
    else do
      let refreshActivate ← sub refreshActivate 1
      let refreshPrecharge ← sub refreshPrecharge 1
      refreshLoop fuel refreshActivate refreshPrecharge

def fillTimingConfiguration (fuel : Nat) : Calc (Option Timing) := do
  let refreshActivate ← sub (← nrCyclesFor refreshActivateDurationTenfoldNs x.halfTenthFckFrequency) 1
  let refreshPrecharge ← sub (← nrCyclesFor refreshPrechargeDurationTenfoldNs x.halfTenthFckFrequency) 1
  x.refreshLoop fuel refreshActivate refreshPrecharge

end Args

/-- The fields that are computed. -/
structure TimingFields where
  refreshAccessNumber : UInt8
  refreshStart : UInt8
  refreshActiv : UInt8
  refreshPrech : UInt8
  refreshEnd : UInt8
  refreshAndRowHammerInfo : UInt16

def rowHammerInfo (refresh refreshModeLog2 : Nat) : UInt16 :=
  UInt16.ofNat (((refresh >>> 8 &&& 1) <<< 15) ||| ((refreshModeLog2 &&& 0x3) <<< 8) ||| (refresh &&& 0xFF))

def Timing.stored (t : Timing) (refreshMode : Nat) : TimingFields where
  refreshAccessNumber := UInt8.ofNat t.refreshDma
  refreshStart := UInt8.ofNat refreshStart
  refreshActiv := UInt8.ofNat t.refreshActivate
  refreshPrech := UInt8.ofNat t.refreshPrecharge
  refreshEnd := UInt8.ofNat refreshEnd
  refreshAndRowHammerInfo := rowHammerInfo t.refresh (refreshModeLog2 refreshMode)

inductive ClockDivision where
  | div2
  | div3
  | div4
  | div8

def fromDivisionFactorToDpuEnum (factor : UInt8) : ClockDivision :=
  match factor with
  | 3 => .div3
  | 4 => .div4
  | 8 => .div8
  | _ => .div2

/-- The division the configuration is computed for. -/
def fckDivision (clockDivision : UInt8) : Nat :=
  match fromDivisionFactorToDpuEnum clockDivision with
  | .div4 => clockDivision.toNat
  | .div3 => clockDivision.toNat
  | _ => 2

/-! ## Exact values -/

/-- The cycles of the division that a refresh period has. -/
def Args.periods (x : Args) : Nat := tRFC x.refreshMode * x.fckFrequency / (4 * x.fckDivision * 1000)

def exactRefresh (pulses half activate precharge : Nat) : Nat :=
  3 + pulses * (activate + 1) + (pulses - 1) * (precharge + 1) + (140 * half + 999) / 1000

def exactTotal (pulses activate precharge : Nat) : Nat := 7 + pulses * (activate + 1) + pulses * (precharge + 1)

def exactDma (periods fckDivision : Nat) : Nat := periods * 4 * fckDivision / 2

/-- A frequency of 32 bits, a division of a byte that is not 0, and one of the three refresh modes. -/
structure Args.Sound (x : Args) : Prop where
  frequency : x.fckFrequency < 2 ^ 32
  division : 1 ≤ x.fckDivision ∧ x.fckDivision ≤ 255
  mode : x.refreshMode = 1 ∨ x.refreshMode = 2 ∨ x.refreshMode = 4

section Exact

theorem add_exact {a b : Nat} (h : a + b < 2 ^ 32) : add a b = ⟨a + b, false⟩ := by
  have hspec := (gives_word 32 ((a : Int) + b)).of_ok ⟨by omega, by omega⟩
  rw [add, hspec]
  congr 1

theorem mul_exact {a b : Nat} (h : a * b < 2 ^ 32) : mul a b = ⟨a * b, false⟩ := by
  have hcast : ((a : Int) * b) = ((a * b : Nat) : Int) := by push_cast; rfl
  have hspec := (gives_word 32 ((a : Int) * b)).of_ok (by rw [hcast]; omega)
  rw [mul, hspec, hcast, Int.toNat_natCast]

/-- A decrement wraps at zero. -/
theorem gives_sub_one {a : Nat} (h : a < 2 ^ 32) : Gives (sub a 1) (1 ≤ a) (a - 1) :=
  (gives_word 32 ((a : Int) - (1 : Nat))).congr (by omega) fun _ => by omega

theorem sub_exact {a b : Nat} (h : a < 2 ^ 32) (hle : b ≤ a) : sub a b = ⟨a - b, false⟩ := by
  have hspec := (gives_word 32 ((a : Int) - b)).of_ok ⟨by omega, by omega⟩
  rw [sub, hspec]
  congr 1
  omega

theorem nrCyclesFor_exact {d f : Nat} (hd : d ≤ 1000) (hf : f < 2 ^ 28) :
    nrCyclesFor d f = ⟨(d * f + 999) / 1000, false⟩ := by
  have hle : d * f ≤ 1000 * f := Nat.mul_le_mul_right f hd
  have hspec := (gives_word 32 (((d * f + 1000 - 1) / 1000 : Nat) : Int)).of_ok (by omega)
  rw [nrCyclesFor, hspec, Int.toNat_natCast]
  congr 1

/-- The arguments of the loop are far from the end of a word. -/
structure Small (half activate precharge : Nat) : Prop where
  half : half < 2 ^ 28
  activate : activate < 2 ^ 28
  precharge : precharge < 2 ^ 28

variable {pulses half activate precharge : Nat} (hsmall : Small half activate precharge)
  (hpulses : pulses = 1 ∨ pulses = 2 ∨ pulses = 4)

include hsmall hpulses

theorem refreshCycles_exact :
    refreshCycles pulses half activate precharge = ⟨exactRefresh pulses half activate precharge, false⟩ := by
  obtain ⟨hhalf, hactivate, hprecharge⟩ := hsmall
  rcases hpulses with rfl | rfl | rfl <;>
  · simp (disch := omega) only [refreshCycles, refreshStart, add_exact, mul_exact, sub_exact, nrCyclesFor_exact,
      bind_exact, exactRefresh]

theorem refreshCyclesTotal_exact :
    refreshCyclesTotal pulses activate precharge = ⟨exactTotal pulses activate precharge, false⟩ := by
  obtain ⟨hhalf, hactivate, hprecharge⟩ := hsmall
  rcases hpulses with rfl | rfl | rfl <;>
  · simp (disch := omega) only [refreshCyclesTotal, refreshStart, refreshEnd, add_exact, mul_exact, bind_exact,
      exactTotal]
    congr 1
    omega

end Exact

section Pass

variable {x : Args}

/-- The product fits a word, and there is a period. -/
def Args.Countable (x : Args) : Prop := tRFC x.refreshMode * x.fckFrequency < 2 ^ 32 ∧ 1 ≤ x.periods

theorem tRFC_le (m : Nat) : tRFC m ≤ 345 := by
  unfold tRFC
  split <;> decide

theorem gives_refreshDma :
    Gives (refreshDma x.fckFrequency x.fckDivision x.refreshMode) x.Countable (x.periods - 1) := by
  have hmul : Gives (mul (tRFC x.refreshMode) x.fckFrequency) (tRFC x.refreshMode * x.fckFrequency < 2 ^ 32)
      (tRFC x.refreshMode * x.fckFrequency) := by
    refine (gives_word 32 ((tRFC x.refreshMode : Int) * x.fckFrequency)).congr ?_ fun _ => ?_
    · norm_cast
      omega
    · norm_cast
  refine gives_bind hmul fun hfit => ?_
  have hperiods : x.periods ≤ tRFC x.refreshMode * x.fckFrequency := Nat.div_le_self _ _
  refine (gives_word 32 (((x.periods : Nat) : Int) - 1)).congr (by omega) fun _ => by omega

/-- The periods have fewer cycles than a word has values. -/
theorem periods_lt (h : x.Countable) : x.periods * 4 * x.fckDivision < 2 ^ 32 := by
  have hle : x.periods * (4 * x.fckDivision * 1000) ≤ tRFC x.refreshMode * x.fckFrequency := Nat.div_mul_le_self _ _
  have hassoc : x.periods * (4 * x.fckDivision * 1000) = x.periods * 4 * x.fckDivision * 1000 := by
    rw [← Nat.mul_assoc, ← Nat.mul_assoc]
  have hfit := h.1
  omega

theorem dmaCycles_exact (hx : x.Sound) (h : x.Countable) :
    dmaCycles (x.periods - 1) x.fckDivision = ⟨exactDma x.periods x.fckDivision, false⟩ := by
  have hlt := periods_lt h
  have hpos := h.2
  have hone : x.periods - 1 + 1 = x.periods := Nat.sub_add_cancel hpos
  have hfour : x.periods * 4 ≤ x.periods * 4 * x.fckDivision := Nat.le_mul_of_pos_right _ hx.division.1
  rw [dmaCycles, add_exact (by omega), hone, bind_exact, mul_exact (by omega), bind_exact, mul_exact hlt, bind_exact]
  rfl

theorem pulses_cases (hx : x.Sound) : x.refreshNrPulses = 1 ∨ x.refreshNrPulses = 2 ∨ x.refreshNrPulses = 4 := by
  unfold Args.refreshNrPulses
  rcases hx.mode with h | h | h <;> rw [h] <;> decide

variable (x) in
/-- The timing of a pass. -/
def Args.timing (activate precharge : Nat) : Timing :=
  ⟨exactRefresh x.refreshNrPulses x.halfTenthFckFrequency activate precharge, x.periods - 1, activate, precharge⟩

variable (x) in
/-- The refresh is shorter than what the DMA engine leaves for it. -/
def Args.Shorter (activate precharge : Nat) : Prop :=
  exactTotal x.refreshNrPulses activate precharge < exactDma x.periods x.fckDivision

instance (activate precharge : Nat) : Decidable (x.Shorter activate precharge) := by
  unfold Args.Shorter
  infer_instance

theorem gives_pass (hx : x.Sound) {activate precharge : Nat}
    (hsmall : Small x.halfTenthFckFrequency activate precharge) :
    Gives (x.pass activate precharge) x.Countable (x.timing activate precharge, decide (x.Shorter activate precharge)) := by
  have hpulses := pulses_cases hx
  unfold Args.pass
  rw [refreshCycles_exact hsmall hpulses, bind_exact]
  refine (gives_bind gives_refreshDma fun hcountable => (?_ : Gives _ True _)).congr (and_true _).symm.to_iff fun _ => rfl
  rw [refreshCyclesTotal_exact hsmall hpulses, bind_exact, dmaCycles_exact hx hcountable, bind_exact]
  have hdecide : (!decide (exactDma x.periods x.fckDivision ≤ exactTotal x.refreshNrPulses activate precharge)) =
      decide (x.Shorter activate precharge) := by
    unfold Args.Shorter
    rw [← decide_not]
    exact decide_eq_decide.mpr Nat.not_le
  rw [hdecide]
  exact gives_pure _

end Pass

/-! ## The loop -/

section Loop

variable {x : Args}

/-- The counts the loop stops at, if the refresh becomes short enough before one of them is zero. -/
def Args.finish (x : Args) : Nat → Nat → Option (Nat × Nat)
  | activate, 0 => if x.Shorter activate 0 then some (activate, 0) else none
  | activate, precharge + 1 =>
    if x.Shorter activate (precharge + 1) then some (activate, precharge + 1) else x.finish (activate - 1) precharge

theorem refreshLoop_succ (hx : x.Sound) (hcountable : x.Countable) {activate precharge : Nat}
    (hsmall : Small x.halfTenthFckFrequency activate precharge) (fuel : Nat) :
    x.refreshLoop (fuel + 1) activate precharge =
      if x.Shorter activate precharge then ⟨some (x.timing activate precharge), false⟩
      else (do
        let activate ← sub activate 1
        let precharge ← sub precharge 1
        x.refreshLoop fuel activate precharge) := by
  have hpass := (gives_pass hx hsmall).of_ok hcountable
  rw [Args.refreshLoop, hpass, bind_exact]
  by_cases h : x.Shorter activate precharge
  · rw [if_pos h]
    simp only [h, decide_true, if_true]
    rfl
  · rw [if_neg h]
    simp only [h, decide_false, Bool.false_eq_true, if_false]

theorem finish_now {a p : Nat} (h : x.Shorter a p) : x.finish a p = some (a, p) := by
  cases p with
  | zero => rw [Args.finish, if_pos h]
  | succ p => rw [Args.finish, if_pos h]

/-- A loop that ends has made a pass. -/
theorem exists_fuel_iff {activate precharge : Nat} {t : Timing} :
    (∃ fuel, x.refreshLoop fuel activate precharge = ⟨some t, false⟩) ↔
      ∃ fuel, x.refreshLoop (fuel + 1) activate precharge = ⟨some t, false⟩ := by
  refine ⟨fun ⟨fuel, h⟩ => ?_, fun ⟨fuel, h⟩ => ⟨fuel + 1, h⟩⟩
  cases fuel with
  | zero => exact absurd (congrArg Calc.val h) nofun
  | succ fuel => exact ⟨fuel, h⟩

/-- The loop stops at counts that are short enough. -/
theorem refreshLoop_iff_of_shorter (hx : x.Sound) (hcountable : x.Countable) (t : Timing) {activate precharge : Nat}
    (hsmall : Small x.halfTenthFckFrequency activate precharge) (hshort : x.Shorter activate precharge) :
    (∃ fuel, x.refreshLoop fuel activate precharge = ⟨some t, false⟩) ↔
      ∃ a p, x.finish activate precharge = some (a, p) ∧ t = x.timing a p := by
  have hloop : ∀ fuel, x.refreshLoop (fuel + 1) activate precharge = ⟨some (x.timing activate precharge), false⟩ :=
    fun fuel => by rw [refreshLoop_succ hx hcountable hsmall, if_pos hshort]
  rw [exists_fuel_iff, finish_now hshort]
  constructor
  · rintro ⟨fuel, h⟩
    rw [hloop] at h
    exact ⟨activate, precharge, rfl, (Option.some.inj (congrArg Calc.val h)).symm⟩
  · rintro ⟨a, p, hap, rfl⟩
    obtain ⟨rfl, rfl⟩ := Prod.mk.inj (Option.some.inj hap)
    exact ⟨0, hloop 0⟩

/-- The second decrement is one of zero. -/
theorem refreshLoop_wraps (hx : x.Sound) (hcountable : x.Countable) {activate : Nat}
    (hsmall : Small x.halfTenthFckFrequency activate 0) (hshort : ¬x.Shorter activate 0) (fuel : Nat) :
    (x.refreshLoop (fuel + 1) activate 0).wrapped = true := by
  have hsub : (sub 0 1).wrapped = true := (gives_sub_one (by decide)).wrapped (by decide)
  rw [refreshLoop_succ hx hcountable hsmall, if_neg hshort]
  show ((sub activate 1).wrapped || _) = true
  rw [Bool.or_eq_true]
  exact .inr (wrapped_bind hsub)

/-- Without a wrap the loop stops where the counts say, or not at all. -/
theorem refreshLoop_iff (hx : x.Sound) (hcountable : x.Countable) (t : Timing) {activate precharge : Nat}
    (hle : precharge ≤ activate) (hsmall : Small x.halfTenthFckFrequency activate precharge) :
    (∃ fuel, x.refreshLoop fuel activate precharge = ⟨some t, false⟩) ↔
      ∃ a p, x.finish activate precharge = some (a, p) ∧ t = x.timing a p := by
  induction precharge generalizing activate with
  | zero =>
    by_cases hshort : x.Shorter activate 0
    · exact refreshLoop_iff_of_shorter hx hcountable t hsmall hshort
    · simp only [Args.finish, if_neg hshort, reduceCtorEq, false_and, exists_false, iff_false, exists_fuel_iff]
      rintro ⟨fuel, h⟩
      have hwrapped := refreshLoop_wraps hx hcountable hsmall hshort fuel
      rw [h] at hwrapped
      exact absurd hwrapped Bool.false_ne_true
  | succ precharge ih =>
    by_cases hshort : x.Shorter activate (precharge + 1)
    · exact refreshLoop_iff_of_shorter hx hcountable t hsmall hshort
    · have hactivate := hsmall.activate
      have hprecharge := hsmall.precharge
      have hnext : Small x.halfTenthFckFrequency (activate - 1) precharge := ⟨hsmall.half, by omega, by omega⟩
      have hstep : ∀ fuel, x.refreshLoop (fuel + 1) activate (precharge + 1) = x.refreshLoop fuel (activate - 1) precharge := by
        intro fuel
        have hsub : sub activate 1 = ⟨activate - 1, false⟩ := sub_exact (by omega) (by omega)
        have hsub' : sub (precharge + 1) 1 = ⟨precharge, false⟩ := sub_exact (by omega) (by omega)
        rw [refreshLoop_succ hx hcountable hsmall, if_neg hshort, hsub, bind_exact, hsub', bind_exact]
      rw [exists_fuel_iff, Args.finish, if_neg hshort, ← ih (by omega) hnext]
      exact exists_congr fun fuel => by rw [hstep]

/-- A product that does not fit, or no period, is a wrap in the first pass. -/
theorem refreshLoop_uncountable (hx : x.Sound) (h : ¬x.Countable) (t : Timing) {activate precharge : Nat}
    (hsmall : Small x.halfTenthFckFrequency activate precharge) (fuel : Nat) :
    x.refreshLoop fuel activate precharge ≠ ⟨some t, false⟩ := by
  intro hloop
  cases fuel with
  | zero => exact absurd (congrArg Calc.val hloop) nofun
  | succ fuel =>
    have hwrapped : (x.refreshLoop (fuel + 1) activate precharge).wrapped = true := by
      rw [Args.refreshLoop]
      exact wrapped_bind ((gives_pass hx hsmall).wrapped h)
    rw [hloop] at hwrapped
    exact absurd hwrapped Bool.false_ne_true

/-- The counts before the loop. -/
def initialActivate (half : Nat) : Nat := (512 * half + 999) / 1000 - 1

def initialPrecharge (half : Nat) : Nat := (269 * half + 999) / 1000 - 1

theorem initial_small {half : Nat} (h : half < 2 ^ 28) : Small half (initialActivate half) (initialPrecharge half) := by
  refine ⟨h, ?_, ?_⟩
  · unfold initialActivate
    omega
  · unfold initialPrecharge
    omega

theorem initial_le (half : Nat) : initialPrecharge half ≤ initialActivate half := by
  unfold initialPrecharge initialActivate
  omega

theorem fill_eq (hx : x.Sound) (hpos : 100 < x.fckFrequency) (fuel : Nat) :
    x.fillTimingConfiguration fuel =
      x.refreshLoop fuel (initialActivate x.halfTenthFckFrequency) (initialPrecharge x.halfTenthFckFrequency) := by
  have hfrequency := hx.frequency
  have hhalf : 5 ≤ x.halfTenthFckFrequency ∧ x.halfTenthFckFrequency < 2 ^ 28 := by
    unfold Args.halfTenthFckFrequency
    omega
  generalize hh : x.halfTenthFckFrequency = half at hhalf
  rw [Args.fillTimingConfiguration, hh, nrCyclesFor_exact (by decide) hhalf.2, bind_exact,
    sub_exact (by unfold refreshActivateDurationTenfoldNs; omega) (by unfold refreshActivateDurationTenfoldNs; omega), bind_exact,
    nrCyclesFor_exact (by decide) hhalf.2, bind_exact,
    sub_exact (by unfold refreshPrechargeDurationTenfoldNs; omega) (by unfold refreshPrechargeDurationTenfoldNs; omega), bind_exact]
  rfl

/-- The counts where the loop stops are short enough and not above the first. -/
theorem finish_some {a p a' p' : Nat} (h : x.finish a p = some (a', p')) : a' ≤ a ∧ p' ≤ p ∧ x.Shorter a' p' := by
  induction p generalizing a with
  | zero =>
    unfold Args.finish at h
    split at h
    · next hshort =>
      simp only [Option.some.injEq, Prod.mk.injEq] at h
      obtain ⟨rfl, rfl⟩ := h
      exact ⟨Nat.le_refl _, Nat.le_refl _, hshort⟩
    · exact absurd h nofun
  | succ p ih =>
    unfold Args.finish at h
    split at h
    · next hshort =>
      simp only [Option.some.injEq, Prod.mk.injEq] at h
      obtain ⟨rfl, rfl⟩ := h
      exact ⟨Nat.le_refl _, Nat.le_refl _, hshort⟩
    · obtain ⟨ha, hp, hshort⟩ := ih h
      exact ⟨by omega, by omega, hshort⟩

/-- A refresh that is short enough stays so. -/
theorem shorter_mono {a p a' p' : Nat} (h : x.Shorter a p) (ha : a' ≤ a) (hp : p' ≤ p) : x.Shorter a' p' := by
  refine Nat.lt_of_le_of_lt ?_ h
  unfold exactTotal
  have hactivates : x.refreshNrPulses * (a' + 1) ≤ x.refreshNrPulses * (a + 1) := Nat.mul_le_mul_left _ (by omega)
  have hprecharges : x.refreshNrPulses * (p' + 1) ≤ x.refreshNrPulses * (p + 1) := Nat.mul_le_mul_left _ (by omega)
  omega

/-- The loop stops if the refresh is short enough with the second count used up. -/
theorem finish_isSome_iff {a p : Nat} (hle : p ≤ a) : (∃ a' p', x.finish a p = some (a', p')) ↔ x.Shorter (a - p) 0 := by
  induction p generalizing a with
  | zero =>
    rw [Nat.sub_zero]
    refine ⟨?_, fun h => ⟨a, 0, finish_now h⟩⟩
    rintro ⟨a', p', h⟩
    by_contra hno
    rw [Args.finish, if_neg hno] at h
    exact absurd h nofun
  | succ p ih =>
    by_cases hshort : x.Shorter a (p + 1)
    · exact ⟨fun _ => shorter_mono hshort (by omega) (by omega), fun _ => ⟨a, p + 1, finish_now hshort⟩⟩
    · rw [Args.finish, if_neg hshort, ih (by omega)]
      have hsub : a - 1 - p = a - (p + 1) := by omega
      rw [hsub]

end Loop

/-! ## The fields -/

/-- The counter of the refresh, as the hardware takes it from its field. -/
def TimingFields.refresh (fields : TimingFields) : Nat :=
  fields.refreshAndRowHammerInfo.toNat / 2 ^ 15 * 256 + fields.refreshAndRowHammerInfo.toNat % 256

/-- The fields hold the values. -/
structure Timing.Fits (t : Timing) (refreshMode : Nat) : Prop where
  refresh : (t.stored refreshMode).refresh = t.refresh
  refreshDma : (t.stored refreshMode).refreshAccessNumber.toNat = t.refreshDma
  refreshActivate : (t.stored refreshMode).refreshActiv.toNat = t.refreshActivate
  refreshPrecharge : (t.stored refreshMode).refreshPrech.toNat = t.refreshPrecharge

theorem rowHammerInfo_toNat (refresh : Nat) {log2 : Nat} (hlog2 : log2 < 4) :
    (rowHammerInfo refresh log2).toNat = 2 ^ 15 * (refresh / 256 % 2) + (2 ^ 8 * log2 + refresh % 256) := by
  have hor : (((refresh >>> 8 &&& 1) <<< 15) ||| ((log2 &&& 0x3) <<< 8) ||| (refresh &&& 0xFF)) =
      2 ^ 15 * (refresh / 2 ^ 8 % 2) + (2 ^ 8 * log2 + refresh % 2 ^ 8) := by
    have hmode : log2 &&& 0x3 = log2 := by
      rw [(by decide : 0x3 = 2 ^ 2 - 1), Nat.and_two_pow_sub_one_eq_mod, Nat.mod_eq_of_lt hlog2]
    have hlow : 2 ^ 8 * log2 ||| refresh % 2 ^ 8 = 2 ^ 8 * log2 + refresh % 2 ^ 8 :=
      (Nat.two_pow_add_eq_or_of_lt (Nat.mod_lt _ (by decide)) log2).symm
    rw [hmode, (by decide : 0xFF = 2 ^ 8 - 1), Nat.and_two_pow_sub_one_eq_mod, Nat.and_one_is_mod,
      Nat.shiftRight_eq_div_pow, Nat.shiftLeft_eq, Nat.shiftLeft_eq, Nat.or_assoc, Nat.mul_comm, Nat.mul_comm log2,
      hlow, ← Nat.two_pow_add_eq_or_of_lt (by omega)]
  rw [rowHammerInfo, hor, UInt16.toNat_ofNat']
  omega

theorem refreshModeLog2_lt (m : Nat) : refreshModeLog2 m < 4 := by
  unfold refreshModeLog2
  split <;> decide

theorem fits_iff (t : Timing) (refreshMode : Nat) :
    t.Fits refreshMode ↔
      t.refresh < 512 ∧ t.refreshDma < 256 ∧ t.refreshActivate < 256 ∧ t.refreshPrecharge < 256 := by
  have hrefresh : (t.stored refreshMode).refresh = t.refresh % 512 := by
    have hlog2 := refreshModeLog2_lt refreshMode
    simp only [TimingFields.refresh, Timing.stored, rowHammerInfo_toNat _ hlog2]
    omega
  have hbyte : ∀ n : Nat, (UInt8.ofNat n).toNat = n ↔ n < 256 := by
    intro n
    rw [UInt8.toNat_ofNat']
    omega
  have hword : t.refresh % 512 = t.refresh ↔ t.refresh < 512 := by omega
  constructor
  · rintro ⟨h1, h2, h3, h4⟩
    rw [hrefresh] at h1
    exact ⟨hword.mp h1, (hbyte _).mp h2, (hbyte _).mp h3, (hbyte _).mp h4⟩
  · rintro ⟨h1, h2, h3, h4⟩
    exact ⟨hrefresh.trans (hword.mpr h1), (hbyte _).mpr h2, (hbyte _).mpr h3, (hbyte _).mpr h4⟩

/-! ## The frequencies -/

/-- From here on the values do not fit their fields. -/
def tooFast (refreshMode : Nat) : Nat :=
  match refreshMode with
  | 1 => 3360
  | 2 => 7080
  | _ => 10020

/-- The refresh can be made short enough. -/
def FastEnough (refreshMode fckDivision fckFrequency : Nat) : Prop :=
  match refreshMode, fckDivision with
  | 1, 2 => 116 ≤ fckFrequency ∧ fckFrequency < 120 ∨ 140 ≤ fckFrequency
  | 1, _ => 140 ≤ fckFrequency
  | 2, 3 => 142 ≤ fckFrequency
  | 2, _ => 126 ≤ fckFrequency
  | _, 2 => 156 ≤ fckFrequency ∧ fckFrequency < 200 ∨ 208 ≤ fckFrequency
  | _, 3 => 156 ≤ fckFrequency ∧ fckFrequency < 200 ∨ 234 ≤ fckFrequency
  | _, _ => 208 ≤ fckFrequency

instance (m d f : Nat) : Decidable (FastEnough m d f) := by
  unfold FastEnough
  split <;> infer_instance

/-- The shortest refresh fits. -/
def ShortestFits (m d f : Nat) : Prop :=
  exactTotal (4 / m) (initialActivate (f / 20) - initialPrecharge (f / 20)) 0 < exactDma (tRFC m * f / (4 * d * 1000)) d

instance (m d f : Nat) : Decidable (ShortestFits m d f) := by
  unfold ShortestFits
  infer_instance

/-- The frequencies for which roundings matter. -/
theorem shortestFits_slow : ∀ f < 300, ∀ m ∈ [1, 2, 4], ∀ d ∈ [2, 3, 4], f % 2 = 0 → 100 < f →
    (ShortestFits m d f ↔ FastEnough m d f) := by
  decide +kernel

theorem shortestFits_iff {m d f : Nat} (hm : m = 1 ∨ m = 2 ∨ m = 4) (hd : d = 2 ∨ d = 3 ∨ d = 4) (heven : f % 2 = 0)
    (habove : 100 < f) : ShortestFits m d f ↔ FastEnough m d f := by
  by_cases hf : f < 300
  · exact shortestFits_slow f hf m (by simp; omega) d (by simp; omega) heven habove
  · rcases hm with rfl | rfl | rfl <;> rcases hd with rfl | rfl | rfl <;>
    · simp only [ShortestFits, FastEnough, exactTotal, exactDma, initialActivate, initialPrecharge, tRFC]
      omega

/-! ## The timing of a configuration -/

/-- The arguments of `fetch_dma_and_wavegen_configs`, as the comment of the code assumes them. -/
structure Setting where
  fckFrequency : Nat
  clockDivision : UInt8
  refreshMode : Nat
  frequency_lt : fckFrequency < 2 ^ 32
  frequency_even : fckFrequency % 2 = 0
  frequency_above : 100 < fckFrequency
  mode : refreshMode = 1 ∨ refreshMode = 2 ∨ refreshMode = 4

def Setting.args (x : Setting) : Args := ⟨x.fckFrequency, fckDivision x.clockDivision, x.refreshMode⟩

theorem fckDivision_cases (c : UInt8) : fckDivision c = 2 ∨ fckDivision c = 3 ∨ fckDivision c = 4 := by
  unfold fckDivision fromDivisionFactorToDpuEnum
  split
  · next h =>
    split at h <;> simp_all
  · next h =>
    split at h <;> simp_all
  · exact .inl rfl

theorem Setting.sound (x : Setting) : x.args.Sound := by
  refine ⟨x.frequency_lt, ?_, x.mode⟩
  have hdivision := fckDivision_cases x.clockDivision
  simp only [Setting.args]
  omega

/-- The loop ends, no operation wraps, the refresh is shorter than what the DMA engine leaves for it, and the fields hold
the values. -/
def Timed (x : Setting) : Prop :=
  ∃ fuel t, x.args.fillTimingConfiguration fuel = ⟨some t, false⟩ ∧
    exactTotal (4 / x.refreshMode) t.refreshActivate t.refreshPrecharge <
      (t.refreshDma + 1) * 4 * fckDivision x.clockDivision / 2 ∧
    t.Fits x.refreshMode

def HoldsWhen (x : Setting) : Prop :=
  FastEnough x.refreshMode (fckDivision x.clockDivision) x.fckFrequency ∧ x.fckFrequency < tooFast x.refreshMode

section Timed

variable {x : Setting}

/-- The counts before the loop. -/
def Setting.activate (x : Setting) : Nat := initialActivate (x.fckFrequency / 20)

def Setting.precharge (x : Setting) : Nat := initialPrecharge (x.fckFrequency / 20)

theorem timed_iff_finish :
    Timed x ↔ x.args.Countable ∧
      ∃ a p, x.args.finish x.activate x.precharge = some (a, p) ∧ (x.args.timing a p).Fits x.refreshMode := by
  have hfrequency := x.frequency_lt
  have hsmall : Small x.args.halfTenthFckFrequency x.activate x.precharge := initial_small (by
    show x.fckFrequency / (2 * 10) < 2 ^ 28
    omega)
  have hfill : ∀ fuel, x.args.fillTimingConfiguration fuel = x.args.refreshLoop fuel x.activate x.precharge :=
    fill_eq x.sound x.frequency_above
  by_cases hcountable : x.args.Countable
  · have hloop : ∀ t, (∃ fuel, x.args.refreshLoop fuel x.activate x.precharge = ⟨some t, false⟩) ↔
        ∃ a p, x.args.finish x.activate x.precharge = some (a, p) ∧ t = x.args.timing a p :=
      fun t => refreshLoop_iff x.sound hcountable t (initial_le (x.fckFrequency / 20)) hsmall
    rw [and_iff_right hcountable]
    constructor
    · rintro ⟨fuel, t, hrun, -, hfits⟩
      obtain ⟨a, p, hfinish, rfl⟩ := (hloop t).mp ⟨fuel, by rw [← hfill]; exact hrun⟩
      exact ⟨a, p, hfinish, hfits⟩
    · rintro ⟨a, p, hfinish, hfits⟩
      obtain ⟨fuel, hrun⟩ := (hloop _).mpr ⟨a, p, hfinish, rfl⟩
      refine ⟨fuel, _, (hfill fuel).trans hrun, ?_, hfits⟩
      have hshort := (finish_some hfinish).2.2
      have hone : x.args.periods - 1 + 1 = x.args.periods := Nat.sub_add_cancel hcountable.2
      show exactTotal (4 / x.refreshMode) a p < (x.args.periods - 1 + 1) * 4 * fckDivision x.clockDivision / 2
      rw [hone]
      exact hshort
  · refine ⟨?_, fun h => absurd h.1 hcountable⟩
    rintro ⟨fuel, t, hrun, -⟩
    rw [hfill] at hrun
    exact absurd hrun (refreshLoop_uncountable x.sound hcountable t hsmall fuel)

/-- The counts grow with the frequency. -/
theorem counts_mono {half bound : Nat} (h : half ≤ bound) :
    initialActivate half ≤ initialActivate bound ∧ initialPrecharge half ≤ initialPrecharge bound ∧
      (140 * half + 999) / 1000 ≤ (140 * bound + 999) / 1000 := by
  have hactivate : (512 * half + 999) / 1000 ≤ (512 * bound + 999) / 1000 := Nat.div_le_div_right (by omega)
  have hprecharge : (269 * half + 999) / 1000 ≤ (269 * bound + 999) / 1000 := Nat.div_le_div_right (by omega)
  exact ⟨Nat.sub_le_sub_right hactivate 1, Nat.sub_le_sub_right hprecharge 1, Nat.div_le_div_right (by omega)⟩

/-- Below the bound the values fit, however short the refresh has been made. -/
theorem slow_fits (h : x.fckFrequency < tooFast x.refreshMode) {a p : Nat} (ha : a ≤ x.activate) (hp : p ≤ x.precharge) :
    (x.args.timing a p).Fits x.refreshMode := by
  have hdivision := fckDivision_cases x.clockDivision
  have hhalf : x.fckFrequency / 20 ≤ (tooFast x.refreshMode - 1) / 20 := Nat.div_le_div_right (by omega)
  obtain ⟨hactivate, hprecharge, hpause⟩ := counts_mono hhalf
  have ha' := Nat.le_trans ha hactivate
  have hp' := Nat.le_trans hp hprecharge
  rw [fits_iff]
  simp only [Args.timing, Args.periods, Args.refreshNrPulses, Args.halfTenthFckFrequency, Setting.args,
    refreshNrPulsesDefault, exactRefresh]
  generalize fckDivision x.clockDivision = d at hdivision
  clear ha hp hactivate hprecharge hhalf
  rcases x.mode with hm | hm | hm <;> rw [hm] at h ha' hp' hpause ⊢ <;>
  simp only [tooFast, initialActivate, initialPrecharge, Nat.reduceMul, Nat.reduceAdd, Nat.reduceSub, Nat.reduceDiv]
    at h ha' hp' hpause <;>
  simp only [tRFC, Nat.reduceDiv, Nat.reduceMul] <;>
  · rcases hdivision with rfl | rfl | rfl <;> omega

/-- From the bound on the refresh is short enough at once. -/
theorem fast_shorter (h : tooFast x.refreshMode ≤ x.fckFrequency) : x.args.Shorter x.activate x.precharge := by
  have hdivision := fckDivision_cases x.clockDivision
  simp only [Args.Shorter, Args.periods, Args.refreshNrPulses, Setting.args, refreshNrPulsesDefault, exactTotal, exactDma,
    Setting.activate, Setting.precharge, initialActivate, initialPrecharge]
  generalize fckDivision x.clockDivision = d at hdivision
  rcases x.mode with hm | hm | hm <;> rw [hm] at h ⊢ <;> simp only [tooFast] at h <;> simp only [tRFC] <;>
  · rcases hdivision with rfl | rfl | rfl <;> omega

/-- From the bound on a value does not fit: the refresh, or in mode 4 the first count. -/
theorem fast_unfit (h : tooFast x.refreshMode ≤ x.fckFrequency) :
    ¬(x.args.timing x.activate x.precharge).Fits x.refreshMode := by
  have hhalf : tooFast x.refreshMode / 20 ≤ x.fckFrequency / 20 := Nat.div_le_div_right h
  obtain ⟨hactivate, hprecharge, hpause⟩ := counts_mono hhalf
  rw [fits_iff]
  rintro ⟨hrefresh, -, hcount, -⟩
  change exactRefresh (4 / x.refreshMode) (x.fckFrequency / 20) x.activate x.precharge < 512 at hrefresh
  change x.activate < 256 at hcount
  change initialActivate (tooFast x.refreshMode / 20) ≤ x.activate at hactivate
  change initialPrecharge (tooFast x.refreshMode / 20) ≤ x.precharge at hprecharge
  unfold exactRefresh at hrefresh
  rcases x.mode with hm | hm | hm <;> rw [hm] at hactivate hprecharge hpause hrefresh <;>
  simp only [tooFast, initialActivate, initialPrecharge, Nat.reduceMul, Nat.reduceAdd, Nat.reduceSub, Nat.reduceDiv]
    at hactivate hprecharge hpause hrefresh <;>
  omega

theorem timed_iff (x : Setting) : Timed x ↔ HoldsWhen x := by
  rw [timed_iff_finish]
  have hshortest : x.args.Shorter (x.activate - x.precharge) 0 ↔
      FastEnough x.refreshMode (fckDivision x.clockDivision) x.fckFrequency :=
    shortestFits_iff x.mode (fckDivision_cases x.clockDivision) x.frequency_even x.frequency_above
  have hfinish := finish_isSome_iff (x := x.args) (initial_le (x.fckFrequency / 20))
  constructor
  · rintro ⟨-, a, p, hrun, hfits⟩
    refine ⟨hshortest.mp (hfinish.mp ⟨a, p, hrun⟩), ?_⟩
    by_contra hfast
    have hbound := Nat.le_of_not_lt hfast
    obtain ⟨rfl, rfl⟩ : x.activate = a ∧ x.precharge = p := by
      rw [finish_now (fast_shorter hbound)] at hrun
      simpa using hrun
    exact fast_unfit hbound hfits
  · rintro ⟨hfast, hslow⟩
    obtain ⟨a, p, hrun⟩ := hfinish.mpr (hshortest.mpr hfast)
    obtain ⟨ha, hp, hshort⟩ := finish_some hrun
    refine ⟨⟨?_, ?_⟩, a, p, hrun, slow_fits hslow ha hp⟩
    · have hle := tRFC_le x.refreshMode
      have hmul : tRFC x.refreshMode * x.fckFrequency ≤ 345 * x.fckFrequency := Nat.mul_le_mul_right _ hle
      have hbound : tooFast x.refreshMode ≤ 10020 := by
        unfold tooFast
        split <;> decide
      show tRFC x.refreshMode * x.fckFrequency < 2 ^ 32
      omega
    · -- without a period the DMA engine would leave nothing
      by_contra hno
      have hzero : x.args.periods = 0 := by omega
      unfold Args.Shorter at hshort
      rw [hzero] at hshort
      simp [exactDma] at hshort

/-- The slowest frequency, halved, with the refresh of mode 1. -/
def slowest : Setting := ⟨102, 2, 1, by decide, by decide, by decide, .inl rfl⟩

/-- The counts reach zero before the refresh is short enough: the decrement wraps. -/
theorem slowest_wraps : (slowest.args.fillTimingConfiguration 3).wrapped = true ∧ ¬Timed slowest := by
  refine ⟨by decide +kernel, ?_⟩
  rw [timed_iff_finish]
  rintro ⟨-, a, p, hrun, -⟩
  have hnone : slowest.args.finish slowest.activate slowest.precharge = none := by decide +kernel
  rw [hnone] at hrun
  exact absurd hrun nofun

end Timed

end DpuBackend.Ufi.RefreshTiming
