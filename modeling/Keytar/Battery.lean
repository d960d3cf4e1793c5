import Keytar.Lib.Hysteresis
import Keytar.Lib.Memory
import Keytar.Lib.Runs
import Mathlib.Data.Rat.Defs
import Mathlib.Tactic.Linarith
import Mathlib.Tactic.NormNum

/-!
# The battery level

The level is found by walking up from `EMPTY` and comparing the voltage with a
threshold at each step, in favour of the level of the last call. The index into
the thresholds is one too high: the first boundary is never used, and the last
step reads behind the array.
-/
namespace Keytar.Battery
open Memory

inductive BatteryLevel where
  | empty | low | medium | full
  deriving DecidableEq, Repr

def BatteryLevel.toNat : BatteryLevel → ℕ
  | .empty => 0
  | .low => 1
  | .medium => 2
  | .full => 3

def voltageThresholdLow : ℚ := 3.2
def voltageThresholdMedium : ℚ := 3.6
def voltageThresholdFull : ℚ := 3.9
def voltageHisteresis : ℚ := 0.07

def maxAdcValue : ℕ := 2 ^ 12 - 1

def batteryGetVoltage (adcValue : UInt16) : ℚ := 3.3 * adcValue.toNat / maxAdcValue * 2

def voltageThresholds : List ℚ :=
  [voltageThresholdLow, voltageThresholdMedium, voltageThresholdFull]

/-- The loop over the targets, which the source counts up from `EMPTY` to below `FULL`. -/
def levelLoop (v : ℚ) (lastLevel : BatteryLevel) : List BatteryLevel → Except Fault BatteryLevel
  | [] => pure .full
  | target :: targets => do
      let threshold ← readAt voltageThresholds (target.toNat + 1)
      if v < threshold then pure target
      else if lastLevel = target ∧ v < threshold + voltageHisteresis then pure target
      else levelLoop v lastLevel targets

/-- The returned level is also the one that the next call finds as its last. -/
def batteryGetLevel (isFullyCharged : Bool) (v : ℚ) (lastLevel : BatteryLevel) :
    Except Fault BatteryLevel :=
  if isFullyCharged then pure .full else levelLoop v lastLevel [.empty, .low, .medium]

/-- The threshold between a level and the one below it. -/
def BatteryLevel.lower : BatteryLevel → Option ℚ
  | .empty => none
  | .low => some voltageThresholdLow
  | .medium => some voltageThresholdMedium
  | .full => some voltageThresholdFull

/-- The threshold between a level and the one above it. -/
def BatteryLevel.upper : BatteryLevel → Option ℚ
  | .empty => some voltageThresholdLow
  | .low => some voltageThresholdMedium
  | .medium => some voltageThresholdFull
  | .full => none

/-- The voltage lies between the thresholds around the level, or just above the
upper one if the level was the last one too. -/
structure Classifies (lastLevel : BatteryLevel) (v : ℚ) (level : BatteryLevel) : Prop where
  lower : ∀ t ∈ level.lower, t ≤ v
  upper : ∀ t ∈ level.upper, v < t ∨ (lastLevel = level ∧ v < t + voltageHisteresis)

/-- Every call of a sequence stays in the array and classifies its voltage. -/
def Classified : BatteryLevel → List ℚ → Prop
  | _, [] => True
  | lastLevel, v :: vs =>
      ∃ level, batteryGetLevel false v lastLevel = .ok level ∧ Classifies lastLevel v level ∧
        Classified level vs

/-- The voltage is below the lowest boundary, or within the hysteresis above the
boundary at which `EMPTY` or `LOW` ends and that level is the last one. -/
def Harmless : BatteryLevel → List ℚ → Prop
  | _, [] => True
  | lastLevel, v :: vs =>
      ((v < 3.2 ∨ (lastLevel = .empty ∧ v < 3.27)) ∧ Harmless .empty vs) ∨
        (lastLevel = .low ∧ 3.6 ≤ v ∧ v < 3.67 ∧ Harmless .low vs)

section Level
variable {v : ℚ} {lastLevel : BatteryLevel}

theorem low_histeresis : voltageThresholdLow + voltageHisteresis = 3.27 := by
  norm_num [voltageThresholdLow, voltageHisteresis]

theorem medium_histeresis : voltageThresholdMedium + voltageHisteresis = 3.67 := by
  norm_num [voltageThresholdMedium, voltageHisteresis]

theorem full_histeresis : voltageThresholdFull + voltageHisteresis = 3.97 := by
  norm_num [voltageThresholdFull, voltageHisteresis]

/-- What the shifted index makes of the thresholds. -/
theorem batteryGetLevel_eq : batteryGetLevel false v lastLevel =
    if v < 3.6 ∨ (lastLevel = .empty ∧ v < 3.67) then .ok .empty
    else if v < 3.9 ∨ (lastLevel = .low ∧ v < 3.97) then .ok .low
    else .error .outOfBounds := by
  have hmedium : voltageThresholdMedium = 3.6 := rfl
  have hfull : voltageThresholdFull = 3.9 := rfl
  have hlast : levelLoop v lastLevel [.low, .medium] =
      if v < voltageThresholdFull then .ok .low
      else if lastLevel = .low ∧ v < voltageThresholdFull + voltageHisteresis then .ok .low
      else .error .outOfBounds := rfl
  have hfirst : batteryGetLevel false v lastLevel =
      if v < voltageThresholdMedium then .ok .empty
      else if lastLevel = .empty ∧ v < voltageThresholdMedium + voltageHisteresis then .ok .empty
      else levelLoop v lastLevel [.low, .medium] := rfl
  rw [hfirst, hlast, medium_histeresis, full_histeresis, hmedium, hfull]
  by_cases h₁ : v < 3.6
  · simp [h₁]
  by_cases h₂ : v < 3.9
  · simp [h₁, h₂]
  · simp [h₁, h₂]

theorem classifies_empty :
    Classifies lastLevel v .empty ↔ v < 3.2 ∨ (lastLevel = .empty ∧ v < 3.27) := by
  constructor
  · intro h
    rw [← low_histeresis]
    exact h.upper voltageThresholdLow rfl
  · intro h
    refine ⟨fun t ht => (Option.not_mem_none t ht).elim, fun t ht => ?_⟩
    obtain rfl := Option.mem_some_iff.mp ht
    rw [low_histeresis]
    exact h

theorem classifies_low (hv : 3.6 ≤ v) :
    Classifies lastLevel v .low ↔ lastLevel = .low ∧ v < 3.67 := by
  have hmedium : ¬ v < voltageThresholdMedium := not_lt.mpr hv
  constructor
  · intro h
    simpa only [hmedium, false_or, medium_histeresis] using h.upper voltageThresholdMedium rfl
  · intro h
    refine ⟨fun t ht => ?_, fun t ht => ?_⟩
    · obtain rfl := Option.mem_some_iff.mp ht
      norm_num [voltageThresholdLow] at hv ⊢
      linarith
    · obtain rfl := Option.mem_some_iff.mp ht
      rw [medium_histeresis]
      exact .inr h

end Level

/-- The levels are classified and the array is respected along a whole sequence
exactly if all its voltages are harmless: a reading from the first boundary on that
is not in the hysteresis of the last level goes wrong. -/
theorem classified_iff (lastLevel : BatteryLevel) (vs : List ℚ) :
    Classified lastLevel vs ↔ Harmless lastLevel vs := by
  induction vs generalizing lastLevel with
  | nil => exact Iff.rfl
  | cons v vs ih =>
      constructor
      · rintro ⟨level, hlevel, hclass, hrest⟩
        rw [batteryGetLevel_eq] at hlevel
        split_ifs at hlevel with hempty hlow
        · obtain rfl := Except.ok.inj hlevel
          exact .inl ⟨classifies_empty.mp hclass, (ih .empty).mp hrest⟩
        · obtain rfl := Except.ok.inj hlevel
          have hv : 3.6 ≤ v := not_lt.mp fun h => hempty (.inl h)
          obtain ⟨hlast, hhigh⟩ := (classifies_low hv).mp hclass
          exact .inr ⟨hlast, hv, hhigh, (ih .low).mp hrest⟩
      · rintro (⟨hv, hrest⟩ | ⟨rfl, hv, hhigh, hrest⟩)
        · refine ⟨.empty, ?_, classifies_empty.mpr hv, (ih .empty).mpr hrest⟩
          rw [batteryGetLevel_eq, if_pos]
          rcases hv with hv | ⟨hlast, hv⟩
          · exact .inl (by linarith)
          · exact .inr ⟨hlast, by linarith⟩
        · refine ⟨.low, ?_, (classifies_low hv).mpr ⟨rfl, hhigh⟩, (ih .low).mpr hrest⟩
          rw [batteryGetLevel_eq, if_neg (by simp [hv]), if_pos (.inl (by linarith))]

/-- A battery at 4.03 V, as the converter reads it, makes the very first call read
behind the thresholds. -/
theorem not_classified_charged : ¬ Classified .full [batteryGetVoltage 2500] := by
  rintro ⟨level, hlevel, -⟩
  have hv : 3.97 ≤ batteryGetVoltage 2500 := by
    have hadc : (2500 : UInt16).toNat = 2500 := rfl
    norm_num [batteryGetVoltage, maxAdcValue, hadc]
  rw [batteryGetLevel_eq, if_neg (by simp; linarith), if_neg (by simp; linarith)] at hlevel
  cases hlevel

section Sequences
variable {v : ℚ} {vs : List ℚ} {lastLevel level : BatteryLevel} {levels : List BatteryLevel}

/-- The levels of consecutive calls. -/
def batteryGetLevels : BatteryLevel → List ℚ → Except Fault (List BatteryLevel)
  | _, [] => pure []
  | lastLevel, v :: vs => do
      let level ← batteryGetLevel false v lastLevel
      let levels ← batteryGetLevels level vs
      pure (level :: levels)

/-- `EMPTY` is the trigger's off; the index into the thresholds lets no other level but
`LOW` be reached without a fault. -/
def levelOf (on : Bool) : BatteryLevel := if on then .low else .empty

theorem batteryGetLevel_trigger (h : batteryGetLevel false v lastLevel = .ok level) :
    level = levelOf (Hysteresis.trigger voltageThresholdMedium
      (voltageThresholdMedium + voltageHisteresis) (lastLevel != .empty) v) := by
  rw [medium_histeresis, show voltageThresholdMedium = 3.6 from rfl]
  rw [batteryGetLevel_eq] at h
  split_ifs at h with hempty hlow
  · obtain rfl := Except.ok.inj h
    by_cases hlast : lastLevel = .empty
    · have hv : v < 3.67 := by
        rcases hempty with hv | ⟨-, hv⟩
        · linarith
        · exact hv
      simp [hlast, Hysteresis.trigger, levelOf, hv]
    · have hv : v < 3.6 := hempty.resolve_right fun h => hlast h.1
      simp [hlast, Hysteresis.trigger, levelOf, hv]
  · obtain rfl := Except.ok.inj h
    obtain ⟨hv, hhigh⟩ := not_or.mp hempty
    by_cases hlast : lastLevel = .empty
    · have hv : (3.67 : ℚ) ≤ v := not_lt.mp fun h => hhigh ⟨hlast, h⟩
      simp [hlast, Hysteresis.trigger, levelOf, hv]
    · simp [hlast, Hysteresis.trigger, levelOf, not_lt.mp hv]

theorem batteryGetLevels_trigger (h : batteryGetLevels lastLevel vs = .ok levels) :
    levels = (Hysteresis.outputs voltageThresholdMedium
      (voltageThresholdMedium + voltageHisteresis) (lastLevel != .empty) vs).map levelOf := by
  induction vs generalizing lastLevel levels with
  | nil => exact (Except.ok.inj h).symm
  | cons v vs ih =>
      obtain ⟨level, hlevel, h⟩ := Runs.bind_ok h
      obtain ⟨rest, hrest, h⟩ := Runs.bind_ok h
      have hfirst := batteryGetLevel_trigger hlevel
      have hagain : (level != .empty) = Hysteresis.trigger voltageThresholdMedium
          (voltageThresholdMedium + voltageHisteresis) (lastLevel != .empty) v := by
        rw [hfirst]
        cases Hysteresis.trigger voltageThresholdMedium
          (voltageThresholdMedium + voltageHisteresis) (lastLevel != .empty) v <;> rfl
      rw [← Except.ok.inj h, Hysteresis.outputs, List.map_cons, ← hfirst, ← hagain, ih hrest]

/-- Voltages that differ by less than the hysteresis make the level change once at most,
whatever the last level was, as long as the calls return. -/
theorem batteryGetLevels_settle (h : batteryGetLevels lastLevel vs = .ok levels)
    (hnarrow : ∀ v ∈ vs, ∀ v' ∈ vs, v' < v + voltageHisteresis) :
    ∃ m n x y, levels = List.replicate m x ++ List.replicate n y := by
  have hside : (∀ v ∈ vs, voltageThresholdMedium ≤ v) ∨
      ∀ v ∈ vs, v < voltageThresholdMedium + voltageHisteresis := by
    by_cases hlow : ∀ v ∈ vs, voltageThresholdMedium ≤ v
    · exact .inl hlow
    · push Not at hlow
      obtain ⟨v, hv, hbelow⟩ := hlow
      exact .inr fun v' hv' => (hnarrow v hv v' hv').trans (by linarith)
  obtain ⟨m, n, b, hmn⟩ := Hysteresis.outputs_settle (lastLevel != .empty) hside
  refine ⟨m, n, levelOf b, levelOf !b, ?_⟩
  rw [batteryGetLevels_trigger h, hmn, List.map_append, List.map_replicate, List.map_replicate]

/-- Around the threshold for `MEDIUM` the level falls once and does not come back. -/
theorem batteryGetLevels_around :
    batteryGetLevels .full [3.62, 3.64, 3.59, 3.64, 3.58, 3.63] =
        .ok [.low, .low, .empty, .empty, .empty, .empty] ∧
      ∃ m n x y, [BatteryLevel.low, .low, .empty, .empty, .empty, .empty] =
        List.replicate m x ++ List.replicate n y := by
  have hrun : batteryGetLevels .full [3.62, 3.64, 3.59, 3.64, 3.58, 3.63] =
      .ok [.low, .low, .empty, .empty, .empty, .empty] := by
    simp only [batteryGetLevels, batteryGetLevel_eq]
    norm_num
    rfl
  exact ⟨hrun, batteryGetLevels_settle hrun (by norm_num [voltageHisteresis])⟩

end Sequences

end Keytar.Battery
