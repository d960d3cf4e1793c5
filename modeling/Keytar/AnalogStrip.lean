import Keytar.MidiValues
import Mathlib.Data.Rat.Floor

/-!
# The analog strip

A touch of the strip is a reading of the converter, which is scaled to the range of
the value that the strip is assigned to. A float is an exact rational here.
-/
namespace Keytar.AnalogStrip
open MidiValues

/-- `analog_strip_midi_value` and `reset_on_release`. -/
structure Strip where
  midiValue : Option MidiValueRef
  resetOnRelease : Bool
  deriving DecidableEq, Repr

def Strip.boot : Strip := ⟨none, false⟩

/-- The value that is given up goes back to its default under the old flag. -/
def analogStripAssign {σ : Type*} (send : Callback σ) (mv : Option MidiValueRef) (reset : Bool)
    (strip : Strip) (s : Store σ) : Strip × Store σ :=
  let s := match strip.midiValue with
    | some old =>
        if strip.resetOnRelease then
          midiValueSet send old (s.values old).defaultValue false s
        else s
    | none => s
  (⟨mv, reset⟩, s)

/-- `MIN_VALUE`, `MAX_VALUE` and `OFF_THRESHOLD_VALUE`. -/
def minValue : UInt32 := 200
def maxValue : UInt32 := 3600
def offThresholdValue : UInt32 := 3850

@[simp] theorem minValue_toNat : minValue.toNat = 200 := rfl
@[simp] theorem maxValue_toNat : maxValue.toNat = 3600 := rfl
@[simp] theorem offThresholdValue_toNat : offThresholdValue.toNat = 3850 := rfl

/-- The value that is stored where the strip is touched. -/
def analogStripReadUint16 (adcRead : UInt16) : Option UInt16 :=
  let adcValue := adcRead.toUInt32
  if adcValue > offThresholdValue then none
  else if adcValue > maxValue then some 0xffff
  else if adcValue < minValue then some 0
  else some ((adcValue - minValue) * 0xffff / (maxValue - minValue)).toUInt16

def analogStripReadFloat (adcRead : UInt16) : Option ℚ :=
  let adcValue := adcRead.toUInt32
  if adcValue > offThresholdValue then none
  else if adcValue > maxValue then some 1
  else if adcValue < minValue then some 0
  else some ((adcValue - minValue).toNat / (maxValue - minValue).toNat)

/-- The conversion of a float to an integer, where C defines it. -/
def truncate (x : ℚ) : UInt16 := UInt16.ofNat ⌊x⌋₊

section Task
variable {σ : Type*} (send : Callback σ) (adcRead : UInt16)

def analogStripRead (mv : MidiValueRef) (resetOnRelease : Bool) (s : Store σ) : Bool × Store σ :=
  match analogStripReadFloat adcRead with
  | none =>
      (false, if resetOnRelease then midiValueSet send mv (s.values mv).defaultValue false s else s)
  | some v =>
      let minV : ℚ := (s.values mv).minValue.toNat
      let maxV : ℚ := (s.values mv).maxValue.toNat
      (true, midiValueSet send mv (truncate (minV + (maxV - minV) * v)) false s)

def analogStripTask (strip : Strip) (s : Store σ) : Store σ :=
  match strip.midiValue with
  | some mv => (analogStripRead send adcRead mv strip.resetOnRelease s).2
  | none => s

end Task

end Keytar.AnalogStrip
