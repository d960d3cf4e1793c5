import Keytar.AnalogStrip
import Keytar.Lib.Scaling

/-!
# From the strip to a value

Both readings of the strip locate the touch in the same range, one as a fraction and
one by integers. The fraction is then taken of the range of a value, where the
clamping finds nothing left to do.
-/
namespace Keytar.StripScaling
open AnalogStrip MidiValues Scaling

section Readings
variable (adc : UInt16)

theorem touched_iff : ¬ adc.toUInt32 > offThresholdValue ↔ adc.toNat ≤ 3850 := by
  simp [UInt32.le_iff_toNat_le]

theorem above_iff : adc.toUInt32 > maxValue ↔ 3600 < adc.toNat := by
  simp [UInt32.lt_iff_toNat_lt]

theorem below_iff : adc.toUInt32 < minValue ↔ adc.toNat < 200 := by
  simp [UInt32.lt_iff_toNat_lt]

variable {adc}

theorem toNat_sub_minValue (h : 200 ≤ adc.toNat) :
    (adc.toUInt32 - minValue).toNat = adc.toNat - 200 := by
  have hle : minValue ≤ adc.toUInt32 := by simpa [UInt32.le_iff_toNat_le] using h
  rw [UInt32.toNat_sub_of_le _ _ hle, UInt16.toNat_toUInt32, minValue_toNat]

/-- The product of the integer path fits its 32 bits. -/
theorem toNat_product (hlow : 200 ≤ adc.toNat) (hhigh : adc.toNat ≤ 3600) :
    ((adc.toUInt32 - minValue) * 0xffff).toNat = (adc.toNat - 200) * 65535 := by
  have hfactor : (0xffff : UInt32).toNat = 65535 := rfl
  rw [UInt32.toNat_mul, toNat_sub_minValue hlow, hfactor]
  exact Nat.mod_eq_of_lt (by omega)

/-- The float path reads a fraction of the range between the two limits. -/
theorem analogStripReadFloat_eq : analogStripReadFloat adc =
    if adc.toNat ≤ 3850 then some (fraction ℚ 200 3600 adc.toNat) else none := by
  have hwidth : (maxValue - minValue).toNat = 3400 := rfl
  simp only [analogStripReadFloat, fraction, ← touched_iff, above_iff, below_iff, ite_not]
  split_ifs with hoff hhigh hlow
  · rfl
  · rfl
  · rfl
  · rw [toNat_sub_minValue (by omega), hwidth]

theorem analogStripReadUint16_eq : (analogStripReadUint16 adc).map UInt16.toNat =
    if adc.toNat ≤ 3850 then some ⌊(65535 : ℚ) * fraction ℚ 200 3600 adc.toNat⌋₊ else none := by
  have hfloor : ⌊((65535 : ℕ) : ℚ) * fraction ℚ 200 3600 adc.toNat⌋₊ = _ := floor_mul_fraction 65535
  rw [Nat.cast_ofNat] at hfloor
  rw [hfloor]
  simp only [analogStripReadUint16, ← touched_iff, above_iff, below_iff, ite_not]
  split_ifs with hoff hhigh hlow
  · rfl
  · rfl
  · rfl
  · have hwidth : (maxValue - minValue).toNat = 3400 := rfl
    rw [Option.map_some, UInt32.toNat_toUInt16, UInt32.toNat_div,
      toNat_product (by omega) (by omega), hwidth]
    exact congrArg some (Nat.mod_eq_of_lt (by omega))

end Readings

section Stored
variable {σ : Type*} (send : Callback σ) (r : MidiValueRef) (reset : Bool) (s : Store σ)

/-- What a reading leaves in the value. -/
def stored (adc : UInt16) : UInt16 := ((analogStripRead send adc r reset s).2.values r).value

/-- Where a number is between the bounds, the value that is stored is the number. -/
theorem clampU16_ofNat {lo hi : UInt16} {n : ℕ} (hlow : lo.toNat ≤ n) (hhigh : n ≤ hi.toNat) :
    (clampU16 (UInt16.ofNat n) lo hi).toNat = n := by
  have hnat : (UInt16.ofNat n).toNat = n :=
    UInt16.toNat_ofNat_of_lt' (Nat.lt_of_le_of_lt hhigh hi.toNat_lt)
  rw [clampU16_inside, hnat]
  · rwa [UInt16.le_iff_toNat_le, hnat]
  · rwa [UInt16.le_iff_toNat_le, hnat]

variable {s}

/-- A touch stores its fraction of the range, which `clamp_u16` leaves alone. -/
theorem stored_toNat (hbounds : (s.values r).minValue ≤ (s.values r).maxValue) {adc : UInt16}
    (hadc : adc.toNat ≤ 3850) : (stored send r reset s adc).toNat =
      scale (s.values r).minValue.toNat (s.values r).maxValue.toNat
        (fraction ℚ 200 3600 adc.toNat) := by
  have hle := UInt16.le_iff_toNat_le.mp hbounds
  have hstored : stored send r reset s adc = clampU16
      (UInt16.ofNat (scale (s.values r).minValue.toNat (s.values r).maxValue.toNat
        (fraction ℚ 200 3600 adc.toNat))) (s.values r).minValue (s.values r).maxValue := by
    rw [stored, analogStripRead, analogStripReadFloat_eq, if_pos hadc]
    exact midiValueSet_self ..
  rw [hstored]
  exact clampU16_ofNat (le_scale hle fraction_nonneg) (scale_le hle fraction_le_one)

/-- For a value of any bounds, a touch of the strip stores a number between them, a
higher touch no lower one, and the ends of the strip store the bounds. The integer
path sees the same touches, its product fits, and it has the fraction of the float
path as a fraction of 65535. -/
theorem strip_scaling (hbounds : (s.values r).minValue ≤ (s.values r).maxValue) {a b : UInt16}
    (hab : a ≤ b) (hb : b.toUInt32 ≤ offThresholdValue) :
    ((s.values r).minValue ≤ stored send r reset s a ∧
        stored send r reset s a ≤ (s.values r).maxValue) ∧
      stored send r reset s a ≤ stored send r reset s b ∧
      (a.toUInt32 ≤ minValue → stored send r reset s a = (s.values r).minValue) ∧
      (maxValue ≤ a.toUInt32 → stored send r reset s a = (s.values r).maxValue) ∧
      ∀ adc : UInt16,
        (analogStripReadUint16 adc).isSome = (analogStripReadFloat adc).isSome ∧
        (minValue ≤ adc.toUInt32 → adc.toUInt32 ≤ maxValue →
          ((adc.toUInt32 - minValue) * 0xffff).toNat =
            (adc.toUInt32 - minValue).toNat * 0xffff) ∧
        (analogStripReadUint16 adc).map UInt16.toNat =
          (analogStripReadFloat adc).map fun v => ⌊65535 * v⌋₊ := by
  have hle := UInt16.le_iff_toNat_le.mp hbounds
  have hb' := (touched_iff b).mp (UInt32.not_lt.mpr hb)
  have hab' := UInt16.le_iff_toNat_le.mp hab
  have ha' : a.toNat ≤ 3850 := Nat.le_trans hab' hb'
  have ha := stored_toNat send r reset hbounds ha'
  have hnumbers (adc : UInt16) : (analogStripReadUint16 adc).map UInt16.toNat =
      (analogStripReadFloat adc).map fun v => ⌊65535 * v⌋₊ := by
    rw [analogStripReadUint16_eq, analogStripReadFloat_eq]
    split_ifs <;> rfl
  refine ⟨⟨?_, ?_⟩, ?_, fun hlow => ?_, fun hhigh => ?_, fun adc => ⟨?_, fun hlow hhigh => ?_, ?_⟩⟩
  · rw [UInt16.le_iff_toNat_le, ha]
    exact le_scale hle fraction_nonneg
  · rw [UInt16.le_iff_toNat_le, ha]
    exact scale_le hle fraction_le_one
  · rw [UInt16.le_iff_toNat_le, ha, stored_toNat send r reset hbounds hb']
    exact scale_mono hle (fraction_mono hab')
  · have hlow' : a.toNat ≤ 200 := by simpa [UInt32.le_iff_toNat_le] using hlow
    rw [← UInt16.toNat_inj, ha, fraction_of_le hlow' (by decide), scale_zero]
  · have hhigh' : 3600 ≤ a.toNat := by simpa [UInt32.le_iff_toNat_le] using hhigh
    rw [← UInt16.toNat_inj, ha, fraction_of_ge hhigh' (by decide), scale_one]
  · have hsome := congrArg Option.isSome (hnumbers adc)
    rwa [Option.isSome_map, Option.isSome_map] at hsome
  · have hlow' : 200 ≤ adc.toNat := by simpa [UInt32.le_iff_toNat_le] using hlow
    have hhigh' : adc.toNat ≤ 3600 := by simpa [UInt32.le_iff_toNat_le] using hhigh
    rw [toNat_product hlow' hhigh', toNat_sub_minValue hlow']
  · exact hnumbers adc

end Stored

/-- A send that always succeeds. -/
def accepted : Callback Unit := fun _ _ outer => (true, outer)

example : stored accepted .mvMod true (boot ()) 1900 = 63 := by decide +kernel

/-- The middle of the strip and a touch near its upper end, for the modulation. -/
theorem strip_scaling_middle :
    (0 ≤ stored accepted .mvMod true (boot ()) 1900 ∧
        stored accepted .mvMod true (boot ()) 1900 ≤ 127) ∧
      stored accepted .mvMod true (boot ()) 1900 ≤ stored accepted .mvMod true (boot ()) 3700 := by
  have hbounds : ((boot ()).values .mvMod).minValue ≤ ((boot ()).values .mvMod).maxValue := by
    decide
  have hab : (1900 : UInt16) ≤ 3700 := by decide
  obtain ⟨hrange, hmono, -⟩ := strip_scaling accepted .mvMod true hbounds hab (by decide)
  exact ⟨hrange, hmono⟩

end Keytar.StripScaling
