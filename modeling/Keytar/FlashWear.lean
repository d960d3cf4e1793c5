import Keytar.Config

/-!
# Wear of the flash

`save_internal` means to write only if it has to, and compares whole objects to
find out. The three bytes between the keymap index and the Bluetooth state belong
to no member: they are what the stack held before, so two saves of the same
settings can differ in them.
-/
namespace Keytar.FlashWear
open Bytes Config KeyboardMatrix

/-- The flash holds these settings, and behind the keymap index the bytes of the stack. -/
structure Holds (abi : EnumAbi) (stack : Mem) (keymap : Keymap) (initialState bytes : Mem) :
    Prop where
  magic : numberAt bytes 0 2 = configMagicNumber
  version : numberAt bytes 2 2 = configVersion
  keymapIndex : numberAt bytes 4 1 = getKeymapIndex keymap
  padding : ∀ i, 5 ≤ i → i < bleOffset → bytes i = stack i
  ble : SameBytes (bleStateSize abi) (window bytes bleOffset) initialState

/-- Two saves in a row erase and program at most once. -/
def AtMostOneWrite (abi : EnumAbi) (stack stack' : Mem) (keymap : Keymap) (initialState : Mem)
    (f : Flash) : Prop :=
  let f' := saveInternal abi stack' keymap initialState
    (saveInternal abi stack keymap initialState f)
  f'.erases ≤ f.erases + 1 ∧ f'.programs ≤ f.programs + 1

section Saves
variable {abi : EnumAbi} {stack stack' : Mem} {keymap : Keymap} {initialState : Mem} {f : Flash}

theorem localConfig_holds :
    Holds abi stack keymap initialState
      (localConfig abi stack (getKeymapIndex keymap) initialState) where
  magic := localConfig_magic
  version := localConfig_version
  keymapIndex := localConfig_keymap keymap
  padding := fun _ hlow hhigh => localConfig_padding hlow hhigh
  ble := fun _ hi => localConfig_ble hi

/-- The comparison of the bytes is one of the members and of the padding. -/
theorem sameBytes_iff_holds {bytes : Mem} :
    SameBytes (configSize abi) (localConfig abi stack (getKeymapIndex keymap) initialState) bytes ↔
      Holds abi stack keymap initialState bytes := by
  have hlocal : Holds abi stack keymap initialState _ := localConfig_holds
  have hsize := configSize_eq abi
  have hoffset : bleOffset = 8 := rfl
  constructor
  · intro hsame
    have hnumber {offset n : ℕ} (hin : offset + n ≤ 8) :=
      numberAt_congr fun i (hi : i < n) => hsame (offset + i) (by omega)
    refine ⟨?_, ?_, ?_, fun i hlow hhigh => ?_, fun i hi => ?_⟩
    · rw [← hnumber (by decide), hlocal.magic]
    · rw [← hnumber (by decide), hlocal.version]
    · rw [← hnumber (by decide), hlocal.keymapIndex]
    · rw [← hsame i (by omega), hlocal.padding i hlow hhigh]
    · exact (hsame (bleOffset + i) (by omega)).symm.trans (hlocal.ble i hi)
  · intro hbytes i hi
    have hmagic := numberAt_inj (hlocal.magic.trans hbytes.magic.symm)
    have hversion := numberAt_inj (hlocal.version.trans hbytes.version.symm)
    have hkeymap := numberAt_inj (hlocal.keymapIndex.trans hbytes.keymapIndex.symm)
    rcases Nat.lt_or_ge i 2 with h2 | h2
    · simpa using hmagic i h2
    rcases Nat.lt_or_ge i 4 with h4 | h4
    · simpa [Nat.add_sub_cancel' h2] using hversion (i - 2) (by omega)
    rcases Nat.lt_or_ge i 5 with h5 | h5
    · obtain rfl : i = 4 := by omega
      exact hkeymap 0 (by decide)
    rcases Nat.lt_or_ge i bleOffset with h8 | h8
    · rw [hlocal.padding i h5 h8, hbytes.padding i h5 h8]
    · have hble := (hlocal.ble (i - bleOffset) (by omega)).trans
        (hbytes.ble (i - bleOffset) (by omega)).symm
      simpa only [window, Nat.add_sub_cancel' h8] using hble

/-- The second save finds what it would write exactly if it has the same padding. -/
theorem second_skips_iff :
    SameBytes (configSize abi) (localConfig abi stack' (getKeymapIndex keymap) initialState)
        (saveInternal abi stack keymap initialState f).bytes ↔
      ∀ i, 5 ≤ i → i < bleOffset → stack i = stack' i := by
  have hstored :
      SameBytes (configSize abi) (saveInternal abi stack keymap initialState f).bytes _ :=
    saveInternal_stores
  have hlocal : Holds abi stack keymap initialState _ := localConfig_holds
  calc _ ↔ SameBytes (configSize abi) (localConfig abi stack' (getKeymapIndex keymap) initialState)
        (localConfig abi stack (getKeymapIndex keymap) initialState) :=
        forall₂_congr fun i hi => by rw [hstored i hi]
    _ ↔ Holds abi stack' keymap initialState
        (localConfig abi stack (getKeymapIndex keymap) initialState) := sameBytes_iff_holds
    _ ↔ _ := by
      constructor
      · intro h i hlow hhigh
        rw [← hlocal.padding i hlow hhigh, h.padding i hlow hhigh]
      · intro h
        refine ⟨hlocal.magic, hlocal.version, hlocal.keymapIndex, fun i hlow hhigh => ?_,
          hlocal.ble⟩
        rw [hlocal.padding i hlow hhigh, h i hlow hhigh]

/-- Two saves without a change in between write at most once exactly if the first
finds its own bytes in the flash, or the stack held the same bytes under the
padding both times. -/
theorem atMostOneWrite_iff (abi : EnumAbi) (stack stack' : Mem) (keymap : Keymap)
    (initialState : Mem) (f : Flash) :
    AtMostOneWrite abi stack stack' keymap initialState f ↔
      Holds abi stack keymap initialState f.bytes ∨
        ∀ i, 5 ≤ i → i < bleOffset → stack i = stack' i := by
  have hskips : SameBytes (configSize abi)
      (localConfig abi stack' (getKeymapIndex keymap) initialState)
      (saveInternal abi stack keymap initialState f).bytes ↔ _ := second_skips_iff
  rw [← sameBytes_iff_holds, ← hskips]
  unfold AtMostOneWrite
  by_cases hfirst : SameBytes (configSize abi)
      (localConfig abi stack (getKeymapIndex keymap) initialState) f.bytes
  · rw [saveInternal_skipped hfirst]
    refine iff_of_true ?_ (.inl hfirst)
    by_cases hsecond : SameBytes (configSize abi)
        (localConfig abi stack' (getKeymapIndex keymap) initialState) f.bytes
    · simp [saveInternal_skipped hsecond]
    · simp [saveInternal_written hsecond, flashRangeProgram, flashRangeErase]
  · have hwritten := saveInternal_written hfirst
    by_cases hsecond : SameBytes (configSize abi)
        (localConfig abi stack' (getKeymapIndex keymap) initialState)
        (saveInternal abi stack keymap initialState f).bytes
    · refine iff_of_true ?_ (.inr hsecond)
      rw [saveInternal_skipped hsecond, hwritten]
      simp [flashRangeProgram, flashRangeErase]
    · refine iff_of_false ?_ (by simp [hfirst, hsecond])
      rw [saveInternal_written hsecond, hwritten]
      simp [flashRangeProgram, flashRangeErase]

end Saves

/-- Over an erased sector, with zeros and then ones on the stack, both saves write. -/
theorem not_atMostOneWrite_erased :
    ¬ AtMostOneWrite .short (fun _ => 0) (fun _ => 1) .piano (fun _ => 0) erased := by
  unfold AtMostOneWrite
  decide

end Keytar.FlashWear
