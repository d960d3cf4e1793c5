import Keytar.Keyboard

/-!
# The range of the notes on the wire

Transposition is checked against a lowest note of 35 and a highest note of 67.
The keymaps reach from 28 to 84, so at the two highest offsets some keys of four
keymaps go past 127, where a note byte reads as a status byte. Nothing ever
falls below zero.
-/
namespace Keytar.NoteRange
open KeyboardMatrix Keyboard
open Ui (Nav)

/-- The offsets that transposition in octaves can reach. -/
def reachableOffsets : List Int8 := [-24, -12, 0, 12, 24, 36, 48, 60]

/-- The keys that a keymap plays above 127 at an offset. -/
def strayKeys (m : Keymap) (offset : Int8) : List UInt8 :=
  if offset = 60 then
    match m with
    | .piano => [46]
    | .accordionB => [46, 47, 48, 50, 52]
    | .wickiHayden => [12, 18, 19, 33, 34, 35, 36, 37, 38, 39, 46, 47, 48, 52]
    | .guitar => [37, 38, 39, 46]
    | _ => []
  else if offset = 48 ∧ m = .wickiHayden then [39, 46]
  else []

/-- Each note of the call goes out as the sum of the raw note and the offset,
and that sum is a data byte. -/
def WellFormed (c : KeyCall) : Prop :=
  ∀ raw ∈ c.rawNotes,
    ((noteByte c.offset raw).toNat : ℤ) = raw.toNat + c.offset.toInt ∧
      noteByte c.offset raw ≤ 127

/-- A test of the raw notes of one key: they lie within the range, and at the two
highest offsets some of them is too high exactly if the key is stray. -/
def keyTest (m : Keymap) (key : UInt8) (notes : List UInt8) : Bool :=
  notes.all (fun raw => 28 ≤ raw.toNat && raw.toNat ≤ 84) &&
    [(48 : Int8), 60].all fun offset =>
      notes.all (fun raw => (raw.toNat : ℤ) + offset.toInt ≤ 127) ==
        !(strayKeys m offset).contains key

theorem keyTest_all (m : Keymap) : ((List.range 128).all fun k =>
    keyTest m (UInt8.ofNat k) (rawNotes m (UInt8.ofNat k))) = true := by
  cases m <;> decide +kernel

theorem keyTest_of_lt (m : Keymap) {key : UInt8} (h : key < 128) :
    keyTest m key (rawNotes m key) = true := by
  have hkey := List.all_eq_true.mp (keyTest_all m) key.toNat
    (List.mem_range.mpr (UInt8.lt_iff_toNat_lt.mp h))
  rwa [UInt8.ofNat_toNat] at hkey

theorem rawNotes_range (m : Keymap) {key : UInt8} (h : key < 128) {raw : UInt8}
    (hraw : raw ∈ rawNotes m key) : 28 ≤ raw.toNat ∧ raw.toNat ≤ 84 := by
  have hkey := (Bool.and_eq_true_iff.mp (keyTest_of_lt m h)).1
  simpa using List.all_eq_true.mp hkey raw hraw

theorem offset_range {offset : Int8} (h : offset ∈ reachableOffsets) :
    -24 ≤ offset.toInt ∧ offset.toInt ≤ 60 := by
  revert offset
  decide

/-- At every offset below the two highest the sum stays in range for all keys. -/
theorem strayKeys_iff (m : Keymap) {key : UInt8} (h : key < 128) {offset : Int8}
    (ho : offset ∈ reachableOffsets) :
    (∀ raw ∈ rawNotes m key, (raw.toNat : ℤ) + offset.toInt ≤ 127) ↔
      key ∉ strayKeys m offset := by
  by_cases hhigh : offset = 48 ∨ offset = 60
  · have hkey := List.all_eq_true.mp (Bool.and_eq_true_iff.mp (keyTest_of_lt m h)).2 offset
      (by simpa using hhigh)
    rw [beq_iff_eq] at hkey
    rw [← List.contains_iff_mem, Bool.not_eq_true, ← Bool.not_eq_true', ← hkey]
    simp
  · have hlow : ∀ o ∈ reachableOffsets, ¬ (o = 48 ∨ o = 60) → o.toInt ≤ 36 := by decide
    have hle := hlow offset ho hhigh
    have hempty : strayKeys m offset = [] := by
      rw [not_or] at hhigh
      simp [strayKeys, hhigh.1, hhigh.2]
    refine ⟨fun _ => by simp [hempty], fun _ raw hraw => ?_⟩
    have := (rawNotes_range m h hraw).2
    omega

theorem noteByte_toNat (offset : Int8) (raw : UInt8)
    (hlow : 0 ≤ (raw.toNat : ℤ) + offset.toInt) (hhigh : (raw.toNat : ℤ) + offset.toInt < 256) :
    ((noteByte offset raw).toNat : ℤ) = raw.toNat + offset.toInt := by
  rw [noteByte, UInt8.ofInt, UInt8.toNat_ofNat']
  omega

/-- A transposition that is let through stays within the reachable offsets. -/
theorem transposed_reachable {key : UInt8} (hkey : navOf key = none) {offset offset' : Int8}
    (ho : offset ∈ reachableOffsets) (h : transposed key offset = some offset') :
    offset' ∈ reachableOffsets := by
  have hup : ∀ o ∈ reachableOffsets, 67 + o.toInt + 12 ≤ 127 → o + 12 ∈ reachableOffsets := by
    decide
  have hdown : ∀ o ∈ reachableOffsets, 35 + o.toInt - 12 > 0 → o - 12 ∈ reachableOffsets := by
    decide
  have h81 : key ≠ 81 := by
    rintro rfl
    exact absurd hkey (by decide)
  have h82 : key ≠ 82 := by
    rintro rfl
    exact absurd hkey (by decide)
  unfold transposed at h
  split_ifs at h with h75 hle h78 hgt
  · cases h
    exact hup offset ho hle
  · cases h
    exact hdown offset ho hgt

theorem keyCall_offset_reachable (key : UInt8) (pressed : Bool) (m : Keymap) {offset : Int8}
    (ho : offset ∈ reachableOffsets) :
    (keyCall key pressed m offset).offset ∈ reachableOffsets := by
  cases pressed with
  | false =>
      rw [keyCall_release]
      exact ho
  | true =>
      by_cases hnav : navOf key = none
      · rw [keyCall_press m offset hnav]
        cases hc : transposed key offset with
        | none => exact ho
        | some offset' => exact transposed_reachable hnav ho hc
      · rw [keyCall_nav m offset hnav]
        exact ho

theorem strayKeys_no_nav (m : Keymap) (offset : Int8) :
    ∀ key ∈ strayKeys m offset, navOf key = none := by
  unfold strayKeys
  split_ifs
  · cases m <;> decide
  · decide
  · simp

theorem wellFormed_iff {c : KeyCall} (hkey : c.key < 128) (ho : c.offset ∈ reachableOffsets)
    (hraw : c.rawNotes = rawNotes c.keymap c.key) :
    WellFormed c ↔ c.key ∉ strayKeys c.keymap c.offset := by
  have hoff := offset_range ho
  rw [← strayKeys_iff c.keymap hkey ho, WellFormed, hraw]
  refine forall₂_congr fun raw hmem => ?_
  have hrange := rawNotes_range c.keymap hkey hmem
  have hbyte := noteByte_toNat c.offset raw (by omega) (by omega)
  rw [and_iff_right hbyte, UInt8.le_iff_toNat_le, ← hbyte]
  change _ ≤ 127 ↔ _
  omega

/-- A single call sends well-formed notes unless its key is a stray one. -/
theorem keyCall_wellFormed_iff {key : UInt8} (hkey : key < 128) (pressed : Bool) (m : Keymap)
    {offset : Int8} (ho : offset ∈ reachableOffsets) :
    WellFormed (keyCall key pressed m offset) ↔
      key ∉ strayKeys m (keyCall key pressed m offset).offset := by
  have hreach := keyCall_offset_reachable key pressed m ho
  by_cases hnav : pressed = true ∧ navOf key ≠ none
  · obtain ⟨rfl, hn⟩ := hnav
    rw [keyCall_nav m offset hn]
    refine ⟨fun _ hmem => hn (strayKeys_no_nav m offset key hmem), fun _ raw hraw => ?_⟩
    simp at hraw
  · have hraw : (keyCall key pressed m offset).rawNotes = rawNotes m key := by
      cases pressed with
      | false => rw [keyCall_release]
      | true => rw [keyCall_press m offset (by simpa using hnav)]
    simpa using wellFormed_iff (c := keyCall key pressed m offset) (by simpa using hkey) hreach
      (by simpa using hraw)

section Runs
variable {υ : Type} (ui : UserInterface υ)

/-- What every run keeps: the offset is reachable, and so was each logged one. -/
structure Ranged (s : KeyboardState υ) : Prop where
  arrays : s.arrays.Valid
  offset : s.offset ∈ reachableOffsets
  log : ∀ c ∈ s.log, WellFormed c ↔ c.key ∉ strayKeys c.keymap c.offset

theorem boot_ranged (u : υ) : Ranged (boot u) where
  arrays := bootArrays_valid
  offset := (by decide : (0 : Int8) ∈ reachableOffsets)
  log := by simp [boot, start]

theorem Ranged.handled {ui : UserInterface υ} {key : UInt8} {pressed : Bool}
    {s s' : KeyboardState υ} (hkey : key < 128) (hs : Ranged s)
    (h : Handled ui key pressed s s') : Ranged s' where
  arrays := h.arrays
  offset := by
    rw [h.offset]
    exact keyCall_offset_reachable key pressed s.keymap hs.offset
  log := by
    intro c hc
    rw [h.log, List.mem_append, List.mem_singleton] at hc
    rcases hc with hc | rfl
    · exact hs.log c hc
    · simpa using keyCall_wellFormed_iff hkey pressed s.keymap hs.offset

/-- From boot, whatever the user interface does to the keymap, every call of
`handle_key` sends well-formed notes exactly when its key is not a stray one. -/
theorem run_wellFormed_iff (u : υ) (inputs : List Input)
    (hinputs : ∀ i ∈ inputs, ∀ k ∈ i.keys, k < 128) :
    ∃ s, run ui inputs (boot u) = .ok s ∧
      ∀ c ∈ s.log, WellFormed c ↔ c.key ∉ strayKeys c.keymap c.offset := by
  obtain ⟨s, hs, hr, -⟩ := run_invariant ui Ranged (fun _ h => h.arrays)
    (fun _ _ _ _ hkey hs h => hs.handled hkey h) (fun _ _ h => ⟨h.arrays, h.offset, h.log⟩)
    inputs (fun _ _ _ h => ⟨h.arrays, h.offset, h.log⟩) hinputs (s := boot u)
    (by simp [boot, start, noKeys]) (boot_ranged u) (start_matched u _ _)
  exact ⟨s, hs, hr.log⟩

end Runs

/-- Five octaves up, each a press of the key 75, and then the key 46. -/
def fiveOctavesUp : List Input :=
  (List.replicate 5 [.report #v[75, 0, 0, 0, 0, 0], .report noKeys]).flatten ++
    [.report #v[46, 0, 0, 0, 0, 0]]

theorem fiveOctavesUp_wellFormed_iff :
    ∃ s, run quietUi fiveOctavesUp (boot ()) = .ok s ∧
      ∀ c ∈ s.log, WellFormed c ↔ c.key ∉ strayKeys c.keymap c.offset :=
  run_wellFormed_iff quietUi () fiveOctavesUp (by decide)

/-- The raw note 68 at the offset 60 goes out as 128, the status byte of a note-off. -/
theorem fiveOctavesUp_stray :
    ¬ ∀ (υ : Type) (ui : UserInterface υ) (u : υ) (inputs : List Input),
      (∀ i ∈ inputs, ∀ k ∈ i.keys, k < 128) →
        ∀ s, run ui inputs (boot u) = .ok s → ∀ c ∈ s.log, WellFormed c := by
  intro h
  have hbad := h Unit quietUi () fiveOctavesUp (by decide) _ rfl
    ⟨46, true, .piano, 60, false, [68]⟩ (by decide) 68 (by decide)
  exact absurd hbad (by decide)

end Keytar.NoteRange
