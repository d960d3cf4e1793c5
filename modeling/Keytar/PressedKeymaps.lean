import Keytar.FirmwareWires

/-!
# Keys that are released as they were pressed

A release names the notes of its key under the keymap of that moment, so a note is left
behind only where the keymap has changed in between. Where every key is released under
the keymap of its presses, what a receiver hears belongs to held keys, at the current
offset, whatever else happens to the keymap and the offset on the way.
-/
namespace Keytar.PressedKeymaps
open KeyboardMatrix Keyboard Midi MidiBle SharedLatches Sounding
open Firmware (twoKeys)
open Runs (AtEach atEach_concat)

/-- The call looks up notes: an input to the menus is not a press of this kind. -/
def Plays (c : KeyCall) : Prop := c.pressed = false ∨ navOf c.key = none

instance (c : KeyCall) : Decidable (Plays c) := inferInstanceAs (Decidable (_ ∨ _))

def pressedIn (key : UInt8) (ms : List Keymap) (c : KeyCall) : List Keymap :=
  if c.key = key ∧ Plays c then if c.pressed then ms ++ [c.keymap] else [] else ms

/-- The keymaps of the presses of a key since its latest release. -/
def pressKeymaps (key : UInt8) (log : List KeyCall) : List Keymap := log.foldl (pressedIn key) []

/-- Every release happens under the keymap of the presses that it ends. -/
def ReleasedAsPressed (log : List KeyCall) : Prop :=
  AtEach (fun before c =>
    c.pressed = false → ∀ m ∈ pressKeymaps c.key before, m = c.keymap) log

instance (log : List KeyCall) : Decidable (ReleasedAsPressed log) :=
  inferInstanceAs (Decidable (AtEach _ log))

theorem pressKeymaps_concat (key : UInt8) (log : List KeyCall) (c : KeyCall) :
    pressKeymaps key (log ++ [c]) = pressedIn key (pressKeymaps key log) c := by
  rw [pressKeymaps, List.foldl_append]
  rfl

/-- What a key owes are its notes at the current offset, in keymaps that it was pressed in. -/
def OwesItsNotes (offset : Int8) (log : List KeyCall) : Prop :=
  ∀ key, ∀ n ∈ owed key (events log), ∃ m ∈ pressKeymaps key log, n ∈ keyNotes m offset key

section Calls
variable {key : UInt8} {pressed : Bool} {m : Keymap} {offset : Int8} {log : List KeyCall}

/-- A call that changes the offset clears what was owed at the old one. -/
theorem OwesItsNotes.concat (h : OwesItsNotes offset log) (key : UInt8) (pressed : Bool)
    (m : Keymap) :
    OwesItsNotes (keyCall key pressed m offset).offset (log ++ [keyCall key pressed m offset]) := by
  intro q n hn
  have hold : n ∈ (if (keyCall key pressed m offset).cleared then ∅ else owed q (events log)) →
      ∃ m' ∈ pressKeymaps q log, n ∈ keyNotes m' (keyCall key pressed m offset).offset q := by
    intro hmem
    cases hc : (keyCall key pressed m offset).cleared with
    | true => simp [hc] at hmem
    | false =>
        rw [keyCall_offset_of_not_cleared hc]
        exact h q n (by simpa [hc] using hmem)
  rw [events_concat, owed_concat] at hn
  simp only [Event.owe, event, keyCall_key, keyCall_pressed] at hn
  simp only [pressKeymaps_concat, pressedIn, Plays, keyCall_key, keyCall_pressed, keyCall_keymap]
  by_cases hq : key = q
  · subst q
    cases pressed with
    | false => simp at hn
    | true =>
        rw [if_pos rfl, if_pos rfl, Finset.mem_union] at hn
        by_cases hnav : navOf key = none
        · rw [if_pos ⟨rfl, .inr hnav⟩, if_pos rfl]
          rcases hn with hn | hn
          · obtain ⟨m', hm', hnote⟩ := hold hn
            exact ⟨m', List.mem_append_left _ hm', hnote⟩
          · exact ⟨m, List.mem_append_right _ List.mem_cons_self,
              keyCall_notes_subset key true m offset hn⟩
        · have hnone : (keyCall key true m offset).notes = [] := by
            rw [keyCall_nav m offset hnav]
            rfl
          rw [if_neg (by simp [hnav])]
          exact hold (hn.resolve_right (by simp [hnone]))
  · rw [if_neg hq] at hn
    rw [if_neg fun h => hq h.1]
    exact hold hn

theorem covers_of_released (h : OwesItsNotes offset log)
    (hreleased : ∀ m' ∈ pressKeymaps key log, m' = m) :
    owed key (events log) ⊆ (event (keyCall key false m offset)).latches := by
  intro n hn
  obtain ⟨m', hm', hnote⟩ := h key n hn
  rw [keyCall_release]
  rwa [hreleased m' hm'] at hnote

end Calls

section Runs
variable {υ : Type} {ui : UserInterface υ}

/-- What every run keeps, as long as keys are released as they were pressed. -/
structure Placed (s : KeyboardState υ) : Prop where
  arrays : s.arrays.Valid
  owes : OwesItsNotes s.offset s.log
  covers : ReleasedAsPressed s.log → EveryReleaseCovers s.log

theorem start_placed (u : υ) (m : Keymap) (offset : Int8) : Placed (start u m offset) where
  arrays := bootArrays_valid
  owes := fun key n hn => by simp [start, events] at hn
  covers := fun _ i e h => by simp [start, events] at h

theorem Placed.handled {key : UInt8} {pressed : Bool} {s s' : KeyboardState υ} (hs : Placed s)
    (h : Handled ui key pressed s s') : Placed s' where
  arrays := h.arrays
  owes := by
    rw [h.log, h.offset]
    exact hs.owes.concat key pressed s.keymap
  covers := by
    intro hreleased
    rw [h.log, ReleasedAsPressed, atEach_concat] at hreleased
    rw [h.log, EveryReleaseCovers, events_concat, covers_concat]
    refine ⟨hs.covers hreleased.1, fun hp => ?_⟩
    have hup : pressed = false := by simpa [event] using hp
    subst hup
    simp only [keyCall_key, keyCall_pressed, keyCall_keymap] at hreleased
    exact covers_of_released hs.owes (hreleased.2 trivial)

/-- For the keyboard with any user interface, from any keymap and offset. -/
theorem run_placed (ui : UserInterface υ) (u : υ) (m : Keymap) (offset : Int8)
    (inputs : List Input) (hinputs : ∀ i ∈ inputs, ∀ k ∈ i.keys, k < 128) :
    ∃ s, run ui inputs (start u m offset) = .ok s ∧ Placed s ∧ Matched s :=
  run_invariant ui Placed (fun _ h => h.arrays) (fun _ _ _ _ _ hs h => hs.handled h)
    (fun _ _ h => ⟨h.arrays, h.owes, h.covers⟩) inputs
    (fun _ _ _ h => ⟨h.arrays, h.owes, h.covers⟩) hinputs
    (s := start u m offset) (by simp [start, noKeys]) (start_placed u m offset)
    (start_matched u m offset)

end Runs

section Device
variable {boot : Menus.Answers} {displayOk : Bool} {keymap : Keymap} {saved : BleState}
  {es : List Firmware.Event} {k : Firmware.Device}

/-- Where the firmware has released every key as it was pressed, each note that sounds at
the end of the UART is, at the current offset, a note of a key held in the last report, in
a keymap that the key was pressed in. With no key held nothing sounds. -/
theorem device_in_tune
    (h : Firmware.boot boot displayOk keymap saved >>= Firmware.run es = .ok k)
    (hkeys : Firmware.Tabled es) (hreleased : ReleasedAsPressed k.log) :
    let heard := (k.world.rest.midi.outer .uart).foldl hear ∅
    let last := lastReport (es.flatMap Firmware.inputs)
    (∀ n ∈ heard, ∃ key ∈ last.toList, key ≠ 0 ∧
      ∃ m ∈ pressKeymaps key k.log, n ∈ keyNotes m k.offset key) ∧
    (NoneHeld last → heard = ∅) := by
  obtain ⟨ms, hrun⟩ := Firmware.reached_keyboard h
  obtain ⟨s, hs, hplaced, hmatched⟩ := run_placed Firmware.listedUi ms .piano 0
    (.setKeymap keymap :: es.flatMap Firmware.inputs)
    (List.forall_mem_cons.mpr ⟨List.forall_mem_nil _, hkeys⟩)
  obtain rfl := Except.ok.inj (hs.symm.trans hrun)
  have hheard := (Firmware.reached_told h).heard
  have hlast : k.prevReport = lastReport (es.flatMap Firmware.inputs) := run_prevReport hrun
  simp only [hheard, ← hlast]
  have hcovers := hplaced.covers hreleased
  have hheld : ∀ n ∈ sounding k.log, ∃ key ∈ k.prevReport.toList, key ≠ 0 ∧
      ∃ m ∈ pressKeymaps key k.log, n ∈ keyNotes m k.offset key := by
    intro n hn
    obtain ⟨key, h0, hmem, howed⟩ := held_of_sounding hmatched hcovers hn
    exact ⟨key, hmem, h0, hplaced.owes key n howed⟩
  refine ⟨hheld, fun hnone => Finset.eq_empty_iff_forall_notMem.mpr fun n hn => ?_⟩
  obtain ⟨key, hmem, h0, -⟩ := hheld n hn
  exact h0 (hnone key hmem)

/-- The keymap is changed after the first key, and the offset while the second is held. -/
def keymapBetweenKeys : List Firmware.Event :=
  ([twoKeys 29 0, noKeys, twoKeys 41 0, twoKeys 81 0, twoKeys 79 0, twoKeys 27 0, twoKeys 27 75,
    twoKeys 27 6] : List Report).map fun report => .report true report Firmware.quietKeys

theorem keymapBetweenKeys_in_tune :
    ∃ k, Firmware.boot ConnectMenu.quiet true .piano .off >>=
        Firmware.run keymapBetweenKeys = .ok k ∧
      let heard := (k.world.rest.midi.outer .uart).foldl hear ∅
      let last := lastReport (keymapBetweenKeys.flatMap Firmware.inputs)
      (∀ n ∈ heard, ∃ key ∈ last.toList, key ≠ 0 ∧
        ∃ m ∈ pressKeymaps key k.log, n ∈ keyNotes m k.offset key) ∧
      (NoneHeld last → heard = ∅) := by
  have hrun : Firmware.boot ConnectMenu.quiet true .piano .off >>=
      Firmware.run keymapBetweenKeys = .ok _ := rfl
  refine ⟨_, hrun, device_in_tune hrun ?_ (by decide)⟩
  simp [Firmware.Tabled, keymapBetweenKeys, Firmware.inputs, Input.keys, twoKeys, noKeys]

end Device

end Keytar.PressedKeymaps
