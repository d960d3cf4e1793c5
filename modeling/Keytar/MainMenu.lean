import Keytar.MenuPanel

/-!
# The main menu and its settings

The open main menu is a panel whose dials are the settings. So each select item of it shows
the setting that it stands for, after any inputs that leave it open.
-/
namespace Keytar.MainMenu
open AnalogStrip ConnectMenu KeyboardMatrix Memory MenuPanel MidiBle MidiValues Settings Ui Menus

section Runs
variable {w : World}

/-- What the main menu shows after inputs that leave it open. -/
theorem mainMenu_agreed {fs : List (Frame Item)} (hgood : Good (some .uiStatus) False fs w)
    (h : Agreed w.rest) (hcurrent : w.current = none) (a : Answers) {nav : Nav}
    (hnav : nav = .return ∨ nav = .close) (inputs : List (Answers × Nav))
    (hstays : stays 0 (inputs.map Prod.snd) = true) :
    ∃ w' keymap strip reset,
      Menus.run (inputEvents ((a, nav) :: inputs)) w = .ok w' ∧
      openItems w' = .ok (mainItems keymap strip reset) ∧
      keymaps[keymap.index]? = some w'.rest.keymap ∧
      midiValues[strip.index]? = w'.rest.strip.midiValue ∧
      reset = w'.rest.strip.resetOnRelease := by
  obtain ⟨w', hrun, hshown⟩ := opened_shown hgood hcurrent h.assigned a hnav inputs hstays
  obtain ⟨r, hr, hstrip⟩ := hshown.strip
  refine ⟨w', _, _, _, hrun, hshown.openItems, hshown.keymap, ?_, ?_⟩
  · rw [hstrip]
    exact hr
  · rw [hstrip]

/-- The select items and their settings stay together. The first part is about a select
item over any options, the second about every state of the firmware, the third about
the main menu, opened in any such state, after any inputs that leave it open. -/
theorem settings_in_step :
    (∀ (α : Type) (label : String) (options : List α) (i : ℕ), i < options.length →
      ∃ self : Select α, Select.new label options i = .ok self ∧ self.options = options ∧
        self.max + 1 = options.length ∧ self.Follows i) ∧
    ∀ (boot : Answers) (displayOk : Bool) (keymap : Keymap) (saved : BleState)
      (es : List (Answers × Event)) (w : World),
      bootUp boot displayOk keymap saved >>= Menus.run es = .ok w →
      (∀ p x, w.rest.heap.items.read p = .ok x → Shows w.rest.keymap w.rest.strip x) ∧
      (displayOk = true → w.current = none →
        ∀ (a : Answers) (nav : Nav) (inputs : List (Answers × Nav)),
          nav = .return ∨ nav = .close → stays 0 (inputs.map Prod.snd) = true →
          ∃ w' keymap strip reset,
            Menus.run (inputEvents ((a, nav) :: inputs)) w = .ok w' ∧
            openItems w' = .ok (mainItems keymap strip reset) ∧
            keymaps[keymap.index]? = some w'.rest.keymap ∧
            midiValues[strip.index]? = w'.rest.strip.midiValue ∧
            reset = w'.rest.strip.resetOnRelease) := by
  refine ⟨fun α label options i hi => Select.new_follows label hi,
    fun boot displayOk keymap saved es w hrun => ?_⟩
  obtain ⟨fs, hgood⟩ := reached_good hrun
  have hagreed := reached_agreed hrun
  refine ⟨hagreed.shows, fun hdisplay hcurrent a nav inputs hnav hstays => ?_⟩
  subst hdisplay
  exact mainMenu_agreed hgood hagreed hcurrent a hnav inputs hstays

/-- The next keymap, the next value for the strip, and the checkbox. -/
def turnedOnce : List (Answers × Nav) :=
  [.down, .right, .down, .down, .right, .down, .enter].map fun nav => (quiet, nav)

theorem turnedOnce_in_step :
    ∃ w w' keymap strip reset,
      bootUp quiet true .piano .off >>= Menus.run [] = .ok w ∧
      Menus.run (inputEvents ((quiet, .close) :: turnedOnce)) w = .ok w' ∧
      openItems w' = .ok (mainItems keymap strip reset) ∧
      keymaps[keymap.index]? = some w'.rest.keymap ∧
      midiValues[strip.index]? = w'.rest.strip.midiValue ∧
      w'.rest.keymap = .accordionC ∧ w'.rest.strip = ⟨some .mvMod, false⟩ := by
  obtain ⟨w', keymap, strip, reset, hrun, hitems, hkeymap, hstrip, -⟩ :=
    (settings_in_step.2 quiet true .piano .off [] _ rfl).2 rfl rfl quiet .close turnedOnce
      (.inr rfl) (by decide)
  refine ⟨_, w', keymap, strip, reset, rfl, hrun, hitems, hkeymap, hstrip, ?_, ?_⟩
  · obtain rfl := Except.ok.inj hrun
    rfl
  · obtain rfl := Except.ok.inj hrun
    rfl

end Runs

end Keytar.MainMenu
