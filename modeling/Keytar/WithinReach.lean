import Keytar.FirmwareScreen
import Keytar.FirmwareWires
import Keytar.MenuPanel

/-!
# Which settings are within reach

A tap presses one key alone and releases it. Whatever has happened, some taps lead to any
choice of the keymap, of the value for the strip with its reset flag and of the Bluetooth
role, and leave no menu open: what is open is closed, the main menu is dialled in, and the
Bluetooth menu has an entry that leads on from the role that is up. The taps depend on the
state that they start from, and on nothing that is answered meanwhile.
-/
namespace Keytar.Firmware
open AnalogStrip ConnectMenu KeyboardMatrix Keyboard Memory MenuPanel Midi MidiBle MidiValues
  Settings Ui Menus

section Taps

/-- The scan code of an input. -/
def codeOf : Nav → UInt8
  | .close => scEsc
  | .enter => scEnter
  | .return => scBspc
  | .up => scUp
  | .down => scDown
  | .left => scLeft
  | .right => scRight

theorem navOf_codeOf (nav : Nav) : navOf (codeOf nav) = some nav := by cases nav <;> rfl

def letGo (answers : Bool → ℕ → KeyAnswers) : Event := .report true noKeys answers

/-- The key of the input is pressed alone, and released. The answers are those to each key of
each of the two reports. -/
def tap (answers : ℕ → Bool → ℕ → KeyAnswers) (nav : Nav) : List Event :=
  [.report true (twoKeys (codeOf nav) 0) (answers 0), letGo (answers 1)]

/-- One tap after the other, each with the next answers. -/
def taps (answers : ℕ → Bool → ℕ → KeyAnswers) : List Nav → List Event
  | [] => []
  | nav :: navs => tap answers nav ++ taps (fun n => answers (n + 2)) navs

/-- The radio comes up whenever it is started. -/
def Powered (answers : ℕ → Bool → ℕ → KeyAnswers) : Prop :=
  ∀ n pressed i, (answers n pressed i).menus.radio.cyw43Fails = false

theorem Powered.later {answers : ℕ → Bool → ℕ → KeyAnswers} (h : Powered answers) (n : ℕ) :
    Powered fun m => answers (m + n) := fun m => h (m + n)

theorem taps_append (navs navs' : List Nav) (answers : ℕ → Bool → ℕ → KeyAnswers) :
    taps answers (navs ++ navs') =
      taps answers navs ++ taps (fun n => answers (n + 2 * navs.length)) navs' := by
  induction navs generalizing answers with
  | nil => rfl
  | cons nav navs ih =>
      have hlength (n : ℕ) : n + 2 * (nav :: navs).length = n + 2 * navs.length + 2 := by
        rw [List.length_cons]
        omega
      simp only [List.cons_append, taps, ih, List.append_assoc, hlength]

/-- No key is held. -/
structure Idle (k : Device) : Prop where
  released : k.prevReport = noKeys
  arrays : k.arrays.Valid

/-- What the wires carry does not matter. -/
def Unwired (Q : World → Prop) : Prop :=
  ∀ w wires, Q w →
    Q { w with rest := { w.rest with midi := { w.rest.midi with outer := wires } } }

variable {k : Device} {Q : World → Prop}

theorem diffLoop_noKeys (answers : ℕ → KeyAnswers) (pressed : Bool) (other : Report) (k : Device) :
    diffLoop answers pressed noKeys other k = .ok k := by
  have hslots : noKeys.toList.zipIdx = [(0, 0), (0, 1), (0, 2), (0, 3), (0, 4), (0, 5)] := rfl
  simp only [diffLoop, hslots, List.foldlM_cons, List.foldlM_nil, handleSlot, ne_eq, not_true,
    false_and, if_false]
  rfl

/-- The other slots of a report of one key are empty. -/
theorem diffLoop_oneKey (answers : ℕ → KeyAnswers) (pressed : Bool) {key : UInt8} (hkey : key ≠ 0)
    {other : Report} (hother : findKeyInReport other key = false) (k : Device) :
    diffLoop answers pressed (twoKeys key 0) other k = handleKey (answers 0) key pressed k := by
  have hslots : (twoKeys key 0).toList.zipIdx =
      [(key, 0), (0, 1), (0, 2), (0, 3), (0, 4), (0, 5)] := rfl
  have hhead : handleSlot answers pressed other k (key, 0) =
      handleKey (answers 0) key pressed k := by
    simp only [handleSlot, hother]
    exact if_pos ⟨hkey, Bool.false_ne_true⟩
  simp only [diffLoop, hslots, List.foldlM_cons, List.foldlM_nil, hhead]
  simp only [handleSlot, ne_eq, not_true, false_and, if_false]
  cases handleKey (answers 0) key pressed k <;> rfl

/-- A release plays its notes and nothing else. -/
theorem handleKey_released (hQ : Unwired Q) (a : KeyAnswers) {key : UInt8} (hkey : key < 128)
    (harrays : k.arrays.Valid) (hworld : Q k.world) :
    ∃ k', handleKey a key false k = .ok k' ∧ k'.arrays.Valid ∧ k'.prevReport = k.prevReport ∧
      Q k'.world := by
  obtain ⟨notes, hnotes, hread, hvalid⟩ := lookup_spec k.world.rest.keymap hkey harrays
  unfold handleKey
  simp only [hnotes, hread, bind, Except.bind, Bool.false_eq_true, if_false]
  exact ⟨_, rfl, hvalid, rfl, hQ _ _ hworld⟩

/-- After all keys are let go the device is idle. -/
theorem letGo_idle (hQ : Unwired Q) (answers : Bool → ℕ → KeyAnswers) (harrays : k.arrays.Valid)
    (hprev : ∀ key ∈ k.prevReport.toList, key < 128) (hworld : Q k.world) :
    ∃ k', step k (letGo answers) = .ok k' ∧ Idle k' ∧ Q k'.world := by
  obtain ⟨j, hj, -, hvalid, -, hq⟩ := Runs.foldlM_invariant
    (handleSlot (answers false) false noKeys)
    (fun slots j => (∀ slot ∈ slots, slot.1 < 128) ∧ j.arrays.Valid ∧ j.prevReport = k.prevReport ∧
      Q j.world)
    (by
      rintro ⟨key, i⟩ slots j ⟨hslots, hvalid, hprev', hq⟩
      have hrest : ∀ slot ∈ slots, slot.1 < 128 := fun slot hslot =>
        hslots slot (List.mem_cons_of_mem _ hslot)
      unfold handleSlot
      split_ifs
      · obtain ⟨j', hj', hvalid', hsame, hq'⟩ :=
          handleKey_released hQ (answers false i) (hslots (key, i) List.mem_cons_self) hvalid hq
        exact ⟨j', hj', hrest, hvalid', hsame.trans hprev', hq'⟩
      · exact ⟨j, rfl, hrest, hvalid, hprev', hq⟩)
    k.prevReport.toList.zipIdx k
    ⟨fun slot hslot => hprev slot.1 (List.fst_mem_of_mem_zipIdx hslot), harrays, rfl, hworld⟩
  have hloop : diffLoop (answers false) false k.prevReport noKeys k = .ok j := hj
  refine ⟨{ j with prevReport := noKeys }, ?_, ⟨rfl, hvalid⟩, hq⟩
  simp only [step, letGo, tuhHidReportReceivedCb, if_true, processKbdReport, diffLoop_noKeys, hloop,
    bind, Except.bind]
  rfl

/-- A tap is one input to the menus. -/
theorem tap_step (hQ : Unwired Q) (hk : Idle k) (answers : ℕ → Bool → ℕ → KeyAnswers) {nav : Nav}
    (h : ∃ w', Menus.step k.world ((answers 0 true 0).menus, .navigate nav) = .ok w' ∧ Q w') :
    ∃ k', run (tap answers nav) k = .ok k' ∧ Idle k' ∧ Q k'.world := by
  obtain ⟨w', hw', hq⟩ := h
  have hcode : codeOf nav ≠ 0 := by cases nav <;> decide
  have hnew : findKeyInReport noKeys (codeOf nav) = false := by cases nav <;> rfl
  have hpress : handleKey (answers 0 true 0) (codeOf nav) true k = .ok { k with
      world := w'
      log := k.log ++ [⟨codeOf nav, true, k.world.rest.keymap, k.offset, false, []⟩] } := by
    simp only [handleKey, if_true, navOf_codeOf, hw', bind, Except.bind]
    rfl
  have hreport : step k (.report true (twoKeys (codeOf nav) 0) (answers 0)) = .ok { k with
      world := w'
      log := k.log ++ [⟨codeOf nav, true, k.world.rest.keymap, k.offset, false, []⟩]
      prevReport := twoKeys (codeOf nav) 0 } := by
    simp only [step, tuhHidReportReceivedCb, if_true, processKbdReport, hk.released,
      diffLoop_oneKey _ true hcode hnew, hpress, diffLoop_noKeys, bind, Except.bind]
    rfl
  have hkeys : ∀ key ∈ (twoKeys (codeOf nav) 0).toList, key < 128 := by cases nav <;> decide
  obtain ⟨k', hk', hidle, hq'⟩ := letGo_idle (Q := Q) (k := { k with
      world := w'
      log := k.log ++ [⟨codeOf nav, true, k.world.rest.keymap, k.offset, false, []⟩]
      prevReport := twoKeys (codeOf nav) 0 }) hQ (answers 1) hk.arrays hkeys hq
  refine ⟨k', ?_, hidle, hq'⟩
  simp only [run, tap, List.foldlM_cons, List.foldlM_nil, hreport, hk', bind, Except.bind]
  rfl

end Taps

section Reached
variable {k k' : Device}

/-- The held keys are in the tables. -/
structure Tidy (k : Device) : Prop where
  arrays : k.arrays.Valid
  held : ∀ key ∈ k.prevReport.toList, key < 128

theorem handleKey_tidy {a : KeyAnswers} {key : UInt8} {pressed : Bool} (hkey : key < 128)
    (h : handleKey a key pressed k = .ok k') (hk : Tidy k) : Tidy k' := by
  unfold handleKey at h
  split at h
  · obtain ⟨w, -, h⟩ := Runs.bind_ok h
    rw [← Except.ok.inj h]
    exact ⟨hk.arrays, hk.held⟩
  · obtain ⟨notes, hnotes, -, hvalid⟩ := lookup_spec k.world.rest.keymap hkey hk.arrays
    obtain ⟨notes', hnotes', h⟩ := Runs.bind_ok h
    obtain rfl : notes = notes' := Except.ok.inj (hnotes.symm.trans hnotes')
    obtain ⟨raw, -, h⟩ := Runs.bind_ok h
    rw [← Except.ok.inj h]
    exact ⟨hvalid, hk.held⟩

theorem diffLoop_tidy {answers : ℕ → KeyAnswers} {pressed : Bool} {report other : Report}
    (hkeys : ∀ key ∈ report.toList, key < 128)
    (h : diffLoop answers pressed report other k = .ok k') (hk : Tidy k) : Tidy k' := by
  refine Runs.foldlM_relates (fun k k' => Tidy k → Tidy k') (fun _ h => h)
    (fun _ _ _ h h' hk => h' (h hk)) (fun slot hslot j j' hj hk => ?_) h hk
  have hkey : slot.1 < 128 := hkeys slot.1 (List.fst_mem_of_mem_zipIdx hslot)
  unfold handleSlot at hj
  split_ifs at hj
  · exact handleKey_tidy hkey hj hk
  · rwa [← Except.ok.inj hj]

theorem step_tidy {e : Event} (hkeys : ∀ i ∈ inputs e, ∀ key ∈ i.keys, key < 128)
    (h : step k e = .ok k') (hk : Tidy k) : Tidy k' := by
  cases e with
  | mount isKeyboard =>
      cases isKeyboard with
      | false => rwa [← Except.ok.inj h]
      | true =>
          obtain ⟨w, -, h⟩ := Runs.bind_ok h
          rw [← Except.ok.inj h]
          exact ⟨hk.arrays, hk.held⟩
  | report isKeyboard report answers =>
      cases isKeyboard with
      | false => rwa [← Except.ok.inj h]
      | true =>
          have hreport : ∀ key ∈ report.toList, key < 128 := hkeys _ List.mem_cons_self
          obtain ⟨j, hj, h⟩ := Runs.bind_ok h
          obtain ⟨i, hi, h⟩ := Runs.bind_ok h
          rw [← Except.ok.inj h]
          exact ⟨(diffLoop_tidy hk.held hi (diffLoop_tidy hreport hj hk)).arrays, hreport⟩
  | strip adcRead a =>
      rw [← Except.ok.inj h]
      exact ⟨hk.arrays, hk.held⟩
  | link l a =>
      obtain ⟨w, -, h⟩ := Runs.bind_ok h
      rw [← Except.ok.inj h]
      exact ⟨hk.arrays, hk.held⟩

theorem reached_tidy {a : Answers} {displayOk : Bool} {keymap : Keymap} {saved : BleState}
    {es : List Event} (h : boot a displayOk keymap saved >>= run es = .ok k) (hkeys : Tabled es) :
    Tidy k := by
  obtain ⟨j, hj, hrun⟩ := Runs.bind_ok h
  obtain ⟨w, -, hj⟩ := Runs.bind_ok hj
  have hstart : Tidy j := by
    rw [← Except.ok.inj hj]
    exact ⟨bootArrays_valid, by simp [noKeys]⟩
  refine Runs.foldlM_relates (fun k k' => Tidy k → Tidy k') (fun _ h => h)
    (fun _ _ _ h h' hk => h' (h hk)) (fun e he i i' hi hk => ?_) hrun hstart
  exact step_tidy (fun i hi => hkeys i (List.mem_flatMap.mpr ⟨e, he, hi⟩)) hi hk

end Reached

section Reaching
variable {P P' Q Q' R : World → Prop} {navs navs' : List Nav}

/-- With no key held, the taps bring a world with `P` to one with `Q`, whatever is answered
while the radio comes up. -/
def Brings (navs : List Nav) (P Q : World → Prop) : Prop :=
  ∀ k answers, Powered answers → Idle k → P k.world →
    ∃ k', run (taps answers navs) k = .ok k' ∧ Idle k' ∧ Q k'.world

theorem Brings.nil : Brings [] P P := fun k _ _ hk hp => ⟨k, rfl, hk, hp⟩

theorem run_append (es es' : List Event) (k : Device) :
    run (es ++ es') k = run es k >>= run es' := List.foldlM_append

theorem Brings.append (h : Brings navs P Q) (h' : Brings navs' Q R) :
    Brings (navs ++ navs') P R := by
  intro k answers hradio hk hp
  obtain ⟨j, hj, hidle, hq⟩ := h k answers hradio hk hp
  obtain ⟨k', hk', hidle', hr⟩ := h' j _ (hradio.later (2 * navs.length)) hidle hq
  refine ⟨k', ?_, hidle', hr⟩
  rw [taps_append, run_append, hj]
  exact hk'

theorem Brings.imp (h : Brings navs P Q) (hp : ∀ w, P' w → P w) (hq : ∀ w, Q w → Q' w) :
    Brings navs P' Q' := by
  intro k answers hradio hk hk'
  obtain ⟨k', hrun, hidle, hk'⟩ := h k answers hradio hk (hp _ hk')
  exact ⟨k', hrun, hidle, hq _ hk'⟩

/-- One input to the menus. -/
theorem Brings.tap (hQ : Unwired Q) {nav : Nav}
    (h : ∀ (w : World) (a : Answers), a.radio.cyw43Fails = false → P w →
      ∃ w', Menus.step w (a, .navigate nav) = .ok w' ∧ Q w') : Brings [nav] P Q := by
  intro k answers hradio hk hp
  obtain ⟨k', hk', hidle, hq⟩ := tap_step hQ hk answers (h k.world _ (hradio 0 true 0) hp)
  refine ⟨k', ?_, hidle, hq⟩
  rw [taps, taps, List.append_nil]
  exact hk'

/-- One input, and then the rest. -/
theorem Brings.cons {nav : Nav} (h : Brings [nav] P Q) (h' : Brings navs Q R) :
    Brings (nav :: navs) P R := h.append h'

end Reaching

section Choices
variable {w w' : World}

/-- A choice of the settings. -/
structure Choice where
  keymap : Keymap
  value : MidiValueRef
  reset : Bool
  role : BleMode

/-- The roles that are up. -/
structure Up (x : BleMode) (b : Ble) : Prop where
  server : b.serverInitialized = (x == .server)
  client : b.clientInitialized = (x == .client)

/-- The settings are the chosen ones. -/
structure Chosen (c : Choice) (w : World) : Prop where
  keymap : w.rest.keymap = c.keymap
  strip : w.rest.strip = ⟨some c.value, c.reset⟩
  role : Up c.role w.rest.ble

theorem Chosen.congr {c : Choice} (h : Chosen c w) (hc : controls w'.rest = controls w.rest) :
    Chosen c w' where
  keymap := (congrArg Controls.keymap hc).trans h.keymap
  strip := (congrArg Controls.strip hc).trans h.strip
  role := by
    rw [show w'.rest.ble = w.rest.ble from congrArg Controls.ble hc]
    exact h.role

/-- Some choice is in force. -/
theorem chosen_of_good {d : Option Element} {fs : List (Frame Item)} (h : Good d False fs w)
    (hassigned : w.rest.strip.midiValue ≠ none) : ∃ c, Chosen c w := by
  obtain ⟨r, hr⟩ := Option.ne_none_iff_exists'.mp hassigned
  have hstrip : w.rest.strip = ⟨some r, w.rest.strip.resetOnRelease⟩ := by rw [← hr]
  have hone := h.ble.oneRole
  cases hs : w.rest.ble.serverInitialized with
  | true =>
      have hc : w.rest.ble.clientInitialized = false := by simpa [hs] using hone
      exact ⟨⟨_, r, _, .server⟩, rfl, hstrip, ⟨hs, hc⟩⟩
  | false =>
      cases hc : w.rest.ble.clientInitialized with
      | true => exact ⟨⟨_, r, _, .client⟩, rfl, hstrip, ⟨hs, hc⟩⟩
      | false => exact ⟨⟨_, r, _, .off⟩, rfl, hstrip, ⟨hs, hc⟩⟩

/-- A menu is open. -/
def Busy (c : Choice) (w : World) : Prop :=
  (∃ f fs, Good (some .uiStatus) False (f :: fs) w) ∧ Chosen c w

/-- No menu is open. -/
def Home (c : Choice) (w : World) : Prop := Good (some .uiStatus) False [] w ∧ Chosen c w

theorem good_unwired (d : Option Element) (fs : List (Frame Item)) :
    Unwired (Good d False fs) := fun _ _ h => h.withRest _ rfl rfl rfl h.ble

theorem chosen_unwired (c : Choice) : Unwired (Chosen c) := fun _ _ h => h.congr rfl

theorem busy_unwired (c : Choice) : Unwired (Busy c) := by
  rintro w wires ⟨⟨f, fs, hgood⟩, hchosen⟩
  exact ⟨⟨f, fs, good_unwired _ _ w wires hgood⟩, chosen_unwired c w wires hchosen⟩

theorem home_unwired (c : Choice) : Unwired (Home c) := fun w wires h =>
  ⟨good_unwired _ [] w wires h.1, chosen_unwired c w wires h.2⟩

theorem pop_controls (h : uiPop elements w = .ok w') : controls w'.rest = controls w.rest := by
  unfold uiPop at h
  split at h
  · rw [← Except.ok.inj h]
  · obtain ⟨layer, -, h⟩ := Runs.bind_ok h
    obtain ⟨rest, hfree, h⟩ := Runs.bind_ok h
    obtain ⟨layers, -, h⟩ := Runs.bind_ok h
    rw [← Except.ok.inj h]
    cases hlayer : layer.element with
    | uiStatus =>
        rw [hlayer] at hfree
        rw [← Except.ok.inj hfree]
    | menu p =>
        rw [hlayer] at hfree
        obtain ⟨heap, -, hfree⟩ := Runs.bind_ok hfree
        rw [← Except.ok.inj hfree]
        rfl

theorem clear_controls (h : uiClear elements w = .ok w') : controls w'.rest = controls w.rest := by
  have hloop : ∀ (n : ℕ) (w : World), clearLoop elements n w = .ok w' →
      controls w'.rest = controls w.rest := by
    intro n
    induction n with
    | zero => exact fun w h => pop_controls h
    | succ n ih =>
        intro w h
        rw [clearLoop] at h
        split_ifs at h
        · rw [← Except.ok.inj h]
        · obtain ⟨v, hv, h⟩ := Runs.bind_ok h
          exact (ih v h).trans (pop_controls hv)
  exact hloop _ w h

theorem render_controls (h : uiRender elements w = .ok w') :
    controls w'.rest = controls w.rest := by
  rw [uiRender_rest elements h]

theorem push_controls {itemCapacity : UInt8} {items : List Item}
    (h : pushMenuWith itemCapacity items w = .ok w') : controls w'.rest = controls w.rest := by
  obtain ⟨heap, -, hrest⟩ := pushMenuWith_rest h
  rw [hrest]
  rfl

/-- CLOSE brings back the status screen. -/
theorem close_brings (c : Choice) : Brings [.close] (Busy c) (Home c) := by
  refine .tap (home_unwired c) fun w a _ hw => ?_
  obtain ⟨⟨f, fs, hgood⟩, hchosen⟩ := hw
  obtain ⟨w', hw', hgood', -⟩ := step_close hgood a
  have hclosed := hw'
  simp only [Menus.step, uiNavigate, dispatch_menu hgood] at hclosed
  obtain ⟨v, hv, hclosed⟩ : ∃ v, uiClear elements w = .ok v ∧ uiRender elements v = .ok w' :=
    Runs.bind_ok hclosed
  exact ⟨w', hw', hgood',
    hchosen.congr ((render_controls hclosed).trans (clear_controls hv))⟩

end Choices

section Dialling
variable {w : World}

theorem shown_unwired (d : Option Element) (ble : Ble) (p : Panel) : Unwired (Shown d ble p) := by
  rintro w wires ⟨⟨f, hgood, hitems, hrow⟩, hkeymap, hstrip, hble⟩
  exact ⟨⟨f, good_unwired d [f] w wires hgood, hitems, hrow⟩, hkeymap, hstrip, hble⟩

/-- The main menu is open and shows the panel, while the role is up. -/
def Opened (x : BleMode) (p : Panel) (w : World) : Prop :=
  ∃ ble, Up x ble ∧ Shown (some .uiStatus) ble p w

theorem opened_unwired (x : BleMode) (p : Panel) : Unwired (Opened x p) := by
  rintro w wires ⟨ble, hup, hshown⟩
  exact ⟨ble, hup, shown_unwired _ ble p w wires hshown⟩

/-- The panel that shows a choice. -/
def Choice.panel (c : Choice) (row : ℕ) : Panel :=
  ⟨row, getKeymapIndex c.keymap, analogStripIndex ⟨some c.value, c.reset⟩, c.reset⟩

theorem Opened.chosen {c : Choice} {row : ℕ} (h : Opened c.role (c.panel row) w) : Chosen c w := by
  obtain ⟨ble, hup, -, hkeymap, ⟨r, hr, hstrip⟩, hble⟩ := h
  have hassigned : (⟨some c.value, c.reset⟩ : Strip).midiValue ≠ none := nofun
  have hkeymap' : some c.keymap = some w.rest.keymap :=
    (getKeymapIndex_get c.keymap).symm.trans hkeymap
  have hvalue : some c.value = some r := (analogStripIndex_get hassigned).symm.trans hr
  refine ⟨(Option.some.inj hkeymap').symm, ?_, by rw [hble]; exact hup⟩
  rw [hstrip, ← Option.some.inj hvalue]
  rfl

theorem Opened.busy {c : Choice} {row : ℕ} (h : Opened c.role (c.panel row) w) : Busy c w := by
  have hchosen := h.chosen
  obtain ⟨ble, -, ⟨f, hgood, -⟩, -⟩ := h
  exact ⟨⟨f, [], hgood⟩, hchosen⟩

/-- The main menu, opened from the status screen. -/
theorem open_brings (c : Choice) : Brings [.close] (Home c) (Opened c.role (c.panel 0)) := by
  refine .tap (opened_unwired _ _) fun w a _ hw => ?_
  obtain ⟨hgood, hkeymap, hstrip, hrole⟩ := hw
  have hassigned : w.rest.strip.midiValue ≠ none := by
    rw [hstrip]
    exact nofun
  obtain ⟨w', hw', hshown⟩ := open_shown hgood hassigned a (.inr rfl)
  have hpanel : freshPanel w.rest = c.panel 0 := by rw [freshPanel, hkeymap, hstrip, Choice.panel]
  exact ⟨w', hw', w.rest.ble, hrole, hpanel ▸ hshown⟩

/-- The open main menu over taps. -/
theorem presses_bring (x : BleMode) (navs : List Nav) :
    ∀ {p : Panel}, stays p.row navs = true →
      Brings navs (Opened x p) (Opened x (navs.foldl Panel.press p)) := by
  induction navs with
  | nil => exact fun _ => .nil
  | cons nav navs ih =>
      intro p hstays
      rw [stays, Bool.and_eq_true] at hstays
      have hfirst : Brings [nav] (Opened x p) (Opened x (p.press nav)) :=
        .tap (opened_unwired x _) fun w a _ hw => by
          obtain ⟨ble, hup, hshown⟩ := hw
          obtain ⟨w', hw', hshown'⟩ := hshown.press a hstays.1
          exact ⟨w', hw', ble, hup, hshown'⟩
      exact hfirst.cons (ih hstays.2)

/-- The taps that take the settings of the main menu from one choice to another. -/
def dialTaps (c c' : Choice) : List Nav :=
  .close :: (dial (getKeymapIndex c'.keymap) (analogStripIndex ⟨some c'.value, c'.reset⟩)
    (c.reset != c'.reset) ++ [.close])

theorem length_dialTaps (c c' : Choice) : (dialTaps c c').length ≤ 29 := by
  have hkeymap := getKeymapIndex_lt c'.keymap
  have hstrip := analogStripIndex_lt ⟨some c'.value, c'.reset⟩
  have hlength := length_dial (getKeymapIndex c'.keymap)
    (analogStripIndex ⟨some c'.value, c'.reset⟩) (c.reset != c'.reset)
  have hkeymaps : keymaps.length = 7 := rfl
  have hvalues : midiValues.length = 6 := rfl
  simp only [dialTaps, List.length_cons, List.length_append, List.length_nil]
  omega

/-- Any keymap, value for the strip and flag. -/
theorem dialTaps_bring (c c' : Choice) (hrole : c'.role = c.role) :
    Brings (dialTaps c c') (Home c) (Home c') := by
  have hkeymap := getKeymapIndex_lt c'.keymap
  have hstrip := analogStripIndex_lt ⟨some c'.value, c'.reset⟩
  have hdialled := presses_bring c.role (dial (getKeymapIndex c'.keymap)
    (analogStripIndex ⟨some c'.value, c'.reset⟩) ((c.panel 0).reset != c'.reset))
    (show stays (c.panel 0).row _ = true from stays_dial hkeymap hstrip _)
  rw [foldl_dial rfl hkeymap hstrip (getKeymapIndex_lt _) (analogStripIndex_lt _)] at hdialled
  have hbusy (w : World) (hw : Opened c.role (c'.panel 4) w) : Busy c' w := by
    rw [← hrole] at hw
    exact hw.busy
  exact (open_brings c).cons ((hdialled.imp (fun _ h => h) hbusy).append (close_brings c'))

end Dialling

section Roles
variable {w w' : World}

/-- The role that an action leads to. -/
def leadsTo : Action → Option BleMode
  | .startServer => some .server
  | .startClient => some .client
  | .stop => some .off
  | _ => none

theorem ble_of_controls (h : controls w'.rest = controls w.rest) : w'.rest.ble = w.rest.ble :=
  congrArg Controls.ble h

/-- The client's deinitialisation where it is up, and what follows. -/
theorem clientStopped {f : World → Except Fault World}
    (h : (if w.rest.ble.clientInitialized then midiBleClientDeinit w >>= f
      else pure w >>= f) = .ok w') :
    ∃ v, f v = .ok w' ∧ v.rest.ble.clientInitialized = false ∧
      v.rest.ble.serverInitialized = w.rest.ble.serverInitialized := by
  split_ifs at h with hc
  · obtain ⟨v, hv, h⟩ := Runs.bind_ok h
    have hble := uiRender_rest elements hv
    exact ⟨v, h, by rw [hble]; rfl, by rw [hble]; rfl⟩
  · exact ⟨w, h, by simpa using hc, rfl⟩

theorem serverStopped (w : World) :
    (if w.rest.ble.serverInitialized then onBle midiBleDeinit w else w).rest.ble.serverInitialized =
      false := by
  split_ifs with hs
  · rfl
  · simpa using hs

theorem startServer_up {a : Answers} (hradio : a.radio.cyw43Fails = false)
    (h : startServer a w = .ok w') : Up .server w'.rest.ble := by
  obtain ⟨v, hv, hclient, -⟩ := clientStopped h
  rw [ble_of_controls (clear_controls hv)]
  constructor
  · simp [onBle, midiBleServerInit, hradio]
  · change (midiBleServerInit a.radio v.rest.ble).clientInitialized = false
    simpa [midiBleServerInit, hradio, Ble.log] using hclient

theorem stop_up (h : stop w = .ok w') : Up .off w'.rest.ble := by
  obtain ⟨v, hv, hclient, hserver⟩ := clientStopped h
  rw [ble_of_controls (clear_controls hv)]
  constructor
  · exact hserver.trans (serverStopped w)
  · exact hclient

theorem startClient_up {a : Answers} (hradio : a.radio.cyw43Fails = false)
    (h : startClient a w = .ok w') : Up .client w'.rest.ble := by
  obtain ⟨v, hinit, h⟩ := Runs.bind_ok h
  obtain ⟨u, hclear, h⟩ := Runs.bind_ok h
  rw [ble_of_controls (push_controls h), ble_of_controls (clear_controls hclear)]
  have hstopped := serverStopped w
  generalize (if w.rest.ble.serverInitialized then onBle midiBleDeinit w else w) = x
    at hinit hstopped
  have hble : v.rest.ble = (clientInitWithAddr a.radio none x.rest.ble).2 := by
    have hdone : (clientInitWithAddr a.radio none x.rest.ble).1 = true := by
      simp [clientInitWithAddr, hradio]
    simp only [midiBleClientInit, midiBleClientInitWithAddr, hdone, if_true] at hinit
    rw [uiRender_rest elements hinit]
    rfl
  rw [hble]
  constructor
  · change (clientInitWithAddr a.radio none x.rest.ble).2.serverInitialized = false
    simpa [clientInitWithAddr, hradio, Ble.log] using hstopped
  · simp [clientInitWithAddr, hradio]

theorem runAction_up {a : Answers} (hradio : a.radio.cyw43Fails = false) {action : Action}
    {x : BleMode} (hx : leadsTo action = some x) (h : runAction a action w = .ok w') :
    Up x w'.rest.ble := by
  cases action with
  | startServer =>
      obtain rfl := Option.some.inj hx
      exact startServer_up hradio h
  | startClient =>
      obtain rfl := Option.some.inj hx
      exact startClient_up hradio h
  | stop =>
      obtain rfl := Option.some.inj hx
      exact stop_up h
  | _ => cases hx

/-- The row of the Bluetooth menu that leads from one role to another. -/
def entryRow : BleMode → BleMode → ℕ
  | .off, .client => 1
  | .server, .off => 1
  | .client, .off => 3
  | .client, .server => 2
  | _, _ => 0

/-- The Bluetooth menu leads from the role that is up to every other one. -/
theorem bluetoothItems_lead (a : Answers) {b : Ble} {x y : BleMode} (hx : Up x b) (hxy : x ≠ y) :
    ∃ label action, (bluetoothItems a b)[entryRow x y]? = some (.default label action) ∧
      leadsTo action = some y := by
  unfold bluetoothItems
  rw [hx.server, hx.client]
  cases x with
  | off =>
      cases y with
      | off => exact (hxy rfl).elim
      | server => exact ⟨_, .startServer, rfl, rfl⟩
      | client => exact ⟨_, .startClient, rfl, rfl⟩
  | server =>
      cases y with
      | off => exact ⟨_, .stop, rfl, rfl⟩
      | server => exact (hxy rfl).elim
      | client => exact ⟨_, .startClient, rfl, rfl⟩
  | client =>
      cases y with
      | off => exact ⟨_, .stop, rfl, rfl⟩
      | server => exact ⟨_, .startServer, rfl, rfl⟩
      | client => exact (hxy rfl).elim

/-- Only a client that starts leaves a menu open. -/
theorem runAction_current {a : Answers} {action : Action} {x : BleMode}
    (hx : leadsTo action = some x) (h : runAction a action w = .ok w') :
    w'.current = none ↔ x ≠ .client := by
  cases action with
  | startServer =>
      obtain rfl := Option.some.inj hx
      obtain ⟨v, hv, -⟩ := clientStopped h
      exact iff_of_true (uiClear_current elements hv) (by decide)
  | startClient =>
      obtain rfl := Option.some.inj hx
      obtain ⟨v, -, h⟩ := Runs.bind_ok h
      obtain ⟨u, -, h⟩ := Runs.bind_ok h
      obtain ⟨heap, -, hpushed⟩ := Runs.bind_ok h
      rw [← Except.ok.inj hpushed]
      exact iff_of_false nofun fun hne => hne rfl
  | stop =>
      obtain rfl := Option.some.inj hx
      obtain ⟨v, hv, -⟩ := clientStopped h
      exact iff_of_true (uiClear_current elements hv) (by decide)
  | _ => cases hx

/-- A menu with these items is open, with its cursor on row `i`. -/
def Listed (items : List Item) (i : ℕ) (c : Choice) (w : World) : Prop :=
  (∃ f fs, Good (some .uiStatus) False (f :: fs) w ∧ f.items.map Prod.snd = items ∧
    f.index.toNat = i) ∧ Chosen c w

variable {c : Choice} {items : List Item} {i : ℕ}

theorem listed_unwired (items : List Item) (i : ℕ) (c : Choice) : Unwired (Listed items i c) := by
  rintro w wires ⟨⟨f, fs, hgood, hitems, hrow⟩, hchosen⟩
  exact ⟨⟨f, fs, good_unwired _ _ w wires hgood, hitems, hrow⟩, chosen_unwired c w wires hchosen⟩

theorem Listed.down (h : Listed items i c w) (hi : i + 1 < items.length) (a : Answers) :
    ∃ w', Menus.step w (a, .navigate .down) = .ok w' ∧ Listed items (i + 1) c w' := by
  obtain ⟨⟨f, fs, hgood, hitems, hrow⟩, hchosen⟩ := h
  have hlength : f.items.length = items.length := by rw [← hitems, List.length_map]
  have hshort := (hgood.frames f (List.mem_cons_self ..)).short
  obtain ⟨v, hv, hgood', -⟩ := hgood.navigateMenu_move a .down
  obtain ⟨w', hw', hgood'', -⟩ := hgood'.render
  have hstep : Menus.step w (a, .navigate .down) = .ok w' := by
    rw [step_menu hgood a (by decide) (by decide), show Nav.down = Move.down.nav from rfl, hv]
    exact hw'
  refine ⟨w', hstep, ⟨_, fs, hgood'', hitems, ?_⟩,
    hchosen.congr ((render_controls hw').trans (move_controls hv))⟩
  have hmoved : (f.moved (Move.down.on f.record)).index.toNat = moveRow f.items.length i .down := by
    rw [← hrow]
    exact move_index (by omega) .down
  rw [hmoved, moveRow]
  omega

theorem rows_bring (i : ℕ) (hi : i < items.length) :
    Brings (List.replicate i .down) (Listed items 0 c) (Listed items i c) := by
  induction i with
  | zero => exact .nil
  | succ i ih =>
      rw [List.replicate_succ']
      exact (ih (Nat.lt_of_succ_lt hi)).append
        (.tap (listed_unwired items (i + 1) c) fun w a _ hw => hw.down hi a)

/-- What is left to do after the change to a role. -/
def leave : BleMode → List Nav
  | .client => [.close]
  | _ => []

/-- After the change to a role: the Bluetooth menu of a client that starts is open. -/
def Changed (x : BleMode) (c : Choice) (w : World) : Prop :=
  if x = .client then Busy c w else Home c w

theorem changed_unwired (x : BleMode) (c : Choice) : Unwired (Changed x c) := by
  intro w wires h
  unfold Changed at h ⊢
  split_ifs at h ⊢
  · exact busy_unwired c w wires h
  · exact home_unwired c w wires h

theorem leave_brings (x : BleMode) (c : Choice) : Brings (leave x) (Changed x c) (Home c) := by
  cases x with
  | client => exact close_brings c
  | _ => exact .nil

/-- ENTER starts the action under the cursor. -/
theorem Listed.enter (h : Listed items i c w) {a : Answers} (hradio : a.radio.cyw43Fails = false)
    {label : String} {action : Action} (hitem : items[i]? = some (.default label action))
    {x : BleMode} (hx : leadsTo action = some x) :
    ∃ w', Menus.step w (a, .navigate .enter) = .ok w' ∧ Changed x { c with role := x } w' := by
  obtain ⟨⟨f, fs, hgood, rfl, rfl⟩, hchosen⟩ := h
  rw [List.getElem?_map] at hitem
  obtain ⟨q, hq, hdefault⟩ := Option.map_eq_some_iff.mp hitem
  obtain ⟨hlt, rfl⟩ := List.getElem?_eq_some_iff.mp hq
  have hmem : f ∈ f :: fs := List.mem_cons_self ..
  have hread := hgood.rep.heap.item hmem (List.getElem_mem hlt)
  have hfits := hgood.roles f hmem _ (List.getElem_mem hlt)
  rw [hdefault] at hread hfits
  obtain ⟨v, gs, hv, hgood', -⟩ := runAction_leads a action hgood hfits False.elim
  obtain ⟨w', hw', hgood'', -⟩ := hgood'.render
  have hspared := (runAction_spares a action w v hv).trans (render_spares v w' hw')
  have hchosen' : Chosen { c with role := x } w' := by
    refine ⟨hspared.keymap.trans hchosen.keymap, hspared.strip.trans hchosen.strip, ?_⟩
    rw [ble_of_controls (render_controls hw')]
    exact runAction_up hradio hx hv
  refine ⟨w', ?_, ?_⟩
  · rw [step_menu hgood a (by decide) (by decide),
      navigateMenu_item a hgood (by decide) (by decide), f.readSlot_item hlt]
    simp only [navigateItem, hread, if_true, hv, bind, Except.bind]
    exact hw'
  · have hcurrent := runAction_current hx hv
    unfold Changed
    split_ifs with hclient
    · cases gs with
      | nil => exact (hcurrent.mp hgood'.rep.stacked.current hclient).elim
      | cons g gs => exact ⟨⟨g, gs, hgood''⟩, hchosen'⟩
    · obtain rfl := frames_nil hgood' (hcurrent.mpr hclient)
      exact ⟨hgood'', hchosen'⟩

/-- The Bluetooth menu is behind the first row of the main menu. -/
theorem bluetooth_listed {p : Panel} {ble : Ble} (h : Shown (some .uiStatus) ble p w)
    (hrow : p.row = 0) (hchosen : Chosen c w) (a : Answers) :
    ∃ w', Menus.step w (a, .navigate .enter) = .ok w' ∧
      Listed (bluetoothItems a w.rest.ble) 0 c w' := by
  obtain ⟨f, hgood, hitems, hindex⟩ := h.menu
  have hlength : f.items.length = 5 := by
    rw [← List.length_map (f := Prod.snd), hitems]
    rfl
  have hlt : f.index.toNat < f.items.length := by
    rw [hindex, hrow, hlength]
    decide
  have hself : some (f.items[f.index.toNat]).2 = p.items[0]? := by
    rw [← hitems, List.getElem?_map, ← hrow, ← hindex, List.getElem?_eq_getElem hlt]
    rfl
  have hread := hgood.rep.heap.item (List.mem_cons_self ..) (List.getElem_mem hlt)
  rw [Option.some.inj hself] at hread
  obtain ⟨hfew, hok⟩ := bluetoothItems_ok a hgood.ble
  have hcapacity : (bluetoothItems a w.rest.ble).length ≤ (4 : UInt8).toNat := hfew
  obtain ⟨v, g, hv, hgood', hgitems, hstart, -⟩ :=
    hgood.push hcapacity (by omega) (fun x hx => (hok x hx).1) False.elim
  obtain ⟨w', hw', hgood'', -⟩ := hgood'.render
  refine ⟨w', ?_, ⟨g, [f], hgood'', hgitems, by rw [hstart.1]; rfl⟩,
    hchosen.congr ((render_controls hw').trans (push_controls hv))⟩
  rw [step_menu hgood a (by decide) (by decide),
    navigateMenu_item a hgood (by decide) (by decide), f.readSlot_item hlt]
  simp only [navigateItem, hread, if_true, runAction, pushMenuBluetooth, hv, bind, Except.bind]
  exact hw'

/-- A menu with an entry for the role in this row is open, with its cursor on the first one. -/
def Offers (i : ℕ) (x : BleMode) (c : Choice) (w : World) : Prop :=
  ∃ items label action, items[i]? = some (.default label action) ∧ leadsTo action = some x ∧
    Listed items 0 c w

theorem offers_unwired (i : ℕ) (x : BleMode) (c : Choice) : Unwired (Offers i x c) := by
  rintro w wires ⟨items, label, action, hitem, hleads, hlisted⟩
  exact ⟨items, label, action, hitem, hleads, listed_unwired items 0 c w wires hlisted⟩

theorem offers_brings {x : BleMode} (hx : c.role ≠ x) :
    Brings [.enter] (Opened c.role (c.panel 0)) (Offers (entryRow c.role x) x c) := by
  refine .tap (offers_unwired _ x c) fun w a _ hw => ?_
  have hchosen := hw.chosen
  obtain ⟨ble, hup, hshown⟩ := hw
  obtain ⟨label, action, hitem, hleads⟩ := bluetoothItems_lead a hchosen.role hx
  obtain ⟨w', hw', hlisted⟩ := bluetooth_listed hshown rfl hchosen a
  exact ⟨w', hw', _, label, action, hitem, hleads, hlisted⟩

/-- Down to the entry, and ENTER. -/
theorem entry_brings (i : ℕ) (x : BleMode) (c : Choice) :
    Brings (List.replicate i .down ++ [.enter]) (Offers i x c)
      (Changed x { c with role := x }) := by
  intro k answers hradio hk hoffers
  obtain ⟨items, label, action, hitem, hleads, hlisted⟩ := hoffers
  have hi : i < items.length := (List.getElem?_eq_some_iff.mp hitem).choose
  have hentered : Brings [.enter] (Listed items i c) (Changed x { c with role := x }) :=
    .tap (changed_unwired x _) fun w a hradio hw => hw.enter hradio hitem hleads
  exact (rows_bring i hi).append hentered k answers hradio hk hlisted

/-- The taps that take the role of a choice to another one. -/
def roleTaps (x y : BleMode) : List Nav :=
  if x = y then []
  else .close :: .enter :: (List.replicate (entryRow x y) .down ++ [.enter] ++ leave y)

theorem length_roleTaps (x y : BleMode) : (roleTaps x y).length ≤ 7 := by
  cases x <;> cases y <;> decide

/-- Any role, while the radio comes up. -/
theorem roleTaps_bring (c : Choice) (x : BleMode) :
    Brings (roleTaps c.role x) (Home c) (Home { c with role := x }) := by
  unfold roleTaps
  split_ifs with hx
  · subst hx
    exact .nil
  · exact (open_brings c).cons ((offers_brings hx).cons
      ((entry_brings _ x c).append (leave_brings x _)))

end Roles

section Choosing

/-- From every state that a run over keycodes in the tables reaches, some taps, at most 37, put
any choice of the settings in force after all keys are let go, and leave no menu open. The
same taps do so whatever is answered to each key, while the radio comes up. -/
theorem choice_in_reach {start : Answers} {keymap : Keymap} {saved : BleState} {es : List Event}
    {k : Device} (h : Firmware.boot start true keymap saved >>= run es = .ok k) (hkeys : Tabled es)
    (c : Choice) :
    ∃ navs, navs.length ≤ 37 ∧ ∀ answers, Powered answers →
      ∃ k', run (letGo (answers 0) :: taps (fun n => answers (n + 1)) navs) k = .ok k' ∧
        k'.world.current = none ∧ Chosen c k'.world := by
  have hcurrent : Current (some .uiStatus) k.world := reached_current h
  obtain ⟨fs, hgood⟩ := hcurrent.menus
  obtain ⟨c₀, hc₀⟩ : ∃ c, Chosen c k.world := chosen_of_good hgood hcurrent.agreed.assigned
  have htidy := reached_tidy h hkeys
  have hdialled := dialTaps_bring c₀ { c with role := c₀.role } rfl
  have hchosen := hdialled.append (roleTaps_bring { c with role := c₀.role } c.role)
  have hdial := length_dialTaps c₀ { c with role := c₀.role }
  have hrole := length_roleTaps ({ c with role := c₀.role } : Choice).role c.role
  -- the state that the keys are let go in, and the taps from there
  have hreach {navs : List Nav} {P : World → Prop} (hP : Unwired P) (hp : P k.world)
      (hnavs : Brings navs P (Home c)) (answers : ℕ → Bool → ℕ → KeyAnswers)
      (hradio : Powered answers) :
      ∃ k', run (letGo (answers 0) :: taps (fun n => answers (n + 1)) navs) k = .ok k' ∧
        k'.world.current = none ∧ Chosen c k'.world := by
    obtain ⟨j, hj, hidle, hp'⟩ := letGo_idle hP (answers 0) htidy.arrays htidy.held hp
    obtain ⟨k', hk', -, hgood', hc⟩ := hnavs j _ (hradio.later 1) hidle hp'
    refine ⟨k', ?_, hgood'.rep.stacked.current, hc⟩
    rw [run, List.foldlM_cons, hj]
    exact hk'
  cases fs with
  | nil =>
      refine ⟨_, ?_, hreach (home_unwired c₀) ⟨hgood, hc₀⟩ hchosen⟩
      rw [List.length_append]
      omega
  | cons f fs =>
      refine ⟨_, ?_, hreach (busy_unwired c₀) ⟨⟨f, fs, hgood⟩, hc₀⟩
        ((close_brings c₀).cons hchosen)⟩
      rw [List.length_cons, List.length_append]
      omega

/-- The client's link is up at every other report from here on. -/
def linkComesAndGoes (n : ℕ) (_ : Bool) (_ : ℕ) : KeyAnswers :=
  let radio := { ConnectMenu.quiet.radio with clientConnected := n % 2 == 0 }
  ⟨{ ConnectMenu.quiet with radio := radio }, fun _ => ⟨3, 3⟩⟩

/-- While two keys are held and the menu is open, the omnichord, the strip on the release
time and the server are within reach. -/
theorem menuWhileHeld_in_reach :
    ∃ k navs k', Firmware.boot ConnectMenu.quiet true .piano .off >>= run menuWhileHeld = .ok k ∧
      navs.length ≤ 37 ∧
      run (letGo (linkComesAndGoes 0) :: taps (fun n => linkComesAndGoes (n + 1)) navs) k =
        .ok k' ∧
      k'.world.current = none ∧ Chosen ⟨.omnichord, .mvRelease, false, .server⟩ k'.world := by
  have hrun : Firmware.boot ConnectMenu.quiet true .piano .off >>= run menuWhileHeld = .ok _ := rfl
  have hkeys : Tabled menuWhileHeld := by
    simp [Tabled, menuWhileHeld, inputs, Input.keys, twoKeys, noKeys]
  obtain ⟨navs, hlength, hreach⟩ :=
    choice_in_reach hrun hkeys ⟨.omnichord, .mvRelease, false, .server⟩
  obtain ⟨k', hk'⟩ := hreach linkComesAndGoes fun _ _ _ => rfl
  exact ⟨_, navs, k', hrun, hlength, hk'⟩

end Choosing

end Keytar.Firmware
