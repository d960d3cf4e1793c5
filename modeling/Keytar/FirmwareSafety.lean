import Keytar.Config
import Keytar.FirmwareKeys
import Keytar.FurnishedMenus
import Keytar.LookupSafety

/-!
# Which runs of the firmware go through

Two things can lead a read out of its array: an input that a menu without items hands to
an item, and a code past the tables that the omnichord looks up. Each depends on the
state that a key finds, so the guard is run along with the firmware. A run that meets it
goes through, whatever is answered, and leaves the stack, the blocks, the roles and the
note arrays in order.

Two reads of the source are left aside, as `Firmware` does: the level of the battery, which
a redraw of the status screen reads (`Battery` says when that is in bounds), and the load
through NULL of the argument that the status screen ignores (`Ui.Navigation` says when it
comes).
-/
namespace Keytar.Firmware
open Config FurnishedMenus KeyboardMatrix Keyboard LookupSafety Memory MenuEffects Midi MidiBle Ui
  Menus
open Runs (Decides)

/-- What the key reads is in its array. -/
def keySafe (key : UInt8) (pressed : Bool) (k : Device) : Bool :=
  match if pressed then navOf key else none with
  | some nav => !Strays k.world (.navigate nav)
  | none => k.world.rest.keymap != .omnichord || key < 128

/-- Every key of a run reads inside the arrays. -/
def Safe (es : List Event) (k : Device) : Bool := EveryCall (fun _ => keySafe) es k

/-- Nothing is known of the memory behind the item arrays. -/
def Event.Blind : Event → Prop
  | .report _ _ answers => ∀ pressed i, (answers pressed i).menus.stray = none
  | _ => True

/-- What a run without stray reads keeps. -/
structure Sound (d : Option Element) (k : Device) : Prop where
  menus : ∃ fs, Good d True fs k.world
  arrays : Stopped k.arrays

section Steps
variable {d : Option Element} {k : Device} {H : Prop}

theorem good_withMidi {fs : List (Frame Item)} {w : World} (h : Good d True fs w)
    (midi : MidiValues.Store Wires) :
    Good d True fs { w with rest := { w.rest with midi := midi } } :=
  h.withRest { w.rest with midi := midi } rfl rfl rfl h.ble

theorem handleKey_decides (hk : Sound d k) {a : KeyAnswers} (ha : H → a.menus.stray = none)
    (key : UInt8) (pressed : Bool) :
    Decides Fault.outOfBounds H (Sound d) (keySafe key pressed k) (handleKey a key pressed k) := by
  obtain ⟨⟨fs, hgood⟩, harrays⟩ := hk
  unfold handleKey keySafe
  cases hnav : if pressed then navOf key else none with
  | some nav =>
      cases hstray : Strays k.world (.navigate nav) with
      | false =>
          obtain ⟨w, gs, hw, hgood', -⟩ := step_leads hgood (a.menus, .navigate nav) hstray
          simp only [hw, hstray, bind, Except.bind]
          exact .inl ⟨rfl, _, rfl, ⟨gs, hgood'⟩, harrays⟩
      | true =>
          simp only [hstray]
          refine .fault fun h => ?_
          rw [step_outOfBounds hgood (a.menus, .navigate nav) hstray (ha h)]
          rfl
  | none =>
      by_cases hc : (⟨k.world.rest.keymap, key, pressed⟩ : Call).InTable
      · obtain ⟨notes, raw, hnotes, hread, hstopped⟩ := lookup_stopped harrays hc
        have hsafe : (k.world.rest.keymap != .omnichord || decide (key < 128)) = true := by
          simp only [Bool.or_eq_true, bne_iff_ne, decide_eq_true_eq]
          exact Classical.or_iff_not_imp_left.mpr fun h => hc (Classical.not_not.mp h)
        simp only [hnotes, hread, hsafe, bind, Except.bind]
        exact .ok ⟨⟨fs, good_withMidi hgood _⟩, hstopped⟩
      · obtain ⟨hm, hkey⟩ : k.world.rest.keymap = .omnichord ∧ ¬ key < 128 :=
          Classical.not_imp.mp hc
        simp only [hm, lookup_outOfBounds hkey, bne_self_eq_false, hkey, decide_false,
          Bool.or_false, bind, Except.bind]
        exact .fault fun _ => rfl

theorem diffLoop_decides (hk : Sound d k) {answers : ℕ → KeyAnswers}
    (ha : H → ∀ i, (answers i).menus.stray = none) (pressed : Bool) (report other : Report) :
    Decides Fault.outOfBounds H (Sound d)
      (diffMeets (fun _ => keySafe) answers pressed report other k)
      (diffLoop answers pressed report other k) := by
  refine Runs.decides_along (fun slot _ j hj => ?_) hk
  unfold slotMeets handleSlot
  split_ifs
  · exact handleKey_decides hj (fun h => ha h slot.2) slot.1 pressed
  · exact .ok hj

theorem processKbdReport_decides (hk : Sound d k) {answers : Bool → ℕ → KeyAnswers}
    (ha : H → ∀ pressed i, (answers pressed i).menus.stray = none) (new : Report) :
    Decides Fault.outOfBounds H (Sound d) (reportMeets (fun _ => keySafe) answers new k)
      (processKbdReport answers new k) := by
  have hloops := (diffLoop_decides hk (fun h => ha h true) true new k.prevReport).bind
    fun j hj => diffLoop_decides hj (fun h => ha h false) false k.prevReport new
  have hdone := hloops.map fun (j : Device) (hj : Sound d j) =>
    (⟨hj.menus, hj.arrays⟩ : Sound d { j with prevReport := new })
  simpa only [processKbdReport, reportMeets, bind_assoc] using hdone

theorem step_decides (hk : Sound d k) {e : Event} (he : H → e.Blind) :
    Decides Fault.outOfBounds H (Sound d) (eventMeets (fun _ => keySafe) k e) (step k e) := by
  obtain ⟨fs, hgood⟩ := hk.menus
  cases e with
  | mount isKeyboard =>
      cases isKeyboard with
      | false => exact .ok hk
      | true =>
          obtain ⟨w, hw, hgood', -⟩ := hgood.render
          simp only [step, tuhHidMountCb, if_true, hw, bind, Except.bind]
          exact .ok ⟨⟨fs, hgood'⟩, hk.arrays⟩
  | report isKeyboard report answers =>
      cases isKeyboard with
      | false => exact .ok hk
      | true => exact processKbdReport_decides hk he report
  | strip adcRead a => exact .ok ⟨⟨fs, good_withMidi hgood _⟩, hk.arrays⟩
  | link l a =>
      obtain ⟨w, gs, hw, hgood', -⟩ := step_leads hgood (a, l.event) (by cases l <;> rfl)
      simp only [step, hw, bind, Except.bind]
      exact .ok ⟨⟨gs, hgood'⟩, hk.arrays⟩

theorem run_decides (hk : Sound d k) {es : List Event} (hes : H → ∀ e ∈ es, e.Blind) :
    Decides Fault.outOfBounds H (Sound d) (Safe es k) (run es k) :=
  Runs.decides_along (fun e he _ hj => step_decides hj fun h => hes h e he) hk

theorem boot_sound (a : Answers) (displayOk : Bool) (keymap : Keymap) (saved : BleState) :
    ∃ k, Firmware.boot a displayOk keymap saved = .ok k ∧ Sound (statusElement displayOk) k := by
  obtain ⟨w, hw, hgood⟩ := bootUp_good True a displayOk keymap saved
  have hstopped : Stopped bootArrays := ⟨bootArrays_valid, by simp [bootArrays]⟩
  refine ⟨⟨w, false, 0, bootArrays, noKeys, []⟩, ?_, ⟨[], hgood⟩, hstopped⟩
  rw [Firmware.boot, hw]
  rfl

/-- The stack has at most three layers and counts them, the live blocks are theirs, at
most one role is up and has the radio, and every note array ends inside its bounds. -/
structure InOrder (d : Option Element) (k : Device) : Prop where
  layers : ∃ fs, Rep d fs k.world ∧ k.world.stackSize.toNat = fs.length ∧ fs.length ≤ 3
  ble : k.world.rest.ble.Sound
  arrays : Terminated k.arrays

theorem Sound.inOrder (h : Sound d k) : InOrder d k := by
  obtain ⟨fs, hgood⟩ := h.menus
  have hle := (hgood.bounded trivial).length_le
  refine ⟨⟨fs, hgood.rep, ?_, hle⟩, hgood.ble, h.arrays.terminated⟩
  rw [hgood.rep.stacked.size, List.length_map, UInt8.toNat_ofNat']
  omega

end Steps

/-- `main` up to its loop, with the settings from the flash. -/
def bootFromFlash (abi : EnumAbi) (a : Answers) (displayOk : Bool) (f : Flash) :
    Except Fault Device := do
  let w ← Config.bootFromFlash abi a displayOk f
  pure ⟨w, false, 0, bootArrays, noKeys, []⟩

theorem bootFromFlash_eq (abi : EnumAbi) (a : Answers) (displayOk : Bool) (f : Flash) :
    ∃ keymap saved, bootFromFlash abi a displayOk f = Firmware.boot a displayOk keymap saved := by
  have hworld : ∃ keymap saved, Config.bootFromFlash abi a displayOk f =
      bootUp a displayOk keymap saved := Config.bootFromFlash_eq a displayOk f
  obtain ⟨keymap, saved, h⟩ := hworld
  exact ⟨keymap, saved, by rw [bootFromFlash, h]; rfl⟩

/-- Whatever the flash holds, the firmware gets to its main loop. From there every run that
is safe goes through and leaves everything in order, and one that is not ends in a read
out of bounds where nothing is known of the memory behind the item arrays. The battery
and the ignored argument are left aside. -/
theorem run_safe_iff (abi : EnumAbi) (a : Answers) (displayOk : Bool) (f : Flash)
    (es : List Event) :
    ∃ k, bootFromFlash abi a displayOk f = .ok k ∧
      (Safe es k = true → ∃ k', run es k = .ok k' ∧ InOrder (statusElement displayOk) k') ∧
      (Safe es k = false → (∀ e ∈ es, e.Blind) → run es k = .error .outOfBounds) := by
  obtain ⟨keymap, saved, hboot⟩ := bootFromFlash_eq abi a displayOk f
  obtain ⟨k, hk, hsound⟩ := boot_sound a displayOk keymap saved
  rw [hboot]
  have hdecides := run_decides (H := ∀ e ∈ es, e.Blind) hsound id
  refine ⟨k, hk, fun hsafe => ?_, hdecides.of_not_guard⟩
  obtain ⟨k', hrun, hsound'⟩ := hdecides.of_guard hsafe
  exact ⟨k', hrun, hsound'.inOrder⟩

section Found

/-- The keyboards report codes of the tables, and a peripheral has been found whenever a
key is handled. -/
def Event.Found : Event → Prop
  | .report true new answers => (∀ key ∈ new.toList, key < 128) ∧
      ∀ pressed i, (answers pressed i).menus.deviceCount ≠ 0
  | _ => True

/-- What such events keep. -/
structure Plain (k : Device) : Prop where
  menus : Furnished none k.world.rest.heap
  prevReport : ∀ key ∈ k.prevReport.toList, key < 128

variable {k k' : Device}

theorem keySafe_of_plain (hk : Plain k) {key : UInt8} (hkey : key < 128) (pressed : Bool) :
    keySafe key pressed k = true := by
  unfold keySafe
  split
  · rw [strays_of_furnished hk.menus]
    rfl
  · rw [decide_eq_true hkey, Bool.or_true]

theorem handleKey_plain (hk : Plain k) {a : KeyAnswers} (ha : a.menus.deviceCount ≠ 0)
    {key : UInt8} {pressed : Bool} (h : handleKey a key pressed k = .ok k') :
    Plain k' ∧ k'.prevReport = k.prevReport := by
  unfold handleKey at h
  split at h
  · obtain ⟨w, hw, h⟩ := Runs.bind_ok h
    obtain rfl := Except.ok.inj h
    exact ⟨⟨effects_furnished ha (step_navigate_does _ k.world w hw) hk.menus, hk.prevReport⟩, rfl⟩
  · obtain ⟨notes, -, h⟩ := Runs.bind_ok h
    obtain ⟨raw, -, h⟩ := Runs.bind_ok h
    obtain rfl := Except.ok.inj h
    exact ⟨⟨hk.menus, hk.prevReport⟩, rfl⟩

theorem diffLoop_plain (hk : Plain k) {answers : ℕ → KeyAnswers}
    (ha : ∀ i, (answers i).menus.deviceCount ≠ 0) (pressed : Bool) {report : Report}
    (other : Report) (hreport : ∀ key ∈ report.toList, key < 128) :
    diffMeets (fun _ => keySafe) answers pressed report other k = true ∧
      ∀ k', diffLoop answers pressed report other k = .ok k' →
        Plain k' ∧ k'.prevReport = k.prevReport := by
  have hslot (slot : UInt8 × ℕ) {j j' : Device} (hj : Plain j)
      (h : handleSlot answers pressed other j slot = .ok j') :
      Plain j' ∧ j'.prevReport = j.prevReport := by
    unfold handleSlot at h
    split_ifs at h
    · exact handleKey_plain hj (ha slot.2) h
    · obtain rfl := Except.ok.inj h
      exact ⟨hj, rfl⟩
  constructor
  · refine Runs.along_of_invariant Plain
      (fun slot hmem j hj => ⟨?_, fun j' h => (hslot slot hj h).1⟩) hk
    unfold slotMeets
    split_ifs
    · exact keySafe_of_plain hj (hreport _ (List.fst_mem_of_mem_zipIdx hmem)) pressed
    · rfl
  · intro k' h
    exact Runs.foldlM_relates (fun j j' => Plain j → Plain j' ∧ j'.prevReport = j.prevReport)
      (fun _ hj => ⟨hj, rfl⟩)
      (fun _ _ _ h h' hj => ⟨(h' (h hj).1).1, (h' (h hj).1).2.trans (h hj).2⟩)
      (fun slot _ _ _ h hj => hslot slot hj h) h hk

theorem link_heap {l : Link} {a : Answers} {w w' : World}
    (h : Menus.step w (a, l.event) = .ok w') : w'.rest.heap = w.rest.heap := by
  cases l with
  | serverConnected handle =>
      simp only [Link.event, Menus.step, serverConnected] at h
      split_ifs at h
      · rw [uiRender_rest elements h]
        rfl
      · rw [← Except.ok.inj h]
  | serverDisconnected =>
      simp only [Link.event, Menus.step, serverDisconnected] at h
      split_ifs at h
      · rw [uiRender_rest elements h]
        rfl
      · rw [← Except.ok.inj h]
  | clientStatus ready =>
      rw [uiRender_rest elements h]
      cases ready <;> rfl

theorem eventMeets_of_found {e : Event} (he : e.Found) (hk : Plain k) :
    eventMeets (fun _ => keySafe) k e = true ∧ ∀ k', step k e = .ok k' → Plain k' := by
  cases e with
  | mount isKeyboard =>
      refine ⟨rfl, fun k' h => ?_⟩
      cases isKeyboard with
      | false =>
          obtain rfl := Except.ok.inj h
          exact hk
      | true =>
          obtain ⟨w, hw, h⟩ := Runs.bind_ok h
          obtain rfl := Except.ok.inj h
          exact ⟨by rw [uiRender_rest elements hw]; exact hk.menus, hk.prevReport⟩
  | report isKeyboard report answers =>
      cases isKeyboard with
      | false =>
          refine ⟨rfl, fun k' h => ?_⟩
          obtain rfl := Except.ok.inj h
          exact hk
      | true =>
          obtain ⟨hkeys, ha⟩ := he
          obtain ⟨hsafe, hpressed⟩ := diffLoop_plain hk (ha true) true k.prevReport hkeys
          have hreleased (j : Device) (hj : Plain j) :=
            diffLoop_plain hj (ha false) false report hk.prevReport
          constructor
          · simp only [eventMeets, reportMeets, hsafe, Bool.true_and]
            cases hloop : diffLoop (answers true) true report k.prevReport k with
            | error fault => rfl
            | ok j => exact (hreleased j (hpressed j hloop).1).1
          · intro k' h
            obtain ⟨j, hj, h⟩ := Runs.bind_ok h
            obtain ⟨i, hi, h⟩ := Runs.bind_ok h
            obtain rfl := Except.ok.inj h
            exact ⟨((hreleased j (hpressed j hj).1).2 i hi).1.menus, hkeys⟩
  | strip adcRead a =>
      refine ⟨rfl, fun k' h => ?_⟩
      obtain rfl := Except.ok.inj h
      exact ⟨hk.menus, hk.prevReport⟩
  | link l a =>
      refine ⟨rfl, fun k' h => ?_⟩
      obtain ⟨w, hw, h⟩ := Runs.bind_ok h
      obtain rfl := Except.ok.inj h
      exact ⟨by rw [link_heap hw]; exact hk.menus, hk.prevReport⟩

theorem boot_plain {a : Answers} {displayOk : Bool} {keymap : Keymap} {saved : BleState}
    (h : Firmware.boot a displayOk keymap saved = .ok k) : Plain k := by
  obtain ⟨w, hw, h⟩ := Runs.bind_ok h
  obtain rfl := Except.ok.inj h
  obtain ⟨v, hv, hgood⟩ := bootUp_good True a displayOk keymap saved
  obtain rfl := Except.ok.inj (hv.symm.trans hw)
  have hheap := hgood.rep.heap
  refine ⟨⟨fun p self hp => ?_, fun p slots hp => ?_⟩, by simp [noKeys]⟩
  · simpa using hheap.menus.mem_of_read hp
  · simpa using hheap.arrays.mem_of_read hp

/-- Whatever the flash holds, whatever is pressed and whatever happens to the links, every
run goes through in which keyboards report codes of the tables and a peripheral has been
found whenever a key is handled, the battery and the ignored argument left aside. -/
theorem run_goes_through (abi : EnumAbi) (a : Answers) (displayOk : Bool) (f : Flash)
    {es : List Event} (hes : ∀ e ∈ es, e.Found) :
    ∃ k k', bootFromFlash abi a displayOk f = .ok k ∧ run es k = .ok k' ∧
      InOrder (statusElement displayOk) k' := by
  obtain ⟨keymap, saved, hboot⟩ := bootFromFlash_eq abi a displayOk f
  obtain ⟨k, hk, hsound⟩ := boot_sound a displayOk keymap saved
  have hsafe : Safe es k = true :=
    Runs.along_of_invariant Plain (fun e he _ hj => eventMeets_of_found (hes e he) hj)
      (boot_plain hk)
  have hdecides : Decides Fault.outOfBounds False (Sound _) (Safe es k) (run es k) :=
    run_decides hsound False.elim
  obtain ⟨k', hrun, hsound'⟩ := hdecides.of_guard hsafe
  rw [hboot]
  exact ⟨k, k', hk, hrun, hsound'.inOrder⟩

/-- The connect menu is opened, with one peripheral in it, while the key left of x is held. -/
def connectWhileHeld : List Event :=
  ([twoKeys 29 0, twoKeys 29 41, twoKeys 29 40, twoKeys 29 81, twoKeys 29 40, noKeys,
    twoKeys 40 0] : List Report).map fun new => .report true new fun _ _ =>
        ⟨{ ConnectMenu.quiet with deviceCount := 1 }, fun _ => ⟨3, 3⟩⟩

theorem connectWhileHeld_goes_through :
    ∃ k k', bootFromFlash .int ConnectMenu.quiet true erased = .ok k ∧
      run connectWhileHeld k = .ok k' ∧ InOrder (statusElement true) k' :=
  run_goes_through .int ConnectMenu.quiet true erased
    (by simp [connectWhileHeld, Event.Found, twoKeys, noKeys])

end Found

end Keytar.Firmware
