import Keytar.ConnectMenu
import Keytar.Firmware
import Keytar.Settings

/-!
# The keyboard of the firmware

To the keyboard the rest of the firmware is what changes the keymap between two keys.
Here it is a list of the keymaps that the inputs to the menus leave behind, in their
order, and every run of the firmware that returns is a run of the keyboard over such a
list and over the reports that it has got. What holds of the keyboard whatever the user
interface does holds of the firmware.
-/
namespace Keytar.Firmware
open KeyboardMatrix Keyboard Memory MidiBle Settings Ui

/-- The user interface that has its answers in a list. -/
def listedUi : UserInterface (List Keymap) := fun _ ms m => (ms.tail, ms.headD m)

/-- The device as its keyboard sees it, with the answers of the user interface to come. -/
def keyboard (ms : List Keymap) (k : Device) : KeyboardState (List Keymap) :=
  ⟨ms, k.world.rest.keymap, k.offset, k.arrays, k.prevReport, k.log⟩

/-- The step `f` of the device is the step `g` of its keyboard, for some answers first. -/
def Refines (f : Except Fault Device)
    (g : KeyboardState (List Keymap) → Except Fault (KeyboardState (List Keymap)))
    (k : Device) : Prop :=
  ∀ k', f = .ok k' → ∃ ms, ∀ rest, g (keyboard (ms ++ rest) k) = .ok (keyboard rest k')

theorem Refines.bind {f : Except Fault Device} {f' : Device → Except Fault Device}
    {g g' : KeyboardState (List Keymap) → Except Fault (KeyboardState (List Keymap))}
    {k : Device} (h : Refines f g k) (h' : ∀ j, f = .ok j → Refines (f' j) g' j) :
    Refines (f >>= f') (fun s => g s >>= g') k := by
  intro k' hk'
  obtain ⟨j, hj, hk'⟩ := Runs.bind_ok hk'
  obtain ⟨ms, hms⟩ := h j hj
  obtain ⟨ns, hns⟩ := h' j hj k' hk'
  refine ⟨ms ++ ns, fun rest => ?_⟩
  simp only [List.append_assoc, hms]
  exact hns rest

theorem handleKey_refines (a : KeyAnswers) (key : UInt8) (pressed : Bool) (k : Device) :
    Refines (handleKey a key pressed k) (Keyboard.handleKey listedUi key pressed) k := by
  intro k' hk'
  unfold handleKey at hk'
  cases hnav : if pressed then navOf key else none with
  | some nav =>
      rw [hnav] at hk'
      obtain ⟨w, hw, hk'⟩ := Runs.bind_ok hk'
      obtain rfl := Except.ok.inj hk'
      refine ⟨[w.rest.keymap], fun rest => ?_⟩
      simp only [Keyboard.handleKey, hnav]
      rfl
  | none =>
      rw [hnav] at hk'
      obtain ⟨notes, hnotes, hk'⟩ := Runs.bind_ok hk'
      obtain ⟨raw, hraw, hk'⟩ := Runs.bind_ok hk'
      obtain rfl := Except.ok.inj hk'
      refine ⟨[], fun rest => ?_⟩
      simp only [Keyboard.handleKey, hnav, List.nil_append, keyboard, hnotes, hraw, bind,
        Except.bind]
      rfl

/-- A loop over the slots, which the device counts for its answers. -/
theorem diffLoop_refines (answers : ℕ → KeyAnswers) (pressed : Bool) (report other : Report)
    (k : Device) :
    Refines (diffLoop answers pressed report other k)
      (Keyboard.diffLoop listedUi pressed report other) k := by
  unfold diffLoop Keyboard.diffLoop
  generalize report.toList = keys
  have hloop : ∀ (keys : List UInt8) (n : ℕ) (k : Device),
      Refines ((keys.zipIdx n).foldlM (handleSlot answers pressed other) k)
        (fun s => keys.foldlM (fun s key =>
          if key ≠ 0 ∧ ¬ findKeyInReport other key then
            Keyboard.handleKey listedUi key pressed s
          else pure s) s) k := by
    intro keys
    induction keys with
    | nil =>
        intro n k k' hk'
        obtain rfl := Except.ok.inj hk'
        exact ⟨[], fun rest => rfl⟩
    | cons key keys ih =>
        intro n k
        simp only [List.zipIdx_cons, List.foldlM_cons]
        refine Refines.bind ?_ fun j _ => ih (n + 1) j
        by_cases hkey : key ≠ 0 ∧ ¬ findKeyInReport other key
        · simp only [handleSlot, if_pos hkey]
          exact handleKey_refines (answers n) key pressed k
        · simp only [handleSlot, if_neg hkey]
          intro k' hk'
          obtain rfl := Except.ok.inj hk'
          exact ⟨[], fun rest => rfl⟩
  exact hloop keys 0 k

theorem processKbdReport_refines (answers : Bool → ℕ → KeyAnswers) (new : Report) (k : Device) :
    Refines (processKbdReport answers new k) (Keyboard.processKbdReport listedUi new) k := by
  intro k' hk'
  obtain ⟨j, hj, hk'⟩ := Runs.bind_ok hk'
  obtain ⟨i, hi, hk'⟩ := Runs.bind_ok hk'
  obtain rfl := Except.ok.inj hk'
  obtain ⟨ms, hms⟩ := (diffLoop_refines (answers true) true new k.prevReport k).bind
    (fun j _ => diffLoop_refines (answers false) false k.prevReport new j) i
    (by rw [hj]; exact hi)
  refine ⟨ms, fun rest => ?_⟩
  have hloops : (Keyboard.diffLoop listedUi true new k.prevReport (keyboard (ms ++ rest) k) >>=
      Keyboard.diffLoop listedUi false k.prevReport new) = .ok (keyboard rest i) := hms rest
  change (Keyboard.diffLoop listedUi true new k.prevReport (keyboard (ms ++ rest) k) >>= fun s =>
    Keyboard.diffLoop listedUi false k.prevReport new s >>= fun s =>
      pure { s with prevReport := new }) = _
  rw [← bind_assoc, hloops]
  rfl

/-- The reports that an event brings to the keyboard. -/
def inputs : Event → List Input
  | .report true report _ => [.report report]
  | _ => []

theorem link_keymap {l : Link} {a : Menus.Answers} {w w' : Menus.World}
    (h : Menus.step w (a, l.event) = .ok w') : w'.rest.keymap = w.rest.keymap := by
  have hlink : ∀ nav, l.event ≠ .navigate nav := by cases l <;> simp [Link.event]
  exact (step_link_spares w a hlink w' h).keymap

theorem step_refines (k : Device) (e : Event) :
    Refines (step k e) (Keyboard.run listedUi (inputs e)) k := by
  intro k' hk'
  cases e with
  | mount isKeyboard =>
      refine ⟨[], fun rest => ?_⟩
      cases isKeyboard with
      | false =>
          obtain rfl := Except.ok.inj hk'
          rfl
      | true =>
          obtain ⟨w, hw, hk'⟩ := Runs.bind_ok hk'
          obtain rfl := Except.ok.inj hk'
          have hkeymap := congrArg Menus.App.keymap (uiRender_rest Menus.elements hw)
          simp only [inputs, Keyboard.run, List.foldlM_nil, List.nil_append, keyboard, hkeymap]
          rfl
  | report isKeyboard report answers =>
      cases isKeyboard with
      | false =>
          obtain rfl := Except.ok.inj hk'
          exact ⟨[], fun rest => rfl⟩
      | true =>
          obtain ⟨ms, hms⟩ := processKbdReport_refines answers report k k' hk'
          refine ⟨ms, fun rest => ?_⟩
          simp only [inputs, Keyboard.run, List.foldlM_cons, List.foldlM_nil, Input.step, hms rest]
          rfl
  | strip adcRead a =>
      obtain rfl := Except.ok.inj hk'
      exact ⟨[], fun rest => rfl⟩
  | link l a =>
      obtain ⟨w, hw, hk'⟩ := Runs.bind_ok hk'
      obtain rfl := Except.ok.inj hk'
      refine ⟨[], fun rest => ?_⟩
      simp only [inputs, Keyboard.run, List.foldlM_nil, List.nil_append, keyboard, link_keymap hw]
      rfl

theorem run_refines (es : List Event) :
    ∀ k, Refines (run es k) (Keyboard.run listedUi (es.flatMap inputs)) k := by
  induction es with
  | nil =>
      intro k k' hk'
      obtain rfl := Except.ok.inj hk'
      exact ⟨[], fun rest => rfl⟩
  | cons e es ih =>
      intro k k' hk'
      rw [run, List.foldlM_cons] at hk'
      obtain ⟨ms, hms⟩ := (step_refines k e).bind (fun j _ => ih j) k' hk'
      refine ⟨ms, fun rest => ?_⟩
      have hrun := hms rest
      simp only [Keyboard.run] at hrun ⊢
      rw [List.flatMap_cons, List.foldlM_append]
      exact hrun

section Boot
variable {a : Menus.Answers} {displayOk : Bool} {keymap : Keymap} {saved : BleState}

theorem midiBleInit_spares (w : Menus.World) : Spares w (Menus.midiBleInit a w) := by
  unfold Menus.midiBleInit
  split
  · exact .ok (onBle_spared _ w)
  · exact clientInit_spares a _ w
  · exact .self w

theorem bootUp_keymap {w : Menus.World}
    (h : Menus.bootUp a displayOk keymap saved = .ok w) : w.rest.keymap = keymap := by
  obtain ⟨w₁, -, h⟩ := Runs.bind_ok h
  obtain ⟨w₂, hset, h⟩ := Runs.bind_ok h
  obtain ⟨w₃, hinit, h⟩ := Runs.bind_ok h
  obtain rfl := Except.ok.inj h
  have hkeymap : w₂.rest.keymap = keymap :=
    congrArg Menus.App.keymap (uiRender_rest Menus.elements hset)
  exact (midiBleInit_spares _ w₃ hinit).keymap.trans hkeymap

/-- From the start the keyboard finds the saved keymap set. -/
theorem boot_keyboard {k : Device} (h : boot a displayOk keymap saved = .ok k)
    (ms : List Keymap) (inputs : List Input) :
    Keyboard.run listedUi (.setKeymap keymap :: inputs) (Keyboard.boot ms) =
      Keyboard.run listedUi inputs (keyboard ms k) := by
  obtain ⟨w, hw, h⟩ := Runs.bind_ok h
  obtain rfl := Except.ok.inj h
  rw [keyboard, bootUp_keymap hw]
  rfl

theorem reached_keyboard {es : List Event} {k : Device}
    (h : boot a displayOk keymap saved >>= run es = .ok k) :
    ∃ ms, Keyboard.run listedUi (.setKeymap keymap :: es.flatMap inputs) (Keyboard.boot ms) =
      .ok (keyboard [] k) := by
  obtain ⟨j, hj, hrun⟩ := Runs.bind_ok h
  obtain ⟨ms, hms⟩ := run_refines es j k hrun
  refine ⟨ms, (boot_keyboard hj ms _).trans ?_⟩
  rw [← hms [], List.append_nil]

/-- The states of a run from `k` are, one by one, those of the keyboard over the same reports,
for one list of answers of the user interface. -/
theorem run_simulates (es : List Event) :
    ∀ {k k' : Device}, run es k = .ok k' → ∃ ms, ∀ n, ∃ j rest, run (es.take n) k = .ok j ∧
      Keyboard.run listedUi ((es.take n).flatMap inputs) (keyboard ms k) =
        .ok (keyboard rest j) := by
  induction es with
  | nil => exact fun {k _} _ => ⟨[], fun n => ⟨k, [], by cases n <;> rfl, by cases n <;> rfl⟩⟩
  | cons e es ih =>
      intro k k' hk'
      rw [run, List.foldlM_cons] at hk'
      obtain ⟨i, hi, hk'⟩ := Runs.bind_ok hk'
      obtain ⟨ms, hms⟩ := step_refines k e i hi
      obtain ⟨ns, hns⟩ := ih hk'
      refine ⟨ms ++ ns, fun n => ?_⟩
      cases n with
      | zero => exact ⟨k, ms ++ ns, rfl, rfl⟩
      | succ n =>
          obtain ⟨j, rest, hj, hkeys⟩ := hns n
          refine ⟨j, rest, ?_, ?_⟩
          · rw [List.take_succ_cons, run, List.foldlM_cons, hi]
            exact hj
          · have hfirst := hms ns
            simp only [Keyboard.run] at hfirst hkeys ⊢
            rw [List.take_succ_cons, List.flatMap_cons, List.foldlM_append, hfirst]
            exact hkeys

/-- After each event of a run from the start the keyboard alone, with its user interface
replaced by one list of the keymaps that the inputs leave behind, is where the firmware is. -/
theorem boot_refines {es : List Event} {k : Device}
    (h : boot a displayOk keymap saved >>= run es = .ok k) :
    ∃ ms, ∀ n, ∃ j rest, boot a displayOk keymap saved >>= run (es.take n) = .ok j ∧
      Keyboard.run listedUi (.setKeymap keymap :: (es.take n).flatMap inputs) (Keyboard.boot ms) =
        .ok (keyboard rest j) := by
  obtain ⟨i, hi, hrun⟩ := Runs.bind_ok h
  obtain ⟨ms, hms⟩ := run_simulates es hrun
  refine ⟨ms, fun n => ?_⟩
  obtain ⟨j, rest, hj, hkeys⟩ := hms n
  refine ⟨j, rest, ?_, (boot_keyboard hi ms _).trans hkeys⟩
  rw [hi]
  exact hj

/-- A report of two keys at most. -/
def twoKeys (a b : UInt8) : Report := #v[a, b, 0, 0, 0, 0]

def quietKeys : Bool → ℕ → KeyAnswers := fun _ _ => ⟨ConnectMenu.quiet, fun _ => ⟨3, 3⟩⟩

/-- The key left of x is held while the main menu is opened and the keymap changed. -/
def menuWhileHeld : List Event := [
  .mount true,
  .report true (twoKeys 29 0) quietKeys,
  .report true (twoKeys 29 41) quietKeys,
  .report true (twoKeys 29 81) quietKeys,
  .report true (twoKeys 29 79) quietKeys,
  .link (.clientStatus false) ConnectMenu.quiet,
  .report true noKeys quietKeys]

theorem menuWhileHeld_refines :
    ∃ ms, ∀ n, ∃ j rest,
      Firmware.boot ConnectMenu.quiet true .piano .off >>= run (menuWhileHeld.take n) = .ok j ∧
      Keyboard.run listedUi (.setKeymap .piano :: (menuWhileHeld.take n).flatMap inputs)
        (Keyboard.boot ms) = .ok (keyboard rest j) := by
  have hrun : Firmware.boot ConnectMenu.quiet true .piano .off >>= run menuWhileHeld = .ok _ := rfl
  exact boot_refines hrun

end Boot

end Keytar.Firmware
