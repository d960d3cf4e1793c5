import Keytar.MenuSteps

/-!
# The life cycle of the Bluetooth roles

`start_server` and `start_client` tear down the other role and never look at their
own. What keeps them from initialising the radio twice is that no open menu offers
a role that is up: a role changes only in actions that clear the stack.
-/
namespace Keytar.BleRoles
open KeyboardMatrix MidiBle Menus

/-- A run from the start goes through if no input of it goes to a menu without items. In
every state that a run reaches, stray inputs or not, at most one role is up, the radio is
up exactly if one is, each call of cyw43_arch has found the radio as it must be, and
without a server there is no connection handle. -/
theorem run_sound (a : Answers) (displayOk : Bool) (keymap : Keymap) (saved : BleState)
    (es : List (Answers × Event)) :
    ∃ w₀, bootUp a displayOk keymap saved = .ok w₀ ∧
      (Runs.along step (fun w e => !Strays w e.2) es w₀ = true → ∃ w, run es w₀ = .ok w) ∧
      ∀ w, run es w₀ = .ok w →
        ¬ (w.rest.ble.serverInitialized = true ∧ w.rest.ble.clientInitialized = true) ∧
        radioUp w.rest.ble.calls =
          (w.rest.ble.serverInitialized || w.rest.ble.clientInitialized) ∧
        Disciplined w.rest.ble.calls ∧
        (w.rest.ble.serverInitialized = false → w.rest.ble.conHandle = none) := by
  obtain ⟨w₀, hw₀, hgood₀⟩ := bootUp_good False a displayOk keymap saved
  refine ⟨w₀, hw₀, fun hguard => ?_, fun w hrun => ?_⟩
  · obtain ⟨w, -, hrun, -⟩ := run_good es hgood₀ hguard
    exact ⟨w, hrun⟩
  · obtain ⟨fs, hgood⟩ := run_kept es hgood₀ hrun
    exact ⟨hgood.ble.oneRole, hgood.ble.radio, hgood.ble.disciplined, hgood.ble.handle⟩

/-- What the outside answers while the radio works, or does not. -/
def answers (cyw43Fails : Bool) : Answers where
  radio := ⟨cyw43Fails, false, (0, .replicate 6 0)⟩
  deviceCount := 2
  deviceName := fun _ => "device"
  accepts := fun _ => ⟨3, 3⟩
  nullElement := .uiStatus
  stray := none

/-- A saved server with a link; the client is started instead, and then the
switch back to the server fails. -/
def switching : List (Answers × Event) :=
  [(answers false, .serverConnected 64)] ++
    [.close, .enter, .enter, .down, .down].map (fun nav => (answers false, .navigate nav)) ++
    [(answers true, .navigate .enter)]

theorem switching_sound :
    ∃ w₀ w, bootUp (answers false) true .piano { BleState.off with mode := .server } = .ok w₀ ∧
      run switching w₀ = .ok w ∧
      radioUp w.rest.ble.calls = (w.rest.ble.serverInitialized || w.rest.ble.clientInitialized) ∧
      w.rest.ble.calls = [.cyw43ArchInit false, .cyw43ArchDeinit, .cyw43ArchInit false,
        .scanBegin, .scanEnd, .requestDisconnect, .cyw43ArchDeinit, .cyw43ArchInit true] := by
  obtain ⟨w₀, hw₀, hreturns, hsound⟩ := run_sound (answers false) true .piano
    { BleState.off with mode := .server } switching
  obtain rfl := Except.ok.inj ((rfl : bootUp (answers false) true .piano
    { BleState.off with mode := .server } = .ok _).symm.trans hw₀)
  obtain ⟨w, hrun⟩ := hreturns rfl
  obtain rfl := Except.ok.inj ((rfl : run switching _ = .ok _).symm.trans hrun)
  exact ⟨_, _, hw₀, hrun, (hsound _ hrun).2.1, by decide⟩

end Keytar.BleRoles
