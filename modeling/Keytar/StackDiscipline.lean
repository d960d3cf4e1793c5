import Keytar.MenuSteps

/-!
# Runs of the menus

What a whole run from the start does with the stack and its blocks. The Bluetooth
connect menu is empty when no peripheral has been found; LEFT, RIGHT and ENTER
then read an item pointer from behind an array without elements. Every other
input stays inside the arrays, and every block lives as long as its layer.
-/
namespace Keytar.StackDiscipline
open KeyboardMatrix Memory MidiBle Ui Menus

/-- No input of a run goes to an item of a menu without items. -/
def Guarded (es : List (Answers × Event)) (w : World) : Bool :=
  Runs.along step (fun w e => !Strays w e.2) es w

/-- ENTER is not sent to a menu without items. -/
def EnterGuarded (es : List (Answers × Event)) (w : World) : Bool :=
  Runs.along step (fun w e => match e.2 with | .navigate .enter => !topMenuEmpty w | _ => true) es w

/-- A run whose strays are caught goes through, or ends in a read out of bounds. -/
theorem run_inBounds {d : Option Element} (es : List (Answers × Event))
    (hes : ∀ e ∈ es, e.1.stray = none) {w : World} (h : ∃ fs, Good d False fs w) :
    Runs.Decides Fault.outOfBounds True (fun w => ∃ fs, Good d False fs w) (Guarded es w)
      (run es w) := by
  refine Runs.decides_along (fun e he v hv => ?_) h
  obtain ⟨fs, hgood⟩ := hv
  cases hs : Strays v e.2 with
  | true => exact .fault fun _ => step_outOfBounds hgood e hs (hes e he)
  | false =>
      obtain ⟨v', gs, hv', hgood', -⟩ := step_leads hgood e hs
      rw [hv']
      exact .ok ⟨gs, hgood'⟩

/-- The same events, where a read of an element that was never written ends the run. -/
def checked (es : List (Answers × Event)) : List (Answers × Event) :=
  es.map fun e => ({ e.1 with stray := none }, e.2)

/-- A checked run goes through exactly if no input goes to an item of a menu
without items. Nothing else in the menus can fault, and no add goes over a
capacity. -/
theorem run_inBounds_iff (a : Answers) (displayOk : Bool) (keymap : Keymap) (saved : BleState)
    (es : List (Answers × Event)) :
    ∃ w, bootUp a displayOk keymap saved = .ok w ∧
      ((∃ w', run (checked es) w = .ok w') ↔ Guarded (checked es) w = true) ∧
      ∀ fault, run (checked es) w = .error fault → fault = .outOfBounds := by
  obtain ⟨w, hw, hgood⟩ := bootUp_good False a displayOk keymap saved
  have hchecked : ∀ e ∈ checked es, e.1.stray = none := List.forall_mem_map.mpr fun _ _ => rfl
  refine ⟨w, hw, ?_⟩
  rcases run_inBounds (checked es) hchecked ⟨[], hgood⟩ with
    ⟨hguard, w', hrun, -⟩ | ⟨hguard, hfault⟩
  · exact ⟨⟨fun _ => hguard, fun _ => ⟨w', hrun⟩⟩, fun fault hfault => by simp [hrun] at hfault⟩
  · have hrun := hfault trivial
    refine ⟨⟨fun ⟨w', hw'⟩ => by simp [hrun] at hw', fun hg => by simp [hguard] at hg⟩, ?_⟩
    intro fault hfault
    rw [hrun] at hfault
    exact (Except.error.inj hfault).symm

/-- A radio that works, no peripherals, and `stray` behind the arrays. -/
def quiet (stray : Option Ptr) : Answers where
  radio := ⟨false, false, (0, .replicate 6 0)⟩
  deviceCount := 0
  deviceName := fun _ => ""
  accepts := fun _ => ⟨3, 3⟩
  nullElement := .uiStatus
  stray := stray

/-- The main menu, the Bluetooth menu, a client that starts, and its connect
menu: these inputs end on a menu without items. -/
def toEmptyMenu : List (Answers × Event) :=
  [.close, .enter, .down, .enter, .enter].map fun nav => (quiet none, .navigate nav)

/-- ENTER in the empty menu. -/
theorem emptyMenu_outOfBounds :
    ¬ ∀ (a : Answers) (displayOk : Bool) (keymap : Keymap) (saved : BleState)
      (es : List (Answers × Event)) (w : World), bootUp a displayOk keymap saved = .ok w →
        ∀ fault, run (checked es) w = .error fault → fault ≠ .outOfBounds := by
  intro h
  exact h (quiet none) true .piano .off (toEmptyMenu ++ [(quiet none, .navigate .enter)])
    _ rfl _ rfl rfl

/-- In a run without stray inputs the stack has at most three layers and counts
them, and the live blocks are those of its layers. One more such event keeps some
of the lower layers, each with the blocks that it had, under layers of new blocks,
so a block is freed with its layer and no earlier. RETURN removes the top layer
and CLOSE all of them. -/
theorem run_disciplined (a : Answers) (displayOk : Bool) (keymap : Keymap) (saved : BleState)
    (es : List (Answers × Event)) :
    ∃ w₀, bootUp a displayOk keymap saved = .ok w₀ ∧
      (Guarded es w₀ = true → ∃ w fs, run es w₀ = .ok w ∧ Rep (statusElement displayOk) fs w ∧
        w.stackSize.toNat = fs.length ∧ fs.length ≤ 3 ∧
        ∀ e, Strays w e.2 = false → ∃ w' fs', step w e = .ok w' ∧
          Rep (statusElement displayOk) fs' w' ∧ Since (allocated w) fs w' fs' ∧
          ∀ f gs, fs = f :: gs → (e.2 = .navigate .return → fs' = gs) ∧
            (e.2 = .navigate .close → fs' = [])) := by
  obtain ⟨w₀, hw₀, hgood₀⟩ := bootUp_good True a displayOk keymap saved
  refine ⟨w₀, hw₀, fun hguard => ?_⟩
  obtain ⟨w, fs, hrun, hgood⟩ := run_good es hgood₀ hguard
  have hle := (hgood.bounded trivial).length_le
  refine ⟨w, fs, hrun, hgood.rep, ?_, hle, ?_⟩
  · rw [hgood.rep.stacked.size, List.length_map, UInt8.toNat_ofNat']
    omega
  rintro ⟨b, e⟩ hs
  by_cases hreturn : e = .navigate .return ∧ fs ≠ []
  · obtain ⟨rfl, hne⟩ := hreturn
    obtain ⟨f, gs, rfl⟩ := List.exists_cons_of_ne_nil hne
    obtain ⟨w', hw', hgood', hmarks⟩ := step_return hgood b
    refine ⟨w', gs, hw', hgood'.rep, .drop (f :: gs) hmarks 1,
      fun g hs h => ⟨fun _ => ?_, by simp⟩⟩
    exact (List.cons.inj h).2
  by_cases hclose : e = .navigate .close ∧ fs ≠ []
  · obtain ⟨rfl, hne⟩ := hclose
    obtain ⟨f, gs, rfl⟩ := List.exists_cons_of_ne_nil hne
    obtain ⟨w', hw', hgood', hmarks⟩ := step_close hgood b
    exact ⟨w', [], hw', hgood'.rep, .clear hmarks, fun g hs h => ⟨by simp, fun _ => rfl⟩⟩
  obtain ⟨w', fs', hw', hgood', hevolves⟩ := step_leads hgood (b, e) hs
  refine ⟨w', fs', hw', hgood'.rep, hevolves, ?_⟩
  rintro f gs rfl
  exact ⟨fun he => (hreturn ⟨he, by simp⟩).elim, fun he => (hclose ⟨he, by simp⟩).elim⟩

theorem toEmptyMenu_disciplined :
    ∃ w₀, bootUp (quiet none) true .piano .off = .ok w₀ ∧
      ∃ w fs, run toEmptyMenu w₀ = .ok w ∧ Rep (statusElement true) fs w ∧
        w.stackSize.toNat = fs.length ∧ fs.length ≤ 3 := by
  obtain ⟨w₀, hw₀, h⟩ := run_disciplined (quiet none) true .piano .off toEmptyMenu
  obtain rfl := Except.ok.inj
    ((rfl : bootUp (quiet none) true .piano .off = .ok _).symm.trans hw₀)
  obtain ⟨w, fs, hrun, hrep, hsize, hle, -⟩ := h rfl
  exact ⟨_, hw₀, w, fs, hrun, hrep, hsize, hle⟩

/-- LEFT in the empty menu, with the address of a freed item behind its array. -/
theorem emptyMenu_useAfterFree :
    ¬ ∀ (a : Answers) (displayOk : Bool) (keymap : Keymap) (saved : BleState)
      (es : List (Answers × Event)) (w : World), bootUp a displayOk keymap saved = .ok w →
        EnterGuarded es w = true → run es w ≠ .error .useAfterFree := by
  intro h
  exact h (quiet none) true .piano .off (toEmptyMenu ++ [(quiet (some 0), .navigate .left)])
    _ rfl rfl rfl

end Keytar.StackDiscipline
