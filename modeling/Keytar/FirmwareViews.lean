import Keytar.FirmwareScreen
import Keytar.FirmwareWires
import Keytar.MenuViews

/-!
# What a run owes to the reports

Between the reports of the keyboard the strip is read, devices are mounted and the server's
link comes and goes. To the keyboard, the menus and the Bluetooth roles a run looks as if
none of that had happened. The client's link is another matter: the menus ask the client
library for it, so its changes stay in the run, next to what the library answers.
-/
namespace Keytar.Firmware
open AnalogStrip KeyboardMatrix Keyboard Memory Midi MidiBle MenuViews Menus Sounding Traffic Ui
  Views

/-- The device in front of the veil. -/
def view (k : Device) : Device := { k with world := veil k.world, keyboardConnected := false }

theorem view_view (k : Device) : view (view k) = view k := by
  simp only [view, veil_veil]

theorem view_congr {w w' : World} (h : veil w' = veil w) {connected connected' : Bool}
    {offset : Int8} {arrays : NoteArrays} {prevReport : Report} {log : List KeyCall} :
    view ⟨w', connected', offset, arrays, prevReport, log⟩ =
      view ⟨w, connected, offset, arrays, prevReport, log⟩ := by
  simp only [view, h]

section Keys

theorem handleKey_respects (a : KeyAnswers) (key : UInt8) (pressed : Bool) :
    Respects view (handleKey a key pressed) := by
  intro k
  unfold handleKey
  cases hnav : if pressed then navOf key else none with
  | some nav =>
      refine bind_view (step_navigate_blind a.menus nav k.world) fun w w' hw => ?_
      exact congrArg Except.ok (view_congr hw)
  | none =>
      have hkeymap : (view k).world.rest.keymap = k.world.rest.keymap := rfl
      have hoffset : (view k).offset = k.offset := rfl
      have harrays : (view k).arrays = k.arrays := rfl
      simp only [hkeymap, hoffset, harrays]
      cases lookup k.world.rest.keymap key (k.arrays k.world.rest.keymap) with
      | error e => rfl
      | ok notes =>
          simp only [bind, Except.bind]
          cases readNotes notes with
          | error e => rfl
          | ok raw =>
              have hsent : ∀ msgs, veil (sendMessages a msgs (veil k.world)) =
                  veil (sendMessages a msgs k.world) := fun msgs => veil_rest k.world rfl
              exact congrArg Except.ok (view_congr (hsent _))

theorem diffLoop_respects (answers : ℕ → KeyAnswers) (pressed : Bool) (report other : Report) :
    Respects view (diffLoop answers pressed report other) := by
  refine .foldlM view_view fun slot _ => ?_
  unfold handleSlot
  exact .ite (fun _ => Iff.rfl) (handleKey_respects (answers slot.2) slot.1 pressed) (.ok view_view)

theorem processKbdReport_respects (answers : Bool → ℕ → KeyAnswers) (new : Report) :
    Respects view (processKbdReport answers new) := by
  intro k
  have hpressed := diffLoop_respects (answers true) true new k.prevReport
  have hreleased := diffLoop_respects (answers false) false k.prevReport new
  refine hpressed.bind (hreleased.bind (.ok fun j => ?_)) k
  simp only [view, veil_veil]

end Keys

section Events

/-- The reports that a keyboard sends, and the changes of the client's link. -/
def Event.seen : Event → Bool
  | .report isKeyboard _ _ => isKeyboard
  | .link (.clientStatus _) _ => true
  | _ => false

theorem clientStatus_respects (a : Answers) (ready : Bool) :
    Respects view fun k => step k (.link (.clientStatus ready) a) := by
  intro k
  have hstatus : Blind (statusCallback a ready) := by
    cases ready with
    | false => exact veil_exposes.render
    | true => exact veil_exposes.render.after fun w => veil_rest w rfl
  refine bind_view (hstatus k.world) fun w w' hw => ?_
  exact congrArg Except.ok (view_congr hw)

theorem step_seen {e : Event} (he : e.seen = true) : Respects view fun k => step k e := by
  cases e with
  | report isKeyboard report answers =>
      obtain rfl : isKeyboard = true := he
      exact processKbdReport_respects answers report
  | link l a =>
      cases l with
      | clientStatus ready => exact clientStatus_respects a ready
      | _ => cases he
  | _ => cases he

theorem step_unseen {d : Option Element} {e : Event} {k : Device} (he : e.seen = false)
    (hk : Current d k.world) : ∃ k', step k e = .ok k' ∧ view k' = view k := by
  obtain ⟨fs, hgood⟩ := hk.menus
  cases e with
  | mount isKeyboard =>
      cases isKeyboard with
      | false => exact ⟨k, rfl, rfl⟩
      | true =>
          obtain ⟨w, hw, -⟩ := hgood.render
          refine ⟨{ k with keyboardConnected := true, world := w }, ?_, ?_⟩
          · simp only [step, tuhHidMountCb, hw]
            rfl
          · exact view_congr (render_veil hw)
  | report isKeyboard report answers =>
      obtain rfl : isKeyboard = false := he
      exact ⟨k, rfl, rfl⟩
  | strip adcRead a => exact ⟨stripTask a adcRead k, rfl, rfl⟩
  | link l a =>
      -- a change of the client's link is seen, so this is one of the server's
      have hlink : ∀ nav, l.event ≠ .navigate nav := by cases l <;> simp [Link.event]
      have hstrays : Strays k.world l.event = false := by cases l <;> rfl
      obtain ⟨w, -, hw, -⟩ := step_leads hgood (a, l.event) hstrays
      refine ⟨{ k with world := w }, ?_, ?_⟩
      · simp only [step, hw]
        rfl
      · exact view_congr (step_link_veil hlink hw)

end Events

section Runs
variable {a : Answers} {displayOk : Bool} {keymap : Keymap} {saved : BleState}

/-- The other events of a run change nothing in front of the veil. -/
theorem run_view {d : Option Element} {k : Device} (hk : Current d k.world) (es : List Event) :
    (run es k).map view = (run (es.filter Event.seen) k).map view :=
  foldlM_filter (fun k => Current d k.world) view_view (fun _ he => step_seen he)
    (fun _ _ _ hk h => (current_kept d).event h hk) (fun _ _ he hk => step_unseen he hk) hk

/-- Whatever else happens, a run goes through, or ends in a fault, where the run of its
reports and of the changes of the client's link does, with the same answers to these, and
what is in front of the veil is the same after both. -/
theorem run_reports (a : Answers) (displayOk : Bool) (keymap : Keymap) (saved : BleState)
    (es : List Event) :
    (boot a displayOk keymap saved >>= run es).map view =
      (boot a displayOk keymap saved >>= run (es.filter Event.seen)).map view := by
  cases hboot : boot a displayOk keymap saved with
  | error e => rfl
  | ok k => exact run_view (boot_current hboot) es

/-- Two runs over the same reports and changes of the client's link, with the same answers
to these, look the same, and the same notes are heard. -/
theorem heard_alike {es es' : List Event} {k k' : Device}
    (h : boot a displayOk keymap saved >>= run es = .ok k)
    (h' : boot a displayOk keymap saved >>= run es' = .ok k')
    (hreports : es'.filter Event.seen = es.filter Event.seen) :
    view k' = view k ∧
      keyMessages (k'.world.rest.midi.outer .uart) = keyMessages (k.world.rest.midi.outer .uart) ∧
      (k'.world.rest.midi.outer .uart).foldl hear ∅ =
        (k.world.rest.midi.outer .uart).foldl hear ∅ := by
  obtain ⟨j, hj, hrun⟩ := Runs.bind_ok h
  obtain ⟨j', hj', hrun'⟩ := Runs.bind_ok h'
  obtain rfl := Except.ok.inj (hj.symm.trans hj')
  have hsame := (run_view (boot_current hj) es').trans
    ((congrArg (fun es => (run es j).map view) hreports).trans (run_view (boot_current hj) es).symm)
  rw [hrun, hrun'] at hsame
  have hview : view k' = view k := Except.ok.inj hsame
  have hlog : (view k').log = (view k).log := congrArg Device.log hview
  change k'.log = k.log at hlog
  have htold := reached_told h
  have htold' := reached_told h'
  refine ⟨hview, ?_, ?_⟩
  · rw [htold.keys, htold'.keys, hlog]
  · rw [htold.heard, htold'.heard, hlog]

/-- The server's peer that comes first has all the values sent to it, and the strip is touched. -/
theorem menuWhileHeld_alike :
    ∃ k k', boot ConnectMenu.quiet true .piano savedServer >>= run menuWhileHeld = .ok k ∧
      boot ConnectMenu.quiet true .piano savedServer >>=
        run (.link (.serverConnected 0x40) ConnectMenu.quiet :: .strip 1900 ConnectMenu.quiet ::
          menuWhileHeld) = .ok k' ∧
      (k'.world.rest.midi.outer .uart).length = (k.world.rest.midi.outer .uart).length + 7 ∧
      view k' = view k ∧
      keyMessages (k'.world.rest.midi.outer .uart) = keyMessages (k.world.rest.midi.outer .uart) ∧
      (k'.world.rest.midi.outer .uart).foldl hear ∅ =
        (k.world.rest.midi.outer .uart).foldl hear ∅ := by
  have hrun : boot ConnectMenu.quiet true .piano savedServer >>= run menuWhileHeld = .ok _ := rfl
  have hrun' : boot ConnectMenu.quiet true .piano savedServer >>=
      run (.link (.serverConnected 0x40) ConnectMenu.quiet :: .strip 1900 ConnectMenu.quiet ::
        menuWhileHeld) = .ok _ := rfl
  exact ⟨_, _, hrun, hrun', by decide +kernel, heard_alike hrun hrun' rfl⟩

end Runs

end Keytar.Firmware
