import Keytar.Keyboard
import Keytar.Lib.Runs
import Keytar.Menus

/-!
# The firmware as one machine

The main loop polls the USB host and the strip in turn, and the Bluetooth libraries
call back in between. An event is one such call, which runs to its end before the
next one. The keyboard, the user interface, the strip and the links share the current
keymap, the controller values and the wires. What is answered while a key is handled
is chosen for each slot of a report, as one report may start and stop links.

Whether the client has a link is an answer of its library too, so nothing ties it to the
status events. The battery, and what lies at address zero, are outside of the machine: a
redraw of the status screen does not read its level, and a key on that screen, which
loads the argument that `navigate_status` ignores through NULL, finds something there.
-/
namespace Keytar.Firmware
open AnalogStrip KeyboardMatrix Keyboard Memory Midi MidiBle MidiValues Ui Menus
open Runs (afterwards along)

/-- What the menus are answered while one key is handled, and what is taken of each of
its note messages. -/
structure KeyAnswers where
  menus : Answers
  notes : ℕ → Accepts

/-- The state of the firmware, with a record of the calls of `handle_key`. -/
structure Device where
  world : World
  keyboardConnected : Bool
  offset : Int8
  arrays : NoteArrays
  prevReport : Report
  log : List KeyCall

section Keys

/-- The messages of one key, each over the links of the moment. -/
def sendMessages (a : KeyAnswers) (msgs : List Message) (w : World) : World :=
  let l := links a.menus.radio w.rest.ble
  let wires := msgs.zipIdx.foldl (fun wires m => (send l (a.notes m.2) 3 m.1 wires).2)
    w.rest.midi.outer
  { w with rest := { w.rest with midi := { w.rest.midi with outer := wires } } }

def handleKey (a : KeyAnswers) (key : UInt8) (pressed : Bool) (k : Device) :
    Except Fault Device :=
  match if pressed then navOf key else none with
  | some nav => do
      let w ← Menus.step k.world (a.menus, .navigate nav)
      pure { k with
        world := w
        log := k.log ++ [⟨key, pressed, k.world.rest.keymap, k.offset, false, []⟩] }
  | none => do
      let keymap := k.world.rest.keymap
      let change := if pressed then transposed key k.offset else none
      let offset := change.getD k.offset
      let notes ← lookup keymap key (k.arrays keymap)
      let raw ← readNotes notes
      let call : KeyCall := ⟨key, pressed, keymap, offset, change.isSome, raw⟩
      pure { k with
        world := sendMessages a call.messages k.world
        offset := offset
        arrays := Function.update k.arrays keymap notes
        log := k.log ++ [call] }

/-- One round of a loop of `process_kbd_report`, over a slot and its position. -/
def handleSlot (answers : ℕ → KeyAnswers) (pressed : Bool) (other : Report) (k : Device)
    (slot : UInt8 × ℕ) : Except Fault Device :=
  if slot.1 ≠ 0 ∧ ¬ findKeyInReport other slot.1 then handleKey (answers slot.2) slot.1 pressed k
  else pure k

def diffLoop (answers : ℕ → KeyAnswers) (pressed : Bool) (report other : Report) (k : Device) :
    Except Fault Device :=
  report.toList.zipIdx.foldlM (handleSlot answers pressed other) k

def processKbdReport (answers : Bool → ℕ → KeyAnswers) (new : Report) (k : Device) :
    Except Fault Device := do
  let prev := k.prevReport
  let k ← diffLoop (answers true) true new prev k
  let k ← diffLoop (answers false) false prev new k
  pure { k with prevReport := new }

end Keys

section Events

def tuhHidMountCb (isKeyboard : Bool) (k : Device) : Except Fault Device :=
  if isKeyboard then do
    let w ← uiRender elements k.world
    pure { k with keyboardConnected := true, world := w }
  else pure k

def tuhHidReportReceivedCb (isKeyboard : Bool) (answers : Bool → ℕ → KeyAnswers) (report : Report)
    (k : Device) : Except Fault Device :=
  if isKeyboard then processKbdReport answers report k else pure k

/-- `analog_strip_task` over the links of the moment. -/
def stripTask (a : Answers) (adcRead : UInt16) (k : Device) : Device :=
  let send := callback (links a.radio k.world.rest.ble) a.accepts
  let midi := analogStripTask send adcRead k.world.rest.strip k.world.rest.midi
  { k with world := { k.world with rest := { k.world.rest with midi := midi } } }

/-- The callbacks of the Bluetooth libraries. -/
inductive Link where
  | serverConnected (handle : ConHandle)
  | serverDisconnected
  | clientStatus (ready : Bool)

def Link.event : Link → Menus.Event
  | .serverConnected handle => .serverConnected handle
  | .serverDisconnected => .serverDisconnected
  | .clientStatus ready => .clientStatus ready

/-- A device is mounted, or reports; the strip is polled; a link changes. -/
inductive Event where
  | mount (isKeyboard : Bool)
  | report (isKeyboard : Bool) (report : Report) (answers : Bool → ℕ → KeyAnswers)
  | strip (adcRead : UInt16) (a : Answers)
  | link (l : Link) (a : Answers)

def step (k : Device) : Event → Except Fault Device
  | .mount isKeyboard => tuhHidMountCb isKeyboard k
  | .report isKeyboard report answers => tuhHidReportReceivedCb isKeyboard answers report k
  | .strip adcRead a => pure (stripTask a adcRead k)
  | .link l a => do
      let w ← Menus.step k.world (a, l.event)
      pure { k with world := w }

def run (es : List Event) (k : Device) : Except Fault Device := es.foldlM step k

/-- `main` up to its loop, with the saved settings. -/
def boot (a : Answers) (displayOk : Bool) (keymap : Keymap) (saved : BleState) :
    Except Fault Device := do
  let w ← bootUp a displayOk keymap saved
  pure ⟨w, false, 0, bootArrays, noKeys, []⟩

end Events

section Calls

/-- A condition on a call of `handle_key`, in the state that it finds. -/
abbrev Guard := KeyAnswers → UInt8 → Bool → Device → Bool

variable (g : Guard)

def slotMeets (answers : ℕ → KeyAnswers) (pressed : Bool) (other : Report) (k : Device)
    (slot : UInt8 × ℕ) : Bool :=
  if slot.1 ≠ 0 ∧ ¬ findKeyInReport other slot.1 then g (answers slot.2) slot.1 pressed k else true

def diffMeets (answers : ℕ → KeyAnswers) (pressed : Bool) (report other : Report) (k : Device) :
    Bool :=
  along (handleSlot answers pressed other) (slotMeets g answers pressed other)
    report.toList.zipIdx k

def reportMeets (answers : Bool → ℕ → KeyAnswers) (new : Report) (k : Device) : Bool :=
  diffMeets g (answers true) true new k.prevReport k &&
    afterwards (diffLoop (answers true) true new k.prevReport k)
      (diffMeets g (answers false) false k.prevReport new)

def eventMeets (k : Device) : Event → Bool
  | .report true report answers => reportMeets g answers report k
  | _ => true

/-- Every call of `handle_key` in a run meets the condition. -/
def EveryCall (es : List Event) (k : Device) : Bool := along step (eventMeets g) es k

end Calls

section Worlds
variable {g : Guard} {P : World → Prop} {k k' : Device}

/-- What inputs under the condition, links, redraws, messages and readings of the strip keep,
every run keeps whose calls meet the condition. -/
structure KeptUnder (g : Guard) (P : World → Prop) : Prop where
  input : ∀ {a key pressed k nav w'}, g a key pressed k = true →
    (if pressed then navOf key else none) = some nav → P k.world →
    Menus.step k.world (a.menus, .navigate nav) = .ok w' → P w'
  link : ∀ {w w' a} {l : Link}, P w → Menus.step w (a, l.event) = .ok w' → P w'
  render : ∀ {w w'}, P w → uiRender elements w = .ok w' → P w'
  wires : ∀ {w} wires, P w →
    P { w with rest := { w.rest with midi := { w.rest.midi with outer := wires } } }
  strip : ∀ {w} send adcRead, P w → P { w with
    rest := { w.rest with midi := analogStripTask send adcRead w.rest.strip w.rest.midi } }

theorem KeptUnder.handleKey (hP : KeptUnder g P) {a : KeyAnswers} {key : UInt8} {pressed : Bool}
    (hg : g a key pressed k = true) (h : Firmware.handleKey a key pressed k = .ok k')
    (hk : P k.world) : P k'.world := by
  unfold Firmware.handleKey at h
  split at h
  · next nav hnav =>
      obtain ⟨w, hw, h⟩ := Runs.bind_ok h
      obtain rfl := Except.ok.inj h
      exact hP.input hg hnav hk hw
  · obtain ⟨notes, -, h⟩ := Runs.bind_ok h
    obtain ⟨raw, -, h⟩ := Runs.bind_ok h
    obtain rfl := Except.ok.inj h
    exact hP.wires _ hk

theorem KeptUnder.diffLoop (hP : KeptUnder g P) {answers : ℕ → KeyAnswers} {pressed : Bool}
    {report other : Report} (hg : diffMeets g answers pressed report other k = true)
    (h : Firmware.diffLoop answers pressed report other k = .ok k') (hk : P k.world) :
    P k'.world := by
  refine Runs.along_keeps (P := fun k : Device => P k.world) (fun j j' slot hslot hj hpj => ?_)
    hg h hk
  unfold handleSlot at hj
  unfold slotMeets at hslot
  split_ifs at hj with hcall
  · rw [if_pos hcall] at hslot
    exact hP.handleKey hslot hj hpj
  · obtain rfl := Except.ok.inj hj
    exact hpj

theorem KeptUnder.event (hP : KeptUnder g P) {e : Event} (hg : eventMeets g k e = true)
    (h : Firmware.step k e = .ok k') (hk : P k.world) : P k'.world := by
  cases e with
  | mount isKeyboard =>
      cases isKeyboard with
      | false =>
          obtain rfl := Except.ok.inj h
          exact hk
      | true =>
          obtain ⟨w, hw, h⟩ := Runs.bind_ok h
          obtain rfl := Except.ok.inj h
          exact hP.render hk hw
  | report isKeyboard report answers =>
      cases isKeyboard with
      | false =>
          obtain rfl := Except.ok.inj h
          exact hk
      | true =>
          obtain ⟨hpressed, hreleased⟩ := Bool.and_eq_true_iff.mp hg
          obtain ⟨j, hj, h⟩ := Runs.bind_ok h
          obtain ⟨i, hi, h⟩ := Runs.bind_ok h
          obtain rfl := Except.ok.inj h
          have hj' : P j.world := hP.diffLoop hpressed hj hk
          have hi' : P i.world := hP.diffLoop (Runs.of_afterwards hreleased hj) hi hj'
          exact hi'
  | strip adcRead a =>
      obtain rfl := Except.ok.inj h
      exact hP.strip _ adcRead hk
  | link l a =>
      obtain ⟨w, hw, h⟩ := Runs.bind_ok h
      obtain rfl := Except.ok.inj h
      exact hP.link hk hw

theorem KeptUnder.run (hP : KeptUnder g P) {es : List Event} (hg : EveryCall g es k = true)
    (h : Firmware.run es k = .ok k') (hk : P k.world) : P k'.world :=
  Runs.along_keeps (P := fun k : Device => P k.world) (fun _ _ _ hg hj hpj => hP.event hg hj hpj)
    hg h hk

/-- No condition. -/
def always : Guard := fun _ _ _ _ => true

theorem eventMeets_always (k : Device) (e : Event) : eventMeets always k e = true := by
  have hdiff (answers : ℕ → KeyAnswers) (pressed : Bool) (report other : Report) (k : Device) :
      diffMeets always answers pressed report other k = true :=
    Runs.along_true (fun _ _ => ite_self true) _ k
  cases e with
  | report isKeyboard report answers =>
      cases isKeyboard with
      | false => rfl
      | true =>
          rw [eventMeets, reportMeets, hdiff, Bool.true_and]
          cases Firmware.diffLoop (answers true) true report k.prevReport k with
          | error e => rfl
          | ok j => exact hdiff ..
  | _ => rfl

/-- What is kept in every run. -/
abbrev Kept (P : World → Prop) : Prop := KeptUnder always P

theorem Kept.event (hP : Kept P) {e : Event} (h : Firmware.step k e = .ok k') (hk : P k.world) :
    P k'.world :=
  KeptUnder.event hP (eventMeets_always k e) h hk

theorem Kept.run (hP : Kept P) {es : List Event} (h : Firmware.run es k = .ok k') (hk : P k.world) :
    P k'.world :=
  KeptUnder.run hP (Runs.along_true eventMeets_always es k) h hk

end Worlds

end Keytar.Firmware
