import Keytar.AnalogStrip
import Keytar.KeyboardMatrix
import Keytar.MidiBle
import Keytar.Ui.Menu
import Keytar.Ui.Select

/-!
# The menus of the firmware

The function pointers of the items are data here: an item is one of the kinds
that the menus are built from, and the action of a default item is named. An
item is addressed by its pointer, so an action that clears the stack frees the
very item that it was started from.

The status screen is drawn without its icons. So a redraw does not read the level of
the battery, as `render_status` does by `battery_get_level`; where that read is in
bounds is a matter of `Battery`.
-/
namespace Keytar.Menus
open AnalogStrip KeyboardMatrix Memory Midi MidiBle MidiValues Ui

/-- The functions that default items have as their `action`. -/
inductive Action where
  | pushMenuBluetooth
  | pushMenuEnvelope
  | pushMenuBluetoothConnect
  | disconnect
  | midiBleSetStateAsInitial
  | startServer
  | stop
  | startClient
  deriving DecidableEq, Repr

inductive Item where
  | default (label : String) (action : Action)
  | keymap (select : Select Keymap)
  | stripControl (select : Select MidiValueRef)
  | checkbox (label : String) (value : Bool)
  | midiValue (mv : MidiValueRef)
  | device (label : String) (index : UInt8)

/-- What is drawn at the right edge of an item: a text between the arrows that
the value can still move to, or a check mark. -/
inductive Setting where
  | none
  | text (text : String) (left right : Bool)
  | check (value : Bool)

structure Drawn where
  label : String
  setting : Setting

inductive Screen where
  | dark
  | status
  | menu (lines : List (Line Drawn))

/-- The state behind the user interface. -/
structure App where
  heap : MenuHeap Item
  ble : Ble
  keymap : Keymap
  strip : Strip
  midi : Store Wires

abbrev World := UiStack Element Screen App

/-- What the hardware and the libraries answer during one event, and what the two
loads outside of any object yield. -/
structure Answers where
  radio : Radio
  deviceCount : UInt8
  deviceName : UInt8 → String
  accepts : MidiValueRef → Accepts
  nullElement : Element
  stray : Option Ptr

section Drawing

def drawSelect {α : Type} (getOptionLabel : α → String) (self : Select α) (focus : Bool) :
    Except Fault Drawn := do
  let option ← readAt self.options self.index
  pure ⟨self.label, .text (getOptionLabel option) (focus && self.index > 0)
    (focus && self.index < self.max)⟩

def drawItem (app : App) (item : Item) (focus : Bool) : Except Fault Drawn :=
  match item with
  | .default label _ => pure ⟨label, .none⟩
  | .keymap select => drawSelect Keymap.label select focus
  | .stripControl select => drawSelect (fun r => (app.midi.values r).label) select focus
  | .checkbox label value => pure ⟨label, .check value⟩
  | .midiValue r =>
      let mv := app.midi.values r
      pure ⟨mv.label, .text (toString mv.value.toNat) (focus && mv.value > mv.minValue)
        (focus && mv.value < mv.maxValue)⟩
  | .device label _ => pure ⟨label, .none⟩

/-- The callbacks of `ui_status` and of the menus; the former's picture is left blank. -/
def elements : Elements Element Screen App where
  free := fun e app =>
    match e with
    | .uiStatus => pure app
    | .menu p => do
        let heap ← freeMenu p app.heap
        pure { app with heap := heap }
  render := fun e app =>
    match e with
    | .uiStatus => pure .status
    | .menu p => (renderMenu (drawItem app) 0 true p app.heap).map .menu
  hasNavigate := fun e app =>
    match e with
    | .uiStatus => pure true
    | .menu p => do
        let _ ← app.heap.menus.read p
        pure true

end Drawing

section Pushing

def pushMenu (itemCapacity : UInt8) (w : World) : Ptr × World :=
  let menu := newMenu itemCapacity w.rest.heap
  (menu.1, uiPush (.menu menu.1) { w with rest := { w.rest with heap := menu.2 } })

/-- A new menu and one `menu_add` for each of its items. -/
def pushMenuWith (itemCapacity : UInt8) (items : List Item) (w : World) : Except Fault World := do
  let pushed := pushMenu itemCapacity w
  let heap ← items.foldlM (fun heap item => addItem pushed.1 item heap) pushed.2.rest.heap
  pure { pushed.2 with rest := { pushed.2.rest with heap := heap } }

/-- The entries of the Bluetooth menu, by the role that is up when it is built. -/
def bluetoothItems (a : Answers) (b : Ble) : List Item :=
  if b.clientInitialized then
    [if a.radio.clientConnected then .default "Disconnect" .disconnect
      else .default "Connect" .pushMenuBluetoothConnect,
     .default "Remember connection" .midiBleSetStateAsInitial,
     .default "Switch to server" .startServer,
     .default "Disable" .stop]
  else if b.serverInitialized then
    [.default "Switch to client" .startClient, .default "Disable" .stop]
  else
    [.default "Start server" .startServer, .default "Start client" .startClient]

def pushMenuBluetooth (a : Answers) (w : World) : Except Fault World :=
  pushMenuWith 4 (bluetoothItems a w.rest.ble) w

/-- The item of a peripheral holds its index from 0, the names count from 1. -/
def deviceItem (a : Answers) (i : ℕ) : Item :=
  .device (a.deviceName (UInt8.ofNat i + 1)) (UInt8.ofNat i)

def pushMenuBluetoothConnect (a : Answers) (w : World) : Except Fault World :=
  let deviceCount := min a.deviceCount 16
  pushMenuWith deviceCount ((List.range deviceCount.toNat).map (deviceItem a)) w

def pushMenuEnvelope (w : World) : Except Fault World :=
  pushMenuWith 4 [.midiValue .mvAttack, .midiValue .mvDecay, .midiValue .mvSustain,
    .midiValue .mvRelease] w

/-- The loop of `push_menu_main` over `midi_values`, which keeps the last match. -/
def analogStripIndex (strip : Strip) : ℕ :=
  midiValues.zipIdx.foldl (fun index entry =>
    if strip.midiValue = some entry.1 then entry.2 else index) 0

def pushMenuMain (w : World) : Except Fault World := do
  let keymap ← Select.new "Keymap" keymaps (getKeymapIndex w.rest.keymap)
  let strip ← Select.new "Strip control" midiValues (analogStripIndex w.rest.strip)
  pushMenuWith 6 [.default "Bluetooth" .pushMenuBluetooth, .keymap keymap,
    .default "Envelope" .pushMenuEnvelope, .stripControl strip,
    .checkbox "Reset on release" w.rest.strip.resetOnRelease] w

end Pushing

section Actions

def onBle (f : Ble → Ble) (w : World) : World :=
  { w with rest := { w.rest with ble := f w.rest.ble } }

def midiBleClientInitWithAddr (a : Answers) (addr : Option (ℤ × Addr)) (w : World) :
    Except Fault World :=
  let done := (clientInitWithAddr a.radio addr w.rest.ble).1
  let w := onBle (fun b => (clientInitWithAddr a.radio addr b).2) w
  if done then uiRender elements w else pure w

def midiBleClientInit (a : Answers) (w : World) : Except Fault World :=
  midiBleClientInitWithAddr a none w

def midiBleClientDeinit (w : World) : Except Fault World :=
  uiRender elements (onBle clientDeinit w)

def disconnect (w : World) : Except Fault World :=
  uiClear elements (onBle midiBleClientDisconnect w)

def startServer (a : Answers) (w : World) : Except Fault World := do
  let w ← if w.rest.ble.clientInitialized then midiBleClientDeinit w else pure w
  uiClear elements (onBle (midiBleServerInit a.radio) w)

def stop (w : World) : Except Fault World := do
  let w := if w.rest.ble.serverInitialized then onBle midiBleDeinit w else w
  let w ← if w.rest.ble.clientInitialized then midiBleClientDeinit w else pure w
  uiClear elements w

def startClient (a : Answers) (w : World) : Except Fault World := do
  let w := if w.rest.ble.serverInitialized then onBle midiBleDeinit w else w
  let w ← midiBleClientInit a w
  let w ← uiClear elements w
  pushMenuBluetooth a w

def runAction (a : Answers) (action : Action) (w : World) : Except Fault World :=
  match action with
  | .pushMenuBluetooth => pushMenuBluetooth a w
  | .pushMenuEnvelope => pushMenuEnvelope w
  | .pushMenuBluetoothConnect => pushMenuBluetoothConnect a w
  | .disconnect => disconnect w
  | .midiBleSetStateAsInitial => pure (onBle (midiBleSetStateAsInitial a.radio) w)
  | .startServer => startServer a w
  | .stop => stop w
  | .startClient => startClient a w

def setKeymap (keymap : Keymap) (w : World) : Except Fault World :=
  uiRender elements { w with rest := { w.rest with keymap := keymap } }

/-- `midi_value_set` over the links of the moment. -/
def setMidiValue (a : Answers) (r : MidiValueRef) (value : UInt16) (setSetting : Bool)
    (w : World) : World :=
  let send := callback (links a.radio w.rest.ble) a.accepts
  { w with rest := { w.rest with midi := midiValueSet send r value setSetting w.rest.midi } }

def sendAllMidiValues (a : Answers) (w : World) : World :=
  let send := callback (links a.radio w.rest.ble) a.accepts
  { w with rest := { w.rest with midi := midiValueSendAll send w.rest.midi } }

def assignStrip (a : Answers) (mv : Option MidiValueRef) (reset : Bool) (w : World) : World :=
  let send := callback (links a.radio w.rest.ble) a.accepts
  let assigned := analogStripAssign send mv reset w.rest.strip w.rest.midi
  { w with rest := { w.rest with strip := assigned.1, midi := assigned.2 } }

def setAnalogStripMv (a : Answers) (mv : MidiValueRef) (w : World) : World :=
  assignStrip a (some mv) w.rest.strip.resetOnRelease w

def setAnalogStripResetOnRelease (a : Answers) (reset : Bool) (w : World) : World :=
  assignStrip a w.rest.strip.midiValue reset w

end Actions

section Navigation

def writeItem (p : Ptr) (item : Item) (w : World) : Except Fault World := do
  let items ← w.rest.heap.items.write p item
  pure { w with rest := { w.rest with heap := { w.rest.heap with items := items } } }

def writeMenu (p : Ptr) (menu : Menu) (w : World) : Except Fault World := do
  let menus ← w.rest.heap.menus.write p menu
  pure { w with rest := { w.rest with heap := { w.rest.heap with menus := menus } } }

def navigateSelect {α : Type} (p : Ptr) (item : Select α → Item)
    (onChange : α → World → Except Fault World) (self : Select α) (nav : Nav) (w : World) :
    Except Fault World := do
  let after ← self.navigate nav
  match after.2 with
  | none => pure w
  | some option => do
      let w ← writeItem p (item after.1) w
      let w ← onChange option w
      uiRender elements w

def navigateCheckbox (a : Answers) (p : Ptr) (label : String) (value : Bool) (nav : Nav)
    (w : World) : Except Fault World :=
  if nav = .enter then do
    let w ← writeItem p (.checkbox label (!value)) w
    pure (setAnalogStripResetOnRelease a (!value) w)
  else pure w

def navigateMidiValue (a : Answers) (r : MidiValueRef) (nav : Nav) (w : World) :
    Except Fault World :=
  let value := (w.rest.midi.values r).value
  match nav with
  | .left =>
      if value = 0 then pure w
      else uiRender elements (setMidiValue a r (value - 1) true w)
  | .right =>
      if value = 0xffff then pure w
      else uiRender elements (setMidiValue a r (value + 1) true w)
  | _ => pure w

def bluetoothConnectNav (index : UInt8) (nav : Nav) (w : World) : Except Fault World :=
  if nav = .enter then uiClear elements (onBle (midiBleClientConnect index) w) else pure w

def navigateItem (a : Answers) (p : Ptr) (nav : Nav) (w : World) : Except Fault World := do
  match ← w.rest.heap.items.read p with
  | .default _ action => if nav = .enter then runAction a action w else pure w
  | .keymap select => navigateSelect p .keymap setKeymap select nav w
  | .stripControl select =>
      navigateSelect p .stripControl (fun r w => pure (setAnalogStripMv a r w)) select nav w
  | .checkbox label value => navigateCheckbox a p label value nav w
  | .midiValue r => navigateMidiValue a r nav w
  | .device _ index => bluetoothConnectNav index nav w

def navigateMenu (a : Answers) (self : Ptr) (nav : Nav) (w : World) : Except Fault World := do
  let menu ← w.rest.heap.menus.read self
  match nav with
  | .up => writeMenu self (menuUp menu) w
  | .down => writeMenu self (menuDown menu) w
  | _ => do
      let slots ← w.rest.heap.arrays.read menu.items
      let item ← readSlot a.stray slots menu.index.toNat
      navigateItem a item nav w

def navigateStatus (nav : Nav) (w : World) : Except Fault World :=
  match nav with
  | .close | .return => pushMenuMain w
  | _ => pure w

/-- The `navigate` callback of `owner`, called on `self`. The one of the status
screen does not look at its argument. -/
def navigate (a : Answers) (owner self : Element) (nav : Nav) (w : World) : Except Fault World :=
  match owner, self with
  | .uiStatus, _ => navigateStatus nav w
  | .menu _, .menu p => navigateMenu a p nav w
  | .menu _, .uiStatus => .error .wild

end Navigation

section Runs

inductive Event where
  | navigate (nav : Nav)
  | serverConnected (handle : ConHandle)
  | serverDisconnected
  | clientStatus (ready : Bool)

/-- The branch of `server_packet_handler` for a new link. The handler is
registered only while the server is initialised. -/
def serverConnected (a : Answers) (handle : ConHandle) (w : World) : Except Fault World :=
  if w.rest.ble.serverInitialized then
    let w := onBle (fun b => { b with conHandle := handleOf handle }) w
    uiRender elements (sendAllMidiValues a w)
  else pure w

def serverDisconnected (w : World) : Except Fault World :=
  if w.rest.ble.serverInitialized then
    uiRender elements (onBle (fun b => { b with conHandle := none }) w)
  else pure w

def statusCallback (a : Answers) (ready : Bool) (w : World) : Except Fault World :=
  uiRender elements (if ready then sendAllMidiValues a w else w)

def step (w : World) (e : Answers × Event) : Except Fault World :=
  match e.2 with
  | .navigate nav => uiNavigate elements (Menus.navigate e.1) e.1.nullElement nav w
  | .serverConnected handle => serverConnected e.1 handle w
  | .serverDisconnected => serverDisconnected w
  | .clientStatus ready => statusCallback e.1 ready w

def run (es : List (Answers × Event)) (w : World) : Except Fault World := es.foldlM step w

/-- The memory after a reset. -/
def reset : World := UiStack.boot ⟨MenuHeap.empty, Ble.boot, .piano, Strip.boot, boot idle⟩

def displayInit (displayOk : Bool) (w : World) : Except Fault World :=
  if displayOk then uiRender elements (uiInit .dark .uiStatus w) else pure w

def midiBleInit (a : Answers) (w : World) : Except Fault World :=
  match w.rest.ble.initialState.mode with
  | .server => pure (onBle (midiBleServerInit a.radio) w)
  | .client =>
      let state := w.rest.ble.initialState
      midiBleClientInitWithAddr a (some (state.connectedAddrType, state.connectedAddr)) w
  | .off => pure w

/-- `main` up to its loop, where the saved settings are a keymap and a Bluetooth
state; where none are saved they are those of the reset. -/
def bootUp (a : Answers) (displayOk : Bool) (keymap : Keymap) (saved : BleState) :
    Except Fault World := do
  let w ← displayInit displayOk reset
  let w ← setKeymap keymap w
  let w ← midiBleInit a (onBle (midiBleSetInitialState saved) w)
  pure (assignStrip a (some .mvPitchbend) true w)

end Runs

end Keytar.Menus
