import Keytar.MenuSteps

/-!
# Which peripheral the connect menu connects to

Four numberings meet here: the rows of the menu and the indices that its items
store count from 0; the names of the client library count from 1; and a connection
request counts from 1 too, as its 0 stands for the last connected peripheral. The
names are asked for by row + 1, the connection is requested by the stored index.
-/
namespace Keytar.ConnectMenu
open KeyboardMatrix Memory MidiBle Ui Menus

/-- The client library with its discovered peripherals. Its last three fields are
what the firmware relies on. -/
structure ClientLibrary where
  Peripheral : Type
  name : Peripheral → String
  peripherals : List Peripheral
  lastConnected : Peripheral
  getNMidiPeripherals : UInt8
  getMidiPeripheralName : UInt8 → String
  requestConnect : UInt8 → Option Peripheral
  count : getNMidiPeripherals.toNat = peripherals.length
  names : ∀ (i : ℕ) (p : Peripheral), peripherals[i]? = some p →
    getMidiPeripheralName (UInt8.ofNat (i + 1)) = name p
  last : requestConnect 0 = some lastConnected
  connects : ∀ (i : ℕ) (p : Peripheral), peripherals[i]? = some p →
    requestConnect (UInt8.ofNat (i + 1)) = some p

/-- What the menus ask the library for. -/
def ClientLibrary.answers (lib : ClientLibrary) (a : Answers) : Answers :=
  { a with deviceCount := lib.getNMidiPeripherals, deviceName := lib.getMidiPeripheralName }

/-- The row of the cursor in the menu that is drawn, and the label there. -/
def highlighted (w : World) : Except Fault (Option (ℕ × String)) := do
  match ← renderedElement w with
  | some (.menu p) => do
      let self ← w.rest.heap.menus.read p
      let lines ← renderMenu (drawItem w.rest) 0 true p w.rest.heap
      pure ((lines.find? Line.cursor).map fun line => (self.index.toNat, line.content.label))
  | _ => pure none

/-- The connect menu is opened in `w` and the cursor is moved. -/
def opened (lib : ClientLibrary) (a : Answers) (moves : List (Answers × Move)) (w : World) :
    Except Fault World := do
  let w ← pushMenuBluetoothConnect (lib.answers a) w
  let w ← uiRender elements w
  run (moves.map fun move => (move.1, .navigate move.2.nav)) w

/-- ENTER then asks for the peripheral of the highlighted row. -/
def ConnectsHighlighted (lib : ClientLibrary) (a : Answers) (moves : List (Answers × Move))
    (enter : Answers) (w : World) : Prop :=
  ∃ (w₁ w₂ : World) (row : ℕ) (p : lib.Peripheral) (index : UInt8),
    opened lib a moves w = .ok w₁ ∧
    lib.peripherals[row]? = some p ∧ highlighted w₁ = .ok (some (row, lib.name p)) ∧
    step w₁ (enter, .navigate .enter) = .ok w₂ ∧
    w₂.rest.ble.calls = w₁.rest.ble.calls ++ [.requestConnect index] ∧
    lib.requestConnect index = some p

/-- The cursor of a menu of `n` rows. -/
def moveRow (n row : ℕ) : Move → ℕ
  | .up => row - 1
  | .down => min (row + 1) (n - 1)

/-- The row of the cursor after its moves from the first row on. -/
def rowAfter (n : ℕ) (moves : List Move) : ℕ := moves.foldl (moveRow n) 0

section Steps
variable {d : Option Element} {f : Frame Item} {fs : List (Frame Item)} {w : World}

/-- One input that moves the cursor, with the redraw after it. -/
theorem step_move (h : Good d False (f :: fs) w) (a : Answers) (move : Move) :
    ∃ w', step w (a, .navigate move.nav) = .ok w' ∧
      Good d False (f.moved (move.on f.record) :: fs) w' := by
  have hreturn : move.nav ≠ .return := by cases move <;> decide
  have hclose : move.nav ≠ .close := by cases move <;> decide
  obtain ⟨v, hv, hgood, -⟩ := h.navigateMenu_move a move
  obtain ⟨w', hw', hgood', -⟩ := hgood.render
  refine ⟨w', ?_, hgood'⟩
  rw [step_menu h a hreturn hclose, hv]
  exact hw'

theorem move_index (hshort : f.items.length < 256) (move : Move) :
    (move.on f.record).index.toNat = moveRow f.items.length f.index.toNat move := by
  have hlength := f.length_toNat hshort
  cases move with
  | up => exact menuUp_index f.record
  | down =>
      rw [moveRow, ← hlength]
      exact menuDown_index f.record

theorem run_moves (moves : List (Answers × Move)) :
    ∀ {f : Frame Item} {w : World}, Good d False (f :: fs) w → InView f.record →
      ∃ w' self, run (moves.map fun move => (move.1, .navigate move.2.nav)) w = .ok w' ∧
        Good d False (f.moved self :: fs) w' ∧ InView (f.moved self).record ∧
        self.index.toNat =
          (moves.map Prod.snd).foldl (moveRow f.items.length) f.index.toNat := by
  induction moves with
  | nil => exact fun {f w} h hview => ⟨w, f.record, rfl, h, hview, rfl⟩
  | cons move moves ih =>
      intro f w h hview
      have hshort := (h.frames f (List.mem_cons_self ..)).short
      obtain ⟨v, hv, hgood⟩ := step_move h move.1 move.2
      obtain ⟨w', self, hrun, hgood', hview', hrow⟩ := ih hgood (hview.moved move.2)
      refine ⟨w', self, ?_, hgood', hview', ?_⟩
      · rw [List.map_cons, run, List.foldlM_cons, hv]
        exact hrun
      · rw [hrow, List.map_cons, List.foldl_cons, ← move_index (by omega)]
        rfl

/-- The items of the connect menu. -/
def Devices (lib : ClientLibrary) (f : Frame Item) : Prop :=
  f.items.length = min lib.peripherals.length 16 ∧
    ∀ (i : ℕ) (p : lib.Peripheral), i < f.items.length → lib.peripherals[i]? = some p →
      (f.items[i]?).map Prod.snd = some (.device (lib.name p) (UInt8.ofNat i))

theorem open_menu (lib : ClientLibrary) (a : Answers) (h : Good d False fs w) :
    ∃ w' f, (pushMenuBluetoothConnect (lib.answers a) w >>= uiRender elements) = .ok w' ∧
      Good d False (f :: fs) w' ∧ (f.index = 0 ∧ f.scroll = 0) ∧ Devices lib f := by
  have hcount : (min (lib.answers a).deviceCount 16).toNat = min lib.peripherals.length 16 := by
    rw [deviceCount_toNat]
    exact congrArg (min · 16) lib.count
  have hdevices : ∀ x ∈ (List.range (min (lib.answers a).deviceCount 16).toNat).map
      (deviceItem (lib.answers a)), x.Valid ∧ x.Fits w.rest.ble := by
    intro x hx
    obtain ⟨i, -, rfl⟩ := List.mem_map.mp hx
    exact ⟨trivial, trivial⟩
  have hlist : ((List.range (min (lib.answers a).deviceCount 16).toNat).map
      (deviceItem (lib.answers a))).length = (min (lib.answers a).deviceCount 16).toNat := by
    rw [List.length_map, List.length_range]
  obtain ⟨v, f, hv, hgood, hitems, hstart, -⟩ :=
    h.push (Nat.le_of_eq hlist) (by omega) hdevices False.elim
  obtain ⟨w', hw', hgood', -⟩ := hgood.render
  have hlength : f.items.length = min lib.peripherals.length 16 := by
    rw [← hcount, ← List.length_map (f := Prod.snd), hitems, List.length_map, List.length_range]
  refine ⟨w', f, ?_, hgood', hstart, hlength, fun i p hi hp => ?_⟩
  · rw [pushMenuBluetoothConnect, hv]
    exact hw'
  · rw [hlength, ← hcount] at hi
    rw [← List.getElem?_map, hitems, List.getElem?_map, List.getElem?_range hi, Option.map_some,
      deviceItem, ← lib.names i p hp, UInt8.ofNat_add]
    rfl

/-- What the items of the connect menu look like. -/
def deviceDrawn (item : Item) (_ : Bool) : Drawn :=
  match item with
  | .device label _ => ⟨label, .none⟩
  | _ => ⟨"", .none⟩

theorem Devices.draw {lib : ClientLibrary} (h : Devices lib f) (app : App) :
    ∀ q ∈ f.items, ∀ focus, drawItem app q.2 focus = .ok (deviceDrawn q.2 focus) := by
  intro q hq focus
  obtain ⟨i, hi, rfl⟩ := List.getElem_of_mem hq
  have hlt : i < lib.peripherals.length := by
    have := h.1
    omega
  have hdevice := h.2 i lib.peripherals[i] hi (List.getElem?_eq_getElem hlt)
  rw [List.getElem?_eq_getElem hi, Option.map_some] at hdevice
  rw [Option.some.inj hdevice]
  rfl

/-- The highlighted row is the one of the cursor, with the name of its peripheral. -/
theorem highlighted_eq (lib : ClientLibrary) (h : Good d False (f :: fs) w)
    (hview : InView f.record) (hdevices : Devices lib f) {p : lib.Peripheral}
    (hrow : f.index.toNat < f.items.length) (hp : lib.peripherals[f.index.toNat]? = some p) :
    highlighted w = .ok (some (f.index.toNat, lib.name p)) := by
  have hmem : f ∈ f :: fs := List.mem_cons_self ..
  have hshort : f.items.length < 256 := Nat.lt_of_le_of_lt (h.frames f hmem).short (by decide)
  have hshown : renderedElement w = .ok (some (.menu f.menu)) := h.rep.stacked.renderedElement
  have hdrawn : renderMenu (drawItem w.rest) 0 true f.menu w.rest.heap =
      .ok (lines deviceDrawn true f.record (f.items.map Prod.snd)) :=
    h.rep.heap.renderMenu_eq hmem hshort (hdevices.draw w.rest) true
  have hitem := hdevices.2 _ p hrow hp
  rw [← List.getElem?_map] at hitem
  have hlength : f.record.length.toNat = (f.items.map Prod.snd).length := by
    rw [f.length_toNat hshort, List.length_map]
  have hfound : (lines deviceDrawn true f.record (f.items.map Prod.snd)).find? Line.cursor = _ :=
    lines_find hview hlength hitem
  unfold highlighted
  simp only [hshown, h.rep.heap.menu hmem, hdrawn, bind, Except.bind]
  rw [hfound]
  rfl

/-- ENTER goes to the item under the cursor. -/
theorem step_enter (lib : ClientLibrary) (h : Good d False (f :: fs) w)
    (hdevices : Devices lib f) {p : lib.Peripheral} (hrow : f.index.toNat < f.items.length)
    (hp : lib.peripherals[f.index.toNat]? = some p) (a : Answers) :
    ∃ w', step w (a, .navigate .enter) = .ok w' ∧
      w'.rest.ble.calls = w.rest.ble.calls ++ [.requestConnect f.index] := by
  obtain ⟨q, hq, hitem⟩ := Option.map_eq_some_iff.mp (hdevices.2 _ p hrow hp)
  obtain ⟨_, rfl⟩ := List.getElem?_eq_some_iff.mp hq
  have hread := h.rep.heap.item (List.mem_cons_self ..) (List.getElem_mem hrow)
  rw [hitem, UInt8.ofNat_toNat] at hread
  obtain ⟨v, hv, hgood, hble, -⟩ := (h.toSane.withRest
    { w.rest with ble := midiBleClientConnect f.index w.rest.ble } rfl).clear_good
    (h.ble.log (.requestConnect f.index) trivial)
  obtain ⟨w', hw', hsane, hrest, -⟩ := hgood.toSane.render
  refine ⟨w', ?_, ?_⟩
  · rw [step_menu h a (by decide) (by decide), navigateMenu_item a h (by decide) (by decide),
      f.readSlot_item hrow]
    simp only [navigateItem, hread, bluetoothConnectNav, if_true, bind, Except.bind]
    rw [onBle, hv]
    exact hw'
  · rw [hrest, hble]
    rfl

end Steps

/-- What happens after the connect menu has been opened over some peripherals: the
cursor is on a row of theirs, the row shows the name of its peripheral, and ENTER
sends the number of the row. -/
theorem opened_enter (lib : ClientLibrary) (a : Answers) (moves : List (Answers × Move))
    (enter : Answers) {d : Option Element} {fs : List (Frame Item)} {w : World}
    (h : Good d False fs w) (hsome : lib.peripherals ≠ []) :
    ∃ w₁ w₂ p,
      let row := rowAfter (min lib.peripherals.length 16) (moves.map Prod.snd)
      opened lib a moves w = .ok w₁ ∧ lib.peripherals[row]? = some p ∧
      highlighted w₁ = .ok (some (row, lib.name p)) ∧
      step w₁ (enter, .navigate .enter) = .ok w₂ ∧
      w₂.rest.ble.calls = w₁.rest.ble.calls ++ [.requestConnect (UInt8.ofNat row)] := by
  obtain ⟨v, f, hv, hgood, ⟨hindex, hscroll⟩, hdevices⟩ := open_menu lib a h
  have hpos : 0 < lib.peripherals.length := List.length_pos_iff.mpr hsome
  have hshort : f.items.length < 256 := by
    have := hdevices.1
    omega
  obtain ⟨w₁, self, hrun, hgood₁, hview₁, hrow⟩ :=
    run_moves moves hgood (inView_start hshort hindex hscroll)
  rw [hindex, hdevices.1] at hrow
  have hlength : (f.moved self).record.length.toNat = f.items.length := f.length_toNat hshort
  have hlt : self.index.toNat < f.items.length := by
    rcases hview₁.index with hlt | ⟨hzero, -⟩
    · rwa [hlength] at hlt
    · rw [hzero, hdevices.1, UInt8.toNat_zero] at hlength
      omega
  have hrange : self.index.toNat < lib.peripherals.length := by
    have := hdevices.1
    omega
  have hp := List.getElem?_eq_getElem hrange
  have hdevices₁ : Devices lib (f.moved self) := hdevices
  obtain ⟨w₂, hw₂, hcalls⟩ := step_enter lib hgood₁ hdevices₁ hlt hp enter
  refine ⟨w₁, w₂, lib.peripherals[self.index.toNat], ?_, ?_, ?_, hw₂, ?_⟩
  · rw [opened, ← bind_assoc, hv]
    exact hrun
  · rw [rowAfter, ← UInt8.toNat_zero, ← hrow]
    exact hp
  · rw [rowAfter, ← UInt8.toNat_zero, ← hrow]
    exact highlighted_eq lib hgood₁ hview₁ hdevices₁ hlt hp
  · rw [rowAfter, ← UInt8.toNat_zero, ← hrow, UInt8.ofNat_toNat]
    exact hcalls

/-- The highlighted peripheral is the one that the row's number means to the client
library: the last connected one on the first row, the one above on the others. -/
def NumberingsAgree (lib : ClientLibrary) : ℕ → Prop
  | 0 => lib.peripherals[0]? = some lib.lastConnected
  | row + 1 => lib.peripherals[row]? = lib.peripherals[row + 1]?

/-- Which of the two numberings the request goes by. -/
theorem connectsHighlighted_asks (lib : ClientLibrary) (hsome : lib.peripherals ≠ [])
    (a : Answers) (moves : List (Answers × Move)) (enter : Answers) {d : Option Element}
    {fs : List (Frame Item)} {w : World} (h : Good d False fs w) :
    let row := rowAfter (min lib.peripherals.length 16) (moves.map Prod.snd)
    row < lib.peripherals.length ∧ (ConnectsHighlighted lib a moves enter w ↔
      lib.requestConnect (UInt8.ofNat row) = lib.peripherals[row]?) := by
  obtain ⟨w₁, w₂, p, hw₁, hp, hlabel, hw₂, hcalls⟩ := opened_enter lib a moves enter h hsome
  intro row
  refine ⟨(List.getElem?_eq_some_iff.mp hp).choose, ?_⟩
  constructor
  · rintro ⟨v₁, v₂, row', p', index, hv₁, hp', hlabel', hv₂, hcalls', hindex⟩
    obtain rfl := Except.ok.inj (hw₁.symm.trans hv₁)
    obtain rfl := Except.ok.inj (hw₂.symm.trans hv₂)
    have hsame := Option.some.inj (Except.ok.inj (hlabel.symm.trans hlabel'))
    have hrow : row = row' := (Prod.mk.inj hsame).1
    have hsent := List.append_cancel_left (hcalls.symm.trans hcalls')
    obtain rfl : UInt8.ofNat row = index := by simpa using hsent
    rw [hindex, hrow, hp']
  · intro hasked
    exact ⟨w₁, w₂, row, p, _, hw₁, hp, hlabel, hw₂, hcalls, hasked.trans hp⟩

/-- In the connect menu of any state that a run reaches, opened over some peripherals,
ENTER asks for the highlighted one exactly if the numberings happen to agree on the
row that the cursor has moved to. -/
theorem connectsHighlighted_iff (lib : ClientLibrary) (hsome : lib.peripherals ≠ [])
    (a : Answers) (moves : List (Answers × Move)) (enter : Answers) (boot : Answers)
    (displayOk : Bool) (keymap : Keymap) (saved : BleState) (es : List (Answers × Event))
    {w : World} (hrun : bootUp boot displayOk keymap saved >>= run es = .ok w) :
    ConnectsHighlighted lib a moves enter w ↔
      NumberingsAgree lib (rowAfter (min lib.peripherals.length 16) (moves.map Prod.snd)) := by
  obtain ⟨fs, hgood⟩ := reached_good hrun
  obtain ⟨hrow, hasks⟩ := connectsHighlighted_asks lib hsome a moves enter hgood
  rw [hasks]
  generalize rowAfter (min lib.peripherals.length 16) (moves.map Prod.snd) = row at hrow ⊢
  cases row with
  | zero =>
      rw [NumberingsAgree, show UInt8.ofNat 0 = 0 from rfl, lib.last]
      exact eq_comm
  | succ row =>
      have habove := List.getElem?_eq_getElem (Nat.lt_of_succ_lt hrow)
      rw [NumberingsAgree, lib.connects row _ habove, habove]

/-- Two peripherals in range, and the one that was connected last. -/
def twoInRange (lastConnected : ℕ) : ClientLibrary where
  Peripheral := ℕ
  name := fun p => if p = 1 then "piano" else "synth"
  peripherals := [1, 2]
  lastConnected := lastConnected
  getNMidiPeripherals := 2
  getMidiPeripheralName := fun k => if k = 1 then "piano" else "synth"
  requestConnect := fun k =>
    if k = 0 then some lastConnected else if k = 1 then some 1 else some 2
  count := rfl
  names := by
    intro i p hp
    match i with
    | 0 | 1 =>
        obtain rfl := Option.some.inj hp
        rfl
    | i + 2 => cases hp
  last := rfl
  connects := by
    intro i p hp
    match i with
    | 0 | 1 =>
        obtain rfl := Option.some.inj hp
        rfl
    | i + 2 => cases hp

def quiet : Answers where
  radio := ⟨false, false, (0, .replicate 6 0)⟩
  deviceCount := 0
  deviceName := fun _ => ""
  accepts := fun _ => ⟨3, 3⟩
  nullElement := .uiStatus
  stray := none

/-- The main menu, the Bluetooth menu and a client that starts: its menu is open on Connect. -/
def clientUp : List (Answers × Event) :=
  [.close, .enter, .down, .enter].map fun nav => (quiet, .navigate nav)

/-- On the first row the last connected peripheral is asked for. Here it is the first. -/
theorem connectsHighlighted_first :
    ∃ w, bootUp quiet true .piano .off >>= run clientUp = .ok w ∧
      w.rest.ble.clientInitialized = true ∧
      ConnectsHighlighted (twoInRange 1) quiet [] quiet w := by
  refine ⟨_, rfl, rfl, ?_⟩
  exact (connectsHighlighted_iff (twoInRange 1) (List.cons_ne_nil 1 [2]) quiet [] quiet quiet true
    .piano .off clientUp rfl).mpr rfl

/-- One row down the second peripheral is highlighted and the first is asked for. -/
theorem not_connectsHighlighted_second :
    ∃ w, bootUp quiet true .piano .off >>= run clientUp = .ok w ∧
      w.rest.ble.clientInitialized = true ∧
      ¬ ConnectsHighlighted (twoInRange 3) quiet [(quiet, .down)] quiet w := by
  have hrun : bootUp quiet true .piano .off >>= run clientUp = .ok _ := rfl
  obtain ⟨fs, hgood⟩ := reached_good hrun
  refine ⟨_, hrun, rfl, fun hconnects => ?_⟩
  have hasked := (connectsHighlighted_asks (twoInRange 3) (List.cons_ne_nil 1 [2]) quiet
    [(quiet, .down)] quiet hgood).2.mp hconnects
  have hpiano : (some 1 : Option ℕ) = some 2 := hasked
  exact absurd hpiano (by decide)

end Keytar.ConnectMenu
