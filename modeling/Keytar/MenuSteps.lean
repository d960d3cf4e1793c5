import Keytar.MenuStack
import Keytar.Ui.Viewport

/-!
# What one event does to the open menus

`Good` ties the open menus to the Bluetooth roles: a menu that starts a role is
open only while that role is down. Every event keeps it. The one exception is an
input that a menu without items hands to an item, where the run goes on only if
what lies in memory there happens to be a live item.
-/
namespace Keytar.Menus
open AnalogStrip KeyboardMatrix Memory Midi MidiBle MidiValues Ui

/-- The action fits the roles that are up. -/
def Action.Fits (b : Ble) : Action → Prop
  | .startServer => b.serverInitialized = false
  | .startClient => b.clientInitialized = false
  | _ => True

def Item.Fits (b : Ble) : Item → Prop
  | .default _ action => action.Fits b
  | _ => True

structure Good (d : Option Element) (tame : Prop) (fs : List (Frame Item)) (w : World) : Prop
    extends Sane d tame fs w where
  roles : ∀ f ∈ fs, ∀ q ∈ f.items, q.2.Fits w.rest.ble
  ble : w.rest.ble.Sound

/-- The frames of a later state, and what has happened to their blocks since `m`. -/
def Since (m : Marks) (fs : List (Frame Item)) (w' : World) (fs' : List (Frame Item)) : Prop :=
  Evolves m (fs.map Frame.blocks) (allocated w') (fs'.map Frame.blocks)

/-- The operation succeeds, in a good state that has evolved from the frames `fs`. -/
def Leads (d : Option Element) (tame : Prop) (m : Marks) (fs : List (Frame Item))
    (r : Except Fault World) : Prop :=
  ∃ w' fs', r = .ok w' ∧ Good d tame fs' w' ∧ Since m fs w' fs'

theorem Since.same {m : Marks} {fs fs' : List (Frame Item)} {w' : World}
    (hmarks : allocated w' = m) (hblocks : fs'.map Frame.blocks = fs.map Frame.blocks) :
    Since m fs w' fs' := by
  rw [Since, hmarks, hblocks]
  exact .refl _ _

/-- Frames from the top are gone and nothing is new. -/
theorem Since.drop {m : Marks} (fs : List (Frame Item)) {w' : World}
    (hmarks : allocated w' = m) (k : ℕ) : Since m fs w' (fs.drop k) := by
  rw [Since, hmarks, List.map_drop]
  exact .drop _ _ k

theorem Since.clear {m : Marks} {fs : List (Frame Item)} {w' : World}
    (hmarks : allocated w' = m) : Since m fs w' [] := by
  have hdrop := Since.drop fs hmarks fs.length
  rwa [List.drop_length] at hdrop

theorem Item.Fits.congr {b b' : Ble} (hs : b'.serverInitialized = b.serverInitialized)
    (hc : b'.clientInitialized = b.clientInitialized) {item : Item} (h : item.Fits b) :
    item.Fits b' := by
  cases item with
  | default label action =>
      cases action with
      | startServer => exact hs.trans h
      | startClient => exact hc.trans h
      | _ => trivial
  | _ => trivial

section Rules
variable {d : Option Element} {tame : Prop} {f : Frame Item} {fs : List (Frame Item)} {w : World}

theorem Good.withRest (h : Good d tame fs w) (app : App) (happ : app.heap = w.rest.heap)
    (hs : app.ble.serverInitialized = w.rest.ble.serverInitialized)
    (hc : app.ble.clientInitialized = w.rest.ble.clientInitialized) (hb : app.ble.Sound) :
    Good d tame fs { w with rest := app } where
  toSane := h.toSane.withRest app happ
  roles := fun f hf q hq => (h.roles f hf q hq).congr hs hc
  ble := hb

theorem Good.leads (h : Good d tame fs w) : Leads d tame (allocated w) fs (.ok w) :=
  ⟨w, fs, rfl, h, .same rfl rfl⟩

theorem Leads.bind {m : Marks} {r : Except Fault World} {k : World → Except Fault World}
    (h : Leads d tame m fs r)
    (hk : ∀ w gs, Good d tame gs w → Leads d tame (allocated w) gs (k w)) :
    Leads d tame m fs (r >>= k) := by
  obtain ⟨w', gs, hr, hw', hevolves⟩ := h
  obtain ⟨w'', hs, hk', hw'', hevolves'⟩ := hk w' gs hw'
  exact ⟨w'', hs, by rw [hr]; exact hk', hw'', hevolves.trans hevolves'⟩

theorem Good.render (h : Good d tame fs w) :
    ∃ w', uiRender elements w = .ok w' ∧ Good d tame fs w' ∧ allocated w' = allocated w := by
  obtain ⟨w', hw', hsane, hrest, hmarks⟩ := h.toSane.render
  exact ⟨w', hw', ⟨hsane, by rw [hrest]; exact h.roles, by rw [hrest]; exact h.ble⟩, hmarks⟩

theorem Good.render_leads (h : Good d tame fs w) :
    Leads d tame (allocated w) fs (uiRender elements w) := by
  obtain ⟨w', hw', hgood, hmarks⟩ := h.render
  exact ⟨w', fs, hw', hgood, .same hmarks rfl⟩

theorem Good.pop (h : Good d tame (f :: fs) w) :
    ∃ w', uiPop elements w = .ok w' ∧ Good d tame fs w' ∧ allocated w' = allocated w := by
  obtain ⟨w', heap, hw', hsane, hrest, hmarks⟩ := h.toSane.pop
  refine ⟨w', hw', ⟨hsane, ?_, by rw [hrest]; exact h.ble⟩, hmarks⟩
  rw [hrest]
  exact fun g hg => h.roles g (List.mem_cons_of_mem f hg)

/-- After a clear no menu depends on the roles. -/
theorem Sane.clear_good (h : Sane d tame fs w) (hb : w.rest.ble.Sound) :
    ∃ w', uiClear elements w = .ok w' ∧ Good d tame [] w' ∧ w'.rest.ble = w.rest.ble ∧
      allocated w' = allocated w := by
  obtain ⟨w', heap, hw', hsane, hrest, hmarks⟩ := h.clear
  exact ⟨w', hw', ⟨hsane, by simp, by rw [hrest]; exact hb⟩, by rw [hrest], hmarks⟩

theorem Sane.clear_leads (h : Sane d tame fs w) (hb : w.rest.ble.Sound) :
    Leads d tame (allocated w) fs (uiClear elements w) := by
  obtain ⟨w', hw', hgood, -, hmarks⟩ := h.clear_good hb
  exact ⟨w', [], hw', hgood, .clear hmarks⟩

theorem Good.push (h : Good d tame fs w) {itemCapacity : UInt8} {items : List Item}
    (hcap : items.length ≤ itemCapacity.toNat) (hshort : items.length ≤ 16)
    (hitems : ∀ x ∈ items, x.Valid ∧ x.Fits w.rest.ble)
    (hroom : tame → fs.length < 3 ∧ ∀ x ∈ items, fs.length + 1 + x.opens ≤ 3) :
    ∃ w' f, pushMenuWith itemCapacity items w = .ok w' ∧ Good d tame (f :: fs) w' ∧
      f.items.map Prod.snd = items ∧ (f.index = 0 ∧ f.scroll = 0) ∧
      Since (allocated w) fs w' (f :: fs) := by
  obtain ⟨w', heap, f, hw', hsane, hf, hstart, hrest, hgrown, hnew⟩ := h.toSane.push hcap hshort
    (fun x hx => (hitems x hx).1) hroom
  refine ⟨w', f, hw', ⟨hsane, ?_, by rw [hrest]; exact h.ble⟩, hf, hstart, .push hgrown _ hnew⟩
  rw [hrest]
  refine List.forall_mem_cons.mpr ⟨fun q hq => ?_, h.roles⟩
  exact (hitems q.2 (by rw [← hf]; exact List.mem_map.mpr ⟨q, hq, rfl⟩)).2

theorem Good.push_leads (h : Good d tame fs w) {itemCapacity : UInt8} {items : List Item}
    (hcap : items.length ≤ itemCapacity.toNat) (hshort : items.length ≤ 16)
    (hitems : ∀ x ∈ items, x.Valid ∧ x.Fits w.rest.ble)
    (hroom : tame → fs.length < 3 ∧ ∀ x ∈ items, fs.length + 1 + x.opens ≤ 3) :
    Leads d tame (allocated w) fs (pushMenuWith itemCapacity items w) := by
  obtain ⟨w', f, hw', hgood, -, -, hsince⟩ := h.push hcap hshort hitems hroom
  exact ⟨w', f :: fs, hw', hgood, hsince⟩

end Rules

section Pushes
variable {d : Option Element} {tame : Prop} {fs : List (Frame Item)} {w : World}

theorem bluetoothItems_ok (a : Answers) {b : Ble} (hb : b.Sound) :
    (bluetoothItems a b).length ≤ 4 ∧
      ∀ x ∈ bluetoothItems a b, (x.Valid ∧ x.Fits b) ∧ x.opens ≤ 1 := by
  have hone := hb.oneRole
  unfold bluetoothItems
  split_ifs with hc hconnected hs <;>
    simp_all [Item.Valid, Item.Fits, Action.Fits, Item.opens, Action.opens]

theorem pushMenuBluetooth_leads (a : Answers) (h : Good d tame fs w)
    (hroom : tame → fs.length + 2 ≤ 3) : Leads d tame (allocated w) fs (pushMenuBluetooth a w) := by
  obtain ⟨hlength, hitems⟩ := bluetoothItems_ok a h.ble
  refine h.push_leads hlength (by omega) (fun x hx => (hitems x hx).1) fun ht => ?_
  have := hroom ht
  refine ⟨by omega, fun x hx => ?_⟩
  have := (hitems x hx).2
  omega

/-- A menu whose items open nothing. -/
theorem pushLeaf_leads (h : Good d tame fs w) {itemCapacity : UInt8} {items : List Item}
    (hcap : items.length ≤ itemCapacity.toNat) (hshort : items.length ≤ 16)
    (hitems : ∀ x ∈ items, x.Valid ∧ x.Fits w.rest.ble ∧ x.opens = 0)
    (hroom : tame → fs.length + 1 ≤ 3) :
    Leads d tame (allocated w) fs (pushMenuWith itemCapacity items w) := by
  refine h.push_leads hcap hshort (fun x hx => ⟨(hitems x hx).1, (hitems x hx).2.1⟩) fun ht => ?_
  have := hroom ht
  refine ⟨by omega, fun x hx => ?_⟩
  have := (hitems x hx).2.2
  omega

theorem pushMenuEnvelope_leads (h : Good d tame fs w) (hroom : tame → fs.length + 1 ≤ 3) :
    Leads d tame (allocated w) fs (pushMenuEnvelope w) :=
  pushLeaf_leads h (by decide) (by decide)
    (by simp [Item.Valid, Item.Fits, Item.opens]) hroom

theorem deviceCount_toNat (a : Answers) :
    (min a.deviceCount 16).toNat = min a.deviceCount.toNat 16 := by
  rw [show min a.deviceCount 16 = if a.deviceCount ≤ 16 then a.deviceCount else 16 from rfl]
  split_ifs with hle
  · exact (Nat.min_eq_left (UInt8.le_iff_toNat_le.mp hle)).symm
  · exact (Nat.min_eq_right (Nat.le_of_not_le (UInt8.le_iff_toNat_le.not.mp hle))).symm

theorem pushMenuBluetoothConnect_leads (a : Answers) (h : Good d tame fs w)
    (hroom : tame → fs.length + 1 ≤ 3) :
    Leads d tame (allocated w) fs (pushMenuBluetoothConnect a w) := by
  have hcount : (min a.deviceCount 16).toNat ≤ 16 := by
    rw [deviceCount_toNat]
    exact Nat.min_le_right _ _
  refine pushLeaf_leads h (by simp) (by simpa using hcount) (fun x hx => ?_) hroom
  obtain ⟨i, -, rfl⟩ := List.mem_map.mp hx
  exact ⟨trivial, trivial, rfl⟩

theorem getKeymapIndex_lt (keymap : Keymap) : getKeymapIndex keymap < keymaps.length := by
  cases keymap <;> decide

theorem analogStripIndex_lt (strip : Strip) : analogStripIndex strip < midiValues.length := by
  obtain ⟨assigned, reset⟩ := strip
  cases assigned with
  | none => cases reset <;> decide
  | some r => cases r <;> cases reset <;> decide

/-- The items of the main menu, around those for the settings. -/
def mainItems (keymap : Select Keymap) (strip : Select MidiValueRef) (reset : Bool) : List Item :=
  [.default "Bluetooth" .pushMenuBluetooth, .keymap keymap, .default "Envelope" .pushMenuEnvelope,
    .stripControl strip, .checkbox "Reset on release" reset]

/-- The selects of a new main menu. -/
def keymapSelect (keymap : Keymap) : Select Keymap :=
  ⟨"Keymap", getKeymapIndex keymap, keymaps.length - 1, keymaps⟩

def stripSelect (strip : Strip) : Select MidiValueRef :=
  ⟨"Strip control", analogStripIndex strip, midiValues.length - 1, midiValues⟩

theorem keymapSelect_valid (keymap : Keymap) : (keymapSelect keymap).Valid :=
  Select.valid_new _ (getKeymapIndex_lt keymap)

theorem stripSelect_valid (strip : Strip) : (stripSelect strip).Valid :=
  Select.valid_new _ (analogStripIndex_lt strip)

theorem pushMenuMain_eq (w : World) : pushMenuMain w = pushMenuWith 6
    (mainItems (keymapSelect w.rest.keymap) (stripSelect w.rest.strip)
      w.rest.strip.resetOnRelease) w := by
  simp only [Menus.pushMenuMain, Select.new_eq "Keymap" (getKeymapIndex_lt w.rest.keymap),
    Select.new_eq "Strip control" (analogStripIndex_lt w.rest.strip), bind, Except.bind]
  rfl

theorem Good.pushMenuMain (h : Good d tame [] w) :
    ∃ w' f, Menus.pushMenuMain w = .ok w' ∧ Good d tame [f] w' ∧
      f.items.map Prod.snd = mainItems (keymapSelect w.rest.keymap) (stripSelect w.rest.strip)
        w.rest.strip.resetOnRelease ∧
      (f.index = 0 ∧ f.scroll = 0) ∧ Since (allocated w) [] w' [f] := by
  rw [pushMenuMain_eq]
  refine h.push ?_ ?_ ?_ ?_
  · simp [mainItems]
  · simp [mainItems]
  · simp [mainItems, Item.Valid, Item.Fits, Action.Fits, keymapSelect_valid, stripSelect_valid]
  · simp [mainItems, Item.opens, Action.opens]

theorem pushMenuMain_leads (h : Good d tame [] w) :
    Leads d tame (allocated w) [] (pushMenuMain w) := by
  obtain ⟨w', f, hw', hgood, -, -, hsince⟩ := h.pushMenuMain
  exact ⟨w', [f], hw', hgood, hsince⟩

end Pushes

section Actions
variable {d : Option Element} {tame : Prop} {fs : List (Frame Item)} {w : World}

theorem Sane.clientDeinit (h : Sane d tame fs w) :
    ∃ w', midiBleClientDeinit w = .ok w' ∧ Sane d tame fs w' ∧
      w'.rest.ble = clientDeinit w.rest.ble ∧ allocated w' = allocated w := by
  obtain ⟨w', hw', hsane, hrest, hmarks⟩ :=
    (h.withRest { w.rest with ble := MidiBle.clientDeinit w.rest.ble } rfl).render
  exact ⟨w', hw', hsane, by rw [hrest], hmarks⟩

theorem Sane.clientInit (h : Sane d tame fs w) (a : Answers) (addr : Option (ℤ × Addr)) :
    ∃ w', midiBleClientInitWithAddr a addr w = .ok w' ∧ Sane d tame fs w' ∧
      w'.rest.ble = (clientInitWithAddr a.radio addr w.rest.ble).2 ∧
      allocated w' = allocated w := by
  have hsane := h.withRest
    { w.rest with ble := (clientInitWithAddr a.radio addr w.rest.ble).2 } rfl
  unfold midiBleClientInitWithAddr
  cases (clientInitWithAddr a.radio addr w.rest.ble).1 with
  | false => exact ⟨_, rfl, hsane, rfl, rfl⟩
  | true =>
      obtain ⟨w', hw', hsane', hrest, hmarks⟩ := hsane.render
      exact ⟨w', hw', hsane', by rw [hrest], hmarks⟩

theorem disconnect_leads (h : Good d tame fs w) : Leads d tame (allocated w) fs (disconnect w) :=
  (h.toSane.withRest { w.rest with ble := midiBleClientDisconnect w.rest.ble }
    rfl).clear_leads h.ble.clientDisconnect

theorem bluetoothConnectNav_leads (index : UInt8) (nav : Nav) (h : Good d tame fs w) :
    Leads d tame (allocated w) fs (bluetoothConnectNav index nav w) := by
  unfold bluetoothConnectNav
  split_ifs
  · exact (h.toSane.withRest { w.rest with ble := midiBleClientConnect index w.rest.ble }
      rfl).clear_leads (h.ble.log (.requestConnect index) trivial)
  · exact h.leads

theorem startServer_leads (a : Answers) (h : Good d tame fs w)
    (hfits : w.rest.ble.serverInitialized = false) :
    Leads d tame (allocated w) fs (startServer a w) := by
  unfold startServer
  cases hc : w.rest.ble.clientInitialized with
  | false =>
      simp only [Bool.false_eq_true, if_false, bind, Except.bind, pure, Except.pure]
      exact (h.toSane.withRest { w.rest with ble := midiBleServerInit a.radio w.rest.ble }
        rfl).clear_leads (h.ble.startServer hfits hc a.radio)
  | true =>
      obtain ⟨w', hw', hsane, hble, hmarks⟩ := h.toSane.clientDeinit
      simp only [if_true, hw', bind, Except.bind]
      rw [← hmarks]
      refine (hsane.withRest { w'.rest with ble := midiBleServerInit a.radio w'.rest.ble }
        rfl).clear_leads ?_
      rw [hble]
      exact (h.ble.stopClient hc).startServer hfits rfl a.radio

theorem stop_leads (h : Good d tame fs w) : Leads d tame (allocated w) fs (stop w) := by
  unfold stop
  cases hs : w.rest.ble.serverInitialized with
  | true =>
      have hc : w.rest.ble.clientInitialized = false := by simpa [hs] using h.ble.oneRole
      have hoff : (onBle midiBleDeinit w).rest.ble.clientInitialized = false := hc
      simp only [if_true, hoff, Bool.false_eq_true, if_false, bind, Except.bind, pure, Except.pure]
      exact (h.toSane.withRest { w.rest with ble := midiBleDeinit w.rest.ble }
        rfl).clear_leads (h.ble.stopServer hs)
  | false =>
      simp only [Bool.false_eq_true, if_false]
      cases hc : w.rest.ble.clientInitialized with
      | false =>
          simp only [Bool.false_eq_true, if_false, bind, Except.bind, pure, Except.pure]
          exact h.toSane.clear_leads h.ble
      | true =>
          obtain ⟨w', hw', hsane, hble, hmarks⟩ := h.toSane.clientDeinit
          simp only [if_true, hw', bind, Except.bind]
          rw [← hmarks]
          exact hsane.clear_leads (by rw [hble]; exact h.ble.stopClient hc)

/-- A client that starts clears the menus, and builds a new one for its own role. -/
theorem clientStarted_leads (a : Answers) (h : Sane d tame fs w) (hb : w.rest.ble.Sound)
    (hs : w.rest.ble.serverInitialized = false) (hc : w.rest.ble.clientInitialized = false) :
    Leads d tame (allocated w) fs (do
      let w ← midiBleClientInit a w
      let w ← uiClear elements w
      pushMenuBluetooth a w) := by
  obtain ⟨w', hw', hsane, hble, hmarks⟩ := h.clientInit a none
  have hsound : w'.rest.ble.Sound := by
    rw [hble]
    exact hb.startClient hs hc a.radio none
  simp only [midiBleClientInit, hw', bind, Except.bind]
  rw [← hmarks]
  obtain ⟨v, hv, hgood, -, hmarks'⟩ := hsane.clear_good hsound
  simp only [hv]
  obtain ⟨u, gs, hu, hgood', hsince⟩ := pushMenuBluetooth_leads a hgood (by simp)
  exact ⟨u, gs, hu, hgood', Evolves.trans (Since.clear hmarks') hsince⟩

theorem startClient_leads (a : Answers) (h : Good d tame fs w)
    (hfits : w.rest.ble.clientInitialized = false) :
    Leads d tame (allocated w) fs (startClient a w) := by
  unfold startClient
  cases hs : w.rest.ble.serverInitialized with
  | false =>
      simp only [Bool.false_eq_true, if_false]
      exact clientStarted_leads a h.toSane h.ble hs hfits
  | true =>
      simp only [if_true]
      exact clientStarted_leads a
        (h.toSane.withRest { w.rest with ble := midiBleDeinit w.rest.ble } rfl)
        (h.ble.stopServer hs) rfl hfits

theorem runAction_leads (a : Answers) (action : Action) (h : Good d tame fs w)
    (hfits : action.Fits w.rest.ble) (hroom : tame → fs.length + action.opens ≤ 3) :
    Leads d tame (allocated w) fs (runAction a action w) := by
  cases action with
  | pushMenuBluetooth => exact pushMenuBluetooth_leads a h hroom
  | pushMenuEnvelope => exact pushMenuEnvelope_leads h hroom
  | pushMenuBluetoothConnect => exact pushMenuBluetoothConnect_leads a h hroom
  | disconnect => exact disconnect_leads h
  | midiBleSetStateAsInitial =>
      exact (h.withRest { w.rest with ble := midiBleSetStateAsInitial a.radio w.rest.ble }
        rfl rfl rfl (h.ble.setInitial _)).leads
  | startServer => exact startServer_leads a h hfits
  | stop => exact stop_leads h
  | startClient => exact startClient_leads a h hfits

end Actions

section Items
variable {d : Option Element} {tame : Prop} {f : Frame Item} {fs : List (Frame Item)} {w : World}

theorem mem_replace {p : Ptr} {y : Item} {q : Ptr × Item}
    (hq : q ∈ (f.replace p y).items) : q = (p, y) ∨ q ∈ f.items := by
  obtain ⟨r, hr, rfl⟩ := List.mem_map.mp hq
  split_ifs
  · exact .inl rfl
  · exact .inr hr

theorem FrameOk.replace (h : FrameOk f) (p : Ptr) {y : Item} (hy : y.Valid) :
    FrameOk (f.replace p y) where
  short := by simpa [Frame.replace] using h.short
  index := by simpa [Frame.replace] using h.index
  items := fun q hq => by
    rcases mem_replace hq with rfl | hq
    · exact hy
    · exact h.items q hq

theorem Bounded.replace (p : Ptr) {y : Item} (hy : y.opens = 0) :
    ∀ {fs : List (Frame Item)}, Bounded fs → Bounded (fs.map (Frame.replace p y))
  | [], _ => trivial
  | f :: fs, h => by
      refine ⟨by simpa using h.1, fun q hq => ?_, Bounded.replace p hy h.2.2⟩
      rw [List.length_map]
      rcases mem_replace hq with rfl | hq
      · have := h.1
        simp only [hy]
        omega
      · exact h.2.1 q hq

/-- A changed item takes the place of the old one. -/
theorem Good.writeItem (h : Good d tame fs w) {p : Ptr} {x y : Item}
    (hx : w.rest.heap.items.read p = .ok x) (hy : y.Valid) (hfits : y.Fits w.rest.ble)
    (hopens : y.opens = 0) :
    ∃ w', Menus.writeItem p y w = .ok w' ∧ Good d tame (fs.map (Frame.replace p y)) w' ∧
      Since (allocated w) fs w' (fs.map (Frame.replace p y)) := by
  obtain ⟨items, hitems, hsize, hrep⟩ := h.rep.heap.writeItem hx y
  have hlayers : (fs.map (Frame.replace p y)).map Frame.onStack = fs.map Frame.onStack := by
    rw [List.map_map]
    rfl
  have hblocks : (fs.map (Frame.replace p y)).map Frame.blocks = fs.map Frame.blocks := by
    rw [List.map_map]
    exact List.map_congr_left fun g _ => g.replace_blocks p y
  refine ⟨{ w with rest := { w.rest with heap := { w.rest.heap with items := items } } },
    ?_, ⟨⟨⟨?_, hrep⟩, h.default, ?_, ?_⟩, ?_, h.ble⟩, .same ?_ hblocks⟩
  · simp only [Menus.writeItem, hitems, bind, Except.bind]
    rfl
  · rw [hlayers]
    exact h.rep.stacked.withRest _
  · exact List.forall_mem_map.mpr fun g hg => (h.frames g hg).replace p hy
  · exact fun ht => (h.bounded ht).replace p hopens
  · refine List.forall_mem_map.mpr fun g hg q hq => ?_
    rcases mem_replace hq with rfl | hq
    · exact hfits
    · exact h.roles g hg q hq
  · simp only [allocated, marks, MenuHeap.sizes, hsize]

theorem Good.writeItem_leads (h : Good d tame fs w) {p : Ptr} {x y : Item}
    (hx : w.rest.heap.items.read p = .ok x) (hy : y.Valid) (hfits : y.Fits w.rest.ble)
    (hopens : y.opens = 0) : Leads d tame (allocated w) fs (Menus.writeItem p y w) := by
  obtain ⟨w', hw', hgood, hsince⟩ := h.writeItem hx hy hfits hopens
  exact ⟨w', _, hw', hgood, hsince⟩

theorem Good.assignStrip (h : Good d tame fs w) (a : Answers) (mv : Option MidiValueRef)
    (reset : Bool) : Good d tame fs (assignStrip a mv reset w) :=
  h.withRest _ rfl rfl rfl h.ble

theorem Good.setMidiValue (h : Good d tame fs w) (a : Answers) (r : MidiValueRef)
    (value : UInt16) (setSetting : Bool) : Good d tame fs (setMidiValue a r value setSetting w) :=
  h.withRest _ rfl rfl rfl h.ble

theorem setKeymap_leads (keymap : Keymap) (h : Good d tame fs w) :
    Leads d tame (allocated w) fs (setKeymap keymap w) :=
  (h.withRest { w.rest with keymap := keymap } rfl rfl rfl h.ble).render_leads

theorem navigateSelect_leads {α : Type} {p : Ptr} {item : Select α → Item}
    {onChange : α → World → Except Fault World} {self : Select α} (h : Good d tame fs w)
    (hself : w.rest.heap.items.read p = .ok (item self)) (hvalid : self.Valid)
    (hitem : ∀ s : Select α, s.Valid →
      (item s).Valid ∧ (item s).Fits w.rest.ble ∧ (item s).opens = 0)
    (hchange : ∀ x w fs, Good d tame fs w → Leads d tame (allocated w) fs (onChange x w))
    (nav : Nav) :
    Leads d tame (allocated w) fs (navigateSelect p item onChange self nav w) := by
  obtain ⟨⟨after, changed⟩, hafter, hok⟩ := hvalid.navigate nav
  obtain ⟨hv, hf, ho⟩ := hitem after hok
  simp only [navigateSelect, hafter, bind, Except.bind]
  cases changed with
  | none => exact h.leads
  | some x =>
      exact (h.writeItem_leads hself hv hf ho).bind fun w' gs hw' =>
        (hchange x w' gs hw').bind fun w'' hs hw'' => hw''.render_leads

theorem navigateMidiValue_leads (a : Answers) (r : MidiValueRef) (nav : Nav)
    (h : Good d tame fs w) : Leads d tame (allocated w) fs (navigateMidiValue a r nav w) := by
  have hset (value : UInt16) :
      Leads d tame (allocated w) fs (uiRender elements (setMidiValue a r value true w)) :=
    (h.setMidiValue a r value true).render_leads
  cases nav with
  | left =>
      simp only [navigateMidiValue]
      split_ifs
      · exact h.leads
      · exact hset _
  | right =>
      simp only [navigateMidiValue]
      split_ifs
      · exact h.leads
      · exact hset _
  | _ => exact h.leads

/-- The callback of any live item. The bound needs the item to be in the top menu. -/
theorem navigateItem_leads (a : Answers) (nav : Nav) (h : Good d tame fs w) (hf : f ∈ fs)
    {q : Ptr × Item} (hq : q ∈ f.items) (hroom : tame → fs.length + q.2.opens ≤ 3) :
    Leads d tame (allocated w) fs (navigateItem a q.1 nav w) := by
  have hread := h.rep.heap.item hf hq
  have hvalid := (h.frames f hf).items q hq
  have hfits := h.roles f hf q hq
  simp only [navigateItem, hread, bind, Except.bind]
  obtain ⟨p, item⟩ := q
  cases item with
  | default label action =>
      simp only
      split_ifs
      · exact runAction_leads a action h hfits hroom
      · exact h.leads
  | keymap select =>
      exact navigateSelect_leads h hread hvalid (fun _ hs => ⟨hs, trivial, rfl⟩)
        (fun _ _ _ hw => setKeymap_leads _ hw) nav
  | stripControl select =>
      exact navigateSelect_leads h hread hvalid (fun _ hs => ⟨hs, trivial, rfl⟩)
        (fun _ _ _ hw => (hw.assignStrip a _ _).leads) nav
  | checkbox label value =>
      simp only [navigateCheckbox]
      split_ifs
      · exact (h.writeItem_leads (y := .checkbox label (!value)) hread trivial trivial rfl).bind
          fun _ _ hw => (hw.assignStrip a _ _).leads
      · exact h.leads
  | midiValue r => exact navigateMidiValue_leads a r nav h
  | device label index => exact bluetoothConnectNav_leads index nav h

end Items

/-- The menu on top has no items. -/
def topMenuEmpty (w : World) : Bool :=
  match w.current with
  | none => false
  | some p =>
      match w.layers.read p with
      | .ok ⟨.menu menu, _⟩ =>
          match w.rest.heap.menus.read menu with
          | .ok self => self.length == 0
          | .error _ => false
      | _ => false

/-- The event hands an input to an item of a menu without items. -/
def Strays (w : World) : Event → Bool
  | .navigate .left => topMenuEmpty w
  | .navigate .right => topMenuEmpty w
  | .navigate .enter => topMenuEmpty w
  | _ => false

section Navigation
variable {d : Option Element} {tame : Prop} {f : Frame Item} {fs : List (Frame Item)} {w : World}

theorem topMenuEmpty_iff (h : Sane d tame (f :: fs) w) : topMenuEmpty w = true ↔ f.items = [] := by
  have hmem : f ∈ f :: fs := List.mem_cons_self ..
  have hlt : f.items.length < 256 := Nat.lt_of_le_of_lt (h.frames f hmem).short (by decide)
  obtain ⟨hcurrent, hread⟩ := Stacked.read (p := f.layer) (e := Element.menu f.menu)
    h.rep.stacked
  simp only [topMenuEmpty, hcurrent, hread, h.rep.heap.menu hmem, beq_iff_eq,
    ← UInt8.toNat_inj, f.length_toNat hlt, UInt8.toNat_zero, List.length_eq_zero_iff]

theorem Good.writeMenu (h : Good d tame (f :: fs) w) (index scroll : UInt8)
    (hindex : index.toNat < f.items.length ∨ f.items = []) :
    ∃ w', writeMenu f.menu { f.record with index := index, scroll := scroll } w = .ok w' ∧
      Good d tame ({ f with index := index, scroll := scroll } :: fs) w' ∧
      allocated w' = allocated w := by
  obtain ⟨menus, hmenus, hsize, hrep⟩ := h.rep.heap.moved index scroll
  have hok := h.frames f (List.mem_cons_self ..)
  have hrest : ∀ g ∈ fs, g ∈ f :: fs := fun g hg => List.mem_cons_of_mem f hg
  refine ⟨{ w with rest := { w.rest with heap := { w.rest.heap with menus := menus } } }, ?_,
    ⟨⟨⟨h.rep.stacked.withRest _, hrep⟩, h.default, ?_, h.bounded⟩, ?_, h.ble⟩, ?_⟩
  · simp only [Menus.writeMenu, hmenus, bind, Except.bind]
    rfl
  · exact List.forall_mem_cons.mpr ⟨⟨hok.short, hindex, hok.items⟩,
      fun g hg => h.frames g (hrest g hg)⟩
  · exact List.forall_mem_cons.mpr ⟨h.roles f (List.mem_cons_self ..),
      fun g hg => h.roles g (hrest g hg)⟩
  · simp only [allocated, marks, MenuHeap.sizes, hsize]

/-- The cursor stays on an item, whichever way it moves. -/
theorem Good.navigateMenu_move (a : Answers) (h : Good d tame (f :: fs) w) (move : Move) :
    ∃ w', navigateMenu a f.menu move.nav w = .ok w' ∧
      Good d tame (f.moved (move.on f.record) :: fs) w' ∧ allocated w' = allocated w := by
  have hmem : f ∈ f :: fs := List.mem_cons_self ..
  have hlength := f.length_toNat (Nat.lt_of_le_of_lt (h.frames f hmem).short (by decide))
  have hindex : (move.on f.record).index.toNat < f.items.length ∨ f.items = [] := by
    refine (h.frames f hmem).index.imp_left fun hlt => ?_
    have hup := menuUp_index f.record
    have hdown := menuDown_index f.record
    have hrecord : f.record.index.toNat = f.index.toNat := rfl
    cases move <;> simp only [Move.on] <;> omega
  obtain ⟨w', hwrite, hgood⟩ :=
    h.writeMenu (move.on f.record).index (move.on f.record).scroll hindex
  refine ⟨w', ?_, hgood⟩
  cases move <;> simp only [Move.nav, navigateMenu, h.rep.heap.menu hmem, bind, Except.bind] <;>
    exact hwrite

theorem navigateMenu_move_leads (a : Answers) (h : Good d tame (f :: fs) w) (move : Move) :
    Leads d tame (allocated w) (f :: fs) (navigateMenu a f.menu move.nav w) := by
  obtain ⟨w', hw', hgood, hmarks⟩ := h.navigateMenu_move a move
  exact ⟨w', _, hw', hgood, .same hmarks rfl⟩

/-- Any other input goes to the item under the cursor. -/
theorem navigateMenu_item (a : Answers) (h : Good d tame (f :: fs) w) {nav : Nav}
    (hup : nav ≠ .up) (hdown : nav ≠ .down) :
    navigateMenu a f.menu nav w =
      readSlot a.stray f.slots f.index.toNat >>= fun p => navigateItem a p nav w := by
  have hmem : f ∈ f :: fs := List.mem_cons_self ..
  cases nav with
  | up => exact (hup rfl).elim
  | down => exact (hdown rfl).elim
  | _ =>
      simp only [navigateMenu, h.rep.heap.menu hmem, Frame.record_items, h.rep.heap.array hmem,
        bind, Except.bind]
      rfl

theorem navigateMenu_leads (a : Answers) (h : Good d tame (f :: fs) w) {nav : Nav}
    (hnav : nav = .up ∨ nav = .down ∨ f.items ≠ []) :
    Leads d tame (allocated w) (f :: fs) (navigateMenu a f.menu nav w) := by
  by_cases hup : nav = .up
  · subst hup
    exact navigateMenu_move_leads a h .up
  by_cases hdown : nav = .down
  · subst hdown
    exact navigateMenu_move_leads a h .down
  have hmem : f ∈ f :: fs := List.mem_cons_self ..
  have hitems : f.items ≠ [] := (hnav.resolve_left hup).resolve_left hdown
  have hlt := (h.frames f hmem).index.resolve_right hitems
  rw [navigateMenu_item a h hup hdown, f.readSlot_item hlt]
  refine navigateItem_leads a nav h hmem (List.getElem_mem hlt) fun ht => ?_
  exact (h.bounded ht).2.1 _ (List.getElem_mem hlt)

/-- A menu without items hands the input to whatever lies behind its array. If
that is a live item, only the bound on the layers can suffer. -/
theorem navigateMenu_strays (a : Answers) (h : Good d tame (f :: fs) w) (htame : ¬ tame)
    (hitems : f.items = []) {nav : Nav} (hup : nav ≠ .up) (hdown : nav ≠ .down) :
    Leads d tame (allocated w) (f :: fs) (navigateMenu a f.menu nav w) ∨
      ∃ fault, navigateMenu a f.menu nav w = .error fault := by
  rw [navigateMenu_item a h hup hdown, f.readSlot_stray (by simp [hitems])]
  cases a.stray with
  | none => exact .inr ⟨_, rfl⟩
  | some p =>
      cases hread : w.rest.heap.items.read p with
      | error fault =>
          refine .inr ⟨fault, ?_⟩
          simp only [navigateItem, hread, bind, Except.bind]
      | ok item =>
          obtain ⟨g, hg, hq⟩ := List.mem_flatMap.mp (h.rep.heap.items.mem_of_read hread)
          exact .inl (navigateItem_leads a nav h hg hq fun ht => (htame ht).elim)

end Navigation

section Events
variable {d : Option Element} {tame : Prop} {f : Frame Item} {fs : List (Frame Item)} {w : World}

theorem dispatch_menu (h : Good d tame (f :: fs) w) (nullElement : Element) (nav : Nav) :
    dispatch elements nullElement nav w = .ok (match nav with
      | .return => .pop
      | .close => .clear
      | _ => .invoke (some f.layer) (.menu f.menu) (.menu f.menu)) := by
  have hnav : elements.hasNavigate (.menu f.menu) w.rest = .ok true := by
    simp only [elements, h.rep.heap.menu (f := f) (List.mem_cons_self ..), bind, Except.bind]
    rfl
  exact dispatch_layer (p := f.layer) h.rep.stacked hnav nullElement nav

/-- RETURN removes exactly the top layer. -/
theorem step_return (h : Good d tame (f :: fs) w) (a : Answers) :
    ∃ w', step w (a, .navigate .return) = .ok w' ∧ Good d tame fs w' ∧
      allocated w' = allocated w := by
  obtain ⟨v, hv, hgood, hmarks⟩ := h.pop
  simp only [step, uiNavigate, dispatch_menu h, hv, bind, Except.bind]
  rw [← hmarks]
  exact hgood.render

/-- CLOSE removes all layers. -/
theorem step_close (h : Good d tame (f :: fs) w) (a : Answers) :
    ∃ w', step w (a, .navigate .close) = .ok w' ∧ Good d tame [] w' ∧
      allocated w' = allocated w := by
  obtain ⟨v, hv, hgood, -, hmarks⟩ := h.toSane.clear_good h.ble
  simp only [step, uiNavigate, dispatch_menu h, hv, bind, Except.bind]
  rw [← hmarks]
  exact hgood.render

theorem step_menu (h : Good d tame (f :: fs) w) (a : Answers) {nav : Nav} (hr : nav ≠ .return)
    (hc : nav ≠ .close) :
    step w (a, .navigate nav) = navigateMenu a f.menu nav w >>= uiRender elements := by
  simp only [step, uiNavigate, dispatch_menu h]
  cases nav with
  | «return» => exact (hr rfl).elim
  | close => exact (hc rfl).elim
  | _ => rfl

theorem step_status_leads (h : Good d tame [] w) (a : Answers) (nav : Nav) :
    Leads d tame (allocated w) [] (step w (a, .navigate nav)) := by
  rcases h.default with rfl | rfl
  · simp only [step, uiNavigate, dispatch_empty h.rep.stacked, bind, Except.bind]
    exact h.leads
  · simp only [step, uiNavigate, dispatch_default (E := elements) (b := true) h.rep.stacked rfl,
      if_true, bind, Except.bind, Menus.navigate]
    refine Leads.bind (k := uiRender elements) ?_ fun _ _ hw => hw.render_leads
    cases nav with
    | close => exact pushMenuMain_leads h
    | «return» => exact pushMenuMain_leads h
    | _ => exact h.leads

theorem step_link_leads (h : Good d tame fs w) (a : Answers) {e : Event}
    (he : ∀ nav, e ≠ .navigate nav) : Leads d tame (allocated w) fs (step w (a, e)) := by
  cases e with
  | navigate nav => exact (he nav rfl).elim
  | serverConnected handle =>
      simp only [step, serverConnected]
      split_ifs with hs
      · exact (h.withRest (sendAllMidiValues a
          (onBle (fun b => { b with conHandle := handleOf handle }) w)).rest rfl rfl rfl
          (h.ble.setHandle hs _)).render_leads
      · exact h.leads
  | serverDisconnected =>
      simp only [step, serverDisconnected]
      split_ifs with hs
      · exact (h.withRest (onBle (fun b => { b with conHandle := none }) w).rest rfl rfl
          rfl (h.ble.setHandle hs _)).render_leads
      · exact h.leads
  | clientStatus ready =>
      simp only [step, statusCallback]
      cases ready with
      | false => exact h.render_leads
      | true =>
          exact (h.withRest (sendAllMidiValues a w).rest rfl rfl rfl h.ble).render_leads

/-- Every event that does not stray leads from a good state to a good state. -/
theorem step_leads (h : Good d tame fs w) (e : Answers × Event) (he : Strays w e.2 = false) :
    Leads d tame (allocated w) fs (step w e) := by
  obtain ⟨a, e⟩ := e
  cases e with
  | navigate nav =>
      cases fs with
      | nil => exact step_status_leads h a nav
      | cons f fs =>
          by_cases hr : nav = .return
          · subst hr
            obtain ⟨w', hw', hgood, hmarks⟩ := step_return h a
            exact ⟨w', fs, hw', hgood, .drop (f :: fs) hmarks 1⟩
          by_cases hc : nav = .close
          · subst hc
            obtain ⟨w', hw', hgood, hmarks⟩ := step_close h a
            exact ⟨w', [], hw', hgood, .clear hmarks⟩
          rw [step_menu h a hr hc]
          refine (navigateMenu_leads a h ?_).bind fun _ _ hw => hw.render_leads
          have hitems : topMenuEmpty w = false → f.items ≠ [] := fun hf hnil => by
            simp [(topMenuEmpty_iff h.toSane).mpr hnil] at hf
          cases nav with
          | up => exact .inl rfl
          | down => exact .inr (.inl rfl)
          | «return» => exact (hr rfl).elim
          | close => exact (hc rfl).elim
          | _ => exact .inr (.inr (hitems he))
  | _ => exact step_link_leads h a (by simp)

theorem Sane.of_strays (h : Sane d tame fs w) {e : Event} (he : Strays w e = true) :
    ∃ f gs nav, fs = f :: gs ∧ f.items = [] ∧ e = .navigate nav ∧ nav ≠ .up ∧ nav ≠ .down ∧
      nav ≠ .return ∧ nav ≠ .close := by
  have htop : topMenuEmpty w = true := by
    unfold Strays at he
    split at he <;> simp_all
  obtain ⟨nav, rfl, hnav⟩ : ∃ nav, e = .navigate nav ∧ nav ≠ .up ∧ nav ≠ .down ∧
      nav ≠ .return ∧ nav ≠ .close := by
    unfold Strays at he
    split at he <;> simp_all
  cases fs with
  | nil =>
      have hcurrent : w.current = none := h.rep.stacked.current
      simp [topMenuEmpty, hcurrent] at htop
  | cons f gs => exact ⟨f, gs, nav, rfl, (topMenuEmpty_iff h).mp htop, rfl, hnav⟩

/-- An event that strays ends in a fault, or in a state that is good but for the
bound on the layers. -/
theorem step_strays (h : Good d tame fs w) (htame : ¬ tame) (e : Answers × Event)
    (he : Strays w e.2 = true) :
    Leads d tame (allocated w) fs (step w e) ∨ ∃ fault, step w e = .error fault := by
  obtain ⟨a, e⟩ := e
  obtain ⟨f, gs, nav, rfl, hitems, rfl, hup, hdown, hr, hc⟩ := h.toSane.of_strays he
  rw [step_menu h a hr hc]
  rcases navigateMenu_strays a h htame hitems hup hdown with hleads | ⟨fault, hfault⟩
  · exact .inl (hleads.bind fun _ _ hw => hw.render_leads)
  · exact .inr ⟨fault, by rw [hfault]; rfl⟩

/-- The read behind the array is a fault of its own where nothing is known about it. -/
theorem step_outOfBounds (h : Good d tame fs w) (e : Answers × Event)
    (he : Strays w e.2 = true) (hstray : e.1.stray = none) : step w e = .error .outOfBounds := by
  obtain ⟨a, e⟩ := e
  obtain ⟨f, gs, nav, rfl, hitems, rfl, hup, hdown, hr, hc⟩ := h.toSane.of_strays he
  change a.stray = none at hstray
  rw [step_menu h a hr hc, navigateMenu_item a h hup hdown,
    f.readSlot_stray (by simp [hitems]), hstray]
  rfl

end Events

section Boot

/-- The default element, which is there if the display answers. -/
def statusElement (displayOk : Bool) : Option Element := if displayOk then some .uiStatus else none

theorem reset_sane (tame : Prop) : Sane none tame [] reset :=
  ⟨⟨boot_stacked _, empty_heapRep⟩, .inl rfl, by simp, fun _ => trivial⟩

theorem displayInit_sane (tame : Prop) (displayOk : Bool) :
    ∃ w, displayInit displayOk reset = .ok w ∧ Sane (statusElement displayOk) tame [] w ∧
      w.rest = reset.rest := by
  cases displayOk with
  | false => exact ⟨reset, rfl, reset_sane tame, rfl⟩
  | true =>
      have hstacked := (reset_sane tame).rep.stacked
      have hinit : Sane (some .uiStatus) tame [] (uiInit .dark .uiStatus reset) :=
        ⟨⟨⟨hstacked.current, hstacked.size, rfl, hstacked.layers⟩, empty_heapRep⟩,
          .inr rfl, by simp, fun _ => trivial⟩
      obtain ⟨w, hw, hsane, hrest, -⟩ := hinit.render
      exact ⟨w, hw, hsane, hrest⟩

theorem midiBleInit_good {d : Option Element} {tame : Prop} {w : World} (a : Answers)
    (h : Sane d tame [] w) (hb : w.rest.ble.Sound) (hs : w.rest.ble.serverInitialized = false)
    (hc : w.rest.ble.clientInitialized = false) :
    ∃ w', midiBleInit a w = .ok w' ∧ Good d tame [] w' := by
  unfold midiBleInit
  cases w.rest.ble.initialState.mode with
  | off => exact ⟨w, rfl, h, by simp, hb⟩
  | server => exact ⟨_, rfl, h.withRest _ rfl, by simp, hb.startServer hs hc a.radio⟩
  | client =>
      obtain ⟨w', hw', hsane, hble, -⟩ := h.clientInit a
        (some (w.rest.ble.initialState.connectedAddrType, w.rest.ble.initialState.connectedAddr))
      exact ⟨w', hw', hsane, by simp, by rw [hble]; exact hb.startClient hs hc a.radio _⟩

/-- The firmware gets to its main loop, with nothing on the stack. -/
theorem bootUp_good (tame : Prop) (a : Answers) (displayOk : Bool) (keymap : Keymap)
    (saved : BleState) :
    ∃ w, bootUp a displayOk keymap saved = .ok w ∧ Good (statusElement displayOk) tame [] w := by
  obtain ⟨v, hv, hsane, hrest⟩ := displayInit_sane tame displayOk
  obtain ⟨u, hu, hsane', hrest', -⟩ :=
    (hsane.withRest { v.rest with keymap := keymap } rfl).render
  have hble : u.rest.ble = Ble.boot := by
    rw [hrest', hrest]
    rfl
  obtain ⟨w, hw, hgood⟩ := midiBleInit_good a
    (hsane'.withRest { u.rest with ble := midiBleSetInitialState saved u.rest.ble } rfl)
    (by rw [hble]; exact boot_sound.setInitial saved) (by rw [hble]; rfl) (by rw [hble]; rfl)
  refine ⟨_, ?_, hgood.assignStrip a (some .mvPitchbend) true⟩
  simp only [bootUp, hv, setKeymap, hu, onBle, hw, bind, Except.bind]
  rfl

end Boot

section Runs

variable {d : Option Element} {tame : Prop} {fs : List (Frame Item)} {w : World}

/-- One event, where nothing is said of stray inputs. -/
theorem step_decides (h : ∃ fs, Good d tame fs w) (e : Answers × Event) :
    Runs.Decides Fault.outOfBounds False (fun w => ∃ fs, Good d tame fs w) (!Strays w e.2)
      (step w e) := by
  obtain ⟨fs, hgood⟩ := h
  cases hs : Strays w e.2 with
  | true => exact .fault False.elim
  | false =>
      obtain ⟨w', fs', hw', hgood', -⟩ := step_leads hgood e hs
      rw [hw']
      exact .ok ⟨fs', hgood'⟩

/-- A run without stray inputs goes through. -/
theorem run_good (es : List (Answers × Event)) (h : Good d tame fs w)
    (hguard : Runs.along step (fun w e => !Strays w e.2) es w = true) :
    ∃ w' fs', run es w = .ok w' ∧ Good d tame fs' w' := by
  obtain ⟨w', hrun, fs', hgood⟩ :=
    (Runs.decides_along (fun e _ _ h => step_decides h e) ⟨fs, h⟩).of_guard hguard
  exact ⟨w', fs', hrun, hgood⟩

/-- An event that goes through has kept the invariant, a stray input or not. -/
theorem step_kept (h : Good d False fs w) (e : Answers × Event) {w' : World}
    (hstep : step w e = .ok w') : ∃ fs', Good d False fs' w' := by
  have hleads : Leads d False (allocated w) fs (step w e) ∨
      ∃ fault, step w e = .error fault := by
    cases hs : Strays w e.2 with
    | false => exact .inl (step_leads h e hs)
    | true => exact step_strays h id e hs
  rcases hleads with ⟨v, gs, hv, hgood, -⟩ | ⟨fault, hfault⟩
  · obtain rfl := Except.ok.inj (hv.symm.trans hstep)
    exact ⟨gs, hgood⟩
  · rw [hfault] at hstep
    cases hstep

theorem run_kept (es : List (Answers × Event)) {w' : World} (h : Good d False fs w)
    (hrun : run es w = .ok w') : ∃ fs', Good d False fs' w' :=
  Runs.foldlM_relates (fun w w' => (∃ fs, Good d False fs w) → ∃ fs, Good d False fs w')
    (fun _ h => h) (fun _ _ _ h h' hs => h' (h hs))
    (fun e _ _ _ hstep ⟨_, hgood⟩ => step_kept hgood e hstep) hrun ⟨fs, h⟩

/-- In every state that a run from the start reaches. -/
theorem reached_good {boot : Answers} {displayOk : Bool} {keymap : Keymap} {saved : BleState}
    {es : List (Answers × Event)} {w : World}
    (hrun : bootUp boot displayOk keymap saved >>= run es = .ok w) :
    ∃ fs, Good (statusElement displayOk) False fs w := by
  obtain ⟨v, hv, hgood⟩ := bootUp_good False boot displayOk keymap saved
  rw [hv] at hrun
  exact run_kept es hgood hrun

end Runs

end Keytar.Menus
