import Keytar.SendHistory
import Keytar.Settings
import Mathlib.Logic.Relation

/-!
# The effects of an input

An input may clear the stack, switch roles and build a menu, all within one call. To the
state behind the user interface that is a sequence of a few kinds of changes. What each
of these keeps, every input keeps.
-/
namespace Keytar.MenuEffects
open AnalogStrip KeyboardMatrix Memory Midi MidiBle MidiValues SendHistory Settings Ui Menus
open Relation (ReflTransGen)
open Runs (Keeps)

/-- The server's link is as before, or gone. -/
def Loses (c c' : Option ConHandle) : Prop := c' = c ∨ c' = none

theorem Loses.refl (c : Option ConHandle) : Loses c c := .inl rfl

theorem Loses.trans {a b c : Option ConHandle} (h : Loses a b) (h' : Loses b c) : Loses a c := by
  rcases h' with rfl | rfl
  · exact h
  · exact .inr rfl

/-- The values that a menu changes. -/
def envelopeValues : List MidiValueRef := [.mvAttack, .mvDecay, .mvSustain, .mvRelease]

/-- A menu is freed, or built, or the roles change, with what is answered meanwhile. -/
inductive Upkeep (a : Answers) : App → App → Prop where
  | free {x : App} {p : Ptr} {heap : MenuHeap Item} (h : freeMenu p x.heap = .ok heap) :
      Upkeep a x { x with heap := heap }
  | fill {x : App} {heap : MenuHeap Item} (itemCapacity : UInt8) (items : List Item)
      (hitems : a.deviceCount ≠ 0 → items ≠ [])
      (hvalues : ∀ r, Item.midiValue r ∈ items → r ∈ envelopeValues)
      (h : items.foldlM (fun heap item => addItem (newMenu itemCapacity x.heap).1 item heap)
        (newMenu itemCapacity x.heap).2 = .ok heap) : Upkeep a x { x with heap := heap }
  | roles {x : App} (f : Ble → Ble) (hf : Loses x.ble.conHandle (f x.ble).conHandle) :
      Upkeep a x { x with ble := f x.ble }

/-- One change to the state behind the user interface. -/
inductive Effect (a : Answers) : App → App → Prop where
  | upkeep {x y : App} (h : Upkeep a x y) : Effect a x y
  | item {x : App} {p : Ptr} {item : Item} {items : Heap Item} (hitem : control item ≠ none)
      (h : x.heap.items.write p item = .ok items) :
      Effect a x { x with heap := { x.heap with items := items } }
  | cursor {x : App} {p : Ptr} {self menu : Menu} {menus : Heap Menu}
      (hself : x.heap.menus.read p = .ok self) (hlength : menu.length = self.length)
      (h : x.heap.menus.write p menu = .ok menus) :
      Effect a x { x with heap := { x.heap with menus := menus } }
  | keymap {x : App} (m : Keymap) : Effect a x { x with keymap := m }
  | strip {x : App} (s : Strip) : Effect a x { x with strip := s }
  | values {x : App} (op : SendHistory.Op) :
      Effect a x { x with midi := op.run (callback (links a.radio x.ble) a.accepts) x.midi }

/-- Where the operation returns, it has taken steps of the relation. -/
abbrev Steps (R : App → App → Prop) (w : World) (r : Except Fault World) : Prop :=
  Keeps (fun w w' : World => ReflTransGen R w.rest w'.rest) w r

/-- Nothing but the menus and the roles has changed. -/
abbrev Upholds (a : Answers) : World → Except Fault World → Prop := Steps (Upkeep a)

abbrev Does (a : Answers) : World → Except Fault World → Prop := Steps (Effect a)

section Rules
variable {R : App → App → Prop} {a : Answers} {w v : World} {r : Except Fault World}
  {k : World → Except Fault World}

theorem Steps.self (w : World) : Steps R w (.ok w) := Keeps.ok .refl

theorem Steps.after (h : ReflTransGen R w.rest v.rest) (hr : Steps R v r) : Steps R w r :=
  Keeps.after (fun _ _ _ => ReflTransGen.trans) h hr

theorem Steps.bind (h : Steps R w r) (hk : ∀ v, Steps R v (k v)) : Steps R w (r >>= k) :=
  Keeps.bind (fun _ _ _ => ReflTransGen.trans) h fun v _ => hk v

theorem Upholds.does (h : Upholds a w r) : Does a w r :=
  fun w' hw' => (h w' hw').lift id fun _ _ => .upkeep

theorem render_steps (w : World) : Steps R w (uiRender elements w) := by
  intro w' hw'
  rw [uiRender_rest elements hw']

end Rules

section Operations
variable {a : Answers}

theorem free_upkeep {e : Element} {x y : App} (h : elements.free e x = .ok y) :
    ReflTransGen (Upkeep a) x y := by
  cases e with
  | uiStatus =>
      obtain rfl := Except.ok.inj h
      exact .refl
  | menu p =>
      obtain ⟨heap, hheap, h⟩ := Runs.bind_ok h
      obtain rfl := Except.ok.inj h
      exact .single (.free hheap)

theorem pop_upholds (w : World) : Upholds a w (uiPop elements w) := by
  intro w' hw'
  unfold uiPop at hw'
  split at hw'
  · obtain rfl := Except.ok.inj hw'
    exact .refl
  · obtain ⟨layer, -, hw'⟩ := Runs.bind_ok hw'
    obtain ⟨rest, hfree, hw'⟩ := Runs.bind_ok hw'
    obtain ⟨layers, -, hw'⟩ := Runs.bind_ok hw'
    obtain rfl := Except.ok.inj hw'
    exact free_upkeep hfree

theorem clear_upholds (w : World) : Upholds a w (uiClear elements w) := by
  have hloop : ∀ n w, Upholds a w (clearLoop elements n w) := by
    intro n
    induction n with
    | zero => exact pop_upholds
    | succ n ih =>
        intro w
        rw [clearLoop]
        split_ifs
        · exact Steps.self w
        · exact Steps.bind (pop_upholds w) ih
  exact hloop _ w

theorem push_upholds {itemCapacity : UInt8} {items : List Item}
    (hitems : a.deviceCount ≠ 0 → items ≠ [])
    (hvalues : ∀ r, Item.midiValue r ∈ items → r ∈ envelopeValues) (w : World) :
    Upholds a w (pushMenuWith itemCapacity items w) := by
  intro w' hw'
  obtain ⟨heap, hheap, hrest⟩ := pushMenuWith_rest hw'
  rw [hrest]
  exact .single (.fill itemCapacity items hitems hvalues hheap)

theorem pushMenuBluetooth_upholds (a : Answers) (w : World) :
    Upholds a w (pushMenuBluetooth a w) := by
  refine push_upholds (fun _ => ?_) (fun r hr => ?_) w
  · unfold bluetoothItems
    split_ifs <;> exact List.cons_ne_nil _ _
  · unfold bluetoothItems at hr
    split_ifs at hr <;> simp at hr

theorem pushMenuEnvelope_upholds (w : World) : Upholds a w (pushMenuEnvelope w) :=
  push_upholds (fun _ => List.cons_ne_nil _ _) (fun r hr => by simpa [envelopeValues] using hr) w

theorem pushMenuBluetoothConnect_upholds (a : Answers) (w : World) :
    Upholds a w (pushMenuBluetoothConnect a w) := by
  refine push_upholds (fun hcount hnil => hcount ?_) (fun r hr => ?_) w
  · have hzero : min a.deviceCount.toNat 16 = 0 := by
      rw [← deviceCount_toNat]
      simpa using hnil
    refine UInt8.toNat_inj.mp ?_
    rw [UInt8.toNat_zero]
    omega
  · obtain ⟨i, -, hi⟩ := List.mem_map.mp hr
    cases hi

theorem pushMenuMain_upholds (w : World) : Upholds a w (pushMenuMain w) := by
  intro w' hw'
  obtain ⟨keymap, -, hw'⟩ := Runs.bind_ok hw'
  obtain ⟨strip, -, hw'⟩ := Runs.bind_ok hw'
  exact push_upholds (fun _ => List.cons_ne_nil _ _) (fun r hr => by simp at hr) w w' hw'

end Operations

section Actions
variable {a : Answers} {w : World}

theorem onBle_upkeep {f : Ble → Ble} (hf : Loses w.rest.ble.conHandle (f w.rest.ble).conHandle) :
    ReflTransGen (Upkeep a) w.rest (onBle f w).rest :=
  .single (.roles f hf)

theorem clientInitWithAddr_handle (r : Radio) (addr : Option (ℤ × Addr)) (b : Ble) :
    (clientInitWithAddr r addr b).2.conHandle = b.conHandle := by
  unfold clientInitWithAddr
  split_ifs
  · rfl
  · cases addr <;> rfl

theorem midiBleServerInit_handle (r : Radio) (b : Ble) :
    (midiBleServerInit r b).conHandle = b.conHandle := by
  unfold midiBleServerInit
  split_ifs <;> rfl

theorem clientInit_upholds (addr : Option (ℤ × Addr)) (w : World) :
    Upholds a w (midiBleClientInitWithAddr a addr w) := by
  have hble : ReflTransGen (Upkeep a) w.rest
      (onBle (fun b => (clientInitWithAddr a.radio addr b).2) w).rest :=
    onBle_upkeep (.inl (clientInitWithAddr_handle a.radio addr _))
  refine Steps.after hble ?_
  simp only [midiBleClientInitWithAddr]
  split_ifs
  · exact render_steps _
  · exact Steps.self _

theorem clientDeinit_upholds (w : World) : Upholds a w (midiBleClientDeinit w) :=
  Steps.after (onBle_upkeep (f := clientDeinit) (.refl _)) (render_steps _)

theorem clientStopped_upholds {k : World → Except Fault World} (hk : ∀ v, Upholds a v (k v))
    (w : World) :
    Upholds a w (if w.rest.ble.clientInitialized then midiBleClientDeinit w >>= k
      else pure w >>= k) := by
  split_ifs
  · exact Steps.bind (clientDeinit_upholds w) hk
  · exact Steps.bind (Steps.self w) hk

theorem serverStopped_upkeep (w : World) : ReflTransGen (Upkeep a) w.rest
    (if w.rest.ble.serverInitialized then onBle midiBleDeinit w else w).rest := by
  split_ifs
  · exact onBle_upkeep (.inr rfl)
  · exact .refl

theorem clear_onBle_upholds {f : Ble → Ble}
    (hf : ∀ w : World, Loses w.rest.ble.conHandle (f w.rest.ble).conHandle) (w : World) :
    Upholds a w (uiClear elements (onBle f w)) :=
  Steps.after (onBle_upkeep (hf w)) (clear_upholds _)

/-- The action of an item leaves the settings and the values alone. -/
theorem runAction_upholds (action : Action) (w : World) : Upholds a w (runAction a action w) := by
  cases action with
  | pushMenuBluetooth => exact pushMenuBluetooth_upholds a w
  | pushMenuEnvelope => exact pushMenuEnvelope_upholds w
  | pushMenuBluetoothConnect => exact pushMenuBluetoothConnect_upholds a w
  | disconnect => exact clear_onBle_upholds (fun _ => .refl _) w
  | midiBleSetStateAsInitial =>
      exact Keeps.ok (onBle_upkeep (f := midiBleSetStateAsInitial a.radio) (.refl _))
  | startServer =>
      exact clientStopped_upholds
        (clear_onBle_upholds fun w => .inl (midiBleServerInit_handle a.radio _)) w
  | stop =>
      exact Steps.after (serverStopped_upkeep w) (clientStopped_upholds clear_upholds _)
  | startClient =>
      refine Steps.after (serverStopped_upkeep w)
        (Steps.bind (clientInit_upholds none _) fun v => ?_)
      exact Steps.bind (clear_upholds v) (pushMenuBluetooth_upholds a)

theorem bluetoothConnectNav_upholds (index : UInt8) (nav : Nav) (w : World) :
    Upholds a w (bluetoothConnectNav index nav w) := by
  simp only [bluetoothConnectNav]
  split_ifs
  · exact clear_onBle_upholds (fun _ => .refl _) w
  · exact Steps.self w

theorem assignStrip_effects (mv : Option MidiValueRef) (reset : Bool) (w : World) :
    ReflTransGen (Effect a) w.rest (assignStrip a mv reset w).rest := by
  have hstrip : ReflTransGen (Effect a) w.rest { w.rest with strip := ⟨mv, reset⟩ } :=
    .single (.strip ⟨mv, reset⟩)
  cases hold : w.rest.strip.midiValue with
  | none =>
      simp only [assignStrip, analogStripAssign, hold]
      exact hstrip
  | some r =>
      by_cases hreset : w.rest.strip.resetOnRelease = true
      · simp only [assignStrip, analogStripAssign, hold, if_pos hreset]
        exact hstrip.tail (.values (.set r (w.rest.midi.values r).defaultValue false))
      · simp only [assignStrip, analogStripAssign, hold, if_neg hreset]
        exact hstrip

end Actions

section Inputs
variable {a : Answers}

theorem setMidiValue_does (r : MidiValueRef) (value : UInt16) (setSetting : Bool) (w : World) :
    Does a w (uiRender elements (setMidiValue a r value setSetting w)) :=
  Steps.after (.single (.values (.set r value setSetting))) (render_steps _)

theorem navigateMidiValue_does (r : MidiValueRef) (nav : Nav) (w : World) :
    Does a w (navigateMidiValue a r nav w) := by
  cases nav with
  | left | right =>
      simp only [navigateMidiValue]
      split_ifs
      · exact Steps.self w
      · exact setMidiValue_does r _ true w
  | _ => exact Steps.self w

theorem writeItem_does (p : Ptr) {item : Item} (hitem : control item ≠ none) (w : World) :
    Does a w (writeItem p item w) := by
  intro w' hw'
  obtain ⟨items, hitems, hw'⟩ := Runs.bind_ok hw'
  obtain rfl := Except.ok.inj hw'
  exact .single (.item hitem hitems)

theorem writeMenu_does {p : Ptr} {self : Menu} (menu : Menu) {w : World}
    (hself : w.rest.heap.menus.read p = .ok self) (hlength : menu.length = self.length) :
    Does a w (writeMenu p menu w) := by
  intro w' hw'
  obtain ⟨menus, hmenus, hw'⟩ := Runs.bind_ok hw'
  obtain rfl := Except.ok.inj hw'
  exact .single (.cursor hself hlength hmenus)

theorem navigateSelect_does {α : Type} {p : Ptr} {item : Select α → Item}
    {onChange : α → World → Except Fault World} (hitem : ∀ select, control (item select) ≠ none)
    (hchange : ∀ x w, Does a w (onChange x w)) (self : Select α) (nav : Nav) (w : World) :
    Does a w (navigateSelect p item onChange self nav w) := by
  intro w' hw'
  obtain ⟨after, -, hw'⟩ := Runs.bind_ok hw'
  cases hoption : after.2 with
  | none =>
      rw [hoption] at hw'
      exact Steps.self w w' hw'
  | some option =>
      rw [hoption] at hw'
      refine Steps.bind (writeItem_does p (hitem after.1) w) (fun v => ?_) w' hw'
      exact Steps.bind (hchange option v) render_steps

theorem setKeymap_does (m : Keymap) (w : World) : Does a w (setKeymap m w) :=
  Steps.after (.single (.keymap m)) (render_steps _)

theorem navigateItem_does (p : Ptr) (nav : Nav) (w : World) :
    Does a w (navigateItem a p nav w) := by
  intro w' hw'
  obtain ⟨item, -, hw'⟩ := Runs.bind_ok hw'
  cases item with
  | default label action =>
      simp only at hw'
      split_ifs at hw'
      · exact (runAction_upholds action w).does w' hw'
      · exact Steps.self w w' hw'
  | keymap select =>
      have hitem (select : Select Keymap) : Settings.control (.keymap select) ≠ none :=
        Option.some_ne_none _
      exact navigateSelect_does hitem setKeymap_does select nav w w' hw'
  | stripControl select =>
      have hitem (select : Select MidiValueRef) : Settings.control (.stripControl select) ≠ none :=
        Option.some_ne_none _
      exact navigateSelect_does hitem (fun x v => Keeps.ok (assignStrip_effects _ _ v)) select nav w
        w' hw'
  | checkbox label value =>
      simp only [navigateCheckbox] at hw'
      split_ifs at hw'
      · have hitem : Settings.control (.checkbox label (!value)) ≠ none := Option.some_ne_none _
        refine Steps.bind (writeItem_does p hitem w) (fun v => ?_) w' hw'
        exact Keeps.ok (assignStrip_effects _ _ v)
      · exact Steps.self w w' hw'
  | midiValue r => exact navigateMidiValue_does r nav w w' hw'
  | device label index => exact (bluetoothConnectNav_upholds index nav w).does w' hw'

theorem navigate_does (owner self : Element) (nav : Nav) (w : World) :
    Does a w (Menus.navigate a owner self nav w) := by
  intro w' hw'
  cases owner with
  | uiStatus =>
      cases nav with
      | close | «return» => exact (pushMenuMain_upholds w).does w' hw'
      | _ => exact Steps.self w w' hw'
  | menu p =>
      cases self with
      | uiStatus => cases hw'
      | menu p =>
          obtain ⟨menu, hmenu, hw'⟩ := Runs.bind_ok hw'
          cases nav with
          | up => exact writeMenu_does (menuUp menu) hmenu rfl w' hw'
          | down => exact writeMenu_does (menuDown menu) hmenu rfl w' hw'
          | _ =>
              obtain ⟨slots, -, hw'⟩ := Runs.bind_ok hw'
              obtain ⟨item, -, hw'⟩ := Runs.bind_ok hw'
              exact navigateItem_does item _ w w' hw'

/-- All that an input does to the state behind the user interface. -/
theorem step_navigate_does (nav : Nav) (w : World) :
    Does a w (Menus.step w (a, .navigate nav)) := by
  intro w' hw'
  obtain ⟨decision, -, hw'⟩ := Runs.bind_ok hw'
  cases decision with
  | ignore => exact Steps.self w w' hw'
  | pop => exact Steps.bind (pop_upholds w).does render_steps w' hw'
  | clear => exact Steps.bind (clear_upholds w).does render_steps w' hw'
  | invoke followed owner self =>
      exact Steps.bind (navigate_does owner self nav w) render_steps w' hw'

theorem displayInit_does (displayOk : Bool) (w : World) :
    Does a w (Menus.displayInit displayOk w) := by
  unfold Menus.displayInit
  split_ifs
  · exact Steps.after .refl (render_steps (uiInit .dark .uiStatus w))
  · exact Steps.self w

theorem midiBleInit_upholds (w : World) : Upholds a w (midiBleInit a w) := by
  unfold midiBleInit
  split
  · exact Keeps.ok (onBle_upkeep (.inl (midiBleServerInit_handle a.radio _)))
  · exact clientInit_upholds _ w
  · exact Steps.self w

/-- And so does `main` before its loop. -/
theorem bootUp_does (displayOk : Bool) (keymap : Keymap) (saved : BleState) :
    Does a reset (bootUp a displayOk keymap saved) := by
  refine Steps.bind (displayInit_does displayOk reset) fun v =>
    Steps.bind (setKeymap_does keymap v) fun u => ?_
  have hsaved : ReflTransGen (Upkeep a) u.rest (onBle (midiBleSetInitialState saved) u).rest :=
    onBle_upkeep (.refl _)
  have hinit := Upholds.does (Steps.after hsaved (midiBleInit_upholds _))
  exact Steps.bind hinit fun w => Keeps.ok (assignStrip_effects _ _ w)

end Inputs

end Keytar.MenuEffects
