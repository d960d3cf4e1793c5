import Keytar.Lib.Views
import Keytar.MenuSteps

/-!
# What the menus look at

A view of the world shows something of the display and of the state behind the user
interface. An input that acts on what is shown takes the same course whatever is hidden,
and what it does to the view is the same. This is so behind a veil over the controller
values, the wires, the server's link and the picture on the display.
-/
namespace Keytar.MenuViews
open AnalogStrip KeyboardMatrix Memory Midi MidiBle MidiValues Ui Menus Views

def hideLink (b : Ble) : Ble := { b with conHandle := none }

def veilApp (a : App) : App := { a with midi := boot idle, ble := hideLink a.ble }

/-- The world with a blank display, values as at the start and no link. -/
def veil (w : World) : World := { w with
  display := w.display.map fun _ => .dark
  rest := veilApp w.rest }

/-- An operation that does the same in front of the veil whatever is behind. -/
abbrev Blind (f : World → Except Fault World) : Prop := Respects veil f

/-- A change of the roles does not look at the link. -/
def Unlinked (f : Ble → Ble) : Prop := ∀ b, hideLink (f (hideLink b)) = hideLink (f b)

/-- The server's deinitialisation where it is up. -/
def deinitServer (w : World) : World :=
  if w.rest.ble.serverInitialized then onBle midiBleDeinit w else w

/-- What `δ` shows of the display and `γ` of the state behind. -/
def seen (δ : Screen → Screen) (γ : App → App) (w : World) : World := { w with
  display := w.display.map δ
  rest := γ w.rest }

/-- What the menus act on is shown, but for the controller values. -/
structure Exposes (δ : Screen → Screen) (γ : App → App) : Prop where
  screen : ∀ s, δ (δ s) = δ s
  drawn : ∀ e a, (elements.render e (γ a)).map δ = (elements.render e a).map δ
  heap : ∀ a, (γ a).heap = a.heap
  keymap : ∀ a, (γ a).keymap = a.keymap
  strip : ∀ a, (γ a).strip = a.strip
  ble : ∀ a, hideLink (γ a).ble = hideLink a.ble
  setHeap : ∀ a heap, γ { γ a with heap := heap } = γ { a with heap := heap }
  setKeymap : ∀ a keymap, γ { γ a with keymap := keymap } = γ { a with keymap := keymap }
  setBle : ∀ {f}, Unlinked f → ∀ a, γ { γ a with ble := f (γ a).ble } = γ { a with ble := f a.ble }
  assign : ∀ a mv reset w, γ (assignStrip a mv reset (seen δ γ w)).rest =
    γ (assignStrip a mv reset w).rest

section Views
variable {δ : Screen → Screen} {γ : App → App}

theorem Exposes.rest (h : Exposes δ γ) (a : App) : γ (γ a) = γ a := by
  have hsame := h.setHeap a (γ a).heap
  rw [h.heap] at hsame
  nth_rewrite 1 [← h.heap a] at hsame
  exact hsame

/-- What is shown may be set before or after it is looked at. -/
theorem Exposes.set (h : Exposes δ γ) (w : World) (current : Option Ptr) (stackSize : UInt8)
    (layers : Memory.Heap (Layer Element)) {rest rest' : App} (hrest : γ rest' = γ rest) :
    seen δ γ { seen δ γ w with
      current := current, stackSize := stackSize, layers := layers, rest := rest' } =
    seen δ γ { w with
      current := current, stackSize := stackSize, layers := layers, rest := rest } := by
  obtain ⟨_, _, _, display, _, _⟩ := w
  cases display with
  | none => simp only [seen, hrest, Option.map_none]
  | some screen => simp only [seen, hrest, h.screen, Option.map_some]

theorem Exposes.withRest (h : Exposes δ γ) (w : World) {rest rest' : App}
    (hrest : γ rest' = γ rest) :
    seen δ γ { seen δ γ w with rest := rest' } = seen δ γ { w with rest := rest } :=
  h.set w w.current w.stackSize w.layers hrest

theorem Exposes.twice (h : Exposes δ γ) (w : World) : seen δ γ (seen δ γ w) = seen δ γ w :=
  h.set w w.current w.stackSize w.layers (h.rest w.rest)

theorem Exposes.pure (h : Exposes δ γ) :
    Respects (seen δ γ) fun w => (.ok w : Except Fault World) := .ok h.twice

/-- A redraw. -/
theorem Exposes.render (h : Exposes δ γ) : Respects (seen δ γ) (uiRender elements) := by
  intro w
  have hshown : renderedElement (seen δ γ w) = renderedElement w := rfl
  cases hdisplay : w.display with
  | none =>
      have hseen : (seen δ γ w).display = none := by simp [seen, hdisplay]
      simp only [uiRender, hdisplay, hseen]
      exact h.pure w
  | some old =>
      have hseen : (seen δ γ w).display = some (δ old) := by simp [seen, hdisplay]
      simp only [uiRender, hdisplay, hseen, hshown]
      cases renderedElement w with
      | error e => rfl
      | ok shown =>
          cases shown with
          | none => exact h.pure w
          | some e =>
              have hdrawn := h.drawn e w.rest
              change (elements.render e (seen δ γ w).rest).map δ = _ at hdrawn
              simp only [bind, Except.bind]
              cases hv : elements.render e (seen δ γ w).rest with
              | error f =>
                  cases hw : elements.render e w.rest with
                  | error f' =>
                      rw [hv, hw] at hdrawn
                      obtain rfl : f = f' := Except.error.inj hdrawn
                      rfl
                  | ok picture' =>
                      rw [hv, hw] at hdrawn
                      cases hdrawn
              | ok picture =>
                  cases hw : elements.render e w.rest with
                  | error f' =>
                      rw [hv, hw] at hdrawn
                      cases hdrawn
                  | ok picture' =>
                      rw [hv, hw] at hdrawn
                      have hpicture : δ picture = δ picture' := Except.ok.inj hdrawn
                      refine congrArg Except.ok ?_
                      simp only [seen, Option.map_some, hpicture, h.rest]

section Stack

theorem Exposes.free (h : Exposes δ γ) (e : Element) (a : App) :
    (elements.free e (γ a)).map γ = (elements.free e a).map γ := by
  cases e with
  | uiStatus => exact congrArg Except.ok (h.rest a)
  | menu p =>
      simp only [elements, h.heap]
      cases freeMenu p a.heap with
      | error e => rfl
      | ok heap => exact congrArg Except.ok (h.setHeap a heap)

theorem Exposes.pop (h : Exposes δ γ) : Respects (seen δ γ) (uiPop elements) := by
  intro w
  cases hcurrent : w.current with
  | none =>
      have hseen : (seen δ γ w).current = none := hcurrent
      simp only [uiPop, hcurrent, hseen]
      exact h.pure w
  | some p =>
      have hseen : (seen δ γ w).current = some p := hcurrent
      have hlayers : (seen δ γ w).layers = w.layers := rfl
      simp only [uiPop, hcurrent, hseen, hlayers]
      cases w.layers.read p with
      | error e => rfl
      | ok layer =>
          change (elements.free layer.element (γ w.rest) >>= _).map (seen δ γ) =
            (elements.free layer.element w.rest >>= _).map (seen δ γ)
          refine bind_view (h.free layer.element w.rest) fun rest rest' hrest => ?_
          cases w.layers.free p with
          | error e => rfl
          | ok layers =>
              exact congrArg Except.ok (h.set w layer.up (w.stackSize - 1) layers hrest)

theorem Exposes.clear (h : Exposes δ γ) : Respects (seen δ γ) (uiClear elements) := by
  have hloop : ∀ n, Respects (seen δ γ) (clearLoop elements n) := by
    intro n
    induction n with
    | zero => exact h.pop
    | succ n ih => exact .ite (fun _ => Iff.rfl) h.pure (h.pop.bind ih)
  exact fun w => hloop w.layers.liveCount w

theorem Exposes.push (h : Exposes δ γ) (itemCapacity : UInt8) (items : List Item) :
    Respects (seen δ γ) (pushMenuWith itemCapacity items) := by
  intro w
  have hheap : (seen δ γ w).rest.heap = w.rest.heap := h.heap w.rest
  simp only [pushMenuWith, pushMenu, uiPush, hheap, bind, Except.bind]
  cases items.foldlM (fun heap item => addItem (newMenu itemCapacity w.rest.heap).1 item heap)
    (newMenu itemCapacity w.rest.heap).2 with
  | error e => rfl
  | ok heap => exact congrArg Except.ok (h.set w _ (w.stackSize + 1) _ (h.setHeap w.rest heap))

end Stack

section Actions

theorem Exposes.onBle (h : Exposes δ γ) {f : Ble → Ble} (hf : Unlinked f) (w : World) :
    seen δ γ (Menus.onBle f (seen δ γ w)) = seen δ γ (Menus.onBle f w) :=
  h.withRest w (h.setBle hf w.rest)

theorem Exposes.clientInitialized (h : Exposes δ γ) (a : App) :
    (γ a).ble.clientInitialized = a.ble.clientInitialized := by
  have hsame := congrArg Ble.clientInitialized (h.ble a)
  exact hsame

theorem Exposes.serverInitialized (h : Exposes δ γ) (a : App) :
    (γ a).ble.serverInitialized = a.ble.serverInitialized := by
  have hsame := congrArg Ble.serverInitialized (h.ble a)
  exact hsame

theorem midiBleServerInit_unlinked (r : Radio) : Unlinked (midiBleServerInit r) := by
  intro b
  simp only [midiBleServerInit]
  split_ifs <;> rfl

theorem clientInitWithAddr_unlinked (r : Radio) (addr : Option (ℤ × Addr)) :
    Unlinked fun b => (clientInitWithAddr r addr b).2 := by
  intro b
  simp only [clientInitWithAddr]
  split_ifs
  · rfl
  · cases addr <;> rfl

theorem midiBleSetStateAsInitial_unlinked (r : Radio) : Unlinked (midiBleSetStateAsInitial r) :=
  fun _ => rfl

theorem clientDeinit_unlinked : Unlinked clientDeinit := fun _ => rfl

theorem midiBleDeinit_unlinked : Unlinked midiBleDeinit := fun _ => rfl

theorem midiBleClientDisconnect_unlinked : Unlinked midiBleClientDisconnect := fun _ => rfl

theorem midiBleClientConnect_unlinked (index : UInt8) : Unlinked (midiBleClientConnect index) :=
  fun _ => rfl

theorem Exposes.clientInit (h : Exposes δ γ) (a : Answers) (addr : Option (ℤ × Addr)) :
    Respects (seen δ γ) (midiBleClientInitWithAddr a addr) := by
  intro w
  have hdone : (clientInitWithAddr a.radio addr (seen δ γ w).rest.ble).1 =
      (clientInitWithAddr a.radio addr w.rest.ble).1 := by
    simp only [clientInitWithAddr]
    split_ifs <;> rfl
  have hseen := h.onBle (clientInitWithAddr_unlinked a.radio addr) w
  simp only [midiBleClientInitWithAddr, hdone]
  split_ifs
  · exact h.render.of_eq hseen
  · exact congrArg Except.ok hseen

theorem Exposes.clientDeinit (h : Exposes δ γ) : Respects (seen δ γ) midiBleClientDeinit :=
  h.render.after (h.onBle clientDeinit_unlinked)

theorem Exposes.disconnect (h : Exposes δ γ) : Respects (seen δ γ) Menus.disconnect :=
  h.clear.after (h.onBle midiBleClientDisconnect_unlinked)

/-- The client's deinitialisation where it is up, before what comes next. -/
theorem Exposes.afterClient (h : Exposes δ γ) {f : World → Except Fault World}
    (hf : Respects (seen δ γ) f) : Respects (seen δ γ) fun w =>
      if w.rest.ble.clientInitialized then midiBleClientDeinit w >>= f else f w :=
  .ite (fun w => by rw [seen, h.clientInitialized]) (h.clientDeinit.bind hf) hf

theorem Exposes.startServer (h : Exposes δ γ) (a : Answers) :
    Respects (seen δ γ) (Menus.startServer a) :=
  h.afterClient (h.clear.after (h.onBle (midiBleServerInit_unlinked a.radio)))

theorem Exposes.deinitServer (h : Exposes δ γ) (w : World) :
    seen δ γ (MenuViews.deinitServer (seen δ γ w)) = seen δ γ (MenuViews.deinitServer w) := by
  have hup : (seen δ γ w).rest.ble.serverInitialized = w.rest.ble.serverInitialized :=
    h.serverInitialized w.rest
  rw [MenuViews.deinitServer, MenuViews.deinitServer, hup]
  split_ifs
  · exact h.onBle midiBleDeinit_unlinked w
  · exact h.twice w

theorem Exposes.stop (h : Exposes δ γ) : Respects (seen δ γ) Menus.stop :=
  (h.afterClient h.clear).after h.deinitServer

theorem Exposes.pushMenuBluetooth (h : Exposes δ γ) (a : Answers) :
    Respects (seen δ γ) (Menus.pushMenuBluetooth a) := by
  intro w
  have hitems : bluetoothItems a (seen δ γ w).rest.ble = bluetoothItems a w.rest.ble := by
    have hsame := congrArg (bluetoothItems a) (h.ble w.rest)
    exact hsame
  rw [Menus.pushMenuBluetooth, hitems]
  exact h.push 4 (bluetoothItems a w.rest.ble) w

theorem Exposes.startClient (h : Exposes δ γ) (a : Answers) :
    Respects (seen δ γ) (Menus.startClient a) :=
  ((h.clientInit a none).bind (h.clear.bind (h.pushMenuBluetooth a))).after h.deinitServer

theorem Exposes.runAction (h : Exposes δ γ) (a : Answers) (action : Action) :
    Respects (seen δ γ) (Menus.runAction a action) := by
  cases action with
  | pushMenuBluetooth => exact h.pushMenuBluetooth a
  | pushMenuEnvelope => exact h.push 4 _
  | pushMenuBluetoothConnect => exact h.push _ _
  | disconnect => exact h.disconnect
  | midiBleSetStateAsInitial => exact .ok (h.onBle (midiBleSetStateAsInitial_unlinked a.radio))
  | startServer => exact h.startServer a
  | stop => exact h.stop
  | startClient => exact h.startClient a

end Actions

section Navigation

theorem Exposes.assignStrip (h : Exposes δ γ) (a : Answers) (mv : Option MidiValueRef)
    (reset : Bool) (w : World) : seen δ γ (Menus.assignStrip a mv reset (seen δ γ w)) =
      seen δ γ (Menus.assignStrip a mv reset w) :=
  h.withRest w (h.assign a mv reset w)

theorem Exposes.setKeymapTo (h : Exposes δ γ) (keymap : Keymap) :
    Respects (seen δ γ) (Menus.setKeymap keymap) :=
  h.render.after fun w => h.withRest w (h.setKeymap w.rest keymap)

theorem Exposes.writeItem (h : Exposes δ γ) (p : Ptr) (item : Item) :
    Respects (seen δ γ) (Menus.writeItem p item) := by
  intro w
  have hheap : (seen δ γ w).rest.heap = w.rest.heap := h.heap w.rest
  simp only [Menus.writeItem, hheap, bind, Except.bind]
  cases w.rest.heap.items.write p item with
  | error e => rfl
  | ok items => exact congrArg Except.ok (h.withRest w (h.setHeap w.rest _))

theorem Exposes.writeMenu (h : Exposes δ γ) (p : Ptr) (menu : Menu) :
    Respects (seen δ γ) (Menus.writeMenu p menu) := by
  intro w
  have hheap : (seen δ γ w).rest.heap = w.rest.heap := h.heap w.rest
  simp only [Menus.writeMenu, hheap, bind, Except.bind]
  cases w.rest.heap.menus.write p menu with
  | error e => rfl
  | ok menus => exact congrArg Except.ok (h.withRest w (h.setHeap w.rest _))

theorem Exposes.navigateSelect (h : Exposes δ γ) {α : Type} (p : Ptr) (item : Select α → Item)
    {onChange : α → World → Except Fault World} (honChange : ∀ x, Respects (seen δ γ) (onChange x))
    (self : Select α) (nav : Nav) :
    Respects (seen δ γ) (Menus.navigateSelect p item onChange self nav) := by
  unfold Menus.navigateSelect
  cases self.navigate nav with
  | error e => exact fun _ => rfl
  | ok after =>
      obtain ⟨select, option⟩ := after
      cases option with
      | none => exact h.pure
      | some x => exact (h.writeItem p (item select)).bind ((honChange x).bind h.render)

theorem Exposes.navigateCheckbox (h : Exposes δ γ) (a : Answers) (p : Ptr) (label : String)
    (value : Bool) (nav : Nav) :
    Respects (seen δ γ) (Menus.navigateCheckbox a p label value nav) := by
  unfold Menus.navigateCheckbox
  split_ifs
  · refine (h.writeItem p _).bind (.ok fun w => ?_)
    have hstrip : (seen δ γ w).rest.strip = w.rest.strip := h.strip w.rest
    rw [setAnalogStripResetOnRelease, hstrip]
    exact h.assignStrip a w.rest.strip.midiValue (!value) w
  · exact h.pure

theorem Exposes.bluetoothConnectNav (h : Exposes δ γ) (index : UInt8) (nav : Nav) :
    Respects (seen δ γ) (Menus.bluetoothConnectNav index nav) := by
  unfold Menus.bluetoothConnectNav
  split_ifs
  · exact h.clear.after (h.onBle (midiBleClientConnect_unlinked index))
  · exact h.pure

/-- After its redraw an input for a controller value has done the same to the view. -/
def Values (δ : Screen → Screen) (γ : App → App) : Prop := ∀ a r nav,
  Respects (seen δ γ) fun w => navigateMidiValue a r nav w >>= uiRender elements

theorem Exposes.navigateItem (h : Exposes δ γ) (hvalues : Values δ γ) (a : Answers) (p : Ptr)
    (nav : Nav) :
    Respects (seen δ γ) fun w => Menus.navigateItem a p nav w >>= uiRender elements := by
  intro w
  have hheap : (seen δ γ w).rest.heap = w.rest.heap := h.heap w.rest
  simp only [Menus.navigateItem, hheap, bind_assoc]
  cases w.rest.heap.items.read p with
  | error e => rfl
  | ok item =>
      cases item with
      | default label action =>
          have hitem : Respects (seen δ γ) fun w =>
              if nav = .enter then Menus.runAction a action w else .ok w :=
            .ite (fun _ => Iff.rfl) (h.runAction a action) h.pure
          exact hitem.bind h.render w
      | keymap select =>
          exact (h.navigateSelect p .keymap h.setKeymapTo select nav).bind h.render w
      | stripControl select =>
          refine (h.navigateSelect p .stripControl (fun r => ?_) select nav).bind h.render w
          refine .ok fun w => ?_
          have hstrip : (seen δ γ w).rest.strip = w.rest.strip := h.strip w.rest
          rw [setAnalogStripMv, hstrip]
          exact h.assignStrip a (some r) w.rest.strip.resetOnRelease w
      | checkbox label value =>
          exact (h.navigateCheckbox a p label value nav).bind h.render w
      | midiValue r => exact hvalues a r nav w
      | device label index => exact (h.bluetoothConnectNav index nav).bind h.render w

theorem Exposes.navigateMenu (h : Exposes δ γ) (hvalues : Values δ γ) (a : Answers) (self : Ptr)
    (nav : Nav) :
    Respects (seen δ γ) fun w => Menus.navigateMenu a self nav w >>= uiRender elements := by
  intro w
  have hheap : (seen δ γ w).rest.heap = w.rest.heap := h.heap w.rest
  simp only [Menus.navigateMenu, hheap]
  cases w.rest.heap.menus.read self with
  | error e => rfl
  | ok menu =>
      have hitem : ((do
          let slots ← w.rest.heap.arrays.read menu.items
          let item ← readSlot a.stray slots menu.index.toNat
          Menus.navigateItem a item nav (seen δ γ w) >>= uiRender elements).map (seen δ γ)) =
          (do
          let slots ← w.rest.heap.arrays.read menu.items
          let item ← readSlot a.stray slots menu.index.toNat
          Menus.navigateItem a item nav w >>= uiRender elements).map (seen δ γ) := by
        cases w.rest.heap.arrays.read menu.items with
        | error e => rfl
        | ok slots =>
            cases hslot : readSlot a.stray slots menu.index.toNat with
            | error e => simp only [hslot, bind, Except.bind]
            | ok item =>
                simp only [hslot, bind, Except.bind]
                exact h.navigateItem hvalues a item nav w
      cases nav with
      | up => exact (h.writeMenu self (menuUp menu)).bind h.render w
      | down => exact (h.writeMenu self (menuDown menu)).bind h.render w
      | _ =>
          simp only [bind_assoc]
          exact hitem

theorem Exposes.pushMenuMain (h : Exposes δ γ) : Respects (seen δ γ) Menus.pushMenuMain := by
  intro w
  have hkeymap : (seen δ γ w).rest.keymap = w.rest.keymap := h.keymap w.rest
  have hstrip : (seen δ γ w).rest.strip = w.rest.strip := h.strip w.rest
  rw [pushMenuMain_eq, pushMenuMain_eq, hkeymap, hstrip]
  exact h.push 6 _ w

theorem Exposes.navigate (h : Exposes δ γ) (hvalues : Values δ γ) (a : Answers)
    (owner self : Element) (nav : Nav) :
    Respects (seen δ γ) fun w => Menus.navigate a owner self nav w >>= uiRender elements := by
  cases owner with
  | uiStatus =>
      refine Respects.bind (f := navigateStatus nav) ?_ h.render
      cases nav with
      | close => exact h.pushMenuMain
      | «return» => exact h.pushMenuMain
      | _ => exact h.pure
  | menu q =>
      cases self with
      | uiStatus => exact fun _ => rfl
      | menu p => exact h.navigateMenu hvalues a p nav

/-- An input takes the same course whatever is not shown. -/
theorem Exposes.step (h : Exposes δ γ) (hvalues : Values δ γ) (a : Answers) (nav : Nav) :
    Respects (seen δ γ) fun w => Menus.step w (a, .navigate nav) := by
  intro w
  have hdispatch : dispatch elements a.nullElement nav (seen δ γ w) =
      dispatch elements a.nullElement nav w := by
    have hnavigable : ∀ e, elements.hasNavigate e (γ w.rest) = elements.hasNavigate e w.rest := by
      intro e
      cases e with
      | uiStatus => rfl
      | menu p => simp only [elements, h.heap]
    simp only [dispatch, seen, hnavigable]
  simp only [Menus.step, uiNavigate, hdispatch]
  cases dispatch elements a.nullElement nav w with
  | error e => rfl
  | ok d =>
      cases d with
      | ignore => exact h.pure w
      | pop => exact h.pop.bind h.render w
      | clear => exact h.clear.bind h.render w
      | invoke followed owner self => exact h.navigate hvalues a owner self nav w

end Navigation

end Views

section Veil
variable {τ τ' : Type}

/-- Whether a drawing goes through, and the fault where it does not. -/
def outcome (r : Except Fault τ) : Except Fault Unit := r.map fun _ => ()

theorem outcome_bind {ρ ρ' : Type} {r : Except Fault ρ} {r' : Except Fault ρ'}
    {k : ρ → Except Fault τ} {k' : ρ' → Except Fault τ'} (h : outcome r = outcome r')
    (hk : ∀ x x', outcome (k x) = outcome (k' x')) : outcome (r >>= k) = outcome (r' >>= k') := by
  cases r with
  | error e =>
      cases r' with
      | error e' =>
          obtain rfl : e = e' := Except.error.inj h
          rfl
      | ok x' => cases h
  | ok x =>
      cases r' with
      | error e' => cases h
      | ok x' => exact hk x x'

theorem outcome_after {ρ : Type} {r : Except Fault ρ} {k : ρ → Except Fault τ}
    {k' : ρ → Except Fault τ'} (hk : ∀ x, outcome (k x) = outcome (k' x)) :
    outcome (r >>= k) = outcome (r >>= k') := by
  cases r with
  | error e => rfl
  | ok x => exact hk x

theorem drawItem_outcome (a b : App) (item : Item) (focus : Bool) :
    outcome (drawItem a item focus) = outcome (drawItem b item focus) := by
  cases item with
  | stripControl select => exact outcome_after fun _ => rfl
  | _ => rfl

/-- The loop stops where an item cannot be drawn, whatever is drawn of the others. -/
theorem renderLines_outcome {ι : Type} {draw : ι → Bool → Except Fault τ}
    {draw' : ι → Bool → Except Fault τ'}
    (h : ∀ x focus, outcome (draw x focus) = outcome (draw' x focus)) (m : MenuHeap ι)
    (self : Menu) (slots : List (Option Ptr)) (focus : Bool) :
    ∀ (n : ℕ) (iLine y : UInt8), outcome (renderLines draw m self slots focus n iLine y) =
      outcome (renderLines draw' m self slots focus n iLine y) := by
  intro n
  induction n with
  | zero => exact fun _ _ => rfl
  | succ n ih =>
      intro iLine y
      simp only [renderLines]
      split_ifs
      · refine outcome_after fun p => outcome_after fun item => ?_
        exact outcome_bind (h item _) fun _ _ => outcome_bind (ih _ _) fun _ _ => rfl
      · rfl

theorem render_outcome {a b : App} (h : a.heap = b.heap) (e : Element) :
    outcome (elements.render e a) = outcome (elements.render e b) := by
  cases e with
  | uiStatus => rfl
  | menu p =>
      have hmenu : outcome (renderMenu (drawItem a) 0 true p a.heap) =
          outcome (renderMenu (drawItem b) 0 true p b.heap) := by
        rw [h]
        refine outcome_after fun self => outcome_after fun slots => ?_
        exact renderLines_outcome (drawItem_outcome a b) b.heap self slots true 8 0 0
      exact outcome_bind hmenu fun _ _ => rfl

theorem veil_exposes : Exposes (fun _ => .dark) veilApp where
  screen := fun _ => rfl
  drawn := fun e a => by
    have houtcome := render_outcome (a := veilApp a) (b := a) rfl e
    cases hv : elements.render e (veilApp a) with
    | error f =>
        cases ha : elements.render e a with
        | error f' =>
            rw [hv, ha] at houtcome
            obtain rfl : f = f' := Except.error.inj houtcome
            rfl
        | ok picture' =>
            rw [hv, ha] at houtcome
            cases houtcome
    | ok picture =>
        cases ha : elements.render e a with
        | error f' =>
            rw [hv, ha] at houtcome
            cases houtcome
        | ok picture' => rfl
  heap := fun _ => rfl
  keymap := fun _ => rfl
  strip := fun _ => rfl
  ble := fun _ => rfl
  setHeap := fun _ _ => rfl
  setKeymap := fun _ _ => rfl
  setBle := fun hf a => by simp only [veilApp, hf a.ble]
  assign := fun _ _ _ _ => rfl

theorem veil_rest (w : World) {rest rest' : App} (h : veilApp rest' = veilApp rest) :
    veil { veil w with rest := rest' } = veil { w with rest := rest } :=
  veil_exposes.withRest w h

theorem veil_veil (w : World) : veil (veil w) = veil w := veil_exposes.twice w

theorem render_veil {w w' : World} (h : uiRender elements w = .ok w') : veil w' = veil w := by
  simp only [uiRender, bind, Except.bind] at h
  split at h
  · rw [← Except.ok.inj h]
  next hdisplay =>
  split at h
  · cases h
  split at h
  · rw [← Except.ok.inj h]
  split at h
  · cases h
  · rw [← Except.ok.inj h]
    simp only [veil, hdisplay, Option.map_some]

theorem uiRender_twice (w : World) :
    uiRender elements w >>= uiRender elements = uiRender elements w := by
  cases h : uiRender elements w with
  | error e => rfl
  | ok w' => exact uiRender_again elements h

/-- An input for a value redraws once or twice, which looks the same. -/
theorem navigateMidiValue_redraws (a : Answers) (r : MidiValueRef) (nav : Nav) (w : World) :
    ∃ w', (navigateMidiValue a r nav w >>= uiRender elements) = uiRender elements w' ∧
      veil w' = veil w := by
  have hsame : ∃ w', ((pure w : Except Fault World) >>= uiRender elements) =
      uiRender elements w' ∧ veil w' = veil w := ⟨w, rfl, rfl⟩
  have hset : ∀ v, ∃ w', (uiRender elements (setMidiValue a r v true w) >>= uiRender elements) =
      uiRender elements w' ∧ veil w' = veil w := fun v => ⟨_, uiRender_twice _, rfl⟩
  cases nav with
  | left =>
      simp only [navigateMidiValue]
      split_ifs
      · exact hsame
      · exact hset _
  | right =>
      simp only [navigateMidiValue]
      split_ifs
      · exact hsame
      · exact hset _
  | _ => exact hsame

theorem navigateMidiValue_blind : Values (fun _ => .dark) veilApp := by
  intro a r nav w
  obtain ⟨t, ht, hsame⟩ := navigateMidiValue_redraws a r nav w
  obtain ⟨t', ht', hsame'⟩ := navigateMidiValue_redraws a r nav (veil w)
  change (navigateMidiValue a r nav (veil w) >>= uiRender elements).map veil = _
  rw [ht']
  simp only [ht]
  exact veil_exposes.render.of_eq (hsame'.trans ((veil_veil w).trans hsame.symm))

/-- An input takes the same course whatever is behind the veil. -/
theorem step_navigate_blind (a : Answers) (nav : Nav) :
    Blind fun w => Menus.step w (a, .navigate nav) :=
  veil_exposes.step navigateMidiValue_blind a nav

/-- The callbacks of the links change nothing in front of the veil. -/
theorem step_link_veil {a : Answers} {e : Menus.Event} (he : ∀ nav, e ≠ .navigate nav)
    {w w' : World} (h : Menus.step w (a, e) = .ok w') : veil w' = veil w := by
  cases e with
  | navigate nav => exact (he nav rfl).elim
  | serverConnected handle =>
      simp only [Menus.step, serverConnected] at h
      split_ifs at h
      · exact (render_veil h).trans rfl
      · rw [← Except.ok.inj h]
  | serverDisconnected =>
      simp only [Menus.step, serverDisconnected] at h
      split_ifs at h
      · exact (render_veil h).trans rfl
      · rw [← Except.ok.inj h]
  | clientStatus ready =>
      refine (render_veil h).trans ?_
      cases ready <;> rfl

end Veil

end Keytar.MenuViews
