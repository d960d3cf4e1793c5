import Keytar.FirmwareWires
import Keytar.MenuPanel

/-!
# What the screen of the firmware says

An input and a link event redraw the screen last, a reading of the strip does not. So
the screen is what a redraw would draw, but for the value that the strip is assigned to,
and what it says about the settings is how the settings are.
-/
namespace Keytar.Firmware
open AnalogStrip KeyboardMatrix Memory Midi MidiBle MidiValues MenuEffects MenuPanel SendHistory
  Settings Traffic Ui Menus
open Relation (ReflTransGen)

/-- The same state with other values. -/
def withValues (vs : MidiValueRef → MidiValue) (w : World) : World :=
  { w with rest := { w.rest with midi := { w.rest.midi with values := vs } } }

/-- With these values a redraw would leave the screen as it is. -/
def Drawn (vs : MidiValueRef → MidiValue) (w : World) : Prop :=
  uiRender elements (withValues vs w) = .ok (withValues vs w)

/-- The values are those of the state, but for the one that the strip is assigned to. -/
structure Behind (a : App) (vs : MidiValueRef → MidiValue) : Prop where
  others : ∀ r, a.strip.midiValue ≠ some r → vs r = a.midi.values r
  label : ∀ r, (vs r).label = (bootValue r).label

def UpToDate (w : World) : Prop := ∃ vs, Behind w.rest vs ∧ Drawn vs w

section Drawing
variable {w w' : World} {vs : MidiValueRef → MidiValue} {x y : App}

/-- A redraw looks at the menus and at the values. -/
theorem drawItem_congr (hvalues : y.midi.values = x.midi.values) : drawItem y = drawItem x := by
  funext item focus
  cases item <;> simp only [drawItem, hvalues]

theorem render_congr (hheap : y.heap = x.heap) (hvalues : y.midi.values = x.midi.values)
    (e : Element) : elements.render e y = elements.render e x := by
  cases e with
  | uiStatus => rfl
  | menu p => simp only [elements, hheap, drawItem_congr hvalues]

theorem Drawn.withRest (h : Drawn vs w) {app : App} (happ : app.heap = w.rest.heap) :
    Drawn vs { w with rest := app } := by
  have hredraw := uiRender_withRest (E := elements) (s := withValues vs w)
    (r := { app with midi := { app.midi with values := vs } })
    (render_congr (x := (withValues vs w).rest) happ rfl)
  rw [Drawn] at h
  rw [h] at hredraw
  exact hredraw

theorem Drawn.of_render (h : uiRender elements w = .ok w') : Drawn w'.rest.midi.values w' :=
  uiRender_again elements h

/-- An input or a link event either changes nothing or ends with a redraw. -/
theorem step_drawn {e : Answers × Menus.Event} (h : Menus.step w e = .ok w') :
    w' = w ∨ Drawn w'.rest.midi.values w' := by
  obtain ⟨a, e⟩ := e
  cases e with
  | navigate nav =>
      obtain ⟨decision, -, h⟩ := Runs.bind_ok h
      cases decision with
      | ignore => exact .inl (Except.ok.inj h).symm
      | pop | clear | invoke _ _ _ =>
          obtain ⟨v, -, h⟩ := Runs.bind_ok h
          exact .inr (.of_render h)
  | serverConnected handle =>
      simp only [Menus.step, serverConnected] at h
      split_ifs at h
      · exact .inr (.of_render h)
      · exact .inl (Except.ok.inj h).symm
  | serverDisconnected =>
      simp only [Menus.step, serverDisconnected] at h
      split_ifs at h
      · exact .inr (.of_render h)
      · exact .inl (Except.ok.inj h).symm
  | clientStatus ready => exact .inr (.of_render h)

end Drawing

section Values
variable {σ : Type} {s : Store σ} {w w' : World}

theorem op_inRange (send : Callback σ) (op : SendHistory.Op) (hs : s.InRange) :
    (op.run send s).InRange :=
  Op.run_keeps (P := Store.InRange) (fun r v b _ h => assign_inRange h r v b)
    (fun r _ h => force_inRange h r) (fun r _ h => midiValueSync_inRange h send r) op hs

theorem effects_inRange {a : Answers} {x y : App} (h : ReflTransGen (Effect a) x y)
    (hx : x.midi.InRange) : y.midi.InRange := by
  induction h with
  | refl => exact hx
  | tail _ heffect ih =>
      cases heffect with
      | upkeep h => cases h <;> exact ih
      | values op => exact op_inRange _ op ih
      | _ => exact ih

theorem step_inRange {e : Answers × Menus.Event} (h : Menus.step w e = .ok w')
    (hw : w.rest.midi.InRange) : w'.rest.midi.InRange := by
  obtain ⟨a, e⟩ := e
  cases e with
  | navigate nav => exact effects_inRange (step_navigate_does nav w w' h) hw
  | serverConnected handle =>
      simp only [Menus.step, serverConnected] at h
      split_ifs at h
      · rw [uiRender_rest elements h]
        exact op_inRange _ .sendAll hw
      · rwa [← Except.ok.inj h]
  | serverDisconnected =>
      simp only [Menus.step, serverDisconnected] at h
      split_ifs at h
      · rw [uiRender_rest elements h]
        exact hw
      · rwa [← Except.ok.inj h]
  | clientStatus ready =>
      rw [uiRender_rest elements h]
      cases ready with
      | false => exact hw
      | true => exact op_inRange _ .sendAll hw

/-- The strip moves the value that it is assigned to, inside its range. -/
theorem analogStripTask_inRange (send : Callback σ) (adcRead : UInt16) (strip : Strip)
    (hs : s.InRange) : (analogStripTask send adcRead strip s).InRange := by
  unfold analogStripTask
  split
  · simp only [analogStripRead]
    split
    · split_ifs
      · exact op_inRange send (.set _ _ false) hs
      · exact hs
    · exact op_inRange send (.set _ _ false) hs
  · exact hs

theorem analogStripTask_of_ne (send : Callback σ) (adcRead : UInt16) {strip : Strip}
    {r : MidiValueRef} (hr : strip.midiValue ≠ some r) (s : Store σ) :
    (analogStripTask send adcRead strip s).values r = s.values r := by
  unfold analogStripTask
  split
  · next mv hmv =>
      have hne : r ≠ mv := fun h => hr (by rw [hmv, h])
      simp only [analogStripRead]
      split
      · split_ifs
        · rw [midiValueSet_of_ne send _ _ _ hne]
        · rfl
      · rw [midiValueSet_of_ne send _ _ _ hne]
  · rfl

end Values

section Invariant
variable {d : Option Element} {w w' : World}

/-- What every run of the firmware keeps of the menus, the values and the screen. -/
structure Current (d : Option Element) (w : World) : Prop where
  menus : ∃ fs, Good d False fs w
  agreed : Agreed w.rest
  inRange : w.rest.midi.InRange
  upToDate : UpToDate w

theorem upToDate_of_drawn (hw : w.rest.midi.InRange) (h : Drawn w.rest.midi.values w) :
    UpToDate w :=
  ⟨w.rest.midi.values, ⟨fun _ _ => rfl, fun r => (hw r).label⟩, h⟩

theorem Current.step {e : Answers × Menus.Event} (h : Current d w)
    (hstep : Menus.step w e = .ok w') : Current d w' := by
  obtain ⟨fs, hgood⟩ := h.menus
  have hinRange := step_inRange hstep h.inRange
  refine ⟨step_kept hgood e hstep, step_agreed hgood h.agreed hstep, hinRange, ?_⟩
  rcases step_drawn hstep with rfl | hdrawn
  · exact h.upToDate
  · exact upToDate_of_drawn hinRange hdrawn

theorem current_kept (d : Option Element) : Kept (Current d) where
  input := fun _ _ h hstep => h.step hstep
  link := Current.step
  render := by
    intro w w' h hrender
    obtain ⟨fs, hgood⟩ := h.menus
    obtain ⟨v, hv, hgood', -⟩ := hgood.render
    obtain rfl := Except.ok.inj (hv.symm.trans hrender)
    have hrest := uiRender_rest elements hrender
    have hinRange : v.rest.midi.InRange := by
      rw [hrest]
      exact h.inRange
    refine ⟨⟨fs, hgood'⟩, ?_, hinRange, upToDate_of_drawn hinRange (.of_render hrender)⟩
    rw [hrest]
    exact h.agreed
  wires := by
    intro w wires h
    obtain ⟨fs, hgood⟩ := h.menus
    obtain ⟨vs, hbehind, hdrawn⟩ := h.upToDate
    exact ⟨⟨fs, hgood.withRest _ rfl rfl rfl hgood.ble⟩, ⟨h.agreed.assigned, h.agreed.shows,
      h.agreed.unique⟩, h.inRange, vs, ⟨hbehind.others, hbehind.label⟩, hdrawn.withRest rfl⟩
  strip := by
    intro w send adcRead h
    obtain ⟨fs, hgood⟩ := h.menus
    obtain ⟨vs, hbehind, hdrawn⟩ := h.upToDate
    refine ⟨⟨fs, hgood.withRest _ rfl rfl rfl hgood.ble⟩, ⟨h.agreed.assigned, h.agreed.shows,
      h.agreed.unique⟩, analogStripTask_inRange send adcRead w.rest.strip h.inRange, vs,
      ⟨fun r hr => ?_, hbehind.label⟩, hdrawn.withRest rfl⟩
    rw [hbehind.others r hr]
    exact (analogStripTask_of_ne send adcRead hr w.rest.midi).symm

theorem midiBleInit_drawn {a : Answers} (h : midiBleInit a w = .ok w')
    (hw : Drawn w.rest.midi.values w) : Drawn w'.rest.midi.values w' := by
  unfold midiBleInit at h
  split at h
  · obtain rfl := Except.ok.inj h
    exact hw.withRest rfl
  · simp only [midiBleClientInitWithAddr] at h
    split_ifs at h
    · exact .of_render h
    · obtain rfl := Except.ok.inj h
      exact hw.withRest rfl
  · obtain rfl := Except.ok.inj h
    exact hw

theorem bootUp_current {a : Answers} {displayOk : Bool} {keymap : Keymap} {saved : BleState}
    (h : bootUp a displayOk keymap saved = .ok w) : Current (statusElement displayOk) w := by
  obtain ⟨v, hv, hgood⟩ := bootUp_good False a displayOk keymap saved
  obtain rfl := Except.ok.inj (hv.symm.trans h)
  have hinRange := effects_inRange (bootUp_does displayOk keymap saved v h) (boot_inRange idle)
  refine ⟨⟨[], hgood⟩, bootUp_agreed a displayOk keymap saved h, hinRange,
    upToDate_of_drawn hinRange ?_⟩
  obtain ⟨w₁, hinit, h⟩ := Runs.bind_ok h
  obtain ⟨w₂, hset, h⟩ := Runs.bind_ok h
  obtain ⟨w₃, hble, h⟩ := Runs.bind_ok h
  obtain rfl := Except.ok.inj h
  -- until the assignment that ends the boot the strip has no value that could move
  have hstrip : w₃.rest.strip.midiValue = none := by
    obtain ⟨u, hu, -, hrest⟩ := displayInit_sane True displayOk
    obtain rfl := Except.ok.inj (hu.symm.trans hinit)
    rw [(midiBleInit_spares _ w₃ hble).strip]
    change w₂.rest.strip.midiValue = none
    rw [uiRender_rest elements hset]
    change u.rest.strip.midiValue = none
    rw [hrest]
    rfl
  have hvalues : (assignStrip a (some .mvPitchbend) true w₃).rest.midi = w₃.rest.midi := by
    simp only [assignStrip, analogStripAssign, hstrip]
  have hsaved : Drawn w₂.rest.midi.values (onBle (midiBleSetInitialState saved) w₂) :=
    (Drawn.of_render hset).withRest rfl
  rw [hvalues]
  exact (midiBleInit_drawn hble hsaved).withRest rfl

end Invariant

section Screens
variable {boot : Answers} {displayOk : Bool} {keymap : Keymap} {saved : BleState}
  {es : List Event} {k : Device} {w : World}

theorem boot_current (h : Firmware.boot boot displayOk keymap saved = .ok k) :
    Current (statusElement displayOk) k.world := by
  obtain ⟨w, hw, h⟩ := Runs.bind_ok h
  obtain rfl := Except.ok.inj h
  exact bootUp_current hw

theorem reached_current (h : Firmware.boot boot displayOk keymap saved >>= run es = .ok k) :
    Current (statusElement displayOk) k.world := by
  obtain ⟨j, hj, hrun⟩ := Runs.bind_ok h
  exact (current_kept _).run hrun (boot_current hj)

/-- What a row of a menu says is so. Next to the name of a setting stands the setting,
and next to that of a value its number, unless the strip may have moved it. -/
def Says (a : App) (item : Item) (drawn : Menus.Drawn) : Prop :=
  match item with
  | .default label _ => drawn = ⟨label, .none⟩
  | .keymap select => drawn.label = select.label ∧
      ∃ left right, drawn.setting = .text a.keymap.label left right
  | .stripControl select => drawn.label = select.label ∧
      ∃ r left right, a.strip.midiValue = some r ∧
        drawn.setting = .text (bootValue r).label left right
  | .checkbox label _ => drawn = ⟨label, .check a.strip.resetOnRelease⟩
  | .midiValue r => drawn.label = (bootValue r).label ∧
      (a.strip.midiValue ≠ some r → ∃ left right,
        drawn.setting = .text (toString (a.midi.values r).value.toNat) left right)
  | .device label _ => drawn = ⟨label, .none⟩

theorem drawItem_says {a : App} {vs : MidiValueRef → MidiValue} (hbehind : Behind a vs)
    {item : Item} (hshows : Shows a.keymap a.strip item) {focus : Bool} {drawn : Menus.Drawn}
    (h : drawItem { a with midi := { a.midi with values := vs } } item focus = .ok drawn) :
    Says a item drawn := by
  cases item with
  | default label action => exact (Except.ok.inj h).symm
  | device label index => exact (Except.ok.inj h).symm
  | checkbox label value =>
      obtain rfl := Except.ok.inj h
      rw [Says, show value = a.strip.resetOnRelease from hshows]
  | keymap select =>
      obtain ⟨option, hoption, h⟩ := Runs.bind_ok h
      obtain rfl := Except.ok.inj h
      obtain rfl := Option.some.inj ((readAt_eq_ok.mp hoption).symm.trans hshows.2.2)
      exact ⟨rfl, _, _, rfl⟩
  | stripControl select =>
      obtain ⟨r, hoption, h⟩ := Runs.bind_ok h
      obtain rfl := Except.ok.inj h
      have hassigned := hshows.2.2.symm.trans (readAt_eq_ok.mp hoption)
      exact ⟨rfl, r, _, _, hassigned, congrArg (Setting.text · _ _) (hbehind.label r)⟩
  | midiValue r =>
      obtain rfl := Except.ok.inj h
      refine ⟨hbehind.label r, fun hr => ?_⟩
      rw [← hbehind.others r hr]
      exact ⟨_, _, rfl⟩

/-- A screen that is drawn shows the picture of the element on top. -/
theorem Drawn.picture {vs : MidiValueRef → MidiValue} (h : Drawn vs w) {screen : Screen}
    (hscreen : w.display = some screen) {e : Element}
    (he : renderedElement w = .ok (some e)) :
    elements.render e (withValues vs w).rest = .ok screen := by
  have he' : renderedElement (withValues vs w) = .ok (some e) := he
  have hscreen' : (withValues vs w).display = some screen := hscreen
  rw [Drawn] at h
  simp only [uiRender, hscreen', he', bind, Except.bind] at h
  split at h
  · cases h
  · next picture hpicture =>
      have hsame := congrArg UiStack.display (Except.ok.inj h)
      rw [hscreen'] at hsame
      rw [hpicture, Option.some.inj hsame]

/-- What is drawn of an item that can be drawn. -/
def drawnItem (app : App) (item : Item) (focus : Bool) : Menus.Drawn :=
  match drawItem app item focus with
  | .ok drawn => drawn
  | .error _ => ⟨"", .none⟩

theorem drawItem_eq (app : App) {item : Item} (h : item.Valid) (focus : Bool) :
    drawItem app item focus = .ok (drawnItem app item focus) := by
  have hdraws : ∃ drawn, drawItem app item focus = .ok drawn := drawItem_ok h focus
  obtain ⟨drawn, hdrawn⟩ := hdraws
  rw [drawnItem, hdrawn]

/-- The screen has the rows of the window of the menu, one below the other, with the
cursor where an input goes, and each of them says what is so. -/
def ScreenSays (w : World) (p : Ptr) (screen : Screen) : Prop :=
  ∃ self items lines, w.rest.heap.menus.read p = .ok self ∧ openItems w = .ok items ∧
    screen = .menu lines ∧
    List.Forall₂ (fun q line => line.y.toNat = 8 * (q.2 - self.scroll.toNat) ∧
      (line.cursor = true ↔ q.2 = self.index.toNat) ∧ Says w.rest q.1 line.content)
      (visible items self.scroll.toNat) lines

/-- In every run the screen is right about the menu on top, whatever keys, strip and links
have done since it was opened. -/
theorem screen_says (h : Firmware.boot boot displayOk keymap saved >>= run es = .ok k)
    {screen : Screen} (hscreen : k.world.display = some screen) {p : Ptr}
    (hp : renderedElement k.world = .ok (some (.menu p))) : ScreenSays k.world p screen := by
  obtain ⟨⟨fs, hgood⟩, hagreed, -, vs, hbehind, hdrawn⟩ := reached_current h
  have hrendered := hgood.rep.stacked.renderedElement
  cases fs with
  | nil =>
      rw [hrendered] at hp
      rcases hgood.default with hd | hd <;> simp [shown, hd] at hp
  | cons f fs =>
      obtain rfl : f.menu = p := by
        rw [hrendered] at hp
        simpa [shown, Frame.onStack] using hp
      have hmem : f ∈ f :: fs := List.mem_cons_self ..
      have hshort := (hgood.frames f hmem).short
      have hpicture := hdrawn.picture hscreen hp
      have hmenu := hgood.rep.heap.renderMenu_eq hmem (Nat.lt_of_le_of_lt hshort (by decide))
        (fun q hq focus => drawItem_eq (withValues vs k.world).rest
          ((hgood.frames f hmem).items q hq) focus) true
      have hlines : elements.render (.menu f.menu) (withValues vs k.world).rest =
          .ok (.menu ((visible (f.items.map Prod.snd) f.scroll.toNat).map
            (lineOf (drawnItem (withValues vs k.world).rest) true f.record))) := by
        simp only [elements, withValues] at hmenu ⊢
        rw [hmenu]
        rfl
      refine ⟨f.record, _, _, hgood.rep.heap.menu hmem, openItems_eq hgood,
        Except.ok.inj (hpicture.symm.trans hlines), ?_⟩
      refine List.forall₂_map_right_iff.mpr (List.forall₂_same.mpr fun q hq => ?_)
      have hzip : q ∈ (f.items.map Prod.snd).zipIdx :=
        List.mem_of_mem_drop (List.mem_of_mem_take hq)
      obtain ⟨x, hx, hitem⟩ := List.mem_map.mp (List.fst_mem_of_mem_zipIdx hzip)
      have hposition := List.snd_lt_of_mem_zipIdx hzip
      rw [List.length_map] at hposition
      refine ⟨?_, beq_iff_eq, ?_⟩
      · change (UInt8.ofNat (8 * (q.2 - f.scroll.toNat))).toNat = 8 * (q.2 - f.scroll.toNat)
        rw [UInt8.toNat_ofNat']
        omega
      · have hshows := hagreed.shows x.1 x.2 (hgood.rep.heap.item hmem hx)
        have hdraw := drawItem_eq (withValues vs k.world).rest
          ((hgood.frames f hmem).items x hx) (true && q.2 == f.record.index.toNat)
        rw [hitem] at hshows hdraw
        exact drawItem_says hbehind hshows hdraw

theorem menuWhileHeld_screen :
    ∃ k screen p, Firmware.boot ConnectMenu.quiet true .piano .off >>= run menuWhileHeld = .ok k ∧
      k.world.display = some screen ∧ renderedElement k.world = .ok (some (.menu p)) ∧
      ScreenSays k.world p screen := by
  have hrun : Firmware.boot ConnectMenu.quiet true .piano .off >>= run menuWhileHeld = .ok _ := rfl
  exact ⟨_, _, _, hrun, rfl, rfl, screen_says hrun rfl rfl⟩

end Screens

end Keytar.Firmware
