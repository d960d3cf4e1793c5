import Keytar.ConnectMenu
import Keytar.Settings

/-!
# The main menu as a panel

To its user the open main menu is a cursor over five rows and three settings that the
rows show and turn. The blocks of the menu, its items, the callbacks and the redraws do
to the firmware what the inputs do to that panel, and leave the Bluetooth roles alone. This
holds as long as an input neither closes the menu nor opens another one over it.
-/
namespace Keytar.MenuPanel
open AnalogStrip ConnectMenu KeyboardMatrix Memory MidiBle MidiValues Settings Ui Menus

/-- The items of the menu on top, through its pointers. -/
def openItems (w : World) : Except Fault (List Item) := do
  match ← renderedElement w with
  | some (.menu p) => do
      let self ← w.rest.heap.menus.read p
      let slots ← w.rest.heap.arrays.read self.items
      (List.range self.length.toNat).mapM fun i => do
        let item ← readSlot none slots i
        w.rest.heap.items.read item
  | _ => pure []

/-- Where an input takes the cursor of the main menu. -/
def cursor (row : ℕ) : Nav → ℕ
  | .up => moveRow 5 row .up
  | .down => moveRow 5 row .down
  | _ => row

/-- ENTER opens another menu on the rows 0 and 2; RETURN and CLOSE close the menu. -/
def staysOpen (row : ℕ) : Nav → Bool
  | .return => false
  | .close => false
  | .enter => row != 0 && row != 2
  | _ => true

/-- The inputs leave the main menu open, from a row of the cursor on. -/
def stays : ℕ → List Nav → Bool
  | _, [] => true
  | row, nav :: navs => staysOpen row nav && stays (cursor row nav) navs

/-- The inputs of a run, each with what the hardware answers meanwhile. -/
def inputEvents (inputs : List (Answers × Nav)) : List (Answers × Event) :=
  inputs.map fun input => (input.1, .navigate input.2)

/-- The cursor, and the settings as positions among their options. -/
structure Panel where
  row : ℕ
  keymap : ℕ
  strip : ℕ
  reset : Bool
  deriving DecidableEq, Repr

/-- LEFT and RIGHT turn the setting of a row of options, ENTER flips the last row. -/
def Panel.press (p : Panel) (nav : Nav) : Panel where
  row := cursor p.row nav
  keymap := if p.row = 1 then turn keymaps.length p.keymap nav else p.keymap
  strip := if p.row = 3 then turn midiValues.length p.strip nav else p.strip
  reset := if p.row = 4 ∧ nav = .enter then !p.reset else p.reset

/-- The items that show the panel. -/
def Panel.items (p : Panel) : List Item :=
  mainItems ⟨"Keymap", p.keymap, keymaps.length - 1, keymaps⟩
    ⟨"Strip control", p.strip, midiValues.length - 1, midiValues⟩ p.reset

/-- The main menu is open over nothing else and shows the panel, whose settings are those
of the firmware. -/
structure Shown (d : Option Element) (ble : Ble) (p : Panel) (w : World) : Prop where
  menu : ∃ f, Good d False [f] w ∧ f.items.map Prod.snd = p.items ∧ f.index.toNat = p.row
  keymap : keymaps[p.keymap]? = some w.rest.keymap
  strip : ∃ r, midiValues[p.strip]? = some r ∧ w.rest.strip = ⟨some r, p.reset⟩
  ble : w.rest.ble = ble

/-- What the main menu controls, and the roles, which it does not. -/
structure Controls where
  keymap : Keymap
  strip : Strip
  ble : Ble

def controls (a : App) : Controls := ⟨a.keymap, a.strip, a.ble⟩

section Items
variable {d : Option Element} {f : Frame Item} {w : World} {i : ℕ} {y : Item} {c : Controls}

theorem openItems_eq {fs : List (Frame Item)} (h : Good d False (f :: fs) w) :
    openItems w = .ok (f.items.map Prod.snd) := by
  have hmem : f ∈ f :: fs := List.mem_cons_self ..
  have hshort := (h.frames f hmem).short
  have hshown : renderedElement w = .ok (some (.menu f.menu)) := h.rep.stacked.renderedElement
  simp only [openItems, hshown, h.rep.heap.menu hmem, Frame.record_items, h.rep.heap.array hmem,
    f.length_toNat (Nat.lt_of_le_of_lt hshort (by decide)), bind, Except.bind]
  refine Runs.mapM_ok (List.forall₂_iff_get.mpr ⟨by simp, fun i hi hi' => ?_⟩)
  have hlt : i < f.items.length := by simpa using hi
  simp only [List.get_eq_getElem, List.getElem_range, List.getElem_map, f.readSlot_item hlt]
  exact h.rep.heap.item hmem (List.getElem_mem hlt)

/-- Without a menu the status screen is shown. -/
theorem frames_nil {fs : List (Frame Item)} (h : Good d False fs w)
    (hcurrent : w.current = none) : fs = [] := by
  have hstack := h.rep.stacked.current
  rw [hcurrent] at hstack
  cases fs with
  | nil => rfl
  | cons f fs => cases hstack

/-- The operation leaves one menu open, with `y` as its item `i`, and the controls `c`. -/
def Dials (d : Option Element) (f : Frame Item) (i : ℕ) (y : Item) (c : Controls)
    (r : Except Fault World) : Prop :=
  ∃ w' g, r = .ok w' ∧ Good d False [g] w' ∧ g.index = f.index ∧
    g.items.map Prod.snd = (f.items.map Prod.snd).set i y ∧ controls w'.rest = c

/-- What follows may change the controls, but no menu. -/
theorem Dials.bind {r : Except Fault World} {k : World → Except Fault World}
    (h : Dials d f i y c r) {F : Controls → Controls}
    (hk : ∀ v g, Good d False [g] v → ∃ w', k v = .ok w' ∧ Good d False [g] w' ∧
      controls w'.rest = F (controls v.rest)) :
    Dials d f i y (F c) (r >>= k) := by
  obtain ⟨v, g, hv, hgood, hindex, hitems, hc⟩ := h
  obtain ⟨w', hw', hgood', hc'⟩ := hk v g hgood
  exact ⟨w', g, by rw [hv]; exact hw', hgood', hindex, hitems, by rw [hc', hc]⟩

theorem render_dials (v : World) (g : Frame Item) (h : Good d False [g] v) :
    ∃ w', uiRender elements v = .ok w' ∧ Good d False [g] w' ∧
      controls w'.rest = id (controls v.rest) := by
  obtain ⟨w', hw', hgood, -⟩ := h.render
  exact ⟨w', hw', hgood, by rw [uiRender_rest elements hw']; rfl⟩

theorem self_dials (h : Good d False [f] w) (hi : i < f.items.length) :
    Dials d f i (f.items[i]).2 (controls w.rest) (.ok w) := by
  refine ⟨w, f, rfl, h, rfl, ?_, rfl⟩
  have hlength : i < (f.items.map Prod.snd).length := by rwa [List.length_map]
  have hget : (f.items[i]).2 = (f.items.map Prod.snd)[i] := (List.getElem_map ..).symm
  rw [hget, List.set_getElem_self]

theorem writeItem_dials (h : Good d False [f] w) (hi : i < f.items.length) (hy : y.Valid)
    (hfits : y.Fits w.rest.ble) (hopens : y.opens = 0) :
    Dials d f i y (controls w.rest) (writeItem (f.items[i]).1 y w) := by
  have hread := h.rep.heap.item (List.mem_cons_self ..) (List.getElem_mem hi)
  obtain ⟨w', hw', hgood, -⟩ := h.writeItem hread hy hfits hopens
  have hnodup : (f.items.map Prod.fst).Nodup := by simpa using h.rep.heap.items.nodup
  refine ⟨w', f.replace _ y, hw', hgood, rfl, f.replace_items hnodup hi y, ?_⟩
  obtain ⟨items, -, hw'⟩ := Runs.bind_ok hw'
  rw [← Except.ok.inj hw']
  rfl

/-- An input to a select item: the option at the new index is the setting. -/
theorem select_dials {α : Type} {item : Select α → Item}
    {onChange : α → World → Except Fault World} (dial : α → Controls → Controls)
    {self : Select α} (h : Good d False [f] w) (hi : i < f.items.length)
    (hself : (f.items[i]).2 = item self) (hvalid : self.Valid)
    (hitem : ∀ s : Select α, s.Valid →
      (item s).Valid ∧ (item s).Fits w.rest.ble ∧ (item s).opens = 0)
    (hchange : ∀ x v g, Good d False [g] v → ∃ w', onChange x v = .ok w' ∧
      Good d False [g] w' ∧ controls w'.rest = dial x (controls v.rest))
    (hnow : ∀ x, self.options[self.index]? = some x → dial x (controls w.rest) = controls w.rest)
    (nav : Nav) :
    ∃ x, self.options[turn self.options.length self.index nav]? = some x ∧
      Dials d f i (item { self with index := turn self.options.length self.index nav })
        (dial x (controls w.rest)) (navigateSelect (f.items[i]).1 item onChange self nav w) := by
  have hlt : self.index < self.options.length := by
    have hindex := hvalid.index
    have hmax := hvalid.max
    omega
  have hnav := hvalid.navigate_eq nav
  obtain ⟨x, hx⟩ : ∃ x, self.options[turn self.options.length self.index nav]? = some x :=
    ⟨_, List.getElem?_eq_getElem (turn_lt hlt nav)⟩
  refine ⟨x, hx, ?_⟩
  by_cases hsame : turn self.options.length self.index nav = self.index
  · simp only [navigateSelect, hnav, if_pos hsame, bind, Except.bind]
    rw [hnow x (by rwa [← hsame])]
    have hstays : item { self with index := turn self.options.length self.index nav } =
        (f.items[i]).2 := by
      rw [hsame, hself]
    rw [hstays]
    exact self_dials h hi
  · obtain ⟨after, hafter, hmoved⟩ := hvalid.navigate nav
    obtain rfl := Except.ok.inj (hafter.symm.trans hnav)
    obtain ⟨hv, hf, ho⟩ := hitem _ hmoved
    simp only [navigateSelect, hnav, if_neg hsame, hx]
    refine (writeItem_dials h hi hv hf ho).bind fun v g hg => ?_
    obtain ⟨u, hu, hgood, hdialled⟩ := hchange x v g hg
    obtain ⟨w', hw', hgood', hcontrols⟩ := render_dials u g hgood
    exact ⟨w', by rw [hu]; exact hw', hgood', hcontrols.trans hdialled⟩

end Items

section Rows
variable {d : Option Element} {f : Frame Item} {w : World} {i : ℕ} (a : Answers) (nav : Nav)
  (h : Good d False [f] w) (hi : i < f.items.length)

include h

/-- The items that open other menus do so on ENTER alone. -/
theorem default_dials {label : String} {action : Action}
    (hself : (f.items[i]).2 = .default label action) (henter : nav ≠ .enter) :
    Dials d f i (.default label action) (controls w.rest)
      (navigateItem a (f.items[i]).1 nav w) := by
  have hread := h.rep.heap.item (List.mem_cons_self ..) (List.getElem_mem hi)
  have hsame := self_dials h hi
  rw [hself] at hread hsame
  simp only [navigateItem, hread, if_neg henter, bind, Except.bind]
  exact hsame

theorem keymap_dials {self : Select Keymap} (hself : (f.items[i]).2 = .keymap self)
    (hnow : self.options[self.index]? = some w.rest.keymap) :
    ∃ m, self.options[turn self.options.length self.index nav]? = some m ∧
      Dials d f i (.keymap { self with index := turn self.options.length self.index nav })
        { controls w.rest with keymap := m } (navigateItem a (f.items[i]).1 nav w) := by
  have hread := h.rep.heap.item (List.mem_cons_self ..) (List.getElem_mem hi)
  have hvalid := (h.frames f (List.mem_cons_self ..)).items _ (List.getElem_mem hi)
  rw [hself] at hread hvalid
  simp only [navigateItem, hread, bind, Except.bind]
  apply select_dials (fun m c => { c with keymap := m }) h hi hself hvalid
  · exact fun s hs => ⟨hs, trivial, rfl⟩
  · intro m v g hg
    obtain ⟨w', hw', hgood, hcontrols⟩ :=
      render_dials _ g (hg.withRest { v.rest with keymap := m } rfl rfl rfl hg.ble)
    exact ⟨w', hw', hgood, hcontrols⟩
  · intro m hm
    obtain rfl : m = w.rest.keymap := Option.some.inj (hm.symm.trans hnow)
    rfl

theorem stripControl_dials {self : Select MidiValueRef} {r : MidiValueRef} {reset : Bool}
    (hself : (f.items[i]).2 = .stripControl self) (hnow : self.options[self.index]? = some r)
    (hstrip : w.rest.strip = ⟨some r, reset⟩) :
    ∃ q, self.options[turn self.options.length self.index nav]? = some q ∧
      Dials d f i (.stripControl { self with index := turn self.options.length self.index nav })
        { controls w.rest with strip := ⟨some q, reset⟩ }
        (navigateItem a (f.items[i]).1 nav w) := by
  have hread := h.rep.heap.item (List.mem_cons_self ..) (List.getElem_mem hi)
  have hvalid := (h.frames f (List.mem_cons_self ..)).items _ (List.getElem_mem hi)
  rw [hself] at hread hvalid
  simp only [navigateItem, hread, bind, Except.bind]
  obtain ⟨q, hq, hdials⟩ := select_dials
    (fun r c => { c with strip := ⟨some r, c.strip.resetOnRelease⟩ }) h hi hself hvalid
    (fun s hs => ⟨hs, trivial, rfl⟩)
    (fun r v g hg => ⟨_, rfl, hg.assignStrip a (some r) v.rest.strip.resetOnRelease, rfl⟩)
    (fun q hq => by
      obtain rfl : q = r := Option.some.inj (hq.symm.trans hnow)
      simp only [controls, hstrip]) nav
  have hcontrols : controls w.rest = ⟨w.rest.keymap, ⟨some r, reset⟩, w.rest.ble⟩ := by
    rw [controls, hstrip]
  rw [hcontrols] at hdials ⊢
  exact ⟨q, hq, hdials⟩

theorem checkbox_dials {label : String} {r : Option MidiValueRef} {value : Bool}
    (hself : (f.items[i]).2 = .checkbox label value) (hstrip : w.rest.strip = ⟨r, value⟩) :
    let value' := if nav = .enter then !value else value
    Dials d f i (.checkbox label value') { controls w.rest with strip := ⟨r, value'⟩ }
      (navigateItem a (f.items[i]).1 nav w) := by
  have hread := h.rep.heap.item (List.mem_cons_self ..) (List.getElem_mem hi)
  rw [hself] at hread
  have hcontrols : controls w.rest = ⟨w.rest.keymap, ⟨r, value⟩, w.rest.ble⟩ := by
    rw [controls, hstrip]
  simp only [navigateItem, hread, navigateCheckbox, hcontrols, bind, Except.bind]
  split_ifs
  · have hwrite := writeItem_dials (y := .checkbox label (!value)) h hi trivial trivial rfl
    have hflip := hwrite.bind (F := fun c => { c with strip := ⟨c.strip.midiValue, !value⟩ })
      fun v g hg => ⟨_, rfl, hg.assignStrip a v.rest.strip.midiValue (!value), rfl⟩
    rw [hcontrols] at hflip
    exact hflip
  · have hsame := self_dials h hi
    rw [hself, hcontrols] at hsame
    exact hsame

end Rows

section Inputs
variable {d : Option Element} {ble : Ble} {p : Panel} {f : Frame Item} {w : World}

theorem shown_of {m : Keymap} {r : MidiValueRef} (hgood : Good d False [f] w)
    (hitems : f.items.map Prod.snd = p.items) (hrow : f.index.toNat = p.row)
    (hm : keymaps[p.keymap]? = some m) (hr : midiValues[p.strip]? = some r)
    (hc : controls w.rest = ⟨m, ⟨some r, p.reset⟩, ble⟩) : Shown d ble p w where
  menu := ⟨f, hgood, hitems, hrow⟩
  keymap := by rw [show w.rest.keymap = m from congrArg Controls.keymap hc, hm]
  strip := ⟨r, hr, congrArg Controls.strip hc⟩
  ble := congrArg Controls.ble hc

theorem Shown.openItems (h : Shown d ble p w) : MenuPanel.openItems w = .ok p.items := by
  obtain ⟨f, hgood, hitems, -⟩ := h.menu
  rw [openItems_eq hgood, hitems]

theorem move_controls {a : Answers} {self : Ptr} {move : Move} {w' : World}
    (h : navigateMenu a self move.nav w = .ok w') : controls w'.rest = controls w.rest := by
  obtain ⟨menu, -, h⟩ := Runs.bind_ok h
  cases move with
  | up =>
      obtain ⟨menus, -, h⟩ := Runs.bind_ok h
      rw [← Except.ok.inj h]
      rfl
  | down =>
      obtain ⟨menus, -, h⟩ := Runs.bind_ok h
      rw [← Except.ok.inj h]
      rfl

/-- An input that the menu hands to the item under the cursor. -/
theorem item_pressed {i : ℕ} {y : Item} {c : Controls} {a : Answers} {nav : Nav}
    (h : Good d False [f] w) (hi : f.index.toNat < f.items.length) (hup : nav ≠ .up)
    (hdown : nav ≠ .down) (hreturn : nav ≠ .return) (hclose : nav ≠ .close)
    (hdials : Dials d f i y c (navigateItem a (f.items[f.index.toNat]).1 nav w)) :
    Dials d f i y c (Menus.step w (a, .navigate nav)) := by
  rw [step_menu h a hreturn hclose, navigateMenu_item a h hup hdown, f.readSlot_item hi]
  exact hdials.bind render_dials

/-- A move of the cursor changes no setting. -/
theorem Shown.move (h : Shown d ble p w) (a : Answers) (move : Move) :
    ∃ w', Menus.step w (a, .navigate move.nav) = .ok w' ∧
      Shown d ble { p with row := moveRow 5 p.row move } w' := by
  obtain ⟨f, hgood, hitems, hrow⟩ := h.menu
  obtain ⟨r, hr, hstrip⟩ := h.strip
  have hlength : f.items.length = 5 := by
    rw [← List.length_map (f := Prod.snd), hitems]
    rfl
  have hreturn : move.nav ≠ .return := by cases move <;> decide
  have hclose : move.nav ≠ .close := by cases move <;> decide
  obtain ⟨v, hv, hgood', -⟩ := hgood.navigateMenu_move a move
  obtain ⟨w', hw', hgood'', hcontrols⟩ := render_dials v _ hgood'
  refine ⟨w', by rw [step_menu hgood a hreturn hclose, hv]; exact hw', ?_⟩
  apply shown_of (p := { p with row := moveRow 5 p.row move }) hgood'' hitems ?_ h.keymap hr
  · rw [hcontrols, id, move_controls hv, controls, hstrip, h.ble]
  · rw [← hrow, ← hlength]
    exact move_index (by omega) move

theorem press_move (p : Panel) (move : Move) :
    p.press move.nav = { p with row := moveRow 5 p.row move } := by
  cases move <;> simp only [Panel.press, Move.nav, cursor, turn, ite_self, reduceCtorEq, and_false,
    if_false]

/-- The open menu does what the panel does, as long as it stays open. -/
theorem Shown.press (h : Shown d ble p w) (a : Answers) {nav : Nav}
    (hnav : staysOpen p.row nav = true) :
    ∃ w', Menus.step w (a, .navigate nav) = .ok w' ∧ Shown d ble (p.press nav) w' := by
  by_cases hup : nav = .up
  · subst hup
    rw [show p.press .up = _ from press_move p .up]
    exact h.move a .up
  by_cases hdown : nav = .down
  · subst hdown
    rw [show p.press .down = _ from press_move p .down]
    exact h.move a .down
  have hreturn : nav ≠ .return := by
    rintro rfl
    cases hnav
  have hclose : nav ≠ .close := by
    rintro rfl
    cases hnav
  obtain ⟨f, hgood, hitems, hrow⟩ := h.menu
  obtain ⟨r, hr, hstrip⟩ := h.strip
  have hlength : f.items.length = 5 := by
    rw [← List.length_map (f := Prod.snd), hitems]
    rfl
  have hi : f.index.toNat < f.items.length := by
    refine (hgood.frames f (List.mem_cons_self ..)).index.resolve_right fun hnil => ?_
    simp [hnil] at hlength
  have hcursor : cursor p.row nav = p.row := by cases nav <;> first | rfl | contradiction
  have hself : some (f.items[f.index.toNat]).2 = p.items[p.row]? := by
    rw [← hitems, List.getElem?_map, ← hrow, List.getElem?_eq_getElem hi]
    rfl
  have hnow : controls w.rest = ⟨w.rest.keymap, ⟨some r, p.reset⟩, ble⟩ := by
    rw [controls, hstrip, h.ble]
  -- the item under the cursor changes, and its setting with it
  have hshow {y : Item} {m : Keymap} {q : MidiValueRef} {b : Bool}
      (hdials : Dials d f f.index.toNat y ⟨m, ⟨some q, b⟩, ble⟩
        (navigateItem a (f.items[f.index.toNat]).1 nav w))
      (hset : p.items.set p.row y = (p.press nav).items)
      (hm : keymaps[(p.press nav).keymap]? = some m)
      (hq : midiValues[(p.press nav).strip]? = some q) (hb : (p.press nav).reset = b) :
      ∃ w', Menus.step w (a, .navigate nav) = .ok w' ∧ Shown d ble (p.press nav) w' := by
    obtain ⟨w', g, hw', hgood', hindex, hitems', hc⟩ :=
      item_pressed hgood hi hup hdown hreturn hclose hdials
    refine ⟨w', hw', shown_of hgood' ?_ ?_ hm hq (by rw [hb]; exact hc)⟩
    · rw [hitems', hitems, hrow, hset]
    · rw [hindex, hrow]
      exact hcursor.symm
  have hkeymap := h.keymap
  have hlt : p.row < 5 := by rwa [← hrow, ← hlength]
  obtain ⟨row, keymap, strip, reset⟩ := p
  obtain rfl | rfl | rfl | rfl | rfl : row = 0 ∨ row = 1 ∨ row = 2 ∨ row = 3 ∨ row = 4 := by
    change row < 5 at hlt
    omega
  · have henter : nav ≠ .enter := by
      rintro rfl
      cases hnav
    have hdials := default_dials a nav hgood hi (Option.some.inj hself) henter
    rw [hnow] at hdials
    exact hshow hdials rfl hkeymap hr rfl
  · obtain ⟨m, hm, hdials⟩ := keymap_dials a nav hgood hi (Option.some.inj hself) hkeymap
    rw [hnow] at hdials
    exact hshow hdials rfl hm hr rfl
  · have henter : nav ≠ .enter := by
      rintro rfl
      cases hnav
    have hdials := default_dials a nav hgood hi (Option.some.inj hself) henter
    rw [hnow] at hdials
    exact hshow hdials rfl hkeymap hr rfl
  · obtain ⟨q, hq, hdials⟩ :=
      stripControl_dials a nav hgood hi (Option.some.inj hself) hr hstrip
    rw [hnow] at hdials
    exact hshow hdials rfl hkeymap hq rfl
  · have hdials := checkbox_dials a nav hgood hi (Option.some.inj hself) hstrip
    rw [hnow] at hdials
    refine hshow hdials ?_ hkeymap hr ?_
    · by_cases henter : nav = .enter <;> simp [Panel.press, Panel.items, mainItems, henter]
    · by_cases henter : nav = .enter <;> simp [Panel.press, henter]

theorem Shown.run (inputs : List (Answers × Nav)) :
    ∀ {p : Panel} {w : World}, Shown d ble p w → stays p.row (inputs.map Prod.snd) = true →
      ∃ w', Menus.run (inputEvents inputs) w = .ok w' ∧
        Shown d ble ((inputs.map Prod.snd).foldl Panel.press p) w' := by
  induction inputs with
  | nil => exact fun {p w} h _ => ⟨w, rfl, h⟩
  | cons input inputs ih =>
      intro p w h hstays
      rw [List.map_cons, stays, Bool.and_eq_true] at hstays
      obtain ⟨v, hv, hshown⟩ := h.press input.1 hstays.1
      obtain ⟨w', hrun, hshown'⟩ := ih hshown hstays.2
      refine ⟨w', ?_, hshown'⟩
      rw [inputEvents, List.map_cons, Menus.run, List.foldlM_cons, hv]
      exact hrun

end Inputs

section Dialling

theorem foldl_turn_left (n i steps : ℕ) :
    (List.replicate steps Nav.left).foldl (turn n) i = i - steps := by
  induction steps generalizing i with
  | zero => rfl
  | succ steps ih =>
      rw [List.replicate_succ, List.foldl_cons, ih]
      simp only [turn]
      omega

theorem foldl_turn_right {n i : ℕ} (h : i < n) (steps : ℕ) :
    (List.replicate steps Nav.right).foldl (turn n) i = min (i + steps) (n - 1) := by
  induction steps generalizing i with
  | zero =>
      simp only [List.replicate_zero, List.foldl_nil]
      omega
  | succ steps ih =>
      rw [List.replicate_succ, List.foldl_cons, ih (turn_lt h _)]
      simp only [turn]
      omega

/-- To the first of `n` options, and on to number `i`. -/
def turnTo (n i : ℕ) : List Nav := List.replicate (n - 1) .left ++ List.replicate i .right

theorem foldl_turnTo {n i j : ℕ} (hi : i < n) (hj : j < n) :
    (turnTo n i).foldl (turn n) j = i := by
  rw [turnTo, List.foldl_append, foldl_turn_left, foldl_turn_right (by omega)]
  omega

/-- LEFT and RIGHT. -/
def Turns (navs : List Nav) : Prop := ∀ nav ∈ navs, nav = .left ∨ nav = .right

theorem turnTo_turns (n i : ℕ) : Turns (turnTo n i) := by
  intro nav hnav
  rw [turnTo, List.mem_append] at hnav
  exact hnav.imp List.eq_of_mem_replicate List.eq_of_mem_replicate

theorem foldl_press_keymap {navs : List Nav} (h : Turns navs) (keymap strip : ℕ) (reset : Bool) :
    navs.foldl Panel.press ⟨1, keymap, strip, reset⟩ =
      ⟨1, navs.foldl (turn keymaps.length) keymap, strip, reset⟩ := by
  induction navs generalizing keymap with
  | nil => rfl
  | cons nav navs ih =>
      have hrest := ih fun nav hnav => h nav (List.mem_cons_of_mem _ hnav)
      rcases h nav List.mem_cons_self with rfl | rfl
      · exact hrest _
      · exact hrest _

theorem foldl_press_strip {navs : List Nav} (h : Turns navs) (keymap strip : ℕ) (reset : Bool) :
    navs.foldl Panel.press ⟨3, keymap, strip, reset⟩ =
      ⟨3, keymap, navs.foldl (turn midiValues.length) strip, reset⟩ := by
  induction navs generalizing strip with
  | nil => rfl
  | cons nav navs ih =>
      have hrest := ih fun nav hnav => h nav (List.mem_cons_of_mem _ hnav)
      rcases h nav List.mem_cons_self with rfl | rfl
      · exact hrest _
      · exact hrest _

/-- From the first row, over the keymap and the value for the strip, to the last row. -/
def dialRows (keymap strip : ℕ) : List Nav :=
  .down :: (turnTo keymaps.length keymap ++
    .down :: .down :: (turnTo midiValues.length strip ++ [.down]))

/-- The settings are dialled in, where `flip` says whether the flag has to change. -/
def dial (keymap strip : ℕ) (flip : Bool) : List Nav :=
  dialRows keymap strip ++ if flip then [.enter] else []

theorem foldl_dialRows {keymap strip i j : ℕ} (hkeymap : keymap < keymaps.length)
    (hstrip : strip < midiValues.length) (hi : i < keymaps.length) (hj : j < midiValues.length)
    (reset : Bool) :
    (dialRows keymap strip).foldl Panel.press ⟨0, i, j, reset⟩ = ⟨4, keymap, strip, reset⟩ := by
  rw [dialRows, List.foldl_cons, List.foldl_append]
  change List.foldl Panel.press (List.foldl Panel.press ⟨1, i, j, reset⟩ _) _ = _
  rw [foldl_press_keymap (turnTo_turns _ _), foldl_turnTo hkeymap hi, List.foldl_cons,
    List.foldl_cons, List.foldl_append]
  change List.foldl Panel.press (List.foldl Panel.press ⟨3, keymap, j, reset⟩ _) _ = _
  rw [foldl_press_strip (turnTo_turns _ _), foldl_turnTo hstrip hj]
  rfl

theorem foldl_dial {p : Panel} (hrow : p.row = 0) {keymap strip : ℕ}
    (hkeymap : keymap < keymaps.length) (hstrip : strip < midiValues.length)
    (hi : p.keymap < keymaps.length) (hj : p.strip < midiValues.length) (reset : Bool) :
    (dial keymap strip (p.reset != reset)).foldl Panel.press p = ⟨4, keymap, strip, reset⟩ := by
  obtain ⟨row, i, j, old⟩ := p
  obtain rfl : row = 0 := hrow
  rw [dial, List.foldl_append, foldl_dialRows hkeymap hstrip hi hj]
  cases old <;> cases reset <;> rfl

theorem stays_append (row : ℕ) (navs navs' : List Nav) :
    stays row (navs ++ navs') = (stays row navs && stays (navs.foldl cursor row) navs') := by
  induction navs generalizing row with
  | nil => rfl
  | cons nav navs ih => rw [List.cons_append, stays, ih, stays, Bool.and_assoc]; rfl

theorem foldl_press_row (navs : List Nav) (p : Panel) :
    (navs.foldl Panel.press p).row = navs.foldl cursor p.row := by
  induction navs generalizing p with
  | nil => rfl
  | cons nav navs ih => exact ih (p.press nav)

theorem stays_turns {navs : List Nav} (h : Turns navs) (row : ℕ) : stays row navs = true := by
  induction navs with
  | nil => rfl
  | cons nav navs ih =>
      have hrest := ih fun nav hnav => h nav (List.mem_cons_of_mem _ hnav)
      rcases h nav List.mem_cons_self with rfl | rfl
      · exact hrest
      · exact hrest

/-- The menu stays open, as ENTER comes on the last row. -/
theorem stays_dial {keymap strip : ℕ} (hkeymap : keymap < keymaps.length)
    (hstrip : strip < midiValues.length) (flip : Bool) :
    stays 0 (dial keymap strip flip) = true := by
  have hrow := foldl_press_row (dialRows keymap strip) ⟨0, 0, 0, false⟩
  rw [foldl_dialRows hkeymap hstrip (by decide) (by decide)] at hrow
  have hrows : stays 0 (dialRows keymap strip) = true := by
    simp only [dialRows, stays, stays_append, stays_turns (turnTo_turns _ _), staysOpen,
      Bool.and_true]
  rw [dial, stays_append, hrows, ← hrow]
  cases flip <;> rfl

theorem length_dial (keymap strip : ℕ) (flip : Bool) :
    (dial keymap strip flip).length ≤ keymap + strip + 16 := by
  have hturn (n i : ℕ) : (turnTo n i).length = (n - 1) + i := by simp [turnTo]
  have hkeymaps : keymaps.length = 7 := rfl
  have hvalues : midiValues.length = 6 := rfl
  simp only [dial, dialRows, List.length_append, List.length_cons, List.length_nil, hturn, hkeymaps,
    hvalues]
  cases flip <;> simp only [List.length_cons, List.length_nil, if_true, Bool.false_eq_true,
    if_false] <;> omega

end Dialling

section Opened
variable {w : World}

/-- The panel that shows the settings when the menu is opened. -/
def freshPanel (a : App) : Panel :=
  ⟨0, getKeymapIndex a.keymap, analogStripIndex a.strip, a.strip.resetOnRelease⟩

theorem open_shown (h : Good (some .uiStatus) False [] w)
    (hassigned : w.rest.strip.midiValue ≠ none) (a : Answers) {nav : Nav}
    (hnav : nav = .return ∨ nav = .close) :
    ∃ w', Menus.step w (a, .navigate nav) = .ok w' ∧
      Shown (some .uiStatus) w.rest.ble (freshPanel w.rest) w' := by
  obtain ⟨v, f, hv, hgood, hitems, hstart, -⟩ := h.pushMenuMain
  obtain ⟨w', hw', hgood', hcontrols⟩ := render_dials v f hgood
  have hpush : navigateStatus nav w = pushMenuMain w := by
    rcases hnav with rfl | rfl <;> rfl
  have hcontrols' : controls v.rest = controls w.rest := by
    rw [pushMenuMain_eq] at hv
    obtain ⟨heap, -, hrest⟩ := pushMenuWith_rest hv
    rw [hrest]
    rfl
  obtain ⟨r, hr⟩ := Option.ne_none_iff_exists'.mp hassigned
  have hstrip : w.rest.strip = ⟨some r, w.rest.strip.resetOnRelease⟩ := by rw [← hr]
  refine ⟨w', ?_, ?_⟩
  · simp only [Menus.step, uiNavigate,
      dispatch_default (E := elements) (b := true) h.rep.stacked rfl, if_true, Menus.navigate,
      hpush, hv, bind, Except.bind]
    exact hw'
  · apply shown_of (p := freshPanel w.rest) (m := w.rest.keymap) (r := r) hgood' hitems
    · rw [hstart.1]
      rfl
    · exact getKeymapIndex_get w.rest.keymap
    · exact (analogStripIndex_get hassigned).trans hr
    · rw [hcontrols, id, hcontrols', controls, hstrip]
      rfl

/-- The main menu, opened from the status screen, and inputs that leave it open. -/
theorem opened_shown {fs : List (Frame Item)} (h : Good (some .uiStatus) False fs w)
    (hclosed : w.current = none) (hassigned : w.rest.strip.midiValue ≠ none) (a : Answers)
    {nav : Nav} (hnav : nav = .return ∨ nav = .close) (inputs : List (Answers × Nav))
    (hstays : stays 0 (inputs.map Prod.snd) = true) :
    ∃ w', Menus.run (inputEvents ((a, nav) :: inputs)) w = .ok w' ∧
      Shown (some .uiStatus) w.rest.ble
        ((inputs.map Prod.snd).foldl Panel.press (freshPanel w.rest)) w' := by
  obtain rfl := frames_nil h hclosed
  obtain ⟨v, hv, hshown⟩ := open_shown h hassigned a hnav
  obtain ⟨w', hw', hshown'⟩ := hshown.run inputs hstays
  refine ⟨w', ?_, hshown'⟩
  rw [inputEvents, List.map_cons, Menus.run, List.foldlM_cons, hv]
  exact hw'

/-- From every state without a menu that a run reaches, the opened main menu and any inputs
that leave it open do what they do to the panel: the items show it, the settings are its
settings, and the Bluetooth roles are not touched. -/
theorem mainMenu_refines {boot : Answers} {keymap : Keymap} {saved : BleState}
    {es : List (Answers × Event)} (hrun : bootUp boot true keymap saved >>= Menus.run es = .ok w)
    (hclosed : w.current = none) (a : Answers) {nav : Nav} (hnav : nav = .return ∨ nav = .close)
    (inputs : List (Answers × Nav)) (hstays : stays 0 (inputs.map Prod.snd) = true) :
    let p := (inputs.map Prod.snd).foldl Panel.press (freshPanel w.rest)
    ∃ w', Menus.run (inputEvents ((a, nav) :: inputs)) w = .ok w' ∧
      openItems w' = .ok p.items ∧ keymaps[p.keymap]? = some w'.rest.keymap ∧
      midiValues[p.strip]? = w'.rest.strip.midiValue ∧
      w'.rest.strip.resetOnRelease = p.reset ∧ w'.rest.ble = w.rest.ble := by
  obtain ⟨fs, hgood⟩ := reached_good hrun
  obtain ⟨w', hw', hshown⟩ :=
    opened_shown hgood hclosed (reached_agreed hrun).assigned a hnav inputs hstays
  obtain ⟨r, hr, hstrip⟩ := hshown.strip
  refine ⟨w', hw', hshown.openItems, hshown.keymap, ?_, ?_, hshown.ble⟩
  · rw [hr, hstrip]
  · rw [hstrip]

/-- From the guitar down to the 6 + 6 keymap and on to the omnichord, with the modulation. -/
def turnedBack : List (Answers × Nav) :=
  [.down, .left, .left, .right, .right, .right, .right, .down, .down, .right].map
    fun nav => (quiet, nav)

theorem turnedBack_refines :
    ∃ w w', bootUp quiet true .guitar .off >>= Menus.run [] = .ok w ∧
      Menus.run (inputEvents ((quiet, .close) :: turnedBack)) w = .ok w' ∧
      (turnedBack.map Prod.snd).foldl Panel.press (freshPanel w.rest) = ⟨3, 6, 1, true⟩ ∧
      w'.rest.keymap = .omnichord ∧ w'.rest.strip.midiValue = some .mvMod := by
  have hboot : bootUp quiet true .guitar .off >>= Menus.run [] = .ok _ := rfl
  obtain ⟨w', hw', -, hkeymap, hstrip, -⟩ :=
    mainMenu_refines hboot rfl quiet (.inr rfl) turnedBack (by decide)
  exact ⟨_, w', hboot, hw', rfl, (Option.some.inj hkeymap).symm, hstrip.symm⟩

end Opened

end Keytar.MenuPanel
