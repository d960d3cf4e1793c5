import Keytar.MenuSteps

/-!
# The settings and the items that show them

The main menu copies three settings into its items when it is opened, and an input
changes an item and its setting apart from each other. Everything else that happens
leaves the settings alone and makes no such item, so the live items show the settings
whatever is open.
-/
namespace Keytar.Settings
open AnalogStrip KeyboardMatrix Memory Midi MidiBle MidiValues Ui Menus

/-- The kinds of items that change a setting. -/
inductive Control where
  | keymap | strip | reset
  deriving DecidableEq, Repr

def control : Item → Option Control
  | .keymap _ => some .keymap
  | .stripControl _ => some .strip
  | .checkbox _ _ => some .reset
  | _ => none

/-- The item is in step with the setting that it changes. -/
def Shows (keymap : Keymap) (strip : Strip) : Item → Prop
  | .keymap select =>
      select.Valid ∧ select.options = keymaps ∧ select.options[select.index]? = some keymap
  | .stripControl select =>
      select.Valid ∧ select.options = midiValues ∧ select.options[select.index]? = strip.midiValue
  | .checkbox _ value => value = strip.resetOnRelease
  | _ => True

/-- No item for a setting is new or has changed. -/
def Keeps (m m' : MenuHeap Item) : Prop :=
  ∀ p x, m'.items.read p = .ok x → m.items.read p = .ok x ∨ control x = none

structure Spared (a b : App) : Prop where
  keymap : b.keymap = a.keymap
  strip : b.strip = a.strip
  items : Keeps a.heap b.heap

/-- Where the operation returns, it has spared the settings. -/
def Spares (w : World) (r : Except Fault World) : Prop :=
  ∀ w', r = .ok w' → Spared w.rest w'.rest

section Rules
variable {w v : World} {r : Except Fault World} {k : World → Except Fault World}

theorem Keeps.refl (m : MenuHeap Item) : Keeps m m := fun _ _ h => .inl h

theorem Keeps.trans {a b c : MenuHeap Item} (h : Keeps a b) (h' : Keeps b c) : Keeps a c := by
  intro p x hx
  rcases h' p x hx with hb | hnone
  · exact h p x hb
  · exact .inr hnone

theorem Spared.refl (a : App) : Spared a a := ⟨rfl, rfl, .refl _⟩

theorem Spared.trans {a b c : App} (h : Spared a b) (h' : Spared b c) : Spared a c :=
  ⟨h'.keymap.trans h.keymap, h'.strip.trans h.strip, h.items.trans h'.items⟩

theorem Spares.ok (h : Spared w.rest v.rest) : Spares w (.ok v) := by
  intro w' hw'
  rwa [← Except.ok.inj hw']

theorem Spares.self (w : World) : Spares w (.ok w) := .ok (.refl _)

theorem Spares.after (h : Spared w.rest v.rest) (hr : Spares v r) : Spares w r :=
  fun w' hw' => h.trans (hr w' hw')

theorem Spares.bind (h : Spares w r) (hk : ∀ v, Spares v (k v)) : Spares w (r >>= k) := by
  intro w' hw'
  obtain ⟨v, hv, hrest⟩ := Runs.bind_ok hw'
  exact (h v hv).trans (hk v w' hrest)

end Rules

section Operations
variable {w : World}

theorem render_spares (w : World) : Spares w (uiRender elements w) := by
  intro w' hw'
  rw [uiRender_rest elements hw']
  exact .refl _

theorem Spared.render {v : World} (h : Spared w.rest v.rest) : Spares w (uiRender elements v) :=
  .after h (render_spares v)

theorem freeMenu_keeps {p : Ptr} {m m' : MenuHeap Item} (h : freeMenu p m = .ok m') :
    Keeps m m' := by
  obtain ⟨self, -, h⟩ := Runs.bind_ok h
  obtain ⟨slots, -, h⟩ := Runs.bind_ok h
  obtain ⟨items, hitems, h⟩ := Runs.bind_ok h
  obtain ⟨arrays, -, h⟩ := Runs.bind_ok h
  obtain ⟨menus, -, h⟩ := Runs.bind_ok h
  obtain rfl := Except.ok.inj h
  -- a round frees one item, and what is live after it was live before
  have hloop := Runs.foldlM_relates
    (fun s s' : Heap Item => ∀ q x, s'.read q = .ok x → s.read q = .ok x)
    (fun _ _ _ hx => hx) (fun _ _ _ hs ht q x hx => hs q x (ht q x hx))
    (fun i _ s s' hround => by
      obtain ⟨item, -, hround⟩ := Runs.bind_ok hround
      obtain ⟨x, -, hround⟩ := Runs.bind_ok hround
      exact fun q y hy => Heap.read_free hround hy) hitems
  exact fun q x hx => .inl (hloop q x hx)

theorem free_spared {e : Element} {a b : App} (h : elements.free e a = .ok b) : Spared a b := by
  cases e with
  | uiStatus =>
      obtain rfl := Except.ok.inj h
      exact .refl _
  | menu p =>
      obtain ⟨heap, hheap, h⟩ := Runs.bind_ok h
      obtain rfl := Except.ok.inj h
      exact ⟨rfl, rfl, freeMenu_keeps hheap⟩

theorem pop_spares (w : World) : Spares w (uiPop elements w) := by
  intro w' hw'
  unfold uiPop at hw'
  split at hw'
  · obtain rfl := Except.ok.inj hw'
    exact .refl _
  · obtain ⟨layer, -, hw'⟩ := Runs.bind_ok hw'
    obtain ⟨rest, hfree, hw'⟩ := Runs.bind_ok hw'
    obtain ⟨layers, -, hw'⟩ := Runs.bind_ok hw'
    obtain rfl := Except.ok.inj hw'
    exact free_spared hfree

theorem clear_spares (w : World) : Spares w (uiClear elements w) := by
  have hloop : ∀ n w, Spares w (clearLoop elements n w) := by
    intro n
    induction n with
    | zero => exact pop_spares
    | succ n ih =>
        intro w
        rw [clearLoop]
        split_ifs
        · exact .self w
        · exact (pop_spares w).bind ih
  exact hloop _ w

theorem addItem_keeps {menu : Ptr} {item : Item} (hitem : control item = none)
    {m m' : MenuHeap Item} (h : addItem menu item m = .ok m') : Keeps m m' := by
  have hitems : m'.items = (m.items.alloc item).2 := by
    obtain ⟨self, -, h⟩ := Runs.bind_ok h
    obtain ⟨slots, -, h⟩ := Runs.bind_ok h
    split_ifs at h
    obtain ⟨arrays, -, h⟩ := Runs.bind_ok h
    obtain ⟨menus, -, h⟩ := Runs.bind_ok h
    obtain rfl := Except.ok.inj h
    rfl
  intro p x hx
  rw [hitems] at hx
  rcases Heap.read_alloc hx with hold | rfl
  · exact .inl hold
  · exact .inr hitem

/-- A push changes nothing but the memory of the menus. -/
theorem pushMenuWith_rest {itemCapacity : UInt8} {items : List Item} {w' : World}
    (h : pushMenuWith itemCapacity items w = .ok w') :
    ∃ heap, items.foldlM (fun heap item => addItem (pushMenu itemCapacity w).1 item heap)
      (pushMenu itemCapacity w).2.rest.heap = .ok heap ∧
      w'.rest = { w.rest with heap := heap } := by
  obtain ⟨heap, hheap, h⟩ := Runs.bind_ok h
  obtain rfl := Except.ok.inj h
  exact ⟨heap, hheap, rfl⟩

theorem push_spares {itemCapacity : UInt8} {items : List Item}
    (hitems : ∀ x ∈ items, control x = none) (w : World) :
    Spares w (pushMenuWith itemCapacity items w) := by
  intro w' hw'
  obtain ⟨heap, hheap, hrest⟩ := pushMenuWith_rest hw'
  have hadds := Runs.foldlM_relates Keeps .refl (fun _ _ _ => .trans)
    (fun x hx _ _ => addItem_keeps (hitems x hx)) hheap
  rw [hrest]
  exact ⟨rfl, rfl, hadds⟩

theorem onBle_spared (f : Ble → Ble) (w : World) : Spared w.rest (onBle f w).rest :=
  ⟨rfl, rfl, .refl _⟩

end Operations

section Actions
variable {w : World}

theorem pushMenuBluetooth_spares (a : Answers) (w : World) :
    Spares w (pushMenuBluetooth a w) := by
  refine push_spares (fun x hx => ?_) w
  unfold bluetoothItems at hx
  split_ifs at hx <;> simp only [List.mem_cons, List.not_mem_nil, or_false] at hx <;>
    rcases hx with rfl | rfl | rfl | rfl <;> rfl

theorem pushMenuEnvelope_spares (w : World) : Spares w (pushMenuEnvelope w) := by
  refine push_spares (fun x hx => ?_) w
  simp only [List.mem_cons, List.not_mem_nil, or_false] at hx
  rcases hx with rfl | rfl | rfl | rfl <;> rfl

theorem pushMenuBluetoothConnect_spares (a : Answers) (w : World) :
    Spares w (pushMenuBluetoothConnect a w) := by
  refine push_spares (fun x hx => ?_) w
  obtain ⟨i, -, rfl⟩ := List.mem_map.mp hx
  rfl

theorem clientInit_spares (a : Answers) (addr : Option (ℤ × Addr)) (w : World) :
    Spares w (midiBleClientInitWithAddr a addr w) := by
  refine Spares.after (onBle_spared (fun b => (clientInitWithAddr a.radio addr b).2) w) ?_
  simp only [midiBleClientInitWithAddr]
  split_ifs
  · exact render_spares _
  · exact .self _

theorem clientDeinit_spares (w : World) : Spares w (midiBleClientDeinit w) :=
  (onBle_spared clientDeinit w).render

theorem clear_onBle_spares (f : Ble → Ble) (w : World) :
    Spares w (uiClear elements (onBle f w)) :=
  .after (onBle_spared f w) (clear_spares _)

/-- The end of the client role, where it is up, and what follows. -/
theorem clientStopped_spares {k : World → Except Fault World} (hk : ∀ v, Spares v (k v))
    (w : World) :
    Spares w (if w.rest.ble.clientInitialized then midiBleClientDeinit w >>= k
      else pure w >>= k) := by
  split_ifs
  · exact (clientDeinit_spares w).bind hk
  · exact (Spares.self w).bind hk

theorem serverStopped_spared (w : World) :
    Spared w.rest (if w.rest.ble.serverInitialized then onBle midiBleDeinit w else w).rest := by
  split_ifs
  · exact onBle_spared _ w
  · exact .refl _

theorem runAction_spares (a : Answers) (action : Action) (w : World) :
    Spares w (runAction a action w) := by
  cases action with
  | pushMenuBluetooth => exact pushMenuBluetooth_spares a w
  | pushMenuEnvelope => exact pushMenuEnvelope_spares w
  | pushMenuBluetoothConnect => exact pushMenuBluetoothConnect_spares a w
  | disconnect => exact clear_onBle_spares _ w
  | midiBleSetStateAsInitial => exact .ok (onBle_spared _ w)
  | startServer => exact clientStopped_spares (clear_onBle_spares (midiBleServerInit a.radio)) w
  | stop => exact .after (serverStopped_spared w) (clientStopped_spares clear_spares _)
  | startClient =>
      refine .after (serverStopped_spared w) ((clientInit_spares a none _).bind fun v => ?_)
      exact (clear_spares v).bind (pushMenuBluetooth_spares a)

theorem navigateMidiValue_spares (a : Answers) (r : MidiValueRef) (nav : Nav) (w : World) :
    Spares w (navigateMidiValue a r nav w) := by
  have hset (value : UInt16) : Spares w (uiRender elements (setMidiValue a r value true w)) :=
    Spared.render ⟨rfl, rfl, .refl _⟩
  cases nav with
  | left =>
      simp only [navigateMidiValue]
      split_ifs
      · exact .self w
      · exact hset _
  | right =>
      simp only [navigateMidiValue]
      split_ifs
      · exact .self w
      · exact hset _
  | _ => exact .self w

theorem bluetoothConnectNav_spares (index : UInt8) (nav : Nav) (w : World) :
    Spares w (bluetoothConnectNav index nav w) := by
  unfold bluetoothConnectNav
  split_ifs
  · exact clear_onBle_spares _ w
  · exact .self w

theorem writeMenu_spares (p : Ptr) (menu : Menu) (w : World) : Spares w (writeMenu p menu w) := by
  intro w' hw'
  obtain ⟨menus, -, hw'⟩ := Runs.bind_ok hw'
  obtain rfl := Except.ok.inj hw'
  exact ⟨rfl, rfl, .refl _⟩

/-- What the links of the Bluetooth roles cause. -/
theorem step_link_spares (w : World) (a : Answers) {e : Event} (he : ∀ nav, e ≠ .navigate nav) :
    Spares w (step w (a, e)) := by
  cases e with
  | navigate nav => exact (he nav rfl).elim
  | serverConnected handle =>
      simp only [step, serverConnected]
      split_ifs
      · exact Spared.render ⟨rfl, rfl, .refl _⟩
      · exact .self w
  | serverDisconnected =>
      simp only [step, serverDisconnected]
      split_ifs
      · exact (onBle_spared _ w).render
      · exact .self w
  | clientStatus ready =>
      simp only [step, statusCallback]
      cases ready with
      | false => exact render_spares w
      | true => exact Spared.render ⟨rfl, rfl, .refl _⟩

end Actions

/-- The live items show the settings, and each setting has one at most. -/
structure Agreed (a : App) : Prop where
  assigned : a.strip.midiValue ≠ none
  shows : ∀ p x, a.heap.items.read p = .ok x → Shows a.keymap a.strip x
  unique : ∀ p q x y, a.heap.items.read p = .ok x → a.heap.items.read q = .ok y →
    control x = control y → control x ≠ none → p = q

section Agreed
variable {a b : App}

theorem shows_of_control {x : Item} (h : control x = none) (keymap : Keymap) (strip : Strip) :
    Shows keymap strip x := by
  cases x with
  | keymap select => cases h
  | stripControl select => cases h
  | checkbox label value => cases h
  | _ => trivial

theorem Agreed.spared (h : Agreed a) (hs : Spared a b) : Agreed b where
  assigned := by
    rw [hs.strip]
    exact h.assigned
  shows := by
    intro p x hx
    rw [hs.keymap, hs.strip]
    rcases hs.items p x hx with hold | hnone
    · exact h.shows p x hold
    · exact shows_of_control hnone _ _
  unique := by
    intro p q x y hx hy hsame hsome
    have hx' := (hs.items p x hx).resolve_right hsome
    have hy' := (hs.items q y hy).resolve_right (hsame ▸ hsome)
    exact h.unique p q x y hx' hy' hsame hsome

/-- An item changes together with its setting. The items of the other settings must
not notice. -/
theorem Agreed.write (h : Agreed a) {p : Ptr} {x y : Item} {items : Heap Item}
    (hx : a.heap.items.read p = .ok x) (hsome : control x ≠ none)
    (hw : a.heap.items.write p y = .ok items) (hy : control y = control x)
    (hitems : b.heap.items = items) (hassigned : b.strip.midiValue ≠ none)
    (hshows : Shows b.keymap b.strip y)
    (hothers : ∀ z, control z ≠ control x → Shows a.keymap a.strip z →
      Shows b.keymap b.strip z) : Agreed b where
  assigned := hassigned
  shows := by
    intro q z hz
    rw [hitems] at hz
    rcases Heap.read_write hw hz with ⟨rfl, rfl⟩ | ⟨hq, hold⟩
    · exact hshows
    · refine hothers z (fun hsame => hq ?_) (h.shows q z hold)
      exact h.unique q p z x hold hx hsame (hsame ▸ hsome)
  unique := by
    intro q r z z' hz hz' hsame hz_some
    rw [hitems] at hz hz'
    rcases Heap.read_write hw hz with ⟨rfl, rfl⟩ | ⟨-, hold⟩ <;>
      rcases Heap.read_write hw hz' with ⟨rfl, rfl⟩ | ⟨-, hold'⟩
    · rfl
    · exact h.unique q r x z' hx hold' (hy.symm.trans hsame) hsome
    · exact h.unique q r z x hold hx (hsame.trans hy) hz_some
    · exact h.unique q r z z' hold hold' hsame hz_some

end Agreed

section Inputs
variable {p : Ptr} {nav : Nav} {w w' : World}

/-- What has happened where an input to a select item has gone through. -/
theorem navigateSelect_ok {α : Type} {item : Select α → Item}
    {onChange : α → World → Except Fault World} {self : Select α} (hvalid : self.Valid)
    (h : navigateSelect p item onChange self nav w = .ok w') :
    w' = w ∨ ∃ index option items v, Select.Valid { self with index := index } ∧
      self.options[index]? = some option ∧
      w.rest.heap.items.write p (item { self with index := index }) = .ok items ∧
      onChange option
        { w with rest := { w.rest with heap := { w.rest.heap with items := items } } } = .ok v ∧
      w'.rest = v.rest := by
  obtain ⟨r, hr, hafter⟩ := hvalid.navigate nav
  obtain rfl := Except.ok.inj (hr.symm.trans (hvalid.navigate_eq nav))
  obtain ⟨after, hnav, h⟩ := Runs.bind_ok h
  obtain rfl := Except.ok.inj (hr.symm.trans hnav)
  split_ifs at h with hsame
  · exact .inl (Except.ok.inj h).symm
  · cases hoption : self.options[turn self.options.length self.index nav]? with
    | none =>
        rw [hoption] at h
        exact .inl (Except.ok.inj h).symm
    | some option =>
        rw [hoption] at h
        obtain ⟨u, hu, h⟩ := Runs.bind_ok h
        obtain ⟨items, hitems, hu⟩ := Runs.bind_ok hu
        obtain rfl := Except.ok.inj hu
        obtain ⟨v, hv, hrender⟩ := Runs.bind_ok h
        exact .inr ⟨_, option, items, v, hafter, hoption, hitems, hv,
          uiRender_rest elements hrender⟩

theorem navigateKeymap_agreed (h : Agreed w.rest) {select : Select Keymap}
    (hread : w.rest.heap.items.read p = .ok (.keymap select))
    (hnav : navigateSelect p .keymap setKeymap select nav w = .ok w') : Agreed w'.rest := by
  obtain ⟨hvalid, hoptions, -⟩ := h.shows p _ hread
  rcases navigateSelect_ok hvalid hnav with rfl | ⟨index, option, items, v, hvalid', hoption,
    hwrite, hchange, hrest⟩
  · exact h
  · rw [hrest, uiRender_rest elements hchange]
    refine h.write hread nofun hwrite rfl rfl h.assigned ⟨hvalid', hoptions, hoption⟩ ?_
    intro z hz hshows
    cases z with
    | keymap other => exact (hz rfl).elim
    | _ => exact hshows

theorem navigateStripControl_agreed (a : Answers) (h : Agreed w.rest)
    {select : Select MidiValueRef} (hread : w.rest.heap.items.read p = .ok (.stripControl select))
    (hnav : navigateSelect p .stripControl (fun r w => pure (setAnalogStripMv a r w)) select nav w =
      .ok w') : Agreed w'.rest := by
  obtain ⟨hvalid, hoptions, -⟩ := h.shows p _ hread
  rcases navigateSelect_ok hvalid hnav with rfl | ⟨index, option, items, v, hvalid', hoption,
    hwrite, hchange, hrest⟩
  · exact h
  · obtain rfl := Except.ok.inj hchange
    rw [hrest]
    refine h.write hread nofun hwrite rfl rfl nofun ⟨hvalid', hoptions, hoption⟩ ?_
    intro z hz hshows
    cases z with
    | stripControl other => exact (hz rfl).elim
    | _ => exact hshows

/-- The checkbox assigns the strip anew, to the value that it already has. -/
theorem navigateCheckbox_agreed (a : Answers) (h : Agreed w.rest) {label : String} {value : Bool}
    (hread : w.rest.heap.items.read p = .ok (.checkbox label value))
    (hnav : navigateCheckbox a p label value nav w = .ok w') : Agreed w'.rest := by
  unfold navigateCheckbox at hnav
  split_ifs at hnav
  · obtain ⟨u, hu, hnav⟩ := Runs.bind_ok hnav
    obtain ⟨items, hitems, hu⟩ := Runs.bind_ok hu
    obtain rfl := Except.ok.inj hu
    obtain rfl := Except.ok.inj hnav
    refine h.write hread nofun hitems rfl rfl h.assigned rfl ?_
    intro z hz hshows
    cases z with
    | checkbox other value => exact (hz rfl).elim
    | _ => exact hshows
  · obtain rfl := Except.ok.inj hnav
    exact h

theorem navigateItem_agreed (a : Answers) (h : Agreed w.rest)
    (hnav : navigateItem a p nav w = .ok w') : Agreed w'.rest := by
  obtain ⟨item, hread, hnav⟩ := Runs.bind_ok hnav
  cases item with
  | default label action =>
      split_ifs at hnav
      · exact h.spared (runAction_spares a action w w' hnav)
      · exact h.spared (Spares.self w w' hnav)
  | keymap select => exact navigateKeymap_agreed h hread hnav
  | stripControl select => exact navigateStripControl_agreed a h hread hnav
  | checkbox label value => exact navigateCheckbox_agreed a h hread hnav
  | midiValue r => exact h.spared (navigateMidiValue_spares a r nav w w' hnav)
  | device label index => exact h.spared (bluetoothConnectNav_spares index nav w w' hnav)

end Inputs

section Events
variable {d : Option Element} {f : Frame Item} {fs : List (Frame Item)} {w w' : World}

theorem getKeymapIndex_get (keymap : Keymap) :
    keymaps[getKeymapIndex keymap]? = some keymap := by
  cases keymap <;> rfl

theorem analogStripIndex_get {strip : Strip} (h : strip.midiValue ≠ none) :
    midiValues[analogStripIndex strip]? = strip.midiValue := by
  obtain ⟨assigned, reset⟩ := strip
  cases assigned with
  | none => exact (h rfl).elim
  | some r => cases r <;> rfl

/-- A new main menu shows the settings. -/
theorem mainItems_shows (keymap : Keymap) {strip : Strip} (h : strip.midiValue ≠ none) :
    ∀ x ∈ mainItems (keymapSelect keymap) (stripSelect strip) strip.resetOnRelease,
      Shows keymap strip x := by
  have hkeymap : Shows keymap strip (.keymap (keymapSelect keymap)) :=
    ⟨keymapSelect_valid keymap, rfl, getKeymapIndex_get keymap⟩
  have hstrip : Shows keymap strip (.stripControl (stripSelect strip)) :=
    ⟨stripSelect_valid strip, rfl, analogStripIndex_get h⟩
  simp only [mainItems, List.forall_mem_cons]
  exact ⟨trivial, hkeymap, trivial, hstrip, rfl, List.forall_mem_nil _⟩

/-- The items of one menu whose controls differ. -/
theorem unique_of_pairwise {items : List (Ptr × Item)}
    (h : (items.map Prod.snd).Pairwise fun x y => control x = control y → control x = none)
    {p q : Ptr} {x y : Item} (hx : (p, x) ∈ items) (hy : (q, y) ∈ items)
    (hsame : control x = control y) (hsome : control x ≠ none) : p = q := by
  by_contra hne
  have hsymm : Std.Symm fun v v' : Ptr × Item => control v.2 = control v'.2 → control v.2 = none :=
    ⟨fun v v' hv hsame => hsame.trans (hv hsame.symm)⟩
  have hpair := (List.pairwise_map.mp h).forall hx hy fun heq => hne (Prod.mk.inj heq).1
  exact hsome (hpair hsame)

/-- The main menu opens over nothing, so its items are all that is live. -/
theorem pushMenuMain_agreed (hgood : Good d False [] w) (h : Agreed w.rest)
    (hpush : pushMenuMain w = .ok w') : Agreed w'.rest := by
  obtain ⟨v, f, hv, hgood', hitems, -⟩ := hgood.pushMenuMain
  obtain rfl := Except.ok.inj (hv.symm.trans hpush)
  rw [pushMenuMain_eq] at hpush
  obtain ⟨heap, -, hrest⟩ := pushMenuWith_rest hpush
  have hmem : ∀ p x, v.rest.heap.items.read p = .ok x → (p, x) ∈ f.items := fun p x hx => by
    simpa using hgood'.rep.heap.items.mem_of_read hx
  have hkeymap : v.rest.keymap = w.rest.keymap := by rw [hrest]
  have hstrip : v.rest.strip = w.rest.strip := by rw [hrest]
  refine ⟨hstrip ▸ h.assigned, fun p x hx => ?_, fun p q x y hx hy => ?_⟩
  · rw [hkeymap, hstrip]
    refine mainItems_shows w.rest.keymap h.assigned x ?_
    rw [← hitems]
    exact List.mem_map.mpr ⟨(p, x), hmem p x hx, rfl⟩
  · refine unique_of_pairwise ?_ (hmem p x hx) (hmem q y hy)
    rw [hitems]
    simp [mainItems, control]

theorem navigateMenu_agreed (a : Answers) (hgood : Good d False (f :: fs) w) (h : Agreed w.rest)
    {nav : Nav} (hnav : navigateMenu a f.menu nav w = .ok w') : Agreed w'.rest := by
  by_cases hmove : nav = .up ∨ nav = .down
  · obtain ⟨self, -, hnav⟩ := Runs.bind_ok hnav
    rcases hmove with rfl | rfl <;> exact h.spared (writeMenu_spares _ _ _ _ hnav)
  · rw [not_or] at hmove
    rw [navigateMenu_item a hgood hmove.1 hmove.2] at hnav
    obtain ⟨p, -, hnav⟩ := Runs.bind_ok hnav
    exact navigateItem_agreed a h hnav

theorem navigateStatus_agreed (hgood : Good d False [] w) (h : Agreed w.rest) {nav : Nav}
    (hnav : navigateStatus nav w = .ok w') : Agreed w'.rest := by
  cases nav with
  | close => exact pushMenuMain_agreed hgood h hnav
  | «return» => exact pushMenuMain_agreed hgood h hnav
  | _ => exact h.spared (Spares.self w w' hnav)

/-- An operation with the redraw after it. -/
theorem Agreed.rendered {r : Except Fault World} (h : ∀ v, r = .ok v → Agreed v.rest)
    (hr : (r >>= uiRender elements) = .ok w') : Agreed w'.rest := by
  obtain ⟨v, hv, hrender⟩ := Runs.bind_ok hr
  rw [uiRender_rest elements hrender]
  exact h v hv

theorem step_status_agreed (hgood : Good d False [] w) (h : Agreed w.rest) {a : Answers}
    {nav : Nav} (hstep : step w (a, .navigate nav) = .ok w') : Agreed w'.rest := by
  rcases hgood.default with rfl | rfl
  · simp only [step, uiNavigate, dispatch_empty hgood.rep.stacked] at hstep
    exact h.spared (Spares.self w w' hstep)
  · simp only [step, uiNavigate,
      dispatch_default (E := elements) (b := true) hgood.rep.stacked rfl] at hstep
    exact Agreed.rendered (fun v => navigateStatus_agreed hgood h) hstep

/-- Every event keeps the items and the settings together. -/
theorem step_agreed (hgood : Good d False fs w) (h : Agreed w.rest) {e : Answers × Event}
    (hstep : step w e = .ok w') : Agreed w'.rest := by
  obtain ⟨a, e⟩ := e
  cases e with
  | navigate nav =>
      cases fs with
      | nil => exact step_status_agreed hgood h hstep
      | cons f fs =>
          by_cases hr : nav = .return
          · subst hr
            simp only [step, uiNavigate, dispatch_menu hgood] at hstep
            exact h.spared ((pop_spares w).bind render_spares w' hstep)
          by_cases hc : nav = .close
          · subst hc
            simp only [step, uiNavigate, dispatch_menu hgood] at hstep
            exact h.spared ((clear_spares w).bind render_spares w' hstep)
          rw [step_menu hgood a hr hc] at hstep
          exact Agreed.rendered (fun v => navigateMenu_agreed a hgood h) hstep
  | _ => exact h.spared (step_link_spares w a (by simp) w' hstep)

theorem run_agreed (es : List (Answers × Event)) :
    ∀ {w w' : World} {fs : List (Frame Item)}, Good d False fs w → Agreed w.rest →
      run es w = .ok w' → Agreed w'.rest := by
  induction es with
  | nil =>
      intro w w' fs _ h hrun
      obtain rfl := Except.ok.inj hrun
      exact h
  | cons e es ih =>
      intro w w' fs hgood h hrun
      rw [run, List.foldlM_cons] at hrun
      obtain ⟨v, hv, hrest⟩ := Runs.bind_ok hrun
      obtain ⟨gs, hgood'⟩ := step_kept hgood e hv
      exact ih hgood' (step_agreed hgood h hv) hrest

/-- Before the main loop no item is live, and the strip is assigned. -/
theorem bootUp_agreed (a : Answers) (displayOk : Bool) (keymap : Keymap) (saved : BleState)
    {w : World} (hboot : bootUp a displayOk keymap saved = .ok w) : Agreed w.rest := by
  obtain ⟨v, hv, hgood⟩ := bootUp_good False a displayOk keymap saved
  obtain rfl := Except.ok.inj (hv.symm.trans hboot)
  have hnone : ∀ p x, v.rest.heap.items.read p ≠ .ok x := fun p x hx => by
    simpa using hgood.rep.heap.items.mem_of_read hx
  refine ⟨?_, fun p x hx => (hnone p x hx).elim, fun p q x y hx => (hnone p x hx).elim⟩
  obtain ⟨w₁, -, hboot⟩ := Runs.bind_ok hboot
  obtain ⟨w₂, -, hboot⟩ := Runs.bind_ok hboot
  obtain ⟨w₃, -, hboot⟩ := Runs.bind_ok hboot
  obtain rfl := Except.ok.inj hboot
  exact nofun

/-- In every state that the firmware reaches, whatever menus are open and whatever has
been done in them. -/
theorem reached_agreed {boot : Answers} {displayOk : Bool} {keymap : Keymap} {saved : BleState}
    {es : List (Answers × Event)} {w : World}
    (hrun : bootUp boot displayOk keymap saved >>= run es = .ok w) : Agreed w.rest := by
  obtain ⟨v, hv, hgood⟩ := bootUp_good False boot displayOk keymap saved
  rw [hv] at hrun
  exact run_agreed es hgood (bootUp_agreed boot displayOk keymap saved hv) hrun

end Events

end Keytar.Settings
