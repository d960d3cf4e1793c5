import Keytar.Menus
import Keytar.Ui.Frames

/-!
# The open menus and their blocks

`Sane` is what holds between any two operations on the stack: the layers, menus,
arrays and items that are live are those of the open menus, each menu has its
cursor on an item or no item at all, and each select item its index on an option.
Redrawing, popping, clearing and pushing a menu all work in such a state.
-/
namespace Keytar.Menus
open AnalogStrip KeyboardMatrix Memory Midi MidiBle MidiValues Ui

/-- The frames are the layers of the stack and own all blocks. -/
structure Rep (d : Option Element) (fs : List (Frame Item)) (w : World) : Prop where
  stacked : Stacked d (fs.map Frame.onStack) w
  heap : HeapRep fs w.rest.heap

def allocated (w : World) : Marks := marks w.layers w.rest.heap

/-- The item can be drawn and used. -/
def Item.Valid : Item → Prop
  | .keymap select => select.Valid
  | .stripControl select => select.Valid
  | _ => True

structure FrameOk (f : Frame Item) : Prop where
  short : f.items.length ≤ 16
  index : f.index.toNat < f.items.length ∨ f.items = []
  items : ∀ q ∈ f.items, q.2.Valid

/-- How many layers an action can put on top of the one it is started from. -/
def Action.opens : Action → ℕ
  | .pushMenuBluetooth => 2
  | .pushMenuEnvelope => 1
  | .pushMenuBluetoothConnect => 1
  | _ => 0

def Item.opens : Item → ℕ
  | .default _ action => action.opens
  | _ => 0

/-- No item leads to more than three layers. -/
def Bounded : List (Frame Item) → Prop
  | [] => True
  | f :: fs => fs.length < 3 ∧ (∀ q ∈ f.items, fs.length + 1 + q.2.opens ≤ 3) ∧ Bounded fs

/-- The bound is claimed of the stacks that no stray item has grown. -/
structure Sane (d : Option Element) (tame : Prop) (fs : List (Frame Item)) (w : World) : Prop where
  rep : Rep d fs w
  default : d = none ∨ d = some .uiStatus
  frames : ∀ f ∈ fs, FrameOk f
  bounded : tame → Bounded fs

theorem Bounded.length_le {fs : List (Frame Item)} (h : Bounded fs) : fs.length ≤ 3 := by
  cases fs with
  | nil => simp
  | cons f fs => exact h.1

theorem drawItem_ok {app : App} {item : Item} (h : item.Valid) (focus : Bool) :
    ∃ drawn, drawItem app item focus = .ok drawn := by
  have hselect {α : Type} (label : α → String) {select : Select α} (hs : select.Valid) :
      ∃ drawn, drawSelect label select focus = .ok drawn := by
    obtain ⟨option, hoption⟩ := hs.option
    exact ⟨_, by simp only [drawSelect, hoption, bind, Except.bind]; rfl⟩
  cases item with
  | keymap select => exact hselect _ h
  | stripControl select => exact hselect _ h
  | _ => exact ⟨_, rfl⟩

section Sane
variable {d : Option Element} {tame : Prop} {f : Frame Item} {fs : List (Frame Item)} {w : World}

theorem Sane.withRest (h : Sane d tame fs w) (app : App) (happ : app.heap = w.rest.heap) :
    Sane d tame fs { w with rest := app } where
  rep := ⟨h.rep.stacked.withRest app, happ ▸ h.rep.heap⟩
  default := h.default
  frames := h.frames
  bounded := h.bounded

theorem Sane.render_ok (h : Sane d tame fs w) :
    ∀ e ∈ shown d (fs.map Frame.onStack), ∃ picture, elements.render e w.rest = .ok picture := by
  intro e he
  have hstatus : ∃ picture, elements.render .uiStatus w.rest = .ok picture := ⟨_, rfl⟩
  cases fs with
  | nil =>
      rcases h.default with rfl | rfl
      · cases he
      · obtain rfl : Element.uiStatus = e := Option.some.inj he
        exact hstatus
  | cons f fs =>
      obtain rfl : Element.menu f.menu = e := Option.some.inj he
      have hf : f ∈ f :: fs := List.mem_cons_self ..
      have hok := h.frames f hf
      obtain ⟨lines, hlines⟩ := h.rep.heap.renderMenu (drawItem w.rest) hf
        (Nat.lt_of_le_of_lt hok.short (by decide))
        (fun q hq focus => drawItem_ok (hok.items q hq) focus) 0 true
      exact ⟨.menu lines, by simp only [elements, hlines]; rfl⟩

theorem Sane.render (h : Sane d tame fs w) :
    ∃ w', uiRender elements w = .ok w' ∧ Sane d tame fs w' ∧ w'.rest = w.rest ∧
      allocated w' = allocated w := by
  obtain ⟨w', hw', hstacked, hlayers, hrest⟩ := uiRender_stacked h.rep.stacked h.render_ok
  refine ⟨w', hw', ⟨⟨hstacked, ?_⟩, h.default, h.frames, h.bounded⟩, hrest, ?_⟩
  · rw [hrest]
    exact h.rep.heap
  · rw [allocated, hlayers, hrest]
    rfl

/-- What a pop or a clear does to the state behind the stack. -/
theorem free_menu_ok {app : App} (h : HeapRep (f :: fs) app.heap) (hf : FrameOk f) :
    ∃ heap, elements.free (.menu f.menu) app = .ok { app with heap := heap } ∧
      HeapRep fs heap ∧ heap.sizes = app.heap.sizes := by
  obtain ⟨heap, hheap, hrep, hsizes⟩ := h.freeMenu (Nat.lt_of_le_of_lt hf.short (by decide))
  exact ⟨heap, by simp only [elements, hheap, bind, Except.bind]; rfl, hrep, hsizes⟩

theorem Sane.pop (h : Sane d tame (f :: fs) w) :
    ∃ w' heap, uiPop elements w = .ok w' ∧ Sane d tame fs w' ∧
      w'.rest = { w.rest with heap := heap } ∧ allocated w' = allocated w := by
  obtain ⟨heap, hfree, hrep, hsizes⟩ := free_menu_ok h.rep.heap
    (h.frames f (List.mem_cons_self ..))
  obtain ⟨w', hw', hstacked, hsize, hrest⟩ := uiPop_stacked h.rep.stacked hfree
  refine ⟨w', heap, hw', ⟨⟨hstacked, by rw [hrest]; exact hrep⟩, h.default, ?_, ?_⟩, hrest, ?_⟩
  · exact fun g hg => h.frames g (List.mem_cons_of_mem f hg)
  · exact fun ht => (h.bounded ht).2.2
  · simp only [allocated, marks, hsize, hrest, hsizes]

/-- The frames of a stack that is being cleared, next to what a clear leaves alone. -/
def Clearing (app : App) (es : List (Ptr × Element)) (r : App) : Prop :=
  ∃ gs : List (Frame Item), es = gs.map Frame.onStack ∧ HeapRep gs r.heap ∧
    (∀ g ∈ gs, FrameOk g) ∧ ∃ heap, r = { app with heap := heap } ∧ heap.sizes = app.heap.sizes

theorem Clearing.free {app : App} {p : Ptr} {e : Element} {es : List (Ptr × Element)} {r : App}
    (h : Clearing app ((p, e) :: es) r) :
    ∃ r', elements.free e r = .ok r' ∧ Clearing app es r' := by
  obtain ⟨gs, hgs, hrep, hok, heap, rfl, hsizes⟩ := h
  cases gs with
  | nil => simp at hgs
  | cons g gs =>
      rw [List.map_cons, List.cons.injEq] at hgs
      obtain ⟨hlayer, rfl⟩ := hgs
      obtain ⟨rfl, rfl⟩ := Prod.mk.inj hlayer
      obtain ⟨heap', hfree, hrep', hsizes'⟩ := free_menu_ok hrep (hok g (List.mem_cons_self ..))
      exact ⟨_, hfree, gs, rfl, hrep', fun q hq => hok q (List.mem_cons_of_mem g hq), heap', rfl,
        hsizes'.trans hsizes⟩

theorem Sane.clear (h : Sane d tame fs w) :
    ∃ w' heap, uiClear elements w = .ok w' ∧ Sane d tame [] w' ∧
      w'.rest = { w.rest with heap := heap } ∧ allocated w' = allocated w := by
  obtain ⟨w', hw', hstacked, hsize, gs, hgs, hrep, -, heap, hrest, hsizes⟩ :=
    uiClear_stacked (E := elements) (Clearing w.rest) (fun _ _ _ _ hP => hP.free) h.rep.stacked
      ⟨fs, rfl, h.rep.heap, h.frames, w.rest.heap, rfl, rfl⟩
  obtain rfl : gs = [] := List.map_eq_nil_iff.mp hgs.symm
  refine ⟨w', heap, hw', ⟨⟨hstacked, hrep⟩, h.default, by simp, fun _ => trivial⟩, hrest, ?_⟩
  simp only [allocated, marks, hsize, hrest, hsizes]

/-- The frame of a menu as `push_menu` leaves it. -/
def pushedFrame (itemCapacity : UInt8) (w : World) : Frame Item :=
  Frame.new w.layers.size w.rest.heap.menus.size w.rest.heap.arrays.size itemCapacity.toNat

theorem Rep.pushed (h : Rep d fs w) (itemCapacity : UInt8) :
    Rep d (pushedFrame itemCapacity w :: fs) (pushMenu itemCapacity w).2 :=
  ⟨uiPush_stacked (h.stacked.withRest { w.rest with heap := (newMenu itemCapacity w.rest.heap).2 })
    (.menu (newMenu itemCapacity w.rest.heap).1), (h.heap.newMenu itemCapacity w.layers.size).1⟩

/-- Items that fit the capacity end up in a new frame, in blocks not used before. -/
theorem Rep.filled (h : Rep d fs w) {itemCapacity : UInt8} {items : List Item}
    (hcap : items.length ≤ itemCapacity.toNat) (hshort : items.length ≤ 16) :
    ∃ w' heap f, pushMenuWith itemCapacity items w = .ok w' ∧ Rep d (f :: fs) w' ∧
      f.items.map Prod.snd = items ∧ (f.index = 0 ∧ f.scroll = 0) ∧
      w'.rest = { w.rest with heap := heap } ∧ (allocated w).Le (allocated w') ∧
      f.blocks.Since (allocated w) := by
  have hpushed := h.pushed itemCapacity
  obtain ⟨heap, new, hfold, hrep, hnew, hfresh, hsizes⟩ := HeapRep.addItems items hpushed.heap
    (by simpa [pushedFrame, Frame.new] using hcap)
    (by simp only [pushedFrame, Frame.new, List.length_nil]; omega)
  have hempty : ((pushMenu itemCapacity w).2.rest.heap).sizes = _ :=
    (h.heap.newMenu itemCapacity w.layers.size).2
  simp only [MenuHeap.sizes, Prod.mk.injEq] at hempty hsizes
  obtain ⟨hmenus, harrays, hitems⟩ := hempty
  obtain ⟨hmenus', harrays', hitems'⟩ := hsizes
  have hfilled : items.foldlM (fun heap item => addItem (pushMenu itemCapacity w).1 item heap)
      (pushMenu itemCapacity w).2.rest.heap = .ok heap := hfold
  refine ⟨{ (pushMenu itemCapacity w).2 with rest := { w.rest with heap := heap } }, heap,
    { pushedFrame itemCapacity w with items := new }, ?_,
    ⟨hpushed.stacked.withRest _, hrep⟩, hnew, ⟨rfl, rfl⟩, rfl, ?_, ?_⟩
  · simp only [pushMenuWith, hfilled, bind, Except.bind]
    rfl
  · have hlayers : (pushMenu itemCapacity w).2.layers.size = w.layers.size + 1 := by
      simp [pushMenu, uiPush]
    refine ⟨?_, ?_, ?_, ?_⟩ <;> simp only [allocated, marks, MenuHeap.sizes] <;> omega
  · refine ⟨Nat.le_refl _, Nat.le_refl _, Nat.le_refl _, fun p hp => ?_⟩
    obtain ⟨q, hq, rfl⟩ := List.mem_map.mp hp
    have := hfresh q hq
    simp only [allocated, marks, MenuHeap.sizes]
    omega

/-- A menu that fits its capacity and the bound can be pushed. -/
theorem Sane.push (h : Sane d tame fs w) {itemCapacity : UInt8} {items : List Item}
    (hcap : items.length ≤ itemCapacity.toNat) (hshort : items.length ≤ 16)
    (hvalid : ∀ x ∈ items, x.Valid)
    (hroom : tame → fs.length < 3 ∧ ∀ x ∈ items, fs.length + 1 + x.opens ≤ 3) :
    ∃ w' heap f, pushMenuWith itemCapacity items w = .ok w' ∧ Sane d tame (f :: fs) w' ∧
      f.items.map Prod.snd = items ∧ (f.index = 0 ∧ f.scroll = 0) ∧
      w'.rest = { w.rest with heap := heap } ∧ (allocated w).Le (allocated w') ∧
      f.blocks.Since (allocated w) := by
  obtain ⟨w', heap, f, hw', hrep, hitems, hstart, hrest, hgrown, hsince⟩ :=
    h.rep.filled hcap hshort
  have hmem : ∀ q ∈ f.items, q.2 ∈ items := fun q hq => by
    rw [← hitems]
    exact List.mem_map.mpr ⟨q, hq, rfl⟩
  have hlength : f.items.length = items.length := by rw [← hitems, List.length_map]
  refine ⟨w', heap, f, hw', ⟨hrep, h.default, ?_, ?_⟩, hitems, hstart, hrest, hgrown, hsince⟩
  · refine List.forall_mem_cons.mpr ⟨⟨hlength ▸ hshort, ?_, ?_⟩, h.frames⟩
    · rcases Nat.eq_zero_or_pos f.items.length with h0 | hpos
      · exact .inr (List.eq_nil_of_length_eq_zero h0)
      · exact .inl (by rw [hstart.1]; exact hpos)
    · exact fun q hq => hvalid q.2 (hmem q hq)
  · exact fun ht => ⟨(hroom ht).1, fun q hq => (hroom ht).2 q.2 (hmem q hq), h.bounded ht⟩

end Sane

end Keytar.Menus
