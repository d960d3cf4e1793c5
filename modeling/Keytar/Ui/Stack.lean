import Keytar.Ui.Element

/-!
# The stack of user interface layers

`UiStack` is `ui_stack` with its layers, next to whatever else the program keeps. The
function pointers of the elements are parameters: `Elements` has those that a
pop or a redraw calls, and `uiNavigate` takes the one that it calls itself. The
path for an empty stack loads the element of the layer at address zero, and
`nullElement` is what that load yields.
-/
namespace Keytar.Ui
open Memory

structure Layer (ε : Type) where
  element : ε
  up : Option Ptr
  deriving DecidableEq, Repr

structure UiStack (ε π ω : Type) where
  current : Option Ptr
  stackSize : UInt8
  defaultElement : Option ε
  display : Option π
  layers : Heap (Layer ε)
  rest : ω

/-- What the fields `free`, `render` and `navigate` of an element are: the call
of the first two, and whether the third is set. -/
structure Elements (ε π ω : Type) where
  free : ε → ω → Except Fault ω
  render : ε → ω → Except Fault π
  hasNavigate : ε → ω → Except Fault Bool

section Operations
variable {ε π ω : Type} (E : Elements ε π ω)

/-- The initialiser of `ui_stack`. -/
def UiStack.boot (rest : ω) : UiStack ε π ω := ⟨none, 0, none, none, Heap.empty, rest⟩

def uiInit (display : π) (defaultElement : ε) (s : UiStack ε π ω) : UiStack ε π ω :=
  { s with display := some display, defaultElement := some defaultElement }

def uiPush (element : ε) (s : UiStack ε π ω) : UiStack ε π ω :=
  let newLayer := s.layers.alloc ⟨element, s.current⟩
  { s with
    current := some newLayer.1
    stackSize := s.stackSize + 1
    layers := newLayer.2 }

def uiPop (s : UiStack ε π ω) : Except Fault (UiStack ε π ω) :=
  match s.current with
  | none => pure s
  | some popped => do
      let layer ← s.layers.read popped
      let rest ← E.free layer.element s.rest
      let layers ← s.layers.free popped
      pure { s with
        current := layer.up
        stackSize := s.stackSize - 1
        layers := layers
        rest := rest }

/-- At most `n` pops, then one more. -/
def clearLoop : ℕ → UiStack ε π ω → Except Fault (UiStack ε π ω)
  | 0, s => uiPop E s
  | n + 1, s =>
      if s.current = none then pure s
      else do
        let s ← uiPop E s
        clearLoop n s

/-- The loop `while (ui_stack.current) ui_pop()`. Every pop frees a live layer,
so their number bounds it. -/
def uiClear (s : UiStack ε π ω) : Except Fault (UiStack ε π ω) := clearLoop E s.layers.liveCount s

/-- The element that `ui_render` picks. -/
def renderedElement (s : UiStack ε π ω) : Except Fault (Option ε) :=
  match s.current with
  | some p => do
      let layer ← s.layers.read p
      pure (some layer.element)
  | none => pure s.defaultElement

def uiRender (s : UiStack ε π ω) : Except Fault (UiStack ε π ω) :=
  match s.display with
  | none => pure s
  | some _ => do
      match ← renderedElement s with
      | none => pure s
      | some element =>
          let picture ← E.render element s.rest
          pure { s with display := some picture }

/-- What `ui_navigate` decides to do. An `invoke` calls the callback of `owner`
on `self`, the element loaded through the pointer `followed`. -/
inductive Dispatch (ε : Type) where
  | ignore
  | pop
  | clear
  | invoke (followed : Option Ptr) (owner self : ε)
  deriving DecidableEq, Repr

def dispatch (nullElement : ε) (nav : Nav) (s : UiStack ε π ω) : Except Fault (Dispatch ε) :=
  match s.current with
  | none =>
      match s.defaultElement with
      | none => pure .ignore
      | some defaultElement => do
          if ← E.hasNavigate defaultElement s.rest then
            pure (.invoke s.current defaultElement nullElement)
          else pure .ignore
  | some current => do
      let layer ← s.layers.read current
      if ← E.hasNavigate layer.element s.rest then
        match nav with
        | .return => pure .pop
        | .close => pure .clear
        | _ => pure (.invoke s.current layer.element layer.element)
      else pure .ignore

/-- `navigate` calls the callback of its first argument on its second one. -/
def uiNavigate (navigate : ε → ε → Nav → UiStack ε π ω → Except Fault (UiStack ε π ω))
    (nullElement : ε) (nav : Nav) (s : UiStack ε π ω) : Except Fault (UiStack ε π ω) := do
  match ← dispatch E nullElement nav s with
  | .ignore => pure s
  | .pop =>
      let s ← uiPop E s
      uiRender E s
  | .clear =>
      let s ← uiClear E s
      uiRender E s
  | .invoke _ owner self =>
      let s ← navigate owner self nav s
      uiRender E s

/-- A redraw changes the picture at most. -/
theorem uiRender_rest {s s' : UiStack ε π ω} (h : uiRender E s = .ok s') : s'.rest = s.rest := by
  simp only [uiRender, bind, Except.bind] at h
  split at h
  · rw [← Except.ok.inj h]
  split at h
  · cases h
  split at h
  · rw [← Except.ok.inj h]
  split at h
  · cases h
  · rw [← Except.ok.inj h]

/-- What has been drawn stays as it is when it is drawn again. -/
theorem uiRender_again {s s' : UiStack ε π ω} (h : uiRender E s = .ok s') :
    uiRender E s' = .ok s' := by
  have hsame := h
  simp only [uiRender, bind, Except.bind] at h
  split at h
  · obtain rfl := Except.ok.inj h
    exact hsame
  next hdisplay =>
  split at h
  · cases h
  next shown hshown =>
  split at h
  · obtain rfl := Except.ok.inj h
    exact hsame
  next element =>
  split at h
  · cases h
  next picture hpicture =>
      obtain rfl := Except.ok.inj h
      have hshown' : renderedElement { s with display := some picture } = .ok (some element) :=
        hshown
      simp only [uiRender, hshown', hpicture, bind, Except.bind]
      rfl

/-- A redraw depends on what the callbacks look at. -/
theorem uiRender_withRest {s : UiStack ε π ω} {r : ω}
    (hr : ∀ e, E.render e r = E.render e s.rest) :
    uiRender E { s with rest := r } =
      (uiRender E s).map fun t => { t with rest := r } := by
  have hshown : renderedElement { s with rest := r } = renderedElement s := rfl
  simp only [uiRender, hshown, hr, bind, Except.bind]
  split
  · rfl
  · cases renderedElement s with
      | error f => rfl
      | ok shown =>
          cases shown with
          | none => rfl
          | some element =>
              simp only
              cases E.render element s.rest <;> rfl

theorem clearLoop_of_none {s : UiStack ε π ω} (h : s.current = none) (n : ℕ) :
    clearLoop E n s = .ok s := by
  cases n with
  | zero => simp [clearLoop, uiPop, h, pure, Except.pure]
  | succ n => simp [clearLoop, h, pure, Except.pure]

theorem liveCount_uiPop {s s' : UiStack ε π ω} (hc : s.current ≠ none) (h : uiPop E s = .ok s') :
    s'.layers.liveCount + 1 = s.layers.liveCount := by
  obtain ⟨p, hp⟩ := Option.ne_none_iff_exists'.mp hc
  simp only [uiPop, hp, bind, Except.bind] at h
  split at h
  · cases h
  split at h
  · cases h
  split at h
  · cases h
  next layers hfree =>
      obtain rfl := Except.ok.inj h
      exact Heap.liveCount_free hfree

/-- The bounded loop is the loop of the source in every state. -/
theorem uiClear_eq (s : UiStack ε π ω) :
    uiClear E s = if s.current = none then .ok s else uiPop E s >>= uiClear E := by
  split_ifs with hc
  · exact clearLoop_of_none E hc _
  · cases hpop : uiPop E s with
    | error f =>
        rw [uiClear]
        cases s.layers.liveCount with
        | zero => rw [clearLoop, hpop]; rfl
        | succ n => rw [clearLoop, if_neg hc, hpop]; rfl
    | ok s' =>
        have hlive := liveCount_uiPop E hc hpop
        rw [uiClear, ← hlive, clearLoop, if_neg hc, hpop]
        rfl

/-- The loop ends on an empty stack. -/
theorem uiClear_current {s s' : UiStack ε π ω} (h : uiClear E s = .ok s') : s'.current = none := by
  induction hn : s.layers.liveCount using Nat.strongRecOn generalizing s with
  | _ n ih =>
      rw [uiClear_eq] at h
      split_ifs at h with hc
      · rwa [← Except.ok.inj h]
      · cases hpop : uiPop E s with
        | error f =>
            rw [hpop] at h
            cases h
        | ok t =>
            rw [hpop] at h
            have hlive := liveCount_uiPop E hc hpop
            exact ih t.layers.liveCount (by omega) h rfl

end Operations

section Stacked
variable {ε π ω : Type} {E : Elements ε π ω} {d : Option ε} {s : UiStack ε π ω}

/-- The layers of a stack, top first, with their links. -/
def layerTable : List (Ptr × ε) → List (Ptr × Layer ε)
  | [] => []
  | (p, e) :: es => (p, ⟨e, es.head?.map Prod.fst⟩) :: layerTable es

/-- The stack consists of these layers, top first, and no other layer is live. -/
structure Stacked (d : Option ε) (es : List (Ptr × ε)) (s : UiStack ε π ω) : Prop where
  current : s.current = es.head?.map Prod.fst
  size : s.stackSize = UInt8.ofNat es.length
  default : s.defaultElement = d
  layers : s.layers.Owns (layerTable es)

theorem boot_stacked (rest : ω) : Stacked none [] (UiStack.boot rest : UiStack ε π ω) :=
  ⟨rfl, rfl, rfl, Heap.owns_empty⟩

variable {p : Ptr} {e : ε} {es : List (Ptr × ε)}

theorem Stacked.withRest (h : Stacked d es s) (r : ω) : Stacked d es { s with rest := r } :=
  ⟨h.current, h.size, h.default, h.layers⟩

theorem Stacked.read (h : Stacked d ((p, e) :: es) s) :
    s.current = some p ∧ s.layers.read p = .ok ⟨e, es.head?.map Prod.fst⟩ :=
  ⟨h.current, h.layers.read (List.mem_cons_self ..)⟩

theorem uiPush_stacked (h : Stacked d es s) (e : ε) :
    Stacked d ((s.layers.size, e) :: es) (uiPush e s) := by
  refine ⟨rfl, ?_, h.default, ?_⟩
  · simp only [uiPush, h.size, List.length_cons, UInt8.ofNat_add]
    rfl
  · have halloc := h.layers.alloc ⟨e, s.current⟩
    rw [uiPush, layerTable, ← h.current]
    exact halloc

theorem uiPop_stacked (h : Stacked d ((p, e) :: es) s) {r : ω} (hfree : E.free e s.rest = .ok r) :
    ∃ s', uiPop E s = .ok s' ∧ Stacked d es s' ∧ s'.layers.size = s.layers.size ∧
      s'.rest = r := by
  obtain ⟨hcurrent, hread⟩ := h.read
  obtain ⟨layers, hlayers, hsize, hown⟩ := h.layers.free
  refine ⟨{ s with
    current := es.head?.map Prod.fst
    stackSize := s.stackSize - 1
    layers := layers
    rest := r }, ?_, ⟨rfl, ?_, h.default, hown⟩, hsize, rfl⟩
  · simp only [uiPop, hcurrent, hread, hfree, hlayers, bind, Except.bind]
    rfl
  · simp [h.size, UInt8.ofNat_add]

theorem uiPop_empty (h : Stacked d [] s) : uiPop E s = .ok s := by
  have hcurrent : s.current = none := h.current
  simp [uiPop, hcurrent, pure, Except.pure]

/-- A clear frees the elements from the top down. `P` relates the layers that
are left to the rest of the state. -/
theorem uiClear_stacked (P : List (Ptr × ε) → ω → Prop)
    (hfree : ∀ p e es r, P ((p, e) :: es) r → ∃ r', E.free e r = .ok r' ∧ P es r') :
    ∀ {es : List (Ptr × ε)} {s : UiStack ε π ω}, Stacked d es s → P es s.rest →
      ∃ s', uiClear E s = .ok s' ∧ Stacked d [] s' ∧ s'.layers.size = s.layers.size ∧
        P [] s'.rest := by
  intro es
  induction es with
  | nil =>
      intro s h hP
      have hcurrent : s.current = none := h.current
      exact ⟨s, by rw [uiClear_eq, if_pos hcurrent], h, rfl, hP⟩
  | cons l es ih =>
      intro s h hP
      obtain ⟨r, hr, hP'⟩ := hfree l.1 l.2 es s.rest hP
      obtain ⟨t, ht, hst, hsize, hrest⟩ := uiPop_stacked h hr
      obtain ⟨s', hs', hempty, hsize', hdone⟩ := ih hst (by rwa [hrest])
      have hcurrent : s.current ≠ none := by
        rw [h.read.1]
        exact Option.some_ne_none _
      exact ⟨s', by rw [uiClear_eq, if_neg hcurrent, ht]; exact hs', hempty, hsize'.trans hsize,
        hdone⟩

/-- The element that a redraw draws. -/
def shown (d : Option ε) (es : List (Ptr × ε)) : Option ε := (es.head?.map Prod.snd).or d

theorem Stacked.renderedElement (h : Stacked d es s) :
    renderedElement s = .ok (shown d es) := by
  cases es with
  | nil =>
      have hcurrent : s.current = none := h.current
      simp only [Ui.renderedElement, hcurrent, h.default]
      rfl
  | cons l es =>
      simp only [Ui.renderedElement, h.read.1, h.read.2]
      rfl

theorem uiRender_stacked (h : Stacked d es s)
    (hrender : ∀ e ∈ shown d es, ∃ picture, E.render e s.rest = .ok picture) :
    ∃ s', uiRender E s = .ok s' ∧ Stacked d es s' ∧ s'.layers = s.layers ∧
      s'.rest = s.rest := by
  cases hdisplay : s.display with
  | none => exact ⟨s, by simp only [uiRender, hdisplay]; rfl, h, rfl, rfl⟩
  | some old =>
      have hshown := h.renderedElement
      cases he : shown d es with
      | none =>
          refine ⟨s, ?_, h, rfl, rfl⟩
          simp only [uiRender, hdisplay, hshown, he, bind, Except.bind]
          rfl
      | some e =>
          obtain ⟨picture, hpicture⟩ := hrender e he
          refine ⟨{ s with display := some picture }, ?_, ⟨h.current, h.size, h.default, h.layers⟩,
            rfl, rfl⟩
          simp only [uiRender, hdisplay, hshown, he, hpicture, bind, Except.bind]
          rfl

theorem dispatch_layer (h : Stacked d ((p, e) :: es) s) {b : Bool}
    (hnav : E.hasNavigate e s.rest = .ok b) (nullElement : ε) (nav : Nav) :
    dispatch E nullElement nav s = .ok (if b then match nav with
      | .return => .pop
      | .close => .clear
      | _ => .invoke (some p) e e else .ignore) := by
  obtain ⟨hcurrent, hread⟩ := h.read
  simp only [dispatch, hcurrent, hread, hnav, bind, Except.bind]
  cases b with
  | false => rfl
  | true => cases nav <;> rfl

theorem dispatch_empty (h : Stacked none [] s) (nullElement : ε) (nav : Nav) :
    dispatch E nullElement nav s = .ok .ignore := by
  have hcurrent : s.current = none := h.current
  simp only [dispatch, hcurrent, h.default]
  rfl

theorem dispatch_default (h : Stacked (some e) [] s) {b : Bool}
    (hnav : E.hasNavigate e s.rest = .ok b) (nullElement : ε) (nav : Nav) :
    dispatch E nullElement nav s = .ok (if b then .invoke none e nullElement else .ignore) := by
  have hcurrent : s.current = none := h.current
  simp only [dispatch, hcurrent, h.default, hnav, bind, Except.bind]
  cases b <;> rfl

end Stacked

end Keytar.Ui
