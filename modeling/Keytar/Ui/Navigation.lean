import Keytar.Ui.Stack
import Keytar.Lib.Runs

/-!
# Which pointer a navigation follows

Runs of the stack operations from `display_init`, with callbacks that may do
anything that a callback can: push, pop or clear in any order and change their
own data. With a layer on the stack the callback gets its owner. On the status
screen `ui_navigate` takes the argument from `ui_stack.current`, which is NULL.
-/
namespace Keytar.Ui
open Memory

/-- An operation on the stack, or a change of the data behind it. -/
inductive Op (ω : Type) where
  | push (e : Element)
  | pop
  | clear
  | assign (r : ω)

/-- A call from outside the user interface. -/
inductive Call (ω : Type) where
  | navigate (nav : Nav)
  | op (o : Op ω)

/-- The elements of a run: what the callbacks of each pushed element do, as a
script of operations that may depend on the whole state. Both callbacks of
`ui_status` are set. -/
structure Behaviour (π ω : Type) where
  freed : Ptr → ω → ω
  drawn : Element → ω → π
  navigable : Ptr → Bool
  script : Element → Element → Nav → UiStack Element π ω → List (Op ω)

section Calls
variable {π ω : Type} (B : Behaviour π ω)

def Behaviour.elements : Elements Element π ω where
  free := fun e r => .ok (match e with | .uiStatus => r | .menu p => B.freed p r)
  render := fun e r => .ok (B.drawn e r)
  hasNavigate := fun e _ => .ok (match e with | .uiStatus => true | .menu p => B.navigable p)

def Op.run (s : UiStack Element π ω) : Op ω → Except Fault (UiStack Element π ω)
  | .push e => pure (uiPush e s)
  | .pop => uiPop B.elements s
  | .clear => uiClear B.elements s
  | .assign r => pure { s with rest := r }

def Behaviour.navigate (owner self : Element) (nav : Nav) (s : UiStack Element π ω) :
    Except Fault (UiStack Element π ω) :=
  (B.script owner self nav s).foldlM (Op.run B) s

def Call.run (nullElement : Element) (s : UiStack Element π ω) :
    Call ω → Except Fault (UiStack Element π ω)
  | .navigate nav => uiNavigate B.elements B.navigate nullElement nav s
  | .op o => o.run B s

/-- `display_init`, for a display that answers or not. -/
def displayInit (displayOk : Bool) (picture : π) (s : UiStack Element π ω) :
    Except Fault (UiStack Element π ω) :=
  if displayOk then uiRender B.elements (uiInit picture .uiStatus s) else pure s

/-- The calls after `display_init`, from the state after a reset. -/
def runCalls (nullElement : Element) (displayOk : Bool) (picture : π) (r : ω)
    (calls : List (Call ω)) : Except Fault (UiStack Element π ω) := do
  let s ← displayInit B displayOk picture (UiStack.boot r)
  calls.foldlM (Call.run B nullElement) s

/-- No NULL pointer is followed and a callback gets the element that owns it. -/
def Dispatch.Safe : Dispatch Element → Prop
  | .invoke followed owner self => followed ≠ none ∧ self = owner
  | _ => True

instance : (d : Dispatch Element) → Decidable d.Safe
  | .invoke followed owner self => inferInstanceAs (Decidable (followed ≠ none ∧ self = owner))
  | .ignore | .pop | .clear => isTrue trivial

variable {B} {d : Option Element} {s : UiStack Element π ω}

/-- Some layers, each of them live. -/
def Layered (d : Option Element) (s : UiStack Element π ω) : Prop := ∃ es, Stacked d es s

theorem Layered.render (h : Layered d s) :
    ∃ s', uiRender B.elements s = .ok s' ∧ Layered d s' := by
  obtain ⟨es, hes⟩ := h
  obtain ⟨s', hs', hes', -, -⟩ := uiRender_stacked (E := B.elements) hes fun e _ => ⟨_, rfl⟩
  exact ⟨s', hs', es, hes'⟩

theorem Layered.op (h : Layered d s) (o : Op ω) :
    ∃ s', o.run B s = .ok s' ∧ Layered d s' := by
  obtain ⟨es, hes⟩ := h
  cases o with
  | push e => exact ⟨_, rfl, _, uiPush_stacked hes e⟩
  | pop =>
      cases es with
      | nil => exact ⟨s, uiPop_empty hes, _, hes⟩
      | cons l es =>
          obtain ⟨s', hs', hes', -, -⟩ := uiPop_stacked (E := B.elements) hes rfl
          exact ⟨s', hs', _, hes'⟩
  | clear =>
      obtain ⟨s', hs', hes', -, -⟩ := uiClear_stacked (E := B.elements) (fun _ _ => True)
        (fun _ _ _ _ _ => ⟨_, rfl, trivial⟩) hes trivial
      exact ⟨s', hs', _, hes'⟩
  | assign r => exact ⟨_, rfl, _, hes.withRest r⟩

theorem Layered.navigate (h : Layered d s) (owner self : Element) (nav : Nav) :
    ∃ s', B.navigate owner self nav s = .ok s' ∧ Layered d s' :=
  Runs.foldlM_invariant (Op.run B) (fun _ s => Layered d s)
    (fun o _ _ hs => hs.op o) _ s h

theorem Layered.dispatch (h : Layered d s) (hd : d = none ∨ d = some .uiStatus)
    (nullElement : Element) (nav : Nav) :
    ∃ a, dispatch B.elements nullElement nav s = .ok a ∧
      (a.Safe ↔ s.current ≠ none ∨ d = none) := by
  obtain ⟨es, hes⟩ := h
  cases es with
  | cons l es =>
      refine ⟨_, dispatch_layer (E := B.elements) hes rfl nullElement nav, ?_⟩
      have hsome : s.current ≠ none := by
        rw [hes.read.1]
        exact Option.some_ne_none _
      simp only [hsome, ne_eq, not_false_eq_true, true_or, iff_true]
      split_ifs
      · cases nav <;> simp [Dispatch.Safe]
      · trivial
  | nil =>
      have hcurrent : s.current = none := hes.current
      rcases hd with rfl | rfl
      · exact ⟨_, dispatch_empty hes nullElement nav, by simp [Dispatch.Safe]⟩
      · refine ⟨_, dispatch_default (E := B.elements) hes rfl nullElement nav, ?_⟩
        simp [Dispatch.Safe, hcurrent]

theorem Layered.call (h : Layered d s) (hd : d = none ∨ d = some .uiStatus)
    (nullElement : Element) (c : Call ω) :
    ∃ s', c.run B nullElement s = .ok s' ∧ Layered d s' := by
  cases c with
  | op o => exact h.op o
  | navigate nav =>
      obtain ⟨a, ha, -⟩ := h.dispatch (B := B) hd nullElement nav
      simp only [Call.run, uiNavigate, ha, bind, Except.bind]
      cases a with
      | ignore => exact ⟨s, rfl, h⟩
      | pop =>
          obtain ⟨t, ht, hlt⟩ := h.op (B := B) .pop
          simp only [Op.run] at ht
          simp only [ht]
          exact hlt.render
      | clear =>
          obtain ⟨t, ht, hlt⟩ := h.op (B := B) .clear
          simp only [Op.run] at ht
          simp only [ht]
          exact hlt.render
      | invoke followed owner self =>
          obtain ⟨t, ht, hlt⟩ := h.navigate (B := B) owner self nav
          simp only [ht]
          exact hlt.render

theorem displayInit_layered (displayOk : Bool) (picture : π) (r : ω) :
    ∃ s, displayInit B displayOk picture (UiStack.boot r) = .ok s ∧
      Layered (if displayOk then some .uiStatus else none) s := by
  have hboot := boot_stacked (ε := Element) (π := π) r
  cases displayOk with
  | false => exact ⟨_, rfl, _, hboot⟩
  | true =>
      have hinit : Layered (some .uiStatus)
          (uiInit picture .uiStatus (UiStack.boot r : UiStack Element π ω)) :=
        ⟨[], hboot.current, hboot.size, rfl, hboot.layers⟩
      exact hinit.render

end Calls

/-- In every reachable state a navigation is safe exactly if there is a layer,
or no display and with it no default element. -/
theorem navigate_safe_iff {π ω : Type} (B : Behaviour π ω) (nullElement : Element)
    (displayOk : Bool) (picture : π) (r : ω) (calls : List (Call ω)) :
    ∃ s, runCalls B nullElement displayOk picture r calls = .ok s ∧
      ∀ nav, ∃ a, dispatch B.elements nullElement nav s = .ok a ∧
        (a.Safe ↔ s.current ≠ none ∨ displayOk = false) := by
  obtain ⟨s, hs, hl⟩ := displayInit_layered (B := B) displayOk picture r
  have hd : (if displayOk then some Element.uiStatus else none) = none ∨
      (if displayOk then some Element.uiStatus else none) = some .uiStatus := by
    cases displayOk
    · exact .inl rfl
    · exact .inr rfl
  obtain ⟨t, ht, hlt⟩ := Runs.foldlM_invariant (Call.run B nullElement)
    (fun _ s => Layered (if displayOk then some .uiStatus else none) s)
    (fun c _ _ h => h.call hd nullElement c) calls s hl
  refine ⟨t, ?_, fun nav => ?_⟩
  · simp only [runCalls, hs, bind, Except.bind]
    exact ht
  · obtain ⟨a, ha, hsafe⟩ := hlt.dispatch (B := B) hd nullElement nav
    refine ⟨a, ha, hsafe.trans (or_congr_right ?_)⟩
    cases displayOk <;> simp

/-- Elements whose callbacks do nothing. -/
def idleBehaviour : Behaviour Unit Unit where
  freed := fun _ r => r
  drawn := fun _ _ => ()
  navigable := fun _ => true
  script := fun _ _ _ _ => []

/-- The first key after the start already follows the NULL pointer. -/
theorem firstKey_unsafe :
    ¬ ∀ (π ω : Type) (B : Behaviour π ω) (nullElement : Element) (displayOk : Bool) (picture : π)
      (r : ω) (calls : List (Call ω)) (s : UiStack Element π ω) (nav : Nav) (a : Dispatch Element),
      runCalls B nullElement displayOk picture r calls = .ok s →
        dispatch B.elements nullElement nav s = .ok a → a.Safe := by
  intro h
  have hbad := h Unit Unit idleBehaviour (.menu 0) true () () [] _ .close _ rfl rfl
  exact absurd hbad (by decide)

end Keytar.Ui
