import Keytar.Ui.Element

/-!
# Select items

A select item walks over an array of options that ends with NULL, so the list of
options here is the array without that NULL.
-/
namespace Keytar.Ui
open Memory

structure Select (α : Type) where
  label : String
  index : ℕ
  max : ℕ
  options : List α

section Select
variable {α : Type}

/-- The loop `while (options[max + 1]) max++`: it looks one ahead of the option
that it stands on, and on an empty array that is behind the NULL. -/
def selectMax : List α → Except Fault ℕ
  | [] => .error .outOfBounds
  | [_] => pure 0
  | _ :: x :: options => (selectMax (x :: options)).map (· + 1)

def Select.new (label : String) (options : List α) (initialIndex : ℕ) :
    Except Fault (Select α) := do
  let max ← selectMax options
  pure ⟨label, initialIndex, max, options⟩

/-- The index that an input changes to. -/
def Select.moved (nav : Nav) (self : Select α) : Option ℕ :=
  match nav with
  | .left => if self.index > 0 then some (self.index - 1) else none
  | .right => if self.index < self.max then some (self.index + 1) else none
  | _ => none

/-- The item after an input and, if the input changed it, the option that
`on_change` gets. -/
def Select.navigate (nav : Nav) (self : Select α) : Except Fault (Select α × Option α) :=
  match self.moved nav with
  | none => pure (self, none)
  | some index => do
      let option ← readAt self.options index
      pure ({ self with index := index }, some option)

/-- The index is on an option and `max` is the index of the last one. -/
structure Select.Valid (s : Select α) : Prop where
  index : s.index ≤ s.max
  max : s.max + 1 = s.options.length

theorem selectMax_spec (x : α) (options : List α) :
    selectMax (x :: options) = .ok options.length := by
  induction options generalizing x with
  | nil => rfl
  | cons y options ih =>
      rw [selectMax, ih]
      rfl

theorem Select.new_eq (label : String) {options : List α} {initialIndex : ℕ}
    (h : initialIndex < options.length) :
    Select.new label options initialIndex =
      .ok ⟨label, initialIndex, options.length - 1, options⟩ := by
  cases options with
  | nil => simp at h
  | cons x options =>
      simp only [Select.new, selectMax_spec, bind, Except.bind]
      rfl

theorem Select.valid_new (label : String) {options : List α} {initialIndex : ℕ}
    (h : initialIndex < options.length) :
    (⟨label, initialIndex, options.length - 1, options⟩ : Select α).Valid :=
  ⟨Nat.le_sub_one_of_lt h, Nat.sub_add_cancel (Nat.zero_lt_of_lt h)⟩

theorem Select.Valid.option {self : Select α} (h : self.Valid) :
    ∃ x, readAt self.options self.index = .ok x := by
  have := h.index
  have := h.max
  exact ⟨_, readAt_ok (by omega)⟩

theorem Select.Valid.moved {self : Select α} (h : self.Valid) {nav : Nav} {i : ℕ}
    (hi : self.moved nav = some i) : i ≤ self.max := by
  have hindex := h.index
  cases nav <;> simp [Select.moved] at hi <;> omega

theorem Select.Valid.navigate {self : Select α} (h : self.Valid) (nav : Nav) :
    ∃ r, Select.navigate nav self = .ok r ∧ r.1.Valid := by
  cases hmoved : self.moved nav with
  | none => exact ⟨(self, none), by simp only [Select.navigate, hmoved]; rfl, h⟩
  | some i =>
      have hle := h.moved hmoved
      have hlt : i < self.options.length := by
        rw [← h.max]
        omega
      refine ⟨({ self with index := i }, some self.options[i]), ?_, ⟨hle, h.max⟩⟩
      simp only [Select.navigate, hmoved, readAt_ok hlt, bind, Except.bind]
      rfl

/-- Where an input takes the index among `n` options. -/
def turn (n index : ℕ) : Nav → ℕ
  | .left => index - 1
  | .right => min (index + 1) (n - 1)
  | _ => index

theorem turn_lt {n index : ℕ} (h : index < n) (nav : Nav) : turn n index nav < n := by
  cases nav <;> simp only [turn] <;> omega

theorem foldl_turn_lt {n index : ℕ} (h : index < n) (navs : List Nav) :
    navs.foldl (turn n) index < n := by
  induction navs generalizing index with
  | nil => exact h
  | cons nav navs ih => exact ih (turn_lt h nav)

theorem Select.Valid.moved_eq {self : Select α} (h : self.Valid) (nav : Nav) :
    self.moved nav = if turn self.options.length self.index nav = self.index then none
      else some (turn self.options.length self.index nav) := by
  have hindex := h.index
  have hmax := h.max
  cases nav with
  | left =>
      by_cases hlow : self.index > 0
      · rw [if_neg (show turn self.options.length self.index .left ≠ self.index by
          simp only [turn]; omega)]
        exact if_pos hlow
      · rw [if_pos (show turn self.options.length self.index .left = self.index by
          simp only [turn]; omega)]
        exact if_neg hlow
  | right =>
      by_cases hhigh : self.index < self.max
      · have hturn : turn self.options.length self.index .right = self.index + 1 := by
          simp only [turn]
          omega
        rw [hturn, if_neg (Nat.succ_ne_self _)]
        exact if_pos hhigh
      · rw [if_pos (show turn self.options.length self.index .right = self.index by
          simp only [turn]; omega)]
        exact if_neg hhigh
  | _ => exact (if_pos rfl).symm

/-- The law of the item: the index stops at the ends, and `on_change` is called with
the option at the new index, exactly where the index has changed. -/
theorem Select.Valid.navigate_eq {self : Select α} (h : self.Valid) (nav : Nav) :
    let index := turn self.options.length self.index nav
    self.navigate nav = .ok ({ self with index := index },
      if index = self.index then none else self.options[index]?) := by
  have hlt : turn self.options.length self.index nav < self.options.length := by
    have hindex := h.index
    have hmax := h.max
    exact turn_lt (by omega) nav
  simp only [Select.navigate, h.moved_eq nav]
  split_ifs with hsame
  · rw [hsame]
    rfl
  · simp only [readAt_ok hlt, List.getElem?_eq_getElem hlt, bind, Except.bind]
    rfl

/-- After any inputs the item is the same but for its index. -/
theorem Select.Valid.foldlM_navigate (navs : List Nav) :
    ∀ {self : Select α}, self.Valid →
      navs.foldlM (fun self nav => (self.navigate nav).map Prod.fst) self =
        .ok { self with index := navs.foldl (turn self.options.length) self.index } := by
  induction navs with
  | nil => exact fun _ => rfl
  | cons nav navs ih =>
      intro self h
      obtain ⟨r, hr, hvalid⟩ := h.navigate nav
      have hstep := h.navigate_eq nav
      obtain rfl := Except.ok.inj (hr.symm.trans hstep)
      rw [List.foldlM_cons, hstep]
      exact ih hvalid

/-- After any inputs from option `i` on, the index is on an option and the rest of the
item has stayed, and the next input calls `on_change`, with the option at the new index,
exactly where it changes the index. -/
def Select.Follows (self : Select α) (i : ℕ) : Prop :=
  ∀ navs : List Nav,
    let index := navs.foldl (turn self.options.length) i
    index < self.options.length ∧
    navs.foldlM (fun self nav => (self.navigate nav).map Prod.fst) self =
      .ok { self with index := index } ∧
    ∀ nav, Select.navigate nav { self with index := index } =
      .ok ({ self with index := turn self.options.length index nav },
        if turn self.options.length index nav = index then none
        else self.options[turn self.options.length index nav]?)

/-- A new item follows its inputs, and `max` is the index of the last option. -/
theorem Select.new_follows (label : String) {options : List α} {i : ℕ}
    (hi : i < options.length) :
    ∃ self : Select α, Select.new label options i = .ok self ∧ self.options = options ∧
      self.max + 1 = options.length ∧ self.Follows i := by
  have hvalid := Select.valid_new label hi
  refine ⟨_, Select.new_eq label hi, rfl, hvalid.max, fun navs => ?_⟩
  have hlt := foldl_turn_lt hi navs
  exact ⟨hlt, hvalid.foldlM_navigate navs, (Select.valid_new label hlt).navigate_eq⟩

end Select

end Keytar.Ui
