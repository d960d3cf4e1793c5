import Keytar.Ui.Stack
import Mathlib.Data.Int.Notation

/-!
# Menus

A menu, the array of its item pointers and its items are separate allocations.
An element of the array that nothing was written to is `none`. The items are of
any type here; every item of the firmware is freed by a plain `free`.
-/
namespace Keytar.Ui
open Memory

/-- The fields of `ui_menu_t` behind its callbacks; `items` points to an array. -/
structure Menu where
  length : UInt8
  items : Ptr
  index : UInt8
  scroll : UInt8
  deriving DecidableEq, Repr

structure MenuHeap (ι : Type) where
  menus : Heap Menu
  arrays : Heap (List (Option Ptr))
  items : Heap ι

/-- One row of a drawn menu; `cursor` is the character in front of it. -/
structure Line (τ : Type) where
  y : UInt8
  cursor : Bool
  focus : Bool
  content : τ
  deriving DecidableEq, Repr

section Operations
variable {ι τ : Type}

def MenuHeap.empty : MenuHeap ι := ⟨Heap.empty, Heap.empty, Heap.empty⟩

/-- The two allocations of `push_menu`. -/
def newMenu (itemCapacity : UInt8) (m : MenuHeap ι) : Ptr × MenuHeap ι :=
  let items := m.arrays.alloc (List.replicate itemCapacity.toNat none)
  let menu := m.menus.alloc ⟨0, items.1, 0, 0⟩
  (menu.1, { m with menus := menu.2, arrays := items.2 })

def menuAdd (menu item : Ptr) (m : MenuHeap ι) : Except Fault (MenuHeap ι) := do
  let self ← m.menus.read menu
  let slots ← m.arrays.read self.items
  if self.length.toNat < slots.length then
    let arrays ← m.arrays.write self.items (slots.set self.length.toNat (some item))
    let menus ← m.menus.write menu { self with length := self.length + 1 }
    pure { m with menus := menus, arrays := arrays }
  else .error .overflow

/-- A `menu_add` of a newly made item. -/
def addItem (menu : Ptr) (item : ι) (m : MenuHeap ι) : Except Fault (MenuHeap ι) :=
  let new := m.items.alloc item
  menuAdd menu new.1 { m with items := new.2 }

/-- A read of an element of the array. What an element holds that was never
written, or lies behind the array, is up to `stray`; `none` stops the run there. -/
def readSlot (stray : Option Ptr) (slots : List (Option Ptr)) (i : ℕ) : Except Fault Ptr :=
  match slots[i]?.join <|> stray with
  | some p => .ok p
  | none => .error .outOfBounds

/-- One round of the loop in `free_menu`. -/
def freeItem (slots : List (Option Ptr)) (items : Heap ι) (i : ℕ) : Except Fault (Heap ι) := do
  let item ← readSlot none slots i
  let _ ← items.read item
  items.free item

def freeMenu (menu : Ptr) (m : MenuHeap ι) : Except Fault (MenuHeap ι) := do
  let self ← m.menus.read menu
  let slots ← m.arrays.read self.items
  let items ← (List.range self.length.toNat).foldlM (freeItem slots) m.items
  let arrays ← m.arrays.free self.items
  let menus ← m.menus.free menu
  pure ⟨menus, arrays, items⟩

/-- The branch for UP. The arithmetic is in `int`, the fields are bytes. -/
def menuUp (self : Menu) : Menu :=
  let index := UInt8.ofInt (max ((self.index.toNat : ℤ) - 1) 0)
  { self with
    index := index
    scroll := if self.scroll > index then index else self.scroll }

/-- The branch for DOWN. -/
def menuDown (self : Menu) : Menu :=
  let index := UInt8.ofInt (min ((self.index.toNat : ℤ) + 1) (max ((self.length.toNat : ℤ) - 1) 0))
  { self with
    index := index
    scroll :=
      if (self.scroll.toNat : ℤ) < (index.toNat : ℤ) - 8 + 1 then
        UInt8.ofInt ((index.toNat : ℤ) - 8 + 1)
      else self.scroll }

/-- UP never wraps. -/
theorem menuUp_index (self : Menu) : (menuUp self).index.toNat = self.index.toNat - 1 := by
  have hlt := self.index.toNat_lt
  rw [menuUp, UInt8.ofInt, UInt8.toNat_ofNat']
  omega

/-- DOWN stops at the last item, or at 0 in a menu without items. -/
theorem menuDown_index (self : Menu) :
    (menuDown self).index.toNat = min (self.index.toNat + 1) (self.length.toNat - 1) := by
  have hlt := self.index.toNat_lt
  have hlt' := self.length.toNat_lt
  rw [menuDown, UInt8.ofInt, UInt8.toNat_ofNat']
  omega

/-- The loop of `render_menu`, with at most `n` rounds to go. -/
def renderLines (draw : ι → Bool → Except Fault τ) (m : MenuHeap ι) (self : Menu)
    (slots : List (Option Ptr)) (focus : Bool) :
    ℕ → UInt8 → UInt8 → Except Fault (List (Line τ))
  | 0, _, _ => pure []
  | n + 1, iLine, y =>
      if iLine.toNat + self.scroll.toNat < self.length.toNat then do
        let index := self.scroll + iLine
        let p ← readSlot none slots index.toNat
        let item ← m.items.read p
        let content ← draw item (focus && index == self.index)
        let lines ← renderLines draw m self slots focus n (iLine + 1) (y + 8)
        pure (⟨y, index == self.index, focus && index == self.index, content⟩ :: lines)
      else pure []

def renderMenu (draw : ι → Bool → Except Fault τ) (y : UInt8) (focus : Bool) (menu : Ptr)
    (m : MenuHeap ι) : Except Fault (List (Line τ)) := do
  let self ← m.menus.read menu
  let slots ← m.arrays.read self.items
  renderLines draw m self slots focus 8 0 y

end Operations

end Keytar.Ui
