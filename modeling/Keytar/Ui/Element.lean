import Keytar.Lib.Heap

/-!
# Elements of the user interface

The firmware has one static element, `ui_status`, and pushes menus, which are
allocated. A pointer to a `ui_element_t` is one of the two.
-/
namespace Keytar.Ui
open Memory

/-- The inputs `ui_nav_t`. -/
inductive Nav where
  | left | right | up | down | enter | return | close
  deriving DecidableEq, Repr

inductive Element where
  | uiStatus
  | menu (p : Ptr)
  deriving DecidableEq, Repr

end Keytar.Ui
