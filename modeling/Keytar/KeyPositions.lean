import Mathlib.Data.Int.Notation

/-!
# Where each key of the keyboard sits

The row is counted from the bottom of the note area and the column from the
left; -1 stands for a key outside of it. Both tables have 128 entries.
-/
namespace Keytar.KeyPositions

def keycode2row : List ℤ := [
  -1, -1, -1, -1,
  2, 1, 1, 2, 3, 2, 2, 2, 3, 2, 2, 2, 1, 1, 3, 3, 3, 3, 2, 3, 3, 1, 3, 1, 3, 1, -- a to z
  4, 4, 4, 4, 4, 4, 4, 4, 4, 4, -- 1 to 0
  -1, -1, -1, -1, -1, -- return, escape, backspace, tab, space
  -1, 4, 3, 3, -1, 1, 2, 2, 4, 1, 1, 1, -- - = [ ] \ # ; ' ` , . /
  -1, -1, -1, -1, -1, -1, -1, -1, -1, -1, -1, -1, -1, -1, -1, -1,
  -1, -1, -1, -1, -1, -1, -1, -1, -1, -1, -1, -1, -1, -1, -1, -1,
  -1, -1, -1, -1, -1, -1, -1, -1, -1, -1, -1,
  1, -- the key left of z on a german layout
  -1,
  -1, -1, -1, -1, -1, -1, -1, -1, -1, -1, -1, -1, -1,
  -1, -1, -1, -1, -1, -1, -1, -1, -1, -1, -1, -1, -1]

def keycode2column : List ℤ := [
  -1, -1, -1, -1,
  1, 5, 3, 3, 3, 4, 5, 6, 8, 7, 8, 9, 7, 6, 9, 10, 1, 4, 2, 5, 7, 4, 2, 2, 6, 1, -- a to z
  1, 2, 3, 4, 5, 6, 7, 8, 9, 10, -- 1 to 0
  -1, -1, -1, -1, -1, -- return, escape, backspace, tab, space
  11, 12, 11, 12, 13, 11, 10, 11, 0, 8, 9, 10, -- - = [ ] \ # ; ' ` , . /
  -1, -1, -1, -1, -1, -1, -1, -1, -1, -1, -1, -1, -1, -1, -1, -1,
  -1, -1, -1, -1, -1, -1, -1, -1, -1, -1, -1, -1, -1, -1, -1, -1,
  -1, -1, -1, -1, -1, -1, -1, -1, -1, -1, -1,
  -1,
  -1,
  -1, -1, -1, -1, -1, -1, -1, -1, -1, -1, -1, -1, -1,
  -1, -1, -1, -1, -1, -1, -1, -1, -1, -1, -1, -1, -1]

theorem keycode2row_length : keycode2row.length = 128 := by decide +kernel

theorem keycode2column_length : keycode2column.length = 128 := by decide +kernel

end Keytar.KeyPositions
