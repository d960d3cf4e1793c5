import Keytar.KeyPositions
import Keytar.Lib.Memory
import Mathlib.Data.List.Basic

/-!
# The seven keymaps

A lookup writes the notes of a key into a static array and returns that array,
so whatever an earlier call left behind the new terminator is still in it. The
arrays are part of the state: `lookup` takes the old contents of the keymap's
array and returns the new ones.
-/
namespace Keytar.KeyboardMatrix
open KeyPositions Memory

inductive Keymap where
  | piano | accordionC | accordionB | accordion6plus6 | wickiHayden | guitar | omnichord
  deriving DecidableEq, Repr

/-- The array `keymaps` up to its terminating NULL. -/
def keymaps : List Keymap :=
  [.piano, .accordionC, .accordionB, .accordion6plus6, .wickiHayden, .guitar, .omnichord]

/-- The field `label` of `keymap_t`. -/
def Keymap.label : Keymap → String
  | .piano => "Piano"
  | .accordionC => "Acc. C"
  | .accordionB => "Acc. B"
  | .accordion6plus6 => "6 + 6"
  | .wickiHayden => "W/H"
  | .guitar => "Guitar"
  | .omnichord => "Omnichord"

/-- The position of the current keymap, 0 if it is in none. -/
def getKeymapIndex (keymap : Keymap) : ℕ := (keymaps.findIdx? (· = keymap)).getD 0

def noteByLut (keycode : UInt8) (lut : List (List UInt8)) : Except Fault UInt8 :=
  if keycode ≥ 128 then pure 0
  else do
    let row ← readAt keycode2row keycode.toNat
    let col ← readAt keycode2column keycode.toNat
    if row ≤ 0 ∨ col < 0 ∨ row > 4 ∨ col ≥ 14 then pure 0
    else do
      let line ← readAt lut (4 - row).toNat
      readAt line col.toNat

/-- The sum is computed in `int` and cut to a byte on return. -/
def noteByPattern (keycode offset : UInt8) (colStep rowStep : ℤ) : Except Fault UInt8 :=
  if keycode ≥ 128 then pure 0
  else do
    let row ← readAt keycode2row keycode.toNat
    let col ← readAt keycode2column keycode.toNat
    if row < 0 ∨ col < 0 then pure 0
    else pure (UInt8.ofInt (col * colStep + row * rowStep + offset.toNat))

def pianoLut : List (List UInt8) := [
  [0, 0, 49, 51, 0, 54, 56, 58, 61, 63, 0, 66, 68, 0],
  [0, 48, 50, 52, 53, 55, 57, 59, 60, 62, 64, 65, 67, 69],
  [0, 0, 37, 39, 0, 42, 44, 46, 0, 49, 51, 0, 0, 0],
  [0, 36, 38, 40, 41, 43, 45, 47, 48, 50, 52, 0, 0, 0]]

def lookupPiano (keycode : UInt8) (notes : List UInt8) : Except Fault (List UInt8) := do
  let note ← noteByLut keycode pianoLut
  pure (notes.set 0 note)

/-- The five lookups that go by a pattern differ in its numbers alone. -/
def lookupPattern (offset : UInt8) (colStep rowStep : ℤ) (keycode : UInt8)
    (notes : List UInt8) : Except Fault (List UInt8) := do
  let note ← noteByPattern keycode offset colStep rowStep
  pure (notes.set 0 note)

def lookupAccordionC := lookupPattern 36 3 (-2)
def lookupAccordionB := lookupPattern 38 3 (-1)
def lookupAccordion6plus6 := lookupPattern 32 2 (-1)
def lookupWickiHayden := lookupPattern 32 2 7
def lookupGuitar := lookupPattern 40 1 5

/-- Here the tables are read without a check of the keycode. -/
def lookupOmnichord (keycode : UInt8) (notes : List UInt8) : Except Fault (List UInt8) := do
  let row ← readAt keycode2row keycode.toNat
  let col ← readAt keycode2column keycode.toNat
  if row < 0 ∨ col < 0 then pure (notes.set 0 0)
  else
    let root := UInt8.ofInt (40 + col * 7 % 12)
    let notes := notes.set 0 root
    if row = 1 then
      pure ((((notes.set 1 (root + 4)).set 2 (root + 7)).set 3 (root + 10)).set 4 0)
    else if row = 2 then
      pure (((notes.set 1 (root + 3)).set 2 (root + 7)).set 3 0)
    else if row = 3 then
      pure (((notes.set 1 (root + 4)).set 2 (root + 7)).set 3 0)
    else pure (notes.set 1 0)

def lookup : Keymap → UInt8 → List UInt8 → Except Fault (List UInt8)
  | .piano => lookupPiano
  | .accordionC => lookupAccordionC
  | .accordionB => lookupAccordionB
  | .accordion6plus6 => lookupAccordion6plus6
  | .wickiHayden => lookupWickiHayden
  | .guitar => lookupGuitar
  | .omnichord => lookupOmnichord

/-- The static arrays of the lookups. -/
abbrev NoteArrays := Keymap → List UInt8

def bootArrays : NoteArrays
  | .omnichord => [0, 0, 0, 0, 0]
  | _ => [0, 0]

/-- What the arrays can contain after any calls. -/
def NoteArrays.Valid (a : NoteArrays) : Prop :=
  ∀ m, if m = .omnichord then (a m).length = 5 else ∃ x, a m = [x, 0]

theorem bootArrays_valid : bootArrays.Valid := by
  intro m
  cases m <;> simp [bootArrays]

theorem bootArrays_single {m : Keymap} (h : m ≠ .omnichord) : bootArrays m = [0, 0] := by
  cases m with
  | omnichord => exact (h rfl).elim
  | _ => rfl

theorem NoteArrays.Valid.single {a : NoteArrays} (ha : a.Valid) {m : Keymap}
    (h : m ≠ .omnichord) : ∃ x, a m = [x, 0] := by
  simpa [h] using ha m

/-- A lookup may replace the array of its keymap. -/
theorem NoteArrays.Valid.update {a : NoteArrays} (ha : a.Valid) {m : Keymap} {notes : List UInt8}
    (hnotes : if m = .omnichord then notes.length = 5 else ∃ x, notes = [x, 0]) :
    NoteArrays.Valid (Function.update a m notes) := by
  intro q
  by_cases hq : q = m
  · subst q
    simpa using hnotes
  · simpa [Function.update_of_ne hq] using ha q

/-- The loop of `handle_key` over an array of notes, which ends at the first zero. -/
def readNotes : List UInt8 → Except Fault (List UInt8)
  | [] => .error .outOfBounds
  | n :: ns => if n = 0 then .ok [] else (readNotes ns).map (n :: ·)

/-- The notes of a key in a keymap, as played from a fresh array. -/
def rawNotes (m : Keymap) (keycode : UInt8) : List UInt8 :=
  match lookup m keycode (bootArrays m) >>= readNotes with
  | .ok notes => notes
  | .error _ => []

section Lookup

theorem tables_ok {keycode : UInt8} (h : keycode < 128) :
    ∃ row col, readAt keycode2row keycode.toNat = .ok row ∧
      readAt keycode2column keycode.toNat = .ok col := by
  have hk : keycode.toNat < 128 := UInt8.lt_iff_toNat_lt.mp h
  exact ⟨_, _, readAt_ok (by rw [keycode2row_length]; exact hk),
    readAt_ok (by rw [keycode2column_length]; exact hk)⟩

theorem noteByPattern_ok {keycode : UInt8} (h : keycode < 128) (offset : UInt8)
    (colStep rowStep : ℤ) : ∃ n, noteByPattern keycode offset colStep rowStep = .ok n := by
  obtain ⟨row, col, hrow, hcol⟩ := tables_ok h
  have hk : ¬ keycode ≥ 128 := by simpa using h
  simp only [noteByPattern, if_neg hk, hrow, hcol, bind, Except.bind]
  split_ifs
  · exact ⟨_, rfl⟩
  · exact ⟨_, rfl⟩

theorem noteByLut_ok {keycode : UInt8} (h : keycode < 128) :
    ∃ n, noteByLut keycode pianoLut = .ok n := by
  obtain ⟨row, col, hrow, hcol⟩ := tables_ok h
  have hk : ¬ keycode ≥ 128 := by simpa using h
  simp only [noteByLut, if_neg hk, hrow, hcol, bind, Except.bind]
  split_ifs with hr
  · exact ⟨_, rfl⟩
  · push Not at hr
    obtain ⟨hr0, hc0, hr4, hc14⟩ := hr
    have hlen : (4 - row).toNat < pianoLut.length := by
      change (4 - row).toNat < 4
      omega
    have hline : ∀ line ∈ pianoLut, line.length = 14 := by decide
    rw [readAt_ok hlen]
    have hcol' : col.toNat < (pianoLut[(4 - row).toNat]).length := by
      rw [hline _ (List.getElem_mem hlen)]
      omega
    exact ⟨_, readAt_ok hcol'⟩

/-- A one-note keymap rewrites the first element and leaves the zero after it. -/
theorem lookup_single {m : Keymap} (hm : m ≠ .omnichord) {keycode : UInt8} (h : keycode < 128) :
    ∃ n, ∀ x, lookup m keycode [x, 0] = .ok [n, 0] := by
  have hpattern (offset : UInt8) (colStep rowStep : ℤ) :
      ∃ n, ∀ x, lookupPattern offset colStep rowStep keycode [x, 0] = .ok [n, 0] := by
    obtain ⟨n, hn⟩ := noteByPattern_ok h offset colStep rowStep
    exact ⟨n, fun x => by simp [lookupPattern, hn, bind, Except.bind, pure, Except.pure]⟩
  cases m with
  | omnichord => exact (hm rfl).elim
  | piano =>
      obtain ⟨n, hn⟩ := noteByLut_ok h
      exact ⟨n, fun x => by simp [lookup, lookupPiano, hn, bind, Except.bind, pure, Except.pure]⟩
  | _ => exact hpattern _ _ _

theorem omnichord_root (col : ℤ) :
    ∃ i : Fin 12, UInt8.ofInt (40 + col * 7 % 12) = UInt8.ofNat (40 + i) := by
  have hmod := Int.emod_nonneg (col * 7) (b := 12) (by decide)
  have hlt := Int.emod_lt_of_pos (col * 7) (b := 12) (by decide)
  obtain ⟨i, hi⟩ : ∃ i : Fin 12, col * 7 % 12 = i :=
    ⟨⟨(col * 7 % 12).toNat, by omega⟩, by simpa using (Int.toNat_of_nonneg hmod).symm⟩
  have hroot : ∀ i : Fin 12, UInt8.ofInt (40 + i) = UInt8.ofNat (40 + i) := by decide
  exact ⟨i, by rw [hi, hroot]⟩

theorem omnichord_notes_ne_zero (i : Fin 12) :
    UInt8.ofNat (40 + i) ≠ 0 ∧ UInt8.ofNat (40 + i) + 3 ≠ 0 ∧ UInt8.ofNat (40 + i) + 4 ≠ 0 ∧
      UInt8.ofNat (40 + i) + 7 ≠ 0 ∧ UInt8.ofNat (40 + i) + 10 ≠ 0 := by
  revert i
  decide

/-- The omnichord writes a terminator behind its notes in every branch, so its
five elements never show what an earlier chord left in them. -/
theorem lookup_omnichord {keycode : UInt8} (h : keycode < 128) :
    ∃ notes, ∀ old : List UInt8, old.length = 5 →
      ∃ new, lookup .omnichord keycode old = .ok new ∧ new.length = 5 ∧
        readNotes new = .ok notes := by
  obtain ⟨row, col, hrow, hcol⟩ := tables_ok h
  obtain ⟨i, hroot⟩ := omnichord_root col
  obtain ⟨h0, h3, h4, h7, h10⟩ := omnichord_notes_ne_zero i
  have hlist (old : List UInt8) (hold : old.length = 5) :
      ∃ a b c d e, old = [a, b, c, d, e] := by
    match old, hold with
    | [a, b, c, d, e], _ => exact ⟨a, b, c, d, e, rfl⟩
  simp only [lookup, lookupOmnichord, hrow, hcol, hroot, bind, Except.bind, pure, Except.pure]
  by_cases hout : row < 0 ∨ col < 0
  · refine ⟨[], ?_⟩
    intro old hold
    obtain ⟨a, b, c, d, e, rfl⟩ := hlist old hold
    simp [hout, readNotes]
  simp only [if_neg hout]
  generalize UInt8.ofNat (40 + i) = root at h0 h3 h4 h7 h10
  by_cases h1 : row = 1
  · refine ⟨[root, root + 4, root + 7, root + 10], ?_⟩
    intro old hold
    obtain ⟨a, b, c, d, e, rfl⟩ := hlist old hold
    simp [h1, readNotes, Except.map, h0, h4, h7, h10]
  by_cases h2 : row = 2
  · refine ⟨[root, root + 3, root + 7], ?_⟩
    intro old hold
    obtain ⟨a, b, c, d, e, rfl⟩ := hlist old hold
    simp [h2, readNotes, Except.map, h0, h3, h7]
  by_cases h3' : row = 3
  · refine ⟨[root, root + 4, root + 7], ?_⟩
    intro old hold
    obtain ⟨a, b, c, d, e, rfl⟩ := hlist old hold
    simp [h3', readNotes, Except.map, h0, h4, h7]
  · refine ⟨[root], ?_⟩
    intro old hold
    obtain ⟨a, b, c, d, e, rfl⟩ := hlist old hold
    simp [h1, h2, h3', readNotes, Except.map, h0]

/-- A lookup of a key below 128 stays inside the tables, its result holds a
zero, and what is played from it does not depend on the old contents. -/
theorem lookup_spec (m : Keymap) {keycode : UInt8} (h : keycode < 128) {a : NoteArrays}
    (ha : a.Valid) :
    ∃ new, lookup m keycode (a m) = .ok new ∧ readNotes new = .ok (rawNotes m keycode) ∧
      NoteArrays.Valid (Function.update a m new) := by
  by_cases hm : m = .omnichord
  · subst m
    obtain ⟨notes, hall⟩ := lookup_omnichord h
    have hraw : rawNotes .omnichord keycode = notes := by
      obtain ⟨new, hnew, -, hread⟩ := hall (bootArrays .omnichord) rfl
      simp [rawNotes, hnew, hread, bind, Except.bind]
    obtain ⟨new, hnew, hlen, hread⟩ := hall (a .omnichord) (by simpa using ha .omnichord)
    exact ⟨new, hnew, by rw [hraw, hread], ha.update (by simpa using hlen)⟩
  · obtain ⟨n, hn⟩ := lookup_single hm h
    obtain ⟨x, hx⟩ := ha.single hm
    have hraw : readNotes [n, 0] = .ok (rawNotes m keycode) := by
      by_cases h0 : n = 0 <;>
        simp [rawNotes, bootArrays_single hm, hn, bind, Except.bind, readNotes, Except.map, h0]
    exact ⟨[n, 0], by rw [hx, hn], hraw, ha.update (by simp [hm])⟩

end Lookup

end Keytar.KeyboardMatrix
