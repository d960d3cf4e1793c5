import Keytar.Keyboard
import Keytar.Lib.Runs

/-!
# Note lookup for every byte of a report

A report slot may hold any of the 256 codes, and the tables have 128 entries. Six
of the keymaps check the keycode before they read a table, the omnichord does not.
-/
namespace Keytar.LookupSafety
open KeyPositions KeyboardMatrix Keyboard Memory

/-- A call of `handle_key`, and the keymap in force when it is made. -/
structure Call where
  keymap : Keymap
  key : UInt8
  pressed : Bool

/-- The keycodes and keymaps for which the tables are read in their bounds. -/
def Call.InTable (c : Call) : Prop := c.keymap = .omnichord → c.key < 128

/-- Every array has the length it was declared with, and a zero in it. -/
def Terminated (a : NoteArrays) : Prop :=
  ∀ m, (a m).length = (bootArrays m).length ∧ 0 ∈ a m

/-- The loop over the notes stops inside the array exactly if a zero is in it. -/
theorem readNotes_ok_iff (notes : List UInt8) :
    (∃ raw, readNotes notes = .ok raw) ↔ 0 ∈ notes := by
  induction notes with
  | nil => simp [readNotes]
  | cons n notes ih =>
      by_cases h0 : n = 0
      · simp [readNotes, h0]
      · rw [List.mem_cons, or_iff_right (Ne.symm h0), ← ih, readNotes, if_neg h0]
        cases readNotes notes <;> simp [Except.map]

/-- What the arrays hold between the calls. -/
structure Stopped (a : NoteArrays) : Prop where
  valid : a.Valid
  zero : 0 ∈ a .omnichord

theorem Stopped.terminated {a : NoteArrays} (h : Stopped a) : Terminated a := by
  intro m
  by_cases heq : m = .omnichord
  · subst heq
    exact ⟨by simpa [bootArrays] using h.valid .omnichord, h.zero⟩
  · obtain ⟨x, hx⟩ := h.valid.single heq
    rw [hx, bootArrays_single heq]
    exact ⟨rfl, by simp⟩

theorem Stopped.update {a : NoteArrays} (h : Stopped a) {m : Keymap} {notes : List UInt8}
    (hvalid : NoteArrays.Valid (Function.update a m notes)) (hzero : 0 ∈ notes) :
    Stopped (Function.update a m notes) := by
  refine ⟨hvalid, ?_⟩
  by_cases hm : m = .omnichord
  · subst hm
    rwa [Function.update_self]
  · rw [Function.update_of_ne (Ne.symm hm)]
    exact h.zero

/-- Past the tables the checked lookups give the terminator alone. -/
theorem lookup_unmapped {m : Keymap} (hm : m ≠ .omnichord) {keycode : UInt8}
    (h : ¬ keycode < 128) (x : UInt8) : lookup m keycode [x, 0] = .ok [0, 0] := by
  have hk : keycode ≥ 128 := by simpa using h
  cases m with
  | omnichord => exact (hm rfl).elim
  | piano => simp [lookup, lookupPiano, noteByLut, hk, bind, Except.bind, pure, Except.pure]
  | _ =>
      simp [lookup, lookupAccordionC, lookupAccordionB, lookupAccordion6plus6,
        lookupWickiHayden, lookupGuitar, lookupPattern, noteByPattern, hk, bind, Except.bind,
        pure, Except.pure]

/-- Past the tables the unchecked lookup reads out of them. -/
theorem lookup_outOfBounds {keycode : UInt8} (h : ¬ keycode < 128) (notes : List UInt8) :
    lookup .omnichord keycode notes = .error .outOfBounds := by
  have hk : keycode2row.length ≤ keycode.toNat := by
    rw [keycode2row_length]
    simpa [UInt8.le_iff_toNat_le] using h
  have hread : readAt keycode2row keycode.toNat = .error .outOfBounds := by
    rw [readAt, List.getElem?_eq_none hk]
  rw [lookup, lookupOmnichord, hread]
  rfl

theorem navOf_unmapped {key : UInt8} (h : ¬ key < 128) : navOf key = none := by
  have hne (c : UInt8) (hc : c < 128) : key ≠ c := by
    rintro rfl
    exact h hc
  simp [navOf, hne scEsc (by decide), hne scEnter (by decide), hne scBspc (by decide),
    hne scUp (by decide), hne scDown (by decide), hne scLeft (by decide),
    hne scRight (by decide)]

/-- A lookup that the tables cover returns, and leaves a zero in the array. -/
theorem lookup_stopped {a : NoteArrays} (ha : Stopped a) {c : Call} (hc : c.InTable) :
    ∃ notes raw, lookup c.keymap c.key (a c.keymap) = .ok notes ∧ readNotes notes = .ok raw ∧
      Stopped (Function.update a c.keymap notes) := by
  by_cases hkey : c.key < 128
  · obtain ⟨notes, hnotes, hread, hvalid⟩ := lookup_spec c.keymap hkey ha.valid
    exact ⟨notes, _, hnotes, hread,
      ha.update hvalid ((readNotes_ok_iff notes).mp ⟨_, hread⟩)⟩
  · have hm : c.keymap ≠ .omnichord := fun h => hkey (hc h)
    obtain ⟨x, hx⟩ := ha.valid.single hm
    have hvalid : NoteArrays.Valid (Function.update a c.keymap [0, 0]) :=
      ha.valid.update (by simp [hm])
    exact ⟨[0, 0], [], by rw [hx, lookup_unmapped hm hkey], rfl, ha.update hvalid (by simp)⟩

section Calls
variable {υ : Type} (ui : UserInterface υ)

def callStep (s : KeyboardState υ) (c : Call) : Except Fault (KeyboardState υ) :=
  handleKey ui c.key c.pressed { s with keymap := c.keymap }

def runCalls (calls : List Call) (s : KeyboardState υ) : Except Fault (KeyboardState υ) :=
  calls.foldlM (callStep ui) s

theorem callStep_stopped {s : KeyboardState υ} (hs : Stopped s.arrays) {c : Call}
    (hc : c.InTable) : ∃ s', callStep ui s c = .ok s' ∧ Stopped s'.arrays := by
  rw [callStep, handleKey]
  cases if c.pressed then navOf c.key else none with
  | some nav => exact ⟨_, rfl, hs⟩
  | none =>
      obtain ⟨notes, raw, hnotes, hread, hstopped⟩ := lookup_stopped hs hc
      simp only [hnotes, hread, bind, Except.bind]
      exact ⟨_, rfl, hstopped⟩

theorem callStep_outOfBounds (s : KeyboardState υ) {c : Call} (hc : ¬ c.InTable) :
    callStep ui s c = .error .outOfBounds := by
  obtain ⟨hm, hkey⟩ : c.keymap = .omnichord ∧ ¬ c.key < 128 := Classical.not_imp.mp hc
  have hnav : (if c.pressed then navOf c.key else none) = none := by
    rw [navOf_unmapped hkey, ite_self]
  simp only [callStep, handleKey, hnav, hm, lookup_outOfBounds hkey, bind, Except.bind]

theorem runCalls_inTable (calls : List Call) {s s' : KeyboardState υ} (hs : Stopped s.arrays)
    (h : runCalls ui calls s = .ok s') : ∀ c ∈ calls, c.InTable := by
  unfold runCalls at h
  induction calls generalizing s with
  | nil => simp
  | cons c calls ih =>
      rw [List.foldlM_cons] at h
      by_cases hc : c.InTable
      · obtain ⟨t, ht, hstopped⟩ := callStep_stopped ui hs hc
        rw [ht] at h
        exact List.forall_mem_cons.mpr ⟨hc, ih hstopped h⟩
      · rw [callStep_outOfBounds ui s hc] at h
        cases h

/-- Calls of `handle_key` read inside the tables, and stop inside the note arrays,
exactly if none of them hands a code from 128 on to the omnichord. -/
theorem lookups_safe_iff (u : υ) (m : Keymap) (offset : Int8) (calls : List Call) :
    (∃ s, runCalls ui calls (start u m offset) = .ok s ∧ Terminated s.arrays) ↔
      ∀ c ∈ calls, c.keymap = .omnichord → c.key < 128 := by
  have hstart : Stopped (start u m offset).arrays := ⟨bootArrays_valid, by simp [start, bootArrays]⟩
  constructor
  · rintro ⟨s, hs, -⟩
    exact runCalls_inTable ui calls hstart hs
  · intro hcalls
    have hloop := Runs.foldlM_invariant (callStep ui)
      (fun cs s => (∀ c ∈ cs, c.InTable) ∧ Stopped s.arrays) ?_ calls _ ⟨hcalls, hstart⟩
    · obtain ⟨s, hs, -, hstopped⟩ := hloop
      exact ⟨s, hs, hstopped.terminated⟩
    · rintro c cs s ⟨hin, hs⟩
      obtain ⟨s', hs', hstopped⟩ := callStep_stopped ui hs (hin c List.mem_cons_self)
      exact ⟨s', hs', fun d hd => hin d (List.mem_cons_of_mem c hd), hstopped⟩

end Calls

/-- Code 135 is a key next to the right shift of a Japanese keyboard. -/
theorem not_lookups_safe_omnichord :
    ¬ ∀ (υ : Type) (ui : UserInterface υ) (u : υ) (m : Keymap) (offset : Int8)
      (calls : List Call),
      ∃ s, runCalls ui calls (start u m offset) = .ok s ∧ Terminated s.arrays := by
  intro h
  obtain ⟨s, hs, -⟩ := h Unit quietUi () .piano 0 [⟨.omnichord, 135, true⟩]
  have hfault : runCalls quietUi [⟨.omnichord, 135, true⟩] (start () .piano 0) =
      .error .outOfBounds := rfl
  rw [hfault] at hs
  cases hs

end Keytar.LookupSafety
