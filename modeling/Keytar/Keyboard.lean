import Keytar.KeyboardMatrix
import Keytar.Lib.Runs
import Keytar.Midi
import Keytar.Ui.Element
import Mathlib.Data.Fintype.Basic

/-!
# From keyboard reports to notes

`handle_key` sends a key either to the user interface or to the notes of the
current keymap, and `process_kbd_report` finds the keys that a report adds and
removes. The user interface is a parameter: it may be any machine that changes
the current keymap on a navigation input, which is all that it does to the state
that this code reads. Every call of `handle_key` is logged with what was in
force when it looked up its notes.
-/
namespace Keytar.Keyboard
open KeyboardMatrix Memory Midi
open Ui (Nav)

def scEsc : UInt8 := 41
def scEnter : UInt8 := 40
def scBspc : UInt8 := 42
def scUp : UInt8 := 82
def scDown : UInt8 := 81
def scLeft : UInt8 := 80
def scRight : UInt8 := 79

/-- The six key slots of a `hid_keyboard_report_t`. -/
abbrev Report := Vector UInt8 6

def noKeys : Report := .replicate 6 0

-- whether all members of a list meet a condition is decided along the list, not over all bytes
scoped instance (priority := high) decidableMembers {α : Type*} (p : α → Prop)
    [DecidablePred p] (l : List α) : Decidable (∀ x ∈ l, p x) :=
  l.decidableBAll p

/-- A user interface with states `υ`. -/
abbrev UserInterface (υ : Type) := Nav → υ → Keymap → υ × Keymap

/-- One call of `handle_key`, with the keymap and the offset of its notes. -/
structure KeyCall where
  key : UInt8
  pressed : Bool
  keymap : Keymap
  offset : Int8
  cleared : Bool
  rawNotes : List UInt8
  deriving DecidableEq, Repr

structure KeyboardState (υ : Type) where
  ui : υ
  keymap : Keymap
  offset : Int8
  arrays : NoteArrays
  prevReport : Report
  log : List KeyCall

/-- The argument `raw_notes[i] + offset`, an `int`, as the byte that it is passed as. -/
def noteByte (offset : Int8) (raw : UInt8) : UInt8 := UInt8.ofInt (raw.toNat + offset.toInt)

def KeyCall.notes (c : KeyCall) : List UInt8 := c.rawNotes.map (noteByte c.offset)

/-- What the call hands to the transports, in order. -/
def KeyCall.messages (c : KeyCall) : List Message :=
  (if c.cleared then [midiClearNotes] else []) ++
    c.notes.map (if c.pressed then midiNoteOn else midiNoteOff)

/-- The switch over the scan codes that go to the user interface. -/
def navOf (key : UInt8) : Option Nav :=
  if key = scEsc then some .close
  else if key = scEnter then some .enter
  else if key = scBspc then some .return
  else if key = scUp then some .up
  else if key = scDown then some .down
  else if key = scLeft then some .left
  else if key = scRight then some .right
  else none

/-- The new offset where a key transposes and the range check lets it. The keys
81 and 82 are the arrow keys, which never get this far. -/
def transposed (key : UInt8) (offset : Int8) : Option Int8 :=
  if key = 75 then
    if 67 + offset.toInt + 12 ≤ 127 then some (offset + 12) else none
  else if key = 78 then
    if 35 + offset.toInt - 12 > 0 then some (offset - 12) else none
  else if key = 81 then
    if 35 + offset.toInt - 1 > 0 then some (offset - 1) else none
  else if key = 82 then
    if 67 + offset.toInt + 1 ≤ 127 then some (offset + 1) else none
  else none

section Run
variable {υ : Type} (ui : UserInterface υ)

def handleKey (key : UInt8) (pressed : Bool) (s : KeyboardState υ) :
    Except Fault (KeyboardState υ) :=
  match if pressed then navOf key else none with
  | some nav =>
      let after := ui nav s.ui s.keymap
      pure { s with
        ui := after.1
        keymap := after.2
        log := s.log ++ [⟨key, pressed, s.keymap, s.offset, false, []⟩] }
  | none => do
      let change := if pressed then transposed key s.offset else none
      let offset := change.getD s.offset
      let notes ← lookup s.keymap key (s.arrays s.keymap)
      let raw ← readNotes notes
      pure { s with
        offset := offset
        arrays := Function.update s.arrays s.keymap notes
        log := s.log ++ [⟨key, pressed, s.keymap, offset, change.isSome, raw⟩] }

def findKeyInReport (report : Report) (keycode : UInt8) : Bool :=
  report.toList.any (· == keycode)

/-- One of the two loops of `process_kbd_report`: the keys of one report that
the other does not hold. -/
def diffLoop (pressed : Bool) (report other : Report) (s : KeyboardState υ) :
    Except Fault (KeyboardState υ) :=
  report.toList.foldlM (fun s key =>
    if key ≠ 0 ∧ ¬ findKeyInReport other key then handleKey ui key pressed s else pure s) s

def processKbdReport (new : Report) (s : KeyboardState υ) : Except Fault (KeyboardState υ) := do
  let prev := s.prevReport
  let s ← diffLoop ui true new prev s
  let s ← diffLoop ui false prev new s
  pure { s with prevReport := new }

/-- A report from the keyboard, or a call of `set_keymap` from elsewhere. -/
inductive Input where
  | report (r : Report)
  | setKeymap (m : Keymap)

def Input.reported : Input → Option Report
  | .report r => some r
  | .setKeymap _ => none

/-- The last report of a run from the start, where no key is held before the first. -/
def lastReport (inputs : List Input) : Report := (inputs.filterMap Input.reported).getLastD noKeys

def Input.keys : Input → List UInt8
  | .report r => r.toList
  | .setKeymap _ => []

def Input.step (s : KeyboardState υ) : Input → Except Fault (KeyboardState υ)
  | .report r => processKbdReport ui r s
  | .setKeymap m => pure { s with keymap := m }

def run (inputs : List Input) (s : KeyboardState υ) : Except Fault (KeyboardState υ) :=
  inputs.foldlM (Input.step ui) s

/-- No key held yet and nothing sent, in some keymap and at some offset. -/
def start (u : υ) (m : Keymap) (offset : Int8) : KeyboardState υ :=
  ⟨u, m, offset, bootArrays, noKeys, []⟩

/-- The state after a reset. -/
def boot (u : υ) : KeyboardState υ := start u .piano 0

end Run

/-- A user interface that never changes the keymap. -/
def quietUi : UserInterface Unit := fun _ u m => (u, m)

/-- The latest call for `k` is a press. -/
def isDown (k : UInt8) (log : List KeyCall) : Bool :=
  log.foldl (fun down c => if c.key = k then c.pressed else down) false

/-- What a call logs, as a function of its arguments and of what is in force. -/
def keyCall (key : UInt8) (pressed : Bool) (m : Keymap) (offset : Int8) : KeyCall :=
  if pressed ∧ (navOf key).isSome then ⟨key, pressed, m, offset, false, []⟩
  else
    let change := if pressed then transposed key offset else none
    ⟨key, pressed, m, change.getD offset, change.isSome, rawNotes m key⟩

section Calls
variable (key : UInt8) (pressed : Bool) (m : Keymap) (offset : Int8)

@[simp] theorem keyCall_key : (keyCall key pressed m offset).key = key := by
  unfold keyCall
  split <;> rfl

@[simp] theorem keyCall_pressed : (keyCall key pressed m offset).pressed = pressed := by
  unfold keyCall
  split <;> rfl

@[simp] theorem keyCall_keymap : (keyCall key pressed m offset).keymap = m := by
  unfold keyCall
  split <;> rfl

variable {key}

theorem keyCall_nav (h : navOf key ≠ none) :
    keyCall key true m offset = ⟨key, true, m, offset, false, []⟩ :=
  if_pos ⟨rfl, Option.isSome_iff_ne_none.mpr h⟩

theorem keyCall_press (h : navOf key = none) :
    keyCall key true m offset = ⟨key, true, m, (transposed key offset).getD offset,
      (transposed key offset).isSome, rawNotes m key⟩ := by
  simp [keyCall, h]

theorem keyCall_release :
    keyCall key false m offset = ⟨key, false, m, offset, false, rawNotes m key⟩ := by
  simp [keyCall]

end Calls

section Spec
variable {υ : Type} {ui : UserInterface υ}

/-- All that one call of `handle_key` does. -/
structure Handled (ui : UserInterface υ) (key : UInt8) (pressed : Bool)
    (s s' : KeyboardState υ) : Prop where
  log : s'.log = s.log ++ [keyCall key pressed s.keymap s.offset]
  offset : s'.offset = (keyCall key pressed s.keymap s.offset).offset
  prevReport : s'.prevReport = s.prevReport
  arrays : s'.arrays.Valid
  keymap : s'.keymap = s.keymap ∨
    pressed = true ∧ ∃ nav, navOf key = some nav ∧ s'.keymap = (ui nav s.ui s.keymap).2

theorem handleKey_spec (ui : UserInterface υ) {key : UInt8} (hkey : key < 128) (pressed : Bool)
    {s : KeyboardState υ} (hs : s.arrays.Valid) :
    ∃ s', handleKey ui key pressed s = .ok s' ∧ Handled ui key pressed s s' := by
  obtain ⟨new, hnew, hread, hvalid⟩ := lookup_spec s.keymap hkey hs
  cases pressed with
  | false =>
      have hcall := @keyCall_release key s.keymap s.offset
      refine ⟨_, by simp only [handleKey, hnew, hread, bind, Except.bind]; rfl, ?_⟩
      exact ⟨by rw [hcall]; rfl, by rw [hcall]; rfl, rfl, hvalid, .inl rfl⟩
  | true =>
      cases hn : navOf key with
      | some nav =>
          have hcall := keyCall_nav s.keymap s.offset (hn ▸ Option.some_ne_none nav)
          refine ⟨_, by simp only [handleKey, if_true, hn]; rfl, ?_⟩
          exact ⟨by rw [hcall], by rw [hcall], rfl, hs, .inr ⟨rfl, nav, hn, rfl⟩⟩
      | none =>
          have hcall := keyCall_press s.keymap s.offset hn
          refine ⟨_, by simp only [handleKey, if_true, hn, hnew, hread, bind, Except.bind]; rfl, ?_⟩
          exact ⟨by rw [hcall], by rw [hcall], rfl, hvalid, .inl rfl⟩

theorem findKeyInReport_iff (r : Report) (k : UInt8) :
    findKeyInReport r k = true ↔ k ∈ r.toList := by
  rw [findKeyInReport, List.any_eq_true]
  simp only [beq_iff_eq, exists_eq_right]

/-- The rule for either loop. `P` may speak about the slots still to visit; it
has to survive a slot that is passed over and a call of `handle_key`. -/
theorem diffLoop_invariant (ui : UserInterface υ) (pressed : Bool) {report : Report}
    (other : Report) (hkeys : ∀ k ∈ report.toList, k < 128)
    (P : List UInt8 → KeyboardState υ → Prop)
    (hvalid : ∀ ks s, P ks s → s.arrays.Valid)
    (hskip : ∀ k ks s, P (k :: ks) s → (k = 0 ∨ k ∈ other.toList) → P ks s)
    (hcall : ∀ k ks s s', P (k :: ks) s → k ∈ report.toList → k ≠ 0 → k ∉ other.toList →
      Handled ui k pressed s s' → P ks s')
    {s : KeyboardState υ} (hs : P report.toList s) :
    ∃ s', diffLoop ui pressed report other s = .ok s' ∧ P [] s' := by
  have hloop := Runs.foldlM_invariant
    (fun (s : KeyboardState υ) key =>
      if key ≠ 0 ∧ ¬ findKeyInReport other key then handleKey ui key pressed s else pure s)
    (fun ks s => (∀ k ∈ ks, k ∈ report.toList) ∧ P ks s) ?_ report.toList s
    ⟨fun _ h => h, hs⟩
  · obtain ⟨s', hs', -, hP⟩ := hloop
    exact ⟨s', hs', hP⟩
  · intro k ks s ⟨hmem, hP⟩
    have hk : k ∈ report.toList := hmem k (by simp)
    have hrest : ∀ q ∈ ks, q ∈ report.toList := fun q hq => hmem q (by simp [hq])
    by_cases hc : k ≠ 0 ∧ ¬ findKeyInReport other k
    · obtain ⟨s', hs', hh⟩ := handleKey_spec ui (hkeys k hk) pressed (hvalid _ _ hP)
      refine ⟨s', by rw [if_pos hc, hs'], hrest, ?_⟩
      exact hcall k ks s s' hP hk hc.1 ((findKeyInReport_iff other k).not.mp hc.2) hh
    · refine ⟨s, by rw [if_neg hc]; rfl, hrest, hskip k ks s hP ?_⟩
      rw [findKeyInReport_iff] at hc
      tauto

theorem isDown_concat (k : UInt8) (log : List KeyCall) (c : KeyCall) :
    isDown k (log ++ [c]) = if c.key = k then c.pressed else isDown k log := by
  simp [isDown]

/-- The keys that are down are those of the saved report. -/
def Matched (s : KeyboardState υ) : Prop :=
  ∀ k, isDown k s.log = true ↔ k ≠ 0 ∧ k ∈ s.prevReport.toList

theorem start_matched (u : υ) (m : Keymap) (offset : Int8) : Matched (start u m offset) := by
  intro k
  simp [start, isDown, noKeys]

theorem Handled.isDown {key : UInt8} {pressed : Bool} {s s' : KeyboardState υ}
    (h : Handled ui key pressed s s') (k : UInt8) :
    isDown k s'.log = if key = k then pressed else Keyboard.isDown k s.log := by
  rw [h.log, isDown_concat, keyCall_key, keyCall_pressed]

section Report
variable (Q : KeyboardState υ → Prop) (hvalid : ∀ s, Q s → s.arrays.Valid)
  (hcall : ∀ key pressed s s', key < 128 → Q s → Handled ui key pressed s s' → Q s')
include hvalid hcall

/-- A loop presses, or releases, the keys that one report has over the other. -/
theorem diffLoop_isDown (pressed : Bool) {report : Report} (other : Report)
    (hkeys : ∀ k ∈ report.toList, k < 128) {s : KeyboardState υ} (hs : Q s) :
    ∃ s', diffLoop ui pressed report other s = .ok s' ∧ Q s' ∧
      ∀ k, isDown k s'.log =
        if k ≠ 0 ∧ k ∈ report.toList ∧ k ∉ other.toList then pressed else isDown k s.log := by
  -- with the keys to come counted as handled, the answer is the same all the way
  have hloop := diffLoop_invariant ui pressed other hkeys
    (fun ks t => Q t ∧ ∀ k,
      (if k ≠ 0 ∧ k ∈ ks ∧ k ∉ other.toList then pressed else isDown k t.log) =
        if k ≠ 0 ∧ k ∈ report.toList ∧ k ∉ other.toList then pressed else isDown k s.log)
    (fun _ t h => hvalid t h.1) ?_ ?_ (s := s) ⟨hs, fun _ => rfl⟩
  · obtain ⟨s', hs', hQ, hdown⟩ := hloop
    exact ⟨s', hs', hQ, fun k => by simpa using hdown k⟩
  · intro key ks t ⟨hQ, hdown⟩ hkey
    refine ⟨hQ, fun k => ?_⟩
    rw [← hdown k]
    by_cases hk : k = key
    · subst k
      rcases hkey with h0 | hin
      · simp [h0]
      · simp [hin]
    · simp [hk]
  · intro key ks t t' ⟨hQ, hdown⟩ hmem h0 hout hh
    refine ⟨hcall key pressed t t' (hkeys key hmem) hQ hh, fun k => ?_⟩
    rw [← hdown k, hh.isDown]
    by_cases hk : k = key
    · subst k
      simp [h0, hout]
    · simp [hk, Ne.symm hk]

/-- One report keeps what its calls keep, and leaves its own keys down. -/
theorem processKbdReport_spec {new : Report} {s : KeyboardState υ}
    (hreport : ∀ s r, Q s → Q { s with prevReport := r }) (hnew : ∀ k ∈ new.toList, k < 128)
    (hprev : ∀ k ∈ s.prevReport.toList, k < 128) (hs : Q s) (hm : Matched s) :
    ∃ s', processKbdReport ui new s = .ok s' ∧ Q s' ∧ Matched s' ∧ s'.prevReport = new := by
  obtain ⟨t, ht, hQt, hpress⟩ := diffLoop_isDown Q hvalid hcall true s.prevReport hnew hs
  obtain ⟨u, hu, hQu, hrelease⟩ := diffLoop_isDown Q hvalid hcall false new hprev hQt
  refine ⟨{ u with prevReport := new }, ?_, hreport u new hQu, fun k => ?_, rfl⟩
  · simp only [processKbdReport, ht, hu, bind, Except.bind]
    rfl
  · have hold : isDown k s.log = decide (k ≠ 0 ∧ k ∈ s.prevReport.toList) := by
      rw [Bool.eq_iff_iff, hm k, decide_eq_true_iff]
    change isDown k u.log = true ↔ k ≠ 0 ∧ k ∈ new.toList
    rw [hrelease, hpress, hold]
    by_cases h0 : k = 0
    · simp [h0]
    · by_cases hn : k ∈ new.toList <;> by_cases hp : k ∈ s.prevReport.toList <;>
        simp [h0, hn, hp]

end Report

/-- The rule for whole runs, for an invariant that each call of `handle_key`
keeps, the saved report does not enter and the keymap changes of the run keep. -/
theorem run_invariant (ui : UserInterface υ) (Q : KeyboardState υ → Prop)
    (hvalid : ∀ s, Q s → s.arrays.Valid)
    (hcall : ∀ key pressed s s', key < 128 → Q s → Handled ui key pressed s s' → Q s')
    (hreport : ∀ s r, Q s → Q { s with prevReport := r }) (inputs : List Input)
    (hkeymap : ∀ s m, .setKeymap m ∈ inputs → Q s → Q { s with keymap := m })
    (hinputs : ∀ i ∈ inputs, ∀ k ∈ i.keys, k < 128) {s : KeyboardState υ}
    (hprev : ∀ k ∈ s.prevReport.toList, k < 128) (hs : Q s) (hm : Matched s) :
    ∃ s', run ui inputs s = .ok s' ∧ Q s' ∧ Matched s' := by
  have hrun := Runs.foldlM_invariant (Input.step ui)
    (fun is s => (∀ i ∈ is, i ∈ inputs) ∧ (∀ k ∈ s.prevReport.toList, k < 128) ∧ Q s ∧ Matched s)
    ?_ inputs s ⟨fun _ h => h, hprev, hs, hm⟩
  · obtain ⟨s', hs', -, -, hQ, hm'⟩ := hrun
    exact ⟨s', hs', hQ, hm'⟩
  · intro i is s ⟨hi, hp, hQ, hm⟩
    have hrest : ∀ j ∈ is, j ∈ inputs := fun j hj => hi j (by simp [hj])
    cases i with
    | setKeymap m => exact ⟨_, rfl, hrest, hp, hkeymap s m (hi _ (by simp)) hQ, hm⟩
    | report r =>
        have hr : ∀ k ∈ r.toList, k < 128 := hinputs (.report r) (hi _ (by simp))
        obtain ⟨s', hs', hQ', hm', hnew⟩ :=
          processKbdReport_spec Q hvalid hcall hreport hr hp hQ hm
        exact ⟨s', hs', hrest, by rw [hnew]; exact hr, hQ', hm'⟩

/-- A run saves the last report that it has got. -/
theorem run_prevReport {inputs : List Input} {s s' : KeyboardState υ}
    (h : run ui inputs s = .ok s') :
    s'.prevReport = (inputs.filterMap Input.reported).getLastD s.prevReport := by
  induction inputs generalizing s with
  | nil =>
      obtain rfl := Except.ok.inj h
      rfl
  | cons i inputs ih =>
      rw [run, List.foldlM_cons] at h
      obtain ⟨t, ht, hrest⟩ := Runs.bind_ok h
      have hlast := ih hrest
      cases i with
      | setKeymap m =>
          obtain rfl := Except.ok.inj ht
          exact hlast
      | report r =>
          obtain ⟨u, -, ht⟩ := Runs.bind_ok ht
          obtain ⟨v, -, ht⟩ := Runs.bind_ok ht
          obtain rfl := Except.ok.inj ht
          rw [List.filterMap_cons_some (show Input.reported (.report r) = some r from rfl),
            List.getLastD_cons]
          exact hlast

end Spec

end Keytar.Keyboard
