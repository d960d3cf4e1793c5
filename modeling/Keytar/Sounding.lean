import Keytar.Keyboard
import Keytar.Lib.SharedLatches

/-!
# The notes that sound at a receiver

A receiver replays the note messages in order. To it the keyboard is a bank of
latches shared by the keys: the owners are keycodes, and a release names the
notes that its key has under the keymap and the offset of that moment. Nothing
remembers what the press of the key switched on. A transposition silences the
receiver before it takes effect, a change of the keymap does not.
-/
namespace Keytar.Sounding
open KeyboardMatrix Keyboard Midi SharedLatches

/-- The sounding notes after one more message. -/
def hear (sounding : Finset UInt8) : Message → Finset UInt8
  | [status, data1, data2] =>
      if status = cmdNoteOn then
        if data2 = 0 then sounding.erase data1 else insert data1 sounding
      else if status = cmdNoteOff then sounding.erase data1
      else if status = cmdCc ∧ data1 = controlAllNotesOffB1 then ∅
      else sounding
  | _ => sounding

/-- The notes that sound after all messages of a log, each of them delivered. -/
def sounding (log : List KeyCall) : Finset UInt8 :=
  (log.flatMap KeyCall.messages).foldl hear ∅

/-- A call of `handle_key` as a change of the bank. -/
def event (c : KeyCall) : Event UInt8 UInt8 := ⟨c.key, c.pressed, c.cleared, c.notes.toFinset⟩

def events (log : List KeyCall) : List (Event UInt8 UInt8) := log.map event

theorem hear_noteOn (on : Finset UInt8) (n : UInt8) : hear on (midiNoteOn n) = insert n on := rfl

theorem hear_noteOff (on : Finset UInt8) (n : UInt8) : hear on (midiNoteOff n) = on.erase n := rfl

theorem foldl_noteOn (ns : List UInt8) (on : Finset UInt8) :
    (ns.map midiNoteOn).foldl hear on = on ∪ ns.toFinset := by
  induction ns generalizing on with
  | nil => simp
  | cons n ns ih => simp [hear_noteOn, ih]

theorem foldl_noteOff (ns : List UInt8) (on : Finset UInt8) :
    (ns.map midiNoteOff).foldl hear on = on \ ns.toFinset := by
  induction ns generalizing on with
  | nil => simp
  | cons n ns ih =>
      simp only [List.map_cons, List.foldl_cons, hear_noteOff, ih, List.toFinset_cons]
      ext l
      simp only [Finset.mem_sdiff, Finset.mem_erase, Finset.mem_insert]
      tauto

/-- What the messages of one call do to a receiver. -/
theorem foldl_messages (c : KeyCall) (on : Finset UInt8) :
    c.messages.foldl hear on = (event c).apply on := by
  have hclear : (if c.cleared then [midiClearNotes] else []).foldl hear on =
      if c.cleared then ∅ else on := by
    split_ifs <;> rfl
  rw [KeyCall.messages, List.foldl_append, hclear]
  cases hp : c.pressed with
  | true => simp [event, Event.apply, hp, foldl_noteOn]
  | false => simp [event, Event.apply, hp, foldl_noteOff]

theorem sounding_concat (log : List KeyCall) (c : KeyCall) :
    sounding (log ++ [c]) = (event c).apply (sounding log) := by
  simp [sounding, List.flatMap_append, List.foldl_append, foldl_messages]

theorem events_concat (log : List KeyCall) (c : KeyCall) :
    events (log ++ [c]) = events log ++ [event c] := by
  simp [events]

/-- The receiver holds what the abstract bank has on. -/
theorem sounding_eq_on (log : List KeyCall) : sounding log = on (events log) := by
  induction log using List.reverseRecOn with
  | nil => rfl
  | append_singleton log c ih =>
      rw [sounding_concat, ih, events_concat, on_concat]

/-- Only a key that is down owes anything. -/
theorem isDown_of_owed {k : UInt8} {log : List KeyCall} {n : UInt8}
    (h : n ∈ owed k (events log)) : isDown k log = true := by
  induction log using List.reverseRecOn with
  | nil => simp [events] at h
  | append_singleton log c ih =>
      rw [events_concat, owed_concat, Event.owe] at h
      rw [isDown_concat]
      by_cases hk : c.key = k
      · rw [if_pos hk]
        by_contra hp
        simp [event, hk, hp] at h
      · rw [if_neg hk]
        cases hc : c.cleared with
        | true => simp [event, hk, hc] at h
        | false => exact ih (by simpa [event, hk, hc] using h)

/-- Every release of the log names all the notes that its key was pressed with
since its previous release. -/
def EveryReleaseCovers (log : List KeyCall) : Prop := Covers (events log)

def NoneHeld (r : Report) : Prop := ∀ k ∈ r.toList, k = 0

instance (r : Report) : Decidable (NoneHeld r) :=
  inferInstanceAs (Decidable (∀ k ∈ r.toList, k = 0))

section Runs
variable {υ : Type} {ui : UserInterface υ}

/-- A sounding note is owed by a key that is held. -/
theorem held_of_sounding {s : KeyboardState υ} (hm : Matched s) (hc : EveryReleaseCovers s.log)
    {n : UInt8} (h : n ∈ sounding s.log) :
    ∃ k, k ≠ 0 ∧ k ∈ s.prevReport.toList ∧ n ∈ owed k (events s.log) := by
  rw [sounding_eq_on] at h
  obtain ⟨k, hk⟩ := exists_owed_of_covers hc n h
  obtain ⟨h0, hmem⟩ := (hm k).mp (isDown_of_owed hk)
  exact ⟨k, h0, hmem, hk⟩

/-- Whatever changes the keymap and whenever, a receiver falls silent with the
last key if every release covers what its key was pressed with. -/
theorem silent_of_covers (ui : UserInterface υ) (u : υ) (m : Keymap) (offset : Int8)
    (inputs : List Input) (hinputs : ∀ i ∈ inputs, ∀ k ∈ i.keys, k < 128) :
    ∃ s, run ui inputs (start u m offset) = .ok s ∧
      (EveryReleaseCovers s.log → NoneHeld (lastReport inputs) → sounding s.log = ∅) := by
  obtain ⟨s, hs, -, hm⟩ := run_invariant ui (fun s => s.arrays.Valid) (fun _ h => h)
    (fun _ _ _ _ _ _ h => h.arrays) (fun _ _ h => h) inputs (fun _ _ _ h => h) hinputs
    (s := start u m offset) (by simp [start, noKeys]) bootArrays_valid (start_matched u m offset)
  refine ⟨s, hs, fun hc hnone => Finset.eq_empty_iff_forall_notMem.mpr fun n hn => ?_⟩
  obtain ⟨k, h0, hmem, -⟩ := held_of_sounding hm hc hn
  rw [run_prevReport hs] at hmem
  exact h0 (hnone k hmem)

/-- The key left of x is held on the piano while the keymap goes away and comes back. -/
def thereAndBack : List Input :=
  [.report #v[29, 0, 0, 0, 0, 0], .setKeymap .accordionC, .setKeymap .piano, .report noKeys]

theorem thereAndBack_silent :
    ∃ s, run quietUi thereAndBack (start () .piano 0) = .ok s ∧ sounding s.log = ∅ := by
  obtain ⟨s, hs, h⟩ := silent_of_covers quietUi () .piano 0 thereAndBack (by decide)
  obtain rfl := Except.ok.inj
    ((rfl : run quietUi thereAndBack (start () .piano 0) = .ok _).symm.trans hs)
  refine ⟨_, hs, h ?_ (by decide)⟩
  exact (covers_concat [_] _).mpr
    ⟨(covers_concat [] _).mpr ⟨by simp [Covers], by decide⟩, by decide⟩

/-- The key is pressed as the note 36 and released as the note 37 of another keymap. -/
theorem switched_while_held :
    ¬ ∀ (υ : Type) (ui : UserInterface υ) (u : υ) (m : Keymap) (offset : Int8)
      (inputs : List Input), (∀ i ∈ inputs, ∀ k ∈ i.keys, k < 128 ∧ k ≠ 75 ∧ k ≠ 78) →
        ∀ s, run ui inputs (start u m offset) = .ok s →
          NoneHeld (lastReport inputs) → sounding s.log = ∅ := by
  intro h
  have hbad := h Unit quietUi () .piano 0
    [.report #v[29, 0, 0, 0, 0, 0], .setKeymap .accordionC, .report noKeys]
    (by decide) _ rfl (by decide)
  exact absurd hbad (by decide)

/-- The notes of a key in a keymap at an offset. -/
def keyNotes (m : Keymap) (offset : Int8) (k : UInt8) : Finset UInt8 :=
  ((rawNotes m k).map (noteByte offset)).toFinset

def KeepsKeymap (ui : UserInterface υ) : Prop := ∀ nav u m, (ui nav u m).2 = m

/-- With the keymap fixed, what a key owes are its notes at the current offset,
as a change of the offset resets the bank. -/
structure Tuned (m : Keymap) (s : KeyboardState υ) : Prop where
  arrays : s.arrays.Valid
  keymap : s.keymap = m
  covers : EveryReleaseCovers s.log
  owed : ∀ k, owed k (events s.log) ⊆ keyNotes m s.offset k

theorem start_tuned (u : υ) (m : Keymap) (offset : Int8) : Tuned m (start u m offset) where
  arrays := bootArrays_valid
  keymap := rfl
  covers := fun i e h => by simp [start, events] at h
  owed := fun k => by simp [start, events]

theorem keyCall_notes_subset (key : UInt8) (pressed : Bool) (m : Keymap) (offset : Int8) :
    (keyCall key pressed m offset).notes.toFinset ⊆
      keyNotes m (keyCall key pressed m offset).offset key := by
  cases pressed with
  | false =>
      rw [keyCall_release]
      exact subset_rfl
  | true =>
      by_cases hnav : navOf key = none
      · rw [keyCall_press m offset hnav]
        exact subset_rfl
      · rw [keyCall_nav m offset hnav]
        exact Finset.empty_subset _

theorem keyCall_offset_of_not_cleared {key : UInt8} {pressed : Bool} {m : Keymap}
    {offset : Int8} (h : (keyCall key pressed m offset).cleared = false) :
    (keyCall key pressed m offset).offset = offset := by
  cases pressed with
  | false => rw [keyCall_release]
  | true =>
      by_cases hnav : navOf key = none
      · rw [keyCall_press m offset hnav] at h ⊢
        cases hc : transposed key offset with
        | none => rfl
        | some o => simp [hc] at h
      · rw [keyCall_nav m offset hnav]

/-- What a key owes stays in tune with one more call, as a call that changes the
offset clears it first. -/
theorem owe_subset (key : UInt8) (pressed : Bool) (m : Keymap) (offset : Int8) {k : UInt8}
    {notes : Finset UInt8} (h : notes ⊆ keyNotes m offset k) :
    (event (keyCall key pressed m offset)).owe k notes ⊆
      keyNotes m (keyCall key pressed m offset).offset k := by
  have hold : (if (keyCall key pressed m offset).cleared then ∅ else notes) ⊆
      keyNotes m (keyCall key pressed m offset).offset k := by
    cases hc : (keyCall key pressed m offset).cleared with
    | true => exact Finset.empty_subset _
    | false =>
        rw [keyCall_offset_of_not_cleared hc]
        exact h
  simp only [Event.owe, event, keyCall_key, keyCall_pressed]
  by_cases hk : key = k
  · subst k
    cases pressed with
    | false => simp
    | true =>
        rw [if_pos rfl, if_pos rfl]
        exact Finset.union_subset hold (keyCall_notes_subset key true m offset)
  · rw [if_neg hk]
    exact hold

theorem Tuned.handled (hui : KeepsKeymap ui) {m : Keymap} {key : UInt8} {pressed : Bool}
    {s s' : KeyboardState υ} (hs : Tuned m s) (h : Handled ui key pressed s s') :
    Tuned m s' where
  arrays := h.arrays
  keymap := by
    rcases h.keymap with hk | ⟨-, nav, -, hk⟩
    · exact hk.trans hs.keymap
    · exact (hk.trans (hui nav s.ui s.keymap)).trans hs.keymap
  covers := by
    rw [EveryReleaseCovers, h.log, events_concat, covers_concat]
    refine ⟨hs.covers, fun hp => ?_⟩
    have hreleased : pressed = false := by simpa [event] using hp
    subst hreleased
    rw [hs.keymap, keyCall_release]
    exact hs.owed key
  owed := by
    intro k
    rw [h.log, events_concat, owed_concat, h.offset, hs.keymap]
    exact owe_subset key pressed m s.offset (hs.owed k)

/-- With a fixed keymap and any transpositions, every sounding note is one of a key
held in the last report, at the current offset. -/
theorem sounding_in_tune (hui : KeepsKeymap ui) (u : υ) (m : Keymap) (offset : Int8)
    (reports : List Report) (hreports : ∀ r ∈ reports, ∀ k ∈ r.toList, k < 128) :
    ∃ s, run ui (reports.map .report) (start u m offset) = .ok s ∧
      (∀ n ∈ sounding s.log, ∃ k ∈ (reports.getLastD noKeys).toList,
        k ≠ 0 ∧ n ∈ keyNotes m s.offset k) ∧
      (NoneHeld (reports.getLastD noKeys) → sounding s.log = ∅) := by
  obtain ⟨s, hs, ht, hm⟩ := run_invariant ui (Tuned m) (fun _ h => h.arrays)
    (fun _ _ _ _ _ hs h => hs.handled hui h)
    (fun _ _ h => ⟨h.arrays, h.keymap, h.covers, h.owed⟩) (reports.map .report)
    (fun _ _ h => by simp at h) (by simpa [Input.keys] using hreports)
    (s := start u m offset) (by simp [start, noKeys]) (start_tuned u m offset)
    (start_matched u m offset)
  have hlast : s.prevReport = reports.getLastD noKeys := by
    rw [run_prevReport hs, List.filterMap_map]
    exact congrArg (·.getLastD noKeys) List.filterMap_some
  rw [← hlast]
  refine ⟨s, hs, fun n hn => ?_, fun hnone => ?_⟩
  · obtain ⟨k, h0, hmem, hk⟩ := held_of_sounding hm ht.covers hn
    exact ⟨k, hmem, h0, ht.owed k hk⟩
  · refine Finset.eq_empty_iff_forall_notMem.mpr fun n hn => ?_
    obtain ⟨k, h0, hmem, -⟩ := held_of_sounding hm ht.covers hn
    exact h0 (hnone k hmem)

/-- Two keys are down while an octave is added, and one of them is let go. -/
def octaveWhileHeld : List Report :=
  [#v[29, 4, 0, 0, 0, 0], #v[29, 4, 75, 0, 0, 0], #v[29, 0, 0, 0, 0, 0], noKeys]

theorem octaveWhileHeld_in_tune :
    ∃ s, run quietUi (octaveWhileHeld.map .report) (start () .guitar 0) = .ok s ∧
      (∀ n ∈ sounding s.log, ∃ k ∈ (octaveWhileHeld.getLastD noKeys).toList, k ≠ 0 ∧
        n ∈ keyNotes .guitar s.offset k) ∧
      (NoneHeld (octaveWhileHeld.getLastD noKeys) → sounding s.log = ∅) :=
  sounding_in_tune (fun _ _ _ => rfl) () .guitar 0 octaveWhileHeld (by decide)

end Runs

end Keytar.Sounding
