import Keytar.Lib.Framing
import Keytar.Menus
import Keytar.SendHistory

/-!
# The controller messages as a stream of bytes

A receiver at the end of the UART sees bytes, not messages: a byte of 0x80 or more
starts a message, and all others belong to the one before. Every value stays in its
range, so the data bytes never look like a start and the receiver gets back what
was sent.
-/
namespace Keytar.ControllerStream
open Framing Memory Midi MidiValues SendHistory Ui

/-- The MIDI rule for a status byte. -/
def isStatus (b : UInt8) : Bool := b ≥ 0x80

/-- How a receiver reads a stream, with `none` for what is no controller message. -/
def parse (bytes : List UInt8) : List (Option (MidiValueRef × ℕ)) :=
  (frames isStatus bytes).map controllerValue

/-- The links that the call of a callback finds, and the bytes that they take. -/
abbrev Moment := MidiValueRef → Option ConHandle × Bool × Accepts

/-- The send callbacks, where the UART is up for a whole run or not at all. -/
def sendAt (uart : Bool) (m : Moment) : Callback Wires := fun r =>
  callback ⟨uart, (m r).1, (m r).2.1⟩ (fun _ => (m r).2.2) r

/-- The controllers and values of the calls in a record. -/
def calls (h : History) : List (MidiValueRef × ℕ) :=
  h.filterMap fun e => match e with
    | .sent r v _ => some (r, v.toNat)
    | .resend => none

theorem calls_concat (h : History) (e : Entry) : calls (h ++ [e]) = calls h ++ calls [e] :=
  List.filterMap_append

section Messages
variable {r : MidiValueRef} {mv : MidiValue}

theorem isStatus_data {b : UInt8} (h : b.toNat ≤ 127) : isStatus b = false := by
  have hstatus : (0x80 : UInt8).toNat = 128 := rfl
  simp only [isStatus, ge_iff_le, decide_eq_false_iff_not, UInt8.le_iff_toNat_le]
  omega

theorem and7f_data (v : UInt16) : isStatus (v &&& 0x7f).toUInt8 = false := by
  apply isStatus_data
  have hlow := and7f_toNat v
  omega

theorem toUInt8_data {v : UInt16} (h : v ≤ 127) : isStatus v.toUInt8 = false := by
  apply isStatus_data
  rw [toUInt8_toNat h]
  simpa using UInt16.le_iff_toNat_le.mp h

theorem framed_message (h : mv.value ≤ (bootValue r).maxValue) :
    Framed isStatus (message r mv) := by
  cases r with
  | mvPitchbend =>
      refine ⟨cmdPitchbend, _, rfl, by decide, List.forall_mem_cons.mpr ⟨and7f_data _, ?_⟩⟩
      exact List.forall_mem_singleton.mpr (and7f_data _)
  | _ =>
      refine ⟨cmdCc, _, rfl, by decide, List.forall_mem_cons.mpr ⟨by decide, ?_⟩⟩
      exact List.forall_mem_singleton.mpr (toUInt8_data h)

theorem sendAt_uart (uart : Bool) (m : Moment) (w : Wires) :
    (sendAt uart m r mv w).2 .uart =
      if uart then w .uart ++ [message r mv] else w .uart := by
  rw [sendAt, callback, send_wires, message_take]
  rfl

end Messages

/-- What the UART carries is framed and says what the record says. -/
structure Streamed (uart : Bool) (s : Store (Wires × History)) : Prop where
  inRange : s.InRange
  framed : ∀ m ∈ s.outer.1 .uart, Framed isStatus m
  values : (s.outer.1 .uart).map controllerValue =
    if uart then (calls s.outer.2).map some else []

theorem Streamed.sync {uart : Bool} {s : Store (Wires × History)} (h : Streamed uart s)
    (m : Moment) (r : MidiValueRef) :
    Streamed uart (midiValueSync (traced (sendAt uart m)) r s).2 := by
  have hle := (h.inRange r).value_le
  rw [(h.inRange r).maxValue] at hle
  have houter := midiValueSync_outer (traced (sendAt uart m)) r s
  split_ifs at houter with hskip
  · exact ⟨midiValueSync_inRange h.inRange _ r, houter ▸ h.framed, houter ▸ h.values⟩
  have hwire : (midiValueSync (traced (sendAt uart m)) r s).2.outer.1 .uart =
      if uart then s.outer.1 .uart ++ [message r (s.values r)] else s.outer.1 .uart := by
    rw [houter]
    exact sendAt_uart uart m (s.outer.1)
  have hcalls : calls (midiValueSync (traced (sendAt uart m)) r s).2.outer.2 =
      calls s.outer.2 ++ [(r, (s.values r).value.toNat)] := by
    rw [houter]
    exact calls_concat _ _
  refine ⟨midiValueSync_inRange h.inRange _ r, ?_, ?_⟩
  · rw [hwire]
    split_ifs
    · exact List.forall_mem_append.mpr
        ⟨h.framed, List.forall_mem_singleton.mpr (framed_message hle)⟩
    · exact h.framed
  · have hvalues := h.values
    rw [hwire, hcalls]
    split_ifs at hvalues ⊢
    · rw [List.map_append, hvalues, List.map_append, List.map_singleton,
        controllerValue_message hle, List.map_singleton]
    · exact hvalues

/-- In every run the values stay in their ranges, and the bytes on the UART parse
into just the controllers and values that the callbacks were called with. Without
a UART there are no bytes. -/
theorem stream_roundTrip (uart : Bool) (steps : List (Moment × Op)) :
    let sends := steps.map fun step => (sendAt uart step.1, step.2)
    (run sends (boot idle)).InRange ∧
      parse ((run sends (boot idle)).outer .uart).flatten =
        if uart then (calls (runTraced sends idle).outer.2).map some else [] := by
  intro sends
  have hstreamed : Streamed uart (runTraced sends idle) := by
    refine runTraced_invariant (P := Streamed uart) ⟨boot_inRange _, by simp [boot, idle], ?_⟩
      (fun s hs => ⟨hs.inRange, hs.framed, ?_⟩)
      (fun s r hs => ⟨force_inRange hs.inRange r, hs.framed, hs.values⟩)
      (fun s r v b hs => ⟨assign_inRange hs.inRange r v b, hs.framed, hs.values⟩) sends ?_
    · cases uart <;> rfl
    · have hcalls : calls (mark s).outer.2 = calls s.outer.2 :=
        (calls_concat _ _).trans (List.append_nil _)
      rw [hcalls]
      exact hs.values
    · intro step hstep s r hs
      obtain ⟨⟨m, op⟩, -, rfl⟩ := List.mem_map.mp hstep
      exact hs.sync m r
  rw [← forget_runTraced]
  refine ⟨hstreamed.inRange, ?_⟩
  rw [parse, forget, frames_flatten hstreamed.framed, hstreamed.values]

section Menus
open Menus

/-- The menu item of a value does to the values what a step of the runs does. -/
theorem navigateMidiValue_midi (a : Answers) (r : MidiValueRef) (nav : Nav) {w w' : World}
    (h : navigateMidiValue a r nav w = .ok w') :
    w'.rest.midi =
      menuStep (sendAt true fun r => (w.rest.ble.conHandle, a.radio.clientConnected, a.accepts r))
        r nav w.rest.midi := by
  cases nav with
  | left | right =>
      simp only [navigateMidiValue, menuStep] at h ⊢
      split_ifs at h ⊢
      · rw [← Except.ok.inj h]
      · rw [uiRender_rest elements h]
        rfl
  | _ =>
      rw [← Except.ok.inj h]
      rfl

end Menus

end Keytar.ControllerStream
