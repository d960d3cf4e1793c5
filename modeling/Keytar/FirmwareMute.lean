import Keytar.FirmwareViews
import Keytar.LookupSafety

/-!
# What the notes leave alone

A key that plays and one that goes to the menus share the slots of a report, the current
keymap and the wires. Nothing but the wires shows what was played: with its messages
taken off them, a run is the run of the same reports without the keys that play.
-/
namespace Keytar.Firmware
open AnalogStrip KeyboardMatrix Keyboard LookupSafety Memory MenuViews Menus Midi MidiBle
  MidiValues Sounding Traffic Ui Views

section Stores
variable {σ : Type*} {g : σ → σ} {f : Callback σ}

/-- A change behind the send callbacks. -/
def onOuter (g : σ → σ) (s : Store σ) : Store σ := { s with outer := g s.outer }

/-- Sending does not look at what the change is about. -/
def Indifferent (g : σ → σ) (f : Callback σ) : Prop :=
  ∀ r mv outer, f r mv (g outer) = ((f r mv outer).1, g (f r mv outer).2)

theorem Indifferent.sync (hf : Indifferent g f) (r : MidiValueRef) (s : Store σ) :
    (midiValueSync f r (onOuter g s)).2 = onOuter g (midiValueSync f r s).2 := by
  have hsend : f r (s.values r) (onOuter g s).outer =
      ((f r (s.values r) s.outer).1, g (f r (s.values r) s.outer).2) := hf r (s.values r) s.outer
  have hverdict := congrArg Prod.fst hsend
  have houter := congrArg Prod.snd hsend
  by_cases hskip : (s.values r).known = some (s.values r).value
  · rw [midiValueSync_skip f r s hskip, midiValueSync_skip f r (onOuter g s) hskip]
  · cases hsent : (f r (s.values r) s.outer).1 with
    | false =>
        rw [midiValueSync_refused f r s hskip hsent,
          midiValueSync_refused f r (onOuter g s) hskip (hverdict.trans hsent)]
        exact congrArg (Store.mk s.values) houter
    | true =>
        rw [midiValueSync_sent f r s hskip hsent,
          midiValueSync_sent f r (onOuter g s) hskip (hverdict.trans hsent)]
        exact congrArg (Store.mk (Function.update s.values r _)) houter

theorem Indifferent.set (hf : Indifferent g f) (r : MidiValueRef) (v : UInt16) (b : Bool)
    (s : Store σ) : midiValueSet f r v b (onOuter g s) = onOuter g (midiValueSet f r v b s) :=
  hf.sync r (assign r v b s)

theorem Indifferent.sendAll (hf : Indifferent g f) (s : Store σ) :
    midiValueSendAll f (onOuter g s) = onOuter g (midiValueSendAll f s) := by
  unfold midiValueSendAll
  induction midiValues generalizing s with
  | nil => rfl
  | cons r rs ih =>
      have hround : (midiValueSync f r (force r (onOuter g s))).2 =
          onOuter g (midiValueSync f r (force r s)).2 := hf.sync r (force r s)
      rw [List.foldl_cons, List.foldl_cons, hround, ih]

theorem Indifferent.strip (hf : Indifferent g f) (mv : Option MidiValueRef) (reset : Bool)
    (strip : Strip) (s : Store σ) : analogStripAssign f mv reset strip (onOuter g s) =
      ((analogStripAssign f mv reset strip s).1,
        onOuter g (analogStripAssign f mv reset strip s).2) := by
  unfold analogStripAssign
  cases strip.midiValue with
  | none => rfl
  | some old =>
      cases strip.resetOnRelease with
      | false => rfl
      | true => exact congrArg (Prod.mk (⟨mv, reset⟩ : Strip)) (hf.set old _ false s)

theorem Indifferent.task (hf : Indifferent g f) (adcRead : UInt16) (strip : Strip) (s : Store σ) :
    analogStripTask f adcRead strip (onOuter g s) =
      onOuter g (analogStripTask f adcRead strip s) := by
  unfold analogStripTask
  cases strip.midiValue with
  | none => rfl
  | some mv =>
      simp only [analogStripRead]
      cases analogStripReadFloat adcRead with
      | none =>
          cases strip.resetOnRelease with
          | false => rfl
          | true => exact hf.set mv _ false s
      | some v => exact hf.set mv _ false s

end Stores

section Wires

/-- The messages on a wire that carry controller values. -/
def controlMessages (log : List Message) : List Message :=
  log.filter fun m => (controllerValue m).isSome

def muteWires (wires : Wires) : Wires := fun t => controlMessages (wires t)

theorem controllerValue_isSome (r : MidiValueRef) (mv : MidiValue) :
    (controllerValue (message r mv)).isSome = true := by
  cases r <;> rfl

theorem muteWires_callback (l : Links) (a : MidiValueRef → Accepts) :
    Indifferent muteWires (callback l a) := by
  intro r mv wires
  refine Prod.ext ?_ (funext fun t => ?_)
  · simp only [callback, send_ok]
  · simp only [callback, muteWires, send_wires, message_take]
    split_ifs
    · simp [controlMessages, controllerValue_isSome]
    · rfl

theorem muteWires_send (l : Links) (a : Accepts) {m : Message} (hm : m.length = 3)
    (hnone : controllerValue m = none) (wires : Wires) :
    muteWires (send l a 3 m wires).2 = muteWires wires := by
  have htake : m.take (3 : UInt8).toNat = m := List.take_of_length_le (by rw [hm]; rfl)
  funext t
  simp only [muteWires, send_wires, htake]
  split_ifs
  · simp [controlMessages, hnone]
  · rfl

theorem muteWires_muteWires (wires : Wires) : muteWires (muteWires wires) = muteWires wires := by
  funext t
  simp only [muteWires, controlMessages, List.filter_filter, Bool.and_self]

end Wires

section Worlds

def muteApp (a : App) : App := { a with midi := onOuter muteWires a.midi }

/-- The world with nothing but controller values on the wires. -/
def mute (w : World) : World := { w with rest := muteApp w.rest }

theorem seen_mute : seen id muteApp = mute := by
  funext w
  simp only [seen, mute, Option.map_id_fun, id_eq]

theorem muteApp_muteApp (a : App) : muteApp (muteApp a) = muteApp a := by
  simp only [muteApp, onOuter, muteWires_muteWires]

theorem mute_exposes : Exposes id muteApp where
  screen := fun _ => rfl
  drawn := fun e a => by cases e <;> rfl
  heap := fun _ => rfl
  keymap := fun _ => rfl
  strip := fun _ => rfl
  ble := fun _ => rfl
  setHeap := fun a heap => muteApp_muteApp { a with heap := heap }
  setKeymap := fun a keymap => muteApp_muteApp { a with keymap := keymap }
  setBle := fun {f} _ a => muteApp_muteApp { a with ble := f a.ble }
  assign := fun a mv reset w => by
    have hstrip := (muteWires_callback (links a.radio w.rest.ble) a.accepts).strip mv reset
      w.rest.strip w.rest.midi
    have hmute : (assignStrip a mv reset (seen id muteApp w)).rest =
        muteApp (assignStrip a mv reset w).rest := by
      refine Eq.trans ?_ (congrArg (fun r : Strip × Store Wires =>
        { muteApp w.rest with strip := r.1, midi := r.2 }) hstrip)
      rfl
    rw [hmute, muteApp_muteApp]

theorem mute_render : Respects mute (uiRender elements) := seen_mute ▸ mute_exposes.render

theorem mute_mute (w : World) : mute (mute w) = mute w := by
  rw [mute, mute, muteApp_muteApp]

/-- A change of the values that sees no more of the wires than is left of them. -/
theorem mute_withMidi (w : World) {midi midi' : Store Wires}
    (h : midi' = onOuter muteWires midi) :
    mute { mute w with rest := { (mute w).rest with midi := midi' } } =
      mute { w with rest := { w.rest with midi := midi } } := by
  subst h
  exact mute_mute { w with rest := { w.rest with midi := midi } }

theorem setMidiValue_mute (a : Answers) (r : MidiValueRef) (v : UInt16) (b : Bool) (w : World) :
    mute (setMidiValue a r v b (mute w)) = mute (setMidiValue a r v b w) :=
  mute_withMidi w ((muteWires_callback (links a.radio w.rest.ble) a.accepts).set r v b w.rest.midi)

theorem sendAllMidiValues_mute (a : Answers) (w : World) :
    mute (sendAllMidiValues a (mute w)) = mute (sendAllMidiValues a w) :=
  mute_withMidi w ((muteWires_callback (links a.radio w.rest.ble) a.accepts).sendAll w.rest.midi)

theorem navigateMidiValue_mute (a : Answers) (r : MidiValueRef) (nav : Nav) :
    Respects mute (navigateMidiValue a r nav) := by
  have hset (v : UInt16) : Respects mute fun w => uiRender elements (setMidiValue a r v true w) :=
    mute_render.after (setMidiValue_mute a r v true)
  intro w
  have hvalue : ((mute w).rest.midi.values r).value = (w.rest.midi.values r).value := rfl
  have hsame : (Except.ok (mute w) : Except Fault World).map mute = (Except.ok w).map mute :=
    congrArg Except.ok (mute_mute w)
  cases nav with
  | left =>
      simp only [navigateMidiValue, hvalue]
      split_ifs
      · exact hsame
      · exact hset _ w
  | right =>
      simp only [navigateMidiValue, hvalue]
      split_ifs
      · exact hsame
      · exact hset _ w
  | _ => exact hsame

theorem step_navigate_mute (a : Answers) (nav : Nav) :
    Respects mute fun w => Menus.step w (a, .navigate nav) := by
  have hvalues : Values id muteApp := fun a r nav => by
    rw [seen_mute]
    exact (navigateMidiValue_mute a r nav).bind mute_render
  exact seen_mute ▸ mute_exposes.step hvalues a nav

theorem step_link_mute (a : Answers) (l : Link) :
    Respects mute fun w => Menus.step w (a, l.event) := by
  have hpure : Respects mute fun w => (.ok w : Except Fault World) := .ok mute_mute
  have hhandle (handle : Option ConHandle) (w : World) :
      mute (onBle (fun b => { b with conHandle := handle }) (mute w)) =
        mute (onBle (fun b => { b with conHandle := handle }) w) :=
    mute_mute (onBle (fun b => { b with conHandle := handle }) w)
  cases l with
  | serverConnected handle =>
      exact .ite (fun _ => Iff.rfl)
        ((mute_render.after (sendAllMidiValues_mute a)).after (hhandle (handleOf handle))) hpure
  | serverDisconnected => exact .ite (fun _ => Iff.rfl) (mute_render.after (hhandle none)) hpure
  | clientStatus ready =>
      cases ready with
      | false => exact mute_render
      | true => exact mute_render.after (sendAllMidiValues_mute a)

end Worlds

section Keys

/-- A slot without its key, if that one plays. -/
def inputKey (key : UInt8) : UInt8 := if (navOf key).isSome then key else 0

def inputKeys (r : Report) : Report := r.map inputKey

/-- The event without the keys that play. -/
def Event.inputsOnly : Event → Event
  | .report isKeyboard r answers => .report isKeyboard (inputKeys r) answers
  | e => e

theorem inputKeys_toList (r : Report) : (inputKeys r).toList = r.toList.map inputKey :=
  Vector.toList_map

theorem inputKeys_noKeys : inputKeys noKeys = noKeys := Vector.map_replicate

theorem inputKey_input {key : UInt8} (h : (navOf key).isSome = true) : inputKey key = key :=
  if_pos h

theorem inputKey_note {key : UInt8} (h : ¬ (navOf key).isSome = true) : inputKey key = 0 :=
  if_neg h

theorem ne_zero_of_input {key : UInt8} (h : (navOf key).isSome = true) : key ≠ 0 := by
  rintro rfl
  cases h

theorem find_inputKeys (r : Report) {key : UInt8} (h : (navOf key).isSome = true) :
    findKeyInReport (inputKeys r) key = findKeyInReport r key := by
  rw [Bool.eq_iff_iff, findKeyInReport_iff, findKeyInReport_iff, inputKeys_toList, List.mem_map]
  constructor
  · rintro ⟨other, hmem, hother⟩
    by_cases hinput : (navOf other).isSome = true
    · rw [inputKey_input hinput] at hother
      exact hother ▸ hmem
    · rw [inputKey_note hinput] at hother
      exact (ne_zero_of_input h hother.symm).elim
  · exact fun hmem => ⟨key, hmem, inputKey_input h⟩

/-- The second device is the first but for the notes that were played. -/
structure Mirrors (k j : Device) : Prop where
  world : mute j.world = mute k.world
  keyboardConnected : j.keyboardConnected = k.keyboardConnected
  arrays : j.arrays.Valid
  prevReport : j.prevReport = inputKeys k.prevReport
  silent : ∀ c ∈ j.log, ∀ m ∈ c.messages, hear ∅ m = ∅

variable {k k' j : Device} {a : KeyAnswers} {key : UInt8} {pressed : Bool}

/-- What respects the view of a muted world does the same to the mirror. -/
theorem Mirrors.respects (h : Mirrors k j) {f : World → Except Fault World}
    (hf : Respects mute f) {w : World} (hw : f k.world = .ok w) :
    ∃ w', f j.world = .ok w' ∧ mute w' = mute w := by
  have hsame := hf.of_eq h.world
  rw [hw] at hsame
  cases hj : f j.world with
  | error e =>
      rw [hj] at hsame
      cases hsame
  | ok w' =>
      rw [hj] at hsame
      exact ⟨w', rfl, Except.ok.inj hsame⟩

/-- The key messages of the moment are taken off again. -/
theorem sendMessages_mute (a : KeyAnswers) {ms : List Message}
    (hms : ∀ m ∈ ms, m.length = 3 ∧ controllerValue m = none) (w : World) :
    mute (sendMessages a ms w) = mute w := by
  have hloop : ∀ (ms : List (Message × ℕ)) (wires : Wires),
      (∀ m ∈ ms, m.1.length = 3 ∧ controllerValue m.1 = none) →
      muteWires (ms.foldl (fun wires m =>
        (send (links a.menus.radio w.rest.ble) (a.notes m.2) 3 m.1 wires).2) wires) =
      muteWires wires := by
    intro ms
    induction ms with
    | nil => exact fun _ _ => rfl
    | cons m ms ih =>
        intro wires hms
        obtain ⟨⟨hlength, hnone⟩, hrest⟩ := List.forall_mem_cons.mp hms
        rw [List.foldl_cons, ih _ hrest, muteWires_send _ _ hlength hnone]
  simp only [mute, sendMessages, muteApp, onOuter]
  rw [hloop ms.zipIdx w.rest.midi.outer fun m hm => hms m.1 (List.fst_mem_of_mem_zipIdx hm)]

/-- A key that plays. -/
theorem Mirrors.note (h : Mirrors k j) (hnav : (if pressed then navOf key else none) = none)
    (hk : handleKey a key pressed k = .ok k') : Mirrors k' j := by
  simp only [handleKey, hnav] at hk
  obtain ⟨notes, -, hk⟩ := Runs.bind_ok hk
  obtain ⟨raw, -, hk⟩ := Runs.bind_ok hk
  obtain rfl := Except.ok.inj hk
  refine ⟨?_, h.keyboardConnected, h.arrays, h.prevReport, h.silent⟩
  rw [sendMessages_mute a (keyCall_messages_regular _)]
  exact h.world

/-- A key that is released in the mirror too, where it may end other notes. -/
theorem Mirrors.release (h : Mirrors k j) (hkey : key < 128) :
    ∃ j', handleKey a key false j = .ok j' ∧ Mirrors k j' := by
  obtain ⟨notes, hnotes, hread, hvalid⟩ := lookup_spec j.world.rest.keymap hkey h.arrays
  simp only [handleKey, hnotes, hread, bind, Except.bind]
  refine ⟨_, rfl, ?_, h.keyboardConnected, hvalid, h.prevReport, ?_⟩
  · rw [sendMessages_mute a (keyCall_messages_regular _)]
    exact h.world
  · refine List.forall_mem_append.mpr ⟨h.silent, List.forall_mem_singleton.mpr fun m hm => ?_⟩
    obtain ⟨n, -, rfl⟩ := List.mem_map.mp hm
    rw [if_neg Bool.false_ne_true, hear_noteOff, Finset.erase_empty]

/-- A key that goes to the menus, in both. -/
theorem Mirrors.input {nav : Nav} (h : Mirrors k j) (hnav : navOf key = some nav)
    (hk : handleKey a key true k = .ok k') :
    ∃ j', handleKey a key true j = .ok j' ∧ Mirrors k' j' := by
  simp only [handleKey, if_true, hnav] at hk ⊢
  obtain ⟨w, hw, hk⟩ := Runs.bind_ok hk
  obtain rfl := Except.ok.inj hk
  obtain ⟨w', hw', hsame⟩ := h.respects (step_navigate_mute a.menus nav) hw
  simp only [hw', bind, Except.bind]
  refine ⟨_, rfl, hsame, h.keyboardConnected, h.arrays, h.prevReport, ?_⟩
  exact List.forall_mem_append.mpr
    ⟨h.silent, List.forall_mem_singleton.mpr (List.forall_mem_nil _)⟩

/-- One slot of a report, and of the report without the keys that play. -/
theorem Mirrors.slot (h : Mirrors k j) {answers : ℕ → KeyAnswers} {other : Report}
    (slot : UInt8 × ℕ) (hk : handleSlot answers pressed other k slot = .ok k') :
    ∃ j', handleSlot answers pressed (inputKeys other) j (inputKey slot.1, slot.2) = .ok j' ∧
      Mirrors k' j' := by
  obtain ⟨key, i⟩ := slot
  unfold handleSlot at hk
  by_cases hinput : (navOf key).isSome = true
  · obtain ⟨nav, hnav⟩ := Option.isSome_iff_exists.mp hinput
    have hkey : key < 128 := by
      by_contra hge
      rw [navOf_unmapped hge] at hnav
      cases hnav
    simp only [handleSlot, inputKey_input hinput, find_inputKeys other hinput]
    split_ifs at hk ⊢ with hcall
    · cases pressed with
      | true => exact h.input hnav hk
      | false =>
          have hplayed : Mirrors k' j := h.note rfl hk
          exact hplayed.release hkey
    · obtain rfl := Except.ok.inj hk
      exact ⟨j, rfl, h⟩
  · have hnav : navOf key = none := Option.not_isSome_iff_eq_none.mp hinput
    refine ⟨j, ?_, ?_⟩
    · simp only [handleSlot, inputKey_note hinput, ne_eq, not_true_eq_false, false_and, if_false]
      rfl
    · split_ifs at hk
      · exact h.note (by rw [hnav, ite_self]) hk
      · obtain rfl := Except.ok.inj hk
        exact h

theorem Mirrors.diffLoop (h : Mirrors k j) {answers : ℕ → KeyAnswers} {report other : Report}
    (hk : Firmware.diffLoop answers pressed report other k = .ok k') :
    ∃ j', Firmware.diffLoop answers pressed (inputKeys report) (inputKeys other) j = .ok j' ∧
      Mirrors k' j' := by
  have hslots : (inputKeys report).toList.zipIdx =
      report.toList.zipIdx.map fun slot => (inputKey slot.1, slot.2) := by
    rw [inputKeys_toList, List.zipIdx_map]
    rfl
  rw [Firmware.diffLoop, hslots]
  exact Runs.foldlM_follows (fun slot _ _ _ hR hstep => hR.slot slot hstep) h hk

theorem Mirrors.report (h : Mirrors k j) {answers : Bool → ℕ → KeyAnswers} {new : Report}
    (hk : processKbdReport answers new k = .ok k') :
    ∃ j', processKbdReport answers (inputKeys new) j = .ok j' ∧ Mirrors k' j' := by
  obtain ⟨k₁, hk₁, hk⟩ := Runs.bind_ok hk
  obtain ⟨k₂, hk₂, hk⟩ := Runs.bind_ok hk
  obtain rfl := Except.ok.inj hk
  obtain ⟨j₁, hj₁, h₁⟩ := h.diffLoop hk₁
  obtain ⟨j₂, hj₂, h₂⟩ := h₁.diffLoop hk₂
  simp only [processKbdReport, h.prevReport, hj₁, hj₂, bind, Except.bind]
  exact ⟨_, rfl, h₂.world, h₂.keyboardConnected, h₂.arrays, rfl, h₂.silent⟩

end Keys

section Runs
variable {k k' j : Device}

theorem stripTask_mute (a : Answers) (adcRead : UInt16) {k j : Device}
    (h : mute j.world = mute k.world) :
    mute (stripTask a adcRead j).world = mute (stripTask a adcRead k).world := by
  have hmute (k : Device) : mute (stripTask a adcRead { k with world := mute k.world }).world =
      mute (stripTask a adcRead k).world :=
    mute_withMidi k.world ((muteWires_callback (links a.radio k.world.rest.ble) a.accepts).task
      adcRead k.world.rest.strip k.world.rest.midi)
  rw [← hmute j, ← hmute k, h]
  rfl

/-- One event, and the event without the keys that play. -/
theorem Mirrors.step (h : Mirrors k j) (e : Event) (hk : Firmware.step k e = .ok k') :
    ∃ j', Firmware.step j e.inputsOnly = .ok j' ∧ Mirrors k' j' := by
  cases e with
  | mount isKeyboard =>
      cases isKeyboard with
      | false =>
          obtain rfl := Except.ok.inj hk
          exact ⟨j, rfl, h⟩
      | true =>
          obtain ⟨w, hw, hk⟩ := Runs.bind_ok hk
          obtain rfl := Except.ok.inj hk
          obtain ⟨w', hw', hsame⟩ := h.respects mute_render hw
          simp only [Event.inputsOnly, Firmware.step, tuhHidMountCb, if_true, hw', bind,
            Except.bind]
          exact ⟨_, rfl, hsame, rfl, h.arrays, h.prevReport, h.silent⟩
  | report isKeyboard report answers =>
      cases isKeyboard with
      | false =>
          obtain rfl := Except.ok.inj hk
          exact ⟨j, rfl, h⟩
      | true => exact h.report hk
  | strip adcRead a =>
      obtain rfl := Except.ok.inj hk
      exact ⟨_, rfl, stripTask_mute a adcRead h.world, h.keyboardConnected, h.arrays,
        h.prevReport, h.silent⟩
  | link l a =>
      obtain ⟨w, hw, hk⟩ := Runs.bind_ok hk
      obtain rfl := Except.ok.inj hk
      obtain ⟨w', hw', hsame⟩ := h.respects (step_link_mute a l) hw
      simp only [Event.inputsOnly, Firmware.step, hw', bind, Except.bind]
      exact ⟨_, rfl, hsame, h.keyboardConnected, h.arrays, h.prevReport, h.silent⟩

variable {boot : Answers} {displayOk : Bool} {keymap : Keymap} {saved : BleState}
  {es : List Event}

theorem foldl_hear_silent {ms : List Message} (h : ∀ m ∈ ms, hear ∅ m = ∅) :
    ms.foldl hear ∅ = ∅ := by
  induction ms with
  | nil => rfl
  | cons m ms ih =>
      obtain ⟨hm, hms⟩ := List.forall_mem_cons.mp h
      rw [List.foldl_cons, hm, ih hms]

/-- Playing leaves no trace but on the wires: where a run goes through, it goes through
without the keys that play too, and leaves the same menus, picture, keymap, strip, roles,
controller values, and the same controller messages on every wire. No receiver hears a note
then. -/
theorem played_over (h : Firmware.boot boot displayOk keymap saved >>= run es = .ok k) :
    ∃ j, Firmware.boot boot displayOk keymap saved >>= run (es.map Event.inputsOnly) = .ok j ∧
      mute j.world = mute k.world ∧ j.keyboardConnected = k.keyboardConnected ∧
      ∀ t, (j.world.rest.midi.outer t).foldl hear ∅ = ∅ := by
  obtain ⟨k₀, hboot, hrun⟩ := Runs.bind_ok h
  have hstart : Mirrors k₀ k₀ := by
    obtain ⟨w, -, hk₀⟩ := Runs.bind_ok hboot
    obtain rfl := Except.ok.inj hk₀
    exact ⟨rfl, rfl, bootArrays_valid, inputKeys_noKeys.symm, List.forall_mem_nil _⟩
  obtain ⟨j, hj, hmirrors⟩ := Runs.foldlM_follows (fun e _ _ _ hR hstep => hR.step e hstep)
    hstart hrun
  have hreached : Firmware.boot boot displayOk keymap saved >>=
      run (es.map Event.inputsOnly) = .ok j := by
    rw [hboot]
    exact hj
  refine ⟨j, hreached, hmirrors.world, hmirrors.keyboardConnected, fun t => ?_⟩
  -- what a peer has got the UART has got, and that is what the calls have sent
  have htold := reached_told hreached
  have hkeys : (keyMessages (j.world.rest.midi.outer t)).Sublist
      (j.log.flatMap KeyCall.messages) := htold.keys ▸ (htold.sublist t).filter _
  rw [foldl_hear_keyMessages]
  refine foldl_hear_silent fun m hm => ?_
  obtain ⟨c, hc, hm⟩ := List.mem_flatMap.mp (hkeys.subset hm)
  exact hmirrors.silent c hc m hm

theorem menuWhileHeld_played_over :
    ∃ k j, Firmware.boot ConnectMenu.quiet true .piano .off >>= run menuWhileHeld = .ok k ∧
      Firmware.boot ConnectMenu.quiet true .piano .off >>=
        run (menuWhileHeld.map Event.inputsOnly) = .ok j ∧
      mute j.world = mute k.world ∧ j.keyboardConnected = k.keyboardConnected ∧
      ∀ t, (j.world.rest.midi.outer t).foldl hear ∅ = ∅ := by
  have hrun : Firmware.boot ConnectMenu.quiet true .piano .off >>= run menuWhileHeld = .ok _ := rfl
  obtain ⟨j, hj, hsame⟩ := played_over hrun
  exact ⟨_, j, hrun, hj, hsame⟩

end Runs

end Keytar.Firmware
