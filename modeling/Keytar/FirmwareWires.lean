import Keytar.ConnectMenu
import Keytar.FirmwareKeys
import Keytar.MenuTraffic
import Keytar.NoteRange

/-!
# What the firmware puts on the wires

Every event is some traffic: the messages of the calls of `handle_key` that it logs, in
their order, and between them whatever the menus, the strip and the links do to the
controller values.
-/
namespace Keytar.Firmware
open AnalogStrip ControllerStream Framing KeyboardMatrix Keyboard Memory Midi MidiBle MidiValues
  MenuEffects MenuTraffic NoteRange SendHistory Sounding Traffic Ui Menus
open Runs (Keeps)

/-- What is said of the client and taken of a message, at every write of the event. -/
def KeyAnswers.All (q : Bool → Accepts → Prop) (a : KeyAnswers) : Prop :=
  (∀ r, q a.menus.radio.clientConnected (a.menus.accepts r)) ∧
    ∀ i, q a.menus.radio.clientConnected (a.notes i)

def Event.All (q : Bool → Accepts → Prop) : Event → Prop
  | .mount _ => True
  | .report _ _ answers => ∀ pressed i, (answers pressed i).All q
  | .strip _ a => ∀ r, q a.radio.clientConnected (a.accepts r)
  | .link _ a => ∀ r, q a.radio.clientConnected (a.accepts r)

/-- What a call of `handle_key` adds to the log it sends. -/
def Logs (q : Bool → Accepts → Prop) (k k' : Device) : Prop :=
  ∃ cs, k'.log = k.log ++ cs ∧
    Emits q (cs.flatMap KeyCall.messages) k.world.rest k'.world.rest

section Keys
variable {q : Bool → Accepts → Prop} {k k' : Device}

theorem Logs.refl (k : Device) : Logs q k k := ⟨[], (List.append_nil _).symm, .refl _⟩

theorem Logs.trans {i j k : Device} (h : Logs q i j) (h' : Logs q j k) : Logs q i k := by
  obtain ⟨cs, hcs, hemits⟩ := h
  obtain ⟨ds, hds, hemits'⟩ := h'
  refine ⟨cs ++ ds, by rw [hds, hcs, List.append_assoc], ?_⟩
  rw [List.flatMap_append]
  exact hemits.trans hemits'

/-- The messages of a key as traffic. -/
def keyTraffic (a : KeyAnswers) (w : World) (ms : List (Message × ℕ)) : List Sending :=
  ms.map fun m => .message (links a.menus.radio w.rest.ble) (a.notes m.2) m.1

theorem carry_keyTraffic (a : KeyAnswers) (w : World) (ms : List (Message × ℕ))
    (s : Store Wires) :
    carry (keyTraffic a w ms) s = { s with
      outer := ms.foldl (fun wires m =>
        (send (links a.menus.radio w.rest.ble) (a.notes m.2) 3 m.1 wires).2) s.outer } := by
  induction ms generalizing s with
  | nil => rfl
  | cons m ms ih => exact ih _

theorem sendMessages_emits {a : KeyAnswers} (ha : a.All q) (ms : List Message) (w : World) :
    Emits q ms w.rest (sendMessages a ms w).rest := by
  refine ⟨.refl _, keyTraffic a w ms.zipIdx, (carry_keyTraffic a w _ _).symm, ?_, ?_⟩
  · have hmessages : (keyTraffic a w ms.zipIdx).flatMap Sending.messages =
        ms.zipIdx.map Prod.fst := by
      rw [keyTraffic, List.flatMap_map]
      exact List.map_eq_flatMap.symm
    rw [hmessages, List.zipIdx_map_fst]
  · intro x hx
    obtain ⟨m, -, rfl⟩ := List.mem_map.mp hx
    exact ⟨rfl, .refl _, .refl _, ha.2 m.2⟩

theorem handleKey_logs {a : KeyAnswers} (ha : a.All q) (key : UInt8) (pressed : Bool)
    (k : Device) : Keeps (Logs q) k (handleKey a key pressed k) := by
  intro k' hk'
  unfold handleKey at hk'
  split at hk'
  · obtain ⟨w, hw, hk'⟩ := Runs.bind_ok hk'
    obtain rfl := Except.ok.inj hk'
    exact ⟨_, rfl, tells_of_does ha.1 (step_navigate_does _ _) w hw⟩
  · obtain ⟨notes, -, hk'⟩ := Runs.bind_ok hk'
    obtain ⟨raw, -, hk'⟩ := Runs.bind_ok hk'
    obtain rfl := Except.ok.inj hk'
    refine ⟨_, rfl, ?_⟩
    rw [List.flatMap_singleton]
    exact sendMessages_emits ha _ k.world

theorem diffLoop_logs {answers : ℕ → KeyAnswers} (ha : ∀ i, (answers i).All q) (pressed : Bool)
    (report other : Report) (k : Device) :
    Keeps (Logs q) k (diffLoop answers pressed report other k) := by
  intro k' hk'
  refine Runs.foldlM_relates (Logs q) .refl (fun _ _ _ => .trans) (fun slot _ j j' hj => ?_) hk'
  unfold handleSlot at hj
  split_ifs at hj
  · exact handleKey_logs (ha slot.2) slot.1 pressed j j' hj
  · obtain rfl := Except.ok.inj hj
    exact .refl _

theorem processKbdReport_logs {answers : Bool → ℕ → KeyAnswers}
    (ha : ∀ pressed i, (answers pressed i).All q) (new : Report) (k : Device) :
    Keeps (Logs q) k (processKbdReport answers new k) := by
  intro k' hk'
  obtain ⟨j, hj, hk'⟩ := Runs.bind_ok hk'
  obtain ⟨i, hi, hk'⟩ := Runs.bind_ok hk'
  obtain rfl := Except.ok.inj hk'
  exact (diffLoop_logs (ha true) true new k.prevReport k j hj).trans
    (diffLoop_logs (ha false) false k.prevReport new j i hi)

end Keys

/-- The traffic of an event. Where the server is linked before and after, or neither, it
is for every piece. -/
structure Puts (q : Bool → Accepts → Prop) (cs : List KeyCall) (xs : List Sending)
    (k k' : Device) : Prop where
  log : k'.log = k.log ++ cs
  midi : k'.world.rest.midi = carry xs k.world.rest.midi
  messages : xs.flatMap Sending.messages = cs.flatMap KeyCall.messages
  uart : ∀ x ∈ xs, x.links.midiUartInitialized = true
  answered : ∀ x ∈ xs, answered q x
  handle : k.world.rest.ble.conHandle.isSome = k'.world.rest.ble.conHandle.isSome →
    ∀ x ∈ xs, x.links.conHandle.isSome = k'.world.rest.ble.conHandle.isSome

section Events
variable {q : Bool → Accepts → Prop} {k k' : Device}

theorem Loses.isSome_eq {a b c : Option ConHandle} (h : Loses a b) (h' : Loses b c)
    (hsame : a.isSome = c.isSome) : b.isSome = c.isSome := by
  rcases h with rfl | rfl
  · exact hsame
  · rcases h' with rfl | rfl <;> rfl

theorem Logs.puts (h : Logs q k k') : ∃ cs xs, Puts q cs xs k k' := by
  obtain ⟨cs, hcs, -, xs, hmidi, hmessages, hxs⟩ := h
  exact ⟨cs, xs, hcs, hmidi, hmessages, fun x hx => (hxs x hx).uart,
    fun x hx => (hxs x hx).answered,
    fun hsame x hx => Loses.isSome_eq (hxs x hx).before (hxs x hx).after hsame⟩

/-- An event that calls no `handle_key`. -/
theorem Emits.logs (hlog : k'.log = k.log) (h : Emits q [] k.world.rest k'.world.rest) :
    Logs q k k' :=
  ⟨[], by rw [hlog, List.append_nil], h⟩

theorem stripTask_emits {a : Answers} (ha : ∀ r, q a.radio.clientConnected (a.accepts r))
    (adcRead : UInt16) (k : Device) :
    Emits q [] k.world.rest (stripTask a adcRead k).world.rest := by
  cases hassigned : k.world.rest.strip.midiValue with
  | none => exact .quiet (by simp only [stripTask, analogStripTask, hassigned]) (.refl _)
  | some r =>
      cases hread : analogStripReadFloat adcRead with
      | none =>
          by_cases hreset : k.world.rest.strip.resetOnRelease = true
          · exact .values ha (.set r (k.world.rest.midi.values r).defaultValue false) rfl
              (by simp only [stripTask, analogStripTask, hassigned, analogStripRead, hread,
                if_pos hreset, SendHistory.Op.run])
          · exact .quiet (by simp only [stripTask, analogStripTask, hassigned, analogStripRead,
              hread, if_neg hreset]) (.refl _)
      | some v =>
          let minV : ℚ := (k.world.rest.midi.values r).minValue.toNat
          let maxV : ℚ := (k.world.rest.midi.values r).maxValue.toNat
          exact .values ha (.set r (truncate (minV + (maxV - minV) * v)) false) rfl
            (by simp only [stripTask, analogStripTask, hassigned, analogStripRead, hread,
              SendHistory.Op.run, minV, maxV])

/-- After a `midi_value_send_all` over the links that it leaves behind. -/
theorem sendAll_puts {a : Answers} (ha : ∀ r, q a.radio.clientConnected (a.accepts r))
    (hlog : k'.log = k.log) (hmidi : k'.world.rest.midi =
      midiValueSendAll (callback (links a.radio k'.world.rest.ble) a.accepts)
        k.world.rest.midi) :
    Puts q [] [.values (links a.radio k'.world.rest.ble) a.accepts .sendAll] k k' where
  log := by rw [hlog, List.append_nil]
  midi := by
    rw [hmidi]
    simp only [carry, List.foldl_cons, List.foldl_nil, Sending.run, SendHistory.Op.run]
  messages := rfl
  uart := fun x hx => by
    rw [List.mem_singleton.mp hx]
    rfl
  answered := fun x hx => by
    rw [List.mem_singleton.mp hx]
    exact ha
  handle := fun _ x hx => by
    rw [List.mem_singleton.mp hx]
    rfl

theorem quiet_puts (hlog : k'.log = k.log) (hmidi : k'.world.rest.midi = k.world.rest.midi) :
    Puts q [] [] k k' where
  log := by rw [hlog, List.append_nil]
  midi := hmidi
  messages := rfl
  uart := List.forall_mem_nil _
  answered := List.forall_mem_nil _
  handle := fun _ => List.forall_mem_nil _

theorem link_puts {a : Answers} (ha : ∀ r, q a.radio.clientConnected (a.accepts r)) (l : Link)
    (h : step k (.link l a) = .ok k') : ∃ cs xs, Puts q cs xs k k' := by
  obtain ⟨w, hw, h⟩ := Runs.bind_ok h
  obtain rfl := Except.ok.inj h
  cases l with
  | serverConnected handle =>
      simp only [Link.event, Menus.step, serverConnected] at hw
      split_ifs at hw
      · have hrest := uiRender_rest elements hw
        exact ⟨_, _, sendAll_puts ha rfl (by rw [hrest]; rfl)⟩
      · obtain rfl := Except.ok.inj hw
        exact ⟨_, _, quiet_puts rfl rfl⟩
  | serverDisconnected =>
      simp only [Link.event, Menus.step, serverDisconnected] at hw
      split_ifs at hw
      · exact ⟨_, _, quiet_puts rfl (by rw [uiRender_rest elements hw]; rfl)⟩
      · obtain rfl := Except.ok.inj hw
        exact ⟨_, _, quiet_puts rfl rfl⟩
  | clientStatus ready =>
      have hrest := uiRender_rest elements hw
      cases ready with
      | false => exact ⟨_, _, quiet_puts rfl (by rw [hrest]; rfl)⟩
      | true => exact ⟨_, _, sendAll_puts ha rfl (by rw [hrest]; rfl)⟩

theorem step_puts {e : Event} (ha : e.All q) (h : step k e = .ok k') :
    ∃ cs xs, Puts q cs xs k k' := by
  cases e with
  | mount isKeyboard =>
      cases isKeyboard with
      | false =>
          obtain rfl := Except.ok.inj h
          exact (Logs.refl k).puts
      | true =>
          obtain ⟨w, hw, h⟩ := Runs.bind_ok h
          obtain rfl := Except.ok.inj h
          refine Logs.puts (Emits.logs rfl ?_)
          rw [uiRender_rest elements hw]
          exact .refl _
  | report isKeyboard report answers =>
      cases isKeyboard with
      | false =>
          obtain rfl := Except.ok.inj h
          exact (Logs.refl k).puts
      | true => exact (processKbdReport_logs ha report k k' h).puts
  | strip adcRead a =>
      obtain rfl := Except.ok.inj h
      refine Logs.puts (Emits.logs rfl ?_)
      exact stripTask_emits ha adcRead k
  | link l a => exact link_puts ha l h

end Events

section Runs
variable {boot : Answers} {displayOk : Bool} {keymap : Keymap} {saved : BleState}
  {es : List Event} {k k' : Device}

theorem keyCall_messages_regular (c : KeyCall) :
    ∀ m ∈ c.messages, m.length = 3 ∧ controllerValue m = none := by
  intro m hm
  rw [KeyCall.messages, List.mem_append] at hm
  rcases hm with hm | hm
  · split_ifs at hm
    · obtain rfl := List.mem_singleton.mp hm
      exact ⟨rfl, rfl⟩
    · cases hm
  · obtain ⟨n, -, rfl⟩ := List.mem_map.mp hm
    split_ifs
    · exact ⟨rfl, rfl⟩
    · exact ⟨rfl, rfl⟩

variable {q : Bool → Accepts → Prop} {cs : List KeyCall} {xs : List Sending}

theorem Puts.regular (h : Puts q cs xs k k') : ∀ x ∈ xs, x.Regular := by
  refine fun x hx => ⟨h.uart x hx, fun m hm => ?_⟩
  have hmem : m ∈ cs.flatMap KeyCall.messages := by
    rw [← h.messages]
    exact List.mem_flatMap.mpr ⟨x, hx, hm⟩
  obtain ⟨c, -, hc⟩ := List.mem_flatMap.mp hmem
  exact keyCall_messages_regular c m hc

/-- The wires of a device whose log is what the keys have sent. -/
def Told (k : Device) : Prop :=
  Carried (k.log.flatMap KeyCall.messages) k.world.rest.midi

theorem Puts.told (h : Puts q cs xs k k') (hk : Told k) : Told k' := by
  rw [Told, h.log, h.midi, List.flatMap_append, ← h.messages]
  exact hk.carry xs h.regular

theorem event_all (e : Event) : e.All fun _ _ => True := by
  cases e with
  | mount isKeyboard => trivial
  | report isKeyboard report answers => exact fun _ _ => ⟨fun _ => trivial, fun _ => trivial⟩
  | strip adcRead a => exact fun _ => trivial
  | link l a => exact fun _ => trivial

theorem run_told (h : run es k = .ok k') (hk : Told k) : Told k' := by
  refine Runs.foldlM_relates (fun k k' => Told k → Told k') (fun _ h => h)
    (fun _ _ _ h h' hk => h' (h hk)) (fun e _ j j' hj hk => ?_) h hk
  obtain ⟨cs, xs, hputs⟩ := step_puts (event_all e) hj
  exact hputs.told hk

theorem reached_told (h : Firmware.boot boot displayOk keymap saved >>= run es = .ok k) :
    Told k := by
  obtain ⟨j, hj, hrun⟩ := Runs.bind_ok h
  obtain ⟨w, hw, hj⟩ := Runs.bind_ok hj
  obtain rfl := Except.ok.inj hj
  have htells : Tells (fun _ _ => True) reset (bootUp boot displayOk keymap saved) :=
    tells_of_does (fun _ => trivial) (bootUp_does displayOk keymap saved)
  obtain ⟨-, xs, hmidi, hmessages, hxs⟩ := htells w hw
  refine run_told hrun ?_
  have hnone : ∀ x ∈ xs, x.messages = [] := List.flatMap_eq_nil_iff.mp hmessages
  have hcarried := boot_carried.carry xs fun x hx =>
    ⟨(hxs x hx).uart, fun m hm => by simp [hnone x hx] at hm⟩
  rw [hmessages] at hcarried
  change Carried [] w.rest.midi
  rw [hmidi]
  exact hcarried

theorem Told.heard (h : Told k) :
    (k.world.rest.midi.outer .uart).foldl hear ∅ = sounding k.log := by
  rw [foldl_hear_keyMessages, h.keys]
  rfl

/-- In every run the messages on the UART that carry no controller value are those of the
calls of `handle_key`, in their order, and a receiver hears what their log says. What a
Bluetooth peer has got the UART has got too, in the same order. -/
theorem reached_wires (h : Firmware.boot boot displayOk keymap saved >>= run es = .ok k) :
    let wires := k.world.rest.midi.outer
    keyMessages (wires .uart) = k.log.flatMap KeyCall.messages ∧
      (wires .uart).foldl hear ∅ = sounding k.log ∧
      ∀ t, (wires t).Sublist (wires .uart) := by
  have htold := reached_told h
  exact ⟨htold.keys, htold.heard, htold.sublist⟩

theorem menuWhileHeld_wires :
    ∃ k, Firmware.boot ConnectMenu.quiet true .piano .off >>= run menuWhileHeld = .ok k ∧
      keyMessages (k.world.rest.midi.outer .uart) = k.log.flatMap KeyCall.messages ∧
      (k.world.rest.midi.outer .uart).foldl hear ∅ = sounding k.log ∧
      ∀ t, (k.world.rest.midi.outer t).Sublist (k.world.rest.midi.outer .uart) := by
  have hrun : Firmware.boot ConnectMenu.quiet true .piano .off >>= run menuWhileHeld = .ok _ := rfl
  exact ⟨_, hrun, reached_wires hrun⟩

end Runs

section Stream
variable {boot : Answers} {displayOk : Bool} {keymap : Keymap} {saved : BleState}
  {es : List Event} {k : Device}

/-- The notes of the call go out as the sums that they stand for. -/
def Summed (c : KeyCall) : Prop :=
  ∀ raw ∈ c.rawNotes, ((noteByte c.offset raw).toNat : ℤ) = raw.toNat + c.offset.toInt

theorem keyCall_rawNotes (key : UInt8) (pressed : Bool) (m : Keymap) (offset : Int8) :
    ∀ raw ∈ (keyCall key pressed m offset).rawNotes, raw ∈ rawNotes m key := by
  intro raw hraw
  cases pressed with
  | false => rwa [keyCall_release] at hraw
  | true =>
      by_cases hnav : navOf key = none
      · rwa [keyCall_press m offset hnav] at hraw
      · rw [keyCall_nav m offset hnav] at hraw
        cases hraw

theorem keyCall_summed {key : UInt8} (hkey : key < 128) (pressed : Bool) (m : Keymap)
    {offset : Int8} (ho : offset ∈ reachableOffsets) :
    Summed (keyCall key pressed m offset) := by
  intro raw hraw
  have hoffset := offset_range (keyCall_offset_reachable key pressed m ho)
  have hrange := rawNotes_range m hkey (keyCall_rawNotes key pressed m offset raw hraw)
  exact noteByte_toNat _ raw (by omega) (by omega)

/-- What the log of a run over keycodes in the tables says. -/
structure Logged {υ : Type} (s : KeyboardState υ) : Prop extends Ranged s where
  summed : ∀ c ∈ s.log, Summed c

theorem Logged.handled {υ : Type} {ui : UserInterface υ} {key : UInt8} {pressed : Bool}
    {s s' : KeyboardState υ} (hkey : key < 128) (hs : Logged s)
    (h : Handled ui key pressed s s') : Logged s' where
  toRanged := hs.toRanged.handled hkey h
  summed := by
    intro c hc
    rw [h.log, List.mem_append, List.mem_singleton] at hc
    rcases hc with hc | rfl
    · exact hs.summed c hc
    · exact keyCall_summed hkey pressed s.keymap hs.offset

/-- All keycodes that the keyboards report are in the tables. -/
def Tabled (es : List Event) : Prop := ∀ i ∈ es.flatMap inputs, ∀ key ∈ i.keys, key < 128

theorem reached_log (h : Firmware.boot boot displayOk keymap saved >>= run es = .ok k)
    (hkeys : Tabled es) :
    k.offset ∈ reachableOffsets ∧ Matched (keyboard [] k) ∧ ∀ c ∈ k.log, Summed c ∧
      (WellFormed c ↔ c.key ∉ strayKeys c.keymap c.offset) := by
  obtain ⟨ms, hrun⟩ := reached_keyboard h
  obtain ⟨s, hs, hlogged, hmatched⟩ := run_invariant listedUi Logged (fun _ h => h.arrays)
    (fun _ _ _ _ hkey hs hh => hs.handled hkey hh)
    (fun _ _ h => ⟨⟨h.arrays, h.offset, h.log⟩, h.summed⟩) (.setKeymap keymap :: es.flatMap inputs)
    (fun _ _ _ h => ⟨⟨h.arrays, h.offset, h.log⟩, h.summed⟩)
    (List.forall_mem_cons.mpr ⟨List.forall_mem_nil _, hkeys⟩) (s := Keyboard.boot ms)
    (by simp [Keyboard.boot, start, noKeys])
    ⟨boot_ranged ms, fun c hc => by simp [Keyboard.boot, start] at hc⟩ (start_matched ms _ _)
  obtain rfl := Except.ok.inj (hs.symm.trans hrun)
  exact ⟨hlogged.offset, hmatched, fun c hc => ⟨hlogged.summed c hc, hlogged.log c hc⟩⟩

theorem framed_note {status note : UInt8} (hstatus : isStatus status = true) :
    Framed isStatus [status, note, 127] ↔ note ≤ 127 := by
  constructor
  · rintro ⟨first, rest, heq, -, hrest⟩
    obtain ⟨rfl, rfl⟩ := List.cons.inj heq
    have hnote := hrest note List.mem_cons_self
    simpa [isStatus, UInt8.le_iff_toNat_le, UInt8.lt_iff_toNat_lt, Nat.lt_succ_iff] using hnote
  · intro hnote
    refine ⟨status, _, rfl, hstatus, List.forall_mem_cons.mpr ⟨isStatus_data ?_, ?_⟩⟩
    · exact UInt8.le_iff_toNat_le.mp hnote
    · exact List.forall_mem_singleton.mpr rfl

theorem framed_messages (c : KeyCall) :
    (∀ m ∈ c.messages, Framed isStatus m) ↔ ∀ raw ∈ c.rawNotes, noteByte c.offset raw ≤ 127 := by
  have hclear : ∀ m ∈ (if c.cleared then [midiClearNotes] else []), Framed isStatus m := by
    split_ifs
    · exact List.forall_mem_singleton.mpr ⟨_, _, rfl, rfl, by decide⟩
    · exact List.forall_mem_nil _
  have hnote (n : UInt8) : Framed isStatus ((if c.pressed then midiNoteOn else midiNoteOff) n) ↔
      n ≤ 127 := by
    cases c.pressed
    · exact framed_note rfl
    · exact framed_note rfl
  rw [KeyCall.messages, List.forall_mem_append, and_iff_right hclear, List.forall_mem_map,
    KeyCall.notes, List.forall_mem_map]
  simp only [hnote]

theorem messages_start (c : KeyCall) :
    ∀ m ∈ c.messages, ∃ status data, m = status :: data ∧ isStatus status = true := by
  intro m hm
  rw [KeyCall.messages, List.mem_append] at hm
  rcases hm with hm | hm
  · split_ifs at hm
    · obtain rfl := List.mem_singleton.mp hm
      exact ⟨_, _, rfl, rfl⟩
    · cases hm
  · obtain ⟨n, -, rfl⟩ := List.mem_map.mp hm
    split_ifs
    · exact ⟨_, _, rfl, rfl⟩
    · exact ⟨_, _, rfl, rfl⟩

/-- The bytes on the UART fall back into just the messages that were sent, notes and
controllers as they are mixed, exactly if no key was played that is stray in its keymap
and at its offset. -/
theorem stream_iff (h : Firmware.boot boot displayOk keymap saved >>= run es = .ok k)
    (hkeys : Tabled es) :
    frames isStatus (k.world.rest.midi.outer .uart).flatten = k.world.rest.midi.outer .uart ↔
      ∀ c ∈ k.log, c.key ∉ strayKeys c.keymap c.offset := by
  obtain ⟨-, -, hlog⟩ := reached_log h hkeys
  rw [(reached_told h).frames_iff fun m hm => by
    obtain ⟨c, -, hc⟩ := List.mem_flatMap.mp hm
    exact messages_start c m hc]
  have hwell : ∀ c ∈ k.log, ((∀ m ∈ c.messages, Framed isStatus m) ↔ WellFormed c) := by
    intro c hc
    rw [framed_messages, WellFormed]
    exact forall₂_congr fun raw hraw => (and_iff_right ((hlog c hc).1 raw hraw)).symm
  constructor
  · intro hframed c hc
    refine (hlog c hc).2.mp ((hwell c hc).mp fun m hm => hframed m ?_)
    exact List.mem_flatMap.mpr ⟨c, hc, hm⟩
  · intro hstray m hm
    obtain ⟨c, hc, hmem⟩ := List.mem_flatMap.mp hm
    exact (hwell c hc).mpr ((hlog c hc).2.mpr (hstray c hc)) m hmem

theorem menuWhileHeld_stream :
    ∃ k, Firmware.boot ConnectMenu.quiet true .piano .off >>= run menuWhileHeld = .ok k ∧
      (frames isStatus (k.world.rest.midi.outer .uart).flatten = k.world.rest.midi.outer .uart ↔
        ∀ c ∈ k.log, c.key ∉ strayKeys c.keymap c.offset) := by
  have hrun : Firmware.boot ConnectMenu.quiet true .piano .off >>= run menuWhileHeld = .ok _ := rfl
  have hkeys : Tabled menuWhileHeld := by
    simp [Tabled, menuWhileHeld, inputs, Input.keys, twoKeys, noKeys]
  exact ⟨_, hrun, stream_iff hrun hkeys⟩

end Stream

section InStep
variable {server client : Bool} {t : Transport} {cs : List KeyCall} {xs : List Sending}
  {k k' : Device}

/-- What is answered while the client is linked or not throughout, and every link takes
all that it is given. -/
def Full (server client : Bool) (connected : Bool) (a : Accepts) : Prop :=
  connected = client ∧ (server = true → a.server = 3) ∧ (client = true → a.client = 3)

/-- The server is linked, or not, as given. -/
def serverIs (server : Bool) (k : Device) : Bool := k.world.rest.ble.conHandle.isSome == server

theorem Puts.steady (h : Puts (Full server client) cs xs k k') (hk : serverIs server k = true)
    (hk' : serverIs server k' = true) : ∀ x ∈ xs, x.Steady server client := by
  intro x hx
  have huart := h.uart x hx
  have hanswered := h.answered x hx
  have hlinked := eq_of_beq hk'
  have hhandle := (h.handle ((eq_of_beq hk).trans hlinked.symm) x hx).trans hlinked
  cases x with
  | values l a op =>
      exact fun r => ⟨huart, hhandle, (hanswered r).1, (hanswered r).2.1, (hanswered r).2.2⟩
  | message l a m => exact ⟨huart, hhandle, hanswered.1, hanswered.2.1, hanswered.2.2⟩

theorem run_inStep (ht : linked server client t = true) (es : List Event) :
    ∀ {k k' : Device}, run es k = .ok k' → Told k → (∀ e ∈ es, e.All (Full server client)) →
      Runs.throughout step (serverIs server) es k = true →
      (∀ r, InStep (verdict server client) t r k.world.rest.midi) →
      ∀ r, InStep (verdict server client) t r k'.world.rest.midi := by
  induction es with
  | nil =>
      intro k k' hrun _ _ _ h
      obtain rfl := Except.ok.inj hrun
      exact h
  | cons e es ih =>
      intro k k' hrun hk hall hstays h
      rw [run, List.foldlM_cons] at hrun
      obtain ⟨j, hj, hrest⟩ := Runs.bind_ok hrun
      obtain ⟨cs, xs, hputs⟩ := step_puts (hall e List.mem_cons_self) hj
      have hstays' := Runs.throughout_cons hstays hj
      have hsteady := hputs.steady (Runs.throughout_start hstays) (Runs.throughout_start hstays')
      refine ih hrest (hputs.told hk) (fun e he => hall e (List.mem_cons_of_mem _ he)) hstays' ?_
      rw [hputs.midi]
      exact carry_inStep xs ht hk (fun x hx => ⟨hputs.regular x hx, hsteady x hx⟩) h

/-- The event sends all values, over the links that it leaves behind. -/
def Resends (k : Device) : Link → Prop
  | .serverConnected _ => k.world.rest.ble.serverInitialized = true
  | .serverDisconnected => False
  | .clientStatus ready => ready = true

theorem Resends.midi {a : Answers} {l : Link} (hl : Resends k l)
    (h : step k (.link l a) = .ok k') : k'.world.rest.midi =
      midiValueSendAll (callback (links a.radio k'.world.rest.ble) a.accepts)
        k.world.rest.midi := by
  obtain ⟨w, hw, h⟩ := Runs.bind_ok h
  obtain rfl := Except.ok.inj h
  cases l with
  | serverConnected handle =>
      simp only [Link.event, Menus.step, serverConnected] at hw
      rw [if_pos (show k.world.rest.ble.serverInitialized = true from hl)] at hw
      rw [uiRender_rest elements hw]
      rfl
  | serverDisconnected => exact hl.elim
  | clientStatus ready =>
      obtain rfl := hl
      rw [uiRender_rest elements hw]
      rfl

/-- Right after the values are sent again every receiver that is linked holds them. -/
theorem Resends.inStep {a : Answers} {l : Link} (hl : Resends k l)
    (hlink : step k (.link l a) = .ok k') (hk : Told k)
    (hfull : (Event.link l a).All (Full server client)) (hserver : serverIs server k' = true)
    (ht : linked server client t = true) :
    Told k' ∧ ∀ r, InStep (verdict server client) t r k'.world.rest.midi := by
  have hsteady (r : MidiValueRef) :
      Steady server client (links a.radio k'.world.rest.ble) (a.accepts r) :=
    ⟨rfl, eq_of_beq hserver, (hfull r).1, (hfull r).2.1, (hfull r).2.2⟩
  obtain ⟨cs, xs, hputs⟩ := step_puts hfull hlink
  refine ⟨hputs.told hk, fun r => ?_⟩
  rw [hl.midi hlink]
  exact sendAll_inStep hsteady ht hk.inRange r

/-- Once a link has come up, every receiver that is linked holds the current value of
each controller after every event, whatever keys, menus and strip do, as long as the same
roles stay linked and every link takes all its bytes. -/
theorem inStep_since_link {boot : Answers} {displayOk : Bool} {keymap : Keymap}
    {saved : BleState} {before after : List Event} {j : Device} {l : Link} {a : Answers}
    (hbefore : Firmware.boot boot displayOk keymap saved >>= run before = .ok j)
    (hl : Resends j l) (hlink : step j (.link l a) = .ok k) (hafter : run after k = .ok k')
    (hall : ∀ e ∈ .link l a :: after, e.All (Full server client))
    (hstays : Runs.throughout step (serverIs server) after k = true)
    (ht : linked server client t = true) (r : MidiValueRef) :
    (received r (k'.world.rest.midi.outer t)).getLast? =
      some (k'.world.rest.midi.values r).value.toNat := by
  obtain ⟨hfull, hall⟩ := List.forall_mem_cons.mp hall
  obtain ⟨htold, hinStep⟩ := hl.inStep hlink (reached_told hbefore) hfull
    (Runs.throughout_start hstays) ht
  exact (run_inStep ht after hafter htold hall hstays hinStep r).value

def savedServer : BleState := { BleState.off with mode := .server }

theorem menuWhileHeld_inStep :
    ∃ j k k', Firmware.boot ConnectMenu.quiet true .piano savedServer >>= run [] = .ok j ∧
      step j (.link (.serverConnected 0x40) ConnectMenu.quiet) = .ok k ∧
      run menuWhileHeld k = .ok k' ∧
      (received .mvMod (k'.world.rest.midi.outer .server)).getLast? =
        some (k'.world.rest.midi.values .mvMod).value.toNat := by
  have hj : Firmware.boot ConnectMenu.quiet true .piano savedServer >>= run [] = .ok _ := rfl
  refine ⟨_, _, _, hj, rfl, rfl, ?_⟩
  have hall : ∀ e ∈ .link (.serverConnected 0x40) ConnectMenu.quiet :: menuWhileHeld,
      e.All (Full true false) := by
    simp [menuWhileHeld, Event.All, KeyAnswers.All, Full, quietKeys, ConnectMenu.quiet]
  exact inStep_since_link (l := .serverConnected 0x40) hj rfl rfl rfl hall rfl rfl .mvMod

end InStep

end Keytar.Firmware
