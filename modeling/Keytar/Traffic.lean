import Keytar.ControllerStream
import Keytar.Sounding

/-!
# Everything that goes to the transports

The controller values, which pass a cache, and the messages of the keys, which do not,
share the transports. A piece of traffic is an operation on the values or one key message,
with the links of its moment and with what they take. What a transport carries after any
such traffic is told apart again by the messages themselves.
-/
namespace Keytar.Traffic
open ControllerStream Framing Midi MidiValues SendHistory Sounding

inductive Sending where
  | values (l : Links) (a : MidiValueRef → Accepts) (op : Op)
  | message (l : Links) (a : Accepts) (msg : Message)

def Sending.run : Sending → Store Wires → Store Wires
  | .values l a op, s => op.run (callback l a) s
  | .message l a msg, s => { s with outer := (send l a 3 msg s.outer).2 }

def Sending.links : Sending → Links
  | .values l _ _ => l
  | .message l _ _ => l

def Sending.messages : Sending → List Message
  | .values _ _ _ => []
  | .message _ _ msg => [msg]

def carry (xs : List Sending) (s : Store Wires) : Store Wires :=
  xs.foldl (fun s x => x.run s) s

/-- The UART is up, and what is no controller value has three bytes and does not look
like one. -/
structure Sending.Regular (x : Sending) : Prop where
  uart : x.links.midiUartInitialized = true
  keys : ∀ m ∈ x.messages, m.length = 3 ∧ controllerValue m = none

/-- The messages on a wire that carry no controller value. -/
def keyMessages (log : List Message) : List Message :=
  log.filter fun m => (controllerValue m).isNone

theorem keyMessages_concat (log : List Message) (m : Message) :
    keyMessages (log ++ [m]) =
      if (controllerValue m).isNone then keyMessages log ++ [m] else keyMessages log := by
  split_ifs with h
  · simp [keyMessages, h]
  · simp [keyMessages, h]

section Operations
variable {σ : Type*} {P : Store σ → Prop} {f : Callback σ} {s : Store σ}

/-- The rule for one operation on the values. -/
theorem Op.run_keeps (hassign : ∀ r v b s, P s → P (assign r v b s))
    (hforce : ∀ r s, P s → P (force r s)) (hsync : ∀ r s, P s → P (midiValueSync f r s).2)
    (op : Op) (h : P s) : P (op.run f s) := by
  have hset (r : MidiValueRef) (v : UInt16) (b : Bool) : P (midiValueSet f r v b s) :=
    hsync r _ (hassign r v b s h)
  have hloop (rs : List MidiValueRef) :
      P (rs.foldl (fun s r => (midiValueSync f r (force r s)).2) s) := by
    clear hset
    induction rs generalizing s with
    | nil => exact h
    | cons r rs ih => exact ih (hsync r _ (hforce r s h))
  cases op with
  | set r v b => exact hset r v b
  | sendAll => exact hloop midiValues
  | menu r nav =>
      change P (menuStep f r nav s)
      rw [menuStep_eq]
      cases menuTarget nav (s.values r).value with
      | none => exact h
      | some v => exact hset r v true

end Operations

section Wires

/-- What the traffic so far has left on the wires, after some key messages. -/
structure Carried (ms : List Message) (s : Store Wires) : Prop where
  inRange : s.InRange
  keys : keyMessages (s.outer .uart) = ms
  framed : ∀ m ∈ s.outer .uart, (controllerValue m).isSome → Framed isStatus m
  sublist : ∀ t, (s.outer t).Sublist (s.outer .uart)

variable {ms : List Message} {s : Store Wires} {l : Links}

theorem boot_carried : Carried [] (boot idle) :=
  ⟨boot_inRange _, rfl, fun m hm => by simp [boot, idle] at hm, fun t => .refl _⟩

theorem send_uart (hl : l.midiUartInitialized = true) (a : Accepts) {m : Message}
    (hm : m.length = 3) (w : Wires) : (send l a 3 m w).2 .uart = w .uart ++ [m] := by
  have htake : m.take (3 : UInt8).toNat = m := List.take_of_length_le (by rw [hm]; rfl)
  rw [send_wires, if_pos (show takes l a 3 .uart = true from hl), htake]

/-- What reaches some transport has gone to the UART too. -/
theorem send_sublist (hl : l.midiUartInitialized = true) (a : Accepts) {m : Message}
    (hm : m.length = 3) {w : Wires} (t : Transport) (h : (w t).Sublist (w .uart)) :
    ((send l a 3 m w).2 t).Sublist ((send l a 3 m w).2 .uart) := by
  have htake : m.take (3 : UInt8).toNat = m := List.take_of_length_le (by rw [hm]; rfl)
  rw [send_uart hl a hm, send_wires, htake]
  split_ifs
  · exact h.append (.refl _)
  · exact h.trans (List.sublist_append_left _ _)

theorem Carried.send_keys (h : Carried ms s) (hl : l.midiUartInitialized = true) (a : Accepts)
    {m : Message} (hm : m.length = 3) (hnone : controllerValue m = none) :
    Carried (ms ++ [m]) { s with outer := (send l a 3 m s.outer).2 } := by
  have huart := send_uart hl a hm s.outer
  refine ⟨h.inRange, ?_, fun q hq hsome => ?_, fun t => send_sublist hl a hm t (h.sublist t)⟩
  · change keyMessages ((send l a 3 m s.outer).2 .uart) = _
    rw [huart, keyMessages_concat, if_pos (by rw [hnone]; rfl), h.keys]
  · change q ∈ (send l a 3 m s.outer).2 .uart at hq
    rw [huart, List.mem_append, List.mem_singleton] at hq
    rcases hq with hq | rfl
    · exact h.framed q hq hsome
    · rw [hnone] at hsome
      cases hsome

theorem Carried.sync (h : Carried ms s) (hl : l.midiUartInitialized = true)
    (a : MidiValueRef → Accepts) (r : MidiValueRef) :
    Carried ms (midiValueSync (callback l a) r s).2 := by
  have hle := (h.inRange r).value_le
  rw [(h.inRange r).maxValue] at hle
  have hvalue := controllerValue_message hle
  have hlength : (message r (s.values r)).length = 3 := by cases r <;> rfl
  have hinRange := midiValueSync_inRange h.inRange (callback l a) r
  have houter := midiValueSync_outer (callback l a) r s
  split_ifs at houter with hskip
  · exact ⟨hinRange, houter ▸ h.keys, houter ▸ h.framed, houter ▸ h.sublist⟩
  change _ = (send l (a r) 3 (message r (s.values r)) s.outer).2 at houter
  refine ⟨hinRange, ?_, ?_, fun t => ?_⟩
  · rw [houter, send_uart hl _ hlength, keyMessages_concat, if_neg (by rw [hvalue]; simp), h.keys]
  · intro q hq hsome
    rw [houter, send_uart hl _ hlength, List.mem_append, List.mem_singleton] at hq
    rcases hq with hq | rfl
    · exact h.framed q hq hsome
    · exact framed_message hle
  · rw [houter]
    exact send_sublist hl _ hlength t (h.sublist t)

theorem Carried.run (h : Carried ms s) {x : Sending} (hx : x.Regular) :
    Carried (ms ++ x.messages) (x.run s) := by
  cases x with
  | values l a op =>
      rw [Sending.messages, List.append_nil]
      exact Op.run_keeps
        (fun r v b s h => ⟨assign_inRange h.inRange r v b, h.keys, h.framed, h.sublist⟩)
        (fun r s h => ⟨force_inRange h.inRange r, h.keys, h.framed, h.sublist⟩)
        (fun r s h => h.sync hx.uart a r) op h
  | message l a m =>
      obtain ⟨hm, hnone⟩ := hx.keys m (List.mem_singleton_self m)
      exact h.send_keys hx.uart a hm hnone

theorem Carried.carry (xs : List Sending) :
    ∀ {ms : List Message} {s : Store Wires}, Carried ms s → (∀ x ∈ xs, x.Regular) →
      Carried (ms ++ xs.flatMap Sending.messages) (Traffic.carry xs s) := by
  induction xs with
  | nil =>
      intro ms s h _
      rw [List.flatMap_nil, List.append_nil]
      exact h
  | cons x xs ih =>
      intro ms s h hxs
      rw [List.flatMap_cons, ← List.append_assoc]
      exact ih (h.run (hxs x List.mem_cons_self)) fun y hy => hxs y (List.mem_cons_of_mem x hy)

/-- The bytes on the UART fall into its messages exactly if every key message is framed. -/
theorem Carried.frames_iff (h : Carried ms s)
    (hstart : ∀ m ∈ ms, ∃ status data, m = status :: data ∧ isStatus status = true) :
    frames isStatus (s.outer .uart).flatten = s.outer .uart ↔ ∀ m ∈ ms, Framed isStatus m := by
  have hkey : ∀ m, m ∈ ms ↔ m ∈ s.outer .uart ∧ controllerValue m = none := by
    intro m
    rw [← h.keys, keyMessages, List.mem_filter, Option.isNone_iff_eq_none]
  have hcases : ∀ m ∈ s.outer .uart, Framed isStatus m ∨ m ∈ ms := by
    intro m hm
    cases hc : controllerValue m with
    | none => exact .inr ((hkey m).mpr ⟨hm, hc⟩)
    | some v => exact .inl (h.framed m hm (by rw [hc]; rfl))
  rw [frames_flatten_iff]
  · refine ⟨fun hall m hm => hall m ((hkey m).mp hm).1, fun hall m hm => ?_⟩
    rcases hcases m hm with hframed | hmem
    · exact hframed
    · exact hall m hmem
  · intro m hm
    rcases hcases m hm with ⟨status, data, rfl, hstatus, -⟩ | hmem
    · exact ⟨status, data, rfl, hstatus⟩
    · exact hstart m hmem

/-- A receiver that plays notes does not hear the controllers. -/
theorem hear_controller {m : Message} (h : controllerValue m ≠ none) (on : Finset UInt8) :
    hear on m = on := by
  unfold controllerValue at h
  split at h
  case h_1 status data1 data2 =>
    split_ifs at h with hbend hcc
    · subst hbend
      rfl
    · subst hcc
      have hdata : data1 ≠ controlAllNotesOffB1 := by
        rintro rfl
        exact h rfl
      simp [hear, cmdCc, cmdNoteOn, cmdNoteOff, hdata]
    · exact (h rfl).elim
  case h_2 => exact (h rfl).elim

theorem foldl_hear_keyMessages (log : List Message) (on : Finset UInt8) :
    log.foldl hear on = (keyMessages log).foldl hear on := by
  induction log generalizing on with
  | nil => rfl
  | cons m log ih =>
      have hcons : keyMessages (m :: log) =
          if (controllerValue m).isNone then m :: keyMessages log else keyMessages log :=
        List.filter_cons
      rw [List.foldl_cons, ih, hcons]
      split_ifs with hc
      · rfl
      · rw [hear_controller (by simpa using hc)]

end Wires

section InStep

/-- The roles that are linked, and every link takes all that it is given. -/
structure Steady (server client : Bool) (l : Links) (a : Accepts) : Prop where
  uart : l.midiUartInitialized = true
  conHandle : l.conHandle.isSome = server
  clientConnected : l.clientConnected = client
  serverTakes : server = true → a.server = 3
  clientTakes : client = true → a.client = 3

def Sending.Steady (server client : Bool) : Sending → Prop
  | .values l a _ => ∀ r, Traffic.Steady server client l (a r)
  | .message l a _ => Traffic.Steady server client l a

def linked (server client : Bool) : Transport → Bool
  | .uart => true
  | .server => server
  | .client => client

/-- The verdict of `send` while the links are steady. -/
def verdict (server client : Bool) : Bool := server || !client

def lastReceived (t : Transport) (r : MidiValueRef) (s : Store Wires) : Option ℕ :=
  (received r (s.outer t)).getLast?

/-- The receiver at the end of `t` holds the value of `r`, and what the cache knows if it
knows anything. -/
structure InStep (ok : Bool) (t : Transport) (r : MidiValueRef) (s : Store Wires) : Prop where
  known : ∀ v, (s.values r).known = some v → ok = true ∧ lastReceived t r s = some v.toNat
  value : lastReceived t r s = some (s.values r).value.toNat

variable {server client : Bool} {l : Links} {t : Transport} {s : Store Wires}

theorem Steady.takes {a : Accepts} (h : Steady server client l a) (t : Transport) :
    takes l a 3 t = linked server client t := by
  cases t with
  | uart => exact h.uart
  | server =>
      simp only [Midi.takes, linked, h.conHandle]
      cases server with
      | false => rfl
      | true => simp [h.serverTakes rfl]
  | client =>
      simp only [Midi.takes, linked, h.clientConnected]
      cases client with
      | false => rfl
      | true => simp [h.clientTakes rfl]

theorem Steady.send_ok {a : Accepts} (h : Steady server client l a) (m : Message) (w : Wires) :
    (send l a 3 m w).1 = verdict server client := by
  rw [Midi.send_ok, h.takes, h.takes, h.takes, midiBleIsConnected, midiBleClientIsConnected,
    h.conHandle, h.clientConnected]
  cases server <;> cases client <;> rfl

section Sync
variable {a : MidiValueRef → Accepts} {r q : MidiValueRef}

/-- What a sync adds to what a receiver has got. -/
theorem midiValueSync_received (hs : s.InRange) (r q : MidiValueRef) (t : Transport) :
    received q ((midiValueSync (callback l a) r s).2.outer t) =
      if (s.values r).known ≠ some (s.values r).value ∧ r = q ∧ takes l (a r) 3 t = true then
        received q (s.outer t) ++ [(s.values r).value.toNat]
      else received q (s.outer t) := by
  have hle := (hs r).value_le
  rw [(hs r).maxValue] at hle
  rw [midiValueSync_outer]
  by_cases hknown : (s.values r).known = some (s.values r).value
  · rw [if_pos hknown, if_neg fun h => h.1 hknown]
  · rw [if_neg hknown, callback_received l a s.outer hle t]
    simp only [ne_eq, hknown, not_false_iff, true_and]

theorem InStep.sync_of_ne {ok : Bool} (h : InStep ok t q s) (hs : s.InRange) (hq : q ≠ r) :
    InStep ok t q (midiValueSync (callback l a) r s).2 := by
  have hlast : lastReceived t q (midiValueSync (callback l a) r s).2 = lastReceived t q s := by
    rw [lastReceived, midiValueSync_received hs, if_neg fun h => hq h.2.1.symm, lastReceived]
  refine ⟨?_, ?_⟩
  · rw [hlast, midiValueSync_of_ne _ s hq]
    exact h.known
  · rw [hlast, midiValueSync_of_ne _ s hq]
    exact h.value

/-- A sync brings the receiver in step, unless the cache knows what the receiver does not. -/
theorem sync_inStep (ha : ∀ r, Steady server client l (a r)) (ht : linked server client t = true)
    (hs : s.InRange) (hknown : ∀ v, (s.values r).known = some v →
      verdict server client = true ∧ lastReceived t r s = some v.toNat) :
    InStep (verdict server client) t r (midiValueSync (callback l a) r s).2 := by
  have hvalue := midiValueSync_value (callback l a) r r s
  by_cases hskip : (s.values r).known = some (s.values r).value
  · rw [midiValueSync_skip _ r s hskip]
    exact ⟨hknown, (hknown _ hskip).2⟩
  have hlast : lastReceived t r (midiValueSync (callback l a) r s).2 =
      some (s.values r).value.toNat := by
    rw [lastReceived, midiValueSync_received hs,
      if_pos ⟨hskip, rfl, ((ha r).takes t).trans ht⟩, List.getLast?_concat]
  refine ⟨fun v hv => ?_, by rw [hlast, hvalue]⟩
  rw [midiValueSync_known, ChangeCache.offer, if_neg hskip] at hv
  have hok : (callback l a r (s.values r) s.outer).1 = verdict server client :=
    (ha r).send_ok _ _
  rw [hok] at hv
  split_ifs at hv with hverdict
  · exact ⟨hverdict, by rw [hlast, Option.some.inj hv]⟩
  · exact (hverdict (hknown v hv).1).elim

theorem assign_inStep {ok : Bool} (h : InStep ok t q s) (r : MidiValueRef) (v : UInt16) (b : Bool) :
    ∀ w, ((assign r v b s).values q).known = some w →
      ok = true ∧ lastReceived t q (assign r v b s) = some w.toNat := by
  rw [assign_known]
  exact h.known

theorem set_inStep (ha : ∀ r, Steady server client l (a r)) (ht : linked server client t = true)
    (hs : s.InRange) (h : ∀ q, InStep (verdict server client) t q s) (r : MidiValueRef)
    (v : UInt16) (b : Bool) (q : MidiValueRef) :
    InStep (verdict server client) t q (midiValueSet (callback l a) r v b s) := by
  have hrange := assign_inRange hs r v b
  by_cases hq : q = r
  · subst q
    exact sync_inStep ha ht hrange (assign_inStep (h r) r v b)
  · have hassign : InStep (verdict server client) t q (assign r v b s) := by
      refine ⟨assign_inStep (h q) r v b, ?_⟩
      rw [assign, Store.update_of_ne _ _ hq]
      exact (h q).value
    exact hassign.sync_of_ne hrange hq

/-- A round of `midi_value_send_all` brings its value in step, whatever was before. -/
theorem round_inStep (ha : ∀ r, Steady server client l (a r)) (ht : linked server client t = true)
    (hs : s.InRange) (r : MidiValueRef) :
    InStep (verdict server client) t r (midiValueSync (callback l a) r (force r s)).2 := by
  refine sync_inStep ha ht (force_inRange hs r) fun v hv => ?_
  rw [force_known] at hv
  cases hv

theorem InStep.round_of_ne {ok : Bool} (h : InStep ok t q s) (hs : s.InRange) (hq : q ≠ r) :
    InStep ok t q (midiValueSync (callback l a) r (force r s)).2 := by
  have hforce : InStep ok t q (force r s) := by
    refine ⟨?_, ?_⟩
    · rw [force, Store.update_of_ne _ _ hq]
      exact h.known
    · rw [force, Store.update_of_ne _ _ hq]
      exact h.value
  exact hforce.sync_of_ne (force_inRange hs r) hq

theorem rounds_inStep (ha : ∀ r, Steady server client l (a r)) (ht : linked server client t = true)
    (rs : List MidiValueRef) :
    ∀ {s : Store Wires}, s.InRange →
      (∀ q, q ∈ rs ∨ InStep (verdict server client) t q s) →
      ∀ q, InStep (verdict server client) t q
        (rs.foldl (fun s r => (midiValueSync (callback l a) r (force r s)).2) s) := by
  induction rs with
  | nil => exact fun _ h q => (h q).resolve_left List.not_mem_nil
  | cons r rs ih =>
      intro s hs h q
      refine ih (midiValueSync_inRange (force_inRange hs r) _ r) (fun q => ?_) q
      by_cases hq : q = r
      · subst q
        exact .inr (round_inStep ha ht hs r)
      · refine (h q).imp (fun hmem => (List.mem_cons.mp hmem).resolve_left hq) fun hstep => ?_
        exact hstep.round_of_ne hs hq

theorem sendAll_inStep (ha : ∀ r, Steady server client l (a r))
    (ht : linked server client t = true) (hs : s.InRange) (q : MidiValueRef) :
    InStep (verdict server client) t q (midiValueSendAll (callback l a) s) :=
  rounds_inStep ha ht midiValues hs (fun q => .inl (mem_midiValues q)) q

end Sync

theorem values_inStep {a : MidiValueRef → Accepts} (ha : ∀ r, Steady server client l (a r))
    (ht : linked server client t = true) (hs : s.InRange)
    (h : ∀ q, InStep (verdict server client) t q s) (op : Op) (q : MidiValueRef) :
    InStep (verdict server client) t q (op.run (callback l a) s) := by
  cases op with
  | set r v b => exact set_inStep ha ht hs h r v b q
  | sendAll => exact sendAll_inStep ha ht hs q
  | menu r nav =>
      change InStep _ t q (menuStep (callback l a) r nav s)
      rw [menuStep_eq]
      cases menuTarget nav (s.values r).value with
      | none => exact h q
      | some v => exact set_inStep ha ht hs h r v true q

/-- A key message does not change what a receiver has for the controllers. -/
theorem send_received (l : Links) (a : Accepts) {m : Message} (hm : m.length = 3)
    (hnone : controllerValue m = none) (q : MidiValueRef) (t : Transport) (w : Wires) :
    received q ((send l a 3 m w).2 t) = received q (w t) := by
  have htake : m.take (3 : UInt8).toNat = m := List.take_of_length_le (by rw [hm]; rfl)
  rw [send_wires, htake]
  split_ifs
  · simp [received, hnone]
  · rfl

theorem carry_inStep (xs : List Sending) (ht : linked server client t = true) :
    ∀ {s : Store Wires} {ms : List Message}, Carried ms s →
      (∀ x ∈ xs, x.Regular ∧ x.Steady server client) →
      (∀ q, InStep (verdict server client) t q s) →
      ∀ q, InStep (verdict server client) t q (carry xs s) := by
  induction xs with
  | nil => exact fun _ _ h => h
  | cons x xs ih =>
      intro s ms hs hxs h
      obtain ⟨hregular, hsteady⟩ := hxs x List.mem_cons_self
      refine ih (hs.run hregular) (fun y hy => hxs y (List.mem_cons_of_mem x hy)) fun q => ?_
      cases x with
      | values l a op => exact values_inStep hsteady ht hs.inRange h op q
      | message l a m =>
          obtain ⟨hm, hnone⟩ := hregular.keys m (List.mem_singleton_self m)
          have hlast : lastReceived t q { s with outer := (send l a 3 m s.outer).2 } =
              lastReceived t q s :=
            congrArg List.getLast? (send_received l a hm hnone q t s.outer)
          exact ⟨fun v hv => hlast ▸ (h q).known v hv, hlast.trans (h q).value⟩

end InStep

end Keytar.Traffic
