import Keytar.Lib.ChangeCache
import Keytar.Midi
import Mathlib.Logic.Function.Basic

/-!
# Controller values and their send-on-change cache

The six `midi_value` globals are addressed by `MidiValueRef`; a pointer to one
of them is such a reference. Every operation takes the send callbacks as a
parameter over an arbitrary outer state, as the C code calls them through a
function pointer. `callback` is the real table, over the wires of the transports.
-/
namespace Keytar.MidiValues
open Keytar.Midi

/-- The globals `mv_pitchbend` to `mv_release`. -/
inductive MidiValueRef where
  | mvPitchbend | mvMod | mvAttack | mvDecay | mvSustain | mvRelease
  deriving DecidableEq, Repr

structure MidiValue where
  value : UInt16
  settingsValue : UInt16
  sentValue : UInt16
  forceSend : Bool
  minValue : UInt16
  maxValue : UInt16
  defaultValue : UInt16
  label : String
  deriving DecidableEq, Repr

/-- The initialiser that the macro MIDI_VALUE expands to. -/
def midiValueInit (label : String) (default min max : UInt16) : MidiValue where
  value := default
  settingsValue := default
  sentValue := default
  forceSend := true
  minValue := min
  maxValue := max
  defaultValue := default
  label := label

def bootValue : MidiValueRef → MidiValue
  | .mvPitchbend => midiValueInit "Pitchbend" 8192 0 0x3fff
  | .mvMod => midiValueInit "Modulation" 0 0 127
  | .mvAttack => midiValueInit "Attack" 0 0 127
  | .mvDecay => midiValueInit "Decay" 0 0 127
  | .mvSustain => midiValueInit "Sustain" 0 0 127
  | .mvRelease => midiValueInit "Release" 0 0 127

/-- The array `midi_values` up to its terminating NULL. -/
def midiValues : List MidiValueRef :=
  [.mvPitchbend, .mvMod, .mvAttack, .mvDecay, .mvSustain, .mvRelease]

def clampU16 (v minV maxV : UInt16) : UInt16 :=
  if v < minV then minV else if v > maxV then maxV else v

theorem clampU16_ge (v lo hi : UInt16) (h : lo ≤ hi) : lo ≤ clampU16 v lo hi := by
  unfold clampU16
  split_ifs <;> grind

theorem clampU16_le (v lo hi : UInt16) (h : lo ≤ hi) : clampU16 v lo hi ≤ hi := by
  unfold clampU16
  split_ifs <;> grind

theorem clampU16_inside {v lo hi : UInt16} (hlo : lo ≤ v) (hhi : v ≤ hi) :
    clampU16 v lo hi = v := by
  rw [clampU16, if_neg (UInt16.not_lt.mpr hlo), if_neg (UInt16.not_lt.mpr hhi)]

/-- The globals together with the state that the send callbacks act on. -/
structure Store (σ : Type*) where
  values : MidiValueRef → MidiValue
  outer : σ

abbrev Callback (σ : Type*) := MidiValueRef → MidiValue → σ → Bool × σ

def boot {σ : Type*} (outer : σ) : Store σ := ⟨bootValue, outer⟩

section Operations
variable {σ : Type*}

def Store.update (s : Store σ) (r : MidiValueRef) (mv : MidiValue) : Store σ :=
  { s with values := Function.update s.values r mv }

@[simp] theorem Store.update_outer (s : Store σ) (r : MidiValueRef) (mv : MidiValue) :
    (s.update r mv).outer = s.outer := rfl

@[simp] theorem Store.update_self (s : Store σ) (r : MidiValueRef) (mv : MidiValue) :
    (s.update r mv).values r = mv := Function.update_self ..

theorem Store.update_of_ne (s : Store σ) {r q : MidiValueRef} (mv : MidiValue) (h : q ≠ r) :
    (s.update r mv).values q = s.values q := Function.update_of_ne h ..

def midiValueSync (send : Callback σ) (r : MidiValueRef) (s : Store σ) : Bool × Store σ :=
  let mv := s.values r
  if !mv.forceSend && mv.value == mv.sentValue then (true, s)
  else
    let sent := send r mv s.outer
    if !sent.1 then (false, { s with outer := sent.2 })
    else
      (true, { s with outer := sent.2 }.update r
        { mv with forceSend := false, sentValue := mv.value })

/-- `midi_value_set` up to its call of `midi_value_sync`. -/
def assign (r : MidiValueRef) (value : UInt16) (setSetting : Bool) (s : Store σ) : Store σ :=
  let mv := s.values r
  let clamped := clampU16 value mv.minValue mv.maxValue
  s.update r { mv with
    value := clamped
    settingsValue := if setSetting then clamped else mv.settingsValue }

def midiValueSet (send : Callback σ) (r : MidiValueRef) (value : UInt16) (setSetting : Bool)
    (s : Store σ) : Store σ :=
  (midiValueSync send r (assign r value setSetting s)).2

/-- One round of the loop in `midi_value_send_all`, up to its call of `midi_value_sync`. -/
def force (r : MidiValueRef) (s : Store σ) : Store σ :=
  s.update r { s.values r with forceSend := true }

def midiValueSendAll (send : Callback σ) (s : Store σ) : Store σ :=
  midiValues.foldl (fun s r => (midiValueSync send r (force r s)).2) s

/-- What the cache of one value claims its peers hold. -/
def MidiValue.known (mv : MidiValue) : Option UInt16 :=
  if mv.forceSend then none else some mv.sentValue

@[simp] theorem bootValue_known (r : MidiValueRef) : (bootValue r).known = none := by
  cases r <;> rfl

theorem skips_iff (mv : MidiValue) :
    (!mv.forceSend && mv.value == mv.sentValue) = true ↔ mv.known = some mv.value := by
  cases h : mv.forceSend
  · simpa [MidiValue.known, h] using eq_comm
  · simp [MidiValue.known, h]

theorem midiValueSync_skip (send : Callback σ) (r : MidiValueRef) (s : Store σ)
    (h : (s.values r).known = some (s.values r).value) :
    midiValueSync send r s = (true, s) := by
  rw [midiValueSync, if_pos ((skips_iff _).mpr h)]

theorem midiValueSync_refused (send : Callback σ) (r : MidiValueRef) (s : Store σ)
    (h : (s.values r).known ≠ some (s.values r).value)
    (hs : (send r (s.values r) s.outer).1 = false) :
    midiValueSync send r s = (false, ⟨s.values, (send r (s.values r) s.outer).2⟩) := by
  rw [midiValueSync, if_neg (fun hp => h ((skips_iff _).mp hp))]
  simp [hs]

theorem midiValueSync_sent (send : Callback σ) (r : MidiValueRef) (s : Store σ)
    (h : (s.values r).known ≠ some (s.values r).value)
    (hs : (send r (s.values r) s.outer).1 = true) :
    midiValueSync send r s =
      (true, (⟨s.values, (send r (s.values r) s.outer).2⟩ : Store σ).update r
        { s.values r with forceSend := false, sentValue := (s.values r).value }) := by
  rw [midiValueSync, if_neg (fun hp => h ((skips_iff _).mp hp))]
  simp [hs]

/-- A sync changes at most the cache of its own value. -/
theorem midiValueSync_values (send : Callback σ) (r : MidiValueRef) (s : Store σ) :
    (midiValueSync send r s).2.values = s.values ∨
      (midiValueSync send r s).2.values = (s.update r
        { s.values r with forceSend := false, sentValue := (s.values r).value }).values := by
  by_cases h : (s.values r).known = some (s.values r).value
  · exact .inl (by rw [midiValueSync_skip send r s h])
  · cases hs : (send r (s.values r) s.outer).1 with
    | false => exact .inl (by rw [midiValueSync_refused send r s h hs])
    | true => exact .inr (by rw [midiValueSync_sent send r s h hs]; rfl)

theorem midiValueSync_value (send : Callback σ) (r q : MidiValueRef) (s : Store σ) :
    ((midiValueSync send r s).2.values q).value = (s.values q).value := by
  rcases midiValueSync_values send r s with h | h
  · rw [h]
  · rw [h]
    by_cases hq : q = r
    · subst q
      simp
    · rw [Store.update_of_ne _ _ hq]

theorem midiValueSync_of_ne (send : Callback σ) {r q : MidiValueRef} (s : Store σ)
    (hq : q ≠ r) : (midiValueSync send r s).2.values q = s.values q := by
  rcases midiValueSync_values send r s with h | h
  · rw [h]
  · rw [h, Store.update_of_ne _ _ hq]

/-- The cache of a value is the abstract one: `force_send` is ignorance. -/
theorem midiValueSync_known (send : Callback σ) (r : MidiValueRef) (s : Store σ) :
    ((midiValueSync send r s).2.values r).known =
      ChangeCache.offer (s.values r).known (s.values r).value
        (send r (s.values r) s.outer).1 := by
  unfold ChangeCache.offer
  split_ifs with h hs
  · rw [midiValueSync_skip send r s h]
  · rw [midiValueSync_sent send r s h hs]
    simp [MidiValue.known]
  · rw [midiValueSync_refused send r s h (by simpa using hs)]

@[simp] theorem assign_known (r : MidiValueRef) (v : UInt16) (b : Bool) (s : Store σ)
    (q : MidiValueRef) : ((assign r v b s).values q).known = (s.values q).known := by
  by_cases hq : q = r
  · subst q
    simp [assign, MidiValue.known]
  · rw [assign, Store.update_of_ne _ _ hq]

@[simp] theorem assign_value (r : MidiValueRef) (v : UInt16) (b : Bool) (s : Store σ) :
    ((assign r v b s).values r).value =
      clampU16 v (s.values r).minValue (s.values r).maxValue := by
  simp [assign]

/-- The value is set whether it can be sent or not. -/
theorem midiValueSet_self (send : Callback σ) (r : MidiValueRef) (v : UInt16) (b : Bool)
    (s : Store σ) : ((midiValueSet send r v b s).values r).value =
      clampU16 v (s.values r).minValue (s.values r).maxValue := by
  rw [midiValueSet, midiValueSync_value, assign_value]

theorem midiValueSet_of_ne (send : Callback σ) {r q : MidiValueRef} (v : UInt16) (b : Bool)
    (s : Store σ) (hq : q ≠ r) : (midiValueSet send r v b s).values q = s.values q := by
  rw [midiValueSet, midiValueSync_of_ne send _ hq, assign, Store.update_of_ne _ _ hq]

@[simp] theorem force_known (r : MidiValueRef) (s : Store σ) :
    ((force r s).values r).known = none := by
  simp [force, MidiValue.known]

end Operations

section Bounds
variable {σ : Type*}

/-- What no operation changes about a value, and the range that it keeps. -/
structure MidiValue.InRange (r : MidiValueRef) (mv : MidiValue) : Prop where
  minValue : mv.minValue = (bootValue r).minValue
  maxValue : mv.maxValue = (bootValue r).maxValue
  defaultValue : mv.defaultValue = (bootValue r).defaultValue
  label : mv.label = (bootValue r).label
  value_ge : mv.minValue ≤ mv.value
  value_le : mv.value ≤ mv.maxValue
  settings_ge : mv.minValue ≤ mv.settingsValue
  settings_le : mv.settingsValue ≤ mv.maxValue

def Store.InRange (s : Store σ) : Prop := ∀ r, MidiValue.InRange r (s.values r)

theorem bootValue_inRange (r : MidiValueRef) : MidiValue.InRange r (bootValue r) := by
  cases r <;> constructor <;> decide

theorem boot_inRange (outer : σ) : (boot outer).InRange := bootValue_inRange

theorem bootValue_min_le_max (r : MidiValueRef) :
    (bootValue r).minValue ≤ (bootValue r).maxValue := by
  cases r <;> decide

theorem Store.InRange.update {s : Store σ} (hs : s.InRange) {r : MidiValueRef} {mv : MidiValue}
    (h : MidiValue.InRange r mv) : (s.update r mv).InRange := by
  intro q
  by_cases hq : q = r
  · subst q
    simpa using h
  · rw [Store.update_of_ne _ _ hq]
    exact hs q

theorem assign_inRange {s : Store σ} (hs : s.InRange) (r : MidiValueRef) (v : UInt16) (b : Bool) :
    (assign r v b s).InRange := by
  have h := hs r
  have hb : (s.values r).minValue ≤ (s.values r).maxValue := by
    rw [h.minValue, h.maxValue]
    exact bootValue_min_le_max r
  have hge := clampU16_ge v _ _ hb
  have hle := clampU16_le v _ _ hb
  refine hs.update ⟨h.minValue, h.maxValue, h.defaultValue, h.label, hge, hle, ?_, ?_⟩
  · cases b
    · exact h.settings_ge
    · exact hge
  · cases b
    · exact h.settings_le
    · exact hle

theorem force_inRange {s : Store σ} (hs : s.InRange) (r : MidiValueRef) : (force r s).InRange :=
  hs.update { hs r with }

theorem midiValueSync_inRange {s : Store σ} (hs : s.InRange) (send : Callback σ)
    (r : MidiValueRef) : (midiValueSync send r s).2.InRange := by
  intro q
  rcases midiValueSync_values send r s with h | h
  · rw [h]
    exact hs q
  · have hsent : (s.update r { s.values r with
        forceSend := false, sentValue := (s.values r).value }).InRange := hs.update { hs r with }
    rw [h]
    exact hsent q

end Bounds

/-- The message that the send callback of a value builds. -/
def message (r : MidiValueRef) (mv : MidiValue) : Message :=
  match r with
  | .mvPitchbend =>
      let low := (mv.value &&& 0x7f).toUInt8
      let high := ((mv.value >>> 7) &&& 0x7f).toUInt8
      midiPitchbend low high
  | .mvMod => midiCcMod mv.value.toUInt8
  | .mvAttack => midiCcAttack mv.value.toUInt8
  | .mvDecay => midiCcDecay mv.value.toUInt8
  | .mvSustain => midiCcSustain mv.value.toUInt8
  | .mvRelease => midiCcRelease mv.value.toUInt8

/-- The callbacks `send_pitchbend` to `send_release`, the outcome of each
Bluetooth write being chosen by `a`. -/
def callback (l : Links) (a : MidiValueRef → Accepts) : Callback Wires :=
  fun r mv w => send l (a r) 3 (message r mv) w

def ccController (number : UInt8) : Option MidiValueRef :=
  if number = ccModulation then some .mvMod
  else if number = ccSoundController4Attack then some .mvAttack
  else if number = ccSoundController6Decay then some .mvDecay
  else if number = ccSoundController7Sustain then some .mvSustain
  else if number = ccSoundController3Release then some .mvRelease
  else none

/-- How a receiver reads a controller message: which value it is for and what
it carries, a pitch bend being split into seven low and seven high bits. -/
def controllerValue : Message → Option (MidiValueRef × ℕ)
  | [status, data1, data2] =>
      if status = cmdPitchbend then some (.mvPitchbend, data1.toNat + 128 * data2.toNat)
      else if status = cmdCc then (ccController data1).map (·, data2.toNat)
      else none
  | _ => none

theorem toUInt8_toNat {v : UInt16} (h : v ≤ 127) : v.toUInt8.toNat = v.toNat := by
  have : v.toNat ≤ 127 := by simpa using UInt16.le_iff_toNat_le.mp h
  rw [UInt16.toNat_toUInt8]
  omega

theorem and7f_toNat (v : UInt16) : (v &&& 0x7f).toUInt8.toNat = v.toNat % 128 := by
  have hand : (v &&& 0x7f).toNat = v.toNat % 2 ^ 7 :=
    (UInt16.toNat_and v 0x7f).trans (Nat.and_two_pow_sub_one_eq_mod v.toNat 7)
  rw [UInt16.toNat_toUInt8, hand]
  omega

theorem shiftRight7_toNat (v : UInt16) : (v >>> 7).toNat = v.toNat / 128 :=
  (UInt16.toNat_shiftRight v 7).trans (Nat.shiftRight_eq_div_pow v.toNat 7)

/-- Within its range a value goes onto the wire without loss. -/
theorem controllerValue_message {r : MidiValueRef} {mv : MidiValue}
    (h : mv.value ≤ (bootValue r).maxValue) :
    controllerValue (message r mv) = some (r, mv.value.toNat) := by
  cases r with
  | mvPitchbend =>
      have hv : mv.value.toNat ≤ 0x3fff := UInt16.le_iff_toNat_le.mp h
      have hsplit : mv.value.toNat % 128 + 128 * (mv.value.toNat / 128 % 128) =
          mv.value.toNat := by omega
      simp only [message, midiPitchbend, controllerValue, if_true, and7f_toNat,
        shiftRight7_toNat, hsplit]
  | _ =>
      have hv := toUInt8_toNat (v := mv.value) h
      simp [message, midiCcMod, midiCcAttack, midiCcDecay, midiCcSustain, midiCcRelease, midiCc,
        controllerValue, hv, cmdCc, cmdPitchbend, ccController, ccModulation,
        ccSoundController4Attack, ccSoundController6Decay, ccSoundController7Sustain,
        ccSoundController3Release]

/-- The values that a receiver has got for one controller, oldest first. -/
def received (r : MidiValueRef) (log : List Message) : List ℕ :=
  log.filterMap fun msg =>
    (controllerValue msg).bind fun p => if p.1 = r then some p.2 else none

@[simp] theorem received_nil (r : MidiValueRef) : received r [] = [] := rfl

theorem received_concat {q r : MidiValueRef} {mv : MidiValue} (log : List Message)
    (h : mv.value ≤ (bootValue r).maxValue) :
    received q (log ++ [message r mv]) =
      if r = q then received q log ++ [mv.value.toNat] else received q log := by
  have hmsg := controllerValue_message h
  by_cases hq : r = q
  · subst q
    simp [received, hmsg]
  · simp [received, hmsg, hq]

theorem message_take (r : MidiValueRef) (mv : MidiValue) :
    (message r mv).take (3 : UInt8).toNat = message r mv := by
  cases r <;> rfl

/-- What one run of a send callback adds to what each receiver has got. -/
theorem callback_received (l : Links) (a : MidiValueRef → Accepts) {q r : MidiValueRef}
    {mv : MidiValue} (w : Wires) (h : mv.value ≤ (bootValue r).maxValue) (t : Transport) :
    received q ((callback l a r mv w).2 t) =
      if r = q ∧ takes l (a r) 3 t = true then received q (w t) ++ [mv.value.toNat]
      else received q (w t) := by
  rw [callback, send_wires, message_take]
  by_cases ht : takes l (a r) 3 t = true
  · rw [if_pos ht, received_concat _ h]
    simp [ht]
  · simp [ht]

end Keytar.MidiValues
