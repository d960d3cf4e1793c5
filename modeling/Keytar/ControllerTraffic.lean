import Keytar.MidiValues

/-!
# Traffic of one controller in each link configuration

Every write to a connected transport takes all bytes. A freshly booted value is
set over and over, as the main loop does with the value of the strip. Whether
repetitions are suppressed rests on the verdict of `send`, which is positive
without a BLE link and with a server link, and negative with a client link.
-/
namespace Keytar.ControllerTraffic
open Midi MidiValues

inductive LinkConfig where
  | noBleLink
  | serverOnly (handle : ConHandle)
  | clientOnly
  deriving DecidableEq, Repr

def LinkConfig.links : LinkConfig → Links
  | .noBleLink => ⟨true, none, false⟩
  | .serverOnly handle => ⟨true, some handle, false⟩
  | .clientOnly => ⟨true, none, true⟩

def LinkConfig.connected : LinkConfig → List Transport
  | .noBleLink => [.uart]
  | .serverOnly _ => [.uart, .server]
  | .clientOnly => [.uart, .client]

/-- The verdict of `send` when every connected transport takes the message. -/
def LinkConfig.verdict : LinkConfig → Bool
  | .clientOnly => false
  | _ => true

def allBytes : Accepts := ⟨3, 3⟩

def setOnce (cfg : LinkConfig) (r : MidiValueRef) (s : Store Wires) (v : UInt16 × Bool) :
    Store Wires :=
  midiValueSet (callback cfg.links fun _ => allBytes) r v.1 v.2 s

/-- A sequence of `midi_value_set` calls on one value. -/
def setAll (cfg : LinkConfig) (r : MidiValueRef) (sets : List (UInt16 × Bool))
    (s : Store Wires) : Store Wires :=
  sets.foldl (setOnce cfg r) s

/-- The set values as `clamp_u16` brings them into the range of `r`. -/
def clamped (r : MidiValueRef) (sets : List (UInt16 × Bool)) : List UInt16 :=
  sets.map fun v => clampU16 v.1 (bootValue r).minValue (bootValue r).maxValue

theorem callback_verdict (cfg : LinkConfig) (r : MidiValueRef) (mv : MidiValue) (w : Wires) :
    (callback cfg.links (fun _ => allBytes) r mv w).1 = cfg.verdict := by
  rw [callback, send_ok]
  cases cfg <;> rfl

theorem takes_connected (cfg : LinkConfig) {t : Transport} (ht : t ∈ cfg.connected) :
    takes cfg.links allBytes 3 t = true := by
  cases cfg <;> cases t <;> simp_all [LinkConfig.connected, LinkConfig.links, takes, allBytes]

section Step
variable (cfg : LinkConfig) (r : MidiValueRef) {s : Store Wires} (v : UInt16 × Bool)

theorem setOnce_inRange (hs : s.InRange) : (setOnce cfg r s v).InRange :=
  midiValueSync_inRange (assign_inRange hs r v.1 v.2) _ r

theorem assign_clamped (hs : s.InRange) :
    ((assign r v.1 v.2 s).values r).value =
      clampU16 v.1 (bootValue r).minValue (bootValue r).maxValue := by
  rw [assign_value, (hs r).minValue, (hs r).maxValue]

/-- One set moves the cache like one offer to a peer that answers the verdict. -/
theorem setOnce_known (hs : s.InRange) :
    ((setOnce cfg r s v).values r).known =
      ChangeCache.offer (s.values r).known
        (clampU16 v.1 (bootValue r).minValue (bootValue r).maxValue) cfg.verdict := by
  rw [setOnce, midiValueSet, midiValueSync_known, callback_verdict, assign_known,
    assign_clamped r v hs]

theorem setOnce_received (hs : s.InRange) {t : Transport} (ht : t ∈ cfg.connected) :
    received r ((setOnce cfg r s v).outer t) =
      received r (s.outer t) ++
        if (s.values r).known =
            some (clampU16 v.1 (bootValue r).minValue (bootValue r).maxValue) then []
        else [(clampU16 v.1 (bootValue r).minValue (bootValue r).maxValue).toNat] := by
  have hvalue := assign_clamped r v hs
  have hle : ((assign r v.1 v.2 s).values r).value ≤ (bootValue r).maxValue := by
    rw [hvalue]
    exact clampU16_le _ _ _ (bootValue_min_le_max r)
  have hsent := callback_received cfg.links (fun _ => allBytes) (q := r) s.outer hle t
  rw [if_pos ⟨rfl, takes_connected cfg ht⟩, hvalue] at hsent
  have hverdict := callback_verdict cfg r ((assign r v.1 v.2 s).values r)
    (assign r v.1 v.2 s).outer
  split_ifs with hk
  · rw [setOnce, midiValueSet, midiValueSync_skip _ _ _ (by rw [assign_known, hvalue, hk])]
    simp [assign]
  · have hk' : ((assign r v.1 v.2 s).values r).known ≠
        some ((assign r v.1 v.2 s).values r).value := by rwa [assign_known, hvalue]
    cases hc : cfg.verdict with
    | true =>
        rw [setOnce, midiValueSet, midiValueSync_sent _ _ _ hk' (hverdict.trans hc)]
        exact hsent
    | false =>
        rw [setOnce, midiValueSet, midiValueSync_refused _ _ _ hk' (hverdict.trans hc)]
        exact hsent

end Step

/-- A connected transport receives what the abstract sender lets through. -/
theorem setAll_received (cfg : LinkConfig) (r : MidiValueRef) (sets : List (UInt16 × Bool))
    {s : Store Wires} (hs : s.InRange) {t : Transport} (ht : t ∈ cfg.connected) :
    received r ((setAll cfg r sets s).outer t) =
      received r (s.outer t) ++
        (ChangeCache.attempts (s.values r).known
          ((clamped r sets).map (·, cfg.verdict))).map UInt16.toNat := by
  induction sets generalizing s with
  | nil => simp [setAll, clamped, ChangeCache.attempts]
  | cons v sets ih =>
      have hrest := ih (setOnce_inRange cfg r v hs)
      simp only [setAll, List.foldl_cons] at hrest ⊢
      rw [hrest, setOnce_received cfg r v hs ht, setOnce_known cfg r v hs]
      by_cases hk : (s.values r).known =
          some (clampU16 v.1 (bootValue r).minValue (bootValue r).maxValue)
      · simp [clamped, ChangeCache.attempts, ChangeCache.offer, hk]
      · simp [clamped, ChangeCache.attempts, hk]

/-- Every connected transport gets the clamped values without their repetitions. -/
def Deduplicated (cfg : LinkConfig) (r : MidiValueRef) (sets : List (UInt16 × Bool)) : Prop :=
  ∀ t ∈ cfg.connected, received r ((setAll cfg r sets (boot idle)).outer t) =
    ((clamped r sets).destutter (· ≠ ·)).map UInt16.toNat

theorem map_toNat_inj {l m : List UInt16} : l.map UInt16.toNat = m.map UInt16.toNat ↔ l = m :=
  (List.map_injective_iff.mpr fun _ _ h => UInt16.toNat_inj.mp h).eq_iff

/-- Deduplication works without a BLE link and with a server link. With a
client link it works only where there is nothing to suppress. -/
theorem deduplicated_iff (cfg : LinkConfig) (r : MidiValueRef) (sets : List (UInt16 × Bool)) :
    Deduplicated cfg r sets ↔
      (cfg = .clientOnly → (clamped r sets).IsChain (· ≠ ·)) := by
  have hrun : ∀ t ∈ cfg.connected, received r ((setAll cfg r sets (boot idle)).outer t) =
      (ChangeCache.attempts none ((clamped r sets).map (·, cfg.verdict))).map UInt16.toNat := by
    intro t ht
    rw [setAll_received cfg r sets (boot_inRange idle) ht]
    simp [boot, idle]
  have huart : Transport.uart ∈ cfg.connected := by cases cfg <;> simp [LinkConfig.connected]
  have hattempts : Deduplicated cfg r sets ↔
      ChangeCache.attempts none ((clamped r sets).map (·, cfg.verdict)) =
        (clamped r sets).destutter (· ≠ ·) := by
    constructor
    · intro h
      exact map_toNat_inj.mp ((hrun _ huart).symm.trans (h _ huart))
    · intro h t ht
      rw [hrun t ht, h]
  rw [hattempts]
  cases cfg with
  | clientOnly =>
      simpa [LinkConfig.verdict] using ChangeCache.attempts_refused_eq_iff (clamped r sets)
  | _ => simpa [LinkConfig.verdict] using ChangeCache.attempts_acknowledged (clamped r sets)

/-- With a client link, setting modulation to 5 twice sends it twice. -/
theorem clientOnly_repeats :
    ¬ ∀ (cfg : LinkConfig) (r : MidiValueRef) (sets : List (UInt16 × Bool)),
      Deduplicated cfg r sets := by
  intro h
  have hbad := h .clientOnly .mvMod [(5, false), (5, false)] .client (by decide)
  exact absurd hbad (by decide)

end Keytar.ControllerTraffic
