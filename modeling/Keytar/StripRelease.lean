import Keytar.Menus

/-!
# What the strip leaves behind

A touch displaces the value that the strip is assigned to. With the reset flag the
value goes back to its default when the touch ends and when the strip is assigned
anew. The flag that counts is the one that was in force until then, so what is left
of a value depends on how its last assignment has ended.
-/
namespace Keytar.StripRelease
open AnalogStrip MidiValues

/-- A call of `analog_strip_task` with the reading that it finds, or an assignment. -/
inductive Op where
  | task (adcRead : UInt16)
  | assign (mv : Option MidiValueRef) (reset : Bool)
  deriving DecidableEq, Repr

/-- What the calls so far say about the assignments: the one in force, and for each
value the flag with which another value took the strip from it, if one has. -/
structure Past where
  strip : Strip
  lastUnassigned : MidiValueRef → Option Bool

def Past.next (past : Past) : Op → Past
  | .task _ => past
  | .assign mv reset =>
      ⟨⟨mv, reset⟩, fun r =>
        if past.strip.midiValue = some r ∧ mv ≠ some r then some past.strip.resetOnRelease
        else past.lastUnassigned r⟩

def past (ops : List Op) : Past := ops.foldl Past.next ⟨Strip.boot, fun _ => none⟩

theorem past_concat (ops : List Op) (op : Op) : past (ops ++ [op]) = (past ops).next op :=
  List.foldl_concat ..

/-- A value that the strip was never assigned to was never unassigned. -/
theorem past_never {r : MidiValueRef} {ops : List Op}
    (h : ∀ reset, Op.assign (some r) reset ∉ ops) :
    (past ops).strip.midiValue ≠ some r ∧ (past ops).lastUnassigned r = none := by
  induction ops using List.reverseRecOn with
  | nil => exact ⟨nofun, rfl⟩
  | append_singleton ops op ih =>
      obtain ⟨hstrip, hlast⟩ := ih fun reset hmem => h reset (List.mem_append_left _ hmem)
      rw [past_concat]
      cases op with
      | task adcRead => exact ⟨hstrip, hlast⟩
      | assign mv reset =>
          have hmv : mv ≠ some r := by
            rintro rfl
            exact h reset (List.mem_append_right _ List.mem_cons_self)
          exact ⟨hmv, (if_neg fun hr => hstrip hr.1).trans hlast⟩

section Runs
variable {σ : Type*}

def Op.run (send : Callback σ) : Op → Strip × Store σ → Strip × Store σ
  | .task adcRead, t => (t.1, analogStripTask send adcRead t.1 t.2)
  | .assign mv reset, t => analogStripAssign send mv reset t.1 t.2

/-- A run, in which every call finds its own send callbacks. -/
def run (steps : List (Callback σ × Op)) (s : Store σ) : Strip × Store σ :=
  steps.foldl (fun t step => step.2.run step.1 t) (Strip.boot, s)

def AtDefault (r : MidiValueRef) (s : Store σ) : Prop :=
  (s.values r).value = (s.values r).defaultValue

theorem midiValueSet_inRange {s : Store σ} (hs : s.InRange) (send : Callback σ) (r : MidiValueRef)
    (v : UInt16) (b : Bool) : (midiValueSet send r v b s).InRange :=
  midiValueSync_inRange (assign_inRange hs r v b) send r

/-- The default is in the range, so nothing is clamped. -/
theorem midiValueSet_default {s : Store σ} (hs : s.InRange) (send : Callback σ) (r : MidiValueRef)
    (b : Bool) : AtDefault r (midiValueSet send r (s.values r).defaultValue b s) := by
  have hboot : (bootValue r).minValue ≤ (bootValue r).defaultValue ∧
      (bootValue r).defaultValue ≤ (bootValue r).maxValue := by
    cases r <;> decide
  have hafter := (midiValueSet_inRange hs send r (s.values r).defaultValue b r).defaultValue
  rw [AtDefault, hafter, midiValueSet_self, (hs r).minValue, (hs r).maxValue, (hs r).defaultValue]
  exact clampU16_inside hboot.1 hboot.2

/-- The default and the value of another `midi_value` stay. -/
theorem AtDefault.set {s : Store σ} {q r : MidiValueRef} (h : AtDefault r s) (send : Callback σ)
    (v : UInt16) (b : Bool) (hr : r ≠ q) : AtDefault r (midiValueSet send q v b s) := by
  rw [AtDefault, midiValueSet_of_ne send v b s hr]
  exact h

/-- A call changes no value but the one that the strip is assigned to. -/
theorem Op.run_set (op : Op) (send : Callback σ) (t : Strip × Store σ) :
    (op.run send t).2 = t.2 ∨ ∃ q v, t.1.midiValue = some q ∧
      (op.run send t).2 = midiValueSet send q v false t.2 := by
  obtain ⟨⟨assigned, reset⟩, s⟩ := t
  cases assigned with
  | none => cases op <;> exact .inl rfl
  | some q =>
      cases op with
      | task adcRead =>
          simp only [Op.run, analogStripTask, analogStripRead]
          cases analogStripReadFloat adcRead with
          | some v => exact .inr ⟨q, _, rfl, rfl⟩
          | none =>
              cases reset with
              | true => exact .inr ⟨q, _, rfl, rfl⟩
              | false => exact .inl rfl
      | assign mv flag =>
          cases reset with
          | true => exact .inr ⟨q, _, rfl, rfl⟩
          | false => exact .inl rfl

theorem Op.run_inRange {t : Strip × Store σ} (ht : t.2.InRange) (op : Op) (send : Callback σ) :
    (op.run send t).2.InRange := by
  rcases op.run_set send t with h | ⟨q, v, -, h⟩
  · rwa [h]
  · rw [h]
    exact midiValueSet_inRange ht send q v false

theorem AtDefault.run {t : Strip × Store σ} {r : MidiValueRef} (h : AtDefault r t.2)
    (hr : t.1.midiValue ≠ some r) (op : Op) (send : Callback σ) :
    AtDefault r (op.run send t).2 := by
  rcases op.run_set send t with hsame | ⟨q, v, hq, hset⟩
  · rwa [hsame]
  · rw [hset]
    refine h.set send v false ?_
    rintro rfl
    exact hr hq

section Reset
variable {t : Strip × Store σ} (ht : t.2.InRange) (send : Callback σ) {r : MidiValueRef}
  (hr : t.1 = ⟨some r, true⟩)

include ht hr

/-- The end of a touch. -/
theorem task_released {adcRead : UInt16} (hoff : offThresholdValue < adcRead.toUInt32) :
    AtDefault r ((Op.task adcRead).run send t).2 := by
  have hread : analogStripReadFloat adcRead = none := if_pos hoff
  simp only [Op.run, analogStripTask, analogStripRead, hr, hread, if_true]
  exact midiValueSet_default ht send r false

/-- The next assignment, of the same value or of another one. -/
theorem assign_released (mv : Option MidiValueRef) (reset : Bool) :
    AtDefault r ((Op.assign mv reset).run send t).2 := by
  simp only [Op.run, analogStripAssign, hr, if_true]
  exact midiValueSet_default ht send r false

end Reset

/-- What holds between the calls. -/
structure Settled (ops : List Op) (t : Strip × Store σ) : Prop where
  inRange : t.2.InRange
  strip : (past ops).strip = t.1
  unassigned : ∀ r, t.1.midiValue ≠ some r → (past ops).lastUnassigned r ≠ some false →
    AtDefault r t.2

theorem Settled.step {ops : List Op} {t : Strip × Store σ} (h : Settled ops t) (op : Op)
    (send : Callback σ) : Settled (ops ++ [op]) (op.run send t) where
  inRange := op.run_inRange h.inRange send
  strip := by
    rw [past_concat]
    cases op with
    | task adcRead => exact h.strip
    | assign mv reset => rfl
  unassigned := by
    intro r hr hlast
    rw [past_concat] at hlast
    cases op with
    | task adcRead => exact (h.unassigned r hr hlast).run hr _ send
    | assign mv reset =>
        have hmv : mv ≠ some r := hr
        simp only [Past.next, h.strip] at hlast
        by_cases hold : t.1.midiValue = some r
        · -- the value is given up by this very call, so its flag decides
          rw [if_pos ⟨hold, hmv⟩] at hlast
          have hflag : t.1 = ⟨some r, true⟩ := by
            obtain ⟨⟨assigned, flag⟩, s⟩ := t
            cases flag with
            | true => exact congrArg (Strip.mk · true) hold
            | false => exact (hlast rfl).elim
          exact assign_released h.inRange send hflag mv reset
        · rw [if_neg fun hc => hold hc.1] at hlast
          exact (h.unassigned r hold hlast).run hold _ send

theorem run_settled {s : Store σ} (hs : s.InRange) (hdefault : ∀ r, AtDefault r s)
    (steps : List (Callback σ × Op)) : Settled (steps.map Prod.snd) (run steps s) := by
  induction steps using List.reverseRecOn with
  | nil => exact ⟨hs, rfl, fun r _ _ => hdefault r⟩
  | append_singleton steps step ih =>
      rw [List.map_append, run, List.foldl_append]
      exact ih.step step.2 step.1

/-- In every run from the defaults, whatever the sends answer: the end of a touch and
a new assignment bring the value back that was assigned with the reset flag, and a
value that is not assigned is at its default unless the strip was last taken from it
without the flag. -/
theorem released_atDefault {s : Store σ} (hs : s.InRange) (hdefault : ∀ r, AtDefault r s)
    (steps : List (Callback σ × Op)) :
    let t := run steps s
    let ops := steps.map Prod.snd
    (∀ (send : Callback σ) (adcRead : UInt16) (r : MidiValueRef), t.1 = ⟨some r, true⟩ →
      offThresholdValue < adcRead.toUInt32 → AtDefault r ((Op.task adcRead).run send t).2) ∧
    (∀ (send : Callback σ) (mv : Option MidiValueRef) (reset : Bool) (r : MidiValueRef),
      t.1 = ⟨some r, true⟩ → AtDefault r ((Op.assign mv reset).run send t).2) ∧
    ∀ r, t.1.midiValue ≠ some r →
      ((past ops).lastUnassigned r = some true ∨ ∀ reset, Op.assign (some r) reset ∉ ops) →
      AtDefault r t.2 := by
  intro t ops
  have hsettled := run_settled hs hdefault steps
  refine ⟨fun send adcRead r hr hoff => task_released hsettled.inRange send hr hoff,
    fun send mv reset r hr => assign_released hsettled.inRange send hr mv reset,
    fun r hr hpast => hsettled.unassigned r hr ?_⟩
  rcases hpast with hlast | hnever
  · rw [hlast]
    simp
  · rw [(past_never hnever).2]
    exact nofun

/-- A send that always fails. -/
def refused : Callback Unit := fun _ _ outer => (false, outer)

/-- The pitch bend is touched and given up with the flag, the modulation without it, and
the attack is touched with the flag. -/
def handedOver : List (Callback Unit × Op) :=
  [.assign (some .mvPitchbend) true, .task 1900, .assign (some .mvMod) false, .task 1900,
    .assign (some .mvAttack) true, .task 1900].map fun op => (refused, op)

example : ((run handedOver (boot ())).2.values .mvMod).value = 63 ∧
    ((run handedOver (boot ())).2.values .mvAttack).value = 63 := by decide +kernel

/-- The pitch bend has been given up with the flag; the attack is let go of, or given up. -/
theorem handedOver_atDefault :
    AtDefault .mvPitchbend (run handedOver (boot ())).2 ∧
      AtDefault .mvAttack ((Op.task 4000).run refused (run handedOver (boot ()))).2 ∧
      AtDefault .mvAttack
        ((Op.assign (some .mvDecay) false).run refused (run handedOver (boot ()))).2 := by
  have hdefault : ∀ r, AtDefault r (boot () : Store Unit) := fun r => by cases r <;> rfl
  obtain ⟨htask, hassign, hunassigned⟩ :=
    released_atDefault (boot_inRange ()) hdefault handedOver
  exact ⟨hunassigned .mvPitchbend (by decide) (.inl rfl),
    htask refused 4000 .mvAttack rfl (by decide),
    hassign refused (some .mvDecay) false .mvAttack rfl⟩

end Runs

section Callers
open Menus MidiBle

/-- What `main`, the select and the checkbox do to the strip is such a call. -/
theorem assignStrip_run (a : Answers) (mv : Option MidiValueRef) (reset : Bool) (w : World) :
    ((assignStrip a mv reset w).rest.strip, (assignStrip a mv reset w).rest.midi) =
      (Op.assign mv reset).run (callback (links a.radio w.rest.ble) a.accepts)
        (w.rest.strip, w.rest.midi) := rfl

end Callers

end Keytar.StripRelease
