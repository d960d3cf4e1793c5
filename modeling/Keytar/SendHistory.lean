import Keytar.MidiValues
import Keytar.Ui.Element
import Mathlib.Data.List.DropRight

/-!
# The cache of the controller values as a law about the past

Runs of the operations on the six values are recorded: each call of a send
callback with the value that it is given and its answer, and each start of a
`midi_value_send_all`. The two cached fields turn out to hold the value of the
last success since the last such start, and nothing if there was none.
-/
namespace Keytar.SendHistory
open MidiValues Ui

inductive Entry where
  | resend
  | sent (r : MidiValueRef) (value : UInt16) (ok : Bool)
  deriving DecidableEq, Repr

abbrev History := List Entry

inductive Op where
  | set (r : MidiValueRef) (value : UInt16) (setSetting : Bool)
  | sendAll
  | menu (r : MidiValueRef) (nav : Nav)

section Operations
variable {σ : Type*}

/-- `ui_menu_item_midi_value_navigate` without its redraw. -/
def menuStep (send : Callback σ) (r : MidiValueRef) (nav : Nav) (s : Store σ) : Store σ :=
  let value := (s.values r).value
  match nav with
  | .left => if value = 0 then s else midiValueSet send r (value - 1) true s
  | .right => if value = 0xffff then s else midiValueSet send r (value + 1) true s
  | _ => s

def Op.run (send : Callback σ) : Op → Store σ → Store σ
  | .set r value setSetting, s => midiValueSet send r value setSetting s
  | .sendAll, s => midiValueSendAll send s
  | .menu r nav, s => menuStep send r nav s

/-- A run, in which every operation finds its own send callbacks. -/
def run (steps : List (Callback σ × Op)) (s : Store σ) : Store σ :=
  steps.foldl (fun s step => step.2.run step.1 s) s

/-- The callbacks with a record of their calls. -/
def traced (send : Callback σ) : Callback (σ × History) := fun r mv outer =>
  let sent := send r mv outer.1
  (sent.1, sent.2, outer.2 ++ [.sent r mv.value sent.1])

def mark (s : Store (σ × History)) : Store (σ × History) :=
  { s with outer := (s.outer.1, s.outer.2 ++ [.resend]) }

def Op.runTraced (send : Callback σ) (op : Op) (s : Store (σ × History)) : Store (σ × History) :=
  match op with
  | .sendAll => midiValueSendAll (traced send) (mark s)
  | op => op.run (traced send) s

def runTraced (steps : List (Callback σ × Op)) (outer : σ) : Store (σ × History) :=
  steps.foldl (fun s step => step.2.runTraced step.1 s) (boot (outer, []))

theorem Op.runTraced_set (send : Callback σ) (r : MidiValueRef) (v : UInt16) (b : Bool)
    (s : Store (σ × History)) :
    (Op.set r v b).runTraced send s = midiValueSet (traced send) r v b s := rfl

theorem Op.runTraced_menu (send : Callback σ) (r : MidiValueRef) (nav : Nav)
    (s : Store (σ × History)) :
    (Op.menu r nav).runTraced send s = menuStep (traced send) r nav s := rfl

/-- The value that an input to a menu item asks for. -/
def menuTarget (nav : Nav) (value : UInt16) : Option UInt16 :=
  match nav with
  | .left => if value = 0 then none else some (value - 1)
  | .right => if value = 0xffff then none else some (value + 1)
  | _ => none

theorem menuStep_eq (send : Callback σ) (r : MidiValueRef) (nav : Nav) (s : Store σ) :
    menuStep send r nav s =
      (menuTarget nav (s.values r).value).elim s fun v => midiValueSet send r v true s := by
  cases nav with
  | left | right =>
      simp only [menuStep, menuTarget]
      split_ifs <;> rfl
  | _ => rfl

/-- The store without its record. -/
def forget (s : Store (σ × History)) : Store σ := ⟨s.values, s.outer.1⟩

theorem forget_assign (r : MidiValueRef) (v : UInt16) (b : Bool) (s : Store (σ × History)) :
    forget (assign r v b s) = assign r v b (forget s) := rfl

theorem forget_force (r : MidiValueRef) (s : Store (σ × History)) :
    forget (force r s) = force r (forget s) := rfl

theorem forget_sync (send : Callback σ) (r : MidiValueRef) (s : Store (σ × History)) :
    forget (midiValueSync (traced send) r s).2 = (midiValueSync send r (forget s)).2 := by
  by_cases h : (s.values r).known = some (s.values r).value
  · rw [midiValueSync_skip _ r s h, midiValueSync_skip send r (forget s) h]
  · cases hs : (send r (s.values r) s.outer.1).1 with
    | false =>
        rw [midiValueSync_refused (traced send) r s h hs,
          midiValueSync_refused send r (forget s) h hs]
        rfl
    | true =>
        rw [midiValueSync_sent (traced send) r s h hs, midiValueSync_sent send r (forget s) h hs]
        rfl

theorem forget_resend (send : Callback σ) (rs : List MidiValueRef) (s : Store (σ × History)) :
    forget (rs.foldl (fun s r => (midiValueSync (traced send) r (force r s)).2) s) =
      rs.foldl (fun s r => (midiValueSync send r (force r s)).2) (forget s) := by
  induction rs generalizing s with
  | nil => rfl
  | cons r rs ih => rw [List.foldl_cons, List.foldl_cons, ih, forget_sync, forget_force]

theorem forget_runTraced_step (send : Callback σ) (op : Op) (s : Store (σ × History)) :
    forget (op.runTraced send s) = op.run send (forget s) := by
  have hset (r : MidiValueRef) (v : UInt16) (b : Bool) :
      forget (midiValueSet (traced send) r v b s) = midiValueSet send r v b (forget s) := by
    rw [midiValueSet, forget_sync, forget_assign, midiValueSet]
  cases op with
  | set r v b => exact hset r v b
  | sendAll => exact forget_resend send midiValues (mark s)
  | menu r nav =>
      rw [Op.runTraced_menu, Op.run, menuStep_eq, menuStep_eq]
      simp only [forget]
      cases menuTarget nav (s.values r).value with
      | none => rfl
      | some v => exact hset r v true

/-- The record changes nothing. -/
theorem forget_runTraced (steps : List (Callback σ × Op)) (outer : σ) :
    forget (runTraced steps outer) = run steps (boot outer) := by
  unfold runTraced run
  rw [show boot outer = forget (boot (outer, [])) from rfl]
  generalize boot (outer, ([] : History)) = s
  induction steps generalizing s with
  | nil => rfl
  | cons step steps ih => rw [List.foldl_cons, List.foldl_cons, ih, forget_runTraced_step]

/-- What the parts of an operation keep, the operation keeps. -/
theorem Op.runTraced_invariant {P : Store (σ × History) → Prop} {send : Callback σ}
    (hmark : ∀ s, P s → P (mark s)) (hforce : ∀ s r, P s → P (force r s))
    (hassign : ∀ s r v b, P s → P (assign r v b s))
    (hsync : ∀ s r, P s → P (midiValueSync (traced send) r s).2) (op : Op)
    {s : Store (σ × History)} (hs : P s) : P (op.runTraced send s) := by
  have hset (r : MidiValueRef) (v : UInt16) (b : Bool) :
      P (midiValueSet (traced send) r v b s) := hsync _ r (hassign s r v b hs)
  have hresend (rs : List MidiValueRef) {t : Store (σ × History)} (ht : P t) :
      P (rs.foldl (fun s r => (midiValueSync (traced send) r (force r s)).2) t) := by
    induction rs generalizing t with
    | nil => exact ht
    | cons r rs ih => exact ih (hsync _ r (hforce t r ht))
  cases op with
  | set r v b =>
      rw [Op.runTraced_set]
      exact hset r v b
  | sendAll =>
      rw [Op.runTraced, midiValueSendAll]
      exact hresend midiValues (hmark s hs)
  | menu r nav =>
      rw [Op.runTraced_menu, menuStep_eq]
      cases menuTarget nav (s.values r).value with
      | none => exact hs
      | some v => exact hset r v true

theorem runTraced_invariant {P : Store (σ × History) → Prop} {outer : σ}
    (hboot : P (boot (outer, []))) (hmark : ∀ s, P s → P (mark s))
    (hforce : ∀ s r, P s → P (force r s)) (hassign : ∀ s r v b, P s → P (assign r v b s))
    (steps : List (Callback σ × Op))
    (hsync : ∀ step ∈ steps, ∀ s r, P s → P (midiValueSync (traced step.1) r s).2) :
    P (runTraced steps outer) := by
  unfold runTraced
  generalize boot (outer, ([] : History)) = s at hboot
  induction steps generalizing s with
  | nil => exact hboot
  | cons step steps ih =>
      exact ih (fun other hother => hsync other (List.mem_cons_of_mem _ hother)) _
        (Op.runTraced_invariant hmark hforce hassign (hsync step (List.mem_cons_self ..)) step.2
          hboot)

theorem runTraced_inRange (steps : List (Callback σ × Op)) (outer : σ) :
    (runTraced steps outer).InRange :=
  runTraced_invariant (P := Store.InRange) (boot_inRange _) (fun _ hs => hs)
    (fun _ r hs => force_inRange hs r) (fun _ r v b hs => assign_inRange hs r v b) steps
    (fun step _ _ r hs => midiValueSync_inRange hs (traced step.1) r)

end Operations

section Past

/-- What the successful sends of `r` carried, oldest first. -/
def successes (r : MidiValueRef) (h : History) : List UInt16 :=
  h.filterMap fun e => match e with
    | .sent q v true => if q = r then some v else none
    | _ => none

/-- The record since the last start of a `midi_value_send_all`, or since the boot. -/
def sinceResend (h : History) : History := h.rtakeWhile fun e => e ≠ .resend

/-- Nothing of `r` has got through since then, or the last that did was not `v`. -/
def Due (r : MidiValueRef) (v : UInt16) (h : History) : Prop :=
  successes r (sinceResend h) = [] ∨ (successes r h).getLast? ≠ some v

instance (r : MidiValueRef) (v : UInt16) (h : History) : Decidable (Due r v h) :=
  inferInstanceAs (Decidable (_ ∨ _))

/-- What the peers are known to hold. -/
def remembered (r : MidiValueRef) (h : History) : Option UInt16 :=
  (successes r (sinceResend h)).getLast?

variable (r q : MidiValueRef) (v : UInt16) (ok : Bool) (h : History)

theorem successes_append (h' : History) :
    successes r (h ++ h') = successes r h ++ successes r h' := List.filterMap_append

theorem due_iff : Due r v h ↔ remembered r h ≠ some v := by
  have hsplit : h = h.rdropWhile (fun e => e ≠ .resend) ++ sinceResend h := by
    rw [sinceResend, List.rdropWhile, List.rtakeWhile, ← List.reverse_append,
      List.takeWhile_append_dropWhile, List.reverse_reverse]
  have hlast : successes r (sinceResend h) ≠ [] →
      (successes r h).getLast? = remembered r h := by
    intro hne
    rw [remembered]
    conv_lhs => rw [hsplit, successes_append, List.getLast?_append_of_ne_nil _ hne]
  unfold Due
  by_cases hnone : successes r (sinceResend h) = []
  · simp [remembered, hnone]
  · simp [hnone, hlast hnone]

@[simp] theorem remembered_resend : remembered r (h ++ [.resend]) = none := by
  rw [remembered, sinceResend, List.rtakeWhile_concat_neg _ _ _ (by simp)]
  rfl

@[simp] theorem remembered_sent :
    remembered r (h ++ [.sent q v ok]) =
      if q = r ∧ ok = true then some v else remembered r h := by
  rw [remembered, sinceResend, List.rtakeWhile_concat_pos _ _ _ (by simp), successes_append]
  cases ok with
  | false => simp [successes, remembered, sinceResend]
  | true =>
      by_cases hq : q = r
      · simp [successes, hq]
      · simp [successes, hq, remembered, sinceResend]

end Past

section Cache
variable {σ : Type*} (send : Callback σ) {s : Store (σ × History)}

/-- The cache of `r` holds what the record says. -/
def Follows (r : MidiValueRef) (s : Store (σ × History)) : Prop :=
  (s.values r).known = remembered r s.outer.2

theorem midiValueSync_outer (send : Callback σ) (r : MidiValueRef) (s : Store σ) :
    (midiValueSync send r s).2.outer =
      if (s.values r).known = some (s.values r).value then s.outer
      else (send r (s.values r) s.outer).2 := by
  split_ifs with h
  · rw [midiValueSync_skip send r s h]
  · cases hs : (send r (s.values r) s.outer).1 with
    | false => rw [midiValueSync_refused send r s h hs]
    | true => rw [midiValueSync_sent send r s h hs, Store.update_outer]

/-- One sync either skips or makes one call, with the value of the moment. -/
theorem sync_traced (r : MidiValueRef) (s : Store (σ × History)) :
    ((s.values r).known = some (s.values r).value ∧ (midiValueSync (traced send) r s).2 = s) ∨
      ((s.values r).known ≠ some (s.values r).value ∧ ∃ ok,
        (midiValueSync (traced send) r s).2.outer.2 =
          s.outer.2 ++ [.sent r (s.values r).value ok] ∧
        ((midiValueSync (traced send) r s).2.values r).known =
          if ok then some (s.values r).value else (s.values r).known) := by
  by_cases h : (s.values r).known = some (s.values r).value
  · exact .inl ⟨h, by rw [midiValueSync_skip _ r s h]⟩
  · refine .inr ⟨h, (send r (s.values r) s.outer.1).1, ?_, ?_⟩
    · rw [midiValueSync_outer, if_neg h]
      rfl
    · rw [midiValueSync_known, ChangeCache.offer, if_neg h]
      rfl

theorem Follows.sync {q : MidiValueRef} (h : Follows q s) (r : MidiValueRef) :
    Follows q (midiValueSync (traced send) r s).2 := by
  rcases sync_traced send r s with ⟨-, hskip⟩ | ⟨-, ok, hcall, hknown⟩
  · rw [hskip]
    exact h
  · rw [Follows, hcall, remembered_sent]
    by_cases hq : q = r
    · subst q
      rw [hknown, h]
      simp
    · rw [midiValueSync_of_ne _ s hq, if_neg (fun hr => hq hr.1.symm)]
      exact h

/-- A round of `midi_value_send_all`. -/
theorem Follows.round {q r : MidiValueRef} (h : Follows q s) (hq : q ≠ r) :
    Follows q (midiValueSync (traced send) r (force r s)).2 := by
  apply Follows.sync
  rw [Follows, force, Store.update_of_ne _ _ hq]
  exact h

theorem follows_own_round {r : MidiValueRef} (h : remembered r s.outer.2 = none) :
    Follows r (midiValueSync (traced send) r (force r s)).2 :=
  Follows.sync send (show Follows r (force r s) from (force_known r s).trans h.symm) r

/-- The loop of `midi_value_send_all` over some of the values. -/
def resend (rs : List MidiValueRef) (s : Store (σ × History)) : Store (σ × History) :=
  rs.foldl (fun s r => (midiValueSync (traced send) r (force r s)).2) s

/-- A round calls the send of its value, whatever the cache holds. -/
theorem round_calls (r : MidiValueRef) (s : Store (σ × History)) :
    ∃ ok, (midiValueSync (traced send) r (force r s)).2.outer.2 =
      s.outer.2 ++ [.sent r (s.values r).value ok] := by
  rcases sync_traced send r (force r s) with ⟨hknown, -⟩ | ⟨-, ok, hcall, -⟩
  · rw [force_known] at hknown
    cases hknown
  · refine ⟨ok, ?_⟩
    rw [hcall]
    simp [force]

theorem round_value (r q : MidiValueRef) (s : Store (σ × History)) :
    ((midiValueSync (traced send) r (force r s)).2.values q).value = (s.values q).value := by
  rw [midiValueSync_value]
  by_cases hq : q = r
  · subst q
    simp [force]
  · rw [force, Store.update_of_ne _ _ hq]

theorem resend_value (rs : List MidiValueRef) (q : MidiValueRef) (s : Store (σ × History)) :
    ((resend send rs s).values q).value = (s.values q).value := by
  induction rs generalizing s with
  | nil => rfl
  | cons r rs ih => exact (ih _).trans (round_value send r q s)

/-- Every value of the list is sent once, in order, whatever the answers are. -/
theorem resend_calls (rs : List MidiValueRef) (hnodup : rs.Nodup) (s : Store (σ × History)) :
    ∃ oks : MidiValueRef → Bool, (resend send rs s).outer.2 =
      s.outer.2 ++ rs.map fun r => .sent r (s.values r).value (oks r) := by
  induction rs generalizing s with
  | nil => exact ⟨fun _ => true, (List.append_nil _).symm⟩
  | cons r rs ih =>
      obtain ⟨hr, hnodup⟩ := List.nodup_cons.mp hnodup
      obtain ⟨ok, hcall⟩ := round_calls send r s
      obtain ⟨oks, hcalls⟩ := ih hnodup (midiValueSync (traced send) r (force r s)).2
      refine ⟨fun q => if q = r then ok else oks q, ?_⟩
      have htail : rs.map (fun q => Entry.sent q (s.values q).value (if q = r then ok else oks q)) =
          rs.map fun q => .sent q (s.values q).value (oks q) := by
        refine List.map_congr_left fun q hq => ?_
        have hne : q ≠ r := fun h => hr (h ▸ hq)
        rw [if_neg hne]
      rw [resend, List.foldl_cons]
      refine hcalls.trans ?_
      simp only [hcall, round_value, List.map_cons, if_true, htail, List.append_assoc,
        List.singleton_append]

theorem Follows.resend {q : MidiValueRef} {rs : List MidiValueRef} (hq : q ∉ rs)
    (h : Follows q s) : Follows q (resend send rs s) := by
  induction rs generalizing s with
  | nil => exact h
  | cons r rs ih =>
      obtain ⟨hne, hq⟩ : q ≠ r ∧ q ∉ rs := by simpa using hq
      exact ih hq (h.round send hne)

theorem follows_resend {q : MidiValueRef} {rs : List MidiValueRef} (hnodup : rs.Nodup)
    (hq : q ∈ rs) (h : remembered q s.outer.2 = none) : Follows q (resend send rs s) := by
  induction rs generalizing s with
  | nil => cases hq
  | cons r rs ih =>
      obtain ⟨hr, hnodup⟩ := List.nodup_cons.mp hnodup
      by_cases hqr : q = r
      · subst q
        have hrest : Follows r (resend send rs _) := (follows_own_round send h).resend send hr
        exact hrest
      · have hrest : q ∈ rs := (List.mem_cons.mp hq).resolve_left hqr
        obtain ⟨ok, hcall⟩ := round_calls send r s
        refine ih hnodup hrest ?_
        rw [hcall, remembered_sent, if_neg (fun hr => hqr hr.1.symm)]
        exact h

end Cache

section Runs
variable {σ : Type*}

theorem midiValues_nodup : midiValues.Nodup := by decide

theorem mem_midiValues (r : MidiValueRef) : r ∈ midiValues := by cases r <;> decide

theorem Follows.runTraced_step {s : Store (σ × History)} (h : ∀ r, Follows r s)
    (send : Callback σ) (op : Op) (r : MidiValueRef) : Follows r (op.runTraced send s) := by
  have hset (q : MidiValueRef) (v : UInt16) (b : Bool) :
      Follows r (midiValueSet (traced send) q v b s) :=
    Follows.sync send (show Follows r (assign q v b s) from (assign_known q v b s r).trans (h r)) q
  cases op with
  | set q v b => exact hset q v b
  | sendAll => exact follows_resend send midiValues_nodup (mem_midiValues r) (remembered_resend r _)
  | menu q nav =>
      rw [Op.runTraced_menu, menuStep_eq]
      cases menuTarget nav (s.values q).value with
      | none => exact h r
      | some v => exact hset q v true

/-- In every state that a run reaches the two cached fields say what its record says. -/
theorem runTraced_follows (steps : List (Callback σ × Op)) (outer : σ) (r : MidiValueRef) :
    Follows r (runTraced steps outer) := by
  have hboot (r : MidiValueRef) : Follows r (boot (outer, ([] : History))) := bootValue_known r
  unfold runTraced
  generalize boot (outer, ([] : History)) = s at hboot
  induction steps generalizing s with
  | nil => exact hboot r
  | cons step steps ih => exact ih _ (Follows.runTraced_step hboot step.1 step.2)

/-- The value as `clamp_u16` brings it into the range of `r`. -/
def clampTo (r : MidiValueRef) (v : UInt16) : UInt16 :=
  clampU16 v (bootValue r).minValue (bootValue r).maxValue

/-- What an operation makes of the value of `r`. -/
def Op.assigned (r : MidiValueRef) (v : UInt16) : Op → UInt16
  | .set q value _ => if q = r then clampTo r value else v
  | .sendAll => v
  | .menu q nav => if q = r then (menuTarget nav v).elim v (clampTo r) else v

/-- The value of `r` after some operations, from its default on. -/
def current (r : MidiValueRef) (ops : List Op) : UInt16 :=
  ops.foldl (Op.assigned r) (bootValue r).defaultValue

theorem midiValueSet_value {s : Store (σ × History)} (hs : s.InRange) (send : Callback σ)
    (q r : MidiValueRef) (v : UInt16) (b : Bool) :
    ((midiValueSet (traced send) q v b s).values r).value =
      if q = r then clampTo r v else (s.values r).value := by
  by_cases hq : q = r
  · subst q
    rw [midiValueSet_self, if_pos rfl, clampTo, (hs r).minValue, (hs r).maxValue]
  · rw [midiValueSet_of_ne _ _ _ _ (Ne.symm hq), if_neg hq]

theorem runTraced_step_value {s : Store (σ × History)} (hs : s.InRange) (send : Callback σ)
    (op : Op) (r : MidiValueRef) :
    ((op.runTraced send s).values r).value = op.assigned r (s.values r).value := by
  cases op with
  | set q v b => exact midiValueSet_value hs send q r v b
  | sendAll => exact resend_value send midiValues r (mark s)
  | menu q nav =>
      rw [Op.runTraced_menu, menuStep_eq, Op.assigned]
      by_cases hq : q = r
      · subst q
        rw [if_pos rfl]
        cases menuTarget nav (s.values r).value with
        | none => rfl
        | some v => exact (midiValueSet_value hs send r r v true).trans (if_pos rfl)
      · rw [if_neg hq]
        cases menuTarget nav (s.values q).value with
        | none => rfl
        | some v => exact (midiValueSet_value hs send q r v true).trans (if_neg hq)

theorem runTraced_current (steps : List (Callback σ × Op)) (outer : σ) (r : MidiValueRef) :
    ((runTraced steps outer).values r).value = current r (steps.map Prod.snd) := by
  induction steps using List.reverseRecOn with
  | nil =>
      cases r <;> rfl
  | append_singleton steps step ih =>
      have hstep := runTraced_step_value (runTraced_inRange steps outer) step.1 step.2 r
      rw [ih] at hstep
      rw [runTraced, List.foldl_append, current, List.map_append, List.foldl_append]
      exact hstep

/-- After every run, a `midi_value_set` calls the send of its value exactly if it is
due by the record, with the clamped value, and leaves the other five values as they
are. A `midi_value_send_all` calls all six sends once, in the order of the array and
with the current values, whatever they answer, and each of its rounds leaves the
other five values as they are. -/
theorem retry_law (steps : List (Callback σ × Op)) (outer : σ) (send : Callback σ) :
    let s := runTraced steps outer
    (∀ (r : MidiValueRef) (value : UInt16) (setSetting : Bool),
      let s' := (Op.set r value setSetting).runTraced send s
      (∃ ok, s'.outer.2 = s.outer.2 ++
        if Due r (clampTo r value) s.outer.2 then [.sent r (clampTo r value) ok] else []) ∧
      ∀ q, q ≠ r → s'.values q = s.values q) ∧
    (∃ oks : MidiValueRef → Bool, (Op.sendAll.runTraced send s).outer.2 =
      s.outer.2 ++ .resend ::
        midiValues.map fun r => .sent r (current r (steps.map Prod.snd)) (oks r)) ∧
    ∀ (r q : MidiValueRef) (t : Store (σ × History)), q ≠ r →
      (midiValueSync (traced send) r (force r t)).2.values q = t.values q := by
  intro s
  have hrange := runTraced_inRange steps outer
  refine ⟨fun r value setSetting => ⟨?_, fun q hq => ?_⟩, ?_, fun r q t hq => ?_⟩
  · have hassigned : ((assign r value setSetting s).values r).value = clampTo r value := by
      rw [assign_value, (hrange r).minValue, (hrange r).maxValue, clampTo]
    have hknown : ((assign r value setSetting s).values r).known = remembered r s.outer.2 :=
      (assign_known r value setSetting s r).trans (runTraced_follows steps outer r)
    rcases sync_traced send r (assign r value setSetting s) with
      ⟨hskip, heq⟩ | ⟨hdue, ok, hcall, -⟩
    · rw [hknown, hassigned] at hskip
      refine ⟨true, ?_⟩
      rw [if_neg (fun h => (due_iff r _ _).mp h hskip), Op.runTraced_set, midiValueSet, heq,
        List.append_nil]
      rfl
    · rw [hknown, hassigned] at hdue
      refine ⟨ok, ?_⟩
      rw [if_pos ((due_iff r _ _).mpr hdue), Op.runTraced_set, midiValueSet, hcall, hassigned]
      rfl
  · rw [Op.runTraced_set, midiValueSet, midiValueSync_of_ne _ _ hq, assign,
      Store.update_of_ne _ _ hq]
  · obtain ⟨oks, hcalls⟩ := resend_calls send midiValues midiValues_nodup (mark s)
    refine ⟨oks, hcalls.trans ?_⟩
    simp only [mark, s, runTraced_current, List.append_assoc, List.singleton_append]
  · rw [midiValueSync_of_ne _ _ hq, force, Store.update_of_ne _ _ hq]

end Runs

end Keytar.SendHistory
