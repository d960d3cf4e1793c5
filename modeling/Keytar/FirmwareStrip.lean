import Keytar.FirmwareSafety
import Keytar.FirmwareScreen
import Keytar.FirmwareWires
import Keytar.StripRelease

/-!
# What the strip leaves behind in the firmware

Pitch bend and modulation are in no menu: only the strip moves them. While the strip is
taken from a value only with the reset flag set, or not at all, what it is not assigned to
stands at its default, whatever keys, menus and links do. So a strip that is let go leaves
no bend standing, in the firmware or at a receiver.
-/
namespace Keytar.Firmware
open AnalogStrip KeyboardMatrix Keyboard Memory MenuEffects Midi MidiBle MidiValues Settings
  StripRelease Traffic Ui Menus
open Relation (ReflTransGen)
open Runs (afterwards)

section Items
variable {P : Item → Prop} {m m' : MenuHeap Item}

/-- Every live item meets `P`. -/
def AllItems (P : Item → Prop) (m : MenuHeap Item) : Prop :=
  ∀ p x, m.items.read p = .ok x → P x

theorem freeMenu_allItems {p : Ptr} (h : AllItems P m) (hfree : freeMenu p m = .ok m') :
    AllItems P m' := by
  obtain ⟨self, -, hfree⟩ := Runs.bind_ok hfree
  obtain ⟨slots, -, hfree⟩ := Runs.bind_ok hfree
  obtain ⟨items, hitems, hfree⟩ := Runs.bind_ok hfree
  obtain ⟨arrays, -, hfree⟩ := Runs.bind_ok hfree
  obtain ⟨menus, -, hfree⟩ := Runs.bind_ok hfree
  obtain rfl := Except.ok.inj hfree
  exact Runs.foldlM_relates
    (fun s s' : Heap Item => (∀ q x, s.read q = .ok x → P x) → ∀ q x, s'.read q = .ok x → P x)
    (fun _ h => h) (fun _ _ _ h h' hs => h' (h hs))
    (fun i _ s s' hround hs => by
      obtain ⟨item, -, hround⟩ := Runs.bind_ok hround
      obtain ⟨x, -, hround⟩ := Runs.bind_ok hround
      exact fun q y hy => hs q y (Heap.read_free hround hy)) hitems h

theorem addItem_allItems {menu : Ptr} {item : Item} (hitem : P item) (h : AllItems P m)
    (hadd : addItem menu item m = .ok m') : AllItems P m' := by
  obtain ⟨self, -, hadd⟩ := Runs.bind_ok hadd
  obtain ⟨slots, -, hadd⟩ := Runs.bind_ok hadd
  split_ifs at hadd
  obtain ⟨arrays, -, hadd⟩ := Runs.bind_ok hadd
  obtain ⟨menus, -, hadd⟩ := Runs.bind_ok hadd
  obtain rfl := Except.ok.inj hadd
  intro p x hx
  rcases Heap.read_alloc hx with hold | rfl
  · exact h p x hold
  · exact hitem

/-- An item that changes a value changes one of the envelope. -/
def OfEnvelope (x : Item) : Prop := ∀ r, x = .midiValue r → r ∈ envelopeValues

theorem upkeep_ofEnvelope {a : Answers} {x y : App} (h : Upkeep a x y)
    (hx : AllItems OfEnvelope x.heap) : AllItems OfEnvelope y.heap := by
  cases h with
  | free h => exact freeMenu_allItems hx h
  | fill itemCapacity items hitems hvalues h =>
      have hnew : AllItems OfEnvelope (newMenu itemCapacity x.heap).2 := hx
      refine Runs.foldlM_relates (fun m m' => AllItems OfEnvelope m → AllItems OfEnvelope m')
        (fun _ h => h) (fun _ _ _ h h' hm => h' (h hm)) (fun item hitem m m' hadd hm => ?_) h hnew
      exact addItem_allItems (fun r hr => hvalues r (hr ▸ hitem)) hm hadd
  | roles _ _ => exact hx

theorem effects_ofEnvelope {a : Answers} {x y : App} (h : ReflTransGen (Effect a) x y)
    (hx : AllItems OfEnvelope x.heap) : AllItems OfEnvelope y.heap := by
  induction h with
  | refl => exact hx
  | tail _ heffect ih =>
      cases heffect with
      | upkeep h => exact upkeep_ofEnvelope h ih
      | item hitem h =>
          intro p z hz
          rcases Heap.read_write h hz with ⟨-, rfl⟩ | ⟨-, hold⟩
          · rintro r rfl
            exact (hitem rfl).elim
          · exact ih p z hold
      | cursor _ _ _ | keymap _ | strip _ | values _ => exact ih

end Items

section Inputs
variable {a : Answers} {w w' : World}

/-- The strip is assigned as before, and the values that no menu changes are as before. -/
structure Still (x y : App) : Prop where
  strip : y.strip = x.strip
  values : ∀ r, r ∉ envelopeValues → y.midi.values r = x.midi.values r

theorem Still.refl (x : App) : Still x x := ⟨rfl, fun _ _ => rfl⟩

/-- The strip is assigned anew, once. -/
def Assigns (a : Answers) (x y : App) : Prop :=
  ∃ mv reset, (y.strip, y.midi) =
    (Op.assign mv reset).run (callback (links a.radio x.ble) a.accepts) (x.strip, x.midi)

theorem still_of_upkeep {x y : App} (h : ReflTransGen (Upkeep a) x y) : Still x y := by
  induction h with
  | refl => exact .refl x
  | tail _ hupkeep ih => cases hupkeep <;> exact ⟨ih.strip, ih.values⟩

theorem still_of_upholds {r : Except Fault World} (h : Upholds a w r) (hr : r = .ok w') :
    Still w.rest w'.rest :=
  still_of_upkeep (h w' hr)

/-- An option is taken after the item has been written. -/
theorem navigateSelect_takes {α : Type} {p : Ptr} {item : Select α → Item}
    {onChange : α → World → Except Fault World} {self : Select α} {nav : Nav}
    (h : navigateSelect p item onChange self nav w = .ok w') :
    w' = w ∨ ∃ option heap v,
      onChange option { w with rest := { w.rest with heap := heap } } = .ok v ∧
      w'.rest = v.rest := by
  obtain ⟨after, -, h⟩ := Runs.bind_ok h
  cases hoption : after.2 with
  | none =>
      rw [hoption] at h
      exact .inl (Except.ok.inj h).symm
  | some option =>
      rw [hoption] at h
      obtain ⟨u, hu, h⟩ := Runs.bind_ok h
      obtain ⟨items, -, hu⟩ := Runs.bind_ok hu
      obtain rfl := Except.ok.inj hu
      obtain ⟨v, hv, hrender⟩ := Runs.bind_ok h
      exact .inr ⟨option, _, v, hv, uiRender_rest elements hrender⟩

theorem navigateMidiValue_still {r : MidiValueRef} (hr : r ∈ envelopeValues) {nav : Nav}
    (h : navigateMidiValue a r nav w = .ok w') : Still w.rest w'.rest := by
  have hset (value : UInt16) (hv : uiRender elements (setMidiValue a r value true w) = .ok w') :
      Still w.rest w'.rest := by
    rw [uiRender_rest elements hv]
    refine ⟨rfl, fun q hq => midiValueSet_of_ne _ value true w.rest.midi ?_⟩
    rintro rfl
    exact hq hr
  cases nav with
  | left | right =>
      simp only [navigateMidiValue] at h
      split_ifs at h
      · obtain rfl := Except.ok.inj h
        exact .refl _
      · exact hset _ h
  | _ =>
      obtain rfl := Except.ok.inj h
      exact .refl _

theorem navigateItem_strip (hw : AllItems OfEnvelope w.rest.heap) {p : Ptr} {nav : Nav}
    (h : navigateItem a p nav w = .ok w') :
    Still w.rest w'.rest ∨ Assigns a w.rest w'.rest := by
  obtain ⟨item, hread, h⟩ := Runs.bind_ok h
  cases item with
  | default label action =>
      simp only at h
      split_ifs at h
      · exact .inl (still_of_upholds (runAction_upholds action w) h)
      · obtain rfl := Except.ok.inj h
        exact .inl (.refl _)
  | keymap select =>
      rcases navigateSelect_takes h with rfl | ⟨option, heap, v, hv, hrest⟩
      · exact .inl (.refl _)
      · rw [hrest, uiRender_rest elements hv]
        exact .inl ⟨rfl, fun _ _ => rfl⟩
  | stripControl select =>
      rcases navigateSelect_takes h with rfl | ⟨option, heap, v, hv, hrest⟩
      · exact .inl (.refl _)
      · obtain rfl := Except.ok.inj hv
        rw [hrest]
        exact .inr ⟨some option, w.rest.strip.resetOnRelease, rfl⟩
  | checkbox label value =>
      simp only [navigateCheckbox] at h
      split_ifs at h
      · obtain ⟨u, hu, h⟩ := Runs.bind_ok h
        obtain ⟨items, -, hu⟩ := Runs.bind_ok hu
        obtain rfl := Except.ok.inj hu
        obtain rfl := Except.ok.inj h
        exact .inr ⟨w.rest.strip.midiValue, !value, rfl⟩
      · obtain rfl := Except.ok.inj h
        exact .inl (.refl _)
  | midiValue r => exact .inl (navigateMidiValue_still (hw p _ hread r rfl) h)
  | device label index =>
      exact .inl (still_of_upholds (a := a) (bluetoothConnectNav_upholds index nav w) h)

theorem navigate_strip (hw : AllItems OfEnvelope w.rest.heap) {owner self : Element} {nav : Nav}
    (h : Menus.navigate a owner self nav w = .ok w') :
    Still w.rest w'.rest ∨ Assigns a w.rest w'.rest := by
  cases owner with
  | uiStatus =>
      cases nav with
      | close | «return» => exact .inl (still_of_upholds (a := a) (pushMenuMain_upholds w) h)
      | _ =>
          obtain rfl := Except.ok.inj h
          exact .inl (.refl _)
  | menu p =>
      cases self with
      | uiStatus => cases h
      | menu p =>
          obtain ⟨menu, -, h⟩ := Runs.bind_ok h
          cases nav with
          | up | down =>
              obtain ⟨menus, -, h⟩ := Runs.bind_ok h
              obtain rfl := Except.ok.inj h
              exact .inl ⟨rfl, fun _ _ => rfl⟩
          | _ =>
              obtain ⟨slots, -, h⟩ := Runs.bind_ok h
              obtain ⟨item, -, h⟩ := Runs.bind_ok h
              exact navigateItem_strip hw h

/-- All that an input does to the strip and to the values that no menu changes. -/
theorem step_navigate_strip (hw : AllItems OfEnvelope w.rest.heap) {nav : Nav}
    (h : Menus.step w (a, .navigate nav) = .ok w') :
    Still w.rest w'.rest ∨ Assigns a w.rest w'.rest := by
  obtain ⟨decision, -, h⟩ := Runs.bind_ok h
  cases decision with
  | ignore =>
      obtain rfl := Except.ok.inj h
      exact .inl (.refl _)
  | pop =>
      obtain ⟨v, hv, h⟩ := Runs.bind_ok h
      rw [uiRender_rest elements h]
      exact .inl (still_of_upholds (a := a) (pop_upholds w) hv)
  | clear =>
      obtain ⟨v, hv, h⟩ := Runs.bind_ok h
      rw [uiRender_rest elements h]
      exact .inl (still_of_upholds (a := a) (clear_upholds w) hv)
  | invoke followed owner self =>
      obtain ⟨v, hv, h⟩ := Runs.bind_ok h
      rw [uiRender_rest elements h]
      exact navigate_strip hw hv

end Inputs

section Resting
variable {a : Answers} {w w' : World} {k k' : Device}

/-- The call finds the reset flag set, which brings the value back that the strip is taken
from, or takes it from none. -/
def handsBack : Guard := fun a key pressed k =>
  k.world.rest.strip.resetOnRelease || afterwards (handleKey a key pressed k) fun k' =>
    k'.world.rest.strip.midiValue == k.world.rest.strip.midiValue

/-- The values that only the strip moves stand at their defaults, but for the assigned one. -/
structure Resting (w : World) : Prop where
  items : AllItems OfEnvelope w.rest.heap
  inRange : w.rest.midi.InRange
  atDefault : ∀ r, r ∉ envelopeValues → w.rest.strip.midiValue ≠ some r →
    AtDefault r w.rest.midi

theorem Resting.still (h : Resting w) (hitems : AllItems OfEnvelope w'.rest.heap)
    (hinRange : w'.rest.midi.InRange) (hstill : Still w.rest w'.rest) : Resting w' where
  items := hitems
  inRange := hinRange
  atDefault := by
    intro r hr hne
    rw [hstill.strip] at hne
    rw [AtDefault, hstill.values r hr]
    exact h.atDefault r hr hne

theorem Resting.assigned (h : Resting w) (hitems : AllItems OfEnvelope w'.rest.heap)
    (hinRange : w'.rest.midi.InRange) (hassigns : Assigns a w.rest w'.rest)
    (hback : w.rest.strip.resetOnRelease = true ∨
      w'.rest.strip.midiValue = w.rest.strip.midiValue) : Resting w' where
  items := hitems
  inRange := hinRange
  atDefault := by
    obtain ⟨mv, reset, hrun⟩ := hassigns
    have hmidi := congrArg Prod.snd hrun
    simp only at hmidi
    intro r hr hne
    rw [hmidi]
    by_cases hold : w.rest.strip.midiValue = some r
    · have hflag : w.rest.strip.resetOnRelease = true :=
        hback.resolve_right fun hsame => hne (hsame.trans hold)
      have hstrip : w.rest.strip = ⟨some r, true⟩ := by rw [← hold, ← hflag]
      exact assign_released h.inRange _ hstrip mv reset
    · exact (h.atDefault r hr hold).run hold _ _

theorem sendAll_value (send : Callback Wires) (r : MidiValueRef) (s : Store Wires) :
    ((midiValueSendAll send s).values r).value = (s.values r).value := by
  have hloop (rs : List MidiValueRef) :
      ((rs.foldl (fun s q => (midiValueSync send q (force q s)).2) s).values r).value =
        (s.values r).value := by
    induction rs generalizing s with
    | nil => rfl
    | cons q rs ih =>
        rw [List.foldl_cons, ih, midiValueSync_value]
        by_cases hq : r = q
        · subst q
          rw [force, Store.update_self]
        · rw [force, Store.update_of_ne _ _ hq]
  exact hloop midiValues

theorem link_midi {l : Link} (h : Menus.step w (a, l.event) = .ok w') :
    w'.rest.midi = w.rest.midi ∨ ∃ send, w'.rest.midi = midiValueSendAll send w.rest.midi := by
  cases l with
  | serverConnected handle =>
      simp only [Link.event, Menus.step, serverConnected] at h
      split_ifs at h
      · rw [uiRender_rest elements h]
        exact .inr ⟨_, rfl⟩
      · obtain rfl := Except.ok.inj h
        exact .inl rfl
  | serverDisconnected =>
      simp only [Link.event, Menus.step, serverDisconnected] at h
      split_ifs at h
      · rw [uiRender_rest elements h]
        exact .inl rfl
      · obtain rfl := Except.ok.inj h
        exact .inl rfl
  | clientStatus ready =>
      rw [uiRender_rest elements h]
      cases ready with
      | false => exact .inl rfl
      | true => exact .inr ⟨_, rfl⟩

theorem link_atDefault {l : Link} {r : MidiValueRef} (h : Menus.step w (a, l.event) = .ok w')
    (hw : w.rest.midi.InRange) (hr : AtDefault r w.rest.midi) : AtDefault r w'.rest.midi := by
  have hdefault := (step_inRange h hw r).defaultValue
  rw [AtDefault, (hw r).defaultValue] at hr
  rw [AtDefault, hdefault, ← hr]
  rcases link_midi h with hmidi | ⟨send, hmidi⟩
  · rw [hmidi]
  · rw [hmidi, sendAll_value]

theorem resting_kept : KeptUnder handsBack Resting where
  input := by
    intro a key pressed k nav w' hback hnav h hstep
    have hitems := effects_ofEnvelope (step_navigate_does nav k.world w' hstep) h.items
    have hinRange := step_inRange hstep h.inRange
    rcases step_navigate_strip h.items hstep with hstill | hassigns
    · exact h.still hitems hinRange hstill
    · refine h.assigned hitems hinRange hassigns ?_
      refine (Bool.or_eq_true_iff.mp hback).imp_right fun hsame => ?_
      have hcall : handleKey a key pressed k = .ok { k with
          world := w'
          log := k.log ++ [⟨key, pressed, k.world.rest.keymap, k.offset, false, []⟩] } := by
        simp only [handleKey, hnav, hstep, bind, Except.bind]
        rfl
      have hvalue := Runs.of_afterwards hsame hcall
      exact eq_of_beq hvalue
  link := by
    intro w w' a l h hlink
    have hnav : ∀ nav, l.event ≠ .navigate nav := by cases l <;> simp [Link.event]
    refine ⟨?_, step_inRange hlink h.inRange, fun r hr hne => ?_⟩
    · rw [link_heap hlink]
      exact h.items
    · rw [(step_link_spares w a hnav w' hlink).strip] at hne
      exact link_atDefault hlink h.inRange (h.atDefault r hr hne)
  render := by
    intro w w' h hrender
    have hrest := uiRender_rest elements hrender
    refine ⟨?_, ?_, ?_⟩
    · rw [hrest]
      exact h.items
    · rw [hrest]
      exact h.inRange
    · rw [hrest]
      exact h.atDefault
  wires := fun _ h => ⟨h.items, h.inRange, h.atDefault⟩
  strip := by
    intro w send adcRead h
    refine ⟨h.items, analogStripTask_inRange send adcRead w.rest.strip h.inRange,
      fun r hr hne => ?_⟩
    exact (h.atDefault r hr hne).run (t := (w.rest.strip, w.rest.midi)) hne (.task adcRead) send

theorem bootUp_resting {displayOk : Bool} {keymap : Keymap} {saved : BleState}
    (h : bootUp a displayOk keymap saved = .ok w) : Resting w := by
  have hdoes := bootUp_does displayOk keymap saved w h
  refine ⟨effects_ofEnvelope hdoes ?_, effects_inRange hdoes (boot_inRange idle), ?_⟩
  · intro p x hx
    simp [reset, UiStack.boot, MenuHeap.empty, Heap.read, Heap.empty] at hx
  · obtain ⟨w₁, hinit, h⟩ := Runs.bind_ok h
    obtain ⟨w₂, hset, h⟩ := Runs.bind_ok h
    obtain ⟨w₃, hble, h⟩ := Runs.bind_ok h
    obtain rfl := Except.ok.inj h
    have hfirst : Still reset.rest w₁.rest := by
      obtain ⟨u, hu, -, hrest⟩ := displayInit_sane True displayOk
      obtain rfl := Except.ok.inj (hu.symm.trans hinit)
      rw [hrest]
      exact .refl _
    have hlast := still_of_upholds (a := a) (midiBleInit_upholds _) hble
    have hstill : Still reset.rest w₃.rest := by
      refine ⟨hlast.strip.trans ?_, fun r hr => (hlast.values r hr).trans ?_⟩
      · change w₂.rest.strip = _
        rw [uiRender_rest elements hset]
        exact hfirst.strip
      · change w₂.rest.midi.values r = _
        rw [uiRender_rest elements hset]
        exact hfirst.values r hr
    intro r hr _
    have hnone : w₃.rest.strip.midiValue = none := congrArg Strip.midiValue hstill.strip
    have hmidi : (assignStrip a (some .mvPitchbend) true w₃).rest.midi = w₃.rest.midi := by
      simp only [assignStrip, analogStripAssign, hnone]
    rw [hmidi, AtDefault, hstill.values r hr]
    cases r <;> rfl

/-- A poll that finds the strip let go leaves nothing displaced. -/
theorem Resting.released (h : Resting k.world) {adcRead : UInt16}
    (hoff : offThresholdValue < adcRead.toUInt32)
    (hflag : k.world.rest.strip.resetOnRelease = true) (a : Answers) {r : MidiValueRef}
    (hr : r ∉ envelopeValues) : AtDefault r (stripTask a adcRead k).world.rest.midi := by
  let t := (k.world.rest.strip, k.world.rest.midi)
  by_cases hassigned : k.world.rest.strip.midiValue = some r
  · have hstrip : t.1 = ⟨some r, true⟩ := by rw [← hassigned, ← hflag]
    exact task_released (t := t) h.inRange _ hstrip hoff
  · exact (h.atDefault r hr hassigned).run (t := t) hassigned (.task adcRead) _

end Resting

section Runs
variable {start : Answers} {displayOk : Bool} {keymap : Keymap} {saved : BleState}
  {es : List Event} {i j k k' : Device}

theorem reached_resting (hboot : Firmware.boot start displayOk keymap saved = .ok j)
    (hrun : run es j = .ok k) (hback : EveryCall handsBack es j = true) : Resting k.world := by
  obtain ⟨w, hw, hj⟩ := Runs.bind_ok hboot
  obtain rfl := Except.ok.inj hj
  exact resting_kept.run hback hrun (bootUp_resting hw)

/-- In every run that takes the strip from a value only while the reset flag is set, pitch
bend and modulation stand at their defaults while the strip is not assigned to them, and
both do after each poll under the flag that finds the strip let go. -/
theorem released_rests (hboot : Firmware.boot start displayOk keymap saved = .ok j)
    (hrun : run es j = .ok k) (hback : EveryCall handsBack es j = true) {r : MidiValueRef}
    (hr : r ∉ envelopeValues) :
    (k.world.rest.strip.midiValue ≠ some r → AtDefault r k.world.rest.midi) ∧
      ∀ (a : Answers) (adcRead : UInt16), offThresholdValue < adcRead.toUInt32 →
        k.world.rest.strip.resetOnRelease = true →
        AtDefault r (stripTask a adcRead k).world.rest.midi := by
  have hresting := reached_resting hboot hrun hback
  exact ⟨hresting.atDefault r hr, fun a _ hoff hflag => hresting.released hoff hflag a hr⟩

/-- The pitch bend is touched, the strip goes over to the modulation by the menu, and that is
touched. -/
def bendThenMod : List Event :=
  [.strip 1900 ConnectMenu.quiet] ++
    ([twoKeys 41 0, twoKeys 81 0, noKeys, twoKeys 81 0, noKeys, twoKeys 81 0, twoKeys 79 0] :
      List Report).map (fun report => .report true report quietKeys) ++
    [.strip 2500 ConnectMenu.quiet]

theorem bendThenMod_rests :
    ∃ j k, Firmware.boot ConnectMenu.quiet true .piano .off = .ok j ∧ run bendThenMod j = .ok k ∧
      k.world.rest.strip = ⟨some .mvMod, true⟩ ∧ (k.world.rest.midi.values .mvMod).value = 85 ∧
      AtDefault .mvPitchbend k.world.rest.midi ∧
      AtDefault .mvMod (stripTask ConnectMenu.quiet 4000 k).world.rest.midi := by
  have hboot : Firmware.boot ConnectMenu.quiet true .piano .off = .ok _ := rfl
  refine ⟨_, _, hboot, rfl, rfl, by decide +kernel, ?_, ?_⟩
  · have hbend := released_rests hboot (show run bendThenMod _ = .ok _ from rfl) rfl
      (show .mvPitchbend ∉ envelopeValues by decide)
    exact hbend.1 (by decide)
  · have hmod := released_rests hboot (show run bendThenMod _ = .ok _ from rfl) rfl
      (show .mvMod ∉ envelopeValues by decide)
    exact hmod.2 _ _ (by decide) rfl

/-- Once a link has come up, every receiver that is linked has pitch bend and modulation back
at their defaults after each poll under the flag that finds the strip let go, as long as the
same roles stay linked and every link takes all its bytes. -/
theorem released_at_receiver {before after : List Event} {l : Link} {a b : Answers}
    {server client : Bool} {t : Transport}
    (hboot : Firmware.boot start displayOk keymap saved = .ok i) (hbefore : run before i = .ok j)
    (hl : Resends j l) (hlink : step j (.link l a) = .ok k) (hafter : run after k = .ok k')
    (hback : EveryCall handsBack (before ++ .link l a :: after) i = true) {adcRead : UInt16}
    (hall : ∀ e ∈ .link l a :: after ++ [.strip adcRead b], e.All (Full server client))
    (hstays : Runs.throughout step (serverIs server) after k = true)
    (ht : linked server client t = true) (hoff : offThresholdValue < adcRead.toUInt32)
    (hflag : k'.world.rest.strip.resetOnRelease = true) {r : MidiValueRef}
    (hr : r ∉ envelopeValues) :
    (received r ((stripTask b adcRead k').world.rest.midi.outer t)).getLast? =
      some (bootValue r).defaultValue.toNat := by
  have hreached : Firmware.boot start displayOk keymap saved >>= run before = .ok j := by
    rw [hboot]
    exact hbefore
  have hrun : run (before ++ .link l a :: after) i = .ok k' := by
    simp only [run] at hbefore hafter ⊢
    rw [List.foldlM_append, hbefore]
    simp only [bind, Except.bind, List.foldlM_cons, hlink]
    exact hafter
  obtain ⟨hall, hlast⟩ := List.forall_mem_append.mp hall
  obtain ⟨hfull, hall⟩ := List.forall_mem_cons.mp hall
  obtain ⟨htold, hinStep⟩ := hl.inStep hlink (reached_told hreached) hfull
    (Runs.throughout_start hstays) ht
  have hserver : serverIs server k' = true := Runs.throughout_end hstays hafter
  have hpolled : Runs.throughout step (serverIs server) [.strip adcRead b] k' = true :=
    Bool.and_eq_true_iff.mpr ⟨hserver, hserver⟩
  have hinStep' := run_inStep ht after hafter htold hall hstays hinStep
  have hpoll : run [.strip adcRead b] k' = .ok (stripTask b adcRead k') := rfl
  have hcurrent :=
    (run_inStep ht _ hpoll (run_told hafter htold) hlast hpolled hinStep' r).value
  have hresting := reached_resting hboot hrun hback
  have hdefault := hresting.released hoff hflag b hr
  have hrange := analogStripTask_inRange (callback (links b.radio k'.world.rest.ble) b.accepts)
    adcRead k'.world.rest.strip hresting.inRange r
  have hvalue : ((stripTask b adcRead k').world.rest.midi.values r).value =
      (bootValue r).defaultValue := Eq.trans hdefault hrange.defaultValue
  exact hcurrent.trans (congrArg (fun v : UInt16 => some v.toNat) hvalue)

theorem bendThenMod_at_receiver :
    ∃ i j k, Firmware.boot ConnectMenu.quiet true .piano savedServer = .ok i ∧
      step i (.link (.serverConnected 0x40) ConnectMenu.quiet) = .ok j ∧
      run bendThenMod j = .ok k ∧
      let wires := (stripTask ConnectMenu.quiet 4000 k).world.rest.midi.outer
      (received .mvPitchbend (wires .server)).getLast? = some 8192 ∧
      (received .mvMod (wires .server)).getLast? = some 0 := by
  have hboot : Firmware.boot ConnectMenu.quiet true .piano savedServer = .ok _ := rfl
  have hall : ∀ e ∈ .link (.serverConnected 0x40) ConnectMenu.quiet :: bendThenMod ++
      [.strip 4000 ConnectMenu.quiet], e.All (Full true false) := by
    simp [bendThenMod, Event.All, KeyAnswers.All, Full, quietKeys, ConnectMenu.quiet]
  refine ⟨_, _, _, hboot, rfl, rfl, ?_, ?_⟩
  · exact released_at_receiver hboot (show run [] _ = .ok _ from rfl)
      (show Resends _ (.serverConnected 0x40) from rfl) rfl rfl rfl hall rfl rfl (by decide) rfl
      (by decide)
  · exact released_at_receiver hboot (show run [] _ = .ok _ from rfl)
      (show Resends _ (.serverConnected 0x40) from rfl) rfl rfl rfl hall rfl rfl (by decide) rfl
      (by decide)

end Runs

end Keytar.Firmware
