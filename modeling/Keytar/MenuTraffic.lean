import Keytar.MenuEffects
import Keytar.Traffic

/-!
# What the menus put on the wires

Where an input returns, what it has done to the controller values and the wires is some
traffic over the links of the event. Within one input the server's link can only go
away, so the links of every piece lie between those before the input and those after it.
-/
namespace Keytar.MenuTraffic
open Memory Midi MidiBle MidiValues MenuEffects SendHistory Traffic Ui Menus
open Relation (ReflTransGen)
open Runs (Keeps)

/-- What the client is said to be and what is taken of a message, at every write. -/
def answered (q : Bool → Accepts → Prop) : Sending → Prop
  | .values l a _ => ∀ r, q l.clientConnected (a r)
  | .message l a _ => q l.clientConnected a

structure Within (q : Bool → Accepts → Prop) (c c' : Option ConHandle) (x : Sending) : Prop where
  uart : x.links.midiUartInitialized = true
  before : Loses c x.links.conHandle
  after : Loses x.links.conHandle c'
  answered : answered q x

/-- From `x` to `y` the wires have got some traffic, with these messages of the keys. -/
def Emits (q : Bool → Accepts → Prop) (ms : List Message) (x y : App) : Prop :=
  Loses x.ble.conHandle y.ble.conHandle ∧
    ∃ xs, y.midi = carry xs x.midi ∧ xs.flatMap Sending.messages = ms ∧
      ∀ z ∈ xs, Within q x.ble.conHandle y.ble.conHandle z

section Rules
variable {q : Bool → Accepts → Prop} {ms ms' : List Message} {x y z : App}

theorem Emits.quiet (hmidi : y.midi = x.midi) (hble : Loses x.ble.conHandle y.ble.conHandle) :
    Emits q [] x y :=
  ⟨hble, [], hmidi, rfl, fun _ h => (List.not_mem_nil h).elim⟩

theorem Emits.refl (x : App) : Emits q [] x x := .quiet rfl (.refl _)

theorem Emits.trans (h : Emits q ms x y) (h' : Emits q ms' y z) : Emits q (ms ++ ms') x z := by
  obtain ⟨hble, xs, hmidi, rfl, hxs⟩ := h
  obtain ⟨hble', ys, hmidi', rfl, hys⟩ := h'
  refine ⟨hble.trans hble', xs ++ ys, ?_, List.flatMap_append, fun w hw => ?_⟩
  · rw [hmidi', hmidi, carry, carry, carry, List.foldl_append]
  · rcases List.mem_append.mp hw with hw | hw
    · exact ⟨(hxs w hw).uart, (hxs w hw).before, (hxs w hw).after.trans hble', (hxs w hw).answered⟩
    · exact ⟨(hys w hw).uart, hble.trans (hys w hw).before, (hys w hw).after, (hys w hw).answered⟩

/-- An operation on the values, over links that stay. -/
theorem Emits.values {a : Answers} (ha : ∀ r, q a.radio.clientConnected (a.accepts r))
    (op : SendHistory.Op) (hble : y.ble.conHandle = x.ble.conHandle)
    (hmidi : y.midi = op.run (callback (links a.radio x.ble) a.accepts) x.midi) :
    Emits q [] x y := by
  refine ⟨.inl hble, [.values (links a.radio x.ble) a.accepts op], hmidi, rfl, ?_⟩
  exact List.forall_mem_singleton.mpr ⟨rfl, .refl _, .inl hble, ha⟩

end Rules

/-- Where the operation returns, it has sent controller values at most. -/
abbrev Tells (q : Bool → Accepts → Prop) (w : World) (r : Except Fault World) : Prop :=
  Keeps (fun w w' : World => Emits q [] w.rest w'.rest) w r

section Effects
variable {q : Bool → Accepts → Prop} {a : Answers}
  (ha : ∀ r, q a.radio.clientConnected (a.accepts r))
include ha

theorem emits_of_effect {x y : App} (h : Effect a x y) : Emits q [] x y := by
  cases h with
  | upkeep h =>
      cases h with
      | free _ | fill _ _ _ _ _ => exact .quiet rfl (.refl _)
      | roles f hf => exact .quiet rfl hf
  | item _ _ | cursor _ _ _ | keymap _ | strip _ => exact .quiet rfl (.refl _)
  | values op => exact .values ha op rfl rfl

theorem emits_of_effects {x y : App} (h : ReflTransGen (Effect a) x y) : Emits q [] x y := by
  induction h with
  | refl => exact .refl x
  | tail _ heffect ih => exact ih.trans (emits_of_effect ha heffect)

theorem tells_of_does {w : World} {r : Except Fault World} (h : Does a w r) : Tells q w r :=
  fun w' hw' => emits_of_effects ha (h w' hw')

end Effects

end Keytar.MenuTraffic
