import Mathlib.Data.Nat.Notation
import Mathlib.Tactic.Common

/-!
# MIDI messages and the transports that carry them

One message goes to every transport that is up: the UART, the BLE server's
peer and the BLE client's peer. The two Bluetooth libraries answer a write with
the number of bytes that they took, which the environment chooses here for each
message. `Wires` records, for each transport, the messages that it accepted in
full. Writing to a UART that is enabled cannot fail.
-/
namespace Keytar.Midi

abbrev ConHandle := UInt16

/-- The link state that `send` looks at. A `conHandle` of `none` stands for
HCI_CON_HANDLE_INVALID; `clientConnected` is the client library's answer to
`ble_midi_client_is_connected`. -/
structure Links where
  midiUartInitialized : Bool
  conHandle : Option ConHandle
  clientConnected : Bool
  deriving DecidableEq, Repr

inductive Transport where
  | uart | server | client
  deriving DecidableEq, Repr

abbrev Message := List UInt8

/-- Bytes of one message that the Bluetooth libraries report as written. -/
structure Accepts where
  server : UInt8
  client : UInt8
  deriving DecidableEq, Repr

/-- Messages that each transport accepted in full, oldest first. -/
abbrev Wires := Transport → List Message

def Wires.push (w : Wires) (t : Transport) (msg : Message) : Wires :=
  Function.update w t (w t ++ [msg])

def idle : Wires := fun _ => []

def midiUartWrite (l : Links) (len : UInt8) (msg : Message) (w : Wires) : Bool × Wires :=
  if !l.midiUartInitialized then (false, w)
  else (true, w.push .uart (msg.take len.toNat))

def midiBleClientIsConnected (l : Links) : Bool := l.clientConnected

def midiBleIsConnected (l : Links) : Bool :=
  l.conHandle.isSome || midiBleClientIsConnected l

def midiBleServerWrite (l : Links) (a : Accepts) (len : UInt8) (msg : Message) (w : Wires) :
    Bool × Wires :=
  match l.conHandle with
  | none => (false, w)
  | some _ =>
      if a.server == len then (true, w.push .server (msg.take len.toNat)) else (false, w)

def midiBleClientWrite (l : Links) (a : Accepts) (len : UInt8) (msg : Message) (w : Wires) :
    Bool × Wires :=
  if !l.clientConnected then (true, w)
  else if a.client == len then (true, w.push .client (msg.take len.toNat)) else (false, w)

/-- The three writes always run in this order, whatever the earlier ones answer. -/
def send (l : Links) (a : Accepts) (len : UInt8) (msg : Message) (w : Wires) : Bool × Wires :=
  let uart := midiUartWrite l len msg w
  let server :=
    if midiBleIsConnected l then midiBleServerWrite l a len msg uart.2 else (true, uart.2)
  let client :=
    if midiBleClientIsConnected l then midiBleClientWrite l a len msg server.2
    else (true, server.2)
  (uart.1 && server.1 && client.1, client.2)

/-- Whether a transport takes a whole message of `len` bytes. -/
def takes (l : Links) (a : Accepts) (len : UInt8) : Transport → Bool
  | .uart => l.midiUartInitialized
  | .server => l.conHandle.isSome && a.server == len
  | .client => l.clientConnected && a.client == len

/-- The verdict of `send`. A client link alone makes it negative: the server
write is attempted for either role and has no handle to write to. -/
theorem send_ok (l : Links) (a : Accepts) (len : UInt8) (msg : Message) (w : Wires) :
    (send l a len msg w).1 =
      (takes l a len .uart && (takes l a len .server || !midiBleIsConnected l) &&
        (takes l a len .client || !l.clientConnected)) := by
  rcases l with ⟨_ | _, _ | _, _ | _⟩ <;>
    by_cases hs : a.server = len <;> by_cases hc : a.client = len <;>
      simp [send, takes, midiUartWrite, midiBleServerWrite, midiBleClientWrite,
        midiBleIsConnected, midiBleClientIsConnected, hs, hc]

theorem send_wires (l : Links) (a : Accepts) (len : UInt8) (msg : Message) (w : Wires)
    (t : Transport) :
    (send l a len msg w).2 t =
      if takes l a len t then w t ++ [msg.take len.toNat] else w t := by
  rcases l with ⟨_ | _, _ | _, _ | _⟩ <;>
    by_cases hs : a.server = len <;> by_cases hc : a.client = len <;> cases t <;>
      simp [send, takes, midiUartWrite, midiBleServerWrite, midiBleClientWrite,
        midiBleIsConnected, midiBleClientIsConnected, Wires.push, hs, hc]

def cmdNoteOn : UInt8 := 0x90
def cmdNoteOff : UInt8 := 0x80
def cmdCc : UInt8 := 0xb0
def cmdPitchbend : UInt8 := 0xe0

def controlAllNotesOffB1 : UInt8 := 123
def controlAllNotesOffB2 : UInt8 := 0

def ccModulation : UInt8 := 1
def ccSoundController3Release : UInt8 := 72
def ccSoundController4Attack : UInt8 := 73
def ccSoundController6Decay : UInt8 := 75
def ccSoundController7Sustain : UInt8 := 76

/-- The bytes that `midi_note_on` hands to `send`. -/
def midiNoteOn (note : UInt8) : Message := [cmdNoteOn, note, 127]

def midiNoteOff (note : UInt8) : Message := [cmdNoteOff, note, 127]

def midiClearNotes : Message := [cmdCc, controlAllNotesOffB1, controlAllNotesOffB2]

def midiPitchbend (low high : UInt8) : Message := [cmdPitchbend, low, high]

/-- The five `midi_cc_*` functions differ in the controller number alone. -/
def midiCc (controller value : UInt8) : Message := [cmdCc, controller, value]

def midiCcMod : UInt8 → Message := midiCc ccModulation
def midiCcAttack : UInt8 → Message := midiCc ccSoundController4Attack
def midiCcDecay : UInt8 → Message := midiCc ccSoundController6Decay
def midiCcSustain : UInt8 → Message := midiCc ccSoundController7Sustain
def midiCcRelease : UInt8 → Message := midiCc ccSoundController3Release

end Keytar.Midi
