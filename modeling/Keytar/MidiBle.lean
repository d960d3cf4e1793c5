import Keytar.Midi
import Mathlib.Data.Int.Notation

/-!
# Bluetooth roles

The flags of the BLE server and the BLE client, the server's connection handle
and the state to start with after the next reset. The calls into the radio and
the client library are logged in their order; the redraws that some of the C
functions end with are left to their callers. What the radio and the library
answer is a parameter.
-/
namespace Keytar.MidiBle
open Midi

abbrev Addr := Vector UInt8 6

/-- `ble_mode_t`; a stored value that is none of these starts nothing, like `off`. -/
inductive BleMode where
  | off | client | server
  deriving DecidableEq, Repr

structure BleState where
  mode : BleMode
  connectedAddr : Addr
  connectedAddrType : ℤ
  deriving DecidableEq

def BleState.off : BleState := ⟨.off, #v[0, 0, 0, 0, 0, 0], 0⟩

/-- Calls of cyw43_arch and of the client library that have an effect. -/
inductive LibCall where
  | cyw43ArchInit (failed : Bool)
  | cyw43ArchDeinit
  | scanBegin
  | scanEnd
  | setLastConnected (addrType : ℤ) (addr : Addr)
  | requestConnect (index : UInt8)
  | requestDisconnect
  deriving DecidableEq

structure Ble where
  conHandle : Option ConHandle
  serverInitialized : Bool
  clientInitialized : Bool
  initialState : BleState
  calls : List LibCall

def Ble.boot : Ble := ⟨none, false, false, .off, []⟩

/-- What the Bluetooth side answers during one event. -/
structure Radio where
  cyw43Fails : Bool
  clientConnected : Bool
  lastConnected : ℤ × Addr

/-- HCI_CON_HANDLE_INVALID is 0xffff. -/
def handleOf (handle : ConHandle) : Option ConHandle :=
  if handle = 0xffff then none else some handle

def Ble.log (b : Ble) (call : LibCall) : Ble := { b with calls := b.calls ++ [call] }

def midiBleServerInit (r : Radio) (b : Ble) : Ble :=
  if r.cyw43Fails then b.log (.cyw43ArchInit true)
  else { b.log (.cyw43ArchInit false) with serverInitialized := true }

/-- The server's `midi_ble_deinit`. -/
def midiBleDeinit (b : Ble) : Ble :=
  { b.log .cyw43ArchDeinit with serverInitialized := false, conHandle := none }

/-- `midi_ble_client_init_with_addr` up to its redraw; the first component says
whether it gets there. -/
def clientInitWithAddr (r : Radio) (addr : Option (ℤ × Addr)) (b : Ble) : Bool × Ble :=
  if r.cyw43Fails then (false, b.log (.cyw43ArchInit true))
  else
    let b := b.log (.cyw43ArchInit false)
    let b := match addr with
      | none => b.log .scanBegin
      | some (addrType, addr) => (b.log (.setLastConnected addrType addr)).log (.requestConnect 0)
    (true, { b with clientInitialized := true })

/-- `midi_ble_client_deinit` up to its redraw. -/
def clientDeinit (b : Ble) : Ble :=
  { ((b.log .scanEnd).log .requestDisconnect).log .cyw43ArchDeinit with
    clientInitialized := false }

def midiBleClientConnect (index : UInt8) (b : Ble) : Ble := b.log (.requestConnect index)

def midiBleClientDisconnect (b : Ble) : Ble := (b.log .requestDisconnect).log .scanBegin

def midiBleGetState (r : Radio) (b : Ble) : BleState :=
  if b.serverInitialized then { BleState.off with mode := .server }
  else if r.clientConnected then
    { mode := .client, connectedAddr := r.lastConnected.2, connectedAddrType := r.lastConnected.1 }
  else .off

def midiBleSetInitialState (state : BleState) (b : Ble) : Ble := { b with initialState := state }

def midiBleSetStateAsInitial (r : Radio) (b : Ble) : Ble :=
  midiBleSetInitialState (midiBleGetState r b) b

/-- The links that a message finds, once `midi_uart_init` has found the UART enabled. Nothing
but that call, at the start, sets the flag of the UART. -/
def links (r : Radio) (b : Ble) : Links := ⟨true, b.conHandle, r.clientConnected⟩

/-- Whether the radio is up after a log of calls. -/
def radioUp (calls : List LibCall) : Bool :=
  calls.foldl (fun up call =>
    match call with
    | .cyw43ArchInit failed => !failed
    | .cyw43ArchDeinit => false
    | _ => up) false

/-- The call fits a radio that is up, or down. -/
def LibCall.Fits (up : Bool) : LibCall → Prop
  | .cyw43ArchInit _ => up = false
  | .cyw43ArchDeinit => up = true
  | _ => True

/-- The radio is initialised only while it is down and deinitialised only while it is up. -/
def Disciplined (calls : List LibCall) : Prop :=
  ∀ (i : ℕ) (call : LibCall), calls[i]? = some call → call.Fits (radioUp (calls.take i))

theorem radioUp_concat (calls : List LibCall) (call : LibCall) :
    radioUp (calls ++ [call]) =
      match call with
      | .cyw43ArchInit failed => !failed
      | .cyw43ArchDeinit => false
      | _ => radioUp calls := by
  rw [radioUp, List.foldl_append]
  cases call <;> rfl

theorem disciplined_nil : Disciplined [] := fun i call h => by simp at h

theorem Disciplined.concat {calls : List LibCall} (h : Disciplined calls) {call : LibCall}
    (hc : call.Fits (radioUp calls)) : Disciplined (calls ++ [call]) := by
  intro i d hi
  rcases Nat.lt_or_ge i calls.length with hlt | hge
  · rw [List.getElem?_append_left hlt] at hi
    rw [List.take_append_of_le_length (Nat.le_of_lt hlt)]
    exact h i d hi
  · have hlen := (List.getElem?_eq_some_iff.mp hi).choose
    have hi' : i = calls.length := by
      simp only [List.length_append, List.length_singleton] at hlen
      omega
    subst i
    obtain rfl : call = d := by simpa using hi
    simpa using hc

/-- The life cycle of the two roles. -/
structure Ble.Sound (b : Ble) : Prop where
  oneRole : ¬ (b.serverInitialized = true ∧ b.clientInitialized = true)
  radio : radioUp b.calls = (b.serverInitialized || b.clientInitialized)
  disciplined : Disciplined b.calls
  handle : b.serverInitialized = false → b.conHandle = none

theorem boot_sound : Ble.boot.Sound :=
  ⟨by simp [Ble.boot], rfl, disciplined_nil, fun _ => rfl⟩

section Sound
variable {b : Ble}

/-- A call that does not concern the radio. -/
def LibCall.Neutral : LibCall → Prop
  | .cyw43ArchInit _ => False
  | .cyw43ArchDeinit => False
  | _ => True

theorem Ble.Sound.log (h : b.Sound) (call : LibCall) (hcall : call.Neutral) :
    (b.log call).Sound := by
  have hup : radioUp (b.calls ++ [call]) = radioUp b.calls := by
    rw [radioUp_concat]
    cases call <;> first | rfl | exact hcall.elim
  have hfits : call.Fits (radioUp b.calls) := by
    cases call <;> trivial
  exact ⟨h.oneRole, hup.trans h.radio, h.disciplined.concat hfits, h.handle⟩

theorem Ble.Sound.initFailed (h : b.Sound) (hs : b.serverInitialized = false)
    (hc : b.clientInitialized = false) : (b.log (.cyw43ArchInit true)).Sound := by
  have hdown : radioUp b.calls = false := by rw [h.radio, hs, hc]; rfl
  refine ⟨h.oneRole, ?_, h.disciplined.concat hdown, h.handle⟩
  simp [Ble.log, radioUp_concat, hs, hc]

theorem Ble.Sound.startServer (h : b.Sound) (hs : b.serverInitialized = false)
    (hc : b.clientInitialized = false) (r : Radio) : (midiBleServerInit r b).Sound := by
  have hdown : radioUp b.calls = false := by rw [h.radio, hs, hc]; rfl
  unfold midiBleServerInit
  split_ifs with hf
  · exact h.initFailed hs hc
  · refine ⟨by simp [Ble.log, hc], ?_, h.disciplined.concat hdown, by simp⟩
    simp [Ble.log, radioUp_concat]

theorem Ble.Sound.stopServer (h : b.Sound) (hs : b.serverInitialized = true) :
    (midiBleDeinit b).Sound := by
  have hc : b.clientInitialized = false := by simpa [hs] using h.oneRole
  have hup : radioUp b.calls = true := by rw [h.radio, hs]; rfl
  refine ⟨by simp [midiBleDeinit], ?_, h.disciplined.concat hup, fun _ => rfl⟩
  simp [midiBleDeinit, Ble.log, radioUp_concat, hc]

theorem Ble.Sound.startClient (h : b.Sound) (hs : b.serverInitialized = false)
    (hc : b.clientInitialized = false) (r : Radio) (addr : Option (ℤ × Addr)) :
    (clientInitWithAddr r addr b).2.Sound := by
  have hdown : radioUp b.calls = false := by rw [h.radio, hs, hc]; rfl
  unfold clientInitWithAddr
  split_ifs with hf
  · exact h.initFailed hs hc
  -- the library calls in between do not read the flag that is set after them
  have hup : Ble.Sound { b.log (.cyw43ArchInit false) with clientInitialized := true } := by
    refine ⟨by simp [Ble.log, hs], ?_, h.disciplined.concat hdown, h.handle⟩
    simp [Ble.log, radioUp_concat]
  cases addr with
  | none => exact hup.log .scanBegin trivial
  | some addr =>
      exact (hup.log (.setLastConnected addr.1 addr.2) trivial).log (.requestConnect 0) trivial

theorem Ble.Sound.stopClient (h : b.Sound) (hc : b.clientInitialized = true) :
    (clientDeinit b).Sound := by
  have hs : b.serverInitialized = false := by simpa [hc] using h.oneRole
  have hquiet := (h.log .scanEnd trivial).log .requestDisconnect trivial
  have hup : radioUp ((b.log .scanEnd).log .requestDisconnect).calls = true := by
    rw [hquiet.radio]
    simp [Ble.log, hc]
  refine ⟨by simp [clientDeinit], ?_, hquiet.disciplined.concat hup, hquiet.handle⟩
  refine (radioUp_concat _ _).trans ?_
  simp [clientDeinit, Ble.log, hs]

theorem Ble.Sound.clientDisconnect (h : b.Sound) : (midiBleClientDisconnect b).Sound :=
  (h.log .requestDisconnect trivial).log .scanBegin trivial

theorem Ble.Sound.setHandle (h : b.Sound) (hs : b.serverInitialized = true)
    (handle : Option ConHandle) : Ble.Sound { b with conHandle := handle } :=
  ⟨h.oneRole, h.radio, h.disciplined, fun hoff => by simp [hs] at hoff⟩

theorem Ble.Sound.setInitial (h : b.Sound) (state : BleState) :
    (midiBleSetInitialState state b).Sound :=
  ⟨h.oneRole, h.radio, h.disciplined, h.handle⟩

end Sound

end Keytar.MidiBle
