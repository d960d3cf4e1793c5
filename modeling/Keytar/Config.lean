import Keytar.Lib.Bytes
import Keytar.MenuSteps

/-!
# The saved settings

A `config_t` is built on the stack, compared byte by byte with the last sector of
the flash and written there if they differ. Both sides are bytes here, laid out as
the C compiler does it; the `ble_state_t` in them is read and written through its
members. After a reset the settings are read back from the flash.
-/
namespace Keytar.Config
open Bytes KeyboardMatrix Memory MidiBle Menus Ui

/-- How wide an enumeration is: the smallest type that fits, which is what the ABI
of the target asks for, or an `int`. -/
inductive EnumAbi where
  | short | int
  deriving DecidableEq, Repr

def EnumAbi.size : EnumAbi → ℕ
  | .short => 1
  | .int => 4

section BleState
variable (abi : EnumAbi)

def addrOffset : ℕ := abi.size

def addrTypeOffset : ℕ := alignUp (addrOffset abi + 6) 4

/-- `sizeof(ble_state_t)`. -/
def bleStateSize : ℕ := alignUp (addrTypeOffset abi + 4) 4

theorem addr_fits : addrOffset abi + 6 ≤ addrTypeOffset abi := by cases abi <;> decide

theorem addrType_fits : addrTypeOffset abi + 4 = bleStateSize abi := by cases abi <;> decide

def modeNumber : BleMode → ℕ
  | .off => 0
  | .client => 1
  | .server => 2

/-- The `switch` over a stored mode; its default is the branch of `OFF`. -/
def modeOf : ℕ → BleMode
  | 1 => .client
  | 2 => .server
  | _ => .off

def modeAt (m : Mem) : BleMode := modeOf (numberAt m 0 abi.size)

def addrAt (m : Mem) : Addr := .ofFn fun i => m (addrOffset abi + i)

def addrTypeAt (m : Mem) : ℤ := intAt m (addrTypeOffset abi)

def setMode (mode : BleMode) (m : Mem) : Mem := storeNumber m 0 abi.size (modeNumber mode)

def setAddr (addr : Addr) (m : Mem) : Mem :=
  store m (addrOffset abi) 6 fun i => addr.toList.getD i 0

def setAddrType (addrType : ℤ) (m : Mem) : Mem := storeInt m (addrTypeOffset abi) addrType

/-- What the members of a `ble_state_t` say. -/
def bleStateOf (m : Mem) : BleState := ⟨modeAt abi m, addrAt abi m, addrTypeAt abi m⟩

section Members
variable {abi} {m : Mem}

@[simp] theorem modeAt_setMode (mode : BleMode) : modeAt abi (setMode abi mode m) = mode := by
  rw [modeAt, setMode, numberAt_storeNumber]
  cases abi <;> cases mode <;> rfl

@[simp] theorem modeAt_setAddr (addr : Addr) : modeAt abi (setAddr abi addr m) = modeAt abi m := by
  rw [modeAt, setAddr, numberAt_store_out (.inl (by simp [addrOffset])), modeAt]

@[simp] theorem modeAt_setAddrType (addrType : ℤ) :
    modeAt abi (setAddrType abi addrType m) = modeAt abi m := by
  have hfits := addr_fits abi
  rw [modeAt, setAddrType, storeInt, storeNumber,
    numberAt_store_out (.inl (by simp only [addrOffset] at hfits; omega)), modeAt]

@[simp] theorem addrAt_setMode (mode : BleMode) :
    addrAt abi (setMode abi mode m) = addrAt abi m := by
  refine congrArg Vector.ofFn (funext fun i => ?_)
  rw [setMode, storeNumber, store_out (.inr (by simp [addrOffset]))]

@[simp] theorem addrAt_setAddr (addr : Addr) : addrAt abi (setAddr abi addr m) = addr := by
  apply Vector.ext
  intro i hi
  rw [addrAt, Vector.getElem_ofFn, setAddr, store_in hi]
  simp [hi]

@[simp] theorem addrAt_setAddrType (addrType : ℤ) :
    addrAt abi (setAddrType abi addrType m) = addrAt abi m := by
  have hfits := addr_fits abi
  refine congrArg Vector.ofFn (funext fun i => ?_)
  rw [setAddrType, storeInt, storeNumber, store_out (.inl (by omega))]

@[simp] theorem addrTypeAt_setMode (mode : BleMode) :
    addrTypeAt abi (setMode abi mode m) = addrTypeAt abi m := by
  have hfits := addr_fits abi
  exact intAt_congr (numberAt_store_out (.inr (by simp only [addrOffset] at hfits; omega)))

@[simp] theorem addrTypeAt_setAddr (addr : Addr) :
    addrTypeAt abi (setAddr abi addr m) = addrTypeAt abi m :=
  intAt_congr (numberAt_store_out (.inr (addr_fits abi)))

theorem addrTypeAt_setAddrType {addrType : ℤ} (h : InInt addrType) :
    addrTypeAt abi (setAddrType abi addrType m) = addrType := intAt_storeInt h

/-- The members lie in the first bytes. -/
theorem bleStateOf_congr {m' : Mem} (h : SameBytes (bleStateSize abi) m m') :
    bleStateOf abi m = bleStateOf abi m' := by
  have hfits := addr_fits abi
  have hsize := addrType_fits abi
  simp only [addrOffset] at hfits
  have hmode : modeAt abi m = modeAt abi m' :=
    congrArg modeOf (numberAt_congr fun i hi => h _ (by omega))
  have haddr : addrAt abi m = addrAt abi m' :=
    congrArg Vector.ofFn (funext fun i => h _ (by simp only [addrOffset]; omega))
  have htype : addrTypeAt abi m = addrTypeAt abi m' :=
    intAt_congr (numberAt_congr fun i hi => h _ (by omega))
  rw [bleStateOf, bleStateOf, hmode, haddr, htype]

end Members

/-- The static objects `ble_state` and `initial_state`. -/
structure BleMemory where
  bleState : Mem
  initialState : Mem

/-- `midi_ble_get_state` on the bytes that it leaves in `ble_state`. -/
def bleStateBytes (r : Radio) (b : Ble) (bleState : Mem) : Mem :=
  let m := setMode abi .off (setAddrType abi 0 (setAddr abi (.replicate 6 0) bleState))
  if b.serverInitialized then setMode abi .server m
  else if r.clientConnected then
    setAddr abi r.lastConnected.2 (setAddrType abi r.lastConnected.1 (setMode abi .client m))
  else m

/-- `midi_ble_set_state_as_initial` on the bytes. -/
def stateAsInitialBytes (r : Radio) (b : Ble) (m : BleMemory) : BleMemory :=
  let bleState := bleStateBytes abi r b m.bleState
  ⟨bleState, store m.initialState 0 (bleStateSize abi) bleState⟩

/-- The bytes hold the state that the query without bytes returns. -/
theorem bleStateOf_bleStateBytes {r : Radio} (hint : InInt r.lastConnected.1) (b : Ble) (m : Mem) :
    bleStateOf abi (bleStateBytes abi r b m) = midiBleGetState r b := by
  have hzero : InInt 0 := by simp [InInt]
  unfold bleStateBytes midiBleGetState
  split_ifs with hs hc
  · simp [bleStateOf, BleState.off, addrTypeAt_setAddrType hzero]
    rfl
  · simp [bleStateOf, addrTypeAt_setAddrType hint]
  · simp [bleStateOf, BleState.off, addrTypeAt_setAddrType hzero]
    rfl

theorem bleStateOf_stateAsInitialBytes {r : Radio} (hint : InInt r.lastConnected.1) (b : Ble)
    (m : BleMemory) : bleStateOf abi (stateAsInitialBytes abi r b m).initialState =
      (midiBleSetStateAsInitial r b).initialState := by
  refine (bleStateOf_congr fun i hi => ?_).trans (bleStateOf_bleStateBytes abi hint b m.bleState)
  have hin : store m.initialState 0 (bleStateSize abi) (bleStateBytes abi r b m.bleState) (0 + i) =
      bleStateBytes abi r b m.bleState i := store_in hi
  rwa [Nat.zero_add] at hin

end BleState

section Flash

def configMagicNumber : ℕ := 0x4e62
def configVersion : ℕ := 3
def flashPageSize : ℕ := 256
def flashSectorSize : ℕ := 4096

/-- The flash from `CONFIG_FLASH_OFFSET` on, and how often it was worn. -/
structure Flash where
  bytes : Mem
  erases : ℕ
  programs : ℕ

def flashRangeErase (count : ℕ) (f : Flash) : Flash :=
  { f with bytes := memset f.bytes 0 count 0xff, erases := f.erases + 1 }

def flashRangeProgram (data : Mem) (count : ℕ) (f : Flash) : Flash :=
  { f with bytes := store f.bytes 0 count data, programs := f.programs + 1 }

variable (abi : EnumAbi)

/-- The member `ble` of a `config_t`, aligned for the `int` in it. -/
def bleOffset : ℕ := alignUp (4 + 1) 4

/-- `sizeof(config_t)`. -/
def configSize : ℕ := alignUp (bleOffset + bleStateSize abi) 4

theorem configSize_eq : configSize abi = bleOffset + bleStateSize abi := by cases abi <;> decide

theorem config_fits : configSize abi < flashPageSize := by cases abi <;> decide

/-- The local `config_t` of `save_internal`, over what the stack held before. -/
def localConfig (stack : Mem) (keymapIndex : ℕ) (initialState : Mem) : Mem :=
  let config := storeNumber stack 0 2 configMagicNumber
  let config := storeNumber config 2 2 configVersion
  let config := storeNumber config 4 1 keymapIndex
  store config bleOffset (bleStateSize abi) initialState

def saveInternal (stack : Mem) (keymap : Keymap) (initialState : Mem) (f : Flash) : Flash :=
  let config := localConfig abi stack (getKeymapIndex keymap) initialState
  if SameBytes (configSize abi) config f.bytes then f
  else
    let buffer := store (fun _ => 0) 0 (configSize abi) config
    flashRangeProgram buffer flashPageSize (flashRangeErase flashSectorSize f)

def setKeymapByIndex (index : ℕ) (w : World) : Except Fault World :=
  if index ≥ keymaps.length then pure w
  else do
    let keymap ← readAt keymaps index
    setKeymap keymap w

def loadInternal (savedConfig : Mem) (w : World) : Except Fault World :=
  if numberAt savedConfig 0 2 ≠ configMagicNumber then pure w
  else if numberAt savedConfig 2 2 ≠ configVersion then pure w
  else do
    let w ← setKeymapByIndex (numberAt savedConfig 4 1) w
    pure (onBle (midiBleSetInitialState (bleStateOf abi (window savedConfig bleOffset))) w)

/-- `main` up to its loop, with the settings from the flash. -/
def bootFromFlash (a : Answers) (displayOk : Bool) (f : Flash) : Except Fault World := do
  let w ← displayInit displayOk reset
  let w ← loadInternal abi f.bytes w
  let w ← midiBleInit a w
  pure (assignStrip a (some .mvPitchbend) true w)

variable {abi} {stack : Mem} {keymap : Keymap} {initialState : Mem} {f : Flash}

section LocalConfig
variable {keymapIndex : ℕ}

theorem localConfig_magic :
    numberAt (localConfig abi stack keymapIndex initialState) 0 2 = configMagicNumber := by
  rw [localConfig, numberAt_store_out (.inl (by decide)), storeNumber,
    numberAt_store_out (.inl (by decide)), storeNumber, numberAt_store_out (.inl (by decide)),
    numberAt_storeNumber]
  rfl

theorem localConfig_version :
    numberAt (localConfig abi stack keymapIndex initialState) 2 2 = configVersion := by
  rw [localConfig, numberAt_store_out (.inl (by decide)), storeNumber,
    numberAt_store_out (.inl (by decide)), numberAt_storeNumber]
  rfl

theorem localConfig_keymap (keymap : Keymap) :
    numberAt (localConfig abi stack (getKeymapIndex keymap) initialState) 4 1 =
      getKeymapIndex keymap := by
  rw [localConfig, numberAt_store_out (.inl (by decide)), numberAt_storeNumber]
  cases keymap <;> rfl

theorem localConfig_ble {i : ℕ} (hi : i < bleStateSize abi) :
    window (localConfig abi stack keymapIndex initialState) bleOffset i = initialState i :=
  store_in hi

/-- No member covers the three bytes behind the keymap index. -/
theorem localConfig_padding {i : ℕ} (hlow : 5 ≤ i) (hhigh : i < bleOffset) :
    localConfig abi stack keymapIndex initialState i = stack i := by
  rw [localConfig, store_out (.inl hhigh), storeNumber, store_out (.inr (by omega)), storeNumber,
    store_out (.inr (by omega)), storeNumber, store_out (.inr (by omega))]

end LocalConfig

theorem saveInternal_skipped (h : SameBytes (configSize abi)
    (localConfig abi stack (getKeymapIndex keymap) initialState) f.bytes) :
    saveInternal abi stack keymap initialState f = f := if_pos h

theorem saveInternal_written (h : ¬ SameBytes (configSize abi)
    (localConfig abi stack (getKeymapIndex keymap) initialState) f.bytes) :
    saveInternal abi stack keymap initialState f =
      flashRangeProgram (store (fun _ => 0) 0 (configSize abi)
        (localConfig abi stack (getKeymapIndex keymap) initialState)) flashPageSize
        (flashRangeErase flashSectorSize f) := if_neg h

/-- After a save the flash holds the bytes of the local object, written or not. -/
theorem saveInternal_stores : SameBytes (configSize abi)
    (saveInternal abi stack keymap initialState f).bytes
    (localConfig abi stack (getKeymapIndex keymap) initialState) := by
  intro i hi
  have hpage := config_fits abi
  by_cases hsame : SameBytes (configSize abi)
      (localConfig abi stack (getKeymapIndex keymap) initialState) f.bytes
  · rw [saveInternal_skipped hsame]
    exact (hsame i hi).symm
  · rw [saveInternal_written hsame]
    simp only [flashRangeProgram, store]
    rw [if_pos (by omega), if_pos (by omega), Nat.sub_zero, Nat.sub_zero]

theorem setKeymapByIndex_getKeymapIndex (keymap : Keymap) (w : World) :
    setKeymapByIndex (getKeymapIndex keymap) w = setKeymap keymap w := by
  cases keymap <;> rfl

theorem loadInternal_ignored {savedConfig : Mem}
    (h : numberAt savedConfig 0 2 ≠ configMagicNumber ∨
      numberAt savedConfig 2 2 ≠ configVersion) (w : World) :
    loadInternal abi savedConfig w = .ok w := by
  unfold loadInternal
  split_ifs with hmagic hversion
  · rfl
  · rfl
  · rcases h with h | h
    · exact absurd h hmagic
    · exact absurd h hversion

/-- What has been saved is loaded back. -/
theorem loadInternal_saved (w : World) :
    loadInternal abi (saveInternal abi stack keymap initialState f).bytes w = (do
      let w ← setKeymap keymap w
      pure (onBle (midiBleSetInitialState (bleStateOf abi initialState)) w)) := by
  have hsize := configSize_eq abi
  have hoffset : bleOffset = 8 := rfl
  have hstored :
      SameBytes (configSize abi) (saveInternal abi stack keymap initialState f).bytes _ :=
    saveInternal_stores
  have hnumber {offset n : ℕ} (hin : offset + n ≤ 8) :=
    numberAt_congr fun i (hi : i < n) => hstored (offset + i) (by omega)
  have hble : bleStateOf abi (window (saveInternal abi stack keymap initialState f).bytes
      bleOffset) = bleStateOf abi initialState :=
    bleStateOf_congr fun i hi => (hstored _ (by omega)).trans (localConfig_ble hi)
  unfold loadInternal
  rw [hnumber (by decide), hnumber (by decide), hnumber (by decide), localConfig_magic,
    localConfig_version, localConfig_keymap, if_neg (by simp), if_neg (by simp),
    setKeymapByIndex_getKeymapIndex, hble]

/-- Whatever the flash holds, the boot is one of those that the runs start from. -/
theorem bootFromFlash_eq (a : Answers) (displayOk : Bool) (f : Flash) :
    ∃ keymap saved, bootFromFlash abi a displayOk f = bootUp a displayOk keymap saved := by
  unfold bootFromFlash loadInternal
  generalize bleStateOf abi (window f.bytes bleOffset) = saved
  split_ifs
  · exact ⟨.piano, .off, by cases displayOk <;> rfl⟩
  · exact ⟨.piano, .off, by cases displayOk <;> rfl⟩
  · unfold setKeymapByIndex
    split_ifs with hindex
    · exact ⟨.piano, saved, by cases displayOk <;> rfl⟩
    · have hlt : numberAt f.bytes 4 1 < keymaps.length := Nat.lt_of_not_le hindex
      refine ⟨keymaps[numberAt f.bytes 4 1], saved, ?_⟩
      rw [readAt_ok hlt]
      cases displayOk <;> rfl

/-- A boot from the flash that a save has left is a boot with the saved settings. -/
theorem bootFromFlash_saved (a : Answers) (displayOk : Bool) :
    bootFromFlash abi a displayOk (saveInternal abi stack keymap initialState f) =
      bootUp a displayOk keymap (bleStateOf abi initialState) := by
  unfold bootFromFlash bootUp
  simp only [loadInternal_saved, bind_assoc, pure_bind]

end Flash

section Reboot

/-- The role that a stored state starts. -/
def startRole (r : Radio) (b : Ble) : Ble :=
  match b.initialState.mode with
  | .server => midiBleServerInit r b
  | .client =>
      (clientInitWithAddr r (some (b.initialState.connectedAddrType,
        b.initialState.connectedAddr)) b).2
  | .off => b

theorem midiBleInit_starts {d : Option Element} {w : World} (h : Sane d False [] w) (a : Answers) :
    ∃ w', midiBleInit a w = .ok w' ∧
      w'.rest = { w.rest with ble := startRole a.radio w.rest.ble } := by
  unfold midiBleInit startRole
  cases w.rest.ble.initialState.mode with
  | off => exact ⟨w, rfl, rfl⟩
  | server => exact ⟨_, rfl, rfl⟩
  | client =>
      let addr := (w.rest.ble.initialState.connectedAddrType, w.rest.ble.initialState.connectedAddr)
      have hsane := h.withRest
        { w.rest with ble := (clientInitWithAddr a.radio (some addr) w.rest.ble).2 } rfl
      simp only [midiBleClientInitWithAddr]
      cases (clientInitWithAddr a.radio (some addr) w.rest.ble).1 with
      | false => exact ⟨_, rfl, rfl⟩
      | true =>
          obtain ⟨w', hw', -, hrest, -⟩ := hsane.render
          exact ⟨w', hw', hrest⟩

/-- The role that is up after the reset of a server, or of a client that was linked to
`peer`, and what has been asked of the radio and the client library for it. -/
structure Restarts (server fails : Bool) (peer : ℤ × Addr) (b : Ble) : Prop where
  serverInitialized : b.serverInitialized = (server && !fails)
  clientInitialized : b.clientInitialized = (!server && !fails)
  calls : b.calls = .cyw43ArchInit fails ::
    if server || fails then [] else [.setLastConnected peer.1 peer.2, .requestConnect 0]

/-- What either role does with the state after a reset. -/
theorem restarts_booted (r : Radio) (server : Bool) (peer : ℤ × Addr) (state : BleState) :
    Restarts server r.cyw43Fails peer
      (if server then midiBleServerInit r (midiBleSetInitialState state Ble.boot)
      else (clientInitWithAddr r (some peer) (midiBleSetInitialState state Ble.boot)).2) := by
  cases server with
  | true =>
      simp only [midiBleServerInit]
      cases r.cyw43Fails <;> exact ⟨rfl, rfl, rfl⟩
  | false =>
      simp only [clientInitWithAddr]
      cases r.cyw43Fails <;> exact ⟨rfl, rfl, rfl⟩

/-- The display and the settings after a reset. -/
theorem reset_loaded (displayOk : Bool) (keymap : Keymap) (state : BleState) :
    ∃ v, (do let v ← displayInit displayOk reset
             let v ← setKeymap keymap v
             pure (onBle (midiBleSetInitialState state) v)) = Except.ok v ∧
      Sane (statusElement displayOk) False [] v ∧ v.rest.keymap = keymap ∧
      v.rest.ble = midiBleSetInitialState state Ble.boot := by
  obtain ⟨v, hv, hsane, hrest⟩ := displayInit_sane False displayOk
  obtain ⟨u, hu, hsane', hrest', -⟩ :=
    (hsane.withRest { v.rest with keymap := keymap } rfl).render
  refine ⟨onBle (midiBleSetInitialState state) u, ?_, hsane'.withRest _ rfl, ?_, ?_⟩
  · simp only [hv, setKeymap, hu, bind, Except.bind]
    rfl
  · simp only [onBle, hrest']
  · simp only [onBle, hrest', hrest]
    rfl

/-- The keymap and the role survive a reset, whatever the flash and the stack held
before it and whatever the radio and the display answer after it: the server is up
again, or the client is and asks for the very address and type that it was linked to,
unless the radio fails. Flash that holds no settings of this version changes nothing. -/
theorem settings_survive_reset (abi : EnumAbi) (a : Answers) (w : World) (m : BleMemory)
    (stack : Mem) (f : Flash)
    (hrole : w.rest.ble.serverInitialized = true ∨ a.radio.clientConnected = true)
    (hint : InInt a.radio.lastConnected.1) (a' : Answers) (displayOk : Bool) :
    (∃ v w' : World,
      (do let v ← displayInit displayOk reset
          let initial := stateAsInitialBytes abi a.radio w.rest.ble m
          loadInternal abi (saveInternal abi stack w.rest.keymap initial.initialState f).bytes v) =
        .ok v ∧
      v.rest.ble = midiBleSetInitialState (midiBleGetState a.radio w.rest.ble) Ble.boot ∧
      midiBleInit a' v = .ok w' ∧
      w'.rest.keymap = w.rest.keymap ∧
      w'.rest.ble =
        (if w.rest.ble.serverInitialized then midiBleServerInit a'.radio v.rest.ble
        else (clientInitWithAddr a'.radio (some a.radio.lastConnected) v.rest.ble).2) ∧
      Restarts w.rest.ble.serverInitialized a'.radio.cyw43Fails a.radio.lastConnected
        w'.rest.ble) ∧
    ∀ (savedConfig : Mem) (v : World),
      numberAt savedConfig 0 2 ≠ configMagicNumber ∨
        numberAt savedConfig 2 2 ≠ configVersion →
      loadInternal abi savedConfig v = .ok v := by
  refine ⟨?_, fun savedConfig v h => loadInternal_ignored h v⟩
  obtain ⟨v, hv, hsane, hkeymap, hble⟩ :=
    reset_loaded displayOk w.rest.keymap (midiBleGetState a.radio w.rest.ble)
  obtain ⟨w', hw', hrest⟩ := midiBleInit_starts hsane a'
  have hstarted : w'.rest.ble =
      if w.rest.ble.serverInitialized then midiBleServerInit a'.radio v.rest.ble
      else (clientInitWithAddr a'.radio (some a.radio.lastConnected) v.rest.ble).2 := by
    rw [hrest]
    simp only [startRole, hble, midiBleSetInitialState]
    cases hs : w.rest.ble.serverInitialized with
    | true => simp [midiBleGetState, hs]
    | false =>
        obtain hc : a.radio.clientConnected = true := by simpa [hs] using hrole
        simp [midiBleGetState, hs, hc]
  refine ⟨v, w', ?_, hble, hw', by rw [hrest]; exact hkeymap, hstarted, ?_⟩
  · rw [← hv]
    simp only [loadInternal_saved, bleStateOf_stateAsInitialBytes abi hint]
    rfl
  · rw [hstarted, hble]
    exact restarts_booted a'.radio _ a.radio.lastConnected _

/-- A client that was linked to a peer with a random static address. -/
def linked : Answers where
  radio := ⟨false, true, (1, .replicate 6 0xc0)⟩
  deviceCount := 0
  deviceName := fun _ => ""
  accepts := fun _ => ⟨3, 3⟩
  nullElement := .uiStatus
  stray := none

/-- The server after its start. -/
def serving : Ble := midiBleServerInit linked.radio Ble.boot

/-- Flash as an erase leaves it. -/
def erased : Flash := ⟨fun _ => 0xff, 0, 0⟩

/-- The client comes back with its peer, and the server of another keymap as a server. -/
theorem settings_survive_reset_linked :
    (∃ v w' : World,
      (do let v ← displayInit true reset
          let initial := stateAsInitialBytes .short linked.radio Ble.boot ⟨fun _ => 0, fun _ => 0⟩
          loadInternal .short
            (saveInternal .short (fun _ => 0xaa) .accordionB initial.initialState erased).bytes v) =
        .ok v ∧
      midiBleInit linked v = .ok w' ∧
      w'.rest.keymap = .accordionB ∧
      w'.rest.ble.clientInitialized = true ∧
      w'.rest.ble.calls =
        [.cyw43ArchInit false, .setLastConnected 1 (.replicate 6 0xc0), .requestConnect 0]) ∧
    ∃ v w' : World,
      (do let v ← displayInit true reset
          let initial := stateAsInitialBytes .int linked.radio serving ⟨fun _ => 0, fun _ => 0⟩
          loadInternal .int
            (saveInternal .int (fun _ => 0xaa) .guitar initial.initialState erased).bytes v) =
        .ok v ∧
      midiBleInit linked v = .ok w' ∧
      w'.rest.keymap = .guitar ∧
      w'.rest.ble.serverInitialized = true ∧ w'.rest.ble.calls = [.cyw43ArchInit false] := by
  constructor
  · obtain ⟨⟨v, w', hload, -, hinit, hkeymap, -, hrestarts⟩, -⟩ :=
      settings_survive_reset .short linked
        { reset with rest := { reset.rest with keymap := .accordionB } } ⟨fun _ => 0, fun _ => 0⟩
        (fun _ => 0xaa) erased (.inr rfl) (by simp [linked, InInt]) linked true
    exact ⟨v, w', hload, hinit, hkeymap, hrestarts.clientInitialized, hrestarts.calls⟩
  · obtain ⟨⟨v, w', hload, -, hinit, hkeymap, -, hrestarts⟩, -⟩ :=
      settings_survive_reset .int linked
        { reset with rest := { reset.rest with keymap := .guitar, ble := serving } }
        ⟨fun _ => 0, fun _ => 0⟩ (fun _ => 0xaa) erased (.inl rfl) (by simp [linked, InInt])
        linked true
    exact ⟨v, w', hload, hinit, hkeymap, hrestarts.serverInitialized, hrestarts.calls⟩

end Reboot

end Keytar.Config
