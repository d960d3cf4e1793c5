import Keytar.Lib.ChangeCache
import Keytar.Lib.SharedLatches
import Keytar.Lib.Runs
import Keytar.Lib.Memory
import Keytar.Lib.Heap
import Keytar.Lib.Bytes
import Keytar.Lib.Framing
import Keytar.Lib.Scaling
import Keytar.Midi
import Keytar.MidiValues
import Keytar.ControllerAgreement
import Keytar.ControllerTraffic
import Keytar.SendHistory
import Keytar.ControllerStream
import Keytar.AnalogStrip
import Keytar.StripScaling
import Keytar.Battery
import Keytar.KeyPositions
import Keytar.KeyboardMatrix
import Keytar.Ui.Element
import Keytar.Keyboard
import Keytar.LookupSafety
import Keytar.ReportEvents
import Keytar.NoteRange
import Keytar.Sounding
import Keytar.HeldKeys
import Keytar.Ui.Stack
import Keytar.Ui.Navigation
import Keytar.Ui.Menu
import Keytar.Ui.Frames
import Keytar.Ui.Viewport
import Keytar.Ui.Select
import Keytar.MidiBle
import Keytar.Menus
import Keytar.MenuStack
import Keytar.MenuSteps
import Keytar.BleRoles
import Keytar.StackDiscipline
import Keytar.Config
import Keytar.FlashWear
import Keytar.ConnectMenu
import Keytar.StripRelease
import Keytar.Settings
import Keytar.MainMenu
import Keytar.Traffic
import Keytar.Firmware
import Keytar.FirmwareKeys
import Keytar.MenuEffects
import Keytar.MenuTraffic
import Keytar.FurnishedMenus
import Keytar.FirmwareSafety
import Keytar.FirmwareWires
import Keytar.PressedKeymaps
import Keytar.FirmwareScreen
import Keytar.Lib.Views
import Keytar.MenuViews
import Keytar.FirmwareViews
import Keytar.MenuPanel
import Keytar.WithinReach
import Keytar.FirmwareStrip
import Keytar.FirmwareMute
