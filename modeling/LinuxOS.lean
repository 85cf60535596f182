import LinuxOS.Foundation.Transition
import LinuxOS.Foundation.Forest
import LinuxOS.Foundation.Refinement
import LinuxOS.Foundation.PageWalk
import LinuxOS.Foundation.Scan
import LinuxOS.Foundation.TextGrid
import LinuxOS.Foundation.Numeral
import LinuxOS.Foundation.Assembly
import LinuxOS.Foundation.Client
import LinuxOS.Foundation.Interrupts
import LinuxOS.Kernel.Boot
import LinuxOS.Kernel.KeyboardHandler
import LinuxOS.Kernel.InterruptController
import LinuxOS.Kernel.InterruptTable
import LinuxOS.Kernel.Copies
import LinuxOS.Kernel.WordCopies
import LinuxOS.Kernel.Printf
import LinuxOS.Process.Effects
import LinuxOS.Process.Tree
import LinuxOS.Process.AddressSpace
import LinuxOS.Process.Bracket
import LinuxOS.Process.Result
import LinuxOS.Process.Shells
import LinuxOS.Process.Launcher
import LinuxOS.Process.SlotRace
import LinuxOS.Process.Programs
import LinuxOS.Process.Leftovers
import LinuxOS.Process.Release
import LinuxOS.Process.Exceptions
import LinuxOS.Process.Dispatch
import LinuxOS.Process.Arguments
import LinuxOS.Process.Commands
import LinuxOS.Process.Stack
import LinuxOS.Files.ReadData
import LinuxOS.Files.Lookup
import LinuxOS.Files.Opening
import LinuxOS.Files.Descriptors
import LinuxOS.Files.Directory
import LinuxOS.Files.RtcRate
import LinuxOS.Tty.LineDiscipline
import LinuxOS.Tty.Editing
import LinuxOS.Tty.BufferBounds
import LinuxOS.Tty.Screen
import LinuxOS.Tty.Grid
import LinuxOS.Tty.Echo
import LinuxOS.Tty.Formatting
import LinuxOS.Tty.ScanCodes
import LinuxOS.Tty.Chords
import LinuxOS.Tty.Switch
import LinuxOS.Tty.Cursor
import LinuxOS.Tty.WriteCount
import LinuxOS.Memory.PageFrame
import LinuxOS.Memory.UserPointers
import LinuxOS.Memory.CallBuffers
import LinuxOS.Memory.Vidmap
import LinuxOS.Devices.Setup
import LinuxOS.Machine.Events
import LinuxOS.Machine.Effects
import LinuxOS.Machine.Isolation
import LinuxOS.Machine.Progress
import LinuxOS.Machine.Acknowledgement
import LinuxOS.User.Requests
import LinuxOS.User.Calls
import LinuxOS.User.Reading
import LinuxOS.User.Cat
import LinuxOS.User.Shell
