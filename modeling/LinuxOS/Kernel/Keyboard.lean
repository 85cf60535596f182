import LinuxOS.Kernel.Lib
import LinuxOS.Kernel.Paging
import LinuxOS.Kernel.Tasks

/-!
# Terminals: `keyboard.c`

The line buffer of the displayed terminal, the terminal operations behind
descriptors 0 and 1, and the switch of the displayed terminal.
-/

namespace LinuxOS

def keyboardMaxBuffer : Int := 128
def terminalSize : UInt32 := 4000

namespace Kernel

/-- `terminal[display_terminal_id]` -/
def displayed (kernel : Kernel) : Terminal := kernel.terminal kernel.displayTerminalId

def modifyDisplayed (kernel : Kernel) (change : Terminal → Terminal) : Kernel :=
  { kernel with
    terminal := Function.update kernel.terminal kernel.displayTerminalId
      (change kernel.displayed) }

def modifyScreen (kernel : Kernel) (change : Screen → Screen) : Kernel :=
  { kernel with screen := change kernel.screen }

def print (kernel : Kernel) (message : String) : Kernel :=
  kernel.modifyScreen (printf message)

end Kernel

def clearScreen (kernel : Kernel) : Kernel :=
  kernel.modifyScreen fun screen => resetPosition (clear screen)

/-! ## The line buffer -/

def terminalBackspace (kernel : Kernel) : Kernel :=
  if kernel.displayed.keyboardBufferSize = 0 then kernel
  else
    (kernel.modifyScreen fun screen => backSpace (putc 0x20 (backSpace screen))).modifyDisplayed
      fun terminal => { terminal with
        keyboardBuffer :=
          Function.update terminal.keyboardBuffer terminal.keyboardBufferSize 0
        keyboardBufferSize := terminal.keyboardBufferSize - 1 }

def Terminal.append (terminal : Terminal) (char : UInt8) : Terminal :=
  { terminal with
    keyboardBuffer :=
      Function.update terminal.keyboardBuffer terminal.keyboardBufferSize char
    keyboardBufferSize := terminal.keyboardBufferSize + 1 }

def terminalBufAdd (charToPrint : UInt8) (kernel : Kernel) : Kernel :=
  if kernel.displayed.keyboardBufferSize ≥ keyboardMaxBuffer - 2 then kernel
  else if charToPrint = 0x0A then
    (kernel.modifyScreen (putc charToPrint)).modifyDisplayed fun terminal =>
      { terminal.append charToPrint with allowTerminalRead := 1 }
  else
    (kernel.modifyScreen (putc charToPrint)).modifyDisplayed fun terminal =>
      terminal.append charToPrint

/-! ## The operations of descriptors 0 and 1 -/

/-- `terminal_open`: its outer loop resets terminal 0 three times over. -/
def terminalOpen (kernel : Kernel) : Kernel :=
  { kernel with displayTerminalId := 0 }.modifyDisplayed fun terminal =>
    { terminal with
      allowTerminalRead := 0
      cursorPosX := 0
      cursorPosY := 0
      keyboardBufferSize := 0
      keyboardBuffer := fun i =>
        if 0 ≤ i ∧ i < keyboardMaxBuffer then 0 else terminal.keyboardBuffer i }

/--
The loop of `terminal_read`: `count` iterations are left, from cell `i` on.
Yields the bytes stored, the number of them counted in `numbytes`, and the buffer.
-/
def terminalReadLoop : Nat → Int → (Int → UInt8) → List UInt8 → Nat →
    List UInt8 × Nat × (Int → UInt8)
  | 0, _, keyboardBuffer, buf, numbytes => (buf, numbytes, keyboardBuffer)
  | count + 1, i, keyboardBuffer, buf, numbytes =>
      let char := keyboardBuffer i
      let cleared := Function.update keyboardBuffer i 0
      if char ≠ 0 then
        terminalReadLoop count (i + 1) cleared (buf ++ [char]) (numbytes + 1)
      else (buf ++ [char], numbytes, cleared)

def storesAt (buf : UInt32) (bytes : List UInt8) : Stores :=
  bytes.zipIdx.map fun (byte, index) => (buf + UInt32.ofNat index, byte)

/--
`terminal_read`, from the moment its spin loop ends: `none` while
`allow_terminal_read` is 0.  The drain runs with interrupts off, and its stores
are taken not to hit the keyboard buffer that it drains.
-/
def terminalRead (buf nbytes : UInt32) (kernel : Kernel) :
    Option (Kernel × Int32 × Stores) :=
  if kernel.displayed.allowTerminalRead = 0 then none
  else
    let (bytes, numbytes, keyboardBuffer) :=
      terminalReadLoop nbytes.toNat 0 kernel.displayed.keyboardBuffer [] 0
    some (kernel.modifyDisplayed fun terminal => { terminal with
        keyboardBuffer := keyboardBuffer
        keyboardBufferSize := 0
        allowTerminalRead := 0 },
      Int32.ofNat numbytes, storesAt buf bytes)

def terminalWriteLoop (source : Nat → UInt8) : Nat → Nat → Int32 → Screen → Screen × Int32
  | 0, _, numbytes, screen => (screen, numbytes)
  | count + 1, i, numbytes, screen =>
      terminalWriteLoop source count (i + 1)
        (if source i ≠ 0x0A then numbytes + 1 else numbytes) (putc (source i) screen)

def terminalWrite (source : Nat → UInt8) (nbytes : UInt32) (kernel : Kernel) :
    Kernel × Int32 :=
  let (screen, numbytes) := terminalWriteLoop source nbytes.toNat 0 0 kernel.screen
  ({ kernel with screen := screen }, numbytes)

/-! ## Switching the displayed terminal -/

def saveScreen (kernel : Kernel) : Kernel :=
  kernel.modifyDisplayed fun terminal => { terminal with
    cursorPosX := UInt32.ofInt kernel.screen.screenX
    cursorPosY := UInt32.ofInt kernel.screen.screenY
    terminalBuffer := fun k =>
      if k < terminalSize then kernel.screen.videoMem (video + k)
      else terminal.terminalBuffer k }

def restoreScreen (kernel : Kernel) : Kernel :=
  kernel.modifyScreen fun screen =>
    setScreenPos kernel.displayed.cursorPosX.toInt32.toInt
      kernel.displayed.cursorPosY.toInt32.toInt
      { screen with
        videoMem := fun addr =>
          if addr - video < terminalSize then kernel.displayed.terminalBuffer (addr - video)
          else screen.videoMem addr }

/-- The stack registers that the two `asm` statements of a switch store. -/
structure SwitchRegs where
  prevEsp : UInt32
  prevEbp : UInt32
  nextEsp : UInt32
  nextEbp : UInt32

def showTerminal (tid : UInt32) (bottom : Int32) (kernel : Kernel) : Kernel :=
  let paged := syscallPagingSetup (eightM + fourM * bottom.toUInt32) kernel
  let saved := { saveScreen paged with
    tssEsp0 := eightM - eightK * bottom.toUInt32 - 4 }
  restoreScreen { saved with displayTerminalId := tid.toInt32 }

def saveRegs (esp ebp task : UInt32) (kernel : Kernel) : Kernel :=
  kernel.modifyPcb task fun pcb => { pcb with oldEsp := esp, oldEbp := ebp }

/--
`switch_display_terminal`.  The source calls `find_bottom_task(tid)` a second
time for `tss.esp0`; nothing it reads has changed by then.
-/
def switchDisplayTerminal (regs : SwitchRegs) (tid : UInt32) (kernel : Kernel) :
    Option Kernel :=
  if kernel.displayTerminalId.toUInt32 = tid ∨ tid > 2 then some kernel
  else do
    let bottom ← findBottomTask kernel tid
    let (switched, _) ← switchRunningTask tid (showTerminal tid bottom kernel)
    let prev := saveRegs regs.prevEsp regs.prevEbp kernel.displayTerminalId.toUInt32 switched
    some (saveRegs regs.nextEsp regs.nextEbp tid prev)

end LinuxOS
