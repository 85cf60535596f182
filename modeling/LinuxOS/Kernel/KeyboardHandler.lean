import LinuxOS.Kernel.Keyboard

/-!
# Key events: `keyboard_handler`

The handler records which keys are down, works out the character of the key
and then makes at most one call.  The calls are named here, so that a sequence
of them can stand for whatever uses a terminal.
-/

namespace LinuxOS

/--
The calls that use the screen and the displayed terminal.  The buffer of a read
is taken to lie outside of `terminal[]`, which a read then changes by its own
drain only.
-/
inductive TerminalOp where
  | putc (c : UInt8)
  | bufAdd (charToPrint : UInt8)
  | backspace
  | clearScreen
  | read (buf nbytes : UInt32)
  | switchDisplay (regs : SwitchRegs) (tid : UInt32)

def TerminalOp.perform : TerminalOp → Kernel → Option Kernel
  | .putc c, kernel => some (kernel.modifyScreen (LinuxOS.putc c))
  | .bufAdd charToPrint, kernel => some (terminalBufAdd charToPrint kernel)
  | .backspace, kernel => some (terminalBackspace kernel)
  | .clearScreen, kernel => some (LinuxOS.clearScreen kernel)
  | .read buf nbytes, kernel => (terminalRead buf nbytes kernel).map fun (after, _, _) => after
  | .switchDisplay regs tid, kernel => switchDisplayTerminal regs tid kernel

/-! ## Scan codes -/

def leftshift : UInt8 := 0x2A
def rightshift : UInt8 := 0x36
def leftCtrl : UInt8 := 0x1D
def leftAlt : UInt8 := 0x38
def capsLock : UInt8 := 0x3A
def function1Key : UInt8 := 0x3B
def function2Key : UInt8 := 0x3C
def function3Key : UInt8 := 0x3D
def pressReleaseOffset : UInt8 := 0x80

/-- The characters of `scan_codes`, by row: plain, with Shift, with Caps Lock. -/
def scanCodes : List (UInt8 × UInt8 × UInt8) :=
  [(0, 0, 0), (0, 0, 0), (0x31, 0x21, 0x31), (0x32, 0x40, 0x32),
   (0x33, 0x23, 0x33), (0x34, 0x24, 0x34), (0x35, 0x25, 0x35), (0x36, 0x5E, 0x36),
   (0x37, 0x26, 0x37), (0x38, 0x2A, 0x38), (0x39, 0x28, 0x39), (0x30, 0x29, 0x30),
   (0x2D, 0x5F, 0x2D), (0x3D, 0x2B, 0x3D), (0, 0, 0), (0x09, 0x09, 0x09),
   (0x71, 0x51, 0x51), (0x77, 0x57, 0x57), (0x65, 0x45, 0x45), (0x72, 0x52, 0x52),
   (0x74, 0x54, 0x54), (0x79, 0x59, 0x59), (0x75, 0x55, 0x55), (0x69, 0x49, 0x49),
   (0x6F, 0x4F, 0x4F), (0x70, 0x50, 0x50), (0x5B, 0x7B, 0x5B), (0x5D, 0x7D, 0x5D),
   (0x0A, 0x0A, 0x0A), (0, 0, 0), (0x61, 0x41, 0x41), (0x73, 0x53, 0x53),
   (0x64, 0x44, 0x44), (0x66, 0x46, 0x46), (0x67, 0x47, 0x47), (0x68, 0x48, 0x48),
   (0x6A, 0x4A, 0x4A), (0x6B, 0x4B, 0x4B), (0x6C, 0x4C, 0x4C), (0x3B, 0x3A, 0x3B),
   (0x27, 0x22, 0x27), (0x60, 0x7E, 0x60), (0, 0, 0), (0x5C, 0x7C, 0x5C),
   (0x7A, 0x5A, 0x5A), (0x78, 0x58, 0x58), (0x63, 0x43, 0x43), (0x76, 0x56, 0x56),
   (0x62, 0x42, 0x42), (0x6E, 0x4E, 0x4E), (0x6D, 0x4D, 0x4D), (0x2C, 0x3C, 0x2C),
   (0x2E, 0x3E, 0x2E), (0x2F, 0x3F, 0x2F), (0, 0, 0), (0, 0, 0),
   (0, 0, 0), (0x20, 0x20, 0x20), (0, 0, 0), (0, 0, 0),
   (0, 0, 0)]

/--
The fourth column of `scan_codes`, by row: 1 where the key is down.  The table
has 61 rows; row 61, where F3 is recorded, is memory behind it.
-/
abbrev KeyDown := Nat → UInt8

def KeyDown.isDown (keyDown : KeyDown) (key : UInt8) : Prop := keyDown key.toNat = 1

instance (keyDown : KeyDown) (key : UInt8) : Decidable (keyDown.isDown key) :=
  inferInstanceAs (Decidable (_ = _))

def recordKey (pressCode : UInt8) (keyDown : KeyDown) : KeyDown :=
  if pressCode ≤ function3Key then Function.update keyDown pressCode.toNat 1
  else if pressCode ≠ 0xBA then
    Function.update keyDown (pressCode - pressReleaseOffset).toNat 0
  else keyDown

/-- The press has been recorded already when this runs. -/
def toggleCapsLock (pressCode : UInt8) (keyDown : KeyDown) : KeyDown :=
  if pressCode = capsLock then
    if keyDown.isDown pressCode then Function.update keyDown pressCode.toNat 0
    else Function.update keyDown pressCode.toNat 1
  else keyDown

def charOfKey (pressCode : UInt8) (keyDown : KeyDown) : UInt8 :=
  let (plain, shifted, upper) := scanCodes.getD pressCode.toNat (0, 0, 0)
  let shift := keyDown.isDown leftshift ∨ keyDown.isDown rightshift
  let char :=
    if keyDown capsLock.toNat = 0 then
      if shift then shifted else plain
    else 0
  if keyDown.isDown capsLock then
    if shift then
      if shifted = upper then plain else shifted
    else upper
  else char

def callOfKey (regs : SwitchRegs) (pressCode : UInt8) (keyDown : KeyDown)
    (charToPrint : UInt8) : Option TerminalOp :=
  if keyDown.isDown leftCtrl ∧ keyDown.isDown 0x26 then some .clearScreen
  else if pressCode = 0x0E then some .backspace
  else if keyDown.isDown leftAlt ∧ keyDown.isDown function1Key then
    some (.switchDisplay regs 0)
  else if keyDown.isDown leftAlt ∧ keyDown.isDown function2Key then
    some (.switchDisplay regs 1)
  else if keyDown.isDown leftAlt ∧ keyDown.isDown function3Key then
    some (.switchDisplay regs 2)
  else if charToPrint ≠ 0 then some (.bufAdd charToPrint)
  else none

def keyPress (regs : SwitchRegs) (pressCode : UInt8) (keyDown : KeyDown) :
    KeyDown × Option TerminalOp :=
  if pressCode > 0xBD then (keyDown, none)
  else if pressCode > 0x3D ∧ pressCode < 0x81 then (keyDown, none)
  else
    let recorded := recordKey pressCode keyDown
    if pressCode ≤ capsLock then
      let toggled := toggleCapsLock pressCode recorded
      (toggled, callOfKey regs pressCode toggled (charOfKey pressCode toggled))
    else (recorded, callOfKey regs pressCode recorded 0)

structure Console where
  kernel : Kernel
  keyDown : KeyDown

/-- The handler where none of its stores faults; `handleKey` has the other case. -/
def keyboardHandler (regs : SwitchRegs) (pressCode : UInt8) (console : Console) :
    Option Console :=
  let (keyDown, op) := keyPress regs pressCode console.keyDown
  match op with
  | none => some ⟨console.kernel, keyDown⟩
  | some op => (op.perform console.kernel).map fun kernel => ⟨kernel, keyDown⟩

end LinuxOS
